import HarvestCircle.IdentityStages

/-! # What recovery does to an account

Recovery never writes a credential and never saves an identity that is not there
(`Taken`), so a completed removal stays.  It deletes by key, however: a row that was
left behind before its credential was written, or a removal that was, takes with it
what a later operation on the same key completed.  `Destroys` is exactly that.
-/
namespace HarvestCircle
open Checked Interruption Installation

/-! ## Calls that leave the accounts alone -/

section Rules
variable {t : Installation} {request : DurableRequestId} {key : PublicKey} {now : UnixTimestamp}
  {C : Installation → Prop} {expected : DurableOperationPhase}

theorem ensures_advance {next : DurableOperationPhase}
    {Q : DurableIdentityOperation → Installation → Prop} (hc : C t)
    (h : ∀ row journal, Q row { t with journal }) :
    Ensures (call (advanceDurableOperation request expected next now none)) Q C t := by
  refine .call hc fun row t' hrun => ?_
  obtain ⟨_, -, -, -, -, -, -, -, -, rfl⟩ := advanceDurableOperation_eq_ok hrun
  exact h row _

theorem ensures_finalize {outcome : DurableTerminalOutcome}
    {Q : DurableOperationReceipt → Installation → Prop} (hc : C t)
    (h : ∀ receipt journal, Q receipt { t with journal }) :
    Ensures (call (finalizeDurableOperation request expected outcome none now)) Q C t := by
  refine .call hc fun receipt t' hrun => ?_
  obtain ⟨journal, rfl⟩ := finalizeDurableOperation_stores hrun
  exact h receipt journal

theorem ensures_select {selected : Option PublicKey} {Q : Unit → Installation → Prop} (hc : C t)
    (h : Q () { t with selected }) : Ensures (call (saveSelectedIdentity selected)) Q C t := by
  refine .call hc fun _ t' hrun => ?_
  obtain ⟨rfl, -⟩ := saveSelectedIdentity_eq_ok hrun
  exact h

/-- Afterwards the key has no credential. -/
theorem deleteIfPresent_ensures {Q : Unit → Installation → Prop} (hc : C t)
    (h : ∀ secrets : Std.ExtTreeMap PublicKey Credential, secrets[key]? = none →
      (∀ other ≠ key, secrets[other]? = t.secrets[other]?) → Q () { t with secrets }) :
    Ensures (deleteIfPresent request key) Q C t := by
  refine .bind (.query hc fun present hpresent => ?_)
  split
  · refine .call hc fun _ t' hdelete => ?_
    obtain rfl := delete_eq_ok hdelete
    refine h _ (by simp) fun other hne => ?_
    simp [Std.ExtTreeMap.getElem?_erase, hne.symm]
  · rename_i habsent
    rw [← Except.ok.inj hpresent, Option.not_isSome_iff_eq_none] at habsent
    exact .pure (h t.secrets habsent fun _ _ => rfl)

/-- Afterwards the key is not saved; nothing changes if it was not. -/
theorem removeIfSaved_ensures {Q : Unit → Installation → Prop} (hc : C t)
    (h : ∀ identities selected, identities.find key = none →
      (∀ other ≠ key, identities.find other = t.identities.find other) →
      (t.identities.find key = none → selected = t.selected) →
      Q () { t with identities, selected }) :
    Ensures (removeIfSaved key) Q C t := by
  refine .bind (.query hc fun saved hsaved => ?_)
  obtain rfl : t.identities.find key = saved := Except.ok.inj hsaved
  split
  · rename_i identity hfound
    refine .call hc fun _ t' hremove => ?_
    obtain ⟨selected, rfl⟩ := removeIdentity_eq_ok hremove
    refine h _ selected (by simp) (fun other hne => ?_) fun hnone => ?_
    · rw [IdentityTable.find_erase, if_neg hne.symm]
    · rw [hnone] at hfound
      cases hfound
  · rename_i hnone
    exact .pure (h t.identities t.selected hnone (fun _ _ => rfl) fun _ => rfl)

end Rules

/-! ## Recovery only takes away -/

/-- Only the account of the key was touched, and nothing was added to it. -/
structure Taken (key : PublicKey) (s t : Installation) : Prop where
  elsewhere : Elsewhere key s t
  secrets : s.secrets[key]? = none → t.secrets[key]? = none
  identities : s.identities.find key = none → t.identities.find key = none

namespace Taken
variable {key : PublicKey} {s t : Installation} {operation : DurableIdentityOperation}
  {now : UnixTimestamp}

theorem refl (key : PublicKey) (s : Installation) : Taken key s s :=
  ⟨fun _ _ => ⟨rfl, rfl⟩, id, id⟩

theorem deleteIfPresent {request : DurableRequestId} (h : Taken key s t) :
    Maintains (deleteIfPresent request key) (Taken key s) t :=
  deleteIfPresent_ensures h fun _ hgone hother =>
    ⟨h.elsewhere.trans fun other hne => ⟨hother other hne, rfl⟩, fun _ => hgone, h.identities⟩

theorem removeIfSaved (h : Taken key s t) :
    Maintains (removeIfSaved key) (Taken key s) t :=
  removeIfSaved_ensures h fun _ _ hgone hother _ =>
    ⟨h.elsewhere.trans fun other hne => ⟨rfl, hother other hne⟩, h.secrets, fun _ => hgone⟩

theorem restoreMetadata (h : Taken operation.identity s t) :
    Maintains (restoreMetadata operation) (Taken operation.identity s) t := by
  unfold HarvestCircle.restoreMetadata
  split
  · refine .bind (.query h fun saved hsaved => ?_)
    split
    · rename_i previous
      have hkey : previous.publicKey = operation.identity :=
        IdentityTable.publicKey_of_find (Except.ok.inj hsaved)
      refine .call h fun _ t' hupdate => ?_
      obtain ⟨rfl, -⟩ := updateIdentity_eq_ok hupdate
      refine ⟨h.elsewhere.trans fun other hne => ⟨rfl, ?_⟩, h.secrets, fun hnone => ?_⟩
      · rw [IdentityTable.find_save, if_neg fun heq => hne (heq.symm.trans hkey)]
      · have := h.identities hnone
        rw [Except.ok.inj hsaved] at this
        cases this
    · exact .pure h
  · exact h.removeIfSaved

theorem finishDurableSelection (h : Taken key s t) :
    Maintains (finishDurableSelection operation now) (Taken key s) t := by
  refine .bind (ensures_select h ?_)
  refine .bind (ensures_advance ⟨h.1, h.2, h.3⟩ fun _ _ => ?_)
  exact .bind (ensures_finalize ⟨h.1, h.2, h.3⟩ fun _ _ => .pure ⟨h.1, h.2, h.3⟩)

theorem finishCompensation (h : Taken operation.identity s t) :
    Maintains (finishCompensation operation now) (Taken operation.identity s) t := by
  refine h.restoreMetadata.andThen fun _ t h => ?_
  refine .bind (ensures_select h ?_)
  refine .bind (ensures_advance ⟨h.1, h.2, h.3⟩ fun _ _ => ?_)
  exact .bind (ensures_finalize ⟨h.1, h.2, h.3⟩ fun _ _ => .pure ⟨h.1, h.2, h.3⟩)

theorem compensateDurableAddition (h : Taken operation.identity s t) :
    Maintains (compensateDurableAddition operation now) (Taken operation.identity s) t :=
  h.deleteIfPresent.andThen fun _ _ h => h.finishCompensation

theorem recoverDurableAddition (h : Taken operation.identity s t) :
    Maintains (recoverDurableAddition operation now) (Taken operation.identity s) t := by
  have hfinalize : ∀ {expected outcome} {t : Installation}, Taken operation.identity s t →
      Ensures (do
        let _ ← call (finalizeDurableOperation operation.requestId expected outcome none now)
        return ()) (fun _ => Taken operation.identity s) (Taken operation.identity s) t :=
    fun h => .bind (ensures_finalize h fun _ _ => .pure ⟨h.1, h.2, h.3⟩)
  unfold HarvestCircle.recoverDurableAddition
  split
  · exact h.deleteIfPresent.andThen fun _ _ h => hfinalize h
  · refine .bind (.query h fun metadata _ => ?_)
    split
    · refine .bind (ensures_advance h fun _ _ => ?_)
      exact finishDurableSelection ⟨h.1, h.2, h.3⟩
    · refine .bind (ensures_advance h fun _ _ => ?_)
      exact compensateDurableAddition ⟨h.1, h.2, h.3⟩
  · exact h.finishDurableSelection
  · exact hfinalize h
  · exact h.compensateDurableAddition
  · exact hfinalize h
  · exact hfinalize h
  · exact .pure h

variable {phase : DurableOperationPhase}

theorem recoverCredentialDeletion (h : Taken operation.identity s t) :
    Maintains (recoverCredentialDeletion operation now phase) (Taken operation.identity s) t := by
  unfold HarvestCircle.recoverCredentialDeletion
  split
  · refine h.deleteIfPresent.andThen fun _ _ h => ?_
    exact .bind (ensures_advance h fun _ _ => .pure ⟨h.1, h.2, h.3⟩)
  · exact .pure h

theorem recoverMetadataDeletion (h : Taken operation.identity s t) :
    Maintains (recoverMetadataDeletion operation now phase) (Taken operation.identity s) t := by
  unfold HarvestCircle.recoverMetadataDeletion
  split
  · refine h.removeIfSaved.andThen fun _ _ h => ?_
    exact .bind (ensures_advance h fun _ _ => .pure ⟨h.1, h.2, h.3⟩)
  · exact .pure h

theorem finishRemoval (h : Taken key s t) :
    Maintains (finishRemoval operation now phase) (Taken key s) t := by
  have hlast : ∀ {t phase}, Taken key s t →
      Maintains (finalizeRemoval operation now phase) (Taken key s) t := by
    intro t phase h
    unfold finalizeRemoval
    split
    · exact .bind (ensures_finalize h fun _ _ => .pure ⟨h.1, h.2, h.3⟩)
    · exact .pure h
  unfold HarvestCircle.finishRemoval recoverSelection
  refine .bind ?_
  split
  · refine .bind (ensures_select h ?_)
    exact .bind (ensures_advance ⟨h.1, h.2, h.3⟩ fun _ _ => .pure (hlast ⟨h.1, h.2, h.3⟩))
  · exact .pure (hlast h)

theorem recoverDurableRemoval (h : Taken operation.identity s t) :
    Maintains (recoverDurableRemoval operation now) (Taken operation.identity s) t := by
  refine h.recoverCredentialDeletion.andThen fun _ _ h => ?_
  exact h.recoverMetadataDeletion.andThen fun _ _ h => h.finishRemoval

/-- Recovering a row only takes away, and only from the account of the row. -/
theorem recoverDurableOperation (operation : DurableIdentityOperation) (now : UnixTimestamp)
    (t : Installation) :
    Maintains (recoverDurableOperation now operation) (Taken operation.identity t) t := by
  unfold HarvestCircle.recoverDurableOperation
  split
  · exact recoverDurableAddition (.refl _ t)
  · exact recoverDurableAddition (.refl _ t)
  · exact recoverDurableAddition (.refl _ t)
  · exact recoverDurableRemoval (.refl _ t)

end Taken

/-! ## What recovery spares and what it destroys -/

/-- The row's recovery deletes the credential or the metadata that the key has now. -/
def Destroys (key : PublicKey) (operation : DurableIdentityOperation) : Prop :=
  operation.identity = key ∧ (operation.phase = .intentRecorded ∨
    (operation.kind = .remove ∧ operation.phase = .credentialDeleted) ∨
    (operation.kind ≠ .remove ∧ operation.phase = .compensationPending))

instance (key : PublicKey) (operation : DurableIdentityOperation) :
    Decidable (Destroys key operation) := inferInstanceAs (Decidable (_ ∧ _))

/-- The account of the key is as it was. -/
structure Spared (key : PublicKey) (s t : Installation) : Prop where
  secrets : t.secrets[key]? = s.secrets[key]?
  identities : t.identities.find key = s.identities.find key

/-- The account of the key lacks its credential or its metadata. -/
def Lost (key : PublicKey) (t : Installation) : Prop :=
  t.secrets[key]? = none ∨ t.identities.find key = none

section
variable {key : PublicKey} {operation : DurableIdentityOperation} {now : UnixTimestamp}
  {s t : Installation} {other : PublicKey} {relays : RelayConfiguration}

theorem Taken.spared (h : Taken other s t) (hne : key ≠ other) : Spared key s t :=
  ⟨(h.elsewhere key hne).1, (h.elsewhere key hne).2⟩

theorem Taken.gone (h : Taken other s t) (hsecret : s.secrets[key]? = none) :
    t.secrets[key]? = none := by
  by_cases hkey : key = other
  · subst hkey
    exact h.secrets hsecret
  · rw [(h.spared hkey).secrets, hsecret]

theorem Taken.forgotten (h : Taken other s t) (hidentity : s.identities.find key = none) :
    t.identities.find key = none := by
  by_cases hkey : key = other
  · subst hkey
    exact h.identities hidentity
  · rw [(h.spared hkey).identities, hidentity]

theorem Taken.lost (h : Taken other s t) (hlost : Lost key s) : Lost key t :=
  hlost.imp h.gone h.forgotten

/-- A row that does not destroy the account finishes without touching it. -/
theorem recover_spares (hsafe : ¬ Destroys key operation) (havailable : Attempt.Available key t) :
    Ensures (recoverDurableOperation now operation) (fun _ => Spared key t) (fun _ => True) t := by
  by_cases hkey : operation.identity = key
  · have hintent : operation.phase ≠ .intentRecorded := fun h => hsafe ⟨hkey, .inl h⟩
    have hspared : ∀ selected journal, Spared key t { t with selected, journal } :=
      fun _ _ => ⟨rfl, rfl⟩
    have hfinalize : ∀ expected outcome selected journal,
        Ensures (do
          let _ ← call (finalizeDurableOperation operation.requestId expected outcome none now)
          return ()) (fun _ => Spared key t) (fun _ => True) { t with selected, journal } :=
      fun _ _ _ _ => .bind (ensures_finalize trivial fun _ _ => .pure (hspared _ _))
    have hfinish : ∀ journal, Ensures (finishDurableSelection operation now)
        (fun _ => Spared key t) (fun _ => True) { t with journal } :=
      fun _ => .bind (ensures_select trivial (.bind (ensures_advance trivial fun _ _ =>
        hfinalize _ _ _ _)))
    by_cases hremove : operation.kind = .remove
    · have hdeleted : operation.phase ≠ .credentialDeleted :=
        fun h => hsafe ⟨hkey, .inr (.inl ⟨hremove, h⟩)⟩
      unfold recoverDurableOperation
      rw [hremove]
      unfold recoverDurableRemoval recoverCredentialDeletion recoverMetadataDeletion
      rw [if_neg hintent]
      refine .bind (.pure (.bind ?_))
      rw [if_neg hdeleted]
      refine .pure ?_
      unfold finishRemoval recoverSelection
      refine .bind ?_
      split
      · refine .bind (ensures_select trivial (.bind (ensures_advance trivial fun _ _ => .pure ?_)))
        exact hfinalize _ _ _ _
      · refine .pure ?_
        unfold finalizeRemoval
        split
        · exact hfinalize _ _ _ t.journal
        · exact .pure (hspared _ t.journal)
    · have hcompensation : operation.phase ≠ .compensationPending :=
        fun h => hsafe ⟨hkey, .inr (.inr ⟨hremove, h⟩)⟩
      have haddition : Ensures (recoverDurableAddition operation now) (fun _ => Spared key t)
          (fun _ => True) t := by
        unfold recoverDurableAddition
        split
        · exact absurd ‹_› hintent
        · refine .bind (.query trivial fun metadata hmetadata => ?_)
          obtain rfl : t.identities.find operation.identity = metadata := Except.ok.inj hmetadata
          rw [if_pos (hkey ▸ havailable)]
          exact .bind (ensures_advance trivial fun _ journal => hfinish journal)
        · exact hfinish t.journal
        · exact hfinalize _ _ _ t.journal
        · exact absurd ‹_› hcompensation
        · exact hfinalize _ _ _ t.journal
        · exact hfinalize _ _ _ t.journal
        · exact .pure (hspared _ t.journal)
      unfold recoverDurableOperation
      split
      · exact haddition
      · exact haddition
      · exact haddition
      · exact absurd ‹_› hremove
  · exact (Taken.recoverDurableOperation operation now t).mono
      (fun _ _ h => h.spared (Ne.symm hkey)) fun _ _ => trivial

/-- What only takes away leaves a lost account lost. -/
theorem Lost.kept {α : Type} {p : IdentityProgram α}
    (hp : Maintains p (Taken other t) t) (h : Lost key t) :
    Ensures p (fun _ => Lost key) (fun _ => True) t :=
  hp.mono (fun _ _ ht => ht.lost h) fun _ _ => trivial

/-- A row that destroys the account leaves it without its credential or its metadata. -/
theorem recover_destroys (h : Destroys key operation) :
    Ensures (recoverDurableOperation now operation) (fun _ => Lost key) (fun _ => True) t := by
  obtain ⟨rfl, hphase⟩ := h
  by_cases hremove : operation.kind = .remove
  · unfold recoverDurableOperation
    rw [hremove]
    unfold recoverDurableRemoval
    rcases hphase with hintent | ⟨-, hdeleted⟩ | ⟨hne, -⟩
    · rw [hintent, recoverCredentialDeletion, if_pos rfl]
      refine .bind (.bind (deleteIfPresent_ensures trivial fun _ hgone _ => ?_))
      refine .bind (ensures_advance trivial fun _ _ => .pure (.bind ?_))
      refine (Lost.kept (Taken.recoverMetadataDeletion (.refl _ _)) (.inl hgone)).imp
        fun _ _ hlost => ?_
      exact Lost.kept (Taken.finishRemoval (.refl operation.identity _)) hlost
    · rw [hdeleted, recoverCredentialDeletion, if_neg (by simp)]
      refine .bind (.pure (.bind ?_))
      rw [recoverMetadataDeletion, if_pos rfl]
      refine .bind (removeIfSaved_ensures trivial fun _ _ hgone _ _ => ?_)
      refine .bind (ensures_advance trivial fun _ _ => .pure ?_)
      exact Lost.kept (Taken.finishRemoval (.refl operation.identity _)) (.inr hgone)
    · exact absurd hremove hne
  · have haddition : Ensures (recoverDurableAddition operation now)
        (fun _ => Lost operation.identity) (fun _ => True) t := by
      unfold recoverDurableAddition
      rcases hphase with hintent | ⟨heq, -⟩ | ⟨-, hpending⟩
      · rw [hintent]
        refine .bind (deleteIfPresent_ensures trivial fun _ hgone _ => ?_)
        exact .bind (ensures_finalize trivial fun _ _ => .pure (.inl hgone))
      · exact absurd heq hremove
      · rw [hpending]
        refine .bind (deleteIfPresent_ensures trivial fun _ hgone _ => ?_)
        exact Lost.kept (Taken.finishCompensation (.refl _ _)) (.inl hgone)
    unfold recoverDurableOperation
    split
    · exact haddition
    · exact haddition
    · exact haddition
    · exact absurd ‹_› hremove

/-! ## All rows -/

/-- A restart recovers the rows that are unfinished when it begins. -/
theorem restart_ensures {I : List DurableIdentityOperation →
    Installation → Prop} {C : Installation → Prop} (hc : ∀ core, C { t with core })
    (hstart : ∀ core, I [] { t with core })
    (hround : ∀ pre row post, unfinished t.journal = pre ++ row :: post → ∀ u, I pre u →
      Ensures (recoverDurableOperation now row) (fun _ => I (pre ++ [row])) C u) :
    Ensures (restart relays now) (fun _ => I (unfinished t.journal)) C t := by
  refine .bind (ensures_onCore hc fun _ core => ?_)
  refine .bind (.query (hc core) fun rows hrows => ?_)
  simp only [listUnfinishedDurableOperations, accepted] at hrows
  obtain ⟨-, rfl⟩ := hrows
  exact .forM hround (hstart core)

/-- An account that no row destroys survives. -/
theorem restart_spares (hsafe : ∀ row ∈ unfinished t.journal, ¬ Destroys key row)
    (havailable : Attempt.Available key t) :
    Ensures (restart relays now) (fun _ => Spared key t) (fun _ => True) t := by
  refine restart_ensures (I := fun _ => Spared key t) (fun _ => trivial) (fun _ => ⟨rfl, rfl⟩)
    fun pre row post hrows u hu => ?_
  have hkept : Attempt.Available key u := by
    rw [Attempt.Available, hu.identities]
    exact havailable
  refine (recover_spares (hsafe row (by rw [hrows]; simp)) hkept).imp fun _ v hv => ?_
  exact ⟨hv.secrets.trans hu.secrets, hv.identities.trans hu.identities⟩

/-- An account that some row destroys is lost. -/
theorem restart_destroys (h : ∃ row ∈ unfinished t.journal, Destroys key row) :
    Ensures (restart relays now) (fun _ => Lost key) (fun _ => True) t := by
  refine (restart_ensures (I := fun done u => (∃ row ∈ done, Destroys key row) → Lost key u)
    (fun _ => trivial) (fun _ hnone => ?_) fun pre row post _ u hu => ?_).imp
      fun _ _ hlost => hlost h
  · obtain ⟨row, hrow, -⟩ := hnone
    cases hrow
  · by_cases hrow : Destroys key row
    · exact (recover_destroys hrow).imp fun _ _ hlost _ => hlost
    · refine (Taken.recoverDurableOperation row now u).mono (fun _ v hv hsome => ?_)
        fun _ _ => trivial
      obtain ⟨other, hother, hdestroys⟩ := hsome
      rcases List.mem_append.mp hother with hpre | hsame
      · exact hv.lost (hu ⟨other, hpre, hdestroys⟩)
      · rw [List.mem_singleton.mp hsame] at hdestroys
        exact absurd hdestroys hrow

/-- An account that is gone stays gone. -/
theorem restart_gone (hsecret : t.secrets[key]? = none) (hidentity : t.identities.find key = none) :
    Ensures (restart relays now)
      (fun _ u => u.secrets[key]? = none ∧ u.identities.find key = none) (fun _ => True) t :=
  restart_ensures (I := fun _ u => u.secrets[key]? = none ∧ u.identities.find key = none)
    (fun _ => trivial) (fun _ => ⟨hsecret, hidentity⟩) fun _ row _ _ u hu =>
      (Taken.recoverDurableOperation row now u).mono
        (fun _ _ hv => ⟨hv.gone hu.1, hv.forgotten hu.2⟩) fun _ _ => trivial

end

end HarvestCircle
