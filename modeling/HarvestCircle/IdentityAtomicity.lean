import HarvestCircle.IdentitySessions

/-! # An identity operation is all or nothing

One operation is stopped anywhere, and the process restarts any number of times, each
time stopped anywhere again, until one recovery gets through.  `IdentityStages` says
what the stores look like at each phase of the operation's row; here recovery is
shown to stay within those phases and to end at the last one.
-/
namespace HarvestCircle
open Checked Interruption Installation

/-! ## The row that recovery finds -/

variable {journal : Journal} {row : DurableIdentityOperation}

/-- What the journal lists as unfinished. -/
theorem mem_unfinished :
    row ∈ unfinished journal ↔
      (∃ request : DurableRequestId, journal[request]? = some row) ∧ row.terminal = none := by
  simp only [unfinished, List.mem_filter, List.mem_map, decide_eq_true_eq, Prod.exists,
    exists_eq_right, Std.ExtTreeMap.mem_toList_iff_getElem?_eq_some]

variable {request : DurableRequestId} {now : UnixTimestamp} {relays : RelayConfiguration}
  {s t : Installation}

/-- If only one request is unfinished, the journal lists its row and nothing else. -/
theorem unfinished_eq_singleton (hrow : journal[request]? = some row) (hopen : row.terminal = none)
    (hothers : ∀ other row', other ≠ request → journal[other]? = some row' →
      row'.terminal ≠ none) : unfinished journal = [row] := by
  unfold unfinished
  rw [List.filter_map]
  set rows := journal.toList.filter
    ((fun operation : DurableIdentityOperation => decide (operation.terminal = none)) ∘ (·.2))
    with hrows
  have hdistinct : rows.Pairwise fun a b => compare a.1 b.1 ≠ .eq :=
    Std.ExtTreeMap.distinct_keys_toList.filter _
  have hmem : ∀ p, p ∈ rows ↔ journal[p.1]? = some p.2 ∧ p.2.terminal = none := by
    intro p
    simp [hrows, List.mem_filter, ← Std.ExtTreeMap.mem_toList_iff_getElem?_eq_some]
  have hkey : ∀ p ∈ rows, p.1 = request := by
    intro p hp
    obtain ⟨hp, hterminal⟩ := (hmem p).mp hp
    by_contra hne
    exact hothers p.1 p.2 hne hp hterminal
  have hself : (request, row) ∈ rows := (hmem _).mpr ⟨hrow, hopen⟩
  match rows, hdistinct, hkey, hself with
  | [p], _, _, hself =>
    rw [← List.mem_singleton.mp hself]
    rfl
  | p :: q :: _, hdistinct, hkey, _ =>
    have hne := (List.pairwise_cons.mp hdistinct).1 q (by simp)
    rw [hkey p (by simp), hkey q (by simp)] at hne
    exact absurd (by simp) hne

namespace Attempt

/-- The row is the attempt's, at a phase. -/
structure Recorded (a : Attempt) (phase : DurableOperationPhase)
    (row : DurableIdentityOperation) : Prop where
  requestId : row.requestId = a.request
  kind : row.kind = a.kind
  identity : row.identity = a.key
  prior : row.prior = a.prior
  phase : row.phase = phase

section
variable {a : Attempt} {before after : Journal} {phase : DurableOperationPhase}
  (hclean : unfinished before = [])
include hclean

theorem Journaled.closed_elsewhere {outcome : Option DurableTerminalOutcome}
    (h : a.Journaled before after phase outcome) (request : DurableRequestId)
    (row : DurableIdentityOperation) (hne : request ≠ a.request)
    (hrow : after[request]? = some row) : row.terminal ≠ none := by
  intro hopen
  have hmem : row ∈ unfinished before :=
    mem_unfinished.mpr ⟨⟨request, h.others request row hne hrow⟩, hopen⟩
  rw [hclean] at hmem
  cases hmem

/-- From a journal without unfinished rows, the attempt's open row is the only one. -/
theorem Journaled.unfinished_open (h : a.Journaled before after phase none) :
    ∃ row, unfinished after = [row] ∧ a.Recorded phase row := by
  obtain ⟨row, hrow, hrequest, hkind, hkey, hprior, hphase, hterminal⟩ := h.row
  exact ⟨row, unfinished_eq_singleton hrow (Option.map_eq_none_iff.mp hterminal)
    (h.closed_elsewhere hclean), hrequest, hkind, hkey, hprior, hphase⟩

theorem Journaled.unfinished_closed {outcome : DurableTerminalOutcome}
    (h : a.Journaled before after phase (some outcome)) : unfinished after = [] := by
  refine List.eq_nil_iff_forall_not_mem.mpr fun row hmem => ?_
  obtain ⟨⟨request, hrow⟩, hopen⟩ := mem_unfinished.mp hmem
  by_cases hrequest : request = a.request
  · subst hrequest
    obtain ⟨own, hown, -, -, -, -, -, houtcome⟩ := h.row
    obtain rfl : own = row := Option.some.inj (hown.symm.trans hrow)
    rw [hopen] at houtcome
    cases houtcome
  · exact h.closed_elsewhere hclean request row hrequest hrow hopen

end

end Attempt

/-- What holds at each phase of an attempt leads to its end, if recovering the row does. -/
theorem restart_settles {a : Attempt}
    {P : DurableOperationPhase → Option DurableTerminalOutcome → Installation → Prop}
    (hclean : unfinished s.journal = []) (hjournal : ∀ phase outcome t, P phase outcome t →
      a.Journaled s.journal t.journal phase outcome)
    (hcore : ∀ phase outcome t core, P phase outcome t → P phase outcome { t with core })
    (hrecover : ∀ row phase t, a.Recorded phase row → P phase none t →
      Ensures (recoverDurableOperation now row) (fun _ u => ∃ phase outcome,
        P phase (some outcome) u)
        (fun u => ∃ phase outcome, P phase outcome u) t) (h : ∃ phase outcome, P phase outcome t) :
    Ensures (restart relays now) (fun _ u => ∃ phase outcome, P phase (some outcome) u)
      (fun u => ∃ phase outcome, P phase outcome u) t := by
  obtain ⟨phase, outcome, h⟩ := h
  have hc : ∀ core, ∃ phase outcome, P phase outcome { t with core } :=
    fun core => ⟨phase, outcome, hcore _ _ _ core h⟩
  cases outcome with
  | some outcome =>
    have hnone := (hjournal _ _ _ h).unfinished_closed hclean
    refine restart_ensures (I := fun _ u => ∃ phase outcome, P phase (some outcome) u) hc
      (fun core => ⟨_, _, hcore _ _ _ core h⟩) fun pre row post hrows => ?_
    rw [hnone] at hrows
    simp at hrows
  | none =>
    obtain ⟨row, hrow, hrecorded⟩ := (hjournal _ _ _ h).unfinished_open hclean
    refine (restart_ensures (I := fun done u => if done = [] then P phase none u
      else ∃ phase outcome, P phase (some outcome) u) hc
      (fun core => by simpa using hcore _ _ _ core h) fun pre row' post hrows u hu => ?_).imp
        fun _ u hu => by simpa [hrow] using hu
    obtain ⟨rfl, rfl, rfl⟩ : pre = [] ∧ row = row' ∧ post = [] := by
      rw [hrow] at hrows
      simpa [eq_comm, List.append_eq_singleton_iff] using hrows
    exact (hrecover row phase u hrecorded (by simpa using hu)).imp
      fun _ _ h => by simpa using h

/-! ## Additions -/

section Addition
variable {a : Attempt} {credential : Credential} {s t : Installation} {now : UnixTimestamp}
  {phase : DurableOperationPhase} {row : DurableIdentityOperation}

/-- The memory is not one of the stores. -/
theorem Attempt.AddingAt.onCore {outcome : Option DurableTerminalOutcome}
    (h : a.AddingAt credential s t phase outcome) (core : CoreState) :
    a.AddingAt credential s { t with core } phase outcome := by
  refine ⟨h.journal, h.elsewhere, ?_⟩
  have hstore := h.store
  unfold Attempt.AdditionStore at hstore ⊢
  split at hstore <;> first
    | exact hstore
    | exact ⟨hstore.1, hstore.2, hstore.3⟩

/-- An addition has come to its end, one way or the other. -/
def Attempt.AdditionEnded (a : Attempt) (credential : Credential) (s t : Installation) : Prop :=
  ∃ phase outcome, a.AddingAt credential s t phase (some outcome)

/-- An addition is finalized where the stores are those of its outcome. -/
theorem finalizeAddition_ensures {outcome : DurableTerminalOutcome}
    (h : a.AddingAt credential s t phase none)
    (hstore : ∀ journal, a.AdditionStore credential s { t with journal } .finalized outcome) :
    Ensures (do
      let _ ← call (finalizeDurableOperation a.request phase outcome none now)
      return ()) (fun _ => a.AdditionEnded credential s) (a.Adding credential s) t := by
  refine .bind (.call ⟨_, _, h⟩ fun _ t' hfinalize => .pure ?_)
  obtain ⟨journal, rfl, hdone⟩ := h.journal.finalize hfinalize
  exact ⟨_, _, hdone, h.elsewhere, hstore journal⟩

theorem finishDurableSelection_ensures (hrow : a.Recorded phase row)
    (h : a.AddingAt credential s t .metadataCommitted none) :
    Ensures (finishDurableSelection row now) (fun _ => a.AdditionEnded credential s)
      (a.Adding credential s) t := by
  obtain ⟨hcredential, havailable⟩ := h.store
  unfold finishDurableSelection
  rw [hrow.requestId, hrow.identity]
  refine .bind (.call ⟨_, _, h⟩ fun _ t₁ hselect => ?_)
  obtain ⟨rfl, -⟩ := saveSelectedIdentity_eq_ok hselect
  refine .bind (.call ⟨_, _, h.journal, h.elsewhere, hcredential, havailable⟩
    fun _ t₂ hadvance => ?_)
  obtain ⟨journal, rfl, hselected⟩ := h.journal.advance hadvance
  exact finalizeAddition_ensures ⟨hselected, h.elsewhere, hcredential, havailable, rfl⟩
    fun _ => ⟨hcredential, havailable, rfl⟩

/-- What the row knows about the state before: the selection and the saved availability. -/
structure Attempt.Remembers (a : Attempt) (s : Installation) : Prop where
  selected : a.prior.selectedIdentity = s.selected
  binding : a.prior.bindingAvailability = (s.identities.find a.key).map (·.availability)

/-- Metadata that was not changed is restored to what it is. -/
theorem restoreMetadata_ensures (hprior : a.Remembers s) (hrow : a.Recorded phase row)
    (hsame : t.identities = s.identities) {Q : Unit → Installation → Prop}
    {C : Installation → Prop} (hc : C t) (h : Q () t) : Ensures (restoreMetadata row) Q C t := by
  have hbinding := hprior.binding
  unfold restoreMetadata removeIfSaved
  rw [hrow.identity, hrow.prior]
  split
  · rename_i availability hav
    refine .bind (.query hc fun saved hsaved => ?_)
    obtain rfl : t.identities.find a.key = saved := Except.ok.inj hsaved
    split
    · rename_i previous hprevious
      refine .call hc fun _ t' hupdate => ?_
      obtain ⟨rfl, -⟩ := updateIdentity_eq_ok hupdate
      obtain rfl : availability = previous.availability := by
        rw [hav, ← hsame, hprevious] at hbinding
        exact Option.some.inj hbinding
      have hkey := IdentityTable.publicKey_of_find hprevious
      rw [show previous.withLocalKeyringAvailability previous.availability = previous from rfl,
        IdentityTable.save_of_find (hkey ▸ hprevious)]
      exact h
    · exact .pure h
  · rename_i hav
    refine .bind (.query hc fun saved hsaved => ?_)
    obtain rfl : none = saved := by
      rw [hav, ← hsame] at hbinding
      rw [← Except.ok.inj hsaved]
      exact (Option.map_eq_none_iff.mp hbinding.symm).symm
    exact .pure h

theorem compensateDurableAddition_ensures (hprior : a.Remembers s) (hrow : a.Recorded phase row)
    (h : a.AddingAt credential s t .compensationPending none) :
    Ensures (compensateDurableAddition row now) (fun _ => a.AdditionEnded credential s)
      (a.Adding credential s) t := by
  obtain ⟨hidentities, hselected⟩ := h.store
  unfold compensateDurableAddition finishCompensation
  rw [hrow.requestId, hrow.identity, hrow.prior, hprior.selected]
  refine .bind (deleteIfPresent_ensures ⟨_, _, h⟩ fun secrets hgone hother => ?_)
  have helsewhere : Elsewhere a.key s { t with secrets } :=
    h.elsewhere.trans fun other hne => ⟨hother other hne, rfl⟩
  have hpending : a.AddingAt credential s { t with secrets } .compensationPending none :=
    ⟨h.journal, helsewhere, hidentities, hselected⟩
  refine .bind (restoreMetadata_ensures (C := a.Adding credential s) (t := { t with secrets })
    hprior hrow hidentities ⟨_, _, hpending⟩ ?_)
  refine .bind (.call ⟨_, _, hpending⟩ fun _ t₁ hselect => ?_)
  obtain ⟨rfl, -⟩ := saveSelectedIdentity_eq_ok hselect
  refine .bind (.call ⟨_, _, hpending.journal, helsewhere, hidentities, rfl⟩ fun _ t₂ hadvance =>
    ?_)
  obtain ⟨journal, rfl, hdeleted⟩ := hpending.journal.advance hadvance
  exact finalizeAddition_ensures ⟨hdeleted, helsewhere, hgone, hidentities, rfl⟩
    fun _ => ⟨hgone, hidentities, rfl⟩

/-- Recovery takes an addition to its end from any of its phases. -/
theorem recoverDurableAddition_ensures (hprior : a.Remembers s) (hrow : a.Recorded phase row)
    (h : a.AddingAt credential s t phase none) :
    Ensures (recoverDurableAddition row now) (fun _ => a.AdditionEnded credential s)
      (a.Adding credential s) t := by
  have hstore := h.store
  unfold recoverDurableAddition
  rw [hrow.phase, hrow.requestId, hrow.identity]
  cases phase with
  | intentRecorded =>
    refine .bind (deleteIfPresent_ensures ⟨_, _, h⟩ fun secrets hgone hother => ?_)
    have helsewhere : Elsewhere a.key s { t with secrets } :=
      h.elsewhere.trans fun other hne => ⟨hother other hne, rfl⟩
    exact finalizeAddition_ensures ⟨h.journal, helsewhere, hstore⟩
      fun _ => ⟨hgone, hstore.1, hstore.2⟩
  | credentialWritten =>
    obtain ⟨hcredential, hmetadata, hselected⟩ := hstore
    refine .bind (.query ⟨_, _, h⟩ fun metadata hfound => ?_)
    obtain rfl : t.identities.find a.key = metadata := Except.ok.inj hfound
    split <;> rename_i havailable
    · refine .bind (.call ⟨_, _, h⟩ fun _ t' hadvance => ?_)
      obtain ⟨journal, rfl, hcommitted⟩ := h.journal.advance hadvance
      exact finishDurableSelection_ensures hrow ⟨hcommitted, h.elsewhere, hcredential, havailable⟩
    · refine .bind (.call ⟨_, _, h⟩ fun _ t' hadvance => ?_)
      obtain ⟨journal, rfl, hpending⟩ := h.journal.advance hadvance
      exact compensateDurableAddition_ensures hprior hrow
        ⟨hpending, h.elsewhere, hmetadata.resolve_right havailable, hselected⟩
  | metadataCommitted => exact finishDurableSelection_ensures hrow h
  | selectionCommitted =>
    exact finalizeAddition_ensures h fun _ => ⟨hstore.1, hstore.2, hstore.3⟩
  | compensationPending => exact compensateDurableAddition_ensures hprior hrow h
  | credentialDeleted =>
    exact finalizeAddition_ensures h fun _ => ⟨hstore.1, hstore.2, hstore.3⟩
  | metadataDeleted => exact hstore.elim
  | finalized => exact hstore.elim

/-- A restart takes an addition to its end, or leaves it at one of its phases. -/
theorem Attempt.Adding.restart (hclean : unfinished s.journal = []) (hkind : a.kind ≠ .remove)
    (hprior : a.Remembers s) (h : a.Adding credential s t) :
    Ensures (restart relays now) (fun _ => a.AdditionEnded credential s)
      (a.Adding credential s) t := by
  refine restart_settles (P := fun phase outcome t => a.AddingAt credential s t phase outcome)
    hclean (fun _ _ _ h => h.journal) (fun _ _ _ core h => h.onCore core)
    (fun row phase t hrow h => ?_) h
  have hrecover : Ensures (recoverDurableAddition row now) (fun _ => a.AdditionEnded credential s)
      (a.Adding credential s) t := recoverDurableAddition_ensures hprior hrow h
  unfold recoverDurableOperation
  rw [hrow.kind]
  split
  · exact hrecover
  · exact hrecover
  · exact hrecover
  · exact absurd ‹_› hkind

end Addition

/-! ## Removals -/

section Removal
variable {a : Attempt} {s t : Installation} {now : UnixTimestamp}
  {phase : DurableOperationPhase} {row : DurableIdentityOperation}

theorem Attempt.RemovingAt.onCore {outcome : Option DurableTerminalOutcome}
    (h : a.RemovingAt s t phase outcome) (core : CoreState) :
    a.RemovingAt s { t with core } phase outcome := by
  refine ⟨h.journal, h.elsewhere, ?_⟩
  have hstore := h.store
  unfold Attempt.RemovalStore at hstore ⊢
  split at hstore <;> first
    | exact hstore
    | exact ⟨hstore.1, hstore.2, hstore.3, hstore.4⟩

/-- A removal has come to its end. -/
def Attempt.RemovalEnded (a : Attempt) (s t : Installation) : Prop :=
  ∃ phase outcome, a.RemovingAt s t phase (some outcome)

/-- Whatever phase the removal was at, its credential is gone afterwards. -/
theorem recoverCredentialDeletion_ensures (hrequest : row.requestId = a.request)
    (hidentity : row.identity = a.key) (h : a.RemovingAt s t phase none) :
    Ensures (recoverCredentialDeletion row now phase)
      (fun next u => a.RemovingAt s u next none ∧ next ≠ .intentRecorded) (a.Removing s) t := by
  unfold recoverCredentialDeletion
  rw [hrequest, hidentity]
  split
  · rename_i hphase
    subst hphase
    refine .bind (deleteIfPresent_ensures ⟨_, _, h⟩ fun secrets hgone hother => ?_)
    have helsewhere : Elsewhere a.key s { t with secrets } :=
      h.elsewhere.trans fun other hne => ⟨hother other hne, rfl⟩
    refine .bind (.call ⟨_, _, h.journal, helsewhere, trivial⟩ fun _ t' hadvance => .pure ?_)
    obtain ⟨journal, rfl, hdeleted⟩ := h.journal.advance hadvance
    exact ⟨⟨hdeleted, helsewhere, hgone⟩, by simp⟩
  · exact .pure ⟨h, ‹_›⟩

theorem recoverMetadataDeletion_ensures (hrequest : row.requestId = a.request)
    (hidentity : row.identity = a.key) (h : a.RemovingAt s t phase none)
    (hphase : phase ≠ .intentRecorded) :
    Ensures (recoverMetadataDeletion row now phase)
      (fun next u => a.RemovingAt s u next none ∧ next ≠ .intentRecorded ∧
        next ≠ .credentialDeleted) (a.Removing s) t := by
  unfold recoverMetadataDeletion
  rw [hrequest, hidentity]
  split
  · rename_i hdeleted
    subst hdeleted
    have hgone : t.secrets[a.key]? = none := h.store
    refine .bind (removeIfSaved_ensures ⟨_, _, h⟩ fun identities selected hremoved hother _ => ?_)
    have helsewhere : Elsewhere a.key s { t with identities, selected } :=
      h.elsewhere.trans fun other hne => ⟨rfl, hother other hne⟩
    refine .bind (.call ⟨_, _, h.journal, helsewhere, hgone⟩ fun _ t' hadvance => .pure ?_)
    obtain ⟨journal, rfl, hforgotten⟩ := h.journal.advance hadvance
    exact ⟨⟨hforgotten, helsewhere, hgone, hremoved⟩, by simp, by simp⟩
  · exact .pure ⟨h, hphase, ‹_›⟩

theorem finishRemoval_ensures (hrequest : row.requestId = a.request) (hprior : row.prior = a.prior)
    (h : a.RemovingAt s t phase none) (hintent : phase ≠ .intentRecorded)
    (hcredential : phase ≠ .credentialDeleted) :
    Ensures (finishRemoval row now phase) (fun _ => a.RemovalEnded s) (a.Removing s) t := by
  have hlast : ∀ u, a.RemovingAt s u .selectionCommitted none →
      Ensures (finalizeRemoval row now .selectionCommitted) (fun _ => a.RemovalEnded s)
        (a.Removing s) u := by
    intro u h
    unfold finalizeRemoval
    rw [if_pos rfl, hrequest]
    refine .bind (.call ⟨_, _, h⟩ fun _ t' hfinalize => .pure ?_)
    obtain ⟨journal, rfl, hdone⟩ := h.journal.finalize hfinalize
    obtain ⟨hgone, hremoved, hselected, hsaved⟩ := h.store
    exact ⟨_, _, hdone, h.elsewhere, hgone, hremoved, hselected, hsaved⟩
  have hstore := h.store
  unfold finishRemoval recoverSelection
  rw [hrequest, hprior]
  cases phase with
  | metadataDeleted =>
    obtain ⟨hgone, hremoved⟩ := hstore
    rw [if_pos rfl]
    refine .bind (.bind (.call ⟨_, _, h⟩ fun _ t₁ hselect => ?_))
    obtain ⟨rfl, hsaved⟩ := saveSelectedIdentity_eq_ok hselect
    refine .bind (.call ⟨_, _, h.journal, h.elsewhere, hgone, hremoved⟩
      fun _ t₂ hadvance => .pure ?_)
    obtain ⟨journal, rfl, hselected⟩ := h.journal.advance hadvance
    exact hlast _ ⟨hselected, h.elsewhere, hgone, hremoved, rfl, hsaved⟩
  | selectionCommitted =>
    rw [if_neg (by simp)]
    exact .bind (.pure (hlast t h))
  | intentRecorded => exact absurd rfl hintent
  | credentialDeleted => exact absurd rfl hcredential
  | credentialWritten => exact hstore.elim
  | metadataCommitted => exact hstore.elim
  | compensationPending => exact hstore.elim
  | finalized => exact hstore.elim

/-- A restart takes a removal to its end, or leaves it at one of its phases. -/
theorem Attempt.Removing.restart (hclean : unfinished s.journal = []) (hkind : a.kind = .remove)
    (h : a.Removing s t) :
    Ensures (restart relays now) (fun _ => a.RemovalEnded s) (a.Removing s) t := by
  refine restart_settles (P := fun phase outcome t => a.RemovingAt s t phase outcome)
    hclean (fun _ _ _ h => h.journal) (fun _ _ _ core h => h.onCore core)
    (fun row phase t hrow h => ?_) h
  unfold recoverDurableOperation
  rw [hrow.kind, hkind]
  unfold recoverDurableRemoval
  rw [hrow.phase]
  refine (recoverCredentialDeletion_ensures hrow.requestId hrow.identity h).andThen
    fun next u h => ?_
  refine (recoverMetadataDeletion_ensures hrow.requestId hrow.identity h.1 h.2).andThen
    fun next u h => ?_
  exact finishRemoval_ensures hrow.requestId hrow.prior h.1 h.2.1 h.2.2

end Removal

/-! ## Any operation -/

/-- A row with a receipt is at its last phase. -/
theorem finalized_of_outcome {outcome : DurableTerminalOutcome}
    (h : row.terminal.map (·.outcome) = some outcome) : row.phase = .finalized := by
  refine row.finalized_iff.mpr fun hnone => ?_
  rw [hnone] at h
  cases h

theorem finalized_of_clean (hclean : unfinished journal = [])
    (hrow : journal[request]? = some row) : row.phase = .finalized := by
  refine row.finalized_iff.mpr fun hopen => ?_
  have hmem : row ∈ unfinished journal := mem_unfinished.mpr ⟨⟨request, hrow⟩, hopen⟩
  rw [hclean] at hmem
  cases hmem

/-- Recovery has nothing to do for an operation that recorded nothing. -/
theorem SameStores.restart (hclean : unfinished s.journal = []) (h : SameStores s t) :
    Ensures (restart relays now) (fun _ => SameStores s) (SameStores s) t := by
  have hcore : ∀ core, SameStores s { t with core } := fun core => ⟨h.1, h.2, h.3, h.4⟩
  refine restart_ensures (I := fun _ => SameStores s) hcore hcore fun pre row post hrows => ?_
  rw [h.journal, hclean] at hrows
  simp at hrows

/-- How an operation that recorded its intent in `s` has ended in `u`.  Its row is finalized, and
an addition completed, with its credential, its available metadata and its selection, or failed,
with no credential and with metadata and selection as before; a removal completed, with no
credential, no metadata and the planned selection.  No other account is touched. -/
inductive IdentityOperation.Ended [KeyMaterialProvider] (operation : IdentityOperation)
    (s u : Installation) : Prop
  | intro (row : DurableIdentityOperation) (outcome : DurableTerminalOutcome)
      (journaled : u.journal[operation.request]? = some row) (finalized : row.phase = .finalized)
      (decided : row.terminal.map (·.outcome) = some outcome)
      (elsewhere : Elsewhere row.identity s u)
      (addition : row.kind ≠ .remove → ∃ secret,
        operation.command.material = some (row.identity, secret) ∧
        (outcome = .completed ∧ Attempt.Added row.identity ⟨operation.request, secret⟩ u ∨
          outcome = .failed ∧ Attempt.Undone row.identity s u))
      (removal : row.kind = .remove → ∃ token, operation.command = .remove token ∧
        token.publicKey = row.identity ∧ outcome = .completed ∧ u.secrets[row.identity]? = none ∧
        u.identities.find row.identity = none ∧
        IdentityOperation.Plans s row.identity u.selected ∧
        ∀ key ∈ u.selected, u.identities.find key ≠ none)

section
variable [KeyMaterialProvider] {operation : IdentityOperation} {s t u : Installation}

section
variable {a : Attempt} (hrequest : a.request = operation.request)
include hrequest

theorem Attempt.AdditionEnded.ended {secret : SecretKeyInput} (hkind : a.kind ≠ .remove)
    (hmaterial : operation.command.material = some (a.key, secret))
    (h : a.AdditionEnded ⟨a.request, secret⟩ s u) : operation.Ended s u := by
  obtain ⟨phase, outcome, hended⟩ := h
  obtain ⟨row, hrow, -, hrow_kind, hidentity, -, -, houtcome⟩ := hended.journal.row
  refine ⟨row, outcome, hrequest ▸ hrow, finalized_of_outcome houtcome, houtcome,
    hidentity ▸ hended.elsewhere, fun _ => ⟨secret, hidentity ▸ hmaterial, ?_⟩,
    fun hremove => absurd (hrow_kind.symm.trans hremove) hkind⟩
  rw [hidentity, ← hrequest]
  have hstore := hended.store
  cases phase with
  | finalized =>
    cases outcome with
    | completed => exact .inl ⟨rfl, hstore⟩
    | failed => exact .inr ⟨rfl, hstore⟩
    | cancelled => exact hstore.elim
  | _ => exact hstore.elim

theorem Attempt.RemovalEnded.ended {token : RemovalConfirmationToken} (hkind : a.kind = .remove)
    (hcommand : operation.command = .remove token) (hkey : a.key = token.publicKey)
    (hselected : IdentityOperation.Plans s a.key a.prior.selectedIdentity)
    (h : a.RemovalEnded s u) : operation.Ended s u := by
  obtain ⟨phase, outcome, hended⟩ := h
  obtain ⟨row, hrow, -, hrow_kind, hidentity, -, -, houtcome⟩ := hended.journal.row
  refine ⟨row, outcome, hrequest ▸ hrow, finalized_of_outcome houtcome, houtcome,
    hidentity ▸ hended.elsewhere, fun hne => absurd (hrow_kind.trans hkind) hne,
    fun _ => ⟨token, hcommand, hkey.symm.trans hidentity.symm, ?_⟩⟩
  rw [hidentity]
  have hstore := hended.store
  cases phase with
  | finalized =>
    cases outcome with
    | completed =>
      exact ⟨rfl, hstore.credential, hstore.identity, hstore.selected ▸ hselected, hstore.saved⟩
    | _ => exact hstore.elim
  | _ => exact hstore.elim

end

/-- What an operation left is taken to its end, if it left anything. -/
theorem IdentityOperation.Leaves.settles {v : Installation} (hleaves : operation.Leaves s v)
    (hclean : unfinished s.journal = []) (hnew : ∀ staged, operation.command = .create staged →
      s.identities.find staged.identity.publicKey = none)
    (hreruns :
      Reruns (fun start : RelayConfiguration × UnixTimestamp => restart start.1 start.2) v t)
    {more rest : Nat} (hlast : restart relays now more t = (.ok ((), rest), u)) :
    v.journal = s.journal ∧ SameStores s u ∨
      s.journal[operation.request]? = none ∧ v.journal[operation.request]? ≠ none ∧
        operation.Ended s u := by
  cases hleaves with
  | nothing h =>
    exact .inl ⟨h.journal, hreruns.settles (C := SameStores s) (i := (relays, now))
      (fun _ _ h => h.restart hclean) (fun _ => id) h hlast⟩
  | adding hfresh a secret hrequest hkind hmaterial hselected hbinding h =>
    have hprior : a.Remembers s := by
      refine ⟨hselected, ?_⟩
      rcases hbinding with ⟨⟨staged, hcommand⟩, hnone⟩ | hbinding
      · have hkey : staged.identity.publicKey = a.key := by
          rw [hcommand] at hmaterial
          exact congrArg Prod.fst (Option.some.inj hmaterial)
        rw [hnone, ← hkey, hnew staged hcommand]
        rfl
      · exact hbinding
    have hended : a.AdditionEnded ⟨a.request, secret⟩ s u :=
      hreruns.settles (C := a.Adding ⟨a.request, secret⟩ s) (i := (relays, now))
        (fun _ _ h => h.restart hclean hkind hprior)
        (fun _ ⟨phase, outcome, h⟩ => ⟨phase, some outcome, h⟩) h hlast
    obtain ⟨_, _, hat⟩ := h
    exact .inr ⟨hfresh, hrequest ▸ hat.journal.known, hended.ended hrequest hkind hmaterial⟩
  | removing hfresh a token hrequest hkind hcommand hkey hselected h =>
    have hended : a.RemovalEnded s u :=
      hreruns.settles (C := a.Removing s) (i := (relays, now))
        (fun _ _ h => h.restart hclean hkind)
        (fun _ ⟨phase, outcome, h⟩ => ⟨phase, some outcome, h⟩) h hlast
    obtain ⟨_, _, hat⟩ := h
    exact .inr ⟨hfresh, hrequest ▸ hat.journal.known,
      hended.ended hrequest hkind hcommand hkey hselected⟩

/-- **An identity operation is all or nothing.**  It starts with no unfinished row, is stopped
anywhere, and the process restarts any number of times until one recovery gets through.

* An operation that returned has a row in the journal.
* In the end the row of its request, if there is one, is finalized.
* If its request was known before, or it recorded no row, then nothing was written.
* If it recorded a row, then the operation has ended one way or the other, as the row says.

A generated key is one that no saved identity has. -/
theorem operation_all_or_nothing (hclean : unfinished s.journal = [])
    (hnew : ∀ staged, operation.command = .create staged →
      s.identities.find staged.identity.publicKey = none) {calls : Nat}
    (hreruns : Reruns (fun start : RelayConfiguration × UnixTimestamp => restart start.1 start.2)
      (operation.run calls s).2 t) {relays : RelayConfiguration} {now : UnixTimestamp}
    {more rest : Nat} (hlast : restart relays now more t = (.ok ((), rest), u)) :
    (∀ left, (operation.run calls s).1 = .ok ((), left) →
      (operation.run calls s).2.journal[operation.request]? ≠ none) ∧
    (∀ row, u.journal[operation.request]? = some row → row.phase = .finalized) ∧
    (s.journal[operation.request]? ≠ none ∨
      (operation.run calls s).2.journal[operation.request]? = none → SameStores s u) ∧
    (s.journal[operation.request]? = none →
      (operation.run calls s).2.journal[operation.request]? ≠ none → operation.Ended s u) := by
  refine ⟨fun left hok => ((operation.run_leaves s).of_ok (Prod.ext hok rfl)).2, ?_⟩
  rcases (operation.leaves_run calls s).settles hclean hnew hreruns hlast with
    ⟨hjournal, hsame⟩ | ⟨hfresh, hknown, hended⟩
  · refine ⟨fun row hrow => finalized_of_clean hclean (hsame.journal ▸ hrow), fun _ => hsame,
      fun hfresh hknown => ?_⟩
    rw [hjournal] at hknown
    exact absurd hfresh hknown
  · refine ⟨fun row hrow => ?_, fun h => ?_, fun _ _ => hended⟩
    · obtain ⟨row', -, hrow', hfinal, -⟩ := hended
      obtain rfl : row' = row := Option.some.inj (hrow'.symm.trans hrow)
      exact hfinal
    · rcases h with hne | hnone
      · exact absurd hfresh hne
      · exact absurd hnone hknown

end

/-! ### An import, a creation and a removal that are interrupted

Each is stopped after some of its calls, then a recovery is stopped, and then one gets through. -/

/-- The second recovery gets through. -/
def ringRecovered (s : Installation) (calls : Nat) : Installation :=
  ringRestarted (restart {} ringTime calls s).2

/-- An import that is stopped right after it wrote the credential. -/
def ringWritten : Installation :=
  (@IdentityOperation.run ringMaterial (ringImport ringFirst) 6 ringFresh).2

/-- The key is generated instead of imported. -/
def ringCreation : IdentityOperation :=
  ⟨ringFirst, .create ⟨.saved ringKey ringTime, ringSecret, 1, rfl⟩, ringTime⟩

/-- A creation that is stopped right after it saved the metadata. -/
def ringSaved : Installation :=
  (@IdentityOperation.run ringMaterial ringCreation 5 ringFresh).2

/-- A removal that is stopped right after it recorded its intent. -/
def ringLeaving : Installation :=
  (@IdentityOperation.run ringMaterial ringRemoval 2 ringAsked).2

/-- The import is undone, the creation is completed, and so is the removal. -/
theorem interrupted_operations_settle :
    (@IdentityOperation.Ended ringMaterial (ringImport ringFirst) ringFresh
        (ringRecovered ringWritten 2) ∧
      (ringRecovered ringWritten 2).secrets[ringKey]? = none) ∧
    (@IdentityOperation.Ended ringMaterial ringCreation ringFresh (ringRecovered ringSaved 2) ∧
      (ringRecovered ringSaved 2).secrets[ringKey]? = some ⟨ringFirst, ringSecret⟩) ∧
    @IdentityOperation.Ended ringMaterial ringRemoval ringAsked (ringRecovered ringLeaving 3) ∧
      ringLeaving.secrets[ringKey]? = some ⟨ringSecond, ringSecret⟩ ∧
      (ringRecovered ringLeaving 3).secrets[ringKey]? = none := by
  have hwritten : (restart {} ringTime 50 (restart {} ringTime 2 ringWritten).2).1.isOk = true := by
    decide +kernel
  have hsaved : (restart {} ringTime 50 (restart {} ringTime 2 ringSaved).2).1.isOk = true := by
    decide +kernel
  have hleaving : (restart {} ringTime 50 (restart {} ringTime 3 ringLeaving).2).1.isOk = true := by
    decide +kernel
  obtain ⟨_, hwritten⟩ := ring_restart_ok hwritten
  obtain ⟨_, hsaved⟩ := ring_restart_ok hsaved
  obtain ⟨_, hleaving⟩ := ring_restart_ok hleaving
  have himport := @operation_all_or_nothing ringMaterial (ringImport ringFirst) ringFresh _ _
    (by decide +kernel) (fun staged h => by cases h) 6 (.single ⟨({}, ringTime), 2, rfl⟩) _ _ _ _
    hwritten
  have hcreate := @operation_all_or_nothing ringMaterial ringCreation ringFresh _ _
    (by decide +kernel) (fun staged h => by cases h; decide +kernel) 5
    (.single ⟨({}, ringTime), 2, rfl⟩) _ _ _ _ hsaved
  have hremove := @operation_all_or_nothing ringMaterial ringRemoval ringAsked _ _
    (by decide +kernel) (fun staged h => by cases h) 2 (.single ⟨({}, ringTime), 3, rfl⟩) _ _ _ _
    hleaving
  exact ⟨⟨himport.2.2.2 (by decide +kernel) (by decide +kernel), by decide +kernel⟩,
    ⟨hcreate.2.2.2 (by decide +kernel) (by decide +kernel), by decide +kernel⟩,
    hremove.2.2.2 (by decide +kernel) (by decide +kernel), by decide +kernel, by decide +kernel⟩

end HarvestCircle
