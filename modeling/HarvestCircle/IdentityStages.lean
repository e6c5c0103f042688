import HarvestCircle.IdentityOperations

/-! # What each phase of the journal says about the stores

An operation writes before it moves its row on, so at each phase the next write may
or may not have happened.  `Attempt.Adding` and `Attempt.Removing` say for every phase
what the stores then look like, compared with the state `s` the operation started in.
Operations establish them wherever they are stopped; recovery goes on from them.
-/
namespace HarvestCircle
open Checked Interruption Installation

/-- What the row of an operation says for as long as it exists. -/
structure Attempt where
  request : DurableRequestId
  kind : DurableOperationKind
  key : PublicKey
  prior : OperationPriorState

/-- Nothing but the account of one key was written. -/
def Elsewhere (key : PublicKey) (s t : Installation) : Prop :=
  ∀ other ≠ key, t.secrets[other]? = s.secrets[other]? ∧
    t.identities.find other = s.identities.find other

theorem Elsewhere.trans {key : PublicKey} {s t u : Installation} (h : Elsewhere key s t)
    (h' : Elsewhere key t u) : Elsewhere key s u := fun other hne =>
  ⟨(h' other hne).1.trans (h other hne).1, (h' other hne).2.trans (h other hne).2⟩

/-- Nothing was written to any store. -/
structure SameStores (s t : Installation) : Prop where
  secrets : t.secrets = s.secrets
  identities : t.identities = s.identities
  selected : t.selected = s.selected
  journal : t.journal = s.journal

theorem SameStores.refl (s : Installation) : SameStores s s := ⟨rfl, rfl, rfl, rfl⟩

namespace Attempt

/-- The operation's row is at a phase; of the other rows some may have been cleaned up. -/
structure Journaled (a : Attempt) (before after : Journal) (phase : DurableOperationPhase)
    (outcome : Option DurableTerminalOutcome) : Prop where
  row : ∃ row, after[a.request]? = some row ∧ row.requestId = a.request ∧ row.kind = a.kind ∧
    row.identity = a.key ∧ row.prior = a.prior ∧ row.phase = phase ∧
    row.terminal.map (·.outcome) = outcome
  others : ∀ request row, request ≠ a.request → after[request]? = some row →
    before[request]? = some row

section Journaled
variable {a : Attempt} {s t t' : Installation} {before after : Journal}
  {phase : DurableOperationPhase} {now : UnixTimestamp} {revision : Option Nat}
  {outcome : Option DurableTerminalOutcome}

theorem Journaled.begun {start : DurableOperationStart}
    (h : beginDurableOperation a.request a.kind a.key revision a.prior now s = .ok (start, t)) :
    (∃ row, start = .existing row ∧ s.journal[a.request]? = some row ∧ t = s) ∨
      s.journal[a.request]? = none ∧ (∃ row, start = .started row) ∧
        (∃ journal, t = { s with journal }) ∧
        a.Journaled s.journal t.journal .intentRecorded none := by
  rcases beginDurableOperation_eq_ok h with hknown |
    ⟨hfresh, row, rfl, hrequest, hkind, hkey, hprior, hphase, rfl⟩
  · exact .inl hknown
  refine .inr ⟨hfresh, ⟨row, rfl⟩, ⟨_, rfl⟩,
    ⟨row, by simp, hrequest, hkind, hkey, hprior, hphase, ?_⟩, ?_⟩
  · have hopen : row.terminal = none := by
      by_contra hne
      rw [row.finalized_iff.mpr hne] at hphase
      cases hphase
    rw [hopen]
    rfl
  · intro request other hne hother
    rw [Std.ExtTreeMap.getElem?_insert, if_neg (by simpa using hne.symm)] at hother
    exact getElem?_cleanup hother

theorem Journaled.known (h : a.Journaled before after phase outcome) :
    after[a.request]? ≠ none := by
  obtain ⟨row, hrow, -⟩ := h.row
  exact Option.ne_none_iff_exists'.mpr ⟨row, hrow⟩

/-- The journal after the operation's own row was replaced. -/
theorem Journaled.replace {outcome' : Option DurableTerminalOutcome}
    {phase' : DurableOperationPhase} (h : a.Journaled before after phase outcome)
    {row : DurableIdentityOperation} (hrow : row.requestId = a.request ∧ row.kind = a.kind ∧
      row.identity = a.key ∧ row.prior = a.prior ∧ row.phase = phase' ∧
      row.terminal.map (·.outcome) = outcome') :
    a.Journaled before (after.insert a.request row) phase' outcome' := by
  refine ⟨⟨row, by simp, hrow⟩, fun request other hne hother => ?_⟩
  rw [Std.ExtTreeMap.getElem?_insert, if_neg (by simpa using hne.symm)] at hother
  exact h.others request other hne hother

theorem Journaled.advance {next : DurableOperationPhase} {diagnostic : Option OperationDiagnostic}
    {operation : DurableIdentityOperation} (h : a.Journaled before after phase none)
    (hrun : advanceDurableOperation a.request phase next now diagnostic t = .ok (operation, t'))
    (hafter : t.journal = after := by rfl) :
    ∃ journal, t' = { t with journal } ∧ a.Journaled before journal next none := by
  subst hafter
  obtain ⟨old, hold, -, hrequest, hkind, hkey, hprior, hnext, hopen, rfl⟩ :=
    advanceDurableOperation_eq_ok hrun
  obtain ⟨row, hrow, hrequest', hkind', hkey', hprior', -⟩ := h.row
  obtain rfl : row = old := Option.some.inj (hrow.symm.trans hold)
  exact ⟨_, rfl, h.replace ⟨hrequest.trans hrequest', hkind.trans hkind', hkey.trans hkey',
    hprior.trans hprior', hnext, by rw [hopen]; rfl⟩⟩

theorem Journaled.finalize {outcome : DurableTerminalOutcome} {receipt : DurableOperationReceipt}
    (h : a.Journaled before after phase none)
    (hrun : finalizeDurableOperation a.request phase outcome revision now t = .ok (receipt, t'))
    (hafter : t.journal = after := by rfl) :
    ∃ journal, t' = { t with journal } ∧ a.Journaled before journal .finalized (some outcome) := by
  subst hafter
  obtain ⟨row, hrow, hrequest, hkind, hkey, hprior, -, hopen⟩ := h.row
  obtain ⟨-, new, hrequest', hkind', hkey', hprior', hphase', hreceipt, houtcome, rfl⟩ :=
    finalizeDurableOperation_eq_ok hrow (Option.map_eq_none_iff.mp hopen) hrun
  exact ⟨_, rfl, h.replace ⟨hrequest'.trans hrequest, hkind'.trans hkind, hkey'.trans hkey,
    hprior'.trans hprior, hphase', by rw [hreceipt, Option.map_some, houtcome]⟩⟩

end Journaled

/-! ## Additions -/

/-- The key is saved and its signer available. -/
def Available (key : PublicKey) (t : Installation) : Prop :=
  (t.identities.find key).map (·.availability) = some .available

/-- The account of the key as it is when the addition is complete. -/
structure Added (key : PublicKey) (credential : Credential) (t : Installation) : Prop where
  credential : t.secrets[key]? = some credential
  available : Available key t
  selected : t.selected = some key

/-- The account of the key as it is when the addition is undone. -/
structure Undone (key : PublicKey) (s t : Installation) : Prop where
  credential : t.secrets[key]? = none
  identities : t.identities = s.identities
  selected : t.selected = s.selected

/-- The stores at each phase of an addition. -/
def AdditionStore (a : Attempt) (credential : Credential) (s t : Installation) :
    DurableOperationPhase → Option DurableTerminalOutcome → Prop
  | .intentRecorded, none => t.identities = s.identities ∧ t.selected = s.selected
  | .credentialWritten, none => t.secrets[a.key]? = some credential ∧
      (t.identities = s.identities ∨ Available a.key t) ∧ t.selected = s.selected
  | .metadataCommitted, none => t.secrets[a.key]? = some credential ∧ Available a.key t
  | .selectionCommitted, none => Added a.key credential t
  | .compensationPending, none => t.identities = s.identities ∧ t.selected = s.selected
  | .credentialDeleted, none => Undone a.key s t
  | .finalized, some .completed => Added a.key credential t
  | .finalized, some .failed => Undone a.key s t
  | _, _ => False

/-- An addition that recorded its intent, at a phase of its row. -/
structure AddingAt (a : Attempt) (credential : Credential) (s t : Installation)
    (phase : DurableOperationPhase) (outcome : Option DurableTerminalOutcome) : Prop where
  journal : a.Journaled s.journal t.journal phase outcome
  elsewhere : Elsewhere a.key s t
  store : a.AdditionStore credential s t phase outcome

/-- An addition that recorded its intent, at whatever phase. -/
def Adding (a : Attempt) (credential : Credential) (s t : Installation) : Prop :=
  ∃ phase outcome, a.AddingAt credential s t phase outcome

/-! ## Removals -/

/-- The account of the key as it is when the removal is complete. -/
structure Removed (a : Attempt) (t : Installation) : Prop where
  credential : t.secrets[a.key]? = none
  identity : t.identities.find a.key = none
  selected : t.selected = a.prior.selectedIdentity
  saved : ∀ key ∈ t.selected, t.identities.find key ≠ none

/-- The stores at each phase of a removal. -/
def RemovalStore (a : Attempt) (t : Installation) :
    DurableOperationPhase → Option DurableTerminalOutcome → Prop
  | .intentRecorded, none => True
  | .credentialDeleted, none => t.secrets[a.key]? = none
  | .metadataDeleted, none => t.secrets[a.key]? = none ∧ t.identities.find a.key = none
  | .selectionCommitted, none => a.Removed t
  | .finalized, some .completed => a.Removed t
  | _, _ => False

/-- A removal that recorded its intent, at a phase of its row. -/
structure RemovingAt (a : Attempt) (s t : Installation) (phase : DurableOperationPhase)
    (outcome : Option DurableTerminalOutcome) : Prop where
  journal : a.Journaled s.journal t.journal phase outcome
  elsewhere : Elsewhere a.key s t
  store : a.RemovalStore t phase outcome

/-- A removal that recorded its intent, at whatever phase. -/
def Removing (a : Attempt) (s t : Installation) : Prop :=
  ∃ phase outcome, a.RemovingAt s t phase outcome

variable {phase : DurableOperationPhase} {s t : Installation}

/-- An addition is complete only at its end. -/
theorem AddingAt.added {a : Attempt} {credential : Credential}
    (h : a.AddingAt credential s t phase (some .completed)) : Added a.key credential t := by
  have hstore := h.store
  cases phase with
  | finalized => exact hstore
  | _ => exact hstore.elim

theorem RemovingAt.removed {a : Attempt} (h : a.RemovingAt s t phase (some .completed)) :
    a.Removed t := by
  have hstore := h.store
  cases phase with
  | finalized => exact hstore
  | _ => exact hstore.elim

end Attempt

/-! ## Operations -/

/-- A method of the core leaves the stores alone. -/
theorem ensures_onCore {α : Type} {f : CoreState → Except SafeErrorCode α × CoreState}
    {Q : α → Installation → Prop} {C : Installation → Prop} {s : Installation}
    (hc : ∀ core, C { s with core }) (h : ∀ a core, Q a { s with core }) :
    Ensures (onCore f) Q C s := by
  refine .compute (fun e t hr => ?_) fun a t hr => ?_
  · rw [← (Prod.mk.inj hr).2]
    exact hc _
  · rw [← (Prod.mk.inj hr).2]
    exact h a _

section
variable {a : Attempt} {s t : Installation} {identity : NostrIdentity} {secret : SecretKeyInput}
  {previous : Option NostrIdentity} {now : UnixTimestamp}

/-- Writing the metadata saves the identity. -/
theorem save_of_write {u : Unit} {t' : Installation}
    (h : (match previous with
      | some _ => updateIdentity identity
      | none => insertIdentity identity) t = .ok (u, t')) :
    t' = { t with identities := t.identities.save identity } := by
  cases previous with
  | some _ => exact (updateIdentity_eq_ok h).1
  | none => exact insertIdentity_eq_ok h

/-- Wherever an addition is stopped, the stores are those of its row's phase. -/
theorem writeIdentity_ensures (hkey : a.key = identity.publicKey)
    (havailable : identity.availability = .available)
    (h : a.AddingAt ⟨a.request, secret⟩ s t .intentRecorded none) :
    Ensures (writeIdentity a.request identity secret previous now)
      (fun _ => a.Adding ⟨a.request, secret⟩ s) (a.Adding ⟨a.request, secret⟩ s) t := by
  unfold writeIdentity
  rw [← hkey]
  refine .bind (.call ⟨_, _, h⟩ fun _ t₁ hput => ?_)
  obtain ⟨secrets, rfl, hcredential, hother⟩ := put_eq_ok hput
  have helsewhere : Elsewhere a.key s { t with secrets } :=
    h.elsewhere.trans fun other hne => ⟨hother other hne, rfl⟩
  refine .bind (.call ⟨_, _, h.journal, helsewhere, h.store⟩ fun _ t₂ hadvance => ?_)
  obtain ⟨journal, rfl, hwritten⟩ := h.journal.advance hadvance
  refine .bind (.call ⟨_, _, hwritten, helsewhere, hcredential, .inl h.store.1, h.store.2⟩
    fun _ t₃ hsave => ?_)
  obtain rfl := save_of_write hsave
  have hsaved : Attempt.Available a.key { t with
      secrets, journal, identities := t.identities.save identity } := by
    simp [Attempt.Available, hkey, havailable]
  have helsewhere : Elsewhere a.key s { t with
      secrets, journal, identities := t.identities.save identity } := by
    refine helsewhere.trans fun other hne => ⟨rfl, ?_⟩
    rw [IdentityTable.find_save, if_neg (hkey ▸ hne.symm)]
  refine .bind (.call ⟨_, _, hwritten, helsewhere, hcredential, .inr hsaved, h.store.2⟩
    fun _ t₄ hadvance => ?_)
  obtain ⟨journal, rfl, hcommitted⟩ := hwritten.advance hadvance
  refine .bind (.call ⟨_, _, hcommitted, helsewhere, hcredential, hsaved⟩ fun _ t₅ hselect => ?_)
  obtain ⟨rfl, -⟩ := saveSelectedIdentity_eq_ok hselect
  refine .bind (.call ⟨_, _, hcommitted, helsewhere, hcredential, hsaved⟩ fun _ t₆ hadvance => ?_)
  obtain ⟨journal, rfl, hselected⟩ := hcommitted.advance hadvance
  have hadded : ∀ core, a.AddingAt ⟨a.request, secret⟩ s { t with
      secrets, journal, identities := t.identities.save identity, selected := some a.key, core }
      .selectionCommitted none :=
    fun core => ⟨hselected, helsewhere, hcredential, hsaved, rfl⟩
  refine .bind (.query ⟨_, _, hadded _⟩ fun identities _ => ?_)
  refine .bind (ensures_onCore (fun core => ⟨_, _, hadded core⟩) fun snapshot core => ?_)
  refine .bind (.call ⟨_, _, hadded core⟩ fun _ t₇ hfinalize => .pure ?_)
  obtain ⟨journal, rfl, hdone⟩ := hselected.finalize hfinalize
  exact ⟨_, _, hdone, helsewhere, hcredential, hsaved, rfl⟩

variable {request : DurableRequestId} {C : Installation → Prop} {kind : DurableOperationKind}

/-- The replay of a completed addition only reads. -/
theorem verifyCompletedIdentityReplay_ensures {operation : DurableIdentityOperation}
    {revision : Nat} {key saved : PublicKey} {Q : Installation → Prop} (hc : C t) (h : Q t) :
    Ensures (do
      verifyCompletedIdentityReplay operation request kind revision key secret
      completedIdentity saved) (fun _ => Q) C t := by
  refine .bind (.bind (.check hc fun _ _ => .bind (.check hc fun _ _ => .query hc fun _ _ => ?_)))
  exact .bind (.query hc fun _ _ => .check hc fun _ _ => h)

/-- An addition is not begun, or is at one of its phases; when it returns, its request is known. -/
theorem persistIdentityDurable_ensures {revision : Nat}
    (havailable : identity.availability = .available) (hsame : SameStores s t)
    {P : Installation → Prop} (hnothing : ∀ t', SameStores s t' → P t')
    (hadding : s.journal[request]? = none → ∀ t', Attempt.Adding ⟨request, kind,
      identity.publicKey, s.selected, previous.map (·.availability)⟩ ⟨request, secret⟩ s t' →
        P t') :
    Ensures (persistIdentityDurable request kind revision identity secret previous now)
      (fun _ t' => P t' ∧ t'.journal[request]? ≠ none) P t := by
  unfold persistIdentityDurable
  refine .bind (.query (hnothing t hsame) fun selected hselected => ?_)
  obtain rfl : s.selected = selected := hsame.selected.symm.trans (Except.ok.inj hselected)
  refine .bind (.call (hnothing t hsame) fun start t' hbegin => ?_)
  rcases Attempt.Journaled.begun
    (a := ⟨request, kind, identity.publicKey, s.selected, previous.map (·.availability)⟩) hbegin
    with ⟨row, rfl, hknown, rfl⟩ | ⟨hfresh, ⟨row, rfl⟩, ⟨journal, rfl⟩, hjournal⟩
  · exact verifyCompletedIdentityReplay_ensures (hnothing t' hsame)
      ⟨hnothing t' hsame, Option.ne_none_iff_exists'.mpr ⟨row, hknown⟩⟩
  rw [hsame.journal] at hjournal hfresh
  have helsewhere : Elsewhere identity.publicKey s { t with journal } := fun other _ =>
    ⟨by rw [hsame.secrets], by rw [hsame.identities]⟩
  exact (writeIdentity_ensures rfl havailable ⟨hjournal, helsewhere, hsame.identities,
    hsame.selected⟩).mono
      (fun _ t' h => ⟨hadding hfresh t' h, h.elim fun _ ⟨_, h⟩ => h.journal.known⟩)
    (hadding hfresh)

/-- Deleting the credential leaves none, whether or not there was one. -/
theorem deleteCredential_ensures {key : PublicKey} {Q : Unit → Installation → Prop} (hc : C t)
    (h : ∀ secrets : Std.ExtTreeMap PublicKey Credential, secrets[key]? = none →
      (∀ other ≠ key, secrets[other]? = t.secrets[other]?) → Q () { t with secrets }) :
    Ensures (deleteCredential request identity key) Q C t := by
  refine .bind (.attempt hc (fun _ t' hdelete => ?_) fun e herror => ?_)
  · obtain rfl := delete_eq_ok hdelete
    refine .pure (h _ (by simp) fun other hne => ?_)
    simp [Std.ExtTreeMap.getElem?_erase, hne.symm]
  · exact .check hc fun _ _ => h t.secrets (delete_eq_error herror) fun _ _ => rfl

/-- Wherever a removal is stopped, the stores are those of its row's phase. -/
theorem eraseIdentity_ensures (h : a.RemovingAt s t .intentRecorded none) :
    Ensures (eraseIdentity a.request identity a.key a.prior.selectedIdentity now)
      (fun _ => a.Removing s) (a.Removing s) t := by
  unfold eraseIdentity
  refine .bind (ensures_onCore (fun core => ⟨_, _, h.journal, h.elsewhere, trivial⟩)
    fun _ core => ?_)
  refine .bind (deleteCredential_ensures ⟨_, _, h.journal, h.elsewhere, trivial⟩
    fun secrets hdeleted hother => ?_)
  have helsewhere : Elsewhere a.key s { t with core, secrets } :=
    h.elsewhere.trans fun other hne => ⟨hother other hne, rfl⟩
  refine .bind (.call ⟨_, _, h.journal, helsewhere, trivial⟩ fun _ t₁ hadvance => ?_)
  obtain ⟨journal, rfl, hgone⟩ := h.journal.advance hadvance
  refine .bind (.call ⟨_, _, hgone, helsewhere, hdeleted⟩ fun _ t₂ hremove => ?_)
  obtain ⟨selected, rfl⟩ := removeIdentity_eq_ok hremove
  have hremoved : (t.identities.erase a.key).find a.key = none := by simp
  have helsewhere : Elsewhere a.key s { t with
      core, secrets, journal, identities := t.identities.erase a.key, selected } := by
    refine helsewhere.trans fun other hne => ⟨rfl, ?_⟩
    rw [IdentityTable.find_erase, if_neg hne.symm]
  refine .bind (.call ⟨_, _, hgone, helsewhere, hdeleted⟩ fun _ t₃ hadvance => ?_)
  obtain ⟨journal, rfl, hforgotten⟩ := hgone.advance hadvance
  refine .bind (.call ⟨_, _, hforgotten, helsewhere, hdeleted, hremoved⟩ fun _ t₄ hselect => ?_)
  obtain ⟨rfl, hsaved⟩ := saveSelectedIdentity_eq_ok hselect
  refine .bind (.call ⟨_, _, hforgotten, helsewhere, hdeleted, hremoved⟩ fun _ t₅ hadvance => ?_)
  obtain ⟨journal, rfl, hselected⟩ := hforgotten.advance hadvance
  have hdone : ∀ core, a.RemovingAt s { t with
      core, secrets, journal, identities := t.identities.erase a.key
      selected := a.prior.selectedIdentity } .selectionCommitted none :=
    fun core => ⟨hselected, helsewhere, hdeleted, hremoved, rfl, hsaved⟩
  refine .bind (.query ⟨_, _, hdone _⟩ fun identities _ => ?_)
  refine .bind (ensures_onCore (fun core => ⟨_, _, hdone core⟩) fun snapshot core => ?_)
  refine .bind (.call ⟨_, _, hdone core⟩ fun _ t₆ hfinalize => .pure ?_)
  obtain ⟨journal, rfl, hfinal⟩ := hselected.finalize hfinalize
  exact ⟨_, _, hfinal, helsewhere, hdeleted, hremoved, rfl, hsaved⟩

end

/-! ## The operations of a session -/

/-- What a user may ask for. -/
inductive IdentityCommand where
  | create (staged : StagedGeneratedKey)
  | importKey (expectedRevision : Nat) (input : String)
  | remove (token : RemovalConfirmationToken)

/-- The account a command is for, and the secret it writes. -/
def IdentityCommand.material [KeyMaterialProvider] :
    IdentityCommand → Option (PublicKey × SecretKeyInput)
  | .create staged => some (staged.identity.publicKey, staged.secret)
  | .importKey _ input => (KeyMaterialProvider.importKey input).toOption
  | .remove _ => none

/-- A request of the user, at a time. -/
structure IdentityOperation where
  request : DurableRequestId
  command : IdentityCommand
  now : UnixTimestamp

namespace IdentityOperation
variable [KeyMaterialProvider]

def run (operation : IdentityOperation) : IdentityProgram Unit :=
  match operation.command with
  | .create staged => do
    let _ ← commitStagedGeneratedKey operation.request staged operation.now
    return ()
  | .importKey expectedRevision input => do
    let _ ← importSecretKeyDurable operation.request expectedRevision input operation.now
    return ()
  | .remove token => do
    let _ ← confirmIdentityRemovalDurable operation.request token operation.now
    return ()

/-- The selection a removal plans in `s`. -/
def Plans (s : Installation) (key : PublicKey) (selected : Option PublicKey) : Prop :=
  ∃ registry index, listIdentities s = .ok registry ∧
    registry.findIdx? (fun identity => identity.publicKey = key) = some index ∧
    selected = selectionAfterRemoval registry index key s.core.snapshot.selectedIdentity

/-- What an operation that started in `s` leaves, however far it came. -/
inductive Leaves (operation : IdentityOperation) (s t : Installation) : Prop where
  | nothing (h : SameStores s t)
  | adding (hfresh : s.journal[operation.request]? = none) (a : Attempt)
      (secret : SecretKeyInput) (hrequest : a.request = operation.request)
      (hkind : a.kind ≠ .remove) (hmaterial : operation.command.material = some (a.key, secret))
      (hselected : a.prior.selectedIdentity = s.selected)
      (hbinding : ((∃ staged, operation.command = .create staged) ∧
          a.prior.bindingAvailability = none) ∨
        a.prior.bindingAvailability = (s.identities.find a.key).map (·.availability))
      (h : a.Adding ⟨a.request, secret⟩ s t)
  | removing (hfresh : s.journal[operation.request]? = none) (a : Attempt)
      (token : RemovalConfirmationToken)
      (hrequest : a.request = operation.request) (hkind : a.kind = .remove)
      (hcommand : operation.command = .remove token) (hkey : a.key = token.publicKey)
      (hselected : Plans s a.key a.prior.selectedIdentity) (h : a.Removing s t)

variable {operation : IdentityOperation} {s : Installation}

theorem commit_leaves {staged : StagedGeneratedKey}
    (hcommand : operation.command = .create staged) :
    Ensures (commitStagedGeneratedKey operation.request staged operation.now)
      (fun _ t => operation.Leaves s t ∧ t.journal[operation.request]? ≠ none)
      (operation.Leaves s) s := by
  refine .bind (.inspect (.nothing (.refl s)) fun _ _ => ?_)
  refine persistIdentityDurable_ensures staged.available (.refl s) (fun _ => .nothing)
    fun hfresh t h =>
      .adding hfresh _ staged.secret rfl (by simp) ?_ rfl (.inl ⟨⟨staged, hcommand⟩, rfl⟩) h
  rw [hcommand]
  rfl

theorem import_leaves {revision : Nat} {input : String}
    (hcommand : operation.command = .importKey revision input) :
    Ensures (importSecretKeyDurable operation.request revision input operation.now)
      (fun _ t => operation.Leaves s t ∧ t.journal[operation.request]? ≠ none)
      (operation.Leaves s) s := by
  have hnothing : operation.Leaves s s := .nothing (.refl s)
  unfold importSecretKeyDurable
  refine .bind (.query hnothing fun known hknown => ?_)
  split
  · rename_i row
    refine .bind (.check hnothing fun _ _ => .bind (.check hnothing fun _ _ => ?_))
    exact .bind (.check hnothing fun _ _ =>
      verifyCompletedIdentityReplay_ensures hnothing
        ⟨hnothing, Option.ne_none_iff_exists'.mpr ⟨row, Except.ok.inj hknown⟩⟩)
  refine .bind (.inspect hnothing fun _ _ => ?_)
  refine .bind (.check hnothing fun material hmaterial => ?_)
  refine .bind (.query hnothing fun previous hprevious => ?_)
  obtain rfl : s.identities.find material.1 = previous := Except.ok.inj hprevious
  have hmaterial : operation.command.material = some material := by
    rw [hcommand, IdentityCommand.material, hmaterial]
    rfl
  refine .bind ?_
  unfold requireImportable
  refine .bind (.check hnothing fun _ _ => .bind (.query hnothing fun _ _ =>
    .check hnothing fun _ _ => ?_))
  split
  · rename_i existing hexisting
    have hkey : existing.publicKey = material.1 := IdentityTable.publicKey_of_find hexisting
    refine persistIdentityDurable_ensures rfl (.refl s) (fun _ => .nothing) fun hfresh t h =>
      .adding hfresh _ material.2 rfl (by simp) ?_ rfl (.inr ?_) h
    · rw [hmaterial]
      exact congrArg some (Prod.ext hkey.symm rfl)
    · show some existing.availability =
        (s.identities.find existing.publicKey).map (·.availability)
      rw [hkey, hexisting]
      rfl
  · rename_i hnew
    refine persistIdentityDurable_ensures rfl (.refl s) (fun _ => .nothing) fun hfresh t h =>
      .adding hfresh _ material.2 rfl (by simp) hmaterial rfl (.inr ?_) h
    show none = (s.identities.find material.1).map (·.availability)
    rw [hnew]
    rfl

theorem remove_leaves {token : RemovalConfirmationToken}
    (hcommand : operation.command = .remove token) :
    Ensures (confirmIdentityRemovalDurable operation.request token operation.now)
      (fun _ t => operation.Leaves s t ∧ t.journal[operation.request]? ≠ none)
      (operation.Leaves s) s := by
  have hnothing : ∀ core, operation.Leaves s { s with core } := fun core =>
    .nothing ⟨rfl, rfl, rfl, rfl⟩
  unfold confirmIdentityRemovalDurable
  refine .bind (.compute (fun e t hconsume => ?_) fun publicKey t hconsume => ?_)
  · rw [← (Prod.mk.inj hconsume).2]
    exact hnothing _
  obtain ⟨hkey, rfl⟩ := Prod.mk.inj hconsume
  -- a spent token does not change the snapshot
  have hsnapshot : (s.core.consumeRemovalToken token operation.now).2.snapshot =
      s.core.snapshot := by
    unfold CoreState.consumeRemovalToken
    dsimp only
    split <;> rfl
  obtain rfl : token.publicKey = publicKey := by
    unfold CoreState.consumeRemovalToken at hkey
    dsimp only at hkey
    split at hkey
    · cases hkey
    · exact Except.ok.inj hkey
  generalize (s.core.consumeRemovalToken token operation.now).2 = core at hsnapshot
  refine .bind (.inspect (hnothing core) fun _ _ => ?_)
  refine .bind (.query (hnothing core) fun registry hregistry => ?_)
  refine .bind (.check (hnothing core) fun index hindex => ?_)
  refine .bind (.inspect (hnothing core) fun current hcurrent => ?_)
  obtain rfl : core.snapshot.selectedIdentity = current := Except.ok.inj hcurrent
  refine .bind (.check (hnothing core) fun identity _ => ?_)
  refine .bind (.call (hnothing core) fun start t hbegin => ?_)
  let a : Attempt := ⟨operation.request, .remove, token.publicKey,
    selectionAfterRemoval registry index token.publicKey core.snapshot.selectedIdentity,
    some identity.availability⟩
  rcases Attempt.Journaled.begun (a := a) (s := { s with core }) hbegin
    with ⟨row, rfl, hknown, rfl⟩ | ⟨hfresh, ⟨row, rfl⟩, ⟨journal, rfl⟩, hjournal⟩
  · exact .bind (.check (hnothing core) fun _ _ => .inspect (hnothing core) fun _ _ =>
      ⟨hnothing core, Option.ne_none_iff_exists'.mpr ⟨row, hknown⟩⟩)
  have hremoving : ∀ t, a.Removing s t → operation.Leaves s t := fun t h =>
    .removing hfresh a token rfl rfl hcommand rfl
      ⟨registry, index, hregistry, (okOr_eq_ok ..).mp hindex, by rw [← hsnapshot]⟩ h
  exact (eraseIdentity_ensures (a := a) (s := s) ⟨hjournal, fun _ _ => ⟨rfl, rfl⟩, trivial⟩).mono
    (fun _ t h => ⟨hremoving t h, h.elim fun _ ⟨_, h⟩ => h.journal.known⟩) hremoving

/-- **An operation leaves the stores untouched or at a phase of its row**, wherever it is
stopped. -/
theorem run_leaves (operation : IdentityOperation) (s : Installation) :
    Ensures operation.run (fun _ t => operation.Leaves s t ∧ t.journal[operation.request]? ≠ none)
      (operation.Leaves s) s := by
  unfold run
  split
  · exact (commit_leaves ‹_›).andThen fun _ _ h => .pure h
  · exact (import_leaves ‹_›).andThen fun _ _ h => .pure h
  · exact (remove_leaves ‹_›).andThen fun _ _ h => .pure h

theorem leaves_run (operation : IdentityOperation) (calls : Nat) (s : Installation) :
    operation.Leaves s (operation.run calls s).2 :=
  ((operation.run_leaves s).imp fun _ _ h => h.1).of_run calls

end IdentityOperation

end HarvestCircle
