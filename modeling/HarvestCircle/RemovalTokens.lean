import Mathlib.Data.List.Induction
import HarvestCircle.ActivationRuns

/-! # Confirming a removal

The removal of an identity is confirmed with a token that says what the removal will
do.  The core keeps what it issued until the token is consumed or cancelled, and
accepts a token only while the snapshot still has the revision it was issued at.

Every accepted transition but a repeated bootstrap raises the revision, and a repeated
bootstrap changes nothing (`StateMachine.apply_precedes`).  So an equal revision is an
equal snapshot, and a token that is accepted still tells the truth
(`removal_token_is_true`).
-/
namespace HarvestCircle
open Checked

/-- What the removal of an identity does to the snapshot at hand. -/
def AppSnapshot.removalImpact (snapshot : AppSnapshot) (publicKey : PublicKey) :
    Option RemovalImpact :=
  (snapshot.identities.find? fun identity => identity.publicKey = publicKey).map fun identity => {
    deletesLocalCredential := identity.availability ≠ .credentialMissing
    signsOut := snapshot.activeIdentity.any fun active => active.identity.publicKey = publicKey }

theorem AppSnapshot.registered_of_removalImpact {snapshot : AppSnapshot} {publicKey : PublicKey}
    {impact : RemovalImpact} (h : snapshot.removalImpact publicKey = some impact) :
    publicKey ∈ snapshot.identities.map (·.publicKey) := by
  obtain ⟨identity, hfind, -⟩ := Option.map_eq_some_iff.mp h
  have hkey := List.find?_some hfind
  exact List.mem_map.mpr ⟨identity, List.mem_of_find?_eq_some hfind, by simpa using hkey⟩

/-! ## Equal revisions -/

/-- The one snapshot is the other, or has the lower revision. -/
def AppSnapshot.Precedes (a b : AppSnapshot) : Prop :=
  a = b ∨ a.revision.value < b.revision.value

namespace AppSnapshot.Precedes

theorem refl (a : AppSnapshot) : Precedes a a := .inl rfl

variable {a b : AppSnapshot}

theorem trans {c : AppSnapshot} (hab : Precedes a b) (hbc : Precedes b c) : Precedes a c := by
  rcases hab with rfl | hab
  · exact hbc
  · rcases hbc with rfl | hbc
    · exact .inr hab
    · exact .inr (hab.trans hbc)

theorem eq_of_revision (h : Precedes a b) (hrevision : a.revision = b.revision) : a = b := by
  rcases h with h | h
  · exact h
  · exact absurd (congrArg SnapshotRevision.value hrevision) h.ne

end AppSnapshot.Precedes

namespace StateMachine

variable {machine : StateMachine} {revision : SnapshotRevision} {relays : RelayConfiguration}

/-- The attempt leaves the snapshot in place; a new one has the new revision. -/
def Renews (machine : StateMachine) (revision : SnapshotRevision)
    (attempt : Except SafeErrorCode AppSnapshot × StateMachine) : Prop :=
  attempt.2.snapshot = machine.snapshot ∧
  ∀ snapshot, attempt.1 = .ok snapshot → snapshot = machine.snapshot ∨ snapshot.revision = revision

variable {identities : List NostrIdentity} {selected : Option PublicKey}

theorem revision_of_ready {session : SessionState} {active : Option ActiveIdentitySnapshot}
    {problem : Option SafeErrorCode} {snapshot : AppSnapshot}
    (h : AppSnapshot.ready revision relays identities selected session active problem =
      .ok snapshot) : snapshot.revision = revision := by
  obtain ⟨-, rfl⟩ := AppSnapshot.ready_eq_ok.mp h
  rfl

theorem renews_bootstrapRegistry :
    machine.Renews revision
      (machine.bootstrapRegistry revision relays identities selected, machine) := by
  refine ⟨rfl, fun snapshot h => ?_⟩
  dsimp only [bootstrapRegistry] at h
  split at h
  · exact .inl (Except.ok.inj h).symm
  · exact .inr (revision_of_ready h)

theorem renews_beginActivation (key : PublicKey) :
    machine.Renews revision (machine.beginActivation revision key) := by
  unfold beginActivation
  split
  · exact ⟨rfl, by simp⟩
  · split
    · exact ⟨rfl, by simp⟩
    · exact ⟨rfl, fun snapshot h => .inr (revision_of_ready h)⟩

theorem renews_activationSucceeded (active : ActiveIdentitySnapshot) :
    machine.Renews revision (machine.activationSucceeded revision active) := by
  unfold activationSucceeded
  split
  · exact ⟨rfl, by simp⟩
  · split
    · exact ⟨rfl, by simp⟩
    · split
      · exact ⟨rfl, by simp⟩
      · split
        · rename_i hready
          refine ⟨rfl, fun snapshot h => .inr ?_⟩
          cases h
          exact revision_of_ready hready
        · exact ⟨rfl, by simp⟩

theorem renews_activationFailed (problem : SafeErrorCode) :
    machine.Renews revision (machine.activationFailed revision problem) := by
  unfold activationFailed
  split
  · exact ⟨rfl, by simp⟩
  · exact ⟨rfl, fun snapshot h => .inr (revision_of_ready h)⟩

theorem renews_attempt (transition : StateTransition) :
    machine.Renews revision (machine.attempt revision relays transition) := by
  cases transition with
  | bootstrap => exact renews_bootstrapRegistry
  | bootstrapRegistry identities selected => exact renews_bootstrapRegistry
  | fatal error =>
    refine ⟨rfl, fun snapshot h => .inr ?_⟩
    cases h
    rfl
  | select key =>
    refine ⟨rfl, fun snapshot h => .inr ?_⟩
    simp only [attempt, select, accepted] at h
    exact revision_of_ready h.2
  | updateActiveIdentity expected active problem =>
    refine ⟨rfl, fun snapshot h => .inr ?_⟩
    simp only [attempt, updateActiveIdentity, accepted] at h
    exact revision_of_ready h.2
  | beginActivation key => exact renews_beginActivation key
  | activationSucceeded active => exact renews_activationSucceeded active
  | activationFailed problem => exact renews_activationFailed problem
  | replaceRegistry | replaceRegistryPreservingSession | signOut | setProblem =>
    exact ⟨rfl, fun snapshot h => .inr (revision_of_ready h)⟩

/-- A transition leaves the snapshot as it is or raises its revision. -/
theorem apply_precedes (transition : StateTransition) :
    machine.snapshot.Precedes (machine.apply transition relays).2.snapshot := by
  cases hnext : machine.snapshot.revision.next with
  | none =>
    have hsame : machine.apply transition relays = (.error .invalidApplicationState, machine) := by
      rw [apply, hnext]
    rw [hsame]
    exact .refl _
  | some revision =>
    have hraised : machine.snapshot.revision.value < revision.value := by
      unfold SnapshotRevision.next at hnext
      split at hnext
      · cases hnext
        exact Nat.lt_succ_self _
      · cases hnext
    rw [apply_eq_settle hnext]
    have hrenews : machine.Renews revision (machine.attempt revision relays transition) :=
      renews_attempt transition
    obtain ⟨hkept, hrenewed⟩ := hrenews
    cases hattempt : (machine.attempt revision relays transition).1 with
    | error e =>
      rw [settle, hattempt]
      exact .inl hkept.symm
    | ok snapshot =>
      rw [settle, hattempt]
      rcases hrenewed snapshot hattempt with hsame | hnew
      · exact .inl hsame.symm
      · exact .inr (by rwa [hnew])

end StateMachine

/-! ## Calls on a running core -/

inductive CoreCall where
  | applyTransition (transition : StateTransition)
  | issueRemovalToken (publicKey : PublicKey) (now : UnixTimestamp)
  | consumeRemovalToken (token : RemovalConfirmationToken) (now : UnixTimestamp)
  | cancelRemovalToken (token : RemovalConfirmationToken)
  deriving DecidableEq, Repr

/-- The call takes whatever is kept for the token back, whether it is accepted or not. -/
def CoreCall.Spends (id : Nat) : CoreCall → Prop
  | consumeRemovalToken token _ => token.id = id
  | cancelRemovalToken token => token.id = id
  | applyTransition _ => False
  | issueRemovalToken _ _ => False

namespace CoreState

variable {core : CoreState}

def perform (core : CoreState) : CoreCall → CoreState
  | .applyTransition transition => (core.applyTransition transition).2
  | .issueRemovalToken publicKey now => (core.issueRemovalToken publicKey now).2
  | .consumeRemovalToken token now => (core.consumeRemovalToken token now).2
  | .cancelRemovalToken token => (core.cancelRemovalToken token).2

/-- A process that has just started and the calls it was given since. -/
def run (relays : RelayConfiguration) (calls : List CoreCall) : CoreState :=
  calls.foldl perform (booting relays)

theorem run_concat (relays : RelayConfiguration) (calls : List CoreCall) (call : CoreCall) :
    run relays (calls ++ [call]) = (run relays calls).perform call := by
  simp [run]

/-- What an issued token says: the key, the revision at hand, an expiry 300 seconds on, and the
impact of the removal. -/
structure Describes (core : CoreState) (publicKey : PublicKey) (now : UnixTimestamp)
    (state : RemovalTokenState) : Prop where
  publicKey_eq : state.publicKey = publicKey
  revision_eq : state.revision = core.snapshot.revision
  expires : state.expiresAt.seconds = now.seconds + removalSeconds
  impact_eq : core.snapshot.removalImpact publicKey = some state.impact

/-- A token is issued under the next id, or what is kept stays. -/
theorem issueRemovalToken_spec (core : CoreState) (publicKey : PublicKey) (now : UnixTimestamp) :
    (∃ e used, core.nextRemovalToken ≤ used ∧ core.issueRemovalToken publicKey now =
      (.error e, { core with nextRemovalToken := used })) ∨
    ∃ state, core.Describes publicKey now state ∧ core.issueRemovalToken publicKey now =
      (.ok { state with id := core.nextRemovalToken }, { core with
        nextRemovalToken := core.nextRemovalToken + 1
        removalTokens := core.removalTokens.insert core.nextRemovalToken state }) := by
  unfold issueRemovalToken
  cases hfind : core.snapshot.identities.find? fun identity => identity.publicKey = publicKey with
  | none => exact .inl ⟨_, _, le_rfl, rfl⟩
  | some identity =>
    dsimp only
    split
    · exact .inl ⟨_, _, le_rfl, rfl⟩
    · split
      · refine .inr ⟨_, ⟨rfl, rfl, rfl, ?_⟩, rfl⟩
        rw [AppSnapshot.removalImpact, hfind]
        rfl
      · exact .inl ⟨_, _, Nat.le_succ _, rfl⟩

theorem consumeRemovalToken_snd (token : RemovalConfirmationToken) (now : UnixTimestamp) :
    (core.consumeRemovalToken token now).2 =
      { core with removalTokens := core.removalTokens.erase token.id } := by
  unfold consumeRemovalToken
  dsimp only
  split
  all_goals rfl

theorem perform_precedes (core : CoreState) (call : CoreCall) :
    core.snapshot.Precedes (core.perform call).snapshot := by
  cases call with
  | applyTransition transition => exact StateMachine.apply_precedes transition
  | issueRemovalToken publicKey now =>
    rcases core.issueRemovalToken_spec publicKey now with ⟨e, used, -, h⟩ | ⟨state, -, h⟩
    all_goals
      rw [perform, h]
      exact .refl _
  | consumeRemovalToken token now =>
    rw [perform, consumeRemovalToken_snd]
    exact .refl _
  | cancelRemovalToken token => exact .refl _

theorem foldl_precedes (core : CoreState) (calls : List CoreCall) :
    core.snapshot.Precedes (calls.foldl perform core).snapshot := by
  induction calls generalizing core with
  | nil => exact .refl _
  | cons call calls ih => exact (core.perform_precedes call).trans (ih _)

variable {token : RemovalConfirmationToken} {calls : List CoreCall} {relays : RelayConfiguration}

/-- A token is accepted if it is the one that is kept, at the same revision and in time. -/
theorem consumeRemovalToken_eq_ok {now : UnixTimestamp} {publicKey : PublicKey} :
    (core.consumeRemovalToken token now).1 = .ok publicKey ↔
      core.removalTokens[token.id]? = some token.toRemovalTokenState ∧
      core.snapshot.revision = token.revision ∧ now ≤ token.expiresAt ∧
      token.publicKey = publicKey := by
  unfold consumeRemovalToken
  dsimp only
  split
  · rename_i hrefused
    refine iff_of_false (by simp) ?_
    rintro ⟨hstored, hrevision, hnow, -⟩
    rcases hrefused with h | h | h
    · exact h hstored
    · exact h hrevision
    · exact absurd hnow (not_le.mpr h)
  · rename_i haccepted
    simp only [passed] at haccepted
    obtain ⟨hstored, hrevision, hnow⟩ := haccepted
    refine ⟨fun h => ⟨hstored, hrevision, hnow, Except.ok.inj h⟩, fun h => ?_⟩
    rw [h.2.2.2]

/-! ## What is kept was issued, and not spent since -/

/-- The token was issued by one of the calls, and no call since then spends it. -/
def Outstanding (relays : RelayConfiguration) (calls : List CoreCall)
    (token : RemovalConfirmationToken) : Prop :=
  ∃ before issuedAt since, calls = before ++ .issueRemovalToken token.publicKey issuedAt :: since ∧
    ((run relays before).issueRemovalToken token.publicKey issuedAt).1 = .ok token ∧
    ∀ call ∈ since, ¬ call.Spends token.id

theorem Outstanding.concat (h : Outstanding relays calls token) {call : CoreCall}
    (hcall : ¬ call.Spends token.id) : Outstanding relays (calls ++ [call]) token := by
  obtain ⟨before, issuedAt, since, rfl, hissued, hunspent⟩ := h
  refine ⟨before, issuedAt, since ++ [call], by simp, hissued, ?_⟩
  rw [List.forall_mem_append]
  exact ⟨hunspent, by simpa using hcall⟩

/-- The invariant of a run. -/
structure Kept (relays : RelayConfiguration) (calls : List CoreCall) (core : CoreState) : Prop where
  outstanding : ∀ (id : Nat) (state : RemovalTokenState), core.removalTokens[id]? = some state →
    Outstanding relays calls { state with id }
  used : ∀ (id : Nat) (state : RemovalTokenState), core.removalTokens[id]? = some state →
    id < core.nextRemovalToken

theorem booting_kept (relays : RelayConfiguration) : Kept relays [] (booting relays) where
  outstanding id state h := by simp [booting] at h
  used id state h := by simp [booting] at h

variable {id : Nat}

/-- What is kept after the token's id is given back was kept before, under another id. -/
theorem getElem?_erase_eq_some {tokens : Std.ExtTreeMap Nat RemovalTokenState} {spent : Nat}
    {state : RemovalTokenState} (h : (tokens.erase spent)[id]? = some state) :
    spent ≠ id ∧ tokens[id]? = some state := by
  rw [Std.ExtTreeMap.getElem?_erase] at h
  split at h
  · cases h
  · rename_i hne
    exact ⟨by simpa using hne, h⟩

theorem Kept.perform (h : Kept relays calls (run relays calls)) (call : CoreCall) :
    Kept relays (calls ++ [call]) ((run relays calls).perform call) := by
  -- a call that gives a token back
  have hspend : ∀ token : RemovalConfirmationToken, (∀ id, call.Spends id ↔ token.id = id) →
      (run relays calls).perform call = { run relays calls with
        removalTokens := (run relays calls).removalTokens.erase token.id } →
      Kept relays (calls ++ [call]) ((run relays calls).perform call) := by
    intro token hspends hafter
    rw [hafter]
    constructor
    · intro id state hstored
      obtain ⟨hne, hstored⟩ := getElem?_erase_eq_some hstored
      exact (h.outstanding id state hstored).concat fun hs => hne ((hspends id).mp hs)
    · intro id state hstored
      exact h.used id state (getElem?_erase_eq_some hstored).2
  cases call with
  | applyTransition transition =>
    exact ⟨fun id state hstored => (h.outstanding id state hstored).concat not_false, h.used⟩
  | consumeRemovalToken token now =>
    exact hspend token (fun id => Iff.rfl) (consumeRemovalToken_snd token now)
  | cancelRemovalToken token => exact hspend token (fun id => Iff.rfl) rfl
  | issueRemovalToken publicKey now =>
    rcases (run relays calls).issueRemovalToken_spec publicKey now with
      ⟨e, used, hused, hissue⟩ | ⟨issued, hdescribes, hissue⟩
    · rw [CoreState.perform, hissue]
      exact ⟨fun id state hstored => (h.outstanding id state hstored).concat not_false,
        fun id state hstored => (h.used id state hstored).trans_le hused⟩
    · rw [CoreState.perform, hissue]
      constructor
      · intro id state hstored
        dsimp only at hstored
        rw [Std.ExtTreeMap.getElem?_insert] at hstored
        split at hstored
        · rename_i hid
          cases hstored
          obtain rfl : (run relays calls).nextRemovalToken = id := by simpa using hid
          obtain rfl := hdescribes.publicKey_eq
          exact ⟨calls, now, [], rfl, by rw [hissue], by simp⟩
        · exact (h.outstanding id state hstored).concat not_false
      · intro id state hstored
        dsimp only at hstored ⊢
        rw [Std.ExtTreeMap.getElem?_insert] at hstored
        split at hstored
        · rename_i hid
          obtain rfl : (run relays calls).nextRemovalToken = id := by simpa using hid
          exact Nat.lt_succ_self _
        · exact (h.used id state hstored).trans (Nat.lt_succ_self _)

theorem run_kept (relays : RelayConfiguration) (calls : List CoreCall) :
    Kept relays calls (run relays calls) := by
  induction calls using List.reverseRecOn with
  | nil => exact booting_kept relays
  | append_singleton calls call ih =>
    rw [run_concat]
    exact ih.perform call

/-! ## A spent id is never issued again -/

/-- The id has been given out and nothing is kept for it. -/
def Spent (id : Nat) (core : CoreState) : Prop :=
  id < core.nextRemovalToken ∧ core.removalTokens[id]? = none

theorem Spent.perform (h : Spent id core) (call : CoreCall) : Spent id (core.perform call) := by
  have herase : ∀ spent, (core.removalTokens.erase spent)[id]? = none := by
    intro spent
    rw [Std.ExtTreeMap.getElem?_erase, h.2, ite_self]
  cases call with
  | applyTransition transition => exact h
  | consumeRemovalToken token now =>
    rw [CoreState.perform, consumeRemovalToken_snd]
    exact ⟨h.1, herase token.id⟩
  | cancelRemovalToken token => exact ⟨h.1, herase token.id⟩
  | issueRemovalToken publicKey now =>
    rcases core.issueRemovalToken_spec publicKey now with
      ⟨e, used, hused, hissue⟩ | ⟨state, -, hissue⟩
    · rw [CoreState.perform, hissue]
      exact ⟨h.1.trans_le hused, h.2⟩
    · rw [CoreState.perform, hissue]
      refine ⟨h.1.trans (Nat.lt_succ_self _), ?_⟩
      dsimp only
      rw [Std.ExtTreeMap.getElem?_insert, h.2, if_neg]
      simpa using h.1.ne'

theorem Spent.foldl (h : Spent id core) (calls : List CoreCall) :
    Spent id (calls.foldl CoreState.perform core) := by
  induction calls generalizing core with
  | nil => exact h
  | cons call calls ih => exact ih (h.perform call)

end CoreState

open CoreState in
/-- **An accepted confirmation was issued, not spent before, in time, and is still true.**  No
later call accepts a token of its id. -/
theorem removal_token_is_true (relays : RelayConfiguration) (earlier : List CoreCall)
    (token : RemovalConfirmationToken) (now : UnixTimestamp) (publicKey : PublicKey)
    (h : ((run relays earlier).consumeRemovalToken token now).1 = .ok publicKey) :
    (∃ before issuedAt since,
      earlier = before ++ .issueRemovalToken publicKey issuedAt :: since ∧
      ((run relays before).issueRemovalToken publicKey issuedAt).1 = .ok token ∧
      (∀ call ∈ since, ¬ call.Spends token.id) ∧
      now.seconds ≤ issuedAt.seconds + 300 ∧
      (run relays earlier).snapshot = (run relays before).snapshot) ∧
    publicKey ∈ (run relays earlier).snapshot.identities.map (·.publicKey) ∧
    (run relays earlier).snapshot.removalImpact publicKey = some token.impact ∧
    ∀ later token' now' key', token'.id = token.id →
      ((run relays (earlier ++ .consumeRemovalToken token now :: later)).consumeRemovalToken
        token' now').1 ≠ .ok key' := by
  obtain ⟨hstored, hrevision, hnow, rfl⟩ := consumeRemovalToken_eq_ok.mp h
  have hkept := run_kept relays earlier
  obtain ⟨before, issuedAt, since, hearlier, hissued, hunspent⟩ :=
    hkept.outstanding token.id token.toRemovalTokenState hstored
  -- the call that issued it describes the snapshot of that moment
  have hdescribes : (run relays before).Describes token.publicKey issuedAt
      token.toRemovalTokenState := by
    rcases (run relays before).issueRemovalToken_spec token.publicKey issuedAt with
      ⟨e, used, -, hissue⟩ | ⟨state, hdescribes, hissue⟩
    · rw [hissue] at hissued
      cases hissued
    · rw [hissue] at hissued
      have hstate := congrArg RemovalConfirmationToken.toRemovalTokenState (Except.ok.inj hissued)
      exact hstate ▸ hdescribes
  have hsnapshot : (run relays before).snapshot = (run relays earlier).snapshot := by
    refine AppSnapshot.Precedes.eq_of_revision ?_ (hdescribes.revision_eq.symm.trans hrevision.symm)
    rw [hearlier, run, run, List.foldl_append]
    exact foldl_precedes _ _
  have himpact : (run relays earlier).snapshot.removalImpact token.publicKey = some token.impact :=
    hsnapshot ▸ hdescribes.impact_eq
  refine ⟨⟨before, issuedAt, since, hearlier, hissued, hunspent, ?_, hsnapshot.symm⟩,
    AppSnapshot.registered_of_removalImpact himpact, himpact, ?_⟩
  · calc now.seconds ≤ token.expiresAt.seconds := hnow
      _ = issuedAt.seconds + 300 := hdescribes.expires
  · intro later token' now' key' hid haccepted
    have hspent :
        Spent token.id ((run relays earlier).perform (.consumeRemovalToken token now)) := by
      rw [CoreState.perform, consumeRemovalToken_snd]
      exact ⟨hkept.used _ _ hstored, Std.ExtTreeMap.getElem?_erase_self⟩
    have hlater := (hspent.foldl later).2
    obtain ⟨hstored', -⟩ := consumeRemovalToken_eq_ok.mp haccepted
    rw [run, List.foldl_append, List.foldl_cons, hid] at hstored'
    exact absurd (hlater.symm.trans hstored') (by simp)

/-- The garden is registered, its removal asked for at second 1000 and confirmed at second 1200. -/
def gardenRemoval : List CoreCall :=
  [.applyTransition (.bootstrapRegistry [StateMachine.garden] (some StateMachine.garden.publicKey)),
    .issueRemovalToken StateMachine.garden.publicKey (.of 1000)]

/-- What the user is told: the credential goes, nobody is signed out. -/
def gardenToken : RemovalConfirmationToken where
  publicKey := StateMachine.garden.publicKey
  revision := ⟨1, by decide⟩
  expiresAt := .of 1300
  impact := ⟨true, false⟩
  id := 1

theorem removal_token_is_true_garden :
    ((CoreState.run {} gardenRemoval).consumeRemovalToken gardenToken (.of 1200)).1 =
      .ok StateMachine.garden.publicKey ∧
    (CoreState.run {} gardenRemoval).snapshot.removalImpact StateMachine.garden.publicKey =
      some ⟨true, false⟩ ∧
    ((CoreState.run {} (gardenRemoval ++ [.consumeRemovalToken gardenToken
      (.of 1200)])).consumeRemovalToken gardenToken (.of 1200)).1 ≠
      .ok StateMachine.garden.publicKey := by
  have haccepted : ((CoreState.run {} gardenRemoval).consumeRemovalToken gardenToken
      (.of 1200)).1 = .ok StateMachine.garden.publicKey := by decide +kernel
  obtain ⟨-, -, himpact, honce⟩ := removal_token_is_true {} gardenRemoval gardenToken
    (.of 1200) StateMachine.garden.publicKey haccepted
  exact ⟨haccepted, himpact, honce [] gardenToken _ _ rfl⟩

end HarvestCircle
