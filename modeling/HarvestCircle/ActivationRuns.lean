import HarvestCircle.AppCore

/-! # Pending activations over whole runs

The snapshot shows an activation as its session; the state machine also remembers it
apart from the snapshot, together with the session to go back to.  The two belong
together (`StateMachine.Matches`).  Most transitions keep them together, and leave the
machine as it was when they are refused.

Three do not while an activation is pending: a fatal error forgets the session and
keeps the memory, a registry replacement that preserves the session keeps the session
and forgets the memory, and a refused registry replacement has forgotten the memory by
the time it is refused.  `Harmless` is what is left, and it is exactly that
(`activation_stays_consistent_iff`).
-/
namespace HarvestCircle
open Checked

variable {active : Option ActiveIdentitySnapshot} {identities : List NostrIdentity}
  {selected : Option PublicKey} {session : SessionState}

theorem AppSnapshot.validateSnapshot_eq_ok {u : Unit} :
    validateSnapshot identities selected session active = .ok u ↔
      (identities.map (·.publicKey)).Nodup ∧ (identities = [] ↔ selected = none) ∧
      (∀ key ∈ selected, key ∈ identities.map (·.publicKey)) ∧
      (∀ a ∈ active, a.identity ∈ identities) ∧ (session = .active → active ≠ none) ∧
      (session = .signedOut → active = none) := by
  simp only [validateSnapshot, refuse_eq_ok, passed, not_exists, not_and]

theorem AppSnapshot.ready_eq_ok {revision : SnapshotRevision} {relays : RelayConfiguration}
    {problem : Option SafeErrorCode} {snapshot : AppSnapshot} :
    ready revision relays identities selected session active problem = .ok snapshot ↔
      validateSnapshot identities selected session active = .ok () ∧
      snapshot = ⟨revision, .ready, relays, identities, selected, session, active, problem⟩ := by
  simp only [ready, accepted]
  rw [eq_comm (a := snapshot)]

/-- Another selection that is accepted with some session is accepted with any accepted one. -/
theorem AppSnapshot.validateSnapshot_select {selected' : Option PublicKey} {session' : SessionState}
    {active' : Option ActiveIdentitySnapshot}
    (h : validateSnapshot identities selected session active = .ok ())
    (h' : validateSnapshot identities selected' session' active' = .ok ()) :
    validateSnapshot identities selected' session active = .ok () := by
  rw [validateSnapshot_eq_ok] at h h' ⊢
  exact ⟨h.1, h'.2.1, h'.2.2.1, h.2.2.2⟩

namespace StateMachine

/-- The keys of the registered identities. -/
def keys (machine : StateMachine) : List PublicKey := machine.snapshot.identities.map (·.publicKey)

/-- The session is activating exactly the identity whose activation is remembered, and that
identity is registered. -/
def Matches (machine : StateMachine) : Prop :=
  (∀ key, machine.snapshot.session = .activating key ↔
    ∃ previous, machine.pendingActivation = some (key, previous)) ∧
  ∀ key previous, machine.pendingActivation = some (key, previous) → key ∈ machine.keys

/-- What every state satisfies as long as all transitions were harmless: also the session to
go back to would be accepted. -/
structure Sound (machine : StateMachine) : Prop where
  together : machine.Matches
  booting : machine.snapshot.lifecycle = .booting → machine.snapshot.identities = []
  valid : AppSnapshot.validateSnapshot machine.snapshot.identities machine.snapshot.selectedIdentity
    machine.snapshot.session machine.snapshot.activeIdentity = .ok ()
  previous : ∀ key previous, machine.pendingActivation = some (key, previous) →
    (∀ key', previous.session ≠ .activating key') ∧
    AppSnapshot.validateSnapshot machine.snapshot.identities machine.snapshot.selectedIdentity
      previous.session previous.activeIdentity = .ok ()

/-- The transition does not drive the session and the remembered activation apart. -/
def Harmless (machine : StateMachine) (transition : StateTransition) : Prop :=
  machine.pendingActivation = none ∨ machine.snapshot.revision.next = none ∨
  match transition with
  | .fatal _ => False
  | .replaceRegistryPreservingSession _ _ => False
  | .replaceRegistry identities selected =>
    AppSnapshot.validateSnapshot identities selected .signedOut none = .ok ()
  | _ => True

/-- The states reached from the start by harmless transitions. -/
inductive Reached : StateMachine → Prop
  | booting : Reached .booting
  | next {machine : StateMachine} (transition : StateTransition) (relays : RelayConfiguration) :
      Reached machine → machine.Harmless transition →
      Reached (machine.apply transition relays).2

/-- The outcome keeps session and memory together, and is no change when it is an error. -/
def Keeps (machine : StateMachine) (outcome : Except SafeErrorCode AppSnapshot × StateMachine) :
    Prop :=
  outcome.2.Matches ∧ ∀ e, outcome.1 = .error e → outcome.2 = machine

theorem booting_sound : Sound .booting where
  together := by simp [Matches, StateMachine.booting, AppSnapshot.booting]
  booting := by simp [StateMachine.booting, AppSnapshot.booting]
  valid := by decide
  previous := by simp [StateMachine.booting]

/-! ## Harmless transitions -/

section
variable {machine : StateMachine} {revision : SnapshotRevision} {relays : RelayConfiguration}
  {snapshot : AppSnapshot}

/-- A snapshot that replaces the present one without an activation in it. -/
theorem sound_idle (hready : snapshot.lifecycle = .booting → snapshot.identities = [])
    (hvalid : AppSnapshot.validateSnapshot snapshot.identities snapshot.selectedIdentity
      snapshot.session snapshot.activeIdentity = .ok ())
    (hidle : ∀ key, snapshot.session ≠ .activating key) : Sound ⟨snapshot, none⟩ where
  together := by simp [Matches, hidle]
  booting := hready
  valid := hvalid
  previous := by simp

/-- A snapshot that replaces the present one and keeps its identities and its session. -/
theorem Sound.replace (h : machine.Sound)
    (hready : snapshot.lifecycle = .booting → snapshot.identities = [])
    (hidentities : snapshot.identities = machine.snapshot.identities)
    (hsession : snapshot.session = machine.snapshot.session)
    (hvalid : AppSnapshot.validateSnapshot snapshot.identities snapshot.selectedIdentity
      snapshot.session snapshot.activeIdentity = .ok ()) : Sound { machine with snapshot } where
  together := by
    have hkeys : keys { machine with snapshot } = machine.keys :=
      congrArg (List.map _) hidentities
    simpa only [Matches, hkeys, hsession] using h.together
  booting := hready
  valid := hvalid
  previous := fun key previous hpending => by
    obtain ⟨hidle, hback⟩ := h.previous key previous hpending
    rw [← hidentities] at hback
    exact ⟨hidle, AppSnapshot.validateSnapshot_select hback hvalid⟩

/-- Without a pending activation the session is not activating. -/
theorem Sound.idle (h : machine.Sound) (hpending : machine.pendingActivation = none)
    (key : PublicKey) : machine.snapshot.session ≠ .activating key := by
  intro hsession
  obtain ⟨previous, hsome⟩ := (h.together.1 key).mp hsession
  rw [hpending] at hsome
  cases hsome

/-- How `apply` ends: the snapshot is put in place, or the error is passed on. -/
def settle (attempt : Except SafeErrorCode AppSnapshot × StateMachine) :
    Except SafeErrorCode AppSnapshot × StateMachine :=
  match attempt.1 with
  | .ok snapshot => (.ok snapshot, { attempt.2 with snapshot })
  | .error e => (.error e, attempt.2)

/-- What a transition comes to before it is settled. -/
def attempt (machine : StateMachine) (revision : SnapshotRevision) (relays : RelayConfiguration) :
    StateTransition → Except SafeErrorCode AppSnapshot × StateMachine
  | .bootstrap => (machine.bootstrap revision relays, machine)
  | .bootstrapRegistry identities selected =>
    (machine.bootstrapRegistry revision relays identities selected, machine)
  | .fatal error => (.ok (AppSnapshot.fatal revision relays error), machine)
  | .replaceRegistry identities selected => machine.replaceRegistry revision identities selected
  | .replaceRegistryPreservingSession identities selected =>
    machine.replaceRegistryPreservingSession revision identities selected
  | .select key => (machine.select revision key, machine)
  | .beginActivation key => machine.beginActivation revision key
  | .activationSucceeded active => machine.activationSucceeded revision active
  | .activationFailed problem => machine.activationFailed revision problem
  | .updateActiveIdentity expected active problem =>
    (machine.updateActiveIdentity revision expected active problem, machine)
  | .signOut => machine.signOut revision
  | .setProblem problem =>
    (machine.copyReady revision machine.snapshot.selectedIdentity machine.snapshot.session
      machine.snapshot.activeIdentity problem, machine)

theorem apply_eq_settle (hrevision : machine.snapshot.revision.next = some revision)
    (transition : StateTransition) :
    machine.apply transition relays = settle (machine.attempt revision relays transition) := by
  unfold apply
  rw [hrevision]
  cases transition <;> rfl

variable {attempt : Except SafeErrorCode AppSnapshot × StateMachine}
  {problem : Option SafeErrorCode} {transition : StateTransition}

section
variable (h : machine.Sound)
include h

theorem settle_keeps
    (hok : ∀ snapshot, attempt.1 = .ok snapshot → Sound { attempt.2 with snapshot })
    (herror : ∀ e, attempt.1 = .error e → attempt.2 = machine) :
    (settle attempt).2.Sound ∧ machine.Keeps (settle attempt) := by
  obtain ⟨next, machine'⟩ := attempt
  cases next with
  | ok snapshot =>
    have hsound := hok snapshot rfl
    exact ⟨hsound, hsound.together, fun e he => by cases he⟩
  | error e =>
    obtain rfl := herror e rfl
    exact ⟨h, h.together, fun _ _ => rfl⟩

theorem bootstrapRegistry_sound
    (hnext : machine.bootstrapRegistry revision relays identities selected = .ok snapshot) :
    Sound { machine with snapshot } := by
  unfold bootstrapRegistry at hnext
  split at hnext
  · cases hnext
    exact h
  · rename_i hbooting
    -- while booting nothing is registered, so nothing can be pending
    have hnone : machine.pendingActivation = none := by
      cases hpending : machine.pendingActivation with
      | none => rfl
      | some pending =>
        have hmem := h.together.2 pending.1 pending.2 hpending
        rw [keys, h.booting (not_not.mp hbooting)] at hmem
        cases hmem
    obtain ⟨hvalid, rfl⟩ := AppSnapshot.ready_eq_ok.mp hnext
    rw [hnone]
    exact sound_idle (by simp) hvalid (by simp)

theorem select_sound {key : PublicKey} (hnext : machine.select revision key = .ok snapshot) :
    Sound { machine with snapshot } := by
  simp only [select, copyReady, accepted, AppSnapshot.ready_eq_ok] at hnext
  obtain ⟨-, hvalid, rfl⟩ := hnext
  exact h.replace (by simp) rfl rfl hvalid

theorem updateActiveIdentity_sound {expected : PublicKey} {active : ActiveIdentitySnapshot}
    (hnext : machine.updateActiveIdentity revision expected active problem = .ok snapshot) :
    Sound { machine with snapshot } := by
  simp only [updateActiveIdentity, copyReady, accepted, passed, AppSnapshot.ready_eq_ok] at hnext
  obtain ⟨⟨hsession, -⟩, hvalid, rfl⟩ := hnext
  exact h.replace (by simp) rfl hsession.symm hvalid

theorem setProblem_sound (hnext : machine.copyReady revision machine.snapshot.selectedIdentity
      machine.snapshot.session machine.snapshot.activeIdentity problem = .ok snapshot) :
    Sound { machine with snapshot } := by
  obtain ⟨hvalid, rfl⟩ := AppSnapshot.ready_eq_ok.mp hnext
  exact h.replace (by simp) rfl rfl hvalid

/-- Signing out is never refused: the registered identities stay as they are. -/
theorem signOut_spec :
    ∃ snapshot, machine.signOut revision = (.ok snapshot, ⟨machine.snapshot, none⟩) ∧
      Sound ⟨snapshot, none⟩ := by
  have hvalid : AppSnapshot.validateSnapshot machine.snapshot.identities
      machine.snapshot.selectedIdentity .signedOut none = .ok () := by
    have := AppSnapshot.validateSnapshot_eq_ok.mp h.valid
    exact AppSnapshot.validateSnapshot_eq_ok.mpr ⟨this.1, this.2.1, this.2.2.1, by simp⟩
  refine ⟨_, Prod.ext (AppSnapshot.ready_eq_ok.mpr ⟨hvalid, rfl⟩) rfl, ?_⟩
  exact sound_idle (by simp) hvalid (by simp)

/-- A failed activation goes back to a session that is accepted. -/
theorem activationFailed_spec (problem : SafeErrorCode) :
    (∃ e, machine.activationFailed revision problem = (.error e, machine)) ∨
    ∃ snapshot, machine.activationFailed revision problem =
      (.ok snapshot, ⟨machine.snapshot, none⟩) ∧ Sound ⟨snapshot, none⟩ := by
  unfold activationFailed
  cases hpending : machine.pendingActivation with
  | none => exact .inl ⟨_, rfl⟩
  | some pending =>
    obtain ⟨hidle, hback⟩ := h.previous pending.1 pending.2 hpending
    refine .inr ⟨_, Prod.ext (AppSnapshot.ready_eq_ok.mpr ⟨hback, rfl⟩) rfl, ?_⟩
    exact sound_idle (by simp) hback hidle

/-- A begun activation is remembered with the session it replaces. -/
theorem beginActivation_spec (key : PublicKey) :
    (∃ e, machine.beginActivation revision key = (.error e, machine)) ∨
    ∃ snapshot machine', machine.beginActivation revision key = (.ok snapshot, machine') ∧
      Sound { machine' with snapshot } := by
  unfold beginActivation
  cases hrequire : machine.requireIdentity key with
  | error e => exact .inl ⟨e, rfl⟩
  | ok =>
    have hmem : key ∈ machine.keys := by
      simpa [requireIdentity, refuse_eq_ok, keys] using hrequire
    cases hpending : machine.pendingActivation with
    | some pending => exact .inl ⟨_, rfl⟩
    | none =>
      have hvalid : AppSnapshot.validateSnapshot machine.snapshot.identities
          machine.snapshot.selectedIdentity (.activating key) machine.snapshot.activeIdentity =
          .ok () := by
        have := AppSnapshot.validateSnapshot_eq_ok.mp h.valid
        exact AppSnapshot.validateSnapshot_eq_ok.mpr
          ⟨this.1, this.2.1, this.2.2.1, this.2.2.2.1, by simp⟩
      refine .inr ⟨_, _, Prod.ext (AppSnapshot.ready_eq_ok.mpr ⟨hvalid, rfl⟩) rfl, ?_⟩
      exact {
        together := ⟨by simp, by
          intro key' previous heq
          cases heq
          exact hmem⟩
        booting := by simp
        valid := hvalid
        previous := by
          intro key' previous heq
          cases heq
          exact ⟨h.idle hpending, h.valid⟩ }

end

/-- An activation that succeeds is remembered no more. -/
theorem activationSucceeded_spec (active : ActiveIdentitySnapshot) :
    (∃ e, machine.activationSucceeded revision active = (.error e, machine)) ∨
    ∃ snapshot, machine.activationSucceeded revision active =
      (.ok snapshot, ⟨machine.snapshot, none⟩) ∧ Sound ⟨snapshot, none⟩ := by
  unfold activationSucceeded
  cases machine.pendingActivation with
  | none => exact .inl ⟨_, rfl⟩
  | some pending =>
    dsimp only
    split
    · exact .inl ⟨_, rfl⟩
    · split
      · exact .inl ⟨_, rfl⟩
      · split
        · rename_i hready
          obtain ⟨hvalid, rfl⟩ := AppSnapshot.ready_eq_ok.mp hready
          exact .inr ⟨_, rfl, sound_idle (by simp) hvalid (by simp)⟩
        · exact .inl ⟨_, rfl⟩

/-- The transitions that begin an activation or end it either change nothing or succeed. -/
theorem settle_spec (h : machine.Sound) (hspec : (∃ e, attempt = (.error e, machine)) ∨
      ∃ snapshot machine', attempt = (.ok snapshot, machine') ∧ Sound { machine' with snapshot }) :
    (settle attempt).2.Sound ∧ machine.Keeps (settle attempt) := by
  refine settle_keeps h (fun snapshot hok => ?_) fun e herror => ?_
  · rcases hspec with ⟨e, rfl⟩ | ⟨snapshot', machine', rfl, hsound⟩
    · cases hok
    · cases hok
      exact hsound
  · rcases hspec with ⟨e, rfl⟩ | ⟨snapshot', machine', rfl, -⟩
    · rfl
    · cases herror

/-- **A harmless transition keeps the session and the remembered activation together.** -/
theorem apply_sound (h : machine.Sound) (hsafe : machine.Harmless transition) :
    (machine.apply transition relays).2.Sound ∧
      machine.Keeps (machine.apply transition relays) := by
  cases hrevision : machine.snapshot.revision.next with
  | none =>
    have hsame : machine.apply transition relays = (.error .invalidApplicationState, machine) := by
      rw [apply, hrevision]
    rw [hsame]
    exact ⟨h, h.together, fun _ _ => rfl⟩
  | some revision =>
    rw [apply_eq_settle hrevision]
    cases transition with
    | bootstrap =>
      exact settle_keeps h (fun _ hnext => bootstrapRegistry_sound h hnext) fun _ _ => rfl
    | bootstrapRegistry identities selected =>
      exact settle_keeps h (fun _ hnext => bootstrapRegistry_sound h hnext) fun _ _ => rfl
    | fatal error =>
      have hnone : machine.pendingActivation = none := by simpa [Harmless, hrevision] using hsafe
      refine settle_spec h (.inr ⟨_, _, rfl, ?_⟩)
      rw [hnone]
      exact sound_idle (by simp [AppSnapshot.fatal])
        (by rw [AppSnapshot.validateSnapshot_eq_ok]; simp [AppSnapshot.fatal])
        (by simp [AppSnapshot.fatal])
    | replaceRegistry identities selected =>
      refine settle_keeps h (fun snapshot hnext => ?_) fun e hnext => ?_
      · obtain ⟨hvalid, rfl⟩ := AppSnapshot.ready_eq_ok.mp hnext
        exact sound_idle (by simp) hvalid (by simp)
      · rcases hsafe with hnone | hnext' | hvalid
        · exact congrArg (StateMachine.mk machine.snapshot) hnone.symm
        · rw [hrevision] at hnext'
          cases hnext'
        · cases hnext.symm.trans (AppSnapshot.ready_eq_ok.mpr ⟨hvalid, rfl⟩)
    | replaceRegistryPreservingSession identities selected =>
      have hnone : machine.pendingActivation = none := by simpa [Harmless, hrevision] using hsafe
      refine settle_keeps h (fun snapshot hnext => ?_) fun e _ => ?_
      · obtain ⟨hvalid, rfl⟩ := AppSnapshot.ready_eq_ok.mp hnext
        exact sound_idle (by simp) hvalid (h.idle hnone)
      · exact congrArg (StateMachine.mk machine.snapshot) hnone.symm
    | select key => exact settle_keeps h (fun _ hnext => select_sound h hnext) fun _ _ => rfl
    | beginActivation key => exact settle_spec h (beginActivation_spec h key)
    | activationSucceeded active =>
      refine settle_spec h ((activationSucceeded_spec active).imp_right ?_)
      rintro ⟨snapshot, heq, hsound⟩
      exact ⟨snapshot, _, heq, hsound⟩
    | activationFailed problem =>
      refine settle_spec h ((activationFailed_spec h problem).imp_right ?_)
      rintro ⟨snapshot, heq, hsound⟩
      exact ⟨snapshot, _, heq, hsound⟩
    | updateActiveIdentity expected active problem =>
      exact settle_keeps h (fun _ hnext => updateActiveIdentity_sound h hnext) fun _ _ => rfl
    | signOut =>
      obtain ⟨snapshot, heq, hsound⟩ := @signOut_spec machine revision h
      exact settle_spec h (.inr ⟨snapshot, _, heq, hsound⟩)
    | setProblem problem =>
      exact settle_keeps h (fun _ hnext => setProblem_sound h hnext) fun _ _ => rfl

theorem Reached.sound (h : machine.Reached) : machine.Sound := by
  induction h with
  | booting => exact booting_sound
  | next transition relays _ hsafe ih => exact (apply_sound ih hsafe).1

/-! ## The others -/

/-- **A transition that is not harmless drives them apart, or changes the machine by an error.** -/
theorem not_keeps_of_not_harmless (h : machine.Sound) (hharmful : ¬ machine.Harmless transition) :
    ¬ machine.Keeps (machine.apply transition relays) := by
  simp only [Harmless, not_or] at hharmful
  obtain ⟨hpending, hrevision, hcase⟩ := hharmful
  obtain ⟨⟨key, previous⟩, hpending⟩ := Option.ne_none_iff_exists'.mp hpending
  obtain ⟨revision, hrevision⟩ := Option.ne_none_iff_exists'.mp hrevision
  have hsession : machine.snapshot.session = .activating key :=
    (h.together.1 key).mpr ⟨previous, hpending⟩
  -- forgetting the activation while the session shows it is the end of both
  have hforgot : ∀ snapshot : AppSnapshot, snapshot.session = .activating key →
      ¬ Matches ⟨snapshot, none⟩ := by
    intro snapshot hshows hmatches
    obtain ⟨_, hsome⟩ := (hmatches.1 key).mp hshows
    cases hsome
  rw [apply_eq_settle hrevision]
  cases transition with
  | fatal error =>
    rintro ⟨hmatches, -⟩
    have hsignedOut : SessionState.signedOut = .activating key :=
      (hmatches.1 key).mpr ⟨previous, hpending⟩
    cases hsignedOut
  | replaceRegistry identities selected =>
    cases hready :
      AppSnapshot.ready revision machine.snapshot.relayConfiguration identities selected
        .signedOut none none with
    | ok snapshot => exact absurd (AppSnapshot.ready_eq_ok.mp hready).1 hcase
    | error e =>
      rintro ⟨hmatches, -⟩
      simp only [settle, attempt, replaceRegistry, hready] at hmatches
      exact hforgot _ hsession hmatches
  | replaceRegistryPreservingSession identities selected =>
    cases hready :
      AppSnapshot.ready revision machine.snapshot.relayConfiguration identities selected
        machine.snapshot.session machine.snapshot.activeIdentity none with
    | ok snapshot =>
      rintro ⟨hmatches, -⟩
      simp only [settle, attempt, replaceRegistryPreservingSession, hready] at hmatches
      refine hforgot snapshot ?_ hmatches
      rw [(AppSnapshot.ready_eq_ok.mp hready).2]
      exact hsession
    | error e =>
      rintro ⟨hmatches, -⟩
      simp only [settle, attempt, replaceRegistryPreservingSession, hready] at hmatches
      exact hforgot _ hsession hmatches
  | _ => exact absurd trivial hcase

end

/-- **Session and remembered activation agree exactly as long as transitions are harmless.**  In
every state reached by harmless transitions they agree; and a further transition keeps them
so, and changes nothing when it is refused, if and only if it is harmless. -/
theorem activation_stays_consistent_iff {machine : StateMachine} (h : machine.Reached) :
    ((∀ key, machine.snapshot.session = .activating key ↔
        ∃ previous, machine.pendingActivation = some (key, previous)) ∧
      ∀ key previous, machine.pendingActivation = some (key, previous) →
        key ∈ machine.snapshot.identities.map (·.publicKey)) ∧
    ∀ (transition : StateTransition) (relays : RelayConfiguration),
      machine.Keeps (machine.apply transition relays) ↔ machine.Harmless transition := by
  refine ⟨h.sound.together, fun transition relays => ⟨fun hkeeps => ?_, fun hsafe => ?_⟩⟩
  · by_contra hharmful
    exact not_keeps_of_not_harmless h.sound hharmful hkeeps
  · exact (apply_sound h.sound hsafe).2

/-! ## Runs that drive them apart -/

/-- One identity, registered and selected, and about to be activated. -/
def garden : NostrIdentity := .saved (.of 6) (.of 1000)

def gardenActivating : StateMachine :=
  ((booting.apply (.bootstrapRegistry [garden] (some garden.publicKey)) {}).2.apply
    (.beginActivation garden.publicKey) {}).2

def gardenOutcome (transition : StateTransition) :
    Except SafeErrorCode AppSnapshot × StateMachine :=
  gardenActivating.apply transition {}

/-- While it is activated, a fatal error leaves the activation remembered, a preserving
replacement leaves it shown, and a replacement that is refused has forgotten it. -/
theorem activation_driven_apart :
    ((gardenOutcome (.fatal .storageUnavailable)).2.snapshot.session = .signedOut ∧
      (gardenOutcome (.fatal .storageUnavailable)).2.pendingActivation.isSome = true) ∧
    ((gardenOutcome (.replaceRegistryPreservingSession [garden]
        (some garden.publicKey))).2.snapshot.session = .activating garden.publicKey ∧
      (gardenOutcome (.replaceRegistryPreservingSession [garden]
        (some garden.publicKey))).2.pendingActivation = none) ∧
    (gardenOutcome (.replaceRegistry [] (some garden.publicKey))).1 =
        .error .invalidApplicationState ∧
      (gardenOutcome (.replaceRegistry [] (some garden.publicKey))).2 ≠ gardenActivating := by
  decide +kernel

/-- The activation of the registered identity is begun, and may be followed by signing out but
not by a fatal error. -/
theorem activation_stays_consistent_garden :
    gardenActivating.snapshot.session = .activating garden.publicKey ∧
    gardenActivating.Keeps (gardenActivating.apply .signOut {}) ∧
    ¬ gardenActivating.Keeps (gardenActivating.apply (.fatal .storageUnavailable) {}) := by
  have hreached : gardenActivating.Reached :=
    .next _ _ (.next _ _ .booting (.inl rfl)) (.inl (by decide +kernel))
  obtain ⟨⟨hsession, -⟩, hkeeps⟩ := activation_stays_consistent_iff hreached
  refine ⟨by decide +kernel, (hkeeps _ _).mpr (.inr (.inr trivial)), ?_⟩
  rw [hkeeps]
  rintro (hnone | hlast | hfalse)
  · exact absurd hnone (by decide +kernel)
  · exact absurd hlast (by decide +kernel)
  · exact hfalse

end StateMachine

end HarvestCircle
