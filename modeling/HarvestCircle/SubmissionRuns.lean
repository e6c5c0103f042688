import Mathlib.Logic.Relation
import HarvestCircle.Submission

/-! # Submissions over whole runs

Any number of submit calls run at once, and between any two of their transactions
the session may move on or the runtime may start anew.  A call that is never
continued has crashed.  A transaction whose commit is not confirmed may have
changed the database all the same.

`HubDatabase.Change` lists what one transaction can do to the tables; every
invariant is proved from it.  The result is `submitted_effects_happen_once`.
-/
namespace HarvestCircle
open Checked Transaction

/-- A submit call between two of its transactions. -/
inductive SubmitCall (C : Type) where
  /-- Before its admission. -/
  | admission (scope : HubSubmissionScope) (operation : DurableRequestId) (mutation : HubMutation C)
      (now : UnixTimestamp)
  /-- Its effect is recorded already; the handler is asked for the original. -/
  | replay (scope : HubSubmissionScope) (operation : DurableRequestId) (mutation : HubMutation C)
      (now : UnixTimestamp)
  /-- It stored the submission and may execute it. -/
  | fresh (scope : HubSubmissionScope) (operation : DurableRequestId) (mutation : HubMutation C)
      (now : UnixTimestamp)
  /-- Its handler failed for certain. -/
  | reject (operation : DurableRequestId) (code : SafeErrorCode) (now : UnixTimestamp)
  /-- It returned; `granted` tells whether it had stored the submission. -/
  | finished (granted : Bool) (operation : DurableRequestId)
      (result : Except SafeErrorCode EffectRoot)

/-- The database and the calls that were made. -/
structure HubSystem (C : Type) where
  db : HubDatabase
  calls : List (SubmitCall C)

/-- What a caller may see of a transaction of the store. -/
abbrev StoreOutcome {α : Type} (body : Except SafeErrorCode (α × HubDatabase)) (db : HubDatabase)
    (result : Except SafeErrorCode α) (db' : HubDatabase) : Prop :=
  Outcome .storageUnavailable .pendingOperationRecoveryRequired body db result db'

section
variable {C : Type} [HubCommand C]

namespace SubmitCall

/-- How a call goes on after its admission. -/
def afterAdmission (scope : HubSubmissionScope) (operation : DurableRequestId)
    (mutation : HubMutation C) (now : UnixTimestamp) : Except SafeErrorCode Decision → SubmitCall C
  | .ok .fresh => .fresh scope operation mutation now
  | .ok .recorded => .replay scope operation mutation now
  | .error e => .finished false operation (.error e)

/-- How a call goes on after its handler: observed facts stay pending whatever happened, an
unknown outcome stays unknown, and any other error is recorded as a rejection. -/
def afterExecute (operation : DurableRequestId) (mutation : HubMutation C) (now : UnixTimestamp) :
    Except SafeErrorCode EffectRoot → SubmitCall C
  | .ok root => .finished true operation (.ok root)
  | .error e =>
    if mutation.kind = .actualReport ∨ mutation.kind = .correctionObserve then
      .finished true operation (.error .hubOutcomeUnknown)
    else if e = .pendingOperationRecoveryRequired ∨ e = .hubOutcomeUnknown then
      .finished true operation (.error .hubOutcomeUnknown)
    else .reject operation e now

def afterReject (operation : DurableRequestId) (code : SafeErrorCode) :
    Except SafeErrorCode Unit → SubmitCall C
  | .ok _ => .finished true operation (.error (HubDatabase.knownRejection code))
  | .error _ => .finished true operation (.error .hubOutcomeUnknown)

/-- One transaction of a call. -/
inductive Step (db : HubDatabase) : SubmitCall C → HubDatabase → SubmitCall C → Prop where
  | admission {scope operation mutation now captured result db'}
      (h : StoreOutcome (db.prepareOn scope operation mutation now captured) db result db') :
      Step db (.admission scope operation mutation now) db'
        (afterAdmission scope operation mutation now result)
  | replay {scope operation mutation now plan result db'}
      (h : StoreOutcome (db.execute scope.actor operation mutation now plan) db result db') :
      Step db (.replay scope operation mutation now) db' (.finished false operation result)
  | execute {scope operation mutation now plan result db'}
      (h : StoreOutcome (db.execute scope.actor operation mutation now plan) db result db') :
      Step db (.fresh scope operation mutation now) db'
        (afterExecute operation mutation now result)
  | reject {operation code now result db'}
      (h : StoreOutcome (db.rejectOn operation code now) db result db') :
      Step db (.reject operation code now) db' (afterReject operation code result)

end SubmitCall

/-- One step of the system: a new call, a transaction of a call, or a change of session. -/
inductive HubSystem.Step (s : HubSystem C) : HubSystem C → Prop where
  | submit (scope : HubSubmissionScope) (operation : DurableRequestId) (mutation : HubMutation C)
      (now : UnixTimestamp) :
      Step s { s with calls := s.calls ++ [.admission scope operation mutation now] }
  | call {pre post : List (SubmitCall C)} {c c' : SubmitCall C} {db' : HubDatabase}
      (hcalls : s.calls = pre ++ c :: post) (h : c.Step s.db db' c') :
      Step s ⟨db', pre ++ c' :: post⟩
  | beginRuntime {runtime now result db'}
      (h : StoreOutcome (s.db.beginHubRuntime runtime now) s.db result db') :
      Step s { s with db := db' }
  | advance {runtime prior actor now result db'}
      (h : StoreOutcome (s.db.advanceHubSession runtime prior actor now) s.db result db') :
      Step s { s with db := db' }

/-- Any number of steps. -/
def HubSystem.Run : HubSystem C → HubSystem C → Prop := Relation.ReflTransGen HubSystem.Step

end

/-- The store right after the runtime began: no submission and no effect. -/
structure HubSystem.Started {C : Type} (s : HubSystem C) : Prop where
  session : ∃ runtime updatedAt, s.db.session = some ⟨runtime, ⟨0, by decide⟩, none, updatedAt⟩
  submissions : s.db.submissions = []
  roots : s.db.roots = []
  calls : s.calls = []

/-! ## What a transaction does to the tables -/

namespace HubDatabase

/-- The effect's root is stored, under the guards of its insertion. -/
structure Records (db : HubDatabase) (root : EffectRoot) (db' : HubDatabase) : Prop where
  new : ¬ db.Recorded root.operation
  effect : db.effectGuard root
  uncertain : db.uncertainStockGuard root
  observed : db.observedStockGuard root
  session_eq : db'.session = db.session
  submissions_eq : db'.submissions = db.submissions
  rejections_eq : db'.rejections = db.rejections
  roots_eq : db'.roots = db.roots ++ [root]

/-- Everything a transaction can do to the tables. -/
inductive Change (db : HubDatabase) : HubDatabase → Prop where
  | none : Change db db
  | admission {new : HubSubmission} (fresh : ∀ s ∈ db.submissions, s.operation ≠ new.operation)
      (guard : db.admissionGuard new) : Change db { db with submissions := db.submissions ++ [new] }
  | reject {new : HubRejection} (guard : db.rejectionGuard new) :
      Change db { db with rejections := db.rejections ++ [new] }
  | record {root : EffectRoot} {db' : HubDatabase} (h : db.Records root db') : Change db db'
  | session {new : HubRuntimeSession} (guard : db.sessionGuard new) :
      Change db { db with session := some new }

variable {db db' : HubDatabase} {operation : DurableRequestId} {now : UnixTimestamp}
  {s : HubSubmission}

theorem originalOn_eq_some {root : EffectRoot} (h : db.originalOn operation = .ok (some root)) :
    root ∈ db.roots ∧ root.operation = operation := by
  unfold originalOn at h
  split at h
  · cases h
  · rename_i only hfilter
    cases h
    have hmem : root ∈ db.roots.filter fun r => r.operation = operation := by rw [hfilter]; simp
    simpa using List.mem_filter.mp hmem
  · cases h

theorem originalOn_eq_none (h : db.originalOn operation = .ok none) : ¬ db.Recorded operation := by
  unfold originalOn at h
  split at h
  · rename_i hfilter
    rintro ⟨root, hroot, hop⟩
    exact List.filter_eq_nil_iff.mp hfilter root hroot (by simpa using hop)
  · cases h
  · cases h

/-- A recorded status comes with the root. -/
theorem recorded_of_recordOn {row : HubSubmission}
    (h : db.recordOn operation = .ok (some (row, .recorded))) : db.Recorded operation := by
  unfold recordOn at h
  split at h
  · cases h
  · simp only [accepted] at h
    obtain ⟨-, -, original, horiginal, h⟩ := h
    split at h
    · cases h
    · exact ⟨_, originalOn_eq_some horiginal⟩
    all_goals
      simp only [accepted, Option.some.injEq, Prod.mk.injEq, reduceCtorEq, and_false] at h

/-- An admission finds the effect recorded, or stores the submission under the caller's scope. -/
theorem prepareOn_eq_ok {C : Type} [HubCommand C] {scope : HubSubmissionScope}
    {mutation : HubMutation C} {captured : Except SafeErrorCode Nat} {decision : Decision}
    (h : db.prepareOn scope operation mutation now captured = .ok (decision, db')) :
    (decision = .recorded ∧ db' = db ∧ db.Recorded operation) ∨
    (decision = .fresh ∧ ∃ new : HubSubmission, new.operation = operation ∧
      new.runtime = scope.runtime ∧ new.generation = scope.generation ∧ new.actor = scope.actor ∧
      (∀ s ∈ db.submissions, s.operation ≠ operation) ∧ db.admissionGuard new ∧
      db' = { db with submissions := db.submissions ++ [new] }) := by
  simp only [prepareOn, accepted] at h
  obtain ⟨-, -, inputHash, -, hub, -, domainHash, -, record, hrecord, h⟩ := h
  split at h
  · rename_i prior status
    simp only [accepted] at h
    obtain ⟨-, h⟩ := h
    split at h
    · cases h
    · cases h
    · cases h
      exact .inl ⟨rfl, rfl, recorded_of_recordOn hrecord⟩
  · simp only [bind_eq_ok] at h
    obtain ⟨original, horiginal, h⟩ := h
    split at h
    · simp only [accepted, Prod.mk.injEq] at h
      obtain ⟨-, rfl, rfl⟩ := h
      exact .inl ⟨rfl, rfl, _, originalOn_eq_some horiginal⟩
    · simp only [accepted, insertSubmission, passed, not_exists, not_and, Prod.mk.injEq] at h
      obtain ⟨-, bytes, -, -, _, ⟨⟨hfresh, -, hguard⟩, rfl⟩, rfl, rfl⟩ := h
      exact .inr ⟨rfl, _, rfl, rfl, rfl, rfl, hfresh, hguard, rfl⟩

theorem settle_eq (db : HubDatabase) (root : EffectRoot) (closes : List DurableRequestId) :
    (db.settle root closes).session = db.session ∧
    (db.settle root closes).submissions = db.submissions ∧
    (db.settle root closes).rejections = db.rejections ∧
    (db.settle root closes).roots = db.roots := by
  unfold settle
  split <;> exact ⟨rfl, rfl, rfl, rfl⟩

/-- A handler returns the original, or stores the root of a new effect. -/
theorem execute_eq_ok {C : Type} [HubCommand C] {actor : PublicKey} {mutation : HubMutation C}
    {plan : Except SafeErrorCode (List DurableRequestId)} {root : EffectRoot}
    (h : db.execute actor operation mutation now plan = .ok (root, db')) :
    root.operation = operation ∧ ((db' = db ∧ root ∈ db.roots) ∨ db.Records root db') := by
  simp only [execute, bind_eq_ok] at h
  obtain ⟨hub, -, hash, -, original, horiginal, h⟩ := h
  split at h
  · simp only [accepted, Prod.mk.injEq] at h
    obtain ⟨-, rfl, rfl⟩ := h
    obtain ⟨hmem, hop⟩ := originalOn_eq_some horiginal
    exact ⟨hop, .inl ⟨rfl, hmem⟩⟩
  · simp only [accepted, insertRoot, passed, Prod.mk.injEq] at h
    obtain ⟨closes, -, context, -, _, ⟨⟨-, heffect, huncertain, hobserved⟩, rfl⟩, rfl, rfl⟩ := h
    refine ⟨rfl, .inr ?_⟩
    obtain ⟨hsession, hsubmissions, hrejections, hroots⟩ := settle_eq
      { db with roots := db.roots ++ [_] } _ closes
    exact ⟨originalOn_eq_none horiginal, heffect, huncertain, hobserved, hsession, hsubmissions,
      hrejections, hroots⟩

/-- A rejection is stored, under the guard of its insertion. -/
theorem rejectOn_eq_ok {code : SafeErrorCode} {u : Unit}
    (h : db.rejectOn operation code now = .ok (u, db')) :
    ∃ new : HubRejection, new.operation = operation ∧ db.rejectionGuard new ∧
      db' = { db with rejections := db.rejections ++ [new] } := by
  simp only [rejectOn, accepted, Prod.mk.injEq, true_and] at h
  obtain ⟨-, db'', hinsert, record, hrecord, row, hrow, -, rfl⟩ := h
  cases hfind : db.submissions.find? (fun s => s.operation = operation) with
  | some s =>
    simp only [hfind, insertRejection, accepted, passed] at hinsert
    obtain ⟨⟨-, hguard⟩, rfl⟩ := hinsert
    exact ⟨_, rfl, hguard, rfl⟩
  | none =>
    simp only [hfind, pure_eq_ok] at hinsert
    subst hinsert
    simp only [recordOn, hfind, Except.ok.injEq] at hrecord
    rw [← hrecord] at hrow
    cases hrow

variable {runtime : HubRuntimeIncarnation}

/-- Starting a runtime replaces the session. -/
theorem beginHubRuntime_eq_ok {runtime' : HubRuntimeIncarnation}
    (h : db.beginHubRuntime runtime now = .ok (runtime', db')) :
    ∃ new, db.sessionGuard new ∧ db' = { db with session := some new } := by
  simp only [beginHubRuntime, replaceSession, accepted, Decidable.not_not, Prod.mk.injEq] at h
  obtain ⟨_, ⟨hguard, rfl⟩, -, rfl⟩ := h
  exact ⟨_, hguard, rfl⟩

theorem advanceHubSession_eq_ok {prior generation : SessionGeneration} {actor : Option PublicKey}
    (h : db.advanceHubSession runtime prior actor now = .ok (generation, db')) :
    ∃ new, db.sessionGuard new ∧ db' = { db with session := some new } := by
  simp only [advanceHubSession, bind_eq_ok] at h
  obtain ⟨next, -, h⟩ := h
  split at h
  · simp only [replaceSession, accepted, Decidable.not_not, Prod.mk.injEq] at h
    obtain ⟨-, _, ⟨hguard, rfl⟩, -, rfl⟩ := h
    exact ⟨_, hguard, rfl⟩
  · cases h

/-! ## Invariants of the tables -/

/-- The submission's session is over and will not come back. -/
def PastFor (db : HubDatabase) (submission : HubSubmission) : Prop :=
  ∃ session ∈ db.session, session.runtime = submission.runtime →
    submission.generation.value < session.generation.value

/-- What holds of the tables in every run. -/
structure Sound (db : HubDatabase) : Prop where
  session : db.session ≠ none
  submissions_nodup : (db.submissions.map (·.operation)).Nodup
  placed : ∀ s ∈ db.submissions, db.CurrentFor s ∨ db.PastFor s
  roots_nodup : (db.roots.map (·.operation)).Nodup
  root_submitted : ∀ root ∈ db.roots, ∃ s ∈ db.submissions, IsEffectOf root s
  root_not_rejected : ∀ root ∈ db.roots, ¬ db.Rejected root.operation

/-- Rows are only ever added. -/
structure Extends (db db' : HubDatabase) : Prop where
  submissions : db.submissions <+: db'.submissions
  rejections : db.rejections <+: db'.rejections
  roots : db.roots <+: db'.roots

theorem Extends.refl (db : HubDatabase) : db.Extends db :=
  ⟨List.prefix_rfl, List.prefix_rfl, List.prefix_rfl⟩

theorem Extends.trans {a b c : HubDatabase} (h : a.Extends b) (h' : b.Extends c) : a.Extends c :=
  ⟨h.submissions.trans h'.submissions, h.rejections.trans h'.rejections, h.roots.trans h'.roots⟩

theorem Extends.rejected (h : db.Extends db') (hr : db.Rejected operation) :
    db'.Rejected operation := by
  obtain ⟨r, hmem, hop⟩ := hr
  exact ⟨r, h.rejections.subset hmem, hop⟩

theorem Extends.recorded (h : db.Extends db') (hr : db.Recorded operation) :
    db'.Recorded operation := by
  obtain ⟨r, hmem, hop⟩ := hr
  exact ⟨r, h.roots.subset hmem, hop⟩

theorem Change.extended (h : db.Change db') : db.Extends db' := by
  cases h with
  | none => exact .refl db
  | admission _ _ => exact ⟨List.prefix_append _ _, List.prefix_rfl, List.prefix_rfl⟩
  | reject _ => exact ⟨List.prefix_rfl, List.prefix_append _ _, List.prefix_rfl⟩
  | record h =>
    exact ⟨h.submissions_eq ▸ List.prefix_rfl, h.rejections_eq ▸ List.prefix_rfl,
      h.roots_eq ▸ List.prefix_append _ _⟩
  | session _ => exact ⟨List.prefix_rfl, List.prefix_rfl, List.prefix_rfl⟩

/-- A session that has submissions never comes back once it is over. -/
theorem Change.past (h : db.Change db') (hs : s ∈ db.submissions) (hpast : db.PastFor s) :
    db'.PastFor s := by
  cases h with
  | none => exact hpast
  | admission _ _ => exact hpast
  | reject _ => exact hpast
  | record h =>
    unfold PastFor
    rw [h.session_eq]
    exact hpast
  | @session new hguard =>
    obtain ⟨old, hold, hlater⟩ := hpast
    refine ⟨new, rfl, fun hruntime => ?_⟩
    by_cases hsame : new.runtime = old.runtime
    · have hgrows := (hguard.1 old hold).2 hsame
      have := hlater (hsame.symm.trans hruntime)
      omega
    · -- a new incarnation has no submissions, but `s` is one of it
      have hnew := (hguard.2 fun other hother => by
        rw [hold] at hother
        cases hother
        exact hsame).2.2
      exact absurd hruntime.symm (hnew s hs)

/-- Replacing the session ends it for every submission. -/
theorem past_of_sessionGuard {new : HubRuntimeSession} (hguard : db.sessionGuard new)
    (hcurrent : db.CurrentFor s) : ({ db with session := some new } : HubDatabase).PastFor s := by
  obtain ⟨old, hold, hruntime, hgeneration, -⟩ := hcurrent
  refine ⟨new, rfl, fun hnew => ?_⟩
  by_cases hsame : new.runtime = old.runtime
  · rw [← hgeneration]
    exact (hguard.1 old hold).2 hsame
  · exact absurd (hnew.trans hruntime.symm) hsame

theorem PastFor.not_current (h : db.PastFor s) : ¬ db.CurrentFor s := by
  rintro ⟨session, hsession, hruntime, hgeneration, -⟩
  obtain ⟨session', hsession', hlater⟩ := h
  rw [hsession] at hsession'
  cases hsession'
  have := hlater hruntime
  rw [hgeneration] at this
  omega

/-- **One transaction keeps the tables sound.** -/
theorem Sound.change (hsound : db.Sound) (h : db.Change db') : db'.Sound := by
  have hpast := fun s hs => h.past (s := s) hs
  cases h with
  | none => exact hsound
  | @admission new hfresh hguard =>
    refine ⟨hsound.session, ?_, ?_, hsound.roots_nodup, fun root hroot => ?_,
      hsound.root_not_rejected⟩
    · rw [List.map_append, List.nodup_append]
      refine ⟨hsound.submissions_nodup, by simp, ?_⟩
      simpa using hfresh
    · intro s hs
      rcases List.mem_append.mp hs with hs | hs
      · exact hsound.placed s hs
      · rw [List.mem_singleton.mp hs]
        exact .inl hguard.2.1
    · obtain ⟨s, hs, heffect⟩ := hsound.root_submitted root hroot
      exact ⟨s, List.mem_append_left _ hs, heffect⟩
  | @reject new hguard =>
    refine ⟨hsound.session, hsound.submissions_nodup, hsound.placed, hsound.roots_nodup,
      hsound.root_submitted, ?_⟩
    rintro root hroot ⟨r, hr, hop⟩
    rcases List.mem_append.mp hr with hr | hr
    · exact hsound.root_not_rejected root hroot ⟨r, hr, hop⟩
    · rw [List.mem_singleton.mp hr] at hop
      exact hguard.2 ⟨root, hroot, hop.symm⟩
  | @record root _ hrecords =>
    obtain ⟨s, hs, heffect, hcurrent, hopen⟩ : ∃ s ∈ db.submissions, IsEffectOf root s ∧
        db.CurrentFor s ∧ ¬ db.Rejected s.operation :=
      hrecords.effect.resolve_left hsound.session
    refine ⟨hrecords.session_eq ▸ hsound.session,
      hrecords.submissions_eq ▸ hsound.submissions_nodup, ?_, ?_, ?_, ?_⟩
    · intro s hs
      rw [hrecords.submissions_eq] at hs
      unfold CurrentFor PastFor
      rw [hrecords.session_eq]
      exact hsound.placed s hs
    · rw [hrecords.roots_eq, List.map_append, List.nodup_append]
      refine ⟨hsound.roots_nodup, by simp, ?_⟩
      simp only [List.map_cons, List.map_nil, List.mem_singleton, forall_eq, List.mem_map]
      rintro op ⟨r, hr, rfl⟩ hop
      exact hrecords.new ⟨r, hr, hop⟩
    · intro r hr
      rw [hrecords.roots_eq] at hr
      rw [hrecords.submissions_eq]
      rcases List.mem_append.mp hr with hr | hr
      · exact hsound.root_submitted r hr
      · rw [List.mem_singleton.mp hr]
        exact ⟨s, hs, heffect⟩
    · intro r hr
      unfold Rejected
      rw [hrecords.rejections_eq]
      rw [hrecords.roots_eq] at hr
      rcases List.mem_append.mp hr with hr | hr
      · exact hsound.root_not_rejected r hr
      · rw [List.mem_singleton.mp hr, heffect.1]
        exact hopen
  | session hguard =>
    refine ⟨by simp, hsound.submissions_nodup, fun s hs => .inr ?_, hsound.roots_nodup,
      hsound.root_submitted, hsound.root_not_rejected⟩
    rcases hsound.placed s hs with hcurrent | hover
    · exact past_of_sessionGuard hguard hcurrent
    · exact hpast s hs hover

end HubDatabase

/-! ## Invariants of the calls -/

section
variable {C : Type}

/-- The operation a call was granted. -/
def SubmitCall.granted : SubmitCall C → Option DurableRequestId
  | .fresh _ operation _ _ => some operation
  | .reject operation _ _ => some operation
  | .finished true operation _ => some operation
  | _ => none

/-- What a call knows is true of the tables. -/
def SubmitCall.Truthful (db : HubDatabase) : SubmitCall C → Prop
  | .admission .. => True
  | .replay _ operation _ _ => db.Recorded operation
  | .fresh scope operation _ _ => ∃ s ∈ db.submissions, s.operation = operation ∧
      s.runtime = scope.runtime ∧ s.generation = scope.generation ∧ s.actor = scope.actor
  | .reject .. => True
  | .finished _ operation (.ok root) => root ∈ db.roots ∧ root.operation = operation
  | .finished true operation (.error e) => e = .hubOutcomeUnknown ∨ db.Rejected operation
  | .finished false _ (.error _) => True

variable {c c' : SubmitCall C} {db db' : HubDatabase}

theorem SubmitCall.Truthful.mono (h : db.Extends db') (hc : c.Truthful db) : c.Truthful db' := by
  match c, hc with
  | .admission .., _ => trivial
  | .replay .., hc => exact h.recorded hc
  | .fresh .., ⟨s, hs, hrow⟩ => exact ⟨s, h.submissions.subset hs, hrow⟩
  | .reject .., _ => trivial
  | .finished _ _ (.ok _), ⟨hroot, hop⟩ => exact ⟨h.roots.subset hroot, hop⟩
  | .finished true _ (.error _), hc => exact hc.imp_right h.rejected
  | .finished false _ (.error _), _ => trivial

variable [HubCommand C]

theorem SubmitCall.Step.change (h : c.Step db db' c') : db.Change db' := by
  cases h with
  | admission h =>
    rcases h.changed with rfl | ⟨decision, hbody⟩
    · exact .none
    · rcases HubDatabase.prepareOn_eq_ok hbody with ⟨-, rfl, -⟩ |
        ⟨-, new, rfl, -, -, -, hfresh, hguard, rfl⟩
      · exact .none
      · exact .admission hfresh hguard
  | replay h =>
    rcases h.changed with rfl | ⟨root, hbody⟩
    · exact .none
    · rcases (HubDatabase.execute_eq_ok hbody).2 with ⟨rfl, -⟩ | hrecords
      · exact .none
      · exact .record hrecords
  | execute h =>
    rcases h.changed with rfl | ⟨root, hbody⟩
    · exact .none
    · rcases (HubDatabase.execute_eq_ok hbody).2 with ⟨rfl, -⟩ | hrecords
      · exact .none
      · exact .record hrecords
  | reject h =>
    rcases h.changed with rfl | ⟨u, hbody⟩
    · exact .none
    · obtain ⟨new, -, hguard, rfl⟩ := HubDatabase.rejectOn_eq_ok hbody
      exact .reject hguard

/-- A confirmed handler left its root. -/
theorem HubDatabase.mem_roots_of_execute {actor : PublicKey} {operation : DurableRequestId}
    {mutation : HubMutation C} {now : UnixTimestamp}
    {plan : Except SafeErrorCode (List DurableRequestId)} {root : EffectRoot}
    (h : db.execute actor operation mutation now plan = .ok (root, db')) :
    root ∈ db'.roots ∧ root.operation = operation := by
  obtain ⟨hop, ⟨rfl, hmem⟩ | hrecords⟩ := HubDatabase.execute_eq_ok h
  · exact ⟨hmem, hop⟩
  · exact ⟨by simp [hrecords.roots_eq], hop⟩

/-- What a call learns in a transaction is true afterwards. -/
theorem SubmitCall.Step.truthful (h : c.Step db db' c') : c'.Truthful db' := by
  cases h with
  | @admission scope operation mutation now captured result _ h =>
    match result, h with
    | .error e, _ => trivial
    | .ok .fresh, h =>
      rcases HubDatabase.prepareOn_eq_ok h.of_ok with ⟨hno, -⟩ |
        ⟨-, new, hop, hruntime, hgeneration, hactor, -, -, rfl⟩
      · cases hno
      · exact ⟨new, by simp, hop, hruntime, hgeneration, hactor⟩
    | .ok .recorded, h =>
      rcases HubDatabase.prepareOn_eq_ok h.of_ok with ⟨-, rfl, hrecorded⟩ | ⟨hno, -⟩
      · exact hrecorded
      · cases hno
  | @replay scope operation mutation now plan result _ h =>
    match result, h with
    | .error e, _ => trivial
    | .ok root, h => exact HubDatabase.mem_roots_of_execute h.of_ok
  | @execute scope operation mutation now plan result _ h =>
    match result, h with
    | .error e, _ =>
      unfold afterExecute
      dsimp only
      split
      · exact .inl rfl
      split
      · exact .inl rfl
      · trivial
    | .ok root, h => exact HubDatabase.mem_roots_of_execute h.of_ok
  | @reject operation code now result _ h =>
    match result, h with
    | .error e, _ => exact .inl rfl
    | .ok u, h =>
      obtain ⟨new, hop, -, rfl⟩ := HubDatabase.rejectOn_eq_ok h.of_ok
      exact .inr ⟨new, by simp, hop⟩

/-- A call keeps its grant, or gets one for an operation that had no submission. -/
theorem SubmitCall.Step.granted (h : c.Step db db' c') :
    c'.granted = c.granted ∨ c.granted = none ∧ (c'.granted = none ∨
      ∃ operation, c'.granted = some operation ∧ (∀ s ∈ db.submissions, s.operation ≠ operation) ∧
        ∃ s ∈ db'.submissions, s.operation = operation) := by
  cases h with
  | @admission scope operation mutation now captured result _ h =>
    refine .inr ⟨rfl, ?_⟩
    match result, h with
    | .error e, _ => exact .inl rfl
    | .ok .recorded, _ => exact .inl rfl
    | .ok .fresh, h =>
      rcases HubDatabase.prepareOn_eq_ok h.of_ok with ⟨hno, -⟩ |
        ⟨-, new, hop, -, -, -, hfresh, -, rfl⟩
      · cases hno
      · exact .inr ⟨operation, rfl, hfresh, new, by simp, hop⟩
  | replay h => exact .inl rfl
  | @execute scope operation mutation now plan result _ h =>
    left
    match result with
    | .ok root => rfl
    | .error e =>
      unfold afterExecute
      dsimp only
      split
      · rfl
      split <;> rfl
  | @reject operation code now result _ h =>
    left
    match result with
    | .ok u => rfl
    | .error e => rfl

/-- Only a call that holds the grant records an effect. -/
theorem SubmitCall.Step.fresh_of_records (h : c.Step db db' c') (hc : c.Truthful db)
    {root : EffectRoot} (hroot : root ∈ db'.roots) (hnew : root ∉ db.roots) :
    ∃ scope mutation now, c = .fresh scope root.operation mutation now ∧ db.Records root db' := by
  -- the new root is the one the handler stored
  have hexecute : ∀ {actor operation mutation now plan root'},
      db.execute (C := C) actor operation mutation now plan = .ok (root', db') →
      root.operation = operation ∧ db.Records root db' := by
    intro actor operation mutation now plan root' hbody
    obtain ⟨hop, ⟨rfl, -⟩ | hrecords⟩ := HubDatabase.execute_eq_ok hbody
    · exact absurd hroot hnew
    · rw [hrecords.roots_eq] at hroot
      rcases List.mem_append.mp hroot with hold | hsame
      · exact absurd hold hnew
      · rw [List.mem_singleton.mp hsame]
        exact ⟨hop, hrecords⟩
  cases h with
  | admission h =>
    rcases h.changed with rfl | ⟨decision, hbody⟩
    · exact absurd hroot hnew
    · rcases HubDatabase.prepareOn_eq_ok hbody with ⟨-, rfl, -⟩ | ⟨-, _, -, -, -, -, -, -, rfl⟩ <;>
        exact absurd hroot hnew
  | replay h =>
    rcases h.changed with rfl | ⟨root', hbody⟩
    · exact absurd hroot hnew
    · obtain ⟨hop, hrecords⟩ := hexecute hbody
      exact absurd (hop ▸ hc) hrecords.new
  | execute h =>
    rcases h.changed with rfl | ⟨root', hbody⟩
    · exact absurd hroot hnew
    · obtain ⟨rfl, hrecords⟩ := hexecute hbody
      exact ⟨_, _, _, rfl, hrecords⟩
  | reject h =>
    rcases h.changed with rfl | ⟨u, hbody⟩
    · exact absurd hroot hnew
    · obtain ⟨_, -, -, rfl⟩ := HubDatabase.rejectOn_eq_ok hbody
      exact absurd hroot hnew

/-! ## Runs -/

namespace HubSystem

/-- What holds of the whole system in every run. -/
structure Sound (s : HubSystem C) : Prop where
  db : s.db.Sound
  truthful : ∀ c ∈ s.calls, c.Truthful s.db
  grants_nodup : (s.calls.filterMap SubmitCall.granted).Nodup
  grant_submitted : ∀ c ∈ s.calls, ∀ operation ∈ c.granted,
    ∃ row ∈ s.db.submissions, row.operation = operation

variable {s t : HubSystem C} {mutation : HubMutation C} {now : UnixTimestamp}
  {scope : HubSubmissionScope} {root : EffectRoot}

omit [HubCommand C] in
theorem Started.sound (h : s.Started) : s.Sound := by
  obtain ⟨runtime, updatedAt, hsession⟩ := h.session
  exact {
    db := ⟨by simp [hsession], by simp [h.submissions], by simp [h.submissions], by simp [h.roots],
      by simp [h.roots], by simp [h.roots]⟩
    truthful := by simp [h.calls]
    grants_nodup := by simp [h.calls]
    grant_submitted := by simp [h.calls] }

theorem Step.change (h : s.Step t) : s.db.Change t.db := by
  cases h with
  | submit scope operation mutation now => exact .none
  | call _ h => exact h.change
  | beginRuntime h =>
    rcases h.changed with heq | ⟨runtime, hbody⟩
    · exact heq ▸ .none
    · obtain ⟨new, hguard, rfl⟩ := HubDatabase.beginHubRuntime_eq_ok hbody
      exact .session hguard
  | advance h =>
    rcases h.changed with heq | ⟨generation, hbody⟩
    · exact heq ▸ .none
    · obtain ⟨new, hguard, rfl⟩ := HubDatabase.advanceHubSession_eq_ok hbody
      exact .session hguard

/-- A call's transaction keeps the system sound. -/
theorem Sound.call (hs : s.Sound) {pre post : List (SubmitCall C)}
    (hcalls : s.calls = pre ++ c :: post) (h : c.Step s.db db' c') :
    Sound ⟨db', pre ++ c' :: post⟩ := by
  have hext := h.change.extended
  have hother : ∀ d ∈ pre ++ post, d ∈ s.calls := by
    intro d hd
    rw [hcalls]
    rcases List.mem_append.mp hd with hd | hd
    · exact List.mem_append_left _ hd
    · exact List.mem_append_right _ (List.mem_cons_of_mem _ hd)
  have hcases : ∀ d ∈ pre ++ c' :: post, d = c' ∨ d ∈ pre ++ post := by
    intro d hd
    simp only [List.mem_append, List.mem_cons] at hd ⊢
    tauto
  have hsubmitted : ∀ operation, (∃ row ∈ s.db.submissions, row.operation = operation) →
      ∃ row ∈ db'.submissions, row.operation = operation := by
    rintro operation ⟨row, hrow, hop⟩
    exact ⟨row, hext.submissions.subset hrow, hop⟩
  have hnodup := hs.grants_nodup
  rw [hcalls] at hnodup
  refine ⟨hs.db.change h.change, fun d hd => ?_, ?_, fun d hd operation hop => ?_⟩
  · rcases hcases d hd with rfl | hd
    · exact h.truthful
    · exact (hs.truthful d (hother d hd)).mono hext
  · rcases h.granted with hsame | ⟨hnone, hsame | ⟨operation, hgrant, hfresh, -⟩⟩
    · simpa [List.filterMap_append, List.filterMap_cons, hsame] using hnodup
    · simpa [List.filterMap_append, List.filterMap_cons, hsame, hnone] using hnodup
    · -- the granted operation had no submission, so no other call holds it
      rw [List.filterMap_append, List.filterMap_cons_none hnone, ← List.filterMap_append] at hnodup
      rw [List.filterMap_append, List.filterMap_cons_some hgrant, List.nodup_middle,
        List.nodup_cons, ← List.filterMap_append]
      refine ⟨fun hmem => ?_, hnodup⟩
      obtain ⟨d, hd, hdop⟩ := List.mem_filterMap.mp hmem
      obtain ⟨row, hrow, hrow_op⟩ := hs.grant_submitted d (hother d hd) operation hdop
      exact hfresh row hrow hrow_op
  · rcases hcases d hd with rfl | hd
    · rcases h.granted with hsame | ⟨hnone, hsame | ⟨operation', hgrant, -, hrow⟩⟩
      · rw [hsame] at hop
        exact hsubmitted operation (hs.grant_submitted c (by rw [hcalls]; simp) operation hop)
      · rw [hsame] at hop
        cases hop
      · rw [hgrant] at hop
        cases hop
        exact hrow
    · exact hsubmitted operation (hs.grant_submitted d (hother d hd) operation hop)

omit [HubCommand C] in
/-- A change of the tables that no call takes part in keeps the system sound. -/
theorem Sound.tables (hs : s.Sound) (h : s.db.Change db') : Sound { s with db := db' } := by
  refine ⟨hs.db.change h, fun c hc => (hs.truthful c hc).mono h.extended, hs.grants_nodup,
    fun c hc operation hop => ?_⟩
  obtain ⟨row, hrow, hrow_op⟩ := hs.grant_submitted c hc operation hop
  exact ⟨row, h.extended.submissions.subset hrow, hrow_op⟩

/-- **One step keeps the system sound.** -/
theorem Step.sound (h : s.Step t) (hs : s.Sound) : t.Sound := by
  have hchange := h.change
  cases h with
  | submit scope operation mutation now =>
    refine ⟨hs.db, fun c hc => ?_, ?_, fun c hc operation hop => ?_⟩
    · rcases List.mem_append.mp hc with hc | hc
      · exact hs.truthful c hc
      · rw [List.mem_singleton.mp hc]
        trivial
    · have hnone : [SubmitCall.admission scope operation mutation now].filterMap SubmitCall.granted
          = [] := rfl
      rw [List.filterMap_append, hnone, List.append_nil]
      exact hs.grants_nodup
    · rcases List.mem_append.mp hc with hc | hc
      · exact hs.grant_submitted c hc operation hop
      · rw [List.mem_singleton.mp hc] at hop
        cases hop
  | call hcalls h => exact hs.call hcalls h
  | beginRuntime _ => exact hs.tables hchange
  | advance _ => exact hs.tables hchange

theorem Run.sound (h : s.Run t) (hs : s.Sound) : t.Sound := by
  induction h with
  | refl => exact hs
  | tail _ hstep ih => exact hstep.sound ih

theorem Run.extended (h : s.Run t) : s.db.Extends t.db := by
  induction h with
  | refl => exact .refl _
  | tail _ hstep ih => exact ih.trans hstep.change.extended

variable {operation : DurableRequestId} {s₀ : HubSystem C}

/-- A call is made and its submission stored. -/
theorem Run.admitted (h : s₀.Run s) {captured : Except SafeErrorCode Nat}
    (hadmission : s.db.prepareOn scope operation mutation now captured = .ok (.fresh, db')) :
    s₀.Run ⟨db', s.calls ++ [.fresh scope operation mutation now]⟩ :=
  (h.tail (.submit scope operation mutation now)).tail
    (.call rfl (.admission (.committed hadmission)))

/-- The last call executes its mutation. -/
theorem Run.execute {calls : List (SubmitCall C)}
    {plan : Except SafeErrorCode (List DurableRequestId)}
    (h : s₀.Run ⟨db, calls ++ [.fresh scope operation mutation now]⟩)
    (hexecute : db.execute scope.actor operation mutation now plan = .ok (root, db')) :
    s₀.Run ⟨db', calls ++ [.finished true operation (.ok root)]⟩ :=
  h.tail (.call rfl (.execute (.committed hexecute)))

/-- While a submission's session is current, it has been so since the admission. -/
theorem Run.current (h : s.Run t) (hs : s.Sound) {row : HubSubmission}
    (hrow : row ∈ s.db.submissions) (hcurrent : t.db.CurrentFor row) : s.db.CurrentFor row := by
  rcases hs.db.placed row hrow with hs' | hpast
  · exact hs'
  · have hover : t.db.PastFor row := by
      clear hcurrent
      induction h with
      | refl => exact hpast
      | tail hrun hstep ih =>
        exact hstep.change.past ((Run.extended hrun).submissions.subset hrow) ih
    exact absurd hcurrent hover.not_current

/-- A step that records an effect is the transaction of the call that holds the grant. -/
theorem Step.fresh_of_records (h : s.Step t) (hs : s.Sound) (hroot : root ∈ t.db.roots)
    (hnew : root ∉ s.db.roots) :
    ∃ scope mutation now, .fresh scope root.operation mutation now ∈ s.calls ∧
      s.db.Records root t.db := by
  cases h with
  | submit => exact absurd hroot hnew
  | @call pre post c c' db' hcalls h =>
    have hc : c ∈ s.calls := by rw [hcalls]; simp
    obtain ⟨scope, mutation, now, rfl, hrecords⟩ :=
      h.fresh_of_records (hs.truthful c hc) hroot hnew
    exact ⟨scope, mutation, now, hc, hrecords⟩
  | beginRuntime h =>
    rcases h.changed with heq | ⟨runtime, hbody⟩
    · exact absurd (heq ▸ hroot) hnew
    · obtain ⟨new, -, rfl⟩ := HubDatabase.beginHubRuntime_eq_ok hbody
      exact absurd hroot hnew
  | advance h =>
    rcases h.changed with heq | ⟨generation, hbody⟩
    · exact absurd (heq ▸ hroot) hnew
    · obtain ⟨new, -, rfl⟩ := HubDatabase.advanceHubSession_eq_ok hbody
      exact absurd hroot hnew

omit [HubCommand C] in
/-- The submission of an effect that is being recorded: it was admitted under the scope of the
call that holds the grant, and its session is current. -/
theorem Sound.submission_of_records (hs : s.Sound)
    (hcall : .fresh scope root.operation mutation now ∈ s.calls)
    (hrecords : s.db.Records root db') :
    ∃ row ∈ s.db.submissions, HubDatabase.IsEffectOf root row ∧ row.runtime = scope.runtime ∧
      row.generation = scope.generation ∧ row.actor = scope.actor ∧ s.db.CurrentFor row := by
  obtain ⟨row, hrow, heffect, hcurrent, -⟩ := hrecords.effect.resolve_left hs.db.session
  obtain ⟨row', hrow', hop, hscope⟩ := hs.truthful _ hcall
  obtain rfl : row' = row :=
    List.inj_on_of_nodup_map hs.db.submissions_nodup hrow' hrow (hop.trans heffect.1)
  exact ⟨row', hrow', heffect, hscope.1, hscope.2.1, hscope.2.2, hcurrent⟩

end HubSystem

/-- **A submitted mutation takes effect at most once, and only under the session that admitted
it.**  In every state that any interleaving of calls, crashes, unconfirmed commits and session
changes leads to:

* no operation has two effects, or an effect and a rejection, and every effect is that of its
  submission;
* a call that returned an effect left it in the tables, the operation of a call that held the
  grant and returned a definite error never takes effect, and no two calls hold one grant;
* rows never disappear;
* the next step records an effect only through the call that holds the grant, under the scope of
  its admission, which has been the session ever since, and a planned effect only when nothing
  else is unresolved. -/
theorem submitted_effects_happen_once {s₀ s : HubSystem C} (hstart : s₀.Started)
    (hrun : s₀.Run s) :
    (s.db.roots.map (·.operation)).Nodup ∧
    (∀ root ∈ s.db.roots, ¬ s.db.Rejected root.operation ∧
      ∃ row ∈ s.db.submissions, HubDatabase.IsEffectOf root row) ∧
    (∀ granted operation root, .finished granted operation (.ok root) ∈ s.calls →
      root ∈ s.db.roots ∧ root.operation = operation) ∧
    (∀ operation e, .finished true operation (.error e) ∈ s.calls → e ≠ .hubOutcomeUnknown →
      ∀ t, s.Run t → ¬ t.db.Recorded operation) ∧
    (s.calls.filterMap SubmitCall.granted).Nodup ∧
    (∀ t, s.Run t → s.db.Extends t.db) ∧
    ∀ t, s.Step t → ∀ root ∈ t.db.roots, root ∉ s.db.roots →
      ∃ scope mutation now, .fresh scope root.operation mutation now ∈ s.calls ∧
      ∃ row ∈ s.db.submissions, HubDatabase.IsEffectOf root row ∧ row.runtime = scope.runtime ∧
        row.generation = scope.generation ∧ row.actor = scope.actor ∧
        (∀ u, s₀.Run u → u.Run s → row ∈ u.db.submissions → u.db.CurrentFor row) ∧
        (root.kind.plannedStock = true → s.db.reports = [] ∧ s.db.observations = [] ∧
          ∀ other ∈ s.db.submissions, other.operation ≠ root.operation → s.db.Resolved other) := by
  have hsound := hrun.sound hstart.sound
  refine ⟨hsound.db.roots_nodup, fun root hroot => ⟨hsound.db.root_not_rejected root hroot,
    hsound.db.root_submitted root hroot⟩, fun granted operation root hcall => ?_,
    fun operation e hcall hne t ht => ?_, hsound.grants_nodup, fun t h => h.extended,
    fun t hstep root hroot hnew => ?_⟩
  · exact hsound.truthful _ hcall
  · have hrejected := ht.extended.rejected ((hsound.truthful _ hcall).resolve_left hne)
    rintro ⟨root, hroot, rfl⟩
    exact (ht.sound hsound).db.root_not_rejected root hroot hrejected
  · obtain ⟨scope, mutation, now, hcall, hrecords⟩ := hstep.fresh_of_records hsound hroot hnew
    obtain ⟨row, hrow, heffect, hruntime, hgeneration, hactor, hcurrent⟩ :=
      hsound.submission_of_records hcall hrecords
    refine ⟨scope, mutation, now, hcall, row, hrow, heffect, hruntime, hgeneration, hactor,
      fun u hu hus hrow_u => hus.current (hu.sound hstart.sound) hrow_u hcurrent, fun hplanned =>
        ?_⟩
    obtain ⟨hreports, hresolved⟩ := hrecords.uncertain hplanned
    refine ⟨hreports, hrecords.observed ?_, hresolved⟩
    simp [HubSubmissionKind.observedStock, hplanned]

end

/-! ### A farm that corrects a departure and receives a crate

The hub is created by a transaction whose commit is not confirmed; the caller asks again and is
given the original.  Then an actual departure is reported, and an additional correction closes the
report, so that a receipt may be recorded.
-/

/-- The commands of the farm, which differ in nothing but their kind. -/
inductive FarmCommand where
  | report
  | correct
  | receive
  deriving DecidableEq

/-- The first number is the digest of the archived creation; the others stand for the digests
of the archived commands. -/
instance : HubCommand FarmCommand where
  kind
    | .report => .actualReport
    | .correct => .correctionAdditional
    | .receive => .receipt
  validate _ := .ok ()
  archive
    | .initializeHub _ =>
      .ok 0x3161a02a1f8950fbe491a017cd01f282d041d6fd9346c535d2394bf3e976bf69
    | .command c => .ok (.ofNat 256 c.ctorIdx)
  fingerprint c _ _ _ := .ok (.ofNat 256 c.ctorIdx)
  kind_ne_initializeHub c := by cases c <;> simp

def farmRuntime : HubRuntimeIncarnation := { value := 90 }

def farmOwner : PublicKey := .of 77

def farmTime : UnixTimestamp := .of 1000

def farmHub : HubOwnership := ⟨.of 7, farmOwner, .initial⟩

def farmScope : HubSubmissionScope := ⟨farmRuntime, .of 1, farmOwner⟩

/-- The database after the farm's owner was admitted with a mutation. -/
def farmAdmit (db : HubDatabase) (operation : DurableRequestId)
    (mutation : HubMutation FarmCommand) : HubDatabase :=
  match db.prepareOn farmScope operation mutation farmTime (.ok 0) with
  | .ok (_, db) => db
  | .error _ => db

def farmRoot (operation : DurableRequestId) (mutation : HubMutation FarmCommand) : EffectRoot where
  operation
  hub := farmHub.id
  actor := farmOwner
  kind := mutation.kind
  hash := match mutation with
    | .initializeHub _ => none
    | .command c => some (.ofNat 256 c.ctorIdx)
  recordedAt := farmTime

/-- The database after the mutation was executed. -/
def farmExecute (db : HubDatabase) (operation : DurableRequestId)
    (mutation : HubMutation FarmCommand) (closes : List DurableRequestId) : HubDatabase :=
  match db.execute farmOwner operation mutation farmTime (.ok closes) with
  | .ok (_, db) => db
  | .error _ => db

def farmStarted : HubSystem FarmCommand :=
  ⟨⟨some ⟨farmRuntime, .of 0, none, farmTime⟩, none, [], [], [], [], []⟩, []⟩

def farmSignedIn : HubDatabase :=
  { farmStarted.db with session := some ⟨farmRuntime, .of 1, some farmOwner, farmTime⟩ }

def farmCreation : HubMutation FarmCommand := .initializeHub farmHub

def farmReport : HubMutation FarmCommand := .command .report

def farmCorrection : HubMutation FarmCommand := .command .correct

def farmReceipt : HubMutation FarmCommand := .command .receive

/-- The hub exists, whether or not the owner was told. -/
def farmCreated : HubDatabase :=
  farmExecute (farmAdmit farmSignedIn (.of 23) farmCreation) (.of 23) farmCreation []

def farmReported : HubDatabase :=
  farmExecute (farmAdmit farmCreated (.of 24) farmReport) (.of 24) farmReport []

def farmCorrected : HubDatabase :=
  farmExecute (farmAdmit farmReported (.of 25) farmCorrection) (.of 25) farmCorrection
    [.of 24]

/-- The crate is admitted but not yet received. -/
def farmWaiting : HubSystem FarmCommand where
  db := farmAdmit farmCorrected (.of 26) farmReceipt
  calls := [
    .finished true (.of 23) (.error .hubOutcomeUnknown),
    .finished false (.of 23) (.ok (farmRoot (.of 23) farmCreation)),
    .finished true (.of 24) (.ok (farmRoot (.of 24) farmReport)),
    .finished true (.of 25) (.ok (farmRoot (.of 25) farmCorrection)),
    .fresh farmScope (.of 26) farmReceipt farmTime]

def farmReceived : HubSystem FarmCommand where
  db := farmExecute farmWaiting.db (.of 26) farmReceipt []
  calls := farmWaiting.calls.dropLast ++
    [.finished true (.of 26) (.ok (farmRoot (.of 26) farmReceipt))]

/-- The owner signs in and creates the hub; the commit is not confirmed, and asking again returns
what was created. -/
theorem farmCreated_reached : farmStarted.Run ⟨farmCreated, farmWaiting.calls.take 2⟩ := by
  have hadvance : farmStarted.db.advanceHubSession farmRuntime (.of 0) (some farmOwner) farmTime =
      .ok (.of 1, farmSignedIn) := by decide
  have hadmission : farmSignedIn.prepareOn farmScope (.of 23) farmCreation farmTime (.ok 0) =
      .ok (.fresh, farmAdmit farmSignedIn (.of 23) farmCreation) := by decide
  have hexecute : (farmAdmit farmSignedIn (.of 23) farmCreation).execute farmOwner (.of 23)
      farmCreation farmTime (.ok []) = .ok (farmRoot (.of 23) farmCreation, farmCreated) := by
    decide
  have hagain : farmCreated.prepareOn farmScope (.of 23) farmCreation farmTime (.ok 0) =
      .ok (.recorded, farmCreated) := by decide
  have hreplay : farmCreated.execute farmOwner (.of 23) farmCreation farmTime (.ok []) =
      .ok (farmRoot (.of 23) farmCreation, farmCreated) := by decide
  have hsignedIn : farmStarted.Run ⟨farmSignedIn, []⟩ := .single (.advance (.committed hadvance))
  have hcreated : farmStarted.Run ⟨farmCreated, farmWaiting.calls.take 1⟩ :=
    (hsignedIn.admitted hadmission).tail
      (.call (show _ = [] ++ _ :: [] from rfl) (.execute (.landed hexecute)))
  have hasked := hcreated.tail (.submit farmScope (.of 23) farmCreation farmTime)
  have hknown := hasked.tail (.call rfl (.admission (.committed hagain)))
  exact hknown.tail (.call (show _ = farmWaiting.calls.take 1 ++ _ :: [] from rfl)
    (.replay (.committed hreplay)))

theorem farmWaiting_reached : farmStarted.Run farmWaiting := by
  have hreport : farmCreated.prepareOn farmScope (.of 24) farmReport farmTime (.ok 0) =
      .ok (.fresh, farmAdmit farmCreated (.of 24) farmReport) := by decide
  have hreported : (farmAdmit farmCreated (.of 24) farmReport).execute farmOwner (.of 24)
      farmReport farmTime (.ok []) =
      .ok (farmRoot (.of 24) farmReport, farmReported) := by decide
  have hcorrect : farmReported.prepareOn farmScope (.of 25) farmCorrection farmTime (.ok 0) =
      .ok (.fresh, farmAdmit farmReported (.of 25) farmCorrection) := by decide
  have hcorrected : (farmAdmit farmReported (.of 25) farmCorrection).execute farmOwner
      (.of 25) farmCorrection farmTime (.ok [.of 24]) =
      .ok (farmRoot (.of 25) farmCorrection, farmCorrected) := by decide
  have hreceive : farmCorrected.prepareOn farmScope (.of 26) farmReceipt farmTime (.ok 0) =
      .ok (.fresh, farmWaiting.db) := by decide
  exact (((farmCreated_reached.admitted hreport).execute hreported).admitted hcorrect |>.execute
    hcorrected).admitted hreceive

/-- While the report is open no receipt is admitted; after the correction it is recorded, under
the admission and the session of the call that holds the grant. -/
theorem submitted_effects_happen_once_farm :
    farmReported.reports = [.of 24] ∧
    (farmReported.prepareOn farmScope (.of 26) farmReceipt farmTime (.ok 0)
      matches .error .hubConflict) ∧
    ∃ root ∈ farmReceived.db.roots, root ∉ farmWaiting.db.roots ∧
      root.kind.plannedStock = true ∧ farmWaiting.db.reports = [] ∧
      ∃ scope mutation now, .fresh scope root.operation mutation now ∈ farmWaiting.calls ∧
      ∃ row ∈ farmWaiting.db.submissions, HubDatabase.IsEffectOf root row ∧
        row.generation = scope.generation ∧
        ∀ u, farmStarted.Run u → u.Run farmWaiting → row ∈ u.db.submissions →
          u.db.CurrentFor row := by
  have hstart : farmStarted.Started := ⟨⟨_, _, rfl⟩, rfl, rfl, rfl⟩
  have hexecute : farmWaiting.db.execute farmOwner (.of 26) farmReceipt farmTime
      (.ok []) = .ok (farmRoot (.of 26) farmReceipt, farmReceived.db) := by decide
  have hreceived : farmWaiting.Step farmReceived :=
    .call (show _ = farmWaiting.calls.dropLast ++ _ :: [] from rfl)
      (.execute (.committed hexecute))
  have hnew : farmRoot (.of 26) farmReceipt ∉ farmWaiting.db.roots := by decide
  have hroot : farmRoot (.of 26) farmReceipt ∈ farmReceived.db.roots := by decide
  obtain ⟨-, -, -, -, -, -, hnext⟩ := submitted_effects_happen_once hstart farmWaiting_reached
  obtain ⟨scope, mutation, now, hcall, row, hrow, heffect, -, hgeneration, -, hcurrent, hplanned⟩ :=
    hnext farmReceived hreceived _ hroot hnew
  exact ⟨by decide, by decide, _, hroot, hnew, rfl, (hplanned rfl).1, scope, mutation, now, hcall,
    row, hrow, heffect, hgeneration, hcurrent⟩

end HarvestCircle
