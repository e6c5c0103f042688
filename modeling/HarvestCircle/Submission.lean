import HarvestCircle.Reference
import HarvestCircle.Transaction

/-! # Submitted mutations

A hub mutation is submitted in two transactions.  The first admits it: under the
current session and for an operation that is not known yet it stores a submission
row, and only the call that stored the row may go on.  The second one runs the
mutation's handler, which records the effect's root.  When the handler failed for
certain, a third transaction stores a rejection.

Triggers of the schema guard every insertion.  They are written here as conditions
on the database before the insertion (`admissionGuard`, `effectGuard`,
`uncertainStockGuard`, `observedStockGuard`, `rejectionGuard`, `sessionGuard`).

Commands are opaque: `HubCommand` has the functions of a command that admission
calls.  What a handler does besides inserting its root, and what the capture of
its context finds, is left to the caller of the model.
-/
namespace HarvestCircle
open Checked

inductive HubSubmissionKind where
  | initializeHub
  | reference
  | receipt
  | opening
  | move
  | split
  | acceptance
  | holdPlace
  | holdRelease
  | workNew
  | workReplan
  | discrepancyOpen
  | discrepancyResolve
  | dispatchPrepare
  | dispatchRevise
  | dispatchIssue
  | dispatchReplace
  | dispatchUnused
  | departure
  | countObserve
  | countPost
  | returned
  | disposition
  | actualReport
  | actualReview
  | correctionObserve
  | correctionFound
  | correctionAdditional
  | correctionSource
  | correctionRecipient
  | correctionCountExplain
  | correctionCountClassify
  | correctionDocument
  deriving DecidableEq, Repr

namespace HubSubmissionKind

/-- The kinds a saved submission may have when it is read back. -/
def known : HubSubmissionKind → Bool
  | .correctionCountExplain | .correctionCountClassify | .correctionDocument => false
  | _ => true

/-- Kinds that wait for every unresolved operation and actual report. -/
def unsafePlanned : HubSubmissionKind → Bool
  | .initializeHub | .receipt | .opening | .move | .split | .workNew | .workReplan
  | .dispatchPrepare | .dispatchRevise | .dispatchIssue | .dispatchReplace | .departure
  | .countPost | .returned | .disposition => true
  | _ => false

/-- The kinds named by the schema's guard against uncertain stock effects. -/
def plannedStock : HubSubmissionKind → Bool
  | .receipt | .opening | .move | .split | .workNew | .workReplan | .dispatchPrepare
  | .dispatchRevise | .dispatchIssue | .dispatchReplace | .departure | .countPost | .returned
  | .disposition => true
  | _ => false

/-- The kinds named by the schema's guard against retained observations. -/
def observedStock (kind : HubSubmissionKind) : Bool :=
  kind.plannedStock || kind = .correctionDocument

/-- Kinds outside the ordinary admission allocation. -/
def extraordinary : HubSubmissionKind → Bool
  | .holdRelease | .dispatchUnused | .actualReport | .actualReview | .correctionObserve
  | .correctionFound | .correctionAdditional | .correctionCountExplain
  | .correctionCountClassify => true
  | _ => false

/-- The table that holds the roots of a kind. -/
inductive Table where
  | history
  | references
  | stockOperations
  deriving DecidableEq, Repr

def table : HubSubmissionKind → Table
  | .initializeHub => .history
  | .reference => .references
  | _ => .stockOperations

end HubSubmissionKind

abbrev Digest := BitVec 256

/-- Sixteen random bytes that name one start of the runtime. -/
@[ext] structure HubRuntimeIncarnation where
  value : Nat
  nonzero : 0 < value := by decide
  bound : value < 2 ^ 128 := by decide
  deriving Repr

instance : DecidableEq HubRuntimeIncarnation := fun a b =>
  decidable_of_iff (a.value = b.value) HubRuntimeIncarnation.ext_iff.symm

@[ext] structure SessionGeneration where
  value : Nat
  bound : value < 2 ^ 64 := by decide
  deriving Repr

instance : DecidableEq SessionGeneration := fun a b =>
  decidable_of_iff (a.value = b.value) SessionGeneration.ext_iff.symm

theorem SessionGeneration.bound_of_check {value : Nat} (h : decide (value < 2 ^ 64) = true) :
    value < 2 ^ 64 := of_decide_eq_true h

/-- The generation of a numeral. -/
abbrev SessionGeneration.of (value : Nat)
    (h : decide (value < 2 ^ 64) = true := by exact Eq.refl true) : SessionGeneration :=
  ⟨value, bound_of_check h⟩

def SessionGeneration.next (generation : SessionGeneration) : Option SessionGeneration :=
  if h : generation.value + 1 < 2 ^ 64 then some ⟨generation.value + 1, h⟩ else none

/-- The hub and its one owner. -/
structure HubOwnership where
  id : HubId
  owner : PublicKey
  revision : HubRevision
  deriving DecidableEq, Repr

def HubOwnership.authorize (hub : HubOwnership) (actor : PublicKey) : Except SafeErrorCode Unit :=
  refuse (actor ≠ hub.owner) .hubPermissionDenied

/-- Whose session a request belongs to. -/
structure HubSubmissionScope where
  runtime : HubRuntimeIncarnation
  generation : SessionGeneration
  actor : PublicKey
  deriving DecidableEq, Repr

/-- The mutation of a hub: its creation, or any other command. -/
inductive HubMutation (C : Type) where
  | initializeHub (candidate : HubOwnership)
  | command (command : C)

/-- What admission asks of a command. -/
class HubCommand (C : Type) where
  kind : C → HubSubmissionKind
  validate : C → Except SafeErrorCode Unit
  archive : HubMutation C → Except SafeErrorCode Digest
  fingerprint : C → HubId → PublicKey → DurableRequestId → Except SafeErrorCode Digest
  kind_ne_initializeHub : ∀ c, kind c ≠ .initializeHub

namespace HubMutation
variable {C : Type} [HubCommand C]

def kind : HubMutation C → HubSubmissionKind
  | .initializeHub _ => .initializeHub
  | .command c => HubCommand.kind c

/-- The hash of the intent, which an initialization has none of. -/
def intent (mutation : HubMutation C) (hub : HubId) (actor : PublicKey)
    (operation : DurableRequestId) : Except SafeErrorCode (Option Digest) :=
  match mutation with
  | .initializeHub _ => .ok none
  | .command c => do
    let hash ← HubCommand.fingerprint c hub actor operation
    return some hash

end HubMutation

/-! ## The database -/

/-- The session that may submit now. -/
structure HubRuntimeSession where
  runtime : HubRuntimeIncarnation
  generation : SessionGeneration
  actor : Option PublicKey
  updatedAt : UnixTimestamp
  deriving DecidableEq, Repr

/-- A request that was let in and is kept. -/
structure HubSubmission where
  operation : DurableRequestId
  hub : HubId
  actor : PublicKey
  kind : HubSubmissionKind
  runtime : HubRuntimeIncarnation
  generation : SessionGeneration
  inputHash : Digest
  domainHash : Option Digest
  submittedAt : UnixTimestamp
  deriving DecidableEq, Repr

/-- A refusal that is kept. -/
structure HubRejection where
  operation : DurableRequestId
  code : SafeErrorCode
  recordedAt : UnixTimestamp
  deriving DecidableEq, Repr

/-- The row that stands for a recorded effect. -/
structure EffectRoot where
  operation : DurableRequestId
  hub : HubId
  actor : PublicKey
  kind : HubSubmissionKind
  hash : Option Digest
  recordedAt : UnixTimestamp
  deriving DecidableEq, Repr

/-- The tables that submission reads and writes.  Reports and observations are the open ones,
by the operation that recorded them. -/
structure HubDatabase where
  session : Option HubRuntimeSession
  context : Option (HubOwnership × DurableRequestId)
  submissions : List HubSubmission
  rejections : List HubRejection
  roots : List EffectRoot
  reports : List DurableRequestId
  observations : List DurableRequestId
  deriving DecidableEq, Repr

/-- What a caller can learn of a request. -/
inductive HubSubmissionStatus where
  | pending
  | recorded
  | rejected (code : SafeErrorCode)
  deriving DecidableEq, Repr

/-- What an admission found: a new submission that its caller may execute, or an effect that is
already recorded. -/
inductive Decision where
  | fresh
  | recorded
  deriving DecidableEq, Repr

namespace HubDatabase

def Rejected (db : HubDatabase) (operation : DurableRequestId) : Prop :=
  ∃ r ∈ db.rejections, r.operation = operation

instance (db : HubDatabase) (operation : DurableRequestId) : Decidable (db.Rejected operation) :=
  inferInstanceAs (Decidable (∃ r ∈ db.rejections, r.operation = operation))

def Recorded (db : HubDatabase) (operation : DurableRequestId) : Prop :=
  ∃ r ∈ db.roots, r.operation = operation

instance (db : HubDatabase) (operation : DurableRequestId) : Decidable (db.Recorded operation) :=
  inferInstanceAs (Decidable (∃ r ∈ db.roots, r.operation = operation))

/-- The root is the recorded effect of the submission. -/
def IsEffectOf (root : EffectRoot) (submission : HubSubmission) : Prop :=
  root.operation = submission.operation ∧ root.hub = submission.hub ∧
    root.actor = submission.actor ∧ root.kind = submission.kind ∧
    root.hash = submission.domainHash ∧ submission.submittedAt ≤ root.recordedAt

instance (root : EffectRoot) (submission : HubSubmission) :
    Decidable (IsEffectOf root submission) := inferInstanceAs (Decidable (_ ∧ _))

/-- A submission whose outcome is known. -/
def Resolved (db : HubDatabase) (submission : HubSubmission) : Prop :=
  db.Rejected submission.operation ∨ ∃ root ∈ db.roots, IsEffectOf root submission

instance (db : HubDatabase) (submission : HubSubmission) : Decidable (db.Resolved submission) :=
  inferInstanceAs (Decidable (_ ∨ ∃ root ∈ db.roots, IsEffectOf root submission))

/-- The session row is the one the submission was admitted under. -/
def CurrentFor (db : HubDatabase) (submission : HubSubmission) : Prop :=
  ∃ session ∈ db.session, session.runtime = submission.runtime ∧
    session.generation = submission.generation ∧ session.actor = some submission.actor

instance (db : HubDatabase) (submission : HubSubmission) : Decidable (db.CurrentFor submission) :=
  inferInstanceAs (Decidable (∃ session ∈ db.session, session.runtime = submission.runtime ∧
    session.generation = submission.generation ∧ session.actor = some submission.actor))

/-! ### Guards of the schema -/

/-- Submissions need the current session, the owner of the hub and a new operation. -/
def admissionGuard (db : HubDatabase) (new : HubSubmission) : Prop :=
  ((new.kind = .initializeHub ∧ db.context = none) ∨
    ∃ hub ∈ db.context, hub.1.id = new.hub ∧ hub.1.owner = new.actor) ∧
  db.CurrentFor new ∧ ¬ db.Recorded new.operation

instance (db : HubDatabase) (new : HubSubmission) : Decidable (db.admissionGuard new) :=
  inferInstanceAs (Decidable ((_ ∨ ∃ hub ∈ db.context, hub.1.id = new.hub ∧
    hub.1.owner = new.actor) ∧ _))

/-- Effects need their own admission, under the session that is still current. -/
def effectGuard (db : HubDatabase) (new : EffectRoot) : Prop :=
  db.session = none ∨ ∃ s ∈ db.submissions, IsEffectOf new s ∧ db.CurrentFor s ∧
    ¬ db.Rejected s.operation

instance (db : HubDatabase) (new : EffectRoot) : Decidable (db.effectGuard new) :=
  inferInstanceAs (Decidable (_ ∨ ∃ s ∈ db.submissions, IsEffectOf new s ∧ db.CurrentFor s ∧
    ¬ db.Rejected s.operation))

/-- Planned stock effects wait for reports and for other submissions. -/
def uncertainStockGuard (db : HubDatabase) (new : EffectRoot) : Prop :=
  new.kind.plannedStock = true → db.reports = [] ∧
    ∀ s ∈ db.submissions, s.operation ≠ new.operation → db.Resolved s

instance (db : HubDatabase) (new : EffectRoot) : Decidable (db.uncertainStockGuard new) :=
  inferInstanceAs (Decidable (_ → _ ∧ ∀ s ∈ db.submissions, s.operation ≠ new.operation →
    db.Resolved s))

/-- Planned stock effects wait for retained observations. -/
def observedStockGuard (db : HubDatabase) (new : EffectRoot) : Prop :=
  new.kind.observedStock = true → db.observations = []

instance (db : HubDatabase) (new : EffectRoot) : Decidable (db.observedStockGuard new) :=
  inferInstanceAs (Decidable (_ → _))

/-- A rejection never replaces an effect, and is not older than its submission. -/
def rejectionGuard (db : HubDatabase) (new : HubRejection) : Prop :=
  (∃ s ∈ db.submissions, s.operation = new.operation ∧ s.submittedAt ≤ new.recordedAt) ∧
    ¬ db.Recorded new.operation

instance (db : HubDatabase) (new : HubRejection) : Decidable (db.rejectionGuard new) :=
  inferInstanceAs (Decidable ((∃ s ∈ db.submissions, s.operation = new.operation ∧
    s.submittedAt ≤ new.recordedAt) ∧ _))

/-- A replaced session moves on: within a runtime its generation grows, and a new runtime
starts signed out with an incarnation that no submission has. -/
def sessionGuard (db : HubDatabase) (new : HubRuntimeSession) : Prop :=
  (∀ old ∈ db.session, old.updatedAt ≤ new.updatedAt ∧
    (new.runtime = old.runtime → old.generation.value < new.generation.value)) ∧
  ((∀ old ∈ db.session, new.runtime ≠ old.runtime) →
    new.generation.value = 0 ∧ new.actor = none ∧
      ∀ s ∈ db.submissions, s.runtime ≠ new.runtime)

instance (db : HubDatabase) (new : HubRuntimeSession) : Decidable (db.sessionGuard new) :=
  inferInstanceAs (Decidable ((∀ old ∈ db.session, old.updatedAt ≤ new.updatedAt ∧
    (new.runtime = old.runtime → old.generation.value < new.generation.value)) ∧
    ((∀ old ∈ db.session, new.runtime ≠ old.runtime) → _ ∧ _ ∧
      ∀ s ∈ db.submissions, s.runtime ≠ new.runtime)))

/-! ### Statements

Each is refused when a guard or a primary key is. -/

def insertSubmission (db : HubDatabase) (new : HubSubmission) :
    Except SafeErrorCode HubDatabase := do
  refuse ((∃ s ∈ db.submissions, s.operation = new.operation) ∨
    ¬ (new.kind = .initializeHub ↔ new.domainHash = none) ∨ ¬ db.admissionGuard new)
    .storageUnavailable
  return { db with submissions := db.submissions ++ [new] }

def insertRejection (db : HubDatabase) (new : HubRejection) : Except SafeErrorCode HubDatabase := do
  refuse (db.Rejected new.operation ∨ ¬ db.rejectionGuard new) .storageUnavailable
  return { db with rejections := db.rejections ++ [new] }

def insertRoot (db : HubDatabase) (new : EffectRoot) : Except SafeErrorCode HubDatabase := do
  refuse ((∃ r ∈ db.roots, r.kind.table = new.kind.table ∧ r.operation = new.operation) ∨
    ¬ db.effectGuard new ∨ ¬ db.uncertainStockGuard new ∨ ¬ db.observedStockGuard new)
    .storageUnavailable
  return { db with roots := db.roots ++ [new] }

def replaceSession (db : HubDatabase) (new : HubRuntimeSession) :
    Except SafeErrorCode HubDatabase := do
  refuse (¬ db.sessionGuard new) .storageUnavailable
  return { db with session := some new }

/-! ## Sessions -/

/-- Start a runtime, signed out. -/
def beginHubRuntime (db : HubDatabase) (runtime : HubRuntimeIncarnation) (now : UnixTimestamp) :
    Except SafeErrorCode (HubRuntimeIncarnation × HubDatabase) := do
  let updatedAt := match db.session with
    | some old => max old.updatedAt now
    | none => now
  let db ← db.replaceSession { runtime, generation := .of 0, actor := none, updatedAt }
  return (runtime, db)

/-- Move the session on, if it still is the one the caller knows. -/
def advanceHubSession (db : HubDatabase) (runtime : HubRuntimeIncarnation)
    (prior : SessionGeneration) (actor : Option PublicKey) (now : UnixTimestamp) :
    Except SafeErrorCode (SessionGeneration × HubDatabase) := do
  let next ← okOr prior.next .hubCapacity
  match db.session with
  | some old => do
    refuse (¬ (old.runtime = runtime ∧ old.generation = prior)) .hubConflict
    let db ← db.replaceSession
      { runtime, generation := next, actor, updatedAt := max old.updatedAt now }
    return (next, db)
  | none => throw .hubConflict

/-- The scope is that of the current session. -/
def requireOn (db : HubDatabase) (scope : HubSubmissionScope) : Except SafeErrorCode Unit := do
  let current ← okOr db.session .hubPermissionDenied
  refuse (current.runtime ≠ scope.runtime ∨ current.generation ≠ scope.generation ∨
    current.actor ≠ some scope.actor) .hubPermissionDenied

/-! ## Reading originals -/

/-- The one root of an operation. -/
def originalOn (db : HubDatabase) (operation : DurableRequestId) :
    Except SafeErrorCode (Option EffectRoot) :=
  match db.roots.filter (fun r => r.operation = operation) with
  | [] => .ok none
  | [root] => .ok (some root)
  | _ => .error .hubConflict

/-- A saved submission with its status, which its root or its rejection tells. -/
def recordOn (db : HubDatabase) (operation : DurableRequestId) :
    Except SafeErrorCode (Option (HubSubmission × HubSubmissionStatus)) :=
  match db.submissions.find? (fun s => s.operation = operation) with
  | none => .ok none
  | some submission => do
    refuse (submission.kind.known = false) .storageCorrupt
    refuse (¬ (submission.domainHash = none ↔ submission.kind = .initializeHub)) .storageCorrupt
    let rejected := db.rejections.find? fun r => r.operation = operation
    let original ← db.originalOn operation
    match original, rejected with
    | some _, some _ => throw .storageCorrupt
    | some root, none => do
      refuse (¬ IsEffectOf root submission) .storageCorrupt
      return some (submission, .recorded)
    | none, some rejection => do
      refuse (rejection.recordedAt < submission.submittedAt) .storageCorrupt
      return some (submission, .rejected rejection.code)
    | none, none => return some (submission, .pending)

/-- Another submission is unresolved, or a report or an observation is open. -/
def hasUnresolvedOn (db : HubDatabase) (except : DurableRequestId) : Prop :=
  (∃ s ∈ db.submissions, s.operation ≠ except ∧ ¬ db.Resolved s) ∨ db.reports ≠ [] ∨
    db.observations ≠ []

instance (db : HubDatabase) (except : DurableRequestId) : Decidable (db.hasUnresolvedOn except) :=
  inferInstanceAs (Decidable ((∃ s ∈ db.submissions, s.operation ≠ except ∧ ¬ db.Resolved s) ∨ _))

/-! ## Admission -/

def ordinaryAdmissionCapacity : Nat := 65536
def hubActualReportCapacity : Nat := 4096
def hubCorrectionObservationCapacity : Nat := 4096
def closureCaptureBytes : Nat := 1024 * 1024

def countOf (db : HubDatabase) (counts : HubSubmissionKind → Bool) : Nat :=
  db.submissions.countP fun s => counts s.kind

/-- Room for one more submission whose captured context takes `bytes`. -/
def capacityOn (db : HubDatabase) (kind : HubSubmissionKind) (bytes : Nat) :
    Except SafeErrorCode Unit :=
  match kind with
  | .correctionObserve => refuse
    (db.countOf (fun k => k = .correctionObserve) > hubCorrectionObservationCapacity) .hubCapacity
  | .actualReport => refuse
    (db.countOf (fun k => k = .actualReport) ≥ hubActualReportCapacity + 1) .hubCapacity
  | .actualReview | .correctionFound | .correctionAdditional | .correctionCountExplain
  | .correctionCountClassify => .ok ()
  | .holdRelease | .dispatchUnused => refuse (bytes > closureCaptureBytes) .hubCapacity
  | _ => refuse (db.countOf (fun k => !k.extraordinary) ≥ ordinaryAdmissionCapacity) .hubCapacity

/-- What the error of a rejected original is reported as. -/
def knownRejection : SafeErrorCode → SafeErrorCode
  | .hubConflict => .hubConflict
  | .hubInvalidInput => .hubInvalidInput
  | .hubCapacity => .hubCapacity
  | .hubPermissionDenied => .hubPermissionDenied
  | .storageCorrupt => .storageCorrupt
  | _ => .hubConflict

section
variable {C : Type} [HubCommand C]

/-- The hub a mutation is for, if the actor may change it. -/
def hubOf (db : HubDatabase) (actor : PublicKey) : HubMutation C → Except SafeErrorCode HubId
  | .initializeHub candidate => do
    candidate.authorize actor
    match db.context with
    | some current => current.1.authorize actor
    | none => pure ()
    return candidate.id
  | .command _ => do
    let current ← okOr db.context .hubPermissionDenied
    current.1.authorize actor
    return current.1.id

/-- The checks of a request before the database is asked. -/
def checkRequest (mutation : HubMutation C) : Except SafeErrorCode Unit := do
  refuse (mutation.kind = .correctionCountExplain ∨ mutation.kind = .correctionCountClassify)
    .hubInvalidInput
  match mutation with
  | .initializeHub _ => return ()
  | .command c =>
    if HubCommand.kind c = .correctionObserve ∨ HubCommand.kind c = .actualReport then
      HubCommand.validate c
    else return ()

/-- The admission transaction.  `captured` is the size of the context that is saved with the
submission, or why it could not be read. -/
def prepareOn (db : HubDatabase) (scope : HubSubmissionScope) (operation : DurableRequestId)
    (mutation : HubMutation C) (now : UnixTimestamp) (captured : Except SafeErrorCode Nat) :
    Except SafeErrorCode (Decision × HubDatabase) := do
  db.requireOn scope
  checkRequest mutation
  let inputHash ← HubCommand.archive mutation
  let hub ← db.hubOf scope.actor mutation
  let domainHash ← mutation.intent hub scope.actor operation
  match ← db.recordOn operation with
  | some (prior, status) => do
    refuse (prior.actor ≠ scope.actor ∨ prior.hub ≠ hub ∨ prior.kind ≠ mutation.kind ∨
      prior.inputHash ≠ inputHash ∨ prior.domainHash ≠ domainHash) .hubConflict
    match status with
    | .pending => throw .hubOutcomeUnknown
    | .rejected code => throw (knownRejection code)
    | .recorded => return (.recorded, db)
  | none =>
    match ← db.originalOn operation with
    | some original => do
      refuse (original.hub ≠ hub ∨ original.actor ≠ scope.actor ∨ original.kind ≠ mutation.kind ∨
        original.hash ≠ domainHash) .hubConflict
      return (.recorded, db)
    | none => do
      refuse (mutation.kind.unsafePlanned = true ∧ db.hasUnresolvedOn operation) .hubConflict
      let bytes ← captured
      db.capacityOn mutation.kind bytes
      let db ← db.insertSubmission {
        operation, hub, actor := scope.actor, kind := mutation.kind, runtime := scope.runtime
        generation := scope.generation, inputHash, domainHash, submittedAt := now }
      return (.fresh, db)

/-! ## Execution -/

/-- The reports and observations that an effect closes, and the one it opens.  Reviews and
corrections of quantities close reports; a found correction closes an observation, and the
classification of a count may close both. -/
def settle (db : HubDatabase) (root : EffectRoot) (closes : List DurableRequestId) :
    HubDatabase :=
  match root.kind with
  | .actualReport => { db with reports := db.reports ++ [root.operation] }
  | .actualReview | .correctionAdditional | .correctionCountExplain =>
    { db with reports := db.reports.filter (· ∉ closes) }
  | .correctionObserve =>
    { db with observations := db.observations.filter (· ∉ closes) ++ [root.operation] }
  | .correctionFound => { db with observations := db.observations.filter (· ∉ closes) }
  | .correctionCountClassify => { db with
      reports := db.reports.filter (· ∉ closes)
      observations := db.observations.filter (· ∉ closes) }
  | _ => db

/-- The actor a root is recorded for: a new hub belongs to its owner. -/
def rootActor (actor : PublicKey) : HubMutation C → PublicKey
  | .initializeHub candidate => candidate.owner
  | .command _ => actor

/-- The hub a root is recorded for. -/
def rootHub (db : HubDatabase) (actor : PublicKey) : HubMutation C → Except SafeErrorCode HubId
  | .initializeHub candidate => .ok candidate.id
  | .command _ => do
    let current ← okOr db.context .hubPermissionDenied
    current.1.authorize actor
    return current.1.id

/-- The hub context an effect leaves. -/
def contextAfter (db : HubDatabase) (operation : DurableRequestId) :
    HubMutation C → Except SafeErrorCode (Option (HubOwnership × DurableRequestId))
  | .initializeHub candidate => do
    refuse (db.context.isSome = true) .invalidApplicationState
    return some (candidate, operation)
  | .command _ => .ok db.context

/-- The handler's transaction.  `plan` is what the command's own planning came to: the reports and
observations it closes, or its refusal. -/
def execute (db : HubDatabase) (actor : PublicKey) (operation : DurableRequestId)
    (mutation : HubMutation C) (now : UnixTimestamp)
    (plan : Except SafeErrorCode (List DurableRequestId)) :
    Except SafeErrorCode (EffectRoot × HubDatabase) := do
  let hub ← db.rootHub actor mutation
  let hash ← mutation.intent hub actor operation
  match ← db.originalOn operation with
  | some root => do
    refuse (root.hub ≠ hub ∨ root.kind ≠ mutation.kind ∨ root.actor ≠ rootActor actor mutation ∨
      root.hash ≠ hash) .hubConflict
    return (root, db)
  | none => do
    let closes ← plan
    let context ← db.contextAfter operation mutation
    let root := {
      operation, hub, actor := rootActor actor mutation, kind := mutation.kind, hash
      recordedAt := now }
    let db ← db.insertRoot root
    return (root, { db.settle root closes with context })

end

/-- The errors that may be stored with a rejection. -/
def rejectable : SafeErrorCode → Bool
  | .hubConflict | .hubInvalidInput | .hubCapacity | .hubPermissionDenied | .storageUnavailable
  | .storageCorrupt | .invalidApplicationState => true
  | _ => false

/-- The rejection's transaction. -/
def rejectOn (db : HubDatabase) (operation : DurableRequestId) (code : SafeErrorCode)
    (now : UnixTimestamp) : Except SafeErrorCode (Unit × HubDatabase) := do
  refuse (rejectable code = false) .hubOutcomeUnknown
  -- the statement selects the submission it rejects, so without one it inserts nothing
  let db ← (match db.submissions.find? (fun s => s.operation = operation) with
    | some s => db.insertRejection { operation, code, recordedAt := max s.submittedAt now }
    | none => pure db)
  let record ← db.recordOn operation
  let record ← okOr record .storageCorrupt
  refuse (record.2 ≠ .rejected code) .storageCorrupt
  return ((), db)

end HubDatabase

end HarvestCircle
