import Mathlib.Order.Compare
import Mathlib.Data.List.Sort
import HarvestCircle.AppCore

/-! # The stores an identity lives in

A local identity is spread over three stores that no transaction spans: the keyring
holds its credential, the database its metadata and the selection, and a journal
table the durable operations that write them.  Each function here is one atomic
call; it fails without an effect or applies its change.

Two things the schema does on its own are part of the calls: removing the selected
identity clears the selection, and a row of the journal is `finalized` exactly when
it has a terminal receipt.
-/
namespace HarvestCircle
open Checked

/-- A canonical secret key, as the number its digits spell. -/
@[ext] structure SecretKeyInput where
  value : Nat
  bound : value < 2 ^ 256 := by decide
  deriving DecidableEq, Repr

/-- What the keyring holds for an account: the request that wrote it and the secret. -/
structure Credential where
  request : DurableRequestId
  secret : SecretKeyInput
  deriving DecidableEq, Repr

/-! ## Durable operations -/

inductive DurableOperationKind where
  | create
  | import
  | repair
  | remove
  deriving DecidableEq, Repr

/-- The last step of an operation that is done. -/
inductive DurableOperationPhase where
  | intentRecorded
  | credentialWritten
  | metadataCommitted
  | selectionCommitted
  | compensationPending
  | credentialDeleted
  | metadataDeleted
  | finalized
  deriving DecidableEq, Repr

/-- How an operation ended. -/
inductive DurableTerminalOutcome where
  | completed
  | cancelled
  | failed
  deriving DecidableEq, Repr

inductive OperationDiagnostic where
  | storageUnavailable
  | keyringUnavailable
  | credentialMissing
  | compensationFailed
  | conflict
  | expired
  deriving DecidableEq, Repr

/-- What an operation that fails goes back to. -/
structure OperationPriorState where
  selectedIdentity : Option PublicKey
  bindingAvailability : Option SignerAvailability
  deriving DecidableEq, Repr

/-- How an operation ended.  Its request and identity are those of its row. -/
structure DurableOperationReceipt where
  outcome : DurableTerminalOutcome
  resultingRevision : Option Nat
  completedAt : UnixTimestamp
  deriving DecidableEq, Repr

/-- A row of the journal. -/
structure DurableIdentityOperation where
  requestId : DurableRequestId
  kind : DurableOperationKind
  identity : PublicKey
  expectedRevision : Option Nat
  phase : DurableOperationPhase
  prior : OperationPriorState
  updatedAt : UnixTimestamp
  diagnostic : Option OperationDiagnostic
  terminal : Option DurableOperationReceipt
  finalized_iff : phase = .finalized ↔ terminal ≠ none
  deriving DecidableEq, Repr

def harvestcircleIdentityCapacity : Nat := 256
def harvestcircleUnfinishedDurableOperationCapacity : Nat := 1024
def harvestcircleDurableOperationCapacity : Nat := 4096
def harvestcircleDurableOperationCleanupBatch : Nat := 256
def harvestcircleTerminalReceiptRetentionSeconds : Nat := 7 * 24 * 60 * 60

/-- The saved identities, each under its own key. -/
structure IdentityTable where
  rows : Std.ExtTreeMap PublicKey NostrIdentity
  keyed : ∀ (key : PublicKey) (identity : NostrIdentity), rows[key]? = some identity →
    identity.publicKey = key

namespace IdentityTable

def empty : IdentityTable := ⟨∅, by simp⟩

def find (table : IdentityTable) (key : PublicKey) : Option NostrIdentity := table.rows[key]?

def save (table : IdentityTable) (identity : NostrIdentity) : IdentityTable where
  rows := table.rows.insert identity.publicKey identity
  keyed key saved h := by
    simp only [Std.ExtTreeMap.getElem?_insert, Std.compare_eq_iff_eq] at h
    split at h
    · rename_i heq
      rw [← Option.some.inj h, heq]
    · exact table.keyed key saved h

def erase (table : IdentityTable) (key : PublicKey) : IdentityTable where
  rows := table.rows.erase key
  keyed other saved h := by
    simp only [Std.ExtTreeMap.getElem?_erase, Std.compare_eq_iff_eq] at h
    split at h
    · cases h
    · exact table.keyed other saved h

@[ext] theorem ext {a b : IdentityTable} (h : ∀ key, a.find key = b.find key) : a = b := by
  obtain ⟨rows, _⟩ := a
  obtain ⟨rows', _⟩ := b
  obtain rfl : rows = rows' := Std.ExtTreeMap.ext_getElem? fun key => h key
  rfl

@[simp] theorem find_save (table : IdentityTable) (identity : NostrIdentity) (key : PublicKey) :
    (table.save identity).find key =
      if identity.publicKey = key then some identity else table.find key := by
  simp [find, save, Std.ExtTreeMap.getElem?_insert]

@[simp] theorem find_erase (table : IdentityTable) (erased key : PublicKey) :
    (table.erase erased).find key = if erased = key then none else table.find key := by
  simp [find, erase, Std.ExtTreeMap.getElem?_erase]

variable {identity : NostrIdentity} {table : IdentityTable}

theorem publicKey_of_find {key : PublicKey} (h : table.find key = some identity) :
    identity.publicKey = key :=
  table.keyed key identity h

/-- Saving what is there changes nothing. -/
theorem save_of_find (h : table.find identity.publicKey = some identity) :
    table.save identity = table := by
  ext key : 1
  rw [find_save]
  split
  · rename_i heq
    rw [← heq, h]
  · rfl

end IdentityTable

abbrev Journal := Std.ExtTreeMap DurableRequestId DurableIdentityOperation

/-- The stores of one installation, and the memory of the process that runs on them. -/
structure Installation where
  secrets : Std.ExtTreeMap PublicKey Credential
  identities : IdentityTable
  selected : Option PublicKey
  journal : Journal
  core : CoreState

namespace Installation

/-! ## The keyring -/

def contains (publicKey : PublicKey) (s : Installation) : Except SafeErrorCode Bool :=
  .ok s.secrets[publicKey]?.isSome

/-- A credential is never overwritten; putting it again under its own request succeeds. -/
def put (request : DurableRequestId) (publicKey : PublicKey) (secret : SecretKeyInput)
    (s : Installation) : Except SafeErrorCode (Unit × Installation) :=
  match s.secrets[publicKey]? with
  | none => .ok ((), { s with secrets := s.secrets.insert publicKey ⟨request, secret⟩ })
  | some existing => do
    refuse (existing ≠ ⟨request, secret⟩) .identityAlreadyExists
    return ((), s)

def verify (request : DurableRequestId) (publicKey : PublicKey) (secret : SecretKeyInput)
    (s : Installation) : Except SafeErrorCode Unit := do
  let existing ← okOr s.secrets[publicKey]? .credentialMissing
  refuse (existing ≠ ⟨request, secret⟩) .invalidApplicationState

/-- The account's credential is deleted, whichever request wrote it. -/
def delete (_request : DurableRequestId) (publicKey : PublicKey) (s : Installation) :
    Except SafeErrorCode (Unit × Installation) := do
  refuse (s.secrets[publicKey]? = none) .credentialMissing
  return ((), { s with secrets := s.secrets.erase publicKey })

/-! ## Metadata and selection -/

def findIdentity (publicKey : PublicKey) (s : Installation) :
    Except SafeErrorCode (Option NostrIdentity) :=
  .ok (s.identities.find publicKey)

/-- The order saved identities are listed in. -/
def Listed (a b : NostrIdentity) : Prop :=
  a.createdAt < b.createdAt ∨ a.createdAt = b.createdAt ∧ a.publicKey ≤ b.publicKey

instance (a b : NostrIdentity) : Decidable (Listed a b) := inferInstanceAs (Decidable (_ ∨ _))

def listIdentities (s : Installation) : Except SafeErrorCode (List NostrIdentity) := do
  refuse (s.identities.rows.size > harvestcircleIdentityCapacity) .storageCorrupt
  return (s.identities.rows.toList.map (·.2)).insertionSort Listed

def insertIdentity (identity : NostrIdentity) (s : Installation) :
    Except SafeErrorCode (Unit × Installation) := do
  refuse (s.identities.find identity.publicKey ≠ none) .identityAlreadyExists
  refuse (s.identities.rows.size ≥ harvestcircleIdentityCapacity) .invalidApplicationState
  return ((), { s with identities := s.identities.save identity })

def updateIdentity (identity : NostrIdentity) (s : Installation) :
    Except SafeErrorCode (Unit × Installation) := do
  refuse (s.identities.find identity.publicKey = none) .identityNotFound
  return ((), { s with identities := s.identities.save identity })

/-- The selection refers to a saved identity, so it is cleared with it. -/
def removeIdentity (publicKey : PublicKey) (s : Installation) :
    Except SafeErrorCode (Unit × Installation) := do
  refuse (s.identities.find publicKey = none) .identityNotFound
  return ((), { s with
    identities := s.identities.erase publicKey
    selected := if s.selected = some publicKey then none else s.selected })

def loadSelectedIdentity (s : Installation) : Except SafeErrorCode (Option PublicKey) :=
  .ok s.selected

/-- Only a saved identity can be selected. -/
def saveSelectedIdentity (publicKey : Option PublicKey) (s : Installation) :
    Except SafeErrorCode (Unit × Installation) := do
  refuse (∃ key ∈ publicKey, s.identities.find key = none) .identityNotFound
  return ((), { s with selected := publicKey })

/-! ## The journal -/

/-- Rows without a receipt, in the order of their requests. -/
def unfinished (journal : Journal) : List DurableIdentityOperation :=
  (journal.toList.map (·.2)).filter fun operation => operation.terminal = none

/-- A receipt that is older than the retention period. -/
def Expired (now : UnixTimestamp) (operation : DurableIdentityOperation) : Prop :=
  ∃ receipt ∈ operation.terminal,
    receipt.completedAt.seconds + harvestcircleTerminalReceiptRetentionSeconds < now.seconds

instance (now : UnixTimestamp) (operation : DurableIdentityOperation) :
    Decidable (Expired now operation) :=
  inferInstanceAs (Decidable (∃ receipt ∈ operation.terminal, _))

/-- The order expired receipts are deleted in. -/
def ExpiresBefore (a b : DurableIdentityOperation) : Prop :=
  (a.terminal.elim 0 (·.completedAt.seconds) < b.terminal.elim 0 (·.completedAt.seconds)) ∨
    a.terminal.elim 0 (·.completedAt.seconds) = b.terminal.elim 0 (·.completedAt.seconds) ∧
      a.requestId ≤ b.requestId

instance (a b : DurableIdentityOperation) : Decidable (ExpiresBefore a b) :=
  inferInstanceAs (Decidable (_ ∨ _))

/-- The oldest expired receipts are deleted, up to one batch. -/
def cleanupExpiredTerminalReceipts (journal : Journal) (now : UnixTimestamp) : Journal :=
  let rows := journal.toList.filter fun row => Expired now row.2
  let batch := (rows.insertionSort fun a b => ExpiresBefore a.2 b.2).take
    harvestcircleDurableOperationCleanupBatch
  journal.filter fun request _ => request ∉ batch.map (·.1)

/-- Revisions are stored as signed integers. -/
def encodeRevision (revision : Option Nat) : Except SafeErrorCode (Option Nat) := do
  refuse (∃ value ∈ revision, ¬ value < 2 ^ 63) .invalidApplicationState
  return revision

/-- Whether the request is new. -/
inductive DurableOperationStart where
  | started (operation : DurableIdentityOperation)
  | existing (operation : DurableIdentityOperation)
  deriving DecidableEq, Repr

/-- Records the intent, or finds the row of the same request. -/
def beginDurableOperation (request : DurableRequestId) (kind : DurableOperationKind)
    (identity : PublicKey) (expectedRevision : Option Nat) (prior : OperationPriorState)
    (updatedAt : UnixTimestamp) (s : Installation) :
    Except SafeErrorCode (DurableOperationStart × Installation) := do
  let expectedRevision ← encodeRevision expectedRevision
  match s.journal[request]? with
  | some operation => do
    refuse (operation.kind ≠ kind ∨ operation.identity ≠ identity ∨
      operation.expectedRevision ≠ expectedRevision ∨ operation.prior ≠ prior)
      .invalidApplicationState
    return (.existing operation, s)
  | none => do
    let journal := cleanupExpiredTerminalReceipts s.journal updatedAt
    refuse ((unfinished journal).length ≥ harvestcircleUnfinishedDurableOperationCapacity)
      .invalidApplicationState
    refuse (journal.size ≥ harvestcircleDurableOperationCapacity) .invalidApplicationState
    let operation : DurableIdentityOperation := {
      requestId := request, kind, identity, expectedRevision, phase := .intentRecorded, prior
      updatedAt, diagnostic := none, terminal := none, finalized_iff := by simp }
    return (.started operation, { s with journal := journal.insert request operation })

def loadDurableOperation (request : DurableRequestId) (s : Installation) :
    Except SafeErrorCode (Option DurableIdentityOperation) :=
  .ok s.journal[request]?

/-- The row moves on from the phase the caller knows. -/
def advanceDurableOperation (request : DurableRequestId)
    (expectedPhase nextPhase : DurableOperationPhase) (updatedAt : UnixTimestamp)
    (diagnostic : Option OperationDiagnostic) (s : Installation) :
    Except SafeErrorCode (DurableIdentityOperation × Installation) := do
  let operation ← okOr s.journal[request]? .invalidApplicationState
  if hopen : operation.phase = expectedPhase ∧ operation.terminal = none then
    if hnext : nextPhase ≠ .finalized then
      let operation := { operation with
        phase := nextPhase, updatedAt, diagnostic
        finalized_iff := by simp [hopen.2, hnext] }
      return (operation, { s with journal := s.journal.insert request operation })
    else throw .storageUnavailable
  else throw .invalidApplicationState

/-- The row gets its receipt; finalizing it again in the same way changes nothing. -/
def finalizeDurableOperation (request : DurableRequestId) (expectedPhase : DurableOperationPhase)
    (outcome : DurableTerminalOutcome) (resultingRevision : Option Nat)
    (updatedAt : UnixTimestamp) (s : Installation) :
    Except SafeErrorCode (DurableOperationReceipt × Installation) := do
  let resultingRevision ← encodeRevision resultingRevision
  let operation ← okOr s.journal[request]? .invalidApplicationState
  match operation.terminal with
  | some receipt => do
    refuse (receipt.outcome ≠ outcome ∨ receipt.resultingRevision ≠ resultingRevision)
      .invalidApplicationState
    return (receipt, s)
  | none => do
    refuse (operation.phase ≠ expectedPhase) .invalidApplicationState
    let receipt := ⟨outcome, resultingRevision, updatedAt⟩
    let operation := { operation with
      phase := .finalized, terminal := some receipt, updatedAt
      finalized_iff := by simp }
    return (receipt, { s with journal := s.journal.insert request operation })

/-- The rows recovery starts from. -/
def listUnfinishedDurableOperations (s : Installation) :
    Except SafeErrorCode (List DurableIdentityOperation) := do
  let rows := unfinished s.journal
  refuse (rows.length > harvestcircleUnfinishedDurableOperationCapacity) .storageCorrupt
  return rows

/-! ## What a call that succeeds did -/

section Specifications
variable {s t : Installation} {request : DurableRequestId} {key : PublicKey} {now : UnixTimestamp}
  {u : Unit} {revision : Option Nat} {expected : DurableOperationPhase}

theorem put_eq_ok {secret : SecretKeyInput} (h : put request key secret s = .ok (u, t)) :
    ∃ secrets, t = { s with secrets } ∧ secrets[key]? = some ⟨request, secret⟩ ∧
      ∀ other ≠ key, secrets[other]? = s.secrets[other]? := by
  unfold put at h
  split at h
  · cases h
    refine ⟨_, rfl, by simp, fun other hother => ?_⟩
    simp [Std.ExtTreeMap.getElem?_insert, hother.symm]
  · rename_i existing hexisting
    simp only [accepted, Decidable.not_not] at h
    obtain ⟨rfl, heq⟩ := h
    cases heq
    exact ⟨s.secrets, rfl, hexisting, fun _ _ => rfl⟩

theorem delete_eq_ok (h : delete request key s = .ok (u, t)) :
    t = { s with secrets := s.secrets.erase key } := by
  simp only [delete, accepted, Prod.mk.injEq] at h
  exact h.2.2.symm

theorem delete_eq_error {e : SafeErrorCode} (h : delete request key s = .error e) :
    s.secrets[key]? = none := by
  by_contra hne
  have hok : delete request key s = .ok ((), { s with secrets := s.secrets.erase key }) := by
    simp only [delete, accepted]
    exact ⟨hne, trivial⟩
  rw [hok] at h
  cases h

variable {identity : NostrIdentity} {outcome : DurableTerminalOutcome}
  {receipt : DurableOperationReceipt}

theorem insertIdentity_eq_ok (h : insertIdentity identity s = .ok (u, t)) :
    t = { s with identities := s.identities.save identity } := by
  simp only [insertIdentity, accepted, Prod.mk.injEq] at h
  exact h.2.2.2.symm

theorem updateIdentity_eq_ok (h : updateIdentity identity s = .ok (u, t)) :
    t = { s with identities := s.identities.save identity } ∧
      s.identities.find identity.publicKey ≠ none := by
  simp only [updateIdentity, accepted, Prod.mk.injEq] at h
  exact ⟨h.2.2.symm, h.1⟩

theorem removeIdentity_eq_ok (h : removeIdentity key s = .ok (u, t)) :
    ∃ selected, t = { s with identities := s.identities.erase key, selected } := by
  simp only [removeIdentity, accepted, Prod.mk.injEq] at h
  exact ⟨_, h.2.2.symm⟩

theorem saveSelectedIdentity_eq_ok {selected : Option PublicKey}
    (h : saveSelectedIdentity selected s = .ok (u, t)) :
    t = { s with selected } ∧ ∀ key ∈ selected, s.identities.find key ≠ none := by
  simp only [saveSelectedIdentity, accepted, not_exists, not_and, Prod.mk.injEq, true_and] at h
  exact ⟨h.2.symm, h.1⟩

/-- Cleaning up only deletes rows. -/
theorem getElem?_cleanup {journal : Journal} {row : DurableIdentityOperation}
    (h : (cleanupExpiredTerminalReceipts journal now)[request]? = some row) :
    journal[request]? = some row := by
  simp only [cleanupExpiredTerminalReceipts, Std.ExtTreeMap.getElem?_filter'] at h
  exact (Option.filter_eq_some_iff.mp h).1

/-- A request that the journal does not know is given a row at its first phase. -/
theorem beginDurableOperation_eq_ok {kind : DurableOperationKind} {prior : OperationPriorState}
    {start : DurableOperationStart}
    (h : beginDurableOperation request kind key revision prior now s = .ok (start, t)) :
    (∃ operation, start = .existing operation ∧ s.journal[request]? = some operation ∧ t = s) ∨
    s.journal[request]? = none ∧ ∃ operation : DurableIdentityOperation,
      start = .started operation ∧ operation.requestId = request ∧ operation.kind = kind ∧
        operation.identity = key ∧
      operation.prior = prior ∧ operation.phase = .intentRecorded ∧
      t = { s with journal :=
        (cleanupExpiredTerminalReceipts s.journal now).insert request operation } := by
  simp only [beginDurableOperation, bind_eq_ok] at h
  obtain ⟨revision', -, h⟩ := h
  split at h
  · simp only [accepted, Prod.mk.injEq] at h
    exact .inl ⟨_, h.2.1.symm, ‹_›, h.2.2.symm⟩
  · simp only [accepted, Prod.mk.injEq] at h
    obtain ⟨-, -, rfl, rfl⟩ := h
    exact .inr ⟨‹_›, _, rfl, rfl, rfl, rfl, rfl, rfl, rfl⟩

theorem advanceDurableOperation_eq_ok {next : DurableOperationPhase}
    {diagnostic : Option OperationDiagnostic} {operation : DurableIdentityOperation}
    (h : advanceDurableOperation request expected next now diagnostic s = .ok (operation, t)) :
    ∃ old, s.journal[request]? = some old ∧ old.phase = expected ∧
      operation.requestId = old.requestId ∧ operation.kind = old.kind ∧
      operation.identity = old.identity ∧ operation.prior = old.prior ∧ operation.phase = next ∧
      operation.terminal = none ∧
      t = { s with journal := s.journal.insert request operation } := by
  simp only [advanceDurableOperation, accepted] at h
  obtain ⟨old, hold, h⟩ := h
  split at h
  · rename_i hopen
    split at h
    · cases h
      exact ⟨old, hold, hopen.1, rfl, rfl, rfl, rfl, rfl, hopen.2, rfl⟩
    · cases h
  · cases h

/-- An open row is given its receipt. -/
theorem finalizeDurableOperation_eq_ok {old : DurableIdentityOperation}
    (hold : s.journal[request]? = some old) (hopen : old.terminal = none)
    (h : finalizeDurableOperation request expected outcome revision now s = .ok (receipt, t)) :
    old.phase = expected ∧ ∃ operation : DurableIdentityOperation,
      operation.requestId = old.requestId ∧ operation.kind = old.kind ∧
      operation.identity = old.identity ∧ operation.prior = old.prior ∧
      operation.phase = .finalized ∧ operation.terminal = some receipt ∧
      receipt.outcome = outcome ∧
      t = { s with journal := s.journal.insert request operation } := by
  simp only [finalizeDurableOperation, accepted, hold, Option.some.injEq, exists_eq_left'] at h
  obtain ⟨revision', -, h⟩ := h
  split at h
  · rename_i hsome
    rw [hopen] at hsome
    cases hsome
  · simp only [accepted, Decidable.not_not, Prod.mk.injEq] at h
    obtain ⟨hphase, rfl, rfl⟩ := h
    refine ⟨hphase, _, ?_, ?_, ?_, ?_, ?_, ?_, ?_, rfl⟩ <;> rfl

/-- Finalizing a row changes nothing but the journal. -/
theorem finalizeDurableOperation_stores
    (h : finalizeDurableOperation request expected outcome revision now s = .ok (receipt, t)) :
    ∃ journal, t = { s with journal } := by
  simp only [finalizeDurableOperation, bind_eq_ok] at h
  obtain ⟨_, -, old, -, h⟩ := h
  split at h
  · simp only [accepted, Prod.mk.injEq] at h
    exact ⟨s.journal, h.2.2.symm⟩
  · simp only [accepted, Prod.mk.injEq] at h
    exact ⟨_, h.2.2.symm⟩

end Specifications

end Installation

end HarvestCircle
