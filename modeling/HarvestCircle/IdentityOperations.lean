import HarvestCircle.Interruption
import HarvestCircle.IdentityStore

/-! # Durable identity operations and their recovery

An operation records its intent in the journal, writes the stores one after another
and moves its row on after each write.  An operation that does not get to its end
leaves its row behind, and the next start of the application takes every such row to
an end of its own: an addition is finished or undone, a removal is always finished.

Operations and recovery are programs of `Interruption`: they may be stopped before
any of their calls.

An operation has one time for all its calls, where the source reads the clock at each.
The time of a call decides nothing but which old receipts are cleaned up at its start and
whether a removal token has expired, and for each of these there is one reading; the other
times are only kept, as `updatedAt`, `completedAt` and the creation time of an identity.  No
phase, no credential and no selection depends on them.
-/
namespace HarvestCircle
open Checked Interruption Installation

abbrev IdentityProgram (α : Type) := Program Installation SafeErrorCode α

/-- A method of the core. -/
def onCore {α : Type} (f : CoreState → Except SafeErrorCode α × CoreState) : IdentityProgram α :=
  compute fun s => ((f s.core).1, { s with core := (f s.core).2 })

/-- Derives the canonical secret and the public key from what the user entered. -/
class KeyMaterialProvider where
  importKey : String → Except SafeErrorCode (PublicKey × SecretKeyInput)

/-- A generated key whose recovery was acknowledged. -/
structure StagedGeneratedKey where
  identity : NostrIdentity
  secret : SecretKeyInput
  expectedRevision : Nat
  available : identity.availability = .available

/-! ## Additions -/

def requireCompletedIdentityOperation (operation : DurableIdentityOperation) :
    Except SafeErrorCode Unit :=
  refuse (operation.phase ≠ .finalized ∨
    operation.terminal.map (·.outcome) ≠ some .completed) .pendingOperationRecoveryRequired

def verifyCompletedIdentityReplay (operation : DurableIdentityOperation)
    (request : DurableRequestId) (kind : DurableOperationKind) (expectedRevision : Nat)
    (publicKey : PublicKey) (secret : SecretKeyInput) : IdentityProgram Unit := do
  check (refuse (operation.requestId ≠ request ∨ operation.kind ≠ kind ∨
    operation.identity ≠ publicKey ∨ operation.expectedRevision ≠ some expectedRevision)
    .invalidApplicationState)
  check (requireCompletedIdentityOperation operation)
  query (verify request publicKey secret)

/-- The identity that a completed operation saved. -/
def completedIdentity (publicKey : PublicKey) : IdentityProgram NostrIdentity := do
  let saved ← query (findIdentity publicKey)
  check (okOr saved .pendingOperationRecoveryRequired)

/-- What an addition does once its intent is recorded. -/
def writeIdentity (request : DurableRequestId) (identity : NostrIdentity)
    (secret : SecretKeyInput) (previous : Option NostrIdentity) (now : UnixTimestamp) :
    IdentityProgram NostrIdentity := do
  call (put request identity.publicKey secret)
  let _ ← call (advanceDurableOperation request .intentRecorded .credentialWritten now none)
  call (match previous with
    | some _ => updateIdentity identity
    | none => insertIdentity identity)
  let _ ← call (advanceDurableOperation request .credentialWritten .metadataCommitted now none)
  call (saveSelectedIdentity (some identity.publicKey))
  let _ ← call (advanceDurableOperation request .metadataCommitted .selectionCommitted now none)
  let identities ← query listIdentities
  let snapshot ← onCore fun core =>
    core.applyTransition (.replaceRegistry identities (some identity.publicKey))
  let _ ← call (finalizeDurableOperation request .selectionCommitted .completed
    (some snapshot.revision.value) now)
  return identity

/-- Every write stands behind the row of the request. -/
def persistIdentityDurable (request : DurableRequestId) (kind : DurableOperationKind)
    (expectedRevision : Nat) (identity : NostrIdentity) (secret : SecretKeyInput)
    (previous : Option NostrIdentity) (now : UnixTimestamp) : IdentityProgram NostrIdentity := do
  let selected ← query loadSelectedIdentity
  let start ← call (beginDurableOperation request kind identity.publicKey (some expectedRevision)
    ⟨selected, previous.map (·.availability)⟩ now)
  match start with
  | .started _ => writeIdentity request identity secret previous now
  | .existing operation => do
    verifyCompletedIdentityReplay operation request kind expectedRevision identity.publicKey secret
    completedIdentity operation.identity

/-- Saves a generated key. -/
def commitStagedGeneratedKey (request : DurableRequestId) (staged : StagedGeneratedKey)
    (now : UnixTimestamp) : IdentityProgram NostrIdentity := do
  inspect fun s => s.core.requireRevision staged.expectedRevision
  persistIdentityDurable request .create staged.expectedRevision staged.identity staged.secret none
    now

/-- Only a key without a credential is imported: a new one, or a saved one that lost its
credential. -/
def requireImportable (publicKey : PublicKey) (previous : Option NostrIdentity) :
    IdentityProgram Unit := do
  check (refuse (∃ existing ∈ previous, existing.availability ≠ .credentialMissing)
    .identityAlreadyExists)
  let present ← query (contains publicKey)
  check (refuse (present = true) .identityAlreadyExists)

/-- Imports a key, or repairs its identity. -/
def importSecretKeyDurable [KeyMaterialProvider] (request : DurableRequestId)
    (expectedRevision : Nat) (input : String) (now : UnixTimestamp) :
    IdentityProgram NostrIdentity := do
  let known ← query (loadDurableOperation request)
  match known with
  | some existing => do
    check (refuse (existing.kind ≠ .import ∧ existing.kind ≠ .repair) .invalidApplicationState)
    check (requireCompletedIdentityOperation existing)
    let (publicKey, secret) ← check (KeyMaterialProvider.importKey input)
    verifyCompletedIdentityReplay existing request existing.kind expectedRevision publicKey secret
    completedIdentity publicKey
  | none => do
    inspect fun s => s.core.requireRevision expectedRevision
    let (publicKey, secret) ← check (KeyMaterialProvider.importKey input)
    let previous ← query (findIdentity publicKey)
    requireImportable publicKey previous
    match previous with
    | some existing =>
      persistIdentityDurable request .repair expectedRevision
        (existing.withLocalKeyringAvailability .available) secret (some existing) now
    | none =>
      persistIdentityDurable request .import expectedRevision (.saved publicKey now) secret none now

/-! ## Removals -/

/-- The selection after the identity at `index` is removed: a neighbour if it was selected. -/
def selectionAfterRemoval (registry : List NostrIdentity) (index : Nat) (publicKey : PublicKey)
    (selected : Option PublicKey) : Option PublicKey :=
  if selected = some publicKey then
    (registry[index + 1]?.or (if index = 0 then none else registry[index - 1]?)).map (·.publicKey)
  else selected

/-- A missing credential is no failure when the identity is known to have lost it. -/
def deleteCredential (request : DurableRequestId) (identity : NostrIdentity)
    (publicKey : PublicKey) : IdentityProgram Unit := do
  let deleted ← attempt (delete request publicKey)
  match deleted with
  | .ok () => return ()
  | .error e =>
    check (refuse (¬ (e = .credentialMissing ∧ identity.availability = .credentialMissing)) e)

/-- What a removal does once its intent is recorded. -/
def eraseIdentity (request : DurableRequestId) (identity : NostrIdentity) (publicKey : PublicKey)
    (selected : Option PublicKey) (now : UnixTimestamp) : IdentityProgram AppSnapshot := do
  let _ ← onCore fun core =>
    if core.snapshot.activeIdentity.map (·.identity.publicKey) = some publicKey then core.signOut
    else (.ok core.snapshot, core)
  deleteCredential request identity publicKey
  let _ ← call (advanceDurableOperation request .intentRecorded .credentialDeleted now none)
  call (removeIdentity publicKey)
  let _ ← call (advanceDurableOperation request .credentialDeleted .metadataDeleted now none)
  call (saveSelectedIdentity selected)
  let _ ← call (advanceDurableOperation request .metadataDeleted .selectionCommitted now none)
  let identities ← query listIdentities
  let snapshot ← onCore fun core =>
    core.applyTransition (.replaceRegistryPreservingSession identities selected)
  let _ ← call (finalizeDurableOperation request .selectionCommitted .completed
    (some snapshot.revision.value) now)
  return snapshot

/-- The token is spent whatever follows. -/
def confirmIdentityRemovalDurable (request : DurableRequestId) (token : RemovalConfirmationToken)
    (now : UnixTimestamp) : IdentityProgram AppSnapshot := do
  let publicKey ← onCore fun core => core.consumeRemovalToken token now
  inspect fun s => s.core.requireRevision token.revision.value
  let registry ← query listIdentities
  let index ← check (okOr (registry.findIdx? fun identity => identity.publicKey = publicKey)
    .identityNotFound)
  let current ← inspect fun s => .ok s.core.snapshot.selectedIdentity
  let selected := selectionAfterRemoval registry index publicKey current
  let identity ← check (okOr registry[index]? .identityNotFound)
  let start ← call (beginDurableOperation request .remove publicKey (some token.revision.value)
    ⟨selected, some identity.availability⟩ now)
  match start with
  | .started _ => eraseIdentity request identity publicKey selected now
  | .existing operation => do
    check (refuse (operation.terminal.map (·.outcome) ≠ some .completed)
      .pendingOperationRecoveryRequired)
    inspect fun s => .ok s.core.snapshot

/-! ## Recovery -/

/-- A credential that is gone is no error. -/
def deleteIfPresent (request : DurableRequestId) (publicKey : PublicKey) :
    IdentityProgram Unit := do
  let present ← query (contains publicKey)
  if present then call (delete request publicKey) else return ()

def removeIfSaved (publicKey : PublicKey) : IdentityProgram Unit := do
  let saved ← query (findIdentity publicKey)
  match saved with
  | some _ => call (removeIdentity publicKey)
  | none => return ()

section Removal
variable (operation : DurableIdentityOperation) (now : UnixTimestamp)

def recoverCredentialDeletion (phase : DurableOperationPhase) :
    IdentityProgram DurableOperationPhase :=
  if phase = .intentRecorded then do
    deleteIfPresent operation.requestId operation.identity
    let _ ← call (advanceDurableOperation operation.requestId .intentRecorded .credentialDeleted
      now none)
    return .credentialDeleted
  else return phase

def recoverMetadataDeletion (phase : DurableOperationPhase) :
    IdentityProgram DurableOperationPhase :=
  if phase = .credentialDeleted then do
    removeIfSaved operation.identity
    let _ ← call (advanceDurableOperation operation.requestId .credentialDeleted .metadataDeleted
      now none)
    return .metadataDeleted
  else return phase

def recoverSelection (phase : DurableOperationPhase) : IdentityProgram DurableOperationPhase :=
  if phase = .metadataDeleted then do
    call (saveSelectedIdentity operation.prior.selectedIdentity)
    let _ ← call (advanceDurableOperation operation.requestId .metadataDeleted .selectionCommitted
      now none)
    return .selectionCommitted
  else return phase

def finalizeRemoval (phase : DurableOperationPhase) : IdentityProgram Unit :=
  if phase = .selectionCommitted then do
    let _ ← call (finalizeDurableOperation operation.requestId .selectionCommitted .completed none
      now)
    return ()
  else return ()

/-- The rest of a removal once its metadata is gone. -/
def finishRemoval (phase : DurableOperationPhase) : IdentityProgram Unit := do
  let phase ← recoverSelection operation now phase
  finalizeRemoval operation now phase

/-- A removal goes on from the phase of its row to its end. -/
def recoverDurableRemoval : IdentityProgram Unit := do
  let phase ← recoverCredentialDeletion operation now operation.phase
  let phase ← recoverMetadataDeletion operation now phase
  finishRemoval operation now phase

end Removal

def finishDurableSelection (operation : DurableIdentityOperation) (now : UnixTimestamp) :
    IdentityProgram Unit := do
  call (saveSelectedIdentity (some operation.identity))
  let _ ← call (advanceDurableOperation operation.requestId .metadataCommitted .selectionCommitted
    now none)
  let _ ← call (finalizeDurableOperation operation.requestId .selectionCommitted .completed none
    now)
  return ()

/-- The metadata as it was before the operation. -/
def restoreMetadata (operation : DurableIdentityOperation) : IdentityProgram Unit :=
  match operation.prior.bindingAvailability with
  | some availability => do
    let saved ← query (findIdentity operation.identity)
    match saved with
    | some previous => call (updateIdentity (previous.withLocalKeyringAvailability availability))
    | none => return ()
  | none => removeIfSaved operation.identity

/-- The rest of a compensation once its credential is gone. -/
def finishCompensation (operation : DurableIdentityOperation) (now : UnixTimestamp) :
    IdentityProgram Unit := do
  restoreMetadata operation
  call (saveSelectedIdentity operation.prior.selectedIdentity)
  let _ ← call (advanceDurableOperation operation.requestId .compensationPending .credentialDeleted
    now none)
  let _ ← call (finalizeDurableOperation operation.requestId .credentialDeleted .failed none now)
  return ()

def compensateDurableAddition (operation : DurableIdentityOperation) (now : UnixTimestamp) :
    IdentityProgram Unit := do
  deleteIfPresent operation.requestId operation.identity
  finishCompensation operation now

/-- An addition whose metadata is there is finished, and any other one is undone. -/
def recoverDurableAddition (operation : DurableIdentityOperation) (now : UnixTimestamp) :
    IdentityProgram Unit :=
  match operation.phase with
  | .intentRecorded => do
    deleteIfPresent operation.requestId operation.identity
    let _ ← call (finalizeDurableOperation operation.requestId .intentRecorded .failed none now)
    return ()
  | .credentialWritten => do
    let metadata ← query (findIdentity operation.identity)
    if metadata.map (·.availability) = some .available then do
      let _ ← call (advanceDurableOperation operation.requestId .credentialWritten
        .metadataCommitted now none)
      finishDurableSelection operation now
    else do
      let _ ← call (advanceDurableOperation operation.requestId .credentialWritten
        .compensationPending now none)
      compensateDurableAddition operation now
  | .metadataCommitted => finishDurableSelection operation now
  | .selectionCommitted => do
    let _ ← call (finalizeDurableOperation operation.requestId .selectionCommitted .completed none
      now)
    return ()
  | .compensationPending => compensateDurableAddition operation now
  | .credentialDeleted => do
    let _ ← call (finalizeDurableOperation operation.requestId .credentialDeleted .failed none now)
    return ()
  | .metadataDeleted => do
    let _ ← call (finalizeDurableOperation operation.requestId .metadataDeleted .failed none now)
    return ()
  | .finalized => return ()

/-- Recovery by the kind of the row. -/
def recoverDurableOperation (now : UnixTimestamp) (operation : DurableIdentityOperation) :
    IdentityProgram Unit :=
  match operation.kind with
  | .create | .import | .repair => recoverDurableAddition operation now
  | .remove => recoverDurableRemoval operation now

/-- Every unfinished row is taken to its end before public state is restored. -/
def recoverDurableOperations (now : UnixTimestamp) : IdentityProgram Unit := do
  let operations ← query listUnfinishedDurableOperations
  operations.forM (recoverDurableOperation now)

/-- A process starts: its memory is new, and recovery comes first. -/
def restart (relayConfiguration : RelayConfiguration) (now : UnixTimestamp) :
    IdentityProgram Unit := do
  onCore fun _ => (.ok (), .booting relayConfiguration)
  recoverDurableOperations now

end HarvestCircle
