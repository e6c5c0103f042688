import Std.Data.ExtTreeMap
import HarvestCircle.Reference

/-! # The application core

What the running application holds in memory: a snapshot of the saved identities
with the session, the state machine that replaces it, and the tokens that confirm
the removal of an identity.

Methods that change their receiver return it next to their result, because some of
them change it and then fail.
-/
namespace HarvestCircle
open Checked

/-! ## Saved identities -/

/-- Whether the credential of an identity can be used. -/
inductive SignerAvailability where
  | available
  | credentialMissing
  | storeUnavailable
  deriving DecidableEq, Repr

/-- A saved identity; its only signer binding is the local keyring. -/
structure NostrIdentity where
  publicKey : PublicKey
  availability : SignerAvailability
  label : Option String
  createdAt : UnixTimestamp
  lastUsedAt : Option UnixTimestamp
  deriving DecidableEq, Repr

def NostrIdentity.withLocalKeyringAvailability (identity : NostrIdentity)
    (availability : SignerAvailability) : NostrIdentity :=
  { identity with availability }

/-- A new identity whose credential is in the keyring. -/
def NostrIdentity.saved (publicKey : PublicKey) (now : UnixTimestamp) : NostrIdentity :=
  { publicKey, availability := .available, label := none, createdAt := now, lastUsedAt := none }

/-! ## Snapshots -/

/-- A counter of 64 bits. -/
@[ext] structure SnapshotRevision where
  value : Nat
  bound : value < 2 ^ 64 := by decide
  deriving DecidableEq, Repr

namespace SnapshotRevision

theorem bound_of_check {value : Nat} (h : decide (value < 2 ^ 64) = true) : value < 2 ^ 64 :=
  of_decide_eq_true h

/-- The revision of a numeral. -/
abbrev of (value : Nat) (h : decide (value < 2 ^ 64) = true := by exact Eq.refl true) :
    SnapshotRevision :=
  ⟨value, bound_of_check h⟩

def initial : SnapshotRevision := ⟨0, by decide⟩

/-- There is none after the last counter. -/
def next (revision : SnapshotRevision) : Option SnapshotRevision :=
  if h : revision.value + 1 < 2 ^ 64 then some ⟨revision.value + 1, h⟩ else none

end SnapshotRevision

inductive AppLifecycle where
  | booting
  | ready
  | fatal (error : SafeErrorCode)
  deriving DecidableEq, Repr

/-- How far the session of the selected identity is. -/
inductive SessionState where
  | signedOut
  | activating (publicKey : PublicKey)
  | active
  | signingOut
  | failed (error : SafeErrorCode)
  deriving DecidableEq, Repr

inductive RelayConnectionState where
  | disconnected
  | connecting
  | connected
  | degraded
  | error (error : SafeErrorCode)
  deriving DecidableEq, Repr

/-- Where the shown profile came from. -/
inductive ProfileLoadState where
  | empty
  | loading
  | cached
  | fresh
  | error (error : SafeErrorCode)
  deriving DecidableEq, Repr

structure ProfileMetadata where
  name : Option String
  displayName : Option String
  nip05 : Option String
  about : Option String
  picture : Option String
  deriving DecidableEq, Repr

/-- The endpoints of the relays, in order. -/
structure RelayConfiguration where
  relays : List String := []
  deriving DecidableEq, Repr

/-- The signed-in identity with its relay and profile. -/
structure ActiveIdentitySnapshot where
  identity : NostrIdentity
  relayState : RelayConnectionState
  profileState : ProfileLoadState
  profile : Option ProfileMetadata
  deriving DecidableEq, Repr

/-- What the application shows. -/
structure AppSnapshot where
  revision : SnapshotRevision
  lifecycle : AppLifecycle
  relayConfiguration : RelayConfiguration
  identities : List NostrIdentity
  selectedIdentity : Option PublicKey
  session : SessionState
  activeIdentity : Option ActiveIdentitySnapshot
  recoverableProblem : Option SafeErrorCode
  deriving DecidableEq, Repr

namespace AppSnapshot

/-- Before the registry has been read. -/
def booting : AppSnapshot where
  revision := .initial
  lifecycle := .booting
  relayConfiguration := {}
  identities := []
  selectedIdentity := none
  session := .signedOut
  activeIdentity := none
  recoverableProblem := none

/-- Nothing of the earlier snapshot but its relays is kept. -/
def fatal (revision : SnapshotRevision) (relayConfiguration : RelayConfiguration)
    (error : SafeErrorCode) : AppSnapshot where
  revision
  lifecycle := .fatal error
  relayConfiguration
  identities := []
  selectedIdentity := none
  session := .signedOut
  activeIdentity := none
  recoverableProblem := none

/-- Keys are unique, one is selected if there are any, and the session agrees
with the active identity. -/
def validateSnapshot (identities : List NostrIdentity) (selectedIdentity : Option PublicKey)
    (session : SessionState) (activeIdentity : Option ActiveIdentitySnapshot) :
    Except SafeErrorCode Unit :=
  refuse (¬ (identities.map (·.publicKey)).Nodup ∨
    ¬ (identities = [] ↔ selectedIdentity = none) ∨
    (∃ key ∈ selectedIdentity, key ∉ identities.map (·.publicKey)) ∨
    (∃ active ∈ activeIdentity, active.identity ∉ identities) ∨
    (session = .active ∧ activeIdentity = none) ∨
    (session = .signedOut ∧ activeIdentity ≠ none)) .invalidApplicationState

def ready (revision : SnapshotRevision) (relayConfiguration : RelayConfiguration)
    (identities : List NostrIdentity) (selectedIdentity : Option PublicKey)
    (session : SessionState) (activeIdentity : Option ActiveIdentitySnapshot)
    (recoverableProblem : Option SafeErrorCode) : Except SafeErrorCode AppSnapshot := do
  validateSnapshot identities selectedIdentity session activeIdentity
  return {
    revision, lifecycle := .ready, relayConfiguration, identities, selectedIdentity, session,
    activeIdentity, recoverableProblem }

end AppSnapshot

/-! ## The state machine -/

/-- What the application asks of the state machine. -/
inductive StateTransition where
  | bootstrap
  | bootstrapRegistry (identities : List NostrIdentity) (selected : Option PublicKey)
  | fatal (error : SafeErrorCode)
  | replaceRegistry (identities : List NostrIdentity) (selected : Option PublicKey)
  | replaceRegistryPreservingSession (identities : List NostrIdentity)
      (selected : Option PublicKey)
  | select (publicKey : PublicKey)
  | beginActivation (publicKey : PublicKey)
  | activationSucceeded (activeIdentity : ActiveIdentitySnapshot)
  | activationFailed (error : SafeErrorCode)
  | updateActiveIdentity (expected : PublicKey) (activeIdentity : ActiveIdentitySnapshot)
      (problem : Option SafeErrorCode)
  | signOut
  | setProblem (problem : Option SafeErrorCode)
  deriving DecidableEq, Repr

/-- What an activation that fails goes back to. -/
structure PreviousSession where
  session : SessionState
  activeIdentity : Option ActiveIdentitySnapshot
  deriving DecidableEq, Repr

/-- The current snapshot and the activation under way. -/
structure StateMachine where
  snapshot : AppSnapshot
  pendingActivation : Option (PublicKey × PreviousSession)
  deriving DecidableEq, Repr

namespace StateMachine

def booting : StateMachine := ⟨.booting, none⟩

/-- The next snapshot with the relays and identities kept. -/
def copyReady (machine : StateMachine) (revision : SnapshotRevision)
    (selectedIdentity : Option PublicKey) (session : SessionState)
    (activeIdentity : Option ActiveIdentitySnapshot) (recoverableProblem : Option SafeErrorCode) :
    Except SafeErrorCode AppSnapshot :=
  AppSnapshot.ready revision machine.snapshot.relayConfiguration machine.snapshot.identities
    selectedIdentity session activeIdentity recoverableProblem

def requireIdentity (machine : StateMachine) (publicKey : PublicKey) : Except SafeErrorCode Unit :=
  refuse (publicKey ∉ machine.snapshot.identities.map (·.publicKey)) .identityNotFound

/-- Does nothing once the application has left booting. -/
def bootstrapRegistry (machine : StateMachine) (revision : SnapshotRevision)
    (relayConfiguration : RelayConfiguration) (identities : List NostrIdentity)
    (selected : Option PublicKey) : Except SafeErrorCode AppSnapshot :=
  if machine.snapshot.lifecycle ≠ .booting then .ok machine.snapshot
  else AppSnapshot.ready revision relayConfiguration identities selected .signedOut none none

def bootstrap (machine : StateMachine) (revision : SnapshotRevision)
    (relayConfiguration : RelayConfiguration) : Except SafeErrorCode AppSnapshot :=
  machine.bootstrapRegistry revision relayConfiguration [] none

/-- Signs out and drops the activation under way, even when it is refused. -/
def replaceRegistry (machine : StateMachine) (revision : SnapshotRevision)
    (identities : List NostrIdentity) (selected : Option PublicKey) :
    Except SafeErrorCode AppSnapshot × StateMachine :=
  (AppSnapshot.ready revision machine.snapshot.relayConfiguration identities selected .signedOut
    none none, { machine with pendingActivation := none })

/-- Keeps the session, but drops the activation under way. -/
def replaceRegistryPreservingSession (machine : StateMachine) (revision : SnapshotRevision)
    (identities : List NostrIdentity) (selected : Option PublicKey) :
    Except SafeErrorCode AppSnapshot × StateMachine :=
  (AppSnapshot.ready revision machine.snapshot.relayConfiguration identities selected
    machine.snapshot.session machine.snapshot.activeIdentity none,
    { machine with pendingActivation := none })

def select (machine : StateMachine) (revision : SnapshotRevision) (publicKey : PublicKey) :
    Except SafeErrorCode AppSnapshot := do
  machine.requireIdentity publicKey
  machine.copyReady revision (some publicKey) machine.snapshot.session
    machine.snapshot.activeIdentity none

/-- Remembers the session to go back to; there is one activation at a time. -/
def beginActivation (machine : StateMachine) (revision : SnapshotRevision)
    (publicKey : PublicKey) : Except SafeErrorCode AppSnapshot × StateMachine :=
  match machine.requireIdentity publicKey with
  | .error e => (.error e, machine)
  | .ok () =>
    if machine.pendingActivation.isSome then (.error .invalidApplicationState, machine)
    else
      let previous := ⟨machine.snapshot.session, machine.snapshot.activeIdentity⟩
      (machine.copyReady revision machine.snapshot.selectedIdentity (.activating publicKey)
        machine.snapshot.activeIdentity none,
        { machine with pendingActivation := some (publicKey, previous) })

/-- The first identity with the key is replaced. -/
def register (active : NostrIdentity) : List NostrIdentity → Option (List NostrIdentity)
  | [] => none
  | identity :: rest =>
    if identity.publicKey = active.publicKey then some (active :: rest)
    else (register active rest).map (identity :: ·)

/-- The activated identity has to be the one that was begun. -/
def activationSucceeded (machine : StateMachine) (revision : SnapshotRevision)
    (activeIdentity : ActiveIdentitySnapshot) : Except SafeErrorCode AppSnapshot × StateMachine :=
  match machine.pendingActivation with
  | none => (.error .invalidApplicationState, machine)
  | some (target, _) =>
    if activeIdentity.identity.publicKey ≠ target then (.error .invalidApplicationState, machine)
    else
      match register activeIdentity.identity machine.snapshot.identities with
      | none => (.error .identityNotFound, machine)
      | some identities =>
        match AppSnapshot.ready revision machine.snapshot.relayConfiguration identities
          (some target) .active (some activeIdentity) none with
        | .ok next => (.ok next, { machine with pendingActivation := none })
        | .error e => (.error e, machine)

/-- Goes back to the session before the activation. -/
def activationFailed (machine : StateMachine) (revision : SnapshotRevision)
    (problem : SafeErrorCode) : Except SafeErrorCode AppSnapshot × StateMachine :=
  match machine.pendingActivation with
  | none => (.error .invalidApplicationState, machine)
  | some (_, previous) =>
    (machine.copyReady revision machine.snapshot.selectedIdentity previous.session
      previous.activeIdentity (some problem), { machine with pendingActivation := none })

def signOut (machine : StateMachine) (revision : SnapshotRevision) :
    Except SafeErrorCode AppSnapshot × StateMachine :=
  (machine.copyReady revision machine.snapshot.selectedIdentity .signedOut none none,
    { machine with pendingActivation := none })

/-- Only for the identity that is signed in. -/
def updateActiveIdentity (machine : StateMachine) (revision : SnapshotRevision)
    (expected : PublicKey) (activeIdentity : ActiveIdentitySnapshot)
    (problem : Option SafeErrorCode) : Except SafeErrorCode AppSnapshot := do
  refuse (machine.snapshot.session ≠ .active ∨
    machine.snapshot.activeIdentity.map (·.identity.publicKey) ≠ some expected ∨
    activeIdentity.identity.publicKey ≠ expected) .invalidApplicationState
  machine.copyReady revision machine.snapshot.selectedIdentity .active (some activeIdentity)
    problem

/-- One deterministic transition; the snapshot is replaced only when it succeeds. -/
def apply (machine : StateMachine) (transition : StateTransition)
    (relayConfiguration : RelayConfiguration) : Except SafeErrorCode AppSnapshot × StateMachine :=
  match machine.snapshot.revision.next with
  | none => (.error .invalidApplicationState, machine)
  | some revision =>
    let (next, machine) := match transition with
      | .bootstrap => (machine.bootstrap revision relayConfiguration, machine)
      | .bootstrapRegistry identities selected =>
        (machine.bootstrapRegistry revision relayConfiguration identities selected, machine)
      | .fatal error => (.ok (AppSnapshot.fatal revision relayConfiguration error), machine)
      | .replaceRegistry identities selected =>
        machine.replaceRegistry revision identities selected
      | .replaceRegistryPreservingSession identities selected =>
        machine.replaceRegistryPreservingSession revision identities selected
      | .select publicKey => (machine.select revision publicKey, machine)
      | .beginActivation publicKey => machine.beginActivation revision publicKey
      | .activationSucceeded activeIdentity => machine.activationSucceeded revision activeIdentity
      | .activationFailed problem => machine.activationFailed revision problem
      | .updateActiveIdentity expected activeIdentity problem =>
        (machine.updateActiveIdentity revision expected activeIdentity problem, machine)
      | .signOut => machine.signOut revision
      | .setProblem problem =>
        (machine.copyReady revision machine.snapshot.selectedIdentity machine.snapshot.session
          machine.snapshot.activeIdentity problem, machine)
    match next with
    | .ok snapshot => (.ok snapshot, { machine with snapshot })
    | .error e => (.error e, machine)

end StateMachine

/-! ## The core and its removal tokens -/

/-- What the user is told a removal will do. -/
structure RemovalImpact where
  deletesLocalCredential : Bool
  signsOut : Bool
  deriving DecidableEq, Repr

/-- A removal that was asked for and not confirmed yet. -/
structure RemovalTokenState where
  publicKey : PublicKey
  revision : SnapshotRevision
  expiresAt : UnixTimestamp
  impact : RemovalImpact
  deriving DecidableEq, Repr

/-- The state the user was shown, with the number it is kept under. -/
structure RemovalConfirmationToken extends RemovalTokenState where
  id : Nat
  deriving DecidableEq, Repr

/-- The state machine, the removals asked for and the relays. -/
structure CoreState where
  stateMachine : StateMachine
  removalTokens : Std.ExtTreeMap Nat RemovalTokenState
  nextRemovalToken : Nat
  relayConfiguration : RelayConfiguration

namespace CoreState

/-- A process that has just started. -/
def booting (relayConfiguration : RelayConfiguration) : CoreState :=
  ⟨.booting, ∅, 1, relayConfiguration⟩

/-- The published snapshot: it is replaced together with the state machine's. -/
def snapshot (core : CoreState) : AppSnapshot := core.stateMachine.snapshot

def applyTransition (core : CoreState) (transition : StateTransition) :
    Except SafeErrorCode AppSnapshot × CoreState :=
  let (next, stateMachine) := core.stateMachine.apply transition core.relayConfiguration
  (next, { core with stateMachine })

/-- Signing out twice does nothing. -/
def signOut (core : CoreState) : Except SafeErrorCode AppSnapshot × CoreState :=
  if core.snapshot.session = .signedOut then (.ok core.snapshot, core)
  else core.applyTransition .signOut

def requireRevision (core : CoreState) (expected : Nat) : Except SafeErrorCode Unit :=
  refuse (core.snapshot.revision.value ≠ expected) .invalidApplicationState

/-- Seconds a removal may be confirmed for. -/
def removalSeconds : Nat := 300

/-- The number is used up even when the expiry overflows. -/
def issueRemovalToken (core : CoreState) (publicKey : PublicKey) (now : UnixTimestamp) :
    Except SafeErrorCode RemovalConfirmationToken × CoreState :=
  match core.snapshot.identities.find? (fun identity => identity.publicKey = publicKey) with
  | none => (.error .identityNotFound, core)
  | some identity =>
    let id := core.nextRemovalToken
    if ¬ id + 1 < 2 ^ 64 then (.error .invalidApplicationState, core)
    else
      let core := { core with nextRemovalToken := id + 1 }
      if h : now.seconds + removalSeconds < 2 ^ 63 then
        let state : RemovalTokenState := {
          publicKey
          revision := core.snapshot.revision
          expiresAt := ⟨now.seconds + removalSeconds, h⟩
          impact := {
            deletesLocalCredential := identity.availability ≠ .credentialMissing
            signsOut :=
              core.snapshot.activeIdentity.any fun active =>
                active.identity.publicKey = publicKey } }
        (.ok { state with id }, { core with removalTokens := core.removalTokens.insert id state })
      else (.error .invalidApplicationState, core)

/-- A token is spent even when it is refused. -/
def consumeRemovalToken (core : CoreState) (token : RemovalConfirmationToken)
    (now : UnixTimestamp) : Except SafeErrorCode PublicKey × CoreState :=
  let stored := core.removalTokens[token.id]?
  let core := { core with removalTokens := core.removalTokens.erase token.id }
  if stored ≠ some token.toRemovalTokenState ∨ core.snapshot.revision ≠ token.revision ∨
      now > token.expiresAt then
    (.error .invalidApplicationState, core)
  else (.ok token.publicKey, core)

/-- Says whether there was such a token. -/
def cancelRemovalToken (core : CoreState) (token : RemovalConfirmationToken) : Bool × CoreState :=
  (core.removalTokens.contains token.id,
    { core with removalTokens := core.removalTokens.erase token.id })

end CoreState

end HarvestCircle
