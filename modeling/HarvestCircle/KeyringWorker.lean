import HarvestCircle.IdentityStore
import HarvestCircle.Linearization

/-! # The keyring worker

The credential store of the operating system may block, so it is called on a thread of its
own, through a queue of eight.  The future of a call may be dropped at any time.  If its request
is still queued then, it is cancelled: both the future and the thread swap the phase atomically,
and the thread only calls the store if it moves it on from `queued`.

Closing takes the sender away and puts one last message into the queue if there is room.  The
thread leaves when it meets that message, or when the queue is empty and the sender gone.

A step of the model is one atomic access of one party.  A store that panics takes the thread
with it, and everything that was still queued.
-/
namespace HarvestCircle
open Checked

/-! ## The store -/

/-- A store of credentials: what each of its functions answers, and the state it leaves. -/
structure SecretStore (σ : Type) where
  put : DurableRequestId → PublicKey → SecretKeyInput → σ → Except SafeErrorCode Unit × σ
  verify : DurableRequestId → PublicKey → SecretKeyInput → σ → Except SafeErrorCode Unit × σ
  load : PublicKey → σ → Except SafeErrorCode SecretKeyInput × σ
  contains : PublicKey → σ → Except SafeErrorCode Bool × σ
  delete : DurableRequestId → PublicKey → σ → Except SafeErrorCode Unit × σ

/-- The store that keeps its credentials in memory. -/
def inMemorySecretStore : SecretStore (Std.ExtTreeMap PublicKey Credential) where
  put request publicKey secret credentials :=
    if credentials[publicKey]?.isSome then (.error .identityAlreadyExists, credentials)
    else (.ok (), credentials.insert publicKey ⟨request, secret⟩)
  verify request publicKey secret credentials :=
    (do
      let existing ← okOr credentials[publicKey]? .credentialMissing
      refuse (existing ≠ ⟨request, secret⟩) .invalidApplicationState, credentials)
  load publicKey credentials :=
    (do
      let existing ← okOr credentials[publicKey]? .credentialMissing
      return existing.secret, credentials)
  contains publicKey credentials := (.ok credentials[publicKey]?.isSome, credentials)
  delete _ publicKey credentials :=
    if credentials[publicKey]? = none then (.error .credentialMissing, credentials)
    else (.ok (), credentials.erase publicKey)

/-- What a call asks of the store. -/
inductive KeyringRequest where
  | put (request : DurableRequestId) (publicKey : PublicKey) (secret : SecretKeyInput)
  | verify (request : DurableRequestId) (publicKey : PublicKey) (secret : SecretKeyInput)
  | load (publicKey : PublicKey)
  | contains (publicKey : PublicKey)
  | delete (request : DurableRequestId) (publicKey : PublicKey)

/-- What the store answers, one case for each type. -/
inductive KeyringAnswer where
  | done (result : Except SafeErrorCode Unit)
  | secret (result : Except SafeErrorCode SecretKeyInput)
  | found (result : Except SafeErrorCode Bool)

/-- What the store answers to a request. -/
def SecretStore.perform {σ : Type} (store : SecretStore σ) :
    KeyringRequest → σ → KeyringAnswer × σ
  | .put request publicKey secret, s => (store.put request publicKey secret s).map .done id
  | .verify request publicKey secret, s => (store.verify request publicKey secret s).map .done id
  | .load publicKey, s => (store.load publicKey s).map .secret id
  | .contains publicKey, s => (store.contains publicKey s).map .found id
  | .delete request publicKey, s => (store.delete request publicKey s).map .done id

/-- The error of an answer. -/
def KeyringAnswer.error? : KeyringAnswer → Option SafeErrorCode
  | .done (.error e) | .secret (.error e) | .found (.error e) => some e
  | _ => none

/-- The answer of a call that fails before the store is asked, in the type of its request. -/
def KeyringRequest.fail (e : SafeErrorCode) : KeyringRequest → KeyringAnswer
  | .put .. | .verify .. | .delete .. => .done (.error e)
  | .load _ => .secret (.error e)
  | .contains _ => .found (.error e)

/-- Loading is the one request that does not carry the phase of its call. -/
def KeyringRequest.carriesPhase : KeyringRequest → Bool
  | .load _ => false
  | _ => true

/-! ## Calls and the queue -/

def keyringQueueCapacity : Nat := 8

/-- How far a call is; only a queued one is cancelled. -/
inductive OperationPhase where
  | queued
  | started
  | completed
  | cancelled
  deriving DecidableEq, Repr

/-- The channel of the response, which is lost when its sender is dropped unused. -/
inductive KeyringResponse where
  | pending
  | sent (answer : KeyringAnswer)
  | lost

/-- The future of a call.  The result is that of `submit`; an error of the store is an answer. -/
inductive KeyringFuture where
  | waiting
  | returned (result : Except SafeErrorCode KeyringAnswer)
  | dropped

/-- A call, from both sides of the queue. -/
structure KeyringCall where
  request : KeyringRequest
  phase : OperationPhase
  response : KeyringResponse
  future : KeyringFuture

/-- What the worker's method returns to its caller: an error of `submit` and an error of the store
look alike. -/
def KeyringCall.result (c : KeyringCall) : Option KeyringAnswer :=
  match c.future with
  | .returned (.ok answer) => some answer
  | .returned (.error e) => some (c.request.fail e)
  | _ => none

/-- What is put into the queue. -/
inductive KeyringMessage where
  | request (call : Nat)
  | close
  deriving DecidableEq, Repr

def KeyringMessage.call? : KeyringMessage → Option Nat
  | .request call => some call
  | .close => none

/-- The one sender: in its place, taken out to be closed, or dropped. -/
inductive KeyringSender where
  | available
  | taken
  | dropped
  deriving DecidableEq, Repr

/-- Where the thread is.  It has left the loop when it is `leaving`, and has told so when it is
`stopped`. -/
inductive KeyringThread where
  | receiving
  | took (call : Nat)
  | started (call : Nat)
  | performed (call : Nat) (answer : KeyringAnswer)
  | finished (call : Nat) (answer : KeyringAnswer)
  | leaving
  | stopped
  | crashed (call : Nat)

/-- The end of the queue that the thread reads from is gone. -/
def KeyringThread.Gone (thread : KeyringThread) : Prop :=
  thread = .stopped ∨ ∃ call, thread = .crashed call

/-- The worker and all calls that were ever made to it, by number.  What the store was asked, and
what it answered, is kept in `performed`. -/
structure Keyring (σ : Type) where
  store : σ
  calls : Nat → KeyringCall
  next : Nat
  queue : List KeyringMessage
  sender : KeyringSender
  thread : KeyringThread
  performed : List (Nat × KeyringAnswer)

namespace Keyring
variable {σ : Type}

/-- The calls whose requests are in the queue. -/
def queued (s : Keyring σ) : List Nat := s.queue.filterMap KeyringMessage.call?

def update (s : Keyring σ) (call : Nat) (f : KeyringCall → KeyringCall) : Keyring σ :=
  { s with calls := Function.update s.calls call (f (s.calls call)) }

@[simp] theorem update_calls (s : Keyring σ) (call other : Nat) (f : KeyringCall → KeyringCall) :
    (s.update call f).calls other = if other = call then f (s.calls call) else s.calls other :=
  Function.update_apply ..

/-- The call gets the next number. -/
def add (s : Keyring σ) (call : KeyringCall) : Keyring σ :=
  { s with calls := Function.update s.calls s.next call, next := s.next + 1 }

@[simp] theorem add_calls (s : Keyring σ) (call : KeyringCall) (other : Nat) :
    (s.add call).calls other = if other = s.next then call else s.calls other :=
  Function.update_apply ..

/-- The request is put into the queue with a new phase and a new response. -/
def accept (s : Keyring σ) (request : KeyringRequest) : Keyring σ :=
  { s.add ⟨request, .queued, .pending, .waiting⟩ with queue := s.queue ++ [.request s.next] }

/-- The thread ends, and with it the requests that it has or that are left in the queue. -/
def endThread (s : Keyring σ) (thread : KeyringThread) (lost : List Nat) : Keyring σ :=
  { s with
    thread, queue := []
    calls := fun call =>
      if call ∈ lost ++ s.queued then { s.calls call with response := .lost } else s.calls call }

def start (store : σ) : Keyring σ where
  store := store
  calls := fun _ => ⟨.load { value := 0 }, .cancelled, .lost, .dropped⟩
  next := 0
  queue := []
  sender := .available
  thread := .receiving
  performed := []

/-- What a caller is told whose response is lost. -/
def lostError : OperationPhase → SafeErrorCode
  | .started | .completed => .pendingOperationRecoveryRequired
  | .queued | .cancelled => .keyringUnavailable

/-- The guard of a dropped future swaps the phase if it is still queued. -/
def cancel : OperationPhase → OperationPhase
  | .queued => .cancelled
  | phase => phase

section
variable (store : SecretStore σ) (s : Keyring σ)

/-- One atomic step of a caller or the thread. -/
inductive Step : Keyring σ → Prop
  -- the callers
  | submit (request : KeyringRequest) (available : s.sender = .available)
      (alive : ¬ s.thread.Gone) (room : s.queue.length < keyringQueueCapacity) :
      Step (s.accept request)
  | refuse (request : KeyringRequest)
      (refused : s.sender ≠ .available ∨ s.thread.Gone ∨ keyringQueueCapacity ≤ s.queue.length) :
      -- the guard is still armed when the call fails at once
      Step (s.add ⟨request, .cancelled, .lost, .returned (.error .keyringUnavailable)⟩)
  | receive {call : Nat} {answer : KeyringAnswer} (made : call < s.next)
      (waiting : (s.calls call).future = .waiting) (sent : (s.calls call).response = .sent answer) :
      Step (s.update call fun c => { c with future := .returned (.ok answer) })
  | lose {call : Nat} (made : call < s.next)
      (waiting : (s.calls call).future = .waiting) (lost : (s.calls call).response = .lost) :
      Step (s.update call fun c => { c with future := .returned (.error (lostError c.phase)) })
  | drop {call : Nat} (made : call < s.next) (waiting : (s.calls call).future = .waiting) :
      Step (s.update call fun c => { c with phase := cancel c.phase, future := .dropped })
  -- closing
  | takeSender (available : s.sender = .available) : Step { s with sender := .taken }
  | signalClose (taken : s.sender = .taken) (alive : ¬ s.thread.Gone)
      (room : s.queue.length < keyringQueueCapacity) :
      Step { s with sender := .dropped, queue := s.queue ++ [.close] }
  | dropSender (taken : s.sender = .taken)
      (full : s.thread.Gone ∨ keyringQueueCapacity ≤ s.queue.length) :
      Step { s with sender := .dropped }
  -- the thread
  | take {call : Nat} {rest : List KeyringMessage} (ready : s.thread = .receiving)
      (queue : s.queue = .request call :: rest) :
      Step { s with thread := .took call, queue := rest }
  | meetClose {rest : List KeyringMessage} (ready : s.thread = .receiving)
      (queue : s.queue = .close :: rest) : Step { s with thread := .leaving, queue := rest }
  | hangUp (ready : s.thread = .receiving) (queue : s.queue = []) (dropped : s.sender = .dropped) :
      Step { s with thread := .leaving }
  | begin {call : Nat} (took : s.thread = .took call)
      (carries : (s.calls call).request.carriesPhase = true)
      (phase : (s.calls call).phase = .queued) :
      Step { s.update call fun c => { c with phase := .started } with thread := .started call }
  | skip {call : Nat} (took : s.thread = .took call)
      (carries : (s.calls call).request.carriesPhase = true)
      (phase : (s.calls call).phase ≠ .queued) :
      Step { s.update call fun c => { c with response := .lost } with thread := .receiving }
  | beginLoad {call : Nat} (took : s.thread = .took call)
      (carries : (s.calls call).request.carriesPhase = false) :
      Step { s with thread := .started call }
  | perform {call : Nat} {answer : KeyringAnswer} {after : σ} (started : s.thread = .started call)
      (performed : store.perform (s.calls call).request s.store = (answer, after)) :
      Step { s with
        store := after, thread := .performed call answer
        performed := s.performed ++ [(call, answer)] }
  | finish {call : Nat} {answer : KeyringAnswer} (performed : s.thread = .performed call answer) :
      Step { s.update call fun c =>
          { c with phase := if c.request.carriesPhase then .completed else c.phase } with
        thread := .finished call answer }
  | respond {call : Nat} {answer : KeyringAnswer} (finished : s.thread = .finished call answer) :
      Step { s.update call fun c => { c with response := .sent answer } with thread := .receiving }
  | complete (leaving : s.thread = .leaving) : Step (s.endThread .stopped [])
  | crash {call : Nat} (after : σ) (started : s.thread = .started call) :
      Step { s.endThread (.crashed call) [call] with store := after }

end

/-- What closing may return once it has taken the sender: it waits until the thread has told that
it is done, or the deadline is over. -/
inductive CloseReturns (s : Keyring σ) : Except SafeErrorCode Unit → Prop
  | completed (taken : s.sender ≠ .available) (stopped : s.thread = .stopped) :
      CloseReturns s (.ok ())
  | unavailable {call : Nat} (taken : s.sender ≠ .available) (crashed : s.thread = .crashed call) :
      CloseReturns s (.error .keyringUnavailable)
  | timeout (taken : s.sender ≠ .available) :
      CloseReturns s (.error .pendingOperationRecoveryRequired)

/-- The states of all runs. -/
inductive Reached (store : SecretStore σ) (initial : σ) : Keyring σ → Prop
  | start : Reached store initial (.start initial)
  | next {s t : Keyring σ} : Reached store initial s → Step store s t → Reached store initial t

end Keyring

end HarvestCircle
