import Mathlib.Data.List.Sort
import HarvestCircle.AppCore
import HarvestCircle.Submission

/-! # The stream of snapshot changes

Every accepted snapshot goes to each subscriber twice: into a bounded queue, where it is
dropped when the queue is full, and into a cell that always holds the latest one.  A
receiver takes from the queue first and looks at the cell when the queue is empty, and
it passes on only what is newer than what it passed on last.

The receiver's loop is not atomic.  `ReceiveStage` says which channel it will read next,
and other steps can come in between.  What was accepted since the subscription and what
was delivered are kept beside the state.
-/
namespace HarvestCircle

/-! ## Snapshots and their order -/

/-- The session a snapshot was taken in. -/
structure RuntimeSessionBinding where
  incarnation : HubRuntimeIncarnation
  generation : SessionGeneration
  deriving DecidableEq, Repr

/-- A snapshot as it is published, with the runtime session it was taken in. -/
structure PublishedSnapshot extends AppSnapshot where
  runtimeSession : Option RuntimeSessionBinding
  deriving DecidableEq, Repr

namespace PublishedSnapshot

/-- How the sessions of a later snapshot follow those of an earlier one, given whether the
revision advanced. -/
def SessionFollows (advanced : Prop) :
    Option RuntimeSessionBinding → Option RuntimeSessionBinding → Prop
  | none, none => advanced
  | none, some _ => True
  | some _, none => False
  | some before, some after => before.incarnation = after.incarnation ∧
      after.generation.value ≥ before.generation.value ∧
      (advanced ∨ after.generation.value > before.generation.value)

instance (advanced : Prop) [Decidable advanced] :
    ∀ before after, Decidable (SessionFollows advanced before after)
  | none, none => inferInstanceAs (Decidable advanced)
  | none, some _ => inferInstanceAs (Decidable True)
  | some _, none => inferInstanceAs (Decidable False)
  | some _, some _ => inferInstanceAs (Decidable (_ ∧ _))

/-- Core revisions and runtime generations never move backwards. -/
def IsNewerThan (snapshot previous : PublishedSnapshot) : Prop :=
  ¬ snapshot.revision.value < previous.revision.value ∧
  SessionFollows (snapshot.revision.value > previous.revision.value) previous.runtimeSession
    snapshot.runtimeSession

instance (snapshot previous : PublishedSnapshot) : Decidable (snapshot.IsNewerThan previous) :=
  inferInstanceAs (Decidable (_ ∧ _))

theorem IsNewerThan.revision_le {snapshot previous : PublishedSnapshot}
    (h : snapshot.IsNewerThan previous) : previous.revision.value ≤ snapshot.revision.value :=
  not_lt.mp h.1

theorem not_isNewerThan_self (snapshot : PublishedSnapshot) : ¬ snapshot.IsNewerThan snapshot := by
  rintro ⟨-, h⟩
  cases hsession : snapshot.runtimeSession with
  | none => simp [hsession, SessionFollows] at h
  | some binding => simp [hsession, SessionFollows] at h

theorem IsNewerThan.trans {a b c : PublishedSnapshot} (hab : b.IsNewerThan a)
    (hbc : c.IsNewerThan b) : c.IsNewerThan a := by
  obtain ⟨hrevision, hsession⟩ := hab
  obtain ⟨hrevision', hsession'⟩ := hbc
  refine ⟨by omega, ?_⟩
  cases ha : a.runtimeSession with
  | none =>
    cases hc : c.runtimeSession with
    | some => trivial
    | none =>
      -- a session is not left again, so all three have none
      cases hb : b.runtimeSession with
      | some => simp [hb, hc, SessionFollows] at hsession'
      | none =>
        simp only [ha, hb, hc, SessionFollows] at hsession hsession' ⊢
        omega
  | some before =>
    cases hb : b.runtimeSession with
    | none => simp [ha, hb, SessionFollows] at hsession
    | some between =>
      cases hc : c.runtimeSession with
      | none => simp [hb, hc, SessionFollows] at hsession'
      | some after =>
        simp only [ha, hb, hc, SessionFollows] at hsession hsession' ⊢
        exact ⟨hsession.1.trans hsession'.1, by omega, by omega⟩

end PublishedSnapshot

/-- A snapshot and the revision it follows. -/
structure SnapshotChange where
  snapshot : PublishedSnapshot
  previousRevision : Option SnapshotRevision
  deriving DecidableEq, Repr

def SnapshotChange.revision (change : SnapshotChange) : SnapshotRevision := change.snapshot.revision

/-- Changes were left out since the observed revision. -/
def SnapshotChange.RecoversGapAfter (change : SnapshotChange) (observed : SnapshotRevision) :
    Prop :=
  ∃ previous ∈ change.previousRevision, previous ≠ observed

instance (change : SnapshotChange) (observed : SnapshotRevision) :
    Decidable (change.RecoversGapAfter observed) :=
  inferInstanceAs (Decidable (∃ previous ∈ change.previousRevision, previous ≠ observed))

/-! ## One subscription -/

/-- Which channel the receiver reads next. -/
inductive ReceiveStage where
  /-- No call of `receive` is under way. -/
  | idle
  /-- About to try the queue. -/
  | polling
  /-- About to look at the cell; the queue was empty, and its sender there or gone. -/
  | retained (queueOpen : Bool)
  /-- About to wait for the queue. -/
  | waiting
  deriving DecidableEq, Repr

/-- A bounded queue with the latest change beside it. -/
@[ext] structure Subscription where
  capacity : Nat
  positive : 0 < capacity
  queue : List SnapshotChange
  latest : SnapshotChange
  /-- The publisher still has the sending ends. -/
  sending : Bool
  /-- The receiver still exists. -/
  receiving : Bool
  lastDelivered : Option PublishedSnapshot
  stage : ReceiveStage
  /-- All changes accepted since the subscription, and those delivered; nobody reads these. -/
  accepted : List SnapshotChange
  delivered : List SnapshotChange
  deriving Repr

namespace Subscription

def subscribe (capacity : Nat) (positive : 0 < capacity) (snapshot : PublishedSnapshot) :
    Subscription :=
  let initial : SnapshotChange := ⟨snapshot, none⟩
  { capacity, positive, queue := [initial], latest := initial, sending := true, receiving := true
    lastDelivered := none, stage := .idle, accepted := [initial], delivered := [] }

/-- The cell is overwritten before the queue is tried. -/
def send (subscription : Subscription) (change : SnapshotChange) : Subscription :=
  { subscription with
    latest := change
    queue := if subscription.queue.length < subscription.capacity then
        subscription.queue ++ [change]
      else subscription.queue
    accepted := subscription.accepted ++ [change] }

/-- Whether the change is newer than what was delivered last. -/
def Newer (subscription : Subscription) (change : SnapshotChange) : Prop :=
  ∀ delivered ∈ subscription.lastDelivered, change.snapshot.IsNewerThan delivered

instance (subscription : Subscription) (change : SnapshotChange) :
    Decidable (subscription.Newer change) :=
  inferInstanceAs (Decidable (∀ delivered ∈ subscription.lastDelivered,
    change.snapshot.IsNewerThan delivered))

/-- The call of `receive` returns the change. -/
def deliver (subscription : Subscription) (change : SnapshotChange) : Subscription :=
  { subscription with
    lastDelivered := some change.snapshot
    stage := .idle
    delivered := subscription.delivered ++ [change] }

/-- A change taken from the queue is delivered if it is newer, or else the loop goes on. -/
def take (subscription : Subscription) (change : SnapshotChange) (rest : List SnapshotChange) :
    Subscription :=
  let subscription := { subscription with queue := rest }
  if subscription.Newer change then subscription.deliver change
  else { subscription with stage := .polling }

/-- One read of the receiver.  `none` inside: the call returned `None`. -/
def advance (subscription : Subscription) : Subscription × Option (Option SnapshotChange) :=
  match subscription.stage with
  | .idle => ({ subscription with stage := .polling }, none)
  | .polling =>
    match subscription.queue with
    | change :: rest =>
      (subscription.take change rest,
        if subscription.Newer change then some (some change) else none)
    | [] => ({ subscription with stage := .retained subscription.sending }, none)
  | .retained queueOpen =>
    let change := subscription.latest
    if subscription.Newer change then (subscription.deliver change, some (some change))
    else if queueOpen then ({ subscription with stage := .waiting }, none)
    else ({ subscription with stage := .idle }, some none)
  | .waiting =>
    match subscription.queue with
    | change :: rest =>
      (subscription.take change rest,
        if subscription.Newer change then some (some change) else none)
    -- an empty queue wakes the receiver only when its sender is gone
    | [] => if subscription.sending then (subscription, none)
      else ({ subscription with stage := .polling }, none)

/-- A call that waits can be dropped. -/
def cancel (subscription : Subscription) : Subscription :=
  if subscription.stage = .waiting then { subscription with stage := .idle } else subscription

/-- The receiver waits and nothing wakes it. -/
def Blocked (subscription : Subscription) : Prop :=
  subscription.stage = .waiting ∧ subscription.queue = [] ∧ subscription.sending = true

end Subscription

/-! ## The publisher and its subscribers -/

/-- The publisher with its subscriptions. -/
structure OrderedSnapshotChanges where
  latest : PublishedSnapshot
  nextSubscription : Nat
  closed : Bool
  /-- The receivers, with what the publisher has of each. -/
  subscriptions : Nat → Option Subscription

namespace OrderedSnapshotChanges

def new (initialSnapshot : PublishedSnapshot) : OrderedSnapshotChanges where
  latest := initialSnapshot
  nextSubscription := 1
  closed := false
  subscriptions := fun _ => none

/-- Change one subscription. -/
def modify (changes : OrderedSnapshotChanges) (id : Nat) (f : Subscription → Subscription) :
    OrderedSnapshotChanges :=
  { changes with subscriptions := fun other =>
      if other = id then (changes.subscriptions id).map f else changes.subscriptions other }

def subscribe (changes : OrderedSnapshotChanges) (capacity : Nat) (positive : 0 < capacity) :
    OrderedSnapshotChanges :=
  if changes.closed ∨ ¬ changes.nextSubscription + 1 < 2 ^ 64 then changes
  else { changes with
    nextSubscription := changes.nextSubscription + 1
    subscriptions := fun other =>
      if other = changes.nextSubscription then some (.subscribe capacity positive changes.latest)
      else changes.subscriptions other }

def unsubscribe (changes : OrderedSnapshotChanges) (id : Nat) : OrderedSnapshotChanges :=
  changes.modify id fun subscription => { subscription with sending := false }

/-- A subscriber whose receiver is gone is forgotten. -/
def retain (subscription : Subscription) : Subscription :=
  if subscription.receiving then subscription else { subscription with sending := false }

def publish (changes : OrderedSnapshotChanges) (snapshot : PublishedSnapshot) :
    OrderedSnapshotChanges :=
  have changes := { changes with subscriptions := fun id => (changes.subscriptions id).map retain }
  if changes.closed = true ∨ ¬ snapshot.IsNewerThan changes.latest then changes
  else
    let change : SnapshotChange := ⟨snapshot, some changes.latest.revision⟩
    { changes with
      latest := snapshot
      subscriptions := fun id => (changes.subscriptions id).map fun subscription =>
        if subscription.sending then subscription.send change else subscription }

def close (changes : OrderedSnapshotChanges) : OrderedSnapshotChanges :=
  { changes with
    closed := true
    subscriptions := fun id => (changes.subscriptions id).map fun subscription =>
      { subscription with sending := false } }

/-- What can happen next: a call of the publisher, or one read of a receiver. -/
inductive Event where
  | subscribe (capacity : Nat) (positive : 0 < capacity)
  | publish (snapshot : PublishedSnapshot)
  | close
  | unsubscribe (id : Nat)
  | advance (id : Nat)
  | cancel (id : Nat)
  | dropReceiver (id : Nat)

def apply (changes : OrderedSnapshotChanges) : Event → OrderedSnapshotChanges
  | .subscribe capacity positive => changes.subscribe capacity positive
  | .publish snapshot => changes.publish snapshot
  | .close => changes.close
  | .unsubscribe id => changes.unsubscribe id
  | .advance id => changes.modify id fun subscription =>
      if subscription.receiving then subscription.advance.1 else subscription
  | .cancel id => changes.modify id .cancel
  | .dropReceiver id => changes.modify id fun subscription =>
      { subscription with receiving := false }

/-- The state after some events, in any order and number. -/
def after (initialSnapshot : PublishedSnapshot) (events : List Event) : OrderedSnapshotChanges :=
  events.foldl apply (new initialSnapshot)

end OrderedSnapshotChanges

end HarvestCircle
