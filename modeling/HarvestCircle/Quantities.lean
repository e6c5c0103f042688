import HarvestCircle.RecipientHistory

/-! # Quantities that were corrected later

What left, and what a count found missing, is recorded once.  Corrections are appended: a
departure turns out to have been larger, or some of it is found again; a counted loss
turns out to have been a departure nobody had recorded, and that explanation may itself
be corrected.  None of this touches the original.

An account is what such a history adds up to.  It can only be had by replaying the
history from its original, so every account carries the replay it came from.
-/
namespace HarvestCircle
open Checked

inductive CorrectionError where
  | capacity
  | invalidHistory
  | invalidQuantity
  | duplicate
  | returnConflict
  | accounting
  deriving DecidableEq, Repr

/-- There have to be packs. -/
def positive (packs : WholePacks) : Except CorrectionError Unit :=
  refuse (packs.value = 0) .invalidQuantity

def addPacks (a b : WholePacks) : Except CorrectionError WholePacks :=
  mapErr (fun _ => .invalidQuantity) (a.checkedAdd b)

def subPacks (a b : WholePacks) : Except CorrectionError WholePacks :=
  mapErr (fun _ => .invalidQuantity) (a.checkedSub b)

@[simp] theorem positive_eq_ok {packs : WholePacks} {u : Unit} :
    positive packs = .ok u ↔ 0 < packs.value := by
  rw [positive, refuse_eq_ok, Nat.pos_iff_ne_zero]

variable {a b c : WholePacks}

@[simp] theorem addPacks_eq_ok : addPacks a b = .ok c ↔ c.value = a.value + b.value := by
  rw [addPacks, mapErr_eq_ok, WholePacks.checkedAdd_eq_ok]

@[simp] theorem subPacks_eq_ok : subPacks a b = .ok c ↔ a.value = b.value + c.value := by
  rw [subPacks, mapErr_eq_ok, WholePacks.checkedSub_eq_ok]

/-! ## Departures -/

/-- One line of a departure as it was recorded. -/
structure OriginalDepartureQuantity where
  operation : HubRecordId
  group : HubRecordId
  trace : HubRecordId
  variant : HubRecordId
  stockRevision : HubRevision
  packs : WholePacks
  deriving DecidableEq, Repr

/-- More left, or some was found. -/
inductive DepartureQuantityDelta where
  | additionalDeparture (packs : WholePacks)
  | identifiedFoundRemainder (packs : WholePacks)
  deriving DecidableEq, Repr

namespace DepartureQuantityDelta

def packs : DepartureQuantityDelta → WholePacks
  | additionalDeparture packs => packs
  | identifiedFoundRemainder packs => packs

/-- The packs that left in addition. -/
def added : DepartureQuantityDelta → Nat
  | additionalDeparture packs => packs.value
  | identifiedFoundRemainder _ => 0

/-- The packs that were found again. -/
def recovered : DepartureQuantityDelta → Nat
  | additionalDeparture _ => 0
  | identifiedFoundRemainder packs => packs.value

end DepartureQuantityDelta

/-- A change of the effective quantity. -/
structure DepartureQuantityAmendment where
  operation : HubRecordId
  stockRevision : HubRevision
  before : WholePacks
  after : WholePacks
  delta : DepartureQuantityDelta
  deriving DecidableEq, Repr

/-- What the amendments so far add up to. -/
structure DepartureLedger where
  effective : WholePacks
  additional : WholePacks
  found : WholePacks
  revision : HubRevision
  operations : Finset HubRecordId
  deriving DecidableEq

namespace DepartureLedger

def start (original : OriginalDepartureQuantity) : DepartureLedger where
  effective := original.packs
  additional := .zero
  found := .zero
  revision := original.stockRevision
  operations := {original.operation}

/-- The totals with a delta: what still counts, what was added, what was found. -/
def apply (ledger : DepartureLedger) :
    DepartureQuantityDelta → Except CorrectionError (WholePacks × WholePacks × WholePacks)
  | .additionalDeparture packs => do
    positive packs
    let additional ← addPacks ledger.additional packs
    let effective ← addPacks ledger.effective packs
    return (effective, additional, ledger.found)
  | .identifiedFoundRemainder packs => do
    positive packs
    let found ← addPacks ledger.found packs
    let effective ← subPacks ledger.effective packs
    return (effective, ledger.additional, found)

variable {ledger : DepartureLedger}

theorem apply_eq_ok {delta : DepartureQuantityDelta} {effective additional found : WholePacks} :
    ledger.apply delta = .ok (effective, additional, found) ↔ 0 < delta.packs.value ∧
      additional.value = ledger.additional.value + delta.added ∧
      found.value = ledger.found.value + delta.recovered ∧
      effective.value + delta.recovered = ledger.effective.value + delta.added := by
  cases delta with
  | additionalDeparture packs =>
    simp only [apply, accepted, positive_eq_ok, addPacks_eq_ok, Prod.mk.injEq,
      DepartureQuantityDelta.packs, DepartureQuantityDelta.added, DepartureQuantityDelta.recovered,
      Nat.add_zero]
    constructor
    · rintro ⟨hpos, a, ha, e, he, rfl, rfl, rfl⟩
      exact ⟨hpos, ha, rfl, he⟩
    · rintro ⟨hpos, ha, hf, he⟩
      exact ⟨hpos, additional, ha, effective, he, rfl, rfl, (WholePacks.ext hf).symm⟩
  | identifiedFoundRemainder packs =>
    simp only [apply, accepted, positive_eq_ok, addPacks_eq_ok, subPacks_eq_ok, Prod.mk.injEq,
      DepartureQuantityDelta.packs, DepartureQuantityDelta.added, DepartureQuantityDelta.recovered,
      Nat.add_zero]
    constructor
    · rintro ⟨hpos, f, hf, e, he, rfl, rfl, rfl⟩
      exact ⟨hpos, rfl, hf, by omega⟩
    · rintro ⟨hpos, ha, hf, he⟩
      exact ⟨hpos, found, hf, effective, by omega, rfl, (WholePacks.ext ha).symm, rfl⟩

def enter (ledger : DepartureLedger) (change : DepartureQuantityAmendment) :
    Except CorrectionError DepartureLedger := do
  refuse (change.operation ∈ ledger.operations) .duplicate
  refuse (change.stockRevision.value ≤ ledger.revision.value ∨ change.before ≠ ledger.effective)
    .invalidHistory
  let (effective, additional, found) ← ledger.apply change.delta
  refuse (change.after ≠ effective) .invalidHistory
  return {
    effective, additional, found, revision := change.stockRevision
    operations := insert change.operation ledger.operations }

/-- What one amendment does to the ledger. -/
structure Enters (ledger : DepartureLedger) (change : DepartureQuantityAmendment)
    (ledger' : DepartureLedger) : Prop where
  fresh : change.operation ∉ ledger.operations
  later : ledger.revision.value < change.stockRevision.value
  before_eq : change.before = ledger.effective
  positive : 0 < change.delta.packs.value
  additional_eq : ledger'.additional.value = ledger.additional.value + change.delta.added
  found_eq : ledger'.found.value = ledger.found.value + change.delta.recovered
  effective_eq : ledger'.effective.value + change.delta.recovered =
    ledger.effective.value + change.delta.added
  after_eq : ledger'.effective = change.after
  revision_eq : ledger'.revision = change.stockRevision
  operations_eq : ledger'.operations = insert change.operation ledger.operations

variable {change : DepartureQuantityAmendment} {ledger' : DepartureLedger}
  {amendments : List DepartureQuantityAmendment} {original : OriginalDepartureQuantity}

theorem enter_eq_ok : ledger.enter change = .ok ledger' ↔ ledger.Enters change ledger' := by
  simp only [enter, accepted, passed, Prod.exists, apply_eq_ok]
  constructor
  · rintro ⟨hfresh, ⟨hlater, hbefore⟩, effective, additional, found,
      ⟨hpos, hadditional, hfound, heffective⟩, hafter, rfl⟩
    exact ⟨hfresh, hlater, hbefore, hpos, hadditional, hfound, heffective, hafter.symm, rfl, rfl⟩
  · obtain ⟨effective, additional, found, revision, operations⟩ := ledger'
    rintro ⟨hfresh, hlater, hbefore, hpos, hadditional, hfound, heffective, hafter, rfl, rfl⟩
    exact ⟨hfresh, ⟨hlater, hbefore⟩, effective, additional, found,
      ⟨hpos, hadditional, hfound, heffective⟩, hafter.symm, rfl⟩

/-- What the ledger knows of the amendments it was replayed from. -/
structure Replayed (original : OriginalDepartureQuantity)
    (amendments : List DepartureQuantityAmendment)
    (ledger : DepartureLedger) : Prop where
  nodup : (original.operation :: amendments.map fun change => change.operation).Nodup
  operations_eq : ∀ operation, operation ∈ ledger.operations ↔
    operation ∈ original.operation :: amendments.map fun change => change.operation
  revision_ge : original.stockRevision.value ≤ ledger.revision.value
  revision_le : ∀ change ∈ amendments, change.stockRevision.value ≤ ledger.revision.value
  later : ∀ change ∈ amendments, original.stockRevision.value < change.stockRevision.value
  additional_eq : ledger.additional.value = (amendments.map fun change => change.delta.added).sum
  found_eq : ledger.found.value = (amendments.map fun change => change.delta.recovered).sum
  effective_eq : ledger.effective.value + ledger.found.value =
    original.packs.value + ledger.additional.value

theorem replayed_start (original : OriginalDepartureQuantity) :
    Replayed original [] (start original) where
  nodup := by simp
  operations_eq := by simp [start]
  revision_ge := Nat.le_refl _
  revision_le := by simp
  later := by simp
  additional_eq := rfl
  found_eq := rfl
  effective_eq := rfl

theorem Replayed.enter (h : Replayed original amendments ledger)
    (henters : ledger.Enters change ledger') :
    Replayed original (amendments ++ [change]) ledger' where
  nodup := by
    rw [List.map_append, List.map_singleton, ← List.cons_append, List.nodup_append]
    refine ⟨h.nodup, List.nodup_singleton _, fun a ha b hb => ?_⟩
    rw [List.mem_singleton.mp hb]
    rintro rfl
    exact henters.fresh ((h.operations_eq _).mpr ha)
  operations_eq operation := by
    rw [henters.operations_eq, Finset.mem_insert, h.operations_eq, List.map_append,
      List.map_singleton, ← List.cons_append, List.mem_append, List.mem_singleton, or_comm]
  revision_ge := by
    rw [henters.revision_eq]
    exact h.revision_ge.trans henters.later.le
  revision_le other hother := by
    rw [henters.revision_eq]
    rcases List.mem_append.mp hother with hother | hother
    · exact (h.revision_le other hother).trans henters.later.le
    · rw [List.mem_singleton.mp hother]
  later other hother := by
    rcases List.mem_append.mp hother with hother | hother
    · exact h.later other hother
    · rw [List.mem_singleton.mp hother]
      exact h.revision_ge.trans_lt henters.later
  additional_eq := by simp [henters.additional_eq, h.additional_eq]
  found_eq := by simp [henters.found_eq, h.found_eq]
  effective_eq := by
    have hadditional := henters.additional_eq
    have hfound := henters.found_eq
    have heffective := henters.effective_eq
    have hbefore := h.effective_eq
    omega

theorem replayed_of_foldlM (h : amendments.foldlM enter (start original) = .ok ledger) :
    Replayed original amendments ledger :=
  foldlM_invariant (Replayed original) (replayed_start original)
    (fun _ _ _ _ _ _ hdone hstep => hdone.enter (enter_eq_ok.mp hstep)) h

/-- The amendments of a line, replayed; what has come back is at most what still counts. -/
def replay (original : OriginalDepartureQuantity) (amendments : List DepartureQuantityAmendment)
    (establishedReturns : WholePacks) : Except CorrectionError DepartureLedger := do
  refuse (amendments.length > hubCorrectionRows) .capacity
  refuse (original.packs.value = 0 ∨ original.stockRevision = .initial) .invalidHistory
  let ledger ← amendments.foldlM enter (start original)
  refuse (establishedReturns.value > ledger.effective.value) .returnConflict
  return ledger

end DepartureLedger

/-- A line with its amendments, and the totals of their replay. -/
structure DepartureQuantityAccount where
  original : OriginalDepartureQuantity
  amendments : List DepartureQuantityAmendment
  effective : WholePacks
  additional : WholePacks
  found : WholePacks
  establishedReturns : WholePacks
  restored : ∃ ledger, DepartureLedger.replay original amendments establishedReturns = .ok ledger ∧
    ledger.effective = effective ∧ ledger.additional = additional ∧ ledger.found = found
  deriving DecidableEq

def DepartureQuantityAccount.restore (original : OriginalDepartureQuantity)
    (amendments : List DepartureQuantityAmendment) (establishedReturns : WholePacks) :
    Except CorrectionError DepartureQuantityAccount := do
  let ledger ← attach (DepartureLedger.replay original amendments establishedReturns)
  return {
    original, amendments, establishedReturns
    effective := ledger.1.effective, additional := ledger.1.additional, found := ledger.1.found
    restored := ⟨ledger.1, ledger.2, rfl, rfl, rfl⟩ }

namespace DepartureQuantityAccount

/-- The ledger that an account was read from. -/
theorem exists_ledger (account : DepartureQuantityAccount) : ∃ ledger : DepartureLedger,
    account.amendments.foldlM DepartureLedger.enter (.start account.original) = .ok ledger ∧
    DepartureLedger.Replayed account.original account.amendments ledger ∧
      ledger.effective = account.effective ∧
    account.amendments.length ≤ hubCorrectionRows ∧ 0 < account.original.packs.value ∧
    account.original.stockRevision ≠ .initial ∧
    account.establishedReturns.value ≤ account.effective.value := by
  obtain ⟨ledger, hreplay, heffective, -, -⟩ := account.restored
  simp only [DepartureLedger.replay, accepted, passed] at hreplay
  obtain ⟨hlength, ⟨hpacks, hinitial⟩, entered, hloop, hreturns, rfl⟩ := hreplay
  exact ⟨entered, hloop, DepartureLedger.replayed_of_foldlM hloop, heffective, hlength,
    Nat.pos_of_ne_zero hpacks, hinitial, heffective ▸ hreturns⟩

theorem restore_eq_ok {original : OriginalDepartureQuantity}
    {amendments : List DepartureQuantityAmendment} {establishedReturns : WholePacks}
    {account : DepartureQuantityAccount}
    (h : restore original amendments establishedReturns = .ok account) :
    account.original = original ∧ account.amendments = amendments ∧
    account.establishedReturns = establishedReturns := by
  obtain ⟨_, _, haccount⟩ := attach_bind_eq_ok.mp h
  rw [pure_eq_ok] at haccount
  exact haccount ▸ ⟨rfl, rfl, rfl⟩

end DepartureQuantityAccount

/-! ## Counted losses -/

/-- The shortage as it was counted. -/
structure OriginalCountLossQuantity where
  reconciliation : HubRecordId
  operation : HubRecordId
  stockRevision : HubRevision
  trace : HubRecordId
  variant : HubRecordId
  packs : WholePacks
  deriving DecidableEq, Repr

/-- A departure that explains part of a counted loss. -/
structure CountLossExplanation where
  operation : HubRecordId
  stockRevision : HubRevision
  packs : WholePacks
  deriving DecidableEq, Repr

/-- A change of what an explanation explains. -/
structure CountExplanationAmendment where
  operation : HubRecordId
  stockRevision : HubRevision
  explanation : HubRecordId
  before : WholePacks
  after : WholePacks
  deriving DecidableEq, Repr

structure CountExplanationReturns where
  explanation : HubRecordId
  packs : WholePacks
  deriving DecidableEq, Repr

/-- What an explanation still explains. -/
structure EffectiveCountExplanation where
  original : CountLossExplanation
  packs : WholePacks
  establishedReturns : WholePacks
  deriving DecidableEq, Repr

/-- Explanations and their amendments are replayed together, in the order of their revisions. -/
inductive CountLossEvent where
  | explain (item : CountLossExplanation)
  | amend (item : CountExplanationAmendment)
  deriving DecidableEq, Repr

namespace CountLossEvent

def revision : CountLossEvent → Nat
  | explain item => item.stockRevision.value
  | amend item => item.stockRevision.value

def operation : CountLossEvent → HubRecordId
  | explain item => item.operation
  | amend item => item.operation

/-- Amendments come after explanations of the same revision. -/
def place : CountLossEvent → Nat ×ₗ Bool
  | explain item => toLex (item.stockRevision.value, false)
  | amend item => toLex (item.stockRevision.value, true)

end CountLossEvent

/-- What the events so far add up to. -/
structure CountLossLedger where
  quantities : Std.TreeMap HubRecordId WholePacks
  explained : WholePacks
  revision : Nat
  operations : Finset HubRecordId

namespace CountLossLedger

def start (original : OriginalCountLossQuantity) : CountLossLedger where
  quantities := ∅
  explained := .zero
  revision := original.stockRevision.value
  operations := {original.operation}

/-- The quantities after one event, and the packs explained then. -/
def account (ledger : CountLossLedger) :
    CountLossEvent → Except CorrectionError (Std.TreeMap HubRecordId WholePacks × WholePacks)
  | .amend item => do
    let current ← okOr ledger.quantities[item.explanation]? .invalidHistory
    refuse (current ≠ item.before ∨ item.before = item.after) .invalidHistory
    let others ← subPacks ledger.explained current
    let explained ← addPacks others item.after
    return (ledger.quantities.insert item.explanation item.after, explained)
  | .explain item => do
    positive item.packs
    let explained ← addPacks ledger.explained item.packs
    return (ledger.quantities.insert item.operation item.packs, explained)

def enter (original : OriginalCountLossQuantity) (ledger : CountLossLedger)
    (event : CountLossEvent) :
    Except CorrectionError CountLossLedger := do
  refuse (event.revision ≤ ledger.revision) .invalidHistory
  let (quantities, explained) ← ledger.account event
  refuse (event.operation ∈ ledger.operations) .duplicate
  refuse (explained.value > original.packs.value) .invalidQuantity
  return {
    quantities, explained, revision := event.revision
    operations := insert event.operation ledger.operations }

/-- The linked returns of each explanation, at most one total each. -/
def reserve (ledger : CountLossLedger) (reservations : Std.TreeMap HubRecordId WholePacks)
    (reservation : CountExplanationReturns) :
    Except CorrectionError (Std.TreeMap HubRecordId WholePacks) := do
  let current ← okOr ledger.quantities[reservation.explanation]? .invalidHistory
  refuse (reservations[reservation.explanation]?.isSome = true) .duplicate
  refuse (reservation.packs.value > current.value) .returnConflict
  return reservations.insert reservation.explanation reservation.packs

end CountLossLedger

def countLossEvents (explanations : List CountLossExplanation)
    (amendments : List CountExplanationAmendment) : List CountLossEvent :=
  (explanations.map CountLossEvent.explain ++ amendments.map CountLossEvent.amend).insertionSort
    fun a b => a.place ≤ b.place

/-- What the replay of a counted loss ends with. -/
structure CountLossTotals where
  effective : List EffectiveCountExplanation
  unexplained : WholePacks
  explained : WholePacks
  deriving DecidableEq, Repr

def CountLossLedger.replay (original : OriginalCountLossQuantity)
    (explanations : List CountLossExplanation) (amendments : List CountExplanationAmendment)
    (returns : List CountExplanationReturns) : Except CorrectionError CountLossTotals := do
  refuse (explanations.length + amendments.length > hubCorrectionRows ∨
    returns.length > hubCorrectionRows) .capacity
  positive original.packs
  refuse (original.stockRevision = .initial) .invalidHistory
  refuse (¬ (original.stockRevision.value ::
    explanations.map fun item => item.stockRevision.value).IsChain (· < ·)) .invalidHistory
  refuse (¬ (original.stockRevision.value ::
    amendments.map fun item => item.stockRevision.value).IsChain (· < ·)) .invalidHistory
  let ledger ← (countLossEvents explanations amendments).foldlM (CountLossLedger.enter original)
    (CountLossLedger.start original)
  let reservations ← returns.foldlM ledger.reserve ∅
  let unexplained ← subPacks original.packs ledger.explained
  return {
    -- every explanation was entered, so it has a quantity
    effective := explanations.map fun item => {
      original := item
      packs := ledger.quantities[item.operation]?.getD .zero
      establishedReturns := reservations[item.operation]?.getD .zero }
    unexplained, explained := ledger.explained }

/-- A counted loss with its explanations, and the totals of their replay. -/
structure CountLossQuantityAccount where
  original : OriginalCountLossQuantity
  explanations : List CountLossExplanation
  amendments : List CountExplanationAmendment
  effective : List EffectiveCountExplanation
  unexplained : WholePacks
  explained : WholePacks
  restored : ∃ returns, CountLossLedger.replay original explanations amendments returns =
    .ok ⟨effective, unexplained, explained⟩
  deriving DecidableEq

namespace CountLossQuantityAccount

/-- The whole history, with what has come back since. -/
def restoreCorrected (original : OriginalCountLossQuantity)
    (explanations : List CountLossExplanation) (amendments : List CountExplanationAmendment)
    (returns : List CountExplanationReturns) : Except CorrectionError CountLossQuantityAccount := do
  let totals ← attach (CountLossLedger.replay original explanations amendments returns)
  return {
    original, explanations, amendments
    effective := totals.1.effective, unexplained := totals.1.unexplained
    explained := totals.1.explained
    restored := ⟨returns, totals.2⟩ }

/-- The operations that explain the loss or correct an explanation. -/
def operations (account : CountLossQuantityAccount) : List HubRecordId :=
  account.explanations.map CountLossExplanation.operation ++
    account.amendments.map CountExplanationAmendment.operation

end CountLossQuantityAccount

theorem countLossEvents_perm (explanations : List CountLossExplanation)
    (amendments : List CountExplanationAmendment) :
    (countLossEvents explanations amendments).Perm
      (explanations.map CountLossEvent.explain ++ amendments.map CountLossEvent.amend) :=
  List.perm_insertionSort _ _

theorem countLossEvents_operations (explanations : List CountLossExplanation)
    (amendments : List CountExplanationAmendment) :
    ((countLossEvents explanations amendments).map CountLossEvent.operation).Perm
      (explanations.map CountLossExplanation.operation ++
        amendments.map CountExplanationAmendment.operation) := by
  refine ((countLossEvents_perm explanations amendments).map _).trans (.of_eq ?_)
  rw [List.map_append, List.map_map, List.map_map]
  rfl

/-- No operation enters twice. -/
theorem CountLossLedger.foldlM_operations {original : OriginalCountLossQuantity}
    {events : List CountLossEvent} {ledger : CountLossLedger}
    (h : events.foldlM (enter original) (start original) = .ok ledger) :
    (original.operation :: events.map CountLossEvent.operation).Nodup ∧
      ∀ id, id ∈ ledger.operations ↔
        id ∈ original.operation :: events.map CountLossEvent.operation := by
  refine foldlM_invariant (fun done ledger =>
    (original.operation :: done.map CountLossEvent.operation).Nodup ∧
      ∀ id, id ∈ ledger.operations ↔ id ∈ original.operation :: done.map CountLossEvent.operation)
    ⟨by simp, by simp [start]⟩ ?_ h
  rintro done event rest ledger ledger' - ⟨hnodup, hmem⟩ henter
  simp only [enter, accepted] at henter
  obtain ⟨-, totals, -, hfresh, -, rfl⟩ := henter
  rw [hmem] at hfresh
  rw [List.map_append, List.map_singleton, ← List.cons_append]
  refine ⟨?_, fun id => ?_⟩
  · rw [List.nodup_append]
    refine ⟨hnodup, List.nodup_singleton _, fun a ha b hb => ?_⟩
    rw [List.mem_singleton.mp hb]
    rintro rfl
    exact hfresh ha
  · rw [Finset.mem_insert, hmem, List.mem_append, List.mem_singleton, or_comm]

namespace CountLossQuantityAccount
variable (account : CountLossQuantityAccount)

/-- The effective explanations are the original ones, in their order. -/
theorem effective_originals : account.effective.map EffectiveCountExplanation.original =
    account.explanations := by
  obtain ⟨returns, h⟩ := account.restored
  simp only [CountLossLedger.replay, bind_eq_ok, pure_eq_ok, CountLossTotals.mk.injEq] at h
  obtain ⟨-, -, -, -, -, -, -, -, -, -, ledger, -, reservations, -, unexplained, -, heffective,
    -⟩ := h
  rw [← heffective, List.map_map]
  exact List.map_id _

/-- No operation twice among the explanations, their amendments and the loss itself. -/
theorem operations_nodup : (account.original.operation :: account.operations).Nodup := by
  obtain ⟨returns, h⟩ := account.restored
  simp only [CountLossLedger.replay, bind_eq_ok] at h
  obtain ⟨-, -, -, -, -, -, -, -, -, -, ledger, hledger, -⟩ := h
  have hnodup := (CountLossLedger.foldlM_operations hledger).1
  exact ((countLossEvents_operations _ _).cons _).nodup_iff.mp hnodup

end CountLossQuantityAccount

end HarvestCircle
