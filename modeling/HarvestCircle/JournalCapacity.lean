import Mathlib.Algebra.BigOperators.Group.List.Lemmas
import HarvestCircle.Checked
import HarvestCircle.Dispatch

/-! # Space reserved in the journal

The journal has room for so many operations, so many stock events and so many treatment
records.  Some entries are obligations: a hold will have to be released, an issued paper
closed, a report reviewed, a correction observation settled.  Room for the closing entry
is set aside with the opening one, and `checkBudget` lets a new entry in only if all of
that still fits.

The reserved room is never given away (`HubJournal.Reserved`), so whatever is outstanding
can be closed, in any order, at any time.
-/
namespace HarvestCircle
open Checked

def hubTreatmentCapacity : Nat := 16384

/-! ## The check -/

/-- What an entry takes and sets aside. -/
inductive Reservation where
  | ordinary (events : Nat)
  /-- Meaning that is appended without a physical event. -/
  | ordinaryMetadata
  /-- A report, with an operation and an event for its review. -/
  | actualReport
  /-- An observation, with its closing operation and the events it may lead to; one that
  supersedes another takes over its reservation. -/
  | correctionObserve (events : Nat) (priorEvents : Option Nat)
  | foundClosure (events : Nat)
  | countClassification (report : Bool)
  | actualReview (physical : Bool)
  | placeHold
  | releaseHold
  | openIssued
  | closeIssued
  | depart (events : Nat)
  deriving DecidableEq, Repr

/-- Set aside for open observations. -/
structure ObservationReservations where
  operations : Nat
  events : Nat
  reviews : Nat
  deriving DecidableEq, Repr

/-- What the capacity check counts. -/
structure Counters where
  correction : ObservationReservations
  operations : Nat
  actual : Nat
  primary : Nat
  opened : Nat
  issued : Nat
  events : Nat
  deriving DecidableEq, Repr

/-- What a reservation does to the space set aside for corrections. -/
structure CorrectionShift where
  events : Int
  operations : Int
  reviews : Int
  deriving DecidableEq, Repr

/-- What a reservation asks for besides, and the room it must leave. -/
structure Request where
  events : Nat
  newReservations : Int
  issuedReservations : Int
  actualReservations : Int
  safetyHeadroom : Int
  deriving DecidableEq, Repr

namespace Counters

def correctionShift (counters : Counters) : Reservation → Except SafeErrorCode CorrectionShift
  | .countClassification report => do
    refuse (counters.correction.operations = 0 ∨ (report = true ∧ counters.actual = 0))
      .storageCorrupt
    return ⟨0, -1, 0⟩
  | .foundClosure events => do
    refuse (events = 0 ∨ events > 64 ∨ counters.correction.operations = 0 ∨
      counters.correction.events < events ∨ counters.correction.reviews = 0) .storageCorrupt
    return ⟨-events, -1, 0⟩
  | .correctionObserve events priorEvents => do
    refuse (events > 64 ∨ (∃ n ∈ priorEvents, n > 64) ∨
      (priorEvents ≠ none ∧ counters.correction.operations = 0) ∨
      (∃ n ∈ priorEvents, n > counters.correction.events) ∨
      ((∃ n ∈ priorEvents, n > 0) ∧ counters.correction.reviews = 0)) .hubInvalidInput
    return {
      events := events - priorEvents.getD 0
      operations := if priorEvents = none then 1 else 0
      reviews := (if events > 0 then 1 else 0) - (if ∃ n ∈ priorEvents, n > 0 then 1 else 0) }
  | _ => return ⟨0, 0, 0⟩

def primaryReserved (counters : Counters) : Int := counters.primary + counters.correction.reviews

/-- No further treatment record fits. -/
def TreatmentFull (counters : Counters) : Prop := counters.primaryReserved ≥ hubTreatmentCapacity

instance (counters : Counters) : Decidable counters.TreatmentFull :=
  inferInstanceAs (Decidable (_ ≥ _))

def request (counters : Counters) : Reservation → Except SafeErrorCode Request
  | .countClassification report => return ⟨0, 0, 0, if report then -1 else 0, 0⟩
  | .foundClosure events => return ⟨events, 0, 0, 0, 0⟩
  | .correctionObserve _ _ => return ⟨0, 0, 0, 0, 2⟩
  | .actualReport => return ⟨0, 0, 0, 1, 2⟩
  | .actualReview physical => do
    refuse (counters.actual = 0) .storageCorrupt
    return ⟨if physical then 1 else 0, 0, 0, -1, 0⟩
  | .ordinaryMetadata => do
    refuse counters.TreatmentFull .hubCapacity
    return ⟨0, 0, 0, 0, 2⟩
  | .ordinary events => do
    refuse (events = 0 ∨ events > hubStockEventCapacity) .hubInvalidInput
    refuse counters.TreatmentFull .hubCapacity
    -- a precautionary hold and its release must still fit after normal work
    return ⟨events, 0, 0, 0, 2⟩
  | .placeHold => do
    refuse counters.TreatmentFull .hubCapacity
    return ⟨1, 1, 0, 0, 0⟩
  | .releaseHold => do
    refuse (counters.opened = 0) .storageCorrupt
    return ⟨1, -1, 0, 0, 0⟩
  | .openIssued => do
    refuse counters.TreatmentFull .hubCapacity
    return ⟨1, 0, 1, 0, 2⟩
  | .depart events => do
    refuse (events = 0 ∨ events > hubDispatchLines) .hubInvalidInput
    refuse (counters.issued = 0) .storageCorrupt
    refuse counters.TreatmentFull .hubCapacity
    return ⟨events, 0, -1, 0, 2⟩
  | .closeIssued => do
    refuse (counters.issued = 0) .storageCorrupt
    return ⟨1, 0, -1, 0, 0⟩

def checkBudget (counters : Counters) (reservation : Reservation) : Except SafeErrorCode Unit := do
  let correction ← counters.correctionShift reservation
  refuse (counters.primaryReserved + correction.reviews > hubTreatmentCapacity) .hubCapacity
  let request ← counters.request reservation
  let reserved : Int := counters.events + counters.opened + counters.issued + request.events +
    request.newReservations + request.issuedReservations + counters.actual +
    request.actualReservations + request.safetyHeadroom + counters.correction.events +
    correction.events
  let operationReserved : Int := counters.operations + counters.opened + counters.issued + 1 +
    request.newReservations + request.issuedReservations + counters.actual +
    request.actualReservations + request.safetyHeadroom + counters.correction.operations +
    correction.operations
  refuse (reserved > hubStockEventCapacity ∨ operationReserved > hubStockEventCapacity) .hubCapacity

/-- What an accepted reservation fits into. -/
theorem checkBudget_eq_ok {counters : Counters} {reservation : Reservation} {u : Unit} :
    counters.checkBudget reservation = .ok u ↔ ∃ correction request,
      counters.correctionShift reservation = .ok correction ∧
      counters.request reservation = .ok request ∧
      counters.primaryReserved + correction.reviews ≤ hubTreatmentCapacity ∧
      counters.events + counters.opened + counters.issued + request.events +
        request.newReservations + request.issuedReservations + counters.actual +
        request.actualReservations + request.safetyHeadroom + counters.correction.events +
        correction.events ≤ hubStockEventCapacity ∧
      counters.operations + counters.opened + counters.issued + 1 +
        request.newReservations + request.issuedReservations + counters.actual +
        request.actualReservations + request.safetyHeadroom + counters.correction.operations +
        correction.operations ≤ hubStockEventCapacity := by
  simp only [checkBudget, accepted, passed]
  constructor
  · rintro ⟨correction, hcorrection, hprimary, request, hrequest, hevents, hoperations⟩
    exact ⟨correction, request, hcorrection, hrequest, hprimary, hevents, hoperations⟩
  · rintro ⟨correction, request, hcorrection, hrequest, hprimary, hevents, hoperations⟩
    exact ⟨correction, hcorrection, hprimary, request, hrequest, hevents, hoperations⟩

end Counters

/-! ## The journal -/

/-- A correction observation that is neither superseded nor used: found stock, with an event
reserved for each allocation, or the classification of a count, which has none. -/
inductive Observation where
  | found (events : Nat) (positive : 0 < events) (bounded : events ≤ 64)
  | classification
  deriving Repr

namespace Observation

instance : DecidableEq Observation
  | found events _ _, found events' _ _ => decidable_of_iff (events = events') (by simp)
  | found _ _ _, classification => isFalse (by simp)
  | classification, found _ _ _ => isFalse (by simp)
  | classification, classification => isTrue rfl

def events : Observation → Nat
  | found events _ _ => events
  | classification => 0

def reviews : Observation → Nat
  | found _ _ _ => 1
  | classification => 0

/-- Only an observation of the same family supersedes another. -/
def SameFamily (a b : Observation) : Prop := a.reviews = b.reviews

end Observation

/-- What the counters are taken of. -/
structure HubJournal where
  operations : Nat
  events : Nat
  primary : Nat
  opened : Nat
  issued : Nat
  actual : Nat
  observations : List Observation
  deriving DecidableEq, Repr

namespace HubJournal

def empty : HubJournal := ⟨0, 0, 0, 0, 0, 0, []⟩

def correctionEvents (journal : HubJournal) : Nat :=
    (journal.observations.map Observation.events).sum
def correctionReviews (journal : HubJournal) : Nat :=
  (journal.observations.map Observation.reviews).sum

def counters (journal : HubJournal) : Counters where
  correction := ⟨journal.observations.length, journal.correctionEvents, journal.correctionReviews⟩
  operations := journal.operations
  actual := journal.actual
  primary := journal.primary
  opened := journal.opened
  issued := journal.issued
  events := journal.events

/-- What an entry does to the journal; each is one operation more. -/
inductive Effect : HubJournal → Reservation → HubJournal → Prop
  | ordinary {j : HubJournal} (n : Nat) (treatment : Bool) : Effect j (.ordinary n)
      { j with
        operations := j.operations + 1, events := j.events + n
        primary := j.primary + if treatment then 1 else 0 }
  | ordinaryMetadata {j : HubJournal} : Effect j .ordinaryMetadata
      { j with operations := j.operations + 1 }
  | actualReport {j : HubJournal} : Effect j .actualReport
      { j with operations := j.operations + 1, actual := j.actual + 1 }
  | observe {j : HubJournal} (new : Observation) : Effect j (.correctionObserve new.events none)
      { j with operations := j.operations + 1, observations := new :: j.observations }
  | supersede {j : HubJournal} (old new : Observation) : old ∈ j.observations → new.SameFamily old →
      Effect j (.correctionObserve new.events (some old.events))
      { j with operations := j.operations + 1, observations := new :: j.observations.erase old }
  | foundClosure {j : HubJournal} (found : Observation) : found ∈ j.observations →
      found.reviews = 1 → Effect j (.foundClosure found.events)
      { j with
        operations := j.operations + 1, events := j.events + found.events
        primary := j.primary + 1, observations := j.observations.erase found }
  | countClassification {j : HubJournal} (report : Bool) : .classification ∈ j.observations →
      Effect j (.countClassification report)
      { j with
        operations := j.operations + 1, actual := j.actual - if report then 1 else 0
        observations := j.observations.erase .classification }
  | actualReview {j : HubJournal} (physical : Bool) : Effect j (.actualReview physical)
      { j with
        operations := j.operations + 1, events := j.events + (if physical then 1 else 0)
        actual := j.actual - 1 }
  | placeHold {j : HubJournal} : Effect j .placeHold
      { j with
        operations := j.operations + 1, events := j.events + 1, primary := j.primary + 1
        opened := j.opened + 1 }
  | releaseHold {j : HubJournal} : Effect j .releaseHold
      { j with operations := j.operations + 1, events := j.events + 1, opened := j.opened - 1 }
  | openIssued {j : HubJournal} : Effect j .openIssued
      { j with operations := j.operations + 1, events := j.events + 1, issued := j.issued + 1 }
  | closeIssued {j : HubJournal} : Effect j .closeIssued
      { j with operations := j.operations + 1, events := j.events + 1, issued := j.issued - 1 }
  | depart {j : HubJournal} (n : Nat) : Effect j (.depart n)
      { j with operations := j.operations + 1, events := j.events + n, issued := j.issued - 1 }

/-- A step is an entry that the check let in. -/
inductive Step (journal : HubJournal) : Reservation → HubJournal → Prop
  | enter {reservation : Reservation} {journal' : HubJournal} :
      journal.counters.checkBudget reservation = .ok () → Effect journal reservation journal' →
      Step journal reservation journal'

inductive Reached : HubJournal → Prop
  | empty : Reached .empty
  | next {journal journal' : HubJournal} (reservation : Reservation) :
      Reached journal → Step journal reservation journal' → Reached journal'

/-! ## The reserved space is kept -/

/-- Everything outstanding still fits when it is closed. -/
structure Reserved (journal : HubJournal) : Prop where
  events : journal.events + journal.opened + journal.issued + journal.actual +
    journal.correctionEvents ≤ hubStockEventCapacity
  operations : journal.operations + journal.opened + journal.issued + journal.actual +
    journal.observations.length ≤ hubStockEventCapacity
  treatment : journal.primary + journal.correctionReviews ≤ hubTreatmentCapacity

variable {journal journal' : HubJournal}

theorem erase_observation {old : Observation} (h : old ∈ journal.observations) :
    old.events + ((journal.observations.erase old).map Observation.events).sum =
      (journal.observations.map Observation.events).sum ∧
    old.reviews + ((journal.observations.erase old).map Observation.reviews).sum =
      (journal.observations.map Observation.reviews).sum ∧
    (journal.observations.erase old).length + 1 = journal.observations.length := by
  refine ⟨List.sum_map_erase _ h, List.sum_map_erase _ h, ?_⟩
  rw [List.length_erase_of_mem h]
  have := List.length_pos_of_mem h
  omega

/-- An observation reserves a review exactly when it reserves events. -/
theorem reviews_eq (observation : Observation) :
    (if observation.events > 0 then (1 : Int) else 0) = observation.reviews := by
  cases observation with
  | found events positive bounded => simp [Observation.reviews, Observation.events, positive]
  | classification => rfl

theorem not_treatmentFull : ¬ journal.counters.TreatmentFull ↔
    journal.primary + journal.correctionReviews + 1 ≤ hubTreatmentCapacity := by
  simp only [Counters.TreatmentFull, Counters.primaryReserved, counters]
  omega

/-- Events made and reserved. -/
def eventTotal (journal : HubJournal) : Int :=
  journal.events + journal.opened + journal.issued + journal.actual + journal.correctionEvents

/-- Operations made and reserved. -/
def operationTotal (journal : HubJournal) : Int :=
  journal.operations + journal.opened + journal.issued + journal.actual +
    journal.observations.length

/-- An entry takes and reserves what the check was asked for. -/
@[mk_iff] structure Asked (journal journal' : HubJournal) (correction : CorrectionShift)
    (request : Request) : Prop where
  events : journal'.eventTotal = journal.eventTotal + request.events + request.newReservations +
    request.issuedReservations + request.actualReservations + correction.events
  operations : journal'.operationTotal = journal.operationTotal + 1 + request.newReservations +
    request.issuedReservations + request.actualReservations + correction.operations
  treatment : journal'.primary + journal'.correctionReviews ≤ hubTreatmentCapacity
  headroom : 0 ≤ request.safetyHeadroom

variable {reservation : Reservation}

theorem Effect.asked {correction : CorrectionShift} {request : Request}
    (heffect : Effect journal reservation journal')
    (hcorrection : journal.counters.correctionShift reservation = .ok correction)
    (hrequest : journal.counters.request reservation = .ok request)
    (hprimary : journal.counters.primaryReserved + correction.reviews ≤ hubTreatmentCapacity) :
    Asked journal journal' correction request := by
  simp only [Counters.primaryReserved, counters, correctionEvents, correctionReviews] at hprimary
  cases heffect with
    simp only [Counters.correctionShift, Counters.request, accepted, not_treatmentFull, not_or,
      not_and, asked_iff, eventTotal, operationTotal, correctionEvents, correctionReviews]
      at hcorrection hrequest ⊢
  | ordinary n treatment =>
    obtain ⟨-, hroom, rfl⟩ := hrequest
    subst hcorrection
    have htreatment : (if treatment then 1 else 0) ≤ 1 := by split <;> omega
    dsimp only at *
    omega
  | ordinaryMetadata =>
    obtain ⟨-, rfl⟩ := hrequest
    subst hcorrection
    dsimp only at *
    omega
  | actualReport =>
    subst hcorrection hrequest
    dsimp only at *
    omega
  | observe new =>
    obtain ⟨-, rfl⟩ := hcorrection
    subst hrequest
    simp only [Option.getD_none, Option.mem_def, reduceCtorEq, false_and, exists_false, if_false,
      if_true, reviews_eq] at hprimary ⊢
    simp only [List.map_cons, List.sum_cons, List.length_cons]
    omega
  | supersede old new hold hfamily =>
    obtain ⟨-, rfl⟩ := hcorrection
    subst hrequest
    obtain ⟨hevents, hreviews, hlength⟩ := erase_observation hold
    have hsame : new.reviews = old.reviews := hfamily
    simp only [Option.mem_def, Option.some.injEq, exists_eq_left', reviews_eq] at hprimary
    simp only [List.map_cons, List.sum_cons, List.length_cons, Option.getD_some, reduceCtorEq,
      if_false] at hprimary ⊢
    omega
  | foundClosure found hfound hreview =>
    obtain ⟨-, rfl⟩ := hcorrection
    subst hrequest
    obtain ⟨hevents, hreviews, hlength⟩ := erase_observation hfound
    dsimp only at *
    omega
  | countClassification report hmem =>
    obtain ⟨⟨-, (hactual : report = true → ¬ journal.actual = 0)⟩, rfl⟩ := hcorrection
    subst hrequest
    obtain ⟨hevents, hreviews, hlength⟩ := erase_observation hmem
    simp only [Observation.events, Observation.reviews, Nat.zero_add] at hevents hreviews
    cases report with
    | true =>
      have hopen := hactual rfl
      simp only [if_true] at hprimary ⊢
      omega
    | false =>
      simp only [Bool.false_eq_true, if_false] at hprimary ⊢
      omega
  | actualReview physical =>
    obtain ⟨(hactual : ¬ journal.actual = 0), rfl⟩ := hrequest
    subst hcorrection
    dsimp only at *
    omega
  | placeHold =>
    obtain ⟨hroom, rfl⟩ := hrequest
    subst hcorrection
    dsimp only at *
    omega
  | releaseHold =>
    obtain ⟨(hopened : ¬ journal.opened = 0), rfl⟩ := hrequest
    subst hcorrection
    dsimp only at *
    omega
  | openIssued =>
    obtain ⟨-, rfl⟩ := hrequest
    subst hcorrection
    dsimp only at *
    omega
  | closeIssued =>
    obtain ⟨(hissued : ¬ journal.issued = 0), rfl⟩ := hrequest
    subst hcorrection
    dsimp only at *
    omega
  | depart n =>
    obtain ⟨-, (hissued : ¬ journal.issued = 0), -, rfl⟩ := hrequest
    subst hcorrection
    dsimp only at *
    omega

/-- **An entry that the check lets in keeps the reserved space.** -/
theorem Step.reserved (h : Step journal reservation journal') : journal'.Reserved := by
  obtain ⟨hcheck, heffect⟩ := h
  obtain ⟨correction, request, hcorrection, hrequest, hprimary, hevents, hoperations⟩ :=
    Counters.checkBudget_eq_ok.mp hcheck
  have hasked := heffect.asked hcorrection hrequest hprimary
  have htotal := hasked.events
  have htotal' := hasked.operations
  have hheadroom := hasked.headroom
  simp only [eventTotal, operationTotal] at htotal htotal'
  simp only [counters] at hevents hoperations
  exact ⟨by omega, by omega, hasked.treatment⟩

theorem Reached.reserved (h : journal.Reached) : journal.Reserved := by
  cases h with
  | empty => exact ⟨by decide, by decide, by decide⟩
  | next reservation _ hstep => exact hstep.reserved

/-! ## Closing what is outstanding -/

/-- The entries that close an obligation of the journal. -/
inductive Closes (journal : HubJournal) : Reservation → Prop
  | releaseHold : 0 < journal.opened → Closes journal .releaseHold
  | closeIssued : 0 < journal.issued → Closes journal .closeIssued
  | actualReview (physical : Bool) : 0 < journal.actual → Closes journal (.actualReview physical)
  | foundClosure (found : Observation) : found ∈ journal.observations → found.reviews = 1 →
      Closes journal (.foundClosure found.events)
  | countClassification (report : Bool) : .classification ∈ journal.observations →
      (report = true → 0 < journal.actual) → Closes journal (.countClassification report)

/-- **The entry that closes an obligation always fits.** -/
theorem Reserved.accepts (h : journal.Reserved) (hcloses : journal.Closes reservation) :
    journal.counters.checkBudget reservation = .ok () := by
  have hevents := h.events
  have hoperations := h.operations
  have htreatment := h.treatment
  rw [Counters.checkBudget_eq_ok]
  cases hcloses with
  | releaseHold hopened =>
    refine ⟨⟨0, 0, 0⟩, ⟨1, -1, 0, 0, 0⟩, rfl, ?_, ?_⟩
    · simp only [Counters.request, accepted, and_true]
      exact hopened.ne'
    · simp only [Counters.primaryReserved, counters]
      omega
  | closeIssued hissued =>
    refine ⟨⟨0, 0, 0⟩, ⟨1, 0, -1, 0, 0⟩, rfl, ?_, ?_⟩
    · simp only [Counters.request, accepted, and_true]
      exact hissued.ne'
    · simp only [Counters.primaryReserved, counters]
      omega
  | actualReview physical hactual =>
    refine ⟨⟨0, 0, 0⟩, ⟨if physical then 1 else 0, 0, 0, -1, 0⟩, rfl, ?_, ?_⟩
    · simp only [Counters.request, accepted, and_true]
      exact hactual.ne'
    · have hone : (if physical then 1 else 0) ≤ 1 := by split <;> omega
      simp only [Counters.primaryReserved, counters]
      omega
  | foundClosure found hfound hreview =>
    obtain ⟨(hfoundEvents : _ = journal.correctionEvents),
      (hfoundReviews : _ = journal.correctionReviews), hlength⟩ := erase_observation hfound
    have hbounds : 0 < found.events ∧ found.events ≤ 64 := by
      cases found with
      | found events positive bounded => exact ⟨positive, bounded⟩
      | classification => cases hreview
    refine ⟨⟨-found.events, -1, 0⟩, ⟨found.events, 0, 0, 0, 0⟩, ?_, rfl, ?_⟩
    · simp only [Counters.correctionShift, accepted, and_true]
      show ¬ (found.events = 0 ∨ found.events > 64 ∨ journal.observations.length = 0 ∨
        journal.correctionEvents < found.events ∨ journal.correctionReviews = 0)
      omega
    · simp only [Counters.primaryReserved, counters]
      omega
  | countClassification report hmem hreport =>
    obtain ⟨-, -, hlength⟩ := erase_observation hmem
    refine ⟨⟨0, -1, 0⟩, ⟨0, 0, 0, if report then -1 else 0, 0⟩, ?_, rfl, ?_⟩
    · simp only [Counters.correctionShift, accepted, and_true]
      show ¬ (journal.observations.length = 0 ∨ (report = true ∧ journal.actual = 0))
      rintro (hnone | ⟨hyes, hzero⟩)
      · omega
      · exact (hreport hyes).ne' hzero
    · simp only [Counters.primaryReserved, counters]
      split <;> omega

/-- How much is outstanding. -/
def outstanding (journal : HubJournal) : Nat :=
  journal.opened + journal.issued + journal.actual + journal.observations.length

/-- Something outstanding can be closed, and then less is. -/
theorem Reserved.exists_closing (h : journal.Reserved) (hsome : 0 < journal.outstanding) :
    ∃ reservation journal', journal.Closes reservation ∧ Step journal reservation journal' ∧
      journal'.outstanding < journal.outstanding := by
  simp only [outstanding] at hsome ⊢
  by_cases hopened : 0 < journal.opened
  · have hcloses := Closes.releaseHold hopened
    exact ⟨_, _, hcloses, .enter (h.accepts hcloses) .releaseHold, by dsimp only; omega⟩
  by_cases hissued : 0 < journal.issued
  · have hcloses := Closes.closeIssued hissued
    exact ⟨_, _, hcloses, .enter (h.accepts hcloses) .closeIssued, by dsimp only; omega⟩
  by_cases hactual : 0 < journal.actual
  · have hcloses := Closes.actualReview false hactual
    exact ⟨_, _, hcloses, .enter (h.accepts hcloses) (.actualReview false), by dsimp only; omega⟩
  obtain ⟨observation, hmem⟩ := List.exists_mem_of_length_pos
    (show 0 < journal.observations.length by omega)
  obtain ⟨-, -, hlength⟩ := erase_observation hmem
  cases observation with
  | found events positive bounded =>
    have hcloses := Closes.foundClosure _ hmem rfl
    exact ⟨_, _, hcloses, .enter (h.accepts hcloses) (.foundClosure _ hmem rfl), by
      dsimp only; omega⟩
  | classification =>
    have hcloses := Closes.countClassification false hmem (by simp)
    exact ⟨_, _, hcloses, .enter (h.accepts hcloses) (.countClassification false hmem), by
      dsimp only; simp; omega⟩

/-- The journals reached by closing obligations only. -/
inductive ClosedFrom (journal : HubJournal) : HubJournal → Prop
  | start : ClosedFrom journal journal
  | next {j j' : HubJournal} (reservation : Reservation) : ClosedFrom journal j →
      j.Closes reservation → Step j reservation j' → ClosedFrom journal j'

/-- Closing goes on until nothing is outstanding. -/
theorem exists_all_closed (h : journal.Reserved) :
    ∃ journal', ClosedFrom journal journal' ∧ journal'.outstanding = 0 := by
  have general : ∀ n j, ClosedFrom journal j → j.Reserved → j.outstanding ≤ n →
      ∃ journal', ClosedFrom journal journal' ∧ journal'.outstanding = 0 := by
    intro n
    induction n with
    | zero => exact fun j hfrom _ hle => ⟨j, hfrom, Nat.le_zero.mp hle⟩
    | succ n ih =>
      intro j hfrom hreserved hle
      by_cases hzero : j.outstanding = 0
      · exact ⟨j, hfrom, hzero⟩
      · obtain ⟨reservation, j', hcloses, hstep, hless⟩ :=
          hreserved.exists_closing (Nat.pos_of_ne_zero hzero)
        exact ih j' (hfrom.next reservation hcloses hstep) hstep.reserved (by omega)
  exact general journal.outstanding journal .start h le_rfl

/-- **Reserved journal space is never given away, so every obligation can always be closed.** -/
theorem obligations_can_be_closed (h : journal.Reached) :
    journal.events + journal.opened + journal.issued + journal.actual + journal.correctionEvents ≤
      hubStockEventCapacity ∧
    journal.operations + journal.opened + journal.issued + journal.actual +
      journal.observations.length ≤ hubStockEventCapacity ∧
    journal.primary + journal.correctionReviews ≤ hubTreatmentCapacity ∧
    (∀ reservation, journal.Closes reservation →
      journal.counters.checkBudget reservation = .ok ()) ∧
    ∃ journal', ClosedFrom journal journal' ∧ journal'.opened = 0 ∧ journal'.issued = 0 ∧
      journal'.actual = 0 ∧ journal'.observations = [] := by
  have hreserved := h.reserved
  refine ⟨hreserved.events, hreserved.operations, hreserved.treatment,
    fun reservation hcloses => hreserved.accepts hcloses, ?_⟩
  obtain ⟨journal', hclosed, hzero⟩ := exists_all_closed hreserved
  simp only [outstanding] at hzero
  exact ⟨journal', hclosed, by omega, by omega, by omega, List.length_eq_zero_iff.mp (by omega)⟩

/-- Two packs found and a hold: both can be closed, one after the other. -/
theorem obligations_can_be_closed_found :
    ∃ journal : HubJournal, journal.Reached ∧ journal.observations.length = 1 ∧ journal.opened = 1 ∧
      journal.counters.checkBudget (.foundClosure 2) = .ok () ∧
      ∃ journal', ClosedFrom journal journal' ∧ journal'.opened = 0 ∧
        journal'.observations = [] := by
  have hobserve : HubJournal.empty.counters.checkBudget (.correctionObserve 2 none) = .ok () := by
    decide +kernel
  have hfirst := Reached.empty.next _
    (.enter hobserve (.observe (.found 2 (by decide) (by decide))))
  have hsecond := hfirst.next _ (.enter (by decide +kernel) .placeHold)
  obtain ⟨-, -, -, hcloses, journal', hclosed, hopened, -, -, hnone⟩ :=
    obligations_can_be_closed hsecond
  exact ⟨_, hsecond, rfl, rfl,
    hcloses _ (.foundClosure (.found 2 (by decide) (by decide)) (by simp) rfl),
    journal', hclosed, hopened, hnone⟩

end HubJournal

end HarvestCircle
