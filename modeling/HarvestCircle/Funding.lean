import HarvestCircle.Movement
import HarvestCircle.Quantities
import HarvestCircle.Registers
import HarvestCircle.Requests

/-! # What was taken out of stock, and what came back of it

A departure takes packs out of a group, and a correction may take more.  Each such debit
can be found again in part, and part of it may have come back as a return; the two
together never exceed the debit.  What is left is available to be found.

A funding row is a debit with everything that was credited to it.  Only `restore` makes
one, so a row carries what `restore` found out about it.
-/
namespace HarvestCircle
open Checked Registers

/-- What a debit of the line was made for. -/
inductive PhysicalDebitKind where
  | normalDeparture
  | reviewedActual
  | additionalQuantity
  deriving DecidableEq, Repr

/-- A debit with the group as it was before. -/
structure OriginalPhysicalDebit where
  key : PhysicalDebitKey
  kind : PhysicalDebitKind
  target : OriginalDepartureQuantity
  before : PhysicalStockGroup
  packs : WholePacks
  stockRevision : HubRevision
  recordedAt : UnixTimestamp
  deriving DecidableEq, Repr

/-- The debit of the departure itself, or one that was added to it. -/
def OriginalPhysicalDebit.checkKind (debit : OriginalPhysicalDebit) :
    Except PhysicalCorrectionError Unit :=
  match debit.kind with
  | .additionalQuantity =>
    refuse (debit.key.operation = debit.target.operation ∨
      debit.stockRevision.value ≤ debit.target.stockRevision.value) .invalidHistory
  | kind =>
    refuse (debit.key.operation ≠ debit.target.operation ∨ debit.key.group ≠ debit.target.group ∨
      debit.packs ≠ debit.target.packs ∨ debit.stockRevision ≠ debit.target.stockRevision ∨
      (kind = .normalDeparture ∧ debit.before.packs ≠ debit.packs)) .invalidHistory

def OriginalPhysicalDebit.validate (debit : OriginalPhysicalDebit) :
    Except PhysicalCorrectionError Unit := do
  mapErr (fun _ => .invalidHistory) debit.before.validate
  refuse (debit.key.group ≠ debit.before.id ∨ debit.target.trace ≠ debit.before.trace ∨
    debit.target.variant ≠ debit.before.variant ∨ debit.packs.value = 0 ∨
    debit.packs.value > debit.before.packs.value ∨ debit.target.packs.value = 0 ∨
    debit.target.stockRevision = .initial ∨
    debit.before.revision.value ≥ debit.stockRevision.value ∨
    ∃ floor ∈ debit.before.causalFloor, floor > debit.recordedAt) .invalidHistory
  debit.checkKind

/-- Packs of a debit that were found. -/
structure FoundFundingCredit where
  operation : HubRecordId
  allocation : UInt8
  debit : PhysicalDebitKey
  packs : WholePacks
  stockRevision : HubRevision
  recordedAt : UnixTimestamp
  deriving DecidableEq, Repr

/-- Packs of a debit that are established to have come back. -/
structure EstablishedReturnReservation where
  operation : HubRecordId
  debit : PhysicalDebitKey
  packs : WholePacks
  stockRevision : HubRevision
  recordedAt : UnixTimestamp
  deriving DecidableEq, Repr

def addFunding (a b : WholePacks) : Except PhysicalCorrectionError WholePacks :=
  mapErr (fun _ => .invalidQuantity) (a.checkedAdd b)

@[simp] theorem addFunding_eq_ok {a b c : WholePacks} :
    addFunding a b = .ok c ↔ c.value = a.value + b.value := by
  rw [addFunding, mapErr_eq_ok, WholePacks.checkedAdd_eq_ok]

/-- What the loop over the credits keeps. -/
structure CreditScan where
  identities : Finset (HubRecordId × UInt8)
  operations : Std.TreeMap HubRecordId (HubRevision × UnixTimestamp)
  revisions : Std.TreeMap Nat HubRecordId
  recovered : WholePacks

/-- What the loop over the returns keeps. -/
structure ReservationScan where
  operations : Finset HubRecordId
  revisions : Std.TreeMap Nat HubRecordId
  returned : WholePacks

namespace OriginalPhysicalDebit

def enterCredit (debit : OriginalPhysicalDebit) (scan : CreditScan) (credit : FoundFundingCredit) :
    Except PhysicalCorrectionError CreditScan := do
  refuse (credit.debit ≠ debit.key ∨ credit.allocation.toNat ≥ hubFoundAllocations ∨
    credit.packs.value = 0 ∨ credit.operation = debit.key.operation ∨
    credit.operation = debit.target.operation ∨
    credit.stockRevision.value ≤ debit.stockRevision.value ∨
    credit.recordedAt < debit.recordedAt) .invalidHistory
  refuse ((credit.operation, credit.allocation) ∈ scan.identities) .duplicate
  let operations ← Registers.enter scan.operations credit.operation
    (credit.stockRevision, credit.recordedAt) .invalidHistory
  let revisions ← Registers.enter scan.revisions credit.stockRevision.value credit.operation
    .invalidHistory
  let recovered ← addFunding scan.recovered credit.packs
  return {
    identities := insert (credit.operation, credit.allocation) scan.identities
    operations, revisions, recovered }

/-- A return is not one of the operations that found packs. -/
def enterReservation (debit : OriginalPhysicalDebit)
    (found : Std.TreeMap HubRecordId (HubRevision × UnixTimestamp)) (scan : ReservationScan)
    (reservation : EstablishedReturnReservation) :
    Except PhysicalCorrectionError ReservationScan := do
  refuse (reservation.debit ≠ debit.key ∨ reservation.packs.value = 0 ∨
    reservation.operation = debit.key.operation ∨ reservation.operation = debit.target.operation ∨
    reservation.stockRevision.value ≤ debit.stockRevision.value ∨
    reservation.recordedAt < debit.recordedAt ∨ reservation.operation ∈ found) .invalidHistory
  refuse (reservation.operation ∈ scan.operations) .duplicate
  let revisions ← Registers.enter scan.revisions reservation.stockRevision.value
    reservation.operation .invalidHistory
  let returned ← addFunding scan.returned reservation.packs
  return { operations := insert reservation.operation scan.operations, revisions, returned }

/-- What was found, what came back, and what is left of the debit. -/
def settle (debit : OriginalPhysicalDebit) (credits : List FoundFundingCredit)
    (returns : List EstablishedReturnReservation) :
    Except PhysicalCorrectionError (WholePacks × WholePacks × WholePacks) := do
  debit.validate
  refuse (credits.length > hubStockEventCapacity ∨ returns.length > hubTraceCapacity) .capacity
  let found ← credits.foldlM debit.enterCredit
    ⟨∅, ∅, (∅ : Std.TreeMap _ _).insert debit.stockRevision.value debit.key.operation, .zero⟩
  let back ← returns.foldlM (debit.enterReservation found.operations) ⟨∅, found.revisions, .zero⟩
  let gone ← addFunding found.recovered back.returned
  let available ← mapErr (fun _ => .returnConflict) (debit.packs.checkedSub gone)
  return (found.recovered, back.returned, available)

end OriginalPhysicalDebit

/-! ## What makes a row -/

namespace OriginalPhysicalDebit

/-- A credit to the debit. -/
structure Credits (debit : OriginalPhysicalDebit) (credit : FoundFundingCredit) : Prop where
  debit_eq : credit.debit = debit.key
  allocation_lt : credit.allocation.toNat < hubFoundAllocations
  positive : 0 < credit.packs.value
  operation_ne : credit.operation ≠ debit.key.operation
  target_ne : credit.operation ≠ debit.target.operation
  later : debit.stockRevision.value < credit.stockRevision.value
  recorded : debit.recordedAt ≤ credit.recordedAt

/-- A return from the debit. -/
structure Reserves (debit : OriginalPhysicalDebit) (reservation : EstablishedReturnReservation) :
    Prop where
  debit_eq : reservation.debit = debit.key
  positive : 0 < reservation.packs.value
  operation_ne : reservation.operation ≠ debit.key.operation
  target_ne : reservation.operation ≠ debit.target.operation
  later : debit.stockRevision.value < reservation.stockRevision.value
  recorded : debit.recordedAt ≤ reservation.recordedAt

end OriginalPhysicalDebit

def creditedPacks (credits : List FoundFundingCredit) : Nat :=
  (credits.map fun credit => credit.packs.value).sum

def reservedPacks (returns : List EstablishedReturnReservation) : Nat :=
  (returns.map fun reservation => reservation.packs.value).sum

def creditStamps (credits : List FoundFundingCredit) :
    List (HubRecordId × HubRevision × UnixTimestamp) :=
  credits.map fun credit => (credit.operation, credit.stockRevision, credit.recordedAt)

def creditOwners (credits : List FoundFundingCredit) : List (Nat × HubRecordId) :=
  credits.map fun credit => (credit.stockRevision.value, credit.operation)

def returnOwners (returns : List EstablishedReturnReservation) : List (Nat × HubRecordId) :=
  returns.map fun reservation => (reservation.stockRevision.value, reservation.operation)

namespace OriginalPhysicalDebit
variable {debit : OriginalPhysicalDebit}

/-- The credits are told apart and each operation has one revision and one time. -/
structure CreditsFit (debit : OriginalPhysicalDebit) (credits : List FoundFundingCredit) :
    Prop where
  credit : ∀ credit ∈ credits, debit.Credits credit
  identities : (credits.map fun credit => (credit.operation, credit.allocation)).Nodup
  stamps : Functional (creditStamps credits)
  owners : Functional ((debit.stockRevision.value, debit.key.operation) :: creditOwners credits)
  packs_le : creditedPacks credits ≤ hubMaxWholePacks

/-- What the loop over the credits knows. -/
structure CreditScanned (debit : OriginalPhysicalDebit) (credits : List FoundFundingCredit)
    (scan : CreditScan) : Prop where
  identities : scan.identities =
    (credits.map fun credit => (credit.operation, credit.allocation)).toFinset
  operations : Holds scan.operations (creditStamps credits)
  revisions : Holds scan.revisions
    ((debit.stockRevision.value, debit.key.operation) :: creditOwners credits)
  recovered : scan.recovered.value = creditedPacks credits

theorem CreditsFit.of_append {credits rest : List FoundFundingCredit}
    (h : debit.CreditsFit (credits ++ rest)) : debit.CreditsFit credits where
  credit c hc := h.credit c (List.mem_append_left _ hc)
  identities := by
    have hnodup := h.identities
    rw [List.map_append] at hnodup
    exact hnodup.of_append_left
  stamps := h.stamps.mono fun x hx => by
    rw [creditStamps, List.map_append]
    exact List.mem_append_left _ hx
  owners := h.owners.mono fun x hx => by
    rw [creditOwners, List.map_append, ← List.cons_append]
    exact List.mem_append_left _ hx
  packs_le := by
    have hle := h.packs_le
    simp only [creditedPacks, List.map_append, List.sum_append] at hle ⊢
    omega

theorem enterCredit_tests {credits : List FoundFundingCredit} {scan : CreditScan}
    (hfit : debit.CreditsFit credits) (hscan : debit.CreditScanned credits scan)
    (credit : FoundFundingCredit) :
    Tests (debit.enterCredit scan credit) (debit.CreditsFit (credits ++ [credit]))
      (debit.CreditScanned (credits ++ [credit])) := by
  obtain ⟨hstampTest, hstamps⟩ :=
    hscan.operations.enter_map credit (e := PhysicalCorrectionError.invalidHistory)
  obtain ⟨hownerTest, howners⟩ := hscan.revisions.enter (k := credit.stockRevision.value)
    (v := credit.operation) (e := PhysicalCorrectionError.invalidHistory)
  have hnew : (credit.operation, credit.allocation) ∉ scan.identities ↔
      (credit.operation, credit.allocation) ∉
        credits.map fun credit => (credit.operation, credit.allocation) := by
    rw [hscan.identities, List.mem_toFinset]
  have hsum : creditedPacks (credits ++ [credit]) = creditedPacks credits + credit.packs.value := by
    simp [creditedPacks]
  have hownersEq : (debit.stockRevision.value, debit.key.operation) :: creditOwners credits ++
      [(credit.stockRevision.value, credit.operation)] =
        (debit.stockRevision.value, debit.key.operation) :: creditOwners (credits ++ [credit]) := by
    simp [creditOwners]
  rw [hownersEq] at hownerTest howners
  simp only [tests_iff, enterCredit, accepted, addFunding_eq_ok, passed, hnew]
  constructor
  · constructor
    · rintro ⟨-, ⟨hdebit, halloc, hpos, hop, htarget, hlater, hrecorded⟩, hfresh, operations,
        hops, revisions, hrevs, recovered, hrecovered, -⟩
      refine ⟨?_, nodup_map_concat.mpr ⟨hfit.identities, hfresh⟩, hstampTest.mp ⟨_, hops⟩,
        hownerTest.mp ⟨_, hrevs⟩, ?_⟩
      · intro c hc
        rcases List.mem_append.mp hc with hc | hc
        · exact hfit.credit c hc
        · rw [List.mem_singleton.mp hc]
          exact ⟨hdebit, halloc, Nat.pos_of_ne_zero hpos, hop, htarget, hlater, hrecorded⟩
      · rw [hsum, ← hscan.recovered, ← hrecovered]
        exact recovered.bound
    · intro h
      have hcredit := h.credit credit (List.mem_append_right _ (List.mem_singleton_self _))
      obtain ⟨operations, hops⟩ := hstampTest.mpr h.stamps
      obtain ⟨revisions, hrevs⟩ := hownerTest.mpr h.owners
      have hle := h.packs_le
      rw [hsum, ← hscan.recovered] at hle
      exact ⟨_, ⟨hcredit.debit_eq, hcredit.allocation_lt, hcredit.positive.ne',
        hcredit.operation_ne, hcredit.target_ne, hcredit.later, hcredit.recorded⟩,
        (nodup_map_concat.mp h.identities).2, operations, hops, revisions, hrevs, ⟨_, hle⟩,
          rfl, rfl⟩
  · rintro scan' ⟨-, -, operations, hops, revisions, hrevs, recovered, hrecovered, rfl⟩
    refine ⟨?_, hstamps _ hops, howners _ hrevs, ?_⟩
    · ext x
      simp [hscan.identities]
    · rw [hrecovered, hscan.recovered, hsum]

/-- The loop over the credits. -/
theorem foldlM_enterCredit_tests (debit : OriginalPhysicalDebit)
    (credits : List FoundFundingCredit) :
    Tests (credits.foldlM debit.enterCredit ⟨∅, ∅,
      (∅ : Std.TreeMap _ _).insert debit.stockRevision.value debit.key.operation, .zero⟩)
      (debit.CreditsFit credits) (debit.CreditScanned credits) := by
  have hone : Functional [(debit.stockRevision.value, debit.key.operation)] := by
    intro k v v' hv hv'
    rw [List.mem_singleton, Prod.mk.injEq] at hv hv'
    exact hv.2.trans hv'.2.symm
  refine foldlM_tests debit.CreditsFit debit.CreditScanned (fun _ _ h => h.of_append)
    (fun credits credit _ scan _ hfit hscan => enterCredit_tests hfit hscan credit) ?_ ?_
  · exact ⟨by simp, by simp, by simp [Functional, creditStamps], hone, Nat.zero_le _⟩
  · refine ⟨by simp, holds_empty, fun k v => ?_, rfl⟩
    rw [Std.TreeMap.getElem?_insert]
    by_cases hk : debit.stockRevision.value = k
    · simp [hk, eq_comm, creditOwners]
    · simp [hk, Ne.symm hk, creditOwners]

/-- The returns, given the credits. -/
structure ReservationsFit (debit : OriginalPhysicalDebit) (credits : List FoundFundingCredit)
    (returns : List EstablishedReturnReservation) : Prop where
  reservation : ∀ reservation ∈ returns, debit.Reserves reservation
  apart : ∀ reservation ∈ returns,
    reservation.operation ∉ credits.map fun credit => credit.operation
  identities : (returns.map fun reservation => reservation.operation).Nodup
  owners : Functional ((debit.stockRevision.value, debit.key.operation) :: creditOwners credits ++
    returnOwners returns)
  packs_le : reservedPacks returns ≤ hubMaxWholePacks

/-- What the loop over the returns knows. -/
structure ReservationScanned (debit : OriginalPhysicalDebit) (credits : List FoundFundingCredit)
    (returns : List EstablishedReturnReservation) (scan : ReservationScan) : Prop where
  operations : scan.operations = (returns.map fun reservation => reservation.operation).toFinset
  revisions : Holds scan.revisions
    ((debit.stockRevision.value, debit.key.operation) :: creditOwners credits ++
      returnOwners returns)
  returned : scan.returned.value = reservedPacks returns

variable {credits : List FoundFundingCredit} {returns : List EstablishedReturnReservation}

theorem ReservationsFit.of_append {rest : List EstablishedReturnReservation}
    (h : debit.ReservationsFit credits (returns ++ rest)) :
    debit.ReservationsFit credits returns where
  reservation r hr := h.reservation r (List.mem_append_left _ hr)
  apart r hr := h.apart r (List.mem_append_left _ hr)
  identities := by
    have hnodup := h.identities
    rw [List.map_append] at hnodup
    exact hnodup.of_append_left
  owners := h.owners.mono fun x hx => by
    rw [returnOwners, List.map_append, ← List.append_assoc]
    exact List.mem_append_left _ hx
  packs_le := by
    have hle := h.packs_le
    simp only [reservedPacks, List.map_append, List.sum_append] at hle ⊢
    omega

theorem enterReservation_tests {found : Std.TreeMap HubRecordId (HubRevision × UnixTimestamp)}
    (hfound : Holds found (creditStamps credits)) {scan : ReservationScan}
    (hfit : debit.ReservationsFit credits returns)
    (hscan : debit.ReservationScanned credits returns scan)
    (reservation : EstablishedReturnReservation) :
    Tests (debit.enterReservation found scan reservation)
      (debit.ReservationsFit credits (returns ++ [reservation]))
      (debit.ReservationScanned credits (returns ++ [reservation])) := by
  obtain ⟨hownerTest, howners⟩ := hscan.revisions.enter (k := reservation.stockRevision.value)
    (v := reservation.operation) (e := PhysicalCorrectionError.invalidHistory)
  have hnew : reservation.operation ∉ scan.operations ↔
      reservation.operation ∉ returns.map fun reservation => reservation.operation := by
    rw [hscan.operations, List.mem_toFinset]
  have hapart : reservation.operation ∉ found ↔
      reservation.operation ∉ credits.map fun credit => credit.operation := by
    rw [not_iff_not, Std.TreeMap.mem_iff_isSome_getElem?, Option.isSome_iff_exists]
    simp only [hfound _ _, creditStamps, List.mem_map, Prod.mk.injEq, Prod.exists]
    constructor
    · rintro ⟨-, -, credit, hcredit, hop, -⟩
      exact ⟨credit, hcredit, hop⟩
    · rintro ⟨credit, hcredit, hop⟩
      exact ⟨_, _, credit, hcredit, hop, rfl, rfl⟩
  have hsum : reservedPacks (returns ++ [reservation]) =
      reservedPacks returns + reservation.packs.value := by
    simp [reservedPacks]
  have hownersEq : (debit.stockRevision.value, debit.key.operation) :: creditOwners credits ++
      returnOwners returns ++ [(reservation.stockRevision.value, reservation.operation)] =
        (debit.stockRevision.value, debit.key.operation) :: creditOwners credits ++
          returnOwners (returns ++ [reservation]) := by
    simp [returnOwners]
  rw [hownersEq] at hownerTest howners
  simp only [tests_iff, enterReservation, accepted, addFunding_eq_ok, passed, hnew, hapart]
  constructor
  · constructor
    · rintro ⟨-, ⟨hdebit, hpos, hop, htarget, hlater, hrecorded, hout⟩, hfresh, revisions, hrevs,
        returned, hreturned, -⟩
      refine ⟨?_, ?_, nodup_map_concat.mpr ⟨hfit.identities, hfresh⟩, hownerTest.mp ⟨_, hrevs⟩, ?_⟩
      · intro r hr
        rcases List.mem_append.mp hr with hr | hr
        · exact hfit.reservation r hr
        · rw [List.mem_singleton.mp hr]
          exact ⟨hdebit, Nat.pos_of_ne_zero hpos, hop, htarget, hlater, hrecorded⟩
      · intro r hr
        rcases List.mem_append.mp hr with hr | hr
        · exact hfit.apart r hr
        · rw [List.mem_singleton.mp hr]
          exact hout
      · rw [hsum, ← hscan.returned, ← hreturned]
        exact returned.bound
    · intro h
      have hmem : reservation ∈ returns ++ [reservation] := by simp
      have hreserves := h.reservation reservation hmem
      obtain ⟨revisions, hrevs⟩ := hownerTest.mpr h.owners
      have hle := h.packs_le
      rw [hsum, ← hscan.returned] at hle
      exact ⟨_, ⟨hreserves.debit_eq, hreserves.positive.ne', hreserves.operation_ne,
        hreserves.target_ne, hreserves.later, hreserves.recorded, h.apart _ hmem⟩,
        (nodup_map_concat.mp h.identities).2, revisions, hrevs, ⟨_, hle⟩, rfl, rfl⟩
  · rintro scan' ⟨-, -, revisions, hrevs, returned, hreturned, rfl⟩
    refine ⟨?_, howners _ hrevs, ?_⟩
    · ext x
      simp [hscan.operations]
    · rw [hreturned, hscan.returned, hsum]

/-- What the debit, its credits and its returns satisfy. -/
structure Settles (debit : OriginalPhysicalDebit) (credits : List FoundFundingCredit)
    (returns : List EstablishedReturnReservation) : Prop where
  valid : debit.validate = .ok ()
  credits_length : credits.length ≤ hubStockEventCapacity
  returns_length : returns.length ≤ hubTraceCapacity
  credits_fit : debit.CreditsFit credits
  returns_fit : debit.ReservationsFit credits returns
  packs_le : creditedPacks credits + reservedPacks returns ≤ debit.packs.value

/-- **A row is settled exactly if its credits and returns fit into the debit.** -/
theorem settle_eq_ok {recovered returned available : WholePacks} :
    debit.settle credits returns = .ok (recovered, returned, available) ↔
      debit.Settles credits returns ∧ recovered.value = creditedPacks credits ∧
      returned.value = reservedPacks returns ∧
      debit.packs.value = recovered.value + returned.value + available.value := by
  obtain ⟨hcreditTest, hcredits⟩ := foldlM_enterCredit_tests debit credits
  have hreturns : ∀ found, debit.CreditScanned credits found → debit.CreditsFit credits →
      Tests (returns.foldlM (debit.enterReservation found.operations) ⟨∅, found.revisions, .zero⟩)
        (debit.ReservationsFit credits returns) (debit.ReservationScanned credits returns) := by
    intro found hfound hfit
    refine foldlM_tests (debit.ReservationsFit credits) (debit.ReservationScanned credits)
      (fun _ _ h => h.of_append) (fun returns reservation _ scan _ hfit hscan =>
        enterReservation_tests hfound.operations hfit hscan reservation) ?_ ?_
    · exact ⟨by simp, by simp, by simp, by simpa [returnOwners] using hfit.owners, Nat.zero_le _⟩
    · exact ⟨by simp, by simpa [returnOwners] using hfound.revisions, rfl⟩
  simp only [settle, accepted, passed, addFunding_eq_ok, WholePacks.checkedSub_eq_ok, Prod.mk.injEq]
  constructor
  · rintro ⟨hvalid, ⟨hclen, hrlen⟩, found, hfound, back, hback, gone, hgone, left, hleft,
      rfl, rfl, rfl⟩
    have hfit := hcreditTest.mp ⟨_, hfound⟩
    have hscanned := hcredits _ hfound
    obtain ⟨htest, hkept⟩ := hreturns found hscanned hfit
    have hreturned := (hkept _ hback).returned
    have hrecovered := hscanned.recovered
    exact ⟨⟨hvalid, hclen, hrlen, hfit, htest.mp ⟨_, hback⟩, by omega⟩, hrecovered, hreturned,
      by omega⟩
  · rintro ⟨h, hrecovered, hreturned, hpacks⟩
    obtain ⟨found, hfound⟩ := hcreditTest.mpr h.credits_fit
    have hscanned := hcredits _ hfound
    obtain ⟨htest, hkept⟩ := hreturns found hscanned h.credits_fit
    obtain ⟨back, hback⟩ := htest.mpr h.returns_fit
    have hsame : found.recovered = recovered :=
      WholePacks.ext (hscanned.recovered.trans hrecovered.symm)
    have hsame' : back.returned = returned :=
      WholePacks.ext ((hkept _ hback).returned.trans hreturned.symm)
    have hbound := debit.packs.bound
    have hleft : debit.packs.value =
        found.recovered.value + back.returned.value + available.value := by
      rw [hsame, hsame']
      exact hpacks
    exact ⟨h.valid, ⟨h.credits_length, h.returns_length⟩, found, hfound, back, hback,
      ⟨found.recovered.value + back.returned.value, by omega⟩, rfl, available, hleft, hsame, hsame',
      rfl⟩

end OriginalPhysicalDebit

/-- A debit with its credits and returns, as `restore` accepts it. -/
structure PhysicalDebitFunding where
  original : OriginalPhysicalDebit
  credits : List FoundFundingCredit
  returns : List EstablishedReturnReservation
  unresolvedReturns : Bool
  recovered : WholePacks
  returned : WholePacks
  available : WholePacks
  restored : original.settle credits returns = .ok (recovered, returned, available)
  deriving DecidableEq

namespace PhysicalDebitFunding

def restore (original : OriginalPhysicalDebit) (credits : List FoundFundingCredit)
    (returns : List EstablishedReturnReservation) (unresolvedReturns : Bool) :
    Except PhysicalCorrectionError PhysicalDebitFunding := do
  let settled ← attach (original.settle credits returns)
  return {
    original, credits, returns, unresolvedReturns
    recovered := settled.1.1, returned := settled.1.2.1, available := settled.1.2.2
    restored := settled.2 }

theorem settles (funding : PhysicalDebitFunding) :
    funding.original.Settles funding.credits funding.returns ∧
    funding.recovered.value = creditedPacks funding.credits ∧
    funding.returned.value = reservedPacks funding.returns ∧
    funding.original.packs.value =
      funding.recovered.value + funding.returned.value + funding.available.value :=
  OriginalPhysicalDebit.settle_eq_ok.mp funding.restored

variable {credits : List FoundFundingCredit} {original : OriginalPhysicalDebit}
  {returns : List EstablishedReturnReservation}

theorem restore_succeeds (h : original.Settles credits returns) (unresolvedReturns : Bool) :
    ∃ funding, restore original credits returns unresolvedReturns =
      .ok funding := by
  have hle := h.packs_le
  have hbound := original.packs.bound
  have hsettle : original.settle credits returns = .ok (⟨creditedPacks credits, by omega⟩,
      ⟨reservedPacks returns, by omega⟩,
      ⟨original.packs.value - creditedPacks credits - reservedPacks returns, by omega⟩) :=
    OriginalPhysicalDebit.settle_eq_ok.mpr ⟨h, rfl, rfl, by dsimp only; omega⟩
  exact ⟨⟨original, credits, returns, unresolvedReturns, _, _, _, hsettle⟩,
    attach_bind_eq_ok.mpr ⟨_, hsettle, rfl⟩⟩

theorem restore_eq_ok {unresolvedReturns : Bool} {funding : PhysicalDebitFunding}
    (h : restore original credits returns unresolvedReturns = .ok funding) :
    funding.original = original ∧ funding.credits = credits ∧ funding.returns = returns ∧
    funding.unresolvedReturns = unresolvedReturns := by
  obtain ⟨_, _, hfunding⟩ := attach_bind_eq_ok.mp h
  rw [pure_eq_ok] at hfunding
  exact hfunding ▸ ⟨rfl, rfl, rfl, rfl⟩

/-- What can be found of the debit; unknown while a return may be of it. -/
def availablePacks (funding : PhysicalDebitFunding) :
    Except PhysicalCorrectionError WholePacks := do
  refuse (funding.unresolvedReturns = true) .unresolvedReturnScope
  return funding.available

end PhysicalDebitFunding

end HarvestCircle
