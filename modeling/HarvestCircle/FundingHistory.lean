import HarvestCircle.FoundStock
import HarvestCircle.Tallies

/-! # What the history of a line says

`validateFunding` goes through the debits of a line one after the other, and through the
credits and returns of each, filling its maps as it goes.  What it accepts is a property of
the rows (`Funded`): which of them there are, not in which order the maps met them.
-/
namespace HarvestCircle
open Checked Registers Tallies

/-! ## Who did what when -/

/-- An operation of the history, with its revision and the time it was recorded. -/
structure FundingEvent where
  operation : HubRecordId
  revision : HubRevision
  recordedAt : UnixTimestamp
  deriving DecidableEq, Repr

namespace FundingEvent

def owner (event : FundingEvent) : Nat × HubRecordId := (event.revision.value, event.operation)

def stamp (event : FundingEvent) : HubRecordId × HubRevision × UnixTimestamp :=
  (event.operation, event.revision, event.recordedAt)

end FundingEvent

def PhysicalDebitFunding.event (funding : PhysicalDebitFunding) : FundingEvent :=
  ⟨funding.original.key.operation, funding.original.stockRevision, funding.original.recordedAt⟩

def FoundFundingCredit.event (credit : FoundFundingCredit) : FundingEvent :=
  ⟨credit.operation, credit.stockRevision, credit.recordedAt⟩

def EstablishedReturnReservation.event (reservation : EstablishedReturnReservation) :
    FundingEvent :=
  ⟨reservation.operation, reservation.stockRevision, reservation.recordedAt⟩

/-- The register has exactly the events. -/
structure FundingRegister.Keeps (register : FundingRegister) (events : List FundingEvent) :
    Prop where
  revisions : Holds register.revisions (events.map FundingEvent.owner)
  operations : Holds register.operations (events.map FundingEvent.stamp)

theorem FundingRegister.Keeps.congr {register : FundingRegister}
    {events events' : List FundingEvent} (h : register.Keeps events)
    (hmem : ∀ event, event ∈ events ↔ event ∈ events') : register.Keeps events' := by
  refine ⟨h.revisions.congr fun row => ?_, h.operations.congr fun row => ?_⟩
  · rw [List.mem_map, List.mem_map]
    exact exists_congr fun event => and_congr_left fun _ => hmem event
  · rw [List.mem_map, List.mem_map]
    exact exists_congr fun event => and_congr_left fun _ => hmem event

/-- The events lie before the cut, a revision has one operation, and an operation one revision and
one time. -/
structure FoundStockContext.EventsFit (context : FoundStockContext) (now : UnixTimestamp)
    (events : List FundingEvent) : Prop where
  revision_le : ∀ event ∈ events, event.revision.value ≤ context.stockRevision.value
  recorded_le : ∀ event ∈ events, event.recordedAt ≤ now
  latest_le : ∀ event ∈ events, event.recordedAt ≤ context.latestRecordedAt
  owners : Functional (events.map FundingEvent.owner)
  stamps : Functional (events.map FundingEvent.stamp)

namespace FoundStockContext
variable {context : FoundStockContext} {now : UnixTimestamp}

theorem EventsFit.mono {events events' : List FundingEvent} (h : context.EventsFit now events')
    (hsub : ∀ event ∈ events, event ∈ events') : context.EventsFit now events where
  revision_le event hevent := h.revision_le event (hsub event hevent)
  recorded_le event hevent := h.recorded_le event (hsub event hevent)
  latest_le event hevent := h.latest_le event (hsub event hevent)
  owners := h.owners.mono fun row hrow => by
    obtain ⟨event, hevent, rfl⟩ := List.mem_map.mp hrow
    exact List.mem_map_of_mem (hsub event hevent)
  stamps := h.stamps.mono fun row hrow => by
    obtain ⟨event, hevent, rfl⟩ := List.mem_map.mp hrow
    exact List.mem_map_of_mem (hsub event hevent)

theorem register_tests {register : FundingRegister} {events : List FundingEvent}
    (hfit : context.EventsFit now events) (hkeeps : register.Keeps events) (event : FundingEvent) :
    Tests (context.register now register event.operation event.revision event.recordedAt)
      (context.EventsFit now (events ++ [event]))
      (FundingRegister.Keeps · (events ++ [event])) := by
  obtain ⟨hownerTest, howners⟩ :=
    hkeeps.revisions.enter_map event (e := PhysicalCorrectionError.invalidHistory)
  obtain ⟨hstampTest, hstamps⟩ :=
    hkeeps.operations.enter_map event (e := PhysicalCorrectionError.invalidHistory)
  simp only [tests_iff, FoundStockContext.register, accepted, passed]
  constructor
  · constructor
    · rintro ⟨-, ⟨hrevision, hnow, hlatest⟩, revisions, hrevisions, operations, hoperations, -⟩
      refine ⟨?_, ?_, ?_, hownerTest.mp ⟨_, hrevisions⟩, hstampTest.mp ⟨_, hoperations⟩⟩
      · simpa [or_imp, forall_and] using ⟨hfit.revision_le, hrevision⟩
      · simpa [or_imp, forall_and] using ⟨hfit.recorded_le, hnow⟩
      · simpa [or_imp, forall_and] using ⟨hfit.latest_le, hlatest⟩
    · intro h
      have hmem : event ∈ events ++ [event] := by simp
      obtain ⟨revisions, hrevisions⟩ := hownerTest.mpr h.owners
      obtain ⟨operations, hoperations⟩ := hstampTest.mpr h.stamps
      exact ⟨_, ⟨h.revision_le _ hmem, h.recorded_le _ hmem, h.latest_le _ hmem⟩, revisions,
        hrevisions, operations, hoperations, rfl⟩
  · rintro register' ⟨-, revisions, hrevisions, operations, hoperations, rfl⟩
    exact ⟨howners _ hrevisions, hstamps _ hoperations⟩

end FoundStockContext

/-! ## The rows of the line -/

/-- What is still gone of a debit. -/
def PhysicalDebitFunding.outstanding (funding : PhysicalDebitFunding) : Nat :=
  funding.original.packs.value - funding.recovered.value

/-- The debits that were added to the line, by operation. -/
def additionalRows (funding : List PhysicalDebitFunding) : List (HubRecordId × Nat) :=
  (funding.filter fun row => row.original.kind = .additionalQuantity).map fun row =>
    (row.original.key.operation, row.original.packs.value)

/-- The credits, each with its debit. -/
def creditsOf (funding : List PhysicalDebitFunding) :
    List (OriginalPhysicalDebit × FoundFundingCredit) :=
  funding.flatMap fun row => row.credits.map (Prod.mk row.original)

def returnsOf (funding : List PhysicalDebitFunding) : List EstablishedReturnReservation :=
  funding.flatMap fun row => row.returns

def recoveredRows (credits : List (OriginalPhysicalDebit × FoundFundingCredit)) :
    List (HubRecordId × Nat) :=
  credits.map fun row => (row.2.operation, row.2.packs.value)

def lineEvents (funding : List PhysicalDebitFunding)
    (credits : List (OriginalPhysicalDebit × FoundFundingCredit))
    (returns : List EstablishedReturnReservation) : List FundingEvent :=
  funding.map PhysicalDebitFunding.event ++ credits.map (fun row => row.2.event) ++
    returns.map EstablishedReturnReservation.event

variable {funding : List PhysicalDebitFunding}

theorem mem_lineEvents {credits : List (OriginalPhysicalDebit × FoundFundingCredit)}
    {returns : List EstablishedReturnReservation} {event : FundingEvent} :
    event ∈ lineEvents funding credits returns ↔ (∃ row ∈ funding, row.event = event) ∨
      (∃ row ∈ credits, row.2.event = event) ∨ ∃ row ∈ returns, row.event = event := by
  simp [lineEvents]

/-- What the debits, credits and returns satisfy that were met so far. -/
structure LineFits [Sha256] (context : FoundStockContext) (now : UnixTimestamp)
    (funding : List PhysicalDebitFunding)
    (credits : List (OriginalPhysicalDebit × FoundFundingCredit))
    (returns : List EstablishedReturnReservation) : Prop where
  keys : (funding.map fun row => row.original.key).Nodup
  target : ∀ row ∈ funding, row.original.target = context.target.original
  parent : ∀ row ∈ funding, context.checkParent row.original = .ok ()
  kind : ∀ row ∈ funding, row.original.kind = .additionalQuantity ∨
    context.family.baseKind = .ok row.original.kind
  credit : ∀ row ∈ credits, context.checkCredit row.1 row.2 = .ok ()
  credit_ids : (credits.map fun row => (row.2.operation, row.2.allocation)).Nodup
  return_ids : (returns.map fun row => row.operation).Nodup
  events : context.EventsFit now (lineEvents funding credits returns)
  physical_le : (funding.map PhysicalDebitFunding.outstanding).sum ≤ hubMaxWholePacks
  returned_le : (funding.map fun row => row.returned.value).sum ≤ hubMaxWholePacks
  additional_le : ∀ operation, total (additionalRows funding) operation ≤ hubMaxWholePacks
  recovered_le : ∀ operation, total (recoveredRows credits) operation ≤ hubMaxWholePacks

/-- The rows met first. -/
theorem LineFits.of_append [Sha256] {context : FoundStockContext} {now : UnixTimestamp}
    {credits : List (OriginalPhysicalDebit × FoundFundingCredit)}
    {returns : List EstablishedReturnReservation} (funding' : List PhysicalDebitFunding)
    (credits' : List (OriginalPhysicalDebit × FoundFundingCredit))
    (returns' : List EstablishedReturnReservation)
    (h : LineFits context now (funding ++ funding') (credits ++ credits') (returns ++ returns')) :
    LineFits context now funding credits returns where
  keys := by
    have hkeys := h.keys
    rw [List.map_append] at hkeys
    exact hkeys.of_append_left
  target row hrow := h.target row (List.mem_append_left _ hrow)
  parent row hrow := h.parent row (List.mem_append_left _ hrow)
  kind row hrow := h.kind row (List.mem_append_left _ hrow)
  credit row hrow := h.credit row (List.mem_append_left _ hrow)
  credit_ids := by
    have hids := h.credit_ids
    rw [List.map_append] at hids
    exact hids.of_append_left
  return_ids := by
    have hids := h.return_ids
    rw [List.map_append] at hids
    exact hids.of_append_left
  events := h.events.mono fun event hevent => by
    simp only [lineEvents, List.map_append, List.mem_append] at hevent ⊢
    tauto
  physical_le := by
    have hle := h.physical_le
    rw [List.map_append, List.sum_append] at hle
    omega
  returned_le := by
    have hle := h.returned_le
    rw [List.map_append, List.sum_append] at hle
    omega
  additional_le operation := by
    have hle := h.additional_le operation
    simp only [additionalRows, List.filter_append, List.map_append, total_append] at hle ⊢
    omega
  recovered_le operation := by
    have hle := h.recovered_le operation
    simp only [recoveredRows, List.map_append, total_append] at hle ⊢
    omega

/-- What the scan has kept of the rows. -/
structure FundingScan.Keeps (scan : FundingScan) (funding : List PhysicalDebitFunding)
    (credits : List (OriginalPhysicalDebit × FoundFundingCredit))
    (returns : List EstablishedReturnReservation) : Prop where
  scopes : scan.scopes = funding
  base : scan.base = funding.countP fun row => row.original.kind ≠ .additionalQuantity
  physical : scan.physical.value = (funding.map PhysicalDebitFunding.outstanding).sum
  returned : scan.returned.value = (funding.map fun row => row.returned.value).sum
  additional : Counts WholePacks.value scan.additional (additionalRows funding)
  recovered : Counts WholePacks.value scan.recovered (recoveredRows credits)
  credit_ids : scan.credits = (credits.map fun row => (row.2.operation, row.2.allocation)).toFinset
  return_ids : scan.returns = (returns.map fun row => row.operation).toFinset
  register : scan.register.Keeps (lineEvents funding credits returns)
  debitOperations : scan.debitOperations =
    (funding.map fun row => row.original.key.operation).toFinset
  creditOperations : scan.creditOperations = (credits.map fun row => row.2.operation).toFinset

namespace FoundStockContext
variable {context : FoundStockContext} {now : UnixTimestamp} {scan : FundingScan}
  {funding : List PhysicalDebitFunding}
  {credits : List (OriginalPhysicalDebit × FoundFundingCredit)}
  {returns : List EstablishedReturnReservation}

theorem tallyAdditional_tests {additional : Std.TreeMap HubRecordId WholePacks}
    (hcounts : Counts WholePacks.value additional (additionalRows funding))
    (row : PhysicalDebitFunding) :
    Tests (tallyAdditional row.original additional)
      (total (additionalRows (funding ++ [row])) row.original.key.operation ≤ hubMaxWholePacks)
      (Counts WholePacks.value · (additionalRows (funding ++ [row]))) := by
  have hread := hcounts.getD WholePacks.zero_value row.original.key.operation
  unfold tallyAdditional
  by_cases hkind : row.original.kind = .additionalQuantity
  · have hrows : additionalRows (funding ++ [row]) = additionalRows funding ++
        [(row.original.key.operation, row.original.packs.value)] := by
      simp [additionalRows, hkind]
    rw [if_pos hkind, hrows, total_append, total_singleton, if_pos rfl, ← hread]
    simp only [tests_iff, accepted, addFunding_eq_ok]
    constructor
    · constructor
      · rintro ⟨-, amount, hamount, -⟩
        exact hamount ▸ amount.bound
      · intro hle
        exact ⟨_, ⟨_, hle⟩, rfl, rfl⟩
    · rintro additional' ⟨amount, hamount, rfl⟩
      exact hcounts.insert (hamount.trans (by rw [hread]))
  · have hrows : additionalRows (funding ++ [row]) = additionalRows funding := by
      simp [additionalRows, hkind]
    rw [if_neg hkind, hrows, ← hread]
    constructor
    · exact iff_of_true ⟨_, rfl⟩ (WholePacks.bound _)
    · rintro additional' ⟨⟩
      exact hcounts

theorem countBase_eq_ok {row : PhysicalDebitFunding} {base base' : Nat} :
    context.countBase row.original base = .ok base' ↔
      (row.original.kind = .additionalQuantity ∨ context.family.baseKind = .ok row.original.kind) ∧
      base' = base + [row].countP fun row => row.original.kind ≠ .additionalQuantity := by
  unfold countBase
  by_cases hkind : row.original.kind = .additionalQuantity
  · rw [if_pos hkind]
    simp [hkind, eq_comm]
  · rw [if_neg hkind]
    simp only [accepted, passed, hkind, false_or]
    constructor
    · rintro ⟨expected, hexpected, rfl, rfl⟩
      exact ⟨hexpected, by simp [hkind]⟩
    · rintro ⟨hexpected, rfl⟩
      exact ⟨_, hexpected, rfl, by simp [hkind]⟩

/-- A debit keeps what the later lists add out of the way. -/
theorem outstanding_spec (row : PhysicalDebitFunding) :
    row.original.packs.value = row.recovered.value + row.outstanding := by
  obtain ⟨-, -, -, hpacks⟩ := row.settles
  unfold PhysicalDebitFunding.outstanding
  omega

section
variable [Sha256]

section
variable (hfit : LineFits context now funding credits returns)
  (hscan : scan.Keeps funding credits returns)
include hfit hscan

/-- The step of a debit. -/
theorem observeDebit_tests (row : PhysicalDebitFunding) :
    Tests (context.observeDebit now scan row)
      (LineFits context now (funding ++ [row]) credits returns)
      (FundingScan.Keeps · (funding ++ [row]) credits returns) := by
  have hevents : ∀ event, event ∈ lineEvents funding credits returns ++ [row.event] ↔
      event ∈ lineEvents (funding ++ [row]) credits returns := by
    intro event
    simp only [lineEvents, List.map_append, List.map_singleton, List.mem_append, List.mem_singleton]
    tauto
  obtain ⟨hregisterTest, hregister⟩ := register_tests hfit.events hscan.register row.event
  obtain ⟨htallyTest, htally⟩ := tallyAdditional_tests hscan.additional row
  have hphysical : ((funding ++ [row]).map PhysicalDebitFunding.outstanding).sum =
      (funding.map PhysicalDebitFunding.outstanding).sum + row.outstanding := by simp
  have hreturned : ((funding ++ [row]).map fun row => row.returned.value).sum =
      (funding.map fun row => row.returned.value).sum + row.returned.value := by simp
  have hspec := outstanding_spec row
  simp only [tests_iff, observeDebit, accepted, passed, WholePacks.checkedSub_eq_ok,
    addFunding_eq_ok, countBase_eq_ok, hscan.scopes]
  constructor
  · constructor
    · rintro ⟨-, htarget, hkey, hparent, register, hreg, additional, hadd, base, ⟨hkind, -⟩,
        remaining, hremaining, physical, hphys, returned, hret, -⟩
      exact {
        keys := nodup_map_concat.mpr ⟨hfit.keys, hkey⟩
        target := by simpa [or_imp, forall_and] using ⟨hfit.target, htarget⟩
        parent := by simpa [or_imp, forall_and] using ⟨hfit.parent, hparent⟩
        kind := by
          intro other hother
          rcases List.mem_append.mp hother with hother | hother
          · exact hfit.kind other hother
          · exact List.mem_singleton.mp hother ▸ hkind
        credit := hfit.credit
        credit_ids := hfit.credit_ids
        return_ids := hfit.return_ids
        events := (hregisterTest.mp ⟨_, hreg⟩).mono fun event hevent => (hevents event).mpr hevent
        physical_le := by
          have hbound := physical.bound
          have hkept := hscan.physical
          omega
        returned_le := by
          have hbound := returned.bound
          have hkept := hscan.returned
          omega
        additional_le := by
          intro operation
          by_cases hop : operation = row.original.key.operation
          · rw [hop]
            exact htallyTest.mp ⟨_, hadd⟩
          · have hle := hfit.additional_le operation
            have hsame : total (additionalRows (funding ++ [row])) operation =
                total (additionalRows funding) operation := by
              by_cases hadditional : row.original.kind = .additionalQuantity
              · simp [additionalRows, hadditional, total_append, total_singleton, Ne.symm hop]
              · simp [additionalRows, hadditional]
            rwa [hsame]
        recovered_le := hfit.recovered_le }
    · intro h
      have hmem : row ∈ funding ++ [row] := by simp
      obtain ⟨register, hreg⟩ := hregisterTest.mpr
        (h.events.mono fun event hevent => (hevents event).mp hevent)
      obtain ⟨additional, hadd⟩ := htallyTest.mpr (h.additional_le _)
      have hphysical_le := h.physical_le
      have hreturned_le := h.returned_le
      rw [hphysical, ← hscan.physical] at hphysical_le
      rw [hreturned, ← hscan.returned] at hreturned_le
      have hbound := row.original.packs.bound
      exact ⟨_, h.target row hmem, (nodup_map_concat.mp h.keys).2, h.parent row hmem, register,
        hreg, additional, hadd, _, ⟨h.kind row hmem, rfl⟩, ⟨row.outstanding, by omega⟩, hspec,
        ⟨_, hphysical_le⟩, rfl, ⟨_, hreturned_le⟩, rfl, rfl⟩
  · rintro scan' ⟨htarget, hkey, hparent, register, hreg, additional, hadd, base, ⟨hkind, hbase⟩,
      remaining, hremaining, physical, hphys, returned, hret, rfl⟩
    exact {
      scopes := rfl
      base := by rw [hbase, hscan.base, List.countP_append]
      physical := by
        have hkept := hscan.physical
        dsimp only
        omega
      returned := by
        have hkept := hscan.returned
        dsimp only
        omega
      additional := htally _ hadd
      recovered := hscan.recovered
      credit_ids := hscan.credit_ids
      return_ids := hscan.return_ids
      register := (hregister _ hreg).congr hevents
      debitOperations := by
        ext operation
        simp [hscan.debitOperations]
      creditOperations := hscan.creditOperations }

/-- The step of a credit.  Only here is a credit held against the debits met so far. -/
theorem observeCredit_tests (original : OriginalPhysicalDebit) (credit : FoundFundingCredit) :
    Tests (context.observeCredit now original scan credit)
      (LineFits context now funding (credits ++ [(original, credit)]) returns ∧
        ⟨credit.operation, credit.debit.group⟩ ∉ funding.map fun row => row.original.key)
      (FundingScan.Keeps · funding (credits ++ [(original, credit)]) returns) := by
  have hevents : ∀ event, event ∈ lineEvents funding credits returns ++ [credit.event] ↔
      event ∈ lineEvents funding (credits ++ [(original, credit)]) returns := by
    intro event
    simp only [lineEvents, List.map_append, List.map_singleton, List.mem_append, List.mem_singleton]
    tauto
  obtain ⟨hregisterTest, hregister⟩ := register_tests hfit.events hscan.register credit.event
  have hread := hscan.recovered.getD WholePacks.zero_value credit.operation
  have hrows : recoveredRows (credits ++ [(original, credit)]) =
      recoveredRows credits ++ [(credit.operation, credit.packs.value)] := by
    simp [recoveredRows]
  have hnew : (credit.operation, credit.allocation) ∉ scan.credits ↔
      (credit.operation, credit.allocation) ∉
        credits.map fun row => (row.2.operation, row.2.allocation) := by
    rw [hscan.credit_ids, List.mem_toFinset]
  simp only [tests_iff, observeCredit, accepted, not_or, addFunding_eq_ok, hnew, hscan.scopes]
  constructor
  · constructor
    · rintro ⟨-, hcheck, ⟨hid, hscope⟩, register, hreg, amount, hamount, -⟩
      refine ⟨{ hfit with
        credit := by
          intro row hrow
          rcases List.mem_append.mp hrow with hrow | hrow
          · exact hfit.credit row hrow
          · exact List.mem_singleton.mp hrow ▸ hcheck
        credit_ids := nodup_map_concat.mpr ⟨hfit.credit_ids, hid⟩
        events := (hregisterTest.mp ⟨_, hreg⟩).mono fun event hevent => (hevents event).mpr hevent
        recovered_le := ?_ }, hscope⟩
      intro operation
      rw [hrows, total_append, total_singleton]
      by_cases hop : credit.operation = operation
      · rw [if_pos hop, ← hop, ← hread, ← hamount]
        exact amount.bound
      · rw [if_neg hop]
        exact hfit.recovered_le operation
    · rintro ⟨h, hscope⟩
      obtain ⟨register, hreg⟩ := hregisterTest.mpr
        (h.events.mono fun event hevent => (hevents event).mp hevent)
      have hle := h.recovered_le credit.operation
      rw [hrows, total_append, total_singleton, if_pos rfl, ← hread] at hle
      exact ⟨_, h.credit (original, credit) (by simp),
        ⟨(nodup_map_concat.mp h.credit_ids).2, hscope⟩, register, hreg, ⟨_, hle⟩, rfl, rfl⟩
  · rintro scan' ⟨-, -, register, hreg, amount, hamount, rfl⟩
    exact { hscan with
      scopes := rfl
      recovered := by
        rw [hrows]
        exact hscan.recovered.insert (hamount.trans (by rw [hread]))
      credit_ids := by
        ext id
        simp [hscan.credit_ids]
      register := (hregister _ hreg).congr hevents
      creditOperations := by
        ext operation
        simp [hscan.creditOperations] }

/-- The step of a return. -/
theorem observeReturn_tests (reservation : EstablishedReturnReservation) :
    Tests (context.observeReturn now scan reservation)
      (LineFits context now funding credits (returns ++ [reservation]))
      (FundingScan.Keeps · funding credits (returns ++ [reservation])) := by
  have hevents : ∀ event, event ∈ lineEvents funding credits returns ++ [reservation.event] ↔
      event ∈ lineEvents funding credits (returns ++ [reservation]) := by
    intro event
    simp only [lineEvents, List.map_append, List.map_singleton, List.mem_append, List.mem_singleton]
    tauto
  obtain ⟨hregisterTest, hregister⟩ := register_tests hfit.events hscan.register reservation.event
  have hnew : reservation.operation ∉ scan.returns ↔
      reservation.operation ∉ returns.map fun row => row.operation := by
    rw [hscan.return_ids, List.mem_toFinset]
  simp only [tests_iff, observeReturn, accepted, hnew]
  constructor
  · constructor
    · rintro ⟨-, hid, register, hreg, -⟩
      exact { hfit with
        return_ids := nodup_map_concat.mpr ⟨hfit.return_ids, hid⟩
        events := (hregisterTest.mp ⟨_, hreg⟩).mono fun event hevent => (hevents event).mpr hevent }
    · intro h
      obtain ⟨register, hreg⟩ := hregisterTest.mpr
        (h.events.mono fun event hevent => (hevents event).mp hevent)
      exact ⟨_, (nodup_map_concat.mp h.return_ids).2, register, hreg, rfl⟩
  · rintro scan' ⟨-, register, hreg, rfl⟩
    exact { hscan with
      return_ids := by
        ext operation
        simp [hscan.return_ids]
      register := (hregister _ hreg).congr hevents }

theorem foldlM_observeCredit_tests (original : OriginalPhysicalDebit)
    (new : List FoundFundingCredit) :
    Tests (new.foldlM (context.observeCredit now original) scan)
      (LineFits context now funding (credits ++ new.map (Prod.mk original)) returns ∧
        ∀ credit ∈ new, ⟨credit.operation, credit.debit.group⟩ ∉
          funding.map fun row => row.original.key)
      (FundingScan.Keeps · funding (credits ++ new.map (Prod.mk original)) returns) := by
  refine foldlM_tests
    (fun done => LineFits context now funding (credits ++ done.map (Prod.mk original)) returns ∧
      ∀ credit ∈ done, ⟨credit.operation, credit.debit.group⟩ ∉
        funding.map fun row => row.original.key)
    (fun done (scan : FundingScan) =>
      scan.Keeps funding (credits ++ done.map (Prod.mk original)) returns) ?_ ?_ ?_ ?_
  · rintro done rest ⟨hdone, hscope⟩
    refine ⟨?_, fun credit hcredit => hscope credit (List.mem_append_left _ hcredit)⟩
    rw [List.map_append, ← List.append_assoc] at hdone
    exact LineFits.of_append [] _ [] (by simpa using hdone)
  · rintro done credit rest scan - ⟨hdone, hscope⟩ hkeeps
    rw [List.map_append, List.map_singleton, ← List.append_assoc]
    refine (observeCredit_tests hdone hkeeps original credit).congr (and_congr_right fun _ => ?_)
    simp only [List.mem_append, List.mem_singleton, or_imp, forall_and, forall_eq]
    exact (and_iff_right hscope).symm
  · exact ⟨by simpa using hfit, by simp⟩
  · simpa using hscan

theorem foldlM_observeReturn_tests (new : List EstablishedReturnReservation) :
    Tests (new.foldlM (context.observeReturn now) scan)
      (LineFits context now funding credits (returns ++ new))
      (FundingScan.Keeps · funding credits (returns ++ new)) := by
  refine foldlM_tests (fun done => LineFits context now funding credits (returns ++ done))
    (fun done (scan : FundingScan) => scan.Keeps funding credits (returns ++ done)) ?_ ?_ ?_ ?_
  · intro done rest hdone
    rw [← List.append_assoc] at hdone
    exact LineFits.of_append [] [] _ (by simpa using hdone)
  · rintro done reservation rest scan - hdone hkeeps
    rw [← List.append_assoc]
    exact observeReturn_tests hdone hkeeps reservation
  · simpa using hfit
  · simpa using hscan

/-- A debit with its credits and returns. -/
theorem observeFunding_tests (row : PhysicalDebitFunding) :
    Tests (context.observeFunding now scan row)
      (LineFits context now (funding ++ [row]) (credits ++ row.credits.map (Prod.mk row.original))
          (returns ++ row.returns) ∧
        ∀ credit ∈ row.credits, ⟨credit.operation, credit.debit.group⟩ ∉
          (funding ++ [row]).map fun row => row.original.key)
      (FundingScan.Keeps · (funding ++ [row]) (credits ++ row.credits.map (Prod.mk row.original))
        (returns ++ row.returns)) := by
  refine (observeDebit_tests hfit hscan row).bind (fun h => ?_) fun hdebit debited hdebited => ?_
  · exact LineFits.of_append [] _ row.returns (by simpa using h.1)
  refine (foldlM_observeCredit_tests hdebit hdebited row.original row.credits).bind
    (fun h => ⟨LineFits.of_append [] [] row.returns (by simpa using h.1), h.2⟩)
    fun ⟨hcredit, hscope⟩ credited hcredited => ?_
  exact (foldlM_observeReturn_tests hcredit hcredited row.returns).congr
    (and_iff_left hscope).symm

end

end

end FoundStockContext

/-! ## All debits -/

theorem creditsOf_append (funding funding' : List PhysicalDebitFunding) :
    creditsOf (funding ++ funding') = creditsOf funding ++ creditsOf funding' :=
  List.flatMap_append

theorem returnsOf_append (funding funding' : List PhysicalDebitFunding) :
    returnsOf (funding ++ funding') = returnsOf funding ++ returnsOf funding' :=
  List.flatMap_append

theorem creditsOf_singleton (row : PhysicalDebitFunding) :
    creditsOf [row] = row.credits.map (Prod.mk row.original) := by
  simp [creditsOf]

theorem returnsOf_singleton (row : PhysicalDebitFunding) : returnsOf [row] = row.returns := by
  simp [returnsOf]

theorem mem_creditsOf {debit : OriginalPhysicalDebit} {credit : FoundFundingCredit} :
    (debit, credit) ∈ creditsOf funding ↔
      ∃ row ∈ funding, row.original = debit ∧ credit ∈ row.credits := by
  simp only [creditsOf, List.mem_flatMap, List.mem_map, Prod.mk.injEq]
  constructor
  · rintro ⟨row, hrow, _, hcredit, hdebit, rfl⟩
    exact ⟨row, hrow, hdebit, hcredit⟩
  · rintro ⟨row, hrow, hdebit, hcredit⟩
    exact ⟨row, hrow, credit, hcredit, hdebit, rfl⟩

theorem mem_returnsOf {reservation : EstablishedReturnReservation} :
    reservation ∈ returnsOf funding ↔ ∃ row ∈ funding, reservation ∈ row.returns :=
  List.mem_flatMap

/-- No credit has the operation and the group of a debit that was met before it. -/
def ScopesApart (funding : List PhysicalDebitFunding) : Prop :=
  ∀ pre row post, funding = pre ++ row :: post → ∀ credit ∈ row.credits,
    ⟨credit.operation, credit.debit.group⟩ ∉ (pre ++ [row]).map fun row => row.original.key

/-- Where the debits and the credits have no operation in common, that is so. -/
theorem scopesApart_of_operations (h : ∀ row ∈ funding, ∀ credited ∈ creditsOf funding,
      row.original.key.operation ≠ credited.2.operation) : ScopesApart funding := by
  rintro pre row post rfl credit hcredit hmem
  obtain ⟨other, hother, hkey⟩ := List.mem_map.mp hmem
  have hrow : other ∈ pre ++ row :: post := by
    rcases List.mem_append.mp hother with hother | hother
    · exact List.mem_append_left _ hother
    · rw [List.mem_singleton.mp hother]
      simp
  have hcredited : (row.original, credit) ∈ creditsOf (pre ++ row :: post) :=
    List.mem_flatMap.mpr ⟨row, by simp, List.mem_map_of_mem hcredit⟩
  exact h other hrow _ hcredited (congrArg PhysicalDebitKey.operation hkey)

theorem FoundStockContext.foldlM_observeFunding_tests [Sha256] (context : FoundStockContext)
    (now : UnixTimestamp) (rows : List PhysicalDebitFunding) :
    Tests (rows.foldlM (context.observeFunding now) .empty)
      (LineFits context now rows (creditsOf rows) (returnsOf rows) ∧ ScopesApart rows)
      (FundingScan.Keeps · rows (creditsOf rows) (returnsOf rows)) := by
  refine foldlM_tests
    (fun done => LineFits context now done (creditsOf done) (returnsOf done) ∧ ScopesApart done)
    (fun done (scan : FundingScan) => scan.Keeps done (creditsOf done) (returnsOf done)) ?_ ?_ ?_ ?_
  · rintro done rest ⟨hfit, hscopes⟩
    rw [creditsOf_append, returnsOf_append] at hfit
    refine ⟨hfit.of_append rest _ _, fun pre row post hsplit => hscopes pre row (post ++ rest) ?_⟩
    rw [hsplit, List.append_assoc, List.cons_append]
  · rintro done row rest scan - ⟨hfit, hscopes⟩ hkeeps
    rw [creditsOf_append, returnsOf_append, creditsOf_singleton, returnsOf_singleton]
    refine (observeFunding_tests hfit hkeeps row).congr (and_congr_right fun _ => ?_)
    rw [ScopesApart, forall_split_concat (P := fun pre (row : PhysicalDebitFunding) =>
      ∀ credit ∈ row.credits, ⟨credit.operation, credit.debit.group⟩ ∉
        (pre ++ [row]).map fun row => row.original.key)]
    exact (and_iff_right hscopes).symm
  · refine ⟨?_, by simp [ScopesApart]⟩
    have hevents : context.EventsFit now (lineEvents [] [] []) :=
      ⟨by simp [lineEvents], by simp [lineEvents], by simp [lineEvents],
        by simp [lineEvents, Functional], by simp [lineEvents, Functional]⟩
    exact {
      keys := by simp
      target := by simp
      parent := by simp
      kind := by simp
      credit := by simp [creditsOf]
      credit_ids := by simp [creditsOf]
      return_ids := by simp [returnsOf]
      events := hevents
      physical_le := Nat.zero_le _
      returned_le := Nat.zero_le _
      additional_le := fun _ => Nat.zero_le _
      recovered_le := fun _ => Nat.zero_le _ }
  · exact {
      scopes := rfl
      base := rfl
      physical := rfl
      returned := rfl
      additional := counts_empty
      recovered := counts_empty
      credit_ids := by simp [FundingScan.empty, creditsOf]
      return_ids := by simp [FundingScan.empty, returnsOf]
      register := ⟨holds_empty, holds_empty⟩
      debitOperations := by simp [FundingScan.empty]
      creditOperations := by simp [FundingScan.empty, creditsOf] }

/-! ## The order of the records -/

/-- What has a later revision was not recorded earlier. -/
def Chronological (events : List FundingEvent) : Prop :=
  ∀ event ∈ events, ∀ later ∈ events, event.revision.value < later.revision.value →
    event.recordedAt ≤ later.recordedAt

theorem FundingRegister.Keeps.checkTimes_eq_ok {register : FundingRegister}
    {events : List FundingEvent} (h : register.Keeps events) :
    register.checkTimes = .ok () ↔ Chronological events := by
  let at? (row : Nat × HubRecordId) : Option UnixTimestamp :=
    register.operations[row.2]?.map Prod.snd
  have hat : ∀ event ∈ events, at? event.owner = some event.recordedAt := by
    intro event hevent
    have hstamp := (h.operations event.operation (event.revision, event.recordedAt)).mpr
      (List.mem_map_of_mem (f := FundingEvent.stamp) hevent)
    simp only [at?, FundingEvent.owner, hstamp, Option.map_some]
  -- the times are read off the register in the order of the revisions
  have hpairwise : register.revisions.toList.Pairwise
      (fun x y => ∀ t ∈ at? x, ∀ u ∈ at? y, t ≤ u) ↔ Chronological events := by
    rw [h.revisions.pairwise_toList_iff]
    simp only [List.forall_mem_map]
    refine forall_congr' fun event => forall_congr' fun hevent => forall_congr' fun later =>
      forall_congr' fun hlater => forall_congr' fun _ => ?_
    simp [hat event hevent, hat later hlater]
  have htimes : ∀ times, (values register.revisions).mapM (fun operation =>
      okOr (register.operations[operation]?.map Prod.snd) PhysicalCorrectionError.invalidHistory) =
        .ok times ↔ times.map some = register.revisions.toList.map at? := by
    intro times
    rw [mapM_eq_ok, values, List.forall₂_map_left_iff, eq_comm, ← List.forall₂_eq_eq_eq,
      List.forall₂_map_left_iff, List.forall₂_map_right_iff]
    simp only [okOr_eq_ok, at?]
  have hread : ∀ times : List UnixTimestamp,
      times.map some = register.revisions.toList.map at? →
      (times.Pairwise (· ≤ ·) ↔ Chronological events) := by
    intro times hmap
    rw [← hpairwise, ← List.pairwise_map (R := fun t u : Option UnixTimestamp =>
      ∀ a ∈ t, ∀ b ∈ u, a ≤ b), ← hmap, List.pairwise_map]
    simp
  obtain ⟨times, hrun⟩ := mapM_succeeds (l := values register.revisions) (f := fun operation =>
    okOr (register.operations[operation]?.map Prod.snd) PhysicalCorrectionError.invalidHistory) (by
      intro operation hoperation
      obtain ⟨row, hrow, rfl⟩ := List.mem_map.mp hoperation
      have howner := (h.revisions row.1 row.2).mp
        (Std.TreeMap.mem_toList_iff_getElem?_eq_some.mp hrow)
      obtain ⟨event, hevent, heq⟩ := List.mem_map.mp howner
      exact ⟨event.recordedAt, okOr_eq_ok.mpr (by simpa [at?, heq] using hat event hevent)⟩)
  simp only [checkTimes, accepted, Decidable.not_not, htimes, List.isChain_iff_pairwise]
  constructor
  · rintro ⟨times, hmap, hordered⟩
    exact (hread times hmap).mp hordered
  · intro hordered
    have hmap := (htimes times).mp hrun
    exact ⟨times, hmap, (hread times hmap).mpr hordered⟩

/-! ## The amendments -/

def DepartureQuantityDelta.isAdditional : DepartureQuantityDelta → Bool
  | .additionalDeparture _ => true
  | .identifiedFoundRemainder _ => false

/-- The operations that amended the line in one of the two ways. -/
def amendedBy (additional : Bool) (amendments : List DepartureQuantityAmendment) :
    List HubRecordId :=
  (amendments.filter fun change => change.delta.isAdditional = additional).map
    fun change => change.operation

/-- The packs recorded in the rows an amendment has to agree with: debits that were added, or
credits. -/
def FoundStockContext.amendedRows (context : FoundStockContext) (additional : Bool) :
    List (HubRecordId × Nat) :=
  if additional then additionalRows context.funding else recoveredRows (creditsOf context.funding)

/-- The events of the whole line. -/
def FoundStockContext.events (context : FoundStockContext) : List FundingEvent :=
  lineEvents context.funding (creditsOf context.funding) (returnsOf context.funding)

/-- An amendment is the sum of the rows of its operation.  What was found has a review of as many
packs. -/
structure FoundStockContext.Backs [Sha256] (context : FoundStockContext)
    (change : DepartureQuantityAmendment) : Prop where
  present : change.operation ∈ (context.amendedRows change.delta.isAdditional).map Prod.fst
  total_eq : total (context.amendedRows change.delta.isAdditional) change.operation =
    change.delta.packs.value
  reviewed : change.delta.isAdditional = false → ∃ id review,
    treatmentRecordId change.operation = .ok id ∧
    context.treatment.reviewsById[id]? = some review ∧
    (review.scope.anchors.map fun anchor => anchor.capturedPacks.value).sum =
      change.delta.packs.value
  stamped : ∃ event ∈ context.events, event.operation = change.operation ∧
    event.revision = change.stockRevision

/-- The rows that the amendments so far have not taken off. -/
def FoundStockContext.restRows (context : FoundStockContext) (additional : Bool)
    (done : List DepartureQuantityAmendment) : List (HubRecordId × Nat) :=
  (context.amendedRows additional).filter fun row => row.1 ∉ amendedBy additional done

namespace FoundStockContext
variable {context : FoundStockContext} {done : List DepartureQuantityAmendment}
  {change : DepartureQuantityAmendment}

/-- Taking the rows of an operation off is taking the amendment off. -/
theorem filter_restRows (context : FoundStockContext) (done : List DepartureQuantityAmendment)
    (change : DepartureQuantityAmendment) :
    (context.restRows change.delta.isAdditional done).filter (fun row => row.1 ≠ change.operation) =
      context.restRows change.delta.isAdditional (done ++ [change]) := by
  unfold restRows
  rw [List.filter_filter]
  refine List.filter_congr fun row _ => ?_
  have hconcat : amendedBy change.delta.isAdditional (done ++ [change]) =
      amendedBy change.delta.isAdditional done ++ [change.operation] := by
    simp [amendedBy]
  rw [hconcat, ← Bool.decide_and, decide_eq_decide]
  simp only [List.mem_append, List.mem_singleton, not_or, and_comm]

theorem restRows_of_ne {additional : Bool} (h : change.delta.isAdditional ≠ additional) :
    context.restRows additional (done ++ [change]) = context.restRows additional done := by
  simp [restRows, amendedBy, h]

/-- An operation that has not amended the line yet has all its rows left. -/
theorem mem_restRows_keys (additional : Bool)
    (hfresh : change.operation ∉ done.map fun change => change.operation) :
    change.operation ∈ (context.restRows additional done).map Prod.fst ↔
      change.operation ∈ (context.amendedRows additional).map Prod.fst := by
  have hnew : change.operation ∉ amendedBy additional done := fun hmem => hfresh <|
    (List.filter_sublist.map _).subset hmem
  simp only [restRows, List.mem_map, List.mem_filter, decide_eq_true_eq]
  constructor
  · rintro ⟨row, ⟨hrow, -⟩, hkey⟩
    exact ⟨row, hrow, hkey⟩
  · rintro ⟨row, hrow, hkey⟩
    exact ⟨row, ⟨hrow, hkey ▸ hnew⟩, hkey⟩

theorem total_restRows (additional : Bool)
    (hfresh : change.operation ∉ done.map fun change => change.operation) :
    total (context.restRows additional done) change.operation =
      total (context.amendedRows additional) change.operation := by
  have hnew : change.operation ∉ amendedBy additional done := fun hmem => hfresh <|
    (List.filter_sublist.map _).subset hmem
  rw [restRows, total_filter (· ∉ amendedBy additional done), if_pos hnew]

theorem settleAmendment_tests [Sha256] {register : FundingRegister}
    (hregister : register.Keeps context.events)
    {left : Std.TreeMap HubRecordId WholePacks × Std.TreeMap HubRecordId WholePacks}
    (hadditional : Counts WholePacks.value left.1 (context.restRows true done))
    (hrecovered : Counts WholePacks.value left.2 (context.restRows false done))
    (hfresh : change.operation ∉ done.map fun change => change.operation) :
    Tests (context.settleAmendment register left change) (context.Backs change) fun left' =>
      Counts WholePacks.value left'.1 (context.restRows true (done ++ [change])) ∧
      Counts WholePacks.value left'.2 (context.restRows false (done ++ [change])) := by
  have hinjective : Function.Injective WholePacks.value := fun _ _ => WholePacks.ext
  have hstamped : (∃ row ∈ register.operations[change.operation]?, row.1 = change.stockRevision) ↔
      ∃ event ∈ context.events, event.operation = change.operation ∧
        event.revision = change.stockRevision := by
    simp only [Option.mem_def, hregister.operations _ _, List.mem_map]
    constructor
    · rintro ⟨row, ⟨event, hevent, hstamp⟩, hrevision⟩
      obtain ⟨hop, rfl⟩ := Prod.mk.inj hstamp
      exact ⟨event, hevent, hop, hrevision⟩
    · rintro ⟨event, hevent, hop, hrevision⟩
      exact ⟨_, ⟨event, hevent, by rw [← hop]; rfl⟩, hrevision⟩
  cases hdelta : change.delta with
  | additionalDeparture packs =>
    have hkind : change.delta.isAdditional = true := by rw [hdelta]; rfl
    have hread : left.1[change.operation]? = some packs ↔
        change.operation ∈ (context.amendedRows true).map Prod.fst ∧
        total (context.amendedRows true) change.operation = packs.value := by
      rw [hadditional.getElem?_eq_some hinjective, mem_restRows_keys true hfresh,
        total_restRows true hfresh]
    simp only [tests_iff, settleAmendment, hdelta, accepted, passed, hread, hstamped]
    constructor
    · constructor
      · rintro ⟨-, ⟨hpresent, htotal⟩, -, -, hstamp, -⟩
        exact ⟨hkind ▸ hpresent, by rw [hkind, hdelta]; exact htotal, by simp [hkind], hstamp⟩
      · intro h
        have hpresent := h.present
        have htotal := h.total_eq
        rw [hkind] at hpresent htotal
        rw [hdelta] at htotal
        exact ⟨_, ⟨hpresent, htotal⟩, _, rfl, h.stamped, rfl⟩
    · rintro left' ⟨-, _, rfl, -, rfl⟩
      refine ⟨?_, ?_⟩
      · have hrest := filter_restRows context done change
        rw [hkind] at hrest
        rw [← hrest]
        exact hadditional.erase change.operation
      · rw [restRows_of_ne (by simp [hkind])]
        exact hrecovered
  | identifiedFoundRemainder packs =>
    have hkind : change.delta.isAdditional = false := by rw [hdelta]; rfl
    have hread : left.2[change.operation]? = some packs ↔
        change.operation ∈ (context.amendedRows false).map Prod.fst ∧
        total (context.amendedRows false) change.operation = packs.value := by
      rw [hrecovered.getElem?_eq_some hinjective, mem_restRows_keys false hfresh,
        total_restRows false hfresh]
    simp only [tests_iff, settleAmendment, hdelta, accepted, passed, addFunding,
      WholePacks.foldlM_checkedAdd, WholePacks.zero_value, Nat.zero_add, hread, hstamped]
    constructor
    · constructor
      · rintro ⟨-, id, hid, review, hreview, captured, hcaptured, ⟨rfl, hpresent, htotal⟩, -, -,
          hstamp, -⟩
        refine ⟨hkind ▸ hpresent, by rw [hkind, hdelta]; exact htotal, fun _ => ?_, hstamp⟩
        exact ⟨id, review, hid, hreview, by rw [hdelta]; exact hcaptured.symm⟩
      · intro h
        have hpresent := h.present
        have htotal := h.total_eq
        obtain ⟨id, review, hid, hreview, hsum⟩ := h.reviewed hkind
        rw [hkind] at hpresent htotal
        rw [hdelta] at htotal hsum
        exact ⟨_, id, hid, review, hreview, packs, hsum.symm, ⟨rfl, hpresent, htotal⟩, _, rfl,
          h.stamped, rfl⟩
    · rintro left' ⟨_, -, _, -, _, -, -, _, rfl, -, rfl⟩
      refine ⟨?_, ?_⟩
      · rw [restRows_of_ne (by simp [hkind])]
        exact hadditional
      · have hrest := filter_restRows context done change
        rw [hkind] at hrest
        rw [← hrest]
        exact hrecovered.erase change.operation

theorem foldlM_settleAmendment_tests [Sha256] {register : FundingRegister}
    (hregister : register.Keeps context.events)
    {additional recovered : Std.TreeMap HubRecordId WholePacks}
    (hadditional : Counts WholePacks.value additional (context.amendedRows true))
    (hrecovered : Counts WholePacks.value recovered (context.amendedRows false)) :
    Tests (context.target.amendments.foldlM (context.settleAmendment register)
      (additional, recovered)) (∀ change ∈ context.target.amendments, context.Backs change)
      fun left' =>
        Counts WholePacks.value left'.1 (context.restRows true context.target.amendments) ∧
      Counts WholePacks.value left'.2 (context.restRows false context.target.amendments) := by
  obtain ⟨ledger, -, hreplayed, -⟩ := context.target.exists_ledger
  have hnodup := nodup_map_iff_fresh.mp (List.nodup_cons.mp hreplayed.nodup).2
  refine foldlM_tests (fun done => ∀ change ∈ done, context.Backs change)
    (fun done (left : Std.TreeMap HubRecordId WholePacks × Std.TreeMap HubRecordId WholePacks) =>
      Counts WholePacks.value left.1 (context.restRows true done) ∧
      Counts WholePacks.value left.2 (context.restRows false done)) ?_ ?_ ?_ ?_
  · intro done rest hbacks change hchange
    exact hbacks change (List.mem_append_left _ hchange)
  · rintro done change rest left hsplit hbacks ⟨hadditional, hrecovered⟩
    have hfresh : change.operation ∉ done.map fun change => change.operation := by
      intro hmem
      obtain ⟨earlier, hearlier, hop⟩ := List.mem_map.mp hmem
      exact hnodup done change rest hsplit earlier hearlier hop
    refine (settleAmendment_tests hregister hadditional hrecovered hfresh).congr ?_
    simp only [List.mem_append, List.mem_singleton, or_imp, forall_and, forall_eq]
    exact (and_iff_right hbacks).symm
  · simp
  · have hall : ∀ additional, context.restRows additional [] = context.amendedRows additional := by
      intro additional
      simp [restRows, amendedBy]
    rw [hall, hall]
    exact ⟨hadditional, hrecovered⟩

end FoundStockContext

/-! ## The whole history -/

/-- What the history of a line is. -/
structure FoundStockContext.Funded [Sha256] (context : FoundStockContext) (now : UnixTimestamp) :
    Prop where
  debits_le : context.funding.length ≤ hubStockEventCapacity
  rows_le : fundingRows context.funding ≤ hubStockEventCapacity
  line : LineFits context now context.funding (creditsOf context.funding)
    (returnsOf context.funding)
  chronological : Chronological context.events
  debits_apart : ∀ row ∈ context.funding, ∀ credited ∈ creditsOf context.funding,
    row.original.key.operation ≠ credited.2.operation
  returns_apart : ∀ reservation ∈ returnsOf context.funding,
    (∀ row ∈ context.funding, row.original.key.operation ≠ reservation.operation) ∧
    ∀ credited ∈ creditsOf context.funding, credited.2.operation ≠ reservation.operation
  one_base : context.funding.countP (fun row => row.original.kind ≠ .additionalQuantity) = 1
  physical_eq : (context.funding.map PhysicalDebitFunding.outstanding).sum =
    context.target.effective.value
  returned_eq : (context.funding.map fun row => row.returned.value).sum =
    context.target.establishedReturns.value
  backs : ∀ change ∈ context.target.amendments, context.Backs change
  amended : ∀ additional, ∀ row ∈ context.amendedRows additional,
    row.1 ∈ amendedBy additional context.target.amendments

namespace FoundStockContext
variable {context : FoundStockContext} {now : UnixTimestamp}

/-- No operation debits, finds and takes back. -/
theorem operations_apart_iff {scan : FundingScan}
    (h : scan.Keeps context.funding (creditsOf context.funding) (returnsOf context.funding)) :
    ¬ ((∃ operation ∈ scan.debitOperations,
        operation ∈ scan.creditOperations ∨ operation ∈ scan.returns) ∨
      ∃ operation ∈ scan.creditOperations, operation ∈ scan.returns) ↔
    (∀ row ∈ context.funding, ∀ credited ∈ creditsOf context.funding,
      row.original.key.operation ≠ credited.2.operation) ∧
    ∀ reservation ∈ returnsOf context.funding,
      (∀ row ∈ context.funding, row.original.key.operation ≠ reservation.operation) ∧
      ∀ credited ∈ creditsOf context.funding, credited.2.operation ≠ reservation.operation := by
  rw [h.debitOperations, h.creditOperations, h.return_ids]
  simp only [List.mem_toFinset, List.mem_map, not_or, not_exists, not_and]
  constructor
  · rintro ⟨hdebits, hcredits⟩
    refine ⟨fun row hrow credited hcredited heq => ?_, fun reservation hreservation => ⟨?_, ?_⟩⟩
    · exact (hdebits _ ⟨row, hrow, rfl⟩).1 credited hcredited heq.symm
    · intro row hrow heq
      exact (hdebits _ ⟨row, hrow, rfl⟩).2 reservation hreservation heq.symm
    · intro credited hcredited heq
      exact hcredits _ ⟨credited, hcredited, rfl⟩ reservation hreservation heq.symm
  · rintro ⟨hdebits, hreturns⟩
    refine ⟨?_, ?_⟩
    · rintro _ ⟨row, hrow, rfl⟩
      exact ⟨fun credited hcredited heq => hdebits row hrow credited hcredited heq.symm,
        fun reservation hreservation heq => (hreturns reservation hreservation).1 row hrow heq.symm⟩
    · rintro _ ⟨credited, hcredited, rfl⟩ reservation hreservation heq
      exact (hreturns reservation hreservation).2 credited hcredited heq.symm

/-- **What `validateFunding` accepts**, and then it returns the debits as they are. -/
theorem validateFunding_eq_ok [Sha256] {rows : List PhysicalDebitFunding} :
    context.validateFunding now = .ok rows ↔ context.Funded now ∧ rows = context.funding := by
  obtain ⟨hloopTest, hloop⟩ := context.foldlM_observeFunding_tests now context.funding
  have hrest : ∀ scan : FundingScan,
      scan.Keeps context.funding (creditsOf context.funding) (returnsOf context.funding) →
      ((∃ left : Std.TreeMap HubRecordId WholePacks × Std.TreeMap HubRecordId WholePacks,
        context.target.amendments.foldlM (context.settleAmendment scan.register)
          (scan.additional, scan.recovered) = .ok left ∧
        ¬ (left.1.isEmpty = false ∨ left.2.isEmpty = false)) ↔
      (∀ change ∈ context.target.amendments, context.Backs change) ∧
      ∀ additional, ∀ row ∈ context.amendedRows additional,
        row.1 ∈ amendedBy additional context.target.amendments) := by
    intro scan hscan
    obtain ⟨htest, hkept⟩ :=
      foldlM_settleAmendment_tests hscan.register hscan.additional hscan.recovered
    have hempty : ∀ left : Std.TreeMap HubRecordId WholePacks × Std.TreeMap HubRecordId WholePacks,
        context.target.amendments.foldlM (context.settleAmendment scan.register)
          (scan.additional, scan.recovered) = .ok left →
        (¬ (left.1.isEmpty = false ∨ left.2.isEmpty = false) ↔
          ∀ additional, ∀ row ∈ context.amendedRows additional,
            row.1 ∈ amendedBy additional context.target.amendments) := by
      intro left hleft
      obtain ⟨hadditional, hrecovered⟩ := hkept left hleft
      rw [not_or, Bool.not_eq_false, Bool.not_eq_false, hadditional.isEmpty_iff,
        hrecovered.isEmpty_iff, Bool.forall_bool, and_comm]
      simp only [restRows, List.filter_eq_nil_iff, decide_eq_true_eq, Decidable.not_not]
    constructor
    · rintro ⟨left, hleft, hdone⟩
      exact ⟨htest.mp ⟨left, hleft⟩, (hempty left hleft).mp hdone⟩
    · rintro ⟨hbacks, hamended⟩
      obtain ⟨left, hleft⟩ := htest.mpr hbacks
      exact ⟨left, hleft, (hempty left hleft).mpr hamended⟩
  simp only [validateFunding, accepted, gt_iff_lt, not_lt]
  constructor
  · rintro ⟨hdebits, hrows, scan, hscan, htimes, hapart, htotals, left, hleft, hdone, rfl⟩
    have hkeeps := hloop scan hscan
    obtain ⟨hline, -⟩ := hloopTest.mp ⟨scan, hscan⟩
    rw [operations_apart_iff hkeeps] at hapart
    simp only [not_or, ne_eq, Decidable.not_not, WholePacks.ext_iff] at htotals
    obtain ⟨hbase, hphysical, hreturned⟩ := htotals
    obtain ⟨hbacks, hamended⟩ := (hrest scan hkeeps).mp ⟨left, hleft, hdone⟩
    refine ⟨?_, hkeeps.scopes⟩
    exact {
      debits_le := hdebits
      rows_le := hrows
      line := hline
      chronological := hkeeps.register.checkTimes_eq_ok.mp htimes
      debits_apart := hapart.1
      returns_apart := hapart.2
      one_base := hkeeps.base.symm.trans hbase
      physical_eq := hkeeps.physical.symm.trans hphysical
      returned_eq := hkeeps.returned.symm.trans hreturned
      backs := hbacks
      amended := hamended }
  · rintro ⟨h, rfl⟩
    obtain ⟨scan, hscan⟩ := hloopTest.mpr ⟨h.line, scopesApart_of_operations h.debits_apart⟩
    have hkeeps := hloop scan hscan
    obtain ⟨left, hleft, hdone⟩ := (hrest scan hkeeps).mpr ⟨h.backs, h.amended⟩
    refine ⟨h.debits_le, h.rows_le, scan, hscan,
      hkeeps.register.checkTimes_eq_ok.mpr h.chronological,
      (operations_apart_iff hkeeps).mpr ⟨h.debits_apart, h.returns_apart⟩, ?_, left, hleft, hdone,
      hkeeps.scopes⟩
    simp only [not_or, ne_eq, Decidable.not_not, WholePacks.ext_iff]
    exact ⟨hkeeps.base.trans h.one_base, hkeeps.physical.trans h.physical_eq,
      hkeeps.returned.trans h.returned_eq⟩

end FoundStockContext

end HarvestCircle
