import HarvestCircle.FoundPostings

/-! # The history after a posting of found stock

The next posting accepts what the last one left, as long as its rows have room.  Whether they
have is asked only then: a planner does not count the rows that it adds.
-/
namespace HarvestCircle
open Checked Registers Tallies

namespace FoundStockContext
variable {context next : FoundStockContext} {operation : HubRecordId} {actor : PublicKey}
  {now : UnixTimestamp} {plan : FoundStockPlan}

theorem validateFunding_of_lt [Sha256] (hdebits : context.funding.length ≤ hubStockEventCapacity)
    (hrows : hubStockEventCapacity < fundingRows context.funding) :
    context.validateFunding now = .error .capacity := by
  rw [validateFunding, refuse, if_neg hdebits.not_gt, refuse, if_pos hrows]
  rfl

theorem after_succeeds [Sha256] (hplan : FoundStockCommand.Planned context operation actor now plan)
    (hroom : ∀ row ∈ context.funding,
      row.credits.length + plan.allocations.length ≤ hubStockEventCapacity) :
    ∃ next, context.after plan = .ok next := by
  obtain ⟨target, htarget⟩ := hplan.account
  obtain ⟨funding, hfunding⟩ := mapM_succeeds (f := plan.post) (l := context.funding)
    fun row hrow => hplan.post_succeeds hrow (hroom row hrow)
  simp only [after, accepted]
  exact ⟨_, target, htarget, funding, hfunding, rfl⟩

theorem credits_length_le {row : PhysicalDebitFunding} (hrow : row ∈ context.funding) :
    row.credits.length ≤ fundingRows context.funding :=
  (Nat.le_add_right _ _).trans (List.le_sum_of_mem
    (List.mem_map_of_mem (f := fun row : PhysicalDebitFunding =>
      row.credits.length + row.returns.length) hrow))

end FoundStockContext

/-! ## The history after a posting -/

/-- **A posting leaves a history that the next posting accepts, as long as its rows have room.**
What the departure loses the stock gains, and nothing recorded before is changed. -/
theorem posting_leaves_history [Sha256] {command : FoundStockCommand} {context : FoundStockContext}
    {operation : HubRecordId} {actor : PublicKey} {now later : UnixTimestamp}
    {plan : FoundStockPlan} (h : command.plan context operation actor now = .ok plan)
    (hlater : now ≤ later) :
    ((∃ next, context.after plan = .ok next ∧ next.validateFunding later = .ok next.funding) ↔
      fundingRows context.funding + plan.allocations.length ≤ hubStockEventCapacity) ∧
    ∀ next, context.after plan = .ok next →
      (hubStockEventCapacity < fundingRows context.funding + plan.allocations.length →
        next.validateFunding later = .error .capacity) ∧
      (∃ found, context.target.effective.value = next.target.effective.value + found ∧
        nodePacks next.lineage.nodes = nodePacks context.lineage.nodes + found) ∧
      (∀ node ∈ context.lineage.nodes, node ∈ next.lineage.nodes) ∧
      next.treatment.decisions = context.treatment.decisions ∧
      next.treatment.holds = context.treatment.holds ∧
      context.treatment.initialReviews <+: next.treatment.initialReviews ∧
      List.Forall₂ (fun row row' : PhysicalDebitFunding => row'.original = row.original ∧
        row.credits <+: row'.credits ∧ row'.returns = row.returns ∧
        row'.unresolvedReturns = row.unresolvedReturns) context.funding next.funding := by
  have hplan := FoundStockCommand.planned_of_plan h
  refine ⟨⟨?_, fun hroom => ?_⟩, fun next hnext => ?_⟩
  · rintro ⟨next, hnext, hvalid⟩
    have hafter := FoundStockContext.after_of_eq_ok hnext
    rw [← hafter.fundingRows_eq hplan]
    exact (FoundStockContext.validateFunding_eq_ok.mp hvalid).1.rows_le
  · obtain ⟨next, hnext⟩ := FoundStockContext.after_succeeds hplan fun row hrow => by
      have hle := FoundStockContext.credits_length_le hrow
      omega
    have hafter := FoundStockContext.after_of_eq_ok hnext
    exact ⟨next, hnext,
      FoundStockContext.validateFunding_eq_ok.mpr ⟨hafter.funded hplan hlater hroom, rfl⟩⟩
  · have hafter := FoundStockContext.after_of_eq_ok hnext
    refine ⟨fun hfull => ?_, ⟨_, hafter.effective_eq hplan, ?_⟩,
      fun node hnode => hafter.mem_nodes_of_mem hplan hnode, ?_, ?_, ?_, ?_⟩
    · refine FoundStockContext.validateFunding_of_lt ?_ ((hafter.fundingRows_eq hplan) ▸ hfull)
      rw [← hafter.rows.length_eq]
      exact hplan.funded.debits_le
    · rw [hafter.lineage_eq]
      exact hplan.nodePacks_eq
    · rw [hafter.treatment_eq, hplan.treatment_eq]
    · rw [hafter.treatment_eq, hplan.treatment_eq]
    · rw [hafter.treatment_eq, hplan.treatment_eq]
      exact List.prefix_append _ _
    · refine hafter.rows.imp fun row row' hposted => ?_
      exact ⟨hposted.original_eq, hposted.credits_eq ▸ List.prefix_append _ _, hposted.returns_eq,
        hposted.unresolved_eq⟩

/-! ### A departure of forty thousand packs in eight steps -/

/-- SHA-256 on the strings that are hashed when a pack is found. -/
@[reducible] def bulkDigest : Sha256 where
  digest bytes :=
    if bytes = utf8 "harvestcircle.hub.correction.found.group.v1\x00" ++ bigEndian 16 900000 ++
      [0] then
      0xbef36d3826efdd7cdb9a9a9e55bf8d2dfe0bf44d0a42d8c1cba8605da592424f
    else if bytes = utf8 "harvestcircle.hub.treatment.record.v1\x00" ++ bigEndian 16 900000 then
      0x082424de5568619f8edf1d79e9b37dea00ef886b8d8578b8d5adef165a0d1d49
    else 0

/-- The operation that has the given place in the history. -/
def bulkOperation (place : Fin 40000) : HubRecordId :=
  ⟨place.val + 1, Nat.succ_pos _, by omega⟩

def bulkRevision (place : Fin 40000) : HubRevision :=
  ⟨place.val + 2, Nat.succ_pos _, by unfold hubRevisionMaximum; omega⟩

/-- The place of a step, or of a return after it. -/
def bulkPlace (step : Fin 8) (offset : Nat) : Fin 40000 :=
  ⟨5000 * step.val + offset % 5000, by omega⟩

def bulkTarget : OriginalDepartureQuantity where
  operation := bulkOperation (bulkPlace 0 0)
  group := .of 10
  trace := .of 2
  variant := .of 3
  stockRevision := bulkRevision (bulkPlace 0 0)
  packs := .of 5000

def bulkKey (step : Fin 8) : PhysicalDebitKey := ⟨bulkOperation (bulkPlace step 0), .of 10⟩

def bulkDebit (step : Fin 8) : OriginalPhysicalDebit where
  key := bulkKey step
  kind := if step = 0 then .reviewedActual else .additionalQuantity
  target := bulkTarget
  before := { crate with
    packs := ⟨5000 * (8 - step.val), by unfold hubMaxWholePacks; omega⟩
    work := [] }
  packs := .of 5000
  stockRevision := bulkRevision (bulkPlace step 0)
  recordedAt := crateTime

def bulkReturn (step : Fin 8) (number : Nat) : EstablishedReturnReservation where
  operation := bulkOperation (bulkPlace step (number + 1))
  debit := bulkKey step
  packs := .of 1
  stockRevision := bulkRevision (bulkPlace step (number + 1))
  recordedAt := crateTime

theorem bulkOperation_inj {a b : Fin 40000} : bulkOperation a = bulkOperation b ↔ a = b := by
  simp [bulkOperation, Fin.ext_iff]

theorem bulkPlace_inj {step step' : Fin 8} {offset offset' : Nat} (h : offset < 5000)
    (h' : offset' < 5000) :
    bulkPlace step offset = bulkPlace step' offset' ↔ step = step' ∧ offset = offset' := by
  simp only [bulkPlace, Fin.ext_iff]
  omega

def bulkReturns (step : Fin 8) (count : Nat) : List EstablishedReturnReservation :=
  (List.range count).map (bulkReturn step)

variable {count : Nat}

theorem mem_bulkReturns {step : Fin 8} {reservation : EstablishedReturnReservation} :
    reservation ∈ bulkReturns step count ↔
      ∃ number < count, bulkReturn step number = reservation := by
  simp [bulkReturns]

theorem reservedPacks_bulkReturns (step : Fin 8) (count : Nat) :
    reservedPacks (bulkReturns step count) = count := by
  simp [reservedPacks, bulkReturns, bulkReturn, Function.comp_def]

/-- Operations, revisions and times of the history go together. -/
theorem functional_bulk {rows : List (Nat × HubRecordId)}
    (h : ∀ row ∈ rows, ∃ place, row = ((bulkRevision place).value, bulkOperation place)) :
    Functional rows := by
  intro revision operation operation' hrow hrow'
  obtain ⟨place, hplace⟩ := h _ hrow
  obtain ⟨place', hplace'⟩ := h _ hrow'
  obtain ⟨hrevision, rfl⟩ := Prod.mk.inj hplace
  obtain ⟨hrevision', rfl⟩ := Prod.mk.inj hplace'
  rw [bulkOperation_inj, Fin.ext_iff]
  simp only [bulkRevision] at hrevision hrevision'
  omega

theorem bulk_settles (step : Fin 8) (hcount : count ≤ hubTraceCapacity) :
    (bulkDebit step).Settles [] (bulkReturns step count) := by
  have hvalid : ∀ step, (bulkDebit step).validate = .ok () := by decide
  have hlimit : count ≤ 4096 := hcount
  have hother : ∀ number < count, ∀ step', bulkPlace step (number + 1) ≠ bulkPlace step' 0 := by
    intro number hnumber step' heq
    have := ((bulkPlace_inj (by omega) (by omega)).mp heq).2
    omega
  refine ⟨hvalid step, Nat.zero_le _, by simpa [bulkReturns] using hcount, ?_, ?_, ?_⟩
  · refine ⟨by simp, by simp, by simp [creditStamps, Functional], ?_, Nat.zero_le _⟩
    exact functional_of_forall_eq _ fun row hrow => List.mem_singleton.mp hrow
  · refine ⟨?_, by simp, ?_, ?_, ?_⟩
    · intro reservation hreservation
      obtain ⟨number, hnumber, rfl⟩ := mem_bulkReturns.mp hreservation
      exact {
        debit_eq := rfl
        positive := Nat.one_pos
        operation_ne := fun heq => hother number hnumber step (bulkOperation_inj.mp heq)
        target_ne := fun heq => hother number hnumber 0 (bulkOperation_inj.mp heq)
        later := by
          simp only [bulkDebit, bulkReturn, bulkRevision, bulkPlace]
          omega
        recorded := le_refl _ }
    · rw [bulkReturns, List.map_map]
      refine List.Nodup.map_on ?_ List.nodup_range
      intro number hnumber number' hnumber' heq
      rw [List.mem_range] at hnumber hnumber'
      have := ((bulkPlace_inj (by omega) (by omega)).mp (bulkOperation_inj.mp heq)).2
      omega
    · refine functional_bulk fun row hrow => ?_
      rcases List.mem_append.mp hrow with hrow | hrow
      · rw [List.mem_singleton.mp hrow]
        exact ⟨_, rfl⟩
      · obtain ⟨reservation, hreservation, rfl⟩ := List.mem_map.mp hrow
        obtain ⟨number, -, rfl⟩ := mem_bulkReturns.mp hreservation
        exact ⟨_, rfl⟩
    · rw [reservedPacks_bulkReturns]
      unfold hubMaxWholePacks
      omega
  · rw [reservedPacks_bulkReturns]
    exact (Nat.zero_add _).trans_le (hlimit.trans (show 4096 ≤ 5000 by decide))

theorem bulk_count_le (hcount : count ≤ hubTraceCapacity) : count ≤ hubMaxWholePacks :=
  hcount.trans (by decide)

theorem bulk_rest_le (count : Nat) : 5000 - count ≤ hubMaxWholePacks :=
  (Nat.sub_le _ _).trans (by decide)

/-- A step of the departure, of which some packs have come back one by one. -/
def bulkRow (count : Nat) (hcount : count ≤ hubTraceCapacity) (step : Fin 8) :
    PhysicalDebitFunding where
  original := bulkDebit step
  credits := []
  returns := bulkReturns step count
  unresolvedReturns := false
  recovered := .zero
  returned := ⟨count, bulk_count_le hcount⟩
  available := ⟨5000 - count, bulk_rest_le count⟩
  restored := OriginalPhysicalDebit.settle_eq_ok.mpr ⟨bulk_settles step hcount, rfl,
    (reservedPacks_bulkReturns step count).symm, by
      have hlimit : count ≤ 4096 := hcount
      simp only [bulkDebit, WholePacks.zero_value]
      omega⟩

def bulkRows (count : Nat) (hcount : count ≤ hubTraceCapacity) : List PhysicalDebitFunding :=
  (List.finRange 8).map (bulkRow count hcount)

/-- What was added to the departure, seven times. -/
def bulkAmendments : List DepartureQuantityAmendment :=
  (List.finRange 7).map fun step => {
    operation := bulkOperation (bulkPlace step.succ 0)
    stockRevision := bulkRevision (bulkPlace step.succ 0)
    before := ⟨5000 * (step.val + 1), by unfold hubMaxWholePacks; omega⟩
    after := ⟨5000 * (step.val + 2), by unfold hubMaxWholePacks; omega⟩
    delta := .additionalDeparture (.of 5000) }

theorem bulk_replays (amendments : List DepartureQuantityAmendment) (returned : WholePacks)
    (hlength : amendments.length ≤ hubCorrectionRows)
    (hrun : (amendments.foldlM DepartureLedger.enter (.start bulkTarget)).isOk = true)
    (hreturned : returned.value + (amendments.map fun change => change.delta.recovered).sum ≤
      5000 + (amendments.map fun change => change.delta.added).sum) :
    ∃ ledger, DepartureLedger.replay bulkTarget amendments returned = .ok ledger ∧
      ledger.effective.value + (amendments.map fun change => change.delta.recovered).sum =
        5000 + (amendments.map fun change => change.delta.added).sum ∧
      ledger.additional.value = (amendments.map fun change => change.delta.added).sum ∧
      ledger.found.value = (amendments.map fun change => change.delta.recovered).sum := by
  obtain ⟨ledger, hledger⟩ := exists_of_isOk hrun
  have hreplayed := DepartureLedger.replayed_of_foldlM hledger
  have heffective := hreplayed.effective_eq
  rw [hreplayed.additional_eq, hreplayed.found_eq, show bulkTarget.packs.value = 5000 by rfl]
    at heffective
  refine ⟨ledger, ?_, heffective, hreplayed.additional_eq, hreplayed.found_eq⟩
  simp only [DepartureLedger.replay, accepted]
  exact ⟨hlength.not_gt, by decide, ledger, hledger, by omega, rfl⟩

def bulkAccount (count : Nat) (hcount : count ≤ hubTraceCapacity) : DepartureQuantityAccount where
  original := bulkTarget
  amendments := bulkAmendments
  effective := .of 40000
  additional := .of 35000
  found := .zero
  establishedReturns := ⟨8 * count,
    by have : count ≤ 4096 := hcount; unfold hubMaxWholePacks; omega⟩
  restored := by
    have hlimit : count ≤ 4096 := hcount
    have hadded : (bulkAmendments.map fun change => change.delta.added).sum = 35000 := by decide
    have hrecovered : (bulkAmendments.map fun change => change.delta.recovered).sum = 0 := by decide
    obtain ⟨ledger, hledger, heffective, hadditional, hfound⟩ := bulk_replays
      bulkAmendments ⟨8 * count, by unfold hubMaxWholePacks; omega⟩
      (by decide) (by decide) (by rw [hadded, hrecovered]; dsimp only; omega)
    rw [hadded, hrecovered] at heffective
    exact ⟨ledger, hledger, WholePacks.ext heffective, WholePacks.ext (hadditional.trans hadded),
      WholePacks.ext (hfound.trans hrecovered)⟩

/-- Nothing is left of the group. -/
def bulkLineage : PhysicalLineage where
  hub := .of 1
  trace := .of 2
  variant := .of 3
  revision := .of 40002
  nodes := [⟨.of 10, none, .of 2, .of 3, .initial, .zero, none⟩]
  wellFormed := (checkNodes_eq_ok (by simp)).mp (by decide)

def bulkContext (count : Nat) (hcount : count ≤ hubTraceCapacity) : FoundStockContext where
  family := .reviewedActual
  hub := .of 1
  stockRevision := .of 40002
  catalog := crateCatalog
  latestRecordedAt := crateTime
  target := bulkAccount count hcount
  funding := bulkRows count hcount
  lineage := bulkLineage
  treatment := ⟨[], [], []⟩
  activeIdentifications := []
  uncertainSubmissions := false

section
variable {count : Nat} {hcount : count ≤ hubTraceCapacity}

theorem mem_bulkRows {row : PhysicalDebitFunding} :
    row ∈ bulkRows count hcount ↔ ∃ step, bulkRow count hcount step = row := by
  simp [bulkRows]

theorem bulkContext_funding : (bulkContext count hcount).funding = bulkRows count hcount := rfl

theorem creditsOf_bulkRows : creditsOf (bulkRows count hcount) = [] := by
  simp [creditsOf, bulkRows, bulkRow]

theorem not_mem_creditsOf_bulk {credited : OriginalPhysicalDebit × FoundFundingCredit} :
    credited ∉ creditsOf (bulkContext count hcount).funding := by
  simp [bulkContext_funding, creditsOf_bulkRows]

theorem mem_returnsOf_bulkRows {reservation : EstablishedReturnReservation} :
    reservation ∈ returnsOf (bulkRows count hcount) ↔
      ∃ step, ∃ number < count, bulkReturn step number = reservation := by
  rw [mem_returnsOf]
  constructor
  · rintro ⟨row, hrow, hreservation⟩
    obtain ⟨step, rfl⟩ := mem_bulkRows.mp hrow
    exact ⟨step, mem_bulkReturns.mp hreservation⟩
  · rintro ⟨step, hreservation⟩
    exact ⟨_, mem_bulkRows.mpr ⟨step, rfl⟩, mem_bulkReturns.mpr hreservation⟩

/-- Every event of the history has a place. -/
theorem mem_bulk_events {event : FundingEvent} (h : event ∈ (bulkContext count hcount).events) :
    ∃ place, event = ⟨bulkOperation place, bulkRevision place, crateTime⟩ := by
  rcases mem_lineEvents.mp h with ⟨row, hrow, rfl⟩ | ⟨credited, hcredited, -⟩ |
    ⟨reservation, hreservation, rfl⟩
  · obtain ⟨step, rfl⟩ := mem_bulkRows.mp hrow
    exact ⟨_, rfl⟩
  · exact absurd hcredited not_mem_creditsOf_bulk
  · obtain ⟨step, number, -, rfl⟩ := mem_returnsOf_bulkRows.mp hreservation
    exact ⟨_, rfl⟩

theorem bulk_eventsFit :
    (bulkContext count hcount).EventsFit crateTime (bulkContext count hcount).events where
  revision_le event hevent := by
    obtain ⟨place, rfl⟩ := mem_bulk_events hevent
    have := place.isLt
    simp only [bulkRevision, bulkContext]
    omega
  recorded_le event hevent := by
    obtain ⟨place, rfl⟩ := mem_bulk_events hevent
    exact le_refl _
  latest_le event hevent := by
    obtain ⟨place, rfl⟩ := mem_bulk_events hevent
    exact le_refl _
  owners := functional_bulk fun row hrow => by
    obtain ⟨event, hevent, rfl⟩ := List.mem_map.mp hrow
    obtain ⟨place, rfl⟩ := mem_bulk_events hevent
    exact ⟨place, rfl⟩
  stamps := by
    intro operation stamp stamp' hstamp hstamp'
    obtain ⟨event, hevent, heq⟩ := List.mem_map.mp hstamp
    obtain ⟨event', hevent', heq'⟩ := List.mem_map.mp hstamp'
    obtain ⟨place, rfl⟩ := mem_bulk_events hevent
    obtain ⟨place', rfl⟩ := mem_bulk_events hevent'
    obtain ⟨rfl, rfl⟩ := Prod.mk.inj heq
    obtain ⟨hop, rfl⟩ := Prod.mk.inj heq'
    rw [bulkOperation_inj.mp hop]

theorem bulk_return_ids :
    ((returnsOf (bulkRows count hcount)).map fun row => row.operation).Nodup := by
  have hlimit : count ≤ 4096 := hcount
  rw [returnsOf, bulkRows, List.flatMap_map, List.map_flatMap, List.nodup_flatMap]
  refine ⟨fun step _ => (bulk_settles step hcount).returns_fit.identities, ?_⟩
  refine (List.nodup_finRange 8).imp fun hne operation hmem hmem' => ?_
  obtain ⟨_, hreservation, rfl⟩ := List.mem_map.mp hmem
  obtain ⟨_, hreservation', heq⟩ := List.mem_map.mp hmem'
  obtain ⟨number, hnumber, rfl⟩ := mem_bulkReturns.mp hreservation
  obtain ⟨number', hnumber', rfl⟩ := mem_bulkReturns.mp hreservation'
  exact hne ((bulkPlace_inj (by omega) (by omega)).mp (bulkOperation_inj.mp heq)).1.symm

theorem bulk_originals {α : Type} (f : OriginalPhysicalDebit → α) :
    (bulkRows count hcount).map (fun row => f row.original) =
      (List.finRange 8).map fun step => f (bulkDebit step) := by
  rw [bulkRows, List.map_map]
  rfl

theorem bulk_outstanding : (bulkRows count hcount).map PhysicalDebitFunding.outstanding =
    List.replicate 8 5000 := rfl

theorem bulk_returned : ((bulkRows count hcount).map fun row => row.returned.value) =
    List.replicate 8 count := rfl

theorem additionalRows_bulkRows : additionalRows (bulkRows count hcount) =
    (List.finRange 7).map fun step => (bulkOperation (bulkPlace step.succ 0), 5000) := rfl

theorem bulk_lineFits [Sha256] : LineFits (bulkContext count hcount) crateTime
    (bulkRows count hcount) (creditsOf (bulkRows count hcount))
    (returnsOf (bulkRows count hcount)) := by
  have hlimit : count ≤ 4096 := hcount
  exact {
    keys := by
      rw [bulk_originals OriginalPhysicalDebit.key]
      decide
    target := fun row hrow => by
      obtain ⟨step, rfl⟩ := mem_bulkRows.mp hrow
      rfl
    parent := fun row hrow => by
      obtain ⟨step, rfl⟩ := mem_bulkRows.mp hrow
      have hparent : ∀ step,
          (bulkContext 0 (Nat.zero_le _)).checkParent (bulkDebit step) = .ok () := by decide
      exact hparent step
    kind := fun row hrow => by
      obtain ⟨step, rfl⟩ := mem_bulkRows.mp hrow
      have hkind : ∀ step, (bulkDebit step).kind = .additionalQuantity ∨
        CorrectedDepartureFamily.reviewedActual.baseKind = .ok (bulkDebit step).kind := by decide
      exact hkind step
    credit := by simp [creditsOf_bulkRows]
    credit_ids := by simp [creditsOf_bulkRows]
    return_ids := bulk_return_ids
    events := bulk_eventsFit
    physical_le := by
      rw [bulk_outstanding]
      decide
    returned_le := by
      rw [bulk_returned, List.sum_replicate_nat]
      unfold hubMaxWholePacks
      omega
    additional_le := fun operation => (total_le_sum _ operation).trans (by
      rw [additionalRows_bulkRows]
      decide)
    recovered_le := fun operation => by
      simp [creditsOf_bulkRows, recoveredRows] }

theorem bulk_fundingRows : fundingRows (bulkRows count hcount) = 8 * count := by
  have hrows : (bulkRows count hcount).map (fun row => row.credits.length + row.returns.length) =
      List.replicate 8 count := by
    rw [List.eq_replicate_iff]
    refine ⟨by simp [bulkRows], fun rows hrows => ?_⟩
    obtain ⟨row, hrow, rfl⟩ := List.mem_map.mp hrows
    obtain ⟨step, rfl⟩ := mem_bulkRows.mp hrow
    simp [bulkRow, bulkReturns]
  rw [fundingRows, hrows, List.sum_replicate_nat]

theorem bulk_backs [Sha256] {change : DepartureQuantityAmendment} (h : change ∈ bulkAmendments) :
    (bulkContext count hcount).Backs change := by
  obtain ⟨step, -, rfl⟩ := List.mem_map.mp h
  have hpresent : ∀ step : Fin 7, bulkOperation (bulkPlace step.succ 0) ∈ ((List.finRange 7).map
      fun step => (bulkOperation (bulkPlace step.succ 0), 5000)).map Prod.fst := by decide
  have htotal : ∀ step : Fin 7, total ((List.finRange 7).map
      fun step => (bulkOperation (bulkPlace step.succ 0), 5000))
        (bulkOperation (bulkPlace step.succ 0)) = 5000 := by decide
  refine ⟨hpresent step, htotal step, by simp [DepartureQuantityDelta.isAdditional], ?_⟩
  exact ⟨_, mem_lineEvents.mpr (.inl ⟨_, mem_bulkRows.mpr ⟨step.succ, rfl⟩, rfl⟩), rfl, rfl⟩

theorem bulk_funded [Sha256] : (bulkContext count hcount).Funded crateTime := by
  have hlimit : count ≤ 4096 := hcount
  exact {
    debits_le := by
      rw [show (bulkContext count hcount).funding.length = 8 from rfl]
      decide
    rows_le := by
      rw [bulkContext_funding, bulk_fundingRows]
      unfold hubStockEventCapacity
      omega
    line := bulk_lineFits
    chronological := fun event hevent later hlater _ => by
      obtain ⟨place, rfl⟩ := mem_bulk_events hevent
      obtain ⟨place', rfl⟩ := mem_bulk_events hlater
      exact le_refl _
    debits_apart := fun row hrow credited hcredited => absurd hcredited not_mem_creditsOf_bulk
    returns_apart := fun reservation hreservation => by
      obtain ⟨step, number, hnumber, rfl⟩ := mem_returnsOf_bulkRows.mp hreservation
      refine ⟨fun row hrow heq => ?_,
        fun credited hcredited => absurd hcredited not_mem_creditsOf_bulk⟩
      obtain ⟨step', rfl⟩ := mem_bulkRows.mp hrow
      have := ((bulkPlace_inj (by omega) (by omega)).mp (bulkOperation_inj.mp heq)).2
      omega
    one_base := rfl
    physical_eq := by
      rw [bulkContext_funding, bulk_outstanding]
      rfl
    returned_eq := by
      rw [bulkContext_funding, bulk_returned, List.sum_replicate_nat]
      rfl
    backs := fun change hchange => bulk_backs hchange
    amended := fun additional row hrow => by
      cases additional with
      | true =>
        have hamended : ∀ row ∈ (List.finRange 7).map
            fun step => (bulkOperation (bulkPlace step.succ 0), 5000),
            row.1 ∈ amendedBy true bulkAmendments := by decide
        exact hamended row hrow
      | false =>
        rw [FoundStockContext.amendedRows, bulkContext_funding, creditsOf_bulkRows] at hrow
        cases hrow }

/-- One pack is found of the first step. -/
def bulkCommand : FoundStockCommand where
  targetOperation := bulkOperation (bulkPlace 0 0)
  targetGroup := .of 10
  expectedStockRevision := .of 40002
  expectedCatalogRevision := .initial
  allocations := [⟨bulkKey 0, .of 1, .of 7, ⟨⟨"found", Eq.refl true⟩, crateNote⟩, crateNote⟩]
  basis := crateNote

def bulkFound : DepartureQuantityAmendment where
  operation := .of 900000
  stockRevision := .of 40003
  before := .of 40000
  after := .of 39999
  delta := .identifiedFoundRemainder (.of 1)

/-- The group of the pack. -/
def bulkChild : PhysicalLineageNode where
  id := .of 0xbef36d3826efdd7cdb9a9a9e55bf8d2d
  parent := some (.of 10)
  trace := .of 2
  variant := .of 3
  createdRevision := .of 40003
  packs := .of 1
  recovery := some ⟨bulkOperation (bulkPlace 0 0), bulkRevision (bulkPlace 0 0)⟩

/-- What the pack makes of the lineage and the treatment does not depend on the returns. -/
theorem bulk_reviews : let _ : Sha256 := bulkDigest
    ∃ afterLineage review afterTreatment projection,
      PhysicalLineage.new (.of 1) (.of 2) (.of 3) (.of 40003) (bulkLineage.nodes ++ [bulkChild]) =
        .ok afterLineage ∧
      bulkCommand.reviewRequired (bulkContext 0 (Nat.zero_le _)) (.of 900000) crateActor crateTime
        (.of 40003) afterLineage [bulkChild.id] = .ok review ∧
      TreatmentState.restoreWithInitialReviews afterLineage [] [] [review] = .ok afterTreatment ∧
      afterTreatment.project afterLineage .wholePackV1 = .ok projection := by
  intro
  have hrun : (do
      let afterLineage ← mapErr (fun _ => ()) (PhysicalLineage.new (.of 1) (.of 2) (.of 3)
        (.of 40003) (bulkLineage.nodes ++ [bulkChild]))
      let review ← mapErr (fun _ => ()) (bulkCommand.reviewRequired (bulkContext 0 (Nat.zero_le _))
        (.of 900000) crateActor crateTime (.of 40003) afterLineage [bulkChild.id])
      let afterTreatment ← mapErr (fun _ => ())
        (TreatmentState.restoreWithInitialReviews afterLineage [] [] [review])
      mapErr (fun _ => ()) (afterTreatment.project afterLineage .wholePackV1) :
        Except Unit TreatmentProjection).isOk = true := by decide +kernel
  obtain ⟨projection, hprojection⟩ := exists_of_isOk hrun
  simp only [accepted] at hprojection
  obtain ⟨afterLineage, hlineage, review, hreview, afterTreatment, htreatment, hprojection⟩ :=
    hprojection
  exact ⟨afterLineage, review, afterTreatment, projection, hlineage, hreview, htreatment,
    hprojection⟩

theorem bulk_unused : FoundStockCommand.Unused (bulkRows count hcount) (.of 900000) := by
  have hother : ∀ place, bulkOperation place ≠ .of 900000 := by
    intro place heq
    have := congrArg HubRecordId.value heq
    simp only [bulkOperation] at this
    omega
  intro row hrow
  obtain ⟨step, rfl⟩ := mem_bulkRows.mp hrow
  refine ⟨hother _, by simp [bulkRow], fun reservation hreservation => ?_⟩
  obtain ⟨number, -, rfl⟩ := mem_bulkReturns.mp hreservation
  exact hother _

theorem bulk_allocates : let _ : Sha256 := bulkDigest
    ∃ scan, bulkCommand.allocations.zipIdx.foldlM
      (FoundStockCommand.allocate (bulkContext count hcount)
      (.of 900000) crateTime (.of 40003) (bulkRows count hcount))
      ⟨fun _ => none, ∅, .zero, [], bulkLineage.nodes, []⟩ = .ok scan ∧ scan.total = .of 1 ∧
      scan.nodes = bulkLineage.nodes ++ [bulkChild] ∧ scan.children = [bulkChild.id] ∧
      scan.allocations.length = 1 := by
  intro
  have hlimit : count ≤ 4096 := hcount
  have hid : foundStockGroupId (.of 900000) (UInt8.ofNat 0) = .ok bulkChild.id := by decide +kernel
  have hunused := @bulk_unused count hcount _ (mem_bulkRows.mpr ⟨0, rfl⟩)
  have hfind : (bulkRows count hcount).find? (fun row => row.original.key = bulkKey 0) =
      some (bulkRow count hcount 0) := rfl
  simp only [bulkCommand, List.zipIdx_cons, List.zipIdx_nil, List.foldlM_cons, List.foldlM_nil,
    FoundStockCommand.allocate, accepted, hfind, hid]
  refine ⟨_, ⟨_, ⟨by decide, _, rfl, ?_, (bulkRow count hcount 0).available, rfl,
    ⟨4999 - count, (Nat.sub_le _ _).trans (by decide)⟩, ?_, by simp [bulkRow, bulkDebit, crate],
    crateShelf, rfl, by decide, _, rfl, ?_, rfl, .of 1, rfl, rfl⟩, rfl⟩, rfl, rfl, rfl, rfl⟩
  · rintro (hop | ⟨reservation, hreservation, hop⟩)
    · exact hunused.1 hop
    · exact hunused.2.2 reservation hreservation hop
  · rw [WholePacks.checkedSub_eq_ok]
    simp only [Option.getD_none, bulkRow]
    omega
  · have hnode : bulkLineage.node bulkChild.id = none := by decide
    rintro (hsome | hmem)
    · exact hsome hnode
    · cases hmem

theorem bulk_plans (hcount : count ≤ hubTraceCapacity) :
    let _ : Sha256 := bulkDigest
    ∃ plan, bulkCommand.plan (bulkContext count hcount) (.of 900000) crateActor crateTime =
      .ok plan ∧ plan.allocations.length = 1 := by
  intro
  have hlimit : count ≤ 4096 := hcount
  obtain ⟨scan, hscan, htotal, hnodes, hchildren, hlength⟩ :=
    @bulk_allocates count hcount
  obtain ⟨afterLineage, review, afterTreatment, projection, hlineage, hreview, htreatment,
    hprojection⟩ := bulk_reviews
  have htarget : bulkCommand.checkTarget (bulkContext 0 (Nat.zero_le _)) (.of 900000) crateTime =
      .ok () := by decide
  have hpack : ∃ record, crateCatalog.requireKind (.of 3) .pack = .ok record :=
    exists_of_isOk (by decide)
  have hbefore : ∃ before, (⟨[], [], []⟩ : TreatmentState).project bulkLineage .wholePackV1 =
      .ok before := exists_of_isOk (by decide)
  have hlabels : FoundStockCommand.labels (bulkContext count hcount) = .ok ∅ := rfl
  have haccount : ∃ account, DepartureQuantityAccount.restore bulkTarget (bulkAmendments ++
      [bulkFound]) (bulkAccount count hcount).establishedReturns = .ok account := by
    have hadded : ((bulkAmendments ++ [bulkFound]).map fun change => change.delta.added).sum =
        35000 := by decide
    have hrecovered :
        ((bulkAmendments ++ [bulkFound]).map fun change => change.delta.recovered).sum =
        1 := by decide
    obtain ⟨ledger, hledger, -⟩ := bulk_replays (bulkAmendments ++ [bulkFound])
      (bulkAccount count hcount).establishedReturns (by decide) (by decide) (by
        rw [hadded, hrecovered]
        simp only [bulkAccount]
        omega)
    exact ⟨_, attach_bind_eq_ok.mpr ⟨ledger, hledger, rfl⟩⟩
  obtain ⟨record, hpack⟩ := hpack
  obtain ⟨before, hbefore⟩ := hbefore
  obtain ⟨account, haccount⟩ := haccount
  simp only [FoundStockCommand.plan, FoundStockContext.validateFunding_eq_ok, accepted,
    Decidable.not_not, HubRevision.next_eq_ok]
  refine ⟨_, ⟨htarget, .of 40003, rfl, record, hpack, before, hbefore, ?_, _, ⟨bulk_funded, rfl⟩,
    bulk_unused, ∅, hlabels, scan, hscan, .of 39999, ?_, account, ?_, afterLineage, ?_, review, ?_,
    afterTreatment, htreatment, projection, hprojection, rfl⟩, hlength⟩
  · show (⟨[], [], []⟩ : TreatmentState).RecordedBy crateTime
    decide
  · rw [htotal, WholePacks.checkedSub_eq_ok]
    rfl
  · rw [htotal]
    exact haccount
  · rw [hnodes]
    exact hlineage
  · rw [hchildren]
    exact hreview

end

/-- The pack is found although 32,768 packs came back one by one, and the history it leaves has
one row too many. -/
theorem posting_over_capacity : let _ : Sha256 := bulkDigest
    ∃ plan next, bulkCommand.plan (bulkContext 4096 (le_refl _)) (.of 900000) crateActor crateTime =
        .ok plan ∧
      (bulkContext 4096 (le_refl _)).after plan = .ok next ∧
      next.validateFunding crateTime = .error .capacity := by
  intro
  obtain ⟨plan, hplan, hlength⟩ := bulk_plans (le_refl 4096)
  have hplanned := FoundStockCommand.planned_of_plan hplan
  obtain ⟨next, hnext⟩ := FoundStockContext.after_succeeds hplanned fun row hrow => by
    obtain ⟨step, rfl⟩ := mem_bulkRows.mp hrow
    rw [hlength]
    exact show 0 + 1 ≤ hubStockEventCapacity by decide
  have hafter := FoundStockContext.after_of_eq_ok hnext
  refine ⟨plan, next, hplan, hnext, FoundStockContext.validateFunding_of_lt ?_ ?_⟩
  · rw [← hafter.rows.length_eq]
    exact hplanned.funded.debits_le
  · rw [hafter.fundingRows_eq hplanned, hlength]
    exact (@bulk_fundingRows 4096 (le_refl 4096)).symm ▸ by decide

/-- With three returns after each step there is room. -/
theorem posting_leaves_history_bulk : let _ : Sha256 := bulkDigest
    ∃ plan next, bulkCommand.plan (bulkContext 3 (by decide)) (.of 900000) crateActor crateTime =
        .ok plan ∧
      (bulkContext 3 (by decide)).after plan = .ok next ∧
      next.validateFunding (.of 2000) = .ok next.funding := by
  intro
  obtain ⟨plan, hplan, hlength⟩ := bulk_plans (show 3 ≤ hubTraceCapacity by decide)
  have hlater : crateTime ≤ .of 2000 := by decide
  obtain ⟨next, hnext, hvalid⟩ := (posting_leaves_history hplan hlater).1.mpr (by
    rw [hlength]
    exact (@bulk_fundingRows 3 (by decide)).symm ▸ by decide)
  exact ⟨plan, next, hplan, hnext, hvalid⟩

end HarvestCircle
