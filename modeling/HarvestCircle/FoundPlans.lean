import HarvestCircle.FundingHistory

/-! # What the planner of found stock plans

A posting is an amendment of the line, credits to its debits, groups in the lineage and one
review.  `Planned` says what they are and what they rest on; it is read off the planner once.
Everything in the history of the line is older than the plan, and belongs to other operations.
-/
namespace HarvestCircle
open Checked Registers Tallies

/-- The group of the lineage that an allocation creates. -/
def FoundStockAllocation.node (allocation : FoundStockAllocation) : PhysicalLineageNode where
  id := allocation.group.id
  parent := allocation.group.parent
  trace := allocation.group.trace
  variant := allocation.group.variant
  createdRevision := allocation.credit.stockRevision
  packs := allocation.group.packs
  recovery := some ⟨allocation.funding.key.operation, allocation.funding.stockRevision⟩

/-- The packs by the debit they are found of. -/
def allocatedRows (allocations : List FoundStockAllocation) : List (PhysicalDebitKey × Nat) :=
  allocations.map fun allocation => (allocation.credit.debit, allocation.credit.packs.value)

def allocatedPacks (allocations : List FoundStockAllocation) : Nat :=
  (allocations.map fun allocation => allocation.credit.packs.value).sum

namespace FoundStockCommand
variable [Sha256] {command : FoundStockCommand} {context : FoundStockContext}
  {operation : HubRecordId} {actor : PublicKey} {now : UnixTimestamp} {revision : HubRevision}

/-! ## The allocations -/

/-- Packs of a debit of the line, as a new group below the debited one. -/
structure Allocates (context : FoundStockContext) (operation : HubRecordId) (now : UnixTimestamp)
    (revision : HubRevision) (allocation : FoundStockAllocation) : Prop where
  source : ∃ row ∈ context.funding, row.original.key = allocation.credit.debit ∧
    row.original = allocation.funding
  operation_eq : allocation.credit.operation = operation
  revision_eq : allocation.credit.stockRevision = revision
  recorded_eq : allocation.credit.recordedAt = now
  positive : 0 < allocation.credit.packs.value
  packs_eq : allocation.group.packs = allocation.credit.packs
  group_id : foundStockGroupId operation allocation.credit.allocation = .ok allocation.group.id
  parent_eq : allocation.group.parent = some allocation.credit.debit.group
  fresh : context.lineage.node allocation.group.id = none

/-- One turn of the loop, which takes an allocation out of a row. -/
structure Extends (context : FoundStockContext) (scan scan' : FoundScan)
    (row : PhysicalDebitFunding)
    (allocation : FoundStockAllocation) (rest : WholePacks) : Prop where
  row_mem : row ∈ context.funding
  debit_eq : allocation.credit.debit = row.original.key
  available_eq : ((scan.available row.original.key).getD row.available).value =
    allocation.credit.packs.value + rest.value
  new_child : allocation.group.id ∉ scan.children
  available : scan'.available = Function.update scan.available row.original.key (some rest)
  total_eq : scan'.total.value = scan.total.value + allocation.credit.packs.value
  allocations : scan'.allocations = scan.allocations ++ [allocation]
  nodes : scan'.nodes = scan.nodes ++ [allocation.node]
  children : scan'.children = scan.children ++ [allocation.group.id]

variable {scan : FoundScan} {input : FoundStockInput × Nat}

theorem allocate_eq_ok {scan' : FoundScan}
    (h : allocate context operation now revision context.funding scan input = .ok scan') :
    ∃ row allocation rest, Extends context scan scan' row allocation rest ∧
      Allocates context operation now revision allocation ∧
      allocation.credit.allocation.toNat = input.2 := by
  obtain ⟨input, index⟩ := input
  simp only [allocate, accepted, passed, addFunding_eq_ok, WholePacks.checkedSub_eq_ok,
    PhysicalDebitFunding.availablePacks] at h
  obtain ⟨hpositive, row, hfind, -, whole, ⟨-, rfl⟩, rest, hrest, -, location, -, hbound, id, hid,
    ⟨hfresh, hnew⟩, -, sum, hsum, rfl⟩ := h
  have hrow := List.mem_of_find?_eq_some hfind
  have hkey : row.original.key = input.debit := by simpa using List.find?_some hfind
  refine ⟨row, _, rest, ⟨hrow, hkey.symm, ?_, hnew, ?_, hsum, rfl, rfl, rfl⟩, ?_, ?_⟩
  · rw [hkey]
    exact hrest
  · rw [hkey]
  · exact ⟨⟨row, hrow, hkey, rfl⟩, rfl, rfl, rfl, Nat.pos_of_ne_zero hpositive, rfl, hid,
      rfl, hfresh⟩
  · exact UInt8.toNat_ofNat_of_lt' hbound

/-- What the loop has done. -/
structure Allocated (context : FoundStockContext) (operation : HubRecordId) (now : UnixTimestamp)
    (revision : HubRevision) (done : List (FoundStockInput × Nat)) (scan : FoundScan) : Prop where
  each : ∀ allocation ∈ scan.allocations, Allocates context operation now revision allocation
  indices : (scan.allocations.map fun allocation => allocation.credit.allocation.toNat) =
    List.range done.length
  nodes : scan.nodes = context.lineage.nodes ++ scan.allocations.map FoundStockAllocation.node
  children : scan.children = scan.allocations.map fun allocation => allocation.group.id
  ids_nodup : (scan.allocations.map fun allocation => allocation.group.id).Nodup
  total_eq : scan.total.value = allocatedPacks scan.allocations
  available : ∀ row ∈ context.funding,
    ((scan.available row.original.key).getD row.available).value +
    total (allocatedRows scan.allocations) row.original.key = row.available.value

theorem Allocated.step (hkeys : (context.funding.map fun row => row.original.key).Nodup)
    {done : List (FoundStockInput × Nat)} {scan' : FoundScan} (hindex : input.2 = done.length)
    (h : Allocated context operation now revision done scan)
    (hstep : allocate context operation now revision context.funding scan input = .ok scan') :
    Allocated context operation now revision (done ++ [input]) scan' := by
  obtain ⟨row, allocation, rest, hext, hallocates, hallocation⟩ := allocate_eq_ok hstep
  exact {
    each := by
      rw [hext.allocations]
      simpa [or_imp, forall_and] using ⟨h.each, hallocates⟩
    indices := by
      rw [hext.allocations, List.map_append, h.indices, List.map_singleton, hallocation, hindex,
        List.length_append, List.length_singleton, List.range_succ]
    nodes := by simp [hext.nodes, hext.allocations, h.nodes]
    children := by simp [hext.children, hext.allocations, h.children]
    ids_nodup := by
      rw [hext.allocations]
      exact nodup_map_concat.mpr ⟨h.ids_nodup, h.children ▸ hext.new_child⟩
    total_eq := by simp [hext.total_eq, hext.allocations, h.total_eq, allocatedPacks]
    available := by
      intro other hother
      have hrows : total (allocatedRows scan'.allocations) other.original.key =
          total (allocatedRows scan.allocations) other.original.key +
            if row.original.key = other.original.key then allocation.credit.packs.value else 0 := by
        rw [hext.allocations, allocatedRows, List.map_append, total_append, List.map_singleton,
          total_singleton, hext.debit_eq]
        rfl
      have hbefore := h.available other hother
      rw [hrows, hext.available]
      by_cases hsame : row.original.key = other.original.key
      · obtain rfl := List.inj_on_of_nodup_map hkeys hext.row_mem hother hsame
        have havailable := hext.available_eq
        rw [Function.update_self, if_pos rfl, Option.getD_some]
        omega
      · rw [Function.update_of_ne (Ne.symm hsame), if_neg hsame, Nat.add_zero]
        exact hbefore }

/-- The loop from its start. -/
theorem allocated_of_foldlM (hkeys : (context.funding.map fun row => row.original.key).Nodup)
    {labels : Finset HubLabel}
    (h : command.allocations.zipIdx.foldlM (allocate context operation now revision context.funding)
      ⟨fun _ => none, labels, .zero, [], context.lineage.nodes, []⟩ = .ok scan) :
    Allocated context operation now revision command.allocations.zipIdx scan := by
  refine foldlM_invariant (Allocated context operation now revision) ?_ ?_ h
  · exact ⟨by simp, rfl, by simp, rfl, .nil, rfl, by simp [allocatedRows]⟩
  · intro done input rest scan scan' hsplit hdone hstep
    refine hdone.step hkeys ?_ hstep
    have hget : command.allocations.zipIdx[done.length]? = some input := by
      rw [hsplit, List.getElem?_append_right (Nat.le_refl _), Nat.sub_self]
      rfl
    rw [List.getElem?_zipIdx, Option.map_eq_some_iff] at hget
    obtain ⟨_, -, rfl⟩ := hget
    exact Nat.zero_add _

/-! ## The plan -/

/-- What a plan adds to the line, the lineage and the treatment, and what it rests on. -/
structure Planned (context : FoundStockContext) (operation : HubRecordId) (actor : PublicKey)
    (now : UnixTimestamp) (plan : FoundStockPlan) : Prop where
  hub_eq : context.lineage.hub = context.hub
  trace_eq : context.lineage.trace = context.target.original.trace
  variant_eq : context.lineage.variant = context.target.original.variant
  lineage_revision : context.lineage.revision = context.stockRevision
  latest_le : context.latestRecordedAt ≤ now
  target_ne : operation ≠ context.target.original.operation
  new_amendment : ∀ change ∈ context.target.amendments, change.operation ≠ operation
  fits : context.treatment.Fits context.lineage
  funded : context.Funded now
  unused : Unused context.funding operation
  recorded_eq : plan.recordedAt = now
  amendment_operation : plan.amendment.operation = operation
  revision_eq : plan.amendment.stockRevision.value = context.stockRevision.value + 1
  delta_eq : ∃ found, plan.amendment.delta = .identifiedFoundRemainder found ∧
    found.value = allocatedPacks plan.allocations
  effective_eq : context.target.effective.value =
    allocatedPacks plan.allocations + plan.amendment.after.value
  account : ∃ account, DepartureQuantityAccount.restore context.target.original
    (context.target.amendments ++ [plan.amendment]) context.target.establishedReturns = .ok account
  each : ∀ allocation ∈ plan.allocations,
    Allocates context operation now plan.amendment.stockRevision allocation
  nonempty : plan.allocations ≠ []
  length_le : plan.allocations.length ≤ hubFoundAllocations
  indices : (plan.allocations.map fun allocation => allocation.credit.allocation.toNat) =
    List.range plan.allocations.length
  ids_nodup : (plan.allocations.map fun allocation => allocation.group.id).Nodup
  available : ∀ row ∈ context.funding,
    total (allocatedRows plan.allocations) row.original.key ≤ row.available.value
  lineage : PhysicalLineage.new context.hub context.target.original.trace
    context.target.original.variant plan.amendment.stockRevision
    (context.lineage.nodes ++ plan.allocations.map FoundStockAllocation.node) =
      .ok plan.afterLineage
  review_id : treatmentRecordId operation = .ok plan.reviewRequired.stamp.id
  review_revision : plan.reviewRequired.stamp.stockRevision = plan.amendment.stockRevision
  review_recorded : plan.reviewRequired.stamp.recordedAt = now
  review_scope : plan.afterLineage.capture
    (plan.allocations.map fun allocation => allocation.group.id) = .ok plan.reviewRequired.scope
  treatment_eq : plan.afterTreatment = {
    decisions := context.treatment.decisions, holds := context.treatment.holds
    initialReviews := context.treatment.initialReviews ++ [plan.reviewRequired] }
  after_fits : plan.afterTreatment.Fits plan.afterLineage

theorem planned_of_plan {plan : FoundStockPlan}
    (h : command.plan context operation actor now = .ok plan) :
    Planned context operation actor now plan := by
  simp only [FoundStockCommand.plan, checkTarget, reviewRequired,
    TreatmentState.restoreWithInitialReviews, accepted, HubRevision.next_eq_ok,
    WholePacks.checkedSub_eq_ok, passed, not_exists, not_and, TreatmentState.validate_eq_ok,
    FoundStockContext.validateFunding_eq_ok] at h
  obtain ⟨⟨-, -, -, ⟨hne, hlength, -, -⟩, ⟨-, -, htrace, hvariant, hhub, hrevision⟩, hlatest,
    htarget, hnew⟩, revision, hnext, -, -, projection, hproject, -, _, ⟨hfunded, rfl⟩, hunused,
    labels, -, scan, hscan, after, hafter, account, haccount, afterLineage, hlineage, review,
    ⟨id, hid, scope, hscope, rfl⟩, afterTreatment, ⟨hfits, rfl⟩, -, -, rfl⟩ := h
  have hallocated := allocated_of_foldlM hfunded.line.keys hscan
  have hcount : scan.allocations.length = command.allocations.length := by
    simpa using congrArg List.length hallocated.indices
  have hindices := hallocated.indices
  rw [List.length_zipIdx, ← hcount] at hindices
  rw [hallocated.nodes] at hlineage
  rw [hallocated.children] at hscope
  exact {
    hub_eq := hhub
    trace_eq := htrace
    variant_eq := hvariant
    lineage_revision := hrevision
    latest_le := hlatest
    target_ne := htarget
    new_amendment := hnew
    fits := (TreatmentState.project_eq_ok hproject).1
    funded := hfunded
    unused := hunused
    recorded_eq := rfl
    amendment_operation := rfl
    revision_eq := hnext
    delta_eq := ⟨_, rfl, hallocated.total_eq⟩
    effective_eq := by rw [hafter, hallocated.total_eq]
    account := ⟨account, haccount⟩
    each := hallocated.each
    nonempty := fun hnil => hne (List.length_eq_zero_iff.mp (hcount ▸ congrArg List.length hnil))
    length_le := hcount ▸ hlength
    indices := hindices
    ids_nodup := hallocated.ids_nodup
    available := fun row hrow => by
      have havailable := hallocated.available row hrow
      dsimp only
      omega
    lineage := hlineage
    review_id := hid
    review_revision := rfl
    review_recorded := rfl
    review_scope := hscope
    treatment_eq := rfl
    after_fits := hfits }

end FoundStockCommand

namespace FoundStockCommand.Planned
variable [Sha256] {context : FoundStockContext} {operation : HubRecordId} {actor : PublicKey}
  {now : UnixTimestamp} {plan : FoundStockPlan}

/-- Everything in the history is older than the plan. -/
theorem event_lt (h : Planned context operation actor now plan) {event : FundingEvent}
    (hevent : event ∈ context.events) :
    event.revision.value < plan.amendment.stockRevision.value ∧ event.recordedAt ≤ now ∧
      event.operation ≠ operation := by
  refine ⟨?_, (h.funded.line.events.latest_le event hevent).trans h.latest_le, ?_⟩
  · have hle := h.funded.line.events.revision_le event hevent
    rw [h.revision_eq]
    omega
  · rcases mem_lineEvents.mp hevent with ⟨row, hrow, rfl⟩ | ⟨⟨debit, credit⟩, hcredit, rfl⟩ |
      ⟨reservation, hreservation, rfl⟩
    · exact (h.unused row hrow).1
    · obtain ⟨row, hrow, -, hmem⟩ := mem_creditsOf.mp hcredit
      exact (h.unused row hrow).2.1 credit hmem
    · obtain ⟨row, hrow, hmem⟩ := mem_returnsOf.mp hreservation
      exact (h.unused row hrow).2.2 reservation hmem

variable {row : PhysicalDebitFunding}

section
variable (h : Planned context operation actor now plan)
include h

theorem debit_lt (hrow : row ∈ context.funding) :
    row.original.stockRevision.value < plan.amendment.stockRevision.value ∧
      row.original.recordedAt ≤ now ∧ row.original.key.operation ≠ operation :=
  h.event_lt (mem_lineEvents.mpr (.inl ⟨row, hrow, rfl⟩))

theorem credit_lt (hrow : row ∈ context.funding) {credit : FoundFundingCredit}
    (hcredit : credit ∈ row.credits) :
    credit.stockRevision.value < plan.amendment.stockRevision.value ∧
      credit.recordedAt ≤ now ∧ credit.operation ≠ operation :=
  h.event_lt (mem_lineEvents.mpr (.inr (.inl
    ⟨(row.original, credit), mem_creditsOf.mpr ⟨row, hrow, rfl, hcredit⟩, rfl⟩)))

theorem return_lt (hrow : row ∈ context.funding) {reservation : EstablishedReturnReservation}
    (hreservation : reservation ∈ row.returns) :
    reservation.stockRevision.value < plan.amendment.stockRevision.value ∧
      reservation.recordedAt ≤ now ∧ reservation.operation ≠ operation :=
  h.event_lt (mem_lineEvents.mpr (.inr (.inr
    ⟨reservation, mem_returnsOf.mpr ⟨row, hrow, hreservation⟩, rfl⟩)))

theorem allocation_lt {allocation : FoundStockAllocation}
    (hallocation : allocation ∈ plan.allocations) :
    allocation.credit.allocation.toNat < hubFoundAllocations := by
  have hmem : allocation.credit.allocation.toNat ∈ List.range plan.allocations.length := by
    rw [← h.indices]
    exact List.mem_map_of_mem (f := fun allocation : FoundStockAllocation =>
      allocation.credit.allocation.toNat) hallocation
  exact (List.mem_range.mp hmem).trans_le h.length_le

/-- The allocations of a plan are told apart by their index. -/
theorem credit_ids :
    (plan.allocations.map fun allocation =>
      (allocation.credit.operation, allocation.credit.allocation)).Nodup := by
  have hindices : (plan.allocations.map fun allocation =>
      allocation.credit.allocation.toNat).Nodup := by
    rw [h.indices]
    exact List.nodup_range
  rw [List.Nodup, List.pairwise_map] at hindices ⊢
  exact hindices.imp fun hne heq => hne (congrArg (fun id => id.2.toNat) heq)

theorem nodes_perm : plan.afterLineage.nodes.Perm
    (context.lineage.nodes ++ plan.allocations.map FoundStockAllocation.node) := by
  rw [(PhysicalLineage.new_eq_ok.mp h.lineage).2.2.2.2]
  exact sortNodes_perm _

theorem mem_nodes {node : PhysicalLineageNode} :
    node ∈ plan.afterLineage.nodes ↔ node ∈ context.lineage.nodes ∨
      ∃ allocation ∈ plan.allocations, allocation.node = node := by
  rw [h.nodes_perm.mem_iff, List.mem_append, List.mem_map]

/-- The lineage has the found packs in addition. -/
theorem nodePacks_eq :
    nodePacks plan.afterLineage.nodes =
      nodePacks context.lineage.nodes + allocatedPacks plan.allocations := by
  have hnew : (plan.allocations.map FoundStockAllocation.node).map (fun node => node.packs.value) =
      plan.allocations.map fun allocation => allocation.credit.packs.value := by
    rw [List.map_map]
    refine List.map_congr_left fun allocation hallocation => ?_
    exact congrArg WholePacks.value (h.each allocation hallocation).packs_eq
  rw [nodePacks, (h.nodes_perm.map _).sum_eq, List.map_append, List.sum_append, hnew]
  rfl

theorem mem_anchors {anchor : PhysicalScopeAnchor} :
    anchor ∈ plan.reviewRequired.scope.anchors ↔ ∃ allocation ∈ plan.allocations,
      anchor = ⟨allocation.group.id, plan.amendment.stockRevision, allocation.credit.packs⟩ := by
  obtain ⟨-, -, -, -, hanchors⟩ := PhysicalLineage.capture_eq_ok h.review_scope
  have hnode : ∀ allocation ∈ plan.allocations, (⟨allocation.node.id,
      allocation.node.createdRevision, allocation.node.packs⟩ : PhysicalScopeAnchor) =
        ⟨allocation.group.id, plan.amendment.stockRevision, allocation.credit.packs⟩ := by
    intro allocation hallocation
    rw [← (h.each allocation hallocation).revision_eq, ← (h.each allocation hallocation).packs_eq]
    rfl
  rw [hanchors]
  constructor
  · rintro ⟨node, hnodes, hid, rfl⟩
    obtain ⟨allocation, hallocation, hgroup⟩ := List.mem_map.mp hid
    have hmem := h.mem_nodes.mpr (.inr ⟨allocation, hallocation, rfl⟩)
    obtain rfl := PhysicalLineage.node_ext hmem hnodes hgroup
    exact ⟨allocation, hallocation, hnode allocation hallocation⟩
  · rintro ⟨allocation, hallocation, rfl⟩
    exact ⟨allocation.node, h.mem_nodes.mpr (.inr ⟨allocation, hallocation, rfl⟩),
      List.mem_map.mpr ⟨allocation, hallocation, rfl⟩, (hnode allocation hallocation).symm⟩

/-- The review has captured what was found. -/
theorem captured_eq :
    (plan.reviewRequired.scope.anchors.map fun anchor => anchor.capturedPacks.value).sum =
      allocatedPacks plan.allocations := by
  have hperm : plan.reviewRequired.scope.anchors.Perm (plan.allocations.map fun allocation =>
      ⟨allocation.group.id, plan.amendment.stockRevision, allocation.credit.packs⟩) := by
    refine (List.perm_ext_iff_of_nodup ?_ ?_).mpr fun anchor => ?_
    · exact List.Pairwise.imp (S := (· ≠ ·))
        (fun hlt heq => hlt.ne (congrArg PhysicalScopeAnchor.group heq))
        plan.reviewRequired.scope.wellFormed.sorted
    · have hids := h.ids_nodup
      rw [List.Nodup, List.pairwise_map] at hids ⊢
      exact hids.imp fun hne heq => hne (congrArg PhysicalScopeAnchor.group heq)
    · rw [h.mem_anchors, List.mem_map]
      exact exists_congr fun allocation => and_congr_right fun _ => eq_comm
  rw [(hperm.map _).sum_eq, List.map_map]
  rfl

end

end FoundStockCommand.Planned

end HarvestCircle
