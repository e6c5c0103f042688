import HarvestCircle.PostedHistory
import HarvestCircle.TreatmentHistory

/-! # What was found is reviewed again

An acceptance given to a group reaches what is recovered from a later debit of that group, so
the packs that are found may well be covered by a decision that accepted them long ago.  The
review the posting opens is later than every such decision.  It captures the new groups at
their creation, and a group inherits from its parent whatever was captured by then, so the
review covers everything that comes of the new groups (`Planned.mem_members`).  As long as no
decision is taken on such a group itself, the review or a later one is the latest verdict.
-/
namespace HarvestCircle
open Checked

/-- A later state: holds may have been released, and records may have been added. -/
structure TreatmentState.ExtendedTo (state state' : TreatmentState) : Prop where
  decisions : state.decisions ⊆ state'.decisions
  holds : ∀ hold ∈ state.holds, ∃ hold' ∈ state'.holds, hold'.stamp = hold.stamp ∧
    hold'.scope = hold.scope ∧ (hold.release = none ∨ hold'.release = hold.release)
  reviews : state.initialReviews ⊆ state'.initialReviews

/-- The groups a plan creates, and all that is separated or recovered from them. -/
def FoundStockPlan.Yields (plan : FoundStockPlan) (L : PhysicalLineage) : HubRecordId → Prop :=
  lineageFamily.Member (fun _ => True)
    (fun node => ∃ allocation ∈ plan.allocations, allocation.group.id = node.id) L.nodes

namespace FoundStockCommand.Planned
variable [Sha256] {context : FoundStockContext} {operation : HubRecordId} {actor : PublicKey}
  {now : UnixTimestamp} {plan : FoundStockPlan} {L : PhysicalLineage}

theorem afterLineage_revision (h : Planned context operation actor now plan) :
    plan.afterLineage.revision = plan.amendment.stockRevision :=
  (PhysicalLineage.new_eq_ok.mp h.lineage).2.2.2.1

theorem scope_captured (h : Planned context operation actor now plan) :
    plan.reviewRequired.scope.capturedRevision = plan.amendment.stockRevision := by
  obtain ⟨-, -, -, hcaptured, -⟩ := PhysicalLineage.capture_eq_ok h.review_scope
  rw [hcaptured, h.afterLineage_revision]

/-- What is posted is accounted for: its review is opened after every depletion so far. -/
theorem accounts (h : Planned context operation actor now plan) {depletions : List Depletion}
    (hrecords : ∀ d ∈ depletions, plan.afterLineage.Records d)
    (haccounts : context.treatment.Accounts plan.afterLineage depletions) :
    plan.afterTreatment.Accounts plan.afterLineage depletions := by
  refine h.after_fits.accounts haccounts fun review hreview => ?_
  rw [h.treatment_eq, List.mem_append, List.mem_singleton] at hreview
  refine hreview.imp id fun hopened d hd => ?_
  obtain ⟨-, -, -, -, hle⟩ := hrecords d hd
  rwa [hopened, h.scope_captured, ← h.afterLineage_revision]

variable {allocation : FoundStockAllocation} {node : PhysicalLineageNode}

section
variable (h : Planned context operation actor now plan)
  (hkept : StockHistory.Persists plan.afterLineage.nodes L.nodes)
include h hkept

/-- A group of the plan, in any later lineage. -/
theorem child_node (hallocation : allocation ∈ plan.allocations) (hnode : node ∈ L.nodes)
    (hid : allocation.group.id = node.id) :
    node.parent = some allocation.credit.debit.group ∧
      node.createdRevision = plan.amendment.stockRevision ∧
      node.recovery =
        some ⟨allocation.funding.key.operation, allocation.funding.stockRevision⟩ := by
  have hallocates := h.each allocation hallocation
  obtain ⟨n, hn, hsame, hparent, hcreated, hrecovery⟩ :=
    hkept allocation.node (h.mem_nodes.mpr (.inr ⟨allocation, hallocation, rfl⟩))
  obtain rfl := L.node_ext hn hnode (hsame.trans hid)
  exact ⟨hparent.trans hallocates.parent_eq, hcreated.trans hallocates.revision_eq, hrecovery⟩

/-- **The review reaches all that comes of the plan.** -/
theorem mem_members {id : HubRecordId} (hyields : plan.Yields L id) :
    id ∈ L.members plan.reviewRequired.scope := by
  -- along with it, nothing that comes of the plan is older than the plan
  suffices id ∈ L.members plan.reviewRequired.scope ∧ ∀ node ∈ L.nodes, node.id = id →
      plan.amendment.stockRevision.value ≤ node.createdRevision.value from this.1
  induction hyields with
  | @base node hnode hfound =>
    obtain ⟨allocation, hallocation, hid⟩ := hfound
    refine ⟨(PhysicalLineage.mem_members_iff hnode).mpr (.inl ?_), fun other hother hsame => ?_⟩
    · exact CapturedPhysicalScope.mem_groups.mpr
        ⟨_, h.mem_anchors.mpr ⟨allocation, hallocation, rfl⟩, hid⟩
    · obtain rfl := L.node_ext hother hnode hsame
      rw [(h.child_node hkept hallocation hnode hid).2.1]
  | @inherit node parent hnode _ hparent _ ih =>
    obtain ⟨hmember, hcreated⟩ := ih
    obtain ⟨above, habove, hid, holder, horigin⟩ :=
      L.wellFormed.parent_older node hnode parent hparent
    have hle := hcreated above habove hid
    refine ⟨(PhysicalLineage.mem_members_iff hnode).mpr (.inr ⟨?_, parent, hparent, hmember⟩),
      fun other hother hsame => ?_⟩
    · rw [h.scope_captured]
      exact ⟨hle.trans_lt holder, fun origin ho => hle.trans_lt (horigin origin ho).1⟩
    · obtain rfl := L.node_ext hother hnode hsame
      exact hle.trans holder.le

/-- A scope captured before the debit reaches from the debited group to what was found of it. -/
theorem mem_members_of_parent (hallocation : allocation ∈ plan.allocations) (hnode : node ∈ L.nodes)
    (hid : allocation.group.id = node.id) {scope : CapturedPhysicalScope}
    (hparent : allocation.credit.debit.group ∈ L.members scope)
    (hcaptured : scope.capturedRevision.value < allocation.funding.stockRevision.value) :
    node.id ∈ L.members scope := by
  obtain ⟨hbelow, hcreated, hrecovery⟩ := h.child_node hkept hallocation hnode hid
  obtain ⟨row, hrow, -, hfunding⟩ := (h.each allocation hallocation).source
  have hdebit := (h.debit_lt hrow).1
  rw [hfunding] at hdebit
  refine (PhysicalLineage.mem_members_iff hnode).mpr (.inr ⟨⟨?_, ?_⟩, _, hbelow, hparent⟩)
  · rw [hcreated]
    exact hcaptured.trans hdebit
  · intro origin horigin
    rw [hrecovery] at horigin
    cases horigin
    exact hcaptured

end

/-- The decisions the plan found are older than its review. -/
theorem decision_lt (h : Planned context operation actor now plan) {decision : AcceptanceDecision}
    (hdecision : decision ∈ plan.afterTreatment.decisions) :
    decision.stamp.stockRevision.value < plan.reviewRequired.stamp.stockRevision.value := by
  rw [h.treatment_eq] at hdecision
  have hle := (h.fits.decision decision hdecision).1.revision_le
  rw [h.review_revision, h.revision_eq]
  rw [h.lineage_revision] at hle
  omega

end FoundStockCommand.Planned

namespace TreatmentState
variable {state : TreatmentState} {L : PhysicalLineage} {node : PhysicalLineageNode}

/-- A group with packs is covered by a scope it belongs to. -/
theorem covers_of_mem_members {scope : CapturedPhysicalScope} (hnode : node ∈ L.nodes)
    (hpacks : 0 < node.packs.value) (h : node.id ∈ L.members scope) : Covers L scope node.id := by
  refine ⟨node, List.mem_filter.mpr ⟨hnode, ?_⟩, rfl⟩
  exact decide_eq_true ⟨hpacks, scope, List.mem_singleton_self _, h⟩

/-- A group is to be reviewed when a review covers it that is later than every decision on it. -/
theorem reviewRequired_of_later {review : InitialGroupReview}
    (hreview : review ∈ state.initialReviews) (hcovers : Covers L review.scope node.id)
    (hlater : ∀ decision ∈ state.decisions, Covers L decision.scope node.id →
      decision.stamp.stockRevision.value < review.stamp.stockRevision.value) :
    (state.treatmentOf L node).acceptance = .reviewRequired := by
  cases hlatest : state.latest L node.id with
  | none => simp [treatmentOf, hlatest]
  | some best =>
    obtain ⟨stamp, status⟩ := best
    obtain ⟨v, hv, rfl, rfl, hcovered, hmax⟩ := latest_eq_some hlatest
    simp only [treatmentOf, hlatest, Option.map_some, Option.getD_some]
    rcases List.mem_append.mp hv with hv | hv
    · obtain ⟨decision, hdecision, rfl⟩ := List.mem_map.mp hv
      have hle := hmax ⟨review.stamp, review.scope, .reviewRequired⟩
        (List.mem_append_right _ (List.mem_map.mpr ⟨review, hreview, rfl⟩)) hcovers
      exact absurd hle (hlater decision hdecision hcovered).not_ge
    · obtain ⟨other, -, rfl⟩ := List.mem_map.mp hv
      rfl

end TreatmentState

/-- **Found stock is never eligible on the strength of an old acceptance.**  In every later
lineage and state, a group that comes of the plan is to be reviewed unless a decision added since
resolves to it; and a hold on the group the packs were taken from, captured before they were,
is in force on what was found. -/
theorem found_stock_is_reviewed_again [Sha256] {command : FoundStockCommand}
    {context : FoundStockContext} {operation : HubRecordId} {actor : PublicKey}
    {now : UnixTimestamp} {plan : FoundStockPlan}
    (hplan : command.plan context operation actor now = .ok plan)
    {earlier : List Depletion} {s : StockHistory} (hrun : (plan.afterLineage.history earlier).Run s)
    {L : PhysicalLineage} (hnew : PhysicalLineage.new plan.afterLineage.hub plan.afterLineage.trace
      plan.afterLineage.variant s.revision s.nodes = .ok L)
    {state : TreatmentState} (hextended : plan.afterTreatment.ExtendedTo state)
    (hvalid : state.validate L = .ok ()) (basis : SampleHandlingBasis) :
    ∃ projection, state.project L basis = .ok projection ∧
      (projection.groups.map fun group => (group.group, group.packs)) =
        (L.nodes.filter fun node => 0 < node.packs.value).map (fun node => (node.id, node.packs)) ∧
      (∀ group ∈ projection.groups, plan.Yields L group.group →
        (∀ decision ∈ state.decisions, decision ∉ plan.afterTreatment.decisions →
          ¬ L.Resolves decision.scope group.group) →
        group.acceptance = .reviewRequired ∧ group.allows basis .normalDeparture = false) ∧
      ∀ allocation ∈ plan.allocations, ∀ group ∈ projection.groups,
        group.group = allocation.group.id → ∀ hold ∈ state.holds, hold.release = none →
        L.InScope hold.scope allocation.credit.debit.group →
        hold.scope.capturedRevision.value < allocation.funding.stockRevision.value →
        hold.stamp.id ∈ group.activeHolds := by
  have hplanned := FoundStockCommand.planned_of_plan hplan
  have hkept := hrun.persists.trans (PhysicalLineage.persists_of_new hnew)
  have hfits := TreatmentState.validate_eq_ok.mp hvalid
  obtain ⟨projection, hproject⟩ := TreatmentState.project_succeeds hfits basis
  obtain ⟨-, -, -, -, hgroups⟩ := TreatmentState.project_eq_ok hproject
  refine ⟨projection, hproject, by rw [hgroups, List.map_map]; rfl, ?_, ?_⟩
  · rw [hgroups, List.forall_mem_map]
    intro node hmem hyields hapart
    obtain ⟨hnode, hpacks⟩ := List.mem_filter.mp hmem
    have hreview : (state.treatmentOf L node).acceptance = .reviewRequired := by
      have hopened : plan.reviewRequired ∈ state.initialReviews :=
        hextended.reviews (by simp [hplanned.treatment_eq])
      refine TreatmentState.reviewRequired_of_later hopened ?_ ?_
      · exact TreatmentState.covers_of_mem_members hnode (by simpa using hpacks)
          (hplanned.mem_members hkept hyields)
      · intro decision hdecision hcovers
        by_cases hold : decision ∈ plan.afterTreatment.decisions
        · exact hplanned.decision_lt hold
        · have hadmits := (hfits.decision decision hdecision).2.admits
          exact absurd ((TreatmentState.resolves_iff_covers hadmits).mpr hcovers)
            (hapart decision hdecision hold)
    exact ⟨hreview, by simp [GroupTreatment.allows, hreview]⟩
  · intro allocation hallocation
    rw [hgroups, List.forall_mem_map]
    intro node hmem hid hold hhold hrelease hinScope hcaptured
    obtain ⟨hnode, hpacks⟩ := List.mem_filter.mp hmem
    have hparent := (PhysicalLineage.inScope_iff (hfits.hold hold hhold).scope.admits).mp hinScope
    rw [TreatmentState.treatmentOf, List.mem_insertionSort, TreatmentState.mem_activeHolds_iff]
    exact ⟨hold, hhold, hrelease, TreatmentState.covers_of_mem_members hnode (by simpa using hpacks)
      (hplanned.mem_members_of_parent hkept hallocation hnode hid.symm hparent hcaptured), rfl⟩

/-! ### Four packs of the crate -/

/-- The crate left at revision six. -/
def missingDebit : OriginalPhysicalDebit where
  key := ⟨.of 23, .of 10⟩
  kind := .normalDeparture
  target := ⟨.of 23, .of 10, .of 2, .of 3, .of 6, .of 10⟩
  before := crate
  packs := .of 10
  stockRevision := .of 6
  recordedAt := crateTime

theorem missing_held : 2 ≤ (HubRevision.of 4).value := by decide

/-- The crate was put on hold before it left. -/
def missingHold : Hold := ⟨crateStamp (.of 33) (.of 5), crateScope (.of 4) missing_held, none⟩

/-- The crate was accepted, too. -/
def missingContext : FoundStockContext where
  family := .normal
  hub := .of 1
  stockRevision := .of 6
  catalog := crateCatalog
  latestRecordedAt := crateTime
  target := {
    original := missingDebit.target, amendments := [], effective := .of 10, additional := .zero
    found := .zero, establishedReturns := .zero, restored := ⟨_, rfl, rfl, rfl, rfl⟩ }
  funding := [{
    original := missingDebit, credits := [], returns := [], unresolvedReturns := false
    recovered := .zero, returned := .zero, available := .of 10, restored := rfl }]
  lineage := {
    hub := .of 1, trace := .of 2, variant := .of 3, revision := .of 6
    nodes := [crateNode .zero], wellFormed := (checkNodes_eq_ok (by simp)).mp (by decide) }
  treatment := {
    decisions := crateTreatment.state.decisions
    holds := [missingHold]
    initialReviews := [] }
  activeIdentifications := []
  uncertainSubmissions := false

def missingCommand : FoundStockCommand where
  targetOperation := .of 23
  targetGroup := .of 10
  expectedStockRevision := .of 6
  expectedCatalogRevision := .initial
  allocations := [⟨⟨.of 23, .of 10⟩, .of 4, .of 7, ⟨⟨"found", Eq.refl true⟩, crateNote⟩, crateNote⟩]
  basis := crateNote

/-- The four packs are covered by the old acceptance, and are to be reviewed and on hold. -/
theorem found_stock_is_reviewed_again_crate : let _ : Sha256 := bulkDigest
    ∃ plan projection,
      missingCommand.plan missingContext (.of 900000) crateActor crateTime = .ok plan ∧
      plan.afterTreatment.project plan.afterLineage .wholePackV1 = .ok projection ∧
      TreatmentState.Covers plan.afterLineage (crateScope (.of 2) (by decide)) bulkChild.id ∧
      ∀ group ∈ projection.groups, group.group = bulkChild.id →
        group.acceptance = .reviewRequired ∧ missingHold.stamp.id ∈ group.activeHolds := by
  intro
  have hfacts : (missingCommand.plan missingContext (.of 900000) crateActor crateTime).map
      (fun plan => (plan.allocations.map (fun allocation => (allocation.group.id,
          allocation.credit.debit.group, allocation.funding.stockRevision)),
        plan.afterTreatment.holds,
        decide (plan.afterLineage.InScope missingHold.scope (.of 10)),
        decide (TreatmentState.Covers plan.afterLineage (crateScope (.of 2) (by decide))
          bulkChild.id))) =
      .ok ([(bulkChild.id, .of 10, .of 6)], missingContext.treatment.holds, true, true) := by
    decide +kernel
  obtain ⟨plan, hplan, hfacts⟩ := map_eq_ok.mp hfacts
  simp only [Prod.mk.injEq, decide_eq_true_eq] at hfacts
  obtain ⟨hallocations, hholds, hparent, hcovers⟩ := hfacts
  obtain ⟨allocation, hallocation, hfound⟩ := List.map_eq_singleton_iff.mp hallocations
  obtain ⟨hchild, hgroup, hdebit⟩ := by simpa only [Prod.mk.injEq] using hfound
  have hmem : allocation ∈ plan.allocations := by simp [hallocation]
  have hplanned := FoundStockCommand.planned_of_plan hplan
  have hnow : (plan.afterLineage.history []).Run (plan.afterLineage.history []) := .refl
  obtain ⟨projection, hproject, -, hreview, hheld⟩ := found_stock_is_reviewed_again hplan hnow
    plan.afterLineage.new_self
    ⟨List.Subset.refl _, fun hold hhold => ⟨hold, hhold, rfl, rfl, .inr rfl⟩, List.Subset.refl _⟩
    (TreatmentState.validate_eq_ok.mpr hplanned.after_fits) .wholePackV1
  refine ⟨plan, projection, hplan, hproject, hcovers, fun group hmem' hid => ⟨?_, ?_⟩⟩
  · refine (hreview group hmem' ?_ fun decision hdecision hadded => absurd hdecision hadded).1
    have hnode := hplanned.mem_nodes.mpr (.inr ⟨allocation, hmem, rfl⟩)
    rw [hid, ← hchild]
    exact .base hnode ⟨allocation, hmem, rfl⟩
  · refine hheld allocation hmem group hmem' (hid.trans hchild.symm) missingHold ?_ rfl ?_ ?_
    · rw [hholds]
      exact List.mem_singleton_self _
    · rw [hgroup]
      exact hparent
    · rw [hdebit]
      decide

end HarvestCircle
