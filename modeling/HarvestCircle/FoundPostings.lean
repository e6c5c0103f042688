import HarvestCircle.FoundPlans

/-! # What a posting of found stock leaves behind

The next context has the plan added to it (`after`), and the history of the line is checked
again when more packs turn up: everything that was checked before the posting still holds of
the old rows beside the new ones.  Only the number of rows grows without the planner looking
at it.
-/
namespace HarvestCircle
open Checked Registers Tallies

/-! ## The context with a plan posted -/

namespace FoundStockPlan

/-- The credits of a plan to one debit. -/
def creditsTo (plan : FoundStockPlan) (key : PhysicalDebitKey) : List FoundFundingCredit :=
  (plan.allocations.map fun allocation => allocation.credit).filter fun credit => credit.debit = key

def post (plan : FoundStockPlan) (row : PhysicalDebitFunding) :
    Except PhysicalCorrectionError PhysicalDebitFunding :=
  PhysicalDebitFunding.restore row.original (row.credits ++ plan.creditsTo row.original.key)
    row.returns row.unresolvedReturns

/-- The credits of a plan, each with its debit. -/
def credited (plan : FoundStockPlan) : List (OriginalPhysicalDebit × FoundFundingCredit) :=
  plan.allocations.map fun allocation => (allocation.funding, allocation.credit)

/-- A row with the credits of a plan. -/
structure Posted (plan : FoundStockPlan) (row row' : PhysicalDebitFunding) : Prop where
  original_eq : row'.original = row.original
  credits_eq : row'.credits = row.credits ++ plan.creditsTo row.original.key
  returns_eq : row'.returns = row.returns
  unresolved_eq : row'.unresolvedReturns = row.unresolvedReturns

variable {plan : FoundStockPlan}

theorem posted_of_post {row row' : PhysicalDebitFunding} (h : plan.post row = .ok row') :
    plan.Posted row row' := by
  obtain ⟨horiginal, hcredits, hreturns, hunresolved⟩ := PhysicalDebitFunding.restore_eq_ok h
  exact ⟨horiginal, hcredits, hreturns, hunresolved⟩

theorem creditedPacks_creditsTo (plan : FoundStockPlan) (key : PhysicalDebitKey) :
    creditedPacks (plan.creditsTo key) = total (allocatedRows plan.allocations) key := by
  simp only [creditedPacks, creditsTo, total, allocatedRows, List.filter_map, List.map_map]
  rfl

theorem mem_creditsTo {key : PhysicalDebitKey} {credit : FoundFundingCredit} :
    credit ∈ plan.creditsTo key ↔
      ∃ allocation ∈ plan.allocations, allocation.credit = credit ∧ credit.debit = key := by
  simp only [creditsTo, List.mem_filter, List.mem_map, decide_eq_true_eq]
  constructor
  · rintro ⟨⟨allocation, hallocation, hcredit⟩, hkey⟩
    exact ⟨allocation, hallocation, hcredit, hkey⟩
  · rintro ⟨allocation, hallocation, hcredit, hkey⟩
    exact ⟨⟨allocation, hallocation, hcredit⟩, hkey⟩

end FoundStockPlan

/-- The context once a plan is posted.  Rows and account are restored, as they are from the
store. -/
def FoundStockContext.after (context : FoundStockContext) (plan : FoundStockPlan) :
    Except PhysicalCorrectionError FoundStockContext := do
  let target ← mapErr quantityError (DepartureQuantityAccount.restore context.target.original
    (context.target.amendments ++ [plan.amendment]) context.target.establishedReturns)
  let funding ← context.funding.mapM plan.post
  return { context with
    stockRevision := plan.amendment.stockRevision, latestRecordedAt := plan.recordedAt
    target, funding, lineage := plan.afterLineage, treatment := plan.afterTreatment }

namespace FoundStockCommand.Planned
variable [Sha256] {context : FoundStockContext} {operation : HubRecordId} {actor : PublicKey}
  {now : UnixTimestamp} {plan : FoundStockPlan} {row : PhysicalDebitFunding}

/-- The revision of the plan is new to the row. -/
theorem owners_functional (h : Planned context operation actor now plan)
    (hrow : row ∈ context.funding) :
    Functional ((row.original.stockRevision.value, row.original.key.operation) ::
      creditOwners (row.credits ++ plan.creditsTo row.original.key) ++
        returnOwners row.returns) := by
  have hold := row.settles.1.returns_fit.owners
  have hnew : Functional (creditOwners (plan.creditsTo row.original.key)) := by
    refine functional_of_forall_eq (plan.amendment.stockRevision.value, operation) ?_
    intro x hx
    obtain ⟨credit, hcredit, rfl⟩ := List.mem_map.mp hx
    obtain ⟨allocation, hallocation, rfl, -⟩ := FoundStockPlan.mem_creditsTo.mp hcredit
    have heach := h.each allocation hallocation
    rw [heach.operation_eq, heach.revision_eq]
  have hlt : ∀ x ∈ (row.original.stockRevision.value, row.original.key.operation) ::
      creditOwners row.credits ++ returnOwners row.returns,
      x.1 < plan.amendment.stockRevision.value := by
    intro x hx
    rcases List.mem_append.mp hx with hx | hx
    · rcases List.mem_cons.mp hx with rfl | hx
      · exact (h.debit_lt hrow).1
      · obtain ⟨credit, hcredit, rfl⟩ := List.mem_map.mp hx
        exact (h.credit_lt hrow hcredit).1
    · obtain ⟨reservation, hreservation, rfl⟩ := List.mem_map.mp hx
      exact (h.return_lt hrow hreservation).1
  refine (hold.append hnew fun x hx y hy => ?_).mono fun x hx => ?_
  · obtain ⟨credit, hcredit, rfl⟩ := List.mem_map.mp hy
    obtain ⟨allocation, hallocation, rfl, -⟩ := FoundStockPlan.mem_creditsTo.mp hcredit
    rw [(h.each allocation hallocation).revision_eq]
    exact (hlt x hx).ne
  · simp only [creditOwners, List.map_append, List.cons_append, List.mem_cons,
      List.mem_append] at hx ⊢
    tauto

/-- The credits of the plan fit behind those of the row. -/
theorem creditsFit (h : Planned context operation actor now plan) (hrow : row ∈ context.funding) :
    row.original.CreditsFit (row.credits ++ plan.creditsTo row.original.key) := by
  obtain ⟨hsettles, hrecovered, hreturned, hpacks⟩ := row.settles
  have hold := hsettles.credits_fit
  have hdebit := h.debit_lt hrow
  have havailable := h.available row hrow
  have hbound := row.original.packs.bound
  refine ⟨?_, ?_, ?_, ?_, ?_⟩
  · intro credit hcredit
    rcases List.mem_append.mp hcredit with hcredit | hcredit
    · exact hold.credit credit hcredit
    · obtain ⟨allocation, hallocation, rfl, hkey⟩ := FoundStockPlan.mem_creditsTo.mp hcredit
      have heach := h.each allocation hallocation
      exact {
        debit_eq := hkey
        allocation_lt := h.allocation_lt hallocation
        positive := heach.positive
        operation_ne := by
          rw [heach.operation_eq]
          exact hdebit.2.2.symm
        target_ne := by
          rw [heach.operation_eq, h.funded.line.target row hrow]
          exact h.target_ne
        later := by
          rw [heach.revision_eq]
          exact hdebit.1
        recorded := by
          rw [heach.recorded_eq]
          exact hdebit.2.1 }
  · rw [List.map_append, List.nodup_append]
    refine ⟨hold.identities, ?_, ?_⟩
    · have hids := h.credit_ids
      rw [← Function.comp_def (fun credit : FoundFundingCredit =>
        (credit.operation, credit.allocation)), ← List.map_map] at hids
      exact hids.sublist (List.filter_sublist.map _)
    · intro a ha b hb
      obtain ⟨credit, hcredit, rfl⟩ := List.mem_map.mp ha
      obtain ⟨other, hother, rfl⟩ := List.mem_map.mp hb
      obtain ⟨allocation, hallocation, rfl, -⟩ := FoundStockPlan.mem_creditsTo.mp hother
      intro heq
      exact (h.credit_lt hrow hcredit).2.2
        ((congrArg Prod.fst heq).trans (h.each allocation hallocation).operation_eq)
  · rw [creditStamps, List.map_append]
    refine hold.stamps.append (functional_of_forall_eq
      (operation, plan.amendment.stockRevision, now) ?_) ?_
    · intro x hx
      obtain ⟨credit, hcredit, rfl⟩ := List.mem_map.mp hx
      obtain ⟨allocation, hallocation, rfl, -⟩ := FoundStockPlan.mem_creditsTo.mp hcredit
      have heach := h.each allocation hallocation
      rw [heach.operation_eq, heach.revision_eq, heach.recorded_eq]
    · intro x hx y hy
      obtain ⟨credit, hcredit, rfl⟩ := List.mem_map.mp hx
      obtain ⟨other, hother, rfl⟩ := List.mem_map.mp hy
      obtain ⟨allocation, hallocation, rfl, -⟩ := FoundStockPlan.mem_creditsTo.mp hother
      rw [(h.each allocation hallocation).operation_eq]
      exact (h.credit_lt hrow hcredit).2.2
  · exact (h.owners_functional hrow).mono fun x hx => List.mem_append_left _ hx
  · rw [← plan.creditedPacks_creditsTo] at havailable
    simp only [creditedPacks, List.map_append, List.sum_append] at havailable hrecovered ⊢
    omega

/-- A row takes the credits of the plan, as long as there is room for them. -/
theorem post_succeeds (h : Planned context operation actor now plan) (hrow : row ∈ context.funding)
    (hroom : row.credits.length + plan.allocations.length ≤ hubStockEventCapacity) :
    ∃ row', plan.post row = .ok row' := by
  obtain ⟨hsettles, hrecovered, hreturned, hpacks⟩ := row.settles
  have hreturns := hsettles.returns_fit
  refine PhysicalDebitFunding.restore_succeeds ⟨hsettles.valid, ?_, hsettles.returns_length,
    h.creditsFit hrow, ⟨hreturns.reservation, ?_, hreturns.identities, h.owners_functional hrow,
      hreturns.packs_le⟩, ?_⟩ _
  · have hle : (plan.creditsTo row.original.key).length ≤ plan.allocations.length :=
      (List.length_filter_le _ _).trans_eq (List.length_map _)
    rw [List.length_append]
    omega
  · intro reservation hreservation hmem
    rw [List.map_append, List.mem_append] at hmem
    rcases hmem with hmem | hmem
    · exact hreturns.apart reservation hreservation hmem
    · obtain ⟨credit, hcredit, heq⟩ := List.mem_map.mp hmem
      obtain ⟨allocation, hallocation, rfl, -⟩ := FoundStockPlan.mem_creditsTo.mp hcredit
      exact (h.return_lt hrow hreservation).2.2
        (heq.symm.trans (h.each allocation hallocation).operation_eq)
  · have havailable := h.available row hrow
    rw [← plan.creditedPacks_creditsTo] at havailable
    simp only [creditedPacks, List.map_append, List.sum_append] at havailable hrecovered ⊢
    omega

end FoundStockCommand.Planned

/-! ## Credits in the lineage and in the reviews -/

variable {graph : PhysicalLineage} {state : TreatmentState}

theorem TreatmentState.Fits.review_ids (h : state.Fits graph) :
    (state.initialReviews.map fun review => review.stamp.id).Nodup := by
  have hreviews := (List.pairwise_append.mp h.distinct).2.1
  rw [← List.map_eq_flatMap, List.pairwise_map] at hreviews
  rw [List.Nodup, List.pairwise_map]
  exact hreviews.imp And.left

theorem TreatmentState.Fits.reviewsById_eq_some (h : state.Fits graph) {id : HubRecordId}
    {review : InitialGroupReview} :
    state.reviewsById[id]? = some review ↔
      review ∈ state.initialReviews ∧ review.stamp.id = id := by
  rw [reviewsById, getElem?_foldl_insert h.review_ids, Std.TreeMap.getElem?_emptyc, Option.or_none,
    find?_key_eq_some h.review_ids]

/-- The group and the review that a credit can be seen by. -/
structure FoundStockContext.Evidence [Sha256] (context : FoundStockContext)
    (original : OriginalPhysicalDebit) (credit : FoundFundingCredit) (child : PhysicalLineageNode)
    (review : InitialGroupReview) : Prop where
  group_id : foundStockGroupId credit.operation credit.allocation = .ok child.id
  child_mem : child ∈ context.lineage.nodes
  parent_eq : child.parent = some credit.debit.group
  recovery_eq : child.recovery = some ⟨original.key.operation, original.stockRevision⟩
  created_eq : child.createdRevision = credit.stockRevision
  packs_le : child.packs.value ≤ credit.packs.value
  review_id : treatmentRecordId credit.operation = .ok review.stamp.id
  review_mem : review ∈ context.treatment.initialReviews
  review_revision : review.stamp.stockRevision = credit.stockRevision
  review_recorded : review.stamp.recordedAt = credit.recordedAt
  anchor : ⟨child.id, credit.stockRevision, credit.packs⟩ ∈ review.scope.anchors

/-- Evidence is all that a credit needs where the treatment fits the lineage: the review has
checked the scope of the group alone. -/
theorem FoundStockContext.checkCredit_eq_ok [Sha256] {context : FoundStockContext}
    (hfits : context.treatment.Fits context.lineage) {original : OriginalPhysicalDebit}
    {credit : FoundFundingCredit} : context.checkCredit original credit = .ok () ↔
      ∃ child review, context.Evidence original credit child review := by
  simp only [checkCredit, accepted, passed, PhysicalLineage.node_eq_some, hfits.reviewsById_eq_some]
  constructor
  · rintro ⟨_, hid, child, ⟨hchild, rfl⟩, single, -, resolved, -, -, _, hreviewId, review,
      ⟨hreview, rfl⟩, hparent, hrecovery, hcreated, hpacks, hrevision, hrecorded, anchor, hanchor,
      hgroup, hcaptured, hsince⟩
    refine ⟨child, review, hid, hchild, hparent, hrecovery, hcreated, hpacks, hreviewId, hreview,
      hrevision, hrecorded, ?_⟩
    rw [← hgroup, ← hcaptured, ← hsince]
    exact hanchor
  · rintro ⟨child, review, h⟩
    have hreview := hfits.review review h.review_mem
    obtain ⟨-, -, -, single, hsingle, hle⟩ :=
      TreatmentState.checkReviewAnchor_eq_ok.mp (hreview.anchors _ h.anchor)
    rw [hreview.captured_eq, h.review_revision] at hsingle
    obtain ⟨resolved, hresolved⟩ := PhysicalLineage.resolve_succeeds
      (PhysicalLineage.restoreScope_eq_ok.mp hsingle).1
    rw [← (PhysicalLineage.resolve_eq_ok.mp hresolved).2.2.2] at hle
    exact ⟨_, h.group_id, child, ⟨h.child_mem, rfl⟩, single, hsingle, resolved, hresolved, hle, _,
      h.review_id, review, ⟨h.review_mem, rfl⟩, h.parent_eq, h.recovery_eq, h.created_eq,
        h.packs_le,
      h.review_revision, h.review_recorded, _, h.anchor, rfl, rfl, rfl⟩

namespace FoundStockContext
variable {context next : FoundStockContext} {operation : HubRecordId} {actor : PublicKey}
  {now : UnixTimestamp} {plan : FoundStockPlan}

/-- What the next context is. -/
structure After (context : FoundStockContext) (plan : FoundStockPlan) (next : FoundStockContext) :
    Prop where
  family_eq : next.family = context.family
  revision_eq : next.stockRevision = plan.amendment.stockRevision
  latest_eq : next.latestRecordedAt = plan.recordedAt
  lineage_eq : next.lineage = plan.afterLineage
  treatment_eq : next.treatment = plan.afterTreatment
  original_eq : next.target.original = context.target.original
  amendments_eq : next.target.amendments = context.target.amendments ++ [plan.amendment]
  returns_eq : next.target.establishedReturns = context.target.establishedReturns
  rows : List.Forall₂ plan.Posted context.funding next.funding

theorem after_of_eq_ok (h : context.after plan = .ok next) : context.After plan next := by
  simp only [after, accepted] at h
  obtain ⟨target, htarget, funding, hfunding, rfl⟩ := h
  obtain ⟨horiginal, hamendments, hreturns⟩ := DepartureQuantityAccount.restore_eq_ok htarget
  exact ⟨rfl, rfl, rfl, rfl, rfl, horiginal, hamendments, hreturns,
    (mapM_eq_ok.mp hfunding).imp fun _ _ => FoundStockPlan.posted_of_post⟩

namespace After

section
variable (h : context.After plan next)
include h

theorem originals :
    next.funding.map (fun row => row.original) = context.funding.map fun row => row.original :=
  (map_eq_of_forall₂ h.rows fun _ _ hposted => hposted.original_eq.symm).symm

theorem map_original {γ : Type} (f : OriginalPhysicalDebit → γ) :
    next.funding.map (fun row => f row.original) = context.funding.map fun row =>
      f row.original := by
  have hmap := congrArg (List.map f) h.originals
  rwa [List.map_map, List.map_map] at hmap

theorem returnsOf_eq : returnsOf next.funding = returnsOf context.funding := by
  rw [returnsOf, returnsOf, List.flatMap_def, List.flatMap_def]
  exact congrArg List.flatten
    (map_eq_of_forall₂ h.rows fun _ _ hposted => hposted.returns_eq.symm).symm

theorem additionalRows_eq : additionalRows next.funding = additionalRows context.funding := by
  have hrows : ∀ funding : List PhysicalDebitFunding, additionalRows funding =
      ((funding.map fun row => row.original).filter fun debit =>
        debit.kind = .additionalQuantity).map
        fun debit => (debit.key.operation, debit.packs.value) := by
    intro funding
    rw [List.filter_map, List.map_map]
    rfl
  rw [hrows, hrows, h.originals]

/-- The credits are those there were and those of the plan. -/
theorem creditsOf_perm [Sha256]
    (hplan : FoundStockCommand.Planned context operation actor now plan) :
    (creditsOf next.funding).Perm (creditsOf context.funding ++ plan.credited) := by
  have hrows : creditsOf next.funding = context.funding.flatMap fun row =>
      row.credits.map (Prod.mk row.original) ++
        (plan.creditsTo row.original.key).map (Prod.mk row.original) := by
    rw [creditsOf, List.flatMap_def, List.flatMap_def]
    refine congrArg List.flatten (map_eq_of_forall₂ h.rows fun row row' hposted => ?_).symm
    rw [hposted.credits_eq, hposted.original_eq, List.map_append]
  have hdealt : context.funding.flatMap (fun row =>
      (plan.creditsTo row.original.key).map (Prod.mk row.original)) =
        context.funding.flatMap fun row =>
          plan.credited.filter fun credited => credited.2.debit = row.original.key := by
    refine List.flatMap_congr fun row hrow => ?_
    simp only [FoundStockPlan.creditsTo, FoundStockPlan.credited, List.filter_map, List.map_map]
    refine List.map_congr_left fun allocation hallocation => ?_
    obtain ⟨hmem, hdebit⟩ := List.mem_filter.mp hallocation
    obtain ⟨source, hsource, hkey, hfunding⟩ := (hplan.each allocation hmem).source
    have hsame : source = row := List.inj_on_of_nodup_map hplan.funded.line.keys hsource hrow
      (hkey.trans (by simpa using hdebit))
    simp [← hfunding, hsame]
  rw [hrows]
  refine (List.flatMap_append_perm _ _ _).symm.trans (List.Perm.append_left _ ?_)
  rw [hdealt]
  refine flatMap_filter_perm hplan.funded.line.keys fun credited hcredited => ?_
  obtain ⟨allocation, hallocation, rfl⟩ := List.mem_map.mp hcredited
  obtain ⟨source, hsource, hkey, -⟩ := (hplan.each allocation hallocation).source
  exact List.mem_map.mpr ⟨source, hsource, hkey⟩

end

variable {row' : PhysicalDebitFunding}

/-- What is gone of a debit shrinks by what was found of it. -/
theorem outstanding_eq {row : PhysicalDebitFunding} (h : plan.Posted row row') :
    row.outstanding = row'.outstanding +
      total (allocatedRows plan.allocations) row'.original.key := by
  obtain ⟨-, hrecovered, -, hpacks⟩ := row.settles
  obtain ⟨-, hrecovered', -, hpacks'⟩ := row'.settles
  have hsum : creditedPacks row'.credits = creditedPacks row.credits +
      total (allocatedRows plan.allocations) row.original.key := by
    rw [h.credits_eq, ← plan.creditedPacks_creditsTo]
    simp [creditedPacks]
  rw [h.original_eq] at hpacks' ⊢
  unfold PhysicalDebitFunding.outstanding
  rw [h.original_eq]
  omega

theorem sum_outstanding [Sha256] (h : context.After plan next)
    (hplan : FoundStockCommand.Planned context operation actor now plan) :
    (context.funding.map PhysicalDebitFunding.outstanding).sum =
      (next.funding.map PhysicalDebitFunding.outstanding).sum +
        allocatedPacks plan.allocations := by
  have hkeys : (next.funding.map fun row => row.original.key).Nodup := by
    rw [h.map_original OriginalPhysicalDebit.key]
    exact hplan.funded.line.keys
  have htotals : (next.funding.map fun row =>
      total (allocatedRows plan.allocations) row.original.key).sum =
        allocatedPacks plan.allocations := by
    rw [sum_total hkeys]
    · rw [allocatedRows, List.map_map]
      rfl
    · intro row hrow
      obtain ⟨allocation, hallocation, rfl⟩ := List.mem_map.mp hrow
      obtain ⟨source, hsource, hkey, -⟩ := (hplan.each allocation hallocation).source
      rw [h.map_original OriginalPhysicalDebit.key]
      exact List.mem_map.mpr ⟨source, hsource, hkey⟩
  rw [map_eq_of_forall₂ h.rows fun _ _ hposted => outstanding_eq hposted, List.sum_map_add, htotals]

theorem sum_returned (h : context.After plan next) :
    (next.funding.map fun row => row.returned.value) =
      context.funding.map fun row => row.returned.value := by
  refine (map_eq_of_forall₂ h.rows fun row row' hposted => ?_).symm
  rw [row.settles.2.2.1, row'.settles.2.2.1, hposted.returns_eq]

theorem exists_row (h : context.After plan next) (hrow : row' ∈ next.funding) :
    ∃ row ∈ context.funding, plan.Posted row row' :=
  exists_of_forall₂ h.rows.flip hrow

section
variable [Sha256] (h : context.After plan next)
  (hplan : FoundStockCommand.Planned context operation actor now plan)
include h hplan

theorem mem_creditsOf_iff {credited : OriginalPhysicalDebit × FoundFundingCredit} :
    credited ∈ creditsOf next.funding ↔
      credited ∈ creditsOf context.funding ∨
      ∃ allocation ∈ plan.allocations, (allocation.funding, allocation.credit) = credited := by
  rw [(h.creditsOf_perm hplan).mem_iff, List.mem_append, FoundStockPlan.credited, List.mem_map]

/-- The plan is one event of the line. -/
theorem mem_events_iff {event : FundingEvent} :
    event ∈ next.events ↔ event ∈ context.events ∨
      event = ⟨operation, plan.amendment.stockRevision, now⟩ := by
  have hdebits : (∃ row ∈ next.funding, row.event = event) ↔
      ∃ row ∈ context.funding, row.event = event := by
    have hmap := h.map_original fun debit =>
      (⟨debit.key.operation, debit.stockRevision, debit.recordedAt⟩ : FundingEvent)
    rw [← List.mem_map (f := PhysicalDebitFunding.event),
      ← List.mem_map (f := PhysicalDebitFunding.event)]
    exact (congrArg (event ∈ ·) hmap).to_iff
  have hnew : ∀ allocation ∈ plan.allocations,
      allocation.credit.event = ⟨operation, plan.amendment.stockRevision, now⟩ := by
    intro allocation hallocation
    have heach := hplan.each allocation hallocation
    rw [FoundFundingCredit.event, heach.operation_eq, heach.revision_eq, heach.recorded_eq]
  rw [events, events, mem_lineEvents, mem_lineEvents, hdebits, h.returnsOf_eq]
  constructor
  · rintro (hdebit | ⟨credited, hcredited, rfl⟩ | hreturn)
    · exact .inl (.inl hdebit)
    · rcases (h.mem_creditsOf_iff hplan).mp hcredited with hcredited | ⟨allocation, hallocation,
        rfl⟩
      · exact .inl (.inr (.inl ⟨credited, hcredited, rfl⟩))
      · exact .inr (hnew allocation hallocation)
    · exact .inl (.inr (.inr hreturn))
  · rintro ((hdebit | ⟨credited, hcredited, rfl⟩ | hreturn) | rfl)
    · exact .inl hdebit
    · exact .inr (.inl ⟨credited, (h.mem_creditsOf_iff hplan).mpr (.inl hcredited), rfl⟩)
    · exact .inr (.inr hreturn)
    · obtain ⟨allocation, hallocation⟩ := List.exists_mem_of_ne_nil _ hplan.nonempty
      exact .inr (.inl ⟨_, (h.mem_creditsOf_iff hplan).mpr (.inr ⟨allocation, hallocation, rfl⟩),
        hnew allocation hallocation⟩)

variable {later : UnixTimestamp}

theorem eventsFit (hlater : now ≤ later) : next.EventsFit later next.events := by
  have hold := hplan.funded.line.events
  refine ⟨?_, ?_, ?_, ?_, ?_⟩
  · intro event hevent
    rw [h.revision_eq]
    rcases (h.mem_events_iff hplan).mp hevent with hevent | rfl
    · exact (hplan.event_lt hevent).1.le
    · exact Nat.le_refl _
  · intro event hevent
    rcases (h.mem_events_iff hplan).mp hevent with hevent | rfl
    · exact (hplan.event_lt hevent).2.1.trans hlater
    · exact hlater
  · intro event hevent
    rw [h.latest_eq, hplan.recorded_eq]
    rcases (h.mem_events_iff hplan).mp hevent with hevent | rfl
    · exact (hplan.event_lt hevent).2.1
    · exact le_refl _
  · have hone : Functional [(plan.amendment.stockRevision.value, operation)] :=
      functional_of_forall_eq _ fun x hx => List.mem_singleton.mp hx
    refine (hold.owners.append hone fun x hx y hy => ?_).mono fun x hx => ?_
    · obtain ⟨event, hevent, rfl⟩ := List.mem_map.mp hx
      rw [List.mem_singleton.mp hy]
      exact (hplan.event_lt hevent).1.ne
    · obtain ⟨event, hevent, rfl⟩ := List.mem_map.mp hx
      rcases (h.mem_events_iff hplan).mp hevent with hevent | rfl
      · exact List.mem_append_left _ (List.mem_map_of_mem hevent)
      · exact List.mem_append_right _ List.mem_cons_self
  · have hone : Functional [(operation, plan.amendment.stockRevision, now)] :=
      functional_of_forall_eq _ fun x hx => List.mem_singleton.mp hx
    refine (hold.stamps.append hone fun x hx y hy => ?_).mono fun x hx => ?_
    · obtain ⟨event, hevent, rfl⟩ := List.mem_map.mp hx
      rw [List.mem_singleton.mp hy]
      exact (hplan.event_lt hevent).2.2
    · obtain ⟨event, hevent, rfl⟩ := List.mem_map.mp hx
      rcases (h.mem_events_iff hplan).mp hevent with hevent | rfl
      · exact List.mem_append_left _ (List.mem_map_of_mem hevent)
      · exact List.mem_append_right _ List.mem_cons_self

theorem chronological : Chronological next.events := by
  intro event hevent later hlater hlt
  rcases (h.mem_events_iff hplan).mp hevent with hevent | rfl
  · rcases (h.mem_events_iff hplan).mp hlater with hlater | rfl
    · exact hplan.funded.chronological event hevent later hlater hlt
    · exact (hplan.event_lt hevent).2.1
  · rcases (h.mem_events_iff hplan).mp hlater with hlater | rfl
    · exact absurd hlt (hplan.event_lt hlater).1.asymm
    · exact le_refl _

/-! ### What was found by operation -/

theorem recoveredRows_perm :
    (recoveredRows (creditsOf next.funding)).Perm (recoveredRows (creditsOf context.funding) ++
      (plan.allocations.map fun allocation => allocation.credit.packs.value).map
        (Prod.mk operation)) := by
  have hnew : recoveredRows plan.credited =
      (plan.allocations.map fun allocation => allocation.credit.packs.value).map
        (Prod.mk operation) := by
    rw [recoveredRows, FoundStockPlan.credited, List.map_map, List.map_map]
    refine List.map_congr_left fun allocation hallocation => ?_
    exact congrArg (·, allocation.credit.packs.value)
      (hplan.each allocation hallocation).operation_eq
  rw [← hnew, recoveredRows, recoveredRows, recoveredRows, ← List.map_append]
  exact (h.creditsOf_perm hplan).map _

/-- The rows of the operation are those of the plan. -/
theorem recovered_total_self :
    total (recoveredRows (creditsOf next.funding)) operation = allocatedPacks plan.allocations := by
  have hold : total (recoveredRows (creditsOf context.funding)) operation = 0 := by
    refine total_eq_zero fun hmem => ?_
    rw [recoveredRows, List.map_map] at hmem
    obtain ⟨⟨debit, credit⟩, hcredit, hop⟩ := List.mem_map.mp hmem
    obtain ⟨row, hrow, -, hcredit⟩ := mem_creditsOf.mp hcredit
    exact (hplan.credit_lt hrow hcredit).2.2 hop
  rw [total_perm (h.recoveredRows_perm hplan), total_append, total_same, hold, Nat.zero_add]
  rfl

/-- Those of every other operation are as they were. -/
theorem recovered_total_of_ne {other : HubRecordId} (hne : other ≠ operation) :
    total (recoveredRows (creditsOf next.funding)) other =
      total (recoveredRows (creditsOf context.funding)) other := by
  have hnew : total ((plan.allocations.map fun allocation => allocation.credit.packs.value).map
      (Prod.mk operation)) other = 0 := by
    refine total_eq_zero fun hmem => ?_
    rw [List.map_map] at hmem
    obtain ⟨_, -, heq⟩ := List.mem_map.mp hmem
    exact hne heq.symm
  rw [total_perm (h.recoveredRows_perm hplan), total_append, hnew, Nat.add_zero]

/-! ### The checks on the next context -/

theorem fits : next.treatment.Fits next.lineage := by
  rw [h.treatment_eq, h.lineage_eq]
  exact hplan.after_fits

theorem mem_nodes_of_mem {node : PhysicalLineageNode} (hnode : node ∈ context.lineage.nodes) :
    node ∈ next.lineage.nodes := by
  rw [h.lineage_eq]
  exact hplan.mem_nodes.mpr (.inl hnode)

theorem mem_reviews_iff {review : InitialGroupReview} : review ∈ next.treatment.initialReviews ↔
      review ∈ context.treatment.initialReviews ∨ review = plan.reviewRequired := by
  rw [h.treatment_eq, hplan.treatment_eq, List.mem_append, List.mem_singleton]

variable {original : OriginalPhysicalDebit}

theorem checkParent (hcheck : context.checkParent original = .ok ()) :
    next.checkParent original = .ok () := by
  simp only [FoundStockContext.checkParent, accepted, PhysicalLineage.node_eq_some] at hcheck ⊢
  obtain ⟨parent, ⟨hparent, hid⟩, hrest⟩ := hcheck
  exact ⟨parent, ⟨h.mem_nodes_of_mem hplan hparent, hid⟩, hrest⟩

/-- The credits there were keep their groups and reviews. -/
theorem checkCredit_of_old {credit : FoundFundingCredit}
    (hcheck : context.checkCredit original credit = .ok ()) :
    next.checkCredit original credit = .ok () := by
  obtain ⟨child, review, hold⟩ := (checkCredit_eq_ok hplan.fits).mp hcheck
  exact (checkCredit_eq_ok (h.fits hplan)).mpr ⟨child, review, { hold with
    child_mem := h.mem_nodes_of_mem hplan hold.child_mem
    review_mem := (h.mem_reviews_iff hplan).mpr (.inl hold.review_mem) }⟩

/-- The credits of the plan are seen by the groups and the review of the plan. -/
theorem checkCredit_of_new {allocation : FoundStockAllocation}
    (hallocation : allocation ∈ plan.allocations) :
    next.checkCredit allocation.funding allocation.credit = .ok () := by
  have heach := hplan.each allocation hallocation
  refine (checkCredit_eq_ok (h.fits hplan)).mpr ⟨allocation.node, plan.reviewRequired, ?_⟩
  exact {
    group_id := heach.operation_eq ▸ heach.group_id
    child_mem := by
      rw [h.lineage_eq]
      exact hplan.mem_nodes.mpr (.inr ⟨allocation, hallocation, rfl⟩)
    parent_eq := heach.parent_eq
    recovery_eq := rfl
    created_eq := rfl
    packs_le := heach.packs_eq ▸ Nat.le_refl _
    review_id := heach.operation_eq ▸ hplan.review_id
    review_mem := (h.mem_reviews_iff hplan).mpr (.inr rfl)
    review_revision := hplan.review_revision.trans heach.revision_eq.symm
    review_recorded := hplan.review_recorded.trans heach.recorded_eq.symm
    anchor := by
      rw [heach.revision_eq]
      exact hplan.mem_anchors.mpr ⟨allocation, hallocation, rfl⟩ }

theorem lineFits (hlater : now ≤ later) :
    LineFits next later next.funding (creditsOf next.funding) (returnsOf next.funding) := by
  have hold := hplan.funded.line
  have heffective := hplan.effective_eq
  have hbound := context.target.effective.bound
  exact {
    keys := by
      rw [h.map_original OriginalPhysicalDebit.key]
      exact hold.keys
    target := fun row' hrow' => by
      obtain ⟨row, hrow, hposted⟩ := h.exists_row hrow'
      rw [hposted.original_eq, h.original_eq]
      exact hold.target row hrow
    parent := fun row' hrow' => by
      obtain ⟨row, hrow, hposted⟩ := h.exists_row hrow'
      rw [hposted.original_eq]
      exact h.checkParent hplan (hold.parent row hrow)
    kind := fun row' hrow' => by
      obtain ⟨row, hrow, hposted⟩ := h.exists_row hrow'
      rw [hposted.original_eq, h.family_eq]
      exact hold.kind row hrow
    credit := fun credited hcredited => by
      rcases (h.mem_creditsOf_iff hplan).mp hcredited with hcredited | ⟨allocation, hallocation,
        rfl⟩
      · exact h.checkCredit_of_old hplan (hold.credit credited hcredited)
      · exact h.checkCredit_of_new hplan hallocation
    credit_ids := by
      rw [((h.creditsOf_perm hplan).map _).nodup_iff, List.map_append, List.nodup_append]
      refine ⟨hold.credit_ids, ?_, ?_⟩
      · rw [FoundStockPlan.credited, List.map_map]
        exact hplan.credit_ids
      · intro a ha b hb heq
        obtain ⟨⟨debit, credit⟩, hcredit, rfl⟩ := List.mem_map.mp ha
        obtain ⟨row, hrow, -, hcredit⟩ := mem_creditsOf.mp hcredit
        obtain ⟨credited, hcredited, rfl⟩ := List.mem_map.mp hb
        obtain ⟨allocation, hallocation, rfl⟩ := List.mem_map.mp hcredited
        exact (hplan.credit_lt hrow hcredit).2.2
          ((congrArg Prod.fst heq).trans (hplan.each allocation hallocation).operation_eq)
    return_ids := by
      rw [h.returnsOf_eq]
      exact hold.return_ids
    events := h.eventsFit hplan hlater
    physical_le := by
      have hle := hold.physical_le
      have hsum := h.sum_outstanding hplan
      omega
    returned_le := by
      rw [h.sum_returned]
      exact hold.returned_le
    additional_le := by
      rw [h.additionalRows_eq]
      exact hold.additional_le
    recovered_le := fun other => by
      by_cases hother : other = operation
      · rw [hother, h.recovered_total_self hplan]
        omega
      · rw [h.recovered_total_of_ne hplan hother]
        exact hold.recovered_le other }

/-- The amendments there were are backed by the same rows. -/
theorem backs_of_old {change : DepartureQuantityAmendment}
    (hchange : change ∈ context.target.amendments) : next.Backs change := by
  have hold := hplan.funded.backs change hchange
  have hne := hplan.new_amendment change hchange
  have hpresent := hold.present
  have htotal := hold.total_eq
  refine ⟨?_, ?_, fun hkind => ?_, ?_⟩
  · cases hkind : change.delta.isAdditional with
    | true =>
      rw [hkind] at hpresent
      simpa only [amendedRows, if_true, h.additionalRows_eq] using hpresent
    | false =>
      rw [hkind] at hpresent
      exact (((h.recoveredRows_perm hplan).map _).mem_iff).mpr (by
        rw [List.map_append]
        exact List.mem_append_left _ hpresent)
  · cases hkind : change.delta.isAdditional with
    | true =>
      rw [hkind] at htotal
      simpa only [amendedRows, if_true, h.additionalRows_eq] using htotal
    | false =>
      rw [hkind] at htotal
      exact (h.recovered_total_of_ne hplan hne).trans htotal
  · obtain ⟨id, review, hid, hreview, hsum⟩ := hold.reviewed hkind
    obtain ⟨hmem, hstamp⟩ := hplan.fits.reviewsById_eq_some.mp hreview
    exact ⟨id, review, hid, (h.fits hplan).reviewsById_eq_some.mpr
      ⟨(h.mem_reviews_iff hplan).mpr (.inl hmem), hstamp⟩, hsum⟩
  · obtain ⟨event, hevent, hstamp⟩ := hold.stamped
    exact ⟨event, (h.mem_events_iff hplan).mpr (.inl hevent), hstamp⟩

/-- The amendment of the plan is backed by its credits and its review. -/
theorem backs_of_new : next.Backs plan.amendment := by
  obtain ⟨found, hdelta, hfound⟩ := hplan.delta_eq
  have hkind : plan.amendment.delta.isAdditional = false := by rw [hdelta]; rfl
  have hpacks : plan.amendment.delta.packs.value = allocatedPacks plan.allocations := by
    rw [hdelta]
    exact hfound
  refine ⟨?_, ?_, fun _ => ?_, ?_⟩
  · rw [hkind, hplan.amendment_operation]
    refine (((h.recoveredRows_perm hplan).map _).mem_iff).mpr ?_
    obtain ⟨allocation, hallocation⟩ := List.exists_mem_of_ne_nil _ hplan.nonempty
    rw [List.map_append, List.map_map]
    exact List.mem_append_right _ (List.mem_map.mpr
      ⟨_, List.mem_map.mpr ⟨allocation, hallocation, rfl⟩, rfl⟩)
  · rw [hkind, hplan.amendment_operation, hpacks]
    exact h.recovered_total_self hplan
  · rw [hplan.amendment_operation, hpacks]
    exact ⟨_, plan.reviewRequired, hplan.review_id, (h.fits hplan).reviewsById_eq_some.mpr
      ⟨(h.mem_reviews_iff hplan).mpr (.inr rfl), rfl⟩, hplan.captured_eq⟩
  · exact ⟨_, (h.mem_events_iff hplan).mpr (.inr rfl), hplan.amendment_operation.symm, rfl⟩

theorem amended (additional : Bool) :
    ∀ row ∈ next.amendedRows additional, row.1 ∈ amendedBy additional next.target.amendments := by
  obtain ⟨found, hdelta, -⟩ := hplan.delta_eq
  have hkind : plan.amendment.delta.isAdditional = false := by rw [hdelta]; rfl
  have hold := hplan.funded.amended additional
  have hconcat : amendedBy additional next.target.amendments =
      amendedBy additional context.target.amendments ++ amendedBy additional [plan.amendment] := by
    rw [h.amendments_eq, amendedBy, amendedBy, amendedBy, List.filter_append, List.map_append]
  intro row hrow
  rw [hconcat]
  cases additional with
  | true =>
    rw [amendedRows, if_pos rfl, h.additionalRows_eq] at hrow
    exact List.mem_append_left _ (hold row hrow)
  | false =>
    have hmem := (h.recoveredRows_perm hplan).mem_iff.mp hrow
    rcases List.mem_append.mp hmem with hmem | hmem
    · exact List.mem_append_left _ (hold row hmem)
    · obtain ⟨_, -, rfl⟩ := List.mem_map.mp hmem
      refine List.mem_append_right _ ?_
      simp [amendedBy, hkind, hplan.amendment_operation]

theorem effective_eq :
    context.target.effective.value =
      next.target.effective.value + allocatedPacks plan.allocations := by
  obtain ⟨found, hdelta, hfound⟩ := hplan.delta_eq
  obtain ⟨ledger, -, hreplayed, heffective, -⟩ := context.target.exists_ledger
  obtain ⟨ledger', -, hreplayed', heffective', -⟩ := next.target.exists_ledger
  have hadditional := hreplayed'.additional_eq
  have hfound' := hreplayed'.found_eq
  have hsum := hreplayed.effective_eq
  have hsum' := hreplayed'.effective_eq
  rw [h.amendments_eq, List.map_append, List.sum_append, ← hreplayed.additional_eq] at hadditional
  rw [h.amendments_eq, List.map_append, List.sum_append, ← hreplayed.found_eq] at hfound'
  simp only [List.map_singleton, List.sum_singleton, hdelta, DepartureQuantityDelta.added,
    DepartureQuantityDelta.recovered, hfound] at hadditional hfound'
  rw [h.original_eq] at hsum'
  rw [← heffective, ← heffective']
  omega

theorem fundingRows_eq :
    fundingRows next.funding = fundingRows context.funding + plan.allocations.length := by
  have hrows : ∀ funding : List PhysicalDebitFunding,
      fundingRows funding = (creditsOf funding).length + (returnsOf funding).length := by
    intro funding
    rw [fundingRows, List.sum_map_add, creditsOf, returnsOf, List.length_flatMap,
      List.length_flatMap]
    simp
  rw [hrows, hrows, (h.creditsOf_perm hplan).length_eq, h.returnsOf_eq, List.length_append,
    FoundStockPlan.credited, List.length_map]
  omega

/-- **The history with a plan posted is a history**, if there is room for its rows. -/
theorem funded (hlater : now ≤ later)
    (hroom : fundingRows context.funding + plan.allocations.length ≤ hubStockEventCapacity) :
    next.Funded later := by
  have hold := hplan.funded
  have hoperation : ∀ allocation ∈ plan.allocations, ∀ other, other ≠ operation →
      other ≠ allocation.credit.operation := by
    intro allocation hallocation other hne heq
    exact hne (heq.trans (hplan.each allocation hallocation).operation_eq)
  exact {
    debits_le := by
      rw [← h.rows.length_eq]
      exact hold.debits_le
    rows_le := (h.fundingRows_eq hplan).trans_le hroom
    line := h.lineFits hplan hlater
    chronological := h.chronological hplan
    debits_apart := fun row' hrow' credited hcredited => by
      obtain ⟨row, hrow, hposted⟩ := h.exists_row hrow'
      rw [hposted.original_eq]
      rcases (h.mem_creditsOf_iff hplan).mp hcredited with hcredited | ⟨allocation, hallocation,
        rfl⟩
      · exact hold.debits_apart row hrow credited hcredited
      · exact hoperation allocation hallocation _ (hplan.debit_lt hrow).2.2
    returns_apart := fun reservation hreservation => by
      rw [h.returnsOf_eq] at hreservation
      refine ⟨fun row' hrow' => ?_, fun credited hcredited => ?_⟩
      · obtain ⟨row, hrow, hposted⟩ := h.exists_row hrow'
        rw [hposted.original_eq]
        exact (hold.returns_apart reservation hreservation).1 row hrow
      · rcases (h.mem_creditsOf_iff hplan).mp hcredited with
          hcredited | ⟨allocation, hallocation, rfl⟩
        · exact (hold.returns_apart reservation hreservation).2 credited hcredited
        · obtain ⟨row, hrow, hmem⟩ := mem_returnsOf.mp hreservation
          exact (hoperation allocation hallocation _ (hplan.return_lt hrow hmem).2.2).symm
    one_base := by
      have hbase : ∀ funding : List PhysicalDebitFunding,
          funding.countP (fun row => row.original.kind ≠ .additionalQuantity) =
            (funding.map fun row => row.original).countP
              fun debit => debit.kind ≠ .additionalQuantity := by
        intro funding
        rw [List.countP_map]
        rfl
      rw [hbase, h.originals, ← hbase]
      exact hold.one_base
    physical_eq := by
      have hbefore := hold.physical_eq
      have hsum := h.sum_outstanding hplan
      have heffective := h.effective_eq hplan
      omega
    returned_eq := by
      rw [h.sum_returned, h.returns_eq]
      exact hold.returned_eq
    backs := by
      rw [h.amendments_eq]
      intro change hchange
      rcases List.mem_append.mp hchange with hchange | hchange
      · exact h.backs_of_old hplan hchange
      · rw [List.mem_singleton.mp hchange]
        exact h.backs_of_new hplan
    amended := h.amended hplan }

end

end After

end FoundStockContext

end HarvestCircle
