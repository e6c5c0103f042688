import Mathlib.Data.List.Perm.Basic
import HarvestCircle.Departure
import HarvestCircle.LineageHistory

/-! # Treatments over the history of the stock

A state that fits its lineage always has a projection.  Where a group stands depends on
the set of the records only: the stamps of a state differ in their revisions, so of the
verdicts on a group one is the latest, wherever it is listed (`Fits.latest_eq`).

A state that fits a lineage fits every later one.  Stamps and scopes of decisions and
holds only ask for revisions and nodes that stay.  An initial review also says that its
groups never hold more than was found.  What they hold, together with what may still be
found of their later depletions, never changes (`due_of_run`), so that bound stays too.
-/
namespace HarvestCircle
open Checked

/-- Sorting by a linear order forgets the order a list had. -/
theorem insertionSort_eq_of_perm {α : Type} [LinearOrder α] {l l' : List α} (h : l.Perm l') :
    l.insertionSort (· ≤ ·) = l'.insertionSort (· ≤ ·) :=
  ((List.perm_insertionSort _ l).trans
    (h.trans (List.perm_insertionSort _ l').symm)).eq_of_pairwise'
    (List.pairwise_insertionSort _ l) (List.pairwise_insertionSort _ l')

namespace TreatmentState
variable {id : HubRecordId} {v : Verdict} {basis : SampleHandlingBasis}
  {projection : TreatmentProjection}

theorem resolves_iff_covers {graph : PhysicalLineage} {scope : CapturedPhysicalScope}
    (h : graph.Admits scope) : graph.Resolves scope id ↔ Covers graph scope id :=
  PhysicalLineage.resolves_iff.trans (and_iff_right h)

variable {state state' : TreatmentState} {graph : PhysicalLineage}

/-! ## Where a group stands -/

/-- The verdict of greatest revision decides, and the holds without release restrict. -/
structure Stands (state : TreatmentState) (graph : PhysicalLineage) (group : GroupTreatment) :
    Prop where
  undecided : (∀ v ∈ state.verdicts, ¬ graph.Resolves v.scope group.group) →
    group.acceptance = .reviewRequired ∧ group.acceptanceDecision = none
  decided : ∀ v ∈ state.verdicts, graph.Resolves v.scope group.group →
    (∀ w ∈ state.verdicts, graph.Resolves w.scope group.group →
      w.stamp.stockRevision.value ≤ v.stamp.stockRevision.value) →
    group.acceptance = v.status ∧ group.acceptanceDecision = some v.stamp.id
  sorted : group.activeHolds.Pairwise (· < ·)
  mem_activeHolds : ∀ id, id ∈ group.activeHolds ↔ ∃ hold ∈ state.holds,
    hold.release = none ∧ graph.Resolves hold.scope group.group ∧ hold.stamp.id = id

theorem Fits.verdict_admits (h : state.Fits graph) (hv : v ∈ state.verdicts) :
    graph.Admits v.scope := by
  rcases List.mem_append.mp hv with hv | hv
  · obtain ⟨d, hd, rfl⟩ := List.mem_map.mp hv
    exact (h.decision d hd).2.admits
  · obtain ⟨r, hr, rfl⟩ := List.mem_map.mp hv
    exact (h.review r hr).admits

/-- Two verdicts of one state differ in their revisions. -/
theorem Fits.verdict_ext (h : state.Fits graph) {w : Verdict} (hv : v ∈ state.verdicts)
    (hw : w ∈ state.verdicts) (heq : v.stamp.stockRevision.value = w.stamp.stockRevision.value) :
    v = w := by
  have hsub : (state.verdicts.map (·.stamp)).Sublist state.stamps := by
    simp only [verdicts, stamps, List.map_append, List.map_map, ← List.map_eq_flatMap]
    exact (List.sublist_append_left _ _).append (List.Sublist.refl _)
  have hnodup : (state.verdicts.map fun v => v.stamp.stockRevision.value).Nodup := by
    rw [List.Nodup, List.pairwise_map]
    exact (List.pairwise_map.mp (h.distinct.sublist hsub)).imp fun hne => hne.2
  exact List.inj_on_of_nodup_map hnodup hv hw heq

/-- The covering verdict of greatest revision is the one that decides. -/
theorem Fits.latest_eq (h : state.Fits graph) (hv : v ∈ state.verdicts)
    (hcovers : Covers graph v.scope id) (hmax : ∀ w ∈ state.verdicts, Covers graph w.scope id →
      w.stamp.stockRevision.value ≤ v.stamp.stockRevision.value) :
    state.latest graph id = some (v.stamp, v.status) := by
  cases hlatest : state.latest graph id with
  | none => exact absurd hcovers (latest_eq_none.mp hlatest v hv)
  | some best =>
    obtain ⟨stamp, status⟩ := best
    obtain ⟨u, hu, rfl, rfl, hcovered, hle⟩ := latest_eq_some hlatest
    obtain rfl := h.verdict_ext hu hv (le_antisymm (hmax u hu hcovered) (hle v hv hcovers))
    rfl

theorem mem_activeHolds_iff {record : HubRecordId} :
    record ∈ state.activeHolds graph id ↔ ∃ hold ∈ state.holds,
      hold.release = none ∧ Covers graph hold.scope id ∧ hold.stamp.id = record := by
  simp only [activeHolds, List.mem_map, List.mem_filter, Option.isNone_iff_eq_none,
    decide_eq_true_eq, and_assoc]

/-- The identities of the holds of a state that fits differ. -/
theorem Fits.hold_ids (h : state.Fits graph) :
    (state.holds.map fun hold => hold.stamp.id).Nodup := by
  have hholds : Distinct (state.holds.flatMap Hold.stamps) :=
    (List.pairwise_append.mp h.distinct.of_append).2.1
  rw [List.Nodup, List.pairwise_map]
  exact (List.pairwise_flatMap.mp hholds).2.imp fun hne =>
    (hne _ List.mem_cons_self _ List.mem_cons_self).1

theorem Fits.activeHolds_nodup (h : state.Fits graph) (id : HubRecordId) :
    (state.activeHolds graph id).Nodup :=
  h.hold_ids.sublist ((List.filter_sublist.trans List.filter_sublist).map _)

/-- **A projected group stands where the records put it.** -/
theorem Fits.stands (h : state.Fits graph) (node : PhysicalLineageNode) :
    Stands state graph (state.treatmentOf graph node) where
  undecided hnone := by
    have hlatest : state.latest graph node.id = none := latest_eq_none.mpr fun v hv hcovers =>
      hnone v hv ((resolves_iff_covers (h.verdict_admits hv)).mpr hcovers)
    simp [treatmentOf, hlatest]
  decided v hv hresolves hmax := by
    have hlatest : state.latest graph node.id = some (v.stamp, v.status) :=
      h.latest_eq hv ((resolves_iff_covers (h.verdict_admits hv)).mp hresolves) fun w hw hcovers =>
        hmax w hw ((resolves_iff_covers (h.verdict_admits hw)).mpr hcovers)
    simp [treatmentOf, hlatest]
  sorted := by
    have hperm := List.perm_insertionSort (· ≤ ·) (state.activeHolds graph node.id)
    have hnodup := hperm.nodup_iff.mpr (h.activeHolds_nodup node.id)
    exact (List.pairwise_insertionSort (· ≤ ·) _).imp₂ (fun _ _ => lt_of_le_of_ne) hnodup
  mem_activeHolds id := by
    rw [treatmentOf, List.mem_insertionSort, mem_activeHolds_iff]
    refine exists_congr fun hold => and_congr_right fun hhold => and_congr_right fun _ => ?_
    rw [resolves_iff_covers (h.hold hold hhold).scope.admits]

/-! ## The order of the records -/

/-- The same records, each list in some other order. -/
structure Rearranges (state state' : TreatmentState) : Prop where
  decisions : state.decisions.Perm state'.decisions
  holds : state.holds.Perm state'.holds
  initialReviews : state.initialReviews.Perm state'.initialReviews

section
variable (h : Rearranges state state')
include h

theorem Rearranges.recordCount : state'.recordCount = state.recordCount := by
  simp only [TreatmentState.recordCount, h.decisions.length_eq, h.holds.length_eq,
    h.initialReviews.length_eq]

theorem Rearranges.fits (hfits : state.Fits graph) : state'.Fits graph where
  count_le := h.recordCount ▸ hfits.count_le
  decision d hd := hfits.decision d (h.decisions.symm.subset hd)
  hold hold hhold := hfits.hold hold (h.holds.symm.subset hhold)
  review r hr := hfits.review r (h.initialReviews.symm.subset hr)
  distinct := by
    have hperm : state.stamps.Perm state'.stamps :=
      ((h.decisions.flatMap fun _ _ => .refl _).append (h.holds.flatMap fun _ _ => .refl _)).append
        (h.initialReviews.flatMap fun _ _ => .refl _)
    exact (hperm.pairwise_iff fun hne => ⟨hne.1.symm, hne.2.symm⟩).mp hfits.distinct

theorem Rearranges.verdicts : state.verdicts.Perm state'.verdicts :=
  (h.decisions.map _).append (h.initialReviews.map _)

/-- The verdict that decides does not depend on the order of the records. -/
theorem Rearranges.latest (hfits : state.Fits graph) (id : HubRecordId) :
    state'.latest graph id = state.latest graph id := by
  cases hlatest : state.latest graph id with
  | none =>
    have hnone := latest_eq_none.mp hlatest
    exact latest_eq_none.mpr fun v hv => hnone v (h.verdicts.symm.subset hv)
  | some best =>
    obtain ⟨stamp, status⟩ := best
    obtain ⟨v, hv, rfl, rfl, hcovers, hmax⟩ := latest_eq_some hlatest
    exact (h.fits hfits).latest_eq (h.verdicts.subset hv) hcovers
      fun w hw => hmax w (h.verdicts.symm.subset hw)

theorem Rearranges.treatmentOf (hfits : state.Fits graph) (node : PhysicalLineageNode) :
    state'.treatmentOf graph node = state.treatmentOf graph node := by
  have hholds : (state'.activeHolds graph node.id).insertionSort (· ≤ ·) =
      (state.activeHolds graph node.id).insertionSort (· ≤ ·) :=
    insertionSort_eq_of_perm (((h.holds.symm.filter _).filter _).map _)
  simp only [TreatmentState.treatmentOf, h.latest hfits, hholds]

end

theorem project_summary (h : state.project graph basis = .ok projection) :
    projection.groups.foldlM (TreatmentSummary.count basis) TreatmentSummary.zero =
      .ok projection.summary := by
  simp only [project, accepted] at h
  obtain ⟨-, _, -, _, -, _, -, summary, hsummary, -, rfl⟩ := h
  exact hsummary

/-- A projection is determined by its groups. -/
theorem projection_ext {graph' : PhysicalLineage} {projection' : TreatmentProjection}
    (h : state.project graph basis = .ok projection)
    (h' : state'.project graph' basis = .ok projection')
    (hrevision : graph'.revision = graph.revision) (hcount : state'.recordCount = state.recordCount)
    (hgroups : projection'.groups = projection.groups) : projection' = projection := by
  obtain ⟨-, hr, hb, hcapacity, -⟩ := project_eq_ok h
  obtain ⟨-, hr', hb', hcapacity', -⟩ := project_eq_ok h'
  have hsummary : projection'.summary = projection.summary :=
    Except.ok.inj ((project_summary h').symm.trans (hgroups ▸ project_summary h))
  obtain ⟨revision, basis', capacity, summary, groups⟩ := projection
  obtain ⟨revision', basis'', capacity', summary', groups'⟩ := projection'
  rw [TreatmentProjection.mk.injEq]
  exact ⟨hr'.trans (hrevision.trans hr.symm), hb'.trans hb.symm,
    hcapacity'.trans (hcount ▸ hcapacity.symm), hsummary, hgroups⟩

/-- **The projection does not depend on the order of the records.** -/
theorem Rearranges.project (h : Rearranges state state')
    (hproject : state.project graph basis = .ok projection) :
    state'.project graph basis = .ok projection := by
  obtain ⟨hfits, -, -, -, hgroups⟩ := project_eq_ok hproject
  obtain ⟨projection', hproject'⟩ := project_succeeds (h.fits hfits) basis
  obtain ⟨-, -, -, -, hgroups'⟩ := project_eq_ok hproject'
  rw [hproject', projection_ext hproject hproject' rfl h.recordCount]
  rw [hgroups', hgroups]
  exact List.map_congr_left fun node _ => h.treatmentOf hfits node

end TreatmentState

/-! ## Later lineages -/

namespace StockHistory
variable {P Q : HubRecordId → Prop} [DecidablePred P] [DecidablePred Q]

theorem held_congr {nodes : List PhysicalLineageNode} (h : ∀ n ∈ nodes, P n.id ↔ Q n.id) :
    held P nodes = held Q nodes := by
  rw [held, held, List.filter_congr fun n hn => decide_eq_decide.mpr (h n hn)]

theorem missing_congr {captured : HubRevision} {ds : List Depletion}
    (h : ∀ d ∈ ds, P d.group ↔ Q d.group) : missing P captured ds = missing Q captured ds := by
  have hlost : lost P captured ds = lost Q captured ds :=
    List.filter_congr fun d hd => decide_eq_decide.mpr (and_congr_right fun _ => h d hd)
  rw [missing, missing, hlost]

/-- The packs on hand never grow by more than what was missing. -/
theorem Run.nodePacks_le {trace variant : HubRecordId} {s s' : StockHistory} (h : Run s s')
    (hs : s.Valid trace variant) (hnone : s.depletions = []) :
    nodePacks s'.nodes ≤ nodePacks s.nodes := by
  -- every group belongs to what was there at the first revision
  have hP : Hereditary (fun _ => True) HubRevision.initial s'.nodes := by
    intro n hn p hp hlt
    obtain ⟨m, -, -, -, hdebit⟩ := (h.valid hs).forest.parent_older n hn p hp
    refine iff_of_true trivial ⟨⟨hlt, fun origin horigin => ?_⟩, trivial⟩
    have hm := m.createdRevision.nonzero
    have hlater := (hdebit origin horigin).1
    show 1 < origin.debitRevision.value
    omega
  have hcaptured : HubRevision.initial.value ≤ s.revision.value := s.revision.nonzero
  have haccount := h.accounted hcaptured hP
  have hall : ∀ nodes, held (fun _ => True) nodes = nodePacks nodes := by
    intro nodes
    rw [held, List.filter_eq_self.mpr (by simp)]
  have hzero : missing (fun _ => True) HubRevision.initial s.depletions = 0 := by
    rw [hnone]
    rfl
  rw [hall, hall, hzero] at haccount
  omega

end StockHistory

namespace PhysicalLineage
variable {L L' : PhysicalLineage} {S : CapturedPhysicalScope} {s : StockHistory}
  {earlier : List Depletion}

/-- What a scope holds, with what may still be found of its depletions since the capture. -/
def due (L : PhysicalLineage) (S : CapturedPhysicalScope) (depletions : List Depletion) : Nat :=
  StockHistory.held (L.InScope S) L.nodes +
    StockHistory.missing (L.InScope S) S.capturedRevision depletions

/-- **What is due to a scope never changes.** -/
theorem due_of_run (h : L.Admits S) (hearlier : ∀ d ∈ earlier, L.Records d)
    (hrun : (L.history earlier).Run s)
    (hnew : new L.hub L.trace L.variant s.revision s.nodes = .ok L') :
    L'.due S s.depletions = L.due S earlier := by
  have hadmits' := admits_of_run h hrun hnew
  have hkept : StockHistory.Persists L.nodes L'.nodes := hrun.persists.trans (persists_of_new hnew)
  have hsame : ∀ n ∈ L.nodes, L'.InScope S n.id ↔ L.InScope S n.id := by
    intro n hn
    rw [inScope_iff hadmits', inScope_iff h, mem_members_of_persists hkept hn]
  have hP : StockHistory.Hereditary (L'.InScope S) S.capturedRevision s.nodes := by
    refine StockHistory.Hereditary.of_persists (fun n hn p hp hlt => ?_) (persists_of_new hnew)
    rw [inScope_iff hadmits', inScope_iff hadmits']
    exact members_hereditary hadmits' n hn p hp hlt
  have haccount := hrun.accounted h.captured_le hP
  rw [due, due, StockHistory.held_perm (nodes_perm_of_new hnew), haccount]
  refine congrArg₂ (· + ·) (StockHistory.held_congr hsame)
    (StockHistory.missing_congr fun d hd => ?_)
  obtain ⟨n, hn, hid, -⟩ := hearlier d hd
  rw [← hid]
  exact hsame n hn

theorem unionGroups_packs_le_due (h : L.Admits S) (depletions : List Depletion) :
    nodePacks (L.unionGroups [S]) ≤ L.due S depletions := by
  obtain ⟨r, hr⟩ := resolve_succeeds h
  rw [← (resolve_eq_ok.mp hr).2.2.2, resolve_packs h hr, due]
  exact Nat.le_add_right _ _

/-- When every depletion was there at the capture, what a scope holds is all that is due. -/
theorem due_of_settled (h : L.Admits S) {depletions : List Depletion}
    (hsettled : ∀ d ∈ depletions, d.revision.value ≤ S.capturedRevision.value) :
    L.due S depletions = nodePacks (L.unionGroups [S]) := by
  obtain ⟨r, hr⟩ := resolve_succeeds h
  rw [← (resolve_eq_ok.mp hr).2.2.2, resolve_packs h hr, due, StockHistory.missing_eq_zero hsettled,
    Nat.add_zero]

end PhysicalLineage

namespace TreatmentState
variable {state : TreatmentState} {L L' : PhysicalLineage} {s : StockHistory}
  {earlier : List Depletion}

/-- What was found, group by group and together, covers what is due to it. -/
structure Accounts (state : TreatmentState) (L : PhysicalLineage) (depletions : List Depletion) :
    Prop where
  review : ∀ review ∈ state.initialReviews, L.due review.scope depletions ≤
    (review.scope.anchors.map fun a => a.capturedPacks.value).sum
  anchor : ∀ review ∈ state.initialReviews, ∀ anchor ∈ review.scope.anchors, ∀ single,
    L.restoreScope review.scope.capturedRevision [anchor] = .ok single →
    L.due single depletions ≤ anchor.capturedPacks.value

/-- A checked anchor was created with the review as a part of another group, and the scope of it
alone resolves to no more than was found. -/
theorem checkReviewAnchor_eq_ok {review : InitialGroupReview} {anchor : PhysicalScopeAnchor} :
    checkReviewAnchor L review anchor = .ok () ↔
      (∃ n ∈ L.nodes, n.id = anchor.group ∧ n.createdRevision = review.stamp.stockRevision ∧
        n.parent ≠ none) ∧
      anchor.createdRevision = review.stamp.stockRevision ∧ 0 < anchor.capturedPacks.value ∧
      ∃ single, L.restoreScope review.scope.capturedRevision [anchor] = .ok single ∧
        nodePacks (L.unionGroups [single]) ≤ anchor.capturedPacks.value := by
  simp only [checkReviewAnchor, accepted, PhysicalLineage.node_eq_some, passed, Bool.not_eq_true,
    Option.isNone_eq_false_iff, Option.isSome_iff_ne_none]
  constructor
  · rintro ⟨n, ⟨hn, hid⟩, ⟨hanchor, hcreated, hparent, hpos⟩, single, hsingle, r, hr, hle⟩
    rw [(PhysicalLineage.resolve_eq_ok.mp hr).2.2.2] at hle
    exact ⟨⟨n, hn, hid, hcreated, hparent⟩, hanchor, Nat.pos_of_ne_zero hpos, single, hsingle, hle⟩
  · rintro ⟨⟨n, hn, hid, hcreated, hparent⟩, hanchor, hpos, single, hsingle, hle⟩
    obtain ⟨r, hr⟩ := PhysicalLineage.resolve_succeeds
      (PhysicalLineage.restoreScope_eq_ok.mp hsingle).1
    rw [← (PhysicalLineage.resolve_eq_ok.mp hr).2.2.2] at hle
    exact ⟨n, ⟨hn, hid⟩, ⟨hanchor, hcreated, hparent, hpos.ne'⟩, single, hsingle, r, hr, hle⟩

/-- A state accounts for what it found when each review that was not accounted for before was
opened after every depletion. -/
theorem Fits.accounts (h : state.Fits L) {known : TreatmentState} {depletions : List Depletion}
    (hknown : known.Accounts L depletions)
    (hopened : ∀ review ∈ state.initialReviews, review ∈ known.initialReviews ∨
      ∀ d ∈ depletions, d.revision.value ≤ review.scope.capturedRevision.value) :
    state.Accounts L depletions where
  review review hreview := by
    rcases hopened review hreview with hmem | hsettled
    · exact hknown.review review hmem
    · rw [PhysicalLineage.due_of_settled (h.review review hreview).admits hsettled]
      exact (h.review review hreview).packs_le
  anchor review hreview anchor hanchor single hsingle := by
    rcases hopened review hreview with hmem | hsettled
    · exact hknown.anchor review hmem anchor hanchor single hsingle
    · obtain ⟨-, -, -, single', hsingle', hle⟩ :=
        checkReviewAnchor_eq_ok.mp ((h.review review hreview).anchors anchor hanchor)
      obtain rfl := Except.ok.inj (hsingle.symm.trans hsingle')
      obtain ⟨hadmits, hcaptured, -⟩ := PhysicalLineage.restoreScope_eq_ok.mp hsingle
      rw [PhysicalLineage.due_of_settled hadmits (hcaptured ▸ hsettled)]
      exact hle

theorem Fits.accounts_nil (h : state.Fits L) : state.Accounts L [] :=
  h.accounts (⟨by simp, by simp⟩ : Accounts ⟨[], [], []⟩ L []) fun _ _ => .inr (by simp)

/-- A scope restored on a lineage is restored on the lineage of every later history. -/
theorem restoreScope_of_run {captured : HubRevision} {anchors : List PhysicalScopeAnchor}
    {S : CapturedPhysicalScope} (h : L.restoreScope captured anchors = .ok S)
    (hrun : (L.history earlier).Run s)
    (hnew : PhysicalLineage.new L.hub L.trace L.variant s.revision s.nodes = .ok L') :
    L'.restoreScope captured anchors = .ok S := by
  obtain ⟨hadmits, hcaptured, hanchors, hsum⟩ := PhysicalLineage.restoreScope_eq_ok.mp h
  exact PhysicalLineage.restoreScope_eq_ok.mpr
    ⟨PhysicalLineage.admits_of_run hadmits hrun hnew, hcaptured, hanchors, hsum⟩

section
variable (h : state.Fits L) (hearlier : ∀ d ∈ earlier, L.Records d)
  (haccounts : state.Accounts L earlier) (hrun : (L.history earlier).Run s)
  (hnew : PhysicalLineage.new L.hub L.trace L.variant s.revision s.nodes = .ok L')
include h hearlier haccounts hrun hnew

theorem Accounts.of_run : state.Accounts L' s.depletions where
  review review hreview := by
    rw [PhysicalLineage.due_of_run (h.review review hreview).admits hearlier hrun hnew]
    exact haccounts.review review hreview
  anchor review hreview anchor hanchor single hsingle := by
    obtain ⟨-, -, -, single', hsingle', -⟩ :=
      checkReviewAnchor_eq_ok.mp ((h.review review hreview).anchors anchor hanchor)
    obtain rfl := Except.ok.inj ((restoreScope_of_run hsingle' hrun hnew).symm.trans hsingle)
    rw [PhysicalLineage.due_of_run (PhysicalLineage.restoreScope_eq_ok.mp hsingle').1 hearlier hrun
      hnew]
    exact haccounts.anchor review hreview anchor hanchor _ hsingle'

/-- **A state that fits a lineage fits the lineage of every later history.** -/
theorem Fits.of_run : state.Fits L' := by
  obtain ⟨-, -, -, hrevision, -⟩ := PhysicalLineage.new_eq_ok.mp hnew
  have hle : L.revision.value ≤ L'.revision.value := hrevision ▸ hrun.revision_le
  have hkept : StockHistory.Persists L.nodes L'.nodes :=
    hrun.persists.trans (PhysicalLineage.persists_of_new hnew)
  have hlater := Accounts.of_run h hearlier haccounts hrun hnew
  have hstamp : ∀ {stamp}, StampFits L stamp → StampFits L' stamp := fun hs =>
    ⟨hs.revision_ge, hs.revision_le.trans hle, hs.occurred⟩
  have hscope : ∀ {scope stamp}, ScopeFits L scope stamp → ScopeFits L' scope stamp := fun hs =>
    ⟨PhysicalLineage.admits_of_run hs.admits hrun hnew, hs.length_le, hs.captured_eq⟩
  refine ⟨h.count_le, fun d hd => ⟨hstamp (h.decision d hd).1, hscope (h.decision d hd).2⟩,
    fun hold hhold => ?_, fun review hreview => ?_, h.distinct⟩
  · have hfits := h.hold hold hhold
    exact ⟨hstamp hfits.stamp, hscope hfits.scope,
      fun release hr => hstamp (hfits.release_stamp release hr), hfits.release_later,
      hfits.release_not_before⟩
  · have hfits := h.review review hreview
    have hadmits := PhysicalLineage.admits_of_run hfits.admits hrun hnew
    refine ⟨hstamp hfits.stamp, hfits.captured_eq, hfits.length_le, hfits.occurred_eq,
      fun anchor hanchor => ?_, hfits.captured_le, hadmits, ?_⟩
    · obtain ⟨⟨n, hn, hid, hcreated, hparent⟩, hborn, hpos, single, hsingle, -⟩ :=
        checkReviewAnchor_eq_ok.mp (hfits.anchors anchor hanchor)
      obtain ⟨n', hn', hid', hparent', hcreated', -⟩ := hkept n hn
      have hsingle' := restoreScope_of_run hsingle hrun hnew
      refine checkReviewAnchor_eq_ok.mpr ⟨⟨n', hn', hid'.trans hid, hcreated'.trans hcreated,
        hparent'.symm ▸ hparent⟩, hborn, hpos, single, hsingle', ?_⟩
      exact (PhysicalLineage.unionGroups_packs_le_due
        (PhysicalLineage.restoreScope_eq_ok.mp hsingle').1 s.depletions).trans
        (hlater.anchor review hreview anchor hanchor single hsingle')
    · exact (PhysicalLineage.unionGroups_packs_le_due hadmits s.depletions).trans
        (hlater.review review hreview)

end

end TreatmentState

open TreatmentState in
/-- **Treatments are a matter of the records, and stay so.**  A state that validates on a lineage
has a projection: the groups with packs, each where its latest verdict and its open holds put
it, whatever the order of the records.  The state also validates on the lineage of every later
history, which is accepted as long as its nodes are few enough.  Depletions from before the
lineage may be recovered too, as long as what was found covers them. -/
theorem treatment_survives_history (L : PhysicalLineage) (state : TreatmentState)
    (hvalid : state.validate L = .ok ()) :
    (∀ basis, ∃ projection, state.project L basis = .ok projection ∧
      projection.groups.map (fun g => (g.group, g.packs)) =
        (L.nodes.filter fun n => n.packs.value > 0).map (fun n => (n.id, n.packs)) ∧
      (∀ group ∈ projection.groups, Stands state L group) ∧
      ∀ state', Rearranges state state' → state'.project L basis = .ok projection) ∧
    (∀ s, (L.history []).Run s → s.nodes.length ≤ hubLineageGroups →
      ∃ L', PhysicalLineage.new L.hub L.trace L.variant s.revision s.nodes = .ok L' ∧
        state.validate L' = .ok ()) ∧
    ∀ earlier s L', (∀ d ∈ earlier, L.Records d) → state.Accounts L earlier →
      (L.history earlier).Run s →
      PhysicalLineage.new L.hub L.trace L.variant s.revision s.nodes = .ok L' →
      state.validate L' = .ok () ∧ state.Accounts L' s.depletions := by
  have hfits := validate_eq_ok.mp hvalid
  refine ⟨fun basis => ?_, fun s hrun hlen => ?_, fun earlier s L' hearlier haccounts hrun hnew =>
    ?_⟩
  · obtain ⟨projection, hproject⟩ := project_succeeds hfits basis
    obtain ⟨-, -, -, -, hgroups⟩ := project_eq_ok hproject
    refine ⟨projection, hproject, ?_, ?_, fun state' h => h.project hproject⟩
    · rw [hgroups, List.map_map]
      rfl
    · rw [hgroups, List.forall_mem_map]
      exact fun node _ => hfits.stands node
  · have hstart : (L.history []).Valid L.trace L.variant := L.history_valid (by simp)
    have hpacks := (hrun.nodePacks_le hstart rfl).trans L.wellFormed.packs_le
    obtain ⟨L', hnew⟩ := ((hrun.valid hstart).forest.new_accepts_iff L.hub).mpr ⟨hlen, hpacks⟩
    exact ⟨L', hnew, validate_eq_ok.mpr (hfits.of_run (by simp) hfits.accounts_nil hrun hnew)⟩
  · exact ⟨validate_eq_ok.mpr (hfits.of_run hearlier haccounts hrun hnew),
      Accounts.of_run hfits hearlier haccounts hrun hnew⟩

/-- The node of the crate, with the packs it has left. -/
def crateNode (packs : WholePacks) : PhysicalLineageNode :=
  ⟨.of 10, none, .of 2, .of 3, .of 2, packs, none⟩

/-- Four packs of the crate, set apart at the next revision. -/
def crateParted : StockHistory where
  revision := .of 6
  nodes := [(crateNode (.of 10)).child (.of 11) (.of 6) (.of 4) none,
    crateNode (.of 6)]
  depletions := []

/-- The accepted crate is accepted still when a part of it was set apart. -/
theorem treatment_survives_history_crate :
    (∃ projection, crateTreatment.state.project crateLineage .wholePackV1 = .ok projection ∧
      ∀ group ∈ projection.groups, TreatmentState.Stands crateTreatment.state crateLineage group) ∧
    ∃ L', PhysicalLineage.new crateLineage.hub crateLineage.trace crateLineage.variant
      crateParted.revision crateParted.nodes = .ok L' ∧
      crateTreatment.state.validate L' = .ok () := by
  have hparted : (crateLineage.history []).Run crateParted :=
    .single (.single (r := .of 6) (by decide)
      (.separate (n := crateNode (.of 10)) (.refl _) (by decide) (by decide)
        (by decide) (by decide) (by rfl) (.refl _)))
  obtain ⟨hproject, hlater, -⟩ := treatment_survives_history crateLineage crateTreatment.state
    (by decide +kernel)
  obtain ⟨projection, hprojection, -, hstands, -⟩ := hproject .wholePackV1
  exact ⟨⟨projection, hprojection, hstands⟩, hlater crateParted hparted (by decide)⟩

end HarvestCircle
