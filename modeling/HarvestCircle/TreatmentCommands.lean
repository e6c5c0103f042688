import HarvestCircle.Requests
import HarvestCircle.TreatmentHistory

/-! # Treatment commands

A command sets the acceptance of selected groups, places a hold on them, or releases a
hold.  The plan of a command is checked by projecting the state it leads to on the
lineage of the next revision.

Between the two projections only what the command names differs
(`TreatmentAction.effect`): the new record is the latest by its revision, and no other
record changes.  A hold can be released as long as there is a revision left and the
release is not dated before the hold; the limit on records does not stand in the way,
since a release is no record of its own.
-/
namespace HarvestCircle
open Checked

/-- A hold is revised once, when it is released. -/
def Hold.revision (hold : Hold) : HubRevision :=
  if hold.release.isSome then .of 2 else .of 1

/-- What a treatment adds to the state. -/
inductive TreatmentChange where
  | acceptance (decision : AcceptanceDecision)
  | holdPlaced (hold : Hold)
  | holdReleased (hold : HubRecordId) (release : TreatmentStamp)
  deriving DecidableEq

/-- What an accepted treatment writes. -/
structure TreatmentPlan where
  revision : HubRevision
  change : TreatmentChange
  summary : TreatmentSummary
  historyCapacityReached : Bool
  affectedPacks : WholePacks
  deriving DecidableEq

/-- The first hold of this identity gets the release. -/
def releaseFirst (id : HubRecordId) (release : TreatmentStamp) : List Hold → List Hold
  | [] => []
  | hold :: rest =>
    if hold.stamp.id = id then { hold with release := some release } :: rest
    else hold :: releaseFirst id release rest

def TreatmentState.hold? (state : TreatmentState) (id : HubRecordId) : Option Hold :=
  state.holds.find? fun hold => hold.stamp.id = id

/-- The state a change leads to. -/
def TreatmentState.apply (state : TreatmentState) : TreatmentChange → TreatmentState
  | .acceptance decision => { state with decisions := state.decisions ++ [decision] }
  | .holdPlaced hold => { state with holds := state.holds ++ [hold] }
  | .holdReleased id release => { state with holds := releaseFirst id release state.holds }

/-- The scope a change is about. -/
def TreatmentChange.scope (state : TreatmentState) :
    TreatmentChange → Except TreatmentError CapturedPhysicalScope
  | .acceptance decision => .ok decision.scope
  | .holdPlaced hold => .ok hold.scope
  | .holdReleased id _ => do
    let hold ← okOr (state.hold? id) .invalidHistory
    return hold.scope

namespace TreatmentAction

def releases : TreatmentAction → Bool
  | setAcceptance _ _ => false
  | placeHold _ => false
  | releaseHold _ _ => true

def change (graph : PhysicalLineage) (state : TreatmentState) (stamp : TreatmentStamp) :
    TreatmentAction → Except TreatmentError TreatmentChange
  | setAcceptance selection status => do
    let scope ← mapErr .scope (graph.capture selection.groups)
    return .acceptance { stamp, scope, status }
  | placeHold selection => do
    let scope ← mapErr .scope (graph.capture selection.groups)
    return .holdPlaced { stamp, scope, release := none }
  | releaseHold id expectedRevision => do
    let selected ← okOr (state.hold? id) .invalidSelection
    refuse (selected.revision ≠ expectedRevision) .staleRevision
    refuse (selected.release.isSome = true) .holdClosed
    return .holdReleased id stamp

end TreatmentAction

def TreatmentCommand.plan (command : TreatmentCommand) (catalog : ReferenceCatalog)
    (graph : PhysicalLineage) (state : TreatmentState) (record : HubRecordId) (actor : PublicKey)
    (now : UnixTimestamp) : Except TreatmentError TreatmentPlan := do
  refuse (command.expectedStockRevision ≠ graph.revision ∨
    command.expectedCatalogRevision ≠ catalog.revision) .staleRevision
  let _ ← mapErr (fun _ => .invalidSelection) (catalog.requireKind graph.variant .pack)
  let _ ← state.project graph catalog.handlingBasis
  refuse (command.action.releases = false ∧ state.recordCount ≥ hubTreatmentRecordsPerTrace)
    .capacity
  mapErr (fun _ => .invalidOccurrence) (command.occurred.validate now)
  let revision ← mapErr (fun _ => .revisionExhausted) graph.revision.next
  let change ← command.action.change graph state {
    id := record, stockRevision := revision, actor, basis := catalog.handlingBasis
    recordedAt := now, occurred := command.occurred, observation := command.observation }
  let scope ← change.scope state
  let affected ← mapErr .scope (graph.resolve scope)
  let advanced ← mapErr .scope
    (PhysicalLineage.new graph.hub graph.trace graph.variant revision graph.nodes)
  let projection ← (state.apply change).project advanced catalog.handlingBasis
  return {
    revision, change, summary := projection.summary
    historyCapacityReached := projection.historyCapacityReached, affectedPacks := affected.packs }

/-- What an action does to a projected group under a new record. -/
def TreatmentAction.effect (record : HubRecordId) (group : GroupTreatment) :
    TreatmentAction → GroupTreatment
  | setAcceptance selection status =>
    if group.group ∈ selection.groups then
      { group with acceptance := status, acceptanceDecision := some record }
    else group
  | placeHold selection =>
    if group.group ∈ selection.groups then
      { group with activeHolds := group.activeHolds.orderedInsert (· ≤ ·) record }
    else group
  | releaseHold id _ => { group with activeHolds := group.activeHolds.filter (· ≠ id) }

/-! ## The same nodes at the next revision -/

namespace PhysicalLineage
variable {L L' : PhysicalLineage}

theorem unionGroups_congr (h : L'.nodes = L.nodes) (scopes : List CapturedPhysicalScope) :
    L'.unionGroups scopes = L.unionGroups scopes := by
  have hmembers : ∀ scope, L'.members scope = L.members scope := fun scope => by
    rw [members, members, h]
  simp only [unionGroups, hmembers, h]

variable {revision : HubRevision}

/-- The lineage with the same nodes at another revision. -/
theorem nodes_of_advance (h : new L.hub L.trace L.variant revision L.nodes = .ok L') :
    L'.revision = revision ∧ L'.nodes = L.nodes := by
  obtain ⟨-, -, -, hrevision, hnodes⟩ := new_eq_ok.mp h
  exact ⟨hrevision, hnodes.trans (sortNodes_eq_self (L.wellFormed.sorted.imp fun hlt => hlt.le))⟩

theorem advance_succeeds (h : L.revision.value ≤ revision.value) :
    ∃ L', new L.hub L.trace L.variant revision L.nodes = .ok L' := by
  have hsorted := sortNodes_eq_self (L.wellFormed.sorted.imp fun hlt => hlt.le)
  refine new_succeeds (hsorted.symm ▸ { L.wellFormed with created_le := fun n hn => ?_ })
  exact (L.wellFormed.created_le n hn).trans h

end PhysicalLineage

namespace TreatmentState
variable {state : TreatmentState} {graph advanced : PhysicalLineage}

theorem covers_congr (h : advanced.nodes = graph.nodes) (scope : CapturedPhysicalScope)
    (id : HubRecordId) : Covers advanced scope id ↔ Covers graph scope id := by
  rw [Covers, Covers, PhysicalLineage.unionGroups_congr h]

theorem activeHolds_congr (h : advanced.nodes = graph.nodes) (id : HubRecordId) :
    state.activeHolds advanced id = state.activeHolds graph id := by
  simp only [activeHolds, covers_congr h]

theorem latest_congr (h : advanced.nodes = graph.nodes) (id : HubRecordId) :
    state.latest advanced id = state.latest graph id := by
  simp only [latest, covers_congr h]

/-- A state that fits a lineage fits it at a later revision. -/
theorem Fits.advance {revision : HubRevision} (h : state.Fits graph)
    (hlt : graph.revision.value < revision.value)
    (hnew : PhysicalLineage.new graph.hub graph.trace graph.variant revision graph.nodes =
      .ok advanced) : state.Fits advanced := by
  have hrun : (graph.history []).Run ⟨revision, graph.nodes, []⟩ := .single ⟨revision, hlt, .refl⟩
  exact h.of_run (by simp) h.accounts_nil hrun hnew

/-- What was just captured covers the selection. -/
theorem covers_capture {selected : List HubRecordId} {scope : CapturedPhysicalScope}
    (hcapture : graph.capture selected = .ok scope) {node : PhysicalLineageNode}
    (hnode : node ∈ graph.nodes) (hpos : 0 < node.packs.value) :
    Covers graph scope node.id ↔ node.id ∈ selected := by
  obtain ⟨-, -, -, hrevision, hanchors⟩ := PhysicalLineage.capture_eq_ok hcapture
  have hmember : node.id ∈ graph.members scope ↔ node.id ∈ selected := by
    rw [PhysicalLineage.mem_members_of_created_le hnode
      (hrevision ▸ graph.wellFormed.created_le node hnode), CapturedPhysicalScope.mem_groups]
    constructor
    · rintro ⟨a, ha, hid⟩
      obtain ⟨m, -, hm, rfl⟩ := (hanchors a).mp ha
      exact hid ▸ hm
    · intro hselected
      exact ⟨_, (hanchors _).mpr ⟨node, hnode, hselected, rfl⟩, rfl⟩
  rw [← hmember]
  simp only [Covers, PhysicalLineage.unionGroups, List.mem_filter, List.mem_singleton,
    exists_eq_left, decide_eq_true_eq]
  constructor
  · rintro ⟨n, ⟨-, -, hn⟩, hid⟩
    exact hid ▸ hn
  · intro h
    exact ⟨node, ⟨hnode, hpos, h⟩, rfl⟩

/-! ## What each change does -/

section
variable (hnodes : advanced.nodes = graph.nodes) {selected : List HubRecordId}
  {node : PhysicalLineageNode} (hnode : node ∈ graph.nodes) (hpos : 0 < node.packs.value)
include hnodes hnode hpos

/-- The new decision is the latest verdict on the selected groups, and on no other. -/
theorem treatmentOf_acceptance {decision : AcceptanceDecision}
    (hcapture : graph.capture selected = .ok decision.scope)
    (hrevision : decision.stamp.stockRevision = advanced.revision)
    (hfits : (state.apply (.acceptance decision)).Fits advanced) :
    (state.apply (.acceptance decision)).treatmentOf advanced node =
      if node.id ∈ selected then
        { state.treatmentOf graph node with
          acceptance := decision.status, acceptanceDecision := some decision.stamp.id }
      else state.treatmentOf graph node := by
  have hcovers := covers_capture hcapture hnode hpos
  have hholds : (state.apply (.acceptance decision)).activeHolds advanced node.id =
      state.activeHolds graph node.id := activeHolds_congr hnodes node.id
  have hverdicts : (state.apply (.acceptance decision)).verdicts =
      state.decisions.map (fun d => ⟨d.stamp, d.scope, d.status⟩) ++
        ⟨decision.stamp, decision.scope, decision.status⟩ ::
        state.initialReviews.map fun r => ⟨r.stamp, r.scope, .reviewRequired⟩ := by
    simp [verdicts, apply]
  split
  · rename_i hselected
    have hlatest : (state.apply (.acceptance decision)).latest advanced node.id =
        some (decision.stamp, decision.status) := by
      refine hfits.latest_eq (v := ⟨decision.stamp, decision.scope, decision.status⟩)
        (by simp [hverdicts]) ?_ fun w hw _ => ?_
      · exact (covers_congr hnodes _ _).mpr (hcovers.mpr hselected)
      · rw [hrevision]
        rcases List.mem_append.mp hw with hw | hw
        · obtain ⟨d, hd, rfl⟩ := List.mem_map.mp hw
          exact (hfits.decision d hd).1.revision_le
        · obtain ⟨r, hr, rfl⟩ := List.mem_map.mp hw
          exact (hfits.review r hr).stamp.revision_le
    simp only [treatmentOf, hlatest, hholds, Option.map_some, Option.getD_some]
  · rename_i hselected
    have hlatest : (state.apply (.acceptance decision)).latest advanced node.id =
        state.latest graph node.id := by
      have hnot : ¬ Covers graph decision.scope node.id := fun h => hselected (hcovers.mp h)
      rw [latest, latest, hverdicts, verdicts, List.filter_append, List.filter_append,
        List.filter_cons_of_neg (by simpa [covers_congr hnodes] using hnot)]
      simp only [covers_congr hnodes]
    simp only [treatmentOf, hlatest, hholds]

/-- The new hold is in force on the selected groups, and on no other. -/
theorem treatmentOf_holdPlaced {hold : Hold} (hcapture : graph.capture selected = .ok hold.scope)
    (hopen : hold.release = none) :
    (state.apply (.holdPlaced hold)).treatmentOf advanced node =
      if node.id ∈ selected then
        { state.treatmentOf graph node with
          activeHolds := (state.treatmentOf graph node).activeHolds.orderedInsert (· ≤ ·)
            hold.stamp.id }
      else state.treatmentOf graph node := by
  have hcovers :=
    (covers_congr hnodes hold.scope node.id).trans (covers_capture hcapture hnode hpos)
  have hlatest : (state.apply (.holdPlaced hold)).latest advanced node.id =
      state.latest graph node.id := latest_congr hnodes node.id
  have hholds : (state.apply (.holdPlaced hold)).activeHolds advanced node.id =
      state.activeHolds graph node.id ++ if node.id ∈ selected then [hold.stamp.id] else [] := by
    rw [← activeHolds_congr hnodes]
    simp only [activeHolds, apply, List.filter_append, List.map_append]
    by_cases hselected : node.id ∈ selected
    · simp [hopen, hcovers, hselected]
    · simp [hopen, hcovers, hselected]
  split
  · rename_i hselected
    have hsort := insertionSort_eq_of_perm
      (List.perm_append_singleton hold.stamp.id (state.activeHolds graph node.id))
    simp only [treatmentOf, hlatest, hholds, hselected, if_true, hsort, List.insertionSort_cons]
  · rename_i hselected
    simp only [treatmentOf, hlatest, hholds, hselected, if_false, List.append_nil]

end

variable {holds : List Hold} {id : HubRecordId} {release : TreatmentStamp} {hold : Hold}

/-- A released hold is in force no more; every other is as before. -/
theorem filter_releaseFirst (hids : (holds.map fun hold => hold.stamp.id).Nodup) :
    (releaseFirst id release holds).filter (fun hold => hold.release.isNone) =
      (holds.filter fun hold => hold.release.isNone).filter fun hold => hold.stamp.id ≠ id := by
  induction holds with
  | nil => rfl
  | cons hold rest ih =>
    obtain ⟨hfirst, hrest⟩ := List.nodup_cons.mp hids
    rw [releaseFirst]
    split
    · rename_i hid
      -- no later hold has the identity
      have hother : ∀ other ∈ rest.filter (fun hold => hold.release.isNone),
          decide (other.stamp.id ≠ id) = true := by
        intro other hmem
        refine decide_eq_true fun heq => hfirst ?_
        exact List.mem_map.mpr ⟨other, List.mem_of_mem_filter hmem, heq.trans hid.symm⟩
      rw [List.filter_cons_of_neg (by simp), List.filter_cons]
      split
      · rw [List.filter_cons_of_neg (by simpa using hid), List.filter_eq_self.mpr hother]
      · rw [List.filter_eq_self.mpr hother]
    · rename_i hid
      rw [List.filter_cons, List.filter_cons, ih hrest]
      split
      · rw [List.filter_cons_of_pos (by simpa using hid)]
      · rfl

theorem insertionSort_filter {α : Type} [LinearOrder α] (p : α → Bool) (l : List α) :
    (l.filter p).insertionSort (· ≤ ·) = (l.insertionSort (· ≤ ·)).filter p := by
  refine List.Perm.eq_of_pairwise' (List.pairwise_insertionSort _ _)
    ((List.pairwise_insertionSort _ l).filter p) ?_
  exact (List.perm_insertionSort _ _).trans ((List.perm_insertionSort _ l).symm.filter p)

theorem treatmentOf_holdReleased (hnodes : advanced.nodes = graph.nodes) (hfits : state.Fits graph)
    (node : PhysicalLineageNode) :
    (state.apply (.holdReleased id release)).treatmentOf advanced node =
      { state.treatmentOf graph node with
        activeHolds := (state.treatmentOf graph node).activeHolds.filter (· ≠ id) } := by
  have hlatest : (state.apply (.holdReleased id release)).latest advanced node.id =
      state.latest graph node.id := latest_congr hnodes node.id
  have hholds : (state.apply (.holdReleased id release)).activeHolds advanced node.id =
      (state.activeHolds graph node.id).filter (· ≠ id) := by
    rw [← activeHolds_congr hnodes]
    simp only [activeHolds, apply]
    rw [filter_releaseFirst hfits.hold_ids, List.filter_map]
    refine congrArg _ ?_
    rw [List.filter_filter, List.filter_filter (l := state.holds.filter _)]
    exact List.filter_congr fun hold _ => Bool.and_comm _ _
  simp only [treatmentOf, hlatest, hholds, insertionSort_filter]

/-! ## Releasing a hold -/

theorem Fits.hold?_eq (h : state.Fits graph) (hhold : hold ∈ state.holds) :
    state.hold? hold.stamp.id = some hold := by
  cases hfind : state.hold? hold.stamp.id with
  | none =>
    have hmissing := List.find?_eq_none.mp hfind hold hhold
    simp at hmissing
  | some found =>
    have hid : found.stamp.id = hold.stamp.id := by simpa using List.find?_some hfind
    rw [List.inj_on_of_nodup_map h.hold_ids (List.mem_of_find?_eq_some hfind) hhold hid]

theorem mem_releaseFirst (h : hold ∈ releaseFirst id release holds) :
    hold ∈ holds ∨ ∃ placed ∈ holds, placed.stamp.id = id ∧
      hold = { placed with release := some release } := by
  induction holds with
  | nil => cases h
  | cons first rest ih =>
    rw [releaseFirst] at h
    split at h
    · rename_i hid
      rcases List.mem_cons.mp h with rfl | h
      · exact .inr ⟨first, List.mem_cons_self, hid, rfl⟩
      · exact .inl (List.mem_cons_of_mem _ h)
    · rcases List.mem_cons.mp h with rfl | h
      · exact .inl List.mem_cons_self
      · rcases ih h with h | ⟨placed, hplaced, hid, rfl⟩
        · exact .inl (List.mem_cons_of_mem _ h)
        · exact .inr ⟨placed, List.mem_cons_of_mem _ hplaced, hid, rfl⟩

theorem length_releaseFirst : (releaseFirst id release holds).length = holds.length := by
  induction holds with
  | nil => rfl
  | cons first rest ih =>
    rw [releaseFirst]
    split
    · rfl
    · rw [List.length_cons, List.length_cons, ih]

/-- The release is one more stamp. -/
theorem stamps_releaseFirst (release : TreatmentStamp)
    (hfind : holds.find? (fun hold => hold.stamp.id = id) = some hold)
    (hopen : hold.release = none) :
    ((releaseFirst id release holds).flatMap Hold.stamps).Perm
      (release :: holds.flatMap Hold.stamps) := by
  induction holds with
  | nil => cases hfind
  | cons first rest ih =>
    rw [releaseFirst]
    by_cases hid : first.stamp.id = id
    · rw [List.find?_cons_of_pos (by simpa using hid)] at hfind
      cases hfind
      rw [if_pos hid, List.flatMap_cons, List.flatMap_cons]
      simpa [Hold.stamps, hopen] using List.Perm.swap _ _ _
    · rw [List.find?_cons_of_neg (by simpa using hid)] at hfind
      rw [if_neg hid, List.flatMap_cons, List.flatMap_cons]
      exact ((ih hfind).append_left _).trans List.perm_middle

/-- A state with one more release fits, if the release does and comes after the hold. -/
theorem Fits.holdReleased (h : state.Fits advanced) (hhold : hold ∈ state.holds)
    (hopen : hold.release = none) (hrelease : StampFits advanced release)
    (hnew : ∀ stamp ∈ state.stamps, stamp.id ≠ release.id ∧
      stamp.stockRevision.value < release.stockRevision.value)
    (hnot : ∀ placed ∈ occurrenceBounds hold.stamp.occurred,
      ∀ released ∈ occurrenceBounds release.occurred, placed.1 ≤ released.2) :
    (state.apply (.holdReleased hold.stamp.id release)).Fits advanced where
  count_le := by
    have := h.count_le
    rwa [recordCount, apply, length_releaseFirst]
  decision := h.decision
  hold other hother := by
    rcases mem_releaseFirst hother with hother | ⟨placed, hplaced, hid, rfl⟩
    · exact h.hold other hother
    · obtain rfl := List.inj_on_of_nodup_map h.hold_ids hplaced hhold hid
      have hfits := h.hold placed hplaced
      have hstamp : placed.stamp ∈ state.stamps := by
        refine List.mem_append_left _ (List.mem_append_right _ ?_)
        exact List.mem_flatMap.mpr ⟨placed, hplaced, List.mem_cons_self⟩
      refine ⟨hfits.stamp, hfits.scope, ?_, ?_, ?_⟩
      · rintro _ ⟨⟩
        exact hrelease
      · rintro _ ⟨⟩
        exact (hnew _ hstamp).2
      · rintro _ ⟨⟩
        exact hnot
  review := h.review
  distinct := by
    have hperm : (state.apply (.holdReleased hold.stamp.id release)).stamps.Perm
        (release :: state.stamps) := by
      have hholds := stamps_releaseFirst release (h.hold?_eq hhold) hopen
      refine (((List.Perm.refl _).append hholds).append_right _).trans ?_
      exact (List.perm_middle.append_right _)
    refine (hperm.pairwise_iff fun hne => ⟨hne.1.symm, hne.2.symm⟩).mpr ?_
    refine List.pairwise_cons.mpr ⟨fun other hother => ?_, h.distinct⟩
    obtain ⟨hid, hlt⟩ := hnew other hother
    exact ⟨hid.symm, hlt.ne'⟩

end TreatmentState

/-! ## Plans -/

namespace TreatmentCommand
variable {command : TreatmentCommand} {catalog : ReferenceCatalog} {graph : PhysicalLineage}
  {state : TreatmentState} {record : HubRecordId} {actor : PublicKey} {now : UnixTimestamp}

/-- The stamp of a command recorded at a revision. -/
def stamp (command : TreatmentCommand) (catalog : ReferenceCatalog) (record : HubRecordId)
    (actor : PublicKey) (now : UnixTimestamp) (revision : HubRevision) : TreatmentStamp where
  id := record
  stockRevision := revision
  actor := actor
  basis := catalog.handlingBasis
  recordedAt := now
  occurred := command.occurred
  observation := command.observation

variable {plan : TreatmentPlan} {change : TreatmentChange}

theorem plan_eq_ok :
    command.plan catalog graph state record actor now = .ok plan ↔
      (command.expectedStockRevision = graph.revision ∧
        command.expectedCatalogRevision = catalog.revision) ∧
      (∃ pack, catalog.requireKind graph.variant .pack = .ok pack) ∧ state.Fits graph ∧
      (command.action.releases = false → state.recordCount < hubTreatmentRecordsPerTrace) ∧
      command.occurred.validate now = .ok () ∧
      plan.revision.value = graph.revision.value + 1 ∧
      command.action.change graph state (command.stamp catalog record actor now plan.revision) =
        .ok plan.change ∧
      ∃ scope affected advanced projection, plan.change.scope state = .ok scope ∧
        graph.resolve scope = .ok affected ∧
        PhysicalLineage.new graph.hub graph.trace graph.variant plan.revision graph.nodes =
          .ok advanced ∧
        (state.apply plan.change).project advanced catalog.handlingBasis = .ok projection ∧
        plan.summary = projection.summary ∧
        plan.historyCapacityReached = projection.historyCapacityReached ∧
        plan.affectedPacks = affected.packs := by
  simp only [TreatmentCommand.plan, accepted, HubRevision.next_eq_ok, passed, not_and]
  constructor
  · rintro ⟨hexpected, pack, hpack, before, hbefore, hcapacity, hoccurred, revision, hrevision,
      change, hchange, scope, hscope, affected, haffected, advanced, hadvanced, projection,
      hprojection, rfl⟩
    exact ⟨hexpected, ⟨pack, hpack⟩, (TreatmentState.project_eq_ok hbefore).1, hcapacity, hoccurred,
      hrevision, hchange, scope, affected, advanced, projection, hscope, haffected, hadvanced,
      hprojection, rfl, rfl, rfl⟩
  · obtain ⟨revision, change, summary, reached, packs⟩ := plan
    rintro ⟨hexpected, ⟨pack, hpack⟩, hfits, hcapacity, hoccurred, hrevision, hchange, scope,
      affected, advanced, projection, hscope, haffected, hadvanced, hprojection, rfl, rfl, rfl⟩
    obtain ⟨before, hbefore⟩ := TreatmentState.project_succeeds hfits catalog.handlingBasis
    exact ⟨hexpected, pack, hpack, before, hbefore, hcapacity, hoccurred, revision, hrevision,
      change, hchange, scope, hscope, affected, haffected, advanced, hadvanced, projection,
      hprojection, rfl⟩

/-- A command keeps the account of what was found: it opens no review, and records no depletion. -/
theorem accounts_of_plan (h : command.plan catalog graph state record actor now = .ok plan)
    {earlier : List Depletion} (hearlier : ∀ d ∈ earlier, graph.Records d)
    (haccounts : state.Accounts graph earlier) :
    ∃ advanced, PhysicalLineage.new graph.hub graph.trace graph.variant plan.revision graph.nodes =
      .ok advanced ∧ (state.apply plan.change).Accounts advanced earlier := by
  obtain ⟨-, -, hfits, -, -, hrevision, -, -, -, advanced, projection, -, -, hadvanced, hprojection,
    -⟩ := plan_eq_ok.mp h
  have hrun : (graph.history earlier).Run ⟨plan.revision, graph.nodes, earlier⟩ :=
    .single ⟨plan.revision, show graph.revision.value < _ by omega, .refl⟩
  have hreviews : (state.apply plan.change).initialReviews = state.initialReviews := by
    cases plan.change <;> rfl
  exact ⟨advanced, hadvanced, (TreatmentState.project_eq_ok hprojection).1.accounts
    (TreatmentState.Accounts.of_run hfits hearlier haccounts hrun hadvanced)
    fun review hreview => .inl (hreviews ▸ hreview)⟩

/-- What the planned change does to a group is the effect of the action. -/
theorem treatmentOf_change {revision : HubRevision} {advanced : PhysicalLineage}
    (hfits : state.Fits graph) (hchange : command.action.change graph state
      (command.stamp catalog record actor now revision) = .ok change)
    (hrevision : advanced.revision = revision) (hnodes : advanced.nodes = graph.nodes)
    (hafter : (state.apply change).Fits advanced) {node : PhysicalLineageNode}
    (hnode : node ∈ graph.nodes) (hpos : 0 < node.packs.value) :
    (state.apply change).treatmentOf advanced node =
      command.action.effect record (state.treatmentOf graph node) := by
  cases haction : command.action with
  | setAcceptance selection status =>
    simp only [haction, TreatmentAction.change, accepted] at hchange
    obtain ⟨scope, hcapture, rfl⟩ := hchange
    exact TreatmentState.treatmentOf_acceptance hnodes hnode hpos hcapture hrevision.symm hafter
  | placeHold selection =>
    simp only [haction, TreatmentAction.change, accepted] at hchange
    obtain ⟨scope, hcapture, rfl⟩ := hchange
    exact TreatmentState.treatmentOf_holdPlaced hnodes hnode hpos hcapture rfl
  | releaseHold id expected =>
    simp only [haction, TreatmentAction.change, accepted] at hchange
    obtain ⟨selected, -, -, -, rfl⟩ := hchange
    exact TreatmentState.treatmentOf_holdReleased hnodes hfits node

/-- The groups an action selects are groups with packs. -/
theorem selected_present {stamp : TreatmentStamp} {selection : TreatmentSelection}
    (haction : (∃ status, command.action = .setAcceptance selection status) ∨
      command.action = .placeHold selection)
    (hchange : command.action.change graph state stamp = .ok change) :
    ∀ id ∈ selection.groups, ∃ n ∈ graph.nodes, n.id = id ∧ 0 < n.packs.value := by
  have hcapture : ∃ scope, graph.capture selection.groups = .ok scope := by
    rcases haction with ⟨status, haction⟩ | haction
    all_goals
      simp only [haction, TreatmentAction.change, accepted] at hchange
      obtain ⟨scope, hcapture, -⟩ := hchange
      exact ⟨scope, hcapture⟩
  obtain ⟨scope, hcapture⟩ := hcapture
  rw [PhysicalLineage.capture, attach_bind_eq_ok] at hcapture
  simp only [PhysicalLineage.captureAnchors, accepted] at hcapture
  obtain ⟨_, ⟨-, anchors, hanchors, -⟩, -⟩ := hcapture
  intro id hid
  obtain ⟨anchor, -, hanchor⟩ := exists_of_mapM hanchors hid
  simp only [PhysicalLineage.captureAnchor, accepted, PhysicalLineage.node_eq_some] at hanchor
  obtain ⟨n, ⟨hn, hnid⟩, hpos, -⟩ := hanchor
  exact ⟨n, hn, hnid, Nat.pos_of_ne_zero hpos⟩

/-- A hold without release can be released. -/
theorem release_succeeds {hold : Hold} (revision : HubRevision) (hfits : state.Fits graph)
    (hhold : hold ∈ state.holds) (hopen : hold.release = none)
    (hrevision : revision.value = graph.revision.value + 1)
    (hpack : ∃ pack, catalog.requireKind graph.variant .pack = .ok pack)
    (hstock : command.expectedStockRevision = graph.revision)
    (hcatalog : command.expectedCatalogRevision = catalog.revision)
    (haction : command.action = .releaseHold hold.stamp.id { value := 1 })
    (hfresh : ∀ stamp ∈ state.stamps, stamp.id ≠ record)
    (hoccurred : command.occurred.validate now = .ok ())
    (hnot : ∀ placed ∈ TreatmentState.occurrenceBounds hold.stamp.occurred,
      ∀ released ∈ TreatmentState.occurrenceBounds command.occurred, placed.1 ≤ released.2) :
    ∃ plan, command.plan catalog graph state record actor now = .ok plan := by
  have hle : graph.revision.value ≤ revision.value := by omega
  obtain ⟨advanced, hadvanced⟩ := PhysicalLineage.advance_succeeds hle
  obtain ⟨hnow, -⟩ := PhysicalLineage.nodes_of_advance hadvanced
  have hfits' := hfits.advance (by omega) hadvanced
  have hstamps : ∀ stamp ∈ state.stamps, stamp.stockRevision.value ≤ graph.revision.value := by
    intro stamp hstamp
    rcases List.mem_append.mp hstamp with hstamp | hstamp
    · rcases List.mem_append.mp hstamp with hstamp | hstamp
      · obtain ⟨d, hd, hmem⟩ := List.mem_flatMap.mp hstamp
        obtain rfl := List.mem_singleton.mp hmem
        exact (hfits.decision d hd).1.revision_le
      · obtain ⟨other, hother, hmem⟩ := List.mem_flatMap.mp hstamp
        rcases List.mem_cons.mp hmem with rfl | hmem
        · exact (hfits.hold other hother).stamp.revision_le
        · exact ((hfits.hold other hother).release_stamp stamp (by simpa using hmem)).revision_le
    · obtain ⟨r, hr, hmem⟩ := List.mem_flatMap.mp hstamp
      obtain rfl := List.mem_singleton.mp hmem
      exact (hfits.review r hr).stamp.revision_le
  have hrelease : TreatmentState.StampFits advanced
      (command.stamp catalog record actor now revision) := by
    have hvalid : command.occurred.ValidAt now := by
      simpa [Occurrence.validate, refuse_eq_ok] using hoccurred
    refine ⟨?_, hnow ▸ le_rfl, hvalid⟩
    have := graph.revision.nonzero
    show 2 ≤ revision.value
    omega
  have hafter := hfits'.holdReleased hhold hopen hrelease (fun stamp hstamp =>
    ⟨hfresh stamp hstamp, by have := hstamps stamp hstamp; show _ < revision.value; omega⟩) hnot
  obtain ⟨projection, hprojection⟩ :=
    TreatmentState.project_succeeds hafter catalog.handlingBasis
  obtain ⟨affected, haffected⟩ :=
    PhysicalLineage.resolve_succeeds (hfits.hold hold hhold).scope.admits
  have hfind := hfits.hold?_eq hhold
  refine ⟨⟨revision, .holdReleased hold.stamp.id (command.stamp catalog record actor now revision),
    projection.summary, projection.historyCapacityReached, affected.packs⟩, plan_eq_ok.mpr
    ⟨⟨hstock, hcatalog⟩, hpack, hfits, ?_, hoccurred, hrevision, ?_, hold.scope, affected, advanced,
      projection, ?_, haffected, hadvanced, hprojection, rfl, rfl, rfl⟩⟩
  · simp [haction, TreatmentAction.releases]
  · simp [haction, TreatmentAction.change, hfind, Hold.revision, hopen, refuse]
  · simp only [TreatmentChange.scope, hfind]
    rfl

end TreatmentCommand

/-- **A treatment command changes what it names.**  The state a plan leads to validates at the
next revision, and its groups are those from before under the effect of the action; the groups an
action selects are among them.  And a hold without release can be released, whenever a revision
is left, the pack is known, the request is current, its record is new and its time is valid and
not before the hold. -/
theorem treatment_changes_what_it_names (catalog : ReferenceCatalog) (graph : PhysicalLineage)
    (state : TreatmentState) (record : HubRecordId) (actor : PublicKey) (now : UnixTimestamp)
    (hvalid : state.validate graph = .ok ()) :
    (∀ command plan, TreatmentCommand.plan command catalog graph state record actor now = .ok plan →
      ∃ advanced before after,
        PhysicalLineage.new graph.hub graph.trace graph.variant plan.revision graph.nodes =
          .ok advanced ∧
        (state.apply plan.change).validate advanced = .ok () ∧
        state.project graph catalog.handlingBasis = .ok before ∧
        (state.apply plan.change).project advanced catalog.handlingBasis = .ok after ∧
        after.groups = before.groups.map (fun group => command.action.effect record group) ∧
        (∀ selection, (∃ status, command.action = .setAcceptance selection status) ∨
          command.action = .placeHold selection →
          ∀ id ∈ selection.groups, id ∈ before.groups.map (·.group)) ∧
        before.revision = graph.revision ∧ after.revision = plan.revision ∧
        after.basis = before.basis ∧ after.summary = plan.summary ∧
        after.historyCapacityReached = plan.historyCapacityReached) ∧
    ∀ command hold, hold ∈ state.holds → hold.release = none →
      graph.revision.value < hubRevisionMaximum →
      (∃ pack, catalog.requireKind graph.variant .pack = .ok pack) →
      command.expectedStockRevision = graph.revision →
      command.expectedCatalogRevision = catalog.revision →
      command.action = .releaseHold hold.stamp.id { value := 1 } →
      (∀ stamp ∈ state.stamps, stamp.id ≠ record) → command.occurred.validate now = .ok () →
      (∀ placed ∈ TreatmentState.occurrenceBounds hold.stamp.occurred,
        ∀ released ∈ TreatmentState.occurrenceBounds command.occurred, placed.1 ≤ released.2) →
      ∃ plan, TreatmentCommand.plan command catalog graph state record actor now = .ok plan := by
  have hfits := TreatmentState.validate_eq_ok.mp hvalid
  constructor
  · intro command plan hplan
    obtain ⟨-, -, -, -, -, -, hchange, scope, affected, advanced, after, -, -, hadvanced, hafter,
      hsummary, hcapacity, -⟩ := TreatmentCommand.plan_eq_ok.mp hplan
    obtain ⟨hrevision, hnodes⟩ := PhysicalLineage.nodes_of_advance hadvanced
    obtain ⟨before, hbefore⟩ := TreatmentState.project_succeeds hfits catalog.handlingBasis
    obtain ⟨-, hr, hb, -, hgroups⟩ := TreatmentState.project_eq_ok hbefore
    obtain ⟨hfits', hr', hb', -, hgroups'⟩ := TreatmentState.project_eq_ok hafter
    refine ⟨advanced, before, after, hadvanced, TreatmentState.validate_eq_ok.mpr hfits', hbefore,
      hafter, ?_, fun selection haction id hid => ?_, hr, hr'.trans hrevision, hb'.trans hb.symm,
      hsummary.symm, hcapacity.symm⟩
    · rw [hgroups', hgroups, hnodes, List.map_map]
      refine List.map_congr_left fun node hnode => ?_
      obtain ⟨hmem, hpos⟩ := List.mem_filter.mp hnode
      exact TreatmentCommand.treatmentOf_change hfits hchange hrevision hnodes hfits' hmem
        (by simpa using hpos)
    · obtain ⟨n, hn, rfl, hpos⟩ := TreatmentCommand.selected_present haction hchange id hid
      rw [hgroups, List.map_map]
      exact List.mem_map.mpr ⟨n, List.mem_filter.mpr ⟨hn, by simpa using hpos⟩, rfl⟩
  · intro command hold hhold hopen hroom hpack hstock hcatalog haction hfresh hoccurred hnot
    exact TreatmentCommand.release_succeeds
      ⟨graph.revision.value + 1, Nat.succ_pos _, hroom⟩ hfits hhold hopen rfl hpack
      hstock hcatalog haction hfresh hoccurred hnot

/-- The crate is put under a hold, and the hold is lifted. -/
def crateHeld : TreatmentState :=
  { crateTreatment.state with
    holds := [⟨crateStamp (.of 32) (.of 5), crateScope (.of 4) (by decide),
      none⟩] }

def crateLifted : TreatmentCommand where
  expectedStockRevision := .of 5
  expectedCatalogRevision := .initial
  action := .releaseHold (.of 32) (.of 1)
  occurred := .known crateTime
  observation := crateNote

theorem treatment_changes_what_it_names_crate : ∃ plan advanced before after,
    crateLifted.plan crateCatalog crateLineage crateHeld (.of 33) crateActor crateTime =
      .ok plan ∧
    crateHeld.project crateLineage .wholePackV1 = .ok before ∧
    (crateHeld.apply plan.change).project advanced .wholePackV1 = .ok after ∧
    after.groups = before.groups.map (fun group =>
      { group with activeHolds := group.activeHolds.filter (· ≠ (.of 32)) }) := by
  obtain ⟨heffect, hrelease⟩ := treatment_changes_what_it_names crateCatalog crateLineage crateHeld
    (.of 33) crateActor crateTime (by decide +kernel)
  obtain ⟨plan, hplan⟩ := hrelease crateLifted _ List.mem_cons_self rfl (by decide)
    ⟨crateVariant, by decide +kernel⟩ rfl rfl rfl (by decide) (by decide) (by
      rintro _ ⟨⟩ _ ⟨⟩
      exact le_rfl)
  obtain ⟨advanced, before, after, -, -, hbefore, hafter, hgroups, -⟩ :=
    heffect crateLifted plan hplan
  exact ⟨plan, advanced, before, after, hplan, hbefore, hafter, hgroups⟩

end HarvestCircle
