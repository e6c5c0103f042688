import HarvestCircle.Dispatch
import HarvestCircle.Treatment

/-! # Normal departure

A departure takes the whole groups listed on an issued paper out of the hub.  The
plan re-captures the paper's lines from the present groups, asks the treatment of
every population involved whether these groups may leave, and retires the work
that was still pending on them.

One requirement can span several of the groups.  `retiredWork` adds up what leaves
for each requirement and changes it once; `retiredWork_eq_ok` says by how much.
-/
namespace HarvestCircle
open Checked

def hubDepartureWorkChanges : Nat := hubDispatchLines * hubGroupRequirements

inductive DepartureError where
  | invalidIdentity
  | invalidHistory
  | invalidSources
  | staleRevision
  | identificationUnavailable
  | alreadyUsed
  | materialChanged
  | capacity
  | revisionExhausted
  | dispatch (error : DispatchError)
  | movement (error : MovementError)
  | treatment (error : TreatmentError)
  deriving DecidableEq, Repr

structure DepartureIdentities where
  operation : HubRecordId
  departure : HubRecordId
  deriving DecidableEq, Repr

def DepartureIdentities.fromOperationBytes [Sha256] (operation : HubRecordId) :
    Except DepartureError DepartureIdentities := do
  let departure ← mapErr (fun _ => .invalidIdentity) (HubRecordId.derived
    (utf8 "harvestcircle.hub.departure.identity.v1\x00" ++ operation.asBytes))
  return { operation, departure }

def nextDeparture (revision : HubRevision) : Except DepartureError HubRevision :=
  mapErr (fun _ => .revisionExhausted) revision.next

/-- A group that left, as it was before. -/
structure ConsumedStockGroup where
  before : PhysicalStockGroup
  afterRevision : HubRevision
  causalFloor : Option UnixTimestamp
  deriving DecidableEq, Repr

/-- A requirement that packs left with. -/
structure DepartureWorkChange where
  before : WorkRequirement
  after : WorkRequirement
  retired : WholePacks
  deriving DecidableEq, Repr

/-! ## Retiring work -/

/-- The requirements met so far, each with what leaves for it. -/
abbrev RetiredWork := Std.TreeMap HubRecordId (WorkRequirement × WholePacks)

/-- Enter one allocation of a leaving group. -/
def retireAllocation (packs : WholePacks) (work : RetiredWork) (allocation : WorkAllocation) :
    Except DepartureError RetiredWork := do
  let entry := work[allocation.requirement.id]?.getD (allocation.requirement, .zero)
  refuse (entry.1 ≠ allocation.requirement) .invalidSources
  let total ← (if allocation.progress = .pending then
      mapErr (fun _ => DepartureError.invalidSources) (entry.2.checkedAdd packs)
    else pure entry.2)
  return work.insert allocation.requirement.id (entry.1, total)

def retireGroup (work : RetiredWork) (group : PhysicalStockGroup) :
    Except DepartureError RetiredWork := do
  mapErr .movement group.validate
  let work ← group.work.foldlM (retireAllocation group.packs) work
  refuse (work.size > hubDepartureWorkChanges) .capacity
  return work

/-- The requirement without the packs that left. -/
def retireRequirement (entry : WorkRequirement × WholePacks) :
    Except DepartureError DepartureWorkChange := do
  let after ← entry.1.retirePacks (fun _ => .invalidSources) (fun _ => .invalidSources)
    .revisionExhausted entry.2
  mapErr .movement after.validate
  return { before := entry.1, after, retired := entry.2 }

def retiredWork (groups : List ConsumedStockGroup) :
    Except DepartureError (List DepartureWorkChange) := do
  let work ← groups.foldlM (fun work consumed => retireGroup work consumed.before) ∅
  ((values work).filter fun entry => entry.2.value > 0).mapM retireRequirement

/-- The packs that leave for a requirement, over allocations paired with their group's packs. -/
def leaving (id : HubRecordId) (done : List (WholePacks × WorkAllocation)) : Nat :=
  (done.map fun p => if p.2.requirement.id = id ∧ p.2.progress = .pending then p.1.value else 0).sum

/-- The table holds exactly the requirements of the allocations entered, each as they all have
it and with the packs that leave for it. -/
structure Enters (done : List (WholePacks × WorkAllocation)) (work : RetiredWork) : Prop where
  total : ∀ id entry, work[id]? = some entry → entry.1.id = id ∧ entry.2.value = leaving id done
  entered : ∀ p ∈ done, ∃ total, work[p.2.requirement.id]? = some (p.2.requirement, total)

variable {work : RetiredWork} {groups : List PhysicalStockGroup} {context : DepartureContext}
  {traces : Finset HubRecordId}

theorem Enters.retireAllocation {done : List (WholePacks × WorkAllocation)} {work' : RetiredWork}
    (h : Enters done work) {packs : WholePacks} {allocation : WorkAllocation}
    (hstep : retireAllocation packs work allocation = .ok work') :
    Enters (done ++ [(packs, allocation)]) work' := by
  simp only [HarvestCircle.retireAllocation, accepted, passed] at hstep
  obtain ⟨hsame, total, htotal, rfl⟩ := hstep
  -- what the table had for this requirement, which is nothing when it is new
  have hentry : (work[allocation.requirement.id]?.getD (allocation.requirement, .zero)).2.value =
      leaving allocation.requirement.id done := by
    cases hget : work[allocation.requirement.id]? with
    | some entry => exact (h.total _ _ hget).2
    | none =>
      have hfresh : ∀ p ∈ done, p.2.requirement.id ≠ allocation.requirement.id := by
        intro p hp hid
        obtain ⟨_, hsome⟩ := h.entered p hp
        rw [hid, hget] at hsome
        cases hsome
      refine Eq.symm (List.sum_eq_zero fun n hn => ?_)
      obtain ⟨p, hp, rfl⟩ := List.mem_map.mp hn
      rw [if_neg fun hc => hfresh p hp hc.1]
  have hadded :
      total.value = leaving allocation.requirement.id (done ++ [(packs, allocation)]) := by
    rw [leaving, List.map_append, List.sum_append, ← leaving, ← hentry]
    split at htotal
    · rename_i hpending
      have := WholePacks.checkedAdd_eq_ok.mp (mapErr_eq_ok.mp htotal)
      simpa [hpending] using this
    · rename_i hother
      rw [pure_eq_ok] at htotal
      simp [hother, htotal]
  constructor
  · intro id entry hget
    rw [Std.TreeMap.getElem?_insert] at hget
    by_cases hid : allocation.requirement.id = id
    · subst hid
      rw [if_pos (by simp), Option.some.injEq] at hget
      subst hget
      exact ⟨by rw [hsame], hadded⟩
    · have hne : ¬ compare allocation.requirement.id id = .eq := by simpa using hid
      rw [if_neg hne] at hget
      obtain ⟨hkey, hvalue⟩ := h.total id entry hget
      refine ⟨hkey, ?_⟩
      rw [hvalue, leaving, leaving]
      simp [hid]
  · intro p hp
    rw [Std.TreeMap.getElem?_insert]
    by_cases hid : allocation.requirement.id = p.2.requirement.id
    · rw [if_pos (by simpa using hid), hsame]
      refine ⟨total, ?_⟩
      rcases List.mem_append.mp hp with hp | hp
      · -- an earlier allocation of the same requirement had the entry that was compared
        obtain ⟨_, hsome⟩ := h.entered p hp
        rw [hid, hsome] at hsame
        rw [← hsame]
        rfl
      · rw [List.mem_singleton.mp hp]
    · rw [if_neg (by simpa using hid)]
      rcases List.mem_append.mp hp with hp | hp
      · exact h.entered p hp
      · exact absurd (by rw [List.mem_singleton.mp hp]) hid

/-- The allocations of some groups, each with its group's packs. -/
def allocations (groups : List PhysicalStockGroup) : List (WholePacks × WorkAllocation) :=
  groups.flatMap fun group => group.work.map fun a => (group.packs, a)

/-- Over valid groups, what leaves for a requirement is what is pending on it. -/
theorem leaving_allocations (h : ∀ g ∈ groups, g.Valid) (id : HubRecordId) :
    leaving id (allocations groups) = PhysicalStockGroup.packsAt groups id .pending := by
  induction groups with
  | nil => rfl
  | cons g groups ih =>
    have hrest := ih fun g' hg' => h g' (List.mem_cons_of_mem _ hg')
    have hshare := (h g List.mem_cons_self).sum_share id .pending
    simp only [leaving, allocations, PhysicalStockGroup.packsAt, List.flatMap_cons, List.map_append,
      List.sum_append, List.map_cons, List.sum_cons, List.map_map, Function.comp_def] at hrest ⊢
    rw [hshare, hrest]

/-- The loop over the groups enters all their allocations. -/
theorem foldlM_retireGroup (h : groups.foldlM retireGroup ∅ = .ok work) :
    (∀ g ∈ groups, g.Valid) ∧ Enters (allocations groups) work := by
  refine foldlM_invariant (fun done work => (∀ g ∈ done, g.Valid) ∧ Enters (allocations done) work)
    ⟨by simp, ⟨by simp, by simp [allocations]⟩⟩ ?_ h
  rintro done g rest work work' - ⟨hvalid, hwork⟩ hstep
  simp only [retireGroup, accepted, PhysicalStockGroup.validate_eq_ok] at hstep
  obtain ⟨hg, inner, hinner, -, rfl⟩ := hstep
  refine ⟨by simpa [or_imp, forall_and] using ⟨hvalid, hg⟩, ?_⟩
  have hloop := foldlM_invariant
    (fun entered t => Enters (allocations done ++ entered.map fun a => (g.packs, a)) t)
    (by simpa using hwork) (fun entered a _ t t' _ ht hstep => by
      have := ht.retireAllocation hstep
      simpa using this) hinner
  simpa [allocations] using hloop

/-- The change takes the retired packs from the remaining work to the work no longer required,
and nothing else. -/
def DepartureWorkChange.Exact (change : DepartureWorkChange) : Prop :=
  change.before.Retires change.after change.retired

theorem retireRequirement_eq_ok {entry : WorkRequirement × WholePacks}
    {change : DepartureWorkChange} (h : retireRequirement entry = .ok change) :
    change.before = entry.1 ∧ change.retired = entry.2 ∧ change.Exact := by
  simp only [retireRequirement, accepted] at h
  obtain ⟨after, hafter, -, rfl⟩ := h
  exact ⟨rfl, rfl, WorkRequirement.retirePacks_eq_ok hafter⟩

/-- **Work retires once per requirement, by the packs that were pending on it.** -/
theorem retiredWork_eq_ok {groups : List ConsumedStockGroup} {changes : List DepartureWorkChange}
    (h : retiredWork groups = .ok changes) :
    (∀ c ∈ groups, c.before.Valid) ∧
    changes.Pairwise (fun a b => a.before.id < b.before.id) ∧
    (∀ change ∈ changes, change.Exact ∧ 0 < change.retired.value ∧ change.retired.value =
      PhysicalStockGroup.packsAt (groups.map (·.before)) change.before.id .pending) ∧
    (∀ c ∈ groups, ∀ a ∈ c.before.work, ∀ change ∈ changes,
      change.before.id = a.requirement.id → change.before = a.requirement) ∧
    (∀ id, 0 < PhysicalStockGroup.packsAt (groups.map (·.before)) id .pending →
      ∃ change ∈ changes, change.before.id = id) := by
  simp only [retiredWork, bind_eq_ok, ← List.foldlM_map] at h
  obtain ⟨work, hwork, hchanges⟩ := h
  obtain ⟨hvalid, henters⟩ := foldlM_retireGroup hwork
  have hkey : ∀ id (entry : WorkRequirement × WholePacks), work[id]? = some entry →
      entry.1.id = id := fun id entry hget => (henters.total id entry hget).1
  have hleaving := leaving_allocations hvalid
  -- every change comes from one entry of the table
  have hentry : ∀ change ∈ changes, work[change.before.id]? = some (change.before, change.retired) ∧
      0 < change.retired.value ∧ change.Exact := by
    intro change hchange
    obtain ⟨entry, hmem, hretire⟩ := (mem_of_mapM hchanges change).mp hchange
    obtain ⟨hbefore, hretired, hexact⟩ := retireRequirement_eq_ok hretire
    obtain ⟨hmem, hpos⟩ := List.mem_filter.mp hmem
    rw [mem_values hkey] at hmem
    rw [hbefore, hretired]
    exact ⟨hmem, by simpa using hpos, hexact⟩
  refine ⟨fun c hc => hvalid _ (List.mem_map_of_mem hc), ?_, fun change hchange => ?_, ?_, ?_⟩
  · have hmap : ((values work).filter fun entry => entry.2.value > 0).map (·.1) =
        changes.map (·.before) := map_eq_of_forall₂ (mapM_eq_ok.mp hchanges)
      fun _ _ hretire => (retireRequirement_eq_ok hretire).1.symm
    have hsorted := (values_sorted hkey).filter fun entry => entry.2.value > 0
    rw [← List.pairwise_map (f := Prod.fst) (R := fun a b : WorkRequirement => a.id < b.id),
      hmap, List.pairwise_map] at hsorted
    exact hsorted
  · obtain ⟨hget, hpos, hexact⟩ := hentry change hchange
    exact ⟨hexact, hpos, (henters.total _ _ hget).2.trans (hleaving _)⟩
  · intro c hc a ha change hchange hid
    obtain ⟨total, hsome⟩ := henters.entered (c.before.packs, a) (by
      simp only [allocations, List.mem_flatMap, List.mem_map]
      exact ⟨c.before, ⟨c, hc, rfl⟩, a, ha, rfl⟩)
    have hget := (hentry change hchange).1
    rw [hid, hsome] at hget
    exact (congrArg Prod.fst (Option.some.inj hget)).symm
  · intro id hpos
    obtain ⟨g, hg, a, ha, rfl, -⟩ := PhysicalStockGroup.exists_atProgress_of_pos hpos
    obtain ⟨total, hsome⟩ := henters.entered (g.packs, a) (by
      simp only [allocations, List.mem_flatMap, List.mem_map]
      exact ⟨g, List.mem_map.mp hg, a, ha, rfl⟩)
    have htotal : total.value = _ := (henters.total _ _ hsome).2
    rw [hleaving] at htotal
    obtain ⟨change, hchange, hretire⟩ := exists_of_mapM hchanges (a := (a.requirement, total)) (by
      rw [List.mem_filter, mem_values hkey]
      exact ⟨hsome, by simpa [htotal] using hpos⟩)
    exact ⟨change, hchange, by rw [(retireRequirement_eq_ok hretire).1]⟩

/-! ## The departure -/

/-- A departure on a paper that was issued. -/
structure DepartureRecord where
  id : HubRecordId
  operation : HubRecordId
  hub : HubId
  stockRevision : HubRevision
  catalogRevision : HubRevision
  actor : PublicKey
  recordedAt : UnixTimestamp
  occurred : Occurrence
  observation : SourceProvenance
  paper : DispatchRecord
  consumed : List ConsumedStockGroup
  workChanges : List DepartureWorkChange
  deriving DecidableEq, Repr

section
variable [Sha256]

/-- One consumed group is the one its line describes. -/
def DepartureRecord.checkLine (record : DepartureRecord) (effect : ConsumedStockGroup)
    (line : DispatchLineSnapshot) : Except DepartureError Unit := do
  let group := effect.before
  mapErr .movement group.validate
  refuse (group.id ≠ line.group ∨ group.revision ≠ line.groupRevision ∨
    group.trace ≠ line.trace.id ∨ group.variant ≠ line.variant.id ∨
    group.location ≠ line.location.id ∨ group.packs ≠ line.packs ∨
    group.identification ≠ line.identification) .invalidHistory
  let revision ← nextDeparture group.revision
  refuse (effect.afterRevision ≠ revision ∨ group.revision.value ≥ record.stockRevision.value)
    .invalidHistory
  let floor ← mapErr .movement (group.observationFloor record.occurred record.recordedAt)
  refuse (effect.causalFloor ≠ floor) .invalidHistory

def DepartureRecord.validate (record : DepartureRecord) : Except DepartureError Unit := do
  mapErr .dispatch record.paper.validate
  let issued ← okOr record.paper.versions.getLast? .identificationUnavailable
  let ids ← DepartureIdentities.fromOperationBytes record.operation
  refuse (record.id ≠ ids.departure ∨ record.hub ≠ record.paper.hub ∨
    record.paper.draft.isSome = true ∨ issued.status ≠ .issued ∨ issued.closed.isSome = true ∨
    record.stockRevision.value ≤ record.paper.updated.stockRevision.value ∨
    record.catalogRevision.value < issued.material.catalogRevision.value ∨
    record.consumed = [] ∨ record.consumed.length > hubDispatchLines ∨
    record.consumed.length ≠ issued.material.lines.length) .invalidHistory
  mapErr (fun _ => .invalidHistory) (record.occurred.validate record.recordedAt)
  (record.consumed.zip issued.material.lines).forM fun (effect, line) =>
    record.checkLine effect line
  let changes ← retiredWork record.consumed
  refuse (record.workChanges ≠ changes) .invalidHistory

/-- Sends off what a paper identifies. -/
structure DepartureCommand where
  expectedStockRevision : HubRevision
  expectedCatalogRevision : HubRevision
  preparation : HubRecordId
  expectedPreparationRevision : HubRevision
  identification : HubRecordId
  occurred : Occurrence
  observation : SourceProvenance
  deriving DecidableEq, Repr

/-- The lineage of one population and its treatment. -/
structure DepartureTreatment where
  lineage : PhysicalLineage
  state : TreatmentState
  deriving DecidableEq

/-- What the hub reads for a departure. -/
structure DepartureContext where
  hub : HubId
  stockRevision : HubRevision
  catalog : ReferenceCatalog
  paper : DispatchRecord
  sources : List DispatchSource
  treatments : List DepartureTreatment
  priorDeparture : Option DepartureRecord

/-- A present group agrees with its node. -/
def DepartureContext.selectGroup (context : DepartureContext) (graph : PhysicalLineage)
    (source : DispatchSource) : Except DepartureError HubRecordId := do
  let group := source.group
  mapErr .movement (group.validateCatalog context.catalog)
  let node ← okOr (graph.node group.id) .invalidSources
  refuse (node.trace ≠ group.trace ∨ node.variant ≠ group.variant ∨ node.parent ≠ group.parent ∨
    node.packs ≠ group.packs) .invalidSources
  return group.id

/-- One population allows its groups among the sources to leave. -/
def DepartureContext.checkTreatment (context : DepartureContext) (traces : Finset HubRecordId)
    (earlier : List DepartureTreatment) (treatment : DepartureTreatment) :
    Except DepartureError Unit := do
  let graph := treatment.lineage
  refuse (graph.hub ≠ context.hub ∨ graph.revision ≠ context.stockRevision ∨
    graph.trace ∉ traces ∨ ∃ other ∈ earlier, other.lineage.trace = graph.trace) .invalidSources
  let selected ← (context.sources.filter fun source => source.group.trace = graph.trace).mapM
    (context.selectGroup graph)
  let projection ← mapErr .treatment
    (treatment.state.project graph context.catalog.handlingBasis)
  let selection ← mapErr .treatment (TreatmentSelection.new selected)
  mapErr .treatment (projection.require selection .normalDeparture)

/-- The group a line names leaves. -/
def DepartureCommand.consume (command : DepartureCommand) (context : DepartureContext)
    (now : UnixTimestamp) (line : DispatchLineSnapshot) :
    Except DepartureError ConsumedStockGroup := do
  let source ← okOr (context.sources.find? fun source => source.group.id = line.group)
    .invalidSources
  let afterRevision ← nextDeparture source.group.revision
  let causalFloor ← mapErr .movement (source.group.observationFloor command.occurred now)
  return { before := source.group, afterRevision, causalFloor }

/-- What the paper identifies leaves as a whole or not at all. -/
def DepartureCommand.plan (command : DepartureCommand) (context : DepartureContext)
    (ids : DepartureIdentities) (actor : PublicKey) (now : UnixTimestamp) :
    Except DepartureError DepartureRecord := do
  let derived ← DepartureIdentities.fromOperationBytes ids.operation
  refuse (ids ≠ derived) .invalidIdentity
  refuse (context.priorDeparture.isSome = true) .alreadyUsed
  let paper := context.paper
  mapErr .dispatch paper.validate
  refuse (command.expectedStockRevision ≠ context.stockRevision ∨
    command.expectedCatalogRevision ≠ context.catalog.revision ∨
    command.preparation ≠ paper.id ∨ command.expectedPreparationRevision ≠ paper.revision ∨
    paper.hub ≠ context.hub) .staleRevision
  let issued ← okOr paper.versions.getLast? .identificationUnavailable
  refuse (paper.draft.isSome = true ∨ issued.id ≠ command.identification ∨
    issued.status ≠ .issued ∨ issued.closed.isSome = true) .identificationUnavailable
  let selection ← mapErr .dispatch issued.material.selection
  let fresh ← mapErr .dispatch (DispatchMaterial.capture
    { hub := context.hub, stockRevision := context.stockRevision, catalog := context.catalog
      sources := context.sources, current := some paper }
    issued.material.recipient.id selection issued.material.observation)
  refuse (¬ fresh.SameMaterial issued.material) .materialChanged
  let traces := (issued.material.lines.map fun line => line.trace.id).toFinset
  refuse (context.treatments.length ≠ traces.card) .invalidSources
  forPrefix (context.checkTreatment traces) [] context.treatments
  let consumed ← issued.material.lines.mapM (command.consume context now)
  let stockRevision ← nextDeparture context.stockRevision
  let workChanges ← retiredWork consumed
  let record : DepartureRecord := {
    id := ids.departure, operation := ids.operation, hub := context.hub, stockRevision
    catalogRevision := context.catalog.revision, actor, recordedAt := now
    occurred := command.occurred, observation := command.observation, paper, consumed, workChanges }
  record.validate
  return record

end

/-! ## What has departed was free to -/

/-- The scope resolves, and the group is one of its groups. -/
def PhysicalLineage.Resolves (L : PhysicalLineage) (scope : CapturedPhysicalScope)
    (id : HubRecordId) : Prop :=
  ∃ r, L.resolve scope = .ok r ∧ ∃ n ∈ r.groups, n.id = id

theorem PhysicalLineage.resolves_iff {L : PhysicalLineage} {scope : CapturedPhysicalScope}
    {id : HubRecordId} :
    L.Resolves scope id ↔ L.Admits scope ∧ TreatmentState.Covers L scope id := by
  constructor
  · rintro ⟨r, hr, hmem⟩
    obtain ⟨hadmits, -, hgroups, -⟩ := PhysicalLineage.resolve_eq_ok.mp hr
    exact ⟨hadmits, by rwa [hgroups] at hmem⟩
  · rintro ⟨hadmits, hcovers⟩
    obtain ⟨r, hr⟩ := PhysicalLineage.resolve_succeeds hadmits
    refine ⟨r, hr, ?_⟩
    rw [(PhysicalLineage.resolve_eq_ok.mp hr).2.2.1]
    exact hcovers

/-- The population's records let the whole group leave: it is a node with the same packs, no
unreleased hold resolves to it, and the latest decision or review that does is an acceptance. -/
structure DepartureTreatment.Clears (treatment : DepartureTreatment) (group : PhysicalStockGroup) :
    Prop where
  node : ∃ n ∈ treatment.lineage.nodes, n.id = group.id ∧ n.packs = group.packs
  unheld : ∀ hold ∈ treatment.state.holds, hold.release = none →
    ∃ r, treatment.lineage.resolve hold.scope = .ok r ∧ ∀ n ∈ r.groups, n.id ≠ group.id
  accepted : ∃ decision ∈ treatment.state.decisions, decision.status = .accepted ∧
    treatment.lineage.Resolves decision.scope group.id ∧
    (∀ other ∈ treatment.state.decisions, treatment.lineage.Resolves other.scope group.id →
      other = decision ∨
        other.stamp.stockRevision.value < decision.stamp.stockRevision.value) ∧
    ∀ review ∈ treatment.state.initialReviews,
      treatment.lineage.Resolves review.scope group.id →
        review.stamp.stockRevision.value < decision.stamp.stockRevision.value

/-- A group whose treatment passed the plan's check is cleared. -/
theorem DepartureContext.clears_of_checkTreatment {earlier : List DepartureTreatment}
    {treatment : DepartureTreatment} {u : Unit}
    (h : context.checkTreatment traces earlier treatment = .ok u) {source : DispatchSource}
    (hsource : source ∈ context.sources) (htrace : source.group.trace = treatment.lineage.trace) :
    treatment.Clears source.group := by
  simp only [checkTreatment, accepted] at h
  obtain ⟨-, selected, hselected, projection, hproject, selection, hselection, hrequire⟩ := h
  -- the group is selected, so its node has its packs
  obtain ⟨id, hid, hselect⟩ := exists_of_mapM hselected
    (List.mem_filter.mpr ⟨hsource, by simpa using htrace⟩)
  simp only [selectGroup, accepted, passed, PhysicalLineage.node_eq_some] at hselect
  obtain ⟨-, node, ⟨hnode, hnode_id⟩, ⟨-, -, -, hpacks⟩, rfl⟩ := hselect
  -- the projection found the group under the same identity, and it allows departure
  obtain ⟨stand, hstand, hstand_id, hallows⟩ := TreatmentProjection.require_eq_ok hrequire
    ((TreatmentSelection.mem_of_new hselection).mpr hid)
  obtain ⟨hfits, -, -, -, hgroups⟩ := TreatmentState.project_eq_ok hproject
  rw [hgroups, List.mem_map] at hstand
  obtain ⟨node', hnode', rfl⟩ := hstand
  have hsame : node' = node := PhysicalLineage.node_ext (List.mem_of_mem_filter hnode') hnode
    (hstand_id.trans hnode_id.symm)
  rw [hsame] at hallows
  obtain ⟨⟨decision, haccepted⟩, hunheld⟩ := TreatmentState.allows_normalDeparture hfits hallows
  rw [hnode_id] at haccepted hunheld
  refine ⟨⟨node, hnode, hnode_id, hpacks⟩, fun hold hhold hrelease => ?_, decision, haccepted.mem,
    haccepted.accepted, ?_, fun other hother hresolves => ?_, fun review hreview hresolves => ?_⟩
  · obtain ⟨r, hr⟩ := PhysicalLineage.resolve_succeeds (hfits.hold hold hhold).scope.admits
    refine ⟨r, hr, fun n hn hn_id => hunheld hold hhold hrelease ?_⟩
    exact (PhysicalLineage.resolves_iff.mp ⟨r, hr, n, hn, hn_id⟩).2
  · exact PhysicalLineage.resolves_iff.mpr
      ⟨(hfits.decision decision haccepted.mem).2.admits, haccepted.covers⟩
  · exact haccepted.decision_older other hother (PhysicalLineage.resolves_iff.mp hresolves).2
  · exact haccepted.review_older review hreview (PhysicalLineage.resolves_iff.mp hresolves).2

/-- As many treatments as traces, each of its own trace: every trace has exactly one. -/
theorem DepartureContext.treatment_of_trace {u : Unit}
    (hcard : context.treatments.length = traces.card)
    (h : forPrefix (context.checkTreatment traces) [] context.treatments = .ok u)
    {trace : HubRecordId} (htrace : trace ∈ traces) :
    ∃ treatment, context.treatments.filter (fun t => t.lineage.trace = trace) = [treatment] ∧
      treatment.lineage.trace = trace ∧
      ∃ earlier, context.checkTreatment traces earlier treatment = .ok () := by
  have hcheck := forPrefix_eq_ok.mp h
  have hfirst : ∀ (pre : List DepartureTreatment) (t : DepartureTreatment) post,
      context.treatments = pre ++ t :: post →
        t.lineage.trace ∈ traces ∧ ∀ other ∈ pre, other.lineage.trace ≠ t.lineage.trace := by
    intro pre t post hl
    have := hcheck pre t post hl
    simp only [checkTreatment, accepted, passed, not_exists, not_and, List.nil_append] at this
    exact this.1.2.2
  have hnodup : (context.treatments.map fun t => t.lineage.trace).Nodup :=
    nodup_map_iff_fresh.mpr fun pre t post hl => (hfirst pre t post hl).2
  have hsub : (context.treatments.map fun t => t.lineage.trace).toFinset ⊆ traces := by
    intro x hx
    obtain ⟨t, ht, rfl⟩ := List.mem_map.mp (List.mem_toFinset.mp hx)
    obtain ⟨pre, post, hl⟩ := List.append_of_mem ht
    exact (hfirst pre t post hl).1
  -- a subset of the same size is the whole
  have heq := Finset.eq_of_subset_of_card_le hsub (by
    rw [List.toFinset_card_of_nodup hnodup, List.length_map, hcard])
  rw [← heq, List.mem_toFinset, List.mem_map] at htrace
  obtain ⟨t, ht, rfl⟩ := htrace
  obtain ⟨pre, post, hl⟩ := List.append_of_mem ht
  exact ⟨t, filter_key_eq_singleton hnodup ht, rfl, _, hcheck pre t post hl⟩

/-- The consumed group is the one printed on the line, whole. -/
structure ConsumedStockGroup.Follows (consumed : ConsumedStockGroup) (line : DispatchLineSnapshot) :
    Prop where
  group_eq : consumed.before.id = line.group
  revision_eq : consumed.before.revision = line.groupRevision
  packs_eq : consumed.before.packs = line.packs
  trace_eq : consumed.before.trace = line.trace.id

section
variable [Sha256]

/-- What a validated departure says of its paper and its groups. -/
theorem DepartureRecord.follows_of_validate {record : DepartureRecord} {u : Unit}
    (h : record.validate = .ok u) {issued : IdentificationVersion}
    (hissued : record.paper.versions.getLast? = some issued) :
    issued.status = .issued ∧ issued.closed = none ∧
    List.Forall₂ ConsumedStockGroup.Follows record.consumed issued.material.lines ∧
    issued.material.lines.Pairwise (fun a b => a.group < b.group) ∧
    retiredWork record.consumed = .ok record.workChanges := by
  simp only [validate, accepted, hissued, Option.some.injEq, passed, forM_eq_ok] at h
  obtain ⟨hpaper, _, rfl, ids, -, ⟨-, -, -, hstatus, hclosed, -, -, -, -, hlength⟩, -, hlines,
    changes, hchanges, hsame⟩ := h
  refine ⟨hstatus, by simpa using hclosed,
    List.forall₂_iff_zip.mpr ⟨hlength, fun {c line} hzip => ?_⟩, DispatchMaterial.sorted_of_validate
      (DispatchRecord.material_of_validate hpaper (List.mem_of_getLast? hissued)),
    hsame ▸ hchanges⟩
  have hline := hlines (c, line) hzip
  simp only [checkLine, accepted, passed] at hline
  obtain ⟨-, ⟨hgroup, hrevision, htrace, -, -, hpacks, -⟩, -⟩ := hline
  exact ⟨hgroup, hrevision, hpacks, htrace⟩

/-- **Held or unaccepted stock never departs.**  Every consumed group has exactly one treatment
of its population, which clears it; the consumed groups are those of the last issued version,
line by line; and each requirement is retired once, by what was pending on it. -/
theorem departed_groups_were_cleared {command : DepartureCommand} {context : DepartureContext}
    {ids : DepartureIdentities} {actor : PublicKey} {now : UnixTimestamp} {record : DepartureRecord}
    (h : command.plan context ids actor now = .ok record) :
    (∀ c ∈ record.consumed, ∃ treatment,
      context.treatments.filter (fun t => t.lineage.trace = c.before.trace) = [treatment] ∧
        treatment.Clears c.before) ∧
    (∃ issued, context.paper.versions.getLast? = some issued ∧ issued.status = .issued ∧
      issued.closed = none ∧
      List.Forall₂ ConsumedStockGroup.Follows record.consumed issued.material.lines) ∧
    (record.consumed.map fun c => c.before.id).Nodup ∧
    (∀ c ∈ record.consumed, ∃ source ∈ context.sources, source.group = c.before) ∧
    (record.workChanges.map fun change => change.before.id).Nodup ∧
    (∀ change ∈ record.workChanges, change.Exact ∧ change.retired.value =
      PhysicalStockGroup.packsAt (record.consumed.map (·.before)) change.before.id .pending) ∧
    ∀ id, 0 < PhysicalStockGroup.packsAt (record.consumed.map (·.before)) id .pending →
      ∃ change ∈ record.workChanges, change.before.id = id := by
  simp only [DepartureCommand.plan, accepted, passed] at h
  obtain ⟨-, -, -, -, -, -, issued, hissued, -, selection, -, fresh, -, -, hcard, htreatments,
    consumed, hconsumed, revision, -, changes, -, hvalid, rfl⟩ := h
  obtain ⟨hstatus, hclosed, hfollows, hsorted, hretired⟩ :=
    DepartureRecord.follows_of_validate hvalid hissued
  obtain ⟨-, hchanges, hexact, -, hcovered⟩ := retiredWork_eq_ok hretired
  have hsource : ∀ c ∈ consumed, ∃ source ∈ context.sources, source.group = c.before := by
    intro c hc
    obtain ⟨line, -, hconsume⟩ := (mem_of_mapM hconsumed c).mp hc
    simp only [DepartureCommand.consume, accepted] at hconsume
    obtain ⟨source, hfind, _, -, _, -, rfl⟩ := hconsume
    exact ⟨source, List.mem_of_find?_eq_some hfind, rfl⟩
  refine ⟨fun c hc => ?_, ⟨issued, hissued, hstatus, hclosed, hfollows⟩, ?_, hsource, ?_,
    fun change hchange => ⟨(hexact change hchange).1, (hexact change hchange).2.2⟩, hcovered⟩
  · obtain ⟨line, hline, hfollow⟩ := exists_of_forall₂ hfollows hc
    have htrace : c.before.trace ∈ (issued.material.lines.map fun line => line.trace.id).toFinset :=
      List.mem_toFinset.mpr (List.mem_map.mpr ⟨line, hline, hfollow.trace_eq.symm⟩)
    obtain ⟨treatment, hone, heq, earlier, hcheck⟩ :=
      DepartureContext.treatment_of_trace hcard htreatments htrace
    obtain ⟨source, hmem, hgroup⟩ := hsource c hc
    refine ⟨treatment, hone, ?_⟩
    rw [← hgroup]
    exact DepartureContext.clears_of_checkTreatment hcheck hmem (by rw [hgroup, heq])
  · have hmap : (consumed.map fun c => c.before.id) = issued.material.lines.map (·.group) :=
      map_eq_of_forall₂ hfollows fun _ _ hfollow => hfollow.group_eq
    rw [hmap, List.Nodup, List.pairwise_map]
    exact hsorted.imp fun hlt => hlt.ne
  · rw [List.Nodup, List.pairwise_map]
    exact hchanges.imp fun hlt => hlt.ne

end

/-! ### A crate of ten packs that leaves -/

/-- SHA-256 on the strings that are hashed when the crate leaves. -/
@[reducible] def crateDigest : Sha256 where
  digest bytes :=
    if bytes = utf8 "harvestcircle.hub.dispatch.identity.v1\x00preparation\x00" ++
      bigEndian 16 21 then
      0x3ed6a38dd33203467f87754061cbbce85d6019c8e40bfd312ce1f1c9a0977714
    else if bytes =
        utf8 "harvestcircle.hub.dispatch.identity.v1\x00identification\x00" ++ bigEndian 16 21 then
      0xd98626f306c4ef74e9ef982cceef20b3404a2bff0dbb05b5aea20b57052d6b97
    else if bytes =
        utf8 "harvestcircle.hub.dispatch.identity.v1\x00preparation\x00" ++ bigEndian 16 22 then
      0xc1b38d5503e397a7c31337f384a43679ab7d16b7ba786eb2242cbcde98adab25
    else if bytes =
        utf8 "harvestcircle.hub.dispatch.identity.v1\x00identification\x00" ++ bigEndian 16 22 then
      0x087b66d0ac487eb0862bccaa18772b233fec225af9ec5d2a956ad757d4b6e543
    else if bytes = utf8 "harvestcircle.hub.departure.identity.v1\x00" ++ bigEndian 16 23 then
      0x8c3e5ecfabb8f41ced54f4bcf112c7be9c3fa1589262f74ae316bd8f83219b81
    else 0

def crateNote : SourceProvenance := ⟨"counted at the dock", by decide⟩
def crateActor : PublicKey := .of 77
def crateTime : UnixTimestamp := .of 1000

def crateVariant : ReferenceRecord :=
  ⟨.of 3, .initial, .pack (.of 4) ⟨"box of ten", Eq.refl true⟩ none⟩
def crateProduct : ReferenceRecord := ⟨.of 4, .initial, .product ⟨"apples", Eq.refl true⟩⟩
def crateRecipient : ReferenceRecord := ⟨.of 5, .initial, .party ⟨"kitchen", Eq.refl true⟩⟩
def crateDock : ReferenceRecord :=
  ⟨.of 6, .initial, .location ⟨"dock", Eq.refl true⟩ .receiving⟩
def crateShelf : ReferenceRecord :=
  ⟨.of 7, .initial, .location ⟨"shelf", Eq.refl true⟩ .storage⟩

def crateCatalog : ReferenceCatalog where
  revision := .initial
  records := [crateVariant, crateProduct, crateRecipient, crateDock, crateShelf]
  sorted := by decide
  bounded := by decide

def cratePopulation : StockPopulation where
  id := .of 2
  variant := crateVariant
  product := crateProduct
  supplier := none
  producer := none
  source := .unknown
  sourceIssuer := none
  originalPacks := .of 10
  initialLocation := crateDock
  origin := .receipt
  plannedLocation := some crateShelf
  occurred := .known crateTime
  recordedAt := crateTime
  actor := crateActor
  observation := crateNote

/-- The crate still waits to be put on the shelf. -/
def crate : PhysicalStockGroup where
  id := .of 10
  trace := .of 2
  variant := .of 3
  parent := none
  identification := none
  location := .of 6
  packs := .of 10
  revision := .initial
  causalFloor := none
  work := [⟨⟨.of 8, .of 2, .of 3, some crateShelf,
    .pending (.of 10), .initial⟩, .pending⟩]

def crateLineage : PhysicalLineage where
  hub := .of 1
  trace := .of 2
  variant := .of 3
  revision := .of 5
  nodes := [⟨.of 10, none, .of 2, .of 3, .of 2, .of 10,
    none⟩]
  wellFormed := (checkNodes_eq_ok (by simp)).mp (by decide)

/-- The crate as it was captured at a revision. -/
def crateScope (captured : HubRevision) (h : 2 ≤ captured.value) : CapturedPhysicalScope where
  hub := .of 1
  trace := .of 2
  variant := .of 3
  capturedRevision := captured
  anchors := [⟨.of 10, .of 2, .of 10⟩]
  wellFormed := ⟨by simp, by decide, by simp, by simpa using h, by simp⟩

def crateStamp (id : HubRecordId) (revision : HubRevision) : TreatmentStamp :=
  ⟨id, revision, crateActor, .wholePackV1, crateTime, .known crateTime, crateNote⟩

/-- Accepted once. -/
def crateTreatment : DepartureTreatment where
  lineage := crateLineage
  state := {
    decisions := [⟨crateStamp (.of 31) (.of 3), crateScope (.of 2) (by decide),
      .accepted⟩]
    holds := []
    initialReviews := [] }

/-- The operation that prepared the paper at revision four or issued it at revision five. -/
def crateDispatchStamp (operation : HubRecordId) (revision : HubRevision) : DispatchStamp :=
  ⟨operation, revision, crateActor, crateTime, crateNote⟩

def cratePaper : DispatchRecord where
  id := .of 0x3ed6a38dd33203467f87754061cbbce8
  hub := .of 1
  revision := .of 2
  created := crateDispatchStamp (.of 21) (.of 4)
  updated := crateDispatchStamp (.of 22) (.of 5)
  draft := none
  versions := [{
    id := .of 0x087b66d0ac487eb0862bccaa18772b23
    number := 1
    previous := none
    material := {
      stockRevision := .of 4, catalogRevision := .initial, basis := .wholePackV1
      recipient := crateRecipient
      lines := [⟨.of 10, .initial, .of 10, none, crateDock, crateProduct,
        crateVariant, cratePopulation⟩]
      observation := crateNote }
    issued := crateDispatchStamp (.of 22) (.of 5)
    status := .issued
    closed := none }]

def crateContext : DepartureContext where
  hub := .of 1
  stockRevision := .of 5
  catalog := crateCatalog
  paper := cratePaper
  sources := [⟨crate, cratePopulation⟩]
  treatments := [crateTreatment]
  priorDeparture := none

def crateDeparture : DepartureCommand where
  expectedStockRevision := .of 5
  expectedCatalogRevision := .initial
  preparation := cratePaper.id
  expectedPreparationRevision := .of 2
  identification := .of 0x087b66d0ac487eb0862bccaa18772b23
  occurred := .known crateTime
  observation := crateNote

def crateIdentities : DepartureIdentities :=
  ⟨.of 23, .of 0x8c3e5ecfabb8f41ced54f4bcf112c7be⟩

/-- The whole crate leaves, and the ten packs that were to be put away are no longer required. -/
theorem departed_groups_were_cleared_crate : ∃ record,
    @DepartureCommand.plan crateDigest crateDeparture crateContext crateIdentities crateActor
      crateTime = .ok record ∧ record.consumed.map (·.before) = [crate] ∧
    record.workChanges.map (·.retired.value) = [10] ∧ crateTreatment.Clears crate := by
  have hplan : (@DepartureCommand.plan crateDigest crateDeparture crateContext crateIdentities
      crateActor crateTime).map (fun record => (record.consumed.map (·.before),
        record.workChanges.map (·.retired.value))) = .ok ([crate], [10]) := by decide +kernel
  cases h : @DepartureCommand.plan crateDigest crateDeparture crateContext crateIdentities
    crateActor crateTime with
  | error e =>
    rw [h] at hplan
    cases hplan
  | ok record =>
    rw [h] at hplan
    obtain ⟨hconsumed, hchanges⟩ := Prod.mk.inj (Except.ok.inj hplan)
    obtain ⟨hclears, -⟩ := @departed_groups_were_cleared crateDigest _ _ _ _ _ _ h
    obtain ⟨c, hc, hbefore⟩ := List.mem_map.mp (hconsumed ▸ List.mem_singleton_self crate)
    obtain ⟨treatment, hone, hclear⟩ := hclears c hc
    rw [hbefore] at hone hclear
    obtain rfl : crateTreatment = treatment := by
      have hsame : [crateTreatment] = [treatment] := by rw [← hone]; rfl
      exact List.singleton_inj.mp hsame
    exact ⟨record, rfl, hconsumed, hchanges, hclear⟩

end HarvestCircle
