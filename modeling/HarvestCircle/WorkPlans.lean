import HarvestCircle.Movement
import HarvestCircle.Table

/-! # Plans that change what is required

A replan drops all remaining work of a requirement and asks for it again at another
target; it is given every group that is pending.  New work is asked of groups that
have none pending.  Both append one allocation to each group and keep a group's
allocations in the order of their requirements.
-/
namespace HarvestCircle
open Checked

/-- Allocations in the order of their requirements. -/
def sortWork (work : List WorkAllocation) : List WorkAllocation :=
  work.insertionSort fun a b => a.requirement.id ≤ b.requirement.id

@[simp] theorem mem_sortWork {work : List WorkAllocation} {a : WorkAllocation} :
    a ∈ sortWork work ↔ a ∈ work := List.mem_insertionSort _

/-! ## Replanning -/

/-- Sends open work to another target. -/
structure ReplanCommand where
  expectedStockRevision : HubRevision
  expectedCatalogRevision : HubRevision
  requirement : HubRecordId
  expectedWorkRevision : HubRevision
  target : HubRecordId
  observation : SourceProvenance
  deriving DecidableEq, Repr

structure ReplanPlan where
  stockRevision : HubRevision
  previous : WorkRequirement
  replacement : WorkRequirement
  groups : List PhysicalStockGroup
  deriving DecidableEq, Repr

/-- What the loop over the pending groups has done so far. -/
structure ReplanLoop where
  earlier : List PhysicalStockGroup
  total : WholePacks
  groups : List PhysicalStockGroup

/-- One pending group: its allocation is dropped, and the replacement appended. -/
def ReplanCommand.replanGroup (command : ReplanCommand) (catalog : ReferenceCatalog)
    (work previous replacement : WorkRequirement) (loop : ReplanLoop)
    (group : PhysicalStockGroup) : Except MovementError ReplanLoop := do
  group.validateCatalog catalog
  refuse (group.location = command.target ∨ (∃ other ∈ loop.earlier, other.id = group.id) ∨
    ∃ allocation ∈ group.work, allocation.requirement.id = replacement.id) .invalidWorkScope
  refuse (group.work.length = hubGroupRequirements) .capacity
  let index ← okOr (group.work.findIdx? fun allocation => allocation.requirement.id = work.id)
    .invalidWorkScope
  refuse (group.work[index]? ≠ some ⟨work, .pending⟩) .invalidWorkScope
  let total ← mapErr .reference (loop.total.checkedAdd group.packs)
  let revision ← nextMovement group.revision
  let changed := { group with
    work := sortWork (group.work.set index ⟨previous, .noLongerRequired⟩ ++
      [⟨replacement, .pending⟩])
    revision }
  changed.validate
  return { earlier := loop.earlier ++ [group], total, groups := loop.groups ++ [changed] }

def ReplanCommand.plan (command : ReplanCommand) (catalog : ReferenceCatalog)
    (stockRevision : HubRevision) (work : WorkRequirement)
    (pendingGroups : List PhysicalStockGroup) (replacementId : HubRecordId) :
    Except MovementError ReplanPlan := do
  work.validate
  refuse (command.expectedStockRevision ≠ stockRevision ∨
    command.expectedCatalogRevision ≠ catalog.revision ∨ command.requirement ≠ work.id ∨
    command.expectedWorkRevision ≠ work.revision) .staleRevision
  refuse (replacementId = work.id ∨ ∃ target ∈ work.target, command.target = target.id)
    .identityConflict
  refuse (work.quantity.remaining.value = 0) .noRemainingWork
  refuse (pendingGroups = [] ∨ pendingGroups.length > hubRequirementGroups) .invalidWorkScope
  let target ← mapErr .reference (catalog.requireKind command.target .location)
  let previous ← work.retireRemaining
  let replacement : WorkRequirement := {
    id := replacementId, trace := work.trace, variant := work.variant, target := some target
    quantity := .pending work.quantity.remaining, revision := .initial }
  let loop ← pendingGroups.foldlM (command.replanGroup catalog work previous replacement)
    ⟨[], .zero, []⟩
  refuse (loop.total ≠ work.quantity.remaining) .invalidWorkScope
  let stockRevision ← nextMovement stockRevision
  return { stockRevision, previous, replacement, groups := loop.groups }

/-- What a replan of `work` does to one group. -/
structure WorkRequirement.Replans (work previous replacement : WorkRequirement)
    (before after : PhysicalStockGroup) : Prop where
  valid : before.Valid
  after_valid : after.Valid
  id_eq : after.id = before.id
  packs_eq : after.packs = before.packs
  pending : ⟨work, .pending⟩ ∈ before.work
  replacement_fresh : ∀ a ∈ before.work, a.requirement.id ≠ replacement.id
  mem_work : ∀ a, a ∈ after.work ↔ a = ⟨previous, .noLongerRequired⟩ ∨
    a = ⟨replacement, .pending⟩ ∨ a ∈ before.work ∧ a.requirement.id ≠ work.id

section
variable {command : ReplanCommand} {catalog : ReferenceCatalog}
  {work previous replacement : WorkRequirement} {loop : ReplanLoop}

theorem ReplanCommand.replanGroup_eq_ok {loop' : ReplanLoop} {group : PhysicalStockGroup}
    (h : command.replanGroup catalog work previous replacement loop group = .ok loop') :
    ∃ changed, work.Replans previous replacement group changed ∧
      (∀ other ∈ loop.earlier, other.id ≠ group.id) ∧
      loop'.earlier = loop.earlier ++ [group] ∧ loop'.groups = loop.groups ++ [changed] ∧
      loop'.total.value = loop.total.value + group.packs.value := by
  simp only [replanGroup, accepted, WholePacks.checkedAdd_eq_ok, passed, not_exists, not_and,
    PhysicalStockGroup.validate_eq_ok] at h
  obtain ⟨hcatalog, ⟨-, hearlier, hfresh⟩, -, index, -, hindex, total, htotal, revision, -, hvalid,
    rfl⟩ := h
  have hgroup := PhysicalStockGroup.valid_of_validateCatalog hcatalog
  refine ⟨_, {
    valid := hgroup
    after_valid := hvalid
    id_eq := rfl
    packs_eq := rfl
    pending := List.mem_of_getElem? hindex
    replacement_fresh := hfresh
    mem_work := fun a => ?_ }, hearlier, rfl, rfl, htotal⟩
  rw [mem_sortWork, List.mem_append, List.mem_singleton,
    Table.mem_set hgroup.work_nodup hindex]
  tauto

/-- The loop goes over distinct groups and adds up their packs. -/
theorem ReplanCommand.replanGroups_eq_ok {groups : List PhysicalStockGroup}
    (h : groups.foldlM (command.replanGroup catalog work previous replacement) ⟨[], .zero, []⟩ =
      .ok loop) :
    (groups.map (·.id)).Nodup ∧ loop.total.value = (groups.map fun g => g.packs.value).sum ∧
      List.Forall₂ (work.Replans previous replacement) groups loop.groups := by
  have hinv := foldlM_invariant (fun done (t : ReplanLoop) => t.earlier = done ∧
      (done.map (·.id)).Nodup ∧ t.total.value = (done.map fun g => g.packs.value).sum ∧
      List.Forall₂ (work.Replans previous replacement) done t.groups)
    ⟨rfl, List.nodup_nil, rfl, .nil⟩ ?_ h
  · exact hinv.2
  · rintro done group rest t t' - ⟨hdone, hnodup, htotal, hgroups⟩ hstep
    obtain ⟨changed, hreplans, hearlier, hdone', hgroups', htotal'⟩ := replanGroup_eq_ok hstep
    rw [hdone] at hearlier hdone'
    refine ⟨hdone', ?_, ?_, ?_⟩
    · rw [List.map_append, List.nodup_append]
      refine ⟨hnodup, List.nodup_singleton _, fun k hk k' hk' => ?_⟩
      obtain ⟨other, hother, rfl⟩ := List.mem_map.mp hk
      rw [List.map_singleton, List.mem_singleton] at hk'
      exact hk' ▸ hearlier other hother
    · simp only [List.map_append, List.sum_append, List.map_singleton, List.sum_singleton]
      omega
    · rw [hgroups']
      exact List.rel_append hgroups (.cons hreplans .nil)

end

variable {catalog : ReferenceCatalog} {stockRevision : HubRevision} {command : NewWorkCommand}
  {requirementId : HubRecordId}

/-- What a replan writes: the old requirement without its remaining work, the replacement,
and every group with its allocation exchanged. -/
theorem ReplanCommand.plan_eq_ok {command : ReplanCommand} {work : WorkRequirement}
    {pendingGroups : List PhysicalStockGroup} {replacementId : HubRecordId} {replan : ReplanPlan}
    (h : command.plan catalog stockRevision work pendingGroups replacementId = .ok replan) :
    work.retireRemaining = .ok replan.previous ∧ replan.replacement.id = replacementId ∧
    replacementId ≠ work.id ∧ replan.replacement.quantity = .pending work.quantity.remaining ∧
    (pendingGroups.map (·.id)).Nodup ∧
    (pendingGroups.map fun g => g.packs.value).sum = work.quantity.remaining.value ∧
    List.Forall₂ (work.Replans replan.previous replan.replacement) pendingGroups replan.groups := by
  simp only [plan, accepted, passed] at h
  obtain ⟨-, -, ⟨hid, -⟩, -, -, target, -, previous, hprevious, loop, hloop, htotal, revision, -,
    rfl⟩ := h
  obtain ⟨hnodup, hsum, hgroups⟩ := replanGroups_eq_ok hloop
  exact ⟨hprevious, rfl, hid, rfl, hnodup, by rw [← hsum, htotal], hgroups⟩

/-! ## New work -/

/-- Sets work on whole groups. -/
structure NewWorkCommand where
  expectedStockRevision : HubRevision
  expectedCatalogRevision : HubRevision
  groups : List HubRecordId
  target : HubRecordId
  observation : SourceProvenance
  deriving DecidableEq, Repr

structure NewWorkPlan where
  stockRevision : HubRevision
  requirement : WorkRequirement
  groups : List PhysicalStockGroup
  deriving DecidableEq, Repr

def NewWorkCommand.validateShape (command : NewWorkCommand) : Except MovementError Unit :=
  refuse (command.groups = [] ∨ command.groups.length > hubRequirementGroups ∨
    ¬ command.groups.IsChain (· < ·)) .invalidWorkScope

/-- One group the new work is asked of, with the packs of those before it. -/
def NewWorkCommand.addGroup (command : NewWorkCommand) (catalog : ReferenceCatalog)
    (first : PhysicalStockGroup) (requirementId : HubRecordId) (quantity : WholePacks)
    (entry : HubRecordId × PhysicalStockGroup) : Except MovementError WholePacks := do
  let (expected, group) := entry
  group.validateCatalog catalog
  refuse (group.id ≠ expected ∨ group.trace ≠ first.trace ∨ group.variant ≠ first.variant ∨
    group.location = command.target ∨ ∃ allocation ∈ group.work,
      allocation.progress = .pending ∨ allocation.requirement.id = requirementId)
    .invalidWorkScope
  refuse (group.work.length = hubGroupRequirements) .capacity
  mapErr .reference (quantity.checkedAdd group.packs)

/-- The group with the new work pending. -/
def PhysicalStockGroup.addWork (group : PhysicalStockGroup) (requirement : WorkRequirement) :
    Except MovementError PhysicalStockGroup := do
  let revision ← nextMovement group.revision
  let changed := { group with
    work := sortWork (group.work ++ [⟨requirement, .pending⟩]), revision }
  changed.validate
  return changed

def NewWorkCommand.plan (command : NewWorkCommand) (catalog : ReferenceCatalog)
    (stockRevision : HubRevision) (groups : List PhysicalStockGroup)
    (requirementId : HubRecordId) : Except MovementError NewWorkPlan := do
  refuse (command.expectedStockRevision ≠ stockRevision ∨
    command.expectedCatalogRevision ≠ catalog.revision) .staleRevision
  command.validateShape
  refuse (command.groups.length ≠ groups.length) .invalidWorkScope
  let first ← okOr groups.head? .invalidWorkScope
  let _ ← mapErr .reference (catalog.requireKind first.variant .pack)
  let target ← mapErr .reference (catalog.requireKind command.target .location)
  let quantity ← (command.groups.zip groups).foldlM
    (command.addGroup catalog first requirementId) .zero
  let requirement : WorkRequirement := {
    id := requirementId, trace := first.trace, variant := first.variant, target := some target
    quantity := .pending quantity, revision := .initial }
  let changed ← groups.mapM fun group => group.addWork requirement
  let stockRevision ← nextMovement stockRevision
  return { stockRevision, requirement, groups := changed }

/-- What new work does to one group. -/
structure WorkRequirement.Adds (requirement : WorkRequirement) (before after : PhysicalStockGroup) :
    Prop where
  valid : before.Valid
  after_valid : after.Valid
  id_eq : after.id = before.id
  packs_eq : after.packs = before.packs
  fresh : ∀ a ∈ before.work, a.requirement.id ≠ requirement.id
  mem_work : ∀ a, a ∈ after.work ↔ a ∈ before.work ∨ a = ⟨requirement, .pending⟩

theorem PhysicalStockGroup.addWork_eq_ok {group changed : PhysicalStockGroup}
    {requirement : WorkRequirement} (h : group.addWork requirement = .ok changed) :
    changed.Valid ∧ changed.id = group.id ∧ changed.packs = group.packs ∧
      ∀ a, a ∈ changed.work ↔ a ∈ group.work ∨ a = ⟨requirement, .pending⟩ := by
  simp only [addWork, accepted, validate_eq_ok] at h
  obtain ⟨revision, -, hvalid, rfl⟩ := h
  refine ⟨hvalid, rfl, rfl, fun a => ?_⟩
  rw [mem_sortWork, List.mem_append, List.mem_singleton]

/-- The groups are the ones asked for, and the new work is all of their packs. -/
theorem NewWorkCommand.addGroups_eq_ok {first : PhysicalStockGroup}
    {entries : List (HubRecordId × PhysicalStockGroup)} {quantity : WholePacks}
    (h : entries.foldlM (command.addGroup catalog first requirementId) .zero = .ok quantity) :
    quantity.value = (entries.map fun e => e.2.packs.value).sum ∧
      ∀ e ∈ entries, e.2.Valid ∧ e.2.id = e.1 ∧
        ∀ a ∈ e.2.work, a.requirement.id ≠ requirementId := by
  refine foldlM_invariant (fun done (t : WholePacks) =>
    t.value = (done.map fun e => e.2.packs.value).sum ∧ ∀ e ∈ done, e.2.Valid ∧ e.2.id = e.1 ∧
      ∀ a ∈ e.2.work, a.requirement.id ≠ requirementId) ⟨rfl, by simp⟩ ?_ h
  rintro done ⟨expected, group⟩ rest t t' - ⟨htotal, hdone⟩ hstep
  simp only [addGroup, accepted, passed, not_exists, not_and, WholePacks.checkedAdd_eq_ok] at hstep
  obtain ⟨hcatalog, ⟨hid, -, -, -, hwork⟩, -, htotal'⟩ := hstep
  refine ⟨?_, fun e he => ?_⟩
  · simp only [List.map_append, List.sum_append, List.map_singleton, List.sum_singleton]
    omega
  · rcases List.mem_append.mp he with he | he
    · exact hdone e he
    · obtain rfl := List.mem_singleton.mp he
      exact ⟨PhysicalStockGroup.valid_of_validateCatalog hcatalog, hid, fun a ha => (hwork a ha).2⟩

/-- What new work writes: the requirement, and every group with it pending. -/
theorem NewWorkCommand.plan_eq_ok {groups : List PhysicalStockGroup} {posted : NewWorkPlan}
    (h : command.plan catalog stockRevision groups requirementId = .ok posted) :
    posted.requirement.id = requirementId ∧ (groups.map (·.id)).Nodup ∧
    (∃ quantity : WholePacks, posted.requirement.quantity = .pending quantity ∧
      quantity.value = (groups.map fun g => g.packs.value).sum) ∧
    List.Forall₂ posted.requirement.Adds groups posted.groups := by
  simp only [plan, validateShape, accepted, passed] at h
  obtain ⟨-, ⟨-, -, hchain⟩, hlength, first, -, _, -, target, -, quantity, hquantity, changed,
    hchanged, revision, -, rfl⟩ := h
  obtain ⟨hsum, hentries⟩ := addGroups_eq_ok hquantity
  have hsnd : (command.groups.zip groups).map Prod.snd = groups :=
    List.map_snd_zip hlength.ge
  have hmem : ∀ g ∈ groups, ∃ expected, (expected, g) ∈ command.groups.zip groups := by
    intro g hg
    rw [← hsnd] at hg
    obtain ⟨⟨expected, _⟩, he, rfl⟩ := List.mem_map.mp hg
    exact ⟨expected, he⟩
  have hids : groups.map (·.id) = command.groups := by
    calc groups.map (·.id) = ((command.groups.zip groups).map Prod.snd).map (·.id) := by rw [hsnd]
      _ = (command.groups.zip groups).map Prod.fst := by
        rw [List.map_map]
        exact List.map_congr_left fun e he => (hentries e he).2.1
      _ = command.groups := List.map_fst_zip hlength.le
  refine ⟨rfl, ?_, ⟨quantity, rfl, ?_⟩, ?_⟩
  · rw [hids]
    exact (List.isChain_iff_pairwise.mp hchain).imp fun hlt => hlt.ne
  · rw [hsum, ← hsnd, List.map_map, hsnd]
    rfl
  · have hgroups : ∀ g ∈ groups, g.Valid ∧ ∀ a ∈ g.work, a.requirement.id ≠ requirementId := by
      intro g hg
      obtain ⟨expected, he⟩ := hmem g hg
      exact ⟨(hentries _ he).1, (hentries _ he).2.2⟩
    refine ((List.forall₂_and_left _ _).mpr ⟨hgroups, mapM_eq_ok.mp hchanged⟩).imp ?_
    rintro g g' ⟨⟨hvalid, hfresh⟩, hadd⟩
    obtain ⟨hvalid', hid, hpacks, hwork⟩ := PhysicalStockGroup.addWork_eq_ok hadd
    exact ⟨hvalid, hvalid', hid, hpacks, hfresh, hwork⟩

end HarvestCircle
