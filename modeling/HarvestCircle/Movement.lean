import Mathlib.Data.List.Nodup
import Mathlib.Algebra.BigOperators.Group.List.Lemmas
import HarvestCircle.Stock

/-! # Groups, their work, and what moves them

A physical group carries, for every requirement it is part of, a copy of the
requirement and how far the group is with it.  All packs of a group have the same
progress; a part is treated differently only after it was separated.

`PhysicalStockGroup.validate` is checked by every plan on the groups it reads and
on those it writes; `PhysicalStockGroup.Valid` is what it amounts to.
-/
namespace HarvestCircle
open Checked

def hubGroupCapacity : Nat := 16384
def hubGroupRequirements : Nat := 64
def hubRequirementGroups : Nat := 256

inductive MovementError where
  | reference (error : HubReferenceError)
  | stock (error : StockError)
  | staleRevision
  | revisionExhausted
  | invalidGroup
  | insufficientStock
  | unchangedLocation
  | physicalIdentificationRequired
  | identityConflict
  | invalidWorkScope
  | capacity
  | noRemainingWork
  | alreadyResolved
  deriving DecidableEq, Repr

/-- The following revision, as the movement plans refuse it. -/
def nextMovement (revision : HubRevision) : Except MovementError HubRevision :=
  mapErr (fun _ => .revisionExhausted) revision.next

/-! ## Requirements -/

/-- Work on packs of one variant, with its account. -/
structure WorkRequirement where
  id : HubRecordId
  trace : HubRecordId
  variant : HubRecordId
  target : Option ReferenceRecord
  quantity : QuantityWork
  revision : HubRevision
  deriving DecidableEq, Repr

namespace WorkRequirement

def validate (requirement : WorkRequirement) : Except MovementError Unit :=
  refuse ((∃ target ∈ requirement.target, target.value.kind ≠ .location) ∨
    requirement.quantity.required.value = 0 ∨
    (requirement.target.isNone = true ∧ requirement.quantity.completed.value ≠ 0))
    .invalidWorkScope

/-- Packs of the remaining work are done. -/
def complete (requirement : WorkRequirement) (packs : WholePacks) :
    Except MovementError WorkRequirement := do
  refuse (packs.value = 0) .invalidWorkScope
  let completed ← mapErr .reference (requirement.quantity.completed.checkedAdd packs)
  let remaining ← mapErr .reference (requirement.quantity.remaining.checkedSub packs)
  let quantity ← mapErr .stock (QuantityWork.restore requirement.quantity.required completed
    requirement.quantity.noLongerRequired remaining)
  let revision ← nextMovement requirement.revision
  return { requirement with quantity, revision }

/-- The remaining work is dropped. -/
def retireRemaining (requirement : WorkRequirement) : Except MovementError WorkRequirement := do
  refuse (requirement.quantity.remaining.value = 0) .noRemainingWork
  let noLongerRequired ← mapErr .reference
    (requirement.quantity.noLongerRequired.checkedAdd requirement.quantity.remaining)
  let quantity ← mapErr .stock (QuantityWork.restore requirement.quantity.required
    requirement.quantity.completed noLongerRequired .zero)
  let revision ← nextMovement requirement.revision
  return { requirement with quantity, revision }

variable {packs : WholePacks} {requirement requirement' : WorkRequirement}

/-- What `complete` changes. -/
theorem complete_eq_ok (h : requirement.complete packs = .ok requirement') :
    0 < packs.value ∧ requirement'.id = requirement.id ∧ requirement'.trace = requirement.trace ∧
    requirement'.variant = requirement.variant ∧ requirement'.target = requirement.target ∧
    requirement'.quantity.required = requirement.quantity.required ∧
    requirement'.quantity.completed.value =
      requirement.quantity.completed.value + packs.value ∧
    requirement'.quantity.noLongerRequired = requirement.quantity.noLongerRequired ∧
    requirement.quantity.remaining.value =
      packs.value + requirement'.quantity.remaining.value := by
  simp only [complete, nextMovement, accepted, WholePacks.checkedAdd_eq_ok,
    WholePacks.checkedSub_eq_ok, QuantityWork.restore_eq_ok, HubRevision.next_eq_ok] at h
  obtain ⟨hpos, completed, hcompleted, remaining, hremaining, quantity, ⟨hreq, hcomp, hno, hrem⟩,
    revision, hrevision, rfl⟩ := h
  subst hcomp hrem
  exact ⟨Nat.pos_of_ne_zero hpos, rfl, rfl, rfl, rfl, hreq, hcompleted, hno, hremaining⟩

/-- What `retireRemaining` changes. -/
theorem retireRemaining_eq_ok (h : requirement.retireRemaining = .ok requirement') :
    requirement'.id = requirement.id ∧ requirement'.trace = requirement.trace ∧
    requirement'.variant = requirement.variant ∧ requirement'.target = requirement.target ∧
    requirement'.quantity.required = requirement.quantity.required ∧
    requirement'.quantity.completed = requirement.quantity.completed ∧
    requirement'.quantity.noLongerRequired.value =
      requirement.quantity.noLongerRequired.value + requirement.quantity.remaining.value ∧
    requirement'.quantity.remaining.value = 0 := by
  simp only [retireRemaining, nextMovement, accepted, WholePacks.checkedAdd_eq_ok,
    QuantityWork.restore_eq_ok, HubRevision.next_eq_ok] at h
  obtain ⟨-, dropped, hdropped, quantity, ⟨hreq, hcomp, hno, hrem⟩, revision, hrevision, rfl⟩ := h
  subst hno
  exact ⟨rfl, rfl, rfl, rfl, hreq, hcomp, hdropped, by rw [hrem]; rfl⟩

/-- Packs of the remaining work are dropped.  Departures, counts and actual reductions each
have errors of their own for this. -/
def retirePacks {ε : Type} (reference : HubReferenceError → ε) (stock : StockError → ε)
    (exhausted : ε) (requirement : WorkRequirement) (packs : WholePacks) :
    Except ε WorkRequirement := do
  let noLongerRequired ← mapErr reference (requirement.quantity.noLongerRequired.checkedAdd packs)
  let remaining ← mapErr reference (requirement.quantity.remaining.checkedSub packs)
  let quantity ← mapErr stock (QuantityWork.restore requirement.quantity.required
    requirement.quantity.completed noLongerRequired remaining)
  let revision ← mapErr (fun _ => exhausted) requirement.revision.next
  return { requirement with quantity, revision }

/-- Packs went from the remaining work to the work no longer required, and nothing else
happened. -/
structure Retires (before after : WorkRequirement) (packs : WholePacks) : Prop where
  id_eq : after.id = before.id
  trace_eq : after.trace = before.trace
  variant_eq : after.variant = before.variant
  target_eq : after.target = before.target
  revision_eq : after.revision.value = before.revision.value + 1
  required_eq : after.quantity.required = before.quantity.required
  completed_eq : after.quantity.completed = before.quantity.completed
  noLongerRequired_eq : after.quantity.noLongerRequired.value =
    before.quantity.noLongerRequired.value + packs.value
  remaining_eq : before.quantity.remaining.value = packs.value + after.quantity.remaining.value

theorem retirePacks_eq_ok {ε : Type} {reference : HubReferenceError → ε} {stock : StockError → ε}
    {exhausted : ε} {before after : WorkRequirement}
    (h : before.retirePacks reference stock exhausted packs = .ok after) :
    before.Retires after packs := by
  simp only [retirePacks, accepted, WholePacks.checkedAdd_eq_ok, WholePacks.checkedSub_eq_ok,
    QuantityWork.restore_eq_ok, HubRevision.next_eq_ok] at h
  obtain ⟨dropped, hdropped, remaining, hremaining, quantity, ⟨hreq, hcomp, hno, hrem⟩, revision,
    hrevision, rfl⟩ := h
  subst hno hrem
  exact ⟨rfl, rfl, rfl, rfl, hrevision, hreq, hcomp, hdropped, hremaining⟩

end WorkRequirement

/-! ## Groups -/

/-- An observed tag or container that tells a portion apart. -/
structure PhysicalIdentification where
  label : HubLabel
  observation : SourceProvenance
  deriving DecidableEq, Repr

/-- How far the packs of a group are. -/
inductive WorkProgress where
  | pending
  | completed
  | noLongerRequired
  deriving DecidableEq, Repr

/-- The share of a group in a requirement. -/
structure WorkAllocation where
  requirement : WorkRequirement
  progress : WorkProgress
  deriving DecidableEq, Repr

/-- Packs that are together and treated alike. -/
structure PhysicalStockGroup where
  id : HubRecordId
  trace : HubRecordId
  variant : HubRecordId
  parent : Option HubRecordId
  identification : Option PhysicalIdentification
  location : HubRecordId
  packs : WholePacks
  revision : HubRevision
  causalFloor : Option UnixTimestamp
  work : List WorkAllocation
  deriving DecidableEq, Repr

/-- The part of the requirement's account that has the given progress. -/
def QuantityWork.accountOf (quantity : QuantityWork) : WorkProgress → WholePacks
  | .pending => quantity.remaining
  | .completed => quantity.completed
  | .noLongerRequired => quantity.noLongerRequired

namespace PhysicalStockGroup

def checkAllocation (group : PhysicalStockGroup) (earlier : List WorkAllocation)
    (allocation : WorkAllocation) : Except MovementError Unit := do
  allocation.requirement.validate
  refuse (allocation.requirement.trace ≠ group.trace ∨
    allocation.requirement.variant ≠ group.variant ∨
    ∃ other ∈ earlier, other.requirement.id = allocation.requirement.id) .invalidWorkScope
  refuse ((allocation.requirement.quantity.accountOf allocation.progress).value <
    group.packs.value) .invalidWorkScope
  refuse (allocation.progress = .pending ∧
    ∃ target ∈ allocation.requirement.target, target.id = group.location) .invalidWorkScope

def validate (group : PhysicalStockGroup) : Except MovementError Unit := do
  refuse (group.packs.value = 0 ∨ group.parent = some group.id) .invalidGroup
  refuse (group.parent.isSome = true ∧ group.identification.isNone = true)
    .physicalIdentificationRequired
  refuse (group.work.length > hubGroupRequirements) .capacity
  forPrefix group.checkAllocation [] group.work

/-- What a validated group satisfies by itself. -/
structure Shaped (group : PhysicalStockGroup) : Prop where
  positive : 0 < group.packs.value
  parent_ne : group.parent ≠ some group.id
  identified : group.parent.isSome = true → group.identification.isSome = true
  work_length : group.work.length ≤ hubGroupRequirements
  work_nodup : (group.work.map fun allocation => allocation.requirement.id).Nodup
  requirement_valid : ∀ a ∈ group.work, a.requirement.validate = .ok ()
  trace_eq : ∀ a ∈ group.work, a.requirement.trace = group.trace
  variant_eq : ∀ a ∈ group.work, a.requirement.variant = group.variant
  pending_target : ∀ a ∈ group.work, a.progress = .pending →
    ∀ target ∈ a.requirement.target, target.id ≠ group.location

/-- What a validated group satisfies: its requirements also account for its packs. -/
structure Valid (group : PhysicalStockGroup) : Prop extends Shaped group where
  accounted : ∀ a ∈ group.work,
    group.packs.value ≤ (a.requirement.quantity.accountOf a.progress).value

variable {group : PhysicalStockGroup}

theorem validate_eq_ok {u : Unit} : group.validate = .ok u ↔ group.Valid := by
  simp only [validate, accepted, passed, not_and, forPrefix_eq_ok, List.nil_append, checkAllocation,
    not_exists]
  constructor
  · rintro ⟨⟨hpos, hparent⟩, hid, hlen, hwork⟩
    have hmem : ∀ a ∈ group.work, ∃ pre post, group.work = pre ++ a :: post := fun a ha =>
      List.append_of_mem ha
    refine {
      positive := Nat.pos_of_ne_zero hpos
      parent_ne := hparent
      identified := fun h => by simpa [Option.isSome_iff_ne_none] using hid h
      work_length := hlen
      work_nodup := ?_
      requirement_valid := fun a ha => ?_
      trace_eq := fun a ha => ?_
      variant_eq := fun a ha => ?_
      accounted := fun a ha => ?_
      pending_target := fun a ha => ?_ }
    · exact nodup_map_iff_fresh.mpr fun pre a post hl => (hwork pre a post hl).2.1.2.2
    all_goals
      obtain ⟨pre, post, hl⟩ := hmem a ha
      obtain ⟨h1, ⟨h2, h3, _⟩, h4, h5⟩ := hwork pre a post hl
      assumption
  · intro h
    have hid : group.parent.isSome = true → ¬ group.identification.isNone = true := fun hp => by
      simpa [Option.isSome_iff_ne_none] using h.identified hp
    refine ⟨⟨h.positive.ne', h.parent_ne⟩, hid, h.work_length, fun pre a post hl => ?_⟩
    have ha : a ∈ group.work := by simp [hl]
    exact ⟨h.requirement_valid a ha, ⟨h.trace_eq a ha, h.variant_eq a ha,
      nodup_map_iff_fresh.mp h.work_nodup pre a post hl⟩, h.accounted a ha, h.pending_target a ha⟩

def validateCatalog (group : PhysicalStockGroup) (catalog : ReferenceCatalog) :
    Except MovementError Unit := do
  group.validate
  let _ ← mapErr .reference (catalog.requireKind group.variant .pack)
  let _ ← mapErr .reference (catalog.requireKind group.location .location)
  group.work.forM fun allocation => do
    let _ ← allocation.requirement.target.mapM fun target =>
      mapErr MovementError.reference (catalog.requireKind target.id .location)

theorem valid_of_validateCatalog {catalog : ReferenceCatalog} {u : Unit}
    (h : group.validateCatalog catalog = .ok u) : group.Valid := by
  simp only [validateCatalog, accepted] at h
  exact validate_eq_ok.mp h.1

/-! ### Shares of the work -/

/-- The group has this progress on the requirement. -/
def AtProgress (group : PhysicalStockGroup) (id : HubRecordId) (progress : WorkProgress) : Prop :=
  ∃ a ∈ group.work, a.requirement.id = id ∧ a.progress = progress

instance (group : PhysicalStockGroup) (id : HubRecordId) (progress : WorkProgress) :
    Decidable (group.AtProgress id progress) :=
  inferInstanceAs (Decidable (∃ a ∈ group.work, a.requirement.id = id ∧ a.progress = progress))

/-- The packs of the group that have this progress on a requirement: all or none. -/
def share (group : PhysicalStockGroup) (id : HubRecordId) (progress : WorkProgress) : Nat :=
  if group.AtProgress id progress then group.packs.value else 0

/-- The packs of several groups that have this progress on a requirement. -/
def packsAt (groups : List PhysicalStockGroup) (id : HubRecordId) (progress : WorkProgress) : Nat :=
  (groups.map fun group => group.share id progress).sum

theorem exists_atProgress_of_pos {groups : List PhysicalStockGroup} {id : HubRecordId}
    {progress : WorkProgress} (h : 0 < packsAt groups id progress) :
    ∃ g ∈ groups, g.AtProgress id progress := by
  by_contra hnone
  have hzero : packsAt groups id progress = 0 := List.sum_eq_zero fun n hn => by
    obtain ⟨g, hg, rfl⟩ := List.mem_map.mp hn
    exact if_neg fun hat => hnone ⟨g, hg, hat⟩
  omega

/-- No requirement comes twice in a group, so its share is met once. -/
theorem Valid.sum_share (h : group.Valid) (id : HubRecordId) (progress : WorkProgress) :
    (group.work.map fun a => if a.requirement.id = id ∧ a.progress = progress then group.packs.value
      else 0).sum = group.share id progress := by
  have general : ∀ work : List WorkAllocation, (work.map fun a => a.requirement.id).Nodup →
      (work.map fun a => if a.requirement.id = id ∧ a.progress = progress then group.packs.value
        else 0).sum =
      if ∃ a ∈ work, a.requirement.id = id ∧
        a.progress = progress then group.packs.value else 0 := by
    intro work
    induction work with
    | nil => simp
    | cons a work ih =>
      intro hnodup
      obtain ⟨hfresh, hrest⟩ := List.nodup_cons.mp hnodup
      rw [List.map_cons, List.sum_cons, ih hrest]
      by_cases ha : a.requirement.id = id ∧ a.progress = progress
      · -- the later allocations are on other requirements
        have hnone : ¬ ∃ b ∈ work, b.requirement.id = id ∧ b.progress = progress := by
          rintro ⟨b, hb, hid, -⟩
          exact hfresh (List.mem_map.mpr ⟨b, hb, hid.trans ha.1.symm⟩)
        simp [ha, hnone]
      · simp [ha]
  exact general group.work h.work_nodup

/-- The allocations that are still to do. -/
def pendingWork (group : PhysicalStockGroup) : List WorkAllocation :=
  group.work.filter fun allocation => allocation.progress = .pending

/-! ### Separating a portion -/

structure PhysicalPartition where
  remainder : Option PhysicalStockGroup
  selected : PhysicalStockGroup

/-- Take `packs` out of a group: a new child when they are a part of it, the group
itself when they are all of it. -/
def partition (group : PhysicalStockGroup) (packs : WholePacks) (childId : HubRecordId)
    (identification : Option PhysicalIdentification) :
    Except MovementError PhysicalPartition := do
  group.validate
  refuse (packs.value = 0 ∨ packs.value > group.packs.value) .insufficientStock
  if packs ≠ group.packs then
    let identification ← okOr identification .physicalIdentificationRequired
    refuse (childId = group.id ∨
      ∃ original ∈ group.identification, original.label = identification.label) .identityConflict
    let remaining ← mapErr .reference (group.packs.checkedSub packs)
    let revision ← nextMovement group.revision
    return {
      remainder := some { group with packs := remaining, revision }
      selected := { group with
        id := childId, parent := some group.id, identification := some identification
        revision := .initial, packs } }
  else
    refuse (identification.isSome = true) .identityConflict
    let revision ← nextMovement group.revision
    return { remainder := none, selected := { group with revision, packs } }

/-- What a partition is: a proper part becomes a child, the whole stays the group. -/
theorem partition_eq_ok {packs : WholePacks} {childId : HubRecordId}
    {identification : Option PhysicalIdentification} {p : PhysicalPartition}
    (h : group.partition packs childId identification = .ok p) :
    group.Valid ∧ 0 < packs.value ∧
    ((∃ tag remaining revision, packs.value + remaining.value = group.packs.value ∧
        0 < remaining.value ∧ childId ≠ group.id ∧
        p.remainder = some { group with packs := remaining, revision := revision } ∧
        p.selected = { group with
          id := childId, parent := some group.id, identification := some tag
          revision := .initial, packs := packs }) ∨
      (packs = group.packs ∧ ∃ revision, p.remainder = none ∧
        p.selected = { group with revision := revision, packs := packs })) := by
  simp only [partition, accepted, passed, validate_eq_ok] at h
  obtain ⟨hvalid, ⟨hpos, hle⟩, h⟩ := h
  refine ⟨hvalid, Nat.pos_of_ne_zero hpos, ?_⟩
  split at h
  · rename_i hne
    simp only [accepted, not_or, WholePacks.checkedSub_eq_ok] at h
    obtain ⟨tag, -, ⟨hchild, -⟩, remaining, hremaining, revision, -, rfl⟩ := h
    refine .inl ⟨tag, remaining, revision, hremaining.symm, ?_, hchild, rfl, rfl⟩
    have hlt : packs.value ≠ group.packs.value := fun he => hne (WholePacks.ext he)
    omega
  · rename_i heq
    simp only [accepted] at h
    obtain ⟨-, revision, -, rfl⟩ := h
    exact .inr ⟨not_not.mp heq, revision, rfl, rfl⟩

/-- The later of two lower bounds, where one may be missing. -/
def laterFloor : Option UnixTimestamp → Option UnixTimestamp → Option UnixTimestamp
  | none, floor => floor
  | floor, none => floor
  | some a, some b => some (max a b)

/-- The occurrence ends before the floor. -/
def endsBefore (floor : UnixTimestamp) : Occurrence → Bool
  | .known time => time < floor
  | .interval _ latest => latest < floor
  | .unknown => false

/-- The earliest instant of an occurrence. -/
def observedFrom : Occurrence → Option UnixTimestamp
  | .known time => some time
  | .interval earliest _ => some earliest
  | .unknown => none

def observationFloor (group : PhysicalStockGroup) (occurred : Occurrence)
    (recordedAt : UnixTimestamp) : Except MovementError (Option UnixTimestamp) := do
  mapErr .stock (occurred.validate recordedAt)
  refuse (∃ floor ∈ group.causalFloor, endsBefore floor occurred = true)
    (.stock .invalidOccurrence)
  return laterFloor group.causalFloor (observedFrom occurred)

end PhysicalStockGroup

/-! ## Splitting -/

/-- Separates an identified portion in place. -/
structure SplitCommand where
  expectedStockRevision : HubRevision
  expectedCatalogRevision : HubRevision
  group : HubRecordId
  expectedGroupRevision : HubRevision
  packs : WholePacks
  identification : PhysicalIdentification
  occurred : Occurrence
  observation : SourceProvenance
  deriving DecidableEq, Repr

/-- Both parts of the group. -/
structure SplitPlan where
  stockRevision : HubRevision
  location : ReferenceRecord
  remainder : PhysicalStockGroup
  portion : PhysicalStockGroup
  deriving DecidableEq, Repr

/-- A real part is separated, at the same location. -/
def SplitCommand.plan (command : SplitCommand) (catalog : ReferenceCatalog)
    (stockRevision : HubRevision) (source : PhysicalStockGroup) (portionId : HubRecordId)
    (recordedAt : UnixTimestamp) : Except MovementError SplitPlan := do
  source.validateCatalog catalog
  refuse (command.expectedStockRevision ≠ stockRevision ∨
    command.expectedCatalogRevision ≠ catalog.revision ∨ command.group ≠ source.id ∨
    command.expectedGroupRevision ≠ source.revision) .staleRevision
  refuse (command.packs.value = 0 ∨ command.packs.value ≥ source.packs.value) .invalidGroup
  let floor ← source.observationFloor command.occurred recordedAt
  let partition ← source.partition command.packs portionId (some command.identification)
  let remainder ← okOr partition.remainder .invalidGroup
  let portion := { partition.selected with causalFloor := floor }
  portion.validate
  remainder.validate
  let stockRevision ← nextMovement stockRevision
  let location ← mapErr .reference (catalog.requireKind source.location .location)
  return { stockRevision, location, remainder, portion }

variable {catalog : ReferenceCatalog} {recordedAt : UnixTimestamp} {source : PhysicalStockGroup}
  {stockRevision : HubRevision}

/-- What a split writes: the portion and the rest of the group. -/
theorem SplitCommand.plan_eq_ok {command : SplitCommand} {portionId : HubRecordId}
    {split : SplitPlan}
    (h : command.plan catalog stockRevision source portionId recordedAt = .ok split) :
    source.Valid ∧ split.remainder.Valid ∧ split.portion.Valid ∧ portionId ≠ source.id ∧
    command.packs.value + split.remainder.packs.value = source.packs.value ∧
    (∃ revision, split.remainder =
      { source with packs := split.remainder.packs, revision := revision }) ∧
    ∃ tag floor, split.portion = { source with
      id := portionId, parent := some source.id, identification := some tag, revision := .initial
      packs := command.packs, causalFloor := floor } := by
  simp only [plan, accepted, passed, PhysicalStockGroup.validate_eq_ok] at h
  obtain ⟨hsource, -, ⟨-, hless⟩, floor, -, partition, hpartition, remainder, hremainder, hportion,
    hvalid, revision, -, location, -, rfl⟩ := h
  obtain ⟨hgroup, -, hcase⟩ := PhysicalStockGroup.partition_eq_ok hpartition
  rcases hcase with ⟨tag, remaining, revision', hsum, -, hne, hpart, hselected⟩ | ⟨hall, -⟩
  · obtain rfl : remainder = { source with packs := remaining, revision := revision' } :=
      Option.some.inj (hremainder.symm.trans hpart)
    refine ⟨hgroup, hvalid, hportion, hne, hsum, ⟨revision', rfl⟩, tag, floor, ?_⟩
    rw [hselected]
  · rw [hall] at hless
    exact absurd hless (lt_irrefl _)

/-! ## Moving -/

/-- Takes packs to another location. -/
structure MovementCommand where
  expectedStockRevision : HubRevision
  expectedCatalogRevision : HubRevision
  group : HubRecordId
  expectedGroupRevision : HubRevision
  toLocation : HubRecordId
  packs : WholePacks
  separatedPortion : Option PhysicalIdentification
  occurred : Occurrence
  observation : SourceProvenance
  deriving DecidableEq, Repr

/-- The moved packs and what stays. -/
structure MovementPlan where
  stockRevision : HubRevision
  source : HubRecordId
  destination : ReferenceRecord
  remaining : Option PhysicalStockGroup
  moved : PhysicalStockGroup
  workUpdates : List WorkRequirement
  deriving DecidableEq, Repr

/-- The allocation is pending for this location. -/
def WorkAllocation.Arrives (allocation : WorkAllocation) (toLocation : HubRecordId) : Prop :=
  allocation.progress = .pending ∧
    ∃ target ∈ allocation.requirement.target, target.id = toLocation

instance (allocation : WorkAllocation) (toLocation : HubRecordId) :
    Decidable (allocation.Arrives toLocation) := inferInstanceAs (Decidable (_ ∧ _))

/-- One allocation of a portion that arrived at `toLocation`: pending work with this target is
done, and the requirement changes for everyone who shares it. -/
def WorkAllocation.arrive (allocation : WorkAllocation) (toLocation : HubRecordId)
    (packs : WholePacks) : Except MovementError (WorkAllocation × Option WorkRequirement) :=
  if allocation.Arrives toLocation then do
    let requirement ← allocation.requirement.complete packs
    return ({ requirement, progress := .completed }, some requirement)
  else return (allocation, none)

theorem WorkAllocation.arrive_eq_ok {allocation : WorkAllocation} {toLocation : HubRecordId}
    {packs : WholePacks} {arrival : WorkAllocation × Option WorkRequirement}
    (h : allocation.arrive toLocation packs = .ok arrival) :
    (allocation.Arrives toLocation ∧ ∃ requirement,
      allocation.requirement.complete packs = .ok requirement ∧
      arrival = (⟨requirement, .completed⟩, some requirement)) ∨
    (¬ allocation.Arrives toLocation ∧ arrival = (allocation, none)) := by
  unfold arrive at h
  split at h
  · rename_i harrives
    simp only [accepted] at h
    obtain ⟨requirement, hcomplete, heq⟩ := h
    exact .inl ⟨harrives, requirement, hcomplete, heq.symm⟩
  · rename_i hstays
    simp only [pure_eq_ok] at h
    exact .inr ⟨hstays, h.symm⟩

/-- The other part of a group keeps its progress on the changed requirement. -/
def WorkAllocation.follow (allocation : WorkAllocation) (update : Option WorkRequirement) :
    WorkAllocation :=
  match update with
  | some requirement => { allocation with requirement }
  | none => allocation

/-- Moves a group, or a part of it that is identified. -/
def MovementCommand.plan (command : MovementCommand) (catalog : ReferenceCatalog)
    (stockRevision : HubRevision) (source : PhysicalStockGroup) (separatedGroupId : HubRecordId)
    (recordedAt : UnixTimestamp) : Except MovementError MovementPlan := do
  source.validateCatalog catalog
  refuse (command.expectedStockRevision ≠ stockRevision ∨
    command.expectedCatalogRevision ≠ catalog.revision ∨ command.group ≠ source.id ∨
    command.expectedGroupRevision ≠ source.revision) .staleRevision
  refuse (command.packs.value = 0 ∨ command.packs.value > source.packs.value) .insufficientStock
  let causalFloor ← source.observationFloor command.occurred recordedAt
  let destination ← mapErr .reference (catalog.requireKind command.toLocation .location)
  refuse (command.toLocation = source.location) .unchangedLocation
  let partition ← source.partition command.packs separatedGroupId command.separatedPortion
  -- the loop over the moved allocations also rewrites the remainder's, index by index
  let arrivals ← partition.selected.work.mapM fun allocation =>
    allocation.arrive command.toLocation command.packs
  let moved := { partition.selected with
    location := command.toLocation, causalFloor, work := arrivals.map (·.1) }
  let remaining := partition.remainder.map fun parent => { parent with
    work := parent.work.zipWith (fun allocation arrival => allocation.follow arrival.2) arrivals }
  moved.validate
  let _ ← remaining.mapM fun parent => parent.validate
  let stockRevision ← nextMovement stockRevision
  return {
    stockRevision, source := source.location, destination, remaining, moved
    workUpdates := arrivals.filterMap (·.2) }

/-- What a movement writes: all of the group, or a portion and the rest. -/
theorem MovementCommand.plan_eq_ok {command : MovementCommand} {separatedGroupId : HubRecordId}
    {movement : MovementPlan}
    (h : command.plan catalog stockRevision source separatedGroupId recordedAt = .ok movement) :
    ∃ arrivals, source.Valid ∧ movement.moved.Valid ∧ movement.moved.packs = command.packs ∧
    List.Forall₂ (fun a arrival => a.arrive command.toLocation command.packs = .ok arrival)
      source.work arrivals ∧
    movement.workUpdates = arrivals.filterMap (·.2) ∧ movement.moved.work = arrivals.map (·.1) ∧
    ((∃ rest, movement.remaining = some rest ∧ rest.Valid ∧ rest.id = source.id ∧
        rest.work = source.work.zipWith (fun a arrival => a.follow arrival.2) arrivals ∧
        command.packs.value + rest.packs.value = source.packs.value ∧
        movement.moved.id = separatedGroupId ∧ separatedGroupId ≠ source.id) ∨
      (movement.remaining = none ∧ command.packs = source.packs ∧
        movement.moved.id = source.id)) := by
  simp only [plan, accepted, PhysicalStockGroup.validate_eq_ok] at h
  obtain ⟨-, -, -, floor, -, destination, -, -, partition, hpartition, arrivals, harrivals, hmoved,
    rests, hrest, revision, -, rfl⟩ := h
  obtain ⟨hsource, -, hcase⟩ := PhysicalStockGroup.partition_eq_ok hpartition
  rcases hcase with ⟨tag, remaining, revision', hsum, -, hne, hpart, hselected⟩ |
    ⟨hall, revision', hpart, hselected⟩
  · rw [hpart] at hrest
    obtain ⟨hnone, -⟩ | ⟨_, _, hsome, -, hvalid⟩ := option_mapM_eq_ok.mp hrest
    · cases hnone
    obtain rfl := Option.some.inj hsome
    rw [PhysicalStockGroup.validate_eq_ok] at hvalid
    refine ⟨arrivals, hsource, hmoved, ?_, ?_, rfl, rfl, .inl ⟨_, ?_, hvalid, rfl, rfl, hsum, ?_,
      hne⟩⟩
    · rw [hselected]
    · rw [hselected] at harrivals
      exact mapM_eq_ok.mp harrivals
    · rw [hpart]
      rfl
    · rw [hselected]
  · refine ⟨arrivals, hsource, hmoved, ?_, ?_, rfl, rfl, .inr ⟨?_, hall, ?_⟩⟩
    · rw [hselected]
    · rw [hselected] at harrivals
      exact mapM_eq_ok.mp harrivals
    · rw [hpart]
      rfl
    · rw [hselected]

end HarvestCircle
