import HarvestCircle.Departure

/-! # Stock that had already been taken

A departure may be reported only after the packs are gone.  Once it is reviewed, the
packs are taken out of the group they are balanced against: what remains of the group
stays, and work that was pending on the packs is dropped.
-/
namespace HarvestCircle
open Checked

inductive ActualReportError where
  | capacity
  | invalidIdentity
  | invalidInput
  | invalidNativeContext
  | invalidHistory
  | staleRevision
  | revisionExhausted
  | conflictingEvidence
  | insufficientBalance
  | uncertainSubmission
  | historicalSourceUnresolved
  | duplicateReviewRequired
  | alreadyReviewed
  deriving DecidableEq, Repr

/-- A requirement the removed packs were part of, as it was. -/
structure ActualRemovedWorkScope where
  work : HubRecordId
  beforeProgress : WorkProgress
  beforeScoped : WholePacks
  onHandAfter : WholePacks
  removed : WholePacks
  removedProgress : WorkProgress
  deriving DecidableEq, Repr

/-- One group before and after packs left it. -/
structure ActualPhysicalReduction where
  before : PhysicalStockGroup
  actualDeparted : WholePacks
  onHandAfter : WholePacks
  afterRevision : HubRevision
  workChanges : List DepartureWorkChange
  removedWorkScope : List ActualRemovedWorkScope
  deriving DecidableEq, Repr

namespace ActualPhysicalReduction

/-- The pending work of one allocation drops the packs. -/
def retire (packs : WholePacks) (allocation : WorkAllocation) :
    Except ActualReportError DepartureWorkChange := do
  let after ← allocation.requirement.retirePacks (fun _ => .invalidHistory)
    (fun _ => .invalidHistory) .revisionExhausted packs
  mapErr (fun _ => .invalidHistory) after.validate
  return { before := allocation.requirement, after, retired := packs }

variable {packs : WholePacks}

theorem retire_eq_ok {allocation : WorkAllocation} {change : DepartureWorkChange}
    (h : retire packs allocation = .ok change) :
    change.before = allocation.requirement ∧ change.Exact ∧ change.retired = packs := by
  simp only [retire, accepted] at h
  obtain ⟨after, hafter, -, rfl⟩ := h
  exact ⟨rfl, WorkRequirement.retirePacks_eq_ok hafter, rfl⟩

def plan (before : PhysicalStockGroup) (packs : WholePacks) :
    Except ActualReportError ActualPhysicalReduction := do
  mapErr (fun _ => .invalidNativeContext) before.validate
  refuse (packs.value = 0 ∨ packs.value > before.packs.value) .insufficientBalance
  let remaining ← mapErr (fun _ => .insufficientBalance) (before.packs.checkedSub packs)
  let workChanges ← before.pendingWork.mapM (retire packs)
  let afterRevision ← mapErr (fun _ => .revisionExhausted) before.revision.next
  return {
    before, actualDeparted := packs, onHandAfter := remaining, afterRevision, workChanges
    removedWorkScope := before.work.map fun allocation => {
      work := allocation.requirement.id, beforeProgress := allocation.progress
      beforeScoped := before.packs, onHandAfter := remaining, removed := packs
      removedProgress := match allocation.progress with
        | .pending => .noLongerRequired
        | progress => progress } }

/-- What a reduction says. -/
theorem plan_eq_ok {before : PhysicalStockGroup} {reduction : ActualPhysicalReduction}
    (h : plan before packs = .ok reduction) :
    reduction.before = before ∧ reduction.actualDeparted = packs ∧ before.Valid ∧
    0 < packs.value ∧ packs.value + reduction.onHandAfter.value = before.packs.value ∧
    before.pendingWork.mapM (retire packs) = .ok reduction.workChanges := by
  simp only [plan, accepted, not_or, PhysicalStockGroup.validate_eq_ok, WholePacks.checkedSub_eq_ok]
      at h
  obtain ⟨hvalid, ⟨hpos, -⟩, remaining, hremaining, changes, hchanges, revision, -, rfl⟩ := h
  exact ⟨rfl, rfl, hvalid, Nat.pos_of_ne_zero hpos, hremaining.symm, hchanges⟩

/-- A retained reduction is one that would be planned. -/
def validate (reduction : ActualPhysicalReduction) : Except ActualReportError Unit := do
  let planned ← plan reduction.before reduction.actualDeparted
  refuse (reduction ≠ planned) .invalidHistory

/-- The floor of what remains is never lowered. -/
def causalFloorAfterReconciliation (reduction : ActualPhysicalReduction) (occurred : Occurrence)
    (now : UnixTimestamp) : Except ActualReportError (Option UnixTimestamp) := do
  reduction.validate
  refuse (∃ floor ∈ reduction.before.causalFloor, floor > now) .invalidNativeContext
  mapErr (fun _ => .invalidInput) (occurred.validate now)
  return PhysicalStockGroup.laterFloor reduction.before.causalFloor
    (PhysicalStockGroup.observedFrom occurred)

end ActualPhysicalReduction

/-- Facts about a report that were verified since. -/
structure ActualReviewFacts where
  report : HubRecordId
  expectedStockRevision : HubRevision
  expectedCatalogRevision : HubRevision
  group : HubRecordId
  expectedGroupRevision : HubRevision
  packs : WholePacks
  recipient : HubRecordId
  occurred : Occurrence
  sourceEvidence : SourceProvenance
  quantityEvidence : SourceProvenance
  recipientEvidence : SourceProvenance
  timingEvidence : SourceProvenance
  deriving DecidableEq, Repr

end HarvestCircle
