import HarvestCircle.Funding
import HarvestCircle.HoldScopes

/-! # Stock that is found again

Packs that were recorded as departed may turn up.  Finding them corrects the departure: its
quantity shrinks, and the packs come back as new groups below the ones they were taken
from.  They are not what they were.  Each new group needs a label of its own, and a review
is opened on all of them.

The posting rests on the whole history of the line, which `validateFunding` checks before
anything is posted: debits, credits, returns and amendments have to add up to the
quantities, agree on who did what when, and be visible in the lineage and in the reviews.
-/
namespace HarvestCircle
open Checked

/-- What the hub reads to post found stock. -/
structure FoundStockContext where
  family : CorrectedDepartureFamily
  hub : HubId
  stockRevision : HubRevision
  catalog : ReferenceCatalog
  latestRecordedAt : UnixTimestamp
  target : DepartureQuantityAccount
  /-- Every debit of the line. -/
  funding : List PhysicalDebitFunding
  lineage : PhysicalLineage
  treatment : TreatmentState
  /-- Every label in use. -/
  activeIdentifications : List PhysicalIdentification
  uncertainSubmissions : Bool

/-- Found packs, as a group funded by a debit. -/
structure FoundStockAllocation where
  credit : FoundFundingCredit
  funding : OriginalPhysicalDebit
  availableBefore : WholePacks
  group : PhysicalStockGroup
  location : ReferenceRecord
  cohortEvidence : SourceProvenance
  deriving DecidableEq

/-- What an accepted posting writes. -/
structure FoundStockPlan where
  family : CorrectedDepartureFamily
  operation : HubRecordId
  hub : HubId
  actor : PublicKey
  recordedAt : UnixTimestamp
  originalTarget : OriginalDepartureQuantity
  amendment : DepartureQuantityAmendment
  allocations : List FoundStockAllocation
  reviewRequired : InitialGroupReview
  afterLineage : PhysicalLineage
  afterTreatment : TreatmentState
  basis : SourceProvenance

/-! ## The history of the line -/

/-- Which operation took a revision, and when an operation was recorded. -/
structure FundingRegister where
  revisions : Std.TreeMap Nat HubRecordId
  operations : Std.TreeMap HubRecordId (HubRevision × UnixTimestamp)

/-- What the loop over the debits keeps. -/
structure FundingScan where
  scopes : List PhysicalDebitFunding
  base : Nat
  physical : WholePacks
  returned : WholePacks
  additional : Std.TreeMap HubRecordId WholePacks
  recovered : Std.TreeMap HubRecordId WholePacks
  credits : Finset (HubRecordId × UInt8)
  returns : Finset HubRecordId
  register : FundingRegister
  debitOperations : Finset HubRecordId
  creditOperations : Finset HubRecordId

def FundingScan.empty : FundingScan :=
  ⟨[], 0, .zero, .zero, ∅, ∅, ∅, ∅, ⟨∅, ∅⟩, ∅, ∅⟩

/-- The debit that opens a line of the family. -/
def CorrectedDepartureFamily.baseKind :
    CorrectedDepartureFamily → Except PhysicalCorrectionError PhysicalDebitKind
  | .normal => .ok .normalDeparture
  | .reviewedActual => .ok .reviewedActual
  | .explainedCountLoss => .error .unsupportedFamily

/-- The reviews by their identity. -/
def TreatmentState.reviewsById (state : TreatmentState) :
    Std.TreeMap HubRecordId InitialGroupReview :=
  state.initialReviews.foldl (fun reviews review => reviews.insert review.stamp.id review) ∅

namespace FoundStockContext

def register (context : FoundStockContext) (now : UnixTimestamp) (register : FundingRegister)
    (operation : HubRecordId) (revision : HubRevision) (recordedAt : UnixTimestamp) :
    Except PhysicalCorrectionError FundingRegister := do
  refuse (revision.value > context.stockRevision.value ∨ recordedAt > now ∨
    recordedAt > context.latestRecordedAt) .invalidHistory
  let revisions ← Registers.enter register.revisions revision.value operation .invalidHistory
  let operations ← Registers.enter register.operations operation (revision, recordedAt)
    .invalidHistory
  return { revisions, operations }

/-- The group that was debited, as it is today. -/
def checkParent (context : FoundStockContext) (original : OriginalPhysicalDebit) :
    Except PhysicalCorrectionError Unit := do
  let parent ← okOr (context.lineage.node original.key.group) .invalidScope
  let remaining ← mapErr (fun _ => .invalidHistory)
    (original.before.packs.checkedSub original.packs)
  refuse (parent.parent ≠ original.before.parent ∨
    parent.createdRevision.value ≥ original.stockRevision.value ∨
    parent.packs.value > remaining.value) .invalidHistory

/-- A debit is the one that opened the line, or was added to it. -/
def countBase (context : FoundStockContext) (original : OriginalPhysicalDebit) (base : Nat) :
    Except PhysicalCorrectionError Nat :=
  if original.kind = .additionalQuantity then .ok base
  else do
    let expected ← context.family.baseKind
    refuse (original.kind ≠ expected) .invalidHistory
    return base + 1

def tallyAdditional (original : OriginalPhysicalDebit)
    (additional : Std.TreeMap HubRecordId WholePacks) :
    Except PhysicalCorrectionError (Std.TreeMap HubRecordId WholePacks) :=
  if original.kind = .additionalQuantity then do
    let amount ← addFunding (additional[original.key.operation]?.getD .zero) original.packs
    return additional.insert original.key.operation amount
  else .ok additional

def observeDebit (context : FoundStockContext) (now : UnixTimestamp) (scan : FundingScan)
    (funding : PhysicalDebitFunding) : Except PhysicalCorrectionError FundingScan := do
  let original := funding.original
  refuse (original.target ≠ context.target.original) .invalidScope
  refuse (original.key ∈ scan.scopes.map fun other => other.original.key) .duplicate
  context.checkParent original
  let register ← context.register now scan.register original.key.operation original.stockRevision
    original.recordedAt
  let additional ← tallyAdditional original scan.additional
  let base ← context.countBase original scan.base
  let remaining ← mapErr (fun _ => .invalidQuantity) (original.packs.checkedSub funding.recovered)
  let physical ← addFunding scan.physical remaining
  let returned ← addFunding scan.returned funding.returned
  return { scan with
    scopes := scan.scopes ++ [funding], base, physical, returned, additional, register
    debitOperations := insert original.key.operation scan.debitOperations }

/-- A credit is a group of the lineage that has a review, and nothing more was found with it. -/
def checkCredit [Sha256] (context : FoundStockContext) (original : OriginalPhysicalDebit)
    (credit : FoundFundingCredit) : Except PhysicalCorrectionError Unit := do
  let id ← foundStockGroupId credit.operation credit.allocation
  let child ← okOr (context.lineage.node id) .invalidHistory
  let single ← mapErr (fun _ => .invalidHistory) (context.lineage.restoreScope credit.stockRevision
    [⟨id, credit.stockRevision, credit.packs⟩])
  let resolved ← mapErr (fun _ => .invalidHistory) (context.lineage.resolve single)
  refuse (resolved.packs.value > credit.packs.value) .invalidHistory
  let reviewId ← mapErr (fun _ => .invalidHistory) (treatmentRecordId credit.operation)
  let review ← okOr context.treatment.reviewsById[reviewId]? .invalidHistory
  refuse (child.parent ≠ some credit.debit.group ∨
    child.recovery ≠ some ⟨original.key.operation, original.stockRevision⟩ ∨
    child.createdRevision ≠ credit.stockRevision ∨ child.packs.value > credit.packs.value ∨
    review.stamp.stockRevision ≠ credit.stockRevision ∨
    review.stamp.recordedAt ≠ credit.recordedAt ∨
    ¬ ∃ anchor ∈ review.scope.anchors, anchor.group = id ∧ anchor.capturedPacks = credit.packs ∧
      anchor.createdRevision = credit.stockRevision) .invalidHistory

def observeCredit [Sha256] (context : FoundStockContext) (now : UnixTimestamp)
    (original : OriginalPhysicalDebit) (scan : FundingScan) (credit : FoundFundingCredit) :
    Except PhysicalCorrectionError FundingScan := do
  context.checkCredit original credit
  refuse ((credit.operation, credit.allocation) ∈ scan.credits ∨
    ⟨credit.operation, credit.debit.group⟩ ∈ scan.scopes.map fun other => other.original.key)
    .duplicate
  let register ← context.register now scan.register credit.operation credit.stockRevision
    credit.recordedAt
  let amount ← addFunding (scan.recovered[credit.operation]?.getD .zero) credit.packs
  return { scan with
    register, recovered := scan.recovered.insert credit.operation amount
    credits := insert (credit.operation, credit.allocation) scan.credits
    creditOperations := insert credit.operation scan.creditOperations }

def observeReturn (context : FoundStockContext) (now : UnixTimestamp) (scan : FundingScan)
    (reservation : EstablishedReturnReservation) : Except PhysicalCorrectionError FundingScan := do
  refuse (reservation.operation ∈ scan.returns) .duplicate
  let register ← context.register now scan.register reservation.operation
    reservation.stockRevision reservation.recordedAt
  return { scan with register, returns := insert reservation.operation scan.returns }

def observeFunding [Sha256] (context : FoundStockContext) (now : UnixTimestamp)
    (scan : FundingScan) (funding : PhysicalDebitFunding) :
    Except PhysicalCorrectionError FundingScan := do
  let scan ← context.observeDebit now scan funding
  let scan ← funding.credits.foldlM (context.observeCredit now funding.original) scan
  funding.returns.foldlM (context.observeReturn now) scan

end FoundStockContext

/-- What was recorded later has a later revision. -/
def FundingRegister.checkTimes (register : FundingRegister) :
    Except PhysicalCorrectionError Unit := do
  let times ← (values register.revisions).mapM fun operation =>
    okOr (register.operations[operation]?.map Prod.snd) .invalidHistory
  refuse (¬ times.IsChain (· ≤ ·)) .invalidHistory

/-- An amendment is backed by the debits or credits of its operation, and takes them off. -/
def FoundStockContext.settleAmendment [Sha256] (context : FoundStockContext)
    (register : FundingRegister)
    (left : Std.TreeMap HubRecordId WholePacks × Std.TreeMap HubRecordId WholePacks)
    (change : DepartureQuantityAmendment) : Except PhysicalCorrectionError
      (Std.TreeMap HubRecordId WholePacks × Std.TreeMap HubRecordId WholePacks) := do
  let left ← match change.delta with
    | .additionalDeparture packs => do
      refuse (left.1[change.operation]? ≠ some packs) .invalidHistory
      pure (left.1.erase change.operation, left.2)
    | .identifiedFoundRemainder packs => do
      let reviewId ← mapErr (fun _ => .invalidHistory) (treatmentRecordId change.operation)
      let review ← okOr context.treatment.reviewsById[reviewId]? .invalidHistory
      let captured ← review.scope.anchors.foldlM
        (fun total anchor => addFunding total anchor.capturedPacks) .zero
      refuse (captured ≠ packs ∨ left.2[change.operation]? ≠ some packs) .invalidHistory
      pure (left.1, left.2.erase change.operation)
  refuse (¬ ∃ row ∈ register.operations[change.operation]?, row.1 = change.stockRevision)
    .invalidHistory
  return left

/-- The rows of the funding: every credit and every return. -/
def fundingRows (funding : List PhysicalDebitFunding) : Nat :=
  (funding.map fun row => row.credits.length + row.returns.length).sum

/-- The whole history of the line.  The result has the debits, by which the packs are found. -/
def FoundStockContext.validateFunding [Sha256] (context : FoundStockContext) (now : UnixTimestamp) :
    Except PhysicalCorrectionError (List PhysicalDebitFunding) := do
  refuse (context.funding.length > hubStockEventCapacity) .capacity
  refuse (fundingRows context.funding > hubStockEventCapacity) .capacity
  let scan ← context.funding.foldlM (context.observeFunding now) .empty
  scan.register.checkTimes
  refuse ((∃ operation ∈ scan.debitOperations,
      operation ∈ scan.creditOperations ∨ operation ∈ scan.returns) ∨
    ∃ operation ∈ scan.creditOperations, operation ∈ scan.returns) .duplicate
  refuse (scan.base ≠ 1 ∨ scan.physical ≠ context.target.effective ∨
    scan.returned ≠ context.target.establishedReturns) .invalidHistory
  let left ← context.target.amendments.foldlM (context.settleAmendment scan.register)
    (scan.additional, scan.recovered)
  refuse (left.1.isEmpty = false ∨ left.2.isEmpty = false) .invalidHistory
  return scan.scopes

/-! ## The command -/

def quantityError : CorrectionError → PhysicalCorrectionError
  | .capacity => .capacity
  | .duplicate => .duplicate
  | .returnConflict => .returnConflict
  | .invalidQuantity => .invalidQuantity
  | _ => .invalidHistory

def TreatmentState.restoreWithInitialReviews (graph : PhysicalLineage)
    (decisions : List AcceptanceDecision) (holds : List Hold)
    (initialReviews : List InitialGroupReview) : Except TreatmentError TreatmentState := do
  let state : TreatmentState := { decisions, holds, initialReviews }
  state.validate graph
  return state

/-- Nothing in the treatment is recorded later than the latest record. -/
def TreatmentState.RecordedBy (state : TreatmentState) (latest : UnixTimestamp) : Prop :=
  (∀ decision ∈ state.decisions, decision.stamp.recordedAt ≤ latest) ∧
  (∀ review ∈ state.initialReviews, review.stamp.recordedAt ≤ latest) ∧
  ∀ hold ∈ state.holds, hold.stamp.recordedAt ≤ latest ∧
    ∀ release ∈ hold.release, release.recordedAt ≤ latest

instance (state : TreatmentState) (latest : UnixTimestamp) : Decidable (state.RecordedBy latest) :=
  inferInstanceAs (Decidable (_ ∧ _ ∧ _))

/-- What the loop over the allocations keeps. -/
structure FoundScan where
  available : PhysicalDebitKey → Option WholePacks
  labels : Finset HubLabel
  total : WholePacks
  allocations : List FoundStockAllocation
  nodes : List PhysicalLineageNode
  children : List HubRecordId

namespace FoundStockCommand

/-- The command is for this line and this state of the hub. -/
def checkTarget (command : FoundStockCommand) (context : FoundStockContext)
    (operation : HubRecordId) (now : UnixTimestamp) : Except PhysicalCorrectionError Unit := do
  refuse (context.family = .explainedCountLoss) .unsupportedFamily
  refuse (context.uncertainSubmissions = true) .uncertainSubmission
  refuse (command.expectedStockRevision ≠ context.stockRevision ∨
    command.expectedCatalogRevision ≠ context.catalog.revision) .staleRevision
  refuse (command.allocations = [] ∨ command.allocations.length > hubFoundAllocations ∨
    context.lineage.nodes.length + command.allocations.length > hubLineageGroups ∨
    context.activeIdentifications.length > hubGroupCapacity) .capacity
  let target := context.target.original
  refuse (command.targetOperation ≠ target.operation ∨ command.targetGroup ≠ target.group ∨
    context.lineage.trace ≠ target.trace ∨ context.lineage.variant ≠ target.variant ∨
    context.lineage.hub ≠ context.hub ∨ context.lineage.revision ≠ context.stockRevision)
    .invalidScope
  refuse (now < context.latestRecordedAt ∨ operation = target.operation ∨
    ∃ change ∈ context.target.amendments, change.operation = operation) .invalidHistory

/-- The operation is new to the debits, credits and returns. -/
def Unused (funding : List PhysicalDebitFunding) (operation : HubRecordId) : Prop :=
  ∀ row ∈ funding, row.original.key.operation ≠ operation ∧
    (∀ credit ∈ row.credits, credit.operation ≠ operation) ∧
    ∀ reservation ∈ row.returns, reservation.operation ≠ operation

instance (funding : List PhysicalDebitFunding) (operation : HubRecordId) :
    Decidable (Unused funding operation) :=
  inferInstanceAs (Decidable (∀ row ∈ funding, _ ∧ _ ∧ _))

/-- The labels in use, and those of the debited groups. -/
def labels (context : FoundStockContext) : Except PhysicalCorrectionError (Finset HubLabel) := do
  let active := (context.activeIdentifications.map fun identity => identity.label).toFinset
  refuse (active.card ≠ context.activeIdentifications.length) .identityConflict
  return active ∪ (context.funding.filterMap fun row =>
    row.original.before.identification.map fun identity => identity.label).toFinset

section
variable [Sha256]

/-- One group of found packs. -/
def allocate (context : FoundStockContext) (operation : HubRecordId) (now : UnixTimestamp)
    (revision : HubRevision) (funding : List PhysicalDebitFunding) (scan : FoundScan)
    (input : FoundStockInput × Nat) : Except PhysicalCorrectionError FoundScan := do
  let (input, index) := input
  let target := context.target.original
  refuse (input.packs.value = 0) .invalidQuantity
  let source ← okOr (funding.find? fun row => row.original.key = input.debit) .invalidScope
  refuse (source.original.key.operation = operation ∨
    ∃ reservation ∈ source.returns, reservation.operation = operation) .duplicate
  let whole ← source.availablePacks
  let before := (scan.available input.debit).getD whole
  let rest ← mapErr (fun _ => .invalidQuantity) (before.checkedSub input.packs)
  refuse ((∃ identity ∈ source.original.before.identification,
      identity.label = input.identification.label) ∨
    input.identification.label ∈ scan.labels) .identityConflict
  let location ← mapErr (fun _ => .invalidScope)
    (context.catalog.requireKind input.location .location)
  refuse (index ≥ 256) .capacity
  let allocation := UInt8.ofNat index
  let id ← foundStockGroupId operation allocation
  refuse (context.lineage.node id ≠ none ∨ id ∈ scan.children) .identityConflict
  let group : PhysicalStockGroup := {
    id, trace := target.trace, variant := target.variant, parent := some input.debit.group
    identification := some input.identification, location := location.id, packs := input.packs
    revision := .initial, causalFloor := some now, work := [] }
  mapErr (fun _ => .invalidHistory) group.validate
  let node : PhysicalLineageNode := {
    id, parent := group.parent, trace := target.trace, variant := target.variant
    createdRevision := revision, packs := input.packs
    recovery := some ⟨source.original.key.operation, source.original.stockRevision⟩ }
  let credit : FoundFundingCredit := {
    operation, allocation, debit := input.debit, packs := input.packs, stockRevision := revision
    recordedAt := now }
  let total ← addFunding scan.total input.packs
  return {
    available := Function.update scan.available input.debit (some rest)
    labels := insert input.identification.label scan.labels
    total
    allocations := scan.allocations ++ [{
      credit, funding := source.original, availableBefore := before, group, location
      cohortEvidence := input.cohortEvidence }]
    nodes := scan.nodes ++ [node]
    children := scan.children ++ [id] }

/-- The review that is opened on the found groups. -/
def reviewRequired (command : FoundStockCommand) (context : FoundStockContext)
    (operation : HubRecordId) (actor : PublicKey) (now : UnixTimestamp) (revision : HubRevision)
    (afterLineage : PhysicalLineage) (children : List HubRecordId) :
    Except PhysicalCorrectionError InitialGroupReview := do
  let id ← mapErr (fun _ => .identityConflict) (treatmentRecordId operation)
  let scope ← mapErr (fun _ => .invalidHistory) (afterLineage.capture children)
  return {
    stamp := {
      id, stockRevision := revision, actor, basis := context.catalog.handlingBasis
      recordedAt := now, occurred := .known now, observation := command.basis }
    scope }

def plan (command : FoundStockCommand) (context : FoundStockContext) (operation : HubRecordId)
    (actor : PublicKey) (now : UnixTimestamp) : Except PhysicalCorrectionError FoundStockPlan := do
  command.checkTarget context operation now
  let target := context.target.original
  let treatment := context.treatment
  let revision ← mapErr (fun _ => .invalidHistory) context.stockRevision.next
  let _ ← mapErr (fun _ => .invalidScope) (context.catalog.requireKind target.variant .pack)
  let _ ← mapErr (fun _ => .treatment)
    (treatment.project context.lineage context.catalog.handlingBasis)
  refuse (¬ treatment.RecordedBy context.latestRecordedAt) .invalidHistory
  let funding ← context.validateFunding now
  refuse (¬ Unused context.funding operation) .duplicate
  let labels ← labels context
  let scan ← command.allocations.zipIdx.foldlM (allocate context operation now revision funding)
    ⟨fun _ => none, labels, .zero, [], context.lineage.nodes, []⟩
  let after ← mapErr (fun _ => .invalidQuantity) (context.target.effective.checkedSub scan.total)
  let amendment : DepartureQuantityAmendment := {
    operation, stockRevision := revision, before := context.target.effective, after
    delta := .identifiedFoundRemainder scan.total }
  let _ ← mapErr quantityError (DepartureQuantityAccount.restore target
    (context.target.amendments ++ [amendment]) context.target.establishedReturns)
  let afterLineage ← mapErr (fun _ => .invalidHistory)
    (PhysicalLineage.new context.hub target.trace target.variant revision scan.nodes)
  let reviewRequired ← command.reviewRequired context operation actor now revision afterLineage
    scan.children
  let afterTreatment ← mapErr (fun _ => .treatment)
    (TreatmentState.restoreWithInitialReviews afterLineage treatment.decisions treatment.holds
      (treatment.initialReviews ++ [reviewRequired]))
  let _ ← mapErr (fun _ => .treatment)
    (afterTreatment.project afterLineage context.catalog.handlingBasis)
  return {
    family := context.family, operation, hub := context.hub, actor, recordedAt := now
    originalTarget := target, amendment, allocations := scan.allocations, reviewRequired
    afterLineage, afterTreatment, basis := command.basis }

end

end FoundStockCommand

end HarvestCircle
