import HarvestCircle.HistoricalSources
import HarvestCircle.Treatment

/-! # The review of a reported departure

A review holds verified facts about a report against the group its packs are to be taken
from today.  It only compares: where the packs came from, whether the departure is known
already, and whether a hold was breached are left open.
-/
namespace HarvestCircle
open Checked

/-- What the hub reads to review a report. -/
structure ActualReviewContext where
  hub : HubId
  stockRevision : HubRevision
  catalog : ReferenceCatalog
  original : ActualReportRecord
  group : PhysicalStockGroup
  lineage : PhysicalLineage
  treatment : TreatmentState
  uncertainSubmissions : Bool

/-- Whether the hold covered the packs back then is never decided here. -/
inductive HistoricalHoldApplicability where
  | historicalScopeUnverified
  deriving DecidableEq, Repr

/-- A hold and whether the departure broke it. -/
structure HistoricalHoldFinding where
  original : Hold
  conditionalTiming : HistoricalHoldTiming
  applicability : HistoricalHoldApplicability
  deriving DecidableEq

/-- The stock the departure is taken from, now. -/
structure ActualBalanceComparison where
  product : ReferenceRecord
  variant : ReferenceRecord
  recipient : ReferenceRecord
  currentLocation : ReferenceRecord
  before : PhysicalStockGroup
  comparedDeparture : WholePacks
  onHandAfter : WholePacks
  /-- Pending requirements that would be dropped. -/
  pendingWorkToRetire : List HubRecordId
  deriving DecidableEq

/-- The reported sources against the stock on hand. -/
inductive ActualSourceComparison where
  | unknownClaim
  | currentCandidateRequiresHistoricalVerification
  | historicalAssociationUnresolved
  | outsideReportedCandidates
  deriving DecidableEq, Repr

/-- The report next to the facts of its review. -/
structure ActualReviewComparison where
  original : ActualReportRecord
  reportedClock : ActualReportedClockAssessment
  facts : ActualReviewFacts
  scope : ActualBalanceComparison
  sourceComparison : ActualSourceComparison
  potentialHistoricalHolds : List HistoricalHoldFinding
  deriving DecidableEq

namespace ActualReviewFacts

/-- The claimed source is where the group is now, as far as it is claimed. -/
def MatchesCurrent (group : PhysicalStockGroup) (source : ReportedActualSource) : Prop :=
  source.trace = group.trace ∧ (∀ id ∈ source.group, id = group.id) ∧
    ∀ location ∈ source.location, location = group.location

instance (group : PhysicalStockGroup) : DecidablePred (MatchesCurrent group) :=
  fun _ => inferInstanceAs (Decidable (_ ∧ _))

def compareSource (group : PhysicalStockGroup) (sources : ActualReportSources) :
    ActualSourceComparison :=
  if sources = .unknown then .unknownClaim
  else if ∃ source ∈ sources.candidates, MatchesCurrent group source then
    .currentCandidateRequiresHistoricalVerification
  else if ∃ source ∈ sources.candidates, source.trace = group.trace then
    .historicalAssociationUnresolved
  else .outsideReportedCandidates

/-- What is said of a hold, if its scope has the group. -/
def holdFinding (facts : ActualReviewFacts) (context : ActualReviewContext) (now : UnixTimestamp)
    (hold : Hold) : Except ActualReportError (Option HistoricalHoldFinding) := do
  refuse (hold.stamp.recordedAt > now ∨ ∃ release ∈ hold.release, release.recordedAt > now)
    .invalidNativeContext
  let scope ← mapErr (fun _ => .invalidNativeContext) (context.lineage.resolve hold.scope)
  return if ∃ node ∈ scope.groups, node.id = context.group.id then
    some {
      original := hold
      conditionalTiming := classifyHoldTiming facts.occurred hold.stamp.occurred
        (hold.release.map fun release => release.occurred)
      applicability := .historicalScopeUnverified }
  else none

/-- The balance that would be left. -/
def compareBalance (facts : ActualReviewFacts) (context : ActualReviewContext) :
    Except ActualReportError ActualBalanceComparison := do
  let group := context.group
  let reference (id : HubRecordId) (kind : ReferenceKind) :=
    mapErr (fun _ => ActualReportError.invalidNativeContext) (context.catalog.requireKind id kind)
  let variant ← reference group.variant .pack
  let product ← okOr (packProduct variant.value) .invalidNativeContext
  let product ← reference product .product
  let recipient ← reference facts.recipient .party
  let currentLocation ← reference group.location .location
  let onHandAfter ← mapErr (fun _ => .insufficientBalance) (group.packs.checkedSub facts.packs)
  return {
    product, variant, recipient, currentLocation, before := group
    comparedDeparture := facts.packs, onHandAfter
    pendingWorkToRetire := group.pendingWork.map fun allocation => allocation.requirement.id }

section
variable [Sha256]

def review (facts : ActualReviewFacts) (context : ActualReviewContext) (now : UnixTimestamp) :
    Except ActualReportError ActualReviewComparison := do
  let original := context.original
  original.validate
  let group := context.group
  mapErr (fun _ => .invalidNativeContext) (group.validateCatalog context.catalog)
  let graph := context.lineage
  let node ← okOr (graph.node group.id) .invalidNativeContext
  refuse (context.hub ≠ original.hub ∨ graph.hub ≠ context.hub ∨ graph.trace ≠ group.trace ∨
    graph.variant ≠ group.variant ∨ graph.revision ≠ context.stockRevision ∨
    node.parent ≠ group.parent ∨ node.packs ≠ group.packs ∨ node.trace ≠ group.trace ∨
    node.variant ≠ group.variant ∨ original.stockRevision.value > context.stockRevision.value ∨
    original.catalogRevision.value > context.catalog.revision.value ∨ now < original.recordedAt ∨
    group.revision.value > context.stockRevision.value ∨
    ∃ floor ∈ group.causalFloor, floor > now) .invalidNativeContext
  refuse (facts.report ≠ original.id ∨ facts.expectedStockRevision ≠ context.stockRevision ∨
    facts.expectedCatalogRevision ≠ context.catalog.revision ∨ facts.group ≠ group.id ∨
    facts.expectedGroupRevision ≠ group.revision) .staleRevision
  refuse (context.uncertainSubmissions = true) .uncertainSubmission
  mapErr (fun _ => .invalidInput) (facts.occurred.validate original.recordedAt)
  refuse (facts.packs.value = 0 ∨ facts.packs.value > group.packs.value) .insufficientBalance
  let report := original.report
  refuse ((∃ variant ∈ report.variant, variant ≠ group.variant) ∨
    (∃ recipient ∈ report.recipient, recipient ≠ facts.recipient) ∨
    (∃ packs ∈ report.packs, packs ≠ facts.packs) ∨
    report.occurred.refines facts.occurred = false) .conflictingEvidence
  -- the history of the treatment is checked; what it permits today does not matter
  let _ ← mapErr (fun _ => .invalidNativeContext)
    (context.treatment.project graph context.catalog.handlingBasis)
  let holds ← context.treatment.holds.mapM (facts.holdFinding context now)
  let scope ← facts.compareBalance context
  return {
    original, reportedClock := original.recordingClockAssessment, facts, scope
    sourceComparison := compareSource group report.sources
    potentialHistoricalHolds := holds.reduceOption }

end

end ActualReviewFacts

/-- What an accepted new departure writes. -/
structure ActualNewDeparturePlan where
  operation : HubRecordId
  report : ActualReportRecord
  actor : PublicKey
  recordedAt : UnixTimestamp
  stockRevision : HubRevision
  comparison : ActualReviewComparison
  historicalSource : ResolvedActualSource
  reduction : ActualPhysicalReduction
  afterCausalFloor : Option UnixTimestamp
  duplicateReviewBasis : SourceProvenance
  deriving DecidableEq

end HarvestCircle
