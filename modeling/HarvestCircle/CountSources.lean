import HarvestCircle.ActualReview
import HarvestCircle.DispatchDigest
import HarvestCircle.Intents
import HarvestCircle.KnownDepartures

/-! # What explains a counted shortage

Packs that a count did not find may be explained by a departure that had not been
recorded.  The explanation classifies the loss; it takes nothing out of stock.  What is
known of where the packs came from is kept as a witness, which names the explanation and
its count by their digests.
-/
namespace HarvestCircle
open Checked Codes

/-- An explanation with the count, the report and the source it was planned from. -/
structure CountExplanationPlan where
  operation : HubRecordId
  actor : PublicKey
  recordedAt : UnixTimestamp
  report : ActualReportRecord
  facts : CountExplanationFacts
  count : CountPostPlan
  explanation : CountLossExplanation
  historicalSource : ResolvedActualSource
  knownEvent : ActualKnownDeparture
  unexplainedAfter : WholePacks
  potentialHistoricalHolds : List HistoricalHoldFinding
  deriving DecidableEq

/-! ## Digests of what was recorded -/

def WorkProgress.tag : WorkProgress → UInt8
  | .pending => 1
  | .completed => 2
  | .noLongerRequired => 3

namespace CountResult
variable [Sha256]

/-- Whose catalog the references of a count were read from. -/
def scope (record : CountPostPlan) : ReferenceScope where
  hub := record.count.scope.hub
  actor := record.actor
  catalog := record.catalogRevision

/-- A requirement with every number of its account. -/
def work (record : CountPostPlan) (value : WorkRequirement) : List UInt8 :=
  [value.id.asBytes, value.trace.asBytes, value.variant.asBytes, value.revision.toBeBytes,
    value.quantity.required.toBeBytes, value.quantity.completed.toBeBytes,
    value.quantity.noLongerRequired.toBeBytes, value.quantity.remaining.toBeBytes,
    DispatchResult.optionalReference (scope record) value.target].flatten

def allocation (record : CountPostPlan) (value : WorkAllocation) : List UInt8 :=
  value.progress.tag :: work record value.requirement

/-- The work a shortage closed, before and after. -/
def change (record : CountPostPlan) (value : CountWorkChange) : List UInt8 :=
  [work record value.before, work record value.after, value.retired.toBeBytes].flatten

/-- Only a shortage and a surplus write more than their tag. -/
def effect (record : CountPostPlan) : CountEffect → List UInt8
  | .noVariance => [0]
  | .shortage packs afterPacks afterRevision workChanges =>
    [[1], packs.toBeBytes, afterPacks.toBeBytes, afterRevision.toBeBytes,
      counted (bigEndian 4) (change record) workChanges].flatten
  | .surplus packs identification _ _ =>
    [[2], packs.toBeBytes, hashIdentification identification].flatten

/-- The groups of a count: the one that was counted. -/
def before (record : CountPostPlan) (group : PhysicalStockGroup) : List UInt8 :=
  [group.id.asBytes, group.trace.asBytes, group.variant.asBytes, group.location.asBytes,
    hashOptionalId group.parent, flagged 0 1 hashIdentification group.identification,
    group.packs.toBeBytes, group.revision.toBeBytes,
    flagged 0 1 UnixTimestamp.toBeBytes group.causalFloor,
    counted (bigEndian 4) (allocation record) group.work].flatten

end CountResult

section
variable [Sha256]

/-- The string hashed for a recorded count, behind the digest of its command. -/
def CountObservation.resultPreimage (record : CountObservation) (input : BitVec 256) : List UInt8 :=
  let scope := record.scope
  let catalog : ReferenceScope := ⟨scope.hub, record.actor, scope.catalogRevision⟩
  [utf8 "harvestcircle.hub.count.observation.result.v1\x00", digestBytes input, record.id.asBytes,
    record.operation.asBytes, record.recordedRevision.toBeBytes, scope.hub.asBytes,
    scope.stockRevision.toBeBytes, scope.catalogRevision.toBeBytes, scope.trace.asBytes,
    scope.group.asBytes, scope.groupRevision.toBeBytes,
      DispatchResult.reference catalog scope.product,
    DispatchResult.reference catalog scope.variant, DispatchResult.reference catalog scope.location,
    scope.recordedPacks.toBeBytes, scope.latestPhysicalRecordedAt.toBeBytes,
    hashOptionalId scope.previousReconciliation, record.countedPacks.toBeBytes,
    hashOccurrence record.cutoff, record.actor.asBytes, record.recordedAt.toBeBytes,
    hashText record.observation.text].flatten

/-- Only a valid observation has a digest. -/
def countObservationResultDigest (input : BitVec 256) (record : CountObservation) :
    Except CountError (BitVec 256) := do
  record.validate
  return Sha256.digest (record.resultPreimage input)

/-- The command that would have recorded the observation. -/
def CountObservation.command (record : CountObservation) : CountObserveCommand where
  expectedStockRevision := record.scope.stockRevision
  expectedCatalogRevision := record.scope.catalogRevision
  group := record.scope.group
  expectedGroupRevision := record.scope.groupRevision
  countedPacks := record.countedPacks
  cutoff := record.cutoff
  observation := record.observation

/-- The string hashed for a posted count, behind the digests of both its commands. -/
def CountPostPlan.resultPreimage (record : CountPostPlan) (input observed : BitVec 256) :
    List UInt8 :=
  let scope := CountResult.scope record
  [utf8 "harvestcircle.hub.count.post.result.v1\x00", digestBytes input, record.id.asBytes,
    record.operation.asBytes, digestBytes observed, record.stockRevision.toBeBytes,
    record.catalogRevision.toBeBytes, DispatchResult.reference scope record.references.product,
    DispatchResult.reference scope record.references.variant,
    DispatchResult.reference scope record.references.location, record.actor.asBytes,
    record.recordedAt.toBeBytes, record.confirmedOnHandAt.toBeBytes, hashText record.reason.text,
    CountResult.before record record.before, CountResult.effect record record.effect].flatten

/-- The digest of a posted count contains that of the observation it posts. -/
def countPostResultDigest (input : BitVec 256) (record : CountPostPlan) :
    Except CountError (BitVec 256) := do
  record.validate
  let count := record.count
  let observe := Sha256.digest (count.command.preimage count.scope.hub count.actor count.operation)
  let observed ← countObservationResultDigest observe count
  refuse (record.before.work.length ≥ 2 ^ 32) .invalidHistory
  return Sha256.digest (record.resultPreimage input observed)

/-- The string hashed for the departure as it was first known. -/
def ActualKnownDeparture.originalPreimage (value : ActualKnownDeparture) : List UInt8 :=
  let scope : ReferenceScope := ⟨value.hub, value.actor, value.catalogRevision⟩
  [utf8 "harvestcircle.hub.count.explanation.known_source_original.v1\x00", value.operation.asBytes,
    value.actor.asBytes, value.hub.asBytes, value.stockRevision.toBeBytes,
    value.catalogRevision.toBeBytes, value.trace.asBytes,
      DispatchResult.reference scope value.variant,
    DispatchResult.reference scope value.recipient, hashOccurrence value.occurred,
    value.recordedAt.toBeBytes, counted (bigEndian 4) (fun line => [line.group.asBytes,
      DispatchResult.reference scope line.location, line.packs.toBeBytes].flatten)
        value.lines].flatten

def knownOriginalDigest (value : ActualKnownDeparture) : Except ActualReportError (BitVec 256) := do
  value.validate
  return Sha256.digest value.originalPreimage

/-- Of the group, its identification, causal floor and work are left out. -/
def HistoricalActualSource.bytes (source : HistoricalActualSource) : List UInt8 :=
  [source.operation.asBytes, source.actor.asBytes, source.hub.asBytes,
    source.stockRevision.toBeBytes, source.catalogRevision.toBeBytes, source.group.id.asBytes,
    source.group.trace.asBytes, source.group.variant.asBytes, source.group.location.asBytes,
    hashOptionalId source.group.parent, source.group.packs.toBeBytes,
    source.group.revision.toBeBytes,
    DispatchResult.reference ⟨source.hub, source.actor, source.catalogRevision⟩ source.location,
    hashOccurrence source.occurred, source.recordedAt.toBeBytes].flatten

/-! ## The witness -/

/-- The identity of an explanation comes from its operation. -/
def countExplanationId (operation : HubRecordId) : Except CorrectionError HubRecordId :=
  mapErr (fun _ => .invalidHistory) (HubRecordId.derived
    (utf8 "harvestcircle.hub.correction.count.explanation.record.v1\x00" ++ operation.asBytes))

end

/-- Where explained packs came from, tied to its departure and count by digests. -/
structure CountExplanationSourceWitness where
  knownDigest : BitVec 256
  countDigest : BitVec 256
  source : ResolvedActualSource
  deriving DecidableEq

namespace CountExplanationSourceWitness
variable [Sha256]

def historical (witness : CountExplanationSourceWitness) : HistoricalActualSource :=
  witness.source.historical

/-- What the explanation says agrees with the count, the report and the source it was made from. -/
def checkExplanation (value : CountExplanationPlan) (packs : WholePacks) (latest : UnixTimestamp) :
    Except ActualReportError Unit := do
  let known := value.knownEvent
  let count := value.count
  let source := value.historicalSource.historical
  refuse (known.operation ≠ value.operation ∨ known.operation ≠ value.explanation.operation ∨
    known.actor ≠ value.actor ∨ known.recordedAt ≠ value.recordedAt ∨
    known.stockRevision ≠ value.explanation.stockRevision ∨
    value.facts.expectedStockRevision.value + 1 ≠ known.stockRevision.value ∨
    known.catalogRevision ≠ value.facts.expectedCatalogRevision ∨
    known.hub ≠ count.count.scope.hub ∨ known.trace ≠ count.before.trace ∨
    known.variant.id ≠ count.before.variant ∨
    known.lines ≠ [⟨count.before.id, source.location, value.explanation.packs⟩] ∨
    value.explanation.packs ≠ value.facts.packs ∨ value.explanation.packs.value = 0 ∨
    value.explanation.packs.value > packs.value ∨ value.facts.countReconciliation ≠ count.id ∨
    value.facts.recipient ≠ known.recipient.id ∨ value.facts.occurred ≠ known.occurred ∨
    value.facts.report ≠ value.report.id ∨ value.report.hub ≠ known.hub ∨
    value.report.recordedAt > known.recordedAt ∨
    value.report.stockRevision.value > value.facts.expectedStockRevision.value ∨
    count.stockRevision.value ≥ known.stockRevision.value ∨
    count.catalogRevision.value > known.catalogRevision.value ∨
    count.recordedAt > known.recordedAt ∨ latest > count.confirmedOnHandAt ∨
    source.hub ≠ known.hub ∨ source.group.trace ≠ known.trace ∨
    source.group.variant ≠ known.variant.id ∨
    source.stockRevision.value > count.count.scope.stockRevision.value ∨
    source.catalogRevision.value > count.catalogRevision.value ∨
    source.recordedAt > count.recordedAt ∨
    value.historicalSource.balancingGroup ≠ count.before.id ∨
    source.operation ∈ [known.operation, count.operation, count.count.operation,
      value.report.operation]) .invalidHistory
  let raw := value.report.report
  refuse ((∃ variant ∈ raw.variant, variant ≠ known.variant.id) ∨
    (∃ recipient ∈ raw.recipient, recipient ≠ known.recipient.id) ∨
    (∃ packs ∈ raw.packs, packs ≠ value.explanation.packs) ∨
    raw.occurred.refines known.occurred = false ∨
    (raw.sources ≠ .unknown ∧
      ¬ ∃ claim ∈ raw.sources.candidates, ActualSourceContext.Matches source claim))
    .conflictingEvidence

/-- The witness of an explanation that passed every check. -/
def fromExplanation (value : CountExplanationPlan) :
    Except ActualReportError CountExplanationSourceWitness := do
  let known := value.knownEvent
  let count := value.count
  known.validate
  mapErr (fun _ => .invalidHistory) count.validate
  value.historicalSource.historical.validate
  value.report.validate
  let packs ← okOr count.effect.shortagePacks .invalidHistory
  let bounds ← okOr known.occurred.bounds .historicalSourceUnresolved
  checkExplanation value packs bounds.2
  let knownDigest ← knownOriginalDigest known
  let countDigest ← mapErr (fun _ => .invalidHistory) (countPostResultDigest 0 count)
  return { knownDigest, countDigest, source := value.historicalSource }

def preimage (witness : CountExplanationSourceWitness) : List UInt8 :=
  [utf8 "harvestcircle.hub.count.explanation.source_witness.v1\x00",
    digestBytes witness.knownDigest, digestBytes witness.countDigest, witness.historical.bytes,
    witness.source.balancingGroup.asBytes].flatten

def digest (witness : CountExplanationSourceWitness) : Except ActualReportError (BitVec 256) := do
  witness.historical.validate
  return Sha256.digest witness.preimage

end CountExplanationSourceWitness

end HarvestCircle
