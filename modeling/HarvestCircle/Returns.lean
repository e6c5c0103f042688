import HarvestCircle.Departure

/-! # Returned stock

A return brings a new population into custody, with work and a treatment of its own.
It may claim to be what left on a line of an earlier departure.  The claim changes
nothing about the stock; it is resolved against the departure as it was recorded,
against what was already established to have come back from each line, and, where
the line has been corrected since, against what the correction still allows.
-/
namespace HarvestCircle
open Checked

inductive ReturnError where
  | reference (error : HubReferenceError)
  | stock (error : StockError)
  | departure (error : DepartureError)
  | invalidIdentity
  | invalidNativeContext
  | emptyQuantity
  | staleRevision
  | invalidPlannedLocation
  | revisionExhausted
  deriving DecidableEq, Repr

/-- What a return and the stock it brings will be known by. -/
structure ReturnIdentities where
  operation : HubRecordId
  returned : HubRecordId
  population : HubRecordId
  group : HubRecordId
  source : HubRecordId
  requirement : HubRecordId
  deriving DecidableEq, Repr

namespace ReturnIdentities
variable [Sha256]

/-- Every identity comes from the operation, by a purpose of its own. -/
def fromOperationBytes (operation : HubRecordId) : Except ReturnError ReturnIdentities := do
  let derive := fun purpose => mapErr ReturnError.reference (HubRecordId.derived
    (utf8 "harvestcircle.hub.return.identity.v1\x00" ++ utf8 purpose ++ operation.asBytes))
  let returned ← derive "return\x00"
  let population ← derive "population\x00"
  let group ← derive "group\x00"
  let source ← derive "source\x00"
  let requirement ← derive "work\x00"
  return { operation, returned, population, group, source, requirement }

def validate (ids : ReturnIdentities) : Except ReturnError Unit := do
  let derived ← fromOperationBytes ids.operation
  refuse (ids ≠ derived) .invalidIdentity
  refuse (¬ [ids.operation, ids.returned, ids.population, ids.group, ids.source,
    ids.requirement].Nodup) .invalidIdentity

end ReturnIdentities

/-! ## Links to a departure -/

/-- The departure the stock is said to have left on, and perhaps the line. -/
structure ReturnDepartureClaim where
  departure : HubRecordId
  group : Option HubRecordId
  deriving DecidableEq, Repr

/-- The claimed departure as it was recorded. -/
structure ReturnDepartureHeader where
  departure : HubRecordId
  operation : HubRecordId
  hub : HubId
  stockRevision : HubRevision
  catalogRevision : HubRevision
  identification : HubRecordId
  recipient : ReferenceRecord
  actor : PublicKey
  recordedAt : UnixTimestamp
  occurred : Occurrence
  deriving DecidableEq, Repr

/-- A line of the departure and what was established to have come back from it. -/
structure ReturnSourceSnapshot where
  original : DispatchLineSnapshot
  previouslyEstablishedReturns : WholePacks
  deriving DecidableEq, Repr

/-- Whether the stock can have come back after it left. -/
inductive ReturnTiming where
  | afterOrSame
  | uncertain
  | contradictory
  deriving DecidableEq, Repr

/-- Why a claim is kept without a line. -/
inductive UnresolvedReturnLink where
  | originalGroupUnknown
  | noMatchingVariant
  | claimedGroupMissing
  | variantConflict
  | quantityConflict
  | timeConflict
  deriving DecidableEq, Repr

/-- What became of the claim; only `establishedScope` counts against a line. -/
inductive ReturnLinkResolution where
  | unknown
  | unrecorded
  | unresolved (reason : UnresolvedReturnLink)
  | establishedScope
  deriving DecidableEq, Repr

/-- The claim with all it was resolved against. -/
structure ReturnLinkSnapshot where
  claim : Option ReturnDepartureClaim
  departure : Option ReturnDepartureHeader
  claimedSource : Option ReturnSourceSnapshot
  plausibleSources : List ReturnSourceSnapshot
  timing : ReturnTiming
  resolution : ReturnLinkResolution
  deriving DecidableEq, Repr

/-- First and last instant of an occurrence. -/
def Occurrence.bounds : Occurrence → Option (UnixTimestamp × UnixTimestamp)
  | .known time => some (time, time)
  | .interval earliest latest => some (earliest, latest)
  | .unknown => none

/-- Contradictory only if the whole return lies before the whole departure. -/
def returnTiming (departure returned : Occurrence) : ReturnTiming :=
  match departure.bounds, returned.bounds with
  | some (first, last), some (first', last') =>
    if last' < first then .contradictory
    else if first' ≥ last then .afterOrSame
    else .uncertain
  | _, _ => .uncertain

/-! ## Allowances after corrections -/

/-- The correction a line was last given its quantity by. -/
structure ReturnQuantityHead where
  operation : HubRecordId
  stockRevision : HubRevision
  projectionHash : BitVec 256
  deriving DecidableEq, Repr

/-- What a corrected line still allows to come back. -/
structure ReturnLineAllowance where
  originalGroup : HubRecordId
  effectiveDeparture : WholePacks
  originalDebitReturnBound : WholePacks
  quantityHead : Option ReturnQuantityHead
  fundingHash : BitVec 256
  unresolvedReturns : Bool
  deriving DecidableEq, Repr

/-- The lesser of what left and what was debited. -/
def ReturnLineAllowance.linkableQuantity (allowance : ReturnLineAllowance) : WholePacks :=
  if allowance.effectiveDeparture.value < allowance.originalDebitReturnBound.value then
    allowance.effectiveDeparture
  else allowance.originalDebitReturnBound

/-- The allowances of all lines of a departure at one stock revision. -/
structure ReturnAllowanceCapture where
  hub : HubId
  departure : HubRecordId
  operation : HubRecordId
  stockRevision : HubRevision
  lines : List ReturnLineAllowance
  deriving DecidableEq, Repr

/-- What was established to have come back from one line. -/
structure EstablishedReturnTotal where
  originalGroup : HubRecordId
  packs : WholePacks
  deriving DecidableEq, Repr

/-- What the hub reads for a return. -/
structure ReturnContext where
  hub : HubId
  stockRevision : HubRevision
  catalog : ReferenceCatalog
  departure : Option DepartureRecord
  establishedReturnTotals : List EstablishedReturnTotal
  currentAllowances : Option ReturnAllowanceCapture

/-- One allowance, given those before it. -/
def ReturnAllowanceCapture.checkLine (capture : ReturnAllowanceCapture)
    (departure : DepartureRecord) (issued : IdentificationVersion)
    (earlier : List ReturnLineAllowance) (allowance : ReturnLineAllowance) :
    Except ReturnError Unit := do
  let line ← okOr (issued.material.lines.find? fun line => line.group = allowance.originalGroup)
    .invalidNativeContext
  refuse ((∃ other ∈ earlier, other.originalGroup = allowance.originalGroup) ∨
    allowance.originalDebitReturnBound.value > line.packs.value ∨
    (allowance.quantityHead = none ∧ (allowance.effectiveDeparture ≠ line.packs ∨
      allowance.originalDebitReturnBound ≠ line.packs)) ∨
    allowance.fundingHash = 0 ∨
    ∃ head ∈ allowance.quantityHead, head.operation = departure.operation ∨
      head.stockRevision.value ≤ departure.stockRevision.value ∨
      head.stockRevision.value > capture.stockRevision.value ∨ head.projectionHash = 0)
    .invalidNativeContext

/-- The capture is of this departure and revision and has every line once. -/
def ReturnAllowanceCapture.validate (capture : ReturnAllowanceCapture) (context : ReturnContext)
    (departure : DepartureRecord) : Except ReturnError Unit := do
  let issued ← okOr departure.paper.versions.getLast? .invalidNativeContext
  refuse (capture.hub ≠ context.hub ∨ capture.departure ≠ departure.id ∨
    capture.operation ≠ departure.operation ∨ capture.stockRevision ≠ context.stockRevision ∨
    capture.lines.length ≠ issued.material.lines.length ∨ capture.lines = [] ∨
    capture.lines.length > 64) .invalidNativeContext
  forPrefix (capture.checkLine departure issued) [] capture.lines

/-- What the capture has for a line. -/
def ReturnContext.allowance (context : ReturnContext) (group : HubRecordId) :
    Option ReturnLineAllowance :=
  context.currentAllowances.bind fun capture =>
    capture.lines.find? fun allowance => allowance.originalGroup = group

/-! ## The command -/

/-- Takes returned packs into custody. -/
structure ReturnCommand where
  expectedStockRevision : HubRevision
  expectedCatalogRevision : HubRevision
  variant : HubRecordId
  location : HubRecordId
  returnedBy : Option HubRecordId
  source : SourceAttribution
  packs : WholePacks
  identification : PhysicalIdentification
  plannedLocation : Option HubRecordId
  departure : Option ReturnDepartureClaim
  occurred : Occurrence
  observation : SourceProvenance
  deriving DecidableEq, Repr

/-- The population a return brings, with its references as they read. -/
structure ReturnIntake where
  population : HubRecordId
  product : ReferenceRecord
  variant : ReferenceRecord
  location : ReferenceRecord
  returnedBy : Option ReferenceRecord
  source : SourceAttribution
  sourceIssuer : Option ReferenceRecord
  packs : WholePacks
  plannedLocation : Option ReferenceRecord
  occurred : Occurrence
  actor : PublicKey
  recordedAt : UnixTimestamp
  observation : SourceProvenance
  deriving DecidableEq, Repr

/-- What an accepted return writes. -/
structure ReturnPlan where
  identities : ReturnIdentities
  stockRevision : HubRevision
  catalogRevision : HubRevision
  intake : ReturnIntake
  group : PhysicalStockGroup
  intakeWork : Option WorkRequirement
  acceptance : AcceptanceStatus
  linkage : ReturnLinkSnapshot
  currentAllowances : Option ReturnAllowanceCapture
  deriving DecidableEq, Repr

namespace ReturnCommand
variable [Sha256]

/-- A line of the departure as a possible source. -/
def candidate (context : ReturnContext) (line : DispatchLineSnapshot) :
    Except ReturnError ReturnSourceSnapshot := do
  let prior ← okOr (context.establishedReturnTotals.find? fun total =>
    total.originalGroup = line.group) .invalidNativeContext
  refuse (prior.packs.value > line.packs.value) .invalidNativeContext
  refuse (∃ allowance ∈ context.allowance line.group,
    prior.packs.value > allowance.linkableQuantity.value) .invalidNativeContext
  return { original := line, previouslyEstablishedReturns := prior.packs }

/-- The packs that would have come back from the line fit into a bound. -/
def Fits (command : ReturnCommand) (source : ReturnSourceSnapshot) (bound : WholePacks) : Prop :=
  ∃ total ∈ (source.previouslyEstablishedReturns.checkedAdd command.packs).toOption,
    total.value ≤ bound.value

instance (command : ReturnCommand) (source : ReturnSourceSnapshot) (bound : WholePacks) :
    Decidable (command.Fits source bound) :=
  inferInstanceAs (Decidable (∃ total ∈ (_ : Option WholePacks), total.value ≤ _))

/-- Why the claim does not establish a line, if it does not. -/
def conflict (command : ReturnCommand) (context : ReturnContext) (claim : ReturnDepartureClaim)
    (claimed : Option ReturnSourceSnapshot) (matching : List ReturnSourceSnapshot)
    (timing : ReturnTiming) : Option UnresolvedReturnLink :=
  match claimed, claim.group with
  | _, none => if matching = [] then some .noMatchingVariant else some .originalGroupUnknown
  | none, some _ => some .claimedGroupMissing
  | some source, some _ =>
    if source.original.variant.id ≠ command.variant then some .variantConflict
    else if ¬ command.Fits source source.original.packs then some .quantityConflict
    else if ∃ allowance ∈ context.allowance source.original.group,
        allowance.unresolvedReturns = true ∨ ¬ command.Fits source allowance.linkableQuantity then
      some .quantityConflict
    else if timing = .contradictory then some .timeConflict
    else none

/-- Without a claim, or a departure for it, the context may have nothing to resolve against. -/
def resolveLink (command : ReturnCommand) (context : ReturnContext) :
    Except ReturnError ReturnLinkSnapshot := do
  let blank : ReturnLinkSnapshot := {
    claim := command.departure, departure := none, claimedSource := none, plausibleSources := []
    timing := .uncertain, resolution := .unknown }
  match command.departure with
  | none => do
    refuse (context.departure ≠ none ∨ context.establishedReturnTotals ≠ [] ∨
      context.currentAllowances ≠ none) .invalidNativeContext
    return blank
  | some claim =>
    match context.departure with
    | none => do
      refuse (context.establishedReturnTotals ≠ [] ∨ context.currentAllowances ≠ none)
        .invalidNativeContext
      return { blank with resolution := .unrecorded }
    | some departure => do
      mapErr .departure departure.validate
      refuse (departure.hub ≠ context.hub ∨ departure.id ≠ claim.departure ∨
        departure.stockRevision.value > context.stockRevision.value ∨
        departure.catalogRevision.value > context.catalog.revision.value) .invalidNativeContext
      let issued ← okOr departure.paper.versions.getLast? .invalidNativeContext
      let _ ← context.currentAllowances.mapM fun capture => capture.validate context departure
      refuse (context.establishedReturnTotals.length ≠ issued.material.lines.length)
        .invalidNativeContext
      refuse (¬ (context.establishedReturnTotals.map (·.originalGroup)).Nodup)
        .invalidNativeContext
      let candidates ← issued.material.lines.mapM (candidate context)
      let matching := candidates.filter fun source => source.original.variant.id = command.variant
      let claimed := (candidates.filter fun source =>
        claim.group = some source.original.group).getLast?
      let timing := returnTiming departure.occurred command.occurred
      return {
        claim := some claim
        departure := some {
          departure := departure.id, operation := departure.operation, hub := departure.hub
          stockRevision := departure.stockRevision, catalogRevision := departure.catalogRevision
          identification := issued.id, recipient := issued.material.recipient
          actor := departure.actor, recordedAt := departure.recordedAt
          occurred := departure.occurred }
        claimedSource := claimed, plausibleSources := matching, timing
        resolution := match command.conflict context claim claimed matching timing with
          | some reason => .unresolved reason
          | none => .establishedScope }

/-- The stock comes in whatever the claim resolves to. -/
def plan (command : ReturnCommand) (context : ReturnContext) (ids : ReturnIdentities)
    (actor : PublicKey) (now : UnixTimestamp) : Except ReturnError ReturnPlan := do
  ids.validate
  refuse (command.expectedStockRevision ≠ context.stockRevision ∨
    command.expectedCatalogRevision ≠ context.catalog.revision) .staleRevision
  refuse (command.packs.value = 0) .emptyQuantity
  mapErr .stock (command.occurred.validate now)
  let reference := fun id kind => mapErr ReturnError.reference (context.catalog.requireKind id kind)
  let variant ← reference command.variant .pack
  let product ← okOr (packProduct variant.value) .invalidNativeContext
  let product ← reference product .product
  let location ← reference command.location .location
  let returnedBy ← command.returnedBy.mapM fun id => reference id .party
  let sourceIssuer ← (match command.source with
    | .unknown => pure none
    | .referenced source _ => do
      mapErr .reference (source.validate context.catalog)
      source.issuer.mapM fun id => reference id .party)
  refuse (command.plannedLocation = some command.location) .invalidPlannedLocation
  let plannedLocation ← command.plannedLocation.mapM fun id => reference id .location
  let intakeWork := plannedLocation.map fun target => {
    id := ids.requirement, trace := ids.population, variant := command.variant
    target := some target, quantity := .pending command.packs, revision := .initial }
  let group : PhysicalStockGroup := {
    id := ids.group, trace := ids.population, variant := command.variant, parent := none
    identification := some command.identification, location := command.location
    packs := command.packs, revision := .initial
    causalFloor := PhysicalStockGroup.observedFrom command.occurred
    work := intakeWork.toList.map fun requirement => ⟨requirement, .pending⟩ }
  mapErr (fun _ => .invalidNativeContext) group.validate
  let stockRevision ← mapErr (fun _ => .revisionExhausted) context.stockRevision.next
  let linkage ← command.resolveLink context
  return {
    identities := ids, stockRevision, catalogRevision := context.catalog.revision
    intake := {
      population := ids.population, product, variant, location, returnedBy
      source := command.source, sourceIssuer, packs := command.packs, plannedLocation
      occurred := command.occurred, actor, recordedAt := now
      observation := command.observation }
    group, intakeWork, acceptance := .reviewRequired, linkage
    currentAllowances := context.currentAllowances }

end ReturnCommand

end HarvestCircle
