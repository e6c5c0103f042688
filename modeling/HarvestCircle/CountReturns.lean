import HarvestCircle.Chains
import HarvestCircle.CountSources
import HarvestCircle.Interpretations

/-! # Returns of packs that a count had missed

Packs that came back without a known departure may later be found to be packs that an
explained shortage took.  The association is made explicitly, and once for a return; it
adds to what is established to have come back from the explanation.

Every established return says that one population came from another.  So that nothing is
its own origin, an association is refused where the population it came from already came
from the returned one (`auditProvenance`).
-/
namespace HarvestCircle
open Checked

inductive CountReturnAssociationError where
  | invalidHistory
  | invalidFacts
  | staleRevision
  | uncertainSubmission
  | alreadyAssociated
  | wrongSource
  | conflictingClaim
  | contradictoryTiming
  | capacity
  | accounting (error : CorrectionError)
  deriving DecidableEq, Repr

/-- A return that was linked to an explanation. -/
structure CountReturnAssociation where
  id : HubRecordId
  operation : HubRecordId
  hub : HubId
  stockRevision : HubRevision
  catalogRevision : HubRevision
  actor : PublicKey
  recordedAt : UnixTimestamp
  returnOperation : HubRecordId
  returnStockRevision : HubRevision
  returned : HubRecordId
  returnedPopulation : HubRecordId
  returnedGroup : HubRecordId
  explanationOperation : HubRecordId
  explanationStockRevision : HubRevision
  explanationTrace : HubRecordId
  countOperation : HubRecordId
  countStockRevision : HubRevision
  anchorGroup : HubRecordId
  variant : HubRecordId
  packs : WholePacks
  returnOccurred : Occurrence
  explanationOccurred : Occurrence
  timing : ReturnTiming
  returnOriginalDigest : BitVec 256
  explanationSourceDigest : BitVec 256
  deriving DecidableEq, Repr

/-- What an established return says about where its population came from. -/
structure NormalReturnProvenance where
  hub : HubId
  returnOperation : HubRecordId
  stockRevision : HubRevision
  catalogRevision : HubRevision
  recordedAt : UnixTimestamp
  population : HubRecordId
  sourceTrace : HubRecordId
  departureOperation : HubRecordId
  departureStockRevision : HubRevision
  originalDigest : BitVec 256
  deriving DecidableEq, Repr

/-- What the hub reads to link a return. -/
structure CountReturnAssociationContext where
  hub : HubId
  stockRevision : HubRevision
  catalog : ReferenceCatalog
  latestRecordedAt : UnixTimestamp
  returned : ReturnPlan
  returnHub : HubId
  returnOriginalDigest : BitVec 256
  explanation : CountExplanationPlan
  account : CountLossQuantityAccount
  recipientOriginal : OriginalRecipientAttribution
  recipientHistory : List RecipientAttributionCorrection
  /-- Every association made so far. -/
  associations : List CountReturnAssociation
  /-- Every return established so far. -/
  normalReturns : List NormalReturnProvenance
  priorTraceCorrectionRows : Nat
  priorAssociationForReturn : Option HubRecordId
  uncertainSubmissions : Bool

/-- What an accepted link writes. -/
structure CountReturnAssociationPlan where
  command : CountReturnAssociationCommand
  association : CountReturnAssociation
  returnedOriginal : ReturnPlan
  explanationOriginal : CountExplanationPlan
  source : CountExplanationSourceWitness
  recipientOriginal : OriginalRecipientAttribution
  recipientHistory : List RecipientAttributionCorrection
  priorAssociations : List CountReturnAssociation
  normalReturns : List NormalReturnProvenance
  priorTraceCorrectionRows : Nat
  before : CountLossQuantityAccount
  after : CountLossQuantityAccount
  deriving DecidableEq

/-! ## Where populations came from -/

/-- Which population came from which. -/
def provenanceEdges (counts : List CountReturnAssociation) (normal : List NormalReturnProvenance) :
    List (HubRecordId × HubRecordId) :=
  counts.map (fun row => (row.returnedPopulation, row.explanationTrace)) ++
    normal.map fun row => (row.population, row.sourceTrace)

/-- One edge: no second one from its start, and not too many populations. -/
def enterEdge
    (entered : List (HubRecordId × HubRecordId) × Finset HubRecordId)
    (edge : HubRecordId × HubRecordId) : Except CountReturnAssociationError
      (List (HubRecordId × HubRecordId) × Finset HubRecordId) := do
  refuse (edge.1 ∈ entered.1.map Prod.fst) .invalidHistory
  let nodes := insert edge.2 (insert edge.1 entered.2)
  refuse (nodes.card > hubTraceCapacity) .capacity
  return (entered.1 ++ [edge], nodes)

/-- The audit, in which the last loop may make as many steps as there is fuel; `none` if it is
still running then. -/
def auditProvenanceWithin (fuel : Nat) (counts : List CountReturnAssociation)
    (normal : List NormalReturnProvenance) (population source : HubRecordId) :
    Option (Except CountReturnAssociationError Unit) :=
  match (provenanceEdges counts normal).foldlM enterEdge ([], {population, source}) with
  | .error error => some (.error error)
  | .ok (edges, _) =>
    -- the walks from the starts in their order, sparing what was walked before
    match Chains.survey edges ((edges.map Prod.fst).insertionSort (· ≤ ·)) with
    | none => some (.error .invalidHistory)
    | some _ =>
      if population ∈ edges.map Prod.fst then some (.error .alreadyAssociated)
      else
        (Chains.follow edges population fuel source).map fun found =>
          if found then .error .invalidFacts else .ok ()

/-- The audit with as many steps as there are edges, and one; it never needs more. -/
def auditProvenance (counts : List CountReturnAssociation) (normal : List NormalReturnProvenance)
    (population source : HubRecordId) : Except CountReturnAssociationError Unit :=
  (auditProvenanceWithin (counts.length + normal.length + 1) counts normal population source).getD
    (.error .invalidFacts)

/-! ## Rows -/

section
variable [Sha256]

def countReturnAssociationId (operation : HubRecordId) : Except CorrectionError HubRecordId :=
  mapErr (fun _ => .invalidHistory) (HubRecordId.derived
    (utf8 "harvestcircle.hub.count-return.association.identity.v1\x00" ++ operation.asBytes))

/-- The identities a return derives from its operation. -/
def returnIdentities (operation : HubRecordId) :
    Except CountReturnAssociationError ReturnIdentities :=
  mapErr (fun _ => .invalidHistory) (ReturnIdentities.fromOperationBytes operation)

namespace NormalReturnProvenance

def validate (row : NormalReturnProvenance) : Except CountReturnAssociationError Unit := do
  let ids ← returnIdentities row.returnOperation
  refuse (row.population ≠ ids.population ∨ row.population = row.sourceTrace ∨
    row.returnOperation = row.departureOperation ∨ row.departureStockRevision = .initial ∨
    row.departureStockRevision.value ≥ row.stockRevision.value) .invalidHistory

def fromOriginal (hub : HubId) (returned : ReturnPlan) (originalDigest : BitVec 256) :
    Except CountReturnAssociationError NormalReturnProvenance := do
  let departure ← okOr returned.linkage.departure .invalidHistory
  let source ← okOr returned.linkage.claimedSource .invalidHistory
  let claim ← okOr returned.linkage.claim .invalidHistory
  mapErr (fun _ => .invalidHistory) (departure.occurred.validate departure.recordedAt)
  mapErr (fun _ => .invalidHistory) (returned.intake.occurred.validate returned.intake.recordedAt)
  let ids ← returnIdentities returned.identities.operation
  refuse (returned.linkage.resolution ≠ .establishedScope ∨ departure.hub ≠ hub ∨
    claim.departure ≠ departure.departure ∨ claim.group ≠ some source.original.group ∨
    source.original.variant.id ≠ returned.intake.variant.id ∨ returned.identities ≠ ids ∨
    returned.intake.population ≠ returned.identities.population ∨
    returned.group.trace ≠ returned.identities.population ∨
    returned.group.id ≠ returned.identities.group ∨
    departure.catalogRevision.value > returned.catalogRevision.value ∨
    departure.recordedAt > returned.intake.recordedAt ∨
    returned.linkage.timing ≠ returnTiming departure.occurred returned.intake.occurred ∨
    returned.linkage.timing = .contradictory) .invalidHistory
  let row : NormalReturnProvenance := {
    hub, returnOperation := returned.identities.operation, stockRevision := returned.stockRevision
    catalogRevision := returned.catalogRevision, recordedAt := returned.intake.recordedAt
    population := returned.identities.population, sourceTrace := source.original.trace.id
    departureOperation := departure.operation, departureStockRevision := departure.stockRevision
    originalDigest }
  row.validate
  return row

end NormalReturnProvenance

def CountReturnAssociation.validate (row : CountReturnAssociation) :
    Except CountReturnAssociationError Unit := do
  let ids ← returnIdentities row.returnOperation
  let id ← mapErr .accounting (countReturnAssociationId row.operation)
  refuse (row.id ≠ id ∨ row.returned ≠ ids.returned ∨ row.returnedPopulation ≠ ids.population ∨
    row.returnedGroup ≠ ids.group ∨ row.packs.value = 0 ∨
    row.returnedPopulation = row.explanationTrace ∨ row.stockRevision = .initial ∨
    row.countStockRevision.value ≥ row.explanationStockRevision.value ∨
    row.explanationOccurred = .unknown ∨
    (∃ revision ∈ [row.returnStockRevision, row.explanationStockRevision, row.countStockRevision],
      revision = .initial ∨ revision.value ≥ row.stockRevision.value) ∨
    row.timing ≠ returnTiming row.explanationOccurred row.returnOccurred ∨
    row.timing = .contradictory) .invalidHistory
  refuse (¬ [row.operation, row.returnOperation, row.explanationOperation,
    row.countOperation].Nodup) .invalidHistory
  mapErr (fun _ => .invalidHistory) (row.returnOccurred.validate row.recordedAt)
  mapErr (fun _ => .invalidHistory) (row.explanationOccurred.validate row.recordedAt)

end

/-! ## What an association depends on -/

/-- What an operation did in the history. -/
inductive RootRole where
  | explanation (count trace variant : HubRecordId)
  | classification (explanation : HubRecordId)
  | recipient (target : HubRecordId)
  | report
  | countPost (trace variant : HubRecordId)
  | countObserve (trace variant : HubRecordId)
  | returned (population : HubRecordId) (digest : BitVec 256)
  | normalDeparture
  | association
  deriving DecidableEq, Repr

/-- An operation, its revision and what it did. -/
structure RootRow where
  operation : HubRecordId
  revision : HubRevision
  role : RootRole
  deriving DecidableEq, Repr

namespace CountReturnAssociationContext

/-- One operation at one revision; the proposed one must be new. -/
def includeOperation (context : CountReturnAssociationContext) (proposed : HubRecordId)
    (register : RevisionRegister) (row : HubRecordId × HubRevision) :
    Except CountReturnAssociationError RevisionRegister := do
  refuse (row.1 = proposed ∨ row.2 = .initial ∨ row.2.value > context.stockRevision.value)
    .invalidHistory
  refuse (register.revisions[row.1]? = none ∧ register.revisions.size ≥ hubStockEventCapacity)
    .capacity
  mapErr (fun _ => .invalidHistory) (register.observe row.1 row.2)

/-- An operation has one role. -/
def includeRoot (context : CountReturnAssociationContext) (proposed : HubRecordId)
    (state : RevisionRegister × Std.TreeMap HubRecordId RootRole) (row : RootRow) :
    Except CountReturnAssociationError (RevisionRegister × Std.TreeMap HubRecordId RootRole) := do
  let register ← context.includeOperation proposed state.1 (row.operation, row.revision)
  let roles ← Registers.enter state.2 row.operation row.role .invalidHistory
  return (register, roles)

def associationRoots (row : CountReturnAssociation) : List RootRow :=
  [⟨row.operation, row.stockRevision, .association⟩,
    ⟨row.returnOperation, row.returnStockRevision,
      .returned row.returnedPopulation row.returnOriginalDigest⟩,
    ⟨row.explanationOperation, row.explanationStockRevision,
      .explanation row.countOperation row.explanationTrace row.variant⟩,
    ⟨row.countOperation, row.countStockRevision, .countPost row.explanationTrace row.variant⟩]

def normalRoots (row : NormalReturnProvenance) : List RootRow :=
  [⟨row.returnOperation, row.stockRevision, .returned row.population row.originalDigest⟩,
    ⟨row.departureOperation, row.departureStockRevision, .normalDeparture⟩]

/-- Every operation the association rests on, with what it did. -/
def roots (context : CountReturnAssociationContext) : List RootRow :=
  let loss := context.account.original
  [⟨context.returned.identities.operation, context.returned.stockRevision,
      .returned context.returned.identities.population context.returnOriginalDigest⟩,
    ⟨context.explanation.report.operation, context.explanation.report.stockRevision, .report⟩,
    ⟨loss.operation, loss.stockRevision, .countPost loss.trace loss.variant⟩,
    ⟨context.explanation.count.count.operation, context.explanation.count.count.recordedRevision,
      .countObserve loss.trace loss.variant⟩] ++
  context.account.explanations.map (fun row => ⟨row.operation, row.stockRevision,
    .explanation loss.operation loss.trace loss.variant⟩) ++
  context.account.amendments.map (fun row => ⟨row.operation, row.stockRevision,
    .classification row.explanation⟩) ++
  context.recipientHistory.map (fun row => ⟨row.stamp.operation, row.stamp.stockRevision,
    .recipient row.original.operation⟩) ++
  context.associations.flatMap associationRoots ++ context.normalReturns.flatMap normalRoots

/-- An explanation is always named with the same source, and a count with the same group. -/
def includeExplanation
    (state : Std.TreeMap HubRecordId (HubRecordId × Occurrence × BitVec 256) ×
      Std.TreeMap HubRecordId HubRecordId) (row : CountReturnAssociation) :
    Except CountReturnAssociationError
      (Std.TreeMap HubRecordId (HubRecordId × Occurrence × BitVec 256) ×
        Std.TreeMap HubRecordId HubRecordId) := do
  let explanations ← Registers.enter state.1 row.explanationOperation
    (row.anchorGroup, row.explanationOccurred, row.explanationSourceDigest) .invalidHistory
  let anchors ← Registers.enter state.2 row.countOperation row.anchorGroup .invalidHistory
  return (explanations, anchors)

section
variable [Sha256]

def auditDependencies (context : CountReturnAssociationContext)
    (interpretation : ActualKnownInterpretation) (source : CountExplanationSourceWitness)
    (proposed : HubRecordId) : Except CountReturnAssociationError Unit := do
  let explanation := context.explanation
  let own := interpretation.operations ++
    [(context.returned.identities.operation, context.returned.stockRevision),
      (explanation.report.operation, explanation.report.stockRevision),
      (source.historical.operation, source.historical.stockRevision)]
  let register ← own.foldlM (context.includeOperation proposed) .empty
  let _ ← context.roots.foldlM (context.includeRoot proposed) (register, ∅)
  let digest ← mapErr (fun _ => .invalidHistory) source.digest
  let _ ← context.associations.foldlM includeExplanation
    ((∅ : Std.TreeMap _ _).insert explanation.operation
      (explanation.count.before.id, explanation.knownEvent.occurred, digest),
    (∅ : Std.TreeMap _ _).insert context.account.original.operation explanation.count.before.id)

end

end CountReturnAssociationContext

/-! ## The command -/

/-- What the loops over the earlier returns keep. -/
structure AssociationScan where
  sums : Std.TreeMap HubRecordId WholePacks
  operations : Finset HubRecordId
  returns : Finset HubRecordId
  previous : Nat
  returnHead : Option HubRecordId

/-- The last of the explanations and amendments. -/
def CountLossQuantityAccount.head (account : CountLossQuantityAccount) : Option HubRecordId :=
  let rows := account.explanations.map (fun row => (row.stockRevision, row.operation)) ++
    account.amendments.map fun row => (row.stockRevision, row.operation)
  (rows.foldl (fun best row => match best with
    | none => some row
    | some old => if old.1.value ≤ row.1.value then some row else some old) none).map Prod.snd

namespace CountReturnAssociationCommand
section
variable [Sha256]

/-- The return and the explanation are what the command names, and can belong together. -/
def checkFacts (command : CountReturnAssociationCommand) (context : CountReturnAssociationContext)
    (source : CountExplanationSourceWitness) : Except CountReturnAssociationError Unit := do
  let returned := context.returned
  let original := context.explanation
  let known := original.knownEvent
  refuse (command.returnOperation ≠ returned.identities.operation ∨
    context.returnHub ≠ context.hub ∨ command.explanationOperation ≠ original.operation ∨
    known.hub ≠ context.hub ∨ returned.stockRevision.value > context.stockRevision.value ∨
    known.stockRevision.value > context.stockRevision.value ∨
    returned.catalogRevision.value > context.catalog.revision.value ∨
    known.catalogRevision.value > context.catalog.revision.value ∨
    returned.intake.recordedAt > context.latestRecordedAt ∨
    original.recordedAt > context.latestRecordedAt ∨ returned.intake.packs.value = 0 ∨
    returned.intake.variant.id ≠ known.variant.id) .invalidFacts
  let ids ← returnIdentities returned.identities.operation
  refuse (ids ≠ returned.identities ∨ returned.intake.population ≠ returned.identities.population ∨
    returned.group.id ≠ returned.identities.group ∨
    returned.group.trace ≠ returned.identities.population ∨
    returned.group.variant ≠ known.variant.id ∨ returned.group.packs ≠ returned.intake.packs ∨
    returned.acceptance ≠ .reviewRequired) .invalidFacts
  refuse (command.sourceOperation ≠ source.historical.operation ∨
    command.sourceGroup ≠ source.historical.group.id) .wrongSource
  refuse (returned.identities.population = known.trace ∨
    source.historical.operation = returned.identities.operation) .invalidFacts

/-- The return claims nothing else. -/
def checkClaim (context : CountReturnAssociationContext) :
    Except CountReturnAssociationError Unit := do
  let linkage := context.returned.linkage
  let original := context.explanation
  refuse (linkage.departure ≠ none ∨ context.returned.currentAllowances ≠ none ∨
    linkage.claimedSource ≠ none ∨ linkage.plausibleSources ≠ []) .conflictingClaim
  let expected ← mapErr .accounting (countExplanationId original.operation)
  refuse (∃ claim ∈ linkage.claim, claim.departure ≠ expected ∨
    ∃ group ∈ claim.group, group ≠ original.count.before.id) .conflictingClaim
  refuse (¬ ((linkage.claim = none ∧ linkage.resolution = .unknown) ∨
    (linkage.claim ≠ none ∧ linkage.resolution = .unrecorded))) .conflictingClaim

/-- A return that was established against a departure. -/
def observeNormal (command : CountReturnAssociationCommand)
    (context : CountReturnAssociationContext) (returns : Finset HubRecordId)
    (row : NormalReturnProvenance) : Except CountReturnAssociationError (Finset HubRecordId) := do
  row.validate
  refuse (row.hub ≠ context.hub ∨ row.stockRevision.value > context.stockRevision.value ∨
    row.catalogRevision.value > context.catalog.revision.value ∨
    row.recordedAt > context.latestRecordedAt ∨ row.returnOperation ∈ returns) .invalidHistory
  refuse (row.returnOperation = command.returnOperation) .alreadyAssociated
  return insert row.returnOperation returns

/-- An earlier association; those of the same count are added up. -/
def observeAssociation (command : CountReturnAssociationCommand)
    (context : CountReturnAssociationContext) (scan : AssociationScan)
    (row : CountReturnAssociation) : Except CountReturnAssociationError AssociationScan := do
  let loss := context.account.original
  row.validate
  refuse (row.hub ≠ context.hub ∨ row.stockRevision.value ≤ scan.previous ∨
    row.stockRevision.value > context.stockRevision.value ∨
    row.catalogRevision.value > context.catalog.revision.value ∨
    row.recordedAt > context.latestRecordedAt ∨ row.operation ∈ scan.operations ∨
    row.returnOperation ∈ scan.returns) .invalidHistory
  refuse (row.returnOperation = command.returnOperation) .alreadyAssociated
  let scan := { scan with
    operations := insert row.operation scan.operations
    returns := insert row.returnOperation scan.returns
    previous := row.stockRevision.value }
  if row.countOperation = loss.operation then do
    refuse (row.anchorGroup ≠ context.explanation.count.before.id ∨ row.variant ≠ loss.variant ∨
      row.explanationTrace ≠ context.explanation.knownEvent.trace) .invalidHistory
    let total ← mapErr (fun _ => .invalidHistory)
      ((scan.sums[row.explanationOperation]?.getD .zero).checkedAdd row.packs)
    return { scan with
      sums := scan.sums.insert row.explanationOperation total, returnHead := some row.operation }
  else return scan

/-- The associations add up to what the account says came back. -/
def settleRow (sums : Std.TreeMap HubRecordId WholePacks) (row : EffectiveCountExplanation) :
    Except CountReturnAssociationError (Std.TreeMap HubRecordId WholePacks) := do
  refuse (sums[row.original.operation]?.getD .zero ≠ row.establishedReturns) .invalidHistory
  return sums.erase row.original.operation

/-- The returned packs are added to those of the explanation. -/
def addReturn (explanation : HubRecordId) (packs : WholePacks) :
    List CountExplanationReturns → Except CountReturnAssociationError (List CountExplanationReturns)
  | [] => .error .invalidHistory
  | row :: rest =>
    if row.explanation = explanation then do
      let total ← mapErr (fun _ => .invalidFacts) (row.packs.checkedAdd packs)
      return { row with packs := total } :: rest
    else do
      let rest ← addReturn explanation packs rest
      return row :: rest

/-- The corrections of the population that the context shows. -/
def visibleCorrections (context : CountReturnAssociationContext) : Finset HubRecordId :=
  (context.account.operations ++ context.recipientHistory.map (fun row => row.stamp.operation) ++
    (context.associations.filter fun row =>
      row.explanationTrace = context.explanation.knownEvent.trace).map fun row =>
        row.operation).toFinset

/-- The departure as it is known through the count. -/
def interpretation (context : CountReturnAssociationContext) : ActualKnownInterpretation where
  stockRevision := context.stockRevision
  catalogRevision := context.catalog.revision
  latestRecordedAt := context.latestRecordedAt
  original := context.explanation.knownEvent
  recipientOriginal := context.recipientOriginal
  recipientHistory := context.recipientHistory
  quantities := []
  countExplanation := some ⟨context.explanation.count, context.account⟩

/-- The earlier returns, all of them, and what they leave for this one. -/
def checkHistory (command : CountReturnAssociationCommand)
    (context : CountReturnAssociationContext) :
    Except CountReturnAssociationError AssociationScan := do
  refuse (context.associations.length + context.normalReturns.length ≥ hubTraceCapacity) .capacity
  let returns ← context.normalReturns.foldlM (command.observeNormal context) ∅
  let scan ← context.associations.foldlM (command.observeAssociation context)
    ⟨∅, ∅, returns, 0, none⟩
  refuse (scan.returnHead ≠ command.expectedReturnsPrior) .staleRevision
  let sums ← context.account.effective.foldlM settleRow scan.sums
  refuse (sums.isEmpty = false) .invalidHistory
  auditProvenance context.associations context.normalReturns context.returned.identities.population
    context.explanation.knownEvent.trace
  return scan

/-- There is room for one more correction, and its operation is new. -/
def checkRoom (command : CountReturnAssociationCommand) (context : CountReturnAssociationContext)
    (operations : Finset HubRecordId) (operation : HubRecordId) :
    Except CountReturnAssociationError Unit := do
  let account := context.account
  refuse (context.priorTraceCorrectionRows < (visibleCorrections context).card ∨
    context.priorTraceCorrectionRows > hubCorrectionRows) .invalidHistory
  refuse (context.priorTraceCorrectionRows = hubCorrectionRows) .capacity
  refuse (¬ [operation, command.returnOperation, command.explanationOperation,
      account.original.operation].Nodup ∨ operation ∈ operations ∨
    operation ∈ account.operations) .invalidFacts

def plan (command : CountReturnAssociationCommand) (context : CountReturnAssociationContext)
    (operation : HubRecordId) (actor : PublicKey) (now : UnixTimestamp) :
    Except CountReturnAssociationError CountReturnAssociationPlan := do
  refuse (context.uncertainSubmissions = true) .uncertainSubmission
  refuse (command.expectedStockRevision ≠ context.stockRevision ∨
    command.expectedCatalogRevision ≠ context.catalog.revision) .staleRevision
  refuse (now < context.latestRecordedAt) .invalidFacts
  refuse (context.priorAssociationForReturn ≠ none) .alreadyAssociated
  let returned := context.returned
  let original := context.explanation
  let known := original.knownEvent
  let account := context.account
  refuse (returned.linkage.resolution = .establishedScope) .alreadyAssociated
  let source ← mapErr (fun _ => .invalidHistory)
    (CountExplanationSourceWitness.fromExplanation original)
  command.checkFacts context source
  checkClaim context
  mapErr (fun _ => .invalidFacts) (returned.intake.occurred.validate returned.intake.recordedAt)
  let timing := returnTiming known.occurred returned.intake.occurred
  refuse (timing = .contradictory) .contradictoryTiming
  refuse (account.head ≠ command.expectedAccountPrior) .staleRevision
  let _ ← mapErr (fun _ => .invalidHistory) (interpretation context).view
  context.auditDependencies (interpretation context) source operation
  let scan ← command.checkHistory context
  command.checkRoom context scan.operations operation
  let totals ← addReturn original.operation returned.intake.packs
    (account.effective.map fun row => ⟨row.original.operation, row.establishedReturns⟩)
  let after ← mapErr .accounting (CountLossQuantityAccount.restoreCorrected account.original
    account.explanations account.amendments totals)
  let id ← mapErr .accounting (countReturnAssociationId operation)
  let stockRevision ← mapErr (fun _ => .invalidHistory) context.stockRevision.next
  let explanationSourceDigest ← mapErr (fun _ => .invalidHistory) source.digest
  let association : CountReturnAssociation := {
    id, operation, hub := context.hub, stockRevision
    catalogRevision := context.catalog.revision, actor, recordedAt := now
    returnOperation := command.returnOperation, returnStockRevision := returned.stockRevision
    returned := returned.identities.returned
    returnedPopulation := returned.identities.population
    returnedGroup := returned.identities.group, explanationOperation := original.operation
    explanationStockRevision := known.stockRevision, explanationTrace := known.trace
    countOperation := account.original.operation
    countStockRevision := account.original.stockRevision
    anchorGroup := original.count.before.id, variant := known.variant.id
    packs := returned.intake.packs, returnOccurred := returned.intake.occurred
    explanationOccurred := known.occurred, timing
    returnOriginalDigest := context.returnOriginalDigest, explanationSourceDigest }
  association.validate
  return {
    command, association, returnedOriginal := returned, explanationOriginal := original, source
    recipientOriginal := context.recipientOriginal, recipientHistory := context.recipientHistory
    priorAssociations := context.associations, normalReturns := context.normalReturns
    priorTraceCorrectionRows := context.priorTraceCorrectionRows, before := account, after }

end

end CountReturnAssociationCommand

end HarvestCircle
