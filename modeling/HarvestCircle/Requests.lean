import HarvestCircle.Actuals
import HarvestCircle.Treatment

/-! # Requests

The commands of the hub that open counted stock, treat it, take it out, review reported
departures and correct what was recorded, as they arrive from a client.  A request names
records by their identities and the revisions it was made against; nothing in it is
evidence that they exist.
-/
namespace HarvestCircle
open Checked

/-! ## Opening stock, discrepancies, treatments, dispositions -/

/-- What counted opening stock will be known by. -/
structure OpeningIdentities where
  population : HubRecordId
  group : HubRecordId
  source : HubRecordId
  deriving DecidableEq, Repr

/-- Brings stock that was counted on hand into the records. -/
structure OpeningCommand where
  expectedStockRevision : HubRevision
  expectedCatalogRevision : HubRevision
  variant : HubRecordId
  location : HubRecordId
  packs : WholePacks
  identification : PhysicalIdentification
  source : SourceAttribution
  history : OpeningHistory
  counted : Occurrence
  observation : SourceProvenance
  deriving DecidableEq, Repr

/-- A discrepancy is opened about a trace or one of its groups, and resolved by its identity. -/
inductive DiscrepancyAction where
  | «open» (trace : HubRecordId) (group : Option HubRecordId) (observation : SourceProvenance)
  | resolve (discrepancy : HubRecordId) (expectedRevision : HubRevision)
      (resolution : SourceProvenance)
  deriving DecidableEq, Repr

structure DiscrepancyCommand where
  expectedStockRevision : HubRevision
  expectedCatalogRevision : HubRevision
  action : DiscrepancyAction
  deriving DecidableEq, Repr

/-- What is done to the groups of a selection, or to one hold. -/
inductive TreatmentAction where
  | setAcceptance (selection : TreatmentSelection) (status : AcceptanceStatus)
  | placeHold (selection : TreatmentSelection)
  | releaseHold (hold : HubRecordId) (expectedRevision : HubRevision)
  deriving DecidableEq

structure TreatmentCommand where
  expectedStockRevision : HubRevision
  expectedCatalogRevision : HubRevision
  action : TreatmentAction
  occurred : Occurrence
  observation : SourceProvenance
  deriving DecidableEq

/-- The operation and the record of stock taken out. -/
structure DispositionIdentities where
  operation : HubRecordId
  disposition : HubRecordId
  deriving DecidableEq, Repr

inductive DispositionKind where
  | destroyed
  | otherObservedRemoval
  deriving DecidableEq, Repr

/-- Takes packs out of one group without a departure. -/
structure DispositionCommand where
  expectedStockRevision : HubRevision
  expectedCatalogRevision : HubRevision
  group : HubRecordId
  expectedGroupRevision : HubRevision
  packs : WholePacks
  kind : DispositionKind
  occurred : Occurrence
  observation : SourceProvenance
  deriving DecidableEq, Repr

/-! ## Reported departures -/

/-- The review of a report that posts a departure of its own. -/
structure ActualNewDepartureCommand where
  facts : ActualReviewFacts
  sourceOperation : HubRecordId
  sourceGroup : HubRecordId
  duplicateReviewBasis : SourceProvenance
  deriving DecidableEq, Repr

/-- The review of a report that finds its departure already known. -/
structure ActualDuplicateLink where
  report : HubRecordId
  knownOperation : HubRecordId
  knownTrace : HubRecordId
  knownVariant : HubRecordId
  verification : SourceProvenance
  deriving DecidableEq, Repr

/-! ## Corrections -/

/-- The most allocations one found posting has. -/
def hubFoundAllocations : Nat := 64

inductive PhysicalCorrectionError where
  | unsupportedFamily
  | capacity
  | invalidHistory
  | invalidScope
  | invalidQuantity
  | duplicate
  | returnConflict
  | unresolvedReturnScope
  | staleRevision
  | uncertainSubmission
  | identityConflict
  | treatment
  deriving DecidableEq, Repr

/-- The group found stock becomes, one for each allocation of the operation. -/
def foundStockGroupId [Sha256] (operation : HubRecordId) (allocation : UInt8) :
    Except PhysicalCorrectionError HubRecordId := do
  refuse (allocation.toNat ≥ hubFoundAllocations) .capacity
  mapErr (fun _ => .identityConflict) (HubRecordId.derived
    (utf8 "harvestcircle.hub.correction.found.group.v1\x00" ++ operation.asBytes ++ [allocation]))

/-- One debit of stock: the operation that made it and the group it was made on. -/
structure PhysicalDebitKey where
  operation : HubRecordId
  group : HubRecordId
  deriving DecidableEq, Repr

/-- Packs found again, and the debit they are taken back from. -/
structure FoundStockInput where
  debit : PhysicalDebitKey
  packs : WholePacks
  location : HubRecordId
  identification : PhysicalIdentification
  cohortEvidence : SourceProvenance
  deriving DecidableEq, Repr

/-- Observes and posts found stock in one request. -/
structure FoundStockCommand where
  targetOperation : HubRecordId
  targetGroup : HubRecordId
  expectedStockRevision : HubRevision
  expectedCatalogRevision : HubRevision
  allocations : List FoundStockInput
  basis : SourceProvenance
  deriving DecidableEq, Repr

/-- Posts an observation that was recorded before. -/
structure FoundCorrectionCommand where
  observationOperation : HubRecordId
  expectedStockRevision : HubRevision
  expectedCatalogRevision : HubRevision
  deriving DecidableEq, Repr

inductive CorrectionObservationError where
  | capacity
  | invalidIdentity
  | invalidHistory
  deriving DecidableEq, Repr

/-- What a later look at recorded stock has shown. -/
inductive CorrectionObservedFacts where
  | found (targetOperation targetGroup : HubRecordId) (allocations : List FoundStockInput)
      (basis : SourceProvenance)
  | countClassification (explanationOperation : HubRecordId) (correctedPacks : WholePacks)
      (report : Option HubRecordId) (basis : SourceProvenance)
  deriving DecidableEq, Repr

/-- Records an observation, naming the one before it. -/
structure CorrectionObservationCommand where
  previous : Option HubRecordId
  facts : CorrectionObservedFacts
  deriving DecidableEq, Repr

/-- The number of found allocations is bounded; their content is not judged. -/
def CorrectionObservationCommand.validate (command : CorrectionObservationCommand) :
    Except CorrectionObservationError Unit :=
  match command.facts with
  | .found _ _ allocations _ =>
    refuse (allocations = [] ∨ allocations.length > hubFoundAllocations) .capacity
  | .countClassification .. => pure ()

/-- The facts a corrected line of a departure rests on, each with its evidence. -/
structure CorrectedLineFacts where
  report : HubRecordId
  targetOperation : HubRecordId
  targetGroup : HubRecordId
  expectedStockRevision : HubRevision
  expectedCatalogRevision : HubRevision
  expectedPrior : Option HubRecordId
  correctedLinePacks : WholePacks
  recipient : Option HubRecordId
  occurred : Occurrence
  sourceEvidence : SourceProvenance
  quantityEvidence : SourceProvenance
  recipientEvidence : SourceProvenance
  timingEvidence : SourceProvenance
  deriving DecidableEq, Repr

/-- More left than was recorded: the rest is taken from a balancing group. -/
structure AdditionalQuantityCommand where
  facts : CorrectedLineFacts
  sourceOperation : HubRecordId
  sourceGroup : HubRecordId
  balancingGroup : HubRecordId
  expectedBalancingRevision : HubRevision
  duplicateReviewBasis : SourceProvenance
  deriving DecidableEq, Repr

/-- The facts an explained shortage rests on, each with its evidence. -/
structure CountExplanationFacts where
  report : HubRecordId
  countReconciliation : HubRecordId
  expectedStockRevision : HubRevision
  expectedCatalogRevision : HubRevision
  expectedPrior : Option HubRecordId
  packs : WholePacks
  recipient : HubRecordId
  occurred : Occurrence
  sourceEvidence : SourceProvenance
  quantityEvidence : SourceProvenance
  recipientEvidence : SourceProvenance
  timingEvidence : SourceProvenance
  deriving DecidableEq, Repr

/-- Explains part of a counted shortage by an unrecorded departure. -/
structure CountExplanationCommand where
  facts : CountExplanationFacts
  sourceOperation : HubRecordId
  sourceGroup : HubRecordId
  deriving DecidableEq, Repr

/-- Posts an observation that reclassifies an explained shortage. -/
structure CountClassificationCommand where
  observationOperation : HubRecordId
  expectedStockRevision : HubRevision
  expectedCatalogRevision : HubRevision
  expectedAccountPrior : Option HubRecordId
  expectedPrior : Option HubRecordId
  deriving DecidableEq, Repr

/-- Says that a return belongs to an explained shortage. -/
structure CountReturnAssociationCommand where
  returnOperation : HubRecordId
  explanationOperation : HubRecordId
  expectedStockRevision : HubRevision
  expectedCatalogRevision : HubRevision
  expectedAccountPrior : Option HubRecordId
  expectedReturnsPrior : Option HubRecordId
  sourceOperation : HubRecordId
  sourceGroup : HubRecordId
  sourceEvidence : SourceProvenance
  quantityEvidence : SourceProvenance
  timingEvidence : SourceProvenance
  deriving DecidableEq, Repr

end HarvestCircle
