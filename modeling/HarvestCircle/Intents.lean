import HarvestCircle.Encoding
import HarvestCircle.Requests
import HarvestCircle.DispatchCommands
import HarvestCircle.Counts
import HarvestCircle.Returns
import HarvestCircle.WorkPlans
import HarvestCircle.AttributionHistory

/-! # What a command's fingerprint is taken of

A command is recognised by the digest of its intent: the hub and the account it is for,
the identities its effects will have, and every field.  Each kind of command writes these
in an order of its own, behind a purpose that names the kind and ends with a zero byte.

For each kind, `preimage` is the string that is hashed and `parses` says that it tells the
whole intent.  Two kinds hash a digest of another string in place of their own fields;
there the string tells the intent as far as that digest tells what it was taken of.
-/
namespace HarvestCircle
open Checked Codes

/-! ## Stock -/

def ReceiptCommand.preimage (command : ReceiptCommand) (hub : HubId) (actor : PublicKey)
    (ids : HubRecordId × HubRecordId) : List UInt8 :=
  let (trace, group) := ids
  [utf8 "harvestcircle.hub.receipt.command.v1\x00", hub.asBytes, actor.asBytes, trace.asBytes,
    group.asBytes, command.expectedStockRevision.toBeBytes,
    command.expectedCatalogRevision.toBeBytes, command.variant.asBytes,
    hashOptionalId command.supplier, hashOptionalId command.producer, command.packs.toBeBytes,
    command.receiving.asBytes, hashOptionalId command.plannedLocation, hashSource command.source,
    hashOccurrence command.occurred, hashText command.observation.text].flatten

theorem ReceiptCommand.parses : Parses (Intent.feed ReceiptCommand.preimage) Set.univ := by
  rintro ⟨_, _, ⟨_, _⟩, ⟨⟩⟩ - ⟨_, _, ⟨_, _⟩, ⟨⟩⟩ - r t he
  simp_all [Intent.feed, preimage]

def OpeningCommand.preimage (command : OpeningCommand) (hub : HubId) (actor : PublicKey)
    (identities : OpeningIdentities) : List UInt8 :=
  [utf8 "harvestcircle.hub.counted-opening.command.v1\x00", hub.asBytes, actor.asBytes,
    identities.population.asBytes, identities.group.asBytes, identities.source.asBytes,
    command.expectedStockRevision.toBeBytes, command.expectedCatalogRevision.toBeBytes,
    command.variant.asBytes, command.location.asBytes, command.packs.toBeBytes,
    hashText command.identification.label.text, hashText command.identification.observation.text,
    hashSource command.source, hashHistory command.history, hashOccurrence command.counted,
    hashText command.observation.text].flatten

theorem OpeningCommand.parses : Parses (Intent.feed OpeningCommand.preimage) Set.univ := by
  rintro ⟨_, _, ⟨⟩, ⟨_, _, _, _, _, ⟨⟩, _, _, _, _⟩⟩ - ⟨_, _, ⟨⟩, ⟨_, _, _, _, _, ⟨⟩, _, _, _, _⟩⟩ -
    r t he
  simp_all [Intent.feed, preimage]

/-! ## Handling -/

def MovementCommand.preimage (command : MovementCommand) (hub : HubId) (actor : PublicKey)
    (separatedGroupId : HubRecordId) : List UInt8 :=
  [utf8 "harvestcircle.hub.movement.command.v1\x00", hub.asBytes, actor.asBytes,
    separatedGroupId.asBytes, command.expectedStockRevision.toBeBytes,
    command.expectedCatalogRevision.toBeBytes, command.group.asBytes,
    command.expectedGroupRevision.toBeBytes, command.toLocation.asBytes, command.packs.toBeBytes,
    flagged 0 1 hashIdentification command.separatedPortion, hashOccurrence command.occurred,
    hashText command.observation.text].flatten

theorem MovementCommand.parses : Parses (Intent.feed MovementCommand.preimage) Set.univ := by
  rintro ⟨_, _, _, ⟨⟩⟩ - ⟨_, _, _, ⟨⟩⟩ - r t he
  simp_all [Intent.feed, preimage]

def SplitCommand.preimage (command : SplitCommand) (hub : HubId) (actor : PublicKey)
    (portionId : HubRecordId) : List UInt8 :=
  [utf8 "harvestcircle.hub.portion.split.command.v1\x00", hub.asBytes, actor.asBytes,
    portionId.asBytes, command.expectedStockRevision.toBeBytes,
    command.expectedCatalogRevision.toBeBytes, command.group.asBytes,
    command.expectedGroupRevision.toBeBytes, command.packs.toBeBytes,
    hashText command.identification.label.text, hashText command.identification.observation.text,
    hashOccurrence command.occurred, hashText command.observation.text].flatten

theorem SplitCommand.parses : Parses (Intent.feed SplitCommand.preimage) Set.univ := by
  rintro ⟨_, _, _, ⟨_, _, _, _, _, ⟨⟩, _, _⟩⟩ - ⟨_, _, _, ⟨_, _, _, _, _, ⟨⟩, _, _⟩⟩ - r t he
  simp_all [Intent.feed, preimage]

def AcceptanceStatus.tag : AcceptanceStatus → UInt8
  | .reviewRequired => 0
  | .accepted => 1
  | .rejected => 2

@[simp] theorem AcceptanceStatus.tag_inj {a b : AcceptanceStatus} : a.tag = b.tag ↔ a = b := by
  cases a <;> cases b <;> simp [tag]

/-- The number of selected groups and the groups. -/
def hashSelection (selection : TreatmentSelection) : List UInt8 :=
  counted (bigEndian 4) HubRecordId.asBytes selection.groups

variable {r t : List UInt8}

/-- A selection is told by its items, if they are few enough for their number to be written. -/
theorem parses_selection {S α : Type} {items : S → List α} {feed : α → List UInt8}
    (hfeed : Parses feed Set.univ) (hinj : Function.Injective items)
    (hfew : ∀ selection, (items selection).length < 256 ^ 4) :
    Parses (fun selection => counted (bigEndian 4) feed (items selection)) Set.univ :=
  ((parses_bigEndian 4).counted hfeed).comp hinj.injOn fun selection _ =>
    ⟨hfew selection, fun _ _ => trivial⟩

@[simp] theorem hashSelection_append_inj {a b : TreatmentSelection} :
    hashSelection a ++ r = hashSelection b ++ t ↔ a = b ∧ r = t :=
  (parses_selection HubRecordId.parses (fun a b h => by cases a; cases b; simpa using h)
    fun selection => Nat.lt_of_le_of_lt selection.length_le (by decide)).append_inj

def TreatmentAction.feed : TreatmentAction → List UInt8
  | .setAcceptance selection status => [[0], hashSelection selection, [status.tag]].flatten
  | .placeHold selection => [[1], hashSelection selection].flatten
  | .releaseHold hold expectedRevision =>
    [[2], hold.asBytes, expectedRevision.toBeBytes].flatten

@[simp] theorem TreatmentAction.feed_append_inj {a b : TreatmentAction} :
    a.feed ++ r = b.feed ++ t ↔ a = b ∧ r = t := by
  cases a <;> cases b <;> simp [feed, and_assoc]

def TreatmentCommand.preimage (command : TreatmentCommand) (hub : HubId) (actor : PublicKey)
    (record : HubRecordId) : List UInt8 :=
  [utf8 "harvestcircle.hub.treatment.command.v1\x00", hub.asBytes, actor.asBytes, record.asBytes,
    command.expectedStockRevision.toBeBytes, command.expectedCatalogRevision.toBeBytes,
    command.action.feed, hashOccurrence command.occurred,
    hashText command.observation.text].flatten

theorem TreatmentCommand.parses : Parses (Intent.feed TreatmentCommand.preimage) Set.univ := by
  rintro ⟨_, _, _, ⟨⟩⟩ - ⟨_, _, _, ⟨⟩⟩ - r t he
  simp_all [Intent.feed, preimage]

def ReplanCommand.preimage (command : ReplanCommand) (hub : HubId) (actor : PublicKey)
    (replacementId : HubRecordId) : List UInt8 :=
  [utf8 "harvestcircle.hub.replan.command.v1\x00", hub.asBytes, actor.asBytes,
    replacementId.asBytes, command.expectedStockRevision.toBeBytes,
    command.expectedCatalogRevision.toBeBytes, command.requirement.asBytes,
    command.expectedWorkRevision.toBeBytes, command.target.asBytes,
    hashText command.observation.text].flatten

theorem ReplanCommand.parses : Parses (Intent.feed ReplanCommand.preimage) Set.univ := by
  rintro ⟨_, _, _, ⟨⟩⟩ - ⟨_, _, _, ⟨⟩⟩ - r t he
  simp_all [Intent.feed, preimage]

def NewWorkCommand.preimage (command : NewWorkCommand) (hub : HubId) (actor : PublicKey)
    (requirementId : HubRecordId) : List UInt8 :=
  [utf8 "harvestcircle.hub.new-work.command.v1\x00", hub.asBytes, actor.asBytes,
    requirementId.asBytes, command.expectedStockRevision.toBeBytes,
    command.expectedCatalogRevision.toBeBytes,
    counted (bigEndian 8) HubRecordId.asBytes command.groups, command.target.asBytes,
    hashText command.observation.text].flatten

/-- The groups are a vector, whose length fits 64 bits. -/
theorem NewWorkCommand.parses :
    Parses (Intent.feed fun command :
      { command : NewWorkCommand // command.groups.length < 2 ^ 64 } =>
      command.1.preimage) Set.univ := by
  rintro ⟨_, _, _, ⟨⟨⟩, hlength⟩⟩ - ⟨_, _, _, ⟨⟨⟩, hlength'⟩⟩ - r t he
  simp only [Intent.feed, preimage, List.flatten_cons, List.flatten_nil, List.append_assoc,
    List.append_cancel_left_eq, HubId.asBytes_append_inj, PublicKey.asBytes_append_inj,
    HubRecordId.asBytes_append_inj, HubRevision.toBeBytes_append_inj] at he
  obtain ⟨rfl, rfl, rfl, rfl, rfl, he⟩ := he
  obtain ⟨hgroups, he⟩ := (parses_bigEndian 8).counted HubRecordId.parses
    ⟨hlength, fun _ _ => trivial⟩ ⟨hlength', fun _ _ => trivial⟩ he
  simp_all

def DiscrepancyAction.feed : DiscrepancyAction → List UInt8
  | .open trace group observation =>
    [[0], trace.asBytes, hashOptionalId group, hashText observation.text].flatten
  | .resolve discrepancy expectedRevision resolution =>
    [[1], discrepancy.asBytes, expectedRevision.toBeBytes, hashText resolution.text].flatten

@[simp] theorem DiscrepancyAction.feed_append_inj {a b : DiscrepancyAction} :
    a.feed ++ r = b.feed ++ t ↔ a = b ∧ r = t := by
  cases a <;> cases b <;> simp [feed, and_assoc]

def DiscrepancyCommand.preimage (command : DiscrepancyCommand) (hub : HubId) (actor : PublicKey)
    (openedId : HubRecordId) : List UInt8 :=
  [utf8 "harvestcircle.hub.discrepancy.command.v1\x00", hub.asBytes, actor.asBytes,
    openedId.asBytes, command.expectedStockRevision.toBeBytes,
    command.expectedCatalogRevision.toBeBytes, command.action.feed].flatten

theorem DiscrepancyCommand.parses : Parses (Intent.feed DiscrepancyCommand.preimage) Set.univ := by
  rintro ⟨_, _, _, ⟨⟩⟩ - ⟨_, _, _, ⟨⟩⟩ - r t he
  simp_all [Intent.feed, preimage]

/-! ## Dispatch, departure, disposition, return -/

/-- The word that tells the actions apart. -/
def DispatchAction.kind : DispatchAction → String
  | .prepare .. => "dispatch_prepare"
  | .revise .. => "dispatch_revise"
  | .issue .. => "dispatch_issue"
  | .replace .. => "dispatch_replace"
  | .markUnused .. => "dispatch_unused"

def DispatchLineInput.feed (line : DispatchLineInput) : List UInt8 :=
  [line.group.asBytes, line.expectedGroupRevision.toBeBytes, line.packs.toBeBytes].flatten

theorem DispatchLineInput.parses : Parses DispatchLineInput.feed Set.univ := by
  rintro ⟨⟩ - ⟨⟩ - r t he
  simp_all [feed]

/-- The number of selected lines and the lines. -/
def hashLines (selection : DispatchSelection) : List UInt8 :=
  counted (bigEndian 4) DispatchLineInput.feed selection.lines

@[simp] theorem hashLines_append_inj {a b : DispatchSelection} :
    hashLines a ++ r = hashLines b ++ t ↔ a = b ∧ r = t :=
  (parses_selection DispatchLineInput.parses (fun a b h => by cases a; cases b; simpa using h)
    fun selection => Nat.lt_of_le_of_lt selection.length_le (by decide)).append_inj

/-- The selection an action is about, after the recipient. -/
def DispatchAction.material : DispatchAction → List UInt8
  | .prepare recipient lines => recipient.asBytes ++ hashLines lines
  | .revise _ _ recipient lines => recipient.asBytes ++ hashLines lines
  | .replace _ _ recipient lines => recipient.asBytes ++ hashLines lines
  | .issue _ _ => []
  | .markUnused _ _ => []

def DispatchAction.feed (action : DispatchAction) : List UInt8 :=
  [hashText action.kind,
    action.target.elim [] fun target => target.1.asBytes ++ target.2.toBeBytes,
    action.material].flatten

@[simp] theorem DispatchAction.feed_append_inj {a b : DispatchAction} :
    a.feed ++ r = b.feed ++ t ↔ a = b ∧ r = t := by
  -- the kind tells which of the fields follow
  have hkind : ∀ action : DispatchAction, action.kind.utf8ByteSize < 2 ^ 64 := by
    intro action
    cases action <;> dsimp only [kind] <;> decide
  simp only [feed, List.flatten_cons, List.append_assoc,
    parses_hashText.inj_of_mem (hkind a) (hkind b)]
  cases a <;> cases b <;> simp [kind, target, material, and_assoc]

def DispatchCommand.preimage (command : DispatchCommand) (hub : HubId) (actor : PublicKey)
    (ids : DispatchIdentities) : List UInt8 :=
  [utf8 "harvestcircle.hub.dispatch.command.v1\x00", hub.asBytes, actor.asBytes,
    ids.operation.asBytes, ids.preparation.asBytes, ids.identification.asBytes,
    command.expectedStockRevision.toBeBytes, command.expectedCatalogRevision.toBeBytes,
    command.action.feed, hashText command.observation.text].flatten

theorem DispatchCommand.parses : Parses (Intent.feed DispatchCommand.preimage) Set.univ := by
  rintro ⟨_, _, ⟨⟩, ⟨⟩⟩ - ⟨_, _, ⟨⟩, ⟨⟩⟩ - r t he
  simp_all [Intent.feed, preimage]

def DepartureCommand.preimage (command : DepartureCommand) (hub : HubId) (actor : PublicKey)
    (ids : DepartureIdentities) : List UInt8 :=
  [utf8 "harvestcircle.hub.departure.command.v1\x00", hub.asBytes, actor.asBytes,
    ids.operation.asBytes, ids.departure.asBytes, command.expectedStockRevision.toBeBytes,
    command.expectedCatalogRevision.toBeBytes, command.preparation.asBytes,
    command.expectedPreparationRevision.toBeBytes, command.identification.asBytes,
    hashOccurrence command.occurred, hashText command.observation.text].flatten

theorem DepartureCommand.parses : Parses (Intent.feed DepartureCommand.preimage) Set.univ := by
  rintro ⟨_, _, ⟨⟩, ⟨⟩⟩ - ⟨_, _, ⟨⟩, ⟨⟩⟩ - r t he
  simp_all [Intent.feed, preimage]

def DispositionKind.tag : DispositionKind → UInt8
  | .destroyed => 1
  | .otherObservedRemoval => 2

@[simp] theorem DispositionKind.tag_inj {a b : DispositionKind} : a.tag = b.tag ↔ a = b := by
  cases a <;> cases b <;> simp [tag]

def DispositionCommand.preimage (command : DispositionCommand) (hub : HubId) (actor : PublicKey)
    (ids : DispositionIdentities) : List UInt8 :=
  [utf8 "harvestcircle.hub.disposition.command.v1\x00", hub.asBytes, actor.asBytes,
    ids.operation.asBytes, ids.disposition.asBytes, command.expectedStockRevision.toBeBytes,
    command.expectedCatalogRevision.toBeBytes, command.group.asBytes,
    command.expectedGroupRevision.toBeBytes, command.packs.toBeBytes, [command.kind.tag],
    hashOccurrence command.occurred, hashText command.observation.text].flatten

theorem DispositionCommand.parses : Parses (Intent.feed DispositionCommand.preimage) Set.univ := by
  rintro ⟨_, _, ⟨⟩, ⟨⟩⟩ - ⟨_, _, ⟨⟩, ⟨⟩⟩ - r t he
  simp_all [Intent.feed, preimage]

def ReturnDepartureClaim.feed (claim : ReturnDepartureClaim) : List UInt8 :=
  claim.departure.asBytes ++ hashOptionalId claim.group

theorem ReturnDepartureClaim.parses : Parses ReturnDepartureClaim.feed Set.univ := by
  rintro ⟨⟩ - ⟨⟩ - r t he
  simp_all [feed]

@[simp] theorem flaggedClaim_append_inj {a b : Option ReturnDepartureClaim} :
    flagged 0 1 ReturnDepartureClaim.feed a ++ r = flagged 0 1 ReturnDepartureClaim.feed b ++ t ↔
      a = b ∧ r = t :=
  (ReturnDepartureClaim.parses.flagged (by decide)).inj_of_mem (fun _ _ => trivial) fun _ _ =>
    trivial

def ReturnCommand.preimage (command : ReturnCommand) (hub : HubId) (actor : PublicKey)
    (ids : ReturnIdentities) : List UInt8 :=
  [utf8 "harvestcircle.hub.return.command.v1\x00", hub.asBytes, actor.asBytes,
    ids.operation.asBytes, ids.returned.asBytes, ids.population.asBytes, ids.group.asBytes,
    ids.source.asBytes, ids.requirement.asBytes, command.expectedStockRevision.toBeBytes,
    command.expectedCatalogRevision.toBeBytes, command.variant.asBytes, command.location.asBytes,
    command.packs.toBeBytes, hashOptionalId command.returnedBy,
    hashOptionalId command.plannedLocation, hashSource command.source,
    hashText command.identification.label.text, hashText command.identification.observation.text,
    flagged 0 1 ReturnDepartureClaim.feed command.departure, hashOccurrence command.occurred,
    hashText command.observation.text].flatten

theorem ReturnCommand.parses : Parses (Intent.feed ReturnCommand.preimage) Set.univ := by
  rintro ⟨_, _, ⟨⟩, ⟨_, _, _, _, _, _, _, ⟨⟩, _, _, _, _⟩⟩ -
    ⟨_, _, ⟨⟩, ⟨_, _, _, _, _, _, _, ⟨⟩, _, _, _, _⟩⟩ - r t he
  simp_all [Intent.feed, preimage]

/-! ## Counts and reported departures -/

def CountObserveCommand.preimage (command : CountObserveCommand) (hub : HubId) (actor : PublicKey)
    (operation : HubRecordId) : List UInt8 :=
  [utf8 "harvestcircle.hub.count.observe.command.v1\x00", hub.asBytes, actor.asBytes,
    operation.asBytes, command.expectedStockRevision.toBeBytes,
    command.expectedCatalogRevision.toBeBytes, command.group.asBytes,
    command.expectedGroupRevision.toBeBytes, command.countedPacks.toBeBytes,
    hashOccurrence command.cutoff, hashText command.observation.text].flatten

theorem CountObserveCommand.parses :
    Parses (Intent.feed CountObserveCommand.preimage) Set.univ := by
  rintro ⟨_, _, _, ⟨⟩⟩ - ⟨_, _, _, ⟨⟩⟩ - r t he
  simp_all [Intent.feed, preimage]

def CountPostCommand.preimage (command : CountPostCommand) (hub : HubId) (actor : PublicKey)
    (operation : HubRecordId) : List UInt8 :=
  [utf8 "harvestcircle.hub.count.post.command.v1\x00", hub.asBytes, actor.asBytes,
    operation.asBytes, command.expectedStockRevision.toBeBytes,
    command.expectedCatalogRevision.toBeBytes, command.count.asBytes,
    [if command.reviewedActivity then 1 else 0],
    flagged 0 1 hashIdentification command.surplusIdentification,
    hashText command.reason.text].flatten

theorem CountPostCommand.parses : Parses (Intent.feed CountPostCommand.preimage) Set.univ := by
  rintro ⟨_, _, _, ⟨_, _, _, reviewed, _, _⟩⟩ - ⟨_, _, _, ⟨_, _, _, reviewed', _, _⟩⟩ - r t he
  cases reviewed <;> cases reviewed' <;> simp_all [Intent.feed, preimage]

def ActualNewDepartureCommand.preimage (command : ActualNewDepartureCommand) (hub : HubId)
    (actor : PublicKey) (operation : HubRecordId) : List UInt8 :=
  let facts := command.facts
  [utf8 "harvestcircle.hub.actual.review.command.v1\x00", hub.asBytes, actor.asBytes,
    operation.asBytes, facts.report.asBytes, facts.group.asBytes, facts.recipient.asBytes,
    command.sourceOperation.asBytes, command.sourceGroup.asBytes,
    facts.expectedStockRevision.toBeBytes, facts.expectedCatalogRevision.toBeBytes,
    facts.expectedGroupRevision.toBeBytes, facts.packs.toBeBytes, hashOccurrence facts.occurred,
    hashText facts.sourceEvidence.text, hashText facts.quantityEvidence.text,
    hashText facts.recipientEvidence.text, hashText facts.timingEvidence.text,
    hashText command.duplicateReviewBasis.text].flatten

theorem ActualNewDepartureCommand.parses :
    Parses (Intent.feed ActualNewDepartureCommand.preimage) Set.univ := by
  rintro ⟨_, _, _, ⟨⟨⟩, _, _, _⟩⟩ - ⟨_, _, _, ⟨⟨⟩, _, _, _⟩⟩ - r t he
  simp_all [Intent.feed, preimage]

def ActualDuplicateLink.preimage (command : ActualDuplicateLink) (hub : HubId)
    (actor : PublicKey) (operation : HubRecordId) : List UInt8 :=
  [utf8 "harvestcircle.hub.actual.duplicate.link.command.v1\x00", hub.asBytes, actor.asBytes,
    operation.asBytes, command.report.asBytes, command.knownOperation.asBytes,
    command.knownTrace.asBytes, command.knownVariant.asBytes,
    hashText command.verification.text].flatten

theorem ActualDuplicateLink.parses :
    Parses (Intent.feed ActualDuplicateLink.preimage) Set.univ := by
  rintro ⟨_, _, _, ⟨⟩⟩ - ⟨_, _, _, ⟨⟩⟩ - r t he
  simp_all [Intent.feed, preimage]

/-! ## Corrections -/

/-- How every correction begins, each with its own purpose. -/
def header (purpose : String) (hub : HubId) (actor : PublicKey) (operation : HubRecordId)
    (stock catalog : HubRevision) : List UInt8 :=
  [utf8 purpose, hub.asBytes, actor.asBytes, operation.asBytes, stock.toBeBytes,
    catalog.toBeBytes].flatten

@[simp] theorem header_append_inj {purpose : String} {hub hub' : HubId} {actor actor' : PublicKey}
    {operation operation' : HubRecordId} {stock stock' catalog catalog' : HubRevision} :
    header purpose hub actor operation stock catalog ++ r =
        header purpose hub' actor' operation' stock' catalog' ++ t ↔
      hub = hub' ∧ actor = actor' ∧ operation = operation' ∧ stock = stock' ∧ catalog = catalog' ∧
        r = t := by
  simp [header]

def CountReturnAssociationCommand.preimage (command : CountReturnAssociationCommand) (hub : HubId)
    (actor : PublicKey) (operation : HubRecordId) : List UInt8 :=
  [header "harvestcircle.hub.count-return.association.command.v1\x00" hub actor operation
      command.expectedStockRevision command.expectedCatalogRevision,
    command.returnOperation.asBytes, command.explanationOperation.asBytes,
    command.sourceOperation.asBytes, command.sourceGroup.asBytes,
    hashOptionalId command.expectedAccountPrior, hashOptionalId command.expectedReturnsPrior,
    hashText command.sourceEvidence.text, hashText command.quantityEvidence.text,
    hashText command.timingEvidence.text].flatten

theorem CountReturnAssociationCommand.parses :
    Parses (Intent.feed CountReturnAssociationCommand.preimage) Set.univ := by
  rintro ⟨_, _, _, ⟨⟩⟩ - ⟨_, _, _, ⟨⟩⟩ - r t he
  simp_all [Intent.feed, preimage]

def FoundCorrectionCommand.preimage (command : FoundCorrectionCommand) (hub : HubId)
    (actor : PublicKey) (operation : HubRecordId) : List UInt8 :=
  [header "harvestcircle.hub.correction.found.recorded.command.v1\x00" hub actor operation
      command.expectedStockRevision command.expectedCatalogRevision,
    command.observationOperation.asBytes].flatten

theorem FoundCorrectionCommand.parses :
    Parses (Intent.feed FoundCorrectionCommand.preimage) Set.univ := by
  rintro ⟨_, _, _, ⟨⟩⟩ - ⟨_, _, _, ⟨⟩⟩ - r t he
  simp_all [Intent.feed, preimage]

def SourceAttributionCommand.preimage (command : SourceAttributionCommand) (hub : HubId)
    (actor : PublicKey) (operation : HubRecordId) : List UInt8 :=
  [header "harvestcircle.hub.correction.source.command.v1\x00" hub actor operation
      command.expectedStockRevision command.expectedCatalogRevision,
    command.trace.asBytes, hashOptionalId command.expectedPrior, hashSource command.source,
    hashText command.basis.text].flatten

theorem SourceAttributionCommand.parses :
    Parses (Intent.feed SourceAttributionCommand.preimage) Set.univ := by
  rintro ⟨_, _, _, ⟨⟩⟩ - ⟨_, _, _, ⟨⟩⟩ - r t he
  simp_all [Intent.feed, preimage]

def RecipientAttributionCommand.preimage (command : RecipientAttributionCommand) (hub : HubId)
    (actor : PublicKey) (operation : HubRecordId) : List UInt8 :=
  [header "harvestcircle.hub.correction.recipient.command.v1\x00" hub actor operation
      command.expectedStockRevision command.expectedCatalogRevision,
    command.departureOperation.asBytes, hashOptionalId command.expectedPrior,
    hashOptionalId command.recipient, hashText command.basis.text].flatten

theorem RecipientAttributionCommand.parses :
    Parses (Intent.feed RecipientAttributionCommand.preimage) Set.univ := by
  rintro ⟨_, _, _, ⟨⟩⟩ - ⟨_, _, _, ⟨⟩⟩ - r t he
  simp_all [Intent.feed, preimage]

def CorrectionImpact.feed : CorrectionImpact → List UInt8
  | .population id => [[1], id.asBytes].flatten
  | .source id => [[2], id.asBytes].flatten
  | .departure id => [[3], id.asBytes].flatten
  | .issuedVersion id => [[4], id.asBytes].flatten
  | .recipient id => [[5], id.asBytes].flatten
  | .unresolvedSource id => [[6], id.asBytes].flatten
  | .unresolvedRecipient id => [[7], id.asBytes].flatten

@[simp] theorem CorrectionImpact.feed_append_inj {a b : CorrectionImpact} :
    a.feed ++ r = b.feed ++ t ↔ a = b ∧ r = t := by
  cases a <;> cases b <;> simp [feed]

def CorrectionManualWork.tag : CorrectionManualWork → UInt8
  | .outstanding => 0
  | .workRecorded => 1

@[simp] theorem CorrectionManualWork.tag_inj {a b : CorrectionManualWork} :
    a.tag = b.tag ↔ a = b := by
  cases a <;> cases b <;> simp [tag]

def CorrectionFollowUpCommand.preimage (command : CorrectionFollowUpCommand) (hub : HubId)
    (actor : PublicKey) (operation : HubRecordId) : List UInt8 :=
  [header "harvestcircle.hub.correction.follow_up.command.v1\x00" hub actor operation
      command.expectedStockRevision command.expectedCatalogRevision,
    command.correction.asBytes, command.target.feed, hashOptionalId command.expectedPrior,
    [command.state.tag], hashText command.basis.text].flatten

theorem CorrectionFollowUpCommand.parses :
    Parses (Intent.feed CorrectionFollowUpCommand.preimage) Set.univ := by
  rintro ⟨_, _, _, ⟨⟩⟩ - ⟨_, _, _, ⟨⟩⟩ - r t he
  simp_all [Intent.feed, preimage]

def AdditionalQuantityCommand.preimage (command : AdditionalQuantityCommand) (hub : HubId)
    (actor : PublicKey) (operation : HubRecordId) : List UInt8 :=
  let facts := command.facts
  [header "harvestcircle.hub.correction.additional.command.v2\x00" hub actor operation
      facts.expectedStockRevision facts.expectedCatalogRevision,
    facts.report.asBytes, facts.targetOperation.asBytes, facts.targetGroup.asBytes,
    hashOptionalId facts.expectedPrior, facts.correctedLinePacks.toBeBytes,
    hashOptionalId facts.recipient, hashOccurrence facts.occurred,
    hashText facts.sourceEvidence.text, hashText facts.quantityEvidence.text,
    hashText facts.recipientEvidence.text, hashText facts.timingEvidence.text,
    command.sourceOperation.asBytes, command.sourceGroup.asBytes, command.balancingGroup.asBytes,
    command.expectedBalancingRevision.toBeBytes,
    hashText command.duplicateReviewBasis.text].flatten

theorem AdditionalQuantityCommand.parses :
    Parses (Intent.feed AdditionalQuantityCommand.preimage) Set.univ := by
  rintro ⟨_, _, _, ⟨⟨⟩, _, _, _, _, _⟩⟩ - ⟨_, _, _, ⟨⟨⟩, _, _, _, _, _⟩⟩ - r t he
  simp_all [Intent.feed, preimage]

def CountClassificationCommand.preimage (command : CountClassificationCommand) (hub : HubId)
    (actor : PublicKey) (operation : HubRecordId) : List UInt8 :=
  [header "harvestcircle.hub.correction.count_classify.recorded.command.v1\x00" hub actor operation
      command.expectedStockRevision command.expectedCatalogRevision,
    command.observationOperation.asBytes, hashOptionalId command.expectedAccountPrior,
    hashOptionalId command.expectedPrior].flatten

theorem CountClassificationCommand.parses :
    Parses (Intent.feed CountClassificationCommand.preimage) Set.univ := by
  rintro ⟨_, _, _, ⟨⟩⟩ - ⟨_, _, _, ⟨⟩⟩ - r t he
  simp_all [Intent.feed, preimage]

/-! ## Observations -/

def FoundStockInput.feed (allocation : FoundStockInput) : List UInt8 :=
  [allocation.debit.operation.asBytes, allocation.debit.group.asBytes, allocation.packs.toBeBytes,
    allocation.location.asBytes, hashText allocation.identification.label.text,
    hashText allocation.identification.observation.text,
    hashText allocation.cohortEvidence.text].flatten

theorem FoundStockInput.parses : Parses FoundStockInput.feed Set.univ := by
  rintro ⟨⟨⟩, _, _, ⟨⟩, _⟩ - ⟨⟨⟩, _, _, ⟨⟩, _⟩ - r t he
  simp_all [feed]

def CorrectionObservedFacts.feed : CorrectionObservedFacts → List UInt8
  | .found targetOperation targetGroup allocations basis =>
    [utf8 "found\x00", targetOperation.asBytes, targetGroup.asBytes,
      counted (bigEndian 4) FoundStockInput.feed allocations, hashText basis.text].flatten
  | .countClassification explanationOperation correctedPacks report basis =>
    [utf8 "count_classification\x00", explanationOperation.asBytes, correctedPacks.toBeBytes,
      hashOptionalId report, hashText basis.text].flatten

def CorrectionObservationCommand.preimage (command : CorrectionObservationCommand) (hub : HubId)
    (actor : PublicKey) (operation : HubRecordId) : List UInt8 :=
  [utf8 "harvestcircle.hub.correction.observation.command.v1\x00", hub.asBytes, actor.asBytes,
    operation.asBytes, hashOptionalId command.previous, command.facts.feed].flatten

/-- The allocations of an observation are few enough for their number to be written. -/
def CorrectionObservedFacts.Bounded : CorrectionObservedFacts → Prop
  | .found _ _ allocations _ => allocations.length ≤ hubFoundAllocations
  | .countClassification .. => True

theorem CorrectionObservedFacts.parses :
    Parses CorrectionObservedFacts.feed { facts | facts.Bounded } := by
  have hfound : Terminated 0 (utf8 "found\x00") := by decide
  have hclassification : Terminated 0 (utf8 "count_classification\x00") := by decide
  have hallocations : Parses (counted (bigEndian 4) FoundStockInput.feed) _ :=
    (parses_bigEndian 4).counted FoundStockInput.parses
  have hfits : ∀ {allocations : List FoundStockInput}, allocations.length ≤ hubFoundAllocations →
      allocations.length < 256 ^ 4 := fun h => Nat.lt_of_le_of_lt h (by decide)
  rintro (⟨operation, group, allocations, basis⟩ | _) ha
    (⟨operation', group', allocations', basis'⟩ | _) hb r t he
  · simp only [feed, List.flatten_cons, List.flatten_nil, List.append_assoc,
      List.append_cancel_left_eq, HubRecordId.asBytes_append_inj] at he
    obtain ⟨rfl, rfl, he⟩ := he
    obtain ⟨rfl, he'⟩ :=
      hallocations ⟨hfits ha, fun _ _ => trivial⟩ ⟨hfits hb, fun _ _ => trivial⟩ he
    simp_all
  · simp [feed, purpose_inj hfound hclassification] at he
  · simp [feed, purpose_inj hclassification hfound] at he
  · simp_all [feed]

theorem CorrectionObservationCommand.parses :
    Parses (Intent.feed CorrectionObservationCommand.preimage)
      { intent | intent.command.facts.Bounded } := by
  rintro ⟨hub, actor, operation, ⟨previous, facts⟩⟩ ha
    ⟨hub', actor', operation', ⟨previous', facts'⟩⟩
    hb r t he
  simp only [Intent.feed, preimage, List.flatten_cons, List.flatten_nil, List.append_assoc,
    List.append_cancel_left_eq, HubId.asBytes_append_inj, PublicKey.asBytes_append_inj,
    HubRecordId.asBytes_append_inj, hashOptionalId_append_inj, List.nil_append] at he
  obtain ⟨rfl, rfl, rfl, rfl, he⟩ := he
  obtain ⟨hfacts, hrest⟩ : facts = facts' ∧ r = t := CorrectionObservedFacts.parses ha hb he
  exact ⟨by rw [hfacts], hrest⟩

/-! ## Commands that hash a digest -/

def CountExplanationFacts.preimage (facts : CountExplanationFacts) (hub : HubId)
    (actor : PublicKey) (operation : HubRecordId) : List UInt8 :=
  [header "harvestcircle.hub.correction.count_explain.command.v1\x00" hub actor operation
      facts.expectedStockRevision facts.expectedCatalogRevision,
    facts.report.asBytes, facts.countReconciliation.asBytes, hashOptionalId facts.expectedPrior,
    facts.packs.toBeBytes, facts.recipient.asBytes, hashOccurrence facts.occurred,
    hashText facts.sourceEvidence.text, hashText facts.quantityEvidence.text,
    hashText facts.recipientEvidence.text, hashText facts.timingEvidence.text].flatten

theorem CountExplanationFacts.parses :
    Parses (Intent.feed CountExplanationFacts.preimage) Set.univ := by
  rintro ⟨_, _, _, ⟨⟩⟩ - ⟨_, _, _, ⟨⟩⟩ - r t he
  simp_all [Intent.feed, preimage]

/-- The observation that a request to post found stock stands for. -/
def FoundStockCommand.observed (command : FoundStockCommand) : CorrectionObservationCommand where
  previous := none
  facts := .found command.targetOperation command.targetGroup command.allocations command.basis

variable [Sha256]

/-- The facts stand in it by their digest only. -/
def CountExplanationCommand.preimage (command : CountExplanationCommand) (hub : HubId)
    (actor : PublicKey) (operation : HubRecordId) : List UInt8 :=
  [utf8 "harvestcircle.hub.correction.count_explain.command.v2\x00",
    digestBytes (Sha256.digest (command.facts.preimage hub actor operation)),
    command.sourceOperation.asBytes, command.sourceGroup.asBytes].flatten

/-- The observation stands in it by its digest only. -/
def FoundStockCommand.preimage (command : FoundStockCommand) (hub : HubId) (actor : PublicKey)
    (operation : HubRecordId) : List UInt8 :=
  [header "harvestcircle.hub.correction.found.command.v1\x00" hub actor operation
      command.expectedStockRevision command.expectedCatalogRevision,
    digestBytes (Sha256.digest (command.observed.preimage hub actor operation))].flatten

variable {hashed : Set (List UInt8)} (hfree : Set.InjOn Sha256.digest hashed)
include hfree

theorem CountExplanationCommand.parses : Parses (Intent.feed CountExplanationCommand.preimage)
    { intent | intent.feed (fun command => command.facts.preimage) ∈ hashed } := by
  rintro ⟨hub, actor, operation, ⟨facts, _, _⟩⟩ ha ⟨hub', actor', operation', ⟨facts', _, _⟩⟩ hb r t
    he
  simp only [Intent.feed, preimage, List.flatten_cons, List.flatten_nil, List.append_assoc,
    List.append_cancel_left_eq, digestBytes_append_inj, HubRecordId.asBytes_append_inj,
    List.nil_append] at he
  obtain ⟨hdigest, rfl, rfl, rfl⟩ := he
  have hintent : (⟨hub, actor, operation, facts⟩ : Intent HubRecordId CountExplanationFacts) =
      ⟨hub', actor', operation', facts'⟩ :=
    CountExplanationFacts.parses.injOn trivial trivial (hfree ha hb hdigest)
  cases hintent
  exact ⟨rfl, rfl⟩

theorem FoundStockCommand.parses : Parses (Intent.feed FoundStockCommand.preimage)
    { intent | intent.command.allocations.length ≤ hubFoundAllocations ∧
      intent.feed (fun command => command.observed.preimage) ∈ hashed } := by
  rintro ⟨hub, actor, operation, command⟩ ⟨halength, ha⟩ ⟨hub', actor', operation', command'⟩
    ⟨hblength, hb⟩ r t he
  simp only [Intent.feed, preimage, List.flatten_cons, List.flatten_nil, List.append_assoc,
    header_append_inj, digestBytes_append_inj, List.nil_append] at he
  obtain ⟨rfl, rfl, rfl, hstock, hcatalog, hdigest, rfl⟩ := he
  have hintent : (⟨hub, actor, operation, command.observed⟩ :
      Intent HubRecordId CorrectionObservationCommand) =
        ⟨hub, actor, operation, command'.observed⟩ :=
    CorrectionObservationCommand.parses.injOn halength hblength (hfree ha hb hdigest)
  cases command
  cases command'
  simp_all [observed]

end HarvestCircle
