import HarvestCircle.HistoricalSources
import HarvestCircle.KnownDepartures
import HarvestCircle.Registers

/-! # The inventory of known departures

Before a reported departure is posted as a new one, it is held against everything that is
known to have left.  A known departure comes with its interpretation: its original, its
corrections, and the count it explains, if that is how it became known.  `view` checks one
interpretation and says who may have received the packs and how many they were.

`validateInventory` checks all of them together.  Many departures can explain one count,
and the count's account is long; so it is checked in full once, with the first departure
that explains it, and a shorter check is made of the others (`CountInventoryProof.view`).
-/
namespace HarvestCircle
open Checked

/-- A count that came up short, with what explains it. -/
structure ActualKnownCountExplanation where
  count : CountPostPlan
  account : CountLossQuantityAccount
  deriving DecidableEq

/-- A departure with all that corrects it. -/
structure ActualKnownInterpretation where
  stockRevision : HubRevision
  catalogRevision : HubRevision
  latestRecordedAt : UnixTimestamp
  original : ActualKnownDeparture
  recipientOriginal : OriginalRecipientAttribution
  recipientHistory : List RecipientAttributionCorrection
  quantities : List DepartureQuantityAccount
  countExplanation : Option ActualKnownCountExplanation
  deriving DecidableEq

/-- What a departure comes to now. -/
structure ActualKnownInterpretationView where
  recipients : KnownRecipients
  originalPacks : WholePacks
  effectivePacks : WholePacks
  deriving DecidableEq

/-! ## Operations and their revisions -/

/-- Which operation took a revision, and which revision an operation took. -/
structure RevisionRegister where
  owners : Std.TreeMap Nat HubRecordId
  revisions : Std.TreeMap HubRecordId Nat

namespace RevisionRegister

def empty : RevisionRegister := ⟨∅, ∅⟩

/-- One revision has one operation and one operation one revision. -/
def observe (register : RevisionRegister) (operation : HubRecordId) (revision : HubRevision) :
    Except ActualReportError RevisionRegister := do
  let owners ← Registers.enter register.owners revision.value operation .invalidHistory
  let revisions ← Registers.enter register.revisions operation revision.value .invalidHistory
  return { owners, revisions }

end RevisionRegister

def ActualKnownCountExplanation.operations (value : ActualKnownCountExplanation)
    (own : HubRecordId) : List (HubRecordId × HubRevision) :=
  (value.count.operation, value.count.stockRevision) ::
  (value.count.count.operation, value.count.count.recordedRevision) ::
  (((value.account.explanations.filter fun row => row.operation ≠ own).map
      fun row => (row.operation, row.stockRevision)) ++
    value.account.amendments.map fun row => (row.operation, row.stockRevision))

namespace ActualKnownInterpretation

/-- Every operation the interpretation rests on. -/
def operations (record : ActualKnownInterpretation) : List (HubRecordId × HubRevision) :=
  (record.original.operation, record.original.stockRevision) ::
  (record.recipientHistory.map (fun r => (r.stamp.operation, r.stamp.stockRevision)) ++
    record.quantities.flatMap (fun line =>
      line.amendments.map fun r => (r.operation, r.stockRevision)) ++
    (record.countExplanation.map fun value => value.operations record.original.operation).getD [])

/-- The corrections and explanations there are. -/
def rows (record : ActualKnownInterpretation) : Nat :=
  record.recipientHistory.length + (record.quantities.map fun line => line.amendments.length).sum +
    (record.countExplanation.map fun value =>
      value.account.explanations.length + value.account.amendments.length).getD 0

/-- What the quantities are checked against: a counted explanation has no lines of its own. -/
def knownQuantity (record : ActualKnownInterpretation) :
    Except ActualReportError KnownCorrectionQuantity :=
  match record.countExplanation with
  | none => .ok (.physical record.quantities)
  | some value => do
    refuse (record.quantities ≠ []) .invalidHistory
    return .countExplanation value.count value.account

def known (record : ActualKnownInterpretation) (quantity : KnownCorrectionQuantity) :
    CorrectionKnownDeparture :=
  ⟨record.original, record.recipientOriginal, record.recipientHistory, quantity⟩

def effectivePacks (record : ActualKnownInterpretation) : Except ActualReportError WholePacks :=
  match record.countExplanation with
  | some value => do
    let row ← okOr (CorrectionKnownDeparture.explained value.account record.original.operation)
      .invalidHistory
    return row.packs
  | none =>
    record.quantities.foldlM (fun total line =>
      mapErr (fun _ => .invalidHistory) (total.checkedAdd line.effective)) WholePacks.zero

/-- No operation comes twice. -/
def observeOperation (seen : Finset HubRecordId × RevisionRegister)
    (operation : HubRecordId × HubRevision) :
    Except ActualReportError (Finset HubRecordId × RevisionRegister) := do
  refuse (operation.1 ∈ seen.1) .invalidHistory
  let register ← seen.2.observe operation.1 operation.2
  return (insert operation.1 seen.1, register)

/-- Who may have received the packs and how many they were. -/
def view [Sha256] (record : ActualKnownInterpretation) :
    Except ActualReportError ActualKnownInterpretationView := do
  refuse (record.original.lines.length > hubDispatchLines ∨
    record.quantities.length > hubDispatchLines ∨
    record.recipientHistory.length > hubCorrectionRows) .capacity
  refuse (record.rows > hubCorrectionRows) .capacity
  let quantity ← record.knownQuantity
  let recipients ← mapErr (fun _ => .invalidHistory)
    ((record.known quantity).associationsThrough record.original.hub record.stockRevision
      record.catalogRevision record.latestRecordedAt)
  let _ ← record.operations.foldlM observeOperation (∅, .empty)
  let effectivePacks ← record.effectivePacks
  let originalPacks ← record.original.packs
  return { recipients, originalPacks, effectivePacks }

end ActualKnownInterpretation

/-! ## All of them together -/

/-- Everything known at one cut. -/
structure ActualKnownInterpretations where
  hub : HubId
  stockRevision : HubRevision
  catalogRevision : HubRevision
  latestRecordedAt : UnixTimestamp
  records : List ActualKnownInterpretation
  deriving DecidableEq

inductive OperationKind where
  | original
  | recipient
  | quantity
  | count
  | amendment
  | explanation
  | observation
  deriving DecidableEq, Repr

/-- What an operation did, for which departure or count, and to which part of it. -/
structure OperationRole where
  kind : OperationKind
  owner : HubRecordId
  part : Option HubRecordId
  deriving DecidableEq, Repr

/-- An operation and its one role. -/
structure OperationRow where
  id : HubRecordId
  revision : HubRevision
  role : OperationRole
  deriving DecidableEq, Repr

/-- The operations of a count and its account. -/
def ActualKnownCountExplanation.rows (value : ActualKnownCountExplanation) : List OperationRow :=
  ⟨value.count.operation, value.count.stockRevision, ⟨.count, value.count.operation, none⟩⟩ ::
  ⟨value.count.count.operation, value.count.count.recordedRevision,
    ⟨.observation, value.count.operation, none⟩⟩ ::
  (value.account.explanations.map (fun row => ⟨row.operation, row.stockRevision,
      ⟨.explanation, value.count.operation, none⟩⟩) ++
    value.account.amendments.map fun row => ⟨row.operation, row.stockRevision,
      ⟨.amendment, value.count.operation, some row.explanation⟩⟩)

namespace ActualKnownInterpretation

/-- The corrections of the departure itself. -/
def ownRows (record : ActualKnownInterpretation) : List OperationRow :=
  record.recipientHistory.map (fun r => ⟨r.stamp.operation, r.stamp.stockRevision,
    ⟨.recipient, record.original.operation, none⟩⟩) ++
  record.quantities.flatMap fun line => line.amendments.map fun r => ⟨r.operation, r.stockRevision,
    ⟨.quantity, record.original.operation, some line.original.group⟩⟩

def countRows (record : ActualKnownInterpretation) : List OperationRow :=
  (record.countExplanation.map ActualKnownCountExplanation.rows).getD []

def originalRole (record : ActualKnownInterpretation) : OperationRole :=
  match record.countExplanation with
  | none => ⟨.original, record.original.operation, none⟩
  | some value => ⟨.explanation, value.count.operation, none⟩

def key (record : ActualKnownInterpretation) : HubRecordId × HubRecordId × HubRecordId :=
  (record.original.operation, record.original.trace, record.original.variant.id)

/-- The parts of one event agree on it. -/
def SameEvent (a b : ActualKnownInterpretation) : Prop :=
  a.recipientOriginal = b.recipientOriginal ∧ a.recipientHistory = b.recipientHistory ∧
  a.original.actor = b.original.actor ∧ a.original.hub = b.original.hub ∧
  a.original.stockRevision = b.original.stockRevision ∧
  a.original.catalogRevision = b.original.catalogRevision ∧
  a.original.recordedAt = b.original.recordedAt ∧ a.original.occurred = b.original.occurred

instance : DecidableRel SameEvent := fun _ _ => inferInstanceAs (Decidable (_ ∧ _))

end ActualKnownInterpretation

/-- A count whose account was checked with the first departure that explains it. -/
structure CountInventoryProof where
  snapshot : ActualKnownCountExplanation
  effective : Std.TreeMap HubRecordId EffectiveCountExplanation
  rows : Nat

namespace CountInventoryProof

def new (snapshot : ActualKnownCountExplanation) : CountInventoryProof where
  snapshot
  effective := snapshot.account.effective.foldl
    (fun effective row => effective.insert row.original.operation row) ∅
  rows := snapshot.account.explanations.length + snapshot.account.amendments.length

/-- What is still to be checked of a later departure that explains the count. -/
def view (proof : CountInventoryProof) (record : ActualKnownInterpretation) :
    Except ActualReportError ActualKnownInterpretationView := do
  let original := record.original
  refuse (original.lines.length > hubDispatchLines ∨ record.quantities.length > hubDispatchLines ∨
    record.recipientHistory.length + proof.rows > hubCorrectionRows) .capacity
  let count := proof.snapshot.count
  let account := proof.snapshot.account
  let loss := account.original
  let row ← okOr proof.effective[original.operation]? .invalidHistory
  refuse (record.quantities ≠ [] ∨ record.recipientOriginal.family ≠ .explainedCountLoss ∨
    original.trace ≠ loss.trace ∨ original.variant.id ≠ loss.variant ∨
    original.stockRevision ≠ row.original.stockRevision ∨
    original.lines.map (fun line => (line.group, line.packs)) ≠
      [(count.before.id, row.original.packs)] ∨
    original.recordedAt < count.recordedAt ∨
    original.catalogRevision.value < count.catalogRevision.value) .invalidHistory
  let recipients ← mapErr (fun _ => .invalidHistory)
    ((record.known (.countExplanation count account)).recipientAssociationsThrough original.hub
      record.stockRevision record.catalogRevision record.latestRecordedAt)
  let originalPacks ← original.packs
  return { recipients, originalPacks, effectivePacks := row.packs }

end CountInventoryProof

/-- The operations met so far, with their roles, and those among them that are corrections. -/
structure OperationRegister where
  revisions : RevisionRegister
  roles : Std.TreeMap HubRecordId OperationRole
  changes : Finset HubRecordId

/-- The report under review, its revision, and the operation that is to be planned. -/
abbrev ProtectedOperations := Option (HubRecordId × HubRevision × HubRecordId)

/-- The operation is one the inventory must not contain. -/
def Protects (protects : ProtectedOperations) (id : HubRecordId) : Prop :=
  ∃ p ∈ protects, id = p.1 ∨ id = p.2.2

instance (protects : ProtectedOperations) : DecidablePred (Protects protects) :=
  fun _ => inferInstanceAs (Decidable (∃ p ∈ protects, _))

/-- A correction, as opposed to a count or its observation. -/
def OperationRole.IsChange (role : OperationRole) : Prop :=
  role.kind ≠ .count ∧ role.kind ≠ .observation

instance : DecidablePred OperationRole.IsChange := fun _ => inferInstanceAs (Decidable (_ ∧ _))

namespace OperationRegister

/-- The originals are entered first, each with the role it has as a record. -/
def enterOriginal (protects : ProtectedOperations) (register : OperationRegister)
    (record : ActualKnownInterpretation) : Except ActualReportError OperationRegister := do
  let original := record.original
  refuse (Protects protects original.operation) .invalidIdentity
  let revisions ← register.revisions.observe original.operation original.stockRevision
  return { register with
    revisions, roles := register.roles.insert original.operation record.originalRole }

/-- An operation has one revision and one role. -/
def enter (protects : ProtectedOperations) (register : OperationRegister) (row : OperationRow) :
    Except ActualReportError OperationRegister := do
  refuse (Protects protects row.id) .invalidIdentity
  let revisions ← register.revisions.observe row.id row.revision
  let roles ← Registers.enter register.roles row.id row.role .invalidHistory
  let changes := if row.role.IsChange then insert row.id register.changes else register.changes
  refuse (changes.card > hubCorrectionRows) .capacity
  return { revisions, roles, changes }

end OperationRegister

/-- What the loop over the records keeps. -/
structure InventoryScan where
  keys : Finset (HubRecordId × HubRecordId × HubRecordId)
  events : Std.TreeMap HubRecordId ActualKnownInterpretation
  groups : Finset (HubRecordId × HubRecordId)
  counts : Std.TreeMap HubRecordId CountInventoryProof
  register : OperationRegister
  views : List ActualKnownInterpretationView

namespace InventoryScan

/-- The groups of a departure, each of them once in all. -/
def enterLine (operation : HubRecordId) (groups : Finset (HubRecordId × HubRecordId))
    (line : ActualKnownDepartureLine) :
    Except ActualReportError (Finset (HubRecordId × HubRecordId)) := do
  refuse ((operation, line.group) ∈ groups) .invalidHistory
  return insert (operation, line.group) groups

section
variable [Sha256]

/-- The view of a record, and the count to be entered if it is the first to explain it. -/
def viewRecord (counts : Std.TreeMap HubRecordId CountInventoryProof)
    (record : ActualKnownInterpretation) :
    Except ActualReportError (ActualKnownInterpretationView × Option ActualKnownCountExplanation) :=
  match record.countExplanation with
  | none => do
    let view ← record.view
    return (view, none)
  | some value =>
    match counts[value.count.operation]? with
    | none => do
      let view ← record.view
      return (view, some value)
    | some proof => do
      refuse (proof.snapshot ≠ value) .invalidHistory
      let view ← proof.view record
      return (view, none)

def observe (set : ActualKnownInterpretations) (protects : ProtectedOperations)
    (scan : InventoryScan) (record : ActualKnownInterpretation) :
    Except ActualReportError InventoryScan := do
  let original := record.original
  refuse (original.hub ≠ set.hub ∨ record.stockRevision ≠ set.stockRevision ∨
    record.catalogRevision ≠ set.catalogRevision ∨
    record.latestRecordedAt ≠ set.latestRecordedAt ∨ record.key ∈ scan.keys) .invalidNativeContext
  refuse (∃ prior ∈ scan.events[original.operation]?, ¬ prior.SameEvent record) .invalidHistory
  let (view, newCount) ← viewRecord scan.counts record
  let rows := record.ownRows ++ (newCount.map ActualKnownCountExplanation.rows).getD []
  let register ← rows.foldlM (OperationRegister.enter protects) scan.register
  let groups ← original.lines.foldlM (enterLine original.operation) scan.groups
  return {
    keys := insert record.key scan.keys
    events := scan.events.insert original.operation record
    groups, register
    counts := newCount.elim scan.counts fun value =>
      scan.counts.insert value.count.operation (.new value)
    views := scan.views ++ [view] }

end

end InventoryScan

/-- The revision of the report under review is taken. -/
def RevisionRegister.start : ProtectedOperations → Except ActualReportError RevisionRegister
  | none => .ok .empty
  | some (raw, revision, _) => RevisionRegister.empty.observe raw revision

section
variable [Sha256]

def validateInventory (set : ActualKnownInterpretations) (protects : ProtectedOperations) :
    Except ActualReportError (List ActualKnownInterpretationView) := do
  refuse (set.records.length > hubStockEventCapacity) .capacity
  let revisions ← RevisionRegister.start protects
  let register ← set.records.foldlM (OperationRegister.enterOriginal protects) ⟨revisions, ∅, ∅⟩
  let scan ← set.records.foldlM (InventoryScan.observe set protects) ⟨∅, ∅, ∅, ∅, register, []⟩
  return scan.views

end

end HarvestCircle
