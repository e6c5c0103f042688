import HarvestCircle.Identity

/-! # Populations, occurrences and quantity work

A receipt brings one population into stock: a single group at the receiving
location, with the work of putting it away.  What a plan knows about when
something happened is an `Occurrence`, which is checked against the time it is
recorded but never taken for it.

`QuantityWork` is the account of one requirement.  Its four numbers can only be
put together by `pending` or by `restore`, which checks that they add up, so the
equation is a field.
-/
namespace HarvestCircle
open Checked

/-- The most stock events one hub keeps. -/
def hubStockEventCapacity : Nat := 32768

/-- The most traces one hub keeps. -/
def hubTraceCapacity : Nat := 4096

inductive StockError where
  | reference (error : HubReferenceError)
  | staleRevision
  | revisionExhausted
  | emptyQuantity
  | invalidReceivingLocation
  | invalidPutAwayTarget
  | invalidOccurrence
  | invalidWorkAccounting
  | sourceIdentityConflict
  deriving DecidableEq, Repr

/-- What is known of when something happened. -/
inductive Occurrence where
  | known (time : UnixTimestamp)
  | interval (earliest latest : UnixTimestamp)
  | unknown
  deriving DecidableEq, Repr

/-- Whether the occurrence can have been recorded then. -/
def Occurrence.ValidAt (recordedAt : UnixTimestamp) : Occurrence → Prop
  | .known time => time ≤ recordedAt
  | .interval earliest latest => earliest ≤ latest ∧ latest ≤ recordedAt
  | .unknown => True

instance (recordedAt : UnixTimestamp) : DecidablePred (Occurrence.ValidAt recordedAt)
  | .known _ => inferInstanceAs (Decidable (_ ≤ _))
  | .interval _ _ => inferInstanceAs (Decidable (_ ∧ _))
  | .unknown => inferInstanceAs (Decidable True)

def Occurrence.validate (occurred : Occurrence) (recordedAt : UnixTimestamp) :
    Except StockError Unit :=
  refuse (¬ occurred.ValidAt recordedAt) .invalidOccurrence

/-! ## Quantity work -/

/-- One quantity requirement, fully accounted for. -/
@[ext] structure QuantityWork where
  required : WholePacks
  completed : WholePacks
  noLongerRequired : WholePacks
  remaining : WholePacks
  accounted : completed.value + noLongerRequired.value + remaining.value = required.value
  deriving DecidableEq, Repr

namespace QuantityWork

/-- A requirement of which nothing has been done. -/
def pending (required : WholePacks) : QuantityWork where
  required := required
  completed := .zero
  noLongerRequired := .zero
  remaining := required
  accounted := by simp

/-- The account with the given numbers, if they add up to what is required. -/
def restore (required completed noLongerRequired remaining : WholePacks) :
    Except StockError QuantityWork := do
  let closed ← attach (mapErr .reference (completed.checkedAdd noLongerRequired))
  let accounted ← attach (mapErr .reference (closed.1.checkedAdd remaining))
  if h : accounted.1 = required then
    return {
      required, completed, noLongerRequired, remaining
      accounted := by
        have hclosed := WholePacks.checkedAdd_eq_ok.mp (mapErr_eq_ok.mp closed.2)
        have haccounted := WholePacks.checkedAdd_eq_ok.mp (mapErr_eq_ok.mp accounted.2)
        rw [← h, haccounted, hclosed] }
  else .error .invalidWorkAccounting

/-- `restore` accepts exactly the numbers that add up. -/
@[simp] theorem restore_eq_ok {required completed noLongerRequired remaining : WholePacks}
    {work : QuantityWork} :
    restore required completed noLongerRequired remaining = .ok work ↔
      work.required = required ∧ work.completed = completed ∧
        work.noLongerRequired = noLongerRequired ∧ work.remaining = remaining := by
  rw [restore, attach_bind_eq_ok]
  simp only [attach_bind_eq_ok]
  constructor
  · rintro ⟨closed, hclosed, accounted, haccounted, h⟩
    split at h
    · rename_i heq
      cases h
      exact ⟨rfl, rfl, rfl, rfl⟩
    · cases h
  · obtain ⟨r, c, n, m, hsum⟩ := work
    rintro ⟨rfl, rfl, rfl, rfl⟩
    have hbound := r.bound
    dsimp only at hsum ⊢
    refine ⟨⟨c.value + n.value, by omega⟩, by simp, r, ?_, ?_⟩
    · simp [hsum]
    · simp

end QuantityWork

/-! ## Populations -/

inductive SourceReferenceKind where
  | producerBatch
  | supplierReference
  | other
  deriving DecidableEq, Repr

/-- What a supplier or producer calls the stock, and how that is known. -/
structure SourceReference where
  id : HubRecordId
  issuer : Option HubRecordId
  kind : SourceReferenceKind
  code : SourceCode
  provenance : SourceProvenance
  deriving DecidableEq, Repr

/-- An issuer has to be a party of the catalog. -/
def SourceReference.validate (source : SourceReference) (catalog : ReferenceCatalog) :
    Except HubReferenceError Unit := do
  let _ ← source.issuer.mapM fun issuer => catalog.requireKind issuer .party

inductive SourceCertainty where
  | reportedPossible
  | established
  deriving DecidableEq, Repr

/-- Where stock is said to come from. -/
inductive SourceAttribution where
  | unknown
  | referenced (source : SourceReference) (certainty : SourceCertainty)
  deriving DecidableEq, Repr

/-- Where the history of counted opening stock is known from. -/
inductive OpeningHistory where
  | unknown
  | externalReference (provenance : SourceProvenance)
  deriving DecidableEq, Repr

/-- How a population came into the records. -/
inductive PopulationOrigin where
  | receipt
  | countedOpening (history : OpeningHistory)
  | countedSurplus (count relatedPopulation : HubRecordId)
  | returned (returned : HubRecordId)
  deriving DecidableEq, Repr

/-- One population with the references as they read when it was recorded. -/
structure StockPopulation where
  id : HubRecordId
  variant : ReferenceRecord
  product : ReferenceRecord
  supplier : Option ReferenceRecord
  producer : Option ReferenceRecord
  source : SourceAttribution
  sourceIssuer : Option ReferenceRecord
  originalPacks : WholePacks
  initialLocation : ReferenceRecord
  origin : PopulationOrigin
  plannedLocation : Option ReferenceRecord
  occurred : Occurrence
  recordedAt : UnixTimestamp
  actor : PublicKey
  observation : SourceProvenance
  deriving DecidableEq, Repr

/-- The one group a receipt puts its population into. -/
structure StockPosition where
  group : HubRecordId
  trace : HubRecordId
  variant : HubRecordId
  location : HubRecordId
  packs : WholePacks
  revision : HubRevision
  deriving DecidableEq, Repr

/-! ## Receipts -/

/-- Receives packs at a receiving location, with the place planned for them. -/
structure ReceiptCommand where
  expectedStockRevision : HubRevision
  expectedCatalogRevision : HubRevision
  variant : HubRecordId
  supplier : Option HubRecordId
  producer : Option HubRecordId
  source : SourceAttribution
  packs : WholePacks
  receiving : HubRecordId
  plannedLocation : Option HubRecordId
  occurred : Occurrence
  observation : SourceProvenance
  deriving DecidableEq, Repr

/-- What an accepted receipt writes. -/
structure ReceiptPlan where
  stockRevision : HubRevision
  trace : StockPopulation
  position : StockPosition
  putAway : QuantityWork
  deriving DecidableEq, Repr

/-- The product a pack belongs to. -/
def packProduct : ReferenceValue → Option HubRecordId
  | .pack product _ _ => some product
  | _ => none

def isReceiving : ReferenceValue → Bool
  | .location _ .receiving => true
  | _ => false

/-- Every reference is looked up in the catalog before anything is planned. -/
def ReceiptCommand.plan (command : ReceiptCommand) (catalog : ReferenceCatalog)
    (currentStockRevision : HubRevision) (trace group : HubRecordId) (actor : PublicKey)
    (recordedAt : UnixTimestamp) : Except StockError ReceiptPlan := do
  refuse (command.expectedStockRevision ≠ currentStockRevision ∨
    command.expectedCatalogRevision ≠ catalog.revision) .staleRevision
  refuse (command.packs.value = 0) .emptyQuantity
  command.occurred.validate recordedAt
  let variant ← mapErr .reference (catalog.requireKind command.variant .pack)
  let product ← okOr (packProduct variant.value) (.reference .wrongReferenceKind)
  let product ← mapErr .reference (catalog.requireKind product .product)
  let party := fun id => mapErr StockError.reference (catalog.requireKind id .party)
  let supplier ← command.supplier.mapM party
  let producer ← command.producer.mapM party
  let sourceIssuer ← match command.source with
    | .unknown => pure none
    | .referenced source _ => do
      mapErr .reference (source.validate catalog)
      source.issuer.mapM party
  let receiving ← mapErr .reference (catalog.requireKind command.receiving .location)
  refuse (isReceiving receiving.value = false) .invalidReceivingLocation
  refuse (command.plannedLocation = some command.receiving) .invalidPutAwayTarget
  let plannedLocation ← command.plannedLocation.mapM fun id =>
    mapErr StockError.reference (catalog.requireKind id .location)
  let stockRevision ← mapErr (fun _ => .revisionExhausted) currentStockRevision.next
  return {
    stockRevision
    trace := {
      id := trace, variant, product, supplier, producer, source := command.source, sourceIssuer
      originalPacks := command.packs, initialLocation := receiving, origin := .receipt
      plannedLocation, occurred := command.occurred, recordedAt, actor
      observation := command.observation }
    position := {
      group, trace, variant := command.variant, location := command.receiving
      packs := command.packs, revision := .initial }
    putAway := .pending command.packs }

end HarvestCircle
