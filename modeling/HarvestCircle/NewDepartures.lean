import HarvestCircle.ActualReview
import HarvestCircle.InventoryOrder
import HarvestCircle.Requests

/-! # A reported departure is posted as a new one

The packs of a reviewed report are taken out of stock only if the departure cannot be one
that is known already: one of the same stock, to a recipient it may have gone to, at a time
it may have happened.  Without interpretations a known departure went where its original
says; with them, to anyone its corrections have named, and to anyone at all once a
correction said that the recipient is not known.  So the interpretations only ever refuse
more (`new_departure_was_not_known`).
-/
namespace HarvestCircle
open Checked

/-- As far as is known, both can have happened at one time. -/
def Occurrence.overlaps (a b : Occurrence) : Bool :=
  match a.bounds, b.bounds with
  | some (a, b), some (c, d) => a ≤ d ∧ c ≤ b
  | _, _ => true

theorem Occurrence.overlaps_of_allows {a b : Occurrence} {t : Int} (ha : a.Allows t)
    (hb : b.Allows t) : a.overlaps b = true := by
  rw [Occurrence.allows_iff] at ha hb
  unfold overlaps
  split
  · rename_i first last first' last' hbounds hbounds'
    obtain ⟨hfirst, hlast⟩ := ha _ hbounds
    obtain ⟨hfirst', hlast'⟩ := hb _ hbounds'
    rw [decide_eq_true_eq, UnixTimestamp.le_iff, UnixTimestamp.le_iff]
    dsimp only at hfirst hlast hfirst' hlast'
    omega
  · rfl

/-- The review with every departure known so far. -/
structure ActualNewDepartureContext where
  review : ActualReviewContext
  historicalSource : ActualSourceContext
  /-- Every departure that is known, reconciled ones included. -/
  knownDepartures : List ActualKnownDeparture
  priorReview : Option HubRecordId

namespace ActualNewDepartureContext

section
variable [Sha256]

/-- The interpretations are those of the known departures, one by one, at the review's cut. -/
def validateSet (context : ActualNewDepartureContext) (set : ActualKnownInterpretations)
    (operation : HubRecordId) (now : UnixTimestamp) :
    Except ActualReportError (List ActualKnownInterpretationView) := do
  let review := context.review
  refuse (set.hub ≠ review.hub ∨ set.stockRevision ≠ review.stockRevision ∨
    set.catalogRevision ≠ review.catalog.revision ∨
    set.latestRecordedAt < review.original.recordedAt ∨ set.latestRecordedAt > now)
    .invalidNativeContext
  refuse (set.records.length > hubStockEventCapacity) .capacity
  refuse (set.records.length ≠ context.knownDepartures.length ∨
    ∃ entry ∈ set.records.zip context.knownDepartures, entry.1.original ≠ entry.2)
    .invalidNativeContext
  validateInventory set
    (some (review.original.operation, review.original.stockRevision, operation))

/-- The views of the known departures, where interpretations are given. -/
def views (context : ActualNewDepartureContext) (operation : HubRecordId) (now : UnixTimestamp) :
    Option ActualKnownInterpretations →
      Except ActualReportError (Option (List ActualKnownInterpretationView))
  | none => .ok none
  | some set => do
    let views ← context.validateSet set operation now
    return some views

end

end ActualNewDepartureContext

namespace ActualNewDepartureCommand

/-- The recipient may be the one the known departure went to.  There is a view for every
known departure, so the index is never out of range. -/
def mayHaveReceived (command : ActualNewDepartureCommand)
    (views : Option (List ActualKnownInterpretationView)) (known : ActualKnownDeparture)
    (index : Nat) : Bool :=
  match views with
  | none => known.recipient.id = command.facts.recipient
  | some views => views[index]?.any fun view =>
      view.recipients.couldMatch (some command.facts.recipient)

/-- One known departure is held against the new one. -/
def checkKnown (command : ActualNewDepartureCommand) (context : ActualNewDepartureContext)
    (views : Option (List ActualKnownInterpretationView)) (source : ResolvedActualSource)
    (operation : HubRecordId) (now : UnixTimestamp)
    (originals : Finset (HubRecordId × HubRecordId × HubRecordId))
    (entry : ActualKnownDeparture × Nat) :
    Except ActualReportError (Finset (HubRecordId × HubRecordId × HubRecordId)) := do
  let known := entry.1
  known.validate
  refuse (known.operation = operation) .invalidIdentity
  refuse (known.hub ≠ context.review.hub ∨
    known.stockRevision.value > context.review.stockRevision.value ∨
    known.catalogRevision.value > context.review.catalog.revision.value ∨ known.recordedAt > now ∨
    (known.operation, known.trace, known.variant.id) ∈ originals) .invalidNativeContext
  refuse (known.trace = source.historical.group.trace ∧
    known.variant.id = context.review.group.variant ∧
    command.mayHaveReceived views known entry.2 = true ∧
    known.occurred.overlaps command.facts.occurred = true) .duplicateReviewRequired
  return insert (known.operation, known.trace, known.variant.id) originals

section
variable [Sha256]

def planInner (command : ActualNewDepartureCommand) (context : ActualNewDepartureContext)
    (interpretations : Option ActualKnownInterpretations) (operation : HubRecordId)
    (actor : PublicKey) (now : UnixTimestamp) :
    Except ActualReportError ActualNewDeparturePlan := do
  let review := context.review
  let historical := context.historicalSource
  refuse (context.priorReview.isSome = true) .alreadyReviewed
  refuse (operation = review.original.operation ∨ operation = command.sourceOperation)
    .invalidIdentity
  refuse (historical.lineage ≠ review.lineage ∨ historical.balancingGroup ≠ review.group ∨
    historical.source.operation ≠ command.sourceOperation ∨
    historical.source.group.id ≠ command.sourceGroup) .invalidNativeContext
  let comparison ← command.facts.review review now
  let source ← historical.resolve review.original command.facts.occurred now
  let views ← context.views operation now interpretations
  refuse (context.knownDepartures.length > hubStockEventCapacity) .capacity
  let _ ← context.knownDepartures.zipIdx.foldlM
    (command.checkKnown context views source operation now) ∅
  let reduction ← ActualPhysicalReduction.plan review.group command.facts.packs
  let afterCausalFloor ← reduction.causalFloorAfterReconciliation command.facts.occurred now
  let stockRevision ← mapErr (fun _ => .revisionExhausted) review.stockRevision.next
  return {
    operation, report := review.original, actor, recordedAt := now, stockRevision, comparison
    historicalSource := source, reduction, afterCausalFloor
    duplicateReviewBasis := command.duplicateReviewBasis }

def plan (command : ActualNewDepartureCommand) (context : ActualNewDepartureContext)
    (operation : HubRecordId) (actor : PublicKey) (now : UnixTimestamp) :
    Except ActualReportError ActualNewDeparturePlan :=
  command.planInner context none operation actor now

def planWithInterpretations (command : ActualNewDepartureCommand)
    (context : ActualNewDepartureContext) (interpretations : ActualKnownInterpretations)
    (operation : HubRecordId) (actor : PublicKey) (now : UnixTimestamp) :
    Except ActualReportError ActualNewDeparturePlan :=
  command.planInner context (some interpretations) operation actor now

end

end ActualNewDepartureCommand

/-! ## What an interpretation adds -/

section
variable [Sha256]

/-- The view of a record has everyone it was ever said to have gone to. -/
theorem ActualKnownInterpretation.recipients_of_view {record : ActualKnownInterpretation}
    {view : ActualKnownInterpretationView} (h : record.view = .ok view) :
    view.recipients = .through record.original.recipient.id record.recipientHistory := by
  simp only [ActualKnownInterpretation.view, CorrectionKnownDeparture.associationsThrough,
    bind_eq_ok, mapErr_eq_ok, pure_eq_ok] at h
  obtain ⟨-, -, -, -, quantity, -, recipients, ⟨result, hresult, -, -, rfl⟩, -, -, effective, -,
    packs, -, rfl⟩ := h
  exact (CorrectionKnownDeparture.recipientAssociationsThrough_eq_ok hresult).1

/-- Every known departure has its record and the view of the record. -/
structure Interprets (set : ActualKnownInterpretations)
    (views : List ActualKnownInterpretationView) (known : ActualKnownDeparture) (index : Nat)
    (record : ActualKnownInterpretation) (view : ActualKnownInterpretationView) : Prop where
  record_eq : set.records[index]? = some record
  original_eq : record.original = known
  view_eq : views[index]? = some view
  recipients_eq : view.recipients = .through known.recipient.id record.recipientHistory

theorem ActualNewDepartureContext.exists_interprets {context : ActualNewDepartureContext}
    {set : ActualKnownInterpretations} {operation : HubRecordId} {now : UnixTimestamp}
    {views : List ActualKnownInterpretationView}
    (h : context.validateSet set operation now = .ok views) {index : Nat}
    {known : ActualKnownDeparture} (hknown : context.knownDepartures[index]? = some known) :
    ∃ record view, Interprets set views known index record view := by
  simp only [validateSet, accepted, passed, not_exists, not_and] at h
  obtain ⟨-, -, ⟨hlength, hsame⟩, hinventory⟩ := h
  have hviews := (validateInventory_tests set _).2 views hinventory
  obtain ⟨hindex, hget⟩ := List.getElem?_eq_some_iff.mp hknown
  have hrecord : index < set.records.length := hlength ▸ hindex
  have hview : index < views.length := hviews.length_eq ▸ hrecord
  have hmem : (set.records[index], known) ∈ set.records.zip context.knownDepartures := by
    rw [List.mem_iff_getElem]
    exact ⟨index, by simpa using ⟨hrecord, hindex⟩, by simp [hget]⟩
  have horiginal : set.records[index].original = known := hsame _ hmem
  refine ⟨set.records[index], views[index], List.getElem?_eq_getElem hrecord, horiginal,
    List.getElem?_eq_getElem hview, ?_⟩
  rw [← horiginal]
  exact ActualKnownInterpretation.recipients_of_view (hviews.get hrecord hview)

end

namespace ActualNewDepartureCommand
variable {command : ActualNewDepartureCommand} {context : ActualNewDepartureContext}
  {set : ActualKnownInterpretations} {views : List ActualKnownInterpretationView}
  {source : ResolvedActualSource} {operation : HubRecordId} {now : UnixTimestamp}
  {known : ActualKnownDeparture} {index : Nat} {record : ActualKnownInterpretation}
  {view : ActualKnownInterpretationView}
  {originals originals' : Finset (HubRecordId × HubRecordId × HubRecordId)}

/-- A recipient that the view excludes was never named. -/
theorem mayHaveReceived_eq_false (h : Interprets set views known index record view) :
    command.mayHaveReceived (some views) known index = false ↔
      known.recipient.id ≠ command.facts.recipient ∧ ∀ correction ∈ record.recipientHistory,
        (∃ party, correction.before = .known party ∧ party.id ≠ command.facts.recipient) ∧
        ∃ party, correction.after = .known party ∧ party.id ≠ command.facts.recipient := by
  rw [← KnownRecipients.excludes_through, ← h.recipients_eq, mayHaveReceived, h.view_eq]
  rfl

/-- Whatever passes with interpretations passes without. -/
theorem checkKnown_none (h : Interprets set views known index record view)
    (hcheck : command.checkKnown context (some views) source operation now originals
      (known, index) = .ok originals') :
    command.checkKnown context none source operation now originals (known, index) =
      .ok originals' := by
  simp only [checkKnown, accepted] at hcheck ⊢
  obtain ⟨hvalid, hoperation, hcut, hnew, rfl⟩ := hcheck
  refine ⟨hvalid, hoperation, hcut, ?_, rfl⟩
  rintro ⟨htrace, hvariant, hreceived, hoverlaps⟩
  refine hnew ⟨htrace, hvariant, ?_, hoverlaps⟩
  by_contra hexcluded
  rw [Bool.not_eq_true, mayHaveReceived_eq_false h] at hexcluded
  exact hexcluded.1 (by simpa [mayHaveReceived] using hreceived)

end ActualNewDepartureCommand

section
variable [Sha256]

/-- **A new departure was not known.**  What is accepted with interpretations is accepted without
them, as the same plan.  And the recipient was never named for a known departure of the same stock
that can have happened at the same time, nor was it ever left open who received that one. -/
theorem new_departure_was_not_known (command : ActualNewDepartureCommand)
    (context : ActualNewDepartureContext) (interpretations : ActualKnownInterpretations)
    (operation : HubRecordId) (actor : PublicKey) (now : UnixTimestamp)
    (p : ActualNewDeparturePlan)
    (h : command.planWithInterpretations context interpretations operation actor now = .ok p) :
    command.plan context operation actor now = .ok p ∧
    ∀ (index : Nat) (known : ActualKnownDeparture),
      context.knownDepartures[index]? = some known →
      known.trace = context.review.group.trace → known.variant.id = context.review.group.variant →
      (∃ t, known.occurred.Allows t ∧ command.facts.occurred.Allows t) →
      ∃ record, interpretations.records[index]? = some record ∧ record.original = known ∧
        known.recipient.id ≠ command.facts.recipient ∧
        ∀ correction ∈ record.recipientHistory,
          (∃ party, correction.before = .known party ∧ party.id ≠ command.facts.recipient) ∧
          ∃ party, correction.after = .known party ∧ party.id ≠ command.facts.recipient := by
  simp only [ActualNewDepartureCommand.planWithInterpretations, ActualNewDepartureCommand.planInner,
    ActualNewDepartureContext.views, accepted, passed] at h
  obtain ⟨hprior, hidentity, hcontext, comparison, hreview, source, hsource, _,
    ⟨views, hviews, rfl⟩, hcapacity, originals, hloop, hrest⟩ := h
  constructor
  · simp only [ActualNewDepartureCommand.plan, ActualNewDepartureCommand.planInner,
      ActualNewDepartureContext.views, accepted, passed]
    refine ⟨hprior, hidentity, hcontext, comparison, hreview, source, hsource, none, rfl, hcapacity,
      originals, ?_, hrest⟩
    refine foldlM_imp (fun entry hentry s s' hcheck => ?_) hloop
    obtain ⟨known, index⟩ := entry
    obtain ⟨record, view, hinterprets⟩ :=
      context.exists_interprets hviews (List.mk_mem_zipIdx_iff_getElem?.mp hentry)
    exact ActualNewDepartureCommand.checkKnown_none hinterprets hcheck
  · rintro index known hknown htrace hvariant ⟨t, hallowed, hallowed'⟩
    obtain ⟨record, view, hinterprets⟩ := context.exists_interprets hviews hknown
    refine ⟨record, hinterprets.record_eq, hinterprets.original_eq, ?_⟩
    rw [← ActualNewDepartureCommand.mayHaveReceived_eq_false hinterprets, ← Bool.not_eq_true]
    intro hreceived
    obtain ⟨s, s', hcheck⟩ :=
      exists_step_of_foldlM hloop (List.mk_mem_zipIdx_iff_getElem?.mpr hknown)
    simp only [ActualNewDepartureCommand.checkKnown, accepted] at hcheck
    obtain ⟨-, -, -, hnew, -⟩ := hcheck
    have hbalancing : source.historical.group.trace = context.review.group.trace := by
      rw [ActualSourceContext.trace_of_resolve hsource, hcontext.2.1]
    exact hnew ⟨htrace.trans hbalancing.symm, hvariant, hreceived,
      Occurrence.overlaps_of_allows hallowed hallowed'⟩

end

/-! ### Packs of the crate went to the school

A pack of the crate is known to have left at the time; it was first said to have gone to the
kitchen and then to the shelter. -/

def crateShelter : ReferenceRecord := ⟨.of 12, .initial, .party ⟨"shelter", Eq.refl true⟩⟩
def crateSchool : ReferenceRecord := ⟨.of 13, .initial, .party ⟨"school", Eq.refl true⟩⟩

/-- The known pack. -/
def crateKnownPack : ActualKnownDeparture where
  operation := .of 44
  actor := crateActor
  hub := .of 1
  stockRevision := .of 6
  catalogRevision := .initial
  trace := .of 2
  variant := crateVariant
  recipient := crateRecipient
  occurred := .known (.of 1250)
  recordedAt := .of 1600
  lines := [⟨.of 10, crateDock, .of 1⟩]

def crateKnownPackWentTo : OriginalRecipientAttribution where
  hub := .of 1
  family := .normal
  operation := .of 44
  stockRevision := .of 6
  catalogRevision := .initial
  recordedAt := .of 1600
  actor := crateActor
  recipient := crateRecipient
  populations := [.of 2]
  issuedVersions := [.of 20]

def crateKnownPackWentToShelter : RecipientAttributionCorrection where
  stamp := ⟨.of 45, .of 1, .of 7, .initial, crateActor, .of 1600,
    crateNote⟩
  original := crateKnownPackWentTo
  prior := none
  before := .known crateRecipient
  after := .known crateShelter
  impact := {
    rows := [.population (.of 2), .departure (.of 44), .issuedVersion (.of 20),
      .recipient crateRecipient.id, .recipient crateShelter.id]
    sorted := by decide +kernel
    nonempty := by decide
    bounded := by decide }

def crateKnownPacks : ActualKnownInterpretations where
  hub := .of 1
  stockRevision := .of 7
  catalogRevision := .initial
  latestRecordedAt := .of 1600
  records := [{
    stockRevision := .of 7
    catalogRevision := .initial
    latestRecordedAt := .of 1600
    original := crateKnownPack
    recipientOriginal := crateKnownPackWentTo
    recipientHistory := [crateKnownPackWentToShelter]
    quantities := [{
      original := ⟨.of 44, .of 10, .of 2, .of 3, .of 6,
        .of 1⟩
      amendments := [], effective := .of 1, additional := .zero, found := .zero
      establishedReturns := .zero
      restored := ⟨_, rfl, by decide⟩ }]
    countExplanation := none }]

/-- The part on the shelf, the pack having left the rest of the crate. -/
def crateReviewLineage : PhysicalLineage where
  hub := .of 1
  trace := .of 2
  variant := .of 3
  revision := .of 7
  nodes := [
    ⟨.of 10, none, .of 2, .of 3, .of 2, .of 5, none⟩,
    ⟨.of 11, some (.of 10), .of 2, .of 3, .of 4,
      .of 4, none⟩]
  wellFormed := (checkNodes_eq_ok (by decide)).mp (by decide)

def crateReview : ActualNewDepartureContext where
  review := {
    hub := .of 1, stockRevision := .of 7
    catalog := {
      revision := .initial
      records := crateCatalog.records ++ [crateShelter, crateSchool]
      sorted := by decide
      bounded := by decide }
    original := crateReport, group := cratePart, lineage := crateReviewLineage
    treatment := crateTreatment.state, uncertainSubmissions := false }
  historicalSource := { crateSource with lineage := crateReviewLineage }
  knownDepartures := [crateKnownPack]
  priorReview := none

/-- Two packs of the part on the shelf went to the school. -/
def crateToSchool : ActualNewDepartureCommand where
  facts := {
    report := crateReport.id, expectedStockRevision := .of 7
    expectedCatalogRevision := .initial, group := .of 11, expectedGroupRevision := .initial
    packs := .of 2, recipient := crateSchool.id
    occurred := .interval (.of 1200) (.of 1300)
    sourceEvidence := crateNote, quantityEvidence := crateNote, recipientEvidence := crateNote
    timingEvidence := crateNote }
  sourceOperation := .of 41
  sourceGroup := .of 10
  duplicateReviewBasis := crateNote

/-- The packs are taken: neither the kitchen nor the shelter is the school. -/
theorem new_departure_was_not_known_crate : ∃ p,
    @ActualNewDepartureCommand.planWithInterpretations reportDigest crateToSchool crateReview
      crateKnownPacks (.of 61) crateActor (.of 1700) = .ok p ∧
    @ActualNewDepartureCommand.plan reportDigest crateToSchool crateReview (.of 61) crateActor
      (.of 1700) = .ok p ∧
    crateKnownPack.recipient.id ≠ crateSchool.id ∧
    ∃ party, crateKnownPackWentToShelter.after = .known party ∧ party.id ≠ crateSchool.id := by
  let _ : Sha256 := reportDigest
  have haccepted : (crateToSchool.planWithInterpretations crateReview crateKnownPacks (.of 61)
    crateActor (.of 1700)).isOk = true := by decide +kernel
  obtain ⟨p, hp⟩ := exists_of_isOk haccepted
  obtain ⟨hplan, hknown⟩ := new_departure_was_not_known crateToSchool crateReview crateKnownPacks
    (.of 61) crateActor (.of 1700) p hp
  obtain ⟨record, hrecord, -, hrecipient, hcorrections⟩ := hknown 0 crateKnownPack rfl rfl rfl
    ⟨1250, rfl, by decide, by decide⟩
  obtain rfl := Option.some.inj hrecord
  exact ⟨p, hp, hplan, hrecipient, (hcorrections _ (List.mem_singleton_self _)).2⟩

end HarvestCircle
