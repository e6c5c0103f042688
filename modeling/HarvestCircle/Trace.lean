import HarvestCircle.ActualReview
import HarvestCircle.AttributionHistory

/-! # Looking up where stock may have come from

A trace is what is known of one population: its record, what left of it, and every
correction of where it came from and who received it.  A selection picks traces for
review, by scope and by text.

Nothing that was ever said is dropped on the way.  A population is picked by its original
source and by every source it was corrected to; and what is not known well enough to be
ruled out is picked by a search for any source (`recall_misses_no_population`).
-/
namespace HarvestCircle
open Checked

def traceSearchBytes : Nat := 128

inductive TraceError where
  | invalidQuery
  | invalidSnapshot
  | accounting
  | capacity
  deriving DecidableEq, Repr

/-! ## Text -/

/-- Lowercasing of text, by the Unicode tables. -/
class Lowercase where
  toLowercase : String → String
  toLowercase_empty : toLowercase "" = ""

export Lowercase (toLowercase toLowercase_empty)

def isControl (c : Char) : Bool :=
  let n := c.toNat
  n ≤ 0x1f || (0x7f ≤ n && n ≤ 0x9f)

def trim (text : String) : String :=
  .ofList ((text.toList.dropWhile isWhiteSpace).reverse.dropWhile isWhiteSpace).reverse

/-! ## Scopes -/

/-- Which populations are asked for. -/
inductive TraceScope where
  | all
  | unresolved
  | receipt (id : HubRecordId)
  | sourceImpact (id : HubRecordId)
  deriving DecidableEq, Repr

/-- What a trace says about its source, as far as scopes can tell. -/
inductive TraceSourceEvidence where
  | unknown
  | returned (attributedUnresolved : Bool)
  | referenced (source : HubRecordId) (certainty : SourceCertainty) (issuer : Option HubRecordId)
  deriving DecidableEq, Repr

namespace TraceSourceEvidence

def ofAttribution : SourceAttribution → TraceSourceEvidence
  | .unknown => unknown
  | .referenced source certainty => referenced source.id certainty source.issuer

def unresolved : TraceSourceEvidence → Bool
  | returned attributedUnresolved => attributedUnresolved
  | referenced _ .established (some _) => false
  | _ => true

def isReturned : TraceSourceEvidence → Bool
  | returned _ => true
  | _ => false

def names (id : HubRecordId) : TraceSourceEvidence → Bool
  | referenced source _ _ => source = id
  | _ => false

def forPopulation (population : StockPopulation) : TraceSourceEvidence :=
  let attributed := ofAttribution population.source
  match population.origin with
  | .returned _ => returned attributed.unresolved
  | _ => attributed

end TraceSourceEvidence

namespace TraceScope

def includesEvidence (scope : TraceScope) (trace : HubRecordId) (source : TraceSourceEvidence) :
    Bool :=
  match scope with
  | all => true
  | unresolved => source.unresolved
  | receipt id => trace = id
  | sourceImpact id => source.isReturned || source.unresolved || source.names id

/-- A scope names one thing that is looked for, so no text may narrow it down. -/
def IsExact : TraceScope → Prop
  | receipt _ => True
  | sourceImpact _ => True
  | _ => False

instance : DecidablePred IsExact := fun scope => by
  cases scope <;> unfold IsExact <;> infer_instance

end TraceScope

/-! ## Selections -/

structure TraceSelection where
  scope : TraceScope
  text : String
  deriving DecidableEq, Repr

namespace TraceSelection

def validate (selection : TraceSelection) : Except TraceError Unit :=
  refuse (selection.text.utf8ByteSize > traceSearchBytes ∨
    selection.text.toList.any isControl = true ∨
    (selection.text ≠ "" ∧ selection.scope.IsExact)) .invalidQuery

variable [Lowercase]

/-- The text is blank, or found in one of the fields. -/
def Matches (selection : TraceSelection) (fields : List String) : Prop :=
  let needle := toLowercase (trim selection.text)
  needle = "" ∨ ∃ field ∈ fields, needle.toList <:+: (toLowercase field).toList

instance (selection : TraceSelection) : DecidablePred selection.Matches := fun _ =>
  inferInstanceAs (Decidable (_ ∨ _))

def matchesFields (selection : TraceSelection) (fields : List String) : Except TraceError Bool := do
  selection.validate
  refuse (fields.length > 8 ∨ ∃ field ∈ fields, field.utf8ByteSize > 128) .invalidQuery
  return decide (selection.Matches fields)

def includesFields (selection : TraceSelection) (trace : HubRecordId) (source : TraceSourceEvidence)
    (fields : List String) : Except TraceError Bool := do
  let matched ← selection.matchesFields fields
  return selection.scope.includesEvidence trace source && matched

end TraceSelection

/-- The texts by which a population is found. -/
def StockPopulation.traceFields (trace : StockPopulation) : List String :=
  let source := trace.source.reference
  [some trace.id.toHex, some trace.product.value.label.text, some trace.variant.value.label.text,
    trace.supplier.map (·.value.label.text), trace.producer.map (·.value.label.text),
    trace.sourceIssuer.map (·.value.label.text), source.map (·.code.text),
    source.map (·.id.toHex)].filterMap fun field => field

theorem StockPopulation.traceFields_length (trace : StockPopulation) :
    trace.traceFields.length ≤ 8 := List.length_filterMap_le _ _

/-- Every field is a label, a code or an identity, and short for that. -/
theorem StockPopulation.traceFields_size (trace : StockPopulation) :
    ∀ field ∈ trace.traceFields, field.utf8ByteSize ≤ 128 := by
  have hlabel : ∀ label : HubLabel, label.text.utf8ByteSize ≤ 128 :=
    fun label => label.utf8ByteSize_le.trans (by decide)
  have hcode : ∀ code : SourceCode, code.text.utf8ByteSize ≤ 128 := fun code => code.utf8ByteSize_le
  have hid : ∀ id : HubRecordId, id.toHex.utf8ByteSize ≤ 128 := fun id => by simp
  simp only [traceFields, List.mem_filterMap, List.mem_cons, List.not_mem_nil, or_false,
    exists_eq_right]
  rintro field (h | h | h | h | h | h | h | h)
  · exact Option.some.inj h ▸ hid _
  · exact Option.some.inj h ▸ hlabel _
  · exact Option.some.inj h ▸ hlabel _
  · obtain ⟨supplier, -, rfl⟩ := Option.map_eq_some_iff.mp h.symm
    exact hlabel _
  · obtain ⟨producer, -, rfl⟩ := Option.map_eq_some_iff.mp h.symm
    exact hlabel _
  · obtain ⟨issuer, -, rfl⟩ := Option.map_eq_some_iff.mp h.symm
    exact hlabel _
  · obtain ⟨source, -, rfl⟩ := Option.map_eq_some_iff.mp h.symm
    exact hcode _
  · obtain ⟨source, -, rfl⟩ := Option.map_eq_some_iff.mp h.symm
    exact hid _

def TraceSelection.includes [Lowercase] (selection : TraceSelection) (trace : StockPopulation) :
    Except TraceError Bool :=
  selection.includesFields trace.id (.forPopulation trace) trace.traceFields

/-! ## Snapshots -/

structure TraceDeparture where
  operation : HubRecordId
  stockRevision : HubRevision
  identification : HubRecordId
  recipient : ReferenceRecord
  actor : PublicKey
  recordedAt : UnixTimestamp
  deriving DecidableEq, Repr

structure TraceExit where
  departure : TraceDeparture
  deriving DecidableEq, Repr

/-- What the hub knows of a population. -/
structure TraceSnapshot where
  sourceCorrections : List SourceAttributionCorrection
  recipientCorrections : List RecipientAttributionCorrection
  hub : HubId
  stockRevision : HubRevision
  catalogRevision : HubRevision
  trace : StockPopulation
  exits : List TraceExit
  actualDepartures : List ActualNewDeparturePlan
  deriving DecidableEq

namespace TraceSnapshot

/-- What the original of a correction says of its departure is on the trace. -/
def Recorded (snapshot : TraceSnapshot) (original : OriginalRecipientAttribution) : Prop :=
  match original.family with
  | .normal => ∃ exit ∈ snapshot.exits,
      exit.departure.operation = original.operation ∧
      exit.departure.stockRevision = original.stockRevision ∧
      exit.departure.actor = original.actor ∧
      exit.departure.recordedAt = original.recordedAt ∧
      exit.departure.recipient = original.recipient ∧
      exit.departure.identification ∈ original.issuedVersions
  | .reviewedActual => ∃ actual ∈ snapshot.actualDepartures,
      actual.operation = original.operation ∧
      actual.stockRevision = original.stockRevision ∧
      actual.actor = original.actor ∧
      actual.recordedAt = original.recordedAt ∧
      actual.comparison.scope.recipient = original.recipient ∧
      actual.comparison.facts.expectedCatalogRevision = original.catalogRevision
  | .explainedCountLoss => False

instance (snapshot : TraceSnapshot) : DecidablePred snapshot.Recorded := fun original => by
  unfold Recorded
  split <;> infer_instance

def validateRecipientCorrections (snapshot : TraceSnapshot) : Except TraceError Unit := do
  let rows := snapshot.recipientCorrections
  refuse (rows.length > hubCorrectionRows) .capacity
  let _ ← rows.foldlM (fun (operations, previous) row => do
    refuse (row.original.hub ≠ snapshot.hub ∨ snapshot.trace.id ∉ row.original.populations ∨
      row.stamp.stockRevision.value > snapshot.stockRevision.value ∨
      row.stamp.catalogRevision.value > snapshot.catalogRevision.value ∨
      row.stamp.stockRevision.value ≤ previous ∨ row.stamp.operation ∈ operations) .invalidSnapshot
    refuse (¬ snapshot.Recorded row.original) .invalidSnapshot
    return (row.stamp.operation :: operations, row.stamp.stockRevision.value)) ([], 0)
  -- the history of each event, led by its first correction
  (rows.map (·.original.operation)).dedup.forM fun event =>
    match rows.filter (·.original.operation = event) with
    | [] => return ()
    | first :: rest => do
      let _ ← mapErr (fun _ => .invalidSnapshot)
        (currentRecipientAttribution first.original (first :: rest))

def validateSourceCorrections (snapshot : TraceSnapshot) : Except TraceError Unit :=
  match snapshot.sourceCorrections with
  | [] => return ()
  | first :: rest => do
    let original := first.original
    refuse (original.hub ≠ snapshot.hub ∨ original.trace ≠ snapshot.trace.id ∨
      original.actor ≠ snapshot.trace.actor ∨ original.recordedAt ≠ snapshot.trace.recordedAt ∨
      original.source.source ≠ snapshot.trace.source ∨
      original.source.issuer ≠ snapshot.trace.sourceIssuer ∨
      ∃ correction ∈ first :: rest,
        correction.stamp.stockRevision.value > snapshot.stockRevision.value ∨
        correction.stamp.catalogRevision.value > snapshot.catalogRevision.value) .invalidSnapshot
    let _ ← mapErr (fun _ => .invalidSnapshot) (currentSourceAttribution original (first :: rest))

/-- The trace as a correction reads it. -/
def interpreted (snapshot : TraceSnapshot) (correction : SourceAttributionCorrection) :
    StockPopulation :=
  { snapshot.trace with
    source := correction.after.source, sourceIssuer := correction.after.issuer }

@[simp] theorem interpreted_origin (snapshot : TraceSnapshot)
    (correction : SourceAttributionCorrection) :
    (snapshot.interpreted correction).origin = snapshot.trace.origin := rfl

@[simp] theorem interpreted_source (snapshot : TraceSnapshot)
    (correction : SourceAttributionCorrection) :
    (snapshot.interpreted correction).source = correction.after.source := rfl

end TraceSnapshot

/-- The texts by which a recipient is found. -/
def AmendedRecipient.traceFields : AmendedRecipient → List String
  | known party => [party.value.label.text, party.id.toHex]
  | unknown => ["Unknown recipient"]

namespace TraceSnapshot
variable [Lowercase]

def includesSourceHistory (snapshot : TraceSnapshot) (selection : TraceSelection) :
    Except TraceError Bool := do
  snapshot.validateSourceCorrections
  snapshot.validateRecipientCorrections
  if ← selection.includes snapshot.trace then return true
  if ← snapshot.sourceCorrections.anyM fun correction =>
      selection.includes (snapshot.interpreted correction) then return true
  let eligible :=
    selection.scope.includesEvidence snapshot.trace.id (.forPopulation snapshot.trace) ||
    snapshot.sourceCorrections.any fun row =>
      selection.scope.includesEvidence snapshot.trace.id (.forPopulation (snapshot.interpreted row))
  if eligible then
    snapshot.recipientCorrections.anyM fun record =>
      [.known record.original.recipient, record.after].anyM fun recipient =>
        selection.matchesFields recipient.traceFields
  else return false

/-! ## What is included -/

end TraceSnapshot

namespace TraceSelection
variable [Lowercase] {selection : TraceSelection}

/-- A valid selection can be matched against any fields that are few and short. -/
theorem answers_matchesFields (hvalid : selection.validate = .ok ()) {fields : List String}
    (hlength : fields.length ≤ 8) (hsize : ∀ field ∈ fields, field.utf8ByteSize ≤ 128) :
    Answers (selection.matchesFields fields) (selection.Matches fields) := by
  have hfields : ¬ (fields.length > 8 ∨ ∃ field ∈ fields, field.utf8ByteSize > 128) := by
    rintro (hmany | ⟨field, hfield, hlong⟩)
    · omega
    · exact absurd (hsize field hfield) (by omega)
  unfold matchesFields
  rw [hvalid, ok_bind, (refuse_eq_ok (u := ())).mpr hfields, ok_bind]
  exact (answers_pure _).congr decide_eq_true_iff

/-- The population is in the scope and has the text. -/
def Selects (selection : TraceSelection) (trace : StockPopulation) : Prop :=
  selection.scope.includesEvidence trace.id (.forPopulation trace) = true ∧
    selection.Matches trace.traceFields

theorem answers_includes (hvalid : selection.validate = .ok ()) (trace : StockPopulation) :
    Answers (selection.includes trace) (selection.Selects trace) := by
  obtain ⟨b, hfields, hb⟩ :=
    answers_matchesFields hvalid trace.traceFields_length trace.traceFields_size
  unfold TraceSelection.includes includesFields
  rw [hfields, ok_bind]
  exact (answers_pure _).congr (by rw [Bool.and_eq_true, hb, Selects])

/-- A recipient's fields are few and short. -/
theorem answers_recipient (hvalid : selection.validate = .ok ()) (recipient : AmendedRecipient) :
    Answers (selection.matchesFields recipient.traceFields)
      (selection.Matches recipient.traceFields) := by
  cases recipient with
  | unknown => exact answers_matchesFields hvalid (by decide) (by decide)
  | known party =>
    have hlabel : party.value.label.text.utf8ByteSize ≤ 128 :=
      party.value.label.utf8ByteSize_le.trans (by decide)
    exact answers_matchesFields hvalid (by simp [AmendedRecipient.traceFields])
      (by simp [AmendedRecipient.traceFields, hlabel])

/-- Blank text is found anywhere. -/
theorem matches_of_empty {scope : TraceScope} (fields : List String) :
    Matches ⟨scope, ""⟩ fields := .inl toLowercase_empty

end TraceSelection

namespace TraceSnapshot
variable {snapshot later : TraceSnapshot}

/-- Both histories of corrections are valid. -/
structure Valid (snapshot : TraceSnapshot) : Prop where
  sources : snapshot.validateSourceCorrections = .ok ()
  recipients : snapshot.validateRecipientCorrections = .ok ()

/-- The trace as it was recorded, and as each correction reads it. -/
def readings (snapshot : TraceSnapshot) : List StockPopulation :=
  snapshot.trace :: snapshot.sourceCorrections.map snapshot.interpreted

/-- Everyone the stock was said to have gone to, where that was corrected. -/
def recipients (snapshot : TraceSnapshot) : List AmendedRecipient :=
  snapshot.recipientCorrections.flatMap fun record =>
    [.known record.original.recipient, record.after]

theorem exists_reading {P : StockPopulation → Prop} : (∃ reading ∈ snapshot.readings, P reading) ↔
    P snapshot.trace ∨ ∃ correction ∈ snapshot.sourceCorrections,
      P (snapshot.interpreted correction) := by
  simp [readings]

theorem exists_recipient {P : AmendedRecipient → Prop} :
    (∃ recipient ∈ snapshot.recipients, P recipient) ↔
      ∃ record ∈ snapshot.recipientCorrections,
        ∃ recipient ∈ [.known record.original.recipient, record.after], P recipient := by
  simp only [recipients, List.mem_flatMap]
  constructor
  · rintro ⟨recipient, ⟨record, hrecord, hmem⟩, h⟩
    exact ⟨record, hrecord, recipient, hmem, h⟩
  · rintro ⟨record, hrecord, recipient, hmem, h⟩
    exact ⟨recipient, ⟨record, hrecord, hmem⟩, h⟩

/-- A later snapshot of the same population, with nothing taken back. -/
structure ExtendedBy (snapshot later : TraceSnapshot) : Prop where
  trace_eq : later.trace = snapshot.trace
  sources : snapshot.sourceCorrections <+: later.sourceCorrections
  recipients : snapshot.recipientCorrections <+: later.recipientCorrections

theorem ExtendedBy.readings_subset (h : snapshot.ExtendedBy later) :
    ∀ reading ∈ snapshot.readings, reading ∈ later.readings := by
  have hinterpreted : later.interpreted = snapshot.interpreted := by
    funext correction
    simp only [interpreted, h.trace_eq]
  rw [readings, readings, h.trace_eq, hinterpreted]
  exact List.cons_subset_cons _ (List.map_subset _ h.sources.subset)

theorem ExtendedBy.recipients_subset (h : snapshot.ExtendedBy later) :
    ∀ recipient ∈ snapshot.recipients, recipient ∈ later.recipients := by
  intro recipient hmem
  obtain ⟨record, hrecord, hmem⟩ := List.mem_flatMap.mp hmem
  exact List.mem_flatMap.mpr ⟨record, h.recipients.subset hrecord, hmem⟩

section Included
variable [Lowercase]

/-- What is included: a reading that is selected; or one in scope, if a recipient has the
text. -/
def Includes (snapshot : TraceSnapshot) (selection : TraceSelection) : Prop :=
  (∃ reading ∈ snapshot.readings, selection.Selects reading) ∨
    (∃ reading ∈ snapshot.readings,
      selection.scope.includesEvidence reading.id (.forPopulation reading) = true) ∧
    ∃ recipient ∈ snapshot.recipients, selection.Matches recipient.traceFields

variable {selection : TraceSelection}

/-- **A valid selection of a valid trace is answered**, by what is included. -/
theorem answers_includesSourceHistory (hsnapshot : snapshot.Valid)
    (hvalid : selection.validate = .ok ()) :
    Answers (snapshot.includesSourceHistory selection) (snapshot.Includes selection) := by
  have htrace := TraceSelection.answers_includes hvalid snapshot.trace
  have hreadings := Answers.anyM (l := snapshot.sourceCorrections) fun correction _ =>
    TraceSelection.answers_includes hvalid (snapshot.interpreted correction)
  have hrecipients := Answers.anyM (l := snapshot.recipientCorrections) fun record _ =>
    Answers.anyM (l := [.known record.original.recipient, record.after]) fun recipient _ =>
      TraceSelection.answers_recipient hvalid recipient
  unfold includesSourceHistory
  rw [hsnapshot.sources, hsnapshot.recipients, ok_bind, ok_bind]
  refine (htrace.orElse (hreadings.orElse (hrecipients.onlyIf _))).congr ?_
  rw [Includes, exists_reading, exists_reading, exists_recipient, or_assoc, Bool.or_eq_true,
    List.any_eq_true]
  exact Iff.rfl

theorem Includes.extended (hextended : snapshot.ExtendedBy later)
    (h : snapshot.Includes selection) : later.Includes selection := by
  have hreadings := hextended.readings_subset
  rcases h with ⟨reading, hmem, hselects⟩ | ⟨⟨reading, hmem, hscope⟩, recipient, hrecipient, htext⟩
  · exact .inl ⟨reading, hreadings reading hmem, hselects⟩
  · exact .inr ⟨⟨reading, hreadings reading hmem, hscope⟩, recipient,
      hextended.recipients_subset recipient hrecipient, htext⟩

end Included

/-! ## Searching for a source -/

/-- What was ever said about where the population came from. -/
def interpretations (snapshot : TraceSnapshot) : List SourceAttribution :=
  snapshot.trace.source :: snapshot.sourceCorrections.map (·.after.source)

end TraceSnapshot

/-- The source cannot be ruled out: it is the one named, or it is not known well enough. -/
def SourceAttribution.MayBe (id : HubRecordId) (source : SourceAttribution) : Prop :=
  source.Unresolved ∨ ∃ reference ∈ source.reference, reference.id = id

theorem TraceSourceEvidence.unresolved_ofAttribution (source : SourceAttribution) :
    (ofAttribution source).unresolved = true ↔ source.Unresolved := by
  cases source with
  | unknown => exact iff_of_true rfl trivial
  | referenced reference certainty =>
    cases hissuer : reference.issuer <;> cases certainty <;>
      simp [ofAttribution, unresolved, SourceAttribution.Unresolved, hissuer]

/-- Which populations a search for a source has in scope. -/
theorem TraceScope.includesEvidence_sourceImpact (id : HubRecordId) (trace : StockPopulation) :
    (sourceImpact id).includesEvidence trace.id (.forPopulation trace) = true ↔
      (∃ returned, trace.origin = .returned returned) ∨ trace.source.MayBe id := by
  by_cases horigin : ∃ returned, trace.origin = .returned returned
  · obtain ⟨returned, horigin⟩ := horigin
    simp [includesEvidence, TraceSourceEvidence.forPopulation, horigin,
      TraceSourceEvidence.isReturned]
  · have hevidence : TraceSourceEvidence.forPopulation trace = .ofAttribution trace.source := by
      cases hcase : trace.origin <;> simp_all [TraceSourceEvidence.forPopulation]
    simp only [includesEvidence, hevidence, horigin, false_or, Bool.or_eq_true,
      TraceSourceEvidence.unresolved_ofAttribution, SourceAttribution.MayBe]
    cases trace.source <;> simp [TraceSourceEvidence.ofAttribution, TraceSourceEvidence.isReturned,
      TraceSourceEvidence.names, SourceAttribution.reference]

namespace TraceSnapshot
variable [Lowercase] {snapshot : TraceSnapshot}

theorem includes_sourceImpact (id : HubRecordId) : snapshot.Includes ⟨.sourceImpact id, ""⟩ ↔
    (∃ returned, snapshot.trace.origin = .returned returned) ∨
      ∃ source ∈ snapshot.interpretations, source.MayBe id := by
  have hscope : snapshot.Includes ⟨.sourceImpact id, ""⟩ ↔ ∃ reading ∈ snapshot.readings,
      (TraceScope.sourceImpact id).includesEvidence reading.id (.forPopulation reading) = true := by
    constructor
    · rintro (⟨reading, hmem, hselects⟩ | ⟨hreading, -⟩)
      · exact ⟨reading, hmem, hselects.1⟩
      · exact hreading
    · rintro ⟨reading, hmem, hevidence⟩
      exact .inl ⟨reading, hmem, hevidence, TraceSelection.matches_of_empty _⟩
  rw [hscope, exists_reading]
  simp only [TraceScope.includesEvidence_sourceImpact, interpreted_origin, interpreted_source,
    interpretations, List.mem_cons, List.mem_map]
  constructor
  · rintro ((hreturned | hsource) | ⟨correction, hmem, hreturned | hsource⟩)
    · exact .inl hreturned
    · exact .inr ⟨_, .inl rfl, hsource⟩
    · exact .inl hreturned
    · exact .inr ⟨_, .inr ⟨correction, hmem, rfl⟩, hsource⟩
  · rintro (hreturned | ⟨source, rfl | ⟨correction, hmem, rfl⟩, hsource⟩)
    · exact .inl (.inl hreturned)
    · exact .inl (.inr hsource)
    · exact .inr ⟨correction, hmem, .inr hsource⟩

/-- **A recall misses no population.**  A search for a source finds exactly the returned
populations and those of which something was ever said that does not rule the source out; no
later correction takes a population out of a selection; and every valid selection is answered. -/
theorem recall_misses_no_population :
    (∀ (snapshot : TraceSnapshot) (s : HubRecordId), snapshot.Valid →
      (snapshot.includesSourceHistory ⟨.sourceImpact s, ""⟩ = .ok true ↔
        (∃ returned, snapshot.trace.origin = .returned returned) ∨
          ∃ source ∈ snapshot.interpretations, source.MayBe s)) ∧
    (∀ (selection : TraceSelection) (snapshot later : TraceSnapshot),
      selection.validate = .ok () → later.Valid → snapshot.ExtendedBy later →
      snapshot.includesSourceHistory selection = .ok true →
      later.includesSourceHistory selection = .ok true) ∧
    ∀ (selection : TraceSelection) (snapshot : TraceSnapshot), selection.validate = .ok () →
      snapshot.Valid → ∃ included, snapshot.includesSourceHistory selection = .ok included := by
  refine ⟨fun snapshot s hsnapshot => ?_, fun selection snapshot later hvalid hlater hextended h =>
    ?_, fun selection snapshot hvalid hsnapshot => ?_⟩
  · have hvalid : TraceSelection.validate ⟨.sourceImpact s, ""⟩ = .ok () := rfl
    rw [(answers_includesSourceHistory hsnapshot hvalid).eq_true_iff, includes_sourceImpact]
  · have hsnapshot : snapshot.Valid := by
      simp only [includesSourceHistory, accepted] at h
      exact ⟨h.1, h.2.1⟩
    have hincludes := (answers_includesSourceHistory hsnapshot hvalid).eq_true_iff.mp h
    exact (answers_includesSourceHistory hlater hvalid).eq_true_iff.mpr
      (hincludes.extended hextended)
  · obtain ⟨included, h, -⟩ := answers_includesSourceHistory hsnapshot hvalid
    exact ⟨included, h⟩

end TraceSnapshot

/-! ### The crate is looked for -/

/-- Lowercasing of the letters that the crate's texts are made of. -/
@[reducible] def asciiLowercase : Lowercase where
  toLowercase text := .ofList (text.toList.map Char.toLower)
  toLowercase_empty := rfl

/-- The crate as it was received, of unknown origin. -/
def crateTrace : TraceSnapshot where
  sourceCorrections := []
  recipientCorrections := []
  hub := .of 1
  stockRevision := .of 8
  catalogRevision := .initial
  trace := cratePopulation
  exits := [⟨.of 23, .of 6, crateDeparture.identification, crateRecipient,
    crateActor, crateTime⟩]
  actualDepartures := []

/-- The same trace, once it is known who did not receive the crate and where it came from. -/
def crateTraceCorrected : TraceSnapshot :=
  { crateTrace with
    sourceCorrections := [crateCameFromBatch], recipientCorrections := [crateWentElsewhere] }

/-- Found when nothing is known, the crate is found also after the correction, by a search for any
other source; had the batch been known from the start, only a search for the batch would find it. -/
theorem recall_misses_no_population_crate :
    let _ : Lowercase := asciiLowercase
    let known := { crateTrace with
      trace := { cratePopulation with
        source := crateCameFromBatch.after.source, sourceIssuer := some crateRecipient } }
    crateTraceCorrected.includesSourceHistory ⟨.sourceImpact (.of 62), ""⟩ = .ok true ∧
    known.includesSourceHistory ⟨.sourceImpact (.of 61), ""⟩ = .ok true ∧
    known.includesSourceHistory ⟨.sourceImpact (.of 62), ""⟩ = .ok false := by
  intro lowercase known
  have hvalid : crateTrace.Valid := ⟨rfl, by decide +kernel⟩
  have hcorrected : crateTraceCorrected.Valid := ⟨by decide +kernel, by decide +kernel⟩
  have hknown : known.Valid := ⟨rfl, by decide +kernel⟩
  obtain ⟨searched, extended, answered⟩ := TraceSnapshot.recall_misses_no_population
  refine ⟨extended _ crateTrace _ rfl hcorrected ⟨rfl, List.nil_prefix, List.nil_prefix⟩ ?_, ?_, ?_⟩
  · exact (searched crateTrace _ hvalid).mpr (.inr ⟨.unknown, List.mem_cons_self, .inl trivial⟩)
  · exact (searched known _ hknown).mpr (.inr ⟨_, List.mem_cons_self, .inr ⟨_, rfl, rfl⟩⟩)
  · obtain ⟨included, hincluded⟩ := answered ⟨.sourceImpact (.of 62), ""⟩ known rfl hknown
    cases included with
    | false => exact hincluded
    | true =>
      rcases (searched known _ hknown).mp hincluded with ⟨_, hreturned⟩ | ⟨source, hmem, hsource⟩
      · cases hreturned
      · obtain rfl := List.mem_singleton.mp hmem
        rcases hsource with (hissuer | hcertainty) | ⟨reference, hreference, hid⟩
        · cases hissuer
        · cases hcertainty
        · cases hreference
          cases hid

end HarvestCircle
