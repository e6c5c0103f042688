import HarvestCircle.Encoding
import HarvestCircle.Departure

/-! # The digest of a dispatch paper

What an operation made of a paper is kept as a digest: of the command's fingerprint and of
every field of the paper, its references replaced by the fingerprints of the commands that
would have created them.  The question is whether the digest still tells the paper.

Read from the left, the string tells every field but one.  The origin of a population is
marked by a tag, except that a receipt has none, so what follows a receipt could be taken
for a tag.  It never is, for reasons that lie elsewhere in the paper.  Another line follows:
where the tag has a letter, the line has the first byte of its packs, which is zero
(`lines_ne_origin`).  The draft ends: nothing is long enough to be a tag.  The version ends:
its stamps are those of the paper, whose texts hold no zero byte, and the lengths do not fit
(`closing_ne_origin`).  So a paper with a draft or one version is determined by its digest
unless two of the strings hashed on the way collide.
-/
namespace HarvestCircle
open Checked Codes

/-! ## What is hashed -/

def IdentificationStatus.tag : IdentificationStatus → UInt8
  | .issued => 1
  | .superseded => 2
  | .unused => 3

@[simp] theorem IdentificationStatus.tag_inj {a b : IdentificationStatus} :
    a.tag = b.tag ↔ a = b := by
  cases a <;> cases b <;> simp [tag]

/-- Whose catalog a reference was read from, and when. -/
structure ReferenceScope where
  hub : HubId
  actor : PublicKey
  catalog : HubRevision

/-- The command that would have created a reference. -/
def ReferenceScope.command (scope : ReferenceScope) (record : ReferenceRecord) :
    ReferenceCommand where
  expectedCatalogRevision := scope.catalog
  mutation := .create record.id record.value

/-- The string hashed for the fingerprint of that command. -/
def ReferenceScope.preimage (scope : ReferenceScope) (record : ReferenceRecord) : List UInt8 :=
  (scope.command record).preimage scope.hub scope.actor

namespace DispatchResult

def stamp (value : DispatchStamp) : List UInt8 :=
  [value.operation.asBytes, value.stockRevision.toBeBytes, value.actor.asBytes,
    value.recordedAt.toBeBytes, hashText value.observation.text].flatten

/-- Nothing marks a receipt: its bytes are older than the other origins. -/
def origin : PopulationOrigin → List UInt8
  | .receipt => []
  | .returned returned =>
    [utf8 "harvestcircle.hub.population.returned.v1\x00", returned.asBytes].flatten
  | .countedOpening history =>
    [utf8 "harvestcircle.hub.population.counted-opening.v1\x00", hashHistory history].flatten
  | .countedSurplus count relatedPopulation =>
    [utf8 "harvestcircle.hub.population.counted-surplus.v1\x00", count.asBytes,
      relatedPopulation.asBytes].flatten

variable [Sha256]

def reference (scope : ReferenceScope) (record : ReferenceRecord) : List UInt8 :=
  record.revision.toBeBytes ++
    digestBytes ((scope.command record).fingerprint scope.hub scope.actor)

def optionalReference (scope : ReferenceScope) (value : Option ReferenceRecord) : List UInt8 :=
  flagged 0 1 (reference scope) value

def trace (scope : ReferenceScope) (value : StockPopulation) : List UInt8 :=
  [value.id.asBytes, reference scope value.variant, reference scope value.product,
    optionalReference scope value.supplier, optionalReference scope value.producer,
    optionalReference scope value.sourceIssuer, hashSource value.source,
    value.originalPacks.toBeBytes, reference scope value.initialLocation,
    optionalReference scope value.plannedLocation, hashOccurrence value.occurred,
    value.recordedAt.toBeBytes, value.actor.asBytes, hashText value.observation.text,
    origin value.origin].flatten

def line (scope : ReferenceScope) (value : DispatchLineSnapshot) : List UInt8 :=
  [value.group.asBytes, value.groupRevision.toBeBytes, value.packs.toBeBytes,
    flagged 0 1 hashIdentification value.identification, reference scope value.location,
    reference scope value.product, reference scope value.variant, trace scope value.trace].flatten

def material (hub : HubId) (actor : PublicKey) (value : DispatchMaterial) : List UInt8 :=
  let scope : ReferenceScope := { hub, actor, catalog := value.catalogRevision }
  [value.stockRevision.toBeBytes, value.catalogRevision.toBeBytes, hashText value.basis.id,
    bigEndian 4 value.basis.version, hashText value.basis.siteTimezone,
    reference scope value.recipient, hashText value.observation.text,
    counted (bigEndian 4) (line scope) value.lines].flatten

def version (hub : HubId) (actor : PublicKey) (value : IdentificationVersion) : List UInt8 :=
  [value.id.asBytes, bigEndian 4 value.number, hashOptionalId value.previous,
    material hub actor value.material, stamp value.issued, [value.status.tag],
    flagged 0 1 stamp value.closed].flatten

end DispatchResult

/-- The string whose digest identifies a paper together with the command that led to it. -/
def DispatchRecord.preimage [Sha256] (record : DispatchRecord) (input : BitVec 256) : List UInt8 :=
  [utf8 "harvestcircle.hub.dispatch.result.v1\x00", digestBytes input, record.id.asBytes,
    record.hub.asBytes, record.revision.toBeBytes, DispatchResult.stamp record.created,
    DispatchResult.stamp record.updated,
    flagged 0 1 (DispatchResult.material record.hub record.created.actor) record.draft,
    counted (bigEndian 4) (DispatchResult.version record.hub record.created.actor)
      record.versions].flatten

def dispatchResultDigest [Sha256] (input : BitVec 256) (record : DispatchRecord) :
    Except DispatchError (BitVec 256) := do
  record.validate
  return Sha256.digest (record.preimage input)

/-! ## The references a digest takes the fingerprints of -/

def StockPopulation.references (value : StockPopulation) : List ReferenceRecord :=
  [value.variant, value.product] ++ value.supplier.toList ++ value.producer.toList ++
    value.sourceIssuer.toList ++ [value.initialLocation] ++ value.plannedLocation.toList

def DispatchLineSnapshot.references (value : DispatchLineSnapshot) : List ReferenceRecord :=
  [value.location, value.product, value.variant] ++ value.trace.references

def DispatchMaterial.references (value : DispatchMaterial) : List ReferenceRecord :=
  value.recipient :: value.lines.flatMap DispatchLineSnapshot.references

def DispatchRecord.materials (record : DispatchRecord) : List DispatchMaterial :=
  record.draft.toList ++ record.versions.map (·.material)

/-- Every string hashed on the way to the digest of a paper. -/
def DispatchRecord.hashed [Sha256] (record : DispatchRecord) (input : BitVec 256) :
    List (List UInt8) :=
  record.preimage input :: record.materials.flatMap fun material =>
    material.references.map (ReferenceScope.preimage {
      hub := record.hub, actor := record.created.actor, catalog := material.catalogRevision })

/-! ## Stamps -/

namespace DispatchResult

theorem parses_stamp : Parses stamp Set.univ := by
  rintro ⟨_, _, _, _, _⟩ - ⟨_, _, _, _, _⟩ - r t he
  simpa [stamp, and_assoc] using he

variable {t : List UInt8} {o : PopulationOrigin}

@[simp] theorem stamp_append_inj {a b : DispatchStamp} {r : List UInt8} :
    stamp a ++ r = stamp b ++ t ↔ a = b ∧ r = t := parses_stamp.append_inj

theorem length_stamp (value : DispatchStamp) :
    (stamp value).length = 72 + value.observation.text.utf8ByteSize := by
  simp [stamp, HubRecordId.asBytes, HubRevision.toBeBytes, PublicKey.asBytes,
    UnixTimestamp.toBeBytes, hashText, sized]
  omega

/-- The length of a stamp's text begins with a zero byte. -/
theorem stamp_getElem?_length (value : DispatchStamp) : (stamp value)[64]? = some 0 := by
  have hsize : value.observation.text.utf8ByteSize < 256 ^ 7 :=
    Nat.lt_of_le_of_lt value.observation.utf8ByteSize_le (by decide)
  simp [stamp, HubRecordId.asBytes, HubRevision.toBeBytes, PublicKey.asBytes,
    UnixTimestamp.toBeBytes, hashText, sized, List.getElem?_append, bigEndian_of_lt hsize]

/-- A stamp's text has no zero byte. -/
theorem stamp_getElem?_text (value : DispatchStamp) {i : Nat} (hi : 72 ≤ i) :
    (stamp value)[i]? ≠ some 0 := by
  have hsplit : stamp value = ([value.operation.asBytes, value.stockRevision.toBeBytes,
      value.actor.asBytes, value.recordedAt.toBeBytes,
      bigEndian 8 (utf8 value.observation.text).length].flatten) ++
        utf8 value.observation.text := by
    simp [stamp, hashText, sized]
  intro hbyte
  rw [hsplit, List.getElem?_append_right] at hbyte
  · exact value.observation.zero_notMem (List.mem_of_getElem? hbyte)
  · simpa [HubRecordId.asBytes, HubRevision.toBeBytes, PublicKey.asBytes,
      UnixTimestamp.toBeBytes] using hi

/-! ## Origins -/

theorem origin_starts (ho : o ≠ .receipt) : utf8 "harvestcircle.hub.population." <+: origin o := by
  have hreturned : utf8 "harvestcircle.hub.population." <+:
      utf8 "harvestcircle.hub.population.returned.v1\x00" := by decide
  have hopening : utf8 "harvestcircle.hub.population." <+:
      utf8 "harvestcircle.hub.population.counted-opening.v1\x00" := by decide
  have hsurplus : utf8 "harvestcircle.hub.population." <+:
      utf8 "harvestcircle.hub.population.counted-surplus.v1\x00" := by decide
  cases o with
  | receipt => exact absurd rfl ho
  | returned => exact hreturned.trans (List.prefix_append _ _)
  | countedOpening => exact hopening.trans (List.prefix_append _ _)
  | countedSurplus => exact hsurplus.trans (List.prefix_append _ _)

theorem length_origin (ho : o ≠ .receipt) : 29 ≤ (origin o).length :=
  (origin_starts ho).length_le

theorem origin_inj {a b : PopulationOrigin} (ha : a ≠ .receipt) (hb : b ≠ .receipt) {r : List UInt8}
    (he : origin a ++ r = origin b ++ t) : a = b ∧ r = t := by
  have hreturned : Terminated 0 (utf8 "harvestcircle.hub.population.returned.v1\x00") := by decide
  have hopening : Terminated 0 (utf8 "harvestcircle.hub.population.counted-opening.v1\x00") := by
    decide
  have hsurplus : Terminated 0 (utf8 "harvestcircle.hub.population.counted-surplus.v1\x00") := by
    decide
  cases a <;> cases b <;> simp_all [origin, purpose_inj]

/-- The packs of a line begin with a zero byte. -/
theorem line_packs [Sha256] (scope : ReferenceScope) (value : DispatchLineSnapshot) :
    ∃ rest, line scope value =
      (value.group.asBytes ++ value.groupRevision.toBeBytes) ++ 0 :: rest := by
  have hpacks : value.packs.toBeBytes = 0 :: bigEndian 3 value.packs.value :=
    bigEndian_of_lt (Nat.lt_of_le_of_lt value.packs.bound (by decide))
  refine ⟨bigEndian 3 value.packs.value ++ [flagged 0 1 hashIdentification value.identification,
    reference scope value.location, reference scope value.product, reference scope value.variant,
    trace scope value.trace].flatten, ?_⟩
  simp [line, hpacks]

/-- Where a line has the first byte of its packs, a tag has a letter. -/
theorem lines_ne_origin [Sha256] {scope : ReferenceScope} {l l' : List DispatchLineSnapshot}
    (hlen : l.length = l'.length) (ho : o ≠ .receipt) {t' : List UInt8} (ht : t ≠ origin o ++ t') :
    l.flatMap (line scope) ++ t ≠ origin o ++ (l'.flatMap (line scope) ++ t') := by
  cases l with
  | nil =>
    obtain rfl := List.length_eq_zero_iff.mp hlen.symm
    exact ht
  | cons a l =>
    obtain ⟨more, horigin⟩ := origin_starts ho
    obtain ⟨rest, hline⟩ := line_packs scope a
    have hwidth : (a.group.asBytes ++ a.groupRevision.toBeBytes).length = 24 := by
      simp [HubRecordId.asBytes, HubRevision.toBeBytes]
    have hzero : ((a :: l).flatMap (line scope) ++ t)[24]? = some 0 := by
      rw [List.flatMap_cons, hline, List.append_assoc, List.append_assoc,
        List.getElem?_append_right hwidth.le, hwidth]
      rfl
    have hletter : (origin o ++ (l'.flatMap (line scope) ++ t'))[24]? = some 116 := by
      rw [← horigin, List.append_assoc, List.getElem?_append_left (by decide)]
      decide
    intro he
    rw [he, hletter] at hzero
    exact absurd hzero (by decide)

/-! ## References -/

section
variable [Sha256] {hashed : Set (List UInt8)} (hfree : Set.InjOn Sha256.digest hashed)
include hfree

theorem parses_reference (scope : ReferenceScope) :
    Parses (reference scope) { record | scope.preimage record ∈ hashed } := by
  rintro ⟨id, revision, value⟩ ha ⟨id', revision', value'⟩ hb r t he
  simp only [reference, List.append_assoc, HubRevision.toBeBytes_append_inj,
    digestBytes_append_inj] at he
  obtain ⟨rfl, hdigest, hrest⟩ := he
  have hpreimage := hfree ha hb hdigest
  have hintent : (⟨scope.hub, scope.actor, (), scope.command ⟨id, revision, value⟩⟩ :
      Intent Unit ReferenceCommand) =
      ⟨scope.hub, scope.actor, (), scope.command ⟨id', revision, value'⟩⟩ :=
    ReferenceCommand.parses.injOn trivial trivial hpreimage
  cases hintent
  exact ⟨rfl, hrest⟩

theorem parses_optionalReference (scope : ReferenceScope) :
    Parses (optionalReference scope) { value | ∀ record ∈ value, scope.preimage record ∈ hashed } :=
  (parses_reference hfree scope).flagged (by decide)

variable {scope : ReferenceScope}

/-- A population's string determines everything but its origin. -/
theorem trace_inj {a b : StockPopulation}
    (ha : ∀ record ∈ a.references, scope.preimage record ∈ hashed)
    (hb : ∀ record ∈ b.references, scope.preimage record ∈ hashed) {r : List UInt8}
    (he : trace scope a ++ r = trace scope b ++ t) :
    b = { a with origin := b.origin } ∧ origin a.origin ++ r = origin b.origin ++ t := by
  have href := parses_reference hfree scope
  have hopt := parses_optionalReference hfree scope
  simp only [StockPopulation.references, List.mem_append, List.mem_cons, List.not_mem_nil, or_false,
    Option.mem_toList, or_imp, forall_and, forall_eq] at ha hb
  obtain ⟨⟨⟨⟨⟨⟨havariant, haproduct⟩, hasupplier⟩, haproducer⟩, haissuer⟩, halocation⟩,
    haplanned⟩ := ha
  obtain ⟨⟨⟨⟨⟨⟨hbvariant, hbproduct⟩, hbsupplier⟩, hbproducer⟩, hbissuer⟩, hblocation⟩,
    hbplanned⟩ := hb
  simp only [trace, List.flatten_cons, List.flatten_nil, List.append_assoc, List.append_nil,
    HubRecordId.asBytes_append_inj] at he
  obtain ⟨hid, he⟩ := he
  obtain ⟨hvariant, he⟩ := href havariant hbvariant he
  obtain ⟨hproduct, he⟩ := href haproduct hbproduct he
  obtain ⟨hsupplier, he⟩ := hopt hasupplier hbsupplier he
  obtain ⟨hproducer, he⟩ := hopt haproducer hbproducer he
  obtain ⟨hissuer, he⟩ := hopt haissuer hbissuer he
  simp only [hashSource_append_inj, WholePacks.toBeBytes_append_inj] at he
  obtain ⟨hsource, hpacks, he⟩ := he
  obtain ⟨hlocation, he⟩ := href halocation hblocation he
  obtain ⟨hplanned, he⟩ := hopt haplanned hbplanned he
  simp only [hashOccurrence_append_inj, UnixTimestamp.toBeBytes_append_inj,
    PublicKey.asBytes_append_inj, hashProvenance_append_inj] at he
  obtain ⟨hoccurred, hrecorded, hactor, hobservation, he⟩ := he
  refine ⟨?_, he⟩
  cases a
  cases b
  simp_all only

/-- A line's string determines everything but the origin of its population. -/
theorem line_inj {a b : DispatchLineSnapshot}
    (ha : ∀ record ∈ a.references, scope.preimage record ∈ hashed)
    (hb : ∀ record ∈ b.references, scope.preimage record ∈ hashed) {r : List UInt8}
    (he : line scope a ++ r = line scope b ++ t) :
    b = { a with trace := { a.trace with origin := b.trace.origin } } ∧
      origin a.trace.origin ++ r = origin b.trace.origin ++ t := by
  have href := parses_reference hfree scope
  simp only [DispatchLineSnapshot.references, List.mem_append, List.mem_cons, List.not_mem_nil,
    or_false, or_imp, forall_and, forall_eq] at ha hb
  obtain ⟨⟨halocation, haproduct, havariant⟩, hatrace⟩ := ha
  obtain ⟨⟨hblocation, hbproduct, hbvariant⟩, hbtrace⟩ := hb
  simp only [line, List.flatten_cons, List.flatten_nil, List.append_assoc, List.append_nil,
    HubRecordId.asBytes_append_inj, HubRevision.toBeBytes_append_inj,
    WholePacks.toBeBytes_append_inj, flaggedIdentification_append_inj] at he
  obtain ⟨hgroup, hrevision, hpacks, hidentification, he⟩ := he
  obtain ⟨hlocation, he⟩ := href halocation hblocation he
  obtain ⟨hproduct, he⟩ := href haproduct hbproduct he
  obtain ⟨hvariant, he⟩ := href havariant hbvariant he
  obtain ⟨htrace, he⟩ := trace_inj hfree hatrace hbtrace he
  refine ⟨?_, he⟩
  cases a
  cases b
  exact DispatchLineSnapshot.mk.injEq .. ▸ ⟨hgroup.symm, hrevision.symm, hpacks.symm,
    hidentification.symm, hlocation.symm, hproduct.symm, hvariant.symm, htrace⟩

/-- Lines are followed by lines or by the end, never by the tag of an origin. -/
theorem lines_inj {l l' : List DispatchLineSnapshot}
    (hl : ∀ a ∈ l, ∀ record ∈ a.references, scope.preimage record ∈ hashed)
    (hl' : ∀ a ∈ l', ∀ record ∈ a.references, scope.preimage record ∈ hashed)
    (hlen : l.length = l'.length) {t' : List UInt8} (ht : ∀ o ≠ .receipt, t ≠ origin o ++ t')
    (ht' : ∀ o ≠ .receipt, t' ≠ origin o ++ t)
    (he : l.flatMap (line scope) ++ t = l'.flatMap (line scope) ++ t') : l = l' ∧ t = t' := by
  induction l generalizing l' with
  | nil =>
    obtain rfl := List.length_eq_zero_iff.mp hlen.symm
    exact ⟨rfl, he⟩
  | cons a l ih =>
    cases l' with
    | nil => simp at hlen
    | cons b l' =>
      have hlen : l.length = l'.length := Nat.succ.inj hlen
      simp only [List.flatMap_cons, List.append_assoc] at he
      obtain ⟨hline, he⟩ := line_inj hfree (hl a (.head _)) (hl' b (.head _)) he
      -- the two origins are the same, so the lines are and the rest is
      have hsame : a.trace.origin = b.trace.origin ∧
          l.flatMap (line scope) ++ t = l'.flatMap (line scope) ++ t' := by
        by_cases ha : a.trace.origin = .receipt
        · by_cases hb : b.trace.origin = .receipt
          · rw [ha, hb] at he
            exact ⟨ha.trans hb.symm, he⟩
          · rw [ha] at he
            exact absurd he (lines_ne_origin hlen hb (ht _ hb))
        · by_cases hb : b.trace.origin = .receipt
          · rw [hb] at he
            exact absurd he.symm (lines_ne_origin hlen.symm ha (ht' _ ha))
          · exact origin_inj ha hb he
      obtain ⟨horigin, hrest⟩ := hsame
      obtain ⟨rfl, hend⟩ := ih (fun a ha => hl a (.tail _ ha)) (fun a ha => hl' a (.tail _ ha)) hlen
        hrest
      refine ⟨?_, hend⟩
      rw [hline, ← horigin]

end

/-! ## Where a paper ends -/

/-- What stands after the material of a version. -/
def closing (value : IdentificationVersion) : List UInt8 :=
  stamp value.issued ++ ([value.status.tag] ++ flagged 0 1 stamp value.closed)

/-- A last version was issued by the paper's last change, or left unused by it. -/
def LastOf (updated : DispatchStamp) (value : IdentificationVersion) : Prop :=
  value.status = .issued ∧ value.issued = updated ∧ value.closed = none ∨
    value.status = .unused ∧ value.closed = some updated

theorem closing_ne_origin {updated : DispatchStamp} {a b : IdentificationVersion}
    (ha : LastOf updated a) (hb : LastOf updated b) (ho : o ≠ .receipt) :
    closing a ≠ origin o ++ closing b := by
  intro he
  have hwidth := length_origin ho
  -- the byte where `b` begins to write the length of its text
  have hzero : (closing a)[(origin o).length + 64]? = some 0 := by
    rw [he, List.getElem?_append_right (Nat.le_add_right _ _), Nat.add_sub_cancel_left, closing,
      List.getElem?_append_left (by rw [length_stamp]; omega), stamp_getElem?_length]
  -- is not in the text of `a`
  have hshort : (stamp a.issued).length ≤ (origin o).length + 64 := by
    by_contra hlong
    rw [closing, List.getElem?_append_left (by omega)] at hzero
    exact stamp_getElem?_text a.issued (by omega) hzero
  have hlen := congrArg List.length he
  rw [length_stamp] at hshort
  rcases ha with ⟨hstatus, hissued, hclosed⟩ | ⟨hstatus, hclosed⟩
  · -- nothing stands after `a`
    simp only [closing, List.length_append, length_stamp, hstatus, hclosed, flagged,
      List.length_singleton] at hlen
    omega
  · rcases hb with ⟨hstatus', hissued', hclosed'⟩ | ⟨hstatus', hclosed'⟩
    · -- the same stamp stands after `[3, 1]` and before `[1, 0]`
      rw [closing, closing, hstatus, hclosed, hstatus', hissued', hclosed'] at he
      have hsame : (stamp a.issued).length = (origin o).length := by
        simp only [closing, List.length_append, List.length_cons, hstatus, hclosed, hstatus',
          hissued', hclosed', flagged, List.length_nil] at hlen
        omega
      have hrest := (List.append_inj he hsame).2
      have hcount := congrArg (List.count 0) hrest
      simp [flagged, IdentificationStatus.tag] at hcount
    · simp only [closing, List.length_append, length_stamp, hclosed, hclosed', flagged,
        List.length_cons, List.length_nil] at hlen
      omega

/-! ## Reading a paper back -/

variable [Sha256] {hashed : Set (List UInt8)}

theorem material_inj (hfree : Set.InjOn Sha256.digest hashed) {hub : HubId} {actor : PublicKey}
    {a b : DispatchMaterial} (ha : ∀ record ∈ a.references,
      ReferenceScope.preimage ⟨hub, actor, a.catalogRevision⟩ record ∈ hashed)
    (hb : ∀ record ∈ b.references,
      ReferenceScope.preimage ⟨hub, actor, b.catalogRevision⟩ record ∈ hashed)
    (halines : a.lines.length < 256 ^ 4) (hblines : b.lines.length < 256 ^ 4) {t' : List UInt8}
    (ht : ∀ o ≠ .receipt, t ≠ origin o ++ t') (ht' : ∀ o ≠ .receipt, t' ≠ origin o ++ t)
    (he : material hub actor a ++ t = material hub actor b ++ t') : a = b ∧ t = t' := by
  obtain ⟨sa, ca, ⟨⟩, ra, la, oa⟩ := a
  obtain ⟨sb, cb, ⟨⟩, rb, lb, ob⟩ := b
  simp only [material, counted, List.flatten_cons, List.flatten_nil, List.append_assoc,
    List.append_nil, HubRevision.toBeBytes_append_inj, List.append_cancel_left_eq] at he
  obtain ⟨rfl, rfl, he⟩ := he
  obtain ⟨hrecipient, he⟩ := parses_reference hfree _ (ha ra (.head _)) (hb rb (.head _)) he
  obtain ⟨hobservation, he⟩ := hashProvenance_append_inj.mp he
  obtain ⟨hlen, he⟩ := parses_bigEndian 4 halines hblines he
  obtain ⟨hlines, hend⟩ : la = lb ∧ t = t' := lines_inj hfree
    (fun x hx record hrecord => ha record (.tail _ (List.mem_flatMap.mpr ⟨x, hx, hrecord⟩)))
    (fun x hx record hrecord => hb record (.tail _ (List.mem_flatMap.mpr ⟨x, hx, hrecord⟩)))
    hlen ht ht' he
  exact ⟨by rw [hrecipient, hobservation, hlines], hend⟩

/-- A last version's string determines it. -/
theorem version_inj (hfree : Set.InjOn Sha256.digest hashed) {hub : HubId} {actor : PublicKey}
    {a b : IdentificationVersion}
    (ha : ∀ record ∈ a.material.references,
      ReferenceScope.preimage ⟨hub, actor, a.material.catalogRevision⟩ record ∈ hashed)
    (hb : ∀ record ∈ b.material.references,
      ReferenceScope.preimage ⟨hub, actor, b.material.catalogRevision⟩ record ∈ hashed)
    (halines : a.material.lines.length < 256 ^ 4) (hblines : b.material.lines.length < 256 ^ 4)
    (hnumber : a.number = b.number) {updated : DispatchStamp} (halast : LastOf updated a)
    (hblast : LastOf updated b) (he : version hub actor a = version hub actor b) : a = b := by
  simp only [version, List.flatten_cons, List.flatten_nil, List.append_nil, hnumber,
    HubRecordId.asBytes_append_inj, hashOptionalId_append_inj, List.append_cancel_left_eq] at he
  obtain ⟨hid, hprevious, he⟩ := he
  obtain ⟨hmaterial, he⟩ := material_inj hfree ha hb halines hblines
    (fun o ho => closing_ne_origin halast hblast ho)
    (fun o ho => closing_ne_origin hblast halast ho) he
  obtain ⟨hissued, he⟩ := stamp_append_inj.mp he
  obtain ⟨hstatus, he⟩ := List.cons.inj he
  have hclosed := (parses_stamp.flagged (by decide)).injOn (fun _ _ => trivial)
    (fun _ _ => trivial) he
  cases a
  cases b
  simp only [IdentificationStatus.tag_inj] at *
  simp only [IdentificationVersion.mk.injEq]
  exact ⟨hid, hnumber, hprevious, hmaterial, hissued, hstatus, hclosed⟩

end DispatchResult

namespace DispatchRecord
open DispatchResult
variable [Sha256] {record record' : DispatchRecord} {input input' : BitVec 256}
  {hashed : Set (List UInt8)}

theorem mem_hashed (hrecord : ∀ s ∈ record.hashed input, s ∈ hashed) {material : DispatchMaterial}
    (hmaterial : material ∈ record.materials) : ∀ reference ∈ material.references,
    ReferenceScope.preimage ⟨record.hub, record.created.actor, material.catalogRevision⟩ reference ∈
      hashed := by
  intro reference hreference
  refine hrecord _ (.tail _ (List.mem_flatMap.mpr ⟨material, hmaterial, ?_⟩))
  exact List.mem_map.mpr ⟨reference, hreference, rfl⟩

omit [Sha256] in
theorem lines_lt {material : DispatchMaterial} (h : material.validate = .ok ()) :
    material.lines.length < 256 ^ 4 := by
  simp only [DispatchMaterial.validate, accepted, passed] at h
  exact Nat.lt_of_le_of_lt h.1.2.1 (by decide)

/-- The only version is the last one. -/
theorem Valid.lastOf (hvalid : record.Valid) {version : IdentificationVersion}
    (hversions : record.versions = [version]) : LastOf record.updated version := by
  have hfits := hvalid.versions [] version [] hversions
  rcases hvalid.last version (by simp [hversions]) with ⟨hstatus, hupdated⟩ | hunused
  · exact .inl ⟨hstatus, hupdated.symm, hfits.open_iff.mp hstatus⟩
  · exact .inr hunused

theorem preimage_inj (hfree : Set.InjOn Sha256.digest hashed)
    (hrecord : ∀ s ∈ record.hashed input, s ∈ hashed)
    (hrecord' : ∀ s ∈ record'.hashed input', s ∈ hashed)
    (hvalid : record.Valid) (hvalid' : record'.Valid)
    (hshape : record.draft.isSome ∨ record.versions.length = 1)
    (hshape' : record'.draft.isSome ∨ record'.versions.length = 1)
    (he : record.preimage input = record'.preimage input') : input = input' ∧ record = record' := by
  have href := fun m => @mem_hashed _ record input _ hrecord m
  have href' := fun m => @mem_hashed _ record' input' _ hrecord' m
  simp only [preimage, List.flatten_cons, List.flatten_nil, List.append_nil,
    List.append_cancel_left_eq, digestBytes_append_inj, HubRecordId.asBytes_append_inj,
    HubId.asBytes_append_inj, HubRevision.toBeBytes_append_inj, stamp_append_inj, counted] at he
  obtain ⟨hinput, hid, hhub, hrevision, hcreated, hupdated, he⟩ := he
  refine ⟨hinput, ?_⟩
  obtain ⟨id, hub, revision, created, updated, draft, versions⟩ := record
  obtain ⟨id', hub', revision', created', updated', draft', versions'⟩ := record'
  dsimp only at hid hhub hrevision hcreated hupdated he hshape hshape' href href'
  subst hid hhub hrevision hcreated hupdated
  cases draft with
  | some draft =>
    cases draft' with
    | none => exact absurd (List.cons.inj he).1 (by decide)
    | some draft' =>
      obtain rfl : versions = [] := by simpa using hvalid.draft_iff
      obtain rfl : versions' = [] := by simpa using hvalid'.draft_iff
      -- after a draft comes the number of versions, which is zero
      have hend : ∀ o ≠ .receipt, bigEndian 4 0 ≠ origin o ++ bigEndian 4 0 := by
        intro o ho hend
        have hlen := congrArg List.length hend
        have hwidth := length_origin ho
        rw [List.length_append] at hlen
        omega
      have hdraft := (material_inj hfree (href draft (by simp [materials]))
        (href' draft' (by simp [materials])) (lines_lt (hvalid.draft draft rfl).1)
        (lines_lt (hvalid'.draft draft' rfl).1) hend hend (List.cons.inj he).2).1
      rw [hdraft]
  | none =>
    cases draft' with
    | some draft' => exact absurd (List.cons.inj he).1 (by decide)
    | none =>
      obtain ⟨version, rfl⟩ : ∃ version, versions = [version] :=
        List.length_eq_one_iff.mp (by simpa using hshape)
      obtain ⟨version', rfl⟩ : ∃ version, versions' = [version] :=
        List.length_eq_one_iff.mp (by simpa using hshape')
      have hfits := hvalid.versions [] version [] rfl
      have hfits' := hvalid'.versions [] version' [] rfl
      have hversion := version_inj hfree (href version.material (by simp [materials]))
        (href' version'.material (by simp [materials])) (lines_lt hfits.material)
        (lines_lt hfits'.material) (hfits.number_eq.trans hfits'.number_eq.symm)
        (hvalid.lastOf rfl) (hvalid'.lastOf rfl) (by simpa [flagged] using he)
      rw [hversion]

end DispatchRecord

/-- **The digest determines the paper.**  Two inputs and two validated papers, each with a draft or
one version, that have one digest are the same input and the same paper, or two different strings
hashed for the digests and for the fingerprints in them have one SHA-256 digest. -/
theorem digest_determines_paper [Sha256] {input input' digest : BitVec 256}
    {record record' : DispatchRecord} (h : dispatchResultDigest input record = .ok digest)
    (h' : dispatchResultDigest input' record' = .ok digest)
    (hshape : record.draft.isSome ∨ record.versions.length = 1)
    (hshape' : record'.draft.isSome ∨ record'.versions.length = 1) :
    (input = input' ∧ record = record') ∨
      Collides Sha256.digest (record.hashed input ++ record'.hashed input') := by
  simp only [dispatchResultDigest, accepted, DispatchRecord.validate_eq_ok] at h h'
  obtain ⟨hvalid, hdigest⟩ := h
  obtain ⟨hvalid', hdigest'⟩ := h'
  by_cases hcollides : Collides Sha256.digest (record.hashed input ++ record'.hashed input')
  · exact .inr hcollides
  · have hfree := injOn_digest hcollides
    have hleft : ∀ s ∈ record.hashed input, s ∈ record.hashed input ++ record'.hashed input' :=
      fun s hs => List.mem_append_left _ hs
    have hright : ∀ s ∈ record'.hashed input', s ∈ record.hashed input ++ record'.hashed input' :=
      fun s hs => List.mem_append_right _ hs
    have hsame : record.preimage input = record'.preimage input' :=
      hfree (hleft _ (.head _)) (hright _ (.head _)) (hdigest.trans hdigest'.symm)
    exact .inl (DispatchRecord.preimage_inj hfree hleft hright hvalid hvalid' hshape hshape' hsame)

/-! ### The digest of the crate's paper -/

/-- SHA-256 on the identities of the crate's paper and on its references. -/
@[reducible] def crateReferenceDigest : Sha256 where
  digest bytes :=
    let scope : ReferenceScope := ⟨cratePaper.hub, crateActor, .initial⟩
    if bytes = scope.preimage crateVariant then
      0x040fed9bf14d35cb87d41bc03f33c3457c7ec2a7ec8ee733e50304cec2556738
    else if bytes = scope.preimage crateProduct then
      0x8bb79db72b590e88ca9159e6a8c46b064b77486cda14a86fd8039ed849ed3e75
    else if bytes = scope.preimage crateRecipient then
      0xc7fc2bd89b44bb80ec9038d57ae488f3d605a4997e4b57f98cff956d2c5eb26b
    else if bytes = scope.preimage crateDock then
      0xccec4ecf512ea46e5c0d93c0cb6604d373eca99918e70577efad7e84e5912a3a
    else if bytes = scope.preimage crateShelf then
      0xaabac98d9958972b3337f817c6fe291b8b44d471f9c812fa8157827d5e14b317
    else crateDigest.digest bytes

/-- The fingerprint of the command that issued the crate's paper. -/
def crateIssueFingerprint : BitVec 256 :=
  0x19b73f8ef2c01514d5d08f3e1df16f315825045d060b66da9f5e7107bf5ac17e

/-- SHA-256 on what is hashed for the crate's paper. -/
@[reducible] def cratePaperDigest : Sha256 where
  digest bytes :=
    if bytes = @DispatchRecord.preimage crateReferenceDigest cratePaper crateIssueFingerprint then
      0xafab19424fa37ddc702d9ac58dbab9fcd2c361b341013e055b55ce02536aff9f
    else crateReferenceDigest.digest bytes

/-- The crate's paper is told by its digest. -/
theorem digest_determines_paper_crate :
    let _ : Sha256 := cratePaperDigest
    dispatchResultDigest crateIssueFingerprint cratePaper =
      .ok 0xafab19424fa37ddc702d9ac58dbab9fcd2c361b341013e055b55ce02536aff9f ∧
    ((crateIssueFingerprint = crateIssueFingerprint ∧ cratePaper = cratePaper) ∨
      Collides Sha256.digest (cratePaper.hashed crateIssueFingerprint ++
        cratePaper.hashed crateIssueFingerprint)) := by
  intro inst
  have hdigest : dispatchResultDigest crateIssueFingerprint cratePaper =
      .ok 0xafab19424fa37ddc702d9ac58dbab9fcd2c361b341013e055b55ce02536aff9f := by
    decide +kernel
  exact ⟨hdigest, digest_determines_paper hdigest hdigest (.inr rfl) (.inr rfl)⟩

end HarvestCircle
