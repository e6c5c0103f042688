import HarvestCircle.Codes
import HarvestCircle.Movement

/-! # What is fed to the hash

Commands and results are identified by SHA-256 digests of their fields.  Identities,
revisions and quantities are written as big-endian numbers of one width, texts with their
length in front, options behind a flag, alternatives behind a tag.  This module has these
encodings and that each of them parses; a string that begins with one of them and goes on
in any way determines the value and the rest, which is what the simp lemmas say.
-/
namespace HarvestCircle
open Codes

/-! ## Numbers -/

@[simp] theorem length_bigEndian (width value : Nat) : (bigEndian width value).length = width := by
  simp [bigEndian]

theorem bigEndian_succ (width value : Nat) :
    bigEndian (width + 1) value = bigEndian width (value / 256) ++ [UInt8.ofNat (value % 256)] := by
  rw [bigEndian, List.range_succ, List.map_append, bigEndian]
  congr 1
  · apply List.map_congr_left
    intro i hi
    have hi : i < width := List.mem_range.mp hi
    have hpow : 256 ^ (width + 1 - 1 - i) = 256 * 256 ^ (width - 1 - i) := by
      rw [← Nat.pow_succ']
      congr 1
      omega
    rw [hpow, Nat.div_div_eq_div_mul]
  · simp

theorem bigEndian_of_lt {width value : Nat} (h : value < 256 ^ width) :
    bigEndian (width + 1) value = 0 :: bigEndian width value := by
  rw [bigEndian, List.range_succ_eq_map, List.map_cons, List.map_map, bigEndian]
  congr 1
  · rw [Nat.add_sub_cancel, Nat.sub_zero, Nat.div_eq_of_lt h]
    rfl
  · apply List.map_congr_left
    intro i _
    have : width + 1 - 1 - (i + 1) = width - 1 - i := by omega
    simp only [Function.comp_apply, Nat.succ_eq_add_one, this]

theorem bigEndian_injOn (width : Nat) : Set.InjOn (bigEndian width) { n | n < 256 ^ width } := by
  intro a ha b hb he
  induction width generalizing a b with
  | zero =>
    have ha : a < 1 := ha
    have hb : b < 1 := hb
    omega
  | succ width ih =>
    rw [bigEndian_succ, bigEndian_succ] at he
    obtain ⟨hhigh, hlow⟩ := List.append_inj' he rfl
    have hdigit : a % 256 = b % 256 := by
      have := congrArg UInt8.toNat (List.cons.inj hlow).1
      simpa using this
    have hrest : a / 256 = b / 256 := by
      refine ih ?_ ?_ hhigh
      · exact Nat.div_lt_of_lt_mul (by simpa [Nat.pow_succ'] using ha)
      · exact Nat.div_lt_of_lt_mul (by simpa [Nat.pow_succ'] using hb)
    omega

/-- The number a big-endian string stands for. -/
def fromBigEndian (bytes : List UInt8) : Nat :=
  bytes.foldl (fun value byte => value * 256 + byte.toNat) 0

theorem fromBigEndian_concat (bytes : List UInt8) (byte : UInt8) :
    fromBigEndian (bytes ++ [byte]) = fromBigEndian bytes * 256 + byte.toNat := by
  simp [fromBigEndian]

theorem fromBigEndian_lt (bytes : List UInt8) : fromBigEndian bytes < 256 ^ bytes.length := by
  induction bytes using List.reverseRecOn with
  | nil => simp [fromBigEndian]
  | append_singleton bytes byte ih =>
    have hbyte := byte.toNat_lt
    rw [fromBigEndian_concat, List.length_append, List.length_singleton, Nat.pow_succ]
    omega

theorem bigEndian_fromBigEndian (bytes : List UInt8) :
    bigEndian bytes.length (fromBigEndian bytes) = bytes := by
  induction bytes using List.reverseRecOn with
  | nil => rfl
  | append_singleton bytes byte ih =>
    have hbyte := byte.toNat_lt
    rw [List.length_append, List.length_singleton, bigEndian_succ, fromBigEndian_concat]
    have hhigh : (fromBigEndian bytes * 256 + byte.toNat) / 256 = fromBigEndian bytes := by omega
    have hlow : (fromBigEndian bytes * 256 + byte.toNat) % 256 = byte.toNat := by omega
    rw [hhigh, hlow, ih, UInt8.ofNat_toNat]

theorem parses_bigEndian (width : Nat) : Parses (bigEndian width) { n | n < 256 ^ width } :=
  .of_length (fun a _ => length_bigEndian width a) (bigEndian_injOn width)

/-- A value told by a number that fits. -/
theorem parses_number {α : Type} {width : Nat} {f : α → Nat} (hf : Function.Injective f)
    (hbound : ∀ a, f a < 256 ^ width) : Parses (fun a => bigEndian width (f a)) Set.univ :=
  (parses_bigEndian width).comp hf.injOn fun a _ => hbound a

def HubId.asBytes (id : HubId) : List UInt8 := bigEndian 16 id.value

def PublicKey.asBytes (key : PublicKey) : List UInt8 := bigEndian 32 key.value

def HubRevision.toBeBytes (revision : HubRevision) : List UInt8 := bigEndian 8 revision.value

def WholePacks.toBeBytes (packs : WholePacks) : List UInt8 := bigEndian 4 packs.value

def UnixTimestamp.toBeBytes (time : UnixTimestamp) : List UInt8 := bigEndian 8 time.seconds

/-- The 32 bytes of a digest. -/
def digestBytes (digest : BitVec 256) : List UInt8 := bigEndian 32 digest.toNat

theorem HubId.parses : Parses HubId.asBytes Set.univ :=
  parses_number (fun _ _ => HubId.ext) fun id => id.bound

theorem HubRecordId.parses : Parses HubRecordId.asBytes Set.univ :=
  parses_number HubRecordId.value_injective fun id => id.bound

theorem PublicKey.parses : Parses PublicKey.asBytes Set.univ :=
  parses_number PublicKey.value_injective fun key => key.bound

theorem HubRevision.parses : Parses HubRevision.toBeBytes Set.univ :=
  parses_number (fun _ _ => HubRevision.ext) fun revision =>
    Nat.lt_of_le_of_lt revision.bound (by decide)

theorem WholePacks.parses : Parses WholePacks.toBeBytes Set.univ :=
  parses_number (fun _ _ => WholePacks.ext) fun packs => Nat.lt_of_le_of_lt packs.bound (by decide)

theorem UnixTimestamp.parses : Parses UnixTimestamp.toBeBytes Set.univ :=
  parses_number UnixTimestamp.seconds_injective fun time => Nat.lt_trans time.bound (by decide)

theorem parses_digestBytes : Parses digestBytes Set.univ :=
  parses_number (fun _ _ => BitVec.eq_of_toNat_eq) fun digest => digest.isLt

/-! ## Text -/

@[simp] theorem length_utf8 (text : String) : (utf8 text).length = text.utf8ByteSize := rfl

theorem utf8_injective : Function.Injective utf8 := by
  intro a b he
  rw [← String.toByteArray_inj]
  exact ByteArray.ext (Array.toList_inj.mp he)

theorem utf8_eq_flatMap (text : String) :
    utf8 text = text.toList.flatMap String.utf8EncodeChar := by
  have h : text.toByteArray = text.toList.utf8Encode := String.utf8Encode_toList.symm
  rw [utf8, String.toUTF8_eq_toByteArray, h, List.utf8Encode]
  simp

theorem zero_notMem_utf8EncodeChar {c : Char} (h : isForbidden c = false) :
    0 ∉ String.utf8EncodeChar c := by
  have hbyte : ∀ n : Nat, 0 < n % 256 → (0 : UInt8) ≠ UInt8.ofNat n := by
    intro n hn he
    have := congrArg UInt8.toNat he
    simp only [UInt8.toNat_ofNat', UInt8.toNat_zero] at this
    omega
  have hc : 0x20 ≤ c.val.toNat := by
    simp only [isForbidden, Bool.or_eq_false_iff, decide_eq_false_iff_not] at h
    have := h.1.1.1
    have : c.val.toNat = c.toNat := rfl
    omega
  unfold String.utf8EncodeChar
  dsimp only
  split_ifs
  all_goals
    simp only [List.mem_cons, List.not_mem_nil, or_false, not_or]
  · exact hbyte _ (by omega)
  · exact ⟨hbyte _ (by omega), hbyte _ (by omega)⟩
  · exact ⟨hbyte _ (by omega), hbyte _ (by omega), hbyte _ (by omega)⟩
  · exact ⟨hbyte _ (by omega), hbyte _ (by omega), hbyte _ (by omega), hbyte _ (by omega)⟩

/-- Accepted text has no zero byte. -/
theorem HubText.zero_notMem {maxBytes : Nat} (value : HubText maxBytes) : 0 ∉ utf8 value.text := by
  have h := value.accepted
  simp only [textAccepted, Bool.and_eq_true, Bool.not_eq_true', List.any_eq_false] at h
  rw [utf8_eq_flatMap]
  intro hmem
  obtain ⟨c, hc, hbyte⟩ := List.mem_flatMap.mp hmem
  exact zero_notMem_utf8EncodeChar (by simpa using h.2 c hc) hbyte

variable {r t : List UInt8}

/-- Purposes end with their only zero byte. -/
theorem purpose_inj {a b : String} (ha : Terminated 0 (utf8 a)) (hb : Terminated 0 (utf8 b)) :
    utf8 a ++ r = utf8 b ++ t ↔ a = b ∧ r = t := by
  rw [← utf8_injective.eq_iff]
  exact (parses_terminated 0).inj_of_mem ha hb

def hashText (text : String) : List UInt8 := sized (bigEndian 8) (utf8 text)

theorem parses_hashText : Parses hashText { text | text.utf8ByteSize < 2 ^ 64 } :=
  (parses_sized (parses_bigEndian 8)).comp utf8_injective.injOn fun _ h => h

theorem HubText.parses {maxBytes : Nat} (h : maxBytes < 2 ^ 64) :
    Parses (fun value : HubText maxBytes => hashText value.text) Set.univ :=
  parses_hashText.comp (fun _ _ _ _ => HubText.ext) fun value _ =>
    Nat.lt_of_le_of_lt value.utf8ByteSize_le h

/-! ## Peeling off one field -/

section
variable {r t : List UInt8}

@[simp] theorem HubId.asBytes_append_inj {a b : HubId} :
    a.asBytes ++ r = b.asBytes ++ t ↔ a = b ∧ r = t := HubId.parses.append_inj

@[simp] theorem HubRecordId.asBytes_append_inj {a b : HubRecordId} :
    a.asBytes ++ r = b.asBytes ++ t ↔ a = b ∧ r = t := HubRecordId.parses.append_inj

@[simp] theorem PublicKey.asBytes_append_inj {a b : PublicKey} :
    a.asBytes ++ r = b.asBytes ++ t ↔ a = b ∧ r = t := PublicKey.parses.append_inj

@[simp] theorem HubRevision.toBeBytes_append_inj {a b : HubRevision} :
    a.toBeBytes ++ r = b.toBeBytes ++ t ↔ a = b ∧ r = t := HubRevision.parses.append_inj

@[simp] theorem WholePacks.toBeBytes_append_inj {a b : WholePacks} :
    a.toBeBytes ++ r = b.toBeBytes ++ t ↔ a = b ∧ r = t := WholePacks.parses.append_inj

@[simp] theorem UnixTimestamp.toBeBytes_append_inj {a b : UnixTimestamp} :
    a.toBeBytes ++ r = b.toBeBytes ++ t ↔ a = b ∧ r = t := UnixTimestamp.parses.append_inj

@[simp] theorem digestBytes_append_inj {a b : BitVec 256} :
    digestBytes a ++ r = digestBytes b ++ t ↔ a = b ∧ r = t := parses_digestBytes.append_inj

@[simp] theorem hashLabel_append_inj {a b : HubLabel} :
    hashText a.text ++ r = hashText b.text ++ t ↔ a = b ∧ r = t :=
  (HubText.parses (by decide)).append_inj

@[simp] theorem hashSourceCode_append_inj {a b : SourceCode} :
    hashText a.text ++ r = hashText b.text ++ t ↔ a = b ∧ r = t :=
  (HubText.parses (by decide)).append_inj

@[simp] theorem hashProvenance_append_inj {a b : SourceProvenance} :
    hashText a.text ++ r = hashText b.text ++ t ↔ a = b ∧ r = t :=
  (HubText.parses (by decide)).append_inj

end

/-! ## Alternatives -/

def hashOptionalId (id : Option HubRecordId) : List UInt8 := flagged 0 1 HubRecordId.asBytes id

theorem parses_hashOptionalId : Parses hashOptionalId Set.univ :=
  (HubRecordId.parses.flagged (by decide)).mono fun _ _ _ _ => trivial

@[simp] theorem hashOptionalId_append_inj {a b : Option HubRecordId} :
    hashOptionalId a ++ r = hashOptionalId b ++ t ↔ a = b ∧ r = t :=
  parses_hashOptionalId.append_inj

def hashOccurrence : Occurrence → List UInt8
  | .unknown => [0]
  | .known time => [[1], time.toBeBytes].flatten
  | .interval earliest latest => [[2], earliest.toBeBytes, latest.toBeBytes].flatten

@[simp] theorem hashOccurrence_append_inj {a b : Occurrence} :
    hashOccurrence a ++ r = hashOccurrence b ++ t ↔ a = b ∧ r = t := by
  cases a <;> cases b <;> simp [hashOccurrence, and_assoc]

def SourceReferenceKind.tag : SourceReferenceKind → UInt8
  | .producerBatch => 1
  | .supplierReference => 2
  | .other => 3

@[simp] theorem SourceReferenceKind.tag_inj {a b : SourceReferenceKind} :
    a.tag = b.tag ↔ a = b := by
  cases a <;> cases b <;> simp [tag]

def SourceCertainty.tag : SourceCertainty → UInt8
  | .reportedPossible => 1
  | .established => 2

@[simp] theorem SourceCertainty.tag_inj {a b : SourceCertainty} : a.tag = b.tag ↔ a = b := by
  cases a <;> cases b <;> simp [tag]

def hashSource : SourceAttribution → List UInt8
  | .unknown => [0]
  | .referenced source certainty => [[1], source.id.asBytes, hashOptionalId source.issuer,
      [source.kind.tag], hashText source.code.text, hashText source.provenance.text,
      [certainty.tag]].flatten

@[simp] theorem hashSource_append_inj {a b : SourceAttribution} :
    hashSource a ++ r = hashSource b ++ t ↔ a = b ∧ r = t := by
  rcases a with _ | ⟨⟨_, _, _, _, _⟩, _⟩ <;> rcases b with _ | ⟨⟨_, _, _, _, _⟩, _⟩ <;>
    simp [hashSource, and_assoc]

def hashIdentification (identity : PhysicalIdentification) : List UInt8 :=
  hashText identity.label.text ++ hashText identity.observation.text

theorem parses_hashIdentification : Parses hashIdentification Set.univ := by
  rintro ⟨_, _⟩ - ⟨_, _⟩ - r t he
  simpa [hashIdentification, and_assoc] using he

@[simp] theorem flaggedIdentification_append_inj {a b : Option PhysicalIdentification} :
    flagged 0 1 hashIdentification a ++ r = flagged 0 1 hashIdentification b ++ t ↔
      a = b ∧ r = t :=
  (parses_hashIdentification.flagged (by decide)).inj_of_mem (fun _ _ => trivial) fun _ _ => trivial

def hashHistory : OpeningHistory → List UInt8
  | .unknown => [0]
  | .externalReference provenance => [[1], hashText provenance.text].flatten

@[simp] theorem hashHistory_append_inj {a b : OpeningHistory} :
    hashHistory a ++ r = hashHistory b ++ t ↔ a = b ∧ r = t := by
  cases a <;> cases b <;> simp [hashHistory]

/-! ## References -/

def ReferenceKind.tag : ReferenceKind → UInt8
  | .product => 1
  | .pack => 2
  | .party => 3
  | .location => 4

def LocationPurpose.tag : LocationPurpose → UInt8
  | .receiving => 1
  | .storage => 2
  | .other => 3

@[simp] theorem LocationPurpose.tag_inj {a b : LocationPurpose} : a.tag = b.tag ↔ a = b := by
  cases a <;> cases b <;> simp [tag]

/-- Absent grams are written as zero, which no nominal mass is. -/
def gramsBytes (grams : Option NominalGrams) : List UInt8 :=
  bigEndian 4 (grams.elim 0 NominalGrams.value)

theorem parses_gramsBytes : Parses gramsBytes Set.univ := by
  refine parses_number ?_ ?_
  · rintro (_ | a) (_ | b) he
    · rfl
    · have := b.nonzero
      simp at he
      omega
    · have := a.nonzero
      simp at he
      omega
    · exact congrArg some (NominalGrams.ext he)
  · rintro (_ | a)
    · decide
    · exact Nat.lt_of_le_of_lt a.bound (by decide)

@[simp] theorem gramsBytes_append_inj {a b : Option NominalGrams} :
    gramsBytes a ++ r = gramsBytes b ++ t ↔ a = b ∧ r = t := parses_gramsBytes.append_inj

/-- What a value has beside its kind and label. -/
def ReferenceValue.details : ReferenceValue → List UInt8
  | .pack item _ nominalGrams => item.asBytes ++ gramsBytes nominalGrams
  | .location _ purpose => [purpose.tag]
  | _ => []

def hashReferenceValue (value : ReferenceValue) : List UInt8 :=
  [[value.kind.tag], hashText value.label.text, value.details].flatten

@[simp] theorem hashReferenceValue_append_inj {a b : ReferenceValue} :
    hashReferenceValue a ++ r = hashReferenceValue b ++ t ↔ a = b ∧ r = t := by
  cases a <;> cases b <;>
    simp [hashReferenceValue, ReferenceValue.kind, ReferenceKind.tag, ReferenceValue.label,
      ReferenceValue.details, and_assoc, and_left_comm]

/-- The mutation's own tag, with the revision it expects. -/
def ReferenceMutation.header : ReferenceMutation → List UInt8
  | .create _ _ => [1]
  | .revise _ expectedRecordRevision _ => [[2], expectedRecordRevision.toBeBytes].flatten

def ReferenceMutation.id : ReferenceMutation → HubRecordId
  | .create id _ => id
  | .revise id _ _ => id

def ReferenceMutation.value : ReferenceMutation → ReferenceValue
  | .create _ value => value
  | .revise _ _ value => value

/-! ## Intents -/

/-- A command with the hub and the account it is for and the identities it is given. -/
structure Intent (Ids Command : Type) where
  hub : HubId
  actor : PublicKey
  ids : Ids
  command : Command

/-- The string hashed for an intent. -/
def Intent.feed {Ids Command : Type} (preimage : Command → HubId → PublicKey → Ids → List UInt8)
    (intent : Intent Ids Command) : List UInt8 :=
  preimage intent.command intent.hub intent.actor intent.ids

namespace ReferenceCommand

/-- The string whose digest is the command's fingerprint. -/
def preimage (command : ReferenceCommand) (hub : HubId) (actor : PublicKey) : List UInt8 :=
  [utf8 "harvestcircle.hub.reference.command.v1\x00", hub.asBytes, actor.asBytes,
    command.expectedCatalogRevision.toBeBytes, command.mutation.header,
    command.mutation.id.asBytes, hashReferenceValue command.mutation.value].flatten

def fingerprint [Sha256] (command : ReferenceCommand) (hub : HubId) (actor : PublicKey) :
    BitVec 256 :=
  Sha256.digest (command.preimage hub actor)

theorem parses : Parses (Intent.feed fun command hub actor () => preimage command hub actor)
    Set.univ := by
  rintro ⟨hub, actor, ⟨⟩, ⟨_, _ | _⟩⟩ - ⟨hub', actor', ⟨⟩, ⟨_, _ | _⟩⟩ - r t he <;>
    simp_all [Intent.feed, preimage, ReferenceMutation.header, ReferenceMutation.id,
      ReferenceMutation.value]

end ReferenceCommand

end HarvestCircle
