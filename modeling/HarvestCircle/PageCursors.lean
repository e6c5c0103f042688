import HarvestCircle.Encoding
import HarvestCircle.Hexadecimal

/-! # Continuing a page of availability

A query over the local availability answers page by page.  The end of a page is told by a
cursor: the fingerprint of the query and the place of the last row, in lowercase
hexadecimal.  The cursor comes back as text from outside, so `parse` reads it again and
compares the fingerprint with that of the query it is to continue.
-/
namespace HarvestCircle
open Checked Codes

def availabilityPageDefaultRows : UInt16 := 50
def availabilityPageMaxRows : UInt16 := 100
def availabilityQueryTextMaxBytes : Nat := 512
def availabilityCursorMaxBytes : Nat := 512
/-- The length of an encoded cursor. -/
def cursorEncodedBytes : Nat := 151

inductive AvailabilityQueryError
  | invalidInput
  | inputTooLarge
  | scopeMismatch
  | staleQuery
  | capacity
  deriving DecidableEq, Repr

/-- An array of `n` bytes. -/
@[ext] structure Bytes (n : Nat) where
  list : List UInt8
  length_eq : list.length = n := by decide
  deriving DecidableEq, Repr

namespace Bytes

def zero (n : Nat) : Bytes n := ⟨List.replicate n 0, List.length_replicate⟩

def cons {n : Nat} (byte : UInt8) (bytes : Bytes n) : Bytes (n + 1) :=
  ⟨byte :: bytes.list, by rw [List.length_cons, bytes.length_eq]⟩

theorem parses (n : Nat) : Parses (Bytes.list (n := n)) Set.univ :=
  .of_length (fun bytes _ => bytes.length_eq) fun _ _ _ _ => Bytes.ext

@[simp] theorem list_append_inj {n : Nat} {a b : Bytes n} {r t : List UInt8} :
    a.list ++ r = b.list ++ t ↔ a = b ∧ r = t := (parses n).append_inj

end Bytes

/-- `u64::to_be_bytes`. -/
def counterBytes (counter : UInt64) : Bytes 8 := ⟨bigEndian 8 counter.toNat, length_bigEndian 8 _⟩

/-- `u64::from_be_bytes`. -/
def counterFrom (bytes : Bytes 8) : UInt64 := UInt64.ofNat (fromBigEndian bytes.list)

theorem counterBytes_injective : Function.Injective counterBytes := by
  intro a b he
  exact UInt64.toNat.inj (bigEndian_injOn 8 a.toNat_lt b.toNat_lt (congrArg Bytes.list he))

@[simp] theorem counterBytes_counterFrom (bytes : Bytes 8) :
    counterBytes (counterFrom bytes) = bytes := by
  have hlt := fromBigEndian_lt bytes.list
  have hbytes := bigEndian_fromBigEndian bytes.list
  rw [bytes.length_eq] at hlt hbytes
  apply Bytes.ext
  show bigEndian 8 (counterFrom bytes).toNat = bytes.list
  rw [counterFrom, UInt64.toNat_ofNat_of_lt' hlt, hbytes]

@[simp] theorem counterFrom_counterBytes (counter : UInt64) :
    counterFrom (counterBytes counter) = counter :=
  counterBytes_injective (counterBytes_counterFrom _)

/-! ## Queries -/

/-- How many rows a page has at most. -/
@[ext] structure AvailabilityPageLimit where
  rows : UInt16
  positive : rows ≠ 0 := by decide
  bound : rows ≤ availabilityPageMaxRows := by decide
  deriving DecidableEq, Repr

def AvailabilityPageLimit.new (rows : UInt16) :
    Except AvailabilityQueryError AvailabilityPageLimit :=
  if h : rows = 0 ∨ rows > availabilityPageMaxRows then .error .invalidInput
  else .ok ⟨rows, fun h0 => h (.inl h0), UInt16.not_lt.mp fun hlt => h (.inr hlt)⟩

instance : Inhabited AvailabilityPageLimit := ⟨⟨availabilityPageDefaultRows, by decide, by decide⟩⟩

/-- Text to search for, bounded in bytes. -/
@[ext] structure AvailabilitySearchText where
  text : String
  bound : text.utf8ByteSize ≤ availabilityQueryTextMaxBytes := by decide
  deriving DecidableEq, Repr

def AvailabilitySearchText.new (value : String) :
    Except AvailabilityQueryError AvailabilitySearchText :=
  if h : value.utf8ByteSize > availabilityQueryTextMaxBytes then .error .inputTooLarge
  else .ok ⟨value, Nat.not_lt.mp h⟩

@[ext] structure PublicPublisher where
  publicKey : PublicKey
  deriving DecidableEq, Repr

/-- The status of an offer in the event library; the source matches on these two cases. -/
inductive FoodAvailabilityStatus
  | active
  | sold
  deriving DecidableEq, Repr

/-- Which offers are asked for. -/
@[ext] structure AvailabilityQueryFilters where
  search : Option AvailabilitySearchText
  publisher : Option PublicPublisher
  status : Option FoodAvailabilityStatus
  deriving DecidableEq, Repr

/-- Which local store is asked, and in what state. -/
@[ext] structure AvailabilityQueryContext where
  contextId : Bytes 32
  storeGeneration : Bytes 32
  sourceRevision : UInt64
  projectionGeneration : UInt64
  context_nonzero : contextId ≠ .zero 32 := by decide
  store_nonzero : storeGeneration ≠ .zero 32 := by decide
  deriving DecidableEq, Repr

def AvailabilityQueryContext.new (contextId storeGeneration : Bytes 32)
    (sourceRevision projectionGeneration : UInt64) :
    Except AvailabilityQueryError AvailabilityQueryContext :=
  if h : contextId = .zero 32 ∨ storeGeneration = .zero 32 then .error .invalidInput
  else .ok ⟨contextId, storeGeneration, sourceRevision, projectionGeneration,
    fun hc => h (.inl hc), fun hs => h (.inr hs)⟩

/-- What a page is asked for: the arguments of `AvailabilityQueryFingerprint.new`. -/
@[ext] structure AvailabilityQuery where
  owner : PublicKey
  context : AvailabilityQueryContext
  sessionGeneration : UInt64
  filters : AvailabilityQueryFilters
  limit : AvailabilityPageLimit
  deriving DecidableEq, Repr

/-! ## Fingerprints -/

/-- The digest a query is recognised by. -/
@[ext] structure AvailabilityQueryFingerprint where
  digest : BitVec 256
  deriving DecidableEq, Repr

def AvailabilityQueryFingerprint.bytes (fingerprint : AvailabilityQueryFingerprint) : Bytes 32 :=
  ⟨digestBytes fingerprint.digest, length_bigEndian 32 _⟩

theorem AvailabilityQueryFingerprint.bytes_injective :
    Function.Injective AvailabilityQueryFingerprint.bytes := by
  intro a b he
  exact AvailabilityQueryFingerprint.ext
    (parses_digestBytes.injOn trivial trivial (congrArg Bytes.list he))

def hashSearch (search : Option AvailabilitySearchText) : List UInt8 :=
  flagged 0 1 (fun search => hashText search.text) search

theorem parses_hashSearchText :
    Parses (fun search : AvailabilitySearchText => hashText search.text) Set.univ :=
  parses_hashText.comp (fun _ _ _ _ => AvailabilitySearchText.ext) fun search _ =>
    Nat.lt_of_le_of_lt search.bound (by decide)

variable {r t input : List UInt8}

@[simp] theorem hashSearch_append_inj {a b : Option AvailabilitySearchText} :
    hashSearch a ++ r = hashSearch b ++ t ↔ a = b ∧ r = t :=
  (parses_hashSearchText.flagged (by decide)).inj_of_mem (fun _ _ => trivial) fun _ _ => trivial

def hashPublisher (publisher : Option PublicPublisher) : List UInt8 :=
  flagged 0 1 (fun publisher => publisher.publicKey.asBytes) publisher

theorem parses_publisher :
    Parses (fun publisher : PublicPublisher => publisher.publicKey.asBytes) Set.univ :=
  PublicKey.parses.comp (fun _ _ _ _ => PublicPublisher.ext) fun _ _ => trivial

@[simp] theorem hashPublisher_append_inj {a b : Option PublicPublisher} :
    hashPublisher a ++ r = hashPublisher b ++ t ↔ a = b ∧ r = t :=
  (parses_publisher.flagged (by decide)).inj_of_mem (fun _ _ => trivial) fun _ _ => trivial

def statusTag : Option FoodAvailabilityStatus → UInt8
  | none => 0
  | some .active => 1
  | some .sold => 2

@[simp] theorem statusTag_inj {a b : Option FoodAvailabilityStatus} :
    statusTag a = statusTag b ↔ a = b := by
  rcases a with _ | _ | _ <;> rcases b with _ | _ | _ <;> simp [statusTag]

theorem parses_limit : Parses (fun limit : AvailabilityPageLimit => bigEndian 2 limit.rows.toNat)
    Set.univ :=
  parses_number (fun _ _ he => AvailabilityPageLimit.ext (UInt16.toNat.inj he)) fun limit =>
    limit.rows.toNat_lt

/-- The string hashed for a query. -/
def AvailabilityQuery.preimage (query : AvailabilityQuery) : List UInt8 :=
  [utf8 "harvestcircle.availability.query.v1\x00", query.owner.asBytes,
    query.context.contextId.list, query.context.storeGeneration.list,
    (counterBytes query.context.sourceRevision).list,
    (counterBytes query.context.projectionGeneration).list,
    (counterBytes query.sessionGeneration).list, hashSearch query.filters.search,
    hashPublisher query.filters.publisher, [statusTag query.filters.status],
    bigEndian 2 query.limit.rows.toNat].flatten

/-- Every component of a query can be read back from its string. -/
theorem AvailabilityQuery.preimage_injective : Function.Injective AvailabilityQuery.preimage := by
  rintro ⟨owner, context, session, filters, limit⟩ ⟨owner', context', session', filters', limit'⟩ he
  simp only [preimage, List.flatten_cons, List.flatten_nil, List.append_nil,
    List.append_cancel_left_eq, PublicKey.asBytes_append_inj, Bytes.list_append_inj,
    counterBytes_injective.eq_iff, hashSearch_append_inj, hashPublisher_append_inj,
    List.singleton_append, List.cons.injEq, statusTag_inj] at he
  obtain ⟨rfl, hcontext, hstore, hsource, hprojection, rfl, hsearch, hpublisher, hstatus, hlimit⟩ :=
    he
  have hcontext : context = context' :=
    AvailabilityQueryContext.ext hcontext hstore hsource hprojection
  have hfilters : filters = filters' := AvailabilityQueryFilters.ext hsearch hpublisher hstatus
  have hlimit : limit = limit' := parses_limit.injOn trivial trivial hlimit
  rw [hcontext, hfilters, hlimit]

def AvailabilityQueryFingerprint.new [Sha256] (query : AvailabilityQuery) :
    AvailabilityQueryFingerprint := ⟨Sha256.digest query.preimage⟩

/-! ## Places in a page -/

/-- The time of an event in the event library, which is assumed to hold any `u64` and no more:
`as_u64` gives back what `new` was given. -/
@[ext] structure EventTimestamp where
  value : UInt64
  deriving DecidableEq, Repr

/-- The identity of an event.  The event library is assumed to hold any 32 bytes and no more:
`as_bytes` gives back what `from_bytes` was given. -/
@[ext] structure AvailabilityEventVersion where
  eventId : Bytes 32
  deriving DecidableEq, Repr

/-- Later events come first, and among those of one time the lower identity. -/
@[ext] structure AvailabilityOrderKey where
  createdAt : EventTimestamp
  version : AvailabilityEventVersion
  deriving DecidableEq, Repr

namespace AvailabilityOrderKey

/-- The order of the rows of a page. -/
def cmp (self other : AvailabilityOrderKey) : Ordering :=
  (compare other.createdAt.value self.createdAt.value).then
    (compare self.version.eventId.list other.version.eventId.list)

/-- Whether a row belongs after the last one of the page before. -/
def isAfter (self previous : AvailabilityOrderKey) : Bool := self.cmp previous == .gt

variable {a b : AvailabilityOrderKey}

theorem cmp_eq_iff : a.cmp b = .eq ↔ a = b := by
  rw [cmp, Ordering.then_eq_eq, Std.compare_eq_iff_eq, Std.compare_eq_iff_eq]
  constructor
  · rintro ⟨htime, hid⟩
    exact AvailabilityOrderKey.ext (EventTimestamp.ext htime.symm)
      (AvailabilityEventVersion.ext (Bytes.ext hid))
  · rintro rfl
    exact ⟨rfl, rfl⟩

instance : Std.TransCmp cmp :=
  inferInstanceAs (Std.TransCmp (compareLex
    (fun a b : AvailabilityOrderKey => compareOn (fun k : AvailabilityOrderKey => k.createdAt.value)
      b a)
    (compareOn fun k : AvailabilityOrderKey => k.version.eventId.list)))

theorem isAfter_iff : a.isAfter b = true ↔ a.cmp b = .gt := beq_iff_eq

theorem isAfter_irrefl (a : AvailabilityOrderKey) : a.isAfter a = false := by
  rw [Bool.eq_false_iff, Ne, isAfter_iff, cmp_eq_iff.mpr rfl]
  decide

theorem isAfter_trans {c : AvailabilityOrderKey} (hab : a.isAfter b = true)
    (hbc : b.isAfter c = true) : a.isAfter c = true := by
  rw [isAfter_iff] at *
  exact Std.TransCmp.gt_trans hab hbc

/-- Of two places one is after the other, unless they are the same. -/
theorem isAfter_connected (hab : a ≠ b) : a.isAfter b = true ∨ b.isAfter a = true := by
  rw [isAfter_iff, isAfter_iff, Std.OrientedCmp.gt_iff_lt (a := b)]
  cases h : a.cmp b with
  | lt => exact .inr rfl
  | eq => exact absurd (cmp_eq_iff.mp h) hab
  | gt => exact .inl rfl

end AvailabilityOrderKey

/-! ## Hexadecimal text -/

def appendHex (value : String) (bytes : List UInt8) : String :=
  bytes.foldl (fun value byte =>
    (value.push (Char.ofNat (Hexadecimal.digit (Hexadecimal.high byte)).toNat)).push
      (Char.ofNat (Hexadecimal.digit (Hexadecimal.low byte)).toNat)) value

/-- Capital letters are refused. -/
def hexDigit (byte : UInt8) : Except AvailabilityQueryError UInt8 :=
  if 0x30 ≤ byte ∧ byte ≤ 0x39 then .ok (byte - 0x30)
  else if 0x61 ≤ byte ∧ byte ≤ 0x66 then .ok (byte - 0x61 + 10)
  else .error .invalidInput

/-- The result starts with zeros and its bytes are set from the pairs in order. -/
def decodePairs : (n : Nat) → List UInt8 → Except AvailabilityQueryError (Bytes n)
  | n + 1, first :: second :: rest => do
    let high ← hexDigit first
    let low ← hexDigit second
    let tail ← decodePairs n rest
    return .cons (Hexadecimal.join high low) tail
  | n, _ => .ok (.zero n)

/-- Exactly two digits for each byte. -/
def decodeHex (n : Nat) (input : List UInt8) : Except AvailabilityQueryError (Bytes n) := do
  refuse (input.length ≠ n * 2) .invalidInput
  decodePairs n input

theorem utf8_push (text : String) (c : Char) :
    utf8 (text.push c) = utf8 text ++ String.utf8EncodeChar c := by
  simp [utf8_eq_flatMap]

theorem utf8_pushDigit (text : String) {half : UInt8} (h : half.toNat < 16) :
    utf8 (text.push (Char.ofNat (Hexadecimal.digit half).toNat)) =
      utf8 text ++ [Hexadecimal.digit half] := by
  rw [utf8_push]
  congr 1
  exact Hexadecimal.forall_of_toNat_lt (p := fun half =>
    String.utf8EncodeChar (Char.ofNat (Hexadecimal.digit half).toNat) = [Hexadecimal.digit half])
    (by decide) half h

theorem utf8_appendHex (value : String) (bytes : List UInt8) :
    utf8 (appendHex value bytes) = utf8 value ++ Hexadecimal.spell bytes := by
  induction bytes generalizing value with
  | nil => simp [appendHex]
  | cons byte bytes ih =>
    rw [appendHex, List.foldl_cons, ← appendHex, ih]
    rw [utf8_pushDigit _ (Hexadecimal.low_lt byte), utf8_pushDigit _ (Hexadecimal.high_lt byte)]
    simp [Hexadecimal.spell_cons]

/-- Only the sixteen lowercase digits are read. -/
theorem hexDigit_eq_ok {byte half : UInt8} :
    hexDigit byte = .ok half ↔ half.toNat < 16 ∧ byte = Hexadecimal.digit half := by
  have hread : ∀ byte : UInt8, ∀ half ∈ (hexDigit byte).toOption,
      half.toNat < 16 ∧ byte = Hexadecimal.digit half := by
    intro byte
    exact Hexadecimal.forall_of_toNat_lt (p := fun byte => ∀ half ∈ (hexDigit byte).toOption,
      half.toNat < 16 ∧ byte = Hexadecimal.digit half) (by decide +kernel) byte byte.toNat_lt
  constructor
  · intro h
    exact hread byte half (by rw [h]; rfl)
  · rintro ⟨hhalf, rfl⟩
    exact Hexadecimal.forall_of_toNat_lt (p := fun half =>
      hexDigit (Hexadecimal.digit half) = .ok half) (by decide) half hhalf

theorem decodePairs_spell (list : List UInt8) :
    decodePairs list.length (Hexadecimal.spell list) = .ok ⟨list, rfl⟩ := by
  induction list with
  | nil => rfl
  | cons byte list ih =>
    have hhigh := hexDigit_eq_ok.mpr ⟨Hexadecimal.high_lt byte, rfl⟩
    have hlow := hexDigit_eq_ok.mpr ⟨Hexadecimal.low_lt byte, rfl⟩
    show decodePairs (list.length + 1) (_ :: _ :: Hexadecimal.spell list) = _
    rw [decodePairs, hhigh, ok_bind, hlow, ok_bind, ih, ok_bind, Hexadecimal.join_high_low]
    rfl

theorem spell_of_decodePairs {n : Nat} {bytes : Bytes n} (hlength : input.length = n * 2)
    (h : decodePairs n input = .ok bytes) : input = Hexadecimal.spell bytes.list := by
  induction n, input using decodePairs.induct with
  | case1 n first second rest ih =>
    simp only [decodePairs, accepted, hexDigit_eq_ok] at h
    obtain ⟨high, ⟨hhigh, rfl⟩, low, ⟨hlow, rfl⟩, tail, htail, rfl⟩ := h
    have hrest : rest = Hexadecimal.spell tail.list := by
      refine ih ?_ htail
      simp only [List.length_cons] at hlength
      omega
    obtain ⟨hh, hl⟩ := Hexadecimal.high_low_join hhigh hlow
    rw [Bytes.cons, Hexadecimal.spell_cons, ← hrest, hh, hl]
  | case2 n input hshape =>
    -- an input of full length has a pair for every byte
    cases n with
    | zero =>
      rw [List.length_eq_zero_iff.mp bytes.length_eq, List.length_eq_zero_iff.mp hlength]
      rfl
    | succ n =>
      obtain ⟨first, second, rest, rfl⟩ : ∃ first second rest, input = first :: second :: rest := by
        rcases input with _ | ⟨first, _ | ⟨second, rest⟩⟩
        · simp at hlength
        · simp only [List.length_cons, List.length_nil] at hlength
          omega
        · exact ⟨first, second, rest, rfl⟩
      exact absurd rfl (hshape n first second rest rfl)

theorem decodeHex_eq_ok {n : Nat} {bytes : Bytes n} :
    decodeHex n input = .ok bytes ↔ input = Hexadecimal.spell bytes.list := by
  simp only [decodeHex, accepted, passed]
  constructor
  · rintro ⟨hlength, h⟩
    exact spell_of_decodePairs hlength h
  · rintro rfl
    obtain ⟨list, rfl⟩ := bytes
    exact ⟨Hexadecimal.length_spell list, decodePairs_spell list⟩

/-! ## Cursors -/

/-- The place after which a page goes on, with its text. -/
@[ext] structure AvailabilityPageCursor where
  value : String
  after : AvailabilityOrderKey
  deriving DecidableEq, Repr

namespace AvailabilityPageCursor

def encode (fingerprint : AvailabilityQueryFingerprint) (after : AvailabilityOrderKey) :
    AvailabilityPageCursor :=
  let value := appendHex "hcq1:" fingerprint.bytes.list
  let value := appendHex (value.push ':') (counterBytes after.createdAt.value).list
  let value := appendHex (value.push ':') after.version.eventId.list
  { value, after }

def parse (value : String) (expected : AvailabilityQueryFingerprint) :
    Except AvailabilityQueryError AvailabilityPageCursor := do
  let bytes := utf8 value
  refuse (bytes.length > availabilityCursorMaxBytes) .inputTooLarge
  refuse (bytes.length ≠ cursorEncodedBytes ∨ bytes.all (· < 128) = false) .invalidInput
  refuse (bytes.extract 0 5 ≠ utf8 "hcq1:" ∨ bytes[69]? ≠ some 0x3a ∨ bytes[86]? ≠ some 0x3a)
    .invalidInput
  let fingerprint ← decodeHex 32 (bytes.extract 5 69)
  let timestamp ← decodeHex 8 (bytes.extract 70 86)
  let eventId ← decodeHex 32 (bytes.extract 87 151)
  refuse (fingerprint ≠ expected.bytes) .staleQuery
  let after := { createdAt := ⟨counterFrom timestamp⟩, version := ⟨eventId⟩ }
  return { value, after }

/-- The bytes of a cursor: three fields with colons between them. -/
def frame (fingerprint : Bytes 32) (timestamp : Bytes 8) (eventId : Bytes 32) : List UInt8 :=
  utf8 "hcq1:" ++
    (Hexadecimal.spell fingerprint.list ++ 0x3a :: (Hexadecimal.spell timestamp.list ++
    0x3a :: Hexadecimal.spell eventId.list))

theorem utf8_encode (fingerprint : AvailabilityQueryFingerprint) (after : AvailabilityOrderKey) :
    utf8 (encode fingerprint after).value =
      frame fingerprint.bytes (counterBytes after.createdAt.value) after.version.eventId := by
  have hcolon : String.utf8EncodeChar ':' = [0x3a] := by decide
  simp [encode, frame, utf8_appendHex, utf8_push, hcolon]

variable {eventId : Bytes 32} {timestamp : Bytes 8} {bytes : List UInt8}

theorem lt_of_mem_frame {fingerprint : Bytes 32} {byte : UInt8}
    (h : byte ∈ frame fingerprint timestamp eventId) : byte < 128 := by
  simp only [frame, List.mem_append, List.mem_cons] at h
  rcases h with h | h | rfl | h | rfl | h
  · have hhead : (utf8 "hcq1:").all (· < 128) = true := by decide
    exact of_decide_eq_true (List.all_eq_true.mp hhead byte h)
  · exact Hexadecimal.lt_of_mem_spell h
  · decide
  · exact Hexadecimal.lt_of_mem_spell h
  · decide
  · exact Hexadecimal.lt_of_mem_spell h

variable {rest : List UInt8}

/-- A string read on from place `start` begins with a field of known length. -/
theorem drop_eq_append_iff {field : List UInt8} {start stop : Nat}
    (hlength : start + field.length = stop) :
    bytes.drop start = field ++ rest ↔ bytes.extract start stop = field ∧
      bytes.drop stop = rest := by
  subst hlength
  rw [List.extract_eq_take_drop, Nat.add_sub_cancel_left, ← List.drop_drop]
  constructor
  · intro h
    rw [h, List.take_left, List.drop_left]
    exact ⟨rfl, rfl⟩
  · rintro ⟨hfield, hrest⟩
    rw [← List.take_append_drop field.length (bytes.drop start), hfield, hrest]

theorem drop_eq_cons_iff {byte : UInt8} {start : Nat} :
    bytes.drop start = byte :: rest ↔ bytes[start]? = some byte ∧
      bytes.drop (start + 1) = rest := by
  constructor
  · intro h
    have hget : bytes[start]? = (bytes.drop start)[0]? := by rw [List.getElem?_drop, Nat.add_zero]
    rw [hget, ← List.drop_drop, h]
    exact ⟨rfl, rfl⟩
  · rintro ⟨hget, rfl⟩
    obtain ⟨hlt, rfl⟩ := List.getElem?_eq_some_iff.mp hget
    exact List.drop_eq_getElem_cons hlt

/-- What the checks of `parse` on the places of the string amount to. -/
theorem eq_frame_iff {fingerprint : Bytes 32} :
    bytes = frame fingerprint timestamp eventId ↔
      bytes.length = cursorEncodedBytes ∧ bytes.extract 0 5 = utf8 "hcq1:" ∧
      bytes.extract 5 69 = Hexadecimal.spell fingerprint.list ∧ bytes[69]? = some 0x3a ∧
      bytes.extract 70 86 = Hexadecimal.spell timestamp.list ∧ bytes[86]? = some 0x3a ∧
      bytes.extract 87 151 = Hexadecimal.spell eventId.list := by
  have hfingerprint : 5 + (Hexadecimal.spell fingerprint.list).length = 69 := by
    rw [Hexadecimal.length_spell, fingerprint.length_eq]
  have htimestamp : 70 + (Hexadecimal.spell timestamp.list).length = 86 := by
    rw [Hexadecimal.length_spell, timestamp.length_eq]
  have hid : 87 + (Hexadecimal.spell eventId.list).length = 151 := by
    rw [Hexadecimal.length_spell, eventId.length_eq]
  -- the last field is followed by nothing
  have hlast : bytes.drop 87 = Hexadecimal.spell eventId.list ↔
      bytes.extract 87 151 = Hexadecimal.spell eventId.list ∧ bytes.drop 151 = [] := by
    rw [← drop_eq_append_iff hid, List.append_nil]
  have hlength (h : bytes.extract 87 151 = Hexadecimal.spell eventId.list) :
      bytes.drop 151 = [] ↔ bytes.length = cursorEncodedBytes := by
    have := congrArg List.length h
    rw [List.extract_eq_take_drop, List.length_take, List.length_drop] at this
    rw [List.drop_eq_nil_iff, cursorEncodedBytes]
    omega
  have hhead : bytes.drop 0 = frame fingerprint timestamp eventId ↔
      bytes.extract 0 5 = utf8 "hcq1:" ∧ bytes.drop 5 = _ := drop_eq_append_iff rfl
  rw [List.drop_zero, drop_eq_append_iff hfingerprint, drop_eq_cons_iff,
    drop_eq_append_iff htimestamp, drop_eq_cons_iff, hlast] at hhead
  rw [hhead]
  constructor
  · rintro ⟨h0, h5, h69, h70, h86, h87, hend⟩
    exact ⟨(hlength h87).mp hend, h0, h5, h69, h70, h86, h87⟩
  · rintro ⟨hend, h0, h5, h69, h70, h86, h87⟩
    exact ⟨h0, h5, h69, h70, h86, h87, (hlength h87).mpr hend⟩

/-- The field texts determine the bytes. -/
theorem frame_inj {fingerprint fingerprint' : Bytes 32} {timestamp' : Bytes 8}
    {eventId' : Bytes 32} :
    frame fingerprint timestamp eventId = frame fingerprint' timestamp' eventId' ↔
      fingerprint = fingerprint' ∧ timestamp = timestamp' ∧ eventId = eventId' := by
  constructor
  · intro he
    obtain ⟨-, -, h5, -, h70, -, h87⟩ :=
      eq_frame_iff.mp (Eq.refl (frame fingerprint timestamp eventId))
    obtain ⟨-, -, h5', -, h70', -, h87'⟩ := eq_frame_iff.mp he
    rw [← decodeHex_eq_ok] at *
    exact ⟨Except.ok.inj (h5.symm.trans h5'), Except.ok.inj (h70.symm.trans h70'),
      Except.ok.inj (h87.symm.trans h87')⟩
  · rintro ⟨rfl, rfl, rfl⟩
    rfl

/-- A text stands for one fingerprint and one place. -/
theorem encode_value_inj {fingerprint fingerprint' : AvailabilityQueryFingerprint}
    {after after' : AvailabilityOrderKey} :
    (encode fingerprint after).value = (encode fingerprint' after').value ↔
      fingerprint = fingerprint' ∧ after = after' := by
  rw [← utf8_injective.eq_iff, utf8_encode, utf8_encode, frame_inj,
    AvailabilityQueryFingerprint.bytes_injective.eq_iff, counterBytes_injective.eq_iff]
  simp [AvailabilityOrderKey.ext_iff, EventTimestamp.ext_iff, AvailabilityEventVersion.ext_iff]

/-- Exactly the texts that `encode` writes for the expected fingerprint are read, each as
the cursor it was written for. -/
theorem parse_eq_ok {value : String} {expected : AvailabilityQueryFingerprint}
    {cursor : AvailabilityPageCursor} :
    parse value expected = .ok cursor ↔
      ∃ after, value = (encode expected after).value ∧ cursor = encode expected after := by
  simp only [parse, accepted, passed, decodeHex_eq_ok, Bool.not_eq_false]
  constructor
  · rintro ⟨-, ⟨hlength, -⟩, ⟨h0, h69, h86⟩, fingerprint, h5, timestamp, h70, eventId, h87,
      rfl, rfl⟩
    have hvalue : value = (encode expected ⟨⟨counterFrom timestamp⟩, ⟨eventId⟩⟩).value := by
      apply utf8_injective
      rw [utf8_encode, counterBytes_counterFrom]
      exact eq_frame_iff.mpr ⟨hlength, h0, h5, h69, h70, h86, h87⟩
    exact ⟨_, hvalue, AvailabilityPageCursor.ext hvalue rfl⟩
  · rintro ⟨after, rfl, rfl⟩
    have hframe := utf8_encode expected after
    have hascii : (utf8 (encode expected after).value).all (· < 128) = true := by
      rw [hframe, List.all_eq_true]
      exact fun byte hbyte => decide_eq_true (lt_of_mem_frame hbyte)
    obtain ⟨hlength, h0, h5, h69, h70, h86, h87⟩ := eq_frame_iff.mp hframe
    have hsize : cursorEncodedBytes ≤ availabilityCursorMaxBytes := by decide
    refine ⟨hlength ▸ hsize, ⟨hlength, hascii⟩, ⟨h0, h69, h86⟩, _, h5, _, h70, _, h87, rfl, ?_⟩
    rw [counterFrom_counterBytes]
    rfl

end AvailabilityPageCursor

open AvailabilityPageCursor in
/-- A cursor continues the query whose page it ends and no other.  What is accepted for a
fingerprint is what was written for it, with the place that was written; a cursor of one
query that another accepts means that the queries are the same or their strings collide;
and the places are strictly ordered, so that a page goes on after the last row seen. -/
theorem cursor_continues_only_its_query [Sha256] :
    (∀ value fingerprint,
      ((∃ cursor, parse value fingerprint = .ok cursor) ↔
        ∃ after, value = (encode fingerprint after).value) ∧
      ∀ cursor, parse value fingerprint = .ok cursor → ∃ after, cursor = encode fingerprint after ∧
        ∀ key, value = (encode fingerprint key).value ↔ key = after) ∧
    (∀ (query query' : AvailabilityQuery) after cursor,
      parse (encode (.new query) after).value (.new query') = .ok cursor →
      query = query' ∨ query.preimage ≠ query'.preimage ∧
        Sha256.digest query.preimage = Sha256.digest query'.preimage) ∧
    (∀ a b : AvailabilityOrderKey, a.cmp b = .eq ↔ a = b) ∧
    (∀ a : AvailabilityOrderKey, a.isAfter a = false) ∧
    (∀ a b c : AvailabilityOrderKey, a.isAfter b = true → b.isAfter c = true → a.isAfter c = true) ∧
    (∀ a b : AvailabilityOrderKey, a ≠ b → a.isAfter b = true ∨ b.isAfter a = true) := by
  refine ⟨?_, ?_, fun a b => AvailabilityOrderKey.cmp_eq_iff, AvailabilityOrderKey.isAfter_irrefl,
    fun a b c => AvailabilityOrderKey.isAfter_trans, fun a b =>
      AvailabilityOrderKey.isAfter_connected⟩
  · intro value fingerprint
    refine ⟨?_, ?_⟩
    · constructor
      · rintro ⟨cursor, hparse⟩
        obtain ⟨after, hvalue, -⟩ := parse_eq_ok.mp hparse
        exact ⟨after, hvalue⟩
      · rintro ⟨after, hvalue⟩
        exact ⟨_, parse_eq_ok.mpr ⟨after, hvalue, rfl⟩⟩
    · intro cursor hparse
      obtain ⟨after, rfl, rfl⟩ := parse_eq_ok.mp hparse
      refine ⟨after, rfl, fun key => ?_⟩
      rw [encode_value_inj, and_iff_right rfl]
      exact eq_comm
  · intro query query' after cursor hparse
    obtain ⟨after', hvalue, -⟩ := parse_eq_ok.mp hparse
    have hdigest : Sha256.digest query.preimage = Sha256.digest query'.preimage :=
      congrArg AvailabilityQueryFingerprint.digest (encode_value_inj.mp hvalue).1
    by_cases hpreimage : query.preimage = query'.preimage
    · exact .inl (AvailabilityQuery.preimage_injective hpreimage)
    · exact .inr ⟨hpreimage, hdigest⟩

/-- Active kale of one publisher, fifty rows a page. -/
def kaleQuery : AvailabilityQuery where
  owner := .of 6
  context := {
    contextId := ⟨List.replicate 32 1, by decide⟩
    storeGeneration := ⟨List.replicate 32 2, by decide⟩
    sourceRevision := 3, projectionGeneration := 4 }
  sessionGeneration := 5
  filters := {
    search := some ⟨"kale", by decide⟩, publisher := some ⟨.of 8⟩, status := some .active }
  limit := default

def kalePlace : AvailabilityOrderKey :=
  ⟨⟨1700000000⟩, ⟨⟨List.replicate 32 0xab, by decide⟩⟩⟩

/-- SHA-256 on the strings of this query and of the same query in the next session. -/
@[reducible] def kaleDigest : Sha256 where
  digest bytes :=
    if bytes = kaleQuery.preimage then
      0xd9e9f502966edac7a5523e299ec5b87b056295efe260c6f0f6c0cf343c5dadea
    else if bytes = { kaleQuery with sessionGeneration := 6 }.preimage then
      0x82a002c85df9e72cbad2c719e53c73260bf20d1757ec4c8e3826987b3ea87bb3
    else 0

def kaleText : String :=
  "hcq1:d9e9f502966edac7a5523e299ec5b87b056295efe260c6f0f6c0cf343c5dadea:000000006553f100:" ++
    "abababababababababababababababababababababababababababababababab"

open AvailabilityPageCursor in
/-- The text is read as the place after which the query goes on, and not for the next session. -/
theorem cursor_continues_only_its_query_kale :
    (∃ cursor, parse kaleText (@AvailabilityQueryFingerprint.new kaleDigest kaleQuery) =
      .ok cursor ∧ cursor.after = kalePlace) ∧
    parse kaleText (@AvailabilityQueryFingerprint.new kaleDigest
      { kaleQuery with sessionGeneration := 6 }) = .error .staleQuery := by
  let _ : Sha256 := kaleDigest
  have htext : kaleText = (encode (.new kaleQuery) kalePlace).value := by decide +kernel
  obtain ⟨haccepts, hcursor⟩ := cursor_continues_only_its_query.1 kaleText (.new kaleQuery)
  obtain ⟨cursor, hparse⟩ := haccepts.mpr ⟨kalePlace, htext⟩
  obtain ⟨after, rfl, hkey⟩ := hcursor cursor hparse
  refine ⟨⟨_, hparse, ?_⟩, by decide +kernel⟩
  exact ((hkey kalePlace).mp htext).symm

end HarvestCircle
