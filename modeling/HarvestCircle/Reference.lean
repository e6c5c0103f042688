import Mathlib.Algebra.Ring.Nat
import Mathlib.Order.Basic
import Mathlib.Data.List.Sort
import HarvestCircle.Checked

/-! # Identities, revisions, whole packs and the reference catalog

The values every hub record is made of.  Each carries in its type what its
constructor checks: an identity is sixteen bytes that are not all zero, a
revision fits a positive SQLite integer, a number of packs is at most
`hubMaxWholePacks`.  Byte arrays are read as big-endian numbers, so the
lexicographic order the source sorts them by is the order of the numbers.

Arithmetic on packs is checked, and `WholePacks.checkedAdd_eq_ok` and
`WholePacks.checkedSub_eq_ok` say what a passed check establishes: the sum or the
difference is exact, because the result's own bound is in its type.
-/
namespace HarvestCircle
open Checked

def hubReferenceCapacity : Nat := 512
def hubLabelUtf8Bytes : Nat := 120
def hubSourceCodeUtf8Bytes : Nat := 128
def hubProvenanceUtf8Bytes : Nat := 512
def hubMaxWholePacks : Nat := 1000000
def hubMaxNominalGrams : Nat := 1000000000

inductive HubPolicyError where
  | invalidIdentity
  | invalidRevision
  | revisionExhausted
  deriving DecidableEq, Repr

inductive HubReferenceError where
  | invalidId
  | invalidText
  | invalidQuantity
  | differentVariant
  | capacity
  | duplicateId
  | missingReference
  | wrongReferenceKind
  | staleRevision
  | revisionExhausted
  | immutablePack
  | immutableLocationPurpose
  | noChange
  | invalidHandlingBasis
  deriving DecidableEq, Repr

/-- The codes of errors that may be shown to a user. -/
inductive SafeErrorCode where
  | invalidPublicKey
  | invalidSecretKey
  | invalidIdentityMetadata
  | invalidProfileMetadata
  | invalidApplicationState
  | identityAlreadyExists
  | identityNotFound
  | keyringUnavailable
  | credentialMissing
  | storageUnavailable
  | storageCorrupt
  | storageQuarantined
  | storageBackupInvalid
  | unsupportedSchemaVersion
  | repairUnauthorized
  | pendingOperationRecoveryRequired
  | invalidRelayConfiguration
  | relayConnectionFailed
  | profileRefreshFailed
  | observerRegistrationFailed
  | nativeLibraryLoadFailed
  | availabilityInvalidInput
  | availabilityUnsupportedProfile
  | availabilityScopeMismatch
  | availabilityStaleQuery
  | availabilityCapacity
  | availabilityUnavailable
  | hubInvalidInput
  | hubConflict
  | hubCapacity
  | hubPermissionDenied
  | hubOutcomeUnknown
  deriving DecidableEq, Repr

/-! ## Identities -/

/-- Sixteen opaque bytes minted by the host. -/
@[ext] structure HubId where
  value : Nat
  nonzero : 0 < value := by decide
  bound : value < 2 ^ 128 := by decide
  deriving DecidableEq, Repr

theorem sixteenBytes_of_check {value : Nat} (h : decide (0 < value ∧ value < 2 ^ 128) = true) :
    0 < value ∧ value < 2 ^ 128 := of_decide_eq_true h

/-- The hub of a numeral. -/
abbrev HubId.of (value : Nat)
    (h : decide (0 < value ∧ value < 2 ^ 128) = true := by exact Eq.refl true) : HubId :=
  ⟨value, (sixteenBytes_of_check h).1, (sixteenBytes_of_check h).2⟩

/-- Sixteen bytes that name one record of a hub. -/
@[ext] structure HubRecordId where
  value : Nat
  nonzero : 0 < value := by decide
  bound : value < 2 ^ 128 := by decide
  deriving Repr

namespace HubRecordId

/-- The record of a numeral. -/
abbrev of (value : Nat) (h : decide (0 < value ∧ value < 2 ^ 128) = true := by exact Eq.refl true) :
    HubRecordId :=
  ⟨value, (sixteenBytes_of_check h).1, (sixteenBytes_of_check h).2⟩

theorem value_injective : Function.Injective HubRecordId.value := fun _ _ h => HubRecordId.ext h

instance : LinearOrder HubRecordId := LinearOrder.lift' HubRecordId.value value_injective

instance : Std.LawfulEqOrd HubRecordId where
  eq_of_compare h := compare_eq_iff_eq.mp h

instance : LawfulBEq HubRecordId := inferInstance

def byte (id : HubRecordId) (i : Nat) : Nat := id.value / 256 ^ (15 - i) % 256

/-- Two digits for each byte. -/
def toHex (id : HubRecordId) : String :=
  (List.range 16).foldl (fun encoded i =>
    (encoded.push (Nat.digitChar (id.byte i / 16))).push (Nat.digitChar (id.byte i % 16))) ""

@[simp] theorem utf8ByteSize_toHex (id : HubRecordId) : id.toHex.utf8ByteSize = 32 := by
  have hdigit : ∀ n < 16, (Nat.digitChar n).utf8Size = 1 := by decide
  have hhigh : ∀ i, (Nat.digitChar (id.byte i / 16)).utf8Size = 1 := by
    intro i
    have : id.byte i < 256 := Nat.mod_lt _ (by decide)
    exact hdigit _ (by omega)
  have hlow : ∀ i, (Nat.digitChar (id.byte i % 16)).utf8Size = 1 :=
    fun i => hdigit _ (Nat.mod_lt _ (by decide))
  simp [toHex, List.range_succ, hhigh, hlow]

end HubRecordId

/-- A canonical UUID, as the number its digits spell. -/
abbrev DurableRequestId := HubRecordId

/-- The 32 bytes of an account's verification key. -/
@[ext] structure PublicKey where
  value : Nat
  bound : value < 2 ^ 256 := by decide
  deriving Repr

namespace PublicKey

theorem bound_of_check {value : Nat} (h : decide (value < 2 ^ 256) = true) : value < 2 ^ 256 :=
  of_decide_eq_true h

/-- The account of a numeral. -/
abbrev of (value : Nat) (h : decide (value < 2 ^ 256) = true := by exact Eq.refl true) :
    PublicKey :=
  ⟨value, bound_of_check h⟩

theorem value_injective : Function.Injective PublicKey.value := fun _ _ h => PublicKey.ext h

instance : LinearOrder PublicKey := LinearOrder.lift' PublicKey.value value_injective

instance : Std.LawfulEqOrd PublicKey where
  eq_of_compare h := compare_eq_iff_eq.mp h

instance : Std.TransOrd PublicKey := inferInstance

end PublicKey

/-- Seconds since the epoch, never negative. -/
@[ext] structure UnixTimestamp where
  seconds : Nat
  bound : seconds < 2 ^ 63 := by decide
  deriving Repr

namespace UnixTimestamp

theorem bound_of_check {seconds : Nat} (h : decide (seconds < 2 ^ 63) = true) : seconds < 2 ^ 63 :=
  of_decide_eq_true h

/-- The time of a numeral. -/
abbrev of (seconds : Nat) (h : decide (seconds < 2 ^ 63) = true := by exact Eq.refl true) :
    UnixTimestamp :=
  ⟨seconds, bound_of_check h⟩

theorem seconds_injective : Function.Injective UnixTimestamp.seconds := fun _ _ h =>
  UnixTimestamp.ext h

instance : LinearOrder UnixTimestamp := LinearOrder.lift' UnixTimestamp.seconds seconds_injective

variable {a b : UnixTimestamp}

theorem le_iff : a ≤ b ↔ a.seconds ≤ b.seconds := Iff.rfl

theorem lt_iff : a < b ↔ a.seconds < b.seconds := Iff.rfl

end UnixTimestamp

/-! ## Revisions -/

/-- The greatest revision, `i64::MAX`. -/
def hubRevisionMaximum : Nat := 2 ^ 63 - 1

/-- A positive revision that fits SQLite's signed integer. -/
@[ext] structure HubRevision where
  value : Nat
  nonzero : 0 < value := by decide
  bound : value ≤ hubRevisionMaximum := by decide
  deriving DecidableEq, Repr

namespace HubRevision

theorem bounds_of_check {value : Nat} (h : decide (0 < value ∧ value ≤ hubRevisionMaximum) = true) :
    0 < value ∧ value ≤ hubRevisionMaximum := of_decide_eq_true h

/-- The revision of a numeral. -/
abbrev of (value : Nat)
    (h : decide (0 < value ∧ value ≤ hubRevisionMaximum) = true := by exact Eq.refl true) :
    HubRevision :=
  ⟨value, (bounds_of_check h).1, (bounds_of_check h).2⟩

def initial : HubRevision := ⟨1, Nat.one_pos, by decide⟩

def fromValue (value : Nat) : Except HubPolicyError HubRevision :=
  if h : 0 < value ∧ value ≤ hubRevisionMaximum then .ok ⟨value, h.1, h.2⟩
  else .error .invalidRevision

/-- The following revision, refused at the maximum. -/
def next (revision : HubRevision) : Except HubPolicyError HubRevision :=
  mapErr (fun _ => .revisionExhausted) (fromValue (revision.value + 1))

variable {r : HubRevision}

@[simp] theorem fromValue_eq_ok {value : Nat} : fromValue value = .ok r ↔ r.value = value := by
  have hr := r.nonzero
  have hb := r.bound
  unfold fromValue
  split
  · rw [Except.ok.injEq, HubRevision.ext_iff]
    exact eq_comm
  · rename_i h
    constructor
    · intro he; cases he
    · rintro rfl; exact absurd ⟨hr, hb⟩ h

@[simp] theorem next_eq_ok {r' : HubRevision} : r.next = .ok r' ↔ r'.value = r.value + 1 := by
  simp [next]

end HubRevision

/-! ## Whole packs -/

/-- A number of original packs. -/
@[ext] structure WholePacks where
  value : Nat
  bound : value ≤ hubMaxWholePacks := by decide
  deriving DecidableEq, Repr

namespace WholePacks

theorem bound_of_check {value : Nat} (h : decide (value ≤ hubMaxWholePacks) = true) :
    value ≤ hubMaxWholePacks := of_decide_eq_true h

/-- The packs of a numeral. -/
abbrev of (value : Nat) (h : decide (value ≤ hubMaxWholePacks) = true := by exact Eq.refl true) :
    WholePacks :=
  ⟨value, bound_of_check h⟩

def zero : WholePacks := ⟨0, Nat.zero_le _⟩

@[simp] theorem zero_value : zero.value = 0 := rfl

def fromValue (value : Nat) : Except HubReferenceError WholePacks :=
  if h : value ≤ hubMaxWholePacks then .ok ⟨value, h⟩ else .error .invalidQuantity

def checkedAdd (a b : WholePacks) : Except HubReferenceError WholePacks :=
  fromValue (a.value + b.value)

def checkedSub (a b : WholePacks) : Except HubReferenceError WholePacks :=
  if b.value ≤ a.value then fromValue (a.value - b.value) else .error .invalidQuantity

@[simp] theorem fromValue_eq_ok {value : Nat} {p : WholePacks} :
    fromValue value = .ok p ↔ p.value = value := by
  have hb := p.bound
  unfold fromValue
  split
  · rw [Except.ok.injEq, WholePacks.ext_iff]
    exact eq_comm
  · rename_i h
    constructor
    · intro he; cases he
    · rintro rfl; exact absurd hb h

variable {a b c : WholePacks}

@[simp] theorem checkedAdd_eq_ok :
    a.checkedAdd b = .ok c ↔ c.value = a.value + b.value := fromValue_eq_ok

@[simp] theorem checkedSub_eq_ok : a.checkedSub b = .ok c ↔ a.value = b.value + c.value := by
  unfold checkedSub
  split
  · rw [fromValue_eq_ok]; omega
  · constructor
    · intro h; cases h
    · intro h; omega

/-- **A loop that checks each element and adds up its packs** passes exactly when
every check does, and its total is the sum. -/
theorem foldlM_total {α ε : Type} {check : α → Except ε Unit} {f : HubReferenceError → ε}
    {packs : α → WholePacks} (l : List α) (start total : WholePacks) :
    l.foldlM (fun t a => do check a; mapErr f (t.checkedAdd (packs a))) start = .ok total ↔
      (∀ a ∈ l, check a = .ok ()) ∧
        total.value = start.value + (l.map fun a => (packs a).value).sum := by
  induction l generalizing start with
  | nil =>
    simp only [List.foldlM_nil, pure_eq_ok, List.map_nil, List.sum_nil, Nat.add_zero,
      List.not_mem_nil, false_implies, implies_true, true_and]
    rw [WholePacks.ext_iff]
    exact eq_comm
  | cons a l ih =>
    simp only [List.foldlM_cons, accepted, checkedAdd_eq_ok, ih, List.map_cons, List.sum_cons,
      List.mem_cons, forall_eq_or_imp]
    constructor
    · rintro ⟨t, ⟨ha, ht⟩, hl, htotal⟩
      exact ⟨⟨ha, hl⟩, by omega⟩
    · rintro ⟨⟨ha, hl⟩, htotal⟩
      have hbound := total.bound
      refine ⟨⟨start.value + (packs a).value, by omega⟩, ⟨ha, rfl⟩, hl, ?_⟩
      dsimp only
      omega

/-- A running total is the sum. -/
theorem foldlM_checkedAdd {α ε : Type} {f : HubReferenceError → ε} {packs : α → WholePacks}
    (l : List α) (start total : WholePacks) :
    l.foldlM (fun t a => mapErr f (t.checkedAdd (packs a))) start = .ok total ↔
      total.value = start.value + (l.map fun a => (packs a).value).sum := by
  simpa using @foldlM_total α ε (fun _ => .ok ()) f packs l start total

end WholePacks

/-- A nominal mass, never an arithmetic stock unit. -/
@[ext] structure NominalGrams where
  value : Nat
  nonzero : 0 < value
  bound : value ≤ hubMaxNominalGrams
  deriving DecidableEq, Repr

/-! ## Text -/

/-- Unicode `White_Space`, the characters `trim` removes. -/
def isWhiteSpace (c : Char) : Bool :=
  let n := c.toNat
  (0x9 ≤ n && n ≤ 0xd) || n == 0x20 || n == 0x85 || n == 0xa0 || n == 0x1680 ||
    (0x2000 ≤ n && n ≤ 0x200a) || n == 0x2028 || n == 0x2029 || n == 0x202f || n == 0x205f ||
    n == 0x3000

/-- Control characters and the bidirectional overrides and isolates. -/
def isForbidden (c : Char) : Bool :=
  let n := c.toNat
  n ≤ 0x1f || (0x7f ≤ n && n ≤ 0x9f) || (0x202a ≤ n && n ≤ 0x202e) ||
    (0x2066 ≤ n && n ≤ 0x2069)

/-- What `HubText::new` admits: short enough, not blank, nothing forbidden. -/
def textAccepted (maxBytes : Nat) (value : String) : Bool :=
  value.utf8ByteSize ≤ maxBytes && !value.toList.all isWhiteSpace && !value.toList.any isForbidden

/-- Retained original UTF-8 text of at most `maxBytes` bytes. -/
@[ext] structure HubText (maxBytes : Nat) where
  text : String
  accepted : textAccepted maxBytes text = true
  deriving DecidableEq, Repr

theorem HubText.utf8ByteSize_le {maxBytes : Nat} (value : HubText maxBytes) :
    value.text.utf8ByteSize ≤ maxBytes := by
  have h := value.accepted
  simp only [textAccepted, Bool.and_eq_true, decide_eq_true_eq] at h
  exact h.1.1

def HubText.new {maxBytes : Nat} (value : String) : Except HubReferenceError (HubText maxBytes) :=
  if h : textAccepted maxBytes value = true then .ok ⟨value, h⟩ else .error .invalidText

abbrev HubLabel := HubText hubLabelUtf8Bytes
abbrev SourceCode := HubText hubSourceCodeUtf8Bytes
abbrev SourceProvenance := HubText hubProvenanceUtf8Bytes

/-! ## Reference records -/

/-- The one versioned sample procedure. -/
inductive SampleHandlingBasis where
  | wholePackV1
  deriving DecidableEq, Repr

def SampleHandlingBasis.id : SampleHandlingBasis → String
  | .wholePackV1 => "whole-pack-demo-v1"

def SampleHandlingBasis.version : SampleHandlingBasis → Nat
  | .wholePackV1 => 1

def SampleHandlingBasis.siteTimezone : SampleHandlingBasis → String
  | .wholePackV1 => "UTC"

inductive LocationPurpose where
  | receiving
  | storage
  | other
  deriving DecidableEq, Repr

inductive ReferenceKind where
  | product
  | pack
  | party
  | location
  deriving DecidableEq, Repr

/-- What a reference stands for. -/
inductive ReferenceValue where
  | product (label : HubLabel)
  | pack (product : HubRecordId) (label : HubLabel) (nominalGrams : Option NominalGrams)
  | party (label : HubLabel)
  | location (label : HubLabel) (purpose : LocationPurpose)
  deriving DecidableEq, Repr

def ReferenceValue.kind : ReferenceValue → ReferenceKind
  | .product _ => .product
  | .pack .. => .pack
  | .party _ => .party
  | .location .. => .location

def ReferenceValue.label : ReferenceValue → HubLabel
  | .product label => label
  | .pack _ label _ => label
  | .party label => label
  | .location label _ => label

/-- A reference at one revision. -/
structure ReferenceRecord where
  id : HubRecordId
  revision : HubRevision
  value : ReferenceValue
  deriving DecidableEq, Repr

/-- A reference is never deleted. -/
inductive ReferenceMutation where
  | create (id : HubRecordId) (value : ReferenceValue)
  | revise (id : HubRecordId) (expectedRecordRevision : HubRevision) (value : ReferenceValue)
  deriving DecidableEq, Repr

structure ReferenceCommand where
  expectedCatalogRevision : HubRevision
  mutation : ReferenceMutation
  deriving DecidableEq, Repr

/-- The current references.  The source keeps them in a map keyed by identity;
here they are its values in key order.  No record is newer than the catalog: `restore`
refuses such a record, and an edit raises both revisions by one. -/
structure ReferenceCatalog where
  revision : HubRevision
  records : List ReferenceRecord
  sorted : records.Pairwise fun a b => a.id < b.id
  bounded : ∀ record ∈ records, record.revision.value ≤ revision.value
  deriving DecidableEq, Repr

namespace ReferenceCatalog

def handlingBasis (_catalog : ReferenceCatalog) : SampleHandlingBasis := .wholePackV1

def get (catalog : ReferenceCatalog) (id : HubRecordId) :
    Except HubReferenceError ReferenceRecord :=
  okOr (catalog.records.find? fun record => record.id = id) .missingReference

/-- The record of an identity, if it is of the kind. -/
def requireKind (catalog : ReferenceCatalog) (id : HubRecordId) (kind : ReferenceKind) :
    Except HubReferenceError ReferenceRecord := do
  let record ← catalog.get id
  refuse (record.value.kind ≠ kind) .wrongReferenceKind
  return record

theorem requireKind_spec {catalog : ReferenceCatalog} {id : HubRecordId} {kind : ReferenceKind}
    {record : ReferenceRecord} (h : catalog.requireKind id kind = .ok record) :
    record.id = id ∧ record.value.kind = kind ∧ record.revision.value ≤ catalog.revision.value := by
  simp only [requireKind, get, accepted, passed] at h
  obtain ⟨found, hfind, hkind, rfl⟩ := h
  exact ⟨by simpa using List.find?_some hfind, hkind,
    catalog.bounded _ (List.mem_of_find?_eq_some hfind)⟩

end ReferenceCatalog

end HarvestCircle
