import HarvestCircle.Reference

/-! # Derived identities

Records that a plan creates are named by the operation that created them: the
first sixteen bytes of the SHA-256 digest of a purpose, written as a
zero-terminated ASCII string, and the operation's bytes.  The hash itself is the
`sha2` crate's, so it is a parameter here; the byte strings that are hashed are
spelled out.
-/
namespace HarvestCircle
open Checked

/-- The digest function of the `sha2` crate, as a big-endian number. -/
class Sha256 where
  digest : List UInt8 → BitVec 256

/-- The UTF-8 bytes of a text. -/
def utf8 (text : String) : List UInt8 := text.toUTF8.data.toList

/-- The `width` low bytes of a number, most significant first. -/
def bigEndian (width value : Nat) : List UInt8 :=
  (List.range width).map fun i => UInt8.ofNat (value / 256 ^ (width - 1 - i) % 256)

namespace HubRecordId

def asBytes (id : HubRecordId) : List UInt8 := bigEndian 16 id.value

/-- Sixteen bytes name a record unless all are zero. -/
def fromBytes (bytes : BitVec 128) : Except HubReferenceError HubRecordId :=
  if h : 0 < bytes.toNat then .ok ⟨bytes.toNat, h, bytes.isLt⟩ else .error .invalidId

/-- The identity spelled by the first half of the digest of `bytes`. -/
def derived [Sha256] (bytes : List UInt8) : Except HubReferenceError HubRecordId :=
  fromBytes ((Sha256.digest bytes).extractLsb' 128 128)

end HubRecordId

end HarvestCircle
