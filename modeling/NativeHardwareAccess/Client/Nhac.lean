import NativeHardwareAccess.Server.MessageBuilder

/-! The message classes of the command-line client (tools/src/nhac.cpp).

    A `TLV` may hold a value of any length; only its last eight bits go into the length byte. A
    `Message` is a list of them and the MD5 values of its last transfer. `serialize` writes to a
    buffer of `n` bytes and `deserialize` reads from one; both report errors with a text. Sizes are
    `size_t`, differences of sizes are taken modulo `2^64`. -/

namespace NHA.Nhac
open Scheme Scheme.MD5

structure TLV where
  tag : UInt8
  value : List UInt8
  deriving DecidableEq

structure Message where
  tlvs : List TLV
  receivedMd5 : Option Digest
  calculatedMd5 : Option Digest
  xoredMd5 : Option Digest

/-- A difference of two `size_t`. -/
def sizeSub (a b : ℕ) : ℕ := (((a : ℤ) - b) % 2 ^ 64).toNat

/-- The length as an `unsigned char`. -/
def TLV.getLength (tlv : TLV) : UInt8 := UInt8.ofNat tlv.value.length

def xDigits : List Char := ['0', '1', '2', '3', '4', '5', '6', '7', '8', '9', 'a', 'b', 'c', 'd', 'e', 'f']

def toHex (x : UInt8) (withPrefix : Bool) : String :=
  (if withPrefix then "0x" else "") ++
    String.ofList [xDigits.getD ((x >>> 4) &&& 0xf).toNat '0', xDigits.getD (x &&& 0xf).toNat '0']

def toLE32 (x : UInt32) : List UInt8 :=
  [(x &&& 0xFF).toUInt8, ((x >>> 8) &&& 0xFF).toUInt8, ((x >>> 16) &&& 0xFF).toUInt8,
    ((x >>> 24) &&& 0xFF).toUInt8]

/-- The client's `fromLE32` puts the bytes together as the server's does. -/
def fromLE32 (t : Memory) : UInt32 := MessageBuilder.fromLE32 t

/-- The number in eight value bytes, read as two halves. -/
def fromHalves (value : List UInt8) : UInt64 :=
  (fromLE32 (Memory.ofList (value.drop 4))).toUInt64 <<< 32 |||
    (fromLE32 (Memory.ofList value)).toUInt64

/-- The value bytes in hexadecimal. -/
def hexBytes (value : List UInt8) : String :=
  value.foldl (fun s c => s ++ toHex c false) ""

/-- The two timer records and the last-updated record: a query without value, or a 64-bit number. -/
def decodeNumber (name : String) (tlv : TLV) : String :=
  if tlv.tag &&& 0x80 = 0x80 ∧ tlv.value.length = 0 then name ++ " query"
  else if tlv.tag &&& 0x80 = 0x00 ∧ tlv.value.length = 8 then
    name ++ " " ++ toString (fromHalves tlv.value).toNat
  else ""

/-- `TLV::decode`: a description of a known record, empty for any other. -/
def TLV.decode (tlv : TLV) : String :=
  let byte := fun i => (tlv.value.getD i 0).toNat
  if tlv.tag = 0x00 ∧ tlv.value = [0x4e, 0x48, 0x41, 0x31] then "magic"
  else if tlv.tag = 0x01 ∧ tlv.value.length = 4 then
    "version " ++ toString (byte 3) ++ "." ++ toString (byte 2) ++ "." ++
      toString ((byte 1 <<< 8) ||| byte 0)
  else if tlv.tag = 0x02 ∧ tlv.value.length = 1 then
    "type " ++ (if byte 0 = 0x01 then "Standard" else "SPECIAL")
  else if tlv.tag = 0x03 ∧ tlv.value.length = 1 then
    "flags " ++ (if byte 0 = 0x00 then "None"
      else if byte 0 = 0x01 then "HAS_CHECKSUM_XOR_DEVICE_ID"
      else if byte 0 = 0x02 then "REPLY_CHECKSUM_XOR_DEVICE_ID" else "??")
  else if tlv.tag = 0x04 ∨ tlv.tag = 0x05 then
    "user_data" ++ (if tlv.tag = 0x05 then "_mirrored" else "") ++
      (if tlv.value ≠ [] then " " else "") ++ hexBytes tlv.value
  else if tlv.tag &&& 0x7f = 0x10 ∨ tlv.tag &&& 0x7f = 0x20 then
    let name := if tlv.tag &&& 0x7f = 0x10 then "capabilities" else "temperatures"
    if tlv.tag &&& 0x80 = 0x80 ∧ tlv.value.length = 0 then name ++ " query"
    else if tlv.tag &&& 0x80 = 0x00 then
      name ++ (if tlv.value ≠ [] then " " else "") ++ hexBytes tlv.value
    else ""
  else if tlv.tag &&& 0x7f = 0x11 then
    if tlv.tag &&& 0x80 = 0x80 ∧ tlv.value.length = 0 then "device_id query"
    else if tlv.tag &&& 0x80 = 0x00 ∧ tlv.value.length = 16 then "device_id " ++ hexBytes tlv.value
    else ""
  else if tlv.tag &&& 0x7f = 0x12 ∨ tlv.tag &&& 0x7f = 0x13 then
    decodeNumber ("monotonic_timer_" ++ (if tlv.tag &&& 0x7f = 0x12 then "rx" else "tx")) tlv
  else if tlv.tag &&& 0x7f = 0x14 then decodeNumber "device_id_last_updated" tlv
  else ""

/-! ### Serializing -/

/-- `TLV::serialize` at an offset with `n` bytes of space: the number of bytes written. -/
def TLV.serialize (tlv : TLV) (t : Buffer) (offset n : ℕ) : Except String ℕ × Buffer :=
  if n < 2 + tlv.value.length then
    (.error ("TLV::serialize: output area with size " ++ toString n ++
      " bytes is insufficient to serialize TLV with tag=" ++ toString tlv.tag.toNat ++ " length=" ++
      toString tlv.value.length), t)
  else
    (.ok (2 + tlv.value.length),
      ((t.store offset tlv.tag).store (offset + 1) tlv.getLength).stores (offset + 2) tlv.value)

/-- The size field: a `uint32_t` sum over the length bytes. -/
def Message.getCompleteSizeOfMsgInBytes (m : Message) : UInt32 :=
  m.tlvs.foldl (fun size tlv => size + (2 + tlv.getLength.toUInt32)) 4 + 16

/-- The loop over the records: the position after them. -/
def serializeTlvs (completeSize : UInt32) (n : ℕ) :
    List TLV → ℕ → Buffer → Except String ℕ × Buffer
  | [], pos, t => (.ok pos, t)
  | tlv :: tlvs, pos, t =>
    match tlv.serialize t pos (sizeSub n pos) with
    | (.ok k, t) => serializeTlvs completeSize n tlvs (pos + k) t
    | (.error e, t) =>
      (.error ("Message::serialize: could not serialize TLV at byte " ++ toString pos ++
        " (completeSizeOfMessage=" ++ toString completeSize.toNat ++ ") : " ++ e), t)

/-- `Message::serialize`: the number of bytes written, the message with its new MD5 values, and the
    buffer. -/
def Message.serialize (md5 : List UInt8 → Digest) (m : Message) (t : Buffer) (n : ℕ) :
    Except String ℕ × Message × Buffer :=
  let completeSize := m.getCompleteSizeOfMsgInBytes
  if completeSize.toNat > n then
    (.error ("Message::serialize: message size " ++ toString completeSize.toNat ++
      " is too big, maximum " ++ toString n ++ " bytes are allowed"), m, t)
  else
    match serializeTlvs completeSize n m.tlvs 4 (t.stores 0 (toLE32 completeSize)) with
    | (.error e, t) => (.error e, m, t)
    | (.ok pos, t) =>
      let digest := md5 (slice t.bytes 0 pos)
      (.ok (pos + 16),
        { m with calculatedMd5 := some digest, receivedMd5 := none, xoredMd5 := none },
        t.stores pos digest.toList)

/-! ### Deserializing -/

/-- `TLV::deserialize` at an offset with `n` bytes left: the number of bytes read, and the record. -/
def TLV.deserialize (t : Memory) (offset n : ℕ) : Except String (ℕ × TLV) :=
  if n < 2 then
    .error ("TLV::deserialize: input area with size " ++ toString n ++
      " bytes is insufficient to store TLV tag and length")
  else if n < 2 + (t (offset + 1)).toNat then
    .error ("TLV::deserialize: input area with size " ++ toString n ++
      " bytes is insufficient to store value of TLV with tag=" ++ toString (t offset).toNat ++
      ", length=" ++ toString (t (offset + 1)).toNat)
  else
    .ok (2 + (t (offset + 1)).toNat,
      ⟨t offset, slice t (offset + 2) (t (offset + 1)).toNat⟩)

/-- The loop over the records up to `endPos`. Each turn reads two bytes or more, so `endPos` is fuel
    enough. -/
def deserializeTlvs (completeSize : UInt32) (t : Memory) (endPos : ℕ) :
    ℕ → ℕ → List TLV → Except String (ℕ × List TLV)
  | 0, pos, newTlvs => .ok (pos, newTlvs)
  | fuel + 1, pos, newTlvs =>
    if pos < endPos then
      match TLV.deserialize t pos (endPos - pos) with
      | .ok (k, tlv) => deserializeTlvs completeSize t endPos fuel (pos + k) (newTlvs ++ [tlv])
      | .error e =>
        .error ("Message::deserialize: could not deserialize TLV at byte " ++ toString pos ++
          " (completeSizeOfMessage=" ++ toString completeSize.toNat ++ ") : " ++ e)
    else .ok (pos, newTlvs)

/-- The sixteen bytes at a position. -/
def digestAt (t : Memory) (pos : ℕ) : Digest := ⟨slice t pos 16, length_slice ..⟩

def xorDigest (a b : Digest) : Digest := List.Vector.zipWith (· ^^^ ·) a b

/-- `Message::deserialize` of `n` bytes: the number of bytes read, and the message, which is only
    changed at the end. -/
def Message.deserialize (md5 : List UInt8 → Digest) (m : Message) (t : Memory) (n : ℕ) :
    Except String ℕ × Message :=
  if n < 4 + 16 then
    (.error ("Message::deserialize: input of " ++ toString n ++
      " bytes is too small for a message (minimum message size is 20 bytes)"), m)
  else
    let completeSize := fromLE32 t
    if completeSize.toNat > n then
      (.error ("Message::deserialize: message size is " ++ toString completeSize.toNat ++
        " but only " ++ toString n ++ " received"), m)
    else if completeSize.toNat < 4 + 16 then
      (.error ("Message::deserialize: invalid message size " ++ toString completeSize.toNat ++
        ", minimum 20 required"), m)
    else
      match deserializeTlvs completeSize t (completeSize.toNat - 16) (completeSize.toNat - 16) 4 []
        with
      | .error e => (.error e, m)
      | .ok (pos, newTlvs) =>
        let received := digestAt t pos
        let calculated := md5 (slice t 0 pos)
        (.ok (pos + 16), ⟨newTlvs, some received, some calculated,
          some (xorDigest received calculated)⟩)

end NHA.Nhac
