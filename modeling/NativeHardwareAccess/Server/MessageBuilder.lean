import NativeHardwareAccess.Schemes.LittleEndian
import NativeHardwareAccess.Schemes.Memory
import NativeHardwareAccess.Schemes.MD5

/-! `MessageBuilder::createResponse` (messagebuilder.cpp).

    A query is checked in four stages — arguments and size field, fixed header, checksum, TLV body —
    and the answer is then written front to back. The body is handled by two separate passes: a parse
    loop that only records what is wanted and how many bytes that will take (`Wants`), and an
    emission pass that writes the wanted records from those flags (`Emit`).

        query ──▶ size/header/MD5 ok? ──no──▶ -1
                    │ yes
                    ▼
                 TLV loop ── bytes left over ──▶ -1
                    │ all consumed
                    ▼
                 header, wanted records, checksum ──▶ completeSizeR

    `int` and `uint32_t` meet in several comparisons; they are compared as `uint32_t` (`u32`). The
    two null-pointer tests of the source are left out: both arguments are arrays of `Responder`. -/

namespace NHA.MessageBuilder
open Scheme Scheme.MD5

def headerSize : ℕ := 22
def minMsgSize : ℕ := 38
def maxMsgSize : ℕ := 32768
def checksumSize : ℕ := 16
def minTlvSize : ℕ := 2

def magicTag : UInt8 := 0x00
def versionTag : UInt8 := 0x01
def messageTypeTag : UInt8 := 0x02
def messageFlagsTag : UInt8 := 0x03

def userDataQTag : UInt8 := 0x04
def deviceIDQTag : UInt8 := 0x91
def timerRxQTag : UInt8 := 0x92
def timerTxQTag : UInt8 := 0x93
def deviceIDLastUpdatedQTag : UInt8 := 0x94

def userDataRTag : UInt8 := 0x05
def deviceIDRTag : UInt8 := 0x11
def timerRxRTag : UInt8 := 0x12
def timerTxRTag : UInt8 := 0x13
def deviceIDLastUpdatedRTag : UInt8 := 0x14

def magicLength : UInt8 := 0x04
def versionLength : UInt8 := 0x04
def messageTypeLength : UInt8 := 0x01
def messageFlagsLength : UInt8 := 0x01

def magicBytes : List UInt8 := [0x4E, 0x48, 0x41, 0x31]
def versionBytes : List UInt8 := [0x00, 0x00, 0x00, 0x01]
def messageTypeStandardMessage : UInt8 := 0x01

/-- `MsgFlags::None`. -/
def flagsNone : UInt8 := 0x00
def hasChecksumXorDeviceID : UInt8 := 0x01
def replyChecksumXorDeviceID : UInt8 := 0x02

/-- `TPMWatcher::deviceIDLength`. -/
def deviceIDLength : ℕ := 16

/-- `sizeof(uint64_t)`, the size of a timer reading. -/
def timerSize : ℕ := 8

abbrev DeviceID := List.Vector UInt8 16

/-- An `int` converted to `uint32_t`. -/
def u32 (x : ℤ) : ℕ := (x % 2 ^ 32).toNat

/-- An unsigned result converted back to `int32_t`. -/
def i32 (x : ℤ) : ℤ := x.bmod (2 ^ 32)

/-- What one call reads from the timer and the TPM watcher, in the order of the reads. -/
structure Readings where
  timerRx : UInt64
  devID : DeviceID
  timerTx : UInt64
  lastUpdated : UInt64

/-- `fromLE32`: the number in four bytes, low byte first. -/
def fromLE32 (array : Memory) : UInt32 :=
  (array 0).toUInt32 ||| (array 1).toUInt32 <<< 8 ||| (array 2).toUInt32 <<< 16 |||
    (array 3).toUInt32 <<< 24

/-- `toLE64`: the eight bytes of a number, low byte first. -/
def toLE64 (num : UInt64) : List UInt8 :=
  (List.range 8).map (fun i => UInt8.ofNat ((num.toNat >>> (8 * i)) &&& 0xff))

/-- `try_add_unsigned`: the sum if it stays within the maximum; otherwise the value is not changed. -/
def tryAddUnsigned (value addend maxValue : ℕ) : Option ℕ :=
  if addend > maxValue then none
  else if value > maxValue - addend then none
  else some (value + addend)

/-! ### Header and checksum of the query -/

/-- Size field, fixed header bytes and flags are acceptable. -/
def checkHeader (headerQ : Memory) (querySize : Int32) : Bool :=
  !((fromLE32 headerQ).toNat != u32 querySize.toInt || (fromLE32 headerQ).toNat < minMsgSize ||
      (fromLE32 headerQ).toNat > maxMsgSize) &&
  headerQ 4 == magicTag && headerQ 5 == magicLength &&
  (List.range 4).all (fun i => headerQ (6 + i) == magicBytes.getD i 0) &&
  headerQ 10 == versionTag && headerQ 11 == versionLength &&
  (List.range 4).all (fun i => headerQ (12 + i) == versionBytes.getD i 0) &&
  headerQ 16 == messageTypeTag && headerQ 17 == messageTypeLength &&
  headerQ 18 == messageTypeStandardMessage &&
  headerQ 19 == messageFlagsTag && headerQ 20 == messageFlagsLength &&
  (headerQ 21 == flagsNone || headerQ 21 == replyChecksumXorDeviceID)

/-- The last sixteen bytes of the query are the MD5 of the bytes before them. -/
def checkChecksum (md5 : List UInt8 → Digest) (query : Memory) (querySize : Int32) : Bool :=
  let size := u32 querySize.toInt - checksumSize
  (List.range checksumSize).all
    (fun i => query (size + i) == (md5 (slice query 0 size)).toList.getD i 0)

/-- The flags byte of the response. -/
def flagsR (msgFlagsValue : UInt8) : UInt8 :=
  if msgFlagsValue &&& replyChecksumXorDeviceID != 0 then hasChecksumXorDeviceID else flagsNone

/-! ### The parse loop -/

/-- What the parse loop has collected: the response size so far and the records wanted in it. -/
structure Wants where
  sizeR : ℕ
  userData : List UInt8
  wantDeviceID : Bool
  wantTimeTx : Bool
  wantTimeRx : Bool
  wantLastUpdated : Bool
  createResponseWithoutBody : Bool

/-- The state before the loop: header and checksum are accounted for, nothing is wanted. -/
def Wants.init : Wants := ⟨headerSize + checksumSize, [], false, false, false, false, false⟩

/-- Give up on the body. -/
def Wants.withoutBody (w : Wants) : Wants := { w with createResponseWithoutBody := true }

/-- Account for `addend` more response bytes and want the record, or give up on the body. -/
def Wants.account (w : Wants) (addend maxResponseSize : ℕ) (want : Wants → Wants) : Wants :=
  match tryAddUnsigned w.sizeR addend maxResponseSize with
  | none => w.withoutBody
  | some sizeR => want { w with sizeR := sizeR }

/-- The `switch (tag)` of the parse loop. -/
def handleRecord (maxResponseSize : ℕ) (tag length : UInt8) (value : List UInt8) (w : Wants) :
    Wants :=
  if tag = userDataQTag then
    if w.userData.length ≠ 0 ∨ length < 1 then w.withoutBody
    else w.account (minTlvSize + length.toNat) maxResponseSize
      (fun w => { w with userData := value })
  else if tag = deviceIDQTag then
    if w.wantDeviceID ∨ length ≠ 0 then w.withoutBody
    else w.account (minTlvSize + deviceIDLength) maxResponseSize
      (fun w => { w with wantDeviceID := true })
  else if tag = timerRxQTag then
    if w.wantTimeRx ∨ length ≠ 0 then w.withoutBody
    else w.account (minTlvSize + timerSize) maxResponseSize (fun w => { w with wantTimeRx := true })
  else if tag = timerTxQTag then
    if w.wantTimeTx ∨ length ≠ 0 then w.withoutBody
    else w.account (minTlvSize + timerSize) maxResponseSize (fun w => { w with wantTimeTx := true })
  else if tag = deviceIDLastUpdatedQTag then
    if w.wantLastUpdated ∨ length ≠ 0 then w.withoutBody
    else w.account (minTlvSize + timerSize) maxResponseSize
      (fun w => { w with wantLastUpdated := true })
  else w

/-- The `while` loop over the TLV records, from the pointer `bodyQ` with `remaining` bytes left; it
    gives the bytes left over. Each turn consumes at least two bytes, so `remaining` is fuel enough. -/
def tlvLoop (query : Memory) (maxResponseSize : ℕ) : ℕ → ℕ → ℤ → Wants → ℤ × Wants
  | 0, _, remaining, w => (remaining, w)
  | fuel + 1, bodyQ, remaining, w =>
    if minTlvSize ≤ u32 remaining ∧ w.createResponseWithoutBody = false then
      let tag := query bodyQ
      let length := query (bodyQ + 1)
      if u32 remaining < minTlvSize + length.toNat then
        -- the `break`: the value of this record is not all there
        (remaining, w)
      else
        tlvLoop query maxResponseSize fuel (bodyQ + (minTlvSize + length.toNat))
          (i32 (u32 remaining - (minTlvSize + length.toNat : ℕ)))
          (handleRecord maxResponseSize tag length
            (slice query (bodyQ + minTlvSize) length.toNat) w)
    else (remaining, w)

/-- The parse loop on the whole body. -/
def parseBody (query : Memory) (querySize : Int32) (maxResponseSize : ℕ) : ℤ × Wants :=
  let remaining := i32 (u32 querySize.toInt - headerSize - checksumSize)
  tlvLoop query maxResponseSize remaining.toNat headerSize remaining Wants.init

/-- The response size the header announces. -/
def Wants.announced (w : Wants) : ℕ :=
  if w.createResponseWithoutBody then headerSize + checksumSize else w.sizeR

/-! ### The emission pass -/

/-- The response buffer and the number of bytes written to it, a `uint16_t`. -/
structure Emit where
  buf : Buffer
  completeSizeR : ℕ

/-- Write the header. -/
def emitHeader (sizeR : ℕ) (msgTypeValue msgFlagsValueR : UInt8) (r : Buffer) : Emit :=
  let r := r.stores 0 ((List.range 4).map (fun i => UInt8.ofNat ((sizeR >>> (8 * i)) &&& 0xff)))
  let r := ((r.store 4 magicTag).store 5 magicLength).stores 6 magicBytes
  let r := ((r.store 10 versionTag).store 11 versionLength).stores 12 versionBytes
  let r := ((r.store 16 messageTypeTag).store 17 messageTypeLength).store 18 msgTypeValue
  let r := ((r.store 19 messageFlagsTag).store 20 messageFlagsLength).store 21 msgFlagsValueR
  ⟨r, headerSize⟩

/-- One `if (want… && fits)` of the body emission: the record it writes when it is wanted. -/
structure Block where
  want : Bool
  tag : UInt8
  value : List UInt8

/-- The guard on the size of an emitted record. -/
def Block.fits (b : Block) (completeSizeR : ℕ) : Prop :=
  completeSizeR + minTlvSize + b.value.length < maxMsgSize

instance (b : Block) (n : ℕ) : Decidable (b.fits n) := inferInstanceAs (Decidable (_ < _))

/-- The five records of the emission pass, in the order of the source. -/
def blocks (env : Readings) (w : Wants) : List Block :=
  [⟨w.userData.length != 0, userDataRTag, w.userData⟩,
   ⟨w.wantDeviceID, deviceIDRTag, env.devID.toList⟩,
   ⟨w.wantTimeRx, timerRxRTag, toLE64 env.timerRx⟩,
   ⟨w.wantTimeTx, timerTxRTag, toLE64 env.timerTx⟩,
   ⟨w.wantLastUpdated, deviceIDLastUpdatedRTag, toLE64 env.lastUpdated⟩]

/-- Write one record. -/
def emitBlock (e : Emit) (b : Block) : Emit :=
  if b.want = true ∧ b.fits e.completeSizeR then
    ⟨((e.buf.store e.completeSizeR b.tag).store (e.completeSizeR + 1)
        (UInt8.ofNat b.value.length)).stores (e.completeSizeR + minTlvSize) b.value,
      (e.completeSizeR + (minTlvSize + b.value.length)) % 2 ^ 16⟩
  else e

/-- Write the body. -/
def emitBody (env : Readings) (w : Wants) (e : Emit) : Emit :=
  if w.createResponseWithoutBody = false then (blocks env w).foldl emitBlock e else e

/-- The checksum bytes, XORed with the device ID when the response says so. -/
def checksumR (msgFlagsValueR : UInt8) (mdValueR : Digest) (devID : DeviceID) : List UInt8 :=
  List.zipWith (fun m d => if msgFlagsValueR = hasChecksumXorDeviceID then m ^^^ d else m)
    mdValueR.toList devID.toList

/-- Write the checksum and give the number of bytes written. -/
def emitChecksum (md5 : List UInt8 → Digest) (env : Readings) (msgFlagsValueR : UInt8) (e : Emit) :
    ℤ × Buffer :=
  if e.completeSizeR + checksumSize > maxMsgSize then (-1, e.buf)
  else
    (((e.completeSizeR + checksumSize) % 2 ^ 16 : ℕ),
      e.buf.stores e.completeSizeR
        (checksumR msgFlagsValueR (md5 (slice e.buf.bytes 0 e.completeSizeR)) env.devID))

/-- The response to a query whose parse left `w`. -/
def respond (md5 : List UInt8 → Digest) (env : Readings) (query : Memory) (w : Wants)
    (responseBuffer : Memory) : ℤ × Buffer :=
  emitChecksum md5 env (flagsR (query 21))
    (emitBody env w
      (emitHeader w.announced (query 18) (flagsR (query 21)) (Buffer.fresh responseBuffer)))

/-- `MessageBuilder::createResponse`: the returned size, or -1, and the response buffer. -/
def createResponse (md5 : List UInt8 → Digest) (env : Readings) (query : Memory)
    (querySize : Int32) (responseBuffer : Memory) (maxResponseSize : UInt32) : ℤ × Buffer :=
  if u32 querySize.toInt < headerSize ∨ maxResponseSize.toNat < headerSize then
    (-1, Buffer.fresh responseBuffer)
  else if !checkHeader query querySize then (-1, Buffer.fresh responseBuffer)
  else if !checkChecksum md5 query querySize then (-1, Buffer.fresh responseBuffer)
  else if headerSize + checksumSize > maxResponseSize.toNat then (-1, Buffer.fresh responseBuffer)
  else
    let parsed := parseBody query querySize maxResponseSize.toNat
    if parsed.1 > 0 then (-1, Buffer.fresh responseBuffer)
    else respond md5 env query parsed.2 responseBuffer

end NHA.MessageBuilder
