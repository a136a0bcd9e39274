import NativeHardwareAccess.Server.ParseLoop

/-! The emission pass of `createResponse`.

    Every stage writes on at the end of what is already there, so each of them is one append to the
    list of bytes written (`Emit.Written`). With the size invariant of the parse loop all guards of
    the pass hold, and what comes out is the message of the protocol. -/

namespace NHA.MessageBuilder
open Scheme Scheme.MD5 Scheme.Tlv NHA.Protocol

/-- Exactly the bytes of `l` have been written, and they have been counted. -/
structure Emit.Written (e : Emit) (l : List UInt8) : Prop where
  holds : e.buf.Holds l
  size : e.completeSizeR = l.length

/-- What a block adds to the response. -/
def Block.bytes (b : Block) : List UInt8 :=
  if b.want then b.tag :: UInt8.ofNat b.value.length :: b.value else []

theorem Block.length_bytes {b : Block} (h : b.want = true) :
    b.bytes.length = 2 + b.value.length := by
  rw [Block.bytes, if_pos h, List.length_cons, List.length_cons]
  omega

/-- The header is written as one piece. -/
theorem emitHeader_written (size : ℕ) (flags : UInt8) (m : Memory) :
    (emitHeader size messageTypeStandardMessage flags (Buffer.fresh m)).Written
      (toLE 4 size ++ fixedHeader ++ [flags]) := by
  have h4 := (Buffer.holds_fresh m).stores rfl (toLE 4 size)
  have h10 := ((h4.store (n := 4) (by simp) magicTag).store (n := 5) (by simp) magicLength).stores
    (n := 6) (by simp) magicBytes
  have h16 := ((h10.store (n := 10) (by simp [magicBytes]) versionTag).store (n := 11)
    (by simp [magicBytes]) versionLength).stores (n := 12) (by simp [magicBytes]) versionBytes
  have h19 := ((h16.store (n := 16) (by simp [magicBytes, versionBytes]) messageTypeTag).store
    (n := 17) (by simp [magicBytes, versionBytes]) messageTypeLength).store (n := 18)
    (by simp [magicBytes, versionBytes]) messageTypeStandardMessage
  have h22 := ((h19.store (n := 19) (by simp [magicBytes, versionBytes]) messageFlagsTag).store
    (n := 20) (by simp [magicBytes, versionBytes]) messageFlagsLength).store (n := 21)
    (by simp [magicBytes, versionBytes]) flags
  have hlist : [] ++ toLE 4 size ++ [magicTag] ++ [magicLength] ++ magicBytes ++ [versionTag] ++
      [versionLength] ++ versionBytes ++ [messageTypeTag] ++ [messageTypeLength] ++
      [messageTypeStandardMessage] ++ [messageFlagsTag] ++ [messageFlagsLength] ++ [flags] =
      toLE 4 size ++ fixedHeader ++ [flags] := by
    simp only [List.append_assoc, List.nil_append, List.append_cancel_left_eq]
    rfl
  rw [hlist] at h22
  refine ⟨?_, by simp [emitHeader, headerSize]⟩
  rw [emitHeader, ← toLE_eq_map_shift]
  exact h22

/-- One block whose guard passes. -/
theorem emitBlock_written {e : Emit} {l : List UInt8} {b : Block} (h : e.Written l)
    (hfit : (l ++ b.bytes).length < maxMsgSize) : (emitBlock e b).Written (l ++ b.bytes) := by
  cases hb : b.want with
  | false => simpa [emitBlock, Block.bytes, hb] using h
  | true =>
    rw [List.length_append, Block.length_bytes hb, maxMsgSize] at hfit
    have hguard : b.fits e.completeSizeR := by
      rw [Block.fits, h.size, minTlvSize, maxMsgSize]
      omega
    have hlist : l ++ b.bytes = l ++ [b.tag] ++ [UInt8.ofNat b.value.length] ++ b.value := by
      simp [Block.bytes, hb]
    rw [emitBlock, if_pos ⟨hb, hguard⟩, hlist, h.size]
    refine ⟨((h.holds.store rfl b.tag).store (by simp) _).stores (by simp [minTlvSize]) b.value, ?_⟩
    simp only [List.length_append, List.length_singleton, minTlvSize]
    omega

/-- All blocks, one after the other. -/
theorem emitBlocks_written (bs : List Block) {e : Emit} {l : List UInt8} (h : e.Written l)
    (hfit : (l ++ bs.flatMap Block.bytes).length < maxMsgSize) :
    (bs.foldl emitBlock e).Written (l ++ bs.flatMap Block.bytes) := by
  induction bs generalizing e l with
  | nil => simpa using h
  | cons b bs ih =>
    rw [List.flatMap_cons, ← List.append_assoc] at hfit ⊢
    refine ih (emitBlock_written h ?_) hfit
    rw [List.length_append] at hfit
    omega

/-- No guard of the body emission fails while the whole body fits. -/
theorem fits_of_written {bs pre post : List Block} {b : Block} {e : Emit} {l : List UInt8}
    (h : e.Written l) (hfit : (l ++ bs.flatMap Block.bytes).length < maxMsgSize)
    (hsplit : bs = pre ++ b :: post) (hb : b.want = true) :
    b.fits (pre.foldl emitBlock e).completeSizeR := by
  subst hsplit
  simp only [List.flatMap_append, List.flatMap_cons, List.length_append,
    Block.length_bytes hb] at hfit
  have hpre := emitBlocks_written pre h (by rw [List.length_append]; omega)
  rw [Block.fits, hpre.size, List.length_append, minTlvSize]
  omega

/-! ### The body -/

/-- The bytes the wanted records become. -/
def Wants.bodyBytes (env : Readings) (w : Wants) : List UInt8 :=
  if w.createResponseWithoutBody then [] else (blocks env w).flatMap Block.bytes

theorem toLE64_eq (num : UInt64) : toLE64 num = toLE 8 num.toNat := by
  rw [toLE64, toLE_eq_map_shift]

/-- The block of a kind. -/
def blockOf (env : Readings) (w : Wants) : Kind → Block
  | .userData => ⟨w.userData.length != 0, userDataRTag, w.userData⟩
  | .deviceID => ⟨w.wantDeviceID, deviceIDRTag, env.devID.toList⟩
  | .timerRx => ⟨w.wantTimeRx, timerRxRTag, toLE64 env.timerRx⟩
  | .timerTx => ⟨w.wantTimeTx, timerTxRTag, toLE64 env.timerTx⟩
  | .lastUpdated => ⟨w.wantLastUpdated, deviceIDLastUpdatedRTag, toLE64 env.lastUpdated⟩

theorem blocks_eq (env : Readings) (w : Wants) : blocks env w = kinds.map (blockOf env w) := rfl

/-- A block is empty unless its kind is wanted, and then it is the answer to it. -/
theorem blockOf_bytes (env : Readings) (w : Wants) (k : Kind) :
    (blockOf env w k).bytes = ((w.wanted k).map (fun v =>
      k.responseTag :: UInt8.ofNat (k.answerSize v) :: k.answerValue env v)).getD [] := by
  have hif : ∀ (c : Bool) (x : List UInt8), (if c = true then x else []) =
      (((if c = true then some [] else none : Option (List UInt8))).map (fun _ => x)).getD [] := by
    intro c x
    cases c <;> rfl
  cases k with
  | userData =>
    by_cases hu : w.userData = [] <;>
      simp [blockOf, Block.bytes, Wants.wanted, hu, Kind.responseTag, Kind.answerSize,
        Kind.answerValue, userDataRTag]
  | _ =>
    simp only [blockOf, Block.bytes, Wants.wanted, Kind.responseTag, Kind.answerSize,
      Kind.answerValue, toLE64_eq, length_toLE, List.Vector.toList_length, hif]
    rfl

/-- The body is as long as the parse loop accounted for. -/
theorem length_blocks_bytes (env : Readings) (w : Wants) :
    ((blocks env w).flatMap Block.bytes).length = w.bodySize := by
  have hlen : ∀ k, (blockOf env w k).bytes.length =
      ((w.wanted k).map (fun v => 2 + k.answerSize v)).getD 0 := by
    intro k
    rw [blockOf_bytes]
    cases w.wanted k with
    | none => rfl
    | some v =>
      simp only [Option.map_some, Option.getD_some, List.length_cons, k.length_answerValue]
      omega
  rw [blocks_eq, List.flatMap_map, List.length_flatMap, Wants.bodySize]
  simp only [hlen]

/-- When the flags track the records of the query, the body is the encoded answer. -/
theorem blocks_bytes_eq {rs : List Record} {w : Wants} (env : Readings) (h : Tracks rs w) :
    (blocks env w).flatMap Block.bytes = encode (answer env rs) := by
  have hkind : ∀ k, (blockOf env w k).bytes =
      (((lookup rs k).map (k.answer env)).map Record.bytes).getD [] := by
    intro k
    rw [blockOf_bytes, h.wanted k]
    cases lookup rs k with
    | none => rfl
    | some r =>
      simp only [Option.map_some, Option.getD_some, Kind.answer, Record.bytes,
        k.length_answerValue]
  rw [blocks_eq, List.flatMap_map]
  simp only [hkind, answer, encode]
  -- both sides run over the same five kinds
  induction kinds with
  | nil => rfl
  | cons k ks ih =>
    rw [List.flatMap_cons, ih, List.filterMap_cons]
    cases lookup rs k with
    | none => rfl
    | some r => rfl

theorem length_bodyBytes (env : Readings) (w : Wants) :
    (w.bodyBytes env).length = if w.createResponseWithoutBody then 0 else w.bodySize := by
  rw [Wants.bodyBytes]
  split
  · rfl
  · exact length_blocks_bytes env w

/-- The announced size is the size of header, body and checksum. -/
theorem announced_eq {max : ℕ} {w : Wants} (env : Readings) (h : Accounted max w) :
    w.announced = 38 + (w.bodyBytes env).length := by
  rw [length_bodyBytes, Wants.announced]
  split
  · rfl
  · exact h.size

theorem length_bodyBytes_le {max : ℕ} {w : Wants} (env : Readings) (h : Accounted max w) :
    (w.bodyBytes env).length ≤ 305 := by
  rw [length_bodyBytes]
  split
  · omega
  · exact bodySize_le h.short

/-! ### The whole message -/

theorem zipWith_left : ∀ a c : List UInt8, a.length = c.length →
    List.zipWith (fun m _ => m) a c = a
  | [], [], _ => rfl
  | _ :: a, _ :: c, h => by
    rw [List.zipWith_cons_cons, zipWith_left a c (by simpa using h)]

theorem checksumR_eq (md5 : List UInt8 → Digest) (devID : DeviceID) (flags : UInt8)
    (b : List UInt8) :
    checksumR flags (md5 (front flags b)) devID = checksum md5 devID flags b := by
  rw [checksumR, checksum]
  by_cases hf : flags = 0x01
  · simp only [hf, hasChecksumXorDeviceID, if_true]
  · simp only [hasChecksumXorDeviceID, hf, if_false]
    exact zipWith_left _ _ (by simp)

/-- Header and body of the response. -/
theorem emitBody_written {max : ℕ} {w : Wants} (env : Readings) (flags : UInt8) (m : Memory)
    (h : Accounted max w) :
    (emitBody env w (emitHeader w.announced messageTypeStandardMessage flags
      (Buffer.fresh m))).Written (front flags (w.bodyBytes env)) := by
  have hhead := emitHeader_written w.announced flags m
  have hle := length_bodyBytes_le env h
  have hfront : front flags (w.bodyBytes env) =
      (toLE 4 w.announced ++ fixedHeader ++ [flags]) ++ w.bodyBytes env := by
    rw [front, announced_eq env h]
    simp
  rw [hfront, emitBody]
  rw [Wants.bodyBytes] at hle ⊢
  cases hw : w.createResponseWithoutBody with
  | true => simpa [hw] using hhead
  | false =>
    simp only [hw, if_true, Bool.false_eq_true, if_false] at hle ⊢
    refine emitBlocks_written _ hhead ?_
    simp only [List.length_append, length_toLE, length_fixedHeader, List.length_singleton,
      maxMsgSize]
    omega

/-- The response to a parsed query is the message with the wanted body. -/
theorem respond_eq {max : ℕ} {w : Wants} (md5 : List UInt8 → Digest) (env : Readings)
    (query m : Memory) (h : Accounted max w) (htype : query 18 = messageTypeStandardMessage) :
    (respond md5 env query w m).1 = (38 + (w.bodyBytes env).length : ℕ) ∧
      (respond md5 env query w m).2.Holds
        (message md5 env.devID (flagsR (query 21)) (w.bodyBytes env)) := by
  have hbody := emitBody_written env (flagsR (query 21)) m h
  have hle := length_bodyBytes_le env h
  have hsize := hbody.size
  rw [length_front] at hsize
  rw [respond, htype, emitChecksum, hsize,
    if_neg (by rw [checksumSize, maxMsgSize]; omega)]
  refine ⟨?_, ?_⟩
  · simp only [checksumSize]
    rw [Nat.mod_eq_of_lt (by omega)]
    omega
  · have hslice := hbody.holds.bytes
    rw [length_front] at hslice
    rw [hslice, checksumR_eq, message]
    exact hbody.holds.stores (length_front _ _) _

end NHA.MessageBuilder
