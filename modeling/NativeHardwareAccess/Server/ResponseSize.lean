import NativeHardwareAccess.Server.ResponseLayout

/-! The size of a response.

    It is computed twice: by `tryAddUnsigned` while the query is parsed, within the caller's limit,
    and by the 16-bit `completeSizeR` while the response is written, under the limit of the format.
    The two agree on every path, so the guards of the emission pass never fire. -/

namespace NHA.MessageBuilder
open Scheme Scheme.MD5 Scheme.Tlv NHA.Protocol

/-- All tests before the emission pass are passed. -/
def ReachesEmission (md5 : List UInt8 → Digest) (query : Memory) (querySize : Int32)
    (maxResponseSize : UInt32) : Prop :=
  ¬ (u32 querySize.toInt < headerSize ∨ maxResponseSize.toNat < headerSize) ∧
  checkHeader query querySize = true ∧ checkChecksum md5 query querySize = true ∧
  ¬ headerSize + checksumSize > maxResponseSize.toNat ∧
  ¬ (parseBody query querySize maxResponseSize.toNat).1 > 0

/-- The emission state in front of the body. -/
def afterHeader (query : Memory) (w : Wants) (responseBuffer : Memory) : Emit :=
  emitHeader w.announced (query 18) (flagsR (query 21)) (Buffer.fresh responseBuffer)

/-- No test of the emission pass goes against the parse loop: every wanted block passes its guard
    without a wrap of the 16-bit size, and the checksum still fits behind the last one. -/
structure EmissionFits (env : Readings) (w : Wants) (e : Emit) : Prop where
  block : w.createResponseWithoutBody = false → ∀ pre b post, blocks env w = pre ++ b :: post →
    b.want = true → b.fits (pre.foldl emitBlock e).completeSizeR ∧
      (pre.foldl emitBlock e).completeSizeR + (minTlvSize + b.value.length) < 2 ^ 16
  checksum : ¬ (emitBody env w e).completeSizeR + checksumSize > maxMsgSize
  noWrap : (emitBody env w e).completeSizeR + checksumSize < 2 ^ 16

theorem emissionFits {max : ℕ} {w : Wants} (env : Readings) (query m : Memory)
    (h : Accounted max w) (htype : query 18 = messageTypeStandardMessage) :
    EmissionFits env w (afterHeader query w m) := by
  have hhead := emitHeader_written w.announced (flagsR (query 21)) m
  have hbody := (emitBody_written env (flagsR (query 21)) m h).size
  have hle := length_bodyBytes_le env h
  rw [← htype] at hhead hbody
  rw [length_front] at hbody
  refine ⟨?_, ?_, ?_⟩
  · intro hw pre b post hsplit hb
    rw [Wants.bodyBytes, if_neg (by simp [hw])] at hle
    have hfits := fits_of_written hhead (by
      simp only [List.length_append, length_toLE, length_fixedHeader, List.length_singleton,
        maxMsgSize]
      omega) hsplit hb
    refine ⟨hfits, ?_⟩
    rw [Block.fits, minTlvSize, maxMsgSize] at hfits
    rw [afterHeader, minTlvSize]
    omega
  · rw [afterHeader, hbody, checksumSize, maxMsgSize]
    omega
  · rw [afterHeader, hbody, checksumSize]
    omega

section
variable (md5 : List UInt8 → Digest) (env : Readings) (query : Memory) (querySize : Int32)
  (responseBuffer : Memory) (maxResponseSize : UInt32)

/-- Behind the tests there is only the emission pass. -/
theorem createResponse_of_reaches (h : ReachesEmission md5 query querySize maxResponseSize) :
    createResponse md5 env query querySize responseBuffer maxResponseSize =
      respond md5 env query (parseBody query querySize maxResponseSize.toNat).2 responseBuffer := by
  obtain ⟨hargs, hcheck, hsum, hmax, hleft⟩ := h
  rw [createResponse, if_neg hargs, hcheck, hsum]
  simp only [Bool.not_true, Bool.false_eq_true, if_false]
  rw [if_neg hmax, if_neg hleft]

theorem createResponse_of_not_reaches
    (h : ¬ ReachesEmission md5 query querySize maxResponseSize) :
    createResponse md5 env query querySize responseBuffer maxResponseSize =
      (-1, Buffer.fresh responseBuffer) := by
  rw [createResponse]
  dsimp only
  split_ifs with hargs hcheck hsum hmax hleft
  · rfl
  · rfl
  · rfl
  · rfl
  · rfl
  · simp only [Bool.not_eq_true', Bool.not_eq_false] at hcheck hsum
    exact absurd ⟨hargs, hcheck, hsum, hmax, hleft⟩ h

/-- The parse in front of the emission pass has its size accounted for. -/
theorem accounted_of_reaches (h : ReachesEmission md5 query querySize maxResponseSize) :
    Accounted maxResponseSize.toNat (parseBody query querySize maxResponseSize.toNat).2 ∧
      query 18 = messageTypeStandardMessage := by
  obtain ⟨hargs, hcheck, hsum, hmax, -⟩ := h
  have hframed := (checks_iff md5 query querySize).mp ⟨by omega, hcheck, hsum⟩
  refine ⟨?_, Framed.type_byte md5 query querySize hframed⟩
  rw [parseBody_framed md5 query querySize maxResponseSize hframed]
  exact accounted_parsed maxResponseSize _ (by rw [headerSize, checksumSize] at hmax; omega)

end

/-- CORRECT: the announced size is the size built. An answer of size `n` lies within the caller's
    limit and 343 bytes, announces `n`, has written every byte below `n` and touched none behind it.
    Whenever the emission pass is reached there is an answer, of the size the parse loop accounted
    for, and no guard, final check or 16-bit wrap comes between. Without an answer nothing is
    touched. -/
theorem response_size (md5 : List UInt8 → Digest) (env : Readings) (query : Memory)
    (querySize : Int32) (responseBuffer : Memory) (maxResponseSize : UInt32) :
    let r := createResponse md5 env query querySize responseBuffer maxResponseSize
    let w := (parseBody query querySize maxResponseSize.toNat).2
    (r.1 ≠ -1 → 38 ≤ r.1 ∧ r.1 ≤ min (maxResponseSize.toNat : ℤ) 343 ∧
      (ofLE (slice r.2.bytes 0 4) : ℤ) = r.1 ∧ ∀ i : ℕ, r.2.touched i = true ↔ (i : ℤ) < r.1) ∧
    (ReachesEmission md5 query querySize maxResponseSize → r.1 ≠ -1 ∧ r.1 = w.announced ∧
      EmissionFits env w (afterHeader query w responseBuffer)) ∧
    (r.1 = -1 → ∀ i, r.2.touched i = false) := by
  intro r w
  by_cases hreach : ReachesEmission md5 query querySize maxResponseSize
  · obtain ⟨hacc, htype⟩ := accounted_of_reaches md5 query querySize maxResponseSize hreach
    obtain ⟨hsize, hholds⟩ : r.1 = (38 + (w.bodyBytes env).length : ℕ) ∧
        r.2.Holds (message md5 env.devID (flagsR (query 21)) (w.bodyBytes env)) := by
      simp only [r, createResponse_of_reaches md5 env query querySize responseBuffer
        maxResponseSize hreach]
      exact respond_eq md5 env query responseBuffer hacc htype
    have hann : w.announced = 38 + (w.bodyBytes env).length := announced_eq env hacc
    have hle : (w.bodyBytes env).length ≤ 305 := length_bodyBytes_le env hacc
    have hfits : w.announced ≤ maxResponseSize.toNat := by
      have hmax := hreach.2.2.2.1
      rw [Wants.announced]
      split
      · omega
      · exact hacc.fits
    have hr : r.1 = (w.announced : ℤ) := by rw [hann]; exact hsize
    have hfield : ofLE (slice r.2.bytes 0 4) = w.announced := by
      have hbytes := hholds.bytes
      rw [length_message] at hbytes
      have htake := congrArg (List.take 4) hbytes
      rw [take_slice _ _ (by omega)] at htake
      rw [htake, message, front, List.append_assoc, List.append_assoc,
        List.take_left' (length_toLE _ _), ofLE_toLE_of_lt (by omega), hann]
    refine ⟨fun _ => ⟨by omega, by omega, by rw [hfield, hr], ?_⟩,
      fun _ => ⟨by omega, hr, emissionFits env query responseBuffer hacc htype⟩,
      fun h => absurd h (by omega)⟩
    intro i
    rw [hr, hann, hholds.touched i, length_message]
    omega
  · have heq := createResponse_of_not_reaches md5 env query querySize responseBuffer
      maxResponseSize hreach
    have hr : r.1 = -1 := by simp only [r, heq]
    refine ⟨fun h => absurd hr h, fun h => absurd h hreach, fun _ i => ?_⟩
    simp only [r, heq, Buffer.fresh]

end NHA.MessageBuilder
