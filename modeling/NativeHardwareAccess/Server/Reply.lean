import NativeHardwareAccess.Server.CreateResponse

/-! `createResponse` as a function of the bytes received.

    Nothing beyond the received bytes, the readings and the limit matters: not the rest of the receive
    buffer and not the old contents of the send buffer (`createResponse_congr`). The server's use of
    it is therefore a function `reply` on byte strings. The size field makes the queries it answers a
    prefix code: no answered query is a proper prefix of another. -/

namespace NHA.MessageBuilder
open Scheme Scheme.MD5 Scheme.Tlv NHA.Protocol

section
variable (md5 : List UInt8 → Digest) (env : Readings)

/-- Two calls that receive the same bytes give the same size and the same response. -/
theorem createResponse_congr {query query' : Memory} {querySize querySize' : Int32}
    (responseBuffer responseBuffer' : Memory) (maxResponseSize : UInt32)
    (h : received query querySize = received query' querySize') :
    (createResponse md5 env query querySize responseBuffer maxResponseSize).1 =
        (createResponse md5 env query' querySize' responseBuffer' maxResponseSize).1 ∧
      responseOf (createResponse md5 env query querySize responseBuffer maxResponseSize) =
        responseOf (createResponse md5 env query' querySize' responseBuffer' maxResponseSize) := by
  have hiff := createResponse_answers_iff md5 env query querySize responseBuffer maxResponseSize
  rw [h, ← createResponse_answers_iff md5 env query' querySize' responseBuffer'] at hiff
  rcases createResponse_cases md5 env query querySize responseBuffer maxResponseSize with
    ⟨heq, -⟩ | ⟨hwf, -, -, hsize, hholds⟩ <;>
  rcases createResponse_cases md5 env query' querySize' responseBuffer' maxResponseSize with
    ⟨heq', -⟩ | ⟨hwf', -, -, hsize', hholds'⟩
  · rw [heq, heq']
    exact ⟨rfl, rfl⟩
  · exact absurd (by rw [heq]) (hiff.mpr (by rw [hsize']; omega))
  · exact absurd (by rw [heq']) (hiff.mp (by rw [hsize]; omega))
  · have hbytes := hholds.bytes
    have hbytes' := hholds'.bytes
    rw [length_message] at hbytes hbytes'
    rw [responseOf, responseOf, hsize, hsize', Int.toNat_natCast, Int.toNat_natCast, hbytes, hbytes',
      Framed.flagsR_eq md5 query querySize hwf.toFramed,
      Framed.flagsR_eq md5 query' querySize' hwf'.toFramed, h]
    exact ⟨rfl, rfl⟩

/-- What the server sends for a byte string received in one piece; `none` when it is refused. -/
def reply (q : List UInt8) : Option (List UInt8) :=
  let r := createResponse md5 env (Memory.ofList q) (Int32.ofNat q.length) (fun _ => 0) 61440
  if r.1 = -1 then none else some (responseOf r)

theorem toInt_ofNat {n : ℕ} (hn : n ≤ 61440) : (Int32.ofNat n).toInt = n := by
  rw [Int32.toInt_ofNat', Int.bmod_eq_of_le (by simp [Int32.size])
    (by simp [Int32.size]; omega)]

theorem received_ofNat (m : Memory) {n : ℕ} (hn : n ≤ 61440) :
    received m (Int32.ofNat n) = slice m 0 n := by
  rw [received, toInt_ofNat hn, Int.toNat_natCast]

theorem received_ofList {q : List UInt8} (hq : q.length ≤ 61440) :
    received (Memory.ofList q) (Int32.ofNat q.length) = q := by
  rw [received_ofNat _ hq, slice_ofList]

/-- The server's call of `createResponse` refuses exactly when there is no reply, and otherwise
    writes it. -/
theorem createResponse_reply (m sendBuffer : Memory) {n : ℕ} (hn : n ≤ 61440) :
    ((createResponse md5 env m (Int32.ofNat n) sendBuffer 61440).1 = -1 ∧
      reply md5 env (slice m 0 n) = none) ∨
    ((createResponse md5 env m (Int32.ofNat n) sendBuffer 61440).1 ≠ -1 ∧
      reply md5 env (slice m 0 n) =
        some (responseOf (createResponse md5 env m (Int32.ofNat n) sendBuffer 61440))) := by
  have hrec : received (Memory.ofList (slice m 0 n)) (Int32.ofNat (slice m 0 n).length) =
      received m (Int32.ofNat n) := by
    rw [received_ofList (by rwa [length_slice]), received_ofNat m hn]
  obtain ⟨hsize, hresp⟩ := createResponse_congr md5 env (fun _ => 0) sendBuffer 61440 hrec
  rw [reply, hsize, hresp]
  split_ifs with h
  · exact Or.inl ⟨h, rfl⟩
  · exact Or.inr ⟨h, rfl⟩

/-- The size of an answered call is the number of its bytes. -/
theorem length_responseOf (r : ℤ × Buffer) : (responseOf r).length = r.1.toNat := length_slice ..

theorem responseOf_size_nonneg (m sendBuffer : Memory) (n : Int32) (maxResponseSize : UInt32)
    (h : (createResponse md5 env m n sendBuffer maxResponseSize).1 ≠ -1) :
    ((createResponse md5 env m n sendBuffer maxResponseSize).1.toNat : ℤ) =
      (createResponse md5 env m n sendBuffer maxResponseSize).1 := by
  rcases createResponse_cases md5 env m n sendBuffer maxResponseSize with
    ⟨heq, -⟩ | ⟨-, -, -, hsize, -⟩
  · exact absurd (by rw [heq]) h
  · rw [hsize]
    rfl

end

/-! ### Answered queries -/

/-- The server answers these bytes when it receives them whole. -/
def Answered (md5 : List UInt8 → Digest) (q : List UInt8) : Prop :=
  q.length ≤ 61440 ∧ ∃ env m, reply md5 env q = some m

variable {md5 : List UInt8 → Digest} {p q : List UInt8}

theorem reply_isSome_iff (env : Readings) : (∃ m, reply md5 env q = some m) ↔
    (createResponse md5 env (Memory.ofList q) (Int32.ofNat q.length) (fun _ => 0) 61440).1 ≠ -1 := by
  rw [reply]
  split_ifs with h
  · exact iff_of_false (by simp) (by simp [h])
  · exact iff_of_true ⟨_, rfl⟩ h

/-- Whether a query is answered does not depend on the readings. -/
theorem Answered.reply (h : Answered md5 q) (env : Readings) : ∃ m, reply md5 env q = some m := by
  obtain ⟨-, env', h'⟩ := h
  rw [reply_isSome_iff, createResponse_answers_iff] at h' ⊢
  exact h'

/-- An answered query is well formed. -/
theorem Answered.wellFormed (h : Answered md5 q) : WellFormed md5 q := by
  obtain ⟨hq, env, h⟩ := h
  rw [reply_isSome_iff, createResponse_answers_iff, received_ofList hq] at h
  exact h.1

/-- An answered query that starts with an answered query is that query: both carry their length. -/
theorem Answered.eq_of_prefix (hp : Answered md5 p) (hq : Answered md5 q) (hpq : p <+: q) :
    p = q := by
  have hwp := hp.wellFormed
  have hwq := hq.wellFormed
  obtain ⟨t, rfl⟩ := hpq
  have hfour : (p ++ t).take 4 = p.take 4 := by
    have hmin := hwp.minSize
    rw [List.take_append_of_le_length (by omega)]
  have hlength : p.length = (p ++ t).length := by
    rw [← hwp.sizeField, ← hfour, hwq.sizeField]
  rw [List.length_append] at hlength
  rw [List.length_eq_zero_iff.mp (by omega : t.length = 0), List.append_nil]

end NHA.MessageBuilder
