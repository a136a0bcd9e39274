import NativeHardwareAccess.Server.Acceptance

/-! What an answer looks like.

    The response is the message of the protocol, byte for byte: size, fixed header, flags, body and
    checksum. Its body holds the answers in the fixed order of the emission pass, which is the order
    of the query only when the query asks in that order. -/

namespace NHA.MessageBuilder
open Scheme Scheme.MD5 Scheme.Tlv NHA.Protocol

/-- CORRECT: whenever `createResponse` answers, the answer is the specified message. The body is
    empty when a record of the query offends; otherwise it holds one record for each supported kind
    asked for and nothing else, in the order of `kinds`. -/
theorem createResponse_message (md5 : List UInt8 → Digest) (env : Readings) (query : Memory)
    (querySize : Int32) (responseBuffer : Memory) (maxResponseSize : UInt32)
    (hmax : 343 ≤ maxResponseSize.toNat)
    (hn : (createResponse md5 env query querySize responseBuffer maxResponseSize).1 ≠ -1) :
    let q := received query querySize
    let r := createResponse md5 env query querySize responseBuffer maxResponseSize
    let flags : UInt8 := if q[21]? = some 0x02 then 0x01 else 0x00
    ∃ rs b c, body q = encode rs ∧
      (Offending rs → b = []) ∧ (¬ Offending rs → b = encode (answer env rs)) ∧
      slice r.2.bytes 0 r.1.toNat = toLE 4 r.1.toNat ++ fixedHeader ++ [flags] ++ b ++ c ∧
      c = (if flags = 0x01 then
          List.zipWith (· ^^^ ·)
            (md5 (toLE 4 r.1.toNat ++ fixedHeader ++ [flags] ++ b)).toList env.devID.toList
        else (md5 (toLE 4 r.1.toNat ++ fixedHeader ++ [flags] ++ b)).toList) := by
  intro q r flags
  rcases createResponse_cases md5 env query querySize responseBuffer maxResponseSize with
    ⟨heq, -⟩ | ⟨hwf, -, -, hsize, hholds⟩
  · exact absurd (by rw [heq]) hn
  · have hbytes := hholds.bytes
    have hflags : flagsR (query 21) = flags := Framed.flagsR_eq md5 query querySize hwf.toFramed
    have hnat : r.1.toNat = 38 + (responseBody env maxResponseSize q).length := by
      simp only [r, hsize, Int.toNat_natCast, q]
    have hfront : toLE 4 r.1.toNat ++ fixedHeader ++ [flags] ++
        responseBody env maxResponseSize q = front flags (responseBody env maxResponseSize q) := by
      rw [front, hnat]
      simp
    obtain ⟨rs, hrs⟩ := hwf.body
    have hrecords : records (body q) = rs := by rw [hrs, records_encode]
    refine ⟨rs, responseBody env maxResponseSize q,
      checksum md5 env.devID flags (responseBody env maxResponseSize q), hrs, ?_, ?_, ?_, ?_⟩
    · rw [← hrecords]
      exact responseBody_of_offending env maxResponseSize q (by omega)
    · rw [← hrecords]
      exact responseBody_of_clean env maxResponseSize q hmax
    · rw [hfront, hnat, ← length_message md5 env.devID flags, ← hflags]
      exact hbytes
    · rw [hfront, checksum]

/-- A query for the device ID. -/
def deviceIDQuery : List UInt8 :=
  [0x28, 0x00, 0x00, 0x00, 0x00, 0x04, 0x4e, 0x48, 0x41, 0x31, 0x01, 0x04, 0x00, 0x00, 0x00, 0x01,
   0x02, 0x01, 0x01, 0x03, 0x01, 0x00, 0x91, 0x00, 0x99, 0x78, 0x6a, 0x94, 0xd3, 0x55, 0xdb, 0x3c,
   0x06, 0x3c, 0xe4, 0xb4, 0x71, 0x5e, 0xf4, 0xf5]

/-- The hypotheses are met by a query for the device ID. -/
theorem createResponse_message_deviceID : ∃ b c : List UInt8,
    responseOf (createResponse md5 sampleReadings (Memory.ofList deviceIDQuery) 40 (fun _ => 0)
      61440) = toLE 4 56 ++ fixedHeader ++ [0x00] ++ b ++ c := by
  have hrun : (createResponse md5 sampleReadings (Memory.ofList deviceIDQuery) 40 (fun _ => 0)
      61440).1 = 56 := by decide +kernel
  obtain ⟨_, b, c, -, -, -, heq, -⟩ := createResponse_message md5 sampleReadings
    (Memory.ofList deviceIDQuery) 40 (fun _ => 0) 61440 (by decide) (by rw [hrun]; decide)
  rw [hrun] at heq
  refine ⟨b, c, ?_⟩
  rw [responseOf, hrun, heq]
  rfl

/-! ### The order of the records -/

/-- CORRECT (exact condition): in an answer with a body, the records stand in the order of the query
    exactly when the query asks for them in ascending order of its tags. -/
theorem response_order_iff (md5 : List UInt8 → Digest) (env : Readings) (query : Memory)
    (querySize : Int32) (responseBuffer : Memory) (maxResponseSize : UInt32)
    (hn : (createResponse md5 env query querySize responseBuffer maxResponseSize).1 ≠ -1)
    (hbody : body (responseOf
      (createResponse md5 env query querySize responseBuffer maxResponseSize)) ≠ []) :
    let q := received query querySize
    let r := responseOf (createResponse md5 env query querySize responseBuffer maxResponseSize)
    (records (body r)).map Record.tag = (asked (records (body q))).map Kind.responseTag ↔
      (asked (records (body q))).Pairwise (fun k k' => k.queryTag < k'.queryTag) := by
  intro q r
  obtain ⟨-, hmax, heq⟩ := responseOf_answered md5 env query querySize responseBuffer
    maxResponseSize hn
  rw [heq, body_message] at hbody
  obtain ⟨-, hanswer⟩ := responseBody_of_ne_nil env maxResponseSize q hmax hbody
  have hrecords : records (body r) = answer env (records (body q)) := by
    simp only [r, heq]
    rw [body_message, hanswer, records_encode]
  rw [hrecords]
  exact answer_tags_eq_iff env (records (body q))

/-- A query for the receive time and then the device ID. -/
def unorderedQuery : List UInt8 :=
  [0x2a, 0x00, 0x00, 0x00, 0x00, 0x04, 0x4e, 0x48, 0x41, 0x31, 0x01, 0x04, 0x00, 0x00, 0x00, 0x01,
   0x02, 0x01, 0x01, 0x03, 0x01, 0x00, 0x92, 0x00, 0x91, 0x00, 0xa5, 0xd6, 0xb9, 0x25, 0xf1, 0x74,
   0x42, 0x98, 0xc0, 0xff, 0x4e, 0x80, 0x14, 0x5c, 0xd5, 0x8a]

/-- The response to a concrete query, as one list. -/
def sampleResponse (q : List UInt8) (querySize : Int32) : List UInt8 :=
  responseOf (createResponse md5 sampleReadings (Memory.ofList q) querySize (fun _ => 0) 61440)

/-- It is answered with the device ID first. -/
theorem unorderedQuery_reordered :
    (createResponse md5 sampleReadings (Memory.ofList unorderedQuery) 42 (fun _ => 0) 61440).1 ≠ -1 ∧
      body (sampleResponse unorderedQuery 42) ≠ [] ∧
      ¬ (records (body (sampleResponse unorderedQuery 42))).map Record.tag =
        (asked (records (body unorderedQuery))).map Kind.responseTag := by
  decide +kernel

/-- A query for the device ID and then the three times, with a checksum that shows the device ID. -/
def orderedQuery : List UInt8 :=
  [0x2e, 0x00, 0x00, 0x00, 0x00, 0x04, 0x4e, 0x48, 0x41, 0x31, 0x01, 0x04, 0x00, 0x00, 0x00, 0x01,
   0x02, 0x01, 0x01, 0x03, 0x01, 0x02, 0x91, 0x00, 0x92, 0x00, 0x93, 0x00, 0x94, 0x00, 0xce, 0xb4,
   0xe5, 0x00, 0xa2, 0x72, 0x6f, 0x74, 0xd7, 0x27, 0xcb, 0x79, 0x9d, 0x46, 0x9c, 0x5e]

/-- The condition of the order theorem is met by a query for four records in ascending order. -/
theorem response_order_ascending :
    (records (body (sampleResponse orderedQuery 46))).map Record.tag = [0x11, 0x12, 0x13, 0x14] := by
  have hq : received (Memory.ofList orderedQuery) 46 = orderedQuery := by decide
  have horder := response_order_iff md5 sampleReadings (Memory.ofList orderedQuery) 46
    (fun _ => 0) 61440 (by decide +kernel) (by decide +kernel)
  rw [hq] at horder
  exact horder.mpr (by decide +kernel)

end NHA.MessageBuilder
