import NativeHardwareAccess.Server.CreateResponse

/-! Which queries are answered.

    The interface asks for an answer to every well-formed query, header-only when a supported record
    is repeated or has a wrong length. The parse loop stops behind such a record, and the leftover
    test after it cannot tell that stop from a truncated body: unless the offending record is the
    last one, the query is refused. -/

namespace NHA.MessageBuilder
open Scheme Scheme.MD5 Scheme.Tlv NHA.Protocol

/-- Exactly the well-formed queries are answered, an offending one with the header-only message. -/
def AnswersWellFormed (md5 : List UInt8 → Digest) (env : Readings) (query : Memory)
    (querySize : Int32) (responseBuffer : Memory) : Prop :=
  let q := received query querySize
  let r := createResponse md5 env query querySize responseBuffer 61440
  (r.1 ≠ -1 ↔ WellFormed md5 q) ∧
  (WellFormed md5 q → Offending (records (body q)) →
    r.1 = 38 ∧ slice r.2.bytes 0 38 = message md5 env.devID (flagsR (query 21)) [])

/-- CORRECT (exact condition): `createResponse` answers as the interface asks exactly when the query
    is not well formed or no record before its last one offends. -/
theorem answersWellFormed_iff (md5 : List UInt8 → Digest) (env : Readings) (query : Memory)
    (querySize : Int32) (responseBuffer : Memory) :
    AnswersWellFormed md5 env query querySize responseBuffer ↔
      (WellFormed md5 (received query querySize) →
        ¬ Offending (records (body (received query querySize))).dropLast) := by
  rw [← parsed_rest_iff 61440 (received query querySize) (by decide), AnswersWellFormed]
  rcases createResponse_cases md5 env query querySize responseBuffer 61440 with
    ⟨heq, hwhy⟩ | ⟨hwf, -, hrest, hsize, hholds⟩
  · -- refused: fine unless the query was well formed
    rw [heq]
    constructor
    · rintro ⟨hiff, -⟩ hwf
      exact absurd rfl (hiff.mpr hwf)
    · intro hcond
      have hnot : ¬ WellFormed md5 (received query querySize) := by
        intro hwf
        rcases hwhy with h | h | h
        · exact h hwf
        · exact absurd h (by decide)
        · exact h (hcond hwf)
      exact ⟨iff_of_false (by simp) hnot, fun hwf => absurd hwf hnot⟩
  · -- answered
    refine iff_of_true ⟨iff_of_true (by rw [hsize]; omega) hwf, ?_⟩ (fun _ => hrest)
    intro _ hoff
    rw [responseBody_of_offending env 61440 _ (by decide) hoff] at hsize hholds
    have hbytes := hholds.bytes
    rw [length_message] at hbytes
    exact ⟨hsize, hbytes⟩

/-- Readings for concrete runs. -/
def sampleReadings : Readings :=
  ⟨1000, ⟨[0, 1, 2, 3, 4, 5, 6, 7, 8, 9, 10, 11, 12, 13, 14, 15], rfl⟩, 2000, 500⟩

/-- A query for the device ID, the device ID again, and the receive time. -/
def repeatedQuery : List UInt8 :=
  [0x2c, 0x00, 0x00, 0x00, 0x00, 0x04, 0x4e, 0x48, 0x41, 0x31, 0x01, 0x04, 0x00, 0x00, 0x00, 0x01,
   0x02, 0x01, 0x01, 0x03, 0x01, 0x00, 0x91, 0x00, 0x91, 0x00, 0x92, 0x00, 0x52, 0x2e, 0xf7, 0xd4,
   0x2e, 0x6e, 0x98, 0x7a, 0xa2, 0xa8, 0xd0, 0xf7, 0x5a, 0xde, 0x19, 0x9a]

/-- The repeated record stands before another one: a well-formed query is refused. -/
theorem repeatedQuery_refused :
    ¬ AnswersWellFormed md5 sampleReadings (Memory.ofList repeatedQuery) 44 (fun _ => 0) := by
  have hwf : WellFormed md5 (received (Memory.ofList repeatedQuery) 44) :=
    ⟨⟨by decide, by decide, by decide, by decide, by decide, by decide +kernel⟩,
      ⟨[⟨0x91, [], by decide⟩, ⟨0x91, [], by decide⟩, ⟨0x92, [], by decide⟩], by decide⟩⟩
  have hrun : (createResponse md5 sampleReadings (Memory.ofList repeatedQuery) 44 (fun _ => 0)
      61440).1 = -1 := by decide +kernel
  rintro ⟨hiff, -⟩
  exact hiff.mpr hwf hrun

end NHA.MessageBuilder
