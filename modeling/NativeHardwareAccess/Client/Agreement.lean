import NativeHardwareAccess.Client.Codec
import NativeHardwareAccess.Server.Reply
import NativeHardwareAccess.Server.ResponseLayout

/-! Client and server speak the same format.

    What the client serializes from a header and records without offences is answered by the server,
    and what the server answers is read back by the client record by record: the difference of the two
    checksums is zero or the device ID, and the timer records decode to the numbers that were read. -/

namespace NHA.Nhac
open Scheme Scheme.MD5 Scheme.Tlv NHA.MessageBuilder NHA.Protocol

/-- The four records of the header. -/
def headerRecords (flags : UInt8) : List Record :=
  [⟨0x00, [0x4e, 0x48, 0x41, 0x31], by decide⟩, ⟨0x01, [0x00, 0x00, 0x00, 0x01], by decide⟩,
   ⟨0x02, [0x01], by decide⟩, ⟨0x03, [flags], by simp⟩]

theorem encode_headerRecords (flags : UInt8) : encode (headerRecords flags) = fixedHeader ++ [flags] := by
  rfl

theorem length_encode_header (flags : UInt8) (rs : List Record) :
    20 + (encode (headerRecords flags ++ rs)).length = 38 + (encode rs).length := by
  rw [encode_append, encode_headerRecords]
  simp only [List.length_append, length_fixedHeader, List.length_singleton]
  omega

/-- The bytes before the checksum are the size and the records, those of the header included. -/
theorem front_eq (flags : UInt8) (rs : List Record) : front flags (encode rs) =
    toLE 4 (38 + (encode rs).length) ++ encode (headerRecords flags ++ rs) := by
  rw [front, encode_append, encode_headerRecords]
  simp only [List.append_assoc, List.singleton_append]

/-! ### The client's queries -/

/-- The server answers what the client serializes. -/
theorem serialized_answered (md5 : List UInt8 → Digest) {flags : UInt8} {rs : List Record}
    {m : Message} {n : ℕ} (memory : Memory) (env : Readings) (responseBuffer : Memory)
    {maxResponseSize : UInt32} (hflags : flags = 0x00 ∨ flags = 0x02)
    (htlvs : m.tlvs = (headerRecords flags ++ rs).map TLV.ofRecord)
    (hsize : 38 + (encode rs).length ≤ 32768) (hclean : ¬ Offending rs)
    (hfit : 38 + (encode rs).length ≤ n) (hn : n < 2 ^ 64) (hmax : 343 ≤ maxResponseSize.toNat) :
    ∃ size m' t, m.serialize md5 (Buffer.fresh memory) n = (.ok size, m', t) ∧
      (createResponse md5 env t.bytes (Int32.ofNat size) responseBuffer maxResponseSize).1 ≠ -1 := by
  have hlen := length_encode_header flags rs
  obtain ⟨t, hser, hholds⟩ := serialize_records md5 memory htlvs (by omega) (by omega) hn
  rw [hlen, ← front_eq] at hholds hser
  refine ⟨_, _, t, hser, ?_⟩
  obtain ⟨hwf, hbody⟩ := wellFormed_query md5 hflags hsize
  have hreceived : received t.bytes (Int32.ofNat (38 + (encode rs).length)) =
      front flags (encode rs) ++ (md5 (front flags (encode rs))).toList := by
    have hbytes := hholds.bytes
    have hall : (front flags (encode rs) ++ (md5 (front flags (encode rs))).toList).length =
        38 + (encode rs).length := by
      rw [List.length_append, length_front, List.Vector.toList_length]
      omega
    rw [hall] at hbytes
    rw [received_ofNat _ (by omega), hbytes]
  rw [createResponse_answers_iff, hreceived]
  refine ⟨hwf, by omega, parsed_rest_of_clean _ _ hmax ?_⟩
  rwa [hbody, records_encode]

/-! ### The server's responses -/

/-- The client's two halves are the server's eight bytes. -/
theorem fromHalves_toLE (u : UInt64) : fromHalves (toLE 8 u.toNat) = u := by
  have hlow : ∀ l : List UInt8, 4 ≤ l.length →
      (fromLE32 (Memory.ofList l)).toNat = ofLE (l.take 4) := by
    intro l hl
    have hslice := congrArg (List.take 4) (slice_ofList l)
    rw [take_slice _ _ hl] at hslice
    rw [fromLE32, toNat_fromLE32, hslice]
  have hlen : (toLE 8 u.toNat).length = 8 := length_toLE _ _
  have hhi : ((toLE 8 u.toNat).drop 4).length = 4 := by rw [List.length_drop, hlen]
  have hlt : ofLE ((toLE 8 u.toNat).drop 4) < 2 ^ 32 := by
    have := ofLE_lt ((toLE 8 u.toNat).drop 4)
    rw [hhi] at this
    exact lt_of_lt_of_eq this (by norm_num)
  rw [← UInt64.toNat_inj, fromHalves, UInt64.toNat_or, UInt64.toNat_shiftLeft,
    UInt32.toNat_toUInt64, UInt32.toNat_toUInt64, hlow _ (by omega), hlow _ (by omega),
    List.take_of_length_le (by omega : ((toLE 8 u.toNat).drop 4).length ≤ 4)]
  change (ofLE _ <<< 32) % 2 ^ 64 ||| _ = _
  rw [Nat.mod_eq_of_lt (by rw [Nat.shiftLeft_eq]; omega),
    ofLE_halves _ _ (by rw [List.length_take, hlen]; rfl), List.take_append_drop]
  exact ofLE_toLE_of_lt (lt_of_lt_of_eq u.toNat_lt (by norm_num))

theorem decodeNumber_eq (name : String) {tag : UInt8} (htag : tag &&& 0x80 = 0x00) (u : UInt64) :
    decodeNumber name ⟨tag, toLE 8 u.toNat⟩ = name ++ " " ++ toString u.toNat := by
  rw [decodeNumber, if_neg (by rw [htag]; simp), if_pos ⟨htag, length_toLE _ _⟩, fromHalves_toLE]

/-- The three records with a number in them. -/
theorem decode_timerRx (value : List UInt8) :
    TLV.decode ⟨0x12, value⟩ = decodeNumber "monotonic_timer_rx" ⟨0x12, value⟩ := by
  simp [TLV.decode, show (0x12 : UInt8) &&& 0x7f = 0x12 by decide]

theorem decode_timerTx (value : List UInt8) :
    TLV.decode ⟨0x13, value⟩ = decodeNumber "monotonic_timer_tx" ⟨0x13, value⟩ := by
  simp [TLV.decode, show (0x13 : UInt8) &&& 0x7f = 0x13 by decide]

theorem decode_lastUpdated (value : List UInt8) :
    TLV.decode ⟨0x14, value⟩ = decodeNumber "device_id_last_updated" ⟨0x14, value⟩ := by
  simp [TLV.decode, show (0x14 : UInt8) &&& 0x7f = 0x14 by decide]

/-- A record that answers with a number is decoded to that number. -/
theorem decode_answer {env : Readings} {rs : List Record} {e : Record} {k : Kind} {name : String}
    {u : UInt64} (hvalue : ∀ v, k.answerValue env v = toLE 8 u.toNat)
    (hdecode : ∀ value, TLV.decode ⟨k.responseTag, value⟩ = decodeNumber name ⟨k.responseTag, value⟩)
    (htop : k.responseTag &&& 0x80 = 0x00) (he : e ∈ answer env rs) (htag : e.tag = k.responseTag) :
    e.value = toLE64 u ∧ (TLV.ofRecord e).decode = name ++ " " ++ toString u.toNat := by
  obtain ⟨_, _, hval⟩ := answer_of_tag he htag
  rw [hvalue] at hval
  refine ⟨hval.trans (toLE64_eq u).symm, ?_⟩
  rw [TLV.ofRecord, htag, hval, hdecode]
  exact decodeNumber_eq name htop u

/-- The checksum of a response as a digest. -/
def checksumDigest (md5 : List UInt8 → Digest) (devID : DeviceID) (flags : UInt8) (b : List UInt8) :
    Digest :=
  ⟨checksum md5 devID flags b, length_checksum ..⟩

theorem toList_checksumDigest (md5 : List UInt8 → Digest) (devID : DeviceID) (flags : UInt8)
    (b : List UInt8) : (checksumDigest md5 devID flags b).toList = checksum md5 devID flags b := rfl

/-- The checksum of a response, XORed with the MD5 of what precedes it. -/
theorem xorDigest_checksum (md5 : List UInt8 → Digest) (devID : DeviceID) (flags : UInt8)
    (b : List UInt8) : xorDigest (checksumDigest md5 devID flags b) (md5 (front flags b)) =
      if flags = 0x01 then devID else List.Vector.replicate 16 0 := by
  apply List.Vector.toList_injective
  rw [xorDigest, List.Vector.zipWith_toList, toList_checksumDigest, checksum]
  split_ifs
  · rw [List.zipWith_comm_of_comm UInt8.xor_comm]
    exact zipWith_xor_cancel _ _ (by simp)
  · rw [List.zipWith_self]
    simp [List.Vector.replicate]

/-- The flags of the response to a query. -/
def responseFlags (q : List UInt8) : UInt8 := if q[21]? = some 0x02 then 0x01 else 0x00

/-- The client's message for a response to the query `q` with these body records: its header and body
    records, the two checksums, and their difference, which is zero or the device ID. -/
def responseMessage (md5 : List UInt8 → Digest) (env : Readings) (q : List UInt8) (rs : List Record) :
    Message :=
  ⟨(headerRecords (responseFlags q) ++ rs).map TLV.ofRecord,
    some (checksumDigest md5 env.devID (responseFlags q) (encode rs)),
    some (md5 (front (responseFlags q) (encode rs))),
    some (if responseFlags q = 0x01 then env.devID else List.Vector.replicate 16 0)⟩

/-- What the client makes of a response: its body records are the answer to a query without offences
    that the limit leaves room for, else there are none. -/
theorem response_deserialized (md5 : List UInt8 → Digest) (env : Readings) (query : Memory)
    (querySize : Int32) (responseBuffer : Memory) (maxResponseSize : UInt32) (m : Message)
    (hn : (createResponse md5 env query querySize responseBuffer maxResponseSize).1 ≠ -1) :
    let q := received query querySize
    let r := createResponse md5 env query querySize responseBuffer maxResponseSize
    ∃ rs, (responseOf r)[21]? = some (responseFlags q) ∧ body (responseOf r) = encode rs ∧
      ((¬ Offending (records (body q)) ∧ rs = answer env (records (body q))) ∨
        (rs = [] ∧ (38 + answerLength (records (body q)) ≤ maxResponseSize.toNat →
          Offending (records (body q))))) ∧
      m.deserialize md5 r.2.bytes r.1.toNat = (.ok r.1.toNat, responseMessage md5 env q rs) := by
  intro q r
  obtain ⟨hwf, hmax, hmsg⟩ := responseOf_answered _ _ _ _ _ _ hn
  obtain ⟨rs, hrs, hwhich⟩ : ∃ rs, responseBody env maxResponseSize q = encode rs ∧
      ((¬ Offending (records (body q)) ∧ rs = answer env (records (body q))) ∨
        (rs = [] ∧ (38 + answerLength (records (body q)) ≤ maxResponseSize.toNat →
          Offending (records (body q))))) := by
    rcases responseBody_cases env maxResponseSize q hmax with
      ⟨hclean, -, -, hanswer⟩ | ⟨hnil, hoff⟩
    · exact ⟨_, hanswer, Or.inl ⟨hclean, rfl⟩⟩
    · exact ⟨[], hnil, Or.inr ⟨rfl, hoff⟩⟩
  have hflags : flagsR (query 21) = responseFlags q :=
    Framed.flagsR_eq md5 query querySize hwf.toFramed
  rw [hrs, hflags] at hmsg
  have hsize : r.1.toNat = 38 + (encode rs).length := by
    rw [← length_responseOf, hmsg, length_message]
  have hbytes : slice r.2.bytes 0 (38 + (encode rs).length) =
      toLE 4 (38 + (encode rs).length) ++ encode (headerRecords (responseFlags q) ++ rs) ++
        checksum md5 env.devID (responseFlags q) (encode rs) := by
    rw [← front_eq, ← hsize]
    exact hmsg
  refine ⟨rs, ?_, ?_, hwhich, ?_⟩
  · rw [hmsg, flags_message]
  · rw [hmsg, body_message]
  · have hlen := length_encode_header (responseFlags q) rs
    have hshort : (encode rs).length ≤ 305 := by
      rw [← hrs]
      exact length_bodyBytes_le env (accounted_parsed maxResponseSize _ hmax)
    have hread := @deserialize_records md5 m r.2.bytes r.1.toNat
      (headerRecords (responseFlags q) ++ rs)
      (checksumDigest md5 env.devID (responseFlags q) (encode rs)) (by omega) (by omega)
      (by rw [hlen]; exact hbytes)
    rw [hlen, ← front_eq, xorDigest_checksum] at hread
    rw [hread, hsize, responseMessage]

theorem responseFlags_cases (q : List UInt8) : responseFlags q = 0x00 ∨ responseFlags q = 0x01 := by
  rw [responseFlags]
  split_ifs
  · exact Or.inr rfl
  · exact Or.inl rfl

/-- CORRECT: the two implementations agree in both directions. -/
theorem client_server_agree (md5 : List UInt8 → Digest) :
    (∀ (flags : UInt8) (rs : List Record) (m : Message) (n : ℕ) (memory : Memory) (env : Readings)
      (responseBuffer : Memory) (maxResponseSize : UInt32), flags = 0x00 ∨ flags = 0x02 →
      m.tlvs = (headerRecords flags ++ rs).map TLV.ofRecord → 38 + (encode rs).length ≤ 32768 →
      ¬ Offending rs → 38 + (encode rs).length ≤ n → n < 2 ^ 64 → 343 ≤ maxResponseSize.toNat →
      ∃ size m' t, m.serialize md5 (Buffer.fresh memory) n = (.ok size, m', t) ∧
        (createResponse md5 env t.bytes (Int32.ofNat size) responseBuffer maxResponseSize).1 ≠ -1) ∧
    (∀ (env : Readings) (query : Memory) (querySize : Int32) (responseBuffer : Memory)
      (maxResponseSize : UInt32) (m : Message),
      let r := createResponse md5 env query querySize responseBuffer maxResponseSize
      r.1 ≠ -1 → ∃ flags rs received calculated xored, (flags = 0x00 ∨ flags = 0x01) ∧
        (responseOf r)[21]? = some flags ∧ body (responseOf r) = encode rs ∧
        m.deserialize md5 r.2.bytes r.1.toNat = (.ok r.1.toNat,
          ⟨(headerRecords flags ++ rs).map TLV.ofRecord, some received, some calculated,
            some xored⟩) ∧
        (flags = 0x00 → xored = List.Vector.replicate 16 0) ∧ (flags = 0x01 → xored = env.devID) ∧
        ∀ e ∈ rs,
          (e.tag = 0x12 → e.value = toLE64 env.timerRx ∧ (TLV.ofRecord e).decode =
            "monotonic_timer_rx " ++ toString env.timerRx.toNat) ∧
          (e.tag = 0x13 → e.value = toLE64 env.timerTx ∧ (TLV.ofRecord e).decode =
            "monotonic_timer_tx " ++ toString env.timerTx.toNat) ∧
          (e.tag = 0x14 → e.value = toLE64 env.lastUpdated ∧ (TLV.ofRecord e).decode =
            "device_id_last_updated " ++ toString env.lastUpdated.toNat)) := by
  constructor
  · intro flags rs m n memory env responseBuffer maxResponseSize hflags htlvs hsize hclean hfit hn hmax
    exact serialized_answered md5 memory env responseBuffer hflags htlvs hsize hclean hfit hn hmax
  · intro env query querySize responseBuffer maxResponseSize m r hn
    obtain ⟨rs, h21, hbody, hwhich, hread⟩ :=
      response_deserialized md5 env query querySize responseBuffer maxResponseSize m hn
    refine ⟨_, rs, _, _, _, responseFlags_cases _, h21, hbody, hread, ?_, ?_, ?_⟩
    · intro hflags
      rw [hflags]
      rfl
    · exact fun hflags => if_pos hflags
    · intro e he
      have hmem : ∀ e ∈ rs, e ∈ answer env (records (body (received query querySize))) := by
        rcases hwhich with ⟨-, rfl⟩ | ⟨rfl, -⟩
        · exact fun _ he => he
        · exact fun _ he => absurd he List.not_mem_nil
      refine ⟨fun htag => ?_, fun htag => ?_, fun htag => ?_⟩
      · exact decode_answer (k := .timerRx) (fun _ => rfl) decode_timerRx (by decide) (hmem e he) htag
      · exact decode_answer (k := .timerTx) (fun _ => rfl) decode_timerTx (by decide) (hmem e he) htag
      · exact decode_answer (k := .lastUpdated) (fun _ => rfl) decode_lastUpdated (by decide)
          (hmem e he) htag

/-- A query of the client for the device ID and the three times is answered, and the client reads the
    device ID and the times from the answer. -/
theorem client_server_agree_times :
    (∃ size m t, (Message.mk ((headerRecords 0x02 ++ records (body orderedQuery)).map TLV.ofRecord)
        none none none).serialize md5 (Buffer.fresh (fun _ => 0)) 65536 = (.ok size, m, t) ∧
      (createResponse md5 sampleReadings t.bytes (Int32.ofNat size) (fun _ => 0) 61440).1 ≠ -1) ∧
    ∃ n m rx tx last, (Message.mk [] none none none).deserialize md5
      (createResponse md5 sampleReadings (Memory.ofList orderedQuery) 46 (fun _ => 0) 61440).2.bytes
      86 = (.ok n, m) ∧ m.xoredMd5 = some sampleReadings.devID ∧
      rx ∈ m.tlvs ∧ rx.decode = "monotonic_timer_rx " ++ toString 1000 ∧
      tx ∈ m.tlvs ∧ tx.decode = "monotonic_timer_tx " ++ toString 2000 ∧
      last ∈ m.tlvs ∧ last.decode = "device_id_last_updated " ++ toString 500 := by
  have hsize : (createResponse md5 sampleReadings (Memory.ofList orderedQuery) 46 (fun _ => 0)
      61440).1 = 86 := by decide +kernel
  obtain ⟨hquery, hresponse⟩ := client_server_agree md5
  refine ⟨?_, ?_⟩
  · exact hquery 0x02 (records (body orderedQuery)) _ 65536 (fun _ => 0) sampleReadings (fun _ => 0)
      61440 (Or.inr rfl) rfl (by decide) (by decide) (by decide) (by decide) (by decide)
  · obtain ⟨flags, rs, received, calculated, xored, -, h21, hbody, hread, -, hdevice, htimes⟩ :=
      hresponse sampleReadings (Memory.ofList orderedQuery) 46 (fun _ => 0) 61440
        ⟨[], none, none, none⟩ (by rw [hsize]; decide)
    have hflags : flags = 0x01 := by
      have hbyte : (sampleResponse orderedQuery 46)[21]? = some 0x01 := by decide +kernel
      exact Option.some.inj (h21.symm.trans hbyte)
    -- the records of the response, by their tags
    have hrecord : ∀ tag ∈ [0x12, 0x13, 0x14], ∃ e ∈ rs, e.tag = tag := by
      have hfound : ∀ tag ∈ ([0x12, 0x13, 0x14] : List UInt8),
          ∃ e ∈ records (body (sampleResponse orderedQuery 46)), e.tag = tag := by decide +kernel
      rwa [sampleResponse, hbody, records_encode] at hfound
    obtain ⟨rx, hrx, hrxTag⟩ := hrecord 0x12 (by decide)
    obtain ⟨tx, htx, htxTag⟩ := hrecord 0x13 (by decide)
    obtain ⟨last, hlast, hlastTag⟩ := hrecord 0x14 (by decide)
    have hmem : ∀ e ∈ rs, TLV.ofRecord e ∈ (headerRecords flags ++ rs).map TLV.ofRecord :=
      fun e he => List.mem_map_of_mem (List.mem_append_right _ he)
    rw [hsize] at hread
    refine ⟨_, _, TLV.ofRecord rx, TLV.ofRecord tx, TLV.ofRecord last, hread, ?_, hmem rx hrx, ?_,
      hmem tx htx, ?_, hmem last hlast, ?_⟩
    · rw [hdevice hflags]
    · exact ((htimes rx hrx).1 hrxTag).2
    · exact ((htimes tx htx).2.1 htxTag).2
    · exact ((htimes last hlast).2.2 hlastTag).2

end NHA.Nhac
