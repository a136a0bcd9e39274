import NativeHardwareAccess.Server.Emission

/-! `createResponse` as a whole.

    The header and checksum tests accept exactly the framed queries (`checks_iff`). On a framed query
    the outcome is decided by the parse loop alone: -1 if it left bytes over, else the message with
    the body it wants (`createResponse_framed`). -/

namespace NHA.MessageBuilder
open Scheme Scheme.MD5 Scheme.Tlv NHA.Protocol

/-- The bytes the caller passed. -/
def received (query : Memory) (querySize : Int32) : List UInt8 :=
  slice query 0 querySize.toInt.toNat

theorem length_received (query : Memory) (querySize : Int32) :
    (received query querySize).length = querySize.toInt.toNat := length_slice ..

/-- A size that reads as a small `uint32_t` was not negative. -/
theorem toInt_of_u32_le {querySize : Int32} (h : u32 querySize.toInt ≤ maxMsgSize) :
    querySize.toInt = (u32 querySize.toInt : ℤ) := by
  have hlt : querySize.toInt < 2 ^ 31 := querySize.toInt_lt
  have hge : -2 ^ 31 ≤ querySize.toInt := querySize.le_toInt
  rw [u32, maxMsgSize] at h
  rw [u32]
  omega

theorem u32_of_nonneg {querySize : Int32} (h : 0 ≤ querySize.toInt) :
    u32 querySize.toInt = querySize.toInt.toNat := by
  have hlt : querySize.toInt < 2 ^ 31 := querySize.toInt_lt
  rw [u32]
  omega

theorem toNat_fromLE32 (m : Memory) : (fromLE32 m).toNat = ofLE (slice m 0 4) := by
  have hshift : ∀ (b : UInt8) (k : UInt32), k.toNat ≤ 24 →
      (b.toUInt32 <<< k).toNat = b.toNat <<< k.toNat := by
    intro b k hk
    have hb : b.toNat < 2 ^ 8 := b.toNat_lt
    have hlt : b.toNat <<< k.toNat < 2 ^ 32 := by
      rw [Nat.shiftLeft_eq]
      calc b.toNat * 2 ^ k.toNat < 2 ^ 8 * 2 ^ 24 :=
            Nat.mul_lt_mul_of_lt_of_le hb (Nat.pow_le_pow_right (by omega) hk) (by positivity)
        _ = 2 ^ 32 := by norm_num
    rw [UInt32.toNat_shiftLeft, UInt8.toNat_toUInt32, Nat.mod_eq_of_lt (by omega : k.toNat < 32),
      Nat.mod_eq_of_lt hlt]
  rw [fromLE32]
  simp only [UInt32.toNat_or, UInt8.toNat_toUInt32]
  rw [hshift _ 8 (by decide), hshift _ 16 (by decide), hshift _ 24 (by decide)]
  exact ofLE_four _ _ _ _

/-- The fixed part of the header test, byte by byte. -/
theorem header_iff (m : Memory) : slice m 4 17 = fixedHeader ↔
    m 4 = magicTag ∧ m 5 = magicLength ∧
    (∀ i < 4, m (6 + i) = magicBytes.getD i 0) ∧ m 10 = versionTag ∧ m 11 = versionLength ∧
    (∀ i < 4, m (12 + i) = versionBytes.getD i 0) ∧ m 16 = messageTypeTag ∧
    m 17 = messageTypeLength ∧ m 18 = messageTypeStandardMessage ∧ m 19 = messageFlagsTag ∧
    m 20 = messageFlagsLength := by
  have hfour : ∀ P : ℕ → Prop, (∀ i < 4, P i) ↔ P 0 ∧ P 1 ∧ P 2 ∧ P 3 := by
    intro P
    constructor
    · intro h
      exact ⟨h 0 (by omega), h 1 (by omega), h 2 (by omega), h 3 (by omega)⟩
    · rintro ⟨h0, h1, h2, h3⟩ i hi
      interval_cases i <;> assumption
  simp only [slice, fixedHeader, List.cons.injEq, and_true, hfour]
  simp [magicTag, magicLength, magicBytes, versionTag, versionLength, versionBytes, messageTypeTag,
    messageTypeLength, messageTypeStandardMessage, messageFlagsTag, messageFlagsLength, and_assoc]

theorem checkHeader_iff (m : Memory) (querySize : Int32) : checkHeader m querySize = true ↔
    (ofLE (slice m 0 4) = u32 querySize.toInt ∧ 38 ≤ u32 querySize.toInt ∧
      u32 querySize.toInt ≤ 32768) ∧ slice m 4 17 = fixedHeader ∧ (m 21 = 0x00 ∨ m 21 = 0x02) := by
  rw [header_iff]
  simp only [checkHeader, toNat_fromLE32, minMsgSize, maxMsgSize, flagsNone,
    replyChecksumXorDeviceID, Bool.and_eq_true, Bool.not_eq_true', Bool.or_eq_false_iff,
    Bool.or_eq_true, bne_eq_false_iff_eq, decide_eq_false_iff_not, beq_iff_eq, List.all_eq_true,
    List.mem_range]
  constructor
  · rintro ⟨⟨⟨⟨⟨⟨⟨⟨⟨⟨⟨⟨⟨⟨hsize, hlo⟩, hhi⟩, h4⟩, h5⟩, h6⟩, h10⟩, h11⟩, h12⟩, h16⟩, h17⟩, h18⟩,
      h19⟩, h20⟩, hflags⟩
    exact ⟨⟨hsize, by omega, by omega⟩, ⟨h4, h5, h6, h10, h11, h12, h16, h17, h18, h19, h20⟩,
      hflags⟩
  · rintro ⟨⟨hsize, hlo, hhi⟩, ⟨h4, h5, h6, h10, h11, h12, h16, h17, h18, h19, h20⟩, hflags⟩
    exact ⟨⟨⟨⟨⟨⟨⟨⟨⟨⟨⟨⟨⟨⟨hsize, by omega⟩, by omega⟩, h4⟩, h5⟩, h6⟩, h10⟩, h11⟩, h12⟩, h16⟩,
      h17⟩, h18⟩, h19⟩, h20⟩, hflags⟩

theorem checkChecksum_iff (md5 : List UInt8 → Digest) (query : Memory) (querySize : Int32) :
    checkChecksum md5 query querySize = true ↔
      slice query (u32 querySize.toInt - 16) 16 =
        (md5 (slice query 0 (u32 querySize.toInt - 16))).toList := by
  have hiff := slice_eq_iff query (md5 (slice query 0 (u32 querySize.toInt - 16))).toList
    (u32 querySize.toInt - 16)
  rw [List.Vector.toList_length] at hiff
  rw [hiff]
  simp only [checkChecksum, checksumSize, List.all_eq_true, List.mem_range, beq_iff_eq]

/-- The tests before the parse loop accept exactly the framed queries. -/
theorem checks_iff (md5 : List UInt8 → Digest) (query : Memory) (querySize : Int32) :
    (headerSize ≤ u32 querySize.toInt ∧ checkHeader query querySize = true ∧
      checkChecksum md5 query querySize = true) ↔ Framed md5 (received query querySize) := by
  rw [checkHeader_iff, checkChecksum_iff]
  -- the same facts on both sides, once the size is known to be a small natural number
  have hq : ∀ n, querySize.toInt.toNat = n → 38 ≤ n →
      ((received query querySize).length = n ∧
        (received query querySize).take 4 = slice query 0 4 ∧
        ((received query querySize).drop 4).take 17 = slice query 4 17 ∧
        (received query querySize)[21]? = some (query 21) ∧
        (received query querySize).drop (n - 16) = slice query (n - 16) 16 ∧
        (received query querySize).take (n - 16) = slice query 0 (n - 16)) := by
    intro n hn h38
    rw [received, hn]
    refine ⟨length_slice .., take_slice _ _ (by omega), ?_, ?_, ?_, take_slice _ _ (by omega)⟩
    · rw [drop_slice _ _ (by omega), take_slice _ _ (by omega)]
    · rw [getElem?_slice _ _ _ _ (by omega), Nat.zero_add]
    · rw [drop_slice _ _ (by omega), Nat.zero_add, Nat.sub_sub_self (by omega)]
  constructor
  · rintro ⟨-, ⟨⟨hsize, hlo, hhi⟩, hhead, hflags⟩, hsum⟩
    have hint := toInt_of_u32_le hhi
    obtain ⟨hlen, h4, h17, h21, hend, hstart⟩ := hq (u32 querySize.toInt) (by omega) hlo
    refine ⟨by omega, by omega, ?_, ?_, ?_, ?_⟩
    · rw [h4, hlen, hsize]
    · rw [h17, hhead]
    · rw [h21]; exact hflags.imp (congrArg some) (congrArg some)
    · rw [hlen, hend, hstart, hsum]
  · rintro ⟨hlo, hhi, hsize, hhead, hflags, hsum⟩
    rw [length_received] at hlo hhi
    have hu : u32 querySize.toInt = querySize.toInt.toNat := u32_of_nonneg (by omega)
    obtain ⟨hlen, h4, h17, h21, hend, hstart⟩ := hq _ rfl hlo
    rw [hu]
    refine ⟨by rw [headerSize]; omega, ⟨⟨?_, hlo, hhi⟩, ?_, ?_⟩, ?_⟩
    · rw [← h4, hsize, hlen]
    · rw [← h17, hhead]
    · rw [h21] at hflags
      exact hflags.imp Option.some.inj Option.some.inj
    · rw [← hend, ← hstart, ← hlen, hsum]

/-! ### The outcome -/

variable (md5 : List UInt8 → Digest) (env : Readings) (query : Memory) (querySize : Int32)
  (responseBuffer : Memory) (maxResponseSize : UInt32)

/-- A query that is not framed is refused and nothing is written. -/
theorem createResponse_not_framed (h : ¬ Framed md5 (received query querySize)) :
    createResponse md5 env query querySize responseBuffer maxResponseSize =
      (-1, Buffer.fresh responseBuffer) := by
  rw [← checks_iff] at h
  rw [createResponse]
  split_ifs with h1 h2 h3 h4
  · rfl
  · rfl
  · rfl
  · rfl
  · exfalso
    simp only [Bool.not_eq_true', Bool.not_eq_false] at h2 h3
    exact h ⟨by omega, h2, h3⟩

/-- A response buffer too small for header and checksum is refused and nothing is written. -/
theorem createResponse_small (h : maxResponseSize.toNat < 38) :
    createResponse md5 env query querySize responseBuffer maxResponseSize =
      (-1, Buffer.fresh responseBuffer) := by
  rw [createResponse]
  split_ifs with h1 h2 h3 h4
  · rfl
  · rfl
  · rfl
  · rfl
  · exact absurd h (by rw [headerSize, checksumSize] at h4; omega)

/-- What the parse loop collects from a query, and the records it does not look at. -/
def parsed (q : List UInt8) : Wants × List Record :=
  loopRecords maxResponseSize.toNat (records (body q)) Wants.init

/-- The parse loop on a framed query. -/
theorem parseBody_framed (h : Framed md5 (received query querySize)) :
    parseBody query querySize maxResponseSize.toNat =
      (((encode (parsed maxResponseSize (received query querySize)).2 ++
          rest (body (received query querySize))).length : ℤ),
        (parsed maxResponseSize (received query querySize)).1) := by
  have hmin := h.minSize
  rw [length_received] at hmin
  have hbody : body (received query querySize) = slice query 22 (querySize.toInt.toNat - 38) := by
    rw [body, length_received, received, drop_slice _ _ (by omega), take_slice _ _ (by omega)]
  rw [parsed, hbody]
  exact parseBody_eq query querySize maxResponseSize.toNat (querySize.toInt.toNat - 38) (by omega)

/-- On a framed query the parse loop decides. -/
theorem createResponse_framed (h : Framed md5 (received query querySize))
    (hmax : 38 ≤ maxResponseSize.toNat) :
    createResponse md5 env query querySize responseBuffer maxResponseSize =
      if encode (parsed maxResponseSize (received query querySize)).2 ++
          rest (body (received query querySize)) = [] then
        respond md5 env query (parsed maxResponseSize (received query querySize)).1 responseBuffer
      else (-1, Buffer.fresh responseBuffer) := by
  obtain ⟨hhead, hcheck, hsum⟩ := (checks_iff md5 query querySize).mpr h
  rw [createResponse, if_neg (by rw [headerSize] at hhead ⊢; omega), hcheck, hsum]
  simp only [Bool.not_true, Bool.false_eq_true, if_false]
  rw [if_neg (by rw [headerSize, checksumSize]; omega),
    parseBody_framed md5 query querySize maxResponseSize h]
  dsimp only
  by_cases hnil : encode (parsed maxResponseSize (received query querySize)).2 ++
      rest (body (received query querySize)) = []
  · rw [if_pos hnil, if_neg (by rw [hnil]; decide)]
  · have hpos := List.length_pos_of_ne_nil hnil
    rw [if_neg hnil, if_pos (by exact_mod_cast hpos)]

/-- The type byte of a framed query is the one the response repeats. -/
theorem Framed.type_byte (h : Framed md5 (received query querySize)) :
    query 18 = messageTypeStandardMessage := by
  have hcheck := ((checks_iff md5 query querySize).mpr h).2.1
  rw [checkHeader_iff, header_iff] at hcheck
  exact hcheck.2.1.2.2.2.2.2.2.2.2.1

/-- The flags of a framed query decide those of the response. -/
theorem Framed.flagsR_eq (h : Framed md5 (received query querySize)) :
    flagsR (query 21) = if (received query querySize)[21]? = some 0x02 then 0x01 else 0x00 := by
  have hmin := h.minSize
  rw [length_received] at hmin
  have h21 : (received query querySize)[21]? = some (query 21) := by
    rw [received, getElem?_slice _ _ _ _ (by omega), Nat.zero_add]
  have hflags := h.flags
  rw [h21] at hflags ⊢
  rcases hflags with hflags | hflags
  · rw [Option.some.inj hflags]
    decide
  · rw [Option.some.inj hflags]
    decide

theorem accounted_parsed (q : List UInt8) (hmax : 38 ≤ maxResponseSize.toNat) :
    Accounted maxResponseSize.toNat (parsed maxResponseSize q).1 :=
  accounted_loop _ (accounted_init hmax)

/-- The bytes of the response body, when there is a response. -/
def responseBody (q : List UInt8) : List UInt8 := (parsed maxResponseSize q).1.bodyBytes env

/-- Everything `createResponse` can do: refuse and write nothing, or accept a well-formed query and
    write the message with the wanted body. -/
theorem createResponse_cases :
    (createResponse md5 env query querySize responseBuffer maxResponseSize =
        (-1, Buffer.fresh responseBuffer) ∧
      (¬ WellFormed md5 (received query querySize) ∨ maxResponseSize.toNat < 38 ∨
        (parsed maxResponseSize (received query querySize)).2 ≠ [])) ∨
    (WellFormed md5 (received query querySize) ∧ 38 ≤ maxResponseSize.toNat ∧
      (parsed maxResponseSize (received query querySize)).2 = [] ∧
      (createResponse md5 env query querySize responseBuffer maxResponseSize).1 =
        (38 + (responseBody env maxResponseSize (received query querySize)).length : ℕ) ∧
      (createResponse md5 env query querySize responseBuffer maxResponseSize).2.Holds
        (message md5 env.devID (flagsR (query 21))
          (responseBody env maxResponseSize (received query querySize)))) := by
  by_cases hf : Framed md5 (received query querySize)
  · rcases Nat.lt_or_ge maxResponseSize.toNat 38 with hmax | hmax
    · exact Or.inl ⟨createResponse_small _ _ _ _ _ _ hmax, Or.inr (Or.inl hmax)⟩
    · have heq := createResponse_framed md5 env query querySize responseBuffer maxResponseSize hf hmax
      split_ifs at heq with hnil
      · rw [List.append_eq_nil_iff, encode_eq_nil, rest_eq_nil_iff] at hnil
        have hresp := respond_eq md5 env query responseBuffer
          (accounted_parsed maxResponseSize (received query querySize) hmax)
          (Framed.type_byte md5 query querySize hf)
        rw [← heq] at hresp
        exact Or.inr ⟨⟨hf, hnil.2⟩, hmax, hnil.1, hresp⟩
      · refine Or.inl ⟨heq, ?_⟩
        rw [List.append_eq_nil_iff, encode_eq_nil, rest_eq_nil_iff, not_and_or] at hnil
        rcases hnil with hleft | hbody
        · exact Or.inr (Or.inr hleft)
        · exact Or.inl (fun hwf => hbody hwf.body)
  · exact Or.inl ⟨createResponse_not_framed _ _ _ _ _ _ hf, Or.inl (fun hwf => hf hwf.toFramed)⟩

/-- Whether there is an answer depends on the received bytes and the limit alone. -/
theorem createResponse_answers_iff :
    (createResponse md5 env query querySize responseBuffer maxResponseSize).1 ≠ -1 ↔
      WellFormed md5 (received query querySize) ∧ 38 ≤ maxResponseSize.toNat ∧
        (parsed maxResponseSize (received query querySize)).2 = [] := by
  rcases createResponse_cases md5 env query querySize responseBuffer maxResponseSize with
    ⟨heq, hwhy⟩ | ⟨hwf, hmax, hrest, hsize, -⟩
  · refine iff_of_false (by simp [heq]) ?_
    rintro ⟨hwf, hmax, hrest⟩
    rcases hwhy with hnot | hsmall | hleft
    · exact hnot hwf
    · omega
    · exact hleft hrest
  · exact iff_of_true (by rw [hsize]; omega) ⟨hwf, hmax, hrest⟩

/-- The bytes of a response. -/
def responseOf (r : ℤ × Buffer) : List UInt8 := slice r.2.bytes 0 r.1.toNat

/-- An answer is given to a well-formed query and is the message with the wanted body. -/
theorem responseOf_answered
    (hn : (createResponse md5 env query querySize responseBuffer maxResponseSize).1 ≠ -1) :
    WellFormed md5 (received query querySize) ∧ 38 ≤ maxResponseSize.toNat ∧
      responseOf (createResponse md5 env query querySize responseBuffer maxResponseSize) =
        message md5 env.devID (flagsR (query 21))
          (responseBody env maxResponseSize (received query querySize)) := by
  rcases createResponse_cases md5 env query querySize responseBuffer maxResponseSize with
    ⟨heq, -⟩ | ⟨hwf, hmax, -, hsize, hholds⟩
  · exact absurd (by rw [heq]) hn
  · refine ⟨hwf, hmax, ?_⟩
    have hbytes := hholds.bytes
    rw [length_message] at hbytes
    rw [responseOf, hsize, Int.toNat_natCast, hbytes]

/-! ### When the buffer is large enough for every answer -/

/-- The loop looks at every record exactly when no record before the last one offends. -/
theorem parsed_rest_iff (q : List UInt8) (hmax : 343 ≤ maxResponseSize.toNat) :
    (parsed maxResponseSize q).2 = [] ↔ ¬ Offending (records (body q)).dropLast := by
  have hinit : Accounted maxResponseSize.toNat Wants.init := accounted_init (by omega)
  rw [parsed]
  rcases loop_outcome (records (body q)) [] tracks_init hinit with
    ⟨ht, hrest⟩ | ⟨pre, r, hsplit, -, hclean, ho⟩
  · exact iff_of_true hrest (fun hoff => ht.clean hoff.of_dropLast)
  · have hle := answerLength_le (pre ++ [r])
    have ho' : Offends pre r := ho.resolve_right (by rw [List.nil_append]; omega)
    set left := (loopRecords maxResponseSize.toNat (records (body q)) Wants.init).2
    rw [hsplit]
    rcases List.eq_nil_or_concat left with hnil | ⟨init, last, hconc⟩
    · refine iff_of_true hnil ?_
      rw [hnil, List.dropLast_concat]
      exact hclean
    · rw [hconc, List.concat_eq_append]
      refine iff_of_false (by simp) (fun hoff => hoff ⟨pre, r, init, ?_, ho'⟩)
      rw [← List.cons_append, ← List.append_assoc, List.dropLast_concat]

theorem parsed_rest_of_clean (q : List UInt8) (hmax : 343 ≤ maxResponseSize.toNat)
    (h : ¬ Offending (records (body q))) : (parsed maxResponseSize q).2 = [] :=
  (parsed_rest_iff maxResponseSize q hmax).mpr (fun hoff => h hoff.of_dropLast)

/-- The response body is the answer to a query without offences, where the limit leaves room for it
    and the parse loop looked at all records, or nothing. -/
theorem responseBody_cases (q : List UInt8) (hmax : 38 ≤ maxResponseSize.toNat) :
    (¬ Offending (records (body q)) ∧
      38 + answerLength (records (body q)) ≤ maxResponseSize.toNat ∧
      (parsed maxResponseSize q).2 = [] ∧
      responseBody env maxResponseSize q = encode (answer env (records (body q)))) ∨
    (responseBody env maxResponseSize q = [] ∧
      (38 + answerLength (records (body q)) ≤ maxResponseSize.toNat →
        Offending (records (body q)))) := by
  rcases loop_outcome (records (body q)) [] tracks_init (accounted_init hmax) with
    ⟨ht, hrest⟩ | ⟨pre, r, hsplit, hstop, -, ho⟩
  · have hfits := accounted_parsed maxResponseSize q hmax
    rw [List.nil_append] at ht
    refine Or.inl ⟨ht.clean, ?_, hrest, ?_⟩
    · rw [← ht.bodySize_eq, ← parsed, ← hfits.size]
      exact hfits.fits
    · rw [responseBody, parsed, Wants.bodyBytes, if_neg (by simp [ht.running])]
      exact blocks_bytes_eq env ht
  · refine Or.inr ⟨by rw [responseBody, parsed, Wants.bodyBytes, if_pos hstop], fun hfits => ?_⟩
    refine ⟨pre, r, _, hsplit, ho.resolve_right ?_⟩
    have hle := answerLength_append_le (pre ++ [r]) (parsed maxResponseSize q).2
    rw [parsed, List.append_assoc, List.singleton_append, ← hsplit] at hle
    rw [List.nil_append]
    omega

/-- The body of an offending query is answered with nothing. -/
theorem responseBody_of_offending (q : List UInt8) (hmax : 38 ≤ maxResponseSize.toNat)
    (h : Offending (records (body q))) : responseBody env maxResponseSize q = [] := by
  rcases responseBody_cases env maxResponseSize q hmax with ⟨hclean, -⟩ | ⟨hnil, -⟩
  · exact absurd h hclean
  · exact hnil

/-- A response body that is not empty is the answer to a query without offences. -/
theorem responseBody_of_ne_nil (q : List UInt8) (hmax : 38 ≤ maxResponseSize.toNat)
    (h : responseBody env maxResponseSize q ≠ []) :
    ¬ Offending (records (body q)) ∧
      responseBody env maxResponseSize q = encode (answer env (records (body q))) := by
  rcases responseBody_cases env maxResponseSize q hmax with ⟨hclean, -, -, hanswer⟩ | ⟨hnil, -⟩
  · exact ⟨hclean, hanswer⟩
  · exact absurd hnil h

/-- A query without offences is answered in full where the limit leaves room for every answer. -/
theorem responseBody_of_clean (q : List UInt8) (hmax : 343 ≤ maxResponseSize.toNat)
    (h : ¬ Offending (records (body q))) :
    responseBody env maxResponseSize q = encode (answer env (records (body q))) := by
  have hle := answerLength_le (records (body q))
  rcases responseBody_cases env maxResponseSize q (by omega) with ⟨-, -, -, hanswer⟩ | ⟨-, hoff⟩
  · exact hanswer
  · exact absurd (hoff (by omega)) h

/-- Every record of a response body answers a record of the query. -/
theorem mem_responseBody {q : List UInt8} {r : Record} (hmax : 38 ≤ maxResponseSize.toNat)
    (h : r ∈ records (responseBody env maxResponseSize q)) : r ∈ answer env (records (body q)) := by
  rcases responseBody_cases env maxResponseSize q hmax with ⟨-, -, -, hanswer⟩ | ⟨hnil, -⟩
  · rwa [hanswer, records_encode] at h
  · rw [hnil] at h
    exact absurd h (List.not_mem_nil)

end NHA.MessageBuilder
