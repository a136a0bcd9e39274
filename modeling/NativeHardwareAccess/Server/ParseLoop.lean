import NativeHardwareAccess.Server.Protocol

/-! The parse loop of `createResponse` on an arbitrary body.

    The body is cut into its complete records and a stuck rest. On the records the loop is a fold
    that stops behind the record it gives up on (`loopRecords`, `tlvLoop_eq`). Two invariants are
    carried through it: the flags say which kinds were asked for so far (`Tracks`), and the announced
    size is the size of what the flags will make the emission pass write (`Accounted`). -/

namespace NHA.MessageBuilder
open Scheme Scheme.Tlv NHA.Protocol

theorem u32_natCast {n : ℕ} (h : n < 2 ^ 32) : u32 (n : ℤ) = n := by
  rw [u32, Int.emod_eq_of_lt (by omega) (by exact_mod_cast h), Int.toNat_natCast]

theorem i32_natCast {n : ℕ} (h : n < 2 ^ 31) : i32 (n : ℤ) = n := by
  rw [i32, Int.bmod_eq_of_le] <;> omega

/-! ### From bytes to records -/

/-- The loop on complete records: what it collected and the records it did not look at. -/
def loopRecords (maxResponseSize : ℕ) : List Record → Wants → Wants × List Record
  | [], w => (w, [])
  | r :: rs, w =>
    if w.createResponseWithoutBody = true then (w, r :: rs)
    else loopRecords maxResponseSize rs
      (handleRecord maxResponseSize r.tag (UInt8.ofNat r.value.length) r.value w)

/-- A slice that starts with a record: its tag, its length, its value, and what follows. -/
theorem slice_record {m : Memory} {off n : ℕ} {r : Record} {l : List UInt8}
    (h : slice m off n = r.bytes ++ l) :
    m off = r.tag ∧ m (off + 1) = UInt8.ofNat r.value.length ∧
      slice m (off + 2) r.value.length = r.value ∧
      slice m (off + (2 + r.value.length)) l.length = l ∧ n = 2 + r.value.length + l.length := by
  have hn : n = 2 + r.value.length + l.length := by
    rw [← length_slice m off n, h, List.length_append, r.length_bytes]
  rw [hn, slice_add] at h
  have hlen : (slice m off (2 + r.value.length)).length = r.bytes.length := by
    rw [length_slice, r.length_bytes]
  obtain ⟨hrec, htail⟩ := List.append_inj h hlen
  rw [Nat.add_comm 2, slice, slice, Record.bytes] at hrec
  simp only [List.cons.injEq] at hrec
  exact ⟨hrec.1, hrec.2.1, hrec.2.2, htail, hn⟩

/-- One turn of the loop on a complete record. -/
theorem tlvLoop_record {query : Memory} {max bodyQ n : ℕ} {w : Wants} {r : Record}
    {l : List UInt8} (fuel : ℕ) (h : slice query bodyQ n = r.bytes ++ l) (hn : n < 2 ^ 31)
    (hw : w.createResponseWithoutBody = false) :
    tlvLoop query max (fuel + 1) bodyQ n w =
      tlvLoop query max fuel (bodyQ + (2 + r.value.length)) l.length
        (handleRecord max r.tag (UInt8.ofNat r.value.length) r.value w) := by
  obtain ⟨htag, hlen, hval, -, hsum⟩ := slice_record h
  have hu : u32 (n : ℤ) = n := u32_natCast (by omega)
  have hsub : (n : ℤ) - ((2 + r.value.length : ℕ) : ℤ) = (l.length : ℤ) := by omega
  have hrem : i32 ((n : ℤ) - ((2 + r.value.length : ℕ) : ℤ)) = (l.length : ℤ) := by
    rw [hsub]
    exact i32_natCast (by omega)
  rw [tlvLoop, hu, if_pos ⟨by rw [minTlvSize]; omega, hw⟩]
  simp only [htag, hlen, r.toNat_length, minTlvSize]
  rw [if_neg (by omega), hval, hrem]

/-- The loop on a body that is cut into records and a stuck rest. -/
theorem tlvLoop_eq (query : Memory) (max : ℕ) {t : List UInt8} (ht : Stuck t) :
    ∀ (rs : List Record) (fuel bodyQ n : ℕ) (w : Wants), slice query bodyQ n = encode rs ++ t →
      n ≤ fuel → n < 2 ^ 31 →
      tlvLoop query max fuel bodyQ n w =
        (((encode (loopRecords max rs w).2 ++ t).length : ℤ), (loopRecords max rs w).1)
  | [], fuel, bodyQ, n, w, h, _, hn => by
    -- no complete record is left: too few bytes, or the `break`
    have hlen : n = t.length := by rw [← length_slice query bodyQ n, h, encode_nil, List.nil_append]
    have hu : u32 (n : ℤ) = n := u32_natCast (by omega)
    rw [loopRecords, encode_nil, List.nil_append, ← hlen]
    cases fuel with
    | zero => rfl
    | succ fuel =>
      rw [tlvLoop, hu]
      split
      · rename_i hc
        match n, t, hlen, ht with
        | n + 2, x :: y :: vs, hlen, ht =>
          rw [slice, slice, encode_nil, List.nil_append] at h
          simp only [List.cons.injEq, List.length_cons] at h hlen
          have hlt : vs.length < y.toNat := ht
          rw [if_pos (by rw [minTlvSize, h.2.1]; omega)]
        | 0, [], _, _ => simp [minTlvSize] at hc
        | 1, [_], _, _ => simp [minTlvSize] at hc
      · rfl
  | r :: rs, fuel, bodyQ, n, w, h, hf, hn => by
    rw [encode_cons, List.append_assoc] at h
    obtain ⟨-, -, -, htail, hsum⟩ := slice_record h
    rw [loopRecords]
    cases hw : w.createResponseWithoutBody with
    | true =>
      have hstop : tlvLoop query max fuel bodyQ n w = ((n : ℤ), w) := by
        cases fuel with
        | zero => rfl
        | succ fuel => rw [tlvLoop, if_neg (by simp [hw])]
      rw [hstop, if_pos rfl, encode_cons, List.append_assoc, ← h, length_slice]
    | false =>
      rw [if_neg (by decide)]
      obtain ⟨fuel, rfl⟩ : ∃ f, fuel = f + 1 := ⟨fuel - 1, by omega⟩
      rw [tlvLoop_record fuel h hn hw]
      exact tlvLoop_eq query max ht rs fuel _ _ _ htail (by omega) (by omega)

/-- `parseBody` on a query of acceptable size. -/
theorem parseBody_eq (query : Memory) (querySize : Int32) (max n : ℕ)
    (hsize : querySize.toInt = ((n + 38 : ℕ) : ℤ)) :
    parseBody query querySize max =
      (((encode (loopRecords max (records (slice query 22 n)) Wants.init).2 ++
          rest (slice query 22 n)).length : ℤ),
        (loopRecords max (records (slice query 22 n)) Wants.init).1) := by
  have hbound : querySize.toInt < 2 ^ 31 := querySize.toInt_lt
  have hu : u32 querySize.toInt = n + 38 := by rw [hsize]; exact u32_natCast (by omega)
  have hsub : ((n + 38 : ℕ) : ℤ) - (headerSize : ℕ) - (checksumSize : ℕ) = (n : ℤ) := by
    simp only [headerSize, checksumSize]
    omega
  have hrem : i32 (((n + 38 : ℕ) : ℤ) - (headerSize : ℕ) - (checksumSize : ℕ)) = (n : ℤ) := by
    rw [hsub]
    exact i32_natCast (by omega)
  rw [parseBody, hu]
  simp only [hrem, Int.toNat_natCast]
  exact tlvLoop_eq query max (stuck_rest _) _ n headerSize n Wants.init
    (encode_records_append_rest _).symm (le_refl n) (by omega)

/-! ### One record -/

/-- What is wanted of a kind, with the query value it came with. -/
def Wants.wanted (w : Wants) : Kind → Option (List UInt8)
  | .userData => if w.userData = [] then none else some w.userData
  | .deviceID => if w.wantDeviceID then some [] else none
  | .timerRx => if w.wantTimeRx then some [] else none
  | .timerTx => if w.wantTimeTx then some [] else none
  | .lastUpdated => if w.wantLastUpdated then some [] else none

/-- Mark a kind as wanted, with the size the response grows by. -/
def Wants.want (w : Wants) (value : List UInt8) : Kind → Wants
  | .userData => { w with sizeR := w.sizeR + (2 + value.length), userData := value }
  | .deviceID => { w with sizeR := w.sizeR + 18, wantDeviceID := true }
  | .timerRx => { w with sizeR := w.sizeR + 10, wantTimeRx := true }
  | .timerTx => { w with sizeR := w.sizeR + 10, wantTimeTx := true }
  | .lastUpdated => { w with sizeR := w.sizeR + 10, wantLastUpdated := true }

theorem account_eq (w : Wants) (addend max : ℕ) (want : Wants → Wants) :
    w.account addend max want =
      if max < w.sizeR + addend then w.withoutBody
      else want { w with sizeR := w.sizeR + addend } := by
  rw [Wants.account, tryAddUnsigned]
  by_cases h : max < w.sizeR + addend
  · rw [if_pos h]
    by_cases ha : addend > max
    · rw [if_pos ha]
    · rw [if_neg ha, if_pos (by omega)]
  · rw [if_neg h, if_neg (by omega), if_neg (by omega)]

/-- The branch of the four kinds that are asked for without a value. -/
theorem handleQuery_eq (max size : ℕ) (taken : Bool) (length : UInt8) (value : List UInt8)
    (w : Wants) {want : Wants → Wants} (hzero : length = 0 ↔ value = []) :
    (if taken = true ∨ length ≠ 0 then w.withoutBody else w.account size max want) =
      if (if taken = true then some [] else none : Option (List UInt8)) ≠ none ∨ ¬ value = [] ∨
          max < w.sizeR + size then w.withoutBody
      else want { w with sizeR := w.sizeR + size } := by
  rw [account_eq]
  cases taken <;> by_cases hv : value = [] <;> simp [hzero, hv]

/-- What the `switch` does with a supported record: it gives up on the body when the kind is already
    wanted, the value is inadmissible, or the response would become too large. -/
theorem handleRecord_kind (max : ℕ) (k : Kind) (r : Record) (hr : r.tag = k.queryTag) (w : Wants) :
    handleRecord max r.tag (UInt8.ofNat r.value.length) r.value w =
      if w.wanted k ≠ none ∨ ¬ k.Admits r.value ∨ max < w.sizeR + (2 + k.answerSize r.value) then
        w.withoutBody
      else w.want r.value k := by
  have hzero : UInt8.ofNat r.value.length = 0 ↔ r.value = [] := by
    rw [← UInt8.toNat_inj, r.toNat_length]
    simp
  have hone : UInt8.ofNat r.value.length < 1 ↔ r.value = [] := by
    rw [← hzero, UInt8.lt_iff_toNat_lt, ← UInt8.toNat_inj]
    simp
  rw [hr]
  cases k with
  | userData =>
    simp only [handleRecord, Kind.queryTag, userDataQTag, if_true, hone, account_eq,
      r.toNat_length, Wants.wanted, Kind.Admits, Kind.answerSize, minTlvSize, Wants.want]
    by_cases hu : w.userData = [] <;> by_cases hv : r.value = [] <;> simp [hu, hv]
  | deviceID => exact handleQuery_eq _ _ _ _ _ _ hzero
  | timerRx => exact handleQuery_eq _ _ _ _ _ _ hzero
  | timerTx => exact handleQuery_eq _ _ _ _ _ _ hzero
  | lastUpdated => exact handleQuery_eq _ _ _ _ _ _ hzero

theorem handleRecord_unsupported (max : ℕ) (tag length : UInt8) (value : List UInt8) (w : Wants)
    (h : ∀ k : Kind, tag ≠ k.queryTag) : handleRecord max tag length value w = w := by
  have hUserData : tag ≠ userDataQTag := h .userData
  have hDeviceID : tag ≠ deviceIDQTag := h .deviceID
  have hTimerRx : tag ≠ timerRxQTag := h .timerRx
  have hTimerTx : tag ≠ timerTxQTag := h .timerTx
  have hLastUpdated : tag ≠ deviceIDLastUpdatedQTag := h .lastUpdated
  rw [handleRecord, if_neg hUserData, if_neg hDeviceID, if_neg hTimerRx, if_neg hTimerTx,
    if_neg hLastUpdated]

/-- Everything one record can do to the collected state. -/
theorem handleRecord_cases (max : ℕ) (r : Record) (w : Wants) :
    ((∀ k : Kind, r.tag ≠ k.queryTag) ∧
      handleRecord max r.tag (UInt8.ofNat r.value.length) r.value w = w) ∨
    (∃ k : Kind, r.tag = k.queryTag ∧
      (w.wanted k ≠ none ∨ ¬ k.Admits r.value ∨ max < w.sizeR + (2 + k.answerSize r.value)) ∧
      handleRecord max r.tag (UInt8.ofNat r.value.length) r.value w = w.withoutBody) ∨
    (∃ k : Kind, r.tag = k.queryTag ∧ w.wanted k = none ∧ k.Admits r.value ∧
      w.sizeR + (2 + k.answerSize r.value) ≤ max ∧
      handleRecord max r.tag (UInt8.ofNat r.value.length) r.value w = w.want r.value k) := by
  by_cases hk : ∃ k : Kind, r.tag = k.queryTag
  · obtain ⟨k, hr⟩ := hk
    have heq := handleRecord_kind max k r hr w
    split at heq
    · rename_i hc
      exact Or.inr (Or.inl ⟨k, hr, hc, heq⟩)
    · rename_i hc
      push Not at hc
      exact Or.inr (Or.inr ⟨k, hr, hc.1, hc.2.1, hc.2.2, heq⟩)
  · push Not at hk
    exact Or.inl ⟨hk, handleRecord_unsupported _ _ _ _ _ hk⟩

/-- Wanting one kind leaves the others as they were. -/
theorem wanted_want {w : Wants} {k : Kind} {v : List UInt8} (hv : k.Admits v) (k' : Kind) :
    (w.want v k).wanted k' = if k = k' then some v else w.wanted k' := by
  rcases eq_or_ne k k' with rfl | hne
  · rw [if_pos rfl]
    cases k <;> simp_all [Wants.want, Wants.wanted, Kind.Admits]
  · rw [if_neg hne]
    cases k <;> cases k' <;> first | rfl | exact absurd rfl hne

/-! ### The size invariant -/

/-- The bytes the emission pass will write for the wanted records. -/
def Wants.bodySize (w : Wants) : ℕ :=
  (kinds.map (fun k => ((w.wanted k).map (fun v => 2 + k.answerSize v)).getD 0)).sum

/-- The response size is accounted for and within the limit. -/
structure Accounted (maxResponseSize : ℕ) (w : Wants) : Prop where
  size : w.sizeR = 38 + w.bodySize
  fits : w.sizeR ≤ maxResponseSize
  short : w.userData.length < 256

theorem accounted_init {max : ℕ} (h : 38 ≤ max) : Accounted max Wants.init :=
  ⟨rfl, h, by decide⟩

theorem bodySize_want {w : Wants} {k : Kind} {v : List UInt8} (hw : w.wanted k = none)
    (hv : k.Admits v) : (w.want v k).bodySize = w.bodySize + (2 + k.answerSize v) := by
  simp only [Wants.bodySize, wanted_want hv]
  cases k <;> simp [kinds, hw] <;> omega

theorem bodySize_le {w : Wants} (h : w.userData.length < 256) : w.bodySize ≤ 305 := by
  simp only [Wants.bodySize, kinds, Wants.wanted, Kind.answerSize, List.map_cons, List.map_nil,
    List.sum_cons, List.sum_nil]
  split_ifs <;> simp <;> omega

theorem sizeR_want (w : Wants) (k : Kind) (v : List UInt8) :
    (w.want v k).sizeR = w.sizeR + (2 + k.answerSize v) := by
  cases k <;> rfl

/-- No record breaks the size invariant, accepted or not. -/
theorem accounted_step {max : ℕ} {w : Wants} (r : Record) (h : Accounted max w) :
    Accounted max (handleRecord max r.tag (UInt8.ofNat r.value.length) r.value w) := by
  rcases handleRecord_cases max r w with ⟨-, heq⟩ | ⟨k, -, -, heq⟩ | ⟨k, -, hw, hv, hfit, heq⟩
  · rw [heq]; exact h
  · rw [heq]; exact ⟨h.size, h.fits, h.short⟩
  · rw [heq]
    refine ⟨?_, ?_, ?_⟩
    · rw [sizeR_want, bodySize_want hw hv, h.size, Nat.add_assoc]
    · rw [sizeR_want]; exact hfit
    · cases k with
      | userData => exact r.short
      | _ => exact h.short

theorem accounted_loop {max : ℕ} (rs : List Record) {w : Wants} (h : Accounted max w) :
    Accounted max (loopRecords max rs w).1 := by
  induction rs generalizing w with
  | nil => exact h
  | cons r rs ih =>
    rw [loopRecords]
    split
    · exact h
    · exact ih (accounted_step r h)

/-! ### What the flags mean -/

/-- After the records `rs` the loop still runs, none of them offended, and the flags say which
    kinds they asked for. -/
structure Tracks (rs : List Record) (w : Wants) : Prop where
  running : w.createResponseWithoutBody = false
  clean : ¬ Offending rs
  wanted : ∀ k, w.wanted k = (lookup rs k).map Record.value

/-- The size accounted for the body is the size of the answer to the records so far. -/
theorem Tracks.bodySize_eq {rs : List Record} {w : Wants} (h : Tracks rs w) :
    w.bodySize = answerLength rs := by
  simp only [Wants.bodySize, answerLength, h.wanted, Option.map_map]
  rfl

theorem tracks_init : Tracks [] Wants.init :=
  ⟨rfl, not_offending_nil, fun k => by cases k <;> rfl⟩

theorem lookup_concat (rs : List Record) (r : Record) (k : Kind) :
    lookup (rs ++ [r]) k = (lookup rs k).or (if r.tag = k.queryTag then some r else none) := by
  rw [lookup, List.find?_append, List.find?_singleton]
  simp [lookup]

theorem lookup_eq_none {rs : List Record} {k : Kind} :
    lookup rs k = none ↔ ∀ e ∈ rs, e.tag ≠ k.queryTag := by
  simp [lookup]

/-- A record the loop gives up on offends, unless the response would become too large. -/
theorem offends_of_refused {rs : List Record} {w : Wants} {r : Record} {k : Kind}
    (h : Tracks rs w) (hr : r.tag = k.queryTag)
    (hc : w.wanted k ≠ none ∨ ¬ k.Admits r.value) : Offends rs r := by
  refine ⟨k, hr, hc.imp_left ?_⟩
  intro hw
  rw [h.wanted, Ne, Option.map_eq_none_iff, lookup_eq_none] at hw
  push Not at hw
  rw [hr]
  exact hw

theorem not_offends_of_accepted {rs : List Record} {w : Wants} {r : Record} {k : Kind}
    (h : Tracks rs w) (hr : r.tag = k.queryTag) (hw : w.wanted k = none)
    (hv : k.Admits r.value) : ¬ Offends rs r := by
  rintro ⟨k', hk', hc⟩
  obtain rfl : k = k' := Kind.queryTag_injective (hr.symm.trans hk')
  rcases hc with ⟨e, he, htag⟩ | hc
  · rw [h.wanted, Option.map_eq_none_iff, lookup_eq_none] at hw
    exact hw e he (htag.trans hr)
  · exact hc hv

/-- A record that is not refused keeps the flags right. -/
theorem tracks_step {rs : List Record} {w : Wants} {r : Record} {k : Kind} (h : Tracks rs w)
    (hr : r.tag = k.queryTag) (hw : w.wanted k = none) (hv : k.Admits r.value) :
    Tracks (rs ++ [r]) (w.want r.value k) := by
  refine ⟨?_, ?_, ?_⟩
  · have hrun := h.running
    cases k <;> exact hrun
  · rw [offending_concat]
    rintro (ho | ho)
    · exact h.clean ho
    · exact not_offends_of_accepted h hr hw hv ho
  · intro k'
    rw [wanted_want hv, lookup_concat, hr]
    split
    · rename_i hk
      subst hk
      rw [h.wanted, Option.map_eq_none_iff] at hw
      simp [hw]
    · rename_i hk
      rw [if_neg (fun htag => hk (Kind.queryTag_injective htag)), Option.or_none, h.wanted]

theorem tracks_step_unsupported {rs : List Record} {w : Wants} {r : Record} (h : Tracks rs w)
    (hr : ∀ k : Kind, r.tag ≠ k.queryTag) : Tracks (rs ++ [r]) w := by
  refine ⟨h.running, ?_, ?_⟩
  · rw [offending_concat]
    rintro (ho | ⟨k, hk, -⟩)
    · exact h.clean ho
    · exact hr k hk
  · intro k
    rw [lookup_concat, if_neg (hr k), Option.or_none, h.wanted]

/-- The whole loop on complete records. Either it runs through all of them and none offended, or it
    gives up on a record, which offends unless the limit is too small for the answer up to it. -/
theorem loop_outcome {max : ℕ} (rs seen : List Record) {w : Wants} (h : Tracks seen w)
    (ha : Accounted max w) :
    (Tracks (seen ++ rs) (loopRecords max rs w).1 ∧ (loopRecords max rs w).2 = []) ∨
    (∃ pre r, rs = pre ++ r :: (loopRecords max rs w).2 ∧
      (loopRecords max rs w).1.createResponseWithoutBody = true ∧ ¬ Offending (seen ++ pre) ∧
      (Offends (seen ++ pre) r ∨ max < 38 + answerLength (seen ++ pre ++ [r]))) := by
  induction rs generalizing seen w with
  | nil => exact Or.inl ⟨by simpa [loopRecords] using h, rfl⟩
  | cons r rs ih =>
    have hstep := accounted_step r ha
    -- behind a record that does not stop it, the loop goes on with one more record seen
    have hmore : ∀ {w' : Wants}, Tracks (seen ++ [r]) w' → Accounted max w' →
        (Tracks (seen ++ r :: rs) (loopRecords max rs w').1 ∧ (loopRecords max rs w').2 = []) ∨
        (∃ pre e, r :: rs = pre ++ e :: (loopRecords max rs w').2 ∧
          (loopRecords max rs w').1.createResponseWithoutBody = true ∧
          ¬ Offending (seen ++ pre) ∧
          (Offends (seen ++ pre) e ∨ max < 38 + answerLength (seen ++ pre ++ [e]))) := by
      intro w' htracks haccounted
      rcases ih (seen ++ [r]) htracks haccounted with
        ⟨ht, hrest⟩ | ⟨pre, e, hsplit, hstop, hclean, ho⟩
      · exact Or.inl ⟨by simpa using ht, hrest⟩
      · exact Or.inr ⟨r :: pre, e, by rw [List.cons_append, ← hsplit], hstop,
          by simpa using hclean, by simpa using ho⟩
    rw [loopRecords, if_neg (by simp [h.running])]
    rcases handleRecord_cases max r w with ⟨hr, heq⟩ | ⟨k, hr, hc, heq⟩ | ⟨k, hr, hw, hv, -, heq⟩
    · rw [heq] at hstep ⊢
      exact hmore (tracks_step_unsupported h hr) hstep
    · -- the loop sees the flag at its next test, whatever follows
      have hstop : loopRecords max rs w.withoutBody = (w.withoutBody, rs) := by
        cases rs <;> simp [loopRecords, Wants.withoutBody]
      rw [heq, hstop]
      refine Or.inr ⟨[], r, rfl, rfl, ?_, ?_⟩ <;> rw [List.append_nil]
      · exact h.clean
      rcases hc with hc | hc | hc
      · exact Or.inl (offends_of_refused h hr (Or.inl hc))
      · exact Or.inl (offends_of_refused h hr (Or.inr hc))
      · by_cases hbad : w.wanted k ≠ none ∨ ¬ k.Admits r.value
        · exact Or.inl (offends_of_refused h hr hbad)
        · push Not at hbad
          have hanswer := (tracks_step h hr hbad.1 hbad.2).bodySize_eq
          rw [bodySize_want hbad.1 hbad.2] at hanswer
          have hsize := ha.size
          exact Or.inr (by omega)
    · rw [heq] at hstep ⊢
      exact hmore (tracks_step h hr hw hv) hstep

end NHA.MessageBuilder
