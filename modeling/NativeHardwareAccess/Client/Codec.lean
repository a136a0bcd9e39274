import NativeHardwareAccess.Client.Nhac
import NativeHardwareAccess.Server.CreateResponse

/-! The client's codec on the records of the format.

    A list of records with values of at most 255 bytes is serialized to its size, its encoding and the
    MD5 of both, and such bytes are deserialized to the same list again. -/

namespace NHA.Nhac
open Scheme Scheme.MD5 Scheme.Tlv NHA.MessageBuilder NHA.Protocol

/-- A record of the format as the client holds it. -/
def TLV.ofRecord (r : Record) : TLV := ⟨r.tag, r.value⟩

theorem length_encode_cons (r : Record) (rs : List Record) :
    (encode (r :: rs)).length = 2 + r.value.length + (encode rs).length := by
  rw [encode_cons, List.length_append, r.length_bytes]

theorem toLE32_eq (x : UInt32) : toLE32 x = toLE 4 x.toNat := by
  have hbyte : ∀ k : UInt32, k.toNat < 32 →
      ((x >>> k) &&& 0xFF).toUInt8 = UInt8.ofNat ((x.toNat >>> k.toNat) &&& 0xff) := by
    intro k hk
    rw [← UInt8.toNat_inj, UInt32.toNat_toUInt8, UInt32.toNat_and, UInt32.toNat_shiftRight,
      Nat.mod_eq_of_lt hk, UInt8.toNat_ofNat']
    rfl
  rw [toLE_eq_map_shift]
  have h0 : (x &&& 0xFF).toUInt8 = UInt8.ofNat ((x.toNat >>> 0) &&& 0xff) := by
    simp
  rw [toLE32, h0, hbyte 8 (by decide), hbyte 16 (by decide), hbyte 24 (by decide)]
  rfl

theorem sizeSub_eq {a b : ℕ} (h : b ≤ a) (ha : a < 2 ^ 64) : sizeSub a b = a - b := by
  rw [sizeSub]
  omega

/-! ### Serializing -/

/-- A record on the wire, whatever the length of its value. -/
def TLV.bytes (tlv : TLV) : List UInt8 := tlv.tag :: tlv.getLength :: tlv.value

/-- The records of a message take so many bytes. -/
def tlvsSize (tlvs : List TLV) : ℕ := (tlvs.map (fun tlv => 2 + tlv.value.length)).sum

/-- The size of a message with these records: size field, records and checksum. -/
def messageSize (tlvs : List TLV) : ℕ := 20 + tlvsSize tlvs

theorem tlvsSize_cons (tlv : TLV) (tlvs : List TLV) :
    tlvsSize (tlv :: tlvs) = 2 + tlv.value.length + tlvsSize tlvs := by
  rw [tlvsSize, List.map_cons, List.sum_cons, tlvsSize]

theorem length_flatMap_bytes (tlvs : List TLV) :
    (tlvs.flatMap TLV.bytes).length = tlvsSize tlvs := by
  induction tlvs with
  | nil => rfl
  | cons tlv tlvs ih =>
    rw [List.flatMap_cons, List.length_append, ih, tlvsSize_cons, TLV.bytes, List.length_cons,
      List.length_cons]
    omega

theorem flatMap_bytes_records (rs : List Record) :
    (rs.map TLV.ofRecord).flatMap TLV.bytes = encode rs := by
  rw [encode, List.flatMap_map]
  rfl

theorem messageSize_records (rs : List Record) :
    messageSize (rs.map TLV.ofRecord) = 20 + (encode rs).length := by
  rw [messageSize, ← length_flatMap_bytes, flatMap_bytes_records]

/-- The sum over the length bytes, in 32 bits. -/
theorem toNat_foldl_length (tlvs : List TLV) (size : UInt32) :
    (tlvs.foldl (fun size tlv => size + (2 + tlv.getLength.toUInt32)) size).toNat =
      (size.toNat + (tlvs.map (fun tlv => 2 + tlv.value.length % 256)).sum) % 2 ^ 32 := by
  induction tlvs generalizing size with
  | nil =>
    have hlt : size.toNat < 2 ^ 32 := size.toNat_lt
    rw [List.foldl_nil, List.map_nil, List.sum_nil, Nat.add_zero, Nat.mod_eq_of_lt hlt]
  | cons tlv tlvs ih =>
    have hsum : (size + (2 + tlv.getLength.toUInt32)).toNat =
        (size.toNat + (2 + tlv.value.length % 256)) % 2 ^ 32 := by
      rw [UInt32.toNat_add, UInt32.toNat_add, UInt8.toNat_toUInt32, TLV.getLength,
        UInt8.toNat_ofNat']
      change (size.toNat + (2 + tlv.value.length % 256) % 2 ^ 32) % 2 ^ 32 = _
      omega
    rw [List.foldl_cons, ih, hsum, List.map_cons, List.sum_cons]
    omega

/-- The announced size: the sum over the length bytes, modulo 2^32. -/
theorem toNat_announced (m : Message) : m.getCompleteSizeOfMsgInBytes.toNat =
    (20 + (m.tlvs.map (fun tlv => 2 + tlv.value.length % 256)).sum) % 2 ^ 32 := by
  rw [Message.getCompleteSizeOfMsgInBytes, UInt32.toNat_add, toNat_foldl_length]
  change ((4 + _) % 2 ^ 32 + 16) % 2 ^ 32 = _
  omega

/-- It is the size of the message as long as neither a length byte nor the sum wraps. -/
theorem toNat_completeSize {m : Message} {rs : List Record} (htlvs : m.tlvs = rs.map TLV.ofRecord)
    (h : 20 + (encode rs).length < 2 ^ 32) :
    m.getCompleteSizeOfMsgInBytes.toNat = 20 + (encode rs).length := by
  have hmap : (m.tlvs.map (fun tlv => 2 + tlv.value.length % 256)).sum = (encode rs).length := by
    rw [htlvs, ← flatMap_bytes_records, length_flatMap_bytes, tlvsSize, List.map_map, List.map_map]
    congr 1
    apply List.map_congr_left
    intro r _
    exact congrArg (2 + ·) (Nat.mod_eq_of_lt r.short)
  rw [toNat_announced, hmap, Nat.mod_eq_of_lt h]

/-- The space the position counts against: `n`, or what `n - 4` wraps to when `n` is below 4. -/
def room (n : ℕ) : ℕ := if n < 4 then 2 ^ 64 + n else n

theorem sizeSub_room {n pos : ℕ} (hn : n < 2 ^ 64) (hpos : 4 ≤ pos) (hroom : pos ≤ room n) :
    sizeSub n pos = room n - pos := by
  rw [room] at hroom ⊢
  rw [sizeSub]
  split_ifs at hroom ⊢ <;> omega

/-- One record is appended to what was written before, if it fits. -/
theorem TLV.serialize_cases (tlv : TLV) {t : Buffer} {l : List UInt8} {pos n : ℕ} (h : t.Holds l)
    (hpos : l.length = pos) :
    (2 + tlv.value.length ≤ n ∧ ∃ t', tlv.serialize t pos n = (.ok (2 + tlv.value.length), t') ∧
      t'.Holds (l ++ tlv.bytes)) ∨
    (n < 2 + tlv.value.length ∧ ∃ e, tlv.serialize t pos n = (.error e, t)) := by
  rw [TLV.serialize]
  split_ifs with hn
  · exact Or.inr ⟨hn, _, rfl⟩
  · refine Or.inl ⟨by omega, _, rfl, ?_⟩
    have htag := h.store hpos tlv.tag
    have hlen := htag.store (n := pos + 1) (by simp [hpos]) tlv.getLength
    have hval := hlen.stores (n := pos + 2) (by simp [hpos]) tlv.value
    rw [List.append_assoc, List.append_assoc] at hval
    exact hval

/-- The records are appended one after the other, if they fit. -/
theorem serializeTlvs_cases (completeSize : UInt32) {n : ℕ} (hn : n < 2 ^ 64) (tlvs : List TLV)
    {pos : ℕ} {l : List UInt8} {t : Buffer} (h : t.Holds l) (hpos : l.length = pos)
    (hlow : 4 ≤ pos) (hroom : pos ≤ room n) :
    (pos + tlvsSize tlvs ≤ room n ∧ ∃ t',
      serializeTlvs completeSize n tlvs pos t = (.ok (pos + tlvsSize tlvs), t') ∧
      t'.Holds (l ++ tlvs.flatMap TLV.bytes)) ∨
    (room n < pos + tlvsSize tlvs ∧
      ∃ e t', serializeTlvs completeSize n tlvs pos t = (.error e, t')) := by
  induction tlvs generalizing pos l t with
  | nil => exact Or.inl ⟨hroom, t, rfl, by simpa using h⟩
  | cons tlv tlvs ih =>
    rw [tlvsSize_cons, serializeTlvs]
    rcases tlv.serialize_cases (n := sizeSub n pos) h hpos with ⟨hfit, t', hser, hholds⟩ |
      ⟨hfull, e, hser⟩
    · rw [sizeSub_room hn hlow hroom] at hfit
      rw [hser]
      dsimp only
      have hend : (l ++ tlv.bytes).length = pos + (2 + tlv.value.length) := by
        rw [List.length_append, hpos, TLV.bytes, List.length_cons, List.length_cons]
        omega
      have hrest := ih hholds hend (by omega) (by omega)
      rw [Nat.add_assoc] at hrest
      rw [List.flatMap_cons, ← List.append_assoc]
      exact hrest
    · rw [sizeSub_room hn hlow hroom] at hfull
      rw [hser]
      exact Or.inr ⟨by omega, _, _, rfl⟩

/-- Everything `serialize` can do: throw because the announced size or a record does not fit, or write
    the announced size, the records and the checksum, and return the size of the message. -/
theorem serialize_cases (md5 : List UInt8 → Digest) (m : Message) (memory : Memory) {n : ℕ}
    (hn : n < 2 ^ 64) :
    ((n < m.getCompleteSizeOfMsgInBytes.toNat ∨ room n < messageSize m.tlvs - 16) ∧
      ∃ e t, m.serialize md5 (Buffer.fresh memory) n = (.error e, m, t)) ∨
    (m.getCompleteSizeOfMsgInBytes.toNat ≤ n ∧ messageSize m.tlvs - 16 ≤ room n ∧ ∃ t,
      m.serialize md5 (Buffer.fresh memory) n = (.ok (messageSize m.tlvs), { m with
        calculatedMd5 := some (md5 (toLE 4 m.getCompleteSizeOfMsgInBytes.toNat ++
          m.tlvs.flatMap TLV.bytes))
        receivedMd5 := none
        xoredMd5 := none }, t) ∧
      t.Holds (toLE 4 m.getCompleteSizeOfMsgInBytes.toNat ++ m.tlvs.flatMap TLV.bytes ++
        (md5 (toLE 4 m.getCompleteSizeOfMsgInBytes.toNat ++ m.tlvs.flatMap TLV.bytes)).toList)) := by
  have hhead := (Buffer.holds_fresh memory).stores rfl (toLE32 m.getCompleteSizeOfMsgInBytes)
  rw [toLE32_eq, List.nil_append] at hhead
  have hpos : 4 + tlvsSize m.tlvs = messageSize m.tlvs - 16 := by rw [messageSize]; omega
  have hroom : 4 ≤ room n := by
    rw [room]
    split_ifs <;> omega
  rw [Message.serialize]
  dsimp only
  split_ifs with hbig
  · exact Or.inl ⟨Or.inl hbig, _, _, rfl⟩
  · rw [toLE32_eq]
    rcases serializeTlvs_cases m.getCompleteSizeOfMsgInBytes hn m.tlvs hhead (length_toLE _ _)
      (le_refl 4) hroom with ⟨hfit, t, hser, hholds⟩ | ⟨hfull, e, t, hser⟩
    · rw [List.length_nil] at hser
      rw [hser]
      have hbytes : slice t.bytes 0 (4 + tlvsSize m.tlvs) =
          toLE 4 m.getCompleteSizeOfMsgInBytes.toNat ++ m.tlvs.flatMap TLV.bytes := by
        have hall := hholds.bytes
        rwa [List.length_append, length_toLE, length_flatMap_bytes] at hall
      have hend := hholds.stores (n := 4 + tlvsSize m.tlvs)
        (by rw [List.length_append, length_toLE, length_flatMap_bytes])
        (md5 (toLE 4 m.getCompleteSizeOfMsgInBytes.toNat ++ m.tlvs.flatMap TLV.bytes)).toList
      refine Or.inr ⟨by omega, by omega, _, ?_, hend⟩
      dsimp only
      rw [hbytes]
      congr 2
      rw [messageSize]
      omega
    · rw [List.length_nil] at hser
      rw [hser]
      exact Or.inl ⟨Or.inr (by omega), _, _, rfl⟩

/-- A message of records is written as its size, its encoding and their MD5. -/
theorem serialize_records (md5 : List UInt8 → Digest) {m : Message} {rs : List Record} {n : ℕ}
    (memory : Memory) (htlvs : m.tlvs = rs.map TLV.ofRecord)
    (hsize : 20 + (encode rs).length < 2 ^ 32) (hfit : 20 + (encode rs).length ≤ n)
    (hn : n < 2 ^ 64) : ∃ t', m.serialize md5 (Buffer.fresh memory) n =
      (.ok (20 + (encode rs).length),
        { m with
          calculatedMd5 := some (md5 (toLE 4 (20 + (encode rs).length) ++ encode rs))
          receivedMd5 := none
          xoredMd5 := none }, t') ∧
      t'.Holds (toLE 4 (20 + (encode rs).length) ++ encode rs ++
        (md5 (toLE 4 (20 + (encode rs).length) ++ encode rs)).toList) := by
  have hcases := serialize_cases md5 m memory hn
  rw [toNat_completeSize htlvs hsize, htlvs, messageSize_records, flatMap_bytes_records,
    room, if_neg (by omega)] at hcases
  rcases hcases with ⟨hbad, -⟩ | ⟨-, -, t, hser, hholds⟩
  · omega
  · rw [← htlvs] at hser
    exact ⟨t, hser, hholds⟩

/-! ### Deserializing -/

/-- The loop reads an encoding back. -/
theorem deserializeTlvs_records (completeSize : UInt32) (t : Memory) {endPos : ℕ}
    (rs : List Record) (fuel pos : ℕ) (newTlvs : List TLV)
    (h : slice t pos (encode rs).length = encode rs) (hend : pos + (encode rs).length = endPos)
    (hfuel : (encode rs).length ≤ fuel) :
    deserializeTlvs completeSize t endPos fuel pos newTlvs =
      .ok (endPos, newTlvs ++ rs.map TLV.ofRecord) := by
  induction rs generalizing fuel pos newTlvs with
  | nil =>
    have hpos : pos = endPos := by simpa using hend
    cases fuel with
    | zero => simp [deserializeTlvs, hpos]
    | succ fuel => simp [deserializeTlvs, hpos]
  | cons r rs ih =>
    have hlen := length_encode_cons r rs
    obtain ⟨fuel, rfl⟩ : ∃ f, fuel = f + 1 := ⟨fuel - 1, by omega⟩
    have hrecord : slice t pos (encode (r :: rs)).length = r.bytes ++ encode rs := by
      rw [h, encode_cons]
    obtain ⟨htag, hlength, hvalue, htail, -⟩ := slice_record hrecord
    have hread : TLV.deserialize t pos (endPos - pos) =
        .ok (2 + r.value.length, TLV.ofRecord r) := by
      rw [TLV.deserialize, if_neg (by omega), hlength, r.toNat_length, if_neg (by omega), htag,
        hvalue]
      rfl
    rw [deserializeTlvs, if_pos (by omega), hread]
    dsimp only
    rw [ih fuel (pos + (2 + r.value.length)) _ htail (by omega) (by omega), List.append_assoc,
      List.map_cons, List.singleton_append]

/-- The `n` bytes start with a message of these records. -/
structure Wire (t : Memory) (n : ℕ) (rs : List Record) : Prop where
  fits : 20 + (encode rs).length ≤ n
  sizeField : ofLE (slice t 0 4) = 20 + (encode rs).length
  body : slice t 4 (encode rs).length = encode rs

/-- Such a message is read as its records, and the sixteen bytes behind them. -/
theorem deserialize_wire (md5 : List UInt8 → Digest) (m : Message) {t : Memory} {n : ℕ}
    {rs : List Record} (h : Wire t n rs) :
    m.deserialize md5 t n = (.ok (20 + (encode rs).length), ⟨rs.map TLV.ofRecord,
      some (digestAt t (4 + (encode rs).length)), some (md5 (slice t 0 (4 + (encode rs).length))),
      some (xorDigest (digestAt t (4 + (encode rs).length))
        (md5 (slice t 0 (4 + (encode rs).length))))⟩) := by
  have hfits := h.fits
  have hfield : (fromLE32 t).toNat = 20 + (encode rs).length := by
    rw [fromLE32, toNat_fromLE32, h.sizeField]
  have hend : 20 + (encode rs).length - 16 = 4 + (encode rs).length := by omega
  have htotal : 4 + (encode rs).length + 16 = 20 + (encode rs).length := by omega
  rw [Message.deserialize, if_neg (by omega)]
  dsimp only
  rw [hfield, if_neg (by omega), if_neg (by omega), hend,
    deserializeTlvs_records (fromLE32 t) t rs _ 4 [] h.body rfl (by omega)]
  dsimp only
  rw [List.nil_append, htotal]

/-- A size, an encoding and sixteen more bytes are read as the message of the encoded records. -/
theorem deserialize_records (md5 : List UInt8 → Digest) (m : Message) {t : Memory} {n : ℕ}
    {rs : List Record} {sum : Digest} (hsize : 20 + (encode rs).length < 2 ^ 32)
    (hn : 20 + (encode rs).length ≤ n)
    (h : slice t 0 (20 + (encode rs).length) =
      toLE 4 (20 + (encode rs).length) ++ encode rs ++ sum.toList) :
    m.deserialize md5 t n = (.ok (20 + (encode rs).length), ⟨rs.map TLV.ofRecord, some sum,
      some (md5 (toLE 4 (20 + (encode rs).length) ++ encode rs)),
      some (xorDigest sum (md5 (toLE 4 (20 + (encode rs).length) ++ encode rs)))⟩) := by
  have htotal : 4 + (encode rs).length + 16 = 20 + (encode rs).length := by omega
  -- the three parts of the message: size, records, checksum
  rw [← htotal, slice_add, Nat.zero_add] at h
  obtain ⟨hfront, hsum⟩ := List.append_inj h (by simp)
  have hparts := hfront
  rw [slice_add, Nat.zero_add] at hparts
  obtain ⟨hfour, hbody⟩ := List.append_inj hparts (by simp)
  rw [htotal] at hfront hfour
  have hdigest : digestAt t (4 + (encode rs).length) = sum := List.Vector.toList_injective hsum
  have hwire : Wire t n rs := ⟨hn, by rw [hfour]; exact ofLE_toLE_of_lt (by omega), hbody⟩
  rw [deserialize_wire md5 m hwire, hdigest, hfront]

/-! ### Refusing -/

/-- A record that is read is there. -/
theorem TLV.deserialize_ok {t : Memory} {offset n k : ℕ} {tlv : TLV}
    (h : TLV.deserialize t offset n = .ok (k, tlv)) :
    ∃ r : Record, k = r.bytes.length ∧ k ≤ n ∧ slice t offset k = r.bytes := by
  rw [TLV.deserialize] at h
  split_ifs at h with htwo hvalue
  obtain ⟨rfl, -⟩ := Prod.mk.inj (Except.ok.inj h)
  have hlen := length_slice t (offset + 2) (t (offset + 1)).toNat
  refine ⟨⟨t offset, slice t (offset + 2) (t (offset + 1)).toNat, ?_⟩, ?_, by omega, ?_⟩
  · rw [hlen]
    exact (t (offset + 1)).toNat_lt
  · rw [Record.length_bytes, hlen]
  · simp only [Record.bytes, hlen, UInt8.ofNat_toNat, Nat.add_comm 2]
    rfl

/-- When the loop comes to its end, it has read a concatenation of records. -/
theorem deserializeTlvs_ok (completeSize : UInt32) (t : Memory) {endPos : ℕ} (fuel : ℕ) {pos : ℕ}
    {newTlvs : List TLV} {result : ℕ × List TLV} (hpos : pos ≤ endPos) (hfuel : endPos - pos ≤ fuel)
    (h : deserializeTlvs completeSize t endPos fuel pos newTlvs = .ok result) :
    result.1 = endPos ∧ ∃ rs, slice t pos (endPos - pos) = encode rs := by
  induction fuel generalizing pos newTlvs with
  | zero =>
    obtain rfl := Except.ok.inj h
    rw [Nat.le_zero.mp hfuel]
    exact ⟨by dsimp only; omega, [], rfl⟩
  | succ fuel ih =>
    rw [deserializeTlvs] at h
    split_ifs at h with hlt
    · split at h
      · rename_i k tlv hread
        obtain ⟨r, hk, hle, hslice⟩ := TLV.deserialize_ok hread
        have hpos' : 0 < k := by rw [hk, r.length_bytes]; omega
        obtain ⟨hend, rs, hrs⟩ := ih (by omega) (by omega) h
        refine ⟨hend, r :: rs, ?_⟩
        rw [encode_cons, ← hslice, ← hrs, ← slice_add]
        congr 1
        omega
      · exact absurd h (by simp)
    · obtain rfl := Except.ok.inj h
      rw [Nat.sub_eq_zero_of_le (by omega)]
      exact ⟨by dsimp only; omega, [], rfl⟩

/-- What is not a message is refused, and the message object is left as it was. -/
theorem deserialize_error (md5 : List UInt8 → Digest) (m : Message) {t : Memory} {n : ℕ}
    (h : ∀ rs, ¬ Wire t n rs) : ∃ e, m.deserialize md5 t n = (.error e, m) := by
  have hfield : (fromLE32 t).toNat = ofLE (slice t 0 4) := by rw [fromLE32, toNat_fromLE32]
  rw [Message.deserialize]
  dsimp only
  split_ifs with hn hbig hsmall
  · exact ⟨_, rfl⟩
  · exact ⟨_, rfl⟩
  · exact ⟨_, rfl⟩
  · split
    · exact ⟨_, rfl⟩
    · rename_i pos newTlvs hok
      obtain ⟨-, rs, hrs⟩ := deserializeTlvs_ok (fromLE32 t) t _ (by omega) (by omega) hok
      have hlen := congrArg List.length hrs
      rw [length_slice] at hlen
      refine absurd ⟨by omega, by omega, ?_⟩ (h rs)
      rw [← hlen, hrs]

/-! ### What is read -/

/-- Reading one record looks at its area only. -/
theorem TLV.deserialize_congr {t t' : Memory} {offset n : ℕ}
    (h : ∀ i, offset ≤ i → i < offset + n → t' i = t i) :
    TLV.deserialize t' offset n = TLV.deserialize t offset n := by
  rw [TLV.deserialize, TLV.deserialize]
  split_ifs with htwo hvalue hvalue' hvalue'
  · rfl
  · rw [h offset (le_refl _) (by omega), h (offset + 1) (by omega) (by omega)]
  · rw [h (offset + 1) (by omega) (by omega)] at hvalue
    exact absurd hvalue hvalue'
  · rw [h (offset + 1) (by omega) (by omega)] at hvalue
    exact absurd hvalue' hvalue
  · rw [h (offset + 1) (by omega) (by omega)] at hvalue ⊢
    rw [h offset (le_refl _) (by omega),
      slice_congr (fun i hi hlt => h i (by omega) (by omega))]

/-- The loop looks at nothing behind its end. -/
theorem deserializeTlvs_congr (completeSize : UInt32) {t t' : Memory} {endPos : ℕ} (fuel : ℕ)
    {pos : ℕ} {newTlvs : List TLV} (h : ∀ i < endPos, t' i = t i) :
    deserializeTlvs completeSize t' endPos fuel pos newTlvs =
      deserializeTlvs completeSize t endPos fuel pos newTlvs := by
  induction fuel generalizing pos newTlvs with
  | zero => rfl
  | succ fuel ih =>
    rw [deserializeTlvs, deserializeTlvs,
      TLV.deserialize_congr (fun i _ hi => h i (by omega : i < endPos))]
    split_ifs with hlt
    · split
      · exact ih
      · rfl
    · rfl

/-- Of `n` bytes, only the size field and as many bytes as it says are looked at. -/
theorem deserialize_congr (md5 : List UInt8 → Digest) (m : Message) {t t' : Memory} {n : ℕ}
    (h : ∀ i < n, i < 4 ∨ i < ofLE (slice t 0 4) → t' i = t i) :
    m.deserialize md5 t' n = m.deserialize md5 t n := by
  rw [Message.deserialize, Message.deserialize]
  rcases Nat.lt_or_ge n (4 + 16) with hn | hn
  · rw [if_pos hn, if_pos hn]
  rw [if_neg (Nat.not_lt.mpr hn), if_neg (Nat.not_lt.mpr hn)]
  have hfour : slice t' 0 4 = slice t 0 4 :=
    slice_congr (fun i _ hi => h i (by omega) (Or.inl (by omega)))
  have hsize : fromLE32 t' = fromLE32 t := by
    rw [← UInt32.toNat_inj, fromLE32, fromLE32, toNat_fromLE32, toNat_fromLE32, hfour]
  have hfield : (fromLE32 t).toNat = ofLE (slice t 0 4) := by rw [fromLE32, toNat_fromLE32]
  dsimp only
  rw [hsize]
  split_ifs with hbig hsmall
  · rfl
  · rfl
  · have hbytes : ∀ i < ofLE (slice t 0 4), t' i = t i := fun i hi => h i (by omega) (Or.inr hi)
    rw [deserializeTlvs_congr (fromLE32 t) _ (fun i hi => hbytes i (by omega))]
    split
    · rfl
    · rename_i pos newTlvs hok
      have hpos := (deserializeTlvs_ok (fromLE32 t) t _ (by omega) (by omega) hok).1
      dsimp only at hpos
      have hdigest : digestAt t' pos = digestAt t pos :=
        List.Vector.toList_injective (slice_congr (fun i _ hi => hbytes i (by omega)))
      rw [hdigest, slice_congr (fun i _ hi => hbytes i (by omega))]

end NHA.Nhac
