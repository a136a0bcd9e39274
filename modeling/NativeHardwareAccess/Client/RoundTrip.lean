import NativeHardwareAccess.Client.Codec

/-! The client's codec is a bijection on the format, and its decoder is atomic.

    Decoding is settled for every byte string: it succeeds exactly on the messages of the format
    (`Wire`), depends on their bytes only, and what it gives is serialized to the same bytes again.
    Encoding is undone by decoding exactly while the size of the message fits its 32-bit size field:
    the decoder never returns more. -/

namespace NHA.Nhac
open Scheme Scheme.MD5 Scheme.Tlv NHA.MessageBuilder NHA.Protocol

/-- The size field of a message. -/
def sizeField (t : Memory) : ℕ := ofLE (slice t 0 4)

/-- Values of at most 255 bytes are those of records. -/
theorem exists_records {tlvs : List TLV} (h : ∀ tlv ∈ tlvs, tlv.value.length ≤ 255) :
    ∃ rs : List Record, tlvs = rs.map TLV.ofRecord := by
  induction tlvs with
  | nil => exact ⟨[], rfl⟩
  | cons tlv tlvs ih =>
    rw [List.forall_mem_cons] at h
    obtain ⟨rs, rfl⟩ := ih h.2
    exact ⟨⟨tlv.tag, tlv.value, by omega⟩ :: rs, rfl⟩

/-! ### Decoding -/

/-- Everything decoding `n` bytes promises. -/
structure Decodes (md5 : List UInt8 → Digest) (m : Message) (t : Memory) (n : ℕ) : Prop where
  succeeds_iff : (∃ k m', m.deserialize md5 t n = (.ok k, m')) ↔
    20 ≤ n ∧ 20 ≤ sizeField t ∧ sizeField t ≤ n ∧ ∃ rs, slice t 4 (sizeField t - 20) = encode rs
  returns : ∀ k m', m.deserialize md5 t n = (.ok k, m') → k = sizeField t
  /-- Bytes behind the message do not matter. -/
  unread : ∀ k m' t', m.deserialize md5 t n = (.ok k, m') →
    slice t' 0 (sizeField t) = slice t 0 (sizeField t) → m.deserialize md5 t' n = (.ok k, m')
  reproduces : ∀ k m' memory n', m.deserialize md5 t n = (.ok k, m') → sizeField t ≤ n' →
    n' < 2 ^ 64 → ∃ m'' t'', m'.serialize md5 (Buffer.fresh memory) n' =
      (.ok (sizeField t), m'', t'') ∧
      slice t''.bytes 0 (sizeField t - 16) = slice t 0 (sizeField t - 16)
  atomic : ∀ e m', m.deserialize md5 t n = (.error e, m') → m' = m

section
variable {md5 : List UInt8 → Digest} {m m' : Message} {t : Memory} {n k : ℕ}

theorem sizeField_lt (t : Memory) : sizeField t < 2 ^ 32 := by
  have h := ofLE_lt (slice t 0 4)
  rw [length_slice] at h
  exact lt_of_lt_of_eq h (by norm_num)

/-- Only messages are decoded. -/
theorem wire_of_deserialize (h : m.deserialize md5 t n = (.ok k, m')) : ∃ rs, Wire t n rs := by
  by_contra hno
  rw [not_exists] at hno
  obtain ⟨e, he⟩ := deserialize_error md5 m hno
  exact absurd (congrArg Prod.fst (he.symm.trans h)) (by simp)

theorem exists_wire_iff : (∃ rs, Wire t n rs) ↔
    20 ≤ n ∧ 20 ≤ sizeField t ∧ sizeField t ≤ n ∧
      ∃ rs, slice t 4 (sizeField t - 20) = encode rs := by
  constructor
  · rintro ⟨rs, hfits, hfield, hbody⟩
    rw [← sizeField] at hfield
    refine ⟨by omega, by omega, by omega, rs, ?_⟩
    rw [hfield, Nat.add_sub_cancel_left, hbody]
  · rintro ⟨-, hlow, hhigh, rs, hbody⟩
    have hlen := congrArg List.length hbody
    rw [length_slice] at hlen
    refine ⟨rs, by omega, by rw [← sizeField]; omega, ?_⟩
    rw [← hlen, hbody]

/-- The decoded records are serialized to the bytes they came from. -/
theorem Wire.serialize {rs : List Record} (h : Wire t n rs) (hm : m.tlvs = rs.map TLV.ofRecord)
    (memory : Memory) {n' : ℕ} (hfit : 20 + (encode rs).length ≤ n') (hn' : n' < 2 ^ 64) :
    ∃ m'' t'', m.serialize md5 (Buffer.fresh memory) n' =
        (.ok (20 + (encode rs).length), m'', t'') ∧
      slice t''.bytes 0 (4 + (encode rs).length) = slice t 0 (4 + (encode rs).length) := by
  have hlt := sizeField_lt t
  rw [Nhac.sizeField, h.sizeField] at hlt
  obtain ⟨t'', hser, hholds⟩ := serialize_records md5 memory hm hlt hfit hn'
  refine ⟨_, t'', hser, ?_⟩
  have hbytes := hholds.slice_left
  rw [List.length_append, length_toLE] at hbytes
  rw [hbytes, slice_add, Nat.zero_add, h.body, ← h.sizeField]
  -- the four bytes of the size field are those of the number they stand for
  have hfour := toLE_ofLE (slice t 0 4)
  rw [length_slice] at hfour
  rw [hfour]

end

/-- Decoding keeps its promises on every byte string. -/
theorem deserialize_decodes (md5 : List UInt8 → Digest) (m : Message) (t : Memory) (n : ℕ) :
    Decodes md5 m t n where
  succeeds_iff := by
    rw [← exists_wire_iff]
    constructor
    · rintro ⟨k, m', h⟩
      exact wire_of_deserialize h
    · rintro ⟨rs, h⟩
      exact ⟨_, _, deserialize_wire md5 m h⟩
  returns k m' h := by
    obtain ⟨rs, hwire⟩ := wire_of_deserialize h
    rw [deserialize_wire md5 m hwire] at h
    rw [sizeField, hwire.sizeField]
    exact (Except.ok.inj (congrArg Prod.fst h)).symm
  unread k m' t' h heq := by
    obtain ⟨rs, hwire⟩ := wire_of_deserialize h
    rw [deserialize_congr md5 m, h]
    intro i _ hi
    have hlow := hwire.sizeField
    rw [← sizeField] at hi hlow
    exact byte_eq_of_slice_eq heq (by omega)
  reproduces k m' memory n' h hfit hn' := by
    obtain ⟨rs, hwire⟩ := wire_of_deserialize h
    rw [sizeField, hwire.sizeField] at hfit ⊢
    rw [deserialize_wire md5 m hwire] at h
    obtain ⟨-, rfl⟩ := Prod.mk.inj h
    have hend : 20 + (encode rs).length - 16 = 4 + (encode rs).length := by omega
    rw [hend]
    exact hwire.serialize rfl memory hfit hn'
  atomic e m' h := by
    by_cases hwire : ∃ rs, Wire t n rs
    · obtain ⟨rs, hwire⟩ := hwire
      rw [deserialize_wire md5 m hwire] at h
      exact absurd (congrArg Prod.fst h) (by simp)
    · rw [not_exists] at hwire
      obtain ⟨e', he'⟩ := deserialize_error md5 m hwire
      exact (congrArg Prod.snd (he'.symm.trans h)).symm

/-! ### Encoding -/

/-- Encoding into `n` bytes returns the size of the message, and decoding what it wrote, followed by
    anything, returns the same size and the same records, with an all-zero XOR of the checksums. -/
def RoundTrips (md5 : List UInt8 → Digest) (tlvs : List TLV) (n : ℕ) : Prop :=
  ∀ (m : Message) (memory : Memory), m.tlvs = tlvs → ∃ m' t,
    m.serialize md5 (Buffer.fresh memory) n = (.ok (messageSize tlvs), m', t) ∧
    ∀ (receiver : Message) (t' : Memory) (n' : ℕ), messageSize tlvs ≤ n' →
      slice t' 0 (messageSize tlvs) = slice t.bytes 0 (messageSize tlvs) →
      ∃ receiver', receiver.deserialize md5 t' n' = (.ok (messageSize tlvs), receiver') ∧
        receiver'.tlvs = tlvs ∧ receiver'.xoredMd5 = some (List.Vector.replicate 16 0)

theorem xorDigest_self (d : Digest) : xorDigest d d = List.Vector.replicate 16 0 := by
  apply List.Vector.toList_injective
  rw [xorDigest, List.Vector.zipWith_toList]
  have hself : ∀ l : List UInt8, List.zipWith (· ^^^ ·) l l = List.replicate l.length 0 := by
    intro l
    induction l with
    | nil => rfl
    | cons x l ih =>
      rw [List.zipWith_cons_cons, UInt8.xor_self, ih]
      rfl
  rw [hself, List.Vector.toList_length]
  rfl

/-- A message whose size fits the size field makes the round trip. -/
theorem roundTrips_of_lt (md5 : List UInt8 → Digest) (rs : List Record) {n : ℕ}
    (hfit : 20 + (encode rs).length ≤ n) (hn : n < 2 ^ 64)
    (hsize : 20 + (encode rs).length < 2 ^ 32) : RoundTrips md5 (rs.map TLV.ofRecord) n := by
  intro m memory hm
  rw [messageSize_records]
  obtain ⟨t, hser, hholds⟩ := serialize_records md5 memory hm hsize hfit hn
  refine ⟨_, t, hser, ?_⟩
  intro receiver t' n' hn' hbytes'
  have hbytes := hholds.bytes
  have hlen : (toLE 4 (20 + (encode rs).length) ++ encode rs ++
      (md5 (toLE 4 (20 + (encode rs).length) ++ encode rs)).toList).length =
      20 + (encode rs).length := by
    simp only [List.length_append, length_toLE, List.Vector.toList_length]
    omega
  rw [hlen] at hbytes
  refine ⟨_, deserialize_records md5 receiver hsize hn' (hbytes'.trans hbytes), rfl, ?_⟩
  exact congrArg some (xorDigest_self _)

/-- The decoder returns what the size field says, so a larger size is never returned. -/
theorem not_roundTrips_of_le (md5 : List UInt8 → Digest) {tlvs : List TLV} {n : ℕ}
    (hsize : 2 ^ 32 ≤ messageSize tlvs) : ¬ RoundTrips md5 tlvs n := by
  intro h
  obtain ⟨m', t, -, hdecode⟩ := h ⟨tlvs, none, none, none⟩ (fun _ => 0) rfl
  obtain ⟨receiver', hok, -⟩ := hdecode ⟨[], none, none, none⟩ t.bytes _ (le_refl _) rfl
  have hreturns := (deserialize_decodes md5 _ t.bytes _).returns _ _ hok
  have hlt := sizeField_lt t.bytes
  omega

/-- CORRECT: decoding keeps its promises on every byte string, and encoding is undone by decoding
    exactly when the size of the message fits the 32-bit size field. -/
theorem codec_bijective (md5 : List UInt8 → Digest) :
    (∀ (tlvs : List TLV) (n : ℕ), (∀ tlv ∈ tlvs, tlv.value.length ≤ 255) → messageSize tlvs ≤ n →
      n < 2 ^ 64 → (RoundTrips md5 tlvs n ↔ messageSize tlvs < 2 ^ 32)) ∧
    (∀ (m : Message) (t : Memory) (n : ℕ), Decodes md5 m t n) := by
  refine ⟨?_, deserialize_decodes md5⟩
  intro tlvs n hshort hfit hn
  constructor
  · intro h
    rw [← Nat.not_le]
    exact fun hle => not_roundTrips_of_le md5 hle h
  · intro hsize
    obtain ⟨rs, rfl⟩ := exists_records hshort
    rw [messageSize_records] at hfit hsize
    exact roundTrips_of_lt md5 rs hfit hn hsize

/-- One record of each kind of value: none, and 255 bytes. -/
def sampleTlvs : List TLV := [⟨0x91, []⟩, ⟨0x04, List.replicate 255 7⟩]

/-- They make the round trip through the buffer of the client. -/
theorem sampleTlvs_roundTrip : RoundTrips MD5.md5 sampleTlvs 65536 :=
  ((codec_bijective MD5.md5).1 sampleTlvs 65536 (by decide +kernel) (by decide +kernel)
    (by decide)).mpr (by decide +kernel)

/-- As many records of the greatest length, 257 bytes each. -/
def longTlvs (k : ℕ) : List TLV := List.replicate k ⟨0x04, List.replicate 255 0⟩

theorem longTlvs_short (k : ℕ) : ∀ tlv ∈ longTlvs k, tlv.value.length ≤ 255 := by
  intro tlv htlv
  rw [longTlvs] at htlv
  rw [List.eq_of_mem_replicate htlv, List.length_replicate]

theorem messageSize_longTlvs (k : ℕ) : messageSize (longTlvs k) = 20 + k * 257 := by
  rw [messageSize, tlvsSize, longTlvs, List.map_replicate, List.sum_replicate, List.length_replicate,
    smul_eq_mul]

/-- Of 16711936 such records the size does not fit the size field: no round trip, in a buffer that has
    room for all of them. -/
theorem longTlvs_broken : (∀ tlv ∈ longTlvs 16711936, tlv.value.length ≤ 255) ∧
    messageSize (longTlvs 16711936) = 4294967572 ∧
    ¬ RoundTrips MD5.md5 (longTlvs 16711936) 4294967572 := by
  have hsize := messageSize_longTlvs 16711936
  exact ⟨longTlvs_short _, hsize, not_roundTrips_of_le MD5.md5 (by rw [hsize]; norm_num)⟩

end NHA.Nhac
