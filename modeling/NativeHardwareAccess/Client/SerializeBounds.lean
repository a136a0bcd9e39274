import NativeHardwareAccess.Client.Codec
import NativeHardwareAccess.Client.Description

/-! Whether the serializer stays inside its buffer.

    The size is announced from the length bytes, which keep eight bits of a length, while the bytes are
    written from the values themselves, and the checksum is written without a check of its own. The two
    agree, and everything stays inside, exactly when `serialize` throws or when all values have less
    than 256 bytes and the whole message less than 2^32. -/

namespace NHA.Nhac
open Scheme Scheme.MD5 NHA.MessageBuilder

/-- Unless it throws, `serialize` writes into the `n` bytes of its buffer only, returns the number of
    bytes it wrote, and has announced that number in the size field. -/
def StaysInside (md5 : List UInt8 → Digest) (m : Message) (n : ℕ) : Prop :=
  ∀ (memory : Memory) (k : ℕ) (m' : Message) (t : Buffer),
    m.serialize md5 (Buffer.fresh memory) n = (.ok k, m', t) →
    (∀ i, t.touched i = true → i < n) ∧ (∀ i, t.touched i = true ↔ i < k) ∧
      ofLE (slice t.bytes 0 4) = k

/-- The announced size never exceeds the size of the message. -/
theorem sum_length_bytes_le (tlvs : List TLV) :
    (tlvs.map (fun tlv => 2 + tlv.value.length % 256)).sum ≤ tlvsSize tlvs := by
  induction tlvs with
  | nil => exact le_refl 0
  | cons tlv tlvs ih =>
    rw [tlvsSize_cons, List.map_cons, List.sum_cons]
    have := Nat.mod_le tlv.value.length 256
    omega

/-- It reaches it in the sum exactly when every length fits its byte. -/
theorem sum_length_bytes_eq_iff (tlvs : List TLV) :
    (tlvs.map (fun tlv => 2 + tlv.value.length % 256)).sum = tlvsSize tlvs ↔
      ∀ tlv ∈ tlvs, tlv.value.length < 256 := by
  induction tlvs with
  | nil => simp [tlvsSize]
  | cons tlv tlvs ih =>
    have hle := sum_length_bytes_le tlvs
    rw [tlvsSize_cons, List.map_cons, List.sum_cons, List.forall_mem_cons, ← ih]
    omega

theorem announced_eq_iff (m : Message) : m.getCompleteSizeOfMsgInBytes.toNat = messageSize m.tlvs ↔
    (∀ tlv ∈ m.tlvs, tlv.value.length < 256) ∧ messageSize m.tlvs < 2 ^ 32 := by
  have hle := sum_length_bytes_le m.tlvs
  rw [toNat_announced, ← sum_length_bytes_eq_iff, messageSize]
  omega

/-- The size field of what was written is the announced size. -/
theorem sizeField_written {m : Message} {t : Buffer} {l : List UInt8}
    (h : t.Holds (toLE 4 m.getCompleteSizeOfMsgInBytes.toNat ++ l)) :
    ofLE (slice t.bytes 0 4) = m.getCompleteSizeOfMsgInBytes.toNat := by
  have hfour := h.slice_left
  rw [length_toLE] at hfour
  rw [hfour, ofLE_toLE_of_lt]
  exact lt_of_lt_of_eq m.getCompleteSizeOfMsgInBytes.toNat_lt (by norm_num)

/-- Exactly when the serializer of any message stays inside. -/
theorem staysInside_iff (md5 : List UInt8 → Digest) (m : Message) {n : ℕ} (hn : n < 2 ^ 64) :
    StaysInside md5 m n ↔
      n < m.getCompleteSizeOfMsgInBytes.toNat ∨ room n < messageSize m.tlvs - 16 ∨
        ((∀ tlv ∈ m.tlvs, tlv.value.length < 256) ∧ messageSize m.tlvs < 2 ^ 32) := by
  rw [← announced_eq_iff]
  constructor
  · intro hinside
    rcases serialize_cases md5 m (fun _ => 0) hn with ⟨hthrows, -⟩ | ⟨-, -, t, hser, hholds⟩
    · rcases hthrows with hbig | hfull
      · exact Or.inl hbig
      · exact Or.inr (Or.inl hfull)
    · obtain ⟨-, -, hfield⟩ := hinside _ _ _ _ hser
      rw [List.append_assoc] at hholds
      exact Or.inr (Or.inr ((sizeField_written hholds).symm.trans hfield))
  · rintro hwhen memory k m' t hok
    rcases serialize_cases md5 m memory hn with ⟨-, e, t', hser⟩ | ⟨hle, hroom, t', hser, hholds⟩
    · rw [hser] at hok
      exact absurd (congrArg Prod.fst hok) (by simp)
    · rw [hser] at hok
      obtain ⟨hk, hrest⟩ := Prod.mk.inj hok
      obtain ⟨-, rfl⟩ := Prod.mk.inj hrest
      obtain rfl := Except.ok.inj hk
      -- the buffer was large enough for what was announced, and that is what is written
      have heq : m.getCompleteSizeOfMsgInBytes.toNat = messageSize m.tlvs := by
        rcases hwhen with hbig | hfull | heq
        · omega
        · omega
        · exact heq
      have htouched := hholds.touched
      rw [List.length_append, List.length_append, length_toLE, length_flatMap_bytes,
        List.Vector.toList_length] at htouched
      have hlen : 4 + tlvsSize m.tlvs + 16 = messageSize m.tlvs := by rw [messageSize]; omega
      rw [hlen] at htouched
      refine ⟨fun i hi => ?_, htouched, ?_⟩
      · have := (htouched i).mp hi
        omega
      · rw [List.append_assoc] at hholds
        exact (sizeField_written hholds).trans heq

/-- CORRECT: for every message that `parse` leaves behind and every capacity, the serializer throws, or
    stays inside its buffer and announces the size it writes, exactly when the announced size or a
    record does not fit, or when all values have less than 256 bytes and the message less than 2^32. -/
theorem parsed_staysInside_iff (md5 : List UInt8 → Digest) (is : List UInt8) (n : ℕ)
    (hn : n < 2 ^ 64) : StaysInside md5 (parse is).2.1 n ↔
      n < (parse is).2.1.getCompleteSizeOfMsgInBytes.toNat ∨
        room n < messageSize (parse is).2.1.tlvs - 16 ∨
        ((∀ tlv ∈ (parse is).2.1.tlvs, tlv.value.length < 256) ∧
          messageSize (parse is).2.1.tlvs < 2 ^ 32) :=
  staysInside_iff md5 (parse is).2.1 hn

/-- A query for the device ID stays inside the buffer of the client. -/
theorem deviceID_staysInside :
    StaysInside MD5.md5 (parse (bytes "\x7bH d\x7d")).2.1 65536 :=
  (parsed_staysInside_iff MD5.md5 (bytes "\x7bH d\x7d") 65536 (by decide)).mpr
    (Or.inr (Or.inr ⟨by decide +kernel, by decide +kernel⟩))

/-! ### A string that is too long -/

/-- A message with one string of user data. -/
def userString (w : List UInt8) : List UInt8 := bytes "\x7bu(\"" ++ (w ++ bytes "\")\x7d")

/-- It is parsed to one record, whatever the length of the string. -/
theorem parse_userString {w : List UInt8} (hw : ∀ d ∈ w, inString d = true) :
    parse (userString w) = (.ok true, ⟨[⟨0x04, w⟩], none, none, none⟩, []) := by
  have hbrace : nextToken (userString w) =
      (bytes "\x7b", byte 'u' :: ([] ++ byte '(' :: byte '"' :: (w ++ bytes "\")\x7d"))) :=
    nextToken_single (by decide) (by decide) (by decide)
  have htag : nextToken (byte 'u' :: ([] ++ byte '(' :: byte '"' :: (w ++ bytes "\")\x7d"))) =
      (bytes "u", byte '(' :: byte '"' :: (w ++ bytes "\")\x7d")) :=
    nextToken_word (by decide) (by decide) (by decide +kernel) (by simp; decide)
  have hopen : nextToken (byte '(' :: byte '"' :: (w ++ bytes "\")\x7d")) =
      (bytes "(", byte '"' :: (w ++ bytes "\")\x7d")) :=
    nextToken_single (by decide) (by decide) (by decide)
  have hstring : nextToken (byte '"' :: (w ++ bytes "\")\x7d")) =
      (byte '"' :: w ++ [byte '"'], bytes ")\x7d") := nextToken_string hw
  have hclose : nextToken (bytes ")\x7d") = (bytes ")", bytes "\x7d") := by decide
  have hend : nextToken (bytes "\x7d") = (bytes "\x7d", []) := by decide
  have hargs : parseArgs (byte '(' :: byte '"' :: (w ++ bytes "\")\x7d")) =
      (.ok w, bytes "\x7d", []) := by
    rw [parseArgs, hopen, if_pos rfl, hstring]
    dsimp only
    rw [parseParts, if_neg (by simp), if_neg (by simp [bytes]), parsePart_string]
    dsimp only
    rw [hclose, List.nil_append, parseParts, if_neg (by decide), if_pos rfl]
    dsimp only
    rw [hend]
  rw [parse, hbrace]
  dsimp only
  rw [if_neg (by decide), if_neg (by decide), htag]
  dsimp only
  rw [parseItems, if_neg (by decide), if_neg (by decide), if_neg (by decide), hargs]
  dsimp only
  rfl

/-- A value of 256 bytes or more that fits without its checksum does not stay inside. -/
theorem not_staysInside_long (md5 : List UInt8 → Digest) {w : List UInt8} {n : ℕ}
    (hlong : 256 ≤ w.length) (hfit : 6 + w.length ≤ n) (hn : n < 2 ^ 64) :
    ¬ StaysInside md5 ⟨[⟨0x04, w⟩], none, none, none⟩ n := by
  have hmod : w.length % 256 < 256 := Nat.mod_lt _ (by decide)
  have hannounced := toNat_announced ⟨[⟨0x04, w⟩], none, none, none⟩
  rw [List.map_singleton, List.sum_singleton] at hannounced
  rw [staysInside_iff md5 _ hn, hannounced, messageSize, tlvsSize, List.map_singleton,
    List.sum_singleton, room, if_neg (by omega), List.forall_mem_singleton]
  dsimp only
  omega

/-- So many times the letter a. -/
def letters (k : ℕ) : List UInt8 := List.replicate k (byte 'a')

theorem inString_letters (k : ℕ) : ∀ d ∈ letters k, inString d = true := by
  intro d hd
  rw [letters] at hd
  rw [List.eq_of_mem_replicate hd]
  decide

/-- A string of 65520 letters, in a buffer of the size the client has: the checksum is written behind
    its end. -/
theorem letters_overrun :
    (parse (userString (letters 65520))).1 = .ok true ∧
    ¬ StaysInside MD5.md5 (parse (userString (letters 65520))).2.1 65536 := by
  have hlength : (letters 65520).length = 65520 := List.length_replicate
  rw [parse_userString (inString_letters 65520)]
  exact ⟨rfl, not_staysInside_long MD5.md5 (by rw [hlength]; norm_num) (by rw [hlength]; norm_num)
    (by norm_num)⟩

end NHA.Nhac
