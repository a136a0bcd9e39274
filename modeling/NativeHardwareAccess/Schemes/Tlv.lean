import Mathlib

/-! Tag-length-value records on a byte stream.

    A record is a tag byte, a length byte and that many value bytes; a body is a concatenation of
    records. Every byte string splits in exactly one way into complete records followed by a stuck
    rest (too short for a tag and a length, or for the announced value). `records` and `rest`
    compute the split, `scan_append` is its uniqueness, and a body is well formed exactly when the
    rest is empty. -/

namespace Scheme.Tlv

/-- One record; the length byte can only announce 255 value bytes. -/
structure Record where
  tag : UInt8
  value : List UInt8
  short : value.length < 256
  deriving DecidableEq

/-- A record on the wire. -/
def Record.bytes (r : Record) : List UInt8 := r.tag :: UInt8.ofNat r.value.length :: r.value

/-- A sequence of records on the wire. -/
def encode (rs : List Record) : List UInt8 := rs.flatMap Record.bytes

/-- No complete record starts here. -/
def Stuck : List UInt8 → Prop
  | _ :: n :: vs => vs.length < n.toNat
  | _ => True

theorem take_short (n : UInt8) (vs : List UInt8) : (vs.take n.toNat).length < 256 := by
  have hn : n.toNat < 256 := n.toNat_lt
  rw [List.length_take]
  omega

/-- Split off complete records while there are any. -/
def scan : ℕ → List UInt8 → List Record × List UInt8
  | fuel + 1, t :: n :: vs =>
    if n.toNat ≤ vs.length then
      (⟨t, vs.take n.toNat, take_short n vs⟩ :: (scan fuel (vs.drop n.toNat)).1,
        (scan fuel (vs.drop n.toNat)).2)
    else ([], t :: n :: vs)
  | _, l => ([], l)

/-- The complete records at the start of a byte string. -/
def records (l : List UInt8) : List Record := (scan l.length l).1

/-- What follows the complete records. -/
def rest (l : List UInt8) : List UInt8 := (scan l.length l).2

/-! ### Encoding -/

@[simp] theorem encode_nil : encode [] = [] := rfl

@[simp] theorem encode_cons (r : Record) (rs : List Record) :
    encode (r :: rs) = r.bytes ++ encode rs := rfl

@[simp] theorem encode_append (rs rs' : List Record) :
    encode (rs ++ rs') = encode rs ++ encode rs' := List.flatMap_append

theorem Record.length_bytes (r : Record) : r.bytes.length = 2 + r.value.length := by
  rw [Record.bytes, List.length_cons, List.length_cons]
  omega

/-- The length byte reads back as the length of the value. -/
theorem Record.toNat_length (r : Record) : (UInt8.ofNat r.value.length).toNat = r.value.length := by
  rw [UInt8.toNat_ofNat']
  exact Nat.mod_eq_of_lt r.short

theorem encode_eq_nil {rs : List Record} : encode rs = [] ↔ rs = [] := by
  cases rs with
  | nil => simp
  | cons r rs => simp [Record.bytes]

/-! ### The split -/

/-- Nothing is lost in the split, and with enough fuel its rest is stuck. -/
theorem scan_spec : ∀ fuel (l : List UInt8), l.length ≤ fuel →
    encode (scan fuel l).1 ++ (scan fuel l).2 = l ∧ Stuck (scan fuel l).2
  | _, [], _ => by simp [scan, Stuck]
  | _, [_], _ => by simp [scan, Stuck]
  | 0, _ :: _ :: _, h => by simp at h
  | fuel + 1, t :: n :: vs, h => by
    rw [scan]
    by_cases hn : n.toNat ≤ vs.length
    · have hrec := scan_spec fuel (vs.drop n.toNat) (by
        simp only [List.length_cons] at h
        rw [List.length_drop]
        omega)
      have hlen : UInt8.ofNat (vs.take n.toNat).length = n := by
        rw [List.length_take, Nat.min_eq_left hn, UInt8.ofNat_toNat]
      rw [if_pos hn]
      refine ⟨?_, hrec.2⟩
      simp only [encode_cons, Record.bytes, hlen, List.cons_append, List.append_assoc, hrec.1,
        List.take_append_drop]
    · rw [if_neg hn]
      exact ⟨rfl, by simpa [Stuck] using hn⟩

/-- The split is unique: complete records before a stuck rest are found again. -/
theorem scan_append : ∀ (rs : List Record) (t : List UInt8) (fuel : ℕ), Stuck t →
    (encode rs ++ t).length ≤ fuel → scan fuel (encode rs ++ t) = (rs, t)
  | [], [], fuel, _, _ => by cases fuel <;> rfl
  | [], [x], fuel, _, _ => by cases fuel <;> rfl
  | [], x :: n :: vs, fuel, ht, hf => by
    cases fuel with
    | zero => simp at hf
    | succ fuel => simp only [encode_nil, List.nil_append, scan, if_neg (Nat.not_le.mpr ht)]
  | r :: rs, t, fuel, ht, hf => by
    cases fuel with
    | zero => simp [Record.bytes] at hf
    | succ fuel =>
      have hlen := r.toNat_length
      have hrec := scan_append rs t fuel ht (by
        simp only [encode_cons, List.length_append, r.length_bytes] at hf ⊢
        omega)
      have htake : (r.value ++ (encode rs ++ t)).take r.value.length = r.value := List.take_left
      have hdrop : (r.value ++ (encode rs ++ t)).drop r.value.length = encode rs ++ t :=
        List.drop_left
      simp only [encode_cons, Record.bytes, List.cons_append, List.append_assoc, scan, hlen, htake,
        hdrop, hrec]
      rw [if_pos (by simp)]

theorem encode_records_append_rest (l : List UInt8) : encode (records l) ++ rest l = l :=
  (scan_spec l.length l (le_refl _)).1

theorem stuck_rest (l : List UInt8) : Stuck (rest l) := (scan_spec l.length l (le_refl _)).2

@[simp] theorem records_encode (rs : List Record) : records (encode rs) = rs := by
  have h := scan_append rs [] (encode rs).length trivial (by simp)
  rw [List.append_nil] at h
  rw [records, h]

@[simp] theorem rest_encode (rs : List Record) : rest (encode rs) = [] := by
  have h := scan_append rs [] (encode rs).length trivial (by simp)
  rw [List.append_nil] at h
  rw [rest, h]

/-- A byte string is a concatenation of records exactly when the split leaves nothing over. -/
theorem rest_eq_nil_iff (l : List UInt8) : rest l = [] ↔ ∃ rs, l = encode rs := by
  constructor
  · intro h
    have hl := encode_records_append_rest l
    rw [h, List.append_nil] at hl
    exact ⟨records l, hl.symm⟩
  · rintro ⟨rs, rfl⟩
    exact rest_encode rs

end Scheme.Tlv
