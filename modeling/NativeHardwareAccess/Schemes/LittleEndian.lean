import Mathlib

/-! Fixed-width little-endian numbers as byte lists.

    A number becomes exactly `k` bytes, least significant first (`toLE`), and a byte list becomes a
    number (`ofLE`). The two are inverse up to the width. Code usually reaches the same bytes by
    shifting and masking, and reads them back by shifting and or-ing: `toLE_eq_map_shift` and
    `ofLE_four` are the bridges. -/

namespace Scheme

/-- The `k` low bytes of `n`, least significant first. -/
def toLE : ℕ → ℕ → List UInt8
  | 0, _ => []
  | k + 1, n => UInt8.ofNat n :: toLE k (n / 256)

/-- The number whose little-endian bytes are given. -/
def ofLE : List UInt8 → ℕ
  | [] => 0
  | b :: bs => b.toNat + 256 * ofLE bs

@[simp] theorem length_toLE (k n : ℕ) : (toLE k n).length = k := by
  induction k generalizing n with
  | zero => rfl
  | succ k ih => rw [toLE, List.length_cons, ih]

/-- Writing and reading back keeps the number modulo its width. -/
theorem ofLE_toLE (k n : ℕ) : ofLE (toLE k n) = n % 256 ^ k := by
  induction k generalizing n with
  | zero => rw [toLE, ofLE, pow_zero, Nat.mod_one]
  | succ k ih => rw [toLE, ofLE, ih, pow_succ', Nat.mod_mul, UInt8.toNat_ofNat']

theorem ofLE_toLE_of_lt {k n : ℕ} (h : n < 256 ^ k) : ofLE (toLE k n) = n := by
  rw [ofLE_toLE, Nat.mod_eq_of_lt h]

theorem ofLE_lt (l : List UInt8) : ofLE l < 256 ^ l.length := by
  induction l with
  | nil => simp [ofLE]
  | cons b bs ih =>
    have hb : b.toNat < 256 := b.toNat_lt
    rw [ofLE, List.length_cons, pow_succ]
    omega

/-- Reading and writing back keeps the bytes. -/
theorem toLE_ofLE (l : List UInt8) : toLE l.length (ofLE l) = l := by
  induction l with
  | nil => rfl
  | cons b bs ih =>
    have hb : b.toNat < 256 := b.toNat_lt
    have hdiv : (b.toNat + 256 * ofLE bs) / 256 = ofLE bs := by omega
    have hmod : UInt8.ofNat (b.toNat + 256 * ofLE bs) = b := by
      apply UInt8.toNat_inj.mp
      rw [UInt8.toNat_ofNat']
      omega
    rw [ofLE, List.length_cons, toLE, hdiv, hmod, ih]

/-- The shift-and-mask loop writes the little-endian bytes. -/
theorem toLE_eq_map_shift (k n : ℕ) :
    toLE k n = (List.range k).map (fun i => UInt8.ofNat ((n >>> (8 * i)) &&& 0xff)) := by
  induction k generalizing n with
  | zero => rfl
  | succ k ih =>
    rw [toLE, List.range_succ_eq_map, List.map_cons, List.map_map, ih]
    have hmask : ∀ m : ℕ, UInt8.ofNat (m &&& 0xff) = UInt8.ofNat m := by
      intro m
      apply UInt8.toNat_inj.mp
      rw [UInt8.toNat_ofNat', UInt8.toNat_ofNat', show (0xff : ℕ) = 2 ^ 8 - 1 from rfl,
        Nat.and_two_pow_sub_one_eq_mod, Nat.mod_mod]
    congr 1
    · simp [hmask]
    · apply List.map_congr_left
      intro i _
      have hshift : (n / 256) >>> (8 * i) = n >>> (8 * (i + 1)) := by
        rw [Nat.mul_add, Nat.add_comm, Nat.shiftRight_add, Nat.shiftRight_eq_div_pow n (8 * 1)]
      rw [hshift]
      rfl

/-- Or-ing a low part under a shifted high part is addition. -/
theorem lor_shiftLeft {a k : ℕ} (b : ℕ) (h : a < 2 ^ k) : a ||| b <<< k = a + b * 2 ^ k := by
  rw [Nat.lor_comm, ← Nat.shiftLeft_add_eq_or_of_lt h, Nat.shiftLeft_eq, Nat.add_comm]

/-- Four bytes or-ed together at shifts 0, 8, 16, 24 read as their little-endian number. -/
theorem ofLE_four (a b c d : UInt8) :
    a.toNat ||| b.toNat <<< 8 ||| c.toNat <<< 16 ||| d.toNat <<< 24 = ofLE [a, b, c, d] := by
  have ha : a.toNat < 2 ^ 8 := a.toNat_lt
  have hb : b.toNat < 256 := b.toNat_lt
  have hc : c.toNat < 256 := c.toNat_lt
  have hab : a.toNat + b.toNat * 2 ^ 8 < 2 ^ 16 := by omega
  have habc : a.toNat + b.toNat * 2 ^ 8 + c.toNat * 2 ^ 16 < 2 ^ 24 := by omega
  rw [lor_shiftLeft _ ha, lor_shiftLeft _ hab, lor_shiftLeft _ habc]
  simp only [ofLE]
  ring

/-- Eight bytes read as two 32-bit halves, the high one shifted up. -/
theorem ofLE_halves (lo hi : List UInt8) (h : lo.length = 4) :
    ofLE hi <<< 32 ||| ofLE lo = ofLE (lo ++ hi) := by
  have hlo : ofLE lo < 2 ^ 32 := by
    have := ofLE_lt lo
    rw [h] at this
    exact this
  rw [Nat.lor_comm, lor_shiftLeft _ hlo]
  match lo, h with
  | [a, b, c, d], _ => simp only [ofLE, List.cons_append, List.nil_append]; ring

end Scheme
