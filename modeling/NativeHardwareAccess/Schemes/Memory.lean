import Mathlib

/-! Byte memory and output buffers.

    `Memory` is what a `char *` points at: a byte at every offset, in bounds or not, so that a read
    or write outside the intended area is visible instead of impossible. `Buffer` adds the set of
    offsets written so far. The one relation an emitter needs is `Holds`: exactly the bytes of a
    list have been written, at offsets `0, 1, …` — it grows by appending (`Holds.stores`), and it
    says at once what the buffer contains, that there is no gap, and that nothing behind the end
    was touched. -/

namespace Scheme

/-- A byte at every offset from a pointer. -/
abbrev Memory := ℕ → UInt8

/-- The `n` bytes from offset `off` on. -/
def slice (m : Memory) (off : ℕ) : ℕ → List UInt8
  | 0 => []
  | n + 1 => m off :: slice m (off + 1) n

/-- The memory that shows the bytes of a list, and zeros behind them. -/
def Memory.ofList (l : List UInt8) : Memory := fun i => l.getD i 0

/-- Write one byte. -/
def Memory.store (m : Memory) (i : ℕ) (v : UInt8) : Memory := Function.update m i v

/-- Write the bytes of a list at consecutive offsets. -/
def Memory.stores (m : Memory) : ℕ → List UInt8 → Memory
  | _, [] => m
  | off, v :: vs => Memory.stores (m.store off v) (off + 1) vs

/-- A memory together with the offsets written since it was handed out. -/
structure Buffer where
  bytes : Memory
  touched : ℕ → Bool

/-- A buffer nothing has been written to yet; its old contents are arbitrary. -/
def Buffer.fresh (m : Memory) : Buffer := ⟨m, fun _ => false⟩

/-- Write one byte. -/
def Buffer.store (b : Buffer) (i : ℕ) (v : UInt8) : Buffer :=
  ⟨b.bytes.store i v, Function.update b.touched i true⟩

/-- Write the bytes of a list at consecutive offsets. -/
def Buffer.stores (b : Buffer) : ℕ → List UInt8 → Buffer
  | _, [] => b
  | off, v :: vs => Buffer.stores (b.store off v) (off + 1) vs

/-! ### Slices -/

@[simp] theorem length_slice (m : Memory) (off n : ℕ) : (slice m off n).length = n := by
  induction n generalizing off with
  | zero => rfl
  | succ n ih => rw [slice, List.length_cons, ih]

theorem slice_add (m : Memory) (off a b : ℕ) :
    slice m off (a + b) = slice m off a ++ slice m (off + a) b := by
  induction a generalizing off with
  | zero => simp [slice]
  | succ a ih =>
    rw [Nat.add_right_comm, slice, slice, ih (off + 1), List.cons_append, Nat.add_right_comm,
      Nat.add_assoc]

theorem getElem?_slice (m : Memory) : ∀ off n i, i < n → (slice m off n)[i]? = some (m (off + i))
  | off, n + 1, 0, _ => by simp [slice]
  | off, n + 1, i + 1, h => by
    rw [slice, List.getElem?_cons_succ, getElem?_slice m (off + 1) n i (by omega),
      Nat.add_right_comm, Nat.add_assoc]

/-- Splitting a slice: its first `a` bytes and the rest. -/
theorem take_slice (m : Memory) (off : ℕ) {a n : ℕ} (h : a ≤ n) :
    (slice m off n).take a = slice m off a := by
  obtain ⟨b, rfl⟩ := Nat.exists_eq_add_of_le h
  rw [slice_add]
  exact List.take_left' (length_slice m off a)

theorem drop_slice (m : Memory) (off : ℕ) {a n : ℕ} (h : a ≤ n) :
    (slice m off n).drop a = slice m (off + a) (n - a) := by
  obtain ⟨b, rfl⟩ := Nat.exists_eq_add_of_le h
  rw [slice_add, Nat.add_sub_cancel_left]
  exact List.drop_left' (length_slice m off a)

theorem slice_congr {m m' : Memory} : ∀ {off n}, (∀ i, off ≤ i → i < off + n → m i = m' i) →
    slice m off n = slice m' off n
  | _, 0, _ => rfl
  | off, n + 1, h => by
    rw [slice, slice, h off (le_refl _) (by omega),
      slice_congr (n := n) (fun i hi hlt => h i (by omega) (by omega))]

/-- Equal slices have equal bytes. -/
theorem byte_eq_of_slice_eq {m m' : Memory} {n i : ℕ} (h : slice m 0 n = slice m' 0 n) (hi : i < n) :
    m i = m' i := by
  have hbyte := congrArg (fun l : List UInt8 => l[i]?) h
  simp only [getElem?_slice _ _ _ _ hi, Nat.zero_add] at hbyte
  exact Option.some.inj hbyte

/-- A slice is given byte by byte. -/
theorem slice_eq_iff (m : Memory) (l : List UInt8) (off : ℕ) :
    slice m off l.length = l ↔ ∀ i < l.length, m (off + i) = l.getD i 0 := by
  induction l generalizing off with
  | nil => simp [slice]
  | cons v l ih =>
    rw [List.length_cons, slice, List.cons.injEq, ih (off + 1)]
    constructor
    · rintro ⟨h0, h⟩ i hi
      cases i with
      | zero => exact h0
      | succ i =>
        rw [List.getD_cons_succ, ← h i (by omega)]
        congr 1
        omega
    · intro h
      refine ⟨h 0 (by omega), fun i hi => ?_⟩
      have hi' := h (i + 1) (by omega)
      rw [List.getD_cons_succ] at hi'
      rw [← hi']
      congr 1
      omega

theorem slice_ofList (l : List UInt8) : slice (Memory.ofList l) 0 l.length = l := by
  apply List.ext_getElem?
  intro i
  rcases Nat.lt_or_ge i l.length with hi | hi
  · rw [getElem?_slice _ _ _ _ hi, Memory.ofList, Nat.zero_add, List.getD_eq_getElem _ _ hi,
      List.getElem?_eq_getElem hi]
  · rw [List.getElem?_eq_none (by simpa using hi), List.getElem?_eq_none hi]

/-! ### Writes -/

theorem Memory.stores_outside (vs : List UInt8) (m : Memory) (off i : ℕ)
    (h : i < off ∨ off + vs.length ≤ i) : m.stores off vs i = m i := by
  induction vs generalizing m off with
  | nil => rfl
  | cons v vs ih =>
    rw [List.length_cons] at h
    rw [Memory.stores, ih _ _ (by omega), Memory.store, Function.update_of_ne (by omega)]

/-- Writing on behind a write is one longer write. -/
theorem Memory.stores_append (vs ws : List UInt8) (m : Memory) (off : ℕ) :
    (m.stores off vs).stores (off + vs.length) ws = m.stores off (vs ++ ws) := by
  induction vs generalizing m off with
  | nil => rfl
  | cons v vs ih =>
    rw [List.cons_append, Memory.stores, Memory.stores, ← ih, List.length_cons, Nat.add_assoc,
      Nat.add_comm 1]

/-- Reading back what was just written. -/
theorem Memory.slice_stores (vs : List UInt8) (m : Memory) (off : ℕ) :
    slice (m.stores off vs) off vs.length = vs := by
  induction vs generalizing m off with
  | nil => rfl
  | cons v vs ih =>
    rw [Memory.stores, List.length_cons, slice, ih, Memory.stores_outside vs _ _ _ (by omega),
      Memory.store, Function.update_self]

/-- A write behind a slice leaves the slice as it was. -/
theorem Memory.slice_stores_before (m : Memory) (vs : List UInt8) (n : ℕ) :
    slice (m.stores n vs) 0 n = slice m 0 n :=
  slice_congr (fun i _ hi => Memory.stores_outside vs m n i (by omega))

/-- Writing at the end of a slice appends to it. -/
theorem Memory.slice_stores_append (m : Memory) (vs : List UInt8) (n : ℕ) :
    slice (m.stores n vs) 0 (n + vs.length) = slice m 0 n ++ vs := by
  rw [slice_add, Nat.zero_add, Memory.slice_stores_before, Memory.slice_stores]

/-! ### The emitter's invariant -/

/-- Exactly the bytes of `l` have been written, at offsets `0, …, l.length - 1`. -/
structure Buffer.Holds (b : Buffer) (l : List UInt8) : Prop where
  bytes : slice b.bytes 0 l.length = l
  touched : ∀ i, b.touched i = true ↔ i < l.length

theorem Buffer.holds_fresh (m : Memory) : (Buffer.fresh m).Holds [] :=
  ⟨rfl, fun i => by simp [Buffer.fresh]⟩

/-- The first bytes written are found at the start. -/
theorem Buffer.Holds.slice_left {b : Buffer} {l l' : List UInt8} (h : b.Holds (l ++ l')) :
    slice b.bytes 0 l.length = l := by
  have hbytes := h.bytes
  rw [List.length_append, slice_add] at hbytes
  exact (List.append_inj hbytes (length_slice ..)).1

theorem Buffer.Holds.store {b : Buffer} {l : List UInt8} {n : ℕ} (h : b.Holds l)
    (hn : l.length = n) (v : UInt8) : (b.store n v).Holds (l ++ [v]) := by
  subst hn
  constructor
  · have happend := Memory.slice_stores_append b.bytes [v] l.length
    rw [h.bytes] at happend
    rw [List.length_append]
    exact happend
  · intro i
    rw [List.length_append, List.length_singleton]
    change Function.update b.touched l.length true i = true ↔ i < l.length + 1
    rcases eq_or_ne i l.length with rfl | hne
    · simp
    · rw [Function.update_of_ne hne, h.touched i]
      omega

/-- Writing on at the end of what is there appends it. -/
theorem Buffer.Holds.stores : ∀ {l : List UInt8} {b : Buffer} {n : ℕ}, b.Holds l →
    l.length = n → ∀ vs : List UInt8, (b.stores n vs).Holds (l ++ vs)
  | l, b, n, h, _, [] => by simpa [Buffer.stores] using h
  | l, b, n, h, hn, v :: vs => by
    have hrec := Buffer.Holds.stores (h.store hn v) (n := n + 1) (by simp [hn]) vs
    rw [List.append_assoc] at hrec
    exact hrec

end Scheme
