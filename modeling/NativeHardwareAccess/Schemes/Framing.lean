import Mathlib

/-! Streams of frames.

    A frame says its own length: a function of its first `h` elements, the header, gives the length of
    the whole. A stream that is a concatenation of frames can therefore be cut in one way only, and a
    reader that is behind the writer has read the first of the frames that were written:

        written  ├── frame ──┼── frame ──┼── frame ──┼── part ─┤
        read     ├── frame ──┼── frame ──┼─ … -/

namespace Scheme.Framing

variable {α : Type*} {h : ℕ} {size : List α → ℕ}

/-- A list with a full header that is as long as its header says. -/
structure Frame (h : ℕ) (size : List α → ℕ) (m : List α) : Prop where
  header : h ≤ m.length
  pos : 0 < m.length
  length : m.length = size (m.take h)

variable {p q s t : List α} {xs ys : List (List α)}

/-- Two frames that start at the same place of a stream are the same. -/
theorem Frame.eq_of_start (hp : Frame h size p) (hq : Frame h size q) (hps : p <+: s)
    (hqs : q <+: s) : p = q := by
  have hheader : p.take h = q.take h := by
    have htake : ∀ {m : List α}, h ≤ m.length → m <+: s → m.take h = s.take h := by
      rintro m hm ⟨t, rfl⟩
      rw [List.take_append_of_le_length hm]
    rw [htake hp.header hps, htake hq.header hqs]
  have hlength : p.length = q.length := by rw [hp.length, hq.length, hheader]
  exact (List.prefix_of_prefix_length_le hps hqs hlength.le).eq_of_length hlength

/-- A proper prefix of a frame holds no frame. -/
theorem Frame.not_prefix_of_part {part : List α} (hq : Frame h size q) (hpart : part <+: q)
    (hne : part ≠ q) (hp : Frame h size p) : ¬ p <+: part := by
  intro hstart
  have heq := hp.eq_of_start hq (hstart.trans hpart) List.prefix_rfl
  subst heq
  exact hne (hpart.eq_of_length_le hstart.length_le)

/-- Nothing holds no frame. -/
theorem Frame.not_prefix_nil (hp : Frame h size p) : ¬ p <+: [] := by
  intro hstart
  have hpos := hp.pos
  rw [List.prefix_nil.mp hstart] at hpos
  exact absurd hpos (lt_irrefl 0)

/-- The frames that were read are the first of those that were written: a reader's stream is at most
    what was written, and what follows the written frames is not a frame yet. -/
theorem frames_read (hxs : ∀ x ∈ xs, Frame h size x) (hys : ∀ y ∈ ys, Frame h size y) {part : List α}
    (hpart : ∀ x, Frame h size x → ¬ x <+: part) (hread : xs.flatten <+: ys.flatten ++ part) :
    xs <+: ys := by
  induction xs generalizing ys with
  | nil => exact List.nil_prefix
  | cons x xs ih =>
    rw [List.forall_mem_cons] at hxs
    rw [List.flatten_cons] at hread
    cases ys with
    | nil => exact absurd ((List.prefix_append x _).trans hread) (hpart x hxs.1)
    | cons y ys =>
      rw [List.forall_mem_cons] at hys
      rw [List.flatten_cons, List.append_assoc] at hread
      have heq : x = y := hxs.1.eq_of_start hys.1 ((List.prefix_append x _).trans hread)
        (List.prefix_append y _)
      subst heq
      rw [List.prefix_append_right_inj] at hread
      exact (List.prefix_cons_inj x).mpr (ih hxs.2 hys.2 hread)

end Scheme.Framing
