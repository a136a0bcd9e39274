import Mathlib

/-! Words of a text.

    A text is a list over any type, some of whose elements separate words. `extract` takes the first
    word off a text, as formatted stream input does. -/

namespace Scheme.Words

variable {α : Type*} (sep : α → Bool)

/-- Nothing but separators. -/
def Blank (s : List α) : Prop := ∀ c ∈ s, sep c = true

/-- At least one element and no separator. -/
def Word (w : List α) : Prop := w ≠ [] ∧ ∀ c ∈ w, sep c = false

/-- At least one element, and no separator at either end. -/
def Trimmed (v : List α) : Prop :=
  v ≠ [] ∧ (∀ c ∈ v.head?, sep c = false) ∧ (∀ c ∈ v.getLast?, sep c = false)

instance (s : List α) : Decidable (Blank sep s) := inferInstanceAs (Decidable (∀ c ∈ s, _))

instance [DecidableEq α] (w : List α) : Decidable (Word sep w) :=
  inferInstanceAs (Decidable (_ ∧ _))

instance [DecidableEq α] (v : List α) : Decidable (Trimmed sep v) :=
  inferInstanceAs (Decidable (_ ∧ _ ∧ _))

/-- The text does not go on with a word. -/
def Ends (s : List α) : Prop := ∀ c ∈ s.head?, sep c = true

/-- The word up to the first separator. -/
def firstWord (s : List α) : List α := s.takeWhile (fun c => !sep c)

/-- The first word of a text and what follows it; both are empty when there is no word. -/
def extract (s : List α) : List α × List α :=
  let s := s.dropWhile sep
  (firstWord sep s, s.dropWhile (fun c => !sep c))

variable {sep} {s v w lead rest : List α}

theorem Word.append (hw : Word sep w) (hv : ∀ c ∈ v, sep c = false) : Word sep (w ++ v) := by
  refine ⟨List.append_ne_nil_of_left_ne_nil hw.1 v, fun c hc => ?_⟩
  rcases List.mem_append.mp hc with hc | hc
  · exact hw.2 c hc
  · exact hv c hc

theorem extract_blank (h : Blank sep s) : extract sep s = ([], []) := by
  have hdrop : s.dropWhile sep = [] := List.dropWhile_eq_nil_iff.mpr h
  rw [extract, hdrop]
  rfl

theorem firstWord_append (hw : ∀ c ∈ w, sep c = false) (hrest : Ends sep rest) :
    firstWord sep (w ++ rest) = w ∧ (w ++ rest).dropWhile (fun c => !sep c) = rest := by
  have hword : ∀ c ∈ w, (!sep c) = true := fun c hc => by rw [hw c hc]; rfl
  have hstop : rest.takeWhile (fun c => !sep c) = [] ∧ rest.dropWhile (fun c => !sep c) = rest := by
    cases rest with
    | nil => exact ⟨rfl, rfl⟩
    | cons c rest =>
      have hc : sep c = true := hrest c rfl
      simp [hc]
  rw [firstWord, List.takeWhile_append_of_pos hword, List.dropWhile_append_of_pos hword, hstop.1,
    hstop.2, List.append_nil]
  exact ⟨rfl, rfl⟩

theorem dropWhile_blank (hlead : Blank sep lead) (h : ∀ c ∈ s.head?, sep c = false) :
    (lead ++ s).dropWhile sep = s := by
  rw [List.dropWhile_append_of_pos hlead]
  cases s with
  | nil => rfl
  | cons c s =>
    have hc : sep c = false := h c rfl
    simp [hc]

/-- The first word stands behind separators and before one, or at the end. -/
theorem extract_word (hlead : Blank sep lead) (hw : Word sep w) (hrest : Ends sep rest) :
    extract sep (lead ++ (w ++ rest)) = (w, rest) := by
  have hhead : ∀ c ∈ (w ++ rest).head?, sep c = false := by
    intro c hc
    rw [List.head?_append_of_ne_nil _ hw.1] at hc
    exact hw.2 c (List.mem_of_mem_head? hc)
  obtain ⟨hfirst, hdrop⟩ := firstWord_append hw.2 hrest
  rw [extract, dropWhile_blank hlead hhead]
  exact Prod.ext hfirst hdrop

/-- The first word of a text that starts with one. -/
theorem word_firstWord (hne : s ≠ []) (hhead : ∀ c ∈ s.head?, sep c = false) :
    Word sep (firstWord sep s) := by
  obtain ⟨c, t, rfl⟩ := List.exists_cons_of_ne_nil hne
  have hc : sep c = false := hhead c rfl
  refine ⟨by simp [firstWord, hc], fun d hd => ?_⟩
  have hpos := List.mem_takeWhile_imp hd
  simpa using hpos

theorem head_dropWhile (p : α → Bool) (s : List α) : ∀ c ∈ (s.dropWhile p).head?, p c = false := by
  intro c hc
  have hstop := List.head?_dropWhile_not p s
  rw [Option.mem_def.mp hc] at hstop
  simpa using hstop

theorem ends_dropWhile : Ends sep (s.dropWhile (fun c => !sep c)) := by
  intro c hc
  simpa using head_dropWhile (fun c => !sep c) s c hc

/-- Every text is blank or has a first word. -/
theorem blank_or_word (sep : α → Bool) (s : List α) : Blank sep s ∨ ∃ lead w rest,
    s = lead ++ (w ++ rest) ∧ Blank sep lead ∧ Word sep w ∧ Ends sep rest := by
  rcases eq_or_ne (s.dropWhile sep) [] with hnil | hne
  · exact Or.inl (List.dropWhile_eq_nil_iff.mp hnil)
  · refine Or.inr ⟨s.takeWhile sep, firstWord sep (s.dropWhile sep),
      (s.dropWhile sep).dropWhile (fun c => !sep c), ?_, ?_, ?_, ends_dropWhile⟩
    · rw [firstWord, List.takeWhile_append_dropWhile, List.takeWhile_append_dropWhile]
    · exact fun c hc => List.mem_takeWhile_imp hc
    · exact word_firstWord hne (head_dropWhile sep s)

/-- A text that is not blank is trimmed between two blanks. -/
theorem exists_trimmed (h : ¬ Blank sep s) : ∃ lead v trail,
    s = lead ++ (v ++ trail) ∧ Blank sep lead ∧ Trimmed sep v ∧ Blank sep trail := by
  rcases blank_or_word sep s with hblank | ⟨lead, w, rest, rfl, hlead, hw, -⟩
  · exact absurd hblank h
  · have hne : (w ++ rest).rdropWhile sep ≠ [] := by
      rw [Ne, List.rdropWhile_eq_nil_iff]
      obtain ⟨c, t, rfl⟩ := List.exists_cons_of_ne_nil hw.1
      intro hall
      have hc := hw.2 c List.mem_cons_self
      rw [hall c (by simp)] at hc
      cases hc
    refine ⟨lead, (w ++ rest).rdropWhile sep, (w ++ rest).rtakeWhile sep, ?_, hlead, ⟨hne, ?_, ?_⟩, ?_⟩
    · rw [List.rdropWhile_append_rtakeWhile]
    · -- the first element is that of the word
      intro c hc
      obtain ⟨t, ht⟩ := List.rdropWhile_prefix sep (l := w ++ rest)
      have hhead : (w ++ rest).head? = some c := by
        rw [← ht, List.head?_append_of_ne_nil _ hne]
        exact hc
      rw [List.head?_append_of_ne_nil _ hw.1] at hhead
      exact hw.2 c (List.mem_of_mem_head? hhead)
    · intro c hc
      rw [List.getLast?_eq_getLast_of_ne_nil hne] at hc
      obtain rfl := Option.some.inj hc
      simpa using List.rdropWhile_last_not sep _ hne
    · exact fun c hc => List.mem_rtakeWhile_imp hc

/-- A trimmed text is its own first word exactly when there is no separator in it. -/
theorem firstWord_eq_self_iff : firstWord sep v = v ↔ ∀ c ∈ v, sep c = false := by
  rw [firstWord, List.takeWhile_eq_self_iff]
  simp

/-! ### The last of its kind -/

theorem exists_last {p : α → Prop} (h : ∃ a ∈ s, p a) :
    ∃ pre a post, s = pre ++ a :: post ∧ p a ∧ ∀ b ∈ post, ¬ p b := by
  induction s with
  | nil => simp at h
  | cons a s ih =>
    by_cases hs : ∃ b ∈ s, p b
    · obtain ⟨pre, b, post, rfl, hb, hpost⟩ := ih hs
      exact ⟨a :: pre, b, post, rfl, hb, hpost⟩
    · obtain ⟨b, hb, hpb⟩ := h
      rcases List.mem_cons.mp hb with rfl | hb
      · exact ⟨[], b, s, rfl, hpb, fun c hc hpc => hs ⟨c, hc, hpc⟩⟩
      · exact absurd ⟨b, hb, hpb⟩ hs

end Scheme.Words
