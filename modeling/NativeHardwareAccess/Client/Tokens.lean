import NativeHardwareAccess.Client.Description
import NativeHardwareAccess.Schemes.Words

/-! The lexer of the description language.

    `nextToken` skips what separates tokens and takes one token off the stream. What it takes depends on
    the rest of the stream only through its first character, so a text can be cut behind a token and
    continued differently:

        gap │ token │ rest          nextToken = (token, rest)
        gap │ token │ other         nextToken = (token, other), if other starts like rest

    `tokens` is everything that can be read, `Reads` a part of it, and `Renders` the texts that are
    written for a list of tokens. -/

namespace NHA.Nhac
open Scheme

/-! ### What separates tokens -/

/-- Blanks, commas, and comments with the newline that ends them. -/
inductive Separator : List UInt8 → Prop
  | nil : Separator []
  | blank {c : UInt8} {s : List UInt8} (hc : isspace c = true ∨ c = byte ',') (hs : Separator s) :
      Separator (c :: s)
  | comment {body s : List UInt8} (hbody : ∀ c ∈ body, c ≠ byte '\n') (hs : Separator s) :
      Separator (byte '#' :: (body ++ byte '\n' :: s))

/-- The lexer goes on behind this text, whatever follows it. -/
def Skipped (gap : List UInt8) : Prop := ∀ rest, skip false (gap ++ rest) = skip false rest

theorem skip_comment {body rest : List UInt8} (hbody : ∀ c ∈ body, c ≠ byte '\n') :
    skip true (body ++ byte '\n' :: rest) = skip false rest := by
  induction body with
  | nil => rw [List.nil_append, skip, if_pos rfl]
  | cons c body ih =>
    rw [List.forall_mem_cons] at hbody
    rw [List.cons_append, skip, if_neg hbody.1, ih hbody.2]

theorem Separator.skipped {s : List UInt8} (h : Separator s) : Skipped s := by
  intro rest
  induction h with
  | nil => rfl
  | blank hc _ ih => rw [List.cons_append, skip, if_pos (by simpa using hc), ih]
  | comment hbody _ ih =>
    rw [List.cons_append, List.append_assoc, skip, if_neg (by decide), if_pos rfl, List.cons_append,
      skip_comment hbody, ih]

/-- Skipping comes to the end of the input, or to the start of a token behind a text that is skipped
    whatever follows it. -/
def SkipsTo (comment : Bool) (is : List UInt8) : Prop :=
  skip comment is = [] ∨ ∃ gap c s, is = gap ++ c :: s ∧ skip comment is = c :: s ∧ starts c = true ∧
    ∀ rest, skip comment (gap ++ rest) = skip false rest

/-- A character that is skipped. -/
theorem SkipsTo.cons {comment comment' : Bool} {c : UInt8} {is : List UInt8}
    (hstep : ∀ rest, skip comment (c :: rest) = skip comment' rest) (h : SkipsTo comment' is) :
    SkipsTo comment (c :: is) := by
  rcases h with hnil | ⟨gap, d, s, rfl, hskip, hd, hgap⟩
  · exact Or.inl (by rw [hstep, hnil])
  · refine Or.inr ⟨c :: gap, d, s, rfl, by rw [hstep, hskip], hd, fun rest => ?_⟩
    rw [List.cons_append, hstep, hgap]

theorem skipsTo : ∀ (comment : Bool) (is : List UInt8), SkipsTo comment is
  | true, [] => Or.inl (by rw [skip])
  | false, [] => Or.inl (by rw [skip])
  | true, c :: is => by
    rcases eq_or_ne c (byte '\n') with hc | hc
    · exact (skipsTo false is).cons (fun rest => by rw [skip, if_pos hc])
    · exact (skipsTo true is).cons (fun rest => by rw [skip, if_neg hc])
  | false, c :: is => by
    by_cases hblank : (isspace c || decide (c = byte ',')) = true
    · exact (skipsTo false is).cons (fun rest => by rw [skip, if_pos hblank])
    · rcases eq_or_ne c (byte '#') with hc | hc
      · exact (skipsTo true is).cons (fun rest => by rw [skip, if_neg hblank, if_pos hc])
      · have hstart : starts c = true := by simpa [starts, hc] using hblank
        exact Or.inr ⟨[], c, is, rfl, skip_starts hstart, hstart, fun rest => rfl⟩

theorem nextToken_skipped {gap : List UInt8} (h : Skipped gap) (is : List UInt8) :
    nextToken (gap ++ is) = nextToken is := by
  rw [nextToken, nextToken, h]

/-! ### One token -/

/-- A string without closing quotes ends before a newline or with the input. -/
theorem nextToken_openString {w is : List UInt8} (hw : ∀ d ∈ w, inString d = true)
    (hend : ∀ d ∈ is.head?, d = byte '\n') :
    nextToken (byte '"' :: (w ++ is)) = (byte '"' :: w, is) := by
  rw [nextToken, skip_starts (by decide)]
  dsimp only
  rw [if_pos rfl, List.takeWhile_append_of_pos hw, List.dropWhile_append_of_pos hw]
  cases is with
  | nil => simp
  | cons d is =>
    obtain rfl : d = byte '\n' := hend d rfl
    have hnewline : inString (byte '\n') = false := by decide
    simp only [List.takeWhile_cons, List.dropWhile_cons, hnewline, Bool.false_eq_true, if_false,
      List.append_nil]
    rw [if_neg (by decide)]

/-- A text that a token can be followed by as by `rest`: it starts with the same character; and a
    token that is followed by a letter or digit can be followed by anything. -/
def Follows (rest other : List UInt8) : Prop :=
  other.head? = rest.head? ∨ ∃ c, rest.head? = some c ∧ isalnum c = true

theorem Follows.head {rest other : List UInt8} (h : Follows rest other) {p : UInt8 → Prop}
    (hp : ∀ c ∈ rest.head?, p c) (hno : ∀ c, isalnum c = true → ¬ p c) : ∀ c ∈ other.head?, p c := by
  rcases h with h | ⟨c, hc, halnum⟩
  · rwa [h]
  · exact absurd (hp c hc) (hno c halnum)

/-- This token is taken off before `rest`, and before every text that can follow it instead. -/
def TokenBefore (token rest : List UInt8) : Prop :=
  token ≠ [] ∧ ∀ other, Follows rest other → nextToken (token ++ other) = (token, other)

theorem TokenBefore.nextToken {token rest : List UInt8} (h : TokenBefore token rest) :
    nextToken (token ++ rest) = (token, rest) := h.2 rest (Or.inl rfl)

theorem tokenBefore_string (s : List UInt8) :
    ∃ token rest, byte '"' :: s = token ++ rest ∧ TokenBefore token rest := by
  have hw : ∀ d ∈ s.takeWhile inString, inString d = true := fun d hd => List.mem_takeWhile_imp hd
  have hsplit : s = s.takeWhile inString ++ s.dropWhile inString :=
    List.takeWhile_append_dropWhile.symm
  have hstop : ∀ d ∈ (s.dropWhile inString).head?, inString d = false :=
    Words.head_dropWhile inString s
  cases hdrop : s.dropWhile inString with
  | nil =>
    rw [hdrop, List.append_nil] at hsplit
    refine ⟨byte '"' :: s, [], (List.append_nil _).symm, by simp, fun other hother => ?_⟩
    rw [hsplit]
    refine nextToken_openString hw (hother.head (by simp) ?_)
    rintro c halnum rfl
    exact absurd halnum (by decide)
  | cons d rest =>
    rw [hdrop] at hsplit hstop
    have hd : inString d = false := hstop d rfl
    by_cases hquote : d = byte '"'
    · subst hquote
      refine ⟨byte '"' :: s.takeWhile inString ++ [byte '"'], rest, ?_, by simp, fun other _ => ?_⟩
      · nth_rewrite 1 [hsplit]
        simp
      · have hclosed := @nextToken_string _ other hw
        simpa using hclosed
    · have hnewline : d = byte '\n' := by simpa [inString, hquote] using hd
      refine ⟨byte '"' :: s.takeWhile inString, d :: rest, ?_, by simp, fun other hother => ?_⟩
      · nth_rewrite 1 [hsplit]
        rfl
      · refine nextToken_openString hw (hother.head (by simpa using hnewline) ?_)
        rintro c halnum rfl
        exact absurd halnum (by decide)

/-- Where a token starts, there is one. -/
theorem exists_tokenBefore {c : UInt8} (s : List UInt8) (hc : starts c = true) :
    ∃ token rest, c :: s = token ++ rest ∧ TokenBefore token rest := by
  by_cases hquote : c = byte '"'
  · subst hquote
    exact tokenBefore_string s
  · cases halnum : isalnum c with
    | false =>
      exact ⟨[c], s, rfl, by simp, fun other _ => nextToken_single hc hquote halnum⟩
    | true =>
      refine ⟨c :: s.takeWhile isalnum, s.dropWhile isalnum, ?_, by simp, fun other hother => ?_⟩
      · rw [List.cons_append, List.takeWhile_append_dropWhile]
      · refine nextToken_word hc hquote ?_ (hother.head (Words.head_dropWhile isalnum s) (by simp))
        exact List.forall_mem_cons.mpr ⟨halnum, fun d hd => List.mem_takeWhile_imp hd⟩

/-- What `nextToken` takes off the stream: nothing at the end of the input, or a token behind a gap. -/
theorem nextToken_cases (is : List UInt8) : nextToken is = ([], []) ∨
    ∃ gap token rest, is = gap ++ (token ++ rest) ∧ nextToken is = (token, rest) ∧ Skipped gap ∧
      TokenBefore token rest := by
  rcases skipsTo false is with hnil | ⟨gap, c, s, rfl, -, hc, hgap⟩
  · exact Or.inl (by rw [nextToken, hnil])
  · obtain ⟨token, rest, hsplit, htoken⟩ := exists_tokenBefore s hc
    rw [hsplit]
    refine Or.inr ⟨gap, token, rest, rfl, ?_, hgap, htoken⟩
    rw [nextToken_skipped hgap, htoken.nextToken]

theorem nextToken_length {is : List UInt8} (h : (nextToken is).1 ≠ []) :
    (nextToken is).2.length < is.length := by
  rcases nextToken_cases is with hnil | ⟨gap, token, rest, rfl, hnext, -, htoken⟩
  · rw [hnil] at h
    exact absurd rfl h
  · have hpos := List.length_pos_of_ne_nil htoken.1
    rw [hnext]
    simp only [List.length_append]
    omega

/-! ### All tokens -/

/-- The tokens that repeated calls of `nextToken` give. -/
def tokens (is : List UInt8) : List (List UInt8) :=
  if (nextToken is).1 = [] then [] else (nextToken is).1 :: tokens (nextToken is).2
termination_by is.length
decreasing_by exact nextToken_length (by assumption)

theorem tokens_nil {is : List UInt8} (h : (nextToken is).1 = []) : tokens is = [] := by
  rw [tokens, if_pos h]

theorem tokens_cons {is : List UInt8} (h : (nextToken is).1 ≠ []) :
    tokens is = (nextToken is).1 :: tokens (nextToken is).2 := by
  rw [tokens, if_neg h]

theorem tokens_skipped {gap : List UInt8} (h : Skipped gap) (is : List UInt8) :
    tokens (gap ++ is) = tokens is := by
  rw [tokens, nextToken_skipped h, ← tokens]

theorem tokens_of_nextToken {is token rest : List UInt8} (h : nextToken is = (token, rest))
    (hne : token ≠ []) : tokens is = token :: tokens rest := by
  rw [tokens_cons (by rw [h]; exact hne), h]

/-- The lexer reads these tokens from a stream and leaves the rest. -/
inductive Reads : List UInt8 → List (List UInt8) → List UInt8 → Prop
  | nil (is : List UInt8) : Reads is [] is
  | cons {is token mid rest : List UInt8} {ts : List (List UInt8)} (h : nextToken is = (token, mid))
      (hne : token ≠ []) (hrest : Reads mid ts rest) : Reads is (token :: ts) rest

section
variable {is rest : List UInt8} {ts : List (List UInt8)}

theorem Reads.tokens (h : Reads is ts rest) : tokens is = ts ++ tokens rest := by
  induction h with
  | nil is => rfl
  | cons hnext hne _ ih => rw [tokens_of_nextToken hnext hne, ih, List.cons_append]

/-- Behind these tokens the text may go on differently. -/
theorem Reads.replace (h : Reads is ts rest) :
    ∃ pre, is = pre ++ rest ∧ ∀ other, Follows rest other → Reads (pre ++ other) ts other := by
  induction h with
  | nil is => exact ⟨[], rfl, fun other _ => .nil other⟩
  | @cons is token mid rest ts hnext hne _ ih =>
    obtain ⟨pre, rfl, hreads⟩ := ih
    rcases nextToken_cases is with hnil | ⟨gap, token', rest', rfl, hnext', hgap, htoken⟩
    · rw [hnil] at hnext
      exact absurd (Prod.mk.inj hnext).1.symm hne
    · obtain ⟨rfl, rfl⟩ := Prod.mk.inj (hnext'.symm.trans hnext)
      refine ⟨gap ++ (token' ++ pre), by simp, fun other hother => ?_⟩
      refine .cons ?_ hne (hreads other hother)
      rw [List.append_assoc, List.append_assoc, nextToken_skipped hgap]
      refine htoken.2 _ ?_
      -- only behind the last token is the next character another one
      cases pre with
      | nil => exact hother
      | cons c pre => exact Or.inl rfl

end

/-! ### Writing tokens -/

/-- The tokens of a description: words, strings, and the braces and parentheses. -/
inductive Lexeme : List UInt8 → Prop
  | word {t : List UInt8} (hne : t ≠ []) (h : ∀ c ∈ t, isalnum c = true) : Lexeme t
  | string {w : List UInt8} (h : ∀ c ∈ w, inString c = true) :
      Lexeme (byte '"' :: w ++ [byte '"'])
  | mark {c : UInt8} (h : c ∈ bytes "\x7b\x7d()") : Lexeme [c]

/-- The texts that are written for a list of tokens. Separators may stand everywhere between them, and
    have to stand between two words. -/
inductive Renders : List (List UInt8) → List UInt8 → Prop
  | nil {s : List UInt8} (hs : Separator s) : Renders [] s
  | cons {s t text : List UInt8} {ts : List (List UInt8)} (hs : Separator s) (ht : Lexeme t)
      (hnext : (∀ c ∈ t, isalnum c = true) → ∀ c ∈ text.head?, isalnum c = false)
      (hrest : Renders ts text) : Renders (t :: ts) (s ++ (t ++ text))

theorem Lexeme.nextToken {t text : List UInt8} (ht : Lexeme t)
    (hnext : (∀ c ∈ t, isalnum c = true) → ∀ c ∈ text.head?, isalnum c = false) :
    t ≠ [] ∧ nextToken (t ++ text) = (t, text) := by
  cases ht with
  | word hne h =>
    refine ⟨hne, ?_⟩
    obtain ⟨c, w, rfl⟩ := List.exists_cons_of_ne_nil hne
    have hc := h c List.mem_cons_self
    have hclass : ∀ c : UInt8, isalnum c = true → starts c = true ∧ c ≠ byte '"' := by decide +kernel
    exact nextToken_word (hclass c hc).1 (hclass c hc).2 h (hnext h)
  | string h =>
    refine ⟨by simp, ?_⟩
    have hclosed := @nextToken_string _ text h
    simpa using hclosed
  | mark h =>
    refine ⟨by simp, ?_⟩
    have hclass : ∀ c ∈ bytes "\x7b\x7d()", starts c = true ∧ c ≠ byte '"' ∧ isalnum c = false := by
      decide +kernel
    obtain ⟨hstarts, hquote, hword⟩ := hclass _ h
    exact nextToken_single hstarts hquote hword

/-- What is written is read. -/
theorem Renders.tokens {ts : List (List UInt8)} {text : List UInt8} (h : Renders ts text) :
    tokens text = ts := by
  induction h with
  | nil hs =>
    refine tokens_nil ?_
    have hskip := nextToken_skipped hs.skipped []
    rw [List.append_nil] at hskip
    rw [hskip]
    rfl
  | cons hs ht hnext _ ih =>
    obtain ⟨hne, htoken⟩ := ht.nextToken hnext
    rw [tokens_skipped hs.skipped, tokens_of_nextToken htoken hne, ih]

end NHA.Nhac
