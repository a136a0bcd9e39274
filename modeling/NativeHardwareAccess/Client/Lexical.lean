import NativeHardwareAccess.Client.Tokens

/-! The texts of a list of tokens.

    `Renders` gives texts that are read as a list of tokens. With the comment that may stand at the end
    of the input without a newline, these are all of them: a text is read as the tokens `ts`, all of
    them words, strings or marks, exactly when it is one of the texts of `ts`. What else the lexer can
    take off a stream is a string without closing quotes or a single character of no meaning. -/

namespace NHA.Nhac
open Scheme

/-- What may stand behind the last token: separators, and a comment that the input ends in. -/
inductive Trailing : List UInt8 → Prop
  | gap {s : List UInt8} (hs : Separator s) : Trailing s
  | comment {s body : List UInt8} (hs : Separator s) (hbody : ∀ c ∈ body, c ≠ byte '\n') :
      Trailing (s ++ byte '#' :: body)

/-- The texts of a list of tokens. -/
inductive Text : List (List UInt8) → List UInt8 → Prop
  | nil {s : List UInt8} (hs : Trailing s) : Text [] s
  | cons {s t text : List UInt8} {ts : List (List UInt8)} (hs : Separator s) (ht : Lexeme t)
      (hnext : (∀ c ∈ t, isalnum c = true) → ∀ c ∈ text.head?, isalnum c = false)
      (hrest : Text ts text) : Text (t :: ts) (s ++ (t ++ text))

/-- Everything that the lexer can take for a token. -/
inductive Token : List UInt8 → Prop
  | lexeme {t : List UInt8} (h : Lexeme t) : Token t
  | openString {w : List UInt8} (h : ∀ c ∈ w, inString c = true) : Token (byte '"' :: w)
  | other {c : UInt8} (hword : isalnum c = false) (hquote : c ≠ byte '"') : Token [c]

/-! ### Separators -/

section
variable {s body : List UInt8} {c : UInt8}

theorem Trailing.blank (hc : isspace c = true ∨ c = byte ',') (h : Trailing s) : Trailing (c :: s) := by
  cases h with
  | gap hs => exact .gap (.blank hc hs)
  | comment hs hbody =>
    rw [← List.cons_append]
    exact .comment (.blank hc hs) hbody

theorem Trailing.behind (hbody : ∀ c ∈ body, c ≠ byte '\n') (h : Trailing s) :
    Trailing (byte '#' :: (body ++ byte '\n' :: s)) := by
  cases h with
  | gap hs => exact .gap (.comment hbody hs)
  | @comment s body' hs hbody' =>
    have hassoc : byte '#' :: (body ++ byte '\n' :: (s ++ byte '#' :: body')) =
        byte '#' :: (body ++ byte '\n' :: s) ++ byte '#' :: body' := by simp
    rw [hassoc]
    exact .comment (.comment hbody hs) hbody'

/-- A comment that the input ends in is skipped. -/
theorem skip_openComment (hbody : ∀ c ∈ body, c ≠ byte '\n') : skip true body = [] := by
  induction body with
  | nil => rw [skip]
  | cons c body ih =>
    rw [List.forall_mem_cons] at hbody
    rw [skip, if_neg hbody.1, ih hbody.2]

theorem Trailing.skip (h : Trailing s) : skip false s = [] := by
  cases h with
  | gap hs =>
    have hskip := hs.skipped []
    rwa [List.append_nil] at hskip
  | comment hs hbody =>
    rw [hs.skipped, Nhac.skip, if_neg (by decide), if_pos rfl, skip_openComment hbody]

end

/-- The rest of a comment: it goes on to the end of the input, or up to a newline. -/
theorem comment_cases (is : List UInt8) : (∀ c ∈ is, c ≠ byte '\n') ∨
    ∃ body rest, is = body ++ byte '\n' :: rest ∧ ∀ c ∈ body, c ≠ byte '\n' := by
  induction is with
  | nil => exact Or.inl (by simp)
  | cons c is ih =>
    rcases eq_or_ne c (byte '\n') with rfl | hc
    · exact Or.inr ⟨[], is, rfl, by simp⟩
    · rcases ih with hall | ⟨body, rest, rfl, hbody⟩
      · exact Or.inl (List.forall_mem_cons.mpr ⟨hc, hall⟩)
      · exact Or.inr ⟨c :: body, rest, rfl, List.forall_mem_cons.mpr ⟨hc, hbody⟩⟩

/-- Either the input has no more tokens, or separators stand before the next one. -/
theorem separator_cases (is : List UInt8) : Trailing is ∨
    ∃ s c rest, is = s ++ c :: rest ∧ Separator s ∧ starts c = true := by
  match is with
  | [] => exact Or.inl (.gap .nil)
  | c :: is =>
    by_cases hblank : isspace c = true ∨ c = byte ','
    · rcases separator_cases is with h | ⟨s, d, rest, rfl, hs, hd⟩
      · exact Or.inl (h.blank hblank)
      · exact Or.inr ⟨c :: s, d, rest, rfl, .blank hblank hs, hd⟩
    · rcases eq_or_ne c (byte '#') with rfl | hc
      · rcases comment_cases is with hopen | ⟨body, rest, rfl, hbody⟩
        · exact Or.inl (.comment .nil hopen)
        · rcases separator_cases rest with h | ⟨s, d, rest', rfl, hs, hd⟩
          · exact Or.inl (h.behind hbody)
          · exact Or.inr ⟨byte '#' :: (body ++ byte '\n' :: s), d, rest', by simp, .comment hbody hs, hd⟩
      · refine Or.inr ⟨[], c, is, rfl, .nil, ?_⟩
        rw [not_or] at hblank
        simp [starts, hblank.1, hblank.2, hc]
termination_by is.length

/-! ### One token -/

/-- The token that starts with quotes. -/
theorem string_cases (s : List UInt8) : ∃ t rest, byte '"' :: s = t ++ rest ∧
    nextToken (byte '"' :: s) = (t, rest) ∧ Token t ∧ byte '"' ∈ t := by
  have hw : ∀ d ∈ s.takeWhile inString, inString d = true := fun d hd => List.mem_takeWhile_imp hd
  have hstop := Words.head_dropWhile inString s
  have hsplit : s = s.takeWhile inString ++ s.dropWhile inString :=
    List.takeWhile_append_dropWhile.symm
  cases hdrop : s.dropWhile inString with
  | nil =>
    rw [hdrop] at hsplit
    refine ⟨byte '"' :: s.takeWhile inString, [], by rw [List.cons_append, ← hsplit], ?_,
      .openString hw, by simp⟩
    nth_rewrite 1 [hsplit]
    exact nextToken_openString hw (by simp)
  | cons d rest =>
    rw [hdrop] at hsplit hstop
    have hd : inString d = false := hstop d rfl
    by_cases hquote : d = byte '"'
    · subst hquote
      refine ⟨byte '"' :: s.takeWhile inString ++ [byte '"'], rest, ?_, ?_, .lexeme (.string hw), by simp⟩
      · nth_rewrite 1 [hsplit]
        simp
      · nth_rewrite 1 [hsplit]
        exact nextToken_string hw
    · have hnewline : d = byte '\n' := by simpa [inString, hquote] using hd
      refine ⟨byte '"' :: s.takeWhile inString, d :: rest, by rw [List.cons_append, ← hsplit], ?_,
        .openString hw, by simp⟩
      nth_rewrite 1 [hsplit]
      exact nextToken_openString hw (by simpa using hnewline)

/-- What `nextToken` does with an input: it finds the end, or takes a token behind separators. A word is
    taken whole. -/
theorem nextToken_lexical (is : List UInt8) : (nextToken is = ([], []) ∧ Trailing is) ∨
    ∃ s t rest, is = s ++ (t ++ rest) ∧ nextToken is = (t, rest) ∧ Separator s ∧ t ≠ [] ∧ Token t ∧
      ((∀ c ∈ t, isalnum c = true) → ∀ c ∈ rest.head?, isalnum c = false) := by
  rcases separator_cases is with h | ⟨s, c, is, rfl, hs, hc⟩
  · exact Or.inl ⟨by rw [nextToken, h.skip], h⟩
  · refine Or.inr ?_
    rw [nextToken_skipped hs.skipped]
    by_cases hquote : c = byte '"'
    · subst hquote
      obtain ⟨t, rest, hsplit, hnext, htoken, hmem⟩ := string_cases is
      refine ⟨s, t, rest, by rw [hsplit], hnext, hs, List.ne_nil_of_mem hmem, htoken, fun hall => ?_⟩
      exact absurd (hall _ hmem) (by decide)
    · cases halnum : isalnum c with
      | false =>
        refine ⟨s, [c], is, rfl, nextToken_single hc hquote halnum, hs, by simp,
          .other halnum hquote, fun hall => ?_⟩
        rw [hall c (by simp)] at halnum
        cases halnum
      | true =>
        have hword : ∀ d ∈ c :: is.takeWhile isalnum, isalnum d = true :=
          List.forall_mem_cons.mpr ⟨halnum, fun d hd => List.mem_takeWhile_imp hd⟩
        have hend := Words.head_dropWhile isalnum is
        have hsplit : is = is.takeWhile isalnum ++ is.dropWhile isalnum :=
          List.takeWhile_append_dropWhile.symm
        refine ⟨s, c :: is.takeWhile isalnum, is.dropWhile isalnum, by rw [List.cons_append, ← hsplit],
          ?_, hs, by simp, .lexeme (.word (by simp) hword), fun _ => hend⟩
        nth_rewrite 1 [hsplit]
        exact nextToken_word hc hquote hword hend

/-! ### All tokens -/

theorem nextToken_shorter {is t rest : List UInt8} (h : nextToken is = (t, rest)) (hne : t ≠ []) :
    rest.length < is.length := by
  have hlen := @nextToken_length is
  rw [h] at hlen
  exact hlen hne

theorem token_of_mem {is t : List UInt8} (h : t ∈ tokens is) : Token t := by
  rcases nextToken_lexical is with ⟨hend, -⟩ | ⟨s, t', rest, -, hnext, -, hne, htoken, -⟩
  · rw [tokens_nil (by rw [hend])] at h
    exact absurd h (List.not_mem_nil)
  · rw [tokens_of_nextToken hnext hne] at h
    rcases List.mem_cons.mp h with rfl | hrest
    · exact htoken
    · have hshort := nextToken_shorter hnext hne
      exact token_of_mem hrest
termination_by is.length

theorem Text.tokens {ts : List (List UInt8)} {text : List UInt8} (h : Text ts text) :
    tokens text = ts := by
  induction h with
  | nil hs =>
    refine tokens_nil ?_
    rw [nextToken, hs.skip]
  | cons hs ht hnext _ ih =>
    obtain ⟨hne, htoken⟩ := ht.nextToken hnext
    rw [tokens_skipped hs.skipped, tokens_of_nextToken htoken hne, ih]

theorem text_tokens (is : List UInt8) (h : ∀ t ∈ tokens is, Lexeme t) : Text (tokens is) is := by
  rcases nextToken_lexical is with ⟨hend, htrailing⟩ | ⟨s, t, rest, hsplit, hnext, hs, hne, -, hword⟩
  · rw [tokens_nil (by rw [hend])]
    exact .nil htrailing
  · rw [tokens_of_nextToken hnext hne] at h ⊢
    rw [List.forall_mem_cons] at h
    have hshort := nextToken_shorter hnext hne
    rw [hsplit]
    exact .cons hs h.1 hword (text_tokens rest h.2)
termination_by is.length

/-- The lexer reads these words, strings and marks from exactly these texts. -/
theorem text_iff {ts : List (List UInt8)} {text : List UInt8} (h : ∀ t ∈ ts, Lexeme t) :
    Text ts text ↔ tokens text = ts := by
  constructor
  · exact Text.tokens
  · rintro rfl
    exact text_tokens text h

end NHA.Nhac
