import NativeHardwareAccess.Client.Language

/-! Tag aliases in place of tags.

    Where a tag is expected, a name from the table `tagAliases` stands for its byte. The table has names
    with an underscore, which is no character of a word:

        { 0x04 }         ──▶   {  0x04  }              u(…)
        { u }            ──▶   {  u  }                 the same
        { user_data }    ──▶   {  user  _  data  }     refused

    So a name can take the place of a tag exactly when it has none. -/

namespace NHA.Language
open Scheme NHA.Nhac

/-- An item or the end of a message is expected. -/
def State.ExpectsTag : State → Prop
  | .items _ _ | .tagged _ _ _ => True
  | _ => False

/-- In the text `pre ++ (hex ++ post)` the hexadecimal identifier `hex` stands in tag position: the
    lexer comes to it as a token, where the parser expects a tag. -/
structure TagAt (pre hex post : List UInt8) : Prop where
  isHexByte : isHexByte hex = true
  position : ∃ before mid s, Reads (pre ++ (hex ++ post)) before mid ∧ nextToken mid = (hex, post) ∧
    Machine.run step (.outside []) before = some s ∧ s.ExpectsTag

/-! ### Tokens in tag position -/

/-- In tag position a token without braces and parentheses becomes the tag identifier, whatever it is. -/
theorem exists_tagged {s : State} (hs : s.ExpectsTag) : ∃ place : Option (List (List TLV) × List TLV),
    ∀ token, Plain token → ∀ ts, accept s (token :: ts) =
      place.bind (fun p => accept (.tagged p.1 p.2 token) ts) := by
  cases s with
  | outside done => exact absurd hs id
  | items done tlvs =>
    refine ⟨some (done, tlvs), fun token hplain ts => ?_⟩
    rw [accept_cons, step, head_plain hplain]
    rfl
  | tagged done tlvs tagId =>
    refine ⟨(itemTlvs tagId []).toOption.map (fun records => (done, tlvs ++ records)),
      fun token hplain ts => ?_⟩
    rw [accept_cons, step, if_neg hplain.2.2.1, Option.bind_assoc, Option.bind_map]
    refine congrArg _ (funext fun records => ?_)
    rw [head_plain hplain]
    rfl
  | inValue done tlvs tagId args => exact absurd hs id

section
variable {a b : List UInt8}

/-- Two identifiers of the same records are the same to the grammar. -/
theorem accept_inValue_congr (h : ∀ args, itemTlvs a args = itemTlvs b args) (done : List (List TLV))
    (tlvs : List TLV) (ts : List (List UInt8)) (args : List UInt8) :
    accept (.inValue done tlvs a args) ts = accept (.inValue done tlvs b args) ts := by
  induction ts generalizing args with
  | nil => rfl
  | cons t ts ih =>
    rw [accept_cons, accept_cons, step, step, h]
    split_ifs with hclose
    · rfl
    · rw [Option.bind_map, Option.bind_map]
      exact congrArg _ (funext fun part => ih (args ++ part))

theorem accept_tagged_congr (h : ∀ args, itemTlvs a args = itemTlvs b args) (done : List (List TLV))
    (tlvs : List TLV) (ts : List (List UInt8)) :
    accept (.tagged done tlvs a) ts = accept (.tagged done tlvs b) ts := by
  cases ts with
  | nil => rfl
  | cons t ts =>
    rw [accept_cons, accept_cons, step, step, h]
    split_ifs with hopen
    · exact accept_inValue_congr h done tlvs ts []
    · rfl

end

/-! ### Names of the table -/

theorem itemTlvs_alias {name : List UInt8} {tag : UInt8} (h : (name, tag) ∈ tagAliases)
    (args : List UInt8) : itemTlvs name args = .ok [⟨tag, args⟩] := by
  have htable : ∀ p ∈ tagAliases, ¬ (p.1 = bytes "H" ∨ p.1 = bytes "Header") ∧
      isHexByte p.1 = false ∧ tagAliases.lookup p.1 = some p.2 := by decide +kernel
  obtain ⟨hheader, hhex, hlookup⟩ := htable _ h
  rw [itemTlvs, if_neg hheader, hhex, if_neg (by simp), hlookup]

/-- A name without an underscore is a word. -/
theorem alias_word {name : List UInt8} {tag : UInt8} (h : (name, tag) ∈ tagAliases)
    (hunder : byte '_' ∉ name) : name ≠ [] ∧ ∀ c ∈ name, isalnum c = true := by
  have htable : ∀ p ∈ tagAliases, byte '_' ∉ p.1 → p.1 ≠ [] ∧ p.1.all isalnum = true := by
    decide +kernel
  obtain ⟨hne, hall⟩ := htable _ h hunder
  exact ⟨hne, List.all_eq_true.mp hall⟩

/-- Up to its first underscore, a name of the table is a word that is not in the table. -/
theorem alias_underscore {name : List UInt8} {tag : UInt8} (h : (name, tag) ∈ tagAliases)
    (hunder : byte '_' ∈ name) : ∃ w r, name = w ++ byte '_' :: r ∧ w ≠ [] ∧
      (∀ c ∈ w, isalnum c = true) ∧ (itemTlvs w []).toOption = none := by
  have htable : ∀ p ∈ tagAliases, byte '_' ∈ p.1 →
      p.1 = p.1.takeWhile isalnum ++ byte '_' :: (p.1.dropWhile isalnum).tail ∧
      p.1.takeWhile isalnum ≠ [] ∧ (itemTlvs (p.1.takeWhile isalnum) []).toOption.isNone = true := by
    decide +kernel
  obtain ⟨hsplit, hne, hnone⟩ := htable _ h hunder
  exact ⟨_, _, hsplit, hne, fun c hc => List.mem_takeWhile_imp hc, Option.isNone_iff_eq_none.mp hnone⟩

/-! ### Replacing a tag -/

/-- Whitespace, at least one. -/
def Whitespace (ws : List UInt8) : Prop := ws ≠ [] ∧ ∀ c ∈ ws, isspace c = true

instance (ws : List UInt8) : Decidable (Whitespace ws) := inferInstanceAs (Decidable (_ ∧ _))

theorem Whitespace.skipped {ws : List UInt8} (h : Whitespace ws) : Skipped ws := by
  have hsep : ∀ s : List UInt8, (∀ c ∈ s, isspace c = true) → Separator s := by
    intro s hs
    induction s with
    | nil => exact .nil
    | cons c s ih =>
      rw [List.forall_mem_cons] at hs
      exact .blank (Or.inl hs.1) (ih hs.2)
  exact (hsep ws h.2).skipped

/-- A word ends before whitespace. -/
theorem tokens_word {w ws post : List UInt8} (hne : w ≠ []) (hw : ∀ c ∈ w, isalnum c = true)
    (hws : Whitespace ws) : tokens (w ++ (ws ++ post)) = w :: tokens post := by
  have hend : ∀ c ∈ (ws ++ post).head?, isalnum c = false := by
    have hclass : ∀ c : UInt8, isspace c = true → isalnum c = false := by decide +kernel
    intro c hc
    rw [List.head?_append_of_ne_nil _ hws.1] at hc
    exact hclass c (hws.2 c (List.mem_of_mem_head? hc))
  obtain ⟨-, htoken⟩ := (Lexeme.word hne hw).nextToken (fun _ => hend)
  rw [tokens_of_nextToken htoken hne, tokens_skipped hws.skipped]

/-- A word ends before an underscore, which is a token of its own. -/
theorem tokens_underscore {w r : List UInt8} (hne : w ≠ []) (hw : ∀ c ∈ w, isalnum c = true) :
    tokens (w ++ byte '_' :: r) = w :: [byte '_'] :: tokens r := by
  have hend : ∀ c ∈ (byte '_' :: r).head?, isalnum c = false := by
    rintro c hc
    obtain rfl := Option.some.inj hc
    decide
  obtain ⟨-, htoken⟩ := (Lexeme.word hne hw).nextToken (fun _ => hend)
  have hunder : nextToken (byte '_' :: r) = ([byte '_'], r) :=
    nextToken_single (by decide) (by decide) (by decide)
  rw [tokens_of_nextToken htoken hne, tokens_of_nextToken hunder (by simp)]

/-- The tokens before a tag in tag position are read whatever takes its place behind whitespace. -/
theorem TagAt.replaced {pre hex post : List UInt8} (h : TagAt pre hex post) :
    ∃ before s, Machine.run step (.outside []) before = some s ∧ s.ExpectsTag ∧
      tokens (pre ++ (hex ++ post)) = before ++ hex :: tokens post ∧
      ∀ ws other, Whitespace ws → tokens (pre ++ (ws ++ other)) = before ++ tokens other := by
  obtain ⟨before, mid, s, hreads, hnext, hrun, hs⟩ := h.position
  have hne : hex ≠ [] := by
    rintro rfl
    exact absurd h.isHexByte (by decide)
  refine ⟨before, s, hrun, hs, ?_, fun ws other hws => ?_⟩
  · rw [hreads.tokens, tokens_of_nextToken hnext hne]
  · obtain ⟨start, hstart, hreplace⟩ := hreads.replace
    rcases nextToken_cases mid with hnil | ⟨gap, token, rest, rfl, hnext', hgap, -⟩
    · rw [hnil] at hnext
      exact absurd (Prod.mk.inj hnext).1.symm hne
    · obtain ⟨rfl, rfl⟩ := Prod.mk.inj (hnext'.symm.trans hnext)
      have hpre : pre = start ++ gap := by
        rw [← List.append_assoc start gap] at hstart
        exact List.append_cancel_right hstart
      have hfollows : Follows (gap ++ (token ++ rest)) (gap ++ (ws ++ other)) := by
        cases gap with
        | nil =>
          obtain ⟨x, high, low, rfl, -⟩ := isHexByte_cases h.isHexByte
          exact Or.inr ⟨byte '0', rfl, by decide⟩
        | cons c gap => exact Or.inl rfl
      rw [hpre, List.append_assoc, (hreplace _ hfollows).tokens, tokens_skipped hgap,
        tokens_skipped hws.skipped]

/-- In an accepted text, a name of the same byte takes the place of a tag exactly when it has no
    underscore. -/
theorem alias_replaces_iff (pre hex post : List UInt8) (ms : List (List TLV))
    (haccepted : Yields (pre ++ (hex ++ post)) ms) (hat : TagAt pre hex post) (name : List UInt8)
    (hname : (name, stoiHex hex) ∈ tagAliases) (ws ws' : List UInt8) (hws : Whitespace ws)
    (hws' : Whitespace ws') :
    Yields (pre ++ (ws ++ (name ++ (ws' ++ post)))) ms ↔ byte '_' ∉ name := by
  obtain ⟨before, s, hrun, hs, htokens, hreplaced⟩ := hat.replaced
  obtain ⟨place, hplace⟩ := exists_tagged hs
  rw [yields_iff_accept, htokens, accept_append, hrun, Option.bind_some,
    hplace hex (plain_hex hat.isHexByte)] at haccepted
  rw [yields_iff_accept, hreplaced ws _ hws, accept_append, hrun, Option.bind_some]
  constructor
  · -- the word before the underscore is refused as a tag
    intro haccept hunder
    obtain ⟨w, r, rfl, hne, hw, hnone⟩ := alias_underscore hname hunder
    rw [List.append_assoc, List.cons_append, tokens_underscore hne hw, hplace w (plain_word hw)] at haccept
    obtain ⟨p, -, hstuck⟩ := Option.bind_eq_some_iff.mp haccept
    rw [accept_cons, step, if_neg (by decide), hnone] at hstuck
    cases hstuck
  · intro hunder
    obtain ⟨hne, hw⟩ := alias_word hname hunder
    rw [tokens_word hne hw hws', hplace name (plain_word hw), ← haccepted]
    refine congrArg _ (funext fun p => accept_tagged_congr (fun args => ?_) _ _ _)
    rw [itemTlvs_alias hname, itemTlvs_hex hat.isHexByte]

/-! ### User data -/

theorem yields_userData : Yields (bytes "\x7b0x04\x7d") [[⟨0x04, []⟩]] := by
  decide +kernel

theorem tagAt_userData : TagAt (bytes "\x7b") (bytes "0x04") (bytes "\x7d") := by
  have hopen : nextToken (bytes "\x7b0x04\x7d") = (bytes "\x7b", bytes "0x04\x7d") := by decide +kernel
  have htag : nextToken (bytes "0x04\x7d") = (bytes "0x04", bytes "\x7d") := by decide +kernel
  exact ⟨by decide, [bytes "\x7b"], bytes "0x04\x7d", .items [] [], .cons hopen (by decide) (.nil _),
    htag, rfl, trivial⟩

theorem alias_replaces_userData : Yields (bytes "\x7b u \x7d") [[⟨0x04, []⟩]] :=
  (alias_replaces_iff (bytes "\x7b") (bytes "0x04") (bytes "\x7d") [[⟨0x04, []⟩]] yields_userData
    tagAt_userData (bytes "u") (by decide +kernel) [0x20] [0x20] (by decide +kernel)
    (by decide +kernel)).mpr (by decide)

/-- The long name of the same tag is refused. -/
theorem userData_refused : Yields (bytes "\x7b0x04\x7d") [[⟨0x04, []⟩]] ∧
    TagAt (bytes "\x7b") (bytes "0x04") (bytes "\x7d") ∧
    (bytes "user_data", stoiHex (bytes "0x04")) ∈ tagAliases ∧
    ¬ Yields (bytes "\x7b user_data \x7d") [[⟨0x04, []⟩]] := by
  exact ⟨yields_userData, tagAt_userData, by decide +kernel, by decide +kernel⟩

end NHA.Language
