import NativeHardwareAccess.Client.Language
import NativeHardwareAccess.Schemes.LittleEndian

/-! What a description means.

    A description is a list of messages, a message a list of items, an item a tag with the parts of its
    value. It is written as tokens, with separators between them (`Written`), and it means a list of
    records for each message (`Item.records`):

        messages ──Written──▶ text ──parse, parse, …──▶ records
            └───────────────Item.records──────────────────▲

    The diagram commutes but for one case: the default flags of a header stand in for parts that are
    given and have no bytes. -/

namespace NHA.Language
open Scheme NHA.Nhac

/-! ### Descriptions -/

/-- A part of a value. -/
inductive Part where
  | byte (b : UInt8)
  /-- Four bytes. -/
  | number (n : ℕ)
  /-- Eight bytes. -/
  | long (n : ℕ)
  | string (s : List UInt8)

/-- The bytes it stands for. -/
def Part.value : Part → List UInt8
  | .byte b => [b]
  | .number n => toLE 4 n
  | .long n => toLE 8 n
  | .string s => s

inductive Tag where
  | byte (b : UInt8)
  | header

structure Item where
  tag : Tag
  parts : List Part

def Item.value (item : Item) : List UInt8 := item.parts.flatMap Part.value

/-- The header with these flags. -/
def headerRecords (flags : List UInt8) : List TLV :=
  [⟨0x00, bytes "NHA1"⟩, ⟨0x01, [0x00, 0x00, 0x00, 0x01]⟩, ⟨0x02, [0x01]⟩, ⟨0x03, flags⟩]

/-- The records that an item means. A header without parts has the flags 0x00. -/
def Item.records (item : Item) : List TLV :=
  match item.tag with
  | .byte b => [⟨b, item.value⟩]
  | .header => headerRecords (if item.parts.isEmpty then [0x00] else item.value)

/-- The records of each message. -/
def meaning (messages : List (List Item)) : List (List TLV) :=
  messages.map (fun items => items.flatMap Item.records)

/-! ### Their texts -/

/-- A byte as `0xHH`, in any letter case. -/
inductive Hex : UInt8 → List UInt8 → Prop
  | mk {x high low : UInt8} (hx : x = byte 'x' ∨ x = byte 'X') (hhigh : isxdigit high = true)
      (hlow : isxdigit low = true) :
      Hex (UInt8.ofNat (16 * digitValue high + digitValue low)) [byte '0', x, high, low]

/-- The token of a part. -/
inductive Part.Spelled : Part → List UInt8 → Prop
  | byte {b : UInt8} {t : List UInt8} (h : Hex b t) : Spelled (.byte b) t
  | number {digits : List UInt8} (hne : digits ≠ []) (hdigits : ∀ c ∈ digits, isdigit c = true)
      (hlt : decimal digits < 2 ^ 32) : Spelled (.number (decimal digits)) digits
  | long {digits : List UInt8} {c : UInt8} (hne : digits ≠ [])
      (hdigits : ∀ c ∈ digits, isdigit c = true) (hc : c = Nhac.byte 'l' ∨ c = Nhac.byte 'L')
      (hlt : decimal digits < 2 ^ 64) : Spelled (.long (decimal digits)) (digits ++ [c])
  | string {w : List UInt8} (hw : ∀ c ∈ w, inString c = true) :
      Spelled (.string w) (Nhac.byte '"' :: w ++ [Nhac.byte '"'])

/-- The token of a tag. -/
inductive Tag.Spelled : Tag → List UInt8 → Prop
  | byte {b : UInt8} {t : List UInt8} (h : Hex b t) : Spelled (.byte b) t
  | header {t : List UInt8} (h : t = bytes "H" ∨ t = bytes "Header") : Spelled .header t

/-- The tokens of an item: its tag, and its parts in parentheses, which can be left out when there are
    no parts. -/
inductive Item.Spelled : Item → List (List UInt8) → Prop
  | bare {tag : Tag} {t : List UInt8} (htag : tag.Spelled t) : Spelled ⟨tag, []⟩ [t]
  | value {tag : Tag} {t : List UInt8} {parts : List Part} {ps : List (List UInt8)}
      (htag : tag.Spelled t) (hparts : List.Forall₂ Part.Spelled parts ps) :
      Spelled ⟨tag, parts⟩ (t :: bytes "(" :: (ps ++ [bytes ")"]))

/-- The tokens of a message. -/
def MessageSpelled (items : List Item) (ts : List (List UInt8)) : Prop :=
  ∃ its, List.Forall₂ Item.Spelled items its ∧ ts = bytes "\x7b" :: (its.flatten ++ [bytes "\x7d"])

/-- A text of these messages. -/
def Written (messages : List (List Item)) (text : List UInt8) : Prop :=
  ∃ tss, List.Forall₂ MessageSpelled messages tss ∧ Renders tss.flatten text

/-! ### Tokens and what they mean to the parser -/

theorem Hex.isHexByte {b : UInt8} {t : List UInt8} (h : Hex b t) :
    isHexByte t = true ∧ stoiHex t = b := by
  cases h with
  | mk hx hhigh hlow =>
    have hupper : ∀ x, x = byte 'x' ∨ x = byte 'X' → toupper x = byte 'X' := by decide +kernel
    refine ⟨?_, ?_⟩
    · simp [Nhac.isHexByte, hupper _ hx, hhigh, hlow]
    · simp [stoiHex]

/-- Digits with at most one more character are not taken for one: its second character is none. -/
theorem not_isHexByte {digits tail : List UInt8} (hdigits : ∀ c ∈ digits, isdigit c = true)
    (hne : digits ≠ []) (htail : tail.length ≤ 1) : isHexByte (digits ++ tail) = false := by
  by_contra h
  obtain ⟨x, high, low, ht, hupper⟩ := isHexByte_cases (Bool.not_eq_false _ ▸ h)
  have hclass : ∀ x : UInt8, toupper x = byte 'X' → isdigit x = false := by decide +kernel
  have hlen := congrArg List.length ht
  rw [List.length_append] at hlen
  have hlong : 2 ≤ digits.length := by
    simp only [List.length_cons, List.length_nil] at hlen
    omega
  obtain ⟨b, digits, rfl⟩ := List.exists_cons_of_ne_nil hne
  rw [List.length_cons] at hlong
  obtain ⟨y, digits, rfl⟩ := List.exists_cons_of_length_pos (l := digits) (by omega)
  have hy : y = x := by simpa using (List.cons.inj (List.cons.inj ht).2).1
  have hdigit := hdigits y (by simp)
  rw [hy, hclass x hupper] at hdigit
  cases hdigit

/-- A number of digits, with its last character. -/
theorem parsePart_number {digits : List UInt8} (tail : List UInt8) {back : UInt8}
    (hdigits : ∀ c ∈ digits, isdigit c = true) (hne : digits ≠ [])
    (htail : ∃ init, digits ++ tail = init ++ [back] ∧ ∀ c ∈ init, isdigit c = true)
    (hlen : tail.length ≤ 1) (hend : tail.takeWhile isdigit = [])
    (hback : isdigit back = true ∨ toupper back = byte 'L') (hlt : decimal digits < 2 ^ 64) :
    parsePart (digits ++ tail) =
      .ok (numberBytes (if isdigit back = true then 4 else 8) (decimal digits)) := by
  obtain ⟨init, hinit, hall⟩ := htail
  have hhead : (digits ++ tail).head? ≠ some (byte '"') := by
    intro h
    rw [List.head?_append_of_ne_nil _ hne] at h
    exact absurd (hdigits _ (List.mem_of_mem_head? h)) (by decide)
  have hlast : (digits ++ tail).getLastD 0 = back := by
    rw [hinit, List.getLastD_eq_getLast?, List.getLast?_concat]
    rfl
  have hdrop : (digits ++ tail).dropLast.all isdigit = true := by
    rw [hinit, List.dropLast_concat, List.all_eq_true]
    exact hall
  have hstoull : stoull (digits ++ tail) = .ok (decimal digits) := by
    rw [stoull, List.takeWhile_append_of_pos hdigits, hend, List.append_nil]
    rw [if_neg hne, if_neg (by exact Nat.not_le.mpr hlt)]
    rfl
  rw [parsePart, not_isHexByte hdigits hne hlen, if_neg (by simp), if_neg hhead, hlast, hdrop, hstoull]
  rw [if_pos (by simpa using hback)]

theorem parsePart_spelled {part : Part} {t : List UInt8} (h : part.Spelled t) :
    parsePart t = .ok part.value := by
  cases h with
  | byte h =>
    obtain ⟨hhex, hvalue⟩ := h.isHexByte
    rw [parsePart, if_pos hhex, hvalue]
    rfl
  | number hne hdigits hlt =>
    have hback := hdigits _ (List.getLast_mem hne)
    have hnumber := parsePart_number [] hdigits hne
      ⟨t.dropLast, by rw [List.append_nil, List.dropLast_append_getLast hne],
        fun c hc => hdigits c (List.mem_of_mem_dropLast hc)⟩ (by simp) rfl (Or.inl hback) (by omega)
    rw [List.append_nil, hback, if_pos rfl] at hnumber
    rw [hnumber, Part.value, toLE_eq_map_shift]
    rfl
  | @long digits c hne hdigits hc hlt =>
    have hclass : ∀ c, c = byte 'l' ∨ c = byte 'L' → isdigit c = false ∧ toupper c = byte 'L' := by
      decide +kernel
    obtain ⟨hdigit, hupper⟩ := hclass c hc
    have hnumber := parsePart_number [c] hdigits hne ⟨digits, rfl, hdigits⟩ (by simp)
      (by simp [hdigit]) (Or.inr hupper) hlt
    rw [hdigit, if_neg (by simp)] at hnumber
    rw [hnumber, Part.value, toLE_eq_map_shift]
    rfl
  | string hw => exact parsePart_string _

/-! ### What the parser makes of a description -/

/-- The records of a tag with this value. The flags 0x00 stand in for no bytes. -/
def Tag.parsed : Tag → List UInt8 → List TLV
  | .byte b, args => [⟨b, args⟩]
  | .header, args => headerRecords (if args = [] then [0x00] else args)

def Item.parsed (item : Item) : List TLV := item.tag.parsed item.value

theorem Tag.Spelled.plain {tag : Tag} {t : List UInt8} (h : tag.Spelled t) : Plain t := by
  cases h with
  | byte h => exact plain_hex h.isHexByte.1
  | header h =>
    rcases h with rfl | rfl
    · exact plain_word (by decide +kernel)
    · exact plain_word (by decide +kernel)

theorem itemTlvs_spelled {tag : Tag} {t : List UInt8} (h : tag.Spelled t) (args : List UInt8) :
    itemTlvs t args = .ok (tag.parsed args) := by
  cases h with
  | byte h =>
    obtain ⟨hhex, hvalue⟩ := h.isHexByte
    rw [itemTlvs_hex hhex, hvalue]
    rfl
  | header h =>
    rw [itemTlvs, if_pos h]
    rfl

/-- The tokens of an item start with its tag. -/
theorem Item.Spelled.head {item : Item} {ts : List (List UInt8)} (h : item.Spelled ts) :
    ∃ t ts', ts = t :: ts' ∧ Plain t := by
  cases h with
  | bare htag => exact ⟨_, _, rfl, htag.plain⟩
  | value htag _ => exact ⟨_, _, rfl, htag.plain⟩

section
variable {done : List (List TLV)} {tlvs : List TLV}

/-- The parts of a value. -/
theorem accept_parts {tagId : List UInt8} {parts : List Part} {ps : List (List UInt8)}
    (h : List.Forall₂ Part.Spelled parts ps) (args : List UInt8) (rest : List (List UInt8)) :
    accept (.inValue done tlvs tagId args) (ps ++ bytes ")" :: rest) =
      (itemTlvs tagId (args ++ parts.flatMap Part.value)).toOption.bind (fun records =>
        accept (.items done (tlvs ++ records)) rest) := by
  induction h generalizing args with
  | nil =>
    rw [List.nil_append, accept_cons, step, if_pos rfl, Option.bind_map, List.flatMap_nil,
      List.append_nil]
    rfl
  | @cons part t parts ps hpart _ ih =>
    have hvalue := parsePart_spelled hpart
    have hopen : t ≠ bytes ")" := by
      rintro rfl
      rw [show parsePart (bytes ")") = .error (unexpected (bytes ")") "value or ')'") from rfl] at hvalue
      cases hvalue
    rw [List.cons_append, accept_cons, step, if_neg hopen, hvalue, Option.bind_map,
      List.flatMap_cons, ← List.append_assoc, ← ih]
    rfl

/-- An item, which is complete with the token behind it. -/
theorem accept_item {item : Item} {ts rest : List (List UInt8)} (h : item.Spelled ts)
    (hrest : rest.head? ≠ some (bytes "(")) :
    accept (.items done tlvs) (ts ++ rest) = accept (.items done (tlvs ++ item.parsed)) rest := by
  cases h with
  | @bare tag t htag =>
    rw [List.singleton_append, accept_cons, step, head_plain htag.plain, Option.bind_some]
    cases rest with
    | nil => rfl
    | cons next rest =>
      have hnext : next ≠ bytes "(" := fun h => hrest (congrArg some h)
      rw [accept_cons, accept_cons, step, step, if_neg hnext, itemTlvs_spelled htag]
      rfl
  | @value tag t parts ps htag hparts =>
    rw [List.cons_append, List.cons_append, List.append_assoc, accept_cons, step,
      head_plain htag.plain, Option.bind_some, accept_cons, step, if_pos rfl, Option.bind_some,
      List.singleton_append, accept_parts hparts, List.nil_append, itemTlvs_spelled htag]
    rfl

/-- The items up to the closing brace. -/
theorem accept_items {items : List Item} {its : List (List (List UInt8))}
    (h : List.Forall₂ Item.Spelled items its) (rest : List (List UInt8)) :
    accept (.items done tlvs) (its.flatten ++ bytes "\x7d" :: rest) =
      accept (.outside (done ++ [tlvs ++ items.flatMap Item.parsed])) rest := by
  induction h generalizing tlvs with
  | nil =>
    rw [List.flatten_nil, List.nil_append, accept_cons, step, NHA.Language.head, if_pos rfl,
      List.flatMap_nil, List.append_nil]
    rfl
  | @cons item ts items its hitem hitems ih =>
    have hnext : (its.flatten ++ bytes "\x7d" :: rest).head? ≠ some (bytes "(") := by
      cases hitems with
      | nil =>
        rw [List.flatten_nil, List.nil_append, List.head?_cons]
        decide
      | cons hnext _ =>
        obtain ⟨t, ts', rfl, hplain⟩ := hnext.head
        exact fun h => hplain.2.2.1 (Option.some.inj h)
    rw [List.flatten_cons, List.append_assoc, accept_item hitem hnext, ih, List.flatMap_cons,
      List.append_assoc]

end

/-- The messages. -/
theorem accept_messages {messages : List (List Item)} {tss : List (List (List UInt8))}
    (h : List.Forall₂ MessageSpelled messages tss) (done : List (List TLV)) :
    accept (.outside done) tss.flatten =
      some (done ++ messages.map (fun items => items.flatMap Item.parsed)) := by
  induction h generalizing done with
  | nil =>
    rw [List.map_nil, List.append_nil]
    rfl
  | @cons items ts messages tss hmessage _ ih =>
    obtain ⟨its, hits, rfl⟩ := hmessage
    rw [List.flatten_cons, List.cons_append, List.append_assoc, accept_cons, step, if_pos rfl,
      Option.bind_some, List.singleton_append, accept_items hits, ih, List.nil_append, List.map_cons,
      List.append_assoc, List.singleton_append]

/-- A text of these messages gives the records that the parser makes of them, and nothing else. -/
theorem Written.yields_iff {messages : List (List Item)} {text : List UInt8} (h : Written messages text)
    (ms : List (List TLV)) :
    Yields text ms ↔ messages.map (fun items => items.flatMap Item.parsed) = ms := by
  obtain ⟨tss, hmessages, hrenders⟩ := h
  rw [yields_iff_accept, hrenders.tokens, accept_messages hmessages, List.nil_append, Option.some.injEq]

/-! ### Where it is what the description means -/

/-- Only parts that are all empty strings have no bytes. -/
theorem Item.value_eq_nil_iff (item : Item) : item.value = [] ↔ ∀ part ∈ item.parts, part = .string [] := by
  rw [Item.value, List.flatMap_eq_nil_iff]
  refine forall₂_congr fun part _ => ?_
  cases part with
  | byte b => simp [Part.value]
  | number n => simp [Part.value, toLE]
  | long n => simp [Part.value, toLE]
  | string s => simp [Part.value]

/-- The parser makes of an item what it means, unless a header is given nothing but empty strings. -/
theorem Item.parsed_eq_records_iff (item : Item) : item.parsed = item.records ↔
    (item.tag = .header → item.parts ≠ [] → ∃ part ∈ item.parts, part ≠ .string []) := by
  obtain ⟨tag, parts⟩ := item
  cases tag with
  | byte b => exact iff_of_true rfl (fun h => nomatch h)
  | header =>
    cases parts with
    | nil => exact iff_of_true rfl (fun _ hne => absurd rfl hne)
    | cons part parts =>
      have hflags : ∀ flags flags', headerRecords flags = headerRecords flags' ↔ flags = flags' := by
        simp [headerRecords]
      have hgiven : Item.records ⟨.header, part :: parts⟩ =
          headerRecords (Item.value ⟨.header, part :: parts⟩) := rfl
      have hnil := Item.value_eq_nil_iff ⟨.header, part :: parts⟩
      rw [hgiven, Item.parsed, Tag.parsed, hflags]
      split_ifs with h
      · -- the default flags are a byte that the value does not have
        refine iff_of_false (by simp [h]) (fun hkept => ?_)
        obtain ⟨p, hp, hne⟩ := hkept rfl (by simp)
        exact hne (hnil.mp h p hp)
      · refine iff_of_true rfl (fun _ _ => ?_)
        by_contra hall
        push Not at hall
        exact h (hnil.mpr hall)

theorem Item.length_parsed (item : Item) : item.parsed.length = item.records.length := by
  obtain ⟨tag, parts⟩ := item
  cases tag with
  | byte b => rfl
  | header => rfl

/-- Lists that are put together from pieces of the same lengths are equal piece by piece. -/
theorem flatMap_eq_flatMap_iff {α β : Type} {f g : α → List β} {l : List α}
    (h : ∀ x, (f x).length = (g x).length) : l.flatMap f = l.flatMap g ↔ ∀ x ∈ l, f x = g x := by
  induction l with
  | nil => simp
  | cons x l ih =>
    rw [List.flatMap_cons, List.flatMap_cons, List.forall_mem_cons, ← ih]
    constructor
    · exact fun heq => List.append_inj heq (h x)
    · rintro ⟨hx, hl⟩
      rw [hx, hl]

/-- Repeated calls of `parse` on a text of a description return what the description means, and then
    false, exactly when each header with parts has one that is not the empty string. -/
theorem written_yields_meaning_iff (messages : List (List Item)) (text : List UInt8)
    (h : Written messages text) :
    Yields text (meaning messages) ↔ ∀ items ∈ messages, ∀ item ∈ items, item.tag = .header →
      item.parts ≠ [] → ∃ part ∈ item.parts, part ≠ .string [] := by
  rw [h.yields_iff, meaning, List.map_inj_left]
  refine forall₂_congr fun items _ => ?_
  rw [flatMap_eq_flatMap_iff Item.length_parsed]
  exact forall₂_congr fun item _ => item.parsed_eq_records_iff

/-- User data behind a header. -/
theorem written_userData :
    Written [[⟨.header, []⟩, ⟨.byte 0x04, [.string (bytes "a"), .number 7]⟩]]
      (bytes "\x7bH 0x04(\"a\" 7)\x7d") := by
  have htext : bytes "\x7bH 0x04(\"a\" 7)\x7d" = [] ++ (bytes "\x7b" ++ ([] ++ (bytes "H" ++
      ([0x20] ++ (bytes "0x04" ++ ([] ++ (bytes "(" ++ ([] ++ (bytes "\"a\"" ++ ([0x20] ++ (bytes "7" ++
        ([] ++ (bytes ")" ++ ([] ++ (bytes "\x7d" ++ []))))))))))))))) := by decide +kernel
  refine ⟨[[bytes "\x7b", bytes "H", bytes "0x04", bytes "(", bytes "\"a\"", bytes "7", bytes ")",
    bytes "\x7d"]], .cons ?_ .nil, ?_⟩
  · refine ⟨[[bytes "H"], [bytes "0x04", bytes "(", bytes "\"a\"", bytes "7", bytes ")"]], ?_, rfl⟩
    have hstring : Part.Spelled (.string (bytes "a")) (bytes "\"a\"") := .string (by decide +kernel)
    have hnumber : Part.Spelled (.number 7) (bytes "7") :=
      @Part.Spelled.number (bytes "7") (by decide) (by decide +kernel) (by decide +kernel)
    have htag : Tag.Spelled (.byte 0x04) (bytes "0x04") :=
      .byte (@Hex.mk (byte 'x') (byte '0') (byte '4') (Or.inl rfl) (by decide) (by decide))
    exact .cons (.bare (.header (Or.inl rfl))) (.cons (.value htag (.cons hstring (.cons hnumber .nil))) .nil)
  · have hblank : Separator [0x20] := .blank (Or.inl (by decide)) .nil
    rw [htext]
    refine .cons .nil (.mark (by decide)) (by decide +kernel) ?_
    refine .cons .nil (.word (by decide) (by decide +kernel)) (by decide +kernel) ?_
    refine .cons hblank (.word (by decide) (by decide +kernel)) (by decide +kernel) ?_
    refine .cons .nil (.mark (by decide)) (by decide +kernel) ?_
    refine .cons .nil (@Lexeme.string (bytes "a") (by decide +kernel)) (by decide +kernel) ?_
    refine .cons hblank (.word (by decide) (by decide +kernel)) (by decide +kernel) ?_
    refine .cons .nil (.mark (by decide)) (by decide +kernel) ?_
    exact .cons .nil (.mark (by decide)) (by decide +kernel) (.nil .nil)

theorem written_yields_userData :
    Yields (bytes "\x7bH 0x04(\"a\" 7)\x7d")
      (meaning [[⟨.header, []⟩, ⟨.byte 0x04, [.string (bytes "a"), .number 7]⟩]]) := by
  refine (written_yields_meaning_iff _ _ written_userData).mpr ?_
  simp

/-- Flags without bytes. -/
theorem written_emptyFlags : Written [[⟨.header, [.string []]⟩]] (bytes "\x7bH(\"\")\x7d") := by
  have htext : bytes "\x7bH(\"\")\x7d" = [] ++ (bytes "\x7b" ++ ([] ++ (bytes "H" ++ ([] ++ (bytes "(" ++
      ([] ++ (bytes "\"\"" ++ ([] ++ (bytes ")" ++ ([] ++ (bytes "\x7d" ++ []))))))))))) := by
    decide +kernel
  refine ⟨[[bytes "\x7b", bytes "H", bytes "(", bytes "\"\"", bytes ")", bytes "\x7d"]], .cons ?_ .nil, ?_⟩
  · refine ⟨[[bytes "H", bytes "(", bytes "\"\"", bytes ")"]], ?_, rfl⟩
    have hstring : Part.Spelled (.string []) (bytes "\"\"") := @Part.Spelled.string [] (by simp)
    exact .cons (.value (.header (Or.inl rfl)) (.cons hstring .nil)) .nil
  · rw [htext]
    refine .cons .nil (.mark (by decide)) (by decide +kernel) ?_
    refine .cons .nil (.word (by decide) (by decide +kernel)) (by decide +kernel) ?_
    refine .cons .nil (.mark (by decide)) (by decide +kernel) ?_
    refine .cons .nil (@Lexeme.string [] (by simp)) (by decide +kernel) ?_
    refine .cons .nil (.mark (by decide)) (by decide +kernel) ?_
    exact .cons .nil (.mark (by decide)) (by decide +kernel) (.nil .nil)

/-- They become the default flags. -/
theorem emptyFlags_replaced : Written [[⟨.header, [.string []]⟩]] (bytes "\x7bH(\"\")\x7d") ∧
    ¬ Yields (bytes "\x7bH(\"\")\x7d") (meaning [[⟨.header, [.string []]⟩]]) ∧
    Yields (bytes "\x7bH(\"\")\x7d") [headerRecords [0x00]] := by
  exact ⟨written_emptyFlags, by decide +kernel, by decide +kernel⟩

end NHA.Language
