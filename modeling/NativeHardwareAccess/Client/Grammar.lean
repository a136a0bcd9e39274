import NativeHardwareAccess.Client.Lexical
import NativeHardwareAccess.Client.Rendering

/-! The language that the client accepts.

    `Rendering` says what becomes of a description that is written as documented. Here is all that is
    accepted, with the same items and parts behind it:

        text    ::= message …                separators everywhere, at the end also an open comment
        message ::= { item … }
        item    ::= tag  |  tag ( part … )
        tag     ::= 0xHH  |  H  |  Header  |  an alias of letters and digits
        part    ::= 0xHH  |  digits  |  digits L  |  "characters"

    Numbers have up to 64 bits, of which a plain one keeps the low 32. Every text of this grammar gives
    its messages, and on every other text a call of `parse` throws. -/

namespace NHA.Language
open Scheme NHA.Nhac

/-! ### The grammar -/

/-- The tokens that are taken for a part. -/
inductive Part.Accepted : Part → List UInt8 → Prop
  | spelled {part : Part} {t : List UInt8} (h : part.Spelled t) : Accepted part t
  /-- Of more than 32 bits the low ones are kept. -/
  | wide {digits : List UInt8} (hne : digits ≠ []) (hdigits : ∀ c ∈ digits, isdigit c = true)
      (hlt : decimal digits < 2 ^ 64) : Accepted (.number (decimal digits)) digits

/-- The tokens that are taken for a tag. -/
inductive Tag.Accepted : Tag → List UInt8 → Prop
  | spelled {tag : Tag} {t : List UInt8} (h : tag.Spelled t) : Accepted tag t
  | named {b : UInt8} {t : List UInt8} (h : (t, b) ∈ tagAliases) (ht : ∀ c ∈ t, isalnum c = true) :
      Accepted (.byte b) t

inductive Item.Accepted : Item → List (List UInt8) → Prop
  | bare {tag : Tag} {t : List UInt8} (htag : tag.Accepted t) : Accepted ⟨tag, []⟩ [t]
  | value {tag : Tag} {t : List UInt8} {parts : List Part} {ps : List (List UInt8)}
      (htag : tag.Accepted t) (hparts : List.Forall₂ Part.Accepted parts ps) :
      Accepted ⟨tag, parts⟩ (t :: bytes "(" :: (ps ++ [bytes ")"]))

def MessageAccepted (items : List Item) (ts : List (List UInt8)) : Prop :=
  ∃ its, List.Forall₂ Item.Accepted items its ∧ ts = bytes "\x7b" :: (its.flatten ++ [bytes "\x7d"])

/-- A text of the grammar, with the messages behind it. -/
def Accepted (messages : List (List Item)) (text : List UInt8) : Prop :=
  ∃ tss, List.Forall₂ MessageAccepted messages tss ∧ Text tss.flatten text

/-- The records of each message. -/
def parsed (messages : List (List Item)) : List (List TLV) :=
  messages.map (fun items => items.flatMap Item.parsed)

/-! ### Parts and tags -/

theorem isalnum_of_isdigit {c : UInt8} (h : isdigit c = true) : isalnum c = true := by
  rw [isalnum, h, Bool.true_or]

theorem Hex.lexeme {b : UInt8} {t : List UInt8} (h : Hex b t) : Lexeme t := by
  have hhex : ∀ c : UInt8, isxdigit c = true → isalnum c = true := by decide +kernel
  have hletter : ∀ c : UInt8, c = byte 'x' ∨ c = byte 'X' → isalnum c = true := by decide +kernel
  cases h with
  | mk hx hhigh hlow =>
    refine .word (by simp) ?_
    simp only [List.forall_mem_cons, hhex _ hhigh, hhex _ hlow, hletter _ hx, true_and]
    exact ⟨by decide, by simp⟩

theorem Part.Accepted.lexeme {part : Part} {t : List UInt8} (h : part.Accepted t) : Lexeme t := by
  have hletter : ∀ c : UInt8, c = Nhac.byte 'l' ∨ c = Nhac.byte 'L' → isalnum c = true := by
    decide +kernel
  cases h with
  | spelled h =>
    cases h with
    | byte h => exact h.lexeme
    | number hne hdigits => exact .word hne (fun c hc => isalnum_of_isdigit (hdigits c hc))
    | long hne hdigits hc =>
      refine .word (by simp) (fun d hd => ?_)
      rcases List.mem_append.mp hd with hmem | hlast
      · exact isalnum_of_isdigit (hdigits d hmem)
      · rw [List.mem_singleton.mp hlast]
        exact hletter _ hc
    | string hw => exact .string hw
  | wide hne hdigits => exact .word hne (fun c hc => isalnum_of_isdigit (hdigits c hc))

theorem Tag.Accepted.lexeme {tag : Tag} {t : List UInt8} (h : tag.Accepted t) :
    Lexeme t ∧ Plain t := by
  have hnil : ∀ a ∈ tagAliases, a.1 ≠ [] := by decide +kernel
  cases h with
  | spelled h =>
    refine ⟨?_, h.plain⟩
    cases h with
    | byte h => exact h.lexeme
    | header h =>
      rcases h with rfl | rfl
      · exact .word (by decide) (by decide +kernel)
      · exact .word (by decide) (by decide +kernel)
  | named h ht => exact ⟨.word (hnil _ h) ht, plain_word ht⟩

theorem parsePart_accepted {part : Part} {t : List UInt8} (h : part.Accepted t) :
    parsePart t = .ok part.value := by
  cases h with
  | spelled h => exact parsePart_spelled h
  | wide hne hdigits hlt =>
    have hback := hdigits _ (List.getLast_mem hne)
    have hnumber := parsePart_number [] hdigits hne
      ⟨t.dropLast, by rw [List.append_nil, List.dropLast_append_getLast hne],
        fun c hc => hdigits c (List.mem_of_mem_dropLast hc)⟩ (by simp) rfl (Or.inl hback) hlt
    rw [List.append_nil, hback, if_pos rfl] at hnumber
    rw [hnumber, Part.value, toLE_eq_map_shift]
    rfl

/-- A hexadecimal byte in either spelling. -/
theorem hex_of_isHexByte {t : List UInt8} (h : isHexByte t = true) : Hex (stoiHex t) t := by
  have hx : ∀ x : UInt8, toupper x = byte 'X' → x = byte 'x' ∨ x = byte 'X' := by decide +kernel
  rw [isHexByte.eq_def] at h
  split at h
  · rename_i a x high low
    simp only [Bool.and_eq_true, decide_eq_true_eq] at h
    obtain ⟨⟨⟨rfl, hupper⟩, hhigh⟩, hlow⟩ := h
    have hvalue : stoiHex [byte '0', x, high, low] =
        UInt8.ofNat (16 * digitValue high + digitValue low) := by simp [stoiHex]
    rw [hvalue]
    exact .mk (hx x hupper) hhigh hlow
  · cases h

/-- A number that is read: digits, and an L behind those of a long one. -/
theorem accepted_of_number {t v : List UInt8} {back : UInt8} {init : List UInt8} (ht : t = init ++ [back])
    (hinit : ∀ c ∈ init, isdigit c = true) (hback : isdigit back = true ∨ toupper back = byte 'L')
    {num : ℕ} (hnum : stoull t = .ok num) (hv : numberBytes (if isdigit back then 4 else 8) num = v) :
    ∃ part : Part, part.Accepted t ∧ part.value = v := by
  rw [stoull] at hnum
  split_ifs at hnum with hne hlt
  obtain rfl := Except.ok.inj hnum
  rw [Nat.not_le] at hlt
  cases hdigit : isdigit back with
  | true =>
    have hall : ∀ c ∈ t, isdigit c = true := by
      rw [ht, List.forall_mem_append]
      exact ⟨hinit, by simpa using hdigit⟩
    rw [List.takeWhile_eq_self_iff.mpr hall] at hne hlt hv
    refine ⟨.number (decimal t), .wide hne hall hlt, ?_⟩
    rw [← hv, hdigit, if_pos rfl, Part.value, toLE_eq_map_shift]
    rfl
  | false =>
    have hL : ∀ c : UInt8, toupper c = byte 'L' → c = byte 'l' ∨ c = byte 'L' := by decide +kernel
    have hupper : toupper back = byte 'L' := by simpa [hdigit] using hback
    have htake : t.takeWhile isdigit = init := by
      rw [ht, List.takeWhile_append_of_pos hinit]
      simp [hdigit]
    rw [htake] at hne hlt hv
    refine ⟨.long (decimal init), .spelled ?_, ?_⟩
    · rw [ht]
      exact .long hne hinit (hL back hupper) hlt
    · rw [← hv, hdigit, if_neg (by simp), Part.value, toLE_eq_map_shift]
      rfl

/-- Only a string starts with quotes, and one without closing quotes ends otherwise. -/
theorem string_of_quotes {t : List UInt8} (ht : Token t) (hquote : t.head? = some (byte '"'))
    (hlen : 2 ≤ t.length) (hback : t.getLastD 0 = byte '"') :
    ∃ w, (∀ c ∈ w, inString c = true) ∧ t = byte '"' :: w ++ [byte '"'] := by
  cases ht with
  | lexeme hlexeme =>
    cases hlexeme with
    | word _ hword => exact absurd (hword _ (List.mem_of_mem_head? hquote)) (by decide)
    | @string w hw => exact ⟨w, hw, rfl⟩
    | mark hc => exact absurd hlen (by simp)
  | @openString w hw =>
    have hne : w ≠ [] := by
      rintro rfl
      exact absurd hlen (by simp)
    have hlast := hw _ (List.getLast_mem hne)
    rw [List.getLastD_eq_getLast?, List.getLast?_cons_of_ne_nil hne,
      List.getLast?_eq_some_getLast hne, Option.getD_some] at hback
    rw [hback] at hlast
    exact absurd hlast (by decide)
  | other _ hne => exact absurd (Option.some.inj hquote) hne

/-- What is taken for a part is the token of one. -/
theorem accepted_of_parsePart {t v : List UInt8} (ht : Token t) (h : parsePart t = .ok v) :
    ∃ part : Part, part.Accepted t ∧ part.value = v := by
  rw [parsePart] at h
  by_cases hhex : isHexByte t = true
  · rw [if_pos hhex] at h
    exact ⟨.byte (stoiHex t), .spelled (.byte (hex_of_isHexByte hhex)), Except.ok.inj h⟩
  rw [if_neg hhex] at h
  by_cases hquote : t.head? = some (byte '"')
  · rw [if_pos hquote] at h
    split_ifs at h with hopen
    rw [not_or, Nat.not_lt, not_not] at hopen
    obtain ⟨w, hw, rfl⟩ := string_of_quotes ht hquote hopen.1 hopen.2
    refine ⟨.string w, .spelled (.string hw), ?_⟩
    rw [← Except.ok.inj h]
    simp [Part.value]
  rw [if_neg hquote] at h
  by_cases hnumber : ((isdigit (t.getLastD 0) || decide (toupper (t.getLastD 0) = byte 'L')) &&
      t.dropLast.all isdigit) = true
  · rw [if_pos hnumber] at h
    cases hstoull : stoull t with
    | error e =>
      rw [hstoull] at h
      cases h
    | ok num =>
      rw [hstoull] at h
      rw [Bool.and_eq_true, Bool.or_eq_true, decide_eq_true_eq, List.all_eq_true] at hnumber
      have hne : t ≠ [] := by
        rintro rfl
        exact absurd hstoull (by simp [stoull])
      have hback : t.getLastD 0 = t.getLast hne := by
        rw [List.getLastD_eq_getLast?, List.getLast?_eq_some_getLast hne, Option.getD_some]
      rw [hback] at hnumber h
      exact accepted_of_number (List.dropLast_append_getLast hne).symm hnumber.2 hnumber.1 hstoull
        (Except.ok.inj h)
  · rw [if_neg hnumber] at h
    cases h

theorem itemTlvs_accepted {tag : Tag} {t : List UInt8} (h : tag.Accepted t) (args : List UInt8) :
    itemTlvs t args = .ok (tag.parsed args) := by
  have hnames : ∀ a ∈ tagAliases, (¬ (a.1 = bytes "H" ∨ a.1 = bytes "Header")) ∧
      isHexByte a.1 = false ∧ tagAliases.lookup a.1 = some a.2 := by decide +kernel
  cases h with
  | spelled h => exact itemTlvs_spelled h args
  | named h _ =>
    obtain ⟨hheader, hhex, hlookup⟩ := hnames _ h
    rw [itemTlvs, if_neg hheader, if_neg (by simp [hhex]), hlookup]
    rfl

/-- What is taken for a tag is the token of one: the lexer does not give a name with an underscore. -/
theorem accepted_of_itemTlvs {t args : List UInt8} {records : List TLV} (ht : Token t)
    (h : itemTlvs t args = .ok records) : ∃ tag : Tag, tag.Accepted t := by
  by_cases hheader : t = bytes "H" ∨ t = bytes "Header"
  · exact ⟨.header, .spelled (.header hheader)⟩
  by_cases hhex : isHexByte t = true
  · exact ⟨.byte (stoiHex t), .spelled (.byte (hex_of_isHexByte hhex))⟩
  · rw [itemTlvs, if_neg hheader, if_neg hhex] at h
    cases hlookup : tagAliases.lookup t with
    | none =>
      rw [hlookup] at h
      cases h
    | some b =>
      have hmem : (t, b) ∈ tagAliases := by
        obtain ⟨l₁, l₂, heq, -⟩ := List.lookup_eq_some_iff.mp hlookup
        rw [heq]
        simp
      have hword : ∀ a ∈ tagAliases, a.1.head? ≠ some (byte '"') ∧
          (a.1.length = 1 → ∀ c ∈ a.1, isalnum c = true) := by decide +kernel
      obtain ⟨hquote, hsingle⟩ := hword _ hmem
      refine ⟨.byte b, .named hmem ?_⟩
      cases ht with
      | lexeme hlexeme =>
        cases hlexeme with
        | word _ hall => exact hall
        | string _ => exact absurd rfl hquote
        | mark _ => exact hsingle rfl
      | openString _ => exact absurd rfl hquote
      | other _ _ => exact hsingle rfl

/-! ### What the parser still wants -/

/-- Outside of a message: more messages. -/
def WantsMessages (done : List (List TLV)) (ts : List (List UInt8)) (ms : List (List TLV)) : Prop :=
  ∃ messages tss, List.Forall₂ MessageAccepted messages tss ∧ ts = tss.flatten ∧
    ms = done ++ parsed messages

/-- In a message: more items, its closing brace, and more messages. -/
def WantsItems (done : List (List TLV)) (tlvs : List TLV) (ts : List (List UInt8))
    (ms : List (List TLV)) : Prop :=
  ∃ items its rest, List.Forall₂ Item.Accepted items its ∧
    ts = its.flatten ++ bytes "\x7d" :: rest ∧
    WantsMessages (done ++ [tlvs ++ items.flatMap Item.parsed]) rest ms

/-- In a value: more parts, the closing parenthesis, and more items. -/
def WantsParts (done : List (List TLV)) (tlvs : List TLV) (tagId args : List UInt8)
    (ts : List (List UInt8)) (ms : List (List TLV)) : Prop :=
  ∃ tag parts ps rest, Tag.Accepted tag tagId ∧ List.Forall₂ Part.Accepted parts ps ∧
    ts = ps ++ bytes ")" :: rest ∧
    WantsItems done (tlvs ++ tag.parsed (args ++ parts.flatMap Part.value)) rest ms

/-- The tokens that have to follow for these messages. Behind a tag they are those of an item that
    starts with it. -/
def Wants : State → List (List UInt8) → List (List TLV) → Prop
  | .outside done, ts, ms => WantsMessages done ts ms
  | .items done tlvs, ts, ms => WantsItems done tlvs ts ms
  | .tagged done tlvs tagId, ts, ms => WantsItems done tlvs (tagId :: ts) ms
  | .inValue done tlvs tagId args, ts, ms => WantsParts done tlvs tagId args ts ms

/-- The tag in hand has come from the lexer. -/
def InHand : State → Prop
  | .outside _ | .items _ _ => True
  | .tagged _ _ tagId | .inValue _ _ tagId _ => Token tagId

section
variable {done : List (List TLV)} {tlvs : List TLV} {ts : List (List UInt8)} {ms : List (List TLV)}

theorem WantsItems.message (h : WantsItems done [] ts ms) : WantsMessages done (bytes "\x7b" :: ts) ms := by
  obtain ⟨items, its, rest, hits, rfl, messages, tss, hmessages, rfl, rfl⟩ := h
  refine ⟨items :: messages, (bytes "\x7b" :: (its.flatten ++ [bytes "\x7d"])) :: tss,
    .cons ⟨its, hits, rfl⟩ hmessages, by simp, ?_⟩
  simp [parsed]

theorem WantsMessages.close (h : WantsMessages (done ++ [tlvs]) ts ms) :
    WantsItems done tlvs (bytes "\x7d" :: ts) ms :=
  ⟨[], [], ts, .nil, rfl, by simpa using h⟩

/-- An item before the others. -/
theorem WantsItems.item {item : Item} {its : List (List UInt8)} (hitem : item.Accepted its)
    (h : WantsItems done (tlvs ++ item.parsed) ts ms) : WantsItems done tlvs (its ++ ts) ms := by
  obtain ⟨items, itss, rest, hits, rfl, hrest⟩ := h
  refine ⟨item :: items, its :: itss, rest, .cons hitem hits, by simp, ?_⟩
  rw [List.flatMap_cons, ← List.append_assoc]
  exact hrest

theorem WantsParts.item {tagId : List UInt8} (h : WantsParts done tlvs tagId [] ts ms) :
    WantsItems done tlvs (tagId :: bytes "(" :: ts) ms := by
  obtain ⟨tag, parts, ps, rest, htag, hparts, rfl, hrest⟩ := h
  have hitem : Item.Accepted ⟨tag, parts⟩ (tagId :: bytes "(" :: (ps ++ [bytes ")"])) :=
    .value htag hparts
  simpa using WantsItems.item hitem hrest

/-- A tag without a value. -/
theorem WantsItems.bare {tagId : List UInt8} {records : List TLV} (ht : Token tagId)
    (hrecords : itemTlvs tagId [] = .ok records) (h : WantsItems done (tlvs ++ records) ts ms) :
    WantsItems done tlvs (tagId :: ts) ms := by
  obtain ⟨tag, htag⟩ := accepted_of_itemTlvs ht hrecords
  rw [itemTlvs_accepted htag] at hrecords
  obtain rfl := Except.ok.inj hrecords
  have hitem : Item.Accepted ⟨tag, []⟩ [tagId] := .bare htag
  exact WantsItems.item hitem h

theorem WantsItems.parts {tagId args : List UInt8} {records : List TLV} (ht : Token tagId)
    (hrecords : itemTlvs tagId args = .ok records) (h : WantsItems done (tlvs ++ records) ts ms) :
    WantsParts done tlvs tagId args (bytes ")" :: ts) ms := by
  obtain ⟨tag, htag⟩ := accepted_of_itemTlvs ht hrecords
  rw [itemTlvs_accepted htag] at hrecords
  obtain rfl := Except.ok.inj hrecords
  exact ⟨tag, [], [], ts, htag, .nil, rfl, by simpa using h⟩

theorem WantsParts.part {tagId args t v : List UInt8} (ht : Token t) (hv : parsePart t = .ok v)
    (h : WantsParts done tlvs tagId (args ++ v) ts ms) :
    WantsParts done tlvs tagId args (t :: ts) ms := by
  obtain ⟨tag, parts, ps, rest, htag, hparts, rfl, hrest⟩ := h
  obtain ⟨part, hpart, rfl⟩ := accepted_of_parsePart ht hv
  refine ⟨tag, part :: parts, t :: ps, rest, htag, .cons hpart hparts, rfl, ?_⟩
  rw [List.flatMap_cons, ← List.append_assoc]
  exact hrest

end

/-- A token where an item or the end of the message is expected. -/
theorem wants_head {done : List (List TLV)} {tlvs : List TLV} {t : List UInt8}
    {ts : List (List UInt8)} {ms : List (List TLV)} {s : State} (hhead : head done tlvs t = some s)
    (h : Wants s ts ms) : WantsItems done tlvs (t :: ts) ms := by
  rw [head] at hhead
  split_ifs at hhead with hclose
  · obtain rfl := Option.some.inj hhead
    rw [hclose]
    exact WantsMessages.close h
  · obtain rfl := Option.some.inj hhead
    exact h

theorem inHand_head {done : List (List TLV)} {tlvs : List TLV} {t : List UInt8} {s : State}
    (ht : Token t) (hhead : head done tlvs t = some s) : InHand s := by
  rw [head] at hhead
  split_ifs at hhead
  · obtain rfl := Option.some.inj hhead
    trivial
  · obtain rfl := Option.some.inj hhead
    exact ht

theorem toOption_eq_some {α : Type} {x : Except String α} {a : α} (h : x.toOption = some a) :
    x = .ok a := by
  cases x with
  | error e => cases h
  | ok b =>
    obtain rfl := Option.some.inj h
    rfl

/-- One token on: what is wanted then is what was wanted before, with this token in front. -/
theorem wants_step {s s' : State} {t : List UInt8} {ts : List (List UInt8)} {ms : List (List TLV)}
    (hhand : InHand s) (ht : Token t) (hstep : step s t = some s') (h : Wants s' ts ms) :
    Wants s (t :: ts) ms := by
  cases s with
  | outside done =>
    rw [step] at hstep
    split_ifs at hstep with hopen
    obtain rfl := Option.some.inj hstep
    rw [hopen]
    exact WantsItems.message h
  | items done tlvs => exact wants_head hstep h
  | tagged done tlvs tagId =>
    rw [step] at hstep
    split_ifs at hstep with hopen
    · obtain rfl := Option.some.inj hstep
      rw [hopen]
      exact WantsParts.item h
    · obtain ⟨records, hrecords, hhead⟩ := Option.bind_eq_some_iff.mp hstep
      exact WantsItems.bare hhand (toOption_eq_some hrecords) (wants_head hhead h)
  | inValue done tlvs tagId args =>
    rw [step] at hstep
    split_ifs at hstep with hclose
    · obtain ⟨records, hrecords, rfl⟩ := Option.map_eq_some_iff.mp hstep
      rw [hclose]
      exact WantsItems.parts hhand (toOption_eq_some hrecords) h
    · obtain ⟨part, hpart, rfl⟩ := Option.map_eq_some_iff.mp hstep
      exact WantsParts.part ht (toOption_eq_some hpart) h

theorem inHand_step {s s' : State} {t : List UInt8} (hhand : InHand s) (ht : Token t)
    (hstep : step s t = some s') : InHand s' := by
  cases s with
  | outside done =>
    rw [step] at hstep
    split_ifs at hstep
    obtain rfl := Option.some.inj hstep
    trivial
  | items done tlvs => exact inHand_head ht hstep
  | tagged done tlvs tagId =>
    rw [step] at hstep
    split_ifs at hstep
    · obtain rfl := Option.some.inj hstep
      exact hhand
    · obtain ⟨records, -, hhead⟩ := Option.bind_eq_some_iff.mp hstep
      exact inHand_head ht hhead
  | inValue done tlvs tagId args =>
    rw [step] at hstep
    split_ifs at hstep
    · obtain ⟨records, -, rfl⟩ := Option.map_eq_some_iff.mp hstep
      trivial
    · obtain ⟨part, -, rfl⟩ := Option.map_eq_some_iff.mp hstep
      exact hhand

/-- Whatever the parser accepts from a state is what is wanted there. -/
theorem wants_of_accept (ts : List (List UInt8)) {s : State} {ms : List (List TLV)}
    (hts : ∀ t ∈ ts, Token t) (hhand : InHand s) (h : accept s ts = some ms) : Wants s ts ms := by
  induction ts generalizing s with
  | nil =>
    cases s with
    | outside done =>
      obtain rfl := Option.some.inj h
      exact ⟨[], [], .nil, rfl, by simp [parsed]⟩
    | items done tlvs => cases h
    | tagged done tlvs tagId => cases h
    | inValue done tlvs tagId args => cases h
  | cons t ts ih =>
    rw [List.forall_mem_cons] at hts
    rw [accept_cons] at h
    obtain ⟨s', hstep, hrest⟩ := Option.bind_eq_some_iff.mp h
    exact wants_step hhand hts.1 hstep (ih hts.2 (inHand_step hhand hts.1 hstep) hrest)

/-! ### What the grammar gives is accepted -/

section
variable {done : List (List TLV)} {tlvs : List TLV}

theorem accept_acceptedParts {tag : Tag} {tagId : List UInt8} (htag : tag.Accepted tagId)
    {parts : List Part} {ps : List (List UInt8)} (h : List.Forall₂ Part.Accepted parts ps)
    (args : List UInt8) (rest : List (List UInt8)) :
    accept (.inValue done tlvs tagId args) (ps ++ bytes ")" :: rest) =
      accept (.items done (tlvs ++ tag.parsed (args ++ parts.flatMap Part.value))) rest := by
  induction h generalizing args with
  | nil =>
    rw [List.nil_append, accept_cons, step, if_pos rfl, itemTlvs_accepted htag, List.flatMap_nil,
      List.append_nil]
    rfl
  | @cons part t parts ps hpart _ ih =>
    have hvalue := parsePart_accepted hpart
    have hopen : t ≠ bytes ")" := by
      rintro rfl
      exact absurd hvalue (by simp [show parsePart (bytes ")") = .error _ from rfl])
    rw [List.cons_append, accept_cons, step, if_neg hopen, hvalue, List.flatMap_cons,
      ← List.append_assoc, ← ih]
    rfl

/-- An item, which is complete with the token behind it. -/
theorem accept_acceptedItem {item : Item} {ts rest : List (List UInt8)} (h : item.Accepted ts)
    (hrest : rest.head? ≠ some (bytes "(")) :
    accept (.items done tlvs) (ts ++ rest) = accept (.items done (tlvs ++ item.parsed)) rest := by
  cases h with
  | @bare tag t htag =>
    rw [List.singleton_append, accept_cons, step, head_plain htag.lexeme.2, Option.bind_some]
    cases rest with
    | nil => rfl
    | cons next rest =>
      have hnext : next ≠ bytes "(" := fun h => hrest (congrArg some h)
      rw [accept_cons, accept_cons, step, step, if_neg hnext, itemTlvs_accepted htag]
      rfl
  | @value tag t parts ps htag hparts =>
    rw [List.cons_append, List.cons_append, List.append_assoc, accept_cons, step,
      head_plain htag.lexeme.2, Option.bind_some, accept_cons, step, if_pos rfl, Option.bind_some,
      List.singleton_append, accept_acceptedParts htag hparts, List.nil_append]
    rfl

/-- The tokens of an item start with its tag. -/
theorem Item.Accepted.head {item : Item} {ts : List (List UInt8)} (h : item.Accepted ts) :
    ∃ t ts', ts = t :: ts' ∧ Plain t := by
  cases h with
  | bare htag => exact ⟨_, _, rfl, htag.lexeme.2⟩
  | value htag _ => exact ⟨_, _, rfl, htag.lexeme.2⟩

theorem accept_acceptedItems {items : List Item} {its : List (List (List UInt8))}
    (h : List.Forall₂ Item.Accepted items its) (rest : List (List UInt8)) :
    accept (.items done tlvs) (its.flatten ++ bytes "\x7d" :: rest) =
      accept (.outside (done ++ [tlvs ++ items.flatMap Item.parsed])) rest := by
  induction h generalizing tlvs with
  | nil =>
    rw [List.flatten_nil, List.nil_append, accept_cons, step, NHA.Language.head, if_pos rfl,
      List.flatMap_nil, List.append_nil]
    rfl
  | @cons item ts items its hitem hitems ih =>
    have hnext : (its.flatten ++ bytes "\x7d" :: rest).head? ≠ some (bytes "(") := by
      cases hitems with
      | nil =>
        rw [List.flatten_nil, List.nil_append, List.head?_cons]
        decide
      | cons hnext _ =>
        obtain ⟨t, ts', rfl, hplain⟩ := hnext.head
        exact fun h => hplain.2.2.1 (Option.some.inj h)
    rw [List.flatten_cons, List.append_assoc, accept_acceptedItem hitem hnext, ih, List.flatMap_cons,
      List.append_assoc]

end

theorem accept_acceptedMessages {messages : List (List Item)} {tss : List (List (List UInt8))}
    (h : List.Forall₂ MessageAccepted messages tss) (done : List (List TLV)) :
    accept (.outside done) tss.flatten = some (done ++ parsed messages) := by
  induction h generalizing done with
  | nil =>
    rw [parsed, List.map_nil, List.append_nil]
    rfl
  | @cons items ts messages tss hmessage _ ih =>
    obtain ⟨its, hits, rfl⟩ := hmessage
    rw [List.flatten_cons, List.cons_append, List.append_assoc, accept_cons, step, if_pos rfl,
      Option.bind_some, List.singleton_append, accept_acceptedItems hits, ih, List.nil_append, parsed,
      parsed, List.map_cons, List.append_assoc, List.singleton_append]

/-! ### The whole language -/

/-- What the related elements have on the right. -/
theorem forall_right {α β : Type} {R : α → β → Prop} {p : β → Prop} {as : List α} {bs : List β}
    (h : List.Forall₂ R as bs) (hR : ∀ a b, R a b → p b) : ∀ b ∈ bs, p b := by
  induction h with
  | nil => simp
  | cons hab _ ih => exact List.forall_mem_cons.mpr ⟨hR _ _ hab, ih⟩

theorem lexeme_mark {t : List UInt8} (h : t ∈ [bytes "\x7b", bytes "\x7d", bytes "(", bytes ")"]) :
    Lexeme t := by
  have hmark : ∀ t ∈ [bytes "\x7b", bytes "\x7d", bytes "(", bytes ")"],
      ∃ c ∈ bytes "\x7b\x7d()", t = [c] := by decide +kernel
  obtain ⟨c, hc, rfl⟩ := hmark t h
  exact .mark hc

theorem Item.Accepted.lexemes {item : Item} {ts : List (List UInt8)} (h : item.Accepted ts) :
    ∀ t ∈ ts, Lexeme t := by
  cases h with
  | bare htag => exact List.forall_mem_singleton.mpr htag.lexeme.1
  | value htag hparts =>
    have hps := forall_right hparts (fun _ _ h => h.lexeme)
    simp only [List.forall_mem_cons, List.forall_mem_append]
    exact ⟨htag.lexeme.1, lexeme_mark (by simp), hps, lexeme_mark (by simp), by simp⟩

theorem messages_lexemes {messages : List (List Item)} {tss : List (List (List UInt8))}
    (h : List.Forall₂ MessageAccepted messages tss) : ∀ t ∈ tss.flatten, Lexeme t := by
  have hmessage : ∀ items ts, MessageAccepted items ts → ∀ t ∈ ts, Lexeme t := by
    rintro items ts ⟨its, hits, rfl⟩
    have hitems := forall_right hits (fun _ _ h => h.lexemes)
    simp only [List.forall_mem_cons, List.forall_mem_append, List.mem_flatten]
    refine ⟨lexeme_mark (by simp), ?_, lexeme_mark (by simp), by simp⟩
    rintro t ⟨l, hl, ht⟩
    exact hitems l hl t ht
  intro t ht
  obtain ⟨ts, hts, ht⟩ := List.mem_flatten.mp ht
  exact forall_right h hmessage ts hts t ht

/-- Repeated calls of `parse` return true once for each of these messages, and then one throws. -/
def Throws : List UInt8 → List (List TLV) → String → Prop
  | is, [], e => (parse is).1 = .error e
  | is, m :: ms, e => (parse is).1 = .ok true ∧ (parse is).2.1.tlvs = m ∧ Throws (parse is).2.2 ms e

/-- The calls come to an end: every message takes characters off the stream. -/
theorem yields_or_throws (is : List UInt8) : (∃ ms, Yields is ms) ∨ ∃ ms e, Throws is ms e := by
  rcases parse_accept [] is with ⟨hfalse, -⟩ | ⟨e, herror, -⟩ | ⟨htrue, hlen, -⟩
  · exact Or.inl ⟨[], hfalse⟩
  · exact Or.inr ⟨[], e, herror⟩
  · rcases yields_or_throws (parse is).2.2 with ⟨ms, h⟩ | ⟨ms, e, h⟩
    · exact Or.inl ⟨_ :: ms, htrue, rfl, h⟩
    · exact Or.inr ⟨_ :: ms, e, htrue, rfl, h⟩
termination_by is.length

theorem not_yields_of_throws {is : List UInt8} {ms : List (List TLV)} {e : String}
    (h : Throws is ms e) (ms' : List (List TLV)) : ¬ Yields is ms' := by
  induction ms generalizing is ms' with
  | nil => exact not_yields_of_error h ms'
  | cons m ms ih =>
    obtain ⟨htrue, -, hrest⟩ := h
    rw [yields_cons_iff htrue]
    rintro ⟨ms'', -, hyields⟩
    exact ih hrest ms'' hyields

/-- CORRECT: the client accepts the texts of the grammar and no others. Repeated calls of `parse` on a
    text return these messages, and then false, exactly when the text is one of the grammar with items
    behind it that have these records; and on a text that is not one of the grammar, after finitely
    many messages a call throws. -/
theorem yields_iff_accepted (text : List UInt8) :
    (∀ ms, Yields text ms ↔ ∃ messages, Accepted messages text ∧ ms = parsed messages) ∧
    ((¬ ∃ messages, Accepted messages text) ↔ ∃ ms e, Throws text ms e) := by
  have hyields : ∀ ms, Yields text ms ↔ ∃ messages, Accepted messages text ∧ ms = parsed messages := by
    intro ms
    rw [yields_iff_accept]
    constructor
    · intro h
      obtain ⟨messages, tss, hmessages, htokens, rfl⟩ :=
        wants_of_accept (s := .outside []) (tokens text) (fun t ht => token_of_mem ht) trivial h
      refine ⟨messages, ⟨tss, hmessages, ?_⟩, List.nil_append _⟩
      rw [text_iff (messages_lexemes hmessages)]
      exact htokens
    · rintro ⟨messages, ⟨tss, hmessages, htext⟩, rfl⟩
      rw [htext.tokens, accept_acceptedMessages hmessages, List.nil_append]
  refine ⟨hyields, ?_, ?_⟩
  · intro hnone
    rcases yields_or_throws text with ⟨ms, h⟩ | h
    · obtain ⟨messages, haccepted, -⟩ := (hyields ms).mp h
      exact absurd ⟨messages, haccepted⟩ hnone
    · exact h
  · rintro ⟨ms, e, hthrows⟩ ⟨messages, haccepted⟩
    exact not_yields_of_throws hthrows _ ((hyields _).mpr ⟨messages, haccepted, rfl⟩)

/-- The client reads the low 32 bits of 4294967303 and an alias, and a comment may end the input. -/
example : Yields (bytes "\x7bu(4294967303)\x7d # end") [[⟨0x04, [7, 0, 0, 0]⟩]] := by decide +kernel

end NHA.Language
