import NativeHardwareAccess.Client.Output

/-! The round trip of a printed message: what the test cases read is what was printed, as long as
    every record has a description.

        record ─▶ description ─▶ record ─▶ description ─▶ received …
          └── takes ──┘            └── takes ──┘

        record ─▶ record ─▶ …            the second record is lost
          └─ takes ─┘ -/

namespace NHA.Output
open Scheme Scheme.MD5 Scheme.Words NHA.Nhac
open NHA.Configuration (lines trimFront)

/-! ### Reading a line -/

/-- A word that the reader passes over. -/
structure Ignored (w : List UInt8) : Prop where
  size : w.take 25 ≠ bytes "completeSizeOfMsgInBytes="
  record : w.take 2 ≠ bytes "T="
  received : w ≠ bytes "received"
  xored : w ≠ bytes "xored"
  calculated : w ≠ bytes "calculated"

/-- The words of a description: there is no equals sign in them, and the one or the other parenthesis
    is. -/
theorem ignored_of_plain {w : List UInt8} (h : Plain w)
    (hend : byte '(' ∈ w ∨ byte ')' ∈ w) : Ignored w := by
  have hequals : ∀ n, byte '=' ∉ w.take n := by
    intro n hmem
    have hplain := h _ (List.mem_of_mem_take hmem)
    exact absurd hplain (by decide)
  have hname : ∀ name : List UInt8, byte '(' ∉ name → byte ')' ∉ name → w ≠ name := by
    rintro name hopen hclose rfl
    exact hend.elim hopen hclose
  refine ⟨fun heq => hequals 25 ?_, fun heq => hequals 2 ?_, ?_, ?_, ?_⟩
  · rw [heq]
    decide +kernel
  · rw [heq]
    decide +kernel
  · exact hname _ (by decide +kernel) (by decide +kernel)
  · exact hname _ (by decide +kernel) (by decide +kernel)
  · exact hname _ (by decide +kernel) (by decide +kernel)

/-- A word with another first letter. -/
theorem ignored_of_head {c : UInt8} (hc : c ∉ bytes "cTrx") (s : List UInt8) : Ignored (c :: s) := by
  have hhead : ∀ d ∈ bytes "cTrx", ∀ t u : List UInt8, c :: t ≠ d :: u := by
    intro d hd t u heq
    obtain ⟨rfl, -⟩ := List.cons.inj heq
    exact hc hd
  exact ⟨hhead (byte 'c') (by decide +kernel) _ _, hhead (byte 'T') (by decide +kernel) _ _,
    hhead (byte 'r') (by decide +kernel) _ _, hhead (byte 'x') (by decide +kernel) _ _,
    hhead (byte 'c') (by decide +kernel) _ _⟩

theorem ends_space (s : List UInt8) : Ends isspace ([byte ' '] ++ s) := by
  intro c hc
  obtain rfl := Option.some.inj hc
  rfl

theorem ends_spaces (n : ℕ) (s : List UInt8) :
    Ends isspace (List.replicate (n + 1) (byte ' ') ++ s) := by
  rw [List.replicate_succ, List.cons_append]
  exact ends_space _

theorem blank_spaces (n : ℕ) : Blank isspace (List.replicate n (byte ' ')) := by
  intro c hc
  obtain rfl := List.eq_of_mem_replicate hc
  rfl

theorem blank_space : Blank isspace [byte ' '] := blank_spaces 1

theorem blank_nil : Blank isspace [] := blank_spaces 0

/-- A key and its equals sign, with a text behind it. -/
theorem word_key {key : String} {s : List UInt8} (name : String)
    (hkey : bytes key = bytes name ++ [byte '=']) (hname : Plain (bytes name))
    (hs : ∀ c ∈ s, isspace c = false) : Word isspace (bytes key ++ s) := by
  refine Word.append ⟨by simp [hkey], fun c hc => ?_⟩ hs
  rw [hkey] at hc
  rcases List.mem_append.mp hc with hc | hc
  · exact hname.not_space c hc
  · obtain rfl := List.mem_singleton.mp hc
    rfl

/-- The text behind a key. -/
theorem substr_append {key : List UInt8} {n : ℕ} (h : key.length = n) (s : List UInt8) :
    substr (key ++ s) n = some s := by
  rw [substr, if_neg (by rw [List.length_append]; omega), List.drop_left' h]

theorem ends_nil : Ends isspace [] := by simp [Ends]

section
variable {lead w rest : List UInt8} {ss : List (List UInt8)} {res : Table}

theorem parseWords_ignored (fuel : ℕ) (hlead : Blank isspace lead) (hw : Word isspace w)
    (hrest : Ends isspace rest) (h : Ignored w) :
    parseWords (fuel + 1) (lead ++ (w ++ rest)) ss res = parseWords fuel rest ss res := by
  rw [parseWords, extract_word hlead hw hrest]
  dsimp only
  rw [if_neg hw.1, if_neg h.size, if_neg h.record, if_neg h.received, if_neg h.xored,
    if_neg h.calculated]

theorem parseWords_nil (fuel : ℕ) : parseWords fuel [] ss res = some (ss, res) := by
  cases fuel with
  | zero => rfl
  | succ fuel => rfl

/-- A description that is not taken by a record says nothing. -/
theorem parseWords_description {what : List UInt8} (h : Phrase what) (fuel : ℕ) :
    parseWords (fuel + 2) (bytes "    (" ++ what ++ bytes ")") ss res = some (ss, res) := by
  have hlead : Blank isspace (bytes "    ") := blank_spaces 4
  have hopen : Plain [byte '('] := by decide +kernel
  have hclose : Plain [byte ')'] := by decide +kernel
  have hstart : bytes "    (" = bytes "    " ++ [byte '('] := rfl
  have hend : bytes ")" = [byte ')'] := rfl
  cases h with
  | one hw hne =>
    have hplain : Plain ([byte '('] ++ what ++ [byte ')']) := (hopen.append hw).append hclose
    have hline : bytes "    (" ++ what ++ bytes ")" =
        bytes "    " ++ (([byte '('] ++ what ++ [byte ')']) ++ []) := by
      rw [hstart, hend]
      simp only [List.append_assoc, List.append_nil]
    rw [hline, parseWords_ignored (fuel + 1) hlead (hplain.word (by simp)) ends_nil
      (ignored_of_plain hplain (by simp)), parseWords_nil]
  | @two w v hw hne hv hv' =>
    have hfirst : Plain ([byte '('] ++ w) := hopen.append hw
    have hsecond : Plain (v ++ [byte ')']) := hv.append hclose
    have hline : bytes "    (" ++ (w ++ byte ' ' :: v) ++ bytes ")" =
        bytes "    " ++ (([byte '('] ++ w) ++ ([byte ' '] ++ ((v ++ [byte ')']) ++ []))) := by
      rw [hstart, hend]
      simp only [List.append_assoc, List.append_nil, List.cons_append, List.nil_append]
    rw [hline, parseWords_ignored (fuel + 1) hlead (hfirst.word (by simp)) (ends_space _)
      (ignored_of_plain hfirst (by simp)), parseWords_ignored fuel blank_space
      (hsecond.word (by simp)) ends_nil (ignored_of_plain hsecond (by simp)), parseWords_nil]

theorem parseWords_heading {title : String} (htitle : Plain (bytes title)) (size fuel : ℕ) :
    parseWords (fuel + 2) (Line.heading title size).text ss res =
      some (ss, res.emplace (bytes "completeSizeOfMsgInBytes") (bytes (toString size))) := by
  have hfirst : Word isspace (bytes "Message=" ++ bytes title) :=
    word_key "Message" rfl (by decide +kernel) htitle.not_space
  have hsecond : Word isspace (bytes "completeSizeOfMsgInBytes=" ++ bytes (toString size)) :=
    word_key "completeSizeOfMsgInBytes" rfl (by decide +kernel) (plain_digits size).not_space
  have hignored : Ignored (bytes "Message=" ++ bytes title) :=
    ignored_of_head (by decide +kernel) _
  have hline : (Line.heading title size).text = [] ++ ((bytes "Message=" ++ bytes title) ++
      ([byte ' '] ++ ((bytes "completeSizeOfMsgInBytes=" ++ bytes (toString size)) ++ []))) := by
    rw [Line.text, show bytes " completeSizeOfMsgInBytes=" =
      [byte ' '] ++ bytes "completeSizeOfMsgInBytes=" from rfl]
    simp only [List.append_assoc, List.append_nil, List.nil_append]
  have htake : (bytes "completeSizeOfMsgInBytes=" ++ bytes (toString size)).take 25 =
      bytes "completeSizeOfMsgInBytes=" := List.take_left' rfl
  have hdrop : (bytes "completeSizeOfMsgInBytes=" ++ bytes (toString size)).drop 25 =
      bytes (toString size) := List.drop_left' rfl
  rw [hline, parseWords_ignored (fuel + 1) blank_nil hfirst (ends_space _) hignored,
    parseWords, extract_word blank_space hsecond ends_nil]
  dsimp only
  rw [if_neg hsecond.1, if_pos htake, hdrop, parseWords_nil]

/-- The word that a digest starts with. -/
theorem parseWords_sum (sum : Sum) (fuel : ℕ) (hrest : Ends isspace rest) :
    parseWords (fuel + 1) (bytes sum.name ++ rest) ss res =
      (parseMd5 res sum.name rest).bind (fun r => parseWords fuel r.2 ss r.1) := by
  have hplain : Plain (bytes sum.name) := by cases sum <;> decide +kernel
  have hname : Word isspace (bytes sum.name) := hplain.word (by cases sum <;> decide +kernel)
  have hextract : extract isspace (bytes sum.name ++ rest) = (bytes sum.name, rest) :=
    extract_word blank_nil hname hrest
  rw [parseWords, hextract]
  dsimp only
  rw [if_neg hname.1]
  cases sum with
  | received =>
    have hword : bytes Sum.received.name = bytes "received" := rfl
    rw [if_neg (by decide +kernel), if_neg (by decide +kernel), if_pos hword]
    rfl
  | calculated =>
    have hword : bytes Sum.calculated.name = bytes "calculated" := rfl
    rw [if_neg (by decide +kernel), if_neg (by decide +kernel), if_neg (by decide +kernel),
      if_neg (by decide +kernel), if_pos hword]
    rfl
  | xored =>
    have hword : bytes Sum.xored.name = bytes "xored" := rfl
    rw [if_neg (by decide +kernel), if_neg (by decide +kernel), if_neg (by decide +kernel),
      if_pos hword]
    rfl

theorem parseWords_digest (sum : Sum) (md5 : Digest) (fuel : ℕ) :
    parseWords (fuel + 1) (Line.digest sum md5).text ss res =
      some (ss, res.emplace (bytes sum.name) (bytes (hexBytes md5.toList))) := by
  have hword : Word isspace (bytes "MD5=" ++ bytes (hexBytes md5.toList)) :=
    word_key "MD5" rfl (by decide +kernel) (plain_hexBytes _).not_space
  have hgap : Blank isspace (bytes sum.gap) := by
    cases sum with
    | received => exact blank_spaces 3
    | calculated => exact blank_spaces 1
    | xored => exact blank_spaces 6
  have hends : Ends isspace (bytes sum.gap ++
      ((bytes "MD5=" ++ bytes (hexBytes md5.toList)) ++ [])) := by cases sum <;> exact ends_space _
  have hmd5 : (bytes "MD5=").length = 4 := rfl
  have hline : (Line.digest sum md5).text = bytes sum.name ++ (bytes sum.gap ++
      ((bytes "MD5=" ++ bytes (hexBytes md5.toList)) ++ [])) := by
    rw [Line.text]
    simp only [List.append_assoc, List.append_nil]
  rw [hline, parseWords_sum sum fuel hends, parseMd5, extract_word hgap hword ends_nil]
  dsimp only
  rw [substr_append hmd5, Option.map_some, Option.bind_some, parseWords_nil]

theorem printValue_first (c : UInt8) (value : List UInt8) :
    printValue true (c :: value) = bytes (toHex c true) ++ printValue false value := by
  rw [printValue, if_neg (by decide), List.nil_append]

theorem printValue_next (c : UInt8) (value : List UInt8) :
    printValue false (c :: value) = [byte ' '] ++ (bytes (toHex c true) ++ printValue false value) := by
  have hspace : bytes " " = [byte ' '] := rfl
  rw [printValue, if_pos (by decide), hspace, List.append_assoc]

/-- The value of a record is its first byte and the rest of the line. -/
theorem printValue_split (value : List UInt8) : ∃ first rest,
    printValue true value = first ++ rest ∧ (∀ c ∈ first, isspace c = false) ∧ Ends isspace rest := by
  cases value with
  | nil => exact ⟨[], [], rfl, by simp, ends_nil⟩
  | cons c value =>
    refine ⟨_, _, printValue_first c value, (plain_toHex c true).not_space, ?_⟩
    cases value with
    | nil => exact ends_nil
    | cons d value =>
      rw [printValue_next]
      exact ends_space _

/-- The words of a record. -/
theorem text_record {tlv : TLV} {first : List UInt8} (h : printValue true tlv.value = first ++ rest) :
    (Line.record tlv).text = List.replicate 2 (byte ' ') ++
      ((bytes "T=" ++ bytes (toHex tlv.tag true)) ++ ([byte ' '] ++
        ((bytes "L=" ++ bytes (toString tlv.getLength.toNat)) ++
          (List.replicate (3 - (bytes (toString tlv.getLength.toNat)).length + 1) (byte ' ') ++
            ((bytes "V=" ++ first) ++ rest))))) := by
  have hpad : ∀ n, List.replicate (n + 1) (byte ' ') = List.replicate n (byte ' ') ++ [byte ' '] :=
    fun _ => List.replicate_succ'
  have htag : bytes "  T=" = List.replicate 2 (byte ' ') ++ bytes "T=" := rfl
  have hlength : bytes " L=" = [byte ' '] ++ bytes "L=" := rfl
  have hvalue : bytes " V=" = [byte ' '] ++ bytes "V=" := rfl
  rw [Line.text, h, leftThree, hpad (3 - _), htag, hlength, hvalue]
  simp only [List.append_assoc]

/-- A record takes the next line. -/
theorem parseWords_record (tlv : TLV) (fuel : ℕ) :
    parseWords (fuel + 1) (Line.record tlv).text ss res =
      some (ss.tail, (res.emplace (bytes (toHex tlv.tag true)) (printValue true tlv.value)).emplace
        (bytes (toHex tlv.tag true) ++ bytes "_decoded") (trimFront (bytes " \n\r") (ss.headD []))) := by
  obtain ⟨first, rest, hvalue, hfirst, hrest⟩ := printValue_split tlv.value
  have htag : Word isspace (bytes "T=" ++ bytes (toHex tlv.tag true)) :=
    word_key "T" rfl (by decide +kernel) (plain_toHex _ true).not_space
  have hlength : Word isspace (bytes "L=" ++ bytes (toString tlv.getLength.toNat)) :=
    word_key "L" rfl (by decide +kernel) (plain_digits _).not_space
  have hword : Word isspace (bytes "V=" ++ first) := word_key "V" rfl (by decide +kernel) hfirst
  have htwo : (bytes "T=").length = 2 ∧ (bytes "L=").length = 2 ∧ (bytes "V=").length = 2 :=
    ⟨rfl, rfl, rfl⟩
  have hnotsize : (bytes "T=" ++ bytes (toHex tlv.tag true)).take 25 ≠
      bytes "completeSizeOfMsgInBytes=" := by
    intro heq
    have hhead : byte 'T' = byte 'c' := Option.some.inj (congrArg List.head? heq)
    exact absurd hhead (by decide)
  rw [text_record hvalue, parseWords, extract_word (blank_spaces 2) htag (ends_space _)]
  dsimp only
  rw [if_neg htag.1, if_neg hnotsize, if_pos (List.take_left' htwo.1),
    extract_word blank_space hlength (ends_spaces _ _)]
  dsimp only
  rw [extract_word (blank_spaces _) hword hrest]
  dsimp only
  rw [substr_append htwo.2.1, substr_append htwo.2.2, hvalue, List.drop_left' htwo.1]

end

/-! ### Reading all lines -/

/-- A line that a message can have. -/
def Line.Good : Line → Prop
  | .heading title _ => Plain (bytes title)
  | .description what => Phrase (bytes what)
  | _ => True

/-- The two fields of a record before a line. -/
def recordFields (tlv : TLV) (next : List UInt8) : List (List UInt8 × List UInt8) :=
  [(bytes (toHex tlv.tag true), printValue true tlv.value),
    (bytes (toHex tlv.tag true) ++ bytes "_decoded", trimFront (bytes " \n\r") next)]

/-- The fields that lines give, in their order. -/
def readLines : List Line → List (List UInt8 × List UInt8)
  | [] => []
  | .heading _ size :: ls =>
    (bytes "completeSizeOfMsgInBytes", bytes (toString size)) :: readLines ls
  | [.record tlv] => recordFields tlv []
  | .record tlv :: next :: ls => recordFields tlv next.text ++ readLines ls
  | .description _ :: ls => readLines ls
  | .digest sum md5 :: ls => (bytes sum.name, bytes (hexBytes md5.toList)) :: readLines ls
  | .blank :: ls => readLines ls

/-- `emplace` of one field after the other. -/
def Table.emplaces (res : Table) (fs : List (List UInt8 × List UInt8)) : Table :=
  fs.foldl (fun res f => res.emplace f.1 f.2) res

theorem Table.field_emplace (res : Table) (key value k : List UInt8) :
    (res.emplace key value).field k = (res.field k).or (if k = key then some value else none) := by
  rw [Table.emplace]
  split_ifs with hsome hk hk
  · subst hk
    obtain ⟨v, hv⟩ := Option.isSome_iff_exists.mp hsome
    rw [hv, Option.some_or]
  · rw [Option.or_none]
  · subst hk
    rw [Option.not_isSome_iff_eq_none.mp hsome, Option.none_or]
    exact Function.update_self ..
  · rw [Option.or_none]
    exact Function.update_of_ne hk ..

/-- The first field with a key counts. -/
theorem Table.field_emplaces (res : Table) (fs : List (List UInt8 × List UInt8)) (k : List UInt8) :
    (res.emplaces fs).field k = (res.field k).or (fs.lookup k) := by
  induction fs generalizing res with
  | nil => rw [Table.emplaces, List.foldl_nil, List.lookup_nil, Option.or_none]
  | cons f fs ih =>
    obtain ⟨key, value⟩ := f
    have hrest := ih (res.emplace key value)
    rw [Table.emplaces] at hrest ⊢
    rw [List.foldl_cons, hrest, Table.field_emplace, Option.or_assoc]
    congr 1
    by_cases hk : k = key
    · subst hk
      rw [if_pos rfl, List.lookup_cons_self, Option.some_or]
    · rw [if_neg hk, List.lookup_cons, beq_false_of_ne hk, Option.none_or]

theorem length_text (l : Line) : l = .blank ∨ 2 ≤ l.text.length := by
  cases l with
  | blank => exact .inl rfl
  | heading title size =>
    have hlead : (bytes "Message=").length = 8 := rfl
    simp only [Line.text, List.length_append]
    omega
  | record tlv =>
    have hlead : (bytes "  T=").length = 4 := rfl
    simp only [Line.text, List.length_append]
    omega
  | description what =>
    have hlead : (bytes "    (").length = 5 := rfl
    simp only [Line.text, List.length_append]
    omega
  | digest sum md5 =>
    have hlead : (bytes "MD5=").length = 4 := rfl
    simp only [Line.text, List.length_append]
    omega

/-- The words of a line and what it takes of the lines behind it. -/
theorem parseLines_eq (fuel : ℕ) : ∀ (ls : List Line) (res : Table), ls.length ≤ fuel →
    (∀ l ∈ ls, l.Good) → parseLines fuel (ls.map Line.text) res = some (res.emplaces (readLines ls)) := by
  induction fuel with
  | zero =>
    intro ls res hfuel _
    obtain rfl := List.length_eq_zero_iff.mp (Nat.le_zero.mp hfuel)
    rfl
  | succ fuel ih =>
    intro ls res hfuel hgood
    cases ls with
    | nil => rfl
    | cons l ls =>
      rw [List.length_cons, Nat.succ_le_succ_iff] at hfuel
      obtain ⟨hl, hls⟩ := List.forall_mem_cons.mp hgood
      rw [List.map_cons, parseLines]
      rcases length_text l with rfl | hlength
      · have hnil : Line.blank.text = [] := rfl
        rw [if_pos hnil, ih ls res hfuel hls]
        rfl
      obtain ⟨k, hk⟩ := Nat.exists_eq_add_of_le' hlength
      rw [if_neg (fun hnil => by rw [hnil] at hlength; simp at hlength), hk]
      cases l with
      | blank => simp [Line.text] at hlength
      | heading title size =>
        rw [parseWords_heading hl, Option.bind_some, ih ls _ hfuel hls]
        rfl
      | description what =>
        have hread : parseWords (k + 2) (Line.description what).text (ls.map Line.text) res = _ :=
          parseWords_description hl k
        rw [hread, Option.bind_some, ih ls _ hfuel hls]
        rfl
      | digest sum md5 =>
        rw [parseWords_digest, Option.bind_some, ih ls _ hfuel hls]
        rfl
      | record tlv =>
        -- the only line that takes another one with it
        rw [parseWords_record, Option.bind_some]
        cases ls with
        | nil =>
          exact ih [] _ (Nat.zero_le _) (by simp)
        | cons next ls =>
          rw [List.map_cons, List.tail_cons, ih ls _ (Nat.le_of_succ_le hfuel)
            (List.forall_mem_cons.mp hls).2]
          rfl

/-! ### Lines and text -/

/-- There is no newline in it. -/
def Inline (s : List UInt8) : Prop := byte '\n' ∉ s

theorem Inline.append {s t : List UInt8} (hs : Inline s) (ht : Inline t) : Inline (s ++ t) := by
  rw [Inline, List.mem_append, not_or]
  exact ⟨hs, ht⟩

theorem Plain.inline {s : List UInt8} (h : Plain s) : Inline s := by
  intro hmem
  exact absurd (h _ hmem) (by decide +kernel)

theorem inline_spaces (n : ℕ) : Inline (List.replicate n (byte ' ')) := by
  intro hmem
  exact absurd (List.eq_of_mem_replicate hmem) (by decide)

theorem inline_printValue (first : Bool) (value : List UInt8) : Inline (printValue first value) := by
  induction value generalizing first with
  | nil => exact List.not_mem_nil
  | cons c value ih =>
    refine Inline.append (Inline.append ?_ (plain_toHex c true).inline) (ih false)
    cases first with
    | true => exact List.not_mem_nil
    | false => exact inline_spaces 1

theorem Phrase.inline {s : List UInt8} (h : Phrase s) : Inline s := by
  cases h with
  | one hw _ => exact hw.inline
  | two hw _ hv _ => exact hw.inline.append ((inline_spaces 1).append hv.inline)

theorem Line.Good.inline {l : Line} (h : l.Good) : Inline l.text := by
  cases l with
  | blank => exact List.not_mem_nil
  | heading title size =>
    have hlead : Inline (bytes "Message=") := by rw [Inline]; decide +kernel
    have hsize : Inline (bytes " completeSizeOfMsgInBytes=") := by rw [Inline]; decide +kernel
    exact ((hlead.append (Plain.inline h)).append hsize).append (plain_digits size).inline
  | record tlv =>
    have htag : Inline (bytes "  T=") := by rw [Inline]; decide +kernel
    have hlength : Inline (bytes " L=") := by rw [Inline]; decide +kernel
    have hvalue : Inline (bytes " V=") := by rw [Inline]; decide +kernel
    exact ((((htag.append (plain_toHex _ true).inline).append hlength).append
      ((plain_digits _).inline.append (inline_spaces _))).append hvalue).append
        (inline_printValue true tlv.value)
  | description what =>
    have hopen : Inline (bytes "    (") := by rw [Inline]; decide +kernel
    have hclose : Inline (bytes ")") := by rw [Inline]; decide +kernel
    exact (hopen.append (Phrase.inline h)).append hclose
  | digest sum md5 =>
    have hname : Inline (bytes sum.name ++ bytes sum.gap ++ bytes "MD5=") := by
      rw [Inline]
      cases sum <;> decide +kernel
    exact hname.append (plain_hexBytes _).inline

theorem lines_cons {line : List UInt8} (h : Inline line) (rest : List UInt8) :
    lines (line ++ byte '\n' :: rest) = line :: lines rest := by
  induction line with
  | nil => rw [List.nil_append, lines, if_pos rfl]
  | cons c line ih =>
    rw [Inline, List.mem_cons, not_or] at h
    rw [List.cons_append, lines, if_neg (Ne.symm h.1), ih h.2]

theorem lines_unlines {ls : List Line} (h : ∀ l ∈ ls, l.Good) :
    lines (unlines ls) = ls.map Line.text := by
  induction ls with
  | nil => rfl
  | cons l ls ih =>
    obtain ⟨hl, hls⟩ := List.forall_mem_cons.mp h
    have hcons : unlines (l :: ls) = l.text ++ byte '\n' :: unlines ls := by
      rw [unlines, List.flatMap_cons, List.append_assoc]
      rfl
    rw [hcons, lines_cons hl.inline, ih hls, List.map_cons]

/-! ### Messages -/

/-- The text of several messages. -/
def output (printed : List (String × Message)) : List UInt8 :=
  printed.flatMap (fun p => p.2.print p.1)

/-- All lines of it. -/
def outputLines (printed : List (String × Message)) : List Line :=
  printed.flatMap (fun p => messageLines p.1 p.2)

theorem good_digest (sum : Sum) (md5 : Option Digest) :
    ∀ l ∈ (md5.map (Line.digest sum)).toList, l.Good := by
  intro l hl
  rw [Option.mem_toList, Option.map_eq_some_iff] at hl
  obtain ⟨d, -, rfl⟩ := hl
  trivial

theorem good_messageLines {title : String} (htitle : Plain (bytes title)) (m : Message) :
    ∀ l ∈ messageLines title m, l.Good := by
  intro l hl
  rw [messageLines, List.mem_cons, List.mem_append, List.mem_append] at hl
  rcases hl with rfl | (hl | hl) | hl
  · exact htitle
  · obtain ⟨tlv, -, hl⟩ := List.mem_flatMap.mp hl
    rw [recordLines, List.mem_cons] at hl
    rcases hl with rfl | hl
    · trivial
    · split_ifs at hl with hdecode
      · obtain rfl := List.mem_singleton.mp hl
        exact (described_decode tlv).resolve_left hdecode
      · exact absurd hl List.not_mem_nil
  · rw [digestLines, List.mem_append, List.mem_append] at hl
    rcases hl with (hl | hl) | hl
    · exact good_digest .received m.receivedMd5 l hl
    · exact good_digest .calculated m.calculatedMd5 l hl
    · exact good_digest .xored m.xoredMd5 l hl
  · obtain rfl := List.mem_singleton.mp hl
    trivial

/-- What the test cases read of messages: the first field with a key counts. -/
theorem parseNhacOutput_output {printed : List (String × Message)}
    (htitle : ∀ p ∈ printed, Plain (bytes p.1)) :
    parseNhacOutput (output printed) = some (Table.empty.emplaces (readLines (outputLines printed))) := by
  have hgood : ∀ l ∈ outputLines printed, l.Good := by
    intro l hl
    obtain ⟨p, hp, hl⟩ := List.mem_flatMap.mp hl
    exact good_messageLines (htitle p hp) p.2 l hl
  have htext : output printed = unlines (outputLines printed) := by
    rw [unlines, outputLines, List.flatMap_assoc]
    exact List.flatMap_congr fun p _ => print_eq p.2 p.1
  rw [parseNhacOutput, htext, lines_unlines hgood, List.length_map]
  exact parseLines_eq _ _ _ le_rfl hgood

/-! ### The fields of a message -/

/-- The keys of a record. -/
def tagKey (tlv : TLV) : List UInt8 := bytes (toHex tlv.tag true)
def decodedKey (tlv : TLV) : List UInt8 := tagKey tlv ++ bytes "_decoded"

/-- The description in parentheses, or nothing. -/
def described (tlv : TLV) : List UInt8 :=
  if tlv.decode = "" then [] else bytes "(" ++ bytes tlv.decode ++ bytes ")"

def tlvFields (tlv : TLV) : List (List UInt8 × List UInt8) :=
  [(tagKey tlv, printValue true tlv.value), (decodedKey tlv, described tlv)]

def digestField (sum : Sum) (md5 : Option Digest) : List (List UInt8 × List UInt8) :=
  (md5.map (fun md5 => (bytes sum.name, bytes (hexBytes md5.toList)))).toList

def digestFields (m : Message) : List (List UInt8 × List UInt8) :=
  digestField .received m.receivedMd5 ++ digestField .calculated m.calculatedMd5 ++
    digestField .xored m.xoredMd5

/-- What the test cases expect of a message: its size, for every record its value and its description,
    and the digests. -/
def fields (m : Message) : List (List UInt8 × List UInt8) :=
  (bytes "completeSizeOfMsgInBytes", bytes (toString m.getCompleteSizeOfMsgInBytes.toNat)) ::
    (m.tlvs.flatMap tlvFields ++ digestFields m)

theorem trimFront_description (what : List UInt8) :
    trimFront (bytes " \n\r") (bytes "    (" ++ what ++ bytes ")") =
      bytes "(" ++ what ++ bytes ")" := by
  have hspaces : ∀ c ∈ List.replicate 4 (byte ' '), decide (c ∈ bytes " \n\r") = true := by
    decide +kernel
  have hnot : decide (byte '(' ∈ bytes " \n\r") = false := by decide +kernel
  have hline : bytes "    (" ++ what ++ bytes ")" =
      List.replicate 4 (byte ' ') ++ (byte '(' :: (what ++ bytes ")")) := rfl
  rw [hline, trimFront, if_neg, List.dropWhile_append_of_pos hspaces,
    List.dropWhile_cons_of_neg (by rw [hnot]; exact Bool.false_ne_true)]
  · rfl
  · simp [hnot]

/-- A record with a description takes just that. -/
theorem readLines_record {tlv : TLV} (h : tlv.decode ≠ "") (ls : List Line) :
    readLines (recordLines tlv ++ ls) = tlvFields tlv ++ readLines ls := by
  rw [recordLines, if_pos h, List.cons_append, List.cons_append, List.nil_append, readLines,
    recordFields, Line.text, trimFront_description, tlvFields, described, if_neg h]
  rfl

theorem readLines_records {tlvs : List TLV} (h : ∀ tlv ∈ tlvs, tlv.decode ≠ "") (ls : List Line) :
    readLines (tlvs.flatMap recordLines ++ ls) = tlvs.flatMap tlvFields ++ readLines ls := by
  induction tlvs with
  | nil => rfl
  | cons tlv tlvs ih =>
    obtain ⟨htlv, htlvs⟩ := List.forall_mem_cons.mp h
    rw [List.flatMap_cons, List.append_assoc, readLines_record htlv, ih htlvs, List.flatMap_cons,
      List.append_assoc]

theorem readLines_digest (sum : Sum) (md5 : Option Digest) (ls : List Line) :
    readLines ((md5.map (Line.digest sum)).toList ++ ls) = digestField sum md5 ++ readLines ls := by
  cases md5 with
  | none => rfl
  | some md5 => rfl

theorem readLines_digests (m : Message) (ls : List Line) :
    readLines (digestLines m ++ ([.blank] ++ ls)) = digestFields m ++ readLines ls := by
  rw [digestLines, List.append_assoc, List.append_assoc, readLines_digest, readLines_digest,
    readLines_digest, digestFields, List.append_assoc, List.append_assoc]
  rfl

theorem readLines_message {m : Message} (h : ∀ tlv ∈ m.tlvs, tlv.decode ≠ "") (title : String)
    (ls : List Line) : readLines (messageLines title m ++ ls) = fields m ++ readLines ls := by
  rw [messageLines, List.cons_append, readLines, List.append_assoc, List.append_assoc,
    readLines_records h, readLines_digests, fields, List.cons_append, List.append_assoc]

/-- Messages with descriptions are read completely. -/
theorem readLines_output {printed : List (String × Message)}
    (h : ∀ p ∈ printed, ∀ tlv ∈ p.2.tlvs, tlv.decode ≠ "") :
    readLines (outputLines printed) = printed.flatMap (fun p => fields p.2) := by
  induction printed with
  | nil => rfl
  | cons p printed ih =>
    obtain ⟨hp, hprinted⟩ := List.forall_mem_cons.mp h
    rw [outputLines] at ih ⊢
    rw [List.flatMap_cons, readLines_message hp, ih hprinted, List.flatMap_cons]

/-! ### Keys -/

theorem digitValue_xDigits {i : ℕ} (hi : i < 16) : digitValue (byte (xDigits.getD i '0')) = i := by
  interval_cases i <;> rfl

/-- A byte is read back from its two digits. -/
theorem stoiHex_toHex (x : UInt8) : stoiHex (bytes (toHex x true)) = x := by
  have hlt := x.toNat_lt
  have hmask : ∀ n : ℕ, n &&& 15 = n % 16 := fun n => Nat.and_two_pow_sub_one_eq_mod n 4
  have hhigh : ((x >>> 4) &&& 0xf).toNat = x.toNat / 16 := by
    rw [UInt8.toNat_and, UInt8.toNat_shiftRight]
    change (x.toNat >>> 4) &&& 15 = _
    rw [hmask, Nat.shiftRight_eq_div_pow]
    omega
  have hlow : (x &&& 0xf).toNat = x.toNat % 16 := by
    rw [UInt8.toNat_and]
    exact hmask _
  have hdigits : (bytes (toHex x true)).drop 2 = [byte (xDigits.getD (x.toNat / 16) '0'),
      byte (xDigits.getD (x.toNat % 16) '0')] := by
    have hlead : (bytes "0x").length = 2 := rfl
    rw [toHex, hhigh, hlow, if_pos rfl, bytes_append, List.drop_left' hlead, bytes,
      String.toList_ofList]
    rfl
  rw [stoiHex, hdigits, List.foldl_cons, List.foldl_cons, List.foldl_nil,
    digitValue_xDigits (by omega), digitValue_xDigits (by omega),
    show 16 * (16 * 0 + x.toNat / 16) + x.toNat % 16 = x.toNat by omega, UInt8.ofNat_toNat]

theorem toHex_injective {x y : UInt8} (h : bytes (toHex x true) = bytes (toHex y true)) : x = y := by
  rw [← stoiHex_toHex x, h, stoiHex_toHex]

theorem length_tagKey (tlv : TLV) : (tagKey tlv).length = 4 := by
  simp [tagKey, bytes, toHex]

section
variable {u : TLV} {pre : List TLV} {value x : List UInt8} {rest : List (List UInt8 × List UInt8)}

theorem tagKey_ne_decodedKey (tlv u : TLV) : decodedKey u ≠ tagKey tlv := by
  intro h
  have hlength := congrArg List.length h
  rw [decodedKey, List.length_append, length_tagKey, length_tagKey] at hlength
  exact absurd hlength (by decide +kernel)

/-- The description of a record is found behind the records before it. -/
theorem lookup_decodedKey (hpre : u.tag ∉ pre.map TLV.tag) (size : List UInt8) :
    ((bytes "completeSizeOfMsgInBytes", size) :: (pre.flatMap tlvFields ++
      ((tagKey u, value) :: (decodedKey u, x) :: rest))).lookup (decodedKey u) = some x := by
  have hsize : decodedKey u ≠ bytes "completeSizeOfMsgInBytes" := by
    intro h
    have hlength := congrArg List.length h
    rw [decodedKey, List.length_append, length_tagKey] at hlength
    exact absurd hlength (by decide +kernel)
  have hnone : (pre.flatMap tlvFields).lookup (decodedKey u) = none := by
    rw [List.lookup_eq_none_iff]
    intro f hf
    obtain ⟨tlv, htlv, hf⟩ := List.mem_flatMap.mp hf
    rw [bne_iff_ne]
    rcases List.mem_cons.mp hf with rfl | hf
    · exact tagKey_ne_decodedKey tlv u
    · obtain rfl := List.mem_singleton.mp hf
      intro h
      have htag := toHex_injective (List.append_cancel_right h)
      exact hpre (htag ▸ List.mem_map_of_mem htlv)
  rw [List.lookup_cons, beq_false_of_ne hsize]
  dsimp only
  rw [List.lookup_append, hnone, Option.none_or, List.lookup_cons,
    beq_false_of_ne (tagKey_ne_decodedKey u u)]
  dsimp only
  rw [List.lookup_cons_self]

end

/-! ### What a line takes -/

theorem trimFront_ne_nil {set s : List UInt8} (h : s ≠ []) : trimFront set s ≠ [] := by
  rw [trimFront]
  split_ifs with hall
  · exact h
  · rw [Ne, List.dropWhile_eq_nil_iff]
    intro hnil
    exact hall (List.all_eq_true.mpr hnil)

/-- Behind a record of a message with a digest there is a line that is not empty. -/
theorem exists_next {m : Message} (hmd5 : m.calculatedMd5.isSome = true) (tlvs : List TLV) :
    ∃ next ls, tlvs.flatMap recordLines ++ (digestLines m ++ [.blank]) = next :: ls ∧
      next.text ≠ [] := by
  have hfull : ∀ l : Line, l ≠ .blank → l.text ≠ [] := by
    intro l hl hnil
    have hlength := (length_text l).resolve_left hl
    rw [hnil] at hlength
    exact absurd hlength (by decide)
  cases tlvs with
  | cons tlv tlvs => exact ⟨.record tlv, _, rfl, hfull _ (by simp)⟩
  | nil =>
    obtain ⟨calculated, hcalculated⟩ := Option.isSome_iff_exists.mp hmd5
    rw [List.flatMap_nil, List.nil_append, digestLines, hcalculated]
    cases m.receivedMd5 with
    | none => exact ⟨.digest .calculated calculated, _, rfl, hfull _ (by simp)⟩
    | some received => exact ⟨.digest .received received, _, rfl, hfull _ (by simp)⟩

section
variable {m : Message} {u : TLV} {pre post : List TLV} {next : Line} {ls : List Line}

/-- The first record without a description has the next line for one. -/
theorem lookup_undescribed (title : String) (htlvs : m.tlvs = pre ++ u :: post)
    (hpre : ∀ tlv ∈ pre, tlv.decode ≠ "") (hu : u.decode = "") (htag : u.tag ∉ pre.map TLV.tag)
    (hnext : post.flatMap recordLines ++ (digestLines m ++ [.blank]) = next :: ls) :
    (readLines (messageLines title m)).lookup (decodedKey u) =
      some (trimFront (bytes " \n\r") next.text) := by
  have hlines : m.tlvs.flatMap recordLines ++ digestLines m ++ [.blank] =
      pre.flatMap recordLines ++ (.record u :: next :: ls) := by
    rw [htlvs, List.flatMap_append, List.flatMap_cons, recordLines, if_neg (not_not.mpr hu), ← hnext]
    simp only [List.append_assoc, List.cons_append, List.nil_append]
  rw [messageLines, readLines, hlines, readLines_records hpre, readLines]
  exact lookup_decodedKey htag _

/-- It is expected to have none. -/
theorem fields_undescribed (htlvs : m.tlvs = pre ++ u :: post) (hu : u.decode = "")
    (htag : u.tag ∉ pre.map TLV.tag) : (fields m).lookup (decodedKey u) = some [] := by
  have hnone : described u = [] := if_pos hu
  rw [fields, htlvs, List.flatMap_append, List.flatMap_cons, List.append_assoc, List.append_assoc,
    tlvFields, hnone]
  exact lookup_decodedKey htag _

/-- Different tags: no record before this one has its tag. -/
theorem tag_not_mem (htags : (m.tlvs.map TLV.tag).Nodup) (htlvs : m.tlvs = pre ++ u :: post) :
    u.tag ∉ pre.map TLV.tag := by
  rw [htlvs, List.map_append, List.map_cons] at htags
  exact fun hmem => (List.nodup_append.mp htags).2.2 _ hmem _ List.mem_cons_self rfl

end

/-- CORRECT: the test cases read a printed message back completely, and nothing else, exactly when
    every record of it has a description. The first record without one gets the line behind it for a
    description: the next record, or the first of the digests. -/
theorem readBack_iff (m : Message) (title : String) (htitle : Plain (bytes title))
    (hmd5 : m.calculatedMd5.isSome = true) (htags : (m.tlvs.map TLV.tag).Nodup) :
    ((∃ res, parseNhacOutput (m.print title) = some res ∧
      ∀ key, res.field key = (fields m).lookup key) ↔ ∀ tlv ∈ m.tlvs, tlv.decode ≠ "") ∧
    ∀ pre u post, m.tlvs = pre ++ u :: post → (∀ tlv ∈ pre, tlv.decode ≠ "") → u.decode = "" →
      ∃ res next ls, parseNhacOutput (m.print title) = some res ∧
        post.flatMap recordLines ++ (digestLines m ++ [.blank]) = next :: ls ∧
        res.field (decodedKey u) = some (trimFront (bytes " \n\r") next.text) := by
  have hread : parseNhacOutput (m.print title) =
      some (Table.empty.emplaces (readLines (messageLines title m))) := by
    have hone := @parseNhacOutput_output [(title, m)] (by simpa using htitle)
    rwa [output, outputLines, List.flatMap_singleton, List.flatMap_singleton] at hone
  rw [hread]
  refine ⟨⟨?_, ?_⟩, ?_⟩
  · rintro ⟨res, hres, hfields⟩ tlv htlv hnone
    obtain rfl := Option.some.inj hres
    -- up to the first record without a description everything is read as it was printed
    have hfirst : (m.tlvs.find? (fun tlv => tlv.decode = "")).isSome = true :=
      List.find?_isSome.mpr ⟨tlv, htlv, by simpa using hnone⟩
    obtain ⟨u, hfind⟩ := Option.isSome_iff_exists.mp hfirst
    obtain ⟨hu, pre, post, htlvs, hpre⟩ := List.find?_eq_some_iff_append.mp hfind
    have htag := tag_not_mem htags htlvs
    have hu' : u.decode = "" := by simpa using hu
    obtain ⟨next, ls, hnext, htext⟩ := exists_next hmd5 post
    have hfield := hfields (decodedKey u)
    rw [Table.field_emplaces, fields_undescribed htlvs hu' htag, lookup_undescribed title htlvs
      (fun tlv htlv => by simpa using hpre tlv htlv) hu' htag hnext] at hfield
    exact trimFront_ne_nil htext (Option.some.inj hfield)
  · intro h
    refine ⟨_, rfl, fun key => ?_⟩
    have hall := readLines_message h title []
    rw [List.append_nil, readLines, List.append_nil] at hall
    rw [Table.field_emplaces, hall]
    rfl
  · intro pre u post htlvs hpre hu
    obtain ⟨next, ls, hnext, -⟩ := exists_next hmd5 post
    refine ⟨_, next, ls, rfl, hnext, ?_⟩
    rw [Table.field_emplaces, lookup_undescribed title htlvs hpre hu (tag_not_mem htags htlvs) hnext]
    rfl

/-- A query for the type and a record that the client does not know. -/
def sampleMessage (tlvs : List TLV) : Message :=
  ⟨⟨0x02, [0x01]⟩ :: tlvs, none, some (List.Vector.replicate 16 0), none⟩

/-- Behind the unknown record the digest is lost: it is taken for the description. -/
theorem sampleMessage_readBack :
    (∃ res, parseNhacOutput ((sampleMessage [⟨0x91, []⟩]).print "query_000") = some res ∧
      ∀ key, res.field key = (fields (sampleMessage [⟨0x91, []⟩])).lookup key) ∧
    (¬ ∃ res, parseNhacOutput ((sampleMessage [⟨0x99, []⟩]).print "query_000") = some res ∧
      ∀ key, res.field key = (fields (sampleMessage [⟨0x99, []⟩])).lookup key) ∧
    ∃ res, parseNhacOutput ((sampleMessage [⟨0x99, []⟩]).print "query_000") = some res ∧
      res.field (decodedKey ⟨0x99, []⟩) = some (trimFront (bytes " \n\r")
        (Line.digest .calculated (List.Vector.replicate 16 0)).text) := by
  obtain ⟨hknown, -⟩ := readBack_iff (sampleMessage [⟨0x91, []⟩]) "query_000" (by decide +kernel) rfl
    (by decide)
  obtain ⟨hunknown, hnext⟩ := readBack_iff (sampleMessage [⟨0x99, []⟩]) "query_000"
    (by decide +kernel) rfl (by decide)
  refine ⟨?_, ?_, ?_⟩
  · rw [hknown]
    decide +kernel
  · rw [hunknown]
    decide +kernel
  · obtain ⟨res, next, ls, hres, hlines, hfield⟩ := hnext [⟨0x02, [0x01]⟩] ⟨0x99, []⟩ [] rfl
      (by decide +kernel) (by decide +kernel)
    obtain ⟨rfl, -⟩ := List.cons.inj hlines
    exact ⟨res, hres, hfield⟩

end NHA.Output
