import NativeHardwareAccess.Client.Description
import NativeHardwareAccess.Schemes.Words

/-! `ConfigurationParser` (configurationparser.cpp): the key-value file of the server.

    A line is a key, a whitespace and a value; the design document has the rest of the line as the
    value, which may contain whitespaces. `parseLine` extracts two words:

        line ── >> key ──▶ empty or '#' ─▶ nothing
                   │
                   └── >> value ─▶ trim ─▶ empty ─▶ nothing
                                     └─▶ configData[key] = value

    A file is the list of its bytes. Log output is left out. -/

namespace NHA.Configuration
open Scheme.Words
open NHA.Nhac (byte bytes text isspace)

structure ConfigurationParser where
  configData : List UInt8 → Option (List UInt8)

/-- Before `load`. -/
def ConfigurationParser.init : ConfigurationParser := ⟨fun _ => none⟩

/-- `configData[key] = value`. -/
def ConfigurationParser.set (c : ConfigurationParser) (key value : List UInt8) : ConfigurationParser :=
  ⟨Function.update c.configData key (some value)⟩

/-- `find_first_not_of` and `substr`; a text of nothing but such characters stays. -/
def trimFront (set value : List UInt8) : List UInt8 :=
  if value.all (· ∈ set) then value else value.dropWhile (· ∈ set)

/-- `find_last_not_of` and `substr`. -/
def trimBack (set value : List UInt8) : List UInt8 :=
  if value.all (· ∈ set) then value else value.rdropWhile (· ∈ set)

def parseLine (c : ConfigurationParser) (line : List UInt8) : ConfigurationParser :=
  if line = [] then c
  else
    -- ss >> key
    let key := extract isspace line
    if key.1 = [] ∨ key.1.head? = some (byte '#') then c
    else
      -- ss >> value
      let value := trimBack (bytes " \t\r\n") (trimFront (bytes " \t") (extract isspace key.2).1)
      if value ≠ [] then c.set key.1 value else c

/-- What repeated calls of `std::getline` give: the last line need not end in a newline. -/
def lines : List UInt8 → List (List UInt8)
  | [] => []
  | c :: content =>
    if c = byte '\n' then [] :: lines content
    else
      match lines content with
      | [] => [[c]]
      | line :: rest => (c :: line) :: rest

/-- `load`; a file that cannot be opened is `none`. -/
def ConfigurationParser.load (c : ConfigurationParser) (file : Option (List UInt8)) :
    Bool × ConfigurationParser :=
  match file with
  | none => (false, c)
  | some content => (true, (lines content).foldl parseLine c)

/-- `get` throws when the key is not there. -/
def ConfigurationParser.get (c : ConfigurationParser) (key : List UInt8) :
    Except String (List UInt8) :=
  match c.configData key with
  | none => .error ("Property not found in configuration: " ++ text key)
  | some value => .ok value

def ConfigurationParser.hasKey (c : ConfigurationParser) (key : List UInt8) : Bool :=
  (c.configData key).isSome

/-! ### What a file means -/

/-- The line has the key as its first word and, behind whitespace, the value up to its end, without
    the whitespace on either side. -/
def Defines (line key value : List UInt8) : Prop :=
  ∃ lead gap trail, line = lead ++ (key ++ (gap ++ (value ++ trail))) ∧ Blank isspace lead ∧
    Word isspace key ∧ Blank isspace gap ∧ gap ≠ [] ∧ Trimmed isspace value ∧ Blank isspace trail

/-- A blank line, a comment, or a key without a value. -/
def Idle (line : List UInt8) : Prop :=
  Blank isspace line ∨
  (∃ lead rest, line = lead ++ byte '#' :: rest ∧ Blank isspace lead) ∨
  (∃ lead key trail, line = lead ++ (key ++ trail) ∧ Blank isspace lead ∧ Word isspace key ∧
    Blank isspace trail)

/-- The configuration after loading a file. -/
def loaded (content : List UInt8) : ConfigurationParser :=
  (ConfigurationParser.init.load (some content)).2

/-- The file means for the key what the design document says. -/
structure Means (content key : List UInt8) : Prop where
  hasKey : (loaded content).hasKey key = true ↔
    ∃ line ∈ lines content, ∃ value, Defines line key value
  /-- The last line with the key counts. -/
  get : ∀ (pre : List (List UInt8)) line post value, lines content = pre ++ line :: post →
    Defines line key value → (∀ later ∈ post, ∀ v, ¬ Defines later key v) →
    (loaded content).get key = .ok value
  /-- Idle lines change nothing. -/
  idle : ∀ (pre : List (List UInt8)) line post, lines content = pre ++ line :: post → Idle line →
    (pre ++ post).foldl parseLine .init = loaded content
  throws : (∃ e, (loaded content).get key = .error e) ↔ (loaded content).hasKey key = false

/-- The last line that has the key has a single word behind it. -/
def SingleWord (content key : List UInt8) : Prop :=
  ∀ (pre : List (List UInt8)) line post value, lines content = pre ++ line :: post →
    Defines line key value → (∀ later ∈ post, ∀ v, ¬ Defines later key v) → Word isspace value

/-! ### One line -/

section
variable {c : ConfigurationParser} {line key value : List UInt8}

/-- Trimming takes nothing off a text without such characters. -/
theorem trim_eq_self {set w : List UInt8} (hne : w ≠ []) (h : ∀ c ∈ w, c ∉ set) :
    trimFront set w = w ∧ trimBack set w = w := by
  have hall : ¬ w.all (· ∈ set) = true := by
    obtain ⟨c, t, rfl⟩ := List.exists_cons_of_ne_nil hne
    simp [h c List.mem_cons_self]
  rw [trimFront, trimBack, if_neg hall, if_neg hall, List.rdropWhile_eq_self_iff]
  constructor
  · obtain ⟨c, t, rfl⟩ := List.exists_cons_of_ne_nil hne
    exact List.dropWhile_cons_of_neg (by simpa using h c List.mem_cons_self)
  · intro hne
    simpa using h _ (List.getLast_mem hne)

/-- A word has no whitespace to trim. -/
theorem trim_word {w : List UInt8} (hw : Word isspace w) :
    trimBack (bytes " \t\r\n") (trimFront (bytes " \t") w) = w := by
  have hblank : ∀ set : List UInt8, (∀ c ∈ set, isspace c = true) → ∀ c ∈ w, c ∉ set := by
    intro set hset c hc hmem
    have hspace := hset c hmem
    rw [hw.2 c hc] at hspace
    cases hspace
  have hfront := trim_eq_self hw.1 (hblank (bytes " \t") (by decide +kernel))
  have hback := trim_eq_self hw.1 (hblank (bytes " \t\r\n") (by decide +kernel))
  rw [hfront.1, hback.2]

/-- A key and a value are extracted as words. -/
theorem parseLine_words {lead gap rest : List UInt8} (hlead : Blank isspace lead)
    (hkey : Word isspace key) (hcomment : key.head? ≠ some (byte '#')) (hgap : Blank isspace gap)
    (hne : gap ≠ []) (hvalue : Word isspace value) (hrest : Ends isspace rest) :
    parseLine c (lead ++ (key ++ (gap ++ (value ++ rest)))) = c.set key value := by
  have hends : Ends isspace (gap ++ (value ++ rest)) := by
    intro d hd
    rw [List.head?_append_of_ne_nil _ hne] at hd
    exact hgap d (List.mem_of_mem_head? hd)
  have hline : lead ++ (key ++ (gap ++ (value ++ rest))) ≠ [] := by simp [hkey.1]
  rw [parseLine, if_neg hline, extract_word hlead hkey hends]
  dsimp only
  rw [if_neg (not_or.mpr ⟨hkey.1, hcomment⟩), extract_word hgap hvalue hrest, trim_word hvalue,
    if_pos hvalue.1]

/-- The first word of a value is stored. -/
theorem parseLine_defines (h : Defines line key value) (hcomment : key.head? ≠ some (byte '#')) :
    Word isspace (firstWord isspace value) ∧
      parseLine c line = c.set key (firstWord isspace value) := by
  obtain ⟨lead, gap, trail, rfl, hlead, hkey, hgap, hne, hvalue, htrail⟩ := h
  have hword := word_firstWord hvalue.1 hvalue.2.1
  have hsplit : value ++ trail = firstWord isspace value ++
      (value.dropWhile (fun c => !isspace c) ++ trail) := by
    rw [← List.append_assoc, firstWord, List.takeWhile_append_dropWhile]
  have hends : Ends isspace (value.dropWhile (fun c => !isspace c) ++ trail) := by
    intro d hd
    rcases eq_or_ne (value.dropWhile (fun c => !isspace c)) [] with hnil | hrest
    · rw [hnil, List.nil_append] at hd
      exact htrail d (List.mem_of_mem_head? hd)
    · rw [List.head?_append_of_ne_nil _ hrest] at hd
      exact ends_dropWhile d hd
  rw [hsplit]
  exact ⟨hword, parseLine_words hlead hkey hcomment hgap hne hword hends⟩

theorem parseLine_idle (h : Idle line) : parseLine c line = c := by
  rcases h with hblank | ⟨lead, rest, rfl, hlead⟩ | ⟨lead, key, trail, rfl, hlead, hkey, htrail⟩
  · rw [parseLine, extract_blank hblank]
    simp
  · -- the first word starts with the number sign
    have hsign : isspace (byte '#') = false := by decide
    have hword : Word isspace (firstWord isspace (byte '#' :: rest)) :=
      word_firstWord (by simp) (by simpa using hsign)
    have hhead : (firstWord isspace (byte '#' :: rest)).head? = some (byte '#') := by
      simp [firstWord, hsign]
    have hsplit : byte '#' :: rest = firstWord isspace (byte '#' :: rest) ++
        (byte '#' :: rest).dropWhile (fun c => !isspace c) := List.takeWhile_append_dropWhile.symm
    rw [parseLine, if_neg (by simp), hsplit, extract_word hlead hword ends_dropWhile]
    dsimp only
    rw [if_pos (Or.inr hhead)]
  · have hends : Ends isspace trail := fun d hd => htrail d (List.mem_of_mem_head? hd)
    have hline : lead ++ (key ++ trail) ≠ [] := by simp [hkey.1]
    rw [parseLine, if_neg hline, extract_word hlead hkey hends]
    dsimp only
    rw [extract_blank htrail]
    split
    · rfl
    · rfl

/-- Every line is idle or has a key and a value. -/
theorem idle_or_defines (line : List UInt8) :
    Idle line ∨ ∃ key value, key.head? ≠ some (byte '#') ∧ Defines line key value := by
  rcases blank_or_word isspace line with hblank | ⟨lead, key, rest, rfl, hlead, hkey, hends⟩
  · exact Or.inl (Or.inl hblank)
  · by_cases hcomment : key.head? = some (byte '#')
    · obtain ⟨t, rfl⟩ := List.head?_eq_some_iff.mp hcomment
      exact Or.inl (Or.inr (Or.inl ⟨lead, t ++ rest, rfl, hlead⟩))
    · by_cases hrest : Blank isspace rest
      · exact Or.inl (Or.inr (Or.inr ⟨lead, key, rest, rfl, hlead, hkey, hrest⟩))
      · obtain ⟨gap, value, trail, rfl, hgap, hvalue, htrail⟩ := exists_trimmed hrest
        refine Or.inr ⟨key, value, hcomment, lead, gap, trail, rfl, hlead, hkey, hgap, ?_, hvalue, htrail⟩
        -- what follows the key starts with whitespace, the value does not
        rintro rfl
        obtain ⟨d, t, rfl⟩ := List.exists_cons_of_ne_nil hvalue.1
        have hspace : isspace d = true := hends d rfl
        have hword : isspace d = false := hvalue.2.1 d rfl
        rw [hword] at hspace
        cases hspace

end

/-! ### Files -/

section
variable {c : ConfigurationParser} {key value : List UInt8}

theorem set_configData (k v : List UInt8) : (c.set k v).configData key =
    if key = k then some v else c.configData key :=
  Function.update_apply _ _ _ _

/-- Lines that do not have the key leave its value. -/
theorem foldl_configData (post : List (List UInt8)) (h : ∀ later ∈ post, ∀ v, ¬ Defines later key v)
    (c : ConfigurationParser) : (post.foldl parseLine c).configData key = c.configData key := by
  induction post generalizing c with
  | nil => rfl
  | cons line post ih =>
    rw [List.forall_mem_cons] at h
    rw [List.foldl_cons, ih h.2]
    rcases idle_or_defines line with hidle | ⟨k, v, hcomment, hdefines⟩
    · rw [parseLine_idle hidle]
    · rw [(parseLine_defines hdefines hcomment).2, set_configData, if_neg]
      rintro rfl
      exact h.1 v hdefines

theorem configData_of_last {content : List UInt8} {pre : List (List UInt8)} {line : List UInt8}
    {post : List (List UInt8)} (hcomment : key.head? ≠ some (byte '#'))
    (hlines : lines content = pre ++ line :: post) (hdefines : Defines line key value)
    (hlast : ∀ later ∈ post, ∀ v, ¬ Defines later key v) :
    (loaded content).configData key = some (firstWord isspace value) := by
  rw [loaded, ConfigurationParser.load, hlines, List.foldl_append, List.foldl_cons,
    foldl_configData post hlast, (parseLine_defines hdefines hcomment).2, set_configData, if_pos rfl]

theorem configData_of_none {content : List UInt8}
    (h : ∀ line ∈ lines content, ∀ v, ¬ Defines line key v) : (loaded content).configData key = none := by
  rw [loaded, ConfigurationParser.load, foldl_configData _ h]
  rfl

end

/-- A configuration file means what the design document says exactly when the last line with the key
    has a single word behind it: of several words only the first is read. -/
theorem means_iff (content key : List UInt8) (hcomment : key.head? ≠ some (byte '#')) :
    Means content key ↔ SingleWord content key := by
  constructor
  · intro hmeans pre line post value hlines hdefines hlast
    have hget := hmeans.get pre line post value hlines hdefines hlast
    have hfirst := configData_of_last hcomment hlines hdefines hlast
    rw [ConfigurationParser.get, hfirst] at hget
    have hword := (parseLine_defines (c := .init) hdefines hcomment).1
    rwa [Except.ok.inj hget] at hword
  · intro hsingle
    refine ⟨?_, ?_, ?_, ?_⟩
    · constructor
      · intro hhas
        by_contra hnone
        push Not at hnone
        rw [ConfigurationParser.hasKey, configData_of_none hnone] at hhas
        cases hhas
      · intro hsome
        obtain ⟨pre, line, post, hlines, ⟨value, hdefines⟩, hlast⟩ := exists_last hsome
        rw [ConfigurationParser.hasKey, configData_of_last hcomment hlines hdefines]
        · rfl
        · intro later hlater v hv
          exact hlast later hlater ⟨v, hv⟩
    · intro pre line post value hlines hdefines hlast
      have hword := hsingle pre line post value hlines hdefines hlast
      rw [ConfigurationParser.get, configData_of_last hcomment hlines hdefines hlast,
        firstWord_eq_self_iff.mpr hword.2]
    · intro pre line post hlines hidle
      rw [loaded, ConfigurationParser.load, hlines, List.foldl_append, List.foldl_append,
        List.foldl_cons, parseLine_idle hidle]
    · rw [ConfigurationParser.get, ConfigurationParser.hasKey]
      cases (loaded content).configData key with
      | none => simp
      | some value => simp

/-- A line with one whitespace has one word behind the key. -/
theorem singleWord_port : SingleWord (bytes "port 7872") (bytes "port") := by
  intro pre line post value hlines hdefines _
  have hmem : line ∈ lines (bytes "port 7872") := by simp [hlines]
  have hline : line = bytes "port 7872" := by
    have hall : lines (bytes "port 7872") = [bytes "port 7872"] := by decide
    rw [hall] at hmem
    exact List.mem_singleton.mp hmem
  obtain ⟨lead, gap, trail, hsplit, -, -, hgap, hne, hvalue, -⟩ := hdefines
  have hcount : line.countP isspace = 1 := by
    rw [hline]
    decide
  have hpos : 0 < gap.countP isspace := by
    rw [List.countP_eq_length.mpr hgap]
    exact List.length_pos_of_ne_nil hne
  rw [hsplit] at hcount
  simp only [List.countP_append] at hcount
  have hzero : value.countP isspace = 0 := by omega
  exact ⟨hvalue.1, fun c hc => by simpa using List.countP_eq_zero.mp hzero c hc⟩

theorem means_port : Means (bytes "port 7872") (bytes "port") :=
  (means_iff (bytes "port 7872") (bytes "port") (by decide)).mpr singleWord_port

/-- The value of `host` is `a b`, but `get` returns `a`. -/
theorem not_means_host : ¬ Means (bytes "host a b") (bytes "host") := by
  intro hmeans
  have hlines : lines (bytes "host a b") = [] ++ bytes "host a b" :: [] := by decide
  have hdefines : Defines (bytes "host a b") (bytes "host") (bytes "a b") :=
    ⟨[], [0x20], [], by decide⟩
  have hget := hmeans.get [] _ [] _ hlines hdefines (by simp)
  exact absurd hget (by decide)

end NHA.Configuration
