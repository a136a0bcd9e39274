import NativeHardwareAccess.Client.Process
import NativeHardwareAccess.Server.Configuration

/-! What the client prints (`Message::print` in tools/src/nhac.cpp), and how the test cases read it
    (`parse_nhac_output` in test/nha_test_case.cpp).

        Message=response_000 completeSizeOfMsgInBytes=38       title
          T=0x02 L=1   V=0x01                                  record
            (type Standard)                                    description, if there is one
        received   MD5=cae824810c258a53c798025a484f3426        digests
                                                               blank

    The reader looks at the words of a line. After a record it takes the whole next line for the
    description, whatever stands there. A field that is there already stays. -/

namespace NHA.Nhac
open Scheme Scheme.MD5

/-- `std::endl`. -/
def endl : List UInt8 := [byte '\n']

/-- The bytes of a value with the separator before all but the first. -/
def printValue : Bool → List UInt8 → List UInt8
  | _, [] => []
  | first, c :: value =>
    (if !first then bytes " " else []) ++ bytes (toHex c true) ++ printValue false value

/-- `setw(3)` and `left`. -/
def leftThree (s : List UInt8) : List UInt8 := s ++ List.replicate (3 - s.length) (byte ' ')

/-- One turn of the loop over the records. -/
def printTlv (tlv : TLV) : List UInt8 :=
  bytes "  T=" ++ bytes (toHex tlv.tag true) ++ bytes " L=" ++
    leftThree (bytes (toString tlv.getLength.toNat)) ++ bytes " V=" ++ printValue true tlv.value ++
    endl ++
    (if tlv.decode ≠ "" then bytes "    (" ++ bytes tlv.decode ++ bytes ")" ++ endl else [])

def printMd5 (label : String) : Option Digest → List UInt8
  | none => []
  | some md5 => bytes label ++ bytes (hexBytes md5.toList) ++ endl

def Message.print (m : Message) (title : String) : List UInt8 :=
  bytes "Message=" ++ bytes title ++ bytes " completeSizeOfMsgInBytes=" ++
    bytes (toString m.getCompleteSizeOfMsgInBytes.toNat) ++ endl ++ m.tlvs.flatMap printTlv ++
    printMd5 "received   MD5=" m.receivedMd5 ++ printMd5 "calculated MD5=" m.calculatedMd5 ++
    printMd5 "xored      MD5=" m.xoredMd5 ++ endl

end NHA.Nhac

namespace NHA.Output
open Scheme Scheme.MD5 Scheme.Words NHA.Nhac
open NHA.Configuration (lines trimFront)

/-! ### The reader -/

/-- `std::unordered_map<std::string, std::string>`. -/
structure Table where
  field : List UInt8 → Option (List UInt8)

def Table.empty : Table := ⟨fun _ => none⟩

/-- `emplace`: a field that is there already stays. -/
def Table.emplace (res : Table) (key value : List UInt8) : Table :=
  if (res.field key).isSome then res else ⟨Function.update res.field key (some value)⟩

/-- `substr(pos)` throws when the text is shorter. -/
def substr (s : List UInt8) (pos : ℕ) : Option (List UInt8) :=
  if s.length < pos then none else some (s.drop pos)

/-- The branches for the digests: the next word without `MD5=`, and what follows it. -/
def parseMd5 (res : Table) (name : String) (line_ss : List UInt8) : Option (Table × List UInt8) :=
  let word := extract isspace line_ss
  (substr word.1 4).map (fun md5 => (res.emplace (bytes name) md5, word.2))

/-- The loop over the words of a line: what is left of the text, and the table. Every turn takes a
    word, so the length of the line is fuel enough; `none` is an exception. -/
def parseWords : ℕ → List UInt8 → List (List UInt8) → Table → Option (List (List UInt8) × Table)
  | 0, _, ss, res => some (ss, res)
  | fuel + 1, line_ss, ss, res =>
    let token := extract isspace line_ss
    if token.1 = [] then some (ss, res)
    else if token.1.take 25 = bytes "completeSizeOfMsgInBytes=" then
      parseWords fuel token.2 ss (res.emplace (bytes "completeSizeOfMsgInBytes") (token.1.drop 25))
    else if token.1.take 2 = bytes "T=" then
      -- TLV begins with Tag
      let tag := token.1.drop 2
      -- next token is Length
      let length := extract isspace token.2
      -- first token in Value has prefix
      let value := extract isspace length.2
      match substr length.1 2, substr value.1 2 with
      | some _, some value_string =>
        -- the rest of the line, and the next line for the decoded value
        let res := res.emplace tag (value_string ++ value.2)
        let decoded := trimFront (bytes " \n\r") (ss.headD [])
        some (ss.tail, res.emplace (tag ++ bytes "_decoded") decoded)
      | _, _ => none
    else if token.1 = bytes "received" then
      (parseMd5 res "received" token.2).bind (fun r => parseWords fuel r.2 ss r.1)
    else if token.1 = bytes "xored" then
      (parseMd5 res "xored" token.2).bind (fun r => parseWords fuel r.2 ss r.1)
    else if token.1 = bytes "calculated" then
      (parseMd5 res "calculated" token.2).bind (fun r => parseWords fuel r.2 ss r.1)
    else parseWords fuel token.2 ss res

/-- The loop over the lines. -/
def parseLines : ℕ → List (List UInt8) → Table → Option Table
  | 0, _, res => some res
  | _ + 1, [], res => some res
  | fuel + 1, line :: ss, res =>
    if line = [] then parseLines fuel ss res
    else (parseWords line.length line ss res).bind (fun r => parseLines fuel r.1 r.2)

def parseNhacOutput (message : List UInt8) : Option Table :=
  parseLines (lines message).length (lines message) .empty

/-! ### The lines of a message -/

/-- The three digests a message may have. -/
inductive Sum where
  | received
  | calculated
  | xored

def Sum.name : Sum → String
  | .received => "received"
  | .calculated => "calculated"
  | .xored => "xored"

/-- What aligns them. -/
def Sum.gap : Sum → String
  | .received => "   "
  | .calculated => " "
  | .xored => "      "

inductive Line where
  | heading (title : String) (size : ℕ)
  | record (tlv : TLV)
  | description (what : String)
  | digest (sum : Sum) (md5 : Digest)
  | blank

def Line.text : Line → List UInt8
  | .heading title size => bytes "Message=" ++ bytes title ++
      bytes " completeSizeOfMsgInBytes=" ++ bytes (toString size)
  | .record tlv => bytes "  T=" ++ bytes (toHex tlv.tag true) ++ bytes " L=" ++
      leftThree (bytes (toString tlv.getLength.toNat)) ++ bytes " V=" ++ printValue true tlv.value
  | .description what => bytes "    (" ++ bytes what ++ bytes ")"
  | .digest sum md5 => bytes sum.name ++ bytes sum.gap ++ bytes "MD5=" ++ bytes (hexBytes md5.toList)
  | .blank => []

/-- A record, and its description if there is one. -/
def recordLines (tlv : TLV) : List Line :=
  .record tlv :: if tlv.decode ≠ "" then [.description tlv.decode] else []

def digestLines (m : Message) : List Line :=
  (m.receivedMd5.map (Line.digest .received)).toList ++
    (m.calculatedMd5.map (Line.digest .calculated)).toList ++
    (m.xoredMd5.map (Line.digest .xored)).toList

def messageLines (title : String) (m : Message) : List Line :=
  .heading title m.getCompleteSizeOfMsgInBytes.toNat ::
    (m.tlvs.flatMap recordLines ++ digestLines m ++ [.blank])

/-- Lines as a text. -/
def unlines (ls : List Line) : List UInt8 := ls.flatMap (fun l => l.text ++ endl)

theorem bytes_append (s t : String) : bytes (s ++ t) = bytes s ++ bytes t := by
  rw [bytes, String.toList_append, List.map_append]
  rfl

theorem printTlv_eq (tlv : TLV) : printTlv tlv = unlines (recordLines tlv) := by
  rw [printTlv, recordLines]
  split_ifs
  · simp [unlines, Line.text]
  · simp [unlines, Line.text]

theorem printMd5_eq (sum : Sum) (md5 : Option Digest) :
    printMd5 (sum.name ++ sum.gap ++ "MD5=") md5 = unlines (md5.map (Line.digest sum)).toList := by
  cases md5 with
  | none => rfl
  | some md5 => simp [printMd5, unlines, Line.text, bytes_append]

/-- A message is printed line by line. -/
theorem print_eq (m : Message) (title : String) : m.print title = unlines (messageLines title m) := by
  have hrecords : m.tlvs.flatMap printTlv = unlines (m.tlvs.flatMap recordLines) := by
    rw [unlines, List.flatMap_assoc]
    exact List.flatMap_congr fun tlv _ => printTlv_eq tlv
  rw [Message.print, hrecords]
  have hreceived := printMd5_eq .received m.receivedMd5
  have hcalculated := printMd5_eq .calculated m.calculatedMd5
  have hxored := printMd5_eq .xored m.xoredMd5
  change printMd5 "received   MD5=" _ = _ at hreceived
  change printMd5 "calculated MD5=" _ = _ at hcalculated
  change printMd5 "xored      MD5=" _ = _ at hxored
  rw [hreceived, hcalculated, hxored]
  simp [unlines, messageLines, digestLines, Line.text]

/-! ### Words of the lines -/

/-- Neither whitespace nor an equals sign. -/
def plain (c : UInt8) : Bool := !isspace c && c != byte '='

def Plain (s : List UInt8) : Prop := ∀ c ∈ s, plain c = true

instance (s : List UInt8) : Decidable (Plain s) :=
  decidable_of_iff (s.all plain = true) List.all_eq_true

theorem Plain.not_space {s : List UInt8} (h : Plain s) : ∀ c ∈ s, isspace c = false := by
  intro c hc
  have hplain := h c hc
  rw [plain, Bool.and_eq_true] at hplain
  simpa using hplain.1

theorem Plain.word {s : List UInt8} (h : Plain s) (hne : s ≠ []) : Word isspace s :=
  ⟨hne, h.not_space⟩

theorem Plain.append {s t : List UInt8} (hs : Plain s) (ht : Plain t) : Plain (s ++ t) := by
  intro c hc
  rcases List.mem_append.mp hc with hc | hc
  · exact hs c hc
  · exact ht c hc

theorem plain_digits (n : ℕ) : Plain (bytes (toString n)) := by
  intro c hc
  rw [bytes, Nat.toString_eq_repr, Nat.repr_eq_ofList_toDigits, String.toList_ofList] at hc
  obtain ⟨d, hd, rfl⟩ := List.mem_map.mp hc
  have hdigit := Nat.isDigit_of_mem_toDigits (by decide) (by decide) hd
  rw [Char.isDigit, Bool.and_eq_true, decide_eq_true_iff, decide_eq_true_iff] at hdigit
  have hlow : 48 ≤ d.toNat := UInt32.le_iff_toNat_le.mp hdigit.1
  have hhigh : d.toNat ≤ 57 := UInt32.le_iff_toNat_le.mp hdigit.2
  rw [byte]
  interval_cases d.toNat <;> rfl

theorem digits_ne_nil (n : ℕ) : bytes (toString n) ≠ [] := by
  rw [bytes, Nat.toString_eq_repr, Nat.repr_eq_ofList_toDigits, String.toList_ofList, Ne,
    List.map_eq_nil_iff]
  exact Nat.toDigits_ne_nil

theorem xDigits_getD_mem (i : ℕ) : xDigits.getD i '0' ∈ xDigits := by
  rcases lt_or_ge i xDigits.length with hi | hi
  · rw [List.getD_eq_getElem _ _ hi]
    exact List.getElem_mem hi
  · rw [List.getD_eq_default _ _ hi]
    exact List.mem_cons_self

theorem bytes_toHex_true (x : UInt8) : bytes (toHex x true) = bytes "0x" ++ bytes (toHex x false) := by
  rw [toHex, if_pos rfl, bytes_append]
  rfl

theorem plain_toHex (x : UInt8) (withPrefix : Bool) : Plain (bytes (toHex x withPrefix)) := by
  have hdigits : ∀ c ∈ xDigits, plain (byte c) = true := by
    intro c hc
    rw [xDigits] at hc
    fin_cases hc <;> rfl
  have hshort : Plain (bytes (toHex x false)) := by
    intro c hc
    simp only [toHex, bytes, Bool.false_eq_true, if_false, String.toList_append,
      String.toList_ofList, List.map_append, List.map_cons, List.map_nil, List.mem_append,
      List.mem_cons, List.not_mem_nil, or_false] at hc
    rcases hc with hc | rfl | rfl
    · simp at hc
    · exact hdigits _ (xDigits_getD_mem _)
    · exact hdigits _ (xDigits_getD_mem _)
  cases withPrefix with
  | false => exact hshort
  | true =>
    rw [bytes_toHex_true]
    exact Plain.append (by decide +kernel) hshort

theorem bytes_hexBytes (value : List UInt8) :
    bytes (hexBytes value) = value.flatMap (fun c => bytes (toHex c false)) := by
  have hfold : ∀ (value : List UInt8) (s : String),
      bytes (value.foldl (fun s c => s ++ toHex c false) s) =
        bytes s ++ value.flatMap (fun c => bytes (toHex c false)) := by
    intro value
    induction value with
    | nil => intro s; simp
    | cons c value ih =>
      intro s
      rw [List.foldl_cons, ih, bytes_append, List.flatMap_cons, List.append_assoc]
  rw [hexBytes, hfold]
  rfl

theorem plain_hexBytes (value : List UInt8) : Plain (bytes (hexBytes value)) := by
  intro c hc
  rw [bytes_hexBytes] at hc
  obtain ⟨x, -, hx⟩ := List.mem_flatMap.mp hc
  exact plain_toHex x false c hx

/-! ### Descriptions -/

/-- One word, or two with a space between them. -/
inductive Phrase : List UInt8 → Prop
  | one {w : List UInt8} (hw : Plain w) (hne : w ≠ []) : Phrase w
  | two {w v : List UInt8} (hw : Plain w) (hne : w ≠ []) (hv : Plain v) (hv' : v ≠ []) :
      Phrase (w ++ byte ' ' :: v)

section
variable {name : String}

theorem phrase_lead {lead s : String} (name : String) (hlead : bytes lead = bytes name ++ [byte ' '])
    (hname : Plain (bytes name)) (hne : bytes name ≠ []) (hs : Plain (bytes s)) (hs' : bytes s ≠ []) :
    Phrase (bytes (lead ++ s)) := by
  rw [bytes_append, hlead, List.append_assoc]
  exact .two hname hne hs hs'

theorem bytes_space (name : String) : bytes (name ++ " ") = bytes name ++ [byte ' '] :=
  bytes_append name " "

theorem hexBytes_ne_nil {value : List UInt8} (h : value ≠ []) : bytes (hexBytes value) ≠ [] := by
  obtain ⟨c, value, rfl⟩ := List.exists_cons_of_ne_nil h
  rw [bytes_hexBytes, List.flatMap_cons]
  simp [toHex, bytes]

theorem phrase_value (hname : Plain (bytes name)) (hne : bytes name ≠ []) (value : List UInt8) :
    Phrase (bytes (name ++ (if value ≠ [] then " " else "") ++ hexBytes value)) := by
  split_ifs with hvalue
  · exact phrase_lead name (bytes_space name) hname hne (plain_hexBytes value) (hexBytes_ne_nil hvalue)
  · obtain rfl := not_not.mp hvalue
    rw [hexBytes, List.foldl_nil, String.append_empty, String.append_empty]
    exact .one hname hne

theorem phrase_query (hname : Plain (bytes name)) (hne : bytes name ≠ []) :
    Phrase (bytes (name ++ " query")) := by
  rw [bytes_append]
  exact .two hname hne (v := bytes "query") (by decide +kernel) (by decide +kernel)

/-- There is no description, or it is a phrase. -/
def Described (s : String) : Prop := s = "" ∨ Phrase (bytes s)

theorem described_ite {c : Prop} [Decidable c] {s t : String} (hs : c → Described s)
    (ht : ¬ c → Described t) : Described (if c then s else t) := by
  split_ifs with hc
  · exact hs hc
  · exact ht hc

theorem described_decodeNumber (hname : Plain (bytes name)) (hne : bytes name ≠ []) (tlv : TLV) :
    Described (decodeNumber name tlv) := by
  refine described_ite (fun _ => ?_) (fun _ => described_ite (fun _ => ?_) (fun _ => ?_))
  · exact .inr (phrase_query hname hne)
  · exact .inr (phrase_lead name (bytes_space name) hname hne (plain_digits _) (digits_ne_nil _))
  · exact .inl rfl

/-- The decoded records with their bytes in hexadecimal, or as a query. -/
theorem described_value (hname : Plain (bytes name)) (hne : bytes name ≠ []) (tlv : TLV) :
    Described (if tlv.tag &&& 0x80 = 0x80 ∧ tlv.value.length = 0 then name ++ " query"
      else if tlv.tag &&& 0x80 = 0x00 then
        name ++ (if tlv.value ≠ [] then " " else "") ++ hexBytes tlv.value
      else "") := by
  refine described_ite (fun _ => ?_) (fun _ => described_ite (fun _ => ?_) (fun _ => ?_))
  · exact .inr (phrase_query hname hne)
  · exact .inr (phrase_value hname hne _)
  · exact .inl rfl

theorem described_version (a b c : ℕ) :
    Described ("version " ++ toString a ++ "." ++ toString b ++ "." ++ toString c) := by
  have hdot : Plain (bytes ".") := by decide +kernel
  rw [String.append_assoc, String.append_assoc, String.append_assoc, String.append_assoc]
  refine .inr (phrase_lead "version" rfl (by decide +kernel) (by decide +kernel) ?_ ?_)
  · simp only [bytes_append]
    exact (plain_digits a).append (hdot.append ((plain_digits b).append
      (hdot.append (plain_digits c))))
  · rw [bytes_append]
    exact List.append_ne_nil_of_left_ne_nil (digits_ne_nil a) _

theorem described_deviceID (tlv : TLV) :
    Described (if tlv.tag &&& 0x80 = 0x80 ∧ tlv.value.length = 0 then "device_id query"
      else if tlv.tag &&& 0x80 = 0x00 ∧ tlv.value.length = 16 then "device_id " ++ hexBytes tlv.value
      else "") := by
  refine described_ite (fun _ => ?_) (fun _ => described_ite (fun h => ?_) (fun _ => ?_))
  · exact .inr (@phrase_query "device_id" (by decide +kernel) (by decide +kernel))
  · refine .inr (phrase_lead "device_id" rfl (by decide +kernel) (by decide +kernel)
      (plain_hexBytes _) (hexBytes_ne_nil ?_))
    rw [← List.length_pos_iff, h.2]
    decide
  · exact .inl rfl

/-- Every description is such a phrase. -/
theorem described_decode (tlv : TLV) : Described tlv.decode := by
  refine described_ite (fun _ => ?_) (fun _ => ?_)
  · exact .inr (.one (by decide +kernel) (by decide +kernel))
  refine described_ite (fun _ => described_version _ _ _) (fun _ => ?_)
  refine described_ite (fun _ => ?_) (fun _ => ?_)
  · refine .inr (phrase_lead "type" rfl (by decide +kernel) (by decide +kernel) ?_ ?_)
    · split_ifs <;> decide +kernel
    · split_ifs <;> decide +kernel
  refine described_ite (fun _ => ?_) (fun _ => ?_)
  · refine .inr (phrase_lead "flags" rfl (by decide +kernel) (by decide +kernel) ?_ ?_)
    · split_ifs <;> decide +kernel
    · split_ifs <;> decide +kernel
  refine described_ite (fun _ => ?_) (fun _ => ?_)
  · refine .inr (phrase_value ?_ ?_ _)
    · split_ifs <;> decide +kernel
    · split_ifs <;> decide +kernel
  refine described_ite (fun _ => ?_) (fun _ => ?_)
  · refine described_value ?_ ?_ tlv
    · split_ifs <;> decide +kernel
    · split_ifs <;> decide +kernel
  refine described_ite (fun _ => described_deviceID tlv) (fun _ => ?_)
  refine described_ite (fun _ => ?_) (fun _ => ?_)
  · refine described_decodeNumber ?_ ?_ tlv
    · split_ifs <;> decide +kernel
    · split_ifs <;> decide +kernel
  refine described_ite (fun _ => ?_) (fun _ => .inl rfl)
  exact described_decodeNumber (by decide +kernel) (by decide +kernel) tlv

end

end NHA.Output
