import NativeHardwareAccess.Client.Nhac

/-! The query description language of the client (tools/src/nhac.cpp, `nextToken` and `parse`).

    A description is a series of messages `{ tag(value) tag … }`. Tokens are single characters, runs of
    letters and digits, and quoted strings; blanks, commas and comments separate them. A value is a
    series of parts, and nothing bounds their number or the length of a string.

        { ─▶ tag ─▶ ( ─▶ part … ─▶ ) ─▶ tag … ─▶ }
              │                          ▲
              └──────────────────────────┘ no value

    The stream is the list of the characters still to be read, as bytes. The classification of
    characters is that of the C locale. A thrown exception is its text. -/

namespace NHA.Nhac
open Scheme

/-- The code of a character. -/
def byte (c : Char) : UInt8 := UInt8.ofNat c.toNat

/-- The codes of a text. -/
def bytes (s : String) : List UInt8 := s.toList.map byte

/-- A token in the text of an exception. -/
def text (token : List UInt8) : String := String.ofList (token.map (fun b => Char.ofNat b.toNat))

/-! ### Characters -/

def isspace (c : UInt8) : Bool := c == 0x20 || (0x09 ≤ c && c ≤ 0x0d)
def isdigit (c : UInt8) : Bool := byte '0' ≤ c && c ≤ byte '9'
def isalpha (c : UInt8) : Bool :=
  (byte 'a' ≤ c && c ≤ byte 'z') || (byte 'A' ≤ c && c ≤ byte 'Z')
def isalnum (c : UInt8) : Bool := isdigit c || isalpha c
def isxdigit (c : UInt8) : Bool :=
  isdigit c || (byte 'a' ≤ c && c ≤ byte 'f') || (byte 'A' ≤ c && c ≤ byte 'F')
def toupper (c : UInt8) : UInt8 := if byte 'a' ≤ c && c ≤ byte 'z' then c - 0x20 else c

/-! ### Tokens -/

/-- Skip blanks, commas and comments; inside a comment, up to its newline. -/
def skip : Bool → List UInt8 → List UInt8
  | _, [] => []
  | true, c :: is => if c = byte '\n' then skip false is else skip true is
  | false, c :: is =>
    if isspace c || c = byte ',' then skip false is
    else if c = byte '#' then skip true is
    else c :: is

/-- The characters of a string token behind its opening quotes. -/
def inString (c : UInt8) : Bool := c != byte '"' && c != byte '\n'

/-- `nextToken`: the next token, empty at the end of the input, and what follows it. -/
def nextToken (is : List UInt8) : List UInt8 × List UInt8 :=
  match skip false is with
  | [] => ([], [])
  | c :: is =>
    if c = byte '"' then
      match is.dropWhile inString with
      | [] => (c :: is.takeWhile inString, [])
      | d :: rest =>
        -- also include closing quotes
        if d = byte '"' then (c :: is.takeWhile inString ++ [d], rest)
        else (c :: is.takeWhile inString, d :: rest)
    else if isalnum c then (c :: is.takeWhile isalnum, is.dropWhile isalnum)
    else ([c], is)

/-! ### Value parts -/

/-- `0x` and two hexadecimal digits. -/
def isHexByte : List UInt8 → Bool
  | [a, b, c, d] => a = byte '0' && toupper b = byte 'X' && isxdigit c && isxdigit d
  | _ => false

/-- The value of a hexadecimal digit. -/
def digitValue (c : UInt8) : ℕ :=
  if isdigit c then c.toNat - 0x30 else (toupper c).toNat - 0x41 + 10

/-- `std::stoi(token, nullptr, 16)` of such a token, as a byte. -/
def stoiHex (token : List UInt8) : UInt8 :=
  UInt8.ofNat ((token.drop 2).foldl (fun n c => 16 * n + digitValue c) 0)

/-- The number that a row of digits stands for. -/
def decimal (digits : List UInt8) : ℕ := digits.foldl (fun n c => 10 * n + digitValue c) 0

/-- `std::stoull`: the decimal number at the start of the token; it throws when there is no digit or
    the number exceeds 64 bits. -/
def stoull (token : List UInt8) : Except String ℕ :=
  let digits := token.takeWhile isdigit
  let num := digits.foldl (fun n c => 10 * n + digitValue c) 0
  if digits = [] then .error "stoull"
  else if num ≥ 2 ^ 64 then .error "stoull"
  else .ok num

/-- The bytes of a number, low byte first. -/
def numberBytes (nBytes num : ℕ) : List UInt8 :=
  (List.range nBytes).map (fun i => UInt8.ofNat ((num >>> (8 * i)) &&& 0xFF))

def unexpected (token : List UInt8) (expected : String) : String :=
  "Syntax error: unexpected token '" ++ text token ++ "', expected: " ++ expected

/-- The bytes that one part adds to a value. -/
def parsePart (token : List UInt8) : Except String (List UInt8) :=
  let back := token.getLastD 0
  if isHexByte token then .ok [stoiHex token]
  else if token.head? = some (byte '"') then
    if token.length < 2 ∨ back ≠ byte '"' then
      .error ("Syntax error: missing closing quotes for string " ++ text token)
    else .ok ((token.drop 1).take (token.length - 2))
  else if (isdigit back || toupper back = byte 'L') && token.dropLast.all isdigit then
    match stoull token with
    | .error e => .error e
    | .ok num => .ok (numberBytes (if isdigit back then 4 else 8) num)
  else .error (unexpected token "value or ')'")

/-- The parts up to the closing parenthesis, from the token that has been read. Each turn reads a token,
    or finds the end of the input in its last but one turn, so two more than the characters left is fuel
    enough. -/
def parseParts : ℕ → List UInt8 → List UInt8 → List UInt8 → Except String (List UInt8) × List UInt8
  | 0, _, is, args => (.ok args, is)
  | fuel + 1, token, is, args =>
    if token = [] then
      (.error "Syntax error: unexpected end of input, expected: value or ')'", is)
    else if token = bytes ")" then (.ok args, is)
    else
      match parsePart token with
      | .error e => (.error e, is)
      | .ok part => parseParts fuel (nextToken is).1 (nextToken is).2 (args ++ part)

/-- The value behind a tag, if there is one: its bytes, the token behind it and the rest. -/
def parseArgs (is : List UInt8) : Except String (List UInt8) × List UInt8 × List UInt8 :=
  let next := nextToken is
  if next.1 = bytes "(" then
    let first := nextToken next.2
    match parseParts (first.2.length + 2) first.1 first.2 [] with
    | (.error e, is) => (.error e, [], is)
    | (.ok args, is) => (.ok args, nextToken is)
  else (.ok [], next)

/-! ### Messages -/

def tagAliases : List (List UInt8 × UInt8) :=
  [(bytes "m", 0x00), (bytes "magic", 0x00), (bytes "v", 0x01), (bytes "version", 0x01),
   (bytes "t", 0x02), (bytes "message_type", 0x02), (bytes "f", 0x03), (bytes "message_flags", 0x03),
   (bytes "u", 0x04), (bytes "user_data", 0x04), (bytes "c", 0x90), (bytes "capabilities", 0x90),
   (bytes "d", 0x91), (bytes "device_id", 0x91), (bytes "rx", 0x92),
   (bytes "monotonic_timer_rx", 0x92), (bytes "tx", 0x93), (bytes "monotonic_timer_tx", 0x93),
   (bytes "l", 0x94), (bytes "deviceid_last_updated", 0x94), (bytes "e", 0xa0),
   (bytes "temperatures", 0xa0)]

/-- The records of one item: the four of a header, or the one with this tag. -/
def itemTlvs (tagId args : List UInt8) : Except String (List TLV) :=
  if tagId = bytes "H" ∨ tagId = bytes "Header" then
    .ok [⟨0x00, [0x4e, 0x48, 0x41, 0x31]⟩, ⟨0x01, [0x00, 0x00, 0x00, 0x01]⟩, ⟨0x02, [0x01]⟩,
      ⟨0x03, if args = [] then [0x00] else args⟩]
  else if isHexByte tagId then .ok [⟨stoiHex tagId, args⟩]
  else
    match tagAliases.lookup tagId with
    | some tag => .ok [⟨tag, args⟩]
    | none => .error (unexpected tagId "tag identifier or '\x7d'")

/-- The items up to the closing brace, from the token that has been read. -/
def parseItems : ℕ → List UInt8 → List UInt8 → Message → Except String Bool × Message × List UInt8
  | 0, _, is, msg => (.ok true, msg, is)
  | fuel + 1, token, is, msg =>
    if token = bytes "\x7d" then (.ok true, msg, is)
    else if token = [] then
      (.error "Syntax error: unexpected end of input, expected: tag identifier or '\x7d'", msg, is)
    else if token = bytes "\x7b" ∨ token = bytes "(" ∨ token = bytes ")" then
      (.error (unexpected token "tag identifier or '\x7d'"), msg, is)
    else
      match parseArgs is with
      | (.error e, _, is) => (.error e, msg, is)
      | (.ok args, next, is) =>
        match itemTlvs token args with
        | .error e => (.error e, msg, is)
        | .ok tlvs => parseItems fuel next is { msg with tlvs := msg.tlvs ++ tlvs }

/-- `Message::clear`. -/
def Message.empty : Message := ⟨[], none, none, none⟩

/-- `parse`: whether there is a message, the message, and what follows it. -/
def parse (is : List UInt8) : Except String Bool × Message × List UInt8 :=
  let first := nextToken is
  if first.1 = [] then (.ok false, Message.empty, first.2)
  else if first.1 ≠ bytes "\x7b" then
    (.error (unexpected first.1 "'\x7b'"), Message.empty, first.2)
  else
    let next := nextToken first.2
    parseItems (next.2.length + 2) next.1 next.2 Message.empty

/-! ### Reading tokens -/

/-- A character that starts a token. -/
def starts (c : UInt8) : Bool := !(isspace c || c = byte ',' || c = byte '#')

theorem skip_starts {c : UInt8} {is : List UInt8} (h : starts c = true) :
    skip false (c :: is) = c :: is := by
  simp only [starts, Bool.not_eq_true', Bool.or_eq_false_iff, decide_eq_false_iff_not] at h
  rw [skip, if_neg (by simp [h.1.1, h.1.2]), if_neg h.2]

/-- A parenthesis or another single character. -/
theorem nextToken_single {c : UInt8} {is : List UInt8} (h : starts c = true) (hquote : c ≠ byte '"')
    (hword : isalnum c = false) : nextToken (c :: is) = ([c], is) := by
  rw [nextToken, skip_starts h]
  dsimp only
  rw [if_neg hquote, if_neg (by simp [hword])]

/-- A word of letters and digits ends where something else follows. -/
theorem nextToken_word {c : UInt8} {w is : List UInt8} (h : starts c = true) (hquote : c ≠ byte '"')
    (hword : ∀ d ∈ c :: w, isalnum d = true) (hend : ∀ d ∈ is.head?, isalnum d = false) :
    nextToken (c :: (w ++ is)) = (c :: w, is) := by
  rw [List.forall_mem_cons] at hword
  have hstop : is.takeWhile isalnum = [] ∧ is.dropWhile isalnum = is := by
    cases is with
    | nil => exact ⟨rfl, rfl⟩
    | cons d is =>
      have hd : isalnum d = false := hend d rfl
      simp [hd]
  rw [nextToken, skip_starts h]
  dsimp only
  rw [if_neg hquote, if_pos hword.1, List.takeWhile_append_of_pos hword.2,
    List.dropWhile_append_of_pos hword.2, hstop.1, hstop.2, List.append_nil]

/-- A string in quotes. -/
theorem nextToken_string {w is : List UInt8} (hw : ∀ d ∈ w, inString d = true) :
    nextToken (byte '"' :: (w ++ byte '"' :: is)) = (byte '"' :: w ++ [byte '"'], is) := by
  rw [nextToken, skip_starts (by decide)]
  dsimp only
  have hquote : inString (byte '"') = false := by decide
  rw [if_pos rfl, List.takeWhile_append_of_pos hw, List.dropWhile_append_of_pos hw]
  simp [hquote]

/-- The part that a string stands for. -/
theorem parsePart_string (w : List UInt8) :
    parsePart (byte '"' :: w ++ [byte '"']) = .ok w := by
  have hhex : isHexByte (byte '"' :: w ++ [byte '"']) = false := by
    have hquote : (byte '"' = byte '0') = False := by decide
    rw [List.cons_append, isHexByte.eq_def]
    split
    · rename_i a b c d heq
      rw [← (List.cons.inj heq).1]
      simp [hquote]
    · rfl
  have hback : (byte '"' :: w ++ [byte '"']).getLastD 0 = byte '"' := by simp [List.getLastD]
  have hlen : (byte '"' :: w ++ [byte '"']).length = w.length + 2 := by simp
  have hhead : (byte '"' :: w ++ [byte '"']).head? = some (byte '"') := rfl
  rw [parsePart, hhex, if_neg (by simp), if_pos hhead, hback, hlen, if_neg (by simp)]
  simp

/-- Two messages, with an alias, a header, a comment, a string and two numbers. -/
example : (parse (bytes "\x7bH(0x02) u(\"ab\" 7, 1L) # comment\n 0x99\x7d \x7bd\x7d")).2.1.tlvs =
    [⟨0x00, [0x4e, 0x48, 0x41, 0x31]⟩, ⟨0x01, [0, 0, 0, 1]⟩, ⟨0x02, [1]⟩, ⟨0x03, [2]⟩,
     ⟨0x04, [0x61, 0x62, 7, 0, 0, 0, 1, 0, 0, 0, 0, 0, 0, 0]⟩, ⟨0x99, []⟩] := by
  decide +kernel

end NHA.Nhac
