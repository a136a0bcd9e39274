import NativeHardwareAccess.Client.Tokens
import NativeHardwareAccess.Schemes.Machine

/-! The grammar of the description language.

    `parse` reads its tokens one by one with a token of lookahead, so all it does is decided by the list
    of tokens. Seen from there it is a machine that takes one token a step:

        outside ──{──▶ items ──tag──▶ tagged ──(──▶ inValue ──part──▶ inValue
           ▲             │  ▲           │ tag: item, tagged            │
           └──────}──────┘  └───────────┼──────────── ) : item ────────┘
           └─────────────── } : item ───┘

    Repeated calls of `parse` return the messages of a text exactly when this machine takes all its
    tokens and ends outside of a message. -/

namespace NHA.Language
open Scheme NHA.Nhac

/-- Where the parser stands between two tokens, with the messages before this one, its records so far,
    the tag identifier in hand and the bytes of its value. -/
inductive State where
  | outside (done : List (List TLV))
  | items (done : List (List TLV)) (tlvs : List TLV)
  | tagged (done : List (List TLV)) (tlvs : List TLV) (tagId : List UInt8)
  | inValue (done : List (List TLV)) (tlvs : List TLV) (tagId args : List UInt8)

/-- A token where an item or the end of the message is expected. -/
def head (done : List (List TLV)) (tlvs : List TLV) (token : List UInt8) : Option State :=
  if token = bytes "\x7d" then some (.outside (done ++ [tlvs]))
  else if token = bytes "\x7b" ∨ token = bytes "(" ∨ token = bytes ")" then none
  else some (.tagged done tlvs token)

def step : State → List UInt8 → Option State
  | .outside done, token => if token = bytes "\x7b" then some (.items done []) else none
  | .items done tlvs, token => head done tlvs token
  | .tagged done tlvs tagId, token =>
    if token = bytes "(" then some (.inValue done tlvs tagId [])
    else (itemTlvs tagId []).toOption.bind (fun records => head done (tlvs ++ records) token)
  | .inValue done tlvs tagId args, token =>
    if token = bytes ")" then
      (itemTlvs tagId args).toOption.map (fun records => .items done (tlvs ++ records))
    else (parsePart token).toOption.map (fun part => .inValue done tlvs tagId (args ++ part))

/-- The messages, if the parser stands outside of one. -/
def State.messages : State → Option (List (List TLV))
  | .outside done => some done
  | _ => none

/-- The messages of a list of tokens that is accepted. -/
def accept (s : State) (ts : List (List UInt8)) : Option (List (List TLV)) :=
  (Machine.run step s ts).bind State.messages

@[simp] theorem accept_cons (s : State) (t : List UInt8) (ts : List (List UInt8)) :
    accept s (t :: ts) = (step s t).bind (fun s' => accept s' ts) := by
  rw [accept, Machine.run, Option.bind_assoc]
  rfl

theorem accept_append (s : State) (ts ts' : List (List UInt8)) :
    accept s (ts ++ ts') = (Machine.run step s ts).bind (fun s' => accept s' ts') := by
  rw [accept, Machine.run_append, Option.bind_assoc]
  rfl

/-! ### Tag identifiers -/

/-- A token that is no brace and no parenthesis. -/
def Plain (token : List UInt8) : Prop :=
  token ≠ bytes "\x7d" ∧ token ≠ bytes "\x7b" ∧ token ≠ bytes "(" ∧ token ≠ bytes ")"

theorem head_plain {token : List UInt8} (h : Plain token) {done : List (List TLV)} {tlvs : List TLV} :
    head done tlvs token = some (.tagged done tlvs token) := by
  obtain ⟨hclose, hmark⟩ := h
  rw [head, if_neg hclose, if_neg (by tauto)]

/-- The four characters of a hexadecimal byte. -/
theorem isHexByte_cases {hex : List UInt8} (h : isHexByte hex = true) :
    ∃ x high low, hex = [byte '0', x, high, low] ∧ toupper x = byte 'X' := by
  rw [isHexByte.eq_def] at h
  split at h
  · rename_i a x high low
    simp only [Bool.and_eq_true, decide_eq_true_eq] at h
    obtain ⟨⟨⟨rfl, hx⟩, -⟩, -⟩ := h
    exact ⟨x, high, low, rfl, hx⟩
  · cases h

theorem plain_hex {hex : List UInt8} (h : isHexByte hex = true) : Plain hex := by
  refine ⟨?_, ?_, ?_, ?_⟩
  all_goals
    rintro rfl
    exact absurd h (by decide)

theorem plain_word {t : List UInt8} (h : ∀ c ∈ t, isalnum c = true) : Plain t := by
  refine ⟨?_, ?_, ?_, ?_⟩
  all_goals
    rintro rfl
    exact absurd h (by decide +kernel)

theorem itemTlvs_hex {hex : List UInt8} (h : isHexByte hex = true) (args : List UInt8) :
    itemTlvs hex args = .ok [⟨stoiHex hex, args⟩] := by
  have hheader : ¬ (hex = bytes "H" ∨ hex = bytes "Header") := by
    rintro (rfl | rfl)
    · exact absurd h (by decide)
    · exact absurd h (by decide)
  rw [itemTlvs, if_neg hheader, if_pos h]

/-! ### The parser follows the grammar -/

/-- The tokens ahead of a loop that has read one of them. -/
def pending (token is : List UInt8) : List (List UInt8) :=
  if token = [] then [] else token :: tokens is

theorem tokens_eq_pending (is : List UInt8) :
    tokens is = pending (nextToken is).1 (nextToken is).2 := by
  rw [tokens, pending]

/-- There is fuel for every token ahead. -/
def Fueled (token is : List UInt8) (fuel : ℕ) : Prop :=
  1 ≤ fuel ∧ (token ≠ [] → is.length + 2 ≤ fuel)

/-- One token on, there is fuel for the rest. -/
theorem Fueled.next {token is : List UInt8} {fuel : ℕ} (h : Fueled token is (fuel + 1))
    (hne : token ≠ []) : Fueled (nextToken is).1 (nextToken is).2 fuel := by
  have hfuel := h.2 hne
  refine ⟨by omega, fun hnext => ?_⟩
  have hlen := nextToken_length hnext
  omega

theorem nextToken_length_le (is : List UInt8) : (nextToken is).2.length ≤ is.length := by
  rcases nextToken_cases is with hnil | ⟨gap, token, rest, rfl, hnext, -⟩
  · rw [hnil]
    exact Nat.zero_le _
  · rw [hnext]
    simp only [List.length_append]
    omega

section
variable {done : List (List TLV)} {tlvs : List TLV} {tagId : List UInt8}

/-- The loop over the parts of a value. -/
theorem parseParts_accept (fuel : ℕ) (token is args : List UInt8) (hfuel : Fueled token is fuel) :
    (∃ e is', parseParts fuel token is args = (.error e, is') ∧
      accept (.inValue done tlvs tagId args) (pending token is) = none) ∨
    (∃ args' is', parseParts fuel token is args = (.ok args', is') ∧ is'.length ≤ is.length ∧
      accept (.inValue done tlvs tagId args) (pending token is) =
        (itemTlvs tagId args').toOption.bind (fun records =>
          accept (.items done (tlvs ++ records)) (tokens is'))) := by
  induction fuel generalizing token is args with
  | zero => exact absurd hfuel.1 (by omega)
  | succ fuel ih =>
    rw [parseParts, pending]
    split_ifs with hnil hclose
    · exact Or.inl ⟨_, is, rfl, rfl⟩
    · refine Or.inr ⟨args, is, rfl, le_refl _, ?_⟩
      rw [accept_cons, step, if_pos hclose, Option.bind_map]
      rfl
    · rw [accept_cons, step, if_neg hclose]
      cases hpart : parsePart token with
      | error e => exact Or.inl ⟨e, is, rfl, rfl⟩
      | ok part =>
        have hnext := ih (nextToken is).1 (nextToken is).2 (args ++ part) (hfuel.next hnil)
        rw [← tokens_eq_pending] at hnext
        rcases hnext with ⟨e, is', hparse, hnone⟩ | ⟨args', is', hparse, hlen, haccept⟩
        · exact Or.inl ⟨e, is', hparse, hnone⟩
        · exact Or.inr ⟨args', is', hparse, hlen.trans (nextToken_length_le is), haccept⟩

/-- The value behind a tag, or the token behind it. -/
theorem parseArgs_accept (is : List UInt8) :
    (∃ e rest, parseArgs is = (.error e, rest) ∧ accept (.tagged done tlvs tagId) (tokens is) = none) ∨
    (∃ args next is', parseArgs is = (.ok args, next, is') ∧
      (next ≠ [] → is'.length < is.length) ∧ is'.length ≤ is.length ∧
      accept (.tagged done tlvs tagId) (tokens is) =
        (itemTlvs tagId args).toOption.bind (fun records =>
          accept (.items done (tlvs ++ records)) (pending next is'))) := by
  have hle := nextToken_length_le is
  rw [parseArgs, tokens_eq_pending is]
  by_cases hopen : (nextToken is).1 = bytes "("
  · have hne : (nextToken is).1 ≠ [] := by
      rw [hopen]
      decide
    have hlen := nextToken_length hne
    rw [if_pos hopen, pending, if_neg hne, accept_cons, step, if_pos hopen, Option.bind_some,
      tokens_eq_pending]
    dsimp only
    have hparts := @parseParts_accept done tlvs tagId ((nextToken (nextToken is).2).2.length + 2)
      (nextToken (nextToken is).2).1 (nextToken (nextToken is).2).2 [] ⟨by omega, fun _ => le_refl _⟩
    have hfirst := nextToken_length_le (nextToken is).2
    rcases hparts with ⟨e, rest, hparse, hnone⟩ | ⟨args, is', hparse, hshort, haccept⟩
    · exact Or.inl ⟨e, ([], rest), by rw [hparse], hnone⟩
    · have hrest := nextToken_length_le is'
      refine Or.inr ⟨args, (nextToken is').1, (nextToken is').2, by rw [hparse], by omega, by omega, ?_⟩
      rw [haccept, tokens_eq_pending]
  · rw [if_neg hopen]
    refine Or.inr ⟨[], (nextToken is).1, (nextToken is).2, rfl, nextToken_length, hle, ?_⟩
    rw [pending]
    split_ifs with hnil
    · -- the input ends behind the tag
      cases (itemTlvs tagId []).toOption with
      | none => rfl
      | some records => rfl
    · simp only [accept_cons]
      rw [step, if_neg hopen, Option.bind_assoc]
      rfl

end

/-- The loop over the items of a message. -/
theorem parseItems_accept {done : List (List TLV)} (fuel : ℕ) (token is : List UInt8) (msg : Message)
    (hfuel : Fueled token is fuel) :
    (∃ e rest, parseItems fuel token is msg = (.error e, rest) ∧
      accept (.items done msg.tlvs) (pending token is) = none) ∨
    (∃ msg' is', parseItems fuel token is msg = (.ok true, msg', is') ∧ is'.length ≤ is.length ∧
      accept (.items done msg.tlvs) (pending token is) =
        accept (.outside (done ++ [msg'.tlvs])) (tokens is')) := by
  induction fuel generalizing token is msg with
  | zero => exact absurd hfuel.1 (by omega)
  | succ fuel ih =>
    rw [parseItems, pending]
    by_cases hclose : token = bytes "\x7d"
    · have hne : token ≠ [] := by
        rw [hclose]
        decide
      rw [if_pos hclose, if_neg hne]
      refine Or.inr ⟨msg, is, rfl, le_refl _, ?_⟩
      rw [accept_cons, step, head, if_pos hclose]
      rfl
    · rw [if_neg hclose]
      split_ifs with hnil hmark
      · exact Or.inl ⟨_, _, rfl, rfl⟩
      · refine Or.inl ⟨_, _, rfl, ?_⟩
        rw [accept_cons, step, head, if_neg hclose, if_pos hmark]
        rfl
      · rw [accept_cons, step, head, if_neg hclose, if_neg hmark, Option.bind_some]
        have hlen := hfuel.2 hnil
        rcases @parseArgs_accept done msg.tlvs token is with
          ⟨e, rest, hargs, hnone⟩ | ⟨args, next, is', hargs, hlt, hle, haccept⟩
        · exact Or.inl ⟨e, (msg, rest.2), by rw [hargs], hnone⟩
        · rw [hargs, haccept]
          dsimp only
          cases hitem : itemTlvs token args with
          | error e => exact Or.inl ⟨e, _, rfl, rfl⟩
          | ok records =>
            have hnext : Fueled next is' fuel := by
              refine ⟨by omega, fun hne => ?_⟩
              have hshort := hlt hne
              omega
            rcases ih next is' { msg with tlvs := msg.tlvs ++ records } hnext with
              ⟨e, rest, hparse, hnone⟩ | ⟨msg', is'', hparse, hshort, hdone⟩
            · exact Or.inl ⟨e, rest, hparse, hnone⟩
            · exact Or.inr ⟨msg', is'', hparse, hshort.trans hle, hdone⟩

/-- One call of `parse`. -/
theorem parse_accept (done : List (List TLV)) (is : List UInt8) :
    ((parse is).1 = .ok false ∧ tokens is = []) ∨
    (∃ e, (parse is).1 = .error e ∧ accept (.outside done) (tokens is) = none) ∨
    ((parse is).1 = .ok true ∧ (parse is).2.2.length < is.length ∧
      accept (.outside done) (tokens is) =
        accept (.outside (done ++ [(parse is).2.1.tlvs])) (tokens (parse is).2.2)) := by
  rw [parse]
  dsimp only
  by_cases hnil : (nextToken is).1 = []
  · rw [if_pos hnil]
    exact Or.inl ⟨rfl, tokens_nil hnil⟩
  · rw [if_neg hnil, tokens_cons hnil, accept_cons, step]
    have hlen := nextToken_length hnil
    by_cases hopen : (nextToken is).1 = bytes "\x7b"
    · rw [if_neg (not_not.mpr hopen), if_pos hopen, Option.bind_some, tokens_eq_pending]
      have hle := nextToken_length_le (nextToken is).2
      rcases @parseItems_accept done ((nextToken (nextToken is).2).2.length + 2)
          (nextToken (nextToken is).2).1 (nextToken (nextToken is).2).2 Message.empty
          ⟨by omega, fun _ => le_refl _⟩ with
        ⟨e, rest, hparse, hnone⟩ | ⟨msg, is', hparse, hshort, haccept⟩
      · rw [hparse]
        exact Or.inr (Or.inl ⟨e, rfl, hnone⟩)
      · rw [hparse]
        exact Or.inr (Or.inr ⟨rfl, by dsimp only; omega, haccept⟩)
    · rw [if_pos hopen, if_neg hopen]
      exact Or.inr (Or.inl ⟨_, rfl, rfl⟩)

/-! ### Repeated calls -/

/-- Repeated calls of `parse` return true once for each of these messages, and then false. -/
def Yields : List UInt8 → List (List TLV) → Prop
  | is, [] => (parse is).1 = .ok false
  | is, m :: ms => (parse is).1 = .ok true ∧ (parse is).2.1.tlvs = m ∧ Yields (parse is).2.2 ms

instance decidableYields : ∀ (is : List UInt8) (ms : List (List TLV)), Decidable (Yields is ms)
  | is, [] => inferInstanceAs (Decidable ((parse is).1 = .ok false))
  | is, m :: ms =>
    let _ := decidableYields (parse is).2.2 ms
    inferInstanceAs (Decidable ((parse is).1 = .ok true ∧ (parse is).2.1.tlvs = m ∧ _))

/-- The first calls of `parse` return true once for each of these messages and leave `rest` to be
    read. -/
def Begins : List UInt8 → List (List TLV) → List UInt8 → Prop
  | is, [], rest => is = rest
  | is, m :: ms, rest =>
    (parse is).1 = .ok true ∧ (parse is).2.1.tlvs = m ∧ Begins (parse is).2.2 ms rest

/-- One more call. -/
theorem Begins.concat {is rest : List UInt8} {ms : List (List TLV)} (h : Begins is ms rest)
    (hparse : (parse rest).1 = .ok true) :
    Begins is (ms ++ [(parse rest).2.1.tlvs]) (parse rest).2.2 := by
  induction ms generalizing is with
  | nil =>
    obtain rfl : is = rest := h
    exact ⟨hparse, rfl, rfl⟩
  | cons m ms ih =>
    obtain ⟨htrue, hm, hrest⟩ := h
    exact ⟨htrue, hm, ih hrest⟩

/-- The first messages, and all the others behind them. -/
theorem Begins.yields {is rest : List UInt8} {ms ms' : List (List TLV)} (h : Begins is ms rest)
    (hrest : Yields rest ms') : Yields is (ms ++ ms') := by
  induction ms generalizing is with
  | nil =>
    obtain rfl : is = rest := h
    exact hrest
  | cons m ms ih =>
    obtain ⟨htrue, hm, hbegins⟩ := h
    exact ⟨htrue, hm, ih hbegins⟩

theorem yields_nil_iff {is : List UInt8} {ms : List (List TLV)} (h : (parse is).1 = .ok false) :
    Yields is ms ↔ ms = [] := by
  cases ms with
  | nil => simp [Yields, h]
  | cons m ms => simp [Yields, h]

theorem yields_cons_iff {is : List UInt8} {ms : List (List TLV)} (h : (parse is).1 = .ok true) :
    Yields is ms ↔ ∃ ms', ms = (parse is).2.1.tlvs :: ms' ∧ Yields (parse is).2.2 ms' := by
  cases ms with
  | nil => simp [Yields, h]
  | cons m ms =>
    rw [Yields]
    constructor
    · rintro ⟨-, rfl, hms⟩
      exact ⟨ms, rfl, hms⟩
    · rintro ⟨ms', heq, hms⟩
      obtain ⟨rfl, rfl⟩ := List.cons.inj heq
      exact ⟨h, rfl, hms⟩

theorem not_yields_of_error {is : List UInt8} {e : String} (h : (parse is).1 = .error e)
    (ms : List (List TLV)) : ¬ Yields is ms := by
  cases ms with
  | nil => simp [Yields, h]
  | cons m ms => simp [Yields, h]

/-- The messages that the grammar gives behind others are those of the calls of `parse`. -/
theorem accept_outside_iff (is : List UInt8) (done r : List (List TLV)) :
    accept (.outside done) (tokens is) = some r ↔ ∃ ms, r = done ++ ms ∧ Yields is ms := by
  rcases parse_accept done is with ⟨hfalse, hnil⟩ | ⟨e, herror, hnone⟩ | ⟨htrue, hlen, haccept⟩
  · rw [hnil]
    have hdone : accept (.outside done) [] = some done := rfl
    rw [hdone, Option.some.injEq]
    constructor
    · rintro rfl
      exact ⟨[], (List.append_nil _).symm, (yields_nil_iff hfalse).mpr rfl⟩
    · rintro ⟨ms, rfl, hms⟩
      rw [(yields_nil_iff hfalse).mp hms, List.append_nil]
  · rw [hnone]
    refine iff_of_false (by simp) ?_
    rintro ⟨ms, -, hms⟩
    exact not_yields_of_error herror ms hms
  · rw [haccept, accept_outside_iff (parse is).2.2]
    constructor
    · rintro ⟨ms, rfl, hms⟩
      exact ⟨_, by rw [List.append_assoc, List.singleton_append],
        (yields_cons_iff htrue).mpr ⟨ms, rfl, hms⟩⟩
    · rintro ⟨ms, rfl, hms⟩
      obtain ⟨ms', rfl, hms'⟩ := (yields_cons_iff htrue).mp hms
      exact ⟨ms', by rw [List.append_assoc, List.singleton_append], hms'⟩
termination_by is.length

/-- Repeated calls of `parse` return the messages that the grammar gives. -/
theorem yields_iff_accept (is : List UInt8) (ms : List (List TLV)) :
    Yields is ms ↔ accept (.outside []) (tokens is) = some ms := by
  rw [accept_outside_iff]
  simp

end NHA.Language
