import NativeHardwareAccess.Schemes.Machine
import NativeHardwareAccess.Schemes.Tlv
import NativeHardwareAccess.Server.MessageBuilder

/-! The query-response protocol in its own terms.

    A message is a size field, 17 fixed header bytes, a flags byte, a body of TLV records and a
    sixteen-byte checksum. Five kinds of record are supported. A query record *offends* when its tag
    was already seen or its length is inadmissible; a query without offences is answered with one
    response record per kind it asks for. Nothing here follows the control flow of the server: the
    modules on the parse loop and on the emission pass connect the two. -/

namespace NHA.Protocol
open Scheme Scheme.MD5 Scheme.Tlv NHA.MessageBuilder

/-- The supported kinds of record. -/
inductive Kind where | userData | deviceID | timerRx | timerTx | lastUpdated
  deriving DecidableEq

/-- All kinds, in the order in which the server writes them. -/
def kinds : List Kind := [.userData, .deviceID, .timerRx, .timerTx, .lastUpdated]

/-- The tag that asks for a kind. -/
def Kind.queryTag : Kind → UInt8
  | .userData => 0x04
  | .deviceID => 0x91
  | .timerRx => 0x92
  | .timerTx => 0x93
  | .lastUpdated => 0x94

/-- The tag that answers it. -/
def Kind.responseTag : Kind → UInt8
  | .userData => 0x05
  | .deviceID => 0x11
  | .timerRx => 0x12
  | .timerTx => 0x13
  | .lastUpdated => 0x14

/-- Admissible query values: user data is not empty, the other queries carry no value. -/
def Kind.Admits : Kind → List UInt8 → Prop
  | .userData, v => v ≠ []
  | _, v => v = []

instance : (k : Kind) → (v : List UInt8) → Decidable (k.Admits v)
  | .userData, v => inferInstanceAs (Decidable (v ≠ []))
  | .deviceID, v => inferInstanceAs (Decidable (v = []))
  | .timerRx, v => inferInstanceAs (Decidable (v = []))
  | .timerTx, v => inferInstanceAs (Decidable (v = []))
  | .lastUpdated, v => inferInstanceAs (Decidable (v = []))

/-- The value that answers a query record with value `v`. -/
def Kind.answerValue (env : Readings) : Kind → List UInt8 → List UInt8
  | .userData, v => v
  | .deviceID, _ => env.devID.toList
  | .timerRx, _ => toLE 8 env.timerRx.toNat
  | .timerTx, _ => toLE 8 env.timerTx.toNat
  | .lastUpdated, _ => toLE 8 env.lastUpdated.toNat

/-- The number of bytes in that value. -/
def Kind.answerSize : Kind → List UInt8 → ℕ
  | .userData, v => v.length
  | .deviceID, _ => 16
  | _, _ => 8

theorem Kind.length_answerValue (env : Readings) (k : Kind) (v : List UInt8) :
    (k.answerValue env v).length = k.answerSize v := by
  cases k <;> simp [answerValue, answerSize]

theorem Kind.answerValue_short (env : Readings) (k : Kind) (r : Record) :
    (k.answerValue env r.value).length < 256 := by
  cases k <;> simp [answerValue, r.short]

/-- The record that answers a query record. -/
def Kind.answer (env : Readings) (k : Kind) (r : Record) : Record :=
  ⟨k.responseTag, k.answerValue env r.value, k.answerValue_short env r⟩

/-- The first query record of a kind. -/
def lookup (rs : List Record) (k : Kind) : Option Record := rs.find? (fun r => r.tag == k.queryTag)

/-- The answer to a query body without offences: one record for each kind asked for. -/
def answer (env : Readings) (rs : List Record) : List Record :=
  kinds.filterMap (fun k => (lookup rs k).map (k.answer env))

/-- The number of bytes in that answer. -/
def answerLength (rs : List Record) : ℕ :=
  (kinds.map (fun k => ((lookup rs k).map (fun r => 2 + k.answerSize r.value)).getD 0)).sum

/-- The kind a query tag asks for. -/
def kindOf (tag : UInt8) : Option Kind := kinds.find? (fun k => k.queryTag == tag)

/-- The kinds a query asks for, in the order of its records. -/
def asked (rs : List Record) : List Kind := rs.filterMap (fun r => kindOf r.tag)

/-- A record offends after the records before it: its kind was already asked for, or its value has
    an inadmissible length. Records with other tags never offend. -/
def Offends (before : List Record) (r : Record) : Prop :=
  ∃ k : Kind, r.tag = k.queryTag ∧ ((∃ e ∈ before, e.tag = r.tag) ∨ ¬ k.Admits r.value)

/-- Some record of the body offends. -/
def Offending (rs : List Record) : Prop :=
  ∃ before r after, rs = before ++ r :: after ∧ Offends before r

/-- Bytes 4 to 20 of every message: magic, version and type records, and the head of the flags
    record. -/
def fixedHeader : List UInt8 :=
  [0x00, 0x04, 0x4E, 0x48, 0x41, 0x31, 0x01, 0x04, 0x00, 0x00, 0x00, 0x01, 0x02, 0x01, 0x01, 0x03, 0x01]

/-- The bytes between header and checksum. -/
def body (m : List UInt8) : List UInt8 := (m.drop 22).take (m.length - 38)

/-- A query with acceptable size, header, flags and checksum, whatever its body. -/
structure Framed (md5 : List UInt8 → Digest) (q : List UInt8) : Prop where
  minSize : 38 ≤ q.length
  maxSize : q.length ≤ 32768
  sizeField : ofLE (q.take 4) = q.length
  header : (q.drop 4).take 17 = fixedHeader
  flags : q[21]? = some 0x00 ∨ q[21]? = some 0x02
  checksum : q.drop (q.length - 16) = (md5 (q.take (q.length - 16))).toList

/-- A well-formed query: its body is a concatenation of TLV records. -/
structure WellFormed (md5 : List UInt8 → Digest) (q : List UInt8) : Prop extends
    Framed md5 q where
  body : ∃ rs, body q = encode rs

/-- The bytes of a message before its checksum. -/
def front (flags : UInt8) (b : List UInt8) : List UInt8 :=
  toLE 4 (38 + b.length) ++ fixedHeader ++ flags :: b

/-- The checksum that follows: the MD5, XORed with the device ID exactly when the flags say so. -/
def checksum (md5 : List UInt8 → Digest) (devID : DeviceID) (flags : UInt8) (b : List UInt8) :
    List UInt8 :=
  if flags = 0x01 then List.zipWith (· ^^^ ·) (md5 (front flags b)).toList devID.toList
  else (md5 (front flags b)).toList

/-- A whole response message. -/
def message (md5 : List UInt8 → Digest) (devID : DeviceID) (flags : UInt8) (b : List UInt8) :
    List UInt8 :=
  front flags b ++ checksum md5 devID flags b

/-! ### Offences -/

theorem not_offending_nil : ¬ Offending [] := by
  rintro ⟨before, r, after, h, _⟩
  simp at h

/-- Whether a body offends is decided record by record, from the front. -/
theorem offending_concat (rs : List Record) (r : Record) :
    Offending (rs ++ [r]) ↔ Offending rs ∨ Offends rs r := by
  constructor
  · rintro ⟨before, e, after, h, ho⟩
    rcases Machine.concat_eq_split.mp h with ⟨-, rfl, rfl⟩ | ⟨after', -, hrs⟩
    · exact Or.inr ho
    · exact Or.inl ⟨before, e, after', hrs, ho⟩
  · rintro (⟨before, e, after, rfl, ho⟩ | ho)
    · exact ⟨before, e, after ++ [r], by simp, ho⟩
    · exact ⟨rs, r, [], rfl, ho⟩

/-- An offence stays one in a longer body. -/
theorem Offending.append {rs : List Record} (h : Offending rs) (rs' : List Record) :
    Offending (rs ++ rs') := by
  obtain ⟨before, r, after, rfl, ho⟩ := h
  exact ⟨before, r, after ++ rs', by simp, ho⟩

theorem Offending.of_dropLast {rs : List Record} (h : Offending rs.dropLast) : Offending rs := by
  rcases List.eq_nil_or_concat rs with rfl | ⟨init, last, rfl⟩
  · exact h
  · rw [List.concat_eq_append] at h ⊢
    rw [List.dropLast_concat] at h
    exact h.append [last]

/-- An offence by its position. -/
theorem offending_iff_get (rs : List Record) :
    Offending rs ↔ ∃ i : Fin rs.length, Offends (rs.take i) (rs.get i) := by
  constructor
  · rintro ⟨before, r, after, rfl, ho⟩
    refine ⟨⟨before.length, by simp⟩, ?_⟩
    simpa using ho
  · rintro ⟨i, ho⟩
    refine ⟨rs.take i, rs.get i, rs.drop (i + 1), ?_, ho⟩
    rw [List.get_eq_getElem, ← List.drop_eq_getElem_cons i.isLt, List.take_append_drop]

instance (before : List Record) (r : Record) : Decidable (Offends before r) :=
  decidable_of_iff (∃ k ∈ kinds, r.tag = k.queryTag ∧
      ((∃ e ∈ before, e.tag = r.tag) ∨ ¬ k.Admits r.value))
    ⟨fun ⟨k, _, h⟩ => ⟨k, h⟩, fun ⟨k, h⟩ => ⟨k, by cases k <;> decide, h⟩⟩

instance (rs : List Record) : Decidable (Offending rs) :=
  decidable_of_iff _ (offending_iff_get rs).symm

theorem Kind.queryTag_injective {k k' : Kind} (h : k.queryTag = k'.queryTag) : k = k' := by
  cases k <;> cases k' <;> first | rfl | exact absurd h (by decide)

theorem Kind.responseTag_injective {k k' : Kind} (h : k.responseTag = k'.responseTag) : k = k' := by
  cases k <;> cases k' <;> first | rfl | exact absurd h (by decide)

theorem Kind.mem_kinds (k : Kind) : k ∈ kinds := by cases k <;> decide

theorem kinds_ascending : kinds.Pairwise (fun k k' => k.queryTag < k'.queryTag) := by decide

theorem kindOf_eq_some {tag : UInt8} {k : Kind} : kindOf tag = some k ↔ tag = k.queryTag := by
  constructor
  · intro h
    rw [kindOf] at h
    have htag := List.find?_some h
    rw [beq_iff_eq] at htag
    exact htag.symm
  · rintro rfl
    cases k <;> decide

/-! ### Answers -/

theorem mem_asked {rs : List Record} {k : Kind} : k ∈ asked rs ↔ (lookup rs k).isSome = true := by
  simp only [asked, List.mem_filterMap, kindOf_eq_some, lookup, List.find?_isSome, beq_iff_eq]

theorem mem_answer {env : Readings} {rs : List Record} {r : Record} :
    r ∈ answer env rs ↔ ∃ k e, lookup rs k = some e ∧ r = k.answer env e := by
  simp only [answer, List.mem_filterMap, Option.map_eq_some_iff]
  constructor
  · rintro ⟨k, -, e, he, rfl⟩
    exact ⟨k, e, he, rfl⟩
  · rintro ⟨k, e, he, rfl⟩
    exact ⟨k, k.mem_kinds, e, he, rfl⟩

/-- A record with the response tag of a kind answers a query of that kind. -/
theorem answer_of_tag {env : Readings} {rs : List Record} {r : Record} {k : Kind}
    (h : r ∈ answer env rs) (htag : r.tag = k.responseTag) :
    ∃ e, lookup rs k = some e ∧ r.value = k.answerValue env e.value := by
  obtain ⟨k', e, he, rfl⟩ := mem_answer.mp h
  obtain rfl := Kind.responseTag_injective htag
  exact ⟨e, he, rfl⟩

/-- A kind that is asked for is answered. -/
theorem answer_of_asked {env : Readings} {rs : List Record} {k : Kind} (h : k ∈ asked rs) :
    ∃ e, lookup rs k = some e ∧ k.answer env e ∈ answer env rs := by
  obtain ⟨e, he⟩ := Option.isSome_iff_exists.mp (mem_asked.mp h)
  exact ⟨e, he, mem_answer.mpr ⟨k, e, he, rfl⟩⟩

/-- More records are answered with more bytes. -/
theorem answerLength_append_le (rs rs' : List Record) :
    answerLength rs ≤ answerLength (rs ++ rs') := by
  refine List.sum_le_sum (fun k _ => ?_)
  rw [lookup, lookup, List.find?_append]
  cases rs.find? (fun r => r.tag == k.queryTag) with
  | none => exact Nat.zero_le _
  | some r => exact le_refl _

/-- The longest answer has 305 bytes. -/
theorem answerLength_le (rs : List Record) : answerLength rs ≤ 305 := by
  have hkind : ∀ (k : Kind) (n : ℕ), (∀ r : Record, 2 + k.answerSize r.value ≤ n) →
      ((lookup rs k).map (fun r => 2 + k.answerSize r.value)).getD 0 ≤ n := by
    intro k n hn
    cases lookup rs k with
    | none => exact Nat.zero_le n
    | some r => exact hn r
  have huser := hkind .userData 257 (fun r => by have := r.short; simp only [Kind.answerSize]; omega)
  have hdevice := hkind .deviceID 18 (fun _ => le_refl _)
  have hrx := hkind .timerRx 10 (fun _ => le_refl _)
  have htx := hkind .timerTx 10 (fun _ => le_refl _)
  have hlast := hkind .lastUpdated 10 (fun _ => le_refl _)
  simp only [answerLength, kinds, List.map_cons, List.map_nil, List.sum_cons, List.sum_nil]
  omega

/-- The tags of an answer: those of the kinds asked for, in the fixed order. -/
theorem answer_tags (env : Readings) (rs : List Record) : (answer env rs).map Record.tag =
    (kinds.filter (fun k => (lookup rs k).isSome)).map Kind.responseTag := by
  rw [answer]
  induction kinds with
  | nil => rfl
  | cons k ks ih =>
    rw [List.filterMap_cons, List.filter_cons]
    cases lookup rs k with
    | none => simpa using ih
    | some r => simpa [Kind.answer] using ih

/-- The fixed order is the order of the query exactly when the query asks in ascending order. -/
theorem answer_tags_eq_iff (env : Readings) (rs : List Record) :
    (answer env rs).map Record.tag = (asked rs).map Kind.responseTag ↔
      (asked rs).Pairwise (fun k k' => k.queryTag < k'.queryTag) := by
  have hinj : Function.Injective Kind.responseTag := fun _ _ h => Kind.responseTag_injective h
  rw [answer_tags, hinj.list_map.eq_iff]
  constructor
  · intro h
    rw [← h]
    exact kinds_ascending.filter _
  · intro h
    have hnodup : ∀ {l : List Kind}, l.Pairwise (fun k k' => k.queryTag < k'.queryTag) →
        l.Nodup := by
      intro l hl
      exact hl.imp (fun hlt heq => by rw [heq] at hlt; exact absurd hlt (UInt8.lt_irrefl _))
    have hfix := kinds_ascending.filter (fun k => (lookup rs k).isSome)
    refine List.Perm.eq_of_pairwise ?_ hfix h ?_
    · intro a b _ _ hab hba
      exact absurd (UInt8.lt_trans hab hba) (UInt8.lt_irrefl _)
    · rw [List.perm_ext_iff_of_nodup (hnodup hfix) (hnodup h)]
      intro k
      rw [mem_asked, List.mem_filter]
      exact and_iff_right k.mem_kinds

/-! ### Messages -/

@[simp] theorem length_fixedHeader : fixedHeader.length = 17 := rfl

theorem length_front (flags : UInt8) (b : List UInt8) : (front flags b).length = 22 + b.length := by
  simp only [front, List.length_append, List.length_cons, length_toLE, length_fixedHeader]
  omega

theorem length_checksum (md5 : List UInt8 → Digest) (devID : DeviceID) (flags : UInt8)
    (b : List UInt8) : (checksum md5 devID flags b).length = 16 := by
  rw [checksum]
  split <;> simp

theorem length_message (md5 : List UInt8 → Digest) (devID : DeviceID) (flags : UInt8)
    (b : List UInt8) : (message md5 devID flags b).length = 38 + b.length := by
  rw [message, List.length_append, length_front, length_checksum]
  omega

/-- The last sixteen bytes are the checksum of the others. -/
theorem length_message_sub (md5 : List UInt8 → Digest) (devID : DeviceID) (flags : UInt8)
    (b : List UInt8) : (message md5 devID flags b).length - 16 = (front flags b).length := by
  rw [length_message, length_front]
  omega

theorem take_message (md5 : List UInt8 → Digest) (devID : DeviceID) (flags : UInt8)
    (b : List UInt8) : (message md5 devID flags b).take ((message md5 devID flags b).length - 16) =
      front flags b := by
  rw [length_message_sub, message, List.take_left]

theorem drop_message (md5 : List UInt8 → Digest) (devID : DeviceID) (flags : UInt8)
    (b : List UInt8) : (message md5 devID flags b).drop ((message md5 devID flags b).length - 16) =
      checksum md5 devID flags b := by
  rw [length_message_sub, message, List.drop_left]

theorem flags_message (md5 : List UInt8 → Digest) (devID : DeviceID) (flags : UInt8)
    (b : List UInt8) : (message md5 devID flags b)[21]? = some flags := by
  rw [message, List.getElem?_append_left (by rw [length_front]; omega), front,
    List.getElem?_append_right (by simp)]
  simp

/-- XORing twice with the same bytes gives the other bytes back. -/
theorem zipWith_xor_cancel : ∀ a b : List UInt8, a.length = b.length →
    List.zipWith (· ^^^ ·) a (List.zipWith (· ^^^ ·) a b) = b
  | [], [], _ => rfl
  | x :: a, y :: b, h => by
    rw [List.zipWith_cons_cons, List.zipWith_cons_cons, zipWith_xor_cancel a b (by simpa using h),
      ← UInt8.xor_assoc, UInt8.xor_self, UInt8.zero_xor]

/-- The body of a message is found again between its header and its checksum. -/
theorem body_message (md5 : List UInt8 → Digest) (devID : DeviceID) (flags : UInt8)
    (b : List UInt8) : body (message md5 devID flags b) = b := by
  have hfront : message md5 devID flags b =
      (toLE 4 (38 + b.length) ++ fixedHeader ++ [flags]) ++ (b ++ checksum md5 devID flags b) := by
    simp [message, front]
  have hlen : (toLE 4 (38 + b.length) ++ fixedHeader ++ [flags]).length = 22 := by simp
  rw [body, length_message, Nat.add_sub_cancel_left, hfront, List.drop_left' hlen, List.take_left]

/-- A message with the flags of a query and a plain checksum is a well-formed query. -/
theorem wellFormed_query (md5 : List UInt8 → Digest) {flags : UInt8} {rs : List Record}
    (hflags : flags = 0x00 ∨ flags = 0x02) (hsize : 38 + (encode rs).length ≤ 32768) :
    WellFormed md5 (front flags (encode rs) ++ (md5 (front flags (encode rs))).toList) ∧
      body (front flags (encode rs) ++ (md5 (front flags (encode rs))).toList) = encode rs := by
  -- with these flags a response would carry the same checksum
  have hmsg : front flags (encode rs) ++ (md5 (front flags (encode rs))).toList =
      message md5 (List.Vector.replicate 16 0) flags (encode rs) := by
    rw [message, checksum, if_neg (by rcases hflags with rfl | rfl <;> decide)]
  have hlen := length_message md5 (List.Vector.replicate 16 0) flags (encode rs)
  have hbody := body_message md5 (List.Vector.replicate 16 0) flags (encode rs)
  have htake := take_message md5 (List.Vector.replicate 16 0) flags (encode rs)
  have hdrop := drop_message md5 (List.Vector.replicate 16 0) flags (encode rs)
  have h21 := flags_message md5 (List.Vector.replicate 16 0) flags (encode rs)
  rw [← hmsg] at hlen hbody htake hdrop h21
  refine ⟨⟨⟨by omega, by omega, ?_, ?_, ?_, ?_⟩, rs, hbody⟩, hbody⟩
  · rw [hlen, front, List.append_assoc, List.append_assoc, List.take_left' (length_toLE _ _)]
    exact ofLE_toLE_of_lt (by omega)
  · rw [front, List.append_assoc, List.append_assoc, List.drop_left' (length_toLE _ _),
      List.take_left' length_fixedHeader]
  · rw [h21]
    exact hflags.imp (congrArg some) (congrArg some)
  · rw [htake, hdrop, checksum, if_neg (by rcases hflags with rfl | rfl <;> decide)]

end NHA.Protocol
