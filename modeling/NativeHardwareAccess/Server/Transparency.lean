import NativeHardwareAccess.Server.Reply
import NativeHardwareAccess.Server.ResponseLayout

/-! Unsupported records are transparent.

    Offences and answers are a matter of the supported records of a body alone. Inserting records with
    other tags anywhere leaves those as they were, so the extended query, with its size and checksum
    recomputed, gets the same response. -/

namespace NHA.Protocol
open Scheme Scheme.MD5 Scheme.Tlv NHA.MessageBuilder

/-- The records the server looks at. -/
def supported (rs : List Record) : List Record := rs.filter (fun r => (kindOf r.tag).isSome)

/-- The second list is the first with records of other tags inserted between any two of its records,
    before the first or after the last. -/
inductive Inserted : List Record → List Record → Prop
  | nil : Inserted [] []
  | keep (r : Record) {rs rs' : List Record} (h : Inserted rs rs') : Inserted (r :: rs) (r :: rs')
  | insert (r : Record) {rs rs' : List Record} (htag : kindOf r.tag = none) (h : Inserted rs rs') :
      Inserted rs (r :: rs')

/-- A query with another body: same header, size and checksum recomputed. -/
def withBody (md5 : List UInt8 → Digest) (q b : List UInt8) : List UInt8 :=
  let f := toLE 4 (38 + b.length) ++ (q.drop 4).take 18 ++ b
  f ++ (md5 f).toList

/-! ### Supported records -/

theorem Inserted.supported_eq {rs rs' : List Record} (h : Inserted rs rs') :
    supported rs' = supported rs := by
  induction h with
  | nil => rfl
  | keep r _ ih =>
    rw [supported, supported, List.filter_cons, List.filter_cons]
    simp only [supported] at ih
    rw [ih]
  | insert r htag _ ih =>
    rw [supported, List.filter_cons, if_neg (by simp [htag])]
    exact ih

/-- Records of other tags are never what is looked up. -/
theorem lookup_supported (rs : List Record) (k : Kind) : lookup (supported rs) k = lookup rs k := by
  rw [lookup, lookup, supported, List.find?_filter]
  congr 1
  funext r
  by_cases htag : r.tag = k.queryTag
  · simp [htag, kindOf_eq_some.mpr rfl]
  · simp [htag]

theorem answer_supported (env : Readings) (rs : List Record) :
    answer env (supported rs) = answer env rs := by
  simp only [answer, lookup_supported]

theorem supported_concat (rs : List Record) (r : Record) :
    supported (rs ++ [r]) = supported rs ++ if (kindOf r.tag).isSome then [r] else [] := by
  rw [supported, List.filter_append, List.filter_cons, List.filter_nil]
  rfl

/-- A record of another tag never offends. -/
theorem not_offends {before : List Record} {r : Record} (h : (kindOf r.tag).isSome = false) :
    ¬ Offends before r := by
  rintro ⟨k, htag, -⟩
  rw [kindOf_eq_some.mpr htag] at h
  exact absurd h (by simp)

/-- A supported record offends after the supported records exactly when it offends after all. -/
theorem offends_supported {before : List Record} {r : Record} :
    Offends (supported before) r ↔ Offends before r := by
  constructor
  · rintro ⟨k, htag, ⟨e, he, heq⟩ | hadmits⟩
    · exact ⟨k, htag, Or.inl ⟨e, List.mem_of_mem_filter he, heq⟩⟩
    · exact ⟨k, htag, Or.inr hadmits⟩
  · rintro ⟨k, htag, ⟨e, he, heq⟩ | hadmits⟩
    · refine ⟨k, htag, Or.inl ⟨e, List.mem_filter.mpr ⟨he, ?_⟩, heq⟩⟩
      rw [heq, kindOf_eq_some.mpr htag]
      rfl
    · exact ⟨k, htag, Or.inr hadmits⟩

theorem offending_supported (rs : List Record) : Offending (supported rs) ↔ Offending rs := by
  induction rs using List.reverseRecOn with
  | nil => rfl
  | append_singleton rs r ih =>
    rw [supported_concat, offending_concat, ← ih]
    cases hr : (kindOf r.tag).isSome with
    | false =>
      rw [if_neg (by simp), List.append_nil]
      exact ⟨Or.inl, fun h => h.resolve_right (not_offends hr)⟩
    | true => rw [if_pos rfl, offending_concat, offends_supported]

/-! ### Queries with another body -/

section
variable {md5 : List UInt8 → Digest} {q : List UInt8}

/-- The eighteen bytes that are kept: the fixed header and the flags. -/
theorem Framed.header_flags (h : Framed md5 q) : ∃ flags : UInt8, (flags = 0x00 ∨ flags = 0x02) ∧
    q[21]? = some flags ∧ (q.drop 4).take 18 = fixedHeader ++ [flags] := by
  obtain ⟨flags, hflags, h21⟩ : ∃ flags : UInt8, (flags = 0x00 ∨ flags = 0x02) ∧
      q[21]? = some flags := by
    rcases h.flags with h0 | h2
    · exact ⟨0x00, Or.inl rfl, h0⟩
    · exact ⟨0x02, Or.inr rfl, h2⟩
  refine ⟨flags, hflags, h21, ?_⟩
  rw [List.take_add_one, h.header, List.getElem?_drop, h21]
  rfl

/-- The new query is well formed, has the new body, and the same flags. -/
theorem Framed.withBody (h : Framed md5 q) {rs : List Record}
    (hsize : 38 + (encode rs).length ≤ 32768) :
    WellFormed md5 (withBody md5 q (encode rs)) ∧
      body (Protocol.withBody md5 q (encode rs)) = encode rs ∧
      (Protocol.withBody md5 q (encode rs))[21]? = q[21]? := by
  obtain ⟨flags, hflags, h21, hheader⟩ := h.header_flags
  have heq : Protocol.withBody md5 q (encode rs) =
      front flags (encode rs) ++ (md5 (front flags (encode rs))).toList := by
    rw [Protocol.withBody, hheader, front]
    simp only [List.append_assoc, List.singleton_append]
  obtain ⟨hwf, hbody⟩ := wellFormed_query md5 hflags hsize
  rw [heq]
  refine ⟨hwf, hbody, ?_⟩
  rw [h21, front, List.append_assoc, List.append_assoc,
    List.getElem?_append_right (by simp), List.getElem?_append_right (by simp)]
  simp

end

end NHA.Protocol

namespace NHA.MessageBuilder
open Scheme Scheme.MD5 Scheme.Tlv NHA.Protocol

/-- Two well-formed queries with the same flags and the same supported records get the same response,
    if these do not offend and the buffer is large enough for every answer. -/
theorem createResponse_supported (md5 : List UInt8 → Digest) (env : Readings)
    {query query' : Memory} {querySize querySize' : Int32} (responseBuffer responseBuffer' : Memory)
    {maxResponseSize : UInt32} (hmax : 343 ≤ maxResponseSize.toNat)
    (hwf : WellFormed md5 (received query querySize))
    (hwf' : WellFormed md5 (received query' querySize'))
    (hflags : (received query' querySize')[21]? = (received query querySize)[21]?)
    (hclean : ¬ Offending (records (body (received query querySize))))
    (hsupported : supported (records (body (received query' querySize'))) =
      supported (records (body (received query querySize)))) :
    (createResponse md5 env query' querySize' responseBuffer' maxResponseSize).1 ≠ -1 ∧
      responseOf (createResponse md5 env query' querySize' responseBuffer' maxResponseSize) =
        responseOf (createResponse md5 env query querySize responseBuffer maxResponseSize) := by
  have hclean' : ¬ Offending (records (body (received query' querySize'))) := by
    rwa [← offending_supported, hsupported, offending_supported]
  have hn := (createResponse_answers_iff md5 env query querySize responseBuffer maxResponseSize).mpr
    ⟨hwf, by omega, parsed_rest_of_clean _ _ hmax hclean⟩
  have hn' := (createResponse_answers_iff md5 env query' querySize' responseBuffer'
    maxResponseSize).mpr ⟨hwf', by omega, parsed_rest_of_clean _ _ hmax hclean'⟩
  refine ⟨hn', ?_⟩
  rw [(responseOf_answered md5 env _ _ _ _ hn).2.2, (responseOf_answered md5 env _ _ _ _ hn').2.2,
    responseBody_of_clean _ _ _ hmax hclean, responseBody_of_clean _ _ _ hmax hclean',
    Framed.flagsR_eq md5 query querySize hwf.toFramed,
    Framed.flagsR_eq md5 query' querySize' hwf'.toFramed, hflags, ← answer_supported env,
    hsupported, answer_supported]

/-- CORRECT: unsupported records are transparent. When a query is answered and its records do not
    offend, the query with any records of other tags inserted into its body, size and checksum
    recomputed, is answered with the same bytes. -/
theorem unsupported_transparent (md5 : List UInt8 → Digest) (env : Readings) (query query' : Memory)
    (querySize querySize' : Int32) (responseBuffer responseBuffer' : Memory)
    (maxResponseSize : UInt32) (rs' : List Record) (hmax : 343 ≤ maxResponseSize.toNat)
    (hanswered : (createResponse md5 env query querySize responseBuffer maxResponseSize).1 ≠ -1)
    (hclean : ¬ Offending (records (body (received query querySize))))
    (hinserted : Inserted (records (body (received query querySize))) rs')
    (hquery' : received query' querySize' = withBody md5 (received query querySize) (encode rs'))
    (hsize : 38 + (encode rs').length ≤ 32768) :
    (createResponse md5 env query' querySize' responseBuffer' maxResponseSize).1 =
        (createResponse md5 env query querySize responseBuffer maxResponseSize).1 ∧
      responseOf (createResponse md5 env query' querySize' responseBuffer' maxResponseSize) =
        responseOf (createResponse md5 env query querySize responseBuffer maxResponseSize) := by
  have hwf := ((createResponse_answers_iff ..).mp hanswered).1
  obtain ⟨hwf', hbody', hflags⟩ := hwf.toFramed.withBody hsize
  rw [← hquery'] at hwf' hbody' hflags
  have hsupported : supported (records (body (received query' querySize'))) =
      supported (records (body (received query querySize))) := by
    rw [hbody', records_encode, hinserted.supported_eq]
  obtain ⟨hanswered', hresp⟩ := createResponse_supported md5 env responseBuffer responseBuffer' hmax
    hwf hwf' hflags hclean hsupported
  refine ⟨?_, hresp⟩
  -- the sizes are the lengths of the responses
  have hlen := congrArg List.length hresp
  rw [length_responseOf, length_responseOf] at hlen
  rw [← responseOf_size_nonneg md5 env _ _ _ _ hanswered',
    ← responseOf_size_nonneg md5 env _ _ _ _ hanswered, hlen]

/-- Records around the one that asks for the device ID: a response tag, and a value that looks like a
    query for the time. -/
def surrounded : List Record :=
  [⟨0x11, [0x91, 0x00], by decide⟩, ⟨0x91, [], by decide⟩, ⟨0x77, [0x92, 0x00], by decide⟩,
   ⟨0x77, [], by decide⟩]

theorem unsupported_transparent_deviceID : responseOf (createResponse md5 sampleReadings
      (Memory.ofList (withBody md5 deviceIDQuery (encode surrounded))) 50 (fun _ => 7) 61440) =
    responseOf (createResponse md5 sampleReadings (Memory.ofList deviceIDQuery) 40 (fun _ => 0)
      61440) := by
  have hreceived : received (Memory.ofList deviceIDQuery) 40 = deviceIDQuery :=
    received_ofList (q := deviceIDQuery) (by decide)
  have hrecords : records (body deviceIDQuery) = [⟨0x91, [], by decide⟩] := by decide
  refine (unsupported_transparent md5 sampleReadings (Memory.ofList deviceIDQuery)
    (Memory.ofList (withBody md5 deviceIDQuery (encode surrounded))) 40 50 (fun _ => 0) (fun _ => 7)
    61440 surrounded (by decide) (by decide +kernel) ?_ ?_ ?_ (by decide)).2
  · rw [hreceived, hrecords]
    rintro ⟨before, r, after, hsplit, k, htag, hoff⟩
    obtain ⟨rfl, rfl, rfl⟩ : before = [] ∧ r = ⟨0x91, [], by decide⟩ ∧ after = [] := by
      cases before with
      | nil => simpa [eq_comm] using hsplit
      | cons e before => simp at hsplit
    rcases hoff with ⟨e, he, -⟩ | hadmits
    · exact absurd he (List.not_mem_nil)
    · cases k <;> simp [Kind.queryTag, Kind.Admits] at htag hadmits
  · rw [hreceived, hrecords]
    exact .insert _ (by decide) (.keep _ (.insert _ (by decide) (.insert _ (by decide) .nil)))
  · rw [hreceived]
    exact received_ofList (q := withBody md5 deviceIDQuery (encode surrounded)) (by decide +kernel)

end NHA.MessageBuilder
