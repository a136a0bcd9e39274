import NativeHardwareAccess.Schemes.Machine
import NativeHardwareAccess.Server.ResponseLayout
import NativeHardwareAccess.Server.TPMWatcher

/-! The device ID and its timestamp in one response.

    `createResponse` (main thread) reads the cache in two critical sections: `TPMWatcher::get` at the
    start, `TPMWatcher::getLastUpdated` while the body is written. `TPMWatcher::update` (timer
    thread) writes both values in one. The machine below interleaves them freely:

        main    ── get ─────────────── getLastUpdated ──▶ response
                      ▲             ▲
        timer   ── update ─ … ─── update ─ …

    An update that falls between the two and changes the device ID tears the pair apart. -/

namespace NHA.Snapshot
open Scheme Scheme.MD5 Scheme.Tlv NHA.MessageBuilder NHA.Protocol NHA.TPMWatcher

/-- A call of `createResponse` that has taken its first readings. -/
structure Request where
  query : Memory
  querySize : Int32
  responseBuffer : Memory
  maxResponseSize : UInt32
  timerRx : UInt64
  devID : DeviceID

/-- The cache, what updates have written to it, the call in progress and the responses made. -/
structure System where
  cache : Cache
  writes : List Cache
  request : Option Request
  responses : List (List UInt8)

/-- One step of one thread; each is at most one critical section. -/
inductive Action where
  | update (tpm : Tpm) (now : UInt64)
  | get (query : Memory) (querySize : Int32) (responseBuffer : Memory) (maxResponseSize : UInt32)
      (timerRx : UInt64)
  | getLastUpdated (timerTx : UInt64)

/-- The outcome of a call whose second critical section sees `cache`. -/
def Request.finish (md5 : List UInt8 → Digest) (r : Request) (timerTx : UInt64) (cache : Cache) :
    ℤ × Buffer :=
  createResponse md5 ⟨r.timerRx, r.devID, timerTx, cache.lastUpdated⟩ r.query r.querySize
    r.responseBuffer r.maxResponseSize

/-- The main thread serves one call at a time. A call that is refused, or whose body does not want
    the time, ends without looking at it. -/
def step (md5 : List UInt8 → Digest) (s : System) : Action → Option System
  | .update tpm now =>
    let u := TPMWatcher.update tpm now s.cache
    some { s with
      cache := u.2.cache
      writes := if u.1 then s.writes ++ [u.2.cache] else s.writes }
  | .get query querySize responseBuffer maxResponseSize timerRx =>
    match s.request with
    | some _ => none
    | none => some { s with
        request := some ⟨query, querySize, responseBuffer, maxResponseSize, timerRx,
          s.cache.deviceID⟩ }
  | .getLastUpdated timerTx =>
    match s.request with
    | none => none
    | some r =>
      let result := r.finish md5 timerTx s.cache
      some { s with
        request := none
        responses := if result.1 = -1 then s.responses else s.responses ++ [responseOf result] }

/-- `TPMWatcher::start`: the service runs only after a first successful update. -/
def start (tpm : Tpm) (now : UInt64) : Option System :=
  let u := TPMWatcher.update tpm now Cache.init
  if u.1 then some ⟨u.2.cache, [u.2.cache], none, []⟩ else none

/-! ### What a response shows -/

/-- A response shows a device ID in its record 0x11 or in an XORed checksum. -/
def ShowsDeviceID (md5 : List UInt8 → Digest) (m : List UInt8) (d : DeviceID) : Prop :=
  (∃ r ∈ records (body m), r.tag = 0x11 ∧ r.value = d.toList) ∨
  (m[21]? = some 0x01 ∧ m.drop (m.length - 16) =
    List.zipWith (· ^^^ ·) (md5 (m.take (m.length - 16))).toList d.toList)

/-- It shows a time in its record 0x14. -/
def ShowsLastUpdated (m : List UInt8) (u : UInt64) : Prop :=
  ∃ r ∈ records (body m), r.tag = 0x14 ∧ r.value = toLE 8 u.toNat

/-- Device ID and time in a response were written by one update. -/
def Consistent (md5 : List UInt8 → Digest) (writes : List Cache) (m : List UInt8) : Prop :=
  ∀ d u, ShowsDeviceID md5 m d → ShowsLastUpdated m u → ⟨d, u⟩ ∈ writes

/-- The query asks for the time and for the device ID, in a record or in the checksum. -/
def AsksForBoth (q : List UInt8) : Prop :=
  Kind.lastUpdated ∈ asked (records (body q)) ∧
    (Kind.deviceID ∈ asked (records (body q)) ∨ q[21]? = some 0x02)

/-- The call shows device ID and time in its response: the query is well-formed and asks for both, no
    record of it offends, and the answer fits behind the header. The calls that do not meet this are
    refused, are answered without a body, or use at most one of the two. -/
structure Request.ShowsBoth (md5 : List UInt8 → Digest) (r : Request) : Prop where
  wellFormed : WellFormed md5 (received r.query r.querySize)
  clean : ¬ Offending (records (body (received r.query r.querySize)))
  fits : 38 + answerLength (records (body (received r.query r.querySize))) ≤ r.maxResponseSize.toNat
  asks : AsksForBoth (received r.query r.querySize)

/-- When a call that shows both reaches its second critical section, the cache still holds the device
    ID it read in the first. -/
def Steady (md5 : List UInt8 → Digest) (s : System) : Action → Prop
  | .getLastUpdated _ => ∀ r, s.request = some r → r.ShowsBoth md5 → r.devID = s.cache.deviceID
  | _ => True

theorem toLE64_injective {u v : UInt64} (h : toLE 8 u.toNat = toLE 8 v.toNat) : u = v := by
  have hu := ofLE_toLE_of_lt (k := 8) (n := u.toNat) (lt_of_lt_of_eq u.toNat_lt (by norm_num))
  have hv := ofLE_toLE_of_lt (k := 8) (n := v.toNat) (lt_of_lt_of_eq v.toNat_lt (by norm_num))
  rw [← UInt64.toNat_inj, ← hu, ← hv, h]

section
variable {md5 : List UInt8 → Digest} {r : Request} {timerTx : UInt64} {cache : Cache}

/-- The device ID a response shows is the one read at the start, and the query asks for it. -/
theorem showsDeviceID_eq {d : DeviceID} (hn : (r.finish md5 timerTx cache).1 ≠ -1)
    (h : ShowsDeviceID md5 (responseOf (r.finish md5 timerTx cache)) d) :
    d = r.devID ∧ (Kind.deviceID ∈ asked (records (body (received r.query r.querySize))) ∨
      (received r.query r.querySize)[21]? = some 0x02) := by
  obtain ⟨hwf, hmax, hmsg⟩ := responseOf_answered _ _ _ _ _ _ hn
  rw [Request.finish, hmsg] at h
  rcases h with ⟨rec, hrec, htag, hvalue⟩ | ⟨hflags, hsum⟩
  · rw [body_message] at hrec
    obtain ⟨e, he, hd⟩ := answer_of_tag (k := .deviceID) (mem_responseBody _ _ hmax hrec) htag
    refine ⟨List.Vector.toList_injective ?_, Or.inl (mem_asked.mpr (by rw [he]; rfl))⟩
    rw [← hvalue, hd]
    rfl
  · rw [flags_message, Framed.flagsR_eq md5 _ _ hwf.toFramed] at hflags
    have h02 : (received r.query r.querySize)[21]? = some 0x02 := by
      by_contra hne
      rw [if_neg hne] at hflags
      exact absurd hflags (by decide)
    refine ⟨List.Vector.toList_injective ?_, Or.inr h02⟩
    rw [take_message, drop_message, Framed.flagsR_eq md5 _ _ hwf.toFramed, if_pos h02, checksum,
      if_pos rfl] at hsum
    have hcancel := congrArg (List.zipWith (· ^^^ ·) (md5 (front 0x01 (responseBody
      ⟨r.timerRx, r.devID, timerTx, cache.lastUpdated⟩ r.maxResponseSize
      (received r.query r.querySize)))).toList) hsum
    rw [zipWith_xor_cancel _ _ (by simp), zipWith_xor_cancel _ _ (by simp)] at hcancel
    exact hcancel.symm

/-- The time a response shows is the one read in the second critical section; the query asks for it
    and is answered in full. -/
theorem showsLastUpdated_eq {u : UInt64} (hn : (r.finish md5 timerTx cache).1 ≠ -1)
    (h : ShowsLastUpdated (responseOf (r.finish md5 timerTx cache)) u) :
    u = cache.lastUpdated ∧
      Kind.lastUpdated ∈ asked (records (body (received r.query r.querySize))) ∧
      ¬ Offending (records (body (received r.query r.querySize))) ∧
      38 + answerLength (records (body (received r.query r.querySize))) ≤
        r.maxResponseSize.toNat := by
  obtain ⟨-, hmax, hmsg⟩ := responseOf_answered _ _ _ _ _ _ hn
  rw [Request.finish, hmsg] at h
  obtain ⟨rec, hrec, htag, hvalue⟩ := h
  rw [body_message] at hrec
  rcases responseBody_cases _ r.maxResponseSize (received r.query r.querySize) hmax with
    ⟨hclean, hfits, -, hanswer⟩ | ⟨hnil, -⟩
  · rw [hanswer, records_encode] at hrec
    obtain ⟨e, he, hu⟩ := answer_of_tag (k := .lastUpdated) hrec htag
    exact ⟨toLE64_injective (hvalue.symm.trans hu), mem_asked.mpr (by rw [he]; rfl), hclean, hfits⟩
  · rw [hnil] at hrec
    exact absurd hrec (List.not_mem_nil)

/-- A call that is to show both is answered in full. -/
theorem Request.ShowsBoth.answered (h : r.ShowsBoth md5) :
    (r.finish md5 timerTx cache).1 ≠ -1 ∧
      records (body (responseOf (r.finish md5 timerTx cache))) =
        answer ⟨r.timerRx, r.devID, timerTx, cache.lastUpdated⟩
          (records (body (received r.query r.querySize))) := by
  obtain ⟨hwf, hclean, hfits, -⟩ := h
  have hmax : 38 ≤ r.maxResponseSize.toNat := by omega
  rcases responseBody_cases ⟨r.timerRx, r.devID, timerTx, cache.lastUpdated⟩ r.maxResponseSize
    (received r.query r.querySize) hmax with ⟨-, -, hrest, hanswer⟩ | ⟨-, hoff⟩
  · have hn : (r.finish md5 timerTx cache).1 ≠ -1 :=
      (createResponse_answers_iff _ _ _ _ _ _).mpr ⟨hwf, hmax, hrest⟩
    obtain ⟨-, -, hmsg⟩ := responseOf_answered _ _ _ _ _ _ hn
    exact ⟨hn, by rw [Request.finish, hmsg, body_message, hanswer, records_encode]⟩
  · exact absurd (hoff hfits) hclean

theorem Request.ShowsBoth.showsLastUpdated (h : r.ShowsBoth md5) :
    ShowsLastUpdated (responseOf (r.finish md5 timerTx cache)) cache.lastUpdated := by
  rw [ShowsLastUpdated, h.answered.2]
  obtain ⟨e, -, hmem⟩ := answer_of_asked (k := .lastUpdated) h.asks.1
  exact ⟨_, hmem, rfl, rfl⟩

theorem Request.ShowsBoth.showsDeviceID (h : r.ShowsBoth md5) :
    ShowsDeviceID md5 (responseOf (r.finish md5 timerTx cache)) r.devID := by
  rcases h.asks.2 with hasked | h02
  · refine Or.inl ?_
    rw [h.answered.2]
    obtain ⟨e, -, hmem⟩ := answer_of_asked (k := .deviceID) hasked
    exact ⟨_, hmem, rfl, rfl⟩
  · obtain ⟨hwf, -, hmsg⟩ := responseOf_answered _ _ _ _ _ _ h.answered.1
    refine Or.inr ?_
    rw [Request.finish, hmsg, Framed.flagsR_eq md5 _ _ hwf.toFramed, if_pos h02, flags_message,
      take_message, drop_message, checksum, if_pos rfl]
    exact ⟨rfl, rfl⟩

/-- Which calls show both, and what they show: the device ID read at the start with the time read in
    the second critical section. -/
theorem showsBoth_iff {d : DeviceID} {u : UInt64} :
    (r.finish md5 timerTx cache).1 ≠ -1 ∧
      ShowsDeviceID md5 (responseOf (r.finish md5 timerTx cache)) d ∧
      ShowsLastUpdated (responseOf (r.finish md5 timerTx cache)) u ↔
    r.ShowsBoth md5 ∧ d = r.devID ∧ u = cache.lastUpdated := by
  constructor
  · rintro ⟨hn, hd, hu⟩
    obtain ⟨rfl, hdev⟩ := showsDeviceID_eq hn hd
    obtain ⟨rfl, hlast, hclean, hfits⟩ := showsLastUpdated_eq hn hu
    exact ⟨⟨(responseOf_answered _ _ _ _ _ _ hn).1, hclean, hfits, hlast, hdev⟩, rfl, rfl⟩
  · rintro ⟨hboth, rfl, rfl⟩
    exact ⟨hboth.answered.1, hboth.showsDeviceID, hboth.showsLastUpdated⟩

end

/-! ### What a step can do -/

/-- Everything a step can do. -/
inductive Step (md5 : List UInt8 → Digest) (s : System) : Action → System → Prop
  | failed {tpm : Tpm} {now : UInt64} (hfail : (TPMWatcher.update tpm now s.cache).1 = false) :
      Step md5 s (.update tpm now) s
  | stored {tpm : Tpm} {now : UInt64} (hok : (TPMWatcher.update tpm now s.cache).1 = true) :
      Step md5 s (.update tpm now) { s with
        cache := (TPMWatcher.update tpm now s.cache).2.cache
        writes := s.writes ++ [(TPMWatcher.update tpm now s.cache).2.cache] }
  | get {query : Memory} {querySize : Int32} {responseBuffer : Memory} {maxResponseSize : UInt32}
      {timerRx : UInt64} (hfree : s.request = none) :
      Step md5 s (.get query querySize responseBuffer maxResponseSize timerRx) { s with
        request := some ⟨query, querySize, responseBuffer, maxResponseSize, timerRx,
          s.cache.deviceID⟩ }
  | refused {timerTx : UInt64} {r : Request} (hr : s.request = some r)
      (hn : (r.finish md5 timerTx s.cache).1 = -1) :
      Step md5 s (.getLastUpdated timerTx) { s with request := none }
  | answered {timerTx : UInt64} {r : Request} (hr : s.request = some r)
      (hn : (r.finish md5 timerTx s.cache).1 ≠ -1) :
      Step md5 s (.getLastUpdated timerTx) { s with
        request := none
        responses := s.responses ++ [responseOf (r.finish md5 timerTx s.cache)] }

variable {md5 : List UInt8 → Digest} {s s' : System} {a : Action}

theorem step_cases (h : step md5 s a = some s') : Step md5 s a s' := by
  cases a with
  | update tpm now =>
    obtain rfl := Option.some.inj h
    rcases update_cases tpm now s.cache with ⟨hfail, hcache⟩ | ⟨hok, -⟩
    · simp only [hfail, hcache, Bool.false_eq_true, if_false]
      exact .failed hfail
    · simp only [hok, if_true]
      exact .stored hok
  | get query querySize responseBuffer maxResponseSize timerRx =>
    rw [step] at h
    split at h
    · exact absurd h (by simp)
    · rename_i hfree
      obtain rfl := Option.some.inj h
      exact .get hfree
  | getLastUpdated timerTx =>
    rw [step] at h
    split at h
    · exact absurd h (by simp)
    · rename_i r hr
      obtain rfl := Option.some.inj h
      by_cases hn : (r.finish md5 timerTx s.cache).1 = -1
      · simp only [hn, if_true]
        exact .refused hr hn
      · simp only [hn, if_false]
        exact .answered hr hn

/-- Nothing that was written or sent is forgotten. -/
structure Extends (s s' : System) : Prop where
  writes : s.writes ⊆ s'.writes
  responses : s.responses ⊆ s'.responses

theorem Extends.refl (s : System) : Extends s s := ⟨List.Subset.refl _, List.Subset.refl _⟩

theorem Extends.trans {t : System} (h : Extends s s') (h' : Extends s' t) : Extends s t :=
  ⟨List.Subset.trans h.writes h'.writes, List.Subset.trans h.responses h'.responses⟩

theorem step_extends (h : step md5 s a = some s') : Extends s s' := by
  cases step_cases h with
  | stored => exact ⟨List.subset_append_left _ _, List.Subset.refl _⟩
  | answered => exact ⟨List.Subset.refl _, List.subset_append_left _ _⟩
  | _ => exact ⟨List.Subset.refl _, List.Subset.refl _⟩

theorem reaches_extends (h : Machine.Reaches (step md5) s s') : Extends s s' := by
  obtain ⟨actions, hrun⟩ := h
  have hkeep : ∀ t b t', Extends s t → True → step md5 t b = some t' → Extends s t' :=
    fun _ _ _ hgrown _ hstep => hgrown.trans (step_extends hstep)
  exact Machine.run_invariant hkeep actions (Extends.refl s)
    (Machine.along_of_forall (fun _ _ => trivial) _ _) hrun

/-- The cache holds what some update wrote. -/
def Cached (s : System) : Prop := s.cache ∈ s.writes

theorem cached_step (hcached : Cached s) (h : step md5 s a = some s') : Cached s' := by
  cases step_cases h with
  | stored => exact List.mem_append_right _ (List.mem_singleton.mpr rfl)
  | _ => exact hcached

theorem cached_start {tpm : Tpm} {now : UInt64} (h : start tpm now = some s) :
    Cached s ∧ s.responses = [] := by
  rw [start] at h
  split at h
  · obtain rfl := Option.some.inj h
    exact ⟨List.mem_singleton.mpr rfl, rfl⟩
  · exact absurd h (by simp)

/-! ### Runs -/

/-- The cache holds what some update wrote, and so does every response. -/
structure Inv (md5 : List UInt8 → Digest) (s : System) : Prop where
  cached : Cached s
  consistent : ∀ m ∈ s.responses, Consistent md5 s.writes m

theorem Consistent.mono {writes writes' : List Cache} {m : List UInt8} (hsub : writes ⊆ writes')
    (h : Consistent md5 writes m) : Consistent md5 writes' m :=
  fun d u hd hu => hsub (h d u hd hu)

/-- A step whose device ID is still the one in the cache answers with the pair in the cache. -/
theorem inv_step (hinv : Inv md5 s) (hsteady : Steady md5 s a) (h : step md5 s a = some s') :
    Inv md5 s' := by
  refine ⟨cached_step hinv.cached h, ?_⟩
  cases step_cases h with
  | stored =>
    intro m hm
    exact (hinv.consistent m hm).mono (List.subset_append_left _ _)
  | answered hr hn =>
    intro m hm
    rcases List.mem_append.mp hm with hm | hm
    · exact hinv.consistent m hm
    · rw [List.mem_singleton] at hm
      subst hm
      intro d u hd hu
      obtain ⟨hboth, rfl, rfl⟩ := showsBoth_iff.mp ⟨hn, hd, hu⟩
      rw [hsteady _ hr hboth]
      exact hinv.cached
  | _ => exact hinv.consistent

/-- An answer that shows both while the cache holds another device ID is not consistent, when no two
    updates have the same time. -/
theorem steady_of_consistent {writes : List Cache} (hcached : Cached s)
    (h : step md5 s a = some s') (hsub : s.writes ⊆ writes)
    (htimes : (writes.map Cache.lastUpdated).Nodup)
    (hall : ∀ m ∈ s'.responses, Consistent md5 writes m) : Steady md5 s a := by
  cases a with
  | update tpm now => trivial
  | get query querySize responseBuffer maxResponseSize timerRx => trivial
  | getLastUpdated timerTx =>
    intro r hr hboth
    cases step_cases h with
    | refused hr' hn =>
      obtain rfl := Option.some.inj (hr.symm.trans hr')
      exact absurd hn hboth.answered.1
    | answered hr' hn =>
      obtain rfl := Option.some.inj (hr.symm.trans hr')
      have hpair := hall _ (List.mem_append_right _ (List.mem_singleton.mpr rfl)) _ _
        hboth.showsDeviceID hboth.showsLastUpdated
      exact congrArg Cache.deviceID (List.inj_on_of_nodup_map htimes hpair (hsub hcached) rfl)

/-- CORRECT (exact condition): in every run in which no update changes the device ID between the two
    critical sections of a call that shows both, every response shows a device ID and a time that one
    update wrote. When no two updates have the same time, these are the only such runs. -/
theorem responses_consistent (md5 : List UInt8 → Digest) (tpm : Tpm) (now : UInt64)
    (actions : List Action) (s₀ s : System) (hstart : start tpm now = some s₀)
    (hrun : Machine.run (step md5) s₀ actions = some s) :
    (Machine.Along (step md5) (Steady md5) s₀ actions →
      ∀ m ∈ s.responses, Consistent md5 s.writes m) ∧
    ((s.writes.map Cache.lastUpdated).Nodup → (∀ m ∈ s.responses, Consistent md5 s.writes m) →
      Machine.Along (step md5) (Steady md5) s₀ actions) := by
  obtain ⟨hcached, hnone⟩ := cached_start hstart
  constructor
  · intro hsteady
    have hinv : Inv md5 s₀ := ⟨hcached, by simp [hnone]⟩
    exact (Machine.run_invariant (fun _ _ _ => inv_step) actions hinv hsteady hrun).consistent
  · intro htimes hall
    refine Machine.along_of_run (fun _ _ _ => cached_step) ?_ actions hcached hrun
    intro t b t' ht hstep hreach
    have hlater := reaches_extends hreach
    exact steady_of_consistent ht hstep ((step_extends hstep).trans hlater).writes htimes
      (fun m hm => hall m (hlater.responses hm))

/-- A query for the device ID and the time of its last update. -/
def bothQuery : List UInt8 :=
  [0x2a, 0x00, 0x00, 0x00, 0x00, 0x04, 0x4e, 0x48, 0x41, 0x31, 0x01, 0x04, 0x00, 0x00, 0x00, 0x01,
   0x02, 0x01, 0x01, 0x03, 0x01, 0x00, 0x91, 0x00, 0x94, 0x00, 0xaf, 0x88, 0x9b, 0xf5, 0xe7, 0x48,
   0x53, 0xcb, 0x25, 0x3b, 0x5f, 0x39, 0xc4, 0x52, 0x9e, 0x52]

/-- A TPM whose endorsement key has a name of 00 0B, sixteen times the byte `b` and sixteen zeros. -/
def sampleTpm (b : UInt8) : Tpm :=
  ⟨0, 0, 0, 0, Memory.ofList ([0x00, 0x0B] ++ List.replicate 16 b ++ List.replicate 16 0), 34⟩

/-- The service after a first update at time 100. -/
def sampleStart : System :=
  let c := (TPMWatcher.update (sampleTpm 1) 100 Cache.init).2.cache
  ⟨c, [c], none, []⟩

/-- Serve one query for both, with an update at time 155 between the critical sections. -/
def sampleRun (b : UInt8) : List Action :=
  [.get (Memory.ofList bothQuery) 42 (fun _ => 0) 61440 150, .update (sampleTpm b) 155,
   .getLastUpdated 160]

/-- The update changes the device ID: the response shows the old one with the new time. -/
theorem sampleRun_torn : ∃ s, start (sampleTpm 1) 100 = some sampleStart ∧
    Machine.run (step MD5.md5) sampleStart (sampleRun 2) = some s ∧
    ¬ ∀ m ∈ s.responses, Consistent MD5.md5 s.writes m := by
  have hrun : (Machine.run (step MD5.md5) sampleStart (sampleRun 2)).any (fun s =>
      s.responses.any (fun m =>
        decide (∃ r ∈ records (body m), r.tag = 0x11 ∧ r.value = List.replicate 16 1) &&
        decide (∃ r ∈ records (body m), r.tag = 0x14 ∧ r.value = toLE 8 155) &&
        decide (⟨List.Vector.replicate 16 1, 155⟩ ∉ s.writes))) = true := by decide +kernel
  obtain ⟨s, hs, hresp⟩ := (Option.any_eq_true _ _).mp hrun
  refine ⟨s, rfl, hs, fun hall => ?_⟩
  obtain ⟨m, hm, hshow⟩ := List.any_eq_true.mp hresp
  simp only [Bool.and_eq_true, decide_eq_true_eq] at hshow
  exact hshow.2 (hall m hm _ _ (Or.inl hshow.1.1) hshow.1.2)

/-- The update finds the same device ID: the response shows it with the new time. -/
theorem sampleRun_consistent : ∃ s, start (sampleTpm 1) 100 = some sampleStart ∧
    Machine.run (step MD5.md5) sampleStart (sampleRun 1) = some s ∧ s.responses.length = 1 ∧
    (s.writes.map Cache.lastUpdated).Nodup ∧
    ∀ m ∈ s.responses, Consistent MD5.md5 s.writes m := by
  have hrun : (Machine.run (step MD5.md5) sampleStart (sampleRun 1)).any (fun s =>
      s.responses.length = 1 ∧ (s.writes.map Cache.lastUpdated).Nodup) = true := by decide +kernel
  obtain ⟨s, hs, hsome⟩ := (Option.any_eq_true _ _).mp hrun
  obtain ⟨hone, htimes⟩ := of_decide_eq_true hsome
  refine ⟨s, rfl, hs, hone, htimes, ?_⟩
  refine (responses_consistent MD5.md5 (sampleTpm 1) 100 (sampleRun 1) sampleStart s rfl hs).1 ?_
  refine ⟨trivial, fun s₁ h₁ => ⟨trivial, fun s₂ h₂ => ⟨?_, fun _ _ => trivial⟩⟩⟩
  obtain rfl := Option.some.inj h₁
  obtain rfl := Option.some.inj h₂
  intro r hr _
  obtain rfl := Option.some.inj hr
  decide

end NHA.Snapshot
