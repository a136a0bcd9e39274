import NativeHardwareAccess.Schemes.Machine
import NativeHardwareAccess.Server.TPMWatcher

/-! The device-ID cache reflects the last successful read of the TPM.

    One update is judged by what the library returned: the four codes and the name. It succeeds exactly
    when all codes do and the name without its leading 00 0B has 32 bytes, and then the cache holds
    their fold and the clock reading; otherwise the cache is as before. Over a sequence of updates the
    cache is therefore that of the last readable one. Whatever the exit, the resources are booked in a
    `ledger` that refuses a second acquisition and a second release, and it ends empty. -/

namespace NHA.TPMWatcher
open Scheme NHA.MessageBuilder

/-! ### The name -/

/-- The bytes of the name. -/
def Tpm.nameBytes (tpm : Tpm) : List UInt8 := slice tpm.name 0 tpm.nameSize.toNat

/-- The name without the bytes 00 0B in front, if it has them. -/
def Tpm.digest (tpm : Tpm) : List UInt8 :=
  if [0x00, 0x0B] <+: tpm.nameBytes then tpm.nameBytes.drop 2 else tpm.nameBytes

/-- All four calls succeed and the name is long enough. -/
def Readable (tpm : Tpm) : Prop :=
  tpm.tctiInitialize = tss2RcSuccess ∧ tpm.esysInitialize = tss2RcSuccess ∧
    tpm.createPrimary = tss2RcSuccess ∧ tpm.readPublic = tss2RcSuccess ∧ 32 ≤ tpm.digest.length

/-- The first half of 32 bytes folded with the second. -/
def folded (s : List UInt8) (id : DeviceID) : Prop :=
  ∀ i < 16, id.toList[i]? = some (s.getD i 0 ^^^ s.getD (i + 16) 0)

section
variable (tpm : Tpm)

theorem prefixed_iff : [0x00, 0x0B] <+: tpm.nameBytes ↔
    2 ≤ tpm.nameSize.toNat ∧ tpm.name 0 = 0x00 ∧ tpm.name 1 = 0x0B := by
  rw [Tpm.nameBytes]
  rcases hn : tpm.nameSize.toNat with _ | _ | n
  · simp [slice]
  · simp [slice, List.cons_prefix_cons]
  · simp [slice, List.cons_prefix_cons, eq_comm]

/-- The skipped bytes are part of the name, so the subtraction does not wrap. -/
theorem dataOffset_le : dataOffset tpm ≤ tpm.nameSize.toNat := by
  rw [dataOffset]
  split_ifs with h
  · exact h.1
  · exact Nat.zero_le _

/-- The source data is the digest. -/
theorem digest_eq : tpm.digest =
    slice tpm.name (dataOffset tpm) (tpm.nameSize.toNat - dataOffset tpm) := by
  rw [Tpm.digest, dataOffset]
  simp only [prefixed_iff]
  split_ifs with h
  · rw [Tpm.nameBytes, drop_slice _ _ h.1]
  · rfl

theorem length_digest : tpm.digest.length = tpm.nameSize.toNat - dataOffset tpm := by
  rw [digest_eq, length_slice]

/-- The comparison of sizes is the intended one. -/
theorem tooShort_iff : (tpm.nameSize.toNat + 2 ^ 64 - dataOffset tpm) % 2 ^ 64 < 32 ↔
    tpm.digest.length < 32 := by
  have hle := dataOffset_le tpm
  have hlt : tpm.nameSize.toNat < 2 ^ 16 := tpm.nameSize.toNat_lt
  rw [length_digest]
  omega

/-- The stored device ID is the fold of the digest. -/
theorem folded_foldName (h : 32 ≤ tpm.digest.length) :
    folded tpm.digest (foldName (fun i => tpm.name (dataOffset tpm + i))) := by
  have hget : ∀ j < 32, tpm.digest.getD j 0 = tpm.name (dataOffset tpm + j) := by
    intro j hj
    rw [length_digest] at h
    rw [List.getD_eq_getElem?_getD, digest_eq, getElem?_slice _ _ _ _ (by omega), Option.getD_some]
  intro i hi
  rw [hget i (by omega), hget (i + 16) (by omega)]
  simp [foldName, hi]

end

/-! ### Resources -/

/-- The resources held after an event; `none` when something held is acquired again, or something not
    held is released. -/
def ledger (held : List Resource) : Event → Option (List Resource)
  | .acquire r => if r ∈ held then none else some (held ++ [r])
  | .release r => if r ∈ held then some (held.erase r) else none
  | .logTpmError _ _ => some held

/-- What is held after `Esys_CreatePrimary`. -/
def primary : List Resource :=
  [.tctiContext, .esysContext, .ekHandle, .outPublic, .creationData, .creationHash, .creationTicket]

/-- The order in which it is given back. -/
def primaryReleases : List Event :=
  [.release .ekHandle, .release .outPublic, .release .creationData, .release .creationHash,
   .release .creationTicket, .release .esysContext, .release .tctiContext]

theorem cleanUp_primary {c : Call} (h : c.held = primary) :
    c.cleanUp = ⟨c.cache, [], c.events ++ primaryReleases⟩ := by
  obtain ⟨cache, held, events⟩ := c
  obtain rfl : held = primary := h
  simp [Call.cleanUp, Call.free, Call.release, primary, primaryReleases]

theorem cleanUp_named {c : Call} (h : c.held = primary ++ [.ekName, .ekQualifiedName]) :
    c.cleanUp = ⟨c.cache, [],
      c.events ++ (.release .ekName :: .release .ekQualifiedName :: primaryReleases)⟩ := by
  obtain ⟨cache, held, events⟩ := c
  dsimp only at h
  subst h
  simp [Call.cleanUp, Call.free, Call.release, primary, primaryReleases]

/-- The acquisitions of an update, in their order. -/
def acquisitions : List Event :=
  [.acquire .tctiContext, .acquire .esysContext, .acquire .ekHandle, .acquire .outPublic,
   .acquire .creationData, .acquire .creationHash, .acquire .creationTicket, .acquire .ekName,
   .acquire .ekQualifiedName]

/-- What an update does with resources, for each of its six exits. -/
inductive Exit : List Event → Prop
  | tctiInitialize (rc : UInt32) (location : String) : Exit [.logTpmError rc location]
  | esysInitialize (rc : UInt32) (location : String) :
      Exit (acquisitions.take 1 ++ [.logTpmError rc location, .release .tctiContext])
  | createPrimary (rc : UInt32) (location : String) :
      Exit (acquisitions.take 2 ++
        [.logTpmError rc location, .release .esysContext, .release .tctiContext])
  | readPublic (rc : UInt32) (location : String) :
      Exit (acquisitions.take 7 ++ .logTpmError rc location :: primaryReleases)
  | tooShort (rc : UInt32) (location : String) :
      Exit (acquisitions ++ .logTpmError rc location :: .release .ekName ::
        .release .ekQualifiedName :: primaryReleases)
  | success :
      Exit (acquisitions ++ .release .ekName :: .release .ekQualifiedName :: primaryReleases)

theorem update_exit (tpm : Tpm) (now : UInt64) (cache : Cache) :
    Exit (update tpm now cache).2.events := by
  rw [update]
  dsimp only
  split_ifs
  · exact .tctiInitialize _ _
  · exact .esysInitialize _ _
  · exact .createPrimary _ _
  · rw [cleanUp_primary rfl]
    exact .readPublic _ _
  · rw [cleanUp_named rfl]
    exact .tooShort _ _
  · rw [cleanUp_named rfl]
    exact .success

/-- Whatever the exit, the books are in order and nothing is held at the end. -/
theorem Exit.ledger {events : List Event} (h : Exit events) :
    Machine.run ledger [] events = some [] := by
  cases h <;> rfl

/-- Every exit acquires the first few resources and then none. -/
theorem count_acquire_le {acquired rest : List Event} {r : Resource}
    (hacquired : acquired <+: acquisitions) (hrest : .acquire r ∉ rest) :
    (acquired ++ rest).count (.acquire r) ≤ 1 := by
  have hnodup : acquisitions.Nodup := by decide
  rw [List.count_append, List.count_eq_zero.mpr hrest, Nat.add_zero]
  exact List.nodup_iff_count_le_one.mp (hnodup.sublist hacquired.sublist) _

/-- No resource is acquired twice. -/
theorem Exit.acquires {events : List Event} (h : Exit events) (r : Resource) :
    events.count (.acquire r) ≤ 1 := by
  cases h with
  | tctiInitialize rc location => simp
  | esysInitialize rc location => exact count_acquire_le (List.take_prefix 1 _) (by simp)
  | createPrimary rc location => exact count_acquire_le (List.take_prefix 2 _) (by simp)
  | readPublic rc location =>
    exact count_acquire_le (List.take_prefix 7 _) (by simp [primaryReleases])
  | tooShort rc location => exact count_acquire_le List.prefix_rfl (by simp [primaryReleases])
  | success => exact count_acquire_le List.prefix_rfl (by simp [primaryReleases])

/-- One resource in a ledger: acquired as often as released, but for those held. -/
theorem ledger_count (r : Resource) (events : List Event) {held held' : List Resource}
    (h : Machine.run ledger held events = some held') :
    events.count (.acquire r) + held.count r = events.count (.release r) + held'.count r := by
  induction events generalizing held with
  | nil =>
    obtain rfl := Option.some.inj h
    simp
  | cons e events ih =>
    obtain ⟨mid, hmid, hrun⟩ := Machine.run_cons.mp h
    have hrest := ih hrun
    cases e with
    | acquire r' =>
      rw [ledger] at hmid
      split_ifs at hmid with hheld
      obtain rfl := Option.some.inj hmid
      rw [List.count_append] at hrest
      by_cases heq : r' = r
      · subst heq
        simp at hrest ⊢
        omega
      · simp [heq] at hrest ⊢
        omega
    | release r' =>
      rw [ledger] at hmid
      split_ifs at hmid with hheld
      obtain rfl := Option.some.inj hmid
      by_cases heq : r' = r
      · subst heq
        have hpos := List.count_pos_iff.mpr hheld
        simp at hrest ⊢
        omega
      · rw [List.count_erase_of_ne (Ne.symm heq)] at hrest
        simp [heq] at hrest ⊢
        omega
    | logTpmError rc location =>
      obtain rfl := Option.some.inj hmid
      simpa using hrest

/-! ### One update -/

/-- Everything one update promises, from the cache before it. -/
structure Reflects (tpm : Tpm) (now : UInt64) (before : Cache) : Prop where
  failed : (update tpm now before).1 = false → (update tpm now before).2.cache = before
  stored : (update tpm now before).1 = true → 32 ≤ tpm.digest.length ∧
    folded tpm.digest (update tpm now before).2.cache.deviceID ∧
    (update tpm now before).2.cache.lastUpdated = now
  succeeds_iff : (update tpm now before).1 = true ↔ Readable tpm
  /-- Bytes behind the name do not matter. -/
  unread : ∀ name', (∀ i < tpm.nameSize.toNat, name' i = tpm.name i) →
    update { tpm with name := name' } now before = update tpm now before
  no_underflow : dataOffset tpm ≤ tpm.nameSize.toNat
  ledger : Machine.run ledger [] (update tpm now before).2.events = some []
  released_once : ∀ r, .acquire r ∈ (update tpm now before).2.events →
    (update tpm now before).2.events.count (.acquire r) = 1 ∧
    (update tpm now before).2.events.count (.release r) = 1

theorem update_succeeds_iff (tpm : Tpm) (now : UInt64) (cache : Cache) :
    (update tpm now cache).1 = true ↔ Readable tpm := by
  rw [update, Readable]
  simp only [tooShort_iff]
  split_ifs with h1 h2 h3 h4 h5
  · exact iff_of_false (by simp) (fun h => h1 h.1)
  · exact iff_of_false (by simp) (fun h => h2 h.2.1)
  · exact iff_of_false (by simp) (fun h => h3 h.2.2.1)
  · exact iff_of_false (by simp) (fun h => h4 h.2.2.2.1)
  · exact iff_of_false (by simp) (fun h => absurd h.2.2.2.2 (Nat.not_le.mpr h5))
  · exact iff_of_true rfl ⟨not_not.mp h1, not_not.mp h2, not_not.mp h3, not_not.mp h4,
      Nat.not_lt.mp h5⟩

/-- The bytes of the name decide the offset. -/
theorem dataOffset_congr (tpm : Tpm) {name' : Memory}
    (h : ∀ i < tpm.nameSize.toNat, name' i = tpm.name i) :
    dataOffset { tpm with name := name' } = dataOffset tpm := by
  rw [dataOffset, dataOffset]
  rcases Nat.lt_or_ge tpm.nameSize.toNat 2 with hlt | hge
  · rw [if_neg (fun hc => absurd hc.1 (Nat.not_le.mpr hlt)),
      if_neg (fun hc => absurd hc.1 (Nat.not_le.mpr hlt))]
  · simp only [h 0 (by omega), h 1 (by omega)]

theorem foldName_congr {m m' : Memory} (h : ∀ i < 32, m i = m' i) : foldName m = foldName m' := by
  apply Subtype.ext
  simp only [foldName]
  refine List.map_congr_left fun i hi => ?_
  rw [List.mem_range] at hi
  rw [h i (by omega), h (i + 16) (by omega)]

/-- And they decide the whole update. -/
theorem update_congr (tpm : Tpm) (now : UInt64) (cache : Cache) {name' : Memory}
    (h : ∀ i < tpm.nameSize.toNat, name' i = tpm.name i) :
    update { tpm with name := name' } now cache = update tpm now cache := by
  have hoff := dataOffset_congr tpm h
  rw [update, update]
  simp only [tooShort_iff, length_digest, hoff]
  split_ifs with h1 h2 h3 h4 h5
  · rfl
  · rfl
  · rfl
  · rfl
  · rfl
  · -- the 32 bytes that are folded are bytes of the name
    have hfold : foldName (fun i => name' (dataOffset tpm + i)) =
        foldName (fun i => tpm.name (dataOffset tpm + i)) :=
      foldName_congr (fun i hi => h _ (by omega))
    simp only [Call.store, hoff, hfold]

theorem update_reflects (tpm : Tpm) (now : UInt64) (before : Cache) : Reflects tpm now before where
  failed hfalse := by
    rcases update_cases tpm now before with ⟨-, hcache⟩ | ⟨htrue, -⟩
    · exact hcache
    · exact absurd (htrue.symm.trans hfalse) (by simp)
  stored htrue := by
    have hreadable := (update_succeeds_iff tpm now before).mp htrue
    rcases update_cases tpm now before with ⟨hfalse, -⟩ | ⟨-, hcache⟩
    · exact absurd (htrue.symm.trans hfalse) (by simp)
    · rw [hcache]
      exact ⟨hreadable.2.2.2.2, folded_foldName tpm hreadable.2.2.2.2, rfl⟩
  succeeds_iff := update_succeeds_iff tpm now before
  unread _ h := update_congr tpm now before h
  no_underflow := dataOffset_le tpm
  ledger := (update_exit tpm now before).ledger
  released_once r hr := by
    have hexit := update_exit tpm now before
    have hone := hexit.acquires r
    have hpos := List.count_pos_iff.mpr hr
    have hcount := ledger_count r _ hexit.ledger
    rw [List.count_nil] at hcount
    omega

/-! ### A sequence of updates -/

/-- The cache after these updates, each with its TPM and its clock reading. -/
def afterUpdates (start : Cache) (calls : List (Tpm × UInt64)) : Cache :=
  calls.foldl (fun cache call => (update call.1 call.2 cache).2.cache) start

theorem afterUpdates_concat (start : Cache) (calls : List (Tpm × UInt64)) (call : Tpm × UInt64) :
    afterUpdates start (calls ++ [call]) =
      (update call.1 call.2 (afterUpdates start calls)).2.cache := by
  rw [afterUpdates, List.foldl_append]
  rfl

/-- Updates that fail change nothing. -/
theorem afterUpdates_failed (start : Cache) (pre post : List (Tpm × UInt64))
    (h : ∀ call ∈ post, ¬ Readable call.1) :
    afterUpdates start (pre ++ post) = afterUpdates start pre := by
  induction post using List.reverseRecOn with
  | nil => rw [List.append_nil]
  | append_singleton post call ih =>
    rw [List.forall_mem_append, List.forall_mem_singleton] at h
    obtain ⟨hpost, hcall⟩ := h
    have hreflects := update_reflects call.1 call.2 (afterUpdates start (pre ++ post))
    rw [← List.append_assoc, afterUpdates_concat, hreflects.failed ?_, ih hpost]
    rw [← Bool.not_eq_true, hreflects.succeeds_iff]
    exact hcall

/-- CORRECT: the cache reflects the last successful read. For every sequence of updates, each one keeps
    its promises from the cache it finds, and afterwards the cache holds the fold of the name and the
    clock reading of the last update whose TPM was readable; without any, it is as at the start. -/
theorem cache_reflects_last_read (start : Cache) (calls : List (Tpm × UInt64)) :
    (∀ pre tpm now post, calls = pre ++ (tpm, now) :: post →
      Reflects tpm now (afterUpdates start pre) ∧
      ((∀ call ∈ post, ¬ Readable call.1) → Readable tpm →
        folded tpm.digest (afterUpdates start calls).deviceID ∧
        (afterUpdates start calls).lastUpdated = now)) ∧
    ((∀ call ∈ calls, ¬ Readable call.1) → afterUpdates start calls = start) := by
  constructor
  · intro pre tpm now post hcalls
    have hreflects := update_reflects tpm now (afterUpdates start pre)
    refine ⟨hreflects, fun hfailed hreadable => ?_⟩
    obtain ⟨-, hfold, hnow⟩ := hreflects.stored (hreflects.succeeds_iff.mpr hreadable)
    have hcache : afterUpdates start calls = (update tpm now (afterUpdates start pre)).2.cache := by
      rw [hcalls, ← List.singleton_append, ← List.append_assoc,
        afterUpdates_failed start _ post hfailed, afterUpdates_concat]
    rw [hcache]
    exact ⟨hfold, hnow⟩
  · intro hfailed
    have h := afterUpdates_failed start [] calls hfailed
    rwa [List.nil_append] at h

/-- A name of 34 bytes: 00 0B and 32 times 1. -/
def healthyTpm : Tpm :=
  ⟨0, 0, 0, 0, Memory.ofList ([0x00, 0x0B] ++ List.replicate 32 1), 34⟩

/-- The name has 33 bytes, of which 31 are left. -/
def shortTpm : Tpm := { healthyTpm with nameSize := 33 }

/-- A healthy update at time 100 and one with a short name at time 200. -/
theorem cache_reflects_healthy :
    (afterUpdates Cache.init [(healthyTpm, 100), (shortTpm, 200)]).lastUpdated = 100 ∧
    folded healthyTpm.digest (afterUpdates Cache.init [(healthyTpm, 100), (shortTpm, 200)]).deviceID := by
  have hreadable : Readable healthyTpm := ⟨rfl, rfl, rfl, rfl, by decide⟩
  have hshort : ¬ Readable shortTpm := fun h => absurd h.2.2.2.2 (by decide)
  obtain ⟨hfold, hnow⟩ := ((cache_reflects_last_read Cache.init
    [(healthyTpm, 100), (shortTpm, 200)]).1 [] healthyTpm 100 [(shortTpm, 200)] rfl).2
    (by simpa using hshort) hreadable
  exact ⟨hnow, hfold⟩

end NHA.TPMWatcher
