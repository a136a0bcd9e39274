import NativeHardwareAccess.Server.DeviceIDCache
import NativeHardwareAccess.Server.Timer

/-! The end of a `TPMWatcher` (tpmwatcher.h) while its timer thread runs.

    `main` returns when `setupServer` fails, and the watcher is destroyed. Its members go in reverse
    order of their declaration, so the timer, declared first, is stopped and joined last:

        main    ── lastUpdated ─ deviceIDLastUpdatedMutex ─ deviceID ─ … ─ timer: stop, join ──▶
        timer   ── … ─ enter ─ read TPM ─ lock ─ write deviceID ─ write lastUpdated ─ unlock ─ …

    An `update` that is under way, or begins, while the members go uses what is no longer there. -/

namespace NHA.Destruction
open Scheme NHA.MessageBuilder NHA.TPMWatcher

/-- The members of `TPMWatcher`. -/
inductive Member where
  | timer | intervalInMs | monotonicTimer | deviceID | deviceIDLastUpdatedMutex | lastUpdated
  deriving DecidableEq

/-- In the order of their declaration. -/
def members : List Member :=
  [.timer, .intervalInMs, .monotonicTimer, .deviceID, .deviceIDLastUpdatedMutex, .lastUpdated]

/-- What a call of `update` does next. -/
inductive UpdatePc where
  /-- The library calls up to the length test. -/
  | reading
  /-- Lock `deviceIDLastUpdatedMutex`. -/
  | locking (devID : DeviceID)
  | writingDeviceID (devID : DeviceID)
  | writingLastUpdated
  | unlocking
  /-- Give the resources back and return. -/
  | returning
  deriving DecidableEq

structure Watcher where
  timer : Timer.State
  /-- The call of `update` in the timer thread. -/
  update : Option UpdatePc
  cache : Cache
  /-- The members not yet destroyed, the next one first. -/
  alive : List Member

/-- One step of the timer thread or of the thread that destroys the watcher. -/
inductive Action where
  /-- A step of the timer, other than the beginning and the end of a callback. -/
  | timer (a : Timer.Action)
  | enter
  | read (tpm : Tpm)
  | lock
  | writeDeviceID
  | writeLastUpdated (now : UInt64)
  | unlock
  | leave
  /-- The next member is destroyed. -/
  | destroy

/-- The steps of `Timer::stop`, which `~Timer` calls. -/
def ofStop : Timer.Action → Bool
  | .stopLock | .clear | .stopUnlock | .notify | .join => true
  | _ => false

/-- The steps in and out of the callback, which are `enter` and `leave` here. -/
def ofCallback : Timer.Action → Bool
  | .enter | .leave _ => true
  | _ => false

/-- The device ID that the name read from the TPM gives. -/
def deviceIDOf (tpm : Tpm) : DeviceID := foldName (fun i => tpm.name (dataOffset tpm + i))

/-- `update` up to its critical section, which it does not reach when a library call fails. -/
def afterRead (tpm : Tpm) (cache : Cache) : UpdatePc :=
  if (TPMWatcher.update tpm 0 cache).1 then .locking (deviceIDOf tpm) else .returning

/-- `main` has given the watcher up, so nobody else locks `deviceIDLastUpdatedMutex`. -/
def step (w : Watcher) : Action → Option Watcher
  | .timer a =>
    if ofCallback a = true ∨ (ofStop a = true ∧ w.alive ≠ [.timer]) then none
    else (Timer.step w.timer a).map (fun t => { w with timer := t })
  | .enter =>
    (Timer.step w.timer .enter).map (fun t => { w with timer := t, update := some .reading })
  | .read tpm =>
    match w.update with
    | some .reading => some { w with update := some (afterRead tpm w.cache) }
    | _ => none
  | .lock =>
    match w.update with
    | some (.locking devID) => some { w with update := some (.writingDeviceID devID) }
    | _ => none
  | .writeDeviceID =>
    match w.update with
    | some (.writingDeviceID devID) =>
      some { w with update := some .writingLastUpdated, cache.deviceID := devID }
    | _ => none
  | .writeLastUpdated now =>
    match w.update with
    | some .writingLastUpdated => some { w with update := some .unlocking, cache.lastUpdated := now }
    | _ => none
  | .unlock =>
    match w.update with
    | some .unlocking => some { w with update := some .returning }
    | _ => none
  | .leave =>
    match w.update with
    | some .returning =>
      (Timer.step w.timer (.leave false)).map (fun t => { w with timer := t, update := none })
    | _ => none
  | .destroy =>
    match w.alive with
    | [] => none
    -- `~Timer` ends when `stop` has returned
    | .timer :: rest => if w.timer.stopPc = .returned then some { w with alive := rest } else none
    | _ :: rest => some { w with alive := rest }

/-- A started watcher: `start` has made one update and created the thread. -/
def started (cache : Cache) : Watcher := ⟨Timer.start true, none, cache, members.reverse⟩

/-- The member that a step of `update` locks or writes. -/
def Action.uses : Action → Option Member
  | .lock => some .deviceIDLastUpdatedMutex
  | .writeDeviceID => some .deviceID
  | .writeLastUpdated _ => some .lastUpdated
  | _ => none

/-- A step does not lock or write a destroyed member. -/
def Unharmed (w : Watcher) (a : Action) : Prop :=
  (step w a).isSome = true → ∀ m ∈ a.uses, m ∈ w.alive

instance (w : Watcher) (a : Action) : Decidable (Unharmed w a) :=
  inferInstanceAs (Decidable (_ → _))

/-- No member is destroyed while an update is before the end of its critical section, and no update
    begins once a member has been destroyed. -/
def Apart (w : Watcher) : Action → Prop
  | .destroy => w.update = none ∨ w.update = some .unlocking ∨ w.update = some .returning
  | .enter => w.alive = members.reverse
  | _ => True

instance (w : Watcher) : ∀ a, Decidable (Apart w a)
  | .destroy => inferInstanceAs (Decidable (_ ∨ _))
  | .enter => inferInstanceAs (Decidable (_ = _))
  | .timer _ | .read _ | .lock | .writeDeviceID | .writeLastUpdated _ | .unlock | .leave => isTrue trivial

/-! ### What a step can do -/

/-- Everything a step can do. -/
inductive Step (w : Watcher) : Action → Watcher → Prop
  | timer {a : Timer.Action} {t : Timer.State} (htimer : Timer.step w.timer a = some t) :
      Step w (.timer a) { w with timer := t }
  | enter {t : Timer.State} (htimer : Timer.step w.timer .enter = some t) :
      Step w .enter { w with timer := t, update := some .reading }
  | read {tpm : Tpm} (hpc : w.update = some .reading) :
      Step w (.read tpm) { w with update := some (afterRead tpm w.cache) }
  | lock {devID : DeviceID} (hpc : w.update = some (.locking devID)) :
      Step w .lock { w with update := some (.writingDeviceID devID) }
  | writeDeviceID {devID : DeviceID} (hpc : w.update = some (.writingDeviceID devID)) :
      Step w .writeDeviceID { w with update := some .writingLastUpdated, cache.deviceID := devID }
  | writeLastUpdated {now : UInt64} (hpc : w.update = some .writingLastUpdated) :
      Step w (.writeLastUpdated now) { w with update := some .unlocking, cache.lastUpdated := now }
  | unlock (hpc : w.update = some .unlocking) : Step w .unlock { w with update := some .returning }
  | leave {t : Timer.State} (hpc : w.update = some .returning)
      (htimer : Timer.step w.timer (.leave false) = some t) :
      Step w .leave { w with timer := t, update := none }
  | destroy {m : Member} {rest : List Member} (halive : w.alive = m :: rest) :
      Step w .destroy { w with alive := rest }

variable {w w' : Watcher} {a : Action}

theorem step_timer {a : Timer.Action} (h : step w (.timer a) = some w') : Step w (.timer a) w' := by
  obtain ⟨-, h⟩ := Option.ite_none_left_eq_some.mp h
  obtain ⟨t, ht, rfl⟩ := Option.map_eq_some_iff.mp h
  exact .timer ht

theorem step_destroy (h : step w .destroy = some w') : Step w .destroy w' := by
  rw [step] at h
  split at h
  · cases h
  · rename_i rest halive
    obtain ⟨-, h⟩ := Option.ite_none_right_eq_some.mp h
    obtain rfl := Option.some.inj h
    exact .destroy halive
  · rename_i halive
    obtain rfl := Option.some.inj h
    exact .destroy halive

theorem step_cases (h : step w a = some w') : Step w a w' := by
  cases a with
  | timer a => exact step_timer h
  | destroy => exact step_destroy h
  | enter =>
    obtain ⟨t, ht, rfl⟩ := Option.map_eq_some_iff.mp h
    exact .enter ht
  | read tpm =>
    rw [step] at h
    split at h
    · rename_i hpc
      obtain rfl := Option.some.inj h
      exact .read hpc
    · cases h
  | lock =>
    rw [step] at h
    split at h
    · rename_i hpc
      obtain rfl := Option.some.inj h
      exact .lock hpc
    · cases h
  | writeDeviceID =>
    rw [step] at h
    split at h
    · rename_i hpc
      obtain rfl := Option.some.inj h
      exact .writeDeviceID hpc
    · cases h
  | writeLastUpdated now =>
    rw [step] at h
    split at h
    · rename_i hpc
      obtain rfl := Option.some.inj h
      exact .writeLastUpdated hpc
    · cases h
  | unlock =>
    rw [step] at h
    split at h
    · rename_i hpc
      obtain rfl := Option.some.inj h
      exact .unlock hpc
    · cases h
  | leave =>
    rw [step] at h
    split at h
    · rename_i hpc
      obtain ⟨t, ht, rfl⟩ := Option.map_eq_some_iff.mp h
      exact .leave hpc ht
    · cases h

/-! ### The steps of an update -/

/-- The steps of a call of `update`. -/
def updateSteps (tpm : Tpm) (now : UInt64) (cache : Cache) : List Action :=
  if (TPMWatcher.update tpm now cache).1 then
    [.read tpm, .lock, .writeDeviceID, .writeLastUpdated now, .unlock]
  else [.read tpm]

theorem afterRead_eq (tpm : Tpm) (now : UInt64) (cache : Cache) : afterRead tpm cache =
    if (TPMWatcher.update tpm now cache).1 then .locking (deviceIDOf tpm) else .returning := by
  have hsame : (TPMWatcher.update tpm 0 cache).1 = (TPMWatcher.update tpm now cache).1 := by
    rw [Bool.eq_iff_iff, update_succeeds_iff, update_succeeds_iff]
  rw [afterRead, hsame]

/-- Taken one after the other they are `TPMWatcher::update`. -/
theorem run_updateSteps (tpm : Tpm) (now : UInt64) (hpc : w.update = some .reading) :
    Machine.run step w (updateSteps tpm now w.cache) = some { w with
      update := some .returning
      cache := (TPMWatcher.update tpm now w.cache).2.cache } := by
  have hread : step w (.read tpm) = some { w with update := some (afterRead tpm w.cache) } := by
    rw [step, hpc]
  rw [afterRead_eq tpm now] at hread
  rw [updateSteps]
  rcases update_cases tpm now w.cache with ⟨hfail, hcache⟩ | ⟨hok, hcache⟩
  · rw [hfail, if_neg (by simp)] at hread ⊢
    rw [hcache, Machine.run, hread]
    rfl
  · rw [hok, if_pos rfl] at hread ⊢
    rw [hcache, Machine.run, hread]
    rfl

/-! ### Apart -/

/-- The update still has to write `lastUpdated`, the last thing it does in its critical section. -/
def UpdatePc.Ahead (pc : UpdatePc) : Prop := pc ≠ .unlocking ∧ pc ≠ .returning

/-- While an update is before the end of its critical section, every member is alive. -/
def Safe (w : Watcher) : Prop :=
  ∀ pc, w.update = some pc → pc.Ahead → w.alive = members.reverse

theorem Safe.mem (hsafe : Safe w) {pc : UpdatePc} (hpc : w.update = some pc) (hahead : pc.Ahead)
    (m : Member) : m ∈ w.alive := by
  rw [hsafe pc hpc hahead]
  cases m <;> decide

theorem step_safe (hsafe : Safe w) (hapart : Apart w a) (h : step w a = some w') : Safe w' := by
  intro pc' hpc' hahead
  cases step_cases h with
  | timer => exact hsafe pc' hpc' hahead
  | enter => exact hapart
  | read hpc => exact hsafe _ hpc (by simp [UpdatePc.Ahead])
  | lock hpc => exact hsafe _ hpc (by simp [UpdatePc.Ahead])
  | writeDeviceID hpc => exact hsafe _ hpc (by simp [UpdatePc.Ahead])
  | writeLastUpdated =>
    obtain rfl := Option.some.inj hpc'
    exact absurd rfl hahead.1
  | unlock =>
    obtain rfl := Option.some.inj hpc'
    exact absurd rfl hahead.2
  | leave => cases hpc'
  | destroy =>
    rcases hapart with hpc | hpc | hpc
    · cases hpc.symm.trans hpc'
    · exact absurd (Option.some.inj (hpc'.symm.trans hpc)) hahead.1
    · exact absurd (Option.some.inj (hpc'.symm.trans hpc)) hahead.2

theorem unharmed_of_safe (hsafe : Safe w) : Unharmed w a := by
  intro hsome m hm
  obtain ⟨w', h⟩ := Option.isSome_iff_exists.mp hsome
  cases step_cases h with
  | lock hpc => exact hsafe.mem hpc (by simp [UpdatePc.Ahead]) m
  | writeDeviceID hpc => exact hsafe.mem hpc (by simp [UpdatePc.Ahead]) m
  | writeLastUpdated hpc => exact hsafe.mem hpc (by simp [UpdatePc.Ahead]) m
  | _ => cases hm

/-! ### Not apart -/

/-- From here a run leads to the use of a destroyed member. -/
def Harmful (w : Watcher) : Prop :=
  ∃ more w', Machine.run step w more = some w' ∧ ¬ Machine.Along step Unharmed w more

theorem Harmful.of_step (h : step w a = some w') (hw : Harmful w') : Harmful w := by
  obtain ⟨more, w'', hrun, hharm⟩ := hw
  exact ⟨a :: more, w'', Machine.run_cons.mpr ⟨w', h, hrun⟩, fun halong => hharm (halong.2 w' h)⟩

/-- `lastUpdated` is the first member to go. -/
def FirstGone (w : Watcher) : Prop := w.alive = members.reverse ∨ .lastUpdated ∉ w.alive

theorem FirstGone.destroyed (hw : FirstGone w) {m : Member} {rest : List Member}
    (halive : w.alive = m :: rest) : .lastUpdated ∉ rest := by
  rcases hw with hall | hgone
  · obtain ⟨-, rfl⟩ := List.cons.inj (halive.symm.trans hall)
    simp
  · exact fun hmem => hgone (halive ▸ List.mem_cons_of_mem _ hmem)

theorem step_firstGone (hw : FirstGone w) (h : step w a = some w') : FirstGone w' := by
  cases step_cases h with
  | destroy halive => exact Or.inr (hw.destroyed halive)
  | _ => exact hw

/-- Once it is gone, its write does harm. -/
theorem harmful_lastUpdated (hgone : .lastUpdated ∉ w.alive)
    (hpc : w.update = some .writingLastUpdated) : Harmful w := by
  have hstep : step w (.writeLastUpdated 0) =
      some { w with update := some .unlocking, cache.lastUpdated := 0 } := by
    rw [step, hpc]
  refine ⟨[.writeLastUpdated 0], _, Machine.run_cons.mpr ⟨_, hstep, rfl⟩, fun halong => ?_⟩
  exact hgone (halong.1 (by rw [hstep]; rfl) .lastUpdated rfl)

theorem harmful_deviceID (hgone : .lastUpdated ∉ w.alive) {devID : DeviceID}
    (hpc : w.update = some (.writingDeviceID devID)) : Harmful w := by
  have hstep : step w .writeDeviceID =
      some { w with update := some .writingLastUpdated, cache.deviceID := devID } := by
    rw [step, hpc]
  exact .of_step hstep (harmful_lastUpdated hgone rfl)

theorem harmful_lock (hgone : .lastUpdated ∉ w.alive) {devID : DeviceID}
    (hpc : w.update = some (.locking devID)) : Harmful w := by
  have hstep : step w .lock = some { w with update := some (.writingDeviceID devID) } := by
    rw [step, hpc]
  exact .of_step hstep (harmful_deviceID hgone rfl)

theorem harmful_read (hgone : .lastUpdated ∉ w.alive) (hpc : w.update = some .reading) :
    Harmful w := by
  have hok : (TPMWatcher.update healthyTpm 0 w.cache).1 = true := by
    rw [update_succeeds_iff]
    exact ⟨rfl, rfl, rfl, rfl, by decide⟩
  have hstep : step w (.read healthyTpm) =
      some { w with update := some (.locking (deviceIDOf healthyTpm)) } := by
    rw [step, hpc, afterRead, if_pos hok]
  exact .of_step hstep (harmful_lock hgone rfl)

/-- Every step of an update up to that write is possible, whatever the other thread does. -/
theorem harmful_update (hgone : .lastUpdated ∉ w.alive) {pc : UpdatePc} (hpc : w.update = some pc)
    (hahead : pc.Ahead) : Harmful w := by
  cases pc with
  | reading => exact harmful_read hgone hpc
  | locking devID => exact harmful_lock hgone hpc
  | writingDeviceID devID => exact harmful_deviceID hgone hpc
  | writingLastUpdated => exact harmful_lastUpdated hgone hpc
  | unlocking => exact absurd rfl hahead.1
  | returning => exact absurd rfl hahead.2

/-- A step that is not apart leads into harm. -/
theorem harmful_of_not_apart (hfirst : FirstGone w) (h : step w a = some w') (hapart : ¬ Apart w a) :
    Harmful w' := by
  cases step_cases h with
  | enter =>
    rcases hfirst with hall | hgone
    · exact absurd hall hapart
    · exact harmful_read hgone rfl
  | destroy halive =>
    rw [Apart, not_or, not_or] at hapart
    obtain ⟨pc, hpc⟩ := Option.ne_none_iff_exists'.mp hapart.1
    rw [hpc] at hapart
    exact harmful_update (hfirst.destroyed halive) hpc
      ⟨by simpa using hapart.2.1, by simpa using hapart.2.2⟩
  | _ => exact absurd trivial hapart

/-! ### Runs -/

/-- The steps of a timer thread that has waited for one interval and calls back. -/
def oneInterval : List Action :=
  [.timer .lock, .timer .check, .timer .release, .timer (.wake true), .timer .lock, .timer .check,
    .timer .release, .enter]

/-- The update has read the TPM when `main` returns; it locks when the first two members are gone. -/
def lateUpdate : List Action :=
  oneInterval ++ ([.read healthyTpm, .destroy, .destroy, .lock] : List Action)

theorem lateUpdate_harmed : ¬ ∀ (cache : Cache) (actions : List Action) (w : Watcher),
    Machine.run step (started cache) actions = some w →
    Machine.Along step Unharmed (started cache) actions := by
  intro h
  have hsome : (Machine.run step (started Cache.init) lateUpdate).isSome = true := by decide +kernel
  obtain ⟨w, hw⟩ := Option.isSome_iff_exists.mp hsome
  exact absurd (h Cache.init lateUpdate w hw) (by decide +kernel)

/-- In every run in which destruction and updates keep apart, no update uses a destroyed member; and
    wherever they do not, the run can go on to such a use. -/
theorem update_unharmed (cache : Cache) :
    (∀ actions : List Action, Machine.Along step Apart (started cache) actions →
      Machine.Along step Unharmed (started cache) actions) ∧
    (∀ (actions : List Action) (w : Watcher) (a : Action) (w' : Watcher),
      Machine.run step (started cache) actions = some w → step w a = some w' → ¬ Apart w a →
      ∃ more w'', Machine.run step w' more = some w'' ∧ ¬ Machine.Along step Unharmed w' more) := by
  constructor
  · intro actions halong
    refine Machine.along_of_invariant (fun w a w' => step_safe) (fun w a hsafe _ => unharmed_of_safe hsafe)
      actions ?_ halong
    intro pc hpc
    cases hpc
  · intro actions w a w' hrun hstep hapart
    have hfirst : FirstGone w := by
      have hnothing := @Machine.along_of_forall _ _ step (fun _ _ => True) (fun _ _ => trivial)
        (started cache) actions
      exact Machine.run_invariant (fun w a w' hw _ h => step_firstGone hw h) actions (Or.inl rfl)
        hnothing hrun
    exact harmful_of_not_apart hfirst hstep hapart

/-- An update ends before the members go; the timer is stopped while it waits again. -/
def quietEnd : List Action :=
  oneInterval ++ ([.read healthyTpm, .lock, .writeDeviceID, .writeLastUpdated 200, .unlock, .leave,
    .timer .lock, .timer .check, .timer .release, .destroy, .destroy, .destroy, .destroy, .destroy,
    .timer .stopLock, .timer .clear, .timer .stopUnlock, .timer .notify, .timer .lock, .timer .check,
    .timer .release, .timer .join, .destroy] : List Action)

theorem update_unharmed_quietEnd : (Machine.run step (started Cache.init) quietEnd).isSome = true ∧
    Machine.Along step Unharmed (started Cache.init) quietEnd :=
  ⟨by decide +kernel, (update_unharmed Cache.init).1 quietEnd (by decide +kernel)⟩

end NHA.Destruction
