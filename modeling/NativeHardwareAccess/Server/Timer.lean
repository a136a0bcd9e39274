import NativeHardwareAccess.Schemes.Machine

/-! `Timer` (timer.cpp): the thread of `start` and one call of `stop` from another thread.

    `wait_for` with a predicate tests the predicate, blocks while it is false and tests it once more
    after a timeout. The mutex is held wherever the predicate is tested; blocking releases it, and it
    is taken again before the wait returns.

        starting ─▶ checking ──running──▶ blocking ─▶ waiting ─▶ woken ─no timeout─▶ checking
           lock      ▲    │                                        │ timeout
                     │    └─stopped─▶ breaking ─▶ exited           ▼
                     │                   ▲◀────────stopped───── timedOut
                     │                                             │ running
                 relocking ◀── inCallback ◀── calling ◀── unlocking ◀┘

        stop:  locking ─▶ clearing ─▶ unlocking ─▶ notifying ─▶ joining ─▶ returned

    Mutex, condition variable and join have their standard meaning: a wait releases the mutex and
    blocks in one step and may end at any time, `notify_one` unblocks the waiting thread, and `join`
    returns when the thread has ended. -/

namespace NHA.Timer
open Scheme

inductive Thread where
  | timer | stopper
  deriving DecidableEq

/-- What the timer thread does next. -/
inductive Pc where
  /-- Lock, as the first thing. -/
  | starting
  /-- Test the predicate before a wait. -/
  | checking
  /-- Release the mutex and block. -/
  | blocking
  /-- Blocked. -/
  | waiting
  /-- Lock again, after a timeout or a wake-up. -/
  | woken (timeout : Bool)
  /-- Test the predicate after a timeout. -/
  | timedOut
  /-- `uniqueLock.unlock()`. -/
  | unlocking
  /-- `if (callback) callback()`. -/
  | calling
  | inCallback
  /-- `uniqueLock.lock()`. -/
  | relocking
  /-- Leave the loop; the destructor of the lock unlocks. -/
  | breaking
  | exited
  deriving DecidableEq

/-- What `stop` does next. -/
inductive StopPc where
  | locking | clearing | unlocking | notifying | joining | returned
  deriving DecidableEq

structure State where
  running : Bool
  mutex : Option Thread
  pc : Pc
  stopPc : StopPc
  /-- The `std::function` is not empty. -/
  callback : Bool
  deriving DecidableEq

/-- One step of one thread. -/
inductive Action where
  /-- The timer thread gets the mutex. -/
  | lock
  /-- The timer thread tests the predicate. -/
  | check
  /-- The timer thread gives the mutex back, to block, to call or to end. -/
  | release
  /-- A wait ends by timeout or spuriously. -/
  | wake (timeout : Bool)
  /-- An invocation of the callback begins. -/
  | enter
  /-- There is no callback to invoke. -/
  | skip
  /-- The callback returns or throws. -/
  | leave (threw : Bool)
  | stopLock
  /-- `running = false`. -/
  | clear
  | stopUnlock
  | notify
  | join
  deriving DecidableEq

/-- Where the timer thread goes when it gets the mutex. -/
def Pc.lock : Pc → Option Pc
  | .starting => some .checking
  | .woken false => some .checking
  | .woken true => some .timedOut
  | .relocking => some .checking
  | _ => none

/-- Where it goes after the predicate `!running`. -/
def Pc.check (running : Bool) : Pc → Option Pc
  | .checking => some (if running then .blocking else .breaking)
  | .timedOut => some (if running then .unlocking else .breaking)
  | _ => none

/-- Where it goes when it gives the mutex back. -/
def Pc.release : Pc → Option Pc
  | .blocking => some .waiting
  | .unlocking => some .calling
  | .breaking => some .exited
  | _ => none

def step (s : State) : Action → Option State
  | .lock =>
    if s.mutex = none then s.pc.lock.map (fun pc => { s with mutex := some .timer, pc := pc })
    else none
  | .check => (s.pc.check s.running).map (fun pc => { s with pc := pc })
  | .release => s.pc.release.map (fun pc => { s with mutex := none, pc := pc })
  | .wake timeout => if s.pc = .waiting then some { s with pc := .woken timeout } else none
  | .enter =>
    if s.pc = .calling ∧ s.callback = true then some { s with pc := .inCallback } else none
  | .skip =>
    if s.pc = .calling ∧ s.callback = false then some { s with pc := .relocking } else none
  -- `catch (...)` goes on behind the call, as a return does
  | .leave _ => if s.pc = .inCallback then some { s with pc := .relocking } else none
  | .stopLock =>
    if s.stopPc = .locking ∧ s.mutex = none then
      some { s with mutex := some .stopper, stopPc := .clearing }
    else none
  | .clear =>
    if s.stopPc = .clearing then some { s with running := false, stopPc := .unlocking } else none
  | .stopUnlock =>
    if s.stopPc = .unlocking then some { s with mutex := none, stopPc := .notifying } else none
  | .notify =>
    if s.stopPc = .notifying then
      some { s with stopPc := .joining, pc := if s.pc = .waiting then .woken false else s.pc }
    else none
  | .join =>
    if s.stopPc = .joining ∧ s.pc = .exited then some { s with stopPc := .returned } else none

/-- The timer when `start` has created the thread. -/
def start (callback : Bool) : State := ⟨true, none, .starting, .locking, callback⟩

/-! ### What a step can do -/

/-- Everything a step can do. -/
inductive Step (s : State) : Action → State → Prop
  | lock {pc : Pc} (hfree : s.mutex = none) (hpc : s.pc.lock = some pc) :
      Step s .lock { s with mutex := some .timer, pc := pc }
  | check {pc : Pc} (hpc : s.pc.check s.running = some pc) : Step s .check { s with pc := pc }
  | release {pc : Pc} (hpc : s.pc.release = some pc) :
      Step s .release { s with mutex := none, pc := pc }
  | wake {timeout : Bool} (hpc : s.pc = .waiting) :
      Step s (.wake timeout) { s with pc := .woken timeout }
  | enter (hpc : s.pc = .calling) : Step s .enter { s with pc := .inCallback }
  | skip (hpc : s.pc = .calling) : Step s .skip { s with pc := .relocking }
  | leave {threw : Bool} (hpc : s.pc = .inCallback) :
      Step s (.leave threw) { s with pc := .relocking }
  | stopLock (hstop : s.stopPc = .locking) (hfree : s.mutex = none) :
      Step s .stopLock { s with mutex := some .stopper, stopPc := .clearing }
  | clear (hstop : s.stopPc = .clearing) :
      Step s .clear { s with running := false, stopPc := .unlocking }
  | stopUnlock (hstop : s.stopPc = .unlocking) :
      Step s .stopUnlock { s with mutex := none, stopPc := .notifying }
  | notifyWaiting (hstop : s.stopPc = .notifying) (hpc : s.pc = .waiting) :
      Step s .notify { s with stopPc := .joining, pc := .woken false }
  | notifyNone (hstop : s.stopPc = .notifying) (hpc : s.pc ≠ .waiting) :
      Step s .notify { s with stopPc := .joining }
  | join (hstop : s.stopPc = .joining) (hpc : s.pc = .exited) :
      Step s .join { s with stopPc := .returned }

variable {s s' : State} {a : Action}

theorem step_cases (h : step s a = some s') : Step s a s' := by
  cases a with
  | lock =>
    obtain ⟨hfree, h⟩ := Option.ite_none_right_eq_some.mp h
    obtain ⟨pc, hpc, rfl⟩ := Option.map_eq_some_iff.mp h
    exact .lock hfree hpc
  | check =>
    obtain ⟨pc, hpc, rfl⟩ := Option.map_eq_some_iff.mp h
    exact .check hpc
  | release =>
    obtain ⟨pc, hpc, rfl⟩ := Option.map_eq_some_iff.mp h
    exact .release hpc
  | wake timeout =>
    obtain ⟨hpc, h⟩ := Option.ite_none_right_eq_some.mp h
    obtain rfl := Option.some.inj h
    exact .wake hpc
  | enter =>
    obtain ⟨⟨hpc, -⟩, h⟩ := Option.ite_none_right_eq_some.mp h
    obtain rfl := Option.some.inj h
    exact .enter hpc
  | skip =>
    obtain ⟨⟨hpc, -⟩, h⟩ := Option.ite_none_right_eq_some.mp h
    obtain rfl := Option.some.inj h
    exact .skip hpc
  | leave threw =>
    obtain ⟨hpc, h⟩ := Option.ite_none_right_eq_some.mp h
    obtain rfl := Option.some.inj h
    exact .leave hpc
  | stopLock =>
    obtain ⟨⟨hstop, hfree⟩, h⟩ := Option.ite_none_right_eq_some.mp h
    obtain rfl := Option.some.inj h
    exact .stopLock hstop hfree
  | clear =>
    obtain ⟨hstop, h⟩ := Option.ite_none_right_eq_some.mp h
    obtain rfl := Option.some.inj h
    exact .clear hstop
  | stopUnlock =>
    obtain ⟨hstop, h⟩ := Option.ite_none_right_eq_some.mp h
    obtain rfl := Option.some.inj h
    exact .stopUnlock hstop
  | notify =>
    obtain ⟨hstop, h⟩ := Option.ite_none_right_eq_some.mp h
    obtain rfl := Option.some.inj h
    rcases eq_or_ne s.pc .waiting with hpc | hpc
    · rw [if_pos hpc]
      exact .notifyWaiting hstop hpc
    · rw [if_neg hpc]
      exact .notifyNone hstop hpc
  | join =>
    obtain ⟨⟨hstop, hpc⟩, h⟩ := Option.ite_none_right_eq_some.mp h
    obtain rfl := Option.some.inj h
    exact .join hstop hpc

/-! ### Who holds the mutex -/

/-- The program points at which the timer thread holds the mutex. -/
def Pc.Holds : Pc → Prop
  | .checking | .blocking | .timedOut | .unlocking | .breaking => True
  | _ => False

def StopPc.Holds : StopPc → Prop
  | .clearing | .unlocking => True
  | _ => False

/-- `stop` has set the flag to false. -/
def StopPc.Cleared : StopPc → Prop
  | .locking | .clearing => False
  | _ => True

/-- The mutex is taken to test the predicate. -/
theorem Pc.lock_holds {pc pc' : Pc} (h : pc.lock = some pc') :
    ¬ pc.Holds ∧ pc ≠ .exited ∧ (pc' = .checking ∨ pc' = .timedOut) := by
  cases pc with
  | starting => exact ⟨id, by simp, Or.inl (Option.some.inj h).symm⟩
  | woken timeout =>
    cases timeout
    · exact ⟨id, by simp, Or.inl (Option.some.inj h).symm⟩
    · exact ⟨id, by simp, Or.inr (Option.some.inj h).symm⟩
  | relocking => exact ⟨id, by simp, Or.inl (Option.some.inj h).symm⟩
  | _ => cases h

/-- The predicate is tested under the mutex. Unless it lets a call through, the thread goes on to
    block or to end. -/
theorem Pc.check_holds {pc pc' : Pc} {running : Bool} (h : pc.check running = some pc') :
    pc.Holds ∧ ((running = true ∧ (pc' = .blocking ∨ pc' = .unlocking)) ∨
      (running = false ∧ pc' = .breaking)) := by
  cases pc with
  | checking =>
    obtain rfl := Option.some.inj h
    cases running
    · exact ⟨trivial, Or.inr ⟨rfl, rfl⟩⟩
    · exact ⟨trivial, Or.inl ⟨rfl, Or.inl rfl⟩⟩
  | timedOut =>
    obtain rfl := Option.some.inj h
    cases running
    · exact ⟨trivial, Or.inr ⟨rfl, rfl⟩⟩
    · exact ⟨trivial, Or.inl ⟨rfl, Or.inr rfl⟩⟩
  | _ => cases h

theorem Pc.release_holds {pc pc' : Pc} (h : pc.release = some pc') :
    (pc = .blocking ∧ pc' = .waiting) ∨ (pc = .unlocking ∧ pc' = .calling) ∨
      (pc = .breaking ∧ pc' = .exited) := by
  cases pc with
  | blocking => exact Or.inl ⟨rfl, (Option.some.inj h).symm⟩
  | unlocking => exact Or.inr (Or.inl ⟨rfl, (Option.some.inj h).symm⟩)
  | breaking => exact Or.inr (Or.inr ⟨rfl, (Option.some.inj h).symm⟩)
  | _ => cases h

/-- What holds of every state a run leads to. -/
structure Inv (s : State) : Prop where
  timer : s.mutex = some .timer ↔ s.pc.Holds
  stopper : s.mutex = some .stopper ↔ s.stopPc.Holds
  /-- The flag is false from the point on where `stop` sets it. -/
  running : s.running = false ↔ s.stopPc.Cleared
  /-- Under the cleared flag the thread is not about to block or to let a call through. -/
  stopped : s.running = false → s.pc ≠ .blocking ∧ s.pc ≠ .unlocking
  woken : s.stopPc = .joining ∨ s.stopPc = .returned → s.pc ≠ .waiting
  joined : s.stopPc = .returned → s.pc = .exited

theorem inv_start (callback : Bool) : Inv (start callback) :=
  ⟨by simp [start, Pc.Holds], by simp [start, StopPc.Holds], by simp [start, StopPc.Cleared],
    by simp [start], by simp [start], by simp [start]⟩

/-- A step of the timer thread, seen from the invariant. -/
theorem Inv.move (hinv : Inv s) {m : Option Thread} {pc : Pc} (hlive : s.pc ≠ .exited)
    (htimer : m = some .timer ↔ pc.Holds) (hstopper : m = some .stopper ↔ s.mutex = some .stopper)
    (hstopped : s.running = false → pc ≠ .blocking ∧ pc ≠ .unlocking ∧ pc ≠ .waiting) :
    Inv { s with mutex := m, pc := pc } := by
  refine ⟨htimer, hstopper.trans hinv.stopper, hinv.running, ?_, ?_, ?_⟩
  · intro h
    exact ⟨(hstopped h).1, (hstopped h).2.1⟩
  · intro h
    refine (hstopped (hinv.running.mpr ?_)).2.2
    rcases h with h | h
    · exact h ▸ trivial
    · exact h ▸ trivial
  · intro h
    exact absurd (hinv.joined h) hlive

/-- A step of the timer thread between two places where it does not hold the mutex. -/
theorem Inv.move_free (hinv : Inv s) {pc : Pc} (hlive : s.pc ≠ .exited) (hfree : ¬ s.pc.Holds)
    (hfree' : ¬ pc.Holds) (hpc : pc ≠ .waiting) : Inv { s with pc := pc } := by
  have htimer : s.mutex = some .timer ↔ pc.Holds :=
    ⟨fun h => absurd (hinv.timer.mp h) hfree, fun h => absurd h hfree'⟩
  refine hinv.move hlive htimer Iff.rfl (fun _ => ⟨?_, ?_, hpc⟩)
  · rintro rfl
    exact hfree' trivial
  · rintro rfl
    exact hfree' trivial

/-- The two threads do not hold the mutex at once. -/
theorem Inv.exclusive (hinv : Inv s) (h : s.stopPc.Holds) : ¬ s.pc.Holds := by
  intro hpc
  have hmutex := hinv.timer.mpr hpc
  rw [hinv.stopper.mpr h] at hmutex
  cases hmutex

/-- A step of `stop` behind the point where it gives the mutex back. -/
theorem Inv.move_stop (hinv : Inv s) {stopPc : StopPc} (hfree : ¬ s.stopPc.Holds)
    (hcleared : s.stopPc.Cleared) (hfree' : ¬ stopPc.Holds) (hcleared' : stopPc.Cleared)
    (hwoken : s.pc ≠ .waiting) (hjoined : stopPc = .returned → s.pc = .exited) :
    Inv { s with stopPc := stopPc } := by
  refine ⟨hinv.timer, ?_, ?_, hinv.stopped, fun _ => hwoken, hjoined⟩
  · exact iff_of_false (mt hinv.stopper.mp hfree) hfree'
  · exact iff_of_true (hinv.running.mpr hcleared) hcleared'

theorem step_inv (hinv : Inv s) (h : step s a = some s') : Inv s' := by
  cases step_cases h with
  | lock hfree hpc =>
    obtain ⟨-, hlive, rfl | rfl⟩ := Pc.lock_holds hpc
    · exact hinv.move hlive (by simp [Pc.Holds]) (by simp [hfree]) (by simp)
    · exact hinv.move hlive (by simp [Pc.Holds]) (by simp [hfree]) (by simp)
  | check hpc =>
    obtain ⟨hholds, hnext⟩ := Pc.check_holds hpc
    have hmutex := hinv.timer.mpr hholds
    have hlive : s.pc ≠ .exited := by
      intro h
      rw [h] at hholds
      exact hholds
    refine hinv.move hlive ?_ Iff.rfl ?_
    · rcases hnext with ⟨-, rfl | rfl⟩ | ⟨-, rfl⟩ <;> exact iff_of_true hmutex trivial
    · rcases hnext with ⟨hrunning, -⟩ | ⟨-, rfl⟩
      · intro h
        exact absurd (h.symm.trans hrunning) (by simp)
      · simp
  | release hpc =>
    obtain ⟨hfrom, rfl⟩ | ⟨hfrom, rfl⟩ | ⟨hfrom, rfl⟩ := Pc.release_holds hpc
    · have hmutex := hinv.timer.mpr (hfrom ▸ trivial)
      exact hinv.move (by simp [hfrom]) (by simp [Pc.Holds]) (by simp [hmutex])
        (fun h => absurd hfrom (hinv.stopped h).1)
    · have hmutex := hinv.timer.mpr (hfrom ▸ trivial)
      exact hinv.move (by simp [hfrom]) (by simp [Pc.Holds]) (by simp [hmutex]) (by simp)
    · have hmutex := hinv.timer.mpr (hfrom ▸ trivial)
      exact hinv.move (by simp [hfrom]) (by simp [Pc.Holds]) (by simp [hmutex]) (by simp)
  | wake hpc =>
    exact hinv.move_free (by simp [hpc]) (by simp [hpc, Pc.Holds]) (by simp [Pc.Holds]) (by simp)
  | enter hpc =>
    exact hinv.move_free (by simp [hpc]) (by simp [hpc, Pc.Holds]) (by simp [Pc.Holds]) (by simp)
  | skip hpc =>
    exact hinv.move_free (by simp [hpc]) (by simp [hpc, Pc.Holds]) (by simp [Pc.Holds]) (by simp)
  | leave hpc =>
    exact hinv.move_free (by simp [hpc]) (by simp [hpc, Pc.Holds]) (by simp [Pc.Holds]) (by simp)
  | stopLock hstop hfree =>
    have hfree' : ¬ s.pc.Holds := fun h => by simpa [hfree] using hinv.timer.mpr h
    have hrunning : s.running ≠ false := fun h => by
      simpa [hstop, StopPc.Cleared] using hinv.running.mp h
    exact ⟨by simpa using hfree', by simp [StopPc.Holds], by simpa [StopPc.Cleared] using hrunning,
      hinv.stopped, by simp, by simp⟩
  | clear hstop =>
    -- the stopper holds the mutex, so the timer thread is at none of the points that need it
    have hholds : s.stopPc.Holds := hstop ▸ trivial
    have hfree := hinv.exclusive hholds
    refine ⟨hinv.timer, iff_of_true (hinv.stopper.mpr hholds) trivial, iff_of_true rfl trivial,
      fun _ => ⟨?_, ?_⟩, by simp, by simp⟩
    · exact fun h => hfree (h ▸ trivial)
    · exact fun h => hfree (h ▸ trivial)
  | stopUnlock hstop =>
    have hfree := hinv.exclusive (hstop ▸ trivial)
    have hcleared := hinv.running.mpr (hstop ▸ trivial)
    exact ⟨by simpa using hfree, by simp [StopPc.Holds], iff_of_true hcleared trivial, hinv.stopped,
      by simp, by simp⟩
  | notifyWaiting hstop hpc =>
    have hwoken : Inv { s with pc := .woken false } :=
      hinv.move_free (by simp [hpc]) (by simp [hpc, Pc.Holds]) (by simp [Pc.Holds]) (by simp)
    exact hwoken.move_stop (by simp [hstop, StopPc.Holds]) (hstop ▸ trivial) id trivial (by simp)
      (by simp)
  | notifyNone hstop hpc =>
    exact hinv.move_stop (by simp [hstop, StopPc.Holds]) (hstop ▸ trivial) id trivial hpc (by simp)
  | join hstop hpc =>
    exact hinv.move_stop (by simp [hstop, StopPc.Holds]) (hstop ▸ trivial) id trivial (by simp [hpc])
      (fun _ => hpc)

/-! ### What may still happen -/

/-- The flag stays false, and `stop` goes on from its notification to its return. -/
theorem step_stopped (h : step s a = some s') :
    (s.running = false ∨ a = .clear → s'.running = false) ∧
    (s.stopPc = .joining ∨ s.stopPc = .returned ∨ a = .notify →
      s'.stopPc = .joining ∨ s'.stopPc = .returned) ∧
    (s.stopPc = .returned ∨ a = .join → s'.stopPc = .returned) := by
  cases step_cases h with
  | stopLock hstop _ => simp [hstop]
  | clear hstop => simp [hstop]
  | stopUnlock hstop => simp [hstop]
  | notifyWaiting hstop _ => simp [hstop]
  | notifyNone hstop _ => simp [hstop]
  | join hstop _ => simp [hstop]
  | _ => simp

/-- The predicate has let a call through that has not begun. -/
def Pc.Allowed (pc : Pc) : Prop := pc = .unlocking ∨ pc = .calling

theorem step_enter (h : step s .enter = some s') : s.pc = .calling ∧ s'.pc = .inCallback := by
  cases step_cases h with
  | enter hpc => exact ⟨hpc, rfl⟩

/-- A call is let through by a test of the predicate while the flag is true. -/
theorem step_allowed (h : step s a = some s') (hpc' : s'.pc.Allowed) :
    (s.pc.Allowed ∧ a ≠ .enter ∧ a ≠ .check) ∨ (a = .check ∧ s.running = true) := by
  cases step_cases h with
  | lock _ hpc =>
    obtain ⟨-, -, rfl | rfl⟩ := Pc.lock_holds hpc
    · simp [Pc.Allowed] at hpc'
    · simp [Pc.Allowed] at hpc'
  | check hpc =>
    obtain ⟨-, ⟨hrunning, -⟩ | ⟨-, rfl⟩⟩ := Pc.check_holds hpc
    · exact Or.inr ⟨rfl, hrunning⟩
    · simp [Pc.Allowed] at hpc'
  | release hpc =>
    obtain ⟨-, rfl⟩ | ⟨hfrom, -⟩ | ⟨-, rfl⟩ := Pc.release_holds hpc
    · simp [Pc.Allowed] at hpc'
    · exact Or.inl ⟨Or.inl hfrom, by simp, by simp⟩
    · simp [Pc.Allowed] at hpc'
  | wake => simp [Pc.Allowed] at hpc'
  | enter => simp [Pc.Allowed] at hpc'
  | skip => simp [Pc.Allowed] at hpc'
  | leave => simp [Pc.Allowed] at hpc'
  | notifyWaiting => simp [Pc.Allowed] at hpc'
  | _ => exact Or.inl ⟨hpc', by simp, by simp⟩

/-! ### Runs -/

/-- The last test of the predicate in these steps came before `stop` set the flag, and no call has
    begun since: it is the test that let the next call through. -/
def LetThrough (past : List Action) : Prop :=
  ∃ pre mid, past = pre ++ .check :: mid ∧ .check ∉ mid ∧ .enter ∉ mid ∧ .clear ∉ pre

/-- The state after the steps `past`, and what they can have been. -/
structure History (past : List Action) (s : State) : Prop where
  inv : Inv s
  cleared : .clear ∈ past → s.running = false
  notified : .notify ∈ past → s.stopPc = .joining ∨ s.stopPc = .returned
  joined : .join ∈ past → s.stopPc = .returned
  allowed : s.pc.Allowed → LetThrough past
  entered : ∀ (pre post : List Action), past = pre ++ .enter :: post → LetThrough pre
  /-- One call at most begins under the cleared flag, and none behind one that is still to begin. -/
  once : ∀ (pre post : List Action), past = pre ++ .clear :: post →
    post.count .enter ≤ 1 ∧ (s.pc.Allowed → post.count .enter = 0)
  final : ∀ (pre post : List Action), past = pre ++ .join :: post → .enter ∉ post

theorem history_start (callback : Bool) : History [] (start callback) where
  inv := inv_start callback
  cleared := by simp
  notified := by simp
  joined := by simp
  allowed := by simp [start, Pc.Allowed]
  entered := by simp
  once := by simp
  final := by simp

variable {past : List Action}

theorem History.step_allowed (hist : History past s) (h : step s a = some s') (hpc : s'.pc.Allowed) :
    LetThrough (past ++ [a]) := by
  rcases Timer.step_allowed h hpc with ⟨hallowed, henter, hcheck⟩ | ⟨rfl, hrunning⟩
  · obtain ⟨pre, mid, rfl, hchecks, henters, hpre⟩ := hist.allowed hallowed
    refine ⟨pre, mid ++ [a], by simp, ?_, ?_, hpre⟩
    · simpa [hchecks] using Ne.symm hcheck
    · simpa [henters] using Ne.symm henter
  · refine ⟨past, [], rfl, by simp, by simp, fun h => ?_⟩
    exact absurd ((hist.cleared h).symm.trans hrunning) (by simp)

theorem History.step_once (hist : History past s) (h : step s a = some s') (pre post : List Action)
    (hsplit : past ++ [a] = pre ++ .clear :: post) :
    post.count .enter ≤ 1 ∧ (s'.pc.Allowed → post.count .enter = 0) := by
  rcases Machine.concat_eq_split.mp hsplit with ⟨rfl, -, -⟩ | ⟨post', rfl, rfl⟩
  · simp
  · obtain ⟨hcount, hzero⟩ := hist.once pre post' rfl
    rcases eq_or_ne a .enter with rfl | ha
    · obtain ⟨hcalling, hin⟩ := step_enter h
      rw [List.count_append, hzero (Or.inr hcalling), hin]
      simp [Pc.Allowed]
    · have hsame : (post' ++ [a]).count .enter = post'.count .enter := by
        rw [List.count_append, List.count_singleton, if_neg (by simpa using ha), Nat.add_zero]
      rw [hsame]
      refine ⟨hcount, fun hpc => hzero ?_⟩
      rcases Timer.step_allowed h hpc with ⟨hallowed, -, -⟩ | ⟨-, hrunning⟩
      · exact hallowed
      · -- under the cleared flag the predicate lets nothing through
        exact absurd ((hist.cleared (by simp)).symm.trans hrunning) (by simp)

theorem History.step (hist : History past s) (h : step s a = some s') : History (past ++ [a]) s' := by
  obtain ⟨hrunning, hjoining, hreturned⟩ := step_stopped h
  refine ⟨step_inv hist.inv h, ?_, ?_, ?_, hist.step_allowed h, ?_, hist.step_once h, ?_⟩
  · intro hmem
    rw [List.mem_append, List.mem_singleton] at hmem
    exact hrunning (hmem.imp hist.cleared Eq.symm)
  · intro hmem
    rw [List.mem_append, List.mem_singleton] at hmem
    rcases hmem with hmem | rfl
    · exact hjoining (or_assoc.mp (Or.inl (hist.notified hmem)))
    · exact hjoining (Or.inr (Or.inr rfl))
  · intro hmem
    rw [List.mem_append, List.mem_singleton] at hmem
    exact hreturned (hmem.imp hist.joined Eq.symm)
  · intro pre post hsplit
    rcases Machine.concat_eq_split.mp hsplit with ⟨-, rfl, rfl⟩ | ⟨post', -, hpast⟩
    · exact hist.allowed (Or.inr (step_enter h).1)
    · exact hist.entered pre post' hpast
  · intro pre post hsplit
    rcases Machine.concat_eq_split.mp hsplit with ⟨rfl, -, -⟩ | ⟨post', rfl, hpast⟩
    · simp
    · have hexited := hist.inv.joined (hist.joined (by simp [hpast]))
      have ha : a ≠ .enter := by
        rintro rfl
        exact absurd ((step_enter h).1.symm.trans hexited) (by simp)
      simpa [hist.final pre post' hpast] using Ne.symm ha

/-- Stopping a timer is final, in every interleaving of the two threads. After `stop` has set the flag
    at most one more invocation begins, and for every invocation the last test of the predicate before
    it (behind the invocation before) came before the flag was set; after `stop` has returned none is
    running or begins; none runs with the mutex held; and after the notification the thread is not
    waiting. -/
theorem stop_final (callback : Bool) (actions : List Action) (s : State)
    (h : Machine.run step (start callback) actions = some s) :
    (∀ (pre post : List Action), actions = pre ++ .clear :: post → post.count .enter ≤ 1) ∧
    (∀ (pre post : List Action), actions = pre ++ .enter :: post →
      ∃ pre' mid, pre = pre' ++ .check :: mid ∧ .check ∉ mid ∧ .enter ∉ mid ∧ .clear ∉ pre') ∧
    (∀ (pre post : List Action), actions = pre ++ .join :: post →
      .enter ∉ post ∧ s.pc ≠ .inCallback) ∧
    (s.pc = .inCallback → s.mutex ≠ some .timer) ∧
    (.notify ∈ actions → s.pc ≠ .waiting) := by
  have hist : History actions s := by
    have hrun := Machine.run_history History (fun _ _ _ _ hist hstep => hist.step hstep) actions []
      (history_start callback) h
    rwa [List.nil_append] at hrun
  refine ⟨fun pre post hsplit => (hist.once pre post hsplit).1, hist.entered, ?_, ?_, ?_⟩
  · intro pre post hsplit
    refine ⟨hist.final pre post hsplit, fun hpc => ?_⟩
    have hexited := hist.inv.joined (hist.joined (by simp [hsplit]))
    exact absurd (hpc.symm.trans hexited) (by simp)
  · intro hpc hmutex
    have hholds := hist.inv.timer.mp hmutex
    rw [hpc] at hholds
    exact hholds
  · intro hmem
    exact hist.inv.woken (hist.notified hmem)

/-- A period that ends in a throwing callback; then `stop` sets the flag while the next callback is
    about to begin. -/
def lateCallback : List Action :=
  [.lock, .check, .release, .wake true, .lock, .check, .release, .enter, .leave true, .lock, .check,
    .release, .wake false, .lock, .check, .release, .wake true, .lock, .check, .release, .stopLock,
    .clear, .enter, .stopUnlock, .notify, .leave false, .lock, .check, .release, .join]

theorem stop_final_lateCallback :
    (∀ (pre post : List Action), lateCallback = pre ++ .clear :: post → post.count .enter ≤ 1) ∧
    (∀ (pre post : List Action), lateCallback = pre ++ .enter :: post →
      ∃ pre' mid, pre = pre' ++ .check :: mid ∧ .check ∉ mid ∧ .enter ∉ mid ∧ .clear ∉ pre') ∧
    (∀ (pre post : List Action), lateCallback = pre ++ .join :: post →
      .enter ∉ post ∧ Pc.exited ≠ .inCallback) ∧
    (Pc.exited = .inCallback → (none : Option Thread) ≠ some .timer) ∧
    (.notify ∈ lateCallback → Pc.exited ≠ .waiting) :=
  stop_final true lateCallback ⟨false, none, .exited, .returned, true⟩ (by decide)

end NHA.Timer
