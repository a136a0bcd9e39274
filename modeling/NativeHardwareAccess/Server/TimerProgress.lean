import NativeHardwareAccess.Server.Timer

/-! `Timer::stop` returns.

    Nothing in the two threads waits for ever: the stopper needs the mutex, which the timer thread holds
    only from a lock to the next wait, unlock or end; the timer thread waits for a time or a
    notification; and `join` waits for the timer thread, which leaves its loop at the first test of the
    flag after `stop` has set it.

        steps to go     calling 5 ─▶ inCallback 4 ─▶ relocking 3 ─▶ checking 2 ─▶ breaking 1 ─▶ exited 0
                                          waiting 4 ─▶ woken 3 ─┘
                        unlocking 3 ─▶ notifying 2 ─▶ joining 1 ─▶ returned 0 -/

namespace NHA.Timer
open Scheme

/-- The steps that the timer thread has to go to its end, once the flag is false. -/
def Pc.toGo : Pc → ℕ
  | .exited => 0
  | .breaking => 1
  | .checking | .timedOut => 2
  | .starting | .woken _ | .relocking => 3
  | .waiting | .inCallback => 4
  | .blocking | .calling => 5
  | .unlocking => 6

/-- The steps that `stop` has to go to its end. -/
def StopPc.toGo : StopPc → ℕ
  | .returned => 0
  | .joining => 1
  | .notifying => 2
  | .unlocking => 3
  | .clearing => 4
  | .locking => 5

def State.toGo (s : State) : ℕ := s.pc.toGo + s.stopPc.toGo

variable {s s' : State} {a : Action}

theorem Pc.lock_toGo {pc pc' : Pc} (h : pc.lock = some pc') : pc'.toGo < pc.toGo := by
  cases pc with
  | starting =>
    obtain rfl := Option.some.inj h
    decide
  | woken timeout =>
    cases timeout with
    | false =>
      obtain rfl := Option.some.inj h
      decide
    | true =>
      obtain rfl := Option.some.inj h
      decide
  | relocking =>
    obtain rfl := Option.some.inj h
    decide
  | _ => cases h

theorem Pc.check_toGo {pc pc' : Pc} (h : pc.check false = some pc') : pc'.toGo < pc.toGo := by
  cases pc with
  | checking =>
    obtain rfl := Option.some.inj h
    decide
  | timedOut =>
    obtain rfl := Option.some.inj h
    decide
  | _ => cases h

theorem Pc.release_toGo {pc pc' : Pc} (h : pc.release = some pc') : pc'.toGo < pc.toGo := by
  rcases Pc.release_holds h with ⟨rfl, rfl⟩ | ⟨rfl, rfl⟩ | ⟨rfl, rfl⟩
  · decide
  · decide
  · decide

/-- Under the cleared flag every step brings one of the threads closer to its end. -/
theorem step_toGo (hrunning : s.running = false) (h : step s a = some s') : s'.toGo < s.toGo := by
  cases step_cases h with
  | lock _ hpc => exact Nat.add_lt_add_right (Pc.lock_toGo hpc) _
  | check hpc =>
    rw [hrunning] at hpc
    exact Nat.add_lt_add_right (Pc.check_toGo hpc) _
  | release hpc => exact Nat.add_lt_add_right (Pc.release_toGo hpc) _
  | wake hpc => simp [State.toGo, hpc, Pc.toGo]
  | enter hpc => simp [State.toGo, hpc, Pc.toGo]
  | skip hpc => simp [State.toGo, hpc, Pc.toGo]
  | leave hpc => simp [State.toGo, hpc, Pc.toGo]
  | stopLock hstop => simp [State.toGo, hstop, StopPc.toGo]
  | clear hstop => simp [State.toGo, hstop, StopPc.toGo]
  | stopUnlock hstop => simp [State.toGo, hstop, StopPc.toGo]
  | notifyWaiting hstop hpc => simp [State.toGo, hstop, hpc, Pc.toGo, StopPc.toGo]
  | notifyNone hstop => simp [State.toGo, hstop, StopPc.toGo]
  | join hstop => simp [State.toGo, hstop, StopPc.toGo]

/-- Under the cleared flag there are eight steps at most: a call that is about to begin, and all of
    `stop` behind the flag. -/
theorem Inv.toGo_le (hinv : Inv s) (hrunning : s.running = false) : s.toGo ≤ 8 := by
  have hpc : s.pc.toGo ≤ 5 := by
    obtain ⟨-, hunlocking⟩ := hinv.stopped hrunning
    revert hunlocking
    cases s.pc with
    | unlocking => exact fun h => absurd rfl h
    | _ => simp [Pc.toGo]
  have hstop : s.stopPc.toGo ≤ 3 := by
    have hcleared := hinv.running.mp hrunning
    revert hcleared
    cases s.stopPc with
    | locking => exact False.elim
    | clearing => exact False.elim
    | _ => exact fun _ => by decide
  rw [State.toGo]
  omega

/-! ### Nobody is stuck -/

theorem Inv.mutex_free (hinv : Inv s) (hpc : ¬ s.pc.Holds) (hstop : ¬ s.stopPc.Holds) :
    s.mutex = none := by
  cases hmutex : s.mutex with
  | none => rfl
  | some thread =>
    cases thread with
    | timer => exact absurd (hinv.timer.mp hmutex) hpc
    | stopper => exact absurd (hinv.stopper.mp hmutex) hstop

/-- The timer thread can go on, unless it has ended or waits for a mutex that the stopper holds. -/
theorem exists_step_timer (hinv : Inv s) (hlive : s.pc ≠ .exited) (hfree : ¬ s.stopPc.Holds) :
    ∃ a, (step s a).isSome = true := by
  have hmutex : ¬ s.pc.Holds → s.mutex = none := fun hpc => hinv.mutex_free hpc hfree
  cases hpc : s.pc with
  | starting => exact ⟨.lock, by simp [step, hmutex (by simp [hpc, Pc.Holds]), hpc, Pc.lock]⟩
  | woken timeout =>
    refine ⟨.lock, ?_⟩
    cases timeout <;> simp [step, hmutex (by simp [hpc, Pc.Holds]), hpc, Pc.lock]
  | relocking => exact ⟨.lock, by simp [step, hmutex (by simp [hpc, Pc.Holds]), hpc, Pc.lock]⟩
  | checking => exact ⟨.check, by simp [step, hpc, Pc.check]⟩
  | timedOut => exact ⟨.check, by simp [step, hpc, Pc.check]⟩
  | blocking => exact ⟨.release, by simp [step, hpc, Pc.release]⟩
  | unlocking => exact ⟨.release, by simp [step, hpc, Pc.release]⟩
  | breaking => exact ⟨.release, by simp [step, hpc, Pc.release]⟩
  | waiting => exact ⟨.wake true, by simp [step, hpc]⟩
  | calling =>
    cases hcallback : s.callback with
    | true => exact ⟨.enter, by simp [step, hpc, hcallback]⟩
    | false => exact ⟨.skip, by simp [step, hpc, hcallback]⟩
  | inCallback => exact ⟨.leave false, by simp [step, hpc]⟩
  | exited => exact absurd hpc hlive

/-- Where neither thread can go on, `stop` has returned and the timer thread has ended. -/
theorem returned_of_stuck (hinv : Inv s) (hstuck : ∀ a, step s a = none) :
    s.stopPc = .returned ∧ s.pc = .exited := by
  have hnone : ¬ ∃ a, (step s a).isSome = true := by
    rintro ⟨a, ha⟩
    rw [hstuck a] at ha
    cases ha
  have hfree : ¬ s.stopPc.Holds := by
    intro hholds
    cases hstop : s.stopPc with
    | clearing => exact hnone ⟨.clear, by simp [step, hstop]⟩
    | unlocking => exact hnone ⟨.stopUnlock, by simp [step, hstop]⟩
    | _ =>
      rw [hstop] at hholds
      exact hholds
  have hexited : s.pc = .exited := by
    by_contra hlive
    exact hnone (exists_step_timer hinv hlive hfree)
  refine ⟨?_, hexited⟩
  cases hstop : s.stopPc with
  | locking =>
    have hmutex := hinv.mutex_free (by simp [hexited, Pc.Holds]) hfree
    exact absurd ⟨.stopLock, by simp [step, hstop, hmutex]⟩ hnone
  | clearing => exact absurd ⟨.clear, by simp [step, hstop]⟩ hnone
  | unlocking => exact absurd ⟨.stopUnlock, by simp [step, hstop]⟩ hnone
  | notifying => exact absurd ⟨.notify, by simp [step, hstop]⟩ hnone
  | joining => exact absurd ⟨.join, by simp [step, hstop, hexited]⟩ hnone
  | returned => rfl

/-- Stopping a timer ends, in every interleaving of the two threads. Where neither thread can take a
    step, `stop` has returned and the timer thread has ended; and once `stop` has set the flag, the two
    threads take eight more steps at most, however they are scheduled and however often a wait ends
    without reason. -/
theorem stop_returns (callback : Bool) (actions : List Action) (s : State)
    (h : Machine.run step (start callback) actions = some s) :
    ((∀ a, step s a = none) → s.stopPc = .returned ∧ s.pc = .exited) ∧
    (.clear ∈ actions → ∀ (more : List Action) (s' : State),
      Machine.run step s more = some s' → more.length ≤ 8) := by
  have hist : History actions s := by
    have hrun := Machine.run_history History (fun _ _ _ _ hist hstep => hist.step hstep) actions []
      (history_start callback) h
    rwa [List.nil_append] at hrun
  refine ⟨returned_of_stuck hist.inv, fun hclear more s' hmore => ?_⟩
  have hrunning := hist.cleared hclear
  have hdown : ∀ s a s', s.running = false → step s a = some s' →
      s'.running = false ∧ s'.toGo < s.toGo :=
    fun s a s' hs hstep => ⟨(step_stopped hstep).1 (Or.inl hs), step_toGo hs hstep⟩
  have hbound := Machine.run_length_le State.toGo hdown more hrunning hmore
  have hle := hist.inv.toGo_le hrunning
  omega

/-- `stop` sets the flag while a callback is about to begin; eight steps later it has returned. -/
def lastCallback : List Action := [.enter, .stopUnlock, .notify, .leave true, .lock, .check, .release, .join]

theorem stop_returns_lastCallback :
    (Machine.run step (start true) (lateCallback.take 22 ++ lastCallback)).any
      (fun s => s.stopPc = .returned ∧ s.pc = .exited) = true ∧ lastCallback.length ≤ 8 := by
  have hsome : (Machine.run step (start true) (lateCallback.take 22)).any
      (fun s => (Machine.run step s lastCallback).isSome) = true := by decide
  obtain ⟨s, hs, hmore⟩ := (Option.any_eq_true _ _).mp hsome
  obtain ⟨s', hs'⟩ := Option.isSome_iff_exists.mp hmore
  exact ⟨by decide, (stop_returns true (lateCallback.take 22) s hs).2 (by decide) lastCallback s' hs'⟩

end NHA.Timer
