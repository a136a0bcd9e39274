import NativeHardwareAccess.Server.Threads

/-! An unreliable time source stops service.

    The timer thread may clear the valid flag between any two calls of the main thread. Nothing sets
    it again. The main thread reads it at two loop heads only, so a visit that has passed its check
    may still send its response; the next read, at whichever loop head it stands, ends the visits, and
    the one at the outer loop ends the service: all sockets are closed and nothing else is called. -/

namespace NHA.Threads
open Scheme Scheme.MD5 NHA.MessageBuilder
open NHA.Serving (Fd Errno Event)

/-- The connection that is being visited, after its check of the valid flag. -/
def Pc.visiting : Pc → Option ℕ
  | .receiving i _ => some i
  | .answering i _ => some i
  | .sending i _ => some i
  | _ => none

/-- The connections on which a response is sent, one entry for each call. -/
def responses (trace : List Event) : List Fd :=
  trace.filterMap (fun
    | .send fd _ _ => some fd
    | _ => none)

/-- The steps of the main thread. -/
def mainSteps (actions : List Action) : ℕ :=
  actions.countP (fun
    | .callback _ _ => false
    | _ => true)

@[simp] theorem responses_append (t t' : List Event) :
    responses (t ++ t') = responses t ++ responses t' := List.filterMap_append

/-- After the receive loop the visit goes on or is over. -/
theorem visiting_judge (i n : ℕ) (recvResult : ℤ) (errno : Errno) :
    (judge i n recvResult errno).visiting = some i ∨
      (judge i n recvResult errno).visiting = none := by
  rw [judge]
  split_ifs
  · exact Or.inr rfl
  · exact Or.inr rfl
  · exact Or.inr rfl
  · exact Or.inl rfl

theorem visiting_afterRecv (i n : ℕ) (recvResult : ℤ) (errno : Errno) :
    (afterRecv i n recvResult errno).visiting = some i ∨
      (afterRecv i n recvResult errno).visiting = none := by
  rw [afterRecv]
  split_ifs
  · exact Or.inl rfl
  · exact visiting_judge ..

section
variable {md5 : List UInt8 → Digest} {p p' : Process} {a : Action}

/-- The valid flag is only ever cleared. -/
theorem step_invalid (hvalid : p.timer.valid = false) (h : Step md5 p a p') :
    p'.timer.valid = false := by
  cases h with
  | callback time tsc => rw [MonotonicTimer.callback_eq, hvalid, Bool.false_and]
  | leave | stopOne => rw [stop_timer]; exact hvalid
  | _ => exact hvalid

/-- What is left to be said on a connection when the flag is false: nothing, or the response of the
    visit that is in progress. -/
def LastWord (p : Process) (t : List Event) : Prop :=
  responses t = [] ∨
    ∃ i fd, p.pc.visiting = some i ∧ p.sockets[i]? = some fd ∧ responses t = [fd]

/-- What a step may say when the flag is false. Either it sends nothing, and the visit in progress
    stays the same or ends; or it sends the response of that visit and ends it. -/
def LateStep (p p' : Process) : Prop :=
  ∃ t, p'.trace = p.trace ++ t ∧
    ((responses t = [] ∧ (p'.pc.visiting = none ∨
        (p'.pc.visiting = p.pc.visiting ∧ p'.sockets = p.sockets))) ∨
      (LastWord p t ∧ p'.pc.visiting = none))

/-- Most steps record one call that is not a send, and end outside a visit. -/
theorem lateStep_quiet {q : Process} {e : Event} {pc : Pc} (htrace : q.trace = p.trace)
    (he : responses [e] = []) (hpc : pc.visiting = none) : LateStep p (q.next e pc) :=
  ⟨[e], by rw [next_trace, htrace], Or.inl ⟨he, Or.inl hpc⟩⟩

theorem step_lastWord (hvalid : p.timer.valid = false) (h : Step md5 p a p') : LateStep p p' := by
  cases h with
  | callback time tsc => exact ⟨[], by simp, Or.inl ⟨rfl, Or.inr ⟨rfl, rfl⟩⟩⟩
  | serve hpc htrue => exact absurd (htrue.symm.trans hvalid) (by simp)
  | visit hpc htrue => exact absurd (htrue.symm.trans hvalid) (by simp)
  | leave hpc =>
    refine ⟨[.getValid false], by simp, Or.inl ⟨rfl, Or.inl ?_⟩⟩
    cases p.sockets <;> rfl
  | stopOne hpc =>
    rename_i fd rest
    refine ⟨[.close fd], by simp, Or.inl ⟨rfl, Or.inl ?_⟩⟩
    cases rest <;> rfl
  | recvError hpc =>
    rename_i i n fd e hfd
    refine ⟨_, rfl, Or.inl ⟨rfl, ?_⟩⟩
    rcases visiting_judge i n (-1) e with hsome | hnone
    · exact Or.inr ⟨by rw [next_pc, hsome, hpc]; rfl, rfl⟩
    · exact Or.inl hnone
  | recvOk hpc =>
    rename_i i n fd data hfd
    refine ⟨_, rfl, Or.inl ⟨rfl, ?_⟩⟩
    rcases visiting_afterRecv i n data.length p.errno with hsome | hnone
    · exact Or.inr ⟨by rw [next_pc, hsome, hpc]; rfl, rfl⟩
    · exact Or.inl hnone
  | respond hpc =>
    refine ⟨_, rfl, Or.inl ⟨rfl, ?_⟩⟩
    rw [next_pc, hpc]
    split_ifs
    · exact Or.inl rfl
    · exact Or.inr ⟨rfl, rfl⟩
  | sendError hpc hfd =>
    refine ⟨_, rfl, Or.inr ⟨Or.inr ⟨_, _, ?_, hfd, rfl⟩, rfl⟩⟩
    rw [hpc]
    rfl
  | sendOk hpc hfd =>
    refine ⟨_, rfl, Or.inr ⟨Or.inr ⟨_, _, ?_, hfd, rfl⟩, ?_⟩⟩
    · rw [hpc]
      rfl
    · rw [next_pc]
      split_ifs <;> rfl
  | _ => exact lateStep_quiet rfl rfl rfl

/-- A whole run with the flag cleared. -/
theorem run_lastWord {actions : List Action} (hvalid : p.timer.valid = false)
    (h : Machine.run (step md5) p actions = some p') :
    p'.timer.valid = false ∧ ∃ t, p'.trace = p.trace ++ t ∧ LastWord p t := by
  induction actions generalizing p with
  | nil =>
    obtain rfl := Option.some.inj h
    exact ⟨hvalid, [], by simp, Or.inl rfl⟩
  | cons a actions ih =>
    obtain ⟨q, hq, hrun⟩ := Machine.run_cons.mp h
    have hstep := step_cases hq
    obtain ⟨hfinal, t', ht', hlast⟩ := ih (step_invalid hvalid hstep) hrun
    obtain ⟨t, ht, hfirst⟩ := step_lastWord hvalid hstep
    refine ⟨hfinal, t ++ t', by rw [ht', ht, List.append_assoc], ?_⟩
    -- what the rest of the run sends belongs to a visit that was already in progress
    rcases hfirst with ⟨hnone, hover | ⟨hsame, hsockets⟩⟩ | ⟨hword, hover⟩
    · rcases hlast with hlast | ⟨i, fd, hi, -⟩
      · exact Or.inl (by rw [responses_append, hnone, hlast, List.append_nil])
      · exact absurd (hover.symm.trans hi) (by simp)
    · rw [LastWord, responses_append, hnone, List.nil_append, ← hsame, ← hsockets]
      exact hlast
    · rcases hlast with hlast | ⟨i, fd, hi, -⟩
      · rw [LastWord, responses_append, hlast, List.append_nil]
        exact hword
      · exact absurd (hover.symm.trans hi) (by simp)

/-! ### After the serving loop -/

/-- The main thread closes the sockets `rest` and then sleeps. -/
def Leaving (p : Process) (rest : List Fd) : Prop :=
  (rest ≠ [] ∧ p.pc = .stopping rest) ∨ (rest = [] ∧ p.pc = .stopped ∧ p.sockets = [])

theorem leaving_stop (p : Process) (rest : List Fd) : Leaving (p.stop rest) rest := by
  cases rest with
  | nil => exact Or.inr ⟨rfl, rfl, rfl⟩
  | cons fd rest => exact Or.inl ⟨by simp, rfl⟩

/-- One step after the serving loop: the timer thread, or the next close. -/
theorem step_leaving {rest : List Fd} (hleave : Leaving p rest) (h : Step md5 p a p') :
    (mainSteps [a] = 0 ∧ Leaving p' rest ∧ p'.trace = p.trace) ∨
    (∃ fd tail, rest = fd :: tail ∧ mainSteps [a] = 1 ∧ Leaving p' tail ∧
      p'.trace = p.trace ++ [.close fd]) := by
  rcases hleave with ⟨hne, hpc⟩ | ⟨rfl, hpc, hs⟩
  · cases h with
    | callback time tsc => exact Or.inl ⟨rfl, Or.inl ⟨hne, hpc⟩, rfl⟩
    | stopOne hpc' =>
      rename_i fd tail
      obtain rfl : rest = fd :: tail := by simpa using hpc.symm.trans hpc'
      exact Or.inr ⟨fd, tail, rfl, rfl, leaving_stop _ tail, by simp⟩
    | _ => simp_all
  · cases h with
    | callback time tsc => exact Or.inl ⟨rfl, Or.inr ⟨rfl, hpc, hs⟩, rfl⟩
    | _ => simp_all

theorem mainSteps_cons (a : Action) (actions : List Action) :
    mainSteps (a :: actions) = mainSteps [a] + mainSteps actions := by
  rw [← List.singleton_append, mainSteps, List.countP_append]
  rfl

/-- A whole run after the serving loop closes one socket after the other. -/
theorem run_leaving {actions : List Action} {rest : List Fd} (hleave : Leaving p rest)
    (h : Machine.run (step md5) p actions = some p') :
    mainSteps actions ≤ rest.length ∧ Leaving p' (rest.drop (mainSteps actions)) ∧
      p'.trace = p.trace ++ (rest.take (mainSteps actions)).map .close := by
  induction actions generalizing p rest with
  | nil =>
    obtain rfl := Option.some.inj h
    exact ⟨Nat.zero_le _, hleave, by simp [mainSteps]⟩
  | cons a actions ih =>
    obtain ⟨q, hq, hrun⟩ := Machine.run_cons.mp h
    rw [mainSteps_cons]
    rcases step_leaving hleave (step_cases hq) with ⟨hzero, hq', htrace⟩ |
      ⟨fd, tail, rfl, hone, hq', htrace⟩
    · rw [hzero, Nat.zero_add, ← htrace]
      exact ih hq' hrun
    · obtain ⟨hle, hfinal, htail⟩ := ih hq' hrun
      rw [hone, Nat.add_comm 1]
      refine ⟨by simpa using hle, hfinal, ?_⟩
      rw [htail, htrace, List.take_succ_cons, List.map_cons, List.append_assoc,
        List.singleton_append]

end

/-- CORRECT: once the valid flag is false it stays false; from then on at most one response is sent,
    on a connection whose visit had already passed its check; and a main thread that has left its
    serving loop closes the sockets one after the other, the server socket included, calls nothing
    else, is never kept from going on, and ends with all of them closed. -/
theorem unreliable_time_stops_service (md5 : List UInt8 → Digest) :
    (∀ (p p' : Process) (actions : List Action), p.timer.valid = false →
      Machine.run (step md5) p actions = some p' →
      p'.timer.valid = false ∧ ∃ t, p'.trace = p.trace ++ t ∧
        (responses t = [] ∨ ∃ i fd, p.pc.visiting = some i ∧ p.sockets[i]? = some fd ∧
          responses t = [fd])) ∧
    (∀ (p q p' : Process) (actions : List Action), p.pc = .loopHead → p.timer.valid = false →
      step md5 p .getValid = some q → Machine.run (step md5) q actions = some p' →
      p'.trace = q.trace ++ (p.sockets.take (mainSteps actions)).map .close ∧
      (mainSteps actions < p.sockets.length → (step md5 p' .close).isSome = true) ∧
      (p'.pc = .stopped ↔ p.sockets.length ≤ mainSteps actions) ∧
      (p'.pc = .stopped → p'.sockets = [])) := by
  refine ⟨fun p p' actions hvalid hrun => run_lastWord hvalid hrun, ?_⟩
  intro p q p' actions hpc hvalid hstep hrun
  have hleave : Leaving q p.sockets := by
    rw [step, hpc] at hstep
    simp only [hvalid, Bool.false_eq_true, if_false] at hstep
    obtain rfl := Option.some.inj hstep
    exact leaving_stop _ _
  obtain ⟨hle, hfinal, htrace⟩ := run_leaving hleave hrun
  refine ⟨htrace, ?_, ?_, ?_⟩
  · intro hlt
    rcases hfinal with ⟨hne, hpc'⟩ | ⟨hnil, -⟩
    · obtain ⟨fd, tail, heq⟩ := List.exists_cons_of_ne_nil hne
      rw [step, hpc', heq]
      rfl
    · rw [List.drop_eq_nil_iff] at hnil
      omega
  · rcases hfinal with ⟨hne, hpc'⟩ | ⟨hnil, hpc', -⟩
    · rw [Ne, List.drop_eq_nil_iff] at hne
      exact iff_of_false (by simp [hpc']) hne
    · exact iff_of_true hpc' (List.drop_eq_nil_iff.mp hnil)
  · intro hstopped
    rcases hfinal with ⟨-, hpc'⟩ | ⟨-, -, hs⟩
    · exact absurd (hpc'.symm.trans hstopped) (by simp)
    · exact hs

/-- The flag has been cleared while a response of one byte was about to be sent on descriptor 4. -/
def lateProcess : Process :=
  ⟨⟨false, 1 / 10, 500, 0, 5, 7⟩, .sending 1 1, 2, [3, 4, 5], fun _ => 0, fun _ => 7, .eagain, []⟩

/-- It is the last response: the other connection is not visited, and all sockets are closed. -/
theorem lateProcess_stops : ∃ p q p', Machine.run (step MD5.md5) lateProcess
      [.send (.ok 1), .getValid, .poll (.ok ())] = some p ∧ responses p.trace = [4] ∧
    step MD5.md5 p .getValid = some q ∧
    Machine.run (step MD5.md5) q [.close, .callback 9 9, .close, .close] = some p' ∧
    p'.trace = q.trace ++ [.close 3, .close 4, .close 5] ∧ p'.pc = .stopped ∧
    p'.timer.valid = false := by
  have hrun : (Machine.run (step MD5.md5) lateProcess [.send (.ok 1), .getValid, .poll (.ok ())]).any
      (fun p => p.pc = .loopHead ∧ p.timer.valid = false ∧ p.sockets = [3, 4, 5] ∧
        responses p.trace = [4]) = true := by decide +kernel
  obtain ⟨p, hp, hend⟩ := (Option.any_eq_true _ _).mp hrun
  obtain ⟨hpc, hvalid, hsockets, hresp⟩ := of_decide_eq_true hend
  obtain ⟨q, hq⟩ : ∃ q, step MD5.md5 p .getValid = some q := by simp [step, hpc, hvalid]
  have hclosing : q.pc = .stopping [3, 4, 5] := by
    rw [step, hpc] at hq
    simp only [hvalid, Bool.false_eq_true, if_false, hsockets] at hq
    obtain rfl := Option.some.inj hq
    rfl
  obtain ⟨p', hp'⟩ : ∃ p', Machine.run (step MD5.md5) q [.close, .callback 9 9, .close, .close] =
      some p' := by simp [Machine.run, step, hclosing, Process.stop]
  obtain ⟨htrace, -, hstopped, -⟩ :=
    (unreliable_time_stops_service MD5.md5).2 p q p' _ hpc hvalid hq hp'
  rw [hsockets] at htrace hstopped
  refine ⟨p, q, p', hp, hresp, hq, hp', htrace, hstopped.mpr (by decide), ?_⟩
  have hlater : Machine.run (step MD5.md5) p
      (.getValid :: [.close, .callback 9 9, .close, .close]) = some p' :=
    Machine.run_cons.mpr ⟨q, hq, hp'⟩
  exact ((unreliable_time_stops_service MD5.md5).1 p p' _ hvalid hlater).1

end NHA.Threads
