import NativeHardwareAccess.Schemes.Framing
import NativeHardwareAccess.Server.SessionRuns

/-! The server's side of the exchange.

    Seen from one connection, the server takes a stream of queries and gives a stream of responses.
    Both consist of frames: an answered query and a response are as long as their size fields say. The
    queries that `createResponse` is called with fit the receive buffer (`Measured`) and are, one after
    the other, the start of what was received; what is handed to `send` is the reply of the call right
    before (`Replying`). -/

namespace NHA.Threads
open Scheme Scheme.MD5 Scheme.Framing NHA.MessageBuilder NHA.Protocol NHA.Session
open NHA.Serving (Fd Errno Event maxSizeOfMessage spaceLeft spaceLeft_eq)

/-! ### Queries fit the buffer -/

def Pc.Measured : Pc → Prop
  | .receiving _ n | .answering _ n => n ≤ maxSizeOfMessage
  | _ => True

/-- The call is not one of `createResponse`, or its query fits the receive buffer. -/
def MeasuredCall : Event → Prop
  | .createResponse _ _ query _ => query.length ≤ maxSizeOfMessage
  | _ => True

structure Measured (p : Process) : Prop where
  pc : p.pc.Measured
  calls : ∀ e ∈ p.trace, MeasuredCall e

section
variable {md5 : List UInt8 → Digest} {p q : Process} {e : Event} {pc : Pc}

theorem Measured.next (h : Measured p) (ht : q.trace = p.trace) (he : MeasuredCall e)
    (hpc : pc.Measured) : Measured (q.next e pc) := by
  refine ⟨hpc, ?_⟩
  rw [next_trace, ht]
  intro e' he'
  rcases List.mem_append.mp he' with hold | hnew
  · exact h.calls e' hold
  · obtain rfl := List.mem_singleton.mp hnew
    exact he

theorem Measured.stop (h : Measured p) (he : MeasuredCall e) (fds : List Fd) :
    Measured ((p.next e pc).stop fds) := by
  have hnext : Measured (p.next e .polling) := h.next rfl he trivial
  cases fds with
  | nil => exact ⟨trivial, hnext.calls⟩
  | cons fd fds => exact ⟨trivial, hnext.calls⟩

theorem judge_measured (i : ℕ) {n : ℕ} (recvResult : ℤ) (errno : Errno) (hn : n ≤ maxSizeOfMessage) :
    (judge i n recvResult errno).Measured := by
  rw [judge]
  split_ifs
  · trivial
  · trivial
  · trivial
  · exact hn

/-- Every step keeps the sizes. -/
theorem measured_step (p : Process) (a : Action) (p' : Process) (h : Measured p)
    (hbounded : Bounded p a) (hstep : step md5 p a = some p') : Measured p' := by
  have hpcs := h.pc
  cases step_cases hstep with
  | callback => exact ⟨h.pc, h.calls⟩
  | leave => exact h.stop (e := .getValid false) trivial _
  | @stopOne fd => exact h.stop (e := .close fd) trivial _
  | visit => exact h.next rfl trivial (Nat.zero_le _)
  | recvError hpc =>
    rw [hpc] at hpcs
    exact h.next rfl trivial (judge_measured _ _ _ hpcs)
  | recvOk hpc =>
    rw [hpc] at hpcs
    rw [Bounded, hpc, Pc.room] at hbounded
    rw [afterRecv_bounded _ _ hpcs hbounded]
    refine h.next rfl trivial ?_
    have hn : _ ≤ maxSizeOfMessage := hpcs
    rw [spaceLeft_eq hn] at hbounded
    split_ifs
    · trivial
    · rw [Pc.Measured]
      omega
  | respond hpc =>
    rw [hpc] at hpcs
    refine h.next rfl ?_ ?_
    · rw [MeasuredCall, length_slice]
      exact hpcs
    · split_ifs <;> trivial
  | sendOk =>
    refine h.next rfl trivial ?_
    split_ifs <;> trivial
  | _ => exact h.next rfl trivial trivial

/-- What a step adds to the trace, and that a connection is only accepted by an accept. -/
theorem step_trace {a : Action} {p' : Process} (h : step md5 p a = some p') :
    p'.trace = p.trace ∨ ∃ e, p'.trace = p.trace ++ [e] ∧
      ∀ fd, e = .accept (.ok fd) → a = .accept (.ok fd) := by
  cases step_cases h with
  | callback => exact Or.inl rfl
  | leave => exact Or.inr ⟨_, by rw [stop_trace, next_trace], by simp⟩
  | stopOne => exact Or.inr ⟨_, by rw [stop_trace, next_trace], by simp⟩
  | acceptFull =>
    refine Or.inr ⟨_, rfl, ?_⟩
    rintro fd hfd
    obtain rfl := Except.ok.inj (Event.accept.inj hfd)
    rfl
  | acceptOk =>
    refine Or.inr ⟨_, rfl, ?_⟩
    rintro fd hfd
    obtain rfl := Except.ok.inj (Event.accept.inj hfd)
    rfl
  | _ => exact Or.inr ⟨_, rfl, by simp⟩

end

/-! ### Replies -/

/-- The response that is due is the reply of the call just made. -/
def Due (md5 : List UInt8 → Digest) (p : Process) : Prop :=
  ∀ i sendSize, p.pc = .sending i sendSize → ∃ t fd env query,
    p.trace = t ++ [.createResponse fd env query sendSize] ∧ p.sockets[i]? = some fd ∧
    reply md5 env query = some (slice p.sendBuffer 0 sendSize.toNat)

/-- Every message handed to `send` is the reply of the call right before. -/
def Replies (md5 : List UInt8 → Digest) (t : List Event) : Prop :=
  ∀ pre fd bytes result post, t = pre ++ .send fd bytes result :: post →
    ∃ t' env query size, pre = t' ++ [.createResponse fd env query size] ∧
      reply md5 env query = some bytes

structure Replying (md5 : List UInt8 → Digest) (p : Process) : Prop where
  measured : Measured p
  due : Due md5 p
  replies : Replies md5 p.trace

section
variable {md5 : List UInt8 → Digest} {p q : Process} {e : Event} {pc : Pc}

theorem Replies.concat {t : List Event} (h : Replies md5 t) (he : ∀ fd bytes result,
    e = .send fd bytes result → ∃ t' env query size,
      t = t' ++ [.createResponse fd env query size] ∧ reply md5 env query = some bytes) :
    Replies md5 (t ++ [e]) := by
  intro pre fd bytes result post hsplit
  rcases Machine.concat_eq_split.mp hsplit with ⟨-, rfl, hlast⟩ | ⟨post', -, hbefore⟩
  · exact he fd bytes result hlast
  · exact h pre fd bytes result post' hbefore

/-- A step that records another call than `send` and leads to another one keeps the replies. -/
theorem Replying.next (h : Replying md5 p) (hmeasured : Measured (q.next e pc))
    (ht : q.trace = p.trace) (he : ∀ fd bytes result, e ≠ .send fd bytes result)
    (hpc : ∀ i sendSize, pc ≠ .sending i sendSize) : Replying md5 (q.next e pc) := by
  refine ⟨hmeasured, fun i sendSize hsending => absurd hsending (hpc i sendSize), ?_⟩
  rw [next_trace, ht]
  exact h.replies.concat (fun fd bytes result heq => absurd heq (he fd bytes result))

theorem Replying.stop (h : Replying md5 p) {fds : List Fd}
    (hmeasured : Measured ((p.next e .loopHead).stop fds))
    (he : ∀ fd bytes result, e ≠ .send fd bytes result) :
    Replying md5 ((p.next e .loopHead).stop fds) := by
  refine ⟨hmeasured, fun i sendSize hsending => ?_, ?_⟩
  · cases fds <;> exact absurd hsending (by simp [Process.stop])
  · rw [stop_trace, next_trace]
    exact h.replies.concat (fun fd bytes result heq => absurd heq (he fd bytes result))

theorem judge_ne_sending (i n : ℕ) (recvResult : ℤ) (errno : Errno) (j : ℕ) (sendSize : ℤ) :
    judge i n recvResult errno ≠ .sending j sendSize := by
  rw [judge]
  split_ifs <;> simp

theorem afterRecv_ne_sending (i n : ℕ) (recvResult : ℤ) (errno : Errno) (j : ℕ) (sendSize : ℤ) :
    afterRecv i n recvResult errno ≠ .sending j sendSize := by
  rw [afterRecv]
  split_ifs
  · simp
  · exact judge_ne_sending _ _ _ _ j sendSize

/-- Every step keeps the replies: `createResponse` makes one due, `send` hands it over. -/
theorem replying_step (p : Process) (a : Action) (p' : Process) (h : Replying md5 p)
    (hbounded : Bounded p a) (hstep : step md5 p a = some p') : Replying md5 p' := by
  have hmeasured := measured_step p a p' h.measured hbounded hstep
  cases step_cases hstep with
  | callback => exact ⟨hmeasured, h.due, h.replies⟩
  | leave => exact h.stop hmeasured (by simp)
  | stopOne => exact h.stop hmeasured (by simp)
  | recvError => exact h.next hmeasured rfl (by simp) (judge_ne_sending _ _ _ _)
  | recvOk => exact h.next hmeasured rfl (by simp) (afterRecv_ne_sending _ _ _ _)
  | @respond i n fd env hpc hfd =>
    have hn : n ≤ maxSizeOfMessage := by
      have hpcs := h.measured.pc
      rw [hpc] at hpcs
      exact hpcs
    rcases @respond_cases md5 p n env hn with ⟨hsize, -⟩ | ⟨hne, -, hsome⟩
    · rw [if_pos hsize] at hmeasured ⊢
      exact h.next hmeasured rfl (by simp) (by simp)
    · rw [if_neg hne] at hmeasured ⊢
      refine ⟨hmeasured, fun j sendSize hsending => ?_, ?_⟩
      · obtain ⟨rfl, rfl⟩ := Pc.sending.inj hsending
        exact ⟨p.trace, fd, env, slice p.recvBuffer 0 n, rfl, hfd, hsome⟩
      · exact h.replies.concat (by simp)
  | @sendError i sendSize fd e hpc hfd =>
    obtain ⟨t, fd', env, query, htrace, hfd', hreply⟩ := h.due i sendSize hpc
    obtain rfl := Option.some.inj (hfd.symm.trans hfd')
    refine ⟨hmeasured, by simp [Due], h.replies.concat ?_⟩
    rintro fd'' bytes result heq
    obtain ⟨rfl, rfl, -⟩ := Event.send.inj heq
    exact ⟨t, env, query, sendSize, htrace, hreply⟩
  | @sendOk i sendSize fd n hpc hfd =>
    obtain ⟨t, fd', env, query, htrace, hfd', hreply⟩ := h.due i sendSize hpc
    obtain rfl := Option.some.inj (hfd.symm.trans hfd')
    refine ⟨hmeasured, fun j size hsending => ?_, h.replies.concat ?_⟩
    · rw [next_pc] at hsending
      split_ifs at hsending
    · rintro fd'' bytes result heq
      obtain ⟨rfl, rfl, -⟩ := Event.send.inj heq
      exact ⟨t, env, query, sendSize, htrace, hreply⟩
  | _ => exact h.next hmeasured rfl (by simp) (by simp)

end

/-! ### Frames -/

/-- An answered query is as long as its size field says. -/
theorem frame_query {md5 : List UInt8 → Digest} {env : Readings} {q m : List UInt8}
    (hq : q.length ≤ maxSizeOfMessage) (h : reply md5 env q = some m) : Frame 4 ofLE q := by
  have hwf := (show Answered md5 q from ⟨hq, env, m, h⟩).wellFormed
  have hmin := hwf.minSize
  exact ⟨by omega, by omega, hwf.sizeField.symm⟩

/-- So is a response, and it is short. -/
theorem frame_response {md5 : List UInt8 → Digest} {env : Readings} {q m : List UInt8}
    (h : reply md5 env q = some m) : Frame 4 ofLE m ∧ 38 ≤ m.length ∧ m.length ≤ 343 := by
  rw [reply] at h
  split_ifs at h with hn
  obtain rfl := Option.some.inj h
  obtain ⟨-, hmax, hmessage⟩ := responseOf_answered md5 env (Memory.ofList q) (Int32.ofNat q.length)
    (fun _ => 0) 61440 hn
  rw [hmessage]
  have hbody : (responseBody env 61440 (received (Memory.ofList q) (Int32.ofNat q.length))).length ≤ 305 :=
    length_bodyBytes_le env (accounted_parsed 61440 _ hmax)
  have hlength := length_message md5 env.devID (flagsR (Memory.ofList q 21))
    (responseBody env 61440 (received (Memory.ofList q) (Int32.ofNat q.length)))
  refine ⟨⟨by omega, by omega, ?_⟩, by omega, by omega⟩
  rw [hlength, message, front, List.append_assoc, List.append_assoc,
    List.take_left' (length_toLE _ _), ofLE_toLE_of_lt (by omega)]

/-! ### The stream of queries -/

section
variable {md5 : List UInt8 → Digest} {fd : Fd}

/-- What `createResponse` has been called with is the start of what was received. -/
theorem queriesOn_received (t : List Event) {ph : Phase}
    (h : Machine.Path (Observed md5 fd) (.reading []) t ph) (hnew : .accept (.ok fd) ∉ t) :
    queriesOn fd t <+: receivedOn fd t := by
  induction t using List.reverseRecOn generalizing ph with
  | nil => exact List.prefix_rfl
  | append_singleton t e ih =>
    rw [queriesOn_concat, receivedOn_concat]
    obtain ⟨ph', hpath, -⟩ := (Machine.path_append t).mp h
    have hold := ih hpath (fun hmem => hnew (List.mem_append_left _ hmem))
    cases hcall : callBy fd e with
    | none => simpa using hold.trans (List.prefix_append _ _)
    | some call =>
      -- a call of `createResponse` is on all that was received since the one before
      obtain ⟨env, query⟩ := call
      obtain ⟨size, rfl⟩ : ∃ size, e = .createResponse fd env query size := by
        cases e with
        | createResponse fd' env' query' size =>
          rw [callBy] at hcall
          split_ifs at hcall with hfd
          obtain ⟨rfl, rfl⟩ := Prod.mk.inj (Option.some.inj hcall)
          exact ⟨size, by rw [hfd]⟩
        | _ => exact absurd hcall (by simp [callBy])
      have hreceived := (inStep_of_path h hnew).received t [] env query size rfl
      rw [hreceived]
      simp [receivedBy]

end

end NHA.Threads
