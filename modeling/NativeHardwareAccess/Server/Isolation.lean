import NativeHardwareAccess.Server.Threads
import NativeHardwareAccess.Server.Reply
import NativeHardwareAccess.Server.ResponseLayout

/-! No client sees another client's data through the shared buffers.

    The two buffers are used for all connections and never cleared. Compare two runs of one visit that
    start with different contents. At every program point the runs agree on the part of the buffers
    that has been written in this visit (`Agree`): the bytes received so far, and then the response.
    Nothing else is read, so the two visits make the same calls with the same bytes. -/

namespace NHA.Threads
open Scheme Scheme.MD5 NHA.MessageBuilder
open NHA.Serving (Fd Errno Event maxSizeOfMessage spaceLeft spaceLeft_eq)

/-- What two visits share at a program point. -/
def Agree (p q : Process) : Pc → Prop
  | .receiving _ n => n ≤ maxSizeOfMessage ∧ slice p.recvBuffer 0 n = slice q.recvBuffer 0 n
  | .answering _ n => n ≤ maxSizeOfMessage ∧ slice p.recvBuffer 0 n = slice q.recvBuffer 0 n
  | .sending _ sendSize =>
    slice p.sendBuffer 0 sendSize.toNat = slice q.sendBuffer 0 sendSize.toNat
  | .closing _ => True
  | .visitHead _ => True
  | _ => False

/-- Two visits that started in `p₀` and `q₀` and have made the same calls. -/
structure Alike (p₀ q₀ p q : Process) : Prop where
  pc : q.pc = p.pc
  sockets : q.sockets = p.sockets
  agree : Agree p q p.pc
  trace : ∃ t, p.trace = p₀.trace ++ t ∧ q.trace = q₀.trace ++ t

/-- The calls of a visit: the flag is read before it and after it. -/
def InVisit (p : Process) (a : Action) : Prop := a ≠ .getValid ∧ Bounded p a

section
variable {md5 : List UInt8 → Digest} {p₀ q₀ p q p' q' : Process} {e : Event} {pc : Pc}

/-- The same call on both sides. -/
theorem Alike.next (h : Alike p₀ q₀ p q) (hp : p'.trace = p.trace) (hq : q'.trace = q.trace)
    (hs : q'.sockets = p'.sockets) (hagree : Agree p' q' pc) :
    Alike p₀ q₀ (p'.next e pc) (q'.next e pc) := by
  obtain ⟨t, htp, htq⟩ := h.trace
  refine ⟨rfl, hs, ?_, t ++ [e], ?_, ?_⟩
  · cases pc <;> exact hagree
  · rw [next_trace, hp, htp, List.append_assoc]
  · rw [next_trace, hq, htq, List.append_assoc]

/-- What was received is shared after the receive loop, whatever is decided there. -/
theorem agree_judge {i n : ℕ} (hn : n ≤ maxSizeOfMessage)
    (h : slice p.recvBuffer 0 n = slice q.recvBuffer 0 n) (recvResult : ℤ) (errno : Errno) :
    Agree p q (judge i n recvResult errno) := by
  rw [judge]
  split_ifs
  · trivial
  · trivial
  · trivial
  · exact ⟨hn, h⟩

/-- Received bytes are stored behind the shared ones. -/
theorem agree_recv {i n : ℕ} {data : List UInt8} (hn : n ≤ maxSizeOfMessage)
    (hdata : data.length ≤ spaceLeft n) (h : slice p.recvBuffer 0 n = slice q.recvBuffer 0 n) :
    Agree { p with recvBuffer := p.recvBuffer.stores n data }
      { q with recvBuffer := q.recvBuffer.stores n data }
      (if data = [] then .closing i else .receiving i (n + data.length)) := by
  rw [spaceLeft_eq hn] at hdata
  split_ifs
  · trivial
  · refine ⟨by omega, ?_⟩
    rw [Memory.slice_stores_append, Memory.slice_stores_append, h]

/-- The response depends on the received bytes only. -/
theorem respond_congr (md5 : List UInt8 → Digest) {n : ℕ} (env : Readings) (hn : n ≤ maxSizeOfMessage)
    (h : slice p.recvBuffer 0 n = slice q.recvBuffer 0 n) :
    (p.respond md5 env n).1 = (q.respond md5 env n).1 ∧
      responseOf (p.respond md5 env n) = responseOf (q.respond md5 env n) := by
  refine createResponse_congr md5 env p.sendBuffer q.sendBuffer _ ?_
  rw [received_ofNat _ hn, received_ofNat _ hn, h]

/-- Every byte of a response has been written by the call that returned its size. -/
theorem createResponse_written (env : Readings) (query responseBuffer : Memory) (querySize : Int32)
    (maxResponseSize : UInt32) (j : ℕ)
    (hj : (j : ℤ) < (createResponse md5 env query querySize responseBuffer maxResponseSize).1) :
    (createResponse md5 env query querySize responseBuffer maxResponseSize).2.touched j = true := by
  rcases createResponse_cases md5 env query querySize responseBuffer maxResponseSize with
    ⟨heq, -⟩ | ⟨-, -, -, hsize, hholds⟩
  · rw [heq] at hj
    omega
  · rw [hsize] at hj
    rw [hholds.touched, Protocol.length_message]
    omega

/-- Every step of one visit is possible in the other, and they stay alike. -/
theorem alike_step (p q : Process) (a : Action) (p' : Process) (h : Alike p₀ q₀ p q)
    (hvisit : InVisit p a) (hstep : step md5 p a = some p') :
    ∃ q', step md5 q a = some q' ∧ Alike p₀ q₀ p' q' := by
  have hpcs := h.pc
  have hss := h.sockets
  have hagree := h.agree
  obtain ⟨hvalid, hbounded⟩ := hvisit
  cases step_cases hstep with
  | callback time tsc =>
    refine ⟨{ q with timer := q.timer.callback time tsc }, rfl, hpcs, hss, ?_, h.trace⟩
    cases hpc : p.pc <;> rw [hpc] at hagree <;> exact hagree
  | serve | missing | leave | visit | leaveVisits => exact absurd rfl hvalid
  | recvError hpc hfd =>
    rename_i i n fd e
    rw [hpc] at hagree hpcs
    refine ⟨_, step_recvError_eq md5 e hpcs (by rw [hss, hfd]), h.next rfl rfl hss ?_⟩
    exact agree_judge hagree.1 hagree.2 _ _
  | recvOk hpc hfd =>
    rename_i i n fd data
    rw [Bounded, hpc] at hbounded
    rw [hpc] at hagree hpcs
    refine ⟨_, step_recvOk_eq md5 data hpcs (by rw [hss, hfd]), ?_⟩
    rw [afterRecv_bounded i _ hagree.1 hbounded, afterRecv_bounded i _ hagree.1 hbounded]
    exact h.next rfl rfl hss (agree_recv hagree.1 hbounded hagree.2)
  | respond hpc hfd =>
    rename_i i n fd env
    rw [hpc] at hagree hpcs
    obtain ⟨hsize, hresp⟩ := respond_congr md5 env hagree.1 hagree.2
    refine ⟨_, step_createResponse_eq md5 env hpcs (by rw [hss, hfd]), ?_⟩
    rw [← hagree.2, ← hsize]
    refine h.next rfl rfl hss ?_
    split_ifs with hrefused
    · trivial
    · rw [responseOf, responseOf, ← hsize] at hresp
      exact hresp
  | sendError hpc hfd =>
    rw [hpc] at hagree hpcs
    refine ⟨_, step_sendError_eq md5 _ hpcs (by rw [hss, hfd]), ?_⟩
    rw [hagree]
    exact h.next rfl rfl hss trivial
  | sendOk hpc hfd =>
    rw [hpc] at hagree hpcs
    refine ⟨_, step_sendOk_eq md5 _ hpcs (by rw [hss, hfd]), ?_⟩
    rw [hagree]
    refine h.next rfl rfl hss ?_
    split_ifs <;> trivial
  | closeOne hpc hfd =>
    rw [hpc] at hpcs
    refine ⟨_, step_closeOne_eq md5 hpcs (by rw [hss, hfd]), ?_⟩
    refine h.next rfl rfl ?_ trivial
    exact congrArg (List.eraseIdx · _) hss
  | acceptNone hpc | acceptAborted hpc | acceptFatal hpc | acceptFull hpc | acceptOk hpc
  | fcntlError hpc | fcntlOk hpc | reject hpc | stopOne hpc | pollError hpc | pollOk hpc =>
    rw [hpc] at hagree
    exact absurd hagree (by simp [Agree])

end

/-- Actions that do not read the flag, with bounded receives. -/
theorem along_inVisit {md5 : List UInt8 → Digest} {p : Process} {actions : List Action}
    (hvisit : ∀ a ∈ actions, a ≠ .getValid) (hbounded : Machine.Along (step md5) Bounded p actions) :
    Machine.Along (step md5) InVisit p actions := by
  induction actions generalizing p with
  | nil => trivial
  | cons a actions ih =>
    rw [List.forall_mem_cons] at hvisit
    exact ⟨⟨hvisit.1, hbounded.1⟩, fun s hs => ih hvisit.2 (hbounded.2 s hs)⟩

/-- CORRECT: no client sees another client's data. Two visits of a connection that start with
    different buffers and get the same results from their calls make the same calls with the same
    bytes and leave the same connections; `createResponse` depends on no byte behind those received,
    and has written every byte of the size it returns. -/
theorem visit_isolated (md5 : List UInt8 → Digest) :
    (∀ (p q p' : Process) (i : ℕ) (actions : List Action), p.pc = .receiving i 0 →
      q.pc = .receiving i 0 → q.sockets = p.sockets → (∀ a ∈ actions, a ≠ .getValid) →
      Machine.Along (step md5) Bounded p actions → Machine.run (step md5) p actions = some p' →
      ∃ q' t, Machine.run (step md5) q actions = some q' ∧ q'.pc = p'.pc ∧
        q'.sockets = p'.sockets ∧ p'.trace = p.trace ++ t ∧ q'.trace = q.trace ++ t) ∧
    (∀ (env : Readings) (query query' sendBuffer sendBuffer' : Memory) (recvSize : ℕ),
      recvSize ≤ maxSizeOfMessage → slice query 0 recvSize = slice query' 0 recvSize →
      let r := createResponse md5 env query (Int32.ofNat recvSize) sendBuffer
        (UInt32.ofNat maxSizeOfMessage)
      let r' := createResponse md5 env query' (Int32.ofNat recvSize) sendBuffer'
        (UInt32.ofNat maxSizeOfMessage)
      r.1 = r'.1 ∧ slice r.2.bytes 0 r.1.toNat = slice r'.2.bytes 0 r'.1.toNat ∧
        ∀ j : ℕ, j < r.1 → r.2.touched j = true) := by
  constructor
  · intro p q p' i actions hp hq hs hvisit hbounded hrun
    have hstart : Alike p q p q := by
      refine ⟨by rw [hp, hq], hs, ?_, [], by simp, by simp⟩
      rw [hp]
      exact ⟨Nat.zero_le _, rfl⟩
    have hin : Machine.Along (step md5) InVisit p actions := along_inVisit hvisit hbounded
    obtain ⟨q', hq', halike⟩ := Machine.run_related alike_step actions hstart hin hrun
    obtain ⟨t, htp, htq⟩ := halike.trace
    exact ⟨q', t, hq', halike.pc, halike.sockets, htp, htq⟩
  · intro env query query' sendBuffer sendBuffer' recvSize hsize hquery
    have hrec : received query (Int32.ofNat recvSize) = received query' (Int32.ofNat recvSize) := by
      rw [received_ofNat _ hsize, received_ofNat _ hsize, hquery]
    obtain ⟨hone, htwo⟩ := createResponse_congr md5 env sendBuffer sendBuffer'
      (UInt32.ofNat maxSizeOfMessage) hrec
    exact ⟨hone, htwo, fun j hj => createResponse_written env _ _ _ _ j hj⟩

/-- A visit is about to begin; both buffers are full of a byte left behind by others. -/
def visitStart (b : UInt8) : Process :=
  ⟨⟨true, 1 / 10, 500, 0, 5, 7⟩, .receiving 1 0, 2, [3, 4], fun _ => b, fun _ => b, .eagain, []⟩

/-- The client asks for the device ID and gets it. -/
def deviceIDVisit : List Action :=
  [.recv (.ok deviceIDQuery), .recv (.error .eagain), .createResponse sampleReadings, .send (.ok 56)]

/-- Whatever was left behind, the same bytes are sent. -/
theorem deviceIDVisit_isolated : ∃ p' q' bytes,
    Machine.run (step md5) (visitStart 0) deviceIDVisit = some p' ∧
    Machine.run (step md5) (visitStart 0xff) deviceIDVisit = some q' ∧
    .send 4 bytes (.ok 56) ∈ p'.trace ∧ .send 4 bytes (.ok 56) ∈ q'.trace ∧
    p'.pc = .visitHead 2 ∧ q'.pc = .visitHead 2 := by
  -- the state in which the answer is sent
  have hrun : (Machine.run (step md5) (visitStart 0) deviceIDVisit.dropLast).any (fun p =>
      p.pc = .sending 1 56 ∧ p.sockets = [3, 4]) = true := by decide +kernel
  obtain ⟨p, hp, hend⟩ := (Option.any_eq_true _ _).mp hrun
  obtain ⟨hpc, hsockets⟩ := of_decide_eq_true hend
  have hp' : Machine.run (step md5) (visitStart 0) deviceIDVisit =
      some (p.next (.send 4 (slice p.sendBuffer 0 56) (.ok 56)) (.visitHead 2)) := by
    have hlast : deviceIDVisit = deviceIDVisit.dropLast ++ [.send (.ok 56)] := rfl
    rw [hlast, Machine.run_concat, hp]
    exact step_sendOk_eq md5 56 hpc (by rw [hsockets]; rfl)
  obtain ⟨q', t, hq', hpc', -, htp, htq⟩ := (visit_isolated md5).1 (visitStart 0) (visitStart 0xff)
    _ 1 deviceIDVisit rfl rfl rfl (by simp [deviceIDVisit]) (by decide +kernel) hp'
  rw [visitStart, List.nil_append] at htp htq
  refine ⟨_, q', slice p.sendBuffer 0 56, hp', hq', by simp, ?_, rfl, hpc'⟩
  rw [htq, ← htp]
  simp

end NHA.Threads
