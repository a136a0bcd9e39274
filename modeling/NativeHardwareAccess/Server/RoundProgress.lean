import NativeHardwareAccess.Server.Exchange
import NativeHardwareAccess.Server.TimeSource

/-! No client keeps the server from the others.

    The main thread waits in `poll` and nowhere else. Between two calls of it, every connection gets one
    visit, and a visit takes a bounded number of calls whatever the client sends: at most one `recv`
    for each byte of the buffer, one more that fails, `createResponse`, `send` and `close`. The calls
    still to go before `poll` are therefore a number, with V = 61445 calls for a visit and k connections:

        loopHead kV + 3 ─▶ accepting kV + 2 ─▶ visitHead i (k - i)V + 1 ─▶ … ─▶ polling 0

    Every call takes one off; an `accept` may add the visit of a new connection. And the iterator never
    points behind the list, so each of these calls can be made, whatever it returns. -/

namespace NHA.Threads
open Scheme Scheme.MD5 NHA.MessageBuilder
open NHA.Serving (Fd Errno Event maxSizeOfMessage spaceLeft spaceLeft_eq)

/-! ### The iterator -/

/-- The position of the iterator is one of the list, and there is a socket of it left to close. -/
def Pc.Points (sockets : List Fd) : Pc → Prop
  | .receiving i _ | .answering i _ | .sending i _ | .closing i => i < sockets.length
  | .stopping rest => rest ≠ [] ∧ rest.length ≤ sockets.length
  | _ => True

/-- The sizes fit the buffer and the iterator is valid. -/
structure InPlace (p : Process) : Prop where
  measured : Measured p
  points : p.pc.Points p.sockets

/-- The calls that the main thread can make where it stands, each with every outcome. -/
def Pc.Makes : Pc → Action → Prop
  | .loopHead, .getValid | .visitHead _, .getValid => True
  | .accepting, .accept _ => True
  | .accepted _, .fcntl _ => True
  | .rejecting _, .close | .closing _, .close | .stopping _, .close => True
  | .receiving _ _, .recv _ => True
  | .answering _ _, .createResponse _ => True
  | .sending _ _, .send _ => True
  | .polling, .poll _ => True
  | _, _ => False

section
variable {md5 : List UInt8 → Digest} {p p' : Process}

theorem points_judge {sockets : List Fd} {i : ℕ} (n : ℕ) (recvResult : ℤ) (errno : Errno)
    (hi : i < sockets.length) : (judge i n recvResult errno).Points sockets := by
  rw [judge]
  split_ifs
  · exact hi
  · exact hi
  · trivial
  · exact hi

theorem points_afterRecv {sockets : List Fd} {i : ℕ} (n : ℕ) (recvResult : ℤ) (errno : Errno)
    (hi : i < sockets.length) : (afterRecv i n recvResult errno).Points sockets := by
  rw [afterRecv]
  split_ifs
  · exact hi
  · exact points_judge n recvResult errno hi

theorem points_stop {rest : List Fd} (h : rest.length ≤ p.sockets.length) :
    (p.stop rest).pc.Points (p.stop rest).sockets := by
  cases rest with
  | nil => trivial
  | cons fd rest => exact ⟨List.cons_ne_nil fd rest, h⟩

/-- Every step leaves the iterator in its place. -/
theorem inPlace_step (p : Process) (a : Action) (p' : Process) (h : InPlace p)
    (hbounded : Bounded p a) (hstep : step md5 p a = some p') : InPlace p' := by
  refine ⟨measured_step p a p' h.measured hbounded hstep, ?_⟩
  have hpoints := h.points
  cases step_cases hstep with
  | callback => exact hpoints
  | leave => exact points_stop (le_refl _)
  | stopOne hpc =>
    rw [hpc] at hpoints
    exact points_stop (Nat.le_of_succ_le hpoints.2)
  | visit _ _ hi => exact hi
  | recvError hpc =>
    rw [hpc] at hpoints
    rw [next_pc, next_sockets]
    exact points_judge _ _ _ hpoints
  | recvOk hpc =>
    rw [hpc] at hpoints
    rw [next_pc, next_sockets]
    exact points_afterRecv _ _ _ hpoints
  | respond hpc =>
    rw [hpc] at hpoints
    rw [next_pc]
    split_ifs
    · exact hpoints
    · exact hpoints
  | sendError hpc =>
    rw [hpc] at hpoints
    exact hpoints
  | sendOk hpc =>
    rw [hpc] at hpoints
    rw [next_pc]
    split_ifs
    · trivial
    · exact hpoints
  | _ => trivial

/-- Where the iterator is in its place, every call of the main thread can be made. -/
theorem step_isSome {a : Action} (h : p.pc.Points p.sockets) (hmakes : p.pc.Makes a) :
    (step md5 p a).isSome = true := by
  have hget : ∀ {i}, i < p.sockets.length → p.sockets[i]? = some (p.sockets.getD i 0) := by
    intro i hi
    rw [List.getD_eq_getElem?_getD, List.getElem?_eq_getElem hi, Option.getD_some]
  cases a with
  | callback time tsc => rfl
  | getValid =>
    cases hpc : p.pc with
    | loopHead =>
      simp only [step, hpc]
      split_ifs <;> rfl
    | visitHead i =>
      simp only [step, hpc]
      rfl
    | _ => simp [hpc, Pc.Makes] at hmakes
  | accept result =>
    cases hpc : p.pc with
    | accepting =>
      cases result with
      | error e =>
        simp only [step, hpc]
        split_ifs <;> rfl
      | ok fd =>
        simp only [step, hpc]
        rfl
    | _ => simp [hpc, Pc.Makes] at hmakes
  | fcntl result =>
    cases hpc : p.pc with
    | accepted fd => cases result <;> simp [step, hpc]
    | _ => simp [hpc, Pc.Makes] at hmakes
  | recv result =>
    cases hpc : p.pc with
    | receiving i n =>
      rw [hpc] at h
      cases result with
      | error e =>
        rw [step_recvError_eq md5 e hpc (hget h)]
        rfl
      | ok data =>
        rw [step_recvOk_eq md5 data hpc (hget h)]
        rfl
    | _ => simp [hpc, Pc.Makes] at hmakes
  | createResponse env =>
    cases hpc : p.pc with
    | answering i n =>
      rw [hpc] at h
      rw [step_createResponse_eq md5 env hpc (hget h)]
      rfl
    | _ => simp [hpc, Pc.Makes] at hmakes
  | send result =>
    cases hpc : p.pc with
    | sending i sendSize =>
      rw [hpc] at h
      cases result with
      | error e =>
        rw [step_sendError_eq md5 e hpc (hget h)]
        rfl
      | ok n =>
        rw [step_sendOk_eq md5 n hpc (hget h)]
        rfl
    | _ => simp [hpc, Pc.Makes] at hmakes
  | close =>
    cases hpc : p.pc with
    | rejecting fd => simp [step, hpc]
    | closing i =>
      rw [hpc] at h
      rw [step_closeOne_eq md5 hpc (hget h)]
      rfl
    | stopping rest =>
      rw [hpc] at h
      obtain ⟨fd, rest, rfl⟩ := List.exists_cons_of_ne_nil h.1
      simp [step, hpc]
    | _ => simp [hpc, Pc.Makes] at hmakes
  | poll result =>
    cases hpc : p.pc with
    | polling => cases result <;> simp [step, hpc]
    | _ => simp [hpc, Pc.Makes] at hmakes

end

/-! ### The calls still to go -/

/-- The calls of one visit: from the check of the flag to the `close`. -/
def visitCalls : ℕ := maxSizeOfMessage + 5

/-- The calls that the main thread makes at most before the next `poll`. -/
def Process.toGo (p : Process) : ℕ :=
  match p.pc with
  | .loopHead => p.sockets.length * visitCalls + 3
  | .accepting => p.sockets.length * visitCalls + 2
  | .accepted _ => (p.sockets.length + 1) * visitCalls + 3
  | .rejecting _ => p.sockets.length * visitCalls + 3
  | .visitHead i => (p.sockets.length - i) * visitCalls + 1
  | .receiving i recvSize =>
    (p.sockets.length - (i + 1)) * visitCalls + (maxSizeOfMessage - recvSize) + 5
  | .answering i _ => (p.sockets.length - (i + 1)) * visitCalls + 4
  | .sending i _ => (p.sockets.length - (i + 1)) * visitCalls + 3
  | .closing i => (p.sockets.length - (i + 1)) * visitCalls + 2
  | .stopping rest => rest.length
  | .polling | .stopped | .exited => 0

/-- What the next `poll` is put off by: nothing but a call of `accept`, for the visit of a connection. -/
def Action.gain : Action → ℕ
  | .accept _ => visitCalls + 2
  | _ => 0

/-- A step of the main thread. -/
def Action.cost : Action → ℕ
  | .callback _ _ => 0
  | _ => 1

section
variable {md5 : List UInt8 → Digest} {p p' : Process}

theorem toGo_stop (p : Process) (rest : List Fd) : (p.stop rest).toGo = rest.length := by
  cases rest with
  | nil => rfl
  | cons fd rest => rfl

/-- A visit that goes on has fewer calls to go than before its `recv`. -/
theorem toGo_judge {q : Process} {e : Event} (i n : ℕ) (recvResult : ℤ) (errno : Errno) :
    (q.next e (judge i n recvResult errno)).toGo ≤ (q.sockets.length - (i + 1)) * visitCalls + 4 := by
  rw [judge]
  split_ifs
  · exact Nat.add_le_add_left (by omega) _
  · exact Nat.add_le_add_left (by omega) _
  · exact Nat.add_le_add_left (by omega) _
  · exact le_refl _

/-- Every call of the main thread but `poll` takes one off, and only an `accept` adds something. -/
theorem toGo_step (p : Process) (a : Action) (p' : Process) (h : InPlace p)
    (hcond : Bounded p a ∧ ∀ result, a ≠ .poll result) (hstep : step md5 p a = some p') :
    InPlace p' ∧ a.cost + p'.toGo ≤ p.toGo + a.gain := by
  refine ⟨inPlace_step p a p' h hcond.1 hstep, ?_⟩
  have hpoints := h.points
  have hsizes := h.measured.pc
  cases step_cases hstep with
  | callback => exact (Nat.zero_add _).le
  | serve hpc =>
    simp only [Action.cost, Action.gain, Process.toGo, next_pc, next_sockets, hpc]
    omega
  | missing hpc =>
    simp only [Action.cost, Action.gain, Process.toGo, next_pc, hpc]
    omega
  | leave hpc =>
    have hle : p.sockets.length ≤ p.sockets.length * visitCalls := Nat.le_mul_of_pos_right _ (by decide)
    rw [toGo_stop]
    simp only [Action.cost, Action.gain, Process.toGo, hpc]
    omega
  | @visit i hpc _ hi =>
    obtain ⟨k, hk⟩ : ∃ k, p.sockets.length - i = k + 1 := ⟨p.sockets.length - (i + 1), by omega⟩
    have hnext : p.sockets.length - (i + 1) = k := by omega
    simp only [Action.cost, Action.gain, Process.toGo, next_pc, next_sockets, hpc, hk, hnext,
      Nat.succ_mul, visitCalls]
    omega
  | leaveVisits hpc =>
    simp only [Action.cost, Action.gain, Process.toGo, next_pc, hpc]
    omega
  | acceptNone hpc hs =>
    have hle : (p.sockets.length - 1) * visitCalls ≤ p.sockets.length * visitCalls :=
      Nat.mul_le_mul_right _ (Nat.sub_le _ _)
    simp only [Action.cost, Action.gain, Process.toGo, next_pc, next_sockets, hpc]
    omega
  | acceptAborted hpc =>
    simp only [Action.cost, Action.gain, Process.toGo, next_pc, next_sockets, hpc]
    omega
  | acceptFatal hpc =>
    simp only [Action.cost, Action.gain, Process.toGo, next_pc, hpc]
    omega
  | acceptFull hpc =>
    simp only [Action.cost, Action.gain, Process.toGo, next_pc, next_sockets, hpc]
    omega
  | acceptOk hpc =>
    simp only [Action.cost, Action.gain, Process.toGo, next_pc, next_sockets, hpc, Nat.succ_mul]
    omega
  | fcntlError hpc =>
    have hvisit : 1 ≤ visitCalls := by decide
    simp only [Action.cost, Action.gain, Process.toGo, next_pc, next_sockets, hpc, Nat.succ_mul]
    omega
  | fcntlOk hpc =>
    simp only [Action.cost, Action.gain, Process.toGo, next_pc, next_sockets, hpc, List.length_append,
      List.length_singleton]
    omega
  | recvError hpc =>
    rename_i i n fd e hfd
    have hle := toGo_judge (q := { p with errno := e }) (e := .recv fd n (spaceLeft n) (.error e)) i n
      (-1) e
    simp only [Action.cost, Action.gain, Process.toGo, hpc] at hle ⊢
    omega
  | recvOk hpc =>
    rename_i i n fd data hfd
    rw [hpc] at hsizes
    have hn : n ≤ maxSizeOfMessage := hsizes
    have hdata : data.length ≤ spaceLeft n := by
      have hroom := hcond.1
      rw [Bounded, hpc] at hroom
      exact hroom
    rw [afterRecv_bounded i p.errno hn hdata]
    rw [spaceLeft_eq hn] at hdata
    split_ifs with hnil
    · simp only [Action.cost, Action.gain, Process.toGo, next_pc, next_sockets, hpc]
      omega
    · have hpos := List.length_pos_of_ne_nil hnil
      simp only [Action.cost, Action.gain, Process.toGo, next_pc, next_sockets, hpc]
      omega
  | respond hpc =>
    split_ifs
    · simp only [Action.cost, Action.gain, Process.toGo, next_pc, next_sockets, hpc]
      omega
    · simp only [Action.cost, Action.gain, Process.toGo, next_pc, next_sockets, hpc]
      omega
  | sendError hpc =>
    simp only [Action.cost, Action.gain, Process.toGo, next_pc, next_sockets, hpc]
    omega
  | sendOk hpc =>
    split_ifs
    · simp only [Action.cost, Action.gain, Process.toGo, next_pc, next_sockets, hpc]
      omega
    · simp only [Action.cost, Action.gain, Process.toGo, next_pc, next_sockets, hpc]
      omega
  | reject hpc =>
    simp only [Action.cost, Action.gain, Process.toGo, next_pc, next_sockets, hpc]
    omega
  | closeOne hpc =>
    rename_i i fd hfd
    rw [hpc] at hpoints
    have hi : i < p.sockets.length := hpoints
    have hlength : (p.sockets.eraseIdx i).length - i = p.sockets.length - (i + 1) := by
      rw [List.length_eraseIdx_of_lt hi]
      omega
    simp only [Action.cost, Action.gain, Process.toGo, next_pc, next_sockets, hpc, hlength]
    omega
  | stopOne hpc =>
    rw [toGo_stop]
    simp only [Action.cost, Action.gain, Process.toGo, hpc, List.length_cons]
    omega
  | pollError => exact absurd rfl (hcond.2 _)
  | pollOk => exact absurd rfl (hcond.2 _)

/-- Nothing is to go where the main thread waits, sleeps or has ended, and only there. -/
theorem toGo_eq_zero_iff (h : p.pc.Points p.sockets) :
    p.toGo = 0 ↔ p.pc = .polling ∨ p.pc = .stopped ∨ p.pc = .exited := by
  cases hpc : p.pc with
  | stopping rest =>
    rw [hpc] at h
    have hne : rest ≠ [] := h.1
    simpa [Process.toGo, hpc] using hne
  | _ => simp [Process.toGo, hpc]

/-- The calls to go are those of one visit for each connection, one that is being accepted included,
    and three. -/
theorem toGo_le (h : p.pc.Points p.sockets) :
    p.toGo ≤ (p.sockets.length + 1) * visitCalls + 3 := by
  have hvisit : visitCalls = maxSizeOfMessage + 5 := rfl
  have hleft : ∀ i, (p.sockets.length - i) * visitCalls ≤ p.sockets.length * visitCalls :=
    fun i => Nat.mul_le_mul_right _ (Nat.sub_le _ _)
  rw [Nat.succ_mul]
  cases hpc : p.pc with
  | visitHead i =>
    have hle := hleft i
    simp only [Process.toGo, hpc]
    omega
  | receiving i recvSize =>
    have hle := hleft (i + 1)
    simp only [Process.toGo, hpc]
    omega
  | answering i recvSize =>
    have hle := hleft (i + 1)
    simp only [Process.toGo, hpc]
    omega
  | sending i sendSize =>
    have hle := hleft (i + 1)
    simp only [Process.toGo, hpc]
    omega
  | closing i =>
    have hle := hleft (i + 1)
    simp only [Process.toGo, hpc]
    omega
  | stopping rest =>
    rw [hpc] at h
    have hle : rest.length ≤ p.sockets.length := h.2
    have hmul : p.sockets.length ≤ p.sockets.length * visitCalls :=
      Nat.le_mul_of_pos_right _ (by decide)
    simp only [Process.toGo, hpc]
    omega
  | _ =>
    simp only [Process.toGo, hpc, Nat.succ_mul]
    omega

end

/-- The calls of `accept`. -/
def accepts (actions : List Action) : ℕ :=
  actions.countP (fun
    | .accept _ => true
    | _ => false)

theorem sum_cost (actions : List Action) : (actions.map Action.cost).sum = mainSteps actions := by
  induction actions with
  | nil => rfl
  | cons a actions ih =>
    rw [List.map_cons, List.sum_cons, ih, mainSteps_cons]
    cases a <;> rfl

theorem sum_gain (actions : List Action) :
    (actions.map Action.gain).sum = accepts actions * (visitCalls + 2) := by
  induction actions with
  | nil => simp [accepts]
  | cons a actions ih =>
    rw [List.map_cons, List.sum_cons, ih, accepts, accepts, List.countP_cons]
    cases a with
    | accept result =>
      simp only [Action.gain, if_true, Nat.succ_mul]
      omega
    | _ => simp [Action.gain]

/-- CORRECT: no client keeps the server from the others. In every state that a run leads to, each call
    the main thread stands at can be made whatever it returns, so the iterator never points behind the
    list; and from there, whatever clients send and however the system cuts it, the main thread makes
    at most `toGo` calls, and 61447 more for each call of `accept` among them, before it is back in
    `poll` or at its end. These are at most 61445 for each connection, one that is being accepted
    included, and three. -/
theorem rounds_end (md5 : List UInt8 → Digest) (timer : MonotonicTimer.Timer)
    (maxConnections : Int32) (sockets : List Fd) (recvBuffer sendBuffer : Memory) (errno : Errno)
    (actions : List Action) (p : Process)
    (hbounded : Machine.Along (step md5) Bounded
      (Process.init timer maxConnections sockets recvBuffer sendBuffer errno) actions)
    (hrun : Machine.run (step md5)
      (Process.init timer maxConnections sockets recvBuffer sendBuffer errno) actions = some p) :
    (∀ a, p.pc.Makes a → (step md5 p a).isSome = true) ∧
    (p.toGo = 0 ↔ p.pc = .polling ∨ p.pc = .stopped ∨ p.pc = .exited) ∧
    p.toGo ≤ (p.sockets.length + 1) * 61445 + 3 ∧
    (∀ round p', Machine.Along (step md5) Bounded p round → (∀ result, .poll result ∉ round) →
      Machine.run (step md5) p round = some p' →
      mainSteps round + p'.toGo ≤ p.toGo + accepts round * (visitCalls + 2)) := by
  have hinit : InPlace (Process.init timer maxConnections sockets recvBuffer sendBuffer errno) :=
    ⟨⟨trivial, by simp [Process.init]⟩, trivial⟩
  have hplace := Machine.run_invariant inPlace_step actions hinit hbounded hrun
  refine ⟨fun a hmakes => step_isSome hplace.points hmakes, toGo_eq_zero_iff hplace.points,
    toGo_le hplace.points, ?_⟩
  intro round p' hround hnopoll hrun'
  have hother : ∀ a ∈ round, ∀ result, a ≠ .poll result := by
    rintro a ha result rfl
    exact hnopoll result ha
  have hcond := Machine.along_and round hround hother
  have hbudget := Machine.run_budget Process.toGo Action.cost Action.gain toGo_step round hplace hcond
    hrun'
  rwa [sum_cost, sum_gain] at hbudget

/-- One client sends its query byte by byte, the other one nothing. -/
def slowRound : List Action :=
  [.getValid, .accept (.ok 5), .fcntl (.ok ()), .accept (.ok 6), .fcntl (.ok ()),
   .accept (.error .eagain), .getValid, .recv (.ok [0x2a]), .callback 9 9, .recv (.ok [0x00]),
   .recv (.error .eagain), .createResponse sampleReadings, .close, .getValid, .recv (.error .eagain),
   .getValid]

theorem slowRound_ends : ∃ p, Machine.run (step MD5.md5) sampleInit slowRound = some p ∧
    p.pc = .polling ∧ mainSteps slowRound = 15 ∧
    mainSteps slowRound + p.toGo ≤ sampleInit.toGo + accepts slowRound * (visitCalls + 2) ∧
    sampleInit.toGo ≤ 122893 := by
  have hrun : (Machine.run (step MD5.md5) sampleInit slowRound).any (fun p => p.pc = .polling) = true := by
    decide +kernel
  obtain ⟨p, hp, hend⟩ := (Option.any_eq_true _ _).mp hrun
  obtain ⟨-, -, hexplicit, hround⟩ := rounds_end MD5.md5 _ 2 [3] _ _ _ [] sampleInit trivial rfl
  refine ⟨p, hp, of_decide_eq_true hend, by decide, ?_, hexplicit⟩
  exact hround slowRound p (by decide +kernel) (by simp [slowRound]) hp

end NHA.Threads
