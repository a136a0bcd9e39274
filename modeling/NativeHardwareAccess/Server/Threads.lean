import NativeHardwareAccess.Schemes.Machine
import NativeHardwareAccess.Server.MonotonicTimer
import NativeHardwareAccess.Server.Responder

/-! The two threads of the server, call by call.

    The main thread runs `Responder::start`; the timer thread runs `MonotonicTimer::callback` at any
    time in between. Every call of the main thread (a read of the valid flag, a system call or
    `createResponse`) is one step, and the program point `Pc` is the call it makes next:

        loopHead ─valid─▶ accepting ⇄ accepted / rejecting
          ▲  │                │ no more clients
          │  │                ▼
          │  │           visitHead 1 ─▶ receiving ─▶ answering ─▶ sending ─▶ visitHead (i + 1)
          │  │                │             └───────────┴────────────┴────▶ closing ─▶ visitHead i
          │  │                ▼ no more connections, or not valid
          │  │             polling
          │  │                │
          └──┼────────────────┘
             └─not valid─▶ stopping ─▶ stopped

    The outcome of a call is part of the action, so a list of actions is one interleaving with one
    choice of all outcomes. The steps are those of `Responder`'s functions, cut at their calls. -/

namespace NHA.Threads
open Scheme Scheme.MD5 NHA.MessageBuilder
open NHA.Serving (Fd Errno Event maxSizeOfMessage spaceLeft spaceLeft_eq)

/-- The call the main thread makes next; `i` is the position of the iterator. -/
inductive Pc where
  | loopHead
  | accepting
  | accepted (connectionSocket : Fd)
  | rejecting (connectionSocket : Fd)
  | visitHead (i : ℕ)
  | receiving (i recvSize : ℕ)
  | answering (i recvSize : ℕ)
  | sending (i : ℕ) (sendSize : ℤ)
  | closing (i : ℕ)
  | polling
  /-- After the serving loop: these sockets are still to be closed. -/
  | stopping (rest : List Fd)
  /-- The endless sleep. -/
  | stopped
  /-- The process has called `exit`. -/
  | exited
  deriving DecidableEq

structure Process where
  timer : MonotonicTimer.Timer
  pc : Pc
  maxConnections : Int32
  sockets : List Fd
  recvBuffer : Memory
  sendBuffer : Memory
  errno : Errno
  trace : List Event

/-- One step of one thread, with the outcome of the call. -/
inductive Action where
  | callback (time tsc : UInt64)
  | getValid
  | accept (result : Except Errno Fd)
  | fcntl (result : Except Errno Unit)
  | recv (result : Except Errno (List UInt8))
  | createResponse (env : Readings)
  | send (result : Except Errno ℕ)
  | close
  | poll (result : Except Errno Unit)

/-! ### Setting up -/

/-- What the calls of `setupServer` return. -/
structure SetupCalls where
  getaddrinfo : Bool
  /-- The list of addresses is not null. -/
  addresses : Bool
  socket : Option Fd
  fcntl : Bool
  setsockopt : Bool
  bind : Bool
  listen : Bool

/-- What `setupServer` acquires and gives back. -/
inductive SetupEvent where
  | socket (fd : Fd)
  | close (fd : Fd)
  | freeaddrinfo
  deriving DecidableEq

/-- `setupServer`: whether it succeeds, the list of sockets after it, and what it did. -/
def setupServer (calls : SetupCalls) : Bool × List Fd × List SetupEvent :=
  if !calls.getaddrinfo then (false, [], [])
  else if !calls.addresses then (false, [], [])
  else
    match calls.socket with
    | none => (false, [], [.freeaddrinfo])
    | some serverSocket =>
      if !calls.fcntl then
        (false, [], [.socket serverSocket, .close serverSocket, .freeaddrinfo])
      -- a failing `setsockopt` is only logged
      else if !calls.bind then
        (false, [], [.socket serverSocket, .close serverSocket, .freeaddrinfo])
      else if !calls.listen then
        (false, [], [.socket serverSocket, .close serverSocket, .freeaddrinfo])
      else (true, [serverSocket], [.socket serverSocket, .freeaddrinfo])

/-- The process when `start` is entered. -/
def Process.init (timer : MonotonicTimer.Timer) (maxConnections : Int32) (sockets : List Fd)
    (recvBuffer sendBuffer : Memory) (errno : Errno) : Process :=
  ⟨timer, .loopHead, maxConnections, sockets, recvBuffer, sendBuffer, errno, []⟩

/-! ### The main thread -/

/-- Record a call and go on to the next. -/
def Process.next (p : Process) (e : Event) (pc : Pc) : Process :=
  { p with trace := p.trace ++ [e], pc := pc }

/-- The `for` loop after the serving loop, with these sockets left. -/
def Process.stop (p : Process) : List Fd → Process
  | [] => { p with pc := .stopped, sockets := [] }
  | fd :: rest => { p with pc := .stopping (fd :: rest) }

/-- The limit of `acceptNewClients`: `size_t` is compared with an `int`. -/
def Process.full (p : Process) : Prop :=
  p.sockets.length > (p.maxConnections.toInt % 2 ^ 64).toNat

instance (p : Process) : Decidable p.full := inferInstanceAs (Decidable (_ > _))

/-- What is tested after the receive loop. -/
def judge (i recvSize : ℕ) (recvResult : ℤ) (errno : Errno) : Pc :=
  if recvResult = 0 then .closing i
  else if errno ≠ .eagain ∧ errno ≠ .ewouldblock then .closing i
  else if recvSize = 0 then .visitHead (i + 1)
  else .answering i recvSize

/-- After a `recv`: once more around the receive loop, or out of it. -/
def afterRecv (i recvSize : ℕ) (recvResult : ℤ) (errno : Errno) : Pc :=
  if recvResult > 0 ∧ recvSize < maxSizeOfMessage then .receiving i (recvSize + recvResult.toNat)
  else judge i recvSize recvResult errno

/-- One step; `none` when the main thread stands at another call. -/
def step (md5 : List UInt8 → Digest) (p : Process) : Action → Option Process
  | .callback time tsc => some { p with timer := p.timer.callback time tsc }
  | .getValid =>
    match p.pc with
    | .loopHead =>
      if p.timer.valid = true then
        some (p.next (.getValid true) (if p.sockets = [] then .exited else .accepting))
      else some ((p.next (.getValid false) .loopHead).stop p.sockets)
    | .visitHead i =>
      some (p.next (.getValid p.timer.valid)
        (if p.timer.valid = true ∧ i < p.sockets.length then .receiving i 0 else .polling))
    | _ => none
  | .accept result =>
    match p.pc with
    | .accepting =>
      match result with
      | .error e =>
        let p := { p with errno := e }
        if e = .eagain ∨ e = .ewouldblock then
          some (p.next (.accept result) (if p.sockets = [] then .exited else .visitHead 1))
        else if e = .econnaborted then some (p.next (.accept result) .accepting)
        else some (p.next (.accept result) .exited)
      | .ok fd =>
        some (p.next (.accept result) (if p.full then .rejecting fd else .accepted fd))
    | _ => none
  | .fcntl result =>
    match p.pc with
    | .accepted fd =>
      match result with
      | .error e => some ({ p with errno := e }.next (.fcntl fd result) (.rejecting fd))
      | .ok _ => some ({ p with sockets := p.sockets ++ [fd] }.next (.fcntl fd result) .accepting)
    | _ => none
  | .recv result =>
    match p.pc with
    | .receiving i recvSize =>
      match p.sockets[i]? with
      | none => none
      | some fd =>
        let e := Event.recv fd recvSize (spaceLeft recvSize) result
        match result with
        | .error errno =>
          some ({ p with errno := errno }.next e (afterRecv i recvSize (-1) errno))
        | .ok data =>
          some ({ p with recvBuffer := p.recvBuffer.stores recvSize data }.next e
            (afterRecv i recvSize data.length p.errno))
    | _ => none
  | .createResponse env =>
    match p.pc with
    | .answering i recvSize =>
      match p.sockets[i]? with
      | none => none
      | some fd =>
        let r := MessageBuilder.createResponse md5 env p.recvBuffer (Int32.ofNat recvSize)
          p.sendBuffer (UInt32.ofNat maxSizeOfMessage)
        some ({ p with sendBuffer := r.2.bytes }.next
          (.createResponse fd env (slice p.recvBuffer 0 recvSize) r.1)
          (if r.1 = -1 then .closing i else .sending i r.1))
    | _ => none
  | .send result =>
    match p.pc with
    | .sending i sendSize =>
      match p.sockets[i]? with
      | none => none
      | some fd =>
        let e := Event.send fd (slice p.sendBuffer 0 sendSize.toNat) result
        match result with
        | .error errno => some ({ p with errno := errno }.next e (.closing i))
        | .ok n => some (p.next e (if (n : ℤ) = sendSize then .visitHead (i + 1) else .closing i))
    | _ => none
  | .close =>
    match p.pc with
    | .rejecting fd => some (p.next (.close fd) .accepting)
    | .closing i =>
      match p.sockets[i]? with
      | none => none
      | some fd =>
        some ({ p with sockets := p.sockets.eraseIdx i }.next (.close fd) (.visitHead i))
    | .stopping (fd :: rest) => some ((p.next (.close fd) .loopHead).stop rest)
    | _ => none
  | .poll result =>
    match p.pc with
    | .polling =>
      match result with
      | .error e => some ({ p with errno := e }.next (.poll result) .exited)
      | .ok _ => some (p.next (.poll result) .loopHead)
    | _ => none

/-! ### What a step can do -/

/-- The state after `createResponse` on the received bytes. -/
def Process.respond (md5 : List UInt8 → Digest) (p : Process) (env : Readings) (recvSize : ℕ) :
    ℤ × Buffer :=
  MessageBuilder.createResponse md5 env p.recvBuffer (Int32.ofNat recvSize) p.sendBuffer
    (UInt32.ofNat maxSizeOfMessage)

/-- Everything a step can do, one constructor for each branch of the source. -/
inductive Step (md5 : List UInt8 → Digest) (p : Process) : Action → Process → Prop
  | callback (time tsc : UInt64) :
      Step md5 p (.callback time tsc) { p with timer := p.timer.callback time tsc }
  | serve (hpc : p.pc = .loopHead) (hvalid : p.timer.valid = true) (hs : p.sockets ≠ []) :
      Step md5 p .getValid (p.next (.getValid true) .accepting)
  | missing (hpc : p.pc = .loopHead) (hs : p.sockets = []) :
      Step md5 p .getValid (p.next (.getValid true) .exited)
  | leave (hpc : p.pc = .loopHead) (hvalid : p.timer.valid = false) :
      Step md5 p .getValid ((p.next (.getValid false) .loopHead).stop p.sockets)
  | visit {i : ℕ} (hpc : p.pc = .visitHead i) (hvalid : p.timer.valid = true)
      (hi : i < p.sockets.length) :
      Step md5 p .getValid (p.next (.getValid true) (.receiving i 0))
  | leaveVisits {i : ℕ} (hpc : p.pc = .visitHead i)
      (hend : p.timer.valid = false ∨ p.sockets.length ≤ i) :
      Step md5 p .getValid (p.next (.getValid p.timer.valid) .polling)
  | acceptNone {e : Errno} (hpc : p.pc = .accepting) (hs : p.sockets ≠ []) :
      Step md5 p (.accept (.error e))
        ({ p with errno := e }.next (.accept (.error e)) (.visitHead 1))
  | acceptAborted {e : Errno} (hpc : p.pc = .accepting) :
      Step md5 p (.accept (.error e)) ({ p with errno := e }.next (.accept (.error e)) .accepting)
  | acceptFatal {e : Errno} (hpc : p.pc = .accepting) :
      Step md5 p (.accept (.error e)) ({ p with errno := e }.next (.accept (.error e)) .exited)
  | acceptFull {fd : Fd} (hpc : p.pc = .accepting) (hfull : p.full) :
      Step md5 p (.accept (.ok fd)) (p.next (.accept (.ok fd)) (.rejecting fd))
  | acceptOk {fd : Fd} (hpc : p.pc = .accepting) (hfull : ¬ p.full) :
      Step md5 p (.accept (.ok fd)) (p.next (.accept (.ok fd)) (.accepted fd))
  | fcntlError {fd : Fd} {e : Errno} (hpc : p.pc = .accepted fd) :
      Step md5 p (.fcntl (.error e))
        ({ p with errno := e }.next (.fcntl fd (.error e)) (.rejecting fd))
  | fcntlOk {fd : Fd} (hpc : p.pc = .accepted fd) :
      Step md5 p (.fcntl (.ok ()))
        ({ p with sockets := p.sockets ++ [fd] }.next (.fcntl fd (.ok ())) .accepting)
  | recvError {i n : ℕ} {fd : Fd} {e : Errno} (hpc : p.pc = .receiving i n)
      (hfd : p.sockets[i]? = some fd) :
      Step md5 p (.recv (.error e)) ({ p with errno := e }.next
        (.recv fd n (spaceLeft n) (.error e)) (judge i n (-1) e))
  | recvOk {i n : ℕ} {fd : Fd} {data : List UInt8} (hpc : p.pc = .receiving i n)
      (hfd : p.sockets[i]? = some fd) :
      Step md5 p (.recv (.ok data)) ({ p with recvBuffer := p.recvBuffer.stores n data }.next
        (.recv fd n (spaceLeft n) (.ok data)) (afterRecv i n data.length p.errno))
  | respond {i n : ℕ} {fd : Fd} {env : Readings} (hpc : p.pc = .answering i n)
      (hfd : p.sockets[i]? = some fd) :
      Step md5 p (.createResponse env) ({ p with sendBuffer := (p.respond md5 env n).2.bytes }.next
        (.createResponse fd env (slice p.recvBuffer 0 n) (p.respond md5 env n).1)
        (if (p.respond md5 env n).1 = -1 then .closing i else .sending i (p.respond md5 env n).1))
  | sendError {i : ℕ} {sendSize : ℤ} {fd : Fd} {e : Errno} (hpc : p.pc = .sending i sendSize)
      (hfd : p.sockets[i]? = some fd) :
      Step md5 p (.send (.error e)) ({ p with errno := e }.next
        (.send fd (slice p.sendBuffer 0 sendSize.toNat) (.error e)) (.closing i))
  | sendOk {i : ℕ} {sendSize : ℤ} {fd : Fd} {n : ℕ} (hpc : p.pc = .sending i sendSize)
      (hfd : p.sockets[i]? = some fd) :
      Step md5 p (.send (.ok n)) (p.next
        (.send fd (slice p.sendBuffer 0 sendSize.toNat) (.ok n))
        (if (n : ℤ) = sendSize then .visitHead (i + 1) else .closing i))
  | reject {fd : Fd} (hpc : p.pc = .rejecting fd) :
      Step md5 p .close (p.next (.close fd) .accepting)
  | closeOne {i : ℕ} {fd : Fd} (hpc : p.pc = .closing i) (hfd : p.sockets[i]? = some fd) :
      Step md5 p .close
        ({ p with sockets := p.sockets.eraseIdx i }.next (.close fd) (.visitHead i))
  | stopOne {fd : Fd} {rest : List Fd} (hpc : p.pc = .stopping (fd :: rest)) :
      Step md5 p .close ((p.next (.close fd) .loopHead).stop rest)
  | pollError {e : Errno} (hpc : p.pc = .polling) :
      Step md5 p (.poll (.error e)) ({ p with errno := e }.next (.poll (.error e)) .exited)
  | pollOk (hpc : p.pc = .polling) :
      Step md5 p (.poll (.ok ())) (p.next (.poll (.ok ())) .loopHead)

section
variable {md5 : List UInt8 → Digest} {p p' : Process}

theorem step_getValid (h : step md5 p .getValid = some p') : Step md5 p .getValid p' := by
  rw [step] at h
  split at h
  · rename_i hpc
    split_ifs at h with hvalid hs
    · obtain rfl := Option.some.inj h
      exact .missing hpc hs
    · obtain rfl := Option.some.inj h
      exact .serve hpc hvalid hs
    · obtain rfl := Option.some.inj h
      exact .leave hpc (by simpa using hvalid)
  · rename_i i hpc
    obtain rfl := Option.some.inj h
    split_ifs with hgo
    · rw [hgo.1]
      exact .visit hpc hgo.1 hgo.2
    · refine .leaveVisits hpc ?_
      rcases Nat.lt_or_ge i p.sockets.length with hi | hi
      · exact Or.inl (Bool.not_eq_true _ ▸ fun hvalid => hgo ⟨hvalid, hi⟩)
      · exact Or.inr hi
  · exact absurd h (by simp)

theorem step_accept {result : Except Errno Fd} (h : step md5 p (.accept result) = some p') :
    Step md5 p (.accept result) p' := by
  cases result with
  | error e =>
    rw [step] at h
    split at h
    · rename_i hpc
      split_ifs at h
      · obtain rfl := Option.some.inj h
        dsimp only
        split_ifs with hs
        · exact .acceptFatal hpc
        · exact .acceptNone hpc hs
      · obtain rfl := Option.some.inj h
        exact .acceptAborted hpc
      · obtain rfl := Option.some.inj h
        exact .acceptFatal hpc
    · exact absurd h (by simp)
  | ok fd =>
    rw [step] at h
    split at h
    · rename_i hpc
      obtain rfl := Option.some.inj h
      split_ifs with hfull
      · exact .acceptFull hpc hfull
      · exact .acceptOk hpc hfull
    · exact absurd h (by simp)

theorem step_fcntl {result : Except Errno Unit} (h : step md5 p (.fcntl result) = some p') :
    Step md5 p (.fcntl result) p' := by
  rw [step] at h
  split at h
  · rename_i fd hpc
    split at h
    · obtain rfl := Option.some.inj h
      exact .fcntlError hpc
    · obtain rfl := Option.some.inj h
      exact .fcntlOk hpc
  · exact absurd h (by simp)

theorem step_recv {result : Except Errno (List UInt8)} (h : step md5 p (.recv result) = some p') :
    Step md5 p (.recv result) p' := by
  rw [step] at h
  split at h
  · rename_i i n hpc
    split at h
    · exact absurd h (by simp)
    · rename_i fd hfd
      dsimp only at h
      split at h
      · obtain rfl := Option.some.inj h
        exact .recvError hpc hfd
      · obtain rfl := Option.some.inj h
        exact .recvOk hpc hfd
  · exact absurd h (by simp)

theorem step_createResponse {env : Readings} (h : step md5 p (.createResponse env) = some p') :
    Step md5 p (.createResponse env) p' := by
  rw [step] at h
  split at h
  · rename_i i n hpc
    split at h
    · exact absurd h (by simp)
    · rename_i fd hfd
      obtain rfl := Option.some.inj h
      exact .respond hpc hfd
  · exact absurd h (by simp)

theorem step_send {result : Except Errno ℕ} (h : step md5 p (.send result) = some p') :
    Step md5 p (.send result) p' := by
  rw [step] at h
  split at h
  · rename_i i sendSize hpc
    split at h
    · exact absurd h (by simp)
    · rename_i fd hfd
      dsimp only at h
      split at h
      · obtain rfl := Option.some.inj h
        exact .sendError hpc hfd
      · obtain rfl := Option.some.inj h
        exact .sendOk hpc hfd
  · exact absurd h (by simp)

theorem step_close (h : step md5 p .close = some p') : Step md5 p .close p' := by
  rw [step] at h
  split at h
  · rename_i fd hpc
    obtain rfl := Option.some.inj h
    exact .reject hpc
  · rename_i i hpc
    split at h
    · exact absurd h (by simp)
    · rename_i fd hfd
      obtain rfl := Option.some.inj h
      exact .closeOne hpc hfd
  · rename_i fd rest hpc
    obtain rfl := Option.some.inj h
    exact .stopOne hpc
  · exact absurd h (by simp)

theorem step_poll {result : Except Errno Unit} (h : step md5 p (.poll result) = some p') :
    Step md5 p (.poll result) p' := by
  cases result with
  | error e =>
    rw [step] at h
    split at h
    · rename_i hpc
      obtain rfl := Option.some.inj h
      exact .pollError hpc
    · exact absurd h (by simp)
  | ok u =>
    rw [step] at h
    split at h
    · rename_i hpc
      obtain rfl := Option.some.inj h
      exact .pollOk hpc
    · exact absurd h (by simp)

/-- Nothing else happens: every proof about runs goes by cases on this. -/
theorem step_cases {a : Action} (h : step md5 p a = some p') : Step md5 p a p' := by
  cases a with
  | callback time tsc =>
    obtain rfl := Option.some.inj h
    exact .callback time tsc
  | getValid => exact step_getValid h
  | accept result => exact step_accept h
  | fcntl result => exact step_fcntl h
  | recv result => exact step_recv h
  | createResponse env => exact step_createResponse h
  | send result => exact step_send h
  | close => exact step_close h
  | poll result => exact step_poll h

end

/-! ### The steps of a visit are possible -/

section
variable (md5 : List UInt8 → Digest) {p : Process} {i n : ℕ} {sendSize : ℤ} {fd : Fd}

theorem step_recvError_eq (e : Errno) (hpc : p.pc = .receiving i n) (hfd : p.sockets[i]? = some fd) :
    step md5 p (.recv (.error e)) = some ({ p with errno := e }.next
      (.recv fd n (spaceLeft n) (.error e)) (judge i n (-1) e)) := by
  simp only [step, hpc, hfd]
  rfl

theorem step_recvOk_eq (data : List UInt8) (hpc : p.pc = .receiving i n)
    (hfd : p.sockets[i]? = some fd) :
    step md5 p (.recv (.ok data)) = some ({ p with recvBuffer := p.recvBuffer.stores n data }.next
      (.recv fd n (spaceLeft n) (.ok data)) (afterRecv i n data.length p.errno)) := by
  simp only [step, hpc, hfd]

theorem step_createResponse_eq (env : Readings) (hpc : p.pc = .answering i n)
    (hfd : p.sockets[i]? = some fd) :
    step md5 p (.createResponse env) =
      some ({ p with sendBuffer := (p.respond md5 env n).2.bytes }.next
        (.createResponse fd env (slice p.recvBuffer 0 n) (p.respond md5 env n).1)
        (if (p.respond md5 env n).1 = -1 then .closing i
          else .sending i (p.respond md5 env n).1)) := by
  simp only [step, hpc, hfd]
  rfl

theorem step_sendError_eq (e : Errno) (hpc : p.pc = .sending i sendSize)
    (hfd : p.sockets[i]? = some fd) :
    step md5 p (.send (.error e)) = some ({ p with errno := e }.next
      (.send fd (slice p.sendBuffer 0 sendSize.toNat) (.error e)) (.closing i)) := by
  simp only [step, hpc, hfd]

theorem step_sendOk_eq (k : ℕ) (hpc : p.pc = .sending i sendSize) (hfd : p.sockets[i]? = some fd) :
    step md5 p (.send (.ok k)) = some (p.next
      (.send fd (slice p.sendBuffer 0 sendSize.toNat) (.ok k))
      (if (k : ℤ) = sendSize then .visitHead (i + 1) else .closing i)) := by
  simp only [step, hpc, hfd]

theorem step_closeOne_eq (hpc : p.pc = .closing i) (hfd : p.sockets[i]? = some fd) :
    step md5 p .close = some
      ({ p with sockets := p.sockets.eraseIdx i }.next (.close fd) (.visitHead i)) := by
  simp only [step, hpc, hfd]

end

/-! ### What the system promises -/

/-- The length a `recv` is called with. -/
def Pc.room : Pc → ℕ
  | .receiving _ recvSize => spaceLeft recvSize
  | _ => 0

/-- `recv` gives at most as many bytes as it was asked for. -/
def Bounded (p : Process) : Action → Prop
  | .recv (.ok data) => data.length ≤ p.pc.room
  | _ => True

instance (p : Process) : ∀ a, Decidable (Bounded p a)
  | .recv (.ok _) => inferInstanceAs (Decidable (_ ≤ _))
  | .recv (.error _) | .callback _ _ | .getValid | .accept _ | .fcntl _ | .createResponse _
  | .send _ | .close | .poll _ => isTrue trivial

/-- With bounded receives, the `errno` of an earlier call is never looked at: a receive gives bytes
    and there is another one, or it gives none and the connection is closed. -/
theorem afterRecv_bounded (i : ℕ) {n : ℕ} {data : List UInt8} (errno : Errno)
    (hn : n ≤ maxSizeOfMessage) (hdata : data.length ≤ spaceLeft n) :
    afterRecv i n data.length errno =
      if data = [] then .closing i else .receiving i (n + data.length) := by
  rw [spaceLeft_eq hn] at hdata
  split_ifs with hnil
  · subst hnil
    simp [afterRecv, judge]
  · have hpos : 0 < data.length := List.length_pos_of_ne_nil hnil
    rw [afterRecv, if_pos ⟨by omega, by omega⟩, Int.toNat_natCast]

/-! ### Bookkeeping -/

section
variable (p : Process) (e : Event) (pc : Pc)

@[simp] theorem next_pc : (p.next e pc).pc = pc := rfl
@[simp] theorem next_sockets : (p.next e pc).sockets = p.sockets := rfl
@[simp] theorem next_trace : (p.next e pc).trace = p.trace ++ [e] := rfl
@[simp] theorem next_maxConnections : (p.next e pc).maxConnections = p.maxConnections := rfl

@[simp] theorem stop_timer (fds : List Fd) : (p.stop fds).timer = p.timer := by cases fds <;> rfl
@[simp] theorem stop_trace (fds : List Fd) : (p.stop fds).trace = p.trace := by cases fds <;> rfl

end

end NHA.Threads
