import NativeHardwareAccess.Server.MessageBuilder

/-! `Responder` (responder.cpp): the server loop over non-blocking sockets.

    Each round accepts the waiting clients, visits every connection once and waits for activity. A
    visit drains the socket into `recvBuffer`, lets `createResponse` answer what came and sends the
    answer; any error closes the connection and takes it out of the list.

        start ─▶ valid? ─▶ acceptNewClients ─▶ handleQueriesAndCleanUpConnections ─▶ poll ─┐
                   ▲                                                                       │
                   └───────────────────────────────────────────────────────────────────────┘
        visit ─▶ drain ─▶ closed / error ──────────────▶ close, erase
                   │ EAGAIN, data ─▶ createResponse ── -1 ──▶ close, erase
                   │                      └─▶ send ── partial / error ──▶ close, erase
                   └ EAGAIN, no data, or all sent ─▶ next connection

    The operating system is a parameter: one function per call on a state of its own, so that every
    call may have any outcome. The calls made are recorded in a trace. Log output is left out, and
    leaving the process (`exit`) is `none`. -/

namespace NHA.Serving
open Scheme Scheme.MD5 NHA.MessageBuilder

abbrev Fd := ℕ

/-- The error codes the server distinguishes. -/
inductive Errno where
  | eagain | ewouldblock | econnaborted | other (code : ℕ)
  deriving DecidableEq

/-- The operating system, the time source's valid flag and the readings of `createResponse`. -/
structure OS (σ : Type*) where
  getValid : σ → Bool × σ
  accept : Fd → σ → Except Errno Fd × σ
  /-- A bound on the calls of `accept` in one round, which makes that loop total. -/
  backlog : σ → ℕ
  /-- `fcntl(F_SETFL, O_NONBLOCK)`. -/
  fcntl : Fd → σ → Except Errno Unit × σ
  /-- The bytes received, at most the requested number; none when the peer has closed. -/
  recv : Fd → ℕ → σ → Except Errno (List UInt8) × σ
  /-- The number of bytes accepted. -/
  send : Fd → List UInt8 → σ → Except Errno ℕ × σ
  close : Fd → σ → σ
  poll : List Fd → σ → Except Errno Unit × σ
  readings : σ → Readings × σ

/-- A call that was made, with its outcome. -/
inductive Event where
  | getValid (valid : Bool)
  | accept (result : Except Errno Fd)
  | fcntl (fd : Fd) (result : Except Errno Unit)
  | recv (fd : Fd) (offset len : ℕ) (result : Except Errno (List UInt8))
  | createResponse (fd : Fd) (env : Readings) (query : List UInt8) (sendSize : ℤ)
  | send (fd : Fd) (bytes : List UInt8) (result : Except Errno ℕ)
  | close (fd : Fd)
  | poll (result : Except Errno Unit)

/-- What the calls work on: the system, the two buffers, `errno` and the trace. -/
structure Io (σ : Type*) where
  world : σ
  recvBuffer : Memory
  sendBuffer : Memory
  errno : Errno
  trace : List Event

structure Responder (σ : Type*) where
  maxConnections : Int32
  /-- Index 0 is the listening socket, the rest are client connections. -/
  sockets : List Fd
  io : Io σ

def maxSizeOfMessage : ℕ := 61440

section
variable {σ : Type*} (os : OS σ) (md5 : List UInt8 → Digest)

/-! ### Calls -/

def Io.getValid (io : Io σ) : Bool × Io σ :=
  let r := os.getValid io.world
  (r.1, { io with world := r.2, trace := io.trace ++ [.getValid r.1] })

def Io.accept (serverSocket : Fd) (io : Io σ) : Except Errno Fd × Io σ :=
  let r := os.accept serverSocket io.world
  let io := { io with world := r.2, trace := io.trace ++ [.accept r.1] }
  match r.1 with
  | .ok fd => (.ok fd, io)
  | .error e => (.error e, { io with errno := e })

def Io.fcntl (fd : Fd) (io : Io σ) : Except Errno Unit × Io σ :=
  let r := os.fcntl fd io.world
  let io := { io with world := r.2, trace := io.trace ++ [.fcntl fd r.1] }
  match r.1 with
  | .ok u => (.ok u, io)
  | .error e => (.error e, { io with errno := e })

/-- `recv` to the receive buffer at an offset: the number of bytes received, or -1. -/
def Io.recv (fd : Fd) (offset len : ℕ) (io : Io σ) : ℤ × Io σ :=
  let r := os.recv fd len io.world
  let io := { io with world := r.2, trace := io.trace ++ [Event.recv fd offset len r.1] }
  match r.1 with
  | .ok data => (data.length, { io with recvBuffer := io.recvBuffer.stores offset data })
  | .error e => (-1, { io with errno := e })

/-- `createResponse` on the two buffers. -/
def Io.createResponse (fd : Fd) (recvSize : ℕ) (io : Io σ) : ℤ × Io σ :=
  let env := os.readings io.world
  let r := MessageBuilder.createResponse md5 env.1 io.recvBuffer (Int32.ofNat recvSize)
    io.sendBuffer (UInt32.ofNat maxSizeOfMessage)
  (r.1, { io with
    world := env.2
    sendBuffer := r.2.bytes
    trace := io.trace ++ [.createResponse fd env.1 (slice io.recvBuffer 0 recvSize) r.1] })

/-- `send` from the send buffer: the number of bytes accepted, or -1. -/
def Io.send (fd : Fd) (sendSize : ℕ) (io : Io σ) : ℤ × Io σ :=
  let bytes := slice io.sendBuffer 0 sendSize
  let r := os.send fd bytes io.world
  let io := { io with world := r.2, trace := io.trace ++ [.send fd bytes r.1] }
  match r.1 with
  | .ok n => (n, io)
  | .error e => (-1, { io with errno := e })

def Io.close (fd : Fd) (io : Io σ) : Io σ :=
  { io with world := os.close fd io.world, trace := io.trace ++ [.close fd] }

def Io.poll (sockets : List Fd) (io : Io σ) : Except Errno Unit × Io σ :=
  let r := os.poll sockets io.world
  let io := { io with world := r.2, trace := io.trace ++ [.poll r.1] }
  match r.1 with
  | .ok u => (.ok u, io)
  | .error e => (.error e, { io with errno := e })

/-- What the caller and the system see of an `accept`, whatever it does to `errno`. -/
theorem Io.accept_eq (serverSocket : Fd) (io : Io σ) :
    (io.accept os serverSocket).1 = (os.accept serverSocket io.world).1 ∧
      (io.accept os serverSocket).2.world = (os.accept serverSocket io.world).2 := by
  rw [Io.accept]
  cases h : (os.accept serverSocket io.world).1 <;> exact ⟨rfl, rfl⟩

theorem Io.fcntl_world (fd : Fd) (io : Io σ) :
    (io.fcntl os fd).2.world = (os.fcntl fd io.world).2 := by
  rw [Io.fcntl]
  cases h : (os.fcntl fd io.world).1 <;> rfl

/-! ### One connection -/

/-- The space left in the receive buffer, an `int` difference passed as `size_t`. -/
def spaceLeft (recvSize : ℕ) : ℕ := (((maxSizeOfMessage : ℤ) - recvSize) % 2 ^ 64).toNat

theorem spaceLeft_eq {n : ℕ} (hn : n ≤ maxSizeOfMessage) : spaceLeft n = maxSizeOfMessage - n := by
  rw [maxSizeOfMessage] at hn
  rw [spaceLeft, maxSizeOfMessage]
  omega

/-- The `while` loop around `recv`, from the result of the call before it: the last result and the
    number of bytes received. Each turn receives a byte, so the buffer size is fuel enough. -/
def drain (fd : Fd) : ℕ → ℤ → ℕ → Io σ → ℤ × ℕ × Io σ
  | 0, recvResult, recvSize, io => (recvResult, recvSize, io)
  | fuel + 1, recvResult, recvSize, io =>
    if recvResult > 0 ∧ recvSize < maxSizeOfMessage then
      let recvSize := recvSize + recvResult.toNat
      let r := io.recv os fd recvSize (spaceLeft recvSize)
      drain fd fuel r.1 recvSize r.2
    else (recvResult, recvSize, io)

/-- The first `recv` and the loop after it. -/
def receive (fd : Fd) (io : Io σ) : ℤ × ℕ × Io σ :=
  let r := io.recv os fd 0 maxSizeOfMessage
  drain os fd (maxSizeOfMessage + 1) r.1 0 r.2

/-- Answer the query in the receive buffer: `true` when the connection is kept. -/
def answerQuery (fd : Fd) (recvSize : ℕ) (io : Io σ) : Bool × Io σ :=
  let r := io.createResponse os md5 fd recvSize
  if r.1 = -1 then (false, r.2.close os fd)
  else
    let s := r.2.send os fd r.1.toNat
    if s.1 = r.1 then (true, s.2) else (false, s.2.close os fd)

/-- The body of the loop over the connections: `true` when the connection is kept. -/
def visit (connectionSocket : Fd) (io : Io σ) : Bool × Io σ :=
  let r := receive os connectionSocket io
  if r.1 = 0 then (false, r.2.2.close os connectionSocket)
  else if r.2.2.errno ≠ .eagain ∧ r.2.2.errno ≠ .ewouldblock then
    (false, r.2.2.close os connectionSocket)
  else if r.2.1 = 0 then (true, r.2.2)
  else answerQuery os md5 connectionSocket r.2.1 r.2.2

/-! ### Rounds -/

/-- The loop over the connections, `i` being the position of the iterator; a closed connection is
    erased where it stands. -/
def handleLoop : ℕ → ℕ → List Fd → Io σ → List Fd × Io σ
  | 0, _, sockets, io => (sockets, io)
  | fuel + 1, i, sockets, io =>
    let v := io.getValid os
    match v.1, sockets[i]? with
    | true, some connectionSocket =>
      let r := visit os md5 connectionSocket v.2
      if r.1 then handleLoop fuel (i + 1) sockets r.2
      else handleLoop fuel i (sockets.eraseIdx i) r.2
    | _, _ => (sockets, v.2)

/-- `handleQueriesAndCleanUpConnections`; it exits when there is no server socket. -/
def handleQueriesAndCleanUpConnections (r : Responder σ) : Option (Responder σ) :=
  if r.sockets = [] then none
  else
    let h := handleLoop os md5 r.sockets.length 1 r.sockets r.io
    some { r with sockets := h.1, io := h.2 }

/-- The `accept` loop; it exits on a permanent error. -/
def acceptLoop (serverSocket : Fd) : ℕ → Responder σ → Option (Responder σ)
  | 0, _ => none
  | fuel + 1, r =>
    let a := r.io.accept os serverSocket
    match a.1 with
    | .error .eagain => some { r with io := a.2 }
    | .error .ewouldblock => some { r with io := a.2 }
    | .error .econnaborted => acceptLoop serverSocket fuel { r with io := a.2 }
    | .error (.other _) => none
    | .ok connectionSocket =>
      -- `size_t` is compared with an `int`
      if r.sockets.length > (r.maxConnections.toInt % 2 ^ 64).toNat then
        acceptLoop serverSocket fuel { r with io := a.2.close os connectionSocket }
      else
        let f := a.2.fcntl os connectionSocket
        match f.1 with
        | .error _ => acceptLoop serverSocket fuel { r with io := f.2.close os connectionSocket }
        | .ok _ =>
          acceptLoop serverSocket fuel
            { r with sockets := r.sockets ++ [connectionSocket], io := f.2 }

/-- `acceptNewClients`; it exits when there is no server socket. -/
def acceptNewClients (r : Responder σ) : Option (Responder σ) :=
  match r.sockets with
  | [] => none
  | serverSocket :: _ => acceptLoop os serverSocket (os.backlog r.io.world + 1) r

/-- `waitForSocketActivity`; it exits when `poll` fails. -/
def waitForSocketActivity (r : Responder σ) : Option (Responder σ) :=
  let p := r.io.poll os r.sockets
  match p.1 with
  | .ok _ => some { r with io := p.2 }
  | .error _ => none

/-- The body of the serving loop. -/
def round (r : Responder σ) : Option (Responder σ) :=
  (acceptNewClients os r).bind (fun r =>
    (handleQueriesAndCleanUpConnections os md5 r).bind (fun r => waitForSocketActivity os r))

/-- After the serving loop: every socket is closed and the list emptied. -/
def stop (r : Responder σ) : Responder σ :=
  { r with sockets := [], io := r.sockets.foldl (fun io fd => io.close os fd) r.io }

/-- Any number of turns of the serving loop of `start`; it ends when the time source is found
    invalid. -/
def start : ℕ → Responder σ → Option (Responder σ)
  | 0, r => some r
  | n + 1, r =>
    let v := r.io.getValid os
    if v.1 then (round os md5 { r with io := v.2 }).bind (start n)
    else some (stop os { r with io := v.2 })

end

end NHA.Serving
