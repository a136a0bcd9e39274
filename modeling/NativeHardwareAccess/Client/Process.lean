import NativeHardwareAccess.Schemes.Framing
import NativeHardwareAccess.Schemes.Machine
import NativeHardwareAccess.Client.Language
import NativeHardwareAccess.Client.Receive
import NativeHardwareAccess.Client.SerializeBounds

/-! The command-line client, call by call (tools/src/nhac.cpp, the loop of `main`, `sendQuery`,
    `receiveResponse` and `disconnectFromNha`).

    Once it is connected, the client reads a message of the description, sends it and waits for the
    response before it reads the next one:

        head ─parse, serialize─▶ sending ─all sent─▶ receivingSize ─4 bytes─▶ receiving
         ▲ │                      ↺ send                                        ↺ recv │
         │ └─no more messages─▶ exited 0                                               │
         └──────────────────────────────deserialize, print─────────────────────────────┘

    Every exception leads to `failing`, where the socket is closed and the client exits with 1. The
    outcome of a call is part of the action, so a list of actions is one choice of all outcomes. -/

namespace NHA.Client
open Scheme Scheme.MD5 NHA.Nhac

/-- What the client does next. -/
inductive Pc where
  /-- The condition of the loop. -/
  | head
  /-- `send` of `n` bytes from an offset of the buffer. -/
  | sending (offset n : ℕ)
  /-- `recv` of the four bytes of the size field. -/
  | receivingSize
  /-- `recv` of `n` bytes to an offset of the buffer. -/
  | receiving (completeSize offset n : ℕ)
  /-- In the handler, with the text of the exception. -/
  | failing (what : String)
  | exited (code : ℕ)
  /-- Terminated by the signal of a `send` on a broken connection. -/
  | killed
  deriving DecidableEq

/-- What the client does, as far as others can see it. -/
inductive Event where
  /-- A message was serialized to these bytes. -/
  | serialize (m : Message) (bytes : List UInt8)
  /-- The bytes offered, and how many were taken. -/
  | send (bytes : List UInt8) (result : Except String ℕ)
  | recv (offset len : ℕ) (result : Except String (List UInt8))
  /-- These received bytes were deserialized to a message. -/
  | deserialize (bytes : List UInt8) (m : Message)
  | close

structure Process where
  quiet : Bool
  pc : Pc
  /-- The rest of the description. -/
  input : List UInt8
  msg : Message
  counter : ℕ
  buffer : Memory
  /-- The calls of `Message::print`: title and message. -/
  printed : List (String × Message)
  trace : List Event

/-- One step, with the outcome of the call. -/
inductive Action where
  /-- From the condition of the loop to the first `send`. -/
  | turn
  | send (result : Except String ℕ)
  | sigpipe
  | recv (result : Except String (List UInt8))
  | close

def bufferSize : ℕ := 65536

/-- The client when it has connected. -/
def Process.init (quiet : Bool) (input : List UInt8) (buffer : Memory) : Process :=
  ⟨quiet, .head, input, Message.empty, 0, buffer, [], []⟩

/-- `setw(3)` and `setfill('0')`. -/
def counterStr (counter : ℕ) : String :=
  let digits := toString counter
  String.ofList (List.replicate (3 - digits.length) '0') ++ digits

/-- The loop up to `sendQuery`. -/
def Process.turn (md5 : List UInt8 → Digest) (p : Process) : Process :=
  match parse p.input with
  | (.error e, msg, input) => { p with msg := msg, input := input, pc := .failing e }
  | (.ok false, msg, input) => { p with msg := msg, input := input, pc := .exited 0 }
  | (.ok true, msg, input) =>
    match msg.serialize md5 (Buffer.fresh p.buffer) bufferSize with
    | (.error e, msg, t) =>
      { p with msg := msg, input := input, buffer := t.bytes, pc := .failing e }
    | (.ok sendSize, msg, t) =>
      { p with
        msg := msg
        input := input
        buffer := t.bytes
        printed := if p.quiet then p.printed else p.printed ++ [("query_" ++ counterStr p.counter, msg)]
        trace := p.trace ++ [.serialize msg (slice t.bytes 0 sendSize)]
        pc := .sending 0 sendSize }

/-- The loop after `receiveResponse`, which has received `n` bytes. -/
def Process.finish (md5 : List UInt8 → Digest) (p : Process) (completeSize n : ℕ) : Process :=
  match p.msg.deserialize md5 p.buffer completeSize with
  | (.error e, msg) => { p with msg := msg, pc := .failing e }
  | (.ok _, msg) =>
    { p with
      msg := msg
      printed := p.printed ++ [("response_" ++ counterStr p.counter, msg)]
      counter := p.counter + 1
      trace := p.trace ++ [.deserialize (slice p.buffer 0 n) msg]
      pc := .head }

/-- Record a call and go on. -/
def Process.next (p : Process) (e : Event) (pc : Pc) : Process :=
  { p with trace := p.trace ++ [e], pc := pc }

/-- One step; `none` when the client stands at another call. -/
def step (md5 : List UInt8 → Digest) (p : Process) : Action → Option Process
  | .turn =>
    match p.pc with
    | .head => some (p.turn md5)
    | _ => none
  | .send result =>
    match p.pc with
    | .sending offset n =>
      let e := Event.send (slice p.buffer offset n) result
      match result with
      | .error errno => some (p.next e (.failing ("sendQuery: send: " ++ errno)))
      | .ok k =>
        some (p.next e (if k = n then .receivingSize else .sending (offset + k) (sizeSub n k)))
    | _ => none
  | .sigpipe =>
    match p.pc with
    | .sending _ _ => some { p with pc := .killed }
    | _ => none
  | .recv result =>
    match p.pc with
    | .receivingSize =>
      let e := Event.recv 0 4 result
      match result with
      | .error errno => some (p.next e (.failing ("receiveResponse: recv: " ++ errno)))
      | .ok data =>
        let p := { p with buffer := p.buffer.stores 0 data }
        if data.length ≠ 4 then
          some (p.next e (.failing "receiveResponse: recv: failed to receive size of message"))
        else
          let completeSize := (fromLE32 p.buffer).toNat
          some (p.next e (.receiving completeSize 4 (sizeSub (min bufferSize completeSize) 4)))
    | .receiving completeSize offset n =>
      let e := Event.recv offset n result
      match result with
      | .error errno => some (p.next e (.failing ("receiveResponse: recv: " ++ errno)))
      | .ok data =>
        let p := { p with buffer := p.buffer.stores offset data }
        if data.length = 0 then
          some (p.next e (.failing "receiveResponse: recv: connection closed"))
        else if data.length = n then
          some ((p.next e .head).finish md5 completeSize (offset + n))
        else
          some (p.next e
            (.receiving completeSize (offset + data.length) (sizeSub n data.length)))
    | _ => none
  | .close =>
    match p.pc with
    | .failing _ => some (p.next .close (.exited 1))
    | _ => none

/-! ### What a step can do -/

/-- Everything a step can do, one constructor for each branch of the source. -/
inductive Step (md5 : List UInt8 → Digest) (p : Process) : Action → Process → Prop
  | syntaxError {e : String} {msg : Message} {input : List UInt8} (hpc : p.pc = .head)
      (hparse : parse p.input = (.error e, msg, input)) :
      Step md5 p .turn { p with msg := msg, input := input, pc := .failing e }
  | done {msg : Message} {input : List UInt8} (hpc : p.pc = .head)
      (hparse : parse p.input = (.ok false, msg, input)) :
      Step md5 p .turn { p with msg := msg, input := input, pc := .exited 0 }
  | tooLarge {e : String} {msg msg' : Message} {input : List UInt8} {t : Buffer} (hpc : p.pc = .head)
      (hparse : parse p.input = (.ok true, msg, input))
      (hser : msg.serialize md5 (Buffer.fresh p.buffer) bufferSize = (.error e, msg', t)) :
      Step md5 p .turn
        { p with msg := msg', input := input, buffer := t.bytes, pc := .failing e }
  | query {msg msg' : Message} {input : List UInt8} {t : Buffer} {sendSize : ℕ} (hpc : p.pc = .head)
      (hparse : parse p.input = (.ok true, msg, input))
      (hser : msg.serialize md5 (Buffer.fresh p.buffer) bufferSize = (.ok sendSize, msg', t)) :
      Step md5 p .turn
        { p with
          msg := msg'
          input := input
          buffer := t.bytes
          printed :=
            if p.quiet then p.printed else p.printed ++ [("query_" ++ counterStr p.counter, msg')]
          trace := p.trace ++ [.serialize msg' (slice t.bytes 0 sendSize)]
          pc := .sending 0 sendSize }
  | sendError {offset n : ℕ} {e : String} (hpc : p.pc = .sending offset n) :
      Step md5 p (.send (.error e)) (p.next (.send (slice p.buffer offset n) (.error e))
        (.failing ("sendQuery: send: " ++ e)))
  | sendOk {offset n k : ℕ} (hpc : p.pc = .sending offset n) :
      Step md5 p (.send (.ok k)) (p.next (.send (slice p.buffer offset n) (.ok k))
        (if k = n then .receivingSize else .sending (offset + k) (sizeSub n k)))
  | sigpipe {offset n : ℕ} (hpc : p.pc = .sending offset n) :
      Step md5 p .sigpipe { p with pc := .killed }
  | recvSizeError {e : String} (hpc : p.pc = .receivingSize) :
      Step md5 p (.recv (.error e)) (p.next (.recv 0 4 (.error e))
        (.failing ("receiveResponse: recv: " ++ e)))
  | recvError {e : String} {completeSize offset n : ℕ} (hpc : p.pc = .receiving completeSize offset n) :
      Step md5 p (.recv (.error e)) (p.next (.recv offset n (.error e))
        (.failing ("receiveResponse: recv: " ++ e)))
  | recvShort {data : List UInt8} (hpc : p.pc = .receivingSize) (hdata : data.length ≠ 4) :
      Step md5 p (.recv (.ok data)) ({ p with buffer := p.buffer.stores 0 data }.next
        (.recv 0 4 (.ok data))
        (.failing "receiveResponse: recv: failed to receive size of message"))
  | recvSize {data : List UInt8} {completeSize : ℕ} (hpc : p.pc = .receivingSize)
      (hdata : data.length = 4) (hsize : completeSize = (fromLE32 (p.buffer.stores 0 data)).toNat) :
      Step md5 p (.recv (.ok data)) ({ p with buffer := p.buffer.stores 0 data }.next
        (.recv 0 4 (.ok data))
        (.receiving completeSize 4 (sizeSub (min bufferSize completeSize) 4)))
  | recvClosed {completeSize offset n : ℕ} {data : List UInt8}
      (hpc : p.pc = .receiving completeSize offset n) (hdata : data.length = 0) :
      Step md5 p (.recv (.ok data)) ({ p with buffer := p.buffer.stores offset data }.next
        (.recv offset n (.ok data)) (.failing "receiveResponse: recv: connection closed"))
  | recvPart {completeSize offset n : ℕ} {data : List UInt8}
      (hpc : p.pc = .receiving completeSize offset n) (hzero : data.length ≠ 0)
      (hdata : data.length ≠ n) :
      Step md5 p (.recv (.ok data)) ({ p with buffer := p.buffer.stores offset data }.next
        (.recv offset n (.ok data))
        (.receiving completeSize (offset + data.length) (sizeSub n data.length)))
  | recvAll {completeSize offset n : ℕ} {data : List UInt8}
      (hpc : p.pc = .receiving completeSize offset n) (hdata : data.length = n) (hn : 0 < n) :
      Step md5 p (.recv (.ok data)) (({ p with buffer := p.buffer.stores offset data }.next
        (.recv offset n (.ok data)) .head).finish md5 completeSize (offset + n))
  | close {what : String} (hpc : p.pc = .failing what) :
      Step md5 p .close (p.next .close (.exited 1))

section
variable {md5 : List UInt8 → Digest} {p p' : Process}

theorem step_turn (h : step md5 p .turn = some p') : Step md5 p .turn p' := by
  rw [step] at h
  split at h
  · rename_i hpc
    obtain rfl := Option.some.inj h
    rw [Process.turn]
    split
    · rename_i e msg input hparse
      exact .syntaxError hpc hparse
    · rename_i msg input hparse
      exact .done hpc hparse
    · rename_i msg input hparse
      split
      · rename_i e msg' t hser
        exact .tooLarge hpc hparse hser
      · rename_i sendSize msg' t hser
        exact .query hpc hparse hser
  · exact absurd h (by simp)

theorem step_send {result : Except String ℕ} (h : step md5 p (.send result) = some p') :
    Step md5 p (.send result) p' := by
  rw [step] at h
  split at h
  · rename_i offset n hpc
    cases result with
    | error e =>
      obtain rfl := Option.some.inj h
      exact .sendError hpc
    | ok k =>
      obtain rfl := Option.some.inj h
      exact .sendOk hpc
  · exact absurd h (by simp)

theorem step_recv {result : Except String (List UInt8)} (h : step md5 p (.recv result) = some p') :
    Step md5 p (.recv result) p' := by
  rw [step] at h
  split at h
  · rename_i hpc
    cases result with
    | error e =>
      obtain rfl := Option.some.inj h
      exact .recvSizeError hpc
    | ok data =>
      dsimp only at h
      split_ifs at h with hdata
      · obtain rfl := Option.some.inj h
        exact .recvShort hpc hdata
      · obtain rfl := Option.some.inj h
        exact .recvSize hpc (not_not.mp hdata) rfl
  · rename_i completeSize offset n hpc
    cases result with
    | error e =>
      obtain rfl := Option.some.inj h
      exact .recvError hpc
    | ok data =>
      dsimp only at h
      split_ifs at h with hzero hall
      · obtain rfl := Option.some.inj h
        exact .recvClosed hpc hzero
      · obtain rfl := Option.some.inj h
        exact .recvAll hpc hall (by omega)
      · obtain rfl := Option.some.inj h
        exact .recvPart hpc hzero hall
  · exact absurd h (by simp)

theorem step_cases {a : Action} (h : step md5 p a = some p') : Step md5 p a p' := by
  cases a with
  | turn => exact step_turn h
  | send result => exact step_send h
  | sigpipe =>
    rw [step] at h
    split at h
    · rename_i offset n hpc
      obtain rfl := Option.some.inj h
      exact .sigpipe hpc
    · exact absurd h (by simp)
  | recv result => exact step_recv h
  | close =>
    rw [step] at h
    split at h
    · rename_i what hpc
      obtain rfl := Option.some.inj h
      exact .close hpc
    · exact absurd h (by simp)

/-! ### The calls of `receiveResponse` -/

/-- What one `recv` of the function does: the buffer after it, and the stream that is left. -/
theorem recv_cases (r : Receiving) (offset n : ℕ) :
    (∃ e r', r.recv offset n = (.error e, r') ∧ r'.t = r.t) ∨
    (∃ data r', r.recv offset n = (.ok data, r') ∧ r'.t = r.t.stores offset data ∧
      data.length ≤ n ∧ data.length + r'.peer.stream.length = r.peer.stream.length) := by
  rw [Receiving.recv]
  rcases Peer.recv_cases r.peer n with ⟨e, peer', hrecv, -⟩ | ⟨data, peer', hrecv, hle, hstream, -⟩
  · rw [hrecv]
    exact Or.inl ⟨e, _, rfl, rfl⟩
  · rw [hrecv]
    refine Or.inr ⟨data, _, rfl, rfl, hle, ?_⟩
    rw [← List.length_append, hstream]

/-- The second `recv` of `receiveResponse` and the loop after it are steps of the machine. -/
theorem reaches_receiveRest (md5 : List UInt8 → Digest) (fuel : ℕ) {completeSize offset n : ℕ} {r : Receiving} {p : Process}
    (hpc : p.pc = .receiving completeSize offset n) (hbuffer : p.buffer = r.t) (hn : n < 2 ^ 64)
    (hfuel : r.peer.stream.length < fuel) :
    (∃ e r' p', receiveRest fuel offset n r = (.error e, r') ∧ Machine.Reaches (step md5) p p' ∧
      p'.pc = .failing e ∧ p'.buffer = r'.t) ∨
    (∃ r', ∃ p' : Process, receiveRest fuel offset n r = (.ok (), r') ∧
      Machine.Reaches (step md5) p (p'.finish md5 completeSize (offset + n)) ∧
      p'.buffer = r'.t ∧ p'.msg = p.msg) := by
  induction fuel generalizing offset n r p with
  | zero => exact absurd hfuel (Nat.not_lt_zero _)
  | succ fuel ih =>
    rw [receiveRest]
    rcases recv_cases r offset n with ⟨e, r', hrecv, ht⟩ | ⟨data, r', hrecv, ht, hle, hlen⟩
    · rw [hrecv]
      have hstep : step md5 p (.recv (.error e)) = some (p.next (.recv offset n (.error e))
          (.failing ("receiveResponse: recv: " ++ e))) := by
        simp only [step, hpc]
      exact Or.inl ⟨_, r', _, rfl, .single hstep, rfl, hbuffer.trans ht.symm⟩
    · rw [hrecv]
      dsimp only
      have hstored : p.buffer.stores offset data = r'.t := by rw [hbuffer, ht]
      split_ifs with hzero hall
      · have hstep : step md5 p (.recv (.ok data)) =
            some ({ p with buffer := p.buffer.stores offset data }.next (.recv offset n (.ok data))
              (.failing "receiveResponse: recv: connection closed")) := by
          simp only [step, hpc, if_pos hzero]
        exact Or.inl ⟨_, r', _, rfl, .single hstep, rfl, hstored⟩
      · have hstep : step md5 p (.recv (.ok data)) =
            some (({ p with buffer := p.buffer.stores offset data }.next (.recv offset n (.ok data))
              .head).finish md5 completeSize (offset + n)) := by
          simp only [step, hpc, if_neg hzero, if_pos hall]
        exact Or.inr ⟨r', _, rfl, .single hstep, hstored, rfl⟩
      · -- a part came: the rest of the loop starts behind it
        have hstep : step md5 p (.recv (.ok data)) =
            some ({ p with buffer := p.buffer.stores offset data }.next (.recv offset n (.ok data))
              (.receiving completeSize (offset + data.length) (sizeSub n data.length))) := by
          simp only [step, hpc, if_neg hzero, if_neg hall]
        rw [sizeSub_eq hle hn] at hstep ⊢
        have hend : offset + data.length + (n - data.length) = offset + n := by omega
        have hloop := ih (p := { p with buffer := p.buffer.stores offset data }.next
          (.recv offset n (.ok data)) (.receiving completeSize (offset + data.length) (n - data.length)))
          (r := r') rfl hstored (by omega) (by omega)
        rcases hloop with ⟨e, r'', p', hrest, hreach, hpc', hbuffer'⟩ | ⟨r'', p', hrest, hreach, hbuffer', hmsg⟩
        · exact Or.inl ⟨e, r'', p', hrest, (Machine.Reaches.single hstep).trans hreach, hpc', hbuffer'⟩
        · rw [hend] at hreach
          exact Or.inr ⟨r'', p', hrest, (Machine.Reaches.single hstep).trans hreach, hbuffer', hmsg⟩

/-- `receiveResponse` is a run of the machine: where it throws, the client is in the handler with the
    same text, and where it returns, the client goes on with the same buffer. -/
theorem reaches_receiveResponse {r : Receiving} (hpc : p.pc = .receivingSize)
    (hbuffer : p.buffer = r.t) :
    (∃ e r' p', receiveResponse r bufferSize = (.error e, r') ∧ Machine.Reaches (step md5) p p' ∧
      p'.pc = .failing e ∧ p'.buffer = r'.t) ∨
    (∃ completeSize r' n, ∃ p' : Process, receiveResponse r bufferSize = (.ok completeSize, r') ∧
      Machine.Reaches (step md5) p (p'.finish md5 completeSize n) ∧ p'.buffer = r'.t ∧
      p'.msg = p.msg) := by
  rw [receiveResponse]
  rcases recv_cases r 0 4 with ⟨e, r', hrecv, ht⟩ | ⟨data, r', hrecv, ht, hle, hlen⟩
  · rw [hrecv]
    have hstep : step md5 p (.recv (.error e)) = some (p.next (.recv 0 4 (.error e))
        (.failing ("receiveResponse: recv: " ++ e))) := by
      simp only [step, hpc]
    exact Or.inl ⟨_, r', _, rfl, .single hstep, rfl, hbuffer.trans ht.symm⟩
  · rw [hrecv]
    dsimp only
    have hstored : p.buffer.stores 0 data = r'.t := by rw [hbuffer, ht]
    split_ifs with hdata
    · have hstep : step md5 p (.recv (.ok data)) =
          some ({ p with buffer := p.buffer.stores 0 data }.next (.recv 0 4 (.ok data))
            (.failing "receiveResponse: recv: failed to receive size of message")) := by
        simp only [step, hpc, if_pos hdata]
      exact Or.inl ⟨_, r', _, rfl, .single hstep, rfl, hstored⟩
    · have hstep : step md5 p (.recv (.ok data)) =
          some ({ p with buffer := p.buffer.stores 0 data }.next (.recv 0 4 (.ok data))
            (.receiving (fromLE32 r'.t).toNat 4
              (sizeSub (min bufferSize (fromLE32 r'.t).toNat) 4))) := by
        simp only [step, hpc, if_neg hdata, hstored]
      have hn : sizeSub (min bufferSize (fromLE32 r'.t).toNat) 4 < 2 ^ 64 := by
        rw [sizeSub]
        omega
      have hloop := reaches_receiveRest md5 (r'.peer.stream.length + 1)
        (p := { p with buffer := p.buffer.stores 0 data }.next (.recv 0 4 (.ok data))
          (.receiving (fromLE32 r'.t).toNat 4 (sizeSub (min bufferSize (fromLE32 r'.t).toNat) 4)))
        (r := r') rfl hstored hn (Nat.lt_succ_self _)
      rcases hloop with ⟨e, r'', p', hrest, hreach, hpc', hbuffer'⟩ |
        ⟨r'', p', hrest, hreach, hbuffer', hmsg⟩
      · rw [hrest]
        exact Or.inl ⟨e, r'', p', rfl, (Machine.Reaches.single hstep).trans hreach, hpc', hbuffer'⟩
      · rw [hrest]
        exact Or.inr ⟨_, r'', _, p', rfl, (Machine.Reaches.single hstep).trans hreach, hbuffer', hmsg⟩

end

end NHA.Client
