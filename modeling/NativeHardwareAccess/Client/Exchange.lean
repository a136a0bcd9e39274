import NativeHardwareAccess.Client.Process
import NativeHardwareAccess.Server.ResponseLayout

/-! The client's side of the exchange.

    At every point the client has sent the serialized messages in their order, the last one up to where
    `sendQuery` stands, and has received whole responses, and of the next one what `receiveResponse`
    has put into the buffer. One response is received for one message before the next message is read
    (`Account`). -/

namespace NHA.Client
open Scheme Scheme.MD5 Scheme.Framing NHA.Nhac
open NHA.Language (Begins Yields yields_nil_iff)

/-! ### What others can see -/

/-- The bytes that a call hands to the connection. -/
def sentBy : Event → List UInt8
  | .send bytes (.ok k) => bytes.take k
  | _ => []

/-- The bytes that a call takes from the connection. -/
def receivedBy : Event → List UInt8
  | .recv _ _ (.ok data) => data
  | _ => []

def queryBy : Event → Option (Message × List UInt8)
  | .serialize m bytes => some (m, bytes)
  | _ => none

def responseBy : Event → Option (List UInt8 × Message)
  | .deserialize bytes m => some (bytes, m)
  | _ => none

def sent (t : List Event) : List UInt8 := t.flatMap sentBy

def received (t : List Event) : List UInt8 := t.flatMap receivedBy

/-- The messages that have been serialized, with their bytes. -/
def queries (t : List Event) : List (Message × List UInt8) := t.filterMap queryBy

/-- The responses that have been accepted: the bytes, and the message that was printed. -/
def responses (t : List Event) : List (List UInt8 × Message) := t.filterMap responseBy

/-- The bytes of the queries, one list for each. -/
def asked (t : List Event) : List (List UInt8) := (queries t).map Prod.snd

/-- The bytes of the responses, one list for each. -/
def answered (t : List Event) : List (List UInt8) := (responses t).map Prod.fst

section
variable {t : List Event} {e : Event}

theorem sent_concat : sent (t ++ [e]) = sent t ++ sentBy e := by
  simp [sent]

theorem received_concat : received (t ++ [e]) = received t ++ receivedBy e := by
  simp [received]

theorem queries_concat : queries (t ++ [e]) = queries t ++ (queryBy e).toList := by
  cases h : queryBy e <;> simp [queries, h]

theorem responses_concat : responses (t ++ [e]) = responses t ++ (responseBy e).toList := by
  cases h : responseBy e <;> simp [responses, h]

end

/-! ### The account -/

/-- The length of a response by its size field, as `receiveResponse` counts it. -/
def frameSize (size : List UInt8) : ℕ := 4 + sizeSub (min bufferSize (ofLE size)) 4

/-- These bytes were serialized from this message. -/
structure Written (md5 : List UInt8 → Digest) (q : Message × List UInt8) : Prop where
  bytes : q.2 = toLE 4 q.1.getCompleteSizeOfMsgInBytes.toNat ++ q.1.tlvs.flatMap TLV.bytes ++
    (md5 (toLE 4 q.1.getCompleteSizeOfMsgInBytes.toNat ++ q.1.tlvs.flatMap TLV.bytes)).toList
  fits : messageSize q.1.tlvs - 16 ≤ bufferSize

/-- This message was deserialized from these bytes: as many as the size field says, or as the buffer
    has room for. -/
structure Read (md5 : List UInt8 → Digest) (r : List UInt8 × Message) : Prop where
  frame : Frame 4 frameSize r.1
  message : ofLE (r.1.take 4) = r.1.length → ∃ m k,
    Message.deserialize md5 m (Memory.ofList r.1) r.1.length = (.ok k, r.2)

/-- What has been read of the description are the messages that were serialized. -/
def Described (description : List UInt8) (p : Process) : Prop :=
  Begins description ((queries p.trace).map (fun q => q.1.tlvs)) p.input

/-- A message has been serialized, and its response is yet to come. -/
def Underway (description : List UInt8) (p : Process) : Prop :=
  Described description p ∧ (asked p.trace).length = (answered p.trace).length + 1

/-- What holds at the end, however it came: parts of messages and responses may be lost. -/
structure Settled (description : List UInt8) (t : List Event) : Prop where
  described : ∃ rest, Begins description ((queries t).map (fun q => q.1.tlvs)) rest
  sent : sent t <+: (asked t).flatten
  received : (answered t).flatten <+: received t
  count : (answered t).length ≤ (asked t).length
  ahead : (asked t).length ≤ (answered t).length + 1

/-- What has been sent and received, at each program point. -/
def Account (description : List UInt8) (p : Process) : Pc → Prop
  | .head => Described description p ∧ (asked p.trace).length = (answered p.trace).length ∧
      sent p.trace = (asked p.trace).flatten ∧ received p.trace = (answered p.trace).flatten
  | .sending offset n => Underway description p ∧ n < 2 ^ 64 ∧
      sent p.trace ++ slice p.buffer offset n = (asked p.trace).flatten ∧
      received p.trace = (answered p.trace).flatten
  | .receivingSize => Underway description p ∧
      sent p.trace = (asked p.trace).flatten ∧ received p.trace = (answered p.trace).flatten
  | .receiving completeSize offset n => Underway description p ∧ 4 ≤ offset ∧
      completeSize = ofLE (slice p.buffer 0 4) ∧ offset + n = frameSize (slice p.buffer 0 4) ∧
      sent p.trace = (asked p.trace).flatten ∧
      received p.trace = (answered p.trace).flatten ++ slice p.buffer 0 offset
  | .failing _ | .killed => Settled description p.trace
  | .exited code => Settled description p.trace ∧ (code = 0 →
      Yields description ((queries p.trace).map (fun q => q.1.tlvs)) ∧
      (asked p.trace).length = (answered p.trace).length ∧ sent p.trace = (asked p.trace).flatten)

/-- The queries and responses so far. -/
structure Books (md5 : List UInt8 → Digest) (t : List Event) : Prop where
  written : ∀ q ∈ queries t, Written md5 q
  read : ∀ r ∈ responses t, Read md5 r

structure Ledger (md5 : List UInt8 → Digest) (description : List UInt8) (p : Process) : Prop where
  books : Books md5 p.trace
  account : Account description p p.pc

/-- What the system promises: `send` takes no more than it was offered, and `recv` gives no more than
    it was asked for. -/
def Bounded (p : Process) : Action → Prop
  | .send (.ok k) =>
    match p.pc with
    | .sending _ n => k ≤ n
    | _ => True
  | .recv (.ok data) =>
    match p.pc with
    | .receivingSize => data.length ≤ 4
    | .receiving _ _ n => data.length ≤ n
    | _ => True
  | _ => True

instance (p : Process) (a : Action) : Decidable (Bounded p a) := by
  unfold Bounded
  split
  · split <;> infer_instance
  · split <;> infer_instance
  · infer_instance

section
variable {md5 : List UInt8 → Digest} {description : List UInt8} {p q : Process} {t : List Event}
  {e : Event} {pc : Pc}

/-- A call that neither starts nor ends an exchange. -/
def Between (e : Event) : Prop := queryBy e = none ∧ responseBy e = none

theorem Between.queries (h : Between e) (t : List Event) : queries (t ++ [e]) = queries t := by
  rw [queries_concat, h.1]
  simp

theorem Between.responses (h : Between e) (t : List Event) : responses (t ++ [e]) = responses t := by
  rw [responses_concat, h.2]
  simp

theorem Between.asked (h : Between e) (t : List Event) : asked (t ++ [e]) = asked t := by
  rw [Client.asked, h.queries, Client.asked]

theorem Between.answered (h : Between e) (t : List Event) : answered (t ++ [e]) = answered t := by
  rw [Client.answered, h.responses, Client.answered]

theorem Underway.next (h : Underway description p) (hinput : q.input = p.input)
    (ht : q.trace = p.trace) (he : Between e) : Underway description (q.next e pc) := by
  have htrace : (q.next e pc).trace = p.trace ++ [e] := by rw [← ht]; rfl
  have hrest : (q.next e pc).input = p.input := hinput
  rw [Underway, Described, htrace, hrest, he.queries, he.asked, he.answered]
  exact h

theorem Settled.concat (h : Settled description t) (he : Between e) (hsent : sentBy e = []) :
    Settled description (t ++ [e]) := by
  constructor
  · rw [he.queries]
    exact h.described
  · rw [sent_concat, hsent, List.append_nil, he.asked]
    exact h.sent
  · rw [received_concat, he.answered]
    exact h.received.trans (List.prefix_append _ _)
  · rw [he.asked, he.answered]
    exact h.count
  · rw [he.asked, he.answered]
    exact h.ahead

/-- At every program point the client could stop. -/
theorem Account.settled (h : Account description p pc) : Settled description p.trace := by
  cases pc with
  | head =>
    obtain ⟨hdescribed, hcount, hsent, hreceived⟩ := h
    exact ⟨⟨_, hdescribed⟩, hsent ▸ List.prefix_rfl, hreceived ▸ List.prefix_rfl, hcount.ge, by omega⟩
  | sending offset n =>
    obtain ⟨⟨hdescribed, hcount⟩, -, hsent, hreceived⟩ := h
    exact ⟨⟨_, hdescribed⟩, ⟨_, hsent⟩, hreceived ▸ List.prefix_rfl, by omega, hcount.le⟩
  | receivingSize =>
    obtain ⟨⟨hdescribed, hcount⟩, hsent, hreceived⟩ := h
    exact ⟨⟨_, hdescribed⟩, hsent ▸ List.prefix_rfl, hreceived ▸ List.prefix_rfl, by omega, hcount.le⟩
  | receiving completeSize offset n =>
    obtain ⟨⟨hdescribed, hcount⟩, -, -, -, hsent, hreceived⟩ := h
    exact ⟨⟨_, hdescribed⟩, hsent ▸ List.prefix_rfl, ⟨_, hreceived.symm⟩, by omega, hcount.le⟩
  | failing what => exact h
  | killed => exact h
  | exited code => exact h.1

theorem Books.concat (h : Books md5 t) (he : Between e) : Books md5 (t ++ [e]) := by
  constructor
  · rw [he.queries]
    exact h.written
  · rw [he.responses]
    exact h.read

/-- A call between the start and the end of an exchange. -/
theorem Ledger.next (h : Ledger md5 description p) (ht : q.trace = p.trace) (he : Between e)
    (haccount : Account description (q.next e pc) pc) : Ledger md5 description (q.next e pc) := by
  refine ⟨?_, haccount⟩
  change Books md5 (q.trace ++ [e])
  rw [ht]
  exact h.books.concat he

/-- A call that throws. -/
theorem Ledger.fail {what : String} (h : Ledger md5 description p) (ht : q.trace = p.trace)
    (he : Between e) (hsent : sentBy e = []) :
    Ledger md5 description (q.next e (.failing what)) := by
  refine h.next ht he ?_
  change Settled description (q.trace ++ [e])
  rw [ht]
  exact h.account.settled.concat he hsent

/-! ### The loop up to the first call -/

/-- The next message of the description. -/
theorem Described.query {msg : Message} {input : List UInt8} (h : Described description p)
    (hparse : parse p.input = (.ok true, msg, input)) :
    Begins description ((queries p.trace).map (fun q => q.1.tlvs) ++ [msg.tlvs]) input := by
  have hnext := h.concat (by rw [hparse])
  rwa [hparse] at hnext

theorem ledger_query {msg msg' : Message} {input : List UInt8} {b : Buffer} {sendSize : ℕ}
    {printed : List (String × Message)} (h : Ledger md5 description p) (hpc : p.pc = .head)
    (hparse : parse p.input = (.ok true, msg, input))
    (hser : msg.serialize md5 (Buffer.fresh p.buffer) bufferSize = (.ok sendSize, msg', b)) :
    Ledger md5 description { p with
      msg := msg'
      input := input
      buffer := b.bytes
      printed := printed
      trace := p.trace ++ [.serialize msg' (slice b.bytes 0 sendSize)]
      pc := .sending 0 sendSize } := by
  have haccount := h.account
  rw [hpc] at haccount
  obtain ⟨hdescribed, hcount, hsent, hreceived⟩ := haccount
  -- what the serializer has written
  rcases serialize_cases md5 msg p.buffer (n := bufferSize) (by decide) with
    ⟨-, e, b', herror⟩ | ⟨-, hroom, b', hok, hholds⟩
  · rw [hser] at herror
    exact absurd (congrArg Prod.fst herror) (by simp)
  rw [hser] at hok
  obtain ⟨hsize, hrest⟩ := Prod.mk.inj hok
  obtain ⟨hmsg, rfl⟩ := Prod.mk.inj hrest
  obtain rfl := Except.ok.inj hsize
  have htlvs : msg'.tlvs = msg.tlvs := by rw [hmsg]
  have hcomplete : msg'.getCompleteSizeOfMsgInBytes = msg.getCompleteSizeOfMsgInBytes := by
    rw [hmsg]
    rfl
  have hbytes := hholds.bytes
  rw [List.length_append, List.length_append, length_toLE, length_flatMap_bytes,
    List.Vector.toList_length, show 4 + tlvsSize msg.tlvs + 16 = messageSize msg.tlvs by
      rw [messageSize]; omega] at hbytes
  have hwritten : Written md5 (msg', slice b.bytes 0 (messageSize msg.tlvs)) := by
    refine ⟨?_, by rwa [htlvs]⟩
    rw [hcomplete, htlvs]
    exact hbytes
  have hlt : messageSize msg.tlvs < 2 ^ 64 := by
    have hle : messageSize msg.tlvs - 16 ≤ 65536 := hroom
    omega
  refine ⟨⟨?_, ?_⟩, ?_⟩
  · intro q hq
    rw [queries_concat, List.mem_append] at hq
    rcases hq with hq | hq
    · exact h.books.written q hq
    · obtain rfl := List.mem_singleton.mp hq
      exact hwritten
  · rw [responses_concat]
    simpa [responseBy] using h.books.read
  · refine ⟨⟨?_, ?_⟩, hlt, ?_, ?_⟩
    · have hbegins := hdescribed.query hparse
      rw [Described, queries_concat]
      simpa [queryBy, htlvs] using hbegins
    · rw [asked, answered, List.length_map, List.length_map] at hcount ⊢
      rw [queries_concat, responses_concat]
      simp [queryBy, responseBy, hcount]
    · rw [sent_concat, hsent, asked, asked, queries_concat]
      simp [sentBy, queryBy]
    · rw [received_concat, hreceived, answered, answered, responses_concat]
      simp [receivedBy, responseBy]

/-! ### Sending -/

theorem ledger_send {offset n k : ℕ} (h : Ledger md5 description p) (hpc : p.pc = .sending offset n)
    (hk : k ≤ n) : Ledger md5 description (p.next (.send (slice p.buffer offset n) (.ok k))
      (if k = n then .receivingSize else .sending (offset + k) (sizeSub n k))) := by
  have haccount := h.account
  rw [hpc] at haccount
  obtain ⟨hunderway, hn, hsent, hreceived⟩ := haccount
  have he : Between (.send (slice p.buffer offset n) (.ok k)) := ⟨rfl, rfl⟩
  -- the bytes that were taken, and the rest
  have hsplit : slice p.buffer offset n =
      slice p.buffer offset k ++ slice p.buffer (offset + k) (n - k) := by
    rw [← slice_add, Nat.add_sub_cancel' hk]
  have htaken : sent (p.trace ++ [.send (slice p.buffer offset n) (.ok k)]) =
      sent p.trace ++ slice p.buffer offset k := by
    rw [sent_concat, sentBy, take_slice _ _ hk]
  have hnothing : received (p.trace ++ [.send (slice p.buffer offset n) (.ok k)]) =
      (answered (p.trace ++ [.send (slice p.buffer offset n) (.ok k)])).flatten := by
    rw [received_concat, he.answered, hreceived]
    exact List.append_nil _
  refine h.next rfl he ?_
  split_ifs with hall
  · subst hall
    refine ⟨hunderway.next rfl rfl he, ?_, hnothing⟩
    change sent (p.trace ++ [_]) = (asked (p.trace ++ [_])).flatten
    rw [htaken, he.asked, hsent]
  · refine ⟨hunderway.next rfl rfl he, ?_, ?_, hnothing⟩
    · rw [sizeSub]
      omega
    · change sent (p.trace ++ [_]) ++ slice p.buffer (offset + k) (sizeSub n k) =
        (asked (p.trace ++ [_])).flatten
      rw [htaken, he.asked, sizeSub_eq hk hn, List.append_assoc, ← hsplit, hsent]

/-! ### Receiving -/

/-- What is received is stored behind what was received before. -/
theorem received_stores (len : ℕ) (data : List UInt8) {offset : ℕ}
    (h : received p.trace = (answered p.trace).flatten ++ slice p.buffer 0 offset) :
    received (p.trace ++ [.recv offset len (.ok data)]) =
      (answered (p.trace ++ [.recv offset len (.ok data)])).flatten ++
        slice (p.buffer.stores offset data) 0 (offset + data.length) := by
  have he : Between (.recv offset len (.ok data)) := ⟨rfl, rfl⟩
  rw [received_concat, he.answered, h, Memory.slice_stores_append, List.append_assoc]
  rfl

theorem sent_recv {offset len : ℕ} {result : Except String (List UInt8)}
    (h : sent p.trace = (asked p.trace).flatten) :
    sent (p.trace ++ [.recv offset len result]) =
      (asked (p.trace ++ [.recv offset len result])).flatten := by
  have he : Between (.recv offset len result) := ⟨rfl, rfl⟩
  rw [sent_concat, he.asked, h]
  exact List.append_nil _

theorem ledger_recvSize {data : List UInt8} {completeSize : ℕ} (h : Ledger md5 description p)
    (hpc : p.pc = .receivingSize) (hdata : data.length = 4)
    (hsize : completeSize = (fromLE32 (p.buffer.stores 0 data)).toNat) :
    Ledger md5 description ({ p with buffer := p.buffer.stores 0 data }.next
      (.recv 0 4 (.ok data))
      (.receiving completeSize 4 (sizeSub (min bufferSize completeSize) 4))) := by
  have haccount := h.account
  rw [hpc] at haccount
  obtain ⟨hunderway, hsent, hreceived⟩ := haccount
  have hfour : completeSize = ofLE (slice (p.buffer.stores 0 data) 0 4) := by
    rw [hsize, fromLE32, MessageBuilder.toNat_fromLE32]
  refine h.next rfl ⟨rfl, rfl⟩ ⟨hunderway.next rfl rfl ⟨rfl, rfl⟩, le_refl 4, hfour, ?_,
    sent_recv hsent, ?_⟩
  · rw [frameSize, hfour]
    rfl
  · have hnothing : received p.trace = (answered p.trace).flatten ++ slice p.buffer 0 0 := by
      rw [hreceived, slice, List.append_nil]
    have hstored := received_stores 4 data hnothing
    rw [hdata] at hstored
    exact hstored

/-- The rest of the response, or a part of it. -/
theorem account_recv (pc : Pc) {completeSize offset n : ℕ} {data : List UInt8}
    (hdata : data.length ≤ n)
    (h : Account description p (.receiving completeSize offset n)) :
    Account description ({ p with buffer := p.buffer.stores offset data }.next
      (.recv offset n (.ok data)) pc)
      (.receiving completeSize (offset + data.length) (sizeSub n data.length)) := by
  obtain ⟨hunderway, hoffset, hsize, hframe, hsent, hreceived⟩ := h
  have hfour : slice (p.buffer.stores offset data) 0 4 = slice p.buffer 0 4 :=
    slice_congr (fun i _ hi => Memory.stores_outside data p.buffer offset i (by omega))
  have hn : n < 2 ^ 64 := by
    rw [frameSize, sizeSub] at hframe
    omega
  refine ⟨hunderway.next rfl rfl ⟨rfl, rfl⟩, by omega, ?_, ?_, sent_recv hsent,
    received_stores n data hreceived⟩
  · exact hsize.trans (congrArg ofLE hfour.symm)
  · change offset + data.length + sizeSub n data.length =
      frameSize (slice (p.buffer.stores offset data) 0 4)
    rw [hfour, ← hframe, sizeSub_eq hdata hn]
    omega

theorem ledger_recvPart {completeSize offset n : ℕ} {data : List UInt8}
    (h : Ledger md5 description p) (hpc : p.pc = .receiving completeSize offset n)
    (hdata : data.length ≤ n) : Ledger md5 description
      ({ p with buffer := p.buffer.stores offset data }.next (.recv offset n (.ok data))
        (.receiving completeSize (offset + data.length) (sizeSub n data.length))) := by
  have haccount := h.account
  rw [hpc] at haccount
  exact h.next rfl ⟨rfl, rfl⟩ (account_recv _ hdata haccount)

/-! ### The loop after the last call -/

/-- A response is deserialized from the bytes that were received. -/
theorem read_of_deserialize {m m' : Message} {completeSize n k : ℕ} {t : Memory} (hn : 0 < n)
    (hfour : 4 ≤ n) (hsize : completeSize = ofLE (slice t 0 4)) (hframe : n = frameSize (slice t 0 4))
    (h : m.deserialize md5 t completeSize = (.ok k, m')) : Read md5 (slice t 0 n, m') := by
  have htake : (slice t 0 n).take 4 = slice t 0 4 := take_slice t 0 hfour
  refine ⟨⟨by simpa using hfour, by simpa using hn, ?_⟩, fun hlength => ⟨m, k, ?_⟩⟩
  · rw [length_slice, htake]
    exact hframe
  · dsimp only at hlength ⊢
    rw [htake, ← hsize, length_slice] at hlength
    rw [length_slice, ← h, hlength]
    refine deserialize_congr md5 m fun i hi _ => byte_eq_of_slice_eq ?_ hi
    have hback := slice_ofList (slice t 0 n)
    rwa [length_slice] at hback

theorem ledger_finish {completeSize n : ℕ} (h : Books md5 p.trace)
    (haccount : Account description p (.receiving completeSize n 0)) :
    Ledger md5 description (p.finish md5 completeSize n) := by
  rw [Process.finish]
  split
  · exact ⟨h, haccount.settled⟩
  · rename_i k msg hread
    obtain ⟨⟨hdescribed, hcount⟩, hfour, hsize, hframe, hsent, hreceived⟩ := haccount
    refine ⟨⟨?_, ?_⟩, ?_, ?_, ?_, ?_⟩
    · rw [queries_concat]
      simpa [queryBy] using h.written
    · intro r hr
      rw [responses_concat, List.mem_append] at hr
      rcases hr with hr | hr
      · exact h.read r hr
      · obtain rfl := List.mem_singleton.mp hr
        exact read_of_deserialize (by omega) hfour hsize hframe hread
    · rw [Described] at hdescribed
      rw [Described, queries_concat]
      simpa [queryBy] using hdescribed
    · rw [asked, answered, List.length_map, List.length_map] at hcount ⊢
      rw [queries_concat, responses_concat]
      simp [queryBy, responseBy, hcount]
    · rw [sent_concat, hsent, asked, asked, queries_concat]
      simp [sentBy, queryBy]
    · rw [received_concat, hreceived, answered, answered, responses_concat]
      simp [receivedBy, responseBy]

/-! ### Runs -/

/-- Every step keeps the books. -/
theorem ledger_step (p : Process) (a : Action) (p' : Process) (h : Ledger md5 description p)
    (hbounded : Bounded p a) (hstep : step md5 p a = some p') : Ledger md5 description p' := by
  cases step_cases hstep with
  | syntaxError => exact ⟨h.books, h.account.settled⟩
  | done hpc hparse =>
    have haccount := h.account
    rw [hpc] at haccount
    refine ⟨h.books, h.account.settled, fun _ => ⟨?_, haccount.2.1, haccount.2.2.1⟩⟩
    have hyields := haccount.1.yields ((yields_nil_iff (by rw [hparse])).mpr rfl)
    rwa [List.append_nil] at hyields
  | tooLarge => exact ⟨h.books, h.account.settled⟩
  | query hpc hparse hser => exact ledger_query h hpc hparse hser
  | sendError => exact h.fail rfl ⟨rfl, rfl⟩ rfl
  | sendOk hpc =>
    rw [Bounded, hpc] at hbounded
    exact ledger_send h hpc hbounded
  | sigpipe => exact ⟨h.books, h.account.settled⟩
  | recvSizeError => exact h.fail rfl ⟨rfl, rfl⟩ rfl
  | recvError => exact h.fail rfl ⟨rfl, rfl⟩ rfl
  | recvShort => exact h.fail rfl ⟨rfl, rfl⟩ rfl
  | recvSize hpc hdata hsize => exact ledger_recvSize h hpc hdata hsize
  | recvClosed => exact h.fail rfl ⟨rfl, rfl⟩ rfl
  | recvPart hpc =>
    rw [Bounded, hpc] at hbounded
    exact ledger_recvPart h hpc hbounded
  | recvAll hpc hdata hn =>
    rename_i completeSize offset n data
    have haccount := h.account
    rw [hpc] at haccount
    have hlast := account_recv .head hdata.le haccount
    rw [hdata, sizeSub, sub_self] at hlast
    exact ledger_finish (h.books.concat ⟨rfl, rfl⟩) hlast
  | close =>
    refine h.next rfl ⟨rfl, rfl⟩ ⟨h.account.settled.concat ⟨rfl, rfl⟩ rfl, ?_⟩
    exact fun hcode => absurd hcode (by simp)

theorem ledger_init (quiet : Bool) (description : List UInt8) (buffer : Memory) :
    Ledger md5 description (Process.init quiet description buffer) := by
  refine ⟨⟨by simp [Process.init, queries], by simp [Process.init, responses]⟩, ?_⟩
  exact ⟨rfl, rfl, rfl, rfl⟩

end

end NHA.Client
