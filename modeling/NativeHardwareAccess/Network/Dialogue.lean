import NativeHardwareAccess.Client.Exchange
import NativeHardwareAccess.Server.Exchange

/-! A client and the server on one connection.

    The two programs run at the same time, in any interleaving; the server serves other connections as
    well. Between them the system carries two streams of bytes, delivers them in order and may cut them
    anywhere:

        client ─ send ─▶ up   ─ recv ─▶ server
        client ◀ recv ─  down ◀─ send ─ server

    The connection is waiting until the server accepts it; it is live as long as the server has not
    closed its descriptor, and then it is closed. -/

namespace NHA.Network
open Scheme Scheme.MD5 Scheme.Framing NHA.MessageBuilder NHA.Session NHA.Nhac
open NHA.Serving (Fd Errno Event maxSizeOfMessage)
open NHA.Threads (Lawful Owned Tracked Measured Open SetupCalls SetupEvent setupServer openAfter)
open NHA.Language (Yields)

/-- The connection as the server sees it: its descriptor, and the server's calls since it was
    accepted and before it was closed. -/
inductive Link where
  | waiting
  | live (fd : Fd) (life : List Event)
  | closed (fd : Fd) (life : List Event)

structure State where
  server : Threads.Process
  client : Client.Process
  /-- Sent by the client and not yet received. -/
  up : List UInt8
  /-- Sent by the server and not yet received. -/
  down : List UInt8
  link : Link

inductive Action where
  | server (a : Threads.Action)
  /-- The server accepts this client. -/
  | accept (fd : Fd)
  | client (a : Client.Action)

def State.init (server : Threads.Process) (client : Client.Process) : State :=
  ⟨server, client, [], [], .waiting⟩

/-- The server has made a call: what it receives on the connection is the start of the stream. -/
def State.serve (s : State) (server : Threads.Process) : Option State :=
  let calls := server.trace.drop s.server.trace.length
  match s.link with
  | .live fd life =>
    if receivedOn fd calls <+: s.up then
      some { s with
        server := server
        up := s.up.drop (receivedOn fd calls).length
        down := s.down ++ sentOn fd calls
        link := if calls.foldl (openAfter fd) true then .live fd (life ++ calls)
          else .closed fd (life ++ calls) }
    else none
  | _ => some { s with server := server }

/-- The client has made a call. -/
def State.talk (s : State) (client : Client.Process) : Option State :=
  let calls := client.trace.drop s.client.trace.length
  if Client.received calls <+: s.down then
    some { s with
      client := client
      up := s.up ++ Client.sent calls
      down := s.down.drop (Client.received calls).length }
  else none

/-- One step of one of the programs, with what the system promises about its calls. -/
def step (md5 : List UInt8 → Digest) (s : State) : Action → Option State
  | .server a =>
    if Lawful s.server a then (Threads.step md5 s.server a).bind s.serve else none
  | .accept fd =>
    match s.link with
    | .waiting =>
      if Lawful s.server (.accept (.ok fd)) then
        (Threads.step md5 s.server (.accept (.ok fd))).map
          (fun server => { s with server := server, link := .live fd [] })
      else none
    | _ => none
  | .client a =>
    if Client.Bounded s.client a then (Client.step md5 s.client a).bind s.talk else none

/-! ### The books of the connection -/

/-- What one side has sent is what the other has received and what is on its way. -/
structure Balanced (up down : List UInt8) (t : List Client.Event) (fd : Fd) (life : List Event) :
    Prop where
  up : receivedOn fd life ++ up = Client.sent t
  down : Client.received t ++ down = sentOn fd life

/-- The calls since the acceptance are part of the server's calls, and there is no other acceptance
    of the descriptor among them. -/
def Linked (s : State) : Link → Prop
  | .waiting => s.up = Client.sent s.client.trace ∧ s.down = [] ∧ Client.received s.client.trace = []
  | .live fd life => (∃ pre, s.server.trace = pre ++ .accept (.ok fd) :: life) ∧
      .accept (.ok fd) ∉ life ∧ .close fd ∉ life ∧ Balanced s.up s.down s.client.trace fd life
  | .closed fd life => (∃ pre post, s.server.trace = pre ++ .accept (.ok fd) :: life ++ post) ∧
      .accept (.ok fd) ∉ life ∧ Balanced s.up s.down s.client.trace fd life

structure Inv (md5 : List UInt8 → Digest) (serverSocket : Fd) (description : List UInt8)
    (s : State) : Prop where
  owned : Owned serverSocket s.server
  tracked : ∀ fd, Tracked md5 fd s.server
  measured : Measured s.server
  ledger : Client.Ledger md5 description s.client
  link : Linked s s.link

section
variable {md5 : List UInt8 → Digest} {serverSocket : Fd} {description : List UInt8} {s s' : State}

/-- The server receives from the start of the one stream and sends to the end of the other. -/
theorem Balanced.serve {up down : List UInt8} {t : List Client.Event} {fd : Fd}
    {life calls : List Event} (h : Balanced up down t fd life) (hstart : receivedOn fd calls <+: up) :
    Balanced (up.drop (receivedOn fd calls).length) (down ++ sentOn fd calls) t fd (life ++ calls) := by
  obtain ⟨rest, rfl⟩ := hstart
  constructor
  · rw [← h.up, List.drop_left, receivedOn, List.flatMap_append, List.append_assoc]
    rfl
  · rw [← List.append_assoc, h.down, sentOn, sentOn, sentOn, List.flatMap_append]

/-- So does the client. -/
theorem Balanced.talk {up down : List UInt8} {t calls : List Client.Event} {fd : Fd}
    {life : List Event} (h : Balanced up down t fd life) (hstart : Client.received calls <+: down) :
    Balanced (up ++ Client.sent calls) (down.drop (Client.received calls).length) (t ++ calls) fd
      life := by
  obtain ⟨rest, rfl⟩ := hstart
  constructor
  · rw [← List.append_assoc, h.up, Client.sent, Client.sent, Client.sent, List.flatMap_append]
  · rw [← h.down, List.drop_left, Client.received, List.flatMap_append, List.append_assoc]
    rfl

/-! ### The server's steps -/

theorem openAfter_true {fd : Fd} {e : Event} : openAfter fd true e = true ↔ e ≠ .close fd := by
  cases e with
  | accept result => cases result <;> simp [openAfter]
  | close fd' => simp [openAfter]
  | _ => simp [openAfter]

/-- The calls of one step: at most one, and an acceptance only by an accept. -/
theorem calls_of_step {a : Threads.Action} {p p' : Threads.Process}
    (h : Threads.step md5 p a = some p') : ∃ calls, p'.trace = p.trace ++ calls ∧
      ∀ e ∈ calls, calls = [e] ∧ ∀ fd, e = .accept (.ok fd) → a = .accept (.ok fd) := by
  rcases Threads.step_trace h with hsame | ⟨e, hnew, haccept⟩
  · exact ⟨[], by rw [hsame, List.append_nil], by simp⟩
  · refine ⟨[e], hnew, ?_⟩
    intro e' he'
    obtain rfl := List.mem_singleton.mp he'
    exact ⟨rfl, haccept⟩

theorem linked_serve {a : Threads.Action} {server : Threads.Process} (h : Linked s s.link)
    (hlawful : Lawful s.server a) (hstep : Threads.step md5 s.server a = some server)
    (hserve : s.serve server = some s') :
    Linked s' s'.link ∧ s'.server = server ∧ s'.client = s.client := by
  obtain ⟨calls, hcalls, hone⟩ := calls_of_step hstep
  have hdrop : server.trace.drop s.server.trace.length = calls := by rw [hcalls, List.drop_left]
  obtain ⟨process, client, up, down, link⟩ := s
  cases link with
  | waiting =>
    obtain rfl := Option.some.inj hserve
    exact ⟨h, rfl, rfl⟩
  | closed fd life =>
    obtain rfl := Option.some.inj hserve
    obtain ⟨⟨pre, post, htrace⟩, hnew, hbalanced⟩ := h
    refine ⟨⟨⟨pre, post ++ calls, ?_⟩, hnew, hbalanced⟩, rfl, rfl⟩
    dsimp only at hcalls htrace ⊢
    rw [hcalls, htrace, List.append_assoc]
  | live fd life =>
    obtain ⟨⟨pre, htrace⟩, hnew, hclose, hbalanced⟩ := h
    dsimp only at hcalls htrace hdrop hlawful
    have htrace' : server.trace = pre ++ .accept (.ok fd) :: (life ++ calls) := by
      rw [hcalls, htrace, List.append_assoc, List.cons_append]
    have hnew' : .accept (.ok fd) ∉ life ++ calls := by
      rw [List.mem_append, not_or]
      refine ⟨hnew, fun hmem => ?_⟩
      -- the descriptor is open, so it is not accepted once more
      have haccept := (hone _ hmem).2 fd rfl
      subst haccept
      exact hlawful.1.1 ⟨pre, life, htrace, hclose⟩
    rw [State.serve] at hserve
    dsimp only at hserve
    rw [hdrop] at hserve
    split_ifs at hserve with hstart hlive
    · obtain rfl := Option.some.inj hserve
      refine ⟨⟨⟨pre, htrace'⟩, hnew', ?_, hbalanced.serve hstart⟩, rfl, rfl⟩
      rw [List.mem_append, not_or]
      refine ⟨hclose, fun hmem => ?_⟩
      rw [(hone _ hmem).1] at hlive
      exact (openAfter_true (e := .close fd)).mp hlive rfl
    · obtain rfl := Option.some.inj hserve
      refine ⟨⟨⟨pre, [], ?_⟩, hnew', hbalanced.serve hstart⟩, rfl, rfl⟩
      rw [List.append_nil]
      exact htrace'

/-- A step of the server keeps the server's own invariants. -/
theorem Inv.serve {a : Threads.Action} {server : Threads.Process} (h : Inv md5 serverSocket description s)
    (hlawful : Lawful s.server a) (hstep : Threads.step md5 s.server a = some server) :
    Owned serverSocket server ∧ (∀ fd, Tracked md5 fd server) ∧ Measured server := by
  refine ⟨?_, fun fd => ?_, Threads.measured_step _ _ _ h.measured hlawful.2 hstep⟩
  · exact (Threads.tracked_step _ _ _ ⟨h.owned, h.tracked serverSocket⟩ hlawful hstep).1
  · exact (Threads.tracked_step _ _ _ ⟨h.owned, h.tracked fd⟩ hlawful hstep).2

/-! ### The client's steps -/

/-- A step of the client only adds to its trace. -/
theorem client_trace {a : Client.Action} {p p' : Client.Process} (h : Client.step md5 p a = some p') :
    ∃ calls, p'.trace = p.trace ++ calls := by
  cases Client.step_cases h with
  | syntaxError => exact ⟨[], (List.append_nil _).symm⟩
  | done => exact ⟨[], (List.append_nil _).symm⟩
  | tooLarge => exact ⟨[], (List.append_nil _).symm⟩
  | sigpipe => exact ⟨[], (List.append_nil _).symm⟩
  | recvAll =>
    rw [Client.Process.finish]
    split
    · exact ⟨_, rfl⟩
    · exact ⟨_, List.append_assoc _ _ _⟩
  | _ => exact ⟨_, rfl⟩

theorem linked_talk {a : Client.Action} {client : Client.Process} (h : Linked s s.link)
    (hstep : Client.step md5 s.client a = some client) (htalk : s.talk client = some s') :
    Linked s' s'.link ∧ s'.client = client ∧ s'.server = s.server := by
  obtain ⟨calls, hcalls⟩ := client_trace hstep
  have hdrop : client.trace.drop s.client.trace.length = calls := by rw [hcalls, List.drop_left]
  obtain ⟨server, process, up, down, link⟩ := s
  dsimp only at hcalls hdrop
  rw [State.talk] at htalk
  dsimp only at htalk
  rw [hdrop] at htalk
  split_ifs at htalk with hstart
  obtain rfl := Option.some.inj htalk
  refine ⟨?_, rfl, rfl⟩
  dsimp only
  cases link with
  | waiting =>
    obtain ⟨hup, hdown, hreceived⟩ := h
    dsimp only at hup hdown hreceived
    subst hdown
    have hnothing : Client.received calls = [] := List.prefix_nil.mp hstart
    refine ⟨?_, ?_, ?_⟩
    · dsimp only
      rw [hcalls, hup, Client.sent, Client.sent, Client.sent, List.flatMap_append]
    · exact List.drop_nil
    · dsimp only
      rw [hcalls, Client.received, List.flatMap_append]
      rw [Client.received] at hreceived hnothing
      rw [hreceived, hnothing]
      rfl
  | live fd life =>
    obtain ⟨htrace, hnew, hclose, hbalanced⟩ := h
    refine ⟨htrace, hnew, hclose, ?_⟩
    dsimp only
    rw [hcalls]
    exact hbalanced.talk hstart
  | closed fd life =>
    obtain ⟨htrace, hnew, hbalanced⟩ := h
    refine ⟨htrace, hnew, ?_⟩
    dsimp only
    rw [hcalls]
    exact hbalanced.talk hstart

/-! ### Runs -/

/-- Every step of the system keeps the invariant. -/
theorem inv_step (s : State) (a : Action) (s' : State) (h : Inv md5 serverSocket description s)
    (hstep : step md5 s a = some s') : Inv md5 serverSocket description s' := by
  cases a with
  | server a =>
    rw [step] at hstep
    split_ifs at hstep with hlawful
    obtain ⟨server, hserver, hserve⟩ := Option.bind_eq_some_iff.mp hstep
    obtain ⟨howned, htracked, hmeasured⟩ := h.serve hlawful hserver
    obtain ⟨hlinked, rfl, hclient⟩ := linked_serve h.link hlawful hserver hserve
    exact ⟨howned, htracked, hmeasured, hclient ▸ h.ledger, hlinked⟩
  | accept fd =>
    rw [step] at hstep
    cases hlink : s.link with
    | waiting =>
      rw [hlink] at hstep
      dsimp only at hstep
      split_ifs at hstep with hlawful
      obtain ⟨server, hserver, rfl⟩ := Option.map_eq_some_iff.mp hstep
      obtain ⟨howned, htracked, hmeasured⟩ := h.serve hlawful hserver
      refine ⟨howned, htracked, hmeasured, h.ledger, ?_⟩
      have hwaiting := h.link
      rw [hlink] at hwaiting
      obtain ⟨hup, hdown, hreceived⟩ := hwaiting
      have htrace : server.trace = s.server.trace ++ [.accept (.ok fd)] := by
        cases Threads.step_cases hserver <;> rfl
      refine ⟨⟨s.server.trace, htrace⟩, by simp, by simp, ?_, ?_⟩
      · exact hup
      · dsimp only
        rw [hreceived, hdown]
        rfl
    | live => simp [hlink] at hstep
    | closed => simp [hlink] at hstep
  | client a =>
    rw [step] at hstep
    split_ifs at hstep with hbounded
    obtain ⟨client, hclient, htalk⟩ := Option.bind_eq_some_iff.mp hstep
    have hledger := Client.ledger_step _ _ _ h.ledger hbounded hclient
    obtain ⟨hlinked, rfl, hserver⟩ := linked_talk h.link hclient htalk
    exact ⟨hserver ▸ h.owned, hserver ▸ h.tracked, hserver ▸ h.measured, hledger, hlinked⟩

theorem inv_init (timer : MonotonicTimer.Timer) (maxConnections : Int32)
    (recvBuffer sendBuffer : Memory) (errno : Errno) (quiet : Bool) (buffer : Memory) :
    Inv md5 serverSocket description (State.init
      (Threads.Process.init timer maxConnections [serverSocket] recvBuffer sendBuffer errno)
      (Client.Process.init quiet description buffer)) := by
  refine ⟨Threads.owned_init .., fun fd => ?_, ⟨trivial, by simp [State.init, Threads.Process.init]⟩,
    Client.ledger_init quiet description buffer, rfl, rfl, rfl⟩
  refine ⟨.ended, rfl, ?_, by simp [State.init, Threads.Process.init, Threads.Pc.hand]⟩
  intro j hj hfd
  rw [State.init, Threads.Process.init, List.getElem?_singleton, if_neg (by omega)] at hfd
  exact absurd hfd (by simp)

/-! ### Queries and answers -/

/-- A message whose values fit their length bytes is sent with its true size. -/
theorem frame_written {q : Message × List UInt8} (h : Client.Written md5 q)
    (hshort : ∀ tlv ∈ q.1.tlvs, tlv.value.length ≤ 255) : Frame 4 ofLE q.2 := by
  have hfits : messageSize q.1.tlvs - 16 ≤ 65536 := h.fits
  have hannounced := (announced_eq_iff q.1).mpr
    ⟨fun tlv htlv => Nat.lt_succ_of_le (hshort tlv htlv), by omega⟩
  have hlength : q.2.length = messageSize q.1.tlvs := by
    rw [h.bytes, List.length_append, List.length_append, length_toLE, length_flatMap_bytes,
      List.Vector.toList_length, messageSize]
    omega
  have hsize : 20 ≤ messageSize q.1.tlvs := by
    rw [messageSize]
    omega
  refine ⟨by omega, by omega, ?_⟩
  rw [hlength, h.bytes, hannounced, List.append_assoc, List.take_left' (length_toLE _ _),
    ofLE_toLE_of_lt (by omega)]

/-- The client cuts the stream of responses where the server does. -/
theorem frame_reply {env : Readings} {q m : List UInt8} (h : reply md5 env q = some m) :
    Frame 4 Client.frameSize m := by
  obtain ⟨hframe, hlow, hhigh⟩ := Threads.frame_response h
  refine ⟨hframe.header, hframe.pos, ?_⟩
  rw [Client.frameSize, ← hframe.length, Nat.min_eq_right (by rw [Client.bufferSize]; omega),
    sizeSub_eq (by omega) (by omega)]
  omega

/-- The calls of `createResponse` for the connection. -/
def Link.calls : Link → List (Readings × List UInt8)
  | .waiting => []
  | .live fd life | .closed fd life => callsOn fd life

theorem outputs_forall {calls : List (Readings × List UInt8)} {ms : List (List UInt8)}
    (h : Outputs md5 calls ms) : (∀ c ∈ calls, ∃ m, reply md5 c.1 c.2 = some m) ∧
      ∀ m ∈ ms, ∃ c ∈ calls, reply md5 c.1 c.2 = some m := by
  induction h with
  | nil => exact ⟨by simp, by simp⟩
  | @cons c m cs ms hc hcs ih =>
    refine ⟨List.forall_mem_cons.mpr ⟨⟨m, hc⟩, ih.1⟩, List.forall_mem_cons.mpr ⟨?_, ?_⟩⟩
    · exact ⟨c, List.mem_cons_self, hc⟩
    · intro m' hm'
      obtain ⟨c', hc', hreply⟩ := ih.2 m' hm'
      exact ⟨c', List.mem_cons_of_mem _ hc', hreply⟩

theorem measured_of_call {fd : Fd} {e : Event} {c : Readings × List UInt8}
    (h : Threads.MeasuredCall e) (hcall : callBy fd e = some c) : c.2.length ≤ maxSizeOfMessage := by
  cases e with
  | createResponse fd' env query size =>
    rw [callBy] at hcall
    split_ifs at hcall
    obtain rfl := Option.some.inj hcall
    exact h
  | _ => exact absurd hcall (by simp [callBy])

theorem Inv.frame_answered (h : Inv md5 serverSocket description s) :
    ∀ r ∈ Client.answered s.client.trace, Frame 4 Client.frameSize r := by
  intro r hr
  obtain ⟨response, hresponse, rfl⟩ := List.mem_map.mp hr
  exact (h.ledger.books.read response hresponse).frame

/-- On a connection with this life, the responses that the client has accepted are the first outputs of
    the server, and the answered calls are on the first queries of the client. -/
theorem outputs_of_life {fd : Fd} {pre life post : List Event} (h : Inv md5 serverSocket description s)
    (hshort : ∀ q ∈ Client.queries s.client.trace, ∀ tlv ∈ q.1.tlvs, tlv.value.length ≤ 255)
    (htrace : s.server.trace = pre ++ .accept (.ok fd) :: life ++ post)
    (hnew : .accept (.ok fd) ∉ life)
    (hbalanced : Balanced s.up s.down s.client.trace fd life) :
    ∃ ms, Outputs md5 ((callsOn fd life).take ms.length) ms ∧
      Client.answered s.client.trace <+: ms ∧
      ((callsOn fd life).take ms.length).map Prod.snd <+: Client.asked s.client.trace := by
  -- the calls on the connection follow the phases of a session
  obtain ⟨ph, hphase⟩ := h.tracked fd
  have hpath := hphase.path
  rw [htrace] at hpath
  obtain ⟨ph₁, hfirst, -⟩ := (Machine.path_append _).mp hpath
  obtain ⟨ph₂, -, ph₃, haccept, hrest⟩ := (Machine.path_append pre).mp hfirst
  have hlife : Machine.Path (Observed md5 fd) (.reading []) life ph₁ := by
    cases haccept with
    | accept => exact hrest
    | other helse => exact absurd rfl helse
  obtain ⟨ms, part, hsent, houtputs, hpart⟩ := (accounted_path hlife hnew).whole
  have hsettled := h.ledger.account.settled
  obtain ⟨hanswered, hreply⟩ := outputs_forall houtputs
  refine ⟨ms, houtputs, ?_, ?_⟩
  · -- the client has read frames of the stream that the server has written
    have hwritten : ∀ m ∈ ms, Frame 4 Client.frameSize m := by
      intro m hm
      obtain ⟨c, -, hc⟩ := hreply m hm
      exact frame_reply hc
    have hrest : ∀ x, Frame 4 Client.frameSize x → ¬ x <+: part := by
      intro x hx
      rcases hpart with rfl | ⟨c, m, -, hc, hstart, hne⟩
      · exact hx.not_prefix_nil
      · exact (frame_reply hc).not_prefix_of_part hstart hne hx
    refine frames_read h.frame_answered hwritten hrest (hsettled.received.trans ?_)
    rw [← hsent, ← hbalanced.down]
    exact List.prefix_append _ _
  · -- the server has read frames of the stream that the client has written
    have hread : ∀ q ∈ ((callsOn fd life).take ms.length).map Prod.snd, Frame 4 ofLE q := by
      intro q hq
      obtain ⟨c, hc, rfl⟩ := List.mem_map.mp hq
      obtain ⟨m, hm⟩ := hanswered c hc
      refine Threads.frame_query ?_ hm
      obtain ⟨e, he, hcall⟩ := List.mem_filterMap.mp (List.mem_of_mem_take hc)
      have hmem : e ∈ s.server.trace := by
        rw [htrace]
        simp [he]
      exact measured_of_call (h.measured.calls e hmem) hcall
    have hwritten : ∀ q ∈ Client.asked s.client.trace, Frame 4 ofLE q := by
      intro q hq
      obtain ⟨query, hquery, rfl⟩ := List.mem_map.mp hq
      exact frame_written (h.ledger.books.written query hquery) (hshort query hquery)
    refine frames_read hread hwritten (fun x hx => hx.not_prefix_nil) ?_
    rw [List.append_nil]
    have htaken : (((callsOn fd life).take ms.length).map Prod.snd).flatten <+: queriesOn fd life :=
      ((List.take_prefix _ _).map _).flatten
    refine htaken.trans ((Threads.queriesOn_received life hlife hnew).trans ?_)
    refine List.IsPrefix.trans ?_ hsettled.sent
    rw [← hbalanced.up]
    exact List.prefix_append _ _

/-- Before the connection is accepted there are no outputs and no responses. -/
theorem Inv.outputs (h : Inv md5 serverSocket description s)
    (hshort : ∀ q ∈ Client.queries s.client.trace, ∀ tlv ∈ q.1.tlvs, tlv.value.length ≤ 255) :
    ∃ ms, Outputs md5 (s.link.calls.take ms.length) ms ∧ Client.answered s.client.trace <+: ms ∧
      (s.link.calls.take ms.length).map Prod.snd <+: Client.asked s.client.trace := by
  have hlinked := h.link
  cases hlink : s.link with
  | waiting =>
    rw [hlink] at hlinked
    have hnone := h.ledger.account.settled.received
    rw [hlinked.2.2] at hnone
    refine ⟨[], .nil, ?_, List.nil_prefix⟩
    exact frames_read h.frame_answered (by simp) (fun x hx => hx.not_prefix_nil) hnone
  | live fd life =>
    rw [hlink] at hlinked
    obtain ⟨⟨pre, htrace⟩, hnew, -, hbalanced⟩ := hlinked
    rw [← List.append_nil (pre ++ _)] at htrace
    exact outputs_of_life h hshort htrace hnew hbalanced
  | closed fd life =>
    rw [hlink] at hlinked
    obtain ⟨⟨pre, post, htrace⟩, hnew, hbalanced⟩ := hlinked
    exact outputs_of_life h hshort htrace hnew hbalanced

theorem getElem?_of_start {α : Type} {xs ys : List α} {i : ℕ} {x : α} (h : xs <+: ys)
    (hx : xs[i]? = some x) : ys[i]? = some x := by
  obtain ⟨t, rfl⟩ := h
  rw [List.getElem?_append_left (List.getElem?_eq_some_iff.mp hx).1, hx]

/-- The response the client has accepted for its `i`-th message is the server's answer to it. -/
theorem Inv.answer (h : Inv md5 serverSocket description s)
    (hshort : ∀ q ∈ Client.queries s.client.trace, ∀ tlv ∈ q.1.tlvs, tlv.value.length ≤ 255)
    {i : ℕ} {r : List UInt8 × Message} (hr : (Client.responses s.client.trace)[i]? = some r) :
    ∃ q env, (Client.queries s.client.trace)[i]? = some q ∧ s.link.calls[i]? = some (env, q.2) ∧
      reply md5 env q.2 = some r.1 ∧
      ∃ m k, Message.deserialize md5 m (Memory.ofList r.1) r.1.length = (.ok k, r.2) := by
  obtain ⟨ms, houtputs, hanswered, hasked⟩ := h.outputs hshort
  have hm : ms[i]? = some r.1 := by
    refine getElem?_of_start hanswered ?_
    rw [Client.answered, List.getElem?_map, hr, Option.map_some]
  -- the call with this output, and the query it was on
  obtain ⟨hi, hget⟩ := List.getElem?_eq_some_iff.mp hm
  have hi' : i < (s.link.calls.take ms.length).length := by
    rw [List.Forall₂.length_eq houtputs]
    exact hi
  have hreply : reply md5 (s.link.calls.take ms.length)[i].1 (s.link.calls.take ms.length)[i].2 =
      some r.1 := by
    rw [← hget]
    exact houtputs.get hi' hi
  have hcall : s.link.calls[i]? = some (s.link.calls.take ms.length)[i] :=
    getElem?_of_start (List.take_prefix _ _) (List.getElem?_eq_getElem hi')
  have hquery : (Client.asked s.client.trace)[i]? = some (s.link.calls.take ms.length)[i].2 := by
    refine getElem?_of_start hasked ?_
    rw [List.getElem?_map, List.getElem?_eq_getElem hi', Option.map_some]
  rw [Client.asked, List.getElem?_map] at hquery
  obtain ⟨q, hq, hbytes⟩ := Option.map_eq_some_iff.mp hquery
  refine ⟨q, (s.link.calls.take ms.length)[i].1, hq, ?_, ?_, ?_⟩
  · rw [hbytes]
    exact hcall
  · rw [hbytes]
    exact hreply
  · refine (h.ledger.books.read r (List.mem_of_getElem? hr)).message ?_
    exact (Threads.frame_response hreply).1.length.symm

end

/-- CORRECT: as long as every value in the client's messages has at most 255 bytes, so that it fits
    its length byte and the message announces its true size: in every interleaving of a client and the
    server, and however the system cuts the two streams, no byte is lost, repeated or reordered between
    them, and every response that the client prints is the answer that the server computed for the
    message with the same number, on this connection: the readings are those of that call. The client
    exits with 0 only when it has read the whole description and every message of it has its
    response. -/
theorem responses_answer_queries (md5 : List UInt8 → Digest) (calls : SetupCalls)
    (sockets : List Fd) (events : List SetupEvent) (timer : MonotonicTimer.Timer)
    (maxConnections : Int32) (recvBuffer sendBuffer : Memory) (errno : Errno) (quiet : Bool)
    (description : List UInt8) (buffer : Memory) (actions : List Action) (s : State)
    (hsetup : setupServer calls = (true, sockets, events))
    (hrun : Machine.run (step md5) (State.init
      (Threads.Process.init timer maxConnections sockets recvBuffer sendBuffer errno)
      (Client.Process.init quiet description buffer)) actions = some s)
    (hshort : ∀ q ∈ Client.queries s.client.trace, ∀ tlv ∈ q.1.tlvs, tlv.value.length ≤ 255) :
    Linked s s.link ∧
    (∀ (i : ℕ) (r : List UInt8 × Message), (Client.responses s.client.trace)[i]? = some r →
      ∃ (q : Message × List UInt8) (env : Readings), (Client.queries s.client.trace)[i]? = some q ∧
        s.link.calls[i]? = some (env, q.2) ∧ reply md5 env q.2 = some r.1 ∧
        ∃ m k, Message.deserialize md5 m (Memory.ofList r.1) r.1.length = (.ok k, r.2)) ∧
    (s.client.pc = .exited 0 →
      Yields description ((Client.queries s.client.trace).map (fun q => q.1.tlvs)) ∧
      (Client.responses s.client.trace).length = (Client.queries s.client.trace).length) := by
  obtain ⟨server, rfl, -⟩ := Threads.setupServer_ok hsetup
  have hinv : Inv md5 server description s :=
    Machine.run_invariant (fun s a s' h _ => inv_step s a s' h) actions (inv_init ..)
      (Machine.along_of_forall (fun _ _ => trivial) _ _) hrun
  refine ⟨hinv.link, fun i r hr => hinv.answer hshort hr, fun hpc => ?_⟩
  have haccount := hinv.ledger.account
  rw [hpc] at haccount
  obtain ⟨hyields, hcount, -⟩ := haccount.2 rfl
  rw [Client.asked, Client.answered, List.length_map, List.length_map] at hcount
  exact ⟨hyields, hcount.symm⟩

/-- The client asks for the device ID. Its query is sent in two pieces, and the response is received in
    three. -/
def sampleDialogue : List Action :=
  let response := sampleResponse deviceIDQuery 40
  [.client .turn, .server .getValid, .client (.send (.ok 25)), .accept 5, .server (.fcntl (.ok ())),
   .client (.send (.ok 15)), .server (.accept (.error .eagain)), .server .getValid,
   .server (.recv (.ok deviceIDQuery)), .server (.recv (.error .eagain)),
   .server (.createResponse sampleReadings), .server (.send (.ok 56)),
   .client (.recv (.ok (response.take 4))), .client (.recv (.ok ((response.drop 4).take 20))),
   .server .getValid, .client (.recv (.ok (response.drop 24))), .client .turn]

theorem sampleDialogue_answered : ∃ s, Machine.run (step MD5.md5) (State.init Threads.sampleInit
    (Client.Process.init true (bytes "\x7bH d\x7d") (fun _ => 0))) sampleDialogue = some s ∧
    s.client.pc = .exited 0 ∧ ∃ r q env, (Client.responses s.client.trace)[0]? = some r ∧
      (Client.queries s.client.trace)[0]? = some q ∧ reply MD5.md5 env q.2 = some r.1 := by
  have hrun : (Machine.run (step MD5.md5) (State.init Threads.sampleInit
      (Client.Process.init true (bytes "\x7bH d\x7d") (fun _ => 0))) sampleDialogue).any (fun s =>
        s.client.pc = .exited 0 ∧ (Client.responses s.client.trace).length = 1 ∧
        ∀ q ∈ Client.queries s.client.trace, ∀ tlv ∈ q.1.tlvs, tlv.value.length ≤ 255) = true := by
    decide +kernel
  obtain ⟨s, hs, hend⟩ := (Option.any_eq_true _ _).mp hrun
  obtain ⟨hpc, hlength, hshort⟩ := of_decide_eq_true hend
  obtain ⟨r, hr⟩ := List.length_eq_one_iff.mp hlength
  have hfirst : (Client.responses s.client.trace)[0]? = some r := by rw [hr]; rfl
  obtain ⟨-, hanswer, -⟩ := responses_answer_queries MD5.md5
    ⟨true, true, some 3, true, true, true, true⟩ [3] _ _ _ _ _ _ _ _ _ sampleDialogue s rfl hs hshort
  obtain ⟨q, env, hq, -, hreply, -⟩ := hanswer 0 r hfirst
  exact ⟨s, hs, hpc, r, q, env, hfirst, hq, hreply⟩

end NHA.Network
