import NativeHardwareAccess.Client.Agreement
import NativeHardwareAccess.Client.ReadBack
import NativeHardwareAccess.Network.Dialogue

/-! What a test case gets to see of the server (test/nha_test_case.cpp, `send_query`).

    A test case runs the client in quiet mode, so that only the responses are printed, and reads its
    output:

        description ─▶ client ─▶ server ─▶ client ─print─▶ text ─parse_nhac_output─▶ table

    Every record that the server writes has a description, so nothing is lost on the way. -/

namespace NHA.Network
open Scheme Scheme.MD5 Scheme.Tlv NHA.MessageBuilder NHA.Protocol NHA.Nhac NHA.Output
open NHA.Serving (Fd Errno maxSizeOfMessage)
open NHA.Threads (SetupCalls SetupEvent setupServer)

/-! ### What a quiet client has printed -/

/-- The responses with their titles, and nothing else. -/
structure Shown (p : Client.Process) : Prop where
  quiet : p.quiet = true
  titles : ∀ q ∈ p.printed, Plain (bytes q.1)
  messages : p.printed.map Prod.snd = (Client.responses p.trace).map Prod.snd

section
variable {md5 : List UInt8 → Digest} {p q : Client.Process} {e : Client.Event}

theorem plain_title (counter : ℕ) : Plain (bytes ("response_" ++ Client.counterStr counter)) := by
  have hlead : Plain (bytes "response_") := by decide +kernel
  have hzeros : ∀ n, Plain (bytes (String.ofList (List.replicate n '0'))) := by
    intro n c hc
    rw [bytes, String.toList_ofList, List.map_replicate] at hc
    obtain rfl := List.eq_of_mem_replicate hc
    rfl
  rw [Client.counterStr, bytes_append, bytes_append]
  exact hlead.append ((hzeros _).append (plain_digits counter))

/-- A step that prints nothing and completes no response. -/
theorem Shown.next (h : Shown p) (hquiet : q.quiet = p.quiet) (hprinted : q.printed = p.printed)
    (hresponses : Client.responses q.trace = Client.responses p.trace) : Shown q :=
  ⟨hquiet.trans h.quiet, hprinted ▸ h.titles, by rw [hprinted, hresponses, h.messages]⟩

theorem responses_call {t : List Client.Event} (he : Client.responseBy e = none) :
    Client.responses (t ++ [e]) = Client.responses t := by
  rw [Client.responses_concat, he]
  exact List.append_nil _

theorem Shown.finish (h : Shown p) (completeSize n : ℕ) : Shown (p.finish md5 completeSize n) := by
  rw [Client.Process.finish]
  split
  · exact h.next rfl rfl rfl
  · rename_i k msg _
    refine ⟨h.quiet, ?_, ?_⟩
    · intro q hq
      rcases List.mem_append.mp hq with hq | hq
      · exact h.titles q hq
      · obtain rfl := List.mem_singleton.mp hq
        exact plain_title p.counter
    · dsimp only
      rw [Client.responses_concat, List.map_append, List.map_append, h.messages]
      rfl

theorem shown_step {a : Client.Action} (h : Shown p) (hstep : Client.step md5 p a = some q) :
    Shown q := by
  cases Client.step_cases hstep with
  | syntaxError => exact h.next rfl rfl rfl
  | done => exact h.next rfl rfl rfl
  | tooLarge => exact h.next rfl rfl rfl
  | sigpipe => exact h.next rfl rfl rfl
  | query => exact h.next rfl (if_pos h.quiet) (responses_call rfl)
  | recvAll =>
    refine Shown.finish ?_ _ _
    exact h.next rfl rfl (responses_call rfl)
  | _ => exact h.next rfl rfl (responses_call rfl)

end

/-! ### What the server has written -/

/-- The client's message for an answer with these readings to this query: header and answer, or the
    header alone when a record of the query offends. -/
def Response (md5 : List UInt8 → Digest) (env : Readings) (q : List UInt8) (m : Message) : Prop :=
  (Offending (records (body q)) → m = responseMessage md5 env q []) ∧
  (¬ Offending (records (body q)) → m = responseMessage md5 env q (answer env (records (body q))))

section
variable {md5 : List UInt8 → Digest} {env : Readings} {q : List UInt8}

/-- Every record of the header is known to the client. -/
theorem decode_header {flags : UInt8} {r : Record} (h : r ∈ headerRecords flags) :
    (TLV.ofRecord r).decode ≠ "" := by
  rw [headerRecords] at h
  simp only [List.mem_cons, List.not_mem_nil, or_false] at h
  rcases h with rfl | rfl | rfl | rfl
  · simp [TLV.ofRecord, TLV.decode]
  · simp [TLV.ofRecord, TLV.decode]
  · simp [TLV.ofRecord, TLV.decode]
  · simp [TLV.ofRecord, TLV.decode]

theorem decode_number {name : String} (tag : UInt8) (u : UInt64) (htag : tag &&& 0x80 = 0x00)
    (h : ∀ value, TLV.decode ⟨tag, value⟩ = decodeNumber name ⟨tag, value⟩) :
    TLV.decode ⟨tag, toLE 8 u.toNat⟩ ≠ "" := by
  rw [h, decodeNumber_eq name htag]
  simp

/-- So is every record of an answer. -/
theorem decode_of_answer {rs : List Record} {r : Record} (h : r ∈ answer env rs) :
    (TLV.ofRecord r).decode ≠ "" := by
  obtain ⟨k, e, -, rfl⟩ := mem_answer.mp h
  cases k with
  | userData => simp [TLV.ofRecord, TLV.decode, Kind.answer, Kind.responseTag]
  | deviceID =>
    have hmask : (0x11 : UInt8) &&& 0x7f = 0x11 ∧ (0x11 : UInt8) &&& 0x80 = 0x00 := by decide
    simp [TLV.ofRecord, TLV.decode, Kind.answer, Kind.responseTag, Kind.answerValue, hmask]
  | timerRx => exact decode_number 0x12 env.timerRx (by decide) decode_timerRx
  | timerTx => exact decode_number 0x13 env.timerTx (by decide) decode_timerTx
  | lastUpdated => exact decode_number 0x14 env.lastUpdated (by decide) decode_lastUpdated

theorem described_responseMessage {rs : List Record}
    (hrs : ∀ r ∈ rs, r ∈ answer env (records (body q))) :
    ∀ tlv ∈ (responseMessage md5 env q rs).tlvs, tlv.decode ≠ "" := by
  intro tlv htlv
  obtain ⟨r, hr, rfl⟩ := List.mem_map.mp htlv
  rcases List.mem_append.mp hr with hr | hr
  · exact decode_header hr
  · exact decode_of_answer (hrs r hr)

theorem Response.described {m : Message} (h : Response md5 env q m) :
    ∀ tlv ∈ m.tlvs, tlv.decode ≠ "" := by
  by_cases hoff : Offending (records (body q))
  · rw [h.1 hoff]
    exact described_responseMessage (fun r hr => absurd hr List.not_mem_nil)
  · rw [h.2 hoff]
    exact described_responseMessage (fun r hr => hr)

theorem reply_eq_some {response : List UInt8} (h : reply md5 env q = some response) :
    let r := createResponse md5 env (Memory.ofList q) (Int32.ofNat q.length) (fun _ => 0) 61440
    r.1 ≠ -1 ∧ response = responseOf r := by
  rw [reply] at h
  split_ifs at h with hn
  exact ⟨hn, (Option.some.inj h).symm⟩

theorem response_of_reply {response : List UInt8} {m m' : Message} {k : ℕ}
    (hq : q.length ≤ 61440) (h : reply md5 env q = some response)
    (hread : m.deserialize md5 (Memory.ofList response) response.length = (.ok k, m')) :
    Response md5 env q m' := by
  obtain ⟨hn, hresponse⟩ := reply_eq_some h
  obtain ⟨rs, -, -, hwhich, hown⟩ :=
    response_deserialized md5 env (Memory.ofList q) (Int32.ofNat q.length) (fun _ => 0) 61440 m hn
  rw [received_ofList hq] at hwhich hown
  generalize createResponse md5 env (Memory.ofList q) (Int32.ofNat q.length) (fun _ => 0) 61440 = r
    at hresponse hown
  -- the bytes of the response are all that is read
  have hlength : response.length = r.1.toNat := by rw [hresponse, responseOf, length_slice]
  have hback : slice (Memory.ofList response) 0 r.1.toNat = slice r.2.bytes 0 r.1.toNat := by
    have hbytes := slice_ofList response
    rw [hlength] at hbytes
    rw [hbytes, hresponse, responseOf]
  rw [hlength, deserialize_congr md5 m (fun i hi _ => byte_eq_of_slice_eq hback hi), hown] at hread
  obtain ⟨-, rfl⟩ := Prod.mk.inj hread
  -- the server's limit leaves room for every answer
  have hroom : 38 + answerLength (records (body q)) ≤ (61440 : UInt32).toNat := by
    have hle := answerLength_le (records (body q))
    have hlimit : (61440 : UInt32).toNat = 61440 := rfl
    omega
  rcases hwhich with ⟨hclean, rfl⟩ | ⟨rfl, hoff⟩
  · exact ⟨fun hoff => absurd hoff hclean, fun _ => rfl⟩
  · exact ⟨fun _ => rfl, fun hclean => absurd (hoff hroom) hclean⟩

end

/-! ### Runs -/

section
variable {md5 : List UInt8 → Digest} {serverSocket : Fd} {description : List UInt8} {s s' : State}

/-- A step of the system is a step of the client or leaves it alone. -/
theorem client_of_step {a : Action} (h : step md5 s a = some s') :
    s'.client = s.client ∨ ∃ a, Client.step md5 s.client a = some s'.client := by
  cases a with
  | server a =>
    rw [step] at h
    split_ifs at h
    obtain ⟨server, -, hserve⟩ := Option.bind_eq_some_iff.mp h
    left
    rw [State.serve] at hserve
    split at hserve
    · split_ifs at hserve
      · obtain rfl := Option.some.inj hserve
        rfl
      · obtain rfl := Option.some.inj hserve
        rfl
    · obtain rfl := Option.some.inj hserve
      rfl
  | accept fd =>
    rw [step] at h
    split at h
    · split_ifs at h
      obtain ⟨server, -, rfl⟩ := Option.map_eq_some_iff.mp h
      exact .inl rfl
    · exact absurd h (by simp)
  | client a =>
    rw [step] at h
    split_ifs at h
    obtain ⟨client, hclient, htalk⟩ := Option.bind_eq_some_iff.mp h
    right
    refine ⟨a, ?_⟩
    rw [State.talk] at htalk
    split_ifs at htalk
    obtain rfl := Option.some.inj htalk
    exact hclient

/-- The server's calls on the connection are on queries within its limit. -/
theorem Inv.length_call (h : Inv md5 serverSocket description s) :
    ∀ c ∈ s.link.calls, c.2.length ≤ maxSizeOfMessage := by
  have hlife : ∀ (fd : Fd) (life : List Serving.Event), (∀ e ∈ life, e ∈ s.server.trace) →
      ∀ c ∈ Session.callsOn fd life, c.2.length ≤ maxSizeOfMessage := by
    intro fd life hmem c hc
    obtain ⟨e, he, hcall⟩ := List.mem_filterMap.mp hc
    exact measured_of_call (h.measured.calls e (hmem e he)) hcall
  have hlinked := h.link
  cases hlink : s.link with
  | waiting => exact fun c hc => absurd hc List.not_mem_nil
  | live fd life =>
    rw [hlink] at hlinked
    obtain ⟨⟨pre, htrace⟩, -⟩ := hlinked
    exact hlife fd life (fun e he => by rw [htrace]; simp [he])
  | closed fd life =>
    rw [hlink] at hlinked
    obtain ⟨⟨pre, post, htrace⟩, -⟩ := hlinked
    exact hlife fd life (fun e he => by rw [htrace]; simp [he])

/-- Every step keeps the books and what is printed. -/
theorem inv_shown_step (s : State) (a : Action) (s' : State)
    (h : Inv md5 serverSocket description s ∧ Shown s.client) (hstep : step md5 s a = some s') :
    Inv md5 serverSocket description s' ∧ Shown s'.client := by
  refine ⟨inv_step s a s' h.1 hstep, ?_⟩
  rcases client_of_step hstep with hsame | ⟨a, hclient⟩
  · rw [hsame]
    exact h.2
  · exact shown_step h.2 hclient

end

/-- CORRECT: as long as every value in the client's messages has at most 255 bytes, so that it fits
    its length byte: in every interleaving of a quiet client and the server, the test cases read from
    what the client has printed exactly the fields of its responses, the first one with a key before
    the others; and every response is the server's reply to the query with its number, with the
    readings of that call: the header and exactly the records that answer the query, or the header
    alone when a record of the query offends. -/
theorem harness_reads_answers (md5 : List UInt8 → Digest) (calls : SetupCalls)
    (sockets : List Fd) (events : List SetupEvent) (timer : MonotonicTimer.Timer)
    (maxConnections : Int32) (recvBuffer sendBuffer : Memory) (errno : Errno)
    (description : List UInt8) (buffer : Memory) (actions : List Action) (s : State)
    (hsetup : setupServer calls = (true, sockets, events))
    (hrun : Machine.run (step md5) (State.init
      (Threads.Process.init timer maxConnections sockets recvBuffer sendBuffer errno)
      (Client.Process.init true description buffer)) actions = some s)
    (hshort : ∀ q ∈ Client.queries s.client.trace, ∀ tlv ∈ q.1.tlvs, tlv.value.length ≤ 255) :
    ∃ res, parseNhacOutput (output s.client.printed) = some res ∧
      (∀ key, res.field key =
        ((Client.responses s.client.trace).flatMap (fun r => fields r.2)).lookup key) ∧
      ∀ (i : ℕ) (r : List UInt8 × Message), (Client.responses s.client.trace)[i]? = some r →
        ∃ (q : Message × List UInt8) (env : Readings), (Client.queries s.client.trace)[i]? = some q ∧
          s.link.calls[i]? = some (env, q.2) ∧ reply md5 env q.2 = some r.1 ∧
          Response md5 env q.2 r.2 := by
  obtain ⟨server, rfl, -⟩ := Threads.setupServer_ok hsetup
  have hinit : Shown (Client.Process.init true description buffer) :=
    ⟨rfl, by simp [Client.Process.init], rfl⟩
  obtain ⟨hinv, hshown⟩ : Inv md5 server description s ∧ Shown s.client :=
    Machine.run_invariant (fun s a s' h _ => inv_shown_step s a s' h) actions ⟨inv_init .., hinit⟩
      (Machine.along_of_forall (fun _ _ => trivial) _ _) hrun
  have hanswer : ∀ (i : ℕ) (r : List UInt8 × Message),
      (Client.responses s.client.trace)[i]? = some r →
      ∃ (q : Message × List UInt8) (env : Readings), (Client.queries s.client.trace)[i]? = some q ∧
        s.link.calls[i]? = some (env, q.2) ∧ reply md5 env q.2 = some r.1 ∧
        Response md5 env q.2 r.2 := by
    intro i r hr
    obtain ⟨q, env, hq, hcall, hreply, m, k, hread⟩ := hinv.answer hshort hr
    have hlength := hinv.length_call _ (List.mem_of_getElem? hcall)
    exact ⟨q, env, hq, hcall, hreply, response_of_reply hlength hreply hread⟩
  -- what is printed are the responses, and the server writes only records the client knows
  have hdescribed : ∀ p ∈ s.client.printed, ∀ tlv ∈ p.2.tlvs, tlv.decode ≠ "" := by
    intro p hp
    have hmem : p.2 ∈ (Client.responses s.client.trace).map Prod.snd := by
      rw [← hshown.messages]
      exact List.mem_map_of_mem hp
    obtain ⟨r, hr, hmessage⟩ := List.mem_map.mp hmem
    obtain ⟨i, hi⟩ := List.mem_iff_getElem?.mp hr
    obtain ⟨q, env, -, -, -, hresponse⟩ := hanswer i r hi
    rw [← hmessage]
    exact hresponse.described
  refine ⟨_, parseNhacOutput_output hshown.titles, fun key => ?_, hanswer⟩
  have hfields : s.client.printed.flatMap (fun p => fields p.2) =
      (Client.responses s.client.trace).flatMap (fun r => fields r.2) := by
    rw [← List.flatMap_map, hshown.messages, List.flatMap_map]
  rw [Table.field_emplaces, readLines_output hdescribed, hfields]
  rfl

/-- The test case that asks for the device ID. -/
theorem sampleDialogue_read : ∃ s res, Machine.run (step MD5.md5) (State.init Threads.sampleInit
    (Client.Process.init true (bytes "\x7bH d\x7d") (fun _ => 0))) sampleDialogue = some s ∧
    parseNhacOutput (output s.client.printed) = some res ∧
    ∃ r q env, Client.responses s.client.trace = [r] ∧
      (Client.queries s.client.trace)[0]? = some q ∧ reply MD5.md5 env q.2 = some r.1 ∧
      Response MD5.md5 env q.2 r.2 ∧ ∀ key, res.field key = (fields r.2).lookup key := by
  have hrun : (Machine.run (step MD5.md5) (State.init Threads.sampleInit
      (Client.Process.init true (bytes "\x7bH d\x7d") (fun _ => 0))) sampleDialogue).any (fun s : State =>
        decide ((Client.responses s.client.trace).length = 1 ∧
          ∀ q ∈ Client.queries s.client.trace, ∀ tlv ∈ q.1.tlvs, tlv.value.length ≤ 255)) = true := by
    decide +kernel
  obtain ⟨s, hs, hend⟩ := (Option.any_eq_true _ _).mp hrun
  obtain ⟨hlength, hshort⟩ := of_decide_eq_true hend
  obtain ⟨r, hr⟩ := List.length_eq_one_iff.mp hlength
  have hfirst : (Client.responses s.client.trace)[0]? = some r := by rw [hr]; rfl
  obtain ⟨res, hread, hfields, hanswer⟩ := harness_reads_answers MD5.md5
    ⟨true, true, some 3, true, true, true, true⟩ [3] _ _ _ _ _ _ _ _ sampleDialogue s rfl hs hshort
  obtain ⟨q, env, hq, -, hreply, hresponse⟩ := hanswer 0 r hfirst
  refine ⟨s, res, hs, hread, r, q, env, hr, hq, hreply, hresponse, fun key => ?_⟩
  rw [hfields, hr, List.flatMap_singleton]

end NHA.Network
