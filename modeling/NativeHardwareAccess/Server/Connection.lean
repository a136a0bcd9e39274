import NativeHardwareAccess.Server.Reply
import NativeHardwareAccess.Server.Responder

/-! One connection among many.

    The loop over the connections is one pass over the list (`handleLoop_eq`). Seen from a connection
    whose stream behaves like TCP (`Connection`), a visit to it drains everything that is readable and
    answers the drained bytes as one query; all other work of a round leaves its stream and its
    responses alone (`Untouched`). -/

namespace NHA.Serving
open Scheme Scheme.MD5 NHA.MessageBuilder

variable {σ : Type*} {os : OS σ} {md5 : List UInt8 → Digest}

/-! ### One pass over the connections -/

/-- Visit the connections of a list in order, for as long as the time source is valid: those that
    are kept. -/
def visitAll (os : OS σ) (md5 : List UInt8 → Digest) : List Fd → Io σ → List Fd × Io σ
  | [], io => ([], (io.getValid os).2)
  | c :: cs, io =>
    let v := io.getValid os
    if v.1 then
      let r := visit os md5 c v.2
      let t := visitAll os md5 cs r.2
      (if r.1 then c :: t.1 else t.1, t.2)
    else (c :: cs, v.2)

/-- The loop with its iterator and its erasures is that pass: behind the iterator stands what was
    kept, before it what is still to be visited. -/
theorem handleLoop_eq : ∀ (rest done : List Fd) (fuel : ℕ) (io : Io σ), rest.length < fuel →
    handleLoop os md5 fuel done.length (done ++ rest) io =
      (done ++ (visitAll os md5 rest io).1, (visitAll os md5 rest io).2)
  | [], done, fuel + 1, io, _ => by
    rw [handleLoop, visitAll, List.append_nil, List.getElem?_eq_none (le_refl _)]
    cases (io.getValid os).1 <;> rfl
  | c :: cs, done, fuel + 1, io, hfuel => by
    have hget : (done ++ c :: cs)[done.length]? = some c := by simp
    rw [handleLoop, visitAll, hget]
    cases (io.getValid os).1 with
    | false => rfl
    | true =>
      dsimp only
      rw [if_pos rfl]
      cases (visit os md5 c (io.getValid os).2).1 with
      | true =>
        have hnext := handleLoop_eq cs (done ++ [c]) fuel (visit os md5 c (io.getValid os).2).2
          (by simpa using hfuel)
        rw [List.length_append, List.length_singleton, List.append_assoc, List.singleton_append]
          at hnext
        rw [if_pos rfl, if_pos rfl, hnext, List.append_assoc, List.singleton_append]
      | false =>
        have herase : (done ++ c :: cs).eraseIdx done.length = done ++ cs := by
          rw [List.eraseIdx_append_of_length_le (le_refl _), Nat.sub_self, List.eraseIdx_cons_zero]
        rw [if_neg (by simp), if_neg (by simp), herase]
        exact handleLoop_eq cs done fuel _ (by simpa using hfuel)

theorem handle_eq (r : Responder σ) {server : Fd} {rest : List Fd}
    (h : r.sockets = server :: rest) :
    handleQueriesAndCleanUpConnections os md5 r = some { r with
      sockets := server :: (visitAll os md5 rest r.io).1
      io := (visitAll os md5 rest r.io).2 } := by
  have hloop := @handleLoop_eq σ os md5 rest [server] r.sockets.length r.io (by simp [h])
  rw [List.length_singleton, List.singleton_append, List.singleton_append, ← h] at hloop
  rw [handleQueriesAndCleanUpConnections, if_neg (by simp [h]), hloop]

/-! ### A connection's stream -/

/-- What is assumed of the system around a connection `c` with the readable bytes `pending`: `recv`
    gives the bytes readable so far and then EAGAIN, `send` takes everything, no other call touches
    the stream, `accept` does not give out an open descriptor and runs out of clients, and the time
    source stays valid. -/
structure Connection (os : OS σ) (c : Fd) (pending : σ → List UInt8) : Prop where
  recv_data : ∀ w len, 0 < len → pending w ≠ [] → ∃ data w', os.recv c len w = (.ok data, w') ∧
    data ≠ [] ∧ data.length ≤ len ∧ pending w = data ++ pending w'
  recv_empty : ∀ w len, 0 < len → pending w = [] →
    ∃ w', os.recv c len w = (.error .eagain, w') ∧ pending w' = []
  /-- A call with no space left finds nothing. -/
  recv_full : ∀ w, ∃ w', (os.recv c 0 w = (.ok [], w') ∨ os.recv c 0 w = (.error .eagain, w')) ∧
    pending w' = pending w
  send_all : ∀ w bytes, (os.send c bytes w).1 = .ok bytes.length
  valid : ∀ w, (os.getValid w).1 = true
  poll_ok : ∀ fds w, (os.poll fds w).1 = .ok ()
  accept_new : ∀ s w, (os.accept s w).1 ≠ .ok c
  accept_error : ∀ s w code, (os.accept s w).1 ≠ .error (.other code)
  accept_backlog : ∀ s w, (os.accept s w).1 = .error .eagain ∨
    (os.accept s w).1 = .error .ewouldblock ∨ os.backlog (os.accept s w).2 < os.backlog w
  fcntl_backlog : ∀ fd w, os.backlog (os.fcntl fd w).2 ≤ os.backlog w
  close_backlog : ∀ fd w, os.backlog (os.close fd w) ≤ os.backlog w
  getValid_keeps : ∀ w, pending (os.getValid w).2 = pending w
  accept_keeps : ∀ s w, pending (os.accept s w).2 = pending w
  fcntl_keeps : ∀ fd w, pending (os.fcntl fd w).2 = pending w
  recv_keeps : ∀ fd len w, fd ≠ c → pending (os.recv fd len w).2 = pending w
  send_keeps : ∀ fd bytes w, pending (os.send fd bytes w).2 = pending w
  close_keeps : ∀ fd w, pending (os.close fd w) = pending w
  poll_keeps : ∀ fds w, pending (os.poll fds w).2 = pending w
  readings_keeps : ∀ w, pending (os.readings w).2 = pending w

/-- The bytes that `send` took on a connection, one entry for each call. -/
def sends (c : Fd) (trace : List Event) : List (List UInt8) :=
  trace.filterMap (fun
    | .send fd bytes (.ok n) => if fd = c then some (bytes.take n) else none
    | _ => none)

@[simp] theorem sends_append (c : Fd) (t t' : List Event) :
    sends c (t ++ t') = sends c t ++ sends c t' := List.filterMap_append

/-- Between two states nothing happened to a connection: its stream is the same, and the trace has
    grown by events that send nothing on it. -/
structure Untouched (c : Fd) (pending : σ → List UInt8) (io io' : Io σ) : Prop where
  pending : pending io'.world = pending io.world
  trace : ∃ t, io'.trace = io.trace ++ t ∧ sends c t = []

/-- A stretch of the trace in which the connection was sent the reply to `q` and nothing else. -/
def Replied (md5 : List UInt8 → Digest) (c : Fd) (q : List UInt8) (t : List Event) : Prop :=
  ∃ env m, reply md5 env q = some m ∧ sends c t = [m] ∧ Event.createResponse c env q m.length ∈ t

section
variable {c : Fd} {q : List UInt8} {t t' : List Event}

theorem Replied.of_silent (h : sends c t = []) (h' : Replied md5 c q t') :
    Replied md5 c q (t ++ t') := by
  obtain ⟨env, m, hm, hsends, hmem⟩ := h'
  exact ⟨env, m, hm, by rw [sends_append, h, hsends, List.nil_append],
    List.mem_append_right _ hmem⟩

theorem Replied.silent (h : Replied md5 c q t) (h' : sends c t' = []) :
    Replied md5 c q (t ++ t') := by
  obtain ⟨env, m, hm, hsends, hmem⟩ := h
  exact ⟨env, m, hm, by rw [sends_append, h', hsends, List.append_nil],
    List.mem_append_left _ hmem⟩

end

section
variable {c : Fd} {pending : σ → List UInt8} {io io' io'' : Io σ}

theorem Untouched.refl : Untouched c pending io io := ⟨rfl, [], by simp, rfl⟩

theorem Untouched.trans (h : Untouched c pending io io') (h' : Untouched c pending io' io'') :
    Untouched c pending io io'' := by
  obtain ⟨t, ht, hsends⟩ := h.trace
  obtain ⟨t', ht', hsends'⟩ := h'.trace
  refine ⟨h'.pending.trans h.pending, t ++ t', ?_, ?_⟩
  · rw [ht', ht, List.append_assoc]
  · rw [sends_append, hsends, hsends', List.append_nil]

/-- A call that keeps the stream and sends nothing on the connection. -/
theorem untouched_event {e : Event} (hworld : pending io'.world = pending io.world)
    (htrace : io'.trace = io.trace ++ [e]) (he : sends c [e] = []) :
    Untouched c pending io io' := ⟨hworld, [e], htrace, he⟩

variable (hc : Connection os c pending)
include hc

theorem getValid_untouched : Untouched c pending io (io.getValid os).2 :=
  untouched_event (hc.getValid_keeps _) rfl rfl

theorem accept_untouched (s : Fd) : Untouched c pending io (io.accept os s).2 := by
  rw [Io.accept]
  dsimp only
  split <;> exact untouched_event (hc.accept_keeps _ _) rfl rfl

theorem fcntl_untouched (fd : Fd) : Untouched c pending io (io.fcntl os fd).2 := by
  rw [Io.fcntl]
  dsimp only
  split <;> exact untouched_event (hc.fcntl_keeps _ _) rfl rfl

theorem close_untouched (fd : Fd) : Untouched c pending io (io.close os fd) :=
  untouched_event (hc.close_keeps _ _) rfl rfl

theorem poll_untouched (fds : List Fd) : Untouched c pending io (io.poll os fds).2 := by
  rw [Io.poll]
  dsimp only
  split <;> exact untouched_event (hc.poll_keeps _ _) rfl rfl

theorem createResponse_untouched (fd : Fd) (n : ℕ) :
    Untouched c pending io (io.createResponse os md5 fd n).2 :=
  untouched_event (hc.readings_keeps _) rfl rfl

theorem recv_untouched {fd : Fd} (hfd : fd ≠ c) (offset len : ℕ) :
    Untouched c pending io (io.recv os fd offset len).2 := by
  rw [Io.recv]
  dsimp only
  split <;> exact untouched_event (hc.recv_keeps _ _ _ hfd) rfl rfl

theorem send_untouched {fd : Fd} (hfd : fd ≠ c) (n : ℕ) :
    Untouched c pending io (io.send os fd n).2 := by
  have hnone : ∀ bytes result, sends c [.send fd bytes result] = [] := by
    intro bytes result
    cases result <;> simp [sends, hfd]
  rw [Io.send]
  dsimp only
  split <;> exact untouched_event (hc.send_keeps _ _ _) rfl (hnone _ _)

/-! ### Other connections -/

theorem drain_untouched {fd : Fd} (hfd : fd ≠ c) (fuel : ℕ) (recvResult : ℤ) (recvSize : ℕ)
    (io : Io σ) : Untouched c pending io (drain os fd fuel recvResult recvSize io).2.2 := by
  induction fuel generalizing recvResult recvSize io with
  | zero => exact Untouched.refl
  | succ fuel ih =>
    rw [drain]
    split
    · exact (recv_untouched hc hfd _ _).trans (ih _ _ _)
    · exact Untouched.refl

theorem answerQuery_untouched {fd : Fd} (hfd : fd ≠ c) (n : ℕ) :
    Untouched c pending io (answerQuery os md5 fd n io).2 := by
  have hcreate : Untouched c pending io (io.createResponse os md5 fd n).2 :=
    createResponse_untouched hc fd n
  rw [answerQuery]
  dsimp only
  split
  · exact hcreate.trans (close_untouched hc fd)
  · have hsend := hcreate.trans (send_untouched hc hfd
      (io.createResponse os md5 fd n).1.toNat)
    split
    · exact hsend
    · exact hsend.trans (close_untouched hc fd)

/-- A visit to another connection. -/
theorem visit_untouched {fd : Fd} (hfd : fd ≠ c) :
    Untouched c pending io (visit os md5 fd io).2 := by
  have hrecv : Untouched c pending io (receive os fd io).2.2 :=
    (recv_untouched hc hfd _ _).trans (drain_untouched hc hfd _ _ _ _)
  rw [visit]
  split_ifs
  · exact hrecv.trans (close_untouched hc fd)
  · exact hrecv.trans (close_untouched hc fd)
  · exact hrecv
  · exact hrecv.trans (answerQuery_untouched hc hfd _)

theorem visitAll_cons (d : Fd) (cs : List Fd) (io : Io σ) : visitAll os md5 (d :: cs) io =
    (let r := visit os md5 d (io.getValid os).2
     let t := visitAll os md5 cs r.2
     (if r.1 then d :: t.1 else t.1, t.2)) := by
  have hvalid : (io.getValid os).1 = true := hc.valid _
  rw [visitAll, if_pos hvalid]

theorem visitAll_untouched (cs : List Fd) (io : Io σ) (h : c ∉ cs) :
    Untouched c pending io (visitAll os md5 cs io).2 ∧ c ∉ (visitAll os md5 cs io).1 := by
  induction cs generalizing io with
  | nil => exact ⟨getValid_untouched hc, List.not_mem_nil⟩
  | cons d cs ih =>
    obtain ⟨hd, hcs⟩ := not_or.mp (fun h' => h (List.mem_cons.mpr h'))
    have hvisit : Untouched c pending io (visit os md5 d (io.getValid os).2).2 :=
      (getValid_untouched hc).trans (visit_untouched hc (Ne.symm hd))
    obtain ⟨hrest, hkept⟩ := ih (visit os md5 d (io.getValid os).2).2 hcs
    rw [visitAll_cons hc]
    refine ⟨hvisit.trans hrest, ?_⟩
    dsimp only
    split
    · exact fun h' => (List.mem_cons.mp h').elim hd hkept
    · exact hkept

/-! ### The connection itself -/

/-- What draining leaves: everything that was readable stands in the receive buffer behind the first
    `n` bytes, and the last call found nothing more. -/
structure Drained (c : Fd) (pending : σ → List UInt8) (n : ℕ) (io : Io σ) (d : ℤ × ℕ × Io σ) : Prop where
  size : d.2.1 = n + (pending io.world).length
  buffer : slice d.2.2.recvBuffer 0 d.2.1 = slice io.recvBuffer 0 n ++ pending io.world
  pending : pending d.2.2.world = []
  trace : ∃ t, d.2.2.trace = io.trace ++ t ∧ sends c t = []
  full : d.1 = 0 → d.2.1 = maxSizeOfMessage
  errno : d.1 ≠ 0 → d.2.2.errno = .eagain

section
variable {d : ℤ × ℕ × Io σ} {p : List UInt8}
omit hc

/-- Drained from the start, the buffer holds exactly what was readable. -/
theorem Drained.received (h : Drained c pending 0 io d) (hp : pending io.world = p) :
    d.2.1 = p.length ∧ slice d.2.2.recvBuffer 0 d.2.1 = p := by
  refine ⟨by rw [h.size, hp, Nat.zero_add], ?_⟩
  rw [h.buffer, hp]
  rfl

/-- Unless the buffer is full, draining ends with EAGAIN. -/
theorem Drained.eagain (h : Drained c pending 0 io d)
    (hlt : (pending io.world).length < maxSizeOfMessage) :
    d.1 ≠ 0 ∧ d.2.2.errno = .eagain := by
  have hne : d.1 ≠ 0 := by
    intro h0
    have hfull := h.full h0
    rw [h.size] at hfull
    omega
  exact ⟨hne, h.errno hne⟩

end

omit hc in
/-- A call of `recv` that ends the loop. -/
theorem drain_stop {fd : Fd} (fuel : ℕ) {recvResult : ℤ} (recvSize : ℕ) (h : recvResult ≤ 0) :
    drain os fd fuel recvResult recvSize io = (recvResult, recvSize, io) := by
  cases fuel with
  | zero => rfl
  | succ fuel => rw [drain, if_neg (by omega)]

omit hc in
/-- The state after a `recv` on the connection that delivered `data`. -/
theorem recv_ok {offset len : ℕ} {data : List UInt8} {w : σ}
    (h : os.recv c len io.world = (.ok data, w)) :
    io.recv os c offset len = ((data.length : ℤ), { io with
      world := w
      recvBuffer := io.recvBuffer.stores offset data
      trace := io.trace ++ [.recv c offset len (.ok data)] }) := by
  rw [Io.recv, h]

omit hc in
theorem recv_eagain {offset len : ℕ} {w : σ}
    (h : os.recv c len io.world = (.error .eagain, w)) :
    io.recv os c offset len = (-1, { io with
      world := w
      errno := .eagain
      trace := io.trace ++ [.recv c offset len (.error .eagain)] }) := by
  rw [Io.recv, h]

omit hc in
theorem sends_recv (offset len : ℕ) (result : Except Errno (List UInt8)) :
    sends c [.recv c offset len result] = [] := rfl

/-- The loop, seen from before the call of `recv` that precedes it. -/
theorem drain_drained : ∀ (fuel n : ℕ) (io : Io σ), (pending io.world).length < fuel →
    n + (pending io.world).length ≤ maxSizeOfMessage →
    Drained c pending n io (drain os c fuel (io.recv os c n (spaceLeft n)).1 n
      (io.recv os c n (spaceLeft n)).2)
  | 0, _, _, hfuel, _ => absurd hfuel (by omega)
  | fuel + 1, n, io, hfuel, hmax => by
    have hspace := spaceLeft_eq (n := n) (by omega)
    rcases eq_or_ne (pending io.world) [] with hnil | hne
    · rcases Nat.lt_or_ge n maxSizeOfMessage with hlt | hge
      · -- nothing left to read: EAGAIN
        obtain ⟨w, hrecv, hw⟩ := hc.recv_empty io.world (spaceLeft n) (by omega) hnil
        rw [recv_eagain hrecv, drain_stop _ _ (by simp)]
        exact ⟨by simp [hnil], by simp [hnil], hw, ⟨_, rfl, sends_recv _ _ _⟩, by simp,
          fun _ => rfl⟩
      · -- the buffer is full
        rw [hspace, Nat.sub_eq_zero_of_le hge]
        obtain ⟨w, hrecv | hrecv, hw⟩ := hc.recv_full io.world
        · rw [recv_ok hrecv, drain_stop _ _ (by simp)]
          exact ⟨by simp [hnil], by simp [hnil, Memory.stores], hw.trans hnil,
            ⟨_, rfl, sends_recv _ _ _⟩, fun _ => by dsimp only; omega, by simp⟩
        · rw [recv_eagain hrecv, drain_stop _ _ (by simp)]
          exact ⟨by simp [hnil], by simp [hnil], hw.trans hnil, ⟨_, rfl, sends_recv _ _ _⟩,
            by simp, fun _ => rfl⟩
    · -- some bytes come; the loop turns once more
      have hpos := List.length_pos_of_ne_nil hne
      obtain ⟨data, w, hrecv, hdata, -, hsplit⟩ := hc.recv_data io.world (spaceLeft n) (by omega) hne
      have hlen := List.length_pos_of_ne_nil hdata
      have htotal : (pending io.world).length = data.length + (pending w).length := by
        rw [hsplit, List.length_append]
      rw [recv_ok hrecv, drain, if_pos ⟨show (0 : ℤ) < data.length by omega, by omega⟩]
      have hnext := drain_drained fuel (n + data.length) { io with
        world := w
        recvBuffer := io.recvBuffer.stores n data
        trace := io.trace ++ [.recv c n (spaceLeft n) (.ok data)] }
        (show (pending w).length < fuel by omega)
        (show n + data.length + (pending w).length ≤ maxSizeOfMessage by omega)
      rw [Int.toNat_natCast]
      obtain ⟨t, ht, hsends⟩ := hnext.trace
      refine ⟨?_, ?_, hnext.pending,
        ⟨.recv c n (spaceLeft n) (.ok data) :: t, ?_, ?_⟩, hnext.full, hnext.errno⟩
      · rw [hnext.size, htotal, Nat.add_assoc]
      · rw [hnext.buffer, hsplit, ← List.append_assoc]
        exact congrArg (· ++ pending w) (Memory.slice_stores_append _ _ _)
      · rw [ht, List.append_assoc, List.singleton_append]
      · rw [← List.singleton_append, sends_append, sends_recv, hsends, List.append_nil]

theorem receive_drained (io : Io σ) (hmax : (pending io.world).length ≤ maxSizeOfMessage) :
    Drained c pending 0 io (receive os c io) := by
  have hspace : spaceLeft 0 = maxSizeOfMessage := by decide
  have hdrain := drain_drained hc (maxSizeOfMessage + 1) 0 io (by omega) (by omega)
  rw [hspace] at hdrain
  exact hdrain

/-- A visit that finds nothing to read does nothing. -/
theorem visit_idle (hp : pending io.world = []) :
    (visit os md5 c io).1 = true ∧ Untouched c pending io (visit os md5 c io).2 := by
  have hd := receive_drained hc io (by simp [hp])
  obtain ⟨hsize, -⟩ := hd.received hp
  rw [List.length_nil] at hsize
  obtain ⟨hres, herrno⟩ := hd.eagain (by rw [hp]; decide)
  rw [visit, if_neg hres, if_neg (by simp [herrno]), if_pos hsize]
  exact ⟨rfl, by rw [hd.pending, hp], hd.trace⟩

/-- A complete `send` on the connection. -/
theorem send_eq (io : Io σ) (n : ℕ) : (io.send os c n).1 = n ∧
    pending (io.send os c n).2.world = pending io.world ∧
    (io.send os c n).2.trace = io.trace ++
      [.send c (slice io.sendBuffer 0 n) (.ok n)] := by
  have hall := hc.send_all io.world (slice io.sendBuffer 0 n)
  rw [length_slice] at hall
  rw [Io.send]
  dsimp only
  rw [hall]
  exact ⟨rfl, hc.send_keeps _ _ _, rfl⟩

/-- The bytes in the receive buffer are answered with their reply. -/
theorem answerQuery_some (io : Io σ) {n : ℕ} {m : List UInt8} (hn : n ≤ 61440)
    (hreply : reply md5 (os.readings io.world).1 (slice io.recvBuffer 0 n) = some m) :
    (answerQuery os md5 c n io).1 = true ∧
      pending (answerQuery os md5 c n io).2.world = pending io.world ∧
      (answerQuery os md5 c n io).2.trace = io.trace ++
        [.createResponse c (os.readings io.world).1 (slice io.recvBuffer 0 n) m.length,
          .send c m (.ok m.length)] := by
  rcases createResponse_reply md5 (os.readings io.world).1 io.recvBuffer io.sendBuffer hn with
    ⟨-, hnone⟩ | ⟨hne, hsome⟩
  · rw [hnone] at hreply
    exact absurd hreply (by simp)
  · obtain rfl := Option.some.inj (hsome.symm.trans hreply)
    have hcast := responseOf_size_nonneg md5 (os.readings io.world).1 io.recvBuffer io.sendBuffer
      (Int32.ofNat n) 61440 hne
    have hcreate : (io.createResponse os md5 c n).1 =
        (createResponse md5 (os.readings io.world).1 io.recvBuffer (Int32.ofNat n) io.sendBuffer
          61440).1 := rfl
    obtain ⟨hres, hworld, htrace⟩ := send_eq hc (io.createResponse os md5 c n).2
      (io.createResponse os md5 c n).1.toNat
    rw [answerQuery, if_neg (by rw [hcreate]; exact hne), if_pos (by rw [hres, hcreate, hcast])]
    refine ⟨rfl, hworld.trans (hc.readings_keeps _), ?_⟩
    rw [htrace, length_responseOf, hcast, ← hcreate]
    simp only [Io.createResponse, List.append_assoc, List.singleton_append]
    rfl

omit hc in
theorem answerQuery_none {n : ℕ} (hn : n ≤ 61440)
    (hreply : reply md5 (os.readings io.world).1 (slice io.recvBuffer 0 n) = none) :
    (answerQuery os md5 c n io).1 = false := by
  rcases createResponse_reply md5 (os.readings io.world).1 io.recvBuffer io.sendBuffer hn with
    ⟨heq, -⟩ | ⟨-, hsome⟩
  · rw [answerQuery, if_pos (by exact heq)]
  · rw [hsome] at hreply
    exact absurd hreply (by simp)

/-- A visit answers a query that is there as a whole. -/
theorem visit_answers {q : List UInt8} (hp : pending io.world = q) (hq : Answered md5 q) :
    (visit os md5 c io).1 = true ∧
      pending (visit os md5 c io).2.world = [] ∧
      ∃ t, (visit os md5 c io).2.trace = io.trace ++ t ∧ Replied md5 c q t := by
  have hlen := hq.1
  have hwf := hq.wellFormed
  have hmin := hwf.minSize
  have hmaxSize := hwf.maxSize
  have hd := receive_drained hc io (by rw [hp]; exact hlen)
  obtain ⟨hsize, hbuf⟩ := hd.received hp
  obtain ⟨hres, herrno⟩ := hd.eagain (by rw [hp]; unfold maxSizeOfMessage; omega)
  obtain ⟨m, hm⟩ := hq.reply (os.readings (receive os c io).2.2.world).1
  have hm' : reply md5 (os.readings (receive os c io).2.2.world).1
      (slice (receive os c io).2.2.recvBuffer 0 (receive os c io).2.1) = some m := by
    rw [hbuf]
    exact hm
  have hanswer := answerQuery_some hc (receive os c io).2.2 (by rw [hsize]; exact hlen) hm'
  rw [visit, if_neg hres, if_neg (by simp [herrno]), if_neg (by rw [hsize]; omega)]
  obtain ⟨t, ht, hsends⟩ := hd.trace
  rw [hbuf, ht, List.append_assoc] at hanswer
  refine ⟨hanswer.1, hanswer.2.1.trans hd.pending, _, hanswer.2.2, ?_⟩
  refine Replied.of_silent hsends ⟨_, m, hm, ?_, List.mem_cons_self ..⟩
  simp [sends]

/-- A visit that drains anything else ends in a close. -/
theorem visit_refuses {p : List UInt8} (hp : pending io.world = p) (hne : p ≠ [])
    (hlen : p.length ≤ 61440) (hno : ¬ Answered md5 p) : (visit os md5 c io).1 = false := by
  have hpos := List.length_pos_of_ne_nil hne
  have hd := receive_drained hc io (by rw [hp]; exact hlen)
  obtain ⟨hsize, hbuf⟩ := hd.received hp
  rw [visit]
  split_ifs with h0 he hz
  · rfl
  · rfl
  · omega
  · refine answerQuery_none (by rw [hsize]; exact hlen) ?_
    rw [hbuf, ← Option.not_isSome_iff_eq_none, Option.isSome_iff_exists]
    exact fun h => hno ⟨hlen, _, h⟩

end

end NHA.Serving
