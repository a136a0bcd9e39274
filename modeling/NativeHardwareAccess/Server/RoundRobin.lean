import NativeHardwareAccess.Server.QueryStream
import NativeHardwareAccess.Server.Session
import NativeHardwareAccess.Server.TimeSource

/-! One round over the connections.

    Whatever the system answers, the receive loop stays in its buffer and stops behind a call that
    received nothing (`Stored`), a visit makes calls on its own connection only and at most one of
    them sends (`Visit`), and a round is a sequence of such visits down the list of connections, cut
    short where the time source is found invalid. -/

namespace NHA.Serving
open Scheme Scheme.MD5 NHA.MessageBuilder NHA.Threads

variable {σ : Type*} {os : OS σ} {md5 : List UInt8 → Digest} {fd : Fd} {io io' : Io σ}
  {t : List Event} {n : ℕ} {recvResult : ℤ}

/-! ### The receive loop -/

/-- A call of `recv` for a range of the receive buffer. -/
def InBuffer (fd : Fd) (e : Event) : Prop :=
  ∃ offset len result, e = .recv fd offset len result ∧ offset + len ≤ maxSizeOfMessage

/-- The calls `t` have filled the first `n` bytes of the receive buffer, each with a byte at least. -/
structure Filled (fd : Fd) (io : Io σ) (n : ℕ) (t : List Event) (io' : Io σ) : Prop where
  trace : io'.trace = io.trace ++ t
  calls : ∀ e ∈ t, InBuffer fd e
  count : t.length ≤ n
  size : n ≤ maxSizeOfMessage
  data : slice io'.recvBuffer 0 n = NHA.Session.receivedOn fd t

/-- The calls `t` ended with the result `recvResult`, when `n` bytes had been counted before. -/
structure Stored (fd : Fd) (io : Io σ) (recvResult : ℤ) (n : ℕ) (t : List Event) (io' : Io σ) :
    Prop where
  trace : io'.trace = io.trace ++ t
  calls : ∀ e ∈ t, InBuffer fd e
  count : t.length ≤ n + 1
  size : n + recvResult.toNat ≤ maxSizeOfMessage
  data : slice io'.recvBuffer 0 (n + recvResult.toNat) = NHA.Session.receivedOn fd t
  /-- The result is the one of the last call, and so is the error code if it failed. -/
  last : ∃ pre offset len,
    (∃ data, recvResult = List.length data ∧ t = pre ++ [.recv fd offset len (.ok data)]) ∨
    (recvResult = -1 ∧ t = pre ++ [.recv fd offset len (.error io'.errno)])

/-- One call, for the rest of the buffer. -/
theorem Filled.recv (hbounded : ∀ fd len w data, (os.recv fd len w).1 = .ok data → data.length ≤ len)
    (h : Filled fd io n t io') :
    ∃ t', Stored fd io (io'.recv os fd n (spaceLeft n)).1 n t' (io'.recv os fd n (spaceLeft n)).2 := by
  have hspace := spaceLeft_eq h.size
  have hsize := h.size
  have hcalls : ∀ result, ∀ e ∈ t ++ [Event.recv fd n (spaceLeft n) result], InBuffer fd e := by
    intro result e he
    rcases List.mem_append.mp he with he | he
    · exact h.calls e he
    · rw [List.mem_singleton.mp he]
      exact ⟨n, spaceLeft n, result, rfl, by omega⟩
  have hcount : ∀ e, (t ++ [e]).length ≤ n + 1 := by
    intro e
    rw [List.length_append, List.length_singleton]
    exact Nat.succ_le_succ h.count
  rcases hrecv : os.recv fd (spaceLeft n) io'.world with ⟨data | data, w⟩
  · rw [Io.recv, hrecv]
    refine ⟨t ++ [.recv fd n (spaceLeft n) (.error data)], ?_, hcalls _, hcount _, hsize, ?_,
      t, n, spaceLeft n, Or.inr ⟨rfl, rfl⟩⟩
    · rw [← List.append_assoc, ← h.trace]
    · rw [NHA.Session.receivedOn_concat, ← h.data]
      exact (List.append_nil _).symm
  · have hlen : data.length ≤ spaceLeft n := hbounded fd (spaceLeft n) io'.world data (by rw [hrecv])
    rw [recv_ok hrecv]
    refine ⟨t ++ [.recv fd n (spaceLeft n) (.ok data)], ?_, hcalls _, hcount _, ?_, ?_,
      t, n, spaceLeft n, Or.inl ⟨data, rfl, rfl⟩⟩
    · rw [← List.append_assoc, ← h.trace]
    · rw [Int.toNat_natCast]
      omega
    · rw [Int.toNat_natCast, NHA.Session.receivedOn_concat, ← h.data, Memory.slice_stores_append]
      rw [NHA.Session.receivedBy, if_pos rfl]

/-- A call that received something has filled the buffer further. -/
theorem Stored.filled (h : Stored fd io recvResult n t io') (hpos : 0 < recvResult) :
    Filled fd io (n + recvResult.toNat) t io' := by
  refine ⟨h.trace, h.calls, ?_, h.size, h.data⟩
  have hcount := h.count
  omega

/-- Every turn of the loop receives a byte, so it stops before its fuel is spent. -/
theorem drain_stored (hbounded : ∀ fd len w data, (os.recv fd len w).1 = .ok data → data.length ≤ len)
    (fuel : ℕ) (h : Stored fd io recvResult n t io') (hfuel : maxSizeOfMessage + 1 ≤ fuel + n) :
    (drain os fd fuel recvResult n io').1 ≤ 0 ∧
    ∃ t', Stored fd io (drain os fd fuel recvResult n io').1 (drain os fd fuel recvResult n io').2.1 t'
      (drain os fd fuel recvResult n io').2.2 := by
  induction fuel generalizing recvResult n t io' with
  | zero =>
    have hsize := h.size
    omega
  | succ fuel ih =>
    rw [drain]
    split
    · rename_i hturn
      obtain ⟨t', hnext⟩ := (h.filled hturn.1).recv hbounded
      exact ih hnext (by omega)
    · rename_i hstop
      have hsize := h.size
      exact ⟨by omega, t, h⟩

/-- The whole receive loop of a visit. -/
theorem receive_stored
    (hbounded : ∀ fd len w data, (os.recv fd len w).1 = .ok data → data.length ≤ len)
    (fd : Fd) (io : Io σ) : (receive os fd io).1 ≤ 0 ∧
    ∃ t, Stored fd io (receive os fd io).1 (receive os fd io).2.1 t (receive os fd io).2.2 := by
  have hspace : spaceLeft 0 = maxSizeOfMessage := by decide
  have hstart : Filled fd io 0 [] io :=
    ⟨(List.append_nil _).symm, by simp, le_refl _, Nat.zero_le _, rfl⟩
  obtain ⟨t, hfirst⟩ := hstart.recv hbounded
  rw [hspace] at hfirst
  exact drain_stored hbounded _ hfirst (le_refl _)

/-- The receive loop stays in its buffer, ends, and is judged by a fresh error code. -/
theorem receive_inBuffer (os : OS σ)
    (hbounded : ∀ fd len w data, (os.recv fd len w).1 = .ok data → data.length ≤ len)
    (fd : Fd) (io : Io σ) :
    ∃ recvResult recvSize io' t, receive os fd io = (recvResult, recvSize, io') ∧
      io'.trace = io.trace ++ t ∧
      -- it ends: the loop condition is false, after finitely many calls
      ¬ (recvResult > 0 ∧ recvSize < maxSizeOfMessage) ∧ t.length ≤ maxSizeOfMessage + 1 ∧
      (∀ e ∈ t, ∃ offset len result,
        e = .recv fd offset len result ∧ offset + len ≤ maxSizeOfMessage) ∧
      recvSize ≤ maxSizeOfMessage ∧ slice io'.recvBuffer 0 recvSize = NHA.Session.receivedOn fd t ∧
      ∃ pre offset len,
        (recvResult = 0 ∧ t = pre ++ [.recv fd offset len (.ok [])]) ∨
        (recvResult = -1 ∧ t = pre ++ [.recv fd offset len (.error io'.errno)]) := by
  obtain ⟨hstop, t, h⟩ := receive_stored hbounded fd io
  have hsize := h.size
  have hcount := h.count
  have hzero : (receive os fd io).1.toNat = 0 := Int.toNat_of_nonpos hstop
  refine ⟨(receive os fd io).1, (receive os fd io).2.1, (receive os fd io).2.2, t, rfl, h.trace,
    by omega, by omega, h.calls, by omega, ?_, ?_⟩
  · have hdata := h.data
    rw [hzero, Nat.add_zero] at hdata
    exact hdata
  · obtain ⟨pre, offset, len, ⟨data, hresult, ht⟩ | hfailed⟩ := h.last
    · have hnil : data = [] := List.eq_nil_of_length_eq_zero (by omega)
      subst hnil
      exact ⟨pre, offset, len, Or.inl ⟨hresult, ht⟩⟩
    · exact ⟨pre, offset, len, Or.inr hfailed⟩

/-- With three bytes to read and then nothing. -/
theorem receive_inBuffer_sample :
    ∃ recvResult recvSize io' t,
      receive sampleOS 4 (sampleResponder [1, 2, 3]).io = (recvResult, recvSize, io') ∧
      io'.trace = [] ++ t ∧
      ¬ (recvResult > 0 ∧ recvSize < maxSizeOfMessage) ∧ t.length ≤ maxSizeOfMessage + 1 ∧
      (∀ e ∈ t, ∃ offset len result,
        e = .recv 4 offset len result ∧ offset + len ≤ maxSizeOfMessage) ∧
      recvSize ≤ maxSizeOfMessage ∧ slice io'.recvBuffer 0 recvSize = NHA.Session.receivedOn 4 t ∧
      ∃ pre offset len,
        (recvResult = 0 ∧ t = pre ++ [.recv 4 offset len (.ok [])]) ∨
        (recvResult = -1 ∧ t = pre ++ [.recv 4 offset len (.error io'.errno)]) := by
  refine receive_inBuffer sampleOS ?_ 4 (sampleResponder [1, 2, 3]).io
  intro fd len w data h
  simp only [sampleOS] at h
  split at h
  · obtain rfl := Except.ok.inj h
    exact List.length_take_le _ _
  · cases h

/-! ### Visits -/

/-- A call of the server on this connection. -/
def OnConnection (fd : Fd) : Event → Prop
  | .recv fd' _ _ _ => fd' = fd
  | .createResponse fd' _ _ _ => fd' = fd
  | .send fd' _ _ => fd' = fd
  | .close fd' => fd' = fd
  | _ => False

/-- A visit to a connection: the calls made, and whether the connection is kept. -/
structure Visit where
  fd : Fd
  calls : List Event
  kept : Bool
  /-- It starts with a `recv` for the whole buffer. -/
  first : ∃ result rest, calls = .recv fd 0 maxSizeOfMessage result :: rest
  own : ∀ e ∈ calls, OnConnection fd e
  /-- At most one response is sent. -/
  once : (responses calls).length ≤ 1
  /-- Unless the connection is kept, the visit ends in its only close. -/
  closed : ∃ work, .close fd ∉ work ∧ calls = if kept then work else work ++ [.close fd]

/-- The events of a visit in a round: the time source was found valid, then the calls. -/
def Visit.events (v : Visit) : List Event := .getValid true :: v.calls

/-- Calls on the connection that do not close it. -/
def Working (fd : Fd) (t : List Event) : Prop := ∀ e ∈ t, OnConnection fd e ∧ e ≠ .close fd

theorem Working.append {t' : List Event} (h : Working fd t) (h' : Working fd t') :
    Working fd (t ++ t') := by
  intro e he
  rcases List.mem_append.mp he with he | he
  · exact h e he
  · exact h' e he

/-- A visit is what is done on the connection, with a close behind it or not. -/
theorem exists_visit (kept : Bool)
    (hfirst : ∃ result rest, t = .recv fd 0 maxSizeOfMessage result :: rest)
    (hwork : Working fd t) (honce : (responses t).length ≤ 1) :
    ∃ v : Visit, v.fd = fd ∧ v.kept = kept ∧ v.calls = if kept then t else t ++ [.close fd] := by
  have hclosed : .close fd ∉ t := fun h => (hwork _ h).2 rfl
  cases kept with
  | true =>
    exact ⟨⟨fd, t, true, hfirst, fun e he => (hwork e he).1, honce, t, hclosed, rfl⟩, rfl, rfl, rfl⟩
  | false =>
    refine ⟨⟨fd, t ++ [.close fd], false, ?_, ?_, ?_, t, hclosed, rfl⟩, rfl, rfl, rfl⟩
    · obtain ⟨result, rest, rfl⟩ := hfirst
      exact ⟨result, rest ++ [.close fd], rfl⟩
    · intro e he
      rcases List.mem_append.mp he with he | he
      · exact (hwork e he).1
      · rw [List.mem_singleton.mp he]
        exact rfl
    · have hnone : responses [.close fd] = [] := rfl
      rw [responses_append, hnone, List.append_nil]
      exact honce

theorem recv_trace (offset len : ℕ) : (io.recv os fd offset len).2.trace =
    io.trace ++ [.recv fd offset len (os.recv fd len io.world).1] := by
  rw [Io.recv]
  cases (os.recv fd len io.world).1 <;> rfl

theorem send_trace (sendSize : ℕ) : (io.send os fd sendSize).2.trace = io.trace ++
    [.send fd (slice io.sendBuffer 0 sendSize) (os.send fd (slice io.sendBuffer 0 sendSize) io.world).1] := by
  rw [Io.send]
  cases (os.send fd (slice io.sendBuffer 0 sendSize) io.world).1 <;> rfl

theorem drain_working (fuel : ℕ) (recvResult : ℤ) (n : ℕ) (io : Io σ) :
    ∃ t, (drain os fd fuel recvResult n io).2.2.trace = io.trace ++ t ∧ Working fd t ∧
      responses t = [] := by
  induction fuel generalizing recvResult n io with
  | zero => exact ⟨[], (List.append_nil _).symm, by simp [Working], rfl⟩
  | succ fuel ih =>
    rw [drain]
    split
    · obtain ⟨t, ht, hwork, hnone⟩ := ih
        (io.recv os fd (n + recvResult.toNat) (spaceLeft (n + recvResult.toNat))).1
        (n + recvResult.toNat)
        (io.recv os fd (n + recvResult.toNat) (spaceLeft (n + recvResult.toNat))).2
      rw [recv_trace, List.append_assoc] at ht
      exact ⟨_, ht, Working.append (by simp [Working, OnConnection]) hwork, by
        rw [responses_append, hnone]; rfl⟩
    · exact ⟨[], (List.append_nil _).symm, by simp [Working], rfl⟩

/-- The receive loop sends nothing and closes nothing. -/
theorem receive_working (fd : Fd) (io : Io σ) : ∃ t, (receive os fd io).2.2.trace = io.trace ++ t ∧
    (∃ result rest, t = .recv fd 0 maxSizeOfMessage result :: rest) ∧ Working fd t ∧
    responses t = [] := by
  obtain ⟨t, ht, hwork, hnone⟩ := @drain_working σ os fd (maxSizeOfMessage + 1)
    (io.recv os fd 0 maxSizeOfMessage).1 0 (io.recv os fd 0 maxSizeOfMessage).2
  rw [recv_trace, List.append_assoc] at ht
  exact ⟨_, ht, ⟨_, t, rfl⟩, Working.append (by simp [Working, OnConnection]) hwork, hnone⟩

/-- The calls `t` were made, with a close behind them unless the connection is kept. -/
def Ends (fd : Fd) (io : Io σ) (t : List Event) (r : Bool × Io σ) : Prop :=
  r.2.trace = io.trace ++ (if r.1 then t else t ++ [.close fd])

theorem ends_close (h : io'.trace = io.trace ++ t) : Ends fd io t (false, io'.close os fd) := by
  rw [Ends, Io.close, h, List.append_assoc]
  rfl

/-- Answering a query sends at most one response and closes the connection or keeps it. -/
theorem answerQuery_ends (fd : Fd) (n : ℕ) (io : Io σ) :
    ∃ t, Ends fd io t (answerQuery os md5 fd n io) ∧ Working fd t ∧ (responses t).length ≤ 1 := by
  have hcreate : (io.createResponse os md5 fd n).2.trace = io.trace ++
      [.createResponse fd (os.readings io.world).1 (slice io.recvBuffer 0 n)
        (io.createResponse os md5 fd n).1] := rfl
  rw [answerQuery]
  split
  · exact ⟨_, ends_close hcreate, by simp [Working, OnConnection], Nat.zero_le _⟩
  · have hsend := @send_trace σ os fd (io.createResponse os md5 fd n).2
      (io.createResponse os md5 fd n).1.toNat
    rw [hcreate, List.append_assoc] at hsend
    dsimp only
    split
    · exact ⟨_, hsend, by simp [Working, OnConnection], le_refl _⟩
    · exact ⟨_, ends_close hsend, by simp [Working, OnConnection], le_refl _⟩

/-- What the loop over the connections does with one of them is a visit. -/
theorem visit_visit (fd : Fd) (io : Io σ) : ∃ v : Visit, v.fd = fd ∧
    v.kept = (visit os md5 fd io).1 ∧ (visit os md5 fd io).2.trace = io.trace ++ v.calls := by
  obtain ⟨t, ht, hfirst, hwork, hnone⟩ := @receive_working σ os fd io
  have hends : ∃ t', Ends fd io (t ++ t') (visit os md5 fd io) ∧ Working fd t' ∧
      (responses t').length ≤ 1 := by
    rw [visit]
    have hnothing : Working fd [] := by simp [Working]
    rw [← List.append_nil t] at ht
    split_ifs
    · exact ⟨[], ends_close ht, hnothing, Nat.zero_le _⟩
    · exact ⟨[], ends_close ht, hnothing, Nat.zero_le _⟩
    · exact ⟨[], ht, hnothing, Nat.zero_le _⟩
    · obtain ⟨t', hends, hwork', honce⟩ := @answerQuery_ends σ os md5 fd (receive os fd io).2.1
        (receive os fd io).2.2
      refine ⟨t', ?_, hwork', honce⟩
      rw [Ends, ht, List.append_nil, List.append_assoc] at hends
      rw [Ends, hends, List.append_assoc]
      split <;> rfl
  obtain ⟨t', hends, hwork', honce⟩ := hends
  obtain ⟨v, hfd, hkept, hcalls⟩ := exists_visit (visit os md5 fd io).1 (t := t ++ t')
    (by obtain ⟨result, rest, rfl⟩ := hfirst; exact ⟨result, rest ++ t', rfl⟩)
    (hwork.append hwork') (by rw [responses_append, hnone]; exact honce)
  exact ⟨v, hfd, hkept, by rw [hcalls]; exact hends⟩

/-! ### A round -/

/-- The pass over the connections, visit by visit. -/
theorem visitAll_eq_visits (cs : List Fd) (io : Io σ) : ∃ (visits : List Visit) (valid : Bool),
    visits.map Visit.fd = cs.take visits.length ∧
    (visitAll os md5 cs io).2.trace = io.trace ++ visits.flatMap Visit.events ++ [.getValid valid] ∧
    (visitAll os md5 cs io).1 =
      (visits.filter Visit.kept).map Visit.fd ++ cs.drop visits.length ∧
    (valid = true → visits.length = cs.length) := by
  induction cs generalizing io with
  | nil => exact ⟨[], (io.getValid os).1, rfl, by simp [visitAll, Io.getValid], rfl, fun _ => rfl⟩
  | cons c cs ih =>
    rw [visitAll]
    have htrace : (io.getValid os).2.trace = io.trace ++ [.getValid (io.getValid os).1] := rfl
    cases hvalid : (io.getValid os).1 with
    | false =>
      rw [hvalid] at htrace
      rw [if_neg (by simp)]
      exact ⟨[], false, rfl, by simp [htrace], rfl, by simp⟩
    | true =>
      rw [hvalid] at htrace
      rw [if_pos rfl]
      obtain ⟨v, hfd, hkept, hcalls⟩ := @visit_visit σ os md5 c (io.getValid os).2
      obtain ⟨visits, valid, hfds, hrest, hleft, hall⟩ := ih (visit os md5 c (io.getValid os).2).2
      refine ⟨v :: visits, valid, ?_, ?_, ?_, ?_⟩
      · rw [List.map_cons, List.length_cons, List.take_succ_cons, hfd, hfds]
      · rw [hrest, hcalls, htrace, List.flatMap_cons, Visit.events]
        simp
      · rw [List.filter_cons, hkept, List.length_cons, List.drop_succ_cons]
        dsimp only
        rw [hleft]
        split
        · rw [List.map_cons, hfd, List.cons_append]
        · rfl
      · intro h
        rw [List.length_cons, List.length_cons, hall h]

/-- A round serves the connections in their order, each once: it is a sequence of visits `visits` to
    the first connections, each of at most one response. They are all visited if the time source is
    valid to the end; else those that follow stay as they are. The connections left are the ones
    whose visit did not end in a close, in their order. -/
theorem handleQueries_roundRobin (os : OS σ) (md5 : List UInt8 → Digest) (maxConnections : Int32)
    (server : Fd) (cs : List Fd) (io : Io σ) :
    ∃ (visits : List Visit) (valid : Bool) (r' : Responder σ),
      handleQueriesAndCleanUpConnections os md5 ⟨maxConnections, server :: cs, io⟩ = some r' ∧
      visits.map Visit.fd = cs.take visits.length ∧
      r'.io.trace = io.trace ++ visits.flatMap Visit.events ++ [.getValid valid] ∧
      r'.sockets = server :: ((visits.filter Visit.kept).map Visit.fd ++ cs.drop visits.length) ∧
      (valid = true → visits.length = cs.length) := by
  obtain ⟨visits, valid, hfds, htrace, hleft, hall⟩ := @visitAll_eq_visits σ os md5 cs io
  refine ⟨visits, valid, _, handle_eq ⟨maxConnections, server :: cs, io⟩ rfl, hfds, htrace, ?_, hall⟩
  rw [← hleft]

end NHA.Serving
