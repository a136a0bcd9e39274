import NativeHardwareAccess.Server.Descriptors

/-! The serving loop, call by call.

    `Responder` describes the functions of the server over an operating system, `Threads` the calls
    they make one by one. Both are the same program: as long as the time source is valid, whatever the
    serving loop does over an operating system is a run of the call-by-call machine, with the outcomes
    that system gives, to the same sockets, buffers and calls. So what holds of every run of the
    machine holds of the serving loop over every system. -/

namespace NHA.Threads
open Scheme Scheme.MD5 NHA.MessageBuilder
open NHA.Serving (Fd Errno Event OS Io Responder maxSizeOfMessage spaceLeft)

variable {σ : Type*} (os : OS σ) (md5 : List UInt8 → Digest) (timer : MonotonicTimer.Timer)

/-- The process of a responder at a program point. -/
def standing (pc : Pc) (r : Responder σ) : Process :=
  ⟨timer, pc, r.maxConnections, r.sockets, r.io.recvBuffer, r.io.sendBuffer, r.io.errno, r.io.trace⟩

section
variable {r : Responder σ} {i n : ℕ} {fd : Fd}

/-! ### One visit -/

/-- One `recv`. -/
theorem reaches_recv (hfd : r.sockets[i]? = some fd) :
    Machine.Reaches (step md5) (standing timer (.receiving i n) r)
      (standing timer
        (afterRecv i n (r.io.recv os fd n (spaceLeft n)).1 (r.io.recv os fd n (spaceLeft n)).2.errno)
        { r with io := (r.io.recv os fd n (spaceLeft n)).2 }) := by
  rw [Io.recv]
  cases hrecv : (os.recv fd (spaceLeft n) r.io.world).1 with
  | error e => exact .single (a := .recv (.error e)) (step_recvError_eq md5 e rfl hfd)
  | ok data => exact .single (a := .recv (.ok data)) (step_recvOk_eq md5 data rfl hfd)

/-- The loop around `recv`. There is fuel for every byte of the buffer, and every turn takes one. -/
theorem reaches_drain (fuel : ℕ) {recvResult : ℤ} (hfd : r.sockets[i]? = some fd)
    (hfuel : maxSizeOfMessage ≤ fuel + n) :
    Machine.Reaches (step md5) (standing timer (afterRecv i n recvResult r.io.errno) r)
      (standing timer
        (judge i (Serving.drain os fd fuel recvResult n r.io).2.1
          (Serving.drain os fd fuel recvResult n r.io).1
          (Serving.drain os fd fuel recvResult n r.io).2.2.errno)
        { r with io := (Serving.drain os fd fuel recvResult n r.io).2.2 }) := by
  induction fuel generalizing r n recvResult with
  | zero =>
    rw [Serving.drain, afterRecv, if_neg (by omega)]
    exact .refl _
  | succ fuel ih =>
    rw [Serving.drain, afterRecv]
    split_ifs with hmore
    · refine (reaches_recv os md5 timer hfd).trans (ih (r := { r with io := _ }) hfd ?_)
      omega
    · exact .refl _

/-- Where the machine stands after the visit of the connection at `i`: behind it, or at the one that
    has moved to its place. -/
def afterVisit (i : ℕ) (r : Responder σ) (v : Bool × Io σ) : Process :=
  if v.1 then standing timer (.visitHead (i + 1)) { r with io := v.2 }
  else standing timer (.visitHead i) { r with sockets := r.sockets.eraseIdx i, io := v.2 }

theorem reaches_close (hfd : r.sockets[i]? = some fd) :
    Machine.Reaches (step md5) (standing timer (.closing i) r)
      (afterVisit timer i r (false, r.io.close os fd)) :=
  .single (a := .close) (step_closeOne_eq md5 rfl hfd)

theorem reaches_createResponse (hfd : r.sockets[i]? = some fd) :
    Machine.Reaches (step md5) (standing timer (.answering i n) r)
      (standing timer
        (if (r.io.createResponse os md5 fd n).1 = -1 then .closing i
          else .sending i (r.io.createResponse os md5 fd n).1)
        { r with io := (r.io.createResponse os md5 fd n).2 }) :=
  .single (step_createResponse_eq md5 (os.readings r.io.world).1 rfl hfd)

theorem reaches_send {sendSize : ℤ} (hfd : r.sockets[i]? = some fd) (hsize : sendSize ≠ -1) :
    Machine.Reaches (step md5) (standing timer (.sending i sendSize) r)
      (standing timer
        (if (r.io.send os fd sendSize.toNat).1 = sendSize then .visitHead (i + 1) else .closing i)
        { r with io := (r.io.send os fd sendSize.toNat).2 }) := by
  rw [Io.send]
  cases hsend : (os.send fd (slice r.io.sendBuffer 0 sendSize.toNat) r.io.world).1 with
  | error e =>
    rw [if_neg hsize.symm]
    exact .single (a := .send (.error e)) (step_sendError_eq md5 e rfl hfd)
  | ok k => exact .single (a := .send (.ok k)) (step_sendOk_eq md5 k rfl hfd)

/-- Answering what has been received. -/
theorem reaches_answerQuery (hfd : r.sockets[i]? = some fd) :
    Machine.Reaches (step md5) (standing timer (.answering i n) r)
      (afterVisit timer i r (Serving.answerQuery os md5 fd n r.io)) := by
  refine (reaches_createResponse os md5 timer hfd).trans ?_
  rw [Serving.answerQuery]
  dsimp only
  split_ifs with hrefused hsent
  · exact reaches_close os md5 timer (r := { r with io := _ }) hfd
  · have hsend := reaches_send os md5 timer
      (r := { r with io := (r.io.createResponse os md5 fd n).2 }) hfd hrefused
    rw [if_pos hsent] at hsend
    exact hsend
  · have hsend := reaches_send os md5 timer
      (r := { r with io := (r.io.createResponse os md5 fd n).2 }) hfd hrefused
    rw [if_neg hsent] at hsend
    exact hsend.trans (reaches_close os md5 timer (r := { r with io := _ }) hfd)

/-- The body of the loop over the connections. -/
theorem reaches_visit (hfd : r.sockets[i]? = some fd) :
    Machine.Reaches (step md5) (standing timer (.receiving i 0) r)
      (afterVisit timer i r (Serving.visit os md5 fd r.io)) := by
  have hreceive := (reaches_recv os md5 timer (n := 0) hfd).trans
    (reaches_drain os md5 timer (maxSizeOfMessage + 1) (r := { r with io := _ }) hfd (by omega))
  refine Machine.Reaches.trans hreceive ?_
  change Machine.Reaches (step md5) (standing timer (judge i (Serving.receive os fd r.io).2.1
    (Serving.receive os fd r.io).1 (Serving.receive os fd r.io).2.2.errno)
    { r with io := (Serving.receive os fd r.io).2.2 }) _
  rw [Serving.visit, judge]
  split_ifs
  · exact reaches_close os md5 timer (r := { r with io := _ }) hfd
  · exact reaches_close os md5 timer (r := { r with io := _ }) hfd
  · exact .refl _
  · exact reaches_answerQuery os md5 timer (r := { r with io := _ }) hfd

/-! ### New clients -/

/-- A connection that is not kept is closed at once. -/
theorem reaches_reject : Machine.Reaches (step md5) (standing timer (.rejecting fd) r)
    (standing timer .accepting { r with io := r.io.close os fd }) :=
  .single (a := .close) rfl

theorem reaches_fcntl : Machine.Reaches (step md5) (standing timer (.accepted fd) r)
    (match (r.io.fcntl os fd).1 with
      | .error _ => standing timer (.rejecting fd) { r with io := (r.io.fcntl os fd).2 }
      | .ok _ => standing timer .accepting
          { r with sockets := r.sockets ++ [fd], io := (r.io.fcntl os fd).2 }) := by
  rw [Io.fcntl]
  cases hfcntl : (os.fcntl fd r.io.world).1 with
  | error e => exact .single (a := .fcntl (.error e)) rfl
  | ok u => exact .single (a := .fcntl (.ok u)) rfl

/-- A client is accepted, below the limit or not. -/
theorem reaches_accept (serverSocket : Fd)
    (haccept : (os.accept serverSocket r.io.world).1 = .ok fd) :
    Machine.Reaches (step md5) (standing timer .accepting r)
      (standing timer
        (if r.sockets.length > (r.maxConnections.toInt % 2 ^ 64).toNat then .rejecting fd
          else .accepted fd)
        { r with io := (r.io.accept os serverSocket).2 }) := by
  rw [Io.accept, haccept]
  exact .single (a := .accept (.ok fd)) rfl

/-- The `accept` loop, if it ends. -/
theorem reaches_acceptLoop (serverSocket : Fd) (fuel : ℕ) {r' : Responder σ}
    (h : Serving.acceptLoop os serverSocket fuel r = some r') (hs : r.sockets ≠ []) :
    Machine.Reaches (step md5) (standing timer .accepting r) (standing timer (.visitHead 1) r') ∧
      r'.sockets ≠ [] := by
  induction fuel generalizing r with
  | zero => exact absurd h (by simp [Serving.acceptLoop])
  | succ fuel ih =>
    rw [Serving.acceptLoop] at h
    cases haccept : (os.accept serverSocket r.io.world).1 with
    | error e =>
      rw [Io.accept, haccept] at h
      dsimp only at h
      cases e with
      | eagain =>
        obtain rfl := Option.some.inj h
        refine ⟨.single (a := .accept (.error .eagain)) ?_, hs⟩
        simp [step, standing, Process.next, hs]
      | ewouldblock =>
        obtain rfl := Option.some.inj h
        refine ⟨.single (a := .accept (.error .ewouldblock)) ?_, hs⟩
        simp [step, standing, Process.next, hs]
      | econnaborted =>
        obtain ⟨hrest, hs'⟩ := ih h hs
        exact ⟨.trans (.single (a := .accept (.error .econnaborted)) rfl) hrest, hs'⟩
      | other code => exact absurd h (by simp)
    | ok fd =>
      have hok : (r.io.accept os serverSocket).1 = .ok fd := by
        rw [(r.io.accept_eq os serverSocket).1, haccept]
      have hfirst := reaches_accept os md5 timer serverSocket haccept
      rw [hok] at h
      dsimp only at h
      split_ifs at h hfirst with hfull
      · obtain ⟨hrest, hs'⟩ := ih h hs
        exact ⟨hfirst.trans ((reaches_reject os md5 timer).trans hrest), hs'⟩
      · have hsecond := hfirst.trans (reaches_fcntl os md5 timer)
        dsimp only at hsecond
        split at h
        · rename_i e hfcntl
          rw [hfcntl] at hsecond
          obtain ⟨hrest, hs'⟩ := ih h hs
          exact ⟨hsecond.trans ((reaches_reject os md5 timer).trans hrest), hs'⟩
        · rename_i u hfcntl
          rw [hfcntl] at hsecond
          obtain ⟨hrest, hs'⟩ := ih h (by simp)
          exact ⟨hsecond.trans hrest, hs'⟩

/-! ### Rounds -/

variable {os} {timer} (hvalid : ∀ w, (os.getValid w).1 = true) (htimer : timer.valid = true)
include hvalid htimer

/-- The flag is read before a visit. -/
theorem reaches_getValid :
    Machine.Reaches (step md5) (standing timer (.visitHead i) r)
      (standing timer (if i < r.sockets.length then .receiving i 0 else .polling)
        { r with io := (r.io.getValid os).2 }) := by
  refine .single (a := .getValid) ?_
  simp [step, standing, Process.next, Io.getValid, hvalid, htimer]

/-- The loop over the connections. A visit takes one turn, whether the list gets shorter or not, and
    the last turn finds no more connections. -/
theorem reaches_handleLoop (fuel : ℕ) (hi : i ≤ r.sockets.length)
    (hfuel : r.sockets.length < fuel + i) :
    Machine.Reaches (step md5) (standing timer (.visitHead i) r)
      (standing timer .polling
        { r with
          sockets := (Serving.handleLoop os md5 fuel i r.sockets r.io).1
          io := (Serving.handleLoop os md5 fuel i r.sockets r.io).2 }) := by
  induction fuel generalizing i r with
  | zero => omega
  | succ fuel ih =>
    refine (reaches_getValid md5 hvalid htimer).trans ?_
    have hv : (r.io.getValid os).1 = true := hvalid _
    rw [Serving.handleLoop]
    cases hfd : r.sockets[i]? with
    | none =>
      rw [hv, if_neg (Nat.not_lt.mpr (List.getElem?_eq_none_iff.mp hfd))]
      exact .refl _
    | some fd =>
      obtain ⟨hlt, -⟩ := List.getElem?_eq_some_iff.mp hfd
      rw [hv, if_pos hlt]
      refine (reaches_visit os md5 timer (r := { r with io := (r.io.getValid os).2 }) hfd).trans ?_
      rw [afterVisit]
      dsimp only
      split_ifs with hkept
      · exact ih (r := { r with io := _ }) hlt (by dsimp only; omega)
      · have hlen : (r.sockets.eraseIdx i).length = r.sockets.length - 1 :=
          List.length_eraseIdx_of_lt hlt
        exact ih (r := { r with sockets := _, io := _ }) (by dsimp only; omega) (by dsimp only; omega)

/-- The flag is read before a round. -/
theorem reaches_serve (hs : r.sockets ≠ []) :
    Machine.Reaches (step md5) (standing timer .loopHead r)
      (standing timer .accepting { r with io := (r.io.getValid os).2 }) := by
  refine .single (a := .getValid) ?_
  simp [step, standing, Process.next, Io.getValid, hvalid, htimer, hs]

omit hvalid htimer in
/-- The end of a round. -/
theorem reaches_poll {r' : Responder σ} (h : Serving.waitForSocketActivity os r = some r') :
    Machine.Reaches (step md5) (standing timer .polling r) (standing timer .loopHead r') := by
  rw [Serving.waitForSocketActivity, Io.poll] at h
  cases hpoll : (os.poll r.sockets r.io.world).1 with
  | error e =>
    rw [hpoll] at h
    exact absurd h (by simp)
  | ok u =>
    rw [hpoll] at h
    obtain rfl := Option.some.inj h
    exact .single (a := .poll (.ok u)) rfl

/-- One turn of the serving loop, from one read of the flag to the next. -/
theorem reaches_round {r' : Responder σ}
    (h : Serving.round os md5 { r with io := (r.io.getValid os).2 } = some r') :
    Machine.Reaches (step md5) (standing timer .loopHead r) (standing timer .loopHead r') := by
  rw [Serving.round, Option.bind_eq_some_iff] at h
  obtain ⟨r₁, haccept, h⟩ := h
  obtain ⟨r₂, hhandle, hpoll⟩ := Option.bind_eq_some_iff.mp h
  cases hs : r.sockets with
  | nil =>
    rw [Serving.acceptNewClients, hs] at haccept
    exact absurd haccept (by simp)
  | cons serverSocket conns =>
    rw [Serving.acceptNewClients, hs] at haccept
    obtain ⟨haccepted, hs₁⟩ := reaches_acceptLoop os md5 timer serverSocket _ haccept (by simp)
    rw [Serving.handleQueriesAndCleanUpConnections, if_neg hs₁] at hhandle
    obtain rfl := Option.some.inj hhandle
    have hvisited := reaches_handleLoop md5 hvalid htimer (r := r₁) (i := 1) r₁.sockets.length
      (List.length_pos_of_ne_nil hs₁) (by omega)
    have hserve := reaches_serve md5 hvalid htimer (r := r) (by rw [hs]; simp)
    rw [hs] at hserve
    exact hserve.trans (haccepted.trans (hvisited.trans (reaches_poll md5 hpoll)))

/-- The serving loop over an operating system is a run of the machine, as long as the time source is
    valid. -/
theorem reaches_start (turns : ℕ) {r' : Responder σ} (h : Serving.start os md5 turns r = some r') :
    Machine.Reaches (step md5) (standing timer .loopHead r) (standing timer .loopHead r') := by
  induction turns generalizing r with
  | zero =>
    obtain rfl := Option.some.inj h
    exact .refl _
  | succ turns ih =>
    have hv : (r.io.getValid os).1 = true := hvalid _
    rw [Serving.start, if_pos hv, Option.bind_eq_some_iff] at h
    obtain ⟨r₁, hround, hrest⟩ := h
    exact (reaches_round md5 hvalid htimer hround).trans (ih hrest)

/-- What every step of the machine keeps is kept by the serving loop: the connection limit. -/
theorem start_within (turns k : ℕ) {r' : Responder σ} (hlimit : r.maxConnections.toInt = k)
    (hs : r.sockets.length ≤ k + 1) (h : Serving.start os md5 turns r = some r') :
    r'.sockets.length ≤ k + 1 := by
  obtain ⟨actions, hrun⟩ := reaches_start md5 hvalid htimer turns h
  have hwithin : Within k (standing timer .loopHead r') := Machine.run_invariant within_step actions
    ⟨hlimit, hs, by simp [standing]⟩ (Machine.along_of_forall (fun _ _ => trivial) _ _) hrun
  exact hwithin.sockets

/-! ### The end -/

omit hvalid htimer

/-- The `for` loop that closes the sockets. -/
theorem reaches_closes (fds : List Fd) :
    Machine.Reaches (step md5) ((standing timer .loopHead r).stop fds)
      (standing timer .stopped
        { r with sockets := [], io := fds.foldl (fun io fd => io.close os fd) r.io }) := by
  induction fds generalizing r with
  | nil => exact .refl _
  | cons fd fds ih =>
    have hclose : Machine.Reaches (step md5) ((standing timer .loopHead r).stop (fd :: fds))
        ((standing timer .loopHead { r with io := r.io.close os fd }).stop fds) :=
      .single (a := .close) rfl
    exact hclose.trans ih

/-- A turn that finds the time source invalid. -/
theorem reaches_stop (hinvalid : (os.getValid r.io.world).1 = false) (htimer : timer.valid = false) :
    Machine.Reaches (step md5) (standing timer .loopHead r)
      (standing timer .stopped (Serving.stop os { r with io := (r.io.getValid os).2 })) := by
  have hleave : step md5 (standing timer .loopHead r) .getValid =
      some ((standing timer .loopHead { r with io := (r.io.getValid os).2 }).stop r.sockets) := by
    simp [step, standing, Process.next, Io.getValid, hinvalid, htimer]
  exact (Machine.Reaches.single hleave).trans (reaches_closes md5 r.sockets)

end

end NHA.Threads
