import NativeHardwareAccess.Server.Descriptors
import NativeHardwareAccess.Server.ResponseLayout
import NativeHardwareAccess.Server.Session

/-! Every run of the server takes every connection through the phases of a session.

    All connections share the two buffers and one position in the list. At every program point the
    phase of a connection follows from where it stands in the list (`Listed`): those before the
    position have been visited in this round, those behind it have not, and the buffers belong to the
    one at it. What happens to the others, closing and erasing them included, leaves its phase alone. -/

namespace NHA.Threads
open Scheme Scheme.MD5 NHA.MessageBuilder NHA.Session
open NHA.Serving (Fd Errno Event maxSizeOfMessage spaceLeft spaceLeft_eq)

/-- The connection at `j`, while the one at `i` is visited. -/
def Beside (i j : ℕ) (ph : Phase) : Prop := (j < i → ph.Rested) ∧ (i < j → ph = .reading [])

/-- The phase of the connection at `j`, at each program point. -/
def Listed (p : Process) (j : ℕ) (ph : Phase) : Pc → Prop
  | .loopHead | .accepting | .accepted _ | .rejecting _ => ph = .reading []
  | .visitHead i => (j < i → ph.Rested) ∧ (i ≤ j → ph = .reading [])
  | .receiving i n | .answering i n =>
    Beside i j ph ∧ (j = i → n ≤ maxSizeOfMessage ∧ ph = .reading (slice p.recvBuffer 0 n))
  | .sending i sendSize => Beside i j ph ∧
    (j = i → (sendSize.toNat : ℤ) = sendSize ∧ ph = .replying (slice p.sendBuffer 0 sendSize.toNat))
  | .closing i => Beside i j ph ∧ (j = i → ph = .ended)
  | .polling => ph.Rested
  | .stopping _ | .stopped | .exited => True

/-- The calls so far have taken the connection to this phase. -/
structure InPhase (md5 : List UInt8 → Digest) (fd : Fd) (p : Process) (ph : Phase) : Prop where
  path : Machine.Path (Observed md5 fd) .ended p.trace ph
  listed : ∀ j, 1 ≤ j → p.sockets[j]? = some fd → Listed p j ph p.pc
  hand : p.pc.hand = some fd → ph = .reading []

/-- The calls so far follow the phases of a session. -/
def Tracked (md5 : List UInt8 → Digest) (fd : Fd) (p : Process) : Prop := ∃ ph, InPhase md5 fd p ph

/-- The program points of the turn of the connection at `i`, and the one after it. -/
def Pc.InTurn (i : ℕ) : Pc → Prop
  | .receiving k _ | .answering k _ | .sending k _ | .closing k => k = i
  | .visitHead k => k = i + 1
  | _ => False

section
variable {md5 : List UInt8 → Digest} {server fd fd' : Fd} {p q : Process} {ph ph' : Phase} {e : Event}
  {pc : Pc} {i j n : ℕ}

theorem listed_next : Listed (p.next e pc) j ph pc ↔ Listed p j ph pc := by
  cases pc <;> rfl

theorem Pc.InTurn.hand (h : pc.InTurn i) : pc.hand = none := by
  cases pc <;> first | rfl | exact absurd h (by simp [Pc.InTurn])

theorem inTurn_judge (i n : ℕ) (recvResult : ℤ) (errno : Errno) :
    (judge i n recvResult errno).InTurn i := by
  rw [judge]
  split_ifs <;> rfl

theorem inTurn_afterRecv (i n : ℕ) (recvResult : ℤ) (errno : Errno) :
    (afterRecv i n recvResult errno).InTurn i := by
  rw [afterRecv]
  split_ifs
  · rfl
  · exact inTurn_judge i n recvResult errno

/-- A visit leaves the other connections as they are. -/
theorem Beside.listed (h : Beside i j ph) (hne : j ≠ i) (hpc : pc.InTurn i) :
    Listed q j ph pc := by
  cases pc with
  | receiving k n =>
    obtain rfl : k = i := hpc
    exact ⟨h, fun heq => absurd heq hne⟩
  | answering k n =>
    obtain rfl : k = i := hpc
    exact ⟨h, fun heq => absurd heq hne⟩
  | sending k sendSize =>
    obtain rfl : k = i := hpc
    exact ⟨h, fun heq => absurd heq hne⟩
  | closing k =>
    obtain rfl : k = i := hpc
    exact ⟨h, fun heq => absurd heq hne⟩
  | visitHead k =>
    obtain rfl : k = i + 1 := hpc
    exact ⟨fun hlt => h.1 (by omega), fun hle => h.2 hle⟩
  | _ => exact hpc.elim

theorem beside_self (i : ℕ) (ph : Phase) : Beside i i ph :=
  ⟨fun h => absurd h (lt_irrefl i), fun h => absurd h (lt_irrefl i)⟩

/-- A connection that is not open has ended. -/
theorem ended_of_not_open {t : List Event} (h : Machine.Path (Observed md5 fd) .ended t ph)
    (hclosed : ¬ Open fd t) : ph = .ended := by
  refine Machine.Path.history (fun past ph => ¬ Open fd past → ph = .ended) ?_ t [] (fun _ => rfl)
    h hclosed
  intro past s e s' hpast hobs hnot
  rw [open_concat, not_or, not_and_or, not_not] at hnot
  rcases hnot.2 with hold | rfl
  · exact ended_step (hpast hold) hobs hnot.1
  · cases hobs with
    | close => rfl
    | other h => exact absurd rfl h

/-! ### One call -/

theorem InPhase.next (h : InPhase md5 fd p ph) (hobs : Observed md5 fd ph e ph')
    (ht : q.trace = p.trace)
    (hlisted : ∀ j, 1 ≤ j → q.sockets[j]? = some fd → Listed q j ph' pc)
    (hhand : pc.hand = some fd → ph' = .reading []) : InPhase md5 fd (q.next e pc) ph' := by
  refine ⟨?_, fun j hj hfd => listed_next.mpr (hlisted j hj hfd), hhand⟩
  rw [next_trace, ht]
  exact h.path.concat hobs

/-- A call on no connection or another one, outside of visits. -/
theorem InPhase.wait (h : InPhase md5 fd p ph) (helse : Elsewhere fd e) (hs : q.sockets = p.sockets)
    (ht : q.trace = p.trace) (hlisted : ∀ j, 1 ≤ j → Listed p j ph p.pc → Listed q j ph pc)
    (hhand : pc.hand = some fd → p.pc.hand = some fd) : InPhase md5 fd (q.next e pc) ph := by
  refine h.next (.other helse) ht ?_ (fun hfd => h.hand (hhand hfd))
  intro j hj hfd
  rw [hs] at hfd
  exact hlisted j hj (h.listed j hj hfd)

/-- During a visit the connection at the position occurs only there, behind the server socket. -/
theorem Owned.visits (h : Owned server p) (i : ℕ) (hfrom : p.pc.serving = true)
    (hi : p.pc.position = i) : 1 ≤ i ∧ p.sockets.Nodup := by
  obtain ⟨hpos, conns, hserving⟩ := h.held.1 hfrom
  refine ⟨hi ▸ hpos, ?_⟩
  rw [hserving.sockets]
  exact hserving.nodup

/-- A call of a visit, on the connection or on another one. -/
theorem InPhase.visit (h : InPhase md5 fd p ph) (howned : Owned server p)
    (hserving : p.pc.serving = true) (hpos : p.pc.position = i) (hfd' : p.sockets[i]? = some fd')
    (hs : q.sockets = p.sockets) (ht : q.trace = p.trace)
    (hfrom : ∀ j, Listed p j ph p.pc → Beside i j ph) (hto : pc.InTurn i)
    (helse : fd' ≠ fd → Elsewhere fd e)
    (hown : fd' = fd → Listed p i ph p.pc → ∃ ph', Observed md5 fd ph e ph' ∧ Listed q i ph' pc) :
    Tracked md5 fd (q.next e pc) := by
  obtain ⟨hi, hnodup⟩ := howned.visits i hserving hpos
  have hhand : ∀ ph', pc.hand = some fd → ph' = Phase.reading [] := by
    intro ph' hfd
    rw [hto.hand] at hfd
    exact absurd hfd (by simp)
  rcases eq_or_ne fd' fd with rfl | hne
  · obtain ⟨ph', hobs, hlisted⟩ := hown rfl (h.listed i hi hfd')
    refine ⟨ph', h.next hobs ht ?_ (hhand ph')⟩
    intro j hj hfd
    rw [hs, ← hfd'] at hfd
    obtain ⟨hlt, -⟩ := List.getElem?_eq_some_iff.mp hfd'
    obtain rfl := (List.getElem?_inj hlt hnodup).mp hfd.symm
    exact hlisted
  · refine ⟨ph, h.next (.other (helse hne)) ht ?_ (hhand ph)⟩
    intro j hj hfd
    rw [hs] at hfd
    have hji : j ≠ i := by
      rintro rfl
      exact hne (Option.some.inj (hfd'.symm.trans hfd))
    exact (hfrom j (h.listed j hj hfd)).listed hji hto

/-- The calls after the serving loop. -/
theorem InPhase.stop (h : InPhase md5 fd p ph) (hobs : Observed md5 fd ph e ph') (fds : List Fd) :
    InPhase md5 fd ((p.next e pc).stop fds) ph' := by
  have hpath := h.path.concat hobs
  cases fds with
  | nil => exact ⟨hpath, fun _ _ _ => trivial, by simp [Process.stop, Pc.hand]⟩
  | cons fd' fds => exact ⟨hpath, fun _ _ _ => trivial, by simp [Process.stop, Pc.hand]⟩

/-! ### The visits -/

theorem tracked_recvError {errno : Errno} (howned : Owned server p) (h : InPhase md5 fd p ph)
    (hpc : p.pc = .receiving i n) (hfd : p.sockets[i]? = some fd') :
    Tracked md5 fd ({ p with errno := errno }.next
      (.recv fd' n (spaceLeft n) (.error errno)) (judge i n (-1) errno)) := by
  refine h.visit howned (by rw [hpc]; rfl) (by rw [hpc]; rfl) hfd rfl rfl
    (by rw [hpc]; exact fun j hj => hj.1) (inTurn_judge i n (-1) errno) id ?_
  rintro rfl hlisted
  rw [hpc] at hlisted
  obtain ⟨hn, rfl⟩ := hlisted.2 rfl
  rw [judge, if_neg (by decide)]
  split_ifs with hbroken hnone
  · exact ⟨.ended, .broken hbroken, beside_self i _, fun _ => rfl⟩
  · -- nothing was there: the connection is left as it was
    subst hnone
    refine ⟨.reading [], .again (by tauto), ?_⟩
    exact ⟨fun _ => Or.inl rfl, fun _ => rfl⟩
  · exact ⟨_, .again (by tauto), beside_self i _, fun _ => ⟨hn, rfl⟩⟩

theorem tracked_recvOk {data : List UInt8} (howned : Owned server p) (h : InPhase md5 fd p ph)
    (hpc : p.pc = .receiving i n) (hfd : p.sockets[i]? = some fd')
    (hdata : data.length ≤ spaceLeft n) :
    Tracked md5 fd ({ p with recvBuffer := p.recvBuffer.stores n data }.next
      (.recv fd' n (spaceLeft n) (.ok data)) (afterRecv i n data.length p.errno)) := by
  refine h.visit howned (by rw [hpc]; rfl) (by rw [hpc]; rfl) hfd rfl rfl
    (by rw [hpc]; exact fun j hj => hj.1) (inTurn_afterRecv i n data.length p.errno) id ?_
  rintro rfl hlisted
  rw [hpc] at hlisted
  obtain ⟨hn, rfl⟩ := hlisted.2 rfl
  rw [afterRecv_bounded i p.errno hn hdata]
  split_ifs with hnil
  · subst hnil
    exact ⟨.ended, .closed, beside_self i _, fun _ => rfl⟩
  · refine ⟨_, .data hnil, beside_self i _, fun _ => ⟨?_, ?_⟩⟩
    · rw [spaceLeft_eq hn] at hdata
      omega
    · exact congrArg Phase.reading (Memory.slice_stores_append ..).symm

/-- What `createResponse` returns and leaves in the buffer. -/
theorem respond_cases (env : Readings) (hn : n ≤ maxSizeOfMessage) :
    ((p.respond md5 env n).1 = -1 ∧ reply md5 env (slice p.recvBuffer 0 n) = none) ∨
    ((p.respond md5 env n).1 ≠ -1 ∧ ((p.respond md5 env n).1.toNat : ℤ) = (p.respond md5 env n).1 ∧
      reply md5 env (slice p.recvBuffer 0 n) = some (responseOf (p.respond md5 env n))) := by
  rcases createResponse_reply md5 env p.recvBuffer p.sendBuffer hn with hnone | ⟨hne, hsome⟩
  · exact Or.inl hnone
  · exact Or.inr ⟨hne, responseOf_size_nonneg md5 env _ _ _ _ hne, hsome⟩

theorem tracked_respond {env : Readings} (howned : Owned server p) (h : InPhase md5 fd p ph)
    (hpc : p.pc = .answering i n) (hfd : p.sockets[i]? = some fd') :
    Tracked md5 fd ({ p with sendBuffer := (p.respond md5 env n).2.bytes }.next
      (.createResponse fd' env (slice p.recvBuffer 0 n) (p.respond md5 env n).1)
      (if (p.respond md5 env n).1 = -1 then .closing i else .sending i (p.respond md5 env n).1)) := by
  refine h.visit howned (by rw [hpc]; rfl) (by rw [hpc]; rfl) hfd rfl rfl
    (by rw [hpc]; exact fun j hj => hj.1) (by split_ifs <;> rfl) id ?_
  rintro rfl hlisted
  rw [hpc] at hlisted
  obtain ⟨hn, rfl⟩ := hlisted.2 rfl
  rcases respond_cases env hn with ⟨hsize, hnone⟩ | ⟨hne, hsize, hsome⟩
  · rw [if_pos hsize, hsize]
    exact ⟨.ended, .refuse hnone, beside_self i _, fun _ => rfl⟩
  · rw [if_neg hne]
    refine ⟨.replying (responseOf (p.respond md5 env n)), ?_, beside_self i _, fun _ => ⟨hsize, rfl⟩⟩
    have hanswer : Observed md5 fd' _ _ _ := .answer hsome
    rwa [length_responseOf, hsize] at hanswer

theorem tracked_sendError {sendSize : ℤ} {errno : Errno} (howned : Owned server p)
    (h : InPhase md5 fd p ph) (hpc : p.pc = .sending i sendSize) (hfd : p.sockets[i]? = some fd') :
    Tracked md5 fd ({ p with errno := errno }.next
      (.send fd' (slice p.sendBuffer 0 sendSize.toNat) (.error errno)) (.closing i)) := by
  refine h.visit howned (by rw [hpc]; rfl) (by rw [hpc]; rfl) hfd rfl rfl
    (by rw [hpc]; exact fun j hj => hj.1) rfl id ?_
  rintro rfl hlisted
  rw [hpc] at hlisted
  obtain ⟨-, rfl⟩ := hlisted.2 rfl
  exact ⟨.ended, .failed, beside_self i _, fun _ => rfl⟩

theorem tracked_sendOk {sendSize : ℤ} {k : ℕ} (howned : Owned server p)
    (h : InPhase md5 fd p ph) (hpc : p.pc = .sending i sendSize) (hfd : p.sockets[i]? = some fd') :
    Tracked md5 fd (p.next (.send fd' (slice p.sendBuffer 0 sendSize.toNat) (.ok k))
      (if (k : ℤ) = sendSize then .visitHead (i + 1) else .closing i)) := by
  refine h.visit howned (by rw [hpc]; rfl) (by rw [hpc]; rfl) hfd rfl rfl
    (by rw [hpc]; exact fun j hj => hj.1) (by split_ifs <;> rfl) id ?_
  rintro rfl hlisted
  rw [hpc] at hlisted
  obtain ⟨hsize, rfl⟩ := hlisted.2 rfl
  have hlen : (slice p.sendBuffer 0 sendSize.toNat).length = sendSize.toNat := length_slice ..
  split_ifs with hall
  · have hk : k = (slice p.sendBuffer 0 sendSize.toNat).length := by omega
    subst hk
    exact ⟨.served, .whole, fun _ => Or.inr rfl, fun hle => absurd hle (by omega)⟩
  · exact ⟨.ended, .cut (by omega), beside_self i _, fun _ => rfl⟩

theorem tracked_closeOne (howned : Owned server p) (h : InPhase md5 fd p ph)
    (hpc : p.pc = .closing i) (hfd : p.sockets[i]? = some fd') :
    Tracked md5 fd
      ({ p with sockets := p.sockets.eraseIdx i }.next (.close fd') (.visitHead i)) := by
  obtain ⟨hi, hnodup⟩ := howned.visits i (by rw [hpc]; rfl) (by rw [hpc]; rfl)
  obtain ⟨hlt, -⟩ := List.getElem?_eq_some_iff.mp hfd
  rcases eq_or_ne fd' fd with rfl | hne
  · -- the connection is erased, and occurred only once
    refine ⟨.ended, h.next (.close ph) rfl ?_ (by simp [Pc.hand])⟩
    intro j hj hmem
    rw [← hfd] at hmem
    rcases lt_or_ge j i with hji | hij
    · rw [List.getElem?_eraseIdx_of_lt hji] at hmem
      exact absurd ((List.getElem?_inj hlt hnodup).mp hmem.symm) (by omega)
    · rw [List.getElem?_eraseIdx_of_ge hij] at hmem
      exact absurd ((List.getElem?_inj hlt hnodup).mp hmem.symm) (by omega)
  · refine ⟨ph, h.next (.other hne) rfl ?_ (by simp [Pc.hand])⟩
    intro j hj hmem
    rcases lt_or_ge j i with hji | hij
    · -- before the erased one nothing moves
      rw [List.getElem?_eraseIdx_of_lt hji] at hmem
      have hlisted := h.listed j hj hmem
      rw [hpc] at hlisted
      exact ⟨fun _ => hlisted.1.1 hji, fun hle => absurd hle (by omega)⟩
    · rw [List.getElem?_eraseIdx_of_ge hij] at hmem
      have hlisted := h.listed (j + 1) (by omega) hmem
      rw [hpc] at hlisted
      exact ⟨fun hlt => absurd hlt (by omega), fun _ => hlisted.1.2 (by omega)⟩

/-! ### Between the visits -/

theorem tracked_accept (h : InPhase md5 fd p ph) (hpc : p.pc = .accepting)
    (hto : pc = .accepted fd' ∨ pc = .rejecting fd') :
    Tracked md5 fd (p.next (.accept (.ok fd')) pc) := by
  rcases eq_or_ne fd' fd with rfl | hne
  · refine ⟨.reading [], h.next (.accept ph) rfl ?_ (fun _ => rfl)⟩
    intro j hj hfd
    rcases hto with rfl | rfl <;> rfl
  · refine ⟨ph, h.wait hne rfl rfl ?_ ?_⟩
    · rw [hpc]
      intro j hj hlisted
      rcases hto with rfl | rfl <;> exact hlisted
    · intro hfd
      rcases hto with rfl | rfl <;> exact absurd (Option.some.inj hfd) hne

theorem tracked_fcntlOk (h : InPhase md5 fd p ph) (hpc : p.pc = .accepted fd') :
    Tracked md5 fd
      ({ p with sockets := p.sockets ++ [fd'] }.next (.fcntl fd' (.ok ())) .accepting) := by
  refine ⟨ph, h.next (.other trivial) rfl ?_ (by simp [Pc.hand])⟩
  intro j hj hfd
  rcases lt_or_ge j p.sockets.length with hlt | hge
  · have hlisted := h.listed j hj (by rwa [List.getElem?_append_left hlt] at hfd)
    rwa [hpc] at hlisted
  · -- the one that has just been accepted
    rw [List.getElem?_append_right hge] at hfd
    have heq : fd' = fd := List.mem_singleton.mp (List.mem_of_getElem? hfd) |>.symm
    exact h.hand (by rw [hpc, heq]; rfl)

theorem tracked_reject (howned : Owned server p) (h : InPhase md5 fd p ph)
    (hpc : p.pc = .rejecting fd') : Tracked md5 fd (p.next (.close fd') .accepting) := by
  obtain ⟨-, conns, hserving⟩ := howned.held.1 (by rw [hpc]; rfl)
  rcases eq_or_ne fd' fd with rfl | hne
  · refine ⟨.ended, h.next (.close ph) rfl ?_ (by simp [Pc.hand])⟩
    intro j hj hfd
    have hmem := List.mem_of_getElem? hfd
    rw [hserving.sockets] at hmem
    exact absurd hmem (hserving.hand fd' (by rw [hpc]; rfl))
  · exact ⟨ph, h.wait hne rfl rfl (by rw [hpc]; exact fun _ _ hlisted => hlisted)
      (by simp [Pc.hand])⟩

theorem tracked_poll {result : Except Errno Unit} (howned : Owned server p)
    (h : InPhase md5 fd p ph) (hpc : p.pc = .polling) (hs : q.sockets = p.sockets)
    (ht : q.trace = p.trace) (hto : pc = .loopHead ∨ pc = .exited) :
    Tracked md5 fd (q.next (.poll result) pc) := by
  obtain ⟨-, conns, hserving⟩ := howned.held.1 (by rw [hpc]; rfl)
  have hhand : ∀ ph', pc.hand = some fd → ph' = Phase.reading [] := by
    rcases hto with rfl | rfl <;> simp [Pc.hand]
  by_cases hmem : fd ∈ conns
  · -- a connection of the list is ready for the next round
    obtain ⟨j, hj⟩ := List.getElem?_of_mem hmem
    have hrested := h.listed (j + 1) (by omega) (by rw [hserving.sockets]; exact hj)
    rw [hpc] at hrested
    refine ⟨.reading [], h.next (.round hrested) ht ?_ (hhand _)⟩
    intro k hk hfd
    rcases hto with rfl | rfl
    · rfl
    · trivial
  · have hended : ph = .ended := by
      refine ended_of_not_open h.path ?_
      rw [hserving.opened, hpc]
      simp [hmem, Pc.hand]
    subst hended
    refine ⟨.ended, h.next .gone ht ?_ (hhand _)⟩
    intro k hk hfd
    obtain ⟨j, rfl⟩ := Nat.exists_eq_add_of_le' hk
    rw [hs, hserving.sockets, List.getElem?_cons_succ] at hfd
    exact absurd (List.mem_of_getElem? hfd) hmem

/-! ### Runs -/

/-- What the system promises: `accept` returns fresh descriptors, and `recv` no more bytes than it was
    asked for. -/
def Lawful (p : Process) (a : Action) : Prop := Fresh p a ∧ Bounded p a

instance (p : Process) (a : Action) : Decidable (Lawful p a) := inferInstanceAs (Decidable (_ ∧ _))

/-- Every step is a step of every connection's session. -/
theorem tracked_step (p : Process) (a : Action) (p' : Process)
    (hinv : Owned server p ∧ Tracked md5 fd p) (hlawful : Lawful p a)
    (hstep : step md5 p a = some p') : Owned server p' ∧ Tracked md5 fd p' := by
  obtain ⟨howned, ph, h⟩ := hinv
  refine ⟨owned_step p a p' howned hlawful.1 hstep, ?_⟩
  cases step_cases hstep with
  | callback time tsc =>
    refine ⟨ph, h.path, ?_, h.hand⟩
    intro j hj hfd
    have hlisted := h.listed j hj hfd
    revert hlisted
    cases p.pc <;> exact id
  | leave hpc => exact ⟨ph, h.stop (e := .getValid false) (.other trivial) p.sockets⟩
  | stopOne hpc =>
    rename_i fd' rest
    rcases eq_or_ne fd' fd with rfl | hne
    · exact ⟨.ended, h.stop (.close ph) rest⟩
    · exact ⟨ph, h.stop (e := .close fd') (.other hne) rest⟩
  | acceptFull hpc => exact tracked_accept h hpc (Or.inr rfl)
  | acceptOk hpc => exact tracked_accept h hpc (Or.inl rfl)
  | fcntlOk hpc => exact tracked_fcntlOk h hpc
  | reject hpc => exact tracked_reject howned h hpc
  | closeOne hpc hfd => exact tracked_closeOne howned h hpc hfd
  | recvError hpc hfd => exact tracked_recvError howned h hpc hfd
  | recvOk hpc hfd =>
    have hdata := hlawful.2
    rw [Bounded, hpc] at hdata
    exact tracked_recvOk howned h hpc hfd hdata
  | respond hpc hfd => exact tracked_respond howned h hpc hfd
  | sendError hpc hfd => exact tracked_sendError howned h hpc hfd
  | sendOk hpc hfd => exact tracked_sendOk howned h hpc hfd
  | pollError hpc => exact tracked_poll howned h hpc rfl rfl (Or.inr rfl)
  | pollOk hpc => exact tracked_poll howned h hpc rfl rfl (Or.inl rfl)
  | serve hpc | acceptAborted hpc =>
    exact ⟨ph, h.wait trivial rfl rfl (by rw [hpc]; exact fun _ _ hlisted => hlisted)
      (by simp [Pc.hand])⟩
  | missing hpc | acceptFatal hpc =>
    exact ⟨ph, h.wait trivial rfl rfl (fun _ _ _ => trivial) (by simp [Pc.hand])⟩
  | fcntlError hpc =>
    exact ⟨ph, h.wait trivial rfl rfl (by rw [hpc]; exact fun _ _ hlisted => hlisted)
      (by rw [hpc]; exact id)⟩
  | acceptNone hpc =>
    refine ⟨ph, h.wait trivial rfl rfl ?_ (by simp [Pc.hand])⟩
    rw [hpc]
    intro j hj hlisted
    exact ⟨fun _ => Or.inl hlisted, fun _ => hlisted⟩
  | visit hpc =>
    refine ⟨ph, h.wait trivial rfl rfl ?_ (by simp [Pc.hand])⟩
    rw [hpc]
    intro j hj hlisted
    exact ⟨⟨hlisted.1, fun hlt => hlisted.2 hlt.le⟩,
      fun heq => ⟨Nat.zero_le _, hlisted.2 heq.ge⟩⟩
  | leaveVisits hpc hend =>
    rename_i i
    refine ⟨ph, h.wait trivial rfl rfl ?_ (by simp [Pc.hand])⟩
    rw [hpc]
    intro j hj hlisted
    rcases lt_or_ge j i with hlt | hge
    · exact hlisted.1 hlt
    · exact Or.inl (hlisted.2 hge)

end

/-- CORRECT: a client's byte stream is never out of step. In every run, between the acceptance of a
    connection and the next one that returns its descriptor, the bytes accepted by `send` are the full
    outputs of the calls of `createResponse` on bytes received on this connection, in their order and
    at most one in a round, and then at most a proper prefix of one more; and nothing is sent after
    such a prefix, a failed send or a refused query. -/
theorem streams_in_step (md5 : List UInt8 → Digest) (calls : SetupCalls) (sockets : List Fd)
    (events : List SetupEvent) (timer : MonotonicTimer.Timer) (maxConnections : Int32)
    (recvBuffer sendBuffer : Memory) (errno : Errno) (actions : List Action) (p : Process)
    (hsetup : setupServer calls = (true, sockets, events))
    (hlawful : Machine.Along (step md5) Lawful
      (Process.init timer maxConnections sockets recvBuffer sendBuffer errno) actions)
    (hrun : Machine.run (step md5)
      (Process.init timer maxConnections sockets recvBuffer sendBuffer errno) actions = some p)
    (fd : Fd) (pre life post : List Event)
    (hlife : p.trace = pre ++ .accept (.ok fd) :: life ++ post)
    (honce : .accept (.ok fd) ∉ life) : InStep md5 fd life := by
  obtain ⟨server, rfl, -⟩ := setupServer_ok hsetup
  have hinit : Tracked md5 fd
      (Process.init timer maxConnections [server] recvBuffer sendBuffer errno) := by
    refine ⟨.ended, rfl, ?_, by simp [Process.init, Pc.hand]⟩
    intro j hj hfd
    rw [Process.init, List.getElem?_singleton, if_neg (by omega)] at hfd
    exact absurd hfd (by simp)
  obtain ⟨-, ph, hphase⟩ := Machine.run_invariant tracked_step actions ⟨owned_init .., hinit⟩
    hlawful hrun
  have hpath := hphase.path
  rw [hlife] at hpath
  obtain ⟨ph₁, hfirst, -⟩ := (Machine.path_append _).mp hpath
  obtain ⟨ph₂, -, ph₃, haccept, hrest⟩ := (Machine.path_append pre).mp hfirst
  cases haccept with
  | accept => exact inStep_of_path hrest honce
  | other h => exact absurd rfl h

/-- A client asks twice for the device ID. The first answer is sent whole, of the second only ten
    bytes. -/
def cutRun : List Action :=
  [.getValid, .accept (.ok 5), .fcntl (.ok ()), .accept (.error .eagain), .getValid,
   .recv (.ok deviceIDQuery), .recv (.error .eagain), .createResponse sampleReadings, .send (.ok 56),
   .getValid, .poll (.ok ()), .getValid, .accept (.error .eagain), .getValid,
   .recv (.ok deviceIDQuery), .recv (.error .eagain), .createResponse sampleReadings, .send (.ok 10),
   .close, .getValid, .poll (.ok ())]

theorem cutRun_in_step : ∃ p pre life, Machine.run (step MD5.md5) sampleInit cutRun = some p ∧
    p.trace = pre ++ .accept (.ok 5) :: life ∧ (callsOn 5 life).length = 2 ∧
    (sentOn 5 life).length = 66 ∧ InStep MD5.md5 5 life := by
  have hrun : (Machine.run (step MD5.md5) sampleInit cutRun).any (fun p =>
      (p.trace[1]?.any (openAfter 5 false) = true ∧
        ∀ e ∈ p.trace.drop 2, openAfter 5 false e = false) ∧
      (callsOn 5 (p.trace.drop 2)).length = 2 ∧ (sentOn 5 (p.trace.drop 2)).length = 66) = true := by
    decide +kernel
  obtain ⟨p, hp, hend⟩ := (Option.any_eq_true _ _).mp hrun
  obtain ⟨⟨hfirst, hlater⟩, hcalls, hsent⟩ := of_decide_eq_true hend
  obtain ⟨e, hget, he⟩ := (Option.any_eq_true _ _).mp hfirst
  obtain rfl := openAfter_false_iff.mp he
  have htrace : p.trace = p.trace.take 1 ++ .accept (.ok 5) :: p.trace.drop 2 := by
    obtain ⟨hlt, hval⟩ := List.getElem?_eq_some_iff.mp hget
    rw [← hval, ← List.drop_eq_getElem_cons hlt, List.take_append_drop]
  refine ⟨p, p.trace.take 1, p.trace.drop 2, hp, htrace, hcalls, hsent, ?_⟩
  refine streams_in_step MD5.md5 ⟨true, true, some 3, true, true, true, true⟩ [3] _ _ _ _ _ _ cutRun
    p rfl (by decide +kernel) hp 5 (p.trace.take 1) (p.trace.drop 2) [] ?_ ?_
  · rw [List.append_nil]
    exact htrace
  · intro hmem
    exact absurd (openAfter_false_iff.mpr rfl) (by rw [hlater _ hmem]; simp)

end NHA.Threads
