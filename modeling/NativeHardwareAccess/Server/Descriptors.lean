import NativeHardwareAccess.Server.Threads

/-! Descriptors and the connection limit.

    A connection's descriptor is acquired by `accept` and given back by `close` on one of eight
    branches. Whatever the calls return, at every program point the open descriptors are those in the
    list of sockets behind the server socket, and the one that has just been accepted and is not yet in
    it (`Owned`). Hence none is leaked, closed twice or used after its close.

    The limit on connections compares the length of that list, server socket included, with the
    configured number as an unsigned one. It holds exactly for numbers that are not negative. -/

namespace NHA.Threads
open Scheme Scheme.MD5 NHA.MessageBuilder
open NHA.Serving (Fd Errno Event)

/-! ### Open descriptors -/

/-- `accept` has returned the descriptor, and `close` has not been called on it since. -/
def Open (fd : Fd) (trace : List Event) : Prop :=
  ∃ pre post, trace = pre ++ .accept (.ok fd) :: post ∧ Event.close fd ∉ post

/-- The connection descriptor a call is made on. -/
def calledOn : Event → Option Fd
  | .fcntl fd _ => some fd
  | .recv fd _ _ _ => some fd
  | .send fd _ _ => some fd
  | .close fd => some fd
  | _ => none

theorem not_open_nil (fd : Fd) : ¬ Open fd [] := by
  rintro ⟨pre, post, h, -⟩
  simp at h

theorem open_concat {fd : Fd} {t : List Event} {e : Event} :
    Open fd (t ++ [e]) ↔ e = .accept (.ok fd) ∨ (Open fd t ∧ e ≠ .close fd) := by
  constructor
  · rintro ⟨pre, post, h, hpost⟩
    rcases Machine.concat_eq_split.mp h with ⟨-, -, he⟩ | ⟨post', rfl, rfl⟩
    · exact Or.inl he
    · rw [List.mem_append, List.mem_singleton, not_or] at hpost
      exact Or.inr ⟨⟨pre, post', rfl, hpost.1⟩, fun heq => hpost.2 heq.symm⟩
  · rintro (rfl | ⟨⟨pre, post, rfl, hpost⟩, hne⟩)
    · exact ⟨t, [], rfl, List.not_mem_nil⟩
    · refine ⟨pre, post ++ [e], by simp, ?_⟩
      rw [List.mem_append, List.mem_singleton, not_or]
      exact ⟨hpost, fun heq => hne heq.symm⟩

/-- Whether the descriptor is open after a call. -/
def openAfter (fd : Fd) (isOpen : Bool) : Event → Bool
  | .accept (.ok fd') => if fd' = fd then true else isOpen
  | .close fd' => if fd' = fd then false else isOpen
  | _ => isOpen

theorem openAfter_false_iff {fd : Fd} {e : Event} :
    openAfter fd false e = true ↔ e = .accept (.ok fd) := by
  unfold openAfter
  split
  · split_ifs with heq <;> simp [heq]
  · simp
  · rename_i haccept hclose
    simpa using haccept fd

theorem open_iff_foldl (fd : Fd) (t : List Event) :
    Open fd t ↔ t.foldl (openAfter fd) false = true := by
  induction t using List.reverseRecOn with
  | nil => simp [not_open_nil]
  | append_singleton t e ih =>
    rw [open_concat, ih, List.foldl_append, List.foldl_cons, List.foldl_nil]
    unfold openAfter
    split
    · rename_i fd'
      split_ifs with heq <;> simp [heq]
    · rename_i fd'
      split_ifs with heq <;> simp [heq]
    · rename_i haccept hclose
      constructor
      · rintro (rfl | ⟨h, -⟩)
        · exact absurd rfl (haccept fd)
        · exact h
      · intro h
        exact Or.inr ⟨h, hclose fd⟩

instance (fd : Fd) (t : List Event) : Decidable (Open fd t) :=
  decidable_of_iff _ (open_iff_foldl fd t).symm

/-- A call that neither opens nor closes a descriptor. -/
def Neutral (e : Event) : Prop := ∀ fd, e ≠ .accept (.ok fd) ∧ e ≠ .close fd

theorem Neutral.open_iff {e : Event} (he : Neutral e) {fd : Fd} {t : List Event} :
    Open fd (t ++ [e]) ↔ Open fd t := by
  rw [open_concat]
  constructor
  · rintro (h | ⟨h, -⟩)
    · exact absurd h (he fd).1
    · exact h
  · intro h
    exact Or.inr ⟨h, (he fd).2⟩

/-- Every call is made on an open descriptor; the server socket is closed once, at the end. -/
def Disciplined (server : Fd) (trace : List Event) : Prop :=
  ∀ pre e post, trace = pre ++ e :: post → ∀ fd, calledOn e = some fd →
    Open fd pre ∨ (fd = server ∧ e = .close server ∧ Event.close server ∉ pre)

theorem disciplined_nil (server : Fd) : Disciplined server [] := by
  intro pre e post h
  simp at h

theorem Disciplined.concat {server : Fd} {t : List Event} {e : Event} (h : Disciplined server t)
    (he : ∀ fd, calledOn e = some fd →
      Open fd t ∨ (fd = server ∧ e = .close server ∧ Event.close server ∉ t)) :
    Disciplined server (t ++ [e]) := by
  intro pre e' post hsplit fd hfd
  rcases Machine.concat_eq_split.mp hsplit with ⟨-, rfl, rfl⟩ | ⟨post', -, ht⟩
  · exact he fd hfd
  · exact h pre e' post' ht fd hfd

/-- A call on a descriptor after its close is made on a descriptor that was accepted again. -/
theorem Disciplined.accepted_between {server : Fd} {t pre mid post : List Event} {fd : Fd} {e : Event}
    (h : Disciplined server t) (hsplit : t = pre ++ .close fd :: mid ++ e :: post)
    (hfd : calledOn e = some fd) : Event.accept (.ok fd) ∈ mid := by
  rcases h _ e post hsplit fd hfd with ⟨a, b, hab, hb⟩ | ⟨rfl, -, hnot⟩
  · -- the acceptance that keeps it open stands behind the close
    rcases List.append_eq_append_iff.mp hab with ⟨c, rfl, hc⟩ | ⟨c, rfl, hc⟩
    · cases c with
      | nil => simp at hc
      | cons x c =>
        rw [List.cons_append, List.cons.injEq] at hc
        rw [hc.2]
        simp
    · cases c with
      | nil => simp at hc
      | cons x c =>
        rw [List.cons_append, List.cons.injEq] at hc
        rw [hc.2] at hb
        simp at hb
  · simp at hnot

/-! ### Who holds which descriptor -/

/-- While serving: the sockets are the server socket and the connections `conns`, and open are these
    and the descriptor at hand, which is in no list yet. -/
structure Serving (server : Fd) (conns : List Fd) (hand : Option Fd) (p : Process) : Prop where
  sockets : p.sockets = server :: conns
  nodup : (server :: conns).Nodup
  opened : ∀ fd, Open fd p.trace ↔ fd ∈ conns ∨ hand = some fd
  hand : ∀ fd, hand = some fd → fd ∉ server :: conns
  server : Event.close server ∉ p.trace

/-- The descriptor at hand: accepted, and not yet in the list or closed. -/
def Pc.hand : Pc → Option Fd
  | .accepted fd => some fd
  | .rejecting fd => some fd
  | _ => none

/-- The position of the iterator, which never points at the server socket. -/
def Pc.position : Pc → ℕ
  | .visitHead i => i
  | .receiving i _ => i
  | .answering i _ => i
  | .sending i _ => i
  | .closing i => i
  | _ => 1

/-- The program points of the serving loop. -/
def Pc.serving : Pc → Bool
  | .stopping _ => false
  | .stopped => false
  | .exited => false
  | _ => true

/-- What is open at a program point; after the serving loop, the sockets still to be closed. -/
def Held (server : Fd) (p : Process) (pc : Pc) : Prop :=
  (pc.serving = true → 1 ≤ pc.position ∧ ∃ conns, Serving server conns pc.hand p) ∧
  (∀ rest, pc = .stopping rest → rest.Nodup ∧
    (∀ fd, Open fd p.trace ↔ fd ∈ rest ∧ fd ≠ server) ∧
    (server ∈ rest → Event.close server ∉ p.trace)) ∧
  (pc = .stopped → ∀ fd, ¬ Open fd p.trace)

/-- The invariant of the main thread. -/
structure Owned (server : Fd) (p : Process) : Prop where
  calls : Disciplined server p.trace
  held : Held server p p.pc

section
variable {server fd : Fd} {conns : List Fd} {hand : Option Fd} {p q : Process} {e : Event} {pc : Pc}

/-- The connection at a position of the iterator is open. -/
theorem Serving.open_of_get (h : Serving server conns hand p) {i : ℕ} (hi : 1 ≤ i)
    (hfd : p.sockets[i]? = some fd) : fd ∈ conns ∧ Open fd p.trace := by
  obtain ⟨j, rfl⟩ := Nat.exists_eq_add_of_le' hi
  rw [h.sockets, List.getElem?_cons_succ] at hfd
  have hmem := List.mem_of_getElem? hfd
  exact ⟨hmem, (h.opened fd).mpr (Or.inl hmem)⟩

/-- A neutral call. -/
theorem Serving.neutral (h : Serving server conns hand p) (hs : q.sockets = p.sockets)
    (ht : q.trace = p.trace) (he : Neutral e) : Serving server conns hand (q.next e pc) := by
  refine ⟨by rw [next_sockets, hs, h.sockets], h.nodup, ?_, h.hand, ?_⟩
  · intro fd
    rw [next_trace, ht, he.open_iff, h.opened]
  · rw [next_trace, ht, List.mem_append, List.mem_singleton, not_or]
    exact ⟨h.server, fun heq => (he server).2 heq.symm⟩

/-- A new connection is at hand. -/
theorem Serving.accept (h : Serving server conns none p) (hnew : ¬ Open fd p.trace)
    (hserver : fd ≠ server) : Serving server conns (some fd) (p.next (.accept (.ok fd)) pc) := by
  refine ⟨h.sockets, h.nodup, ?_, ?_, ?_⟩
  · intro fd'
    rw [next_trace, open_concat, h.opened]
    simp [or_comm]
  · rintro _ ⟨⟩ hmem
    rcases List.mem_cons.mp hmem with heq | hconn
    · exact hserver heq
    · exact hnew ((h.opened fd).mpr (Or.inl hconn))
  · rw [next_trace, List.mem_append, not_or]
    exact ⟨h.server, by simp⟩

/-- The connection at hand joins the list. -/
theorem Serving.push (h : Serving server conns (some fd) p) (he : Neutral e) :
    Serving server (conns ++ [fd]) none
      ({ p with sockets := p.sockets ++ [fd] }.next e pc) := by
  have hnext : Serving server conns (some fd) (p.next e pc) := h.neutral rfl rfl he
  have hnew := h.hand fd rfl
  refine ⟨?_, ?_, ?_, by simp, hnext.server⟩
  · rw [next_sockets, h.sockets, List.cons_append]
  · rw [← List.cons_append, List.nodup_append]
    refine ⟨h.nodup, by simp, ?_⟩
    intro a ha b hb
    rw [List.mem_singleton.mp hb]
    rintro rfl
    exact hnew ha
  · intro fd'
    have hopen := hnext.opened fd'
    rw [next_trace] at hopen ⊢
    rw [hopen, List.mem_append, List.mem_singleton]
    simp [eq_comm]

/-- The connection at hand is closed. -/
theorem Serving.reject (h : Serving server conns (some fd) p) :
    Serving server conns none (p.next (.close fd) pc) := by
  have hnew := h.hand fd rfl
  rw [List.mem_cons, not_or] at hnew
  refine ⟨h.sockets, h.nodup, ?_, by simp, ?_⟩
  · intro fd'
    rw [next_trace, open_concat, h.opened]
    constructor
    · rintro (hacc | ⟨hconn | heq, hne⟩)
      · exact absurd hacc (by simp)
      · exact Or.inl hconn
      · exact absurd (by rw [Option.some.inj heq]) hne
    · rintro (hconn | hnone)
      · refine Or.inr ⟨Or.inl hconn, ?_⟩
        intro heq
        obtain rfl := Event.close.inj heq
        exact hnew.2 hconn
      · exact absurd hnone (by simp)
  · rw [next_trace, List.mem_append, List.mem_singleton, not_or]
    exact ⟨h.server, fun heq => hnew.1 (Event.close.inj heq).symm⟩

/-- A connection of the list is closed and erased. -/
theorem Serving.erase (h : Serving server conns none p) {i : ℕ} (hi : 1 ≤ i)
    (hfd : p.sockets[i]? = some fd) : Serving server (conns.eraseIdx (i - 1)) none
      ({ p with sockets := p.sockets.eraseIdx i }.next (.close fd) pc) := by
  have hmem := (h.open_of_get hi hfd).1
  have hconns := (List.nodup_cons.mp h.nodup).2
  have hserver := (List.nodup_cons.mp h.nodup).1
  obtain ⟨j, rfl⟩ := Nat.exists_eq_add_of_le' hi
  rw [h.sockets, List.getElem?_cons_succ] at hfd
  have herase : conns.eraseIdx j = conns.erase fd := by
    obtain ⟨hj, rfl⟩ := List.getElem?_eq_some_iff.mp hfd
    exact (hconns.erase_getElem j hj).symm
  rw [Nat.add_sub_cancel, herase]
  refine ⟨?_, ?_, ?_, by simp, ?_⟩
  · rw [next_sockets, h.sockets, List.eraseIdx_cons_succ, herase]
  · rw [List.nodup_cons]
    exact ⟨fun hin => hserver (List.mem_of_mem_erase hin), hconns.erase fd⟩
  · intro fd'
    rw [next_trace, open_concat, h.opened, hconns.mem_erase_iff]
    simp [and_comm, eq_comm]
  · rw [next_trace, List.mem_append, List.mem_singleton, not_or]
    refine ⟨h.server, ?_⟩
    intro heq
    rw [Event.close.inj heq] at hserver
    exact hserver hmem

end

/-! ### Runs -/

/-- `accept` returns a descriptor that is not open. -/
def Fresh (p : Process) : Action → Prop
  | .accept (.ok fd) => ¬ Open fd p.trace ∧ p.sockets.head? ≠ some fd
  | _ => True

instance (p : Process) : ∀ a, Decidable (Fresh p a)
  | .accept (.ok _) => inferInstanceAs (Decidable (_ ∧ _))
  | .accept (.error _) | .callback _ _ | .getValid | .fcntl _ | .recv _ | .createResponse _
  | .send _ | .close | .poll _ => isTrue trivial

section
variable {md5 : List UInt8 → Digest} {server : Fd} {p p' q : Process} {e : Event} {pc : Pc}

theorem held_serving {conns : List Fd} (hto : pc.serving = true) (hi : 1 ≤ pc.position)
    (h : Serving server conns pc.hand q) : Held server q pc := by
  refine ⟨fun _ => ⟨hi, conns, h⟩, ?_, ?_⟩
  · rintro rest rfl
    exact absurd hto (by simp [Pc.serving])
  · rintro rfl
    exact absurd hto (by simp [Pc.serving])

theorem held_exited (server : Fd) (q : Process) : Held server q .exited :=
  ⟨by simp [Pc.serving], by simp, by simp⟩

/-- The connection at the iterator is open. -/
theorem Owned.open_at (h : Owned server p) (hfrom : p.pc.serving = true) {fd : Fd}
    (hfd : p.sockets[p.pc.position]? = some fd) : Open fd p.trace := by
  obtain ⟨hi, conns, hserving⟩ := h.held.1 hfrom
  exact (hserving.open_of_get hi hfd).2

/-- The descriptor at hand is open. -/
theorem Owned.open_hand (h : Owned server p) (hfrom : p.pc.serving = true) {fd : Fd}
    (hfd : p.pc.hand = some fd) : Open fd p.trace := by
  obtain ⟨-, conns, hserving⟩ := h.held.1 hfrom
  exact (hserving.opened fd).mpr (Or.inr hfd)

/-- A step of the serving loop that is made on an open descriptor or on none. -/
theorem Owned.next (h : Owned server p) (ht : q.trace = p.trace)
    (he : ∀ fd, calledOn e = some fd → Open fd p.trace)
    (hheld : Held server (q.next e pc) pc) : Owned server (q.next e pc) := by
  refine ⟨?_, hheld⟩
  rw [next_trace, ht]
  exact h.calls.concat (fun fd hfd => Or.inl (he fd hfd))

/-- A neutral step inside the serving loop, or out of the process. -/
theorem Owned.neutral (h : Owned server p) (hfrom : p.pc.serving = true)
    (hto : pc.serving = true ∨ pc = .exited) (hhand : pc.hand = p.pc.hand)
    (hpos : 1 ≤ p.pc.position → 1 ≤ pc.position) (hs : q.sockets = p.sockets)
    (ht : q.trace = p.trace) (he : Neutral e) (hcall : ∀ fd, calledOn e = some fd → Open fd p.trace) :
    Owned server (q.next e pc) := by
  refine h.next ht hcall ?_
  rcases hto with hto | rfl
  · obtain ⟨hi, conns, hserving⟩ := h.held.1 hfrom
    rw [← hhand] at hserving
    exact held_serving hto (hpos hi) (hserving.neutral hs ht he)
  · exact held_exited _ _

theorem serving_judge (i n : ℕ) (recvResult : ℤ) (errno : Errno) :
    (judge i n recvResult errno).serving = true ∧ (judge i n recvResult errno).hand = none ∧
      i ≤ (judge i n recvResult errno).position := by
  rw [judge]
  split_ifs
  · exact ⟨rfl, rfl, le_refl i⟩
  · exact ⟨rfl, rfl, le_refl i⟩
  · exact ⟨rfl, rfl, Nat.le_succ i⟩
  · exact ⟨rfl, rfl, le_refl i⟩

theorem serving_afterRecv (i n : ℕ) (recvResult : ℤ) (errno : Errno) :
    (afterRecv i n recvResult errno).serving = true ∧
      (afterRecv i n recvResult errno).hand = none ∧
      i ≤ (afterRecv i n recvResult errno).position := by
  rw [afterRecv]
  split_ifs
  · exact ⟨rfl, rfl, le_refl i⟩
  · exact serving_judge ..

/-- A call on the connection that is being visited. -/
theorem Owned.onVisited {i : ℕ} {fd : Fd} (h : Owned server p) (hfrom : p.pc.serving = true)
    (hpos : p.pc.position = i) (hfd : p.sockets[i]? = some fd) (hhand : p.pc.hand = none)
    (hto : pc.serving = true ∧ pc.hand = none ∧ i ≤ pc.position) (hs : q.sockets = p.sockets)
    (ht : q.trace = p.trace) (he : Neutral e) (hcall : calledOn e = some fd) :
    Owned server (q.next e pc) := by
  obtain ⟨hserving, hnone, hle⟩ := hto
  subst hpos
  refine h.neutral hfrom (Or.inl hserving) (by rw [hnone, hhand]) (fun hi => le_trans hi hle) hs ht
    he ?_
  intro fd' hfd'
  obtain rfl := Option.some.inj (hcall.symm.trans hfd')
  exact h.open_at hfrom hfd

/-! One lemma for each kind of step that opens, moves or closes a descriptor. -/

theorem owned_accept {fd : Fd} (h : Owned server p) (hpc : p.pc = .accepting)
    (hfresh : Fresh p (.accept (.ok fd))) (hto : pc.serving = true) (hhand : pc.hand = some fd)
    (hi : 1 ≤ pc.position) : Owned server (p.next (.accept (.ok fd)) pc) := by
  obtain ⟨-, conns, hserving⟩ := h.held.1 (by rw [hpc]; rfl)
  rw [hpc] at hserving
  obtain ⟨hnew, hhead⟩ := hfresh
  rw [hserving.sockets] at hhead
  refine h.next rfl (by simp [calledOn]) (held_serving hto hi (hhand ▸ hserving.accept hnew ?_))
  rintro rfl
  exact hhead rfl

theorem owned_fcntlOk {fd : Fd} (h : Owned server p) (hpc : p.pc = .accepted fd) :
    Owned server
      ({ p with sockets := p.sockets ++ [fd] }.next (.fcntl fd (.ok ())) .accepting) := by
  have hfrom : p.pc.serving = true := by rw [hpc]; rfl
  obtain ⟨-, conns, hserving⟩ := h.held.1 hfrom
  rw [hpc] at hserving
  refine h.next rfl ?_ (held_serving rfl (le_refl 1) (hserving.push (fun _ => ⟨by simp, by simp⟩)))
  intro fd' hfd
  exact h.open_hand hfrom (by rw [hpc]; exact hfd)

theorem owned_reject {fd : Fd} (h : Owned server p) (hpc : p.pc = .rejecting fd) :
    Owned server (p.next (.close fd) .accepting) := by
  have hfrom : p.pc.serving = true := by rw [hpc]; rfl
  obtain ⟨-, conns, hserving⟩ := h.held.1 hfrom
  rw [hpc] at hserving
  refine h.next rfl ?_ (held_serving rfl (le_refl 1) hserving.reject)
  intro fd' hfd
  exact h.open_hand hfrom (by rw [hpc]; exact hfd)

theorem owned_closeOne {i : ℕ} {fd : Fd} (h : Owned server p) (hpc : p.pc = .closing i)
    (hfd : p.sockets[i]? = some fd) : Owned server
      ({ p with sockets := p.sockets.eraseIdx i }.next (.close fd) (.visitHead i)) := by
  have hfrom : p.pc.serving = true := by rw [hpc]; rfl
  obtain ⟨hi, conns, hserving⟩ := h.held.1 hfrom
  rw [hpc] at hi hserving
  refine h.next rfl ?_ (held_serving rfl hi (hserving.erase hi hfd))
  rintro _ ⟨⟩
  exact h.open_at hfrom (by rw [hpc]; exact hfd)

/-- After the serving loop. -/
theorem held_stop {rest : List Fd} (hnodup : rest.Nodup)
    (hopen : ∀ fd, Open fd q.trace ↔ fd ∈ rest ∧ fd ≠ server)
    (hserver : server ∈ rest → Event.close server ∉ q.trace) :
    Held server (q.stop rest) (q.stop rest).pc := by
  rw [Held, stop_trace]
  cases rest with
  | nil =>
    refine ⟨by simp [Process.stop, Pc.serving], by simp [Process.stop], fun _ fd hfd => ?_⟩
    exact List.not_mem_nil ((hopen fd).mp hfd).1
  | cons fd rest =>
    refine ⟨by simp [Process.stop, Pc.serving], ?_, by simp [Process.stop]⟩
    intro rest' heq
    obtain rfl := Pc.stopping.inj heq
    exact ⟨hnodup, hopen, hserver⟩

theorem owned_leave (h : Owned server p) (hpc : p.pc = .loopHead) :
    Owned server ((p.next (.getValid false) .loopHead).stop p.sockets) := by
  obtain ⟨-, conns, hserving⟩ := h.held.1 (by rw [hpc]; rfl)
  rw [hpc] at hserving
  have hnext : Serving server conns none (p.next (.getValid false) .loopHead) :=
    hserving.neutral rfl rfl (fun _ => ⟨by simp, by simp⟩)
  refine ⟨?_, held_stop ?_ ?_ (fun _ => hnext.server)⟩
  · rw [stop_trace, next_trace]
    exact h.calls.concat (fun fd hfd => absurd hfd (by simp [calledOn]))
  · rw [hserving.sockets]
    exact hserving.nodup
  · intro fd
    rw [hnext.opened, hserving.sockets, List.mem_cons]
    have hnot := (List.nodup_cons.mp hserving.nodup).1
    constructor
    · rintro (hconn | hnone)
      · exact ⟨Or.inr hconn, fun heq => hnot (heq ▸ hconn)⟩
      · exact absurd hnone (by simp)
    · rintro ⟨heq | hconn, hne⟩
      · exact absurd heq hne
      · exact Or.inl hconn

theorem owned_stopOne {fd : Fd} {rest : List Fd} (h : Owned server p)
    (hpc : p.pc = .stopping (fd :: rest)) :
    Owned server ((p.next (.close fd) .loopHead).stop rest) := by
  obtain ⟨hnodup, hopen, hserver⟩ := h.held.2.1 _ hpc
  obtain ⟨hnot, hrest⟩ := List.nodup_cons.mp hnodup
  refine ⟨?_, held_stop hrest ?_ ?_⟩
  · rw [stop_trace, next_trace]
    refine h.calls.concat (fun fd' hfd => ?_)
    obtain rfl := Option.some.inj hfd
    rcases eq_or_ne fd server with rfl | hne
    · exact Or.inr ⟨rfl, rfl, hserver List.mem_cons_self⟩
    · exact Or.inl ((hopen fd).mpr ⟨List.mem_cons_self, hne⟩)
  · intro fd'
    rw [next_trace, open_concat, hopen, List.mem_cons]
    constructor
    · rintro (hacc | ⟨⟨rfl | hmem, hne⟩, hclose⟩)
      · exact absurd hacc (by simp)
      · exact absurd rfl hclose
      · exact ⟨hmem, hne⟩
    · rintro ⟨hmem, hne⟩
      refine Or.inr ⟨⟨Or.inr hmem, hne⟩, ?_⟩
      intro heq
      obtain rfl := Event.close.inj heq
      exact hnot hmem
  · intro hmem
    rw [next_trace, List.mem_append, List.mem_singleton, not_or]
    refine ⟨hserver (List.mem_cons_of_mem _ hmem), ?_⟩
    intro heq
    obtain rfl := Event.close.inj heq
    exact hnot hmem

/-- Every step keeps the invariant, if `accept` returns fresh descriptors. -/
theorem owned_step (p : Process) (a : Action) (p' : Process) (h : Owned server p) (hfresh : Fresh p a)
    (hstep : step md5 p a = some p') : Owned server p' := by
  cases step_cases hstep with
  | callback time tsc =>
    refine ⟨h.calls, fun hfrom => ?_, h.held.2⟩
    obtain ⟨hi, conns, hserving⟩ := h.held.1 hfrom
    exact ⟨hi, conns, hserving.sockets, hserving.nodup, hserving.opened, hserving.hand,
      hserving.server⟩
  | leave hpc => exact owned_leave h hpc
  | acceptFull hpc => exact owned_accept h hpc hfresh rfl rfl (le_refl 1)
  | acceptOk hpc => exact owned_accept h hpc hfresh rfl rfl (le_refl 1)
  | fcntlOk hpc => exact owned_fcntlOk h hpc
  | reject hpc => exact owned_reject h hpc
  | closeOne hpc hfd => exact owned_closeOne h hpc hfd
  | stopOne hpc => exact owned_stopOne h hpc
  | serve hpc | visit hpc | leaveVisits hpc | acceptNone hpc | acceptAborted hpc | pollOk hpc =>
    exact h.neutral (by rw [hpc]; rfl) (Or.inl rfl) (by simp [hpc, Pc.hand])
      (by simp [hpc, Pc.position]) rfl rfl (fun _ => ⟨by simp, by simp⟩) (by simp [calledOn])
  | missing hpc | acceptFatal hpc | pollError hpc =>
    exact h.neutral (by rw [hpc]; rfl) (Or.inr rfl) (by rw [hpc]; rfl) (fun _ => le_refl 1) rfl rfl
      (fun _ => ⟨by simp, by simp⟩) (by simp [calledOn])
  | fcntlError hpc =>
    have hfrom : p.pc.serving = true := by rw [hpc]; rfl
    refine h.neutral hfrom (Or.inl rfl) (by rw [hpc]; rfl) (fun _ => le_refl 1) rfl rfl
      (fun _ => ⟨by simp, by simp⟩) ?_
    intro fd hfd
    exact h.open_hand hfrom (by rw [hpc]; exact hfd)
  | recvError hpc hfd =>
    exact h.onVisited (by rw [hpc]; rfl) (by rw [hpc]; rfl) hfd (by rw [hpc]; rfl)
      (serving_judge ..) rfl rfl (fun _ => ⟨by simp, by simp⟩) rfl
  | recvOk hpc hfd =>
    exact h.onVisited (by rw [hpc]; rfl) (by rw [hpc]; rfl) hfd (by rw [hpc]; rfl)
      (serving_afterRecv ..) rfl rfl (fun _ => ⟨by simp, by simp⟩) rfl
  | respond hpc =>
    split_ifs <;>
      exact h.neutral (by rw [hpc]; rfl) (Or.inl rfl) (by rw [hpc]; rfl) (by rw [hpc]; exact id)
        rfl rfl (fun _ => ⟨by simp, by simp⟩) (by simp [calledOn])
  | sendError hpc hfd =>
    exact h.onVisited (by rw [hpc]; rfl) (by rw [hpc]; rfl) hfd (by rw [hpc]; rfl)
      ⟨rfl, rfl, le_refl _⟩ rfl rfl (fun _ => ⟨by simp, by simp⟩) rfl
  | sendOk hpc hfd =>
    refine h.onVisited (by rw [hpc]; rfl) (by rw [hpc]; rfl) hfd (by rw [hpc]; rfl) ?_ rfl rfl
      (fun _ => ⟨by simp, by simp⟩) rfl
    split_ifs
    · exact ⟨rfl, rfl, Nat.le_succ _⟩
    · exact ⟨rfl, rfl, le_refl _⟩

end

/-- A successful setup leaves the listening socket in the list and frees the addresses. -/
theorem setupServer_ok {calls : SetupCalls} {sockets : List Fd} {events : List SetupEvent}
    (h : setupServer calls = (true, sockets, events)) :
    ∃ server, sockets = [server] ∧ events = [.socket server, .freeaddrinfo] := by
  rw [setupServer] at h
  cases hsocket : calls.socket with
  | none =>
    rw [hsocket] at h
    split_ifs at h <;> simp at h
  | some server =>
    simp only [hsocket] at h
    split_ifs at h <;> simp only [Prod.mk.injEq, Bool.false_eq_true, false_and] at h
    exact ⟨server, h.2.1.symm, h.2.2.symm⟩

/-- The invariant holds when `start` is entered. -/
theorem owned_init (server : Fd) (timer : MonotonicTimer.Timer) (maxConnections : Int32)
    (recvBuffer sendBuffer : Memory) (errno : Errno) :
    Owned server (Process.init timer maxConnections [server] recvBuffer sendBuffer errno) := by
  have hserving : Serving server [] none
      (Process.init timer maxConnections [server] recvBuffer sendBuffer errno) := by
    refine ⟨rfl, by simp, ?_, by simp, by simp [Process.init]⟩
    intro fd
    simp [Process.init, not_open_nil]
  exact ⟨disciplined_nil server, held_serving rfl (le_refl 1) hserving⟩

/-- CORRECT: connection descriptors are neither leaked nor closed twice. At every loop head of `start`
    the first socket is the listening one, no descriptor occurs twice, and the others are exactly the
    accepted descriptors that have not been closed; and between a close and any later close, receive
    or send on the same descriptor, `accept` has returned it again. -/
theorem descriptors_accounted_for (md5 : List UInt8 → Digest) (calls : SetupCalls)
    (sockets : List Fd) (events : List SetupEvent) (timer : MonotonicTimer.Timer)
    (maxConnections : Int32) (recvBuffer sendBuffer : Memory) (errno : Errno)
    (actions : List Action) (p : Process) (hsetup : setupServer calls = (true, sockets, events))
    (hfresh : Machine.Along (step md5) Fresh
      (Process.init timer maxConnections sockets recvBuffer sendBuffer errno) actions)
    (hrun : Machine.run (step md5)
      (Process.init timer maxConnections sockets recvBuffer sendBuffer errno) actions = some p) :
    ∃ server, sockets = [server] ∧ events = [.socket server, .freeaddrinfo] ∧
      (p.pc = .loopHead → p.sockets.head? = some server ∧ p.sockets.Nodup ∧
        ∀ fd, fd ∈ p.sockets.tail ↔ Open fd p.trace) ∧
      (∀ (pre mid post : List Event) (fd : Fd),
        p.trace = pre ++ .close fd :: mid ++ .close fd :: post → .accept (.ok fd) ∈ mid) ∧
      (∀ (pre mid post : List Event) (fd : Fd) offset len result,
        p.trace = pre ++ .close fd :: mid ++ .recv fd offset len result :: post →
        .accept (.ok fd) ∈ mid) ∧
      (∀ (pre mid post : List Event) (fd : Fd) bytes result,
        p.trace = pre ++ .close fd :: mid ++ .send fd bytes result :: post →
        .accept (.ok fd) ∈ mid) := by
  obtain ⟨server, rfl, hevents⟩ := setupServer_ok hsetup
  have howned : Owned server p :=
    Machine.run_invariant owned_step actions (owned_init ..) hfresh hrun
  refine ⟨server, rfl, hevents, ?_, ?_, ?_, ?_⟩
  · intro hpc
    obtain ⟨-, conns, hserving⟩ := howned.held.1 (by rw [hpc]; rfl)
    rw [hpc] at hserving
    refine ⟨by rw [hserving.sockets]; rfl, by rw [hserving.sockets]; exact hserving.nodup, ?_⟩
    intro fd
    rw [hserving.opened, hserving.sockets]
    simp [Pc.hand]
  · intro pre mid post fd hsplit
    exact howned.calls.accepted_between hsplit rfl
  · intro pre mid post fd offset len result hsplit
    exact howned.calls.accepted_between hsplit rfl
  · intro pre mid post fd bytes result hsplit
    exact howned.calls.accepted_between hsplit rfl

/-- The process after a setup that opened descriptor 3. -/
def sampleInit : Process :=
  Process.init ⟨true, 1 / 10, 500, 0, 5, 7⟩ 2 [3] (fun _ => 0) (fun _ => 0) .eagain

/-- A client is accepted on descriptor 5 and closes; the next client gets the same descriptor. -/
def reuseRun : List Action :=
  [.getValid, .accept (.ok 5), .fcntl (.ok ()), .accept (.error .eagain), .getValid, .recv (.ok []),
   .close, .getValid, .poll (.ok ()), .getValid, .accept (.ok 5), .fcntl (.ok ()),
   .accept (.error .eagain), .getValid, .recv (.error .eagain), .getValid, .poll (.ok ())]

theorem reuseRun_accounted_for : ∃ p, Machine.run (step MD5.md5) sampleInit reuseRun = some p ∧
    p.pc = .loopHead ∧ p.sockets = [3, 5] ∧ p.sockets.Nodup ∧
    ∀ fd, fd ∈ p.sockets.tail ↔ Open fd p.trace := by
  have hrun : (Machine.run (step MD5.md5) sampleInit reuseRun).any
      (fun p => p.pc = .loopHead ∧ p.sockets = [3, 5]) = true := by decide +kernel
  obtain ⟨p, hp, hend⟩ := (Option.any_eq_true _ _).mp hrun
  obtain ⟨hpc, hsockets⟩ := of_decide_eq_true hend
  obtain ⟨server, -, -, hhead, -⟩ := descriptors_accounted_for MD5.md5
    ⟨true, true, some 3, true, true, true, true⟩ [3] _ _ _ _ _ _ reuseRun p rfl
    (by decide +kernel) hp
  exact ⟨p, hp, hpc, hsockets, (hhead hpc).2⟩

/-! ### The limit -/

/-- No more connections than `k`, the one that has been accepted below the limit included. -/
structure Within (k : ℕ) (p : Process) : Prop where
  limit : p.maxConnections.toInt = k
  sockets : p.sockets.length ≤ k + 1
  pending : ∀ fd, p.pc = .accepted fd → p.sockets.length ≤ k

section
variable {md5 : List UInt8 → Digest} {k : ℕ} {p q : Process} {e : Event} {pc : Pc}

/-- A step that accepts nothing and adds nothing. -/
theorem Within.next (h : Within k p) (hmax : q.maxConnections = p.maxConnections)
    (hs : q.sockets.length ≤ p.sockets.length) (hpc : ∀ fd, pc ≠ .accepted fd) :
    Within k (q.next e pc) := by
  refine ⟨by rw [next_maxConnections, hmax, h.limit], le_trans hs h.sockets, ?_⟩
  intro fd hfd
  exact absurd hfd (hpc fd)

theorem Within.stop (h : Within k p) (fds : List Fd) : Within k (p.stop fds) := by
  cases fds with
  | nil => exact ⟨h.limit, Nat.zero_le _, by simp [Process.stop]⟩
  | cons fd fds => exact ⟨h.limit, h.sockets, by simp [Process.stop]⟩

theorem judge_ne_accepted (i n : ℕ) (recvResult : ℤ) (errno : Errno) (fd : Fd) :
    judge i n recvResult errno ≠ .accepted fd := by
  rw [judge]
  split_ifs <;> simp

theorem afterRecv_ne_accepted (i n : ℕ) (recvResult : ℤ) (errno : Errno) (fd : Fd) :
    afterRecv i n recvResult errno ≠ .accepted fd := by
  rw [afterRecv]
  split_ifs with hmore
  · simp
  · exact judge_ne_accepted i n recvResult errno fd

/-- Below a limit that is not negative, the comparison is the intended one. -/
theorem Within.not_full (h : Within k p) (hfull : ¬ p.full) : p.sockets.length ≤ k := by
  rw [Process.full, h.limit] at hfull
  have hlt : (k : ℤ) < 2 ^ 31 := h.limit ▸ p.maxConnections.toInt_lt
  omega

theorem within_step (p : Process) (a : Action) (p' : Process) (h : Within k p) (_ : True)
    (hstep : step md5 p a = some p') : Within k p' := by
  cases step_cases hstep with
  | callback time tsc => exact ⟨h.limit, h.sockets, h.pending⟩
  | acceptOk hpc hfull => exact ⟨h.limit, h.sockets, fun _ _ => h.not_full hfull⟩
  | fcntlOk hpc =>
    refine ⟨h.limit, ?_, by simp⟩
    rw [next_sockets, List.length_append]
    exact Nat.succ_le_succ (h.pending _ hpc)
  | leave | stopOne => exact (h.next rfl (le_refl _) (by simp)).stop _
  | closeOne => exact h.next rfl (List.length_eraseIdx_le _ _) (by simp)
  | recvError => exact h.next rfl (le_refl _) (judge_ne_accepted _ _ _ _)
  | recvOk => exact h.next rfl (le_refl _) (afterRecv_ne_accepted _ _ _ _)
  | respond | sendOk => exact h.next rfl (le_refl _) (by intro fd; split_ifs <;> simp)
  | _ => exact h.next rfl (le_refl _) (by simp)

end

/-- No state that is reached after a successful setup has more connections than configured. -/
def LimitHolds (md5 : List UInt8 → Digest) (maxConnections : Int32) : Prop :=
  ∀ (calls : SetupCalls) (sockets : List Fd) (events : List SetupEvent)
    (timer : MonotonicTimer.Timer) (recvBuffer sendBuffer : Memory) (errno : Errno)
    (actions : List Action) (p : Process), setupServer calls = (true, sockets, events) →
    Machine.run (step md5) (Process.init timer maxConnections sockets recvBuffer sendBuffer errno)
      actions = some p →
    (p.sockets.length : ℤ) - 1 ≤ max 0 maxConnections.toInt

/-- CORRECT: the limit holds in every run exactly when the configured number is not negative. -/
theorem limitHolds_iff (md5 : List UInt8 → Digest) (maxConnections : Int32) :
    LimitHolds md5 maxConnections ↔ 0 ≤ maxConnections.toInt := by
  constructor
  · intro hlimit
    by_contra hneg
    rw [not_le] at hneg
    -- one client is accepted: as an unsigned number the limit is huge
    have hnot : ¬ maxConnections.toInt % 18446744073709551616 ≤ 0 := by
      have := maxConnections.le_toInt
      omega
    have hone := hlimit ⟨true, true, some 3, true, true, true, true⟩ [3] _
      ⟨true, 1 / 10, 500, 0, 5, 7⟩ (fun _ => 0) (fun _ => 0) .eagain
      [.getValid, .accept (.ok 5), .fcntl (.ok ())] _ rfl (by
        simp [Machine.run, step, Process.init, Process.next, Process.full, hnot]
        rfl)
    simp at hone
    omega
  · intro hpos calls sockets events timer recvBuffer sendBuffer errno actions p hsetup hrun
    obtain ⟨server, rfl, -⟩ := setupServer_ok hsetup
    obtain ⟨k, hk⟩ := Int.eq_ofNat_of_zero_le hpos
    have hwithin : Within k p := Machine.run_invariant within_step actions
      ⟨hk, by simp [Process.init], by simp [Process.init]⟩ (Machine.along_of_forall (fun _ _ => trivial) _ _) hrun
    have := hwithin.sockets
    omega

/-- With the limit -1 the first client is let in. -/
theorem limit_negative_exceeded : ¬ LimitHolds MD5.md5 (-1) := by
  intro hlimit
  have hrun : (Machine.run (step MD5.md5)
      (Process.init ⟨true, 1 / 10, 500, 0, 5, 7⟩ (-1) [3] (fun _ => 0) (fun _ => 0) .eagain)
      [.getValid, .accept (.ok 5), .fcntl (.ok ())]).any (fun p => p.sockets = [3, 5]) = true := by
    decide +kernel
  obtain ⟨p, hp, hsockets⟩ := (Option.any_eq_true _ _).mp hrun
  have hone := hlimit ⟨true, true, some 3, true, true, true, true⟩ [3] _ _ _ _ _ _ p rfl hp
  rw [of_decide_eq_true hsockets] at hone
  exact absurd hone (by decide)

end NHA.Threads
