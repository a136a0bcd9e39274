import NativeHardwareAccess.Schemes.Machine
import NativeHardwareAccess.Server.Reply
import NativeHardwareAccess.Server.Responder

/-! One connection as its client sees it.

    Of all the calls of the server, those on one descriptor take the connection through these phases:

        accept ──▶ reading q ──createResponse──▶ replying m ──send, all of m──▶ served
                    │  ↺ recv                       │                             │
                    │                               │ send, less or failed        │ poll
                    ▼ closed, error or -1           ▼                             ▼
                  ended ◀───────────────────────────┘                         reading []

    A sequence of calls that follows the phases is never out of step: what was sent is whole answers
    to what was received, in order, and after a part of an answer there is nothing more. -/

namespace NHA.Session
open Scheme Scheme.MD5 NHA.MessageBuilder
open NHA.Serving (Fd Errno Event)

/-- Where a connection stands. -/
inductive Phase where
  /-- These bytes have been received in this visit. -/
  | reading (q : List UInt8)
  /-- This answer is to be sent. -/
  | replying (m : List UInt8)
  /-- The answer of this round has been sent. -/
  | served
  /-- Closed, or about to be. -/
  | ended

/-- Nothing is under way. -/
def Phase.Rested (ph : Phase) : Prop := ph = .reading [] ∨ ph = .served

/-- A call that is on no connection or on another one, and does not end the round. -/
def Elsewhere (fd : Fd) : Event → Prop
  | .accept (.ok fd') => fd' ≠ fd
  | .recv fd' _ _ _ => fd' ≠ fd
  | .createResponse fd' _ _ _ => fd' ≠ fd
  | .send fd' _ _ => fd' ≠ fd
  | .close fd' => fd' ≠ fd
  | .poll _ => False
  | .getValid _ | .accept (.error _) | .fcntl _ _ => True

/-- The calls that are possible in a phase, and the phase after them. -/
inductive Observed (md5 : List UInt8 → Digest) (fd : Fd) : Phase → Event → Phase → Prop
  | accept (ph : Phase) : Observed md5 fd ph (.accept (.ok fd)) (.reading [])
  | data {q data : List UInt8} {offset len : ℕ} (h : data ≠ []) :
      Observed md5 fd (.reading q) (.recv fd offset len (.ok data)) (.reading (q ++ data))
  | again {q : List UInt8} {offset len : ℕ} {e : Errno} (h : e = .eagain ∨ e = .ewouldblock) :
      Observed md5 fd (.reading q) (.recv fd offset len (.error e)) (.reading q)
  | closed {q : List UInt8} {offset len : ℕ} :
      Observed md5 fd (.reading q) (.recv fd offset len (.ok [])) .ended
  | broken {q : List UInt8} {offset len : ℕ} {e : Errno} (h : e ≠ .eagain ∧ e ≠ .ewouldblock) :
      Observed md5 fd (.reading q) (.recv fd offset len (.error e)) .ended
  | refuse {env : Readings} {q : List UInt8} (h : reply md5 env q = none) :
      Observed md5 fd (.reading q) (.createResponse fd env q (-1)) .ended
  | answer {env : Readings} {q m : List UInt8} (h : reply md5 env q = some m) :
      Observed md5 fd (.reading q) (.createResponse fd env q m.length) (.replying m)
  | whole {m : List UInt8} : Observed md5 fd (.replying m) (.send fd m (.ok m.length)) .served
  | cut {m : List UInt8} {n : ℕ} (hn : n ≠ m.length) :
      Observed md5 fd (.replying m) (.send fd m (.ok n)) .ended
  | failed {m : List UInt8} {e : Errno} :
      Observed md5 fd (.replying m) (.send fd m (.error e)) .ended
  | close (ph : Phase) : Observed md5 fd ph (.close fd) .ended
  | round {ph : Phase} {result : Except Errno Unit} (h : ph.Rested) :
      Observed md5 fd ph (.poll result) (.reading [])
  | gone {result : Except Errno Unit} : Observed md5 fd .ended (.poll result) .ended
  | other {ph : Phase} {e : Event} (h : Elsewhere fd e) : Observed md5 fd ph e ph

/-! ### What a client can see -/

/-- The bytes a call receives on the connection. -/
def receivedBy (fd : Fd) : Event → List UInt8
  | .recv fd' _ _ (.ok data) => if fd' = fd then data else []
  | _ => []

/-- The bytes that are accepted for sending on the connection. -/
def sentBy (fd : Fd) : Event → List UInt8
  | .send fd' bytes (.ok n) => if fd' = fd then bytes.take n else []
  | _ => []

/-- A call of `createResponse` for the connection: the readings and the bytes it is called with. -/
def callBy (fd : Fd) : Event → Option (Readings × List UInt8)
  | .createResponse fd' env query _ => if fd' = fd then some (env, query) else none
  | _ => none

def receivedOn (fd : Fd) (life : List Event) : List UInt8 := life.flatMap (receivedBy fd)

def sentOn (fd : Fd) (life : List Event) : List UInt8 := life.flatMap (sentBy fd)

def callsOn (fd : Fd) (life : List Event) : List (Readings × List UInt8) :=
  life.filterMap (callBy fd)

/-- The received bytes that `createResponse` has been called with. -/
def queriesOn (fd : Fd) (life : List Event) : List UInt8 := ((callsOn fd life).map Prod.snd).flatten

/-- These are the full outputs of these calls. -/
def Outputs (md5 : List UInt8 → Digest) (calls : List (Readings × List UInt8))
    (ms : List (List UInt8)) : Prop :=
  List.Forall₂ (fun c m => reply md5 c.1 c.2 = some m) calls ms

/-- The outputs of the first calls, and then at most a proper prefix of the output of the next. -/
def Whole (md5 : List UInt8 → Digest) (calls : List (Readings × List UInt8)) (sent : List UInt8) :
    Prop :=
  ∃ ms part, sent = ms.flatten ++ part ∧ Outputs md5 (calls.take ms.length) ms ∧
    (part = [] ∨ ∃ c m, calls[ms.length]? = some c ∧ reply md5 c.1 c.2 = some m ∧
      part <+: m ∧ part ≠ m)

/-- A call after which nothing may be sent: the query was refused, or the answer was not sent whole. -/
def Fatal (fd : Fd) (e : Event) : Prop :=
  (∃ env query, e = .createResponse fd env query (-1)) ∨
  (∃ bytes errno, e = .send fd bytes (.error errno)) ∨
  (∃ bytes n, e = .send fd bytes (.ok n) ∧ n ≠ bytes.length)

/-- The stream to a client is in step with the stream from it. -/
structure InStep (md5 : List UInt8 → Digest) (fd : Fd) (life : List Event) : Prop where
  /-- Sent are whole outputs, in the order of the calls, and at most a part of one more. -/
  sent : Whole md5 (callsOn fd life) (sentOn fd life)
  /-- Every call is on what was received on this connection since the call before. -/
  received : ∀ (pre post : List Event) env query size,
    life = pre ++ .createResponse fd env query size :: post →
    receivedOn fd pre = queriesOn fd pre ++ query
  /-- At most one answer is sent in a round. -/
  once : ∀ (pre mid post : List Event) bytes result bytes' result',
    life = pre ++ .send fd bytes result :: mid ++ .send fd bytes' result' :: post →
    ∃ polled, .poll polled ∈ mid
  /-- Nothing is sent after a refused query or a part of an answer. -/
  silent : ∀ (pre : List Event) e post, life = pre ++ e :: post → Fatal fd e →
    ∀ bytes result, .send fd bytes result ∉ post

/-! ### The ledger of a connection -/

section
variable {md5 : List UInt8 → Digest} {fd : Fd} {t : List Event} {e : Event}

theorem receivedOn_concat : receivedOn fd (t ++ [e]) = receivedOn fd t ++ receivedBy fd e := by
  simp [receivedOn]

theorem sentOn_concat : sentOn fd (t ++ [e]) = sentOn fd t ++ sentBy fd e := by
  simp [sentOn]

theorem callsOn_concat : callsOn fd (t ++ [e]) = callsOn fd t ++ (callBy fd e).toList := by
  cases h : callBy fd e <;> simp [callsOn, h]

theorem queriesOn_concat :
    queriesOn fd (t ++ [e]) = queriesOn fd t ++ ((callBy fd e).map Prod.snd).getD [] := by
  rw [queriesOn, callsOn_concat]
  cases callBy fd e <;> simp [queriesOn]

/-- Every call so far has been answered in full. -/
def AllSent (md5 : List UInt8 → Digest) (fd : Fd) (t : List Event) : Prop :=
  ∃ ms, Outputs md5 (callsOn fd t) ms ∧ sentOn fd t = ms.flatten

/-- What has been received and sent when the connection is in a phase. -/
def Accounted (md5 : List UInt8 → Digest) (fd : Fd) (t : List Event) : Phase → Prop
  | .reading q => receivedOn fd t = queriesOn fd t ++ q ∧ AllSent md5 fd t
  | .replying m => receivedOn fd t = queriesOn fd t ∧ ∃ cs c ms, callsOn fd t = cs ++ [c] ∧
      Outputs md5 cs ms ∧ reply md5 c.1 c.2 = some m ∧ sentOn fd t = ms.flatten
  | .served => receivedOn fd t = queriesOn fd t ∧ AllSent md5 fd t
  | .ended => Whole md5 (callsOn fd t) (sentOn fd t)

/-- A call that neither receives nor sends and is not one of `createResponse`. -/
def Quiet (fd : Fd) (e : Event) : Prop :=
  receivedBy fd e = [] ∧ sentBy fd e = [] ∧ callBy fd e = none

theorem Quiet.on (h : Quiet fd e) (t : List Event) : receivedOn fd (t ++ [e]) = receivedOn fd t ∧
    sentOn fd (t ++ [e]) = sentOn fd t ∧ callsOn fd (t ++ [e]) = callsOn fd t := by
  obtain ⟨hreceived, hsent, hcall⟩ := h
  rw [receivedOn_concat, sentOn_concat, callsOn_concat, hreceived, hsent, hcall]
  simp

/-- Such a call changes nothing. -/
theorem Quiet.accounted (h : Quiet fd e) (ph : Phase) :
    Accounted md5 fd (t ++ [e]) ph ↔ Accounted md5 fd t ph := by
  obtain ⟨hreceived, hsent, hcalls⟩ := h.on t
  cases ph <;> simp only [Accounted, AllSent, queriesOn, hreceived, hsent, hcalls]

theorem quiet_elsewhere (h : Elsewhere fd e) : Quiet fd e := by
  cases e with
  | recv fd' offset len result =>
    rw [Elsewhere] at h
    cases result <;> simp [Quiet, receivedBy, sentBy, callBy, h]
  | createResponse fd' env query size =>
    rw [Elsewhere] at h
    simp [Quiet, receivedBy, sentBy, callBy, h]
  | send fd' bytes result =>
    rw [Elsewhere] at h
    cases result <;> simp [Quiet, receivedBy, sentBy, callBy, h]
  | _ => exact ⟨rfl, rfl, rfl⟩

theorem AllSent.whole (h : AllSent md5 fd t) : Whole md5 (callsOn fd t) (sentOn fd t) := by
  obtain ⟨ms, houtputs, hsent⟩ := h
  refine ⟨ms, [], by rw [hsent, List.append_nil], ?_, Or.inl rfl⟩
  rwa [List.take_of_length_le (List.Forall₂.length_eq houtputs).le]

theorem Outputs.concat {cs : List (Readings × List UInt8)} {c : Readings × List UInt8}
    {ms : List (List UInt8)} {m : List UInt8} (h : Outputs md5 cs ms)
    (hreply : reply md5 c.1 c.2 = some m) : Outputs md5 (cs ++ [c]) (ms ++ [m]) :=
  List.rel_append h (.cons hreply .nil)

/-- While an answer is to be sent, the others have been sent whole. -/
theorem whole_of_part {cs : List (Readings × List UInt8)} {c : Readings × List UInt8}
    {ms : List (List UInt8)} {m part : List UInt8} (houtputs : Outputs md5 cs ms)
    (hreply : reply md5 c.1 c.2 = some m) (hpart : part <+: m) :
    Whole md5 (cs ++ [c]) (ms.flatten ++ part) := by
  have hlen : cs.length = ms.length := List.Forall₂.length_eq houtputs
  rcases eq_or_ne part m with rfl | hne
  · -- the whole answer was accepted after all
    refine ⟨ms ++ [part], [], by simp, ?_, Or.inl rfl⟩
    rw [List.take_of_length_le (by simp [hlen])]
    exact houtputs.concat hreply
  · refine ⟨ms, part, rfl, ?_, Or.inr ⟨c, m, ?_, hreply, hpart, hne⟩⟩
    · rwa [← hlen, List.take_left]
    · rw [← hlen]
      simp

/-- In every phase, whole answers have been sent, and at most a part of one more. -/
theorem Accounted.whole {ph : Phase} (h : Accounted md5 fd t ph) :
    Whole md5 (callsOn fd t) (sentOn fd t) := by
  cases ph with
  | reading q => exact h.2.whole
  | replying m =>
    obtain ⟨-, cs, c, ms, hcalls, houtputs, hreply, hsent⟩ := h
    rw [hcalls, hsent, ← List.append_nil ms.flatten]
    exact whole_of_part houtputs hreply List.nil_prefix
  | served => exact h.2.whole
  | ended => exact h

/-- An answered query joins the calls. -/
theorem Accounted.answer {env : Readings} {q m : List UInt8} {size : ℤ}
    (h : Accounted md5 fd t (.reading q)) (hreply : reply md5 env q = some m) :
    Accounted md5 fd (t ++ [.createResponse fd env q size]) (.replying m) := by
  obtain ⟨hreceived, ms, houtputs, hsent⟩ := h
  refine ⟨?_, callsOn fd t, (env, q), ms, ?_, houtputs, hreply, ?_⟩
  · rw [receivedOn_concat, queriesOn_concat, hreceived]
    simp [receivedBy, callBy]
  · rw [callsOn_concat]
    simp [callBy]
  · rw [sentOn_concat, hsent]
    simp [sentBy]

/-- The answer is sent whole. -/
theorem Accounted.send {m : List UInt8} (h : Accounted md5 fd t (.replying m)) :
    Accounted md5 fd (t ++ [.send fd m (.ok m.length)]) .served := by
  obtain ⟨hreceived, cs, c, ms, hcalls, houtputs, hreply, hsent⟩ := h
  refine ⟨?_, ms ++ [m], ?_, ?_⟩
  · rw [receivedOn_concat, queriesOn_concat, hreceived]
    simp [receivedBy, callBy]
  · rw [callsOn_concat, hcalls]
    simpa [callBy] using houtputs.concat hreply
  · rw [sentOn_concat, hsent]
    simp [sentBy]

/-- A part of the answer is sent. -/
theorem Accounted.cut {m : List UInt8} (h : Accounted md5 fd t (.replying m)) (n : ℕ) :
    Accounted md5 fd (t ++ [.send fd m (.ok n)]) .ended := by
  obtain ⟨-, cs, c, ms, hcalls, houtputs, hreply, hsent⟩ := h
  have hpart : Whole md5 (cs ++ [c]) (ms.flatten ++ m.take n) :=
    whole_of_part houtputs hreply (List.take_prefix n m)
  rw [Accounted, callsOn_concat, sentOn_concat, hcalls, hsent]
  simpa [callBy, sentBy] using hpart

/-- A refused query joins the calls, and nothing is sent for it. -/
theorem Accounted.refuse {env : Readings} {q : List UInt8} {size : ℤ}
    (h : Accounted md5 fd t (.reading q)) :
    Accounted md5 fd (t ++ [.createResponse fd env q size]) .ended := by
  obtain ⟨-, ms, houtputs, hsent⟩ := h
  refine ⟨ms, [], ?_, ?_, Or.inl rfl⟩
  · rw [sentOn_concat, hsent]
    simp [sentBy]
  · rw [callsOn_concat, ← List.Forall₂.length_eq houtputs, List.take_left]
    exact houtputs

/-- Every call keeps the ledger. -/
theorem accounted_step {ph ph' : Phase} (h : Accounted md5 fd t ph) (hobs : Observed md5 fd ph e ph')
    (hnew : e ≠ .accept (.ok fd)) : Accounted md5 fd (t ++ [e]) ph' := by
  cases hobs with
  | accept => exact absurd rfl hnew
  | @data q data offset len =>
    obtain ⟨hreceived, ms, houtputs, hsent⟩ := h
    refine ⟨?_, ms, ?_, ?_⟩
    · rw [receivedOn_concat, queriesOn_concat, hreceived]
      simp [receivedBy, callBy]
    · rw [callsOn_concat]
      simpa [callBy] using houtputs
    · rw [sentOn_concat, hsent]
      simp [sentBy]
  | again => exact (Quiet.accounted ⟨rfl, rfl, rfl⟩ _).mpr h
  | closed => exact (Quiet.accounted ⟨by simp [receivedBy], rfl, rfl⟩ _).mpr h.whole
  | broken => exact (Quiet.accounted ⟨rfl, rfl, rfl⟩ _).mpr h.whole
  | refuse => exact h.refuse
  | answer hreply => exact h.answer hreply
  | whole => exact h.send
  | cut => exact h.cut _
  | failed => exact (Quiet.accounted ⟨rfl, rfl, rfl⟩ _).mpr h.whole
  | close => exact (Quiet.accounted ⟨rfl, rfl, rfl⟩ _).mpr h.whole
  | round hrested =>
    refine (Quiet.accounted ⟨rfl, rfl, rfl⟩ _).mpr ?_
    rcases hrested with rfl | rfl
    · exact h
    · exact ⟨by rw [h.1, List.append_nil], h.2⟩
  | gone => exact (Quiet.accounted ⟨rfl, rfl, rfl⟩ _).mpr h
  | other helse => exact (quiet_elsewhere helse).accounted _ |>.mpr h

/-- The ledger after every sequence of calls that follows the phases. -/
theorem accounted_path {ph : Phase} (h : Machine.Path (Observed md5 fd) (.reading []) t ph)
    (hnew : .accept (.ok fd) ∉ t) : Accounted md5 fd t ph := by
  refine Machine.Path.history
    (fun past ph => Event.accept (.ok fd) ∉ past → Accounted md5 fd past ph) ?_ t [] ?_ h hnew
  · intro past ph e ph' hpast hobs hmem
    rw [List.mem_append, List.mem_singleton, not_or] at hmem
    exact accounted_step (hpast hmem.1) hobs (fun heq => hmem.2 heq.symm)
  · intro _
    exact ⟨rfl, [], .nil, rfl⟩

/-! ### After an answer -/

/-- Once the connection has ended there is nothing on it. -/
theorem ended_step {ph ph' : Phase} (h : ph = .ended) (hobs : Observed md5 fd ph e ph')
    (hnew : e ≠ .accept (.ok fd)) : ph' = .ended := by
  subst h
  cases hobs with
  | accept => exact absurd rfl hnew
  | close => rfl
  | round h => rcases h with h | h <;> exact absurd h (by simp)
  | gone => rfl
  | other => rfl

/-- After an answer nothing happens until the next round. -/
theorem served_step {ph ph' : Phase} (h : ph = .served ∨ ph = .ended)
    (hobs : Observed md5 fd ph e ph') (hnew : e ≠ .accept (.ok fd))
    (hround : ∀ result, e ≠ .poll result) : ph' = .served ∨ ph' = .ended := by
  rcases h with rfl | h
  · cases hobs with
    | accept => exact absurd rfl hnew
    | close => exact Or.inr rfl
    | round => exact absurd rfl (hround _)
    | other => exact Or.inl rfl
  · exact Or.inr (ended_step h hobs hnew)

/-- Something is sent only while there is an answer to be sent. -/
theorem replying_of_send {ph ph' : Phase} {bytes : List UInt8} {result : Except Errno ℕ}
    (hobs : Observed md5 fd ph (.send fd bytes result) ph') :
    ph = .replying bytes ∧ (ph' = .served ∨ ph' = .ended) := by
  cases hobs with
  | whole => exact ⟨rfl, Or.inl rfl⟩
  | cut => exact ⟨rfl, Or.inr rfl⟩
  | failed => exact ⟨rfl, Or.inr rfl⟩
  | other h => exact absurd rfl h

theorem ended_of_fatal {ph ph' : Phase} (hobs : Observed md5 fd ph e ph') (h : Fatal fd e) :
    ph' = .ended := by
  rcases h with ⟨env, query, rfl⟩ | ⟨bytes, errno, rfl⟩ | ⟨bytes, n, rfl, hn⟩
  · generalize hsize : (-1 : ℤ) = size at hobs
    cases hobs with
    | refuse => rfl
    | answer => omega
    | other h => exact absurd rfl h
  · cases hobs with
    | failed => rfl
    | other h => exact absurd rfl h
  · cases hobs with
    | whole => exact absurd rfl hn
    | cut => rfl
    | other h => exact absurd rfl h

/-- Calls that follow the phases from the acceptance on are in step. -/
theorem inStep_of_path {ph : Phase} (h : Machine.Path (Observed md5 fd) (.reading []) t ph)
    (hnew : .accept (.ok fd) ∉ t) : InStep md5 fd t := by
  refine ⟨(accounted_path h hnew).whole, ?_, ?_, ?_⟩
  · rintro pre post env query size rfl
    obtain ⟨ph₁, hpre, ph₂, hcall, -⟩ := (Machine.path_append pre).mp h
    have hledger := accounted_path hpre (fun hmem => hnew (List.mem_append_left _ hmem))
    cases hcall with
    | refuse => exact hledger.1
    | answer => exact hledger.1
    | other helse => exact absurd rfl helse
  · rintro pre mid post bytes result bytes' result' rfl
    obtain ⟨ph₁, hfirst, ph₂, hsecond, -⟩ := (Machine.path_append _).mp h
    obtain ⟨ph₃, -, ph₄, hsend, hmid⟩ := (Machine.path_append pre).mp hfirst
    by_contra hnone
    rw [not_exists] at hnone
    have hkept : ph₁ = .served ∨ ph₁ = .ended := by
      refine Machine.Path.invariant (fun ph => ph = .served ∨ ph = .ended) mid ?_ (replying_of_send hsend).2
        hmid
      intro s e he s' hs hobs
      refine served_step hs hobs ?_ ?_
      · rintro rfl
        exact hnew (by simp [he])
      · rintro polled rfl
        exact hnone polled he
    have hreplying := (replying_of_send hsecond).1
    rcases hkept with rfl | rfl <;> exact absurd hreplying (by simp)
  · rintro pre e post rfl hfatal bytes result hmem
    obtain ⟨before, after, rfl⟩ := List.append_of_mem hmem
    obtain ⟨ph₁, -, ph₂, hcall, hpost⟩ := (Machine.path_append pre).mp h
    obtain ⟨ph₃, hbefore, ph₄, hsend, -⟩ := (Machine.path_append before).mp hpost
    have hended : ph₃ = .ended := by
      refine Machine.Path.invariant (fun ph => ph = .ended) before ?_
        (ended_of_fatal hcall hfatal) hbefore
      intro s e' he s' hs hobs
      refine ended_step hs hobs ?_
      rintro rfl
      exact hnew (by simp [he])
    exact absurd ((replying_of_send hsend).1.symm.trans hended) (by simp)

end

end NHA.Session
