import NativeHardwareAccess.Schemes.Machine
import NativeHardwareAccess.Server.Connection
import NativeHardwareAccess.Server.ResponseLayout

/-! Queries on a byte stream.

    A TCP stream has no message boundaries: a query may arrive in pieces, and several queries may
    arrive at once. The server treats what one visit drains as one query. A round that falls between
    the pieces of a query, or finds two queries together, therefore drains bytes that are no query and
    closes the connection. -/

namespace NHA.Serving
open Scheme Scheme.MD5 NHA.MessageBuilder

section
variable {σ : Type*} {os : OS σ} {md5 : List UInt8 → Digest} {c : Fd} {pending : σ → List UInt8}

/-! ### What a round does to a connection -/

/-- The connection stands in the list exactly once, behind the server socket. -/
def Connected (c : Fd) (r : Responder σ) : Prop :=
  ∃ server before after, r.sockets = server :: (before ++ c :: after) ∧ c ≠ server ∧
    c ∉ before ∧ c ∉ after

theorem Connected.mem {r : Responder σ} (h : Connected c r) : c ∈ r.sockets := by
  obtain ⟨server, before, after, hs, -⟩ := h
  simp [hs]

section
variable (hc : Connection os c pending)
include hc

/-- Accepting adds other connections at the end. -/
theorem acceptLoop_adds (server : Fd) : ∀ (fuel : ℕ) (r : Responder σ),
    os.backlog r.io.world < fuel → ∃ new io, acceptLoop os server fuel r =
      some { r with sockets := r.sockets ++ new, io := io } ∧ c ∉ new ∧ Untouched c pending r.io io
  | 0, _, h => absurd h (by omega)
  | fuel + 1, r, h => by
    have hu : Untouched c pending r.io (r.io.accept os server).2 := accept_untouched hc server
    obtain ⟨hfst, hworld⟩ := r.io.accept_eq os server
    have hback := hc.accept_backlog server r.io.world
    rw [← hfst, ← hworld] at hback
    -- the loop goes on in a state that has fewer clients waiting
    have hnext : ∀ (new : List Fd) (io : Io σ), c ∉ new → Untouched c pending r.io io →
        os.backlog io.world ≤ os.backlog (r.io.accept os server).2.world →
        os.backlog (r.io.accept os server).2.world < os.backlog r.io.world →
        ∃ new' io', acceptLoop os server fuel { r with sockets := r.sockets ++ new, io := io } =
          some { r with sockets := r.sockets ++ new', io := io' } ∧ c ∉ new' ∧
            Untouched c pending r.io io' := by
      intro new io hnew hio hle hlt
      obtain ⟨new', io', heq, hnew', hio'⟩ := acceptLoop_adds server fuel
        { r with sockets := r.sockets ++ new, io := io } (show os.backlog io.world < fuel by omega)
      refine ⟨new ++ new', io', ?_, ?_, hio.trans hio'⟩
      · rw [heq, List.append_assoc]
      · rw [List.mem_append]
        exact not_or.mpr ⟨hnew, hnew'⟩
    rw [acceptLoop]
    cases ha : (r.io.accept os server).1 with
    | error e =>
      rw [ha] at hback
      cases e with
      | eagain => exact ⟨[], _, by simp, List.not_mem_nil, hu⟩
      | ewouldblock => exact ⟨[], _, by simp, List.not_mem_nil, hu⟩
      | econnaborted =>
        have hmore := hnext [] _ List.not_mem_nil hu (le_refl _) (by simpa using hback)
        rwa [List.append_nil] at hmore
      | other code => exact absurd (hfst.symm.trans ha) (hc.accept_error _ _ _)
    | ok fd =>
      rw [ha] at hback
      have hlt : os.backlog (r.io.accept os server).2.world < os.backlog r.io.world := by
        simpa using hback
      have hfd : c ∉ [fd] := by
        rw [List.mem_singleton]
        rintro rfl
        exact hc.accept_new _ _ (hfst.symm.trans ha)
      have hf : Untouched c pending r.io ((r.io.accept os server).2.fcntl os fd).2 :=
        hu.trans (fcntl_untouched hc fd)
      have hfworld : os.backlog ((r.io.accept os server).2.fcntl os fd).2.world ≤
          os.backlog (r.io.accept os server).2.world := by
        rw [Io.fcntl_world]
        exact hc.fcntl_backlog _ _
      dsimp only
      split_ifs
      · have hmore := hnext [] _ List.not_mem_nil (hu.trans (close_untouched hc fd))
          (hc.close_backlog _ _) hlt
        rwa [List.append_nil] at hmore
      · split
        · have hmore := hnext [] _ List.not_mem_nil (hf.trans (close_untouched hc fd))
            (le_trans (hc.close_backlog _ _) hfworld) hlt
          rwa [List.append_nil] at hmore
        · exact hnext [fd] _ hfd hf hfworld hlt

/-- A pass over the connections visits the connection once. -/
theorem visitAll_visits {before after : List Fd} (io : Io σ) (hbefore : c ∉ before)
    (hafter : c ∉ after) : ∃ io₁ kept kept', Untouched c pending io io₁ ∧ c ∉ kept ∧ c ∉ kept' ∧
      (visitAll os md5 (before ++ c :: after) io).1 =
        kept ++ (if (visit os md5 c io₁).1 then [c] else []) ++ kept' ∧
      Untouched c pending (visit os md5 c io₁).2 (visitAll os md5 (before ++ c :: after) io).2 := by
  induction before generalizing io with
  | nil =>
    obtain ⟨hrest, hkept⟩ := @visitAll_untouched σ os md5 c pending hc after
      (visit os md5 c (io.getValid os).2).2 hafter
    refine ⟨(io.getValid os).2, [], _, getValid_untouched hc, List.not_mem_nil, hkept, ?_, ?_⟩
    · rw [List.nil_append, visitAll_cons hc]
      dsimp only
      split <;> simp
    · rw [List.nil_append, visitAll_cons hc]
      exact hrest
  | cons d before ih =>
    obtain ⟨hd, hbefore⟩ := not_or.mp (fun h => hbefore (List.mem_cons.mpr h))
    have hvisit : Untouched c pending io (visit os md5 d (io.getValid os).2).2 :=
      (getValid_untouched hc).trans (visit_untouched hc (Ne.symm hd))
    obtain ⟨io₁, kept, kept', hio, hkept, hkept', hlist, hend⟩ :=
      ih (visit os md5 d (io.getValid os).2).2 hbefore
    rw [List.cons_append, visitAll_cons hc]
    dsimp only
    rw [hlist]
    split
    · refine ⟨io₁, d :: kept, kept', hvisit.trans hio, ?_, hkept', by simp, hend⟩
      exact fun h => (List.mem_cons.mp h).elim hd hkept
    · exact ⟨io₁, kept, kept', hvisit.trans hio, hkept, hkept', rfl, hend⟩

/-- A round visits the connection once and does nothing else to it; it is in the list afterwards
    exactly when the visit kept it. -/
theorem round_visits {r : Responder σ} (h : Connected c r) : ∃ io₁ r',
    round os md5 r = some r' ∧ Untouched c pending r.io io₁ ∧
      Untouched c pending (visit os md5 c io₁).2 r'.io ∧
      ((visit os md5 c io₁).1 = true → Connected c r') ∧
      ((visit os md5 c io₁).1 = false → c ∉ r'.sockets) := by
  obtain ⟨server, before, after, hs, hserver, hbefore, hafter⟩ := h
  obtain ⟨new, io, haccept, hnew, hio⟩ := acceptLoop_adds hc server (os.backlog r.io.world + 1) r
    (by omega)
  have hafter' : c ∉ after ++ new := by
    rw [List.mem_append]
    exact not_or.mpr ⟨hafter, hnew⟩
  obtain ⟨io₁, kept, kept', hio₁, hkept, hkept', hlist, hend⟩ :=
    @visitAll_visits σ os md5 c pending hc before (after ++ new) io hbefore hafter'
  have haccepted : acceptNewClients os r =
      some { r with sockets := server :: (before ++ c :: (after ++ new)), io := io } := by
    rw [acceptNewClients, hs]
    dsimp only
    rw [haccept, hs]
    simp
  have hpoll : ∀ r' : Responder σ, waitForSocketActivity os r' =
      some { r' with io := (r'.io.poll os r'.sockets).2 } := by
    intro r'
    have hok : (r'.io.poll os r'.sockets).1 = .ok () := by
      rw [Io.poll]
      dsimp only
      rw [hc.poll_ok]
    rw [waitForSocketActivity, hok]
  have hround : round os md5 r = some { r with
      sockets := server :: (visitAll os md5 (before ++ c :: (after ++ new)) io).1
      io := ((visitAll os md5 (before ++ c :: (after ++ new)) io).2.poll os
        (server :: (visitAll os md5 (before ++ c :: (after ++ new)) io).1)).2 } := by
    rw [round, haccepted, Option.bind_some, handle_eq _ rfl, Option.bind_some, hpoll]
  refine ⟨io₁, _, hround, hio.trans hio₁, hend.trans (poll_untouched hc _), ?_, ?_⟩
  · intro hkeep
    refine ⟨server, kept, kept', ?_, hserver, hkept, hkept'⟩
    dsimp only
    rw [hlist, hkeep]
    simp
  · intro hclose
    dsimp only
    rw [hlist, hclose]
    simp [hserver, hkept, hkept']

/-! ### The three kinds of round -/

/-- Since the state `r₀` nothing was sent on the connection, and `p` is readable on it. -/
def Waiting (c : Fd) (pending : σ → List UInt8) (r₀ : Responder σ) (p : List UInt8)
    (r : Responder σ) : Prop :=
  Connected c r ∧ pending r.io.world = p ∧ ∃ t, r.io.trace = r₀.io.trace ++ t ∧ sends c t = []

/-- Since the state `r₀` exactly the reply to `q` was sent, and nothing more is readable. -/
def Served (md5 : List UInt8 → Digest) (c : Fd) (pending : σ → List UInt8) (r₀ : Responder σ)
    (q : List UInt8) (r : Responder σ) : Prop :=
  Connected c r ∧ pending r.io.world = [] ∧
    ∃ t, r.io.trace = r₀.io.trace ++ t ∧ Replied md5 c q t

variable {r₀ r : Responder σ} {p q : List UInt8}

/-- A round that finds nothing readable leaves the connection as it is. -/
theorem round_idle (hconn : Connected c r) (hp : pending r.io.world = []) :
    ∃ r', round os md5 r = some r' ∧ Connected c r' ∧ Untouched c pending r.io r'.io := by
  obtain ⟨io₁, r', hround, hbefore, hafter, hkeep, -⟩ := @round_visits σ os md5 c pending hc r hconn
  obtain ⟨htrue, hvisit⟩ := @visit_idle σ os md5 c pending io₁ hc (by rw [hbefore.pending, hp])
  exact ⟨r', hround, hkeep htrue, (hbefore.trans hvisit).trans hafter⟩

theorem Waiting.round_nil (h : Waiting c pending r₀ [] r) :
    ∃ r', round os md5 r = some r' ∧ Waiting c pending r₀ [] r' := by
  obtain ⟨hconn, hp, t, ht, hsends⟩ := h
  obtain ⟨r', hround, hconn', hu⟩ := @round_idle σ os md5 c pending hc r hconn hp
  obtain ⟨t', ht', hsends'⟩ := hu.trace
  refine ⟨r', hround, hconn', hu.pending.trans hp, t ++ t', ?_, ?_⟩
  · rw [ht', ht, List.append_assoc]
  · rw [sends_append, hsends, hsends', List.append_nil]

theorem Served.round (h : Served md5 c pending r₀ q r) :
    ∃ r', round os md5 r = some r' ∧ Served md5 c pending r₀ q r' := by
  obtain ⟨hconn, hp, t, ht, hreplied⟩ := h
  obtain ⟨r', hround, hconn', hu⟩ := @round_idle σ os md5 c pending hc r hconn hp
  obtain ⟨t', ht', hsends'⟩ := hu.trace
  refine ⟨r', hround, hconn', hu.pending.trans hp, t ++ t', ?_, hreplied.silent hsends'⟩
  rw [ht', ht, List.append_assoc]

/-- A round that finds a whole query answers it. -/
theorem Waiting.round_answers (h : Waiting c pending r₀ q r) (hq : Answered md5 q) :
    ∃ r', round os md5 r = some r' ∧ Served md5 c pending r₀ q r' := by
  obtain ⟨hconn, hp, t, ht, hsends⟩ := h
  obtain ⟨io₁, r', hround, hbefore, hafter, hkeep, -⟩ := @round_visits σ os md5 c pending hc r hconn
  obtain ⟨htrue, hdrained, t₂, ht₂, hreplied⟩ :=
    visit_answers hc (hbefore.pending.trans hp) hq
  obtain ⟨t₁, ht₁, hsends₁⟩ := hbefore.trace
  obtain ⟨t₃, ht₃, hsends₃⟩ := hafter.trace
  refine ⟨r', hround, hkeep htrue, hafter.pending.trans hdrained, (t ++ t₁) ++ (t₂ ++ t₃), ?_, ?_⟩
  · rw [ht₃, ht₂, ht₁, ht]
    simp only [List.append_assoc]
  · refine Replied.of_silent ?_ (hreplied.silent hsends₃)
    rw [sends_append, hsends, hsends₁, List.append_nil]

/-- A round that finds anything else closes the connection. -/
theorem Waiting.round_closes (h : Waiting c pending r₀ p r) (hne : p ≠ [])
    (hlen : p.length ≤ 61440) (hno : ¬ Answered md5 p) :
    ∃ r', round os md5 r = some r' ∧ c ∉ r'.sockets := by
  obtain ⟨hconn, hp, -⟩ := h
  obtain ⟨io₁, r', hround, hbefore, -, -, hclose⟩ := @round_visits σ os md5 c pending hc r hconn
  exact ⟨r', hround, hclose (visit_refuses hc (hbefore.pending.trans hp) hne hlen hno)⟩

end

/-! ### A query in pieces -/

/-- Bytes become readable on the connection, or the server runs a round. -/
inductive Action where
  | arrive (chunk : List UInt8)
  | round

/-- One action; `arrive` is what the network does to the system when bytes come in. -/
def step (os : OS σ) (md5 : List UInt8 → Digest) (arrive : List UInt8 → σ → σ) (r : Responder σ) :
    Action → Option (Responder σ)
  | .arrive chunk => some { r with io := { r.io with world := arrive chunk r.io.world } }
  | .round => round os md5 r

/-- The bytes that arrive in the course of some actions. -/
def arrivals (actions : List Action) : List UInt8 :=
  actions.flatMap (fun
    | .arrive chunk => chunk
    | .round => [])

@[simp] theorem arrivals_append (as as' : List Action) :
    arrivals (as ++ as') = arrivals as ++ arrivals as' := List.flatMap_append

@[simp] theorem arrivals_arrive (chunk : List UInt8) : arrivals [.arrive chunk] = chunk := by
  simp [arrivals]

@[simp] theorem arrivals_round : arrivals [.round] = [] := rfl

/-- The connection is served as if the query had come in one piece: it stays in the list, nothing is
    sent before the whole query is there, and then exactly its reply. -/
structure ServedOnce (os : OS σ) (md5 : List UInt8 → Digest) (arrive : List UInt8 → σ → σ) (c : Fd)
    (r₀ : Responder σ) (actions : List Action) (q : List UInt8) : Prop where
  stays : ∀ pre, pre <+: actions → ∀ r, Machine.run (step os md5 arrive) r₀ pre = some r →
    c ∈ r.sockets
  quiet : ∀ pre, pre <+: actions → arrivals pre ≠ q → ∀ r,
    Machine.run (step os md5 arrive) r₀ pre = some r → sends c r.io.trace = sends c r₀.io.trace
  answered : ∃ r t, Machine.run (step os md5 arrive) r₀ actions = some r ∧
    r.io.trace = r₀.io.trace ++ t ∧ Replied md5 c q t

/-- No round falls between the first and the last arrival: each finds nothing or all of the query. -/
def Unbroken (q : List UInt8) (actions : List Action) : Prop :=
  ∀ pre post, actions = pre ++ .round :: post → arrivals pre = [] ∨ arrivals pre = q

theorem Unbroken.of_prefix {q : List UInt8} {as as' : List Action} (h : Unbroken q as')
    (hpre : as <+: as') : Unbroken q as := by
  obtain ⟨tail, rfl⟩ := hpre
  intro pre post hsplit
  exact h pre (post ++ tail) (by rw [hsplit, List.append_assoc, List.cons_append])

theorem unbroken_concat {q : List UInt8} {as : List Action} {a : Action} :
    Unbroken q (as ++ [a]) ↔
      Unbroken q as ∧ (a = .round → arrivals as = [] ∨ arrivals as = q) := by
  constructor
  · intro h
    refine ⟨h.of_prefix (List.prefix_append _ _), ?_⟩
    rintro rfl
    exact h as [] rfl
  · rintro ⟨hinit, hlast⟩ pre post hsplit
    rcases Machine.concat_eq_split.mp hsplit with ⟨-, rfl, hround⟩ | ⟨post', -, has⟩
    · exact hlast hround
    · exact hinit pre post' has

section
variable {arrive : List UInt8 → σ → σ} {r₀ : Responder σ} {q : List UInt8} {actions : List Action}
  (hc : Connection os c pending)
  (harrive : ∀ chunk w, pending (arrive chunk w) = pending w ++ chunk)
  (hstart : Waiting c pending r₀ [] r₀) (hq : Answered md5 q)
  (hchunks : ∀ chunk, .arrive chunk ∈ actions → chunk ≠ []) (htotal : arrivals actions = q)
include hc harrive hstart hq hchunks htotal

/-- While no round has broken the query up, what has arrived is readable, or all of it has arrived and
    been answered. -/
theorem run_unbroken (pre : List Action) (hpre : pre <+: actions) (hun : Unbroken q pre) :
    ∃ r, Machine.run (step os md5 arrive) r₀ pre = some r ∧
      (Waiting c pending r₀ (arrivals pre) r ∨
        (arrivals pre = q ∧ Served md5 c pending r₀ q r)) := by
  induction pre using List.reverseRecOn with
  | nil => exact ⟨r₀, rfl, Or.inl hstart⟩
  | append_singleton pre a ih =>
    obtain ⟨hinit, hlast⟩ := unbroken_concat.mp hun
    obtain ⟨r, hrun, hphase⟩ := ih ((List.prefix_append _ _).trans hpre) hinit
    rw [Machine.run_concat, hrun, Option.bind_some]
    cases a with
    | arrive chunk =>
      refine ⟨_, rfl, Or.inl ?_⟩
      rcases hphase with ⟨hconn, hp, htrace⟩ | ⟨hall, -⟩
      · refine ⟨hconn, ?_, htrace⟩
        rw [arrivals_append, arrivals_arrive, ← hp]
        exact harrive _ _
      · -- nothing can arrive after the whole query
        exfalso
        obtain ⟨post, rfl⟩ := hpre
        have hne := hchunks chunk (by simp)
        rw [arrivals_append, arrivals_append, hall, arrivals_arrive, List.append_assoc,
          List.append_right_eq_self, List.append_eq_nil_iff] at htotal
        exact hne htotal.1
    | round =>
      rw [arrivals_append, arrivals_round, List.append_nil]
      rcases hphase with hwait | ⟨hall, hserved⟩
      · rcases hlast rfl with hnone | hall
        · rw [hnone] at hwait ⊢
          obtain ⟨r', hround, hwait'⟩ := @Waiting.round_nil σ os md5 c pending hc r₀ r hwait
          exact ⟨r', hround, Or.inl hwait'⟩
        · rw [hall] at hwait
          obtain ⟨r', hround, hserved⟩ := hwait.round_answers hc hq
          exact ⟨r', hround, Or.inr ⟨hall, hserved⟩⟩
      · obtain ⟨r', hround, hserved'⟩ := hserved.round hc
        exact ⟨r', hround, Or.inr ⟨hall, hserved'⟩⟩

/-- The first round that breaks the query up closes the connection. -/
theorem run_broken (pre : List Action) (hpre : pre <+: actions) (hbroken : ¬ Unbroken q pre) :
    ∃ pre' r, pre' <+: actions ∧ Machine.run (step os md5 arrive) r₀ pre' = some r ∧
      c ∉ r.sockets := by
  induction pre using List.reverseRecOn with
  | nil => exact absurd (fun pre post h => by simp at h) hbroken
  | append_singleton pre a ih =>
    have hpre' := (List.prefix_append pre [a]).trans hpre
    by_cases hinit : Unbroken q pre
    · rw [unbroken_concat, not_and, Classical.not_imp, not_or] at hbroken
      obtain ⟨rfl, hsome, hpart⟩ := hbroken hinit
      obtain ⟨r, hrun, hwait | ⟨hall, -⟩⟩ :=
        run_unbroken hc harrive hstart hq hchunks htotal pre hpre' hinit
      · -- a proper part of the query is readable, and it is no query itself
        have hsub : arrivals pre <+: q := by
          obtain ⟨post, rfl⟩ := hpre'
          rw [← htotal, arrivals_append]
          exact List.prefix_append _ _
        have hno : ¬ Answered md5 (arrivals pre) := fun h => hpart (h.eq_of_prefix hq hsub)
        obtain ⟨r', hround, hclosed⟩ :=
          hwait.round_closes hc hsome (le_trans hsub.length_le hq.1) hno
        refine ⟨pre ++ [.round], r', hpre, ?_, hclosed⟩
        rw [Machine.run_concat, hrun, Option.bind_some]
        exact hround
      · exact absurd hall hpart
    · exact ih hpre' hinit

end

/-- CORRECT (exact condition): however a query is cut into pieces, it is served as if it had come in
    one piece exactly when no round falls between its first and its last piece. -/
theorem servedOnce_iff (os : OS σ) (md5 : List UInt8 → Digest) (arrive : List UInt8 → σ → σ)
    (c : Fd) (pending : σ → List UInt8) (hc : Connection os c pending)
    (harrive : ∀ chunk w, pending (arrive chunk w) = pending w ++ chunk)
    (r₀ : Responder σ) (hconn : Connected c r₀) (hidle : pending r₀.io.world = [])
    (q : List UInt8) (hq : Answered md5 q) (actions : List Action)
    (hchunks : ∀ chunk, .arrive chunk ∈ actions → chunk ≠ []) (htotal : arrivals actions = q)
    (hlast : actions.getLast? = some .round) :
    ServedOnce os md5 arrive c r₀ actions q ↔ Unbroken q actions := by
  have hstart : Waiting c pending r₀ [] r₀ := ⟨hconn, hidle, [], by simp, rfl⟩
  constructor
  · intro hserved
    by_contra hbroken
    obtain ⟨pre, r, hpre, hrun, hclosed⟩ :=
      run_broken hc harrive hstart hq hchunks htotal actions (List.prefix_refl _) hbroken
    exact hclosed (hserved.stays pre hpre r hrun)
  · intro hun
    have hphase := run_unbroken hc harrive hstart hq hchunks htotal
    refine ⟨?_, ?_, ?_⟩
    · intro pre hpre r hrun
      obtain ⟨r', hrun', hwait | ⟨-, hserved⟩⟩ := hphase pre hpre (hun.of_prefix hpre)
      · obtain rfl := Option.some.inj (hrun.symm.trans hrun')
        exact hwait.1.mem
      · obtain rfl := Option.some.inj (hrun.symm.trans hrun')
        exact hserved.1.mem
    · intro pre hpre hpart r hrun
      obtain ⟨r', hrun', ⟨-, -, t, ht, hsends⟩ | ⟨hall, -⟩⟩ := hphase pre hpre (hun.of_prefix hpre)
      · obtain rfl := Option.some.inj (hrun.symm.trans hrun')
        rw [ht, sends_append, hsends, List.append_nil]
      · exact absurd hall hpart
    · -- the last action is a round, and it comes when the whole query is there
      obtain ⟨init, rfl⟩ := List.getLast?_eq_some_iff.mp hlast
      obtain ⟨r, hrun, hcase⟩ := hphase init (List.prefix_append _ _)
        (hun.of_prefix (List.prefix_append _ _))
      have hinit : arrivals init = q := by
        rw [← htotal, arrivals_append, arrivals_round, List.append_nil]
      have hend : ∃ r', round os md5 r = some r' ∧ Served md5 c pending r₀ q r' := by
        rcases hcase with hwait | ⟨-, hserved⟩
        · rw [hinit] at hwait
          exact hwait.round_answers hc hq
        · exact hserved.round hc
      obtain ⟨r', hround, -, -, t, ht, hreplied⟩ := hend
      refine ⟨r', t, ?_, ht, hreplied⟩
      rw [Machine.run_concat, hrun, Option.bind_some]
      exact hround

/-! ### Several queries at once -/

/-- Any number of rounds. -/
def rounds (os : OS σ) (md5 : List UInt8 → Digest) : ℕ → Responder σ → Option (Responder σ)
  | 0, r => some r
  | n + 1, r => (round os md5 r).bind (rounds os md5 n)

/-- Queries that are all readable are answered one a round: the first round answers the first of them
    and keeps the connection, and after as many rounds as there are queries exactly their replies have
    been sent, in order. -/
structure AnsweredInTurn (os : OS σ) (md5 : List UInt8 → Digest) (c : Fd) (r₀ : Responder σ)
    (q : List UInt8) (qs : List (List UInt8)) : Prop where
  first : ∃ r t, round os md5 r₀ = some r ∧ c ∈ r.sockets ∧ r.io.trace = r₀.io.trace ++ t ∧
    Replied md5 c q t
  all : ∃ r t, rounds os md5 (qs.length + 1) r₀ = some r ∧ r.io.trace = r₀.io.trace ++ t ∧
    List.Forall₂ (fun p m => ∃ env, reply md5 env p = some m ∧
      Event.createResponse c env p m.length ∈ t) (q :: qs) (sends c t)

/-- CORRECT (exact condition): queries that are readable together are answered in turn exactly when
    there is only one of them. -/
theorem answeredInTurn_iff (os : OS σ) (md5 : List UInt8 → Digest) (c : Fd)
    (pending : σ → List UInt8) (hc : Connection os c pending) (r₀ : Responder σ)
    (hconn : Connected c r₀) (q : List UInt8) (qs : List (List UInt8))
    (hpending : pending r₀.io.world = (q :: qs).flatten)
    (hqs : ∀ p ∈ q :: qs, Answered md5 p) (hlen : (q :: qs).flatten.length ≤ 61440) :
    AnsweredInTurn os md5 c r₀ q qs ↔ qs = [] := by
  have hwait : Waiting c pending r₀ (q :: qs).flatten r₀ := ⟨hconn, hpending, [], by simp, rfl⟩
  have hq := hqs q List.mem_cons_self
  constructor
  · intro hturn
    by_contra hmore
    -- the drained bytes start with a query and are longer than it
    obtain ⟨p, ps, rfl⟩ := List.exists_cons_of_ne_nil hmore
    have hp := (hqs p (by simp)).wellFormed.minSize
    have hq38 := hq.wellFormed.minSize
    have hpre : q <+: (q :: p :: ps).flatten := by
      rw [List.flatten_cons]
      exact List.prefix_append _ _
    have hlonger : q.length < (q :: p :: ps).flatten.length := by
      rw [List.flatten_cons, List.flatten_cons, List.length_append, List.length_append]
      omega
    have hno : ¬ Answered md5 (q :: p :: ps).flatten := by
      intro h
      rw [← hq.eq_of_prefix h hpre] at hlonger
      exact absurd hlonger (lt_irrefl _)
    obtain ⟨r, hround, hclosed⟩ := hwait.round_closes hc
      (List.ne_nil_of_length_pos (by omega)) hlen hno
    obtain ⟨r', -, hround', hmem, -⟩ := hturn.first
    obtain rfl := Option.some.inj (hround.symm.trans hround')
    exact hclosed hmem
  · rintro rfl
    rw [List.flatten_cons, List.flatten_nil, List.append_nil] at hwait
    obtain ⟨r, hround, hconn', -, t, ht, hreplied⟩ := hwait.round_answers hc hq
    refine ⟨⟨r, t, hround, hconn'.mem, ht, hreplied⟩, r, t, ?_, ht, ?_⟩
    · rw [List.length_nil, rounds, hround]
      rfl
    · obtain ⟨env, m, hm, hsends, hmem⟩ := hreplied
      rw [hsends]
      exact List.Forall₂.cons ⟨env, hm, hmem⟩ List.Forall₂.nil

end

/-! ### A system with one client -/

/-- A system whose state is the readable bytes of the only client, on descriptor 4. -/
def sampleOS : OS (List UInt8) where
  getValid w := (true, w)
  accept _ w := (.error .eagain, w)
  backlog _ := 0
  fcntl _ w := (.ok (), w)
  recv fd len w :=
    if fd = 4 ∧ w ≠ [] then (.ok (w.take len), w.drop len) else (.error .eagain, w)
  send _ bytes w := (.ok bytes.length, w)
  close _ w := w
  poll _ w := (.ok (), w)
  readings w := (sampleReadings, w)

theorem sampleOS_connection : Connection sampleOS 4 id where
  recv_data w len hlen hw := by
    refine ⟨w.take len, w.drop len, ?_, ?_, ?_, ?_⟩
    · exact if_pos ⟨rfl, hw⟩
    · rw [Ne, List.take_eq_nil_iff]
      exact not_or.mpr ⟨by omega, hw⟩
    · exact List.length_take_le _ _
    · exact (List.take_append_drop _ _).symm
  recv_empty w len _ hw := ⟨w, if_neg (by simpa using hw), hw⟩
  recv_full w := by
    refine ⟨w, ?_, rfl⟩
    by_cases hw : w = []
    · exact Or.inr (if_neg (by simpa using hw))
    · exact Or.inl (if_pos ⟨rfl, hw⟩)
  send_all _ _ := rfl
  valid _ := rfl
  poll_ok _ _ := rfl
  accept_new _ _ := by simp [sampleOS]
  accept_error _ _ _ := by simp [sampleOS]
  accept_backlog _ _ := Or.inl rfl
  fcntl_backlog _ _ := le_refl _
  close_backlog _ _ := le_refl _
  getValid_keeps _ := rfl
  accept_keeps _ _ := rfl
  fcntl_keeps _ _ := rfl
  recv_keeps fd len w hfd := by
    have hno : ¬ (fd = 4 ∧ w ≠ []) := fun h => hfd h.1
    simp only [sampleOS, if_neg hno]
  send_keeps _ _ _ := rfl
  close_keeps _ _ := rfl
  poll_keeps _ _ := rfl
  readings_keeps _ := rfl

/-- The server with that client, on whose connection `w` is readable. -/
def sampleResponder (w : List UInt8) : Responder (List UInt8) :=
  ⟨10, [3, 4], ⟨w, fun _ => 0, fun _ => 0, .eagain, []⟩⟩

theorem connected_sample (w : List UInt8) : Connected 4 (sampleResponder w) :=
  ⟨3, [], [], rfl, by decide, by decide, by decide⟩

theorem answered_deviceIDQuery : Answered md5 deviceIDQuery := by
  have hsome : (reply md5 sampleReadings deviceIDQuery).isSome = true := by decide +kernel
  exact ⟨by decide, sampleReadings, Option.isSome_iff_exists.mp hsome⟩

/-- The query in two pieces, with rounds before and after but none in between. -/
def unbrokenSchedule : List Action :=
  [.round, .arrive (deviceIDQuery.take 10), .arrive (deviceIDQuery.drop 10), .round]

/-- It is served as if it had come in one piece. -/
theorem unbrokenSchedule_served : ServedOnce sampleOS md5 (fun chunk w => w ++ chunk) 4
    (sampleResponder []) unbrokenSchedule deviceIDQuery := by
  refine (servedOnce_iff sampleOS md5 (fun chunk w => w ++ chunk) 4 id sampleOS_connection
    (fun _ _ => rfl) (sampleResponder []) (connected_sample []) rfl deviceIDQuery
    answered_deviceIDQuery unbrokenSchedule ?_ (by decide) (by rfl)).mpr ?_
  · intro chunk hmem
    simp only [unbrokenSchedule, List.mem_cons, Action.arrive.injEq, reduceCtorEq, false_or,
      or_false, List.not_mem_nil] at hmem
    rcases hmem with rfl | rfl <;> decide
  · have hsnoc : unbrokenSchedule = [] ++ [Action.round] ++ [Action.arrive (deviceIDQuery.take 10)] ++
        [Action.arrive (deviceIDQuery.drop 10)] ++ [Action.round] := rfl
    rw [hsnoc]
    simp only [unbroken_concat, reduceCtorEq, false_implies, and_true, forall_const]
    refine ⟨⟨fun pre post h => by simp at h, Or.inl rfl⟩, Or.inr (by decide)⟩

/-- The query in two pieces, with a round in between. -/
def brokenSchedule : List Action :=
  [.arrive (deviceIDQuery.take 10), .round, .arrive (deviceIDQuery.drop 10), .round]

/-- The round in between closes the connection. -/
theorem brokenSchedule_not_served : Answered md5 deviceIDQuery ∧
    arrivals brokenSchedule = deviceIDQuery ∧ ¬ ServedOnce sampleOS md5 (fun chunk w => w ++ chunk) 4
      (sampleResponder []) brokenSchedule deviceIDQuery := by
  refine ⟨answered_deviceIDQuery, by decide, fun hserved => ?_⟩
  have hclosed : (Machine.run (step sampleOS md5 (fun chunk w => w ++ chunk)) (sampleResponder [])
      (brokenSchedule.take 2)).any (fun r => decide (4 ∉ r.sockets)) = true := by decide +kernel
  obtain ⟨r, hrun, hmem⟩ := (Option.any_eq_true _ _).mp hclosed
  exact of_decide_eq_true hmem (hserved.stays _ (List.take_prefix _ _) r hrun)

/-- One readable query is answered. -/
theorem oneQuery_answered : AnsweredInTurn sampleOS md5 4 (sampleResponder deviceIDQuery)
    deviceIDQuery [] := by
  refine (answeredInTurn_iff sampleOS md5 4 id sampleOS_connection (sampleResponder deviceIDQuery)
    (connected_sample _) deviceIDQuery [] rfl ?_ (by decide)).mpr rfl
  intro p hp
  rw [List.mem_singleton.mp hp]
  exact answered_deviceIDQuery

/-- Two readable queries lose their connection. -/
theorem twoQueries_closed : (∀ p ∈ [deviceIDQuery, deviceIDQuery], Answered md5 p) ∧
    ¬ AnsweredInTurn sampleOS md5 4 (sampleResponder (deviceIDQuery ++ deviceIDQuery))
      deviceIDQuery [deviceIDQuery] := by
  refine ⟨by simp [answered_deviceIDQuery], fun hturn => ?_⟩
  have hclosed : (round sampleOS md5 (sampleResponder (deviceIDQuery ++ deviceIDQuery))).any
      (fun r => decide (4 ∉ r.sockets)) = true := by decide +kernel
  obtain ⟨r, hrun, hmem⟩ := (Option.any_eq_true _ _).mp hclosed
  obtain ⟨r', -, hrun', hmem', -⟩ := hturn.first
  obtain rfl := Option.some.inj (hrun.symm.trans hrun')
  exact of_decide_eq_true hmem hmem'

end NHA.Serving
