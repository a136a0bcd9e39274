import NativeHardwareAccess.Server.Service
import NativeHardwareAccess.Server.TimeSource

/-! One timeline for all responses.

    Every call of `createResponse` leaves a pair of clock readings and the time of the cached device
    ID. Over the whole life of the service, whichever connections the calls belong to:

        … ── rx ≤ tx ──┐      ┌── rx' ≤ tx' ── …
                       └─ ≤ ──┘
             lastUpdated ≤ rx',  lastUpdated ≤ lastUpdated'

    Within one call nothing is said about the last update: it may fall behind the RX time and even
    behind the TX time. The order holds as long as the counter's nanoseconds fit in 64 bits. -/

namespace NHA.Service
open Scheme Scheme.MD5 Scheme.Tlv NHA.MessageBuilder NHA.Protocol NHA.TPMWatcher NHA.MonotonicTimer
open NHA.Serving (Fd Errno)
open NHA.Threads (Process SetupCalls setupServer Replying Replies)
open NHA.Snapshot (ShowsDeviceID toLE64_injective)

/-! ### The order of the readings -/

/-- What the readings of a call have to do with those of a later one. -/
structure Precedes (a b : Readings) : Prop where
  clock : a.timerTx ≤ b.timerRx
  cache : a.lastUpdated ≤ b.timerRx
  updates : a.lastUpdated ≤ b.lastUpdated

/-- The readings of a call that has ended. -/
structure Settled (writes : List Cache) (now lastUpdated : UInt64) (env : Readings) : Prop where
  rx_le : env.timerRx ≤ env.timerTx
  tx_le : env.timerTx ≤ now
  updated_le : env.lastUpdated ≤ lastUpdated
  devID : ∃ c ∈ writes, c.deviceID = env.devID
  lastUpdated : ∃ c ∈ writes, c.lastUpdated = env.lastUpdated

/-- At this time all calls of the past were over. -/
def Over (past : List Readings) (time : UInt64) : Prop :=
  ∀ env ∈ past, env.timerTx ≤ time ∧ env.lastUpdated ≤ time

/-- The readings that the call in progress has taken so far. -/
def Reading.InOrder (past : List Readings) (writes : List Cache) (now : UInt64) : Reading → Prop
  | .none => True
  | .rx timerRx => Over past timerRx ∧ timerRx ≤ now
  | .id timerRx devID => Over past timerRx ∧ timerRx ≤ now ∧ ∃ c ∈ writes, c.deviceID = devID
  | .tx timerRx devID timerTx => Over past timerRx ∧ timerRx ≤ timerTx ∧ timerTx ≤ now ∧
      ∃ c ∈ writes, c.deviceID = devID

/-- All readings of the service, where `clock` is the timer as a function of the ticks. -/
structure InOrder (clock : ℕ → UInt64) (s : State) : Prop where
  clock : ∀ d, s.process.timer.get (s.process.timer.startTsc + UInt64.ofNat d) = clock d
  cached : s.cache ∈ s.writes
  updated : s.cache.lastUpdated ≤ s.now
  settled : ∀ env ∈ readings s.process.trace, Settled s.writes s.now s.cache.lastUpdated env
  ordered : (readings s.process.trace).Pairwise Precedes
  reading : s.reading.InOrder (readings s.process.trace) s.writes s.now

section
variable {writes writes' : List Cache} {now now' lastUpdated lastUpdated' : UInt64}

theorem Settled.mono {env : Readings} (h : Settled writes now lastUpdated env)
    (hwrites : writes ⊆ writes') (hnow : now ≤ now') (hupdated : lastUpdated ≤ lastUpdated') :
    Settled writes' now' lastUpdated' env := by
  obtain ⟨c, hc, hdev⟩ := h.devID
  obtain ⟨c', hc', hlast⟩ := h.lastUpdated
  exact ⟨h.rx_le, UInt64.le_trans h.tx_le hnow, UInt64.le_trans h.updated_le hupdated, ⟨c, hwrites hc, hdev⟩,
    ⟨c', hwrites hc', hlast⟩⟩

theorem Reading.InOrder.mono {past : List Readings} {r : Reading} (h : r.InOrder past writes now)
    (hwrites : writes ⊆ writes') (hnow : now ≤ now') : r.InOrder past writes' now' := by
  cases r with
  | none => trivial
  | rx timerRx => exact ⟨h.1, UInt64.le_trans h.2 hnow⟩
  | id timerRx devID =>
    obtain ⟨hover, hrx, c, hc, hdev⟩ := h
    exact ⟨hover, UInt64.le_trans hrx hnow, c, hwrites hc, hdev⟩
  | tx timerRx devID timerTx =>
    obtain ⟨hover, hrx, htx, c, hc, hdev⟩ := h
    exact ⟨hover, hrx, UInt64.le_trans htx hnow, c, hwrites hc, hdev⟩

end

section
variable {md5 : List UInt8 → Digest} {clock : ℕ → UInt64} {s : State}

theorem InOrder.now_eq (h : InOrder clock s) : s.now = clock s.ticks := h.clock s.ticks

/-- Whatever has been read is over by now. -/
theorem InOrder.over (h : InOrder clock s) : Over (readings s.process.trace) s.now :=
  fun env henv => ⟨(h.settled env henv).tx_le,
    UInt64.le_trans (h.settled env henv).updated_le h.updated⟩

theorem InOrder.tick (h : InOrder clock s) (n : ℕ)
    (hmono : clock s.ticks ≤ clock (s.ticks + n)) : InOrder clock { s with ticks := s.ticks + n } := by
  have hnow : s.now ≤ ({ s with ticks := s.ticks + n } : State).now := by
    rw [h.now_eq]
    exact hmono.trans_eq (h.clock (s.ticks + n)).symm
  exact {
    clock := h.clock
    cached := h.cached
    updated := UInt64.le_trans h.updated hnow
    settled := fun env henv => (h.settled env henv).mono (List.Subset.refl _) hnow UInt64.le_rfl
    ordered := h.ordered
    reading := h.reading.mono (List.Subset.refl _) hnow }

theorem InOrder.update (h : InOrder clock s) {c : Cache} (hc : c.lastUpdated = s.now) :
    InOrder clock { s with cache := c, writes := s.writes ++ [c] } := by
  have hsub : s.writes ⊆ s.writes ++ [c] := List.subset_append_left _ _
  exact {
    clock := h.clock
    cached := List.mem_append_right _ (List.mem_singleton.mpr rfl)
    updated := UInt64.le_of_eq hc
    settled := fun env henv => (h.settled env henv).mono hsub UInt64.le_rfl (h.updated.trans_eq hc.symm)
    ordered := h.ordered
    reading := h.reading.mono hsub UInt64.le_rfl }

/-- A step of a thread that reads nothing. -/
theorem InOrder.call (h : InOrder clock s) {p : Process}
    (hread : readings p.trace = readings s.process.trace)
    (htsc : p.timer.startTsc = s.process.timer.startTsc) (hget : p.timer.get = s.process.timer.get) :
    InOrder clock { s with process := p } := by
  have hnow : ({ s with process := p } : State).now = s.now := by
    simp only [State.now, State.tsc, htsc, hget]
  constructor
  · intro d
    dsimp only
    rw [htsc, hget]
    exact h.clock d
  · exact h.cached
  · rw [hnow]
    exact h.updated
  · rw [hnow, hread]
    exact h.settled
  · rw [hread]
    exact h.ordered
  · rw [hnow, hread]
    exact h.reading

/-- The call in progress ends: its readings join the others. -/
theorem InOrder.respond (h : InOrder clock s) {timerRx timerTx : UInt64} {devID : DeviceID}
    {p : Process} (hr : s.reading = .tx timerRx devID timerTx)
    (hread : readings p.trace = readings s.process.trace ++
      [⟨timerRx, devID, timerTx, s.cache.lastUpdated⟩])
    (htsc : p.timer.startTsc = s.process.timer.startTsc) (hget : p.timer.get = s.process.timer.get) :
    InOrder clock { s with process := p, reading := .none } := by
  have hnow : ({ s with process := p, reading := .none } : State).now = s.now := by
    simp only [State.now, State.tsc, htsc, hget]
  have hreading := h.reading
  rw [hr] at hreading
  obtain ⟨hover, hrx, htx, hknown⟩ := hreading
  constructor
  · intro d
    dsimp only
    rw [htsc, hget]
    exact h.clock d
  · exact h.cached
  · rw [hnow]
    exact h.updated
  · rw [hnow, hread]
    intro env henv
    rcases List.mem_append.mp henv with hold | hnew
    · exact h.settled env hold
    · obtain rfl := List.mem_singleton.mp hnew
      exact ⟨hrx, htx, UInt64.le_rfl, hknown, s.cache, h.cached, rfl⟩
  · rw [hread, List.pairwise_append]
    refine ⟨h.ordered, List.pairwise_singleton _ _, ?_⟩
    intro env henv env' henv'
    obtain rfl := List.mem_singleton.mp henv'
    exact ⟨(hover env henv).1, (hover env henv).2, (h.settled env henv).updated_le⟩
  · trivial

/-- Every step keeps the order, as long as the clock does. -/
theorem inOrder_step {limit : ℕ} (hmono : ∀ d d', d ≤ d' → d' ≤ limit → clock d ≤ clock d')
    (s : State) (a : Action) (s' : State) (h : s.ticks ≤ limit → InOrder clock s)
    (hstep : step md5 s a = some s') (hlimit : s'.ticks ≤ limit) : InOrder clock s' := by
  cases step_cases hstep with
  | tick n =>
    have hle := Nat.le_add_right s.ticks n
    exact (h (hle.trans hlimit)).tick n (hmono _ _ hle hlimit)
  | updateFailed tpm => exact h hlimit
  | update tpm hc => exact (h hlimit).update hc
  | call hother hp =>
    obtain ⟨hread, htsc, hget⟩ := process_step hp
    rw [readBy_other hother, List.append_nil] at hread
    exact (h hlimit).call hread htsc hget
  | getRx =>
    have hin := h hlimit
    exact ⟨hin.clock, hin.cached, hin.updated, hin.settled, hin.ordered, hin.over, UInt64.le_rfl⟩
  | getDeviceID hr =>
    have hin := h hlimit
    have hreading := hin.reading
    rw [hr] at hreading
    exact ⟨hin.clock, hin.cached, hin.updated, hin.settled, hin.ordered, hreading.1, hreading.2,
      s.cache, hin.cached, rfl⟩
  | getTx hr =>
    have hin := h hlimit
    have hreading := hin.reading
    rw [hr] at hreading
    exact ⟨hin.clock, hin.cached, hin.updated, hin.settled, hin.ordered, hreading.1, hreading.2.1,
      UInt64.le_rfl, hreading.2.2⟩
  | getLastUpdated hr hp =>
    obtain ⟨hread, htsc, hget⟩ := process_step hp
    exact (h hlimit).respond hr hread htsc hget

end

/-! ### The start -/

section
variable {md5 : List UInt8 → Digest} {timer : Option Timer} {ticks : ℕ} {tpm : Tpm}
  {calls : SetupCalls} {maxConnections : Int32} {recvBuffer sendBuffer : Memory} {errno : Errno}
  {s : State}

/-- What the service starts from. -/
theorem start_cases
    (h : start timer ticks tpm calls maxConnections recvBuffer sendBuffer errno = some s) :
    ∃ t sockets events c, timer = some t ∧ setupServer calls = (true, sockets, events) ∧
      c.lastUpdated = t.get (t.startTsc + UInt64.ofNat ticks) ∧
      s = ⟨Process.init t maxConnections sockets recvBuffer sendBuffer errno, c, [c], ticks, .none⟩ := by
  unfold start at h
  split at h
  · exact absurd h (by simp)
  · rename_i t
    dsimp only at h
    split_ifs at h with hupdate hserver
    obtain rfl := Option.some.inj h
    rcases update_cases tpm (t.get (t.startTsc + UInt64.ofNat ticks)) Cache.init with
      ⟨hfail, -⟩ | ⟨-, hcache⟩
    · exact absurd hfail (by simpa using hupdate)
    · refine ⟨t, _, (setupServer calls).2.2, _, rfl, ?_, by rw [hcache], rfl⟩
      rw [show true = (setupServer calls).1 by simpa using hserver]

theorem inOrder_start
    (h : start timer ticks tpm calls maxConnections recvBuffer sendBuffer errno = some s) :
    ∃ t, timer = some t ∧ InOrder (fun d => t.get (t.startTsc + UInt64.ofNat d)) s := by
  obtain ⟨t, sockets, events, c, rfl, -, hc, rfl⟩ := start_cases h
  exact ⟨t, rfl, fun _ => rfl, List.mem_singleton.mpr rfl, UInt64.le_of_eq hc,
    fun env henv => absurd henv (List.not_mem_nil), List.Pairwise.nil, trivial⟩

theorem replying_start
    (h : start timer ticks tpm calls maxConnections recvBuffer sendBuffer errno = some s) :
    Replying md5 s.process := by
  obtain ⟨t, sockets, events, c, -, -, -, rfl⟩ := start_cases h
  refine ⟨⟨trivial, by simp [Process.init]⟩, by simp [Threads.Due, Process.init], ?_⟩
  simp [Threads.Replies, Process.init]

end

/-- The timer as a function of the ticks does not go back while its nanoseconds fit in 64 bits. -/
theorem clock_mono {cpuid : Cpuid} {page : PerfPage} {deviationThreshold : ℚ}
    {startTime startTsc : UInt64} {t : Timer} {limit : ℕ} (hshift : page.timeShift.toNat ≤ 63)
    (hmake : make cpuid (some page) deviationThreshold startTime startTsc = some t)
    (hlimit : limit < 2 ^ 64) (hns : kernelNs page limit < 2 ^ 64) (d d' : ℕ) (hd : d ≤ d')
    (hd' : d' ≤ limit) :
    t.get (t.startTsc + UInt64.ofNat d) ≤ t.get (t.startTsc + UInt64.ofNat d') := by
  have hmult : page.timeMult ≠ 0 := by
    rintro hzero
    rw [make] at hmake
    split_ifs at hmake with _ hpos
    exact absurd hpos (by simp [readFrequency, hzero])
  have hmade := made_of_make hmult hshift hmake
  have hfits : ∀ e ≤ limit, kernelNs page e < 2 ^ 64 := by
    intro e he
    refine lt_of_le_of_lt ?_ hns
    rw [kernelNs, kernelNs]
    gcongr
  rw [hmade.startTsc, UInt64.le_iff_toNat_le, hmade.get_elapsed (by omega) (hfits d (by omega)),
    hmade.get_elapsed (by omega) (hfits d' hd')]
  exact FixedPoint.scale_mono shift _ hd

/-! ### What the responses show -/

/-- A response shows a time in its record of this kind. -/
def Shows (k : Kind) (m : List UInt8) (time : UInt64) : Prop :=
  ∃ r ∈ records (body m), r.tag = k.responseTag ∧ r.value = toLE 8 time.toNat

section
variable {md5 : List UInt8 → Digest} {env : Readings} {q m : List UInt8}

/-- A response to these readings shows these readings. -/
theorem shows_eq {k : Kind} {time time' : UInt64} (h : reply md5 env q = some m)
    (hk : ∀ v, k.answerValue env v = toLE 8 time'.toNat) (hshow : Shows k m time) : time = time' := by
  rw [reply] at h
  split_ifs at h with hn
  obtain rfl := Option.some.inj h
  obtain ⟨-, hmax, hmessage⟩ := responseOf_answered _ _ _ _ _ _ hn
  obtain ⟨r, hr, htag, hvalue⟩ := hshow
  rw [hmessage, body_message] at hr
  obtain ⟨e, -, hanswer⟩ := answer_of_tag (mem_responseBody _ _ hmax hr) htag
  exact toLE64_injective (hvalue.symm.trans (hanswer.trans (hk e.value)))

theorem showsDeviceID_of_reply {d : DeviceID} (h : reply md5 env q = some m)
    (hshow : ShowsDeviceID md5 m d) : d = env.devID := by
  rw [reply] at h
  split_ifs at h with hn
  obtain rfl := Option.some.inj h
  let request : Snapshot.Request :=
    ⟨Memory.ofList q, Int32.ofNat q.length, fun _ => 0, 61440, env.timerRx, env.devID⟩
  exact (@Snapshot.showsDeviceID_eq md5 request env.timerTx ⟨env.devID, env.lastUpdated⟩ d hn hshow).1

end

/-- The times in one response, and where its device ID and its last-updated time come from: each from
    a successful update, but not always from the same one. -/
structure Coherent (md5 : List UInt8 → Digest) (writes : List Cache) (m : List UInt8) : Prop where
  rx_le_tx : ∀ rx tx, Shows .timerRx m rx → Shows .timerTx m tx → rx ≤ tx
  deviceID : ∀ d, ShowsDeviceID md5 m d → ∃ c ∈ writes, c.deviceID = d
  lastUpdated : ∀ u, Shows .lastUpdated m u → ∃ c ∈ writes, c.lastUpdated = u

/-- The times in a response and in a later one. -/
structure NotBefore (m m' : List UInt8) : Prop where
  /-- Any time shown before is no later than a clock reading shown after it. -/
  clock : ∀ k ∈ [Kind.timerRx, Kind.timerTx, Kind.lastUpdated], ∀ k' ∈ [Kind.timerRx, Kind.timerTx],
    ∀ u u', Shows k m u → Shows k' m' u' → u ≤ u'
  updates : ∀ u u', Shows .lastUpdated m u → Shows .lastUpdated m' u' → u ≤ u'

theorem coherent_of_settled {md5 : List UInt8 → Digest} {writes : List Cache} {env : Readings}
    {now lastUpdated : UInt64} {q m : List UInt8} (hreply : reply md5 env q = some m)
    (h : Settled writes now lastUpdated env) : Coherent md5 writes m where
  rx_le_tx rx tx hrx htx := by
    rw [shows_eq hreply (fun _ => rfl) hrx, shows_eq hreply (fun _ => rfl) htx]
    exact h.rx_le
  deviceID d hd := by
    rw [showsDeviceID_of_reply hreply hd]
    exact h.devID
  lastUpdated u hu := by
    rw [shows_eq hreply (fun _ => rfl) hu]
    exact h.lastUpdated

theorem notBefore_of_precedes {md5 : List UInt8 → Digest} {env env' : Readings}
    {q q' m m' : List UInt8} (hreply : reply md5 env q = some m)
    (hreply' : reply md5 env' q' = some m') (hrx : env.timerRx ≤ env.timerTx)
    (hrx' : env'.timerRx ≤ env'.timerTx) (h : Precedes env env') : NotBefore m m' where
  clock k hk k' hk' u u' hu hu' := by
    -- everything shown before is at most the later RX time, everything after is at least that
    have hbefore : u ≤ env'.timerRx := by
      simp only [List.mem_cons, List.not_mem_nil, or_false] at hk
      rcases hk with rfl | rfl | rfl
      · rw [shows_eq hreply (fun _ => rfl) hu]
        exact UInt64.le_trans hrx h.clock
      · rw [shows_eq hreply (fun _ => rfl) hu]
        exact h.clock
      · rw [shows_eq hreply (fun _ => rfl) hu]
        exact h.cache
    have hafter : env'.timerRx ≤ u' := by
      simp only [List.mem_cons, List.not_mem_nil, or_false] at hk'
      rcases hk' with rfl | rfl
      · rw [shows_eq hreply' (fun _ => rfl) hu']
        exact UInt64.le_rfl
      · rw [shows_eq hreply' (fun _ => rfl) hu']
        exact hrx'
    exact UInt64.le_trans hbefore hafter
  updates u u' hu hu' := by
    rw [shows_eq hreply (fun _ => rfl) hu, shows_eq hreply' (fun _ => rfl) hu']
    exact h.updates

/-! ### Whole runs -/

/-- Two messages handed to `send` are the replies of two calls, in the same order. -/
theorem replies_two {md5 : List UInt8 → Digest} {trace pre mid post : List Serving.Event} {fd fd' : Fd}
    {m m' : List UInt8} {result result' : Except Errno ℕ} (h : Replies md5 trace)
    (htrace : trace = pre ++ .send fd m result :: (mid ++ .send fd' m' result' :: post)) :
    ∃ env env' q q', reply md5 env q = some m ∧ reply md5 env' q' = some m' ∧
      [env, env'].Sublist (readings trace) := by
  obtain ⟨t, env, q, size, hpre, hreply⟩ := h _ _ _ _ _ htrace
  have hsecond : trace = (pre ++ .send fd m result :: mid) ++ .send fd' m' result' :: post := by
    rw [htrace, List.append_assoc, List.cons_append]
  obtain ⟨t', env', q', size', hmid, hreply'⟩ := h _ _ _ _ _ hsecond
  refine ⟨env, env', q, q', hreply, hreply', ?_⟩
  -- the second call comes after the first message
  rcases List.eq_nil_or_concat mid with rfl | ⟨mid', e, rfl⟩
  · exact absurd (List.append_inj' hmid rfl).2 (by simp)
  · have hlast : e = .createResponse fd' env' q' size' := by
      rw [List.concat_eq_append, ← List.cons_append, ← List.append_assoc] at hmid
      exact List.singleton_inj.mp (List.append_inj' hmid rfl).2
    have hfirst : env ∈ readings pre := by simp [hpre, readings]
    have hlater : env' ∈ readings
        (.send fd m result :: (mid'.concat e ++ .send fd' m' result' :: post)) := by
      simp [hlast, readings]
    rw [htrace, readings_append]
    exact (List.singleton_sublist.mpr hfirst).append (List.singleton_sublist.mpr hlater)

/-- CORRECT: all responses of the service lie on one timeline. In every run, in whatever order the
    threads take their steps and as long as the shift of the kernel's page is at most 63 and the
    nanoseconds since the start fit in 64 bits, a response shows an RX time no later than its TX time,
    a device ID that a successful update wrote and a time that one wrote, which may be another; and of
    two responses handed to `send`, on whichever connections, the later one shows no
    clock reading before a time in the earlier one, and no earlier update. -/
theorem responses_on_timeline (md5 : List UInt8 → Digest) (cpuid : Cpuid) (page : PerfPage)
    (deviationThreshold : ℚ) (startTime startTsc : UInt64) (ticks : ℕ) (tpm : Tpm)
    (calls : SetupCalls) (maxConnections : Int32) (recvBuffer sendBuffer : Memory) (errno : Errno)
    (actions : List Action) (s₀ s : State) (hshift : page.timeShift.toNat ≤ 63)
    (hstart : start (make cpuid (some page) deviationThreshold startTime startTsc) ticks tpm calls
      maxConnections recvBuffer sendBuffer errno = some s₀)
    (hbounded : Machine.Along (step md5) Bounded s₀ actions)
    (hrun : Machine.run (step md5) s₀ actions = some s)
    (hticks : s.ticks < 2 ^ 64) (hns : kernelNs page s.ticks < 2 ^ 64) :
    (∀ pre fd m result post, s.process.trace = pre ++ .send fd m result :: post →
      Coherent md5 s.writes m) ∧
    (∀ pre fd m result mid fd' m' result' post, s.process.trace =
        pre ++ .send fd m result :: (mid ++ .send fd' m' result' :: post) → NotBefore m m') := by
  obtain ⟨t, hmake, hinit⟩ := inOrder_start hstart
  have hmono := clock_mono hshift hmake hticks hns
  have hkeep : ∀ s₁ a s₂,
      (s₁.ticks ≤ s.ticks → InOrder (fun d => t.get (t.startTsc + UInt64.ofNat d)) s₁) → True →
      step md5 s₁ a = some s₂ →
      (s₂.ticks ≤ s.ticks → InOrder (fun d => t.get (t.startTsc + UInt64.ofNat d)) s₂) :=
    fun s₁ a s₂ h _ hstep => inOrder_step hmono s₁ a s₂ h hstep
  have hin := Machine.run_invariant hkeep actions (fun _ => hinit)
    (Machine.along_of_forall (fun _ _ => trivial) _ _) hrun le_rfl
  have hreplies : Replies md5 s.process.trace := by
    obtain ⟨calls', hcalls, hproc⟩ := run_process actions hbounded hrun
    exact (Machine.run_invariant Threads.replying_step calls' (replying_start hstart) hcalls
      hproc).replies
  constructor
  · intro pre fd m result post htrace
    obtain ⟨t', env, query, size, rfl, hreply⟩ := hreplies pre fd m result post htrace
    refine coherent_of_settled hreply (hin.settled env ?_)
    rw [htrace]
    simp [readings]
  · intro pre fd m result mid fd' m' result' post htrace
    obtain ⟨env, env', q, q', hreply, hreply', hpair⟩ := replies_two hreplies htrace
    have hrx := (hin.settled env (hpair.subset (by simp))).rx_le
    have hrx' := (hin.settled env' (hpair.subset (by simp))).rx_le
    exact notBefore_of_precedes hreply hreply' hrx hrx'
      (List.pairwise_pair.mp (hin.ordered.sublist hpair))

/-- A query for the two clock readings and the time of the last update. -/
def timesQuery : List UInt8 :=
  [0x2c, 0x00, 0x00, 0x00, 0x00, 0x04, 0x4e, 0x48, 0x41, 0x31, 0x01, 0x04, 0x00, 0x00, 0x00, 0x01,
   0x02, 0x01, 0x01, 0x03, 0x01, 0x00, 0x92, 0x00, 0x93, 0x00, 0x94, 0x00, 0x62, 0x59, 0x4d, 0xeb,
   0x0d, 0xfb, 0x58, 0xfc, 0x0c, 0xde, 0xa3, 0xd8, 0xb7, 0xe6, 0xaf, 0x36]

/-- Two clients ask in one round; an update falls into the first call. -/
def sampleRound : List Action :=
  [.call .getValid, .call (.accept (.ok 5)), .call (.fcntl (.ok ())), .call (.accept (.ok 6)),
   .call (.fcntl (.ok ())), .call (.accept (.error .eagain)), .call .getValid,
   .call (.recv (.ok timesQuery)), .call (.recv (.error .eagain)), .tick 100, .getRx, .getDeviceID,
   .update (Snapshot.sampleTpm 2), .tick 10, .getTx, .getLastUpdated, .call (.send (.ok 68)),
   .call .getValid, .call (.recv (.ok timesQuery)), .call (.recv (.error .eagain)), .getRx,
   .getDeviceID, .tick 1, .getTx, .getLastUpdated, .call (.send (.ok 68))]

/-- The service on a processor of 500 MHz, three ticks after the timer was made. -/
def sampleStart : Option State :=
  start (make sampleCpuid (some slowPage) (1 / 10) 5 7) 3 (Snapshot.sampleTpm 1)
    ⟨true, true, some 3, true, true, true, true⟩ 2 (fun _ => 0) (fun _ => 0) .eagain

theorem sampleRound_on_timeline : ∃ s₀ s, sampleStart = some s₀ ∧
    Machine.run (step MD5.md5) s₀ sampleRound = some s ∧
    Threads.responses s.process.trace = [5, 6] ∧ s.writes.length = 2 ∧
    ∀ pre fd m result mid fd' m' result' post, s.process.trace =
      pre ++ .send fd m result :: (mid ++ .send fd' m' result' :: post) → NotBefore m m' := by
  have hrun : sampleStart.any (fun s₀ => decide (Machine.Along (step MD5.md5) Bounded s₀ sampleRound) &&
      (Machine.run (step MD5.md5) s₀ sampleRound).any (fun s => s.ticks = 114 ∧
        Threads.responses s.process.trace = [5, 6] ∧ s.writes.length = 2)) = true := by decide +kernel
  obtain ⟨s₀, hstart, hs₀⟩ := (Option.any_eq_true _ _).mp hrun
  obtain ⟨hbounded, hany⟩ := Bool.and_eq_true_iff.mp hs₀
  obtain ⟨s, hs, hend⟩ := (Option.any_eq_true _ _).mp hany
  obtain ⟨hticks, hsent, hwrites⟩ := of_decide_eq_true hend
  refine ⟨s₀, s, hstart, hs, hsent, hwrites, ?_⟩
  exact (responses_on_timeline MD5.md5 sampleCpuid slowPage (1 / 10) 5 7 3 (Snapshot.sampleTpm 1) _ _ _ _
    _ sampleRound s₀ s (by decide) hstart (of_decide_eq_true hbounded) hs (by rw [hticks]; norm_num)
    (by rw [hticks]; decide +kernel)).2

end NHA.Service
