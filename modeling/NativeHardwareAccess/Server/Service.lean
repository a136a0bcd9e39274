import NativeHardwareAccess.Server.DeviceIDSnapshot
import NativeHardwareAccess.Server.Exchange

/-! The whole service: the main thread, the two timer threads and the time stamp counter.

    Inside `createResponse` the main thread looks at the outside world four times; in between, the
    counter runs on, `TPMWatcher::update` may write the cache and `MonotonicTimer::callback` may clear
    the valid flag:

        answering ── timerRx ── devID ── timerTx ── getLastUpdated ──▶ sending / closing
                         ▲         ▲         ▲
        tick, update, callback ────┴─────────┘

    All other calls of the main thread are those of `Threads`. The counter only runs forwards. Its
    readings are then in order over the whole life of the service, whichever connections ask: a later
    response never shows an earlier time. -/

namespace NHA.Service
open Scheme Scheme.MD5 Scheme.Tlv NHA.MessageBuilder NHA.Protocol NHA.TPMWatcher NHA.MonotonicTimer
open NHA.Serving (Fd Errno)
open NHA.Threads (Process SetupCalls setupServer)
open NHA.Snapshot (ShowsDeviceID toLE64_injective)

/-- How far `createResponse` has got with its readings. -/
inductive Reading where
  | none
  | rx (timerRx : UInt64)
  | id (timerRx : UInt64) (devID : DeviceID)
  | tx (timerRx : UInt64) (devID : DeviceID) (timerTx : UInt64)

/-- The main thread, the cache with everything ever written to it, the ticks since the timer was made
    and the call of `createResponse` in progress. -/
structure State where
  process : Process
  cache : Cache
  writes : List Cache
  ticks : ℕ
  reading : Reading

/-- `getTsc`. -/
def State.tsc (s : State) : UInt64 := s.process.timer.startTsc + UInt64.ofNat s.ticks

/-- `MonotonicTimer::get`, now. -/
def State.now (s : State) : UInt64 := s.process.timer.get s.tsc

/-- One step of one thread or of the counter. -/
inductive Action where
  | tick (n : ℕ)
  | update (tpm : Tpm)
  /-- A call of the main thread other than `createResponse`, or a callback of the timer. -/
  | call (a : Threads.Action)
  | getRx
  | getDeviceID
  | getTx
  | getLastUpdated

/-- A call that is refused, or that does not want a reading, ends without looking at it. -/
def step (md5 : List UInt8 → Digest) (s : State) : Action → Option State
  | .tick n => some { s with ticks := s.ticks + n }
  | .update tpm =>
    let u := TPMWatcher.update tpm s.now s.cache
    some { s with
      cache := u.2.cache
      writes := if u.1 then s.writes ++ [u.2.cache] else s.writes }
  | .call a =>
    match a with
    | .createResponse _ => none
    | a => (Threads.step md5 s.process a).map (fun p => { s with process := p })
  | .getRx =>
    match s.process.pc, s.reading with
    | .answering _ _, .none => some { s with reading := .rx s.now }
    | _, _ => none
  | .getDeviceID =>
    match s.reading with
    | .rx timerRx => some { s with reading := .id timerRx s.cache.deviceID }
    | _ => none
  | .getTx =>
    match s.reading with
    | .id timerRx devID => some { s with reading := .tx timerRx devID s.now }
    | _ => none
  | .getLastUpdated =>
    match s.reading with
    | .tx timerRx devID timerTx =>
      (Threads.step md5 s.process
        (.createResponse ⟨timerRx, devID, timerTx, s.cache.lastUpdated⟩)).map
          (fun p => { s with process := p, reading := .none })
    | _ => none

/-- The service when `Responder::start` is entered: the timer is made, a first update has succeeded
    `ticks` later, and the server is set up. -/
def start (timer : Option Timer) (ticks : ℕ) (tpm : Tpm) (calls : SetupCalls)
    (maxConnections : Int32) (recvBuffer sendBuffer : Memory) (errno : Errno) : Option State :=
  match timer with
  | none => none
  | some timer =>
    let u := TPMWatcher.update tpm (timer.get (timer.startTsc + UInt64.ofNat ticks)) Cache.init
    if !u.1 then none
    else
      let server := setupServer calls
      if !server.1 then none
      else some ⟨Process.init timer maxConnections server.2.1 recvBuffer sendBuffer errno,
        u.2.cache, [u.2.cache], ticks, .none⟩

/-! ### What a step can do -/

/-- Everything a step can do. -/
inductive Step (md5 : List UInt8 → Digest) (s : State) : Action → State → Prop
  | tick (n : ℕ) : Step md5 s (.tick n) { s with ticks := s.ticks + n }
  | updateFailed (tpm : Tpm) : Step md5 s (.update tpm) s
  | update (tpm : Tpm) {c : Cache} (hc : c.lastUpdated = s.now) :
      Step md5 s (.update tpm) { s with cache := c, writes := s.writes ++ [c] }
  | call {a : Threads.Action} {p : Process} (hother : ∀ env, a ≠ .createResponse env)
      (hp : Threads.step md5 s.process a = some p) :
      Step md5 s (.call a) { s with process := p }
  | getRx : Step md5 s .getRx { s with reading := .rx s.now }
  | getDeviceID {timerRx : UInt64} (hr : s.reading = .rx timerRx) :
      Step md5 s .getDeviceID { s with reading := .id timerRx s.cache.deviceID }
  | getTx {timerRx : UInt64} {devID : DeviceID} (hr : s.reading = .id timerRx devID) :
      Step md5 s .getTx { s with reading := .tx timerRx devID s.now }
  | getLastUpdated {timerRx timerTx : UInt64} {devID : DeviceID} {p : Process}
      (hr : s.reading = .tx timerRx devID timerTx)
      (hp : Threads.step md5 s.process
        (.createResponse ⟨timerRx, devID, timerTx, s.cache.lastUpdated⟩) = some p) :
      Step md5 s .getLastUpdated { s with process := p, reading := .none }

section
variable {md5 : List UInt8 → Digest} {s s' : State}

theorem step_update {tpm : Tpm} (h : step md5 s (.update tpm) = some s') :
    Step md5 s (.update tpm) s' := by
  obtain rfl := Option.some.inj h
  rcases update_cases tpm s.now s.cache with ⟨hfail, hcache⟩ | ⟨hok, hcache⟩
  · simp only [hfail, hcache, Bool.false_eq_true, if_false]
    exact .updateFailed tpm
  · simp only [hok, if_true]
    exact .update tpm (by rw [hcache])

theorem step_call {a : Threads.Action} (h : step md5 s (.call a) = some s') :
    Step md5 s (.call a) s' := by
  unfold step at h
  dsimp only at h
  split at h
  · exact absurd h (by simp)
  · rename_i hother
    obtain ⟨p, hp, rfl⟩ := Option.map_eq_some_iff.mp h
    exact .call hother hp

theorem step_getRx (h : step md5 s .getRx = some s') : Step md5 s .getRx s' := by
  rw [step] at h
  split at h
  · obtain rfl := Option.some.inj h
    exact .getRx
  · exact absurd h (by simp)

theorem step_getDeviceID (h : step md5 s .getDeviceID = some s') : Step md5 s .getDeviceID s' := by
  rw [step] at h
  split at h
  · rename_i hr
    obtain rfl := Option.some.inj h
    exact .getDeviceID hr
  · exact absurd h (by simp)

theorem step_getTx (h : step md5 s .getTx = some s') : Step md5 s .getTx s' := by
  rw [step] at h
  split at h
  · rename_i hr
    obtain rfl := Option.some.inj h
    exact .getTx hr
  · exact absurd h (by simp)

theorem step_getLastUpdated (h : step md5 s .getLastUpdated = some s') :
    Step md5 s .getLastUpdated s' := by
  rw [step] at h
  split at h
  · rename_i hr
    obtain ⟨p, hp, rfl⟩ := Option.map_eq_some_iff.mp h
    exact .getLastUpdated hr hp
  · exact absurd h (by simp)

/-- Nothing else happens. -/
theorem step_cases {a : Action} (h : step md5 s a = some s') : Step md5 s a s' := by
  cases a with
  | tick n =>
    obtain rfl := Option.some.inj h
    exact .tick n
  | update tpm => exact step_update h
  | call a => exact step_call h
  | getRx => exact step_getRx h
  | getDeviceID => exact step_getDeviceID h
  | getTx => exact step_getTx h
  | getLastUpdated => exact step_getLastUpdated h

end

/-! ### The main thread of the service -/

/-- `recv` gives at most as many bytes as it was asked for. -/
def Bounded (s : State) : Action → Prop
  | .call a => Threads.Bounded s.process a
  | _ => True

instance (s : State) : ∀ a, Decidable (Bounded s a)
  | .call a => inferInstanceAs (Decidable (Threads.Bounded s.process a))
  | .tick _ | .update _ | .getRx | .getDeviceID | .getTx | .getLastUpdated => isTrue trivial

/-- Seen from the main thread, a run of the service is a run of `Threads`. -/
theorem run_process {md5 : List UInt8 → Digest} (actions : List Action) {s s' : State}
    (hbounded : Machine.Along (step md5) Bounded s actions)
    (h : Machine.run (step md5) s actions = some s') :
    ∃ calls, Machine.Along (Threads.step md5) Threads.Bounded s.process calls ∧
      Machine.run (Threads.step md5) s.process calls = some s'.process := by
  refine Machine.run_projects State.process ?_ actions hbounded h
  intro s a s' hb hstep
  cases step_cases hstep with
  | call hother hp => exact Or.inr ⟨_, hb, hp⟩
  | getLastUpdated hr hp => exact Or.inr ⟨.createResponse _, trivial, hp⟩
  | _ => exact Or.inl rfl

/-- The readings of the calls of `createResponse`, in their order. -/
def readings (trace : List Serving.Event) : List Readings :=
  trace.filterMap (fun
    | .createResponse _ env _ _ => some env
    | _ => none)

theorem readings_append (t t' : List Serving.Event) :
    readings (t ++ t') = readings t ++ readings t' := List.filterMap_append

/-- The readings a step takes. -/
def readBy : Threads.Action → List Readings
  | .createResponse env => [env]
  | _ => []

theorem readBy_other {a : Threads.Action} (h : ∀ env, a ≠ .createResponse env) : readBy a = [] := by
  cases a with
  | createResponse env => exact absurd rfl (h env)
  | _ => rfl

theorem callback_clock (t : Timer) (time tsc : UInt64) :
    (t.callback time tsc).startTsc = t.startTsc ∧ (t.callback time tsc).get = t.get := by
  rw [callback_eq]
  exact ⟨rfl, rfl⟩

/-- What a step of the main thread reads, and that no step touches the conversion of the timer. -/
theorem process_step {md5 : List UInt8 → Digest} {p p' : Process} {a : Threads.Action}
    (h : Threads.step md5 p a = some p') :
    readings p'.trace = readings p.trace ++ readBy a ∧
      p'.timer.startTsc = p.timer.startTsc ∧ p'.timer.get = p.timer.get := by
  cases Threads.step_cases h with
  | callback time tsc =>
    exact ⟨(List.append_nil _).symm, callback_clock p.timer time tsc⟩
  | leave =>
    rw [Threads.stop_trace, Threads.stop_timer]
    exact ⟨readings_append _ _, rfl, rfl⟩
  | stopOne =>
    rw [Threads.stop_trace, Threads.stop_timer]
    exact ⟨readings_append _ _, rfl, rfl⟩
  | _ => exact ⟨readings_append _ _, rfl, rfl⟩

end NHA.Service
