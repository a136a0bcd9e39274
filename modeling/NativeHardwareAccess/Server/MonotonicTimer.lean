import NativeHardwareAccess.Schemes.FixedPoint

/-! `MonotonicTimer` (monotonictimer.cpp): nanoseconds from the time stamp counter.

    The kernel reports the TSC frequency as a pair `(time_mult, time_shift)`: one tick lasts
    `time_mult / 2^time_shift` nanoseconds. The constructor turns it into a frequency in MHz and that
    into a multiplier scaled by `2^32`; `get` multiplies the ticks since the start by it and shifts
    back. A callback compares the frequency with the operating system's clock and invalidates the
    timer when they drift apart. Doubles are read as exact rationals. -/

namespace NHA.MonotonicTimer
open Scheme.FixedPoint

/-- The fixed-point shift. -/
def shift : ℕ := 32

/-- What `cpuid` reports: the largest extended leaf, and `edx` of the two leaves that are asked for
    (`none` when the leaf is not there). -/
structure Cpuid where
  maxExtended : ℕ
  extendedEdx : Option ℕ
  powerEdx : Option ℕ

/-- `checkTsc`: RDTSCP and an invariant TSC are available. -/
def checkTsc (c : Cpuid) : Bool :=
  !(c.maxExtended < 0x80000007) && (c.extendedEdx.map (·.testBit 27)).getD false &&
    (c.powerEdx.map (·.testBit 8)).getD false

/-- The two fields of the perf page that are read. -/
structure PerfPage where
  timeMult : UInt32
  timeShift : UInt16

/-- `readFrequency`: the TSC frequency in MHz, 0 when the page cannot be read or is not credible. -/
def readFrequency (page : Option PerfPage) : ℚ :=
  match page with
  | none => 0
  | some page =>
    if page.timeMult.toNat > 0 then
      1000 * ((1 <<< page.timeShift.toNat) % 2 ^ 64 : ℕ) / page.timeMult.toNat
    else 0

structure Timer where
  valid : Bool
  deviationThreshold : ℚ
  frequency : ℚ
  nsPerTickMultiplier : UInt64
  startTime : UInt64
  startTsc : UInt64

/-- The constructor, given what `getTime` and `getTsc` read; it throws when the TSC is not suitable
    or its frequency is unknown. -/
def make (cpuid : Cpuid) (page : Option PerfPage) (deviationThreshold : ℚ)
    (startTime startTsc : UInt64) : Option Timer :=
  if !checkTsc cpuid then none
  else if readFrequency page > 0 then
    some {
      valid := true
      deviationThreshold := deviationThreshold
      frequency := readFrequency page
      nsPerTickMultiplier := UInt64.ofNat ⌊((1000 <<< shift : ℕ) : ℚ) / readFrequency page⌋₊
      startTime := startTime
      startTsc := startTsc }
  else none

/-- `get` at a TSC reading. The difference of the readings is taken modulo `2^64`, the product in
    128 bits. -/
def Timer.get (t : Timer) (tsc : UInt64) : UInt64 :=
  UInt64.ofNat (((tsc - t.startTsc).toNat * t.nsPerTickMultiplier.toNat % 2 ^ 128) >>> shift)

/-- The relative deviation of the frequency measured by the two clocks. -/
def Timer.deviation (t : Timer) (time tsc : UInt64) : ℚ :=
  let frequency := 1000 * ((tsc - t.startTsc).toNat : ℚ) / (time - t.startTime).toNat
  |t.frequency - frequency| / t.frequency

/-- `callback`: invalidate the timer when no time has passed or the clocks have drifted apart. -/
def Timer.callback (t : Timer) (time tsc : UInt64) : Timer :=
  if time = t.startTime then { t with valid := false }
  else if t.deviation time tsc ≥ t.deviationThreshold then { t with valid := false }
  else t

/-- Any number of callbacks, each with the pair of clock readings it sees. -/
def Timer.callbacks (t : Timer) (history : List (UInt64 × UInt64)) : Timer :=
  history.foldl (fun t c => t.callback c.1 c.2) t

/-! ### The constructed timer -/

section
variable {cpuid : Cpuid} {page : PerfPage} {deviationThreshold : ℚ} {startTime startTsc : UInt64}
  {t : Timer}

theorem timeMult_pos (hmult : page.timeMult ≠ 0) : 0 < page.timeMult.toNat :=
  Nat.pos_of_ne_zero fun h => hmult (UInt32.toNat_inj.mp h)

theorem readFrequency_eq (hmult : page.timeMult ≠ 0) (hshift : page.timeShift.toNat ≤ 63) :
    readFrequency (some page) = 1000 * 2 ^ page.timeShift.toNat / page.timeMult.toNat := by
  have hpos : page.timeMult.toNat > 0 := timeMult_pos hmult
  have hlt : 2 ^ page.timeShift.toNat < 2 ^ 64 := Nat.pow_lt_pow_right (by omega) (by omega)
  rw [readFrequency]
  simp only [if_pos hpos, Nat.one_shiftLeft, Nat.mod_eq_of_lt hlt]
  push_cast
  ring

/-- What the constructor stores, for a page the kernel can report. -/
structure Made (page : PerfPage) (deviationThreshold : ℚ) (startTime startTsc : UInt64)
    (t : Timer) : Prop where
  valid : t.valid = true
  threshold : t.deviationThreshold = deviationThreshold
  frequency : t.frequency = 1000 * 2 ^ page.timeShift.toNat / page.timeMult.toNat
  frequency_pos : 0 < t.frequency
  stored : t.nsPerTickMultiplier.toNat = multiplier shift (1000 / t.frequency)
  startTime : t.startTime = startTime
  startTsc : t.startTsc = startTsc

theorem made_of_make (hmult : page.timeMult ≠ 0) (hshift : page.timeShift.toNat ≤ 63)
    (h : make cpuid (some page) deviationThreshold startTime startTsc = some t) :
    Made page deviationThreshold startTime startTsc t := by
  rw [make] at h
  split_ifs at h with _ hpos
  have hfreq := readFrequency_eq hmult hshift
  have hmultPos : (0 : ℚ) < page.timeMult.toNat := Nat.cast_pos.mpr (timeMult_pos hmult)
  have hrate : (1000 : ℚ) / readFrequency (some page) * 2 ^ shift < 2 ^ 64 := by
    have hle : (page.timeMult.toNat : ℚ) < 2 ^ 32 := by exact_mod_cast page.timeMult.toNat_lt
    have hone : (1 : ℚ) ≤ 2 ^ page.timeShift.toNat := one_le_pow₀ (by norm_num)
    rw [hfreq, shift]
    calc (1000 : ℚ) / (1000 * 2 ^ page.timeShift.toNat / page.timeMult.toNat) * (2 : ℚ) ^ 32
        = (page.timeMult.toNat : ℚ) * 2 ^ 32 / 2 ^ page.timeShift.toNat := by field_simp
      _ ≤ (page.timeMult.toNat : ℚ) * 2 ^ 32 := div_le_self (by positivity) hone
      _ < 2 ^ 32 * 2 ^ 32 := mul_lt_mul_of_pos_right hle (by positivity)
      _ = 2 ^ 64 := by norm_num
  have hfloor : ((1000 <<< shift : ℕ) : ℚ) / readFrequency (some page) =
      1000 / readFrequency (some page) * 2 ^ shift := by
    rw [Nat.shiftLeft_eq]
    push_cast
    ring
  obtain rfl := Option.some.inj h
  refine ⟨rfl, rfl, hfreq, hpos, ?_, rfl, rfl⟩
  rw [UInt64.toNat_ofNat', hfloor, multiplier]
  refine Nat.mod_eq_of_lt ?_
  rw [Nat.floor_lt (by positivity)]
  exact_mod_cast hrate

/-- While the elapsed nanoseconds fit in 64 bits, `get` is the scaled tick count. -/
theorem Made.get_eq (h : Made page deviationThreshold startTime startTsc t) (tsc : UInt64)
    (hns : ((tsc - startTsc).toNat : ℚ) * (1000 / t.frequency) < 2 ^ 64) :
    (t.get tsc).toNat =
      scale shift (multiplier shift (1000 / t.frequency)) (tsc - startTsc).toNat := by
  have hd : (tsc - startTsc).toNat < 2 ^ 64 := (tsc - startTsc).toNat_lt
  have hm : t.nsPerTickMultiplier.toNat < 2 ^ 64 := t.nsPerTickMultiplier.toNat_lt
  have hprod : (tsc - startTsc).toNat * t.nsPerTickMultiplier.toNat < 2 ^ 128 := by
    calc _ < 2 ^ 64 * 2 ^ 64 := Nat.mul_lt_mul'' hd hm
      _ = 2 ^ 128 := by norm_num
  have hle := scale_le (k := shift) (d := (tsc - startTsc).toNat)
    (div_pos (by norm_num : (0 : ℚ) < 1000) h.frequency_pos).le
  have hlt : scale shift (multiplier shift (1000 / t.frequency)) (tsc - startTsc).toNat < 2 ^ 64 := by
    exact_mod_cast lt_of_le_of_lt hle hns
  rw [Timer.get, h.startTsc, UInt64.toNat_ofNat', Nat.mod_eq_of_lt hprod, h.stored]
  exact Nat.mod_eq_of_lt hlt

/-- A reading `d` ticks after the start, when the counter may have wrapped in between. -/
theorem toNat_elapsed {d : ℕ} (hd : d < 2 ^ 64) :
    (startTsc + UInt64.ofNat d - startTsc).toNat = d := by
  have hcancel : startTsc + UInt64.ofNat d - startTsc = UInt64.ofNat d := by
    rw [UInt64.add_comm, UInt64.add_sub_cancel]
  rw [hcancel, UInt64.toNat_ofNat', Nat.mod_eq_of_lt hd]

/-- Up to 1000 MHz a tick lasts a nanosecond or more. -/
theorem Made.frequency_le_iff (h : Made page deviationThreshold startTime startTsc t)
    (hmult : page.timeMult ≠ 0) :
    t.frequency ≤ 1000 ↔ 2 ^ page.timeShift.toNat ≤ page.timeMult.toNat := by
  have hpos : (0 : ℚ) < page.timeMult.toNat := Nat.cast_pos.mpr (timeMult_pos hmult)
  rw [h.frequency, div_le_iff₀ hpos, mul_le_mul_iff_of_pos_left (by norm_num)]
  exact_mod_cast Iff.rfl

/-- The stored multiplier reaches one nanosecond per tick exactly up to 1000 MHz. -/
theorem Made.multiplier_ge_iff (h : Made page deviationThreshold startTime startTsc t) :
    2 ^ shift ≤ multiplier shift (1000 / t.frequency) ↔ t.frequency ≤ 1000 := by
  have hpos := h.frequency_pos
  have hpow : (0 : ℚ) < 2 ^ shift := by positivity
  rw [multiplier, Nat.le_floor_iff (by positivity)]
  push_cast
  rw [le_mul_iff_one_le_left hpow, one_le_div hpos]

end

/-! ### Strictly increasing time -/

/-- CORRECT (exact condition): the timer is strictly increasing over all readings whose nanoseconds
    fit in 64 bits exactly when a tick lasts a nanosecond or more (a TSC of 1000 MHz or less). -/
theorem get_strictMono_iff (cpuid : Cpuid) (page : PerfPage) (deviationThreshold : ℚ)
    (startTime startTsc : UInt64) (t : Timer) (hmult : page.timeMult ≠ 0)
    (hshift : page.timeShift.toNat ≤ 32)
    (hmake : make cpuid (some page) deviationThreshold startTime startTsc = some t) :
    (∀ d₁ d₂ : ℕ, d₁ < d₂ → (d₂ : ℚ) * (1000 / t.frequency) < 2 ^ 64 →
      t.get (startTsc + UInt64.ofNat d₁) < t.get (startTsc + UInt64.ofNat d₂)) ↔
    2 ^ page.timeShift.toNat ≤ page.timeMult.toNat := by
  have hmade := made_of_make hmult (by omega) hmake
  rw [← hmade.frequency_le_iff hmult]
  have hpos := hmade.frequency_pos
  have hrate : (0 : ℚ) < 1000 / t.frequency := by positivity
  constructor
  · -- above 1000 MHz the first tick is already lost
    intro hmono
    by_contra hfreq
    have hlow : multiplier shift (1000 / t.frequency) < 2 ^ shift := by
      rw [← not_le, hmade.multiplier_ge_iff]
      exact hfreq
    have hone : (1000 : ℚ) / t.frequency < 2 ^ 64 := by
      calc (1000 : ℚ) / t.frequency
          < 1 := (div_lt_one hpos).mpr (not_le.mp hfreq)
        _ ≤ 2 ^ 64 := by norm_num
    have hlt := hmono 0 1 (by omega) (by simpa using hone)
    rw [UInt64.lt_iff_toNat_lt, hmade.get_eq _ (by rw [toNat_elapsed (by omega)]; simp),
      hmade.get_eq _ (by rw [toNat_elapsed (by omega)]; simpa using hone),
      toNat_elapsed (by omega), toNat_elapsed (by omega), scale_one_eq_zero hlow] at hlt
    exact absurd hlt (Nat.not_lt_zero _)
  · intro hfreq d₁ d₂ hd hns
    have hone : (1 : ℚ) ≤ 1000 / t.frequency := by rwa [one_le_div hpos]
    -- at a nanosecond or more per tick the ticks fit in 64 bits because the nanoseconds do
    have hd₂ : d₂ < 2 ^ 64 := by
      have hle : (d₂ : ℚ) ≤ d₂ * (1000 / t.frequency) := le_mul_of_one_le_right (by positivity) hone
      exact_mod_cast lt_of_le_of_lt hle hns
    have hns₁ : (d₁ : ℚ) * (1000 / t.frequency) < 2 ^ 64 := by
      have hcast : (d₁ : ℚ) ≤ d₂ := by exact_mod_cast hd.le
      exact lt_of_le_of_lt (mul_le_mul_of_nonneg_right hcast hrate.le) hns
    rw [UInt64.lt_iff_toNat_lt, hmade.get_eq _ (by rw [toNat_elapsed (by omega)]; exact hns₁),
      hmade.get_eq _ (by rw [toNat_elapsed hd₂]; exact hns), toNat_elapsed (by omega),
      toNat_elapsed hd₂]
    exact scale_strict (hmade.multiplier_ge_iff.mpr hfreq) hd

/-- A processor with RDTSCP and an invariant TSC. -/
def sampleCpuid : Cpuid :=
  { maxExtended := 0x80000008, extendedEdx := some (2 ^ 27), powerEdx := some (2 ^ 8) }

theorem make_sample (page : PerfPage) (deviationThreshold : ℚ) (startTime startTsc : UInt64)
    (hpos : 0 < readFrequency (some page)) :
    make sampleCpuid (some page) deviationThreshold startTime startTsc = some {
      valid := true
      deviationThreshold := deviationThreshold
      frequency := readFrequency (some page)
      nsPerTickMultiplier := UInt64.ofNat ⌊((1000 <<< shift : ℕ) : ℚ) / readFrequency (some page)⌋₊
      startTime := startTime
      startTsc := startTsc } := by
  have hcheck : checkTsc sampleCpuid = true := by decide
  simp [make, hcheck, hpos]

/-- 500 MHz: two nanoseconds per tick. -/
def slowPage : PerfPage := { timeMult := 2048, timeShift := 10 }

example : readFrequency (some slowPage) = 500 := by decide +kernel

theorem get_strictMono_slow :
    ∃ t, make sampleCpuid (some slowPage) (1 / 10) 5 7 = some t ∧
      ∀ d₁ d₂ : ℕ, d₁ < d₂ → (d₂ : ℚ) * (1000 / t.frequency) < 2 ^ 64 →
        t.get (7 + UInt64.ofNat d₁) < t.get (7 + UInt64.ofNat d₂) := by
  have hmake := make_sample slowPage (1 / 10) 5 7 (by decide +kernel)
  refine ⟨_, hmake, ?_⟩
  refine (get_strictMono_iff sampleCpuid slowPage (1 / 10) 5 7 _ (by decide) (by decide) hmake).mpr ?_
  decide +kernel

/-- 2000 MHz: half a nanosecond per tick. -/
def fastPage : PerfPage := { timeMult := 512, timeShift := 10 }

example : readFrequency (some fastPage) = 2000 := by decide +kernel

/-- At 2000 MHz the first two ticks after the start carry the same timestamp. -/
theorem fastPage_repeats :
    ∃ t, make sampleCpuid (some fastPage) (1 / 10) 5 7 = some t ∧
      (1 : ℚ) * (1000 / t.frequency) < 2 ^ 64 ∧
      ¬ t.get (7 + UInt64.ofNat 0) < t.get (7 + UInt64.ofNat 1) := by
  have hmake := make_sample fastPage (1 / 10) 5 7 (by decide +kernel)
  exact ⟨_, hmake, by decide +kernel, by decide +kernel⟩

/-! ### The kernel's conversion -/

section
variable {page : PerfPage} {deviationThreshold : ℚ} {startTime startTsc : UInt64} {t : Timer}

/-- The nanoseconds of `d` ticks by the kernel's formula. -/
def kernelNs (page : PerfPage) (d : ℕ) : ℚ := d * page.timeMult.toNat / 2 ^ page.timeShift.toNat

/-- The detour over the frequency cancels. -/
theorem Made.rate (h : Made page deviationThreshold startTime startTsc t) (d : ℕ) :
    (d : ℚ) * (1000 / t.frequency) = kernelNs page d := by
  have hpos := h.frequency_pos
  rw [h.frequency] at hpos ⊢
  have hmult : (page.timeMult.toNat : ℚ) ≠ 0 := by
    intro hzero
    rw [hzero, div_zero] at hpos
    exact lt_irrefl _ hpos
  rw [kernelNs]
  field_simp

/-- `get` after `d` ticks, in terms of the scaled count. -/
theorem Made.get_elapsed (h : Made page deviationThreshold startTime startTsc t) {d : ℕ}
    (hd : d < 2 ^ 64) (hns : kernelNs page d < 2 ^ 64) :
    (t.get (startTsc + UInt64.ofNat d)).toNat =
      scale shift (multiplier shift (1000 / t.frequency)) d := by
  have hget := h.get_eq (startTsc + UInt64.ofNat d)
  rw [toNat_elapsed hd] at hget
  exact hget (by rw [h.rate]; exact hns)

/-- Up to a shift of 32 nothing is lost in the multiplier. -/
theorem Made.get_exact (h : Made page deviationThreshold startTime startTsc t) {d : ℕ}
    (hd : d < 2 ^ 64) (hns : kernelNs page d < 2 ^ 64) (hshift : page.timeShift.toNat ≤ 32) :
    (t.get (startTsc + UInt64.ofNat d)).toNat = ⌊kernelNs page d⌋₊ := by
  have hstored : (1000 / t.frequency) * 2 ^ shift =
      ((page.timeMult.toNat * 2 ^ (32 - page.timeShift.toNat) : ℕ) : ℚ) := by
    have hone := h.rate 1
    have hsplit : (2 : ℚ) ^ shift = 2 ^ (32 - page.timeShift.toNat) * 2 ^ page.timeShift.toNat := by
      rw [shift, ← pow_add, Nat.sub_add_cancel hshift]
    rw [Nat.cast_one, one_mul, kernelNs, Nat.cast_one, one_mul] at hone
    rw [hone, hsplit]
    push_cast
    field_simp
  rw [h.get_elapsed hd hns, scale_exact hstored, h.rate]

end

/-- CORRECT: the conversion is the kernel's. For every multiplier and shift the kernel can report, the
    stored multiplier fits in 64 bits and the product in 128; while the kernel's result fits in 64
    bits, `get` is its floor up to a shift of 32, and otherwise falls short of it by less than
    `1 + d / 2^32`; and more ticks never give an earlier time. -/
theorem get_kernel_conversion (cpuid : Cpuid) (page : PerfPage) (deviationThreshold : ℚ)
    (startTime startTsc : UInt64) (t : Timer) (hmult : page.timeMult ≠ 0)
    (hshift : page.timeShift.toNat ≤ 63)
    (hmake : make cpuid (some page) deviationThreshold startTime startTsc = some t) :
    (⌊((1000 <<< shift : ℕ) : ℚ) / readFrequency (some page)⌋₊ < 2 ^ 64 ∧
      t.nsPerTickMultiplier.toNat = ⌊((1000 <<< shift : ℕ) : ℚ) / readFrequency (some page)⌋₊) ∧
    (∀ d : ℕ, d < 2 ^ 64 → d * t.nsPerTickMultiplier.toNat < 2 ^ 128) ∧
    (∀ d : ℕ, d < 2 ^ 64 → kernelNs page d < 2 ^ 64 →
      (page.timeShift.toNat ≤ 32 →
        (t.get (startTsc + UInt64.ofNat d)).toNat = ⌊kernelNs page d⌋₊) ∧
      (32 < page.timeShift.toNat →
        ((t.get (startTsc + UInt64.ofNat d)).toNat : ℚ) ≤ kernelNs page d ∧
        kernelNs page d - (t.get (startTsc + UInt64.ofNat d)).toNat < 1 + d / 2 ^ 32)) ∧
    (∀ d d' : ℕ, d ≤ d' → d' < 2 ^ 64 → kernelNs page d' < 2 ^ 64 →
      t.get (startTsc + UInt64.ofNat d) ≤ t.get (startTsc + UInt64.ofNat d')) := by
  have hmade := made_of_make hmult hshift hmake
  have hrate : (0 : ℚ) ≤ 1000 / t.frequency := (div_pos (by norm_num) hmade.frequency_pos).le
  have hm : t.nsPerTickMultiplier.toNat < 2 ^ 64 := t.nsPerTickMultiplier.toNat_lt
  refine ⟨?_, ?_, ?_, ?_⟩
  · have hquot : ((1000 <<< shift : ℕ) : ℚ) / readFrequency (some page) =
        1000 / t.frequency * 2 ^ shift := by
      rw [readFrequency_eq hmult hshift, ← hmade.frequency, Nat.shiftLeft_eq]
      push_cast
      ring
    have hstored : t.nsPerTickMultiplier.toNat =
        ⌊((1000 <<< shift : ℕ) : ℚ) / readFrequency (some page)⌋₊ := by
      rw [hmade.stored, multiplier, hquot]
    exact ⟨hstored ▸ hm, hstored⟩
  · intro d hd
    calc d * t.nsPerTickMultiplier.toNat < 2 ^ 64 * 2 ^ 64 := Nat.mul_lt_mul'' hd hm
      _ = 2 ^ 128 := by norm_num
  · intro d hd hns
    refine ⟨hmade.get_exact hd hns, fun _ => ?_⟩
    have hle := scale_le (k := shift) (d := d) hrate
    have hlt := lt_scale (k := shift) (d := d) (r := 1000 / t.frequency)
    rw [← hmade.get_elapsed hd hns, hmade.rate] at hle hlt
    refine ⟨hle, ?_⟩
    rw [shift] at hlt
    linarith
  · intro d d' hdd hd' hns'
    have hns : kernelNs page d < 2 ^ 64 := by
      refine lt_of_le_of_lt ?_ hns'
      rw [kernelNs, kernelNs]
      gcongr
    rw [UInt64.le_iff_toNat_le, hmade.get_elapsed (lt_of_le_of_lt hdd hd') hns,
      hmade.get_elapsed hd' hns']
    exact scale_mono shift _ hdd

/-- 1000 ticks of 2048 / 2^10 nanoseconds, over a wrap of the counter. -/
theorem get_kernel_conversion_slow :
    ∃ t, make sampleCpuid (some slowPage) (1 / 10) 5 (2 ^ 64 - 1) = some t ∧
      (t.get ((2 ^ 64 - 1) + UInt64.ofNat 1000)).toNat = 2000 := by
  have hmake := make_sample slowPage (1 / 10) 5 (2 ^ 64 - 1) (by decide +kernel)
  refine ⟨_, hmake, ?_⟩
  have hns : kernelNs slowPage 1000 = 2000 := by decide +kernel
  have hget := ((get_kernel_conversion sampleCpuid slowPage (1 / 10) 5 (2 ^ 64 - 1) _ (by decide)
    (by decide) hmake).2.2.1 1000 (by norm_num) (by rw [hns]; norm_num)).1 (by decide)
  rw [hget, hns]
  exact Nat.floor_natCast 2000

/-! ### Agreement with the operating system's clock -/

/-- What a callback requires of the two clocks: time has passed, and the measured frequency is close
    to the reported one. -/
def Timer.Agrees (t : Timer) (time tsc : UInt64) : Prop :=
  time ≠ t.startTime ∧ t.deviation time tsc < t.deviationThreshold

instance (t : Timer) (time tsc : UInt64) : Decidable (t.Agrees time tsc) :=
  inferInstanceAs (Decidable (_ ∧ _))

theorem callback_eq (t : Timer) (time tsc : UInt64) :
    t.callback time tsc = { t with valid := t.valid && decide (t.Agrees time tsc) } := by
  unfold Timer.callback Timer.Agrees
  split_ifs with htime hdev
  · simp [htime]
  · simp [not_lt.mpr hdev]
  · simp [htime, not_le.mp hdev]

@[simp] theorem callbacks_nil (t : Timer) : t.callbacks [] = t := rfl

@[simp] theorem callbacks_cons (t : Timer) (c : UInt64 × UInt64) (history : List (UInt64 × UInt64)) :
    t.callbacks (c :: history) = (t.callback c.1 c.2).callbacks history := rfl

/-- Callbacks change nothing but the valid flag, and that only downwards: the timer is valid after a
    run of them exactly when it was before and every one of them saw the clocks agree. -/
theorem callbacks_eq (t : Timer) (history : List (UInt64 × UInt64)) :
    t.callbacks history =
      { t with valid := t.valid && decide (∀ c ∈ history, t.Agrees c.1 c.2) } := by
  induction history generalizing t with
  | nil => simp
  | cons c history ih =>
    rw [callbacks_cons, ih, callback_eq]
    simp only [List.forall_mem_cons, Bool.decide_and, Bool.and_assoc]
    rfl

section
variable {page : PerfPage} {deviationThreshold : ℚ} {startTime startTsc : UInt64} {t : Timer}

/-- A deviation below the threshold bounds the distance of the exact nanoseconds from the clock. -/
theorem abs_sub_lt_of_deviation {f d T h : ℚ} (hf : 0 < f) (hT : 0 < T)
    (hdev : |f - 1000 * d / T| / f < h) : |d * (1000 / f) - T| < h * T := by
  have hscale : |d * (1000 / f) - T| = |f - 1000 * d / T| / f * T := by
    have hfac : d * (1000 / f) - T = -((f - 1000 * d / T) * (T / f)) := by field_simp; ring
    rw [hfac, abs_neg, abs_mul, abs_of_pos (div_pos hT hf)]
    ring
  rw [hscale]
  exact mul_lt_mul_of_pos_right hdev hT

/-- Served time is within the rounding error of the exact nanoseconds. -/
theorem Made.abs_get_sub_lt (h : Made page deviationThreshold startTime startTsc t) (tsc : UInt64)
    (hns : ((tsc - startTsc).toNat : ℚ) * (1000 / t.frequency) < 2 ^ 64) :
    |((t.get tsc).toNat : ℚ) - (tsc - startTsc).toNat * (1000 / t.frequency)| <
      1 + ((tsc - startTsc).toNat : ℚ) / 2 ^ 32 := by
  have hrate : (0 : ℚ) ≤ 1000 / t.frequency := (div_pos (by norm_num) h.frequency_pos).le
  have hle := scale_le (k := shift) (d := (tsc - startTsc).toNat) hrate
  have hlt := lt_scale (k := shift) (d := (tsc - startTsc).toNat) (r := 1000 / t.frequency)
  rw [h.get_eq tsc hns, abs_sub_comm, abs_of_nonneg (by linarith)]
  simp only [shift] at hlt ⊢
  linarith

end

/-- CORRECT: after any history of callbacks, a callback that leaves the timer valid has seen served
    time within the threshold of the clock; one that sees no time pass, or too large a deviation,
    invalidates the timer. -/
theorem callback_agrees (cpuid : Cpuid) (page : PerfPage) (h : ℚ) (startTime startTsc : UInt64)
    (t : Timer) (hmult : page.timeMult ≠ 0) (hshift : page.timeShift.toNat ≤ 63)
    (hmake : make cpuid (some page) h startTime startTsc = some t)
    (history : List (UInt64 × UInt64)) (time tsc : UInt64) (hclock : startTime ≤ time) :
    let f : ℚ := 1000 * 2 ^ page.timeShift.toNat / page.timeMult.toNat
    let T : ℚ := (time.toNat : ℚ) - startTime.toNat
    let d : ℚ := (tsc - startTsc).toNat
    let before := t.callbacks history
    let after := before.callback time tsc
    (0 < T → before.valid = true → after.valid = true → d * 1000 / f < 2 ^ 64 →
      |((after.get tsc).toNat : ℚ) - T| < h * T + 1 + d / 2 ^ 32) ∧
    (T = 0 ∨ h ≤ |f - 1000 * d / T| / f → after.valid = false) := by
  intro f T d before after
  have hmade := made_of_make hmult hshift hmake
  have hf : 0 < f := by
    have hpos := hmade.frequency_pos
    rwa [hmade.frequency] at hpos
  have hT : ((time - startTime).toNat : ℚ) = T := by
    rw [UInt64.toNat_sub_of_le _ _ hclock, Nat.cast_sub (UInt64.le_iff_toNat_le.mp hclock)]
  have hafter : after = { t with valid := before.valid && decide (time ≠ startTime ∧
      |f - 1000 * d / T| / f < h) } := by
    change before.callback time tsc = _
    rw [callback_eq]
    simp only [before, callbacks_eq, Timer.Agrees, Timer.deviation, hmade.startTime, hmade.startTsc,
      hmade.frequency, hmade.threshold, hT, f, d]
  constructor
  · intro hTpos _ hvalid hns
    rw [hafter] at hvalid ⊢
    simp only [Bool.and_eq_true, decide_eq_true_eq] at hvalid
    have hclose := abs_sub_lt_of_deviation hf hTpos hvalid.2.2
    have hround := hmade.abs_get_sub_lt tsc (by rw [hmade.frequency, ← mul_div_assoc]; exact hns)
    rw [hmade.frequency] at hround
    calc |((t.get tsc).toNat : ℚ) - T|
        ≤ |((t.get tsc).toNat : ℚ) - d * (1000 / f)| + |d * (1000 / f) - T| := abs_sub_le _ _ _
      _ < (1 + d / 2 ^ 32) + h * T := add_lt_add hround hclose
      _ = h * T + 1 + d / 2 ^ 32 := by ring
  · rintro (hzero | hdev)
    · have htime : time = startTime := by
        rw [← UInt64.toNat_inj]
        exact_mod_cast sub_eq_zero.mp hzero
      simp [hafter, htime]
    · simp [hafter, not_lt.mpr hdev]

/-- At 500 MHz, 1000 ticks in 2010 nanoseconds are within a tenth. -/
theorem callback_agrees_slow :
    ∃ t, make sampleCpuid (some slowPage) (1 / 10) 5 7 = some t ∧
      ((t.callbacks [(105, 57)]).callback 2015 1007).valid = true ∧
      |((((t.callbacks [(105, 57)]).callback 2015 1007).get 1007).toNat : ℚ) - (2015 - 5)| <
        1 / 10 * (2015 - 5) + 1 + 1000 / 2 ^ 32 := by
  have hmake := make_sample slowPage (1 / 10) 5 7 (by decide +kernel)
  refine ⟨_, hmake, by decide +kernel, ?_⟩
  exact (callback_agrees sampleCpuid slowPage (1 / 10) 5 7 _ (by decide) (by decide) hmake
    [(105, 57)] 2015 1007 (by decide)).1 (by decide +kernel) (by decide +kernel) (by decide +kernel)
    (by decide +kernel)

end NHA.MonotonicTimer
