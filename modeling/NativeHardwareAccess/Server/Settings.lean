import NativeHardwareAccess.Server.Configuration

/-! The settings of the server (main.cpp) and the intervals that reach the timers.

    Six fields are mandatory. The numbers among them go through the conversions of the standard
    library, which read the number at the start of a word and leave what follows it:

        config ── hasKey, 6 times ─▶ stoi ─▶ stol ─▶ stoll ─▶ stod ─▶ settings
                       │ missing       │ throws
                       ▼               ▼
                    failure         failure

        tpm_interval_in_ms        stol  ─▶ long      ─▶ unsigned ─▶ milliseconds ─▶ Timer::start
        tsc_check_interval_in_ms  stoll ─▶ long long ─▶ milliseconds ─────────────▶ Timer::start

    A `long` has 64 bits and an `unsigned` 32. The values of type `double` are those of `stod`, which
    stays a parameter. A failure is the message that is logged. -/

namespace NHA.Main
open Scheme.Words NHA.Configuration
open NHA.Nhac (byte bytes isspace isdigit decimal)

/-! ### Conversions -/

/-- An optional sign: whether it is a minus, and what follows it. -/
def sign : List UInt8 → Bool × List UInt8
  | [] => (false, [])
  | c :: s => if c = byte '-' then (true, s) else if c = byte '+' then (false, s) else (false, c :: s)

/-- `strtol` and `strtoll`, without their bounds: the number at the start of a text, behind
    whitespace; none when there is no digit. -/
def strtoll (s : List UInt8) : Option ℤ :=
  let s := sign (s.dropWhile isspace)
  let digits := s.2.takeWhile isdigit
  if digits = [] then none else some (if s.1 then -decimal digits else decimal digits)

/-- The conversions throw when there is no number or it does not fit. -/
def convert (bits : ℕ) (s : List UInt8) : Option ℤ :=
  (strtoll s).bind (fun n => if -2 ^ (bits - 1) ≤ n ∧ n < 2 ^ (bits - 1) then some n else none)

def stoi : List UInt8 → Option ℤ := convert 32
def stol : List UInt8 → Option ℤ := convert 64
def stoll : List UInt8 → Option ℤ := convert 64

/-- `long` to `unsigned`. -/
def toUnsigned (n : ℤ) : ℕ := (n % 2 ^ 32).toNat

/-! ### Reading the settings -/

structure Settings (δ : Type) where
  host : List UInt8
  port : List UInt8
  maxConnections : ℤ
  tpmIntervalInMS : ℤ
  tscCheckIntervalInMs : ℤ
  tscCheckDeviationThreshold : δ

/-- The mandatory fields, in the order of their test. -/
def mandatory : List String :=
  ["host", "port", "max_connections", "tpm_interval_in_ms", "tsc_check_interval_in_ms",
    "tsc_check_deviation_threshold"]

/-- One `try` block: the value of a field, converted. -/
def field {β : Type} (config : ConfigurationParser) (key : String)
    (conversion : List UInt8 → Option β) : Except String β :=
  match config.get (bytes key) with
  | .error _ => .error ("FATAL: invalid value specified for " ++ key ++ ".")
  | .ok value =>
    match conversion value with
    | none => .error ("FATAL: invalid value specified for " ++ key ++ ".")
    | some x => .ok x

variable {δ : Type} (stod : List UInt8 → Option δ)

/-- `main` up to the point where the configuration is known. -/
def readSettings (configFilename : String) (file : Option (List UInt8)) :
    Except String (Settings δ) :=
  let load := ConfigurationParser.init.load file
  if load.1 = false then
    .error ("FATAL: could not parse configuration file: " ++ configFilename)
  else
    let config := load.2
    match mandatory.find? (fun key => !config.hasKey (bytes key)) with
    | some key => .error ("FATAL: missing mandatory configuration field: " ++ key)
    | none => do
      let maxConnections ← field config "max_connections" stoi
      let tpmIntervalInMS ← field config "tpm_interval_in_ms" stol
      let tscCheckIntervalInMs ← field config "tsc_check_interval_in_ms" stoll
      let tscCheckDeviationThreshold ← field config "tsc_check_deviation_threshold" stod
      let host ← config.get (bytes "host")
      let port ← config.get (bytes "port")
      return ⟨host, port, maxConnections, tpmIntervalInMS, tscCheckIntervalInMs,
        tscCheckDeviationThreshold⟩

/-- `TPMWatcher(tpmIntervalInMS, …)` and its `start`: the milliseconds passed to `Timer::start`. -/
def Settings.tpmTimerInterval (s : Settings δ) : ℤ := toUnsigned s.tpmIntervalInMS

/-- `MonotonicTimer(milliseconds(tscCheckIntervalInMs), …)`: the milliseconds passed to
    `Timer::start`. -/
def Settings.tscTimerInterval (s : Settings δ) : ℤ := s.tscCheckIntervalInMs

/-! ### Intervals as written -/

/-- The whole word is a decimal integer. -/
def Numeral (w : List UInt8) (n : ℤ) : Prop :=
  ∃ digits, digits ≠ [] ∧ (∀ c ∈ digits, isdigit c = true) ∧
    ((w = digits ∧ n = decimal digits) ∨ (w = byte '+' :: digits ∧ n = decimal digits) ∨
      (w = byte '-' :: digits ∧ n = -decimal digits))

/-- What the parser returns for a field: the first word of its value, nothing when it is missing. -/
def wordOf (content : List UInt8) (key : String) : List UInt8 :=
  ((loaded content).configData (bytes key)).getD []

/-- When `main` has read the settings, both intervals are integers as written, and the timers are
    started with them. -/
def AsWritten (configFilename : String) (content : List UInt8) : Prop :=
  ∀ s, readSettings stod configFilename (some content) = .ok s →
    Numeral (wordOf content "tpm_interval_in_ms") s.tpmTimerInterval ∧
    Numeral (wordOf content "tsc_check_interval_in_ms") s.tscTimerInterval

/-- All fields are there, and the conversions find a number that fits at the start of each. -/
def Readable (content : List UInt8) : Prop :=
  (∀ key ∈ mandatory, (loaded content).hasKey (bytes key) = true) ∧
  (stoi (wordOf content "max_connections")).isSome = true ∧
  (stol (wordOf content "tpm_interval_in_ms")).isSome = true ∧
  (stoll (wordOf content "tsc_check_interval_in_ms")).isSome = true ∧
  (stod (wordOf content "tsc_check_deviation_threshold")).isSome = true

/-- The two words are nothing but numerals, and the first is that of a 32-bit number. -/
def Whole (content : List UInt8) : Prop :=
  (∃ n, Numeral (wordOf content "tpm_interval_in_ms") n ∧ 0 ≤ n ∧ n < 2 ^ 32) ∧
  ∃ n, Numeral (wordOf content "tsc_check_interval_in_ms") n

/-- The last line of the file that has the field has this value behind it. -/
def LastValue (content : List UInt8) (key : String) (value : List UInt8) : Prop :=
  ∃ pre line post, lines content = pre ++ line :: post ∧ Defines line (bytes key) value ∧
    ∀ later ∈ post, ∀ v, ¬ Defines later (bytes key) v

/-- The word of a field is the first one of the value in the last line that has the field. -/
theorem wordOf_of_last {content value : List UInt8} {key : String} (hkey : key ∈ mandatory)
    (h : LastValue content key value) : wordOf content key = firstWord isspace value := by
  have hcomment : ∀ key ∈ mandatory, (bytes key).head? ≠ some (byte '#') := by decide +kernel
  obtain ⟨pre, line, post, hlines, hdefines, hlast⟩ := h
  rw [wordOf, configData_of_last (hcomment key hkey) hlines hdefines hlast]
  rfl

/-- The condition on the two intervals in terms of the lines of the file. -/
theorem whole_iff_of_last {content tpm tsc : List UInt8}
    (htpm : LastValue content "tpm_interval_in_ms" tpm)
    (htsc : LastValue content "tsc_check_interval_in_ms" tsc) :
    Whole content ↔ (∃ n, Numeral (firstWord isspace tpm) n ∧ 0 ≤ n ∧ n < 2 ^ 32) ∧
      ∃ n, Numeral (firstWord isspace tsc) n := by
  rw [Whole, wordOf_of_last (by simp [mandatory]) htpm, wordOf_of_last (by simp [mandatory]) htsc]

/-! ### Reading -/

theorem isspace_of_isdigit {c : UInt8} (h : isdigit c = true) : isspace c = false := by
  revert c
  decide +kernel

/-- A sign and digits up to the end are read as the number they are. -/
theorem strtoll_numeral {w : List UInt8} {n : ℤ} (h : Numeral w n) : strtoll w = some n := by
  obtain ⟨digits, hne, hdigits, h⟩ := h
  have hall : digits.takeWhile isdigit = digits := List.takeWhile_eq_self_iff.mpr hdigits
  obtain ⟨d, t, rfl⟩ := List.exists_cons_of_ne_nil hne
  have hd := hdigits d List.mem_cons_self
  have hspace : ∀ c s, isspace c = false → List.dropWhile isspace (c :: s) = c :: s := by
    intro c s hc
    exact List.dropWhile_cons_of_neg (by simp [hc])
  rcases h with ⟨rfl, rfl⟩ | ⟨rfl, rfl⟩ | ⟨rfl, rfl⟩
  · have hsign : sign (d :: t) = (false, d :: t) := by
      have hminus : d ≠ byte '-' := by
        rintro rfl
        exact absurd hd (by decide)
      have hplus : d ≠ byte '+' := by
        rintro rfl
        exact absurd hd (by decide)
      rw [sign, if_neg hminus, if_neg hplus]
    rw [strtoll, hspace d t (isspace_of_isdigit hd), hsign, hall]
    rfl
  · have hsign : sign (byte '+' :: d :: t) = (false, d :: t) := rfl
    rw [strtoll, hspace _ _ (by decide), hsign, hall]
    rfl
  · have hsign : sign (byte '-' :: d :: t) = (true, d :: t) := rfl
    rw [strtoll, hspace _ _ (by decide), hsign, hall]
    rfl

theorem convert_eq_some {bits : ℕ} {w : List UInt8} {n : ℤ} (h : convert bits w = some n) :
    strtoll w = some n := by
  rw [convert, Option.bind_eq_some_iff] at h
  obtain ⟨m, hm, h⟩ := h
  obtain ⟨-, h⟩ := Option.ite_none_right_eq_some.mp h
  rw [hm, Option.some.inj h]

theorem bind_eq_ok {α β : Type} {x : Except String α} {f : α → Except String β} {b : β} :
    (x >>= f) = .ok b ↔ ∃ a, x = .ok a ∧ f a = .ok b := by
  cases x with
  | error e => simp [bind, Except.bind]
  | ok a => simp [bind, Except.bind]

section
variable {content : List UInt8} {key : String}

theorem get_wordOf (h : (loaded content).hasKey (bytes key) = true) :
    (loaded content).get (bytes key) = .ok (wordOf content key) := by
  obtain ⟨w, hw⟩ := Option.isSome_iff_exists.mp h
  rw [ConfigurationParser.get, wordOf, hw]
  rfl

theorem field_eq_ok {β : Type} {conversion : List UInt8 → Option β} {x : β}
    (h : (loaded content).hasKey (bytes key) = true) :
    field (loaded content) key conversion = .ok x ↔ conversion (wordOf content key) = some x := by
  rw [field, get_wordOf h]
  dsimp only
  cases conversion (wordOf content key) with
  | none => simp
  | some y => simp

end

/-- The settings that are read, field by field. -/
theorem readSettings_eq_ok {configFilename : String} {content : List UInt8} {s : Settings δ} :
    readSettings stod configFilename (some content) = .ok s ↔
      (∀ key ∈ mandatory, (loaded content).hasKey (bytes key) = true) ∧
      stoi (wordOf content "max_connections") = some s.maxConnections ∧
      stol (wordOf content "tpm_interval_in_ms") = some s.tpmIntervalInMS ∧
      stoll (wordOf content "tsc_check_interval_in_ms") = some s.tscCheckIntervalInMs ∧
      stod (wordOf content "tsc_check_deviation_threshold") = some s.tscCheckDeviationThreshold ∧
      wordOf content "host" = s.host ∧ wordOf content "port" = s.port := by
  rw [readSettings]
  have hload : ConfigurationParser.init.load (some content) = (true, loaded content) := rfl
  rw [hload]
  dsimp only
  rw [if_neg (by simp)]
  cases hfind : mandatory.find? (fun key => !(loaded content).hasKey (bytes key)) with
  | some key =>
    have hmem := List.mem_of_find?_eq_some hfind
    have hmissing := List.find?_some hfind
    refine iff_of_false (by simp) (fun h => ?_)
    rw [h.1 key hmem] at hmissing
    cases hmissing
  | none =>
    have hkeys : ∀ key ∈ mandatory, (loaded content).hasKey (bytes key) = true := by
      intro key hkey
      simpa using List.find?_eq_none.mp hfind key hkey
    have hkeys' := hkeys
    simp only [mandatory, List.forall_mem_cons] at hkeys
    obtain ⟨hhost, hport, hmax, htpm, htsc, hdev, -⟩ := hkeys
    simp only [bind_eq_ok, field_eq_ok hmax, field_eq_ok htpm, field_eq_ok htsc, field_eq_ok hdev,
      get_wordOf hhost, get_wordOf hport, Except.ok.injEq]
    constructor
    · rintro ⟨maxConnections, h1, tpm, h2, tsc, h3, deviation, h4, host, h5, port, h6, h⟩
      obtain rfl := Except.ok.inj h
      exact ⟨hkeys', h1, h2, h3, h4, h5, h6⟩
    · rintro ⟨-, h1, h2, h3, h4, h5, h6⟩
      exact ⟨_, h1, _, h2, _, h3, _, h4, _, h5, _, h6, rfl⟩

/-- The intervals reach the timers as written exactly when the file is refused or both words are
    nothing but numerals and the first is that of a 32-bit number. -/
theorem asWritten_iff (stod : List UInt8 → Option δ) (configFilename : String)
    (content : List UInt8) :
    AsWritten stod configFilename content ↔ (Readable stod content → Whole content) := by
  constructor
  · rintro hwritten ⟨hkeys, hmax, htpm, htsc, hdev⟩
    obtain ⟨maxConnections, hmax⟩ := Option.isSome_iff_exists.mp hmax
    obtain ⟨tpm, htpm⟩ := Option.isSome_iff_exists.mp htpm
    obtain ⟨tsc, htsc⟩ := Option.isSome_iff_exists.mp htsc
    obtain ⟨deviation, hdev⟩ := Option.isSome_iff_exists.mp hdev
    obtain ⟨htpmWord, htscWord⟩ := hwritten
      ⟨wordOf content "host", wordOf content "port", maxConnections, tpm, tsc, deviation⟩
      ((readSettings_eq_ok stod).mpr ⟨hkeys, hmax, htpm, htsc, hdev, rfl, rfl⟩)
    refine ⟨⟨_, htpmWord, ?_, ?_⟩, _, htscWord⟩
    · rw [Settings.tpmTimerInterval, toUnsigned]
      omega
    · rw [Settings.tpmTimerInterval, toUnsigned]
      omega
  · intro hwhole s hs
    obtain ⟨hkeys, hmax, htpm, htsc, hdev, -, -⟩ := (readSettings_eq_ok stod).mp hs
    have hreadable : Readable stod content :=
      ⟨hkeys, by rw [hmax]; rfl, by rw [htpm]; rfl, by rw [htsc]; rfl, by rw [hdev]; rfl⟩
    obtain ⟨⟨n, hn, hnonneg, hlt⟩, m, hm⟩ := hwhole hreadable
    -- the conversions read these numerals as the numbers they are
    have htpmEq : s.tpmIntervalInMS = n :=
      Option.some.inj ((convert_eq_some htpm).symm.trans (strtoll_numeral hn))
    have htscEq : s.tscCheckIntervalInMs = m :=
      Option.some.inj ((convert_eq_some htsc).symm.trans (strtoll_numeral hm))
    constructor
    · have hsame : s.tpmTimerInterval = n := by
        rw [Settings.tpmTimerInterval, htpmEq, toUnsigned, Int.emod_eq_of_lt hnonneg hlt]
        exact Int.toNat_of_nonneg hnonneg
      rw [hsame]
      exact hn
    · rw [Settings.tscTimerInterval, htscEq]
      exact hm

/-- The default file with another interval for the TPM. -/
def fileWith (tpmInterval : String) : List UInt8 :=
  bytes ("host 0.0.0.0\nport 7872\nmax_connections 100\ntpm_interval_in_ms " ++ tpmInterval ++
    "\ntsc_check_interval_in_ms 60000\ntsc_check_deviation_threshold 0.001\n")

/-- `std::stod` on the default threshold. -/
def thousandth (w : List UInt8) : Option ℚ := if w = bytes "0.001" then some (1 / 1000) else none

/-- The timer of the TPM watcher is started with 0 milliseconds for 4294967296. -/
theorem not_asWritten_wide : ¬ AsWritten thousandth "/etc/nha.conf" (fileWith "4294967296") := by
  intro h
  have hwords : mandatory.map (fun key => (loaded (fileWith "4294967296")).configData (bytes key)) =
      ["0.0.0.0", "7872", "100", "4294967296", "60000", "0.001"].map (fun w => some (bytes w)) := by
    decide +kernel
  simp only [mandatory, List.map_cons, List.map_nil, List.cons.injEq, and_true] at hwords
  obtain ⟨hhost, hport, hmax, htpm, htsc, hdev⟩ := hwords
  have hkeys : ∀ key ∈ mandatory, (loaded (fileWith "4294967296")).hasKey (bytes key) = true := by
    simp [mandatory, ConfigurationParser.hasKey, hhost, hport, hmax, htpm, htsc, hdev]
  have hread : readSettings thousandth "/etc/nha.conf" (some (fileWith "4294967296")) =
      .ok ⟨bytes "0.0.0.0", bytes "7872", 100, 4294967296, 60000, 1 / 1000⟩ := by
    rw [readSettings_eq_ok]
    simp only [wordOf, hhost, hport, hmax, htpm, htsc, hdev, Option.getD_some]
    exact ⟨hkeys, by decide +kernel, by decide +kernel, by decide +kernel, by decide +kernel, trivial,
      trivial⟩
  have hzero := strtoll_numeral (h _ hread).1
  rw [wordOf, htpm] at hzero
  exact absurd hzero (by decide +kernel)

end NHA.Main
