/-
SidechainVerifier.Config — settings of the verifier, and where they come
from.

`Config.limits` gives the trigger limits of a batch, with defaults in place
of negative settings; `Config.validate` refuses settings the verifier cannot
run with; `Config.ofEnvironment` overrides the defaults by environment
variables, ignoring values that cannot be read.
-/
import SidechainVerifier.Error
import SidechainVerifier.Text.Blank
import SidechainVerifier.Text.Integer

namespace SidechainVerifier

/-- Settings of the verifier. Delay and size are signed, as an operator may give them so. -/
structure Config where
  /-- The age in milliseconds above which the oldest pending request starts a batch. -/
  maxBatchDelay : Int64
  /-- The number of pending requests above which a batch starts. -/
  maxBatchSize : Int64
  /-- The number of results that are cached. -/
  cacheCapacity : UInt64
  /-- The time in milliseconds between two wake-ups of the driver. -/
  wakeUpPeriod : UInt64
deriving DecidableEq

/-- The limits that trigger a batch. -/
structure Limits where
  /-- In milliseconds. -/
  maxDelay : Nat
  maxSize : Nat
deriving DecidableEq

namespace Config

/-- The settings in force when nothing is set. -/
def default : Config := ⟨5000, 10, 100, 100⟩

instance : Inhabited Config := ⟨default⟩

/-- Settings for tests: batches start at once and the driver wakes up often. -/
def testMode : Config := { default with maxBatchDelay := 0, wakeUpPeriod := 5 }

/-- A setting, or its default if it is negative. -/
def nonNegative (value fallback : Int64) : Nat :=
  if value < 0 then fallback.toInt.toNat else value.toInt.toNat

/-- The limits that trigger a batch. -/
def limits (c : Config) : Limits :=
  ⟨nonNegative c.maxBatchDelay default.maxBatchDelay, nonNegative c.maxBatchSize default.maxBatchSize⟩

/-- Refuses settings the verifier cannot run with; the capacity is looked at first. -/
def validate (c : Config) : Except VerifierError Unit :=
  if c.cacheCapacity = 0 then .error (.invalidConfig "cache_capacity must be > 0")
  else if c.wakeUpPeriod = 0 then .error (.invalidConfig "wake_up_period_ms must be > 0")
  else .ok ()

/-! ## The environment -/

/-- The values of environment variables, as bytes. -/
abbrev Environment := String → Option Bytes

/-- The text of a variable, if it is set and is valid UTF-8. -/
def Environment.text? (environment : Environment) (name : String) : Option String :=
  environment name >>= fun bytes => String.fromUTF8? ⟨bytes.toArray⟩

/-- The integer a variable holds, white space around it aside. -/
def Environment.integer? (environment : Environment) (signed : Bool) (name : String) : Option Int :=
  environment.text? name >>= fun text => readInteger? signed (trimBlank text.toList)

/-- A 64-bit signed integer from a variable. -/
def Environment.int64? (environment : Environment) (name : String) : Option Int64 :=
  (environment.integer? true name).bind fun n =>
    if Int64.minValue.toInt ≤ n ∧ n ≤ Int64.maxValue.toInt then some (Int64.ofInt n) else none

/-- A 64-bit unsigned integer from a variable. -/
def Environment.uint64? (environment : Environment) (name : String) : Option UInt64 :=
  (environment.integer? false name).bind fun n =>
    if n < UInt64.size then some (UInt64.ofNat n.toNat) else none

/-- The default settings, overridden by the environment. The wake-up period has no variable. -/
def ofEnvironment (environment : Environment) : Config :=
  { default with
    maxBatchDelay := (environment.int64? "SC_PROOF_BATCH_MAX_DELAY_MS").getD default.maxBatchDelay
    maxBatchSize := (environment.int64? "SC_PROOF_BATCH_MAX_SIZE").getD default.maxBatchSize
    cacheCapacity := (environment.uint64? "SC_PROOF_CACHE_CAPACITY").getD default.cacheCapacity }

end Config

end SidechainVerifier
