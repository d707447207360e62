import Mathlib.Algebra.Order.Floor.Ring
import Mathlib.Data.Rat.Floor

namespace SpreadArb

structure RateLimiter where
  requestsPerSecond : Nat
  burstCapacity : Nat

/-- The state behind the mutex. Instants are seconds; the oldest timestamp comes first. -/
structure RateLimiterState where
  tokens : Nat
  lastRefill : ℚ
  requestTimestamps : List ℚ

structure RateLimiterStats where
  availableTokens : Nat
  requestsLastSecond : Nat
  limitPerSecond : Nat

/-- `Instant::duration_since`, which is zero for a later instant. -/
def durationSince (now earlier : ℚ) : ℚ := max 0 (now - earlier)

inductive AcquireTurn where
  | granted
  | wait (seconds : ℚ)
  /-- `Duration::from_secs_f64` does not take an infinite wait. -/
  | panicked
deriving DecidableEq

namespace RateLimiter

variable (l : RateLimiter)

def new (now : ℚ) : RateLimiterState := ⟨l.burstCapacity,now,[]⟩

/-- The cast of a float to `u32` cuts off the fraction and stops at the largest value. -/
def tokensToAdd (elapsed : ℚ) : Nat := min ⌊elapsed * l.requestsPerSecond⌋.toNat (2^32-1)

/-- The sum wraps around. -/
def refill (now : ℚ) (s : RateLimiterState) : RateLimiterState :=
  let tokensToAdd := l.tokensToAdd (durationSince now s.lastRefill)
  if tokensToAdd > 0 then
    { s with tokens := min ((s.tokens + tokensToAdd) % 2^32) l.burstCapacity, lastRefill := now }
  else s

def prune (now : ℚ) (s : RateLimiterState) : RateLimiterState :=
  { s with requestTimestamps := s.requestTimestamps.dropWhile (fun timestamp =>
    durationSince now timestamp > 1) }

/-- One turn of the loop in `RateLimiter::acquire`, all of it under the mutex. -/
def acquireTurn (now : ℚ) (s : RateLimiterState) : AcquireTurn × RateLimiterState :=
  let s := prune now (l.refill now s)
  if s.tokens > 0 then
    (.granted,{ s with tokens := s.tokens - 1, requestTimestamps := s.requestTimestamps ++ [now] })
  else if s.tokens = 0 then
    (if l.requestsPerSecond = 0 then .panicked else .wait (1 / l.requestsPerSecond),s)
  else (.wait (1/100),s)

def stats (now : ℚ) (s : RateLimiterState) : RateLimiterStats :=
  let requestsLastSecond :=
    s.requestTimestamps.countP (fun timestamp => durationSince now timestamp ≤ 1)
  ⟨s.tokens,requestsLastSecond % 2^32,l.requestsPerSecond⟩

end RateLimiter

/-- The limiter among its tasks. A task inside `acquire` sleeps until the instant given for it. The
instants of the grants are not kept by the code. -/
structure LimiterRun (T : Type) where
  now : ℚ
  state : RateLimiterState
  acquiring : T → Option ℚ
  grants : List ℚ

/-- The clock moves on to an instant, a task calls `acquire`, or a task that is awake takes the
mutex. -/
inductive LimiterAct (T : Type) where
  | advance (now : ℚ)
  | call (task : T)
  | turn (task : T)

namespace LimiterRun

variable {T : Type} [DecidableEq T] (l : RateLimiter)

def begin (now : ℚ) : LimiterRun T := ⟨now,l.new now,fun _ => none,[]⟩

def takeTurn (s : LimiterRun T) (task : T) : LimiterRun T :=
  let out := l.acquireTurn s.now s.state
  match out.1 with
  | .granted =>
    { s with
      state := out.2
      acquiring := Function.update s.acquiring task none
      grants := s.grants ++ [s.now] }
  | .wait seconds =>
    { s with state := out.2, acquiring := Function.update s.acquiring task (some
      (s.now + seconds)) }
  | .panicked => { s with state := out.2, acquiring := Function.update s.acquiring task none }

/-- An act that cannot be made changes nothing. -/
def step (s : LimiterRun T) : LimiterAct T → LimiterRun T
  | .advance now => if s.now ≤ now then { s with now } else s
  | .call task =>
    if s.acquiring task = none then
      { s with acquiring := Function.update s.acquiring task (some s.now) } else s
  | .turn task =>
    match s.acquiring task with
    | some awake => if awake ≤ s.now then s.takeTurn l task else s
    | none => s

def run (now : ℚ) (acts : List (LimiterAct T)) : LimiterRun T := acts.foldl (step l) (begin l now)

def granted (s : LimiterRun T) (start stop : ℚ) : Nat :=
  s.grants.countP (fun grant => start ≤ grant && grant ≤ stop)

end LimiterRun

end SpreadArb
