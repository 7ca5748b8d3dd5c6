import GrokPi.Shared.Runs

set_option autoImplicit false

namespace GrokPi.CircuitBreaker

abbrev Instant := Nat

abbrev Duration := Nat

def Duration.fromMillis (millis : Nat) : Duration := millis * 1000000

def Duration.asMillis (duration : Duration) : Nat := duration / 1000000 % 2 ^ 64

def maxWindowEntries : Nat := 10000

structure SlidingWindow where
  entries : List (Instant × Bool)
  failures : Nat
  counted : failures = entries.countP (·.2)

def SlidingWindow.new : SlidingWindow := ⟨[], 0, rfl⟩

theorem counted_tail {failures : Nat} {sample : Instant × Bool} {rest : List (Instant × Bool)}
    (counted : failures = (sample :: rest).countP (·.2)) :
    (if sample.2 then failures - 1 else failures) = rest.countP (·.2) := by
  rw [counted, List.countP_cons]
  split <;> simp

def SlidingWindow.popFront : SlidingWindow → SlidingWindow
  | ⟨[], failures, counted⟩ => ⟨[], failures, counted⟩
  | ⟨(_, wasFailure) :: rest, failures, counted⟩ =>
      ⟨rest, if wasFailure then failures - 1 else failures, counted_tail counted⟩

def SlidingWindow.pushBack (window : SlidingWindow) (isFailure : Bool) (at_instant : Instant) :
    SlidingWindow :=
  ⟨window.entries ++ [(at_instant, isFailure)], if isFailure then window.failures + 1 else window.failures, by
    rw [window.counted, List.countP_append]
    cases isFailure <;> simp⟩

def SlidingWindow.push (window : SlidingWindow) (isFailure : Bool) (at_instant : Instant) : SlidingWindow :=
  let window := if window.entries.length ≥ maxWindowEntries then window.popFront else window
  window.pushBack isFailure at_instant

def SlidingWindow.dropBefore (cutoff : Instant) :
    (entries : List (Instant × Bool)) → (failures : Nat) → failures = entries.countP (·.2) →
      SlidingWindow
  | [], failures, counted => ⟨[], failures, counted⟩
  | (time, wasFailure) :: rest, failures, counted =>
      if time < cutoff then
        dropBefore cutoff rest (if wasFailure then failures - 1 else failures) (counted_tail counted)
      else ⟨(time, wasFailure) :: rest, failures, counted⟩

def SlidingWindow.evict (window : SlidingWindow) (duration : Duration) (now : Instant) : SlidingWindow :=
  if duration ≤ now then
    .dropBefore (now - duration) window.entries window.failures window.counted
  else window

def SlidingWindow.sampleCount (window : SlidingWindow) : Nat := window.entries.length

inductive BreakerState where
  | closed
  | opened
  | halfOpen
  deriving DecidableEq

inductive Outcome where
  | success
  | failure
  deriving DecidableEq

structure BreakerOpen where
  retryAfter : Duration
  deriving DecidableEq

structure BreakerConfig where
  windowDuration : Duration
  minSamples : Nat
  -- Whether that many failures of that many samples reach the error rate threshold.
  reachesErrorRate : Nat → Nat → Bool
  openDuration : Duration
  halfOpenMaxProbes : Nat
  enabled : Bool

structure Breaker where
  config : BreakerConfig
  state : BreakerState
  baseline : Instant
  openedAtMillis : Nat
  halfOpenProbes : Nat
  probeClaimedAtMillis : Nat
  isOpenFast : Bool
  window : SlidingWindow

def Breaker.withClock (config : BreakerConfig) (now : Instant) : Breaker :=
  { config := { config with halfOpenMaxProbes := max config.halfOpenMaxProbes 1 }
    state := .closed
    baseline := now
    openedAtMillis := 0
    halfOpenProbes := 0
    probeClaimedAtMillis := 0
    isOpenFast := false
    window := .new }

def Breaker.isOpen (breaker : Breaker) : Bool := breaker.isOpenFast

def Breaker.elapsedMillis (breaker : Breaker) (now : Instant) : Nat :=
  Duration.asMillis (now - breaker.baseline)

def halfOpenProbeBackoff : Duration := Duration.fromMillis 50

def Breaker.tryHalfOpenProbe (breaker : Breaker) (now : Instant) : Except BreakerOpen Unit × Breaker :=
  let now := breaker.elapsedMillis now
  if breaker.halfOpenProbes < breaker.config.halfOpenMaxProbes then
    (.ok (), { breaker with
      halfOpenProbes := breaker.halfOpenProbes + 1
      probeClaimedAtMillis := now })
  -- The probe is not counted. A claim past its lease is taken over.
  else if now - breaker.probeClaimedAtMillis ≥ Duration.asMillis breaker.config.openDuration then
    (.ok (), { breaker with probeClaimedAtMillis := now })
  else (.error ⟨min halfOpenProbeBackoff breaker.config.openDuration⟩, breaker)

/-- No other caller is at work, so the exchange to half open succeeds. -/
def Breaker.checkOpen (breaker : Breaker) (now : Instant) : Except BreakerOpen Unit × Breaker :=
  let elapsed := Duration.fromMillis (breaker.elapsedMillis now - breaker.openedAtMillis)
  if elapsed ≥ breaker.config.openDuration then
    { breaker with state := .halfOpen, isOpenFast := false }.tryHalfOpenProbe now
  else (.error ⟨breaker.config.openDuration - elapsed⟩, breaker)

def Breaker.check (breaker : Breaker) (now : Instant) : Except BreakerOpen Unit × Breaker :=
  if !breaker.config.enabled then (.ok (), breaker)
  else
    match breaker.state with
    | .closed => (.ok (), breaker)
    | .opened => breaker.checkOpen now
    | .halfOpen => breaker.tryHalfOpenProbe now

def Breaker.trip (breaker : Breaker) (now : Instant) : Breaker :=
  { breaker with
    state := .opened
    openedAtMillis := breaker.elapsedMillis now
    halfOpenProbes := 0
    isOpenFast := true }

def Breaker.close (breaker : Breaker) : Breaker :=
  { breaker with
    state := .closed
    window := .new
    halfOpenProbes := 0
    isOpenFast := false }

def Breaker.sample (breaker : Breaker) (isFailure : Bool) (now : Instant) : Breaker :=
  { breaker with
    window := (breaker.window.push isFailure now).evict breaker.config.windowDuration now }

def Breaker.record (breaker : Breaker) (outcome : Outcome) (now : Instant) : Breaker :=
  if !breaker.config.enabled then breaker
  else
    match breaker.state with
    | .closed =>
        let breaker := breaker.sample (outcome = .failure) now
        let shouldTrip := decide (breaker.window.sampleCount ≥ breaker.config.minSamples) &&
          breaker.config.reachesErrorRate breaker.window.failures breaker.window.sampleCount
        if shouldTrip then breaker.trip now else breaker
    | .halfOpen => if outcome = .failure then breaker.trip now else breaker.close
    | .opened => breaker.sample (outcome = .failure) now

end GrokPi.CircuitBreaker
