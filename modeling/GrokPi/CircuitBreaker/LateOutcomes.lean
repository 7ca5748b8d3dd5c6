import GrokPi.CircuitBreaker.Recovery

set_option autoImplicit false

namespace GrokPi.CircuitBreaker

abbrev CallerId := Nat

inductive CallerEvent where
  | check (caller : CallerId)
  | record (caller : CallerId) (outcome : Outcome)

structure Admission where
  trips : Nat
  episode : Option Nat
  deriving DecidableEq

/-- The breaker with the admitted callers that have not recorded yet, how often it has tripped, and how many
half-open episodes it has begun. -/
structure Traffic where
  breaker : Breaker
  trips : Nat
  episodes : Nat
  inFlight : CallerId → Option Admission

def Traffic.start (config : BreakerConfig) (now : Instant) : Traffic :=
  { breaker := .withClock config now
    trips := 0
    episodes := 0
    inFlight := fun _ => none }

def Traffic.check (traffic : Traffic) (caller : CallerId) (now : Instant) : Traffic :=
  let (answer, breaker) := traffic.breaker.check now
  let episodes :=
    if breaker.state = .halfOpen ∧ traffic.breaker.state ≠ .halfOpen then traffic.episodes + 1
    else traffic.episodes
  let episode := if breaker.state = .halfOpen then some episodes else none
  { traffic with
    breaker := breaker
    episodes := episodes
    inFlight :=
      match answer with
      | .ok () => Function.update traffic.inFlight caller (some ⟨traffic.trips, episode⟩)
      | .error _ => traffic.inFlight }

def Traffic.record (traffic : Traffic) (caller : CallerId) (outcome : Outcome) (now : Instant) : Traffic :=
  let breaker := traffic.breaker.record outcome now
  { traffic with
    breaker := breaker
    trips :=
      if breaker.state = .opened ∧ traffic.breaker.state ≠ .opened then traffic.trips + 1 else traffic.trips
    inFlight := Function.update traffic.inFlight caller none }

-- A caller at work does not check again, and one that is not does not record.
def Traffic.step (traffic : Traffic) : CallerEvent × Instant → Traffic
  | (.check caller, now) => if (traffic.inFlight caller).isSome then traffic else traffic.check caller now
  | (.record caller outcome, now) =>
      if (traffic.inFlight caller).isSome then traffic.record caller outcome now else traffic

/-- A half-open episode ends by the outcome of one of its callers, and the outcome of a caller from before the
last trip moves nothing. -/
structure ProbesDecide (traffic : Traffic) (event : CallerEvent × Instant) : Prop where
  ends : traffic.breaker.state = .halfOpen → (traffic.step event).breaker.state ≠ .halfOpen →
    ∃ caller outcome admission, event.1 = .record caller outcome ∧
      traffic.inFlight caller = some admission ∧ admission.episode = some traffic.episodes
  late : ∀ caller outcome admission, event.1 = .record caller outcome →
    traffic.inFlight caller = some admission → admission.trips < traffic.trips →
      (traffic.step event).breaker.state = traffic.breaker.state ∧
        (traffic.step event).breaker.halfOpenProbes = traffic.breaker.halfOpenProbes

def Breaker.tripsAfter (breaker : Breaker) (outcome : Outcome) (now : Instant) : Bool :=
  let window := (breaker.sample (outcome = .failure) now).window
  decide (window.sampleCount ≥ breaker.config.minSamples) &&
    breaker.config.reachesErrorRate window.failures window.sampleCount

/-- Whose admission is older than the last trip does not record to a breaker that is half open, nor what trips
a closed one. -/
def NoLateDecision (traffic : Traffic) : CallerEvent × Instant → Prop
  | (.check _, _) => True
  | (.record caller outcome, now) =>
      ∀ admission, traffic.inFlight caller = some admission → admission.trips < traffic.trips →
        traffic.breaker.config.enabled = true →
          traffic.breaker.state ≠ .halfOpen ∧
            (traffic.breaker.state = .closed → traffic.breaker.tripsAfter outcome now = false)

structure Traffic.Sound (traffic : Traffic) : Prop where
  live : traffic.breaker.state = .closed ∨ traffic.breaker.config.enabled = true
  older : ∀ caller admission, traffic.inFlight caller = some admission →
    admission.trips ≤ traffic.trips ∧ ∀ episode ∈ admission.episode, episode ≤ traffic.episodes
  opened : traffic.breaker.state = .opened → ∀ caller admission,
    traffic.inFlight caller = some admission → admission.trips < traffic.trips
  halfOpen : traffic.breaker.state = .halfOpen → ∀ caller admission,
    traffic.inFlight caller = some admission →
      (admission.episode = some traffic.episodes ↔ admission.trips = traffic.trips)

variable {traffic : Traffic}

theorem tryHalfOpenProbe_state (breaker : Breaker) (now : Instant) :
    (breaker.tryHalfOpenProbe now).2.state = breaker.state ∧
      (breaker.tryHalfOpenProbe now).2.config = breaker.config := by
  obtain ⟨probes, claimed, frame⟩ := tryHalfOpenProbe_frame breaker now
  rw [frame]
  exact ⟨rfl, rfl⟩

theorem check_state (breaker : Breaker) (now : Instant) :
    (breaker.check now).2.config = breaker.config ∧
      ((breaker.check now).2.state = breaker.state ∨
        breaker.state = .opened ∧ (breaker.check now).2.state = .halfOpen) ∧
      (breaker.config.enabled = true → (breaker.check now).1 = .ok () → (breaker.check now).2.state ≠ .opened) := by
  -- A check changes the state only from open to half open, and admits nobody while it stays open.
  unfold Breaker.check
  cases enabled : breaker.config.enabled with
  | false => simp
  | true =>
      simp only [Bool.not_true, Bool.false_eq_true, if_false]
      cases state : breaker.state with
      | closed => simp [state]
      | halfOpen =>
          have probe := tryHalfOpenProbe_state breaker now
          simp [probe, state]
      | opened =>
          unfold Breaker.checkOpen
          dsimp only
          split
          · have probe := tryHalfOpenProbe_state { breaker with state := .halfOpen, isOpenFast := false } now
            simp [probe]
          · simp [state]

theorem record_state (breaker : Breaker) (enabled : breaker.config.enabled = true) (outcome : Outcome)
    (now : Instant) :
    (breaker.record outcome now).config = breaker.config ∧
      (breaker.record outcome now).state =
        (match breaker.state with
        | .closed => if breaker.tripsAfter outcome now then .opened else .closed
        | .halfOpen => if outcome = .failure then .opened else .closed
        | .opened => .opened) ∧
      ((breaker.record outcome now).state = breaker.state →
        (breaker.record outcome now).halfOpenProbes = breaker.halfOpenProbes) := by
  cases state : breaker.state with
  | closed =>
      have records : breaker.record outcome now =
          if breaker.tripsAfter outcome now then (breaker.sample (outcome = .failure) now).trip now
          else breaker.sample (outcome = .failure) now := by
        simp only [Breaker.record, enabled, state]
        rfl
      rw [records]
      split <;> simp [Breaker.trip, Breaker.sample, state]
  | halfOpen => cases outcome <;> simp [Breaker.record, enabled, state, Breaker.trip, Breaker.close]
  | opened => simp [Breaker.record, enabled, state, Breaker.sample]

theorem check_inFlight {caller other : CallerId} {now : Instant} {admission : Admission}
    (found : (traffic.check caller now).inFlight other = some admission) :
    ((traffic.breaker.check now).1 = .ok () ∧ admission =
        ⟨traffic.trips,
          if (traffic.breaker.check now).2.state = .halfOpen then some (traffic.check caller now).episodes
          else none⟩) ∨
      traffic.inFlight other = some admission := by
  unfold Traffic.check at found ⊢
  cases answer : traffic.breaker.check now with
  | mk result breaker =>
      simp only [answer] at found ⊢
      cases result with
      | error refused => exact Or.inr found
      | ok done =>
          simp only [Function.update_apply] at found
          split at found
          · exact Or.inl ⟨rfl, (Option.some.inj found).symm⟩
          · exact Or.inr found

theorem check_sound (sound : traffic.Sound) (caller : CallerId) (now : Instant) :
    (traffic.check caller now).Sound := by
  obtain ⟨config, moves, closedToOpen⟩ := check_state traffic.breaker now
  have breaker : (traffic.check caller now).breaker = (traffic.breaker.check now).2 := rfl
  have trips : (traffic.check caller now).trips = traffic.trips := rfl
  have episodes : (traffic.check caller now).episodes =
      if (traffic.breaker.check now).2.state = .halfOpen ∧ traffic.breaker.state ≠ .halfOpen then
        traffic.episodes + 1 else traffic.episodes := rfl
  have grows : traffic.episodes ≤ (traffic.check caller now).episodes := by
    rw [episodes]
    split <;> omega
  refine ⟨?_, ?_, ?_, ?_⟩
  · rw [breaker, config]
    rcases moves with same | ⟨opened, -⟩
    · rw [same]
      exact sound.live
    · exact Or.inr (sound.live.resolve_left (by simp [opened]))
  · intro other admission found
    rcases check_inFlight found with ⟨-, rfl⟩ | before
    · refine ⟨le_refl _, ?_⟩
      intro episode member
      split at member
      · exact (Option.some.inj member).ge
      · cases member
    · obtain ⟨older, known⟩ := sound.older other admission before
      exact ⟨older, fun episode member => (known episode member).trans grows⟩
  · intro opened other admission found
    rw [breaker] at opened
    have was : traffic.breaker.state = .opened := by
      rcases moves with same | ⟨-, half⟩
      · rw [← same, opened]
      · simp [half] at opened
    rcases check_inFlight found with ⟨admitted, -⟩ | before
    · have enabled := sound.live.resolve_left (by simp [was])
      exact absurd opened (closedToOpen enabled admitted)
    · exact sound.opened was other admission before
  · intro half other admission found
    rw [breaker] at half
    rcases check_inFlight found with ⟨-, rfl⟩ | before
    · simp [half, trips]
    · rw [trips]
      rcases moves with same | ⟨opened, -⟩
      · have was : traffic.breaker.state = .halfOpen := by rw [← same, half]
        rw [episodes, if_neg (by simp [was])]
        exact sound.halfOpen was other admission before
      · -- Nobody at work is of the episode that begins.
        have older := sound.opened opened other admission before
        have known := (sound.older other admission before).2
        rw [episodes, if_pos ⟨half, by simp [opened]⟩]
        refine iff_of_false (fun same => ?_) (Nat.ne_of_lt older)
        have bound := known _ same
        omega

theorem record_sound (sound : traffic.Sound) (caller : CallerId) (outcome : Outcome) (now : Instant) :
    (traffic.record caller outcome now).Sound := by
  have before : ∀ {other admission}, (traffic.record caller outcome now).inFlight other = some admission →
      traffic.inFlight other = some admission := by
    intro other admission found
    simp only [Traffic.record, Function.update_apply] at found
    split at found
    · cases found
    · exact found
  cases enabled : traffic.breaker.config.enabled with
  | false =>
      have closed := sound.live.resolve_right (by simp [enabled])
      have same : traffic.breaker.record outcome now = traffic.breaker := by simp [Breaker.record, enabled]
      have kept : (traffic.record caller outcome now).trips = traffic.trips := by
        simp [Traffic.record, same, closed]
      have state : (traffic.record caller outcome now).breaker.state = .closed := by
        rw [← closed, ← same]
        rfl
      refine ⟨Or.inl state, ?_, by simp [state], by simp [state]⟩
      intro other admission found
      rw [kept]
      exact sound.older other admission (before found)
  | true =>
      obtain ⟨config, state, -⟩ := record_state traffic.breaker enabled outcome now
      have breaker : (traffic.record caller outcome now).breaker = traffic.breaker.record outcome now := rfl
      have trips : (traffic.record caller outcome now).trips =
          if (traffic.breaker.record outcome now).state = .opened ∧ traffic.breaker.state ≠ .opened then
            traffic.trips + 1 else traffic.trips := rfl
      have grows : traffic.trips ≤ (traffic.record caller outcome now).trips := by
        rw [trips]
        split <;> omega
      refine ⟨Or.inr (by rw [breaker, config, enabled]), ?_, ?_, ?_⟩
      · intro other admission found
        obtain ⟨older, known⟩ := sound.older other admission (before found)
        exact ⟨older.trans grows, known⟩
      · intro opened other admission found
        rw [breaker] at opened
        by_cases was : traffic.breaker.state = .opened
        · exact (sound.opened was other admission (before found)).trans_le grows
        · have older := (sound.older other admission (before found)).1
          rw [trips, if_pos ⟨opened, was⟩]
          omega
      · intro half
        rw [breaker, state] at half
        cases was : traffic.breaker.state with
        | opened => simp [was] at half
        | closed =>
            simp only [was] at half
            split at half <;> cases half
        | halfOpen =>
            simp only [was] at half
            split at half <;> cases half

theorem step_check_eq (traffic : Traffic) (caller : CallerId) (now : Instant) :
    traffic.step (.check caller, now) =
      if (traffic.inFlight caller).isSome then traffic else traffic.check caller now := rfl

theorem step_record_eq (traffic : Traffic) (caller : CallerId) (outcome : Outcome) (now : Instant) :
    traffic.step (.record caller outcome, now) =
      if (traffic.inFlight caller).isSome then traffic.record caller outcome now else traffic := rfl

theorem traffic_step_sound (sound : traffic.Sound) (event : CallerEvent × Instant) : (traffic.step event).Sound := by
  obtain ⟨event, now⟩ := event
  cases event with
  | check caller =>
      rw [step_check_eq]
      split
      · exact sound
      · exact check_sound sound caller now
  | record caller outcome =>
      rw [step_record_eq]
      split
      · exact record_sound sound caller outcome now
      · exact sound

theorem check_decides (caller : CallerId) (now : Instant) : ProbesDecide traffic (.check caller, now) := by
  refine ⟨fun half left => absurd ?_ left, fun _ _ _ same => by cases same⟩
  rw [step_check_eq]
  split
  · exact half
  · rcases (check_state traffic.breaker now).2.1 with same | ⟨-, opened⟩
    · exact same.trans half
    · exact opened

theorem record_decides_iff (sound : traffic.Sound) {caller : CallerId} {admission : Admission}
    (found : traffic.inFlight caller = some admission) (enabled : traffic.breaker.config.enabled = true)
    (outcome : Outcome) (now : Instant) :
    ProbesDecide traffic (.record caller outcome, now) ↔ NoLateDecision traffic (.record caller outcome, now) := by
  have stepped : (traffic.step (.record caller outcome, now)).breaker = traffic.breaker.record outcome now := by
    rw [step_record_eq, found]
    rfl
  obtain ⟨-, state, probes⟩ := record_state traffic.breaker enabled outcome now
  constructor
  · intro decides other same late _
    obtain rfl := Option.some.inj (found.symm.trans same)
    have stays := (decides.late caller outcome admission rfl found late).1
    rw [stepped, state] at stays
    constructor
    · intro half
      simp only [half] at stays
      split at stays <;> cases stays
    · intro closed
      simp only [closed] at stays
      split at stays
      · cases stays
      next untripped => exact Bool.eq_false_iff.mpr untripped
  · intro noLate
    constructor
    · intro half _
      refine ⟨caller, outcome, admission, rfl, found, ?_⟩
      rw [sound.halfOpen half caller admission found]
      by_contra different
      have older := (sound.older caller admission found).1
      exact (noLate admission found (lt_of_le_of_ne older different) enabled).1 half
    · rintro other otherOutcome otherAdmission same foundOther late
      cases same
      obtain ⟨notHalf, untripped⟩ := noLate otherAdmission foundOther late enabled
      rw [stepped]
      have stays : (traffic.breaker.record outcome now).state = traffic.breaker.state := by
        rw [state]
        cases was : traffic.breaker.state with
        | closed => simp [untripped was]
        | halfOpen => exact absurd was notHalf
        | opened => rfl
      exact ⟨stays, probes stays⟩

theorem decides_iff (sound : traffic.Sound) (event : CallerEvent × Instant) :
    ProbesDecide traffic event ↔ NoLateDecision traffic event := by
  obtain ⟨event, now⟩ := event
  cases event with
  | check caller => exact iff_of_true (check_decides caller now) trivial
  | record caller outcome =>
      cases found : traffic.inFlight caller with
      | none =>
          have idle : traffic.step (.record caller outcome, now) = traffic := by
            rw [step_record_eq, found]
            rfl
          refine iff_of_true ⟨fun half left => absurd half (idle ▸ left), fun _ _ _ _ _ _ => by rw [idle]; exact ⟨rfl, rfl⟩⟩ ?_
          intro admission same
          rw [found] at same
          cases same
      | some admission =>
          cases enabled : traffic.breaker.config.enabled with
          | true => exact record_decides_iff sound found enabled outcome now
          | false =>
              have same : (traffic.step (.record caller outcome, now)).breaker = traffic.breaker := by
                rw [step_record_eq, found]
                simp [Traffic.record, Breaker.record, enabled]
              refine iff_of_true ⟨fun half left => absurd half (same ▸ left), fun _ _ _ _ _ _ => by rw [same]; exact ⟨rfl, rfl⟩⟩ ?_
              intro _ _ _ works
              rw [enabled] at works
              cases works

/-- In a run the half-open episodes are ended by their own probes exactly where no late outcome decides. -/
theorem probes_decide_iff (config : BreakerConfig) (start : Instant) (events : List (CallerEvent × Instant)) :
    Runs.Along Traffic.step ProbesDecide (.start config start) events ↔
      Runs.Along Traffic.step NoLateDecision (.start config start) events := by
  have initial : (Traffic.start config start).Sound :=
    ⟨Or.inl rfl, by simp [Traffic.start], by simp [Traffic.start], by simp [Traffic.start]⟩
  exact Runs.along_iff_always Traffic.step (fun _ event sound => decides_iff sound event)
    (fun _ event sound _ => traffic_step_sound sound event) _ events initial

/-- The first caller is slow: its success closes the breaker while the probe is at work. -/
theorem late_success_closes :
    ¬ Runs.Along Traffic.step ProbesDecide (.start quickConfig 0)
      [(.check 0, 0), (.check 1, 0), (.record 1 .failure, 1000000), (.check 2, 2000000),
        (.record 0 .success, 2000000)] := by
  intro ⟨_, _, _, _, last, _⟩
  have stays := (last.late 0 .success ⟨0, none⟩ rfl (by decide +kernel) (by decide +kernel)).1
  exact absurd stays (by decide +kernel)

end GrokPi.CircuitBreaker
