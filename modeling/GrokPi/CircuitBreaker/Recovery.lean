import GrokPi.CircuitBreaker.Breaker

set_option autoImplicit false

namespace GrokPi.CircuitBreaker

inductive Call where
  | check
  | record (outcome : Outcome)

structure History where
  breaker : Breaker
  tripAt : Option Instant
  probeAt : Option Instant
  -- The probes of the half-open episode that goes on.
  episode : List Instant

def History.start (config : BreakerConfig) (now : Instant) : History :=
  { breaker := .withClock config now
    tripAt := none
    probeAt := none
    episode := [] }

def History.step (history : History) : Call × Instant → History
  | (.check, now) =>
      match history.breaker.check now with
      | (.ok _, breaker) =>
          if breaker.state = .halfOpen then
            { history with
              breaker := breaker
              probeAt := some now
              episode := now :: history.episode }
          else { history with breaker := breaker }
      | (.error _, breaker) => { history with breaker := breaker }
  | (.record outcome, now) =>
      let breaker := history.breaker.record outcome now
      { history with
        breaker := breaker
        tripAt :=
          if breaker.state = .opened ∧ history.breaker.state ≠ .opened then some now
          else history.tripAt
        episode := if breaker.state = .halfOpen then history.episode else [] }

def History.run (config : BreakerConfig) (start : Instant) (calls : List (Call × Instant)) : History :=
  Runs.run History.step (.start config start) calls

/-- From the newest claim on: past the slots, each claim waits out the lease of the one before. -/
def Paced (slots lease : Nat) : List Nat → Prop
  | [] => True
  | [_] => True
  | claim :: earlier :: rest =>
      (slots ≤ rest.length + 1 → lease ≤ claim - earlier) ∧ Paced slots lease (earlier :: rest)

structure Breaker.Counts (breaker : Breaker) (episode : List Nat) : Prop where
  paced : Paced breaker.config.halfOpenMaxProbes (Duration.asMillis breaker.config.openDuration) episode
  probes : breaker.halfOpenProbes = min episode.length breaker.config.halfOpenMaxProbes
  claimed : ∀ latest ∈ episode.head?, breaker.probeClaimedAtMillis = latest

structure History.Sound (history : History) : Prop where
  enabled : history.breaker.config.enabled = true
  slots : 0 < history.breaker.config.halfOpenMaxProbes
  mirror : history.breaker.isOpenFast = decide (history.breaker.state = .opened)
  counts : history.breaker.Counts (history.episode.map history.breaker.elapsedMillis)
  idle : history.breaker.state ≠ .halfOpen → history.episode = []
  tripped : history.breaker.state = .opened →
    ∃ trip, history.tripAt = some trip ∧
      history.breaker.openedAtMillis = history.breaker.elapsedMillis trip
  probed : history.breaker.state = .halfOpen →
    ∃ probe, history.probeAt = some probe ∧ history.episode.head? = some probe
  lease : history.breaker.state = .halfOpen →
    Duration.asMillis history.breaker.config.openDuration =
      history.breaker.config.openDuration / 1000000

theorem tryHalfOpenProbe_cases (breaker : Breaker) (now : Instant) :
    breaker.halfOpenProbes < breaker.config.halfOpenMaxProbes ∧
        breaker.tryHalfOpenProbe now = (.ok (), { breaker with
          halfOpenProbes := breaker.halfOpenProbes + 1
          probeClaimedAtMillis := breaker.elapsedMillis now }) ∨
      breaker.config.halfOpenMaxProbes ≤ breaker.halfOpenProbes ∧
        (Duration.asMillis breaker.config.openDuration ≤
              breaker.elapsedMillis now - breaker.probeClaimedAtMillis ∧
            breaker.tryHalfOpenProbe now =
              (.ok (), { breaker with probeClaimedAtMillis := breaker.elapsedMillis now }) ∨
          breaker.elapsedMillis now - breaker.probeClaimedAtMillis <
              Duration.asMillis breaker.config.openDuration ∧
            ∃ refused, breaker.tryHalfOpenProbe now = (.error refused, breaker)) := by
  -- A counted slot, a claim taken over, or a refusal.
  unfold Breaker.tryHalfOpenProbe
  by_cases free : breaker.halfOpenProbes < breaker.config.halfOpenMaxProbes
  · exact Or.inl ⟨free, by simp only [free, if_true]⟩
  · refine Or.inr ⟨Nat.le_of_not_lt free, ?_⟩
    simp only [free, if_false]
    by_cases expired : breaker.elapsedMillis now - breaker.probeClaimedAtMillis ≥
        Duration.asMillis breaker.config.openDuration
    · exact Or.inl ⟨expired, by simp only [expired, if_true]⟩
    · exact Or.inr ⟨Nat.lt_of_not_le expired, _, if_neg expired⟩

variable {breaker : Breaker}

theorem Breaker.Counts.probe {episode : List Nat} (counts : breaker.Counts episode)
    {now : Instant} {next : Breaker} (admitted : breaker.tryHalfOpenProbe now = (.ok (), next)) :
    next.Counts (breaker.elapsedMillis now :: episode) := by
  -- An admitted probe is one more claim of the episode.
  obtain ⟨paced, probes, claimed⟩ := counts
  rcases tryHalfOpenProbe_cases breaker now with
    ⟨free, counted⟩ | ⟨taken, ⟨expired, takeover⟩ | ⟨_, refused, outcome⟩⟩
  · rw [counted] at admitted
    obtain rfl := (Prod.mk.inj admitted).2
    have short : episode.length < breaker.config.halfOpenMaxProbes := by omega
    refine ⟨?_, ?_, ?_⟩
    · cases episode with
      | nil => trivial
      | cons earlier rest =>
          exact ⟨fun full => absurd short (Nat.not_lt.mpr full), paced⟩
    · simp only [List.length_cons]
      omega
    · rintro latest ⟨⟩
      rfl
  · rw [takeover] at admitted
    obtain rfl := (Prod.mk.inj admitted).2
    refine ⟨?_, ?_, ?_⟩
    · cases episode with
      | nil => trivial
      | cons earlier rest =>
          have latest := claimed earlier rfl
          exact ⟨fun _ => latest ▸ expired, paced⟩
    · simp only [List.length_cons]
      omega
    · rintro latest ⟨⟩
      rfl
  · rw [outcome] at admitted
    cases admitted

theorem tryHalfOpenProbe_frame (breaker : Breaker) (now : Instant) :
    ∃ probes claimed, (breaker.tryHalfOpenProbe now).2 =
      { breaker with halfOpenProbes := probes, probeClaimedAtMillis := claimed } := by
  rcases tryHalfOpenProbe_cases breaker now with
    ⟨_, counted⟩ | ⟨_, ⟨_, takeover⟩ | ⟨_, _, outcome⟩⟩
  · exact ⟨_, _, by rw [counted]⟩
  · exact ⟨_, _, by rw [takeover]⟩
  · exact ⟨_, _, by rw [outcome]⟩

structure History.HalfOpen (history : History) : Prop where
  half : history.breaker.state = .halfOpen
  enabled : history.breaker.config.enabled = true
  slots : 0 < history.breaker.config.halfOpenMaxProbes
  mirror : history.breaker.isOpenFast = false
  counts : history.breaker.Counts (history.episode.map history.breaker.elapsedMillis)
  probed : history.episode ≠ [] →
    ∃ probe, history.probeAt = some probe ∧ history.episode.head? = some probe
  lease : Duration.asMillis history.breaker.config.openDuration =
    history.breaker.config.openDuration / 1000000

def History.probe (history : History) (now : Instant) : History :=
  match history.breaker.tryHalfOpenProbe now with
  | (.ok _, breaker) =>
      { history with
        breaker := breaker
        probeAt := some now
        episode := now :: history.episode }
  | (.error _, breaker) => { history with breaker := breaker }

variable {history : History}

theorem History.HalfOpen.probe (half : history.HalfOpen) (now : Instant) :
    (history.probe now).Sound := by
  unfold History.probe
  cases outcome : history.breaker.tryHalfOpenProbe now with
  | mk result next =>
      obtain ⟨probes, claimed, frame⟩ := tryHalfOpenProbe_frame history.breaker now
      rw [outcome] at frame
      obtain rfl : next = _ := frame
      cases result with
      | ok _ =>
          exact
            { enabled := half.enabled
              slots := half.slots
              mirror := by simp [half.mirror, half.half]
              counts := half.counts.probe outcome
              idle := fun idle => absurd half.half idle
              tripped := fun tripped => by simp [half.half] at tripped
              probed := fun _ => ⟨now, rfl, rfl⟩
              lease := fun _ => half.lease }
      | error refused =>
          -- A refusal means that every slot was claimed in this episode.
          have refusal : history.breaker.config.halfOpenMaxProbes ≤ history.breaker.halfOpenProbes ∧
              history.breaker.tryHalfOpenProbe now = (.error refused, history.breaker) := by
            rcases tryHalfOpenProbe_cases history.breaker now with
              ⟨_, counted⟩ | ⟨taken, ⟨_, takeover⟩ | ⟨_, other, refuses⟩⟩
            · rw [outcome] at counted
              cases counted
            · rw [outcome] at takeover
              cases takeover
            · refine ⟨taken, ?_⟩
              rw [refuses] at outcome ⊢
              rw [(Prod.mk.inj outcome).1]
          rw [refusal.2] at outcome
          rw [← (Prod.mk.inj outcome).2]
          have some_probe : history.episode ≠ [] := by
            rintro none
            have probes := half.counts.probes
            have slots := half.slots
            simp only [none, List.map_nil, List.length_nil] at probes
            omega
          exact
            { enabled := half.enabled
              slots := half.slots
              mirror := by simp [half.mirror, half.half]
              counts := half.counts
              idle := fun idle => absurd half.half idle
              tripped := fun tripped => by simp [half.half] at tripped
              probed := fun _ => half.probed some_probe
              lease := fun _ => half.lease }

theorem History.Sound.halfOpen (sound : history.Sound)
    (half : history.breaker.state = .halfOpen) : history.HalfOpen :=
  { half := half
    enabled := sound.enabled
    slots := sound.slots
    mirror := by simp [sound.mirror, half]
    counts := sound.counts
    probed := fun _ => sound.probed half
    lease := sound.lease half }

theorem lease_of_elapsed {now : Instant}
    (elapsed : Duration.fromMillis (breaker.elapsedMillis now - breaker.openedAtMillis) ≥
      breaker.config.openDuration) :
    Duration.asMillis breaker.config.openDuration = breaker.config.openDuration / 1000000 := by
  have reading : breaker.elapsedMillis now < 2 ^ 64 := Nat.mod_lt _ (by norm_num)
  have waited : breaker.config.openDuration / 1000000 ≤
      breaker.elapsedMillis now - breaker.openedAtMillis :=
    Nat.div_le_of_le_mul (Nat.mul_comm _ 1000000 ▸ elapsed)
  exact Nat.mod_eq_of_lt (Nat.lt_of_le_of_lt (waited.trans (Nat.sub_le _ _)) reading)

theorem History.Sound.elapse (sound : history.Sound)
    (opened : history.breaker.state = .opened) {now : Instant}
    (elapsed : Duration.fromMillis (history.breaker.elapsedMillis now - history.breaker.openedAtMillis) ≥
      history.breaker.config.openDuration) :
    History.HalfOpen { history with
      breaker := { history.breaker with state := .halfOpen, isOpenFast := false } } := by
  have none := sound.idle (by simp [opened])
  exact
    { half := rfl
      enabled := sound.enabled
      slots := sound.slots
      mirror := rfl
      counts := ⟨sound.counts.paced, sound.counts.probes, sound.counts.claimed⟩
      probed := fun some_probe => absurd none some_probe
      lease := lease_of_elapsed elapsed }

theorem step_check (sound : history.Sound) (now : Instant) : history.step (.check, now) = history ∨
      ∃ half : History, half.HalfOpen ∧ history.step (.check, now) = half.probe now := by
  -- The history of a probe is read off the outcome of the probe.
  have asked : ∀ half : History, half.HalfOpen →
      history.tripAt = half.tripAt → history.probeAt = half.probeAt →
      history.episode = half.episode → history.breaker.check now = half.breaker.tryHalfOpenProbe now →
      history.step (.check, now) = half.probe now := by
    intro half is_half tripAt probeAt episode same
    obtain ⟨probes, claimed, frame⟩ := tryHalfOpenProbe_frame half.breaker now
    simp only [History.step, History.probe, same, tripAt, probeAt, episode]
    cases outcome : half.breaker.tryHalfOpenProbe now with
    | mk result next =>
        rw [outcome] at frame
        obtain rfl : next = _ := frame
        cases result with
        | ok _ => simp [is_half.half]
        | error _ => rfl
  cases state : history.breaker.state with
  | closed =>
      left
      simp [History.step, Breaker.check, sound.enabled, state]
  | halfOpen =>
      refine Or.inr ⟨history, sound.halfOpen state, asked history (sound.halfOpen state) rfl rfl rfl ?_⟩
      simp [Breaker.check, sound.enabled, state]
  | opened =>
      by_cases elapsed : Duration.fromMillis
          (history.breaker.elapsedMillis now - history.breaker.openedAtMillis) ≥
            history.breaker.config.openDuration
      · have half := sound.elapse state elapsed
        refine Or.inr ⟨_, half, asked _ half rfl rfl rfl ?_⟩
        simp [Breaker.check, Breaker.checkOpen, sound.enabled, state, elapsed]
      · left
        simp [History.step, Breaker.check, Breaker.checkOpen, sound.enabled, state, elapsed]

theorem counts_nil (probes : breaker.halfOpenProbes = 0) : breaker.Counts [] :=
  ⟨trivial, by simp [probes], by simp⟩

theorem record_cases (enabled : breaker.config.enabled = true) (outcome : Outcome) (now : Instant) :
    (breaker.state ≠ .opened ∧
        ∃ window, breaker.record outcome now = { breaker with window := window }.trip now) ∨
      (breaker.state ≠ .halfOpen ∧
        breaker.record outcome now = breaker.sample (outcome = .failure) now) ∨
      breaker.state = .halfOpen ∧ breaker.record outcome now = breaker.close := by
  -- An outcome trips the breaker, closes it, or is only sampled.
  cases state : breaker.state with
  | closed =>
      have records : ∃ trips : Bool, breaker.record outcome now =
          if trips then (breaker.sample (outcome = .failure) now).trip now
          else breaker.sample (outcome = .failure) now :=
        ⟨_, by simp only [Breaker.record, enabled, state]; rfl⟩
      obtain ⟨trips, records⟩ := records
      cases trips with
      | true => exact Or.inl ⟨by simp, _, records⟩
      | false => exact Or.inr (Or.inl ⟨by simp, records⟩)
  | opened =>
      have records : breaker.record outcome now = breaker.sample (outcome = .failure) now := by
        simp only [Breaker.record, enabled, state]
        rfl
      exact Or.inr (Or.inl ⟨by simp, records⟩)
  | halfOpen =>
      have records : breaker.record outcome now =
          if outcome = .failure then breaker.trip now else breaker.close := by
        simp only [Breaker.record, enabled, state]
        rfl
      cases outcome with
      | failure => exact Or.inl ⟨by simp, _, records⟩
      | success => exact Or.inr (Or.inr ⟨rfl, records⟩)

theorem step_record (sound : history.Sound) (outcome : Outcome) (now : Instant) :
    (history.step (.record outcome, now)).Sound := by
  simp only [History.step]
  rcases record_cases sound.enabled outcome now with
    ⟨closed, window, trips⟩ | ⟨whole, samples⟩ | ⟨half, closes⟩
  · rw [trips]
    exact
      { enabled := sound.enabled
        slots := sound.slots
        mirror := rfl
        counts := counts_nil rfl
        idle := fun _ => rfl
        tripped := fun _ => ⟨now, by simp [Breaker.trip, closed], rfl⟩
        probed := fun half => by cases half
        lease := fun half => by cases half }
  · rw [samples]
    unfold Breaker.sample
    have quiet := sound.idle whole
    have probes : history.breaker.halfOpenProbes = 0 := by
      simpa [quiet] using sound.counts.probes
    exact
      { enabled := sound.enabled
        slots := sound.slots
        mirror := sound.mirror
        counts := by
          simp only [whole, if_false, List.map_nil]
          exact counts_nil probes
        idle := fun _ => by simp [whole]
        tripped := fun opened => by
          obtain ⟨trip, last, reading⟩ := sound.tripped opened
          exact ⟨trip, by simp [last], reading⟩
        probed := fun half => absurd half whole
        lease := fun half => absurd half whole }
  · rw [closes]
    exact
      { enabled := sound.enabled
        slots := sound.slots
        mirror := rfl
        counts := counts_nil rfl
        idle := fun _ => rfl
        tripped := fun opened => by cases opened
        probed := fun half => by cases half
        lease := fun half => by cases half }

theorem step_sound (history : History) (call : Call × Instant) (sound : history.Sound) :
    (history.step call).Sound := by
  obtain ⟨call, now⟩ := call
  cases call with
  | check =>
      rcases step_check sound now with same | ⟨half, is_half, same⟩
      · rw [same]
        exact sound
      · rw [same]
        exact is_half.probe now
  | record outcome => exact step_record sound outcome now

theorem check_settings (breaker : Breaker) (now : Instant) :
    (breaker.check now).2.config = breaker.config ∧
      (breaker.check now).2.baseline = breaker.baseline := by
  -- No call touches the settings or the baseline.
  have probe : ∀ other : Breaker, (other.tryHalfOpenProbe now).2.config = other.config ∧
      (other.tryHalfOpenProbe now).2.baseline = other.baseline := by
    intro other
    obtain ⟨probes, claimed, frame⟩ := tryHalfOpenProbe_frame other now
    simp [frame]
  unfold Breaker.check Breaker.checkOpen
  split
  · exact ⟨rfl, rfl⟩
  · split
    · exact ⟨rfl, rfl⟩
    · simp only
      split
      · exact probe _
      · exact ⟨rfl, rfl⟩
    · exact probe breaker

theorem record_settings (enabled : breaker.config.enabled = true) (outcome : Outcome) (now : Instant) :
    (breaker.record outcome now).config = breaker.config ∧
      (breaker.record outcome now).baseline = breaker.baseline := by
  rcases record_cases enabled outcome now with ⟨_, _, same⟩ | ⟨_, same⟩ | ⟨_, same⟩ <;>
    rw [same] <;> exact ⟨rfl, rfl⟩

theorem step_settings (enabled : history.breaker.config.enabled = true) (call : Call × Instant) :
    (history.step call).breaker.config = history.breaker.config ∧
      (history.step call).breaker.baseline = history.breaker.baseline := by
  obtain ⟨call, now⟩ := call
  cases call with
  | check =>
      have settings := check_settings history.breaker now
      simp only [History.step]
      cases outcome : history.breaker.check now with
      | mk result next =>
          rw [outcome] at settings
          cases result with
          | error _ => exact settings
          | ok _ =>
              simp only
              split <;> exact settings
  | record outcome => exact record_settings enabled outcome now

variable (config : BreakerConfig) (start : Instant)

theorem start_sound (enabled : config.enabled = true) : (History.start config start).Sound :=
  { enabled := enabled
    slots := Nat.lt_of_lt_of_le Nat.zero_lt_one (Nat.le_max_right _ _)
    mirror := rfl
    counts := counts_nil rfl
    idle := fun _ => rfl
    tripped := fun opened => by cases opened
    probed := fun half => by cases half
    lease := fun half => by cases half }

theorem run_sound (enabled : config.enabled = true) (calls : List (Call × Instant)) :
    (History.run config start calls).Sound :=
  Runs.run_invariant _ step_sound _ _ (start_sound config start enabled)

theorem run_settings (enabled : config.enabled = true) (calls : List (Call × Instant)) :
    (History.run config start calls).breaker.config =
        { config with halfOpenMaxProbes := max config.halfOpenMaxProbes 1 } ∧
      (History.run config start calls).breaker.baseline = start := by
  have kept := @Runs.run_invariant History (Call × Instant) History.step
    (fun history => history.breaker.config =
        { config with halfOpenMaxProbes := max config.halfOpenMaxProbes 1 } ∧
      history.breaker.baseline = start)
  refine kept ?_ _ calls ⟨rfl, rfl⟩
  rintro history call ⟨same_config, same_baseline⟩
  have enabled_now : history.breaker.config.enabled = true := by
    rw [same_config]
    exact enabled
  have settings := step_settings enabled_now call
  exact ⟨settings.1.trans same_config, settings.2.trans same_baseline⟩

def Breaker.since (breaker : Breaker) (earlier now : Instant) : Duration :=
  Duration.fromMillis (breaker.elapsedMillis now - breaker.elapsedMillis earlier)

theorem floor_near {earlier now : Nat} (ordered : earlier ≤ now) :
    now - earlier < (now / 1000000 - earlier / 1000000) * 1000000 + 1000000 ∧
      (now / 1000000 - earlier / 1000000) * 1000000 < now - earlier + 1000000 := by
  omega

theorem since_near {earlier now : Instant} (after : breaker.baseline ≤ earlier)
    (ordered : earlier ≤ now) (readable : (now - breaker.baseline) / 1000000 < 2 ^ 64) :
    now - earlier < breaker.since earlier now + 1000000 ∧
      breaker.since earlier now < now - earlier + 1000000 := by
  -- Until the readings wrap, they are off by less than a millisecond.
  have apart : earlier - breaker.baseline ≤ now - breaker.baseline :=
    Nat.sub_le_sub_right ordered _
  have readable_earlier : (earlier - breaker.baseline) / 1000000 < 2 ^ 64 :=
    Nat.lt_of_le_of_lt (Nat.div_le_div_right apart) readable
  have same : now - earlier = now - breaker.baseline - (earlier - breaker.baseline) :=
    (Nat.sub_sub_sub_cancel_right after).symm
  rw [same]
  simp only [Breaker.since, Breaker.elapsedMillis, Duration.asMillis, Duration.fromMillis,
    Nat.mod_eq_of_lt readable, Nat.mod_eq_of_lt readable_earlier]
  exact floor_near apart

theorem Breaker.Counts.capped {episode : List Nat} (counts : breaker.Counts episode) :
    breaker.halfOpenProbes ≤ breaker.config.halfOpenMaxProbes :=
  counts.probes ▸ Nat.min_le_right _ _

theorem check_sheds (sound : history.Sound) (opened : history.breaker.state = .opened) :
    ∃ trip, history.tripAt = some trip ∧
      ∀ now, history.breaker.since trip now < history.breaker.config.openDuration →
        (history.breaker.check now).1 =
          .error ⟨history.breaker.config.openDuration - history.breaker.since trip now⟩ := by
  obtain ⟨trip, last, reading⟩ := sound.tripped opened
  refine ⟨trip, last, ?_⟩
  intro now early
  unfold Breaker.since at early ⊢
  rw [← reading] at early ⊢
  have waits := Nat.not_le_of_lt early
  simp [Breaker.check, Breaker.checkOpen, sound.enabled, opened, waits]

theorem check_recovers (sound : history.Sound) (now : Instant) (trip_past : ∀ trip ∈ history.tripAt,
      history.breaker.config.openDuration ≤ history.breaker.since trip now)
    (probe_past : ∀ probe ∈ history.probeAt,
      history.breaker.config.openDuration ≤ history.breaker.since probe now) :
    (history.breaker.check now).1 = .ok () := by
  -- The last claim is the last admitted probe, so a lease that has run out is taken over.
  cases state : history.breaker.state with
  | closed => simp [Breaker.check, sound.enabled, state]
  | opened =>
      obtain ⟨trip, last, reading⟩ := sound.tripped state
      have elapsed := trip_past trip last
      unfold Breaker.since at elapsed
      rw [← reading] at elapsed
      have free : history.breaker.halfOpenProbes < history.breaker.config.halfOpenMaxProbes := by
        have probes := sound.counts.probes
        have slots := sound.slots
        simp only [sound.idle (by simp [state]), List.map_nil, List.length_nil] at probes
        omega
      simp [Breaker.check, Breaker.checkOpen, Breaker.tryHalfOpenProbe, sound.enabled, state, elapsed,
        free]
  | halfOpen =>
      obtain ⟨probe, last, head⟩ := sound.probed state
      have claimed : history.breaker.probeClaimedAtMillis = history.breaker.elapsedMillis probe :=
        sound.counts.claimed _ (by simp [head])
      have expired : Duration.asMillis history.breaker.config.openDuration ≤
          history.breaker.elapsedMillis now - history.breaker.probeClaimedAtMillis := by
        rw [sound.lease state, claimed]
        exact Nat.div_le_of_le_mul (Nat.mul_comm _ 1000000 ▸ probe_past probe last)
      have check : history.breaker.check now = history.breaker.tryHalfOpenProbe now := by
        simp [Breaker.check, sound.enabled, state]
      rw [check]
      rcases tryHalfOpenProbe_cases history.breaker now with
        ⟨_, counted⟩ | ⟨_, ⟨_, takeover⟩ | ⟨live, _⟩⟩
      · rw [counted]
      · rw [takeover]
      · exact absurd expired (Nat.not_le_of_lt live)

theorem breaker_sheds_and_recovers (enabled : config.enabled = true) (calls : List (Call × Instant)) :
    let history := History.run config start calls
    let breaker := history.breaker
    (breaker.isOpen = decide (breaker.state = .opened) ∧
        (breaker.state = .opened → breaker.halfOpenProbes = 0) ∧
        breaker.halfOpenProbes ≤ max config.halfOpenMaxProbes 1) ∧
      (breaker.state = .opened →
        ∃ trip, history.tripAt = some trip ∧
          ∀ now, breaker.since trip now < config.openDuration →
            (breaker.check now).1 = .error ⟨config.openDuration - breaker.since trip now⟩) ∧
      (breaker.state = .halfOpen →
        Paced (max config.halfOpenMaxProbes 1) (config.openDuration / 1000000)
          (history.episode.map breaker.elapsedMillis)) ∧
      (∀ now, (∀ trip ∈ history.tripAt, config.openDuration ≤ breaker.since trip now) →
        (∀ probe ∈ history.probeAt, config.openDuration ≤ breaker.since probe now) →
        (breaker.check now).1 = .ok ()) ∧
      ∀ earlier now, start ≤ earlier → earlier ≤ now → (now - start) / 1000000 < 2 ^ 64 →
        now - earlier < breaker.since earlier now + 1000000 ∧
          breaker.since earlier now < now - earlier + 1000000 := by
  intro history breaker
  have sound : history.Sound := run_sound config start enabled calls
  obtain ⟨same_config, same_baseline⟩ := run_settings config start enabled calls
  have duration : breaker.config.openDuration = config.openDuration := by
    simp only [breaker, history, same_config]
  have slots : breaker.config.halfOpenMaxProbes = max config.halfOpenMaxProbes 1 := by
    simp only [breaker, history, same_config]
  refine ⟨⟨sound.mirror, ?_, ?_⟩, ?_, ?_, ?_, ?_⟩
  · intro opened
    have quiet := sound.idle (by simp [show history.breaker.state = .opened from opened])
    simpa [quiet] using sound.counts.probes
  · exact slots ▸ sound.counts.capped
  · intro opened
    exact duration ▸ check_sheds sound opened
  · intro half
    rw [← slots, ← duration, ← sound.lease half]
    exact sound.counts.paced
  · intro now trip_past probe_past
    exact check_recovers sound now (duration ▸ trip_past) (duration ▸ probe_past)
  · intro earlier now after ordered readable
    rw [← same_baseline] at after readable
    exact since_near after ordered readable

def quickConfig : BreakerConfig :=
  { windowDuration := Duration.fromMillis 60000
    minSamples := 1
    reachesErrorRate := fun failures samples => decide (samples ≤ 2 * failures)
    openDuration := Duration.fromMillis 1
    halfOpenMaxProbes := 1
    enabled := true }

theorem breaker_sheds_and_recovers_abandoned :
    let history := History.run quickConfig 0
      [(.record .failure, 5000000), (.check, 6000000), (.check, 6500000)]
    Paced 1 1 (history.episode.map history.breaker.elapsedMillis) ∧
      (history.breaker.check 7000000).1 = .ok () := by
  have recovers := breaker_sheds_and_recovers quickConfig 0 rfl
    [(.record .failure, 5000000), (.check, 6000000), (.check, 6500000)]
  exact ⟨recovers.2.2.1 rfl, recovers.2.2.2.1 7000000 (by decide +kernel) (by decide +kernel)⟩

theorem tripped_breaker_admits_early :
    let history := History.run quickConfig 0 [(.record .failure, 900000)]
    history.tripAt = some 900000 ∧ history.breaker.state = .opened ∧
      1000000 - 900000 < quickConfig.openDuration ∧ (history.breaker.check 1000000).1 = .ok () := by
  decide +kernel

end GrokPi.CircuitBreaker
