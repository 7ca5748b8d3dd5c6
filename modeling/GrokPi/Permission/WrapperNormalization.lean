import GrokPi.Permission.BashCommandSplitting

set_option autoImplicit false

namespace GrokPi.BashCommandSplitting

open Peeling

section Layers

/-- An `env` invocation whose argv the shell rewrites or whose options are not modeled. -/
def opaqueEnv (words : Words) : Bool :=
  programName words == some "env".toList &&
    ((envScan words).hasSplitString || (envScan words).optionsUncertain)

def peeledPrefix (words : Words) : Option Words :=
  match stripTransparentPrefix words with
  | .peeled inner => some inner
  | _ => none

def stripLayer (words : Words) : Option Words :=
  (stripWrapperCommand words).or (peeledPrefix words)

variable {words inner : Words}

theorem nonEmpty_some (found : nonEmpty words = some inner) : words = inner := by
  unfold nonEmpty at found
  split at found
  · exact absurd found (by simp)
  · exact Option.some.inj found

theorem skipOptions_suffix (withValue : List Text) (words : Words) :
    skipOptions withValue words <:+ words := by
  fun_induction skipOptions withValue words with
  | case1 => exact List.suffix_refl _
  | case2 => exact List.nil_suffix
  | case3 tok option takes operand rest ih => exact (ih.trans (List.suffix_cons _ _)).trans (List.suffix_cons _ _)
  | case4 tok rest option plain ih => exact ih.trans (List.suffix_cons _ _)
  | case5 => exact List.suffix_refl _

theorem envScanFrom_start (scan : EnvScan) (words : Words) :
    scan.commandStart ≤ (envScanFrom scan words).commandStart := by
  fun_induction envScanFrom scan words <;>
    simp_all [EnvScan.skip, EnvScan.uncertain, EnvScan.split] <;> omega

theorem envScan_start (cmd : Words) : 1 ≤ (envScan cmd).commandStart :=
  envScanFrom_start ⟨none, false, false, none, 1⟩ (cmd.drop 1)

theorem stripWrapperCommand_args {word : Text} {args inner : Words}
    (found : stripWrapperCommand (word :: args) = some inner) : inner <:+ args := by
  simp only [stripWrapperCommand] at found
  split at found
  · exact nonEmpty_some found ▸ (List.tail_suffix _).trans (skipOptions_suffix _ _)
  split at found
  · exact nonEmpty_some found ▸ skipOptions_suffix _ _
  split at found
  · exact nonEmpty_some found ▸ skipOptions_suffix _ _
  split at found
  · exact nonEmpty_some found ▸ (List.tail_suffix _).trans (skipOptions_suffix _ _)
  split at found
  · exact nonEmpty_some found ▸ skipOptions_suffix _ _
  split at found
  · split at found
    · exact absurd found (by simp)
    · obtain ⟨count, start⟩ := Nat.exists_eq_add_of_le (envScan_start (word :: args))
      rw [← nonEmpty_some found, start, Nat.add_comm, List.drop_succ_cons]
      exact List.drop_suffix _ _
  · exact absurd found (by simp)

theorem stripWrapperCommand_named
    (found : stripWrapperCommand words = some inner) : isWrapperCommand words = true := by
  cases words with
  | nil => simp [stripWrapperCommand] at found
  | cons word args =>
      by_contra other
      simp [isWrapperCommand, programName, wrapperNames] at other
      simp [stripWrapperCommand, other] at found

theorem stripWrapperCommand_hidden {words : Words} (hidden : opaqueEnv words = true) :
    stripWrapperCommand words = none := by
  -- An opaque `env` is not peeled.
  cases words with
  | nil => rfl
  | cons word args =>
      simp only [opaqueEnv, programName, List.head?_cons, Option.map_some, Bool.and_eq_true,
        beq_iff_eq, Option.some.injEq] at hidden
      obtain ⟨name, scanned⟩ := hidden
      simp [stripWrapperCommand, name, scanned]

theorem remaining_peeled (found : TransparentStrip.remaining words = .peeled inner) : inner = words := by
  unfold TransparentStrip.remaining at found
  split at found
  · exact absurd found (by simp)
  · exact (TransparentStrip.peeled.inj found).symm

theorem stripExecOptions_suffix (found : stripExecOptions words = .peeled inner) : inner <:+ words := by
  fun_induction stripExecOptions words with
  | case1 | case5 | case7 | case8 | case11 => simp at found
  | case2 => exact remaining_peeled found ▸ List.suffix_cons _ _
  | case3 => exact TransparentStrip.peeled.inj found ▸ List.suffix_refl _
  | case4 tok rest _ _ _ ih => exact (ih found).trans (List.suffix_cons _ _)
  | case6 value rest _ _ _ _ ih =>
      exact ((ih found).trans (List.suffix_cons _ _)).trans (List.suffix_cons _ _)
  | case9 tok rest _ _ _ _ _ _ ih => exact (ih found).trans (List.suffix_cons _ _)
  | case10 tok rest _ _ _ _ _ _ ih => exact (ih found).trans (List.suffix_cons _ _)

theorem stripCommandOptions_suffix
    (found : stripCommandOptions words = .peeled inner) : inner <:+ words := by
  fun_induction stripCommandOptions words with
  | case1 | case4 | case6 => simp at found
  | case2 => exact remaining_peeled found ▸ List.suffix_cons _ _
  | case3 => exact TransparentStrip.peeled.inj found ▸ List.suffix_refl _
  | case5 tok rest _ _ _ _ ih => exact (ih found).trans (List.suffix_cons _ _)

theorem stripBuiltinPrefix_suffix
    (found : stripBuiltinPrefix words = .peeled inner) : inner <:+ words.tail := by
  unfold stripBuiltinPrefix at found
  split at found
  · simp at found
  next tok rest args =>
    split at found
    · simp at found
    · simp [args, remaining_peeled found]

theorem stripTransparentPrefix_args {word : Text} {args inner : Words}
    (found : stripTransparentPrefix (word :: args) = .peeled inner) : inner <:+ args := by
  simp only [stripTransparentPrefix] at found
  split at found
  · simp at found
  split at found
  · exact stripExecOptions_suffix found
  split at found
  · exact stripCommandOptions_suffix found
  split at found
  · exact stripBuiltinPrefix_suffix found
  · simp at found

theorem stripTransparentPrefix_wrapper {words : Words} (named : isWrapperCommand words = true) :
    stripTransparentPrefix words = .notPrefix := by
  -- The two kinds of layers have different heads.
  cases words with
  | nil => rfl
  | cons word args =>
      simp only [isWrapperCommand, programName, List.head?_cons, Option.map_some, Option.any_some,
        wrapperNames, List.contains_eq_mem, List.mem_cons, List.not_mem_nil, or_false,
        decide_eq_true_eq] at named
      rcases named with name | name | name | name | name | name <;>
        simp [stripTransparentPrefix, name]

theorem opaqueEnv_named {words : Words} (hidden : opaqueEnv words = true) :
    isWrapperCommand words = true := by
  simp only [opaqueEnv, Bool.and_eq_true, beq_iff_eq] at hidden
  simp [isWrapperCommand, hidden.1, wrapperNames]

theorem peeledPrefix_some (found : peeledPrefix words = some inner) :
    stripTransparentPrefix words = .peeled inner := by
  unfold peeledPrefix at found
  split at found
  next peeled => rw [peeled, Option.some.inj found]
  next => simp at found

theorem stripLayer_shorter (found : stripLayer words = some inner) :
    inner <:+ words ∧ inner.length < words.length := by
  cases words with
  | nil => simp [stripLayer, stripWrapperCommand, peeledPrefix, stripTransparentPrefix] at found
  | cons word args =>
      have inside : inner <:+ args := by
        rcases Option.or_eq_some_iff.mp found with wrapper | ⟨-, transparent⟩
        · exact stripWrapperCommand_args wrapper
        · exact stripTransparentPrefix_args (peeledPrefix_some transparent)
      have bound := inside.length_le
      refine ⟨inside.trans (List.suffix_cons _ _), ?_⟩
      simp only [List.length_cons]
      omega

theorem stripLayer_wrapper (found : stripWrapperCommand words = some inner) :
    stripLayer words = some inner := by
  simp [stripLayer, found]

theorem stripLayer_prefix (found : peeledPrefix words = some inner) : stripLayer words = some inner := by
  have bare : stripWrapperCommand words = none := by
    by_contra wrapped
    obtain ⟨other, wrapper⟩ := Option.ne_none_iff_exists'.mp wrapped
    have plain := stripTransparentPrefix_wrapper (stripWrapperCommand_named wrapper)
    simp [peeledPrefix, plain] at found
  simp [stripLayer, bare, found]

theorem peel_suffix {count : Nat}
    (peeled : peel stripLayer count words = some inner) : inner <:+ words :=
  peel_related (fun outer inside => inside <:+ outer) (fun _ => List.suffix_refl _)
    (fun _ _ _ first second => second.trans first) (fun _ _ found => (stripLayer_shorter found).1)
    peeled

end Layers

section Rounds

structure CheckedWrapperPeel.Unflagged (peel : CheckedWrapperPeel) : Prop where
  split : peel.hasSplitString = false
  uncertain : peel.envOptionsUncertain = false
  exhausted : peel.exhausted = false

theorem scanned_opaque (peel : CheckedWrapperPeel) (clean : peel.Unflagged) :
    peel.scanned.words = peel.words ∧ peel.scanned.exhausted = false ∧
      (peel.scanned.hasSplitString || peel.scanned.envOptionsUncertain) = opaqueEnv peel.words := by
  by_cases env : programName peel.words = some "env".toList
  · simp [CheckedWrapperPeel.scanned, opaqueEnv, env, clean.split, clean.uncertain, clean.exhausted]
  · have other : (programName peel.words == some "env".toList) = false := beq_eq_false_iff_ne.mpr env
    rw [show peel.scanned = peel from if_neg env, opaqueEnv, other]
    simp [clean.split, clean.uncertain, clean.exhausted]

theorem unwrapWrappersFrom_core (budget : Nat) (peel : CheckedWrapperPeel) (clean : peel.Unflagged) :
    let result := unwrapWrappersFrom budget peel
    (∃ count < budget, Core stripWrapperCommand count peel.words result.words ∧
        result.exhausted = false ∧
        (result.hasSplitString || result.envOptionsUncertain) = opaqueEnv result.words) ∨
      Peeling.peel stripWrapperCommand budget peel.words = some result.words ∧
        result.exhausted = (stripWrapperCommand result.words).isSome ∧
        (result.hasSplitString || result.envOptionsUncertain) = false := by
  -- Either the last head was scanned, or the budget ended before it.
  induction budget generalizing peel with
  | zero =>
      refine Or.inr ⟨rfl, ?_, ?_⟩
      · cases inner : stripWrapperCommand peel.words with
        | none => simp [unwrapWrappersFrom, inner]
        | some inside => simp [unwrapWrappersFrom, inner, stripWrapperCommand_named inner]
      · simp [unwrapWrappersFrom, clean.split, clean.uncertain]
  | succ budget ih =>
      obtain ⟨words, exhausted, flags⟩ := scanned_opaque peel clean
      cases layer : stripWrapperCommand peel.words with
      | none =>
          refine Or.inl ⟨0, Nat.succ_pos budget, ?_⟩
          simp only [unwrapWrappersFrom, layer, words]
          exact ⟨⟨rfl, layer⟩, exhausted, flags⟩
      | some inner =>
          have visible : opaqueEnv peel.words = false := by
            by_contra hidden
            simp [stripWrapperCommand_hidden (Bool.not_eq_false _ ▸ hidden)] at layer
          rw [visible, Bool.or_eq_false_iff] at flags
          have next : CheckedWrapperPeel.Unflagged { peel.scanned with words := inner } :=
            ⟨flags.1, flags.2, exhausted⟩
          simp only [unwrapWrappersFrom, layer]
          rcases ih _ next with ⟨count, bound, core, rest⟩ | ⟨peeled, rest⟩
          · exact Or.inl ⟨count + 1, by omega, core.succ layer, rest⟩
          · exact Or.inr ⟨by rw [peel_succ, layer, Option.bind_some]; exact peeled, rest⟩

variable {words inner : Words}

theorem peelTransparentFrom_ready {budget : Nat}
    (ready : peelTransparentFrom budget words = .ready inner) :
    ∃ count ≤ budget, Core peeledPrefix count words inner ∧
      stripTransparentPrefix inner = .notPrefix := by
  induction budget generalizing words with
  | zero =>
      unfold peelTransparentFrom at ready
      split at ready
      next plain =>
        obtain rfl := TransparentPrefixPeel.ready.inj ready
        exact ⟨0, Nat.le_refl 0, ⟨rfl, by simp [peeledPrefix, plain]⟩, plain⟩
      next => simp at ready
  | succ budget ih =>
      cases layer : stripTransparentPrefix words with
      | notPrefix =>
          simp only [peelTransparentFrom, layer, TransparentPrefixPeel.ready.injEq] at ready
          subst ready
          exact ⟨0, Nat.zero_le _, ⟨rfl, by simp [peeledPrefix, layer]⟩, layer⟩
      | peeled inside =>
          simp only [peelTransparentFrom, layer] at ready
          obtain ⟨count, bound, core, plain⟩ := ih ready
          exact ⟨count + 1, by omega, core.succ (by simp [peeledPrefix, layer]), plain⟩
      | ambiguous => simp [peelTransparentFrom, layer] at ready

theorem peelTransparentFrom_core {budget count : Nat}
    (core : Core peeledPrefix count words inner) (bound : count ≤ budget)
    (plain : stripTransparentPrefix inner = .notPrefix) :
    peelTransparentFrom budget words = .ready inner := by
  induction count generalizing budget words with
  | zero =>
      obtain rfl : words = inner := Option.some.inj core.peeled
      cases budget <;> simp [peelTransparentFrom, plain]
  | succ count ih =>
      obtain ⟨middle, outer, rest⟩ := Option.bind_eq_some_iff.mp core.peeled
      obtain ⟨budget, rfl⟩ : ∃ less, budget = less + 1 := ⟨budget - 1, by omega⟩
      simp only [peelTransparentFrom, peeledPrefix_some outer]
      exact ih ⟨rest, core.bare⟩ (by omega)

/-- A round of the normalization that stays within both budgets and makes progress. -/
structure Round (wrappers prefixes : Nat) (words inner : Words) : Prop where
  layers : ∃ middle, Core stripWrapperCommand wrappers words middle ∧
    Core peeledPrefix prefixes middle inner
  plain : stripTransparentPrefix inner = .notPrefix
  wrapperBound : wrappers ≤ maxWrapperDepth
  prefixBound : prefixes ≤ maxTransparentPrefixDepth
  progress : 0 < wrappers + prefixes

def Rounds : Nat → Words → Words → Prop
  | 0, words, inner => words = inner
  | rounds + 1, words, inner =>
      ∃ wrappers prefixes middle, Round wrappers prefixes words middle ∧ Rounds rounds middle inner

/-- The last round ends with a head that neither peeler has looked at. -/
def Unscanned (words : Words) : Prop :=
  ∃ middle core wrappers prefixes, Rounds (maxNormalizeRounds - 1) words middle ∧
    Round wrappers prefixes middle core ∧ (wrappers = maxWrapperDepth ∨ 0 < prefixes) ∧
    opaqueEnv core = true

structure NormalizedCommandPeel.Clean (peel : NormalizedCommandPeel) : Prop where
  split : peel.hasSplitString = false
  uncertain : peel.envOptionsUncertain = false
  exhausted : peel.exhausted = false
  ambiguous : peel.ambiguous = false

instance (peel : NormalizedCommandPeel) : Decidable peel.Clean :=
  decidable_of_iff (peel.hasSplitString = false ∧ peel.envOptionsUncertain = false ∧
      peel.exhausted = false ∧ peel.ambiguous = false)
    ⟨fun ⟨split, uncertain, exhausted, ambiguous⟩ => ⟨split, uncertain, exhausted, ambiguous⟩,
      fun clean => ⟨clean.split, clean.uncertain, clean.exhausted, clean.ambiguous⟩⟩

variable {wrappers prefixes : Nat}

theorem peel_round {words middle inner : Words}
    (wrapper : Core stripWrapperCommand wrappers words middle)
    (transparent : Core peeledPrefix prefixes middle inner) :
    peel stripLayer (wrappers + prefixes) words = some inner := by
  rw [peel_add, peel_transfer (fun _ _ => stripLayer_wrapper) wrapper.peeled, Option.bind_some]
  exact peel_transfer (fun _ _ => stripLayer_prefix) transparent.peeled

theorem Round.peeled (round : Round wrappers prefixes words inner) :
    peel stripLayer (wrappers + prefixes) words = some inner := by
  obtain ⟨middle, wrapper, transparent⟩ := round.layers
  exact peel_round wrapper transparent

theorem peel_shorter {count : Nat}
    (peeled : peel stripLayer count words = some inner) : inner.length + count ≤ words.length := by
  induction count generalizing words with
  | zero => simp [Option.some.inj peeled]
  | succ count ih =>
      obtain ⟨middle, outer, rest⟩ := Option.bind_eq_some_iff.mp peeled
      have shorter := (stripLayer_shorter outer).2
      have below := ih rest
      omega

theorem normalizeRounds_exhausted (rounds : Nat) (peel : NormalizedCommandPeel)
    (exhausted : peel.exhausted = true) : (normalizeRounds rounds peel).exhausted = true := by
  -- Exhaustion found in one round is reported after all of them.
  induction rounds generalizing peel with
  | zero => exact exhausted
  | succ rounds ih =>
      have kept : peel.unwrapped.exhausted = true := by
        simp [NormalizedCommandPeel.unwrapped, exhausted]
      simp only [normalizeRounds]
      split
      · exact kept
      split
      · exact kept
      split
      · exact kept
      · exact ih _ kept

theorem unwrapped_cases (peel : NormalizedCommandPeel) (clean : peel.Clean) :
    (∃ count ≤ maxWrapperDepth, Core stripWrapperCommand count peel.words peel.unwrapped.words ∧
        peel.unwrapped.exhausted = false ∧
        (peel.unwrapped.hasSplitString || peel.unwrapped.envOptionsUncertain) =
          (decide (count < maxWrapperDepth) && opaqueEnv peel.unwrapped.words)) ∨
      peel.unwrapped.exhausted = true ∧
        ∃ inner, Peeling.peel stripWrapperCommand (maxWrapperDepth + 1) peel.words = some inner := by
  -- A clean peel is unwrapped within the budget, or a ninth wrapper is left.
  simp only [NormalizedCommandPeel.unwrapped, clean.split, clean.uncertain, clean.exhausted,
    Bool.false_or, unwrapWrappersChecked]
  rcases unwrapWrappersFrom_core maxWrapperDepth ⟨peel.words, false, false, false, false⟩ ⟨rfl, rfl, rfl⟩
    with ⟨count, bound, core, exhausted, flags⟩ | ⟨peeled, exhausted, flags⟩
  · exact Or.inl ⟨count, bound.le, core, exhausted, by rw [flags]; simp [bound]⟩
  · cases layer : stripWrapperCommand
        (unwrapWrappersFrom maxWrapperDepth ⟨peel.words, false, false, false, false⟩).words with
    | none =>
        rw [layer] at exhausted
        exact Or.inl ⟨maxWrapperDepth, le_rfl, ⟨peeled, layer⟩, exhausted, by simpa using flags⟩
    | some inner =>
        rw [layer] at exhausted
        refine Or.inr ⟨exhausted, inner, ?_⟩
        rw [peel_add, peeled, Option.bind_some, peel_succ, layer]
        rfl

structure Bare (words : Words) : Prop where
  wrapper : stripWrapperCommand words = none
  transparent : stripTransparentPrefix words = .notPrefix
  visible : opaqueEnv words = false

theorem normalizeRounds_ready (rounds : Nat) {peel : NormalizedCommandPeel} {inner : Words}
    (visible : (peel.unwrapped.hasSplitString || peel.unwrapped.envOptionsUncertain) = false)
    (transparent : peelTransparentPrefixes peel.unwrapped.words = .ready inner) :
    normalizeRounds (rounds + 1) peel =
      if inner.length = peel.words.length then { peel.unwrapped with words := inner }
      else normalizeRounds rounds { peel.unwrapped with words := inner } := by
  simp only [normalizeRounds, visible, transparent, Bool.false_eq_true, if_false]

theorem opaqueEnv_unpeeled {prefixes : Nat} (moved : 0 < prefixes)
    (core : Core peeledPrefix prefixes words inner) : opaqueEnv words = false := by
  by_contra hidden
  have plain := stripTransparentPrefix_wrapper (opaqueEnv_named (Bool.not_eq_false _ ▸ hidden))
  obtain ⟨fewer, rfl⟩ : ∃ fewer, prefixes = fewer + 1 := ⟨prefixes - 1, by omega⟩
  have peeled := core.peeled
  simp [peel_succ, peeledPrefix, plain] at peeled

theorem normalizeRounds_cases (rounds : Nat) (peel : NormalizedCommandPeel) (clean : peel.Clean) :
    let result := normalizeRounds (rounds + 1) peel
    ¬ result.Clean ∨ (result.words = peel.words ∧ Bare result.words) ∨
      ∃ wrappers prefixes next, Round wrappers prefixes peel.words next.words ∧
        (wrappers = maxWrapperDepth ∨ 0 < prefixes ∨ opaqueEnv next.words = false) ∧
        next.Clean ∧ result = normalizeRounds rounds next := by
  intro result
  rcases unwrapped_cases peel clean with ⟨count, bound, core, exhausted, flags⟩ | ⟨exhausted, -⟩
  · by_cases flagged : (peel.unwrapped.hasSplitString || peel.unwrapped.envOptionsUncertain) = true
    · refine Or.inl fun unflagged => ?_
      have shown : result = peel.unwrapped := by simp only [result, normalizeRounds, if_pos flagged]
      rw [shown] at unflagged
      simp [unflagged.split, unflagged.uncertain] at flagged
    rw [Bool.not_eq_true] at flagged
    cases transparent : peelTransparentPrefixes peel.unwrapped.words with
    | ambiguous =>
        refine Or.inl fun unflagged => ?_
        have flag := unflagged.ambiguous
        simp [result, normalizeRounds, flagged, transparent] at flag
    | ready inner =>
        have step : result = _ := normalizeRounds_ready rounds flagged transparent
        obtain ⟨prefixes, prefixBound, prefixCore, plain⟩ := peelTransparentFrom_ready transparent
        have visible : count = maxWrapperDepth ∨ 0 < prefixes ∨ opaqueEnv inner = false := by
          rcases Nat.lt_or_ge count maxWrapperDepth with scanned | spent
          · rcases Nat.eq_zero_or_pos prefixes with rfl | moved
            · obtain rfl := Option.some.inj prefixCore.peeled
              exact Or.inr (Or.inr (by simpa [scanned, flagged] using flags))
            · exact Or.inr (Or.inl moved)
          · exact Or.inl (by omega)
        have shorter := peel_shorter (peel_round core prefixCore)
        by_cases same : inner.length = peel.words.length
        · -- Nothing was peeled, so the first head was scanned.
          obtain ⟨rfl, rfl⟩ : count = 0 ∧ prefixes = 0 := by omega
          have unwrapped := Option.some.inj core.peeled
          have here := Option.some.inj prefixCore.peeled
          rw [if_pos same] at step
          refine Or.inr (Or.inl ?_)
          rw [step]
          refine ⟨(unwrapped.trans here).symm, here ▸ core.bare, plain, ?_⟩
          simpa [maxWrapperDepth] using visible
        · rw [if_neg same] at step
          rw [Bool.or_eq_false_iff] at flagged
          refine Or.inr (Or.inr ⟨count, prefixes, _, ?_, visible, ?_, step⟩)
          · refine ⟨⟨_, core, prefixCore⟩, plain, bound, prefixBound, ?_⟩
            by_contra still
            obtain ⟨rfl, rfl⟩ : count = 0 ∧ prefixes = 0 := by omega
            have whole := peel_round core prefixCore
            exact same (by rw [Option.some.inj whole])
          · exact ⟨flagged.1, flagged.2, exhausted, clean.ambiguous⟩
  · refine Or.inl fun unflagged => ?_
    have kept : result.exhausted = true := by
      simp only [result, normalizeRounds]
      split
      · exact exhausted
      split
      · exact exhausted
      split
      · exact exhausted
      · exact normalizeRounds_exhausted rounds _ exhausted
    simp [unflagged.exhausted] at kept

theorem normalizeRounds_round (rounds : Nat) (peel : NormalizedCommandPeel) (clean : peel.Clean)
    {inner : Words} (round : Round wrappers prefixes peel.words inner)
    (unseen : wrappers = maxWrapperDepth ∨ 0 < prefixes ∨ opaqueEnv inner = false) :
    ∃ next : NormalizedCommandPeel, next.Clean ∧ next.words = inner ∧
      normalizeRounds (rounds + 1) peel = normalizeRounds rounds next := by
  -- A round whose last head is scanned, or cannot hide anything, leads to the next round.
  obtain ⟨middle, wrapper, transparent⟩ := round.layers
  rcases unwrapped_cases peel clean with ⟨count, bound, core, exhausted, flags⟩ | ⟨-, deeper, peeled⟩
  · obtain ⟨rfl, between⟩ := wrapper.unique core
    subst between
    have visible : (peel.unwrapped.hasSplitString || peel.unwrapped.envOptionsUncertain) = false := by
      rw [flags, Bool.and_eq_false_iff, decide_eq_false_iff_not]
      rcases unseen with spent | moved | visible
      · exact Or.inl (by omega)
      · exact Or.inr (opaqueEnv_unpeeled moved transparent)
      · rcases Nat.eq_zero_or_pos prefixes with rfl | moved
        · exact Or.inr (Option.some.inj transparent.peeled ▸ visible)
        · exact Or.inr (opaqueEnv_unpeeled moved transparent)
    have ready := peelTransparentFrom_core transparent round.prefixBound round.plain
    have shorter := peel_shorter (peel_round wrapper transparent)
    have moved := round.progress
    rw [normalizeRounds_ready rounds visible ready, if_neg (by omega)]
    rw [Bool.or_eq_false_iff] at visible
    exact ⟨{ peel.unwrapped with words := inner },
      ⟨visible.1, visible.2, exhausted, clean.ambiguous⟩, rfl, rfl⟩
  · have below := wrapper.count_le peeled
    have bound := round.wrapperBound
    omega

theorem normalizeRounds_clean (rounds : Nat) (peel : NormalizedCommandPeel) (clean : peel.Clean)
    (unflagged : (normalizeRounds (rounds + 1) peel).Clean) :
    let core := (normalizeRounds (rounds + 1) peel).words
    (∃ count, Peeling.peel stripLayer count peel.words = some core) ∧
      (Bare core ∨ ∃ middle wrappers prefixes, Rounds rounds peel.words middle ∧
        Round wrappers prefixes middle core ∧
        (wrappers = maxWrapperDepth ∨ 0 < prefixes ∨ opaqueEnv core = false)) := by
  -- A clean normalization settles on a bare command or uses up its rounds.
  induction rounds generalizing peel with
  | zero =>
      rcases normalizeRounds_cases 0 peel clean with flagged | ⟨same, bare⟩ |
        ⟨wrappers, prefixes, next, round, unseen, -, step⟩
      · exact absurd unflagged flagged
      · exact ⟨⟨0, by rw [same]; rfl⟩, Or.inl bare⟩
      · rw [step]
        exact ⟨⟨_, round.peeled⟩, Or.inr ⟨_, wrappers, prefixes, rfl, round, unseen⟩⟩
  | succ rounds ih =>
      rcases normalizeRounds_cases (rounds + 1) peel clean with flagged | ⟨same, bare⟩ |
        ⟨wrappers, prefixes, next, round, -, nextClean, step⟩
      · exact absurd unflagged flagged
      · exact ⟨⟨0, by rw [same]; rfl⟩, Or.inl bare⟩
      · rw [step] at unflagged ⊢
        obtain ⟨⟨count, peeled⟩, ended⟩ := ih next nextClean unflagged
        refine ⟨⟨wrappers + prefixes + count, ?_⟩, ended.imp_right ?_⟩
        · rw [peel_add, round.peeled]
          exact peeled
        · rintro ⟨middle, lastWrappers, lastPrefixes, rest, last⟩
          exact ⟨middle, lastWrappers, lastPrefixes, ⟨wrappers, prefixes, next.words, round, rest⟩, last⟩

theorem Round.visible (round : Round wrappers prefixes words inner) : opaqueEnv words = false := by
  -- A round starts at a head that comes off.
  obtain ⟨middle, wrapper, transparent⟩ := round.layers
  cases wrappers with
  | zero =>
      obtain rfl := Option.some.inj wrapper.peeled
      exact opaqueEnv_unpeeled (by simpa using round.progress) transparent
  | succ wrappers =>
      by_contra hidden
      have bare := stripWrapperCommand_hidden (Bool.not_eq_false _ ▸ hidden)
      have peeled := wrapper.peeled
      simp [peel_succ, bare] at peeled

theorem Rounds.visible {rounds : Nat} (passed : Rounds rounds words inner)
    (visible : opaqueEnv inner = false) : opaqueEnv words = false := by
  cases rounds with
  | zero => exact passed ▸ visible
  | succ rounds =>
      obtain ⟨wrappers, prefixes, middle, round, -⟩ := passed
      exact round.visible

theorem normalizeRounds_rounds (rounds more : Nat) (peel : NormalizedCommandPeel) (clean : peel.Clean)
    {inner : Words} (passed : Rounds rounds peel.words inner) (visible : opaqueEnv inner = false) :
    ∃ next : NormalizedCommandPeel, next.Clean ∧ next.words = inner ∧
      normalizeRounds (rounds + more) peel = normalizeRounds more next := by
  induction rounds generalizing peel with
  | zero => exact ⟨peel, clean, passed, by rw [Nat.zero_add]⟩
  | succ rounds ih =>
      obtain ⟨wrappers, prefixes, middle, round, rest⟩ := passed
      obtain ⟨next, nextClean, rfl, step⟩ := normalizeRounds_round (rounds + more) peel clean round
        (Or.inr (Or.inr (rest.visible visible)))
      obtain ⟨last, lastClean, words, steps⟩ := ih next nextClean rest
      exact ⟨last, lastClean, words, by rw [Nat.succ_add, step, steps]⟩

theorem start_clean (words : Words) : (NormalizedCommandPeel.start words).Clean :=
  ⟨rfl, rfl, rfl, rfl⟩

theorem checked_words (peel : NormalizedCommandPeel) : peel.checked.words = peel.words := by
  simp only [NormalizedCommandPeel.checked]
  split
  · split <;> rfl
  · rfl

theorem checked_clean (peel : NormalizedCommandPeel) :
    peel.checked.Clean ↔ peel.Clean ∧ stripWrapperCommand peel.words = none ∧
      stripTransparentPrefix peel.words = .notPrefix := by
  have peelable : (isWrapperCommand peel.words && (stripWrapperCommand peel.words).isSome ||
      stripTransparentPrefix peel.words != .notPrefix) = false ↔
      stripWrapperCommand peel.words = none ∧ stripTransparentPrefix peel.words = .notPrefix := by
    cases layer : stripWrapperCommand peel.words with
    | none => simp
    | some inner => simp [stripWrapperCommand_named layer]
  rw [← peelable]
  constructor
  · intro clean
    unfold NormalizedCommandPeel.checked at clean
    split at clean
    next =>
      simp only at clean
      split at clean
      next => exact absurd clean.exhausted (by simp)
      next bare => exact ⟨clean, by simpa only [Bool.not_eq_true] using bare⟩
    next flagged =>
      exact absurd (by simp [clean.split, clean.uncertain, clean.ambiguous]) flagged
  · rintro ⟨clean, bare⟩
    have kept : peel.checked = peel := by
      simp only [NormalizedCommandPeel.checked, bare, Bool.false_eq_true, if_false, ite_self]
    rw [kept]
    exact clean

theorem unwrapWrappersFrom_suffix (budget : Nat) (peel : CheckedWrapperPeel) :
    (unwrapWrappersFrom budget peel).words <:+ peel.words := by
  induction budget generalizing peel with
  | zero => exact List.suffix_refl _
  | succ budget ih =>
      have scanned : peel.scanned.words = peel.words := by
        unfold CheckedWrapperPeel.scanned
        split <;> rfl
      simp only [unwrapWrappersFrom]
      split
      next inner layer =>
        exact (ih _).trans (stripLayer_shorter (stripLayer_wrapper layer)).1
      next => exact scanned ▸ List.suffix_refl _

theorem normalizeRounds_suffix (rounds : Nat) (peel : NormalizedCommandPeel) :
    (normalizeRounds rounds peel).words <:+ peel.words := by
  induction rounds generalizing peel with
  | zero => exact List.suffix_refl _
  | succ rounds ih =>
      have unwrapped : peel.unwrapped.words <:+ peel.words := unwrapWrappersFrom_suffix _ _
      simp only [normalizeRounds]
      split
      · exact unwrapped
      split
      next => exact unwrapped
      next inner ready =>
        obtain ⟨count, -, core, -⟩ := peelTransparentFrom_ready ready
        have below := (peel_suffix (peel_transfer (fun _ _ => stripLayer_prefix) core.peeled)).trans unwrapped
        split
        · exact below
        · exact (ih _).trans below

theorem normalizeCommandWords_suffix (words : Words) : (normalizeCommandWords words).words <:+ words := by
  rw [normalizeCommandWords, checked_words]
  exact normalizeRounds_suffix _ _

/-- What the normalization promises for an argv that raises no flag. -/
def FailsClosed (words : Words) : Prop :=
  let result := normalizeCommandWords words
  result.Clean → (result.words <:+ words ∧ Bare result.words) ∧
    ∀ layers command, Core stripLayer layers words command → result.words = command

theorem unscanned_clean {words : Words} (unscanned : Unscanned words) :
    (normalizeCommandWords words).Clean ∧ opaqueEnv (normalizeCommandWords words).words = true := by
  obtain ⟨middle, core, wrappers, prefixes, passed, round, unseen, hidden⟩ := unscanned
  obtain ⟨next, nextClean, rfl, steps⟩ := normalizeRounds_rounds (maxNormalizeRounds - 1) 1
    (.start words) (start_clean words) passed round.visible
  obtain ⟨last, lastClean, rfl, step⟩ := normalizeRounds_round 0 next nextClean round
    (unseen.imp_right Or.inl)
  have result : normalizeRounds maxNormalizeRounds (.start words) = last := by
    rw [show maxNormalizeRounds = maxNormalizeRounds - 1 + 1 from rfl, steps, step]
    rfl
  rw [normalizeCommandWords, checked_clean, checked_words, result]
  exact ⟨⟨lastClean, stripWrapperCommand_hidden hidden, round.plain⟩, hidden⟩

theorem clean_layers {words : Words} (clean : (normalizeCommandWords words).Clean) :
    (∃ layers, Core stripLayer layers words (normalizeCommandWords words).words) ∧
      (opaqueEnv (normalizeCommandWords words).words = true → Unscanned words) := by
  obtain ⟨unflagged, wrapper, transparent⟩ := (checked_clean _).mp clean
  obtain ⟨⟨count, peeled⟩, ended⟩ := normalizeRounds_clean (maxNormalizeRounds - 1)
    (.start words) (start_clean words) unflagged
  have same : (normalizeCommandWords words).words =
      (normalizeRounds (maxNormalizeRounds - 1 + 1) (.start words)).words := checked_words _
  rw [← same] at peeled ended
  have bare : stripWrapperCommand (normalizeCommandWords words).words = none := same ▸ wrapper
  have plain : stripTransparentPrefix (normalizeCommandWords words).words = .notPrefix :=
    same ▸ transparent
  refine ⟨⟨count, peeled, by simp [stripLayer, peeledPrefix, bare, plain]⟩, fun hidden => ?_⟩
  rcases ended with shown | ⟨middle, wrappers, prefixes, passed, round, unseen⟩
  · simp [shown.visible] at hidden
  · exact ⟨middle, _, wrappers, prefixes, passed, round, by simpa [hidden] using unseen, hidden⟩

theorem clean_bare {words : Words} (clean : (normalizeCommandWords words).Clean)
    (scanned : ¬ Unscanned words) : Bare (normalizeCommandWords words).words := by
  obtain ⟨-, wrapper, transparent⟩ := (checked_clean _).mp clean
  rw [← checked_words] at wrapper transparent
  refine ⟨wrapper, transparent, ?_⟩
  by_contra hidden
  exact scanned ((clean_layers clean).2 (Bool.not_eq_false _ ▸ hidden))

/-- Unflagged words are bare unless sixteen rounds end right before an unscanned `env`. -/
theorem normalization_fails_closed (words : Words) : FailsClosed words ↔ ¬ Unscanned words := by
  constructor
  · intro closed unscanned
    obtain ⟨clean, hidden⟩ := unscanned_clean unscanned
    simp [(closed clean).1.2.visible] at hidden
  · intro scanned clean
    obtain ⟨layers, core⟩ := (clean_layers clean).1
    exact ⟨⟨peel_suffix core.peeled, clean_bare clean scanned⟩,
      fun others command whole => (core.unique whole).2⟩

def layered : Words :=
  (List.replicate 15 ["command".toList, "nice".toList]).flatten ++
    ["command".toList, "env".toList, "-S".toList, "(ls)".toList]

theorem layered_env_unflagged : ¬ ∀ words, FailsClosed words := by
  intro closed
  have clean : (normalizeCommandWords layered).Clean := by decide
  have hidden : opaqueEnv (normalizeCommandWords layered).words = true := by decide
  simp [(closed layered clean).1.2.visible] at hidden

end Rounds

end GrokPi.BashCommandSplitting
