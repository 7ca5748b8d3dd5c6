import Mathlib
import GrokPi.Permission.Policy
import GrokPi.Permission.WrapperNormalization

set_option autoImplicit false

namespace GrokPi.Policy

open BashCommandSplitting

section Ranks

def gateRank (decision : Option GateDecision) : Nat := (decision.map GateDecision.rank).getD 0

theorem gateRank_combine (a b : Option GateDecision) :
    gateRank (combineGateDecisions a b) = max (gateRank a) (gateRank b) := by
  cases a with
  | none => cases b <;> simp [combineGateDecisions, gateRank]
  | some a =>
      cases b with
      | none => simp [combineGateDecisions, gateRank]
      | some b =>
          simp only [combineGateDecisions, gateRank, Option.map_some, Option.getD_some]
          split <;> omega

theorem gateRank_le (decision : Option GateDecision) : gateRank decision ≤ 3 := by
  rcases decision with _ | _ | _ | _ <;> simp [gateRank, GateDecision.rank]

theorem gateRank_reject (decision : Option GateDecision) :
    gateRank decision = 3 ↔ ∃ reason, decision = some (.reject reason) := by
  rcases decision with _ | _ | _ | _ <;> simp [gateRank, GateDecision.rank]

theorem gateRank_askRuleMatch (decision : Option GateDecision) :
    gateRank decision = 2 ↔ decision = some .askRuleMatch := by
  rcases decision with _ | _ | _ | _ <;> simp [gateRank, GateDecision.rank]

theorem gateRank_askFailClosed (decision : Option GateDecision) :
    gateRank decision = 1 ↔ decision = some .askFailClosed := by
  rcases decision with _ | _ | _ | _ <;> simp [gateRank, GateDecision.rank]

theorem gateRank_failClosedIf (flag : Bool) :
    gateRank (failClosedIf flag) = if flag then 1 else 0 := by
  cases flag <;> rfl

end Ranks

variable {Pattern : Type} {deps : Externals Pattern}

section Rules

def Matched (policy : CompiledPolicy deps) (action : RuleAction) (segment : Text) : Prop :=
  ∃ rule ∈ policy.rules, rule.action = action ∧ toolFilterMatches (.bash segment) rule.tool = true ∧
    patternMatches deps (.bash segment) rule (compileMatcher deps rule) none = true

theorem applicable_eq (policy : CompiledPolicy deps) (access : AccessKind) (cwd : Option Text) :
    policy.applicable access cwd = policy.rules.filter fun rule =>
      toolFilterMatches access rule.tool &&
        patternMatches deps access rule (compileMatcher deps rule) cwd := by
  rw [CompiledPolicy.applicable, policy.matchersCompiled]
  generalize policy.rules = rules
  induction rules with
  | nil => rfl
  | cons rule rest ih =>
      simp only [List.map_cons, List.zip_cons_cons, List.filter_cons]
      split
      next => rw [List.map_cons, ih]
      next => exact ih

theorem applicable_matched (policy : CompiledPolicy deps) (segment : Text) (action : RuleAction) :
    (∃ rule ∈ policy.applicable (.bash segment) none, rule.action = action) ↔
      Matched policy action segment := by
  simp only [applicable_eq, List.mem_filter, Bool.and_eq_true, Matched]
  grind

theorem evaluate_bash (policy : CompiledPolicy deps) (segment : Text) :
    policy.evaluate (.bash segment) = policy.evaluateLexicalWithCwd (.bash segment) none := rfl

theorem escalate_rank (policy : CompiledPolicy deps) (segment : Text) (level : Nat)
    (positive : 1 ≤ level) :
    level ≤ gateRank (policy.escalate segment) ↔
      (level ≤ 3 ∧ Matched policy .deny segment) ∨ (level ≤ 2 ∧ Matched policy .ask segment) := by
  -- A segment's rank is decided by the rules that match it.
  rw [← applicable_matched, ← applicable_matched]
  simp only [CompiledPolicy.escalate, evaluate_bash, CompiledPolicy.evaluateLexicalWithCwd]
  cases denied : (policy.applicable (.bash segment) none).find? (·.action == .deny) with
  | some rule =>
      have matched : ∃ rule ∈ policy.applicable (.bash segment) none, rule.action = .deny :=
        ⟨rule, List.mem_of_find?_eq_some denied, by simpa using List.find?_some denied⟩
      simp only [gateRank, Option.map_some, GateDecision.rank, Option.getD_some, matched, and_true]
      omega
  | none =>
      have free : ¬ ∃ rule ∈ policy.applicable (.bash segment) none, rule.action = .deny := by
        simpa using denied
      simp only [free, and_false, false_or]
      by_cases asked : (policy.applicable (.bash segment) none).any (·.action == .ask) = true
      · have matched : ∃ rule ∈ policy.applicable (.bash segment) none, rule.action = .ask := by
          simpa using asked
        simp only [asked, if_true, gateRank, Option.map_some, GateDecision.rank, Option.getD_some,
          matched, and_true]
      · have unasked : ¬ ∃ rule ∈ policy.applicable (.bash segment) none, rule.action = .ask := by
          simpa using asked
        simp only [asked, unasked, and_false]
        by_cases allowed : (policy.hasBashAllowRules &&
            policy.bashChainFullyAllowed .any maxInlineShellDepth segment) = true <;>
          simp [allowed, gateRank] <;> omega

theorem escalate_perm {policy other : CompiledPolicy deps} (perm : other.rules.Perm policy.rules)
    (segment : Text) : gateRank (other.escalate segment) = gateRank (policy.escalate segment) := by
  have same : ∀ level, 1 ≤ level →
      (level ≤ gateRank (other.escalate segment) ↔ level ≤ gateRank (policy.escalate segment)) := by
    intro level positive
    simp only [escalate_rank _ _ _ positive, Matched, perm.mem_iff]
  have above := same (gateRank (other.escalate segment))
  have below := same (gateRank (policy.escalate segment))
  omega

end Rules

section Scripts

def DashC (words : Words) (script : Text) : Prop :=
  ∃ index, shellDashCScript (literalWords (normalizeCommandWords words).words) = .literal index ∧
    script = (normalizeCommandWords words).words.getD index []

/-- The script that `env` splits into an argv. -/
def PackedEnv (words : Words) (script : Text) : Prop :=
  envSplitStringScript (normalizeCommandWords words).words = some script

def Inner (words : Words) (script : Text) : Prop := DashC words script ∨ PackedEnv words script

inductive Reaches (deps : Externals Pattern) (inner : Words → Text → Prop) :
    Nat → Text → Nat → Text → Prop where
  | here (depth : Nat) (script : Text) : Reaches deps inner depth script depth script
  | nested {depth left : Nat} {script nestedScript target : Text} {segments : List Words} {words : Words}
      (parsed : deps.allCommandsFromScript script = some segments) (member : words ∈ segments)
      (found : inner words nestedScript) (rest : Reaches deps inner depth nestedScript left target) :
      Reaches deps inner (depth + 1) script left target

def Segment (deps : Externals Pattern) (script : Text) (words : Words) : Prop :=
  ∃ segments, deps.allCommandsFromScript script = some segments ∧ words ∈ segments

def Flagged (words : Words) : Prop := ¬ (normalizeCommandWords words).Clean

def UnclearShell (words : Words) : Prop :=
  shellDashCScript (literalWords (normalizeCommandWords words).words) ∈
    [InlineShellScript.untrusted, .unrecognized]

def Unanalyzed (deps : Externals Pattern) (left : Nat) (script : Text) : Prop :=
  deps.allCommandsFromScript script = none ∨ ∃ words, Segment deps script words ∧
    (Flagged words ∨ UnclearShell words ∨ left = 0 ∧ ∃ nestedScript, Inner words nestedScript)

def SegmentMatched (policy : CompiledPolicy deps) (action : RuleAction) (words : Words) : Prop :=
  Matched policy action (joinWords words) ∨
    Matched policy action (joinWords (normalizeCommandWords words).words)

theorem unflagged_iff (words : Words) :
    Flagged words ↔ ((normalizeCommandWords words).exhausted || (normalizeCommandWords words).ambiguous ||
      (normalizeCommandWords words).envOptionsUncertain ||
      (normalizeCommandWords words).hasSplitString) = true := by
  rw [Flagged, not_iff_comm, Bool.not_eq_true]
  simp only [Bool.or_eq_false_iff]
  constructor
  · rintro ⟨⟨⟨exhausted, ambiguous⟩, uncertain⟩, split⟩
    exact ⟨split, uncertain, exhausted, ambiguous⟩
  · intro clean
    exact ⟨⟨⟨clean.exhausted, clean.ambiguous⟩, clean.uncertain⟩, clean.split⟩

def innerRank (recurse : Option (Text → Option GateDecision)) (script : Text) : Nat :=
  match recurse with
  | some recurse => gateRank (recurse script)
  | none => 1

theorem inlineDecision_rank (recurse : Option (Text → Option GateDecision)) (words : Words)
    (level : Nat) (positive : 1 ≤ level) :
    level ≤ gateRank (inlineDecision recurse (normalizeCommandWords words).words) ↔
      level = 1 ∧ UnclearShell words ∨ ∃ script, DashC words script ∧ level ≤ innerRank recurse script := by
  unfold inlineDecision UnclearShell DashC
  cases shell : shellDashCScript (literalWords (normalizeCommandWords words).words) with
  | notInline => simp [gateRank]; omega
  | literal index => cases recurse <;> simp [innerRank, gateRank, GateDecision.rank]
  | untrusted => simp [gateRank, GateDecision.rank]; omega
  | unrecognized => simp [gateRank, GateDecision.rank]; omega

theorem packedDecision_rank (recurse : Option (Text → Option GateDecision)) (words : Words)
    (level : Nat) (positive : 1 ≤ level) :
    level ≤ gateRank (packedDecision recurse (normalizeCommandWords words).words) ↔
      ∃ script, PackedEnv words script ∧ level ≤ innerRank recurse script := by
  unfold packedDecision PackedEnv
  cases packed : envSplitStringScript (normalizeCommandWords words).words with
  | none => simp [gateRank]; omega
  | some script => cases recurse <;> simp [innerRank, gateRank, GateDecision.rank]

theorem flagDecision_rank (words : Words) (level : Nat) (positive : 1 ≤ level) :
    level ≤ gateRank (flagDecision (normalizeCommandWords words)) ↔ level = 1 ∧ Flagged words := by
  rw [unflagged_iff, flagDecision]
  generalize normalizeCommandWords words = norm
  simp only [gateRank_combine, gateRank_failClosedIf, Bool.or_eq_true]
  split <;> split <;> simp_all <;> omega

theorem escalateForms_rank (policy : CompiledPolicy deps) (decision : Option GateDecision)
    (words : Words) (level : Nat) :
    level ≤ gateRank (policy.escalateForms decision words (normalizeCommandWords words).words) ↔
      level ≤ gateRank decision ∨ level ≤ gateRank (policy.escalate (joinWords words)) ∨
        level ≤ gateRank (policy.escalate (joinWords (normalizeCommandWords words).words)) := by
  unfold CompiledPolicy.escalateForms
  split
  next same =>
    rw [(normalizeCommandWords_suffix words).eq_of_length same, gateRank_combine, le_max_iff, or_self]
  next => rw [gateRank_combine, gateRank_combine, le_max_iff, le_max_iff, or_assoc]

theorem evaluateCommandWords_rank (policy : CompiledPolicy deps)
    (recurse : Option (Text → Option GateDecision)) (words : Words) (level : Nat)
    (positive : 1 ≤ level) :
    level ≤ gateRank (policy.evaluateCommandWords recurse words) ↔
      (level = 1 ∧ (Flagged words ∨ UnclearShell words)) ∨
        level ≤ gateRank (policy.escalate (joinWords words)) ∨
        level ≤ gateRank (policy.escalate (joinWords (normalizeCommandWords words).words)) ∨
        ∃ script, Inner words script ∧ level ≤ innerRank recurse script := by
  rw [CompiledPolicy.evaluateCommandWords, gateRank_combine, gateRank_combine, le_max_iff, le_max_iff,
    escalateForms_rank, flagDecision_rank words level positive, inlineDecision_rank recurse words level positive,
    packedDecision_rank recurse words level positive]
  simp only [Inner, or_and_right, exists_or, and_or_left, or_assoc, or_left_comm]

theorem foldl_rank {α : Type} (decide : α → Option GateDecision) (items : List α)
    (first : Option GateDecision) :
    gateRank (items.foldl (fun decision item => combineGateDecisions decision (decide item)) first) =
      (items.map fun item => gateRank (decide item)).foldr max (gateRank first) := by
  induction items generalizing first with
  | nil => rfl
  | cons item rest ih =>
      simp only [List.foldl_cons, List.map_cons, List.foldr_cons, ih, gateRank_combine]
      generalize rest.map (fun item => gateRank (decide item)) = ranks
      induction ranks with
      | nil => simp [max_comm]
      | cons rank ranks ih => simp only [List.foldr_cons, ih]; omega

theorem le_foldr_max (ranks : List Nat) (level : Nat) (positive : 1 ≤ level) :
    level ≤ ranks.foldr max 0 ↔ ∃ rank ∈ ranks, level ≤ rank := by
  induction ranks with
  | nil => simp; omega
  | cons rank ranks ih => simp [ih]

theorem evaluateScript_rank (policy : CompiledPolicy deps)
    (recurse : Option (Text → Option GateDecision)) (script : Text) (level : Nat)
    (positive : 1 ≤ level) :
    level ≤ gateRank (policy.evaluateScript recurse script) ↔
      (level = 1 ∧ deps.allCommandsFromScript script = none) ∨
        ∃ words, Segment deps script words ∧
          level ≤ gateRank (policy.evaluateCommandWords recurse words) := by
  cases parsed : deps.allCommandsFromScript script with
  | none => simp [CompiledPolicy.evaluateScript, Segment, parsed, gateRank, GateDecision.rank]; omega
  | some segments =>
      simp only [CompiledPolicy.evaluateScript, parsed, foldl_rank, Segment, reduceCtorEq, and_false,
        false_or, Option.some.injEq, exists_eq_left']
      rw [show gateRank none = 0 from rfl, le_foldr_max _ level positive]
      simp

def Found (policy : CompiledPolicy deps) (level left : Nat) (script : Text) : Prop :=
  (level = 1 ∧ Unanalyzed deps left script) ∨ ∃ words, Segment deps script words ∧
    (level ≤ gateRank (policy.escalate (joinWords words)) ∨
      level ≤ gateRank (policy.escalate (joinWords (normalizeCommandWords words).words)))

theorem segments_rank (policy : CompiledPolicy deps) (depth : Nat) (script : Text) (level : Nat)
    (positive : 1 ≤ level) :
    level ≤ gateRank (policy.evaluateBashCommandSegments depth script) ↔
      ∃ left target, Reaches deps Inner depth script left target ∧ Found policy level left target := by
  -- The gate reaches a rank exactly when some script it reaches shows something of that rank.
  induction depth generalizing script with
  | zero =>
      rw [CompiledPolicy.evaluateBashCommandSegments, evaluateScript_rank _ _ _ _ positive]
      simp only [evaluateCommandWords_rank _ _ _ _ positive, innerRank]
      constructor
      · rintro (⟨rfl, unparsed⟩ | ⟨words, member, found⟩)
        · exact ⟨0, script, .here 0 script, Or.inl ⟨rfl, Or.inl unparsed⟩⟩
        · refine ⟨0, script, .here 0 script, ?_⟩
          rcases found with ⟨rfl, flagged | unclear⟩ | raw | norm | ⟨nested, inner, bound⟩
          · exact Or.inl ⟨rfl, Or.inr ⟨words, member, Or.inl flagged⟩⟩
          · exact Or.inl ⟨rfl, Or.inr ⟨words, member, Or.inr (Or.inl unclear)⟩⟩
          · exact Or.inr ⟨words, member, Or.inl raw⟩
          · exact Or.inr ⟨words, member, Or.inr norm⟩
          · exact Or.inl ⟨by omega, Or.inr ⟨words, member, Or.inr (Or.inr ⟨rfl, nested, inner⟩)⟩⟩
      · rintro ⟨left, target, path, found⟩
        cases path
        rcases found with ⟨rfl, unparsed | ⟨words, member, flagged | unclear | ⟨-, nested⟩⟩⟩ |
          ⟨words, member, shown⟩
        · exact Or.inl ⟨rfl, unparsed⟩
        · exact Or.inr ⟨words, member, Or.inl ⟨rfl, Or.inl flagged⟩⟩
        · exact Or.inr ⟨words, member, Or.inl ⟨rfl, Or.inr unclear⟩⟩
        · obtain ⟨nestedScript, inner⟩ := nested
          exact Or.inr ⟨words, member, Or.inr (Or.inr (Or.inr ⟨nestedScript, inner, le_rfl⟩))⟩
        · exact Or.inr ⟨words, member, Or.inr (shown.imp_right Or.inl)⟩
  | succ depth ih =>
      rw [CompiledPolicy.evaluateBashCommandSegments, evaluateScript_rank _ _ _ _ positive]
      simp only [evaluateCommandWords_rank _ _ _ _ positive, innerRank, ih]
      constructor
      · rintro (⟨rfl, unparsed⟩ | ⟨words, member, found⟩)
        · exact ⟨depth + 1, script, .here _ script, Or.inl ⟨rfl, Or.inl unparsed⟩⟩
        · rcases found with ⟨rfl, flagged | unclear⟩ | raw | norm | ⟨nested, inner, left, target, path, found⟩
          · exact ⟨depth + 1, script, .here _ script, Or.inl ⟨rfl, Or.inr ⟨words, member, Or.inl flagged⟩⟩⟩
          · exact ⟨depth + 1, script, .here _ script,
              Or.inl ⟨rfl, Or.inr ⟨words, member, Or.inr (Or.inl unclear)⟩⟩⟩
          · exact ⟨depth + 1, script, .here _ script, Or.inr ⟨words, member, Or.inl raw⟩⟩
          · exact ⟨depth + 1, script, .here _ script, Or.inr ⟨words, member, Or.inr norm⟩⟩
          · obtain ⟨segments, parsed, member⟩ := member
            exact ⟨left, target, .nested parsed member inner path, found⟩
      · rintro ⟨left, target, path, found⟩
        cases path with
        | here =>
            rcases found with ⟨rfl, unparsed | ⟨words, member, flagged | unclear | ⟨spent, -⟩⟩⟩ |
              ⟨words, member, shown⟩
            · exact Or.inl ⟨rfl, unparsed⟩
            · exact Or.inr ⟨words, member, Or.inl ⟨rfl, Or.inl flagged⟩⟩
            · exact Or.inr ⟨words, member, Or.inl ⟨rfl, Or.inr unclear⟩⟩
            · omega
            · exact Or.inr ⟨words, member, Or.inr (shown.imp_right Or.inl)⟩
        | nested parsed member inner rest =>
            exact Or.inr ⟨_, ⟨_, parsed, member⟩,
              Or.inr (Or.inr (Or.inr ⟨_, inner, _, _, rest, found⟩))⟩

end Scripts

section EscalationGate

def Reached (deps : Externals Pattern) (script : Text) (words : Words) : Prop :=
  ∃ left target, Reaches deps Inner maxInlineShellDepth script left target ∧ Segment deps target words

theorem gate_restricted {policy : CompiledPolicy deps} (restricted : policy.hasBashCommandRestrictions = true)
    (script : Text) :
    policy.evaluateBashCommandGate script =
      policy.evaluateBashCommandSegments maxInlineShellDepth script := by
  simp [CompiledPolicy.evaluateBashCommandGate, restricted]

theorem segments_matched (policy : CompiledPolicy deps) (script : Text) (level : Nat)
    (binding : 2 ≤ level) :
    level ≤ gateRank (policy.evaluateBashCommandSegments maxInlineShellDepth script) ↔
      ∃ words, Reached deps script words ∧ ((level ≤ 3 ∧ SegmentMatched policy .deny words) ∨
        (level ≤ 2 ∧ SegmentMatched policy .ask words)) := by
  have positive : 1 ≤ level := by omega
  rw [segments_rank _ _ _ _ positive]
  simp only [Found, escalate_rank _ _ _ positive, Reached, SegmentMatched]
  constructor
  · rintro ⟨left, target, path, ⟨rfl, -⟩ | ⟨words, member, shown⟩⟩
    · omega
    · exact ⟨words, ⟨left, target, path, member⟩, by tauto⟩
  · rintro ⟨words, ⟨left, target, path, member⟩, shown⟩
    exact ⟨left, target, path, Or.inr ⟨words, member, by tauto⟩⟩

theorem evaluateScript_perm (policy : CompiledPolicy deps)
    (recurse : Option (Text → Option GateDecision)) {script other : Text} {segments others : List Words}
    (parsed : deps.allCommandsFromScript script = some segments)
    (otherParsed : deps.allCommandsFromScript other = some others) (perm : others.Perm segments) :
    gateRank (policy.evaluateScript recurse other) = gateRank (policy.evaluateScript recurse script) := by
  simp only [CompiledPolicy.evaluateScript, parsed, otherParsed, foldl_rank]
  exact (perm.map _).foldr_eq' (fun first _ second _ rank => Nat.max_left_comm second first rank) _

theorem segments_perm {policy other : CompiledPolicy deps} (perm : other.rules.Perm policy.rules)
    (depth : Nat) (script : Text) :
    gateRank (other.evaluateBashCommandSegments depth script) =
      gateRank (policy.evaluateBashCommandSegments depth script) := by
  have same : ∀ level, 1 ≤ level →
      (level ≤ gateRank (other.evaluateBashCommandSegments depth script) ↔
        level ≤ gateRank (policy.evaluateBashCommandSegments depth script)) := by
    intro level positive
    simp only [segments_rank _ _ _ _ positive, Found, escalate_perm perm]
  have above := same (gateRank (other.evaluateBashCommandSegments depth script))
  have below := same (gateRank (policy.evaluateBashCommandSegments depth script))
  omega

theorem restrictions_perm {policy other : CompiledPolicy deps} (perm : other.rules.Perm policy.rules) :
    other.hasBashCommandRestrictions = policy.hasBashCommandRestrictions := by
  rw [other.bashCommandRestrictions, policy.bashCommandRestrictions]
  exact perm.any_eq

/-- The escalation gate finds the strongest rule that matches any segment it can reach. -/
theorem bash_gate_misses_no_segment (policy : CompiledPolicy deps) (script : Text)
    (segments : List Words) (restricted : policy.hasBashCommandRestrictions = true)
    (parsed : deps.allCommandsFromScript script = some segments) :
    let gate := policy.evaluateBashCommandGate script
    let denied := ∃ words, Reached deps script words ∧ SegmentMatched policy .deny words
    let asked := ∃ words, Reached deps script words ∧ SegmentMatched policy .ask words
    ((∃ reason, gate = some (.reject reason)) ↔ denied) ∧
      (¬ denied → (gate = some .askRuleMatch ↔ asked)) ∧
      gateRank gate = (segments.map fun words => gateRank (policy.evaluateCommandWords
        (some (policy.evaluateBashCommandSegments (maxInlineShellDepth - 1))) words)).foldr max 0 ∧
      (∀ other others, deps.allCommandsFromScript other = some others → others.Perm segments →
        gateRank (policy.evaluateBashCommandGate other) = gateRank gate) ∧
      ∀ other : CompiledPolicy deps, other.rules.Perm policy.rules →
        gateRank (other.evaluateBashCommandGate script) = gateRank gate := by
  intro gate denied asked
  have reachedDeny : 3 ≤ gateRank gate ↔ denied := by
    rw [show gate = _ from gate_restricted restricted script, segments_matched _ _ _ (by omega)]
    simp [denied]
  have reachedAsk : 2 ≤ gateRank gate ↔ denied ∨ asked := by
    rw [show gate = _ from gate_restricted restricted script, segments_matched _ _ _ le_rfl]
    simp only [denied, asked, Nat.reduceLeDiff, le_refl, true_and, and_or_left, exists_or]
  have bound := gateRank_le gate
  refine ⟨?_, ?_, ?_, ?_, ?_⟩
  · rw [← gateRank_reject, ← reachedDeny]
    omega
  · intro free
    rw [← gateRank_askRuleMatch]
    have strongest := reachedDeny.not.mpr free
    simp only [free, false_or] at reachedAsk
    rw [← reachedAsk]
    omega
  · rw [show gate = _ from gate_restricted restricted script]
    simp only [maxInlineShellDepth, CompiledPolicy.evaluateBashCommandSegments,
      CompiledPolicy.evaluateScript, parsed, foldl_rank]
    rfl
  · intro other others otherParsed perm
    rw [show gate = _ from gate_restricted restricted script, gate_restricted restricted]
    exact evaluateScript_perm policy _ parsed otherParsed perm
  · intro other perm
    rw [show gate = _ from gate_restricted restricted script,
      gate_restricted ((restrictions_perm perm).trans restricted)]
    exact segments_perm perm _ script

def denyRm : CompiledPolicy plainDeps :=
  .new plainDeps
    [{ action := .deny
       tool := .bash
       pattern := some "rm".toList
       patternMode := .glob }]

def nestedShell : Words := ["nice".toList, "sh".toList, "-c".toList, "rm".toList]

theorem nestedShell_parsed : plainDeps.allCommandsFromScript "nice sh -c rm".toList = some [nestedShell] := by
  decide

theorem nested_shell_rejected :
    ∃ reason, denyRm.evaluateBashCommandGate "nice sh -c rm".toList = some (.reject reason) :=
  (bash_gate_misses_no_segment denyRm "nice sh -c rm".toList [nestedShell] (by decide)
      nestedShell_parsed).1.mpr
    ⟨["rm".toList],
      ⟨7, "rm".toList,
        .nested nestedShell_parsed List.mem_cons_self (Or.inl ⟨2, by decide, by decide⟩) (.here 7 _),
        [["rm".toList]], by decide, List.mem_cons_self⟩,
      Or.inl ⟨_, List.mem_cons_self, rfl, rfl, by decide⟩⟩

end EscalationGate

section AllowGate

structure Granted (policy : CompiledPolicy deps) (scope : AllowRuleScope)
    (recurse : Option (Text → Bool)) (script : Text) (segments : List Words) : Prop where
  parsed : deps.allCommandsFromScript script = some segments
  some' : segments ≠ []
  clean : ∀ words ∈ segments, (normalizeCommandWords words).Clean
  allowed : ∀ words ∈ segments, policy.bashWordsAllowed (normalizeCommandWords words).words scope = true
  shells : ∀ words ∈ segments,
    shellDashCScript (literalWords (normalizeCommandWords words).words) = .notInline ∨
      ∃ index next, shellDashCScript (literalWords (normalizeCommandWords words).words) = .literal index ∧
        recurse = some next ∧ next ((normalizeCommandWords words).words.getD index []) = true

variable {policy : CompiledPolicy deps} {scope : AllowRuleScope} {words : Words}

theorem bashSegmentAllowed_granted {recurse : Option (Text → Bool)}
    (allowed : policy.bashSegmentAllowed scope recurse words = true) :
    (normalizeCommandWords words).Clean ∧
      policy.bashWordsAllowed (normalizeCommandWords words).words scope = true ∧
      (shellDashCScript (literalWords (normalizeCommandWords words).words) = .notInline ∨
        ∃ index next, shellDashCScript (literalWords (normalizeCommandWords words).words) = .literal index ∧
          recurse = some next ∧ next ((normalizeCommandWords words).words.getD index []) = true) := by
  have flagged := unflagged_iff words
  unfold CompiledPolicy.bashSegmentAllowed at allowed
  simp only at allowed
  split at allowed
  · simp at allowed
  next unflagged =>
    rw [← flagged, Flagged, not_not] at unflagged
    split at allowed
    · simp at allowed
    next granted =>
      refine ⟨unflagged, by simpa using granted, ?_⟩
      split at allowed
      next index next shell => exact Or.inr ⟨index, next, shell, rfl, allowed⟩
      next shell => exact Or.inl shell
      next => simp at allowed

variable {script : Text}

theorem bashScriptAllowed_granted {recurse : Option (Text → Bool)}
    (allowed : policy.bashScriptAllowed scope recurse script = true) :
    ∃ segments, Granted policy scope recurse script segments := by
  unfold CompiledPolicy.bashScriptAllowed at allowed
  split at allowed
  next => simp at allowed
  next segments parsed =>
    rw [Bool.and_eq_true, List.all_eq_true] at allowed
    exact ⟨segments, parsed, by simpa using allowed.1,
      fun words member => (bashSegmentAllowed_granted (allowed.2 words member)).1,
      fun words member => (bashSegmentAllowed_granted (allowed.2 words member)).2.1,
      fun words member => (bashSegmentAllowed_granted (allowed.2 words member)).2.2⟩

def nextAllowed (policy : CompiledPolicy deps) (scope : AllowRuleScope) : Nat → Option (Text → Bool)
  | 0 => none
  | depth + 1 => some (policy.bashChainFullyAllowed scope depth)

theorem bashChainFullyAllowed_granted
    {depth : Nat} (allowed : policy.bashChainFullyAllowed scope depth script = true) :
    ∃ segments, Granted policy scope (nextAllowed policy scope depth) script segments := by
  cases depth <;> exact bashScriptAllowed_granted allowed

theorem Granted.dashC {depth : Nat} {script nestedScript : Text} {segments : List Words}
    (granted : Granted policy scope (nextAllowed policy scope depth) script segments)
    (member : words ∈ segments) (inline : DashC words nestedScript) :
    ∃ less, depth = less + 1 ∧ policy.bashChainFullyAllowed scope less nestedScript = true := by
  obtain ⟨index, shell, rfl⟩ := inline
  rcases granted.shells words member with plain | ⟨other, next, literal, remaining, allowed⟩
  · simp [plain] at shell
  · obtain rfl : other = index := InlineShellScript.literal.inj (literal.symm.trans shell)
    cases depth with
    | zero => simp [nextAllowed] at remaining
    | succ less =>
        obtain rfl := Option.some.inj remaining
        exact ⟨less, rfl, allowed⟩

theorem reaches_allowed {budget left depth : Nat}
    {script target : Text} (path : Reaches deps DashC budget script left target)
    (allowed : policy.bashChainFullyAllowed scope depth script = true) :
    ∃ less, policy.bashChainFullyAllowed scope less target = true := by
  induction path generalizing depth with
  | here => exact ⟨depth, allowed⟩
  | nested parsed member inline rest ih =>
      obtain ⟨segments, granted⟩ := bashChainFullyAllowed_granted allowed
      obtain rfl := Option.some.inj (parsed.symm.trans granted.parsed)
      obtain ⟨less, -, nested⟩ := granted.dashC member inline
      exact ih nested

def EverySegmentAllowed (policy : CompiledPolicy deps) (script : Text) : Prop :=
  ∃ segments, deps.allCommandsFromScript script = some segments ∧ ∀ words ∈ segments,
    (normalizeCommandWords words).words ≠ [] ∧ ∃ rule ∈ policy.rules, rule.action = .allow ∧
      (rule.tool = .bash ∨ rule.tool = .any) ∧
      bashAllowPatternMatches deps (joinWords (normalizeCommandWords words).words) rule
        (compileMatcher deps rule) = true

theorem compiled_rules (policy : CompiledPolicy deps) :
    (policy.rules.zip policy.matchers).zip policy.catchall =
      policy.rules.map fun rule => ((rule, compileMatcher deps rule), ruleIsCatchall deps rule) := by
  rw [policy.matchersCompiled, policy.catchallProbed]
  induction policy.rules with
  | nil => rfl
  | cons rule rest ih => simp only [List.map_cons, List.zip_cons_cons, ih]

theorem bashWordsAllowed_iff (policy : CompiledPolicy deps) (words : Words) (scope : AllowRuleScope) :
    policy.bashWordsAllowed words scope = true ↔
      words ≠ [] ∧ ¬ (scope = .narrowOnly ∧ headIsExecVehicle words = true) ∧
        ∃ rule ∈ policy.rules, ¬ (scope = .narrowOnly ∧ ruleIsCatchall deps rule = true) ∧
          rule.action = .allow ∧ (rule.tool = .bash ∨ rule.tool = .any) ∧
          bashAllowPatternMatches deps (joinWords words) rule (compileMatcher deps rule) = true := by
  unfold CompiledPolicy.bashWordsAllowed
  rw [compiled_rules]
  cases words with
  | nil => simp
  | cons word args =>
      by_cases vehicle : scope = .narrowOnly ∧ headIsExecVehicle (word :: args) = true
      · simp [vehicle]
      · have kept : (scope == .narrowOnly && headIsExecVehicle (word :: args)) = false := by
          simpa using vehicle
        simp [kept, vehicle, and_assoc, imp_iff_not_or]

theorem bashWordsAllowed_rule (allowed : policy.bashWordsAllowed words scope = true) :
    words ≠ [] ∧ ∃ rule ∈ policy.rules, rule.action = .allow ∧ (rule.tool = .bash ∨ rule.tool = .any) ∧
      bashAllowPatternMatches deps (joinWords words) rule (compileMatcher deps rule) = true := by
  obtain ⟨present, -, rule, member, -, grants⟩ := (bashWordsAllowed_iff policy words scope).mp allowed
  exact ⟨present, rule, member, grants⟩

theorem bashWordsAllowed_any (allowed : policy.bashWordsAllowed words scope = true) :
    policy.bashWordsAllowed words .any = true := by
  obtain ⟨present, rule, member, grants⟩ := bashWordsAllowed_rule allowed
  exact (bashWordsAllowed_iff policy words .any).mpr
    ⟨present, by simp, rule, member, by simp, grants⟩

def Wider (narrow wide : Option (Text → Bool)) : Prop :=
  ∀ inner, narrow = some inner →
    ∃ outer, wide = some outer ∧ ∀ script, inner script = true → outer script = true

theorem bashSegmentAllowed_any {recurse next : Option (Text → Bool)} (wider : Wider recurse next)
    (allowed : policy.bashSegmentAllowed scope recurse words = true) :
    policy.bashSegmentAllowed .any next words = true := by
  obtain ⟨clean, granted, shell⟩ := bashSegmentAllowed_granted allowed
  have visible := (unflagged_iff words).not.mp (not_not.mpr clean)
  unfold CompiledPolicy.bashSegmentAllowed
  simp only [visible, if_false, bashWordsAllowed_any granted, Bool.not_true, Bool.false_eq_true]
  rcases shell with plain | ⟨index, inner, literal, rfl, holds⟩
  · rw [plain]
  · obtain ⟨outer, rfl, implied⟩ := wider inner rfl
    rw [literal]
    exact implied _ holds

theorem bashScriptAllowed_any {recurse next : Option (Text → Bool)} (wider : Wider recurse next)
    (allowed : policy.bashScriptAllowed scope recurse script = true) :
    policy.bashScriptAllowed .any next script = true := by
  unfold CompiledPolicy.bashScriptAllowed at allowed ⊢
  cases parsed : deps.allCommandsFromScript script with
  | none => simp [parsed] at allowed
  | some segments =>
      simp only [parsed, Bool.and_eq_true, List.all_eq_true] at allowed ⊢
      exact ⟨allowed.1, fun words member => bashSegmentAllowed_any wider (allowed.2 words member)⟩

theorem bashChainFullyAllowed_any {depth : Nat}
    (allowed : policy.bashChainFullyAllowed scope depth script = true) :
    policy.bashChainFullyAllowed .any depth script = true := by
  -- Narrow rules are rules.
  induction depth generalizing script with
  | zero => exact bashScriptAllowed_any (by simp [Wider]) allowed
  | succ depth ih =>
      refine bashScriptAllowed_any ?_ allowed
      rintro inner ⟨⟩
      exact ⟨_, rfl, fun _ => ih⟩

def OpaquePacked (deps : Externals Pattern) (left : Nat) (packed : Text) : Prop :=
  left = 0 ∨ ∃ less last target, left = less + 1 ∧ Reaches deps Inner less packed last target ∧
    Unanalyzed deps last target

/-- Some `-c` script has a segment whose sixteen rounds of layers end right before an `env` with
such a packed script. -/
def HiddenScript (deps : Externals Pattern) (script : Text) : Prop :=
  ∃ left target words packed, Reaches deps DashC maxInlineShellDepth script left target ∧
    Segment deps target words ∧ Unscanned words ∧ PackedEnv words packed ∧
    OpaquePacked deps left packed

theorem packedEnv_unreadable (packed : PackedEnv words script) :
    opaqueEnv (normalizeCommandWords words).words = true := by
  unfold PackedEnv envSplitStringScript at packed
  split at packed
  · simp at packed
  next env =>
    simp only at packed
    split at packed
    next split => simp [opaqueEnv, not_not.mp env, split]
    next => simp at packed

theorem allowed_unanalyzed {depth left : Nat} {script target : Text}
    (allowed : policy.bashChainFullyAllowed scope depth script = true)
    (path : Reaches deps Inner depth script left target) (unanalyzed : Unanalyzed deps left target) :
    ∃ less inner words packed, Reaches deps DashC depth script less inner ∧
      Segment deps inner words ∧ Unscanned words ∧ PackedEnv words packed ∧
      OpaquePacked deps less packed := by
  -- All that the escalation gate cannot look into below an allowed script is packed and hidden.
  induction path with
  | here depth script =>
      obtain ⟨segments, granted⟩ := bashChainFullyAllowed_granted allowed
      rcases unanalyzed with unparsed | ⟨words, ⟨others, parsed, member⟩, hidden⟩
      · simp [granted.parsed] at unparsed
      · obtain rfl := Option.some.inj (parsed.symm.trans granted.parsed)
        have clean := granted.clean words member
        rcases hidden with flagged | unclear | ⟨rfl, nested, inline | packed⟩
        · exact absurd clean flagged
        · rcases granted.shells words member with plain | ⟨index, next, literal, -⟩
          · simp [UnclearShell, plain] at unclear
          · simp [UnclearShell, literal] at unclear
        · obtain ⟨less, spent, -⟩ := granted.dashC member inline
          omega
        · exact ⟨0, script, words, nested, .here 0 script, ⟨_, parsed, member⟩,
            (clean_layers clean).2 (packedEnv_unreadable packed), packed, Or.inl rfl⟩
  | nested parsed member inner rest ih =>
      obtain ⟨segments, granted⟩ := bashChainFullyAllowed_granted allowed
      obtain rfl := Option.some.inj (parsed.symm.trans granted.parsed)
      rcases inner with inline | packed
      · obtain ⟨less, depth, nestedAllowed⟩ := granted.dashC member inline
        obtain rfl := Nat.succ.inj depth
        obtain ⟨last, target, words, packed, path, hidden⟩ := ih nestedAllowed unanalyzed
        exact ⟨last, target, words, packed, .nested parsed member inline path, hidden⟩
      · exact ⟨_, _, _, _, .here _ _, ⟨_, parsed, member⟩,
          (clean_layers (granted.clean _ member)).2 (packedEnv_unreadable packed), packed,
          Or.inr ⟨_, _, _, rfl, rest, unanalyzed⟩⟩

theorem hidden_unanalyzed {depth left : Nat} {script target packed : Text}
    (path : Reaches deps DashC depth script left target) (member : Segment deps target words)
    (found : PackedEnv words packed) (closed : OpaquePacked deps left packed) :
    ∃ last inner, Reaches deps Inner depth script last inner ∧ Unanalyzed deps last inner := by
  -- The escalation gate follows every `-c` script to a packed one.
  induction path with
  | here depth script =>
      rcases closed with rfl | ⟨less, last, target, rfl, rest, unanalyzed⟩
      · exact ⟨0, script, .here 0 script, Or.inr ⟨words, member, Or.inr (Or.inr ⟨rfl, packed, Or.inr found⟩)⟩⟩
      · obtain ⟨segments, parsed, member⟩ := member
        exact ⟨last, target, .nested parsed member (Or.inr found) rest, unanalyzed⟩
  | nested parsed outer inline rest ih =>
      obtain ⟨last, inner, path, unanalyzed⟩ := ih member closed
      exact ⟨last, inner, .nested parsed outer (Or.inl inline) path, unanalyzed⟩

/-- A rule that binds the escalation gate matches a segment it reaches. -/
def Bound (policy : CompiledPolicy deps) (script : Text) : Prop :=
  ∃ words, Reached deps script words ∧
    (SegmentMatched policy .deny words ∨ SegmentMatched policy .ask words)

theorem gate_askFailClosed (policy : CompiledPolicy deps) (script : Text) :
    policy.evaluateBashCommandGate script = some .askFailClosed ↔
      policy.hasBashCommandRestrictions = true ∧ ¬ Bound policy script ∧
        ∃ left target, Reaches deps Inner maxInlineShellDepth script left target ∧
          Unanalyzed deps left target := by
  cases restricted : policy.hasBashCommandRestrictions with
  | false => simp [CompiledPolicy.evaluateBashCommandGate, restricted]
  | true =>
      rw [gate_restricted restricted, ← gateRank_askFailClosed]
      have bound : 2 ≤ gateRank (policy.evaluateBashCommandSegments maxInlineShellDepth script) ↔
          Bound policy script := by
        rw [segments_matched _ _ _ le_rfl]
        simp [Bound]
      have shown : 1 ≤ gateRank (policy.evaluateBashCommandSegments maxInlineShellDepth script) ↔
          (∃ left target, Reaches deps Inner maxInlineShellDepth script left target ∧
            Unanalyzed deps left target) ∨ Bound policy script := by
        rw [segments_rank _ _ _ _ le_rfl]
        simp only [Found, escalate_rank _ _ _ le_rfl, Bound, Reached, SegmentMatched]
        constructor
        · rintro ⟨left, target, path, ⟨-, unanalyzed⟩ | ⟨words, member, matched⟩⟩
          · exact Or.inl ⟨left, target, path, unanalyzed⟩
          · exact Or.inr ⟨words, ⟨left, target, path, member⟩, by tauto⟩
        · rintro (⟨left, target, path, unanalyzed⟩ | ⟨words, ⟨left, target, path, member⟩, matched⟩)
          · exact ⟨left, target, path, Or.inl ⟨trivial, unanalyzed⟩⟩
          · refine ⟨left, target, path, Or.inr ⟨words, member, ?_⟩⟩
            have levels : 1 ≤ 3 ∧ 1 ≤ 2 := by omega
            tauto
      simp only [true_and]
      by_cases rule : Bound policy script
      · have strong := bound.mpr rule
        simp only [rule, not_true_eq_false, false_and, iff_false]
        omega
      · have weak := bound.not.mpr rule
        simp only [rule, or_false, not_false_eq_true, true_and] at shown ⊢
        rw [← shown]
        omega

/-- The two gates agree on an allowed script unless it hides a packed script from the first one. -/
theorem bash_gates_agree (policy : CompiledPolicy deps) (script : Text)
    (allowed : policy.bashChainFullyAllowed .any maxInlineShellDepth script = true) :
    (∀ depth left target, Reaches deps DashC depth script left target →
        EverySegmentAllowed policy target) ∧
      (policy.evaluateBashCommandGate script ≠ some .askFailClosed ↔
        policy.hasBashCommandRestrictions = false ∨ Bound policy script ∨ ¬ HiddenScript deps script) ∧
      ∀ depth other, policy.bashChainFullyAllowed .narrowOnly depth other = true →
        policy.bashChainFullyAllowed .any depth other = true := by
  refine ⟨?_, ?_, fun depth other narrow => bashChainFullyAllowed_any narrow⟩
  · intro depth left target path
    obtain ⟨less, nested⟩ := reaches_allowed path allowed
    obtain ⟨segments, granted⟩ := bashChainFullyAllowed_granted nested
    exact ⟨segments, granted.parsed, fun words member =>
      bashWordsAllowed_rule (granted.allowed words member)⟩
  · have hidden : HiddenScript deps script ↔
        ∃ left target, Reaches deps Inner maxInlineShellDepth script left target ∧
          Unanalyzed deps left target := by
      constructor
      · rintro ⟨left, target, words, packed, path, member, -, found, closed⟩
        exact hidden_unanalyzed path member found closed
      · rintro ⟨left, target, path, unanalyzed⟩
        exact allowed_unanalyzed allowed path unanalyzed
    rw [ne_eq, gate_askFailClosed, ← hidden, ← Bool.not_eq_true]
    tauto

def allowGit : CompiledPolicy plainDeps :=
  .new plainDeps
    [{ action := .allow
       tool := .bash
       pattern := some "git".toList
       patternMode := .glob },
     { action := .deny
       tool := .bash
       pattern := some "rm".toList
       patternMode := .glob }]

theorem git_gates_agree : EverySegmentAllowed allowGit "nice git status".toList :=
  (bash_gates_agree allowGit "nice git status".toList (by decide +kernel)).1 0 0 _ (.here 0 _)

def layeredScript : Text := joinWords layered.dropLast ++ " '(ls)'".toList

def layeredDeps : Externals (List Glob.Token) :=
  { plainDeps with
    allCommandsFromScript := fun script =>
      if script = layeredScript then some [layered] else none }

def allowEnv : CompiledPolicy layeredDeps :=
  .new layeredDeps
    [{ action := .allow
       tool := .bash
       pattern := some "env".toList
       patternMode := .glob },
     { action := .deny
       tool := .bash
       pattern := some "rm".toList
       patternMode := .glob }]

theorem layered_env_granted :
    ¬ ∀ script, allowEnv.bashChainFullyAllowed .any maxInlineShellDepth script = true →
      allowEnv.evaluateBashCommandGate script ≠ some .askFailClosed := by
  intro agree
  exact agree layeredScript (by decide +kernel) (by decide +kernel)

end AllowGate

end GrokPi.Policy
