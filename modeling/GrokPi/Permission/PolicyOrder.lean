import GrokPi.Permission.BashGates

set_option autoImplicit false

namespace GrokPi.Policy

open BashCommandSplitting

variable {Pattern : Type} {deps : Externals Pattern}

def Applies (deps : Externals Pattern) (access : AccessKind) (cwd : Option Text)
    (rule : PermissionRule) : Prop :=
  toolFilterMatches access rule.tool = true ∧
    patternMatches deps access rule (compileMatcher deps rule) cwd = true

def AppliesWith (policy : CompiledPolicy deps) (access : AccessKind) (cwd : Option Text)
    (action : RuleAction) : Prop :=
  ∃ rule ∈ policy.rules, rule.action = action ∧ Applies deps access cwd rule

def Grants (policy : CompiledPolicy deps) (access : AccessKind) (cwd : Option Text) : Prop :=
  match access with
  | .bash cmd =>
      policy.hasBashAllowRules = true ∧
        policy.bashChainFullyAllowed .any maxInlineShellDepth cmd = true
  | _ => AppliesWith policy access cwd .allow

def decisionLevel : Option Decision → Nat
  | some .allow => 0
  | none => 1
  | some .ask => 2
  | some (.reject _) | some (.policyDeny _) => 3
  | some (.followupMessage _) | some .cancelled => 1

def SameUpToReason (decision other : Option Decision) : Prop :=
  decision = other ∨
    ∃ reason otherReason, decision = some (.reject reason) ∧ other = some (.reject otherReason)

theorem applicable_iff (policy : CompiledPolicy deps) (access : AccessKind) (cwd : Option Text)
    (action : RuleAction) :
    (∃ rule ∈ policy.applicable access cwd, rule.action = action) ↔
      AppliesWith policy access cwd action := by
  simp only [applicable_eq, List.mem_filter, Bool.and_eq_true, AppliesWith, Applies]
  constructor
  · rintro ⟨rule, ⟨member, applies⟩, acts⟩
    exact ⟨rule, member, acts, applies⟩
  · rintro ⟨rule, member, acts, applies⟩
    exact ⟨rule, ⟨member, applies⟩, acts⟩

theorem evaluateLexical_cases (policy : CompiledPolicy deps) (access : AccessKind) (cwd : Option Text) :
    (AppliesWith policy access cwd .deny ∧
        ∃ reason, policy.evaluateLexicalWithCwd access cwd = some (.reject reason)) ∨
      ¬ AppliesWith policy access cwd .deny ∧
        (AppliesWith policy access cwd .ask ∧
            policy.evaluateLexicalWithCwd access cwd = some .ask ∨
          ¬ AppliesWith policy access cwd .ask ∧
            (Grants policy access cwd ∧
                policy.evaluateLexicalWithCwd access cwd = some .allow ∨
              ¬ Grants policy access cwd ∧
                policy.evaluateLexicalWithCwd access cwd = none)) := by
  -- The four outcomes, by what applies.
  simp only [← applicable_iff policy access cwd .deny, ← applicable_iff policy access cwd .ask,
    CompiledPolicy.evaluateLexicalWithCwd]
  cases denied : (policy.applicable access cwd).find? (·.action == .deny) with
  | some rule =>
      refine Or.inl ⟨⟨rule, List.mem_of_find?_eq_some denied, ?_⟩, _, rfl⟩
      simpa using List.find?_some denied
  | none =>
      refine Or.inr ⟨by simpa using denied, ?_⟩
      by_cases asked : (policy.applicable access cwd).any (·.action == .ask) = true
      · refine Or.inl ⟨by simpa using asked, ?_⟩
        simp only [asked, if_true]
      · refine Or.inr ⟨by simpa using asked, ?_⟩
        have granted : ∀ decides : Bool, (Grants policy access cwd ↔ decides = true) →
            Grants policy access cwd ∧ (if decides then some Decision.allow else none) =
                some .allow ∨
              ¬ Grants policy access cwd ∧ (if decides then some Decision.allow else none) =
                none := by
          intro decides same
          cases decides with
          | true => exact Or.inl ⟨same.mpr rfl, rfl⟩
          | false => exact Or.inr ⟨fun grants => Bool.noConfusion (same.mp grants), rfl⟩
        have allowed : AppliesWith policy access cwd .allow ↔
            (policy.applicable access cwd).any (·.action == .allow) = true := by
          rw [← applicable_iff]
          simp
        simp only [asked]
        cases access with
        | bash cmd => exact granted _ (by simp [Grants])
        | _ => exact granted _ allowed

section Comparisons

variable {policy other : CompiledPolicy deps} {access : AccessKind} {cwd : Option Text}

theorem AppliesWith.mono {action : RuleAction}
    (more : ∀ rule ∈ policy.rules, rule.action = action → rule ∈ other.rules)
    (applies : AppliesWith policy access cwd action) : AppliesWith other access cwd action := by
  obtain ⟨rule, member, acts, applied⟩ := applies
  exact ⟨rule, more rule member acts, acts, applied⟩

theorem bashWordsAllowed_mono {words : Words}
    (more : ∀ rule ∈ policy.rules, rule.action = .allow → rule ∈ other.rules)
    (allowed : policy.bashWordsAllowed words .any = true) :
    other.bashWordsAllowed words .any = true := by
  obtain ⟨present, rule, member, acts, grants⟩ := bashWordsAllowed_rule allowed
  exact (bashWordsAllowed_iff other words .any).mpr
    ⟨present, by simp, rule, more rule member acts, by simp, acts, grants⟩

theorem bashSegmentAllowed_mono {recurse next : Option (Text → Bool)} {words : Words}
    (more : ∀ rule ∈ policy.rules, rule.action = .allow → rule ∈ other.rules)
    (wider : Wider recurse next) (allowed : policy.bashSegmentAllowed .any recurse words = true) :
    other.bashSegmentAllowed .any next words = true := by
  obtain ⟨clean, granted, shell⟩ := bashSegmentAllowed_granted allowed
  have visible := (unflagged_iff words).not.mp (not_not.mpr clean)
  unfold CompiledPolicy.bashSegmentAllowed
  simp only [visible, if_false, bashWordsAllowed_mono more granted, Bool.not_true, Bool.false_eq_true]
  rcases shell with plain | ⟨index, inner, literal, rfl, holds⟩
  · rw [plain]
  · obtain ⟨outer, rfl, implied⟩ := wider inner rfl
    rw [literal]
    exact implied _ holds

theorem bashScriptAllowed_mono {recurse next : Option (Text → Bool)} {script : Text}
    (more : ∀ rule ∈ policy.rules, rule.action = .allow → rule ∈ other.rules)
    (wider : Wider recurse next) (allowed : policy.bashScriptAllowed .any recurse script = true) :
    other.bashScriptAllowed .any next script = true := by
  unfold CompiledPolicy.bashScriptAllowed at allowed ⊢
  cases parsed : deps.allCommandsFromScript script with
  | none => simp [parsed] at allowed
  | some segments =>
      simp only [parsed, Bool.and_eq_true, List.all_eq_true] at allowed ⊢
      exact ⟨allowed.1, fun words member =>
        bashSegmentAllowed_mono more wider (allowed.2 words member)⟩

theorem bashChainFullyAllowed_mono {depth : Nat} {script : Text}
    (more : ∀ rule ∈ policy.rules, rule.action = .allow → rule ∈ other.rules)
    (allowed : policy.bashChainFullyAllowed .any depth script = true) :
    other.bashChainFullyAllowed .any depth script = true := by
  induction depth generalizing script with
  | zero => exact bashScriptAllowed_mono more (by simp [Wider]) allowed
  | succ depth ih =>
      refine bashScriptAllowed_mono more ?_ allowed
      rintro inner ⟨⟩
      exact ⟨_, rfl, fun _ => ih⟩

theorem hasBashAllowRules_mono
    (more : ∀ rule ∈ policy.rules, rule.action = .allow → rule ∈ other.rules)
    (has : policy.hasBashAllowRules = true) : other.hasBashAllowRules = true := by
  rw [policy.bashAllowRules, List.any_eq_true] at has
  obtain ⟨rule, member, acts⟩ := has
  rw [other.bashAllowRules, List.any_eq_true]
  exact ⟨rule, more rule member (by simp at acts; exact acts.1), acts⟩

theorem Grants.mono (more : ∀ rule ∈ policy.rules, rule.action = .allow → rule ∈ other.rules)
    (grants : Grants policy access cwd) : Grants other access cwd := by
  cases access with
  | bash cmd =>
      exact ⟨hasBashAllowRules_mono more grants.1, bashChainFullyAllowed_mono more grants.2⟩
  | _ => exact AppliesWith.mono more grants

theorem decisionLevel_le
    (denies : AppliesWith policy access cwd .deny → AppliesWith other access cwd .deny)
    (asks : AppliesWith policy access cwd .ask → AppliesWith other access cwd .ask)
    (grants : Grants other access cwd → Grants policy access cwd) :
    decisionLevel (policy.evaluateLexicalWithCwd access cwd) ≤
      decisionLevel (other.evaluateLexicalWithCwd access cwd) := by
  -- More that denies or asks, and no more that grants, makes the decision no weaker.
  rcases evaluateLexical_cases other access cwd with ⟨_, _, otherIs⟩ | ⟨undenied, rest⟩
  · rcases evaluateLexical_cases policy access cwd with
      ⟨_, _, is⟩ | ⟨_, ⟨_, is⟩ | ⟨_, ⟨_, is⟩ | ⟨_, is⟩⟩⟩ <;> simp [is, otherIs, decisionLevel]
  · have undenied' := mt denies undenied
    rcases rest with ⟨_, otherIs⟩ | ⟨unasked, rest⟩
    · rcases evaluateLexical_cases policy access cwd with
        ⟨denied, _⟩ | ⟨_, ⟨_, is⟩ | ⟨_, ⟨_, is⟩ | ⟨_, is⟩⟩⟩
      · exact absurd denied undenied'
      · simp [is, otherIs, decisionLevel]
      · simp [is, otherIs, decisionLevel]
      · simp [is, otherIs, decisionLevel]
    · have unasked' := mt asks unasked
      rcases evaluateLexical_cases policy access cwd with
        ⟨denied, _⟩ | ⟨_, ⟨asked, _⟩ | ⟨_, ⟨granted, is⟩ | ⟨ungranted, is⟩⟩⟩
      · exact absurd denied undenied'
      · exact absurd asked unasked'
      · simp [is, decisionLevel]
      · rcases rest with ⟨granted, _⟩ | ⟨_, otherIs⟩
        · exact absurd (grants granted) ungranted
        · simp [is, otherIs, decisionLevel]

theorem same_of_level (level : decisionLevel (policy.evaluateLexicalWithCwd access cwd) =
      decisionLevel (other.evaluateLexicalWithCwd access cwd)) :
    SameUpToReason (policy.evaluateLexicalWithCwd access cwd)
      (other.evaluateLexicalWithCwd access cwd) := by
  rcases evaluateLexical_cases policy access cwd with
      ⟨_, reason, is⟩ | ⟨_, ⟨_, is⟩ | ⟨_, ⟨_, is⟩ | ⟨_, is⟩⟩⟩ <;>
    rcases evaluateLexical_cases other access cwd with
      ⟨_, otherReason, otherIs⟩ | ⟨_, ⟨_, otherIs⟩ | ⟨_, ⟨_, otherIs⟩ | ⟨_, otherIs⟩⟩⟩ <;>
    simp [is, otherIs, decisionLevel, SameUpToReason] at level ⊢

end Comparisons

theorem policy_is_order_free_and_monotone (deps : Externals Pattern) (rules others : List PermissionRule)
    (access : AccessKind) (cwd : Option Text) :
    (others.Perm rules →
        SameUpToReason ((CompiledPolicy.new deps others).evaluateLexicalWithCwd access cwd)
          ((CompiledPolicy.new deps rules).evaluateLexicalWithCwd access cwd)) ∧
      ∀ rule, others.Perm (rule :: rules) →
        (rule.action = .deny ∨ rule.action = .ask →
          decisionLevel ((CompiledPolicy.new deps rules).evaluateLexicalWithCwd access cwd) ≤
            decisionLevel ((CompiledPolicy.new deps others).evaluateLexicalWithCwd access cwd)) ∧
          (rule.action = .allow →
            decisionLevel ((CompiledPolicy.new deps others).evaluateLexicalWithCwd access cwd) ≤
              decisionLevel ((CompiledPolicy.new deps rules).evaluateLexicalWithCwd access cwd)) := by
  constructor
  · intro perm
    have same : ∀ action : RuleAction, ∀ rule : PermissionRule, rule.action = action →
        (rule ∈ others ↔ rule ∈ rules) := fun _ _ _ => perm.mem_iff
    apply same_of_level
    apply Nat.le_antisymm
    · apply decisionLevel_le
      · exact AppliesWith.mono fun rule member acts => (same _ rule acts).mp member
      · exact AppliesWith.mono fun rule member acts => (same _ rule acts).mp member
      · exact Grants.mono fun rule member acts => (same _ rule acts).mpr member
    · apply decisionLevel_le
      · exact AppliesWith.mono fun rule member acts => (same _ rule acts).mpr member
      · exact AppliesWith.mono fun rule member acts => (same _ rule acts).mpr member
      · exact Grants.mono fun rule member acts => (same _ rule acts).mp member
  · intro added perm
    have more : ∀ rule ∈ rules, rule ∈ others := fun rule member =>
      perm.mem_iff.mpr (List.mem_cons_of_mem _ member)
    -- A rule with another action than the added one was there before.
    have fewer : ∀ rule ∈ others, rule.action ≠ added.action → rule ∈ rules := by
      intro rule member different
      rcases List.mem_cons.mp (perm.mem_iff.mp member) with rfl | earlier
      · exact absurd rfl different
      · exact earlier
    constructor
    · intro restricts
      apply decisionLevel_le
      · exact AppliesWith.mono fun rule member _ => more rule member
      · exact AppliesWith.mono fun rule member _ => more rule member
      · refine Grants.mono fun rule member acts => fewer rule member ?_
        rcases restricts with denies | asks
        · simp [acts, denies]
        · simp [acts, asks]
    · intro grants
      apply decisionLevel_le
      · exact AppliesWith.mono fun rule member acts => fewer rule member (by simp [acts, grants])
      · exact AppliesWith.mono fun rule member acts => fewer rule member (by simp [acts, grants])
      · exact Grants.mono fun rule member _ => more rule member

def allowGitRule : PermissionRule :=
  { action := .allow
    tool := .bash
    pattern := some "git".toList
    patternMode := .glob }

def denyPushRule : PermissionRule :=
  { action := .deny
    tool := .bash
    pattern := some "git push".toList
    patternMode := .glob }

theorem policy_is_order_free_and_monotone_push :
    SameUpToReason
        ((CompiledPolicy.new plainDeps [denyPushRule, allowGitRule]).evaluateLexicalWithCwd
          (.bash "git push".toList) none)
        ((CompiledPolicy.new plainDeps [allowGitRule, denyPushRule]).evaluateLexicalWithCwd
          (.bash "git push".toList) none) ∧
      decisionLevel ((CompiledPolicy.new plainDeps [allowGitRule]).evaluateLexicalWithCwd
          (.bash "git push".toList) none) ≤
        decisionLevel ((CompiledPolicy.new plainDeps [denyPushRule, allowGitRule]).evaluateLexicalWithCwd
          (.bash "git push".toList) none) :=
  ⟨(policy_is_order_free_and_monotone plainDeps [allowGitRule, denyPushRule]
      [denyPushRule, allowGitRule] (.bash "git push".toList) none).1 (List.Perm.swap _ _ _),
    ((policy_is_order_free_and_monotone plainDeps [allowGitRule] [denyPushRule, allowGitRule]
      (.bash "git push".toList) none).2 denyPushRule (List.Perm.refl _)).1 (Or.inl rfl)⟩

end GrokPi.Policy
