import GrokPi.Permission.Policy
import GrokPi.Shared.ByteText

set_option autoImplicit false

namespace GrokPi.BashGrants

open BashCommandSplitting Policy

section Splitting

structure PlainCommand where
  words : Words
  spanStart : Nat
  spanEnd : Nat
  deriving DecidableEq

def PlainCommand.spansWholeScript (command : PlainCommand) (script : Text) : Bool :=
  match Text.splitAtByte script command.spanStart, Text.splitAtByte script command.spanEnd with
  | some (before, _), some (_, after) => before.trim.isEmpty && after.trim.isEmpty
  | _, _ => false

structure BashCommandHighlights where
  leading : List Text
  highlightedWords : Words
  trailing : List Text
  deriving DecidableEq

def isSetupCommand (cmd : Words) : Bool :=
  match cmd with
  | [] => true
  | word :: _ =>
      ["cd".toList, "pushd".toList, "popd".toList, "export".toList, "unset".toList, "set".toList, "sleep".toList,
        "timeout".toList].contains word

def pushWord (current : Text) (result : List Text) : List Text :=
  if current.isEmpty then result else result ++ [current]

def shSplitFrom (inSingle inDouble : Bool) (current : Text) (result : List Text) : Text → List Text
  | [] => pushWord current result
  | c :: rest =>
      if c = '\'' ∧ inDouble = false then shSplitFrom (!inSingle) inDouble current result rest
      else if c = '"' ∧ inSingle = false then shSplitFrom inSingle (!inDouble) current result rest
      else if c = '\\' then
        match rest with
        | [] => pushWord current result
        | next :: rest => shSplitFrom inSingle inDouble (current ++ [next]) result rest
      else if Text.isWhitespace c ∧ inSingle = false ∧ inDouble = false then
        shSplitFrom inSingle inDouble [] (pushWord current result) rest
      else shSplitFrom inSingle inDouble (current ++ [c]) result rest

def shSplitSimple (text : Text) : List Text := shSplitFrom false false [] [] text

abbrev Parser : Type := Text → Option (List PlainCommand)

def primaryOf (command : PlainCommand) : Option (PlainCommand × Nat) :=
  let peeled := (unwrapWrappersChecked command.words).words
  if peeled.isEmpty || isSetupCommand peeled then none
  else some (command, command.words.length - peeled.length)

-- The spans lie between characters, so the slices of the script are there.
def primaryCommandFromScript (parse : Parser) (script : Text) : Option BashCommandHighlights :=
  match parse script with
  | none => none
  | some commands =>
      (commands.findSome? primaryOf).map fun (primary, peeledOff) =>
        let before := ((Text.splitAtByte script primary.spanStart).map Prod.fst).getD []
        let after := ((Text.splitAtByte script primary.spanEnd).map Prod.snd).getD []
        { leading := shSplitSimple before ++ primary.words.take peeledOff
          highlightedWords := primary.words.drop peeledOff
          trailing := shSplitSimple after }

end Splitting

section Scopes

def isDangerousCommandWords (words : Words) : Bool :=
  match normalizedCommandHead words with
  | none => false
  | some head =>
      let joined := if words.length = 1 then head else head ++ ' ' :: joinWords words.tail
      ["rm".toList, "chmod".toList, "chown".toList, "chgrp".toList, "chattr".toList, "pkill".toList, "kill".toList,
        "killall".toList, "git push".toList].any (matchesCommandPrefix joined)

def alwaysAllowScopePinned (words : Words) : Bool :=
  isDangerousCommandWords words || headIsExecVehicle words || normalizedCommandHead words == some "sed".toList

def ghAlwaysAllowScope (words : Words) : Option Nat :=
  if normalizedCommandHead words ≠ some "gh".toList then none
  else
    match words[1]?, words[2]? with
    | some group, some verb => some (if !isOption group && !isOption verb then 3 else words.length)
    | _, _ => some words.length

def minimumAlwaysAllowScope (words : Words) : Nat :=
  if alwaysAllowScopePinned words then words.length else (ghAlwaysAllowScope words).getD 1

end Scopes

section Grants

structure PermissionState where
  allowedBashCommands : Finset Text
  deriving DecidableEq

def PermissionState.default : PermissionState := { allowedBashCommands := ∅ }

variable (parse : Parser)

def isOneCommand (script : Text) (words : Words) : Bool :=
  match parse script with
  | some [only] => only.spansWholeScript script && only.words == words
  | _ => false

def wordsJoinUnambiguously (words : Words) : Bool := isOneCommand parse (joinWords words) words

def alwaysAllowScopePersists (h : BashCommandHighlights) (n : Nat) : Bool :=
  let words := h.highlightedWords
  if n = 0 ∨ n > words.length ∨ n < minimumAlwaysAllowScope words then false
  else
    wordsJoinUnambiguously parse (words.take n) || (n == words.length && h.leading.isEmpty && h.trailing.isEmpty)

def PermissionState.allow (state : PermissionState) (key : Text) : PermissionState :=
  { state with allowedBashCommands := insert key state.allowedBashCommands }

def persistBashAlwaysAllow (state : PermissionState) (cmd label : Text) : PermissionState :=
  match primaryCommandFromScript parse cmd with
  | none => state
  | some h =>
      let words := h.highlightedWords
      let minScope := minimumAlwaysAllowScope words
      let labeledWordsVerified := (List.range' minScope (words.length + 1 - minScope)).any fun n =>
        wordsJoinUnambiguously parse (words.take n) && joinWords (words.take n) == label
      if labeledWordsVerified then state.allow label
      else if h.leading.isEmpty && h.trailing.isEmpty && joinWords words == label then state.allow cmd
      else state

end Grants

section Labels

theorem joinWords_append {front back : Words} (first : front ≠ []) (second : back ≠ []) :
    joinWords (front ++ back) = joinWords front ++ ' ' :: joinWords back := by
  unfold joinWords
  induction front with
  | nil => exact absurd rfl first
  | cons word rest ih =>
      cases rest with
      | nil =>
          obtain ⟨next, more, rfl⟩ := List.exists_cons_of_ne_nil second
          simp [List.intercalate_cons_cons]
      | cons other rest =>
          have later := ih (List.cons_ne_nil _ _)
          rw [List.cons_append, List.cons_append, List.intercalate_cons_cons, ← List.cons_append, later,
            List.intercalate_cons_cons]
          simp

theorem label_injective {words : Words} {m n : Nat} (positive : 1 ≤ m) (positive' : 1 ≤ n) (bound : m ≤ words.length)
    (bound' : n ≤ words.length) (same : joinWords (words.take m) = joinWords (words.take n)) : m = n := by
  -- Scopes of one command have labels of different lengths.
  have longer : ∀ {m n : Nat}, 1 ≤ m → m < n → n ≤ words.length →
      joinWords (words.take m) ≠ joinWords (words.take n) := by
    intro m n positive less bound same
    have split : words.take n = words.take m ++ (words.drop m).take (n - m) := by
      rw [← List.take_add]
      congr 1
      omega
    have first : words.take m ≠ [] := List.ne_nil_of_length_pos (by rw [List.length_take]; omega)
    have second : (words.drop m).take (n - m) ≠ [] :=
      List.ne_nil_of_length_pos (by rw [List.length_take, List.length_drop]; omega)
    rw [split, joinWords_append first second] at same
    simpa using congrArg List.length same
  rcases Nat.lt_trichotomy m n with less | equal | more
  · exact absurd same (longer positive less bound')
  · exact equal
  · exact absurd same.symm (longer positive' more bound)

theorem minimumAlwaysAllowScope_bounds {words : Words} (some' : 1 ≤ words.length) :
    1 ≤ minimumAlwaysAllowScope words ∧ minimumAlwaysAllowScope words ≤ words.length := by
  -- The floor of a command lies between one word and all of them.
  unfold minimumAlwaysAllowScope
  split
  · exact ⟨some', le_refl _⟩
  unfold ghAlwaysAllowScope
  split
  · exact ⟨le_refl _, some'⟩
  split
  next group verb first second =>
    have three : 2 < words.length := (List.getElem?_eq_some_iff.mp second).1
    dsimp only [Option.getD]
    split
    · exact ⟨by omega, three⟩
    · exact ⟨some', le_refl _⟩
  · exact ⟨some', le_refl _⟩

end Labels

section Storing

variable (parse : Parser) {cmd : Text} {h : BashCommandHighlights} {n : Nat}

theorem labeledWordsVerified_iff (positive : 1 ≤ n) (bound : n ≤ h.highlightedWords.length) :
    (List.range' (minimumAlwaysAllowScope h.highlightedWords)
        (h.highlightedWords.length + 1 - minimumAlwaysAllowScope h.highlightedWords)).any (fun m =>
          wordsJoinUnambiguously parse (h.highlightedWords.take m) &&
            joinWords (h.highlightedWords.take m) == joinWords (h.highlightedWords.take n)) = true ↔
      minimumAlwaysAllowScope h.highlightedWords ≤ n ∧ wordsJoinUnambiguously parse (h.highlightedWords.take n) := by
  have floor := minimumAlwaysAllowScope_bounds (positive.trans bound)
  rw [List.any_eq_true]
  constructor
  · rintro ⟨m, member, found⟩
    obtain ⟨unambiguous, same⟩ := Bool.and_eq_true_iff.mp found
    have range := List.mem_range'_1.mp member
    obtain rfl := label_injective (by omega) positive (by omega) bound (eq_of_beq same)
    exact ⟨range.1, unambiguous⟩
  · rintro ⟨above, unambiguous⟩
    refine ⟨n, List.mem_range'_1.mpr ⟨above, by omega⟩, ?_⟩
    rw [unambiguous, beq_self_eq_true]
    rfl

theorem widest_label (positive : 1 ≤ n) (bound : n ≤ h.highlightedWords.length) :
    joinWords h.highlightedWords = joinWords (h.highlightedWords.take n) ↔ n = h.highlightedWords.length := by
  -- The label names all words of the command exactly at the widest scope.
  constructor
  · intro same
    rw [← List.take_length (l := h.highlightedWords)] at same
    exact (label_injective (positive.trans bound) positive (le_refl _) bound (by simpa using same)).symm
  · rintro rfl
    rw [List.take_length]

theorem always_allow_scope_stores (found : primaryCommandFromScript parse cmd = some h) (positive : 1 ≤ n)
    (bound : n ≤ h.highlightedWords.length) :
    let label := joinWords (h.highlightedWords.take n)
    let stored := (persistBashAlwaysAllow parse .default cmd label).allowedBashCommands
    (alwaysAllowScopePersists parse h n = true ↔ stored.Nonempty) ∧
      ∀ key ∈ stored,
        (key = label ∧ isOneCommand parse key (h.highlightedWords.take n) = true) ∨
          (key = cmd ∧ n = h.highlightedWords.length ∧ h.leading = [] ∧ h.trailing = []) := by
  intro label stored
  have floor := minimumAlwaysAllowScope_bounds (positive.trans bound)
  have verified := labeledWordsVerified_iff parse positive bound
  have widest := widest_label positive bound
  have persists : alwaysAllowScopePersists parse h n = true ↔
      minimumAlwaysAllowScope h.highlightedWords ≤ n ∧
        (wordsJoinUnambiguously parse (h.highlightedWords.take n) = true ∨
          n = h.highlightedWords.length ∧ h.leading = [] ∧ h.trailing = []) := by
    unfold alwaysAllowScopePersists
    dsimp only
    split
    next outside => simp only [Bool.false_eq_true, false_iff]; omega
    next inside =>
      simp only [Bool.or_eq_true, Bool.and_eq_true, beq_iff_eq, List.isEmpty_iff, and_assoc]
      constructor
      · intro either
        exact ⟨by omega, either⟩
      · intro both
        exact both.2
  simp only [stored, persistBashAlwaysAllow, found]
  split
  next labeled =>
    obtain ⟨above, unambiguous⟩ := verified.mp labeled
    refine ⟨?_, ?_⟩
    · rw [persists]
      exact ⟨fun _ => ⟨label, Finset.mem_insert_self _ _⟩, fun _ => ⟨above, .inl unambiguous⟩⟩
    · intro key member
      obtain rfl : key = label := by simpa [PermissionState.allow, PermissionState.default] using member
      exact .inl ⟨rfl, unambiguous⟩
  next unlabeled =>
    have ambiguous := mt verified.mpr unlabeled
    split
    next raw =>
      simp only [Bool.and_eq_true, List.isEmpty_iff, beq_iff_eq] at raw
      have all := widest.mp raw.2
      refine ⟨?_, ?_⟩
      · rw [persists]
        exact ⟨fun _ => ⟨cmd, Finset.mem_insert_self _ _⟩,
          fun _ => ⟨all ▸ floor.2, .inr ⟨all, raw.1.1, raw.1.2⟩⟩⟩
      · intro key member
        obtain rfl : key = cmd := by simpa [PermissionState.allow, PermissionState.default] using member
        exact .inr ⟨rfl, all, raw.1.1, raw.1.2⟩
    next covered =>
      refine ⟨?_, by simp [PermissionState.default]⟩
      rw [persists]
      constructor
      · rintro ⟨above, unambiguous | ⟨all, leading, trailing⟩⟩
        · exact absurd ⟨above, unambiguous⟩ ambiguous
        · exact absurd (by simp [leading, trailing, widest.mpr all, label]) covered
      · rintro ⟨key, member⟩
        simp [PermissionState.default] at member

def blankWords : Parser := fun script =>
  some
    [{ words := script.splitOn ' '
       spanStart := 0
       spanEnd := Text.byteLen script }]

theorem git_show_stores :
    let h : BashCommandHighlights :=
      { leading := []
        highlightedWords := ["git".toList, "show".toList, "HEAD".toList]
        trailing := [] }
    let label := joinWords (h.highlightedWords.take 2)
    let stored := (persistBashAlwaysAllow blankWords .default "git show HEAD".toList label).allowedBashCommands
    (alwaysAllowScopePersists blankWords h 2 = true ↔ stored.Nonempty) ∧
      ∀ key ∈ stored,
        (key = label ∧ isOneCommand blankWords key (h.highlightedWords.take 2) = true) ∨
          (key = "git show HEAD".toList ∧ 2 = h.highlightedWords.length ∧ h.leading = [] ∧ h.trailing = []) :=
  always_allow_scope_stores blankWords (by decide) (by decide) (by decide)

end Storing

end GrokPi.BashGrants
