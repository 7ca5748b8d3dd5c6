import Mathlib
import GrokPi.Shared.Json
import GrokPi.Shared.Utf8Chunks

set_option autoImplicit false

namespace Json

open Text

mutual

def wideIn : Json → Nat
  | .string text => wide text
  | .array items => wideItems items
  | .object members => wideMembers members
  | _ => 0

def wideItems : List Json → Nat
  | [] => 0
  | item :: rest => wideIn item + wideItems rest

def wideMembers : List (Text × Json) → Nat
  | [] => 0
  | (key, value) :: rest => wide key + wideIn value + wideMembers rest

end

section Reading

/-- A reader finds every wide character it passes. -/
def Finds {α : Type} (weight : α → Nat) (item : Text → Option (α × Text)) : Prop :=
  ∀ text found rest, item text = some (found, rest) → wide text ≤ weight found + wide rest

theorem narrow_cons {c : Char} (narrow : isWide c = false) (text : Text) :
    wide (c :: text) = wide text := by
  rw [wide_cons, narrow]
  simp

theorem wide_narrow {text : Text} (narrow : ∀ c ∈ text, isWide c = false) : wide text = 0 :=
  List.countP_eq_zero.mpr fun c member => by simp [narrow c member]

theorem skipSpace_wide (text : Text) : wide (skipSpace text) = wide text := by
  induction text with
  | nil => rfl
  | cons c text ih =>
      unfold skipSpace at ih ⊢
      rw [List.dropWhile_cons]
      split
      · rename_i space
        simp only [isSpace, Bool.or_eq_true, decide_eq_true_eq] at space
        rw [ih, narrow_cons]
        rcases space with ((rfl | rfl) | rfl) | rfl <;> decide
      · rfl

theorem literally_wide {word text rest : Text} (narrow : wide word = 0)
    (read : literally word text = some rest) : wide text = wide rest := by
  induction word generalizing text with
  | nil =>
      cases read
      rfl
  | cons c word ih =>
      cases text with
      | nil => simp [literally] at read
      | cons d text =>
          simp only [literally] at read
          split at read
          · rename_i same
            subst same
            rw [wide_cons, Nat.add_eq_zero_iff] at narrow
            rw [wide_cons, narrow.1, Nat.zero_add]
            exact ih narrow.2 read
          · cases read

theorem expect_wide {c : Char} {text rest : Text} (narrow : isWide c = false)
    (read : expect c text = some rest) : wide text = wide rest := by
  rw [← skipSpace_wide text]
  exact literally_wide (narrow_cons narrow []) read

theorem hexValue_narrow {c : Char} {n : Nat} (read : hexValue c = some n) : isWide c = false := by
  simp only [isWide, decide_eq_false_iff_not, not_le]
  simp only [hexValue] at read
  split_ifs at read with digit lower upper
  · simp only [Char.isDigit, Bool.and_eq_true, decide_eq_true_eq] at digit
    have high : c.toNat ≤ 57 := digit.2
    omega
  · have high : c.toNat ≤ 102 := lower.2
    omega
  · have high : c.toNat ≤ 70 := upper.2
    omega

theorem codeUnit_wide {text rest : Text} {unit : Nat} (read : codeUnit text = some (unit, rest)) :
    wide text = wide rest := by
  match text, read with
  | a :: b :: c :: d :: tail, read =>
      simp only [codeUnit, Option.bind_eq_bind, Option.bind_eq_some_iff, Option.some.injEq,
        Prod.mk.injEq] at read
      obtain ⟨_, first, _, second, _, third, _, fourth, _, rfl⟩ := read
      rw [narrow_cons (hexValue_narrow first), narrow_cons (hexValue_narrow second),
        narrow_cons (hexValue_narrow third), narrow_cons (hexValue_narrow fourth)]

theorem unicodeEscape_wide {text rest : Text} {c : Char}
    (read : unicodeEscape text = some (c, rest)) : wide text = wide rest := by
  simp only [unicodeEscape, Option.bind_eq_bind, Option.bind_eq_some_iff] at read
  obtain ⟨⟨unit, tail⟩, first, read⟩ := read
  rw [codeUnit_wide first]
  simp only at read
  split at read
  · simp only [Option.bind_eq_some_iff] at read
    obtain ⟨after, sign, ⟨low, last⟩, second, read⟩ := read
    rw [literally_wide (by decide) sign, codeUnit_wide second]
    simp only at read ⊢
    split at read
    · simp only [Option.some.injEq, Prod.mk.injEq] at read
      rw [read.2]
    · cases read
  · split at read
    · cases read
    · simp only [Option.some.injEq, Prod.mk.injEq] at read
      rw [read.2]

theorem nextChar_finds : Finds (fun c => wide [c]) nextChar := by
  intro text found rest read
  cases text with
  | nil => simp [nextChar] at read
  | cons c tail =>
      simp only [nextChar] at read
      split at read
      · rename_i slash
        subst slash
        rw [narrow_cons (by decide)]
        -- an escape is ASCII, whatever it stands for
        cases tail with
        | nil => simp [escaped] at read
        | cons d tail =>
            simp only [escaped] at read
            split at read
            · rename_i unicode
              subst unicode
              rw [narrow_cons (by decide), unicodeEscape_wide read]
              exact Nat.le_add_left _ _
            · split_ifs at read with plain newline return' tab back form
              · simp only [Option.some.injEq, Prod.mk.injEq] at read
                obtain ⟨rfl, rfl⟩ := read
                exact (wide_append [d] tail).le
              all_goals
                subst_vars
                rw [narrow_cons (by decide)]
                cases read
                exact Nat.le_add_left _ _
      · split at read
        · cases read
        · simp only [Option.some.injEq, Prod.mk.injEq] at read
          obtain ⟨rfl, rfl⟩ := read
          exact (wide_append [c] tail).le

theorem stringBody_finds (fuel : Nat) : Finds wide (stringBody fuel) := by
  induction fuel with
  | zero =>
      intro text found rest read
      simp [stringBody] at read
  | succ fuel ih =>
      intro text found rest read
      cases text with
      | nil => simp [stringBody] at read
      | cons c tail =>
          simp only [stringBody] at read
          split at read
          · rename_i close
            cases read
            subst close
            rw [narrow_cons (by decide)]
            exact Nat.le_add_left _ _
          · simp only [Option.bind_eq_bind, Option.bind_eq_some_iff] at read
            obtain ⟨⟨first, after⟩, one, ⟨others, last⟩, many, read⟩ := read
            simp only [Option.some.injEq, Prod.mk.injEq] at read
            obtain ⟨rfl, rfl⟩ := read
            have here := nextChar_finds _ _ _ one
            have there := ih _ _ _ many
            have sum := wide_append [first] others
            simp only [List.singleton_append] at sum here there
            omega

theorem quoted_finds : Finds wide quoted := by
  intro text found rest read
  simp only [quoted, Option.bind_eq_bind, Option.bind_eq_some_iff] at read
  obtain ⟨after, opened, body⟩ := read
  rw [expect_wide (by decide) opened]
  exact stringBody_finds _ _ _ _ body

section Sequences

variable {α : Type} {weight : α → Nat} {item : Text → Option (α × Text)} {close : Char}

theorem sepBy_finds (finds : Finds weight item) (narrow : isWide close = false) (fuel : Nat) :
    Finds (fun found => (found.map weight).sum) (sepBy item close fuel) := by
  induction fuel with
  | zero =>
      intro text found rest read
      simp [sepBy] at read
  | succ fuel ih =>
      intro text found rest read
      simp only [sepBy, Option.bind_eq_bind, Option.bind_eq_some_iff] at read
      obtain ⟨⟨first, after⟩, one, read⟩ := read
      have here := finds _ _ _ one
      have spaced := skipSpace_wide after
      cases stop : skipSpace after with
      | nil => simp [stop] at read
      | cons c tail =>
          rw [stop] at read spaced
          simp only at read
          split at read
          · rename_i closed
            cases read
            subst closed
            rw [narrow_cons narrow] at spaced
            simp
            omega
          · split at read
            · rename_i comma
              subst comma
              rw [narrow_cons (by decide)] at spaced
              simp only [Option.bind_eq_some_iff] at read
              obtain ⟨⟨others, last⟩, many, read⟩ := read
              cases read
              have there := ih _ _ _ many
              simp only [List.map_cons, List.sum_cons] at there ⊢
              omega
            · cases read

theorem delimited_finds (finds : Finds weight item) (narrow : isWide close = false) :
    Finds (fun found => (found.map weight).sum) (delimited item close) := by
  intro text found rest read
  simp only [delimited] at read
  have spaced := skipSpace_wide text
  cases stop : skipSpace text with
  | nil => simp [stop] at read
  | cons c tail =>
      rw [stop] at read spaced
      simp only at read
      split at read
      · rename_i closed
        cases read
        subst closed
        rw [narrow_cons narrow] at spaced
        simp [spaced]
      · exact sepBy_finds finds narrow _ _ _ _ read

end Sequences

theorem member_finds {item : Text → Option (Json × Text)} (finds : Finds wideIn item) :
    Finds (fun entry => wide entry.1 + wideIn entry.2) (member item) := by
  intro text found rest read
  simp only [member, Option.bind_eq_bind, Option.bind_eq_some_iff] at read
  obtain ⟨⟨key, first⟩, name, second, colon, ⟨inner, last⟩, body, read⟩ := read
  simp only [Option.some.injEq, Prod.mk.injEq] at read
  obtain ⟨rfl, rfl⟩ := read
  have here := quoted_finds _ _ _ name
  have between := expect_wide (by decide) colon
  have there := finds _ _ _ body
  simp only at here between ⊢
  omega

theorem wideItems_sum (items : List Json) : wideItems items = (items.map wideIn).sum := by
  induction items with
  | nil => rfl
  | cons item rest ih => simp [wideItems, ih]

theorem wideMembers_sum (members : List (Text × Json)) :
    wideMembers members = (members.map fun entry => wide entry.1 + wideIn entry.2).sum := by
  induction members with
  | nil => rfl
  | cons entry rest ih =>
      obtain ⟨key, value⟩ := entry
      simp [wideMembers, ih]

theorem numberChar_narrow {c : Char} (number : isNumberChar c = true) : isWide c = false := by
  simp only [isNumberChar, Bool.or_eq_true, decide_eq_true_eq] at number
  rcases number with ((((digit | rfl) | rfl) | rfl) | rfl) | rfl
  · simp only [Char.isDigit, Bool.and_eq_true, decide_eq_true_eq] at digit
    have high : c.toNat ≤ 57 := digit.2
    simp only [isWide, decide_eq_false_iff_not, not_le]
    omega
  all_goals decide

theorem numberToken_finds : Finds wideIn numberToken := by
  intro text found rest read
  simp only [numberToken] at read
  split at read
  · cases read
    have split : text.takeWhile isNumberChar ++ text.dropWhile isNumberChar = text :=
      List.takeWhile_append_dropWhile
    have taken : wide (text.takeWhile isNumberChar) = 0 :=
      wide_narrow fun c member => numberChar_narrow (List.mem_takeWhile_imp member)
    have sum := wide_append (text.takeWhile isNumberChar) (text.dropWhile isNumberChar)
    rw [split, taken] at sum
    omega
  · cases read

theorem constant_finds {word text rest : Text} {constant found : Json}
    (narrow : wide word = 0)
    (read : ((literally word text).map fun rest => (constant, rest)) = some (found, rest)) :
    wide text ≤ wideIn found + wide rest := by
  obtain ⟨last, here, same⟩ := Option.map_eq_some_iff.mp read
  cases same
  rw [literally_wide narrow here]
  exact Nat.le_add_left _ _

theorem value_finds (fuel : Nat) : Finds wideIn (value fuel) := by
  induction fuel with
  | zero =>
      intro text found rest read
      simp [value] at read
  | succ fuel ih =>
      intro text found rest read
      simp only [value] at read
      have spaced := skipSpace_wide text
      cases stop : skipSpace text with
      | nil => simp [stop] at read
      | cons c tail =>
          rw [stop] at read spaced
          rw [← spaced]
          simp only at read
          split at read
          · rename_i isText
            subst isText
            rw [narrow_cons (by decide)]
            obtain ⟨⟨inner, last⟩, body, same⟩ := Option.map_eq_some_iff.mp read
            cases same
            exact stringBody_finds _ _ _ _ body
          · split at read
            · rename_i isArray
              subst isArray
              rw [narrow_cons (by decide)]
              obtain ⟨⟨inner, last⟩, body, same⟩ := Option.map_eq_some_iff.mp read
              cases same
              rw [wideIn, wideItems_sum]
              exact delimited_finds ih (by decide) _ _ _ body
            · split at read
              · rename_i isObject
                subst isObject
                rw [narrow_cons (by decide)]
                obtain ⟨⟨inner, last⟩, body, same⟩ := Option.map_eq_some_iff.mp read
                cases same
                rw [wideIn, wideMembers_sum]
                exact delimited_finds (member_finds ih) (by decide) _ _ _ body
              · split_ifs at read with isNull isTrue isFalse
                · subst isNull
                  rw [narrow_cons (by decide)]
                  exact constant_finds (by decide) read
                · subst isTrue
                  rw [narrow_cons (by decide)]
                  exact constant_finds (by decide) read
                · subst isFalse
                  rw [narrow_cons (by decide)]
                  exact constant_finds (by decide) read
                · exact numberToken_finds _ _ _ read

theorem parse_wide {text : Text} {found : Json} (read : parse text = some found) :
    wide text ≤ wideIn found := by
  simp only [parse] at read
  split at read
  · rename_i rest whole
    split at read
    · rename_i empty
      cases read
      have here := value_finds _ _ _ _ whole
      have spaced := skipSpace_wide rest
      rw [List.isEmpty_iff.mp empty] at spaced
      simp only [wide_nil] at spaced
      omega
    · cases read
  · cases read

end Reading

section Printing

theorem escapeChar_wide (c : Char) : wide (escapeChar c) = wide [c] := by
  have hex : ∀ n : Fin 32, isWide (hexDigit (n / 16)) = false ∧
      isWide (hexDigit (n % 16)) = false := by decide
  simp only [escapeChar]
  split_ifs with quote slash newline return' tab back form control
  all_goals try (subst_vars; rfl)
  · have narrow : isWide c = false := by simp [isWide, back]
    rw [narrow_cons narrow]
    rfl
  · have narrow : isWide c = false := by simp [isWide, form]
    rw [narrow_cons narrow]
    rfl
  · have narrow : isWide c = false := by
      simp only [isWide, decide_eq_false_iff_not, not_le]
      omega
    obtain ⟨high, low⟩ := hex ⟨c.toNat, control⟩
    simp only at high low
    rw [narrow_cons narrow, wide_nil]
    apply wide_narrow
    simp only [List.mem_cons, List.not_mem_nil, or_false, forall_eq_or_imp, forall_eq]
    exact ⟨by decide, by decide, by decide, by decide, high, low⟩

theorem quote_wide (text : Text) : wide (quote text) = wide text := by
  have escaped : wide (text.flatMap escapeChar) = wide text := by
    induction text with
    | nil => rfl
    | cons c text ih =>
        rw [List.flatMap_cons, wide_append, ih, escapeChar_wide, ← wide_append]
        rfl
  rw [quote, wide_append, narrow_cons (by decide), escaped]
  rfl

theorem print_wide (v : Json) : wide (print v) = wideIn v := by
  refine print.induct (fun v => wide (print v) = wideIn v)
    (fun members => wide (printMembers members) = wideMembers members)
    (fun items => wide (printItems items) = wideItems items) rfl rfl rfl ?_ ?_ ?_ ?_ rfl ?_ ?_
    rfl ?_ ?_ v
  · intro literal
    exact wide_narrow fun c member => numberChar_narrow (literal.chars c member)
  · intro text
    exact quote_wide text
  · intro items inner
    rw [print, wide_append, narrow_cons (by decide), inner]
    rfl
  · intro members inner
    rw [print, wide_append, narrow_cons (by decide), inner]
    rfl
  · intro item here
    simpa [printItems, wideItems] using here
  · intro item next rest here there
    rw [printItems, wide_append, narrow_cons (by decide), here, there]
    rfl
  · intro key v here
    rw [printMembers, wide_append, narrow_cons (by decide), quote_wide, here]
    simp [wideMembers]
  · intro key v next rest here there
    rw [printMembers, List.append_assoc, wide_append, List.cons_append, narrow_cons (by decide),
      wide_append, narrow_cons (by decide), quote_wide, here, there]
    simp [wideMembers, Nat.add_assoc]

end Printing

end Json
