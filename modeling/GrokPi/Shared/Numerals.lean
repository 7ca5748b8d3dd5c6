import GrokPi.Shared.Text

set_option autoImplicit false

namespace Text

-- A plus sign may stand in front.
def parseUsize (text : Text) : Option Nat :=
  let digits := if text.head? = some '+' then text.tail else text
  if digits = [] ∨ ¬ digits.all Char.isDigit then none
  else
    let value := digits.foldl (fun n c => n * 10 + (c.toNat - '0'.toNat)) 0
    if value < 2 ^ 64 then some value else none

theorem toDigits_isDigit (n : Nat) : ∀ c ∈ Nat.toDigits 10 n, c.isDigit = true :=
  fun _ member => Nat.isDigit_of_mem_toDigits (by decide) (by decide) member

theorem parseUsize_toDigits {n : Nat} (small : n < 2 ^ 64) : parseUsize (Nat.toDigits 10 n) = some n := by
  have digits := toDigits_isDigit n
  have some' : Nat.toDigits 10 n ≠ [] := Nat.toDigits_ne_nil
  have unsigned : (Nat.toDigits 10 n).head? ≠ some '+' := by
    intro plus
    have digit := digits '+' (List.mem_of_mem_head? plus)
    exact absurd digit (by decide)
  have value : (Nat.toDigits 10 n).foldl (fun n c => n * 10 + (c.toNat - '0'.toNat)) 0 = n := by
    have read := @Nat.ofDigitChars_ten_toDigits n
    simp only [Nat.ofDigitChars_eq_foldl, Nat.mul_comm] at read
    exact read
  unfold parseUsize
  simp only [if_neg unsigned, value, if_pos small]
  rw [if_neg]
  rw [not_or, not_not]
  exact ⟨some', List.all_eq_true.mpr digits⟩

theorem toDigits_injective {a b : Nat} (same : Nat.toDigits 10 a = Nat.toDigits 10 b) : a = b := by
  rw [← @Nat.ofDigitChars_ten_toDigits a, same, Nat.ofDigitChars_ten_toDigits]

theorem toDigits_split {a b : Nat} {x y : Char} {s t : Text} (endX : x.isDigit = false) (endY : y.isDigit = false)
    (same : Nat.toDigits 10 a ++ x :: s = Nat.toDigits 10 b ++ y :: t) : a = b ∧ s = t := by
  -- A number is read back from what begins with its digits and goes on otherwise.
  have taken (n : Nat) {z : Char} (other : z.isDigit = false) (rest : Text) :
      (Nat.toDigits 10 n ++ z :: rest).takeWhile Char.isDigit = Nat.toDigits 10 n := by
    rw [List.takeWhile_append_of_pos (toDigits_isDigit n), List.takeWhile_cons_of_neg (by simp [other]), List.append_nil]
  have digits := (taken a endX s).symm.trans ((congrArg _ same).trans (taken b endY t))
  rw [digits] at same
  exact ⟨toDigits_injective digits, (List.cons.inj (List.append_cancel_left same)).2⟩

theorem parseUsize_chars {text : Text} {n : Nat} (parsed : parseUsize text = some n) :
    ∀ c ∈ text, c.isDigit = true ∨ c = '+' := by
  -- A parsed numeral is digits, but for a sign in front.
  intro c member
  unfold parseUsize at parsed
  dsimp only at parsed
  generalize shape : (if text.head? = some '+' then text.tail else text) = digits at parsed
  by_cases numeral : digits = [] ∨ ¬ digits.all Char.isDigit = true
  · rw [if_pos numeral] at parsed
    cases parsed
  · rw [not_or, not_not, List.all_eq_true] at numeral
    by_cases signed : text.head? = some '+'
    · rw [if_pos signed] at shape
      rw [← List.cons_head?_tail signed, List.mem_cons, shape] at member
      exact member.symm.imp_left (numeral.2 c)
    · rw [if_neg signed] at shape
      exact Or.inl (numeral.2 c (shape ▸ member))

end Text
