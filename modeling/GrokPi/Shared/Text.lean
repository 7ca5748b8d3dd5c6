import Mathlib

set_option autoImplicit false

abbrev Text := List Char

namespace Text

instance decidableMem (text : Text) (texts : List Text) : Decidable (text ∈ texts) :=
  decidable_of_iff (texts.contains text) List.contains_iff_mem

def isWhitespace (c : Char) : Bool :=
  let n := c.toNat
  (9 ≤ n && n ≤ 13) || n == 0x20 || n == 0x85 || n == 0xA0 || n == 0x1680 ||
    (0x2000 ≤ n && n ≤ 0x200A) || n == 0x2028 || n == 0x2029 || n == 0x202F || n == 0x205F ||
    n == 0x3000

def trimStart (text : Text) : Text := text.dropWhile isWhitespace

def trimEnd (text : Text) : Text := text.rdropWhile isWhitespace

def trim (text : Text) : Text := (trimStart text).trimEnd

def lower (text : Text) : Text := text.map Char.toLower

def eqIgnoreAsciiCase (a b : Text) : Bool := lower a == lower b

/-- Scan left to right; `skip` characters still belong to the last match. -/
def replaceFrom (needle replacement : Text) : Nat → Text → Text
  | _, [] => []
  | skip + 1, _ :: rest => replaceFrom needle replacement skip rest
  | 0, c :: rest =>
      if needle.isPrefixOf (c :: rest) then
        replacement ++ replaceFrom needle replacement (needle.length - 1) rest
      else c :: replaceFrom needle replacement 0 rest

def replace (text needle replacement : Text) : Text :=
  replaceFrom needle replacement 0 text

def find (needle : Text) : Text → Option Nat
  | [] => if needle.isEmpty then some 0 else none
  | c :: rest =>
      if needle.isPrefixOf (c :: rest) then some 0 else (find needle rest).map (· + 1)

theorem replace_cons_of_ne {c d : Char} (differ : d ≠ c) (needle replacement text : Text) :
    replace (c :: text) (d :: needle) replacement = c :: replace text (d :: needle) replacement := by
  simp [replace, replaceFrom, List.isPrefixOf, differ]

section Trim

variable {text : Text}

theorem trimStart_of_head (head : ∀ c, text.head? = some c → isWhitespace c = false) :
    text.trimStart = text := by
  cases text with
  | nil => rfl
  | cons c rest =>
      have kept := head c rfl
      simp [trimStart, kept]

theorem trimEnd_of_last (last : ∀ c, text.getLast? = some c → isWhitespace c = false) :
    text.trimEnd = text := by
  apply List.rdropWhile_eq_self_iff.mpr
  intro nonempty
  rw [last _ (List.getLast?_eq_getLast_of_ne_nil nonempty)]
  simp

theorem trim_head {c : Char} (head : text.trim.head? = some c) : isWhitespace c = false := by
  have start : text.trimStart.head? = some c := by
    rcases List.rdropWhile_prefix isWhitespace text.trimStart with ⟨dropped, split⟩
    rw [← split]
    exact List.mem_head?_append_of_mem_head? head
  have kept := List.head?_dropWhile_not isWhitespace text
  rw [show (text.dropWhile isWhitespace).head? = some c from start] at kept
  exact kept

theorem trim_last {c : Char} (last : text.trim.getLast? = some c) : isWhitespace c = false := by
  have nonempty : text.trim ≠ [] := by
    intro empty
    simp [empty] at last
  have kept := List.rdropWhile_last_not isWhitespace text.trimStart nonempty
  rw [List.getLast?_eq_getLast_of_ne_nil nonempty] at last
  rw [← Option.some.inj last]
  exact Bool.not_eq_true _ ▸ kept

@[simp]
theorem trimStart_trim (text : Text) : text.trim.trimStart = text.trim :=
  trimStart_of_head fun _ head => trim_head head

theorem trim_inked {a z : Char} (head : text.head? = some a) (headInked : isWhitespace a = false)
    (last : text.getLast? = some z) (lastInked : isWhitespace z = false) {ending : Text}
    (blank : ∀ c ∈ ending, isWhitespace c = true) : (text ++ ending).trim = text := by
  -- White space behind a text that begins and ends otherwise is all that trimming takes.
  have start : (text ++ ending).trimStart = text ++ ending := by
    apply trimStart_of_head
    intro c first
    rw [List.head?_append, head] at first
    obtain rfl : a = c := by simpa using first
    exact headInked
  have dropped : (text ++ ending).trimEnd = text.trimEnd := by
    unfold trimEnd List.rdropWhile
    rw [List.reverse_append, List.dropWhile_append_of_pos]
    intro c member
    exact blank c (List.mem_reverse.mp member)
  rw [trim, start, dropped]
  apply trimEnd_of_last
  intro c final
  rw [last] at final
  exact Option.some.inj final ▸ lastInked

theorem trim_ne_nil {c : Char} (inked : isWhitespace c = false) (rest : Text) :
    trim (c :: rest) ≠ [] := by
  intro blank
  have start : trimStart (c :: rest) = c :: rest := by simp [trimStart, inked]
  rw [trim, start, trimEnd, List.rdropWhile_eq_nil_iff] at blank
  have white := blank c List.mem_cons_self
  rw [inked] at white
  exact absurd white (by simp)

end Trim

section AsciiCase

theorem toLower_toNat (c : Char) :
    c.toLower.toNat = if 65 ≤ c.toNat ∧ c.toNat ≤ 90 then c.toNat + 32 else c.toNat := by
  have upper : (c.val ≥ 'A'.val ∧ c.val ≤ 'Z'.val) ↔ 65 ≤ c.toNat ∧ c.toNat ≤ 90 := by
    simp [UInt32.le_iff_toNat_le]
  unfold Char.toLower
  by_cases large : c.val ≥ 'A'.val ∧ c.val ≤ 'Z'.val
  · rw [dif_pos large, if_pos (upper.mp large)]
    have bounds := upper.mp large
    rw [← Char.toNat_val, UInt32.toNat_add, Char.toNat_val]
    simp
    omega
  · rw [dif_neg large, if_neg (upper.not.mp large)]

theorem toLower_eq_iff {d : Char} (letter : d.isAlpha = false) (c : Char) : c.toLower = d ↔ c = d := by
  have range : ¬ (65 ≤ d.toNat ∧ d.toNat ≤ 90) ∧ ¬ (97 ≤ d.toNat ∧ d.toNat ≤ 122) := by
    simp [Char.isAlpha, Char.isUpper, Char.isLower, UInt32.le_iff_toNat_le] at letter
    omega
  rw [← Char.toNat_inj, ← Char.toNat_inj, toLower_toNat]
  split
  · omega
  · rfl

@[simp]
theorem lower_eq_nil (text : Text) : lower text = [] ↔ text = [] := by
  simp [lower]

end AsciiCase

end Text
