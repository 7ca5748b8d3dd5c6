import GrokPi.Shared.Text

set_option autoImplicit false

namespace Text

def byteLen : Text → Nat
  | [] => 0
  | c :: rest => c.utf8Size + byteLen rest

/-- The text in front of a position and behind it, unless the position lies inside a character. -/
def splitAtByte : Text → Nat → Option (Text × Text)
  | text, 0 => some ([], text)
  | [], _ + 1 => none
  | c :: rest, at' + 1 =>
      if c.utf8Size ≤ at' + 1 then
        (splitAtByte rest (at' + 1 - c.utf8Size)).map fun parts => (c :: parts.1, parts.2)
      else none

example : splitAtByte ['a', 'é'] 1 = some (['a'], ['é']) ∧ splitAtByte ['a', 'é'] 2 = none := by
  simp [splitAtByte, Char.utf8Size]

def slice (text : Text) (start stop : Nat) : Option Text :=
  if start ≤ stop then
    (splitAtByte text stop).bind fun parts => (splitAtByte parts.1 start).map Prod.snd
  else none

def replaceBytes (text : Text) (start stop : Nat) (replacement : Text) : Option Text :=
  match splitAtByte text start, splitAtByte text stop with
  | some (front, _), some (_, back) => if start ≤ stop then some (front ++ replacement ++ back) else none
  | _, _ => none

-- An ASCII byte is always a whole character.
def charAt (text : Text) (at' : Nat) : Option Char := (splitAtByte text at').bind fun parts => parts.2.head?

@[simp]
theorem byteLen_nil : byteLen [] = 0 := rfl

@[simp]
theorem byteLen_cons (c : Char) (rest : Text) : byteLen (c :: rest) = c.utf8Size + byteLen rest := rfl

@[simp]
theorem byteLen_append (a b : Text) : byteLen (a ++ b) = byteLen a + byteLen b := by
  induction a with
  | nil => simp
  | cons c rest ih =>
      rw [List.cons_append, byteLen_cons, byteLen_cons, ih, Nat.add_assoc]

theorem byteLen_eq_zero {text : Text} : byteLen text = 0 ↔ text = [] := by
  cases text with
  | nil => simp
  | cons c rest =>
      have positive := c.utf8Size_pos
      simp
      omega

theorem splitAtByte_eq_some {text front back : Text} {at' : Nat} :
    splitAtByte text at' = some (front, back) ↔ text = front ++ back ∧ byteLen front = at' := by
  induction text generalizing front at' with
  | nil =>
      cases at' with
      | zero =>
          simp only [splitAtByte, Option.some.injEq, Prod.mk.injEq]
          constructor
          · rintro ⟨rfl, rfl⟩
            exact ⟨rfl, rfl⟩
          · rintro ⟨whole, -⟩
            obtain ⟨rfl, rfl⟩ := List.append_eq_nil_iff.mp whole.symm
            exact ⟨rfl, rfl⟩
      | succ at' =>
          simp only [splitAtByte, reduceCtorEq, false_iff]
          rintro ⟨whole, length⟩
          obtain ⟨rfl, rfl⟩ := List.append_eq_nil_iff.mp whole.symm
          simp at length
  | cons c rest ih =>
      have positive := c.utf8Size_pos
      cases at' with
      | zero =>
          simp only [splitAtByte, Option.some.injEq, Prod.mk.injEq]
          constructor
          · rintro ⟨rfl, rfl⟩
            exact ⟨rfl, rfl⟩
          · rintro ⟨whole, length⟩
            obtain rfl := byteLen_eq_zero.mp length
            exact ⟨rfl, whole⟩
      | succ at' =>
          unfold splitAtByte
          constructor
          · intro found
            split at found
            next fits =>
              obtain ⟨⟨first, second⟩, inner, same⟩ := Option.map_eq_some_iff.mp found
              obtain ⟨rfl, rfl⟩ := Prod.mk.inj same
              obtain ⟨rfl, length⟩ := ih.mp inner
              refine ⟨rfl, ?_⟩
              rw [byteLen_cons, length]
              omega
            · simp at found
          · rintro ⟨whole, length⟩
            cases front with
            | nil => simp at length
            | cons d front =>
                obtain ⟨rfl, rfl⟩ := List.cons.inj whole
                rw [byteLen_cons] at length
                rw [if_pos (by omega), ih.mpr ⟨rfl, show byteLen front = at' + 1 - c.utf8Size by omega⟩]
                rfl

theorem splitAtByte_append (front back : Text) : splitAtByte (front ++ back) (byteLen front) = some (front, back) :=
  Iff.mpr splitAtByte_eq_some ⟨rfl, rfl⟩

theorem cuts_nested {a b c d : Text} (same : a ++ b = c ++ d) (shorter : byteLen a ≤ byteLen c) :
    ∃ middle, c = a ++ middle ∧ b = middle ++ d := by
  rcases List.append_eq_append_iff.mp same with ⟨middle, longer, rest⟩ | ⟨middle, longer, rest⟩
  · exact ⟨middle, longer, rest⟩
  · have empty : byteLen middle = 0 := by
      rw [longer, byteLen_append] at shorter
      omega
    obtain rfl := byteLen_eq_zero.mp empty
    exact ⟨[], by simpa using longer.symm, by simpa using rest.symm⟩

theorem cuts_same {a b c d : Text} (same : a ++ b = c ++ d) (length : byteLen a = byteLen c) : a = c ∧ b = d := by
  obtain ⟨middle, rfl, rfl⟩ := cuts_nested same length.le
  have none' : byteLen middle = 0 := by
    rw [byteLen_append] at length
    omega
  simp [byteLen_eq_zero.mp none']

theorem slice_middle (a b c : Text) : slice (a ++ b ++ c) (byteLen a) (byteLen a + byteLen b) = some b := by
  have outer : splitAtByte (a ++ b ++ c) (byteLen a + byteLen b) = some (a ++ b, c) :=
    Iff.mpr splitAtByte_eq_some ⟨rfl, byteLen_append a b⟩
  unfold slice
  rw [if_pos (Nat.le_add_right _ _), outer, Option.bind_some, splitAtByte_append]
  rfl

theorem slice_eq_some {text part : Text} {start stop : Nat} :
    slice text start stop = some part ↔
      ∃ a b, text = a ++ part ++ b ∧ byteLen a = start ∧ start + byteLen part = stop := by
  constructor
  · intro cut
    unfold slice at cut
    split at cut
    · obtain ⟨⟨front, back⟩, outer, inner⟩ := Option.bind_eq_some_iff.mp cut
      obtain ⟨⟨a, b⟩, split, rfl⟩ := Option.map_eq_some_iff.mp inner
      obtain ⟨rfl, rfl⟩ := Iff.mp splitAtByte_eq_some split
      obtain ⟨rfl, rfl⟩ := Iff.mp splitAtByte_eq_some outer
      exact ⟨a, back, rfl, rfl, (byteLen_append a b).symm⟩
    · simp at cut
  · rintro ⟨a, b, rfl, rfl, rfl⟩
    exact slice_middle a part b

theorem slice_front (front back : Text) {start stop : Nat} (within : stop ≤ byteLen front) :
    slice (front ++ back) start stop = slice front start stop := by
  ext part
  constructor
  · intro cut
    obtain ⟨a, b, whole, length, rfl⟩ := slice_eq_some.mp cut
    obtain ⟨middle, shorter, -⟩ := cuts_nested whole.symm (by rw [byteLen_append]; omega)
    exact slice_eq_some.mpr ⟨a, middle, shorter, length, rfl⟩
  · intro cut
    obtain ⟨a, b, rfl, length, rfl⟩ := slice_eq_some.mp cut
    exact slice_eq_some.mpr ⟨a, b ++ back, List.append_assoc .., length, rfl⟩

theorem replaceBytes_middle (a b c replacement : Text) :
    replaceBytes (a ++ b ++ c) (byteLen a) (byteLen a + byteLen b) replacement = some (a ++ replacement ++ c) := by
  have start : splitAtByte (a ++ b ++ c) (byteLen a) = some (a, b ++ c) :=
    Iff.mpr splitAtByte_eq_some ⟨List.append_assoc _ _ _, rfl⟩
  have stop : splitAtByte (a ++ b ++ c) (byteLen a + byteLen b) = some (a ++ b, c) :=
    Iff.mpr splitAtByte_eq_some ⟨rfl, byteLen_append a b⟩
  unfold replaceBytes
  rw [start, stop]
  exact if_pos (Nat.le_add_right _ _)

theorem charAt_eq_some {text : Text} {at' : Nat} {c : Char} :
    charAt text at' = some c ↔ ∃ a b, text = a ++ c :: b ∧ byteLen a = at' := by
  unfold charAt
  constructor
  · intro found
    obtain ⟨⟨a, b⟩, split, head⟩ := Option.bind_eq_some_iff.mp found
    obtain ⟨rfl, length⟩ := Iff.mp splitAtByte_eq_some split
    cases b with
    | nil => simp at head
    | cons d b =>
        obtain rfl : d = c := by simpa using head
        exact ⟨a, b, rfl, length⟩
  · rintro ⟨a, b, rfl, rfl⟩
    rw [splitAtByte_append]
    rfl

theorem charAt_append {a v : Text} : charAt (a ++ v) (byteLen a) = v.head? := by
  unfold charAt
  rw [splitAtByte_append]
  rfl

theorem cut_thrice {text : Text} {start stop : Nat} (forward : start ≤ stop)
    (first : (splitAtByte text start).isSome) (second : (splitAtByte text stop).isSome) :
    ∃ a b c, text = a ++ b ++ c ∧ byteLen a = start ∧ byteLen a + byteLen b = stop := by
  obtain ⟨⟨a, rest⟩, split⟩ := Option.isSome_iff_exists.mp first
  obtain ⟨⟨front, c⟩, split'⟩ := Option.isSome_iff_exists.mp second
  obtain ⟨whole, length⟩ := Iff.mp splitAtByte_eq_some split
  obtain ⟨whole', length'⟩ := Iff.mp splitAtByte_eq_some split'
  obtain ⟨b, longer, -⟩ := cuts_nested (whole.symm.trans whole') (by omega)
  refine ⟨a, b, c, ?_, length, ?_⟩
  · rw [whole', longer]
  · rw [← byteLen_append, ← longer, length']

end Text
