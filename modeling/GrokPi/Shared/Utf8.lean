import GrokPi.Shared.Text

set_option autoImplicit false

namespace Text

def asBytes (text : Text) : List UInt8 := text.flatMap String.utf8EncodeChar

def followRanges (first : UInt8) : List (UInt8 × UInt8) :=
  if 0xC2 ≤ first ∧ first ≤ 0xDF then [(0x80, 0xBF)]
  else if first = 0xE0 then [(0xA0, 0xBF), (0x80, 0xBF)]
  else if first = 0xED then [(0x80, 0x9F), (0x80, 0xBF)]
  else if 0xE1 ≤ first ∧ first ≤ 0xEF then [(0x80, 0xBF), (0x80, 0xBF)]
  else if first = 0xF0 then [(0x90, 0xBF), (0x80, 0xBF), (0x80, 0xBF)]
  else if first = 0xF4 then [(0x80, 0x8F), (0x80, 0xBF), (0x80, 0xBF)]
  else if 0xF1 ≤ first ∧ first ≤ 0xF3 then [(0x80, 0xBF), (0x80, 0xBF), (0x80, 0xBF)]
  else []

def followCount : List (UInt8 × UInt8) → List UInt8 → Nat
  | range :: ranges, byte :: bytes =>
      if range.1 ≤ byte ∧ byte ≤ range.2 then followCount ranges bytes + 1 else 0
  | _, _ => 0

-- The longest start of a character that breaks off is one replacement character.
def fromUtf8LossyFuel : Nat → List UInt8 → Text
  | 0, _ => []
  | _, [] => []
  | fuel + 1, first :: rest =>
      match (first :: rest).toByteArray.utf8DecodeChar? 0 with
      | some c => c :: fromUtf8LossyFuel fuel ((first :: rest).drop c.utf8Size)
      | none => '\uFFFD' :: fromUtf8LossyFuel fuel (rest.drop (followCount (followRanges first) rest))

def fromUtf8Lossy (bytes : List UInt8) : Text := fromUtf8LossyFuel bytes.length bytes

@[simp]
theorem asBytes_nil : asBytes [] = [] := rfl

@[simp]
theorem asBytes_cons (c : Char) (text : Text) : asBytes (c :: text) = String.utf8EncodeChar c ++ asBytes text :=
  rfl

theorem asBytes_eq_nil {text : Text} : asBytes text = [] ↔ text = [] := by
  cases text with
  | nil => simp
  | cons c rest => simp [String.utf8EncodeChar_ne_nil]

theorem fromUtf8LossyFuel_asBytes (text : Text) (fuel : Nat) (enough : (asBytes text).length ≤ fuel) :
    fromUtf8LossyFuel fuel (asBytes text) = text := by
  induction text generalizing fuel with
  | nil => cases fuel <;> rfl
  | cons c text ih =>
      have size : (String.utf8EncodeChar c).length = c.utf8Size := String.length_utf8EncodeChar c
      have positive := Char.utf8Size_pos c
      rw [asBytes_cons, List.length_append, size] at enough
      cases fuel with
      | zero => omega
      | succ fuel =>
          cases bytes : asBytes (c :: text) with
          | nil =>
              rw [asBytes_cons, List.append_eq_nil_iff] at bytes
              exact absurd bytes.1 String.utf8EncodeChar_ne_nil
          | cons first rest =>
              have decoded : (first :: rest).toByteArray.utf8DecodeChar? 0 = some c := by
                rw [← bytes]
                exact List.utf8DecodeChar?_utf8Encode_cons
              have left : (first :: rest).drop c.utf8Size = asBytes text := by
                rw [← bytes, asBytes_cons, ← size, List.drop_left]
              simp only [fromUtf8LossyFuel, decoded, left]
              rw [ih fuel (by omega)]

theorem fromUtf8Lossy_asBytes (text : Text) : fromUtf8Lossy (asBytes text) = text :=
  fromUtf8LossyFuel_asBytes text _ (Nat.le_refl _)

@[simp]
theorem asBytes_append (first second : Text) : asBytes (first ++ second) = asBytes first ++ asBytes second := by
  simp [asBytes]

theorem utf8EncodeChar_append_inj {c d : Char} {rest rest' : List UInt8}
    (same : String.utf8EncodeChar c ++ rest = String.utf8EncodeChar d ++ rest') : c = d ∧ rest = rest' := by
  -- The first character can be told from the bytes.
  have decoded (c : Char) (rest : List UInt8) :
      (String.utf8EncodeChar c ++ rest).toByteArray.utf8DecodeChar? 0 = some c := by
    rw [List.toByteArray_append]
    exact ByteArray.utf8DecodeChar?_utf8EncodeChar_append
  have first : some c = some d := by rw [← decoded c rest, same, decoded d rest']
  cases first
  exact ⟨rfl, List.append_cancel_left same⟩

theorem asBytes_split {part text : Text} {lost : List UInt8} (split : asBytes text = asBytes part ++ lost) :
    ∃ more, text = part ++ more ∧ lost = asBytes more := by
  -- Bytes that encode a text and are an initial part of another text's encode an initial part of it.
  induction part generalizing text with
  | nil => exact ⟨text, rfl, by simpa using split.symm⟩
  | cons c part ih =>
      cases text with
      | nil =>
          rw [asBytes_nil, asBytes_cons, List.append_assoc] at split
          exact absurd (List.append_eq_nil_iff.mp split.symm).1 String.utf8EncodeChar_ne_nil
      | cons d text =>
          rw [asBytes_cons, asBytes_cons, List.append_assoc] at split
          have ⟨same, rest⟩ := utf8EncodeChar_append_inj split
          have ⟨more, text', lost'⟩ := ih rest
          exact ⟨more, by rw [same, text', List.cons_append], lost'⟩

theorem newline_mem_asBytes {text : Text} (member : (10 : UInt8) ∈ asBytes text) : '\n' ∈ text := by
  -- No other character has the newline among its bytes.
  obtain ⟨c, there, byte⟩ := List.mem_flatMap.mp member
  obtain ⟨i, inside, at'⟩ := List.getElem_of_mem byte
  have start : i = 0 := by
    apply (@UInt8.isUTF8FirstByte_getElem_utf8EncodeChar c i inside).mp
    rw [at']
    decide
  subst start
  cases bytes : String.utf8EncodeChar c with
  | nil => exact absurd bytes String.utf8EncodeChar_ne_nil
  | cons first rest =>
      have ten : first = 10 := by simpa [bytes] using at'
      have same : String.utf8EncodeChar c ++ [] = String.utf8EncodeChar '\n' ++ rest := by
        rw [List.append_nil, bytes, ten]
        rfl
      rw [(utf8EncodeChar_append_inj same).1] at there
      exact there

example : fromUtf8Lossy [0x61, 0xE2, 0x82, 0x62] = ['a', '\uFFFD', 'b'] := by decide +kernel

theorem asBytes_splitOn (text : Text) : (asBytes text).splitOn 10 = (text.splitOn '\n').map asBytes := by
  induction length : text.length using Nat.strong_induction_on generalizing text with
  | _ size ih =>
      by_cases within : '\n' ∈ text
      · obtain ⟨front, back, rfl, clean⟩ := List.eq_append_cons_of_mem within
        have line : (10 : UInt8) ∉ asBytes front := fun member => clean (newline_mem_asBytes member)
        have newline : asBytes ('\n' :: back) = 10 :: asBytes back := rfl
        have later := ih back.length (by simp [← length]; omega) back rfl
        rw [asBytes_append, newline, List.splitOn_append_cons_self, List.splitOn_append_cons_self,
          List.splitOn_eq_singleton line, List.splitOn_eq_singleton clean, later]
        rfl
      · have line : (10 : UInt8) ∉ asBytes text := fun member => within (newline_mem_asBytes member)
        rw [List.splitOn_eq_singleton line, List.splitOn_eq_singleton within]
        rfl

theorem asBytes_lines {pieces : List (List UInt8)} (texts : ∀ piece ∈ pieces, ∃ text, asBytes text = piece) :
    ∃ text, asBytes text = [10].intercalate pieces := by
  induction pieces with
  | nil => exact ⟨[], rfl⟩
  | cons first rest ih =>
      obtain ⟨front, here⟩ := texts first List.mem_cons_self
      obtain ⟨back, there⟩ := ih fun piece member => texts piece (List.mem_cons_of_mem _ member)
      cases rest with
      | nil => exact ⟨front, by simp [here]⟩
      | cons second others =>
          refine ⟨front ++ '\n' :: back, ?_⟩
          have newline : asBytes ('\n' :: back) = 10 :: asBytes back := rfl
          rw [asBytes_append, newline, here, there, List.intercalate_cons_cons, List.append_assoc,
            List.singleton_append]

end Text
