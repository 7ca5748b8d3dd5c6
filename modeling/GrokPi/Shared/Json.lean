import GrokPi.Shared.Text

set_option autoImplicit false

namespace Json

section Numbers

def isNumberChar (c : Char) : Bool :=
  c.isDigit || c = '-' || c = '+' || c = '.' || c = 'e' || c = 'E'

def exponent : Text → Bool
  | [] => true
  | c :: rest =>
      if c = 'e' || c = 'E' then
        match rest with
        | [] => false
        | sign :: digits =>
            if sign = '+' || sign = '-' then !digits.isEmpty && digits.all Char.isDigit
            else rest.all Char.isDigit
      else false

def fraction : Text → Bool
  | [] => true
  | c :: rest =>
      if c = '.' then
        !(rest.takeWhile Char.isDigit).isEmpty && exponent (rest.dropWhile Char.isDigit)
      else exponent (c :: rest)

def unsignedNumber : Text → Bool
  | [] => false
  | c :: rest =>
      if c = '0' then fraction rest
      else c.isDigit && fraction (rest.dropWhile Char.isDigit)

def isNumber (text : Text) : Bool :=
  text.all isNumberChar &&
    match text with
    | [] => false
    | c :: rest => if c = '-' then unsignedNumber rest else unsignedNumber text

structure NumberLiteral where
  text : Text
  valid : isNumber text = true
  deriving DecidableEq

theorem NumberLiteral.chars (literal : NumberLiteral) : ∀ c ∈ literal.text, isNumberChar c = true := by
  have valid := literal.valid
  simp only [isNumber, Bool.and_eq_true, List.all_eq_true] at valid
  exact valid.1

theorem NumberLiteral.nonempty (literal : NumberLiteral) : literal.text ≠ [] := by
  intro empty
  have valid := literal.valid
  simp [isNumber, empty] at valid

theorem toDigits_head (n : Nat) (positive : n ≠ 0) :
    ∃ c rest, Nat.toDigits 10 n = c :: rest ∧ c ≠ '0' := by
  induction n using Nat.strong_induction_on with
  | _ n ih =>
      by_cases small : n < 10
      · refine ⟨n.digitChar, [], Nat.toDigits_of_lt_base small, ?_⟩
        interval_cases n <;> first | exact absurd rfl positive | decide
      · have big : 10 ≤ n := by omega
        obtain ⟨c, rest, split, nonzero⟩ := ih (n / 10) (by omega) (by omega)
        refine ⟨c, rest ++ [(n % 10).digitChar], ?_, nonzero⟩
        rw [Nat.toDigits_of_base_le (by decide) big, split]
        simp

theorem toDigits_digits (n : Nat) : ∀ c ∈ Nat.toDigits 10 n, c.isDigit = true :=
  fun _ member => Nat.isDigit_of_mem_toDigits (by decide) (by decide) member

theorem isNumber_toDigits (n : Nat) : isNumber (Nat.toDigits 10 n) = true := by
  have digits := toDigits_digits n
  have chars : (Nat.toDigits 10 n).all isNumberChar = true := by
    rw [List.all_eq_true]
    intro c member
    simp [isNumberChar, digits c member]
  by_cases zero : n = 0
  · subst zero
    decide
  · obtain ⟨c, rest, split, nonzero⟩ := toDigits_head n zero
    rw [split] at digits chars ⊢
    have digit := digits c (by simp)
    have unsigned : c ≠ '-' := by
      intro minus
      rw [minus] at digit
      exact absurd digit (by decide)
    have later : rest.dropWhile Char.isDigit = [] :=
      List.dropWhile_eq_nil_iff.mpr fun c member => digits c (by simp [member])
    rw [isNumber, chars]
    simp [unsigned, unsignedNumber, nonzero, digit, later, fraction]

def NumberLiteral.ofNat (n : Nat) : NumberLiteral :=
  { text := Nat.toDigits 10 n
    valid := isNumber_toDigits n }

def NumberLiteral.toNat (literal : NumberLiteral) : Option Nat :=
  if literal.text.all Char.isDigit then some (Nat.ofDigitChars 10 literal.text 0) else none

@[simp] theorem NumberLiteral.toNat_ofNat (n : Nat) : (ofNat n).toNat = some n := by
  have digits : (Nat.toDigits 10 n).all Char.isDigit = true :=
    List.all_eq_true.mpr (toDigits_digits n)
  simp [toNat, ofNat, digits, Nat.ofDigitChars_ten_toDigits]

end Numbers

end Json

inductive Json where
  | null
  | bool (value : Bool)
  | number (literal : Json.NumberLiteral)
  | string (text : Text)
  | array (items : List Json)
  | object (members : List (Text × Json))

namespace Json

section Printing

def hexDigit (n : Nat) : Char := "0123456789abcdef".toList.getD n '0'

def escapeChar (c : Char) : Text :=
  if c = '"' then ['\\', '"']
  else if c = '\\' then ['\\', '\\']
  else if c = '\n' then ['\\', 'n']
  else if c = '\r' then ['\\', 'r']
  else if c = '\t' then ['\\', 't']
  else if c.toNat = 8 then ['\\', 'b']
  else if c.toNat = 12 then ['\\', 'f']
  else if c.toNat < 32 then ['\\', 'u', '0', '0', hexDigit (c.toNat / 16), hexDigit (c.toNat % 16)]
  else [c]

def quote (text : Text) : Text := '"' :: text.flatMap escapeChar ++ ['"']

mutual

def print : Json → Text
  | .null => "null".toList
  | .bool true => "true".toList
  | .bool false => "false".toList
  | .number literal => literal.text
  | .string text => quote text
  | .array items => '[' :: printItems items ++ [']']
  | .object members => '{' :: printMembers members ++ ['}']

def printItems : List Json → Text
  | [] => []
  | [item] => print item
  | item :: next :: rest => print item ++ ',' :: printItems (next :: rest)

def printMembers : List (Text × Json) → Text
  | [] => []
  | [(key, value)] => quote key ++ ':' :: print value
  | (key, value) :: next :: rest =>
      quote key ++ ':' :: print value ++ ',' :: printMembers (next :: rest)

end

example : print (.array [.null, .bool true]) = "[null,true]".toList := by
  simp [print, printItems]

end Printing

section Parsing

def isSpace (c : Char) : Bool := c = ' ' || c = '\t' || c = '\n' || c = '\r'

def skipSpace (text : Text) : Text := text.dropWhile isSpace

def hexValue (c : Char) : Option Nat :=
  if c.isDigit then some (c.toNat - '0'.toNat)
  else if 'a' ≤ c ∧ c ≤ 'f' then some (c.toNat - 'a'.toNat + 10)
  else if 'A' ≤ c ∧ c ≤ 'F' then some (c.toNat - 'A'.toNat + 10)
  else none

def codeUnit : Text → Option (Nat × Text)
  | a :: b :: c :: d :: rest => do
      let a ← hexValue a
      let b ← hexValue b
      let c ← hexValue c
      let d ← hexValue d
      some (((a * 16 + b) * 16 + c) * 16 + d, rest)
  | _ => none

def isHighSurrogate (unit : Nat) : Bool := 0xD800 ≤ unit && unit < 0xDC00

def isLowSurrogate (unit : Nat) : Bool := 0xDC00 ≤ unit && unit < 0xE000

def literally : Text → Text → Option Text
  | [], text => some text
  | _ :: _, [] => none
  | c :: word, d :: rest => if c = d then literally word rest else none

def unicodeEscape (text : Text) : Option (Char × Text) := do
  let (unit, rest) ← codeUnit text
  if isHighSurrogate unit then
    let rest ← literally ['\\', 'u'] rest
    let (low, rest) ← codeUnit rest
    if isLowSurrogate low then
      some (Char.ofNat (0x10000 + (unit - 0xD800) * 0x400 + (low - 0xDC00)), rest)
    else none
  else if isLowSurrogate unit then none
  else some (Char.ofNat unit, rest)

def escaped : Text → Option (Char × Text)
  | [] => none
  | c :: rest =>
      if c = 'u' then unicodeEscape rest
      else if c = '"' || c = '\\' || c = '/' then some (c, rest)
      else if c = 'n' then some ('\n', rest)
      else if c = 'r' then some ('\r', rest)
      else if c = 't' then some ('\t', rest)
      else if c = 'b' then some (Char.ofNat 8, rest)
      else if c = 'f' then some (Char.ofNat 12, rest)
      else none

def nextChar : Text → Option (Char × Text)
  | [] => none
  | c :: rest =>
      if c = '\\' then escaped rest
      else if c.toNat < 32 then none
      else some (c, rest)

def stringBody : Nat → Text → Option (Text × Text)
  | 0, _ => none
  | _ + 1, [] => none
  | fuel + 1, c :: rest =>
      if c = '"' then some ([], rest)
      else do
        let (first, rest) ← nextChar (c :: rest)
        let (more, rest) ← stringBody fuel rest
        some (first :: more, rest)

def expect (c : Char) (text : Text) : Option Text := literally [c] (skipSpace text)

def quoted (text : Text) : Option (Text × Text) := do
  let rest ← expect '"' text
  stringBody rest.length rest

section Sequences

variable {α : Type} (item : Text → Option (α × Text)) (close : Char)

def sepBy : Nat → Text → Option (List α × Text)
  | 0, _ => none
  | fuel + 1, text => do
      let (first, rest) ← item text
      match skipSpace rest with
      | [] => none
      | c :: rest =>
          if c = close then some ([first], rest)
          else if c = ',' then do
            let (more, rest) ← sepBy fuel rest
            some (first :: more, rest)
          else none

def delimited (text : Text) : Option (List α × Text) :=
  match skipSpace text with
  | [] => none
  | c :: rest => if c = close then some ([], rest) else sepBy item close text.length text

end Sequences

def member (value : Text → Option (Json × Text)) (text : Text) : Option ((Text × Json) × Text) := do
  let (key, rest) ← quoted text
  let rest ← expect ':' rest
  let (found, rest) ← value rest
  some ((key, found), rest)

def numberToken (text : Text) : Option (Json × Text) :=
  if valid : isNumber (text.takeWhile isNumberChar) = true then
    some (.number { text := text.takeWhile isNumberChar, valid }, text.dropWhile isNumberChar)
  else none

def value : Nat → Text → Option (Json × Text)
  | 0, _ => none
  | fuel + 1, text =>
      match skipSpace text with
      | [] => none
      | c :: rest =>
          if c = '"' then (stringBody rest.length rest).map fun found => (.string found.1, found.2)
          else if c = '[' then
            (delimited (value fuel) ']' rest).map fun found => (.array found.1, found.2)
          else if c = '{' then
            (delimited (member (value fuel)) '}' rest).map fun found => (.object found.1, found.2)
          else if c = 'n' then (literally "ull".toList rest).map fun rest => (.null, rest)
          else if c = 't' then (literally "rue".toList rest).map fun rest => (.bool true, rest)
          else if c = 'f' then (literally "alse".toList rest).map fun rest => (.bool false, rest)
          else numberToken (c :: rest)

section Fields

/-- The last member of a name counts. -/
def get : Json → Text → Option Json
  | .object members, name => (members.reverse.find? fun entry => entry.1 = name).map Prod.snd
  | _, _ => none

def asText : Json → Option Text
  | .string text => some text
  | _ => none

def asBool : Json → Option Bool
  | .bool value => some value
  | _ => none

def asNat : Json → Option Nat
  | .number literal => literal.toNat
  | _ => none

def asItems : Json → Option (List Json)
  | .array items => some items
  | _ => none

end Fields

def parse (text : Text) : Option Json :=
  match value (text.length + 1) text with
  | some (found, rest) => if (skipSpace rest).isEmpty then some found else none
  | none => none

end Parsing

section Longer

variable {more : Text}

/-- A reader that stopped before the end of a text reads the same from a longer text. -/
def Carries {α : Type} (more : Text) (item item' : Text → Option (α × Text)) : Prop :=
  ∀ text found rest, item text = some (found, rest) → rest ≠ [] →
    item' (text ++ more) = some (found, rest ++ more)

variable {text rest : Text}

theorem read_append {α : Type} {found found' : α} (read : some (found, text) = some (found', rest)) :
    some (found, text ++ more) = some (found', rest ++ more) := by
  cases read
  rfl

variable {c : Char}

theorem dropWhile_append {p : Char → Bool} (stop : text.dropWhile p = c :: rest) :
    (text ++ more).takeWhile p = text.takeWhile p ∧ (text ++ more).dropWhile p = c :: rest ++ more := by
  induction text with
  | nil => simp at stop
  | cons d text ih =>
      by_cases passed : p d = true
      · simp only [List.dropWhile_cons, passed, if_true] at stop
        have ⟨taken, left⟩ := ih stop
        simp [passed, taken, left]
      · simp only [List.dropWhile_cons, passed] at stop
        simp only [Bool.false_eq_true, if_false] at stop
        simp [passed, ← stop]

theorem skipSpace_append (stop : skipSpace text = c :: rest) :
    skipSpace (text ++ more) = c :: rest ++ more :=
  (dropWhile_append stop).2

theorem literally_append {word text rest : Text} (read : literally word text = some rest) :
    literally word (text ++ more) = some (rest ++ more) := by
  induction word generalizing text with
  | nil =>
      simp only [literally, Option.some.injEq] at read ⊢
      rw [read]
  | cons c word ih =>
      cases text with
      | nil => simp [literally] at read
      | cons d text =>
          simp only [literally, List.cons_append] at read ⊢
          split at read
          · next same => rw [if_pos same, ih read]
          · simp at read

theorem expect_append (read : expect c text = some rest) :
    expect c (text ++ more) = some (rest ++ more) := by
  simp only [expect] at read ⊢
  cases stop : skipSpace text with
  | nil => simp [stop, literally] at read
  | cons d tail =>
      rw [stop] at read
      rw [skipSpace_append stop]
      exact literally_append read

theorem codeUnit_append {unit : Nat} (read : codeUnit text = some (unit, rest)) :
    codeUnit (text ++ more) = some (unit, rest ++ more) := by
  match text, read with
  | a :: b :: c :: d :: tail, read =>
      simp only [codeUnit, List.cons_append, Option.bind_eq_bind, Option.bind_eq_some_iff,
        Option.some.injEq, Prod.mk.injEq] at read ⊢
      obtain ⟨a', ha, b', hb, c', hc, d', hd, value, same⟩ := read
      exact ⟨a', ha, b', hb, c', hc, d', hd, value, by rw [same]⟩

theorem unicodeEscape_append (read : unicodeEscape text = some (c, rest)) :
    unicodeEscape (text ++ more) = some (c, rest ++ more) := by
  simp only [unicodeEscape, Option.bind_eq_bind, Option.bind_eq_some_iff] at read ⊢
  obtain ⟨⟨unit, tail⟩, first, read⟩ := read
  refine ⟨_, codeUnit_append first, ?_⟩
  simp only at read ⊢
  split at read
  · next high =>
    rw [if_pos high]
    simp only [Option.bind_eq_some_iff] at read ⊢
    obtain ⟨after, sign, ⟨low, last⟩, second, read⟩ := read
    refine ⟨_, literally_append sign, _, codeUnit_append second, ?_⟩
    simp only at read ⊢
    split at read
    · next isLow =>
      rw [if_pos isLow]
      exact read_append read
    · simp at read
  · next high =>
    rw [if_neg high]
    split at read
    · simp at read
    · next low =>
      rw [if_neg low]
      exact read_append read

theorem escaped_append (read : escaped text = some (c, rest)) :
    escaped (text ++ more) = some (c, rest ++ more) := by
  cases text with
  | nil => simp [escaped] at read
  | cons d tail =>
      simp only [escaped, List.cons_append] at read ⊢
      split at read
      · next unicode =>
        rw [if_pos unicode]
        exact unicodeEscape_append read
      · next plain =>
        rw [if_neg plain]
        split_ifs at read ⊢ <;> exact read_append read

theorem nextChar_append (read : nextChar text = some (c, rest)) :
    nextChar (text ++ more) = some (c, rest ++ more) := by
  cases text with
  | nil => simp [nextChar] at read
  | cons d tail =>
      simp only [nextChar, List.cons_append] at read ⊢
      split at read
      · next slash =>
        rw [if_pos slash]
        exact escaped_append read
      · next plain =>
        rw [if_neg plain]
        split at read
        · simp at read
        · next printable =>
          rw [if_neg printable]
          exact read_append read

theorem stringBody_append {fuel enough : Nat} (le : fuel ≤ enough) {text found rest : Text}
    (read : stringBody fuel text = some (found, rest)) :
    stringBody enough (text ++ more) = some (found, rest ++ more) := by
  induction fuel generalizing enough text found rest with
  | zero => simp [stringBody] at read
  | succ fuel ih =>
      obtain ⟨enough, rfl⟩ : ∃ n, enough = n + 1 := ⟨enough - 1, by omega⟩
      cases text with
      | nil => simp [stringBody] at read
      | cons c tail =>
          simp only [stringBody, List.cons_append] at read ⊢
          split at read
          · next close =>
            rw [if_pos close]
            exact read_append read
          · next other =>
            rw [if_neg other]
            simp only [Option.bind_eq_bind, Option.bind_eq_some_iff] at read ⊢
            obtain ⟨⟨first, after⟩, one, ⟨others, last⟩, many, read⟩ := read
            refine ⟨_, nextChar_append one, _, ih (by omega) many, ?_⟩
            exact read_append read

theorem quoted_append {text found rest : Text} (read : quoted text = some (found, rest)) :
    quoted (text ++ more) = some (found, rest ++ more) := by
  simp only [quoted, Option.bind_eq_bind, Option.bind_eq_some_iff] at read ⊢
  obtain ⟨after, opened, body⟩ := read
  exact ⟨_, expect_append opened, stringBody_append (by simp) body⟩

section Sequences

variable {α : Type} {item item' : Text → Option (α × Text)} {close : Char}

theorem sepBy_append (carries : Carries more item item') {fuel enough : Nat} (le : fuel ≤ enough)
    {text rest : Text} {found : List α} (read : sepBy item close fuel text = some (found, rest)) :
    sepBy item' close enough (text ++ more) = some (found, rest ++ more) := by
  induction fuel generalizing enough text found rest with
  | zero => simp [sepBy] at read
  | succ fuel ih =>
      obtain ⟨enough, rfl⟩ : ∃ n, enough = n + 1 := ⟨enough - 1, by omega⟩
      simp only [sepBy, Option.bind_eq_bind, Option.bind_eq_some_iff] at read ⊢
      obtain ⟨⟨first, after⟩, one, read⟩ := read
      cases stop : skipSpace after with
      | nil => simp [stop] at read
      | cons c tail =>
          have nonempty : after ≠ [] := by
            intro empty
            simp [empty, skipSpace] at stop
          refine ⟨_, carries _ _ _ one nonempty, ?_⟩
          simp only [stop, skipSpace_append stop, List.cons_append] at read ⊢
          split at read
          · next closed =>
            rw [if_pos closed]
            exact read_append read
          · next opened =>
            rw [if_neg opened]
            split at read
            · next comma =>
              rw [if_pos comma]
              simp only [Option.bind_eq_some_iff] at read ⊢
              obtain ⟨⟨others, last⟩, many, read⟩ := read
              refine ⟨_, ih (by omega) many, ?_⟩
              exact read_append read
            · simp at read

theorem delimited_append (carries : Carries more item item') {text rest : Text} {found : List α}
    (read : delimited item close text = some (found, rest)) :
    delimited item' close (text ++ more) = some (found, rest ++ more) := by
  simp only [delimited] at read ⊢
  cases stop : skipSpace text with
  | nil => simp [stop] at read
  | cons c tail =>
      simp only [stop, skipSpace_append stop, List.cons_append] at read ⊢
      split at read
      · next closed =>
        rw [if_pos closed]
        exact read_append read
      · next opened =>
        rw [if_neg opened]
        exact sepBy_append carries (by simp) read

end Sequences

theorem member_carries {item item' : Text → Option (Json × Text)} (carries : Carries more item item') :
    Carries more (member item) (member item') := by
  intro text found rest read nonempty
  simp only [member, Option.bind_eq_bind, Option.bind_eq_some_iff] at read ⊢
  obtain ⟨⟨key, first⟩, name, second, colon, ⟨inner, last⟩, body, read⟩ := read
  simp only [Option.some.injEq, Prod.mk.injEq] at read
  obtain ⟨rfl, rfl⟩ := read
  exact ⟨_, quoted_append name, _, expect_append colon, _, carries _ _ _ body nonempty, rfl⟩

theorem map_append {α β : Type} {f : α → β} {reader reader' : Option (α × Text)} {found : β}
    {rest : Text}
    (longer : ∀ {inner last}, reader = some (inner, last) → reader' = some (inner, last ++ more))
    (read : (reader.map fun found => (f found.1, found.2)) = some (found, rest)) :
    (reader'.map fun found => (f found.1, found.2)) = some (found, rest ++ more) := by
  obtain ⟨⟨inner, last⟩, here, same⟩ := Option.map_eq_some_iff.mp read
  rw [longer here]
  exact read_append (congrArg some same)

theorem literal_append {α : Type} {word text rest : Text} {constant found : α}
    (read : ((literally word text).map fun rest => (constant, rest)) = some (found, rest)) :
    ((literally word (text ++ more)).map fun rest => (constant, rest)) = some (found, rest ++ more) := by
  obtain ⟨last, here, same⟩ := Option.map_eq_some_iff.mp read
  rw [literally_append here]
  exact read_append (congrArg some same)

theorem numberToken_carries : Carries more numberToken numberToken := by
  intro text found rest read nonempty
  simp only [numberToken] at read
  split at read
  · next valid =>
    simp only [Option.some.injEq, Prod.mk.injEq] at read
    obtain ⟨rfl, rfl⟩ := read
    cases stop : text.dropWhile isNumberChar with
    | nil => exact absurd stop nonempty
    | cons c tail =>
        have ⟨taken, left⟩ := @dropWhile_append more _ _ _ _ stop
        simp only [numberToken, taken, left, valid, dite_true, List.cons_append]
  · simp at read

theorem value_carries {fuel enough : Nat} (le : fuel ≤ enough) :
    Carries more (value fuel) (value enough) := by
  induction fuel generalizing enough with
  | zero =>
      intro text found rest read
      simp [value] at read
  | succ fuel ih =>
      obtain ⟨enough, rfl⟩ : ∃ n, enough = n + 1 := ⟨enough - 1, by omega⟩
      have inner := @ih enough (by omega)
      intro text found rest read nonempty
      simp only [value] at read ⊢
      cases stop : skipSpace text with
      | nil => simp [stop] at read
      | cons c tail =>
          simp only [stop, skipSpace_append stop, List.cons_append] at read ⊢
          split at read
          · next isText =>
            rw [if_pos isText]
            exact map_append (fun read => stringBody_append (by simp) read) read
          · next notText =>
            rw [if_neg notText]
            split at read
            · next isArray =>
              rw [if_pos isArray]
              exact map_append (fun read => delimited_append inner read) read
            · next notArray =>
              rw [if_neg notArray]
              split at read
              · next isObject =>
                rw [if_pos isObject]
                exact map_append (fun read => delimited_append (member_carries inner) read) read
              · next notObject =>
                rw [if_neg notObject]
                split_ifs at read ⊢
                · exact literal_append read
                · exact literal_append read
                · exact literal_append read
                · exact numberToken_carries _ _ _ read nonempty

end Longer

section RoundTrip

theorem skipSpace_solid {c : Char} (solid : isSpace c = false) (rest : Text) :
    skipSpace (c :: rest) = c :: rest := by
  simp [skipSpace, solid]

theorem escapeChar_head (c : Char) : ∃ d rest, escapeChar c = d :: rest ∧ d ≠ '"' := by
  simp only [escapeChar]
  split_ifs with quote
  all_goals first
    | exact ⟨_, _, rfl, by decide⟩
    | exact ⟨_, _, rfl, quote⟩

theorem codeUnit_hexDigit (n : Fin 32) (rest : Text) :
    codeUnit ('0' :: '0' :: hexDigit (n / 16) :: hexDigit (n % 16) :: rest) = some (n.val, rest) := by
  have digits : ∀ n : Fin 32, hexValue (hexDigit (n / 16)) = some (n.val / 16) ∧
      hexValue (hexDigit (n % 16)) = some (n.val % 16) := by decide
  have ⟨high, low⟩ := digits n
  have zero : hexValue '0' = some 0 := by decide
  simp only [codeUnit, zero, high, low, Option.bind_eq_bind, Option.bind_some]
  congr 2
  omega

theorem nextChar_escape (c : Char) (rest : Text) : nextChar (escapeChar c ++ rest) = some (c, rest) := by
  simp only [escapeChar]
  split_ifs with quote slash newline return' tab back form control
  · rw [quote]
    rfl
  · rw [slash]
    rfl
  · rw [newline]
    rfl
  · rw [return']
    rfl
  · rw [tab]
    rfl
  · have same : Char.ofNat 8 = c := by rw [← back, Char.ofNat_toNat]
    rw [← same]
    rfl
  · have same : Char.ofNat 12 = c := by rw [← form, Char.ofNat_toNat]
    rw [← same]
    rfl
  · have unit := codeUnit_hexDigit ⟨c.toNat, control⟩ rest
    have low : isHighSurrogate c.toNat = false := by
      simp [isHighSurrogate]
      omega
    have high : isLowSurrogate c.toNat = false := by
      simp [isLowSurrogate]
      omega
    simp only at unit
    simp [nextChar, escaped, unicodeEscape, unit, low, high, Char.ofNat_toNat]
  · simp [nextChar, slash, control]

theorem stringBody_quote (text rest : Text) (fuel : Nat) (enough : text.length < fuel) :
    stringBody fuel (text.flatMap escapeChar ++ '"' :: rest) = some (text, rest) := by
  induction text generalizing fuel with
  | nil =>
      obtain ⟨fuel, rfl⟩ : ∃ n, fuel = n + 1 := ⟨fuel - 1, by omega⟩
      simp [stringBody]
  | cons c text ih =>
      obtain ⟨fuel, rfl⟩ : ∃ n, fuel = n + 1 := ⟨fuel - 1, by omega⟩
      obtain ⟨d, tail, split, other⟩ := escapeChar_head c
      have next := nextChar_escape c (text.flatMap escapeChar ++ '"' :: rest)
      rw [split, List.cons_append] at next
      simp only [List.flatMap_cons, List.append_assoc, split, List.cons_append, stringBody, if_neg other,
        next, Option.bind_eq_bind, Option.bind_some]
      rw [ih fuel (by simpa using enough)]
      rfl

theorem length_le_escape (text : Text) : text.length ≤ (text.flatMap escapeChar).length := by
  induction text with
  | nil => simp
  | cons c text ih =>
      obtain ⟨d, tail, split, _⟩ := escapeChar_head c
      simp only [List.flatMap_cons, List.length_append, List.length_cons, split]
      omega

theorem quoted_quote (text rest : Text) : quoted (quote text ++ rest) = some (text, rest) := by
  have body := stringBody_quote text rest (text.flatMap escapeChar ++ '"' :: rest).length (by
    have le := length_le_escape text
    simp only [List.length_append, List.length_cons]
    omega)
  simp only [quoted, quote, expect, List.cons_append, List.append_assoc]
  rw [skipSpace_solid (by decide)]
  simpa [literally] using body

def Follows (rest : Text) : Prop := ∀ c ∈ rest.head?, isNumberChar c = false

theorem numberToken_literal (literal : NumberLiteral) {rest : Text} (follows : Follows rest) :
    numberToken (literal.text ++ rest) = some (.number literal, rest) := by
  have chars := literal.chars
  have after : rest.takeWhile isNumberChar = [] ∧ rest.dropWhile isNumberChar = rest := by
    cases rest with
    | nil => simp
    | cons c tail =>
        have stop := follows c rfl
        simp [stop]
  have taken : (literal.text ++ rest).takeWhile isNumberChar = literal.text := by
    rw [List.takeWhile_append_of_pos chars, after.1, List.append_nil]
  have left : (literal.text ++ rest).dropWhile isNumberChar = rest := by
    rw [List.dropWhile_append_of_pos chars, after.2]
  simp only [numberToken, taken, left, literal.valid, dite_true]

theorem print_head (v : Json) : ∃ c rest, print v = c :: rest ∧ isSpace c = false ∧ c ≠ ']' := by
  -- The first character of a value decides how it is read.
  cases v with
  | null => exact ⟨_, _, rfl, by decide, by decide⟩
  | bool value => cases value <;> exact ⟨_, _, rfl, by decide, by decide⟩
  | number literal =>
      cases split : literal.text with
      | nil => exact absurd split literal.nonempty
      | cons c rest =>
          have number := literal.chars c (by simp [split])
          refine ⟨c, rest, by rw [print, split], ?_, ?_⟩
          · by_contra space
            simp only [Bool.not_eq_false, isSpace, Bool.or_eq_true, decide_eq_true_eq] at space
            rcases space with ((rfl | rfl) | rfl) | rfl <;> exact absurd number (by decide)
          · intro close
            rw [close] at number
            exact absurd number (by decide)
  | string text => exact ⟨_, _, rfl, by decide, by decide⟩
  | array items => exact ⟨_, _, rfl, by decide, by decide⟩
  | object members => exact ⟨_, _, rfl, by decide, by decide⟩

theorem print_pos (v : Json) : 0 < (print v).length := by
  obtain ⟨c, rest, split, _⟩ := print_head v
  simp [split]

def ReadBack (v : Json) : Prop :=
  ∀ fuel rest, (print v).length ≤ fuel → Follows rest → value fuel (print v ++ rest) = some (v, rest)

def ItemsReadBack (items : List Json) : Prop :=
  ∀ fuel n rest, (printItems items).length ≤ fuel → items.length ≤ n → items ≠ [] →
    sepBy (value fuel) ']' n (printItems items ++ ']' :: rest) = some (items, rest)

def MembersReadBack (members : List (Text × Json)) : Prop :=
  ∀ fuel n rest, (printMembers members).length ≤ fuel → members.length ≤ n → members ≠ [] →
    sepBy (member (value fuel)) '}' n (printMembers members ++ '}' :: rest) = some (members, rest)

theorem follows_cons {c : Char} (stop : isNumberChar c = false) (rest : Text) :
    Follows (c :: rest) := by
  intro d same
  cases same
  exact stop

theorem member_read {fuel : Nat} {v : Json} (readBack : ReadBack v) (key rest : Text)
    (enough : (print v).length ≤ fuel) (follows : Follows rest) :
    member (value fuel) (quote key ++ ':' :: (print v ++ rest)) = some ((key, v), rest) := by
  have colon : expect ':' (':' :: (print v ++ rest)) = some (print v ++ rest) := by
    rw [expect, skipSpace_solid (by decide)]
    rfl
  simp only [member, quoted_quote, Option.bind_eq_bind, Option.bind_some, colon,
    readBack fuel rest enough follows]

theorem sepBy_last {α : Type} {item : Text → Option (α × Text)} {close : Char} {n : Nat}
    {text rest : Text} {found : α} (solid : isSpace close = false)
    (read : item text = some (found, close :: rest)) :
    sepBy item close (n + 1) text = some ([found], rest) := by
  simp [sepBy, read, skipSpace_solid solid]

theorem sepBy_more {α : Type} {item : Text → Option (α × Text)} {close : Char} {n : Nat}
    {text later rest : Text} {found : α} {others : List α} (open' : ',' ≠ close)
    (read : item text = some (found, ',' :: later))
    (many : sepBy item close n later = some (others, rest)) :
    sepBy item close (n + 1) text = some (found :: others, rest) := by
  simp [sepBy, read, skipSpace_solid, open', many, isSpace]

theorem delimited_read {α : Type} {item : Text → Option (α × Text)} {close : Char}
    {text rest : Text} {items : List α} (solid : isSpace close = false)
    (empty : items = [] → text = close :: rest)
    (head : items ≠ [] → ∃ c tail, text = c :: tail ∧ isSpace c = false ∧ c ≠ close)
    (many : items ≠ [] → sepBy item close text.length text = some (items, rest)) :
    delimited item close text = some (items, rest) := by
  by_cases none' : items = []
  · rw [empty none', none']
    simp [delimited, skipSpace_solid solid]
  · obtain ⟨c, tail, split, here, different⟩ := head none'
    rw [delimited, split, skipSpace_solid here]
    simp only [if_neg different]
    rw [← split]
    exact many none'

theorem length_items (items : List Json) : items.length ≤ (printItems items).length + 1 := by
  induction items with
  | nil => simp
  | cons item rest ih =>
      have positive := print_pos item
      cases rest with
      | nil => simp
      | cons next more =>
          simp only [printItems, List.length_append, List.length_cons] at ih ⊢
          omega

theorem length_members (members : List (Text × Json)) :
    members.length ≤ (printMembers members).length + 1 := by
  induction members with
  | nil => simp
  | cons first rest ih =>
      obtain ⟨key, v⟩ := first
      cases rest with
      | nil => simp
      | cons next more =>
          simp only [printMembers, List.length_append, List.length_cons] at ih ⊢
          omega

theorem array_reads_back {items : List Json} (readBack : ItemsReadBack items) :
    ReadBack (.array items) := by
  intro fuel rest enough _
  obtain ⟨fuel, rfl⟩ : ∃ n, fuel = n + 1 := ⟨fuel - 1, by simp [print] at enough; omega⟩
  have inner : (printItems items).length ≤ fuel := by
    simp [print] at enough
    omega
  have read : delimited (value fuel) ']' (printItems items ++ ']' :: rest) = some (items, rest) := by
    apply delimited_read (by decide)
    · intro empty
      rw [empty]
      rfl
    · intro nonempty
      cases items with
      | nil => exact absurd rfl nonempty
      | cons item more =>
          obtain ⟨c, tail, split, solid, other⟩ := print_head item
          cases more with
          | nil => exact ⟨c, _, by rw [printItems, split]; rfl, solid, other⟩
          | cons next later => exact ⟨c, _, by rw [printItems, split]; rfl, solid, other⟩
    · intro nonempty
      apply readBack fuel _ rest inner _ nonempty
      have le := length_items items
      simp only [List.length_append, List.length_cons]
      omega
  simp only [print, List.cons_append, List.append_assoc, value]
  rw [skipSpace_solid (by decide)]
  simp [read]

theorem object_reads_back {members : List (Text × Json)} (readBack : MembersReadBack members) :
    ReadBack (.object members) := by
  intro fuel rest enough _
  obtain ⟨fuel, rfl⟩ : ∃ n, fuel = n + 1 := ⟨fuel - 1, by simp [print] at enough; omega⟩
  have inner : (printMembers members).length ≤ fuel := by
    simp [print] at enough
    omega
  have read : delimited (member (value fuel)) '}' (printMembers members ++ '}' :: rest) =
      some (members, rest) := by
    apply delimited_read (by decide)
    · intro empty
      rw [empty]
      rfl
    · intro nonempty
      match members, nonempty with
      | [(key, v)], _ => exact ⟨'"', _, rfl, by decide, by decide⟩
      | (key, v) :: next :: later, _ => exact ⟨'"', _, rfl, by decide, by decide⟩
    · intro nonempty
      apply readBack fuel _ rest inner _ nonempty
      have le := length_members members
      simp only [List.length_append, List.length_cons]
      omega
  simp only [print, List.cons_append, List.append_assoc, value]
  rw [skipSpace_solid (by decide)]
  simp [read]

theorem string_reads_back (text : Text) : ReadBack (.string text) := by
  intro fuel rest enough _
  obtain ⟨fuel, rfl⟩ : ∃ n, fuel = n + 1 := ⟨fuel - 1, by simp [print, quote] at enough; omega⟩
  have body := stringBody_quote text rest (text.flatMap escapeChar ++ '"' :: rest).length (by
    have le := length_le_escape text
    simp only [List.length_append, List.length_cons]
    omega)
  simp only [print, quote, List.cons_append, List.append_assoc, List.nil_append, value]
  rw [skipSpace_solid (by decide)]
  simp only [if_true, body, Option.map_some]

theorem number_reads_back (literal : NumberLiteral) : ReadBack (.number literal) := by
  intro fuel rest enough follows
  obtain ⟨c, tail, split, solid, _⟩ := print_head (.number literal)
  obtain ⟨fuel, rfl⟩ : ∃ n, fuel = n + 1 := ⟨fuel - 1, by rw [split] at enough; simp at enough; omega⟩
  have number : isNumberChar c = true := literal.chars c (by rw [print] at split; simp [split])
  have other : ∀ d, isNumberChar d = false → c ≠ d := by
    intro d stop same
    rw [same, stop] at number
    exact absurd number (by decide)
  have token := numberToken_literal literal follows
  rw [print] at split
  simp only [print, split, List.cons_append, value] at token ⊢
  rw [skipSpace_solid solid]
  simp only [if_neg (other '"' (by decide)), if_neg (other '[' (by decide)),
    if_neg (other '{' (by decide)), if_neg (other 'n' (by decide)), if_neg (other 't' (by decide)),
    if_neg (other 'f' (by decide)), token]

theorem constant_reads_back (v : Json) (constant : v = .null ∨ ∃ b, v = .bool b) : ReadBack v := by
  intro fuel rest enough _
  have positive := print_pos v
  obtain ⟨fuel, rfl⟩ : ∃ n, fuel = n + 1 := ⟨fuel - 1, by omega⟩
  rcases constant with rfl | ⟨b, rfl⟩
  · simp [print, value, skipSpace_solid, isSpace, literally]
  · cases b <;> simp [print, value, skipSpace_solid, isSpace, literally]

theorem print_reads_back (v : Json) : ReadBack v := by
  refine print.induct ReadBack MembersReadBack ItemsReadBack
    (constant_reads_back _ (.inl rfl)) (constant_reads_back _ (.inr ⟨_, rfl⟩))
    (constant_reads_back _ (.inr ⟨_, rfl⟩)) number_reads_back string_reads_back
    (fun _ => array_reads_back) (fun _ => object_reads_back) ?_ ?_ ?_ ?_ ?_ ?_ v
  · intro fuel n rest _ _ nonempty
    exact absurd rfl nonempty
  · intro item here fuel n rest enough many _
    obtain ⟨n, rfl⟩ : ∃ m, n = m + 1 := ⟨n - 1, by simp at many; omega⟩
    exact sepBy_last (by decide) (here fuel _ enough (follows_cons (by decide) _))
  · intro item next later here there fuel n rest enough many _
    obtain ⟨n, rfl⟩ : ∃ m, n = m + 1 := ⟨n - 1, by simp at many; omega⟩
    simp only [printItems, List.length_append, List.length_cons, List.append_assoc,
      List.cons_append] at enough ⊢
    apply sepBy_more (by decide) (here fuel _ (by omega) (follows_cons (by decide) _))
    exact there fuel n rest (by omega) (by simpa using many) (by simp)
  · intro fuel n rest _ _ nonempty
    exact absurd rfl nonempty
  · intro key v here fuel n rest enough many _
    obtain ⟨n, rfl⟩ : ∃ m, n = m + 1 := ⟨n - 1, by simp at many; omega⟩
    simp only [printMembers, List.length_append, List.length_cons, List.append_assoc,
      List.cons_append] at enough ⊢
    exact sepBy_last (by decide)
      (member_read here key _ (by omega) (follows_cons (by decide) _))
  · intro key v next later here there fuel n rest enough many _
    obtain ⟨n, rfl⟩ : ∃ m, n = m + 1 := ⟨n - 1, by simp at many; omega⟩
    simp only [printMembers, List.length_append, List.length_cons, List.append_assoc,
      List.cons_append] at enough ⊢
    apply sepBy_more (by decide)
      (member_read here key _ (by omega) (follows_cons (by decide) _))
    exact there fuel n rest (by omega) (by simpa using many) (by simp)

theorem parse_print (v : Json) : parse (print v) = some v := by
  have read := print_reads_back v ((print v).length + 1) [] (by omega) (by intro c none'; simp at none')
  rw [List.append_nil] at read
  simp [parse, read, skipSpace]

theorem parse_torn {members : List (Text × Json)} {torn lost : Text}
    (split : print (.object members) = torn ++ lost) (torn' : lost ≠ []) : parse torn = none := by
  cases torn with
  | nil => rfl
  | cons c tail =>
      have head := split
      simp only [print, List.cons_append, List.cons.injEq] at head
      obtain ⟨rfl, body⟩ := head
      simp only [parse, value]
      rw [skipSpace_solid (by decide)]
      simp only [List.length_cons]
      cases read : delimited (member (value (tail.length + 1))) '}' tail with
      | none => rfl
      | some found =>
          obtain ⟨others, rest⟩ := found
          have whole := print_reads_back (.object members) (tail.length + 1 + lost.length + 1) [] (by
            rw [split]
            simp) (by intro c none'; simp at none')
          have longer := delimited_append (member_carries (@value_carries lost (tail.length + 1)
            (tail.length + 1 + lost.length) (by omega))) read
          rw [List.append_nil, split] at whole
          simp only [List.cons_append, value] at whole
          rw [skipSpace_solid (by decide)] at whole
          simp [longer] at whole
          exact absurd whole.2.2 torn'

def isBreak (c : Char) : Bool := c = '\n' || c = '\r'

theorem escapeChar_one_line {d : Char} (ends : isBreak d = true) (c : Char) : d ∉ escapeChar c := by
  have hex : ∀ n : Fin 32, isBreak (hexDigit (n / 16)) = false ∧ isBreak (hexDigit (n % 16)) = false := by decide
  have apart {e : Char} (other : isBreak e = false) : d ≠ e := by
    rintro rfl
    rw [ends] at other
    cases other
  simp only [escapeChar]
  split_ifs with quote slash newline return' tab back form control
  all_goals try
    simp only [List.mem_cons, List.not_mem_nil, or_false, not_or]
    exact ⟨apart rfl, apart rfl⟩
  · have ⟨high, low⟩ := hex ⟨c.toNat, control⟩
    simp only [List.mem_cons, List.not_mem_nil, or_false, not_or]
    exact ⟨apart rfl, apart rfl, apart rfl, apart rfl, apart high, apart low⟩
  · rw [List.mem_singleton]
    exact apart (by simp [isBreak, newline, return'])

theorem quote_one_line {d : Char} (ends : isBreak d = true) (text : Text) : d ∉ quote text := by
  simp only [quote, List.cons_append, List.mem_cons, List.mem_append, List.mem_flatMap]
  rintro (rfl | ⟨c, _, within⟩ | rfl | none')
  · exact absurd ends (by decide)
  · exact escapeChar_one_line ends c within
  · exact absurd ends (by decide)
  · cases none'

theorem print_unbroken {d : Char} (ends : isBreak d = true) (v : Json) : d ∉ print v := by
  have cases' : d = '\n' ∨ d = '\r' := by simpa [isBreak] using ends
  refine print.induct (fun v => d ∉ print v) (fun members => d ∉ printMembers members)
    (fun items => d ∉ printItems items) ?_ ?_ ?_ ?_ (quote_one_line ends) ?_ ?_ ?_ ?_ ?_ ?_ ?_ ?_ v
  · rcases cases' with rfl | rfl <;> decide
  · rcases cases' with rfl | rfl <;> decide
  · rcases cases' with rfl | rfl <;> decide
  · intro literal within
    have digit := literal.chars _ within
    rcases cases' with rfl | rfl
    · exact absurd digit (by decide)
    · exact absurd digit (by decide)
  · intro items inner
    rcases cases' with rfl | rfl <;> simpa [print] using inner
  · intro members inner
    rcases cases' with rfl | rfl <;> simpa [print] using inner
  · exact List.not_mem_nil
  · intro item here
    exact here
  · intro item next rest here there
    rcases cases' with rfl | rfl <;> simpa [printItems] using ⟨here, there⟩
  · exact List.not_mem_nil
  · intro key v here
    rcases cases' with rfl | rfl <;> simpa [printMembers] using ⟨quote_one_line (by decide) key, here⟩
  · intro key v next rest here there
    rcases cases' with rfl | rfl <;> simpa [printMembers] using ⟨quote_one_line (by decide) key, here, there⟩

theorem print_one_line (v : Json) : '\n' ∉ print v := print_unbroken (by decide) v

end RoundTrip

end Json
