import GrokPi.Shared.Json

set_option autoImplicit false

namespace Json

section Grammar

def Blank (text : Text) : Prop := ∀ c ∈ text, isSpace c = true

inductive Body : Text → Text → Prop
  | nil : Body [] []
  | cons {spelling rest : Text} {c : Char} {more : Text} (open' : spelling.head? ≠ some '"')
      (read : nextChar spelling = some (c, [])) (later : Body rest more) : Body (spelling ++ rest) (c :: more)

def joined : List Text → Text
  | [] => []
  | [text] => text
  | text :: next :: rest => text ++ ',' :: joined (next :: rest)

structure Element where
  before : Text
  text : Text
  value : Json
  behind : Text

def Element.whole (element : Element) : Text := element.before ++ element.text ++ element.behind

structure Entry where
  before : Text
  body : Text
  key : Text
  -- The blanks in front of the colon.
  colon : Text
  element : Element

def Entry.whole (entry : Entry) : Text :=
  entry.before ++ '"' :: (entry.body ++ '"' :: (entry.colon ++ ':' :: entry.element.whole))

def Entry.member (entry : Entry) : Text × Json := (entry.key, entry.element.value)

structure Element.Spaced (element : Element) : Prop where
  before : Blank element.before
  behind : Blank element.behind

structure Entry.Framed (entry : Entry) : Prop where
  before : Blank entry.before
  body : Body entry.body entry.key
  colon : Blank entry.colon
  element : entry.element.Spaced

inductive Spells : Text → Json → Prop
  | null : Spells "null".toList .null
  | true' : Spells "true".toList (.bool true)
  | false' : Spells "false".toList (.bool false)
  | number (literal : NumberLiteral) : Spells literal.text (.number literal)
  | string {body text : Text} (spelled : Body body text) : Spells ('"' :: (body ++ ['"'])) (.string text)
  | noItems {gap : Text} (blank : Blank gap) : Spells ('[' :: (gap ++ [']'])) (.array [])
  | items {elements : List Element} (some' : elements ≠ []) (spaced : ∀ element ∈ elements, element.Spaced)
      (spelled : ∀ element ∈ elements, Spells element.text element.value) :
      Spells ('[' :: (joined (elements.map Element.whole) ++ [']'])) (.array (elements.map Element.value))
  | noMembers {gap : Text} (blank : Blank gap) : Spells ('{' :: (gap ++ ['}'])) (.object [])
  | members {entries : List Entry} (some' : entries ≠ []) (framed : ∀ entry ∈ entries, entry.Framed)
      (spelled : ∀ entry ∈ entries, Spells entry.element.text entry.element.value) :
      Spells ('{' :: (joined (entries.map Entry.whole) ++ ['}'])) (.object (entries.map Entry.member))

/-- Only a number runs on into what follows. -/
def Stops (v : Json) (rest : Text) : Prop := (∃ literal, v = .number literal) → Follows rest

end Grammar

section Blanks

variable {gap rest : Text} {c : Char}

theorem skipSpace_blank (blank : Blank gap) (rest : Text) : skipSpace (gap ++ rest) = skipSpace rest :=
  List.dropWhile_append_of_pos blank

theorem skipSpace_split {text : Text} (stop : skipSpace text = c :: rest) :
    ∃ gap, Blank gap ∧ text = gap ++ c :: rest ∧ isSpace c = false := by
  refine ⟨text.takeWhile isSpace, fun _ member => List.mem_takeWhile_imp member, ?_, ?_⟩
  · rw [← stop]
    exact List.takeWhile_append_dropWhile.symm
  · have head := List.head?_dropWhile_not isSpace text
    rw [← skipSpace, stop] at head
    simpa using head

theorem blank_nil : Blank [] := by
  intro c member
  cases member

theorem blank_not_number (space : isSpace c = true) : isNumberChar c = false := by
  simp only [isSpace, Bool.or_eq_true, decide_eq_true_eq] at space
  rcases space with ((rfl | rfl) | rfl) | rfl <;> decide

theorem follows_gap (blank : Blank gap) (stop : isNumberChar c = false) (rest : Text) :
    Follows (gap ++ c :: rest) := by
  cases gap with
  | nil => exact follows_cons stop rest
  | cons d gap => exact follows_cons (blank_not_number (blank d List.mem_cons_self)) _

theorem expect_complete (blank : Blank gap) (solid : isSpace c = false) (rest : Text) :
    expect c (gap ++ c :: rest) = some rest := by
  rw [expect, skipSpace_blank blank, skipSpace_solid solid]
  simp [literally]

theorem expect_sound {text : Text} (read : expect c text = some rest) : ∃ gap, Blank gap ∧ text = gap ++ c :: rest := by
  rw [expect] at read
  cases stop : skipSpace text with
  | nil =>
      rw [stop] at read
      cases read
  | cons d tail =>
      rw [stop] at read
      simp only [literally] at read
      split at read
      next same =>
        cases read
        obtain ⟨gap, blank, split, _⟩ := skipSpace_split stop
        exact ⟨gap, blank, by rw [split, same]⟩
      next => cases read

end Blanks

section Strings

variable {text rest : Text} {c : Char}

theorem literally_sound {word : Text} (read : literally word text = some rest) : text = word ++ rest := by
  induction word generalizing text with
  | nil => exact Option.some.inj read
  | cons d word ih =>
      cases text with
      | nil => cases read
      | cons e text =>
          rw [literally] at read
          split at read
          next same => rw [ih read, same, List.cons_append]
          next => cases read

theorem codeUnit_sound {unit : Nat} (read : codeUnit text = some (unit, rest)) :
    ∃ digits, text = digits ++ rest ∧ codeUnit digits = some (unit, []) ∧
      ∀ d ∈ digits, (hexValue d).isSome := by
  match text, read with
  | a :: b :: c :: d :: tail, read =>
      simp only [codeUnit, Option.bind_eq_bind, Option.bind_eq_some_iff, Option.some.injEq, Prod.mk.injEq] at read
      obtain ⟨a', ha, b', hb, c', hc, d', hd, value, rfl⟩ := read
      refine ⟨[a, b, c, d], rfl, ?_, ?_⟩
      · simp [codeUnit, ha, hb, hc, hd, value]
      · simp [ha, hb, hc, hd]

def Hex (digits : Text) : Prop := ∀ d ∈ digits, (hexValue d).isSome

inductive Escape : Text → Prop
  | short (d : Char) : Escape [d]
  | unit (d : Char) {digits : Text} (hex : Hex digits) : Escape (d :: digits)
  | pair (d : Char) {high low : Text} (hexHigh : Hex high) (hexLow : Hex low) :
      Escape (d :: (high ++ '\\' :: 'u' :: low))

theorem unicodeEscape_sound (read : unicodeEscape text = some (c, rest)) :
    ∃ used, text = used ++ rest ∧ unicodeEscape used = some (c, []) ∧ ∀ d, Escape (d :: used) := by
  simp only [unicodeEscape, Option.bind_eq_bind, Option.bind_eq_some_iff] at read
  obtain ⟨⟨unit, tail⟩, first, read⟩ := read
  obtain ⟨digits, rfl, here, hex⟩ := codeUnit_sound first
  dsimp only at read
  by_cases high : isHighSurrogate unit = true
  · rw [if_pos high] at read
    simp only [Option.bind_eq_some_iff] at read
    obtain ⟨after, sign, ⟨low, last⟩, second, read⟩ := read
    obtain rfl := literally_sound sign
    obtain ⟨digits', rfl, there, hex'⟩ := codeUnit_sound second
    dsimp only at read
    by_cases isLow : isLowSurrogate low = true
    · rw [if_pos isLow, Option.some.injEq, Prod.mk.injEq] at read
      obtain ⟨same, rfl⟩ := read
      refine ⟨digits ++ '\\' :: 'u' :: digits', by simp, ?_, fun d => .pair d hex hex'⟩
      have one := @codeUnit_append ('\\' :: 'u' :: digits') _ _ _ here
      rw [List.nil_append] at one
      simp [unicodeEscape, one, high, literally, there, isLow, same]
    · rw [if_neg isLow] at read
      cases read
  · rw [if_neg high] at read
    by_cases isLow : isLowSurrogate unit = true
    · rw [if_pos isLow] at read
      cases read
    · rw [if_neg isLow, Option.some.injEq, Prod.mk.injEq] at read
      obtain ⟨same, rfl⟩ := read
      refine ⟨digits, rfl, ?_, fun d => .unit d hex⟩
      simp [unicodeEscape, here, high, isLow, same]

theorem escaped_sound (read : escaped text = some (c, rest)) :
    ∃ used, text = used ++ rest ∧ escaped used = some (c, []) ∧ Escape used := by
  cases text with
  | nil => cases read
  | cons d tail =>
      by_cases unicode : d = 'u'
      · rw [escaped, if_pos unicode] at read
        obtain ⟨used, rfl, here, shape⟩ := unicodeEscape_sound read
        exact ⟨d :: used, rfl, by rw [escaped, if_pos unicode, here], shape d⟩
      · have short : escaped (d :: tail) = (escaped [d]).map fun found => (found.1, tail) := by
          simp only [escaped, if_neg unicode]
          split_ifs <;> rfl
        have alone : ∀ found, escaped [d] = some found → found.2 = [] := by
          intro found own
          simp only [escaped, if_neg unicode] at own
          split_ifs at own <;> exact (congrArg Prod.snd (Option.some.inj own)).symm
        rw [short] at read
        obtain ⟨⟨e, last⟩, own, same⟩ := Option.map_eq_some_iff.mp read
        obtain ⟨rfl, rfl⟩ := Prod.mk.inj same
        obtain rfl : last = [] := alone _ own
        exact ⟨[d], rfl, own, .short d⟩

theorem nextChar_sound (read : nextChar text = some (c, rest)) :
    ∃ spelling, text = spelling ++ rest ∧ nextChar spelling = some (c, []) ∧
      ((∃ d, spelling = [d] ∧ d ≠ '\\') ∨ ∃ used, spelling = '\\' :: used ∧ Escape used) := by
  -- A character of a string is spelled by itself, by a short escape or by one or two code units.
  cases text with
  | nil => cases read
  | cons d tail =>
      by_cases slash : d = '\\'
      · rw [nextChar, if_pos slash] at read
        obtain ⟨used, rfl, here, shape⟩ := escaped_sound read
        exact ⟨d :: used, rfl, by rw [nextChar, if_pos slash, here], .inr ⟨used, by rw [slash], shape⟩⟩
      · rw [nextChar, if_neg slash] at read
        split at read
        next => cases read
        next printable =>
          obtain ⟨rfl, rfl⟩ := Prod.mk.inj (Option.some.inj read)
          exact ⟨[d], rfl, by rw [nextChar, if_neg slash, if_neg printable], .inl ⟨d, rfl, slash⟩⟩

theorem stringBody_sound {fuel : Nat} {found : Text} (read : stringBody fuel text = some (found, rest)) :
    ∃ body, text = body ++ '"' :: rest ∧ Body body found := by
  induction fuel generalizing text found with
  | zero => cases read
  | succ fuel ih =>
      cases text with
      | nil => cases read
      | cons d tail =>
          rw [stringBody] at read
          split at read
          next close =>
            obtain ⟨rfl, rfl⟩ := Prod.mk.inj (Option.some.inj read)
            exact ⟨[], by rw [close]; rfl, .nil⟩
          next open' =>
            simp only [Option.bind_eq_bind, Option.bind_eq_some_iff] at read
            obtain ⟨⟨first, after⟩, one, ⟨others, last⟩, many, read⟩ := read
            obtain ⟨rfl, rfl⟩ := Prod.mk.inj (Option.some.inj read)
            obtain ⟨spelling, split, own, _⟩ := nextChar_sound one
            obtain ⟨body, rfl, later⟩ := ih many
            have start : spelling.head? ≠ some '"' := by
              cases spelling with
              | nil => cases own
              | cons e spelling =>
                  rw [List.cons_append, List.cons.injEq] at split
                  rw [← split.1]
                  simpa using open'
            exact ⟨spelling ++ body, by rw [split, List.append_assoc], .cons start own later⟩

theorem stringBody_complete {body found : Text} (spelled : Body body found) {fuel : Nat} (rest : Text)
    (enough : body.length < fuel) : stringBody fuel (body ++ '"' :: rest) = some (found, rest) := by
  induction spelled generalizing fuel with
  | nil =>
      obtain ⟨fuel, rfl⟩ : ∃ n, fuel = n + 1 := ⟨fuel - 1, by omega⟩
      simp [stringBody]
  | @cons spelling body c more open' read later ih =>
      obtain ⟨fuel, rfl⟩ : ∃ n, fuel = n + 1 := ⟨fuel - 1, by omega⟩
      cases spelling with
      | nil => cases read
      | cons d tail =>
          have other : d ≠ '"' := by simpa using open'
          have next := @nextChar_append (body ++ '"' :: rest) _ _ _ read
          have short : body.length < fuel := by
            simp at enough
            omega
          rw [List.cons_append, List.nil_append] at next
          rw [List.append_assoc, List.cons_append, stringBody, if_neg other, next]
          simp [ih short]

theorem quoted_complete {gap body found : Text} (blank : Blank gap) (spelled : Body body found) (rest : Text) :
    quoted (gap ++ '"' :: (body ++ '"' :: rest)) = some (found, rest) := by
  rw [quoted, expect_complete blank (by decide)]
  simp only [Option.bind_eq_bind, Option.bind_some]
  exact stringBody_complete spelled rest (by simp)

theorem quoted_sound {found : Text} (read : quoted text = some (found, rest)) :
    ∃ gap body, text = gap ++ '"' :: (body ++ '"' :: rest) ∧ Blank gap ∧ Body body found := by
  simp only [quoted, Option.bind_eq_bind, Option.bind_eq_some_iff] at read
  obtain ⟨after, opened, inner⟩ := read
  obtain ⟨gap, blank, rfl⟩ := expect_sound opened
  obtain ⟨body, rfl, spelled⟩ := stringBody_sound inner
  exact ⟨gap, body, rfl, blank, spelled⟩

end Strings

section Sequences

variable {α E : Type} {item : Text → Option (α × Text)} {close : Char} {whole : E → Text} {val : E → α}

theorem joined_cons (text : Text) {rest : List Text} (some' : rest ≠ []) :
    joined (text :: rest) = text ++ ',' :: joined rest := by
  cases rest with
  | nil => exact absurd rfl some'
  | cons next rest => rfl

theorem length_joined (texts : List Text) : texts.length ≤ (joined texts).length + 1 := by
  induction texts with
  | nil => simp
  | cons text rest ih =>
      by_cases none' : rest = []
      · simp [none']
      · rw [joined_cons text none', List.length_append, List.length_cons, List.length_cons]
        omega

theorem length_le_joined {text : Text} {texts : List Text} (member : text ∈ texts) :
    text.length ≤ (joined texts).length := by
  induction texts with
  | nil => cases member
  | cons first rest ih =>
      rcases List.mem_cons.mp member with rfl | later
      · by_cases none' : rest = []
        · rw [none']
          exact Nat.le_refl _
        · rw [joined_cons _ none', List.length_append]
          omega
      · have some' : rest ≠ [] := List.ne_nil_of_mem later
        have le := ih later
        rw [joined_cons _ some', List.length_append, List.length_cons]
        omega

/-- The reader takes the piece in front of a comma or of the closing character. -/
def Takes (item : Text → Option (α × Text)) (close : Char) (piece : Text) (found : α) : Prop :=
  ∀ c rest, c = ',' ∨ c = close → ∃ gap, Blank gap ∧ item (piece ++ c :: rest) = some (found, gap ++ c :: rest)

variable {piece : Text} {found : α} {n : Nat}

theorem sepBy_close (solid : isSpace close = false) (takes : Takes item close piece found) (rest : Text) :
    sepBy item close (n + 1) (piece ++ close :: rest) = some ([found], rest) := by
  obtain ⟨gap, blank, read⟩ := takes close rest (Or.inr rfl)
  rw [sepBy, read]
  simp [skipSpace_blank blank, skipSpace_solid solid]

theorem sepBy_comma (open' : ',' ≠ close) (takes : Takes item close piece found) (text : Text) :
    sepBy item close (n + 1) (piece ++ ',' :: text) =
      (sepBy item close n text).map fun later => (found :: later.1, later.2) := by
  obtain ⟨gap, blank, read⟩ := takes ',' text (Or.inl rfl)
  rw [sepBy, read]
  simp only [Option.bind_eq_bind, Option.bind_some, skipSpace_blank blank]
  rw [skipSpace_solid (by decide)]
  simp only [if_neg open', if_true]
  cases sepBy item close n text <;> rfl

theorem sepBy_complete (solid : isSpace close = false) (open' : ',' ≠ close) {pieces : List E} (some' : pieces ≠ [])
    (takes : ∀ piece ∈ pieces, Takes item close (whole piece) (val piece)) (enough : pieces.length ≤ n) (rest : Text) :
    sepBy item close n (joined (pieces.map whole) ++ close :: rest) = some (pieces.map val, rest) := by
  induction pieces generalizing n with
  | nil => exact absurd rfl some'
  | cons first others ih =>
      obtain ⟨n, rfl⟩ : ∃ m, n = m + 1 := ⟨n - 1, by simp at enough; omega⟩
      have own := takes first List.mem_cons_self
      by_cases none' : others = []
      · rw [none']
        exact sepBy_close solid own rest
      · have later := ih none' (fun piece member => takes piece (List.mem_cons_of_mem _ member)) (by simpa using enough)
        rw [List.map_cons, joined_cons _ (by simpa using none'), List.append_assoc, List.cons_append,
          sepBy_comma open' own, later]
        rfl

def Leaves (item : Text → Option (α × Text)) (whole : E → Text) (val : E → α) (Sound : E → Prop) : Prop :=
  ∀ text found gap c more, item text = some (found, gap ++ c :: more) → Blank gap →
    ∃ piece, Sound piece ∧ val piece = found ∧ text = whole piece ++ c :: more

variable {Sound : E → Prop} {text rest : Text} {items : List α}

theorem sepBy_sound (leaves : Leaves item whole val Sound) (read : sepBy item close n text = some (items, rest)) :
    ∃ pieces : List E, pieces ≠ [] ∧ (∀ piece ∈ pieces, Sound piece) ∧ pieces.map val = items ∧
      text = joined (pieces.map whole) ++ close :: rest := by
  induction n generalizing text items with
  | zero => cases read
  | succ n ih =>
      simp only [sepBy, Option.bind_eq_bind, Option.bind_eq_some_iff] at read
      obtain ⟨⟨first, after⟩, one, read⟩ := read
      cases stop : skipSpace after with
      | nil => simp [stop] at read
      | cons c tail =>
          obtain ⟨gap, blank, rfl, _⟩ := skipSpace_split stop
          obtain ⟨piece, sound, rfl, rfl⟩ := leaves _ _ _ _ _ one blank
          simp only [stop] at read
          by_cases closed : c = close
          · rw [if_pos closed, Option.some.injEq, Prod.mk.injEq] at read
            obtain ⟨rfl, rfl⟩ := read
            refine ⟨[piece], by simp, by simpa using sound, rfl, ?_⟩
            rw [closed]
            rfl
          · rw [if_neg closed] at read
            by_cases comma : c = ','
            · rw [if_pos comma] at read
              simp only [Option.bind_eq_some_iff] at read
              obtain ⟨⟨others, last⟩, many, read⟩ := read
              obtain ⟨rfl, rfl⟩ := Prod.mk.inj (Option.some.inj read)
              obtain ⟨pieces, some', sounds, rfl, split⟩ := ih many
              refine ⟨piece :: pieces, by simp, ?_, rfl, ?_⟩
              · intro other member
                rcases List.mem_cons.mp member with rfl | later
                · exact sound
                · exact sounds other later
              · rw [List.map_cons, joined_cons _ (by simpa using some'), split, comma, List.append_assoc]
                rfl
            · rw [if_neg comma] at read
              cases read

theorem delimited_complete (solid : isSpace close = false) (open' : ',' ≠ close) {pieces : List E}
    (some' : pieces ≠ []) (takes : ∀ piece ∈ pieces, Takes item close (whole piece) (val piece))
    (head : ∀ piece ∈ pieces, ∃ gap c more, whole piece = gap ++ c :: more ∧ Blank gap ∧ isSpace c = false ∧ c ≠ close)
    (rest : Text) :
    delimited item close (joined (pieces.map whole) ++ close :: rest) = some (pieces.map val, rest) := by
  have enough : pieces.length ≤ (joined (pieces.map whole) ++ close :: rest).length := by
    have long := length_joined (pieces.map whole)
    rw [List.length_map] at long
    rw [List.length_append, List.length_cons]
    omega
  have many := sepBy_complete solid open' some' takes enough rest
  obtain ⟨c, more, stop, other⟩ :
      ∃ c more, skipSpace (joined (pieces.map whole) ++ close :: rest) = c :: more ∧ c ≠ close := by
    cases pieces with
    | nil => exact absurd rfl some'
    | cons first others =>
        obtain ⟨gap, c, more, split, blank, here, other⟩ := head first List.mem_cons_self
        obtain ⟨tail, start⟩ : ∃ tail, joined ((first :: others).map whole) = whole first ++ tail := by
          by_cases none' : others = []
          · exact ⟨[], by simp [none', joined]⟩
          · exact ⟨_, joined_cons _ (by simpa using none')⟩
        refine ⟨c, more ++ tail ++ close :: rest, ?_, other⟩
        rw [start, split, List.append_assoc, List.append_assoc, List.cons_append, skipSpace_blank blank,
          skipSpace_solid here, List.append_assoc]
  rw [delimited, stop]
  simp only [if_neg other]
  exact many

theorem delimited_empty (solid : isSpace close = false) {gap : Text} (blank : Blank gap) (rest : Text) :
    delimited item close (gap ++ close :: rest) = some ([], rest) := by
  rw [delimited, skipSpace_blank blank, skipSpace_solid solid]
  simp

theorem delimited_sound (leaves : Leaves item whole val Sound) (read : delimited item close text = some (items, rest)) :
    (∃ gap, Blank gap ∧ text = gap ++ close :: rest ∧ items = []) ∨
      ∃ pieces : List E, pieces ≠ [] ∧ (∀ piece ∈ pieces, Sound piece) ∧ pieces.map val = items ∧
        text = joined (pieces.map whole) ++ close :: rest := by
  rw [delimited] at read
  cases stop : skipSpace text with
  | nil =>
      rw [stop] at read
      cases read
  | cons c tail =>
      simp only [stop] at read
      by_cases closed : c = close
      · rw [if_pos closed, Option.some.injEq, Prod.mk.injEq] at read
        obtain ⟨rfl, rfl⟩ := read
        obtain ⟨gap, blank, split, _⟩ := skipSpace_split stop
        exact Or.inl ⟨gap, blank, by rw [split, closed], rfl⟩
      · rw [if_neg closed] at read
        exact Or.inr (sepBy_sound leaves read)

end Sequences

section Values

variable {fuel : Nat} {text rest : Text} {v : Json}

theorem Spells.head (spelled : Spells text v) : ∃ c more, text = c :: more ∧ isSpace c = false ∧
    c ≠ ']' ∧ c ≠ '}' ∧ c ≠ ',' ∧ c ≠ ':' := by
  cases spelled with
  | number literal =>
      cases split : literal.text with
      | nil => exact absurd split literal.nonempty
      | cons c more =>
          have number := literal.chars c (by simp [split])
          have other : ∀ d, isNumberChar d = false → c ≠ d := by
            rintro d stop rfl
            rw [stop] at number
            cases number
          refine ⟨c, more, rfl, ?_, other _ (by decide), other _ (by decide), other _ (by decide), other _ (by decide)⟩
          by_contra space
          rw [Bool.not_eq_false] at space
          rw [blank_not_number space] at number
          cases number
  | null => exact ⟨_, _, rfl, by decide⟩
  | true' => exact ⟨_, _, rfl, by decide⟩
  | false' => exact ⟨_, _, rfl, by decide⟩
  | string => exact ⟨_, _, rfl, by decide⟩
  | noItems => exact ⟨_, _, rfl, by decide⟩
  | items => exact ⟨_, _, rfl, by decide⟩
  | noMembers => exact ⟨_, _, rfl, by decide⟩
  | members => exact ⟨_, _, rfl, by decide⟩

theorem stops_of_blank (v : Json) {gap : Text} {c : Char} (blank : Blank gap) (stop : isNumberChar c = false)
    (rest : Text) : Stops v (gap ++ c :: rest) :=
  fun _ => follows_gap blank stop rest

def Reads (fuel : Nat) (text : Text) (v : Json) : Prop :=
  ∀ gap rest, Blank gap → Stops v rest → value fuel (gap ++ (text ++ rest)) = some (v, rest)

theorem element_takes {element : Element} (spaced : element.Spaced) (reads : Reads fuel element.text element.value)
    {close : Char} (stop : isNumberChar close = false) :
    Takes (value fuel) close element.whole element.value := by
  intro c rest ends
  have quiet : isNumberChar c = false := by
    rcases ends with rfl | rfl
    · decide
    · exact stop
  refine ⟨element.behind, spaced.behind, ?_⟩
  rw [Element.whole, List.append_assoc, List.append_assoc]
  exact reads _ _ spaced.before (stops_of_blank _ spaced.behind quiet rest)

theorem entry_takes {entry : Entry} (framed : entry.Framed)
    (reads : Reads fuel entry.element.text entry.element.value) :
    Takes (member (value fuel)) '}' entry.whole entry.member := by
  intro c rest ends
  obtain ⟨gap, blank, read⟩ := element_takes framed.element reads (by decide) c rest ends
  refine ⟨gap, blank, ?_⟩
  have whole : entry.whole ++ c :: rest = entry.before ++
      '"' :: (entry.body ++ '"' :: (entry.colon ++ ':' :: (entry.element.whole ++ c :: rest))) := by
    simp [Entry.whole]
  rw [whole, member, quoted_complete framed.before framed.body]
  simp only [Option.bind_eq_bind, Option.bind_some, expect_complete framed.colon (by decide : isSpace ':' = false), read]
  rfl

theorem value_head {gap : Text} (blank : Blank gap) (c : Char) (rest : Text) :
    value (fuel + 1) (gap ++ c :: rest) = value (fuel + 1) (c :: rest) := by
  rw [value, value, skipSpace_blank blank]

theorem value_complete (spelled : Spells text v) (enough : text.length ≤ fuel) : Reads fuel text v := by
  induction spelled generalizing fuel with
  | null =>
      intro gap rest blank _
      obtain ⟨fuel, rfl⟩ : ∃ n, fuel = n + 1 := ⟨fuel - 1, by simp at enough; omega⟩
      rw [value, skipSpace_blank blank]
      simp [skipSpace_solid, isSpace, literally]
  | true' =>
      intro gap rest blank _
      obtain ⟨fuel, rfl⟩ : ∃ n, fuel = n + 1 := ⟨fuel - 1, by simp at enough; omega⟩
      rw [value, skipSpace_blank blank]
      simp [skipSpace_solid, isSpace, literally]
  | false' =>
      intro gap rest blank _
      obtain ⟨fuel, rfl⟩ : ∃ n, fuel = n + 1 := ⟨fuel - 1, by simp at enough; omega⟩
      rw [value, skipSpace_blank blank]
      simp [skipSpace_solid, isSpace, literally]
  | number literal =>
      intro gap rest blank stops
      have read := number_reads_back literal fuel rest (by simpa [print] using enough) (stops ⟨literal, rfl⟩)
      cases fuel with
      | zero => cases read
      | succ fuel =>
          obtain ⟨c, more, split, _⟩ := (Spells.number literal).head
          rw [print] at read
          rw [split, List.cons_append] at read ⊢
          rw [value_head blank, read]
  | @string body found spelled =>
      intro gap rest blank _
      obtain ⟨fuel, rfl⟩ : ∃ n, fuel = n + 1 := ⟨fuel - 1, by simp at enough; omega⟩
      rw [value, skipSpace_blank blank, List.cons_append, List.append_assoc, skipSpace_solid (by decide)]
      simp only [if_true]
      rw [List.singleton_append, stringBody_complete spelled rest (by simp)]
      rfl
  | noItems empty =>
      intro gap rest blank _
      obtain ⟨fuel, rfl⟩ : ∃ n, fuel = n + 1 := ⟨fuel - 1, by simp at enough; omega⟩
      rw [value, skipSpace_blank blank, List.cons_append, List.append_assoc, skipSpace_solid (by decide)]
      simp [delimited_empty (by decide : isSpace ']' = false) empty]
  | @items elements some' spaced spelled ih =>
      intro gap rest blank _
      obtain ⟨fuel, rfl⟩ : ∃ n, fuel = n + 1 := ⟨fuel - 1, by simp at enough; omega⟩
      -- One character less is left for each item, and the bracket pays for it.
      have short : ∀ element ∈ elements, element.text.length ≤ fuel := by
        intro element member
        have le := length_le_joined (List.mem_map_of_mem (f := Element.whole) member)
        simp only [Element.whole, List.length_append, List.length_cons, List.length_nil] at le enough
        omega
      have read : delimited (value fuel) ']' (joined (elements.map Element.whole) ++ ']' :: rest) =
          some (elements.map Element.value, rest) := by
        refine delimited_complete (by decide) (by decide) some' ?_ ?_ rest
        · intro element member
          exact element_takes (spaced element member) (ih element member (short element member)) (by decide)
        · intro element member
          obtain ⟨c, more, split, solid, open', _⟩ := (spelled element member).head
          exact ⟨element.before, c, more ++ element.behind, by rw [Element.whole, split]; simp,
            (spaced element member).before, solid, open'⟩
      rw [value, skipSpace_blank blank, List.cons_append, List.append_assoc, skipSpace_solid (by decide)]
      simp [read]
  | noMembers empty =>
      intro gap rest blank _
      obtain ⟨fuel, rfl⟩ : ∃ n, fuel = n + 1 := ⟨fuel - 1, by simp at enough; omega⟩
      rw [value, skipSpace_blank blank, List.cons_append, List.append_assoc, skipSpace_solid (by decide)]
      simp [delimited_empty (by decide : isSpace '}' = false) empty]
  | @members entries some' framed spelled ih =>
      intro gap rest blank _
      obtain ⟨fuel, rfl⟩ : ∃ n, fuel = n + 1 := ⟨fuel - 1, by simp at enough; omega⟩
      have short : ∀ entry ∈ entries, entry.element.text.length ≤ fuel := by
        intro entry member
        have le := length_le_joined (List.mem_map_of_mem (f := Entry.whole) member)
        simp only [Entry.whole, Element.whole, List.length_append, List.length_cons, List.length_nil] at le enough
        omega
      have read : delimited (member (value fuel)) '}' (joined (entries.map Entry.whole) ++ '}' :: rest) =
          some (entries.map Entry.member, rest) := by
        refine delimited_complete (by decide) (by decide) some' ?_ ?_ rest
        · intro entry member
          exact entry_takes (framed entry member) (ih entry member (short entry member))
        · intro entry member
          exact ⟨entry.before, '"', _, rfl, (framed entry member).before, by decide, by decide⟩
      rw [value, skipSpace_blank blank, List.cons_append, List.append_assoc, skipSpace_solid (by decide)]
      simp [read]

def ReadsSpelled (fuel : Nat) : Prop :=
  ∀ {text rest v}, value fuel text = some (v, rest) →
    ∃ gap used, text = gap ++ (used ++ rest) ∧ Blank gap ∧ Spells used v ∧ Stops v rest

def Element.Sound (element : Element) : Prop := element.Spaced ∧ Spells element.text element.value

def Entry.Sound (entry : Entry) : Prop := entry.Framed ∧ Spells entry.element.text entry.element.value

theorem leaves_element (reads : ReadsSpelled fuel) : Leaves (value fuel) Element.whole Element.value Element.Sound := by
  intro text found gap c more read blank
  obtain ⟨before, used, rfl, spaced, spelled, _⟩ := reads read
  exact ⟨{ before := before, text := used, value := found, behind := gap }, ⟨⟨spaced, blank⟩, spelled⟩, rfl,
    by simp [Element.whole]⟩

theorem leaves_entry (reads : ReadsSpelled fuel) :
    Leaves (member (value fuel)) Entry.whole Entry.member Entry.Sound := by
  intro text found gap c more read blank
  simp only [member, Option.bind_eq_bind, Option.bind_eq_some_iff] at read
  obtain ⟨⟨key, first⟩, name, second, colon, ⟨inner, last⟩, body, read⟩ := read
  obtain ⟨rfl, rfl⟩ := Prod.mk.inj (Option.some.inj read)
  obtain ⟨before, spelling, rfl, spaced, own⟩ := quoted_sound name
  obtain ⟨between, spaced', rfl⟩ := expect_sound colon
  obtain ⟨start, used, rfl, spaced'', spelled, _⟩ := reads body
  exact ⟨{ before := before, body := spelling, key := key, colon := between,
           element := { before := start, text := used, value := inner, behind := gap } },
    ⟨⟨spaced, own, spaced', ⟨spaced'', blank⟩⟩, spelled⟩, rfl, by simp [Entry.whole, Element.whole]⟩

theorem numberToken_sound (read : numberToken text = some (v, rest)) :
    ∃ literal : NumberLiteral, text = literal.text ++ rest ∧ v = .number literal ∧ Follows rest := by
  rw [numberToken] at read
  split at read
  next valid =>
    obtain ⟨rfl, rfl⟩ := Prod.mk.inj (Option.some.inj read)
    refine ⟨_, List.takeWhile_append_dropWhile.symm, rfl, ?_⟩
    intro c first
    have head := List.head?_dropWhile_not isNumberChar text
    rw [Option.mem_def.mp first] at head
    simpa using head
  next => cases read

theorem value_sound (fuel : Nat) : ReadsSpelled fuel := by
  induction fuel with
  | zero =>
      intro text rest v read
      cases read
  | succ fuel ih =>
      intro text rest v read
      rw [value] at read
      cases stop : skipSpace text with
      | nil =>
          rw [stop] at read
          cases read
      | cons c tail =>
          obtain ⟨gap, blank, rfl, _⟩ := skipSpace_split stop
          simp only [stop] at read
          -- Nothing but a number looks at what follows it.
          have other : ∀ {v used}, (∀ literal, v ≠ .number literal) → c :: tail = used ++ rest → Spells used v →
              ∃ gap' used', gap ++ c :: tail = gap' ++ (used' ++ rest) ∧ Blank gap' ∧ Spells used' v ∧ Stops v rest := by
            intro v used kind split spelled
            refine ⟨gap, used, by rw [split], blank, spelled, ?_⟩
            rintro ⟨literal, same⟩
            exact absurd same (kind literal)
          by_cases text' : c = '"'
          · rw [if_pos text', Option.map_eq_some_iff] at read
            obtain ⟨⟨found, last⟩, inner, same⟩ := read
            obtain ⟨rfl, rfl⟩ := Prod.mk.inj same
            obtain ⟨body, rfl, spelled⟩ := stringBody_sound inner
            exact other (by simp) (by rw [text']; simp) (.string spelled)
          rw [if_neg text'] at read
          by_cases array : c = '['
          · rw [if_pos array, Option.map_eq_some_iff] at read
            obtain ⟨⟨found, last⟩, inner, same⟩ := read
            obtain ⟨rfl, rfl⟩ := Prod.mk.inj same
            rcases delimited_sound (leaves_element ih) inner with
              ⟨between, empty, rfl, rfl⟩ | ⟨pieces, some', sounds, rfl, rfl⟩
            · exact other (by simp) (by rw [array]; simp) (.noItems empty)
            · exact other (by simp) (by rw [array]; simp)
                (.items some' (fun piece member => (sounds piece member).1) fun piece member => (sounds piece member).2)
          rw [if_neg array] at read
          by_cases object : c = '{'
          · rw [if_pos object, Option.map_eq_some_iff] at read
            obtain ⟨⟨found, last⟩, inner, same⟩ := read
            obtain ⟨rfl, rfl⟩ := Prod.mk.inj same
            rcases delimited_sound (leaves_entry ih) inner with
              ⟨between, empty, rfl, rfl⟩ | ⟨pieces, some', sounds, rfl, rfl⟩
            · exact other (by simp) (by rw [object]; simp) (.noMembers empty)
            · exact other (by simp) (by rw [object]; simp)
                (.members some' (fun piece member => (sounds piece member).1) fun piece member => (sounds piece member).2)
          rw [if_neg object] at read
          by_cases null : c = 'n'
          · rw [if_pos null, Option.map_eq_some_iff] at read
            obtain ⟨last, inner, same⟩ := read
            obtain ⟨rfl, rfl⟩ := Prod.mk.inj same
            rw [literally_sound inner, null] at other ⊢
            exact other (by simp) rfl .null
          rw [if_neg null] at read
          by_cases yes : c = 't'
          · rw [if_pos yes, Option.map_eq_some_iff] at read
            obtain ⟨last, inner, same⟩ := read
            obtain ⟨rfl, rfl⟩ := Prod.mk.inj same
            rw [literally_sound inner, yes] at other ⊢
            exact other (by simp) rfl .true'
          rw [if_neg yes] at read
          by_cases no : c = 'f'
          · rw [if_pos no, Option.map_eq_some_iff] at read
            obtain ⟨last, inner, same⟩ := read
            obtain ⟨rfl, rfl⟩ := Prod.mk.inj same
            rw [literally_sound inner, no] at other ⊢
            exact other (by simp) rfl .false'
          rw [if_neg no] at read
          obtain ⟨literal, split, rfl, follows⟩ := numberToken_sound read
          exact ⟨gap, literal.text, by rw [split], blank, .number literal, fun _ => follows⟩

theorem parse_iff : parse text = some v ↔
    ∃ lead used trail, text = lead ++ (used ++ trail) ∧ Blank lead ∧ Blank trail ∧ Spells used v := by
  constructor
  · intro read
    rw [parse] at read
    cases inner : value (text.length + 1) text with
    | none =>
        rw [inner] at read
        cases read
    | some found =>
        obtain ⟨found, rest⟩ := found
        simp only [inner] at read
        split at read
        next empty =>
          obtain rfl := Option.some.inj read
          obtain ⟨lead, used, split, blank, spelled, _⟩ := value_sound _ inner
          refine ⟨lead, used, rest, split, blank, ?_, spelled⟩
          intro c member
          rw [List.isEmpty_iff, skipSpace, List.dropWhile_eq_nil_iff] at empty
          exact empty c member
        next => cases read
  · rintro ⟨lead, used, trail, rfl, blank, blank', spelled⟩
    have stops : Stops v trail := by
      intro _ c first
      exact blank_not_number (blank' c (List.mem_of_mem_head? first))
    have read := @value_complete ((lead ++ (used ++ trail)).length + 1) _ _ spelled (by simp; omega) lead trail
      blank stops
    have empty : skipSpace trail = [] := List.dropWhile_eq_nil_iff.mpr blank'
    rw [parse, read]
    simp [empty]

theorem number_inked {c : Char} (number : isNumberChar c = true) : Text.isWhitespace c = false := by
  simp only [isNumberChar, Bool.or_eq_true, decide_eq_true_eq] at number
  rcases number with ((((digit | rfl) | rfl) | rfl) | rfl) | rfl
  · have range := Char.isDigit_iff_toNat.mp digit
    simp only [show '0'.toNat = 48 from rfl, show '9'.toNat = 57 from rfl] at range
    simp [Text.isWhitespace]
    omega
  all_goals decide

theorem Spells.last (spelled : Spells text v) : ∃ z, text.getLast? = some z ∧ Text.isWhitespace z = false := by
  have ends : ∀ (front : Text) (z : Char), (front ++ [z]).getLast? = some z := fun _ _ => List.getLast?_concat
  cases spelled with
  | null => exact ⟨'l', rfl, by decide⟩
  | true' => exact ⟨'e', rfl, by decide⟩
  | false' => exact ⟨'e', rfl, by decide⟩
  | number literal =>
      exact ⟨_, List.getLast?_eq_getLast_of_ne_nil literal.nonempty,
        number_inked (literal.chars _ (List.getLast_mem literal.nonempty))⟩
  | @string body _ spelled => exact ⟨'"', ends ('"' :: body) '"', by decide⟩
  | @noItems gap _ => exact ⟨']', ends ('[' :: gap) ']', by decide⟩
  | @items elements _ _ _ => exact ⟨']', ends ('[' :: joined (elements.map Element.whole)) ']', by decide⟩
  | @noMembers gap _ => exact ⟨'}', ends ('{' :: gap) '}', by decide⟩
  | @members entries _ _ _ => exact ⟨'}', ends ('{' :: joined (entries.map Entry.whole)) '}', by decide⟩

end Values

section Objects

structure ObjectText where
  lead : Text
  entries : List Entry
  trail : Text
  blankLead : Blank lead
  blankTrail : Blank trail
  some' : entries ≠ []
  sound : ∀ entry ∈ entries, entry.Sound

def ObjectText.text (object : ObjectText) : Text :=
  object.lead ++ '{' :: (joined (object.entries.map Entry.whole) ++ '}' :: object.trail)

def ObjectText.members (object : ObjectText) : List (Text × Json) := object.entries.map Entry.member

theorem ObjectText.parse_text (object : ObjectText) : parse object.text = some (.object object.members) :=
  parse_iff.mpr ⟨object.lead, _, object.trail, by simp [ObjectText.text], object.blankLead, object.blankTrail,
    .members object.some' (fun entry member => (object.sound entry member).1) fun entry member =>
      (object.sound entry member).2⟩

/-- Every text that is read as an object with members is of this form. -/
theorem object_text {text : Text} {members : List (Text × Json)} (read : parse text = some (.object members))
    (some' : members ≠ []) : ∃ object : ObjectText, object.text = text ∧ object.members = members := by
  obtain ⟨lead, used, trail, rfl, blank, blank', spelled⟩ := parse_iff.mp read
  cases spelled with
  | noMembers _ => exact absurd rfl some'
  | @members entries nonempty framed spelled =>
      exact ⟨{ lead := lead, entries := entries, trail := trail, blankLead := blank, blankTrail := blank',
               some' := nonempty, sound := fun entry member => ⟨framed entry member, spelled entry member⟩ },
        by simp [ObjectText.text], rfl⟩

theorem joined_append (front : List Text) {back : List Text} (some' : back ≠ []) :
    joined (front ++ back) = front.flatMap (· ++ [',']) ++ joined back := by
  induction front with
  | nil => rfl
  | cons text rest ih =>
      rw [List.cons_append, joined_cons _ (List.append_ne_nil_of_right_ne_nil _ some'), ih]
      simp

theorem get_member {members : List (Text × Json)} (once : (members.map Prod.fst).Nodup) {key : Text} {v : Json}
    (listed : (key, v) ∈ members) : (Json.object members).get key = some v := by
  have found : members.reverse.find? (fun entry => entry.1 = key) = some (key, v) := by
    cases search : members.reverse.find? fun entry => entry.1 = key with
    | none =>
        have other := List.find?_eq_none.mp search (key, v) (List.mem_reverse.mpr listed)
        simp at other
    | some entry =>
        have member := List.mem_reverse.mp (List.mem_of_find?_eq_some search)
        have same : entry.1 = key := of_decide_eq_true (List.find?_some search :)
        rw [List.inj_on_of_nodup_map once member listed same]
  rw [get, found]
  rfl

end Objects

end Json
