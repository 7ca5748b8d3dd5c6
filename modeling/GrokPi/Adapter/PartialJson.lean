import GrokPi.Shared.JsonGrammar

set_option autoImplicit false

namespace GrokPi.PartialJson

open Json

structure Scan where
  -- The closing brackets that are due, the innermost first.
  closers : List Char
  topLevelCommas : List Nat
  inString : Bool
  escaped : Bool

def Scan.start : Scan :=
  { closers := []
    topLevelCommas := []
    inString := false
    escaped := false }

def Scan.step (scan : Scan) (index : Nat) (ch : Char) : Option Scan :=
  if scan.inString then
    if scan.escaped then some { scan with escaped := false }
    else if ch = '\\' then some { scan with escaped := true }
    else if ch = '"' then some { scan with inString := false }
    else some scan
  else if ch = '"' then some { scan with inString := true }
  else if ch = '{' then some { scan with closers := '}' :: scan.closers }
  else if ch = '[' then some { scan with closers := ']' :: scan.closers }
  else if ch = '}' || ch = ']' then
    match scan.closers with
    | [] => none
    | top :: rest => if top = ch then some { scan with closers := rest } else none
  else if ch = ',' ∧ scan.closers = ['}'] then some { scan with topLevelCommas := scan.topLevelCommas ++ [index] }
  else some scan

-- A place is the number of characters before it; the source's byte offsets name the same places.
def scanFrom : Nat → Scan → Text → Option Scan
  | _, scan, [] => some scan
  | index, scan, ch :: rest => (scan.step index ch).bind fun next => scanFrom (index + 1) next rest

def Scan.closing (scan : Scan) : Text :=
  (if scan.inString then (if scan.escaped then ['\\'] else []) ++ ['"'] else []) ++ scan.closers

def closePartialJson (raw : Text) : Option (Text × List Nat) :=
  (scanFrom 0 .start raw).map fun scan => (raw ++ scan.closing, scan.topLevelCommas)

def isObject : Json → Bool
  | .object _ => true
  | _ => false

def parseJsonObject (candidate : Text) : Option Json := (parse candidate).filter isObject

def backOff (raw : Text) : List Nat → Option Json
  | [] => none
  | comma :: earlier =>
      match closePartialJson (Text.trimEnd (raw.take comma)) with
      | none => none
      | some (candidate, _) =>
          match parseJsonObject candidate with
          | some value => some value
          | none => backOff raw earlier

def parsePartialJsonObject (raw : Text) : Option Json :=
  match parse raw with
  | some value => if isObject value then some value else none
  | none =>
      if raw.trim.isEmpty then none
      else
        match closePartialJson raw with
        | none => none
        | some (candidate, commas) =>
            match parseJsonObject candidate with
            | some value => some value
            | none => backOff raw commas.reverse

section Scanning

variable {scan last : Scan} {index : Nat} {text : Text} {ch : Char}

theorem scanFrom_append (index : Nat) (scan : Scan) (first second : Text) :
    scanFrom index scan (first ++ second) =
      (scanFrom index scan first).bind fun next => scanFrom (index + first.length) next second := by
  induction first generalizing index scan with
  | nil => rfl
  | cons ch rest ih =>
      rw [List.cons_append, scanFrom, scanFrom]
      cases scan.step index ch with
      | none => rfl
      | some next =>
          rw [Option.bind_some, Option.bind_some, ih, List.length_cons]
          congr 1
          funext later
          congr 1
          omega

theorem step_grows (moved : scan.step index ch = some last) :
    (∃ new, last.topLevelCommas = scan.topLevelCommas ++ new) ∧
      ∀ closer ∈ last.closers, closer ∈ scan.closers ∨ closer = '}' ∨ closer = ']' := by
  -- Most characters move no bracket and record no comma.
  have still : ∀ {next : Scan}, next.topLevelCommas = scan.topLevelCommas → (∀ closer ∈ next.closers, closer ∈ scan.closers) →
      (∃ new, next.topLevelCommas = scan.topLevelCommas ++ new) ∧
        ∀ closer ∈ next.closers, closer ∈ scan.closers ∨ closer = '}' ∨ closer = ']' :=
    fun commas closers => ⟨⟨[], by rw [commas, List.append_nil]⟩, fun closer member => .inl (closers closer member)⟩
  have opened : ∀ {bracket : Char}, bracket = '}' ∨ bracket = ']' → ∀ closer ∈ bracket :: scan.closers,
      closer ∈ scan.closers ∨ closer = '}' ∨ closer = ']' := by
    intro bracket kind closer member
    rcases List.mem_cons.mp member with rfl | old
    · exact .inr kind
    · exact .inl old
  rw [Scan.step] at moved
  split_ifs at moved
  · cases moved
    exact still rfl fun _ member => member
  · cases moved
    exact still rfl fun _ member => member
  · cases moved
    exact still rfl fun _ member => member
  · cases moved
    exact still rfl fun _ member => member
  · cases moved
    exact still rfl fun _ member => member
  · cases moved
    exact ⟨⟨[], (List.append_nil _).symm⟩, opened (.inl rfl)⟩
  · cases moved
    exact ⟨⟨[], (List.append_nil _).symm⟩, opened (.inr rfl)⟩
  · split at moved
    next => cases moved
    next top rest held =>
      split at moved
      next =>
        cases moved
        exact still rfl fun _ member => held ▸ List.mem_cons_of_mem _ member
      next => cases moved
  · cases moved
    exact ⟨⟨[index], rfl⟩, fun _ member => .inl member⟩
  · cases moved
    exact still rfl fun _ member => member

theorem scan_grows (ran : scanFrom index scan text = some last) :
    (∃ new, last.topLevelCommas = scan.topLevelCommas ++ new) ∧
      ∀ closer ∈ last.closers, closer ∈ scan.closers ∨ closer = '}' ∨ closer = ']' := by
  induction text generalizing index scan with
  | nil =>
      obtain rfl := Option.some.inj ran
      exact ⟨⟨[], by simp⟩, fun _ member => .inl member⟩
  | cons ch rest ih =>
      rw [scanFrom, Option.bind_eq_some_iff] at ran
      obtain ⟨next, moved, ran⟩ := ran
      obtain ⟨⟨new, commas⟩, closers⟩ := step_grows moved
      obtain ⟨⟨later, commas'⟩, closers'⟩ := ih ran
      refine ⟨⟨new ++ later, by rw [commas', commas, List.append_assoc]⟩, ?_⟩
      intro closer member
      rcases closers' closer member with old | bracket
      · exact closers closer old
      · exact .inr bracket

end Scanning

section Quiet

/-- Outside of strings and with these brackets open, the scan of a text changes nothing in the end. -/
def Quiet (closers : List Char) (text : Text) : Prop :=
  ∀ index commas, scanFrom index ⟨closers, commas, false, false⟩ text = some ⟨closers, commas, false, false⟩

variable {closers : List Char} {first second text : Text}

theorem quiet_nil (closers : List Char) : Quiet closers [] := fun _ _ => rfl

theorem quiet_append (one : Quiet closers first) (two : Quiet closers second) : Quiet closers (first ++ second) := by
  intro index commas
  rw [scanFrom_append, one, Option.bind_some, two]

def isPlain (c : Char) : Bool := c ∉ ['"', '{', '[', '}', ']', ',']

theorem quiet_plain (plain : ∀ c ∈ text, isPlain c = true) : Quiet closers text := by
  induction text with
  | nil => exact quiet_nil closers
  | cons c rest ih =>
      intro index commas
      have kind := plain c List.mem_cons_self
      simp only [isPlain, List.mem_cons, List.not_mem_nil, or_false, not_or, decide_eq_true_eq] at kind
      obtain ⟨quote, brace, bracket, close, close', comma⟩ := kind
      rw [scanFrom, Scan.step]
      simp only [Bool.false_eq_true, if_false, quote, brace, bracket, close, close', comma, decide_false, Bool.or_self,
        false_and, Option.bind_some]
      exact ih (fun c member => plain c (List.mem_cons_of_mem _ member)) _ _

theorem quiet_blank (blank : Blank text) : Quiet closers text := by
  refine quiet_plain ?_
  intro c member
  have space := blank c member
  simp only [isSpace, Bool.or_eq_true, decide_eq_true_eq] at space
  rcases space with ((rfl | rfl) | rfl) | rfl <;> decide

theorem quiet_comma (nested : closers ≠ ['}']) : Quiet closers [','] := by
  intro index commas
  simp [scanFrom, Scan.step, nested]

theorem quiet_braces (inner : Quiet ('}' :: closers) text) : Quiet closers ('{' :: (text ++ ['}'])) := by
  intro index commas
  have opened : Scan.step ⟨closers, commas, false, false⟩ index '{' = some ⟨'}' :: closers, commas, false, false⟩ := by
    simp [Scan.step]
  rw [scanFrom, opened, Option.bind_some, scanFrom_append, inner]
  simp [scanFrom, Scan.step]

theorem quiet_brackets (inner : Quiet (']' :: closers) text) : Quiet closers ('[' :: (text ++ [']'])) := by
  intro index commas
  have opened : Scan.step ⟨closers, commas, false, false⟩ index '[' = some ⟨']' :: closers, commas, false, false⟩ := by
    simp [Scan.step]
  rw [scanFrom, opened, Option.bind_some, scanFrom_append, inner]
  simp [scanFrom, Scan.step]

def QuietInside (text : Text) : Prop :=
  ∀ closers index commas, scanFrom index ⟨closers, commas, true, false⟩ text = some ⟨closers, commas, true, false⟩

theorem inside_append (one : QuietInside first) (two : QuietInside second) : QuietInside (first ++ second) := by
  intro closers index commas
  rw [scanFrom_append, one, Option.bind_some, two]

theorem inside_plain (plain : ∀ c ∈ text, c ≠ '"' ∧ c ≠ '\\') : QuietInside text := by
  induction text with
  | nil => exact fun _ _ _ => rfl
  | cons c rest ih =>
      intro closers index commas
      have ⟨quote, slash⟩ := plain c List.mem_cons_self
      rw [scanFrom, Scan.step]
      simp only [if_true, Bool.false_eq_true, if_false, quote, slash, Option.bind_some]
      exact ih (fun c member => plain c (List.mem_cons_of_mem _ member)) _ _ _

theorem inside_pair (c : Char) : QuietInside ['\\', c] := by
  intro closers index commas
  simp [scanFrom, Scan.step]

theorem inside_hex {digits : Text} (hex : Hex digits) : QuietInside digits := by
  refine inside_plain ?_
  intro c member
  have digit := hex c member
  constructor
  · rintro rfl
    exact absurd digit (by decide)
  · rintro rfl
    exact absurd digit (by decide)

theorem inside_escape {used : Text} (escape : Escape used) : QuietInside ('\\' :: used) := by
  cases escape with
  | short d => exact inside_pair d
  | unit d hex => exact inside_append (inside_pair d) (inside_hex hex)
  | pair d high low =>
      exact inside_append (inside_pair d) (inside_append (inside_hex high) (inside_append (inside_pair 'u') (inside_hex low)))

theorem inside_body {body found : Text} (spelled : Body body found) : QuietInside body := by
  induction spelled with
  | nil => exact fun _ _ _ => rfl
  | @cons spelling rest c more open' read _ ih =>
      refine inside_append ?_ ih
      obtain ⟨used, split, _, shape⟩ := nextChar_sound read
      rw [List.append_nil] at split
      rcases shape with ⟨d, rfl, slash⟩ | ⟨escape, rfl, shape⟩
      · refine inside_plain ?_
        intro e member
        rw [split, List.mem_singleton] at member
        subst member
        rw [split] at open'
        exact ⟨by simpa using open', slash⟩
      · rw [split]
        exact inside_escape shape

theorem quiet_string {body found : Text} (spelled : Body body found) : Quiet closers ('"' :: (body ++ ['"'])) := by
  intro index commas
  have opened : Scan.step ⟨closers, commas, false, false⟩ index '"' = some ⟨closers, commas, true, false⟩ := by
    simp [Scan.step]
  rw [scanFrom, opened, Option.bind_some, scanFrom_append, inside_body spelled]
  simp [scanFrom, Scan.step]

theorem quiet_joined {texts : List Text} (nested : closers ≠ ['}']) (quiet : ∀ text ∈ texts, Quiet closers text) :
    Quiet closers (joined texts) := by
  induction texts with
  | nil => exact quiet_nil closers
  | cons text rest ih =>
      have own := quiet text List.mem_cons_self
      by_cases none' : rest = []
      · rw [none']
        exact own
      · rw [joined_cons _ none', ← List.singleton_append]
        exact quiet_append own
          (quiet_append (quiet_comma nested) (ih fun text member => quiet text (List.mem_cons_of_mem _ member)))

theorem quiet_element {element : Element} (spaced : element.Spaced) (own : Quiet closers element.text) :
    Quiet closers element.whole :=
  quiet_append (quiet_append (quiet_blank spaced.before) own) (quiet_blank spaced.behind)

theorem quiet_entry {entry : Entry} (framed : entry.Framed) (own : Quiet closers entry.element.text) :
    Quiet closers entry.whole := by
  have whole : entry.whole = entry.before ++
      ('"' :: (entry.body ++ ['"']) ++ (entry.colon ++ ([':'] ++ entry.element.whole))) := by
    simp [Entry.whole]
  have colon : Quiet closers [':'] := quiet_plain (by simp [isPlain])
  rw [whole]
  exact quiet_append (quiet_blank framed.before) (quiet_append (quiet_string framed.body)
    (quiet_append (quiet_blank framed.colon) (quiet_append colon (quiet_element framed.element own))))

theorem quiet_spells {v : Json} (spelled : Spells text v) (inside : closers ≠ []) : Quiet closers text := by
  induction spelled generalizing closers with
  | null => exact quiet_plain (by simp [isPlain])
  | true' => exact quiet_plain (by simp [isPlain])
  | false' => exact quiet_plain (by simp [isPlain])
  | number literal =>
      refine quiet_plain ?_
      intro c member
      have number := literal.chars c member
      by_contra special
      simp only [isPlain, List.mem_cons, List.not_mem_nil, or_false, not_not, decide_eq_true_eq] at special
      rcases special with rfl | rfl | rfl | rfl | rfl | rfl <;> cases number
  | string spelled => exact quiet_string spelled
  | noItems blank => exact quiet_brackets (quiet_blank blank)
  | items _ spaced _ ih =>
      refine quiet_brackets (quiet_joined (by simp) ?_)
      intro text member
      obtain ⟨element, within, rfl⟩ := List.mem_map.mp member
      exact quiet_element (spaced element within) (ih element within (by simp))
  | noMembers blank => exact quiet_braces (quiet_blank blank)
  | members _ framed _ ih =>
      refine quiet_braces (quiet_joined (by simpa using inside) ?_)
      intro text member
      obtain ⟨entry, within, rfl⟩ := List.mem_map.mp member
      exact quiet_entry (framed entry within) (ih entry within (by simp))

end Quiet

section Cut

def upTo (lead : Text) (front : List Entry) : Text := lead ++ '{' :: front.flatMap fun entry => entry.whole ++ [',']

variable {lead : Text} {front : List Entry} {entry : Entry}

theorem upTo_concat (lead : Text) (front : List Entry) (entry : Entry) :
    upTo lead (front ++ [entry]) = upTo lead front ++ (entry.whole ++ [',']) := by
  simp [upTo]

theorem upTo_last (lead : Text) (front : List Entry) (entry : Entry) (rest : Text) :
    upTo lead front ++ (entry.whole ++ rest) =
      lead ++ '{' :: (joined ((front ++ [entry]).map Entry.whole) ++ rest) := by
  rw [List.map_append, List.map_singleton, joined_append _ (by simp)]
  simp [upTo, joined, List.flatMap_map]

theorem scan_upTo (blank : Blank lead) (sound : ∀ entry ∈ front, entry.Sound) :
    ∃ commas, scanFrom 0 .start (upTo lead front) = some ⟨['}'], commas, false, false⟩ ∧
      (front ≠ [] → commas.getLast? = some ((upTo lead front).length - 1)) := by
  induction front using List.reverseRecOn with
  | nil =>
      refine ⟨[], ?_, fun some' => absurd rfl some'⟩
      rw [upTo, scanFrom_append, Scan.start, quiet_blank blank]
      simp [scanFrom, Scan.step]
  | append_singleton front entry ih =>
      obtain ⟨commas, ran, _⟩ := ih fun entry member => sound entry (List.mem_append_left _ member)
      have own := sound entry (by simp)
      have quiet : Quiet ['}'] entry.whole := quiet_entry own.1 (quiet_spells own.2 (by simp))
      refine ⟨commas ++ [(upTo lead front).length + entry.whole.length], ?_, ?_⟩
      · rw [upTo_concat, scanFrom_append, ran, Option.bind_some, scanFrom_append, quiet, Option.bind_some]
        simp [scanFrom, Scan.step]
      · intro _
        rw [upTo_concat, List.getLast?_concat]
        simp

theorem close_cut (blank : Blank lead) (sound : ∀ entry ∈ front, entry.Sound) (some' : front ≠ []) (own : entry.Sound)
    {cut : Text} (initial : cut <+: entry.whole) :
    ∃ closing commas, closePartialJson (upTo lead front ++ cut) = some (upTo lead front ++ cut ++ closing, commas) ∧
      (∀ c ∈ closing, c ≠ ':' ∧ c ≠ ',') ∧ commas.getLast? = some ((upTo lead front).length - 1) := by
  -- A text cut within an entry is closed by brackets and quotes, and its last comma is the one in front of the
  -- entry.
  obtain ⟨commas, ran, final⟩ := scan_upTo blank sound
  obtain ⟨rest, whole⟩ := initial
  have quiet : Quiet ['}'] entry.whole := quiet_entry own.1 (quiet_spells own.2 (by simp))
  have through := quiet (0 + (upTo lead front).length) commas
  rw [← whole, scanFrom_append, Option.bind_eq_some_iff] at through
  obtain ⟨scan, here, there⟩ := through
  obtain ⟨⟨new, commas'⟩, closers⟩ := scan_grows here
  obtain ⟨⟨later, commas''⟩, _⟩ := scan_grows there
  -- The commas behind the cut would stay in the whole entry, which leaves none.
  have same : scan.topLevelCommas = commas := by
    rw [commas'] at commas''
    have nothing : new ++ later = [] := by simpa using commas''
    rw [commas', (List.append_eq_nil_iff.mp nothing).1, List.append_nil]
  refine ⟨scan.closing, commas, ?_, ?_, final some'⟩
  · rw [closePartialJson, scanFrom_append, ran, Option.bind_some, here, Option.map_some, same]
  · intro c member
    -- The closing text is made of a quote, a backslash and the due brackets.
    have bracket : c = '"' ∨ c = '\\' ∨ c = '}' ∨ c = ']' := by
      rcases List.mem_append.mp member with quote | closer
      · split_ifs at quote <;> simp at quote
        · rcases quote with slash | quote
          · exact .inr (.inl slash)
          · exact .inl quote
        · exact .inl quote
      · rcases closers c closer with old | new
        · exact .inr (.inr (.inl (List.mem_singleton.mp old)))
        · exact .inr (.inr new)
    rcases bracket with rfl | rfl | rfl | rfl <;> decide

theorem trimEnd_blank {text gap : Text} {z : Char} (last : text.getLast? = some z)
    (inked : Text.isWhitespace z = false) (blank : Blank gap) : Text.trimEnd (text ++ gap) = text := by
  have dropped : Text.trimEnd (text ++ gap) = Text.trimEnd text := by
    unfold Text.trimEnd List.rdropWhile
    rw [List.reverse_append, List.dropWhile_append_of_pos]
    intro c member
    have space := blank c (List.mem_reverse.mp member)
    simp only [isSpace, Bool.or_eq_true, decide_eq_true_eq] at space
    rcases space with ((rfl | rfl) | rfl) | rfl <;> decide
  rw [dropped]
  refine Text.trimEnd_of_last ?_
  intro c final
  rw [last] at final
  exact Option.some.inj final ▸ inked

theorem close_front (blank : Blank lead) (sound : ∀ entry ∈ front, entry.Sound) (some' : front ≠ []) (cut : Text) :
    ∃ candidate commas,
      closePartialJson (Text.trimEnd ((upTo lead front ++ cut).take ((upTo lead front).length - 1))) =
          some (candidate, commas) ∧
        parse candidate = some (.object (front.map Entry.member)) := by
  -- Closed at its last comma, the text is the object of the entries in front of it.
  obtain ⟨init, entry, rfl⟩ : ∃ init entry, front = init ++ [entry] :=
    ⟨front.dropLast, front.getLast some', (List.dropLast_append_getLast some').symm⟩
  have own := sound entry (by simp)
  let trimmed : Entry := { entry with element := { entry.element with behind := [] } }
  have own' : trimmed.Sound :=
    ⟨⟨own.1.before, own.1.body, own.1.colon, ⟨own.1.element.before, blank_nil⟩⟩, own.2⟩
  have whole : entry.whole = trimmed.whole ++ entry.element.behind := by
    simp [Entry.whole, Element.whole, trimmed]
  obtain ⟨z, last, inked⟩ := own.2.last
  have ends : (upTo lead init ++ trimmed.whole).getLast? = some z := by
    have split : upTo lead init ++ trimmed.whole =
        (upTo lead init ++ (entry.before ++ '"' :: (entry.body ++ '"' :: (entry.colon ++ ':' :: entry.element.before)))) ++
          entry.element.text := by
      simp [Entry.whole, Element.whole, trimmed]
    rw [split, List.getLast?_append, last]
    rfl
  have taken : Text.trimEnd ((upTo lead (init ++ [entry]) ++ cut).take ((upTo lead (init ++ [entry])).length - 1)) =
      upTo lead init ++ trimmed.whole := by
    have place : (upTo lead (init ++ [entry])).length - 1 = (upTo lead init ++ entry.whole).length := by
      rw [upTo_concat]
      simp
    rw [place, upTo_concat, ← List.append_assoc, List.append_assoc, List.take_left, whole, ← List.append_assoc]
    exact trimEnd_blank ends inked own.1.element.behind
  have before : ∀ entry ∈ init, entry.Sound := fun entry member => sound entry (List.mem_append_left _ member)
  obtain ⟨commas, ran, _⟩ := scan_upTo blank before
  have quiet : Quiet ['}'] trimmed.whole := quiet_entry own'.1 (quiet_spells own'.2 (by simp))
  refine ⟨upTo lead init ++ trimmed.whole ++ ['}'], commas, ?_, ?_⟩
  · rw [taken, closePartialJson, scanFrom_append, ran, Option.bind_some, quiet]
    rfl
  · let object : ObjectText :=
      { lead := lead
        entries := init ++ [trimmed]
        trail := []
        blankLead := blank
        blankTrail := blank_nil
        some' := by simp
        sound := by
          intro entry member
          rcases List.mem_append.mp member with old | new
          · exact before entry old
          · rw [List.mem_singleton.mp new]
            exact own' }
    have text : upTo lead init ++ trimmed.whole ++ ['}'] = object.text := by
      rw [List.append_assoc, upTo_last]
      rfl
    rw [text, object.parse_text]
    simp [ObjectText.members, object, trimmed, Entry.member]

end Cut

section Candidate

variable {lead : Text} {front : List Entry} {entry : Entry} {fuel n : Nat}

theorem split_before {c : Char} {cut closing first rest : Text} (absent : c ∉ closing)
    (split : cut ++ closing = first ++ c :: rest) : ∃ middle, cut = first ++ c :: middle ∧ rest = middle ++ closing := by
  rcases List.append_eq_append_iff.mp split with ⟨between, _, held⟩ | ⟨between, held, tail⟩
  · rw [held] at absent
    exact absurd (List.mem_append_right _ List.mem_cons_self) absent
  · cases between with
    | nil =>
        rw [List.nil_append] at tail
        rw [← tail] at absent
        exact absurd List.mem_cons_self absent
    | cons d middle =>
        obtain ⟨rfl, rfl⟩ := List.cons.inj tail
        exact ⟨middle, held, rfl⟩

theorem sepBy_front {item : Text → Option ((Text × Json) × Text)}
    (takes : ∀ entry ∈ front, Takes item '}' entry.whole entry.member) (text : Text) :
    sepBy item '}' (front.length + n) ((front.flatMap fun entry => entry.whole ++ [',']) ++ text) =
      (sepBy item '}' n text).map fun later => (front.map Entry.member ++ later.1, later.2) := by
  induction front with
  | nil =>
      rw [List.length_nil, Nat.zero_add]
      exact Option.map_id'.symm
  | cons entry rest ih =>
      have own := takes entry List.mem_cons_self
      rw [List.length_cons, Nat.add_right_comm, List.flatMap_cons, List.append_assoc, List.append_assoc,
        List.singleton_append, sepBy_comma (by decide) own, ih fun entry member => takes entry (List.mem_cons_of_mem _ member)]
      rw [Option.map_map]
      rfl

theorem cut_name (own : entry.Sound) {cut closing key tail second : Text} (initial : cut <+: entry.whole)
    (noColon : ':' ∉ closing) (name : quoted (cut ++ closing) = some (key, tail))
    (colon : expect ':' tail = some second) :
    key = entry.key ∧ ∃ middle, second = middle ++ closing ∧ middle <+: entry.element.whole := by
  obtain ⟨lost, whole⟩ := initial
  obtain ⟨gap, spelling, split, blank, spelled⟩ := quoted_sound name
  obtain ⟨gap', blank', rfl⟩ := expect_sound colon
  -- The colon is not of the closing text, so the name was read from the entry.
  obtain ⟨middle, cut', rfl⟩ := @split_before ':' cut closing (gap ++ '"' :: (spelling ++ '"' :: gap')) second noColon
    (by rw [split]; simp)
  have sameText : gap ++ '"' :: (spelling ++ '"' :: (gap' ++ ':' :: (middle ++ lost))) = entry.whole := by
    rw [← whole, cut']
    simp
  have named := quoted_complete blank spelled (gap' ++ ':' :: (middle ++ lost))
  have named' := quoted_complete own.1.before own.1.body (entry.colon ++ ':' :: entry.element.whole)
  rw [sameText] at named
  rw [← Entry.whole, named] at named'
  obtain ⟨rfl, behind⟩ := Prod.mk.inj (Option.some.inj named')
  have here := expect_complete blank' (by decide : isSpace ':' = false) (middle ++ lost)
  rw [behind, expect_complete own.1.colon (by decide)] at here
  exact ⟨rfl, middle, rfl, lost, (Option.some.inj here).symm⟩

theorem cut_value {element : Element} (own : element.Sound) {cut closing after rest : Text}
    (initial : cut <+: element.whole) (noComma : ',' ∉ closing) {v : Json}
    (read : value fuel (cut ++ closing) = some (v, after)) : skipSpace after ≠ ',' :: rest := by
  intro stop
  obtain ⟨lost, whole⟩ := initial
  obtain ⟨gap, blank, rfl, _⟩ := skipSpace_split stop
  obtain ⟨start, used, split, blank', spelled, _⟩ := value_sound fuel read
  obtain ⟨middle, cut', _⟩ := @split_before ',' cut closing (start ++ (used ++ gap)) rest noComma (by rw [split]; simp)
  -- The value in front of the comma would be the whole element, which ends at its brace.
  let enough := used.length + element.text.length
  have reads := @value_complete enough _ _ spelled (by omega) start (gap ++ ',' :: (middle ++ lost ++ ['}'])) blank'
    (stops_of_blank _ blank (by decide) _)
  obtain ⟨gap', blank'', reads'⟩ := element_takes own.1 (@value_complete enough _ _ own.2 (by omega))
    (by decide : isNumberChar '}' = false) '}' [] (Or.inr rfl)
  have sameText : start ++ (used ++ (gap ++ ',' :: (middle ++ lost ++ ['}']))) = element.whole ++ ['}'] := by
    rw [← whole, cut']
    simp
  rw [sameText, reads'] at reads
  have rests := congrArg skipSpace (Prod.mk.inj (Option.some.inj reads)).2
  rw [skipSpace_blank blank, skipSpace_blank blank'', skipSpace_solid (by decide), skipSpace_solid (by decide)] at rests
  exact absurd (List.cons.inj rests).1 (by decide)

theorem sepBy_cut (own : entry.Sound) {cut closing : Text} (initial : cut <+: entry.whole)
    (free : ∀ c ∈ closing, c ≠ ':' ∧ c ≠ ',') {found : List (Text × Json)} {rest : Text}
    (read : sepBy (member (value fuel)) '}' n (cut ++ closing) = some (found, rest)) :
    ∃ inner, found = [(entry.key, inner)] := by
  cases n with
  | zero => cases read
  | succ n =>
      simp only [sepBy, Option.bind_eq_bind, Option.bind_eq_some_iff] at read
      obtain ⟨⟨first, after⟩, one, read⟩ := read
      simp only [member, Option.bind_eq_bind, Option.bind_eq_some_iff] at one
      obtain ⟨⟨key, tail⟩, name, second, colon, ⟨inner, last⟩, body, one⟩ := one
      obtain ⟨rfl, rfl⟩ := Prod.mk.inj (Option.some.inj one)
      obtain ⟨rfl, middle, rfl, within⟩ := cut_name own initial (fun member => (free ':' member).1 rfl) name colon
      refine ⟨inner, ?_⟩
      cases stop : skipSpace last with
      | nil => simp [stop] at read
      | cons c rest' =>
          simp only [stop] at read
          by_cases closed : c = '}'
          · rw [if_pos closed] at read
            exact (Prod.mk.inj (Option.some.inj read)).1.symm
          · rw [if_neg closed] at read
            by_cases comma : c = ','
            · rw [comma] at stop
              exact absurd stop (cut_value ⟨own.1.element, own.2⟩ within (fun member => (free ',' member).2 rfl) body)
            · rw [if_neg comma] at read
              cases read

theorem length_le_upTo (member : entry ∈ front) : entry.element.text.length ≤ (upTo lead front).length := by
  obtain ⟨before, behind, rfl⟩ := List.append_of_mem member
  simp [upTo, Entry.whole, Element.whole]
  omega

theorem length_le_front (front : List Entry) :
    front.length ≤ (front.flatMap fun entry => entry.whole ++ [',']).length := by
  induction front with
  | nil => exact Nat.le_refl _
  | cons first rest ih =>
      simp only [List.length_cons, List.flatMap_cons, List.length_append]
      omega

theorem front_opens (sound : ∀ entry ∈ front, entry.Sound) (some' : front ≠ []) (text : Text) :
    ∃ more, skipSpace ((front.flatMap fun entry => entry.whole ++ [',']) ++ text) = '"' :: more := by
  cases front with
  | nil => exact absurd rfl some'
  | cons first rest =>
      have start := (sound first List.mem_cons_self).1.before
      simp only [List.flatMap_cons, Entry.whole, List.append_assoc, List.cons_append]
      rw [skipSpace_blank start, skipSpace_solid (by decide)]
      exact ⟨_, rfl⟩

theorem parse_cut (blank : Blank lead) (sound : ∀ entry ∈ front, entry.Sound) (some' : front ≠ []) (own : entry.Sound)
    {cut closing : Text} (initial : cut <+: entry.whole) (free : ∀ c ∈ closing, c ≠ ':' ∧ c ≠ ',') {v : Json}
    (read : parse (upTo lead front ++ cut ++ closing) = some v) :
    ∃ inner, v = .object (front.map Entry.member ++ [(entry.key, inner)]) := by
  let body := (front.flatMap fun entry => entry.whole ++ [',']) ++ (cut ++ closing)
  have text : upTo lead front ++ cut ++ closing = lead ++ '{' :: body := by
    simp [upTo, body]
  let fuel := (upTo lead front ++ cut ++ closing).length
  have takes : ∀ entry ∈ front, Takes (member (value fuel)) '}' entry.whole entry.member := by
    intro entry within
    refine entry_takes (sound entry within).1 (value_complete (sound entry within).2 ?_)
    have le := @length_le_upTo lead front entry within
    simp only [fuel, List.length_append]
    omega
  obtain ⟨n, count⟩ : ∃ n, body.length = front.length + n := by
    have le := length_le_front front
    exact Nat.exists_eq_add_of_le (by simp only [body, List.length_append]; omega)
  have inner : value (fuel + 1) (lead ++ '{' :: body) =
      ((sepBy (member (value fuel)) '}' n (cut ++ closing)).map fun later =>
        (front.map Entry.member ++ later.1, later.2)).map fun found => (.object found.1, found.2) := by
    obtain ⟨more, stop⟩ := front_opens sound some' (cut ++ closing)
    have many : delimited (member (value fuel)) '}' body =
        sepBy (member (value fuel)) '}' (front.length + n) body := by
      rw [delimited, stop]
      simp only [if_neg (by decide : ('"' : Char) ≠ '}'), count]
    rw [value_head blank, value, skipSpace_solid (by decide)]
    simp only [show ('{' : Char) ≠ '"' by decide, show ('{' : Char) ≠ '[' by decide, if_false, if_true]
    rw [many, sepBy_front takes]
  rw [parse, text] at read
  have size : (lead ++ '{' :: body).length = fuel := by rw [← text]
  rw [size, inner] at read
  cases cutRead : sepBy (member (value fuel)) '}' n (cut ++ closing) with
  | none =>
      rw [cutRead] at read
      cases read
  | some found =>
      obtain ⟨found, rest⟩ := found
      rw [cutRead] at read
      obtain ⟨inner, rfl⟩ := sepBy_cut own initial free cutRead
      simp only [Option.map_some] at read
      split at read
      next => exact ⟨inner, (Option.some.inj read).symm⟩
      next => cases read

end Candidate

section Repair

theorem cut_cases (object : ObjectText) {front back : List Entry} (split : object.entries = front ++ back)
    (some' : back ≠ []) {raw : Text} (initial : raw <+: object.text) (past : upTo object.lead front <+: raw) :
    (∃ trail, Blank trail ∧
      raw = object.lead ++ '{' :: (joined (object.entries.map Entry.whole) ++ '}' :: trail)) ∨
    ∃ more entry later cut, object.entries = front ++ more ++ entry :: later ∧
      raw = upTo object.lead (front ++ more) ++ cut ∧ cut <+: entry.whole := by
  -- Where a text that begins that of an object and goes past a comma may end.
  induction back generalizing front with
  | nil => exact absurd rfl some'
  | cons entry rest ih =>
      obtain ⟨cut, rfl⟩ := past
      obtain ⟨ending, tail⟩ : ∃ ending, object.text = upTo object.lead front ++ (entry.whole ++ ending) ∧
          (rest = [] → ending = '}' :: object.trail) ∧ (rest ≠ [] → ∃ more, ending = ',' :: more) := by
        by_cases none' : rest = []
        · refine ⟨'}' :: object.trail, ?_, fun _ => rfl, fun some'' => absurd none' some''⟩
          rw [upTo_last, ObjectText.text, split, none']
        · refine ⟨',' :: (joined (rest.map Entry.whole) ++ '}' :: object.trail), ?_, fun none'' => absurd none'' none',
            fun _ => ⟨_, rfl⟩⟩
          rw [ObjectText.text, split, List.map_append, joined_append _ (by simp), List.map_cons,
            joined_cons _ (by simpa using none')]
          simp [upTo, List.flatMap_map]
      obtain ⟨text, single, several⟩ := tail
      rw [text, List.prefix_append_right_inj] at initial
      rcases List.prefix_or_prefix_of_prefix initial (List.prefix_append entry.whole ending) with within | beyond
      · exact Or.inr ⟨[], entry, rest, cut, by simpa using split, by simp, within⟩
      · obtain ⟨further, rfl⟩ := beyond
        rw [List.prefix_append_right_inj] at initial
        cases further with
        | nil => exact Or.inr ⟨[], entry, rest, entry.whole, by simpa using split, by simp, List.prefix_refl _⟩
        | cons c further =>
            by_cases none' : rest = []
            · rw [single none', List.cons_prefix_cons] at initial
              obtain ⟨rfl, within⟩ := initial
              refine Or.inl ⟨further, fun c member => object.blankTrail c (within.mem member), ?_⟩
              rw [upTo_last, split, none']
            · obtain ⟨more, comma⟩ := several none'
              rw [comma, List.cons_prefix_cons] at initial
              obtain ⟨rfl, _⟩ := initial
              have past' : upTo object.lead (front ++ [entry]) <+:
                  upTo object.lead front ++ (entry.whole ++ ',' :: further) := by
                rw [upTo_concat]
                exact ⟨further, by simp⟩
              rcases @ih (front ++ [entry]) (by simpa using split) none' past' with whole | torn
              · exact Or.inl whole
              · obtain ⟨more', entry', later, cut', entries, raw, within⟩ := torn
                exact Or.inr ⟨entry :: more', entry', later, cut', by simpa using entries, by simpa using raw, within⟩

theorem trim_inside {text : Text} {c : Char} (member : c ∈ text) (inked : Text.isWhitespace c = false) :
    text.trim.isEmpty = false := by
  by_contra empty
  rw [Bool.not_eq_false, List.isEmpty_iff, Text.trim, Text.trimEnd, List.rdropWhile_eq_nil_iff] at empty
  have start : Text.trimStart text = [] := by
    cases split : Text.trimStart text with
    | nil => rfl
    | cons d rest =>
        have head := List.head?_dropWhile_not Text.isWhitespace text
        rw [← Text.trimStart, split] at head
        have space := empty d (by rw [split]; exact List.mem_cons_self)
        simp [space] at head
  rw [Text.trimStart, List.dropWhile_eq_nil_iff] at start
  rw [start c member] at inked
  cases inked

theorem parseJsonObject_eq {candidate : Text} {members : List (Text × Json)}
    (read : parse candidate = some (.object members)) : parseJsonObject candidate = some (.object members) := by
  rw [parseJsonObject, read]
  rfl

theorem object_of_isObject {v : Json} (told : isObject v = true) : ∃ members, v = .object members := by
  cases v with
  | object members => exact ⟨members, rfl⟩
  | _ => cases told

theorem parseJsonObject_object {candidate : Text} {v : Json} (read : parseJsonObject candidate = some v) :
    parse candidate = some v ∧ ∃ members, v = .object members := by
  have held := Option.filter_eq_some_iff.mp read
  exact ⟨held.1, object_of_isObject held.2⟩

theorem backOff_object {raw : Text} {commas : List Nat} {v : Json} (read : backOff raw commas = some v) :
    ∃ members, v = .object members := by
  induction commas with
  | nil => cases read
  | cons comma earlier ih =>
      rw [backOff] at read
      split at read
      next => cases read
      next candidate _ _ =>
        cases parsed : parseJsonObject candidate with
        | some value =>
            rw [parsed] at read
            obtain rfl := Option.some.inj read
            exact (parseJsonObject_object parsed).2
        | none =>
            rw [parsed] at read
            exact ih read

theorem partial_object {raw : Text} {v : Json} (read : parsePartialJsonObject raw = some v) :
    ∃ members, v = .object members := by
  rw [parsePartialJsonObject] at read
  split at read
  next value _ =>
    split at read
    next told =>
      obtain rfl := Option.some.inj read
      exact object_of_isObject told
    next => cases read
  next =>
    split at read
    next => cases read
    next =>
      split at read
      next => cases read
      next candidate commas _ =>
        cases parsed : parseJsonObject candidate with
        | some value =>
            rw [parsed] at read
            obtain rfl := Option.some.inj read
            exact (parseJsonObject_object parsed).2
        | none =>
            rw [parsed] at read
            exact backOff_object read

variable {lead : Text} {front : List Entry} {entry : Entry}

theorem partial_cut (blank : Blank lead) (sound : ∀ entry ∈ front, entry.Sound) (some' : front ≠ []) (own : entry.Sound)
    {cut : Text} (initial : cut <+: entry.whole) :
    ∃ more, parsePartialJsonObject (upTo lead front ++ cut) = some (.object (front.map Entry.member ++ more)) ∧
      (more.map Prod.fst).Sublist [entry.key] := by
  obtain ⟨closing, commas, closed, free, final⟩ := close_cut blank sound some' own initial
  have whole : ∀ {closing : Text} {v : Json}, (∀ c ∈ closing, c ≠ ':' ∧ c ≠ ',') →
      parse (upTo lead front ++ cut ++ closing) = some v →
        ∃ more, v = .object (front.map Entry.member ++ more) ∧ (more.map Prod.fst).Sublist [entry.key] := by
    intro closing v free read
    obtain ⟨inner, rfl⟩ := parse_cut blank sound some' own initial free read
    exact ⟨_, rfl, List.Sublist.refl _⟩
  rw [parsePartialJsonObject]
  cases read : parse (upTo lead front ++ cut) with
  | some v =>
      obtain ⟨more, rfl, keys⟩ := @whole [] v (by simp) (by rw [List.append_nil, read])
      exact ⟨more, rfl, keys⟩
  | none =>
      have inked : (upTo lead front ++ cut).trim.isEmpty = false :=
        @trim_inside _ '{' (by simp [upTo]) (by decide)
      simp only [inked, Bool.false_eq_true, if_false, closed]
      cases candidate : parseJsonObject (upTo lead front ++ cut ++ closing) with
      | some v =>
          obtain ⟨more, rfl, keys⟩ := whole free (parseJsonObject_object candidate).1
          exact ⟨more, rfl, keys⟩
      | none =>
          obtain ⟨candidate', commas', closed', read'⟩ := close_front blank sound some' cut
          -- The first comma to back off to is the one in front of the cut entry.
          have last : ∃ earlier, commas.reverse = ((upTo lead front).length - 1) :: earlier := by
            rw [List.getLast?_eq_head?_reverse] at final
            cases split : commas.reverse with
            | nil =>
                rw [split] at final
                cases final
            | cons place earlier =>
                rw [split] at final
                exact ⟨earlier, by rw [Option.some.inj final]⟩
          obtain ⟨earlier, last⟩ := last
          refine ⟨[], ?_, by simp⟩
          dsimp only
          rw [last, backOff, closed']
          simp only [parseJsonObject_eq read', List.append_nil]

/-- A text goes just past a comma between two members of an object, with these names in front of it. -/
def TopLevelComma (whole through : Text) (names : List Text) : Prop :=
  ∃ (object : ObjectText) (front back : List Entry), object.text = whole ∧ object.entries = front ++ back ∧
    front ≠ [] ∧ back ≠ [] ∧ through = upTo object.lead front ∧ names = front.map Entry.key

theorem partial_object_sound {whole : Text} {members : List (Text × Json)} (parsed : parse whole = some (.object members))
    (distinct : (members.map Prod.fst).Nodup) {raw : Text} (initial : raw <+: whole) :
    (∀ found, parsePartialJsonObject raw = some found → ∃ members, found = .object members) ∧
      ∀ through names, TopLevelComma whole through names → through <+: raw →
        ∃ found, parsePartialJsonObject raw = some (.object found) ∧
          ∀ name ∈ names, (Json.object found).get name = (Json.object members).get name := by
  refine ⟨fun found read => partial_object read, ?_⟩
  rintro through names ⟨object, front, back, rfl, split, some', some'', rfl, rfl⟩ past
  obtain rfl : object.members = members := by
    have same := object.parse_text.symm.trans parsed
    simpa using same
  rcases cut_cases object split some'' initial past with ⟨trail, blank, rfl⟩ | ⟨more, entry, later, cut, entries, rfl, within⟩
  · let ended : ObjectText := { object with trail := trail, blankTrail := blank }
    refine ⟨object.members, ?_, fun _ _ => rfl⟩
    have read : parse ended.text = some (.object object.members) := ended.parse_text
    rw [parsePartialJsonObject, show object.lead ++ _ = ended.text from rfl, read]
    rfl
  · have sound : ∀ other ∈ front ++ more, other.Sound := by
      intro other member
      refine object.sound other ?_
      rw [entries]
      exact List.mem_append_left _ member
    have own : entry.Sound := object.sound entry (by rw [entries]; simp)
    obtain ⟨extra, repaired, keys⟩ := partial_cut object.blankLead sound (by simp [some']) own within
    refine ⟨_, repaired, ?_⟩
    intro name member
    obtain ⟨named, among, rfl⟩ := List.mem_map.mp member
    -- No other entry has the name, neither in the text nor in what was repaired.
    have once : (((front ++ more).map Entry.member ++ extra).map Prod.fst).Nodup := by
      have whole : object.members.map Prod.fst =
          ((front ++ more).map Entry.member).map Prod.fst ++ [entry.key] ++ later.map Entry.key := by
        simp [ObjectText.members, entries, Entry.member]
      rw [whole, List.append_assoc] at distinct
      rw [List.map_append]
      exact distinct.sublist (List.Sublist.append_left (keys.trans (List.sublist_append_left _ _)) _)
    have here : (named.key, named.element.value) ∈ (front ++ more).map Entry.member ++ extra := by
      refine List.mem_append_left _ (List.mem_map.mpr ⟨named, List.mem_append_left _ among, rfl⟩)
    have there : (named.key, named.element.value) ∈ object.members :=
      List.mem_map.mpr ⟨named, by rw [split]; exact List.mem_append_left _ among, rfl⟩
    rw [get_member once here, get_member distinct there]

def numbered (letter : Char) (n : Nat) : Entry :=
  { before := []
    body := [letter]
    key := [letter]
    colon := []
    element := { before := [], text := (NumberLiteral.ofNat n).text, value := .number (.ofNat n), behind := [] } }

theorem numbered_sound {letter : Char} (read : nextChar [letter] = some (letter, [])) (open' : letter ≠ '"') (n : Nat) :
    (numbered letter n).Sound :=
  ⟨{ before := blank_nil
     body := @Body.cons [letter] [] letter [] (by simpa using open') read .nil
     colon := blank_nil
     element := { before := blank_nil, behind := blank_nil } }, .number _⟩

def twoNumbers : ObjectText :=
  { lead := []
    entries := [numbered 'a' 1, numbered 'b' 2]
    trail := []
    blankLead := blank_nil
    blankTrail := blank_nil
    some' := by simp
    sound := by
      intro entry member
      rcases List.mem_cons.mp member with rfl | member
      · exact numbered_sound rfl (by decide) 1
      · obtain rfl := List.mem_singleton.mp member
        exact numbered_sound rfl (by decide) 2 }

theorem two_numbers_cut : ∃ found, parsePartialJsonObject "\x7b\"a\":1,\"b".toList = some (.object found) ∧
    (Json.object found).get ['a'] = (Json.object twoNumbers.members).get ['a'] := by
  have sound := @partial_object_sound _ _ twoNumbers.parse_text (by decide) "\x7b\"a\":1,\"b".toList
    ⟨"\":2\x7d".toList, rfl⟩
  obtain ⟨found, read, same⟩ := sound.2 _ [['a']] ⟨twoNumbers, [numbered 'a' 1], [numbered 'b' 2], rfl, rfl,
    by simp, by simp, rfl, rfl⟩ ⟨"\"b".toList, rfl⟩
  exact ⟨found, read, same _ (List.mem_singleton.mpr rfl)⟩

end Repair

end GrokPi.PartialJson
