import GrokPi.Shared.Numerals
import GrokPi.Shared.TextLines
import GrokPi.Shared.TextSearch

set_option autoImplicit false

namespace GrokPi.GrepLines

open Text (parseUsize)

section Splitting

structure GrepMatch where
  path : Text
  lineNumber : Nat
  content : Text
  deriving DecidableEq

def stripPrefix (start text : Text) : Option Text :=
  if start.isPrefixOf text then some (text.drop start.length) else none

def stripSuffix (stop text : Text) : Option Text :=
  if stop.isSuffixOf text then some (text.take (text.length - stop.length)) else none

def matchAt (line : Text) (colonContent : Nat) : Option GrepMatch :=
  let after := line.drop (colonContent + 1)
  let before := line.take colonContent
  match Text.rfind [':'] before with
  | none => none
  | some colonLine =>
      match parseUsize (before.drop (colonLine + 1)) with
      | none => none
      | some lineNumber =>
          let path := before.take colonLine
          if path ≠ [] ∧ 0 < lineNumber then some ⟨path, lineNumber, (stripPrefix [' '] after).getD after⟩ else none

-- From the right: the last colon in front of `i + 1` stands at `i` or further left.
def matchBefore (line : Text) : Nat → Option GrepMatch
  | 0 => none
  | i + 1 => if (line)[i]? = some ':' then (matchAt line i).or (matchBefore line i) else matchBefore line i

def splitPiGrepMatchLine (line : Text) : Option GrepMatch := matchBefore line line.length

def splitRtkGrepMatchLine (line : Text) : Option (Nat × Text) :=
  let line := line.trimStart
  (Text.find [':'] line).bind fun colon =>
    (parseUsize (line.take colon)).map fun lineNumber => (lineNumber, Text.trimStart (line.drop (colon + 1)))

def parseRtkGrepHeader (line : Text) : Option Text := do
  let rest ← stripPrefix "> ".toList line
  let header ← stripSuffix [':'] rest
  let at' ← Text.rfind " (".toList header
  let count := header.drop (at' + 2)
  let value ← (stripSuffix " matches)".toList count).or (stripSuffix " match)".toList count)
  (parseUsize value).map fun _ => header.take at'

end Splitting

section Parsing

structure GrepState where
  order : List Text
  byPath : AList fun _ : Text => List (Nat × Text)
  matchCount : Nat
  currentPath : Option Text

def GrepState.start : GrepState := ⟨[], ∅, 0, none⟩

def GrepState.add (state : GrepState) (found : GrepMatch) : GrepState :=
  { state with
    order := if (state.byPath.lookup found.path).isSome then state.order else state.order ++ [found.path]
    byPath := state.byPath.insert found.path
      ((state.byPath.lookup found.path).getD [] ++ [(found.lineNumber, found.content)])
    matchCount := state.matchCount + 1 }

def GrepState.read (state : GrepState) (rawLine : Text) : GrepState :=
  let line := rawLine.trimEnd
  if line = [] then state
  else
    match parseRtkGrepHeader line with
    | some path => { state with currentPath := some path }
    | none =>
        let compact := state.currentPath.bind fun path =>
          (splitRtkGrepMatchLine line).map fun parts => ⟨path, parts.1, parts.2⟩
        match (splitPiGrepMatchLine line).or compact with
        | some found => state.add found
        | none => state

structure FileMatches where
  path : Text
  matches' : List (Nat × Text)
  deriving DecidableEq

def parsePiGrepMatches (text : Text) : List FileMatches × Nat :=
  let state := (Text.lines text).foldl GrepState.read .start
  (state.order.filterMap fun path => (state.byPath.lookup path).map fun found => ⟨path, found⟩, state.matchCount)

end Parsing

section Scanning

variable {line path digits back : Text} {n : Nat}

/-- What stands between two neighbouring colons. -/
structure Numbered (line path digits back : Text) (n : Nat) : Prop where
  split : line = path ++ ':' :: digits ++ ':' :: back
  parsed : parseUsize digits = some n
  named : path ≠ []
  positive : 0 < n

theorem colon_free (parsed : parseUsize digits = some n) : ':' ∉ digits := by
  intro member
  rcases Text.parseUsize_chars parsed ':' member with digit | plus
  · exact absurd digit (by decide)
  · exact absurd plus (by decide)

theorem matchAt_numbered (numbered : Numbered line path digits back n) :
    matchAt line (path.length + 1 + digits.length) = some ⟨path, n, (stripPrefix [' '] back).getD back⟩ := by
  obtain ⟨rfl, parsed, named, positive⟩ := numbered
  have length : (path ++ ':' :: digits).length = path.length + 1 + digits.length := by
    simp only [List.length_append, List.length_cons]
    omega
  have before : (path ++ ':' :: digits ++ ':' :: back).take (path.length + 1 + digits.length) = path ++ ':' :: digits := by
    rw [← length, List.take_left]
  have after : (path ++ ':' :: digits ++ ':' :: back).drop (path.length + 1 + digits.length + 1) = back := by
    rw [← length, ← List.drop_drop, List.drop_left]
    rfl
  unfold matchAt
  simp only [before, after, Text.rfind_char_last (colon_free parsed)]
  have numeral : (path ++ ':' :: digits).drop (path.length + 1) = digits := by
    rw [← List.drop_drop, List.drop_left]
    rfl
  simp only [numeral, parsed, List.take_left]
  rw [if_pos ⟨named, positive⟩]

variable {found : GrepMatch}

theorem numbered_of_matchAt {at' : Nat} (colon : (line)[at']? = some ':')
    (hit : matchAt line at' = some found) :
    ∃ digits back, Numbered line found.path digits back found.lineNumber ∧
      at' = found.path.length + 1 + digits.length := by
  obtain ⟨inside, here⟩ := List.getElem?_eq_some_iff.mp colon
  have split : line = line.take at' ++ ':' :: line.drop (at' + 1) := by
    rw [← here, ← List.drop_eq_getElem_cons inside, List.take_append_drop]
  have count : (line.take at').length = at' := by
    rw [List.length_take]
    omega
  unfold matchAt at hit
  generalize line.drop (at' + 1) = back at split hit
  generalize line.take at' = before at split hit count
  by_cases member : ':' ∈ before
  · obtain ⟨path, digits, rfl, free⟩ := Text.split_at_last member
    have numeral : (path ++ ':' :: digits).drop (path.length + 1) = digits := by
      rw [← List.drop_drop, List.drop_left]
      rfl
    simp only [Text.rfind_char_last free, numeral, List.take_left] at hit
    split at hit
    · cases hit
    next n parsed =>
      split at hit
      next valid =>
        obtain rfl := Option.some.inj hit
        refine ⟨digits, back, ⟨split, parsed, valid.1, valid.2⟩, ?_⟩
        rw [← count]
        simp
        omega
      · cases hit
  · simp [Text.rfind_char_none member] at hit

theorem matchBefore_skips {i : Nat} (quiet : (line)[i]? = some ':' → matchAt line i = none) :
    matchBefore line (i + 1) = matchBefore line i := by
  rw [matchBefore]
  split
  next colon => rw [quiet colon, Option.none_or]
  · rfl

theorem matchBefore_takes {i : Nat} (colon : (line)[i]? = some ':')
    (here : matchAt line i = some found) : matchBefore line (i + 1) = some found := by
  rw [matchBefore, if_pos colon, here, Option.some_or]

theorem matchBefore_some {i : Nat} (hit : matchBefore line i = some found) :
    ∃ at', at' < i ∧ (line)[at']? = some ':' ∧ matchAt line at' = some found ∧
      ∀ later, at' < later → later < i → (line)[later]? = some ':' → matchAt line later = none := by
  induction i with
  | zero => cases hit
  | succ i ih =>
      by_cases quiet : (line)[i]? = some ':' → matchAt line i = none
      · rw [matchBefore_skips quiet] at hit
        obtain ⟨at', before, colon, here, rest⟩ := ih hit
        refine ⟨at', Nat.lt_succ_of_lt before, colon, here, fun later after within => ?_⟩
        rcases Nat.lt_succ_iff_lt_or_eq.mp within with lower | rfl
        · exact rest later after lower
        · exact quiet
      · obtain ⟨colon, some'⟩ := Classical.not_imp.mp quiet
        obtain ⟨other, here⟩ := Option.ne_none_iff_exists'.mp some'
        obtain rfl := Option.some.inj ((matchBefore_takes colon here).symm.trans hit)
        -- The scan starts here, so nothing is further right.
        exact ⟨i, Nat.lt_succ_self i, colon, here, fun later after before => by omega⟩

theorem matchBefore_none {i : Nat} (missed : matchBefore line i = none) :
    ∀ at', at' < i → (line)[at']? = some ':' → matchAt line at' = none := by
  induction i with
  | zero => simp
  | succ i ih =>
      have quiet : (line)[i]? = some ':' → matchAt line i = none := by
        intro colon
        by_contra some'
        obtain ⟨other, here⟩ := Option.ne_none_iff_exists'.mp some'
        rw [matchBefore_takes colon here] at missed
        cases missed
      rw [matchBefore_skips quiet] at missed
      intro at' within
      rcases Nat.lt_succ_iff_lt_or_eq.mp within with lower | rfl
      · exact ih missed at' lower
      · exact quiet

theorem Numbered.colon (numbered : Numbered line path digits back n) :
    path.length + 1 + digits.length < line.length ∧ (line)[path.length + 1 + digits.length]? = some ':' := by
  have length : (path ++ ':' :: digits).length = path.length + 1 + digits.length := by
    simp only [List.length_append, List.length_cons]
    omega
  rw [numbered.split, ← length]
  simp

theorem split_last (numbered : Numbered line path digits back n) :
    ∃ found digits' back', splitPiGrepMatchLine line = some found ∧
      Numbered line found.path digits' back' found.lineNumber ∧
      found.content = (stripPrefix [' '] back').getD back' ∧
      ∀ {other digits'' back'' n'}, Numbered line other digits'' back'' n' →
        other.length + digits''.length ≤ found.path.length + digits'.length := by
  -- Of the numbers between two colons the last one is the line number.
  unfold splitPiGrepMatchLine
  cases result : matchBefore line line.length with
  | none =>
      have missed := matchBefore_none result _ numbered.colon.1 numbered.colon.2
      rw [matchAt_numbered numbered] at missed
      cases missed
  | some found =>
      obtain ⟨at', -, colon, hit, last⟩ := matchBefore_some result
      obtain ⟨digits', back', own, rfl⟩ := numbered_of_matchAt colon hit
      rw [matchAt_numbered own, Option.some.injEq] at hit
      refine ⟨found, digits', back', rfl, own, by rw [← hit], ?_⟩
      intro other digits'' back'' n' more
      by_contra further
      have missed := last _ (by omega) more.colon.1 more.colon.2
      rw [matchAt_numbered more] at missed
      cases missed

theorem last_colon_unique {front front' tail tail' : Text} (free : ':' ∉ tail) (free' : ':' ∉ tail')
    (same : front ++ ':' :: tail = front' ++ ':' :: tail') : front = front' ∧ tail = tail' := by
  have last := Text.rfind_char_last free front
  rw [same, Text.rfind_char_last free', Option.some.injEq] at last
  obtain ⟨fronts, tails⟩ := List.append_inj same last.symm
  exact ⟨fronts, (List.cons.injEq .. ▸ tails).2⟩

theorem first_colon_unique {front front' back back' : Text} (free : ':' ∉ front) (free' : ':' ∉ front')
    (same : front ++ ':' :: back = front' ++ ':' :: back') : front = front' := by
  have reversed := congrArg List.reverse same
  simp only [List.reverse_append, List.reverse_cons, List.append_assoc, List.singleton_append] at reversed
  exact List.reverse_injective
    (last_colon_unique (by simpa using free) (by simpa using free') reversed).2

theorem first_colon_le {front x back y : Text} (free : ':' ∉ front) (same : x ++ ':' :: y = front ++ ':' :: back) :
    front.length ≤ x.length := by
  rcases List.append_eq_append_iff.mp same with ⟨z, shape, rest⟩ | ⟨z, shape, -⟩
  · cases z with
    | nil => exact (by simp [shape] : front.length ≤ x.length)
    | cons c z =>
        obtain rfl : ':' = c := (List.cons.inj rest).1
        exact absurd (by simp [shape]) free
  · simp [shape]

def HoldsNumber (text : Text) : Prop :=
  ∃ front digits back n, text = front ++ ':' :: digits ++ ':' :: back ∧ parseUsize digits = some n ∧ 0 < n

theorem split_longer (numbered : Numbered line path digits back n)
    (result : splitPiGrepMatchLine line = some found) : path.length ≤ found.path.length ∧
      (path.length = found.path.length → found = ⟨path, n, (stripPrefix [' '] back).getD back⟩) := by
  -- A later number between two colons only lengthens the path.
  obtain ⟨other, digits', back', result', own, content, last⟩ := split_last numbered
  obtain rfl : other = found := Option.some.inj (result'.symm.trans result)
  have free := colon_free numbered.parsed
  have free' := colon_free own.parsed
  have lines := numbered.split.symm.trans own.split
  have bound := last numbered
  rw [List.append_assoc, List.append_assoc] at lines
  constructor
  · by_contra shorter
    rcases List.append_eq_append_iff.mp lines with ⟨x, longer, -⟩ | ⟨x, split, rest⟩
    · exact shorter (by rw [longer]; simp)
    · cases x with
      | nil => exact shorter (by rw [split]; simp)
      | cons c x =>
          have reach := first_colon_le free' (List.cons.inj rest).2.symm
          rw [split] at bound
          simp only [List.length_append, List.length_cons] at bound
          omega
  · intro same
    obtain ⟨rfl, rest⟩ := List.append_inj lines same
    have numbers := (List.cons.inj rest).2
    obtain rfl := first_colon_unique free free' numbers
    obtain rfl := (List.cons.inj (List.append_cancel_left numbers)).2
    have sameNumber := Option.some.inj (own.parsed.symm.trans numbered.parsed)
    rw [← content, ← sameNumber]

theorem split_iff (numbered : Numbered line path digits back n) :
    splitPiGrepMatchLine line = some ⟨path, n, (stripPrefix [' '] back).getD back⟩ ↔
      ¬ HoldsNumber (':' :: back) := by
  obtain ⟨found, digits', back', result, own, -, last⟩ := split_last numbered
  have longer := split_longer numbered result
  rw [result, Option.some.injEq]
  constructor
  · rintro rfl ⟨front, later, rest, k, split, parsed, positive⟩
    have more : Numbered line (path ++ ':' :: digits ++ front) later rest k := by
      refine ⟨?_, parsed, by simp, positive⟩
      rw [numbered.split, split]
      simp
    have lines := numbered.split.symm.trans own.split
    rw [List.append_assoc, List.append_assoc, List.append_cancel_left_eq] at lines
    obtain rfl := first_colon_unique (colon_free numbered.parsed) (colon_free own.parsed) (List.cons.inj lines).2
    have bound := last more
    simp only [List.length_append, List.length_cons] at bound
    omega
  · intro none'
    refine longer.2 (Nat.le_antisymm longer.1 ?_)
    by_contra further
    have lines := numbered.split.symm.trans own.split
    rw [List.append_assoc, List.append_assoc] at lines
    rcases List.append_eq_append_iff.mp lines with ⟨x, split, rest⟩ | ⟨x, split, -⟩
    · cases x with
      | nil => exact further (by rw [split]; simp)
      | cons c x =>
          have numbers := (List.cons.inj rest).2
          have reach := first_colon_le (colon_free numbered.parsed) numbers.symm
          -- What lies behind the first number begins the later one's path.
          rcases List.append_eq_append_iff.mp numbers with ⟨y, -, behind⟩ | ⟨y, split', behind⟩
          · exact none' ⟨y, digits', back', found.lineNumber, by rw [behind, List.append_assoc], own.parsed, own.positive⟩
          · obtain rfl : y = [] := by
              have lengths := congrArg List.length split'
              rw [List.length_append] at lengths
              exact List.length_eq_zero_iff.mp (by omega)
            exact none' ⟨[], digits', back', found.lineNumber, by rw [← List.nil_append (':' :: back), ← behind]; rfl,
              own.parsed, own.positive⟩
    · exact further (by rw [split]; simp)

end Scanning

section Rendering

variable {m : GrepMatch} {line path digits back text content : Text} {n : Nat}

def render (m : GrepMatch) : Text := m.path ++ ':' :: Nat.toDigits 10 m.lineNumber ++ ':' :: ' ' :: m.content

structure Printable (m : GrepMatch) : Prop where
  named : m.path ≠ []
  positive : 0 < m.lineNumber
  small : m.lineNumber < 2 ^ 64

def trimmed (m : GrepMatch) : GrepMatch := { m with content := m.content.trimEnd }

theorem numbered_render (printable : Printable m) :
    Numbered (render m) m.path (Nat.toDigits 10 m.lineNumber) (' ' :: m.content) m.lineNumber :=
  ⟨rfl, Text.parseUsize_toDigits printable.small, printable.named, printable.positive⟩

theorem Numbered.trimEnd (numbered : Numbered line path digits back n) :
    Numbered line.trimEnd path digits back.trimEnd n :=
  ⟨by rw [numbered.split, Text.trimEnd_ink (by decide)], numbered.parsed, numbered.named, numbered.positive⟩

theorem holdsNumber_trimEnd : HoldsNumber text.trimEnd ↔ HoldsNumber text := by
  constructor
  · rintro ⟨front, digits, back, n, split, parsed, positive⟩
    obtain ⟨blank, rejoin⟩ := List.rdropWhile_prefix Text.isWhitespace text
    refine ⟨front, digits, back ++ blank, n, ?_, parsed, positive⟩
    rw [← rejoin, ← Text.trimEnd, split]
    simp
  · rintro ⟨front, digits, back, n, rfl, parsed, positive⟩
    exact ⟨front, digits, Text.trimEnd back, n, Text.trimEnd_ink (by decide) .., parsed, positive⟩

theorem parseUsize_blank (digits : Text) : parseUsize (' ' :: digits) = none := by
  simp [parseUsize]

theorem holdsNumber_content : HoldsNumber (':' :: ' ' :: content) ↔ HoldsNumber content := by
  constructor
  · rintro ⟨front, digits, back, n, split, parsed, positive⟩
    match front with
    | [] =>
        -- The number would begin with the space.
        cases digits with
        | nil => cases (List.cons.inj (List.cons.inj split).2).1
        | cons d digits =>
            obtain rfl : ' ' = d := (List.cons.inj (List.cons.inj split).2).1
            rw [parseUsize_blank] at parsed
            cases parsed
    | [c] => cases (List.cons.inj (List.cons.inj split).2).1
    | _ :: _ :: front =>
        exact ⟨front, digits, back, n, (List.cons.inj (List.cons.inj split).2).2, parsed, positive⟩
  · rintro ⟨front, digits, back, n, rfl, parsed, positive⟩
    exact ⟨':' :: ' ' :: front, digits, back, n, rfl, parsed, positive⟩

theorem holdsNumber_trimmed : HoldsNumber (':' :: Text.trimEnd (' ' :: content)) ↔ HoldsNumber content := by
  have colon : Text.trimEnd (':' :: ' ' :: content) = ':' :: Text.trimEnd (' ' :: content) :=
    Text.trimEnd_ink (by decide) [] (' ' :: content)
  rw [← colon, holdsNumber_trimEnd, holdsNumber_content]

theorem content_trimmed (content : Text) :
    (stripPrefix [' '] (Text.trimEnd (' ' :: content))).getD (Text.trimEnd (' ' :: content)) = content.trimEnd := by
  simp only [Text.trimEnd, List.rdropWhile, List.reverse_cons, List.dropWhile_append]
  split
  next blank =>
    rw [List.isEmpty_iff.mp blank]
    decide
  · simp [stripPrefix]

theorem split_render (printable : Printable m) :
    splitPiGrepMatchLine (render m) = some m ↔ ¬ HoldsNumber m.content := by
  have exact' := split_iff (numbered_render printable)
  rw [holdsNumber_content] at exact'
  exact exact'

theorem split_trimmed (printable : Printable m) :
    splitPiGrepMatchLine (render m).trimEnd = some (trimmed m) ↔ ¬ HoldsNumber m.content := by
  have exact' := split_iff (numbered_render printable).trimEnd
  rw [holdsNumber_trimmed, content_trimmed] at exact'
  exact exact'

end Rendering

section Attribution

variable {m found : GrepMatch} {state : GrepState} {founds : List GrepMatch} {path : Text}

def entriesOf (path : Text) (matches' : List GrepMatch) : List (Nat × Text) :=
  (matches'.filter fun m => m.path = path).map fun m => (m.lineNumber, m.content)

structure GrepState.Holds (state : GrepState) (founds : List GrepMatch) : Prop where
  count : state.matchCount = founds.length
  listed : ∀ path, (state.byPath.lookup path).getD [] = entriesOf path founds
  ordered : ∀ path, path ∈ state.order ↔ (state.byPath.lookup path).isSome
  nodup : state.order.Nodup

theorem entriesOf_concat (path : Text) (founds : List GrepMatch) (found : GrepMatch) :
    entriesOf path (founds ++ [found]) =
      entriesOf path founds ++ if found.path = path then [(found.lineNumber, found.content)] else [] := by
  unfold entriesOf
  split
  next own => simp [own]
  next other => simp [other]

theorem GrepState.Holds.add (holds : state.Holds founds) (found : GrepMatch) :
    (state.add found).Holds (founds ++ [found]) := by
  refine ⟨by simp [GrepState.add, holds.count], fun path => ?_, fun path => ?_, ?_⟩
  · rw [entriesOf_concat, ← holds.listed path]
    by_cases own : found.path = path
    · subst own
      simp [GrepState.add]
    · simp [GrepState.add, own, AList.lookup_insert_ne (Ne.symm own)]
  · have known := holds.ordered path
    by_cases own : path = found.path
    · subst own
      simp only [GrepState.add, AList.lookup_insert, Option.isSome_some, iff_true]
      split
      next old => exact known.mpr old
      · simp
    · simp only [GrepState.add, AList.lookup_insert_ne own]
      split
      · exact known
      · simpa [own] using known
  · simp only [GrepState.add]
    split
    · exact holds.nodup
    next fresh =>
      rw [List.nodup_append]
      refine ⟨holds.nodup, List.nodup_singleton _, ?_⟩
      intro path old other new same
      obtain rfl : other = found.path := List.mem_singleton.mp new
      exact fresh ((holds.ordered _).mp (same ▸ old))

def readMatch (m : GrepMatch) : Option GrepMatch :=
  if parseRtkGrepHeader (render m).trimEnd = none then splitPiGrepMatchLine (render m).trimEnd else none

theorem render_trimEnd_ne_nil (m : GrepMatch) : (render m).trimEnd ≠ [] := by
  unfold render
  rw [Text.trimEnd_ink (by decide)]
  simp

theorem GrepState.Holds.read (holds : state.Holds founds) (printable : Printable m) :
    (state.read (render m)).Holds (founds ++ (readMatch m).toList) := by
  unfold GrepState.read readMatch
  simp only [if_neg (render_trimEnd_ne_nil m)]
  cases header : parseRtkGrepHeader (render m).trimEnd with
  | some path =>
      simp only [reduceCtorEq, if_false, Option.toList_none, List.append_nil]
      exact ⟨holds.count, holds.listed, holds.ordered, holds.nodup⟩
  | none =>
      obtain ⟨found, _, _, result, -⟩ := split_last (numbered_render printable).trimEnd
      simp only [if_true, result, Option.some_or, Option.toList_some]
      exact holds.add found

def Quiet (line : Text) : Prop := ∀ state : GrepState, state.read line = state

def printed : GrepMatch ⊕ Text → Text
  | .inl m => render m
  | .inr line => line

def direct (pieces : List (GrepMatch ⊕ Text)) : List GrepMatch := pieces.filterMap Sum.getLeft?

structure Search (pieces : List (GrepMatch ⊕ Text)) : Prop where
  printable : ∀ m, .inl m ∈ pieces → Printable m
  quiet : ∀ line, .inr line ∈ pieces → Quiet line

theorem Search.read {pieces : List (GrepMatch ⊕ Text)} (search : Search pieces) (holds : state.Holds founds) :
    ((pieces.map printed).foldl GrepState.read state).Holds (founds ++ (direct pieces).filterMap readMatch) := by
  induction pieces generalizing state founds with
  | nil => simpa [direct] using holds
  | cons piece pieces ih =>
      have rest : Search pieces :=
        ⟨fun m member => search.printable m (List.mem_cons_of_mem _ member),
          fun line member => search.quiet line (List.mem_cons_of_mem _ member)⟩
      cases piece with
      | inl m =>
          have next' := ih rest (holds.read (search.printable m List.mem_cons_self))
          rw [List.append_assoc] at next'
          have split : (readMatch m).toList ++ (direct pieces).filterMap readMatch =
              (direct (.inl m :: pieces)).filterMap readMatch := by
            simp only [direct, List.filterMap_cons, Sum.getLeft?_inl]
            cases readMatch m <;> rfl
          rw [← split]
          exact next'
      | inr line =>
          rw [List.map_cons, List.foldl_cons, printed, search.quiet line List.mem_cons_self state]
          exact ih rest holds

theorem holds_start : GrepState.start.Holds [] :=
  ⟨rfl, fun _ => rfl, fun _ => by simp [GrepState.start], List.nodup_nil⟩

def matchesOf (files : List FileMatches) (path : Text) : List (Nat × Text) :=
  (files.filter fun file => file.path = path).flatMap FileMatches.matches'

theorem matchesOf_listed {order : List Text} (nodup : order.Nodup) (entries : Text → Option (List (Nat × Text))) :
    matchesOf (order.filterMap fun path => (entries path).map fun found => ⟨path, found⟩) path =
      if path ∈ order then (entries path).getD [] else [] := by
  induction order with
  | nil => rfl
  | cons first order ih =>
      rw [List.nodup_cons] at nodup
      have rest := ih nodup.2
      unfold matchesOf at rest ⊢
      by_cases own : first = path
      · subst own
        rw [if_neg nodup.1] at rest
        cases found : entries first with
        | none => simp [found, rest]
        | some entry => simp [found, rest]
      · cases found : entries first with
        | none => simp [found, rest, Ne.symm own]
        | some entry => simp [found, rest, own, Ne.symm own]

def Attributed (parsed : List FileMatches × Nat) (matches' : List GrepMatch) : Prop :=
  parsed.2 = matches'.length ∧ ∀ path, matchesOf parsed.1 path = entriesOf path (matches'.map trimmed)

theorem parse_search {text : Text} {pieces : List (GrepMatch ⊕ Text)} (search : Search pieces)
    (split : Text.lines text = pieces.map printed) :
    (parsePiGrepMatches text).2 = ((direct pieces).filterMap readMatch).length ∧
      ∀ path, matchesOf (parsePiGrepMatches text).1 path = entriesOf path ((direct pieces).filterMap readMatch) := by
  have holds := search.read holds_start
  rw [List.nil_append, ← split] at holds
  refine ⟨holds.count, fun path => ?_⟩
  unfold parsePiGrepMatches
  rw [matchesOf_listed holds.nodup, ← holds.listed path]
  split
  · rfl
  next unlisted =>
    rw [holds.ordered path, Option.not_isSome_iff_eq_none] at unlisted
    rw [unlisted]
    rfl

def Unmistakable (m : GrepMatch) : Prop :=
  ¬ HoldsNumber m.content ∧ parseRtkGrepHeader (render m).trimEnd = none

theorem readMatch_trimmed (printable : Printable m) (clear : Unmistakable m) : readMatch m = some (trimmed m) := by
  rw [readMatch, if_pos clear.2]
  exact (split_trimmed printable).mpr clear.1

theorem unmistakable_of_lengths {matches' : List GrepMatch} (printable : ∀ m ∈ matches', Printable m)
    (all : ∀ m ∈ matches', (readMatch m).isSome) :
    (matches'.map fun m => m.path.length).sum ≤ ((matches'.filterMap readMatch).map fun m => m.path.length).sum ∧
      (((matches'.filterMap readMatch).map fun m => m.path.length).sum ≤ (matches'.map fun m => m.path.length).sum →
        ∀ m ∈ matches', Unmistakable m) := by
  -- Misread paths only grow, so that the sum of their lengths tells whether any was misread.
  induction matches' with
  | nil => simp
  | cons m matches' ih =>
      rw [List.forall_mem_cons] at printable all
      obtain ⟨grown, lengths⟩ := ih printable.2 all.2
      obtain ⟨found, result⟩ := Option.isSome_iff_exists.mp all.1
      have header : parseRtkGrepHeader (render m).trimEnd = none := by
        by_contra header
        rw [readMatch, if_neg header] at result
        cases result
      have read := result
      rw [readMatch, if_pos header] at read
      obtain ⟨longer, same⟩ := split_longer (numbered_render printable.1).trimEnd read
      simp only [List.map_cons, List.sum_cons, List.filterMap_cons, result]
      refine ⟨Nat.add_le_add longer grown, fun bound => List.forall_mem_cons.mpr ⟨⟨?_, header⟩, lengths (by omega)⟩⟩
      rw [← split_trimmed printable.1, read, same (by omega), content_trimmed]
      rfl

theorem paths_perm {matches' founds : List GrepMatch} (listed : ∀ path, entriesOf path founds = entriesOf path matches') :
    (founds.map GrepMatch.path).Perm (matches'.map GrepMatch.path) := by
  rw [List.perm_iff_count]
  intro path
  have lengths := congrArg List.length (listed path)
  simp only [entriesOf, List.length_map, ← List.countP_eq_length_filter] at lengths
  simpa [List.count, List.countP_map, Function.comp_def, beq_eq_decide] using lengths

/--
A printed match is split at its own line number exactly when its content holds no number between
two colons; and a search is attributed as printed exactly when this is so for all its matches, and
none of them looks like the header of a file.
-/
theorem grep_lines_read_back_iff {m : GrepMatch} (line : Printable m) {text : Text} {pieces : List (GrepMatch ⊕ Text)}
    (search : Search pieces) (split : Text.lines text = pieces.map printed) :
    (splitPiGrepMatchLine (render m) = some m ↔ ¬ HoldsNumber m.content) ∧
      (Attributed (parsePiGrepMatches text) (direct pieces) ↔ ∀ m ∈ direct pieces, Unmistakable m) := by
  refine ⟨split_render line, ?_⟩
  obtain ⟨count, listed⟩ := parse_search search split
  have printable : ∀ m ∈ direct pieces, Printable m := by
    intro m member
    obtain ⟨piece, member, left⟩ := List.mem_filterMap.mp member
    exact search.printable m (Sum.getLeft?_eq_some_iff.mp left ▸ member)
  constructor
  · rintro ⟨all, own⟩
    have every := List.filterMap_length_eq_length.mp (count.symm.trans all)
    have paths := paths_perm fun path => (listed path).symm.trans (own path)
    have lengths := (paths.map List.length).sum_eq
    simp only [List.map_map, Function.comp_def, trimmed] at lengths
    exact (unmistakable_of_lengths printable every).2 lengths.le
  · intro clear
    have read : (direct pieces).filterMap readMatch = (direct pieces).map trimmed := by
      rw [← List.filterMap_eq_map]
      exact List.filterMap_congr fun m member => readMatch_trimmed (printable m member) (clear m member)
    rw [read] at count listed
    exact ⟨count.trans (List.length_map _), listed⟩

theorem HoldsNumber.colons {text : Text} (holds : HoldsNumber text) : 2 ≤ text.count ':' := by
  obtain ⟨front, digits, back, n, rfl, -⟩ := holds
  simp only [List.count_append, List.count_cons_self]
  omega

theorem declaration_read_back :
    splitPiGrepMatchLine "src/a.rs:12: let x: u8;".toList = some ⟨"src/a.rs".toList, 12, "let x: u8;".toList⟩ ∧
      Attributed (parsePiGrepMatches "src/a.rs-11-// size\nsrc/a.rs:12: let x: u8;\n".toList)
        [⟨"src/a.rs".toList, 12, "let x: u8;".toList⟩] := by
  have printable : Printable ⟨"src/a.rs".toList, 12, "let x: u8;".toList⟩ := ⟨by decide, by decide, by decide⟩
  have free : ¬ HoldsNumber "let x: u8;".toList := fun holds => absurd holds.colons (by decide)
  have search : Search [.inr "src/a.rs-11-// size".toList, .inl ⟨"src/a.rs".toList, 12, "let x: u8;".toList⟩] := by
    constructor
    · intro m member
      simp only [List.mem_cons, Sum.inl.injEq, reduceCtorEq, List.not_mem_nil, or_false, false_or] at member
      exact member ▸ printable
    · intro line member state
      simp only [List.mem_cons, Sum.inr.injEq, reduceCtorEq, List.not_mem_nil, or_false] at member
      subst member
      have plain : parseRtkGrepHeader (Text.trimEnd "src/a.rs-11-// size".toList) = none := by decide
      have unsplit : splitPiGrepMatchLine (Text.trimEnd "src/a.rs-11-// size".toList) = none := by decide
      have uncolon : splitRtkGrepMatchLine (Text.trimEnd "src/a.rs-11-// size".toList) = none := by decide
      unfold GrepState.read
      simp only [plain, unsplit, uncolon, Option.map_none, Option.bind_fun_none, Option.or_none]
      exact ite_self state
  have split : Text.lines "src/a.rs-11-// size\nsrc/a.rs:12: let x: u8;\n".toList =
      [.inr "src/a.rs-11-// size".toList, .inl ⟨"src/a.rs".toList, 12, "let x: u8;".toList⟩].map printed := by decide
  obtain ⟨line, parsed⟩ := grep_lines_read_back_iff printable search split
  refine ⟨line.mpr free, parsed.mpr fun m member => ?_⟩
  obtain rfl := List.mem_singleton.mp member
  exact ⟨free, by decide⟩

theorem time_taken_for_line :
    Printable ⟨"a".toList, 1, "10:30:00".toList⟩ ∧ ¬ HoldsNumber "a".toList ∧
      render ⟨"a".toList, 1, "10:30:00".toList⟩ = "a:1: 10:30:00".toList ∧
      splitPiGrepMatchLine "a:1: 10:30:00".toList = some ⟨"a:1: 10".toList, 30, "00".toList⟩ ∧
      parsePiGrepMatches "a:1: 10:30:00".toList = ([⟨"a:1: 10".toList, [(30, "00".toList)]⟩], 1) :=
  ⟨⟨by decide, by decide, by decide⟩, fun holds => absurd holds.colons (by decide), by decide, by decide, by decide⟩

end Attribution

end GrokPi.GrepLines
