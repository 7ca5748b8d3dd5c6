import Mathlib
import GrokPi.Shared.Text

set_option autoImplicit false

namespace Text

def splitInclusive (separator : Char) : Text → List Text
  | [] => []
  | c :: rest =>
      if c = separator then [c] :: splitInclusive separator rest
      else
        match splitInclusive separator rest with
        | [] => [[c]]
        | piece :: more => (c :: piece) :: more

def stripTerminator (line : Text) : Text :=
  if line.getLast? = some '\n' then
    if line.dropLast.getLast? = some '\r' then line.dropLast.dropLast else line.dropLast
  else line

def lines (text : Text) : List Text := (splitInclusive '\n' text).map stripTerminator

def joinLines (lines : List Text) : Text := ['\n'].intercalate lines

def unlines (lines : List Text) : Text := lines.flatMap (· ++ ['\n'])

abbrev EndsInLine (text : Text) : Prop := text.getLast? = some '\n'

def Pieces : List Text → Prop
  | [] => True
  | [last] => last ≠ [] ∧ '\n' ∉ last.dropLast
  | first :: rest => (first.getLast? = some '\n' ∧ '\n' ∉ first.dropLast) ∧ Pieces rest

theorem splitInclusive_flatten (separator : Char) (text : Text) :
    (splitInclusive separator text).flatten = text := by
  induction text with
  | nil => rfl
  | cons c rest ih =>
      unfold splitInclusive
      split
      · simp [ih]
      · split
        next none' =>
          rw [none'] at ih
          simp [← ih]
        next piece more shape =>
          rw [shape] at ih
          simp [← ih]

theorem splitInclusive_eq_nil (separator : Char) (text : Text) :
    splitInclusive separator text = [] ↔ text = [] := by
  constructor
  · intro empty
    rw [← splitInclusive_flatten separator text, empty]
    rfl
  · intro empty
    rw [empty]
    rfl

theorem pieces_tail {first : Text} {rest : List Text} (pieces : Pieces (first :: rest)) : Pieces rest := by
  cases rest with
  | nil => trivial
  | cons second rest => exact pieces.2

theorem pieces_head {first : Text} {rest : List Text} (pieces : Pieces (first :: rest)) :
    first ≠ [] ∧ '\n' ∉ first.dropLast := by
  cases rest with
  | nil => exact pieces
  | cons second rest =>
      refine ⟨?_, pieces.1.2⟩
      intro empty
      simp [empty] at pieces
      exact absurd pieces.1 (by simp)

theorem splitInclusive_pieces (text : Text) : Pieces (splitInclusive '\n' text) := by
  induction text with
  | nil => trivial
  | cons c rest ih =>
      unfold splitInclusive
      split
      next newline =>
        cases shape : splitInclusive '\n' rest with
        | nil => simp [Pieces]
        | cons piece more =>
            rw [shape] at ih
            exact ⟨⟨by simp [newline], by simp⟩, ih⟩
      next other =>
        cases shape : splitInclusive '\n' rest with
        | nil => simp [Pieces]
        | cons piece more =>
            rw [shape] at ih
            have head := pieces_head ih
            have clean : '\n' ∉ (c :: piece).dropLast := by
              rw [List.dropLast_cons_of_ne_nil head.1, List.mem_cons, not_or]
              exact ⟨Ne.symm other, head.2⟩
            cases more with
            | nil => exact ⟨by simp, clean⟩
            | cons second more =>
                refine ⟨⟨?_, clean⟩, ih.2⟩
                rw [List.getLast?_cons_of_ne_nil head.1]
                exact ih.1.1

theorem pieces_ended {pieces : List Text} (shape : Pieces pieces) : ∀ piece ∈ pieces.dropLast, EndsInLine piece := by
  induction pieces with
  | nil => simp
  | cons first rest ih =>
      cases rest with
      | nil => simp
      | cons second rest =>
          rw [List.dropLast_cons_of_ne_nil (by simp)]
          intro piece member
          rcases List.mem_cons.mp member with rfl | within
          · exact shape.1.1
          · exact ih shape.2 piece within

theorem splitInclusive_append_line {line : Text} (rest : Text) (ended : line.getLast? = some '\n')
    (clean : '\n' ∉ line.dropLast) :
    splitInclusive '\n' (line ++ rest) = line :: splitInclusive '\n' rest := by
  induction line with
  | nil => simp at ended
  | cons c tail ih =>
      cases tail with
      | nil =>
          obtain rfl : c = '\n' := by simpa using ended
          simp [splitInclusive]
      | cons d tail =>
          rw [List.dropLast_cons_of_ne_nil (by simp), List.mem_cons, not_or] at clean
          rw [List.getLast?_cons_of_ne_nil (by simp)] at ended
          have later := ih ended clean.2
          rw [List.cons_append, splitInclusive, if_neg (Ne.symm clean.1), later]

theorem splitInclusive_last {line : Text} (some' : line ≠ []) (clean : '\n' ∉ line.dropLast) :
    splitInclusive '\n' line = [line] := by
  induction line with
  | nil => exact absurd rfl some'
  | cons c tail ih =>
      cases tail with
      | nil => simp [splitInclusive]
      | cons d tail =>
          rw [List.dropLast_cons_of_ne_nil (by simp), List.mem_cons, not_or] at clean
          rw [splitInclusive, if_neg (Ne.symm clean.1), ih (by simp) clean.2]

theorem splitInclusive_of_pieces {pieces : List Text} (shape : Pieces pieces) :
    splitInclusive '\n' pieces.flatten = pieces := by
  induction pieces with
  | nil => rfl
  | cons first rest ih =>
      cases rest with
      | nil => simpa using splitInclusive_last shape.1 shape.2
      | cons second rest =>
          rw [List.flatten_cons, splitInclusive_append_line _ shape.1.1 shape.1.2, ih shape.2]

theorem lines_of_pieces {pieces : List Text} (shape : Pieces pieces) :
    lines pieces.flatten = pieces.map stripTerminator := by
  rw [lines, splitInclusive_of_pieces shape]

theorem pieces_suffix {part whole : List Text} (suffix : part <:+ whole) (shape : Pieces whole) :
    Pieces part := by
  induction whole with
  | nil =>
      rw [List.suffix_nil.mp suffix]
      trivial
  | cons first rest ih =>
      rcases List.suffix_cons_iff.mp suffix with same | tail
      · rw [same]
        exact shape
      · exact ih tail (pieces_tail shape)

theorem pieces_prefix {part whole : List Text} (prefix' : part <+: whole) (shape : Pieces whole) :
    Pieces part := by
  induction whole generalizing part with
  | nil =>
      rw [List.prefix_nil.mp prefix']
      trivial
  | cons first rest ih =>
      cases part with
      | nil => trivial
      | cons head tail =>
          obtain ⟨rfl, within⟩ := List.cons_prefix_cons.mp prefix'
          cases tail with
          | nil => exact pieces_head shape
          | cons second tail =>
              cases rest with
              | nil => simp at within
              | cons third rest => exact ⟨shape.1, ih within shape.2⟩

theorem pieces_part {part whole : List Text} (within : part <:+: whole) (shape : Pieces whole) :
    Pieces part := by
  rcases List.infix_iff_prefix_suffix.mp within with ⟨front, prefix', suffix⟩
  exact pieces_prefix prefix' (pieces_suffix suffix shape)

section Terminators

def Plain (line : Text) : Prop := '\n' ∉ line ∧ '\r' ∉ line

/-- A line that splitting at its end gives back: it may hold a carriage return, but not at its end. -/
def Unbroken (line : Text) : Prop := '\n' ∉ line ∧ line.getLast? ≠ some '\r'

theorem Plain.unbroken {line : Text} (plain : Plain line) : Unbroken line :=
  ⟨plain.1, fun last => plain.2 (List.mem_of_getLast? last)⟩

def Unpaired (text : Text) : Prop := ¬ ['\r', '\n'] <:+: text

instance (text : Text) : Decidable (Unpaired text) := inferInstanceAs (Decidable (¬ _))

theorem Unpaired.part {part text : Text} (unpaired : Unpaired text) (within : part <:+: text) : Unpaired part :=
  fun pair => unpaired (pair.trans within)

theorem stripTerminator_ended {body : Text} (last : body.getLast? ≠ some '\r') :
    stripTerminator (body ++ ['\n']) = body := by
  simp [stripTerminator, last]

theorem stripTerminator_unended {line : Text} (unended : ¬ EndsInLine line) : stripTerminator line = line :=
  if_neg unended

def returnsEndLines : Text → Bool
  | [] => true
  | c :: rest => (c != '\r' || rest.head? == some '\n') && returnsEndLines rest

theorem stripTerminator_piece {piece : Text} (clean : '\n' ∉ piece.dropLast) :
    '\n' ∉ stripTerminator piece := by
  by_cases ended : EndsInLine piece
  · intro member
    apply clean
    unfold stripTerminator at member
    rw [if_pos ended] at member
    split at member
    · exact List.dropLast_subset _ member
    · exact member
  · rw [stripTerminator_unended ended]
    intro member
    cases shape : piece.getLast? with
    | none =>
        rw [List.getLast?_eq_none_iff.mp shape] at member
        simp at member
    | some last =>
        rw [← List.dropLast_append_getLast? last shape, List.mem_append, List.mem_singleton] at member
        rcases member with early | same
        · exact clean early
        · exact ended (shape.trans (congrArg some same.symm))

theorem stripTerminator_cons {c : Char} {piece : Text} (other : c ≠ '\r') (some' : piece ≠ []) :
    stripTerminator (c :: piece) = c :: stripTerminator piece := by
  unfold stripTerminator
  rw [List.getLast?_cons_of_ne_nil some', List.dropLast_cons_of_ne_nil some']
  split
  next ended =>
    cases shape : piece.dropLast with
    | nil => simp [other]
    | cons d tail =>
        rw [List.getLast?_cons_of_ne_nil (by simp)]
        split
        · rw [List.dropLast_cons_of_ne_nil (by simp)]
        · rfl
  · rfl

theorem splitInclusive_no_return {text : Text} (ends : returnsEndLines text = true) :
    ∀ piece ∈ splitInclusive '\n' text, '\r' ∉ stripTerminator piece := by
  induction text with
  | nil => simp [splitInclusive]
  | cons c rest ih =>
      simp only [returnsEndLines, Bool.and_eq_true, Bool.or_eq_true, bne_iff_ne, beq_iff_eq] at ends
      have later := ih ends.2
      unfold splitInclusive
      split
      next newline =>
        intro piece member
        rcases List.mem_cons.mp member with rfl | within
        · rw [newline]
          decide
        · exact later piece within
      next other =>
        cases shape : splitInclusive '\n' rest with
        | nil =>
            have empty := (splitInclusive_eq_nil _ _).mp shape
            have plain : c ≠ '\r' := by simpa [empty] using ends.1
            simp [stripTerminator, other, Ne.symm plain]
        | cons head more =>
            rw [shape] at later
            intro piece member
            rcases List.mem_cons.mp member with rfl | within
            · have some' : head ≠ [] := by
                have pieces := splitInclusive_pieces rest
                rw [shape] at pieces
                exact (pieces_head pieces).1
              rcases ends.1 with plain | newline
              · rw [stripTerminator_cons plain some', List.mem_cons, not_or]
                exact ⟨Ne.symm plain, later head List.mem_cons_self⟩
              · cases rest with
                | nil => simp at newline
                | cons d tail =>
                    obtain rfl : d = '\n' := by simpa using newline
                    simp only [splitInclusive, if_true, List.cons.injEq] at shape
                    rw [← shape.1]
                    by_cases same : c = '\r'
                    · rw [same]
                      decide
                    · rw [stripTerminator_cons same (by simp)]
                      intro member
                      rcases List.mem_cons.mp member with carriage | early
                      · exact same carriage.symm
                      · exact absurd early (by decide)
            · exact later piece (List.mem_cons_of_mem _ within)

theorem lines_clean (text : Text) : ∀ line ∈ lines text, '\n' ∉ line := by
  intro line member
  obtain ⟨piece, within, rfl⟩ := List.mem_map.mp member
  obtain ⟨front, back, shape⟩ := List.append_of_mem within
  have pieces := splitInclusive_pieces text
  rw [shape] at pieces
  exact stripTerminator_piece (pieces_head (pieces_suffix (List.suffix_append front _) pieces)).2

theorem lines_plain {text : Text} (ends : returnsEndLines text = true) : ∀ line ∈ lines text, Plain line := by
  intro line member
  have clean := lines_clean text line member
  obtain ⟨piece, within, rfl⟩ := List.mem_map.mp member
  exact ⟨clean, splitInclusive_no_return ends piece within⟩

end Terminators

section Joining

@[simp]
theorem unlines_nil : unlines [] = [] := rfl

@[simp]
theorem unlines_cons (line : Text) (rest : List Text) :
    unlines (line :: rest) = line ++ '\n' :: unlines rest := by
  simp [unlines]

@[simp]
theorem joinLines_nil : joinLines [] = [] := rfl

@[simp]
theorem joinLines_singleton (line : Text) : joinLines [line] = line := by
  simp [joinLines]

theorem joinLines_cons_cons (first second : Text) (rest : List Text) :
    joinLines (first :: second :: rest) = first ++ '\n' :: joinLines (second :: rest) := by
  simp [joinLines, List.intercalate_cons_cons]

theorem joinLines_head {first : Text} (some' : first ≠ []) (rest : List Text) :
    (joinLines (first :: rest)).head? = first.head? := by
  cases rest with
  | nil => rw [joinLines_singleton]
  | cons second rest => rw [joinLines_cons_cons, List.head?_append_of_ne_nil _ some']

theorem joinLines_last {last : Text} (some' : last ≠ []) (front : List Text) :
    (joinLines (front ++ [last])).getLast? = last.getLast? := by
  induction front with
  | nil => rw [List.nil_append, joinLines_singleton]
  | cons first front ih =>
      cases shape : front ++ [last] with
      | nil => simp at shape
      | cons second rest =>
          have inked : joinLines (second :: rest) ≠ [] := by
            intro empty
            rw [shape, empty] at ih
            exact some' (List.getLast?_eq_none_iff.mp ih.symm)
          rw [List.cons_append, shape, joinLines_cons_cons, List.getLast?_append_of_ne_nil _ (by simp),
            List.getLast?_cons_of_ne_nil inked, ← shape, ih]

variable {parts : List Text}

theorem unlines_eq_joinLines (some' : parts ≠ []) : unlines parts = joinLines parts ++ ['\n'] := by
  induction parts with
  | nil => exact absurd rfl some'
  | cons first rest ih =>
      cases rest with
      | nil => simp
      | cons second rest =>
          rw [unlines_cons, ih (by simp), joinLines_cons_cons]
          simp

theorem joinLines_eq_nil : joinLines parts = [] ↔ parts = [] ∨ parts = [[]] := by
  cases parts with
  | nil => simp
  | cons first rest =>
      cases rest with
      | nil => simp
      | cons second rest => simp [joinLines_cons_cons]

theorem lines_unlines (unbroken : ∀ line ∈ parts, Unbroken line) : lines (unlines parts) = parts := by
  induction parts with
  | nil => rfl
  | cons first rest ih =>
      have head := unbroken first List.mem_cons_self
      have split : splitInclusive '\n' (unlines (first :: rest)) =
          (first ++ ['\n']) :: splitInclusive '\n' (unlines rest) := by
        rw [unlines_cons, ← splitInclusive_append_line _ (by simp) (by simpa using head.1)]
        simp
      have later := ih fun line member => unbroken line (List.mem_cons_of_mem _ member)
      unfold lines at later ⊢
      rw [split, List.map_cons, stripTerminator_ended head.2, later]

def Firm (parts : List Text) : Prop := parts.getLast? ≠ some []

/-- Lines that can be read back once they are joined; the last one may end in a carriage return. -/
structure Joinable (parts : List Text) : Prop where
  clean : ∀ line ∈ parts, '\n' ∉ line
  unbroken : ∀ line ∈ parts.dropLast, Unbroken line
  firm : Firm parts

theorem joinable_of_unbroken (unbroken : ∀ line ∈ parts, Unbroken line) (firm : Firm parts) :
    Joinable parts :=
  ⟨fun line member => (unbroken line member).1, fun line member => unbroken line (List.dropLast_subset _ member),
    firm⟩

theorem lines_joinLines (joinable : Joinable parts) :
    lines (joinLines parts) = parts ∧ ¬ EndsInLine (joinLines parts) := by
  induction parts with
  | nil => exact ⟨rfl, by simp [EndsInLine]⟩
  | cons first rest ih =>
      obtain ⟨clean, unbroken, firm⟩ := joinable
      have headClean := clean first List.mem_cons_self
      cases rest with
      | nil =>
          have some' : first ≠ [] := by simpa [Firm] using firm
          have unended : ¬ EndsInLine first := fun ended => headClean (List.mem_of_getLast? ended)
          have clean : '\n' ∉ first.dropLast := fun member => headClean (List.dropLast_subset _ member)
          rw [joinLines_singleton]
          refine ⟨?_, unended⟩
          rw [lines, splitInclusive_last some' clean, List.map_singleton, stripTerminator_unended unended]
      | cons second rest =>
          rw [List.dropLast_cons_of_ne_nil (by simp)] at unbroken
          have head := unbroken first List.mem_cons_self
          have tail := ih
            ⟨fun line member => clean line (List.mem_cons_of_mem _ member),
              fun line member => unbroken line (List.mem_cons_of_mem _ member), by simpa [Firm] using firm⟩
          have some' : joinLines (second :: rest) ≠ [] := by
            intro empty
            rcases joinLines_eq_nil.mp empty with none' | blank
            · simp at none'
            · simp [Firm, blank] at firm
          have split : splitInclusive '\n' (joinLines (first :: second :: rest)) =
              (first ++ ['\n']) :: splitInclusive '\n' (joinLines (second :: rest)) := by
            rw [joinLines_cons_cons, ← splitInclusive_append_line _ (by simp) (by simpa using head.1)]
            simp
          constructor
          · have later := tail.1
            unfold lines at later ⊢
            rw [split, List.map_cons, stripTerminator_ended head.2, later]
          · rw [EndsInLine, joinLines_cons_cons, List.getLast?_append, List.getLast?_cons_of_ne_nil some']
            intro ended
            apply tail.2
            cases last : (joinLines (second :: rest)).getLast? with
            | none => exact absurd (List.getLast?_eq_none_iff.mp last) some'
            | some c =>
                have same : c = '\n' := by simpa [last] using ended
                exact last.trans (congrArg some same)

theorem unpaired_last {piece : Text} (unpaired : Unpaired piece) (ended : EndsInLine piece) :
    piece.dropLast.getLast? ≠ some '\r' := by
  intro last
  have shape := List.dropLast_append_getLast? '\n' ended
  have inner := List.dropLast_append_getLast? '\r' last
  exact unpaired ⟨piece.dropLast.dropLast, [], by rw [List.append_nil, ← shape, ← inner]; simp⟩

theorem stripTerminator_append {piece : Text} (unpaired : Unpaired piece) (ended : EndsInLine piece) :
    stripTerminator piece ++ ['\n'] = piece := by
  have shape := List.dropLast_append_getLast? '\n' ended
  rw [← shape, stripTerminator_ended (unpaired_last unpaired ended)]

theorem piece_unbroken {piece : Text} (unpaired : Unpaired piece) (clean : '\n' ∉ piece.dropLast)
    (ended : EndsInLine piece) : Unbroken (stripTerminator piece) := by
  have shape := List.dropLast_append_getLast? '\n' ended
  have last := unpaired_last unpaired ended
  rw [← shape, stripTerminator_ended last]
  exact ⟨clean, last⟩

variable {pieces : List Text}

theorem pieces_flatten_last (shape : Pieces pieces) :
    pieces.flatten.getLast? = pieces.getLast?.bind List.getLast? := by
  induction pieces with
  | nil => rfl
  | cons first rest ih =>
      cases rest with
      | nil => simp
      | cons second rest =>
          have some' : (second :: rest).flatten ≠ [] := by
            simp [(pieces_head shape.2).1]
          rw [List.flatten_cons, List.getLast?_append_of_ne_nil _ some', ih shape.2]
          simp

theorem pair_append {front back : Text} (pair : ['\r', '\n'] <:+: front ++ back) :
    ['\r', '\n'] <:+: front ∨ ['\r', '\n'] <:+: back ∨
      front.getLast? = some '\r' ∧ back.head? = some '\n' := by
  obtain ⟨before, after, whole⟩ := pair
  rcases List.append_eq_append_iff.mp whole with ⟨middle, rfl, -⟩ | ⟨middle, inner, rfl⟩
  · exact .inl ⟨before, middle, rfl⟩
  rcases List.append_eq_append_iff.mp inner with ⟨left, rfl, split⟩ | ⟨left, rfl, rfl⟩
  · rcases left with - | ⟨c, left⟩
    · rw [List.nil_append] at split
      exact .inr (.inl ⟨[], after, by simp [← split]⟩)
    · simp only [List.cons_append, List.cons.injEq] at split
      obtain ⟨rfl, split⟩ := split
      rcases left with - | ⟨d, left⟩
      · exact .inr (.inr ⟨by simp, by simp [show middle = ['\n'] from split.symm]⟩)
      · simp only [List.cons_append, List.cons.injEq] at split
        obtain ⟨rfl, split⟩ := split
        obtain ⟨rfl, rfl⟩ := List.append_eq_nil_iff.mp split.symm
        exact .inl ⟨before, [], by simp⟩
  · exact .inr (.inl ⟨left, after, by simp⟩)

theorem unpaired_of_pieces (shape : Pieces pieces)
    (apart : ∀ piece ∈ pieces, EndsInLine piece → piece.dropLast.getLast? ≠ some '\r') :
    Unpaired pieces.flatten := by
  induction pieces with
  | nil => simp [Unpaired]
  | cons first rest ih =>
      intro pair
      have later := ih (pieces_tail shape) fun piece member => apart piece (List.mem_cons_of_mem _ member)
      rw [List.flatten_cons] at pair
      rcases pair_append pair with here | there | ⟨last, next⟩
      · obtain ⟨before, after, whole⟩ := here
        have clean := (pieces_head shape).2
        cases after with
        | nil =>
            refine apart first List.mem_cons_self ?_ ?_
            · simp [EndsInLine, ← whole]
            · simp [← whole, List.dropLast_append_of_ne_nil]
        | cons c after =>
            apply clean
            rw [← whole, List.dropLast_append_of_ne_nil (by simp)]
            simp
      · exact later there
      · cases rest with
        | nil => simp at next
        | cons second rest =>
            rw [shape.1.1] at last
            exact absurd last (by decide)

theorem unlines_pieces (shape : Pieces pieces) (unpaired : Unpaired pieces.flatten)
    (ended : EndsInLine pieces.flatten) : unlines (pieces.map stripTerminator) = pieces.flatten := by
  induction pieces with
  | nil => rfl
  | cons first rest ih =>
      rw [List.flatten_cons] at unpaired
      have head := unpaired.part (List.prefix_append first _).isInfix
      have tail := unpaired.part (List.suffix_append first _).isInfix
      cases rest with
      | nil =>
          have ended : EndsInLine first := by simpa using ended
          simpa using stripTerminator_append head ended
      | cons second rest =>
          have ended' : EndsInLine (second :: rest).flatten := by
            have last := pieces_flatten_last shape
            have last' := pieces_flatten_last shape.2
            rw [EndsInLine, last', ← ended, last]
            simp
          have line := stripTerminator_append head shape.1.1
          rw [List.map_cons, unlines_cons, ih shape.2 tail ended', List.flatten_cons]
          conv_rhs => rw [← line]
          simp

variable {text : Text}

theorem unlines_lines (unpaired : Unpaired text) (ended : text = [] ∨ EndsInLine text) :
    unlines (lines text) = text := by
  rcases ended with rfl | ended
  · rfl
  · have flat := splitInclusive_flatten '\n' text
    have whole := unlines_pieces (splitInclusive_pieces text) (flat.symm ▸ unpaired) (flat.symm ▸ ended)
    exact whole.trans flat

theorem piece_infix {text piece : Text} (member : piece ∈ splitInclusive '\n' text) :
    piece <:+: text ∧ piece ≠ [] ∧ '\n' ∉ piece.dropLast := by
  obtain ⟨front, back, shape⟩ := List.append_of_mem member
  have pieces := splitInclusive_pieces text
  rw [shape] at pieces
  refine ⟨⟨front.flatten, back.flatten, ?_⟩, pieces_head (pieces_suffix (List.suffix_append front _) pieces)⟩
  rw [← splitInclusive_flatten '\n' text, shape]
  simp

theorem stripped_unbroken {text piece : Text} (unpaired : Unpaired text)
    (member : piece ∈ splitInclusive '\n' text) (ended : EndsInLine piece) : Unbroken (stripTerminator piece) := by
  obtain ⟨within, -, clean⟩ := piece_infix member
  exact piece_unbroken (unpaired.part within) clean ended

theorem lines_unbroken (unpaired : Unpaired text) (ended : EndsInLine text) :
    ∀ line ∈ lines text, Unbroken line := by
  intro line member
  obtain ⟨piece, within, rfl⟩ := List.mem_map.mp member
  apply stripped_unbroken unpaired within
  have shape := splitInclusive_pieces text
  rcases List.eq_nil_or_concat' (splitInclusive '\n' text) with none' | ⟨front, last, whole⟩
  · simp [none'] at within
  · have final := pieces_flatten_last shape
    rw [splitInclusive_flatten, ended, whole, List.getLast?_concat, Option.bind_some] at final
    have early := pieces_ended shape
    rw [whole, List.dropLast_concat] at early
    rw [whole, List.mem_append, List.mem_singleton] at within
    rcases within with before | rfl
    · exact early piece before
    · exact final.symm

theorem lines_firm (unended : ¬ EndsInLine text) : Firm (lines text) := by
  have shape := splitInclusive_pieces text
  have last := pieces_flatten_last shape
  rw [splitInclusive_flatten] at last
  unfold Firm lines
  rw [List.getLast?_map]
  cases piece : (splitInclusive '\n' text).getLast? with
  | none => simp
  | some final =>
      simp only [piece, Option.bind_some] at last
      have unended' : ¬ EndsInLine final := fun ended => unended (last.trans ended)
      rw [Option.map_some, stripTerminator_unended unended']
      intro empty
      have member := List.mem_of_getLast? piece
      rw [Option.some.inj empty] at member
      obtain ⟨front, back, within⟩ := List.append_of_mem member
      rw [within] at shape
      exact (pieces_head (pieces_suffix (List.suffix_append front _) shape)).1 rfl

theorem lines_joinable (unpaired : Unpaired text) (unended : ¬ EndsInLine text) :
    Joinable (lines text) := by
  refine ⟨lines_clean text, ?_, lines_firm unended⟩
  intro line member
  rw [lines, ← List.map_dropLast] at member
  obtain ⟨piece, within, rfl⟩ := List.mem_map.mp member
  exact stripped_unbroken unpaired (List.dropLast_subset _ within)
    (pieces_ended (splitInclusive_pieces text) piece within)

theorem joinLines_pieces (shape : Pieces pieces) (unpaired : Unpaired pieces.flatten)
    (unended : ¬ EndsInLine pieces.flatten) :
    joinLines (pieces.map stripTerminator) = pieces.flatten := by
  induction pieces with
  | nil => rfl
  | cons first rest ih =>
      rw [List.flatten_cons] at unpaired
      have head := unpaired.part (List.prefix_append first _).isInfix
      have tail := unpaired.part (List.suffix_append first _).isInfix
      cases rest with
      | nil =>
          have unended : ¬ EndsInLine first := by simpa using unended
          simp [stripTerminator_unended unended]
      | cons second rest =>
          have unended' : ¬ EndsInLine (second :: rest).flatten := by
            intro ended
            apply unended
            rw [EndsInLine, pieces_flatten_last shape, ← ended, pieces_flatten_last shape.2]
            simp
          have line := stripTerminator_append head shape.1.1
          have later := ih shape.2 tail unended'
          rw [List.map_cons] at later
          rw [List.map_cons, List.map_cons, joinLines_cons_cons, later, List.flatten_cons]
          conv_rhs => rw [← line]
          simp

theorem joinLines_lines (unpaired : Unpaired text) (unended : ¬ EndsInLine text) :
    joinLines (lines text) = text := by
  have flat := splitInclusive_flatten '\n' text
  have whole := joinLines_pieces (splitInclusive_pieces text) (flat.symm ▸ unpaired) (flat.symm ▸ unended)
  exact whole.trans flat

theorem lines_cons_line {line : Text} (clean : '\n' ∉ line) (rest : Text) :
    lines (line ++ '\n' :: rest) = stripTerminator (line ++ ['\n']) :: lines rest := by
  have split := @splitInclusive_append_line (line ++ ['\n']) rest (by simp) (by simpa using clean)
  rw [List.append_assoc, List.singleton_append] at split
  rw [lines, split, List.map_cons]
  rfl

theorem filter_lines {keep : Text → Bool} (blank : keep [] = false) (text : Text)
    (firm : ∀ piece ∈ text.splitOn '\n', piece.getLast? ≠ some '\r') :
    (lines text).filter keep = (text.splitOn '\n').filter keep := by
  induction length : text.length using Nat.strong_induction_on generalizing text with
  | _ size ih =>
      by_cases within : '\n' ∈ text
      · obtain ⟨front, back, rfl, clean⟩ := List.eq_append_cons_of_mem within
        rw [List.splitOn_append_cons_self, List.splitOn_eq_singleton clean, List.singleton_append] at firm ⊢
        have last := stripTerminator_ended (firm front List.mem_cons_self)
        have later := ih back.length (by simp [← length]; omega) back
          (fun piece member => firm piece (List.mem_cons_of_mem _ member)) rfl
        rw [lines_cons_line clean, last, List.filter_cons, List.filter_cons, later]
      · rw [List.splitOn_eq_singleton within]
        by_cases empty : text = []
        · simp [empty, lines, splitInclusive, blank]
        · have unended : ¬ EndsInLine text := fun ended => within (List.mem_of_getLast? ended)
          have clean : '\n' ∉ text.dropLast := fun member => within (List.dropLast_subset _ member)
          rw [lines, splitInclusive_last empty clean, List.map_singleton, stripTerminator_unended unended]

end Joining

end Text
