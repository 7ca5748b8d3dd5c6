import Mathlib

set_option autoImplicit false

namespace TornLog

universe u v

/-- How records become lines. A piece of a line is no record. -/
structure LineCodec (α : Type u) (R : Type v) where
  separator : α
  encode : R → List α
  decode : List α → Option R
  decode_encode : ∀ record, decode (encode record) = some record
  one_line : ∀ record, separator ∉ encode record
  blank : decode [] = none
  torn : ∀ record front lost, encode record = front ++ lost → lost ≠ [] → decode front = none

variable {α : Type u} {R : Type v} [DecidableEq α] (codec : LineCodec α R)

/-- Lines that are no records are passed over. -/
def read (file : List α) : List R := (file.splitOn codec.separator).filterMap codec.decode

def line (record : R) : List α := codec.encode record ++ [codec.separator]

def render (records : List R) : List α := records.flatMap (line codec)

def unended (file : List α) : Bool := (file.getLast?.map fun last => decide (last ≠ codec.separator)).getD false

def heal (file line : List α) : List α := if unended codec file then codec.separator :: line else line

def Lands (file : List α) (record : R) (written : Nat) : Prop :=
  (heal codec file (line codec record)).length ≤ written + 1

instance (file : List α) (record : R) (written : Nat) : Decidable (Lands codec file record written) :=
  inferInstanceAs (Decidable (_ ≤ _))

def append (file : List α) (record : R) (written : Nat) : List α :=
  file ++ (heal codec file (line codec record)).take written

section Reading

@[simp] theorem read_nil : read codec [] = [] := by
  simp [read, codec.blank]

theorem read_append_separator (front back : List α) :
    read codec (front ++ codec.separator :: back) = read codec front ++ read codec back := by
  rw [read, List.splitOn_append_cons_self, List.filterMap_append]
  rfl

theorem read_line {line : List α} (oneLine : codec.separator ∉ line) : read codec line = (codec.decode line).toList := by
  rw [read, List.splitOn_eq_singleton oneLine]
  cases found : codec.decode line <;> simp [found]

theorem read_encode (record : R) : read codec (codec.encode record) = [record] := by
  rw [read_line codec (codec.one_line record), codec.decode_encode]
  rfl

theorem read_take (record : R) (written : Nat) :
    read codec ((line codec record).take written) = if (codec.encode record).length ≤ written then [record] else [] := by
  unfold line
  rw [List.take_append]
  by_cases whole : (codec.encode record).length ≤ written
  · rw [if_pos whole, List.take_of_length_le whole]
    cases rest : written - (codec.encode record).length with
    | zero => simpa using read_encode codec record
    | succ more => simpa [read_encode] using read_append_separator codec (codec.encode record) []
  · have short : written < (codec.encode record).length := Nat.lt_of_not_le whole
    have split : codec.encode record = (codec.encode record).take written ++ (codec.encode record).drop written :=
      (List.take_append_drop written _).symm
    have lost : (codec.encode record).drop written ≠ [] := by simpa [List.drop_eq_nil_iff] using short
    have oneLine : codec.separator ∉ (codec.encode record).take written :=
      fun within => codec.one_line record (List.mem_of_mem_take within)
    rw [if_neg whole, Nat.sub_eq_zero_of_le (Nat.le_of_lt short), List.take_zero, List.append_nil,
      read_line codec oneLine, codec.torn record _ _ split lost]
    rfl

theorem ended_cases {file : List α} (ended : unended codec file = false) :
    file = [] ∨ ∃ front, file = front ++ [codec.separator] := by
  rcases List.eq_nil_or_concat file with rfl | ⟨front, last, rfl⟩
  · exact Or.inl rfl
  · have same : last = codec.separator := by simpa [unended] using ended
    exact Or.inr ⟨front, by rw [same, List.concat_eq_append]⟩

theorem read_ended {file : List α} (ended : unended codec file = false) (more : List α) :
    read codec (file ++ more) = read codec file ++ read codec more := by
  rcases ended_cases codec ended with rfl | ⟨front, rfl⟩
  · simp
  · have alone := read_append_separator codec front []
    rw [List.append_assoc, List.singleton_append, read_append_separator, alone, read_nil, List.append_nil]

theorem heal_ended {file : List α} (ended : unended codec file = false) (line : List α) : heal codec file line = line := by
  simp [heal, ended]

theorem heal_unended {file : List α} (torn : unended codec file = true) (line : List α) :
    heal codec file line = codec.separator :: line := by
  simp [heal, torn]

/-- What was read before is read again, and the record as soon as all but its separator is there. -/
theorem read_append (file : List α) (record : R) (written : Nat) :
    read codec (append codec file record written) =
      read codec file ++ if Lands codec file record written then [record] else [] := by
  have size : (line codec record).length = (codec.encode record).length + 1 := by simp [line]
  by_cases torn : unended codec file = true
  · have same : Lands codec file record written ↔ (codec.encode record).length + 1 ≤ written := by
      rw [Lands, heal_unended codec torn, List.length_cons, size, Nat.add_le_add_iff_right]
    simp only [same, append, heal_unended codec torn]
    cases written with
    | zero => simp
    | succ written =>
        rw [List.take_succ_cons, read_append_separator, read_take]
        simp only [Nat.add_le_add_iff_right]
  · have ended : unended codec file = false := by simpa using torn
    have same : Lands codec file record written ↔ (codec.encode record).length ≤ written := by
      rw [Lands, heal_ended codec ended, size, Nat.add_le_add_iff_right]
    simp only [same, append, heal_ended codec ended]
    rw [read_ended codec ended, read_take]

end Reading

section Rendering

omit [DecidableEq α] in
@[simp] theorem render_nil : render codec [] = [] := rfl

omit [DecidableEq α] in
@[simp] theorem render_cons (record : R) (rest : List R) :
    render codec (record :: rest) = line codec record ++ render codec rest := rfl

@[simp] theorem read_render (records : List R) : read codec (render codec records) = records := by
  induction records with
  | nil => simp
  | cons record rest ih =>
      rw [render_cons, line, List.append_assoc, List.singleton_append, read_append_separator, read_encode, ih]
      rfl

end Rendering

section Cutting

def WellTorn (file : List α) : Prop :=
  ∀ piece ∈ file.splitOn codec.separator, piece = [] ∨ ∃ record lost, codec.encode record = piece ++ lost

theorem wellTorn_nil : WellTorn codec [] := by
  simp [WellTorn]

theorem wellTorn_separator {front back : List α} :
    WellTorn codec (front ++ codec.separator :: back) ↔ WellTorn codec front ∧ WellTorn codec back := by
  simp only [WellTorn, List.splitOn_append_cons_self, List.mem_append, or_imp, forall_and]

theorem wellTorn_line {piece : List α} (oneLine : codec.separator ∉ piece) :
    WellTorn codec piece ↔ piece = [] ∨ ∃ record lost, codec.encode record = piece ++ lost := by
  simp [WellTorn, List.splitOn_eq_singleton oneLine]

theorem wellTorn_take_line (record : R) (written : Nat) : WellTorn codec ((line codec record).take written) := by
  have oneLine : codec.separator ∉ (codec.encode record).take written :=
    fun within => codec.one_line record (List.mem_of_mem_take within)
  have begun : WellTorn codec ((codec.encode record).take written) :=
    (wellTorn_line codec oneLine).mpr (Or.inr ⟨record, _, (List.take_append_drop written _).symm⟩)
  rw [line, List.take_append]
  cases written - (codec.encode record).length with
  | zero => simpa using begun
  | succ more =>
      rw [List.take_succ_cons, List.take_nil]
      exact (wellTorn_separator codec).mpr ⟨begun, wellTorn_nil codec⟩

theorem wellTorn_append {file : List α} (torn : WellTorn codec file) (record : R) (written : Nat) :
    WellTorn codec (append codec file record written) := by
  unfold append
  by_cases open' : unended codec file = true
  · rw [heal_unended codec open']
    cases written with
    | zero => simpa using torn
    | succ written =>
        rw [List.take_succ_cons]
        exact (wellTorn_separator codec).mpr ⟨torn, wellTorn_take_line codec record written⟩
  · have ended : unended codec file = false := by simpa using open'
    rw [heal_ended codec ended]
    rcases ended_cases codec ended with rfl | ⟨front, rfl⟩
    · exact wellTorn_take_line codec record written
    · rw [List.append_assoc, List.singleton_append]
      exact (wellTorn_separator codec).mpr
        ⟨((wellTorn_separator codec).mp torn).1, wellTorn_take_line codec record written⟩

theorem split_last (file : List α) :
    codec.separator ∉ file ∨ ∃ front last, file = front ++ codec.separator :: last ∧ codec.separator ∉ last := by
  by_cases within : codec.separator ∈ file
  · obtain ⟨last, front, split, oneLine⟩ := List.eq_append_cons_of_mem (List.mem_reverse.mpr within)
    refine Or.inr ⟨front.reverse, last.reverse, ?_, by simpa using oneLine⟩
    have reversed := congrArg List.reverse split
    simpa using reversed
  · exact Or.inl within

end Cutting

section Strict

def Whole (file : List α) : Prop := ∀ piece ∈ file.splitOn codec.separator, piece = [] ∨ (codec.decode piece).isSome = true

theorem whole_separator {front back : List α} :
    Whole codec (front ++ codec.separator :: back) ↔ Whole codec front ∧ Whole codec back := by
  simp only [Whole, List.splitOn_append_cons_self, List.mem_append, or_imp, forall_and]

theorem whole_nil : Whole codec [] := by
  simp [Whole]

theorem whole_encode (record : R) : Whole codec (codec.encode record) := by
  simp [Whole, List.splitOn_eq_singleton (codec.one_line record), codec.decode_encode]

theorem whole_take (record : R) {written : Nat} (all : (codec.encode record).length ≤ written) :
    Whole codec ((line codec record).take written) := by
  rw [line, List.take_append, List.take_of_length_le all]
  cases written - (codec.encode record).length with
  | zero => simpa using whole_encode codec record
  | succ more =>
      rw [List.take_succ_cons, List.take_nil]
      exact (whole_separator codec).mpr ⟨whole_encode codec record, whole_nil codec⟩

/-- An append ends no line otherwise than it was, and a record that lands can be read. -/
theorem whole_append (file : List α) (record : R) (written : Nat) :
    (Whole codec (append codec file record written) → Whole codec file) ∧
      (Whole codec file → Lands codec file record written → Whole codec (append codec file record written)) := by
  have size : (line codec record).length = (codec.encode record).length + 1 := by simp [line]
  unfold append Lands
  by_cases torn : unended codec file = true
  · rw [heal_unended codec torn]
    cases written with
    | zero => exact ⟨fun whole => by simpa using whole, fun whole _ => by simpa using whole⟩
    | succ written =>
        rw [List.take_succ_cons, whole_separator, List.length_cons, size]
        exact ⟨And.left, fun whole lands => ⟨whole, whole_take codec record (by omega)⟩⟩
  · have ended : unended codec file = false := by simpa using torn
    rw [heal_ended codec ended, size]
    rcases ended_cases codec ended with rfl | ⟨front, rfl⟩
    · exact ⟨fun _ => whole_nil codec, fun _ lands => whole_take codec record (by omega)⟩
    · rw [List.append_assoc, List.singleton_append, whole_separator, whole_separator]
      exact ⟨fun whole => ⟨whole.1, whole_nil codec⟩, fun whole lands => ⟨whole.1, whole_take codec record (by omega)⟩⟩

end Strict

end TornLog
