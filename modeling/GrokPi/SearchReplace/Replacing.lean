import GrokPi.Shared.Occurrences

set_option autoImplicit false

namespace GrokPi.SearchReplace

open Text

structure Span where
  start : Nat
  len : Nat
  deriving DecidableEq

def Span.stop (span : Span) : Nat := span.start + span.len

-- Nothing where a slice of the text would panic.
def replaceSpansFrom (text newString : Text) (lastEnd : Nat) (result : Text) (positions : List Nat) :
    List Span → Option (Text × List Nat)
  | [] => (splitAtByte text lastEnd).map fun parts => (result ++ parts.2, positions)
  | span :: rest =>
      (slice text lastEnd span.start).bind fun gap =>
        replaceSpansFrom text newString span.stop (result ++ gap ++ newString)
          (positions ++ [byteLen (result ++ gap)]) rest

def replaceUsingPositions (text : Text) (matchPositions : List Nat) (oldString newString : Text) :
    Option (Text × List Nat) :=
  replaceSpansFrom text newString 0 [] []
    (matchPositions.map fun position =>
      { start := position
        len := byteLen oldString })

def Reads (text : Text) (span : Span) (part : Text) : Prop :=
  ∃ front back, text = front ++ part ++ back ∧ byteLen front = span.start ∧ byteLen part = span.len

def Apart (spans : List Span) : Prop := spans.Pairwise fun a b => a.stop ≤ b.start

structure Woven (text newString : Text) (spans : List Span) (replaced : Option (Text × List Nat))
    (parts : List (Text × Text)) (tail : Text) : Prop where
  text : text = weave id parts tail
  starts : spans.map Span.start = startsOf id 0 parts
  lengths : spans.map Span.len = parts.map fun part => byteLen part.2
  replaced : replaced = some (weave (fun _ => newString) parts tail, startsOf (fun _ => newString) 0 parts)

theorem texts_read {text : Text} {spans : List Span} (read : ∀ span ∈ spans, ∃ part, Reads text span part) :
    ∃ texts, List.Forall₂ (Reads text) spans texts := by
  induction spans with
  | nil => exact ⟨[], .nil⟩
  | cons span rest ih =>
      obtain ⟨part, here⟩ := read span List.mem_cons_self
      obtain ⟨texts, later⟩ := ih fun other member => read other (List.mem_cons_of_mem _ member)
      exact ⟨part :: texts, .cons here later⟩

theorem replaceSpansFrom_weave (newString : Text) {spans : List Span} {texts : List Text} (done rest result : Text)
    (positions : List Nat) (reads : List.Forall₂ (Reads (done ++ rest)) spans texts) (apart : Apart spans)
    (behind : ∀ span ∈ spans, byteLen done ≤ span.start) :
    ∃ parts tail, rest = weave id parts tail ∧ parts.map Prod.snd = texts ∧
      spans.map Span.start = startsOf id (byteLen done) parts ∧
        replaceSpansFrom (done ++ rest) newString (byteLen done) result positions spans =
          some (result ++ weave (fun _ => newString) parts tail,
            positions ++ startsOf (fun _ => newString) (byteLen result) parts) := by
  -- The walk over the spans, from what is done already.
  induction spans generalizing texts done rest result positions with
  | nil =>
      cases reads
      refine ⟨[], rest, rfl, rfl, rfl, ?_⟩
      rw [replaceSpansFrom, splitAtByte_append]
      simp [weave, startsOf]
  | cons span later ih =>
      obtain ⟨after, apart⟩ := List.pairwise_cons.mp apart
      obtain ⟨part, texts', read, others, rfl⟩ := List.forall₂_cons_left_iff.mp reads
      obtain ⟨front, back, whole, start, length⟩ := read
      obtain ⟨gap, rfl, rfl⟩ := cuts_nested (a := done) (b := rest) (c := front) (d := part ++ back)
        (whole.trans (List.append_assoc _ _ _)) (start ▸ behind span List.mem_cons_self)
      have next : done ++ (gap ++ (part ++ back)) = (done ++ gap ++ part) ++ back := by simp
      have stop : byteLen (done ++ gap ++ part) = span.stop := by
        rw [byteLen_append, start, length]
        rfl
      obtain ⟨parts, tail, rfl, same, starts, replaced⟩ :=
        ih (done ++ gap ++ part) back (result ++ gap ++ newString) (positions ++ [byteLen (result ++ gap)])
          (next ▸ others) apart (fun other member => stop ▸ after other member)
      refine ⟨(gap, part) :: parts, tail, by simp [weave], by rw [List.map_cons, same], ?_, ?_⟩
      · rw [List.map_cons, starts, startsOf, ← start, byteLen_append, byteLen_append, byteLen_append]
        rfl
      · have cut : slice (done ++ (gap ++ (part ++ weave id parts tail))) (byteLen done) span.start = some gap := by
          rw [← start, byteLen_append, ← List.append_assoc]
          exact slice_middle done gap _
        rw [replaceSpansFrom, cut, Option.bind_some, ← stop, next, replaced]
        simp [weave, startsOf, Nat.add_assoc]

theorem replaceSpans_woven (text newString : Text) {spans : List Span} {texts : List Text}
    (reads : List.Forall₂ (Reads text) spans texts) (apart : Apart spans) :
    ∃ parts tail, Woven text newString spans (replaceSpansFrom text newString 0 [] [] spans) parts tail ∧
      parts.map Prod.snd = texts := by
  obtain ⟨parts, tail, whole, same, starts, replaced⟩ :=
    replaceSpansFrom_weave newString [] text [] [] reads apart (fun _ _ => Nat.zero_le _)
  refine ⟨parts, tail, ⟨whole, starts, ?_, replaced⟩, same⟩
  have lengths : spans.map Span.len = texts.map byteLen := by
    clear starts replaced apart same
    induction reads with
    | nil => rfl
    | cons read _ ih =>
        obtain ⟨-, -, -, -, length⟩ := read
        rw [List.map_cons, List.map_cons, ih, length]
  rw [lengths, ← same, List.map_map]
  rfl

end GrokPi.SearchReplace
