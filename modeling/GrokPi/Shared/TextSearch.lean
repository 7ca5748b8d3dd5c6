import GrokPi.Shared.Text

set_option autoImplicit false

namespace Text

def rfind (needle : Text) : Text → Option Nat
  | [] => if needle.isEmpty then some 0 else none
  | c :: rest =>
      match rfind needle rest with
      | some at' => some (at' + 1)
      | none => if needle.isPrefixOf (c :: rest) then some 0 else none

section Find

variable {needle text : Text} {at' : Nat}

theorem find_eq_none : find needle text = none ↔ ¬needle <:+: text := by
  induction text with
  | nil => simp [find, List.infix_nil]
  | cons c rest ih =>
      rw [find, List.infix_cons_iff, not_or, ← ih]
      split
      next found => simp [List.isPrefixOf_iff_prefix.mp found]
      next missed =>
        rw [List.isPrefixOf_iff_prefix] at missed
        simp [missed]

theorem find_some (found : find needle text = some at') : needle <+: text.drop at' := by
  induction text generalizing at' with
  | nil =>
      simp only [find] at found
      split at found
      next empty => simp [List.isEmpty_iff.mp empty]
      next => cases found
  | cons c rest ih =>
      simp only [find] at found
      split at found
      next here =>
        cases found
        exact List.isPrefixOf_iff_prefix.mp here
      next =>
        obtain ⟨later, found', rfl⟩ := Option.map_eq_some_iff.mp found
        exact ih found'

theorem rfind_some (found : rfind needle text = some at') : needle <+: text.drop at' := by
  induction text generalizing at' with
  | nil =>
      simp only [rfind] at found
      split at found
      next empty => simp [List.isEmpty_iff.mp empty]
      next => cases found
  | cons c rest ih =>
      simp only [rfind] at found
      split at found
      next later found' =>
        cases found
        exact ih found'
      next =>
        split at found
        next here =>
          cases found
          exact List.isPrefixOf_iff_prefix.mp here
        next => cases found

theorem rfind_char_none {c : Char} {text : Text} (free : c ∉ text) : rfind [c] text = none := by
  induction text with
  | nil => rfl
  | cons first rest ih =>
      rw [List.mem_cons, not_or] at free
      rw [rfind, ih free.2]
      simp [free.1]

theorem rfind_char_last {c : Char} {back : Text} (free : c ∉ back) (front : Text) :
    rfind [c] (front ++ c :: back) = some front.length := by
  induction front with
  | nil =>
      rw [List.nil_append, rfind, rfind_char_none free]
      simp
  | cons first front ih =>
      rw [List.cons_append, rfind, ih]
      rfl

theorem split_at_last {c : Char} {text : Text} (member : c ∈ text) :
    ∃ front back, text = front ++ c :: back ∧ c ∉ back := by
  obtain ⟨front, back, split, free⟩ := List.eq_append_cons_of_mem (List.mem_reverse.mpr member)
  refine ⟨back.reverse, front.reverse, ?_, by simpa using free⟩
  rw [← List.reverse_reverse text, split]
  simp

theorem prefix_drop_length (here : needle <+: text.drop at') (some' : needle ≠ []) :
    at' + needle.length ≤ text.length := by
  have length := here.length_le
  have positive := List.length_pos_iff.mpr some'
  rw [List.length_drop] at length
  omega

theorem matches_apart {d : Char} {first second : Text} {i j : Nat} (once : d ∉ first)
    (left : (d :: first) <+: text.drop i) (right : (d :: second) <+: text.drop j) (before : i < j) :
    i + (first.length + 1) ≤ j := by
  -- Two matches whose first character occurs nowhere else in the first needle do not meet.
  by_contra meets
  obtain ⟨back, whole⟩ := left
  obtain ⟨back', whole'⟩ := right
  have start : text[j]? = some d := by
    have head := congrArg List.head? whole'
    rw [List.head?_drop] at head
    exact head.symm
  have inside : text[j]? = first[j - i - 1]? := by
    have position : j = i + (j - i) := by omega
    obtain ⟨offset, same⟩ : ∃ offset, j - i = offset + 1 := ⟨j - i - 1, by omega⟩
    rw [position, ← List.getElem?_drop, ← whole, same, List.cons_append, List.getElem?_cons_succ,
      List.getElem?_append_left (by omega)]
    congr 1
    omega
  rw [inside] at start
  exact once (List.mem_of_getElem? start)

theorem find_behind {d : Char} {tail front : Text} (once : d ∉ tail) (absent : ¬(d :: tail) <:+: front) (back : Text) :
    find (d :: tail) (front ++ (d :: tail ++ back)) = some front.length := by
  -- Behind a front without a match, a needle that begins but once is found where it stands.
  induction front with
  | nil =>
      have here : (d :: tail).isPrefixOf (d :: (tail ++ back)) = true := List.isPrefixOf_iff_prefix.mpr ⟨back, rfl⟩
      rw [List.nil_append, List.cons_append, find, if_pos here]
      rfl
  | cons c front ih =>
      rw [List.infix_cons_iff, not_or] at absent
      have missed : ¬(d :: tail) <+: c :: front ++ (d :: tail ++ back) := by
        intro first
        have apart := @matches_apart (c :: front ++ (d :: tail ++ back)) d tail tail 0 (c :: front).length once first
          (by rw [List.drop_left]; exact ⟨back, rfl⟩) (by simp)
        exact absent.1 (List.prefix_of_prefix_length_le first (List.prefix_append _ _) (by simpa using apart))
      rw [List.cons_append, find, if_neg (by rwa [List.isPrefixOf_iff_prefix]), ih absent.2]
      rfl

theorem find_append (found : find needle text = some at') (more : Text) : find needle (text ++ more) = some at' := by
  -- What comes behind a match does not move it.
  induction text generalizing at' with
  | nil =>
      simp only [find] at found
      split at found
      next empty =>
        cases found
        rw [List.isEmpty_iff.mp empty]
        cases more <;> rfl
      next => cases found
  | cons c rest ih =>
      simp only [find] at found
      rw [List.cons_append, find]
      split at found
      next here =>
        cases found
        rw [List.isPrefixOf_iff_prefix] at here
        exact if_pos (List.isPrefixOf_iff_prefix.mpr (here.trans (List.prefix_append (c :: rest) more)))
      next missed =>
        obtain ⟨later, found', rfl⟩ := Option.map_eq_some_iff.mp found
        have inside := find_some found'
        have short : needle.length ≤ rest.length := inside.length_le.trans (by simp)
        have still : ¬needle.isPrefixOf (c :: (rest ++ more)) = true := by
          intro first
          rw [List.isPrefixOf_iff_prefix] at first missed
          refine missed (List.prefix_of_prefix_length_le first (List.prefix_append (c :: rest) more) ?_)
          rw [List.length_cons]
          omega
        rw [if_neg still, ih found']
        rfl

theorem find_first {d : Char} {tail : Text} (found : find (d :: tail) text = some at') :
    ¬(d :: tail) <:+: text.take at' := by
  -- Nothing is found in front of the first match.
  induction text generalizing at' with
  | nil => simp
  | cons c rest ih =>
      simp only [find] at found
      split at found
      next =>
        cases found
        simp
      next missed =>
        obtain ⟨later, found', rfl⟩ := Option.map_eq_some_iff.mp found
        rw [List.isPrefixOf_iff_prefix] at missed
        rw [List.take_succ_cons, List.infix_cons_iff, not_or]
        refine ⟨?_, ih found'⟩
        intro first
        exact missed (first.trans (List.take_prefix (later + 1) (c :: rest)))

theorem infix_before {z : Char} {start gap : Text} (other : z ∉ gap) (present : start ++ [z] <:+: text ++ gap) :
    start ++ [z] <:+: text := by
  -- A needle that ends otherwise is not found by way of blanks behind a text.
  obtain ⟨front, back, whole⟩ := present
  rcases List.append_eq_append_iff.mp whole with ⟨middle, rest, _⟩ | ⟨middle, rest, rest'⟩
  · rw [rest]
    exact ⟨front, middle, rfl⟩
  · rcases List.eq_nil_or_concat middle with rfl | ⟨middle, last, rfl⟩
    · rw [List.append_nil] at rest
      rw [← rest]
      exact (List.suffix_append _ _).isInfix
    · have same : last = z := by
        have ends := congrArg List.getLast? rest
        simpa using ends.symm
      rw [rest', same] at other
      simp at other

end Find

section Replace

variable (needle replacement : Text)

@[simp] theorem replace_nil : replace [] needle replacement = [] := rfl

theorem replaceFrom_skip (skip : Nat) (text : Text) :
    replaceFrom needle replacement skip text = replace (text.drop skip) needle replacement := by
  induction skip generalizing text with
  | zero => rfl
  | succ skip ih =>
      cases text with
      | nil => rfl
      | cons c rest => exact ih rest

variable {needle replacement}

theorem replace_hit (some' : needle ≠ []) (back : Text) :
    replace (needle ++ back) needle replacement = replacement ++ replace back needle replacement := by
  cases needle with
  | nil => exact absurd rfl some'
  | cons d tail =>
      have here : (d :: tail).isPrefixOf (d :: (tail ++ back)) = true :=
        List.isPrefixOf_iff_prefix.mpr ⟨back, rfl⟩
      rw [List.cons_append, replace, replaceFrom, if_pos here, replaceFrom_skip]
      simp

theorem replace_miss {c : Char} {rest : Text} (missed : ¬needle <+: c :: rest) :
    replace (c :: rest) needle replacement = c :: replace rest needle replacement := by
  rw [← List.isPrefixOf_iff_prefix] at missed
  rw [replace, replaceFrom, if_neg missed]
  rfl

theorem replace_induction (some' : needle ≠ []) {motive : Text → Prop} (nil : motive [])
    (hit : ∀ back, motive back → motive (needle ++ back))
    (miss : ∀ c rest, ¬needle <+: c :: rest → motive rest → motive (c :: rest)) (text : Text) :
    motive text := by
  -- The scan passes a match as a whole and everything else by one character.
  induction length : text.length using Nat.strong_induction_on generalizing text with
  | _ n ih =>
      by_cases here : needle <+: text
      · obtain ⟨back, rfl⟩ := here
        have positive := List.length_pos_iff.mpr some'
        rw [List.length_append] at length
        exact hit back (ih back.length (by omega) back rfl)
      · cases text with
        | nil => exact nil
        | cons c rest =>
            rw [List.length_cons] at length
            exact miss c rest here (ih rest.length (by omega) rest rfl)

theorem replace_untouched {text : Text} (absent : ¬needle <:+: text) :
    replace text needle replacement = text := by
  induction text with
  | nil => rfl
  | cons c rest ih =>
      rw [List.infix_cons_iff, not_or] at absent
      rw [replace_miss absent.1, ih absent.2]

theorem replace_length_le (some' : needle ≠ []) (shorter : replacement.length ≤ needle.length)
    (text : Text) : (replace text needle replacement).length ≤ text.length := by
  induction text using replace_induction some' with
  | nil => exact Nat.le_refl _
  | hit back ih =>
      rw [replace_hit some', List.length_append, List.length_append]
      omega
  | miss c rest missed ih =>
      rw [replace_miss missed, List.length_cons, List.length_cons]
      omega

theorem replace_length_lt (some' : needle ≠ []) (shorter : replacement.length < needle.length)
    {text : Text} (present : needle <:+: text) :
    (replace text needle replacement).length < text.length := by
  induction text using replace_induction some' with
  | nil => exact absurd (List.infix_nil.mp present) some'
  | hit back ih =>
      have rest := replace_length_le some' (Nat.le_of_lt shorter) back
      rw [replace_hit some', List.length_append, List.length_append]
      omega
  | miss c rest missed ih =>
      rcases List.infix_cons_iff.mp present with here | later
      · exact absurd here missed
      · have step := ih later
        rw [replace_miss missed, List.length_cons, List.length_cons]
        omega

theorem infix_behind {d : Char} {tail front back : Text} (free : d ∉ front)
    (present : (d :: tail) <:+: front ++ back) : (d :: tail) <:+: back := by
  -- Behind a front without its first character, a needle is found where it is found without it.
  induction front with
  | nil => exact present
  | cons c front ih =>
      rw [List.mem_cons, not_or] at free
      rcases List.infix_cons_iff.mp present with here | later
      · exact absurd (List.cons_prefix_cons.mp here).1 free.1
      · exact ih free.2 later

variable {r : Char} {rest' : Text}

theorem prefix_of_replace (some' : needle ≠ []) {start : Text} (free : r ∉ start) {text : Text}
    (present : start <+: replace text needle (r :: rest')) : start <+: text := by
  -- What comes before any replacement was there before.
  induction text using replace_induction some' generalizing start with
  | nil => exact present
  | hit back ih =>
      rw [replace_hit some'] at present
      cases start with
      | nil => exact List.nil_prefix
      | cons c start =>
          rw [List.cons_append, List.cons_prefix_cons] at present
          exact absurd (present.1 ▸ List.mem_cons_self) free
  | miss c rest missed ih =>
      rw [replace_miss missed] at present
      cases start with
      | nil => exact List.nil_prefix
      | cons c' start =>
          rw [List.mem_cons, not_or] at free
          rw [List.cons_prefix_cons] at present ⊢
          exact ⟨present.1, ih free.2 present.2⟩

theorem infix_of_replace (some' : needle ≠ []) {d : Char} {tail text : Text} (free : r ∉ tail)
    (opens : ∀ back, (d :: tail) <:+: (r :: rest') ++ back → (d :: tail) <:+: back)
    (present : (d :: tail) <:+: replace text needle (r :: rest')) : (d :: tail) <:+: text := by
  -- A replacement that opens no match of its own makes no new match of another needle.
  induction text using replace_induction some' with
  | nil => exact present
  | hit back ih =>
      rw [replace_hit some'] at present
      exact (ih (opens _ present)).trans (List.suffix_append needle back).isInfix
  | miss c rest missed ih =>
      rw [replace_miss missed] at present
      rcases List.infix_cons_iff.mp present with here | later
      · rw [List.cons_prefix_cons] at here
        have start := prefix_of_replace some' free here.2
        exact List.infix_cons_iff.mpr (.inl (List.cons_prefix_cons.mpr ⟨here.1, start⟩))
      · exact List.infix_cons_iff.mpr (.inr (ih later))

end Replace

section Marked

variable {d z : Char} {tail other : Text}

theorem marked_opens (once : d ∉ tail) (differ : d ≠ z) (some' : other ≠ []) (unmarked : z ∉ other)
    (back : Text) (present : (d :: other) <:+: (d :: z :: tail) ++ back) :
    (d :: other) <:+: back := by
  -- A needle whose first character is split off by a mark opens no match of any needle of that first character that
  -- holds no mark.
  rcases List.infix_cons_iff.mp present with here | later
  · cases other with
    | nil => exact absurd rfl some'
    | cons c other =>
        have second := (List.cons_prefix_cons.mp (List.cons_prefix_cons.mp here).2).1
        exact absurd (second ▸ List.mem_cons_self) unmarked
  · refine infix_behind ?_ later
    rw [List.mem_cons, not_or]
    exact ⟨differ, once⟩

theorem marked_absent (once : d ∉ tail) (differ : d ≠ z) (some' : tail ≠ []) (unmarked : z ∉ tail)
    (text : Text) : ¬(d :: tail) <:+: replace text (d :: tail) (d :: z :: tail) := by
  -- Marking the matches of a needle leaves none of them, and makes none of another needle.
  have nonempty : d :: tail ≠ [] := List.cons_ne_nil _ _
  induction text using replace_induction nonempty with
  | nil => simp
  | hit back ih =>
      rw [replace_hit nonempty]
      exact fun present => ih (marked_opens once differ some' unmarked _ present)
  | miss c rest missed ih =>
      rw [replace_miss missed]
      intro present
      rcases List.infix_cons_iff.mp present with here | later
      · rw [List.cons_prefix_cons] at here
        exact missed (List.cons_prefix_cons.mpr ⟨here.1, prefix_of_replace nonempty once here.2⟩)
      · exact ih later

theorem marked_keeps {needle : Text} (nonempty : needle ≠ []) (once : d ∉ tail) (differ : d ≠ z)
    (some' : other ≠ []) (unmarked : z ∉ other) (clear : d ∉ other) {text : Text}
    (present : (d :: other) <:+: replace text needle (d :: z :: tail)) : (d :: other) <:+: text :=
  infix_of_replace nonempty clear (marked_opens once differ some' unmarked) present

end Marked

section TrimInfix

theorem trim_within (text : Text) : text.trim <:+: text :=
  (List.rdropWhile_prefix isWhitespace text.trimStart).isInfix.trans
    (List.dropWhile_suffix isWhitespace).isInfix

theorem trim_trim (text : Text) : text.trim.trim = text.trim := by
  rw [trim, trimStart_trim]
  exact trimEnd_of_last fun c last => trim_last last

theorem trimEnd_ink {c : Char} (inked : isWhitespace c = false) (front back : Text) :
    Text.trimEnd (front ++ c :: back) = front ++ c :: Text.trimEnd back := by
  simp only [trimEnd, List.rdropWhile, List.reverse_append, List.reverse_cons, List.append_assoc,
    List.dropWhile_append, List.dropWhile_cons, inked, List.singleton_append]
  split
  next blank => simp [List.isEmpty_iff.mp blank]
  · simp

end TrimInfix

end Text
