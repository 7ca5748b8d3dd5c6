import Mathlib

set_option autoImplicit false

namespace Replay

universe u v r w x y z

inductive Program (Call : Type u) (Returned : Type v) (Result : Type r) where
  | finish (result : Result)
  | perform (call : Call) (next : Returned → Program Call Returned Result)

inductive Hearing where
  /-- The program is told of an error that is in no journal. -/
  | refused
  | journal
  deriving DecidableEq

/-- A journal with the place the program has got to, and what was done so far. -/
structure Tape (Call : Type u) (Entry : Type x) (Answer : Type y) (Request : Type z) where
  journal : List Entry
  seq : Nat
  sent : List (List Nat × Request)
  performed : List (Nat × Call)
  answers : List (Nat × Answer)
  heard : List Hearing

/-- What entries are to a call: it takes `width` of them, from its place on. -/
structure Reading (Call : Type u) (Returned : Type v) (Stop : Type w) (Entry : Type x) (Answer : Type y) where
  width : Call → Nat
  Fits : Call → Nat → Nat → Entry → Prop
  answerOf : Entry → Answer
  verdict : Call → List Entry → Except Stop Returned
  limit : Nat
  Broken : Stop → Prop

variable {Call : Type u} {Returned : Type v} {Result : Type r} {Stop : Type w} {Entry : Type x}
  {Answer : Type y} {Request : Type z}

def run (perform : Call → Tape Call Entry Answer Request → Except Stop Returned × Tape Call Entry Answer Request) :
    Program Call Returned Result → Tape Call Entry Answer Request →
      Except Stop Result × Tape Call Entry Answer Request
  | .finish result, tape => (.ok result, tape)
  | .perform call next, tape =>
      match perform call tape with
      | (.ok returned, after) => run perform (next returned) after
      | (.error stop, after) => (.error stop, after)

theorem run_perform (perform : Call → Tape Call Entry Answer Request →
    Except Stop Returned × Tape Call Entry Answer Request) (call : Call)
    (next : Returned → Program Call Returned Result) (tape : Tape Call Entry Answer Request) :
    run perform (.perform call next) tape =
      match perform call tape with
      | (.ok returned, after) => run perform (next returned) after
      | (.error stop, after) => (.error stop, after) := by
  rw [run]

/-- Once the program was told of an error that is in no journal, the journal is left alone. -/
def Orderly (heard : List Hearing) : Prop :=
  ∀ before after, heard = before ++ .refused :: after → .journal ∉ after

def slice (journal : List Entry) (start count : Nat) : List Entry := (journal.drop start).take count

theorem slice_of_isPrefix {journal longer : List Entry} {start count : Nat} (extends' : journal <+: longer)
    (inside : start + count ≤ journal.length) : slice longer start count = slice journal start count := by
  obtain ⟨more, rfl⟩ := extends'
  unfold slice
  rw [List.drop_append_of_le_length (by omega), List.take_append_of_le_length (by simp; omega)]

variable (reading : Reading Call Returned Stop Entry Answer)

def Matches (journal : List Entry) (start : Nat) (call : Call) : Prop :=
  ∀ index entry, index < reading.width call → journal[start + index]? = some entry →
    reading.Fits call (start + index) index entry

def Legit : Program Call Returned Result → Nat → List Entry → Prop
  | .finish _, start, journal => journal.length ≤ start
  | .perform call next, start, journal =>
      Matches reading journal start call ∧
        (start + reading.width call ≤ journal.length →
          match reading.verdict call (slice journal start (reading.width call)) with
          | .ok returned => Legit (next returned) (start + reading.width call) journal
          | .error _ => journal.length ≤ start + reading.width call)

def frontier : Program Call Returned Result → Nat → List Entry → Option (Nat × Call)
  | .finish _, _, _ => none
  | .perform call next, start, journal =>
      if journal.length < start + reading.width call then some (start, call)
      else
        match reading.verdict call (slice journal start (reading.width call)) with
        | .ok returned => frontier (next returned) (start + reading.width call) journal
        | .error _ => none

def beyond (journal : List Entry) (performed : Nat × Call) : Bool :=
  journal.length < performed.1 + reading.width performed.2

/-- What a call may add to a tape whose journal it keeps to. -/
structure Advances (before after : Tape Call Entry Answer Request) : Prop where
  journal : before.journal <+: after.journal
  sent : ∀ seqs request, (seqs, request) ∈ after.sent →
    (seqs, request) ∈ before.sent ∨ ∀ seq ∈ seqs, before.journal.length ≤ seq
  answers : ∀ seq answer, (seq, answer) ∈ after.answers →
    (seq, answer) ∈ before.answers ∨
      ∀ entry, after.journal[seq]? = some entry → reading.answerOf entry = answer

inductive Performs (call : Call) (before : Tape Call Entry Answer Request) :
    Except Stop Returned → Tape Call Entry Answer Request → Prop
  /-- The journal has the whole call. -/
  | replayed {result : Except Stop Returned} {after : Tape Call Entry Answer Request}
      (whole : before.seq + reading.width call ≤ before.journal.length)
      (verdict : result = reading.verdict call (slice before.journal before.seq (reading.width call)))
      (sound : ∀ stop, result = .error stop → ¬ reading.Broken stop)
      (seq : after.seq = before.seq + reading.width call)
      (same : after.journal = before.journal)
      (calm : .refused ∈ after.heard → .refused ∈ before.heard)
      (advances : Advances reading before after)
      (inside : ∀ seq answer, (seq, answer) ∈ after.answers →
        (seq, answer) ∈ before.answers ∨ seq < after.journal.length)
      (answered : ∀ index, index < reading.width call →
        ∃ answer, (before.seq + index, answer) ∈ after.answers) :
      Performs call before result after
  /-- The rest of the call is made and recorded. -/
  | recorded {result : Except Stop Returned} {after : Tape Call Entry Answer Request}
      (beyond : before.journal.length < before.seq + reading.width call)
      (length : after.journal.length = before.seq + reading.width call)
      (fits : after.journal.length ≤ reading.limit)
      (matches' : Matches reading after.journal before.seq call)
      (verdict : ∀ returned, result = .ok returned → after.seq = after.journal.length ∧
        reading.verdict call (slice after.journal before.seq (reading.width call)) = .ok returned)
      (sound : ∀ stop, result = .error stop → ¬ reading.Broken stop)
      (calm : .refused ∈ after.heard → .refused ∈ before.heard)
      (advances : Advances reading before after)
      (inside : ∀ seq answer, (seq, answer) ∈ after.answers →
        (seq, answer) ∈ before.answers ∨ seq < after.journal.length) :
      Performs call before result after
  /-- An error is returned and not recorded. -/
  | refused {returned : Returned} {after : Tape Call Entry Answer Request}
      (beyond : before.journal.length < before.seq + reading.width call)
      (same : after.journal = before.journal)
      (heard : .refused ∈ after.heard)
      (advances : Advances reading before after) :
      Performs call before (.ok returned) after
  | ended {stop : Stop} {after : Tape Call Entry Answer Request}
      (beyond : before.journal.length < before.seq + reading.width call)
      (same : after.journal = before.journal)
      (sound : ¬ reading.Broken stop)
      (advances : Advances reading before after) :
      Performs call before (.error stop) after

structure Faithful (perform : Call → Tape Call Entry Answer Request →
    Except Stop Returned × Tape Call Entry Answer Request) : Prop where
  performed : ∀ call before, (perform call before).2.performed = before.performed ++ [(before.seq, call)]
  kept : ∀ call before, ∀ entry ∈ before.answers, entry ∈ (perform call before).2.answers
  heard : ∀ call before, before.heard <+: (perform call before).2.heard
  /-- From a place that the journal has come to. -/
  step : ∀ call before, before.seq ≤ before.journal.length → before.journal.length ≤ reading.limit →
    Matches reading before.journal before.seq call →
    Performs reading call before (perform call before).1 (perform call before).2
  /-- From any place, for a call that leaves the journal alone. -/
  apart : ∀ call before more, (perform call before).2.heard = before.heard ++ more → .journal ∉ more →
    Advances reading before (perform call before).2 ∧
      (perform call before).2.journal = before.journal ∧
      ∀ stop, (perform call before).1 = .error stop → ¬ reading.Broken stop

section Journals

variable {reading}

theorem legit_of_isPrefix (program : Program Call Returned Result) {start : Nat} {journal longer : List Entry}
    (extends' : journal <+: longer) (legit : Legit reading program start longer) :
    Legit reading program start journal := by
  induction program generalizing start with
  | finish result => exact Nat.le_trans extends'.length_le legit
  | perform call next ih =>
      obtain ⟨matches', rest⟩ := legit
      have found : ∀ (index : Nat) (entry : Entry), journal[index]? = some entry → longer[index]? = some entry := by
        intro index entry there
        obtain ⟨more, rfl⟩ := extends'
        obtain ⟨inside, _⟩ := List.getElem?_eq_some_iff.mp there
        rw [List.getElem?_append_left inside]
        exact there
      refine ⟨fun index entry inside there => matches' index entry inside (found _ _ there), ?_⟩
      intro whole
      have rest' := rest (Nat.le_trans whole extends'.length_le)
      rw [slice_of_isPrefix extends' whole] at rest'
      split at rest'
      next returned verdict => exact ih returned rest'
      next stop verdict => exact Nat.le_trans extends'.length_le rest'

theorem legit_end (program : Program Call Returned Result) {start : Nat} {journal : List Entry}
    (end' : journal.length ≤ start) : Legit reading program start journal := by
  -- At its end, every journal is legit.
  induction program generalizing start with
  | finish result => exact end'
  | perform call next ih =>
      constructor
      · intro index entry _ there
        obtain ⟨inside, _⟩ := List.getElem?_eq_some_iff.mp there
        omega
      · intro whole
        split
        · exact ih _ (by omega)
        · omega

theorem legit_fits (program : Program Call Returned Result) {start : Nat} {journal : List Entry}
    (legit : Legit reading program start journal) {place : Nat} (after : start ≤ place) {entry : Entry}
    (there : journal[place]? = some entry) : ∃ call index, reading.Fits call place index entry := by
  -- Every entry of a legit journal fits a call at its place.
  obtain ⟨inside, _⟩ := List.getElem?_eq_some_iff.mp there
  induction program generalizing start with
  | finish result =>
      have short : journal.length ≤ start := legit
      omega
  | perform call next ih =>
      obtain ⟨matches', rest⟩ := legit
      by_cases here : place < start + reading.width call
      · have split : start + (place - start) = place := by omega
        have fits := matches' (place - start) entry (by omega) (by rw [split]; exact there)
        rw [split] at fits
        exact ⟨call, _, fits⟩
      · have rest' := rest (by omega)
        split at rest'
        · exact ih _ rest' (by omega)
        · omega

end Journals

structure Ends (program : Program Call Returned Result) (before after : Tape Call Entry Answer Request)
    (result : Except Stop Result) : Prop where
  legit : Legit reading program before.seq after.journal
  journal : before.journal <+: after.journal
  limit : after.journal.length ≤ reading.limit
  sound : ∀ stop, result = .error stop → ¬ reading.Broken stop
  answers : ∀ seq answer, (seq, answer) ∈ after.answers → ∀ entry, after.journal[seq]? = some entry →
    reading.answerOf entry = answer
  sent : ∀ seqs request, (seqs, request) ∈ after.sent →
    (seqs, request) ∈ before.sent ∨ ∀ seq ∈ seqs, before.journal.length ≤ seq

/-- A tape on which the journal has answered all that was answered. -/
structure Aligned (tape : Tape Call Entry Answer Request) : Prop where
  seq : tape.seq ≤ tape.journal.length
  limit : tape.journal.length ≤ reading.limit
  calm : .refused ∉ tape.heard
  inside : ∀ seq answer, (seq, answer) ∈ tape.answers → seq < tape.journal.length
  answers : ∀ seq answer, (seq, answer) ∈ tape.answers → ∀ entry, tape.journal[seq]? = some entry →
    reading.answerOf entry = answer

section Tapes

variable {reading}

theorem orderly_apart {before more : List Hearing} (rest : List Hearing) (refused : .refused ∈ before)
    (orderly : Orderly (before ++ more ++ rest)) : .journal ∉ more := by
  obtain ⟨first, second, rfl⟩ := List.append_of_mem refused
  intro member
  exact orderly first (second ++ more ++ rest) (by simp) (by simp [member])

theorem advances_refl (tape : Tape Call Entry Answer Request) : Advances reading tape tape :=
  ⟨List.prefix_rfl, fun _ _ member => .inl member, fun _ _ member => .inl member⟩

theorem advances_trans {first second third : Tape Call Entry Answer Request}
    (one : Advances reading first second) (two : Advances reading second third)
    (same : third.journal = second.journal) : Advances reading first third := by
  refine ⟨one.journal.trans two.journal, ?_, ?_⟩
  · intro seqs request member
    rcases two.sent seqs request member with before | late
    · exact one.sent seqs request before
    · exact .inr fun seq there => Nat.le_trans one.journal.length_le (late seq there)
  · intro seq answer member
    rcases two.answers seq answer member with before | late
    · rw [same]
      exact one.answers seq answer before
    · exact .inr late

variable {before after : Tape Call Entry Answer Request}

theorem answers_of_advances (aligned : Aligned reading before)
    (advances : Advances reading before after) {seq : Nat} {answer : Answer}
    (member : (seq, answer) ∈ after.answers) {entry : Entry} (there : after.journal[seq]? = some entry) :
    reading.answerOf entry = answer := by
  rcases advances.answers seq answer member with old | new
  · obtain ⟨more, longer⟩ := advances.journal
    rw [← longer, List.getElem?_append_left (aligned.inside seq answer old)] at there
    exact aligned.answers seq answer old entry there
  · exact new entry there

theorem aligned_after (aligned : Aligned reading before)
    (advances : Advances reading before after) (seq : after.seq ≤ after.journal.length)
    (limit : after.journal.length ≤ reading.limit) (calm : .refused ∈ after.heard → .refused ∈ before.heard)
    (inside : ∀ seq answer, (seq, answer) ∈ after.answers →
      (seq, answer) ∈ before.answers ∨ seq < after.journal.length) : Aligned reading after := by
  refine ⟨seq, limit, fun refused => aligned.calm (calm refused), ?_, ?_⟩
  · intro seq answer member
    rcases inside seq answer member with old | new
    · exact Nat.lt_of_lt_of_le (aligned.inside seq answer old) advances.journal.length_le
    · exact new
  · exact fun seq answer member entry there => answers_of_advances aligned advances member there

theorem sent_trans {first second third : Tape Call Entry Answer Request} (one : Advances reading first second)
    (two : ∀ seqs request, (seqs, request) ∈ third.sent →
      (seqs, request) ∈ second.sent ∨ ∀ seq ∈ seqs, second.journal.length ≤ seq) :
    ∀ seqs request, (seqs, request) ∈ third.sent →
      (seqs, request) ∈ first.sent ∨ ∀ seq ∈ seqs, first.journal.length ≤ seq := by
  intro seqs request member
  rcases two seqs request member with before | late
  · exact one.sent seqs request before
  · exact .inr fun seq there => Nat.le_trans one.journal.length_le (late seq there)

theorem ends_here {program : Program Call Returned Result}
    {result : Except Stop Result} (aligned : Aligned reading before) (advances : Advances reading before after)
    (legit : Legit reading program before.seq after.journal) (limit : after.journal.length ≤ reading.limit)
    (sound : ∀ stop, result = .error stop → ¬ reading.Broken stop) :
    Ends reading program before after result :=
  { legit
    journal := advances.journal
    limit
    sound
    answers := fun _ _ member _ there => answers_of_advances aligned advances member there
    sent := advances.sent }

theorem matches_of_isPrefix {journal longer : List Entry} {start : Nat} {call : Call}
    (extends' : journal <+: longer) (inside : start + reading.width call ≤ journal.length)
    (matches' : Matches reading journal start call) : Matches reading longer start call := by
  intro index entry below there
  obtain ⟨more, rfl⟩ := extends'
  rw [List.getElem?_append_left (by omega)] at there
  exact matches' index entry below there

theorem legit_perform {next : Returned → Program Call Returned Result} {journal longer : List Entry} {start : Nat}
    {call : Call} {returned : Returned} (extends' : journal <+: longer)
    (inside : start + reading.width call ≤ journal.length) (matches' : Matches reading journal start call)
    (verdict : reading.verdict call (slice journal start (reading.width call)) = .ok returned)
    (legit : Legit reading (next returned) (start + reading.width call) longer) :
    Legit reading (.perform call next) start longer := by
  refine ⟨matches_of_isPrefix extends' inside matches', ?_⟩
  intro _
  rw [slice_of_isPrefix extends' inside, verdict]
  exact legit

theorem legit_last {next : Returned → Program Call Returned Result} {journal : List Entry} {start : Nat}
    {call : Call} (length : journal.length = start + reading.width call)
    (matches' : Matches reading journal start call) : Legit reading (.perform call next) start journal := by
  refine ⟨matches', ?_⟩
  intro _
  split
  · exact legit_end _ (Nat.le_of_eq length)
  · exact Nat.le_of_eq length

end Tapes

section Runs

variable {reading} {perform : Call → Tape Call Entry Answer Request →
  Except Stop Returned × Tape Call Entry Answer Request} (faithful : Faithful reading perform)

include faithful

theorem run_kept (program : Program Call Returned Result) (tape : Tape Call Entry Answer Request) :
    ∀ entry ∈ tape.answers, entry ∈ (run perform program tape).2.answers := by
  induction program generalizing tape with
  | finish result => exact fun _ member => member
  | perform call next ih =>
      have here := faithful.kept call tape
      rw [run_perform]
      split
      next returned after made =>
        rw [made] at here
        exact fun entry member => ih returned after entry (here entry member)
      next stop after made =>
        rw [made] at here
        exact here

theorem run_heard (program : Program Call Returned Result) (tape : Tape Call Entry Answer Request) :
    tape.heard <+: (run perform program tape).2.heard := by
  induction program generalizing tape with
  | finish result => exact List.prefix_rfl
  | perform call next ih =>
      have here := faithful.heard call tape
      rw [run_perform]
      split
      next returned after made =>
        rw [made] at here
        exact here.trans (ih returned after)
      next stop after made =>
        rw [made] at here
        exact here

theorem run_performed (program : Program Call Returned Result) (tape : Tape Call Entry Answer Request) :
    tape.performed <+: (run perform program tape).2.performed := by
  induction program generalizing tape with
  | finish result => exact List.prefix_rfl
  | perform call next ih =>
      have here := faithful.performed call tape
      rw [run_perform]
      split
      next returned after made =>
        rw [made] at here
        have first : tape.performed <+: after.performed := ⟨_, here.symm⟩
        exact first.trans (ih returned after)
      next stop after made =>
        rw [made] at here
        exact ⟨_, here.symm⟩

theorem run_apart (program : Program Call Returned Result) (tape : Tape Call Entry Answer Request)
    (refused : .refused ∈ tape.heard) (orderly : Orderly (run perform program tape).2.heard) :
    Advances reading tape (run perform program tape).2 ∧
      (run perform program tape).2.journal = tape.journal ∧
      ∀ stop, (run perform program tape).1 = .error stop → ¬ reading.Broken stop := by
  -- After a refusal the journal is left as it is.
  induction program generalizing tape with
  | finish result =>
      refine ⟨advances_refl tape, rfl, ?_⟩
      intro stop none'
      cases none'
  | perform call next ih =>
      obtain ⟨more, heard⟩ := faithful.heard call tape
      have later : (perform call tape).2.heard <+: (run perform (.perform call next) tape).2.heard := by
        rw [run_perform]
        split
        next returned after made =>
          rw [made]
          exact run_heard faithful (next returned) after
        next stop after made =>
          rw [made]
      obtain ⟨rest, whole⟩ := later
      have calm : .journal ∉ more := orderly_apart rest refused (by rw [heard, whole]; exact orderly)
      have ⟨advances, same, sound⟩ := faithful.apart call tape more heard.symm calm
      rw [run_perform] at orderly ⊢
      split at orderly
      next returned after made =>
        simp only [made] at advances same heard
        have still : .refused ∈ after.heard := by
          rw [← heard]
          exact List.mem_append_left _ refused
        have ⟨advances', same', sound'⟩ := ih returned after still orderly
        exact ⟨advances_trans advances advances' same', same'.trans same, sound'⟩
      next stop after made =>
        simp only [made] at advances same sound
        refine ⟨advances, same, ?_⟩
        intro stop' is'
        cases is'
        exact sound stop rfl

theorem run_ends (program : Program Call Returned Result) (tape : Tape Call Entry Answer Request)
    (legit : Legit reading program tape.seq tape.journal) (aligned : Aligned reading tape)
    (orderly : Orderly (run perform program tape).2.heard) :
    Ends reading program tape (run perform program tape).2 (run perform program tape).1 := by
  induction program generalizing tape with
  | finish result =>
      refine ends_here aligned (advances_refl tape) legit aligned.limit ?_
      intro stop none'
      cases none'
  | perform call next ih =>
      have ⟨matches', rest⟩ := legit
      have step := faithful.step call tape aligned.seq aligned.limit matches'
      rw [run_perform] at orderly ⊢
      split at orderly
      next returned after made =>
        simp only [made] at step ⊢
        cases step with
        | replayed whole verdict sound seq same calm advances inside answered =>
            have next' := rest whole
            rw [← verdict] at next'
            have aligned' : Aligned reading after :=
              aligned_after aligned advances (by rw [seq, same]; exact whole) (by rw [same]; exact aligned.limit)
                calm inside
            have ends := ih returned after (by rw [seq, same]; exact next') aligned' orderly
            have legit' := ends.legit
            rw [seq] at legit'
            exact
              { legit := legit_perform (same ▸ ends.journal) whole matches' verdict.symm legit'
                journal := advances.journal.trans ends.journal
                limit := ends.limit
                sound := ends.sound
                answers := ends.answers
                sent := sent_trans advances ends.sent }
        | recorded beyond length fits matches'' verdict sound calm advances inside =>
            have ⟨seq, verdict'⟩ := verdict returned rfl
            have aligned' : Aligned reading after :=
              aligned_after aligned advances (Nat.le_of_eq seq) fits calm inside
            have ends := ih returned after (legit_end _ (Nat.le_of_eq seq.symm)) aligned' orderly
            have legit' := ends.legit
            rw [seq, length] at legit'
            exact
              { legit := legit_perform ends.journal (Nat.le_of_eq length.symm) matches'' verdict' legit'
                journal := advances.journal.trans ends.journal
                limit := ends.limit
                sound := ends.sound
                answers := ends.answers
                sent := sent_trans advances ends.sent }
        | refused beyond same heard advances =>
            have ⟨apart, same', sound⟩ := run_apart faithful (next returned) after heard orderly
            have all := advances_trans advances apart same'
            refine ends_here aligned all ?_ ?_ sound
            · rw [same', same]
              exact legit
            · rw [same', same]
              exact aligned.limit
      next stop after made =>
        simp only [made] at step ⊢
        have stopped : ∀ stop', (.error stop : Except Stop Result) = .error stop' → stop' = stop := by
          intro stop' is'
          cases is'
          rfl
        cases step with
        | replayed whole verdict sound seq same calm advances inside answered =>
            refine ends_here aligned advances (by rw [same]; exact legit) (by rw [same]; exact aligned.limit) ?_
            intro stop' is'
            rw [stopped stop' is']
            exact sound stop rfl
        | recorded beyond length fits matches'' verdict sound calm advances inside =>
            refine ends_here aligned advances (legit_last length matches'') fits ?_
            intro stop' is'
            rw [stopped stop' is']
            exact sound stop rfl
        | ended beyond same sound advances =>
            refine ends_here aligned advances (by rw [same]; exact legit) (by rw [same]; exact aligned.limit) ?_
            intro stop' is'
            rw [stopped stop' is']
            exact sound

theorem run_after (call : Call) (next : Returned → Program Call Returned Result)
    (tape : Tape Call Entry Answer Request) :
    (perform call tape).2.performed <+: (run perform (.perform call next) tape).2.performed := by
  rw [run_perform]
  split
  next returned after made =>
    rw [made]
    exact run_performed faithful (next returned) after
  next stop after made =>
    rw [made]

/-- The first call of a run that a part of its journal does not have is the program's first such call. -/
theorem found_frontier (program : Program Call Returned Result) (tape : Tape Call Entry Answer Request)
    (legit : Legit reading program tape.seq tape.journal) (aligned : Aligned reading tape)
    (orderly : Orderly (run perform program tape).2.heard) {journal : List Entry}
    (part : journal <+: (run perform program tape).2.journal)
    (none' : tape.performed.find? (beyond reading journal) = none) {found : Nat × Call}
    (first : (run perform program tape).2.performed.find? (beyond reading journal) = some found) :
    frontier reading program tape.seq journal = some found := by
  induction program generalizing tape with
  | finish result =>
      rw [run, none'] at first
      cases first
  | perform call next ih =>
      have ⟨matches', rest⟩ := legit
      have step := faithful.step call tape aligned.seq aligned.limit matches'
      have performed := faithful.performed call tape
      rw [frontier]
      by_cases here : journal.length < tape.seq + reading.width call
      · obtain ⟨more, whole⟩ := run_after faithful call next tape
        rw [← whole, performed, List.append_assoc, List.find?_append, none'] at first
        simpa [beyond, here] using first
      · rw [if_neg here]
        rw [run_perform] at orderly part first
        split at first
        next returned after made =>
          simp only [made] at step performed orderly part
          have none'' : after.performed.find? (beyond reading journal) = none := by
            rw [performed, List.find?_append, none']
            simp [beyond, here]
          cases step with
          | replayed whole verdict sound seq same calm advances inside answered =>
              have next' := rest whole
              rw [← verdict] at next'
              have aligned' : Aligned reading after :=
                aligned_after aligned advances (by rw [seq, same]; exact whole)
                  (by rw [same]; exact aligned.limit) calm inside
              have legit' : Legit reading (next returned) after.seq after.journal := by
                rw [seq, same]
                exact next'
              have ends := run_ends faithful (next returned) after legit' aligned' orderly
              have longer : tape.journal <+: (run perform (next returned) after).2.journal := same ▸ ends.journal
              rw [← slice_of_isPrefix part (by omega), slice_of_isPrefix longer whole, ← verdict]
              rw [← seq]
              exact ih returned after legit' aligned' orderly part none'' first
          | recorded beyond' length fits matches'' verdict sound calm advances inside =>
              have ⟨seq, verdict'⟩ := verdict returned rfl
              have aligned' : Aligned reading after :=
                aligned_after aligned advances (Nat.le_of_eq seq) fits calm inside
              have legit' : Legit reading (next returned) after.seq after.journal :=
                legit_end _ (Nat.le_of_eq seq.symm)
              have ends := run_ends faithful (next returned) after legit' aligned' orderly
              rw [← slice_of_isPrefix part (by omega),
                slice_of_isPrefix ends.journal (Nat.le_of_eq length.symm), verdict']
              rw [← length, ← seq]
              exact ih returned after legit' aligned' orderly part none'' first
          | refused beyond' same heard advances =>
              have ⟨_, same', _⟩ := run_apart faithful (next returned) after heard orderly
              have short := part.length_le
              rw [same', same] at short
              omega
        next stop after made =>
          simp only [made] at performed
          rw [performed, List.find?_append, none'] at first
          simp [beyond, here] at first

theorem frontier_found (program : Program Call Returned Result) (tape : Tape Call Entry Answer Request)
    (legit : Legit reading program tape.seq tape.journal) (aligned : Aligned reading tape)
    (none' : tape.performed.find? (beyond reading tape.journal) = none) {found : Nat × Call}
    (first : frontier reading program tape.seq tape.journal = some found) :
    (run perform program tape).2.performed.find? (beyond reading tape.journal) = some found := by
  induction program generalizing tape with
  | finish result => simp [frontier] at first
  | perform call next ih =>
      have ⟨matches', rest⟩ := legit
      have step := faithful.step call tape aligned.seq aligned.limit matches'
      have performed := faithful.performed call tape
      rw [frontier] at first
      by_cases here : tape.journal.length < tape.seq + reading.width call
      · obtain ⟨more, whole⟩ := run_after faithful call next tape
        rw [if_pos here] at first
        rw [← whole, performed, List.append_assoc, List.find?_append, none']
        simpa [beyond, here] using first
      · rw [if_neg here] at first
        have inside' := Nat.le_of_not_lt here
        rw [run_perform]
        split
        next returned after made =>
          simp only [made] at step performed
          cases step with
          | replayed whole verdict sound seq same calm advances inside answered =>
              have next' := rest whole
              rw [← verdict] at next' first
              have aligned' : Aligned reading after :=
                aligned_after aligned advances (by rw [seq, same]; exact whole)
                  (by rw [same]; exact aligned.limit) calm inside
              have none'' : after.performed.find? (beyond reading after.journal) = none := by
                rw [performed, same, List.find?_append, none']
                simp [beyond, here]
              have found' := ih returned after (by rw [seq, same]; exact next') aligned' none''
                (by rw [seq, same]; exact first)
              rw [← same]
              exact found'
          | recorded beyond' => omega
          | refused beyond' => omega
        next stop after made =>
          simp only [made] at step
          cases step with
          | replayed whole verdict sound seq same calm advances inside answered =>
              rw [← verdict] at first
              cases first
          | recorded beyond' => omega
          | ended beyond' => omega

theorem run_answered (program : Program Call Returned Result) (tape : Tape Call Entry Answer Request)
    (legit : Legit reading program tape.seq tape.journal) (aligned : Aligned reading tape) {place : Nat}
    (from' : tape.seq ≤ place) (inside : place < tape.journal.length)
    (before : ∀ start call, frontier reading program tape.seq tape.journal = some (start, call) → place < start) :
    ∃ answer, (place, answer) ∈ (run perform program tape).2.answers := by
  induction program generalizing tape with
  | finish result =>
      have short : tape.journal.length ≤ tape.seq := legit
      omega
  | perform call next ih =>
      have ⟨matches', rest⟩ := legit
      have step := faithful.step call tape aligned.seq aligned.limit matches'
      rw [frontier] at before
      by_cases here : tape.journal.length < tape.seq + reading.width call
      · rw [if_pos here] at before
        have early := before tape.seq call rfl
        omega
      · rw [if_neg here] at before
        rw [run_perform]
        split
        next returned after made =>
          simp only [made] at step
          cases step with
          | replayed whole verdict sound seq same calm advances inside' answered =>
              have next' := rest whole
              rw [← verdict] at next' before
              have aligned' : Aligned reading after :=
                aligned_after aligned advances (by rw [seq, same]; exact whole)
                  (by rw [same]; exact aligned.limit) calm inside'
              by_cases own : place < tape.seq + reading.width call
              · have ⟨answer, member⟩ := answered (place - tape.seq) (by omega)
                have split : tape.seq + (place - tape.seq) = place := by omega
                rw [split] at member
                exact ⟨answer, run_kept faithful (next returned) after _ member⟩
              · exact ih returned after (by rw [seq, same]; exact next') aligned' (by omega)
                  (by rw [same]; exact inside) (by rw [seq, same]; exact before)
          | recorded beyond' => omega
          | refused beyond' => omega
        next stop after made =>
          simp only [made] at step
          cases step with
          | replayed whole verdict sound seq same calm advances inside' answered =>
              have short := rest whole
              rw [← verdict] at short
              have ⟨answer, member⟩ := answered (place - tape.seq) (by simp only at short; omega)
              have split : tape.seq + (place - tape.seq) = place := by omega
              rw [split] at member
              exact ⟨answer, member⟩
          | recorded beyond' => omega
          | ended beyond' => omega

end Runs

section Reruns

def Tape.start (journal : List Entry) : Tape Call Entry Answer Request :=
  { journal
    seq := 0
    sent := []
    performed := []
    answers := []
    heard := [] }

variable {Host : Type*} (perform : Host → Call → Tape Call Entry Answer Request →
  Except Stop Returned × Tape Call Entry Answer Request)

/-- The journals that runs of the program leave, a run that was interrupted a part of its journal. -/
inductive Left (program : Program Call Returned Result) : List Entry → Prop
  | fresh : Left program []
  | rest {journal kept : List Entry} (host : Host) (left : Left program journal)
      (orderly : Orderly (run (perform host) program (.start journal)).2.heard)
      (part : kept <+: (run (perform host) program (.start journal)).2.journal) : Left program kept

structure Repeats (journal : List Entry) (first second : Tape Call Entry Answer Request) : Prop where
  same : ∀ seq answer answer', seq < journal.length → (seq, answer) ∈ first.answers →
    (seq, answer') ∈ second.answers → answer = answer'
  answered : ∀ seq, seq < journal.length →
    (∀ start call, second.performed.find? (beyond reading journal) = some (start, call) → seq < start) →
      ∃ answer, (seq, answer) ∈ second.answers
  unasked : ∀ seqs request, (seqs, request) ∈ second.sent → ∀ seq ∈ seqs, journal.length ≤ seq
  live : ∀ call, first.performed.find? (beyond reading journal) = some call →
    second.performed.find? (beyond reading journal) = some call

variable {reading perform} (faithful : ∀ host, Faithful reading (perform host))

theorem aligned_start {journal : List Entry} (limit : journal.length ≤ reading.limit) :
    Aligned reading (.start journal : Tape Call Entry Answer Request) :=
  ⟨Nat.zero_le _, limit, by simp [Tape.start], by simp [Tape.start], by simp [Tape.start]⟩

include faithful

variable {program : Program Call Returned Result}

theorem left_legit {journal : List Entry} (left : Left perform program journal) :
    Legit reading program 0 journal ∧ journal.length ≤ reading.limit := by
  induction left with
  | fresh => exact ⟨legit_end program (Nat.le_refl _), Nat.zero_le _⟩
  | rest host left orderly part ih =>
      have ends := run_ends (faithful host) program _ ih.1 (aligned_start ih.2) orderly
      exact ⟨legit_of_isPrefix program part ends.legit, Nat.le_trans part.length_le ends.limit⟩

theorem left_ends {journal : List Entry} (left : Left perform program journal) (host : Host)
    (orderly : Orderly (run (perform host) program (.start journal)).2.heard) :
    Ends reading program (.start journal) (run (perform host) program (.start journal)).2
      (run (perform host) program (.start journal)).1 := by
  have ⟨legit, limit⟩ := left_legit faithful left
  exact run_ends (faithful host) program _ legit (aligned_start limit) orderly

theorem rerun_repeats {journal kept : List Entry}
    (left : Left perform program journal) (host again : Host)
    (orderly : Orderly (run (perform host) program (.start journal)).2.heard)
    (part : kept <+: (run (perform host) program (.start journal)).2.journal)
    (orderly' : Orderly (run (perform again) program (.start kept)).2.heard) :
    Repeats reading kept (run (perform host) program (.start journal)).2
      (run (perform again) program (.start kept)).2 := by
  have ⟨legit, limit⟩ := left_legit faithful left
  have ends := left_ends faithful left host orderly
  have left' : Left perform program kept := .rest host left orderly part
  have ⟨legit', limit'⟩ := left_legit faithful left'
  have ends' := left_ends faithful left' again orderly'
  have aligned' := @aligned_start Call Returned Stop Entry Answer Request reading kept limit'
  constructor
  · intro seq answer answer' inside one two
    have there : kept[seq]? = some kept[seq] := List.getElem?_eq_getElem inside
    have kept' (longer : List Entry) (extends' : kept <+: longer) : longer[seq]? = some kept[seq] := by
      obtain ⟨more, rfl⟩ := extends'
      rw [List.getElem?_append_left inside]
      exact there
    rw [← ends.answers seq answer one _ (kept' _ part), ends'.answers seq answer' two _ (kept' _ ends'.journal)]
  · intro seq inside before
    refine run_answered (faithful again) program _ legit' aligned' (Nat.zero_le _) inside ?_
    intro start call first
    exact before start call (frontier_found (faithful again) program _ legit' aligned' rfl first)
  · intro seqs request member
    rcases ends'.sent seqs request member with none' | late
    · cases none'
    · exact late
  · intro call first
    have here := found_frontier (faithful host) program _ legit (aligned_start limit) orderly part rfl first
    exact frontier_found (faithful again) program _ legit' aligned' rfl here

end Reruns

end Replay
