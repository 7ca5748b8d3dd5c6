import GrokPi.Bash.Tasks
import GrokPi.Eval.Protocol
import GrokPi.Shared.TextLines

set_option autoImplicit false

namespace GrokPi.Bash

open Text

section Units

def utf16Length (text : Text) : Nat :=
  (text.map fun c => if c.toNat < 0x10000 then 1 else 2).sum

/-- `slice` from a position on. The second half of a pair is no character. -/
def sliceFrom : Nat → Text → Text
  | 0, text => text
  | _ + 1, [] => []
  | n + 1, c :: rest =>
      if c.toNat < 0x10000 then sliceFrom n rest
      else if n = 0 then '\uFFFD' :: rest
      else sliceFrom (n - 1) rest

theorem utf16Length_append (front rest : Text) :
    utf16Length (front ++ rest) = utf16Length front + utf16Length rest := by
  simp [utf16Length]

theorem utf16Length_eq_zero {text : Text} : utf16Length text = 0 ↔ text = [] := by
  cases text with
  | nil => simp [utf16Length]
  | cons c rest =>
      simp only [utf16Length, List.map_cons, List.sum_cons]
      split <;> simp

theorem sliceFrom_append (front rest : Text) : sliceFrom (utf16Length front) (front ++ rest) = rest := by
  induction front with
  | nil => simp [utf16Length, sliceFrom]
  | cons c front ih =>
      simp only [utf16Length, List.map_cons, List.sum_cons] at ih ⊢
      split
      next narrow => rw [Nat.add_comm, List.cons_append, sliceFrom, if_pos narrow, ih]
      next wide =>
        -- two units make one character
        rw [Nat.add_comm, List.cons_append, sliceFrom, if_neg wide]
        simpa using ih

end Units

inductive ControlEvent where
  | background (toolCallId : Text)
  | kill (taskId : Text)
  deriving DecidableEq

def ControlEvent.ofLine (line : Text) : Option ControlEvent :=
  if (Eval.trimmed line).isEmpty then none
  else
    (Json.parse line).bind fun event =>
      let field (name : Text) := (event.get name).bind Json.asText
      if field "op".toList = some "background".toList then
        (field "toolCallId".toList).map .background
      else if field "op".toList = some "kill".toList then (field "taskId".toList).map .kill
      else none

def taskIdText (id : TaskId) : Text := "bash-".toList ++ (toString id).toList

def BashSession.execute (session : BashSession) : ControlEvent → BashSession
  | .background toolCallId => session.step (.controlBackground toolCallId)
  | .kill taskId =>
      match (session.tasks.map Prod.snd).find? fun candidate => taskIdText candidate = taskId with
      | some id => session.step (.controlKill id)
      | none => session

/-- `executed` logs what the lines asked for, in the order in which it was done. -/
structure BashControl where
  controlFile : List UInt8
  offset : Nat
  session : BashSession
  executed : List ControlEvent

inductive ControlStep where
  | appended (bytes : List UInt8)
  | drain
  | bash (event : BashEvent)

namespace BashControl

def start (session : BashSession) : BashControl :=
  { controlFile := []
    offset := 0
    session := session
    executed := [] }

def readLine (control : BashControl) (line : Text) : BashControl :=
  match ControlEvent.ofLine line with
  | some event =>
      { control with
        session := control.session.execute event
        executed := control.executed ++ [event] }
  | none => control

def drain (control : BashControl) : BashControl :=
  let content := fromUtf8Lossy control.controlFile
  if utf16Length content ≤ control.offset then control
  else
    let chunk := sliceFrom control.offset content
    (chunk.splitOn '\n').foldl readLine { control with offset := utf16Length content }

def step (control : BashControl) : ControlStep → BashControl
  | .appended bytes => { control with controlFile := control.controlFile ++ bytes }
  | .drain => control.drain
  | .bash event => { control with session := control.session.step event }

end BashControl

def written (steps : List ControlStep) : List UInt8 :=
  steps.flatMap fun
    | .appended bytes => bytes
    | _ => []

def WholeLines (lines : List Text) (file : List UInt8) : Prop :=
  ∃ seen ∈ lines.inits, file = asBytes (unlines seen) ∨ file ++ [10] = asBytes (unlines seen)

def DrainsWholeLines (lines : List Text) (control : BashControl) : ControlStep → Prop
  | .drain => WholeLines lines control.controlFile
  | _ => True

section Reading

def asked (text : Text) : List ControlEvent := (text.splitOn '\n').filterMap ControlEvent.ofLine

theorem asked_nil : asked [] = [] := rfl

theorem asked_newline (front rest : Text) : asked (front ++ '\n' :: rest) = asked front ++ asked rest := by
  rw [asked, List.splitOn_append_cons_self, List.filterMap_append, asked, asked]

theorem asked_append {front rest : Text}
    (meet : front = [] ∨ EndsInLine front ∨ rest = [] ∨ rest.head? = some '\n') :
    asked (front ++ rest) = asked front ++ asked rest := by
  -- A text is read in two parts as it is read at once when the parts meet at the end of a line.
  rcases meet with rfl | ended | rfl | starts
  · rfl
  · have split := List.dropLast_append_getLast? _ ended
    rw [← split, List.append_assoc, List.cons_append, List.nil_append, asked_newline, asked_newline,
      asked_nil, List.append_nil]
  · simp [asked_nil]
  · cases rest with
    | nil => simp at starts
    | cons c rest =>
        obtain rfl : c = '\n' := by simpa using starts
        have second := asked_newline [] rest
        rw [List.nil_append, asked_nil, List.nil_append] at second
        rw [asked_newline, second]

theorem asked_unlines {lines : List Text} (oneLine : ∀ line ∈ lines, '\n' ∉ line) :
    asked (unlines lines) = lines.filterMap ControlEvent.ofLine := by
  induction lines with
  | nil => rfl
  | cons line rest ih =>
      have single : asked line = (ControlEvent.ofLine line).toList := by
        rw [asked, List.splitOn_eq_singleton (oneLine line List.mem_cons_self), List.filterMap_cons]
        cases ControlEvent.ofLine line <;> rfl
      have later := ih fun other member => oneLine other (List.mem_cons_of_mem _ member)
      rw [unlines_cons, asked_newline, single, later]
      cases event : ControlEvent.ofLine line <;> simp [event]

end Reading

section Draining

theorem readLine_executed (control : BashControl) (line : Text) :
    (control.readLine line).executed = control.executed ++ (ControlEvent.ofLine line).toList ∧
      (control.readLine line).offset = control.offset ∧
      (control.readLine line).controlFile = control.controlFile := by
  unfold BashControl.readLine
  split <;> simp [*]

theorem readLines_executed (control : BashControl) (lines : List Text) :
    (lines.foldl BashControl.readLine control).executed =
        control.executed ++ lines.filterMap ControlEvent.ofLine ∧
      (lines.foldl BashControl.readLine control).offset = control.offset ∧
      (lines.foldl BashControl.readLine control).controlFile = control.controlFile := by
  induction lines generalizing control with
  | nil => simp
  | cons line rest ih =>
      obtain ⟨log, offset, file⟩ := readLine_executed control line
      obtain ⟨log', offset', file'⟩ := ih (control.readLine line)
      rw [List.foldl_cons, log', offset', file', log, offset, file]
      cases event : ControlEvent.ofLine line <;> simp [event]

theorem drain_reads (control : BashControl) {front rest : Text}
    (file : control.controlFile = asBytes (front ++ rest)) (offset : control.offset = utf16Length front) :
    control.drain.executed = control.executed ++ asked rest ∧
      control.drain.offset = utf16Length (front ++ rest) ∧
      control.drain.controlFile = control.controlFile := by
  have content : fromUtf8Lossy control.controlFile = front ++ rest := by
    rw [file, fromUtf8Lossy_asBytes]
  by_cases short : utf16Length (front ++ rest) ≤ control.offset
  · have none' : utf16Length rest = 0 := by
      rw [utf16Length_append, offset] at short
      omega
    obtain rfl := utf16Length_eq_zero.mp none'
    have same : control.drain = control := by
      simp only [BashControl.drain, content]
      exact if_pos short
    rw [same, asked_nil, List.append_nil, List.append_nil]
    exact ⟨rfl, offset, rfl⟩
  · have read : control.drain = (rest.splitOn '\n').foldl BashControl.readLine
        { control with offset := utf16Length (front ++ rest) } := by
      simp only [BashControl.drain, content]
      rw [if_neg short, offset, sliceFrom_append]
    rw [read]
    exact readLines_executed _ _

end Draining

section Runs

/-- A text that ends where a line does, or just in front of its newline. -/
def CutAtLine (whole front : Text) : Prop :=
  ∃ rest, whole = front ++ rest ∧ (front = [] ∨ EndsInLine front ∨ rest.head? = some '\n')

theorem unlines_append (first second : List Text) :
    unlines (first ++ second) = unlines first ++ unlines second := by
  simp [unlines]

theorem unlines_ends (lines : List Text) : unlines lines = [] ∨ EndsInLine (unlines lines) := by
  rcases List.eq_nil_or_concat lines with rfl | ⟨front, last, rfl⟩
  · exact .inl rfl
  · exact .inr (by simp [unlines, EndsInLine])

theorem wholeLines_cut {lines : List Text} {file : List UInt8} (whole : WholeLines lines file) :
    ∃ front, file = asBytes front ∧ CutAtLine (unlines lines) front := by
  obtain ⟨seen, inits, shape⟩ := whole
  obtain ⟨rest, rfl⟩ := (List.mem_inits _ _).mp inits
  rcases shape with ended | unended
  · refine ⟨unlines seen, ended, unlines rest, unlines_append _ _, ?_⟩
    rcases unlines_ends seen with empty | last
    · exact .inl empty
    · exact .inr (.inl last)
  · rcases List.eq_nil_or_concat seen with rfl | ⟨front, last, rfl⟩
    · simp at unended
    · rw [List.concat_eq_append] at unended ⊢
      have bytes : asBytes (unlines (front ++ [last])) = asBytes (unlines front ++ last) ++ [10] := by
        rw [unlines_append, asBytes_append, asBytes_append]
        simp only [unlines_cons, unlines_nil, asBytes_append, List.append_assoc]
        rfl
      rw [bytes] at unended
      refine ⟨unlines front ++ last, List.append_cancel_right unended, '\n' :: unlines rest, ?_, ?_⟩
      · simp [unlines_append]
      · exact .inr (.inr rfl)

def Drained (lines : List Text) (control : BashControl) : Prop :=
  ∃ front more, control.controlFile = asBytes front ++ more ∧
    control.offset = utf16Length front ∧ control.executed = asked front ∧
    CutAtLine (unlines lines) front

theorem drained_start (lines : List Text) (session : BashSession) :
    Drained lines (.start session) :=
  ⟨[], [], rfl, rfl, rfl, unlines lines, rfl, .inl rfl⟩

theorem drained_drain {lines : List Text} {control : BashControl} (drained : Drained lines control)
    {seen : Text} (file : control.controlFile = asBytes seen) (cut : CutAtLine (unlines lines) seen) :
    control.drain.executed = asked seen ∧ Drained lines control.drain := by
  obtain ⟨front, more, read, offset, log, rest, whole, meet⟩ := drained
  obtain ⟨added, rfl, -⟩ := asBytes_split (file.symm.trans read)
  obtain ⟨log', offset', file'⟩ := drain_reads control file offset
  have executed : control.drain.executed = asked (front ++ added) := by
    rw [log', log, asked_append]
    obtain ⟨rest', whole', -⟩ := cut
    -- the old end of the reading is followed by what was added since
    have split : rest = added ++ rest' := by
      rw [whole, List.append_assoc] at whole'
      exact List.append_cancel_left whole'
    rcases meet with empty | ended | newline
    · exact .inl empty
    · exact .inr (.inl ended)
    · cases added with
      | nil => exact .inr (.inr (.inl rfl))
      | cons c added =>
          rw [split] at newline
          exact .inr (.inr (.inr newline))
  exact ⟨executed, front ++ added, [], by rw [file', file, List.append_nil], offset', executed, cut⟩

theorem drained_step {lines : List Text} (control : BashControl) (step : ControlStep)
    (drained : Drained lines control) (guarded : DrainsWholeLines lines control step) :
    Drained lines (control.step step) := by
  cases step with
  | appended bytes =>
      obtain ⟨front, more, read, rest⟩ := drained
      exact ⟨front, more ++ bytes, by simp [BashControl.step, read], rest⟩
  | drain =>
      obtain ⟨front, file, cut⟩ := wholeLines_cut guarded
      exact (drained_drain drained file cut).2
  | bash event =>
      obtain ⟨front, more, read, rest⟩ := drained
      exact ⟨front, more, read, rest⟩

theorem step_file (control : BashControl) (step : ControlStep) :
    (control.step step).controlFile = control.controlFile ++ written [step] := by
  cases step with
  | appended bytes => simp [BashControl.step, written]
  | bash event => simp [BashControl.step, written]
  | drain =>
      have same : control.drain.controlFile = control.controlFile := by
        simp only [BashControl.drain]
        split
        · rfl
        · exact (readLines_executed _ _).2.2
      simp [BashControl.step, written, same]

theorem run_file (control : BashControl) (steps : List ControlStep) :
    (Runs.run BashControl.step control steps).controlFile = control.controlFile ++ written steps := by
  induction steps generalizing control with
  | nil => simp [written]
  | cons step rest ih =>
      rw [Runs.run_cons, ih, step_file, List.append_assoc]
      simp [written]

end Runs

theorem control_lines_execute_once (lines : List Text) (oneLine : ∀ line ∈ lines, '\n' ∉ line)
    (session : BashSession) (steps : List ControlStep)
    (file : written steps = asBytes (unlines lines))
    (guarded : Runs.Along BashControl.step (DrainsWholeLines lines) (.start session) steps) :
    (Runs.run BashControl.step (.start session) (steps ++ [.drain])).executed =
      lines.filterMap ControlEvent.ofLine := by
  have drained := Runs.along_invariant BashControl.step drained_step (.start session) steps
    (drained_start lines session) guarded
  have whole : (Runs.run BashControl.step (.start session) steps).controlFile = asBytes (unlines lines) := by
    rw [run_file, file]
    rfl
  have cut : CutAtLine (unlines lines) (unlines lines) := by
    refine ⟨[], (List.append_nil _).symm, ?_⟩
    rcases unlines_ends lines with empty | ended
    · exact .inl empty
    · exact .inr (.inl ended)
  rw [Runs.run_append, ← asked_unlines oneLine]
  exact (drained_drain drained whole cut).1

def killLine : Text := "\x7b\"op\":\"kill\",\"taskId\":\"bash-0\"\x7d".toList

theorem control_lines_execute_once_in_turn :
    (Runs.run BashControl.step (.start .start)
        ([.appended (asBytes killLine), .drain, .appended [10]] ++ [.drain])).executed =
      [killLine].filterMap ControlEvent.ofLine :=
  control_lines_execute_once [killLine] (by decide) .start
    [.appended (asBytes killLine), .drain, .appended [10]]
    (by simp [written, asBytes_append]; rfl)
    ⟨trivial, ⟨[killLine], by simp, .inr (by simp [asBytes_append]; rfl)⟩, trivial, trivial⟩

theorem two_drains (session : BashSession) (front rest : Text) :
    (Runs.run BashControl.step (.start session)
        [.appended (asBytes front), .drain, .appended (asBytes rest), .drain]).executed =
      asked front ++ asked rest := by
  obtain ⟨first, offset, file⟩ :=
    @drain_reads { BashControl.start session with controlFile := asBytes front } [] front rfl rfl
  generalize drained : BashControl.drain { BashControl.start session with controlFile := asBytes front } =
    control at first offset file
  have whole : ({ control with controlFile := control.controlFile ++ asBytes rest } : BashControl).controlFile =
      asBytes (front ++ rest) := by
    rw [asBytes_append]
    exact congrArg (· ++ asBytes rest) file
  have second := (drain_reads _ whole offset).1
  simp only [Runs.run_cons, Runs.run_nil, BashControl.step]
  have start : ({ BashControl.start session with
      controlFile := (BashControl.start session).controlFile ++ asBytes front } : BashControl) =
      { BashControl.start session with controlFile := asBytes front } := rfl
  rw [start, drained, second, first]
  rfl

theorem torn_line_is_lost :
    ¬ ∀ (lines : List Text) (session : BashSession) (steps : List ControlStep),
      (∀ line ∈ lines, '\n' ∉ line) → written steps = asBytes (unlines lines) →
      (Runs.run BashControl.step (.start session) (steps ++ [.drain])).executed =
        lines.filterMap ControlEvent.ofLine := by
  intro claim
  have all := claim [killLine] .start
    [.appended (asBytes (killLine.take 10)), .drain, .appended (asBytes (killLine.drop 10 ++ ['\n']))]
    (by decide) (by decide)
  have lost : asked (killLine.take 10) ++ asked (killLine.drop 10 ++ ['\n']) = [] := by decide
  have kill : [killLine].filterMap ControlEvent.ofLine = [.kill "bash-0".toList] := by decide
  rw [List.cons_append, List.cons_append, List.cons_append, List.nil_append, two_drains, lost, kill] at all
  cases all

end GrokPi.Bash
