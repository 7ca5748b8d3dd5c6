import GrokPi.Shared.Runs
import GrokPi.Subagents.Team

set_option autoImplicit false

namespace GrokPi.Subagents

structure SentMessage where
  senderPath : AgentPath
  targetPath : AgentPath
  text : Text
  deriving DecidableEq

structure Part where
  number : Nat
  text : Text
  deriving DecidableEq

abbrev Batch := (AgentPath × AgentPath) × List Part

/-- `statuses` is what the rest of the team makes of the agents, `flushes` are the flushes in
the order in which they began, with the batches each still holds. A dropped batch is kept
with whether its target could receive. -/
structure MessageBox where
  statuses : AgentPath → Option TeamAgentStatus
  messageBuffers : InsertionMap (AgentPath × AgentPath) (List Part)
  flushes : List (List Batch)
  sent : List SentMessage
  merged : List (Nat × Nat)
  delivered : List Batch
  dropped : List (Batch × Bool)

inductive MessageEvent where
  | status (path : AgentPath) (status : Option TeamAgentStatus)
  | send (senderPath targetPath : AgentPath) (text : Text)
  | flush
  | deliver (flush : Nat) (accepted : Bool)

namespace MessageBox

def start : MessageBox :=
  { statuses := fun _ => none
    messageBuffers := []
    flushes := []
    sent := []
    merged := []
    delivered := []
    dropped := [] }

variable (box : MessageBox)

def receives (targetPath : AgentPath) : Bool :=
  if targetPath = rootPath then true
  else
    match box.statuses targetPath with
    | none => false
    | some status => status = .queued || status = .running || canReceiveMessage status

def bufferMessage (senderPath targetPath : AgentPath) (text : Text) : MessageBox :=
  let part : Part := { number := box.sent.length, text := text }
  let sent := box.sent ++ [{ senderPath := senderPath, targetPath := targetPath, text := text }]
  match box.messageBuffers.get (senderPath, targetPath) with
  | some parts =>
      match parts.find? (fun other => other.text = text) with
      | some same =>
          { box with
            sent := sent
            merged := box.merged ++ [(part.number, same.number)] }
      | none =>
          { box with
            sent := sent
            messageBuffers := box.messageBuffers.set (senderPath, targetPath) (parts ++ [part]) }
  | none =>
      { box with
        sent := sent
        messageBuffers := box.messageBuffers.set (senderPath, targetPath) [part] }

def sendMessage (senderPath targetPath : AgentPath) (text : Text) : MessageBox :=
  if targetPath ≠ rootPath && (box.statuses targetPath).isNone then box
  else if text.isEmpty then box
  else box.bufferMessage senderPath targetPath text

def flushBufferedMessages : MessageBox :=
  { box with
    messageBuffers := []
    flushes := box.flushes ++ [box.messageBuffers] }

/-- The next delivery of a flush. One that throws ends the flush with all it still holds. -/
def deliverNext (flush : Nat) (accepted : Bool) : MessageBox :=
  match box.flushes[flush]? with
  | some (batch :: rest) =>
      if box.receives batch.1.2 && accepted then
        { box with
          flushes := box.flushes.set flush rest
          delivered := box.delivered ++ [batch] }
      else
        { box with
          flushes := box.flushes.set flush []
          dropped := box.dropped ++ (batch, false) ::
            rest.map fun other => (other, box.receives other.1.2) }
  | _ => box

def step (box : MessageBox) : MessageEvent → MessageBox
  | .status path status => { box with statuses := Function.update box.statuses path status }
  | .send senderPath targetPath text => box.sendMessage senderPath targetPath text
  | .flush => box.flushBufferedMessages
  | .deliver flush accepted => box.deliverNext flush accepted

def numbers (batches : List Batch) : List Nat :=
  batches.flatMap fun batch => batch.2.map (·.number)

def line : List Batch := box.delivered ++ box.flushes.flatten ++ box.messageBuffers

def lost : List Batch := box.dropped.map Prod.fst

def between (pair : AgentPath × AgentPath) (batches : List Batch) : List Batch :=
  batches.filter fun batch => batch.1 = pair

/-- A delivery that throws leaves nobody behind it who could receive, and a delivery that
goes through does not overtake an older batch between the same two agents. -/
def Calm (box : MessageBox) : MessageEvent → Prop
  | .deliver flush accepted =>
      match box.flushes[flush]? with
      | some (batch :: rest) =>
          if box.receives batch.1.2 && accepted then
            ∀ older ∈ (box.flushes.take flush).flatten, older.1 ≠ batch.1
          else ∀ other ∈ rest, box.receives other.1.2 = false
      | _ => True
  | .status _ _ | .send _ _ _ | .flush => True

structure Survives : Prop where
  /-- Every message is delivered, lost, merged or still on its way, and only one of these. -/
  once : (numbers box.line ++ numbers box.lost ++ box.merged.map Prod.fst).Perm
    (List.range box.sent.length)
  /-- A batch holds what its sender sent to its target. -/
  faithful : ∀ batch ∈ box.line ++ box.lost, ∀ part ∈ batch.2,
    box.sent[part.number]? =
      some { senderPath := batch.1.1, targetPath := batch.1.2, text := part.text }
  /-- A merged message is carried by an equal one between the same two agents. -/
  repeated : ∀ entry ∈ box.merged, box.sent[entry.1]? = box.sent[entry.2]? ∧
    entry.2 ∈ numbers (box.line ++ box.lost)
  /-- A message is lost only to a target that cannot receive. -/
  spared : ∀ entry ∈ box.dropped, entry.2 = false
  /-- Messages between two agents are delivered in sending order. -/
  ordered : ∀ pair, (numbers (between pair box.delivered)).Pairwise (· < ·)

def delivers (flush : Nat) : MessageEvent → Bool
  | .deliver other _ => other = flush
  | _ => false

/-- While the flush goes on and holds the batch, the target can receive, and its session takes the batch. -/
def Takes (flush : Nat) (batch : Batch) (box : MessageBox) : MessageEvent → Prop
  | .deliver other accepted =>
      other = flush → ∀ held, box.flushes[flush]? = some held → batch ∈ held →
        box.receives batch.1.2 = true ∧ (held.head? = some batch → accepted = true)
  | .status _ _ | .send _ _ _ | .flush => True

/-- A flush that makes as many deliveries as it took batches has delivered every message, once, whose target took it. -/
def FlushesDeliver (events : List MessageEvent) : Prop :=
  ∀ before later, events = before ++ .flush :: later →
    let box := Runs.run step start before
    ∀ batch ∈ box.messageBuffers,
      Runs.Along step (Takes box.flushes.length batch) box.flushBufferedMessages later →
        box.messageBuffers.length ≤ later.countP (delivers box.flushes.length) →
          ∀ part ∈ batch.2, (numbers (Runs.run step start events).delivered).count part.number = 1

section Lists

@[simp] theorem numbers_nil : numbers [] = [] := rfl

@[simp] theorem numbers_append (first second : List Batch) :
    numbers (first ++ second) = numbers first ++ numbers second := by
  simp [numbers]

@[simp] theorem numbers_cons (batch : Batch) (rest : List Batch) :
    numbers (batch :: rest) = batch.2.map (·.number) ++ numbers rest := by
  simp [numbers]

@[simp] theorem between_append (pair : AgentPath × AgentPath) (first second : List Batch) :
    between pair (first ++ second) = between pair first ++ between pair second := by
  simp [between]

theorem numbers_sublist {part whole : List Batch} (sub : List.Sublist part whole) :
    List.Sublist (numbers part) (numbers whole) :=
  sub.flatMap _

theorem flushes_split {flushes : List (List Batch)} {i : Nat} {held : List Batch}
    (found : flushes[i]? = some held) : ∃ before after, flushes = before ++ held :: after ∧
      flushes.take i = before ∧ ∀ left, flushes.set i left = before ++ left :: after := by
  obtain ⟨inside, here⟩ := List.getElem?_eq_some_iff.mp found
  refine ⟨flushes.take i, flushes.drop (i + 1), ?_, rfl, ?_⟩
  · rw [← here, List.getElem_cons_drop, List.take_append_drop]
  · intro left
    rw [List.set_eq_take_append_cons_drop, if_pos inside]

variable {buffers : InsertionMap (AgentPath × AgentPath) (List Part)}

theorem numbers_set (pair : AgentPath × AgentPath) (part : Part) :
    (numbers (buffers.set pair ((buffers.get pair).getD [] ++ [part]))).Perm
      (numbers buffers ++ [part.number]) := by
  induction buffers with
  | nil => simp [InsertionMap.set, InsertionMap.get]
  | cons entry rest ih =>
      obtain ⟨here, parts⟩ := entry
      by_cases same : here = pair
      · subst same
        simp only [InsertionMap.set, InsertionMap.get, if_true, decide_true,
          List.find?_cons_of_pos, Option.map_some, Option.getD_some, numbers_cons,
          List.map_append, List.map_cons, List.map_nil, List.append_assoc]
        exact List.Perm.append_left _ List.perm_append_comm
      · have later : InsertionMap.get ((here, parts) :: rest) pair = InsertionMap.get rest pair := by
          simp [InsertionMap.get, same]
        rw [later]
        simp only [InsertionMap.set, same, if_false, numbers_cons, List.append_assoc]
        exact List.Perm.append_left _ ih

theorem between_buffers (once : buffers.keys.Nodup) (pair : AgentPath × AgentPath) :
    between pair buffers = ((buffers.get pair).map fun parts => (pair, parts)).toList := by
  induction buffers with
  | nil => rfl
  | cons entry rest ih =>
      obtain ⟨here, parts⟩ := entry
      obtain ⟨absent, later⟩ := List.nodup_cons.mp once
      have inner := ih later
      by_cases same : here = pair
      · subst same
        have none : InsertionMap.get rest here = none := by
          rw [Option.eq_none_iff_forall_ne_some]
          exact fun value held => absent (InsertionMap.mem_keys.mpr ⟨value, held⟩)
        rw [none] at inner
        simp only [Option.map_none, Option.toList_none, between] at inner
        simp [between, InsertionMap.get, inner]
      · have skipped : InsertionMap.get ((here, parts) :: rest) pair = InsertionMap.get rest pair := by
          simp [InsertionMap.get, same]
        rw [skipped, ← inner]
        simp [between, same]

theorem between_set (once : buffers.keys.Nodup) (pair other : AgentPath × AgentPath) (part : Part) :
    numbers (between other (buffers.set pair ((buffers.get pair).getD [] ++ [part]))) =
      numbers (between other buffers) ++ if other = pair then [part.number] else [] := by
  -- The numbers between two agents grow by the number of a new part at their end.
  have still := InsertionMap.keys_set_nodup once pair ((buffers.get pair).getD [] ++ [part])
  rw [between_buffers still, between_buffers once, InsertionMap.get_set]
  by_cases same : other = pair
  · subst same
    cases buffers.get other <;> simp
  · simp [same]

end Lists

section Invariant

/-- `line` is ordered between any two agents as a whole, so every delivery keeps the order. -/
structure Kept (box : MessageBox) : Prop where
  once : (numbers box.line ++ numbers box.lost ++ box.merged.map Prod.fst).Perm
    (List.range box.sent.length)
  faithful : ∀ batch ∈ box.line ++ box.lost, ∀ part ∈ batch.2,
    box.sent[part.number]? =
      some { senderPath := batch.1.1, targetPath := batch.1.2, text := part.text }
  repeated : ∀ entry ∈ box.merged, box.sent[entry.1]? = box.sent[entry.2]? ∧
    entry.2 ∈ numbers (box.line ++ box.lost)
  spared : ∀ entry ∈ box.dropped, entry.2 = false
  keyed : box.messageBuffers.keys.Nodup
  ordered : ∀ pair, (numbers (between pair box.line)).Pairwise (· < ·)

theorem Kept.survives {box : MessageBox} (kept : Kept box) : Survives box where
  once := kept.once
  faithful := kept.faithful
  repeated := kept.repeated
  spared := kept.spared
  ordered pair := by
    refine List.Pairwise.sublist (numbers_sublist ?_) (kept.ordered pair)
    simp only [line, between_append, List.append_assoc]
    exact List.sublist_append_left _ _

theorem start_kept : Kept start := by
  constructor <;> simp [start, line, lost, between, InsertionMap.keys]

theorem Kept.number_lt {box : MessageBox} (kept : Kept box) {number : Nat}
    (used : number ∈ numbers box.line) : number < box.sent.length := by
  have member : number ∈ numbers box.line ++ numbers box.lost ++ box.merged.map Prod.fst := by
    simp [used]
  exact List.mem_range.mp (kept.once.mem_iff.mp member)

theorem Kept.status {box : MessageBox} (kept : Kept box)
    (statuses : AgentPath → Option TeamAgentStatus) : Kept { box with statuses := statuses } :=
  ⟨kept.once, kept.faithful, kept.repeated, kept.spared, kept.keyed, kept.ordered⟩

theorem Kept.flush {box : MessageBox} (kept : Kept box) : Kept box.flushBufferedMessages := by
  have same : box.flushBufferedMessages.line = box.line := by
    simp [flushBufferedMessages, line]
  exact {
    once := by
      rw [same]
      exact kept.once
    faithful := by
      rw [same]
      exact kept.faithful
    repeated := by
      rw [same]
      exact kept.repeated
    spared := kept.spared
    keyed := List.nodup_nil
    ordered := by
      rw [same]
      exact kept.ordered }

theorem range_grows {numbers : List Nat} {sent : List SentMessage} (message : SentMessage)
    (perm : numbers.Perm (List.range sent.length)) :
    (numbers ++ [sent.length]).Perm (List.range (sent ++ [message]).length) := by
  rw [List.length_append, List.length_singleton, List.range_succ]
  exact perm.append_right _

theorem Kept.part {box : MessageBox} (kept : Kept box) (message : SentMessage) :
    Kept { box with
           sent := box.sent ++ [message]
           messageBuffers := box.messageBuffers.set (message.senderPath, message.targetPath)
             ((box.messageBuffers.get (message.senderPath, message.targetPath)).getD [] ++
               [{ number := box.sent.length, text := message.text }]) } := by
  have grown := @numbers_set box.messageBuffers (message.senderPath, message.targetPath)
    { number := box.sent.length, text := message.text }
  have inside : ∀ entry ∈ box.merged, entry.1 < box.sent.length ∧ entry.2 < box.sent.length := by
    intro entry member
    have first : entry.1 ∈ numbers box.line ++ numbers box.lost ++ box.merged.map Prod.fst :=
      List.mem_append_right _ (List.mem_map_of_mem member)
    have second : entry.2 ∈ numbers box.line ++ numbers box.lost ++ box.merged.map Prod.fst := by
      have carried := (kept.repeated entry member).2
      rw [numbers_append] at carried
      exact List.mem_append_left _ carried
    exact ⟨List.mem_range.mp (kept.once.mem_iff.mp first),
      List.mem_range.mp (kept.once.mem_iff.mp second)⟩
  -- the new number stands at the end of the buffers, and the rest of the line stays
  have lineGrown : (numbers ((box.delivered ++ box.flushes.flatten) ++
      box.messageBuffers.set (message.senderPath, message.targetPath)
        ((box.messageBuffers.get (message.senderPath, message.targetPath)).getD [] ++
          [{ number := box.sent.length, text := message.text }]))).Perm
      (numbers box.line ++ [box.sent.length]) := by
    simp only [line, numbers_append, List.append_assoc] at grown ⊢
    exact List.Perm.append_left _ (List.Perm.append_left _ grown)
  exact {
    once := by
      refine List.Perm.trans ?_ (range_grows message kept.once)
      simp only [line, List.append_assoc] at lineGrown ⊢
      refine (List.Perm.append_right _ lineGrown).trans ?_
      rw [List.perm_iff_count]
      intro number
      simp only [lost, List.count_append]
      omega
    faithful := by
      have older : ∀ batch ∈ box.line ++ box.lost, ∀ part ∈ batch.2,
          (box.sent ++ [message])[part.number]? =
            some { senderPath := batch.1.1, targetPath := batch.1.2, text := part.text } := by
        intro batch member part listed
        have known := kept.faithful batch member part listed
        rw [List.getElem?_append_left (List.getElem?_eq_some_iff.mp known).1]
        exact known
      intro batch member part listed
      simp only [line, List.append_assoc, List.mem_append] at member
      rcases member with done | flushing | buffered | isLost
      · exact older batch (by simp [line, done]) part listed
      · exact older batch (by simp only [line, List.mem_append]; tauto) part listed
      · rcases InsertionMap.mem_set buffered with rfl | old
        · rcases List.mem_append.mp listed with before | new
          · cases held : box.messageBuffers.get (message.senderPath, message.targetPath) with
            | none => simp [held] at before
            | some parts =>
                rw [held] at before
                have inBuffers := InsertionMap.get_mem held
                exact older ((message.senderPath, message.targetPath), parts)
                  (by simp [line, inBuffers]) part before
          · rw [List.mem_singleton] at new
            subst new
            simp
        · exact older batch (by simp [line, old]) part listed
      · exact older batch (List.mem_append_right _ isLost) part listed
    repeated := by
      intro entry member
      obtain ⟨same, carried⟩ := kept.repeated entry member
      obtain ⟨first, second⟩ := inside entry member
      refine ⟨?_, ?_⟩
      · simp only
        rw [List.getElem?_append_left first, List.getElem?_append_left second]
        exact same
      · rw [numbers_append] at carried ⊢
        rcases List.mem_append.mp carried with inLine | isLost
        · refine List.mem_append_left _ (lineGrown.mem_iff.mpr ?_)
          exact List.mem_append_left _ inLine
        · exact List.mem_append_right _ isLost
    spared := kept.spared
    keyed := InsertionMap.keys_set_nodup kept.keyed _ _
    ordered := by
      intro pair
      have old := kept.ordered pair
      simp only [line, between_append, numbers_append] at old ⊢
      rw [between_set kept.keyed, ← List.append_assoc, List.pairwise_append]
      refine ⟨old, by split <;> simp, ?_⟩
      intro number used other last
      have isLast : other = box.sent.length := by
        split at last
        · simpa using last
        · cases last
      rw [isLast]
      apply kept.number_lt
      have sub : List.Sublist (between pair box.line) box.line := List.filter_sublist
      apply (numbers_sublist sub).subset
      simpa [line] using used }

theorem Kept.merge {box : MessageBox} (kept : Kept box) (message : SentMessage) {parts : List Part}
    {same : Part}
    (held : box.messageBuffers.get (message.senderPath, message.targetPath) = some parts)
    (listed : same ∈ parts) (equal : same.text = message.text) :
    Kept { box with
           sent := box.sent ++ [message]
           merged := box.merged ++ [(box.sent.length, same.number)] } := by
  have inBuffers := InsertionMap.get_mem held
  have inLine : ((message.senderPath, message.targetPath), parts) ∈ box.line := by
    simp [line, inBuffers]
  have named := kept.faithful _ (List.mem_append_left _ inLine) same listed
  have carried : same.number ∈ numbers box.line :=
    List.mem_flatMap.mpr ⟨_, inLine, List.mem_map_of_mem listed⟩
  exact {
    once := by
      refine List.Perm.trans ?_ (range_grows message kept.once)
      simp [line, lost]
    faithful := by
      intro batch member part belongs
      have known := kept.faithful batch member part belongs
      simp only
      rw [List.getElem?_append_left (List.getElem?_eq_some_iff.mp known).1]
      exact known
    repeated := by
      intro entry member
      rcases List.mem_append.mp member with old | new
      · obtain ⟨before, still⟩ := kept.repeated entry old
        have first : entry.1 < box.sent.length := by
          have used : entry.1 ∈ numbers box.line ++ numbers box.lost ++ box.merged.map Prod.fst :=
            List.mem_append_right _ (List.mem_map_of_mem old)
          exact List.mem_range.mp (kept.once.mem_iff.mp used)
        have second : entry.2 < box.sent.length := by
          have present := before.symm.trans (List.getElem?_eq_getElem first)
          exact (List.getElem?_eq_some_iff.mp present).1
        refine ⟨?_, still⟩
        simp only
        rw [List.getElem?_append_left first, List.getElem?_append_left second]
        exact before
      · rw [List.mem_singleton] at new
        subst new
        refine ⟨?_, ?_⟩
        · simp only
          rw [List.getElem?_append_left (kept.number_lt carried), named, equal]
          simp
        · rw [numbers_append]
          exact List.mem_append_left _ carried
    spared := kept.spared
    keyed := kept.keyed
    ordered := kept.ordered }

theorem Kept.send {box : MessageBox} (kept : Kept box) (senderPath targetPath : AgentPath)
    (text : Text) : Kept (box.sendMessage senderPath targetPath text) := by
  unfold sendMessage
  split
  · exact kept
  · split
    · exact kept
    · have grown := kept.part
        { senderPath := senderPath, targetPath := targetPath, text := text }
      unfold bufferMessage
      simp only at grown ⊢
      split
      · rename_i parts held
        rw [held] at grown
        split
        · rename_i same found
          refine kept.merge { senderPath := senderPath, targetPath := targetPath, text := text }
            held (List.mem_of_find?_eq_some found) ?_
          simpa using List.find?_some found
        · exact grown
      · rename_i held
        rw [held] at grown
        exact grown

theorem Kept.delivered {box : MessageBox} (kept : Kept box) {flush : Nat} {batch : Batch}
    {rest : List Batch} (found : box.flushes[flush]? = some (batch :: rest))
    (first : ∀ older ∈ (box.flushes.take flush).flatten, older.1 ≠ batch.1) :
    Kept { box with
           flushes := box.flushes.set flush rest
           delivered := box.delivered ++ [batch] } := by
  -- A delivered batch leaves its flush for the end of the deliveries.
  obtain ⟨before, after, split, taken, replaced⟩ := flushes_split found
  rw [taken] at first
  have old : box.line = box.delivered ++ (before.flatten ++ (batch :: rest ++ after.flatten)) ++
      box.messageBuffers := by
    simp [line, split]
  have new : ({ box with
      flushes := box.flushes.set flush rest
      delivered := box.delivered ++ [batch] } : MessageBox).line =
      box.delivered ++ (batch :: (before.flatten ++ (rest ++ after.flatten))) ++
        box.messageBuffers := by
    simp [line, replaced]
  have moved : ({ box with
      flushes := box.flushes.set flush rest
      delivered := box.delivered ++ [batch] } : MessageBox).line.Perm box.line := by
    rw [old, new]
    refine List.Perm.append_right _ (List.Perm.append_left _ ?_)
    exact List.perm_middle.symm
  have counted : ∀ line' : List Batch, line'.Perm box.line →
      (numbers line').Perm (numbers box.line) := fun _ perm => perm.flatMap_right _
  exact {
    once := by
      refine List.Perm.trans ?_ kept.once
      exact List.Perm.append_right _ (List.Perm.append_right _ (counted _ moved))
    faithful := fun other member => kept.faithful other (by
      rcases List.mem_append.mp member with inLine | isLost
      · exact List.mem_append_left _ (moved.mem_iff.mp inLine)
      · exact List.mem_append_right _ isLost)
    repeated := by
      intro entry member
      obtain ⟨same, carried⟩ := kept.repeated entry member
      refine ⟨same, ?_⟩
      rw [numbers_append] at carried ⊢
      rcases List.mem_append.mp carried with inLine | isLost
      · exact List.mem_append_left _ ((counted _ moved).mem_iff.mpr inLine)
      · exact List.mem_append_right _ isLost
    spared := kept.spared
    keyed := kept.keyed
    ordered := by
      intro pair
      -- between its own two agents nothing stands before the batch, elsewhere it does not count
      have same : between pair ({ box with
          flushes := box.flushes.set flush rest
          delivered := box.delivered ++ [batch] } : MessageBox).line = between pair box.line := by
        rw [old, new]
        simp only [between_append, List.cons_append]
        by_cases own : batch.1 = pair
        · have none : between pair before.flatten = [] := by
            rw [between, List.filter_eq_nil_iff]
            intro other member
            rw [← own]
            simpa using first other member
          simp only [between, List.filter_cons, own, List.filter_append] at none ⊢
          simp [none]
        · simp [between, own]
      rw [same]
      exact kept.ordered pair }

theorem Kept.dropped {box : MessageBox} (kept : Kept box) {flush : Nat} {batch : Batch}
    {rest : List Batch} (found : box.flushes[flush]? = some (batch :: rest))
    (unreached : ∀ other ∈ rest, box.receives other.1.2 = false) :
    Kept { box with
           flushes := box.flushes.set flush []
           dropped := box.dropped ++ (batch, false) ::
             rest.map fun other => (other, box.receives other.1.2) } := by
  obtain ⟨before, after, split, -, replaced⟩ := flushes_split found
  have old : box.line = box.delivered ++ (before.flatten ++ (batch :: rest ++ after.flatten)) ++
      box.messageBuffers := by
    simp [line, split]
  have new : ({ box with
      flushes := box.flushes.set flush []
      dropped := box.dropped ++ (batch, false) ::
        rest.map fun other => (other, box.receives other.1.2) } : MessageBox).line =
      box.delivered ++ (before.flatten ++ after.flatten) ++ box.messageBuffers := by
    simp [line, replaced]
  have lostNow : ({ box with
      flushes := box.flushes.set flush []
      dropped := box.dropped ++ (batch, false) ::
        rest.map fun other => (other, box.receives other.1.2) } : MessageBox).lost =
      box.lost ++ (batch :: rest) := by
    simp [lost, Function.comp_def]
  have together : (numbers box.line ++ numbers box.lost).Perm
      (numbers (box.delivered ++ (before.flatten ++ after.flatten) ++ box.messageBuffers) ++
        numbers (box.lost ++ (batch :: rest))) := by
    rw [old, List.perm_iff_count]
    intro number
    simp only [numbers_append, List.count_append]
    omega
  have members : ∀ other, other ∈ (box.delivered ++ (before.flatten ++ after.flatten) ++
      box.messageBuffers) ++ (box.lost ++ (batch :: rest)) → other ∈ box.line ++ box.lost := by
    intro other member
    rw [old]
    simp only [List.mem_append, List.mem_cons] at member ⊢
    tauto
  exact {
    once := by
      rw [new, lostNow]
      exact (List.Perm.append_right _ together.symm).trans kept.once
    faithful := by
      rw [new, lostNow]
      exact fun other member => kept.faithful other (members other member)
    repeated := by
      rw [new, lostNow]
      intro entry member
      obtain ⟨same, carried⟩ := kept.repeated entry member
      refine ⟨same, ?_⟩
      rw [numbers_append] at carried ⊢
      exact together.mem_iff.mp carried
    spared := by
      intro entry member
      rcases List.mem_append.mp member with earlier | now
      · exact kept.spared entry earlier
      · rcases List.mem_cons.mp now with rfl | behind
        · rfl
        · obtain ⟨other, held, rfl⟩ := List.mem_map.mp behind
          exact unreached other held
    keyed := kept.keyed
    ordered := by
      intro pair
      refine List.Pairwise.sublist (numbers_sublist ?_) (kept.ordered pair)
      rw [new, old]
      refine List.Sublist.filter _ ?_
      refine List.Sublist.append_right (List.Sublist.append_left ?_ _) _
      exact List.Sublist.append_left (List.sublist_append_right _ _) _ }

theorem step_kept (box : MessageBox) (event : MessageEvent) (kept : Kept box)
    (calm : Calm box event) : Kept (step box event) := by
  cases event with
  | status path status => exact kept.status _
  | send senderPath targetPath text => exact kept.send senderPath targetPath text
  | flush => exact kept.flush
  | deliver flush accepted =>
      simp only [step, deliverNext]
      simp only [Calm] at calm
      split
      · rename_i batch rest found
        rw [found] at calm
        simp only at calm
        split
        · rename_i through
          rw [if_pos through] at calm
          exact kept.delivered found calm
        · rename_i failed
          rw [if_neg failed] at calm
          exact kept.dropped found calm
      · exact kept

end Invariant

section Delivery

variable {box : MessageBox} {flush : Nat} {batch : Batch}

@[simp] theorem sendMessage_flushes (senderPath targetPath : AgentPath) (text : Text) :
    (box.sendMessage senderPath targetPath text).flushes = box.flushes := by
  unfold sendMessage bufferMessage
  repeat' split
  all_goals rfl

@[simp] theorem sendMessage_delivered (senderPath targetPath : AgentPath) (text : Text) :
    (box.sendMessage senderPath targetPath text).delivered = box.delivered := by
  unfold sendMessage bufferMessage
  repeat' split
  all_goals rfl

def Handed (batch : Batch) (deliveries : Nat) (flush : Nat) (held : List Batch) (next : MessageBox) : Prop :=
  ∃ left, next.flushes[flush]? = some left ∧ left.length ≤ held.length - deliveries ∧
    (batch ∈ next.delivered ∨ batch ∈ left)

theorem deliverNext_handed {held : List Batch} (found : box.flushes[flush]? = some held)
    (still : batch ∈ box.delivered ∨ batch ∈ held) (other : Nat) (accepted : Bool)
    (calm : Calm box (.deliver other accepted)) (takes : Takes flush batch box (.deliver other accepted)) :
    Handed batch (if other = flush then 1 else 0) flush held (box.deliverNext other accepted) := by
  by_cases own : other = flush
  · subst own
    rw [if_pos rfl]
    cases held with
    | nil => exact ⟨[], by simp [deliverNext, found], Nat.zero_le _, by simpa [deliverNext, found] using still⟩
    | cons first rest =>
        simp only [Calm, found] at calm
        simp only [deliverNext, found]
        have inside : other < box.flushes.length := (List.getElem?_eq_some_iff.mp found).1
        split
        next through =>
          refine ⟨rest, by simp [inside], by simp, ?_⟩
          rcases still with done | held
          · exact .inl (List.mem_append_left _ done)
          · rcases List.mem_cons.mp held with rfl | behind
            · exact .inl (by simp)
            · exact .inr behind
        next failed =>
          rw [if_neg failed] at calm
          refine ⟨[], by simp [inside], Nat.zero_le _, .inl ?_⟩
          rcases still with done | held
          · exact done
          · -- the batch is neither the one that throws nor one behind it
            obtain ⟨receives, accepts⟩ := takes rfl _ found held
            rcases List.mem_cons.mp held with rfl | behind
            · exact absurd (by rw [receives, accepts rfl, Bool.and_self]) failed
            · rw [calm batch behind] at receives
              cases receives
  · rw [if_neg own]
    refine ⟨held, ?_, Nat.le_refl _, ?_⟩ <;> unfold deliverNext <;> split
    · split <;> simpa [List.getElem?_set_ne own] using found
    · exact found
    · split
      · exact still.imp_left (List.mem_append_left _)
      · exact still
    · exact still

theorem step_handed {held : List Batch} (found : box.flushes[flush]? = some held)
    (still : batch ∈ box.delivered ∨ batch ∈ held) (event : MessageEvent) (calm : Calm box event)
    (takes : Takes flush batch box event) :
    Handed batch (if delivers flush event then 1 else 0) flush held (step box event) := by
  cases event with
  | status path status => exact ⟨held, found, Nat.le_refl _, still⟩
  | send senderPath targetPath text =>
      exact ⟨held, by simpa [step] using found, Nat.le_refl _, by simpa [step] using still⟩
  | flush =>
      refine ⟨held, ?_, Nat.le_refl _, still⟩
      have inside := (List.getElem?_eq_some_iff.mp found).1
      simpa [step, flushBufferedMessages, List.getElem?_append_left inside] using found
  | deliver other accepted =>
      have handed := deliverNext_handed found still other accepted calm takes
      simpa only [delivers, decide_eq_true_eq, step] using handed

theorem run_handed (events : List MessageEvent) {held : List Batch} (found : box.flushes[flush]? = some held)
    (still : batch ∈ box.delivered ∨ batch ∈ held) (calm : Runs.Along step Calm box events)
    (takes : Runs.Along step (Takes flush batch) box events) :
    Handed batch (events.countP (delivers flush)) flush held (Runs.run step box events) := by
  induction events generalizing box held with
  | nil => exact ⟨held, found, Nat.le_refl _, still⟩
  | cons event rest ih =>
      obtain ⟨left, foundLeft, fewer, stillLeft⟩ := step_handed found still event calm.1 takes.1
      obtain ⟨last, foundLast, fewest, stillLast⟩ := ih foundLeft stillLeft calm.2 takes.2
      refine ⟨last, foundLast, ?_, stillLast⟩
      rw [List.countP_cons]
      omega

theorem Kept.delivered_once (kept : Kept box) (there : batch ∈ box.delivered) {part : Part} (listed : part ∈ batch.2) :
    (numbers box.delivered).count part.number = 1 := by
  have all := kept.once.nodup_iff.mpr List.nodup_range
  have sub : List.Sublist (numbers box.delivered)
      (numbers box.line ++ numbers box.lost ++ box.merged.map Prod.fst) := by
    simp only [line, numbers_append, List.append_assoc]
    exact List.sublist_append_left _ _
  exact List.count_eq_one_of_mem (all.sublist sub) (List.mem_flatMap.mpr ⟨batch, there, List.mem_map_of_mem listed⟩)

theorem flushes_deliver {events : List MessageEvent} (calm : Runs.Along step Calm start events)
    (kept : Kept (Runs.run step start events)) : FlushesDeliver events := by
  rintro before later rfl box batch buffered takes enough part listed
  have calmLater := ((Runs.along_append step Calm start before _).mp calm).2.2
  have found : box.flushBufferedMessages.flushes[box.flushes.length]? = some box.messageBuffers := by
    simp [flushBufferedMessages]
  obtain ⟨left, -, fewer, still⟩ := run_handed later found (.inr buffered) calmLater takes
  have none' : left = [] := List.eq_nil_of_length_eq_zero (by omega)
  rw [none'] at still
  rw [Runs.run_append, Runs.run_cons] at kept ⊢
  exact kept.delivered_once (still.resolve_right List.not_mem_nil) listed

end Delivery

theorem calm_runs_survive (events : List MessageEvent) (calm : Runs.Along step Calm start events) :
    Survives (Runs.run step start events) ∧ FlushesDeliver events := by
  have kept := Runs.along_invariant step step_kept start events start_kept calm
  exact ⟨kept.survives, flushes_deliver calm kept⟩

theorem messages_survive_failed_target :
    let events := [.status [['a']] (some .running), .status [['b']] (some .running), .send rootPath [['a']] ['x'],
      .send rootPath [['b']] ['y'], .send rootPath [['a']] ['z'], .flush, .deliver 0 true,
      .status [['b']] (some .failed), .deliver 0 true]
    Survives (Runs.run step start events) ∧ FlushesDeliver events :=
  calm_runs_survive _ ⟨trivial, trivial, trivial, trivial, trivial, trivial, fun older member => (by cases member), trivial,
    fun other member => (by cases member), trivial⟩

theorem message_behind_failure_lost :
    ¬ ∀ events : List MessageEvent, Survives (Runs.run step start events) ∧ FlushesDeliver events := by
  intro survives
  have all := (survives [.status [['a']] (some .running), .status [['b']] (some .running),
    .send rootPath [['a']] ['x'], .send rootPath [['b']] ['y'], .status [['a']] (some .failed),
    .flush, .deliver 0 true]).1
  have spared := all.spared (((rootPath, [['b']]), [{ number := 1, text := ['y'] }]), true)
  exact absurd (spared (by decide)) (by decide)

end MessageBox

end GrokPi.Subagents
