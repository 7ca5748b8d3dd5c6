import GrokPi.Rollback.JournalFile
import GrokPi.Shared.InsertionMap
import GrokPi.Shared.Runs
import GrokPi.Shared.TextLines

set_option autoImplicit false

namespace GrokPi.Rollback

open List (Forall₂)

section Rewriting

structure ResultEntry where
  id : Text
  isToolResult : Bool
  toolCallId : Option Text

def toolResultMap (entries : List ResultEntry) : InsertionMap Text Text :=
  entries.foldl
    (fun map entry =>
      match entry.isToolResult, entry.toolCallId with
      | true, some call => if call.isEmpty then map else map.set call entry.id
      | _, _ => map) []

def entryFor (results : InsertionMap Text Text) (m : MutationRecord) : Option Text :=
  (results.get m.toolCallId).filter fun id => !id.isEmpty

def bindEntry (results : InsertionMap Text Text) (m : MutationRecord) : MutationRecord :=
  match entryFor results m with
  | some entryId => { m with treeEntryId := some entryId, state := .reconciled }
  | none => m

def unboundOf (records : List JournalRecord) : List MutationRecord :=
  (getMutations records).filter fun m => m.state = .unbound

def sequenceOf : JournalRecord → Nat
  | .mutation m => m.sequence
  | .transaction _ => 0

def sortRecords (records : List JournalRecord) : List JournalRecord :=
  records.insertionSort fun one other => sequenceOf one ≤ sequenceOf other

def rebind (unbound : List MutationRecord) (m : MutationRecord) : MutationRecord :=
  (unbound.find? fun u => u.operationId = m.operationId).getD m

def rewrite (unbound : List MutationRecord) (allRecords : List JournalRecord) : Text :=
  let mutations := (getMutations allRecords).map (rebind unbound)
  let all := mutations.map JournalRecord.mutation ++
    (getTransactions allRecords).map JournalRecord.transaction
  Text.joinLines ((sortRecords all).map recordText) ++ ['\n']

end Rewriting

inductive BindStage where
  | started (results : InsertionMap Text Text)
  | selected (read : Text) (unbound : List MutationRecord)
  | computed (read : Text) (text : Text)

inductive JournalEvent where
  | append (record : JournalRecord)
  | bindStart (binder : Nat) (entries : List ResultEntry)
  | bindRead (binder : Nat)
  | bindReread (binder : Nat)
  | bindWrite (binder : Nat)

/-- `appended` are the records whose append is complete. -/
structure JournalState where
  file : Text
  appended : List JournalRecord
  binders : Nat → Option BindStage

namespace JournalState

def start : JournalState :=
  { file := []
    appended := []
    binders := fun _ => none }

def setBinder (state : JournalState) (binder : Nat) (stage : Option BindStage) : JournalState :=
  { state with binders := Function.update state.binders binder stage }

def step (state : JournalState) : JournalEvent → JournalState
  | .append record =>
      { state with file := state.file ++ line record, appended := state.appended ++ [record] }
  | .bindStart binder entries =>
      match state.binders binder with
      | none => state.setBinder binder (some (.started (toolResultMap entries)))
      | some _ => state
  | .bindRead binder =>
      match state.binders binder with
      | some (.started results) =>
          let unbound := unboundOf (readJournalRecords state.file)
          let updated := unbound.any fun m => (entryFor results m).isSome
          state.setBinder binder
            (if updated then some (.selected state.file (unbound.map (bindEntry results))) else none)
      | _ => state
  | .bindReread binder =>
      match state.binders binder with
      | some (.selected _ unbound) =>
          state.setBinder binder
            (some (.computed state.file (rewrite unbound (readJournalRecords state.file))))
      | _ => state
  | .bindWrite binder =>
      match state.binders binder with
      | some (.computed _ text) => { state.setBinder binder none with file := text }
      | _ => state

/-- A capture appends an unbound record under a new operation id. -/
def Possible (state : JournalState) : JournalEvent → Prop
  | .append (.mutation m) =>
      m.state = .unbound ∧ 0 < m.sequence ∧
        ∀ other ∈ getMutations state.appended, other.operationId ≠ m.operationId
  | _ => True

def StillUnbound (file : Text) : Option BindStage → Prop
  | some (.selected read _) =>
      ∀ m ∈ unboundOf (readJournalRecords read), m ∈ unboundOf (readJournalRecords file)
  | _ => True

def Unchanged (file : Text) : Option BindStage → Prop
  | some (.computed read _) => file = read
  | _ => True

instance stillUnbound_decidable (file : Text) : DecidablePred (StillUnbound file)
  | some (.selected _ _) => inferInstanceAs (Decidable (∀ m ∈ _, m ∈ _))
  | some (.started _) | some (.computed _ _) | none => inferInstanceAs (Decidable True)

instance unchanged_decidable (file : Text) : DecidablePred (Unchanged file)
  | some (.computed read _) => inferInstanceAs (Decidable (file = read))
  | some (.started _) | some (.selected _ _) | none => inferInstanceAs (Decidable True)

/-- Appends in the order of the sequence, and nothing written between what a binding read and
what it writes. -/
def Keeps (state : JournalState) : JournalEvent → Prop
  | .append (.mutation m) =>
      ∀ other ∈ getMutations (readJournalRecords state.file), other.sequence < m.sequence
  | .bindReread binder => StillUnbound state.file (state.binders binder)
  | .bindWrite binder => Unchanged state.file (state.binders binder)
  | _ => True

instance possible_decidable (state : JournalState) : DecidablePred state.Possible
  | .append (.mutation m) =>
      inferInstanceAs (Decidable (m.state = .unbound ∧ 0 < m.sequence ∧ ∀ other ∈ _, _))
  | .append (.transaction _) | .bindStart _ _ | .bindRead _ | .bindReread _ | .bindWrite _ =>
      inferInstanceAs (Decidable True)

instance keeps_decidable (state : JournalState) : DecidablePred state.Keeps
  | .append (.mutation m) =>
      inferInstanceAs (Decidable (∀ other ∈ getMutations (readJournalRecords state.file),
        other.sequence < m.sequence))
  | .bindReread binder => inferInstanceAs (Decidable (StillUnbound state.file (state.binders binder)))
  | .bindWrite binder => inferInstanceAs (Decidable (Unchanged state.file (state.binders binder)))
  | .append (.transaction _) | .bindStart _ _ | .bindRead _ => inferInstanceAs (Decidable True)

def Gains (m m' : MutationRecord) : Prop :=
  m' = m ∨
    m.state = .unbound ∧ ∃ entryId, m' = { m with treeEntryId := some entryId, state := .reconciled }

structure Preserved (state : JournalState) : Prop where
  mutations : Forall₂ Gains (getMutations state.appended) (getMutations (readJournalRecords state.file))
  transactions : getTransactions (readJournalRecords state.file) = getTransactions state.appended

structure Ordered (records : List JournalRecord) : Prop where
  increasing : (getMutations records).Pairwise fun one other => one.sequence < other.sequence
  positive : ∀ m ∈ getMutations records, 0 < m.sequence
  distinct : ((getMutations records).map (·.operationId)).Nodup

def Rebinds (unbound : List MutationRecord) (records : List JournalRecord) : Prop :=
  unbound ≠ [] ∧ ∀ u ∈ unbound, ∃ m ∈ unboundOf records, Gains m u

structure Consistent (state : JournalState) : Prop where
  rendered : ∃ records, state.file = render records
  ordered : Ordered (readJournalRecords state.file)
  preserved : state.Preserved
  selected : ∀ binder read unbound, state.binders binder = some (.selected read unbound) →
    Rebinds unbound (readJournalRecords read)
  computed : ∀ binder read text, state.binders binder = some (.computed read text) →
    ∃ unbound, Rebinds unbound (readJournalRecords read) ∧ text = rewrite unbound (readJournalRecords read)

section Gaining

theorem Gains.refl (m : MutationRecord) : Gains m m := Or.inl rfl

theorem Gains.trans {one two three : MutationRecord} (first : Gains one two) (second : Gains two three) :
    Gains one three := by
  rcases first with rfl | ⟨unbound, entryId, rfl⟩
  · exact second
  · rcases second with rfl | ⟨again, _⟩
    · exact Or.inr ⟨unbound, entryId, rfl⟩
    · simp at again

theorem Gains.same {m m' : MutationRecord} (gains : Gains m m') :
    m'.operationId = m.operationId ∧ m'.sequence = m.sequence := by
  rcases gains with rfl | ⟨_, _, rfl⟩ <;> exact ⟨rfl, rfl⟩

theorem gains_operationIds {before after : List MutationRecord} (gains : Forall₂ Gains before after) :
    after.map (·.operationId) = before.map (·.operationId) := by
  induction gains with
  | nil => rfl
  | cons head _ ih => rw [List.map_cons, List.map_cons, ih, head.same.1]

theorem gains_map {before after : List MutationRecord} {change : MutationRecord → MutationRecord}
    (gains : Forall₂ Gains before after) (changes : ∀ m ∈ after, Gains m (change m)) :
    Forall₂ Gains before (after.map change) := by
  induction gains with
  | nil => exact .nil
  | cons head _ ih =>
      exact .cons (head.trans (changes _ (by simp))) (ih fun m member => changes m (by simp [member]))

theorem bindEntry_gains (results : InsertionMap Text Text) {m : MutationRecord}
    (unbound : m.state = .unbound) : Gains m (bindEntry results m) := by
  simp only [bindEntry]
  split
  · next entryId _ => exact Or.inr ⟨unbound, entryId, rfl⟩
  · exact Gains.refl m

theorem rebind_gains {unbound : List MutationRecord} {records : List JournalRecord}
    (rebinds : Rebinds unbound records) (distinct : ((getMutations records).map (·.operationId)).Nodup)
    {m : MutationRecord} (member : m ∈ getMutations records) : Gains m (rebind unbound m) := by
  simp only [rebind]
  cases found : unbound.find? fun u => u.operationId = m.operationId with
  | none => exact Gains.refl m
  | some u =>
      have same : u.operationId = m.operationId := by simpa using List.find?_some found
      obtain ⟨origin, listed, gains⟩ := rebinds.2 u (List.mem_of_find?_eq_some found)
      have origin_mem : origin ∈ getMutations records := (List.mem_filter.mp listed).1
      have equal : origin = m :=
        List.inj_on_of_nodup_map distinct origin_mem member (gains.same.1.symm.trans same)
      exact equal ▸ gains

end Gaining

section Sorting

@[simp] theorem getMutations_append (one other : List JournalRecord) :
    getMutations (one ++ other) = getMutations one ++ getMutations other := by
  simp [getMutations]

@[simp] theorem getTransactions_append (one other : List JournalRecord) :
    getTransactions (one ++ other) = getTransactions one ++ getTransactions other := by
  simp [getTransactions]

@[simp] theorem getMutations_mutations (mutations : List MutationRecord) :
    getMutations (mutations.map .mutation) = mutations := by
  simp [getMutations, List.filterMap_map]

@[simp] theorem getMutations_transactions (transactions : List RollbackTransaction) :
    getMutations (transactions.map .transaction) = [] := by
  simp [getMutations, List.filterMap_map]

@[simp] theorem getTransactions_mutations (mutations : List MutationRecord) :
    getTransactions (mutations.map .mutation) = [] := by
  simp [getTransactions, List.filterMap_map]

@[simp] theorem getTransactions_transactions (transactions : List RollbackTransaction) :
    getTransactions (transactions.map .transaction) = transactions := by
  simp [getTransactions, List.filterMap_map]

theorem insert_mutation (m : MutationRecord) (positive : 0 < m.sequence)
    (transactions : List RollbackTransaction) {mutations : List MutationRecord}
    (first : ∀ other ∈ mutations, m.sequence < other.sequence) :
    List.orderedInsert (fun one other => sequenceOf one ≤ sequenceOf other) (.mutation m)
        (transactions.map .transaction ++ mutations.map .mutation) =
      transactions.map .transaction ++ (m :: mutations).map .mutation := by
  induction transactions with
  | nil =>
      cases mutations with
      | nil => rfl
      | cons next rest =>
          apply List.orderedInsert_cons_of_le
          exact (first next (by simp)).le
  | cons tx rest ih =>
      rw [List.map_cons, List.cons_append, List.orderedInsert_of_not_le, ih]
      · rfl
      · simp only [sequenceOf]
        omega

theorem sortRecords_split (mutations : List MutationRecord) (transactions : List RollbackTransaction)
    (increasing : mutations.Pairwise fun one other => one.sequence < other.sequence)
    (positive : ∀ m ∈ mutations, 0 < m.sequence) :
    sortRecords (mutations.map .mutation ++ transactions.map .transaction) =
      transactions.map .transaction ++ mutations.map .mutation := by
  -- The transactions come before the mutations, both in their order.
  induction mutations with
  | nil =>
      simp only [sortRecords, List.map_nil, List.nil_append, List.append_nil]
      apply List.Pairwise.insertionSort_eq
      rw [List.pairwise_map]
      exact List.pairwise_of_forall fun _ _ => Nat.le_refl 0
  | cons m rest ih =>
      have ⟨first, later⟩ := List.pairwise_cons.mp increasing
      have sorted := ih later fun other member => positive other (by simp [member])
      simp only [sortRecords, List.map_cons, List.cons_append, List.insertionSort_cons] at sorted ⊢
      rw [sorted]
      exact insert_mutation m (positive m (by simp)) transactions first

theorem rewrite_render {unbound : List MutationRecord} {records : List JournalRecord}
    (ordered : Ordered records) (rebinds : Rebinds unbound records) :
    rewrite unbound records = render
      ((getTransactions records).map .transaction ++
        ((getMutations records).map (rebind unbound)).map .mutation) := by
  have same : ∀ m ∈ getMutations records, (rebind unbound m).sequence = m.sequence :=
    fun m member => (rebind_gains rebinds ordered.distinct member).same.2
  have increasing : ((getMutations records).map (rebind unbound)).Pairwise
      fun one other => one.sequence < other.sequence := by
    rw [List.pairwise_map]
    apply ordered.increasing.imp_of_mem
    intro one other first second less
    rw [same one first, same other second]
    exact less
  have positive : ∀ m ∈ (getMutations records).map (rebind unbound), 0 < m.sequence := by
    intro m member
    obtain ⟨origin, listed, rfl⟩ := List.mem_map.mp member
    rw [same origin listed]
    exact ordered.positive origin listed
  obtain ⟨u, first⟩ := List.exists_mem_of_ne_nil _ rebinds.1
  obtain ⟨m, listed, _⟩ := rebinds.2 u first
  have some' : getMutations records ≠ [] := List.ne_nil_of_mem (List.mem_filter.mp listed).1
  simp only [rewrite]
  rw [sortRecords_split _ _ increasing positive, ← Text.unlines_eq_joinLines (by simp [some'])]
  simp only [Text.unlines, render, List.flatMap_map]
  rfl

theorem Ordered.rebound {unbound : List MutationRecord} {records : List JournalRecord}
    (ordered : Ordered records) (rebinds : Rebinds unbound records) :
    Ordered ((getTransactions records).map .transaction ++
      ((getMutations records).map (rebind unbound)).map .mutation) := by
  have same : ∀ m ∈ getMutations records, (rebind unbound m).operationId = m.operationId ∧
      (rebind unbound m).sequence = m.sequence :=
    fun m member => (rebind_gains rebinds ordered.distinct member).same
  have mutations : getMutations ((getTransactions records).map .transaction ++
      ((getMutations records).map (rebind unbound)).map .mutation) =
        (getMutations records).map (rebind unbound) := by
    rw [getMutations_append, getMutations_transactions, getMutations_mutations, List.nil_append]
  constructor
  · rw [mutations, List.pairwise_map]
    apply ordered.increasing.imp_of_mem
    intro one other first second less
    rw [(same one first).2, (same other second).2]
    exact less
  · rw [mutations]
    intro m member
    obtain ⟨origin, listed, rfl⟩ := List.mem_map.mp member
    rw [(same origin listed).2]
    exact ordered.positive origin listed
  · rw [mutations, List.map_map]
    have equal : (getMutations records).map ((·.operationId) ∘ rebind unbound) =
        (getMutations records).map (·.operationId) :=
      List.map_congr_left fun m member => (same m member).1
    rw [equal]
    exact ordered.distinct

end Sorting

section Steps

variable {state : JournalState}

theorem start_consistent : start.Consistent := by
  constructor
  · exact ⟨[], rfl⟩
  · constructor <;> simp [start, getMutations, ← show render [] = [] from rfl]
  · constructor
    · simp [start, getMutations, ← show render [] = [] from rfl]
    · simp [start, getTransactions, ← show render [] = [] from rfl]
  · simp [start]
  · simp [start]

theorem Consistent.setBinder (consistent : state.Consistent) (binder : Nat) (stage : Option BindStage)
    (selected : ∀ read unbound, stage = some (.selected read unbound) →
      Rebinds unbound (readJournalRecords read))
    (computed : ∀ read text, stage = some (.computed read text) →
      ∃ unbound, Rebinds unbound (readJournalRecords read) ∧
        text = rewrite unbound (readJournalRecords read)) :
    (state.setBinder binder stage).Consistent := by
  constructor
  · exact consistent.rendered
  · exact consistent.ordered
  · exact ⟨consistent.preserved.mutations, consistent.preserved.transactions⟩
  · intro other read unbound at'
    by_cases same : other = binder
    · subst same
      exact selected read unbound (by simpa [JournalState.setBinder] using at')
    · exact consistent.selected other read unbound (by simpa [JournalState.setBinder, same] using at')
  · intro other read text at'
    by_cases same : other = binder
    · subst same
      exact computed read text (by simpa [JournalState.setBinder] using at')
    · exact consistent.computed other read text (by simpa [JournalState.setBinder, same] using at')

theorem Consistent.append (consistent : state.Consistent) (record : JournalRecord)
    (possible : state.Possible (.append record)) (keeps : state.Keeps (.append record)) :
    (state.step (.append record)).Consistent := by
  obtain ⟨records, file⟩ := consistent.rendered
  have ordered := consistent.ordered
  have preserved := consistent.preserved
  have read : readJournalRecords (state.file ++ line record) = records ++ [record] := by
    have whole : state.file ++ line record = render (records ++ [record]) := by
      simp [file, render]
    rw [whole, read_render]
  rw [file, read_render] at ordered
  have before := preserved.mutations
  have transactions := preserved.transactions
  rw [file, read_render] at before transactions
  constructor
  · exact ⟨records ++ [record], by simp [step, file, render]⟩
  · simp only [step, read]
    cases record with
    | transaction tx =>
        have same : getMutations (records ++ [.transaction tx]) = getMutations records := by
          simp [getMutations]
        exact ⟨same ▸ ordered.increasing, same ▸ ordered.positive, same ▸ ordered.distinct⟩
    | mutation m =>
        have same : getMutations (records ++ [.mutation m]) = getMutations records ++ [m] := by
          simp [getMutations]
        have later : ∀ other ∈ getMutations records, other.sequence < m.sequence := by
          intro other member
          apply keeps other
          rw [file, read_render]
          exact member
        have fresh : m.operationId ∉ (getMutations records).map (·.operationId) := by
          rw [gains_operationIds before]
          intro member
          obtain ⟨other, listed, equal⟩ := List.mem_map.mp member
          exact possible.2.2 other listed equal
        constructor
        · rw [same, List.pairwise_append]
          exact ⟨ordered.increasing, by simp, fun other member last only =>
            List.mem_singleton.mp only ▸ later other member⟩
        · rw [same]
          intro other member
          rcases List.mem_append.mp member with earlier | last
          · exact ordered.positive other earlier
          · exact List.mem_singleton.mp last ▸ possible.2.1
        · rw [same, List.map_append]
          simpa using ordered.distinct.concat fresh
  · constructor
    · simp only [step, read, getMutations_append]
      exact List.rel_append before (List.forall₂_same.mpr fun m _ => Gains.refl m)
    · simp only [step, read, getTransactions_append, transactions]
  · exact consistent.selected
  · exact consistent.computed

theorem Consistent.bindRead (consistent : state.Consistent) (binder : Nat) :
    (state.step (.bindRead binder)).Consistent := by
  simp only [step]
  split
  · next results _ =>
    apply consistent.setBinder
    · intro read unbound stage
      split at stage
      · next updated =>
        cases stage
        obtain ⟨m, member, _⟩ := List.any_eq_true.mp updated
        refine ⟨by simpa using List.ne_nil_of_mem member, ?_⟩
        intro u listed
        obtain ⟨origin, here, rfl⟩ := List.mem_map.mp listed
        exact ⟨origin, here, bindEntry_gains results (by simpa using (List.mem_filter.mp here).2)⟩
      · simp at stage
    · intro read text stage
      split at stage <;> simp at stage
  · exact consistent

theorem Consistent.bindReread (consistent : state.Consistent) (binder : Nat)
    (keeps : state.Keeps (.bindReread binder)) : (state.step (.bindReread binder)).Consistent := by
  simp only [step]
  split
  · next read unbound stage =>
    have rebinds := consistent.selected binder read unbound stage
    apply consistent.setBinder
    · intro _ _ other
      simp at other
    · intro _ _ here
      cases here
      refine ⟨unbound, ⟨rebinds.1, ?_⟩, rfl⟩
      intro u listed
      obtain ⟨origin, earlier, gains⟩ := rebinds.2 u listed
      have still : ∀ m ∈ unboundOf (readJournalRecords read),
          m ∈ unboundOf (readJournalRecords state.file) := by
        simpa [Keeps, StillUnbound, stage] using keeps
      exact ⟨origin, still origin earlier, gains⟩
  · exact consistent

theorem Consistent.bindWrite (consistent : state.Consistent) (binder : Nat)
    (keeps : state.Keeps (.bindWrite binder)) : (state.step (.bindWrite binder)).Consistent := by
  simp only [step]
  split
  · next read text stage =>
    obtain ⟨unbound, rebinds, rfl⟩ := consistent.computed binder read text stage
    have unchanged : state.file = read := by simpa [Keeps, Unchanged, stage] using keeps
    rw [← unchanged] at rebinds ⊢
    have ordered := consistent.ordered
    have quiet := consistent.setBinder binder none (fun _ _ none' => by simp at none')
      fun _ _ none' => by simp at none'
    rw [rewrite_render ordered rebinds]
    constructor
    · exact ⟨_, rfl⟩
    · simp only [read_render]
      exact ordered.rebound rebinds
    · constructor
      · simp only [read_render, getMutations_append, getMutations_transactions,
          getMutations_mutations, List.nil_append]
        exact gains_map consistent.preserved.mutations fun m member =>
          rebind_gains rebinds ordered.distinct member
      · simp only [read_render, getTransactions_append, getTransactions_transactions,
          getTransactions_mutations, List.append_nil]
        exact consistent.preserved.transactions
    · exact quiet.selected
    · exact quiet.computed
  · exact consistent

theorem step_consistent (state : JournalState) (event : JournalEvent) (consistent : state.Consistent)
    (guarded : state.Possible event ∧ state.Keeps event) : (state.step event).Consistent := by
  cases event with
  | append record => exact consistent.append record guarded.1 guarded.2
  | bindStart binder entries =>
      simp only [step]
      split
      · exact consistent.setBinder binder _ (fun _ _ other => by simp at other)
          fun _ _ other => by simp at other
      · exact consistent
  | bindRead binder => exact consistent.bindRead binder
  | bindReread binder => exact consistent.bindReread binder guarded.2
  | bindWrite binder => exact consistent.bindWrite binder guarded.2

end Steps

def resumedSequence (file : Text) : Nat :=
  (getMutations (readJournalRecords file)).foldl (fun max m => Nat.max max m.sequence) 0

def Resumes (records : List JournalRecord) (file : Text) : Prop :=
  (∀ record ∈ records, record ∈ readJournalRecords file) ∧
    ∀ m ∈ getMutations records, m.sequence ≤ resumedSequence file

theorem le_resumedSequence {file : Text} {m : MutationRecord}
    (member : m ∈ getMutations (readJournalRecords file)) : m.sequence ≤ resumedSequence file := by
  have bound : ∀ (mutations : List MutationRecord) (start : Nat),
      start ≤ mutations.foldl (fun max m => Nat.max max m.sequence) start ∧
        ∀ m ∈ mutations, m.sequence ≤ mutations.foldl (fun max m => Nat.max max m.sequence) start := by
    intro mutations
    induction mutations with
    | nil => simp
    | cons first rest ih =>
        intro start
        have ⟨above, each⟩ := ih (Nat.max start first.sequence)
        refine ⟨(Nat.le_max_left _ _).trans above, ?_⟩
        intro m member
        rcases List.mem_cons.mp member with rfl | later
        · exact (Nat.le_max_right _ _).trans above
        · exact each m later
  exact (bound _ 0).2 m member

theorem resumes_of_records {records : List JournalRecord} {file : Text}
    (all : ∀ record ∈ records, record ∈ readJournalRecords file) : Resumes records file := by
  refine ⟨all, ?_⟩
  intro m member
  apply le_resumedSequence
  simp only [getMutations, List.mem_filterMap] at member ⊢
  obtain ⟨record, listed, same⟩ := member
  exact ⟨record, all record listed, same⟩

/-- Journals keep their records, and a torn last line is the end of all of them. -/
theorem journal_keeps_records (events : List JournalEvent)
    (guarded : Runs.Along step (fun state event => state.Possible event ∧ state.Keeps event)
      start events) :
    (Runs.run step start events).Preserved ∧
    ∀ (records : List JournalRecord) (record : JournalRecord) (torn lost : Text),
      line record = torn ++ lost → lost ≠ [] →
      (Resumes records (render records ++ torn) ↔ records = [] ∨ torn = [] ∨ lost = ['\n']) := by
  constructor
  · exact (Runs.along_invariant step step_consistent start events start_consistent guarded).preserved
  · intro records record torn lost split torn'
    have read := read_torn records record split torn'
    constructor
    · intro resumes
      by_contra neither
      rw [not_or, not_or] at neither
      rw [if_neg neither.2.1, if_neg neither.2.2] at read
      obtain ⟨first, member⟩ := List.exists_mem_of_ne_nil _ neither.1
      have lost' := resumes.1 first member
      simp [read] at lost'
    · intro either
      apply resumes_of_records
      rw [read]
      intro other member
      rcases either with rfl | rfl | rfl
      · simp at member
      · simpa using member
      · split
        · exact member
        · simp [member]

section Cases

def captured (sequence : Nat) (operationId : Text) : MutationRecord :=
  { sequence
    operationId
    piSessionId := []
    treeEntryId := none
    toolCallId := ['c']
    tool := .write
    canonicalPath := ['f']
    before := .absent
    after := .absent
    state := .unbound
    toolReportedError := false
    preparedAt := [] }

def resultEntry : ResultEntry :=
  { id := ['e']
    isToolResult := true
    toolCallId := some ['c'] }

def boundInTurn : List JournalEvent :=
  [.append (.mutation (captured 1 ['1'])), .bindStart 0 [resultEntry], .bindRead 0, .bindReread 0,
    .bindWrite 0, .append (.mutation (captured 2 ['2']))]

theorem bound_in_turn_kept :
    (Runs.run step start boundInTurn).Preserved ∧
      Resumes [.mutation (captured 1 ['1'])]
        (render [.mutation (captured 1 ['1'])] ++ recordText (.mutation (captured 2 ['2']))) :=
  have kept := journal_keeps_records boundInTurn (by decide +kernel)
  ⟨kept.1,
    (kept.2 [.mutation (captured 1 ['1'])] (.mutation (captured 2 ['2'])) _ ['\n'] rfl
      (by decide)).mpr (.inr (.inr rfl))⟩

def appendedWhileBinding : List JournalEvent :=
  [.append (.mutation (captured 1 ['1'])), .bindStart 0 [resultEntry], .bindRead 0, .bindReread 0,
    .append (.mutation (captured 2 ['2'])), .bindWrite 0]

theorem appended_record_lost :
    (¬ ∀ events : List JournalEvent, Runs.Along step Possible start events →
      (Runs.run step start events).Preserved) ∧
    ¬ ∀ (records : List JournalRecord) (record : JournalRecord) (torn lost : Text),
      line record = torn ++ lost → lost ≠ [] → Resumes records (render records ++ torn) := by
  constructor
  · intro claim
    have preserved := claim appendedWhileBinding (by decide +kernel)
    have one : (getMutations (readJournalRecords
        (Runs.run step start appendedWhileBinding).file)).length = 1 := by decide +kernel
    have two := preserved.mutations.length_eq
    rw [one] at two
    exact absurd two (by decide +kernel)
  · intro claim
    have resumes := claim [.mutation (captured 1 ['1'])] (.mutation (captured 2 ['2'])) ['{']
      ((line (.mutation (captured 2 ['2']))).drop 1) (by decide +kernel) (by decide +kernel)
    have read : readJournalRecords (render [.mutation (captured 1 ['1'])] ++ ['{']) = [] := by
      decide +kernel
    have member := resumes.1 _ (List.mem_singleton.mpr rfl)
    simp [read] at member

end Cases

end JournalState

end GrokPi.Rollback
