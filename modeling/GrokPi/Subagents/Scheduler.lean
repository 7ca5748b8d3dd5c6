import GrokPi.Subagents.Runtime

set_option autoImplicit false

namespace GrokPi.Subagents

inductive Event where
  | schedule (id : RecordId)
  | prioritize (id : RecordId)
  | cancel (id : RecordId)
  | discard (id : RecordId) (reason : Text)
  | abort (id : RecordId)
  | ended (id : RecordId) (error : Option Text)
  | released (id : RecordId)

/-- `settling` are the runs that ended and still hold their slot. -/
structure Scheduler where
  runtime : Runtime
  scheduled : List RecordId
  settling : Finset RecordId

namespace Scheduler

def start (handlers : RecordId → Bool) : Scheduler :=
  { runtime :=
      { records := fun _ => .fresh
        queuedBackground := []
        runningBackgroundIds := ∅
        runningBackground := 0
        finishHandlers := handlers
        started := []
        handled := [] }
    scheduled := []
    settling := ∅ }

def step (state : Scheduler) : Event → Scheduler
  | .schedule id =>
      { state with
        runtime := (state.runtime.scheduleBackgroundTask id).1
        scheduled := state.scheduled ++ [id] }
  | .prioritize id => { state with runtime := (state.runtime.prioritizeBackground id).1 }
  | .cancel id => { state with runtime := state.runtime.cancel id }
  | .discard id reason => { state with runtime := state.runtime.discard id reason }
  | .abort id => { state with runtime := state.runtime.onAbort id }
  | .ended id error =>
      { state with runtime := state.runtime.endRun id error, settling := insert id state.settling }
  | .released id =>
      { state with runtime := state.runtime.releaseSlot id, settling := state.settling.erase id }

/-- A record is scheduled once, and a run ends once and then releases its slot. -/
def Possible (state : Scheduler) : Event → Prop
  | .schedule id => id ∉ state.scheduled
  | .ended id _ => id ∈ state.runtime.runningBackgroundIds ∧ id ∉ state.settling
  | .released id => id ∈ state.settling
  | _ => True

/-- A freed slot passes over finished records only. -/
def Keeps (state : Scheduler) : Event → Prop
  | .released _ =>
      ∀ id ∈ state.runtime.queuedBackground.takeWhile state.runtime.skipped,
        (state.runtime.records id).finished = true
  | _ => True

instance possible_decidable (state : Scheduler) : DecidablePred state.Possible
  | .schedule id => inferInstanceAs (Decidable (id ∉ state.scheduled))
  | .ended id _ =>
      inferInstanceAs (Decidable (id ∈ state.runtime.runningBackgroundIds ∧ id ∉ state.settling))
  | .released id => inferInstanceAs (Decidable (id ∈ state.settling))
  | .prioritize _ | .cancel _ | .discard _ _ | .abort _ => inferInstanceAs (Decidable True)

instance keeps_decidable (state : Scheduler) : DecidablePred state.Keeps
  | .released _ => inferInstanceAs (Decidable (∀ id ∈ List.takeWhile _ _, _))
  | .schedule _ | .ended _ _ | .prioritize _ | .cancel _ | .discard _ _ | .abort _ =>
      inferInstanceAs (Decidable True)

def Tracked (state : Scheduler) (id : RecordId) : Prop :=
  (state.runtime.records id).finished = true ∨ id ∈ state.runtime.queuedBackground ∨
    id ∈ state.runtime.runningBackgroundIds

structure Sound (state : Scheduler) : Prop where
  count : state.runtime.runningBackground = state.runtime.runningBackgroundIds.card
  bound : state.runtime.runningBackground ≤ maxBackgroundConcurrency
  full : state.runtime.queuedBackground ≠ [] →
    state.runtime.runningBackground = maxBackgroundConcurrency
  startedOnce : state.runtime.started.Nodup
  handledOnce : (state.runtime.handled.map Prod.fst).Nodup
  tracked : ∀ id ∈ state.scheduled, state.Tracked id
  quiet : state.runtime.queuedBackground = [] → state.runtime.runningBackground = 0 →
    ∀ id ∈ state.scheduled, (state.runtime.records id).done = true

structure Consistent (state : Scheduler) : Prop where
  count : state.runtime.runningBackground = state.runtime.runningBackgroundIds.card
  bound : state.runtime.runningBackground ≤ maxBackgroundConcurrency
  full : state.runtime.queuedBackground ≠ [] →
    state.runtime.runningBackground = maxBackgroundConcurrency
  queuedOnce : state.runtime.queuedBackground.Nodup
  startedOnce : state.runtime.started.Nodup
  apart : ∀ id ∈ state.runtime.queuedBackground, id ∉ state.runtime.started
  runningStarted : ∀ id ∈ state.runtime.runningBackgroundIds, id ∈ state.runtime.started
  queuedScheduled : ∀ id ∈ state.runtime.queuedBackground, id ∈ state.scheduled
  startedScheduled : ∀ id ∈ state.runtime.started, id ∈ state.scheduled
  settlingRunning : ∀ id ∈ state.settling, id ∈ state.runtime.runningBackgroundIds
  settlingFinished : ∀ id ∈ state.settling, (state.runtime.records id).finished = true
  handledOnce : (state.runtime.handled.map Prod.fst).Nodup
  handledGone : ∀ entry ∈ state.runtime.handled, state.runtime.finishHandlers entry.1 = false
  tracked : ∀ id ∈ state.scheduled, state.Tracked id
  done : ∀ id, (state.runtime.records id).done = (state.runtime.records id).finished

theorem Consistent.sound {state : Scheduler} (consistent : state.Consistent) : state.Sound := by
  refine { consistent with quiet := ?_ }
  intro empty idle id scheduled
  have nothing : state.runtime.runningBackgroundIds = ∅ := by
    rw [← Finset.card_eq_zero, ← consistent.count, idle]
  rw [consistent.done]
  rcases consistent.tracked id scheduled with finished | queued | running
  · exact finished
  · simp [empty] at queued
  · simp [nothing] at running

theorem start_consistent (handlers : RecordId → Bool) : (start handlers).Consistent := by
  constructor <;> simp [start, SubagentRecord.fresh]

section Steps

variable {state : Scheduler}

theorem Consistent.finish (consistent : state.Consistent) (id : RecordId) (status : TerminalStatus)
    (error : Option Text) :
    Consistent { state with runtime := state.runtime.finish id status error } := by
  by_cases already : (state.runtime.records id).finished = true
  · rw [Runtime.finish_finished_self id status error already]
    exact consistent
  have handled := Runtime.finish_handled id status error (Bool.eq_false_iff.mpr already)
  constructor
  · simpa using consistent.count
  · simpa using consistent.bound
  · simpa using consistent.full
  · simpa using consistent.queuedOnce
  · simpa using consistent.startedOnce
  · simpa using consistent.apart
  · simpa using consistent.runningStarted
  · simpa using consistent.queuedScheduled
  · simpa using consistent.startedScheduled
  · simpa using consistent.settlingRunning
  · intro other settling
    simp [consistent.settlingFinished other settling]
  · rw [handled.1]
    split
    next has =>
      rw [List.map_append, List.nodup_append]
      refine ⟨consistent.handledOnce, by simp, ?_⟩
      intro other earlier next' last same
      obtain ⟨entry, member, rfl⟩ := List.mem_map.mp earlier
      have gone := consistent.handledGone entry member
      simp only [List.map_cons, List.map_nil, List.mem_singleton] at last
      rw [same, last, has] at gone
      exact absurd gone (by decide)
    next => exact consistent.handledOnce
  · rw [handled.1, handled.2]
    intro entry member
    by_cases same : entry.1 = id
    · simp [same]
    · rw [Function.update_of_ne same]
      split at member
      · rcases List.mem_append.mp member with earlier | last
        · exact consistent.handledGone entry earlier
        · simp only [List.mem_singleton] at last
          exact absurd (congrArg Prod.fst last) same
      · exact consistent.handledGone entry member
  · intro other scheduled
    rcases consistent.tracked other scheduled with finished | queued | running
    · exact Or.inl (by simp [finished])
    · exact Or.inr (Or.inl (by simpa using queued))
    · exact Or.inr (Or.inr (by simpa using running))
  · exact Runtime.finish_done id status error consistent.done

theorem Consistent.requestCancel (consistent : state.Consistent) (id : RecordId) :
    Consistent { state with runtime := state.runtime.requestCancel id } := by
  have finished : ∀ other, ((state.runtime.requestCancel id).records other).finished =
      (state.runtime.records other).finished := by
    intro other
    by_cases same : other = id
    · subst same
      simp [Runtime.requestCancel, Runtime.updateRecord]
    · simp [Runtime.requestCancel, Runtime.updateRecord, same]
  have done : ∀ other, ((state.runtime.requestCancel id).records other).done =
      (state.runtime.records other).done := by
    intro other
    by_cases same : other = id
    · subst same
      simp [Runtime.requestCancel, Runtime.updateRecord]
    · simp [Runtime.requestCancel, Runtime.updateRecord, same]
  refine { consistent with settlingFinished := ?_, tracked := ?_, done := ?_ }
  · intro other settling
    rw [finished]
    exact consistent.settlingFinished other settling
  · intro other scheduled
    simp only [Tracked, finished]
    exact consistent.tracked other scheduled
  · intro other
    rw [finished, done]
    exact consistent.done other

theorem Consistent.requeue (consistent : state.Consistent) {queue : List RecordId}
    (once : queue.Nodup) (known : ∀ id ∈ queue, id ∈ state.runtime.queuedBackground)
    (lost : ∀ id ∈ state.runtime.queuedBackground, id ∉ queue →
      (state.runtime.records id).finished = true) :
    Consistent { state with runtime := { state.runtime with queuedBackground := queue } } := by
  refine { consistent with
      full := ?_, queuedOnce := ?_, apart := ?_, queuedScheduled := ?_, tracked := ?_ }
  · intro waiting
    obtain ⟨id, queued⟩ := List.exists_mem_of_ne_nil _ waiting
    exact consistent.full (List.ne_nil_of_mem (known id queued))
  · exact once
  · exact fun id queued => consistent.apart id (known id queued)
  · exact fun id queued => consistent.queuedScheduled id (known id queued)
  · intro id scheduled
    rcases consistent.tracked id scheduled with finished | queued | running
    · exact Or.inl finished
    · by_cases stays : id ∈ queue
      · exact Or.inr (Or.inl stays)
      · exact Or.inl (lost id queued stays)
    · exact Or.inr (Or.inr running)

theorem Consistent.prioritize (consistent : state.Consistent) (id : RecordId) :
    (state.step (.prioritize id)).Consistent := by
  simp only [step, Runtime.prioritizeBackground]
  split
  next queued =>
    apply consistent.requeue
    · exact (List.perm_cons_erase queued).nodup_iff.mp consistent.queuedOnce
    · intro other member
      exact (List.perm_cons_erase queued).mem_iff.mpr member
    · intro other member gone
      exact absurd ((List.perm_cons_erase queued).mem_iff.mp member) gone
  next => exact consistent

theorem Consistent.cancel (consistent : state.Consistent) (id : RecordId) :
    (state.step (.cancel id)).Consistent := by
  simp only [step, Runtime.cancel]
  split
  · exact consistent
  · split
    next queued =>
      rw [Runtime.finish_requeue]
      have finished :=
        (consistent.requestCancel id).finish id .cancelled (some Runtime.cancelledBeforeStart)
      apply finished.requeue
      · exact consistent.queuedOnce.erase id
      · intro other member
        simpa [Runtime.requestCancel, Runtime.updateRecord] using List.mem_of_mem_erase member
      · intro other member gone
        have same : other = id := by
          by_contra different
          apply gone
          rw [List.mem_erase_of_ne different]
          simpa [Runtime.requestCancel, Runtime.updateRecord] using member
        simp [same]
    next => exact consistent.requestCancel id

theorem Consistent.discard (consistent : state.Consistent) (id : RecordId) (reason : Text) :
    (state.step (.discard id reason)).Consistent := by
  simp only [step, Runtime.discard]
  split
  · exact consistent
  · have marked := consistent.requestCancel id
    have silenced : Consistent
        { state with
          runtime :=
            { state.runtime.requestCancel id with
              finishHandlers := Function.update state.runtime.finishHandlers id false } } := by
      refine { marked with handledGone := ?_ }
      intro entry member
      by_cases same : entry.1 = id
      · simp [same]
      · simpa [same] using consistent.handledGone entry member
    exact silenced.finish id .cancelled reason

theorem Consistent.abort (consistent : state.Consistent) (id : RecordId) :
    (state.step (.abort id)).Consistent := by
  simp only [step, Runtime.onAbort]
  split
  · exact consistent
  · exact consistent.requestCancel id

theorem Consistent.ended (consistent : state.Consistent) (id : RecordId) (error : Option Text)
    (running : id ∈ state.runtime.runningBackgroundIds) :
    (state.step (.ended id error)).Consistent := by
  simp only [step, Runtime.endRun]
  generalize (if (state.runtime.records id).cancelRequested then TerminalStatus.cancelled
    else if error.isSome then .failed else .completed) = status
  generalize (if (state.runtime.records id).cancelRequested then
    error.or (some "Subagent was cancelled.".toList) else error) = message
  have finished := consistent.finish id status message
  refine { finished with settlingRunning := ?_, settlingFinished := ?_ }
  · intro other settling
    rcases Finset.mem_insert.mp settling with rfl | earlier
    · simpa using running
    · exact finished.settlingRunning other earlier
  · intro other settling
    rcases Finset.mem_insert.mp settling with rfl | earlier
    · simp
    · exact finished.settlingFinished other earlier

theorem Consistent.enlist {next : Runtime} {id : RecordId} (kept : Consistent { state with runtime := next })
    (here : Tracked { state with runtime := next } id) :
    Consistent { state with runtime := next, scheduled := state.scheduled ++ [id] } := by
  refine { kept with queuedScheduled := ?_, startedScheduled := ?_, tracked := ?_ }
  · exact fun other queued => List.mem_append_left _ (kept.queuedScheduled other queued)
  · exact fun other started => List.mem_append_left _ (kept.startedScheduled other started)
  · intro other scheduled
    rcases List.mem_append.mp scheduled with earlier | last
    · exact kept.tracked other earlier
    · rw [List.mem_singleton.mp last]
      exact here

theorem Consistent.enqueue (consistent : state.Consistent) {id : RecordId}
    (unqueued : id ∉ state.runtime.queuedBackground) (unstarted : id ∉ state.runtime.started)
    (busy : maxBackgroundConcurrency ≤ state.runtime.runningBackground) :
    Consistent
      { state with
        runtime := { state.runtime with queuedBackground := state.runtime.queuedBackground ++ [id] }
        scheduled := state.scheduled ++ [id] } := by
  refine { consistent with
      full := ?_, queuedOnce := ?_, apart := ?_, queuedScheduled := ?_, startedScheduled := ?_,
      tracked := ?_ }
  · exact fun _ => Nat.le_antisymm consistent.bound busy
  · simpa using consistent.queuedOnce.concat unqueued
  · intro other queued
    rcases List.mem_append.mp queued with earlier | last
    · exact consistent.apart other earlier
    · rw [List.mem_singleton.mp last]
      exact unstarted
  · intro other queued
    exact List.mem_append.mpr ((List.mem_append.mp queued).imp_left (consistent.queuedScheduled other))
  · exact fun other started => List.mem_append_left _ (consistent.startedScheduled other started)
  · intro other scheduled
    rcases List.mem_append.mp scheduled with earlier | last
    · rcases consistent.tracked other earlier with finished | queued | running
      · exact Or.inl finished
      · exact Or.inr (Or.inl (List.mem_append_left _ queued))
      · exact Or.inr (Or.inr running)
    · exact Or.inr (Or.inl (List.mem_append_right _ last))

theorem Consistent.begin (consistent : state.Consistent) {id : RecordId}
    (unqueued : id ∉ state.runtime.queuedBackground) (unstarted : id ∉ state.runtime.started)
    (room : state.runtime.runningBackground < maxBackgroundConcurrency) :
    Consistent
      { state with
        runtime :=
          { state.runtime with
            runningBackground := state.runtime.runningBackground + 1
            runningBackgroundIds := insert id state.runtime.runningBackgroundIds
            started := state.runtime.started ++ [id] }
        scheduled := state.scheduled ++ [id] } := by
  have idle : id ∉ state.runtime.runningBackgroundIds :=
    fun running => unstarted (consistent.runningStarted id running)
  constructor
  · simpa [Finset.card_insert_of_notMem idle] using consistent.count
  · exact room
  · intro waiting
    have all := consistent.full waiting
    omega
  · exact consistent.queuedOnce
  · simpa using consistent.startedOnce.concat unstarted
  · intro other queued started
    rcases List.mem_append.mp started with earlier | last
    · exact consistent.apart other queued earlier
    · exact unqueued (List.mem_singleton.mp last ▸ queued)
  · intro other running
    rcases Finset.mem_insert.mp running with rfl | earlier
    · simp
    · exact List.mem_append_left _ (consistent.runningStarted other earlier)
  · exact fun other queued => List.mem_append_left _ (consistent.queuedScheduled other queued)
  · intro other started
    exact List.mem_append.mpr ((List.mem_append.mp started).imp_left (consistent.startedScheduled other))
  · exact fun other settling => Finset.mem_insert_of_mem (consistent.settlingRunning other settling)
  · exact consistent.settlingFinished
  · exact consistent.handledOnce
  · exact consistent.handledGone
  · intro other scheduled
    rcases List.mem_append.mp scheduled with earlier | last
    · rcases consistent.tracked other earlier with finished | queued | running
      · exact Or.inl finished
      · exact Or.inr (Or.inl queued)
      · exact Or.inr (Or.inr (Finset.mem_insert_of_mem running))
    · exact Or.inr (Or.inr (List.mem_singleton.mp last ▸ Finset.mem_insert_self _ _))
  · exact consistent.done

theorem Consistent.schedule (consistent : state.Consistent) (id : RecordId)
    (first : id ∉ state.scheduled) : (state.step (.schedule id)).Consistent := by
  have unqueued : id ∉ state.runtime.queuedBackground :=
    fun queued => first (consistent.queuedScheduled id queued)
  have unstarted : id ∉ state.runtime.started :=
    fun started => first (consistent.startedScheduled id started)
  simp only [step, Runtime.scheduleBackgroundTask]
  split
  next finished => exact consistent.enlist (Or.inl finished)
  next =>
    split
    next => exact (consistent.finish id _ _).enlist (Or.inl (by simp))
    next =>
      split
      next busy => exact consistent.enqueue unqueued unstarted busy
      next free => exact consistent.begin unqueued unstarted (Nat.lt_of_not_le free)

theorem Consistent.drained (consistent : state.Consistent) (id : RecordId)
    (keeps : state.Keeps (.released id)) :
    Consistent
      { state with
        runtime :=
          { state.runtime with
            queuedBackground := state.runtime.queuedBackground.dropWhile state.runtime.skipped } } := by
  have split := List.takeWhile_append_dropWhile (p := state.runtime.skipped)
    (l := state.runtime.queuedBackground)
  apply consistent.requeue
  · exact consistent.queuedOnce.sublist (List.dropWhile_suffix _).sublist
  · exact fun other member => (List.dropWhile_suffix _).subset member
  · intro other member gone
    apply keeps
    rw [← split] at member
    exact (List.mem_append.mp member).resolve_right gone

theorem Consistent.settling_erase (consistent : state.Consistent) (id : RecordId) :
    ∀ other ∈ state.settling.erase id, other ∈ state.runtime.runningBackgroundIds.erase id := by
  intro other member
  have ⟨different, earlier⟩ := Finset.mem_erase.mp member
  exact Finset.mem_erase.mpr ⟨different, consistent.settlingRunning other earlier⟩

theorem Consistent.released_last (consistent : state.Consistent) (id : RecordId)
    (settling : id ∈ state.settling)
    (rest : state.runtime.queuedBackground.dropWhile state.runtime.skipped = [])
    (keeps : state.Keeps (.released id)) : (state.step (.released id)).Consistent := by
  have drained := consistent.drained id keeps
  have running := consistent.settlingRunning id settling
  have count := consistent.count
  have positive : 0 < state.runtime.runningBackgroundIds.card := Finset.card_pos.mpr ⟨id, running⟩
  rw [rest] at drained
  simp only [step, Runtime.releaseSlot, rest]
  constructor
  · simp only [Finset.card_erase_of_mem running]
    omega
  · have bound := consistent.bound
    simp only
    omega
  · simp
  · simp
  · exact consistent.startedOnce
  · simp
  · exact fun other member => consistent.runningStarted other (Finset.mem_of_mem_erase member)
  · simp
  · exact consistent.startedScheduled
  · exact consistent.settling_erase id
  · exact fun other member => consistent.settlingFinished other (Finset.mem_of_mem_erase member)
  · exact consistent.handledOnce
  · exact consistent.handledGone
  · intro other scheduled
    rcases drained.tracked other scheduled with already | queued | still
    · exact Or.inl already
    · exact absurd queued (by simp)
    · by_cases same : other = id
      · exact Or.inl (same ▸ consistent.settlingFinished id settling)
      · exact Or.inr (Or.inr (Finset.mem_erase.mpr ⟨same, still⟩))
  · exact consistent.done

theorem Consistent.released_next (consistent : state.Consistent) (id : RecordId)
    (settling : id ∈ state.settling) {next : RecordId} {later : List RecordId}
    (rest : state.runtime.queuedBackground.dropWhile state.runtime.skipped = next :: later)
    (keeps : state.Keeps (.released id)) : (state.step (.released id)).Consistent := by
  have drained := consistent.drained id keeps
  have running := consistent.settlingRunning id settling
  have count := consistent.count
  have positive : 0 < state.runtime.runningBackgroundIds.card := Finset.card_pos.mpr ⟨id, running⟩
  rw [rest] at drained
  have waits : next ∈ next :: later := List.mem_cons_self
  have full : state.runtime.runningBackground = maxBackgroundConcurrency := drained.full (by simp)
  have unskipped : state.runtime.skipped next = false := by
    have head := List.head?_dropWhile_not state.runtime.skipped state.runtime.queuedBackground
    simpa [rest] using head
  have unstarted : next ∉ state.runtime.started := drained.apart next waits
  have idle : next ∉ state.runtime.runningBackgroundIds.erase id := fun member =>
    unstarted (consistent.runningStarted next (Finset.mem_of_mem_erase member))
  have once : next ∉ later ∧ later.Nodup := List.nodup_cons.mp drained.queuedOnce
  simp only [Runtime.skipped, Bool.or_eq_false_iff] at unskipped
  have room : ¬ maxBackgroundConcurrency ≤ state.runtime.runningBackground - 1 := by
    rw [full]
    decide
  simp only [step, Runtime.releaseSlot, rest, Runtime.scheduleBackgroundTask, unskipped.1, unskipped.2,
    Bool.false_eq_true, if_false, if_neg room]
  constructor
  · simp only [Finset.card_insert_of_notMem idle, Finset.card_erase_of_mem running]
    omega
  · have bound := consistent.bound
    simp only
    omega
  · intro _
    simp only
    omega
  · exact once.2
  · simpa using consistent.startedOnce.concat unstarted
  · intro other queued started
    rcases List.mem_append.mp started with earlier | last
    · exact drained.apart other (List.mem_cons_of_mem _ queued) earlier
    · exact once.1 (List.mem_singleton.mp last ▸ queued)
  · intro other member
    rcases Finset.mem_insert.mp member with rfl | earlier
    · simp
    · exact List.mem_append_left _ (consistent.runningStarted other (Finset.mem_of_mem_erase earlier))
  · exact fun other queued => drained.queuedScheduled other (List.mem_cons_of_mem _ queued)
  · intro other started
    rcases List.mem_append.mp started with earlier | last
    · exact consistent.startedScheduled other earlier
    · exact List.mem_singleton.mp last ▸ drained.queuedScheduled next waits
  · exact fun other member => Finset.mem_insert_of_mem (consistent.settling_erase id other member)
  · exact fun other member => consistent.settlingFinished other (Finset.mem_of_mem_erase member)
  · exact consistent.handledOnce
  · exact consistent.handledGone
  · intro other scheduled
    rcases drained.tracked other scheduled with already | queued | still
    · exact Or.inl already
    · rcases List.mem_cons.mp queued with rfl | queued
      · exact Or.inr (Or.inr (Finset.mem_insert_self _ _))
      · exact Or.inr (Or.inl queued)
    · by_cases same : other = id
      · exact Or.inl (same ▸ consistent.settlingFinished id settling)
      · exact Or.inr (Or.inr (Finset.mem_insert_of_mem (Finset.mem_erase.mpr ⟨same, still⟩)))
  · exact consistent.done

theorem Consistent.released (consistent : state.Consistent) (id : RecordId)
    (settling : id ∈ state.settling) (keeps : state.Keeps (.released id)) :
    (state.step (.released id)).Consistent := by
  cases rest : state.runtime.queuedBackground.dropWhile state.runtime.skipped with
  | nil => exact consistent.released_last id settling rest keeps
  | cons next later => exact consistent.released_next id settling rest keeps

theorem Consistent.passed_over (consistent : state.Consistent) (id other : RecordId)
    (passed : other ∈ state.runtime.queuedBackground.takeWhile state.runtime.skipped)
    (unfinished : (state.runtime.records other).finished = false) :
    ¬ (state.step (.released id)).Tracked other := by
  have split := List.takeWhile_append_dropWhile (p := state.runtime.skipped)
    (l := state.runtime.queuedBackground)
  have queued : other ∈ state.runtime.queuedBackground := (List.takeWhile_prefix _).subset passed
  have gone : other ∉ state.runtime.queuedBackground.dropWhile state.runtime.skipped := by
    have once := consistent.queuedOnce
    rw [← split, List.nodup_append] at once
    exact fun later => once.2.2 other passed other later rfl
  have idle : other ∉ state.runtime.runningBackgroundIds := fun running =>
    consistent.apart other queued (consistent.runningStarted other running)
  simp only [step, Runtime.releaseSlot]
  cases rest : state.runtime.queuedBackground.dropWhile state.runtime.skipped with
  | nil => simp [Tracked, unfinished, idle]
  | cons next later =>
      rw [rest] at gone
      have ⟨different, unqueued⟩ := not_or.mp (mt List.mem_cons.mpr gone)
      simp only [Runtime.scheduleBackgroundTask]
      split
      · simp [Tracked, unfinished, idle, unqueued]
      · split
        · simp [Tracked, unfinished, idle, unqueued, different]
        · split <;> simp [Tracked, unfinished, idle, unqueued, different]

theorem step_consistent (state : Scheduler) (event : Event) (consistent : state.Consistent)
    (possible : state.Possible event) (keeps : state.Keeps event) : (state.step event).Consistent := by
  cases event with
  | schedule id => exact consistent.schedule id possible
  | prioritize id => exact consistent.prioritize id
  | cancel id => exact consistent.cancel id
  | discard id reason => exact consistent.discard id reason
  | abort id => exact consistent.abort id
  | ended id error => exact consistent.ended id error possible.1
  | released id => exact consistent.released id possible keeps

theorem step_sound (state : Scheduler) (event : Event) (consistent : state.Consistent)
    (possible : state.Possible event) : (state.step event).Sound ↔ state.Keeps event := by
  constructor
  · intro sound
    cases event with
    | released id =>
        intro other passed
        by_contra unfinished
        have queued := (List.takeWhile_prefix state.runtime.skipped).subset passed
        apply consistent.passed_over id other passed (Bool.eq_false_iff.mpr unfinished)
        exact sound.tracked other (consistent.queuedScheduled other queued)
    | _ => trivial
  · exact fun keeps => (step_consistent state event consistent possible keeps).sound

end Steps

theorem no_run_is_lost (handlers : RecordId → Bool) (events : List Event)
    (possible : Runs.Along step Possible (start handlers) events) :
    Runs.Along step (fun state event => (state.step event).Sound) (start handlers) events ↔
      Runs.Along step Keeps (start handlers) events :=
  Runs.along_iff step step_sound step_consistent (start handlers) events
    (start_consistent handlers) possible

def cancelledInQueue : List Event :=
  [.schedule 0, .schedule 1, .schedule 2, .schedule 3, .schedule 4, .cancel 4, .ended 0 none,
    .released 0]

theorem no_run_is_lost_cancelled :
    Runs.Along step Keeps (start fun _ => true) cancelledInQueue ∧
      Runs.Along step (fun state event => (state.step event).Sound) (start fun _ => true)
        cancelledInQueue :=
  ⟨by decide, (no_run_is_lost (fun _ => true) cancelledInQueue (by decide)).mpr (by decide)⟩

def abortedInQueue : List Event :=
  [.schedule 0, .schedule 1, .schedule 2, .schedule 3, .schedule 4, .abort 4, .ended 0 none,
    .released 0]

theorem aborted_run_lost :
    ¬ ∀ (handlers : RecordId → Bool) (events : List Event),
      Runs.Along step Possible (start handlers) events →
      Runs.Along step (fun state event => (state.step event).Sound) (start handlers) events := by
  intro claim
  have sound := claim (fun _ => true) abortedInQueue (by decide)
  have last := (Runs.along_append step _ _ (abortedInQueue.take 7) [.released 0]).mp sound
  have tracked := last.2.1.tracked 4 (by decide)
  revert tracked
  simp only [Tracked]
  decide

end Scheduler

end GrokPi.Subagents
