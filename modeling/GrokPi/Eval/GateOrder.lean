import Mathlib
import GrokPi.Eval.GateSlots

set_option autoImplicit false

namespace GrokPi.Eval

open HostCallGate

variable {Value : Type}

/-- The works in progress and then the queue stand in submission order, and a submitted
job waits, is scheduled, has been called or was aborted. -/
structure Lined (gate : HostCallGate Value) : Prop where
  numbered : gate.jobs.map (·.id) = List.range gate.jobs.length
  known : ∀ job ∈ gate.runningJobs ++ gate.queuedJobs, job ∈ gate.jobs
  lined : (gate.runningJobs ++ gate.queuedJobs).Pairwise fun first second => first.id < second.id
  called : gate.invoked.Pairwise (· < ·)
  called_known : ∀ id ∈ gate.invoked, id < gate.jobs.length
  called_first : ∀ id ∈ gate.invoked, ∀ job ∈ gate.queuedJobs, id < job.id
  called_scheduled : ∀ id ∈ gate.invoked, ∀ entry ∈ gate.running,
    entry.phase = .starting → id < entry.job.id
  aborted : ∀ queued ∈ gate.queue, queued.aborted = true →
    queued.job.signal ∈ gate.abortedSignals
  placed : ∀ job ∈ gate.jobs, job ∈ gate.queuedJobs ∨ ⟨job, .starting⟩ ∈ gate.running ∨
    job.id ∈ gate.invoked ∨ job.signal ∈ gate.abortedSignals

variable {gate : HostCallGate Value}

theorem Lined.same_job (lined : Lined gate) {first second : Job}
    (first_known : first ∈ gate.jobs) (second_known : second ∈ gate.jobs)
    (same : first.id = second.id) : first = second := by
  have distinct : (gate.jobs.map (·.id)).Nodup := by
    rw [lined.numbered]
    exact List.nodup_range
  exact List.inj_on_of_nodup_map distinct first_known second_known same

theorem Lined.id_lt (lined : Lined gate) {job : Job}
    (known : job ∈ gate.jobs) : job.id < gate.jobs.length := by
  have member : job.id ∈ gate.jobs.map (·.id) := List.mem_map_of_mem known
  rw [lined.numbered] at member
  exact List.mem_range.mp member

theorem Lined.same_entry (lined : Lined gate)
    {first second : RunningJob} (first_known : first ∈ gate.running)
    (second_known : second ∈ gate.running) (same : first.job.id = second.job.id) : first = second := by
  have sorted := (List.pairwise_append.mp lined.lined).1
  have distinct : (gate.running.map (fun entry => entry.job.id)).Nodup := by
    rw [runningJobs, List.pairwise_map] at sorted
    rw [List.Nodup, List.pairwise_map]
    exact sorted.imp fun earlier => Nat.ne_of_lt earlier
  exact List.inj_on_of_nodup_map distinct first_known second_known same

theorem takeSlot_fields (gate : HostCallGate Value) (mode : HostCallExecutionMode) :
    (takeSlot gate mode).queue = gate.queue ∧ (takeSlot gate mode).running = gate.running ∧
      (takeSlot gate mode).races = gate.races ∧ (takeSlot gate mode).jobs = gate.jobs ∧
      (takeSlot gate mode).abortedSignals = gate.abortedSignals ∧
      (takeSlot gate mode).invoked = gate.invoked ∧
      (takeSlot gate mode).settled = gate.settled := by
  cases mode <;> simp [takeSlot]

theorem Lined.drop {next : QueuedJob} {rest : List QueuedJob}
    (isAborted : next.aborted = true) (lined : Lined { gate with queue := next :: rest }) :
    Lined { gate with queue := rest } where
  numbered := lined.numbered
  known job member := by
    apply lined.known
    simp only [runningJobs, queuedJobs, List.mem_append, List.map_cons, List.mem_cons] at member ⊢
    tauto
  lined := by
    refine lined.lined.sublist ?_
    exact List.Sublist.append_left (List.sublist_cons_self _ _) _
  called := lined.called
  called_known := lined.called_known
  called_first id member job queued :=
    lined.called_first id member job (List.mem_cons_of_mem _ queued)
  called_scheduled := lined.called_scheduled
  aborted queued member := lined.aborted queued (List.mem_cons_of_mem _ member)
  placed job known := by
    rcases lined.placed job known with queued | scheduled | called | aborted
    · simp only [queuedJobs, List.map_cons, List.mem_cons] at queued
      rcases queued with rfl | queued
      -- the dropped head is a job whose signal aborted
      · exact Or.inr (Or.inr (Or.inr (lined.aborted next (by simp) isAborted)))
      · exact Or.inl queued
    · exact Or.inr (Or.inl scheduled)
    · exact Or.inr (Or.inr (Or.inl called))
    · exact Or.inr (Or.inr (Or.inr aborted))

theorem Lined.enter {next : QueuedJob} {rest : List QueuedJob}
    (lined : Lined { gate with queue := next :: rest }) :
    Lined (start (takeSlot { gate with queue := rest } next.job.mode) next.job) := by
  obtain ⟨queue, running, races, jobs, signals, invoked, settled⟩ :=
    takeSlot_fields { gate with queue := rest } next.job.mode
  have together : (start (takeSlot { gate with queue := rest } next.job.mode) next.job).runningJobs
      ++ (start (takeSlot { gate with queue := rest } next.job.mode) next.job).queuedJobs =
      ({ gate with queue := next :: rest } : HostCallGate Value).runningJobs ++
        ({ gate with queue := next :: rest } : HostCallGate Value).queuedJobs := by
    simp [start, runningJobs, queuedJobs, queue, running]
  exact {
    numbered := by
      simp only [start, jobs]
      exact lined.numbered
    known := by
      rw [together]
      simp only [start, jobs]
      exact lined.known
    lined := by
      rw [together]
      exact lined.lined
    called := by
      simp only [start, invoked]
      exact lined.called
    called_known := by
      simp only [start, invoked, jobs]
      exact lined.called_known
    called_first := by
      simp only [start, invoked, queuedJobs, queue]
      intro id member job queued
      exact lined.called_first id member job (List.mem_cons_of_mem _ queued)
    called_scheduled := by
      simp only [start, invoked, running, List.mem_append, List.mem_singleton]
      rintro id member entry (old | rfl) scheduled
      · exact lined.called_scheduled id member entry old scheduled
      · exact lined.called_first id member next.job (by simp [queuedJobs])
    aborted := by
      simp only [start, queue, signals]
      intro queued member
      exact lined.aborted queued (List.mem_cons_of_mem _ member)
    placed := by
      simp only [start, jobs, queuedJobs, queue, running, invoked, signals, List.mem_append,
        List.mem_singleton]
      intro job known
      rcases lined.placed job known with queued | scheduled | rest
      · simp only [queuedJobs, List.map_cons, List.mem_cons] at queued
        rcases queued with rfl | queued
        · exact Or.inr (Or.inl (Or.inr rfl))
        · exact Or.inl queued
      · exact Or.inr (Or.inl (Or.inl scheduled))
      · exact Or.inr (Or.inr rest) }

theorem Lined.pump (lined : Lined gate) : Lined gate.pump :=
  pump_invariant (fun _ _ _ isAborted before => before.drop isAborted)
    (fun _ _ _ _ _ _ before => before.enter) gate lined

theorem Lined.congr {gate changed : HostCallGate Value} (lined : Lined gate)
    (jobs : changed.jobs = gate.jobs) (queue : changed.queue = gate.queue)
    (running : changed.running = gate.running) (invoked : changed.invoked = gate.invoked)
    (signals : ∀ signal ∈ gate.abortedSignals, signal ∈ changed.abortedSignals) :
    Lined changed where
  numbered := by rw [jobs]; exact lined.numbered
  known := by
    simp only [runningJobs, queuedJobs, jobs, queue, running]
    exact lined.known
  lined := by
    simp only [runningJobs, queuedJobs, queue, running]
    exact lined.lined
  called := by rw [invoked]; exact lined.called
  called_known := by rw [invoked, jobs]; exact lined.called_known
  called_first := by
    simp only [queuedJobs, queue, invoked]
    exact lined.called_first
  called_scheduled := by rw [invoked, running]; exact lined.called_scheduled
  aborted queued member isAborted := by
    rw [queue] at member
    exact signals _ (lined.aborted queued member isAborted)
  placed job known := by
    rw [jobs] at known
    simp only [queuedJobs, queue, running, invoked]
    rcases lined.placed job known with queued | scheduled | called | aborted
    · exact Or.inl queued
    · exact Or.inr (Or.inl scheduled)
    · exact Or.inr (Or.inr (Or.inl called))
    · exact Or.inr (Or.inr (Or.inr (signals _ aborted)))


theorem setPhase_starting {id : Nat} {phase : Phase} (moved : phase ≠ .starting) {entry : RunningJob}
    (member : entry ∈ (setPhase gate id phase).running) (scheduled : entry.phase = .starting) :
    entry ∈ gate.running ∧ entry.job.id ≠ id := by
  simp only [setPhase, List.mem_map] at member
  obtain ⟨old, known, same⟩ := member
  split at same
  · subst same
    exact absurd scheduled moved
  · rename_i other
    subst same
    exact ⟨known, other⟩

theorem Lined.advance (lined : Lined gate) (id : Nat) (phase : Phase) (moved : phase ≠ .starting)
    (handled : ∀ job, ⟨job, .starting⟩ ∈ gate.running → job.id = id →
      job.signal ∈ gate.abortedSignals) : Lined (setPhase gate id phase) where
  numbered := lined.numbered
  known := by
    rw [setPhase_runningJobs]
    exact lined.known
  lined := by
    rw [setPhase_runningJobs]
    exact lined.lined
  called := lined.called
  called_known := lined.called_known
  called_first := lined.called_first
  called_scheduled called member entry listed scheduled :=
    lined.called_scheduled called member entry (setPhase_starting moved listed scheduled).1
      scheduled
  aborted := lined.aborted
  placed job known := by
    rcases lined.placed job known with queued | scheduled | called | aborted
    · exact Or.inl queued
    · by_cases same : job.id = id
      · exact Or.inr (Or.inr (Or.inr (handled job scheduled same)))
      · refine Or.inr (Or.inl ?_)
        simp only [setPhase, List.mem_map]
        exact ⟨_, scheduled, by simp [same]⟩
    · exact Or.inr (Or.inr (Or.inl called))
    · exact Or.inr (Or.inr (Or.inr aborted))

theorem Lined.call (lined : Lined gate) {entry : RunningJob}
    (found : gate.running.find? (fun entry => entry.phase = .starting) = some entry) :
    Lined { setPhase gate entry.job.id .working with
            invoked := gate.invoked ++ [entry.job.id] } := by
  obtain ⟨before, after, split, -, starting, skipped⟩ := find_split found
  have scheduled : entry.phase = .starting := by simpa using starting
  have here : entry ∈ gate.running := by simp [split]
  have listed : entry.job ∈ gate.runningJobs := List.mem_map_of_mem here
  have known := lined.known entry.job (List.mem_append_left _ listed)
  -- the jobs before it in the list are past their start, the ones after it are younger
  have oldest : ∀ other ∈ gate.running, other.phase = .starting → other.job.id ≠ entry.job.id →
      entry.job.id < other.job.id := by
    intro other member isStarting different
    rw [split, List.mem_append, List.mem_cons] at member
    rcases member with early | rfl | late
    · simpa [isStarting] using skipped other early
    · exact absurd rfl different
    · have sorted := (List.pairwise_append.mp lined.lined).1
      rw [runningJobs, split, List.map_append, List.map_cons] at sorted
      exact (List.pairwise_cons.mp (List.pairwise_append.mp sorted).2.1).1 other.job
        (List.mem_map_of_mem late)
  exact {
    numbered := lined.numbered
    known := by
      have same := setPhase_runningJobs gate entry.job.id .working
      intro job member
      exact lined.known job (by rw [← same]; exact member)
    lined := by
      have same := setPhase_runningJobs gate entry.job.id .working
      have sorted := lined.lined
      rw [← same] at sorted
      exact sorted
    called := by
      simp only
      rw [List.pairwise_append]
      refine ⟨lined.called, List.pairwise_singleton _ _, ?_⟩
      intro id member other single
      rw [List.mem_singleton] at single
      subst single
      exact lined.called_scheduled id member entry here scheduled
    called_known := by
      intro id member
      rcases List.mem_append.mp member with old | new
      · exact lined.called_known id old
      · rw [List.mem_singleton] at new
        subst new
        exact lined.id_lt known
    called_first := by
      intro id member job queued
      rcases List.mem_append.mp member with old | new
      · exact lined.called_first id old job queued
      · rw [List.mem_singleton] at new
        subst new
        exact (List.pairwise_append.mp lined.lined).2.2 entry.job listed job queued
    called_scheduled := by
      intro id member other stays isStarting
      obtain ⟨old, different⟩ := setPhase_starting (by simp) stays isStarting
      rcases List.mem_append.mp member with called | new
      · exact lined.called_scheduled id called other old isStarting
      · rw [List.mem_singleton] at new
        subst new
        exact oldest other old isStarting different
    aborted := lined.aborted
    placed := by
      intro job job_known
      rcases lined.placed job job_known with queued | waiting | called | aborted
      · exact Or.inl queued
      · by_cases same : job.id = entry.job.id
        · exact Or.inr (Or.inr (Or.inl (by simp [same])))
        · refine Or.inr (Or.inl ?_)
          simp only [setPhase, List.mem_map]
          exact ⟨_, waiting, by simp [same]⟩
      · exact Or.inr (Or.inr (Or.inl (List.mem_append_left _ called)))
      · exact Or.inr (Or.inr (Or.inr aborted)) }

theorem queuedJobs_listed (gate : HostCallGate Value) (jobs : List Job) (job : Job) :
    ({ gate with jobs, queue := gate.queue ++ [⟨job, false⟩] } : HostCallGate Value).queuedJobs =
      gate.queuedJobs ++ [job] := by
  simp [queuedJobs]

theorem Lined.submit (lined : Lined gate)
    (mode : HostCallExecutionMode) (signal : Nat) : Lined (gate.submit mode signal) := by
  have numbered : (gate.jobs ++ [(⟨gate.jobs.length, mode, signal⟩ : Job)]).map (·.id) =
      List.range (gate.jobs ++ [(⟨gate.jobs.length, mode, signal⟩ : Job)]).length := by
    simp [lined.numbered, List.range_succ]
  have longer : ∀ id, id < gate.jobs.length →
      id < (gate.jobs ++ [(⟨gate.jobs.length, mode, signal⟩ : Job)]).length := by
    intro id small
    simp only [List.length_append, List.length_singleton]
    omega
  simp only [HostCallGate.submit]
  split
  · rename_i isAborted
    exact {
      numbered := numbered
      known := fun job member => List.mem_append_left _ (lined.known job member)
      lined := lined.lined
      called := lined.called
      called_known := fun id member => longer id (lined.called_known id member)
      called_first := lined.called_first
      called_scheduled := lined.called_scheduled
      aborted := lined.aborted
      placed := by
        intro job member
        rcases List.mem_append.mp member with old | new
        · exact lined.placed job old
        · rw [List.mem_singleton] at new
          subst new
          exact Or.inr (Or.inr (Or.inr isAborted)) }
  · apply Lined.pump
    have queued := queuedJobs_listed gate
      (gate.jobs ++ [⟨gate.jobs.length, mode, signal⟩]) ⟨gate.jobs.length, mode, signal⟩
    exact {
      numbered := numbered
      known := by
        intro job member
        rw [queued, ← List.append_assoc, List.mem_append] at member
        rcases member with old | new
        · exact List.mem_append_left _ (lined.known job old)
        · exact List.mem_append_right _ new
      lined := by
        rw [queued, ← List.append_assoc, List.pairwise_append]
        refine ⟨lined.lined, List.pairwise_singleton _ _, ?_⟩
        intro job member other single
        rw [List.mem_singleton] at single
        subst single
        exact lined.id_lt (lined.known job member)
      called := lined.called
      called_known := fun id member => longer id (lined.called_known id member)
      called_first := by
        intro id member job listed
        rw [queued, List.mem_append] at listed
        rcases listed with old | new
        · exact lined.called_first id member job old
        · rw [List.mem_singleton] at new
          subst new
          exact lined.called_known id member
      called_scheduled := lined.called_scheduled
      aborted := by
        intro entry member isAborted
        rcases List.mem_append.mp member with old | new
        · exact lined.aborted entry old isAborted
        · rw [List.mem_singleton] at new
          subst new
          simp at isAborted
      placed := by
        intro job member
        rw [queued]
        rcases List.mem_append.mp member with old | new
        · rcases lined.placed job old with waits | rest
          · exact Or.inl (List.mem_append_left _ waits)
          · exact Or.inr rest
        · exact Or.inl (List.mem_append_right _ new) }


@[simp] theorem markAborted_jobs (id : Nat) (queue : List QueuedJob) :
    (markAborted id queue).map (·.job) = queue.map (·.job) := by
  simp only [markAborted, List.map_map]
  apply List.map_congr_left
  intro queued _
  simp only [Function.comp_apply]
  split <;> rfl

theorem markAborted_mem {id : Nat} {queue : List QueuedJob} {queued : QueuedJob}
    (member : queued ∈ markAborted id queue) :
    (queued ∈ queue ∧ queued.job.id ≠ id) ∨ (queued.aborted = true ∧ queued.job.id = id ∧
      queued.job ∈ queue.map (·.job)) := by
  simp only [markAborted, List.mem_map] at member
  obtain ⟨old, known, same⟩ := member
  split at same
  · rename_i isMarked
    subst same
    exact Or.inr ⟨rfl, isMarked, List.mem_map.mpr ⟨old, known, rfl⟩⟩
  · rename_i other
    subst same
    exact Or.inl ⟨known, other⟩

/-- The listeners that are still to be called belong to jobs of aborted signals. -/
structure Listening (gate : HostCallGate Value) : Prop where
  known : ∀ id ∈ gate.notifying, ∃ job ∈ gate.jobs, job.id = id ∧
    job.signal ∈ gate.abortedSignals

theorem Lined.cancel (lined : Lined gate)
    (listening : Listening gate) {id : Nat} (notified : id ∈ gate.notifying)
    (notifying : List Nat) (settled : List (Nat × Outcome Value)) : Lined { gate with
            notifying := notifying
            queue := markAborted id gate.queue
            settled := settled } := by
  have sameJobs := markAborted_jobs id gate.queue
  have queued : ({ gate with
      notifying := notifying
      queue := markAborted id gate.queue
      settled := settled } : HostCallGate Value).queuedJobs = gate.queuedJobs := sameJobs
  exact {
    numbered := lined.numbered
    known := by
      rw [queued]
      exact lined.known
    lined := by
      rw [queued]
      exact lined.lined
    called := lined.called
    called_known := lined.called_known
    called_first := by
      rw [queued]
      exact lined.called_first
    called_scheduled := lined.called_scheduled
    aborted := by
      intro entry member isAborted
      rcases markAborted_mem member with ⟨old, -⟩ | ⟨-, marked, listed⟩
      · exact lined.aborted entry old isAborted
      · obtain ⟨job, known, same, signalled⟩ := listening.known id notified
        have isJob : entry.job = job :=
          lined.same_job (lined.known _ (List.mem_append_right _ listed)) known
            (by rw [marked, same])
        rw [isJob]
        exact signalled
    placed := by
      rw [queued]
      exact lined.placed }

theorem Listening.congr {gate changed : HostCallGate Value} (listening : Listening gate)
    (notifying : ∀ id ∈ changed.notifying, id ∈ gate.notifying)
    (jobs : ∀ job ∈ gate.jobs, job ∈ changed.jobs)
    (signals : ∀ signal ∈ gate.abortedSignals, signal ∈ changed.abortedSignals) :
    Listening changed where
  known id member := by
    obtain ⟨job, known, same, signalled⟩ := listening.known id (notifying id member)
    exact ⟨job, jobs job known, same, signals _ signalled⟩

theorem pump_frame (gate : HostCallGate Value) :
    gate.pump.jobs = gate.jobs ∧ gate.pump.abortedSignals = gate.abortedSignals ∧
      gate.pump.notifying = gate.notifying ∧ gate.pump.invoked = gate.invoked := by
  refine @pump_invariant Value (fun changed => changed.jobs = gate.jobs ∧
    changed.abortedSignals = gate.abortedSignals ∧ changed.notifying = gate.notifying ∧
    changed.invoked = gate.invoked) ?_ ?_ gate ⟨rfl, rfl, rfl, rfl⟩
  · intro changed next rest _ before
    exact before
  · intro changed next rest _ _ _ before
    cases mode : next.job.mode <;> simpa [start, takeSlot] using before

theorem Listening.pump (listening : Listening gate) : Listening gate.pump := by
  obtain ⟨jobs, signals, notifying, -⟩ := pump_frame gate
  refine listening.congr ?_ ?_ ?_
  · rw [notifying]
    exact fun _ member => member
  · rw [jobs]
    exact fun _ member => member
  · rw [signals]
    exact fun _ member => member

theorem gateStep_listening (gate : HostCallGate Value) (event : GateEvent Value)
    (lined : Lined gate) (listening : Listening gate) : Listening (gateStep gate event) := by
  cases event with
  | run mode signal =>
      have grown : ∀ job ∈ gate.jobs, job ∈ gate.jobs ++ [⟨gate.jobs.length, mode, signal⟩] :=
        fun job member => List.mem_append_left _ member
      simp only [gateStep, submit]
      split
      · exact listening.congr (fun _ member => member) grown (fun _ member => member)
      · exact Listening.pump
          (listening.congr (fun _ member => member) grown (fun _ member => member))
  | abort signal =>
      simp only [gateStep, abort]
      split
      · exact listening
      · refine ⟨fun id member => ?_⟩
        rcases List.mem_append.mp member with old | new
        · obtain ⟨job, known, same, signalled⟩ := listening.known id old
          exact ⟨job, known, same, List.mem_cons_of_mem _ signalled⟩
        · simp only [List.mem_map, List.mem_filter, decide_eq_true_eq] at new
          obtain ⟨job, ⟨listed, itsSignal⟩, same⟩ := new
          have known : job ∈ gate.jobs := by
            apply lined.known
            simp only [runningJobs, queuedJobs, List.mem_append] at listed ⊢
            exact listed.symm
          exact ⟨job, known, same, by simp [itsSignal]⟩
  | notify id =>
      have fewer : ∀ other ∈ gate.notifying.erase id, other ∈ gate.notifying :=
        fun _ member => List.mem_of_mem_erase member
      simp only [gateStep, notify]
      split
      · split
        · exact Listening.pump
            (listening.congr fewer (fun _ member => member) (fun _ member => member))
        · split
          · exact listening.congr fewer (fun _ member => member) (fun _ member => member)
          · exact listening.congr fewer (fun _ member => member) (fun _ member => member)
      · exact listening
  | begin =>
      simp only [gateStep, begin]
      split
      · exact listening
      · split
        · exact listening.congr (fun _ member => member) (fun _ member => member)
            (fun _ member => member)
        · exact listening.congr (fun _ member => member) (fun _ member => member)
            (fun _ member => member)
  | finish id value =>
      simp only [gateStep, finish]
      split
      · exact listening
      · exact listening.congr (fun _ member => member) (fun _ member => member)
          (fun _ member => member)
  | release id =>
      simp only [gateStep, HostCallGate.release]
      split
      · exact listening
      · split <;> exact Listening.pump (listening.congr (fun _ member => member)
          (fun _ member => member) (fun _ member => member))
  | settle id =>
      simp only [gateStep, settle]
      split
      · exact listening.congr (fun _ member => member) (fun _ member => member)
          (fun _ member => member)
      · exact listening

theorem Lined.release (lined : Lined gate) (id : Nat) : Lined (gate.release id) := by
  -- A work that has ended was called or had its signal aborted, so it may leave.
  unfold HostCallGate.release
  split
  · exact lined
  · rename_i entry found
    obtain ⟨before, after, split, erased, ended, -⟩ := find_split found
    have isEnded : entry.phase = .ended := by
      simp only [HostCallGate.isEnded, decide_eq_true_eq] at ended
      exact ended.2
    have fewer : ∀ other ∈ gate.running.eraseP (HostCallGate.isEnded id), other ∈ gate.running :=
      fun other member => List.mem_of_mem_eraseP member
    have shorter : List.Sublist ((gate.running.eraseP (HostCallGate.isEnded id)).map (·.job))
        (gate.running.map (·.job)) := List.eraseP_sublist.map _
    have left : Lined { gate with running := gate.running.eraseP (HostCallGate.isEnded id) } := {
      numbered := lined.numbered
      known := fun job member => lined.known job
        ((List.Sublist.append_right shorter _).subset member)
      lined := lined.lined.sublist (List.Sublist.append_right shorter _)
      called := lined.called
      called_known := lined.called_known
      called_first := lined.called_first
      called_scheduled := fun called member other stays scheduled =>
        lined.called_scheduled called member other (fewer other stays) scheduled
      aborted := lined.aborted
      placed := by
        intro job known
        rcases lined.placed job known with queued | scheduled | rest
        · exact Or.inl queued
        · refine Or.inr (Or.inl ?_)
          have other : (⟨job, .starting⟩ : RunningJob) ≠ entry := by
            intro same
            rw [← same] at isEnded
            cases isEnded
          rw [split, List.mem_append, List.mem_cons] at scheduled
          simp only [erased, List.mem_append]
          tauto
        · exact Or.inr (Or.inr rest) }
    cases mode : entry.job.mode with
    | parallel =>
        exact Lined.pump (left.congr rfl rfl rfl rfl (fun _ member => member))
    | sequential =>
        exact Lined.pump (left.congr rfl rfl rfl rfl (fun _ member => member))

theorem gateStep_lined (gate : HostCallGate Value) (event : GateEvent Value)
    (lined : Lined gate) (listening : Listening gate) : Lined (gateStep gate event) := by
  have same : ∀ signal ∈ gate.abortedSignals, signal ∈ gate.abortedSignals :=
    fun _ member => member
  cases event with
  | run mode signal => exact lined.submit mode signal
  | abort signal =>
      simp only [gateStep, abort]
      split
      · exact lined
      · exact lined.congr rfl rfl rfl rfl fun _ member => List.mem_cons_of_mem _ member
  | notify id =>
      simp only [gateStep, notify]
      split
      · rename_i notified
        split
        · exact Lined.pump (lined.cancel listening notified _ _)
        · split
          · exact lined.congr rfl rfl rfl rfl same
          · exact lined.congr rfl rfl rfl rfl same
      · exact lined
  | begin =>
      simp only [gateStep, begin]
      split
      · exact lined
      · rename_i entry found
        split
        · rename_i isAborted
          refine Lined.congr (lined.advance entry.job.id .ended (by simp) ?_)
            rfl rfl rfl rfl same
          intro job scheduled sameId
          have here := List.mem_of_find?_eq_some found
          have isJob : job = entry.job := lined.same_job
            (lined.known _ (List.mem_append_left _ (List.mem_map_of_mem scheduled)))
            (lined.known _ (List.mem_append_left _ (List.mem_map_of_mem here))) sameId
          rw [isJob]
          exact isAborted
        · exact lined.call found
  | finish id value =>
      simp only [gateStep, finish]
      split
      · exact lined
      · rename_i entry found
        refine Lined.congr (lined.advance id .ended (by simp) ?_)
          rfl rfl rfl rfl same
        intro job scheduled sameId
        -- the entry that ends is working, and no second entry has its number
        have here := List.mem_of_find?_eq_some found
        have passes := List.find?_some found
        simp only [decide_eq_true_eq] at passes
        have isEntry := lined.same_entry scheduled here (by rw [passes.1]; exact sameId)
        rw [← isEntry] at passes
        cases passes.2
  | release id => exact lined.release id
  | settle id =>
      simp only [gateStep, settle]
      split
      · exact lined.congr rfl rfl rfl rfl same
      · exact lined

end GrokPi.Eval
