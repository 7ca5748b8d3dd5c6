import Mathlib
import GrokPi.Eval.HostCallGate

set_option autoImplicit false

namespace GrokPi.Eval

variable {Value : Type}

namespace HostCallGate

def runningJobs (gate : HostCallGate Value) : List Job :=
  gate.running.map (·.job)

def queuedJobs (gate : HostCallGate Value) : List Job :=
  gate.queue.map (·.job)

def raceIds (gate : HostCallGate Value) : List Nat :=
  gate.races.map (·.id)

def settledIds (gate : HostCallGate Value) : List Nat :=
  gate.settled.map (·.1)

def admits (gate : HostCallGate Value) : HostCallExecutionMode → Prop
  | .sequential => gate.parallelRunning = 0
  | .parallel => gate.parallelRunning < gate.parallelLimit

def takeSlot (gate : HostCallGate Value) : HostCallExecutionMode → HostCallGate Value
  | .sequential => { gate with sequentialRunning := true }
  | .parallel => { gate with parallelRunning := gate.parallelRunning + 1 }

end HostCallGate

open HostCallGate

theorem pumpQueue_invariant {kept : HostCallGate Value → Prop}
    (drop : ∀ (gate : HostCallGate Value) next rest, next.aborted = true →
      kept { gate with queue := next :: rest } → kept { gate with queue := rest })
    (enter : ∀ (gate : HostCallGate Value) next rest, gate.sequentialRunning = false →
      next.aborted = false → gate.admits next.job.mode →
      kept { gate with queue := next :: rest } →
      kept (start (takeSlot { gate with queue := rest } next.job.mode) next.job))
    (queue : List QueuedJob) (gate : HostCallGate Value)
    (free : gate.sequentialRunning = false) (initial : kept { gate with queue := queue }) :
    kept (pumpQueue gate queue) := by
  induction queue generalizing gate with
  | nil => exact initial
  | cons next rest ih =>
      unfold pumpQueue
      split
      · rename_i aborted
        exact ih gate free (drop gate next rest aborted initial)
      · rename_i live
        have notAborted : next.aborted = false := by simpa using live
        cases mode : next.job.mode with
        | sequential =>
            simp only
            split
            · exact initial
            · have room : gate.admits next.job.mode := by
                simp only [admits, mode]
                omega
              simpa [takeSlot, mode] using enter gate next rest free notAborted room initial
        | parallel =>
            simp only
            split
            · exact initial
            · have room : gate.admits next.job.mode := by
                simp only [admits, mode]
                omega
              apply ih
              · exact free
              · simpa [takeSlot, mode, start] using
                  enter gate next rest free notAborted room initial

theorem pump_invariant {kept : HostCallGate Value → Prop}
    (drop : ∀ (gate : HostCallGate Value) next rest, next.aborted = true →
      kept { gate with queue := next :: rest } → kept { gate with queue := rest })
    (enter : ∀ (gate : HostCallGate Value) next rest, gate.sequentialRunning = false →
      next.aborted = false → gate.admits next.job.mode →
      kept { gate with queue := next :: rest } →
      kept (start (takeSlot { gate with queue := rest } next.job.mode) next.job))
    (gate : HostCallGate Value) (initial : kept gate) : kept gate.pump := by
  unfold pump
  split
  · exact initial
  · rename_i busy
    exact pumpQueue_invariant drop enter gate.queue gate (by simpa using busy) initial

structure Slots (gate : HostCallGate Value) : Prop where
  limit : 0 < gate.parallelLimit
  sequential : gate.sequentialRunning = true ↔ ∃ job ∈ gate.runningJobs, job.mode = .sequential
  alone : ∀ job ∈ gate.runningJobs, job.mode = .sequential → gate.runningJobs = [job]
  parallel : gate.parallelRunning = gate.runningJobs.countP (fun job => job.mode = .parallel)
  bounded : gate.parallelRunning ≤ gate.parallelLimit

def Woken (gate : HostCallGate Value) : Prop :=
  gate.sequentialRunning = true ∨
    ∀ head, gate.queue.find? (fun queued => !queued.aborted) = some head →
      ¬gate.admits head.job.mode

theorem pumpQueue_woken (queue : List QueuedJob) (gate : HostCallGate Value)
    (free : gate.sequentialRunning = false) : Woken (pumpQueue gate queue) := by
  induction queue generalizing gate with
  | nil => exact Or.inr fun head found => by simp [pumpQueue] at found
  | cons next rest ih =>
      unfold pumpQueue
      split
      · exact ih gate free
      · rename_i live
        cases mode : next.job.mode with
        | sequential =>
            simp only
            split
            · rename_i busy
              refine Or.inr fun head found => ?_
              have isHead : head = next := by simpa [live, eq_comm] using found
              subst isHead
              simp only [admits, mode]
              omega
            · exact Or.inl rfl
        | parallel =>
            simp only
            split
            · rename_i full
              refine Or.inr fun head found => ?_
              have isHead : head = next := by simpa [live, eq_comm] using found
              subst isHead
              simp only [admits, mode]
              omega
            · exact ih _ free

/-- No wake-up is lost: `pump` leaves the gate with nothing to start. -/
theorem pump_woken (gate : HostCallGate Value) : Woken gate.pump := by
  unfold pump
  split
  · rename_i busy
    exact Or.inl busy
  · rename_i busy
    exact pumpQueue_woken gate.queue gate (by simpa using busy)

variable {gate : HostCallGate Value}

theorem Slots.enter {next : QueuedJob} {rest : List QueuedJob}
    (free : gate.sequentialRunning = false) (room : gate.admits next.job.mode) (slots : Slots gate) :
    Slots (start (takeSlot { gate with queue := rest } next.job.mode) next.job) := by
  have noSequential : ∀ job ∈ gate.runningJobs, job.mode ≠ .sequential := by
    intro job member isSequential
    have busy := slots.sequential.mpr ⟨job, member, isSequential⟩
    simp [free] at busy
  have counted := slots.parallel
  have bounded := slots.bounded
  have limit := slots.limit
  simp only [runningJobs] at noSequential counted
  cases mode : next.job.mode with
  | sequential =>
      rw [mode] at room
      simp only [admits] at room
      -- no parallel and no sequential work means no work at all
      have idle : gate.running.map (·.job) = [] := by
        rw [List.eq_nil_iff_forall_not_mem]
        intro job member
        rw [room] at counted
        have notParallel := List.countP_eq_zero.mp counted.symm job member
        cases jobMode : job.mode with
        | sequential => exact noSequential job member jobMode
        | parallel => simp [jobMode] at notParallel
      have empty : gate.running = [] := by simpa using idle
      exact {
        limit := limit
        sequential := by simp [takeSlot, start, runningJobs, empty, mode]
        alone := by simp [takeSlot, start, runningJobs, empty]
        parallel := by simp [takeSlot, start, runningJobs, empty, mode, room]
        bounded := bounded }
  | parallel =>
      rw [mode] at room
      simp only [admits] at room
      exact {
        limit := limit
        sequential := by
          simp only [takeSlot, start, runningJobs, List.map_append, List.map_cons, List.map_nil,
            List.mem_append, List.mem_singleton, free]
          constructor
          · intro absurd
            simp at absurd
          · rintro ⟨job, member | rfl, isSequential⟩
            · exact absurd isSequential (noSequential job member)
            · simp [mode] at isSequential
        alone := by
          simp only [takeSlot, start, runningJobs, List.map_append, List.map_cons, List.map_nil,
            List.mem_append, List.mem_singleton]
          rintro job (member | rfl) isSequential
          · exact absurd isSequential (noSequential job member)
          · simp [mode] at isSequential
        parallel := by
          simp only [takeSlot, start, runningJobs, List.map_append, List.map_cons, List.map_nil,
            List.countP_append, List.countP_cons, List.countP_nil, mode]
          simp [counted]
        bounded := by
          simp only [takeSlot, start]
          omega }

theorem Slots.pump (slots : Slots gate) : Slots gate.pump := by
  refine pump_invariant ?_ ?_ gate slots
  · intro gate next rest _ before
    exact ⟨before.limit, before.sequential, before.alone, before.parallel, before.bounded⟩
  · intro gate next rest free _ room before
    have here : Slots gate :=
      ⟨before.limit, before.sequential, before.alone, before.parallel, before.bounded⟩
    exact here.enter free room

theorem Slots.congr {gate changed : HostCallGate Value} (slots : Slots gate)
    (limit : changed.parallelLimit = gate.parallelLimit)
    (sequential : changed.sequentialRunning = gate.sequentialRunning)
    (parallel : changed.parallelRunning = gate.parallelRunning)
    (running : changed.runningJobs = gate.runningJobs) : Slots changed where
  limit := by rw [limit]; exact slots.limit
  sequential := by rw [sequential, running]; exact slots.sequential
  alone := by rw [running]; exact slots.alone
  parallel := by rw [parallel, running]; exact slots.parallel
  bounded := by rw [parallel, limit]; exact slots.bounded


theorem find_split {entries : List RunningJob} {test : RunningJob → Bool} {entry : RunningJob}
    (found : entries.find? test = some entry) :
    ∃ before after, entries = before ++ entry :: after ∧ entries.eraseP test = before ++ after ∧
      test entry = true ∧ ∀ other ∈ before, test other = false := by
  obtain ⟨passes, before, after, split, skipped⟩ := List.find?_eq_some_iff_append.mp found
  have skips : ∀ other ∈ before, test other = false := fun other member => by
    simpa using skipped other member
  refine ⟨before, after, split, ?_, passes, skips⟩
  rw [split, List.eraseP_append_right _ fun other member => by simp [skips other member],
    List.eraseP_cons_of_pos passes]

@[simp] theorem setPhase_runningJobs (gate : HostCallGate Value) (id : Nat) (phase : Phase) :
    (setPhase gate id phase).runningJobs = gate.runningJobs := by
  simp only [setPhase, runningJobs, List.map_map]
  apply List.map_congr_left
  intro entry _
  simp only [Function.comp_apply]
  split <;> rfl

theorem Slots.release (slots : Slots gate) (id : Nat) : Slots (gate.release id) := by
  unfold HostCallGate.release
  split
  · exact slots
  · rename_i entry found
    obtain ⟨before, after, split, erased, -, -⟩ := find_split found
    have jobs : gate.runningJobs = before.map (·.job) ++ entry.job :: after.map (·.job) := by
      simp [runningJobs, split]
    have left : ({ gate with running := gate.running.eraseP (isEnded id) }).runningJobs =
        before.map (·.job) ++ after.map (·.job) := by simp [runningJobs, erased]
    have stays : ∀ job ∈ before.map (·.job) ++ after.map (·.job), job ∈ gate.runningJobs := by
      intro job member
      rw [jobs]
      simp only [List.mem_append, List.mem_cons] at member ⊢
      tauto
    have counted := slots.parallel
    have bounded := slots.bounded
    rw [jobs, List.countP_append, List.countP_cons] at counted
    cases mode : entry.job.mode with
    | parallel =>
        have noSequential : ∀ job ∈ before.map (·.job) ++ after.map (·.job),
            job.mode ≠ .sequential := by
          intro job member isSequential
          have single := slots.alone job (stays job member) isSequential
          have here : entry.job ∈ gate.runningJobs := by simp [jobs]
          rw [single, List.mem_singleton] at here
          rw [← here, mode] at isSequential
          cases isSequential
        have free : gate.sequentialRunning = false := by
          rw [Bool.eq_false_iff]
          intro busy
          obtain ⟨job, member, isSequential⟩ := slots.sequential.mp busy
          rw [jobs] at member
          simp only [List.mem_append, List.mem_cons] at member
          rcases member with member | rfl | member
          · exact noSequential job (by simp [member]) isSequential
          · rw [mode] at isSequential
            cases isSequential
          · exact noSequential job (by simp [member]) isSequential
        apply Slots.pump
        exact {
          limit := slots.limit
          sequential := by
            simp only [free, Bool.false_eq_true, false_iff, not_exists, not_and]
            intro job member
            exact noSequential job (by rw [← left]; exact member)
          alone := by
            intro job member isSequential
            exact absurd isSequential (noSequential job (by rw [← left]; exact member))
          parallel := by
            have one : decide (entry.job.mode = .parallel) = true := by simp [mode]
            simp only [one, if_true] at counted
            have kept := left
            simp only [runningJobs] at kept ⊢
            rw [kept, List.countP_append]
            omega
          bounded := by
            simp only
            omega }
    | sequential =>
        have single := slots.alone entry.job (by simp [jobs]) mode
        rw [jobs] at single
        have none : before = [] ∧ after = [] := by
          cases before with
          | nil => simpa using single
          | cons first rest =>
              have lengths := congrArg List.length single
              simp at lengths
        obtain ⟨rfl, rfl⟩ := none
        have zero : decide (entry.job.mode = .parallel) = false := by simp [mode]
        simp only [zero, List.map_nil, List.countP_nil] at counted
        apply Slots.pump
        have empty : gate.running.eraseP (isEnded id) = [] := by simpa using erased
        exact {
          limit := slots.limit
          sequential := by simp [runningJobs, empty]
          alone := by simp [runningJobs, empty]
          parallel := by simpa [runningJobs, empty] using counted
          bounded := bounded }

theorem gateStep_slots (gate : HostCallGate Value) (event : GateEvent Value)
    (slots : Slots gate) : Slots (gateStep gate event) := by
  cases event with
  | run mode signal =>
      simp only [gateStep, submit]
      split
      · exact slots.congr rfl rfl rfl rfl
      · exact Slots.pump (slots.congr rfl rfl rfl rfl)
  | abort signal =>
      simp only [gateStep, abort]
      split
      · exact slots
      · exact slots.congr rfl rfl rfl rfl
  | notify id =>
      simp only [gateStep, notify]
      split
      · split
        · exact Slots.pump (slots.congr rfl rfl rfl rfl)
        · split
          · exact slots.congr rfl rfl rfl rfl
          · exact slots.congr rfl rfl rfl rfl
      · exact slots
  | begin =>
      simp only [gateStep, begin]
      split
      · exact slots
      · split
        · exact slots.congr rfl rfl rfl (setPhase_runningJobs gate _ _)
        · exact slots.congr rfl rfl rfl (setPhase_runningJobs gate _ _)
  | finish id value =>
      simp only [gateStep, finish]
      split
      · exact slots
      · exact slots.congr rfl rfl rfl (setPhase_runningJobs gate _ _)
  | release id => exact slots.release id
  | settle id =>
      simp only [gateStep, settle]
      split
      · exact slots.congr rfl rfl rfl rfl
      · exact slots

theorem Woken.congr {gate changed : HostCallGate Value} (woken : Woken gate)
    (queue : changed.queue = gate.queue)
    (limit : changed.parallelLimit = gate.parallelLimit)
    (sequential : changed.sequentialRunning = gate.sequentialRunning)
    (parallel : changed.parallelRunning = gate.parallelRunning) : Woken changed := by
  rcases woken with busy | waits
  · exact Or.inl (by rw [sequential, busy])
  · refine Or.inr fun head found => ?_
    rw [queue] at found
    have blocked := waits head found
    cases mode : head.job.mode <;> simp only [admits, mode, limit, parallel] at blocked ⊢ <;>
      exact blocked

theorem gateStep_woken (gate : HostCallGate Value) (event : GateEvent Value)
    (woken : Woken gate) : Woken (gateStep gate event) := by
  cases event with
  | run mode signal =>
      simp only [gateStep, submit]
      split
      · exact woken.congr rfl rfl rfl rfl
      · exact pump_woken _
  | abort signal =>
      simp only [gateStep, abort]
      split
      · exact woken
      · exact woken.congr rfl rfl rfl rfl
  | notify id =>
      simp only [gateStep, notify]
      split
      · split
        · exact pump_woken _
        · split
          · exact woken.congr rfl rfl rfl rfl
          · exact woken.congr rfl rfl rfl rfl
      · exact woken
  | begin =>
      simp only [gateStep, begin]
      split
      · exact woken
      · split
        · exact woken.congr rfl rfl rfl rfl
        · exact woken.congr rfl rfl rfl rfl
  | finish id value =>
      simp only [gateStep, finish]
      split
      · exact woken
      · exact woken.congr rfl rfl rfl rfl
  | release id =>
      simp only [gateStep, HostCallGate.release]
      split
      · exact woken
      · split <;> exact pump_woken _
  | settle id =>
      simp only [gateStep, settle]
      split
      · exact woken.congr rfl rfl rfl rfl
      · exact woken

end GrokPi.Eval
