import Mathlib
import GrokPi.Eval.GateOrder

set_option autoImplicit false

namespace GrokPi.Eval

open HostCallGate

variable {Value : Type}

structure Settling (gate : HostCallGate Value) : Prop where
  queued : gate.queuedJobs.Pairwise fun first second => first.id < second.id
  queued_known : ∀ job ∈ gate.queuedJobs, job.id < gate.jobs.length
  racing : gate.raceIds.Nodup
  racing_known : ∀ id ∈ gate.raceIds, id < gate.jobs.length
  racing_first : ∀ id ∈ gate.raceIds, ∀ job ∈ gate.queuedJobs, id < job.id
  racing_open : ∀ id ∈ gate.raceIds, id ∉ gate.settledIds
  queued_open : ∀ queued ∈ gate.queue, queued.aborted = false →
    queued.job.id ∉ gate.settledIds
  settled_known : ∀ id ∈ gate.settledIds, id < gate.jobs.length
  once : gate.settledIds.Nodup

theorem Settling.congr {gate changed : HostCallGate Value} (settling : Settling gate)
    (queue : changed.queue = gate.queue) (races : changed.raceIds = gate.raceIds)
    (jobs : gate.jobs.length ≤ changed.jobs.length)
    (settled : changed.settled = gate.settled) : Settling changed := by
  have sameQueue : changed.queuedJobs = gate.queuedJobs := by simp only [queuedJobs, queue]
  have sameSettled : changed.settledIds = gate.settledIds := by simp only [settledIds, settled]
  exact {
    queued := by rw [sameQueue]; exact settling.queued
    queued_known := fun job member =>
      (settling.queued_known job (by rw [← sameQueue]; exact member)).trans_le jobs
    racing := by rw [races]; exact settling.racing
    racing_known := fun id member =>
      (settling.racing_known id (by rw [← races]; exact member)).trans_le jobs
    racing_first := by rw [races, sameQueue]; exact settling.racing_first
    racing_open := by rw [races, sameSettled]; exact settling.racing_open
    queued_open := by rw [queue, sameSettled]; exact settling.queued_open
    settled_known := fun id member =>
      (settling.settled_known id (by rw [← sameSettled]; exact member)).trans_le jobs
    once := by rw [sameSettled]; exact settling.once }

variable {gate : HostCallGate Value}

theorem Settling.drop {next : QueuedJob} {rest : List QueuedJob}
    (settling : Settling { gate with queue := next :: rest }) :
    Settling { gate with queue := rest } where
  queued := (List.pairwise_cons.mp settling.queued).2
  queued_known job member := settling.queued_known job (List.mem_cons_of_mem _ member)
  racing := settling.racing
  racing_known := settling.racing_known
  racing_first id member job queued :=
    settling.racing_first id member job (List.mem_cons_of_mem _ queued)
  racing_open := settling.racing_open
  queued_open queued member := settling.queued_open queued (List.mem_cons_of_mem _ member)
  settled_known := settling.settled_known
  once := settling.once

theorem Settling.enter {next : QueuedJob} {rest : List QueuedJob}
    (live : next.aborted = false) (settling : Settling { gate with queue := next :: rest }) :
    Settling (start (takeSlot { gate with queue := rest } next.job.mode) next.job) := by
  obtain ⟨queue, -, races, jobs, -, -, settled⟩ :=
    takeSlot_fields { gate with queue := rest } next.job.mode
  have racingIds : (start (takeSlot { gate with queue := rest } next.job.mode) next.job).raceIds =
      gate.raceIds ++ [next.job.id] := by
    simp [start, raceIds, races]
  have first : ∀ job ∈ rest.map (·.job), next.job.id < job.id :=
    (List.pairwise_cons.mp settling.queued).1
  have isQueued : next.job ∈
      ({ gate with queue := next :: rest } : HostCallGate Value).queuedJobs := by
    simp [queuedJobs]
  exact {
    queued := by
      simp only [start, queuedJobs, queue]
      exact (List.pairwise_cons.mp settling.queued).2
    queued_known := by
      simp only [start, queuedJobs, queue, jobs]
      exact fun job member => settling.queued_known job (List.mem_cons_of_mem _ member)
    racing := by
      rw [racingIds, List.nodup_append]
      refine ⟨settling.racing, List.nodup_singleton _, ?_⟩
      intro id member other single
      rw [List.mem_singleton] at single
      have earlier := settling.racing_first id member next.job isQueued
      omega
    racing_known := by
      rw [racingIds]
      simp only [start, jobs, List.mem_append, List.mem_singleton]
      rintro id (old | rfl)
      · exact settling.racing_known id old
      · exact settling.queued_known next.job isQueued
    racing_first := by
      rw [racingIds]
      simp only [start, queuedJobs, queue, List.mem_append, List.mem_singleton]
      rintro id (old | rfl) job member
      · exact settling.racing_first id old job (List.mem_cons_of_mem _ member)
      · exact first job member
    racing_open := by
      rw [racingIds]
      simp only [start, settledIds, settled, List.mem_append, List.mem_singleton]
      rintro id (old | rfl)
      · exact settling.racing_open id old
      · exact settling.queued_open next (by simp) live
    queued_open := by
      simp only [start, settledIds, settled, queue]
      exact fun queued member => settling.queued_open queued (List.mem_cons_of_mem _ member)
    settled_known := by
      simp only [start, settledIds, settled, jobs]
      exact settling.settled_known
    once := by
      simp only [start, settledIds, settled]
      exact settling.once }

theorem Settling.pump (settling : Settling gate) : Settling gate.pump :=
  pump_invariant (fun _ _ _ _ before => before.drop)
    (fun _ _ _ _ live _ before => before.enter live) gate settling

@[simp] theorem decideRace_raceIds (gate : HostCallGate Value) (id : Nat)
    (outcome : Outcome Value) : (decideRace gate id outcome).raceIds = gate.raceIds := by
  simp only [decideRace, raceIds, List.map_map]
  apply List.map_congr_left
  intro race _
  simp only [Function.comp_apply]
  split <;> rfl

theorem Settling.answer (settling : Settling gate) {id : Nat}
    (outcome : Outcome Value) (known : id < gate.jobs.length) (unsettled : id ∉ gate.settledIds)
    (raced : id ∉ gate.raceIds)
    (left : ∀ queued ∈ gate.queue, queued.aborted = false → queued.job.id ≠ id) :
    Settling { gate with settled := gate.settled ++ [(id, outcome)] } := by
  have ids : ({ gate with settled := gate.settled ++ [(id, outcome)] } : HostCallGate Value).settledIds =
      gate.settledIds ++ [id] := by simp [settledIds]
  exact {
    queued := settling.queued
    queued_known := settling.queued_known
    racing := settling.racing
    racing_known := settling.racing_known
    racing_first := settling.racing_first
    racing_open := by
      intro other member settled
      rw [ids, List.mem_append, List.mem_singleton] at settled
      rcases settled with old | rfl
      · exact settling.racing_open other member old
      · exact raced member
    queued_open := by
      intro queued member live settled
      rw [ids, List.mem_append, List.mem_singleton] at settled
      rcases settled with old | same
      · exact settling.queued_open queued member live old
      · exact left queued member live same
    settled_known := by
      intro other settled
      rw [ids, List.mem_append, List.mem_singleton] at settled
      rcases settled with old | rfl
      · exact settling.settled_known other old
      · exact known
    once := by
      rw [ids]
      rw [← List.concat_eq_append]
      exact settling.once.concat unsettled }

theorem Settling.submit (settling : Settling gate)
    (mode : HostCallExecutionMode) (signal : Nat) : Settling (gate.submit mode signal) := by
  have longer : ∀ id, id < gate.jobs.length →
      id < (gate.jobs ++ [(⟨gate.jobs.length, mode, signal⟩ : Job)]).length := by
    intro id small
    simp only [List.length_append, List.length_singleton]
    omega
  have new : gate.jobs.length <
      (gate.jobs ++ [(⟨gate.jobs.length, mode, signal⟩ : Job)]).length := by simp
  simp only [HostCallGate.submit]
  split
  · -- the number of the rejected call is new, so no race and no queued job has it
    have grown : Settling { gate with
        jobs := gate.jobs ++ [(⟨gate.jobs.length, mode, signal⟩ : Job)] } :=
      settling.congr rfl rfl new.le rfl
    refine grown.answer _ new ?_ ?_ ?_
    · exact fun settled => Nat.lt_irrefl _ (settling.settled_known _ settled)
    · exact fun racing => Nat.lt_irrefl _ (settling.racing_known _ racing)
    · intro queued member _ same
      have small := settling.queued_known queued.job (List.mem_map_of_mem member)
      omega
  · apply Settling.pump
    have queued := queuedJobs_listed gate
      (gate.jobs ++ [⟨gate.jobs.length, mode, signal⟩]) ⟨gate.jobs.length, mode, signal⟩
    exact {
      queued := by
        rw [queued, List.pairwise_append]
        refine ⟨settling.queued, List.pairwise_singleton _ _, ?_⟩
        intro job member other single
        rw [List.mem_singleton] at single
        subst single
        exact settling.queued_known job member
      queued_known := by
        intro job member
        rw [queued, List.mem_append, List.mem_singleton] at member
        rcases member with old | rfl
        · exact longer _ (settling.queued_known job old)
        · exact new
      racing := settling.racing
      racing_known := fun id member => longer _ (settling.racing_known id member)
      racing_first := by
        intro id member job listed
        rw [queued, List.mem_append, List.mem_singleton] at listed
        rcases listed with old | rfl
        · exact settling.racing_first id member job old
        · exact settling.racing_known id member
      racing_open := settling.racing_open
      queued_open := by
        intro entry member live settled
        rcases List.mem_append.mp member with old | isNew
        · exact settling.queued_open entry old live settled
        · rw [List.mem_singleton] at isNew
          subst isNew
          have small := settling.settled_known _ settled
          simp at small
      settled_known := fun id member => longer _ (settling.settled_known id member)
      once := settling.once }

theorem Settling.cancel (settling : Settling gate)
    {queued : QueuedJob} (member : queued ∈ gate.queue) (live : queued.aborted = false)
    (notifying : List Nat) : Settling { gate with
               notifying := notifying
               queue := markAborted queued.job.id gate.queue
               settled := gate.settled ++
                 [(queued.job.id, .aborted queued.job.signal)] } := by
  have sameJobs := markAborted_jobs queued.job.id gate.queue
  have listed : queued.job ∈ gate.queuedJobs := List.mem_map_of_mem member
  have unmarked : ∀ entry ∈ markAborted queued.job.id gate.queue, entry.aborted = false →
      entry ∈ gate.queue ∧ entry.job.id ≠ queued.job.id := by
    intro entry stays stillLive
    rcases markAborted_mem stays with kept | ⟨marked, -⟩
    · exact kept
    · rw [marked] at stillLive
      cases stillLive
  have sameQueue : ({ gate with
      notifying := notifying
      queue := markAborted queued.job.id gate.queue } : HostCallGate Value).queuedJobs =
      gate.queuedJobs := sameJobs
  have marked : Settling { gate with
      notifying := notifying
      queue := markAborted queued.job.id gate.queue } := {
    queued := by rw [sameQueue]; exact settling.queued
    queued_known := by rw [sameQueue]; exact settling.queued_known
    racing := settling.racing
    racing_known := settling.racing_known
    racing_first := by rw [sameQueue]; exact settling.racing_first
    racing_open := settling.racing_open
    queued_open := fun entry stays stillLive =>
      settling.queued_open entry (unmarked entry stays stillLive).1 stillLive
    settled_known := settling.settled_known
    once := settling.once }
  refine marked.answer _ (settling.queued_known _ listed)
    (settling.queued_open queued member live) ?_ fun entry stays stillLive =>
      (unmarked entry stays stillLive).2
  exact fun racing => Nat.lt_irrefl _ (settling.racing_first _ racing _ listed)

theorem Settling.settle (settling : Settling gate) (id : Nat) : Settling (gate.settle id) := by
  simp only [HostCallGate.settle]
  split
  · rename_i raceId outcome found
    have member := List.mem_of_find?_eq_some found
    have isThis : raceId = id := by simpa using List.find?_some found
    subst isThis
    have racing : raceId ∈ gate.raceIds := List.mem_map_of_mem member
    have shorter : List.Sublist
        ((gate.races.eraseP (fun race => race.id = raceId)).map (·.id)) gate.raceIds :=
      List.eraseP_sublist.map _
    have gone : raceId ∉ (gate.races.eraseP (fun race => race.id = raceId)).map (·.id) := by
      have erased : (gate.races.eraseP (fun race => race.id = raceId)).map (·.id) =
          gate.raceIds.erase raceId := by
        rw [List.erase_eq_eraseP, raceIds, List.eraseP_map]
        congr 2
        funext race
        rw [Bool.eq_iff_iff, Function.comp_apply, beq_iff_eq, decide_eq_true_eq]
        exact eq_comm
      rw [erased]
      exact settling.racing.not_mem_erase
    have fewer : Settling { gate with
        races := gate.races.eraseP (fun race => race.id = raceId) } := {
      queued := settling.queued
      queued_known := settling.queued_known
      racing := settling.racing.sublist shorter
      racing_known := fun id stays => settling.racing_known id (shorter.subset stays)
      racing_first := fun id stays => settling.racing_first id (shorter.subset stays)
      racing_open := fun id stays => settling.racing_open id (shorter.subset stays)
      queued_open := settling.queued_open
      settled_known := settling.settled_known
      once := settling.once }
    refine fewer.answer _ (settling.racing_known _ racing) (settling.racing_open _ racing) gone ?_
    intro queued listed _ same
    have earlier := settling.racing_first raceId racing queued.job (List.mem_map_of_mem listed)
    omega
  · exact settling

theorem gateStep_settling (gate : HostCallGate Value) (event : GateEvent Value)
    (settling : Settling gate) : Settling (gateStep gate event) := by
  cases event with
  | run mode signal => exact settling.submit mode signal
  | abort signal =>
      simp only [gateStep, abort]
      split
      · exact settling
      · exact settling.congr rfl rfl le_rfl rfl
  | notify id =>
      simp only [gateStep, notify]
      split
      · split
        · rename_i queued found
          have member := List.mem_of_find?_eq_some found
          have passes := List.find?_some found
          simp only [decide_eq_true_eq] at passes
          obtain ⟨rfl, live⟩ := passes
          exact Settling.pump (settling.cancel member live _)
        · split
          · exact settling.congr rfl (decideRace_raceIds _ _ _) le_rfl rfl
          · exact settling.congr rfl rfl le_rfl rfl
      · exact settling
  | begin =>
      simp only [gateStep, begin]
      split
      · exact settling
      · split
        · exact settling.congr rfl (decideRace_raceIds _ _ _) le_rfl rfl
        · exact settling.congr rfl rfl le_rfl rfl
  | finish id value =>
      simp only [gateStep, finish]
      split
      · exact settling
      · exact settling.congr rfl (decideRace_raceIds _ _ _) le_rfl rfl
  | release id =>
      simp only [gateStep, HostCallGate.release]
      split
      · exact settling
      · split <;> exact Settling.pump (settling.congr rfl rfl le_rfl rfl)
  | settle id => exact settling.settle id


/-- A called work that has not ended holds its slot, whatever its signal does. -/
structure Held (gate : HostCallGate Value) : Prop where
  holding : ∀ id ∈ gate.invoked, id ∉ gate.finished →
    ∃ entry ∈ gate.running, entry.job.id = id ∧ entry.phase = .working
  working : ∀ entry ∈ gate.running, entry.phase = .working →
    entry.job.id ∈ gate.invoked ∧ entry.job.id ∉ gate.finished
  finished : ∀ id ∈ gate.finished, id ∈ gate.invoked

theorem Held.congr {gate changed : HostCallGate Value} (held : Held gate)
    (running : ∀ entry, entry.phase = .working →
      (entry ∈ changed.running ↔ entry ∈ gate.running))
    (invoked : changed.invoked = gate.invoked) (finished : changed.finished = gate.finished) :
    Held changed where
  holding id called unfinished := by
    rw [invoked] at called
    rw [finished] at unfinished
    obtain ⟨entry, member, same, working⟩ := held.holding id called unfinished
    exact ⟨entry, (running entry working).mpr member, same, working⟩
  working entry member working := by
    rw [invoked, finished]
    exact held.working entry ((running entry working).mp member) working
  finished := by
    rw [invoked, finished]
    exact held.finished

theorem Held.pump (held : Held gate) : Held gate.pump := by
  refine pump_invariant ?_ ?_ gate held
  · intro gate next rest _ before
    exact before.congr (fun _ _ => Iff.rfl) rfl rfl
  · intro gate next rest _ _ _ before
    refine before.congr ?_ ?_ ?_
    · intro entry working
      have fresh : entry ≠ ⟨next.job, .starting⟩ := by
        rintro rfl
        cases working
      cases mode : next.job.mode <;> simp [start, takeSlot, fresh]
    · cases mode : next.job.mode <;> simp [start, takeSlot]
    · cases mode : next.job.mode <;> simp [start, takeSlot]

theorem Held.begin (held : Held gate) (lined : Lined gate) : Held gate.begin := by
  simp only [HostCallGate.begin]
  split
  · exact held
  · rename_i entry found
    have member := List.mem_of_find?_eq_some found
    have isStarting : entry.phase = .starting := by simpa using List.find?_some found
    -- no other entry has the number of the one that moves
    have others : ∀ other ∈ gate.running, other.phase = .working →
        other.job.id ≠ entry.job.id := by
      intro other known working sameId
      rw [lined.same_entry known member sameId, isStarting] at working
      cases working
    split
    · refine held.congr ?_ rfl rfl
      intro other working
      simp only [decideRace, setPhase, List.mem_map]
      constructor
      · rintro ⟨old, known, moved⟩
        split at moved
        · subst moved
          cases working
        · subst moved
          exact known
      · intro known
        exact ⟨other, known, by simp [others other known working]⟩
    · have fresh : entry.job.id ∉ gate.finished := fun finished =>
        absurd (lined.called_scheduled _ (held.finished _ finished) entry member isStarting)
          (Nat.lt_irrefl _)
      exact {
        holding := by
          intro id called unfinished
          simp only [setPhase, List.mem_map]
          rcases List.mem_append.mp called with old | new
          · obtain ⟨other, known, sameId, working⟩ := held.holding id old unfinished
            have different := others other known working
            exact ⟨other, ⟨other, known, by simp [different]⟩, sameId, working⟩
          · rw [List.mem_singleton] at new
            subst new
            exact ⟨⟨entry.job, .working⟩, ⟨entry, member, by simp⟩, rfl, rfl⟩
        working := by
          intro other stays working
          simp only [setPhase, List.mem_map] at stays
          obtain ⟨old, known, moved⟩ := stays
          split at moved
          · rename_i isThis
            subst moved
            simp only [isThis]
            exact ⟨List.mem_append_right _ (by simp), fresh⟩
          · subst moved
            obtain ⟨called, unfinished⟩ := held.working old known working
            exact ⟨List.mem_append_left _ called, unfinished⟩
        finished := fun id member => List.mem_append_left _ (held.finished id member) }

theorem Held.finish (held : Held gate) (id : Nat) (value : Value) : Held (gate.finish id value) := by
  simp only [HostCallGate.finish]
  split
  · exact held
  · rename_i entry found
    have member := List.mem_of_find?_eq_some found
    have passes := List.find?_some found
    simp only [decide_eq_true_eq] at passes
    obtain ⟨rfl, isWorking⟩ := passes
    exact {
      holding := by
        intro id called unfinished
        simp only [decideRace, setPhase, List.mem_append, List.mem_singleton, not_or,
          List.mem_map] at unfinished ⊢
        obtain ⟨other, known, sameId, working⟩ := held.holding id called unfinished.1
        have different : other.job.id ≠ entry.job.id := by
          rw [sameId]
          exact unfinished.2
        exact ⟨other, ⟨other, known, by simp [different]⟩, sameId, working⟩
      working := by
        intro other stays working
        simp only [decideRace, setPhase, List.mem_map] at stays
        obtain ⟨old, known, moved⟩ := stays
        split at moved
        · subst moved
          cases working
        · rename_i different
          subst moved
          obtain ⟨called, unfinished⟩ := held.working old known working
          refine ⟨called, ?_⟩
          simp only [decideRace, setPhase, List.mem_append, List.mem_singleton, not_or]
          exact ⟨unfinished, different⟩
      finished := by
        intro id isFinished
        simp only [decideRace, setPhase, List.mem_append, List.mem_singleton] at isFinished
        rcases isFinished with old | rfl
        · exact held.finished id old
        · exact (held.working entry member isWorking).1 }

theorem Held.release (held : Held gate) (id : Nat) : Held (gate.release id) := by
  simp only [HostCallGate.release]
  split
  · exact held
  · rename_i entry found
    obtain ⟨before, after, split, erased, ended, -⟩ := find_split found
    simp only [isEnded, decide_eq_true_eq] at ended
    have left : Held { gate with running := gate.running.eraseP (isEnded id) } := by
      refine held.congr ?_ rfl rfl
      intro other working
      have different : other ≠ entry := by
        rintro rfl
        rw [ended.2] at working
        cases working
      simp only
      rw [erased, split]
      simp [different]
    split
    · exact Held.pump (left.congr (fun _ _ => Iff.rfl) rfl rfl)
    · exact Held.pump (left.congr (fun _ _ => Iff.rfl) rfl rfl)

theorem gateStep_held (gate : HostCallGate Value) (event : GateEvent Value)
    (lined : Lined gate) (held : Held gate) : Held (gateStep gate event) := by
  have same : ∀ entry : RunningJob, entry.phase = .working →
      (entry ∈ gate.running ↔ entry ∈ gate.running) := fun _ _ => Iff.rfl
  cases event with
  | run mode signal =>
      simp only [gateStep, submit]
      split
      · exact held.congr same rfl rfl
      · exact Held.pump (held.congr same rfl rfl)
  | abort signal =>
      simp only [gateStep, abort]
      split
      · exact held
      · exact held.congr same rfl rfl
  | notify id =>
      simp only [gateStep, notify]
      split
      · split
        · exact Held.pump (held.congr same rfl rfl)
        · split
          · exact held.congr same rfl rfl
          · exact held.congr same rfl rfl
      · exact held
  | begin => exact held.begin lined
  | finish id value => exact held.finish id value
  | release id => exact held.release id
  | settle id =>
      simp only [gateStep, settle]
      split
      · exact held.congr same rfl rfl
      · exact held


namespace HostCallGate

def works (gate : HostCallGate Value) : List Job :=
  gate.jobs.filter fun job => job.id ∈ gate.invoked ∧ job.id ∉ gate.finished

def Resting (gate : HostCallGate Value) : Prop :=
  ∀ entry ∈ gate.running, entry.phase = .working

def Blocked (gate : HostCallGate Value) (job : Job) : Prop :=
  match job.mode with
  | .sequential => gate.runningJobs ≠ []
  | .parallel => (∃ other ∈ gate.runningJobs, other.mode = .sequential) ∨
      gate.runningJobs.length = gate.parallelLimit

end HostCallGate

structure Fair (gate : HostCallGate Value) : Prop where
  alone : ∀ job ∈ gate.works, job.mode = .sequential → gate.works = [job]
  limited : gate.works.length ≤ gate.parallelLimit
  ordered : gate.invoked.Pairwise (· < ·)
  noOvertaking : ∀ id ∈ gate.invoked, ∀ job ∈ gate.jobs, job.id < id →
    job.id ∈ gate.invoked ∨ job.signal ∈ gate.abortedSignals
  settledOnce : gate.settledIds.Nodup
  woken : ∀ head, gate.queue.find? (fun queued => !queued.aborted) = some head →
    gate.Blocked head.job
  idle : gate.Resting → gate.works = [] → ∀ queued ∈ gate.queue, queued.aborted = true

structure GateInvariant (gate : HostCallGate Value) : Prop where
  slots : Slots gate
  woken : Woken gate
  lined : Lined gate
  listening : Listening gate
  settling : Settling gate
  held : Held gate

theorem gateStep_invariant (gate : HostCallGate Value) (event : GateEvent Value)
    (invariant : GateInvariant gate) : GateInvariant (gateStep gate event) where
  slots := gateStep_slots gate event invariant.slots
  woken := gateStep_woken gate event invariant.woken
  lined := gateStep_lined gate event invariant.lined invariant.listening
  listening := gateStep_listening gate event invariant.lined invariant.listening
  settling := gateStep_settling gate event invariant.settling
  held := gateStep_held gate event invariant.lined invariant.held

theorem GateInvariant.run (invariant : GateInvariant gate)
    (events : List (GateEvent Value)) : GateInvariant (Runs.run gateStep gate events) :=
  Runs.run_invariant gateStep gateStep_invariant gate events invariant

theorem GateInvariant.works_running
    (invariant : GateInvariant gate) {job : Job} (member : job ∈ gate.works) :
    job ∈ gate.runningJobs := by
  -- A work in progress is a started job, so the slots bound it.
  simp only [works, List.mem_filter, decide_eq_true_eq] at member
  obtain ⟨known, called, unfinished⟩ := member
  obtain ⟨entry, listed, same, -⟩ := invariant.held.holding job.id called unfinished
  have running : entry.job ∈ gate.runningJobs := List.mem_map_of_mem listed
  have isJob : entry.job = job := invariant.lined.same_job
    (invariant.lined.known _ (List.mem_append_left _ running)) known same
  rw [← isJob]
  exact running

theorem GateInvariant.works_nodup (invariant : GateInvariant gate) : gate.works.Nodup := by
  have distinct : (gate.jobs.map (·.id)).Nodup := by
    rw [invariant.lined.numbered]
    exact List.nodup_range
  exact (distinct.of_map).filter _

theorem Slots.running_le (slots : Slots gate) : gate.runningJobs.length ≤ gate.parallelLimit := by
  have positive := slots.limit
  by_cases busy : ∃ job ∈ gate.runningJobs, job.mode = .sequential
  · obtain ⟨job, member, isSequential⟩ := busy
    rw [slots.alone job member isSequential]
    exact positive
  · have all : gate.runningJobs.countP (fun job => job.mode = .parallel) =
        gate.runningJobs.length := by
      rw [List.countP_eq_length]
      intro job member
      cases mode : job.mode with
      | parallel => simp
      | sequential => exact absurd ⟨job, member, mode⟩ busy
    rw [← all, ← slots.parallel]
    exact slots.bounded

theorem GateInvariant.blocked (invariant : GateInvariant gate)
    {head : QueuedJob} (found : gate.queue.find? (fun queued => !queued.aborted) = some head) :
    gate.Blocked head.job := by
  have slots := invariant.slots
  have counted := slots.parallel
  rcases invariant.woken with busy | waits
  · obtain ⟨job, member, isSequential⟩ := slots.sequential.mp busy
    unfold Blocked
    split
    · exact List.ne_nil_of_mem member
    · exact Or.inl ⟨job, member, isSequential⟩
  · have waiting := waits head found
    unfold Blocked
    cases mode : head.job.mode with
    | sequential =>
        rw [mode] at waiting
        simp only [admits] at waiting
        intro empty
        rw [empty] at counted
        exact waiting (by simpa using counted)
    | parallel =>
        rw [mode] at waiting
        simp only [admits] at waiting
        refine Or.inr ?_
        have most := slots.running_le
        have fewer : gate.runningJobs.countP (fun job => job.mode = .parallel) ≤
            gate.runningJobs.length := List.countP_le_length
        omega

theorem GateInvariant.fair (invariant : GateInvariant gate) : Fair gate where
  alone job member isSequential := by
    have single := invariant.slots.alone job (invariant.works_running member) isSequential
    have onlyJob : ∀ other ∈ gate.works, other = job := by
      intro other listed
      have running := invariant.works_running listed
      rw [single] at running
      exact List.mem_singleton.mp running
    exact List.perm_singleton.mp <| (List.perm_ext_iff_of_nodup invariant.works_nodup
      (List.nodup_singleton job)).mpr fun other => by
        rw [List.mem_singleton]
        exact ⟨onlyJob other, fun same => same ▸ member⟩
  limited := by
    have inside : gate.works.length ≤ gate.runningJobs.length :=
      (List.subperm_of_subset invariant.works_nodup
        (fun _ member => invariant.works_running member)).length_le
    exact inside.trans invariant.slots.running_le
  ordered := invariant.lined.called
  noOvertaking id called job known earlier := by
    rcases invariant.lined.placed job known with queued | scheduled | isCalled | aborted
    -- a job that still waits is younger than every called one
    · have later := invariant.lined.called_first id called job queued
      omega
    · have later := invariant.lined.called_scheduled id called _ scheduled rfl
      simp only at later
      omega
    · exact Or.inl isCalled
    · exact Or.inr aborted
  settledOnce := invariant.settling.once
  woken head found := invariant.blocked found
  idle resting quiet queued member := by
    -- at rest a started job would be a work in progress
    have none : gate.runningJobs = [] := by
      rw [List.eq_nil_iff_forall_not_mem]
      intro job running
      obtain ⟨entry, listed, rfl⟩ := List.mem_map.mp running
      obtain ⟨called, unfinished⟩ := invariant.held.working entry listed (resting entry listed)
      have known := invariant.lined.known _ (List.mem_append_left _ running)
      have work : entry.job ∈ gate.works := by
        simp only [works, List.mem_filter, decide_eq_true_eq]
        exact ⟨known, called, unfinished⟩
      rw [quiet] at work
      cases work
    cases found : gate.queue.find? (fun queued => !queued.aborted) with
    | none =>
        have aborted := List.find?_eq_none.mp found queued member
        simpa using aborted
    | some head =>
        have blocked := invariant.blocked found
        have positive := invariant.slots.limit
        unfold Blocked at blocked
        cases mode : head.job.mode <;> simp only [mode, none] at blocked
        · simp at blocked
          omega
        · exact absurd rfl blocked

end GrokPi.Eval
