import BubbleOs.Proof.Scheduling.Safety

namespace BubbleOs.Scheduling

open Attempt Scheduler

/-- A thread is the frame at which its process continues, and it can wait for a character in that frame. -/
structure Thread where
  frame : FullInterruptStackFrame
  reading : Bool

abbrev Threads := Nat → Thread

namespace Thread

/-- A new process starts at the entry of its program. -/
def initial (entry : ProcessEntry) : Thread := ⟨initialContext entry, false⟩

/-- The character is the result of the call that waits for it. -/
def deliver (input : Char) (thread : Thread) : Thread :=
  if thread.reading then ⟨setRax thread.frame (UInt64.ofNat input.toNat), false⟩ else thread

end Thread

/-- The completed call leaves this frame. -/
def Syscall.completed (call : Syscall) (stack : FullInterruptStackFrame) (state : Scheduler) : Thread :=
  match call with
  | .plain (some rax) => ⟨setRax stack rax, false⟩
  | .plain none => ⟨stack, false⟩
  | .execute entry =>
    match (deploy entry true state).1 with
    | .value pid => ⟨setRax stack (UInt64.ofNat pid), false⟩
    | _ => ⟨stack, false⟩
  | .exit => ⟨stack, false⟩
  | .readInput => ⟨stack, true⟩
  | .yld => ⟨stack, false⟩
  | .waitForProcess => ⟨stack, false⟩
  | .nanosleep _ => ⟨setRax stack 1, false⟩

/-- A deployment starts the thread of the next identifier. -/
def Syscall.started (call : Syscall) (state : Scheduler) (threads : Threads) : Threads :=
  match call with
  | .execute entry => Function.update threads state.pidCounter (.initial entry)
  | _ => threads

namespace Machine

/-- This process owns the processor or owned it last. -/
def currentPid (machine : Machine) : Option Nat :=
  machine.scheduler.processes[machine.scheduler.currentIndex]?.map Process.pid

/-- The thread of the current process is replaced. -/
def putThread (machine : Machine) (thread : Thread) (threads : Threads) : Threads :=
  match machine.currentPid with
  | some pid => Function.update threads pid thread
  | none => threads

/-- Only the progress of a process changes its thread. -/
def advance : Interrupt → Machine → Threads → Threads
  | .instruction next, machine, threads =>
    match machine.cpu with
    | .user _ => machine.putThread ⟨next, false⟩ threads
    | _ => threads
  | .timer _ input _, machine, threads =>
    match machine.cpu, input with
    | .halted, _ => threads
    | _, some char => fun pid => (threads pid).deliver char
    | _, none => threads
  | .syscall call _, machine, threads =>
    match machine.cpu with
    | .user frame =>
      machine.putThread (call.completed frame machine.scheduler) (call.started machine.scheduler threads)
    | _ => threads
  | .iretq, _, threads => threads
  | .bootDeploy entry, machine, threads =>
    match machine.cpu with
    | .idle => Function.update threads machine.scheduler.pidCounter (.initial entry)
    | _ => threads

end Machine

/-- The machine runs beside the threads of its processes. -/
structure Execution where
  machine : Machine
  threads : Threads

namespace Execution

/-- The kernel idles before the first deployment. -/
def boot : Execution := ⟨⟨⟨[], 0, 0, 0⟩, .idle⟩, fun _ => ⟨FullInterruptStackFrame.empty, false⟩⟩

def step (event : Interrupt) (execution : Execution) : Execution :=
  ⟨execution.machine.step event, execution.machine.advance event execution.threads⟩

/-- User code lies above kernel code. -/
def Placed : Interrupt → Prop
  | .instruction frame => kernelEnd < frame.rip
  | .timer kernelFrame _ _ => kernelFrame.rip ≤ kernelEnd
  | .syscall (.execute entry) _ => kernelEnd < entry.entry
  | .bootDeploy entry => kernelEnd < entry.entry
  | _ => True

/-- The timer does not interrupt a trampoline that returns. -/
def Unbroken : Interrupt → Execution → Prop
  | .timer _ _ _, execution => ∀ frame, execution.machine.cpu ≠ .returning frame
  | _, _ => True

end Execution

/-- The scheduler stores the thread of this process. -/
def Process.Holds (process : Process) (threads : Threads) : Prop :=
  process.context = (threads process.pid).frame ∧ process.blocking = (threads process.pid).reading

/-- Every process is stored or owns the processor, and user frames lie above the kernel. -/
structure Faithful (machine : Machine) (threads : Threads) : Prop where
  tracked : ∃ tracked : Tracked, tracked.Sound ∧ tracked.scheduler = machine.scheduler ∧ tracked.yielding = false ∧
    ∀ frame, machine.cpu = .user frame ∨ machine.cpu = .returning frame → tracked.running = machine.currentPid
  user : ∀ pid ∈ machine.scheduler.live, kernelEnd < (threads pid).frame.rip
  stored : ∀ place process, machine.scheduler.processes[place]? = some process →
    (place = machine.scheduler.currentIndex → machine.cpu = .idle) → process.Holds threads
  current : ∀ frame, machine.cpu = .user frame ∨ machine.cpu = .returning frame →
    ∃ process, machine.scheduler.processes[machine.scheduler.currentIndex]? = some process ∧
      process.preSchedule = false ∧ process.blocking = false ∧ threads process.pid = ⟨frame, false⟩

section Schedule

variable {tracked : Tracked} {threads : Threads} {state : Scheduler} {frame : FullInterruptStackFrame}

/-- When every saved context is right, the selected process continues at its thread. -/
theorem schedule_faithful (sound : tracked.Sound) {interruptStack : Option FullInterruptStackFrame}
    (all : ∀ process ∈ (saved interruptStack tracked.scheduler).processes, process.Holds threads)
    (user : ∀ pid ∈ tracked.scheduler.live, kernelEnd < (threads pid).frame.rip) (switched : Bool) :
    Faithful (schedule interruptStack switched tracked.scheduler) threads := by
  have next := (@Tracked.Sound.step tracked sound (.nextProcess interruptStack) trivial).1
  rw [Event.step] at next
  rw [schedule]
  rcases sound.consistent.nextProcess interruptStack with
    ⟨chosen, after, front, back, result, selects, turn, _, current, idle⟩ | ⟨after, result, same, _, live, _⟩
  · rw [result] at next ⊢
    have holds : ∀ process ∈ after.processes, process.Holds threads := by
      obtain ⟨index, process, _, _, search, rfl, rfl⟩ := selects
      intro other member
      rcases List.mem_or_eq_of_mem_set member with old | rfl
      · exact all other old
      · exact all process (List.mem_of_getElem? search.current)
    have held := holds chosen (List.mem_of_getElem? current)
    refine ⟨⟨_, next, rfl, rfl, fun frame _ => ?_⟩, ?_, fun place process found _ => ?_, fun frame running => ?_⟩
    · rw [Machine.currentPid, current]
      rfl
    · change ∀ pid ∈ after.live, _
      rw [turn.live]
      exact user
    · exact holds process (List.mem_of_getElem? found)
    · have awake : chosen.blocking = false := congrArg Waits.input idle
      refine ⟨chosen, current, ?_, awake, ?_⟩
      · obtain ⟨_, process, _, _, _, rfl, _⟩ := selects
        rfl
      · have entered : frame = chosen.context := by
          cases switched with
          | false => simp at running
          | true => simpa [eq_comm] using running
        rw [entered, held.1, ← awake, held.2]
  · rw [result] at next ⊢
    refine ⟨⟨_, next, rfl, rfl, fun frame running => ?_⟩, ?_, fun place process found _ => ?_, fun frame running => ?_⟩
    · simp at running
    · change ∀ pid ∈ after.live, _
      rw [live]
      exact user
    · rw [same] at found
      exact all process (List.mem_of_getElem? found)
    · simp at running

/-- The frame of user code is saved. -/
theorem saved_user {process : Process} (current : state.processes[state.currentIndex]? = some process)
    (entered : process.preSchedule = false) (user : kernelEnd < frame.rip) :
    saved (some frame) state =
      { state with processes := state.processes.set state.currentIndex { process with context := frame } } := by
  rw [saved]
  simp only [current]
  rw [if_pos (by simp [entered, user])]

/-- The frame of kernel code is not saved. -/
theorem saved_kernel (kernel : frame.rip ≤ kernelEnd) : saved (some frame) state = state := by
  rw [saved]
  cases state.processes[state.currentIndex]? with
  | none => rfl
  | some process =>
    simp only
    rw [if_neg]
    simp [UInt64.not_lt.mpr kernel]

end Schedule

section Step

variable {machine : Machine} {threads : Threads} (faithful : Faithful machine threads)

include faithful

variable {frame : FullInterruptStackFrame} {reading : Bool}

/-- The thread of the current process moves on, and no other thread does. -/
theorem Faithful.others (running : machine.cpu = .user frame) (thread : Thread) :
    ∃ process, machine.scheduler.processes[machine.scheduler.currentIndex]? = some process ∧
      process.preSchedule = false ∧ process.blocking = false ∧ threads process.pid = ⟨frame, false⟩ ∧
      machine.putThread thread threads = Function.update threads process.pid thread ∧
      ∀ place other, machine.scheduler.processes[place]? = some other → place ≠ machine.scheduler.currentIndex →
        other.Holds (machine.putThread thread threads) := by
  obtain ⟨process, current, entered, awake, own⟩ := faithful.current frame (.inl running)
  have put : machine.putThread thread threads = Function.update threads process.pid thread := by
    rw [Machine.putThread, Machine.currentPid, current]
    rfl
  refine ⟨process, current, entered, awake, own, put, fun place other found apart => ?_⟩
  have held := faithful.stored place other found fun same => absurd same apart
  obtain ⟨tracked, sound, same, _⟩ := faithful.tracked
  rw [← same] at current found apart
  have different : other.pid ≠ process.pid := sound.consistent.pid_ne current found apart
  rw [put, Process.Holds, Function.update_of_ne different]
  exact held

/-- Every live thread is in user code after the current one has moved on. -/
theorem Faithful.user_put {thread : Thread} (user : kernelEnd < thread.frame.rip) :
    ∀ pid ∈ machine.scheduler.live, kernelEnd < (machine.putThread thread threads pid).frame.rip := by
  intro pid member
  rw [Machine.putThread]
  cases machine.currentPid with
  | none => exact faithful.user pid member
  | some own =>
    by_cases same : pid = own
    · rw [same]
      simp only [Function.update_self]
      exact user
    · simp only [Function.update_of_ne same]
      exact faithful.user pid member

/-- The process moves on without the scheduler. -/
theorem Faithful.progress {frame next : FullInterruptStackFrame} (running : machine.cpu = .user frame)
    (user : kernelEnd < next.rip) {cpu : Cpu} (after : cpu = .user next ∨ cpu = .returning next ∨ cpu = .halted) :
    Faithful { machine with cpu := cpu } (machine.putThread ⟨next, false⟩ threads) := by
  obtain ⟨process, current, entered, awake, own, put, others⟩ := faithful.others running ⟨next, false⟩
  obtain ⟨tracked, sound, same, free, runs⟩ := faithful.tracked
  refine ⟨⟨tracked, sound, same, free, fun _ _ => runs frame (.inl running)⟩, faithful.user_put user, ?_, ?_⟩
  · intro place other found idle
    refine others place other found fun here => ?_
    have stopped : cpu = .idle := idle here
    rcases after with rfl | rfl | rfl <;> cases stopped
  · intro other returns
    refine ⟨process, current, entered, awake, ?_⟩
    have sameFrame : other = next := by
      rcases after with rfl | rfl | rfl
      · simpa [eq_comm] using returns
      · simpa [eq_comm] using returns
      · simp at returns
    rw [put, Function.update_self, sameFrame]

/-- The thread of the current process is the frame of the processor. -/
theorem Faithful.putThread_self (running : machine.cpu = .user frame) :
    machine.putThread ⟨frame, false⟩ threads = threads := by
  obtain ⟨process, _, _, _, own, put, _⟩ := faithful.others running ⟨frame, false⟩
  rw [put]
  exact Function.update_eq_self_iff.mpr own.symm

/-- The process gives up the processor in this frame. -/
theorem Faithful.yields {frame next : FullInterruptStackFrame} (running : machine.cpu = .user frame)
    (user : kernelEnd < next.rip) {tracked : Tracked} (sound : tracked.Sound)
    (live : tracked.scheduler.live = machine.scheduler.live)
    (index : tracked.scheduler.currentIndex = machine.scheduler.currentIndex)
    (others : ∀ place, place ≠ machine.scheduler.currentIndex →
      tracked.scheduler.processes[place]? = machine.scheduler.processes[place]?)
    (changed : ∀ process, machine.scheduler.processes[machine.scheduler.currentIndex]? = some process →
      process.preSchedule = false → process.blocking = false →
        ∃ after, tracked.scheduler.processes[machine.scheduler.currentIndex]? = some after ∧
          after.pid = process.pid ∧ after.preSchedule = false ∧ after.blocking = reading) (switched : Bool) :
    Faithful (schedule (some next) switched tracked.scheduler) (machine.putThread ⟨next, reading⟩ threads) := by
  obtain ⟨process, current, entered, awake, own, put, holds⟩ := faithful.others running ⟨next, reading⟩
  obtain ⟨after, found, samePid, afterEntered, blocking⟩ := changed process current entered awake
  rw [← index] at found
  refine schedule_faithful sound (fun other member => ?_) ?_ switched
  · rw [saved_user found afterEntered user] at member
    obtain ⟨place, held⟩ := List.mem_iff_getElem?.mp member
    rw [List.getElem?_set] at held
    by_cases here : tracked.scheduler.currentIndex = place
    · rw [if_pos here, if_pos (here ▸ (List.getElem?_eq_some_iff.mp found).1), Option.some.injEq] at held
      rw [← held, put, Process.Holds]
      simp only [samePid, Function.update_self]
      exact ⟨trivial, blocking⟩
    · rw [if_neg here, others place (fun same => here (index.trans same.symm))] at held
      exact holds place other held fun same => here (index.trans same.symm)
  · rw [live]
    exact faithful.user_put user

/-- A call that changes the current process gives up the processor. -/
theorem Faithful.yieldAfter {frame next : FullInterruptStackFrame} (running : machine.cpu = .user frame)
    (user : kernelEnd < next.rip) (event : Event) (call : SchedM Unit) (change : Process → Process)
    (allowed : ∀ tracked : Tracked, tracked.yielding = false → tracked.running ≠ none → event.Allowed tracked)
    (steps : ∀ tracked, (event.step tracked).scheduler = (call tracked.scheduler).2)
    (calls : machine.scheduler.currentIndex < machine.scheduler.processes.length →
      call machine.scheduler = modifyCurrent change machine.scheduler)
    (fields : ∀ process, process.blocking = false → (change process).pid = process.pid ∧
      (change process).preSchedule = process.preSchedule ∧ (change process).blocking = reading) (switched : Bool) :
    Faithful (Scheduling.yieldAfter call (some next) switched machine.scheduler)
      (machine.putThread ⟨next, reading⟩ threads) := by
  obtain ⟨process, current, entered, awake, _⟩ := faithful.current frame (.inl running)
  obtain ⟨tracked, sound, same, free, runs⟩ := faithful.tracked
  have inside := (List.getElem?_eq_some_iff.mp current).1
  have owned : tracked.running ≠ none := by
    rw [runs frame (.inl running), Machine.currentPid, current]
    exact Option.some_ne_none _
  have stepped := (sound.step (allowed tracked free owned)).1
  have result : call machine.scheduler = (.value (), (event.step tracked).scheduler) := by
    rw [steps, same, calls inside, modifyCurrent, current]
  have scheduler : (event.step tracked).scheduler =
      { machine.scheduler with
        processes := machine.scheduler.processes.set machine.scheduler.currentIndex (change process) } := by
    rw [steps, same, calls inside, modifyCurrent, current]
  obtain ⟨samePid, _⟩ := fields process awake
  rw [Scheduling.yieldAfter, result]
  refine faithful.yields running user stepped ?_ ?_ ?_ ?_ switched
  · rw [scheduler]
    exact pids_set current samePid
  · rw [scheduler]
  · intro place apart
    rw [scheduler]
    exact List.getElem?_set_ne (Ne.symm apart)
  · intro other found entered awake
    obtain rfl : process = other := Option.some.inj (current.symm.trans found)
    obtain ⟨_, sameEntered, blocking⟩ := fields process awake
    refine ⟨change process, ?_, samePid, sameEntered.trans entered, blocking⟩
    rw [scheduler]
    exact List.getElem?_set_self inside

/-- The current process exits, and the others stay as they are. -/
theorem Faithful.exits (running : machine.cpu = .user frame) (thread : Thread) (user : kernelEnd < thread.frame.rip)
    (switched : Bool) :
    Faithful (Scheduling.yieldAfter exitCurrent none switched machine.scheduler)
      (machine.putThread thread threads) := by
  obtain ⟨process, current, _, _, _, _, others⟩ := faithful.others running thread
  obtain ⟨tracked, sound, same, free, runs⟩ := faithful.tracked
  have owned : tracked.running ≠ none := by
    rw [runs frame (.inl running), Machine.currentPid, current]
    exact Option.some_ne_none _
  have stepped := (@Tracked.Sound.step tracked sound .exitCurrent ⟨free, owned⟩).1
  have exited := current
  rw [← same] at exited
  obtain ⟨after, result, _, erased⟩ := sound.consistent.exitCurrent exited
  have scheduler : (Event.exitCurrent.step tracked).scheduler = after := congrArg Prod.snd result
  have processes : after.processes = machine.scheduler.processes.eraseIdx machine.scheduler.currentIndex := by
    rw [erased, same]
  rw [same] at result
  rw [Scheduling.yieldAfter, result, ← scheduler]
  refine schedule_faithful stepped (fun other member => ?_) (fun pid member => ?_) switched
  · rw [scheduler] at member
    change other ∈ after.processes at member
    rw [processes] at member
    obtain ⟨place, apart, found⟩ := List.mem_eraseIdx_iff_getElem?.mp member
    exact others place other found apart
  · rw [scheduler, live, processes, ← List.eraseIdx_map] at member
    exact faithful.user_put user pid (List.mem_of_mem_eraseIdx member)

/-- A new process is stored at the entry of its program. -/
theorem Faithful.deploys {entry : ProcessEntry} (user : kernelEnd < entry.entry) (forkCurrent : Bool) :
    Faithful { machine with scheduler := (deploy entry forkCurrent machine.scheduler).2 }
        (Function.update threads machine.scheduler.pidCounter (.initial entry)) ∧
      ∀ frame, machine.cpu = .user frame ∨ machine.cpu = .returning frame →
        Machine.currentPid { machine with scheduler := (deploy entry forkCurrent machine.scheduler).2 } =
          machine.currentPid := by
  obtain ⟨tracked, sound, same, free, runs⟩ := faithful.tracked
  have stepped := (@Tracked.Sound.step tracked sound (.deploy entry forkCurrent) free).1
  have consistent := sound.consistent
  rw [same] at consistent
  obtain ⟨_, deployed⟩ := consistent.deploy entry forkCurrent
  have old {process : Process} (member : process ∈ machine.scheduler.processes) :
      process.pid ≠ machine.scheduler.pidCounter :=
    Nat.ne_of_lt (consistent.issued process.pid (List.mem_map_of_mem member))
  have kept {place : Nat} {process : Process} (found : machine.scheduler.processes[place]? = some process) :
      (deploy entry forkCurrent machine.scheduler).2.processes[place]? = some process := by
    rcases deployed.processes with unchanged | ⟨added, _, _, _, _, pushed⟩
    · rw [unchanged]
      exact found
    · rw [pushed, List.getElem?_append_left (List.getElem?_eq_some_iff.mp found).1]
      exact found
  have cases {place : Nat} {process : Process}
      (found : (deploy entry forkCurrent machine.scheduler).2.processes[place]? = some process) :
      machine.scheduler.processes[place]? = some process ∨
        process.pid = machine.scheduler.pidCounter ∧ process.context = initialContext entry ∧
          process.blocking = false := by
    rcases deployed.processes with unchanged | ⟨added, fresh, _, context, awake, pushed⟩
    · rw [unchanged] at found
      exact .inl found
    · rw [pushed, List.getElem?_append] at found
      split at found
      · exact .inl found
      · obtain rfl : added = process := by
          have member := List.mem_of_getElem? found
          exact (List.mem_singleton.mp member).symm
        exact .inr ⟨fresh, context, awake⟩
  have samePid (frame : FullInterruptStackFrame) (running : machine.cpu = .user frame ∨ machine.cpu = .returning frame) :
      Machine.currentPid { machine with scheduler := (deploy entry forkCurrent machine.scheduler).2 } =
        machine.currentPid := by
    obtain ⟨process, current, _⟩ := faithful.current frame running
    have held := kept current
    rw [← deployed.index] at held
    rw [Machine.currentPid, Machine.currentPid, current, held]
  refine ⟨⟨⟨_, stepped, ?_, free, fun frame running => ?_⟩, ?_, ?_, ?_⟩, samePid⟩
  · change (deploy entry forkCurrent tracked.scheduler).2 = _
    rw [same]
  · exact (runs frame running).trans (samePid frame running).symm
  · intro pid member
    obtain ⟨process, inList, rfl⟩ := List.mem_map.mp member
    obtain ⟨place, found⟩ := List.mem_iff_getElem?.mp inList
    rcases cases found with was | ⟨fresh, _⟩
    · rw [Function.update_of_ne (old (List.mem_of_getElem? was))]
      exact faithful.user _ (List.mem_map_of_mem (List.mem_of_getElem? was))
    · rw [fresh, Function.update_self]
      exact user
  · intro place process found idle
    rcases cases found with was | ⟨fresh, context, awake⟩
    · rw [Process.Holds, Function.update_of_ne (old (List.mem_of_getElem? was))]
      exact faithful.stored place process was fun here => idle (here.trans deployed.index.symm)
    · rw [Process.Holds, fresh, Function.update_self]
      exact ⟨context, awake⟩
  · intro frame running
    obtain ⟨process, current, entered, awake, own⟩ := faithful.current frame running
    have held := kept current
    rw [← deployed.index] at held
    refine ⟨process, held, entered, awake, ?_⟩
    rw [Function.update_of_ne (old (List.mem_of_getElem? current))]
    exact own

omit faithful in
/-- A delivered character is stored as the result of the call. -/
theorem delivered_holds {process : Process} (holds : process.Holds threads) (input : Char) :
    (delivered input process).Holds fun pid => (threads pid).deliver input := by
  obtain ⟨context, blocking⟩ := holds
  rw [delivered]
  cases awake : process.blocking with
  | false =>
    rw [awake] at blocking
    rw [if_neg Bool.false_ne_true, Process.Holds, Thread.deliver, ← blocking, if_neg Bool.false_ne_true]
    exact ⟨context, awake.trans blocking⟩
  | true =>
    rw [awake] at blocking
    rw [if_pos rfl, Process.Holds]
    simp only [Thread.deliver, ← blocking, if_true, context]
    exact ⟨rfl, trivial⟩

/-- A character reaches the processes that wait for it. -/
theorem Faithful.receives (input : Char) :
    Faithful { machine with scheduler := (processInput input machine.scheduler).2 }
      fun pid => (threads pid).deliver input := by
  obtain ⟨tracked, sound, same, free, runs⟩ := faithful.tracked
  have stepped := (@Tracked.Sound.step tracked sound (.processInput input) free).1
  have lookup (place : Nat) : (processInput input machine.scheduler).2.processes[place]? =
      machine.scheduler.processes[place]?.map (delivered input) := List.getElem?_map
  refine ⟨⟨_, stepped, ?_, free, fun frame running => ?_⟩, ?_, ?_, ?_⟩
  · change (processInput input tracked.scheduler).2 = _
    rw [same]
  · obtain ⟨process, current, _⟩ := faithful.current frame running
    change tracked.running = _
    rw [runs frame running, Machine.currentPid, Machine.currentPid]
    change _ = ((processInput input machine.scheduler).2.processes[machine.scheduler.currentIndex]?).map _
    rw [lookup, current, Option.map_some, Option.map_some, Option.map_some, delivered_pid]
  · intro pid member
    obtain ⟨process, inList, rfl⟩ := List.mem_map.mp member
    obtain ⟨before, was, rfl⟩ := List.mem_map.mp inList
    have high := faithful.user _ (List.mem_map_of_mem was)
    rw [delivered_pid, Thread.deliver]
    split
    · exact high
    · exact high
  · intro place process found idle
    rw [lookup, Option.map_eq_some_iff] at found
    obtain ⟨before, was, rfl⟩ := found
    exact delivered_holds (faithful.stored place before was idle) input
  · intro frame running
    obtain ⟨process, current, entered, awake, own⟩ := faithful.current frame running
    refine ⟨process, ?_, entered, awake, ?_⟩
    · change (processInput input machine.scheduler).2.processes[machine.scheduler.currentIndex]? = _
      rw [lookup, current, Option.map_some, delivered, if_neg (by simp [awake])]
    · simp only [own, Thread.deliver, Bool.false_eq_true, if_false]

/-- A tick changes no process. -/
theorem Faithful.ticks : Faithful { machine with scheduler := (tick machine.scheduler).2 } threads := by
  obtain ⟨tracked, sound, same, free, runs⟩ := faithful.tracked
  have stepped := (@Tracked.Sound.step tracked sound .tick free).1
  refine ⟨⟨_, stepped, ?_, free, runs⟩, faithful.user, faithful.stored, faithful.current⟩
  change (tick tracked.scheduler).2 = _
  rw [same]

/-- The timer takes the processor from user code. -/
theorem Faithful.interrupts (running : machine.cpu = .user frame) (switched : Bool) :
    Faithful (schedule (some frame) switched machine.scheduler) threads := by
  obtain ⟨process, current, entered, awake, own⟩ := faithful.current frame (.inl running)
  obtain ⟨tracked, sound, same, _⟩ := faithful.tracked
  have high := faithful.user process.pid (List.mem_map_of_mem (List.mem_of_getElem? current))
  rw [own] at high
  rw [← faithful.putThread_self running, ← same]
  refine faithful.yields running high sound ?_ ?_ ?_ ?_ switched <;> rw [same]
  · exact fun _ _ => rfl
  · exact fun other found entered awake => ⟨other, found, rfl, entered, awake⟩

/-- The timer wakes an idle kernel. -/
theorem Faithful.wakes (idle : machine.cpu = .idle) (kernel : frame.rip ≤ kernelEnd) (switched : Bool) :
    Faithful (schedule (some frame) switched machine.scheduler) threads := by
  obtain ⟨tracked, sound, same, _⟩ := faithful.tracked
  have user := faithful.user
  rw [← same] at user ⊢
  refine schedule_faithful sound (fun process member => ?_) user switched
  rw [saved_kernel kernel, same] at member
  obtain ⟨place, found⟩ := List.mem_iff_getElem?.mp member
  exact faithful.stored place process found fun _ => idle

/-- A call returns to its process. -/
theorem Faithful.returns (returning : machine.cpu = .returning frame) :
    Faithful { machine with cpu := .user frame } threads := by
  obtain ⟨tracked, sound, same, free, runs⟩ := faithful.tracked
  refine ⟨⟨tracked, sound, same, free, fun _ _ => runs frame (.inr returning)⟩, faithful.user, ?_, ?_⟩
  · intro place process found idle
    refine faithful.stored place process found fun here => ?_
    have stopped : Cpu.user frame = .idle := idle here
    cases stopped
  · intro other running
    obtain rfl : frame = other := by simpa using running
    exact faithful.current frame (.inr returning)

theorem Faithful.syscall (running : machine.cpu = .user frame) (call : Syscall) (switched : Bool)
    (placed : Execution.Placed (.syscall call switched)) :
    Faithful (syscallIsr call frame switched machine.scheduler)
      (machine.putThread (call.completed frame machine.scheduler) (call.started machine.scheduler threads)) := by
  obtain ⟨process, current, _, _, own⟩ := faithful.current frame (.inl running)
  have high := faithful.user process.pid (List.mem_map_of_mem (List.mem_of_getElem? current))
  rw [own] at high
  cases call with
  | plain rax =>
    cases rax with
    | none => exact faithful.progress running high (.inr (.inl rfl))
    | some rax =>
      have result := @Faithful.progress machine threads faithful frame (setRax frame rax) running high _
        (.inr (.inl rfl))
      exact result
  | execute entry =>
    obtain ⟨deployed, samePid⟩ := faithful.deploys placed true
    have put (thread : Thread) (other : Threads) :
        Machine.putThread { machine with scheduler := (deploy entry true machine.scheduler).2 } thread other =
          machine.putThread thread other := by
      rw [Machine.putThread, Machine.putThread, samePid frame (.inl running)]
    rw [syscallIsr, Syscall.completed, Syscall.started]
    cases outcome : deploy entry true machine.scheduler with
    | mk result after =>
      rw [outcome] at deployed put
      cases result with
      | value pid =>
        have moved := @Faithful.progress _ _ deployed frame (setRax frame (UInt64.ofNat pid)) running high _
          (.inr (.inl rfl))
        rw [put] at moved
        exact moved
      | missing | hang =>
        have moved := @Faithful.progress _ _ deployed frame frame running high _ (.inr (.inr rfl))
        rw [put] at moved
        exact moved
  | exit => exact faithful.exits running ⟨frame, false⟩ high switched
  | readInput =>
    refine faithful.yieldAfter running high .blockCurrent blockCurrent
      (fun current => { current with blocking := true }) (fun _ free owned => ⟨free, owned⟩) (fun _ => rfl)
      (fun inside => ?_) (fun _ _ => ⟨rfl, rfl, rfl⟩) switched
    rw [blockCurrent, get_bind, if_neg (by omega)]
  | yld =>
    have result := faithful.interrupts running switched
    rw [← faithful.putThread_self running] at result
    exact result
  | waitForProcess =>
    refine faithful.yieldAfter running high (.currentWaitForProcess frame.rdi.toNat)
      (currentWaitForProcess frame.rdi.toNat)
      (fun current => { current with awaitingProcess := some frame.rdi.toNat }) (fun _ free owned => ⟨free, owned⟩)
      (fun _ => rfl) (fun inside => ?_) (fun _ awake => ⟨rfl, rfl, awake⟩) switched
    rw [currentWaitForProcess, get_bind, if_neg (by omega), if_neg (by omega)]
  | nanosleep deadline =>
    have user : kernelEnd < (setRax frame 1).rip := high
    refine faithful.yieldAfter running user (.sleepCurrentUntil deadline) (sleepCurrentUntil deadline)
      (fun current => { current with sleepUntilTick := some deadline }) (fun _ free owned => ⟨free, owned⟩)
      (fun _ => rfl) (fun inside => ?_) (fun _ awake => ⟨rfl, rfl, awake⟩) switched
    rw [sleepCurrentUntil, get_bind, if_neg (by omega)]

end Step

/-- The call asks for the next process with these arguments. -/
def asksAfter (call : SchedM Unit) (interruptStack : Option FullInterruptStackFrame) (state : Scheduler) :
    Option (Option FullInterruptStackFrame × Scheduler) :=
  match call state with
  | (.value (), after) => some (interruptStack, after)
  | _ => none

def Syscall.asks (call : Syscall) (stack : FullInterruptStackFrame) (state : Scheduler) :
    Option (Option FullInterruptStackFrame × Scheduler) :=
  match call with
  | .plain _ => none
  | .execute _ => none
  | .exit => asksAfter exitCurrent none state
  | .readInput => asksAfter blockCurrent (some stack) state
  | .yld => some (some stack, state)
  | .waitForProcess => asksAfter (currentWaitForProcess stack.rdi.toNat) (some stack) state
  | .nanosleep deadline => asksAfter (sleepCurrentUntil deadline) (some (setRax stack 1)) state

/-- The interrupt asks for the next process with these arguments. -/
def Interrupt.asks : Interrupt → Machine → Option (Option FullInterruptStackFrame × Scheduler)
  | .timer kernelFrame (some char) _, machine =>
    if machine.cpu = .halted then none
    else some (some (machine.pushed kernelFrame), (processInput char (tick machine.scheduler).2).2)
  | .timer kernelFrame none _, machine =>
    if machine.cpu = .halted then none else some (some (machine.pushed kernelFrame), (tick machine.scheduler).2)
  | .syscall call _, machine =>
    match machine.cpu with
    | .user frame => call.asks frame machine.scheduler
    | _ => none
  | _, _ => none

section Asks

variable {interruptStack : Option FullInterruptStackFrame} {state : Scheduler}

theorem yieldAfter_of_asks {call : SchedM Unit} {stack : Option FullInterruptStackFrame} {before : Scheduler}
    (asks : asksAfter call stack before = some (interruptStack, state)) (switched : Bool) :
    yieldAfter call stack switched before = schedule interruptStack switched state := by
  rw [asksAfter] at asks
  rw [yieldAfter]
  split at asks
  · rename_i after same
    rw [Option.some.injEq, Prod.mk.injEq] at asks
    obtain ⟨rfl, rfl⟩ := asks
    rw [same]
  · cases asks

/-- The answer decides the next state of the machine. -/
theorem step_of_asks {event : Interrupt} {machine : Machine} (asks : event.asks machine = some (interruptStack, state)) :
    ∃ switched, machine.step event = schedule interruptStack switched state := by
  obtain ⟨scheduler, cpu⟩ := machine
  cases event with
  | instruction next | iretq | bootDeploy entry => cases asks
  | timer kernelFrame input switched =>
    refine ⟨switched, ?_⟩
    cases cpu with
    | halted => cases input <;> cases asks
    | user frame | returning frame | idle => cases input <;> cases asks <;> rfl
  | syscall call switched =>
    refine ⟨switched, ?_⟩
    cases cpu with
    | user frame =>
      cases call with
      | plain rax | execute entry => cases asks
      | yld => cases asks; rfl
      | exit | readInput | waitForProcess | nanosleep deadline => exact yieldAfter_of_asks asks switched
    | returning frame | idle | halted => cases asks

end Asks

/-- A faithful machine returns the thread of the selected process. -/
theorem Faithful.selected {machine : Machine} {threads : Threads} {interruptStack : Option FullInterruptStackFrame}
    {state after : Scheduler} {chosen : Process} {switched : Bool}
    (result : nextProcess interruptStack state = (.value (some chosen), after))
    (next : machine = schedule interruptStack switched state) (faithful : Faithful machine threads) :
    chosen.context = (threads chosen.pid).frame := by
  have current := nextProcess_current result
  rw [schedule, result] at next
  subst next
  cases switched with
  | true =>
    obtain ⟨process, found, _, _, own⟩ := faithful.current chosen.context (.inl rfl)
    obtain rfl : chosen = process := Option.some.inj (current.symm.trans found)
    rw [own]
  | false => exact (faithful.stored after.currentIndex chosen current fun _ => rfl).1

namespace Execution

/-- Every event keeps the threads right, unless it breaks into a returning trampoline. -/
theorem faithful_step {execution : Execution} (faithful : Faithful execution.machine execution.threads)
    {event : Interrupt} (placed : Placed event) (unbroken : Unbroken event execution) :
    Faithful (execution.step event).machine (execution.step event).threads := by
  obtain ⟨machine, threads⟩ := execution
  obtain ⟨scheduler, cpu⟩ := machine
  cases event with
  | instruction next =>
    cases cpu with
    | user frame => exact faithful.progress rfl placed (.inl rfl)
    | returning frame | idle | halted => exact faithful
  | timer kernelFrame input switched =>
    cases cpu with
    | user frame =>
      cases input with
      | none => exact faithful.ticks.interrupts rfl switched
      | some char => exact (faithful.ticks.receives char).interrupts rfl switched
    | returning frame => exact absurd rfl (unbroken frame)
    | idle =>
      cases input with
      | none => exact faithful.ticks.wakes rfl placed switched
      | some char => exact (faithful.ticks.receives char).wakes rfl placed switched
    | halted => exact faithful
  | syscall call switched =>
    cases cpu with
    | user frame => exact faithful.syscall rfl call switched placed
    | returning frame | idle | halted => exact faithful
  | iretq =>
    cases cpu with
    | user frame => exact faithful
    | returning frame => exact faithful.returns rfl
    | idle | halted => exact faithful
  | bootDeploy entry =>
    cases cpu with
    | user frame | returning frame => exact faithful
    | idle => exact (faithful.deploys placed false).1
    | halted => exact faithful

theorem faithful_boot : Faithful boot.machine boot.threads where
  tracked := ⟨.boot, Tracked.sound_boot, rfl, rfl, fun _ running => by simp [boot] at running⟩
  user pid member := by cases member
  stored place process found := by cases found
  current frame running := by simp [boot] at running

/-- Without an interrupt of a returning trampoline every selected process continues at its thread, and so does the
process that owns the processor. -/
theorem threads_continue {execution : Execution}
    (reached : Reached step (fun event execution => Placed event ∧ Unbroken event execution) boot execution) :
    (∀ frame, execution.machine.cpu = .user frame ∨ execution.machine.cpu = .returning frame →
      ∃ pid, execution.machine.currentPid = some pid ∧ (execution.threads pid).frame = frame) ∧
    ∀ event, Placed event → Unbroken event execution → ∀ interruptStack state chosen after,
      event.asks execution.machine = some (interruptStack, state) →
        nextProcess interruptStack state = (.value (some chosen), after) →
          chosen.context = ((execution.step event).threads chosen.pid).frame := by
  have faithful : Faithful execution.machine execution.threads :=
    @Reached.invariant _ _ _ _ _ _ (fun execution => Faithful execution.machine execution.threads) faithful_boot
      (fun _ _ kept fits => faithful_step kept fits.1 fits.2) reached
  constructor
  · intro frame running
    obtain ⟨process, current, _, _, own⟩ := faithful.current frame running
    refine ⟨process.pid, ?_, by rw [own]⟩
    rw [Machine.currentPid, current]
    rfl
  · intro event placed unbroken interruptStack state chosen after asks result
    obtain ⟨switched, next⟩ := step_of_asks asks
    exact Faithful.selected result next (faithful_step faithful placed unbroken)

section Window

/-- The timer interrupts kernel code at a low address. -/
def wake : Interrupt := .timer FullInterruptStackFrame.empty none true

/-- One process is deployed. -/
def deployed : Execution := boot.step (.bootDeploy Tracked.firstEntry)

/-- The process has started. -/
def started : Execution := deployed.step wake

/-- The process has made a call that returns through the trampoline. -/
def called : Execution := started.step (.syscall (.plain (some 7)) true)

theorem placed_wake : Placed wake := by
  change FullInterruptStackFrame.empty.rip ≤ kernelEnd
  decide

theorem placed_bootDeploy : Placed (.bootDeploy Tracked.firstEntry) := by
  change kernelEnd < Tracked.firstEntry.entry
  decide

/-- The first process starts at its entry. -/
theorem threads_continue_started :
    Reached step (fun event execution => Placed event ∧ Unbroken event execution) boot started ∧
      ∃ pid, started.machine.currentPid = some pid ∧
        (started.threads pid).frame = initialContext Tracked.firstEntry := by
  have first : Reached step (fun event execution => Placed event ∧ Unbroken event execution) boot deployed :=
    .step .start (Interrupt.bootDeploy Tracked.firstEntry) (And.intro placed_bootDeploy trivial)
  have second : Reached step (fun event execution => Placed event ∧ Unbroken event execution) boot started :=
    .step first wake ⟨placed_wake, nofun⟩
  exact ⟨second, (threads_continue second).1 _ (.inl (by decide))⟩

/-- An interrupt of the returning trampoline resumes the process before the call that it has completed. -/
theorem interrupt_replays :
    ∃ chosen after, Reached step (fun event _ => Placed event) boot called ∧ Placed wake ∧
      wake.asks called.machine = some (some FullInterruptStackFrame.empty, (tick called.machine.scheduler).2) ∧
        nextProcess (some FullInterruptStackFrame.empty) (tick called.machine.scheduler).2 =
          (.value (some chosen), after) ∧
        chosen.context ≠ ((called.step wake).threads chosen.pid).frame := by
  have first : Reached step (fun event _ => Placed event) boot deployed :=
    .step .start (Interrupt.bootDeploy Tracked.firstEntry) placed_bootDeploy
  have second : Reached step (fun event _ => Placed event) boot started := .step first wake placed_wake
  have third : Reached step (fun event _ => Placed event) boot called :=
    .step second (.syscall (.plain (some 7)) true) trivial
  exact ⟨_, _, third, placed_wake, rfl, rfl, by decide⟩

end Window

end Execution

end BubbleOs.Scheduling
