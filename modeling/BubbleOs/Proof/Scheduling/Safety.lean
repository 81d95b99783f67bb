import BubbleOs.Construction.Scheduling.Scheduler
import Mathlib.Data.UInt

namespace BubbleOs.Scheduling

open Attempt

namespace Scheduler

variable {state : Scheduler} {chosen : Process}

/-- The search passed over processes that were not ready and stopped at this one. -/
structure Found (state : Scheduler) (index selected : Nat) (process : Process) (before after : List Process) : Prop where
  current : state.processes[selected]? = some process
  ready : state.isReady process = true
  order : state.processes.rotate (index + 1) = before ++ process :: after
  passed : ∀ other ∈ before, state.isReady other = false
  rotated : state.processes.rotate (selected + 1) = after ++ before ++ [process]

/-- The loop finds the first ready process of the rotation, or none of the tried processes is ready. -/
theorem selectLoop_spec {passes index : Nat} (inside : index < state.processes.length)
    (bounded : passes ≤ state.processes.length) :
    (∃ selected process before after, state.selectLoop passes index = .value (some selected) ∧
      before.length < passes ∧ state.Found index selected process before after) ∨
    (state.selectLoop passes index = .value none ∧
      ∀ other ∈ (state.processes.rotate (index + 1)).take passes, state.isReady other = false) := by
  induction passes generalizing index with
  | zero => exact .inr ⟨rfl, by simp⟩
  | succ passes ih =>
    obtain ⟨item, rest, found, order, rotated⟩ := rotate_cyclicNext inside
    have length : rest.length + 1 = state.processes.length := by
      rw [← List.length_rotate state.processes (index + 1), order, List.length_cons]
    rw [selectLoop]
    simp only [found]
    by_cases ready : state.isReady item = true
    · rw [if_pos ready]
      refine .inl ⟨_, item, [], rest, rfl, Nat.succ_pos _, found, ready, order, by simp, ?_⟩
      rw [rotated, List.append_nil]
    · rw [if_neg ready]
      have skipped : state.isReady item = false := by simpa using ready
      rcases ih (cyclicNext_lt inside) (by omega) with
        ⟨selected, process, before, after, result, early, search⟩ | ⟨result, passed⟩
      · -- the tried process closes the rotation that the rest of the loop searches
        have parts := rotated.symm.trans search.order
        obtain ⟨later, restParts, afterParts⟩ : ∃ later, rest = before ++ process :: later ∧ after = later ++ [item] := by
          rcases List.eq_nil_or_concat after with rfl | ⟨later, last, rfl⟩
          · have same := congrArg List.length parts
            simp only [List.length_append, List.length_cons, List.length_nil] at same
            omega
          · rw [List.concat_eq_append, ← List.cons_append, ← List.append_assoc] at parts
            obtain ⟨sameRest, sameLast⟩ := List.append_inj' parts rfl
            rw [List.concat_eq_append, ← sameLast]
            exact ⟨later, sameRest, rfl⟩
        refine .inl ⟨selected, process, item :: before, later, result, by simpa using early, search.current,
          search.ready, ?_, ?_, ?_⟩
        · rw [order, restParts, List.cons_append]
        · intro other member
          rcases List.mem_cons.mp member with rfl | inside
          · exact skipped
          · exact search.passed other inside
        · rw [search.rotated, afterParts]
          simp
      · refine .inr ⟨result, fun other member => ?_⟩
        rw [order, List.take_succ_cons] at member
        rcases List.mem_cons.mp member with rfl | later
        · exact skipped
        · apply passed other
          rw [rotated, List.take_append_of_le_length (by omega)]
          exact later

/-- The selected process takes its place in the list and becomes the current one. -/
def Selects (state after : Scheduler) (chosen : Process) : Prop :=
  ∃ index process before later, state.Found state.currentIndex index process before later ∧
    chosen = selected process ∧
      after = { state with processes := state.processes.set index (selected process), currentIndex := index }

/-- A process is selected, or no process is ready and nothing changes. -/
theorem select_spec (inside : state.currentIndex < state.processes.length) :
    (∃ chosen after, select state = (.value (some chosen), after) ∧ state.Selects after chosen) ∨
      (select state = (.value none, state) ∧ ∀ other ∈ state.processes, state.isReady other = false) := by
  rcases selectLoop_spec inside (Nat.le_refl _) with
    ⟨index, process, before, later, result, _, search⟩ | ⟨result, passed⟩
  · refine .inl ⟨selected process, _, ?_, index, process, before, later, search, rfl, rfl⟩
    simp only [select, result, search.current]
  · refine .inr ⟨by simp only [select, result], fun other member => ?_⟩
    apply passed other
    rw [List.take_of_length_le (by rw [List.length_rotate])]
    exact List.mem_rotate.mpr member

/-- The selected process is the current one. -/
theorem select_current {state after : Scheduler} (result : select state = (.value (some chosen), after)) :
    after.processes[after.currentIndex]? = some chosen := by
  rw [select] at result
  split at result
  · split at result
    · rename_i index _ process found
      rw [Prod.mk.injEq, Outcome.value.injEq, Option.some.injEq] at result
      obtain ⟨rfl, rfl⟩ := result
      exact List.getElem?_set_self (List.getElem?_eq_some_iff.mp found).1
    · cases result
  · cases result
  · cases result

theorem nextProcess_current {state after : Scheduler} {interruptStack : Option FullInterruptStackFrame}
    (result : nextProcess interruptStack state = (.value (some chosen), after)) :
    after.processes[after.currentIndex]? = some chosen := by
  rw [nextProcess, get_bind] at result
  split at result
  · cases result
  · cases interruptStack with
    | none => exact select_current result
    | some frame =>
      obtain ⟨_, between, _, selects⟩ := (bind_eq_value_iff (saveContext frame) (fun _ => select) _ _ _).mp result
      exact select_current selects

/-- The frame of user code becomes the context of the current process. -/
def saved (interruptStack : Option FullInterruptStackFrame) (state : Scheduler) : Scheduler :=
  match interruptStack with
  | none => state
  | some frame =>
    match state.processes[state.currentIndex]? with
    | some current =>
      if !current.preSchedule && kernelEnd < frame.rip then
        { state with processes := state.processes.set state.currentIndex { current with context := frame } }
      else state
    | none => state

/-- The context of the current process is replaced, or nothing changes. -/
theorem saved_cases (interruptStack : Option FullInterruptStackFrame) (state : Scheduler) :
    saved interruptStack state = state ∨
      ∃ frame process, state.processes[state.currentIndex]? = some process ∧ saved interruptStack state =
        { state with processes := state.processes.set state.currentIndex { process with context := frame } } := by
  cases interruptStack with
  | none => exact .inl rfl
  | some frame =>
    rw [saved]
    cases current : state.processes[state.currentIndex]? with
    | none => exact .inl rfl
    | some process =>
      simp only
      split
      · exact .inr ⟨frame, process, rfl, rfl⟩
      · exact .inl rfl

/-- The call saves the context of the current process and selects the next one. -/
theorem nextProcess_eq (nonempty : state.processes ≠ [])
    (small : ∀ process ∈ state.processes, process.pid + 1 < pidLimit)
    (interruptStack : Option FullInterruptStackFrame) :
    nextProcess interruptStack state = select (saved interruptStack state) := by
  rw [nextProcess, get_bind, if_neg (by simpa using nonempty)]
  cases interruptStack with
  | none => rfl
  | some frame =>
    have stored : saveContext frame state = (.value (), saved (some frame) state) := by
      rw [saveContext, get_bind, saved]
      cases current : state.processes[state.currentIndex]? with
      | none => rfl
      | some process =>
        have bound := small process (List.mem_of_getElem? current)
        simp only
        rw [if_neg (by omega)]
        split
        · rw [modifyCurrent, current]
        · rfl
    exact bind_value stored _

end Scheduler

/-- A process can wait for input, for the exit of another process and for a tick. -/
structure Waits where
  input : Bool
  awaited : Option Nat
  deadline : Option UInt64
  deriving DecidableEq

namespace Waits

/-- Nothing is awaited. -/
def idle : Waits := ⟨false, none, none⟩

/-- A delivered character ends the wait for input. -/
def delivered (waits : Waits) : Waits := { waits with input := false }

/-- Every awaited event has happened. -/
def Over (waits : Waits) (live : List Nat) (ticks : UInt64) : Prop :=
  waits.input = false ∧ (∀ pid, waits.awaited = some pid → pid ∉ live) ∧
    ∀ deadline, waits.deadline = some deadline → deadline ≤ ticks

end Waits

/-- The fields of a process record what it waits for. -/
def Process.waits (process : Process) : Waits :=
  ⟨process.blocking, process.awaitingProcess, process.sleepUntilTick⟩

namespace Scheduler

/-- A replaced process keeps its place in the list of identifiers. -/
theorem pids_set {processes : List Process} {place : Nat} {process next : Process}
    (found : processes[place]? = some process) (samePid : next.pid = process.pid) :
    (processes.set place next).map Process.pid = processes.map Process.pid := by
  apply List.ext_getElem?
  intro other
  rw [List.getElem?_map, List.getElem?_map, List.getElem?_set]
  by_cases here : place = other
  · rw [if_pos here, ← here, found, if_pos (List.getElem?_eq_some_iff.mp found).1]
    simp [samePid]
  · rw [if_neg here]

theorem delivered_pid (input : Char) (process : Process) : (delivered input process).pid = process.pid := by
  rw [delivered]
  split <;> rfl

/-- These processes are live. -/
def live (state : Scheduler) : List Nat := state.processes.map Process.pid

/-- The scheduler agrees with a record of what each process waits for. -/
structure Consistent (state : Scheduler) (waits : Nat → Waits) : Prop where
  inRange : state.processes = [] ∧ state.currentIndex = 0 ∨ state.currentIndex < state.processes.length
  distinct : state.live.Nodup
  issued : ∀ pid ∈ state.live, pid < state.pidCounter
  counter : state.pidCounter < pidLimit
  recorded : ∀ process ∈ state.processes, process.waits = waits process.pid
  single : ∀ process ∈ state.processes, process.awaitingProcess ≠ none → process.blocking = false
  fresh : ∀ pid, state.pidCounter ≤ pid → waits pid = Waits.idle

section Consistent

variable {state : Scheduler} {waits : Nat → Waits} (consistent : state.Consistent waits)

/-- The check of the scheduler is exact when a process waits for one thing only. -/
theorem isReady_iff {process : Process} (single : process.awaitingProcess ≠ none → process.blocking = false) :
    state.isReady process = true ↔ process.waits.Over state.live state.ticks := by
  rw [isReady, Waits.Over, Process.waits, live]
  cases awaiting : process.awaitingProcess with
  | none =>
    cases process.sleepUntilTick with
    | none => simp
    | some deadline =>
      simp only [Option.some.injEq, forall_eq', reduceCtorEq, false_implies, implies_true, true_and]
      by_cases early : state.ticks < deadline
      · rw [if_pos early]
        simp [UInt64.not_le.mpr early]
      · rw [if_neg early]
        simp [UInt64.not_lt.mp early]
  | some subprocess =>
    have running : process.blocking = false := single (by simp [awaiting])
    have absent : (!state.processes.any fun other => other.pid == subprocess) = true ↔
        subprocess ∉ state.processes.map Process.pid := by
      simp
    cases process.sleepUntilTick with
    | none =>
      simp only [running, Option.some.injEq, forall_eq', reduceCtorEq, false_implies, implies_true, and_true,
        true_and]
      exact absent
    | some deadline =>
      simp only [running, Option.some.injEq, forall_eq', true_and]
      by_cases early : state.ticks < deadline
      · rw [if_pos early]
        simp [UInt64.not_le.mpr early]
      · rw [if_neg early, absent]
        simp [UInt64.not_lt.mp early]

include consistent

variable {process : Process}

theorem Consistent.ready_iff (member : process ∈ state.processes) :
    state.isReady process = true ↔ (waits process.pid).Over state.live state.ticks := by
  rw [isReady_iff (consistent.single process member), consistent.recorded process member]

/-- Two places of the list never hold the same process identifier. -/
theorem Consistent.pid_ne {place other : Nat} {process second : Process} (found : state.processes[place]? = some process)
    (foundSecond : state.processes[other]? = some second) (apart : other ≠ place) : second.pid ≠ process.pid := by
  intro same
  have first : state.live[place]? = some process.pid := by rw [live, List.getElem?_map, found]; rfl
  have last : state.live[other]? = some process.pid := by rw [live, List.getElem?_map, foundSecond, ← same]; rfl
  have bound : other < state.live.length := (List.getElem?_eq_some_iff.mp last).1
  exact apart ((List.getElem?_inj bound consistent.distinct).mp (last.trans first.symm))

/-- A process is replaced by one with the same identifier and its own waits. -/
theorem Consistent.replace {place : Nat} {process next : Process} (found : state.processes[place]? = some process)
    (samePid : next.pid = process.pid) (single : next.awaitingProcess ≠ none → next.blocking = false) {index : Nat}
    (inside : index < state.processes.length) :
    Consistent { state with processes := state.processes.set place next, currentIndex := index }
      (Function.update waits process.pid next.waits) := by
  have sameLive := pids_set found samePid
  have memberPlace {item : Process} (member : item ∈ state.processes.set place next) :
      item = next ∨ ∃ other, other ≠ place ∧ state.processes[other]? = some item := by
    obtain ⟨other, held⟩ := List.mem_iff_getElem?.mp member
    rw [List.getElem?_set] at held
    by_cases here : place = other
    · rw [if_pos here, if_pos (here ▸ (List.getElem?_eq_some_iff.mp found).1)] at held
      exact .inl (Option.some.inj held).symm
    · rw [if_neg here] at held
      exact .inr ⟨other, Ne.symm here, held⟩
  refine ⟨.inr ?_, ?_, ?_, consistent.counter, ?_, ?_, ?_⟩
  · rw [List.length_set]
    exact inside
  · rw [live, sameLive]
    exact consistent.distinct
  · rw [live, sameLive]
    exact consistent.issued
  · intro item member
    rcases memberPlace member with rfl | ⟨other, apart, held⟩
    · rw [samePid, Function.update_self]
    · rw [Function.update_of_ne (consistent.pid_ne found held apart)]
      exact consistent.recorded item (List.mem_of_getElem? held)
  · intro item member
    rcases memberPlace member with rfl | ⟨other, apart, held⟩
    · exact single
    · exact consistent.single item (List.mem_of_getElem? held)
  · intro pid late
    have old : process.pid < state.pidCounter :=
      consistent.issued _ (List.mem_map_of_mem (List.mem_of_getElem? found))
    rw [Function.update_of_ne (by have bound : state.pidCounter ≤ pid := late; omega)]
    exact consistent.fresh pid late

/-- The current process starts to wait. -/
theorem Consistent.modifyCurrent (current : state.processes[state.currentIndex]? = some process)
    {change : Process → Process} (samePid : (change process).pid = process.pid)
    (single : (change process).awaitingProcess ≠ none → (change process).blocking = false) :
    ∃ after, Scheduler.modifyCurrent change state = (.value (), after) ∧
      after = { state with processes := state.processes.set state.currentIndex (change process) } ∧
        after.Consistent (Function.update waits process.pid (change process).waits) := by
  refine ⟨_, by rw [Scheduler.modifyCurrent, current], rfl, ?_⟩
  exact consistent.replace current samePid single (List.getElem?_eq_some_iff.mp current).1

/-- Saving a context changes no waits. -/
theorem Consistent.saved (interruptStack : Option FullInterruptStackFrame) :
    (Scheduler.saved interruptStack state).Consistent waits ∧
      (Scheduler.saved interruptStack state).live = state.live ∧
      (Scheduler.saved interruptStack state).ticks = state.ticks ∧
      (Scheduler.saved interruptStack state).currentIndex = state.currentIndex ∧
      (Scheduler.saved interruptStack state).pidCounter = state.pidCounter := by
  rcases saved_cases interruptStack state with same | ⟨frame, process, current, stored⟩
  · rw [same]
    exact ⟨consistent, rfl, rfl, rfl, rfl⟩
  · rw [stored]
    have member := List.mem_of_getElem? current
    have replaced := @Consistent.replace _ _ consistent _ _ { process with context := frame } current rfl
      (consistent.single process member) _ (List.getElem?_eq_some_iff.mp current).1
    have unchanged : Function.update waits process.pid (Process.waits { process with context := frame }) = waits :=
      Function.update_eq_self_iff.mpr (consistent.recorded process member)
    rw [unchanged] at replaced
    exact ⟨replaced, pids_set current rfl, rfl, rfl, rfl⟩

/-- The turn passes over waiting processes to the chosen one, which is the last of the next rotation. -/
structure Turn (waits : Nat → Waits) (state after : Scheduler) (chosen : Nat) (before later : List Nat) : Prop where
  order : state.live.rotate (state.currentIndex + 1) = before ++ chosen :: later
  passed : ∀ pid ∈ before, ¬ (waits pid).Over state.live state.ticks
  ready : (waits chosen).Over state.live state.ticks
  rotated : after.live.rotate (after.currentIndex + 1) = later ++ before ++ [chosen]
  live : after.live = state.live
  counter : after.pidCounter = state.pidCounter

omit consistent in
theorem Turn.member {after : Scheduler} {chosen : Nat} {before later : List Nat}
    (turn : Turn waits state after chosen before later) : chosen ∈ state.live := by
  rw [← List.mem_rotate, turn.order]
  exact List.mem_append_right _ List.mem_cons_self

/-- The selected process has nothing left to wait for. -/
theorem Consistent.selects {after : Scheduler} {chosen : Process} (selects : state.Selects after chosen) :
    after.Consistent (Function.update waits chosen.pid Waits.idle) ∧
      after.processes[after.currentIndex]? = some chosen ∧ chosen.waits = Waits.idle ∧
        ∃ before later, Turn waits state after chosen.pid before later := by
  obtain ⟨index, process, before, later, search, rfl, rfl⟩ := selects
  have member := List.mem_of_getElem? search.current
  have ended := (isReady_iff (consistent.single process member)).mp search.ready
  have idle : (selected process).waits = Waits.idle := by
    rw [Process.waits, selected, Waits.idle, Waits.mk.injEq]
    exact ⟨ended.1, rfl, rfl⟩
  have inside := (List.getElem?_eq_some_iff.mp search.current).1
  have replaced := @Consistent.replace _ _ consistent _ _ (selected process) search.current rfl (by simp [selected]) _
    inside
  rw [idle] at replaced
  have same : (state.processes.set index (selected process)).map Process.pid = state.live :=
    pids_set search.current rfl
  refine ⟨replaced, List.getElem?_set_self inside, idle, before.map Process.pid, later.map Process.pid, ?_, ?_, ?_, ?_,
    same, rfl⟩
  · rw [live, ← List.map_rotate, search.order, List.map_append, List.map_cons]
    rfl
  · intro pid passed
    obtain ⟨other, inBefore, rfl⟩ := List.mem_map.mp passed
    have inList : other ∈ state.processes := by
      rw [← List.mem_rotate, search.order]
      exact List.mem_append_left _ inBefore
    exact (consistent.ready_iff inList).not.mp (by simp [search.passed other inBefore])
  · exact (consistent.ready_iff member).mp search.ready
  · change ((state.processes.set index (selected process)).map Process.pid).rotate (index + 1) = _
    rw [same, live, ← List.map_rotate, search.rotated, List.map_append, List.map_append, List.map_cons, List.map_nil]
    rfl

/-- Every outcome of the call is explained by the record. -/
theorem Consistent.nextProcess (interruptStack : Option FullInterruptStackFrame) :
    (∃ chosen after before later, Scheduler.nextProcess interruptStack state = (.value (some chosen), after) ∧
      (Scheduler.saved interruptStack state).Selects after chosen ∧ Turn waits state after chosen.pid before later ∧
      after.Consistent (Function.update waits chosen.pid Waits.idle) ∧
      after.processes[after.currentIndex]? = some chosen ∧ chosen.waits = Waits.idle) ∨
    (∃ after, Scheduler.nextProcess interruptStack state = (.value none, after) ∧
      after = Scheduler.saved interruptStack state ∧ after.Consistent waits ∧
      after.live = state.live ∧ after.currentIndex = state.currentIndex ∧ after.pidCounter = state.pidCounter ∧
      ∀ pid ∈ state.live, ¬ (waits pid).Over state.live state.ticks) := by
  rcases consistent.inRange with ⟨empty, _⟩ | inside
  · have same : Scheduler.saved interruptStack state = state := by
      rcases saved_cases interruptStack state with same | ⟨frame, process, current, _⟩
      · exact same
      · rw [empty] at current
        cases current
    refine .inr ⟨state, ?_, same.symm, consistent, rfl, rfl, rfl, by simp [live, empty]⟩
    rw [Scheduler.nextProcess, get_bind, if_pos (by rw [empty]; rfl)]
    rfl
  have nonempty : state.processes ≠ [] := List.ne_nil_of_length_pos (by omega)
  have small : ∀ process ∈ state.processes, process.pid + 1 < pidLimit := by
    intro process member
    have low := consistent.issued _ (List.mem_map_of_mem member)
    have high := consistent.counter
    omega
  obtain ⟨kept, sameLive, sameTicks, sameIndex, sameCounter⟩ := consistent.saved interruptStack
  have keptInside : (Scheduler.saved interruptStack state).currentIndex <
      (Scheduler.saved interruptStack state).processes.length := by
    have sameLength := congrArg List.length sameLive
    rw [live, live, List.length_map, List.length_map] at sameLength
    omega
  rw [nextProcess_eq nonempty small]
  rcases select_spec keptInside with ⟨chosen, after, result, selects⟩ | ⟨result, passed⟩
  · obtain ⟨next, current, idle, before, later, turn⟩ := kept.selects selects
    refine .inl ⟨chosen, after, before, later, result, selects, ?_, next, current, idle⟩
    obtain ⟨order, waiting, ready, rotated, lives, counter⟩ := turn
    rw [sameLive, sameTicks] at waiting ready
    rw [sameLive, sameIndex] at order
    exact ⟨order, waiting, ready, rotated, lives.trans sameLive, counter.trans sameCounter⟩
  · refine .inr ⟨_, result, rfl, kept, sameLive, sameIndex, sameCounter, fun pid member => ?_⟩
    rw [← sameLive] at member
    obtain ⟨process, inList, rfl⟩ := List.mem_map.mp member
    have waiting := (kept.ready_iff inList).not.mp (by simp [passed process inList])
    rw [sameLive, sameTicks] at waiting
    exact waiting

/-- Input reaches every process that waits for it. -/
theorem Consistent.processInput (input : Char) :
    ∃ after, Scheduler.processInput input state = (.value (), after) ∧
      after = { state with processes := state.processes.map (Scheduler.delivered input) } ∧
      after.Consistent fun pid => (waits pid).delivered := by
  refine ⟨_, rfl, rfl, ?_⟩
  have samePid := delivered_pid input
  have sameLive : (state.processes.map (Scheduler.delivered input)).map Process.pid = state.processes.map Process.pid := by
    rw [List.map_map]
    exact List.map_congr_left fun process _ => samePid process
  have fields (process : Process) : (Scheduler.delivered input process).waits = process.waits.delivered := by
    rw [Scheduler.delivered]
    split
    · rfl
    · rename_i running
      simp only [Process.waits, Waits.delivered, Waits.mk.injEq, and_self, and_true]
      simpa using running
  refine ⟨?_, ?_, ?_, consistent.counter, ?_, ?_, ?_⟩
  · rcases consistent.inRange with ⟨empty, index⟩ | inside
    · exact .inl ⟨by rw [empty]; rfl, index⟩
    · exact .inr (by rw [List.length_map]; exact inside)
  · rw [live, sameLive]
    exact consistent.distinct
  · rw [live, sameLive]
    exact consistent.issued
  · intro process member
    obtain ⟨old, inList, rfl⟩ := List.mem_map.mp member
    rw [fields, samePid, consistent.recorded old inList]
  · intro process member _
    obtain ⟨old, inList, rfl⟩ := List.mem_map.mp member
    have ended := congrArg Waits.input (fields old)
    exact ended
  · intro pid late
    rw [consistent.fresh pid late]
    rfl

omit consistent in
theorem fromEntry_eq_some {entry : ProcessEntry} {pid : Nat} (created : Process.fromEntry entry pid = some process) :
    process.pid = pid ∧ process.waits = Waits.idle ∧
      process.context = { FullInterruptStackFrame.empty with rip := entry.entry, rsp := entry.initialRsp } := by
  rw [Process.fromEntry] at created
  split at created
  · cases created
  split at created
  · cases created
  rw [← Option.some.inj created]
  exact ⟨rfl, rfl, rfl⟩

/-- A process with a new identifier joins the list. -/
theorem Consistent.push (fresh : process.pid = state.pidCounter) (idle : process.waits = Waits.idle)
    (room : state.pidCounter + 1 < pidLimit) :
    Consistent { state with processes := state.processes ++ [process], pidCounter := state.pidCounter + 1 } waits := by
  have lives : (state.processes ++ [process]).map Process.pid = state.live ++ [state.pidCounter] := by
    rw [List.map_append, List.map_cons, List.map_nil, fresh]
    rfl
  refine ⟨.inr ?_, ?_, ?_, room, ?_, ?_, ?_⟩
  · rw [List.length_append, List.length_singleton]
    rcases consistent.inRange with ⟨empty, index⟩ | inside
    · simp only [index]
      omega
    · exact Nat.lt_succ_of_lt inside
  · rw [live, lives, List.nodup_append]
    refine ⟨consistent.distinct, List.nodup_singleton _, fun pid member other last => ?_⟩
    rw [List.mem_singleton.mp last]
    exact Nat.ne_of_lt (consistent.issued pid member)
  · rw [live, lives]
    intro pid member
    rcases List.mem_append.mp member with old | last
    · exact Nat.lt_succ_of_lt (consistent.issued pid old)
    · rw [List.mem_singleton.mp last]
      exact Nat.lt_succ_self _
  · intro item member
    rcases List.mem_append.mp member with old | last
    · exact consistent.recorded item old
    · rw [List.mem_singleton.mp last, idle, fresh, consistent.fresh _ (Nat.le_refl _)]
  · intro item member
    rcases List.mem_append.mp member with old | last
    · exact consistent.single item old
    · rw [List.mem_singleton.mp last]
      intro _
      exact congrArg Waits.input idle
  · intro pid late
    exact consistent.fresh pid (Nat.le_of_succ_le late)

/-- A new process starts at the entry of its program. -/
def initialContext (entry : ProcessEntry) : FullInterruptStackFrame :=
  { FullInterruptStackFrame.empty with
    rip := entry.entry, rsp := entry.initialRsp, cs := userCode, ss := userData, rflags := 0x202 }

/-- The list after a deployment is the old one or has a new process at its end. -/
structure Deployed (entry : ProcessEntry) (before after : Scheduler) : Prop where
  index : after.currentIndex = before.currentIndex
  ticks : after.ticks = before.ticks
  counter : before.pidCounter ≤ after.pidCounter
  processes : after.processes = before.processes ∨
    ∃ process, process.pid = before.pidCounter ∧ before.pidCounter < after.pidCounter ∧
      process.context = initialContext entry ∧ process.blocking = false ∧
        after.processes = before.processes ++ [process]

/-- A deployed process gets an identifier that was never used. -/
theorem Consistent.deploy (entry : ProcessEntry) (forkCurrent : Bool) :
    (Scheduler.deploy entry forkCurrent state).2.Consistent waits ∧
      Deployed entry state (Scheduler.deploy entry forkCurrent state).2 := by
  rw [Scheduler.deploy, get_bind]
  by_cases full : state.pidCounter + 1 ≥ pidLimit
  · rw [if_pos full]
    exact ⟨consistent, rfl, rfl, Nat.le_refl _, .inl rfl⟩
  rw [if_neg full, put_bind]
  have counted : Consistent { state with pidCounter := state.pidCounter + 1 } waits := {
    consistent with
    issued pid member := Nat.lt_succ_of_lt (consistent.issued pid member)
    counter := by simpa using full
    fresh pid late := consistent.fresh pid (Nat.le_of_succ_le late) }
  by_cases lost : forkCurrent ∧ state.processes.length ≠ 0 ∧ state.currentIndex ≥ state.processes.length
  · rw [if_pos lost]
    exact ⟨counted, rfl, rfl, Nat.le_succ _, .inl rfl⟩
  rw [if_neg lost]
  cases created : Process.fromEntry entry state.pidCounter with
  | none => exact ⟨counted, rfl, rfl, Nat.le_succ _, .inl rfl⟩
  | some process =>
    obtain ⟨samePid, idle, context⟩ := fromEntry_eq_some created
    let ready : Process := { process with
      context := { process.context with cs := userCode, ss := userData, rflags := 0x202 } }
    have pushed := @Consistent.push _ _ consistent ready samePid idle (by simpa using full)
    refine ⟨pushed, rfl, rfl, Nat.le_succ _, .inr ⟨ready, samePid, Nat.lt_succ_self _, ?_, congrArg Waits.input idle, rfl⟩⟩
    change { process.context with cs := userCode, ss := userData, rflags := 0x202 } = initialContext entry
    rw [context]
    rfl

/-- The current process leaves the list. -/
theorem Consistent.exitCurrent (current : state.processes[state.currentIndex]? = some process) :
    ∃ after, Scheduler.exitCurrent state = (.value (), after) ∧ after.Consistent waits ∧
      after = { state with
        processes := state.processes.eraseIdx state.currentIndex
        currentIndex := if state.currentIndex ≠ 0 then state.currentIndex - 1 else 0 } := by
  have inside := (List.getElem?_eq_some_iff.mp current).1
  have shorter := List.length_eraseIdx_of_lt inside
  have sublist := List.eraseIdx_sublist state.processes state.currentIndex
  refine ⟨_, by rw [Scheduler.exitCurrent, get_bind, if_neg (by omega), if_neg (by omega)]; rfl, ?_, rfl⟩
  refine ⟨?_, ?_, ?_, consistent.counter, ?_, ?_, consistent.fresh⟩
  · by_cases last : (state.processes.eraseIdx state.currentIndex) = []
    · left
      refine ⟨last, ?_⟩
      rw [last, List.length_nil] at shorter
      simp only
      split <;> omega
    · right
      have remaining := List.length_pos_of_ne_nil last
      simp only
      split <;> omega
  · exact consistent.distinct.sublist (sublist.map _)
  · intro pid member
    exact consistent.issued pid ((sublist.map _).subset member)
  · intro item member
    exact consistent.recorded item (sublist.subset member)
  · intro item member
    exact consistent.single item (sublist.subset member)

end Consistent

end Scheduler

/-- These are the calls of the scheduler and the ticks of the timer. -/
inductive Event where
  | deploy (entry : ProcessEntry) (forkCurrent : Bool)
  | blockCurrent
  | sleepCurrentUntil (deadlineTick : UInt64)
  | currentWaitForProcess (subprocess : Nat)
  | exitCurrent
  | processInput (input : Char)
  | tick
  | nextProcess (interruptStack : Option FullInterruptStackFrame)

/-- The run records which process is running, whether it must yield now and what each process waits for. -/
structure Tracked where
  scheduler : Scheduler
  running : Option Nat
  yielding : Bool
  waits : Nat → Waits

namespace Tracked

/-- Nothing runs before the first deployment. -/
def boot : Tracked := ⟨⟨[], 0, 0, 0⟩, none, false, fun _ => Waits.idle⟩

/-- This process is live and nothing that it waits for is outstanding. -/
def Ready (tracked : Tracked) (pid : Nat) : Prop :=
  pid ∈ tracked.scheduler.live ∧ (tracked.waits pid).Over tracked.scheduler.live tracked.scheduler.ticks

/-- The running process waits and must yield. -/
def await (tracked : Tracked) (after : Scheduler) (wait : Waits → Waits) : Tracked :=
  { tracked with
    scheduler := after
    yielding := true
    waits := match tracked.running with
      | some pid => Function.update tracked.waits pid (wait (tracked.waits pid))
      | none => tracked.waits }

end Tracked

namespace Event

open Scheduler Scheduling.Tracked

/-- A selected process runs and does not wait. -/
def step : Event → Tracked → Tracked
  | .deploy entry forkCurrent, tracked =>
    { tracked with scheduler := (Scheduler.deploy entry forkCurrent tracked.scheduler).2 }
  | .blockCurrent, tracked =>
    tracked.await (Scheduler.blockCurrent tracked.scheduler).2 fun waits => { waits with input := true }
  | .sleepCurrentUntil deadline, tracked =>
    tracked.await (Scheduler.sleepCurrentUntil deadline tracked.scheduler).2
      fun waits => { waits with deadline := some deadline }
  | .currentWaitForProcess subprocess, tracked =>
    tracked.await (Scheduler.currentWaitForProcess subprocess tracked.scheduler).2
      fun waits => { waits with awaited := some subprocess }
  | .exitCurrent, tracked =>
    { tracked with scheduler := (Scheduler.exitCurrent tracked.scheduler).2, running := none, yielding := true }
  | .processInput input, tracked =>
    { tracked with
      scheduler := (Scheduler.processInput input tracked.scheduler).2
      waits := fun pid => (tracked.waits pid).delivered }
  | .tick, tracked => { tracked with scheduler := (Scheduler.tick tracked.scheduler).2 }
  | .nextProcess interruptStack, tracked =>
    match Scheduler.nextProcess interruptStack tracked.scheduler with
    | (.value (some chosen), after) =>
      ⟨after, some chosen.pid, false, Function.update tracked.waits chosen.pid Waits.idle⟩
    | (_, after) => ⟨after, none, false, tracked.waits⟩

/-- This process is selected by the event. -/
def selects : Event → Tracked → Option Nat
  | .nextProcess interruptStack, tracked => (step (.nextProcess interruptStack) tracked).running
  | _, _ => none

/-- Only a running process waits or exits, and it yields before anything else happens. -/
def Allowed : Event → Tracked → Prop
  | .nextProcess _, _ => True
  | .deploy _ _, tracked => tracked.yielding = false
  | .processInput _, tracked => tracked.yielding = false
  | .tick, tracked => tracked.yielding = false
  | _, tracked => tracked.yielding = false ∧ tracked.running ≠ none

end Event

namespace Tracked

/-- The record is right, and the running process is the current one. -/
structure Sound (tracked : Tracked) : Prop where
  consistent : tracked.scheduler.Consistent tracked.waits
  current : ∀ pid, tracked.running = some pid →
    ∃ process, tracked.scheduler.processes[tracked.scheduler.currentIndex]? = some process ∧ process.pid = pid ∧
      (tracked.yielding = false → process.waits = Waits.idle)

theorem sound_boot : boot.Sound where
  consistent := ⟨.inl ⟨rfl, rfl⟩, List.nodup_nil, by simp [boot, Scheduler.live], by decide, by simp [boot],
    by simp [boot], fun _ _ => rfl⟩
  current pid running := by cases running

/-- An event keeps the list, adds a new process, removes the current one or passes the turn. -/
inductive Move (event : Event) (before after : Tracked) : Prop where
  | stays (quiet : event.selects before = none) (live : after.scheduler.live = before.scheduler.live)
      (index : after.scheduler.currentIndex = before.scheduler.currentIndex)
      (counter : before.scheduler.pidCounter ≤ after.scheduler.pidCounter)
  | joins (quiet : event.selects before = none) (live : after.scheduler.live = before.scheduler.live ++ [before.scheduler.pidCounter])
      (index : after.scheduler.currentIndex = before.scheduler.currentIndex)
      (counter : before.scheduler.pidCounter < after.scheduler.pidCounter)
  | leaves (exits : event = .exitCurrent) (inside : before.scheduler.currentIndex < before.scheduler.live.length)
      (live : after.scheduler.live = before.scheduler.live.eraseIdx before.scheduler.currentIndex)
      (index : after.scheduler.currentIndex =
        if before.scheduler.currentIndex ≠ 0 then before.scheduler.currentIndex - 1 else 0)
      (counter : after.scheduler.pidCounter = before.scheduler.pidCounter)
  | turns (chosen : Nat) (front back : List Nat) (selects : event.selects before = some chosen)
      (turn : Scheduler.Turn before.waits before.scheduler after.scheduler chosen front back)

section Sound

variable {tracked : Tracked} (sound : tracked.Sound)

include sound

/-- A call that makes the running process wait keeps the record right. -/
theorem Sound.await (free : tracked.yielding = false) (some : tracked.running ≠ none) (call : SchedM Unit)
    (change : Process → Process) (wait : Waits → Waits)
    (calls : tracked.scheduler.currentIndex < tracked.scheduler.processes.length →
      call tracked.scheduler = Scheduler.modifyCurrent change tracked.scheduler)
    (samePid : ∀ process, (change process).pid = process.pid)
    (waits : ∀ process, (change process).waits = wait process.waits)
    (single : (wait Waits.idle).awaited ≠ none → (wait Waits.idle).input = false) :
    (tracked.await (call tracked.scheduler).2 wait).Sound ∧
      ∀ event, event.selects tracked = none → Move event tracked (tracked.await (call tracked.scheduler).2 wait) := by
  obtain ⟨pid, running⟩ := Option.ne_none_iff_exists'.mp some
  obtain ⟨process, current, rfl, idle⟩ := sound.current pid running
  have inside := (List.getElem?_eq_some_iff.mp current).1
  have nothing := idle free
  have alone : (change process).awaitingProcess ≠ none → (change process).blocking = false := by
    have fields := waits process
    rw [nothing] at fields
    rw [← fields] at single
    exact single
  obtain ⟨after, result, rfl, consistent⟩ := sound.consistent.modifyCurrent current (samePid process) alone
  have recorded := sound.consistent.recorded process (List.mem_of_getElem? current)
  rw [waits, recorded] at consistent
  rw [calls inside, result]
  refine ⟨⟨?_, fun other same => ?_⟩, fun event quiet => ?_⟩
  · unfold Tracked.await
    rw [running]
    exact consistent
  · obtain rfl : process.pid = other := Option.some.inj (running.symm.trans same)
    refine ⟨change process, ?_, samePid process, fun never => by cases never⟩
    exact List.getElem?_set_self inside
  · exact .stays quiet (Scheduler.pids_set current (samePid process)) rfl (Nat.le_refl _)

/-- Every allowed event keeps the record right and makes one of the moves. -/
theorem Sound.step {event : Event} (allowed : event.Allowed tracked) :
    (event.step tracked).Sound ∧ Move event tracked (event.step tracked) := by
  cases event with
  | deploy entry forkCurrent =>
    obtain ⟨consistent, deployed⟩ := sound.consistent.deploy entry forkCurrent
    refine ⟨⟨consistent, fun pid running => ?_⟩, ?_⟩
    · obtain ⟨process, current, samePid, idle⟩ := sound.current pid running
      refine ⟨process, ?_, samePid, idle⟩
      change (Scheduler.deploy entry forkCurrent tracked.scheduler).2.processes[
        (Scheduler.deploy entry forkCurrent tracked.scheduler).2.currentIndex]? = some process
      rw [deployed.index]
      rcases deployed.processes with same | ⟨added, _, _, _, _, same⟩
      · rw [same]
        exact current
      · rw [same, List.getElem?_append_left (List.getElem?_eq_some_iff.mp current).1]
        exact current
    · rcases deployed.processes with same | ⟨added, fresh, more, _, _, same⟩
      · exact .stays rfl (congrArg (List.map Process.pid) same) deployed.index deployed.counter
      · have lives := congrArg (List.map Process.pid) same
        rw [List.map_append, List.map_cons, List.map_nil, fresh] at lives
        exact .joins rfl lives deployed.index more
  | blockCurrent =>
    refine (sound.await allowed.1 allowed.2 Scheduler.blockCurrent (fun current => { current with blocking := true })
      (fun waits => { waits with input := true }) ?_ ?_ ?_ ?_).imp_right fun moves => moves _ rfl
    · intro inside
      rw [Scheduler.blockCurrent, get_bind, if_neg (by omega)]
    · exact fun _ => rfl
    · exact fun _ => rfl
    · exact fun awaited => absurd rfl awaited
  | sleepCurrentUntil deadline =>
    refine (sound.await allowed.1 allowed.2 (Scheduler.sleepCurrentUntil deadline)
      (fun current => { current with sleepUntilTick := some deadline })
      (fun waits => { waits with deadline := some deadline }) ?_ ?_ ?_ ?_).imp_right fun moves => moves _ rfl
    · intro inside
      rw [Scheduler.sleepCurrentUntil, get_bind, if_neg (by omega)]
    · exact fun _ => rfl
    · exact fun _ => rfl
    · exact fun awaited => absurd rfl awaited
  | currentWaitForProcess subprocess =>
    refine (sound.await allowed.1 allowed.2 (Scheduler.currentWaitForProcess subprocess)
      (fun current => { current with awaitingProcess := some subprocess })
      (fun waits => { waits with awaited := some subprocess }) ?_ ?_ ?_ ?_).imp_right fun moves => moves _ rfl
    · intro inside
      rw [Scheduler.currentWaitForProcess, get_bind, if_neg (by omega), if_neg (by omega)]
    · exact fun _ => rfl
    · exact fun _ => rfl
    · exact fun _ => rfl
  | exitCurrent =>
    obtain ⟨pid, running⟩ := Option.ne_none_iff_exists'.mp allowed.2
    obtain ⟨process, current, _⟩ := sound.current pid running
    obtain ⟨after, result, consistent, same⟩ := sound.consistent.exitCurrent current
    have inside := (List.getElem?_eq_some_iff.mp current).1
    have next : (Event.exitCurrent.step tracked).scheduler = after := congrArg Prod.snd result
    refine ⟨⟨?_, fun other never => by cases never⟩, .leaves rfl ?_ ?_ ?_ ?_⟩
    · rw [next]
      exact consistent
    · rw [Scheduler.live, List.length_map]
      exact inside
    · rw [next, same, Scheduler.live, Scheduler.live, List.eraseIdx_map]
    · rw [next, same]
    · rw [next, same]
  | processInput input =>
    obtain ⟨after, result, same, consistent⟩ := sound.consistent.processInput input
    refine ⟨⟨?_, fun pid running => ?_⟩, .stays rfl ?_ rfl (Nat.le_refl _)⟩
    · change (Scheduler.processInput input tracked.scheduler).2.Consistent _
      rw [result]
      exact consistent
    · obtain ⟨process, current, samePid, idle⟩ := sound.current pid running
      refine ⟨Scheduler.delivered input process, ?_, ?_, fun free => ?_⟩
      · change (tracked.scheduler.processes.map _)[tracked.scheduler.currentIndex]? = _
        rw [List.getElem?_map, current]
        rfl
      · rw [Scheduler.delivered_pid, samePid]
      · have waits := idle free
        have awake : process.blocking = false := congrArg Waits.input waits
        rw [Scheduler.delivered, if_neg (by simp [awake])]
        exact waits
    · change (tracked.scheduler.processes.map (Scheduler.delivered input)).map Process.pid = _
      rw [List.map_map]
      exact List.map_congr_left fun process _ => Scheduler.delivered_pid input process
  | tick =>
    exact ⟨⟨{ sound.consistent with }, sound.current⟩, .stays rfl rfl rfl (Nat.le_refl _)⟩
  | nextProcess interruptStack =>
    rcases sound.consistent.nextProcess interruptStack with
      ⟨chosen, after, front, back, result, _, turn, consistent, current, idle⟩ |
      ⟨after, result, _, consistent, live, index, counter, _⟩
    · have next : (Event.nextProcess interruptStack).step tracked =
          ⟨after, some chosen.pid, false, Function.update tracked.waits chosen.pid Waits.idle⟩ := by
        rw [Event.step, result]
      refine ⟨?_, .turns chosen.pid front back ?_ ?_⟩
      · rw [next]
        refine ⟨consistent, fun pid running => ?_⟩
        exact ⟨chosen, current, Option.some.inj running, fun _ => idle⟩
      · rw [Event.selects, next]
      · rw [next]
        exact turn
    · have next : (Event.nextProcess interruptStack).step tracked = ⟨after, none, false, tracked.waits⟩ := by
        rw [Event.step, result]
      have quiet : (Event.nextProcess interruptStack).selects tracked = none := by rw [Event.selects, next]
      rw [next]
      exact ⟨⟨consistent, fun pid never => by cases never⟩, .stays quiet live index (Nat.le_of_eq counter.symm)⟩

omit sound

variable {event : Event} {after : Tracked} (move : Move event tracked after)

include move

/-- A selected process has the turn. -/
theorem Move.turn {pid : Nat} (selects : event.selects tracked = some pid) :
    ∃ front back, Scheduler.Turn tracked.waits tracked.scheduler after.scheduler pid front back := by
  cases move with
  | stays quiet | joins quiet => rw [quiet] at selects; contradiction
  | leaves exits => rw [exits] at selects; contradiction
  | turns chosen front back selected turn =>
    obtain rfl : chosen = pid := Option.some.inj (selected.symm.trans selects)
    exact ⟨front, back, turn⟩

/-- No event brings an old identifier back. -/
theorem Move.live :
    tracked.scheduler.pidCounter ≤ after.scheduler.pidCounter ∧
      ∀ pid < tracked.scheduler.pidCounter, pid ∈ after.scheduler.live → pid ∈ tracked.scheduler.live := by
  cases move with
  | stays quiet live index counter =>
    rw [live]
    exact ⟨counter, fun _ _ member => member⟩
  | joins quiet live index counter =>
    rw [live]
    refine ⟨Nat.le_of_lt counter, fun pid old member => ?_⟩
    rcases List.mem_append.mp member with inside | last
    · exact inside
    · rw [List.mem_singleton.mp last] at old
      exact absurd old (Nat.lt_irrefl _)
  | leaves exits inside live index counter =>
    rw [live, counter]
    exact ⟨Nat.le_refl _, fun _ _ member => List.mem_of_mem_eraseIdx member⟩
  | turns chosen front back selects turn =>
    rw [turn.live, turn.counter]
    exact ⟨Nat.le_refl _, fun _ _ member => member⟩

end Sound

section Run

variable {tracked : Tracked} {start : Tracked}

theorem Sound.reached (sound : start.Sound) (reached : Reached Event.step Event.Allowed start tracked) :
    tracked.Sound := reached.invariant sound fun _ _ kept allowed => (kept.step allowed).1

/-- An old identifier of a later state was live all the time. -/
theorem Sound.live_reached (sound : start.Sound) (reached : Reached Event.step Event.Allowed start tracked) :
    start.scheduler.pidCounter ≤ tracked.scheduler.pidCounter ∧
      ∀ pid < start.scheduler.pidCounter, pid ∈ tracked.scheduler.live → pid ∈ start.scheduler.live := by
  induction reached with
  | start => exact ⟨Nat.le_refl _, fun _ _ member => member⟩
  | step earlier event allowed ih =>
    have moved := ((sound.reached earlier).step allowed).2.live
    refine ⟨Nat.le_trans ih.1 moved.1, fun pid old member => ?_⟩
    exact ih.2 pid old (moved.2 pid (Nat.lt_of_lt_of_le old ih.1) member)

/-- In every run the index is in range, identifiers are distinct and never return, and a process is selected exactly
when one is ready. -/
theorem scheduler_safe (reached : Reached Event.step Event.Allowed boot tracked) :
    (tracked.scheduler.processes = [] ∨ tracked.scheduler.currentIndex < tracked.scheduler.processes.length) ∧
      (Scheduler.blockCurrent tracked.scheduler).1 = .value () ∧
      (∀ deadline, (Scheduler.sleepCurrentUntil deadline tracked.scheduler).1 = .value ()) ∧
      tracked.scheduler.live.Nodup ∧
      (∀ middle later, Reached Event.step Event.Allowed tracked middle → Reached Event.step Event.Allowed middle later →
        ∀ pid ∈ tracked.scheduler.live, pid ∉ middle.scheduler.live → pid ∉ later.scheduler.live) ∧
      ∀ interruptStack, ∃ result, (Scheduler.nextProcess interruptStack tracked.scheduler).1 = .value result ∧
        (∀ chosen, result = some chosen → tracked.Ready chosen.pid) ∧
          (result = none ↔ ∀ pid, ¬ tracked.Ready pid) := by
  have sound := sound_boot.reached reached
  have indexed : tracked.scheduler.processes = [] ∨
      tracked.scheduler.currentIndex < tracked.scheduler.processes.length := sound.consistent.inRange.imp And.left id
  have modifies {change : Process → Process} (some : ¬ tracked.scheduler.processes.length = 0) :
      (Scheduler.modifyCurrent change tracked.scheduler).1 = .value () := by
    have inside := indexed.resolve_left fun empty => some (by rw [empty]; rfl)
    rw [Scheduler.modifyCurrent, List.getElem?_eq_getElem inside]
  refine ⟨indexed, ?_, fun deadline => ?_, sound.consistent.distinct, ?_, fun interruptStack => ?_⟩
  · rw [Scheduler.blockCurrent, get_bind]
    split
    · rfl
    · exact modifies ‹_›
  · rw [Scheduler.sleepCurrentUntil, get_bind]
    split
    · rfl
    · exact modifies ‹_›
  · intro middle later toMiddle toLater pid was gone returned
    have old := Nat.lt_of_lt_of_le (sound.consistent.issued pid was) (sound.live_reached toMiddle).1
    exact gone (((sound.reached toMiddle).live_reached toLater).2 pid old returned)
  · rcases sound.consistent.nextProcess interruptStack with
      ⟨chosen, after, front, back, result, _, turn, _⟩ | ⟨after, result, _, _, _, _, _, waiting⟩
    · have ready : tracked.Ready chosen.pid := ⟨turn.member, turn.ready⟩
      rw [result]
      refine ⟨some chosen, rfl, fun other same => ?_, ?_⟩
      · rw [← Option.some.inj same]
        exact ready
      · exact ⟨fun never => (by cases never), fun nobody => absurd ready (nobody chosen.pid)⟩
    · rw [result]
      refine ⟨none, rfl, fun other never => (by cases never), ?_⟩
      exact ⟨fun _ pid ready => waiting pid ready.1 ready.2, fun _ => rfl⟩

end Run

/-- The first program has a stack and a table. -/
def firstEntry : ProcessEntry := ⟨0x700040000000, 0x401000000, some ⟨0x401000000, 0x400FE0000⟩, some ⟨0x6BCF00005000⟩⟩

/-- One process is deployed. -/
def oneProcess : Tracked := (Event.deploy firstEntry false).step boot

/-- The first process is ready and is selected. -/
theorem scheduler_safe_one_process :
    Reached Event.step Event.Allowed boot oneProcess ∧ oneProcess.scheduler.live = [0] ∧ oneProcess.Ready 0 ∧
      ∃ chosen, (Scheduler.nextProcess none oneProcess.scheduler).1 = .value (some chosen) := by
  have reached : Reached Event.step Event.Allowed boot oneProcess := .step .start (Event.deploy firstEntry false) rfl
  have ready : oneProcess.Ready 0 := by
    refine ⟨by decide, rfl, ?_, ?_⟩
    · intro pid never
      cases never
    · intro deadline never
      cases never
  obtain ⟨_, _, _, _, _, selects⟩ := scheduler_safe reached
  obtain ⟨result, returned, _, nobody⟩ := selects none
  refine ⟨reached, by decide, ready, ?_⟩
  cases result with
  | none => exact absurd ready (nobody.mp rfl 0)
  | some chosen => exact ⟨chosen, returned⟩

end Tracked

end BubbleOs.Scheduling
