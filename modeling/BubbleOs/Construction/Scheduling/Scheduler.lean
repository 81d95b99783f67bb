/-
This file models the processes, the scheduler, and the interrupts that switch to the selected process.
-/

import BubbleOs.Construction.Paging.Controller
import BubbleOs.Library.Rotation

namespace BubbleOs.Scheduling

open Attempt

/-- The trampoline pushes the general registers and the processor pushes the others. -/
structure FullInterruptStackFrame where
  r8 : UInt64
  r9 : UInt64
  r10 : UInt64
  r11 : UInt64
  r12 : UInt64
  r13 : UInt64
  r14 : UInt64
  r15 : UInt64
  rbp : UInt64
  rdi : UInt64
  rsi : UInt64
  rdx : UInt64
  rcx : UInt64
  rbx : UInt64
  rax : UInt64
  rip : UInt64
  cs : UInt64
  rflags : UInt64
  rsp : UInt64
  ss : UInt64
  deriving DecidableEq

def FullInterruptStackFrame.empty : FullInterruptStackFrame :=
  ⟨0, 0, 0, 0, 0, 0, 0, 0, 0, 0, 0, 0, 0, 0, 0, 0, 0, 0, 0, 0⟩

/-- A loaded program waits for its process. -/
structure ProcessEntry where
  entry : UInt64
  initialRsp : UInt64
  stack : Option Paging.Stack
  ring3PageTable : Option Paging.PageTable

/-- A process waits for input, for another process or for a tick. -/
structure Process where
  pid : Nat
  preSchedule : Bool
  blocking : Bool
  awaitingProcess : Option Nat
  sleepUntilTick : Option UInt64
  context : FullInterruptStackFrame
  deriving DecidableEq

/-- A program without a stack or a table gives no process. -/
def Process.fromEntry (entry : ProcessEntry) (pid : Nat) : Option Process :=
  if entry.stack.isNone then none
  else if entry.ring3PageTable.isNone then none
  else some {
    pid := pid
    preSchedule := true
    blocking := false
    awaitingProcess := none
    sleepUntilTick := none
    context := { FullInterruptStackFrame.empty with rip := entry.entry, rsp := entry.initialRsp } }

/-- These are the selectors of the user segments. -/
def userCode : UInt64 := 0x2B

def userData : UInt64 := 0x33

/-- These are the global variables of the scheduler and the tick counter. -/
structure Scheduler where
  processes : List Process
  currentIndex : Nat
  pidCounter : Nat
  ticks : UInt64

abbrev SchedM := Attempt Scheduler

namespace Scheduler

def pidLimit : Nat := 18446744073709551616

/-- Kernel code does not lie above this address. -/
def kernelEnd : UInt64 := 0x1FFFFF

/-- An index outside the list panics. -/
def modifyCurrent (change : Process → Process) : SchedM Unit := fun state =>
  match state.processes[state.currentIndex]? with
  | some current => (.value (), { state with processes := state.processes.set state.currentIndex (change current) })
  | none => (.hang, state)

/-- The frame of user code is saved, and the frame of kernel code is not. -/
def saveContext (interruptStack : FullInterruptStackFrame) : SchedM Unit := do
  let state ← get
  match state.processes[state.currentIndex]? with
  | some current =>
    if current.pid + 1 ≥ pidLimit then halt
    else if !current.preSchedule && kernelEnd < interruptStack.rip then
      modifyCurrent fun current => { current with context := interruptStack }
    else pure ()
  | none => pure ()

/-- An awaited process decides alone, and a deadline in the future decides against the process. -/
def isReady (state : Scheduler) (process : Process) : Bool :=
  let ready :=
    match process.awaitingProcess with
    | some subprocess => !state.processes.any fun other => other.pid == subprocess
    | none => !process.blocking
  match process.sleepUntilTick with
  | some deadline => if state.ticks < deadline then false else ready
  | none => ready

/-- The loop makes one pass for every process. -/
def selectLoop (state : Scheduler) : Nat → Nat → Outcome (Option Nat)
  | 0, _ => .value none
  | passes + 1, index =>
    let next := cyclicNext index state.processes.length
    match state.processes[next]? with
    | none => .hang
    | some process => if state.isReady process then .value (some next) else selectLoop state passes next

/-- The selected process does not wait any longer. -/
def selected (process : Process) : Process :=
  { process with preSchedule := false, awaitingProcess := none, sleepUntilTick := none }

/-- The next ready process becomes the current one. -/
def select : SchedM (Option Process) := fun state =>
  match state.selectLoop state.processes.length state.currentIndex with
  | .value (some index) =>
    match state.processes[index]? with
    | some process =>
      (.value (some (selected process)), { state with
        processes := state.processes.set index (selected process)
        currentIndex := index })
    | none => (.hang, state)
  | .value none => (.value none, state)
  | _ => (.hang, state)

def nextProcess (interruptStack : Option FullInterruptStackFrame) : SchedM (Option Process) := do
  let state ← get
  if state.processes.length = 0 then pure none
  else
    match interruptStack with
    | some frame => saveContext frame
    | none => pure ()
    select

/-- The counter moves even when no process is added. -/
def deploy (entry : ProcessEntry) (forkCurrent : Bool) : SchedM Nat := do
  let state ← get
  let pid := state.pidCounter
  if pid + 1 ≥ pidLimit then halt
  else
    put { state with pidCounter := pid + 1 }
    if forkCurrent ∧ state.processes.length ≠ 0 ∧ state.currentIndex ≥ state.processes.length then pure 0
    else
      match Process.fromEntry entry pid with
      | none => pure 0
      | some process =>
        let ready := { process with
          context := { process.context with cs := userCode, ss := userData, rflags := 0x202 } }
        let after ← get
        put { after with processes := after.processes ++ [ready] }
        pure pid

def blockCurrent : SchedM Unit := do
  let state ← get
  if state.processes.length = 0 then pure ()
  else modifyCurrent fun current => { current with blocking := true }

def sleepCurrentUntil (deadlineTick : UInt64) : SchedM Unit := do
  let state ← get
  if state.processes.length = 0 then pure ()
  else modifyCurrent fun current => { current with sleepUntilTick := some deadlineTick }

/-- Input wakes every process that waits for it. -/
def delivered (input : Char) (process : Process) : Process :=
  if process.blocking then
    { process with context := { process.context with rax := UInt64.ofNat input.toNat }, blocking := false }
  else process

def processInput (input : Char) : SchedM Unit := do
  let state ← get
  put { state with processes := state.processes.map (delivered input) }

def currentWaitForProcess (subprocess : Nat) : SchedM Unit := do
  let state ← get
  if state.processes.length = 0 then pure ()
  else if state.currentIndex ≥ state.processes.length then pure ()
  else modifyCurrent fun current => { current with awaitingProcess := some subprocess }

def exitCurrent : SchedM Unit := do
  let state ← get
  if state.processes.length = 0 then pure ()
  else if state.currentIndex ≥ state.processes.length then pure ()
  else put { state with
    processes := state.processes.eraseIdx state.currentIndex
    currentIndex := if state.currentIndex ≠ 0 then state.currentIndex - 1 else 0 }

/-- The tick counter wraps around. -/
def tick : SchedM Unit := do
  let state ← get
  put { state with ticks := state.ticks + 1 }

end Scheduler

open Scheduler

/-- User code runs, a trampoline returns with interrupts enabled, the scheduler idles or the kernel has stopped. -/
inductive Cpu where
  | user (frame : FullInterruptStackFrame)
  | returning (frame : FullInterruptStackFrame)
  | idle
  | halted
  deriving DecidableEq

structure Machine where
  scheduler : Scheduler
  cpu : Cpu

/-- A table that cannot be loaded leaves the kernel in an idle loop. -/
def schedule (interruptStack : Option FullInterruptStackFrame) (switched : Bool) (state : Scheduler) : Machine :=
  match nextProcess interruptStack state with
  | (.value (some process), after) => ⟨after, if switched then .user process.context else .idle⟩
  | (.value none, after) => ⟨after, .idle⟩
  | (_, after) => ⟨after, .halted⟩

/-- The call changes the current process and gives up the processor. -/
def yieldAfter (call : SchedM Unit) (interruptStack : Option FullInterruptStackFrame) (switched : Bool)
    (state : Scheduler) : Machine :=
  match call state with
  | (.value (), after) => schedule interruptStack switched after
  | (_, after) => ⟨after, .halted⟩

def timerIsr (stack : FullInterruptStackFrame) (input : Option Char) (switched : Bool) (state : Scheduler) : Machine :=
  let ticked := (tick state).2
  let received :=
    match input with
    | some char => (processInput char ticked).2
    | none => ticked
  schedule (some stack) switched received

/-- The other calls compute a result without the scheduler. -/
inductive Syscall where
  | plain (rax : Option UInt64)
  | execute (entry : ProcessEntry)
  | exit
  | readInput
  | yld
  | waitForProcess
  | nanosleep (deadline : UInt64)

def setRax (stack : FullInterruptStackFrame) (rax : UInt64) : FullInterruptStackFrame := { stack with rax := rax }

/-- A call that does not give up the processor returns through the trampoline. -/
def syscallIsr (call : Syscall) (stack : FullInterruptStackFrame) (switched : Bool) (state : Scheduler) : Machine :=
  match call with
  | .plain (some rax) => ⟨state, .returning (setRax stack rax)⟩
  | .plain none => ⟨state, .returning stack⟩
  | .execute entry =>
    match deploy entry true state with
    | (.value pid, after) => ⟨after, .returning (setRax stack (UInt64.ofNat pid))⟩
    | (_, after) => ⟨after, .halted⟩
  | .exit => yieldAfter exitCurrent none switched state
  | .readInput => yieldAfter blockCurrent (some stack) switched state
  | .yld => schedule (some stack) switched state
  | .waitForProcess => yieldAfter (currentWaitForProcess stack.rdi.toNat) (some stack) switched state
  | .nanosleep deadline => yieldAfter (sleepCurrentUntil deadline) (some (setRax stack 1)) switched state

/-- The machine executes an instruction, takes an interrupt, makes a call or returns from one. -/
inductive Interrupt where
  | instruction (frame : FullInterruptStackFrame)
  | timer (kernelFrame : FullInterruptStackFrame) (input : Option Char) (switched : Bool)
  | syscall (call : Syscall) (switched : Bool)
  | iretq
  | bootDeploy (entry : ProcessEntry)

namespace Machine

/-- The processor pushes the frame of user code or of the interrupted kernel code. -/
def pushed (machine : Machine) (kernelFrame : FullInterruptStackFrame) : FullInterruptStackFrame :=
  match machine.cpu with
  | .user frame => frame
  | _ => kernelFrame

def step : Interrupt → Machine → Machine
  | .instruction next, machine =>
    match machine.cpu with
    | .user _ => { machine with cpu := .user next }
    | _ => machine
  | .timer kernelFrame input switched, machine =>
    match machine.cpu with
    | .halted => machine
    | _ => timerIsr (machine.pushed kernelFrame) input switched machine.scheduler
  | .syscall call switched, machine =>
    match machine.cpu with
    | .user frame => syscallIsr call frame switched machine.scheduler
    | _ => machine
  | .iretq, machine =>
    match machine.cpu with
    | .returning frame => { machine with cpu := .user frame }
    | _ => machine
  | .bootDeploy entry, machine =>
    match machine.cpu with
    | .idle => { machine with scheduler := (deploy entry false machine.scheduler).2 }
    | _ => machine

end Machine

end BubbleOs.Scheduling
