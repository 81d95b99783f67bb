/-
This file models the prompt path of the shell, its cd command and its sleep command.
-/

import BubbleOs.Construction.Process.Files
import BubbleOs.Construction.Time.Clock

namespace BubbleOs

open Attempt Fat Text

namespace Shell

def slash : UInt8 := 0x2F

def dot : List UInt8 := [0x2E]

def dotDot : List UInt8 := [0x2E, 0x2E]

def pathCapacity : Nat := 256

/-- The buffer of the path has a fixed size. -/
structure Cwd where
  path : List UInt8
  fits : path.length ≤ pathCapacity

def isAsciiWhitespace (byte : UInt8) : Bool :=
  byte == 0x20 || byte == 0x09 || byte == 0x0A || byte == 0x0C || byte == 0x0D

def trimAsciiSpaces (bytes : List UInt8) : List UInt8 :=
  ((bytes.dropWhile isAsciiWhitespace).reverse.dropWhile isAsciiWhitespace).reverse

def splitNextPathComponent (bytes : List UInt8) : List UInt8 × Option (List UInt8) :=
  match bytes.dropWhile (· != slash) with
  | [] => (bytes, none)
  | _ :: rest => (bytes.takeWhile (· != slash), some rest)

namespace Cwd

def new : Cwd := ⟨[], Nat.zero_le _⟩

/-- The separator follows a path that is not empty. -/
def extended (path component : List UInt8) : List UInt8 :=
  if path.isEmpty then component else path ++ [slash] ++ component

def pushComponent (cwd : Cwd) (component : List UInt8) : Cwd :=
  if room : (extended cwd.path component).length ≤ pathCapacity then ⟨extended cwd.path component, room⟩ else cwd

/-- The last component goes with the separator before it. -/
def popped (path : List UInt8) : List UInt8 := ((path.reverse.dropWhile (· != slash)).drop 1).reverse

theorem length_popped_le (path : List UInt8) : (popped path).length ≤ path.length := by
  have shorter := (List.dropWhile_sublist (l := path.reverse) (· != slash)).length_le
  rw [List.length_reverse] at shorter
  rw [popped, List.length_reverse, List.length_drop]
  omega

def popComponent (cwd : Cwd) : Cwd := ⟨popped cwd.path, Nat.le_trans (length_popped_le cwd.path) cwd.fits⟩

def applyComponent (cwd : Cwd) (component : List UInt8) : Cwd :=
  if component = [] ∨ component = dot then cwd
  else if component = dotDot then cwd.popComponent
  else cwd.pushComponent component

/-- The loop ends because the remaining path gets shorter. -/
def applyPath : Nat → List UInt8 → Cwd → Cwd
  | 0, _, cwd => cwd
  | fuel + 1, remaining, cwd =>
    let split := splitNextPathComponent remaining
    let next := cwd.applyComponent split.1
    match split.2 with
    | none => next
    | some rest => applyPath fuel rest next

def update (cwd : Cwd) (argument : List UInt8) : Cwd :=
  let path := trimAsciiSpaces argument
  if path = [slash] ∨ path = [0x7E] then new
  else applyPath (path.length + 1) path (if path.head? = some slash then new else cwd)

end Cwd

end Shell

/-- The cd system call decodes and trims its path. -/
def cd {P : Type} [Port P] [Unicode] (buffer : List UInt8) : SysM P Bool :=
  match fromUtf8 buffer with
  | none => pure false
  | some text => do
    let moved ← orNone (SystemCall.cd (trim text)).run
    pure moved.isSome

namespace Shell

/-- The shell is a process of the kernel and keeps its own path. -/
structure Session (P : Type) where
  kernel : Kernel P
  cwd : Cwd

variable {P : Type} [Port P] [Unicode]

/-- The shell follows the kernel after a successful call. -/
def cdCommand (argument : List UInt8) (session : Session P) : Session P :=
  let path := trimAsciiSpaces argument
  let result := cd path session.kernel
  ⟨result.2, if result.1 = .value true then session.cwd.update path else session.cwd⟩

end Shell

end BubbleOs

namespace BubbleOs.Shell

open Time Scheduling

def nanosecondsPerMillisecond : Int64 := 1000000

/-- The division truncates towards zero. -/
def Timespec.fromMilliseconds (milliseconds : Int64) : Timespec where
  tvSec := milliseconds / 1000
  tvNsec := (milliseconds % 1000) * nanosecondsPerMillisecond

/-- The kernel reads the duration from the memory of the caller. -/
def sleepMs (currentTicks : UInt64) (milliseconds : Int64) : Outcome Syscall :=
  nanosleep currentTicks (some (Timespec.fromMilliseconds milliseconds))

/-- The product wraps around in a release build. -/
def sleep (currentTicks : UInt64) (seconds : Int64) : Outcome Syscall := sleepMs currentTicks (seconds * 1000)

def isAsciiDigit (byte : UInt8) : Bool := 48 ≤ byte && byte ≤ 57

def parseDigits : List UInt8 → UInt64 → Option UInt64
  | [], number => some number
  | byte :: rest, number =>
    if !isAsciiDigit byte then none
    else do
      let tens ← checkedMul number 10
      let next ← checkedAdd tens (byte - 48).toUInt64
      parseDigits rest next

def parseNumber (bytes : List UInt8) : Option UInt64 :=
  if bytes = [] then none else parseDigits bytes 0

/-- The command reports a failure without a call when the argument is not a number. -/
def sleepCommand (currentTicks : UInt64) (argument : List UInt8) : Option (Outcome Syscall) :=
  (parseNumber argument).map fun seconds => sleep currentTicks seconds.toInt64

end BubbleOs.Shell
