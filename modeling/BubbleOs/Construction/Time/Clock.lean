/-
This file models the durations of the timer, the call that sleeps and the real-time clock in the CMOS.
-/

import BubbleOs.Construction.Scheduling.Scheduler

namespace BubbleOs.Time

open Scheduling

def pitHz : UInt64 := 100

def nanosecondsPerSecond : UInt64 := 1000000000

def nanosecondsPerTick : UInt64 := nanosecondsPerSecond / pitHz

structure Timespec where
  tvSec : Int64
  tvNsec : Int64
  deriving DecidableEq

def checkedMul (first second : UInt64) : Option UInt64 :=
  if first.toNat * second.toNat < 2 ^ 64 then some (first * second) else none

def checkedAdd (first second : UInt64) : Option UInt64 :=
  if first.toNat + second.toNat < 2 ^ 64 then some (first + second) else none

def divCeil (dividend divisor : UInt64) : UInt64 :=
  if dividend % divisor > 0 then dividend / divisor + 1 else dividend / divisor

def durationToTicks (seconds nanoseconds : UInt64) : Option UInt64 := do
  let whole ← checkedMul seconds nanosecondsPerSecond
  let totalNs ← checkedAdd whole nanoseconds
  some (divCeil totalNs nanosecondsPerTick)

/-- The debug build stops at an overflow. -/
def monotonicNs (currentTicks : UInt64) : Option UInt64 := checkedMul currentTicks nanosecondsPerTick

def monotonicTimespec (currentTicks : UInt64) : Option Timespec := do
  let ns ← monotonicNs currentTicks
  some ⟨(ns / nanosecondsPerSecond).toInt64, (ns % nanosecondsPerSecond).toInt64⟩

/-- A duration that cannot be read or is not valid is refused, and an overflow of the deadline panics. -/
def nanosleep (currentTicks : UInt64) (buffer : Option Timespec) : Outcome Syscall :=
  match buffer with
  | none => .value (.plain (some 0))
  | some timespec =>
    if timespec.tvSec < 0 ∨ timespec.tvNsec < 0 ∨ timespec.tvNsec.toUInt64 ≥ nanosecondsPerSecond then
      .value (.plain (some 0))
    else
      match durationToTicks timespec.tvSec.toUInt64 timespec.tvNsec.toUInt64 with
      | none => .value (.plain (some 0))
      | some ticks =>
        if ticks = 0 then .value (.plain (some 1))
        else
          match checkedAdd currentTicks ticks with
          | none => .hang
          | some deadline => .value (.nanosleep deadline)

open Attempt

def rtcSeconds : UInt8 := 0x00

def rtcMinutes : UInt8 := 0x02

def rtcHours : UInt8 := 0x04

def rtcDayOfMonth : UInt8 := 0x07

def rtcMonth : UInt8 := 0x08

def rtcYear : UInt8 := 0x09

def rtcStatusA : UInt8 := 0x0A

def rtcStatusB : UInt8 := 0x0B

def rtcUpdateInProgress : UInt8 := 0x80

def rtcModeBinary : UInt8 := 0x04

def rtcMode24Hour : UInt8 := 0x02

def rtcHourPmFlag : UInt8 := 0x80

structure RtcDateTime where
  seconds : UInt8
  minutes : UInt8
  hours : UInt8
  day : UInt8
  month : UInt8
  year : UInt8
  deriving DecidableEq

/-- The chip may answer every read differently. -/
structure Cmos where
  answer : Nat → UInt8 → UInt8
  reads : Nat

abbrev RtcM := Attempt Cmos

def readCmos (register : UInt8) : RtcM UInt8 := do
  let cmos ← get
  put { cmos with reads := cmos.reads + 1 }
  pure (cmos.answer cmos.reads register)

def updateInProgress : RtcM Bool := do
  let status ← readCmos rtcStatusA
  pure (status &&& rtcUpdateInProgress != 0)

/-- The fuel bounds the turns of a loop that may not end. -/
def awaitUpdate : Nat → RtcM Unit
  | 0 => halt
  | fuel + 1 => do
    if ← updateInProgress then awaitUpdate fuel else pure ()

def readRawDatetime (fuel : Nat) : RtcM RtcDateTime := do
  awaitUpdate fuel
  let seconds ← readCmos rtcSeconds
  let minutes ← readCmos rtcMinutes
  let hours ← readCmos rtcHours
  let day ← readCmos rtcDayOfMonth
  let month ← readCmos rtcMonth
  let year ← readCmos rtcYear
  pure ⟨seconds, minutes, hours, day, month, year⟩

def bcdToBinary (value : UInt8) : UInt8 := (value &&& (0x0F : UInt8)) + (value >>> 4) * 10

/-- The debug build stops at a signed result that does not fit. -/
def fitsI64 (value : Int) : Option Int :=
  if -9223372036854775808 ≤ value ∧ value < 9223372036854775808 then some value else none

def fitsU64 (value : Int) : Option Int := if 0 ≤ value ∧ value < 18446744073709551616 then some value else none

def asU64 (value : Int) : Int := value % 18446744073709551616

def asI64 (value : Int) : Int := (value + 9223372036854775808) % 18446744073709551616 - 9223372036854775808

def daysFromCivil (year : Int) (month day : Nat) : Option Int := do
  let adjustedYear ← fitsI64 (if month ≤ 2 then year - 1 else year)
  let era := adjustedYear / 400
  let eraStart ← fitsI64 (era * 400)
  let difference ← fitsI64 (adjustedYear - eraStart)
  let yearOfEra := asU64 difference
  let monthShifted ← fitsU64 (if month > 2 then month - 3 else month + 9)
  let product ← fitsU64 (153 * monthShifted)
  let sum ← fitsU64 (product + 2)
  let withDay ← fitsU64 (sum / 5 + day)
  let dayOfYear ← fitsU64 (withDay - 1)
  let yearDays ← fitsU64 (yearOfEra * 365)
  let withLeaps ← fitsU64 (yearDays + yearOfEra / 4)
  let withoutCenturies ← fitsU64 (withLeaps - yearOfEra / 100)
  let dayOfEra ← fitsU64 (withoutCenturies + dayOfYear)
  let eraDays ← fitsI64 (era * 146097)
  let days ← fitsI64 (eraDays + asI64 dayOfEra)
  fitsI64 (days - 719468)

/-- The clock is read until two reads agree. -/
def settleLoop (inner : Nat) : Nat → RtcDateTime → RtcM RtcDateTime
  | 0, _ => halt
  | fuel + 1, datetime => do
    let secondRead ← readRawDatetime inner
    if secondRead = datetime then pure datetime else settleLoop inner fuel secondRead

/-- A clock in decimal digits keeps its afternoon flag apart. -/
def decodeDigits (statusB : UInt8) (datetime : RtcDateTime) : RtcDateTime :=
  if statusB &&& rtcModeBinary = 0 then
    { seconds := bcdToBinary datetime.seconds
      minutes := bcdToBinary datetime.minutes
      hours := bcdToBinary (datetime.hours &&& ~~~rtcHourPmFlag) ||| (datetime.hours &&& rtcHourPmFlag)
      day := bcdToBinary datetime.day
      month := bcdToBinary datetime.month
      year := bcdToBinary datetime.year }
  else datetime

def decodeHours (statusB : UInt8) (datetime : RtcDateTime) : RtcDateTime :=
  if statusB &&& rtcMode24Hour = 0 ∧ datetime.hours &&& rtcHourPmFlag ≠ 0 then
    { datetime with hours := ((datetime.hours &&& ~~~rtcHourPmFlag) + 12) % 24 }
  else datetime

def readUnixTime (fuel : Nat) : RtcM Nat := do
  let first ← readRawDatetime fuel
  let settled ← settleLoop fuel fuel first
  let statusB ← readCmos rtcStatusB
  let datetime := decodeHours statusB (decodeDigits statusB settled)
  match daysFromCivil (2000 + datetime.year.toNat) datetime.month.toNat datetime.day.toNat with
  | none => halt
  | some days =>
    pure ((days % 18446744073709551616).toNat * 86400 + datetime.hours.toNat * 3600 + datetime.minutes.toNat * 60 +
      datetime.seconds.toNat)

end BubbleOs.Time
