import BubbleOs.Construction.Time.Clock
import BubbleOs.Library.Calendar

namespace BubbleOs.Time

open Attempt Calendar

theorem fitsI64_bind {A : Type} {value : Int} (low : -9223372036854775808 ≤ value) (high : value < 9223372036854775808)
    (next : Int → Option A) : (fitsI64 value >>= next) = next value := by
  rw [fitsI64, if_pos ⟨low, high⟩]
  rfl

theorem fitsU64_bind {A : Type} {value : Int} (low : 0 ≤ value) (high : value < 18446744073709551616)
    (next : Int → Option A) : (fitsU64 value >>= next) = next value := by
  rw [fitsU64, if_pos ⟨low, high⟩]
  rfl

/-- No step overflows near the year zero, and the eras add up. -/
theorem daysFromCivil_adjusted {year adjusted shifted : Int} {month day : Nat}
    (years : (if month ≤ 2 then year - 1 else year) = adjusted)
    (months : (if month > 2 then (month : Int) - 3 else month + 9) = shifted)
    (early : -1000000000000002 ≤ adjusted) (late : adjusted ≤ 1000000000000002) (first : 0 ≤ shifted)
    (last : shifted ≤ 11) (positive : 1 ≤ day) (short : day ≤ 31) :
    daysFromCivil year month day = some (leapDays adjusted + (153 * shifted + 2) / 5 + day - 719469) := by
  have unsigned : asU64 (adjusted - adjusted / 400 * 400) = adjusted % 400 := by
    unfold asU64
    omega
  have signed (value : Int) (low : 0 ≤ value) (high : value < 1000000) : asI64 value = value := by
    unfold asI64
    omega
  unfold daysFromCivil
  rw [years, months, fitsI64_bind (by omega) (by omega)]
  dsimp only
  rw [fitsI64_bind (by omega) (by omega), fitsI64_bind (by omega) (by omega), unsigned]
  iterate 9 rw [fitsU64_bind (by omega) (by omega)]
  rw [signed _ (by omega) (by omega), fitsI64_bind (by omega) (by omega), fitsI64_bind (by omega) (by omega), fitsI64,
    if_pos (by omega), Option.some.injEq, leapDays]
  omega

/-- The day count of the driver is the closed form of the calendar. -/
theorem daysFromCivil_eq {year : Int} {month day : Nat} (early : -1000000000000001 ≤ year)
    (late : year ≤ 1000000000000001) (first : 1 ≤ month) (last : month ≤ 12) (positive : 1 ≤ day) (short : day ≤ 31) :
    daysFromCivil year month day = some (civilDays year month day) := by
  rw [civilDays]
  split
  · rename_i winter
    exact daysFromCivil_adjusted (if_pos winter) (if_neg (by omega)) (by omega) (by omega) (by omega) (by omega)
      positive short
  · rename_i later
    exact daysFromCivil_adjusted (if_neg later) (if_pos (by omega)) (by omega) (by omega) (by omega) (by omega)
      positive short

/-- The driver counts the days of the calendar from the first day of 1970, one by one and without an overflow. -/
theorem daysFromCivil_counts : daysFromCivil 1970 1 1 = some 0 ∧
    ∀ date : Date, -1000000000000000 ≤ date.year → date.year ≤ 1000000000000000 →
      ∃ days, daysFromCivil date.year date.month date.day = some days ∧
        daysFromCivil date.next.year date.next.month date.next.day = some (days + 1) := by
  have counted (date : Date) (early : -1000000000000001 ≤ date.year) (late : date.year ≤ 1000000000000001) :
      daysFromCivil date.year date.month date.day = some (civilDays date.year date.month date.day) :=
    daysFromCivil_eq early late date.months.1 date.months.2 date.days.1
      (Nat.le_trans date.days.2 (monthLength_bounds _ _).2)
  refine ⟨by decide, fun date early late => ⟨_, counted date (by omega) (by omega), ?_⟩⟩
  have years := date.next_year
  rw [counted date.next (by omega) (by omega), civilDays_next]

/-- The century year 1900 has no leap day. -/
theorem daysFromCivil_counts_century : ∃ days, daysFromCivil 1900 2 28 = some days ∧
    daysFromCivil 1900 3 1 = some (days + 1) :=
  daysFromCivil_counts.2 ⟨1900, 2, 28, by decide, by decide⟩ (by decide) (by decide)

/-- This is a second of the calendar that the clock can hold. -/
structure Instant where
  year : Nat
  month : Nat
  day : Nat
  hour : Nat
  minute : Nat
  second : Nat
  century : 2000 ≤ year ∧ year ≤ 2099
  months : 1 ≤ month ∧ month ≤ 12
  days : 1 ≤ day ∧ day ≤ monthDays year month
  hours : hour < 24
  minutes : minute < 60
  seconds : second < 60

/-- These are the seconds since the first second of 1970. -/
def Instant.posixTime (instant : Instant) : Nat :=
  daysBefore instant.year instant.month instant.day * 86400 + instant.hour * 3600 + instant.minute * 60 + instant.second

/-- The clock counts in binary or decimal digits and in twenty-four or twice twelve hours. -/
structure Format where
  binary : Bool
  hours24 : Bool
  deriving DecidableEq

namespace Format

def digits (format : Format) (number : Nat) : UInt8 :=
  if format.binary then UInt8.ofNat number else UInt8.ofNat (number / 10 * 16 + number % 10)

/-- The hours of a half day are twelve and then one to eleven. -/
def hourDigits (format : Format) (hour : Nat) : UInt8 :=
  if format.hours24 then format.digits hour
  else format.digits (if hour % 12 = 0 then 12 else hour % 12) ||| (if hour < 12 then 0 else rtcHourPmFlag)

def registers (format : Format) (instant : Instant) : RtcDateTime where
  seconds := format.digits instant.second
  minutes := format.digits instant.minute
  hours := format.hourDigits instant.hour
  day := format.digits instant.day
  month := format.digits instant.month
  year := format.digits (instant.year - 2000)

def statusB (format : Format) : UInt8 :=
  (if format.binary then rtcModeBinary else 0) ||| (if format.hours24 then rtcMode24Hour else 0)

theorem statusB_binary : ∀ format : Format, format.statusB &&& rtcModeBinary = 0 ↔ format.binary = false
  | ⟨false, false⟩ | ⟨false, true⟩ | ⟨true, false⟩ | ⟨true, true⟩ => by decide

theorem statusB_hours24 : ∀ format : Format, format.statusB &&& rtcMode24Hour = 0 ↔ format.hours24 = false
  | ⟨false, false⟩ | ⟨false, true⟩ | ⟨true, false⟩ | ⟨true, true⟩ => by decide

/-- The driver reads this hour. -/
def hourRead (format : Format) (hour : Nat) : Nat :=
  if format.hours24 = false ∧ hour % 12 = 0 then 12 - hour else hour

end Format

/-- The registers hold an instant in every read, and an update always ends. -/
structure Holds (cmos : Cmos) (format : Format) (instant : Instant) : Prop where
  seconds : ∀ time, cmos.answer time rtcSeconds = (format.registers instant).seconds
  minutes : ∀ time, cmos.answer time rtcMinutes = (format.registers instant).minutes
  hours : ∀ time, cmos.answer time rtcHours = (format.registers instant).hours
  day : ∀ time, cmos.answer time rtcDayOfMonth = (format.registers instant).day
  month : ∀ time, cmos.answer time rtcMonth = (format.registers instant).month
  year : ∀ time, cmos.answer time rtcYear = (format.registers instant).year
  binary : ∀ time, cmos.answer time rtcStatusB &&& rtcModeBinary = 0 ↔ format.binary = false
  hours24 : ∀ time, cmos.answer time rtcStatusB &&& rtcMode24Hour = 0 ↔ format.hours24 = false
  idle : ∀ time, ∃ later, time ≤ later ∧ cmos.answer later rtcStatusA &&& rtcUpdateInProgress = 0

/-- The decoded digits are the number. -/
theorem digits_decode (format : Format) : ∀ number < 100,
    (if format.binary = false then bcdToBinary (format.digits number) else format.digits number) =
      UInt8.ofNat number := by
  obtain ⟨binary, hours24⟩ := format
  revert binary hours24
  decide +kernel

theorem hourDigits_decode (format : Format) : ∀ hour < 24,
    let digits := if format.binary = false then
        bcdToBinary (format.hourDigits hour &&& ~~~rtcHourPmFlag) ||| (format.hourDigits hour &&& rtcHourPmFlag)
      else format.hourDigits hour
    (if format.hours24 = false ∧ digits &&& rtcHourPmFlag ≠ 0 then ((digits &&& ~~~rtcHourPmFlag) + 12) % 24
      else digits) = UInt8.ofNat (format.hourRead hour) := by
  obtain ⟨binary, hours24⟩ := format
  revert binary hours24
  decide +kernel

theorem monthDays_le (year month : Nat) : monthDays year month ≤ 31 := by
  unfold monthDays
  split_ifs <;> decide

/-- The driver decodes the registers of an instant up to its hour. -/
theorem registers_decode {format : Format} {statusB : UInt8} (instant : Instant)
    (binary : statusB &&& rtcModeBinary = 0 ↔ format.binary = false)
    (hours24 : statusB &&& rtcMode24Hour = 0 ↔ format.hours24 = false) :
    decodeHours statusB (decodeDigits statusB (format.registers instant)) =
      ⟨UInt8.ofNat instant.second, UInt8.ofNat instant.minute, UInt8.ofNat (format.hourRead instant.hour),
        UInt8.ofNat instant.day, UInt8.ofNat instant.month, UInt8.ofNat (instant.year - 2000)⟩ := by
  have short := monthDays_le instant.year instant.month
  have hour := hourDigits_decode format instant.hour instant.hours
  have number (value : Nat) (small : value < 100) := digits_decode format value small
  have decoded : decodeDigits statusB (format.registers instant) =
      ⟨UInt8.ofNat instant.second, UInt8.ofNat instant.minute,
        if format.binary = false then bcdToBinary (format.hourDigits instant.hour &&& ~~~rtcHourPmFlag) |||
            (format.hourDigits instant.hour &&& rtcHourPmFlag)
          else format.hourDigits instant.hour,
        UInt8.ofNat instant.day, UInt8.ofNat instant.month, UInt8.ofNat (instant.year - 2000)⟩ := by
    rw [← number instant.second (by have := instant.seconds; omega), ← number instant.minute (by have := instant.minutes; omega),
      ← number instant.day (by have := instant.days; omega), ← number instant.month (by have := instant.months; omega),
      ← number (instant.year - 2000) (by have := instant.century; omega)]
    unfold decodeDigits Format.registers
    by_cases digits : format.binary = false
    · simp only [binary, digits, if_true]
    · simp only [binary, if_neg digits]
  rw [decoded, ← hour]
  -- Only the hours depend on how a day is counted.
  generalize (if format.binary = false then _ else _ : UInt8) = read
  unfold decodeHours
  simp only [hours24]
  split <;> rfl

/-- This chip has answered a number of reads. -/
def Cmos.at (cmos : Cmos) (reads : Nat) : Cmos := { cmos with reads := reads }

section Reading

variable {cmos : Cmos} {format : Format} {instant : Instant}

theorem readCmos_bind {A : Type} (reads : Nat) (register : UInt8) (next : UInt8 → RtcM A) :
    (readCmos register >>= next) (cmos.at reads) = next (cmos.answer reads register) (cmos.at (reads + 1)) := rfl

/-- One turn of the loop asks whether an update is going on. -/
theorem awaitUpdate_succ (fuel reads : Nat) : awaitUpdate (fuel + 1) (cmos.at reads) =
    if cmos.answer reads rtcStatusA &&& rtcUpdateInProgress = 0 then (.value (), cmos.at (reads + 1))
    else awaitUpdate fuel (cmos.at (reads + 1)) := by
  have asked : updateInProgress (cmos.at reads) =
      (.value (cmos.answer reads rtcStatusA &&& rtcUpdateInProgress != 0), cmos.at (reads + 1)) := rfl
  rw [awaitUpdate, bind_value asked]
  by_cases idle : cmos.answer reads rtcStatusA &&& rtcUpdateInProgress = 0
  · rw [if_pos idle, idle]
    rfl
  · rw [if_neg idle, if_pos (by simpa using idle)]

/-- The driver waits until an update has ended. -/
theorem awaitUpdate_idle {later : Nat} (idle : cmos.answer later rtcStatusA &&& rtcUpdateInProgress = 0)
    (turns reads : Nat) (before : reads + turns = later) :
    ∃ ready, ∀ fuel, turns < fuel → awaitUpdate fuel (cmos.at reads) = (.value (), cmos.at ready) := by
  induction turns generalizing reads with
  | zero =>
    refine ⟨reads + 1, ?_⟩
    intro fuel enough
    obtain ⟨fuel, rfl⟩ := Nat.exists_eq_add_one_of_ne_zero (Nat.ne_of_gt enough)
    rw [awaitUpdate_succ, if_pos (by rw [← before] at idle; exact idle)]
  | succ turns ih =>
    obtain ⟨ready, waited⟩ := ih (reads + 1) (by omega)
    by_cases now : cmos.answer reads rtcStatusA &&& rtcUpdateInProgress = 0
    · refine ⟨reads + 1, ?_⟩
      intro fuel enough
      obtain ⟨fuel, rfl⟩ := Nat.exists_eq_add_one_of_ne_zero (Nat.ne_of_gt (Nat.zero_lt_of_lt enough))
      rw [awaitUpdate_succ, if_pos now]
    · refine ⟨ready, ?_⟩
      intro fuel enough
      obtain ⟨fuel, rfl⟩ := Nat.exists_eq_add_one_of_ne_zero (Nat.ne_of_gt (Nat.zero_lt_of_lt enough))
      rw [awaitUpdate_succ, if_neg now]
      exact waited fuel (by omega)

/-- Every read of a stable clock finds its registers. -/
theorem Holds.readRawDatetime (holds : Holds cmos format instant) (reads : Nat) :
    ∃ enough later, ∀ fuel, enough ≤ fuel →
      Time.readRawDatetime fuel (cmos.at reads) = (.value (format.registers instant), cmos.at later) := by
  obtain ⟨later, order, idle⟩ := holds.idle reads
  obtain ⟨ready, waited⟩ := awaitUpdate_idle idle (later - reads) reads (by omega)
  refine ⟨later - reads + 1, ready + 6, ?_⟩
  intro fuel enough
  rw [Time.readRawDatetime, bind_value (waited fuel enough)]
  simp only [readCmos_bind, holds.seconds, holds.minutes, holds.hours, holds.day, holds.month, holds.year]
  rfl

/-- The driver returns the time of the hour that it has read. -/
theorem Holds.readUnixTime (holds : Holds cmos format instant) :
    ∃ enough, ∀ fuel, enough ≤ fuel → (Time.readUnixTime fuel cmos).1 =
      .value (daysBefore instant.year instant.month instant.day * 86400 + format.hourRead instant.hour * 3600 +
        instant.minute * 60 + instant.second) := by
  obtain ⟨firstFuel, first, firstRead⟩ := holds.readRawDatetime cmos.reads
  obtain ⟨secondFuel, second, secondRead⟩ := holds.readRawDatetime first
  refine ⟨firstFuel + secondFuel + 1, ?_⟩
  intro fuel enough
  have settled : settleLoop fuel fuel (format.registers instant) (cmos.at first) =
      (.value (format.registers instant), cmos.at second) := by
    obtain ⟨turns, rfl⟩ := Nat.exists_eq_add_one_of_ne_zero (show fuel ≠ 0 by omega)
    rw [settleLoop, bind_value (secondRead _ (by omega)), if_pos rfl]
    rfl
  have begun : Time.readRawDatetime fuel cmos = (.value (format.registers instant), cmos.at first) :=
    firstRead fuel (by omega)
  have decoded := registers_decode instant (holds.binary second) (holds.hours24 second)
  have number (value : Nat) (small : value < 256) : (UInt8.ofNat value).toNat = value := by
    rw [UInt8.toNat_ofNat', Nat.mod_eq_of_lt small]
  have hour : format.hourRead instant.hour < 256 := by
    have inside := instant.hours
    unfold Format.hourRead
    split <;> omega
  have short := monthDays_le instant.year instant.month
  obtain ⟨early, late⟩ := instant.century
  obtain ⟨firstMonth, lastMonth⟩ := instant.months
  obtain ⟨firstDay, lastDay⟩ := instant.days
  have shortHour := instant.minutes
  have shortMinute := instant.seconds
  have count := @daysBefore_eq instant.year instant.month instant.day (by omega) firstMonth lastMonth firstDay
  have days := @daysFromCivil_eq instant.year instant.month instant.day (by omega) (by omega) firstMonth lastMonth firstDay
    (by omega)
  rw [← count] at days
  have year : (2000 + ((instant.year - 2000 : Nat) : Int)) = instant.year := by omega
  rw [Time.readUnixTime, bind_value begun, bind_value settled, readCmos_bind, decoded]
  dsimp only
  rw [number _ hour, number instant.second (by omega), number instant.minute (by omega),
    number (instant.year - 2000) (by omega), number instant.month (by omega), number instant.day (by omega), year, days]
  have bound : (daysBefore instant.year instant.month instant.day : Int) < 1000000 := by
    rw [count, civilDays]
    unfold leapDays
    split <;> omega
  have cast : ((daysBefore instant.year instant.month instant.day : Int) % 18446744073709551616).toNat =
      daysBefore instant.year instant.month instant.day := by omega
  change Outcome.value _ = _
  rw [cast]

/-- The driver reads the time of the clock unless twice twelve hours are counted and the hour is noon or midnight. -/
theorem readUnixTime_iff (holds : Holds cmos format instant) :
    (∃ enough, ∀ fuel, enough ≤ fuel → (Time.readUnixTime fuel cmos).1 = .value instant.posixTime) ↔
      format.hours24 = true ∨ instant.hour % 12 ≠ 0 := by
  obtain ⟨enough, returned⟩ := holds.readUnixTime
  have inside := instant.hours
  constructor
  · rintro ⟨other, right⟩
    have same := (returned (enough + other) (by omega)).symm.trans (right (enough + other) (by omega))
    rw [Outcome.value.injEq, Instant.posixTime, Format.hourRead] at same
    split at same
    · omega
    · rename_i exact_
      simp only [not_and_or, Bool.not_eq_false] at exact_
      exact exact_
  · intro right
    refine ⟨enough, ?_⟩
    intro fuel more
    rw [returned fuel more, Instant.posixTime, Format.hourRead, if_neg]
    rintro ⟨twelve, round⟩
    rw [twelve] at right
    exact right.elim Bool.noConfusion (fun other => other round)

/-- This chip always holds an instant. -/
def steadyCmos (format : Format) (instant : Instant) : Cmos where
  answer _ register :=
    if register = rtcSeconds then (format.registers instant).seconds
    else if register = rtcMinutes then (format.registers instant).minutes
    else if register = rtcHours then (format.registers instant).hours
    else if register = rtcDayOfMonth then (format.registers instant).day
    else if register = rtcMonth then (format.registers instant).month
    else if register = rtcYear then (format.registers instant).year
    else if register = rtcStatusB then format.statusB
    else 0
  reads := 0

theorem holds_steadyCmos (format : Format) (instant : Instant) : Holds (steadyCmos format instant) format instant where
  seconds _ := rfl
  minutes _ := rfl
  hours _ := rfl
  day _ := rfl
  month _ := rfl
  year _ := rfl
  binary _ := format.statusB_binary
  hours24 _ := format.statusB_hours24
  idle time := ⟨time, Nat.le_refl time, show (0 : UInt8) &&& rtcUpdateInProgress = 0 by decide⟩

/-- This is noon of a leap day. -/
def leapNoon : Instant where
  year := 2024
  month := 2
  day := 29
  hour := 12
  minute := 0
  second := 0
  century := by decide
  months := by decide
  days := by decide
  hours := by decide
  minutes := by decide
  seconds := by decide

theorem readUnixTime_leapNoon : ∃ enough, ∀ fuel, enough ≤ fuel →
    (readUnixTime fuel (steadyCmos ⟨false, true⟩ leapNoon)).1 = .value leapNoon.posixTime :=
  (readUnixTime_iff (holds_steadyCmos ⟨false, true⟩ leapNoon)).mpr (.inl rfl)

/-- In twice twelve hours the driver takes noon for midnight. -/
theorem readUnixTime_noon : Holds (steadyCmos ⟨false, false⟩ leapNoon) ⟨false, false⟩ leapNoon ∧
    leapNoon.posixTime = 1709208000 ∧
    (readUnixTime 2 (steadyCmos ⟨false, false⟩ leapNoon)).1 = .value 1709164800 :=
  ⟨holds_steadyCmos _ _, by decide +kernel, by decide +kernel⟩

end Reading

end BubbleOs.Time
