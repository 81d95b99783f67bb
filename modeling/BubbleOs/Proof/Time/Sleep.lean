import BubbleOs.Construction.Time.Clock
import BubbleOs.Proof.Scheduling.RoundRobin

namespace BubbleOs.Time

open Scheduling

/-- These are the nanoseconds between two ticks. -/
def tickLength : Nat := 10000000

/-- This is the least number of ticks that lasts at least as long. -/
def wholeTicks (nanoseconds : Nat) : Nat := (nanoseconds + (tickLength - 1)) / tickLength

theorem toNat_ofNat_of_small {value : Nat} (small : value < 2 ^ 64) : (UInt64.ofNat value).toNat = value := by
  rw [UInt64.toNat_ofNat', Nat.mod_eq_of_lt small]

theorem checkedMul_eq_some {first second product : UInt64} :
    checkedMul first second = some product ↔
      first.toNat * second.toNat < 2 ^ 64 ∧ product.toNat = first.toNat * second.toNat := by
  unfold checkedMul
  split
  · rename_i small
    rw [Option.some.injEq, ← UInt64.toNat_inj, UInt64.toNat_mul, Nat.mod_eq_of_lt small]
    exact ⟨fun same => ⟨small, same.symm⟩, fun both => both.2.symm⟩
  · rename_i large
    exact ⟨fun never => (by cases never), fun both => absurd both.1 large⟩

theorem checkedAdd_eq_some {first second sum : UInt64} :
    checkedAdd first second = some sum ↔
      first.toNat + second.toNat < 2 ^ 64 ∧ sum.toNat = first.toNat + second.toNat := by
  unfold checkedAdd
  split
  · rename_i small
    rw [Option.some.injEq, ← UInt64.toNat_inj, UInt64.toNat_add, Nat.mod_eq_of_lt small]
    exact ⟨fun same => ⟨small, same.symm⟩, fun both => both.2.symm⟩
  · rename_i large
    exact ⟨fun never => (by cases never), fun both => absurd both.1 large⟩

theorem toNat_divCeil (total : UInt64) : (divCeil total nanosecondsPerTick).toNat = wholeTicks total.toNat := by
  have size := total.toNat_lt
  have length : nanosecondsPerTick.toNat = 10000000 := by decide
  have quotient : (total / nanosecondsPerTick).toNat = total.toNat / 10000000 := by rw [UInt64.toNat_div, length]
  have rest : (total % nanosecondsPerTick).toNat = total.toNat % 10000000 := by rw [UInt64.toNat_mod, length]
  unfold divCeil wholeTicks tickLength
  split
  · rename_i more
    rw [gt_iff_lt, UInt64.lt_iff_toNat_lt, rest] at more
    rw [UInt64.toNat_add, quotient]
    change 0 < _ at more
    change (_ + 1) % _ = _
    omega
  · rename_i even
    rw [gt_iff_lt, UInt64.lt_iff_toNat_lt, rest] at even
    change ¬ 0 < _ at even
    rw [quotient]
    omega

/-- A duration is converted unless its nanoseconds overflow. -/
theorem durationToTicks_eq_some {seconds nanoseconds ticks : UInt64} :
    durationToTicks seconds nanoseconds = some ticks ↔
      seconds.toNat * 1000000000 + nanoseconds.toNat < 2 ^ 64 ∧
        ticks.toNat = wholeTicks (seconds.toNat * 1000000000 + nanoseconds.toNat) := by
  have second : nanosecondsPerSecond.toNat = 1000000000 := by decide
  unfold durationToTicks
  simp only [Option.bind_eq_bind, Option.bind_eq_some_iff, checkedMul_eq_some, checkedAdd_eq_some, second,
    Option.some.injEq]
  constructor
  · rintro ⟨whole, ⟨_, product⟩, total, ⟨small, sum⟩, rfl⟩
    rw [product] at small sum
    rw [toNat_divCeil, sum]
    exact ⟨small, rfl⟩
  · rintro ⟨small, count⟩
    have product := toNat_ofNat_of_small (Nat.lt_of_le_of_lt (Nat.le_add_right _ _) small)
    have sum := toNat_ofNat_of_small small
    refine ⟨_, ⟨Nat.lt_of_le_of_lt (Nat.le_add_right _ _) small, product⟩,
      UInt64.ofNat (seconds.toNat * 1000000000 + nanoseconds.toNat), ⟨?_, ?_⟩, ?_⟩
    · rw [product]
      exact small
    · rw [product, sum]
    · rw [← UInt64.toNat_inj, toNat_divCeil, sum, count]

namespace Timespec

/-- A duration is not negative and has less than a second in its second part. -/
def Valid (timespec : Timespec) : Prop :=
  0 ≤ timespec.tvSec.toInt ∧ 0 ≤ timespec.tvNsec.toInt ∧ timespec.tvNsec.toInt < 1000000000

def nanoseconds (timespec : Timespec) : Nat :=
  timespec.tvSec.toInt.toNat * 1000000000 + timespec.tvNsec.toInt.toNat

end Timespec

/-- This is the answer to a valid request for a number of ticks. -/
def sleepAnswer (currentTicks : UInt64) (ticks : Nat) : Outcome Syscall :=
  if ticks = 0 then .value (.plain (some 1))
  else if currentTicks.toNat + ticks < 2 ^ 64 then .value (.nanosleep (UInt64.ofNat (currentTicks.toNat + ticks)))
  else .hang

theorem toNat_toUInt64 {value : Int64} (positive : 0 ≤ value.toInt) : value.toUInt64.toNat = value.toInt.toNat :=
  Int64.toNat_toUInt64_of_le (Int64.le_iff_toInt_le.mpr positive)

theorem valid_iff (timespec : Timespec) : timespec.Valid ↔
    ¬ (timespec.tvSec < 0 ∨ timespec.tvNsec < 0 ∨ timespec.tvNsec.toUInt64 ≥ nanosecondsPerSecond) := by
  have zero : (0 : Int64).toInt = 0 := rfl
  have second : nanosecondsPerSecond.toNat = 1000000000 := by decide
  rw [not_or, not_or, Int64.lt_iff_toInt_lt, Int64.lt_iff_toInt_lt, zero, ge_iff_le, UInt64.le_iff_toNat_le, second,
    Timespec.Valid]
  constructor
  · rintro ⟨seconds, positive, short⟩
    rw [toNat_toUInt64 positive]
    omega
  · rintro ⟨seconds, positive, short⟩
    rw [toNat_toUInt64 (Int.not_lt.mp positive)] at short
    omega

/-- A valid duration sleeps for whole ticks unless its nanoseconds overflow. -/
theorem nanosleep_valid {timespec : Timespec} (valid : timespec.Valid) (currentTicks : UInt64) :
    nanosleep currentTicks (some timespec) =
      if timespec.nanoseconds < 2 ^ 64 then sleepAnswer currentTicks (wholeTicks timespec.nanoseconds)
      else .value (.plain (some 0)) := by
  have total : timespec.tvSec.toUInt64.toNat * 1000000000 + timespec.tvNsec.toUInt64.toNat = timespec.nanoseconds := by
    rw [toNat_toUInt64 valid.1, toNat_toUInt64 valid.2.1, Timespec.nanoseconds]
  rw [nanosleep, if_neg ((valid_iff timespec).mp valid)]
  cases converted : durationToTicks timespec.tvSec.toUInt64 timespec.tvNsec.toUInt64 with
  | none =>
    rw [if_neg]
    intro small
    have short : wholeTicks timespec.nanoseconds < 2 ^ 64 := by
      unfold wholeTicks tickLength
      omega
    rw [← total] at small short
    have some := durationToTicks_eq_some.mpr ⟨small, toNat_ofNat_of_small short⟩
    rw [converted] at some
    cases some
  | some ticks =>
    obtain ⟨small, count⟩ := durationToTicks_eq_some.mp converted
    rw [total] at small count
    rw [if_pos small, sleepAnswer, ← count]
    dsimp only
    by_cases zero : ticks = 0
    · rw [if_pos zero, if_pos (by rw [zero]; rfl)]
    · have some : ticks.toNat ≠ 0 := fun none => zero (UInt64.toNat_inj.mp none)
      rw [if_neg zero, if_neg some]
      cases sum : checkedAdd currentTicks ticks with
      | none =>
        rw [if_neg]
        intro fits
        have some := checkedAdd_eq_some.mpr ⟨fits, toNat_ofNat_of_small fits⟩
        rw [sum] at some
        cases some
      | some deadline =>
        obtain ⟨fits, value⟩ := checkedAdd_eq_some.mp sum
        rw [if_pos fits, ← value, UInt64.ofNat_toNat]

theorem nanosleep_invalid {timespec : Timespec} (invalid : ¬ timespec.Valid) (currentTicks : UInt64) :
    nanosleep currentTicks (some timespec) = .value (.plain (some 0)) := by
  rw [nanosleep, if_pos (not_not.mp ((valid_iff timespec).not.mp invalid))]

end BubbleOs.Time

namespace BubbleOs.Scheduling

/-- A call for sleep does not change the tick counter. -/
theorem Scheduler.sleepCurrentUntil_ticks (deadline : UInt64) (state : Scheduler) :
    (Scheduler.sleepCurrentUntil deadline state).2.ticks = state.ticks := by
  rw [Scheduler.sleepCurrentUntil, Attempt.get_bind]
  split
  · rfl
  · rw [Scheduler.modifyCurrent]
    split <;> rfl

namespace Tracked

/-- The process waits for a tick alone and does not run. -/
structure Asleep (pid : Nat) (deadline : UInt64) (tracked : Tracked) : Prop where
  sound : tracked.Sound
  waits : tracked.waits pid = ⟨false, none, some deadline⟩
  yields : tracked.running = some pid → tracked.yielding = true

section Asleep

variable {tracked : Tracked} {pid : Nat} {deadline : UInt64} {start : Tracked} {chosen : List Nat}

/-- A running process falls asleep by its call. -/
theorem Sound.asleep (sound : tracked.Sound) (running : tracked.running = some pid) (free : tracked.yielding = false)
    (deadline : UInt64) : Asleep pid deadline ((Event.sleepCurrentUntil deadline).step tracked) := by
  obtain ⟨process, current, same, idle⟩ := sound.current pid running
  have recorded := sound.consistent.recorded process (List.mem_of_getElem? current)
  rw [idle free, same] at recorded
  have allowed : (Event.sleepCurrentUntil deadline).Allowed tracked := ⟨free, by rw [running]; simp⟩
  refine ⟨(sound.step allowed).1, ?_, fun _ => rfl⟩
  rw [Event.step]
  unfold Tracked.await
  rw [running]
  dsimp only
  rw [Function.update_self, ← recorded]
  rfl

/-- The selection changes the record of the selected process alone and keeps the tick counter. -/
theorem Sound.nextProcess (sound : tracked.Sound) (interruptStack : Option FullInterruptStackFrame) :
    ((Event.nextProcess interruptStack).step tracked).scheduler.ticks = tracked.scheduler.ticks ∧
      ((Event.nextProcess interruptStack).step tracked).yielding = false ∧
      ((Event.nextProcess interruptStack).step tracked).scheduler.live = tracked.scheduler.live ∧
      ((Event.nextProcess interruptStack).selects tracked ≠ some pid →
        ((Event.nextProcess interruptStack).step tracked).waits pid = tracked.waits pid) := by
  have sameTicks := (sound.consistent.saved interruptStack).2.2.1
  rcases sound.consistent.nextProcess interruptStack with
    ⟨chosen, after, front, back, result, selects, turn, _⟩ | ⟨after, result, kept, _, live, _⟩
  · have next : (Event.nextProcess interruptStack).step tracked =
        ⟨after, some chosen.pid, false, Function.update tracked.waits chosen.pid Waits.idle⟩ := by
      rw [Event.step, result]
    obtain ⟨index, process, before, later, _, _, same⟩ := selects
    rw [Event.selects, next]
    refine ⟨?_, rfl, turn.live, ?_⟩
    · rw [same]
      exact sameTicks
    · intro other
      exact Function.update_of_ne (fun equal => other (congrArg some equal.symm)) _ _
  · have next : (Event.nextProcess interruptStack).step tracked = ⟨after, none, false, tracked.waits⟩ := by
      rw [Event.step, result]
    rw [next]
    exact ⟨by rw [kept]; exact sameTicks, rfl, live, fun _ => rfl⟩

/-- A process that yields keeps its waits when another one changes its own. -/
theorem Asleep.await (asleep : Asleep pid deadline tracked) (free : tracked.yielding = false) (after : Scheduler)
    (wait : Waits → Waits) : (tracked.await after wait).waits pid = ⟨false, none, some deadline⟩ := by
  have other : tracked.running ≠ some pid := fun same => by
    have yields := asleep.yields same
    rw [free] at yields
    cases yields
  unfold Tracked.await
  dsimp only
  cases running : tracked.running with
  | none => exact asleep.waits
  | some runs =>
    dsimp only
    rw [Function.update_of_ne (by rintro rfl; exact other running)]
    exact asleep.waits

/-- No event but its selection ends the sleep of a process. -/
theorem Asleep.step (asleep : Asleep pid deadline tracked) {event : Event} (allowed : event.Allowed tracked)
    (passed : event.selects tracked ≠ some pid) : Asleep pid deadline (event.step tracked) := by
  have sound := (asleep.sound.step allowed).1
  cases event with
  | deploy entry forkCurrent => exact ⟨sound, asleep.waits, asleep.yields⟩
  | blockCurrent | sleepCurrentUntil later | currentWaitForProcess subprocess =>
    refine ⟨sound, ?_, fun _ => rfl⟩
    rw [Event.step]
    exact asleep.await allowed.1 _ _
  | exitCurrent => exact ⟨sound, asleep.waits, fun _ => rfl⟩
  | processInput input =>
    refine ⟨sound, ?_, asleep.yields⟩
    change (tracked.waits pid).delivered = _
    rw [asleep.waits]
    rfl
  | tick => exact ⟨sound, asleep.waits, asleep.yields⟩
  | nextProcess interruptStack =>
    refine ⟨sound, ?_, ?_⟩
    · rw [(asleep.sound.nextProcess interruptStack).2.2.2 passed]
      exact asleep.waits
    · intro same
      exact absurd same passed

/-- A process sleeps through every run that does not select it. -/
theorem Asleep.run (asleep : Asleep pid deadline start) (run : Run Event.Allowed start chosen tracked)
    (absent : pid ∉ chosen) : Asleep pid deadline tracked := by
  induction run with
  | start => exact asleep
  | @step chosen between earlier event fits ih =>
    rw [List.mem_append, not_or, Option.mem_toList] at absent
    exact (ih absent.1).step fits absent.2

/-- A process that sleeps is selected at its deadline or later. -/
theorem Asleep.due (asleep : Asleep pid deadline tracked) {interruptStack : Option FullInterruptStackFrame}
    (selects : (Event.nextProcess interruptStack).selects tracked = some pid) :
    deadline ≤ tracked.scheduler.ticks := by
  have allowed : (Event.nextProcess interruptStack).Allowed tracked := trivial
  obtain ⟨front, back, turn⟩ := (asleep.sound.step allowed).2.turn selects
  have ready := turn.ready
  rw [asleep.waits] at ready
  exact ready.2.2 deadline rfl

theorem Asleep.over (asleep : Asleep pid deadline tracked) (due : deadline ≤ tracked.scheduler.ticks) :
    (tracked.waits pid).Over tracked.scheduler.live tracked.scheduler.ticks := by
  rw [asleep.waits]
  refine ⟨rfl, fun other never => (by cases never), ?_⟩
  rintro _ ⟨rfl⟩
  exact due

/-- This many processes are tried before a process. -/
def queueAhead (tracked : Tracked) (pid : Nat) : Nat :=
  (tracked.scheduler.live.rotate (tracked.scheduler.currentIndex + 1)).idxOf pid

/-- After its deadline a process is selected or moves ahead. -/
theorem Asleep.advances (asleep : Asleep pid deadline tracked) (live : pid ∈ tracked.scheduler.live)
    (due : deadline ≤ tracked.scheduler.ticks) :
    Tracked.turn.selects tracked = some pid ∨
      Tracked.turn.selects tracked ≠ some pid ∧ pid ∈ (Tracked.turn.step tracked).scheduler.live ∧
        (Tracked.turn.step tracked).queueAhead pid < tracked.queueAhead pid := by
  have ended := asleep.over due
  rcases asleep.sound.consistent.nextProcess none with
    ⟨next, after, front, back, result, _, turn, _⟩ | ⟨after, _, _, _, _, _, _, nobody⟩
  · have stepped : Tracked.turn.step tracked =
        ⟨after, some next.pid, false, Function.update tracked.waits next.pid Waits.idle⟩ := by
      rw [Tracked.turn, Event.step, result]
    have selects : Tracked.turn.selects tracked = some next.pid := congrArg Tracked.running stepped
    by_cases same : next.pid = pid
    · exact .inl (same ▸ selects)
    · -- the process is not among the passed ones, so it stands behind the selected one
      have late : pid ∉ front := fun early => turn.passed pid early ended
      have behind : pid ∈ back := by
        rw [← List.mem_rotate, turn.order, List.mem_append, List.mem_cons] at live
        exact (live.resolve_left late).resolve_left (Ne.symm same)
      refine .inr ⟨fun again => same (Option.some.inj (selects.symm.trans again)), ?_, ?_⟩
      · rw [stepped, turn.live]
        exact live
      · rw [queueAhead, queueAhead, stepped, turn.rotated, turn.order, List.append_assoc,
          List.idxOf_append_of_mem behind, List.idxOf_append_of_notMem late, List.idxOf_cons_ne _ same]
        omega
  · exact absurd ended (nobody pid live)

/-- After its deadline a process gets its turn before the next tick. -/
theorem Asleep.turn_comes (run : Run Event.Allowed start chosen tracked) (absent : pid ∉ chosen)
    (asleep : Asleep pid deadline tracked) (live : pid ∈ tracked.scheduler.live)
    (due : deadline ≤ tracked.scheduler.ticks) :
    ∃ passed last, Run Event.Allowed start passed last ∧ pid ∉ passed ∧ turn.selects last = some pid ∧
      last.scheduler.ticks = tracked.scheduler.ticks := by
  induction ahead : tracked.queueAhead pid using Nat.strong_induction_on generalizing chosen tracked with
  | _ ahead ih =>
    subst ahead
    rcases asleep.advances live due with selects | ⟨passes, stays, fewer⟩
    · exact ⟨chosen, tracked, run, absent, selects, rfl⟩
    · have ticks := (@Sound.nextProcess _ pid asleep.sound none).1
      have allowed : turn.Allowed tracked := trivial
      obtain ⟨passed, last, later, missing, selects, same⟩ := ih _ fewer (run.step turn allowed) (by
        rw [List.mem_append, Option.mem_toList]
        exact fun either => either.elim absent passes) (asleep.step allowed passes) stays (by
        change deadline ≤ ((Event.nextProcess none).step tracked).scheduler.ticks
        rw [ticks]
        exact due) rfl
      exact ⟨passed, last, later, missing, selects, same.trans ticks⟩

/-- The timer ticks while other processes run. -/
theorem Asleep.ticks (run : Run Event.Allowed start chosen tracked) (asleep : Asleep pid deadline tracked)
    (live : pid ∈ tracked.scheduler.live) (free : tracked.yielding = false) (count : Nat) :
    ∃ last, Run Event.Allowed start chosen last ∧ Asleep pid deadline last ∧ pid ∈ last.scheduler.live ∧
      last.yielding = false ∧ last.scheduler.ticks = tracked.scheduler.ticks + UInt64.ofNat count := by
  induction count with
  | zero => exact ⟨tracked, run, asleep, live, free, by simp⟩
  | succ count ih =>
    obtain ⟨last, reached, sleeps, stays, open_, ticks⟩ := ih
    have stepped := reached.step .tick open_
    have quiet : Event.tick.selects last = none := rfl
    rw [quiet, Option.toList_none, List.append_nil] at stepped
    have passes : Event.tick.selects last ≠ some pid := by rw [quiet]; simp
    refine ⟨_, stepped, sleeps.step open_ passes, stays, open_, ?_⟩
    change last.scheduler.ticks + 1 = _
    rw [ticks, UInt64.ofNat_add, UInt64.add_assoc]
    rfl

end Asleep

end Tracked

end BubbleOs.Scheduling

namespace BubbleOs.Time

open Scheduling Scheduling.Tracked

/-- Whenever the scheduler first selects the process after its call, the time of the call and the duration have passed. -/
def OnTime (tracked : Scheduling.Tracked) (pid time : Nat) (timespec : Timespec) : Prop :=
  ∀ deadline, nanosleep tracked.scheduler.ticks (some timespec) = .value (.nanosleep deadline) →
    ∀ chosen last interruptStack now,
      Tracked.Run Event.Allowed ((Event.sleepCurrentUntil deadline).step tracked) chosen last → pid ∉ chosen →
      (Event.nextProcess interruptStack).selects last = some pid → last.scheduler.ticks.toNat = now / tickLength →
      time + timespec.nanoseconds ≤ now

/-- Some run selects the process at its deadline. -/
theorem selected_at_deadline {tracked : Scheduling.Tracked} {pid ticks : Nat} (sound : tracked.Sound)
    (running : tracked.running = some pid) (free : tracked.yielding = false) (positive : 0 < ticks)
    (fits : tracked.scheduler.ticks.toNat + ticks < 2 ^ 64) :
    ∃ chosen last, Tracked.Run Event.Allowed ((Event.sleepCurrentUntil
          (UInt64.ofNat (tracked.scheduler.ticks.toNat + ticks))).step tracked) chosen last ∧ pid ∉ chosen ∧
      turn.selects last = some pid ∧ last.scheduler.ticks = UInt64.ofNat (tracked.scheduler.ticks.toNat + ticks) := by
  have value := toNat_ofNat_of_small fits
  generalize UInt64.ofNat (tracked.scheduler.ticks.toNat + ticks) = deadline at value
  have asleep := sound.asleep running free deadline
  have current : ((Event.sleepCurrentUntil deadline).step tracked).scheduler.ticks = tracked.scheduler.ticks :=
    Scheduler.sleepCurrentUntil_ticks deadline tracked.scheduler
  have live : pid ∈ ((Event.sleepCurrentUntil deadline).step tracked).scheduler.live := by
    obtain ⟨process, found, rfl, _⟩ := asleep.sound.current pid running
    exact List.mem_map_of_mem (List.mem_of_getElem? found)
  -- the process yields before its deadline
  have early : turn.selects ((Event.sleepCurrentUntil deadline).step tracked) ≠ some pid := by
    intro selects
    have due := asleep.due selects
    rw [current, UInt64.le_iff_toNat_le] at due
    omega
  have begun : Tracked.Run Event.Allowed ((Event.sleepCurrentUntil deadline).step tracked) []
      ((Event.sleepCurrentUntil deadline).step tracked) := .start
  have allowed : turn.Allowed ((Event.sleepCurrentUntil deadline).step tracked) := trivial
  have yielded := begun.step turn allowed
  obtain ⟨sameTicks, open_, sameLive, _⟩ := @Sound.nextProcess _ pid asleep.sound none
  obtain ⟨waiting, waited, sleeps, stays, _, count⟩ := (asleep.step allowed early).ticks yielded
    (by rw [turn, sameLive]; exact live) open_ ticks
  have reached : waiting.scheduler.ticks = deadline := by
    rw [count, turn, sameTicks, current, ← UInt64.toNat_inj, UInt64.toNat_add,
      toNat_ofNat_of_small (by omega), Nat.mod_eq_of_lt fits, value]
  obtain ⟨passed, last, run, absent, selects, same⟩ := Asleep.turn_comes waited (by
    rw [List.nil_append, Option.mem_toList]
    exact early) sleeps stays (by rw [reached]; exact UInt64.le_refl _)
  exact ⟨passed, last, run, absent, selects, same.trans reached⟩

/-- A sleep ends too early exactly when the rounded duration does not cover the part of the tick that has passed. -/
theorem nanosleep_onTime_iff {tracked : Scheduling.Tracked} {pid time : Nat} {timespec : Timespec} {ticks : UInt64}
    (reached : Reached Event.step Event.Allowed boot tracked) (running : tracked.running = some pid)
    (free : tracked.yielding = false) (clock : tracked.scheduler.ticks.toNat = time / tickLength)
    (valid : timespec.Valid) (positive : 0 < timespec.nanoseconds)
    (converts : durationToTicks timespec.tvSec.toUInt64 timespec.tvNsec.toUInt64 = some ticks) :
    OnTime tracked pid time timespec ↔
      time % tickLength + timespec.nanoseconds ≤ ticks.toNat * tickLength ∨ 2 ^ 64 ≤ time / tickLength + ticks.toNat := by
  have sound := sound_boot.reached reached
  obtain ⟨small, count⟩ := durationToTicks_eq_some.mp converts
  rw [toNat_toUInt64 valid.1, toNat_toUInt64 valid.2.1] at small count
  change timespec.nanoseconds < _ at small
  change _ = wholeTicks timespec.nanoseconds at count
  have some : ticks.toNat ≠ 0 := by
    rw [count, wholeTicks, tickLength]
    omega
  have answer := nanosleep_valid valid tracked.scheduler.ticks
  rw [if_pos small, ← count, sleepAnswer, if_neg some] at answer
  by_cases fits : tracked.scheduler.ticks.toNat + ticks.toNat < 2 ^ 64
  · rw [if_pos fits] at answer
    have value := toNat_ofNat_of_small fits
    rw [or_iff_left (by rw [← clock]; omega)]
    constructor
    · intro onTime
      obtain ⟨chosen, last, run, absent, selects, ended⟩ :=
        selected_at_deadline sound running free (Nat.pos_of_ne_zero some) fits
      have late := onTime _ answer chosen last none ((time / tickLength + ticks.toNat) * tickLength) run absent selects (by
        rw [ended, value, clock, tickLength]
        omega)
      rw [tickLength] at late ⊢
      omega
    · intro covered deadline slept chosen last interruptStack now run absent selects ended
      rw [answer] at slept
      injection slept with slept
      injection slept with slept
      have due := ((sound.asleep running free deadline).run run absent).due selects
      rw [UInt64.le_iff_toNat_le, ended, ← slept, value, clock] at due
      rw [tickLength] at due covered
      omega
  · rw [if_neg fits] at answer
    refine iff_of_true ?_ (.inr (by rw [← clock]; omega))
    intro deadline slept
    rw [answer] at slept
    cases slept

/-- One process runs in the middle of the first tick. -/
def oneRunning : Scheduling.Tracked := turn.step oneProcess

theorem reached_oneRunning : Reached Event.step Event.Allowed boot oneRunning := by
  have deployed : Reached Event.step Event.Allowed boot oneProcess := .step .start (Event.deploy firstEntry false) rfl
  exact .step deployed turn trivial

/-- This duration is one tick. -/
def tickTimespec : Timespec := ⟨0, 10000000⟩

theorem valid_tickTimespec : tickTimespec.Valid := ⟨by decide, by decide, by decide⟩

/-- A process that starts to sleep with a tick sleeps long enough. -/
theorem nanosleep_onTime_start : OnTime oneRunning 0 0 tickTimespec :=
  (@nanosleep_onTime_iff oneRunning 0 0 tickTimespec 1 reached_oneRunning (by decide +kernel) (by decide +kernel)
    (by decide +kernel) valid_tickTimespec (by decide +kernel) (by decide +kernel)).mpr (by decide +kernel)

/-- A process that starts to sleep one nanosecond before a tick is selected after that nanosecond. -/
theorem nanosleep_early : Reached Event.step Event.Allowed boot oneRunning ∧ oneRunning.running = some 0 ∧
    oneRunning.yielding = false ∧ oneRunning.scheduler.ticks.toNat = 9999999 / tickLength ∧
    nanosleep oneRunning.scheduler.ticks (some tickTimespec) = .value (.nanosleep 1) ∧
    ∃ chosen last, Tracked.Run Event.Allowed ((Event.sleepCurrentUntil 1).step oneRunning) chosen last ∧ 0 ∉ chosen ∧
      turn.selects last = some 0 ∧ last.scheduler.ticks.toNat = 10000000 / tickLength ∧
      10000000 < 9999999 + tickTimespec.nanoseconds := by
  have begun : Tracked.Run Event.Allowed ((Event.sleepCurrentUntil 1).step oneRunning) []
      ((Event.sleepCurrentUntil 1).step oneRunning) := .start
  have yielded := begun.step turn trivial
  have open_ : (turn.step ((Event.sleepCurrentUntil 1).step oneRunning)).yielding = false := by decide +kernel
  have ticked := yielded.step .tick open_
  refine ⟨reached_oneRunning, by decide +kernel, by decide +kernel, by decide +kernel, rfl, _, _, ticked, ?_, ?_, ?_, ?_⟩
  · decide +kernel
  · decide +kernel
  · decide +kernel
  · decide +kernel

/-- The monotonic clock shows the length of its ticks. -/
theorem monotonicTimespec_nanoseconds {currentTicks : UInt64} {shown : Timespec}
    (read : monotonicTimespec currentTicks = some shown) :
    shown.nanoseconds = currentTicks.toNat * tickLength := by
  obtain ⟨ns, product, ⟨⟩⟩ := Option.bind_eq_some_iff.mp read
  have signed (value : UInt64) (small : 2 * value.toNat < 2 ^ 64) : value.toInt64.toInt.toNat = value.toNat := by
    rw [← Int64.toInt_toBitVec, UInt64.toBitVec_toInt64, BitVec.toInt_eq_toNat_of_lt small, Int.toNat_natCast,
      UInt64.toNat_toBitVec]
  have limit := ns.toNat_lt
  have second : nanosecondsPerSecond.toNat = 1000000000 := by decide
  have length : nanosecondsPerTick.toNat = tickLength := by decide
  rw [Timespec.nanoseconds, signed _ (by rw [UInt64.toNat_div, second]; omega),
    signed _ (by rw [UInt64.toNat_mod, second]; omega), UInt64.toNat_div, UInt64.toNat_mod, second, Nat.div_add_mod',
    (checkedMul_eq_some.mp product).2, length]

/-- By the monotonic clock the duration has passed whenever the process is selected again. -/
def Measured (tracked : Scheduling.Tracked) (pid : Nat) (timespec : Timespec) : Prop :=
  ∀ deadline, nanosleep tracked.scheduler.ticks (some timespec) = .value (.nanosleep deadline) →
    ∀ chosen last interruptStack before after,
      Tracked.Run Event.Allowed ((Event.sleepCurrentUntil deadline).step tracked) chosen last → pid ∉ chosen →
      (Event.nextProcess interruptStack).selects last = some pid →
      monotonicTimespec tracked.scheduler.ticks = some before → monotonicTimespec last.scheduler.ticks = some after →
      before.nanoseconds + timespec.nanoseconds ≤ after.nanoseconds

/-- No process sees by the monotonic clock that its sleep was too short. -/
theorem sleep_measured {tracked : Scheduling.Tracked} {pid : Nat} (timespec : Timespec)
    (reached : Reached Event.step Event.Allowed boot tracked) (running : tracked.running = some pid)
    (free : tracked.yielding = false) : Measured tracked pid timespec := by
  intro deadline slept chosen last interruptStack before after run absent selects begun ended
  have due := (((sound_boot.reached reached).asleep running free deadline).run run absent).due selects
  rw [UInt64.le_iff_toNat_le] at due
  rw [monotonicTimespec_nanoseconds begun, monotonicTimespec_nanoseconds ended]
  by_cases valid : timespec.Valid
  · rw [nanosleep_valid valid, sleepAnswer] at slept
    split_ifs at slept with _ _ fits <;> cases slept
    rw [toNat_ofNat_of_small fits, wholeTicks, tickLength] at due
    rw [tickLength]
    omega
  · rw [nanosleep_invalid valid] at slept
    cases slept

theorem sleep_measured_one_tick : Measured oneRunning 0 tickTimespec :=
  sleep_measured tickTimespec reached_oneRunning (by decide +kernel) (by decide +kernel)

end BubbleOs.Time
