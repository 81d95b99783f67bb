import BubbleOs.Proof.Scheduling.Safety

namespace BubbleOs.Scheduling

namespace Tracked

/-- A run lists the processes that its events select. -/
inductive Run (allowed : Event → Tracked → Prop) (start : Tracked) : List Nat → Tracked → Prop where
  | start : Run allowed start [] start
  | step {chosen : List Nat} {between : Tracked} (earlier : Run allowed start chosen between) (event : Event)
      (fits : allowed event between) :
      Run allowed start (chosen ++ (event.selects between).toList) (event.step between)

/-- The first process of the list exits only when at most one other process is left. -/
def KeepsTurn (event : Event) (tracked : Tracked) : Prop :=
  event = .exitCurrent → tracked.scheduler.currentIndex ≠ 0 ∨ tracked.scheduler.processes.length ≤ 2

/-- The scheduler tries the first process before the second one. -/
def Ahead (first second : Nat) (tracked : Tracked) : Prop :=
  second < tracked.scheduler.pidCounter ∧
    (first ∈ tracked.scheduler.live → second ∈ tracked.scheduler.live →
      [first, second].Sublist (tracked.scheduler.live.rotate (tracked.scheduler.currentIndex + 1)))

section Ahead

variable {tracked : Tracked} {first second : Nat} {event : Event}

/-- The selected process is the last one that is tried again. -/
theorem Sound.ahead (sound : tracked.Sound) (allowed : event.Allowed tracked) (other : first ≠ second)
    (selects : event.selects tracked = some second) : Ahead first second (event.step tracked) := by
  obtain ⟨front, back, turn⟩ := (sound.step allowed).2.turn selects
  refine ⟨?_, fun firstLive _ => ?_⟩
  · rw [turn.counter]
    exact sound.consistent.issued second turn.member
  · rw [← List.mem_rotate, turn.rotated] at firstLive
    rw [turn.rotated]
    have before : first ∈ back ++ front :=
      (List.mem_append.mp firstLive).resolve_right fun last => other (List.mem_singleton.mp last)
    exact (List.singleton_sublist.mpr before).append (List.Sublist.refl [second])

/-- An event that does not select the first process keeps it ahead of the second one. -/
theorem Sound.ahead_step (sound : tracked.Sound) (allowed : event.Allowed tracked) (keeps : KeepsTurn event tracked)
    (other : first ≠ second) (ready : tracked.Ready first) (passed : event.selects tracked ≠ some first)
    (ahead : Ahead first second tracked) : Ahead first second (event.step tracked) := by
  obtain ⟨issued, order⟩ := ahead
  have inside : tracked.scheduler.currentIndex < tracked.scheduler.live.length := by
    rcases sound.consistent.inRange with ⟨empty, _⟩ | inside
    · have member := ready.1
      rw [Scheduler.live, empty] at member
      exact absurd member List.not_mem_nil
    · rw [Scheduler.live, List.length_map]
      exact inside
  cases (sound.step allowed).2 with
  | stays quiet live index counter =>
    refine ⟨Nat.lt_of_lt_of_le issued counter, ?_⟩
    rw [live, index]
    exact order
  | joins quiet live index counter =>
    refine ⟨Nat.lt_trans issued counter, fun _ secondLive => ?_⟩
    rw [live] at secondLive
    have old : second ∈ tracked.scheduler.live :=
      (List.mem_append.mp secondLive).resolve_right fun last => absurd (List.mem_singleton.mp last) (Nat.ne_of_lt issued)
    rw [live, index]
    exact (order ready.1 old).trans (rotate_append_sublist inside _)
  | leaves exits _ live index counter =>
    refine ⟨counter ▸ issued, fun firstLive secondLive => ?_⟩
    rw [live] at firstLive secondLive
    have current := List.getElem?_eq_getElem inside
    rcases keeps exits with later | few
    · -- the processes behind the one that exits keep their order
      have order := order ready.1 (List.mem_of_mem_eraseIdx secondLive)
      rw [rotate_eraseIdx current] at order
      rw [live, index, if_pos later, Nat.sub_add_cancel (Nat.pos_of_ne_zero later)]
      refine pair_before order fun same => ?_
      have distinct := (@List.nodup_rotate _ _ (tracked.scheduler.currentIndex + 1)).mpr sound.consistent.distinct
      rw [rotate_eraseIdx current, List.nodup_append] at distinct
      exact distinct.2.2 second (List.mem_rotate.mpr secondLive) _ (List.mem_singleton_self _) same
    · -- only one process is left, so the two are the same
      have shorter := List.length_eraseIdx_of_lt inside
      rw [← List.length_map Process.pid] at few
      have single : (tracked.scheduler.live.eraseIdx tracked.scheduler.currentIndex).length ≤ 1 := by
        rw [shorter]
        exact Nat.sub_le_of_le_add few
      cases remaining : tracked.scheduler.live.eraseIdx tracked.scheduler.currentIndex with
      | nil =>
        rw [remaining] at firstLive
        exact absurd firstLive List.not_mem_nil
      | cons only rest =>
        rw [remaining] at firstLive secondLive single
        obtain rfl : rest = [] := List.eq_nil_of_length_eq_zero (by simpa using single)
        exact absurd ((List.mem_singleton.mp firstLive).trans (List.mem_singleton.mp secondLive).symm) other
  | turns chosen front back selected turn =>
    refine ⟨turn.counter ▸ issued, fun firstLive secondLive => ?_⟩
    rw [turn.live] at secondLive
    have pair := order ready.1 secondLive
    rw [turn.order] at pair
    have behind := pair_behind pair (fun waiting => turn.passed first waiting ready.2) fun same => passed (same ▸ selected)
    rw [turn.rotated, List.append_assoc]
    exact behind.trans (List.sublist_append_left _ _)

/-- A process is not selected while a ready process is ahead of it. -/
theorem Sound.ahead_first (sound : tracked.Sound) (allowed : event.Allowed tracked) (other : first ≠ second)
    (ready : tracked.Ready first) (ahead : Ahead first second tracked) : event.selects tracked ≠ some second := by
  intro selects
  obtain ⟨front, back, turn⟩ := (sound.step allowed).2.turn selects
  have pair := ahead.2 ready.1 turn.member
  rw [turn.order] at pair
  have behind := pair_behind pair (fun waiting => turn.passed first waiting ready.2) other
  have distinct := (@List.nodup_rotate _ _ (tracked.scheduler.currentIndex + 1)).mpr sound.consistent.distinct
  rw [turn.order] at distinct
  have again : second ∈ back := behind.subset (by simp)
  exact (List.nodup_cons.mp distinct.of_append_right).1 again

end Ahead

/-- Between two selections of a process every other process that stays ready is selected, when no process with two
successors exits at the front of the list. -/
theorem no_bypass {start last : Tracked} {select again : Event} {first second : Nat} {chosen : List Nat}
    (reached : Reached Event.step Event.Allowed boot start) (allowed : select.Allowed start)
    (selected : select.selects start = some second) (other : first ≠ second)
    (interval : Run (fun event tracked => event.Allowed tracked ∧ KeepsTurn event tracked ∧ tracked.Ready first)
      (select.step start) chosen last)
    (ready : last.Ready first) (later : again.Allowed last) (returned : again.selects last = some second) :
    first ∈ chosen := by
  have sound := sound_boot.reached reached
  have kept : last.Sound ∧ (first ∈ chosen ∨ Ahead first second last) := by
    clear ready later returned
    induction interval with
    | start => exact ⟨(sound.step allowed).1, .inr (sound.ahead allowed other selected)⟩
    | @step before between earlier event fits ih =>
        obtain ⟨kept, ahead⟩ := ih
        refine ⟨(kept.step fits.1).1, ?_⟩
        rcases ahead with already | ahead
        · exact .inl (List.mem_append_left _ already)
        · by_cases now : event.selects between = some first
          · left
            rw [now]
            exact List.mem_append_right _ (List.mem_singleton_self _)
          · exact .inr (kept.ahead_step fits.1 fits.2.1 other fits.2.2 now ahead)
  rcases kept.2 with already | ahead
  · exact already
  · exact absurd returned (kept.1.ahead_first later other ready ahead)

/-- While a process stays ready without a turn, every other process gets one turn at most, so that the number of turns is
below the number of the processes that are there at the start or come later. -/
theorem waiting_bounded {start last : Tracked} {first : Nat} {chosen : List Nat}
    (reached : Reached Event.step Event.Allowed boot start) (ready : start.Ready first)
    (interval : Run (fun event tracked => event.Allowed tracked ∧ KeepsTurn event tracked ∧ tracked.Ready first)
      start chosen last) (absent : first ∉ chosen) :
    chosen.Nodup ∧
      chosen.length < start.scheduler.live.length + (last.scheduler.pidCounter - start.scheduler.pidCounter) := by
  have sound := sound_boot.reached reached
  have kept : Reached Event.step Event.Allowed start last ∧ chosen.Nodup ∧ ∀ second ∈ chosen,
      Ahead first second last ∧ (second < start.scheduler.pidCounter → second ∈ start.scheduler.live) := by
    induction interval with
    | start => exact ⟨.start, List.nodup_nil, by simp⟩
    | @step before between earlier event fits ih =>
      rw [List.mem_append, not_or, Option.mem_toList] at absent
      obtain ⟨path, distinct, behind⟩ := ih absent.1
      have still := sound.reached path
      have older (second : Nat) (member : second ∈ before) : Ahead first second (event.step between) ∧
          (second < start.scheduler.pidCounter → second ∈ start.scheduler.live) :=
        ⟨still.ahead_step fits.1 fits.2.1 (by rintro rfl; exact absent.1 member) fits.2.2 absent.2 (behind second member).1,
          (behind second member).2⟩
      refine ⟨path.step event fits.1, ?_⟩
      cases selects : event.selects between with
      | none =>
        rw [Option.toList_none, List.append_nil]
        exact ⟨distinct, older⟩
      | some next =>
        have other : first ≠ next := by rintro rfl; exact absent.2 selects
        obtain ⟨front, back, turn⟩ := (still.step fits.1).2.turn selects
        have fresh : next ∉ before := fun member =>
          still.ahead_first fits.1 other fits.2.2 (behind next member).1 selects
        refine ⟨distinct.append (List.nodup_singleton next) (by simpa using fresh), fun second member => ?_⟩
        rcases List.mem_append.mp member with old | new
        · exact older second old
        · obtain rfl := List.mem_singleton.mp new
          exact ⟨still.ahead fits.1 other selects, fun old => (sound.live_reached path).2 _ old turn.member⟩
  obtain ⟨_, distinct, behind⟩ := kept
  have inside : first :: chosen ⊆ start.scheduler.live ++ List.range' start.scheduler.pidCounter
      (last.scheduler.pidCounter - start.scheduler.pidCounter) := by
    refine List.cons_subset.mpr ⟨List.mem_append_left _ ready.1, fun second member => ?_⟩
    obtain ⟨⟨issued, _⟩, old⟩ := behind second member
    rw [List.mem_append, List.mem_range'_1]
    by_cases early : second < start.scheduler.pidCounter
    · exact .inl (old early)
    · exact .inr (by omega)
  have bound := (List.nodup_cons.mpr ⟨absent, distinct⟩).length_le_of_subset inside
  rw [List.length_cons, List.length_append, List.length_range'] at bound
  exact ⟨distinct, bound⟩

section Bypass

theorem ready_of_idle {tracked : Tracked} {pid : Nat} (member : pid ∈ tracked.scheduler.live)
    (idle : tracked.waits pid = Waits.idle) : tracked.Ready pid := by
  refine ⟨member, ?_, ?_, ?_⟩
  · rw [idle]
    rfl
  · intro other awaited
    rw [idle] at awaited
    cases awaited
  · intro deadline sleeps
    rw [idle] at sleeps
    cases sleeps

/-- The events happen one after the other. -/
def after (events : List Event) : Tracked := events.foldl (fun tracked event => event.step tracked) boot

/-- The program is started. -/
def start : Event := .deploy firstEntry false

/-- The next process is selected without a saved frame. -/
def turn : Event := .nextProcess none

/-- Two processes are started. -/
def pairEvents : List Event := [start, start]

/-- The first process is selected between two selections of the second one. -/
theorem no_bypass_pair :
    ∃ chosen last, Run (fun event tracked => event.Allowed tracked ∧ KeepsTurn event tracked ∧ tracked.Ready 0)
      (turn.step (after pairEvents)) chosen last ∧ turn.selects last = some 1 ∧ 0 ∈ chosen := by
  have one : Reached Event.step Event.Allowed boot (after [start]) := .step .start start rfl
  have two : Reached Event.step Event.Allowed boot (after pairEvents) := .step one start rfl
  have begins : Run (fun event tracked => event.Allowed tracked ∧ KeepsTurn event tracked ∧ tracked.Ready 0)
      (turn.step (after pairEvents)) [] (turn.step (after pairEvents)) := .start
  have interval := begins.step turn ⟨trivial, nofun, ready_of_idle (by decide) (by decide)⟩
  have selected : turn.selects (after pairEvents) = some 1 := by decide
  have returned : turn.selects (turn.step (turn.step (after pairEvents))) = some 1 := by decide
  refine ⟨_, _, interval, returned, ?_⟩
  exact @no_bypass _ _ turn turn 0 1 _ two trivial selected (by decide) interval
    (ready_of_idle (by decide) (by decide)) trivial returned

/-- The second process has its turn while the first one waits. -/
theorem waiting_bounded_pair : (after pairEvents).Ready 0 ∧ turn.selects (after pairEvents) = some 1 ∧
    1 < (after pairEvents).scheduler.live.length +
      ((turn.step (after pairEvents)).scheduler.pidCounter - (after pairEvents).scheduler.pidCounter) := by
  have one : Reached Event.step Event.Allowed boot (after [start]) := .step .start start rfl
  have two : Reached Event.step Event.Allowed boot (after pairEvents) := .step one start rfl
  have ready : (after pairEvents).Ready 0 := ready_of_idle (by decide) (by decide)
  exact ⟨ready, by decide, (waiting_bounded two ready (.step .start turn ⟨trivial, nofun, ready⟩) (by decide)).2⟩

/-- Three processes are started and the second one is selected. -/
def bypassEvents : List Event := [start, start, start, turn]

/-- The exit of the first process hands the turn to the third one again and passes over the second one. -/
theorem exit_bypasses :
    ∃ chosen last, Reached Event.step Event.Allowed boot (after bypassEvents) ∧
      turn.selects (after bypassEvents) = some 2 ∧
        Run (fun event tracked => event.Allowed tracked ∧ tracked.Ready 1) (turn.step (after bypassEvents)) chosen last ∧
          last.Ready 1 ∧ turn.selects last = some 2 ∧ 1 ∉ chosen := by
  have one : Reached Event.step Event.Allowed boot (after [start]) := .step .start start rfl
  have two : Reached Event.step Event.Allowed boot (after [start, start]) := .step one start rfl
  have three : Reached Event.step Event.Allowed boot (after [start, start, start]) := .step two start rfl
  have four : Reached Event.step Event.Allowed boot (after bypassEvents) := .step three turn trivial
  have begins : Run (fun event tracked => event.Allowed tracked ∧ tracked.Ready 1) (turn.step (after bypassEvents)) []
      (turn.step (after bypassEvents)) := .start
  -- the first process is selected and exits
  have selects := begins.step turn ⟨trivial, ready_of_idle (by decide) (by decide)⟩
  have exits := selects.step .exitCurrent ⟨⟨by decide, by decide⟩, ready_of_idle (by decide) (by decide)⟩
  exact ⟨_, _, four, by decide, exits, ready_of_idle (by decide) (by decide), by decide, by decide⟩

end Bypass

end Tracked

end BubbleOs.Scheduling
