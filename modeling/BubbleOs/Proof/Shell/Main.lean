import BubbleOs.Construction.Shell.Main
import BubbleOs.Proof.Time.Sleep
import BubbleOs.Proof.Fat.Walk
import BubbleOs.Proof.Process.Handles

namespace BubbleOs.Shell

open Time Scheduling

/-- The milliseconds of a command wrap around. -/
theorem milliseconds_eq (seconds : UInt64) : (seconds.toInt64 * 1000).toInt =
    if seconds.toNat * 1000 % 2 ^ 64 < 2 ^ 63 then ((seconds.toNat * 1000 % 2 ^ 64 : Nat) : Int)
    else ((seconds.toNat * 1000 % 2 ^ 64 : Nat) : Int) - 2 ^ 64 := by
  have signed : seconds.toInt64.toInt = (seconds.toNat : Int).bmod (2 ^ 64) := BitVec.toInt_eq_toNat_bmod _
  have thousand : (1000 : Int64).toInt = 1000 := rfl
  rw [Int64.toInt_mul, signed, thousand, Int.bmod_mul_bmod, Int.bmod_def]
  split <;> split <;> omega

section Milliseconds

variable {milliseconds : Int64}

theorem fromMilliseconds_sec :
    (Timespec.fromMilliseconds milliseconds).tvSec.toInt = milliseconds.toInt.tdiv 1000 := by
  have thousand : (1000 : Int64).toInt = 1000 := rfl
  change (milliseconds / 1000).toInt = _
  rw [Int64.toInt_div_of_ne_right _ _ (by decide), thousand]

theorem fromMilliseconds_nsec :
    (Timespec.fromMilliseconds milliseconds).tvNsec.toInt = milliseconds.toInt.tmod 1000 * 1000000 := by
  have thousand : (1000 : Int64).toInt = 1000 := rfl
  have million : nanosecondsPerMillisecond.toInt = 1000000 := rfl
  have low := Int.lt_tmod_of_pos milliseconds.toInt (by decide : (0 : Int) < 1000)
  have high := Int.tmod_lt_of_pos milliseconds.toInt (by decide : (0 : Int) < 1000)
  change (milliseconds % 1000 * nanosecondsPerMillisecond).toInt = _
  rw [Int64.toInt_mul, Int64.toInt_mod, thousand, million]
  apply Int.bmod_eq_of_le <;> omega

/-- A duration is valid when its milliseconds are not negative. -/
theorem fromMilliseconds_valid : (Timespec.fromMilliseconds milliseconds).Valid ↔ 0 ≤ milliseconds.toInt := by
  have high := Int.tmod_lt_of_pos milliseconds.toInt (by decide : (0 : Int) < 1000)
  have whole := Int.tmod_add_mul_tdiv milliseconds.toInt 1000
  rw [Timespec.Valid, fromMilliseconds_sec, fromMilliseconds_nsec]
  constructor
  · rintro ⟨seconds, rest, _⟩
    omega
  · intro positive
    have seconds := Int.tdiv_nonneg positive (by decide : (0 : Int) ≤ 1000)
    have rest := Int.tmod_nonneg 1000 positive
    omega

theorem fromMilliseconds_nanoseconds (positive : 0 ≤ milliseconds.toInt) :
    (Timespec.fromMilliseconds milliseconds).nanoseconds = milliseconds.toInt.toNat * 1000000 := by
  have whole := Int.tmod_add_mul_tdiv milliseconds.toInt 1000
  have seconds := Int.tdiv_nonneg positive (by decide : (0 : Int) ≤ 1000)
  have rest := Int.tmod_nonneg 1000 positive
  rw [Timespec.nanoseconds, fromMilliseconds_sec, fromMilliseconds_nsec]
  omega

end Milliseconds

/-- The kernel accepts the wrapped milliseconds when their nanoseconds fit in a word. -/
theorem sleep_eq (currentTicks seconds : UInt64) : sleep currentTicks seconds.toInt64 =
    if seconds.toNat * 1000 % 2 ^ 64 ≤ 18446744073709 then
      sleepAnswer currentTicks ((seconds.toNat * 1000 % 2 ^ 64 + 9) / 10)
    else .value (.plain (some 0)) := by
  have wrapped := milliseconds_eq seconds
  have size := Nat.mod_lt (seconds.toNat * 1000) (by decide : 0 < 2 ^ 64)
  generalize seconds.toNat * 1000 % 2 ^ 64 = milliseconds at wrapped size
  rw [sleep, sleepMs]
  by_cases low : milliseconds < 2 ^ 63
  · rw [if_pos low] at wrapped
    have positive : 0 ≤ (seconds.toInt64 * 1000).toInt := by omega
    have total := fromMilliseconds_nanoseconds positive
    rw [wrapped, Int.toNat_natCast] at total
    have count : wholeTicks (milliseconds * 1000000) = (milliseconds + 9) / 10 := by
      unfold wholeTicks tickLength
      omega
    rw [nanosleep_valid (fromMilliseconds_valid.mpr positive), total, count]
    by_cases fits : milliseconds ≤ 18446744073709
    · rw [if_pos fits, if_pos (by omega)]
    · rw [if_neg fits, if_neg (by omega)]
  · rw [if_neg low] at wrapped
    rw [if_neg (by omega), nanosleep_invalid]
    rw [fromMilliseconds_valid]
    omega

/-- The call fails, or the process does not continue for a number of ticks. -/
def LongEnough (currentTicks : UInt64) (needed : Nat) : Outcome Syscall → Prop
  | .value (.plain (some rax)) => rax = 0 ∨ needed = 0
  | .value (.nanosleep deadline) => currentTicks.toNat + needed ≤ deadline.toNat
  | _ => False

theorem longEnough_sleepAnswer (currentTicks : UInt64) (needed ticks : Nat) :
    LongEnough currentTicks needed (sleepAnswer currentTicks ticks) ↔
      needed ≤ ticks ∧ (ticks ≠ 0 → currentTicks.toNat + ticks < 2 ^ 64) := by
  unfold sleepAnswer
  by_cases none : ticks = 0
  · rw [if_pos none]
    change (1 : UInt64) = 0 ∨ needed = 0 ↔ _
    have one : (1 : UInt64) ≠ 0 := by decide
    simp only [one, false_or]
    omega
  · rw [if_neg none]
    by_cases fits : currentTicks.toNat + ticks < 2 ^ 64
    · rw [if_pos fits]
      change _ ≤ (UInt64.ofNat _).toNat ↔ _
      rw [toNat_ofNat_of_small fits]
      omega
    · rw [if_neg fits]
      change False ↔ _
      simp only [false_iff]
      intro both
      exact fits (both.2 none)

/-- The command sleeps long enough unless its milliseconds wrap around to a small number or the deadline overflows. -/
theorem sleepCommand_iff {argument : List UInt8} {seconds : UInt64} (accepted : parseNumber argument = some seconds)
    (currentTicks : UInt64) :
    (∃ answer, sleepCommand currentTicks argument = some answer ∧
        LongEnough currentTicks (seconds.toNat * 100) answer) ↔
      (seconds.toNat * 1000 % 2 ^ 64 ≤ 18446744073709 →
        seconds.toNat * 1000 < 2 ^ 64 ∧ currentTicks.toNat + seconds.toNat * 100 < 2 ^ 64) := by
  have answered : sleepCommand currentTicks argument = some (sleep currentTicks seconds.toInt64) := by
    rw [sleepCommand, accepted]
    rfl
  rw [answered, sleep_eq]
  simp only [Option.some.injEq, exists_eq_left']
  by_cases fits : seconds.toNat * 1000 % 2 ^ 64 ≤ 18446744073709
  · rw [if_pos fits, longEnough_sleepAnswer]
    have size := currentTicks.toNat_lt
    omega
  · rw [if_neg fits]
    exact ⟨fun _ small => absurd small fits, fun _ => .inl rfl⟩

/-- Five seconds are five hundred ticks. -/
theorem sleepCommand_five : ∃ answer, sleepCommand 7 [53] = some answer ∧ LongEnough 7 500 answer :=
  (@sleepCommand_iff [53] 5 (by decide) 7).mpr (by decide)

/-- These digits spell 2305843009213693952, a power of two. -/
def wrappingDigits : List UInt8 := [50, 51, 48, 53, 56, 52, 51, 48, 48, 57, 50, 49, 51, 54, 57, 51, 57, 53, 50]

/-- The command with these seconds succeeds and does not sleep at all. -/
theorem sleepCommand_wraps : parseNumber wrappingDigits = some 2305843009213693952 ∧
    sleepCommand 7 wrappingDigits = some (.value (.plain (some 1))) ∧
    ¬ LongEnough 7 (2305843009213693952 * 100) (.value (.plain (some 1))) := by
  have parsed : parseNumber wrappingDigits = some 2305843009213693952 := by decide +kernel
  have wrapped : (2305843009213693952 : UInt64).toNat * 1000 % 2 ^ 64 = 0 := by decide +kernel
  refine ⟨parsed, ?_, ?_⟩
  · rw [sleepCommand, parsed, Option.map_some, sleep_eq, wrapped, if_pos (Nat.zero_le _)]
    rfl
  · rintro (never | never)
    · exact absurd never (by decide)
    · exact absurd never (by decide)

end BubbleOs.Shell

namespace BubbleOs

open Attempt Fat FATFileSystem Fs Text

namespace Shell

section Path

variable {stack : List (List UInt8)}

/-- This is the path of a stack of names. -/
def joined (stack : List (List UInt8)) : List UInt8 := [slash].intercalate stack

theorem joined_ne_nil (some : stack ≠ []) (names : ∀ name ∈ stack, name ≠ []) : joined stack ≠ [] := by
  cases stack with
  | nil => exact absurd rfl some
  | cons first rest =>
    cases rest with
    | nil =>
      rw [joined, List.intercalate_singleton]
      exact names first List.mem_cons_self
    | cons second later =>
      rw [joined, List.intercalate_cons_cons]
      simp

/-- A component extends the path as it extends the stack. -/
theorem joined_concat (names : ∀ name ∈ stack, name ≠ []) (component : List UInt8) :
    joined (stack ++ [component]) = Cwd.extended (joined stack) component := by
  induction stack with
  | nil =>
    rw [joined, List.nil_append, List.intercalate_singleton]
    rfl
  | cons first rest ih =>
    have namesRest : ∀ name ∈ rest, name ≠ [] := fun name member => names name (List.mem_cons_of_mem _ member)
    have whole := joined_ne_nil (List.cons_ne_nil first rest) names
    rw [Cwd.extended, if_neg (by simpa using whole)]
    cases rest with
    | nil => simp [joined, List.intercalate_cons_cons]
    | cons second later =>
      have tail := joined_ne_nil (List.cons_ne_nil second later) namesRest
      have inner := ih namesRest
      rw [Cwd.extended, if_neg (by simpa using tail)] at inner
      simp only [joined] at inner
      rw [joined, joined, List.cons_append, List.cons_append, List.intercalate_cons_cons,
        List.intercalate_cons_cons, ← List.cons_append, inner]
      simp only [List.append_assoc]

/-- The last name is removed with its separator. -/
theorem popped_concat (names : ∀ name ∈ stack, name ≠ []) {component : List UInt8} (free : slash ∉ component) :
    Cwd.popped (joined (stack ++ [component])) = joined stack := by
  have all : ∀ byte ∈ component.reverse, (byte != slash) = true := by
    intro byte member
    rw [bne_iff_ne]
    rintro rfl
    exact free (List.mem_reverse.mp member)
  rw [joined_concat names, Cwd.extended]
  by_cases empty : stack = []
  · subst empty
    rw [if_pos (show (joined []).isEmpty = true from rfl), Cwd.popped, List.dropWhile_eq_nil_iff.mpr all]
    rfl
  · rw [if_neg (by simpa using joined_ne_nil empty names), Cwd.popped, List.reverse_append,
      List.dropWhile_append_of_pos all, List.reverse_append, List.reverse_singleton, List.singleton_append,
      List.dropWhile_cons_of_neg (by simp), List.drop_one, List.tail_cons, List.reverse_reverse]

theorem splitNextPathComponent_eq (bytes : List UInt8) :
    bytes.splitOn slash = match (splitNextPathComponent bytes).2 with
      | none => [(splitNextPathComponent bytes).1]
      | some rest => (splitNextPathComponent bytes).1 :: rest.splitOn slash := by
  have free : slash ∉ bytes.takeWhile (· != slash) := by
    intro member
    have kept := List.mem_takeWhile_imp member
    simp at kept
  have parts : bytes.takeWhile (· != slash) ++ bytes.dropWhile (· != slash) = bytes := List.takeWhile_append_dropWhile
  rw [splitNextPathComponent]
  cases remaining : bytes.dropWhile (· != slash) with
  | nil =>
    rw [remaining, List.append_nil] at parts
    rw [parts] at free
    have whole := splitOn_append_left free []
    rw [List.append_nil] at whole
    rw [whole]
    simp
  | cons byte rest =>
    have separator : byte = slash := by
      have head := @List.head_dropWhile_not _ (· != slash) bytes (by rw [remaining]; exact List.cons_ne_nil _ _)
      simpa [remaining] using head
    rw [remaining, separator] at parts
    conv_lhs => rw [← parts]
    rw [splitOn_append_left free, List.splitOn_cons_eq_if_modifyHead, if_pos (beq_self_eq_true slash)]
    simp

theorem length_splitNextPathComponent {bytes rest : List UInt8} (more : (splitNextPathComponent bytes).2 = some rest) :
    rest.length < bytes.length := by
  rw [splitNextPathComponent] at more
  have shorter := (@List.dropWhile_sublist _ bytes (· != slash)).length_le
  cases remaining : bytes.dropWhile (· != slash) with
  | nil =>
    rw [remaining] at more
    cases more
  | cons byte later =>
    rw [remaining] at more shorter
    obtain rfl : later = rest := Option.some.inj more
    exact shorter

/-- The loop applies the components of the path from left to right. -/
theorem applyPath_eq {fuel : Nat} {remaining : List UInt8} (enough : remaining.length < fuel) (cwd : Cwd) :
    cwd.applyPath fuel remaining = (remaining.splitOn slash).foldl Cwd.applyComponent cwd := by
  induction fuel generalizing remaining cwd with
  | zero => omega
  | succ fuel ih =>
    rw [Cwd.applyPath, splitNextPathComponent_eq]
    cases more : (splitNextPathComponent remaining).2 with
    | none => rfl
    | some rest =>
      have shorter := length_splitNextPathComponent more
      exact ih (by omega) _

/-- The shell trims a path twice. -/
theorem trimAsciiSpaces_idem (bytes : List UInt8) : trimAsciiSpaces (trimAsciiSpaces bytes) = trimAsciiSpaces bytes := by
  have twice (items : List UInt8) : (items.dropWhile isAsciiWhitespace).dropWhile isAsciiWhitespace =
      items.dropWhile isAsciiWhitespace := by
    rw [List.dropWhile_eq_self_iff]
    intro inside
    have head := @List.head_dropWhile_not _ isAsciiWhitespace items (List.ne_nil_of_length_pos inside)
    rw [List.head_eq_getElem] at head
    simp [head]
  have front : (trimAsciiSpaces bytes).dropWhile isAsciiWhitespace = trimAsciiSpaces bytes := by
    rw [trimAsciiSpaces]
    cases rest : bytes.dropWhile isAsciiWhitespace with
    | nil => rfl
    | cons first later =>
      have kept : isAsciiWhitespace first = false := by
        have head := @List.head_dropWhile_not _ isAsciiWhitespace bytes (by rw [rest]; exact List.cons_ne_nil _ _)
        simpa [rest] using head
      rw [List.reverse_cons, List.dropWhile_append]
      split
      · simp [kept]
      · simp [kept]
  rw [trimAsciiSpaces, front, trimAsciiSpaces, List.reverse_reverse, twice]

end Path

section Stack

variable {component : Component} {stack : List Component} {cwd : Cwd}

/-- Every component that is pushed fits into the buffer. -/
def Cwd.Fits : Cwd → List (List UInt8) → Prop
  | _, [] => True
  | cwd, component :: rest =>
    (component ≠ [] → component ≠ dot → component ≠ dotDot →
      (Cwd.extended cwd.path component).length ≤ pathCapacity) ∧ (cwd.applyComponent component).Fits rest

/-- This component has no separator. -/
def Whole (component : Component) : Prop := '/' ∉ component

/-- The path of the shell is the path of this stack. -/
def Cwd.Shows (cwd : Cwd) (stack : List Component) : Prop := cwd.path = joined (stack.map utf8Bytes)

theorem utf8Bytes_eq_nil : utf8Bytes component = [] ↔ component = [] :=
  ⟨fun empty => utf8Bytes_injective empty, fun empty => empty ▸ rfl⟩

theorem utf8Bytes_eq_dot : utf8Bytes component = dot ↔ component = dotComponent :=
  ⟨fun same => utf8Bytes_injective (same.trans (by decide)), fun same => same ▸ by decide⟩

theorem utf8Bytes_eq_dotDot : utf8Bytes component = dotDot ↔ component = parentComponent :=
  ⟨fun same => utf8Bytes_injective (same.trans (by decide)), fun same => same ▸ by decide⟩

theorem slash_mem_utf8Bytes : slash ∈ utf8Bytes component ↔ '/' ∈ component := by
  rw [utf8Bytes, List.mem_flatMap]
  constructor
  · rintro ⟨char, member, inside⟩
    rw [← (@mem_utf8EncodeChar_ascii char '/' (by decide)).mp inside]
    exact member
  · intro member
    exact ⟨'/', member, (mem_utf8EncodeChar_ascii (by decide)).mpr rfl⟩

theorem names_ne_nil (names : ∀ component ∈ stack, IsName component) : ∀ name ∈ stack.map utf8Bytes, name ≠ [] := by
  intro name member
  obtain ⟨component, inside, rfl⟩ := List.mem_map.mp member
  exact fun empty => (names component inside).1 (utf8Bytes_eq_nil.mp empty)

/-- One component moves the path of the shell as it moves the stack. -/
theorem applyComponent_shows (names : ∀ name ∈ stack, IsName name) (whole : ∀ name ∈ stack, Whole name)
    (free : Whole component) (shows : cwd.Shows stack)
    (room : utf8Bytes component ≠ [] → utf8Bytes component ≠ dot → utf8Bytes component ≠ dotDot →
      (Cwd.extended cwd.path (utf8Bytes component)).length ≤ pathCapacity) :
    (cwd.applyComponent (utf8Bytes component)).Shows (stackStep stack component) ∧
      (∀ name ∈ stackStep stack component, IsName name) ∧ ∀ name ∈ stackStep stack component, Whole name := by
  simp only [Cwd.applyComponent, stackStep, utf8Bytes_eq_nil, utf8Bytes_eq_dot, utf8Bytes_eq_dotDot]
  by_cases empty : component = [] ∨ component = dotComponent
  · rw [if_pos empty, if_pos empty]
    exact ⟨shows, names, whole⟩
  · rw [if_neg empty, if_neg empty]
    by_cases parent : component = parentComponent
    · rw [if_pos parent, if_pos parent]
      refine ⟨?_, fun name member => names name (List.dropLast_subset _ member),
        fun name member => whole name (List.dropLast_subset _ member)⟩
      rcases List.eq_nil_or_concat stack with rfl | ⟨front, last, rfl⟩
      · change Cwd.popped cwd.path = _
        rw [shows]
        rfl
      · rw [List.concat_eq_append] at names whole shows ⊢
        have frontNames := names_ne_nil fun name member => names name (List.mem_append_left _ member)
        have lastWhole : slash ∉ utf8Bytes last := fun inside => whole last (by simp) (slash_mem_utf8Bytes.mp inside)
        rw [Cwd.Shows, List.map_append, List.map_cons, List.map_nil] at shows
        rw [List.dropLast_concat]
        change Cwd.popped cwd.path = _
        rw [shows, popped_concat frontNames lastWhole]
    · rw [if_neg parent, if_neg parent]
      have name : IsName component := ⟨(not_or.mp empty).1, (not_or.mp empty).2, parent⟩
      have enough := room (fun same => name.1 (utf8Bytes_eq_nil.mp same)) (fun same => name.2.1 (utf8Bytes_eq_dot.mp same))
        fun same => parent (utf8Bytes_eq_dotDot.mp same)
      refine ⟨?_, fun other member => ?_, fun other member => ?_⟩
      · rw [Cwd.pushComponent, dif_pos enough, Cwd.Shows, List.map_append, List.map_cons, List.map_nil,
          joined_concat (names_ne_nil names), ← shows]
      · rcases List.mem_append.mp member with earlier | last
        · exact names other earlier
        · exact List.mem_singleton.mp last ▸ name
      · rcases List.mem_append.mp member with earlier | last
        · exact whole other earlier
        · exact List.mem_singleton.mp last ▸ free

/-- The components of a path move the path of the shell as they move the stack. -/
theorem foldl_applyComponent_shows {components : List Component} (names : ∀ name ∈ stack, IsName name)
    (whole : ∀ name ∈ stack, Whole name) (free : ∀ component ∈ components, Whole component) (shows : cwd.Shows stack)
    (room : cwd.Fits (components.map utf8Bytes)) :
    ((components.map utf8Bytes).foldl Cwd.applyComponent cwd).Shows (components.foldl stackStep stack) ∧
      ∀ name ∈ components.foldl stackStep stack, Whole name := by
  induction components generalizing cwd stack with
  | nil => exact ⟨shows, whole⟩
  | cons component rest ih =>
    obtain ⟨next, nextNames, nextWhole⟩ :=
      applyComponent_shows names whole (free component List.mem_cons_self) shows room.1
    exact ih nextNames nextWhole (fun other member => free other (List.mem_cons_of_mem _ member)) next room.2

/-- The stack follows a path of the shell. -/
def movedStack (path : List Char) (stack : List Component) : List Component :=
  if path = ['/'] ∨ path = ['~'] then []
  else (path.splitOn '/').foldl stackStep (if path.head? = some '/' then [] else stack)

/-- The shell starts a path from here. -/
def Cwd.origin (cwd : Cwd) (path : List UInt8) : Cwd := if path.head? = some slash then Cwd.new else cwd

/-- The buffer of the shell has room for each step of this path. -/
def Cwd.HasRoom (cwd : Cwd) (path : List UInt8) : Prop :=
  path = [0x7E] ∨ (cwd.origin path).Fits (path.splitOn slash)

theorem head_utf8Bytes (text : List Char) : (utf8Bytes text).head? = some slash ↔ text.head? = some '/' := by
  cases text with
  | nil => simp
  | cons char rest =>
    rw [utf8Bytes_cons, List.head?_cons, Option.some.injEq]
    constructor
    · intro first
      by_contra different
      have absent : slash ∉ String.utf8EncodeChar char :=
        fun member => different ((@mem_utf8EncodeChar_ascii char '/' (by decide)).mp member)
      cases encoded : String.utf8EncodeChar char with
      | nil => exact absurd encoded String.utf8EncodeChar_ne_nil
      | cons byte later =>
        rw [encoded, List.cons_append, List.head?_cons, Option.some.injEq] at first
        rw [encoded, first] at absent
        exact absent List.mem_cons_self
    · rintro rfl
      rw [utf8EncodeChar_ascii (by decide)]
      rfl

/-- The update moves the path of the shell along the stack. -/
theorem update_shows {text : List Char} {argument : List UInt8}
    (decoded : fromUtf8 (trimAsciiSpaces argument) = some text) (names : ∀ name ∈ stack, IsName name)
    (whole : ∀ name ∈ stack, Whole name) (shows : cwd.Shows stack) (room : cwd.HasRoom (trimAsciiSpaces argument)) :
    (cwd.update (trimAsciiSpaces argument)).Shows (movedStack text stack) ∧
      ∀ name ∈ movedStack text stack, Whole name := by
  have encoded := utf8Bytes_of_fromUtf8 decoded
  rw [Cwd.update, trimAsciiSpaces_idem, movedStack]
  rw [← encoded] at room ⊢
  have isRoot : utf8Bytes text = [slash] ↔ text = ['/'] :=
    ⟨fun same => utf8Bytes_injective (same.trans (by decide)), fun same => same ▸ by decide⟩
  have isHome : utf8Bytes text = [0x7E] ↔ text = ['~'] :=
    ⟨fun same => utf8Bytes_injective (same.trans (by decide)), fun same => same ▸ by decide⟩
  by_cases home : text = ['/'] ∨ text = ['~']
  · rw [if_pos home]
    rw [if_pos (home.imp isRoot.mpr isHome.mpr)]
    exact ⟨rfl, by simp⟩
  · rw [if_neg home]
    rw [if_neg (fun bytes => home (bytes.imp isRoot.mp isHome.mp)), applyPath_eq (Nat.lt_succ_self _)]
    rcases room with tilde | room
    · exact absurd (.inr (isHome.mp tilde)) home
    · have pieces : (utf8Bytes text).splitOn slash = (text.splitOn '/').map utf8Bytes :=
        @splitOn_utf8Bytes '/' (by decide) text
      have free : ∀ component ∈ text.splitOn '/', Whole component := fun component => not_mem_of_mem_splitOn
      rw [pieces, Cwd.origin] at room
      rw [pieces]
      by_cases absolute : text.head? = some '/'
      · rw [if_pos ((head_utf8Bytes text).mpr absolute)] at room ⊢
        rw [if_pos absolute]
        exact foldl_applyComponent_shows (by simp) (by simp) free rfl room
      · rw [if_neg (mt (head_utf8Bytes text).mp absolute)] at room ⊢
        rw [if_neg absolute]
        exact foldl_applyComponent_shows names whole free shows room

end Stack

/-- Without the home prefix only a slash makes a path absolute. -/
theorem splitBase_relative {path : List Char} (relative : ¬ ['~', '/'] <+: path) :
    Kernel.splitBase path = if path.head? = some '/' then (true, path.tail) else (false, path) := by
  rw [Kernel.splitBase.eq_def]
  split
  · exact absurd (by simp) relative
  · simp
  · rename_i noSlash
    rw [if_neg]
    intro first
    obtain ⟨rest, rfl⟩ := List.head?_eq_some_iff.mp first
    exact noSlash rest rfl

section Kernel

open Kernel FATDirectory

variable [Unicode] {reserved : Nat → UInt32 → Prop} {system : Kernel SectorArray}
  (well : WellFormed reserved system.volume) (dots : DotsLead system.volume) (named : DotsNamed system.volume)

/-- The stack of names leads from the root to this directory. -/
def Leads (fs : Volume) (stack : List Component) (dir : FATDirectory) : Prop :=
  (∀ name ∈ stack, IsName name) ∧
    ∃ final, walk fs stack fs.rootDir = some final ∧
      fs.directoryCluster dir.entry = fs.directoryCluster final.entry

include well dots named

variable {stack : List Component} {process : FatProcess}

/-- The components of a path lead on from the stack of their base. -/
theorem components_lead {base : FATDirectory} (leads : Leads system.volume stack base) (rest : List Char) :
    Reads (if (normalizePathComponents rest).isEmpty then pure base
      else onVolume (base.findDirectoryComponents (normalizePathComponents rest))) system
      (Leads system.volume ((rest.splitOn '/').foldl stackStep stack)) := by
  obtain ⟨names, top, reached, same⟩ := leads
  obtain ⟨moved, proper⟩ := foldl_normalize (rest.splitOn '/') stack
  have followed {last : FATDirectory} (walked : walk system.volume (normalizePathComponents rest) base = some last) :
      Leads system.volume ((rest.splitOn '/').foldl stackStep stack) last := by
    have result := walk_stack well dots named (rootDir_live _) (directoryCluster_rootDir _) proper names reached same
      walked
    rw [moved] at result
    exact result
  by_cases empty : (normalizePathComponents rest).isEmpty = true
  · rw [if_pos empty]
    refine .of_value rfl (followed ?_)
    rw [List.isEmpty_iff.mp empty]
    rfl
  · rw [if_neg empty]
    have live : base.Live system.volume := by
      have topLive : LiveDirectory system.volume (system.volume.directoryCluster top.entry) :=
        walk_live well dots (rootDir_live _) reached
      rw [← same] at topLive
      exact topLive
    refine onVolume_reads ?_
    have walked := findDirectoryComponents_walk well dots (by simpa using empty) live
    rw [Reads, walked]
    exact (Reads.ofOption _ _).mono fun last found => followed found

/-- The kernel finds a directory without a change, and without the home prefix the moved stack leads to it. -/
theorem findDirectoryFromPath_leads (path : List Char) (current : system.currentProcess = some process)
    (leads : Leads system.volume stack process.currWorkingDir) :
    Reads (findDirectoryFromPath path) system fun dir =>
      ¬ ['~', '/'] <+: path → Leads system.volume (movedStack path stack) dir := by
  have root : Leads system.volume [] system.volume.rootDir := ⟨by simp, _, rfl, rfl⟩
  rw [findDirectoryFromPath, movedStack]
  by_cases home : path = ['/'] ∨ path = ['~']
  · rw [if_pos home, if_pos home]
    exact .of_value rfl fun _ => root
  rw [if_neg home, if_neg home]
  by_cases relative : ['~', '/'] <+: path
  · obtain ⟨rest, rfl⟩ := relative
    exact (components_lead well dots named root rest).mono fun _ _ other => absurd (List.prefix_append _ _) other
  · refine Reads.mono ?_ fun dir found _ => found
    rw [splitBase_relative relative]
    by_cases absolute : path.head? = some '/'
    · obtain ⟨rest, rfl⟩ := List.head?_eq_some_iff.mp absolute
      rw [if_pos absolute, if_pos absolute, List.splitOn_cons_eq_if_modifyHead, if_pos (beq_self_eq_true _),
        List.foldl_cons]
      exact components_lead well dots named root rest
    · rw [if_neg absolute, if_neg absolute]
      have base : baseDirectory false system = (.value process.currWorkingDir, system) := by
        change getCurrentCwd system = _
        have inside := List.length_pos_of_mem (List.mem_of_getElem? current)
        rw [getCurrentCwd, get_bind, if_neg (by omega), current]
        rfl
      rw [Reads, bind_value base]
      exact components_lead well dots named leads path

/-- The call changes nothing, or it stores a directory that its path leads to. -/
theorem cd_leads (buffer : List UInt8) (current : system.currentProcess = some process)
    (leads : Leads system.volume stack process.currWorkingDir) :
    (cd buffer system).1 ≠ .value true ∧ (cd buffer system).2 = system ∨
      ∃ text dir, fromUtf8 buffer = some text ∧
        (¬ ['~', '/'] <+: trim text → Leads system.volume (movedStack (trim text) stack) dir) ∧
          cd buffer system = (.value true, { system with
            processes := system.processes.set system.currentIndex { process with currWorkingDir := dir } }) := by
  rw [cd]
  cases decoded : fromUtf8 buffer with
  | none => exact .inl ⟨by simp, rfl⟩
  | some text =>
    dsimp only
    have refused {outcome : Outcome (Option Nat)} (returned : (SystemCall.cd (trim text)).run system = (outcome, system))
        (noValue : ∀ result, outcome ≠ .value result) :
        ((orNone (SystemCall.cd (trim text)).run >>= fun moved => pure moved.isSome : SysM SectorArray Bool)
          system).1 ≠ .value true ∧
        ((orNone (SystemCall.cd (trim text)).run >>= fun moved => pure moved.isSome : SysM SectorArray Bool)
          system).2 = system := by
      cases outcome with
      | value result => exact absurd rfl (noValue result)
      | missing =>
        have skipped : orNone (SystemCall.cd (trim text)).run system = (.value none, system) := by
          rw [orNone, returned]
        rw [bind_value skipped]
        exact ⟨by simp, rfl⟩
      | hang =>
        have stopped : orNone (SystemCall.cd (trim text)).run system = (.hang, system) := by
          rw [orNone, returned]
        rw [bind_hang stopped]
        exact ⟨by simp, rfl⟩
    by_cases empty : (trim text).isEmpty = true
    · exact .inl (refused (by rw [SystemCall.run, if_pos empty]; rfl) (by simp))
    · have whole : (SystemCall.cd (trim text)).run system =
          (findDirectoryFromPath (trim text) >>= fun dir => changeCwd dir >>= fun _ => pure none) system := by
        rw [SystemCall.run, if_neg empty]
      rcases (findDirectoryFromPath_leads well dots named (trim text) current leads).cases with
        missing | hang | ⟨dir, found, follows⟩
      · exact .inl (refused (whole.trans (bind_missing missing _)) (by simp))
      · exact .inl (refused (whole.trans (bind_hang hang _)) (by simp))
      · refine .inr ⟨text, dir, rfl, follows, ?_⟩
        have stored : changeCwd dir system = (.value (), { system with
            processes := system.processes.set system.currentIndex { process with currWorkingDir := dir } }) := by
          have inside := List.length_pos_of_mem (List.mem_of_getElem? current)
          rw [changeCwd, get_bind, if_neg (by omega), current]
          rfl
        rw [bind_value found, bind_value stored] at whole
        rw [bind_value (orNone_value whole)]
        rfl

end Kernel

section Session

open Kernel FATDirectory

variable [Unicode]

/-- The components of the path lead from the root to this directory. -/
def Cwd.directory (cwd : Cwd) (fs : Volume) : Option FATDirectory :=
  if cwd.path = [] then some fs.rootDir
  else
    match (cwd.path.splitOn slash).mapM fromUtf8 with
    | none => none
    | some components =>
      match (fs.rootDir.findDirectoryComponents components fs).1 with
      | .value dir => some dir
      | _ => none

/-- The path of the shell leads to the working directory of its process. -/
def Session.Agrees (session : Session SectorArray) : Prop :=
  ∃ process dir, session.kernel.currentProcess = some process ∧
    session.cwd.directory session.kernel.volume = some dir ∧
      session.kernel.volume.directoryCluster process.currWorkingDir.entry =
        session.kernel.volume.directoryCluster dir.entry

/-- Both readers understand an accepted argument in the same way. -/
def Plain (argument : List UInt8) (session : Session SectorArray) : Prop :=
  (cd (trimAsciiSpaces argument) session.kernel).1 = .value true →
    session.cwd.HasRoom (trimAsciiSpaces argument) ∧
      ∀ text, fromUtf8 (trimAsciiSpaces argument) = some text → trim text = text ∧ ¬ ['~', '/'] <+: text

/-- One stack of names leads to the working directory and is shown by the shell. -/
def Session.Together (fs : Volume) (session : Session SectorArray) : Prop :=
  session.kernel.volume = fs ∧ ∃ process stack, session.kernel.currentProcess = some process ∧
    Leads fs stack process.currWorkingDir ∧ session.cwd.Shows stack ∧ ∀ name ∈ stack, Whole name

variable {reserved : Nat → UInt32 → Prop} {fs : Volume} (well : WellFormed reserved fs) (dots : DotsLead fs)

include well dots

theorem Session.Together.agrees {session : Session SectorArray} (together : session.Together fs) : session.Agrees := by
  obtain ⟨rfl, process, stack, current, ⟨names, final, walked, same⟩, shows, whole⟩ := together
  refine ⟨process, final, current, ?_, same⟩
  rw [Cwd.directory]
  by_cases empty : stack = []
  · subst empty
    rw [if_pos (show session.cwd.path = [] from shows)]
    exact walked
  · have pieces : (joined (stack.map utf8Bytes)).splitOn slash = stack.map utf8Bytes := by
      refine List.splitOn_intercalate slash (fun name member => ?_) (by simpa using empty)
      obtain ⟨component, inside, rfl⟩ := List.mem_map.mp member
      exact fun slashed => whole component inside (slash_mem_utf8Bytes.mp slashed)
    have some : session.cwd.path ≠ [] := by
      rw [shows]
      exact joined_ne_nil (by simpa using empty) (names_ne_nil names)
    rw [if_neg some, shows, pieces, mapM_fromUtf8]
    have found := findDirectoryComponents_walk well dots empty (rootDir_live _)
    simp only [found, walked]
    rfl

variable (named : DotsNamed fs)

include named

/-- A cd command moves the kernel and the shell together. -/
theorem Session.Together.cdCommand {session : Session SectorArray} (together : session.Together fs)
    {argument : List UInt8} (plain : Plain argument session) : (Shell.cdCommand argument session).Together fs := by
  obtain ⟨rfl, process, stack, current, leads, shows, whole⟩ := together
  rcases cd_leads well dots named (trimAsciiSpaces argument) current leads with
    ⟨refused, same⟩ | ⟨text, dir, decoded, follows, moved⟩
  · rw [Shell.cdCommand, if_neg refused, same]
    exact ⟨rfl, process, stack, current, leads, shows, whole⟩
  · obtain ⟨room, spelled⟩ := plain (by rw [moved])
    obtain ⟨trimmed, relative⟩ := spelled text decoded
    rw [trimmed] at follows
    obtain ⟨nextShows, nextWhole⟩ := update_shows decoded leads.1 whole shows room
    rw [Shell.cdCommand, moved, if_pos rfl]
    refine ⟨rfl, { process with currWorkingDir := dir }, movedStack text stack, ?_, follows relative, nextShows, nextWhole⟩
    have inside := (List.getElem?_eq_some_iff.mp current).1
    exact List.getElem?_set_self inside

end Session

section Home

open Kernel

/-- A path with an absent component leads nowhere. -/
theorem Cwd.directory_absent [Unicode] {fs : Volume} {cwd : Cwd} {components : List Component} (some : cwd.path ≠ [])
    (pieces : cwd.path.splitOn slash = components.map utf8Bytes)
    (absent : (fs.rootDir.findDirectoryComponents components fs).1 = .missing) : cwd.directory fs = none := by
  rw [Cwd.directory, if_neg some, pieces, mapM_fromUtf8]
  simp only [absent]

/-- The shell runs as the only process of the fresh volume. -/
def homeSession : Session SectorArray :=
  ⟨⟨freshVolume, [⟨freshVolume.rootDir, Process.standardFdTable⟩], 0⟩, Cwd.new⟩

end Home

end Shell

end BubbleOs
