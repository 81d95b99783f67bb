import BubbleOs.Proof.Fat.WellFormed

namespace BubbleOs.Fat

open Text LongDirectoryEntry

variable {checksum : UInt8} {remaining : Nat} {records : List LongDirectoryEntry} {lfn : LongDirectoryEntry}
  {pending : PendingLfn} {read : List Slot} {slot : Slot}

/-- The later chunks count down to the chunk that is still missing. -/
def countsTo (checksum : UInt8) (remaining : Nat) : List LongDirectoryEntry → Bool
  | [] => true
  | lfn :: rest => !lfn.isLast && lfn.sequence.toNat == rest.length + remaining + 1 && lfn.checksum == checksum &&
      countsTo checksum remaining rest

/-- The start of a run leaves some chunks to come. -/
def isRunTo (checksum : UInt8) (remaining : Nat) : List LongDirectoryEntry → Bool
  | [] => false
  | lfn :: rest => lfn.isLast && lfn.sequence.toNat == rest.length + remaining + 1 &&
      decide (rest.length + remaining + 1 ≤ lfnMaxEntries) && lfn.checksum == checksum && countsTo checksum remaining rest

theorem countsTo_zero (checksum : UInt8) (records : List LongDirectoryEntry) :
    countsTo checksum 0 records = countsDown checksum records := by
  induction records with
  | nil => rfl
  | cons lfn rest ih => rw [countsTo, countsDown, ih, Nat.add_zero]

theorem isRunTo_zero (checksum : UInt8) (records : List LongDirectoryEntry) :
    isRunTo checksum 0 records = isCompleteRun checksum records := by
  cases records with
  | nil => rfl
  | cons lfn rest => rw [isRunTo, isCompleteRun, countsTo_zero, Nat.add_zero]

/-- The expected chunk continues the count. -/
theorem countsTo_snoc (counts : countsTo checksum (remaining + 1) records = true) (inner : lfn.isLast = false)
    (sequence : lfn.sequence.toNat = remaining + 1) (same : lfn.checksum = checksum) :
    countsTo checksum remaining (records ++ [lfn]) = true := by
  induction records with
  | nil => simp [countsTo, inner, sequence, same]
  | cons first rest ih =>
    simp only [countsTo, Bool.and_eq_true, Bool.not_eq_true', beq_iff_eq] at counts
    obtain ⟨⟨⟨firstInner, firstSequence⟩, firstSame⟩, counts⟩ := counts
    rw [List.cons_append, countsTo, ih counts, firstInner, firstSame, firstSequence, List.length_append,
      List.length_singleton]
    simp only [Bool.not_false, Bool.true_and, beq_self_eq_true, Bool.and_true, beq_iff_eq]
    omega

theorem isRunTo_snoc (run : isRunTo checksum (remaining + 1) records = true) (inner : lfn.isLast = false)
    (sequence : lfn.sequence.toNat = remaining + 1) (same : lfn.checksum = checksum) :
    isRunTo checksum remaining (records ++ [lfn]) = true := by
  cases records with
  | nil => contradiction
  | cons first rest =>
    simp only [isRunTo, Bool.and_eq_true, beq_iff_eq, decide_eq_true_eq] at run
    obtain ⟨⟨⟨⟨last, firstSequence⟩, supported⟩, firstSame⟩, counts⟩ := run
    rw [List.cons_append, isRunTo, countsTo_snoc counts inner sequence same, last, firstSame, firstSequence,
      List.length_append, List.length_singleton]
    simp only [Bool.true_and, beq_self_eq_true, Bool.and_true, Bool.and_eq_true, beq_iff_eq, decide_eq_true_eq]
    omega

theorem remaining_le_of_isRunTo (run : isRunTo checksum remaining records = true) : remaining ≤ lfnMaxEntries := by
  cases records with
  | nil => contradiction
  | cons first rest =>
    simp only [isRunTo, Bool.and_eq_true, decide_eq_true_eq] at run
    have supported := run.1.1.2
    omega

/-- The pending name belongs to the long slots at the end of the slots that were read. -/
inductive Pending : List Slot → PendingLfn → Prop where
  | idle (read : List Slot) (checksum : UInt8) : Pending read ⟨[], [], 0, checksum⟩
  | run (before run : List Slot) (remaining : Nat) (checksum : UInt8) (long : ∀ slot ∈ run, isLongSlot slot.1 = true)
      (starts : isRunTo checksum remaining (lfnRecords run) = true) : Pending (before ++ run)
        (collecting ((lfnRecords run).map LongDirectoryEntry.nameUnits) (run.map Prod.snd) remaining checksum)

/-- One slot that is no end marker advances the parser. -/
def PendingLfn.advance (pending : PendingLfn) (slot : Slot) : PendingLfn :=
  if isLongSlot slot.1 then pending.accept (LongDirectoryEntry.fromDirectoryEntry slot.1) slot.2 else pending.clear

/-- A chunk that does not fit leaves an idle parser. -/
theorem accept_idle (location : DirectoryEntryLocation)
    (discarded : (pending.start lfn).expectedSequence = 0 ∨ lfn.sequence ≠ (pending.start lfn).expectedSequence ∨
      lfn.checksum ≠ (pending.start lfn).checksumValue) :
    pending.accept lfn location = ⟨[], [], 0, (pending.start lfn).checksumValue⟩ := by
  rw [PendingLfn.accept]
  rw [if_pos (by simpa [or_assoc] using discarded)]
  rfl

theorem Pending.start (long : isLongSlot slot.1 = true)
    (last : (fromDirectoryEntry slot.1).isLast = true) :
    Pending (read ++ [slot]) (pending.accept (fromDirectoryEntry slot.1) slot.2) := by
  have single : ∀ other ∈ [slot], isLongSlot other.1 = true := by
    intro other member
    rw [List.mem_singleton.mp member]
    exact long
  cases number : (fromDirectoryEntry slot.1).sequence.toNat with
  | zero =>
    rw [accept_idle]
    · exact .idle _ _
    · left
      rw [PendingLfn.start, if_pos last]
      simp [UInt8.le_iff_toNat_le, number]
  | succ remaining =>
    by_cases supported : remaining + 1 ≤ lfnMaxEntries
    · rw [accept_last pending remaining supported _ slot.2 last number]
      refine Pending.run read [slot] remaining _ single ?_
      simp [lfnRecords, isRunTo, countsTo, last, number, supported]
    · rw [accept_idle]
      · exact .idle _ _
      · left
        rw [PendingLfn.start, if_pos last]
        simp [number, supported]

/-- A long slot starts a run, continues the pending run or discards it. -/
theorem Pending.accept (known : Pending read pending) (long : isLongSlot slot.1 = true) :
    Pending (read ++ [slot]) (pending.accept (fromDirectoryEntry slot.1) slot.2) := by
  cases last : (fromDirectoryEntry slot.1).isLast with
  | true => exact Pending.start long last
  | false =>
    have unchanged : pending.start (fromDirectoryEntry slot.1) = pending := by
      rw [PendingLfn.start, last]
      rfl
    by_cases fits : pending.expectedSequence ≠ 0 ∧
        (fromDirectoryEntry slot.1).sequence = pending.expectedSequence ∧
        (fromDirectoryEntry slot.1).checksum = pending.checksumValue
    · obtain ⟨nonzero, sequence, same⟩ := fits
      cases known with
      | idle => exact absurd rfl nonzero
      | run before run remaining checksum longRun starts =>
        obtain ⟨remaining, rfl⟩ : ∃ fewer, remaining = fewer + 1 :=
          Nat.exists_eq_succ_of_ne_zero (by rintro rfl; exact nonzero rfl)
        have number : (fromDirectoryEntry slot.1).sequence.toNat = remaining + 1 := by
          have small := remaining_le_of_isRunTo starts
          rw [lfnMaxEntries, lfnMaxUnits, lfnUnitsPerEntry] at small
          rw [sequence, collecting, UInt8.toNat_ofNat']
          omega
        change _ = checksum at same
        have longer := Pending.run before (run ++ [slot]) remaining checksum
          (List.forall_mem_append.mpr ⟨longRun, List.forall_mem_singleton.mpr long⟩) (by
            rw [lfnRecords, List.map_append]
            exact isRunTo_snoc starts last number same)
        rw [List.append_assoc]
        rw [lfnRecords, List.map_append, List.map_append, List.map_append] at longer
        subst same
        rw [accept_collecting _ _ _ _ _ last number]
        exact longer
    · rw [accept_idle]
      · exact .idle _ _
      · rw [unchanged]
        by_contra kept
        simp only [not_or, not_not] at kept
        exact fits kept

theorem Pending.advance (known : Pending read pending) (slot : Slot) :
    Pending (read ++ [slot]) (pending.advance slot) := by
  rw [PendingLfn.advance]
  split
  · rename_i long
    exact known.accept long
  · exact .idle _ _

/-- The parser's state is known after any slots. -/
theorem pending_foldl (read slots : List Slot) (known : Pending read pending) :
    Pending (read ++ slots) (slots.foldl PendingLfn.advance pending) := by
  induction slots generalizing read pending with
  | nil =>
    rw [List.append_nil]
    exact known
  | cons slot rest ih =>
    rw [List.append_cons, List.foldl_cons]
    exact ih _ (known.advance slot)

section Parser

variable [Unicode] {short : Slot} {pending : PendingLfn} {name : List Char} {slots : List Slot}
  {located : LocatedDirectoryEntry}

/-- The parser continues behind slots without an end marker in the state that they leave. -/
theorem parseFrom_append_state (front rest : List Slot) (noEnd : ∀ slot ∈ front, slot.1.isEndMarker = false)
    (pending : PendingLfn) : parseFrom pending (front ++ rest) =
      parseFrom pending front ++ parseFrom (front.foldl PendingLfn.advance pending) rest := by
  induction front generalizing pending with
  | nil => rfl
  | cons slot front ih =>
    have used := noEnd slot List.mem_cons_self
    have later := ih fun other member => noEnd other (List.mem_cons_of_mem _ member)
    rw [List.cons_append, parseFrom, parseFrom, List.foldl_cons, PendingLfn.advance, isLongSlot, used]
    simp only [Bool.false_eq_true, if_false, Bool.not_false, Bool.true_and, later]
    cases slot.1.isDeleted with
    | true => simp
    | false =>
      cases slot.1.isLongFilename with
      | true => simp
      | false => cases slot.1.isVolumeLabel <;> simp

/-- The parser returns a short slot under the pending name or under its own name. -/
def PendingLfn.locate (pending : PendingLfn) (short : Slot) : LocatedDirectoryEntry :=
  match pending.longName short.1.name with
  | some name => ⟨short.1, short.2, name, pending.locations⟩
  | none => ⟨short.1, short.2, getFilenameFromFat short.1.name, []⟩

/-- The name of a short entry depends on the state before it, and the state behind it is idle. -/
theorem parseFrom_short (pending : PendingLfn) (normal : short.1.isNormalEntry = true) (rest : List Slot) :
    parseFrom pending (short :: rest) = pending.locate short :: parseDirectoryEntries rest := by
  simp only [DirectoryEntry.isNormalEntry, Bool.and_eq_true, Bool.not_eq_true'] at normal
  obtain ⟨⟨⟨used, kept⟩, short⟩, file⟩ := normal
  rw [parseFrom, used, kept, short, file]
  simp only [Bool.false_eq_true, if_false]
  rw [PendingLfn.clear, parseFrom_idle pending.checksumValue 0]
  rfl

/-- Long slots alone give no entry. -/
theorem parseFrom_longs (pending : PendingLfn) {run : List Slot} (long : ∀ slot ∈ run, isLongSlot slot.1 = true) :
    parseFrom pending run = [] := by
  induction run generalizing pending with
  | nil => rfl
  | cons slot rest ih =>
    rw [parseFrom_long _ _ _ (long slot List.mem_cons_self)]
    exact ih _ fun other member => long other (List.mem_cons_of_mem _ member)

/-- The long slots in front of a short slot hold this name for it. -/
structure NamedBy (run : List Slot) (short : Slot) (name : List Char) : Prop where
  long : ∀ slot ∈ run, isLongSlot slot.1 = true
  complete : isCompleteRun (lfnChecksum short.1.name) (lfnRecords run) = true
  decoded : decodeLongFilename ((lfnRecords run).map LongDirectoryEntry.nameUnits).reverse.flatten = some name

omit [Unicode] in
/-- A long name comes from the run of long slots right in front of the short slot. -/
theorem Pending.longName {read : List Slot} (known : Pending read pending)
    (named : pending.longName short.1.name = some name) :
    ∃ before run, read = before ++ run ∧ pending.locations = run.map Prod.snd ∧ NamedBy run short name := by
  rw [PendingLfn.longName] at named
  split at named
  · rename_i accepted
    simp only [Bool.and_eq_true, beq_iff_eq, Bool.not_eq_true'] at accepted
    obtain ⟨⟨ended, filled⟩, same⟩ := accepted
    cases known with
    | idle => contradiction
    | run before run remaining checksum long starts =>
      have none : remaining = 0 := by
        have small := remaining_le_of_isRunTo starts
        rw [lfnMaxEntries, lfnMaxUnits, lfnUnitsPerEntry] at small
        have number := congrArg UInt8.toNat ended
        rw [collecting, UInt8.toNat_ofNat', UInt8.toNat_zero] at number
        omega
      subst none
      change checksum = _ at same
      rw [isRunTo_zero, same] at starts
      exact ⟨before, run, rfl, rfl, long, starts, named⟩
  · contradiction

/-- A short slot behind a run that names it takes the name of the run. -/
theorem parse_behind_run {before run : List Slot} (noEnd : ∀ slot ∈ before, slot.1.isEndMarker = false)
    (named : NamedBy run short name) (normal : short.1.isNormalEntry = true) (rest : List Slot) :
    parseDirectoryEntries (before ++ run ++ short :: rest) = parseDirectoryEntries (before ++ run) ++
      ⟨short.1, short.2, name, run.map Prod.snd⟩ :: parseDirectoryEntries rest := by
  have quiet := parseFrom_append run [] (fun pending => parseFrom_longs pending named.long) before noEnd PendingLfn.initial
  have entry := parseFrom_append (run ++ short :: rest) _
    (fun pending => parseFrom_named pending run rest short name named.long named.complete named.decoded normal)
    before noEnd PendingLfn.initial
  rw [List.append_nil] at quiet
  rw [List.append_assoc, parseDirectoryEntries, entry, parseDirectoryEntries, parseDirectoryEntries, quiet]

/-- A parsed entry is a short slot with the name that is pending in front of it. -/
theorem mem_parseFrom (member : located ∈ parseFrom pending slots) :
    ∃ front short rest, slots = front ++ short :: rest ∧ (∀ slot ∈ front, slot.1.isEndMarker = false) ∧
      short.1.isNormalEntry = true ∧ located = (front.foldl PendingLfn.advance pending).locate short := by
  induction slots generalizing pending with
  | nil => exact absurd member List.not_mem_nil
  | cons slot slots ih =>
    cases used : slot.1.isEndMarker with
    | true =>
      rw [parseFrom, used] at member
      exact absurd member List.not_mem_nil
    | false =>
      have later (inside : located ∈ parseFrom (pending.advance slot) slots) :
          ∃ front short rest, slot :: slots = front ++ short :: rest ∧ (∀ slot ∈ front, slot.1.isEndMarker = false) ∧
            short.1.isNormalEntry = true ∧ located = (front.foldl PendingLfn.advance pending).locate short := by
        obtain ⟨front, short, rest, rfl, noEnd, normal, found⟩ := ih inside
        exact ⟨slot :: front, short, rest, rfl, List.forall_mem_cons.mpr ⟨used, noEnd⟩, normal, found⟩
      cases normal : slot.1.isNormalEntry with
      | true =>
        rw [parseFrom_short pending normal] at member
        rcases List.mem_cons.mp member with rfl | behind
        · exact ⟨[], slot, slots, rfl, fun _ absurd_ => absurd absurd_ List.not_mem_nil, normal, rfl⟩
        · have short : isLongSlot slot.1 = false := by
            rw [isLongSlot, (isNormalEntry_iff.mp normal).2.2.1, Bool.and_false]
          refine later ?_
          rw [PendingLfn.advance, short, if_neg Bool.false_ne_true, PendingLfn.clear, parseFrom_idle _ 0]
          exact behind
      | false =>
        have skipped := parseFrom_append_state [slot] slots (List.forall_mem_singleton.mpr used) pending
        have quiet : parseFrom pending [slot] = [] :=
          List.map_eq_nil_iff.mp ((map_parseFrom pending [slot]).trans (by simp [liveSlots, used, normal]))
        rw [quiet] at skipped
        refine later ?_
        change located ∈ parseFrom pending ([slot] ++ slots) at member
        rw [skipped] at member
        exact member

/-- A parsed entry stands behind its long filename slots, which name it. -/
theorem parse_split (member : located ∈ parseDirectoryEntries slots) :
    ∃ front run back, slots = front ++ (run ++ [(located.entry, located.location)]) ++ back ∧
      run.map Prod.snd = located.lfnLocations ∧ (∀ slot ∈ front, slot.1.isEndMarker = false) ∧
      (∀ slot ∈ run, isLongSlot slot.1 = true) ∧ located.entry.isNormalEntry = true ∧
      parseDirectoryEntries slots = parseDirectoryEntries front ++ located :: parseDirectoryEntries back ∧
      (run ≠ [] → NamedBy run (located.entry, located.location) located.name) := by
  obtain ⟨read, short, rest, rfl, noEnd, normal, found⟩ := mem_parseFrom member
  have known : Pending read (read.foldl PendingLfn.advance PendingLfn.initial) := pending_foldl [] read (.idle [] 0)
  have parsed := parseFrom_append_state read (short :: rest) noEnd PendingLfn.initial
  rw [parseFrom_short _ normal, ← found] at parsed
  cases named : (read.foldl PendingLfn.advance PendingLfn.initial).longName short.1.name with
  | none =>
    rw [PendingLfn.locate, named] at found
    subst found
    exact ⟨read, [], rest, by simp, rfl, noEnd, by simp, normal, parsed, fun absurd_ => absurd rfl absurd_⟩
  | some name =>
    obtain ⟨before, run, rfl, places, naming⟩ := known.longName named
    rw [PendingLfn.locate, named] at found
    subst found
    have noEndBefore (slot : Slot) (inside : slot ∈ before) := noEnd slot (List.mem_append_left _ inside)
    have quiet : parseFrom PendingLfn.initial (before ++ run) = parseDirectoryEntries before := by
      rw [parseFrom_append_state _ _ noEndBefore, parseFrom_longs _ naming.long, List.append_nil]
      rfl
    rw [quiet] at parsed
    exact ⟨before, run, rest, by simp, places.symm, noEndBefore, naming.long, normal, parsed, fun _ => naming⟩

/-- The parser returns the ordinary slots before the end marker, each with the name of the run in front of it. -/
theorem parse_arbitrary_slots (slots : List Slot) :
    (parseDirectoryEntries slots).map (fun located => (located.entry, located.location)) = liveSlots slots ∧
      ∀ front short rest, slots = front ++ short :: rest → (∀ slot ∈ front, slot.1.isEndMarker = false) →
        short.1.isNormalEntry = true → ∃ located,
          parseDirectoryEntries slots = parseDirectoryEntries front ++ located :: parseDirectoryEntries rest ∧
          located.entry = short.1 ∧ located.location = short.2 ∧
          (located.lfnLocations = [] ∧ located.name = getFilenameFromFat short.1.name ∨
            ∃ before run, front = before ++ run ∧ located.lfnLocations = run.map Prod.snd ∧
              NamedBy run short located.name) ∧
          ∀ before run name, front = before ++ run → NamedBy run short name →
            located.name = name ∧ located.lfnLocations = run.map Prod.snd := by
  refine ⟨map_parseDirectoryEntries slots, ?_⟩
  rintro front short rest rfl noEnd normal
  have known : Pending front (front.foldl PendingLfn.advance PendingLfn.initial) :=
    pending_foldl [] front (.idle [] 0)
  have parsed := parseFrom_append_state front (short :: rest) noEnd PendingLfn.initial
  rw [parseFrom_short _ normal] at parsed
  refine ⟨_, parsed, ?_⟩
  have chosen (before run : List Slot) (name : List Char) (split : front = before ++ run) (named : NamedBy run short name) :
      (front.foldl PendingLfn.advance PendingLfn.initial).locate short = ⟨short.1, short.2, name, run.map Prod.snd⟩ := by
    subst split
    have expected := parse_behind_run (fun slot member => noEnd slot (List.mem_append_left _ member)) named normal rest
    exact (List.cons.inj (List.append_cancel_left (parsed.symm.trans expected))).1
  generalize front.foldl PendingLfn.advance PendingLfn.initial = pending at known chosen
  have origin : (pending.locate short).entry = short.1 ∧ (pending.locate short).location = short.2 ∧
      ((pending.locate short).lfnLocations = [] ∧ (pending.locate short).name = getFilenameFromFat short.1.name ∨
        ∃ before run, front = before ++ run ∧ (pending.locate short).lfnLocations = run.map Prod.snd ∧
          NamedBy run short (pending.locate short).name) := by
    rw [PendingLfn.locate]
    cases named : pending.longName short.1.name with
    | none => exact ⟨rfl, rfl, .inl ⟨rfl, rfl⟩⟩
    | some name => exact ⟨rfl, rfl, .inr (known.longName named)⟩
  refine ⟨origin.1, origin.2.1, origin.2.2, ?_⟩
  intro before run name split named
  rw [chosen before run name split named]
  exact ⟨rfl, rfl⟩

end Parser

end BubbleOs.Fat
