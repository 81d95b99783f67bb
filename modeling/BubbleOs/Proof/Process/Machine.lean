import BubbleOs.Construction.Process.Descriptors

namespace BubbleOs

open Attempt

namespace Process

variable {D F : Type}

section Table

variable {process : Process D F} {fd : Nat} {descriptor : FileDescriptor F} {openFile : OpenFile F}

theorem getFd_eq_some_iff : process.getFd fd = some descriptor ↔ process.fdTable[fd]? = some (some descriptor) := by
  rw [getFd, Option.join_eq_some_iff]

/-- A descriptor that is open lies in the table. -/
theorem lt_of_getFd (found : process.getFd fd = some descriptor) : fd < process.fdTable.length :=
  (List.getElem?_eq_some_iff.mp (getFd_eq_some_iff.mp found)).1

/-- A replaced table entry changes its own descriptor only. -/
theorem getFd_set (inside : fd < process.fdTable.length) (entry : Option (FileDescriptor F)) (other : Nat) :
    getFd { process with fdTable := process.fdTable.set fd entry } other =
      if other = fd then entry else process.getFd other := by
  by_cases same : other = fd
  · subst same
    rw [if_pos rfl, getFd, List.getElem?_set_self inside]
    rfl
  · rw [if_neg same, getFd, List.getElem?_set_ne (fun equal => same equal.symm)]
    rfl

/-- A moved offset keeps every other descriptor and every other field of its own. -/
theorem getFd_moveOffset (found : process.getFd fd = some (.file openFile)) (offset other : Nat) :
    (process.moveOffset fd openFile offset).getFd other =
      if other = fd then some (.file { openFile with offset := offset }) else process.getFd other :=
  getFd_set (lt_of_getFd found) _ other

/-- An offset that stays changes nothing. -/
theorem moveOffset_self (found : process.getFd fd = some (.file openFile)) :
    process.moveOffset fd openFile openFile.offset = process := by
  have same : process.fdTable.set fd (some (.file openFile)) = process.fdTable := by
    apply List.ext_getElem?
    intro other
    by_cases here : other = fd
    · rw [here, List.getElem?_set_self (lt_of_getFd found), getFd_eq_some_iff.mp found]
    · rw [List.getElem?_set_ne fun equal => here equal.symm]
  exact congrArg (Process.mk process.currWorkingDir) same

/-- The reused descriptor is the first closed one after the standard streams. -/
theorem freeFd_some (found : process.freeFd = some fd) :
    3 ≤ fd ∧ fd < process.fdTable.length ∧ process.getFd fd = none ∧
      ∀ other, 3 ≤ other → other < fd → process.getFd other ≠ none := by
  rw [freeFd, List.find?_range'_eq_some] at found
  obtain ⟨closed, member, earlier⟩ := found
  rw [List.mem_range'_1] at member
  refine ⟨member.1, by omega, ?_, ?_⟩
  · rw [Option.isNone_iff_eq_none] at closed
    rw [getFd]
    cases entry : process.fdTable[fd]? with
    | none => rfl
    | some descriptor =>
      rw [entry] at closed
      exact closed
  · intro other low before isNone
    have used := earlier other low before
    rw [getFd] at isNone
    cases entry : process.fdTable[other]? with
    | none => simp [entry] at used
    | some descriptor =>
      rw [entry] at used isNone
      rw [show descriptor = none from isNone] at used
      simp at used

/-- Without a closed descriptor every entry after the standard streams is open. -/
theorem freeFd_none (missing : process.freeFd = none) (other : Nat) (low : 3 ≤ other)
    (inside : other < process.fdTable.length) : process.getFd other ≠ none := by
  rw [freeFd, List.find?_eq_none] at missing
  have used := missing other (by rw [List.mem_range'_1]; omega)
  intro isNone
  rw [getFd] at isNone
  rw [List.getElem?_eq_getElem inside] at used isNone
  rw [show process.fdTable[other] = none from isNone] at used
  simp at used

/-- Opening a file keeps every other descriptor. -/
theorem getFd_openFile (file : F) (readable writable : Bool) (other : Nat) :
    (process.openFile file readable writable).2.getFd other =
      if other = (process.openFile file readable writable).1 then some (.file ⟨file, 0, readable, writable⟩)
      else process.getFd other := by
  rw [openFile]
  cases found : process.freeFd with
  | some fd => exact getFd_set (freeFd_some found).2.1 _ other
  | none =>
    by_cases last : other = process.fdTable.length
    · rw [if_pos last, last, getFd, List.getElem?_append_right (Nat.le_refl _), Nat.sub_self]
      rfl
    · rw [if_neg last, getFd, getFd]
      by_cases inside : other < process.fdTable.length
      · rw [List.getElem?_append_left inside]
      · have old : process.fdTable[other]? = none := List.getElem?_eq_none (by omega)
        have past : process.fdTable.length ≤ other := by omega
        rw [old, List.getElem?_append_right past, List.getElem?_eq_none (by rw [List.length_singleton]; omega)]

/-- Opening a file uses the least closed descriptor after the standard streams. -/
theorem openFile_least (standard : 3 ≤ process.fdTable.length) (file : F) (readable writable : Bool) :
    3 ≤ (process.openFile file readable writable).1 ∧
      process.getFd (process.openFile file readable writable).1 = none ∧
      ∀ other, 3 ≤ other → other < (process.openFile file readable writable).1 → process.getFd other ≠ none := by
  rw [openFile]
  cases found : process.freeFd with
  | some fd =>
    obtain ⟨low, _, closed, least⟩ := freeFd_some found
    exact ⟨low, closed, least⟩
  | none =>
    have outside : process.fdTable[process.fdTable.length]? = none := List.getElem?_eq_none (Nat.le_refl _)
    exact ⟨standard, by rw [getFd, outside]; rfl, freeFd_none found⟩

theorem currWorkingDir_openFile (file : F) (readable writable : Bool) :
    (process.openFile file readable writable).2.currWorkingDir = process.currWorkingDir := by
  rw [openFile]
  split <;> rfl

/-- Closing a descriptor after the standard streams keeps the others. -/
theorem getFd_closeFd (fd other : Nat) :
    (process.closeFd fd).2.getFd other = if other = fd ∧ 3 ≤ fd then none else process.getFd other := by
  rw [closeFd]
  by_cases refused : fd < 3 ∨ fd ≥ process.fdTable.length
  · rw [if_pos refused]
    change process.getFd other = _
    by_cases same : other = fd ∧ 3 ≤ fd
    · rw [if_pos same, getFd, List.getElem?_eq_none (by omega)]
      rfl
    · rw [if_neg same]
  · rw [if_neg refused]
    have bounds : 3 ≤ fd ∧ fd < process.fdTable.length := by omega
    change getFd { process with fdTable := process.fdTable.set fd none } other = _
    rw [getFd_set bounds.2]
    by_cases same : other = fd
    · rw [if_pos same, if_pos ⟨same, bounds.1⟩]
    · rw [if_neg same, if_neg fun both => same both.1]

theorem currWorkingDir_closeFd (fd : Nat) : (process.closeFd fd).2.currWorkingDir = process.currWorkingDir := by
  rw [closeFd]
  split <;> rfl

end Table

section Calls

variable {S A : Type} {process : Process D F} {fd : Nat}

theorem withFile_found {openFile : OpenFile F} (opened : process.getFd fd = some (.file openFile))
    (call : OpenFile F → Attempt S A) : process.withFile fd call = call openFile := by
  rw [withFile, opened]

theorem withFile_other (other : ∀ openFile, process.getFd fd ≠ some (.file openFile))
    (call : OpenFile F → Attempt S A) : process.withFile fd call = fail := by
  rw [withFile]
  cases found : process.getFd fd with
  | none => rfl
  | some descriptor =>
    cases descriptor with
    | file openFile => exact absurd found (other openFile)
    | stdin | stdout | stderr => rfl

/-- A descriptor is an open file or it is not. -/
theorem isFile_or (process : Process D F) (fd : Nat) :
    (∃ openFile, process.getFd fd = some (.file openFile)) ∨ ∀ openFile, process.getFd fd ≠ some (.file openFile) := by
  by_cases isFile : ∃ openFile, process.getFd fd = some (.file openFile)
  · exact .inl isFile
  · exact .inr fun openFile opened => isFile ⟨openFile, opened⟩

variable [Fs.File S F] {openFile : OpenFile F} {bytes : List UInt8}

variable (opened : process.getFd fd = some (.file openFile)) (permitted : openFile.writable = true)
  (small : openFile.offset + bytes.length < usizeLimit)

include opened permitted small

/-- A write inside the file does not resize it. -/
theorem writeFd_inside {state after : S} {size count : Nat}
    (sized : Fs.File.size openFile.file state = (.value size, state)) (fits : openFile.offset + bytes.length ≤ size)
    (wrote : Fs.File.write openFile.file openFile.offset bytes state = (.value count, after)) :
    process.writeFd fd bytes state =
      (.value (count, process.moveOffset fd openFile (openFile.offset + count)), after) := by
  rw [writeFd, withFile_found opened, if_neg (by simp [permitted]), if_neg (Nat.not_le_of_lt small),
    bind_value sized, if_neg (Nat.not_lt_of_le fits)]
  exact bind_value wrote _

/-- A write past the end resizes the file before. -/
theorem writeFd_outside {state : S} {size : Nat} (sized : Fs.File.size openFile.file state = (.value size, state))
    (grows : size < openFile.offset + bytes.length) :
    process.writeFd fd bytes state = (do
      Fs.File.truncate openFile.file (openFile.offset + bytes.length)
      let bytesWritten ← Fs.File.write openFile.file openFile.offset bytes
      pure (bytesWritten, process.moveOffset fd openFile (openFile.offset + bytesWritten)) :
        Attempt S (Nat × Process D F)) state := by
  rw [writeFd, withFile_found opened, if_neg (by simp [permitted]), if_neg (Nat.not_le_of_lt small),
    bind_value sized, if_pos grows]

end Calls

end Process

open Text

/-- A file holds bytes: a write inside them succeeds, and a refused resize keeps them. -/
structure ByteFile (S F : Type) [Fs.File S F] where
  Holds : S → F → List UInt8 → Prop
  read : ∀ {state file contents}, Holds state file contents → Fs.File.read file state = (.value contents, state)
  size : ∀ {state file contents}, Holds state file contents →
    Fs.File.size file state = (.value contents.length, state)
  write : ∀ {state file contents}, Holds state file contents → ∀ offset bytes,
    offset + bytes.length ≤ contents.length → ∃ after,
      Fs.File.write file offset bytes state = (.value bytes.length, after) ∧
        Holds after file (overwrite contents offset bytes)
  truncate : ∀ {state file contents}, Holds state file contents → ∀ size, ∃ after,
    Fs.File.truncate file size state = (.missing, after) ∧ Holds after file contents ∨
      Fs.File.truncate file size state = (.value (), after) ∧
        Holds after file ((contents ++ List.replicate size 0).take size)

namespace Machine

section Answer

variable {S D F A : Type} {machine : Machine S D F} {failed : A} {call : Attempt S (A × Process D F)}

theorem answer_value {result : A × Process D F} {after : S} (returned : call machine.files = (.value result, after)) :
    machine.answer failed call = (result.1, ⟨result.2, after⟩) := by
  rw [answer, returned]

theorem answer_missing {after : S} (returned : call machine.files = (.missing, after)) :
    machine.answer failed call = (failed, ⟨machine.process, after⟩) := by
  rw [answer, returned]

end Answer

variable {S D F : Type} [Fs.File S F]

/-- A descriptor is open at an offset of a file with these contents. -/
structure Opens (laws : ByteFile S F) (machine : Machine S D F) (fd : Nat) (openFile : OpenFile F)
    (contents : List UInt8) : Prop where
  writable : openFile.writable = true
  entry : machine.process.getFd fd = some (.file openFile)
  holds : laws.Holds machine.files openFile.file contents

variable [Fs.Lookup S D F] {laws : ByteFile S F} {machine : Machine S D F} {fd : Nat} {openFile : OpenFile F}
  {contents : List UInt8}

omit [Fs.Lookup S D F] in
/-- A call that moves the offset leaves the descriptor open. -/
theorem Opens.moved (opens : Opens laws machine fd openFile contents) {after : S} {next : List UInt8} (offset : Nat)
    (holds : laws.Holds after openFile.file next) :
    Opens laws ⟨machine.process.moveOffset fd openFile offset, after⟩ fd { openFile with offset := offset } next :=
  ⟨opens.writable, (Process.getFd_moveOffset opens.entry offset fd).trans (if_pos rfl), holds⟩

/-- A resize changes the contents of the file, or it is refused and keeps them. -/
theorem Opens.truncate (opens : Opens laws machine fd openFile contents) (size : Nat) :
    ∃ after, Ulib.truncate fd size machine = (false, after) ∧ Opens laws after fd openFile contents ∨
      Ulib.truncate fd size machine = (true, after) ∧
        Opens laws after fd { openFile with offset := min openFile.offset size }
          ((contents ++ List.replicate size 0).take size) := by
  have unfolded : machine.process.truncateFd fd size = (do
      Fs.File.truncate openFile.file size
      pure (machine.process.moveOffset fd openFile (min openFile.offset size)) : Attempt S (Process D F)) := by
    rw [Process.truncateFd, Process.withFile_found opens.entry, opens.writable]
    rfl
  obtain ⟨after, ⟨refused, kept⟩ | ⟨returned, resized⟩⟩ := laws.truncate opens.holds size
  · refine ⟨⟨machine.process, after⟩, .inl ⟨?_, opens.writable, opens.entry, kept⟩⟩
    apply answer_missing
    rw [unfolded]
    exact bind_missing (bind_missing refused _) _
  · refine ⟨_, .inr ⟨?_, opens.moved (min openFile.offset size) resized⟩⟩
    refine @answer_value S D F Bool machine false _ (true, _) after ?_
    rw [unfolded]
    exact bind_value (bind_value returned _) _

/-- A write at the start of the file replaces its first bytes, or it does not fit and keeps them. -/
theorem Opens.write (opens : Opens laws machine fd openFile contents) (start : openFile.offset = 0)
    (bytes : List UInt8) :
    ∃ after, Ulib.write fd bytes machine = (0, after) ∧ bytes ≠ [] ∧ Opens laws after fd openFile contents ∨
      Ulib.write fd bytes machine = (bytes.length, after) ∧
        Opens laws after fd { openFile with offset := bytes.length } (bytes ++ contents.drop bytes.length) := by
  have call : Ulib.write fd bytes machine = machine.answer 0 (machine.process.writeFd fd bytes) := by
    simp only [Ulib.write, opens.entry]
  have stop : openFile.offset + bytes.length = bytes.length := by omega
  rw [call]
  by_cases small : openFile.offset + bytes.length < Process.usizeLimit
  · by_cases inside : openFile.offset + bytes.length ≤ contents.length
    · obtain ⟨after, returned, written⟩ := laws.write opens.holds _ bytes inside
      have wrote := Process.writeFd_inside opens.entry opens.writable small (laws.size opens.holds) inside returned
      rw [overwrite, stop, start, List.take_zero, List.nil_append] at written
      rw [answer_value wrote, stop]
      exact ⟨_, .inr ⟨rfl, opens.moved bytes.length written⟩⟩
    · have outside := Process.writeFd_outside opens.entry opens.writable small (laws.size opens.holds)
        (Nat.lt_of_not_le inside)
      rw [stop] at inside outside
      obtain ⟨grown, ⟨refused, kept⟩ | ⟨resized, longer⟩⟩ := laws.truncate opens.holds bytes.length
      · refine ⟨_, .inl ⟨answer_missing (outside.trans (bind_missing refused _)), ?_,
          opens.writable, opens.entry, kept⟩⟩
        rintro rfl
        exact inside (Nat.zero_le _)
      · have length : ((contents ++ List.replicate bytes.length 0).take bytes.length).length = bytes.length := by
          simp only [List.length_take, List.length_append, List.length_replicate]
          omega
        have past : contents.drop bytes.length = [] := List.drop_eq_nil_of_le (by omega)
        obtain ⟨after, returned, written⟩ := laws.write longer openFile.offset bytes (by rw [length, stop])
        rw [start, overwrite_full _ _ length.symm] at written
        rw [answer_value (outside.trans ((bind_value resized _).trans (bind_value returned _))), stop, past,
          List.append_nil]
        exact ⟨_, .inr ⟨rfl, opens.moved bytes.length written⟩⟩
  · refine ⟨_, .inl ⟨answer_missing ?_, ?_, opens.writable, opens.entry, opens.holds⟩⟩
    · rw [Process.writeFd, Process.withFile_found opens.entry, if_neg (by simp [opens.writable]),
        if_pos (Nat.le_of_not_lt small)]
      rfl
    · rintro rfl
      exact small (by rw [stop]; decide)

/-- A path leads to the file or to none, and its lookup keeps the files. -/
def LeadsTo (machine : Machine S D F) (path : List UInt8) (file : F) : Prop :=
  ∀ name, fromUtf8 path = some name →
    (Fs.Lookup.findFileFromPath machine.process.currWorkingDir (trim name) machine.files : Outcome F × S).2 =
      machine.files ∧
    ∀ found, (Fs.Lookup.findFileFromPath machine.process.currWorkingDir (trim name) machine.files : Outcome F × S).1 =
      .value found → found = file

/-- An opened path gives a descriptor at the start of its file. -/
theorem LeadsTo.opened {path : List UInt8} {file : F} (leads : machine.LeadsTo path file)
    (standard : 3 ≤ machine.process.fdTable.length) (holds : laws.Holds machine.files file contents) :
    Ulib.openFile path machine = (0, machine) ∨
      ∃ fd after, Ulib.openFile path machine = (fd, after) ∧ fd ≠ 0 ∧
        Opens laws after fd ⟨file, 0, true, true⟩ contents := by
  cases decoded : fromUtf8 path with
  | none =>
    left
    simp only [Ulib.openFile, decoded]
  | some name =>
    obtain ⟨kept, same⟩ := leads name decoded
    have call : Ulib.openFile path machine = machine.answer 0 (do
        let file ← Fs.Lookup.findFileFromPath machine.process.currWorkingDir (trim name)
        pure (machine.process.openFile file true true)) := by
      simp only [Ulib.openFile, decoded]
    rw [call]
    cases found : (Fs.Lookup.findFileFromPath machine.process.currWorkingDir (trim name) machine.files :
        Outcome F × S) with
    | mk outcome after =>
      rw [found] at kept same
      obtain rfl : after = machine.files := kept
      cases outcome with
      | value other =>
        obtain rfl : other = file := same other rfl
        obtain ⟨low, _, _⟩ := Process.openFile_least standard other true true
        refine .inr ⟨_, _, answer_value (bind_value found _), by omega, rfl, ?_, holds⟩
        exact (Process.getFd_openFile other true true _).trans (if_pos rfl)
      | missing => exact .inl (answer_missing (bind_missing found _))
      | hang =>
        left
        rw [answer, bind_hang found]

end Machine

end BubbleOs
