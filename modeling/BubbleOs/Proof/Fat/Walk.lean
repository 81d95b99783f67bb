import BubbleOs.Proof.Fat.Path
import Mathlib.Data.List.Induction
import BubbleOs.Library.Utf8

namespace BubbleOs

open Attempt Fat FATFileSystem Fs Text

section Stack

/-- A component moves along a stack of names. -/
def stackStep (stack : List Component) (component : Component) : List Component :=
  if component = [] ∨ component = dotComponent then stack
  else if component = parentComponent then stack.dropLast
  else stack ++ [component]

/-- This component names an entry that is not a dot directory. -/
def IsName (component : Component) : Prop :=
  component ≠ [] ∧ component ≠ dotComponent ∧ component ≠ parentComponent

theorem stackStep_name {component : Component} (name : IsName component) (stack : List Component) :
    stackStep stack component = stack ++ [component] := by
  rw [stackStep, if_neg (not_or.mpr ⟨name.1, name.2.1⟩), if_neg name.2.2]

theorem stackStep_parent (stack : List Component) : stackStep stack parentComponent = stack.dropLast := by
  rw [stackStep, if_neg (by decide), if_pos rfl]

/-- A normalised component moves the stack as the list before it did. -/
theorem foldl_pushComponent {normal : List Component} (proper : ∀ component ∈ normal, component ≠ [] ∧
    component ≠ dotComponent) (component : Component) (stack : List Component) :
    (pushComponent normal component).foldl stackStep stack = stackStep (normal.foldl stackStep stack) component ∧
      ∀ other ∈ pushComponent normal component, other ≠ [] ∧ other ≠ dotComponent := by
  rw [pushComponent]
  by_cases empty : component = [] ∨ component = dotComponent
  · rw [if_pos empty, stackStep, if_pos empty]
    exact ⟨rfl, proper⟩
  · have appended : (normal ++ [component]).foldl stackStep stack = stackStep (normal.foldl stackStep stack) component ∧
        ∀ other ∈ normal ++ [component], other ≠ [] ∧ other ≠ dotComponent := by
      refine ⟨by rw [List.foldl_append, List.foldl_cons, List.foldl_nil], fun other member => ?_⟩
      rcases List.mem_append.mp member with earlier | last
      · exact proper other earlier
      · rw [List.mem_singleton.mp last]
        exact not_or.mp empty
    rw [if_neg empty]
    by_cases parent : component = parentComponent
    · rw [if_pos parent]
      cases end_ : normal.getLast? with
      | none => exact appended
      | some last =>
        obtain ⟨front, rfl⟩ := List.getLast?_eq_some_iff.mp end_
        by_cases again : last = parentComponent
        · simp only [again, if_true]
          rw [← again]
          exact appended
        · simp only [again, if_false]
          have name : IsName last := ⟨(proper last (by simp)).1, (proper last (by simp)).2, again⟩
          rw [List.dropLast_concat, List.foldl_append, List.foldl_cons, List.foldl_nil, stackStep_name name, parent,
            stackStep_parent, List.dropLast_concat]
          exact ⟨rfl, fun other member => proper other (List.mem_append_left _ member)⟩
    · rw [if_neg parent]
      exact appended

/-- Normalisation keeps the move of a path, and its result has names and parent components only. -/
theorem foldl_normalize (components : List Component) (stack : List Component) :
    (components.foldl pushComponent []).foldl stackStep stack = components.foldl stackStep stack ∧
      ∀ other ∈ components.foldl pushComponent [], other ≠ [] ∧ other ≠ dotComponent := by
  induction components using List.reverseRecOn with
  | nil => exact ⟨rfl, by simp⟩
  | append_singleton earlier last ih =>
    rw [List.foldl_append, List.foldl_append, List.foldl_cons, List.foldl_nil, List.foldl_cons, List.foldl_nil]
    obtain ⟨moves, proper⟩ := foldl_pushComponent ih.2 last stack
    rw [moves, ih.1]
    exact ⟨rfl, proper⟩

end Stack

namespace Fat.FATDirectory

variable [Unicode]

/-- A walk finds one directory after the other. -/
def walk (fs : Volume) : List Component → FATDirectory → Option FATDirectory
  | [], dir => some dir
  | component :: rest, dir =>
    match (dir.findDirectory component fs).1 with
    | .value child => walk fs rest child
    | _ => none

variable {fs : Volume} {reserved : Nat → UInt32 → Prop}

theorem walk_append (first second : List Component) (dir : FATDirectory) :
    walk fs (first ++ second) dir = (walk fs first dir).bind (walk fs second) := by
  induction first generalizing dir with
  | nil => rfl
  | cons component rest ih =>
    rw [List.cons_append, walk, walk]
    cases (dir.findDirectory component fs).1 with
    | value child => exact ih child
    | missing | hang => rfl

theorem walk_cons {component : Component} {rest : List Component} {dir last : FATDirectory}
    (walked : walk fs (component :: rest) dir = some last) :
    ∃ child, (dir.findDirectory component fs).1 = .value child ∧ walk fs rest child = some last := by
  rw [walk] at walked
  cases found : (dir.findDirectory component fs).1 with
  | value child =>
    rw [found] at walked
    exact ⟨child, rfl, walked⟩
  | missing | hang =>
    rw [found] at walked
    contradiction

/-- The first cluster decides what a handle finds. -/
theorem findDirectory_congr (well : WellFormed reserved fs) {dir other : FATDirectory} (live : dir.Live fs)
    (same : fs.directoryCluster other.entry = fs.directoryCluster dir.entry) (component : Component) :
    other.findDirectory component fs = dir.findDirectory component fs := by
  have here : LiveDirectory fs (fs.directoryCluster dir.entry) := live
  obtain ⟨clusters, chain, _⟩ := well.directories _ here
  have otherChain := chain
  rw [← same] at otherChain
  rw [findDirectory_chain well.geometry chain, findDirectory_chain well.geometry otherChain]

section Live

variable (well : WellFormed reserved fs) (dots : DotsLead fs)

include well dots

variable {components : List Component}

/-- The components of a path are a walk. -/
theorem findDirectoryComponents_walk (some : components ≠ []) {dir : FATDirectory} (live : dir.Live fs) :
    dir.findDirectoryComponents components fs = ofOption (walk fs components dir) fs := by
  induction components generalizing dir with
  | nil => exact absurd rfl some
  | cons next rest ih =>
    rw [findDirectoryComponents, walk]
    rcases findDirectory_live well dots live next with missing | ⟨child, found, childLive⟩
    · rw [bind_missing missing, missing]
      rfl
    · rw [bind_value found, found]
      cases rest with
      | nil => rfl
      | cons second later => exact ih (by simp) childLive

theorem walk_live {dir last : FATDirectory} (live : dir.Live fs) (walked : walk fs components dir = some last) :
    last.Live fs := by
  induction components generalizing dir with
  | nil =>
    obtain rfl : dir = last := Option.some.inj walked
    exact live
  | cons next rest ih =>
    obtain ⟨child, found, later⟩ := walk_cons walked
    rcases findDirectory_live well dots live next with missing | ⟨other, value, childLive⟩
    · rw [missing] at found
      contradiction
    · rw [value, Outcome.value.injEq] at found
      rw [← found] at later
      exact ih childLive later

end Live

end Fat.FATDirectory

namespace Fat.FATFileSystem

/-- The dot directories and no other entries have the dot names. -/
def DotsNamed [Unicode] (fs : Volume) : Prop :=
  ∀ dir clusters, LiveDirectory fs dir → FatBuffer.FileChain fs.fat dir clusters →
    ∀ located ∈ parseDirectoryEntries (fs.dirSlots clusters),
      (located.name = dotComponent ↔ located.entry.name = dotName false) ∧
        (located.name = parentComponent ↔ located.entry.name = dotName true)

/-- The fresh volume has no names. -/
theorem dotsNamed_freshVolume : @DotsNamed asciiTables freshVolume := by
  intro dir clusters live chain located parsed
  rw [liveDirectory_freshVolume live] at chain
  rw [chain.unique fileChain_freshVolume, @parseDirectoryEntries_ends asciiTables _ ends_freshVolume] at parsed
  exact absurd parsed List.not_mem_nil

section Parents

variable {reserved : Nat → UInt32 → Prop} {fs : Volume} (well : WellFormed reserved fs)

include well

/-- A directory has one parent. -/
theorem WellFormed.child_unique {first second dir : Nat} (firstLive : LiveDirectory fs first)
    (secondLive : LiveDirectory fs second) (child : Child fs first dir) (other : Child fs second dir) :
    first = second := by
  obtain ⟨slot, entry, directory, rfl⟩ := child
  obtain ⟨otherSlot, otherEntry, _, same⟩ := other
  obtain ⟨clusters, chain⟩ := well.directory_chain ⟨first, firstLive, entry⟩ directory
  have equal := well.entry_unique ⟨first, firstLive, entry⟩ ⟨second, secondLive, otherEntry⟩ same.symm chain
  rw [← equal] at otherEntry
  exact well.entryIn_unique firstLive secondLive entry otherEntry

/-- The root has no parent. -/
theorem WellFormed.root_not_child {dir : Nat} (live : LiveDirectory fs dir) : ¬ Child fs dir fs.root.getCluster := by
  rintro ⟨slot, entry, directory, same⟩
  obtain ⟨clusters, chain⟩ := well.directory_chain ⟨dir, live, entry⟩ directory
  have rootChain := chain
  rw [same] at rootChain
  have equal := well.separate (.entry slot) .root clusters clusters ⟨⟨dir, live, entry⟩, chain⟩ ⟨trivial, rootChain⟩ _
    chain.first_mem chain.first_mem
  exact Owner.noConfusion equal

end Parents

end Fat.FATFileSystem

section Dots

/-- A name without letters equals only itself without regard to case. -/
theorem eq_of_eqIgnoreAsciiCase {name dotted : List Char} (dots : ∀ char ∈ dotted, char = '.')
    (same : eqIgnoreAsciiCase name dotted = true) : name = dotted := by
  rw [eqIgnoreAsciiCase, beq_iff_eq] at same
  induction dotted generalizing name with
  | nil => exact List.map_eq_nil_iff.mp same
  | cons first rest ih =>
    cases name with
    | nil => cases same
    | cons char later =>
      rw [List.map_cons, List.map_cons, List.cons.injEq] at same
      have point : first = '.' := dots first List.mem_cons_self
      have code := congrArg Char.toNat same.1
      rw [point, toNat_toLower, toNat_toLower] at code
      have value : char.toNat = 46 := by
        rw [show ('.' : Char).toNat = 46 from rfl, if_neg (by decide : ¬ (65 ≤ 46 ∧ 46 ≤ 90))] at code
        split at code <;> omega
      rw [point, ih (fun other member => dots other (List.mem_cons_of_mem _ member)) same.2]
      exact congrArg (· :: rest) (Char.ext (UInt32.toNat.inj value))

end Dots

namespace Fat.FATDirectory

section Steps

variable [Unicode] {reserved : Nat → UInt32 → Prop} {fs : Volume} (well : WellFormed reserved fs)
  (dots : DotsLead fs) (named : DotsNamed fs) {dir child : FATDirectory} (live : dir.Live fs)

include well live

/-- A directory that is found is one of the parsed entries with that name. -/
theorem findDirectory_parsed {component : Component} (found : (dir.findDirectory component fs).1 = .value child) :
    ∃ clusters, FatBuffer.FileChain fs.fat (fs.directoryCluster dir.entry) clusters ∧
      ∃ located ∈ parseDirectoryEntries (fs.dirSlots clusters), located.entry.isDirectory = true ∧
        child = ⟨located.entry, located.name⟩ ∧ eqIgnoreAsciiCase located.name component = true := by
  have here : LiveDirectory fs (fs.directoryCluster dir.entry) := live
  obtain ⟨clusters, chain, _⟩ := well.directories _ here
  rw [findDirectory_chain well.geometry chain] at found
  refine ⟨clusters, chain, ?_⟩
  cases first : (subdirectories (fs.dirSlots clusters)).find? fun child => eqIgnoreAsciiCase child.name component with
  | none =>
    rw [first] at found
    contradiction
  | some handle =>
    rw [first] at found
    obtain rfl : handle = child := Outcome.value.inj found
    obtain ⟨located, member, rfl⟩ := List.mem_map.mp (List.mem_of_find?_eq_some first)
    obtain ⟨parsed, directory⟩ := List.mem_filter.mp member
    have matched := List.find?_some first
    exact ⟨located, parsed, directory, rfl, matched⟩

include named

/-- A name leads to a child. -/
theorem findDirectory_name {component : Component} (name : IsName component)
    (found : (dir.findDirectory component fs).1 = .value child) :
    Child fs (fs.directoryCluster dir.entry) (fs.directoryCluster child.entry) := by
  obtain ⟨clusters, chain, located, parsed, directory, rfl, matched⟩ := findDirectory_parsed well live found
  have here : LiveDirectory fs (fs.directoryCluster dir.entry) := live
  obtain ⟨self, parent⟩ := named _ clusters here chain located parsed
  have listed := mem_liveSlots_of_parsed parsed
  have different (dotted : List Char) (points : ∀ char ∈ dotted, char = '.') (same : located.name = dotted) :
      component = dotted := by
    refine eq_of_eqIgnoreAsciiCase points ?_
    rw [same, eqIgnoreAsciiCase, beq_iff_eq] at matched
    rw [eqIgnoreAsciiCase, beq_iff_eq]
    exact matched.symm
  have plain : isDotName located.entry.name = false := by
    rw [isDotName, Bool.or_eq_false_iff, beq_eq_false_iff_ne, beq_eq_false_iff_ne]
    refine ⟨fun same => name.2.1 (different _ (by simp [dotComponent]) (self.mpr same)), fun same => ?_⟩
    exact name.2.2 (different _ (by simp [parentComponent]) (parent.mpr same))
  have entry : EntryIn fs (fs.directoryCluster dir.entry) (located.entry, located.location) :=
    ⟨clusters, chain, listed, plain⟩
  obtain ⟨others, otherChain⟩ := well.directory_chain ⟨_, here, entry⟩ directory
  have first : fs.directoryCluster located.entry = located.entry.getCluster := if_neg otherChain.ne_zero
  exact ⟨(located.entry, located.location), entry, directory, first.symm⟩

include dots

/-- The parent component leads to the parent. -/
theorem findDirectory_parent (found : (dir.findDirectory parentComponent fs).1 = .value child) :
    Child fs (fs.directoryCluster child.entry) (fs.directoryCluster dir.entry) := by
  obtain ⟨clusters, chain, located, parsed, directory, rfl, matched⟩ := findDirectory_parsed well live found
  have here : LiveDirectory fs (fs.directoryCluster dir.entry) := live
  have same := eq_of_eqIgnoreAsciiCase (by simp [parentComponent]) matched
  have dotted := (named _ clusters here chain located parsed).2.mp same
  have listed := mem_liveSlots_of_parsed parsed
  have leads := (dots _ clusters here chain _ listed).2 dotted
  exact leads.2

end Steps

section Stack

variable [Unicode] {reserved : Nat → UInt32 → Prop} {fs : Volume} (well : WellFormed reserved fs)
  (dots : DotsLead fs) (named : DotsNamed fs) {root : FATDirectory} (rootLive : root.Live fs)
  (rootCluster : fs.directoryCluster root.entry = fs.root.getCluster)

include well dots named rootLive rootCluster

/-- A walk from the end of a stack of names ends where the moved stack leads. -/
theorem walk_stack {components : List Component} (proper : ∀ component ∈ components, component ≠ [] ∧
    component ≠ dotComponent) {stack : List Component} (names : ∀ component ∈ stack, IsName component)
    {top dir last : FATDirectory} (reached : walk fs stack root = some top)
    (same : fs.directoryCluster dir.entry = fs.directoryCluster top.entry)
    (walked : walk fs components dir = some last) :
    (∀ component ∈ components.foldl stackStep stack, IsName component) ∧
      ∃ final, walk fs (components.foldl stackStep stack) root = some final ∧
        fs.directoryCluster last.entry = fs.directoryCluster final.entry := by
  induction components generalizing stack top dir with
  | nil =>
    obtain rfl : dir = last := Option.some.inj walked
    exact ⟨names, top, reached, same⟩
  | cons component rest ih =>
    obtain ⟨child, found, later⟩ := walk_cons walked
    have topLive := walk_live well dots rootLive reached
    rw [findDirectory_congr well topLive same] at found
    have properRest := fun other member => proper other (List.mem_cons_of_mem _ member)
    rw [List.foldl_cons]
    by_cases parent : component = parentComponent
    · rw [parent] at found ⊢
      rw [stackStep_parent]
      have up := findDirectory_parent well dots named topLive found
      rcases List.eq_nil_or_concat stack with rfl | ⟨front, name, rfl⟩
      · obtain rfl : root = top := Option.some.inj reached
        rw [rootCluster] at up
        rcases findDirectory_live well dots topLive parentComponent with missing | ⟨other, value, childLive⟩
        · rw [missing] at found
          contradiction
        · rw [value, Outcome.value.injEq] at found
          rw [found] at childLive
          exact absurd up (well.root_not_child childLive)
      · rw [List.concat_eq_append] at names reached ⊢
        rw [walk_append] at reached
        obtain ⟨above, walkedFront, final⟩ := Option.bind_eq_some_iff.mp reached
        obtain ⟨below, stepped, ended⟩ := walk_cons final
        obtain rfl : below = top := Option.some.inj ended
        have aboveLive := walk_live well dots rootLive walkedFront
        have down := findDirectory_name well named aboveLive (names name (by simp)) stepped
        have childLive : child.Live fs := by
          rcases findDirectory_live well dots topLive parentComponent with missing | ⟨other, value, childLive⟩
          · rw [missing] at found
            contradiction
          · rw [value, Outcome.value.injEq] at found
            rw [← found]
            exact childLive
        have sameParent := well.child_unique childLive aboveLive up down
        rw [List.dropLast_concat]
        exact ih properRest (fun other member => names other (List.mem_append_left _ member)) walkedFront sameParent
          later
    · have name : IsName component :=
        ⟨(proper component List.mem_cons_self).1, (proper component List.mem_cons_self).2, parent⟩
      rw [stackStep_name name]
      have longer : walk fs (stack ++ [component]) root = some child := by
        rw [walk_append, reached, Option.bind_some, walk, found]
        rfl
      refine ih properRest ?_ longer rfl later
      intro other member
      rcases List.mem_append.mp member with earlier | isLast
      · exact names other earlier
      · rw [List.mem_singleton.mp isLast]
        exact name

end Stack

end Fat.FATDirectory

section Push

variable {component : Component} {components : List Component}

theorem pushComponent_stays (stays : component = [] ∨ component = dotComponent) (normal : List Component) :
    pushComponent normal component = normal := if_pos stays

theorem pushComponent_name (name : IsName component) (normal : List Component) :
    pushComponent normal component = normal ++ [component] := by
  rw [pushComponent, if_neg (not_or.mpr ⟨name.1, name.2.1⟩), if_neg name.2.2]

/-- A parent component takes the last name back. -/
theorem pushComponent_back {last : Component} (other : last ≠ parentComponent) (front : List Component) :
    pushComponent (front ++ [last]) parentComponent = front := by
  rw [pushComponent, if_neg (by decide), if_pos rfl, List.getLast?_concat]
  simp only [other, if_false, List.dropLast_concat]

/-- Parent components stay in front of the names. -/
theorem pushComponent_parents (count : Nat) :
    pushComponent (List.replicate count parentComponent) parentComponent =
      List.replicate (count + 1) parentComponent := by
  rw [List.replicate_succ', pushComponent, if_neg (by decide), if_pos rfl]
  cases count with
  | zero => rfl
  | succ count =>
    rw [List.replicate_succ', List.getLast?_concat]
    exact if_pos rfl

/-- Every component stays, leads to the parent or is a name. -/
theorem component_cases (component : Component) :
    (component = [] ∨ component = dotComponent) ∨ component = parentComponent ∨ IsName component := by
  by_cases stays : component = [] ∨ component = dotComponent
  · exact .inl stays
  · by_cases parent : component = parentComponent
    · exact .inr (.inl parent)
    · exact .inr (.inr ⟨(not_or.mp stays).1, (not_or.mp stays).2, parent⟩)

/-- Normal components lead to a parent a number of times and then to names. -/
def Normal (components : List Component) : Prop :=
  ∃ count names, components = List.replicate count parentComponent ++ names ∧
    ∀ name ∈ names, IsName name ∧ '/' ∉ name

theorem Normal.push {normal : List Component} (holds : Normal normal) (whole : '/' ∉ component) :
    Normal (pushComponent normal component) := by
  obtain ⟨count, names, rfl, proper⟩ := holds
  rcases component_cases component with stays | rfl | name
  · rw [pushComponent_stays stays]
    exact ⟨count, names, rfl, proper⟩
  · rcases List.eq_nil_or_concat names with rfl | ⟨front, last, rfl⟩
    · rw [List.append_nil, pushComponent_parents]
      exact ⟨count + 1, [], (List.append_nil _).symm, by simp⟩
    · rw [List.concat_eq_append] at proper ⊢
      rw [← List.append_assoc, pushComponent_back (proper last (by simp)).1.2.2]
      exact ⟨count, front, rfl, fun name member => proper name (List.mem_append_left _ member)⟩
  · rw [pushComponent_name name, List.append_assoc]
    refine ⟨count, names ++ [component], rfl, ?_⟩
    intro other member
    rcases List.mem_append.mp member with earlier | last
    · exact proper other earlier
    · rw [List.mem_singleton.mp last]
      exact ⟨name, whole⟩

/-- Normalisation ends with normal components. -/
theorem normal_foldl {components normal : List Component} (whole : ∀ component ∈ components, '/' ∉ component)
    (holds : Normal normal) : Normal (components.foldl pushComponent normal) := by
  induction components generalizing normal with
  | nil => exact holds
  | cons component rest ih =>
    exact ih (fun other member => whole other (List.mem_cons_of_mem _ member))
      (holds.push (whole component List.mem_cons_self))

theorem normal_normalize (path : List Char) : Normal (normalizePathComponents path) :=
  normal_foldl (fun _ member => not_mem_of_mem_splitOn member) ⟨0, [], rfl, by simp⟩

theorem foldl_push_parents (first second : Nat) :
    (List.replicate second parentComponent).foldl pushComponent (List.replicate first parentComponent) =
      List.replicate (first + second) parentComponent := by
  induction second generalizing first with
  | zero => rfl
  | succ second ih =>
    rw [List.replicate_succ, List.foldl_cons, pushComponent_parents, ih, Nat.add_right_comm, Nat.add_assoc]

theorem foldl_push_names {names : List Component} (proper : ∀ name ∈ names, IsName name) (normal : List Component) :
    names.foldl pushComponent normal = normal ++ names := by
  induction names generalizing normal with
  | nil => exact (List.append_nil _).symm
  | cons name rest ih =>
    rw [List.foldl_cons, pushComponent_name (proper name List.mem_cons_self),
      ih fun other member => proper other (List.mem_cons_of_mem _ member), List.append_assoc]
    rfl

/-- Normal components are not changed by another normalisation. -/
theorem Normal.foldl_push (holds : Normal components) : components.foldl pushComponent [] = components := by
  obtain ⟨count, names, rfl, proper⟩ := holds
  have parents := foldl_push_parents 0 count
  rw [Nat.zero_add] at parents
  rw [List.foldl_append]
  change names.foldl pushComponent ((List.replicate count parentComponent).foldl pushComponent
    (List.replicate 0 parentComponent)) = _
  rw [parents, foldl_push_names fun name member => (proper name member).1]

/-- The joined components are normalised to themselves. -/
theorem Normal.normalize_join (holds : Normal components) :
    normalizePathComponents (['/'].intercalate components) = components := by
  by_cases empty : components = []
  · subst empty
    rfl
  · have whole : ∀ component ∈ components, '/' ∉ component := by
      obtain ⟨count, names, rfl, proper⟩ := holds
      intro component member
      rcases List.mem_append.mp member with parent | name
      · rw [List.eq_of_mem_replicate parent]
        decide
      · exact (proper component name).2
    rw [normalizePathComponents, List.splitOn_intercalate '/' whole empty]
    exact holds.foldl_push

end Push

namespace Fat.FATDirectory

variable [Unicode] {fs : Volume} {component : Component}

/-- A path is followed component by component, and an empty component and a dot stay in their directory. -/
def walkPath (fs : Volume) : List Component → FATDirectory → Option FATDirectory
  | [], dir => some dir
  | component :: rest, dir =>
    if component = [] ∨ component = dotComponent then walkPath fs rest dir
    else
      match (dir.findDirectory component fs).1 with
      | .value child => walkPath fs rest child
      | _ => none

theorem walkPath_stays (stays : component = [] ∨ component = dotComponent) (rest : List Component)
    (dir : FATDirectory) : walkPath fs (component :: rest) dir = walkPath fs rest dir :=
  if_pos stays

theorem walkPath_cons (moves : ¬ (component = [] ∨ component = dotComponent)) {rest : List Component}
    {dir last : FATDirectory} (walked : walkPath fs (component :: rest) dir = some last) :
    ∃ child, (dir.findDirectory component fs).1 = .value child ∧ walkPath fs rest child = some last := by
  rw [walkPath, if_neg moves] at walked
  cases found : (dir.findDirectory component fs).1 with
  | value child =>
    rw [found] at walked
    exact ⟨child, rfl, walked⟩
  | missing | hang =>
    rw [found] at walked
    contradiction

section Target

variable {reserved : Nat → UInt32 → Prop} {fs : Volume} (well : WellFormed reserved fs) (dots : DotsLead fs)
  {start top dir child : FATDirectory} (startLive : start.Live fs)

include well dots startLive

/-- A walk goes on from every handle of the directory that it has reached. -/
theorem walk_snoc {normal : List Component} (reached : walk fs normal start = some top)
    (same : fs.directoryCluster dir.entry = fs.directoryCluster top.entry) {component : Component}
    (found : (dir.findDirectory component fs).1 = .value child) :
    walk fs (normal ++ [component]) start = some child := by
  rw [findDirectory_congr well (walk_live well dots startLive reached) same] at found
  rw [walk_append, reached, Option.bind_some, walk, found]
  rfl

variable (named : DotsNamed fs)

include named

/-- A parent component leads back to the directory in which the last name was found. -/
theorem walk_back {front : List Component} {name : Component} (isName : IsName name)
    (reached : walk fs (front ++ [name]) start = some top)
    (same : fs.directoryCluster dir.entry = fs.directoryCluster top.entry)
    (found : (dir.findDirectory parentComponent fs).1 = .value child) :
    ∃ above, walk fs front start = some above ∧ fs.directoryCluster child.entry = fs.directoryCluster above.entry := by
  have topLive := walk_live well dots startLive reached
  have childLive := walk_live well dots startLive (walk_snoc well dots startLive reached same found)
  rw [findDirectory_congr well topLive same] at found
  rw [walk_append] at reached
  obtain ⟨above, walkedFront, final⟩ := Option.bind_eq_some_iff.mp reached
  obtain ⟨below, stepped, ended⟩ := walk_cons final
  obtain rfl : below = top := Option.some.inj ended
  have aboveLive := walk_live well dots startLive walkedFront
  have up := findDirectory_parent well dots named topLive found
  have down := findDirectory_name well named aboveLive isName stepped
  exact ⟨above, walkedFront, well.child_unique childLive aboveLive up down⟩

/-- The normalised components of a path lead where the path leads. -/
theorem walk_normalized {components normal : List Component} (whole : ∀ component ∈ components, '/' ∉ component)
    (holds : Normal normal) (reached : walk fs normal start = some top)
    (same : fs.directoryCluster dir.entry = fs.directoryCluster top.entry) {last : FATDirectory}
    (walked : walkPath fs components dir = some last) :
    ∃ final, walk fs (components.foldl pushComponent normal) start = some final ∧
      fs.directoryCluster final.entry = fs.directoryCluster last.entry := by
  induction components generalizing normal top dir with
  | nil =>
    obtain rfl : dir = last := Option.some.inj walked
    exact ⟨top, reached, same.symm⟩
  | cons component rest ih =>
    have later := fun other member => whole other (List.mem_cons_of_mem _ member)
    have next := holds.push (whole component List.mem_cons_self)
    rw [List.foldl_cons]
    rcases component_cases component with stays | rfl | name
    · rw [pushComponent_stays stays]
      rw [walkPath_stays stays] at walked
      exact ih later holds reached same walked
    · obtain ⟨child, found, after⟩ := walkPath_cons (by decide) walked
      obtain ⟨count, names, rfl, proper⟩ := holds
      rcases List.eq_nil_or_concat names with rfl | ⟨front, name, rfl⟩
      · -- leading parent components are resolved on the volume
        have further := walk_snoc well dots startLive reached same found
        rw [List.append_nil] at next further ⊢
        rw [pushComponent_parents] at next ⊢
        rw [← List.replicate_succ'] at further
        exact ih later next further rfl after
      · rw [List.concat_eq_append, ← List.append_assoc] at next reached ⊢
        have isName := (proper name (by simp)).1
        obtain ⟨above, walkedFront, back⟩ := walk_back well dots startLive named isName reached same found
        rw [pushComponent_back isName.2.2] at next ⊢
        exact ih later next walkedFront back after
    · obtain ⟨child, found, after⟩ := walkPath_cons (not_or.mpr ⟨name.1, name.2.1⟩) walked
      have further := walk_snoc well dots startLive reached same found
      rw [pushComponent_name name] at next ⊢
      exact ih later next further rfl after

end Target

end Fat.FATDirectory

example : normalizePathComponents ['a', '/', '.', '.', '/', '.', '.', '/', 'b', '/'] = [parentComponent, ['b']] := by
  decide

end BubbleOs
