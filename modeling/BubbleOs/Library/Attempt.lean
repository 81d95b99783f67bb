import Mathlib.Order.Defs.Unbundled
import Mathlib.Tactic.Common
import Mathlib.Tactic.Ring

namespace BubbleOs

/-- A call returns a value, returns without one, or never returns. -/
inductive Outcome (A : Type) where
  | value (result : A)
  | missing
  | hang
  deriving DecidableEq, Repr

/-- A stateful call keeps the state that it has reached in every outcome. -/
def Attempt (S A : Type) := S → Outcome A × S

namespace Attempt

variable {S A B : Type} {call : Attempt S A} {first : Attempt S A} {result : A}

/-- The next call starts only after a value. -/
def andThen (first : Attempt S A) (next : A → Attempt S B) : Attempt S B := fun state =>
  match first state with
  | (.value result, after) => next result after
  | (.missing, after) => (.missing, after)
  | (.hang, after) => (.hang, after)

instance : Monad (Attempt S) where
  pure result := fun state => (.value result, state)
  bind := andThen

/-- The call reads the state. -/
def get : Attempt S S := fun state => (.value state, state)

/-- The call replaces the state. -/
def put (next : S) : Attempt S Unit := fun _ => (.value (), next)

/-- The call returns without a value and keeps the state. -/
def fail : Attempt S A := fun state => (.missing, state)

/-- The call never returns. -/
def halt : Attempt S A := fun state => (.hang, state)

/-- An absent option ends the call. -/
def ofOption : Option A → Attempt S A
  | some result => pure result
  | none => fail

/-- The caller continues after a missing value. -/
def orNone (call : Attempt S A) : Attempt S (Option A) := fun state =>
  match call state with
  | (.value result, after) => (.value (some result), after)
  | (.missing, after) => (.value none, after)
  | (.hang, after) => (.hang, after)

/-- The caller panics on a missing value. -/
def unwrap (call : Attempt S A) : Attempt S A := fun state =>
  match call state with
  | (.value result, after) => (.value result, after)
  | (.missing, after) => (.hang, after)
  | (.hang, after) => (.hang, after)

@[simp] theorem pure_apply (result : A) (state : S) :
    (pure result : Attempt S A) state = (.value result, state) := rfl

@[simp] theorem put_apply (next state : S) : put next state = (.value (), next) := rfl

@[simp] theorem fail_apply (state : S) : (fail : Attempt S A) state = (.missing, state) := rfl

@[simp] theorem halt_apply (state : S) : (halt : Attempt S A) state = (.hang, state) := rfl

@[simp] theorem ofOption_some (result : A) :
    (ofOption (some result) : Attempt S A) = pure result := rfl

@[simp] theorem ofOption_none : (ofOption none : Attempt S A) = fail := rfl

/-- A known outcome comes with the state that the call has reached. -/
theorem eq_of_outcome {state : S} {outcome : Outcome A} (reached : (call state).1 = outcome) :
    call state = (outcome, (call state).2) := by
  rw [← reached]

/-- A value passes to the next call with its state. -/
theorem bind_value {state after : S} (returned : first state = (.value result, after)) (next : A → Attempt S B) :
    (first >>= next) state = next result after := by
  change andThen first next state = _
  simp [andThen, returned]

/-- A missing value skips the next call. -/
theorem bind_missing {state after : S} (returned : first state = (.missing, after)) (next : A → Attempt S B) :
    (first >>= next) state = (.missing, after) := by
  change andThen first next state = _
  simp [andThen, returned]

@[simp] theorem pure_bind_apply (result : A) (next : A → Attempt S B) (state : S) :
    ((pure result : Attempt S A) >>= next) state = next result state := rfl

@[simp] theorem get_bind (next : S → Attempt S B) (state : S) :
    ((get : Attempt S S) >>= next) state = next state state := rfl

@[simp] theorem put_bind (replacement : S) (next : Unit → Attempt S B) (state : S) :
    (put replacement >>= next) state = next () replacement := rfl

@[simp] theorem fail_bind_apply (next : A → Attempt S B) (state : S) :
    ((fail : Attempt S A) >>= next) state = (.missing, state) := rfl

/-- A returned value comes from two returned values. -/
theorem bind_eq_value_iff (first : Attempt S A) (next : A → Attempt S B) (state after : S) (result : B) :
    (first >>= next) state = (.value result, after) ↔
      ∃ inner between, first state = (.value inner, between) ∧
        next inner between = (.value result, after) := by
  change andThen first next state = _ ↔ _
  unfold andThen
  split <;> rename_i same <;> simp [same]

/-- A property of the state that both calls reach holds after their sequence. -/
theorem bind_state {inv : S → Prop} {next : A → Attempt S B} {state : S} (earlier : inv (first state).2)
    (later : ∀ result after, first state = (.value result, after) → inv (next result after).2) :
    inv ((first >>= next) state).2 := by
  change inv (andThen first next state).2
  unfold andThen
  cases returned : first state with
  | mk outcome after =>
    rw [returned] at earlier
    cases outcome with
    | value result => exact later result after returned
    | missing | hang => exact earlier

/-- A sequence of calls does not depend on how it is grouped. -/
theorem bind_group {C : Type} (first : Attempt S A) (next : A → Attempt S B) (last : B → Attempt S C) :
    ((first >>= next) >>= last) = first >>= fun result => next result >>= last := by
  funext state
  change andThen (andThen first next) last state = andThen first _ state
  unfold andThen
  cases first state with
  | mk outcome after => cases outcome <;> rfl

/-- The value of a call does not matter to its state. -/
theorem state_bind_pure (call : Attempt S A) (result : A → B) (state : S) :
    ((call >>= fun value => pure (result value)) state).2 = (call state).2 := by
  change (andThen call _ state).2 = _
  unfold andThen
  cases call state with
  | mk outcome after => cases outcome <;> rfl

/-- The caller of a returned value sees it. -/
theorem orNone_value {state after : S} (returned : call state = (.value result, after)) :
    orNone call state = (.value (some result), after) := by
  simp [orNone, returned]

/-- The caller of a missing value sees its absence. -/
theorem orNone_missing {state after : S} (returned : call state = (.missing, after)) :
    orNone call state = (.value none, after) := by
  simp [orNone, returned]

/-- The caller sees a value only if the call returned it. -/
theorem orNone_eq_some {state after : S} (returned : orNone call state = (.value (some result), after)) :
    call state = (.value result, after) := by
  unfold orNone at returned
  split at returned <;> simp_all

theorem unwrap_value {state after : S} (returned : call state = (.value result, after)) :
    unwrap call state = (.value result, after) := by
  simp [unwrap, returned]

/-- The call leaves the state alone, and its value is good. -/
def Reads (call : Attempt S A) (state : S) (good : A → Prop) : Prop :=
  (call state).2 = state ∧ ∀ result, (call state).1 = .value result → good result

section Reads

variable {call : Attempt S A} {state : S} {good : A → Prop} {next : A → Attempt S B}

theorem Reads.cases (reads : Reads call state good) :
    call state = (.missing, state) ∨ call state = (.hang, state) ∨
      ∃ result, call state = (.value result, state) ∧ good result := by
  obtain ⟨same, value⟩ := reads
  cases outcome : call state with
  | mk reply after =>
    rw [outcome] at same value
    obtain rfl : after = state := same
    cases reply with
    | missing => exact .inl rfl
    | hang => exact .inr (.inl rfl)
    | value result => exact .inr (.inr ⟨result, rfl, value result rfl⟩)

theorem Reads.of_value {result : A} (returned : call state = (.value result, state)) (fits : good result) :
    Reads call state good := by
  refine ⟨by rw [returned], fun other same => ?_⟩
  rw [returned, Outcome.value.injEq] at same
  rw [← same]
  exact fits

theorem Reads.of_missing (returned : call state = (.missing, state)) : Reads call state good := by
  refine ⟨by rw [returned], fun other same => ?_⟩
  rw [returned] at same
  contradiction

theorem Reads.of_hang (returned : call state = (.hang, state)) : Reads call state good := by
  refine ⟨by rw [returned], fun other same => ?_⟩
  rw [returned] at same
  contradiction

theorem Reads.ofOption (option : Option A) (state : S) :
    Reads (Attempt.ofOption option) state fun result => option = some result := by
  cases option with
  | none => exact .of_missing rfl
  | some result => exact .of_value rfl rfl

theorem bind_hang {first : Attempt S A} {after : S} (returned : first state = (.hang, after))
    (next : A → Attempt S B) : (first >>= next) state = (.hang, after) := by
  change andThen first next state = _
  simp [andThen, returned]

/-- A good value passes to a call that leaves the state alone too. -/
theorem Reads.bind {final : B → Prop} (reads : Reads call state good)
    (later : ∀ result, good result → Reads (next result) state final) : Reads (call >>= next) state final := by
  rcases reads.cases with missing | hang | ⟨result, returned, fits⟩
  · exact .of_missing (bind_missing missing next)
  · exact .of_hang (bind_hang hang next)
  · obtain ⟨same, value⟩ := later result fits
    rw [Reads, bind_value returned]
    exact ⟨same, value⟩

/-- A property of the refused calls and of the next call holds after the sequence. -/
theorem Reads.after {post : Outcome B × S → Prop} (reads : Reads call state good) (missing : post (.missing, state))
    (hang : post (.hang, state))
    (later : ∀ result, call state = (.value result, state) → good result → post (next result state)) :
    post ((call >>= next) state) := by
  rcases reads.cases with refused | stopped | ⟨result, returned, fits⟩
  · rw [bind_missing refused]
    exact missing
  · rw [bind_hang stopped]
    exact hang
  · rw [bind_value returned]
    exact later result returned fits

theorem Reads.mono {wider : A → Prop} (reads : Reads call state good) (implies : ∀ result, good result → wider result) :
    Reads call state wider :=
  ⟨reads.1, fun result returned => implies result (reads.2 result returned)⟩

end Reads

variable {S V A B : Type}

/-- Every outcome of the call moves a part of the state along the relation. -/
def Moves (view : S → V) (rel : V → V → Prop) (call : Attempt S A) : Prop :=
  ∀ state, rel (view state) (view (call state).2)

namespace Moves

variable {view : S → V} {rel : V → V → Prop} [IsPreorder V rel] {call : Attempt S A} {first : Attempt S A}
  {next : A → Attempt S B}

/-- A call that leaves the part alone moves it nowhere. -/
theorem of_same (same : ∀ state, view (call state).2 = view state) : Moves view rel call := by
  intro state
  rw [same state]
  exact refl_of rel _

theorem pure (result : A) : Moves view rel (Pure.pure result) := of_same fun _ => rfl

theorem fail : Moves view rel (Attempt.fail : Attempt S A) := of_same fun _ => rfl

theorem halt : Moves view rel (Attempt.halt : Attempt S A) := of_same fun _ => rfl

theorem ofOption (option : Option A) : Moves view rel (Attempt.ofOption option) := by
  cases option with
  | none => exact fail
  | some result => exact pure result

/-- The second call starts where the first one has ended. -/
theorem bind_at {state : S} (earlier : rel (view state) (view (first state).2))
    (later : ∀ result, Moves view rel (next result)) : rel (view state) (view ((first >>= next) state).2) := by
  cases outcome : first state with
  | mk reply after =>
    rw [outcome] at earlier
    cases reply with
    | value result =>
      rw [bind_value outcome]
      exact trans_of rel earlier (later result after)
    | missing =>
      rw [bind_missing outcome]
      exact earlier
    | hang =>
      rw [bind_hang outcome]
      exact earlier

theorem bind (earlier : Moves view rel first) (later : ∀ result, Moves view rel (next result)) :
    Moves view rel (first >>= next) :=
  fun state => bind_at (earlier state) later

/-- A replaced state continues with a call. -/
theorem put_at {next : Unit → Attempt S B} {state replaced : S} (step : rel (view state) (view replaced))
    (later : Moves view rel (next ())) : rel (view state) (view ((put replaced >>= next) state).2) :=
  trans_of rel step (later replaced)

omit [IsPreorder V rel] in
theorem get_bind {next : S → Attempt S B} (later : ∀ state, rel (view state) (view (next state state).2)) :
    Moves view rel (Attempt.get >>= next) :=
  later

omit [IsPreorder V rel] in
theorem unwrap (moves : Moves view rel call) : Moves view rel (Attempt.unwrap call) := by
  intro state
  have moved := moves state
  rw [Attempt.unwrap]
  split <;> rename_i outcome <;> rw [outcome] at moved <;> exact moved

omit [IsPreorder V rel] in
theorem orNone (moves : Moves view rel call) : Moves view rel (Attempt.orNone call) := by
  intro state
  have moved := moves state
  rw [Attempt.orNone]
  split <;> rename_i outcome <;> rw [outcome] at moved <;> exact moved

end Moves

/-- The call returns a value if it returns. -/
def Decides (call : Attempt S A) : Prop := ∀ state, (call state).1 ≠ .missing

namespace Decides

theorem pure (result : A) : Decides (Pure.pure result : Attempt S A) := by
  intro state missing
  cases missing

theorem halt : Decides (Attempt.halt : Attempt S A) := by
  intro state missing
  cases missing

theorem get : Decides (Attempt.get : Attempt S S) := by
  intro state missing
  cases missing

theorem put (next : S) : Decides (Attempt.put next) := by
  intro state missing
  cases missing

theorem unwrap (call : Attempt S A) : Decides (Attempt.unwrap call) := by
  intro state missing
  rw [Attempt.unwrap] at missing
  split at missing <;> cases missing

theorem bind {first : Attempt S A} {next : A → Attempt S B} (earlier : Decides first)
    (later : ∀ result, Decides (next result)) : Decides (first >>= next) := by
  intro state
  cases outcome : first state with
  | mk reply after =>
    cases reply with
    | value result =>
      rw [bind_value outcome]
      exact later result after
    | missing => exact absurd (congrArg Prod.fst outcome) (earlier state)
    | hang =>
      rw [bind_hang outcome]
      intro missing
      cases missing

end Decides

end Attempt

/-- A call that returns ends with this outcome. -/
def Outcome.ofOption {A : Type} : Option A → Outcome A
  | some result => .value result
  | none => .missing

/-- From every state with a given view the call returns, and its result and the new view satisfy the postcondition. -/
def Ensures {S T A : Type} (view : S → T) (call : Attempt S A) (start : T) (post : Option A → T → Prop) : Prop :=
  ∀ state, view state = start → ∃ result, (call state).1 = .ofOption result ∧ post result (view (call state).2)

namespace Ensures

open Attempt

variable {S T A B : Type} {view : S → T} {start : T} {call : Attempt S A} {post : Option A → T → Prop}
  {first : Attempt S A} {next : A → Attempt S B} {between : Option A → T → Prop}

/-- One equation for each state with the view gives the postcondition. -/
theorem of_eq
    (returns : ∀ state, view state = start →
      ∃ result after, call state = (.ofOption result, after) ∧ post result (view after)) :
    Ensures view call start post := by
  intro state viewed
  obtain ⟨result, after, returned, holds⟩ := returns state viewed
  exact ⟨result, by rw [returned], by rw [returned]; exact holds⟩

/-- A call on a state that is its own view returns with or without a value. -/
theorem cases {call : Attempt T A} (ensures : Ensures id call start post) :
    (∃ after, call start = (.missing, after) ∧ post none after) ∨
      ∃ result after, call start = (.value result, after) ∧ post (some result) after := by
  obtain ⟨result, outcome, holds⟩ := ensures start rfl
  have reached := eq_of_outcome outcome
  cases result with
  | none => exact .inl ⟨_, reached, holds⟩
  | some result => exact .inr ⟨result, _, reached, holds⟩

/-- A call without a value satisfies the postcondition of a failure. -/
theorem of_missing (ensures : Ensures view call start post) {state : S} (viewed : view state = start)
    (missing : (call state).1 = .missing) : post none (view (call state).2) := by
  obtain ⟨result, outcome, holds⟩ := ensures state viewed
  cases result with
  | none => exact holds
  | some => cases outcome.symm.trans missing

theorem mono {post weaker : Option A → T → Prop} (ensures : Ensures view call start post)
    (implies : ∀ result after, post result after → weaker result after) : Ensures view call start weaker := by
  intro state viewed
  obtain ⟨result, outcome, holds⟩ := ensures state viewed
  exact ⟨result, outcome, implies _ _ holds⟩

theorem pure {result : A} (holds : post (some result) start) : Ensures view (Pure.pure result) start post := by
  rintro state rfl
  exact ⟨some result, rfl, holds⟩

theorem fail (holds : post none start) : Ensures view Attempt.fail start post := by
  rintro state rfl
  exact ⟨none, rfl, holds⟩

/-- The next call starts where the first one has ended. -/
theorem bind {post : Option B → T → Prop} (earlier : Ensures view first start between)
    (missing : ∀ after, between none after → post none after)
    (later : ∀ result after, between (some result) after → Ensures view (next result) after post) :
    Ensures view (first >>= next) start post := by
  intro state viewed
  obtain ⟨result, outcome, holds⟩ := earlier state viewed
  have reached := eq_of_outcome outcome
  cases result with
  | none =>
    rw [bind_missing reached]
    exact ⟨none, rfl, missing _ holds⟩
  | some result =>
    rw [bind_value reached]
    exact later result _ holds _ rfl

/-- A call with a known result leads to the next call. -/
theorem value_bind {result : A} {after : T} {post : Option B → T → Prop}
    (returns : ∀ state, view state = start → ∃ reached, first state = (.value result, reached) ∧ view reached = after)
    (later : Ensures view (next result) after post) : Ensures view (first >>= next) start post := by
  intro state viewed
  obtain ⟨reached, returned, shown⟩ := returns state viewed
  rw [bind_value returned]
  exact later reached shown

/-- A call that reads the state continues with what the view shows of it. -/
theorem get_bind {next : S → Attempt S B} {post : Option B → T → Prop}
    (later : ∀ state, view state = start → Ensures view (next state) start post) :
    Ensures view (Attempt.get >>= next) start post := by
  intro state viewed
  exact later state viewed state viewed

theorem orNone (ensures : Ensures view call start post) :
    Ensures view (Attempt.orNone call) start fun result after => ∃ inner, result = some inner ∧ post inner after := by
  intro state viewed
  obtain ⟨result, outcome, holds⟩ := ensures state viewed
  have reached := eq_of_outcome outcome
  cases result with
  | none =>
    rw [orNone_missing reached]
    exact ⟨some none, rfl, none, rfl, holds⟩
  | some result =>
    rw [orNone_value reached]
    exact ⟨some (some result), rfl, some result, rfl, holds⟩

/-- A call whose outcome is not looked at. -/
theorem orNone_bind {next : Option A → Attempt S B} {post : Option B → T → Prop}
    (earlier : Ensures view call start between)
    (later : ∀ result after, between result after → Ensures view (next result) after post) :
    Ensures view (Attempt.orNone call >>= next) start post := by
  refine bind earlier.orNone ?_ ?_
  · rintro after ⟨inner, absurd_, _⟩
    cases absurd_
  · rintro result after ⟨inner, same, holds⟩
    rw [Option.some.inj same]
    exact later inner after holds

end Ensures

section Reached

variable {S A : Type}

/-- These states are reached by actions that were allowed when they were taken. -/
inductive Reached (step : A → S → S) (allowed : A → S → Prop) (start : S) : S → Prop where
  | start : Reached step allowed start start
  | step {between : S} (earlier : Reached step allowed start between) (action : A)
      (fits : allowed action between) : Reached step allowed start (step action between)

variable {step : A → S → S} {allowed : A → S → Prop} {start final : S}

/-- A property that every allowed action keeps holds in every reached state. -/
theorem Reached.invariant {holds : S → Prop} (initial : holds start)
    (kept : ∀ action state, holds state → allowed action state → holds (step action state))
    (reached : Reached step allowed start final) : holds final := by
  induction reached with
  | start => exact initial
  | step _ action fits ih => exact kept action _ ih fits

end Reached

section Trace

variable {S T A R : Type}

/-- A run performs actions with their replies. -/
inductive Trace (step : S → A → R → S → Prop) : S → List (A × R) → S → Prop where
  | done (state : S) : Trace step state [] state
  | next {state between final : S} {action : A} {reply : R} {later : List (A × R)}
      (first : step state action reply between) (rest : Trace step between later final) :
      Trace step state ((action, reply) :: later) final

variable {concrete : S → A → R → S → Prop} {abstract : T → A → R → T → Prop} {simulates : S → T → Prop}

/-- A simulation of each step gives every concrete run an abstract run with the same actions and replies. -/
theorem Trace.simulate
    (forward : ∀ state action reply after view, simulates state view → concrete state action reply after →
      ∃ next, abstract view action reply next ∧ simulates after next)
    {state final : S} {actions : List (A × R)} (run : Trace concrete state actions final) {view : T}
    (related : simulates state view) : ∃ last, Trace abstract view actions last ∧ simulates final last := by
  induction run generalizing view with
  | done state => exact ⟨view, .done view, related⟩
  | next first _ ih =>
    obtain ⟨next, step, kept⟩ := forward _ _ _ _ _ related first
    obtain ⟨last, rest, reached⟩ := ih kept
    exact ⟨last, .next step rest, reached⟩

end Trace

end BubbleOs
