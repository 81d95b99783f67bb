import Mathlib.Data.List.Nodup

namespace BubbleOs

/-- A chain follows links from its first node to a node without a link. -/
inductive Chain {A : Type} (next : A → Option A) : A → List A → Prop where
  | last {node : A} (ends : next node = none) : Chain next node [node]
  | link {node following : A} {rest : List A} (linked : next node = some following)
      (tail : Chain next following rest) : Chain next node (node :: rest)

namespace Chain

variable {A : Type} {next other : A → Option A} {first : A} {nodes : List A} {before after : List A} {final : A}

section Chain

variable (chain : Chain next first nodes)

include chain

theorem head?_eq : nodes.head? = some first := by
  cases chain <;> rfl

theorem ne_nil : nodes ≠ [] := by
  cases chain <;> simp

theorem first_mem : first ∈ nodes := by
  cases chain <;> simp

/-- The links decide the chain. -/
theorem unique {others : List A} (second : Chain next first others) : nodes = others := by
  induction chain generalizing others with
  | last ends =>
    cases second with
    | last _ => rfl
    | link linked _ => simp [ends] at linked
  | link linked tail ih =>
    cases second with
    | last ends => simp [linked] at ends
    | link again rest =>
      rw [linked, Option.some.injEq] at again
      subst again
      rw [ih rest]

/-- Links that agree on the nodes give the same chain. -/
theorem congr (same : ∀ node ∈ nodes, other node = next node) : Chain other first nodes := by
  induction chain with
  | last ends => exact .last (by rw [same _ List.mem_cons_self, ends])
  | link linked tail ih =>
    refine .link (by rw [same _ List.mem_cons_self, linked]) (ih ?_)
    intro node member
    exact same node (List.mem_cons_of_mem _ member)

/-- The nodes from a later node on are its chain. -/
theorem suffix {middle : A} (split : nodes = before ++ middle :: after) : Chain next middle (middle :: after) := by
  induction chain generalizing before with
  | @last node ends =>
    cases before with
    | nil =>
      cases split
      exact .last ends
    | cons head tail => simp at split
  | @link node following rest linked tail ih =>
    cases before with
    | nil =>
      cases split
      exact .link linked tail
    | cons head earlier =>
      rw [List.cons_append, List.cons.injEq] at split
      exact ih split.2

/-- A chain never returns to one of its nodes. -/
theorem nodup : nodes.Nodup := by
  induction chain with
  | last ends => simp
  | @link node following rest linked tail ih =>
    rw [List.nodup_cons]
    refine ⟨?_, ih⟩
    intro returns
    obtain ⟨before, after, split⟩ := List.append_of_mem returns
    have inner := tail.suffix split
    have whole : Chain next node (node :: rest) := .link linked tail
    have same := congrArg List.length (whole.unique inner)
    simp only [split, List.length_cons, List.length_append] at same
    omega

end Chain

/-- A single node has no link. -/
theorem next_single (chain : Chain next first [final]) : next final = none := by
  cases chain with
  | last ends => exact ends
  | link _ tail => exact absurd rfl tail.ne_nil

/-- The last node has no link. -/
theorem next_last {before : List A} (chain : Chain next first (before ++ [final])) : next final = none :=
  (chain.suffix rfl).next_single

/-- The node after a node is its link. -/
theorem next_eq {node following : A} (chain : Chain next first (before ++ node :: following :: after)) :
    next node = some following := by
  cases chain.suffix rfl with
  | link linked tail =>
    have head := tail.head?_eq
    rw [List.head?_cons, Option.some.injEq] at head
    rw [linked, head]

/-- A chain of more than one node continues at the link of its first node. -/
theorem tail_of_ne_nil {node : A} {rest : List A} (chain : Chain next first (node :: rest))
    (more : rest ≠ []) : node = first ∧ ∃ following, next first = some following ∧ Chain next following rest := by
  cases chain with
  | last _ => exact absurd rfl more
  | link linked tail => exact ⟨rfl, _, linked, tail⟩

/-- Another chain from one of the nodes takes the place of the rest. -/
theorem splice {rest : List A} (chain : Chain next first (before ++ final :: after))
    (same : ∀ node ∈ before, other node = next node) (tail : Chain other final (final :: rest)) :
    Chain other first (before ++ final :: rest) := by
  induction before generalizing first with
  | nil =>
    have head := chain.head?_eq
    rw [List.nil_append, List.head?_cons, Option.some.injEq] at head
    subst head
    exact tail
  | cons node before ih =>
    obtain ⟨rfl, following, step, later⟩ := chain.tail_of_ne_nil (by simp)
    refine .link (by rw [same _ List.mem_cons_self, step]) (ih later ?_)
    intro member inside
    exact same member (List.mem_cons_of_mem _ inside)

/-- A new link from the last node continues the chain. -/
theorem extend {rest : List A} {following : A} (chain : Chain next first (before ++ [final]))
    (same : ∀ node ∈ before, other node = next node) (linked : other final = some following)
    (tail : Chain other following rest) : Chain other first (before ++ final :: rest) :=
  chain.splice same (.link linked tail)

/-- A cut link ends the chain early. -/
theorem cut (chain : Chain next first (before ++ final :: after)) (same : ∀ node ∈ before, other node = next node)
    (ends : other final = none) : Chain other first (before ++ [final]) := chain.splice same (.last ends)

end Chain

end BubbleOs
