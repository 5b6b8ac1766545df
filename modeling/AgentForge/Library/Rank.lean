import Mathlib.Data.Fintype.Card
import Mathlib.Data.Set.Finite.Lattice
import Mathlib.Logic.Relation
import Mathlib.Order.WellFounded

/-!
# Ranks of a dependency relation

Elements that need others, inside a finite set.  An element is settled after
`n + 1` rounds if it is inside and everything it needs is settled after `n`.
What is ever settled is exactly what reaches neither a cycle nor an element
outside, and the round that settles an element is the length of the longest
chain of needs that starts at it.
-/

namespace AgentForge.Library

open Relation

universe u

variable {α : Type u}

/-- A chain of `n` needs starts at an element. -/
inductive Chain (needs : α → α → Prop) : Nat → α → Prop
  | nil (element : α) : Chain needs 0 element
  | cons {length : Nat} {element needed : α} :
      needs element needed → Chain needs length needed → Chain needs (length + 1) element

/-- The longest chain of needs at an element has a length. -/
def LongestChain (needs : α → α → Prop) (length : Nat) (element : α) : Prop :=
  Chain needs length element ∧ ∀ other, Chain needs other element → other ≤ length

/-- SettledWithin within a number of rounds. -/
def SettledWithin (inside : α → Prop) (needs : α → α → Prop) : Nat → α → Prop
  | 0, _ => False
  | rounds + 1, element =>
      inside element ∧ ∀ needed, needs element needed → SettledWithin inside needs rounds needed

section Chains

variable {needs : α → α → Prop} {element : α}

theorem exists_chain_of_transGen {target : α} {length : Nat}
    (path : TransGen needs element target) (chain : Chain needs length target) :
    ∃ longer, length < longer ∧ Chain needs longer element := by
  induction path using TransGen.head_induction_on with
  | single needed => exact ⟨length + 1, Nat.lt_succ_self length, .cons needed chain⟩
  | head needed _ ih =>
    obtain ⟨longer, more, chain⟩ := ih
    exact ⟨longer + 1, Nat.lt_succ_of_lt more, .cons needed chain⟩

/-- On a cycle there are chains of any length. -/
theorem exists_chain_of_cycle (cycle : TransGen needs element element) (length : Nat) :
    ∃ longer, length ≤ longer ∧ Chain needs longer element := by
  induction length with
  | zero => exact ⟨0, Nat.le_refl 0, .nil element⟩
  | succ length ih =>
    obtain ⟨shorter, enough, chain⟩ := ih
    obtain ⟨longer, more, chain⟩ := exists_chain_of_transGen cycle chain
    exact ⟨longer, Nat.lt_of_le_of_lt enough more, chain⟩

end Chains

section Settling

variable {inside : α → Prop} {needs : α → α → Prop} {rounds : Nat} {element : α}

variable (settled : SettledWithin inside needs rounds element)

include settled

theorem inside_of_settled : inside element := by
  cases rounds with
  | zero => exact settled.elim
  | succ rounds => exact settled.1

theorem SettledWithin.succ : SettledWithin inside needs (rounds + 1) element := by
  induction rounds generalizing element with
  | zero => exact settled.elim
  | succ rounds ih => exact ⟨settled.1, fun needed edge => ih (settled.2 needed edge)⟩

theorem SettledWithin.mono {later : Nat} (enough : rounds ≤ later) :
    SettledWithin inside needs later element := by
  induction enough with
  | refl => exact settled
  | step _ ih => exact ih.succ

/-- Chains at a settled element are shorter than the rounds it took. -/
theorem SettledWithin.chain_lt {length : Nat} (chain : Chain needs length element) :
    length < rounds := by
  induction chain generalizing rounds with
  | nil element =>
    cases rounds with
    | zero => exact settled.elim
    | succ rounds => exact Nat.succ_pos rounds
  | cons edge _ ih =>
    cases rounds with
    | zero => exact settled.elim
    | succ rounds => exact Nat.succ_lt_succ (ih (settled.2 _ edge))

omit settled in
/-- An element that needs one more round has a chain of that many needs. -/
theorem chain_of_settled_late (settled : SettledWithin inside needs (rounds + 1) element)
    (late : ¬ SettledWithin inside needs rounds element) : Chain needs rounds element := by
  induction rounds generalizing element with
  | zero => exact .nil element
  | succ rounds ih =>
    have missing : ∃ needed, needs element needed ∧ ¬ SettledWithin inside needs rounds needed := by
      by_contra none
      push Not at none
      exact late ⟨settled.1, none⟩
    obtain ⟨needed, edge, lateNeeded⟩ := missing
    exact .cons edge (ih (settled.2 needed edge) lateNeeded)

omit settled in
/-- The round that settles an element is the length of its longest chain. -/
theorem settled_at_iff (eventually : ∃ enough, SettledWithin inside needs enough element) :
    (SettledWithin inside needs (rounds + 1) element ∧
      ¬ SettledWithin inside needs rounds element) ↔
      LongestChain needs rounds element := by
  classical
  constructor
  · rintro ⟨settled, late⟩
    exact ⟨chain_of_settled_late settled late,
      fun length chain => Nat.le_of_lt_succ (settled.chain_lt chain)⟩
  · rintro ⟨chain, longest⟩
    -- The first round that settles the element gives a chain of its length.
    let first := Nat.find eventually
    have settled : SettledWithin inside needs first element := Nat.find_spec eventually
    have later := settled.chain_lt chain
    obtain ⟨before, same⟩ := Nat.exists_eq_add_of_lt (Nat.lt_of_le_of_lt (Nat.zero_le _) later)
    rw [Nat.zero_add] at same
    have late : ¬ SettledWithin inside needs before element :=
      Nat.find_min eventually (show before < first by omega)
    rw [same] at settled later
    have bound := longest before (chain_of_settled_late settled late)
    obtain rfl : before = rounds := by omega
    exact ⟨settled, late⟩

/-- What a settled element reaches is settled. -/
theorem SettledWithin.reach {target : α} (path : ReflTransGen needs element target) :
    SettledWithin inside needs rounds target := by
  induction path with
  | refl => exact settled
  | tail _ edge ih =>
    cases rounds with
    | zero => exact ih.elim
    | succ rounds => exact (ih.2 _ edge).succ

theorem SettledWithin.acyclic : ¬ TransGen needs element element := by
  intro cycle
  obtain ⟨longer, enough, chain⟩ := exists_chain_of_cycle cycle rounds
  exact absurd (settled.chain_lt chain) (Nat.not_lt.mpr enough)

omit settled

/-- Finitely many elements that are ever settled are settled after a common
number of rounds. -/
theorem exists_common_rounds (inside : α → Prop) (needs : α → α → Prop) {elements : Set α}
    (finite : elements.Finite) :
    ∃ common, ∀ element ∈ elements, (∃ rounds, SettledWithin inside needs rounds element) →
      SettledWithin inside needs common element := by
  induction elements, finite using Set.Finite.induction_on with
  | empty => exact ⟨0, by simp⟩
  | @insert first rest _ _ ih =>
    obtain ⟨common, enough⟩ := ih
    by_cases ever : ∃ rounds, SettledWithin inside needs rounds first
    · obtain ⟨rounds, settled⟩ := ever
      refine ⟨max rounds common, ?_⟩
      rintro element (rfl | member) eventually
      · exact settled.mono (Nat.le_max_left _ _)
      · exact (enough element member eventually).mono (Nat.le_max_right _ _)
    · refine ⟨common, ?_⟩
      rintro element (rfl | member) eventually
      · exact absurd eventually ever
      · exact enough element member eventually

/-- In a finite set, an element that is never settled needs another one. -/
theorem exists_needed_of_unsettled (finite : {element | inside element}.Finite)
    (known : ∀ needed, needs element needed → inside needed) (isInside : inside element)
    (never : ¬ ∃ rounds, SettledWithin inside needs rounds element) :
    ∃ needed, needs element needed ∧ ¬ ∃ rounds, SettledWithin inside needs rounds needed := by
  by_contra none
  push Not at none
  obtain ⟨common, enough⟩ := exists_common_rounds inside needs finite
  exact never ⟨common + 1, isInside, fun needed edge =>
    enough needed (known needed edge) (none needed edge)⟩

/-- What is ever settled is what reaches neither a cycle nor the outside. -/
theorem exists_settled_iff (finite : {element | inside element}.Finite) :
    (∃ rounds, SettledWithin inside needs rounds element) ↔
      ∀ target, ReflTransGen needs element target →
        inside target ∧ ¬ TransGen needs target target := by
  constructor
  · rintro ⟨rounds, settled⟩ target path
    have reached := settled.reach path
    exact ⟨inside_of_settled reached, reached.acyclic⟩
  · intro sound
    by_contra never
    -- Unsettled elements within reach: each needs another one, so a relation
    -- without cycles on finitely many of them cannot exist.
    let Bad := {target : α // ReflTransGen needs element target ∧
      ¬ ∃ rounds, SettledWithin inside needs rounds target}
    have finiteBad : Finite Bad :=
      (finite.subset fun target bad => (sound target bad.1).1).to_subtype
    let below : Bad → Bad → Prop := fun target source => TransGen needs source.1 target.1
    have transitive : IsTrans Bad below := ⟨fun _ _ _ first second => second.trans first⟩
    have irreflexive : Std.Irrefl below := ⟨fun target cycle => (sound _ target.2.1).2 cycle⟩
    have wellFounded := Finite.wellFounded_of_trans_of_irrefl below
    obtain ⟨least, _, minimal⟩ := wellFounded.has_min Set.univ
      ⟨(⟨element, .refl, never⟩ : Bad), trivial⟩
    have known : ∀ needed, needs least.1 needed → inside needed := fun needed edge =>
      (sound needed (least.2.1.tail edge)).1
    obtain ⟨needed, edge, never⟩ := exists_needed_of_unsettled finite known
      (sound _ least.2.1).1 least.2.2
    exact minimal ⟨needed, least.2.1.tail edge, never⟩ trivial (.single edge)

end Settling

end AgentForge.Library
