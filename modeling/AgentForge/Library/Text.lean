import Mathlib.Data.List.DropRight
import Mathlib.Data.List.Infix

/-!
# Stripping and cutting lists

String methods of scripting languages on lists of characters: stripping at both
ends, cutting at the first occurrence of a separator, splitting with a bound on
the number of cuts.
-/

namespace AgentForge.Library

universe u

/-- The characters of a string. -/
abbrev Text := List Char

variable {α : Type u}

/-- Remove the elements that satisfy a condition from both ends. -/
def strip (unwanted : α → Bool) (text : List α) : List α :=
  (text.dropWhile unwanted).rdropWhile unwanted

/-- The parts before and after the first occurrence of a separator. -/
def cut [DecidableEq α] (separator : List α) : List α → Option (List α × List α)
  | [] => if separator = [] then some ([], []) else none
  | first :: rest =>
      if separator <+: first :: rest then some ([], (first :: rest).drop separator.length)
      else (cut separator rest).map fun parts => (first :: parts.1, parts.2)

/-- Split at the first occurrences of a separator, at most `cuts` times. -/
def split [DecidableEq α] (separator : List α) : Nat → List α → List (List α)
  | 0, text => [text]
  | cuts + 1, text =>
      match cut separator text with
      | none => [text]
      | some (before, after) => before :: split separator cuts after

section Strip

variable {unwanted : α → Bool} {text left right : List α}

/-- A text whose ends are wanted: stripping stops there. -/
def Bounded (unwanted : α → Bool) (text : List α) : Prop :=
  (∃ first rest, text = first :: rest ∧ unwanted first = false) ∧
    ∃ rest last, text = rest ++ [last] ∧ unwanted last = false

theorem Bounded.surrounded (bounded : Bounded unwanted text)
    (wantedLeft : ∀ element ∈ left, unwanted element = false)
    (wantedRight : ∀ element ∈ right, unwanted element = false) :
    Bounded unwanted (left ++ text ++ right) := by
  obtain ⟨⟨first, rest, opened, wantedFirst⟩, others, last, closed, wantedLast⟩ := bounded
  constructor
  · cases left with
    | nil => exact ⟨first, rest ++ right, by simp [opened], wantedFirst⟩
    | cons first left => exact ⟨first, left ++ text ++ right, rfl, wantedLeft first (by simp)⟩
  · rcases List.eq_nil_or_concat right with rfl | ⟨right, last, rfl⟩
    · exact ⟨left ++ others, last, by simp [closed], wantedLast⟩
    · exact ⟨left ++ text ++ right, last, by simp, wantedRight last (by simp)⟩

theorem Bounded.ne_append (bounded : Bounded unwanted text) {last : α}
    (isUnwanted : unwanted last = true) (rest : List α) : text ≠ rest ++ [last] := by
  rintro rfl
  obtain ⟨_, others, wanted, closed, isWanted⟩ := bounded
  obtain ⟨_, same⟩ := List.append_inj' closed rfl
  cases same
  rw [isUnwanted] at isWanted
  cases isWanted

theorem dropWhile_append_of_all (all : ∀ element ∈ left, unwanted element = true) :
    (left ++ right).dropWhile unwanted = right.dropWhile unwanted := by
  rw [List.dropWhile_append, List.dropWhile_eq_nil_iff.mpr all]
  rfl

/-- Stripping removes what surrounds a bounded text. -/
theorem strip_surrounded (bounded : Bounded unwanted text)
    (allLeft : ∀ element ∈ left, unwanted element = true)
    (allRight : ∀ element ∈ right, unwanted element = true) :
    strip unwanted (left ++ text ++ right) = text := by
  obtain ⟨⟨first, rest, opened, wantedFirst⟩, others, last, closed, wantedLast⟩ := bounded
  have front : (left ++ text ++ right).dropWhile unwanted = text ++ right := by
    rw [List.append_assoc, dropWhile_append_of_all allLeft, opened, List.cons_append,
      List.dropWhile_cons_of_neg (by simp [wantedFirst])]
  have back : (right.reverse ++ text.reverse).dropWhile unwanted = text.reverse := by
    rw [dropWhile_append_of_all (by simpa using allRight), closed]
    simp [wantedLast]
  rw [strip, front, List.rdropWhile, List.reverse_append, back, List.reverse_reverse]

theorem strip_of_bounded (bounded : Bounded unwanted text) : strip unwanted text = text := by
  have stripped : strip unwanted ([] ++ text ++ []) = text :=
    strip_surrounded bounded (by simp) (by simp)
  simpa using stripped

theorem mem_head?_of_initial {part : List α} {first : α} (starts : part <+: text)
    (isHead : first ∈ part.head?) : first ∈ text.head? := by
  obtain ⟨rest, rfl⟩ := starts
  cases part with
  | nil => cases isHead
  | cons => exact isHead

/-- Behind a wanted first element, stripping leaves an initial part. -/
theorem strip_initial (wanted : ∀ first ∈ text.head?, unwanted first = false) :
    strip unwanted text <+: text := by
  cases text with
  | nil => exact List.prefix_rfl
  | cons first rest =>
    rw [strip, List.dropWhile_cons_of_neg (by simp [wanted first rfl])]
    exact List.rdropWhile_prefix unwanted (first :: rest)

end Strip

section Cut

variable [DecidableEq α] {separator before after text : List α}

/-- A cut is an occurrence of the separator. -/
theorem eq_of_cut (found : cut separator text = some (before, after)) :
    text = before ++ separator ++ after := by
  induction text generalizing before with
  | nil =>
    unfold cut at found
    by_cases empty : separator = []
    · rw [if_pos empty] at found
      cases found
      simp [empty]
    · rw [if_neg empty] at found
      cases found
  | cons first rest ih =>
    unfold cut at found
    by_cases here : separator <+: first :: rest
    · rw [if_pos here] at found
      cases found
      simpa using (List.prefix_iff_eq_append.mp here).symm
    · rw [if_neg here] at found
      obtain ⟨⟨shorter, _⟩, foundRest, same⟩ := Option.map_eq_some_iff.mp found
      cases same
      simp [ih foundRest]

/-- A text with an occurrence of the separator is cut no later than there. -/
theorem exists_cut (nonempty : separator ≠ []) (before after : List α) :
    ∃ shorter rest, cut separator (before ++ separator ++ after) = some (shorter, rest) ∧
      shorter.length ≤ before.length := by
  induction before with
  | nil =>
    obtain ⟨first, others, rfl⟩ := List.exists_cons_of_ne_nil nonempty
    have here : first :: others <+: first :: (others ++ after) :=
      List.prefix_append (first :: others) after
    refine ⟨[], after, ?_, Nat.le_refl _⟩
    rw [List.nil_append, List.cons_append, cut, if_pos here]
    simp
  | cons first before ih =>
    obtain ⟨shorter, rest, found, bound⟩ := ih
    rw [List.cons_append, List.cons_append, cut]
    by_cases here : separator <+: first :: (before ++ separator ++ after)
    · exact ⟨[], _, if_pos here, Nat.zero_le _⟩
    · rw [if_neg here, found]
      exact ⟨first :: shorter, rest, rfl, Nat.succ_le_succ bound⟩

/-- A row of markers is not found in front of its place, unless it occurs in the
text before or that text ends with a marker. -/
theorem cut_replicate {marker : α} {count : Nat} (positive : 0 < count)
    (absent : ¬ List.replicate count marker <:+: before)
    (ends : ∀ rest, before ≠ rest ++ [marker]) (after : List α) :
    cut (List.replicate count marker) (before ++ List.replicate count marker ++ after) =
      some (before, after) := by
  have nonempty : List.replicate count marker ≠ [] := by simpa using Nat.ne_of_gt positive
  obtain ⟨shorter, rest, found, bound⟩ := exists_cut nonempty before after
  have same := eq_of_cut found
  rw [found]
  rw [List.append_assoc, List.append_assoc] at same
  obtain ⟨middle, rfl⟩ : shorter <+: before :=
    List.prefix_of_prefix_length_le ⟨_, same.symm⟩ ⟨_, rfl⟩ bound
  rw [List.append_assoc, List.append_cancel_left_eq] at same
  rcases List.prefix_or_prefix_of_prefix ⟨_, same⟩ ⟨_, rfl⟩ with inside | short
  · -- The markers start within the middle part and end after it.
    have markers : ∀ element ∈ middle, element = marker := fun element member =>
      List.eq_of_mem_replicate (inside.subset member)
    rcases List.eq_nil_or_concat middle with rfl | ⟨others, last, rfl⟩
    · simp only [List.nil_append, List.append_cancel_left_eq] at same
      simp [same]
    · have isMarker := markers last (by simp)
      subst isMarker
      exact absurd (by simp) (ends (shorter ++ others))
  · exact absurd (short.isInfix.trans (List.suffix_append shorter middle).isInfix) absent

end Cut

section Markers

variable {text : List α} {count : Nat} {marker : α} {left right : List α}

private theorem infix_of_append_left (positive : 0 < count) (none : marker ∉ left)
    (occurs : List.replicate count marker <:+: left ++ right) :
    List.replicate count marker <:+: right := by
  induction left with
  | nil => exact occurs
  | cons first left ih =>
    rw [List.cons_append, List.infix_cons_iff] at occurs
    rw [List.mem_cons, not_or] at none
    rcases occurs with here | later
    · obtain ⟨fewer, rfl⟩ := Nat.exists_eq_succ_of_ne_zero (Nat.ne_of_gt positive)
      rw [List.replicate_succ, List.cons_prefix_cons] at here
      exact absurd here.1 none.1
    · exact ih none.2 later

/-- A row of markers that is surrounded by none lies within. -/
theorem infix_of_surrounded (positive : 0 < count) (noneLeft : marker ∉ left)
    (noneRight : marker ∉ right) (occurs : List.replicate count marker <:+: left ++ text ++ right) :
    List.replicate count marker <:+: text := by
  rw [List.append_assoc] at occurs
  have trailing := List.reverse_infix.mpr (infix_of_append_left positive noneLeft occurs)
  rw [List.reverse_append, List.reverse_replicate] at trailing
  have reversed := infix_of_append_left positive (by simpa using noneRight) trailing
  rw [← List.reverse_infix, List.reverse_replicate, List.reverse_reverse] at reversed
  exact reversed

end Markers

end AgentForge.Library
