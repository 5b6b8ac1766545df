import Mathlib.Data.List.Basic
import Mathlib.Data.List.Nodup
import Mathlib.Algebra.BigOperators.Group.List.Basic
import Mathlib.Tactic.Abel

/-!
# Insertion-ordered dictionaries

A finite map that remembers the order in which its keys were first inserted,
as the dictionaries of scripting languages do.  Overwriting a key keeps its
position; a new key goes to the end.  The representation carries the proof that
keys are distinct, so every lookup has one meaning.
-/

namespace AgentForge.Library

universe u v w

/-- Key-value pairs in insertion order, with pairwise distinct keys. -/
structure Dict (α : Type u) (β : Type v) where
  entries : List (α × β)
  nodup : (entries.map Prod.fst).Nodup

namespace Dict

variable {α : Type u} {β : Type v} {γ : Type w}

/-- The dictionary without entries. -/
def empty : Dict α β :=
  ⟨[], List.nodup_nil⟩

/-- Keys in insertion order. -/
def keys (dict : Dict α β) : List α :=
  dict.entries.map Prod.fst

/-- Values in insertion order. -/
def values (dict : Dict α β) : List β :=
  dict.entries.map Prod.snd

variable [DecidableEq α] {dict : Dict α β} {entries : List (α × β)} {key : α} {value : β}

/-- Value stored under the first matching key of an association list. -/
def find (key : α) : List (α × β) → Option β
  | [] => none
  | (first, value) :: rest => if first = key then some value else find key rest

/-- Overwrite the first matching key of an association list, or append. -/
def place (key : α) (value : β) : List (α × β) → List (α × β)
  | [] => [(key, value)]
  | (first, old) :: rest =>
      if first = key then (first, value) :: rest else (first, old) :: place key value rest

omit [DecidableEq α] in
theorem mem_keys_iff : key ∈ dict.keys ↔ ∃ value, (key, value) ∈ dict.entries := by
  simp [keys]

theorem mem_place_keys {key other : α} : other ∈ (place key value entries).map Prod.fst ↔
      other = key ∨ other ∈ entries.map Prod.fst := by
  induction entries with
  | nil => simp [place]
  | cons entry rest ih =>
    rcases entry with ⟨first, old⟩
    by_cases same : first = key
    · subst same
      simp [place]
    · simp only [place, if_neg same, List.map_cons, List.mem_cons, ih]
      exact or_left_comm

theorem nodup_place (nodup : (entries.map Prod.fst).Nodup) :
    ((place key value entries).map Prod.fst).Nodup := by
  induction entries with
  | nil => simp [place]
  | cons entry rest ih =>
    rcases entry with ⟨first, old⟩
    simp only [List.map_cons, List.nodup_cons] at nodup
    by_cases same : first = key
    · subst same
      simpa [place] using nodup
    · simp only [place, if_neg same, List.map_cons, List.nodup_cons]
      refine ⟨?_, ih nodup.2⟩
      intro member
      rcases mem_place_keys.mp member with equal | member
      · exact same equal
      · exact nodup.1 member

/-- Value stored under a key. -/
def get? (dict : Dict α β) (key : α) : Option β :=
  find key dict.entries

/-- Store a value under a key. -/
def set (dict : Dict α β) (key : α) (value : β) : Dict α β :=
  ⟨place key value dict.entries, nodup_place dict.nodup⟩

/-- Store a value under a key that has none yet. -/
def setDefault (dict : Dict α β) (key : α) (value : β) : Dict α β :=
  match dict.get? key with
  | some _ => dict
  | none => dict.set key value

/-- Overwrite with every entry of an association list, from left to right. -/
def update (dict : Dict α β) (entries : List (α × β)) : Dict α β :=
  entries.foldl (fun current entry => current.set entry.1 entry.2) dict

/-- The dictionary of an association list; later entries win. -/
def ofList (entries : List (α × β)) : Dict α β :=
  empty.update entries

@[simp]
theorem get?_empty (key : α) : (empty : Dict α β).get? key = none :=
  rfl

/-- Overwriting a key keeps the keys and their order. -/
theorem keys_set_of_mem (member : key ∈ dict.keys) (value : β) :
    (dict.set key value).keys = dict.keys := by
  obtain ⟨entries, nodup⟩ := dict
  change key ∈ entries.map Prod.fst at member
  change (place key value entries).map Prod.fst = entries.map Prod.fst
  clear nodup
  induction entries with
  | nil => cases member
  | cons entry rest ih =>
    rcases entry with ⟨first, old⟩
    by_cases same : first = key
    · simp [place, same]
    · rw [place, if_neg same, List.map_cons, List.map_cons,
        ih ((List.mem_cons.mp member).resolve_left fun equal => same equal.symm)]

private theorem find_place (key other : α) (value : β) (entries : List (α × β)) :
    find other (place key value entries) =
      if other = key then some value else find other entries := by
  induction entries with
  | nil =>
    by_cases same : other = key
    · subst same
      simp [place, find]
    · simp [place, find, same, Ne.symm same]
  | cons entry rest ih =>
    rcases entry with ⟨first, old⟩
    by_cases head : first = key
    · subst head
      by_cases same : other = first
      · subst same
        simp [place, find]
      · simp [place, find, same, Ne.symm same]
    · simp only [place, if_neg head, find, ih]
      by_cases same : first = other
      · subst same
        simp [head]
      · simp [same]

theorem get?_set (dict : Dict α β) (key other : α) (value : β) :
    (dict.set key value).get? other = if other = key then some value else dict.get? other :=
  find_place key other value dict.entries

@[simp]
theorem get?_set_self (dict : Dict α β) (key : α) (value : β) :
    (dict.set key value).get? key = some value := by
  simp [get?_set]

theorem get?_set_ne (dict : Dict α β) {key other : α} (different : other ≠ key) (value : β) :
    (dict.set key value).get? other = dict.get? other := by
  simp [get?_set, different]

private theorem place_place (key : α) (value value' : β) (entries : List (α × β)) :
    place key value' (place key value entries) = place key value' entries := by
  induction entries with
  | nil => simp [place]
  | cons entry rest ih =>
    rcases entry with ⟨first, old⟩
    by_cases same : first = key
    · simp [place, same]
    · simp [place, same, ih]

/-- The last value stored under a key wins. -/
@[simp]
theorem set_set (dict : Dict α β) (key : α) (value value' : β) :
    (dict.set key value).set key value' = dict.set key value' := by
  simp [set, place_place]

theorem get?_setDefault (dict : Dict α β) (key other : α) (value : β) :
    (dict.setDefault key value).get? other =
      (dict.get? other).or (if other = key then some value else none) := by
  unfold setDefault
  cases stored : dict.get? key with
  | some old =>
    by_cases same : other = key
    · subst same
      simp [stored]
    · simp [same]
  | none =>
    by_cases same : other = key
    · subst same
      simp [stored]
    · simp [get?_set_ne, same]

private theorem find_eq_some_iff (nodup : (entries.map Prod.fst).Nodup) :
    find key entries = some value ↔ (key, value) ∈ entries := by
  induction entries with
  | nil => simp [find]
  | cons entry rest ih =>
    rcases entry with ⟨first, old⟩
    simp only [List.map_cons, List.nodup_cons] at nodup
    by_cases same : first = key
    · subst same
      have absent : (first, value) ∉ rest := by
        intro member
        exact nodup.1 (List.mem_map_of_mem (f := Prod.fst) member)
      simp [find, absent, eq_comm]
    · simp [find, same, Ne.symm same, ih nodup.2]

/-- A lookup succeeds exactly with a stored entry. -/
theorem get?_eq_some_iff : dict.get? key = some value ↔ (key, value) ∈ dict.entries :=
  find_eq_some_iff dict.nodup

theorem get?_update_of_not_mem (absent : key ∉ entries.map Prod.fst) :
    (dict.update entries).get? key = dict.get? key := by
  induction entries generalizing dict with
  | nil => rfl
  | cons entry rest ih =>
    simp only [List.map_cons, List.mem_cons, not_or] at absent
    rw [← get?_set_ne dict absent.1 entry.2]
    exact ih absent.2

/-- An update stores one of its entries under each of its keys. -/
theorem exists_get?_update (listed : key ∈ entries.map Prod.fst) :
    ∃ value, (dict.update entries).get? key = some value ∧ (key, value) ∈ entries := by
  induction entries generalizing dict with
  | nil => cases listed
  | cons entry rest ih =>
    by_cases later : key ∈ rest.map Prod.fst
    · obtain ⟨value, found, member⟩ := @ih (dict.set entry.1 entry.2) later
      exact ⟨value, found, List.mem_cons_of_mem _ member⟩
    · have same : key = entry.1 := by simpa [later] using listed
      refine ⟨entry.2, ?_, same ▸ List.mem_cons_self⟩
      change ((dict.set entry.1 entry.2).update rest).get? key = some entry.2
      rw [get?_update_of_not_mem later, same, get?_set_self]

private theorem get?_update_eq_some_iff (nodup : (entries.map Prod.fst).Nodup) :
    (dict.update entries).get? key = some value ↔
      (key, value) ∈ entries ∨ key ∉ entries.map Prod.fst ∧ dict.get? key = some value := by
  induction entries generalizing dict with
  | nil => simp [update]
  | cons entry rest ih =>
    obtain ⟨other, stored⟩ := entry
    obtain ⟨notLater, restNodup⟩ := List.nodup_cons.mp nodup
    change ((dict.set other stored).update rest).get? key = some value ↔ _
    rw [ih restNodup, get?_set]
    by_cases same : key = other
    · subst same
      have notMember : (key, value) ∉ rest := fun member =>
        notLater (List.mem_map.mpr ⟨_, member, rfl⟩)
      simp [notMember, show key ∉ rest.map Prod.fst from notLater, eq_comm]
    · simp [same]

/-- What an association list without repeated keys stores. -/
theorem get?_ofList_eq_some_iff (nodup : (entries.map Prod.fst).Nodup) :
    (ofList entries).get? key = some value ↔ (key, value) ∈ entries := by
  rw [ofList, get?_update_eq_some_iff nodup, get?_empty]
  simp

theorem mem_keys_iff_get? : key ∈ dict.keys ↔ ∃ value, dict.get? key = some value := by
  simp only [mem_keys_iff, get?_eq_some_iff]

theorem mem_values_iff : value ∈ dict.values ↔ ∃ key, dict.get? key = some value := by
  simp [values, get?_eq_some_iff]

private theorem find_map_snd (value : α → β → γ) (key : α) (entries : List (α × β)) :
    find key (entries.map fun entry => (entry.1, value entry.1 entry.2)) =
      (find key entries).map (value key) := by
  induction entries with
  | nil => rfl
  | cons entry rest ih =>
    by_cases same : entry.1 = key
    · simp [find, same]
    · simp [find, same, ih]

omit [DecidableEq α] in
/-- Rewrite every value, knowing its key. -/
def mapWithKey (dict : Dict α β) (value : α → β → γ) : Dict α γ where
  entries := dict.entries.map fun entry => (entry.1, value entry.1 entry.2)
  nodup := by
    rw [List.map_map]
    exact dict.nodup

theorem get?_mapWithKey (dict : Dict α β) (value : α → β → γ) (key : α) :
    (dict.mapWithKey value).get? key = (dict.get? key).map (value key) :=
  find_map_snd value key dict.entries

theorem get?_mapWithKey_eq_some_iff {value : α → β → γ} {image : γ} :
    (dict.mapWithKey value).get? key = some image ↔
      ∃ stored, dict.get? key = some stored ∧ value key stored = image := by
  rw [get?_mapWithKey, Option.map_eq_some_iff]

omit [DecidableEq α] in
private theorem nodup_filter_keys (keep : α × β → Bool) (nodup : (entries.map Prod.fst).Nodup) :
    ((entries.filter keep).map Prod.fst).Nodup :=
  nodup.sublist (List.filter_sublist.map _)

/-- Remove a key. -/
def erase (dict : Dict α β) (key : α) : Dict α β :=
  ⟨dict.entries.filter fun entry => entry.1 ≠ key, nodup_filter_keys _ dict.nodup⟩

theorem get?_erase (dict : Dict α β) (key other : α) :
    (dict.erase key).get? other = if other = key then none else dict.get? other := by
  obtain ⟨entries, nodup⟩ := dict
  change find other (entries.filter fun entry => entry.1 ≠ key) =
    if other = key then none else find other entries
  clear nodup
  induction entries with
  | nil => simp [find]
  | cons entry rest ih =>
    by_cases removed : entry.1 = key
    · rw [List.filter_cons_of_neg (by simpa using removed), ih]
      by_cases same : other = key
      · simp [same]
      · simp [same, find, removed, Ne.symm same]
    · rw [List.filter_cons_of_pos (by simpa using removed)]
      by_cases found : entry.1 = other
      · have kept : other ≠ key := fun same => removed (found.trans same)
        simp [find, found, kept]
      · simp only [find, if_neg found]
        exact ih

private theorem sum_place {M : Type w} [AddCommMonoid M] (weight : β → M) (key : α) (value : β)
    (entries : List (α × β)) : ((place key value entries).map fun entry => weight entry.2).sum +
        (find key entries).elim 0 weight =
      (entries.map fun entry => weight entry.2).sum + weight value := by
  induction entries with
  | nil => simp [place, find]
  | cons entry rest ih =>
    rcases entry with ⟨first, old⟩
    by_cases same : first = key
    · simp only [place, find, if_pos same, List.map_cons, List.sum_cons, Option.elim_some]
      abel
    · simp only [place, find, if_neg same, List.map_cons, List.sum_cons]
      rw [add_assoc, ih, add_assoc]

/-- Storing a value replaces the weight of the old one in a sum over all values. -/
theorem sum_values_set {M : Type w} [AddCommMonoid M] (weight : β → M) (dict : Dict α β)
    (key : α) (value : β) :
    ((dict.set key value).values.map weight).sum + (dict.get? key).elim 0 weight =
      (dict.values.map weight).sum + weight value := by
  simpa [values, set, get?, Function.comp_def] using sum_place weight key value dict.entries

/-- Two dictionaries with the same lookups, whatever their insertion orders. -/
def Same (first second : Dict α β) : Prop :=
  ∀ key, first.get? key = second.get? key

end Dict

end AgentForge.Library
