import AgentForge.Domain.Instance
import AgentForge.Library.Text

/-!
# Paths into an output

`resolve_path` walks dotted parts through objects and arrays.  A part is tested
with `lstrip` and `isdigit` and converted with `int`; these are two notions of a
number, and the walk returns what the path denotes as long as they agree on the
parts that meet an array.
-/

namespace AgentForge.Evals

open Domain Library

/-- What the interpreter knows of characters: those for which `str.isdigit`
holds, and the values of the decimal ones, which are among them. -/
structure CharacterTable where
  isDigit : Char → Bool
  decimal : Char → Option Nat
  isDigit_of_decimal : ∀ character, (decimal character).isSome = true → isDigit character = true
  isDigit_hyphen : isDigit '-' = false

/-- The most digits `int` converts, unless the interpreter is told otherwise. -/
def maxDigits : Nat := 4300

/-- `ValueError`, as `int` raises it. -/
inductive ValueError
  | invalidLiteral (text : Text)
  | tooManyDigits (count : Nat)
  deriving DecidableEq, Repr

/-- The sign of a number and what follows it. -/
def sign : Text → Bool × Text
  | '-' :: digits => (true, digits)
  | digits => (false, digits)

/-- A value with a sign. -/
def signed (negative : Bool) (value : Nat) : Int :=
  if negative then -value else value

namespace CharacterTable

variable (table : CharacterTable)

/-- `str.isdigit`. -/
def allDigits (text : Text) : Bool :=
  !text.isEmpty && text.all table.isDigit

/-- The number that decimal characters denote. -/
def decimalValue (text : Text) : Option Nat :=
  text.foldlM (fun value character => (table.decimal character).map (value * 10 + ·)) 0

/-- `int` of hyphens and digits: at most one hyphen, and decimal characters. -/
def int (text : Text) : Except ValueError Int :=
  let (negative, digits) := sign text
  if digits.isEmpty then .error (.invalidLiteral text)
  else
    match table.decimalValue digits with
    | none => .error (.invalidLiteral text)
    | some value =>
        if maxDigits < digits.length then .error (.tooManyDigits digits.length)
        else .ok (signed negative value)

end CharacterTable

/-- `cur[idx] if -len(cur) <= idx < len(cur) else _MISSING`. -/
def element (values : List Json) (index : Int) : Option Json :=
  if -(values.length : Int) ≤ index ∧ index < values.length then
    values[(if index < 0 then index + values.length else index).toNat]?
  else none

/-- One part of a path; `none` is the missing marker. -/
def resolvePart (table : CharacterTable) (current : Json) (part : Text) :
    Except ValueError (Option Json) :=
  match current with
  | .obj entries => .ok (Dict.find (String.ofList part) entries)
  | .arr values =>
      if table.allDigits (part.dropWhile (· = '-')) then do
        let index ← table.int part
        pure (element values index)
      else .ok none
  | _ => .ok none

/-- The loop over the parts. -/
def resolveParts (table : CharacterTable) : Json → List Text → Except ValueError (Option Json)
  | current, [] => .ok (some current)
  | current, part :: rest => do
      match ← resolvePart table current part with
      | none => pure none
      | some next => resolveParts table next rest

def resolvePath (table : CharacterTable) (root : Json) (path : String) :
    Except ValueError (Option Json) :=
  if path = "" then .ok (some root) else resolveParts table root (path.toList.splitOn '.')

/-! ## What a path denotes -/

/-- The integer that a part denotes: decimal characters, perhaps after a hyphen. -/
def denotes (table : CharacterTable) (part : Text) : Option Int :=
  if (sign part).2 = [] then none
  else (table.decimalValue (sign part).2).map (signed (sign part).1)

/-- The value under a part: a lookup in an object, an element of an array. -/
def child (table : CharacterTable) (current : Json) (part : Text) : Option Json :=
  match current with
  | .obj entries => Dict.find (String.ofList part) entries
  | .arr values => (denotes table part).bind (element values)
  | _ => none

/-- The value that parts lead to. -/
def reach (table : CharacterTable) (root : Json) (parts : List Text) : Option Json :=
  parts.foldlM (child table) root

/-- The parts of a path; the empty path has none. -/
def partsOf (path : String) : List Text :=
  if path = "" then [] else path.toList.splitOn '.'

/-- A number as `int` reads it: at most one hyphen in front of decimal characters,
and not too many of them. -/
def Readable (table : CharacterTable) (part : Text) : Prop :=
  (∀ character ∈ (sign part).2, (table.decimal character).isSome = true) ∧
    (sign part).2.length ≤ maxDigits

/-- Every part that meets an array and looks like a number is readable. -/
def NumbersReadable (table : CharacterTable) (root : Json) (parts : List Text) : Prop :=
  ∀ prior part rest values, parts = prior ++ part :: rest →
    reach table root prior = some (.arr values) →
    table.allDigits (part.dropWhile (· = '-')) = true → Readable table part

/-- A path is resolved without an exception, to the value it leads to, and to the
missing marker exactly if some part leads nowhere. -/
structure Resolves (table : CharacterTable) (root : Json) (path : String) : Prop where
  value : resolvePath table root path = .ok (reach table root (partsOf path))
  missing : resolvePath table root path = .ok none ↔
    ∃ prior part rest current, partsOf path = prior ++ part :: rest ∧
      reach table root prior = some current ∧ child table current part = none

/-! ## Numbers -/

section Numbers

variable {table : CharacterTable} {part digits : Text}

theorem CharacterTable.exists_decimalValue_iff : (∃ value, table.decimalValue digits = some value) ↔
      ∀ character ∈ digits, (table.decimal character).isSome = true := by
  unfold CharacterTable.decimalValue
  generalize 0 = start
  induction digits generalizing start with
  | nil => simp
  | cons first rest ih =>
    rw [List.foldlM_cons]
    cases stored : table.decimal first with
    | none => simp [stored]
    | some value => simpa [stored] using ih (start * 10 + value)

theorem CharacterTable.decimal_hyphen : table.decimal '-' = none := by
  by_contra stored
  have isDigit := table.isDigit_of_decimal '-' (Option.isSome_iff_ne_none.mpr stored)
  rw [table.isDigit_hyphen] at isDigit
  cases isDigit

/-- What looks like a number has a character behind its sign. -/
private theorem sign_ne_nil (looks : table.allDigits (part.dropWhile (· = '-')) = true) :
    (sign part).2 ≠ [] := by
  unfold CharacterTable.allDigits at looks
  rw [Bool.and_eq_true] at looks
  rcases part with _ | ⟨first, digits⟩
  · cases looks.1
  · unfold sign
    split
    · rintro rfl
      simp_all
    · simp

theorem int_of_readable (looks : table.allDigits (part.dropWhile (· = '-')) = true)
    (readable : Readable table part) :
    ∃ index, table.int part = .ok index ∧ denotes table part = some index := by
  have nonempty := sign_ne_nil looks
  obtain ⟨value, read⟩ := CharacterTable.exists_decimalValue_iff.mpr readable.1
  refine ⟨signed (sign part).1 value, ?_, ?_⟩
  · simp [CharacterTable.int, nonempty, read, Nat.not_lt.mpr readable.2]
  · simp [denotes, nonempty, read]

theorem int_of_not_readable (unreadable : ¬ Readable table part) :
    ∃ failure, table.int part = .error failure := by
  unfold CharacterTable.int
  simp only
  by_cases nothing : (sign part).2.isEmpty = true
  · exact ⟨_, if_pos nothing⟩
  · rw [if_neg nothing]
    cases read : table.decimalValue (sign part).2 with
    | none => exact ⟨_, rfl⟩
    | some value =>
      have long : maxDigits < (sign part).2.length := by
        by_contra short
        exact unreadable ⟨CharacterTable.exists_decimalValue_iff.mp ⟨value, read⟩,
          Nat.not_lt.mp short⟩
      exact ⟨_, if_pos long⟩

private theorem dropWhile_eq_self {text : Text} (other : '-' ∉ text) :
    text.dropWhile (· = '-') = text := by
  cases text with
  | nil => rfl
  | cons first rest =>
    have different : first ≠ '-' := fun same => other (by simp [same])
    simp [different]

private theorem dropWhile_eq_sign (other : '-' ∉ (sign part).2) :
    part.dropWhile (· = '-') = (sign part).2 := by
  unfold sign at other ⊢
  split at other
  · simpa using dropWhile_eq_self other
  · exact dropWhile_eq_self other

/-- What does not look like a number denotes none. -/
theorem denotes_eq_none (looks : table.allDigits (part.dropWhile (· = '-')) = false) :
    denotes table part = none := by
  unfold denotes
  by_cases nothing : (sign part).2 = []
  · exact if_pos nothing
  · rw [if_neg nothing, Option.map_eq_none_iff]
    by_contra read
    have decimals := CharacterTable.exists_decimalValue_iff.mp (Option.ne_none_iff_exists'.mp read)
    have other : '-' ∉ (sign part).2 := by
      intro member
      have isDecimal := decimals '-' member
      rw [table.decimal_hyphen] at isDecimal
      cases isDecimal
    have digits : ∀ character ∈ (sign part).2, table.isDigit character = true :=
      fun character member => table.isDigit_of_decimal character (decimals character member)
    rw [dropWhile_eq_sign other, CharacterTable.allDigits, List.all_eq_true.mpr digits] at looks
    simp [nothing] at looks

end Numbers

/-! ## Walks -/

section Walks

variable {table : CharacterTable} {current root : Json} {part : Text} {parts : List Text}

/-- One part, if it is readable wherever it has to be read. -/
theorem resolvePart_eq_ok (readable : ∀ values, current = .arr values →
      table.allDigits (part.dropWhile (· = '-')) = true → Readable table part) :
    resolvePart table current part = .ok (child table current part) := by
  cases current with
  | arr values =>
    unfold resolvePart child
    cases looks : table.allDigits (part.dropWhile (· = '-')) with
    | false => simp [denotes_eq_none looks]
    | true =>
      obtain ⟨index, read, denoted⟩ := int_of_readable looks (readable values rfl looks)
      simp [read, denoted, bind, Except.bind, pure, Except.pure]
  | _ => rfl

theorem reach_cons (table : CharacterTable) (root : Json) (part : Text) (rest : List Text) :
    reach table root (part :: rest) = (child table root part).bind (reach table · rest) :=
  List.foldlM_cons

theorem numbersReadable_cons_iff {rest : List Text} : NumbersReadable table root (part :: rest) ↔
      (∀ values, root = .arr values → table.allDigits (part.dropWhile (· = '-')) = true →
        Readable table part) ∧
      ∀ next, child table root part = some next → NumbersReadable table next rest := by
  constructor
  · intro readable
    constructor
    · rintro values rfl looks
      exact readable [] part rest values rfl rfl looks
    · intro next found prior other later values split reached looks
      refine readable (part :: prior) other later values (by rw [split]; rfl) ?_ looks
      rw [reach_cons, found]
      exact reached
  · rintro ⟨first, later⟩ prior other others values split reached looks
    cases prior with
    | nil =>
      cases split
      cases reached
      exact first values rfl looks
    | cons head prior =>
      cases split
      rw [reach_cons] at reached
      obtain ⟨next, found, reached⟩ := Option.bind_eq_some_iff.mp reached
      exact later next found prior other others values rfl reached looks

/-- A walk returns what its parts lead to exactly if they are readable. -/
theorem resolveParts_eq_ok_iff : resolveParts table root parts = .ok (reach table root parts) ↔
      NumbersReadable table root parts := by
  induction parts generalizing root with
  | nil =>
    refine iff_of_true rfl ?_
    intro prior part rest values split
    simp at split
  | cons part rest ih =>
    rw [numbersReadable_cons_iff]
    by_cases first : ∀ values, root = .arr values →
        table.allDigits (part.dropWhile (· = '-')) = true → Readable table part
    · have here := resolvePart_eq_ok first
      rw [reach_cons]
      unfold resolveParts
      rw [here]
      cases found : child table root part with
      | none => exact iff_of_true rfl ⟨first, fun _ absurdity => nomatch absurdity⟩
      | some next =>
        change resolveParts table next rest = .ok (reach table next rest) ↔ _
        rw [ih]
        constructor
        · rintro later
          refine ⟨first, ?_⟩
          rintro _ ⟨⟩
          exact later
        · exact fun both => both.2 next rfl
    · refine iff_of_false ?_ fun both => first both.1
      push Not at first
      obtain ⟨values, rfl, looks, unreadable⟩ := first
      obtain ⟨failure, raised⟩ := int_of_not_readable unreadable
      simp [resolveParts, resolvePart, looks, raised, bind, Except.bind]

/-- A walk leads nowhere exactly if one of its parts does. -/
theorem reach_eq_none_iff : reach table root parts = none ↔
      ∃ prior part rest current, parts = prior ++ part :: rest ∧
        reach table root prior = some current ∧ child table current part = none := by
  induction parts generalizing root with
  | nil =>
    refine iff_of_false (by simp [reach]) ?_
    rintro ⟨prior, part, rest, _, split, _⟩
    simp at split
  | cons part rest ih =>
    rw [reach_cons]
    constructor
    · intro nowhere
      cases found : child table root part with
      | none => exact ⟨[], part, rest, root, rfl, rfl, found⟩
      | some next =>
        rw [found] at nowhere
        obtain ⟨prior, other, others, current, rfl, reached, missing⟩ := ih.mp nowhere
        refine ⟨part :: prior, other, others, current, rfl, ?_, missing⟩
        rw [reach_cons, found]
        exact reached
    · rintro ⟨prior, other, others, current, split, reached, missing⟩
      cases prior with
      | nil =>
        cases split
        cases reached
        rw [missing]
        rfl
      | cons first prior =>
        cases split
        rw [reach_cons] at reached
        obtain ⟨next, found, reached⟩ := Option.bind_eq_some_iff.mp reached
        rw [found]
        exact ih.mpr ⟨prior, other, others, current, rfl, reached, missing⟩

theorem resolvePath_eq (table : CharacterTable) (root : Json) (path : String) :
    resolvePath table root path = resolveParts table root (partsOf path) := by
  unfold resolvePath partsOf
  by_cases empty : path = ""
  · rw [if_pos empty, if_pos empty, resolveParts]
  · rw [if_neg empty, if_neg empty]

end Walks

/-- A path is resolved as it should be exactly if its numbers are readable. -/
theorem path_resolves_iff (table : CharacterTable) (root : Json) (path : String) :
    Resolves table root path ↔ NumbersReadable table root (partsOf path) := by
  constructor
  · intro resolves
    have value := resolves.value
    rw [resolvePath_eq] at value
    exact resolveParts_eq_ok_iff.mp value
  · intro readable
    have value := resolveParts_eq_ok_iff.mpr readable
    rw [← resolvePath_eq] at value
    refine ⟨value, ?_⟩
    rw [value, Except.ok.injEq]
    exact reach_eq_none_iff

/-- The digits of Latin text: the decimal ones, and three superscripts that are
digits without a decimal value. -/
def latin : CharacterTable where
  isDigit := fun character => character.isDigit || character ∈ ['²', '³', '¹']
  decimal := fun character =>
    if character.isDigit then some (character.toNat - '0'.toNat) else none
  isDigit_of_decimal := by
    intro character
    by_cases digit : character.isDigit = true
    · simp [digit]
    · simp [digit]
  isDigit_hyphen := by decide

/-- Two hyphens before a number, or a superscript, and the walk raises. -/
theorem unreadable_numbers_raise :
    resolvePath latin (.arr [.null]) "--1" = .error (.invalidLiteral "--1".toList) ∧
    resolvePath latin (.arr [.null]) "²" = .error (.invalidLiteral "²".toList) ∧
    ¬ Resolves latin (.arr [.null]) "--1" := by
  refine ⟨rfl, rfl, ?_⟩
  intro resolves
  cases resolves.value

end AgentForge.Evals
