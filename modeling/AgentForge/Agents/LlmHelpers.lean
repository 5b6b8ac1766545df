import AgentForge.Domain.Instance
import AgentForge.Library.Text

/-!
# Reading JSON from a model's answer

`_extract_json` takes a fence off the answer before it hands the rest to the JSON
parser.  The fence is found by splitting at triple backticks, so a value whose
serialisation has none in it is read back from any fence, and a value with one
is cut inside a string.
-/

namespace AgentForge.Agents

open Domain Library

/-- What `str.strip` removes: white space of the Unicode standard. -/
def isSpace (character : Char) : Bool :=
  let code := character.toNat
  (9 ≤ code && code ≤ 13) || (28 ≤ code && code ≤ 32) || code = 0x85 || code = 0xA0 ||
    code = 0x1680 || (0x2000 ≤ code && code ≤ 0x200A) || code = 0x2028 || code = 0x2029 ||
    code = 0x202F || code = 0x205F || code = 0x3000

def backtick : Char := Char.ofNat 96

/-- Three backticks. -/
def fence : Text := List.replicate 3 backtick

/-- The tag of a JSON fence. -/
def tag : Text := ['j', 's', 'o', 'n']

/-- What `_extract_json` raises: errors of the parser, and the missing part of a
split. -/
inductive ExtractError
  | decode (message : String)
  | index
  deriving DecidableEq, Repr

/-- Take the tag of a fence off. -/
def untag (text : Text) : Text :=
  if tag <+: text then text.drop tag.length else text

/-- `_extract_json`, for a parser `loads`. -/
def extractJson (loads : Text → Except ExtractError Json) (text : Text) :
    Except ExtractError Json :=
  let text := strip isSpace text
  if fence <+: text then
    match (split fence 2 text)[1]? with
    | none => .error .index
    | some fenced => loads (strip isSpace (strip (· = backtick) (untag fenced)))
  else
    loads text

/-- What a serialisation can begin with. -/
def opening : Text :=
  ['{', '[', '"', '-', '0', '1', '2', '3', '4', '5', '6', '7', '8', '9', 't', 'f', 'n']

/-- What a serialisation can end with. -/
def closing : Text :=
  ['}', ']', '"', '0', '1', '2', '3', '4', '5', '6', '7', '8', '9', 'e', 'l']

/-- A serialisation of a value, for a parser.  Backticks occur in strings only,
so a text with a fence in it is a string, an array or an object, and no proper
initial part of these is a JSON text. -/
structure Serialises (loads : Text → Except ExtractError Json) (text : Text) (value : Json) :
    Prop where
  parses : loads text = .ok value
  opens : ∃ first rest, text = first :: rest ∧ first ∈ opening
  closes : ∃ rest last, text = rest ++ [last] ∧ last ∈ closing
  uncut : fence <:+: text → ∀ part, part <+: text → part ≠ text →
    ∀ other, loads part ≠ .ok other

/-- White space of any kind and length. -/
def Blank (text : Text) : Prop :=
  ∀ character ∈ text, isSpace character = true

/-- A value is read back from its serialisation, alone and in either fence. -/
def ReadsBack (loads : Text → Except ExtractError Json) (text : Text) (value : Json) : Prop :=
  ∀ outer inner inner' outer', Blank outer → Blank inner → Blank inner' → Blank outer' →
    extractJson loads (outer ++ text ++ outer') = .ok value ∧
    extractJson loads (outer ++ (fence ++ inner ++ text ++ inner' ++ fence) ++ outer') =
      .ok value ∧
    extractJson loads (outer ++ (fence ++ tag ++ inner ++ text ++ inner' ++ fence) ++ outer') =
      .ok value

section Characters

variable {character : Char}

private theorem ends_plain :
    (opening ++ closing).all (fun character => !isSpace character && character != backtick) =
      true := by
  decide

private theorem plain_of_mem (ends : character ∈ opening ++ closing) :
    isSpace character = false ∧ character ≠ backtick := by
  simpa using List.all_eq_true.mp ends_plain character ends

private theorem not_isSpace_opening (opens : character ∈ opening) : isSpace character = false :=
  (plain_of_mem (List.mem_append_left closing opens)).1

private theorem not_isSpace_closing (closes : character ∈ closing) : isSpace character = false :=
  (plain_of_mem (List.mem_append_right opening closes)).1

private theorem ne_backtick_opening (opens : character ∈ opening) : character ≠ backtick :=
  (plain_of_mem (List.mem_append_left closing opens)).2

private theorem ne_backtick_closing (closes : character ∈ closing) : character ≠ backtick :=
  (plain_of_mem (List.mem_append_right opening closes)).2

private theorem not_isSpace_backtick : isSpace backtick = false := by
  decide

private theorem not_mem_of_blank {text : Text} (blank : Blank text) : backtick ∉ text := by
  intro member
  exact absurd (blank backtick member) (by rw [not_isSpace_backtick]; simp)

end Characters

section Extraction

variable {loads : Text → Except ExtractError Json} {text inner inner' outer outer' : Text}
  {value : Json}

/-- A fenced text is cut at its second fence. -/
private theorem extractJson_fenced (loads : Text → Except ExtractError Json)
    {body fenced after : Text} (blank : Blank outer) (blank' : Blank outer')
    (found : cut fence (body ++ fence) = some (fenced, after)) :
    extractJson loads (outer ++ (fence ++ body ++ fence) ++ outer') =
      loads (strip isSpace (strip (· = backtick) (untag fenced))) := by
  have bounded : Bounded isSpace (fence ++ body ++ fence) :=
    ⟨⟨backtick, _, rfl, not_isSpace_backtick⟩,
      fence ++ body ++ List.replicate 2 backtick, backtick, by simp [fence, List.replicate],
      not_isSpace_backtick⟩
  have opened : cut fence (fence ++ body ++ fence) = some ([], body ++ fence) := by
    have none : ¬ List.replicate 3 backtick <:+: [] := by simp
    simpa [fence] using cut_replicate (by decide) none (by simp) (body ++ fence)
  have isFenced : fence <+: fence ++ body ++ fence := by simp
  simp only [extractJson, strip_surrounded bounded blank blank', if_pos isFenced, split, opened,
    found]
  rfl

variable (serialises : Serialises loads text value)

include serialises

private theorem Serialises.bounded : Bounded isSpace text ∧ Bounded (· = backtick) text := by
  obtain ⟨first, rest, opened, opens⟩ := serialises.opens
  obtain ⟨others, last, closed, closes⟩ := serialises.closes
  constructor
  · exact ⟨⟨first, rest, opened, not_isSpace_opening opens⟩,
      others, last, closed, not_isSpace_closing closes⟩
  · exact ⟨⟨first, rest, opened, by simpa using ne_backtick_opening opens⟩,
      others, last, closed, by simpa using ne_backtick_closing closes⟩

omit serialises in
private theorem wanted_of_blank (blank : Blank text) :
    ∀ character ∈ text, decide (character = backtick) = false := by
  intro character member
  rw [decide_eq_false_iff_not]
  rintro rfl
  exact not_mem_of_blank blank member

/-- The text between two fences: a serialisation with white space around it. -/
private theorem loads_body (blank : Blank inner) (blank' : Blank inner') :
    loads (strip isSpace (strip (· = backtick) (inner ++ text ++ inner'))) = .ok value := by
  obtain ⟨spaces, backticks⟩ := serialises.bounded
  have kept := strip_of_bounded
    (backticks.surrounded (wanted_of_blank blank) (wanted_of_blank blank'))
  rw [kept, strip_surrounded spaces blank blank']
  exact serialises.parses

omit serialises in
private theorem untag_of_head
    (head : ∀ character ∈ text.head?, isSpace character = true ∨ character ∈ opening) :
    untag text = text := by
  unfold untag
  rw [if_neg]
  intro tagged
  have isHead : 'j' ∈ text.head? := mem_head?_of_initial tagged rfl
  exact absurd (head 'j' isHead) (by decide)

private theorem untag_body (blank : Blank inner) :
    untag (inner ++ text ++ inner') = inner ++ text ++ inner' := by
  obtain ⟨first, rest, opened, opens⟩ := serialises.opens
  apply untag_of_head
  intro character isHead
  cases inner with
  | nil =>
    rw [opened] at isHead
    cases isHead
    exact .inr opens
  | cons space inner =>
    cases isHead
    exact .inl (blank _ (by simp))

/-- A text without a fence in it reaches from one fence to the next. -/
private theorem cut_body {lead : Text} (unfenced : ¬ fence <:+: text) (clean : backtick ∉ lead)
    (blank : Blank inner') :
    cut fence (lead ++ text ++ inner' ++ fence) = some (lead ++ text ++ inner', []) := by
  have bounded : Bounded (· = backtick) (lead ++ text ++ inner') := by
    apply serialises.bounded.2.surrounded
    · intro character member
      rw [decide_eq_false_iff_not]
      rintro rfl
      exact clean member
    · exact wanted_of_blank blank
  have absent : ¬ List.replicate 3 backtick <:+: lead ++ text ++ inner' := fun occurs =>
    unfenced (infix_of_surrounded (by decide) clean (not_mem_of_blank blank) occurs)
  simpa [fence] using cut_replicate (by decide) absent (bounded.ne_append (by simp)) []

private theorem readsBack_of_unfenced (unfenced : ¬ fence <:+: text) :
    ReadsBack loads text value := by
  intro outer inner inner' outer' blankOuter blank blank' blankOuter'
  refine ⟨?_, ?_, ?_⟩
  · have unopened : ¬ fence <+: text := fun starts => unfenced starts.isInfix
    simp only [extractJson, strip_surrounded serialises.bounded.1 blankOuter blankOuter',
      if_neg unopened]
    exact serialises.parses
  · have found := cut_body serialises unfenced (not_mem_of_blank blank) blank'
    have extracted := extractJson_fenced loads blankOuter blankOuter' found
    rw [untag_body serialises blank, loads_body serialises blank blank'] at extracted
    simpa using extracted
  · have clean : backtick ∉ tag ++ inner := by
      rw [List.mem_append, not_or]
      exact ⟨by decide, not_mem_of_blank blank⟩
    have found := cut_body serialises unfenced clean blank'
    have extracted := extractJson_fenced loads blankOuter blankOuter' found
    have untagged : untag (tag ++ inner ++ text ++ inner') = inner ++ text ++ inner' := by
      simp [untag]
    rw [untagged, loads_body serialises blank blank'] at extracted
    simpa using extracted

/-- A fence within a string is taken for the closing one, and the parser gets an
initial part of the serialisation. -/
private theorem not_readsBack_of_fenced (fenced : fence <:+: text) :
    ¬ ReadsBack loads text value := by
  intro readsBack
  obtain ⟨before, after, same⟩ := fenced
  obtain ⟨first, others, opened, opens⟩ := serialises.opens
  have nonempty : fence ≠ [] := by decide
  obtain ⟨shorter, rest, found, bound⟩ := exists_cut nonempty before (after ++ fence)
  have body : before ++ fence ++ (after ++ fence) = text ++ fence := by simp [← same]
  rw [body] at found
  have starts : shorter <+: text := by
    have whole := eq_of_cut found
    rw [List.append_assoc] at whole
    refine List.prefix_of_prefix_length_le ⟨_, whole.symm⟩ ⟨_, rfl⟩ ?_
    rw [← same]
    simp only [List.length_append]
    omega
  -- The part begins as the serialisation does, so only its end can be stripped.
  have head : ∀ character ∈ shorter.head?, character ∈ opening := by
    intro character isHead
    have textHead := mem_head?_of_initial starts isHead
    rw [opened] at textHead
    cases textHead
    exact opens
  have untagged : untag shorter = shorter :=
    untag_of_head fun character isHead => .inr (head character isHead)
  have unquoted : strip (· = backtick) shorter <+: shorter :=
    strip_initial fun character isHead => by simpa using ne_backtick_opening (head character isHead)
  have stripped : strip isSpace (strip (· = backtick) shorter) <+: shorter :=
    (strip_initial fun character isHead =>
      not_isSpace_opening (head character (mem_head?_of_initial unquoted isHead))).trans unquoted
  have blank : Blank [] := by simp [Blank]
  have extracted := extractJson_fenced loads blank blank found
  rw [untagged] at extracted
  have read := (readsBack [] [] [] [] blank blank blank blank).2.1
  simp only [List.nil_append, List.append_nil] at read extracted
  refine serialises.uncut ⟨before, after, same⟩ _ (stripped.trans starts) ?_ value
    (extracted.symm.trans read)
  intro whole
  have length := (congrArg List.length whole).symm.trans_le stripped.length_le
  rw [← same] at length
  simp only [List.length_append, fence, List.length_replicate] at length
  omega

end Extraction

/-- A value is read back from every fence exactly if no fence is within its
serialisation. -/
theorem fenced_json_read_back_iff {loads : Text → Except ExtractError Json} {text : Text}
    {value : Json} (serialises : Serialises loads text value) :
    ReadsBack loads text value ↔ ¬ fence <:+: text := by
  constructor
  · intro readsBack fenced
    exact not_readsBack_of_fenced serialises fenced readsBack
  · exact readsBack_of_unfenced serialises

/-- A parser that knows one text. -/
def knows (text : Text) (value : Json) (input : Text) : Except ExtractError Json :=
  if input = text then .ok value else .error (.decode "unexpected end of data")

theorem serialises_knows {text : Text} {value : Json}
    (opens : ∃ first rest, text = first :: rest ∧ first ∈ opening)
    (closes : ∃ rest last, text = rest ++ [last] ∧ last ∈ closing) :
    Serialises (knows text value) text value where
  parses := by simp [knows]
  opens := opens
  closes := closes
  uncut := by
    intro _ part _ different other
    simp [knows, different]

/-- The serialisation of an object whose strings hold one and two backticks. -/
def quotedTicks : Text :=
  "\x7b\"one\": \"`\", \"two\": \"``\"\x7d".toList

def ticks : Json :=
  .obj [("one", .str "`"), ("two", .str "``")]

theorem fenced_json_read_back_ticks :
    ReadsBack (knows quotedTicks ticks) quotedTicks ticks := by
  apply (fenced_json_read_back_iff (serialises_knows ⟨quotedTicks.head (by decide),
    quotedTicks.tail, by decide, by decide⟩ ⟨quotedTicks.dropLast, quotedTicks.getLast (by decide),
    by decide, by decide⟩)).mpr
  decide

/-- The serialisation of a string that consists of three backticks. -/
def quotedFence : Text :=
  '"' :: fence ++ ['"']

/-- A string with a fence in it is not read back: the parser gets its opening
quote. -/
theorem quoted_fence_lost :
    Serialises (knows quotedFence (.str (String.ofList fence))) quotedFence
      (.str (String.ofList fence)) ∧
    extractJson (knows quotedFence (.str (String.ofList fence)))
        (fence ++ quotedFence ++ fence) = .error (.decode "unexpected end of data") ∧
    ¬ ReadsBack (knows quotedFence (.str (String.ofList fence))) quotedFence
      (.str (String.ofList fence)) := by
  refine ⟨serialises_knows ⟨_, _, rfl, by decide⟩ ⟨'"' :: fence, '"', rfl, by decide⟩, rfl, ?_⟩
  intro readsBack
  have blank : Blank [] := by simp [Blank]
  cases (readsBack [] [] [] [] blank blank blank blank).2.1

end AgentForge.Agents
