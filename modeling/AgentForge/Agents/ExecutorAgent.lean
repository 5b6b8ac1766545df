import AgentForge.Domain.Instance
import Mathlib.Data.List.Basic

/-!
# The executor agent

The graph decide, act, respond, as the graph runtime runs it.  The model's
decisions are arbitrary JSON values.  The cap is compared with the number of
decisions, so the last decision that could ask for a tool is never acted upon,
and a decision that is neither an object nor empty makes the route raise.
-/

namespace AgentForge.Agents

open Domain Library

/-- `_MAX_TOOL_CALLS`. -/
def maxToolCalls : Nat := 5

/-- `_RECURSION_LIMIT`: the most nodes a run of the graph executes. -/
def recursionLimit : Nat := 40

/-- A registered tool; what a call returns may depend on the calls before it. -/
structure AgentTool where
  description : String
  call : List Json → Json → Json

/-- Tools by name. -/
abbrev ToolRegistry := Dict String AgentTool

/-- What a run can raise: errors of the interpreter, an unknown tool, and the limit
of the graph. -/
inductive AgentError
  | attribute (name : String)
  | key (name : String)
  | type
  | noTool (name : String)
  | recursion
  deriving DecidableEq, Repr

/-- One entry of `tool_results`. -/
structure ToolResult where
  tool : String
  args : Option Json
  result : Json

/-- `_State`, apart from the instruction, which only the prompts read. -/
structure ExecutorState where
  toolResults : List ToolResult := []
  iterations : Nat := 0
  decision : Option Json := none
  result : Option Json := none

inductive Node
  | decide
  | act
  | respond
  deriving DecidableEq, Repr

/-- Truth of a value. -/
def isTruthy : Json → Bool
  | .null => false
  | .bool value => value
  | .num value => value ≠ 0
  | .str value => value ≠ ""
  | .arr values => !values.isEmpty
  | .obj entries => !entries.isEmpty

/-- `value or {}`. -/
def orEmpty : Option Json → Json
  | some value => if isTruthy value then value else .obj []
  | none => .obj []

/-- `value.get(name)`, which only objects have. -/
def getField (value : Json) (name : String) : Except AgentError (Option Json) :=
  match value with
  | .obj entries => .ok (Dict.find name entries)
  | _ => .error (.attribute "get")

/-- `value[name]`. -/
def subscript (value : Json) (name : String) : Except AgentError Json :=
  match value with
  | .obj entries => (Dict.find name entries).elim (.error (.key name)) .ok
  | _ => .error .type

/-- Whether a field holds a text. -/
def holds (field : Option Json) (text : String) : Bool :=
  match field with
  | some (.str value) => value = text
  | _ => false

/-- The name of a registered tool. -/
def registered (tools : ToolRegistry) (field : Option Json) : Bool :=
  match field with
  | some (.str name) => (tools.get? name).isSome
  | _ => false

/-- What an agent runs with: its tools, the decisions and the final answer of the
model. -/
structure Executor where
  tools : ToolRegistry
  decisions : Nat → Json
  answer : String

namespace Executor

variable (agent : Executor)

/-- `_decide`. -/
def decideNode (state : ExecutorState) : ExecutorState :=
  { state with
    decision := some (agent.decisions state.iterations), iterations := state.iterations + 1 }

/-- `_route`. -/
def route (state : ExecutorState) : Except AgentError Node := do
  let decision := orEmpty state.decision
  let tool ← getField decision "tool"
  let action ← getField decision "action"
  pure (if holds action "tool" && registered agent.tools tool &&
      decide (state.iterations < maxToolCalls) then .act else .respond)

/-- `self._tools.get(name)`. -/
def getTool (name : Json) : Except AgentError (String × AgentTool) :=
  match name with
  | .str name => (agent.tools.get? name).elim (.error (.noTool name)) fun tool => .ok (name, tool)
  | _ => .error .type

/-- `_act`. -/
def act (state : ExecutorState) : Except AgentError ExecutorState := do
  let decision ← state.decision.elim (.error (.key "decision")) .ok
  let (name, tool) ← agent.getTool (← subscript decision "tool")
  let args ← getField decision "args"
  let result := tool.call (state.toolResults.map ToolResult.result) (orEmpty args)
  pure { state with
    toolResults := state.toolResults ++ [{ tool := name, args := args, result := result }] }

/-- `_respond`. -/
def respond (state : ExecutorState) : Except AgentError ExecutorState := do
  let decision := orEmpty state.decision
  let action ← getField decision "action"
  let answer ← getField decision "answer"
  pure { state with
    result :=
      match answer with
      | some value =>
          if holds action "final" && isTruthy value then some value else some (.str agent.answer)
      | none => some (.str agent.answer) }

/-- The compiled graph: run nodes along the declared edges until the end. -/
def runGraph : Nat → Node → ExecutorState → Except AgentError ExecutorState
  | 0, _, _ => .error .recursion
  | fuel + 1, .decide, state => do
      let decided := agent.decideNode state
      let next ← agent.route decided
      runGraph fuel next decided
  | fuel + 1, .act, state => do
      let acted ← agent.act state
      runGraph fuel .decide acted
  | _ + 1, .respond, state => agent.respond state

/-- `run`, up to the final state. -/
def run : Except AgentError ExecutorState :=
  agent.runGraph recursionLimit .decide {}

end Executor

/-! ## What the loop does -/

/-- A decision is an object that asks for a registered tool. -/
def asks (tools : ToolRegistry) : Json → Bool
  | .obj entries =>
      holds (Dict.find "action" entries) "tool" && registered tools (Dict.find "tool" entries)
  | _ => false

/-- A decision is an object or empty. -/
def isPlain : Json → Bool
  | .obj _ => true
  | value => !isTruthy value

namespace Executor

variable {agent : Executor} {state : ExecutorState} {decision : Json} {tools : ToolRegistry}

/-- The number of decisions, from the first on, that ask for a registered tool;
counted up to a bound. -/
def leadingAsks (agent : Executor) (bound : Nat) : Nat :=
  ((List.range bound).takeWhile fun index => asks agent.tools (agent.decisions index)).length

/-- The loop ends with a result after at most one decision more than tool calls
are allowed, and calls a tool for every leading decision that asks for one, up to
the cap. -/
def Loops (agent : Executor) : Prop :=
  ∃ final, agent.run = .ok final ∧ final.result.isSome = true ∧
    final.iterations ≤ maxToolCalls + 1 ∧
    final.toolResults.length = agent.leadingAsks maxToolCalls

/-- The fields of a plain decision. -/
private def fields : Json → List (String × Json)
  | .obj entries => entries
  | _ => []

private theorem orEmpty_of_plain (plain : isPlain decision = true) :
    orEmpty (some decision) = .obj (fields decision) := by
  cases decision with
  | obj entries =>
    cases entries with
    | nil => rfl
    | cons => rfl
  | _ =>
    simp only [isPlain, Bool.not_eq_true'] at plain
    simp [orEmpty, plain, fields]

private theorem asks_eq_fields (tools : ToolRegistry) (decision : Json) :
    asks tools decision = (holds (Dict.find "action" (fields decision)) "tool" &&
      registered tools (Dict.find "tool" (fields decision))) := by
  cases decision <;> rfl

theorem isPlain_of_asks (asking : asks tools decision = true) : isPlain decision = true := by
  cases decision with
  | obj entries => rfl
  | _ => cases asking

theorem exists_tool_of_asks (asking : asks tools decision = true) :
    ∃ entries name tool, decision = .obj entries ∧
      Dict.find "tool" entries = some (.str name) ∧ tools.get? name = some tool := by
  cases decision with
  | obj entries =>
    simp only [asks, Bool.and_eq_true] at asking
    obtain ⟨_, known⟩ := asking
    unfold registered at known
    split at known
    · rename_i name found
      obtain ⟨tool, stored⟩ := Option.isSome_iff_exists.mp known
      exact ⟨entries, name, tool, rfl, found, stored⟩
    · cases known
  | _ => cases asking

theorem route_of_plain (plain : isPlain (agent.decisions state.iterations) = true) :
    agent.route (agent.decideNode state) =
      .ok (if asks agent.tools (agent.decisions state.iterations) &&
        decide (state.iterations + 1 < maxToolCalls) then .act else .respond) := by
  simp only [route, decideNode, orEmpty_of_plain plain, asks_eq_fields]
  rfl

/-- A decision that asks is acted upon below the cap. -/
theorem runGraph_of_asks (fuel : Nat)
    (asking : asks agent.tools (agent.decisions state.iterations) = true)
    (allowed : state.iterations + 1 < maxToolCalls) :
    ∃ acted, acted.iterations = state.iterations + 1 ∧
      acted.toolResults.length = state.toolResults.length + 1 ∧
      agent.runGraph (fuel + 2) .decide state = agent.runGraph fuel .decide acted := by
  have routed := route_of_plain (isPlain_of_asks asking)
  rw [asking, decide_eq_true allowed] at routed
  obtain ⟨acted, actedOk, iterations, length⟩ : ∃ acted,
      agent.act (agent.decideNode state) = .ok acted ∧
        acted.iterations = state.iterations + 1 ∧
        acted.toolResults.length = state.toolResults.length + 1 := by
    obtain ⟨entries, name, tool, object, found, stored⟩ := exists_tool_of_asks asking
    simp only [act, decideNode, object, Option.elim_some, subscript, found, getTool, stored,
      getField, bind, Except.bind, pure, Except.pure]
    exact ⟨_, rfl, rfl, List.length_append⟩
  refine ⟨acted, iterations, length, ?_⟩
  simp only [runGraph, routed, actedOk, bind, Except.bind, Bool.and_self, if_true]

/-- Any other plain decision ends the loop with a result. -/
theorem runGraph_of_responds (fuel : Nat)
    (plain : isPlain (agent.decisions state.iterations) = true)
    (responds : asks agent.tools (agent.decisions state.iterations) = false ∨
      maxToolCalls ≤ state.iterations + 1) :
    ∃ final, agent.runGraph (fuel + 2) .decide state = .ok final ∧
      final.result.isSome = true ∧ final.iterations = state.iterations + 1 ∧
      final.toolResults = state.toolResults := by
  have routed := route_of_plain plain
  have other : (asks agent.tools (agent.decisions state.iterations) &&
      decide (state.iterations + 1 < maxToolCalls)) = false := by
    rcases responds with quiet | capped
    · rw [quiet, Bool.false_and]
    · rw [decide_eq_false (Nat.not_lt.mpr capped), Bool.and_false]
  rw [other] at routed
  obtain ⟨final, finalOk, result, rest⟩ : ∃ final,
      agent.respond (agent.decideNode state) = .ok final ∧ final.result.isSome = true ∧
        final.iterations = state.iterations + 1 ∧ final.toolResults = state.toolResults := by
    simp only [respond, decideNode, orEmpty_of_plain plain, getField, bind, Except.bind, pure,
      Except.pure]
    refine ⟨_, rfl, ?_, rfl, rfl⟩
    dsimp only
    split
    · split <;> rfl
    · rfl
  refine ⟨final, ?_, result, rest⟩
  simp only [runGraph, routed, finalOk, bind, Except.bind, Bool.false_eq_true, if_false]

/-- A decision that is not plain makes the route raise. -/
theorem runGraph_of_not_plain (fuel : Nat)
    (odd : isPlain (agent.decisions state.iterations) = false) :
    agent.runGraph (fuel + 2) .decide state = .error (.attribute "get") := by
  have raised : agent.route (agent.decideNode state) = .error (.attribute "get") := by
    unfold route decideNode
    cases decided : agent.decisions state.iterations with
    | obj entries =>
      rw [decided] at odd
      cases odd
    | _ =>
      rw [decided] at odd
      simp only [isPlain, Bool.not_eq_false'] at odd
      simp [orEmpty, odd, getField, bind, Except.bind]
  simp only [runGraph, raised, bind, Except.bind]

/-- The loop state after a number of decisions that all ask. -/
theorem run_of_leading {count : Nat} (allowed : count < maxToolCalls)
    (asking : ∀ index < count, asks agent.tools (agent.decisions index) = true) :
    ∃ state : ExecutorState, state.iterations = count ∧ state.toolResults.length = count ∧
      agent.run = agent.runGraph (recursionLimit - 2 * (count + 1) + 2) .decide state := by
  induction count with
  | zero => exact ⟨{}, rfl, rfl, rfl⟩
  | succ count ih =>
    obtain ⟨state, rfl, length, running⟩ := ih (Nat.lt_of_succ_lt allowed)
      fun index less => asking index (Nat.lt_succ_of_lt less)
    have fuel : recursionLimit - 2 * (state.iterations + 1) =
        recursionLimit - 2 * (state.iterations + 1 + 1) + 2 := by
      simp only [maxToolCalls, recursionLimit] at allowed ⊢
      omega
    obtain ⟨acted, iterations, actedLength, continued⟩ :=
      runGraph_of_asks (recursionLimit - 2 * (state.iterations + 1))
        (asking state.iterations (Nat.lt_succ_self _)) allowed
    exact ⟨acted, iterations, by rw [actedLength, length], by rw [running, continued, fuel]⟩

/-- The decisions counted as leading ask, and the next one, if within the bound,
does not. -/
theorem leadingAsks_spec (agent : Executor) (bound : Nat) : agent.leadingAsks bound ≤ bound ∧
      (∀ index < agent.leadingAsks bound, asks agent.tools (agent.decisions index) = true) ∧
      (agent.leadingAsks bound < bound →
        asks agent.tools (agent.decisions (agent.leadingAsks bound)) = false) := by
  let quiet := fun index => !asks agent.tools (agent.decisions index)
  have within : (List.range bound).findIdx quiet ≤ bound := by
    have length : (List.range bound).findIdx quiet ≤ (List.range bound).length :=
      List.findIdx_le_length
    rwa [List.length_range] at length
  have same : agent.leadingAsks bound = (List.range bound).findIdx quiet := by
    rw [leadingAsks, List.takeWhile_eq_take_findIdx_not, List.length_take, List.length_range]
    exact Nat.min_eq_left within
  rw [same]
  refine ⟨within, ?_, ?_⟩
  · intro index less
    have loud := List.not_of_lt_findIdx less
    simpa [quiet] using loud
  · intro less
    have valid : (List.range bound).findIdx quiet < (List.range bound).length := by
      rwa [List.length_range]
    have isQuiet := List.findIdx_getElem (w := valid)
    simpa [quiet] using isQuiet

end Executor

open Executor in
/-- The loop does what is said of it exactly if fewer decisions than the cap ask
for a tool at first, and the next one is plain. -/
theorem tool_loop_iff (agent : Executor) :
    agent.Loops ↔ agent.leadingAsks maxToolCalls < maxToolCalls ∧
      isPlain (agent.decisions (agent.leadingAsks maxToolCalls)) = true := by
  obtain ⟨bounded, asking, quiet⟩ := leadingAsks_spec agent maxToolCalls
  constructor
  · rintro ⟨final, finished, _, _, calls⟩
    by_cases fewer : agent.leadingAsks maxToolCalls < maxToolCalls
    · obtain ⟨state, iterations, _, running⟩ := run_of_leading fewer asking
      refine ⟨fewer, ?_⟩
      by_contra odd
      rw [← iterations, Bool.not_eq_true] at odd
      rw [running, runGraph_of_not_plain _ odd] at finished
      cases finished
    · -- All decisions up to the cap ask, and the last of them gets no call.
      have all : agent.leadingAsks maxToolCalls = maxToolCalls :=
        Nat.le_antisymm bounded (Nat.not_lt.mp fewer)
      rw [all] at asking calls
      have leading : ∀ index < maxToolCalls - 1, asks agent.tools (agent.decisions index) = true :=
        fun index less => asking index (Nat.lt_of_lt_pred less)
      obtain ⟨state, iterations, length, running⟩ := run_of_leading (by decide) leading
      have last := asking state.iterations (by rw [iterations]; decide)
      obtain ⟨other, otherOk, _, _, results⟩ :=
        runGraph_of_responds _ (isPlain_of_asks last) (.inr (by rw [iterations]; decide))
      rw [running, otherOk] at finished
      cases finished
      rw [results, length] at calls
      exact absurd calls (by decide)
  · rintro ⟨fewer, plain⟩
    obtain ⟨state, iterations, length, running⟩ := run_of_leading fewer asking
    have isQuiet := quiet fewer
    rw [← iterations] at plain isQuiet
    obtain ⟨final, finalOk, result, decisions, results⟩ :=
      runGraph_of_responds _ plain (.inl isQuiet)
    refine ⟨final, by rw [running, finalOk], result, ?_, by rw [results, length]⟩
    rw [decisions, iterations]
    exact Nat.add_le_add_right bounded 1

/-- An agent with one tool whose model gives the same decision every time. -/
def insistent (decision : Json) : Executor where
  tools := Dict.empty.set "loop"
    { description := "never satisfied", call := fun _ _ => .str "again" }
  decisions := fun _ => decision
  answer := "final answer"

/-- Five decisions ask and four calls are made; a list for a decision raises. -/
theorem tool_loop_off_by_one :
    (∃ final, (insistent (.obj [("action", .str "tool"), ("tool", .str "loop")])).run = .ok final ∧
      final.toolResults.length = 4) ∧
    ¬ (insistent (.obj [("action", .str "tool"), ("tool", .str "loop")])).Loops ∧
    (insistent (.arr [.null])).run.isOk = false ∧
    ¬ (insistent (.arr [.null])).Loops := by
  refine ⟨⟨_, rfl, rfl⟩, ?_, rfl, ?_⟩
  · rintro ⟨final, finished, _, _, calls⟩
    cases finished
    cases calls
  · rintro ⟨final, finished, _⟩
    cases finished

end AgentForge.Agents
