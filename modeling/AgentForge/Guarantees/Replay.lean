import AgentForge.Engine.Executor
import AgentForge.Events.FoldLaws

/-!
# Replaying recorded model calls

A runner that decides by the answers of the model alone is run again with the
first of its recordings.  It takes the same decisions: the recorded calls are
answered from the log, the remaining ones by the client, and only these are
charged and recorded.
-/

namespace AgentForge.Guarantees

open Domain Engine Events Library

/-! ## Runners that decide by answers -/

/-- What a response says, apart from its raw form. -/
def content (response : LLMResponse) : LLMResponse :=
  { response with replayed := false }

/-- The codec of recordings loses nothing but the raw form. -/
theorem content_responseFromRecording (response : LLMResponse) :
    content (responseFromRecording (recordingFromResponse response)) = content response :=
  rfl

/-- A decision tree over the answers of the model. -/
inductive AnswerTree : RunnerCode → Prop
  | done (result : StepResult) : AnswerTree (.done result)
  | raise (failure : Exn) : AnswerTree (.raise failure)
  | ask {request : LLMRequest} {next : Except Exn LLMResponse → RunnerCode}
      (later : ∀ response, AnswerTree (next response))
      (blind : ∀ first second, content first = content second →
        next (.ok first) = next (.ok second)) :
      AnswerTree (.perform (.llm request) next)

/-! ## Conversations -/

/-- A client that knows its answers, and the requests it has been asked. -/
structure Client where
  script : List (Except Exn LLMCompletion)
  asked : List LLMRequest := []

/-- Every request is answered by the next line of the script, and no deadline
passes. -/
def Client.answers (client : Client) : (op : Op) → op.Result → Client → Prop
  | .deadlinePassed _, passed, next => passed = false ∧ next = client
  | .completeLLM _ request _, answer, next =>
      ∃ rest, client.script = answer :: rest ∧
        next = { script := rest, asked := client.asked ++ [request] }
  | _, _, _ => False

/-- The context after an answer of the client. -/
def heard (config : Config) (request : LLMRequest) (state : ContextState) :
    Except Exn LLMCompletion → ContextState
  | .ok completion =>
      { state with llmIndex := state.llmIndex + 1 }.recordCompletion config request completion
  | .error _ => { state with llmIndex := state.llmIndex + 1 }

/-- The request as the client sees it. -/
def routed (ctx : StepContext) (request : LLMRequest) : LLMRequest :=
  { request with taskType := if request.taskType = "" then ctx.agentType else request.taskType }

section Runs

variable {config : Config} {ctx : StepContext} {timeoutSeconds : Nat} {client final : Client}
  {request : LLMRequest} {next : Except Exn LLMResponse → RunnerCode} {state : ContextState}
  {ending : Ended × ContextState}

/-- The runner has come to its end. -/
abbrev Converses (config : Config) (ctx : StepContext) (timeoutSeconds : Nat) (client : Client)
    (code : RunnerCode) (state : ContextState) (final : Client) (ending : Ended × ContextState) :
    Prop :=
  Program.Steps Client.answers client (interpret config ctx timeoutSeconds code state) final
    (.done ending)

theorem converses_replayed_iff {recording : LLMRecording}
    (recorded : ctx.replayLlm[state.llmIndex]? = some recording) :
    Converses config ctx timeoutSeconds client (.perform (.llm request) next) state final ending ↔
      Converses config ctx timeoutSeconds client
        (next (.ok (responseFromRecording recording.response)))
        { state with llmIndex := state.llmIndex + 1 } final ending := by
  unfold Converses
  rw [interpret, StepContext.llm]
  simp only [recorded]
  constructor
  · intro run
    cases run with
    | step respond rest =>
      obtain ⟨rfl, rfl⟩ := respond
      exact rest
  · intro run
    exact .step ⟨rfl, rfl⟩ run

theorem converses_asked_iff (unrecorded : ctx.replayLlm[state.llmIndex]? = none)
    (wired : ctx.hasLlmClient = true) :
    Converses config ctx timeoutSeconds client (.perform (.llm request) next) state final ending ↔
      ∃ answer rest, client.script = answer :: rest ∧ Converses config ctx timeoutSeconds
          { script := rest, asked := client.asked ++ [routed ctx request] }
          (next (answer.map LLMCompletion.response)) (heard config request state answer) final
          ending := by
  unfold Converses
  rw [interpret, StepContext.llm]
  simp only [unrecorded, wired, if_true]
  constructor
  · intro run
    cases run with
    | step respond rest =>
      obtain ⟨rfl, rfl⟩ := respond
      cases rest with
      | @step _ _ _ _ answer _ _ respond rest =>
        obtain ⟨script, found, rfl⟩ := respond
        refine ⟨answer, script, found, ?_⟩
        cases answer with
        | ok completion => exact rest
        | error failure => exact rest
  · rintro ⟨answer, script, found, run⟩
    refine .step ⟨rfl, rfl⟩ (.step ⟨script, found, rfl⟩ ?_)
    cases answer with
    | ok completion => exact run
    | error failure => exact run

end Runs

/-! ## Two runs -/

section Replay

variable {config : Config} {ctx again : StepContext} {timeoutSeconds : Nat} {code : RunnerCode}
  {client final : Client} {state last : ContextState} {ended : Ended}
  {recordings : List LLMRecording} {asked : List LLMRequest}

@[simp]
theorem llmIndex_heard (config : Config) (request : LLMRequest) (state : ContextState)
    (answer : Except Exn LLMCompletion) :
    (heard config request state answer).llmIndex = state.llmIndex + 1 := by
  cases answer <;> rfl

/-- What the context keeps of an answer. -/
theorem exists_heard (config : Config) (request : LLMRequest) (answer : Except Exn LLMCompletion) :
    ∃ charges recordings, ∀ state : ContextState,
      (heard config request state answer).charges = state.charges ++ charges ∧
        (heard config request state answer).llmRecordings = state.llmRecordings ++ recordings := by
  cases answer with
  | ok completion => exact ⟨_, _, fun _ => ⟨rfl, rfl⟩⟩
  | error failure => exact ⟨[], [], fun state => by simp [heard]⟩

/-- A client whose answers are not in the log is asked from some index on. -/
def Unreplayed (ctx : StepContext) (index : Nat) : Prop :=
  ctx.hasLlmClient = true ∧ ∀ later, index ≤ later → ctx.replayLlm[later]? = none

theorem Unreplayed.succ {index : Nat} (unreplayed : Unreplayed ctx index) :
    Unreplayed ctx (index + 1) :=
  ⟨unreplayed.1, fun later le => unreplayed.2 later (Nat.le_of_succ_le le)⟩

variable (decides : AnswerTree code) {count : Nat}

include decides

/-- Recordings are only added. -/
theorem Converses.grown (unreplayed : Unreplayed ctx state.llmIndex)
    (run : Converses config ctx timeoutSeconds client code state final (ended, last)) :
    ∃ more, last.llmRecordings = state.llmRecordings ++ more := by
  induction decides generalizing client state with
  | done result =>
    cases run
    exact ⟨[], by simp⟩
  | raise failure =>
    cases run
    exact ⟨[], by simp⟩
  | @ask request next _ _ ih =>
    obtain ⟨answer, rest, _, run⟩ :=
      (converses_asked_iff (unreplayed.2 _ le_rfl) unreplayed.1).mp run
    obtain ⟨more, grown⟩ := ih _ (by simpa using unreplayed.succ) run
    obtain ⟨_, recordings, kept⟩ := exists_heard config request answer
    exact ⟨recordings ++ more, by rw [grown, (kept state).2, List.append_assoc]⟩

/-- Runs that ask the client from the same point on differ only in what was there
before. -/
theorem Converses.shift (unreplayed : Unreplayed ctx state.llmIndex) {fresh : ContextState}
    (unreplayedAgain : Unreplayed again fresh.llmIndex) (agent : again.agentType = ctx.agentType)
    (index : fresh.llmIndex = state.llmIndex) {charges : List CostEntry}
    (sameCharges : state.charges = charges ++ fresh.charges)
    (sameRecordings : state.llmRecordings = recordings ++ fresh.llmRecordings)
    {script : List (Except Exn LLMCompletion)} {before asked : List LLMRequest}
    (run : Converses config ctx timeoutSeconds ⟨script, before ++ asked⟩ code state final (ended,
      last)) : ∃ askedLater lastAgain,
      Converses config again timeoutSeconds ⟨script, asked⟩ code fresh
        ⟨final.script, askedLater⟩ (ended, lastAgain) ∧
      final.asked = before ++ askedLater ∧ last.charges = charges ++ lastAgain.charges ∧
      last.llmRecordings = recordings ++ lastAgain.llmRecordings := by
  induction decides generalizing script asked state fresh with
  | done result =>
    cases run
    exact ⟨asked, fresh, .refl _ _, rfl, sameCharges, sameRecordings⟩
  | raise failure =>
    cases run
    exact ⟨asked, fresh, .refl _ _, rfl, sameCharges, sameRecordings⟩
  | @ask request next _ _ ih =>
    obtain ⟨answer, rest, found, run⟩ :=
      (converses_asked_iff (unreplayed.2 _ le_rfl) unreplayed.1).mp run
    cases found
    obtain ⟨newCharges, newRecordings, kept⟩ := exists_heard config request answer
    have same : routed again request = routed ctx request := by simp [routed, agent]
    have laterUnreplayed : Unreplayed ctx (heard config request state answer).llmIndex := by
      simpa using unreplayed.succ
    have againUnreplayed : Unreplayed again (heard config request fresh answer).llmIndex := by
      simpa using unreplayedAgain.succ
    rw [List.append_assoc] at run
    obtain ⟨askedLater, lastAgain, runAgain, rests⟩ :=
      ih (answer.map LLMCompletion.response) laterUnreplayed againUnreplayed (by simp [index])
        (by rw [(kept state).1, (kept fresh).1, sameCharges, List.append_assoc])
        (by rw [(kept state).2, (kept fresh).2, sameRecordings, List.append_assoc]) run
    refine ⟨askedLater, lastAgain, ?_, rests⟩
    apply (converses_asked_iff (unreplayedAgain.2 _ le_rfl) unreplayedAgain.1).mpr
    exact ⟨answer, rest, rfl, same ▸ runAgain⟩

/-- The calls made so far have all been answered, recorded and charged. -/
structure AllRecorded (client : Client) (state : ContextState) : Prop where
  recordings : state.llmRecordings.length = state.llmIndex
  charges : state.charges.length = state.llmIndex
  asked : client.asked.length = state.llmIndex

/-- The context of another attempt, which replays some recordings. -/
def replaying (ctx : StepContext) (attempt : Nat) (recordings : List LLMRecording) :
    StepContext :=
  { ctx with attempt := attempt, replayLlm := recordings }

/-- Once the recordings are used up, both runs ask the client. -/
private theorem Converses.resume (wired : ctx.hasLlmClient = true) (unrecorded : ctx.replayLlm = [])
    (soFar : AllRecorded client state) (reached : state.llmIndex = count)
    (run : Converses config ctx timeoutSeconds client code state ⟨[], asked⟩ (ended, last))
    (attempt : Nat) :
    ∃ lastAgain, Converses config (replaying ctx attempt (last.llmRecordings.take count))
        timeoutSeconds ⟨client.script.drop (count - state.llmIndex), []⟩ code
        { llmIndex := state.llmIndex } ⟨[], asked.drop count⟩ (ended, lastAgain) ∧
      lastAgain.charges = last.charges.drop count ∧
      lastAgain.llmRecordings = last.llmRecordings.drop count := by
  subst reached
  rw [Nat.sub_self, List.drop_zero]
  have unreplayed : Unreplayed ctx state.llmIndex :=
    ⟨wired, fun _ _ => by rw [unrecorded]; rfl⟩
  have fresh : Unreplayed (replaying ctx attempt (last.llmRecordings.take state.llmIndex))
      ({ llmIndex := state.llmIndex } : ContextState).llmIndex := by
    refine ⟨wired, fun later le => List.getElem?_eq_none ?_⟩
    exact (List.length_take_le _ _).trans le
  obtain ⟨script, earlier⟩ := client
  rw [← List.append_nil earlier] at run
  obtain ⟨askedLater, lastAgain, runAgain, sameAsked, sameCharges, sameRecordings⟩ :=
    Converses.shift decides unreplayed fresh rfl rfl (List.append_nil _).symm
      (List.append_nil _).symm run
  have laterAsked : asked.drop state.llmIndex = askedLater := by
    rw [show asked = earlier ++ askedLater from sameAsked]
    exact List.drop_left' soFar.asked
  refine ⟨lastAgain, laterAsked ▸ runAgain, ?_, ?_⟩
  · rw [sameCharges, List.drop_left' soFar.charges]
  · rw [sameRecordings, List.drop_left' soFar.recordings]

omit decides in
/-- The recording of an answered call stays where it is. -/
private theorem recording_of_grown {request : LLMRequest} {completion : LLMCompletion}
    {more : List LLMRecording} (soFar : AllRecorded client state) (grown : last.llmRecordings =
      (heard config request state (.ok completion)).llmRecordings ++ more) :
    ∃ recording, last.llmRecordings[state.llmIndex]? = some recording ∧
      recording.response = recordingFromResponse completion.response := by
  simp only [heard, ContextState.recordCompletion] at grown
  rw [grown, List.append_assoc, List.getElem?_append_right (le_of_eq soFar.recordings),
    soFar.recordings, Nat.sub_self, List.singleton_append, List.getElem?_cons_zero]
  exact ⟨_, rfl, rfl⟩

/-- As long as there are recordings to replay, the runner takes the same way
without asking the client. -/
theorem Converses.replay (wired : ctx.hasLlmClient = true) (unrecorded : ctx.replayLlm = [])
    (soFar : AllRecorded client state) (ahead : state.llmIndex ≤ count)
    (enough : count - state.llmIndex ≤ client.script.length)
    (answered : ∀ answer ∈ client.script.take (count - state.llmIndex), ∃ completion, answer = .ok
      completion)
    (run : Converses config ctx timeoutSeconds client code state ⟨[], asked⟩ (ended, last))
    (attempt : Nat) :
    ∃ lastAgain, Converses config (replaying ctx attempt (last.llmRecordings.take count))
        timeoutSeconds ⟨client.script.drop (count - state.llmIndex), []⟩ code
        { llmIndex := state.llmIndex } ⟨[], asked.drop count⟩ (ended, lastAgain) ∧
      lastAgain.charges = last.charges.drop count ∧
      lastAgain.llmRecordings = last.llmRecordings.drop count := by
  induction decides generalizing client state with
  | done result =>
    refine Converses.resume (.done result) wired unrecorded soFar ?_ run attempt
    cases run
    simp only [List.length_nil, Nat.le_zero] at enough
    omega
  | raise failure =>
    refine Converses.resume (.raise failure) wired unrecorded soFar ?_ run attempt
    cases run
    simp only [List.length_nil, Nat.le_zero] at enough
    omega
  | @ask request next later blind ih =>
    rcases Nat.eq_or_lt_of_le ahead with reached | behind
    · exact Converses.resume (.ask later blind) wired unrecorded soFar reached run attempt
    · have unreplayed : ∀ index, Unreplayed ctx index := fun _ =>
        ⟨wired, fun _ _ => by rw [unrecorded]; rfl⟩
      obtain ⟨answer, rest, script, run⟩ :=
        (converses_asked_iff ((unreplayed _).2 _ le_rfl) wired).mp run
      obtain ⟨remaining, left⟩ : ∃ remaining, count - state.llmIndex = remaining + 1 :=
        ⟨count - state.llmIndex - 1, by omega⟩
      rw [script, left] at answered enough ⊢
      obtain ⟨completion, rfl⟩ := answered answer List.mem_cons_self
      have nextLeft : count - (heard config request state (.ok completion)).llmIndex =
          remaining := by
        rw [llmIndex_heard]
        omega
      have nextSoFar : AllRecorded
          { script := rest, asked := client.asked ++ [routed ctx request] }
          (heard config request state (.ok completion)) :=
        ⟨by simp [heard, ContextState.recordCompletion, soFar.recordings],
          by simp [heard, ContextState.recordCompletion, soFar.charges], by simp [soFar.asked]⟩
      obtain ⟨lastAgain, runAgain, rests⟩ := ih _ nextSoFar (by rw [llmIndex_heard]; omega)
        (by rw [nextLeft]; exact Nat.le_of_succ_le_succ enough)
        (by
          rw [nextLeft]
          exact fun other listed => answered other (List.mem_cons_of_mem _ listed)) run
      -- The recording of this call is the one the other run replays.
      obtain ⟨more, grown⟩ := run.grown (later _) (unreplayed _)
      obtain ⟨recording, recorded, same⟩ := recording_of_grown soFar grown
      have replayed : (replaying ctx attempt (last.llmRecordings.take count)).replayLlm[
          ({ llmIndex := state.llmIndex } : ContextState).llmIndex]? = some recording := by
        change (last.llmRecordings.take count)[state.llmIndex]? = some recording
        rw [List.getElem?_take_of_lt behind, recorded]
      refine ⟨lastAgain, ?_, rests⟩
      rw [converses_replayed_iff replayed, same,
        blind _ completion.response (content_responseFromRecording _)]
      rw [nextLeft] at runAgain
      exact runAgain

omit decides

theorem answers_functional (client : Client) (op : Op) (response other : op.Result)
    (next after : Client) (answered : client.answers op response next)
    (answeredAgain : client.answers op other after) : response = other ∧ next = after := by
  cases op with
  | deadlinePassed =>
    obtain ⟨rfl, rfl⟩ := answered
    obtain ⟨rfl, rfl⟩ := answeredAgain
    exact ⟨rfl, rfl⟩
  | completeLLM =>
    obtain ⟨rest, found, rfl⟩ := answered
    obtain ⟨_, foundAgain, rfl⟩ := answeredAgain
    cases found.symm.trans foundAgain
    exact ⟨rfl, rfl⟩
  | _ => exact answered.elim

/-- The fold collects the recordings of a step in order. -/
theorem fold_recordings {definition : Option WorkflowDefinition} {inst : WorkflowInstance}
    {stepId : String} {attempt : Nat} {events : List Event}
    (payloads : events.map Event.payload = recordings.map (.llmCallRecorded stepId attempt))
    (numbered : events.map Event.sequence = List.range' (inst.version + 1) events.length) :
    ∃ next, fold events definition (some inst) = .ok next ∧ (next.stepOr stepId).recordedLlmCalls =
        (inst.stepOr stepId).recordedLlmCalls ++ recordings := by
  simp only [fold_some_eq_ok]
  generalize inst.version + 1 = expected at numbered
  induction recordings generalizing events inst expected with
  | nil =>
    obtain rfl : events = [] := by simpa using payloads
    exact ⟨inst, rfl, by simp⟩
  | cons recording rest ih =>
    cases events with
    | nil => cases payloads
    | cons event others =>
      rw [List.map_cons, List.map_cons, List.cons.injEq] at payloads
      rw [List.map_cons, List.length_cons, List.range'_succ, List.cons.injEq] at numbered
      have handled : handle definition inst event =
          .ok (onLlmRecorded inst stepId recording) := by
        unfold handle
        rw [payloads.1]
        rfl
      have folded : foldEvent definition expected (some inst) event =
          .ok { onLlmRecorded inst stepId recording with
            updatedAt := event.occurredAt, version := event.sequence } :=
        foldEvent_eq_ok.mpr ⟨numbered.1, inst, _, rfl, handled, rfl⟩
      obtain ⟨next, nextOk, found⟩ := ih payloads.2 (expected + 1) numbered.2
      refine ⟨next, bind_eq_ok.mpr ⟨_, folded, nextOk⟩, ?_⟩
      have recorded : ((onLlmRecorded inst stepId recording).stepOr stepId).recordedLlmCalls =
          (inst.stepOr stepId).recordedLlmCalls ++ [recording] := by
        simp [onLlmRecorded, WorkflowInstance.stepOr_modifyStep]
      rw [found, List.append_cons, ← recorded]
      rfl

/-- Replay is faithful.  A run whose first `count` calls were answered is repeated
with their recordings, under any attempt number and with a client that gives the
remaining answers: it has one end, the same as before, the client is asked the
remaining requests, only these are charged and recorded, and with their events
folded onto it the step holds all recordings. -/
theorem replay_faithful (decides : AnswerTree code) (wired : ctx.hasLlmClient = true)
    (unrecorded : ctx.replayLlm = []) {script : List (Except Exn LLMCompletion)}
    {asked : List LLMRequest}
    (run : Converses config ctx timeoutSeconds ⟨script, []⟩ code {} ⟨[], asked⟩ (ended, last))
    {count : Nat} (enough : count ≤ script.length)
    (answered : ∀ answer ∈ script.take count, ∃ completion, answer = .ok completion)
    (attempt : Nat) :
    ∃ lastAgain,
      Converses config (replaying ctx attempt (last.llmRecordings.take count)) timeoutSeconds
        ⟨script.drop count, []⟩ code {} ⟨[], asked.drop count⟩ (ended, lastAgain) ∧
      (∀ final outcome, Program.Steps Client.answers ⟨script.drop count, []⟩
          (interpret config (replaying ctx attempt (last.llmRecordings.take count))
            timeoutSeconds code {}) final (Program.ended outcome) →
        final = ⟨[], asked.drop count⟩ ∧ outcome = .ok (ended, lastAgain)) ∧
      lastAgain.charges = last.charges.drop count ∧
      lastAgain.llmRecordings = last.llmRecordings.drop count ∧
      ∀ definition inst stepId events,
        (inst.stepOr stepId).recordedLlmCalls = last.llmRecordings.take count →
        events.map Event.payload =
          lastAgain.llmRecordings.map (.llmCallRecorded stepId attempt) →
        events.map Event.sequence = List.range' (inst.version + 1) events.length →
        ∃ next, fold events definition (some inst) = .ok next ∧
          (next.stepOr stepId).recordedLlmCalls = last.llmRecordings := by
  have soFar : AllRecorded ⟨script, []⟩ {} := ⟨rfl, rfl, rfl⟩
  obtain ⟨lastAgain, runAgain, charges, recordings⟩ :=
    Converses.replay decides wired unrecorded soFar (Nat.zero_le count) enough answered run attempt
  refine ⟨lastAgain, runAgain, ?_, charges, recordings, ?_⟩
  · intro final outcome other
    obtain ⟨sameFinal, sameOutcome⟩ := Program.Steps.unique answers_functional other
      (show Program.Steps _ _ _ _ (Program.ended (.ok (ended, lastAgain))) from runAgain)
    exact ⟨sameFinal, sameOutcome⟩
  · intro definition inst stepId events held payloads numbered
    obtain ⟨next, folded, found⟩ := fold_recordings payloads numbered
    refine ⟨next, folded, ?_⟩
    rw [found, held, recordings, List.take_append_drop]

end Replay

/-! ## A draft and its revision -/

/-- Ask for a revision of a draft. -/
def revisionOf (draft : String) : RunnerCode :=
  .perform (.llm { messages := [⟨"user", draft⟩] }) fun
    | .error failure => .raise failure
    | .ok revision => .done { output := Dict.ofList [("text", .str revision.text)] }

/-- Ask for a draft, then for a revision of it. -/
def revising : RunnerCode :=
  .perform (.llm { messages := [⟨"user", "draft"⟩] }) fun
    | .error failure => .raise failure
    | .ok draft => revisionOf draft.text

theorem text_eq_of_content_eq {first second : LLMResponse} (same : content first = content second) :
    first.text = second.text :=
  show (content first).text = (content second).text from congrArg LLMResponse.text same

theorem decides_revising : AnswerTree revising := by
  refine .ask (fun response => ?_) fun first second same => ?_
  · cases response with
    | error failure => exact .raise failure
    | ok draft =>
      refine .ask (fun response => ?_) fun first second same => ?_
      · cases response with
        | error failure => exact .raise failure
        | ok revision => exact .done _
      · dsimp only
        rw [text_eq_of_content_eq same]
  · exact congrArg revisionOf (text_eq_of_content_eq same)

def revisingContext : StepContext where
  instanceId := "instance"
  tenantId := "tenant"
  stepId := "write"
  agentType := "writer"
  attempt := 1
  inputs := Dict.empty
  instanceContext := Dict.empty
  hasGuard := false
  hasLlmClient := true

/-- The answer with a text, for a cent. -/
def written (text : String) : Except Exn LLMCompletion :=
  .ok { response := { modelId := "model", text := text }, costUsd := 1 / 100 }

def revisingConfig : Config where
  registry := fun _ => none
  digestMessages := fun _ messages => toString messages.length

/-- With the recording of the draft the client is asked for the revision only. -/
theorem replay_faithful_revising :
    ∃ ended last asked, asked.length = 2 ∧
      Converses revisingConfig revisingContext 60 ⟨[written "a", written "b"], []⟩ revising {}
        ⟨[], asked⟩ (ended, last) ∧
      ∃ lastAgain,
        Converses revisingConfig (replaying revisingContext 2 (last.llmRecordings.take 1)) 60
          ⟨[written "b"], []⟩ revising {} ⟨[], asked.drop 1⟩ (ended, lastAgain) ∧
        lastAgain.llmRecordings = last.llmRecordings.drop 1 := by
  have wired : revisingContext.hasLlmClient = true := rfl
  have run : Converses revisingConfig revisingContext 60 ⟨[written "a", written "b"], []⟩
      revising {} _ _ :=
    (converses_asked_iff rfl wired).mpr ⟨_, _, rfl,
      (converses_asked_iff rfl wired).mpr ⟨_, _, rfl, .refl _ _⟩⟩
  refine ⟨_, _, _, rfl, run, ?_⟩
  obtain ⟨lastAgain, runAgain, _, _, recordings, _⟩ :=
    replay_faithful decides_revising wired rfl run (show 1 ≤ 2 by decide)
      (fun answer listed => ⟨_, List.mem_singleton.mp listed⟩) 2
  exact ⟨lastAgain, runAgain, recordings⟩

end AgentForge.Guarantees
