import Mathlib.Data.List.Basic

/-!
# Programs that talk to a world

A program is a tree of operations: it performs one, waits for the response and
goes on, until it returns a value or raises an error.  A semantics says which
responses a world may give and how it changes.  A process that dies after any
operation is a run of the program that stops at a residual program, so every
statement about partial runs is a statement about crashes.

`Safe` is the program logic: a precondition for every operation, a condition on
returned values and one on raised errors.  The rules follow the constructs
programs are written with.
-/

namespace AgentForge.Library

universe u

/-- Trees of operations with typed responses, raised errors and results. -/
inductive Program (Op : Type u) (Res : Op → Type u) (ε α : Type u) : Type u
  | done (value : α)
  | raise (error : ε)
  | perform (op : Op) (next : Res op → Program Op Res ε α)

/-- Which responses a world may give to an operation, and the world after. -/
abbrev Semantics (World Op : Type u) (Res : Op → Type u) :=
  World → (op : Op) → Res op → World → Prop

namespace Program

variable {Op : Type u} {Res : Op → Type u} {ε α β γ World : Type u} {world : World} {failure : ε}
  {value : α}

/-- Sequential composition; a raised error skips the continuation. -/
def bind : Program Op Res ε α → (α → Program Op Res ε β) → Program Op Res ε β
  | .done value, next => next value
  | .raise error, _ => .raise error
  | .perform op rest, next => .perform op fun response => bind (rest response) next

instance : Monad (Program Op Res ε) where
  pure := .done
  bind := bind

/-- One operation, returning its response. -/
def call (op : Op) : Program Op Res ε (Res op) :=
  .perform op .done

/-- Run a program and hand a raised error to a handler. -/
def attempt : Program Op Res ε α → (ε → Program Op Res ε α) → Program Op Res ε α
  | .done value, _ => .done value
  | .raise error, handler => handler error
  | .perform op rest, handler => .perform op fun response => attempt (rest response) handler

/-- Run a program for every element of a list and collect the results. -/
def traverse (body : α → Program Op Res ε β) : List α → Program Op Res ε (List β)
  | [] => .done []
  | first :: rest => do
      let value ← body first
      let values ← traverse body rest
      pure (value :: values)

/-- Run a program and return the error it raises as a value. -/
def settle : Program Op Res ε α → Program Op Res ε (Except ε α)
  | .done value => .done (.ok value)
  | .raise error => .done (.error error)
  | .perform op rest => .perform op fun response => settle (rest response)

/-- The values of a list of outcomes, raising the first error among them. -/
def collect : List (Except ε α) → Program Op Res ε (List α)
  | [] => .done []
  | .error failure :: _ => .raise failure
  | .ok value :: rest => do
      let values ← collect rest
      pure (value :: values)

/-- Run a program for every element of a list; an error is raised only after
all of them have ended.  The source raises it at once, and the others run on. -/
def gather (body : α → Program Op Res ε β) (elements : List α) : Program Op Res ε (List β) := do
  let outcomes ← traverse (fun element => (body element).settle) elements
  collect outcomes

/-- Finite runs from one world and program to another.  The target program is
what is still to be executed. -/
inductive Steps (sem : Semantics World Op Res) :
    World → Program Op Res ε α → World → Program Op Res ε α → Prop
  | refl (world : World) (program : Program Op Res ε α) : Steps sem world program world program
  | step {world middle final : World} {op : Op} {response : Res op}
      {next : Res op → Program Op Res ε α} {residual : Program Op Res ε α} :
      sem world op response middle →
      Steps sem middle (next response) final residual →
      Steps sem world (.perform op next) final residual

/-- Runs of a semantics are runs of any other that admits its answers. -/
theorem Steps.imp {sem sem' : Semantics World Op Res} {world final : World}
    {program residual : Program Op Res ε α} (run : Steps sem world program final residual)
    (admitted : ∀ world op response next, sem world op response next →
      sem' world op response next) : Steps sem' world program final residual := by
  induction run with
  | refl => exact .refl _ _
  | step answered _ ih => exact .step (admitted _ _ _ _ answered) ih

/-- Some run of the program comes to the operation. -/
def Performs (sem : Semantics World Op Res) (world : World) (program : Program Op Res ε α)
    (op : Op) : Prop :=
  ∃ final next, Steps sem world program final (.perform op next)

theorem not_performs_done {sem : Semantics World Op Res} {op : Op} :
    ¬ Performs sem world (.done value : Program Op Res ε α) op := by
  rintro ⟨final, next, run⟩
  cases run

theorem not_performs_raise {sem : Semantics World Op Res} {op : Op} :
    ¬ Performs sem world (.raise failure : Program Op Res ε α) op := by
  rintro ⟨final, next, run⟩
  cases run

theorem performs_perform_iff {sem : Semantics World Op Res} {op other : Op}
    {next : Res op → Program Op Res ε α} : Performs sem world (.perform op next) other ↔
      op = other ∨ ∃ response middle, sem world op response middle ∧
        Performs sem middle (next response) other := by
  constructor
  · rintro ⟨final, later, run⟩
    cases run with
    | refl => exact .inl rfl
    | step respond run => exact .inr ⟨_, _, respond, final, later, run⟩
  · rintro (rfl | ⟨response, middle, respond, final, later, run⟩)
    · exact ⟨world, next, .refl world _⟩
    · exact ⟨final, later, .step respond run⟩

/-- Every operation meets `pre` in the world it is performed in, every returned
value meets `post` and every raised error meets `error`. -/
def Safe (sem : Semantics World Op Res) (pre : World → Op → Prop)
    (post : α → World → Prop) (error : ε → World → Prop) :
    Program Op Res ε α → World → Prop
  | .done value, world => post value world
  | .raise failure, world => error failure world
  | .perform op next, world =>
      pre world op ∧
        ∀ response middle, sem world op response middle →
          Safe sem pre post error (next response) middle

variable {sem : Semantics World Op Res} {pre : World → Op → Prop}
  {post : α → World → Prop} {error : ε → World → Prop} {program : Program Op Res ε α}
  {answer : World → (op : Op) → Res op × World} {allowed : Op → Prop}
  {next : α → Program Op Res ε β} {law : World → Prop} {post' : α → World → Prop}
  {programs : Program Op Res ε α → Prop} {body : β → Program Op Res ε γ}
  {postNext : β → World → Prop} {error' : ε → World → Prop} {pre' : World → Op → Prop}
  {invariant : World → Prop} {inner : ε → World → Prop} {start final : World} {returns : α → Prop}
  {elements : List β}

@[simp]
theorem safe_pure :
    Safe sem pre post error (pure value : Program Op Res ε α) world ↔ post value world :=
  Iff.rfl

@[simp]
theorem safe_done :
    Safe sem pre post error (.done value : Program Op Res ε α) world ↔ post value world :=
  Iff.rfl

/-- One operation, then the rest. -/
theorem safe_call_bind {op : Op} {next : Res op → Program Op Res ε α} :
    Safe sem pre post error (call op >>= next) world ↔
      pre world op ∧ ∀ response middle, sem world op response middle →
        Safe sem pre post error (next response) middle :=
  Iff.rfl

/-- Consequence rule. -/
theorem Safe.mono (safe : Safe sem pre post error program world)
    (strengthen : ∀ world op, pre world op → pre' world op)
    (weaken : ∀ value world, post value world → post' value world)
    (weakenError : ∀ failure world, error failure world → error' failure world) :
    Safe sem pre' post' error' program world := by
  induction program generalizing world with
  | done value => exact weaken value world safe
  | raise failure => exact weakenError failure world safe
  | perform op next ih =>
    exact ⟨strengthen world op safe.1, fun response middle step =>
      ih response (safe.2 response middle step)⟩

/-- Consequence rule for the postcondition alone. -/
theorem Safe.imp (safe : Safe sem pre post error program world)
    (weaken : ∀ value world, post value world → post' value world) :
    Safe sem pre post' error program world :=
  safe.mono (fun _ _ holds => holds) weaken (fun _ _ holds => holds)

theorem safe_of_forall (ops : ∀ world op, pre world op) (values : ∀ value world, post value world)
    (errors : ∀ failure world, error failure world) (program : Program Op Res ε α)
    (world : World) : Safe sem pre post error program world := by
  induction program generalizing world with
  | done value => exact values value world
  | raise failure => exact errors failure world
  | perform op rest ih => exact ⟨ops world op, fun response middle _ => ih response middle⟩

/-- Whatever a program does, it keeps what every operation keeps. -/
theorem safe_of_kept (ops : ∀ world op, pre world op)
    (kept : ∀ world op response next, law world → sem world op response next → law next)
    (program : Program Op Res ε α) (holds : law world) :
    Safe sem pre (fun _ next => law next) (fun _ next => law next) program world := by
  induction program generalizing world with
  | done value => exact holds
  | raise failure => exact holds
  | perform op rest ih =>
    exact ⟨ops world op, fun response middle step =>
      ih response (kept world op response middle holds step)⟩

/-- Sequencing rule. -/
theorem Safe.bind (safe : Safe sem pre post error program world)
    (safeNext : ∀ value world, post value world → Safe sem pre postNext error (next value) world) :
    Safe sem pre postNext error (program >>= next) world := by
  induction program generalizing world with
  | done value => exact safeNext value world safe
  | raise failure => exact safe
  | perform op rest ih =>
    exact ⟨safe.1, fun response middle step => ih response (safe.2 response middle step)⟩

/-- Rule for a function applied to the result. -/
theorem Safe.map {value : α → β} (safe : Safe sem pre post error program world)
    (weaken : ∀ result world, post result world → postNext (value result) world) :
    Safe sem pre postNext error (value <$> program) world :=
  safe.bind weaken

theorem bind_assoc (first : Program Op Res ε α) (second : α → Program Op Res ε β)
    (third : β → Program Op Res ε γ) :
    (first >>= second) >>= third = first >>= fun value => second value >>= third := by
  induction first with
  | done value => rfl
  | raise failure => rfl
  | perform op rest ih => exact congrArg (perform op) (funext ih)

theorem map_bind (value : β → γ) (program : Program Op Res ε α) (next : α → Program Op Res ε β) :
    value <$> (program >>= next) = program >>= fun result => value <$> next result :=
  bind_assoc program next _

theorem map_map (first : α → β) (second : β → γ) (program : Program Op Res ε α) :
    second <$> first <$> program = (fun value => second (first value)) <$> program :=
  bind_assoc program _ _

theorem bind_map (value : α → β) (program : Program Op Res ε α) (next : β → Program Op Res ε γ) :
    (value <$> program) >>= next = program >>= fun result => next (value result) :=
  bind_assoc program _ next

theorem map_id (program : Program Op Res ε α) : (fun value => value) <$> program = program := by
  induction program with
  | done value => rfl
  | raise failure => rfl
  | perform op rest ih => exact congrArg (perform op) (funext ih)

theorem map_attempt (value : α → β) (program : Program Op Res ε α)
    (handler : ε → Program Op Res ε α) : value <$> program.attempt handler =
      (value <$> program).attempt fun failure => value <$> handler failure := by
  induction program with
  | done result => rfl
  | raise failure => rfl
  | perform op rest ih => exact congrArg (perform op) (funext ih)

theorem settle_map (value : α → β) (program : Program Op Res ε α) :
    (value <$> program).settle = Except.map value <$> program.settle := by
  induction program with
  | done result => rfl
  | raise failure => rfl
  | perform op rest ih => exact congrArg (perform op) (funext ih)

theorem map_traverse (value : β → γ) (body : α → Program Op Res ε β) (elements : List α) :
    List.map value <$> traverse body elements =
      traverse (fun element => value <$> body element) elements := by
  induction elements with
  | nil => rfl
  | cons element rest ih =>
    simp only [traverse, map_bind, bind_map, ← ih]
    rfl

private theorem map_collect (value : α → β) (outcomes : List (Except ε α)) :
    List.map value <$> (collect outcomes : Program Op Res ε (List α)) =
      collect (outcomes.map (Except.map value)) := by
  induction outcomes with
  | nil => rfl
  | cons outcome rest ih =>
    cases outcome with
    | error failure => rfl
    | ok result =>
      change _ = collect (.ok (value result) :: rest.map (Except.map value))
      simp only [collect, map_bind, bind_map, ← ih]
      rfl

theorem map_gather (value : β → γ) (body : α → Program Op Res ε β) (elements : List α) :
    List.map value <$> gather body elements =
      gather (fun element => value <$> body element) elements := by
  simp only [gather, map_bind, map_collect, settle_map, ← map_traverse, bind_map]

/-- The runs of a mapped program to its end are those of the program. -/
theorem steps_map_done {sem : Semantics World Op Res} {value : α → β} {result : β}
    {world final : World} : Steps sem world (value <$> program) final (.done result) ↔
      ∃ original, value original = result ∧ Steps sem world program final (.done original) := by
  induction program generalizing world with
  | done original =>
    constructor
    · rintro ⟨⟩
      exact ⟨original, rfl, .refl _ _⟩
    · rintro ⟨_, rfl, ⟨⟩⟩
      exact .refl _ _
  | raise failure =>
    constructor
    · rintro ⟨⟩
    · rintro ⟨_, _, ⟨⟩⟩
  | perform op rest ih =>
    constructor
    · rintro (_ | ⟨answered, later⟩)
      obtain ⟨original, same, ran⟩ := (ih _).mp later
      exact ⟨original, same, .step answered ran⟩
    · rintro ⟨original, same, _ | ⟨answered, later⟩⟩
      exact .step answered ((ih _).mpr ⟨original, same, later⟩)

/-- Sequencing rule after a sequence. -/
theorem Safe.bind_bind {second : α → Program Op Res ε β} {third : β → Program Op Res ε γ}
    {postSecond : β → World → Prop} {postThird : γ → World → Prop} {first : Program Op Res ε α}
    (safe : Safe sem pre postSecond error (first >>= second) world)
    (safeNext : ∀ value world, postSecond value world →
      Safe sem pre postThird error (third value) world) :
    Safe sem pre postThird error (first >>= fun value => second value >>= third) world := by
  rw [← bind_assoc]
  exact safe.bind safeNext

/-- Rule for handled errors. -/
theorem Safe.attempt {handler : ε → Program Op Res ε α}
    (safe : Safe sem pre post inner program world)
    (safeHandler : ∀ failure world, inner failure world →
      Safe sem pre post error (handler failure) world) :
    Safe sem pre post error (program.attempt handler) world := by
  induction program generalizing world with
  | done value => exact safe
  | raise failure => exact safeHandler failure world safe
  | perform op rest ih =>
    exact ⟨safe.1, fun response middle step => ih response (safe.2 response middle step)⟩

/-- Loop rule: an invariant relating the elements consumed so far to the
results collected so far. -/
theorem safe_traverse (invariant : List β → List γ → World → Prop) (initial : invariant [] [] world)
    (bodySafe : ∀ before element after, elements = before ++ element :: after →
      ∀ collected world, invariant before collected world →
        Safe sem pre (fun value world' => invariant (before ++ [element]) (collected ++ [value])
          world') error (body element) world) :
    Safe sem pre (fun values world' => invariant elements values world') error
      (traverse body elements) world := by
  suffices general : ∀ after before collected world, elements = before ++ after →
      invariant before collected world →
      Safe sem pre (fun values world' => invariant elements (collected ++ values) world') error
        (traverse body after) world by
    simpa using general elements [] [] world rfl initial
  intro after
  induction after with
  | nil =>
    intro before collected world split holds
    simpa [traverse, split] using holds
  | cons element after ih =>
    intro before collected world split holds
    refine (bodySafe before element after split collected world holds).bind ?_
    intro value middle holdsNext
    refine (ih (before ++ [element]) (collected ++ [value]) middle (by simp [split])
      holdsNext).bind ?_
    intro values final holdsFinal
    simpa using holdsFinal

theorem traverse_map (body : β → Program Op Res ε γ) (value : α → β) (elements : List α) :
    traverse body (elements.map value) =
      traverse (fun element => body (value element)) elements := by
  induction elements with
  | nil => rfl
  | cons element rest ih =>
    rw [List.map_cons, traverse, traverse, ih]

/-- Rule for errors returned as values. -/
theorem Safe.settle (safe : Safe sem pre post inner program world) :
    Safe sem pre
      (fun outcome world' => match outcome with
        | .ok value => post value world'
        | .error failure => inner failure world')
      error program.settle world := by
  induction program generalizing world with
  | done value => exact safe
  | raise failure => exact safe
  | perform op rest ih =>
    exact ⟨safe.1, fun response middle step => ih response (safe.2 response middle step)⟩

private theorem safe_collect {outcomes : List (Except ε α)}
    (raised : ∀ failure, .error failure ∈ outcomes → error failure world) :
    Safe sem pre (fun values world' => outcomes = values.map .ok ∧ world' = world) error
      (collect outcomes) world := by
  induction outcomes with
  | nil => exact ⟨rfl, rfl⟩
  | cons outcome rest ih =>
    cases outcome with
    | error failure => exact raised failure List.mem_cons_self
    | ok value =>
      refine (ih fun failure member =>
        raised failure (List.mem_cons_of_mem _ member)).bind ?_
      rintro values final ⟨rfl, rfl⟩
      exact ⟨rfl, rfl⟩

/-- Rule for programs run side by side: an invariant relating the elements
consumed so far to the outcomes so far. -/
theorem safe_gather (invariant : List β → List (Except ε γ) → World → Prop)
    (initial : invariant [] [] world)
    (bodySafe : ∀ before element after, elements = before ++ element :: after →
      ∀ outcomes world, invariant before outcomes world → Safe sem pre
          (fun value world' => invariant (before ++ [element]) (outcomes ++ [.ok value]) world')
          (fun failure world' =>
            invariant (before ++ [element]) (outcomes ++ [.error failure]) world')
          (body element) world)
    (raised : ∀ outcomes failure world, invariant elements outcomes world →
      .error failure ∈ outcomes → error failure world) :
    Safe sem pre (fun values world' => invariant elements (values.map .ok) world') error
      (gather body elements) world := by
  refine (safe_traverse invariant initial ?_).bind ?_
  · intro before element after split outcomes world holds
    refine (bodySafe before element after split outcomes world holds).settle.imp ?_
    intro outcome world' holds'
    cases outcome with
    | ok value => exact holds'
    | error failure => exact holds'
  · intro outcomes world holds
    refine (safe_collect fun failure member =>
      raised outcomes failure world holds member).imp ?_
    rintro values world' ⟨rfl, rfl⟩
    exact holds

/-- Conjunction rule. -/
theorem Safe.and (first : Safe sem pre post error program world)
    (second : Safe sem pre' post' error' program world) :
    Safe sem (fun world op => pre world op ∧ pre' world op)
      (fun value world => post value world ∧ post' value world)
      (fun failure world => error failure world ∧ error' failure world) program world := by
  induction program generalizing world with
  | done value => exact ⟨first, second⟩
  | raise failure => exact ⟨first, second⟩
  | perform op rest ih =>
    exact ⟨⟨first.1, second.1⟩, fun response middle step =>
      ih response (first.2 response middle step) (second.2 response middle step)⟩

/-- What is safe stays safe when fewer responses are possible. -/
theorem Safe.restrict {sem' : Semantics World Op Res}
    (admitted : ∀ world op response next, sem' world op response next →
      sem world op response next) (safe : Safe sem pre post error program world) :
    Safe sem' pre post error program world := by
  induction program generalizing world with
  | done value => exact safe
  | raise failure => exact safe
  | perform op rest ih =>
    exact ⟨safe.1, fun response middle step =>
      ih response (safe.2 response middle (admitted _ _ _ _ step))⟩

/-- What is known of every operation may be relied on at its response. -/
theorem Safe.relying {known : World → Op → Prop} {postKnown : α → World → Prop}
    {errorKnown : ε → World → Prop} (certain : Safe sem known postKnown errorKnown program world)
    (safe : Safe (fun world op response next => sem world op response next ∧ known world op)
      pre post error program world) : Safe sem pre post error program world := by
  induction program generalizing world with
  | done value => exact safe
  | raise failure => exact safe
  | perform op rest ih =>
    exact ⟨safe.1, fun response middle step =>
      ih response (certain.2 response middle step) (safe.2 response middle ⟨step, certain.1⟩)⟩

/-- A run of a safe program stays safe. -/
theorem Safe.steps {program residual : Program Op Res ε α} {world final : World}
    (safe : Safe sem pre post error program world) (run : Steps sem world program final residual) :
    Safe sem pre post error residual final := by
  induction run with
  | refl => exact safe
  | step respond _ ih => exact ih (safe.2 _ _ respond)

/-- A law of the world that every operation keeps, whenever its precondition
holds, is kept by every run of a safe program. -/
theorem Safe.preserves {program residual : Program Op Res ε α} {world final : World}
    (safe : Safe sem pre post error program world)
    (kept : ∀ world op response next, law world → pre world op →
      sem world op response next → law next) (run : Steps sem world program final residual)
    (holds : law world) : law final := by
  induction run with
  | refl => exact holds
  | step respond _ ih => exact ih (safe.2 _ _ respond) (kept _ _ _ _ holds safe.1 respond)

/-- A sequence that raises does so in its first part or in the second. -/
theorem raise_of_bind {world final : World}
    (run : Steps sem world (program >>= next) final (.raise failure)) :
    Steps sem world program final (.raise failure) ∨
      ∃ value middle, Steps sem world program middle (.done value) ∧
        Steps sem middle (next value) final (.raise failure) := by
  induction program generalizing world with
  | done value => exact .inr ⟨value, world, .refl world _, run⟩
  | raise error =>
    cases run
    exact .inl (.refl _ _)
  | perform op rest ih =>
    cases run with
    | step respond run =>
      rcases ih _ run with early | ⟨value, middle, first, second⟩
      · exact .inl (.step respond early)
      · exact .inr ⟨value, middle, .step respond first, second⟩

/-- What an attempt raises is raised by its handler. -/
theorem raise_of_attempt {handler : ε → Program Op Res ε α} {program : Program Op Res ε α}
    {failure : ε} {world final : World}
    (run : Steps sem world (program.attempt handler) final (.raise failure)) :
    ∃ raised middle, Steps sem world program middle (.raise raised) ∧
      Steps sem middle (handler raised) final (.raise failure) := by
  induction program generalizing world with
  | done value => cases run
  | raise raised => exact ⟨raised, world, .refl world _, run⟩
  | perform op rest ih =>
    cases run with
    | step respond run =>
      obtain ⟨raised, middle, first, second⟩ := ih _ run
      exact ⟨raised, middle, .step respond first, second⟩

/-- What is safe in one semantics is safe in another that it simulates. -/
theorem Safe.simulate {World' : Type u} {sem' : Semantics World' Op Res}
    {related : World' → World → Prop}
    (simulates : ∀ world' world op response next', related world' world → pre world op →
      sem' world' op response next' →
        ∃ next, sem world op response next ∧ related next' next) {world' : World'}
    (safe : Safe sem pre post error program world) (start : related world' world) :
    Safe sem' (fun world' op => ∃ world, related world' world ∧ pre world op)
      (fun value world' => ∃ world, related world' world ∧ post value world)
      (fun failure world' => ∃ world, related world' world ∧ error failure world)
      program world' := by
  induction program generalizing world world' with
  | done value => exact ⟨world, start, safe⟩
  | raise failure => exact ⟨world, start, safe⟩
  | perform op rest ih =>
    refine ⟨⟨world, start, safe.1⟩, fun response next' step' => ?_⟩
    obtain ⟨next, step, later⟩ := simulates world' world op response next' start safe.1 step'
    exact ih response (safe.2 response next step) later

/-! ## One run after the other -/

/-- Worlds that runs of the programs lead to, one after the other; each run may
be cut off anywhere. -/
inductive Sessions (sem : Semantics World Op Res) (programs : Program Op Res ε α → Prop)
    (start : World) : World → Prop
  | refl : Sessions sem programs start start
  | run {world final : World} {program residual : Program Op Res ε α} :
      Sessions sem programs start world →
      programs program →
      Steps sem world program final residual →
      Sessions sem programs start final

/-- A law under which the programs are safe, and which safe operations keep. -/
theorem Sessions.preserves (sessions : Sessions sem programs start final)
    (safe : ∀ world program, law world → programs program → Safe sem pre post error program world)
    (kept : ∀ world op response next, law world → pre world op →
      sem world op response next → law next) (holds : law start) : law final := by
  induction sessions with
  | refl => exact holds
  | run _ admitted steps ih => exact (safe _ _ ih admitted).preserves kept steps ih

/-- A law that every operation keeps. -/
theorem Sessions.keeps (sessions : Sessions sem programs start final)
    (kept : ∀ world op response next, law world → sem world op response next → law next)
    (holds : law start) : law final := by
  have safe (world : World) (program : Program Op Res ε α) (_ : law world)
      (_ : programs program) :
      Safe sem (fun _ _ => True) (fun _ _ => True) (fun _ _ => True) program world :=
    safe_of_forall (fun _ _ => trivial) (fun _ _ => trivial) (fun _ _ => trivial) program world
  exact sessions.preserves safe
    (fun world op response next holds _ step => kept world op response next holds step) holds

/-! ## What a program does whatever it is told -/

/-- Every response is possible. -/
def chaos : Semantics PUnit.{u+1} Op Res :=
  fun _ _ _ _ => True

/-- Whatever the responses are, the program performs allowed operations only and
what it returns is as described. -/
abbrev Yields (allowed : Op → Prop) (returns : α → Prop) (program : Program Op Res ε α) : Prop :=
  Safe chaos (fun _ op => allowed op) (fun value _ => returns value) (fun _ _ => True) program
    PUnit.unit

theorem yields_call {op : Op} (holds : allowed op) :
    Yields allowed (fun _ => True) (call op : Program Op Res ε (Res op)) :=
  ⟨holds, fun _ _ _ => trivial⟩

/-- Where everything is allowed, programs do what is allowed. -/
theorem yields_of_forall (all : ∀ op, allowed op) (program : Program Op Res ε α) :
    Yields allowed (fun _ => True) program :=
  safe_of_forall (fun _ => all) (fun _ _ => trivial) (fun _ _ => trivial) program PUnit.unit

/-- An invariant that every allowed operation keeps. -/
theorem Yields.safe (yields : Yields allowed returns program)
    (kept : ∀ world op, invariant world → allowed op →
      pre world op ∧ ∀ response next, sem world op response next → invariant next)
    (raised : ∀ failure world, invariant world → error failure world) (initial : invariant world) :
    Safe sem pre (fun value world' => returns value ∧ invariant world') error program world := by
  induction program generalizing world with
  | done value => exact ⟨yields, initial⟩
  | raise failure => exact raised failure world initial
  | perform op rest ih =>
    obtain ⟨holds, after⟩ := kept world op initial yields.1
    refine ⟨holds, fun response middle step => ?_⟩
    exact ih response (yields.2 response PUnit.unit trivial) (after response middle step)

/-- An invariant that every allowed operation keeps, along a run. -/
theorem Yields.preserves {program residual : Program Op Res ε α}
    (yields : Yields allowed returns program)
    (kept : ∀ world op response next, invariant world → allowed op →
      sem world op response next → invariant next) {world final : World}
    (run : Steps sem world program final residual) (initial : invariant world) :
    invariant final := by
  induction run with
  | refl => exact initial
  | step respond _ ih =>
    exact ih (yields.2 _ PUnit.unit trivial) (kept _ _ _ _ initial yields.1 respond)

/-- Consequence rule. -/
theorem Yields.mono {allowed allowed' : Op → Prop} {returns returns' : α → Prop}
    (yields : Yields allowed returns program) (allow : ∀ op, allowed op → allowed' op)
    (weaken : ∀ value, returns value → returns' value) : Yields allowed' returns' program :=
  Safe.mono yields (fun _ op holds => allow op holds) (fun value _ holds => weaken value holds)
    fun _ _ holds => holds

/-! ## Deterministic worlds -/

/-- Run a program to its end in a world that answers by a function. -/
def evaluate (answer : World → (op : Op) → Res op × World) :
    Program Op Res ε α → World → Except ε α × World
  | .done value, world => (.ok value, world)
  | .raise failure, world => (.error failure, world)
  | .perform op next, world => evaluate answer (next (answer world op).1) (answer world op).2

/-- The program that has ended in this way. -/
def ended : Except ε α → Program Op Res ε α
  | .ok value => .done value
  | .error failure => .raise failure

/-- Where operations have one answer each, a program has one end. -/
theorem Steps.unique
    (functional : ∀ world op response other next after, sem world op response next →
      sem world op other after → response = other ∧ next = after) {world final last : World}
    {outcome result : Except ε α} (first : Steps sem world program final (ended outcome))
    (second : Steps sem world program last (ended result)) : final = last ∧ outcome = result := by
  induction program generalizing world with
  | done value =>
    cases outcome <;> cases result <;> cases first <;> cases second
    exact ⟨rfl, rfl⟩
  | raise failure =>
    cases outcome <;> cases result <;> cases first <;> cases second
    exact ⟨rfl, rfl⟩
  | perform op rest ih =>
    cases outcome <;> cases result <;> cases first with
    | step respond first =>
      cases second with
      | step respondAgain second =>
        obtain ⟨rfl, rfl⟩ := functional _ _ _ _ _ _ respond respondAgain
        exact ih _ first second

/-- Where every operation is answered, every program comes to an end. -/
theorem exists_steps_ended (answered : ∀ world op, ∃ response next, sem world op response next)
    (program : Program Op Res ε α) (world : World) :
    ∃ final outcome, Steps sem world program final (ended outcome) := by
  induction program generalizing world with
  | done value => exact ⟨world, .ok value, .refl _ _⟩
  | raise failure => exact ⟨world, .error failure, .refl _ _⟩
  | perform op rest ih =>
    obtain ⟨response, middle, step⟩ := answered world op
    obtain ⟨final, outcome, run⟩ := ih response middle
    exact ⟨final, outcome, .step step run⟩

theorem evaluate_bind (answer : World → (op : Op) → Res op × World) (program : Program Op Res ε α)
    (next : α → Program Op Res ε β) (world : World) :
    evaluate answer (program >>= next) world =
      match evaluate answer program world with
      | (.ok value, middle) => evaluate answer (next value) middle
      | (.error failure, middle) => (.error failure, middle) := by
  induction program generalizing world with
  | done value => rfl
  | raise failure => rfl
  | perform op rest ih => exact ih _ _

/-- What comes to its end with a value has done so step by step. -/
theorem evaluate_bind_eq_ok {world final : World} {value : β}
    (evaluated : evaluate answer (program >>= next) world = (.ok value, final)) :
    ∃ first middle, evaluate answer program world = (.ok first, middle) ∧
      evaluate answer (next first) middle = (.ok value, final) := by
  rw [evaluate_bind] at evaluated
  split at evaluated
  · next first middle found => exact ⟨first, middle, found, evaluated⟩
  · cases evaluated

/-- Evaluations are runs of every semantics that admits the answers, seen through
a view of the state. -/
theorem steps_evaluate {State : Type u} {answer : State → (op : Op) → Res op × State}
    {view : State → World}
    (admitted : ∀ state op, sem (view state) op (answer state op).1 (view (answer state op).2))
    (program : Program Op Res ε α) (state : State) :
    Steps sem (view state) program (view (evaluate answer program state).2)
      (ended (evaluate answer program state).1) := by
  induction program generalizing state with
  | done value => exact .refl _ _
  | raise failure => exact .refl _ _
  | perform op next ih => exact .step (admitted state op) (ih _ _)

/-- Execute at most `count` operations against a world that answers by a
function. -/
def runFor (answer : World → (op : Op) → Res op × World) :
    Nat → World → Program Op Res ε α → World × Program Op Res ε α
  | 0, world, program => (world, program)
  | _ + 1, world, .done value => (world, .done value)
  | _ + 1, world, .raise failure => (world, .raise failure)
  | count + 1, world, .perform op next =>
      runFor answer count (answer world op).2 (next (answer world op).1)

/-- Executions against a function of the world are runs of every semantics that
admits its answers. -/
theorem steps_runFor (admitted : ∀ world op, sem world op (answer world op).1 (answer world op).2)
    (count : Nat) (world : World) (program : Program Op Res ε α) :
    Steps sem world program (runFor answer count world program).1
      (runFor answer count world program).2 := by
  induction count generalizing world program with
  | zero => exact Steps.refl world program
  | succ count ih =>
    cases program with
    | done value => exact Steps.refl world _
    | raise failure => exact Steps.refl world _
    | perform op next =>
      exact Steps.step (admitted world op) (ih (answer world op).2 _)

end Program

end AgentForge.Library
