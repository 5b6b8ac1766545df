import AgentForge.Library.Program
import Mathlib.Logic.Function.Basic
import Mathlib.Logic.Relation

/-!
# Programs side by side

A pool of threads over one shared world.  At any moment a new thread may be
started or any thread may perform its next operation; a thread that is never
scheduled again is a process that has died.  Every thread carries notes of what
it has been told, which no program can look at: they let conditions and
invariants speak about what a thread has seen.

`Pool.Kept` is the proof rule: if every program that may be started is safe with
respect to its own notes, and every operation performed under those terms keeps
an invariant of the world and of all notes, then the invariant holds along every
interleaving.
-/

namespace AgentForge.Library

open Program

universe u

/-- A program under way, with the notes of its thread. -/
structure Thread (Notes Op : Type u) (Res : Op → Type u) (ε α : Type u) where
  notes : Notes
  code : Program Op Res ε α

/-- Threads over a shared world. -/
structure Pool (World Notes Op : Type u) (Res : Op → Type u) (ε α : Type u) where
  world : World
  threads : Nat → Option (Thread Notes Op Res ε α) := fun _ => none

namespace Pool

variable {World Notes Op : Type u} {Res : Op → Type u} {ε α : Type u} {i : Nat}

/-- The notes of every thread. -/
def notes (pool : Pool World Notes Op Res ε α) : Nat → Option Notes :=
  fun i => (pool.threads i).map Thread.notes

/-- Change one thread, and the world. -/
def resume (pool : Pool World Notes Op Res ε α) (i : Nat) (world : World)
    (thread : Thread Notes Op Res ε α) : Pool World Notes Op Res ε α where
  world := world
  threads := Function.update pool.threads i (some thread)

@[simp]
theorem threads_resume_self (pool : Pool World Notes Op Res ε α) (i : Nat) (world : World)
    (thread : Thread Notes Op Res ε α) : (pool.resume i world thread).threads i = some thread :=
  Function.update_self i _ pool.threads

theorem threads_resume_ne (pool : Pool World Notes Op Res ε α) {i j : Nat} (different : j ≠ i)
    (world : World) (thread : Thread Notes Op Res ε α) :
    (pool.resume i world thread).threads j = pool.threads j :=
  Function.update_of_ne different _ pool.threads

theorem notes_resume (pool : Pool World Notes Op Res ε α) (i : Nat) (world : World)
    (thread : Thread Notes Op Res ε α) :
    (pool.resume i world thread).notes = Function.update pool.notes i (some thread.notes) := by
  funext j
  by_cases same : j = i
  · subst same
    simp [notes, resume]
  · simp [notes, resume, same]

/-- A law of all notes, after a thread has changed its own. -/
theorem forall_notes_update {all : Nat → Option Notes} {notes : Notes} {law : Nat → Notes → Prop}
    (own : law i notes) (others : ∀ j other, j ≠ i → all j = some other → law j other) :
    ∀ j other, Function.update all i (some notes) j = some other → law j other := by
  intro j other found
  by_cases same : j = i
  · subst same
    rw [Function.update_self] at found
    cases found
    exact own
  · rw [Function.update_of_ne same] at found
    exact others j other same found

/-- How threads run: what the world answers a thread with given notes, what a
thread notes of an answer, and which threads may be started. -/
structure Rules (World Notes Op : Type u) (Res : Op → Type u) (ε α : Type u) where
  answers : Notes → Semantics World Op Res
  track : Notes → (op : Op) → Res op → Notes
  admits : Nat → Notes → Program Op Res ε α → Prop

variable (rules : Rules World Notes Op Res ε α)

/-- One step of a pool. -/
inductive Step : Pool World Notes Op Res ε α → Pool World Notes Op Res ε α → Prop
  | spawn {pool : Pool World Notes Op Res ε α} (i : Nat) {thread : Thread Notes Op Res ε α} :
      pool.threads i = none →
      rules.admits i thread.notes thread.code →
      Step pool (pool.resume i pool.world thread)
  | perform {pool : Pool World Notes Op Res ε α} (i : Nat) {notes : Notes} {op : Op}
      {next : Res op → Program Op Res ε α} {response : Res op} {world : World} :
      pool.threads i = some ⟨notes, .perform op next⟩ →
      rules.answers notes pool.world op response world →
      Step pool (pool.resume i world ⟨rules.track notes op response, next response⟩)

/-- Finitely many steps. -/
abbrev Run : Pool World Notes Op Res ε α → Pool World Notes Op Res ε α → Prop :=
  Relation.ReflTransGen (Step rules)

/-- A run that begins with an operation of a thread. -/
theorem run_perform {rules : Rules World Notes Op Res ε α}
    {pool later : Pool World Notes Op Res ε α}
    (i : Nat) {notes : Notes} (op : Op) {next : Res op → Program Op Res ε α} (response : Res op)
    {world : World} (found : pool.threads i = some ⟨notes, .perform op next⟩)
    (answered : rules.answers notes pool.world op response world)
    (rest : Run rules (pool.resume i world ⟨rules.track notes op response, next response⟩) later) :
    Run rules pool later :=
  .head (.perform i found answered) rest

/-- A thread alone with its notes: any answer it can believe may come. -/
def alone (believes : Notes → (op : Op) → Res op → Prop) : Semantics Notes Op Res :=
  fun notes op response next => believes notes op response ∧ next = rules.track notes op response

/-- The obligations of the proof rule. -/
structure Kept (believes : Notes → (op : Op) → Res op → Prop) (pre : Notes → Op → Prop)
    (post : α → Notes → Prop) (error : ε → Notes → Prop)
    (invariant : World → (Nat → Option Notes) → Prop) : Prop where
  safe : ∀ i notes code, rules.admits i notes code →
    Safe (alone rules believes) pre post error code notes
  spawned : ∀ world all i notes code, invariant world all → all i = none →
    rules.admits i notes code → invariant world (Function.update all i (some notes))
  performed : ∀ world all i notes op response next, invariant world all → all i = some notes →
    pre notes op → rules.answers notes world op response next →
      believes notes op response ∧
        invariant next (Function.update all i (some (rules.track notes op response)))

/-- The invariant holds and every thread is safe with respect to its notes. -/
structure Sound (believes : Notes → (op : Op) → Res op → Prop) (pre : Notes → Op → Prop)
    (post : α → Notes → Prop) (error : ε → Notes → Prop)
    (invariant : World → (Nat → Option Notes) → Prop)
    (pool : Pool World Notes Op Res ε α) : Prop where
  holds : invariant pool.world pool.notes
  safe : ∀ i thread, pool.threads i = some thread →
    Safe (alone rules believes) pre post error thread.code thread.notes

variable {rules} {believes : Notes → (op : Op) → Res op → Prop} {pre : Notes → Op → Prop}
  {post : α → Notes → Prop} {error : ε → Notes → Prop}
  {invariant : World → (Nat → Option Notes) → Prop} {pool later : Pool World Notes Op Res ε α}

private theorem safe_resume {world : World} {thread : Thread Notes Op Res ε α}
    (safe : ∀ j other, pool.threads j = some other →
      Safe (alone rules believes) pre post error other.code other.notes)
    (new : Safe (alone rules believes) pre post error thread.code thread.notes) :
    ∀ j other, (pool.resume i world thread).threads j = some other →
      Safe (alone rules believes) pre post error other.code other.notes := by
  intro j other found
  by_cases same : j = i
  · subst same
    rw [threads_resume_self] at found
    cases found
    exact new
  · rw [threads_resume_ne pool same] at found
    exact safe j other found

/-- A performing thread meets the precondition of its operation. -/
theorem Sound.meets {notes : Notes} {op : Op} {next : Res op → Program Op Res ε α}
    (sound : Sound rules believes pre post error invariant pool)
    (found : pool.threads i = some ⟨notes, .perform op next⟩) : pre notes op :=
  (sound.safe i _ found).1

theorem Sound.step (kept : Kept rules believes pre post error invariant)
    (sound : Sound rules believes pre post error invariant pool) (step : Step rules pool later) :
    Sound rules believes pre post error invariant later := by
  cases step with
  | @spawn i thread absent admitted =>
    constructor
    · rw [notes_resume]
      refine kept.spawned _ _ i thread.notes thread.code sound.holds ?_ admitted
      simp [Pool.notes, absent]
    · exact safe_resume sound.safe (kept.safe i _ _ admitted)
  | @perform i notes op next response world found answered =>
    have running := sound.safe i _ found
    have noted : pool.notes i = some notes := by simp [Pool.notes, found]
    obtain ⟨believed, holds⟩ :=
      kept.performed _ _ i notes op response world sound.holds noted running.1 answered
    constructor
    · rw [notes_resume]
      exact holds
    · exact safe_resume sound.safe (running.2 response _ ⟨believed, rfl⟩)

/-- The invariant holds along every interleaving. -/
theorem Sound.run (kept : Kept rules believes pre post error invariant)
    (sound : Sound rules believes pre post error invariant pool) (run : Run rules pool later) :
    Sound rules believes pre post error invariant later := by
  induction run with
  | refl => exact sound
  | tail _ step ih => exact ih.step kept step

/-- A pool without threads is sound if the invariant holds. -/
theorem sound_of_empty (world : World) (holds : invariant world fun _ => none) :
    Sound rules believes pre post error invariant
      ({ world := world } : Pool World Notes Op Res ε α) :=
  ⟨holds, fun _ _ found => by cases found⟩

/-! ## Schedules -/

/-- What happens next: a thread is started, or a thread performs its next
operation and the world answers as chosen. -/
inductive Turn (Notes Op : Type u) (Res : Op → Type u) (ε α κ : Type u)
  | start (i : Nat) (notes : Notes) (code : Program Op Res ε α)
  | run (i : Nat) (choice : κ)

variable {κ : Type u}

/-- Follow a schedule; turns that cannot be taken or that fail a test are
skipped. -/
def follow (rules : Rules World Notes Op Res ε α) (test : Notes → World → Op → Bool)
    (answer : κ → Notes → World → (op : Op) → Res op × World) :
    List (Turn Notes Op Res ε α κ) → Pool World Notes Op Res ε α → Pool World Notes Op Res ε α
  | [], pool => pool
  | .start i notes code :: rest, pool =>
      match pool.threads i with
      | none => follow rules test answer rest (pool.resume i pool.world ⟨notes, code⟩)
      | some _ => follow rules test answer rest pool
  | .run i choice :: rest, pool =>
      match pool.threads i with
      | some ⟨notes, .perform op next⟩ =>
          if test notes pool.world op then
            let (response, world) := answer choice notes pool.world op
            follow rules test answer rest
              (pool.resume i world ⟨rules.track notes op response, next response⟩)
          else follow rules test answer rest pool
      | _ => follow rules test answer rest pool

/-- Following a schedule of admitted threads is a run. -/
theorem run_follow {test : Notes → World → Op → Bool}
    {answer : κ → Notes → World → (op : Op) → Res op × World}
    (answered : ∀ choice notes world op, test notes world op = true →
      rules.answers notes world op (answer choice notes world op).1
        (answer choice notes world op).2) (schedule : List (Turn Notes Op Res ε α κ))
    (admitted : ∀ i notes code, .start i notes code ∈ schedule → rules.admits i notes code)
    (pool : Pool World Notes Op Res ε α) :
    Run rules pool (follow rules test answer schedule pool) := by
  induction schedule generalizing pool with
  | nil => exact .refl
  | cons turn rest ih =>
    have later := fun pool => ih (fun i notes code member =>
      admitted i notes code (List.mem_cons_of_mem _ member)) pool
    cases turn with
    | start i notes code =>
      unfold follow
      cases absent : pool.threads i with
      | none =>
        exact .head (.spawn i absent (admitted i notes code List.mem_cons_self)) (later _)
      | some thread => exact later pool
    | run i choice =>
      unfold follow
      split
      · next notes op next found =>
          split
          · next passed =>
              exact .head (.perform i found (answered choice notes pool.world op passed)) (later _)
          · exact later pool
      · exact later pool

end Pool

end AgentForge.Library
