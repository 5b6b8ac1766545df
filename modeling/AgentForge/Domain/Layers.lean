import AgentForge.Domain.Graph
import AgentForge.Library.Dict
import AgentForge.Library.Rank
import Mathlib.Data.Set.Finite.List

/-!
# What the layers are

The layering of a mapping from steps to dependencies is the ranking of its
dependency relation: round by round, the resolved steps are those settled so
far.  A stuck round leaves the steps that reach a cycle or an unknown step.
-/

namespace AgentForge.Domain

open Library
open Relation

variable {remaining : Dependencies} {stepId : String} {layers : List (List String)}
  {resolved : List String}

/-- The loop of `topological_layers` as it is written: while steps remain, raise
if none is ready, otherwise peel the ready ones off. -/
inductive Layering : Dependencies → List String →
    Except DefinitionError (List (List String)) → Prop
  | done (resolved : List String) : Layering [] resolved (.ok [])
  | stuck {remaining : Dependencies} {resolved : List String} : remaining ≠ [] →
      readyLayer remaining resolved = [] →
      Layering remaining resolved
        (.error (.cyclic ((remaining.map Prod.fst).insertionSort (· ≤ ·))))
  | round {remaining : Dependencies} {resolved : List String}
      {result : Except DefinitionError (List (List String))} : remaining ≠ [] →
      readyLayer remaining resolved ≠ [] →
      Layering (remaining.filter fun entry => entry.1 ∉ readyLayer remaining resolved)
        (resolved ++ readyLayer remaining resolved) result →
      Layering remaining resolved (result.map (readyLayer remaining resolved :: ·))

/-- A step of the mapping names another one as its dependency. -/
def DependsOn (mapping : Dict String (List String)) (stepId dependency : String) : Prop :=
  ∃ listed, mapping.get? stepId = some listed ∧ dependency ∈ listed

/-! ## Rounds -/

theorem mem_readyLayer_iff : stepId ∈ readyLayer remaining resolved ↔
      ∃ listed, (stepId, listed) ∈ remaining ∧ ∀ dependency ∈ listed, dependency ∈ resolved := by
  simp [readyLayer]

theorem sorted_readyLayer (remaining : Dependencies) (resolved : List String) :
    (readyLayer remaining resolved).Pairwise (· ≤ ·) :=
  List.pairwise_insertionSort _ _

theorem nodup_readyLayer (resolved : List String)
    (nodup : (remaining.map Prod.fst).Nodup) : (readyLayer remaining resolved).Nodup := by
  unfold readyLayer
  rw [(List.perm_insertionSort _ _).nodup_iff]
  exact nodup.sublist (List.filter_sublist.map Prod.fst)

/-- A round that peels something off leaves fewer steps. -/
theorem length_filter_lt (some : readyLayer remaining resolved ≠ []) :
    (remaining.filter fun entry => entry.1 ∉ readyLayer remaining resolved).length <
      remaining.length := by
  obtain ⟨stepId, ready⟩ := List.exists_mem_of_ne_nil _ some
  obtain ⟨listed, member, _⟩ := mem_readyLayer_iff.mp ready
  exact List.length_filter_lt_length_iff_exists.mpr ⟨_, member, by simpa using ready⟩

/-- With a unit of fuel per remaining step, the fuel does not run out. -/
theorem layering_layersFrom {fuel : Nat} (resolved : List String)
    (enough : remaining.length ≤ fuel) :
    Layering remaining resolved (layersFrom fuel remaining resolved) := by
  induction fuel generalizing remaining resolved with
  | zero =>
    obtain rfl := List.length_eq_zero_iff.mp (Nat.le_zero.mp enough)
    exact .done resolved
  | succ fuel ih =>
    cases remaining with
    | nil => exact .done resolved
    | cons first rest =>
      unfold layersFrom
      by_cases none : readyLayer (first :: rest) resolved = []
      · have stuck := Layering.stuck (List.cons_ne_nil first rest) none
        simpa [none, throw, throwThe, MonadExceptOf.throw, bind, Except.bind] using stuck
      · have fewer := length_filter_lt none
        have later := ih (resolved ++ readyLayer (first :: rest) resolved)
          (Nat.le_of_lt_succ (Nat.lt_of_lt_of_le fewer enough))
        have consed : ∀ result : Except DefinitionError (List (List String)),
            (result >>= fun layers => pure (readyLayer (first :: rest) resolved :: layers)) =
              result.map (readyLayer (first :: rest) resolved :: ·) := by
          intro result
          cases result <;> rfl
        simp only [none, if_false]
        exact consed _ ▸ Layering.round (List.cons_ne_nil first rest) none later

/-! ## Ranks -/

/-- A result ranks the elements that are settled after `start` rounds: each layer
holds, sorted, what its round settles; an error names what is never settled. -/
def Ranked (inside : String → Prop) (needs : String → String → Prop) (start : Nat) :
    Except DefinitionError (List (List String)) → Prop
  | .ok layers =>
      (∀ layer ∈ layers, layer ≠ [] ∧ layer.Nodup ∧ layer.Pairwise (· ≤ ·)) ∧
      (∀ index stepId, stepId ∈ (layers[index]?).getD [] ↔
        SettledWithin inside needs (start + index + 1) stepId ∧
          ¬ SettledWithin inside needs (start + index) stepId) ∧
      ∀ stepId, inside stepId → SettledWithin inside needs (start + layers.length) stepId
  | .error failure =>
      ∃ unsettled, failure = .cyclic unsettled ∧ unsettled ≠ [] ∧ unsettled.Nodup ∧
        unsettled.Pairwise (· ≤ ·) ∧ ∀ stepId, stepId ∈ unsettled ↔
          inside stepId ∧ ¬ ∃ rounds, SettledWithin inside needs rounds stepId

section Rounds

variable {mapping : Dict String (List String)} {rounds : Nat} {remaining : Dependencies}
  {resolved : List String}

/-- The loop state after a number of rounds. -/
structure InRound (mapping : Dict String (List String)) (rounds : Nat)
    (remaining : Dependencies) (resolved : List String) : Prop where
  nodup : (remaining.map Prod.fst).Nodup
  remaining : ∀ stepId listed, (stepId, listed) ∈ remaining ↔
    mapping.get? stepId = some listed ∧
      ¬ SettledWithin (· ∈ mapping.keys) (DependsOn mapping) rounds stepId
  resolved : ∀ stepId, stepId ∈ resolved ↔
    SettledWithin (· ∈ mapping.keys) (DependsOn mapping) rounds stepId

theorem inRound_zero (mapping : Dict String (List String)) :
    InRound mapping 0 mapping.entries [] where
  nodup := mapping.nodup
  remaining := by simp [SettledWithin, Dict.get?_eq_some_iff]
  resolved := by simp [SettledWithin]

variable (state : InRound mapping rounds remaining resolved)

include state

/-- The ready layer is what the next round settles. -/
theorem InRound.mem_readyLayer : stepId ∈ readyLayer remaining resolved ↔
      SettledWithin (· ∈ mapping.keys) (DependsOn mapping) (rounds + 1) stepId ∧
        ¬ SettledWithin (· ∈ mapping.keys) (DependsOn mapping) rounds stepId := by
  rw [mem_readyLayer_iff]
  constructor
  · rintro ⟨listed, member, known⟩
    obtain ⟨stored, late⟩ := (state.remaining stepId listed).mp member
    refine ⟨⟨Dict.mem_keys_iff_get?.mpr ⟨listed, stored⟩, ?_⟩, late⟩
    rintro dependency ⟨found, sameStored, isListed⟩
    cases stored.symm.trans sameStored
    exact (state.resolved dependency).mp (known dependency isListed)
  · rintro ⟨⟨key, settled⟩, late⟩
    obtain ⟨listed, stored⟩ := Dict.mem_keys_iff_get?.mp key
    refine ⟨listed, (state.remaining stepId listed).mpr ⟨stored, late⟩, ?_⟩
    intro dependency isListed
    exact (state.resolved dependency).mpr (settled dependency ⟨listed, stored, isListed⟩)

theorem InRound.next :
    InRound mapping (rounds + 1)
      (remaining.filter fun entry => entry.1 ∉ readyLayer remaining resolved)
      (resolved ++ readyLayer remaining resolved) where
  nodup := state.nodup.sublist (List.filter_sublist.map Prod.fst)
  remaining := by
    intro stepId listed
    simp only [List.mem_filter, state.remaining, decide_eq_true_eq, state.mem_readyLayer]
    constructor
    · rintro ⟨⟨stored, late⟩, notReady⟩
      exact ⟨stored, fun settled => notReady ⟨settled, late⟩⟩
    · rintro ⟨stored, late⟩
      exact ⟨⟨stored, fun settled => late settled.succ⟩, fun ready => late ready.1⟩
  resolved := by
    intro stepId
    rw [List.mem_append, state.resolved, state.mem_readyLayer]
    constructor
    · rintro (settled | ready)
      · exact settled.succ
      · exact ready.1
    · intro settled
      by_cases before : SettledWithin (· ∈ mapping.keys) (DependsOn mapping) rounds stepId
      · exact .inl before
      · exact .inr ⟨settled, before⟩

/-- If a round settles nothing, no later one does. -/
theorem InRound.settled_of_stuck (none : readyLayer remaining resolved = []) {later : Nat}
    (settled : SettledWithin (· ∈ mapping.keys) (DependsOn mapping) later stepId) :
    SettledWithin (· ∈ mapping.keys) (DependsOn mapping) rounds stepId := by
  induction later generalizing stepId with
  | zero => exact settled.elim
  | succ later ih =>
    have next : SettledWithin (· ∈ mapping.keys) (DependsOn mapping) (rounds + 1) stepId :=
      ⟨settled.1, fun dependency edge => ih (settled.2 dependency edge)⟩
    by_contra late
    have ready := state.mem_readyLayer.mpr ⟨next, late⟩
    rw [none] at ready
    cases ready

theorem InRound.mem_keys : stepId ∈ remaining.map Prod.fst ↔ stepId ∈ mapping.keys ∧
      ¬ SettledWithin (· ∈ mapping.keys) (DependsOn mapping) rounds stepId := by
  simp [Dict.mem_keys_iff_get?, state.remaining]

omit state

/-- Whatever the loop returns ranks the steps. -/
theorem Layering.ranked {result : Except DefinitionError (List (List String))}
    (layering : Layering remaining resolved result)
    (state : InRound mapping rounds remaining resolved) :
    Ranked (· ∈ mapping.keys) (DependsOn mapping) rounds result := by
  induction layering generalizing rounds with
  | done resolved =>
    have settled : ∀ stepId ∈ mapping.keys,
        SettledWithin (· ∈ mapping.keys) (DependsOn mapping) rounds stepId := by
      intro stepId key
      by_contra late
      cases state.mem_keys.mpr ⟨key, late⟩
    refine ⟨by simp, ?_, settled⟩
    intro index stepId
    refine ⟨fun member => by simp at member, ?_⟩
    rintro ⟨within, late⟩
    exact absurd ((settled stepId (inside_of_settled within)).mono (Nat.le_add_right _ _)) late
  | @stuck remaining resolved nonempty none =>
    refine ⟨_, rfl, ?_, ?_, List.pairwise_insertionSort _ _, ?_⟩
    · simpa [← List.length_eq_zero_iff] using nonempty
    · rw [(List.perm_insertionSort _ _).nodup_iff]
      exact state.nodup
    · intro stepId
      rw [List.mem_insertionSort, state.mem_keys]
      refine and_congr_right fun _ => not_congr ⟨fun settled => ⟨rounds, settled⟩, ?_⟩
      rintro ⟨later, settled⟩
      exact state.settled_of_stuck none settled
  | @round remaining resolved result nonempty some _ ih =>
    have later := ih state.next
    cases result with
    | error failure => exact later
    | ok layers =>
      obtain ⟨shaped, exact, complete⟩ := later
      refine ⟨?_, ?_, ?_⟩
      · intro layer member
        rcases List.mem_cons.mp member with rfl | member
        · exact ⟨some, nodup_readyLayer resolved state.nodup, sorted_readyLayer _ _⟩
        · exact shaped layer member
      · intro index stepId
        cases index with
        | zero => exact state.mem_readyLayer
        | succ index =>
          have shifted := exact index stepId
          rw [Nat.add_right_comm rounds 1 index] at shifted
          exact shifted
      · intro stepId key
        have settled := complete stepId key
        rwa [Nat.add_right_comm] at settled

end Rounds

theorem ranked_topologicalLayers (mapping : Dict String (List String)) :
    Ranked (· ∈ mapping.keys) (DependsOn mapping) 0 (topologicalLayers mapping.entries) :=
  (layering_layersFrom [] (Nat.le_refl _)).ranked (inRound_zero mapping)

/-! ## Uniqueness -/

section Uniqueness

variable {inside : String → Prop} {needs : String → String → Prop} {start : Nat}

private theorem eq_of_sorted {first second : List String} (nodup : first.Nodup)
    (nodup' : second.Nodup) (sorted : first.Pairwise (· ≤ ·)) (sorted' : second.Pairwise (· ≤ ·))
    (same : ∀ stepId, stepId ∈ first ↔ stepId ∈ second) : first = second :=
  ((List.perm_ext_iff_of_nodup nodup nodup').mpr same).eq_of_pairwise
    (fun _ _ _ _ below above => le_antisymm below above) sorted sorted'

private theorem layers_unique {layers layers' : List (List String)}
    (ranked : Ranked inside needs start (.ok layers))
    (ranked' : Ranked inside needs start (.ok layers')) : layers = layers' := by
  obtain ⟨shaped, exact, _⟩ := ranked
  obtain ⟨shaped', exact', _⟩ := ranked'
  have same (index : Nat) (stepId : String) :
      stepId ∈ (layers[index]?).getD [] ↔ stepId ∈ (layers'[index]?).getD [] :=
    (exact index stepId).trans (exact' index stepId).symm
  apply List.ext_getElem?
  intro index
  cases found : layers[index]? with
  | none =>
    cases found' : layers'[index]? with
    | none => rfl
    | some layer' =>
      obtain ⟨stepId, member⟩ := List.exists_mem_of_ne_nil layer'
        (shaped' layer' (List.mem_of_getElem? found')).1
      have misplaced := (same index stepId).mpr (by simpa [found'] using member)
      simp [found] at misplaced
  | some layer =>
    obtain ⟨nonempty, nodup, sorted⟩ := shaped layer (List.mem_of_getElem? found)
    cases found' : layers'[index]? with
    | none =>
      obtain ⟨stepId, member⟩ := List.exists_mem_of_ne_nil layer nonempty
      have misplaced := (same index stepId).mp (by simpa [found] using member)
      simp [found'] at misplaced
    | some layer' =>
      obtain ⟨_, nodup', sorted'⟩ := shaped' layer' (List.mem_of_getElem? found')
      refine congrArg some (eq_of_sorted nodup nodup' sorted sorted' fun stepId => ?_)
      simpa [found, found'] using same index stepId

private theorem not_ranked_error_of_ok {failure : DefinitionError}
    (ranked : Ranked inside needs start (.ok layers)) :
    ¬ Ranked inside needs start (.error failure) := by
  rintro ⟨unsettled, _, nonempty, _, _, never⟩
  obtain ⟨stepId, member⟩ := List.exists_mem_of_ne_nil unsettled nonempty
  obtain ⟨isInside, never⟩ := (never stepId).mp member
  exact never ⟨_, ranked.2.2 stepId isInside⟩

/-- Sets and relation determine the result. -/
theorem Ranked.unique {result result' : Except DefinitionError (List (List String))}
    (ranked : Ranked inside needs start result) (ranked' : Ranked inside needs start result') :
    result = result' := by
  cases result with
  | ok layers =>
    cases result' with
    | ok layers' => rw [layers_unique ranked ranked']
    | error failure' => exact absurd ranked' (not_ranked_error_of_ok ranked)
  | error failure =>
    cases result' with
    | ok layers' => exact absurd ranked (not_ranked_error_of_ok ranked')
    | error failure' =>
      obtain ⟨unsettled, rfl, _, nodup, sorted, never⟩ := ranked
      obtain ⟨unsettled', rfl, _, nodup', sorted', never'⟩ := ranked'
      rw [eq_of_sorted nodup nodup' sorted sorted' fun stepId =>
        (never stepId).trans (never' stepId).symm]

end Uniqueness

/-! ## The layering -/

/-- A step reaches a cycle or a step that the mapping does not have. -/
def ReachesDefect (mapping : Dict String (List String)) (stepId : String) : Prop :=
  ∃ reached, ReflTransGen (DependsOn mapping) stepId reached ∧
    (TransGen (DependsOn mapping) reached reached ∨ reached ∉ mapping.keys)

/-- The same steps with the same dependencies, in whatever order and however
often they are listed. -/
def SameDependencies (mapping other : Dict String (List String)) : Prop :=
  (∀ stepId, stepId ∈ mapping.keys ↔ stepId ∈ other.keys) ∧
    ∀ stepId dependency, DependsOn mapping stepId dependency ↔ DependsOn other stepId dependency

/-- Layers by the longest chain of dependencies. -/
structure Layered (mapping : Dict String (List String)) (layers : List (List String)) : Prop where
  partition : layers.flatten.Perm mapping.keys
  nonempty : ∀ layer ∈ layers, layer ≠ []
  sorted : ∀ layer ∈ layers, layer.Pairwise (· ≤ ·)
  rank : ∀ (index : Nat) stepId, (∃ layer, layers[index]? = some layer ∧ stepId ∈ layer) ↔
    stepId ∈ mapping.keys ∧ LongestChain (DependsOn mapping) index stepId
  earlier : ∀ (index : Nat) layer stepId dependency, layers[index]? = some layer → stepId ∈ layer →
    DependsOn mapping stepId dependency →
    ∃ before < index, ∃ layer', layers[before]? = some layer' ∧ dependency ∈ layer'

section Layering

variable {mapping : Dict String (List String)}

private theorem finite_keys (mapping : Dict String (List String)) :
    {stepId | stepId ∈ mapping.keys}.Finite :=
  List.finite_toSet mapping.keys

theorem exists_settled_iff_not_reachesDefect :
    (∃ rounds, SettledWithin (· ∈ mapping.keys) (DependsOn mapping) rounds stepId) ↔
      ¬ ReachesDefect mapping stepId := by
  rw [exists_settled_iff (finite_keys mapping)]
  unfold ReachesDefect
  push Not
  refine forall_congr' fun target => imp_congr_right fun _ => ?_
  rw [and_comm]

private theorem mem_getD_iff {index : Nat} :
    stepId ∈ (layers[index]?).getD [] ↔ ∃ layer, layers[index]? = some layer ∧ stepId ∈ layer := by
  cases layers[index]? <;> simp

/-- Ranked layers are layers by the longest chain. -/
theorem layered_of_ranked (ranked : Ranked (· ∈ mapping.keys) (DependsOn mapping) 0 (.ok layers)) :
    Layered mapping layers := by
  obtain ⟨shaped, exact, complete⟩ := ranked
  have rank (index : Nat) (stepId : String) :
      (∃ layer, layers[index]? = some layer ∧ stepId ∈ layer) ↔
        SettledWithin (· ∈ mapping.keys) (DependsOn mapping) (index + 1) stepId ∧
          ¬ SettledWithin (· ∈ mapping.keys) (DependsOn mapping) index stepId := by
    have settles := exact index stepId
    rwa [Nat.zero_add, mem_getD_iff] at settles
  have exists_rank {rounds : Nat} {stepId : String}
      (settled : SettledWithin (· ∈ mapping.keys) (DependsOn mapping) rounds stepId) :
      ∃ index < rounds, ∃ layer, layers[index]? = some layer ∧ stepId ∈ layer := by
    induction rounds with
    | zero => exact settled.elim
    | succ rounds ih =>
      by_cases before : SettledWithin (· ∈ mapping.keys) (DependsOn mapping) rounds stepId
      · obtain ⟨index, less, found⟩ := ih before
        exact ⟨index, Nat.lt_succ_of_lt less, found⟩
      · exact ⟨rounds, Nat.lt_succ_self rounds, (rank rounds stepId).mpr ⟨settled, before⟩⟩
  refine ⟨?_, fun layer member => (shaped layer member).1,
    fun layer member => (shaped layer member).2.2, ?_, ?_⟩
  · have nodup : layers.flatten.Nodup := by
      rw [List.nodup_flatten]
      refine ⟨fun layer member => (shaped layer member).2.1, ?_⟩
      rw [List.pairwise_iff_getElem]
      intro first second firstValid secondValid before stepId inFirst inSecond
      have early := ((rank first stepId).mp ⟨_, List.getElem?_eq_getElem firstValid, inFirst⟩).1
      have late := ((rank second stepId).mp ⟨_, List.getElem?_eq_getElem secondValid, inSecond⟩).2
      exact late (early.mono before)
    apply (List.perm_ext_iff_of_nodup nodup mapping.nodup).mpr
    intro stepId
    constructor
    · intro member
      obtain ⟨layer, isLayer, inLayer⟩ := List.mem_flatten.mp member
      obtain ⟨index, found⟩ := List.getElem?_of_mem isLayer
      exact inside_of_settled ((rank index stepId).mp ⟨layer, found, inLayer⟩).1
    · intro key
      obtain ⟨_, _, layer, found, inLayer⟩ := exists_rank (complete stepId key)
      exact List.mem_flatten.mpr ⟨layer, List.mem_of_getElem? found, inLayer⟩
  · intro index stepId
    rw [rank]
    constructor
    · rintro ⟨settled, late⟩
      exact ⟨inside_of_settled settled, (settled_at_iff ⟨_, settled⟩).mp ⟨settled, late⟩⟩
    · rintro ⟨key, longest⟩
      exact (settled_at_iff ⟨_, complete stepId key⟩).mpr longest
  · intro index layer stepId dependency found inLayer edge
    have settled := ((rank index stepId).mp ⟨layer, found, inLayer⟩).1
    exact exists_rank (settled.2 dependency edge)

theorem topologicalLayers_eq_of_same {other : Dict String (List String)}
    (same : SameDependencies mapping other) :
    topologicalLayers mapping.entries = topologicalLayers other.entries := by
  have keys : (· ∈ other.keys) = (· ∈ mapping.keys) :=
    funext fun stepId => propext (same.1 stepId).symm
  have edges : DependsOn other = DependsOn mapping :=
    funext fun stepId => funext fun dependency => propext (same.2 stepId dependency).symm
  have ranked := ranked_topologicalLayers other
  rw [keys, edges] at ranked
  exact (ranked_topologicalLayers mapping).unique ranked

/-- The layering fails exactly if some step reaches a defect. -/
theorem exists_layers_iff (mapping : Dict String (List String)) :
    (∃ layers, topologicalLayers mapping.entries = .ok layers) ↔
      ∀ stepId ∈ mapping.keys, ¬ ReachesDefect mapping stepId := by
  have ranked := ranked_topologicalLayers mapping
  cases result : topologicalLayers mapping.entries with
  | ok layers =>
    rw [result] at ranked
    refine iff_of_true ⟨layers, rfl⟩ fun stepId key => ?_
    exact exists_settled_iff_not_reachesDefect.mp ⟨_, ranked.2.2 stepId key⟩
  | error failure =>
    rw [result] at ranked
    obtain ⟨unsettled, _, nonempty, _, _, never⟩ := ranked
    obtain ⟨stepId, member⟩ := List.exists_mem_of_ne_nil unsettled nonempty
    obtain ⟨key, never⟩ := (never stepId).mp member
    refine iff_of_false (by simp) fun sound => never ?_
    exact exists_settled_iff_not_reachesDefect.mpr (sound stepId key)

theorem validateDependencies_iff (mapping : Dict String (List String)) :
    validateDependencies mapping.entries = .ok () ↔
      (∀ stepId dependency, DependsOn mapping stepId dependency → dependency ∈ mapping.keys) ∧
        ∀ stepId, ¬ TransGen (DependsOn mapping) stepId stepId := by
  rw [validateDependencies_eq_ok, checkKnown_eq_ok, exists_layers_iff]
  constructor
  · rintro ⟨known, sound⟩
    constructor
    · rintro stepId dependency ⟨listed, stored, isListed⟩
      exact (known (stepId, listed) (Dict.get?_eq_some_iff.mp stored) dependency isListed).2
    · intro stepId cycle
      obtain ⟨_, ⟨listed, stored, _⟩, _⟩ := TransGen.head'_iff.mp cycle
      exact sound stepId (Dict.mem_keys_iff_get?.mpr ⟨listed, stored⟩) ⟨stepId, .refl, .inl cycle⟩
  · rintro ⟨known, acyclic⟩
    constructor
    · rintro ⟨stepId, listed⟩ member dependency isListed
      have edge : DependsOn mapping stepId dependency :=
        ⟨listed, Dict.get?_eq_some_iff.mpr member, isListed⟩
      refine ⟨?_, known stepId dependency edge⟩
      rintro rfl
      exact acyclic dependency (.single edge)
    · rintro stepId key ⟨reached, path, cycle | unknown⟩
      · exact acyclic reached cycle
      · rcases ReflTransGen.cases_tail path with rfl | ⟨last, _, edge⟩
        · exact unknown key
        · exact unknown (known last reached edge)

end Layering

/-- The layering is exact, whatever the mapping. -/
theorem layering_exact (mapping : Dict String (List String)) :
    Layering mapping.entries [] (topologicalLayers mapping.entries) ∧
    ((∃ remaining, topologicalLayers mapping.entries = .error (.cyclic remaining)) ↔
      ∃ stepId ∈ mapping.keys, ReachesDefect mapping stepId) ∧
    ((∃ layers, topologicalLayers mapping.entries = .ok layers) ↔
      ¬ ∃ stepId ∈ mapping.keys, ReachesDefect mapping stepId) ∧
    (∀ layers, topologicalLayers mapping.entries = .ok layers → Layered mapping layers) ∧
    (∀ other, SameDependencies mapping other →
      topologicalLayers other.entries = topologicalLayers mapping.entries) ∧
    (validateDependencies mapping.entries = .ok () ↔
      (∀ stepId dependency, DependsOn mapping stepId dependency → dependency ∈ mapping.keys) ∧
        ∀ stepId, ¬ TransGen (DependsOn mapping) stepId stepId) := by
  have ranked := ranked_topologicalLayers mapping
  have layers : (∃ layers, topologicalLayers mapping.entries = .ok layers) ↔
      ¬ ∃ stepId ∈ mapping.keys, ReachesDefect mapping stepId := by
    rw [exists_layers_iff]
    push Not
    rfl
  refine ⟨layering_layersFrom [] (Nat.le_refl _), ?_, layers, ?_,
    fun other same => (topologicalLayers_eq_of_same same).symm, validateDependencies_iff mapping⟩
  · rw [← not_iff_not, ← layers]
    cases result : topologicalLayers mapping.entries with
    | ok layers => simp
    | error failure =>
        rw [result] at ranked
        obtain ⟨unsettled, rfl, _⟩ := ranked
        simp
  · intro layers result
    rw [result] at ranked
    exact layered_of_ranked ranked

end AgentForge.Domain
