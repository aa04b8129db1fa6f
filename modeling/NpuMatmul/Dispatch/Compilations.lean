import NpuMatmul.Dispatch.WarmCache
import NpuMatmul.Shared.Memo

set_option autoImplicit false

namespace NpuMatmul

-- The engine is asked for one backend, and is not unloaded.
def Request.Stays (backendChoice : Int) : Request → Prop
  | .loadBackend choice _ | .initializeNpublas choice _ _ | .matmul _ _ _ choice _ _
  | .matmulTiled _ _ _ _ choice _ => choice = backendChoice
  | .getOrCreateGraph .. | .execute .. => True
  | .unloadActiveBackend => False

def Request.keys : Request → Finset String
  | .getOrCreateGraph M K N useStaticWeights staticWeightsPtr _ =>
      {weightsKey M K N useStaticWeights staticWeightsPtr}
  | .matmul M K N _ _ _ => {graphKey M K N}
  | _ => ∅

def Request.dynamicKeys : Request → Finset String
  | .matmulTiled M K N splits _ _ => {graphKey (M / splits.m) (K / splits.k) (N / splits.n)}
  | _ => ∅

def State.temporaries (s : State) : Request → Nat
  | .execute key true _ => if (s.graphCache.lookup key).any CachedGraph.isValid then 1 else 0
  | .matmul M K N _ true outcome =>
      if State.served s.graphCache (graphKey M K N) outcome.graph then 1 else 0
  | _ => 0

-- What is compiled: a key that is not cached yet is compiled and then is, whatever comes of it.
structure Compiles (s t : State) (asked tiled : Finset String) (temporaries : Nat) : Prop where
  graphCache : Memo.keys t.graphCache = Memo.keys s.graphCache ∪ asked
  dynamic : Memo.keys t.globalDynamicFcGraphs = Memo.keys s.globalDynamicFcGraphs ∪ tiled
  count : t.compileCount = s.compileCount + (asked \ Memo.keys s.graphCache).card +
    (tiled \ Memo.keys s.globalDynamicFcGraphs).card + temporaries

section Compiles

variable {s t u : State} {asked tiled later laterTiled : Finset String} {n m : Nat}

theorem Compiles.of_same (caches : State.SameCaches s t) (count : t.compileCount = s.compileCount + n) :
    Compiles s t ∅ ∅ n := by
  refine ⟨?_, ?_, ?_⟩
  · rw [caches.graphCache, Finset.union_empty]
  · rw [caches.globalDynamicFcGraphs, Finset.union_empty]
  · simpa using count

theorem Compiles.refl (s : State) : Compiles s s ∅ ∅ 0 := Compiles.of_same ⟨rfl, rfl, rfl⟩ rfl

theorem Compiles.trans (first : Compiles s t asked tiled n)
    (second : Compiles t u later laterTiled m) :
    Compiles s u (asked ∪ later) (tiled ∪ laterTiled) (n + m) := by
  refine ⟨?_, ?_, ?_⟩
  · rw [second.graphCache, first.graphCache, Finset.union_assoc]
  · rw [second.dynamic, first.dynamic, Finset.union_assoc]
  · rw [second.count, first.count, first.graphCache, first.dynamic, Memo.card_misses,
      Memo.card_misses]
    omega

variable {M K N : Nat} {useStaticWeights : Bool} {staticWeightsPtr : Option Nat}
  {graph : CachedGraph}

theorem misses_hit {cache : List (String × CachedGraph)} {key : String}
    (found : cache.lookup key = some graph) :
    Memo.keys cache = Memo.keys cache ∪ {key} ∧ ({key} \ Memo.keys cache).card = 0 := by
  have present : key ∈ Memo.keys cache := Memo.mem_keys.mpr (by simp [found])
  simp [present]

theorem misses_cons {cache : List (String × CachedGraph)} {key : String}
    (missing : cache.lookup key = none) (entry : CachedGraph) :
    Memo.keys ((key, entry) :: cache) = Memo.keys cache ∪ {key} ∧
      ({key} \ Memo.keys cache).card = 1 := by
  have absent : key ∉ Memo.keys cache := by
    rw [Memo.mem_keys, missing]
    exact Bool.false_ne_true
  constructor
  · rw [Memo.keys_cons, Finset.insert_eq, Finset.union_comm]
  · rw [Finset.sdiff_eq_self_of_disjoint (Finset.disjoint_singleton_left.mpr absent)]
    exact Finset.card_singleton key

theorem compileCount_build (outcome : BuildOutcome) :
    (s.buildGraph outcome).compileCount = s.compileCount + 1 := by
  simp [State.compileCount, Call.compiles, List.countP_cons]

theorem getOrCreateGraph_compiles {outcome : BuildOutcome}
    (returned : s.getOrCreateGraph M K N useStaticWeights staticWeightsPtr outcome =
      some (t, graph)) :
    Compiles s t {weightsKey M K N useStaticWeights staticWeightsPtr} ∅ 0 := by
  have others := (State.getOrCreateGraph_others returned).1
  have built := compileCount_build (s := s) outcome
  obtain ⟨found, rfl⟩ | ⟨missing, _, ⟨_, _, rfl⟩ | ⟨_, _, rfl⟩⟩ :=
    State.getOrCreateGraph_cases returned
  · obtain ⟨kept, none⟩ := misses_hit found
    exact ⟨kept, by simp, by simp [none]⟩
  · obtain ⟨grown, one⟩ := misses_cons missing (s.builtEntry M K N outcome)
    refine ⟨grown, by simp [others], ?_⟩
    change (s.buildGraph outcome).compileCount = _
    simp [built, one]
  · obtain ⟨grown, one⟩ := misses_cons missing (s.builtEntry M K N outcome)
    refine ⟨grown, by simp [others], ?_⟩
    change (s.buildGraph outcome).compileCount = _
    simp [built, one]

theorem dynamicGraph_compiles {outcome : BuildOutcome}
    (returned : s.dynamicGraph M K N outcome = (t, graph)) :
    Compiles s t ∅ {graphKey M K N} 0 := by
  obtain ⟨found, rfl⟩ | ⟨missing, _, rfl⟩ := State.dynamicGraph_cases returned
  · obtain ⟨kept, none⟩ := misses_hit found
    exact ⟨by simp, kept, by simp [none]⟩
  · obtain ⟨grown, one⟩ := misses_cons missing (s.builtEntry M K N outcome)
    refine ⟨by simp, grown, ?_⟩
    change (s.buildGraph outcome).compileCount = _
    simp [compileCount_build, one]

theorem execute_compiles (s : State) (graph : CachedGraph) (useStaticWeights : Bool)
    (outcome : ExecuteOutcome) :
    Compiles s (s.execute graph useStaticWeights outcome) ∅ ∅ (if useStaticWeights then 1 else 0) :=
  Compiles.of_same (State.execute_same s graph useStaticWeights outcome).2
    (State.compileCount_execute useStaticWeights outcome)

theorem executeRounds_compiles (s : State) (graph : CachedGraph) (executed : Nat → Bool)
    (rounds : Nat) : Compiles s (s.executeRounds graph executed rounds) ∅ ∅ 0 :=
  Compiles.of_same (State.executeRounds_same s graph executed rounds).2
    (State.compileCount_executeRounds executed rounds)

theorem diagnostics_compiles (s : State) (quiet : Bool) :
    Compiles s (s.performDiagnosticsIfNeeded quiet) ∅ ∅ 0 := by
  apply Compiles.of_same (State.performDiagnostics_same s quiet).2
  unfold State.performDiagnosticsIfNeeded
  split
  · rfl
  · dsimp only
    split
    · split
      · simp [State.compileCount, Call.compiles]
      · rfl
    · rfl

theorem returned_served {outcome : BuildOutcome}
    (returned : s.getOrCreateGraph M K N useStaticWeights none outcome = some (t, graph)) :
    graph.isValid = State.served s.graphCache (graphKey M K N) outcome := by
  have key := weightsKey_none M K N useStaticWeights
  obtain ⟨found, _⟩ | ⟨missing, _, ⟨done, rfl, _⟩ | ⟨failed, rfl, _⟩⟩ :=
    State.getOrCreateGraph_cases returned
  · rw [key] at found
    simp [State.served, found]
  · rw [key] at missing
    simp [State.served, missing, State.builtEntry]
  · rw [key] at missing
    simp [State.served, missing, State.dummyInvalid, failed]

end Compiles

section Run

variable {s next : State} {backendChoice : Int} {request : Request}

theorem step_compiles (serving : s.serves backendChoice = true)
    (stays : request.Stays backendChoice) (moved : step s request = some next) :
    Compiles s next request.keys request.dynamicKeys (s.temporaries request) := by
  cases request with
  | loadBackend choice outcome =>
      cases stays
      cases moved
      rw [State.loadBackend_serves s outcome serving]
      exact Compiles.refl s
  | initializeNpublas choice quiet outcome =>
      cases stays
      cases moved
      rw [State.loadBackend_serves s outcome serving]
      exact diagnostics_compiles s quiet
  | getOrCreateGraph M K N useStaticWeights staticWeightsPtr outcome =>
      obtain ⟨⟨t, graph⟩, returned, rfl⟩ := Option.map_eq_some_iff.mp moved
      exact getOrCreateGraph_compiles returned
  | execute key useStaticWeights outcome =>
      simp only [step] at moved
      split at moved
      case h_1 graph found =>
        split at moved <;> cases moved
        case isTrue valid =>
          have built : s.temporaries (.execute key useStaticWeights outcome) =
              if useStaticWeights then 1 else 0 := by
            cases useStaticWeights <;> simp [State.temporaries, found, valid]
          rw [built]
          exact execute_compiles s graph useStaticWeights outcome
        case isFalse invalid =>
          have none : s.temporaries (.execute key useStaticWeights outcome) = 0 := by
            cases useStaticWeights <;> simp [State.temporaries, found, invalid]
          rw [none]
          exact Compiles.refl s
      case h_2 missing =>
        cases moved
        have none : s.temporaries (.execute key useStaticWeights outcome) = 0 := by
          cases useStaticWeights <;> simp [State.temporaries, missing]
        rw [none]
        exact Compiles.refl s
  | matmul M K N choice useStaticWeights outcome =>
      cases stays
      obtain ⟨⟨t, C⟩, returned, rfl⟩ := Option.map_eq_some_iff.mp moved
      have cases := State.matmulInt8_cases returned
      rw [State.loadBackend_serves s outcome.load serving] at cases
      obtain ⟨_, u, graph, created, ran⟩ | ⟨idle, _⟩ := cases
      · have built := getOrCreateGraph_compiles created
        have served := returned_served created
        rw [weightsKey_none] at built
        obtain ⟨valid, rfl⟩ | ⟨invalid, rfl⟩ := ran
        · have temporary : s.temporaries (.matmul M K N backendChoice useStaticWeights outcome) =
              0 + if useStaticWeights then 1 else 0 := by
            cases useStaticWeights <;> simp [State.temporaries, ← served, valid]
          rw [temporary]
          exact built.trans (execute_compiles u graph useStaticWeights outcome.execute)
        · have none : s.temporaries (.matmul M K N backendChoice useStaticWeights outcome) = 0 := by
            cases useStaticWeights <;> simp [State.temporaries, ← served, invalid]
          rw [none]
          exact built
      · rw [State.serves_isLoaded serving] at idle
        cases idle
  | matmulTiled M K N splits choice outcome =>
      cases stays
      obtain ⟨⟨t, C⟩, returned, rfl⟩ := Option.map_eq_some_iff.mp moved
      have cases := State.matmulTiled_cases returned
      rw [State.loadBackend_serves s outcome.load serving] at cases
      obtain ⟨_, _, u, graph, found, ran⟩ | ⟨idle, _⟩ := cases
      · have built := dynamicGraph_compiles found
        obtain ⟨_, rfl⟩ | ⟨_, rfl⟩ := ran
        · exact built.trans (executeRounds_compiles u graph outcome.executed splits.k)
        · exact built
      · rw [State.serves_isLoaded serving] at idle
        cases idle
  | unloadActiveBackend => exact stays.elim

section Choice

variable {t : State} {M K N : Nat} {useStaticWeights : Bool} {staticWeightsPtr : Option Nat}
  {graph : CachedGraph}

theorem serves_same (same : State.SameBackend s t)
    (choice : t.currentBackendChoice = s.currentBackendChoice) :
    t.serves backendChoice = s.serves backendChoice := by
  simp [State.serves, State.isLoaded, same.backendHandle, choice]

theorem getOrCreateGraph_choice {outcome : BuildOutcome}
    (returned : s.getOrCreateGraph M K N useStaticWeights staticWeightsPtr outcome =
      some (t, graph)) : t.currentBackendChoice = s.currentBackendChoice := by
  obtain ⟨_, rfl⟩ | ⟨_, _, ⟨_, _, rfl⟩ | ⟨_, _, rfl⟩⟩ := State.getOrCreateGraph_cases returned <;> rfl

theorem dynamicGraph_choice {outcome : BuildOutcome}
    (returned : s.dynamicGraph M K N outcome = (t, graph)) :
    t.currentBackendChoice = s.currentBackendChoice := by
  obtain ⟨_, rfl⟩ | ⟨_, _, rfl⟩ := State.dynamicGraph_cases returned <;> rfl

theorem execute_choice (s : State) (graph : CachedGraph) (useStaticWeights : Bool)
    (outcome : ExecuteOutcome) :
    (s.execute graph useStaticWeights outcome).currentBackendChoice = s.currentBackendChoice := by
  cases useStaticWeights <;> rfl

theorem executeRounds_choice (s : State) (graph : CachedGraph) (executed : Nat → Bool)
    (rounds : Nat) :
    (s.executeRounds graph executed rounds).currentBackendChoice = s.currentBackendChoice := by
  induction rounds with
  | zero => rfl
  | succ rounds ih => exact ih

theorem diagnostics_choice (s : State) (quiet : Bool) :
    (s.performDiagnosticsIfNeeded quiet).currentBackendChoice = s.currentBackendChoice := by
  unfold State.performDiagnosticsIfNeeded
  split
  · rfl
  · dsimp only
    split
    · split <;> rfl
    · rfl

end Choice

theorem step_serves (serving : s.serves backendChoice = true) (stays : request.Stays backendChoice)
    (moved : step s request = some next) : next.serves backendChoice = true := by
  cases request with
  | loadBackend choice outcome =>
      cases stays
      cases moved
      rw [State.loadBackend_serves s outcome serving]
      exact serving
  | initializeNpublas choice quiet outcome =>
      cases stays
      cases moved
      rw [State.loadBackend_serves s outcome serving,
        serves_same (State.performDiagnostics_same s quiet).1 (diagnostics_choice s quiet)]
      exact serving
  | getOrCreateGraph M K N useStaticWeights staticWeightsPtr outcome =>
      obtain ⟨⟨t, graph⟩, returned, rfl⟩ := Option.map_eq_some_iff.mp moved
      rw [serves_same (State.getOrCreateGraph_sameBackend returned)
        (getOrCreateGraph_choice returned)]
      exact serving
  | execute key useStaticWeights outcome =>
      obtain rfl | ⟨graph, _, _, rfl⟩ := step_execute_cases moved
      · exact serving
      · rw [serves_same (State.execute_same s graph useStaticWeights outcome).1
          (execute_choice s graph useStaticWeights outcome)]
        exact serving
  | matmul M K N choice useStaticWeights outcome =>
      cases stays
      obtain ⟨⟨t, C⟩, returned, rfl⟩ := Option.map_eq_some_iff.mp moved
      have cases := State.matmulInt8_cases returned
      rw [State.loadBackend_serves s outcome.load serving] at cases
      obtain ⟨_, u, graph, created, ran⟩ | ⟨idle, _⟩ := cases
      · have built : u.serves backendChoice = true := by
          rw [serves_same (State.getOrCreateGraph_sameBackend created)
            (getOrCreateGraph_choice created)]
          exact serving
        obtain ⟨_, rfl⟩ | ⟨_, rfl⟩ := ran
        · rw [serves_same (State.execute_same u graph useStaticWeights outcome.execute).1
            (execute_choice u graph useStaticWeights outcome.execute)]
          exact built
        · exact built
      · rw [State.serves_isLoaded serving] at idle
        cases idle
  | matmulTiled M K N splits choice outcome =>
      cases stays
      obtain ⟨⟨t, C⟩, returned, rfl⟩ := Option.map_eq_some_iff.mp moved
      have cases := State.matmulTiled_cases returned
      rw [State.loadBackend_serves s outcome.load serving] at cases
      obtain ⟨_, _, u, graph, found, ran⟩ | ⟨idle, _⟩ := cases
      · have same := (State.dynamicGraph_same s (M / splits.m) (K / splits.k) (N / splits.n)
          outcome.graph).1
        rw [found] at same
        have built : u.serves backendChoice = true := by
          rw [serves_same same (dynamicGraph_choice found)]
          exact serving
        obtain ⟨_, rfl⟩ | ⟨_, rfl⟩ := ran
        · rw [serves_same (State.executeRounds_same u graph outcome.executed splits.k).1
            (executeRounds_choice u graph outcome.executed splits.k)]
          exact built
        · exact built
      · rw [State.serves_isLoaded serving] at idle
        cases idle
  | unloadActiveBackend => exact stays.elim

def askedKeys (requests : List Request) : Finset String :=
  requests.foldr (fun request keys => request.keys ∪ keys) ∅

def tiledKeys (requests : List Request) : Finset String :=
  requests.foldr (fun request keys => request.dynamicKeys ∪ keys) ∅

theorem run_compiles {requests : List Request} {last : State}
    (serving : s.serves backendChoice = true)
    (stays : ∀ request ∈ requests, request.Stays backendChoice)
    (ran : Runs.after step s requests = some last) :
    Compiles s last (askedKeys requests) (tiledKeys requests)
      (Runs.total step State.temporaries s requests) := by
  induction requests generalizing s with
  | nil =>
      cases ran
      exact Compiles.refl _
  | cons request rest ih =>
      obtain ⟨next, moved, ran⟩ := Option.bind_eq_some_iff.mp ran
      have here := stays request List.mem_cons_self
      have first := step_compiles serving here moved
      have others := ih (step_serves serving here moved)
        (fun other member => stays other (List.mem_cons_of_mem request member)) ran
      have total : Runs.total step State.temporaries s (request :: rest) =
          s.temporaries request + Runs.total step State.temporaries next rest := by
        simp [Runs.total, moved]
      rw [total]
      exact first.trans others

-- While the engine stays on one backend a shape is compiled at most once by each kernel, also
-- where its compilation fails; only temporary graphs are compiled for every execution.
theorem compiled_once {requests : List Request} {last : State}
    (serving : s.serves backendChoice = true)
    (stays : ∀ request ∈ requests, request.Stays backendChoice)
    (ran : Runs.after step s requests = some last) :
    last.compileCount = s.compileCount + (askedKeys requests \ Memo.keys s.graphCache).card +
      (tiledKeys requests \ Memo.keys s.globalDynamicFcGraphs).card +
        Runs.total step State.temporaries s requests :=
  (run_compiles serving stays ran).count

def repeatedRequests : List Request :=
  [.matmul 4 4 4 1 false (matmulWith .notFinalized true),
    .matmul 4 4 4 1 false (matmulWith .finalized true),
    .matmul 8 4 4 1 true (matmulWith .finalized true),
    .matmulTiled 8 8 8 ⟨2, 2, 2⟩ 1 (tiledWith .finalized true),
    .matmulTiled 4 4 4 whole 1 (tiledWith .finalized true)]

theorem compiled_once_repeated :
    ∃ last, Runs.after step loadedEngine repeatedRequests = some last ∧
      last.compileCount = loadedEngine.compileCount + 4 := by
  have serving : loadedEngine.serves 1 = true := rfl
  have stays : ∀ request ∈ repeatedRequests, request.Stays 1 := by
    simp [repeatedRequests, Request.Stays]
  have ran : Runs.after step loadedEngine repeatedRequests = some _ := rfl
  refine ⟨_, ran, ?_⟩
  rw [compiled_once serving stays ran]
  rfl

end Run

end NpuMatmul
