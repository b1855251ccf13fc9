import Firenook.EvaluationLaws

/-!
# Budgets of rules evaluation

Evaluation ends for every program, because the depth check stops calls that would
nest deeper than twenty.  An allowed operation has evaluated at most a thousand
expressions: beyond that every further evaluation fails, and no operator turns a
failed last operand into a success.  Lookups are counted before they are made, and a
document once found is answered from the cache.
-/

namespace Firenook.Rules

open AccessState List

variable {context : Context}

/-! ## Enough fuel -/

theorem judgeAllows_congr {calls calls' : Calls} {environment : Environment}
    (same : ∀ condition, evalExpr context calls environment condition =
      evalExpr context calls' environment condition) (allows : List Allow)
    (evaluator : Evaluator) :
    judgeAllows context calls environment allows evaluator =
      judgeAllows context calls' environment allows evaluator := by
  induction allows generalizing evaluator with
  | nil => rfl
  | cons allow allows ih => simp only [judgeAllows, same, ih]

section Fuel

variable {fuel fuel' : Nat}

section

variable (enough : maximumFunctionCallDepth ≤ fuel) (enough' : maximumFunctionCallDepth ≤ fuel')
include enough enough'

theorem judgeBlock_fuel (pattern : List PatternSegment) (functions : Functions)
    (allows : List Allow) (evaluator : Evaluator) :
    judgeBlock context fuel pattern functions allows evaluator =
      judgeBlock context fuel' pattern functions allows evaluator := by
  unfold judgeBlock
  split
  · next bindings found =>
    apply judgeAllows_congr
    intro condition
    exact (condition_related equality_law functions enough enough'
      (blockEnvironment_plain (patternBindings_plain found)) condition).evaluated
  · rfl

end

mutual

theorem walk_fuel (enough : maximumFunctionCallDepth ≤ fuel)
    (enough' : maximumFunctionCallDepth ≤ fuel')
    (parentPattern : List PatternSegment) (inherited : Functions) (block : MatchBlock)
    (evaluator : Evaluator) :
    walk context fuel parentPattern inherited block evaluator =
      walk context fuel' parentPattern inherited block evaluator := by
  match block with
  | ⟨pattern, functions, allows, children⟩ =>
    simp only [walk, judgeBlock_fuel enough enough', walkAll_fuel enough enough' _ _ children]

theorem walkAll_fuel (enough : maximumFunctionCallDepth ≤ fuel)
    (enough' : maximumFunctionCallDepth ≤ fuel')
    (parentPattern : List PatternSegment) (inherited : Functions) (blocks : List MatchBlock)
    (evaluator : Evaluator) :
    walkAll context fuel parentPattern inherited blocks evaluator =
      walkAll context fuel' parentPattern inherited blocks evaluator := by
  match blocks with
  | [] => rfl
  | block :: blocks =>
    simp only [walkAll, walk_fuel enough enough' _ _ block,
      walkAll_fuel enough enough' _ _ blocks]

end

section

variable (enough : maximumFunctionCallDepth ≤ fuel) (enough' : maximumFunctionCallDepth ≤ fuel')
include enough enough'

variable {libraries : Libraries} {access : DocumentAccess} (program : Program)

theorem runRequest_fuel (request : EvaluationRequest) (state : AccessState) :
    runRequest libraries fuel program access request state =
      runRequest libraries fuel' program access request state := by
  have same : ∀ branch, walkAll ⟨request, access, libraries, branch⟩ fuel [] program.functions
      program.blocks = walkAll ⟨request, access, libraries, branch⟩ fuel' [] program.functions
      program.blocks := by
    intro branch
    funext evaluator
    exact walkAll_fuel enough enough' _ _ program.blocks evaluator
  simp only [runRequest, same]

theorem runRequests_fuel (requests : List EvaluationRequest) (state : AccessState) :
    runRequests libraries fuel program access requests state =
      runRequests libraries fuel' program access requests state := by
  induction requests generalizing state with
  | nil => rfl
  | cons request requests ih =>
    simp only [runRequests, runRequest_fuel enough enough' program request state, ih]

end

end Fuel

/-! ## Lookups -/

def Lookup.succeeded (lookup : Lookup) : Bool := lookup.answer.isOk

def successfulPaths (lookups : List Lookup) (after : Bool) : List Text :=
  (lookups.filter fun lookup => lookup.after == after && lookup.succeeded).map Lookup.path

structure WithinOperation (initial : AccessState) (evaluator : Evaluator) : Prop where
  counted : evaluator.state.lookups.length =
    initial.lookups.length + evaluator.operationDocumentAccesses
  bounded : evaluator.operationDocumentAccesses ≤ singleRequestAccessLimit

structure WithinLimit (limit : Nat) (state : AccessState) : Prop where
  maximum : state.maximumAccesses = limit
  counted : state.lookups.length = state.documentAccesses
  bounded : state.documentAccesses ≤ limit

structure Remembers (state : AccessState) : Prop where
  cached : ∀ after, ∀ path ∈ successfulPaths state.lookups after, path ∈ state.cache after
  once : ∀ after, (successfulPaths state.lookups after).Nodup

theorem withinOperation_effects (initial : AccessState)
    (cloud : context.request.service = .cloudFirestore) :
    EffectProof context (WithinOperation initial) where
  refused _ holds := ⟨holds.counted, holds.bounded⟩
  counted _ _ holds := ⟨holds.counted, holds.bounded⟩
  document path after limited may evaluator holds := by
    have limit : limited = true := by simpa [cloud] using may
    rcases document_cases path after limited evaluator with ⟨_, -, run⟩ | ⟨_, run⟩ | ⟨-, room, run⟩
    · rw [run]
      exact ⟨holds.counted, holds.bounded⟩
    · rw [run]
      exact ⟨holds.counted, holds.bounded⟩
    · rw [run]
      constructor
      · simp only [record_lookups, length_cons, holds.counted]
        omega
      · exact (room limit).1

theorem withinLimit_effects (limit : Nat) (cloud : context.request.service = .cloudFirestore) :
    EffectProof context fun evaluator => WithinLimit limit evaluator.state where
  refused _ holds := holds
  counted _ _ holds := holds
  document path after limited may evaluator holds := by
    have limit : limited = true := by simpa [cloud] using may
    rcases document_cases path after limited evaluator with ⟨_, -, run⟩ | ⟨_, run⟩ | ⟨-, room, run⟩
    · rw [run]
      exact ⟨holds.maximum, holds.counted, holds.bounded⟩
    · rw [run]
      exact holds
    · rw [run]
      have below := (room limit).2
      rw [holds.maximum] at below
      constructor
      · rw [record_maximumAccesses, holds.maximum]
      · simp only [record_lookups, record_documentAccesses,
          length_cons, holds.counted]
      · rw [record_documentAccesses]
        exact below

variable {state : AccessState}

theorem Remembers.record (remembers : Remembers state) {after : Bool}
    {path : Text} (absent : (state.cache after)[path]? = none)
    (answer : Except Text (Option Resource)) : Remembers (state.record after path answer) := by
  have lookups := state.record_lookups after path answer
  cases answer with
  | error text =>
    have same : ∀ view, successfulPaths (state.record after path (.error text)).lookups view =
        successfulPaths state.lookups view := by
      simp [lookups, successfulPaths, Lookup.succeeded, Except.toBool]
    constructor
    · intro view other member
      rw [same] at member
      exact state.mem_cache_record _ _ _ (remembers.cached view other member)
    · intro view
      rw [same]
      exact remembers.once view
  | ok resource =>
    have grown : ∀ view, successfulPaths (state.record after path (.ok resource)).lookups view =
        if after = view then path :: successfulPaths state.lookups view
        else successfulPaths state.lookups view := by
      intro view
      cases after <;> cases view <;>
        simp [lookups, successfulPaths, Lookup.succeeded, Except.toBool]
    constructor
    · intro view other member
      rw [grown] at member
      split_ifs at member with same
      · rcases mem_cons.mp member with rfl | member
        · rw [← same]
          exact state.mem_cache_record_self after other resource
        · exact state.mem_cache_record _ _ _ (remembers.cached view other member)
      · exact state.mem_cache_record _ _ _ (remembers.cached view other member)
    · intro view
      rw [grown]
      split_ifs with same
      · apply nodup_cons.mpr
        refine ⟨?_, remembers.once view⟩
        intro member
        have present := remembers.cached view path member
        rw [← same, Std.ExtTreeMap.mem_iff_isSome_getElem?, absent] at present
        cases present
      · exact remembers.once view

theorem remembers_effects : EffectProof context fun evaluator => Remembers evaluator.state where
  refused _ holds := holds
  counted _ _ holds := holds
  document path after limited _ evaluator holds := by
    rcases document_cases path after limited evaluator with ⟨_, -, run⟩ | ⟨_, run⟩ |
      ⟨absent, -, run⟩
    · rw [run]
      exact ⟨holds.cached, holds.once⟩
    · rw [run]
      exact holds
    · rw [run]
      exact holds.record absent _

theorem fuelled_effects : EffectProof context fun evaluator => evaluator.outOfFuel = false where
  refused _ holds := holds
  counted _ _ holds := holds
  document path after limited _ evaluator holds := by
    rcases document_cases path after limited evaluator with ⟨_, -, run⟩ | ⟨_, run⟩ |
      ⟨-, -, run⟩ <;> rw [run] <;> exact holds

/-! ## Expressions -/

def Affordable (evaluator : Evaluator) : Prop :=
  evaluator.evaluatedExpressions ≤ maximumEvaluatedExpressions

variable {evaluator : Evaluator}

theorem affordable_of_charge {cost : Nat} {value : Unit}
    (returned : (charge cost evaluator).1 = .ok value) : Affordable (charge cost evaluator).2 := by
  simp only [charge] at returned ⊢
  split at returned
  · cases returned
  · next within =>
    rw [if_neg within]
    exact not_lt.mp within

theorem document_evaluatedExpressions (path : Text) (after limited : Bool) (evaluator : Evaluator) :
    (document context path after limited evaluator).2.evaluatedExpressions =
      evaluator.evaluatedExpressions := by
  rcases document_cases path after limited evaluator with ⟨_, -, run⟩ | ⟨_, run⟩ | ⟨-, -, run⟩
  · rw [run]
  · rw [run]
    rfl
  · rw [run]

/-- A success of an evaluation, whatever it started from, is within the counter's limit:
the evaluation counted itself first. -/
theorem affordable_law : EvaluationLaw context
    (fun computation _ => computation.Succeeds Affordable)
    (fun computation _ => ∀ evaluator value, (computation evaluator).1 = .ok value →
      Affordable (computation evaluator).2) where
  toLaw := Computation.Succeeds.law Affordable
  refuse _ _ _ _ returned := by cases returned
  charge _ _ _ _ returned := affordable_of_charge returned
  document path after limited _ evaluator affordable _ _ := by
    unfold Affordable
    rw [document_evaluatedExpressions]
    exact affordable
  metered span body _ succeeds evaluator value returned := by
    have reached := Computation.mapError_eq_ok.mp returned
    rcases (charge 1).andThen_cases (fun _ => body) evaluator with ⟨_, paid, run⟩ | ⟨_, -, run⟩
    · rw [run] at reached
      change Affordable (((charge 1).andThen fun _ => body) evaluator).2
      rw [run]
      exact succeeds _ (affordable_of_charge paid) value reached
    · rw [run] at reached
      cases reached
  weaken evaluated evaluator _ value returned := evaluated evaluator value returned
  consult := by
    intro decided combine left _ right _ consults leftEvaluated rightEvaluated evaluator _ value
    unfold Computation.consult
    split
    · next result judged =>
      intro returned
      obtain ⟨reached, leftReturned⟩ := consults.early _ value (judged.trans (congrArg some returned))
      exact leftEvaluated evaluator reached leftReturned
    · intro returned
      obtain ⟨reached, rightReturned⟩ := consults.late _ _ value returned
      exact rightEvaluated _ reached rightReturned

theorem undecided_effects : EffectProof context fun evaluator => evaluator.allowed = false where
  refused _ holds := holds
  counted _ _ holds := holds
  document path after limited _ evaluator holds := by
    rcases document_cases path after limited evaluator with ⟨_, -, run⟩ | ⟨_, run⟩ |
      ⟨-, -, run⟩ <;> rw [run] <;> exact holds

def AllowedAffordably (evaluator : Evaluator) : Prop :=
  evaluator.allowed = true → Affordable evaluator

theorem AllowedAffordably.of_undecided
    (undecided : evaluator.allowed = false) : AllowedAffordably evaluator := by
  intro allowed
  rw [undecided] at allowed
  cases allowed

section Allowed

variable {fuel : Nat} (enough : maximumFunctionCallDepth ≤ fuel)
include enough

theorem judgeAllows_affordable (functions : Functions) {environment : Environment}
    (plain : PlainEnvironment context environment) (allows : List Allow)
    (undecided : evaluator.allowed = false) :
    AllowedAffordably (judgeAllows context (userCalls context functions fuel 0) environment allows
      evaluator) := by
  induction allows generalizing evaluator with
  | nil => exact .of_undecided undecided
  | cons allow allows ih =>
    have still := (condition_related (keeps_law undecided_effects) functions enough enough plain
      allow.condition).evaluated
      { evaluator with matchingAllows := evaluator.matchingAllows + 1 } undecided
    have affordable := (condition_related affordable_law functions enough enough plain
      allow.condition).evaluated { evaluator with matchingAllows := evaluator.matchingAllows + 1 }
    simp only [judgeAllows]
    split
    · split
      · next run =>
        rw [run] at affordable
        exact fun _ => affordable _ rfl
      all_goals
        next run =>
          rw [run] at still
          exact ih still
    · exact ih undecided

theorem runRequest_affordable {libraries : Libraries} {access : DocumentAccess} (program : Program)
    (request : EvaluationRequest) (state : AccessState) :
    AllowedAffordably (runRequest libraries fuel program access request state) := by
  have start : AllowedAffordably { state } := .of_undecided rfl
  have proof : ∀ branch, WalkProof ⟨request, access, libraries, branch⟩ fuel
      (fun evaluator => evaluator.allowed = false) AllowedAffordably :=
    fun branch => ⟨judgeAllows_affordable enough, .of_undecided, fun _ denied => denied⟩
  exact runRequest_done (fun _ _ => rfl) program proof (fun _ => start) start

end Allowed

/-! ## Batches -/

theorem runRequests_mem {libraries : Libraries} {fuel : Nat} {program : Program}
    {access : DocumentAccess} {requests : List EvaluationRequest}
    {run : AccessState × Evaluator}
    (member : run ∈ runRequests libraries fuel program access requests state) :
    ∃ request ∈ requests, run.2 = runRequest libraries fuel program access request run.1 := by
  induction requests generalizing state with
  | nil => simp [runRequests] at member
  | cons request requests ih =>
    rcases mem_cons.mp member with rfl | member
    · exact ⟨request, mem_cons_self .., rfl⟩
    · obtain ⟨other, inside, ran⟩ := ih member
      exact ⟨other, mem_cons_of_mem _ inside, ran⟩

theorem runRequests_keeps {libraries : Libraries} {fuel : Nat} {program : Program}
    {access : DocumentAccess} {requests : List EvaluationRequest} {Invariant : AccessState → Prop}
    (keeps : ∀ request ∈ requests, ∀ state, Invariant state →
      Invariant (runRequest libraries fuel program access request state).state)
    (holds : Invariant state) {run : AccessState × Evaluator}
    (member : run ∈ runRequests libraries fuel program access requests state) :
    Invariant run.2.state := by
  induction requests generalizing state with
  | nil => simp [runRequests] at member
  | cons request requests ih =>
    have kept := keeps request (mem_cons_self ..) state holds
    rcases mem_cons.mp member with rfl | member
    · exact kept
    · exact ih (forall_mem_cons.mp keeps).2 kept member

theorem finalState_keeps {runs : List (AccessState × Evaluator)} {initial : AccessState}
    {Invariant : AccessState → Prop} (holds : Invariant initial)
    (kept : ∀ run ∈ runs, Invariant run.2.state) : Invariant (finalState runs initial) := by
  unfold finalState
  cases last : runs.getLast? with
  | none => exact holds
  | some run => exact kept run (mem_of_getLast? last)

section Batches

variable {libraries : Libraries} {program : Program} {access : DocumentAccess}
  {request : EvaluationRequest}

theorem runRequest_withinOperation (cloud : request.service = .cloudFirestore)
    (state : AccessState) :
    (runRequest libraries sufficientFuel program access request state).state.lookups.length ≤
      state.lookups.length + singleRequestAccessLimit := by
  have free : VerdictFree (WithinOperation state) :=
    ⟨fun _ _ holds => ⟨holds.counted, holds.bounded⟩,
      fun _ _ holds => ⟨holds.counted, holds.bounded⟩,
      fun _ _ holds => ⟨holds.counted, holds.bounded⟩⟩
  have within : WithinOperation state
      (runRequest libraries sufficientFuel program access request state) :=
    runRequest_keeps free program (fun _ => withinOperation_effects state cloud) le_rfl
      ⟨rfl, Nat.zero_le _⟩
  rw [within.counted]
  exact Nat.add_le_add_left within.bounded _

theorem verdictFree_of_state (Invariant : AccessState → Prop) :
    VerdictFree fun evaluator => Invariant evaluator.state :=
  ⟨fun _ _ holds => holds, fun _ _ holds => holds, fun _ _ holds => holds⟩

theorem runRequest_withinLimit {limit : Nat} (cloud : request.service = .cloudFirestore)
    (holds : WithinLimit limit state) :
    WithinLimit limit (runRequest libraries sufficientFuel program access request state).state :=
  runRequest_keeps (verdictFree_of_state _) program (fun _ => withinLimit_effects limit cloud)
    le_rfl holds

theorem runRequest_remembers (holds : Remembers state) :
    Remembers (runRequest libraries sufficientFuel program access request state).state :=
  runRequest_keeps (verdictFree_of_state _) program (fun _ => remembers_effects) le_rfl holds

theorem runRequest_fuelled {fuel : Nat} (enough : sufficientFuel ≤ fuel) (state : AccessState) :
    (runRequest libraries fuel program access request state).outOfFuel = false := by
  have free : VerdictFree fun evaluator => evaluator.outOfFuel = false :=
    ⟨fun _ _ holds => holds, fun _ _ holds => holds, fun _ _ holds => holds⟩
  exact runRequest_keeps free program (fun _ => fuelled_effects) enough rfl

theorem WithinLimit.new (limit : Nat) : WithinLimit limit (.new limit) := ⟨rfl, rfl, Nat.zero_le _⟩

theorem Remembers.new (limit : Nat) : Remembers (.new limit) :=
  ⟨by simp [AccessState.new, successfulPaths], by simp [AccessState.new, successfulPaths]⟩

end Batches

def atomicState (libraries : Libraries) (program : Program) (requests : List EvaluationRequest)
    (access : DocumentAccess) : AccessState :=
  finalState (runRequests libraries sufficientFuel program access requests
    (.new multiRequestAccessLimit)) (.new multiRequestAccessLimit)

/-- Evaluation ends with the same runs for every fuel that covers the calls the depth
check lets through; an allowed operation evaluated at most 1000 expressions; under Cloud
Firestore one operation makes at most 10 lookups, a single request at most 10 and a
batch at most 20; and in one batch no path is found twice in the same view. -/
theorem evaluation_within_budgets (libraries : Libraries) (program : Program)
    (access : DocumentAccess) (requests : List EvaluationRequest) :
    (∀ fuel state, sufficientFuel ≤ fuel →
      runRequests libraries fuel program access requests state =
        runRequests libraries sufficientFuel program access requests state ∧
      ∀ run ∈ runRequests libraries fuel program access requests state, run.2.outOfFuel = false) ∧
    (∀ operation ∈ (evaluateAtomic libraries program requests access).operations,
      operation.allowed = true → operation.evaluatedExpressions ≤ 1000) ∧
    (∀ request, (evaluate libraries program request access).allowed = true →
      (evaluate libraries program request access).evaluatedExpressions ≤ 1000) ∧
    ((∀ request ∈ requests, request.service = .cloudFirestore) →
      (∀ run ∈ runRequests libraries sufficientFuel program access requests
          (.new multiRequestAccessLimit),
        run.2.state.lookups.length ≤ run.1.lookups.length + 10) ∧
      (∀ request ∈ requests, (runRequest libraries sufficientFuel program access request
        (.new singleRequestAccessLimit)).state.lookups.length ≤ 10) ∧
      (atomicState libraries program requests access).lookups.length ≤ 20) ∧
    (∀ after, (successfulPaths (atomicState libraries program requests access).lookups
      after).Nodup) := by
  refine ⟨?_, ?_, ?_, ?_, ?_⟩
  · intro fuel state enough
    refine ⟨runRequests_fuel enough le_rfl program requests state, ?_⟩
    intro run member
    obtain ⟨request, -, ran⟩ := runRequests_mem member
    rw [ran]
    exact runRequest_fuelled enough run.1
  · intro operation member allowed
    obtain ⟨run, inside, rfl⟩ := List.mem_map.mp member
    obtain ⟨request, -, ran⟩ := runRequests_mem inside
    have affordable : AllowedAffordably run.2 := by
      rw [ran]
      exact runRequest_affordable le_rfl program request run.1
    exact affordable allowed
  · intro request allowed
    exact runRequest_affordable le_rfl program request _ allowed
  · intro cloud
    refine ⟨?_, ?_, ?_⟩
    · intro run member
      obtain ⟨request, inside, ran⟩ := runRequests_mem member
      rw [ran]
      exact runRequest_withinOperation (cloud request inside) run.1
    · intro request inside
      exact runRequest_withinOperation (cloud request inside) _
    · have within : WithinLimit multiRequestAccessLimit
          (atomicState libraries program requests access) := by
        refine finalState_keeps (.new _) fun run member => ?_
        exact runRequests_keeps (fun request inside state => runRequest_withinLimit
          (cloud request inside)) (.new _) member
      rw [within.counted]
      exact within.bounded
  · have remembers : Remembers (atomicState libraries program requests access) := by
      refine finalState_keeps (.new _) fun run member => ?_
      exact runRequests_keeps (fun _ _ _ => runRequest_remembers) (.new _) member
    exact remembers.once

open Sample

theorem evaluation_within_budgets_sample :
    (∀ request ∈ [getRequest], request.service = .cloudFirestore) ∧
    (evaluate libraries lookupProgram getRequest access).allowed = true ∧
    (evaluate libraries lookupProgram getRequest
      access).evaluatedExpressions ≤ 1000 ∧
    (atomicState libraries lookupProgram [getRequest]
      access).lookups.length ≤ 20 := by
  have budgets := evaluation_within_budgets libraries lookupProgram access
    [getRequest]
  have cloud : ∀ request ∈ [getRequest], request.service = .cloudFirestore := by
    simp [getRequest, EvaluationRequest.new]
  have allowed : (evaluate libraries lookupProgram getRequest
      access).allowed = true := by
    decide +kernel
  exact ⟨cloud, allowed, budgets.2.2.1 _ allowed, (budgets.2.2.2.1 cloud).2.2⟩

end Firenook.Rules
