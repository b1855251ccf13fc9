import Firenook.OrderedMaps
import Firenook.RulesEvaluator
import Firenook.Runs

/-!
# Laws of the evaluator

One induction over expressions serves every statement about evaluation: whatever
relation between computations is preserved by sequencing, by the evaluator's three
effects and by the logical operators relates the evaluations of an expression under
related ways of calling functions.
-/

namespace Firenook.Rules

open Std List Firenook.Computation ExtTreeMap
open Typed (andThen)

/-! ## The package of document access -/

variable (context : Context)

/-- The `firestore` package exists under Firebase Storage alone. -/
def Plain : EvalValue → Prop
  | .package .firestore => context.request.service = .firebaseStorage
  | _ => True

def PlainAll (values : List EvalValue) : Prop :=
  ∀ value ∈ values, Plain context value

def PlainEnvironment (environment : Environment) : Prop :=
  ∀ (name : Text) (value : EvalValue), environment[name]? = some value → Plain context value

structure PlainOutcome (context : Context) (outcome : Outcome EvalValue) : Prop where
  plain : ∀ value, outcome = .ok value → Plain context value

variable {context : Context}

namespace PlainOutcome

theorem ok {value : EvalValue} (plain : Plain context value) :
    PlainOutcome context (.ok value) := by
  constructor
  rintro _ ⟨⟩
  exact plain

theorem error (error : RuntimeError) : PlainOutcome context (.error error) := by
  constructor
  rintro _ ⟨⟩

theorem bind {α : Type} {first : Outcome α} {next : α → Outcome EvalValue}
    (continues : ∀ value, PlainOutcome context (next value)) :
    PlainOutcome context (first >>= next) := by
  constructor
  intro value returned
  obtain ⟨middle, -, returned⟩ := bind_eq_ok.mp returned
  exact (continues middle).plain value returned

theorem ite {condition : Prop} [Decidable condition] {first second : Outcome EvalValue}
    (yes : PlainOutcome context first) (no : PlainOutcome context second) :
    PlainOutcome context (if condition then first else second) := by
  split
  · exact yes
  · exact no

end PlainOutcome

theorem integerOr_plain (overflow : String) (value : Int) :
    PlainOutcome context (integerOr overflow value) := by
  unfold integerOr
  split
  · exact .ok trivial
  · exact .error _

theorem numericBinary_plain (left right : EvalValue) (integer : Int → Int → Int)
    (float : Binary64 → Binary64 → Binary64) (overflow : String) :
    PlainOutcome context (numericBinary left right integer float overflow) := by
  apply PlainOutcome.bind
  intro left
  apply PlainOutcome.bind
  intro right
  split
  · exact integerOr_plain ..
  · exact .ok trivial

theorem evalUnary_plain (operator : UnaryOperator) (value : EvalValue) :
    PlainOutcome context (evalUnary operator value) := by
  repeat' first
    | exact .error _ | exact .ok trivial | exact integerOr_plain ..
    | refine .bind fun _ => ?_ | refine .ite ?_ ?_ | split

theorem symbolicBinary_plain {operator : BinaryOperator} {left right verdict : EvalValue}
    (decided : symbolicBinary operator left right = some verdict) : Plain context verdict := by
  have proofPlain : ∀ constraint operator value,
      Plain context (proofOf constraint operator value) := by
    intro constraint operator value
    unfold proofOf
    split <;> trivial
  unfold symbolicBinary at decided
  split at decided
  · cases decided
    exact proofPlain ..
  · split at decided
    · cases decided
      split <;> trivial
    · cases decided
      exact proofPlain ..
  · split at decided
    · cases decided
      trivial
    · cases decided

theorem evalBinaryValues_plain (operator : BinaryOperator) (left right : EvalValue) :
    PlainOutcome context (evalBinaryValues operator left right) := by
  unfold evalBinaryValues
  split
  · next decided => exact .ok (symbolicBinary_plain decided)
  · unfold evalAdd evalSubtract evalDivide evalRemainder evalIn evalOrdered
    repeat' first
      | exact .error _ | exact .ok trivial | exact integerOr_plain ..
      | exact numericBinary_plain .. | refine .bind fun _ => ?_ | refine .ite ?_ ?_ | split

theorem indexValue_plain (base index : EvalValue) :
    PlainOutcome context (indexValue context.libraries base index) := by
  unfold indexValue
  repeat' first
    | exact .error _ | exact .ok trivial | refine .bind fun _ => ?_ | refine .ite ?_ ?_ | split
    | dsimp only

theorem sliceValue_plain (base : EvalValue) (start stop : Option EvalValue) :
    PlainOutcome context (sliceValue base start stop) := by
  unfold sliceValue
  repeat' first
    | exact .error _ | exact .ok trivial | refine .bind fun _ => ?_ | refine .ite ?_ ?_ | split

theorem timestampMethod_plain (value : Timestamp) (name : Text) (arguments : List EvalValue) :
    PlainOutcome context (timestampMethod context.libraries value name arguments) := by
  refine .bind fun _ => .bind fun _ => ?_
  repeat' first
    | exact .error _ | exact .ok trivial | exact integerOr_plain .. | refine .ite ?_ ?_

theorem callNamespace_plain (package : Namespace) (name : Text) (arguments : List EvalValue) :
    PlainOutcome context (callNamespace context.libraries package name arguments) := by
  unfold callNamespace durationNamespace hashingNamespace latLngNamespace mathNamespace
    timestampNamespace unsupported
  repeat' first
    | exact .error _ | exact .ok trivial | exact integerOr_plain ..
    | refine .bind fun _ => ?_ | refine .ite ?_ ?_ | split

theorem callMethod_plain (receiver : EvalValue) (name : Text) (arguments : List EvalValue) :
    PlainOutcome context (callMethod context.libraries receiver name arguments) := by
  unfold callMethod stringMethod listMethod mapMethod setMethod mapDiffMethod bytesMethod
    durationMethod latLngMethod unsupported
  repeat' first
    | exact .error _ | exact .ok trivial | exact callNamespace_plain ..
    | exact timestampMethod_plain .. | refine .bind fun _ => ?_ | refine .ite ?_ ?_ | split

theorem fieldValue_plain (name : List Text) (predicates : List FieldConstraint) :
    Plain context (fieldValue name predicates) := by
  unfold fieldValue
  split <;> trivial

theorem resourceValue_plain (resource : Option Resource) :
    Plain context (resourceValue resource) := by
  cases resource <;> trivial

theorem field_plain (base : EvalValue) (name : Text) :
    PlainOutcome context
      (field context.libraries context.request context.queryBranch base name) := by
  unfold field requestField authField queryField resourceField missingField
  repeat' first
    | exact .error _ | exact .ok trivial | exact .ok (fieldValue_plain ..)
    | exact .ok (resourceValue_plain _) | refine .ite ?_ ?_ | split
  exact .ok (by cases context.request.auth <;> trivial)

/-! ## Plain environments -/

section Plain

variable {arguments : List EvalValue} {function : Function} {environment : Environment}

theorem oneArgument_plain {name : Text} (plain : PlainAll context arguments) :
    PlainOutcome context (oneArgument context.libraries name arguments) := by
  unfold oneArgument
  split
  · exact .ok (plain _ (by simp))
  · exact .error _

theorem variableValue_plain (plain : PlainEnvironment context environment) (name : Text) :
    PlainOutcome context (variableValue context environment name) := by
  unfold variableValue
  split
  · next value found => exact .ok (plain name value found)
  · split
    · next package found =>
      apply PlainOutcome.ok
      unfold packageOf at found
      split_ifs at found with _ storage
      all_goals cases found
      all_goals first | trivial | exact storage.2
    · exact .error _

theorem indexed_plain (base index : EvalValue) :
    PlainOutcome context (indexed context base index) := by
  unfold indexed
  repeat' first
    | exact field_plain .. | exact .ok trivial | exact indexValue_plain .. | split

section

variable (plain : PlainEnvironment context environment)
include plain

theorem PlainEnvironment.insert {name : Text}
    {value : EvalValue} (plainValue : Plain context value) :
    PlainEnvironment context (environment.insert name value) := by
  intro other found present
  rw [OrderedMaps.getElem?_insert_eq] at present
  split_ifs at present
  · cases present
    exact plainValue
  · exact plain other found present

theorem PlainEnvironment.bindAll {pairs : List (Text × EvalValue)}
    (plainPairs : ∀ pair ∈ pairs, Plain context pair.2) :
    PlainEnvironment context (bindAll pairs environment) := by
  induction pairs generalizing environment with
  | nil => exact plain
  | cons pair pairs ih =>
    apply ih
    · exact plain.insert (plainPairs pair (mem_cons_self ..))
    · intro other member
      exact plainPairs other (mem_cons_of_mem _ member)

theorem PlainEnvironment.enterFunction (plainArguments : PlainAll context arguments) :
    PlainEnvironment context (enterFunction function arguments environment) := by
  apply PlainEnvironment.bindAll
  · intro name value present
    rw [getElem?_filter', Option.filter_eq_some_iff] at present
    exact plain name value present.1
  · intro pair member
    exact plainArguments pair.2 (of_mem_zip member).2

end

/-- What a pattern binds: a plain value for every wildcard, in the order of the pattern. -/
def BindsWildcards (context : Context) (pattern : List PatternSegment)
    (environment bindings : Environment) : Prop :=
  ∃ values, values.length = (wildcards pattern).length ∧ PlainAll context values ∧
    bindings = bindAll ((wildcards pattern).zip values) environment

namespace BindsWildcards

variable {pattern : List PatternSegment} {bindings : Environment}

theorem nil : BindsWildcards context [] environment environment :=
  ⟨[], rfl, by simp [PlainAll], rfl⟩

theorem literal (text : Text) (binds : BindsWildcards context pattern environment bindings) :
    BindsWildcards context (.literal text :: pattern) environment bindings :=
  binds

theorem wildcard {segment : PatternSegment} {name : Text} {value : EvalValue}
    (binding : segment.binding? = some name) (plain : Plain context value)
    (binds : BindsWildcards context pattern (environment.insert name value) bindings) :
    BindsWildcards context (segment :: pattern) environment bindings := by
  obtain ⟨values, size, plainValues, rfl⟩ := binds
  have names : wildcards (segment :: pattern) = name :: wildcards pattern := by
    simp [wildcards, binding]
  refine ⟨value :: values, by simp [names, size], ?_, by rw [names]; rfl⟩
  simpa [PlainAll] using ⟨plain, plainValues⟩

theorem plain (binds : BindsWildcards context pattern environment bindings)
    (plainBefore : PlainEnvironment context environment) :
    PlainEnvironment context bindings := by
  obtain ⟨values, -, plainValues, rfl⟩ := binds
  apply plainBefore.bindAll
  intro pair member
  exact plainValues pair.2 (of_mem_zip member).2

end BindsWildcards

variable {pattern : List PatternSegment} {bindings : Environment}

theorem matchDomain_binds {domain : List Segment}
    (found : matchDomain pattern domain environment = some bindings) :
    BindsWildcards context pattern environment bindings := by
  induction pattern generalizing domain environment with
  | nil =>
    simp only [matchDomain] at found
    split_ifs at found
    cases found
    exact .nil
  | cons segment pattern ih =>
    cases segment with
    | literal text =>
      simp only [matchDomain] at found
      split at found
      · split_ifs at found
        exact .literal text (ih found)
      · cases found
    | wildcard name =>
      simp only [matchDomain] at found
      split at found
      · exact .wildcard rfl (by trivial) (ih found)
      · exact .wildcard rfl (by trivial) (ih found)
      · cases found
    | recursiveWildcard name =>
      obtain ⟨length, -, found⟩ := exists_of_findSome?_eq_some found
      refine .wildcard rfl ?_ (ih found)
      unfold stretchValue
      split <;> trivial

theorem Bindings.toEnvironment_insert (bindings : Bindings) (name : Text) (value : Value) :
    toEnvironment (bindings.insert name value) =
      bindings.toEnvironment.insert name (.data value) := by
  apply ExtTreeMap.ext_getElem?
  intro other
  simp only [toEnvironment, ExtTreeMap.getElem?_map, OrderedMaps.getElem?_insert_eq]
  split_ifs <;> rfl

theorem mapM_literals (texts : List Text) :
    (texts.map Segment.literal).mapM Segment.literal? = some texts := by
  induction texts with
  | nil => rfl
  | cons text texts ih => simp [ih, Segment.literal?]

theorem matchDomain_literals (pattern : List PatternSegment) (path : List Text)
    (bindings : Bindings) :
    matchDomain pattern (path.map .literal) bindings.toEnvironment =
      (matchPatternFrom pattern path bindings).map Bindings.toEnvironment := by
  induction pattern generalizing path bindings with
  | nil => cases path <;> rfl
  | cons segment pattern ih =>
    cases segment with
    | literal text =>
      cases path with
      | nil => rfl
      | cons first path =>
        simp only [matchDomain, matchPatternFrom, map_cons, ih, eq_comm]
        split_ifs <;> rfl
    | wildcard name =>
      cases path with
      | nil => rfl
      | cons first path =>
        simp only [matchDomain, matchPatternFrom, map_cons, ← ih, Bindings.toEnvironment_insert]
        rfl
    | recursiveWildcard name =>
      simp only [matchDomain, matchPatternFrom, length_map, ← map_drop, ← map_take,
        stretchValue, mapM_literals, ← Bindings.toEnvironment_insert, ih, map_findSome?]
      rfl

theorem matchPatternFrom_binds {path : List Text}
    {before after : Bindings} (found : matchPatternFrom pattern path before = some after) :
    BindsWildcards context pattern before.toEnvironment after.toEnvironment := by
  have same := matchDomain_literals pattern path before
  rw [found] at same
  exact matchDomain_binds same

theorem patternBindings_binds (found : patternBindings context pattern = some bindings) :
    BindsWildcards context pattern ∅ bindings := by
  unfold patternBindings at found
  split at found
  · obtain ⟨⟨root, rest⟩, -, found⟩ := Option.bind_eq_some_iff.mp found
    exact matchDomain_binds found
  · obtain ⟨matched, reached, rfl⟩ := Option.map_eq_some_iff.mp found
    exact matchPatternFrom_binds reached

theorem patternBindings_plain (found : patternBindings context pattern = some bindings) :
    PlainEnvironment context bindings :=
  (patternBindings_binds found).plain (by simp [PlainEnvironment])

theorem blockEnvironment_plain (plain : PlainEnvironment context bindings) :
    PlainEnvironment context (blockEnvironment context bindings) := by
  apply PlainEnvironment.insert
  · exact plain.insert trivial
  · unfold currentResource
    repeat' first | trivial | exact resourceValue_plain _ | split

end Plain

/-! ## Laws -/

/-- A logical operator succeeds only after its last operand evaluated did. -/
structure Consults (decided : Outcome EvalValue → Option (Outcome EvalValue))
    (combine : Outcome EvalValue → Outcome EvalValue → Outcome EvalValue) : Prop where
  early : ∀ left value, decided left = some (.ok value) → ∃ reached, left = .ok reached
  late : ∀ left right value, combine left right = .ok value → ∃ reached, right = .ok reached

/-- A relation between computations that the evaluator's own operations preserve.
`Evaluated` is what a whole evaluation, which counts itself first, makes of `Related`. -/
structure EvaluationLaw (context : Context)
    (Related : ∀ {α : Type}, Eval α → Eval α → Prop)
    (Evaluated : Eval EvalValue → Eval EvalValue → Prop) : Prop
    extends Law Related where
  refuse : ∀ {α : Type} message, Related (refuse message : Eval α) (refuse message)
  charge : ∀ cost, Related (charge cost) (charge cost)
  document : ∀ path after limited,
    limited = true ∨ context.request.service = .firebaseStorage →
    Related (document context path after limited) (document context path after limited)
  metered : ∀ span {body body' : Eval EvalValue}, Related body body' →
    Evaluated (.mapError (.locate span) ((Rules.charge 1).andThen fun _ => body))
      (.mapError (.locate span) ((Rules.charge 1).andThen fun _ => body'))
  weaken : ∀ {first second : Eval EvalValue}, Evaluated first second → Related first second
  consult : ∀ {decided combine} {left left' right right' : Eval EvalValue},
    Consults decided combine → Evaluated left left' → Evaluated right right' →
    Related (.consult decided combine left right) (.consult decided combine left' right')

/-! ## Logical operators -/

theorem bind_ok {outcome : Outcome EvalValue} {α : Type} {next : EvalValue → Outcome α} {value : α}
    (returned : outcome.bind next = .ok value) : ∃ reached, outcome = .ok reached := by
  cases outcome with
  | error error => cases returned
  | ok reached => exact ⟨reached, rfl⟩

variable (terminal : Bool)

theorem logical_consults : Consults (logicalDecided terminal) (logicalCombined terminal) where
  early left value decided := by
    unfold logicalDecided at decided
    split at decided
    · next reached => exact bind_ok reached
    · cases decided
  late left right value combined := by
    unfold logicalCombined at combined
    split at combined
    · next reached => exact bind_ok reached
    · next reached => exact bind_ok reached
    · cases combined
    · cases combined

theorem proof_consults : Consults (proofDecided terminal) (proofCombined terminal) where
  early left value decided := by
    unfold proofDecided at decided
    split at decided
    · next reached => exact bind_ok reached
    · cases decided
  late left right value combined := by
    unfold proofCombined at combined
    split at combined
    · exact bind_ok combined
    · next reached _ => exact bind_ok reached
    · obtain ⟨_, -, combined⟩ := bind_eq_ok.mp combined
      obtain ⟨_, reached, -⟩ := bind_eq_ok.mp combined
      exact bind_ok reached

theorem queryBoolean_plain (value : EvalValue) : PlainOutcome context (queryBoolean value) := by
  constructor
  intro result returned
  unfold queryBoolean at returned
  split at returned
  · cases returned
    trivial
  · split at returned
    · next symbolic =>
      cases returned
      cases value <;> trivial
    · cases returned

theorem proofCombined_plain (left right : Outcome EvalValue) :
    PlainOutcome context (proofCombined terminal left right) := by
  unfold proofCombined
  split
  · exact .bind fun value => queryBoolean_plain value
  · refine .ite ?_ ?_
    · exact .ok trivial
    · exact .bind fun _ => .ok trivial
  · exact .bind fun _ => .bind fun _ => .ok trivial

/-! ## Evaluation -/

section Evaluation

variable {Related : ∀ {α : Type}, Eval α → Eval α → Prop}
  {Evaluated : Eval EvalValue → Eval EvalValue → Prop} {arguments : List EvalValue}
  {function : Function}

structure Judged (context : Context) (Evaluated : Eval EvalValue → Eval EvalValue → Prop)
    (first second : Eval EvalValue) : Prop where
  evaluated : Evaluated first second
  firstYields : first.Yields (Plain context)
  secondYields : second.Yields (Plain context)

variable (law : EvaluationLaw context Related Evaluated)
include law

theorem Judged.typed
    {first second : Eval EvalValue} (judged : Judged context Evaluated first second) :
    Typed Related (Plain context) first second :=
  ⟨law.weaken judged.evaluated, judged.firstYields, judged.secondYields⟩

theorem typed_outcome {outcome : Outcome EvalValue} (plain : PlainOutcome context outcome) :
    Typed Related (Plain context) (.lift outcome) (.lift outcome) :=
  .lift law.toLaw plain.plain

theorem typed_lift {α : Type} (outcome : Outcome α) :
    Typed Related (fun _ => True) (.lift outcome) (.lift outcome) :=
  .lift law.toLaw fun _ _ => trivial

theorem typed_charge (cost : Nat) : Typed Related (fun _ => True) (charge cost) (charge cost) :=
  ⟨law.charge cost, fun _ _ => trivial, fun _ _ => trivial⟩

theorem typed_document {path : Text}
    {after limited : Bool} (may : limited = true ∨ context.request.service = .firebaseStorage) :
    Typed Related (fun _ => True) (document context path after limited)
      (document context path after limited) :=
  ⟨law.document path after limited may, fun _ _ => trivial, fun _ _ => trivial⟩

theorem Judged.metered (span : ExpressionKey) {body body' : Eval EvalValue}
    (typed : Typed Related (Plain context) body body') :
    Judged context Evaluated (.mapError (.locate span) ((charge 1).andThen fun _ => body))
      (.mapError (.locate span) ((charge 1).andThen fun _ => body')) := by
  have counted := andThen law.toLaw (typed_charge law 1) fun _ _ => typed
  exact ⟨law.metered span typed.related, counted.firstYields.mapError,
    counted.secondYields.mapError⟩

/-! ## Builtin functions -/

theorem accessBuiltin_related (name : Text) (argument : EvalValue) :
    Typed Related (Plain context) (accessBuiltin context name argument)
      (accessBuiltin context name argument) := by
  unfold accessBuiltin
  split
  · exact typed_outcome law (.ok trivial)
  · apply andThen law.toLaw (typed_lift law _)
    intro path _
    apply andThen law.toLaw (typed_document law (.inl rfl))
    intro resource _
    apply typed_outcome law
    repeat' first | exact .error _ | exact .ok trivial | refine .ite ?_ ?_ | split

theorem callBuiltin_related (name : Text) (plain : PlainAll context arguments) :
    Typed Related (Plain context) (callBuiltin context name arguments)
      (callBuiltin context name arguments) := by
  unfold callBuiltin
  split_ifs
  · exact typed_outcome law (oneArgument_plain plain)
  · apply typed_outcome law
    repeat' first | exact .ok trivial | refine .bind fun _ => ?_
  · apply typed_outcome law
    refine .bind fun _ => ?_
    unfold intBuiltin
    repeat' first | exact .error _ | exact .ok trivial | refine .ite ?_ ?_ | split
  · apply typed_outcome law
    refine .bind fun _ => ?_
    unfold floatBuiltin
    repeat' first | exact .error _ | exact .ok trivial | split
  · exact typed_outcome law (.error _)
  · apply andThen law.toLaw (typed_outcome law (oneArgument_plain plain))
    intro argument _
    exact accessBuiltin_related law name argument
  · exact typed_outcome law (.error _)

theorem firestoreNamespace_related
    (storage : context.request.service = .firebaseStorage) (name : Text)
    (arguments : List EvalValue) :
    Typed Related (Plain context) (firestoreNamespace context name arguments)
      (firestoreNamespace context name arguments) := by
  unfold firestoreNamespace
  split
  · apply andThen law.toLaw (typed_lift law _)
    intro path _
    apply andThen law.toLaw (typed_document law (.inr storage))
    intro resource _
    apply typed_outcome law
    repeat' first | exact .error _ | exact .ok trivial | refine .ite ?_ ?_ | split
  · exact typed_outcome law (.error _)

theorem invokeMethod_related {receiver : EvalValue} (plain : Plain context receiver) (name : Text)
    (arguments : List EvalValue) :
    Typed Related (Plain context) (invokeMethod context receiver name arguments)
      (invokeMethod context receiver name arguments) := by
  unfold invokeMethod
  split
  · exact firestoreNamespace_related law plain name arguments
  · exact typed_outcome law (callMethod_plain ..)

theorem logical_related (terminal : Bool)
    {left left' right right' : Eval EvalValue} (leftJudged : Judged context Evaluated left left')
    (rightJudged : Judged context Evaluated right right') :
    Typed Related (Plain context) (logical context terminal left right)
      (logical context terminal left' right') := by
  have proofEarly : ∀ left value, proofDecided terminal left = some (.ok value) →
      Plain context value := by
    intro left value decided
    unfold proofDecided at decided
    repeat' split at decided
    all_goals cases decided
    trivial
  have earlyPlain : ∀ left value, logicalDecided terminal left = some (.ok value) →
      Plain context value := by
    intro left value decided
    unfold logicalDecided at decided
    repeat' split at decided
    all_goals cases decided
    trivial
  have latePlain : ∀ left right value, logicalCombined terminal left right = .ok value →
      Plain context value := by
    intro left right value combined
    unfold logicalCombined at combined
    repeat' split at combined
    all_goals cases combined
    all_goals trivial
  unfold logical
  split
  · exact ⟨law.consult (proof_consults terminal) leftJudged.evaluated rightJudged.evaluated,
      .consult proofEarly fun _ _ => (proofCombined_plain terminal _ _).plain,
      .consult proofEarly fun _ _ => (proofCombined_plain terminal _ _).plain⟩
  · exact ⟨law.consult (logical_consults terminal) leftJudged.evaluated rightJudged.evaluated,
      .consult earlyPlain latePlain, .consult earlyPlain latePlain⟩

/-! ## Expressions -/

def CallRelated (context : Context) (Related : ∀ {α : Type}, Eval α → Eval α → Prop)
    (calls calls' : Calls) (environment : Environment) (name : Text) : Prop :=
  (calls name = none ∧ calls' name = none) ∨
    ∃ call call', calls name = some call ∧ calls' name = some call' ∧
      ∀ arguments, PlainAll context arguments →
        Typed Related (Plain context) (call arguments environment) (call' arguments environment)

variable {calls calls' : Calls} {environment : Environment}

section Expressions

mutual

theorem evalExpr_related (plain : PlainEnvironment context environment)
    (expression : Expr) (covered : ∀ name ∈ expression.calls,
      CallRelated context Related calls calls' environment name) :
    Judged context Evaluated (evalExpr context calls environment expression)
      (evalExpr context calls' environment expression) := by
  match expression with
  | ⟨kind, span⟩ => exact .metered law span (evalKind_related plain kind covered)

theorem evalKind_related (plain : PlainEnvironment context environment)
    (kind : ExprKind)
    (covered : ∀ name ∈ kind.calls, CallRelated context Related calls calls' environment name) :
    Typed Related (Plain context) (evalKind context calls environment kind)
      (evalKind context calls' environment kind) := by
  match kind with
  | .null | .bool _ | .integer _ | .float _ | .string _ =>
    exact typed_outcome law (.ok trivial)
  | .list values =>
    apply andThen law.toLaw (evalItems_related plain values covered)
    intro values _
    exact typed_outcome law (.ok trivial)
  | .map entries =>
    apply andThen law.toLaw (evalEntries_related plain entries covered)
    intro entries _
    exact typed_outcome law (.ok trivial)
  | .path parts => exact evalParts_related plain parts covered []
  | .name name => exact typed_outcome law (variableValue_plain plain name)
  | .field base name =>
    apply andThen law.toLaw ((evalExpr_related plain base covered).typed law)
    intro base _
    exact typed_outcome law (field_plain base name)
  | .index base index =>
    apply andThen law.toLaw ((evalExpr_related plain base
      (forall_mem_append.mp covered).1).typed law)
    intro base _
    apply andThen law.toLaw ((evalExpr_related plain index
      (forall_mem_append.mp covered).2).typed law)
    intro index _
    exact typed_outcome law (indexed_plain base index)
  | .slice base start stop =>
    apply andThen law.toLaw ((evalExpr_related plain base
      fun name member => covered name (by simp [ExprKind.calls, member])).typed law)
    intro base _
    apply andThen law.toLaw (evalOption_related plain start
      fun name member => covered name (by simp [ExprKind.calls, member]))
    intro start _
    apply andThen law.toLaw (evalOption_related plain stop
      fun name member => covered name (by simp [ExprKind.calls, member]))
    intro stop _
    exact typed_outcome law (sliceValue_plain base start stop)
  | .call ⟨.name name, _⟩ arguments =>
    apply andThen law.toLaw (evalArguments_related plain arguments
      (forall_mem_cons.mp covered).2)
    intro values plainValues
    rcases covered name (mem_cons_self ..) with ⟨absent, absent'⟩ |
      ⟨call, call', found, found', related⟩
    · simp only [absent, absent']
      exact callBuiltin_related law name plainValues
    · simp only [found, found']
      exact .andThen law.toLaw (typed_charge law 5) fun _ _ => related values plainValues
  | .call ⟨.field base name, _⟩ arguments =>
    apply andThen law.toLaw ((evalExpr_related plain base
      (forall_mem_append.mp covered).1).typed law)
    intro receiver plainReceiver
    apply andThen law.toLaw (evalArguments_related plain arguments
      (forall_mem_append.mp covered).2)
    intro values _
    exact invokeMethod_related law plainReceiver name values
  | .call ⟨.null, _⟩ _ | .call ⟨.bool _, _⟩ _ | .call ⟨.integer _, _⟩ _
  | .call ⟨.float _, _⟩ _ | .call ⟨.string _, _⟩ _ | .call ⟨.list _, _⟩ _
  | .call ⟨.map _, _⟩ _ | .call ⟨.path _, _⟩ _ | .call ⟨.index _ _, _⟩ _
  | .call ⟨.slice _ _ _, _⟩ _ | .call ⟨.call _ _, _⟩ _ | .call ⟨.unary _ _, _⟩ _
  | .call ⟨.binary _ _ _, _⟩ _ | .call ⟨.is _ _, _⟩ _ =>
    exact typed_outcome law (.error _)
  | .unary operator operand =>
    apply andThen law.toLaw ((evalExpr_related plain operand covered).typed law)
    intro value _
    exact typed_outcome law (evalUnary_plain operator value)
  | .binary operator left right =>
    have leftJudged := evalExpr_related plain left
      (forall_mem_append.mp covered).1
    have rightJudged := evalExpr_related plain right
      (forall_mem_append.mp covered).2
    cases operator
    case and => exact logical_related law false leftJudged rightJudged
    case or => exact logical_related law true leftJudged rightJudged
    all_goals
      apply andThen law.toLaw (leftJudged.typed law)
      intro left _
      apply andThen law.toLaw (rightJudged.typed law)
      intro right _
      exact typed_outcome law (evalBinaryValues_plain _ left right)
  | .is value expected =>
    apply andThen law.toLaw ((evalExpr_related plain value covered).typed law)
    intro value _
    apply typed_outcome law
    apply PlainOutcome.ok
    split <;> trivial

theorem evalItems_related (plain : PlainEnvironment context environment)
    (values : List Expr) (covered : ∀ name ∈ callsInAll values,
      CallRelated context Related calls calls' environment name) :
    Typed Related (fun _ => True) (evalItems context calls environment values)
      (evalItems context calls' environment values) := by
  match values with
  | [] => exact typed_lift law _
  | value :: values =>
    apply andThen law.toLaw ((evalExpr_related plain value
      (forall_mem_append.mp covered).1).typed law)
    intro value _
    apply andThen law.toLaw (typed_lift law _)
    intro value _
    apply andThen law.toLaw (evalItems_related plain values
      (forall_mem_append.mp covered).2)
    intro values _
    exact typed_lift law _

theorem evalEntries_related (plain : PlainEnvironment context environment)
    (entries : List (Text × Expr))
    (covered : ∀ name ∈ callsInEntries entries,
      CallRelated context Related calls calls' environment name) :
    Typed Related (fun _ => True) (evalEntries context calls environment entries)
      (evalEntries context calls' environment entries) := by
  match entries with
  | [] => exact typed_lift law _
  | (_, value) :: entries =>
    apply andThen law.toLaw ((evalExpr_related plain value
      (forall_mem_append.mp covered).1).typed law)
    intro value _
    apply andThen law.toLaw (typed_lift law _)
    intro value _
    apply andThen law.toLaw (evalEntries_related plain entries
      (forall_mem_append.mp covered).2)
    intro entries _
    exact typed_lift law _

theorem evalParts_related (plain : PlainEnvironment context environment)
    (parts : List PathPart) (covered : ∀ name ∈ callsInParts parts,
      CallRelated context Related calls calls' environment name) (path : Text) :
    Typed Related (Plain context) (evalParts context calls environment parts path)
      (evalParts context calls' environment parts path) := by
  match parts with
  | [] => exact typed_outcome law (.ok trivial)
  | .literal text :: parts => exact evalParts_related plain parts covered (path ++ text)
  | .interpolation expression :: parts =>
    apply andThen law.toLaw ((evalExpr_related plain expression
      (forall_mem_append.mp covered).1).typed law)
    intro value _
    split
    · exact typed_outcome law (.ok trivial)
    · apply andThen law.toLaw (typed_lift law _)
      intro text _
      exact evalParts_related plain parts
        (forall_mem_append.mp covered).2 (path ++ text)

theorem evalArguments_related (plain : PlainEnvironment context environment)
    (arguments : List Expr) (covered : ∀ name ∈ callsInAll arguments,
      CallRelated context Related calls calls' environment name) :
    Typed Related (PlainAll context)
      (evalArguments context calls environment arguments)
      (evalArguments context calls' environment arguments) := by
  match arguments with
  | [] => exact .lift law.toLaw (by simp [PlainAll])
  | argument :: arguments =>
    apply andThen law.toLaw ((evalExpr_related plain argument
      (forall_mem_append.mp covered).1).typed law)
    intro value plainValue
    apply andThen law.toLaw (evalArguments_related plain arguments
      (forall_mem_append.mp covered).2)
    intro values plainValues
    exact .lift law.toLaw (by simpa [PlainAll] using ⟨plainValue, plainValues⟩)

theorem evalOption_related (plain : PlainEnvironment context environment)
    (expression : Option Expr) (covered : ∀ name ∈ callsInOption expression,
      CallRelated context Related calls calls' environment name) :
    Typed Related (fun _ => True) (evalOption context calls environment expression)
      (evalOption context calls' environment expression) := by
  match expression with
  | none => exact typed_lift law _
  | some expression =>
    apply andThen law.toLaw ((evalExpr_related plain expression covered).typed law)
    intro value _
    exact typed_lift law _

end

end Expressions

/-! ## User functions -/

/-- Bindings made by `let` keep the frame, whatever they bind. -/
def KeptByLets (Frame : Environment → Prop) (lets : List (Text × Expr)) : Prop :=
  ∀ environment, Frame environment → ∀ binding ∈ lets, ∀ value,
    Frame (environment.insert binding.1 value)

theorem bindLets_related
    {Frame : Environment → Prop} {lets : List (Text × Expr)} (kept : KeptByLets Frame lets)
    (covered : ∀ environment, PlainEnvironment context environment → Frame environment →
      ∀ name ∈ callsInEntries lets, CallRelated context Related calls calls' environment name)
    (plain : PlainEnvironment context environment) (framed : Frame environment) :
    Typed Related
      (fun environment => PlainEnvironment context environment ∧ Frame environment)
      (bindLets context calls lets environment) (bindLets context calls' lets environment) := by
  induction lets generalizing environment with
  | nil =>
    exact .lift law.toLaw (by rintro _ ⟨⟩; exact ⟨plain, framed⟩)
  | cons binding lets ih =>
    obtain ⟨name, expression⟩ := binding
    apply andThen law.toLaw ((evalExpr_related law plain expression
      fun name member => covered environment plain framed name
        (mem_append_left _ member)).typed law)
    intro value plainValue
    apply ih
    · intro environment framed binding member
      exact kept environment framed binding (mem_cons_of_mem _ member)
    · intro environment plain framed name member
      exact covered environment plain framed name (mem_append_right _ member)
    · exact plain.insert plainValue
    · exact kept environment framed (name, expression) (mem_cons_self ..) value

theorem runBody_related {Frame : Environment → Prop} (kept : KeptByLets Frame function.lets)
    (covered : ∀ environment, PlainEnvironment context environment → Frame environment →
      ∀ name ∈ function.calls, CallRelated context Related calls calls' environment name)
    (plain : PlainEnvironment context environment) (framed : Frame environment) :
    Typed Related (Plain context) (runBody context calls function environment)
      (runBody context calls' function environment) := by
  apply andThen law.toLaw (bindLets_related law kept
    (fun environment plain framed name member => covered environment plain framed name
      (mem_append_left _ member)) plain framed)
  rintro environment ⟨plain, framed⟩
  exact (evalExpr_related law plain function.result fun name member =>
    covered environment plain framed name (mem_append_right _ member)).typed law

theorem checkCall_related {callDepth : Nat}
    {body body' : Eval EvalValue} (typed : callDepth < maximumFunctionCallDepth →
      Typed Related (Plain context) body body') :
    Typed Related (Plain context) (checkCall callDepth function arguments body)
      (checkCall callDepth function arguments body') := by
  unfold checkCall
  split_ifs with _ reached
  · exact typed_outcome law (.error _)
  · refine ⟨law.refuse _, ?_, ?_⟩ <;>
    · rintro _ ⟨state, returned⟩
      cases returned
  · exact typed (by omega)

theorem callUserFunction_related {functions : Functions} {fuel fuel' callDepth : Nat}
    (enough : maximumFunctionCallDepth ≤ fuel + callDepth)
    (enough' : maximumFunctionCallDepth ≤ fuel' + callDepth)
    (plainArguments : PlainAll context arguments) (plain : PlainEnvironment context environment) :
    Typed Related (Plain context)
      (callUserFunction context functions fuel callDepth function arguments environment)
      (callUserFunction context functions fuel' callDepth function arguments environment) := by
  induction fuel generalizing fuel' callDepth function arguments environment with
  | zero =>
    cases fuel' <;> exact checkCall_related law fun below => by omega
  | succ fuel ih =>
    cases fuel' with
    | zero => exact checkCall_related law fun below => by omega
    | succ fuel' =>
      apply checkCall_related law
      intro _
      have unframed : KeptByLets (fun _ => True) function.lets := fun _ _ _ _ _ => trivial
      refine runBody_related law unframed ?_ (plain.enterFunction plainArguments) trivial
      intro environment plain _ name _
      cases found : functions[name]? with
      | none => exact .inl ⟨by simp [found], by simp [found]⟩
      | some callee =>
        refine .inr ⟨_, _, by simp [found]; rfl, by simp [found]; rfl, ?_⟩
        intro arguments plainArguments
        exact ih (by omega) (by omega) plainArguments plain

/-! ## Allow conditions -/

theorem condition_related (functions : Functions)
    {fuel fuel' : Nat} (enough : maximumFunctionCallDepth ≤ fuel)
    (enough' : maximumFunctionCallDepth ≤ fuel') (plain : PlainEnvironment context environment)
    (condition : Expr) :
    Judged context Evaluated
      (evalExpr context (userCalls context functions fuel 0) environment condition)
      (evalExpr context (userCalls context functions fuel' 0) environment condition) := by
  apply evalExpr_related law plain
  intro name _
  cases found : functions[name]? with
  | none => exact .inl ⟨by simp [userCalls, found], by simp [userCalls, found]⟩
  | some callee =>
    refine .inr ⟨_, _, by simp [userCalls, found]; rfl, by simp [userCalls, found]; rfl, ?_⟩
    intro arguments plainArguments
    exact callUserFunction_related law enough enough' plainArguments plain

end Evaluation

/-! ## Equality -/

theorem equality_law : EvaluationLaw context (fun first second => first = second)
    (fun first second => first = second) where
  lift _ := rfl
  andThen {α β first first' next next'} same continues := by
    subst same
    funext evaluator
    rcases first.andThen_cases next evaluator with ⟨value, returned, run⟩ | ⟨failure, returned, run⟩ <;>
      rcases first.andThen_cases next' evaluator with ⟨value', returned', run'⟩ |
        ⟨failure', returned', run'⟩ <;>
      rw [run, run'] <;> rw [returned] at returned' <;> cases returned'
    · rw [continues value (.inl ⟨evaluator, returned⟩)]
    · rfl
  refuse _ := rfl
  charge _ := rfl
  document _ _ _ _ := rfl
  metered _ _ _ same := by rw [same]
  weaken same := same
  consult _ left right := by rw [left, right]

/-! ## What a lookup does -/

theorem document_cases (path : Text) (after limited : Bool) (evaluator : Evaluator) :
    (∃ resource, (evaluator.state.cache after)[path]? = some resource ∧
      document context path after limited evaluator = (.ok resource, { evaluator with
        state.documentCacheHits := evaluator.state.documentCacheHits + 1 })) ∨
    (∃ message, document context path after limited evaluator = refuse message evaluator) ∨
    ((evaluator.state.cache after)[path]? = none ∧
      (limited = true → evaluator.operationDocumentAccesses < singleRequestAccessLimit ∧
        evaluator.state.documentAccesses < evaluator.state.maximumAccesses) ∧
      document context path after limited evaluator =
        ((context.access.answer after evaluator.state.lookups path).mapError fun text =>
            .new ("document access failed: ".toList ++ text),
          { evaluator with
            operationDocumentAccesses := evaluator.operationDocumentAccesses + 1
            state := evaluator.state.record after path
              (context.access.answer after evaluator.state.lookups path) })) := by
  unfold document
  split
  · next resource cached => exact .inl ⟨resource, cached, rfl⟩
  · next absent =>
    split_ifs with single total
    · exact .inr (.inl ⟨_, rfl⟩)
    · exact .inr (.inl ⟨_, rfl⟩)
    · refine .inr (.inr ⟨absent, ?_, rfl⟩)
      intro limit
      exact ⟨by simpa [limit] using single, by simpa [limit] using total⟩

namespace AccessState

variable (state : AccessState) (after : Bool) (path : Text) (answer : Except Text (Option Resource))

theorem record_lookups :
    (state.record after path answer).lookups = ⟨after, path, answer⟩ :: state.lookups := by
  unfold record
  repeat' split
  all_goals rfl

theorem record_documentAccesses :
    (state.record after path answer).documentAccesses = state.documentAccesses + 1 := by
  unfold record
  repeat' split
  all_goals rfl

theorem record_maximumAccesses :
    (state.record after path answer).maximumAccesses = state.maximumAccesses := by
  unfold record
  repeat' split
  all_goals rfl

theorem mem_cache_record {view : Bool} {other : Text}
    (member : other ∈ state.cache view) : other ∈ (state.record after path answer).cache view := by
  unfold record
  split
  · exact member
  · split
    · cases view
      · exact member
      · exact mem_insert.mpr (.inr member)
    · cases view
      · exact mem_insert.mpr (.inr member)
      · exact member

theorem mem_cache_record_self (resource : Option Resource) :
    path ∈ (state.record after path (.ok resource)).cache after := by
  cases after <;> simp [record, cache]

end AccessState

/-! ## Invariants of whole requests -/

/-- The invariant reads none of the fields that record the verdict. -/
structure VerdictFree (Invariant : Evaluator → Prop) : Prop where
  allowed : ∀ evaluator allowed, Invariant evaluator → Invariant { evaluator with allowed }
  error : ∀ evaluator error, Invariant evaluator → Invariant (evaluator.recordError error)
  matching : ∀ evaluator matchingAllows, Invariant evaluator →
    Invariant { evaluator with matchingAllows }

structure EffectProof (context : Context) (Invariant : Evaluator → Prop) : Prop where
  refused : ∀ evaluator, Invariant evaluator → Invariant { evaluator with refused := true }
  counted : ∀ evaluator evaluatedExpressions, Invariant evaluator →
    Invariant { evaluator with evaluatedExpressions }
  document : ∀ path after limited,
    limited = true ∨ context.request.service = .firebaseStorage →
    (Rules.document context path after limited).Keeps Invariant

theorem EffectProof.charge {Invariant : Evaluator → Prop}
    (effects : EffectProof context Invariant) (cost : Nat) :
    (Rules.charge cost).Keeps Invariant := by
  intro evaluator holds
  have counted := effects.counted evaluator (evaluator.evaluatedExpressions + cost) holds
  simp only [Rules.charge]
  split
  · exact effects.refused _ counted
  · exact counted

theorem keeps_law {Invariant : Evaluator → Prop} (effects : EffectProof context Invariant) :
    EvaluationLaw context (fun computation _ => computation.Keeps Invariant)
      (fun computation _ => computation.Keeps Invariant) where
  toLaw := Keeps.law Invariant
  refuse _ evaluator holds := effects.refused evaluator holds
  charge := effects.charge
  document := effects.document
  metered _ body _ keeps := by
    have counted : ((Rules.charge 1).andThen fun _ => body).Keeps Invariant :=
      (effects.charge 1).andThen fun _ _ => keeps
    exact counted
  weaken keeps := keeps
  consult := by
    intro decided combine left _ right _ _ leftKeeps rightKeeps evaluator holds
    unfold consult
    split
    · exact leftKeeps evaluator holds
    · exact rightKeeps _ (leftKeeps evaluator holds)

section Requests

variable {fuel : Nat} {evaluator : Evaluator} {Open Done : Evaluator → Prop}

/-- What holds while no rule has allowed the request, and what holds once the walk ends. -/
structure WalkProof (context : Context) (fuel : Nat) (Open Done : Evaluator → Prop) : Prop where
  judged : ∀ {evaluator} functions {environment}, PlainEnvironment context environment →
    ∀ allows, Open evaluator →
      Done (judgeAllows context (userCalls context functions fuel 0) environment allows evaluator)
  ended : ∀ {evaluator}, Open evaluator → Done evaluator
  denied : ∀ {evaluator}, Done evaluator → evaluator.allowed = false → Open evaluator

mutual

theorem WalkProof.walk (proof : WalkProof context fuel Open Done)
    (parentPattern : List PatternSegment) (inherited : Functions) (block : MatchBlock)
    {evaluator : Evaluator} (holds : Open evaluator) :
    Done (walk context fuel parentPattern inherited block evaluator) := by
  match block with
  | ⟨pattern, functions, allows, children⟩ =>
    have judged : Done (judgeBlock context fuel (parentPattern ++ pattern)
        (inherited ∪ functions) allows evaluator) := by
      unfold judgeBlock
      split
      · next bindings found =>
        exact proof.judged _ (blockEnvironment_plain (patternBindings_plain found)) allows holds
      · exact proof.ended holds
    simp only [Rules.walk]
    split
    · exact judged
    · next denied =>
      exact proof.walkAll _ _ children (proof.denied judged (Bool.eq_false_of_not_eq_true denied))

theorem WalkProof.walkAll (proof : WalkProof context fuel Open Done)
    (parentPattern : List PatternSegment) (inherited : Functions) (blocks : List MatchBlock)
    {evaluator : Evaluator} (holds : Open evaluator) :
    Done (walkAll context fuel parentPattern inherited blocks evaluator) := by
  match blocks with
  | [] => exact proof.ended holds
  | block :: blocks =>
    have walked := proof.walk parentPattern inherited block holds
    simp only [Rules.walkAll]
    split
    · exact walked
    · next denied =>
      exact proof.walkAll _ _ blocks (proof.denied walked (Bool.eq_false_of_not_eq_true denied))

end

section

variable (reset : ∀ evaluator, Done evaluator → Open { evaluator with allowed := false })
include reset

theorem judgeBranches_done {judge : Option (List FieldConstraint) → Evaluator → Evaluator}
    (judged : ∀ branch evaluator, Open evaluator → Done (judge branch evaluator))
    (branches : List (Option (List FieldConstraint)))
    (holds : Done evaluator) : Done (judgeBranches judge branches evaluator) := by
  induction branches generalizing evaluator with
  | nil => exact holds
  | cons branch branches ih =>
    have judged := judged branch _ (reset evaluator holds)
    simp only [judgeBranches]
    split
    · exact ih judged
    · exact judged

theorem runRequest_done {libraries : Libraries} {access : DocumentAccess}
    {request : EvaluationRequest} (program : Program) {state : AccessState}
    (proof : ∀ branch, WalkProof ⟨request, access, libraries, branch⟩ fuel Open Done)
    (refused : ∀ error, Done (Evaluator.recordError { state } error)) (holds : Done { state }) :
    Done (runRequest libraries fuel program access request state) := by
  have walks := fun branch (evaluator : Evaluator) (holds : Open evaluator) =>
    (proof branch).walkAll [] program.functions program.blocks holds
  unfold runRequest
  split
  · split
    · exact judgeBranches_done reset walks _ holds
    · exact refused _
  · exact judgeBranches_done reset walks _ holds

end

variable {Invariant : Evaluator → Prop} (free : VerdictFree Invariant)
include free

theorem judgeAllows_keeps (effects : EffectProof context Invariant)
    (enough : maximumFunctionCallDepth ≤ fuel) (functions : Functions) {environment : Environment}
    (plain : PlainEnvironment context environment) (allows : List Allow)
    (holds : Invariant evaluator) :
    Invariant (judgeAllows context (userCalls context functions fuel 0) environment allows
      evaluator) := by
  induction allows generalizing evaluator with
  | nil => exact holds
  | cons allow allows ih =>
    have kept := (condition_related (keeps_law effects) functions enough enough plain
      allow.condition).evaluated _ (free.matching evaluator (evaluator.matchingAllows + 1) holds)
    simp only [judgeAllows]
    split
    · split
      · next run =>
        rw [run] at kept
        exact free.allowed _ true kept
      · next run =>
        rw [run] at kept
        exact ih kept
      · next run =>
        rw [run] at kept
        exact ih (free.error _ _ kept)
      · next run =>
        rw [run] at kept
        exact ih (free.error _ _ kept)
    · exact ih holds

theorem runRequest_keeps {libraries : Libraries} {access : DocumentAccess}
    {request : EvaluationRequest} (program : Program) {state : AccessState}
    (effects : ∀ branch, EffectProof ⟨request, access, libraries, branch⟩ Invariant)
    (enough : maximumFunctionCallDepth ≤ fuel) (holds : Invariant { state }) :
    Invariant (runRequest libraries fuel program access request state) :=
  runRequest_done (fun evaluator => free.allowed evaluator false) program
    (fun branch => ⟨judgeAllows_keeps free (effects branch) enough, id, fun holds _ => holds⟩)
    (fun error => free.error _ error holds) holds

end Requests

end Firenook.Rules
