import Firenook.Computations
import Firenook.RulesProgram

/-!
# The rules evaluator

Evaluation of requests against a program.  Expressions are evaluated with a state of
counters and document caches; a failure is a value for the logical operators and for
the walk over the blocks, which go on with the state reached.  The access to documents
may answer differently at every lookup, so its answers depend on the lookups before.
-/

namespace Firenook
variable (context : Context)

namespace Rules

def maximumEvaluatedExpressions : Nat := 1000
def maximumFunctionCallDepth : Nat := 20
def singleRequestAccessLimit : Nat := 10
def multiRequestAccessLimit : Nat := 20

/-! ## State -/

structure Lookup where
  after : Bool
  path : Text
  answer : Except Text (Option Resource)

/-- Snapshot-aware document access, given the lookups made before, latest first. -/
structure DocumentAccess where
  get : List Lookup → Text → Except Text (Option Resource)
  getAfter : List Lookup → Text → Except Text (Option Resource)

def DocumentAccess.answer (access : DocumentAccess) (after : Bool) (earlier : List Lookup)
    (path : Text) : Except Text (Option Resource) :=
  if after then access.getAfter earlier path else access.get earlier path

abbrev DocumentCache := Std.ExtTreeMap Text (Option Resource) Text.cmp

structure AccessState where
  maximumAccesses : Nat
  documentAccesses : Nat
  documentCacheHits : Nat
  currentCache : DocumentCache
  afterCache : DocumentCache
  /-- Calls of the document accessor, latest first. -/
  lookups : List Lookup

namespace AccessState

def new (maximumAccesses : Nat) : AccessState := ⟨maximumAccesses, 0, 0, ∅, ∅, []⟩

def cache (state : AccessState) (after : Bool) : DocumentCache :=
  if after then state.afterCache else state.currentCache

/-- A call of the accessor is counted whatever it answers; a document found, or found
missing, is cached. -/
def record (state : AccessState) (after : Bool) (path : Text)
    (answer : Except Text (Option Resource)) : AccessState :=
  let counted := { state with
    documentAccesses := state.documentAccesses + 1
    lookups := ⟨after, path, answer⟩ :: state.lookups }
  match answer with
  | .error _ => counted
  | .ok resource =>
    if after then { counted with afterCache := counted.afterCache.insert path resource }
    else { counted with currentCache := counted.currentCache.insert path resource }

end AccessState

/-- The evaluator's counters.  `refused` and `outOfFuel` are observations: whether a
budget ever refused something, and whether the model's own fuel ran out. -/
structure Evaluator where
  allowed : Bool := false
  firstError : Option RuntimeError := none
  evaluatedExpressions : Nat := 0
  state : AccessState
  operationDocumentAccesses : Nat := 0
  matchingAllows : Nat := 0
  refused : Bool := false
  outOfFuel : Bool := false

def Evaluator.recordError (evaluator : Evaluator) (error : RuntimeError) : Evaluator :=
  { evaluator with firstError := evaluator.firstError.or (some error) }

abbrev Eval := Computation Evaluator RuntimeError

/-- What stays fixed while one branch of a request is judged. -/
structure Context where
  request : EvaluationRequest
  access : DocumentAccess
  libraries : Libraries
  queryBranch : Option (List FieldConstraint)

/-! ## Effects -/

def refuse {α : Type} (message : Text) : Eval α :=
  fun evaluator => (.error (.new message), { evaluator with refused := true })

def charge (cost : Nat) : Eval Unit :=
  fun evaluator =>
    let counted := { evaluator with evaluatedExpressions := evaluator.evaluatedExpressions + cost }
    if counted.evaluatedExpressions > maximumEvaluatedExpressions then
      refuse "maximum of 1000 expressions to evaluate has been reached".toList counted
    else (.ok (), counted)

def document (path : Text) (after limited : Bool) : Eval (Option Resource) :=
  fun evaluator =>
    match (evaluator.state.cache after)[path]? with
    | some resource =>
      (.ok resource, { evaluator with
        state.documentCacheHits := evaluator.state.documentCacheHits + 1 })
    | none =>
      if limited ∧ singleRequestAccessLimit ≤ evaluator.operationDocumentAccesses then
        refuse ("maximum of ".toList ++ integerText singleRequestAccessLimit ++
          " document access calls for one operation is exceeded".toList) evaluator
      else if limited ∧ evaluator.state.maximumAccesses ≤ evaluator.state.documentAccesses then
        refuse ("maximum of ".toList ++ integerText evaluator.state.maximumAccesses ++
          " document access calls is exceeded".toList) evaluator
      else
        let answer := context.access.answer after evaluator.state.lookups path
        (answer.mapError fun text => .new ("document access failed: ".toList ++ text),
          { evaluator with
            operationDocumentAccesses := evaluator.operationDocumentAccesses + 1
            state := evaluator.state.record after path answer })

/-! ## Builtin functions -/

def intBuiltin (libraries : Libraries) : EvalValue → Outcome EvalValue
  | .data (.integer value) => .ok (.ofInteger value)
  | .data (.float value) =>
    if value.isFinite && value.wholeMagnitude < 9200000000000000000 then
      .ok (.ofInteger (.ofInt value.whole))
    else failure "float cannot be converted to an int"
  | .data (.string value) =>
    match parseInteger (libraries.trim value) with
    | some integer => .ok (.ofInteger integer)
    | none => .error (.new ("string ".toList ++ libraries.debug value ++ " is not an int".toList))
  | _ => failure "value cannot be converted to an int"

def floatBuiltin (libraries : Libraries) : EvalValue → Outcome EvalValue
  | .data (.integer value) => .ok (.ofFloat (.ofInt64 value))
  | .data (.float value) => .ok (.ofFloat value)
  | .data (.string value) =>
    match libraries.parseFloat (libraries.trim value) with
    | some float => .ok (.ofFloat float)
    | none => .error (.new ("string ".toList ++ libraries.debug value ++ " is not a float".toList))
  | _ => failure "value cannot be converted to a float"

variable (name : Text)

def accessBuiltin (argument : EvalValue) : Eval EvalValue :=
  if argument.isSymbolic then pure .unknown
  else do
    let path ← .lift (dataPath argument)
    let resource ← document context path (name == "getAfter".toList) true
    .lift (if name = "exists".toList then .ok (.ofBool resource.isSome)
      else
        match resource with
        | some resource => .ok (.resource resource)
        | none => failure "document access returned a missing resource")

def callBuiltin (arguments : List EvalValue) : Eval EvalValue :=
  if name = "debug".toList then .lift (oneArgument context.libraries name arguments)
  else if name = "string".toList then
    .lift do
      let value ← oneArgument context.libraries name arguments
      .ok (.ofText (← stringCoercion context.libraries value))
  else if name = "int".toList then
    .lift do intBuiltin context.libraries (← oneArgument context.libraries name arguments)
  else if name = "float".toList then
    .lift do floatBuiltin context.libraries (← oneArgument context.libraries name arguments)
  else if name = "get".toList ∨ name = "exists".toList ∨ name = "getAfter".toList then
    if context.request.service = .firebaseStorage then
      .fail (.new ("Function not found error: Name: [".toList ++ name ++ "]".toList))
    else do
      let argument ← .lift (oneArgument context.libraries name arguments)
      accessBuiltin context name argument
  else .fail (.new ("undefined rules function ".toList ++ context.libraries.debug name))

/-- The map returned by `firestore.get` under Firebase Storage. -/
def storageDocumentValue (resource : Resource) : Value :=
  .map (Entries.collect [
    ("data".toList, .map resource.data),
    ("id".toList, .string (resource.name.lastPiece '/')),
    ("__name__".toList, .path resource.name)])

/-- `firestore.get` and `firestore.exists`, which have no access budget. -/
def firestoreNamespace (arguments : List EvalValue) : Eval EvalValue :=
  if name = "get".toList ∨ name = "exists".toList then do
    let path ← .lift do dataPath (← oneArgument context.libraries name arguments)
    let resource ← document context path false false
    .lift (if name = "exists".toList then .ok (.ofBool resource.isSome)
      else
        match resource with
        | some resource => .ok (.data (storageDocumentValue resource))
        | none => failure "Null value error")
  else .fail (.new ("Function not found error: Name: [firestore.".toList ++ name ++ "]".toList))

/-! ## Logical operators -/

variable (terminal : Bool)

/-- Three-valued over failures: the terminal value decides wherever it appears. -/
def logicalDecided (left : Outcome EvalValue) : Option (Outcome EvalValue) :=
  match left.bind dataBool with
  | .ok value => if value = terminal then some (.ok (.ofBool terminal)) else none
  | .error _ => none

def logicalCombined (left right : Outcome EvalValue) : Outcome EvalValue :=
  match left.bind dataBool, right.bind dataBool with
  | .ok _, .ok value => .ok (.ofBool value)
  | .error error, .ok value => if value = terminal then .ok (.ofBool terminal) else .error error
  | .error error, .error _ => .error error
  | .ok _, .error error => .error error

def queryBoolean (value : EvalValue) : Outcome EvalValue :=
  match value with
  | .data (.bool value) => .ok (.ofBool value)
  | value => if value.isSymbolic then .ok value else failure "logical operand is not a boolean"

/-- In a query proof the terminal value also decides over unknowns. -/
def proofDecided (left : Outcome EvalValue) : Option (Outcome EvalValue) :=
  match left.bind queryBoolean with
  | .ok (.data (.bool value)) => if value = terminal then some (.ok (.ofBool value)) else none
  | _ => none

def proofCombined (left right : Outcome EvalValue) : Outcome EvalValue :=
  match left.bind queryBoolean, right.bind queryBoolean with
  | .ok (.data (.bool _)), right => right
  | left, .ok (.data (.bool value)) =>
    if value = terminal then .ok (.ofBool value)
    else do
      let _ ← left
      .ok .unknown
  | left, right => do
    let _ ← left
    let _ ← right
    .ok .unknown

def logical (left right : Eval EvalValue) : Eval EvalValue :=
  if context.queryBranch.isSome then
    .consult (proofDecided terminal) (proofCombined terminal) left right
  else .consult (logicalDecided terminal) (logicalCombined terminal) left right

/-! ## Expressions -/

def packageOf (service : RulesService) (name : Text) : Option Namespace :=
  if name = "duration".toList then some .duration
  else if name = "firestore".toList ∧ service = .firebaseStorage then some .firestore
  else if name = "hashing".toList then some .hashing
  else if name = "latlng".toList then some .latLng
  else if name = "math".toList then some .math
  else if name = "timestamp".toList then some .timestamp
  else none

def variableValue (environment : Environment) (name : Text) : Outcome EvalValue :=
  match environment[name]? with
  | some value => .ok value
  | none =>
    match packageOf context.request.service name with
    | some package => .ok (.package package)
    | none => .error (.new ("undefined rules name ".toList ++ context.libraries.debug name))

def indexed (base index : EvalValue) : Outcome EvalValue :=
  match base with
  | .queryData | .constraint _ =>
    match index with
    | .data (.string name) =>
      field context.libraries context.request context.queryBranch base name
    | _ => .ok .unknown
  | _ => indexValue context.libraries base index

def invokeMethod (receiver : EvalValue) (name : Text)
    (arguments : List EvalValue) : Eval EvalValue :=
  match receiver with
  | .package .firestore => firestoreNamespace context name arguments
  | _ => .lift (callMethod context.libraries receiver name arguments)

/-- How a name called in an expression is invoked: on its arguments, from the caller's
environment. -/
abbrev Calls := Text → Option (List EvalValue → Environment → Eval EvalValue)

mutual

def evalExpr (calls : Calls) (environment : Environment) : Expr → Eval EvalValue
  | ⟨kind, span⟩ =>
    .mapError (.locate span) ((charge 1).andThen fun _ => evalKind calls environment kind)

def evalKind (calls : Calls) (environment : Environment) : ExprKind → Eval EvalValue
  | .null => .lift (.ok (.data .null))
  | .bool value => .lift (.ok (.ofBool value))
  | .integer value => .lift (.ok (.ofInteger value))
  | .float value => .lift (.ok (.ofFloat value))
  | .string value => .lift (.ok (.ofText value))
  | .list values =>
    (evalItems calls environment values).andThen fun values =>
      .lift (.ok (.data (.list values)))
  | .map entries =>
    (evalEntries calls environment entries).andThen fun entries =>
      .lift (.ok (.data (.map (Entries.collect entries))))
  | .path parts => evalParts calls environment parts []
  | .name name => .lift (variableValue context environment name)
  | .field base name =>
    (evalExpr calls environment base).andThen fun base =>
      .lift (field context.libraries context.request context.queryBranch base name)
  | .index base index =>
    (evalExpr calls environment base).andThen fun base =>
      (evalExpr calls environment index).andThen fun index =>
        .lift (indexed context base index)
  | .slice base start stop =>
    (evalExpr calls environment base).andThen fun base =>
      (evalOption calls environment start).andThen fun start =>
        (evalOption calls environment stop).andThen fun stop =>
          .lift (sliceValue base start stop)
  | .call ⟨.name name, _⟩ arguments =>
    (evalArguments calls environment arguments).andThen fun arguments =>
      match calls name with
      | some call => (charge 5).andThen fun _ => call arguments environment
      | none => callBuiltin context name arguments
  | .call ⟨.field base name, _⟩ arguments =>
    (evalExpr calls environment base).andThen fun receiver =>
      (evalArguments calls environment arguments).andThen fun arguments =>
        invokeMethod context receiver name arguments
  | .call _ _ => .lift (failure "rules call target is not callable")
  | .unary operator operand =>
    (evalExpr calls environment operand).andThen fun value =>
      .lift (evalUnary operator value)
  | .binary .and left right =>
    logical context false (evalExpr calls environment left)
      (evalExpr calls environment right)
  | .binary .or left right =>
    logical context true (evalExpr calls environment left)
      (evalExpr calls environment right)
  | .binary operator left right =>
    (evalExpr calls environment left).andThen fun left =>
      (evalExpr calls environment right).andThen fun right =>
        .lift (evalBinaryValues operator left right)
  | .is value expected =>
    (evalExpr calls environment value).andThen fun value =>
      .lift (.ok (if value.isSymbolic then .unknown else .ofBool (isType value expected)))

/-- Members of a list literal: each is converted before the next is evaluated. -/
def evalItems (calls : Calls) (environment : Environment) : List Expr → Eval (List Value)
  | [] => .lift (.ok [])
  | value :: values =>
    (evalExpr calls environment value).andThen fun value =>
      (Computation.lift value.intoData).andThen fun value =>
        (evalItems calls environment values).andThen fun values =>
          .lift (.ok (value :: values))

def evalEntries (calls : Calls) (environment : Environment) :
    List (Text × Expr) → Eval (List (Text × Value))
  | [] => .lift (.ok [])
  | (name, value) :: entries =>
    (evalExpr calls environment value).andThen fun value =>
      (Computation.lift value.intoData).andThen fun value =>
        (evalEntries calls environment entries).andThen fun entries =>
          .lift (.ok ((name, value) :: entries))

/-- Interpolation stops at the first symbolic part: a query proof has no concrete path. -/
def evalParts (calls : Calls) (environment : Environment) : List PathPart → Text → Eval EvalValue
  | [], path => .lift (.ok (.data (.path path)))
  | .literal text :: parts, path => evalParts calls environment parts (path ++ text)
  | .interpolation expression :: parts, path =>
    (evalExpr calls environment expression).andThen fun value =>
      if value.isSymbolic then .lift (.ok .unknown)
      else
        (Computation.lift (pathInterpolation value)).andThen fun text =>
          evalParts calls environment parts (path ++ text)

def evalArguments (calls : Calls) (environment : Environment) : List Expr → Eval (List EvalValue)
  | [] => .lift (.ok [])
  | argument :: arguments =>
    (evalExpr calls environment argument).andThen fun value =>
      (evalArguments calls environment arguments).andThen fun values =>
        .lift (.ok (value :: values))

def evalOption (calls : Calls) (environment : Environment) : Option Expr → Eval (Option EvalValue)
  | none => .lift (.ok none)
  | some expression =>
    (evalExpr calls environment expression).andThen fun value => .lift (.ok (some value))

end

/-! ## User functions -/

def requestName : Text := "request".toList
def resourceName : Text := "resource".toList

def bindAll (pairs : List (Text × EvalValue)) (environment : Environment) : Environment :=
  pairs.foldl (fun environment pair => environment.insert pair.1 pair.2) environment

def inherits (function : Function) (name : Text) : Bool :=
  name = requestName || name = resourceName || function.scope.contains name

/-- A function sees `request`, `resource` and the caller's bindings of the wildcard names
around its definition, then its parameters. -/
def enterFunction (function : Function) (arguments : List EvalValue) (caller : Environment) :
    Environment :=
  bindAll (function.parameters.zip arguments) (caller.filter fun name _ => inherits function name)

def bindLets (calls : Calls) : List (Text × Expr) → Environment → Eval Environment
  | [], environment => .lift (.ok environment)
  | (name, expression) :: lets, environment =>
    (evalExpr context calls environment expression).andThen fun value =>
      bindLets calls lets (environment.insert name value)

def runBody (calls : Calls) (function : Function) (environment : Environment) : Eval EvalValue :=
  (bindLets context calls function.lets environment).andThen fun environment =>
    evalExpr context calls environment function.result

def checkCall (callDepth : Nat) (function : Function) (arguments : List EvalValue)
    (body : Eval EvalValue) : Eval EvalValue :=
  if function.parameters.length ≠ arguments.length then
    .fail (.new ("function expected ".toList ++ integerText function.parameters.length ++
      " arguments but received ".toList ++ integerText arguments.length))
  else if maximumFunctionCallDepth ≤ callDepth then
    refuse "maximum allowed call depth of 20 is reached".toList
  else body

/-- The model's own fuel is used up; the depth check always refuses first. -/
def exhaust : Eval EvalValue :=
  fun evaluator => (.error (.new []), { evaluator with outOfFuel := true })

/-- The body runs with the caller's function table. -/
def callUserFunction (functions : Functions) :
    Nat → Nat → Function → List EvalValue → Environment → Eval EvalValue
  | 0, callDepth, function, arguments, _ => checkCall callDepth function arguments exhaust
  | fuel + 1, callDepth, function, arguments, caller =>
    checkCall callDepth function arguments
      (runBody context
        (fun name => functions[name]?.map (callUserFunction functions fuel (callDepth + 1)))
        function (enterFunction function arguments caller))

def userCalls (functions : Functions) (fuel callDepth : Nat) : Calls :=
  fun name => functions[name]?.map (callUserFunction context functions fuel callDepth)

/-! ## Blocks -/

def currentResource : EvalValue :=
  if context.queryBranch.isSome then .queryResource
  else
    match context.request.service with
    | .firebaseStorage => storageValue context.request.storageResource
    | .cloudFirestore => resourceValue context.request.resource

def Bindings.toEnvironment (bindings : Bindings) : Environment := bindings.map fun _ => .data

/-- What the accumulated pattern binds, on the path or on the query's path domain. -/
def patternBindings (pattern : List PatternSegment) : Option Environment :=
  match context.request.query.scope, context.queryBranch with
  | some scope, some _ => domainBindings pattern context.request.path scope
  | _, _ => (matchPattern pattern context.request.path).map Bindings.toEnvironment

def blockEnvironment (bindings : Environment) : Environment :=
  (bindings.insert requestName .request).insert resourceName (currentResource context)

/-- Allows are tried in order; a failing one is recorded and the next one tried. -/
def judgeAllows (calls : Calls) (environment : Environment) : List Allow → Evaluator → Evaluator
  | [], evaluator => evaluator
  | allow :: allows, evaluator =>
    if context.request.operation ∈ allow.operations then
      match evalExpr context calls environment allow.condition
          { evaluator with matchingAllows := evaluator.matchingAllows + 1 } with
      | (.ok (.data (.bool true)), evaluator) => { evaluator with allowed := true }
      | (.ok (.data (.bool false)), evaluator) =>
        judgeAllows calls environment allows evaluator
      | (.ok _, evaluator) =>
        judgeAllows calls environment allows (evaluator.recordError
          (.new "allow condition did not evaluate to a boolean".toList))
      | (.error error, evaluator) =>
        judgeAllows calls environment allows (evaluator.recordError error)
    else judgeAllows calls environment allows evaluator

def judgeBlock (fuel : Nat) (pattern : List PatternSegment)
    (functions : Functions) (allows : List Allow) (evaluator : Evaluator) : Evaluator :=
  match patternBindings context pattern with
  | some bindings =>
    judgeAllows context (userCalls context functions fuel 0) (blockEnvironment context bindings)
      allows evaluator
  | none => evaluator

mutual

def walk (fuel : Nat) (parentPattern : List PatternSegment)
    (inherited : Functions) : MatchBlock → Evaluator → Evaluator
  | ⟨pattern, functions, allows, children⟩, evaluator =>
    let judged :=
      judgeBlock context fuel (parentPattern ++ pattern) (inherited ∪ functions) allows evaluator
    if judged.allowed then judged
    else
      walkAll fuel (parentPattern ++ pattern) (inherited ∪ functions) children judged

def walkAll (fuel : Nat) (parentPattern : List PatternSegment)
    (inherited : Functions) : List MatchBlock → Evaluator → Evaluator
  | [], evaluator => evaluator
  | block :: blocks, evaluator =>
    let walked := walk fuel parentPattern inherited block evaluator
    if walked.allowed then walked
    else walkAll fuel parentPattern inherited blocks walked

end

/-! ## Requests -/

structure EvaluationResult where
  allowed : Bool
  error : Option RuntimeError
  evaluatedExpressions : Nat
  documentAccesses : Nat
  documentCacheHits : Nat
  matchingAllows : Nat

/-- Combined verdict and accounting for one transaction or batched write. -/
structure AtomicEvaluationResult where
  allowed : Bool
  operations : List EvaluationResult
  documentAccesses : Nat
  documentCacheHits : Nat

/-- Every branch is a possible result, so each must be allowed. -/
def judgeBranches (judge : Option (List FieldConstraint) → Evaluator → Evaluator) :
    List (Option (List FieldConstraint)) → Evaluator → Evaluator
  | [], evaluator => evaluator
  | branch :: branches, evaluator =>
    let judged := judge branch { evaluator with allowed := false }
    if judged.allowed then judgeBranches judge branches judged else judged

def runRequest (libraries : Libraries) (fuel : Nat) (program : Program) (access : DocumentAccess)
    (request : EvaluationRequest) (state : AccessState) : Evaluator :=
  let judge (branch : Option (List FieldConstraint)) : Evaluator → Evaluator :=
    walkAll ⟨request, access, libraries, branch⟩ fuel [] program.functions program.blocks
  if request.operation = .list ∧ request.query.scope.isSome then
    match queryBranches request.query.filter with
    | .ok branches => judgeBranches judge (branches.map some) { state }
    | .error error => Evaluator.recordError { state } error
  else judgeBranches judge [none] { state }

def Evaluator.result (initial : AccessState) (evaluator : Evaluator) : EvaluationResult where
  allowed := evaluator.allowed
  error := if evaluator.allowed then none else evaluator.firstError
  evaluatedExpressions := evaluator.evaluatedExpressions
  documentAccesses := evaluator.state.documentAccesses - initial.documentAccesses
  documentCacheHits := evaluator.state.documentCacheHits - initial.documentCacheHits
  matchingAllows := evaluator.matchingAllows

def runRequests (libraries : Libraries) (fuel : Nat) (program : Program) (access : DocumentAccess) :
    List EvaluationRequest → AccessState → List (AccessState × Evaluator)
  | [], _ => []
  | request :: requests, state =>
    let evaluator := runRequest libraries fuel program access request state
    (state, evaluator) :: runRequests libraries fuel program access requests evaluator.state

/-- The nested calls that the depth check lets through. -/
def sufficientFuel : Nat := maximumFunctionCallDepth

def evaluate (libraries : Libraries) (program : Program) (request : EvaluationRequest)
    (access : DocumentAccess) : EvaluationResult :=
  let state := AccessState.new singleRequestAccessLimit
  (runRequest libraries sufficientFuel program access request state).result state

def finalState (runs : List (AccessState × Evaluator)) (initial : AccessState) : AccessState :=
  (runs.getLast?.map fun run => run.2.state).getD initial

def evaluateAtomic (libraries : Libraries) (program : Program)
    (requests : List EvaluationRequest) (access : DocumentAccess) : AtomicEvaluationResult :=
  let state := AccessState.new multiRequestAccessLimit
  let runs := runRequests libraries sufficientFuel program access requests state
  let operations := runs.map fun run => run.2.result run.1
  { allowed := operations.all EvaluationResult.allowed
    operations
    documentAccesses := (finalState runs state).documentAccesses
    documentCacheHits := (finalState runs state).documentCacheHits }

/-! ## A small ruleset -/

namespace Sample

def libraries : Libraries where
  debug := id
  displayFloat _ := []
  parseFloat _ := none
  lowercase := id
  uppercase := id
  trim := id
  regexMatches _ _ := .ok []
  md5 := id
  sha256 := id
  base64 _ := []
  fromCalendarDate _ _ _ := failure "invalid date"
  toOffsetDateTime _ := .error []

def access : DocumentAccess where
  get _ _ := .ok none
  getAfter _ _ := .ok none

def expr (kind : ExprKind) : Expr := ⟨kind, ⟨0, 0⟩⟩

/-- `match /{document=**} { allow get: if !exists(/databases/d/documents/a/b); }` -/
def lookupProgram : Program where
  service := .cloudFirestore
  rulesVersion := 2
  functions := ∅
  blocks := [⟨[.recursiveWildcard "document".toList], ∅,
    [⟨[.get], expr (.unary .not (expr (.call (expr (.name "exists".toList))
      [expr (.path [.literal "/databases/d/documents/a/b".toList])])))⟩], []⟩]

def getRequest : EvaluationRequest := .new .get "/databases/d/documents/c/e".toList .epoch

end Sample

example : (evaluate Sample.libraries Sample.lookupProgram Sample.getRequest
    Sample.access).documentAccesses = 1 := by
  decide +kernel

end Rules
end Firenook
