import Firenook.RulesOperators

/-!
# Rules programs

Syntax trees of a compiled ruleset, and the matching of block patterns against
concrete document paths and against the path domain of a query.
-/

namespace Firenook.Rules

/-! ## Expressions -/

mutual

inductive Expr
  | mk (kind : ExprKind) (span : ExpressionKey)

inductive ExprKind
  | null
  | bool (value : Bool)
  | integer (value : Int64)
  | float (value : Binary64)
  | string (value : Text)
  | list (values : List Expr)
  | map (entries : List (Text × Expr))
  | path (parts : List PathPart)
  | name (name : Text)
  | field (base : Expr) (name : Text)
  | index (base index : Expr)
  | slice (base : Expr) (start stop : Option Expr)
  | call (callee : Expr) (arguments : List Expr)
  | unary (operator : UnaryOperator) (operand : Expr)
  | binary (operator : BinaryOperator) (left right : Expr)
  | is (value : Expr) (expected : TypeName)

inductive PathPart
  | literal (text : Text)
  | interpolation (expression : Expr)

end

mutual

def Expr.calls : Expr → List Text
  | ⟨kind, _⟩ => kind.calls

def ExprKind.calls : ExprKind → List Text
  | .list values => callsInAll values
  | .map entries => callsInEntries entries
  | .path parts => callsInParts parts
  | .field base _ => base.calls
  | .index base index => base.calls ++ index.calls
  | .slice base start stop => base.calls ++ callsInOption start ++ callsInOption stop
  | .call ⟨.name name, _⟩ arguments => name :: callsInAll arguments
  | .call callee arguments => callee.calls ++ callsInAll arguments
  | .unary _ operand => operand.calls
  | .binary _ left right => left.calls ++ right.calls
  | .is value _ => value.calls
  | _ => []

def callsInAll : List Expr → List Text
  | [] => []
  | value :: values => value.calls ++ callsInAll values

def callsInEntries : List (Text × Expr) → List Text
  | [] => []
  | (_, value) :: entries => value.calls ++ callsInEntries entries

def callsInParts : List PathPart → List Text
  | [] => []
  | .literal _ :: parts => callsInParts parts
  | .interpolation expression :: parts => expression.calls ++ callsInParts parts

def callsInOption : Option Expr → List Text
  | none => []
  | some expression => expression.calls

end

/-! ## Functions and blocks -/

structure Function where
  bodyStart : Nat
  /-- Wildcard bindings of the match blocks enclosing the definition. -/
  scope : List Text
  parameters : List Text
  lets : List (Text × Expr)
  result : Expr

def Function.calls (function : Function) : List Text :=
  callsInEntries function.lets ++ function.result.calls

abbrev Functions := Std.ExtTreeMap Text Function Text.cmp

inductive PatternSegment
  | literal (text : Text)
  | wildcard (name : Text)
  | recursiveWildcard (name : Text)

def PatternSegment.binding? : PatternSegment → Option Text
  | .literal _ => none
  | .wildcard name => some name
  | .recursiveWildcard name => some name

def wildcards (pattern : List PatternSegment) : List Text :=
  pattern.filterMap PatternSegment.binding?

structure Allow where
  operations : List RequestOperation
  condition : Expr

inductive MatchBlock
  | mk (pattern : List PatternSegment) (functions : Functions) (allows : List Allow)
    (children : List MatchBlock)

structure Program where
  service : RulesService
  rulesVersion : Nat
  functions : Functions
  blocks : List MatchBlock

/-! ## Concrete paths -/

def trimSlashes (path : Text) : Text :=
  ((path.dropWhile (· = '/')).reverse.dropWhile (· = '/')).reverse

abbrev Bindings := Std.ExtTreeMap Text Value Text.cmp

def matchPatternFrom : List PatternSegment → List Text → Bindings → Option Bindings
  | [], path, bindings => if path = [] then some bindings else none
  | .literal expected :: pattern, path, bindings =>
    match path with
    | [] => none
    | segment :: path =>
      if segment = expected then matchPatternFrom pattern path bindings else none
  | .wildcard name :: pattern, path, bindings =>
    match path with
    | [] => none
    | segment :: path => matchPatternFrom pattern path (bindings.insert name (.string segment))
  | .recursiveWildcard name :: pattern, path, bindings =>
    -- The shortest stretch for which the rest of the pattern matches.
    (List.range (path.length + 1)).findSome? fun length =>
      matchPatternFrom pattern (path.drop length)
        (bindings.insert name (.path (joinPath (path.take length))))

variable (pattern : List PatternSegment)

def matchPattern (path : Text) : Option Bindings :=
  let path := trimSlashes path
  matchPatternFrom pattern (if path = [] then [] else path.split '/') ∅

/-! ## Query domains -/

abbrev Environment := Std.ExtTreeMap Text EvalValue Text.cmp

inductive Segment
  | literal (text : Text)
  | any
  | descendants

def Segment.literal? : Segment → Option Text
  | .literal text => some text
  | _ => none

def splitOnce (separator : Text) : Text → Option (Text × Text)
  | [] => if separator = [] then some ([], []) else none
  | char :: text =>
    match Text.stripPrefix separator (char :: text) with
    | some rest => some ([], rest)
    | none => (splitOnce separator text).map fun (front, rest) => (char :: front, rest)

/-- A stretch of the domain as a path value; unknown when it is not all literal. -/
def stretchValue (stretch : List Segment) : EvalValue :=
  match stretch.mapM Segment.literal? with
  | some texts => .data (.path (joinPath texts))
  | none => .unknown

def matchDomain : List PatternSegment → List Segment → Environment → Option Environment
  | [], domain, bindings => if domain.isEmpty then some bindings else none
  | .literal expected :: pattern, domain, bindings =>
    match domain with
    | .literal actual :: domain =>
      if expected = actual then matchDomain pattern domain bindings else none
    | _ => none
  | .wildcard name :: pattern, domain, bindings =>
    match domain with
    | .literal text :: domain => matchDomain pattern domain (bindings.insert name (.ofText text))
    | .any :: domain => matchDomain pattern domain (bindings.insert name .unknown)
    | _ => none
  | .recursiveWildcard name :: pattern, domain, bindings =>
    (List.range (domain.length + 1)).findSome? fun length =>
      matchDomain pattern (domain.drop length)
        (bindings.insert name (stretchValue (domain.take length)))

def literals (path : Text) : List Segment := (path.split '/').map .literal

def queryDomain (root : Text) (scope : QueryScope) : List Segment :=
  literals (trimSlashes root) ++ [.literal "documents".toList] ++
    (match scope with
      | .collection path => literals path
      | .collectionGroup collectionId ancestor =>
        ancestor.elim [] literals ++ [.descendants, .literal collectionId]) ++ [.any]

/-- Matches an entire symbolic path domain, not one placeholder document. -/
def domainBindings (path : Text) (scope : QueryScope) : Option Environment := do
  let (root, _) ← splitOnce "/documents/".toList path
  matchDomain pattern (queryDomain root scope) ∅

/-! ## Proof branches of a query -/

def maxBranches : Nat := 30

def checkSize (size : Nat) : Outcome Unit :=
  if size > maxBranches then failure "query proof exceeds 30 disjunctions" else .ok ()

def checkBranches (branches : List (List FieldConstraint)) :
    Outcome (List (List FieldConstraint)) := do
  checkSize branches.length
  if branches.isEmpty then failure "query proof cannot have an empty disjunction"
  else .ok branches

def fieldBranches (constraint : FieldConstraint) : Outcome (List (List FieldConstraint)) :=
  let alternatives (operator : ConstraintOperator) : Outcome (List (List FieldConstraint)) :=
    match constraint.value with
    | .list values => do
      if values.isEmpty then failure "query alternatives cannot be empty"
      else
        checkSize values.length
        .ok (values.map fun value => [{ constraint with operator, value }])
    | _ => failure "query alternatives must be a list"
  match constraint.operator with
  | .isIn => alternatives .equal
  | .arrayContainsAny => alternatives .arrayContains
  | _ => .ok [[constraint]]

mutual

def filterBranches : QueryFilter → Outcome (List (List FieldConstraint))
  | .field constraint => do checkBranches (← fieldBranches constraint)
  | .or filters => do checkBranches (← orBranches [] filters)
  | .and filters => do checkBranches (← andBranches [[]] filters)

def orBranches (result : List (List FieldConstraint)) :
    List QueryFilter → Outcome (List (List FieldConstraint))
  | [] => .ok result
  | filter :: filters => do
    let result := result ++ (← filterBranches filter)
    checkSize result.length
    orBranches result filters

def andBranches (result : List (List FieldConstraint)) :
    List QueryFilter → Outcome (List (List FieldConstraint))
  | [] => .ok result
  | filter :: filters => do
    let alternatives ← filterBranches filter
    checkSize (result.length * alternatives.length)
    andBranches (result.flatMap fun left => alternatives.map fun right => left ++ right) filters

end

def queryBranches : Option QueryFilter → Outcome (List (List FieldConstraint))
  | none => .ok [[]]
  | some filter => filterBranches filter

end Firenook.Rules
