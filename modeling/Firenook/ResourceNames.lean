import Firenook.Text

/-!
# Resource names

Database names and document keys of the store.  A key is a database together
with an alternating collection/document path; both types carry the check made
by their constructor, so every key in the model is one that
`DocumentKey::new` accepts.  The file also contains the two orders on keys: the
derived order of the key maps and the resource order, in which a numeric
identifier `__id<n>__` sorts by its number before all other identifiers.
-/

namespace Firenook

inductive NameError
  | invalidIdentifier (kind value : Text)
  | invalidDocumentPath (path : Text)
  | reservedResourceId (resourceId : Text)
  deriving DecidableEq

def validateIdentifier (kind value : Text) : Except NameError Unit :=
  if value.isEmpty || value.contains '/' then
    throw (.invalidIdentifier kind value)
  else pure ()

variable (resourceId : Text)

/-- The signed number inside `__id<n>__`, if the identifier has that form. -/
def numericResourceId : Option Int := do
  let rest ← Text.stripPrefix "__id".toList resourceId
  let digits ← Text.stripSuffix "__".toList rest
  let magnitude := (Text.stripPrefix ['-'] digits).getD digits
  if magnitude.isEmpty || !magnitude.all Char.isDigit then none
  else Text.parseInt64 digits

/-- Rejects the reserved `__.*__` namespace except for signed numeric ids. -/
def validateResourceId : Except NameError Unit :=
  if resourceId.byteLength ≥ 4 && "__".toList.isPrefixOf resourceId &&
      "__".toList.isSuffixOf resourceId && (numericResourceId resourceId).isNone then
    throw (.reservedResourceId resourceId)
  else pure ()

def validateDocumentPath (path : Text) : Except NameError Unit :=
  let segments := path.split '/'
  if segments.length < 2 || segments.length % 2 ≠ 0 || segments.any List.isEmpty then
    throw (.invalidDocumentPath path)
  else segments.forM validateResourceId

structure DatabaseName where
  projectId : Text
  databaseId : Text
  projectValid : validateIdentifier "project".toList projectId = .ok ()
  databaseValid : validateIdentifier "database".toList databaseId = .ok ()
  deriving DecidableEq

structure DocumentKey where
  database : DatabaseName
  path : Text
  valid : validateDocumentPath path = .ok ()
  deriving DecidableEq

def DatabaseName.new (projectId databaseId : Text) : Except NameError DatabaseName :=
  match project : validateIdentifier "project".toList projectId with
  | .error error => .error error
  | .ok () =>
    match database : validateIdentifier "database".toList databaseId with
    | .error error => .error error
    | .ok () => .ok ⟨projectId, databaseId, project, database⟩

def DocumentKey.new (database : DatabaseName) (path : Text) : Except NameError DocumentKey :=
  match valid : validateDocumentPath path with
  | .error error => .error error
  | .ok () => .ok ⟨database, path, valid⟩

theorem DatabaseName.ext_ids {first second : DatabaseName}
    (projectEq : first.projectId = second.projectId)
    (databaseEq : first.databaseId = second.databaseId) : first = second := by
  cases first
  simp_all

theorem DocumentKey.ext_path {first second : DocumentKey}
    (databaseEq : first.database = second.database)
    (pathEq : first.path = second.path) : first = second := by
  cases first
  simp_all

@[simp]
theorem DatabaseName.new_ids (database : DatabaseName) :
    DatabaseName.new database.projectId database.databaseId = .ok database := by
  unfold DatabaseName.new
  split
  · next error failed =>
    rw [database.projectValid] at failed
    cases failed
  · split
    · next error failed =>
      rw [database.databaseValid] at failed
      cases failed
    · rfl

@[simp]
theorem DocumentKey.new_path (key : DocumentKey) :
    DocumentKey.new key.database key.path = .ok key := by
  unfold DocumentKey.new
  split
  · next error failed =>
    rw [key.valid] at failed
    cases failed
  · rfl

/-! ## The derived order of keys -/

instance : Ord DatabaseName where
  compare := compareLex (compareOn fun name => name.projectId.bytes)
    (compareOn fun name => name.databaseId.bytes)

instance : Std.TransOrd DatabaseName := inferInstanceAs (Std.TransCmp (compareLex _ _))

instance : Std.LawfulEqOrd DatabaseName :=
  lawfulEqCmp_compareLex fun projectEq databaseEq =>
    DatabaseName.ext_ids (Text.bytes_injective projectEq) (Text.bytes_injective databaseEq)

instance : Ord DocumentKey where
  compare := compareLex (compareOn fun key => key.database) (compareOn fun key => key.path.bytes)

instance : Std.TransOrd DocumentKey := inferInstanceAs (Std.TransCmp (compareLex _ _))

instance : Std.LawfulEqOrd DocumentKey :=
  lawfulEqCmp_compareLex fun databaseEq pathEq =>
    DocumentKey.ext_path databaseEq (Text.bytes_injective pathEq)

/-! ## Resource order -/

def compareResourceIds (left right : Text) : Ordering :=
  match numericResourceId left, numericResourceId right with
  | some leftNumber, some rightNumber => compare leftNumber rightNumber
  | some _, none => .lt
  | none, some _ => .gt
  | none, none => compare left.bytes right.bytes

/-- Orders numeric ids by their embedded integer before ordinary ids. -/
def compareResourcePaths (left right : Text) : Ordering :=
  List.compareLex compareResourceIds (left.split '/') (right.split '/')

/-- Numeric ids come first; this is the rank of the two kinds. -/
private def resourceIdKind : Nat :=
  if (numericResourceId resourceId).isSome then 0 else 1

private def resourceIdNumber : Int := (numericResourceId resourceId).getD 0

private def resourceIdBytes : List UInt8 :=
  if (numericResourceId resourceId).isSome then [] else resourceId.bytes

private theorem compareResourceIds_eq_compareLex :
    compareResourceIds = compareLex (compareOn resourceIdKind)
      (compareLex (compareOn resourceIdNumber) (compareOn resourceIdBytes)) := by
  funext left right
  simp only [compareResourceIds, compareLex, compareOn, resourceIdKind,
    resourceIdNumber, resourceIdBytes]
  cases numericResourceId left <;> cases numericResourceId right <;> simp <;> rfl

instance : Std.TransCmp compareResourceIds := by
  rw [compareResourceIds_eq_compareLex]
  infer_instance

instance : Std.TransCmp compareResourcePaths where
  eq_swap {_ _} := @Std.OrientedCmp.eq_swap _ (List.compareLex compareResourceIds) _ _ _
  isLE_trans {_ _ _} := @Std.TransCmp.isLE_trans _ (List.compareLex compareResourceIds) _ _ _ _

end Firenook
