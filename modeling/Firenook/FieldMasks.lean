import Firenook.StoreWrites

/-!
# Masked updates

A patch edits its document at the paths of the update mask: a path is assigned the value that
the source has there, or deleted.  Edits of a path change only what is on the way to it and
below it, and edits at incomparable paths can be exchanged.
-/

namespace Firenook

variable {segments : List Text}

namespace Value

open List OrderedEntries Text

variable {edit : Option Value} {entries : List (Text × Value)}

/-- One masked path: the value is assigned, or the path deleted without one. -/
def editNested (edit : Option Value) (entries : List (Text × Value)) (segments : List Text) :
    List (Text × Value) :=
  match edit with
  | some value => setNestedMapValue entries value segments
  | none => deleteNestedMapValue entries segments

/-- Entries of a map; anything else counts as empty. -/
def entriesOf : Option Value → List (Text × Value)
  | some (.map entries) => entries
  | _ => []

def editMember (edit : Option Value) (child : Option Value) : List Text → Option Value
  | [] => edit
  | segments =>
    match edit, child with
    | none, some (.map entries) => some (.map (editNested none entries segments))
    | none, child => child
    | some value, child => some (.map (editNested (some value) (entriesOf child) segments))

theorem ordered_editNested (ordered : (map entries).ordered = true)
    (editOrdered : ∀ value, edit = some value → value.ordered = true) (segments : List Text) :
    (map (editNested edit entries segments)).ordered = true := by
  cases edit with
  | some value => exact ordered_setNestedMapValue ordered (editOrdered value rfl) segments
  | none => exact ordered_deleteNestedMapValue ordered segments

theorem entriesOf_get? (segment : Text) (entries : List (Text × Value)) :
    entriesOf (get? cmp segment entries) = childEntries segment entries := by
  rfl

theorem get?_editNested (ordered : (map entries).ordered = true)
    (edit : Option Value) (segment : Text) (rest : List Text) (other : Text) :
    get? cmp other (editNested edit entries (segment :: rest)) =
      if other = segment then
        editMember edit (get? cmp segment entries) rest
      else get? cmp other entries := by
  have ascending := (ordered_map_iff.mp ordered).1
  have same : ∀ first second : Text, Text.cmp first second = .eq ↔ first = second :=
    fun _ _ => Std.LawfulEqCmp.compare_eq_iff_eq
  cases edit with
  | some value =>
    cases rest with
    | nil =>
      simp only [editNested, setNestedMapValue, get?_insert, same, editMember]
    | cons second rest =>
      simp only [editNested, setNestedMapValue, get?_insert, same, editMember, entriesOf_get?]
  | none =>
    cases rest with
    | nil =>
      simp only [editNested, deleteNestedMapValue, get?_erase ascending, same, editMember]
    | cons second rest =>
      simp only [editNested, deleteNestedMapValue, editMember]
      cases found : get? cmp segment entries with
      | none => split_ifs with here <;> simp [here, found]
      | some child =>
        cases child with
        | map children =>
          simp only [get?_insert, same]
        | _ => split_ifs with here <;> simp [here, found]

theorem ordered_entriesOf {child : Option Value}
    (childOrdered : ∀ value, child = some value → value.ordered = true) :
    (map (entriesOf child)).ordered = true := by
  unfold entriesOf
  split
  next entries => exact childOrdered _ rfl
  next => rfl

def Incomparable (first second : List Text) : Prop := ¬first <+: second ∧ ¬second <+: first

theorem Incomparable.tail {segment : Text} {first second : List Text}
    (incomparable : Incomparable (segment :: first) (segment :: second)) :
    Incomparable first second :=
  ⟨fun isPrefix => incomparable.1 ((prefix_cons_inj segment).mpr isPrefix),
    fun isPrefix => incomparable.2 ((prefix_cons_inj segment).mpr isPrefix)⟩

theorem nested_cons (entries : List (Text × Value)) (segment : Text) (rest : List Text) :
    (map entries).nested (segment :: rest) = (get? cmp segment entries).bind (·.nested rest) :=
  rfl

theorem nested_editNested_self (ordered : (map entries).ordered = true) (nonempty : segments ≠ []) :
    (map (editNested edit entries segments)).nested segments = edit := by
  induction segments generalizing entries with
  | nil => exact absurd rfl nonempty
  | cons segment rest ih =>
    have childOrdered : ∀ value, get? cmp segment entries = some value →
        value.ordered = true := fun _ found => ordered_of_get? ordered found
    rw [nested_cons, get?_editNested ordered, if_pos rfl]
    generalize get? cmp segment entries = child at childOrdered
    cases rest with
    | nil => cases edit <;> rfl
    | cons second rest =>
      cases edit with
      | some value => exact ih (ordered_entriesOf childOrdered) (by simp)
      | none =>
        cases child with
        | none => rfl
        | some child =>
          cases child with
          | map children => exact ih (childOrdered _ rfl) (by simp)
          | _ => rfl

theorem nested_editNested_of_incomparable
    (ordered : (map entries).ordered = true) {segments path : List Text}
    (incomparable : Incomparable segments path) :
    (map (editNested edit entries segments)).nested path = (map entries).nested path := by
  induction segments generalizing entries path with
  | nil => exact absurd nil_prefix incomparable.1
  | cons segment rest ih =>
    cases path with
    | nil => exact absurd nil_prefix incomparable.2
    | cons first path =>
      have childOrdered : ∀ value, get? cmp segment entries = some value →
          value.ordered = true := fun _ found => ordered_of_get? ordered found
      rw [nested_cons, nested_cons, get?_editNested ordered]
      split_ifs with same
      · subst same
        have below := incomparable.tail
        generalize get? cmp first entries = child at childOrdered
        -- both paths go on below the member, which is a map or holds neither path
        obtain ⟨second, path, rfl⟩ : ∃ second more, path = second :: more := by
          refine exists_cons_of_ne_nil ?_
          rintro rfl
          exact below.2 nil_prefix
        obtain ⟨third, rest, rfl⟩ : ∃ third more, rest = third :: more := by
          refine exists_cons_of_ne_nil ?_
          rintro rfl
          exact below.1 nil_prefix
        cases edit with
        | some value =>
          refine (ih (ordered_entriesOf childOrdered) below).trans ?_
          cases child with
          | none => rfl
          | some child => cases child <;> rfl
        | none =>
          cases child with
          | none => rfl
          | some child =>
            cases child with
            | map children => exact ih (childOrdered _ rfl) below
            | _ => rfl
      · rfl

/-! ## Exchanging edits -/

theorem editNested_none_nil (segments : List Text) : editNested none [] segments = [] := by
  cases segments with
  | nil => rfl
  | cons segment rest => cases rest <;> rfl

theorem editMember_comm {first second : Option Value} {left right : List Text} {child : Option Value}
    (leftSome : left ≠ []) (rightSome : right ≠ [])
    (childOrdered : ∀ value, child = some value → value.ordered = true)
    (exchange : ∀ entries, (map entries).ordered = true →
      editNested first (editNested second entries right) left =
        editNested second (editNested first entries left) right) :
    editMember first (editMember second child right) left =
      editMember second (editMember first child left) right := by
  obtain ⟨leftFirst, left, rfl⟩ := exists_cons_of_ne_nil leftSome
  obtain ⟨rightFirst, right, rfl⟩ := exists_cons_of_ne_nil rightSome
  have atEntries := congrArg (fun entries => some (map entries))
    (exchange (entriesOf child) (ordered_entriesOf childOrdered))
  have atNothing := congrArg (fun entries => some (map entries)) (exchange [] rfl)
  cases first <;> cases second
  case some.some => exact atEntries
  case none.none =>
    cases child with
    | none => rfl
    | some child =>
      cases child with
      | map children => exact atEntries
      | _ => rfl
  -- only one of the edits sets a value
  all_goals
    rw [editNested_none_nil] at atNothing
    cases child with
    | none => exact atNothing
    | some child =>
      cases child with
      | map children => exact atEntries
      | _ => exact atNothing

theorem editNested_comm {first second : Option Value} {left right : List Text}
    (firstOrdered : ∀ value, first = some value → value.ordered = true)
    (secondOrdered : ∀ value, second = some value → value.ordered = true)
    (incomparable : Incomparable left right) (ordered : (map entries).ordered = true) :
    editNested first (editNested second entries right) left =
      editNested second (editNested first entries left) right := by
  induction left generalizing right entries with
  | nil => exact absurd nil_prefix incomparable.1
  | cons segment left ih =>
    cases right with
    | nil => exact absurd nil_prefix incomparable.2
    | cons other right =>
      have rightEdited := ordered_editNested ordered secondOrdered (other :: right)
      have leftEdited := ordered_editNested ordered firstOrdered (segment :: left)
      have both := ordered_editNested rightEdited firstOrdered (segment :: left)
      have bothOther := ordered_editNested leftEdited secondOrdered (other :: right)
      apply ext_get? (ordered_map_iff.mp both).1 (ordered_map_iff.mp bothOther).1
      intro key
      rw [get?_editNested rightEdited, get?_editNested leftEdited, get?_editNested ordered,
        get?_editNested ordered, get?_editNested ordered, get?_editNested ordered]
      by_cases same : segment = other
      · subst same
        have below := incomparable.tail
        rw [if_pos rfl, if_pos rfl]
        by_cases here : key = segment
        · rw [if_pos here, if_pos here]
          apply editMember_comm
          · rintro rfl
            exact below.1 nil_prefix
          · rintro rfl
            exact below.2 nil_prefix
          · exact fun _ found => ordered_of_get? ordered found
          · exact fun entries entriesOrdered => ih below entriesOrdered
        · simp only [if_neg here]
      · have differs : ¬other = segment := fun equal => same equal.symm
        rw [if_neg same, if_neg differs]
        by_cases atSegment : key = segment
        · have notOther : ¬key = other := fun equal => same (atSegment.symm.trans equal)
          rw [if_pos atSegment, if_neg notOther, if_pos atSegment]
        · rw [if_neg atSegment, if_neg atSegment]

end Value

/-! ## Masks -/

def editField (source next : Fields) (path : FieldPath) : Fields :=
  applyUpdateMask next source [path]

theorem applyUpdateMask_eq_foldl (next source : Fields) (mask : List FieldPath) :
    applyUpdateMask next source mask = mask.foldl (editField source) next :=
  rfl

section

variable (source next : Fields)

theorem entries_editField (path : FieldPath) : (editField source next path).entries =
      Value.editNested (nestedValue source path.segments) next.entries path.segments := by
  unfold editField applyUpdateMask
  rw [List.foldl_cons]
  split
  next value found =>
    change Value.setNestedMapValue next.entries value path.segments = _
    rw [found]
    rfl
  next missing =>
    rw [missing]
    rfl

theorem nestedValue_editField_self (path : FieldPath) :
    nestedValue (editField source next path) path.segments = nestedValue source path.segments := by
  rw [nestedValue_eq_nested _ path.nonempty.1, entries_editField]
  exact Value.nested_editNested_self next.ordered path.nonempty.1

theorem nestedValue_editField_of_incomparable {path : FieldPath}
    (incomparable : Value.Incomparable path.segments segments) :
    nestedValue (editField source next path) segments = nestedValue next segments := by
  have nonempty : segments ≠ [] := by
    rintro rfl
    exact incomparable.2 List.nil_prefix
  rw [nestedValue_eq_nested _ nonempty, nestedValue_eq_nested _ nonempty, entries_editField]
  exact Value.nested_editNested_of_incomparable next.ordered incomparable

theorem editField_comm {first second : FieldPath}
    (incomparable : Value.Incomparable first.segments second.segments) :
    editField source (editField source next second) first =
      editField source (editField source next first) second := by
  apply Fields.ext
  rw [entries_editField, entries_editField, entries_editField, entries_editField]
  exact Value.editNested_comm (fun _ => ordered_nestedValue) (fun _ => ordered_nestedValue)
    incomparable next.ordered

end

def MaskSeparate (mask : List FieldPath) : Prop :=
  ∀ first ∈ mask, ∀ second ∈ mask, first.segments <+: second.segments → first = second

theorem MaskSeparate.incomparable {mask : List FieldPath} (separate : MaskSeparate mask)
    {first second : FieldPath} (firstMember : first ∈ mask) (secondMember : second ∈ mask)
    (differ : first ≠ second) : Value.Incomparable first.segments second.segments :=
  ⟨fun isPrefix => differ (separate first firstMember second secondMember isPrefix),
    fun isPrefix => differ (separate second secondMember first firstMember isPrefix).symm⟩

theorem applyUpdateMask_perm {next source : Fields} {mask other : List FieldPath}
    (separate : MaskSeparate mask) (permuted : mask.Perm other) :
    applyUpdateMask next source mask = applyUpdateMask next source other := by
  apply permuted.foldl_eq'
  intro first firstMember second secondMember fields
  by_cases same : first = second
  · rw [same]
  · exact editField_comm source fields (separate.incomparable secondMember firstMember (Ne.symm same))

theorem nestedValue_applyUpdateMask_of_mem {next source : Fields} {mask : List FieldPath}
    (separate : MaskSeparate mask) {path : FieldPath} (member : path ∈ mask) :
    nestedValue (applyUpdateMask next source mask) path.segments =
      nestedValue source path.segments := by
  -- the path can be edited last
  have last : mask.Perm (mask.erase path ++ [path]) :=
    (List.perm_cons_erase member).trans (List.perm_append_singleton path _).symm
  rw [applyUpdateMask_perm separate last, applyUpdateMask_eq_foldl, List.foldl_append]
  exact nestedValue_editField_self source _ path

theorem nestedValue_applyUpdateMask_of_incomparable (next source : Fields) {mask : List FieldPath}
    (incomparable : ∀ path ∈ mask, Value.Incomparable path.segments segments) :
    nestedValue (applyUpdateMask next source mask) segments = nestedValue next segments := by
  rw [applyUpdateMask_eq_foldl]
  induction mask generalizing next with
  | nil => rfl
  | cons path mask ih =>
    rw [List.forall_mem_cons] at incomparable
    rw [List.foldl_cons, ih (editField source next path) incomparable.2]
    exact nestedValue_editField_of_incomparable source next incomparable.1

/-- A masked update sets the paths of the mask to what the source has there, leaves every path
that no mask path leads to or through, and takes the mask in any order. -/
theorem masked_update_exact (stored source : Fields) {mask : List FieldPath}
    (separate : MaskSeparate mask) :
    (∀ path ∈ mask, nestedValue (applyUpdateMask stored source mask) path.segments =
        nestedValue source path.segments) ∧
      (∀ path : FieldPath,
        (∀ masked ∈ mask, ¬path.segments <+: masked.segments ∧ ¬masked.segments <+: path.segments) →
        nestedValue (applyUpdateMask stored source mask) path.segments =
          nestedValue stored path.segments) ∧
      ∀ other, other.Perm mask →
        applyUpdateMask stored source other = applyUpdateMask stored source mask := by
  refine ⟨?_, ?_, ?_⟩
  · intro path member
    exact nestedValue_applyUpdateMask_of_mem separate member
  · intro path apart
    apply nestedValue_applyUpdateMask_of_incomparable
    intro masked member
    exact ⟨(apart masked member).2, (apart masked member).1⟩
  · intro other permuted
    exact (applyUpdateMask_perm separate permuted.symm).symm

namespace Sample

/-- `a.b`, `a.c` and `d` are in the mask. -/
def mask : List FieldPath :=
  [⟨["a".toList, "b".toList], by decide⟩, ⟨["a".toList, "c".toList], by decide⟩,
    ⟨["d".toList], by decide⟩]

def maskedFields : Fields := ⟨[("a".toList, .integer 1), ("e".toList, .null)], by decide⟩

def maskSource : Fields := ⟨[("a".toList, .map [("b".toList, .integer 2)])], by decide⟩

end Sample

theorem masked_update_exact_sample :
    MaskSeparate Sample.mask ∧
      nestedValue (applyUpdateMask Sample.maskedFields Sample.maskSource Sample.mask)
          ["a".toList, "b".toList] =
        nestedValue Sample.maskSource ["a".toList, "b".toList] := by
  have separate : MaskSeparate Sample.mask := by
    unfold MaskSeparate Sample.mask
    decide
  exact ⟨separate, (masked_update_exact Sample.maskedFields Sample.maskSource separate).1
    ⟨["a".toList, "b".toList], by decide⟩ List.mem_cons_self⟩

end Firenook
