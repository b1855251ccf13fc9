import Firenook.Text

/-!
# Configuration masks

`apply_mask` copies the fields that a mask names from an update into a configuration.  Both
trees are walked together, and objects are created on the way, before it is known whether the
update has the field.
-/

namespace Firenook.Auth

open List

/-- JSON values; the first entry of a key counts.  A `leaf` is any other value. -/
inductive Json
  | null
  | leaf (text : Text)
  | object (entries : List (Text × Json))

namespace Json

def entries : Json → List (Text × Json)
  | object entries => entries
  | _ => []

def get (json : Json) (field : Text) : Option Json := json.entries.lookup field

def insertEntry (field : Text) (value : Json) : List (Text × Json) → List (Text × Json)
  | [] => [(field, value)]
  | (key, old) :: entries =>
    if field = key then (key, value) :: entries else (key, old) :: insertEntry field value entries

def insert (json : Json) (field : Text) (value : Json) : Json :=
  object (insertEntry field value json.entries)

/-- What a field is descended into as: a missing or other value becomes an object. -/
def asObject (json : Option Json) : Json := object (json.elim [] entries)

def value? : List Text → Json → Option Json
  | [], json => some json
  | field :: rest, json => (json.get field).bind (value? rest)

def has (json : Json) (path : List Text) : Bool :=
  match json.value? path with
  | none | some null => false
  | _ => true

def applyPath (update : Json) : List Text → Json → Json
  | [], dest => dest
  | [last], dest =>
    match update.get last with
    | none | some null => dest
    | some value => dest.insert last value
  | field :: next :: rest, dest =>
    match update.get field with
    | some (object inner) =>
      dest.insert field (applyPath (object inner) (next :: rest) (asObject (dest.get field)))
    | _ => dest

def maskPaths (updateMask : Text) : List (List Text) :=
  (updateMask.split ',').map (Text.split '.')

def applyMask (updateMask : Text) (dest update : Json) : Json :=
  (maskPaths updateMask).foldl (fun dest path => update.applyPath path dest) dest

/-- One of the two locations holds the other. -/
def Overlap (first second : List Text) : Prop := first <+: second ∨ second <+: first

/-- The locations that a path is followed through in the update: there the configuration is given
an object, whether or not the update has the field at the end of the path. -/
def Followed (update : Json) (path location : List Text) : Prop :=
  location ≠ [] ∧ location <+: path ∧ location ≠ path ∧
    ∃ inner, update.value? location = some (object inner)

variable {json dest update : Json} {path location : List Text}

theorem lookup_insertEntry (field other : Text) (value : Json) (entries : List (Text × Json)) :
    (insertEntry field value entries).lookup other =
      if other = field then some value else entries.lookup other := by
  induction entries with
  | nil =>
    by_cases same : other = field
    · simp [insertEntry, same]
    · simp [insertEntry, lookup_cons, same, beq_eq_false_iff_ne.mpr same]
  | cons entry entries ih =>
    obtain ⟨key, old⟩ := entry
    by_cases here : field = key
    · subst here
      by_cases same : other = field
      · simp [insertEntry, same]
      · simp [insertEntry, lookup_cons, same, beq_eq_false_iff_ne.mpr same]
    · rw [insertEntry, if_neg here, lookup_cons, lookup_cons, ih]
      by_cases same : other = field
      · simp [same, beq_eq_false_iff_ne.mpr here]
      · simp [same]

theorem insertEntry_of_lookup {field : Text} {value : Json} {entries : List (Text × Json)}
    (found : entries.lookup field = some value) : insertEntry field value entries = entries := by
  induction entries with
  | nil => cases found
  | cons entry entries ih =>
    obtain ⟨key, old⟩ := entry
    by_cases here : field = key
    · subst here
      simp_all [insertEntry]
    · rw [lookup_cons, beq_eq_false_iff_ne.mpr here] at found
      rw [insertEntry, if_neg here, ih found]

theorem value?_insert (field : Text) (value : Json) (other : Text) (rest : List Text) :
    (json.insert field value).value? (other :: rest) =
      if other = field then value.value? rest else json.value? (other :: rest) := by
  rw [value?, get, insert, entries, lookup_insertEntry]
  split_ifs <;> rfl

theorem value?_asObject {field : Text} (more : location ≠ []) :
    (asObject (json.get field)).value? location = json.value? (field :: location) := by
  obtain ⟨first, rest, rfl⟩ := exists_cons_of_ne_nil more
  rw [value?, value?]
  cases json.get field <;> rfl

theorem value?_applyPath_of_apart (apart : ¬Overlap location path) :
    (update.applyPath path dest).value? location = dest.value? location := by
  obtain _ | ⟨first, tail⟩ := location
  · exact absurd (.inl nil_prefix) apart
  fun_induction applyPath update path dest generalizing first tail with
  | case1 => exact absurd (.inr nil_prefix) apart
  | case2 | case3 | case6 => rfl
  | case4 =>
    rw [value?_insert, if_neg]
    rintro rfl
    exact apart (.inr ⟨tail, rfl⟩)
  | case5 _ field next rest dest _ _ ih =>
    rw [value?_insert]
    split_ifs with same
    · subst same
      obtain _ | ⟨second, tail⟩ := tail
      · exact absurd (.inl ⟨_, rfl⟩) apart
      · rw [ih second tail (by simpa [Overlap] using apart), value?_asObject (cons_ne_nil _ _)]
    · rfl

theorem value?_applyPath_self (present : update.has path = true) (named : path ≠ []) :
    (update.applyPath path dest).value? path = update.value? path := by
  fun_induction applyPath update path dest with
  | case1 => exact absurd rfl named
  | case2 _ _ _ found | case3 _ _ _ found => simp [has, value?, found] at present
  | case4 _ _ _ _ _ found =>
    rw [value?_insert, if_pos rfl]
    simp [value?, found]
  | case5 _ _ _ _ _ _ found ih =>
    rw [value?_insert, if_pos rfl, ih (by simpa [has, value?, found] using present) nofun]
    simp [value?, found]
  | case6 update field next rest _ other =>
    cases found : update.get field with
    | none => simp [has, value?, found] at present
    | some value =>
      cases value with
      | object inner => exact absurd found (other inner)
      | _ =>
        have missing : update.value? (field :: next :: rest) = none := by
          rw [value?, found]
          rfl
        simp [has, missing] at present

theorem followed_cons {field : Text} {inner : List (Text × Json)} {rest : List Text}
    (found : update.get field = some (object inner)) (more : location ≠ []) :
    Followed update (field :: rest) (field :: location) ↔
      Followed (object inner) rest location := by
  simp [Followed, value?, found, more, cons_prefix_cons]

theorem followed_first {field next : Text} {rest : List Text} {inner : List (Text × Json)}
    (found : update.get field = some (object inner)) :
    Followed update (field :: next :: rest) [field] :=
  ⟨nofun, ⟨next :: rest, rfl⟩, by simp, inner, by simp [value?, found]⟩

theorem exists_object_of_followed {field : Text} {rest : List Text}
    (followed : Followed update (field :: rest) location) :
    ∃ inner, update.get field = some (object inner) := by
  obtain ⟨more, isFront, -, inner, found⟩ := followed
  obtain ⟨first, tail, rfl⟩ := exists_cons_of_ne_nil more
  obtain ⟨rfl, -⟩ := cons_prefix_cons.mp isFront
  obtain ⟨value, isValue, isInner⟩ := Option.bind_eq_some_iff.mp found
  cases value with
  | object inner => exact ⟨inner, isValue⟩
  | _ => cases tail <;> cases isInner

def IsObject (json : Option Json) : Prop := ∃ inner, json = some (object inner)

/-- Every insertion on the way puts back the object that was there. -/
theorem applyPath_of_objects (isMap : asObject (some dest) = dest)
    (absent : update.has path = false)
    (kept : ∀ followed, Followed update path followed → IsObject (dest.value? followed)) :
    update.applyPath path dest = dest := by
  fun_induction applyPath update path dest with
  | case1 | case2 | case3 | case6 => rfl
  | case4 _ _ _ value other found => cases value <;> simp [has, value?, found] at absent other
  | case5 update field next rest dest inner found ih =>
    obtain ⟨old, isOld⟩ := kept [field] (followed_first found)
    have isOld : dest.get field = some (object old) := by simpa [value?] using isOld
    have same := ih rfl (by simpa [has, value?, found] using absent) fun followed isFollowed => by
      rw [value?_asObject isFollowed.1]
      exact kept _ ((followed_cons found isFollowed.1).mpr isFollowed)
    rw [same, isOld, asObject, Option.elim_some, entries, insert, insertEntry_of_lookup isOld]
    exact isMap

/-- Where the update lacks the path, a location changes only through the objects that are made at
it or under it. -/
theorem value?_applyPath_of_absent (isMap : asObject (some dest) = dest)
    (absent : update.has path = false)
    (kept : ∀ followed, Followed update path followed → location <+: followed →
      IsObject (dest.value? followed)) :
    (update.applyPath path dest).value? location = dest.value? location := by
  fun_induction applyPath update path dest generalizing location with
  | case1 | case2 | case3 | case6 => rfl
  | case4 _ _ _ value other found => cases value <;> simp [has, value?, found] at absent other
  | case5 update field next rest dest inner found ih =>
    cases location with
    | nil =>
      have whole := applyPath_of_objects isMap absent fun followed isFollowed =>
        kept followed isFollowed nil_prefix
      rw [applyPath, found] at whole
      exact congrArg (value? []) whole
    | cons first tail =>
      rw [value?_insert]
      split_ifs with same
      · subst same
        rw [ih rfl (by simpa [has, value?, found] using absent) fun followed isFollowed isUnder => by
          rw [value?_asObject isFollowed.1]
          exact kept _ ((followed_cons found isFollowed.1).mpr isFollowed)
            (cons_prefix_cons.mpr ⟨rfl, isUnder⟩)]
        cases tail with
        | cons => rw [value?_asObject (cons_ne_nil _ _)]
        | nil =>
          obtain ⟨old, isOld⟩ := kept [first] (followed_first found) (prefix_refl _)
          have isOld : dest.get first = some (object old) := by simpa [value?] using isOld
          simp [value?, isOld, asObject, entries]
      · rfl

theorem isObject_applyPath (absent : update.has path = false)
    (given : Followed update path location ∨ IsObject (dest.value? location)) :
    IsObject ((update.applyPath path dest).value? location) := by
  fun_induction applyPath update path dest generalizing location with
  | case1 | case2 | case3 =>
    refine given.resolve_left fun followed => ?_
    obtain ⟨more, isFront, differs, -⟩ := followed
    cases location <;> simp_all [prefix_cons_iff]
  | case4 _ _ _ value other found => cases value <;> simp [has, value?, found] at absent other
  | case5 update field next rest dest inner found ih =>
    cases location with
    | nil => exact ⟨_, rfl⟩
    | cons first tail =>
      rw [value?_insert]
      split_ifs with same
      · subst same
        refine ih (by simpa [has, value?, found] using absent) ?_
        by_cases more : tail = []
        · subst more
          exact .inr ⟨_, rfl⟩
        · rwa [← followed_cons found more, value?_asObject more]
      · refine given.resolve_left fun followed => same ?_
        exact (cons_prefix_cons.mp followed.2.1).1
  | case6 update field next rest dest other =>
    refine given.resolve_left fun followed => ?_
    obtain ⟨inner, found⟩ := exists_object_of_followed followed
    exact other inner found

theorem value?_foldl_self {paths : List (List Text)} (present : update.has path = true)
    (named : path ≠ []) (apart : ∀ other ∈ paths, other ≠ path → ¬Overlap path other) (dest : Json)
    (given : path ∈ paths ∨ dest.value? path = update.value? path) :
    (paths.foldl (fun dest path => update.applyPath path dest) dest).value? path =
      update.value? path := by
  induction paths generalizing dest with
  | nil => exact given.resolve_left not_mem_nil
  | cons first paths ih =>
    rw [forall_mem_cons] at apart
    refine ih apart.2 _ ?_
    by_cases same : first = path
    · subst same
      exact .inr (value?_applyPath_self present named)
    · rw [value?_applyPath_of_apart (apart.1 same)]
      exact given.imp_left fun member => (mem_cons.mp member).resolve_left (Ne.symm same)

variable {paths : List (List Text)} {config : List (Text × Json)}

/-- Wherever a path that the update lacks is followed, the configuration has an object already or
another path of the mask accounts for the location. -/
def Prepared (update : Json) (paths : List (List Text)) (config : List (Text × Json)) : Prop :=
  ∀ path ∈ paths, update.has path = false → ∀ location, Followed update path location →
    (∃ present ∈ paths, update.has present = true ∧ Overlap location present) ∨
      IsObject ((object config).value? location)

def Apart (update : Json) (paths : List (List Text)) (location : List Text) : Prop :=
  ∀ path ∈ paths, update.has path = true → ¬Overlap location path

theorem isMap_applyPath (isMap : asObject (some dest) = dest) :
    asObject (some (update.applyPath path dest)) = update.applyPath path dest := by
  fun_cases applyPath update path dest <;> first | exact isMap | rfl

theorem Apart.of_prefix {followed : List Text} (apart : Apart update paths location)
    (isUnder : location <+: followed) : Apart update paths followed := by
  intro path member present overlap
  refine apart path member present ?_
  rcases overlap with below | above
  · exact .inl (isUnder.trans below)
  · exact prefix_or_prefix_of_prefix isUnder above

theorem value?_foldl_of_prepared (prepared : Prepared update paths config)
    (apart : Apart update paths location) (front : List (List Text)) (within : front ⊆ paths)
    (isMap : asObject (some dest) = dest)
    (same : ∀ location, Apart update paths location →
      dest.value? location = (object config).value? location) :
    (front.foldl (fun dest path => update.applyPath path dest) dest).value? location =
      (object config).value? location := by
  induction front generalizing dest with
  | nil => exact same location apart
  | cons path front ih =>
    rw [cons_subset] at within
    refine ih within.2 (isMap_applyPath isMap) fun location apart => ?_
    rw [← same location apart]
    cases has : update.has path with
    | true => exact value?_applyPath_of_apart (apart path within.1 has)
    | false =>
      refine value?_applyPath_of_absent isMap has fun followed isFollowed isUnder => ?_
      have further := apart.of_prefix isUnder
      rw [same followed further]
      refine (prepared path within.1 has followed isFollowed).resolve_left ?_
      rintro ⟨present, member, isPresent, overlap⟩
      exact further present member isPresent overlap

theorem isObject_foldl (apart : Apart update paths location) (front : List (List Text))
    (within : front ⊆ paths)
    (given : (∃ path ∈ front, update.has path = false ∧ Followed update path location) ∨
      IsObject (dest.value? location)) :
    IsObject
      ((front.foldl (fun dest path => update.applyPath path dest) dest).value? location) := by
  induction front generalizing dest with
  | nil => exact given.resolve_left nofun
  | cons path front ih =>
    rw [cons_subset] at within
    refine ih within.2 ?_
    rw [exists_mem_cons_iff, or_assoc, or_left_comm] at given
    refine given.imp_right fun given => ?_
    cases has : update.has path with
    | true =>
      rw [value?_applyPath_of_apart (apart path within.1 has)]
      exact given.resolve_left (by simp [has])
    | false => exact isObject_applyPath has (given.imp_left And.right)

theorem masks_change_only_named (updateMask : Text) (config update : List (Text × Json)) :
    ((∀ location, Apart (object update) (maskPaths updateMask) location →
        (applyMask updateMask (object config) (object update)).value? location =
          (object config).value? location) ∧
      ∀ path ∈ maskPaths updateMask, (object update).has path = true →
        (∀ other ∈ maskPaths updateMask, other ≠ path → ¬Overlap path other) →
        (applyMask updateMask (object config) (object update)).value? path =
          (object update).value? path) ↔
    Prepared (object update) (maskPaths updateMask) config := by
  constructor
  · rintro ⟨unchanged, -⟩ path member absent location followed
    refine or_iff_not_imp_left.mpr fun apart => ?_
    have apart : Apart (object update) (maskPaths updateMask) location :=
      fun present member isPresent overlap => apart ⟨present, member, isPresent, overlap⟩
    rw [← unchanged location apart]
    exact isObject_foldl apart _ (Subset.refl _) (.inl ⟨path, member, absent, followed⟩)
  · refine fun prepared => ⟨fun location apart => ?_, fun path member present apart => ?_⟩
    · exact value?_foldl_of_prepared prepared apart _ (Subset.refl _) rfl fun _ _ => rfl
    · refine value?_foldl_self present ?_ apart (object config) (.inl member)
      obtain ⟨text, -, rfl⟩ := mem_map.mp member
      exact splitOn_ne_nil '.' text

/-- The mask `a.b` creates `a` although the update has nothing at `a.b`. -/
theorem missing_path_changes_config : ∃ (updateMask : Text) (config update : Json)
    (location : List Text), (∀ path ∈ maskPaths updateMask, update.has path = false) ∧
      (applyMask updateMask config update).value? location ≠ config.value? location :=
  ⟨['a', '.', 'b'], object [], object [(['a'], object [])], [['a']], by decide, nofun⟩

end Json
end Firenook.Auth
