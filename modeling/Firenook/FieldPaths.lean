import Firenook.QueryEngine

/-!
# The text form of field paths

A path is written as segments separated by dots; a segment that is not a simple identifier stands
in backquotes, with backslashes before backquotes and backslashes.  The reader accepts any
backslash escape.
-/

namespace Firenook.QueryEngine

open List

variable {characters segment rest text path : Text} {segments : List Text}

inductive FieldPathError
  | invalidFieldPath
  deriving DecidableEq

def FieldPath.fromSegments (segments : List Text) : Except FieldPathError FieldPath :=
  if segments.isEmpty || segments.any isEmpty then .error .invalidFieldPath
  else .ok (.field segments)

def isSimpleFieldSegment : Text → Bool
  | [] => false
  | first :: rest => (first == '_' || first.isAlpha) &&
      rest.all fun character => character == '_' || character.isAlphanum

/-- The segment up to the closing backquote, and what follows it. -/
def parseQuoted : Text → Option (Text × Text)
  | [] => none
  | '\x60' :: rest => some ([], rest)
  | ['\\'] => none
  | '\\' :: character :: rest =>
    (parseQuoted rest).map fun parsed => (character :: parsed.1, parsed.2)
  | character :: rest =>
    (parseQuoted rest).map fun parsed => (character :: parsed.1, parsed.2)

def parseSegment : Text → Option (Text × Text)
  | '\x60' :: quoted => parseQuoted quoted
  | characters =>
    let segment := characters.takeWhile (· != '.')
    if isSimpleFieldSegment segment then some (segment, characters.dropWhile (· != '.'))
    else none

theorem length_parseQuoted (parsed : parseQuoted characters = some (segment, rest)) :
    rest.length ≤ characters.length := by
  induction characters using parseQuoted.induct generalizing segment with
  | case1 => cases parsed
  | case2 rest =>
    cases parsed
    simp
  | case3 => cases parsed
  | case4 character rest ih =>
    obtain ⟨inner, isInner, same⟩ := Option.map_eq_some_iff.mp parsed
    cases same
    have := ih isInner
    simp only [length_cons]
    omega
  | case5 character rest notQuote notEnd notEscape ih =>
    rw [parseQuoted] at parsed
    · obtain ⟨inner, isInner, same⟩ := Option.map_eq_some_iff.mp parsed
      cases same
      have := ih isInner
      simp only [length_cons]
      omega
    all_goals assumption

theorem length_parseSegment (parsed : parseSegment characters = some (segment, rest)) :
    rest.length ≤ characters.length := by
  rw [parseSegment.eq_def] at parsed
  split at parsed
  · exact (length_parseQuoted parsed).trans (Nat.le_succ _)
  · dsimp only at parsed
    split_ifs at parsed
    cases parsed
    exact (dropWhile_sublist _).length_le

/-- The loop over the segments: a dot must be followed by another segment. -/
def parseSegments (characters : Text) : Option (List Text) :=
  if characters = [] then some []
  else
    match _parsed : parseSegment characters with
    | none => none
    | some (segment, rest) =>
      if segment = [] then none
      else
        match rest with
        | [] => some [segment]
        | next :: more =>
          if next = '.' ∧ more ≠ [] then (parseSegments more).map (segment :: ·) else none
termination_by characters.length
decreasing_by
  have := length_parseSegment _parsed
  simp only [length_cons] at this
  omega

def FieldPath.parseWire (path : Text) : Except FieldPathError FieldPath :=
  if path = "__name__".toList then .ok .documentId
  else
    match parseSegments path with
    | none => .error .invalidFieldPath
    | some segments => FieldPath.fromSegments segments

def replaceChar (character : Char) (replacement : Text) (text : Text) : Text :=
  text.flatMap fun other => if other = character then replacement else [other]

def configSegment (segment : Text) : Text :=
  if isSimpleFieldSegment segment then segment
  else '\x60' :: replaceChar '\x60' ['\\', '\x60'] (replaceChar '\\' ['\\', '\\'] segment) ++ ['\x60']

def FieldPath.configName : FieldPath → Option Text
  | .documentId => none
  | .field segments => some (['.'].intercalate (segments.map configSegment))

/-! ## The accepted texts -/

/-- The inside of backquotes, with the segment that it stands for. -/
inductive Quotes : Text → Text → Prop
  | nil : Quotes [] []
  | plain {character : Char} {body segment : Text} (notQuote : character ≠ '\x60')
      (notEscape : character ≠ '\\') (rest : Quotes body segment) :
      Quotes (character :: body) (character :: segment)
  | escaped {character : Char} {body segment : Text} (rest : Quotes body segment) :
      Quotes ('\\' :: character :: body) (character :: segment)

/-- The text of a segment: a simple identifier, or a segment in backquotes. -/
inductive WritesSegment : Text → Text → Prop
  | simple {segment : Text} (isSimple : isSimpleFieldSegment segment = true) :
      WritesSegment segment segment
  | quoted {body segment : Text} (quotes : Quotes body segment) (nonempty : segment ≠ []) :
      WritesSegment ('\x60' :: body ++ ['\x60']) segment

/-- The text of a path: texts of at least one segment, separated by dots. -/
def WritesPath (path : Text) (segments : List Text) : Prop :=
  ∃ texts, texts ≠ [] ∧ Forall₂ WritesSegment texts segments ∧ path = ['.'].intercalate texts

theorem parseQuoted_append {body : Text} (quotes : Quotes body segment) (rest : Text) :
    parseQuoted (body ++ '\x60' :: rest) = some (segment, rest) := by
  induction quotes with
  | nil => rfl
  | @plain character body segment notQuote notEscape _ ih =>
    rw [cons_append, parseQuoted, ih]
    · rfl
    · exact notQuote
    · intro isEscape _
      exact notEscape isEscape
    · intro _ _ isEscape _
      exact notEscape isEscape
  | escaped _ ih =>
    rw [cons_append, cons_append, parseQuoted, ih]
    rfl

theorem exists_quotes (parsed : parseQuoted characters = some (segment, rest)) :
    ∃ body, Quotes body segment ∧ characters = body ++ '\x60' :: rest := by
  induction characters using parseQuoted.induct generalizing segment with
  | case1 => cases parsed
  | case2 rest =>
    cases parsed
    exact ⟨[], .nil, rfl⟩
  | case3 => cases parsed
  | case4 character rest ih =>
    obtain ⟨inner, isInner, same⟩ := Option.map_eq_some_iff.mp parsed
    cases same
    obtain ⟨body, quotes, isBody⟩ := ih isInner
    exact ⟨'\\' :: character :: body, .escaped quotes, by rw [isBody]; rfl⟩
  | case5 character rest notQuote notEnd notEscape ih =>
    have isPlain : character ≠ '\\' := by
      intro isEscape
      cases rest with
      | nil => exact notEnd isEscape rfl
      | cons next rest => exact notEscape next rest isEscape rfl
    rw [parseQuoted] at parsed
    · obtain ⟨inner, isInner, same⟩ := Option.map_eq_some_iff.mp parsed
      cases same
      obtain ⟨body, quotes, isBody⟩ := ih isInner
      exact ⟨character :: body, .plain notQuote isPlain quotes, by rw [isBody]; rfl⟩
    all_goals assumption

theorem isSimpleFieldSegment_cons {first : Char}
    (isSimple : isSimpleFieldSegment (first :: rest) = true) :
    (first == '_' || first.isAlpha) = true ∧
      ∀ character ∈ rest, (character == '_' || character.isAlphanum) = true := by
  rwa [isSimpleFieldSegment, Bool.and_eq_true, all_eq_true] at isSimple

theorem ne_of_isSimple (isSimple : isSimpleFieldSegment segment = true)
    {character : Char} (member : character ∈ segment) : character ≠ '.' ∧ character ≠ '\x60' := by
  cases segment with
  | nil => cases member
  | cons first rest =>
    obtain ⟨isFirst, isRest⟩ := isSimpleFieldSegment_cons isSimple
    have allowed : (character == '_' || character.isAlphanum) = true := by
      rcases mem_cons.mp member with rfl | member
      · rw [Bool.or_eq_true] at isFirst ⊢
        exact isFirst.imp_right fun isAlpha => by simp [Char.isAlphanum, isAlpha]
      · exact isRest character member
    constructor <;>
    · rintro rfl
      revert allowed
      decide

def EndsSegment (rest : Text) : Prop := rest = [] ∨ ∃ more, rest = '.' :: more

theorem parseSegment_simple (notQuoted : characters.head? ≠ some '\x60') :
    parseSegment characters =
      if isSimpleFieldSegment (characters.takeWhile (· != '.')) then
        some (characters.takeWhile (· != '.'), characters.dropWhile (· != '.'))
      else none := by
  rw [parseSegment]
  rintro quoted rfl
  exact notQuoted rfl

theorem parseSegment_append {text segment rest : Text} (writes : WritesSegment text segment)
    (ends : EndsSegment rest) : parseSegment (text ++ rest) = some (segment, rest) := by
  cases writes with
  | simple isSimple =>
    have plain : ∀ character ∈ text, (character != '.') = true := fun character member =>
      bne_iff_ne.mpr (ne_of_isSimple isSimple member).1
    have stops : rest.takeWhile (· != '.') = [] ∧ rest.dropWhile (· != '.') = rest := by
      rcases ends with rfl | ⟨more, rfl⟩ <;> simp
    have front : (text ++ rest).takeWhile (· != '.') = text := by
      rw [takeWhile_append_of_pos plain, stops.1, append_nil]
    have back : (text ++ rest).dropWhile (· != '.') = rest := by
      rw [dropWhile_append_of_pos plain, stops.2]
    rw [parseSegment_simple, front, back, if_pos isSimple]
    cases text with
    | nil => cases isSimple
    | cons first text =>
      intro isQuote
      exact (ne_of_isSimple isSimple mem_cons_self).2 (Option.some.inj isQuote)
  | quoted quotes _ =>
    rw [append_assoc]
    exact parseQuoted_append quotes rest

theorem exists_writesSegment
    (parsed : parseSegment characters = some (segment, rest)) (nonempty : segment ≠ []) :
    ∃ text, WritesSegment text segment ∧ characters = text ++ rest := by
  by_cases isQuoted : characters.head? = some '\x60'
  · cases characters with
    | nil => cases isQuoted
    | cons first characters =>
      cases isQuoted
      obtain ⟨body, quotes, isBody⟩ := exists_quotes parsed
      refine ⟨'\x60' :: body ++ ['\x60'], .quoted quotes nonempty, ?_⟩
      rw [isBody]
      simp
  · rw [parseSegment_simple isQuoted] at parsed
    split_ifs at parsed with isSimple
    cases parsed
    exact ⟨_, .simple isSimple, takeWhile_append_dropWhile.symm⟩

theorem ne_nil_of_writesSegment (writes : WritesSegment text segment) : text ≠ [] := by
  cases writes with
  | simple isSimple =>
    rintro rfl
    cases isSimple
  | quoted _ _ => simp

theorem segment_ne_nil_of_writesSegment (writes : WritesSegment text segment) : segment ≠ [] := by
  cases writes with
  | simple isSimple =>
    rintro rfl
    cases isSimple
  | quoted _ nonempty => exact nonempty

/-- What one round of the loop does with a segment and the characters after it. -/
def segmentsAfter (segment rest : Text) (remaining : Text → Option (List Text)) :
    Option (List Text) :=
  if segment = [] then none
  else if rest = [] then some [segment]
  else if rest.head? = some '.' ∧ rest.tail ≠ [] then (remaining rest.tail).map (segment :: ·)
  else none

theorem parseSegments_eq (nonempty : characters ≠ []) :
    parseSegments characters = (parseSegment characters).bind fun parsed =>
      segmentsAfter parsed.1 parsed.2 parseSegments := by
  rw [parseSegments, if_neg nonempty]
  split
  · next failed => rw [failed, Option.bind_none]
  · next segment rest parsed =>
    have after : ((parseSegment characters).bind fun parsed =>
        segmentsAfter parsed.1 parsed.2 parseSegments) =
          segmentsAfter segment rest parseSegments := by
      rw [parsed, Option.bind_some]
    rw [after, segmentsAfter]
    cases rest <;> simp

theorem parseSegments_of_writesPath
    (writes : WritesPath path segments) : path ≠ [] ∧ parseSegments path = some segments := by
  obtain ⟨texts, nonempty, written, rfl⟩ := writes
  induction written with
  | nil => exact absurd rfl nonempty
  | @cons text segment texts segments here written ih =>
    have textSome := ne_nil_of_writesSegment here
    have segmentSome := segment_ne_nil_of_writesSegment here
    cases written with
    | nil =>
      have parsed := parseSegment_append here (.inl rfl)
      rw [append_nil] at parsed
      rw [intercalate_singleton, parseSegments_eq textSome, parsed]
      exact ⟨textSome, by simp [segmentsAfter, segmentSome]⟩
    | @cons second _ texts _ _ _ =>
      obtain ⟨restSome, rest⟩ := ih (cons_ne_nil _ _)
      have parsed := parseSegment_append here (.inr ⟨['.'].intercalate (second :: texts), rfl⟩)
      have isPath : ['.'].intercalate (text :: second :: texts) =
          text ++ '.' :: ['.'].intercalate (second :: texts) := by
        rfl
      have pathSome : text ++ '.' :: ['.'].intercalate (second :: texts) ≠ [] := by simp
      rw [isPath, parseSegments_eq pathSome, parsed]
      exact ⟨pathSome, by simp [segmentsAfter, segmentSome, restSome, rest]⟩

theorem writesPath_of_parseSegments (nonempty : path ≠ [])
    (parsed : parseSegments path = some segments) : WritesPath path segments := by
  induction length : path.length using Nat.strong_induction_on generalizing path segments with
  | _ size ih =>
    rw [parseSegments_eq nonempty] at parsed
    obtain ⟨⟨segment, rest⟩, isSegment, isAfter⟩ := Option.bind_eq_some_iff.mp parsed
    dsimp only [segmentsAfter] at isAfter
    split_ifs at isAfter with segmentNone restNone dot
    · cases isAfter
      obtain ⟨text, writes, isText⟩ := exists_writesSegment isSegment segmentNone
      refine ⟨[text], cons_ne_nil _ _, .cons writes .nil, ?_⟩
      rw [isText, restNone, append_nil, intercalate_singleton]
    · obtain ⟨others, isOthers, rfl⟩ := Option.map_eq_some_iff.mp isAfter
      obtain ⟨text, writes, isText⟩ := exists_writesSegment isSegment segmentNone
      have isRest : rest = '.' :: rest.tail := (cons_head?_tail dot.1).symm
      have shorter : rest.tail.length < size := by
        have bound := length_parseSegment isSegment
        rw [isRest, length_cons] at bound
        omega
      obtain ⟨texts, someTexts, written, isTail⟩ := ih _ shorter dot.2 isOthers rfl
      refine ⟨text :: texts, cons_ne_nil _ _, .cons writes written, ?_⟩
      rw [isText, isRest, isTail, intercalate_cons_of_ne_nil someTexts, append_assoc]
      rfl

/-! ## Accepted and written paths -/

theorem nil_notMem_of_writesSegments {texts : List Text}
    (written : Forall₂ WritesSegment texts segments) : [] ∉ segments := by
  induction written with
  | nil => simp
  | cons here _ ih => simp [(segment_ne_nil_of_writesSegment here).symm, ih]

theorem fromSegments_of_writesPath (writes : WritesPath path segments) :
    FieldPath.fromSegments segments = .ok (.field segments) := by
  obtain ⟨texts, nonempty, written, _⟩ := writes
  have someSegments : segments ≠ [] := by
    rintro rfl
    exact nonempty (forall₂_nil_right_iff.mp written)
  have noneEmpty := nil_notMem_of_writesSegments written
  rw [FieldPath.fromSegments]
  simpa [someSegments] using noneEmpty

theorem writesPath_name : WritesPath "__name__".toList ["__name__".toList] :=
  ⟨["__name__".toList], cons_ne_nil _ _, .cons (.simple (by decide)) .nil, rfl⟩

theorem parseWire_eq_ok {result : FieldPath} : FieldPath.parseWire path = .ok result ↔
      (path = "__name__".toList ∧ result = .documentId) ∨
      (path ≠ "__name__".toList ∧ ∃ segments, WritesPath path segments ∧
        result = .field segments) := by
  rw [FieldPath.parseWire]
  split_ifs with isName
  · simp [isName, eq_comm]
  · simp only [isName, false_and, false_or, ne_eq, not_false_eq_true, true_and]
    cases parsed : parseSegments path with
    | none =>
      simp only [reduceCtorEq, false_iff]
      rintro ⟨segments, writes, rfl⟩
      rw [(parseSegments_of_writesPath writes).2] at parsed
      cases parsed
    | some segments =>
      dsimp only
      constructor
      · intro accepted
        have nonempty : path ≠ [] := by
          rintro rfl
          rw [parseSegments] at parsed
          cases parsed
          cases accepted
        have writes := writesPath_of_parseSegments nonempty parsed
        rw [fromSegments_of_writesPath writes] at accepted
        cases accepted
        exact ⟨segments, writes, rfl⟩
      · rintro ⟨others, writes, rfl⟩
        have same := (parseSegments_of_writesPath writes).2
        rw [parsed] at same
        cases same
        exact fromSegments_of_writesPath writes

theorem quotes_escaped (segment : Text) :
    Quotes (replaceChar '\x60' ['\\', '\x60'] (replaceChar '\\' ['\\', '\\'] segment)) segment := by
  induction segment with
  | nil => exact .nil
  | cons character segment ih =>
    by_cases isEscape : character = '\\'
    · subst isEscape
      exact .escaped ih
    · by_cases isQuote : character = '\x60'
      · subst isQuote
        exact .escaped ih
      · have unchanged : replaceChar '\x60' ['\\', '\x60']
            (replaceChar '\\' ['\\', '\\'] (character :: segment)) =
              character :: replaceChar '\x60' ['\\', '\x60']
                (replaceChar '\\' ['\\', '\\'] segment) := by
          simp [replaceChar, isEscape, isQuote]
        rw [unchanged]
        exact .plain isQuote isEscape ih

theorem writesSegment_configSegment (nonempty : segment ≠ []) :
    WritesSegment (configSegment segment) segment := by
  rw [configSegment]
  split_ifs with isSimple
  · exact .simple isSimple
  · exact .quoted (quotes_escaped segment) nonempty

theorem writesPath_configName (nonempty : segments ≠ [])
    (noneEmpty : ∀ segment ∈ segments, segment ≠ []) :
    WritesPath (['.'].intercalate (segments.map configSegment)) segments := by
  refine ⟨segments.map configSegment, by simpa using nonempty, ?_, rfl⟩
  rw [forall₂_map_left_iff, forall₂_same]
  exact fun segment member => writesSegment_configSegment (noneEmpty segment member)

/-- Paths are read back from their text, and the reader accepts exactly the texts of paths with
non-empty segments. -/
theorem field_paths_round_trip :
    (∀ segments : List Text, segments ≠ [] → (∀ segment ∈ segments, segment ≠ []) →
      segments ≠ ["__name__".toList] →
      ∃ name, FieldPath.configName (.field segments) = some name ∧
        FieldPath.parseWire name = .ok (.field segments)) ∧
    ∀ path, (∃ result, FieldPath.parseWire path = .ok result) ↔
      ∃ segments, WritesPath path segments := by
  constructor
  · intro segments nonempty noneEmpty notName
    have writes := writesPath_configName nonempty noneEmpty
    refine ⟨_, rfl, parseWire_eq_ok.mpr (.inr ⟨fun isName => ?_, segments, writes, rfl⟩)⟩
    have parsed := (parseSegments_of_writesPath writes).2
    rw [isName, (parseSegments_of_writesPath writesPath_name).2] at parsed
    exact notName (Option.some.inj parsed).symm
  · intro path
    simp only [parseWire_eq_ok]
    constructor
    · rintro ⟨result, ⟨rfl, _⟩ | ⟨_, segments, writes, _⟩⟩
      · exact ⟨_, writesPath_name⟩
      · exact ⟨segments, writes⟩
    · rintro ⟨segments, writes⟩
      by_cases isName : path = "__name__".toList
      · exact ⟨_, .inl ⟨isName, rfl⟩⟩
      · exact ⟨_, .inr ⟨isName, segments, writes, rfl⟩⟩

theorem field_paths_round_trip_sample :
    ∃ name, FieldPath.configName (.field ["a.b".toList, "c".toList]) = some name ∧
      FieldPath.parseWire name = .ok (.field ["a.b".toList, "c".toList]) :=
  field_paths_round_trip.1 _ (by decide) (by decide) (by decide)

/-- Empty backquotes are not accepted. -/
theorem empty_backquotes_rejected :
    Quotes [] [] ∧ FieldPath.parseWire ('\x60' :: [] ++ ['\x60']) = .error .invalidFieldPath := by
  refine ⟨.nil, ?_⟩
  rw [FieldPath.parseWire, parseSegments_eq (by decide)]
  rfl

end Firenook.QueryEngine
