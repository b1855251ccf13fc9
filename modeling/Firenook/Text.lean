import Mathlib

/-!
# Rust strings

A Rust `str` is a sequence of Unicode scalar values whose length, order and
stored form are those of its UTF-8 bytes.  This file fixes that representation
and the handful of `str` operations a path-keyed store relies on: byte order,
splitting at a separator, removing a fixed beginning or end, and reading a
signed decimal number.
-/

namespace Firenook

open Std List

theorem lawfulEqCmp_compareLex {γ α β : Type} [Ord α] [Ord β]
    [LawfulEqOrd α] [LawfulEqOrd β] {first : γ → α} {second : γ → β}
    (determined : ∀ {x y}, first x = first y → second x = second y → x = y) :
    LawfulEqCmp (compareLex (compareOn first) (compareOn second)) where
  compare_self {x} := by simp [compareOn]
  eq_of_compare {x y} equal := by
    obtain ⟨firstEq, secondEq⟩ := Ordering.then_eq_eq.mp equal
    have sameFirst : first x = first y := LawfulEqCmp.eq_of_compare firstEq
    have sameSecond : second x = second y := LawfulEqCmp.eq_of_compare secondEq
    exact determined sameFirst sameSecond

/-- A Rust `str`, as the sequence of its Unicode scalar values. -/
abbrev Text := List Char

namespace Text

variable {text : Text} {separator : Char}

def bytes (text : Text) : List UInt8 := text.flatMap String.utf8EncodeChar

/-- `str::len`, which counts bytes. -/
def byteLength (text : Text) : Nat := text.bytes.length

def fromUtf8 (bytes : List UInt8) : Option Text :=
  (ByteArray.mk bytes.toArray).utf8Decode?.map Array.toList

@[simp]
theorem bytes_append (first second : Text) :
    bytes (first ++ second) = bytes first ++ bytes second := by
  simp [bytes]

@[simp]
theorem bytes_cons (char : Char) (text : Text) :
    bytes (char :: text) = String.utf8EncodeChar char ++ bytes text := by
  simp [bytes]

theorem byteArray_mk_bytes (text : Text) : ByteArray.mk text.bytes.toArray = utf8Encode text := by
  apply ByteArray.ext
  simp [bytes, utf8Encode]

@[simp]
theorem fromUtf8_bytes (text : Text) : fromUtf8 text.bytes = some text := by
  simp [fromUtf8, byteArray_mk_bytes]

theorem bytes_injective : Function.Injective bytes := by
  intro first second equal
  have decoded := congrArg fromUtf8 equal
  simpa using decoded

@[simp]
theorem bytes_inj {first second : Text} : first.bytes = second.bytes ↔ first = second :=
  bytes_injective.eq_iff

theorem bytes_ne_nil (nonempty : text ≠ []) : text.bytes ≠ [] :=
  fun empty => nonempty (bytes_injective empty)

theorem ne_of_mem_bytes {byte : UInt8} (member : byte ∈ text.bytes) : byte ≠ 255 := by
  obtain ⟨char, _, inside⟩ := mem_flatMap.mp member
  have bound : byte.toNat ≤ 247 := by
    simp only [String.utf8EncodeChar] at inside
    split_ifs at inside <;> simp only [mem_cons, not_mem_nil, or_false] at inside <;>
      rcases inside with rfl | rfl | rfl | rfl <;> simp only [UInt8.toNat_ofNat'] <;> omega
  rintro rfl
  exact absurd bound (by decide)

/-- `str::cmp`: byte order. -/
def cmp (first second : Text) : Ordering := compare first.bytes second.bytes

instance : TransCmp cmp := inferInstanceAs (TransCmp (compareOn bytes))

instance : LawfulEqCmp cmp where
  eq_of_compare equal := bytes_injective (LawfulEqCmp.eq_of_compare equal)

/-- `str::split(separator)`: always at least one piece. -/
def split (separator : Char) (text : Text) : List Text := text.splitOn separator

def rsplitOnce (separator : Char) (text : Text) : Option (Text × Text) :=
  let pieces := text.split separator
  if pieces.length < 2 then none
  else some ([separator].intercalate pieces.dropLast, pieces.getLastD [])

theorem split_append_cons (separator : Char) (front last : Text) :
    (front ++ separator :: last).split separator = front.split separator ++ last.split separator :=
  splitOn_append_cons_self front last

theorem split_of_not_mem (absent : separator ∉ text) : text.split separator = [text] :=
  splitOn_eq_singleton absent

theorem rsplitOnce_append_cons {last : Text} (absent : separator ∉ last)
    (front : Text) : (front ++ separator :: last).rsplitOnce separator = some (front, last) := by
  have pieces := split_append_cons separator front last
  rw [split_of_not_mem absent] at pieces
  simp only [rsplitOnce, pieces]
  rw [split]
  simp

theorem rsplitOnce_eq_some {front last : Text} : text.rsplitOnce separator = some (front, last) ↔
      text = front ++ separator :: last ∧ separator ∉ last := by
  constructor
  · intro found
    by_cases present : separator ∈ text
    · obtain ⟨after, before, splitAt, absent⟩ :=
        eq_append_cons_of_mem (mem_reverse.mpr present)
      have whole : text = before.reverse ++ separator :: after.reverse := by
        rw [← reverse_reverse text, splitAt]
        simp
      have absent : separator ∉ after.reverse := by simpa using absent
      rw [whole, rsplitOnce_append_cons absent] at found
      cases found
      exact ⟨whole, absent⟩
    · simp [rsplitOnce, split_of_not_mem present] at found
  · rintro ⟨rfl, absent⟩
    exact rsplitOnce_append_cons absent front

theorem intercalate_append (separator : Char) {front back : List Text} (frontSome : front ≠ [])
    (backSome : back ≠ []) : [separator].intercalate (front ++ back) =
      [separator].intercalate front ++ separator :: [separator].intercalate back := by
  induction front with
  | nil => exact absurd rfl frontSome
  | cons piece front ih =>
    cases front with
    | nil => simp [intercalate_cons_of_ne_nil backSome]
    | cons next front =>
      have joined := ih (cons_ne_nil next front)
      rw [cons_append] at joined
      rw [cons_append, cons_append, intercalate_cons_cons, joined, intercalate_cons_cons]
      simp only [append_assoc]

def lastPiece (separator : Char) (text : Text) : Text := (text.split separator).getLastD []

def stripPrefix (start text : Text) : Option Text :=
  if start.isPrefixOf text then some (text.drop start.length) else none

theorem stripPrefix_eq_some {start rest : Text} :
    stripPrefix start text = some rest ↔ text = start ++ rest := by
  rw [stripPrefix]
  split_ifs with starts
  · obtain ⟨rest, rfl⟩ := isPrefixOf_iff_prefix.mp starts
    simp
  · refine ⟨nofun, ?_⟩
    rintro rfl
    simp at starts

def stripSuffix (ending text : Text) : Option Text :=
  if ending.isSuffixOf text then
    some (text.take (text.length - ending.length))
  else none

def digitsValue (digits : Text) : Nat :=
  digits.foldl (fun value digit => 10 * value + (digit.toNat - '0'.toNat)) 0

/-- `str::parse::<i64>` on an optional minus sign followed by ASCII digits. -/
def parseInt64 (digits : Text) : Option Int :=
  let value : Int :=
    match stripPrefix ['-'] digits with
    | some magnitude => -(digitsValue magnitude : Int)
    | none => digitsValue digits
  if -2 ^ 63 ≤ value ∧ value < 2 ^ 63 then some value else none

theorem parseInt64_bounds {digits : Text} {value : Int} (parsed : parseInt64 digits = some value) :
    -2 ^ 63 ≤ value ∧ value < 2 ^ 63 := by
  simp only [parseInt64] at parsed
  split_ifs at parsed with bounds
  cases parsed
  exact bounds

end Text
end Firenook
