import Firenook.OrderedMaps

/-!
# Encoded images of maps

A table of encoded keys and values is the image of a map when its entries are
exactly the encodings of the map's entries.  Encodings are relations, so that they
may be partial; two keys may share an encoding, but not two keys of the map.
-/

namespace Firenook.EncodedMaps

open Std OrderedMaps

variable {κ ν β ω : Type} {cmp : κ → κ → Ordering} {byteCmp : β → β → Ordering}
  [TransCmp cmp] [TransCmp byteCmp]

structure Image (encodeKey : κ → β → Prop) (encodeValue : κ → ν → ω → Prop)
    (table : ExtTreeMap β ω byteCmp) (map : ExtTreeMap κ ν cmp) : Prop where
  stored : ∀ key value, map[key]? = some value →
    ∃ bytes word, encodeKey key bytes ∧ encodeValue key value word ∧ table[bytes]? = some word
  source : ∀ bytes word, table[bytes]? = some word →
    ∃ key value, map[key]? = some value ∧ encodeKey key bytes ∧ encodeValue key value word

def Separated (encodeKey : κ → β → Prop) (map : ExtTreeMap κ ν cmp) : Prop :=
  ∀ first second bytes, first ∈ map → second ∈ map →
    encodeKey first bytes → encodeKey second bytes → first = second

theorem image_empty {encodeKey : κ → β → Prop} {encodeValue : κ → ν → ω → Prop} :
    Image encodeKey encodeValue (∅ : ExtTreeMap β ω byteCmp)
    (∅ : ExtTreeMap κ ν cmp) where
  stored := by simp
  source := by simp

variable [LawfulEqCmp cmp] [LawfulEqCmp byteCmp] [DecidableEq κ] [DecidableEq β]
  {encodeKey : κ → β → Prop} {encodeValue : κ → ν → ω → Prop}
  {table : ExtTreeMap β ω byteCmp} {map : ExtTreeMap κ ν cmp}

namespace Image

section

variable (image : Image encodeKey encodeValue table map)
  (functional : ∀ key first second, encodeKey key first → encodeKey key second → first = second)
include image functional

theorem insert {key : κ} {value : ν} {bytes : β} {word : ω} (encodedKey : encodeKey key bytes)
    (encodedValue : encodeValue key value word)
    (separated : Separated encodeKey (map.insert key value)) :
    Image encodeKey encodeValue (table.insert bytes word) (map.insert key value) where
  stored := by
    intro other otherValue present
    rw [getElem?_insert_eq] at present
    split_ifs at present with same
    · cases present
      subst same
      exact ⟨bytes, word, encodedKey, encodedValue, by simp⟩
    · obtain ⟨otherBytes, otherWord, encodedOther, encodedOtherValue, found⟩ :=
        image.stored other otherValue present
      refine ⟨otherBytes, otherWord, encodedOther, encodedOtherValue, ?_⟩
      have differs : bytes ≠ otherBytes := by
        rintro rfl
        refine same (separated key other bytes (by simp) ?_ encodedKey encodedOther)
        simp [ExtTreeMap.mem_iff_isSome_getElem?, present, same]
      rw [getElem?_insert_eq, if_neg differs, found]
  source := by
    intro otherBytes otherWord found
    rw [getElem?_insert_eq] at found
    split_ifs at found with same
    · cases found
      subst same
      exact ⟨key, value, by simp, encodedKey, encodedValue⟩
    · obtain ⟨other, otherValue, present, encodedOther, encodedOtherValue⟩ :=
        image.source otherBytes otherWord found
      refine ⟨other, otherValue, ?_, encodedOther, encodedOtherValue⟩
      have differs : key ≠ other := by
        rintro rfl
        exact same (functional key bytes otherBytes encodedKey encodedOther)
      rw [getElem?_insert_eq, if_neg differs, present]

theorem erase {key : κ} {bytes : β} (encodedKey : encodeKey key bytes)
    (separated : ∀ other, other ∈ map → encodeKey other bytes → other = key) :
    Image encodeKey encodeValue (table.erase bytes) (map.erase key) where
  stored := by
    intro other otherValue present
    rw [getElem?_erase] at present
    split_ifs at present with same
    obtain ⟨otherBytes, otherWord, encodedOther, encodedOtherValue, found⟩ :=
      image.stored other otherValue present
    refine ⟨otherBytes, otherWord, encodedOther, encodedOtherValue, ?_⟩
    have differs : bytes ≠ otherBytes := by
      rintro rfl
      have member : other ∈ map := by
        simp [ExtTreeMap.mem_iff_isSome_getElem?, present]
      exact same (separated other member encodedOther).symm
    rw [getElem?_erase, if_neg differs, found]
  source := by
    intro otherBytes otherWord found
    rw [getElem?_erase] at found
    split_ifs at found with same
    obtain ⟨other, otherValue, present, encodedOther, encodedOtherValue⟩ :=
      image.source otherBytes otherWord found
    refine ⟨other, otherValue, ?_, encodedOther, encodedOtherValue⟩
    have differs : key ≠ other := by
      rintro rfl
      exact same (functional key bytes otherBytes encodedKey encodedOther)
    rw [getElem?_erase, if_neg differs, present]

end

end Image
end Firenook.EncodedMaps
