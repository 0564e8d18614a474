/-
Byte offsets in texts. An offset is valid if a beginning of the text has that many bytes. There,
and nowhere else, a character stands or the text ends.

* `Text.get?_append`, `Text.suffixAt_append`: the character at a valid offset, and the text from
  there on;
* `Text.exists_append_of_get?`, `Text.exists_append_of_extract`: at any other offset there is
  nothing;
* `Text.isValid_of_get?`: **after a character an offset is valid again**;
* `Text.suffixAt_of_get?`, `Text.suffixAt_of_get?_eq_none`: what a character leaves of the text.
-/
import Mathlib.Data.String.Basic
import Mathlib.Tactic.Lemma

namespace StackVM

namespace Text

open String (utf8Len)

/-- The text from an offset on. -/
abbrev suffixAt (s : String) (offset : Nat) : String :=
  String.Pos.Raw.extract s ⟨offset⟩ s.rawEndPos

variable {s : String} {offset : Nat} {c : Char}

/-! ### Valid offsets -/

lemma append_eq_ofList (p q : String) : p ++ q = String.ofList (p.toList ++ q.toList) := by
  rw [String.ofList_append, String.ofList_toList, String.ofList_toList]

lemma get?_append (p q : String) :
    String.Pos.Raw.get? (p ++ q) ⟨p.utf8ByteSize⟩ = q.toList.head? := by
  rw [← String.utf8Len_toList, append_eq_ofList]
  exact String.get?_of_valid p.toList q.toList

lemma suffixAt_append (p q : String) : suffixAt (p ++ q) p.utf8ByteSize = q := by
  have hvalid := String.extract_of_valid p.toList q.toList []
  rwa [List.append_nil, ← append_eq_ofList, String.ofList_toList, String.utf8Len_toList,
    String.utf8Len_toList, ← String.utf8ByteSize_append] at hvalid

lemma isValid_append (p q : String) : String.Pos.Raw.IsValid (p ++ q) ⟨p.utf8ByteSize⟩ :=
  String.Pos.Raw.isValid_iff_exists_append.mpr ⟨p, q, rfl, rfl⟩

/-! ### Other offsets -/

/-- A character that is found comes after as many bytes as were looked for. -/
lemma exists_append_of_utf8GetAux? {cs : List Char} {start : Nat}
    (h : String.Pos.Raw.utf8GetAux? cs ⟨start⟩ ⟨offset⟩ = some c) :
    ∃ ps qs, cs = ps ++ c :: qs ∧ offset = start + utf8Len ps := by
  induction cs generalizing start with
  | nil => cases h
  | cons d cs ih =>
      rw [String.Pos.Raw.utf8GetAux?] at h
      split at h
      next heq =>
        cases h
        cases heq
        exact ⟨[], cs, rfl, rfl⟩
      next =>
        obtain ⟨ps, qs, rfl, rfl⟩ := ih h
        exact ⟨d :: ps, qs, rfl, by simp only [String.utf8Len_cons]; omega⟩

/-- A character stands between a beginning of the text and the rest of it. -/
lemma exists_append_of_get? (h : String.Pos.Raw.get? s ⟨offset⟩ = some c) :
    ∃ p q, s = p ++ (String.singleton c ++ q) ∧ p.utf8ByteSize = offset := by
  obtain ⟨ps, qs, hs, hoffset⟩ := exists_append_of_utf8GetAux? h
  refine ⟨String.ofList ps, String.ofList qs, ?_, ?_⟩
  · rw [← String.ofList_toList (s := s), hs]
    simp only [append_eq_ofList, String.toList_ofList, String.toList_singleton]
    rfl
  · rw [String.utf8ByteSize_ofList, hoffset, Nat.zero_add]

/-- A part of a text that is not empty starts at a valid offset. -/
lemma exists_append_of_extract {cs : List Char} {start : Nat} {stop : String.Pos.Raw}
    (h : String.Pos.Raw.extract.go₁ cs ⟨start⟩ ⟨offset⟩ stop ≠ []) :
    ∃ ps qs, cs = ps ++ qs ∧ offset = start + utf8Len ps := by
  induction cs generalizing start with
  | nil => exact absurd rfl h
  | cons d cs ih =>
      rw [String.Pos.Raw.extract.go₁] at h
      split at h
      next heq =>
        cases heq
        exact ⟨[], d :: cs, rfl, rfl⟩
      next =>
        obtain ⟨ps, qs, rfl, rfl⟩ := ih h
        exact ⟨d :: ps, qs, rfl, by simp only [String.utf8Len_cons]; omega⟩

/-! ### Steps -/

/-- **After a character an offset is valid again.** -/
lemma isValid_of_get? (h : String.Pos.Raw.get? s ⟨offset⟩ = some c) :
    String.Pos.Raw.IsValid s ⟨offset + c.utf8Size⟩ := by
  obtain ⟨p, q, rfl, rfl⟩ := exists_append_of_get? h
  have hvalid := isValid_append (p ++ String.singleton c) q
  rwa [String.append_assoc, String.utf8ByteSize_append, String.utf8ByteSize_singleton] at hvalid

/-- A character leaves the text after it. -/
lemma suffixAt_of_get? (h : String.Pos.Raw.get? s ⟨offset⟩ = some c) :
    (suffixAt s offset).toList = c :: (suffixAt s (offset + c.utf8Size)).toList := by
  obtain ⟨p, q, rfl, rfl⟩ := exists_append_of_get? h
  have hnext := suffixAt_append (p ++ String.singleton c) q
  rw [String.append_assoc, String.utf8ByteSize_append, String.utf8ByteSize_singleton] at hnext
  rw [suffixAt_append, hnext]
  simp

/-- Where there is no character, nothing of the text is left. -/
lemma suffixAt_of_get?_eq_none (h : String.Pos.Raw.get? s ⟨offset⟩ = none) :
    (suffixAt s offset).toList = [] := by
  by_contra hne
  have hgo : String.Pos.Raw.extract.go₁ s.toList ⟨0⟩ ⟨offset⟩ s.rawEndPos ≠ [] := by
    intro hnil
    rw [suffixAt, String.Pos.Raw.extract] at hne
    split at hne
    next => exact hne rfl
    next => exact hne (by rw [show (0 : String.Pos.Raw) = ⟨0⟩ from rfl, hnil]; rfl)
  obtain ⟨ps, qs, hs, rfl⟩ := exists_append_of_extract hgo
  have hs' : s = String.ofList ps ++ String.ofList qs := by
    rw [← String.ofList_append, ← hs, String.ofList_toList]
  rw [Nat.zero_add, ← String.utf8ByteSize_ofList] at h hne
  rw [hs', get?_append, List.head?_eq_none_iff] at h
  rw [hs', suffixAt_append] at hne
  exact hne h

end Text

end StackVM
