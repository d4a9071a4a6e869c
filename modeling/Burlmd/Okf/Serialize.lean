import Burlmd.Library.CommonMark
import Burlmd.Okf.Links

/-!
# What a serialized destination reads as

Escaping by a backslash is undone by a reader of CommonMark, as long as the backslash
itself is escaped and nothing but ASCII punctuation is.
-/

namespace Burlmd.Okf

open Utf8 (Text)
open CommonMark

section Escape

variable {special : Char → Bool}

theorem escape_cons (c : Char) (rest : Text) :
    escape special (c :: rest) = (if special c then ['\\', c] else [c]) ++ escape special rest :=
  List.flatMap_cons

theorem unescape_escape (backslash : special '\\' = true)
    (punctuation : ∀ c, special c = true → isAsciiPunctuation c = true) (text : Text) :
    unescape (escape special text) = text := by
  induction text with
  | nil => rfl
  | cons c rest ih =>
    rw [escape_cons]
    split
    · rename_i marked
      rw [List.cons_append, List.singleton_append, unescape.eq_def]
      simp only [punctuation c marked, if_true, ih]
    · rename_i plain
      have other : c ≠ '\\' := by
        intro same
        rw [same] at plain
        exact plain backslash
      rw [List.singleton_append, unescape.eq_def]
      simp only [other, if_false, ih]

theorem entityFree_escape (backslash : special '\\' = true) (ampersand : special '&' = true)
    (punctuation : ∀ c, special c = true → isAsciiPunctuation c = true) (text : Text) :
    entityFree (escape special text) = true := by
  induction text with
  | nil => rfl
  | cons c rest ih =>
    rw [escape_cons]
    split
    · rename_i marked
      rw [List.cons_append, List.singleton_append, entityFree.eq_def]
      simp only [punctuation c marked, if_true, ih]
    · rename_i plain
      have apart (d : Char) (marked : special d = true) : c ≠ d := by
        intro same
        rw [same] at plain
        exact plain marked
      rw [List.singleton_append, entityFree.eq_def]
      simp [apart '\\' backslash, apart '&' ampersand, ih]

theorem pointyBody_escape (backslash : special '\\' = true) (opening : special '<' = true)
    (closing : special '>' = true)
    (punctuation : ∀ c, special c = true → isAsciiPunctuation c = true) (text : Text) :
    pointyBody (escape special text) = true ↔ ∀ c ∈ text, isLineEnding c = false := by
  induction text with
  | nil => simp [escape, pointyBody]
  | cons c rest ih =>
    rw [escape_cons, List.forall_mem_cons, ← ih]
    split
    · rename_i marked
      have inner : isLineEnding c = false := by
        have sign := punctuation c marked
        by_contra ending
        simp only [isLineEnding, Bool.not_eq_false, Bool.or_eq_true, decide_eq_true_eq] at ending
        rcases ending with same | same <;> subst same <;> revert sign <;> decide
      rw [List.cons_append, List.singleton_append, pointyBody.eq_def]
      simp only [punctuation c marked, if_true, inner, true_and]
    · rename_i plain
      have apart (d : Char) (marked : special d = true) : c ≠ d := by
        intro same
        rw [same] at plain
        exact plain marked
      rw [List.singleton_append, pointyBody.eq_def]
      simp [apart '\\' backslash, apart '<' opening, apart '>' closing]

end Escape

theorem punctuation_of_destination (c : Char)
    (marked : (decide (c ∈ ['\\', '<', '>', '&'])) = true) : isAsciiPunctuation c = true := by
  simp only [List.mem_cons, List.not_mem_nil, or_false, decide_eq_true_eq] at marked
  rcases marked with same | same | same | same <;> subst same <;> decide

theorem unescape_escapeDestination (path : Text) : unescape (escapeDestination path) = path :=
  unescape_escape (by decide) punctuation_of_destination path

/-- A serialized destination reads as its path, unless a line ending in the path cuts it. -/
theorem readsAs_serializeDestination {path url : Text} :
    ReadsAs (serializeDestination path) url ↔ url = path ∧ ∀ c ∈ path, isLineEnding c = false := by
  have pointy := @pointyBody_escape (fun c => decide (c ∈ ['\\', '<', '>', '&'])) (by decide)
    (by decide) (by decide) punctuation_of_destination path
  constructor
  · intro reads
    rcases reads with ⟨body, same, accepted, -, url⟩
    rw [serializeDestination, List.singleton_append, List.cons_append, List.cons_append] at same
    have isBody := List.append_cancel_right (List.cons.inj same).2
    rw [← isBody] at accepted url
    rw [unescape_escapeDestination] at url
    exact ⟨url.symm, pointy.mp accepted⟩
  · intro clean
    refine ⟨escapeDestination path, ?_, pointy.mpr clean.2, ?_, ?_⟩
    · rw [serializeDestination, List.singleton_append]
    · exact entityFree_escape (by decide) (by decide) punctuation_of_destination path
    · rw [unescape_escapeDestination, clean.1]

end Burlmd.Okf
