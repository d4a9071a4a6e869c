import Burlmd.Editor.Splice
import Burlmd.Markdown.LinkedTree
import Burlmd.Markdown.SpanCoherence

/-!
# The source of a selection

The map and the splicer resolve a selection alike, and in a coherent map no selection of one Block
turns over.
-/

namespace Burlmd.Editor

open Markdown
open Utf8

variable {source : Text} {spans : SpanMap}

/-- The splicer resolves what the map does, and names the error where the map has none. -/
theorem resolveRange_toOption (range : RenderedRange) :
    (resolveRange source spans range).toOption = spans.resolveRange source range := by
  unfold resolveRange SpanMap.resolveRange
  cases spans.resolveOffset source range.start_path range.start_offset with
  | none => rfl
  | some start =>
    cases spans.resolveOffset source range.end_path range.end_offset with
    | none => rfl
    | some stop =>
      dsimp only [Option.bind_some]
      by_cases inverted : stop.stop < start.start
      · rw [if_pos inverted, if_pos inverted]
        rfl
      · rw [if_neg inverted, if_neg inverted]
        rfl

/-- Two offsets that resolve in their order select what is between them. -/
theorem resolveRange_of_selects {index first second : Nat} {block : BlockSpan}
    {one two : SourceResolution} (selects : spans.Selects source index block first second one two) :
    resolveRange source spans ⟨block.path, first, block.path, second⟩ =
      .ok ⟨one.start, two.stop⟩ := by
  unfold resolveRange
  dsimp only
  rw [selects.first_resolved]
  dsimp only
  rw [selects.second_resolved]
  exact if_neg (Nat.not_lt.mpr selects.ordered.across)

/-- In a coherent map all offsets of a Block resolve, to character boundaries of it and in their
order; a selection is not turned over and holds every character between its ends; and the map and
the splicer resolve every selection alike. -/
theorem selections_resolve (coherent : spans.Coherent source) (linked : spans.Linked source)
    {index first second : Nat} {block : BlockSpan} (here : spans.blocks[index]? = some block)
    (lt : first < second) (high : second ≤ block.rendered_len) :
    (∃ one two, spans.Selects source index block first second one two ∧
      resolveRange source spans ⟨block.path, first, block.path, second⟩ =
        .ok ⟨one.start, two.stop⟩) ∧
      ∀ range, spans.resolveRange source range = (resolveRange source spans range).toOption := by
  constructor
  · rcases coherent.exists_selects linked here lt high with ⟨one, two, selects⟩
    exact ⟨one, two, selects, resolveRange_of_selects selects⟩
  · intro range
    exact (resolveRange_toOption range).symm

/-- A quoted paragraph that ends with a code span. -/
def quotedCode : EventStream "> a `b`".toList where
  forest :=
    .node .blockQuote ⟨0, 7⟩
      (.node .paragraph ⟨2, 7⟩
        (.leaf (.text "a ".toList) ⟨2, 4⟩ (.leaf (.code "b".toList) ⟨4, 7⟩ .nil))
        .nil)
      .nil
  conforms := by decide
  placed := by decide

theorem quotedCode_resolves :
    (∃ one two, (parseNote "> a `b`".toList [] quotedCode.events).spans.Selects "> a `b`".toList 1
      ⟨[0], ⟨0, 7⟩, [], 3, [0]⟩ 1 3 one two ∧
      resolveRange "> a `b`".toList (parseNote "> a `b`".toList [] quotedCode.events).spans
        ⟨[0], 1, [0], 3⟩ = .ok ⟨one.start, two.stop⟩) ∧
      ∀ range, (parseNote "> a `b`".toList [] quotedCode.events).spans.resolveRange
        "> a `b`".toList range =
          (resolveRange "> a `b`".toList (parseNote "> a `b`".toList [] quotedCode.events).spans
            range).toOption :=
  selections_resolve ((parseNote_coherent_iff quotedCode []).mpr (by decide)).1
    (parseNote_linked quotedCode []) (by decide) (by decide) (by decide)

end Burlmd.Editor
