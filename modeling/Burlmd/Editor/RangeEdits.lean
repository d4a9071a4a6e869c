import Burlmd.Editor.Splice
import Burlmd.Library.Extremum

/-!
# Range edits

A selection over several Blocks is copied, cut or replaced as one range of the text, and so is the
whole body of a Note. The caret is looked up in the parse of the new text.
-/

namespace Burlmd.Editor

open Extremum
open Markdown
open Utf16
open Utf8

variable (env : Surroundings)

inductive RangeEditLocation where
  | block (block_path : BlockPath) (source_offset_utf16 : Nat)
  | phantom (insertion_index : Nat)
  deriving DecidableEq, Repr

/-- The leaf that a range edit leaves the caret in: the last to start of those around the join, or
else the first to start after it, or else the last to end before it. -/
def joinLeaf? (spans : SpanMap) (join : Nat) : Option BlockSpan :=
  let leaves := spans.blocks.filter BlockSpan.isLeaf
  ((lastMax? (fun block => block.source.start)
      (leaves.filter fun block => block.source.start ≤ join && join ≤ block.source.stop)).or
    (firstMin? (fun block => block.source.start)
      (leaves.filter fun block => join ≤ block.source.start))).or
    (lastMax? (fun block => block.source.stop)
      (leaves.filter fun block => block.source.stop ≤ join))

def rangeEditCaret (source : Text) (spans : SpanMap) (join : Nat) :
    Except AppError RangeEditLocation :=
  if ¬ IsBoundary source join then
    .error (.parseError ("range replacement join ".toList ++ shown join ++
      " is not a source character boundary".toList))
  else
    match joinLeaf? spans join with
    | none =>
        let insertion_index := (spans.blocks.filter fun block =>
          block.path.length = 1 && block.source.stop ≤ join).length
        .ok (.phantom insertion_index)
    | some leaf =>
        let caret_source_offset := clamp join leaf.source.start leaf.source.stop
        match slice? source ⟨leaf.source.start, caret_source_offset⟩ with
        | none =>
            .error (.parseError ("range replacement join ".toList ++ shown caret_source_offset ++
              " is not addressable in resulting leaf ".toList ++ shownPath leaf.path))
        | some before => .ok (.block leaf.path (utf16Len before))

/-- The line ending at the head of a text. -/
def lineEndingLen : Text → Nat
  | '\r' :: '\n' :: _ => 2
  | '\n' :: _ => 1
  | _ => 0

/-- The range of the body: all of the text, or what comes after a conformant frontmatter block and
its line ending. -/
def wholeNoteSourceRange (source : Text) (spans : SpanMap) : Except AppError Range :=
  match spans.frontmatter with
  | none => .ok ⟨0, byteLen source⟩
  | some frontmatter => do
      let raw_frontmatter ← getOr
        (.parseError "frontmatter span is not addressable in this Note".toList) source frontmatter
      if !(env.readFrontmatter raw_frontmatter).isConformant then return ⟨0, byteLen source⟩
      let suffix ← getOr
        (.parseError "frontmatter end is not addressable in this Note".toList) source
        ⟨frontmatter.stop, byteLen source⟩
      let body_start := frontmatter.stop + lineEndingLen suffix
      if ¬ IsBoundary source body_start then
        .error (.parseError "frontmatter boundary is not a source character boundary".toList)
      else return ⟨body_start, byteLen source⟩

/-- The edit of a resolved range, which reports the end of the replacement. -/
def replacing (resolve : Text → SpanMap → Except AppError Range) (replacement : Text) : Edit Nat :=
  fun working live _ => do
    let resolved ← resolve working live.spans
    let new_source ← spliceOr working resolved replacement
    return (new_source, resolved.start + byteLen replacement)

def caretOfJoin : Derivation Nat RangeEditLocation := fun source parsed join =>
  rangeEditCaret source parsed.spans join

def replaceRange (session : Session) (range : RenderedRange) (replacement : Text) :
    Except AppError RangeEditLocation × Session :=
  structuralEditWithResult env session
    (replacing (fun working spans => (resolveRange working spans range).mapError spliceError)
      replacement) caretOfJoin

def deleteRange (session : Session) (range : RenderedRange) :
    Except AppError RangeEditLocation × Session := replaceRange env session range []

def replaceWholeNote (session : Session) (replacement : Text) :
    Except AppError RangeEditLocation × Session :=
  structuralEditWithResult env session (replacing (wholeNoteSourceRange env) replacement)
    caretOfJoin

def deleteWholeNote (session : Session) : Except AppError RangeEditLocation × Session :=
  replaceWholeNote env session []

def copyRangeAsMarkdown (session : Session) (range : RenderedRange) : Except AppError Text := do
  session.refuseWhileConflicted env "copying a range".toList
  (extractRange session.source session.spans range).mapError spliceError

def copyWholeNoteAsMarkdown (session : Session) : Except AppError Text := do
  session.refuseWhileConflicted env "copying the whole Note".toList
  let range ← wholeNoteSourceRange env session.source session.spans
  getOr (.parseError "whole-Note source range is not addressable".toList) session.source range

end Burlmd.Editor
