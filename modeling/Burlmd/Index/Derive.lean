import Mathlib.Data.List.Basic
import Mathlib.Tactic.Common
import Burlmd.Markdown.Parser

/-!
# Deriving the index rows of a Note

A link row exists for every internal link of the parsed tree, whether or not its
target names a Note.
-/

namespace Burlmd.Index

open Utf8 (Text Range slice?)
open Okf (ConceptId conceptIdToPath containingDir slash)
open Markdown

structure LinkEdge where
  target_id : ConceptId
  target_title : Text
  deriving DecidableEq, Repr

mutual

def inlineLinks : InlineElement → List LinkEdge
  | .link target_id _ content =>
      ⟨target_id, renderedInlineText content⟩ :: collectInlineLinks content
  | .externalLink _ content => collectInlineLinks content
  | .text _ => []

def collectInlineLinks : List InlineElement → List LinkEdge
  | [] => []
  | element :: rest => inlineLinks element ++ collectInlineLinks rest

end

mutual

def nodeLinks : AstNode → List LinkEdge
  | .heading _ content | .paragraph content => collectInlineLinks content
  | .list _ items => collectLinks items
  | .listItem content _ => collectLinks content
  | .blockquote nodes => collectLinks nodes
  | .suggestion none local_content incoming_content =>
      collectLinks local_content ++ collectLinks incoming_content
  | .suggestion (some base) local_content incoming_content =>
      collectLinks base ++ collectLinks local_content ++ collectLinks incoming_content
  | .codeBlock .. | .thematicBreak | .image .. => []

def collectLinks : List AstNode → List LinkEdge
  | [] => []
  | node :: rest => nodeLinks node ++ collectLinks rest

end

/-- What the YAML reader reports of a frontmatter block. -/
structure Frontmatter where
  note_type : Option Text
  title : Option Text
  other_keys : List Text
  deriving DecidableEq, Repr

def Frontmatter.empty : Frontmatter := ⟨none, none, []⟩

def Frontmatter.isConformant (frontmatter : Frontmatter) : Bool :=
  match frontmatter.note_type with
  | some note_type => note_type ≠ []
  | none => false

def fileStem (concept_id : ConceptId) : Text := (concept_id.splitOn slash).getLastD []

structure IndexedNote where
  concept_id : ConceptId
  path : Text
  title : Text
  last_modified : Int
  content_hash : Text
  okf_conformant : Bool
  text : Text
  links : List LinkEdge
  deriving DecidableEq, Repr

/-- The rows of one Note; the Markdown and the YAML parser are parameters. -/
def deriveNote (events : Text → List (Event × Range)) (readFrontmatter : Text → Frontmatter)
    (concept_id : ConceptId) (source content_hash : Text) (last_modified : Int) : IndexedNote :=
  let parsed := parseNote source (containingDir concept_id) (events source)
  let frontmatter := ((parsed.spans.frontmatter.bind (slice? source)).map readFrontmatter).getD
    .empty
  { concept_id
    path := conceptIdToPath concept_id
    title := ((frontmatter.title.map trim).filter (· ≠ [])).getD (fileStem concept_id)
    last_modified
    content_hash
    okf_conformant := frontmatter.isConformant
    text := joinRendered parsed.ast
    links := collectLinks parsed.ast }

@[simp] theorem collectInlineLinks_append (first second : List InlineElement) :
    collectInlineLinks (first ++ second) =
      collectInlineLinks first ++ collectInlineLinks second := by
  induction first with
  | nil => simp [collectInlineLinks]
  | cons element rest ih => simp [collectInlineLinks, ih]

@[simp] theorem collectLinks_append (first second : List AstNode) :
    collectLinks (first ++ second) = collectLinks first ++ collectLinks second := by
  induction first with
  | nil => simp [collectLinks]
  | cons node rest ih => simp [collectLinks, ih]

end Burlmd.Index
