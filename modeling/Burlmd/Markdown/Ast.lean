import Mathlib.Data.List.Basic
import Mathlib.Tactic.Common
import Burlmd.Okf.Links

/-!
# The rendered tree of a Note
-/

namespace Burlmd.Markdown

open Utf8 (Text)
open Okf (ConceptId)

structure TextRun where
  content : Text
  bold : Bool
  italic : Bool
  strikethrough : Bool
  code : Bool
  deriving DecidableEq, Repr

inductive InlineElement where
  | text (run : TextRun)
  | link (target_id : ConceptId) (exists_ : Bool) (content : List InlineElement)
  | externalLink (url : Text) (content : List InlineElement)
  deriving Repr

inductive AstNode where
  | heading (level : Nat) (content : List InlineElement)
  | paragraph (content : List InlineElement)
  | list (ordered : Bool) (items : List AstNode)
  | listItem (content : List AstNode) (checked : Option Bool)
  | blockquote (nodes : List AstNode)
  | codeBlock (language : Option Text) (code : Text)
  | thematicBreak
  | image (alt_text url_or_path : Text)
  /-- A pending Git conflict; no parse produces it. -/
  | suggestion (base_content : Option (List AstNode))
      (local_content incoming_content : List AstNode)
  deriving Repr

mutual

def InlineElement.rendered : InlineElement → Text
  | .text run => run.content
  | .link _ _ content => renderedInlineText content
  | .externalLink _ content => renderedInlineText content

def renderedInlineText : List InlineElement → Text
  | [] => []
  | element :: rest => element.rendered ++ renderedInlineText rest

end

def joinLines (lines : List Text) : Text := ['\n'].intercalate lines

mutual

def renderedText : AstNode → Text
  | .heading _ content => renderedInlineText content
  | .paragraph content => renderedInlineText content
  | .list _ items => joinLines (renderedTexts items)
  | .listItem content _ => joinLines (renderedTexts content)
  | .blockquote nodes => joinLines (renderedTexts nodes)
  | .codeBlock _ code => code
  | .thematicBreak => []
  | .image alt_text _ => alt_text
  | .suggestion none local_content incoming_content =>
      joinLines (renderedTexts local_content ++ renderedTexts incoming_content)
  | .suggestion (some base) local_content incoming_content =>
      joinLines (renderedTexts base ++ renderedTexts local_content ++
        renderedTexts incoming_content)

def renderedTexts : List AstNode → List Text
  | [] => []
  | node :: rest => renderedText node :: renderedTexts rest

end

def joinRendered (nodes : List AstNode) : Text := joinLines (renderedTexts nodes)

@[simp] theorem renderedInlineText_nil : renderedInlineText [] = [] := by
  simp [renderedInlineText]

@[simp] theorem renderedInlineText_cons (element : InlineElement) (rest : List InlineElement) :
    renderedInlineText (element :: rest) = element.rendered ++ renderedInlineText rest := by
  simp [renderedInlineText]

@[simp] theorem renderedInlineText_append (first second : List InlineElement) :
    renderedInlineText (first ++ second) = renderedInlineText first ++ renderedInlineText second := by
  induction first with
  | nil => simp
  | cons element rest ih => simp [ih]

@[simp] theorem renderedTexts_append (first second : List AstNode) :
    renderedTexts (first ++ second) = renderedTexts first ++ renderedTexts second := by
  induction first with
  | nil => simp [renderedTexts]
  | cons node rest ih => simp [renderedTexts, ih]

end Burlmd.Markdown
