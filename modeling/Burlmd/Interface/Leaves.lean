import Burlmd.Library.Utf16
import Burlmd.Markdown.Ast
import Burlmd.Markdown.Settled

/-!
# Painted leaves

The interface flattens a Block into its painted leaves and says where each stands in the rendered
text of the Block, which Core defines. Lengths and offsets count UTF-16 code units.
-/

namespace Burlmd.Interface

open Markdown
open Utf8 (Text)
open Utf16

structure LeafText where
  rendered : Text
  corePrefix : Nat
  coreWidth : Nat
  leadingDecorationWidth : Nat

/-! ## Inline content -/

mutual

def inlineRenderedOne : InlineElement → Text
  | .text run => run.content
  | .link _ _ content => inlineRendered content
  | .externalLink _ content => inlineRendered content

def inlineRendered : List InlineElement → Text
  | [] => []
  | element :: rest => inlineRenderedOne element ++ inlineRendered rest

end

def inlineRenderedLength : InlineElement → Nat
  | .text run => utf16Len run.content
  | .link _ _ content => utf16Len (inlineRendered content)
  | .externalLink _ content => utf16Len (inlineRendered content)

def inlineRenderedLengthAll (elements : List InlineElement) : Nat :=
  elements.foldl (fun sum element => sum + inlineRenderedLength element) 0

/-! ## Lengths -/

mutual

def coreRenderedLength : AstNode → Nat
  | .paragraph content | .heading _ content => inlineRenderedLengthAll content
  | .codeBlock _ code => utf16Len code
  | .image alt_text _ => utf16Len alt_text
  | .thematicBreak => 0
  | .list _ items => joinedCoreLength items
  | .listItem content _ => joinedCoreLength content
  | .blockquote nodes => joinedCoreLength nodes
  | .suggestion _ local_content _ => joinedCoreLength local_content

/-- The first node adds its length, every other one its length and a separator. -/
def joinedCoreLength : List AstNode → Nat
  | [] => 0
  | node :: rest => coreRenderedLength node + followingCoreLength rest

def followingCoreLength : List AstNode → Nat
  | [] => 0
  | node :: rest => 1 + coreRenderedLength node + followingCoreLength rest

end

def blockCoreRenderedLength (node : AstNode) : Nat := coreRenderedLength node

/-- Where the sibling at `index` starts in what its parent renders. -/
def siblingCoreStart (siblings : List AstNode) (index parentStart : Nat) : Nat :=
  (siblings.take index).foldl (fun start sibling => start + (coreRenderedLength sibling + 1))
    parentStart

/-! ## Leaves -/

def imageOpening : Text := "[image: ".toList

/-- The marker of an item is a leaf without width, unless it is a task. -/
def listItemMarker (checked : Option Bool) (ordered : Bool) (index corePrefix : Nat) :
    List LeafText :=
  let marker := if ordered then (toString (index + 1)).toList ++ ". ".toList else "- ".toList
  match checked with
  | none => [⟨marker, corePrefix, 0, 0⟩]
  | some _ => []

mutual

def leaves : AstNode → Nat → List LeafText
  | .paragraph content, corePrefix =>
      [⟨inlineRendered content, corePrefix, inlineRenderedLengthAll content, 0⟩]
  | .heading _ content, corePrefix =>
      [⟨inlineRendered content, corePrefix, inlineRenderedLengthAll content, 0⟩]
  | .list ordered items, corePrefix => itemLeaves ordered 0 items corePrefix
  | .listItem content checked, corePrefix =>
      listItemMarker checked false 0 corePrefix ++ leavesEach content corePrefix
  | .blockquote nodes, corePrefix => leavesEach nodes corePrefix
  | .codeBlock _ code, corePrefix => [⟨code, corePrefix, utf16Len code, 0⟩]
  | .suggestion _ local_content _, corePrefix => leavesEach local_content corePrefix
  | .image alt_text _, corePrefix =>
      [⟨imageOpening ++ alt_text ++ [']'], corePrefix, utf16Len alt_text, utf16Len imageOpening⟩]
  | .thematicBreak, _ => []

/-- The leaves of siblings, each from its `siblingCoreStart` on. -/
def leavesEach : List AstNode → Nat → List LeafText
  | [], _ => []
  | node :: rest, start => leaves node start ++ leavesEach rest (start + (coreRenderedLength node + 1))

/-- The leaves of the items of a List, the first of which has an index. -/
def itemLeaves (ordered : Bool) : Nat → List AstNode → Nat → List LeafText
  | _, [], _ => []
  | index, .listItem content checked :: rest, start =>
      listItemMarker checked ordered index start ++ leavesEach content start ++
        itemLeaves ordered (index + 1) rest
          (start + (coreRenderedLength (.listItem content checked) + 1))
  | index, node :: rest, start =>
      leaves node start ++
        itemLeaves ordered (index + 1) rest (start + (coreRenderedLength node + 1))

end

def blockLeaves (node : AstNode) : List LeafText := leaves node 0

def clamp (value : Int) (lower upper : Nat) : Nat := (max (lower : Int) (min value upper)).toNat

def blockCoreRenderedOffset (node : AstNode) (leafIndex : Nat) (renderedOffset : Int) : Nat :=
  match (blockLeaves node)[leafIndex]? with
  | none => 0
  | some leaf =>
      leaf.corePrefix + clamp (renderedOffset - leaf.leadingDecorationWidth) 0 leaf.coreWidth

/-! ## Paths -/

def nodeAtPath : List Nat → AstNode → Option AstNode
  | [], node => some node
  | index :: remaining, node =>
      match node with
      | .list _ items => items[index]?.bind (nodeAtPath remaining)
      | .listItem content _ => content[index]?.bind (nodeAtPath remaining)
      | .blockquote nodes => nodes[index]?.bind (nodeAtPath remaining)
      | .suggestion _ local_content _ => local_content[index]?.bind (nodeAtPath remaining)
      | _ => none

def leafCountBefore (nodes : List AstNode) (stop : Nat) : Nat :=
  (nodes.take stop).foldl (fun count node => count + (blockLeaves node).length) 0

def leafPrefixForPath : List Nat → AstNode → Nat
  | [], _ => 0
  | index :: remaining, node =>
      match node with
      | .list _ items =>
          match items[index]? with
          | some item => leafCountBefore items index + leafPrefixForPath remaining item
          | none => 0
      | .listItem content checked =>
          match content[index]? with
          | some child =>
              (if checked = none then 1 else 0) + leafCountBefore content index +
                leafPrefixForPath remaining child
          | none => 0
      | .blockquote nodes =>
          match nodes[index]? with
          | some child => leafCountBefore nodes index + leafPrefixForPath remaining child
          | none => 0
      | .suggestion _ local_content _ =>
          match local_content[index]? with
          | some child => leafCountBefore local_content index + leafPrefixForPath remaining child
          | none => 0
      | _ => 0

/-- The leaves that stay painted while the Block at a path is edited. -/
def blockUnfocusedLeafIndices (node : AstNode) (relativeLeafPath : List Nat) : List Nat :=
  match nodeAtPath relativeLeafPath node with
  | none => List.range (blockLeaves node).length
  | some focusedNode =>
      let focusedStart := leafPrefixForPath relativeLeafPath node
      let focusedEnd := focusedStart + (blockLeaves focusedNode).length
      (List.range (blockLeaves node).length).filter fun index =>
        index < focusedStart || focusedEnd ≤ index

end Burlmd.Interface
