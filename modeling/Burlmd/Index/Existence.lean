import Burlmd.Error
import Burlmd.Index.Derive
import Burlmd.Library.Checked

/-!
# Link existence

Every Link of a tree is marked with whether its target is a Note. The marks are all that changes.
-/

namespace Burlmd.Index

open Markdown
open Okf (ConceptId)

variable (existing : List ConceptId)

mutual

def existenceOf : InlineElement → InlineElement
  | .link target_id _ content =>
      .link target_id (target_id ∈ existing) (applyInlineExistence content)
  | .externalLink url content => .externalLink url (applyInlineExistence content)
  | .text run => .text run

def applyInlineExistence : List InlineElement → List InlineElement
  | [] => []
  | element :: rest => existenceOf element :: applyInlineExistence rest

end

mutual

def linkExistenceOf : AstNode → AstNode
  | .heading level content => .heading level (applyInlineExistence existing content)
  | .paragraph content => .paragraph (applyInlineExistence existing content)
  | .list ordered items => .list ordered (applyLinkExistence items)
  | .listItem content checked => .listItem (applyLinkExistence content) checked
  | .blockquote nodes => .blockquote (applyLinkExistence nodes)
  | .suggestion none local_content incoming_content =>
      .suggestion none (applyLinkExistence local_content) (applyLinkExistence incoming_content)
  | .suggestion (some base) local_content incoming_content =>
      .suggestion (some (applyLinkExistence base)) (applyLinkExistence local_content)
        (applyLinkExistence incoming_content)
  | .codeBlock language code => .codeBlock language code
  | .thematicBreak => .thematicBreak
  | .image alt_text url_or_path => .image alt_text url_or_path

def applyLinkExistence : List AstNode → List AstNode
  | [] => []
  | node :: rest => linkExistenceOf node :: applyLinkExistence rest

end

/-- The marked tree, unless a lookup fails. -/
def resolveLinkExistence (noteExists : ConceptId → Except AppError Bool) (nodes : List AstNode) :
    Except AppError (List AstNode) := do
  let targets := ((collectLinks nodes).map LinkEdge.target_id).dedup
  if targets = [] then return nodes
  let existing ← targets.filterM noteExists
  return applyLinkExistence existing nodes

variable {existing}

theorem applyLinkExistence_getElem? (nodes : List AstNode) (index : Nat) :
    (applyLinkExistence existing nodes)[index]? =
      nodes[index]?.map (linkExistenceOf existing) := by
  induction nodes generalizing index with
  | nil =>
    unfold applyLinkExistence
    rfl
  | cons node rest ih =>
    unfold applyLinkExistence
    cases index with
    | zero => rfl
    | succ index => exact ih index

/-- A resolved tree is the tree, or the tree marked. -/
theorem resolveLinkExistence_ok {noteExists : ConceptId → Except AppError Bool}
    {nodes resolved : List AstNode} (ok : resolveLinkExistence noteExists nodes = .ok resolved) :
    resolved = nodes ∨ ∃ existing, resolved = applyLinkExistence existing nodes := by
  unfold resolveLinkExistence at ok
  dsimp only at ok
  by_cases empty : ((collectLinks nodes).map LinkEdge.target_id).dedup = []
  · rw [if_pos empty] at ok
    exact .inl (Except.ok.inj ok).symm
  · rw [if_neg empty] at ok
    rcases Checked.bind_eq_ok.mp ok with ⟨existing, -, marked⟩
    exact .inr ⟨existing, (Except.ok.inj marked).symm⟩

theorem filterAuxM_total {ask : ConceptId → Except AppError Bool}
    (total : ∀ id, ∃ answer, ask id = .ok answer) (targets kept : List ConceptId) :
    ∃ existing, targets.filterAuxM ask kept = .ok existing := by
  induction targets generalizing kept with
  | nil => exact ⟨kept, rfl⟩
  | cons target rest ih =>
    rcases total target with ⟨answer, answered⟩
    rcases ih (cond answer (target :: kept) kept) with ⟨existing, found⟩
    refine ⟨existing, ?_⟩
    unfold List.filterAuxM
    rw [answered]
    exact found

/-- Where every lookup is answered, every tree is resolved. -/
theorem resolveLinkExistence_total {noteExists : ConceptId → Except AppError Bool}
    (total : ∀ id, ∃ answer, noteExists id = .ok answer) (nodes : List AstNode) :
    ∃ resolved, resolveLinkExistence noteExists nodes = .ok resolved := by
  unfold resolveLinkExistence
  dsimp only
  by_cases empty : ((collectLinks nodes).map LinkEdge.target_id).dedup = []
  · rw [if_pos empty]
    exact ⟨nodes, rfl⟩
  · rw [if_neg empty]
    rcases filterAuxM_total total ((collectLinks nodes).map LinkEdge.target_id).dedup [] with
      ⟨existing, found⟩
    unfold List.filterM
    rw [found]
    exact ⟨applyLinkExistence existing.reverse nodes, rfl⟩

end Burlmd.Index
