import Mathlib.Data.List.Count
import Burlmd.Index.LinkFidelity

/-!
# Which links the index loses

A rename finds the links of a Note by a scan of its text, and the Notes to scan by the
index. Every link that the scan finds is recorded, or it is lost in one of three ways: it
shows no text of its own, an image holds it, or the bare text it stands in is discarded.
-/

namespace Burlmd.Index

open Utf8 (Text)
open Okf (ConceptId classify)
open Markdown
open Workspace (Scan LinkSpot Remap spots matchingLinks matchingLinks_eq)

/-- The Note that a tag is a link to. -/
def linkTarget? (containing_dir : Text) : Tag → Option ConceptId
  | .link dest_url => (classify dest_url containing_dir).internal?
  | _ => none

/-- The targets of all links of a forest, in the order in which they close. -/
def linkedTargets (containing_dir : Text) : Forest → List ConceptId
  | .nil => []
  | .leaf _ _ rest => linkedTargets containing_dir rest
  | .node tag _ children rest =>
      linkedTargets containing_dir children ++ (linkTarget? containing_dir tag).toList ++
        linkedTargets containing_dir rest

/-- The targets of the links that inline content loses. -/
def lostInline (containing_dir : Text) : Forest → List ConceptId
  | .nil => []
  | .leaf _ _ rest => lostInline containing_dir rest
  | .node (.link dest_url) _ children rest =>
      (if children.ownText = [] then
        linkedTargets containing_dir children ++
          (linkTarget? containing_dir (.link dest_url)).toList
      else lostInline containing_dir children) ++ lostInline containing_dir rest
  | .node (.image _) _ children rest =>
      linkedTargets containing_dir children ++ lostInline containing_dir rest
  | .node _ _ children rest =>
      lostInline containing_dir children ++ lostInline containing_dir rest

/-- The targets that a forest loses, given those of the waiting content. -/
def lost (containing_dir : Text) : List ConceptId → Forest → List ConceptId
  | _, .nil => []
  | waiting, .leaf _ _ rest => lost containing_dir waiting rest
  | waiting, .node tag range children rest =>
      (match tag with
        | .paragraph | .heading _ => waiting ++ lostInline containing_dir children
        | .blockQuote | .item => lost containing_dir waiting children
        | .list _ => lost containing_dir [] children
        | .codeBlock _ | .metadataBlock | .htmlBlock => linkedTargets containing_dir children
        | _ => lostInline containing_dir (.node tag range children .nil)) ++
      lost containing_dir (keep containing_dir waiting (.node tag range children .nil)).waiting rest

/-- What the index does not record of a document: what is lost on the way, and what still
waits at its end. -/
def lostTargets (containing_dir : Text) (f : Forest) : List ConceptId :=
  lost containing_dir [] f ++ (keep containing_dir [] f).waiting

variable {containing_dir : Text}

/-! ## The scan -/

theorem linkedTargets_eq (f : Forest) : linkedTargets containing_dir f =
    (spots .linksOnly f).filterMap fun spot => (classify spot.dest_url containing_dir).internal? := by
  induction f with
  | nil => rfl
  | leaf l range rest ih => exact ih
  | node tag range children rest inner ih =>
    have own : (((Scan.linksOnly.dest? tag).toList.map fun dest_url : Text =>
          (⟨dest_url, range, Workspace.reach (range.start + 1) children⟩ : LinkSpot)).filterMap
            fun spot => (classify spot.dest_url containing_dir).internal?) =
        (linkTarget? containing_dir tag).toList := by
      cases tag with
      | link dest_url =>
        change [(⟨dest_url, range, _⟩ : LinkSpot)].filterMap _ =
          (classify dest_url containing_dir).internal?.toList
        rw [List.filterMap_cons]
        cases (classify dest_url containing_dir).internal? with
        | none => rfl
        | some id => rfl
      | _ => rfl
    rw [spots, List.filterMap_append, List.filterMap_append, ← inner, ← ih, own, linkedTargets]

/-- A rename scans a Note for nothing exactly where it has no Link to a renamed id. -/
theorem matchingLinks_eq_nil_iff {source : Text} (stream : EventStream source) (remap : Remap) :
    matchingLinks stream.events .linksOnly (remap.select containing_dir) = [] ↔
      ∀ target_id ∈ linkedTargets containing_dir stream.forest, remap.lookup target_id = none := by
  rw [matchingLinks_eq, List.filterMap_eq_nil_iff, linkedTargets_eq]
  have same (spot : LinkSpot) : spot.matched? (remap.select containing_dir) = none ↔
      ∀ target_id, (classify spot.dest_url containing_dir).internal? = some target_id →
        remap.lookup target_id = none := by
    unfold LinkSpot.matched? Remap.select
    rw [Option.map_eq_none_iff]
    cases classify spot.dest_url containing_dir with
    | internal id =>
      rw [Okf.LinkTarget.internal?_internal]
      dsimp only
      rw [Option.map_eq_none_iff]
      exact ⟨fun absent _ isId => Option.some.inj isId ▸ absent, fun absent => absent id rfl⟩
    | external url =>
      rw [Okf.LinkTarget.internal?_external]
      exact ⟨fun _ _ isId => (by cases isId), fun _ => rfl⟩
  constructor
  · intro silent target_id mem
    rcases List.mem_filterMap.mp mem with ⟨spot, inside, isTarget⟩
    exact (same spot).mp (silent spot inside) target_id isTarget
  · intro absent spot inside
    apply (same spot).mpr
    intro target_id isTarget
    exact absent target_id (List.mem_filterMap.mpr ⟨spot, inside, isTarget⟩)

/-! ## The account -/

theorem inline_account (target_id : ConceptId) (f : Forest) :
    (linkedTargets containing_dir f).count target_id =
      (keptInline containing_dir f).count target_id + (lostInline containing_dir f).count target_id := by
  induction f with
  | nil => rfl
  | leaf l range rest ih => exact ih
  | node tag range children rest inner ih =>
    cases tag with
    | link dest_url =>
      rw [linkedTargets, keptInline, lostInline]
      by_cases silent : children.ownText = []
      · rw [if_pos silent, if_pos silent]
        simp only [List.count_append, List.nil_append, ih]
        omega
      · rw [if_neg silent, if_neg silent]
        simp only [List.count_append, inner, ih, linkTarget?]
        omega
    | image dest_url =>
      rw [linkedTargets, keptInline, lostInline]
      simp only [List.count_append, ih, linkTarget?, Option.toList_none, List.count_nil]
      omega
    | _ =>
      rw [linkedTargets, keptInline, lostInline]
      · simp only [List.count_append, inner, ih, linkTarget?, Option.toList_none, List.count_nil]
        omega
      all_goals exact fun _ isTag => by cases isTag

/-- Bare content sends on what waits, and what it keeps. -/
theorem stow_account (target_id : ConceptId) (f : Forest) (waiting : List ConceptId) :
    (stow containing_dir waiting f).attached.count target_id +
        (stow containing_dir waiting f).waiting.count target_id =
      waiting.count target_id + (keptInline containing_dir f).count target_id := by
  induction f generalizing waiting with
  | nil => exact Nat.add_comm _ _
  | leaf l range rest ih => exact ih waiting
  | node tag range children rest inner ih =>
    have step {here : Kept} {own : List ConceptId}
        (one : here.attached.count target_id + here.waiting.count target_id =
          waiting.count target_id + own.count target_id) :
        (here.after fun waiting => stow containing_dir waiting rest).attached.count target_id +
            (here.after fun waiting => stow containing_dir waiting rest).waiting.count target_id =
          waiting.count target_id + (own ++ keptInline containing_dir rest).count target_id := by
      have tail := ih here.waiting
      unfold Kept.after
      simp only [List.count_append]
      omega
    cases tag with
    | image dest_url => exact @step ⟨waiting, []⟩ [] rfl
    | link dest_url =>
      have own : keptInline containing_dir (.node (.link dest_url) range children rest) =
          keptInline containing_dir (.node (.link dest_url) range children .nil) ++
            keptInline containing_dir rest := by
        simp only [keptInline, List.append_nil]
      rw [own]
      apply step
      by_cases plain : children.hoisted = []
      · rw [if_pos plain]
        simp only [List.count_append, List.count_nil, Nat.zero_add]
      · rw [if_neg plain]
    | _ => exact step (inner waiting)

/-- Every link of a document is attached to a block, still waits, or is lost. -/
theorem keep_account (target_id : ConceptId) (f : Forest) (waiting : List ConceptId) :
    (keep containing_dir waiting f).attached.count target_id +
        (keep containing_dir waiting f).waiting.count target_id +
        (lost containing_dir waiting f).count target_id =
      waiting.count target_id + (linkedTargets containing_dir f).count target_id := by
  induction f generalizing waiting with
  | nil =>
    rw [keep, lost, linkedTargets]
    dsimp only
    rw [List.count_nil]
    omega
  | leaf l range rest ih => exact ih waiting
  | node tag range children rest inner ih =>
    -- what is left for the rest starts from what waits behind the node
    have step {here : Kept} {own gone : List ConceptId}
        (isHere : keep containing_dir waiting (.node tag range children .nil) =
          here.after fun waiting => ⟨[], waiting⟩)
        (one : here.attached.count target_id + here.waiting.count target_id + gone.count target_id =
          waiting.count target_id + own.count target_id) :
        (here.after fun waiting => keep containing_dir waiting rest).attached.count target_id +
            (here.after fun waiting => keep containing_dir waiting rest).waiting.count target_id +
            (gone ++ lost containing_dir
              (keep containing_dir waiting (.node tag range children .nil)).waiting rest).count target_id =
          waiting.count target_id + (own ++ linkedTargets containing_dir rest).count target_id := by
      have tail := ih here.waiting
      rw [isHere]
      unfold Kept.after
      simp only [List.count_append]
      omega
    have unlinked {own : List ConceptId} (none_ : linkTarget? containing_dir tag = none) :
        own ++ (linkTarget? containing_dir tag).toList = own := by
      rw [none_, Option.toList_none, List.append_nil]
    have bare := @inline_account containing_dir target_id (.node tag range children .nil)
    have stowed := @stow_account containing_dir target_id (.node tag range children .nil) waiting
    rw [linkedTargets, linkedTargets, List.append_nil] at bare
    rw [linkedTargets]
    cases tag with
    | paragraph | heading level =>
      rw [unlinked rfl]
      apply step rfl
      have own := @inline_account containing_dir target_id children
      rw [List.count_append]
      dsimp only
      rw [List.count_nil]
      omega
    | blockQuote =>
      rw [unlinked rfl]
      exact step rfl (inner waiting)
    | list start_number =>
      rw [unlinked rfl]
      apply step rfl
      have own := inner []
      rw [List.count_nil] at own
      unfold Kept.after
      rw [List.count_append]
      dsimp only
      omega
    | item =>
      rw [unlinked rfl]
      apply step rfl
      have own := inner waiting
      unfold Kept.after
      rw [List.count_append]
      dsimp only
      rw [List.count_nil]
      omega
    | codeBlock kind | metadataBlock | htmlBlock =>
      rw [unlinked rfl]
      apply step rfl
      exact congrArg (· + (linkedTargets containing_dir children).count target_id) (Nat.zero_add _)
    | link dest_url | image dest_url | emphasis | strong | strikethrough =>
      apply step rfl
      dsimp only at stowed bare ⊢
      omega

/-- What a rename scans is what the index records and what it loses. -/
theorem treeTargets_account {source : Text} (stream : EventStream source) (target_id : ConceptId) :
    (treeTargets (parseNote source containing_dir stream.events).ast).count target_id +
        (lostTargets containing_dir stream.forest).count target_id =
      (linkedTargets containing_dir stream.forest).count target_id := by
  have account := @keep_account containing_dir target_id stream.forest []
  rw [List.count_nil, Nat.zero_add] at account
  unfold lostTargets
  rw [treeTargets_parseNote, List.count_append, ← account]
  omega

end Burlmd.Index
