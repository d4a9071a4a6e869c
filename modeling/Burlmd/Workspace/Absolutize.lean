import Mathlib.Data.Bool.AllAny
import Burlmd.Okf.Classify
import Burlmd.Okf.Serialize
import Burlmd.Workspace.Opaque

/-!
# Making destinations absolute

A Note that moves has its relative destinations written from the bundle root. The pass goes
by what a destination resolves to and not by the kind of its link: the address of an email
autolink resolves, too, and is not written inline.
-/

namespace Burlmd.Workspace

open Utf8
open CommonMark
open Markdown
open Okf
open Segments

/-! ## What a destination names -/

/-- What a destination names in the bundle. -/
inductive Named where
  | note (concept_id : ConceptId)
  | file (path : Text)
  | nothing
  deriving DecidableEq, Repr

/-- The bundle path of a destination, whether it is written relatively or from the root. -/
def bundlePath? (dest containing_dir : Text) : Option Text :=
  match dest.dropPrefix? [slash] with
  | some absolute => (resolvePath [] absolute).filter (· ≠ [])
  | none => resolveBundlePath dest containing_dir

def names (dest containing_dir : Text) : Named :=
  match classify dest containing_dir with
  | .internal concept_id => .note concept_id
  | .external _ =>
      match bundlePath? dest containing_dir with
      | some path => .file path
      | none => .nothing

def Replacement.named : Replacement → Named
  | note concept_id => .note concept_id
  | bundlePath path => .file path

/-- The new destination as CommonMark reads it. -/
def Replacement.url : Replacement → Text
  | note concept_id => slash :: concept_id ++ mdSuffix
  | bundlePath path => slash :: path

theorem Replacement.destinationText_eq (target : Replacement) :
    target.destinationText = serializeDestination target.url := by
  cases target <;> rfl

/-- The new destination names what it is to name: it is not the bundle root as a Note, and it is
not a file whose path is that of a Note. -/
def Replacement.Lands : Replacement → Prop
  | note concept_id => concept_id ≠ []
  | bundlePath path => (classify (slash :: path) []).internal? = none

def Replacement.Faithful (target : Replacement) : Prop :=
  (∀ c ∈ target.url, isLineEnding c = false) ∧ target.Lands

theorem dropPrefix?_slash_cons (rest : Text) : (slash :: rest).dropPrefix? [slash] = some rest := by
  simp [List.dropPrefix?]

theorem dropPrefix?_slash_eq_none {dest : Text} (relative : ¬ [slash].isPrefixOf dest = true) :
    dest.dropPrefix? [slash] = none := by
  cases dest with
  | nil => rfl
  | cons c rest =>
    have other : ¬ c = slash := by
      intro same
      simp [same] at relative
    simp [List.dropPrefix?, other]

theorem names_of_internal {dest containing_dir : Text} {concept_id : ConceptId}
    (isNote : classify dest containing_dir = .internal concept_id) :
    names dest containing_dir = .note concept_id := by
  rw [names, isNote]

theorem names_of_external {dest containing_dir url path : Text}
    (isFile : classify dest containing_dir = .external url)
    (resolved : bundlePath? dest containing_dir = some path) :
    names dest containing_dir = .file path := by
  rw [names, isFile]
  dsimp only
  rw [resolved]

/-- What is selected is named. -/
theorem names_of_absolute {containing_dir dest : Text} {target : Replacement}
    (selected : absolute containing_dir dest = some target) :
    names dest containing_dir = target.named := by
  unfold absolute at selected
  split at selected
  · cases selected
  · rename_i relative
    have unanchored := dropPrefix?_slash_eq_none relative
    split at selected
    · rename_i concept_id isNote
      cases selected
      exact names_of_internal isNote
    · rename_i url isFile
      rcases Option.map_eq_some_iff.mp selected with ⟨path, resolved, same⟩
      subst same
      apply names_of_external isFile
      rw [bundlePath?, unanchored]
      exact resolved

theorem absolute_of_slash (containing_dir rest : Text) :
    absolute containing_dir (slash :: rest) = none := by
  simp [absolute]

/-- From the root a destination names the same everywhere. -/
theorem names_slash_cons (rest containing_dir other : Text) :
    names (slash :: rest) containing_dir = names (slash :: rest) other := by
  have same : classify (slash :: rest) containing_dir = classify (slash :: rest) other := by
    unfold classify
    rw [dropPrefix?_slash_cons]
  unfold names bundlePath?
  rw [same, dropPrefix?_slash_cons]

theorem resolvePath_of_plain {path : Text} (plain : ∀ segment ∈ path.splitOn slash, PlainSegment segment) :
    resolvePath [] path = some path := by
  have pushed := @foldlM_pushSegment_plain [] _ plain
  unfold resolvePath
  rw [show (components []).reverse = [] from by decide, pushed, List.append_nil, Option.map_some,
    List.reverse_reverse, List.intercalate_splitOn]

theorem intercalate_plain {stack : List Text}
    (plain : ∀ segment ∈ stack, PlainSegment segment ∧ slash ∉ segment) :
    [slash].intercalate stack.reverse = [] ∨
      ∀ segment ∈ ([slash].intercalate stack.reverse).splitOn slash, PlainSegment segment := by
  by_cases none : stack = []
  · exact Or.inl (by simp [none])
  · apply Or.inr
    have split : ([slash].intercalate stack.reverse).splitOn slash = stack.reverse := by
      apply List.splitOn_intercalate
      · exact fun segment mem => (plain segment (List.mem_reverse.mp mem)).2
      · simpa using none
    rw [split]
    exact fun segment mem => (plain segment (List.mem_reverse.mp mem)).1

/-- The path of a target has plain segments, or is the bundle root. -/
def Replacement.path : Replacement → Text
  | note concept_id => concept_id
  | bundlePath path => path

theorem plain_of_absolute {containing_dir dest : Text} {target : Replacement}
    (plainDir : PlainDirectory containing_dir)
    (selected : absolute containing_dir dest = some target) :
    target.path = [] ∨ ∀ segment ∈ target.path.splitOn slash, PlainSegment segment := by
  have base : ∀ segment ∈ (components containing_dir).reverse,
      PlainSegment segment ∧ slash ∉ segment :=
    fun segment mem => components_of_plain plainDir segment (List.mem_reverse.mp mem)
  unfold absolute at selected
  split at selected
  · cases selected
  · split at selected
    · rename_i concept_id isNote
      cases selected
      rcases classify_eq_internal_iff.mp isNote with ⟨stem, stack, -, -, -, resolved, same⟩
      rw [Replacement.path, same]
      apply intercalate_plain
      apply plain_of_foldlM resolved _ fun _ mem => not_mem_of_mem_splitOn mem
      intro segment mem
      unfold baseStack at mem
      split at mem
      · cases mem
      · exact base segment mem
    · rcases Option.map_eq_some_iff.mp selected with ⟨path, resolved, same⟩
      subst same
      unfold resolveBundlePath at resolved
      split at resolved
      · cases resolved
      · rcases Option.filter_eq_some_iff.mp resolved with ⟨resolved, -⟩
        rcases Option.map_eq_some_iff.mp resolved with ⟨stack, pushed, same⟩
        rw [Replacement.path, ← same]
        apply intercalate_plain
        exact plain_of_foldlM pushed base fun _ mem => not_mem_of_mem_splitOn mem

theorem bundlePath_ne_nil {containing_dir dest path : Text}
    (selected : absolute containing_dir dest = some (.bundlePath path)) : path ≠ [] := by
  unfold absolute at selected
  split at selected
  · cases selected
  · split at selected
    · cases selected
    · rcases Option.map_eq_some_iff.mp selected with ⟨other, resolved, same⟩
      cases same
      unfold resolveBundlePath at resolved
      split at resolved
      · cases resolved
      · simpa using (Option.filter_eq_some_iff.mp resolved).2

/-- From everywhere the new destination names what it is to name, if and only if it lands. -/
theorem named_iff_lands {containing_dir dest : Text} {target : Replacement}
    (plainDir : PlainDirectory containing_dir)
    (selected : absolute containing_dir dest = some target) :
    (∀ other, names target.url other = target.named) ↔ target.Lands := by
  have plain := plain_of_absolute plainDir selected
  cases target with
  | note concept_id =>
    rw [Replacement.path] at plain
    constructor
    · intro same root
      have nothing := same []
      rw [root] at nothing
      revert nothing
      decide
    · intro some_ other
      exact names_of_internal (@classify_of_plain concept_id (plain.resolve_left some_) other)
  | bundlePath path =>
    have some_ := bundlePath_ne_nil selected
    rw [Replacement.path] at plain
    have resolved := resolvePath_of_plain (plain.resolve_left some_)
    constructor
    · intro same
      rw [Replacement.Lands]
      have isFile := same []
      cases target : classify (slash :: path) [] with
      | internal concept_id =>
        have isNote := names_of_internal target
        rw [Replacement.url] at isFile
        rw [isFile] at isNote
        cases isNote
      | external url => rfl
    · intro isFile other
      rw [Replacement.url, names_slash_cons path other []]
      rw [Replacement.Lands] at isFile
      cases target : classify (slash :: path) [] with
      | internal concept_id =>
        rw [target] at isFile
        cases isFile
      | external url =>
        apply names_of_external target
        rw [bundlePath?, dropPrefix?_slash_cons]
        dsimp only
        rw [resolved]
        simp [Option.filter, some_]

/-- The new destination names what the old one named, from everywhere, if and only if it is
faithful. -/
theorem same_name_iff {containing_dir dest : Text} {target : Replacement}
    (plainDir : PlainDirectory containing_dir)
    (selected : absolute containing_dir dest = some target) :
    (∃ url, ReadsAs target.destinationText url ∧
      ∀ other, names url other = names dest containing_dir) ↔ target.Faithful := by
  have reads (url : Text) : ReadsAs target.destinationText url ↔
      url = target.url ∧ ∀ c ∈ target.url, isLineEnding c = false := by
    rw [target.destinationText_eq]
    exact readsAs_serializeDestination
  have named := named_iff_lands plainDir selected
  have old := names_of_absolute selected
  constructor
  · intro same
    rcases same with ⟨url, isRead, names_⟩
    rcases (reads url).mp isRead with ⟨isUrl, line⟩
    refine ⟨line, named.mp ?_⟩
    intro other
    rw [← isUrl, names_ other, old]
  · intro faithful
    refine ⟨target.url, (reads _).mpr ⟨rfl, faithful.1⟩, ?_⟩
    intro other
    rw [named.mpr faithful.2 other, old]

/-! ## The pass over a Note -/

/-- The address of an email autolink is reported as the destination of a link. -/
def IsAutolink (source : Text) (spot : LinkSpot) : Prop :=
  ∃ autolink : Autolink, autolink.source = source ∧ autolink.span = spot.span ∧
    autolink.textEnd = spot.text_end

/-- The destinations that the pass selects in a Note. -/
def relative (containing_dir : Text) (forest : Forest) : List LinkSpot :=
  chosen .linksAndImages (absolute containing_dir) forest

/-- The destination can be written from the root: the scan finds it, and the new one names what
the old one named. -/
def Movable (source containing_dir : Text) (spot : LinkSpot) : Prop :=
  Found source spot ∧
    ∀ target, absolute containing_dir spot.dest_url = some target → target.Faithful

def movedUrl (containing_dir : Text) (spot : LinkSpot) : Text :=
  (absolute containing_dir spot.dest_url).elim spot.dest_url Replacement.url

/-- The new destination closes nothing that is open in front of it. -/
def Unenclosed (streams : ∀ source, EventStream source) (source containing_dir : Text)
    (spot : LinkSpot) : Prop :=
  ∀ link target, LinkAt source spot link → Located link →
    absolute containing_dir spot.dest_url = some target →
    ¬ Enclosed (streams source) link target.destinationText

/-- What the pass is to do: no autolink is rewritten or makes it fail, every other selected
destination is replaced, and nothing else. -/
structure Absolutizes (streams : ∀ source, EventStream source) (source containing_dir : Text) :
    Prop where
  rewritten : ∃ ours segments last, source = original segments last ∧
    ours.Sublist (relative containing_dir (streams source).forest) ∧
    (∀ spot ∈ relative containing_dir (streams source).forest, spot ∉ ours → IsAutolink source spot) ∧
    destinations source
      (matchingLinks (streams source).events .linksAndImages (absolute containing_dir)) =
        .ok (edits 0 segments) ∧
    List.Forall₂ (Rewrites source (absolute containing_dir)) ours (edits 0 segments) ∧
    absolutizeRelativeLinks (fun text => (streams text).events) source containing_dir =
      .ok (if segments = [] then none else some (replaced segments last))
  same : ∀ spot ∈ relative containing_dir (streams source).forest, ∀ target,
    absolute containing_dir spot.dest_url = some target → ¬ IsAutolink source spot →
    ∃ url, ReadsAs target.destinationText url ∧
      ∀ other, names url other = names spot.dest_url containing_dir
  /-- The parser reads the new destinations, and the other links as before. -/
  read : ∀ out,
    absolutizeRelativeLinks (fun text => (streams text).events) source containing_dir =
      .ok (some out) →
    (spots .linksAndImages (streams out).forest).map LinkSpot.dest_url =
      (spots .linksAndImages (streams source).forest).map (movedUrl containing_dir)
  again : ∀ out,
    absolutizeRelativeLinks (fun text => (streams text).events) source containing_dir =
      .ok (some out) →
    absolutizeRelativeLinks (fun text => (streams text).events) out containing_dir = .ok none

/-- Where the destinations are found, there is one for each selected spot. -/
theorem spans_of_destinations {source : Text} {select : Text → Option Replacement}
    {list : List LinkSpot} {edits : List Edit}
    (found : destinations source (list.filterMap (LinkSpot.matched? select)) = .ok edits) :
    List.Forall₂ (fun spot edit => destinationSpan source spot.span spot.text_end = some edit.1)
      (list.filter fun spot => (select spot.dest_url).isSome) edits := by
  induction list generalizing edits with
  | nil =>
    cases found
    exact List.Forall₂.nil
  | cons spot rest ih =>
    cases target : select spot.dest_url with
    | none =>
      simp only [List.filterMap_cons, LinkSpot.matched?, target, Option.map_none] at found
      rw [List.filter_cons_of_neg (by simp [target])]
      exact ih found
    | some new_target =>
      simp only [List.filterMap_cons, LinkSpot.matched?, target, Option.map_some,
        destinations] at found
      rw [List.filter_cons_of_pos (by simp [target])]
      split at found
      · cases found
      · rename_i span isSpan
        cases tail : destinations source (rest.filterMap (LinkSpot.matched? select)) with
        | error e =>
          rw [tail] at found
          cases found
        | ok others =>
          rw [tail] at found
          cases found
          exact List.Forall₂.cons isSpan (ih tail)

theorem LinkAt.span_of_located {source : Text} {spot : LinkSpot} {link : InlineLink}
    (at_ : LinkAt source spot link) :
    destinationSpan source spot.span spot.text_end = some link.destinationRange ↔ Located link := by
  rw [← at_.source_eq, ← at_.span_eq, ← at_.textEnd_eq]
  exact destinationSpan_inline link

/-- What is rewritten is found, and each rewritten destination is faithful. -/
theorem Absolutizes.movable {streams : ∀ source, EventStream source} {source containing_dir : Text}
    (plainDir : PlainDirectory containing_dir)
    (absolutizes : Absolutizes streams source containing_dir) :
    ∀ spot ∈ relative containing_dir (streams source).forest, Movable source containing_dir spot := by
  rcases absolutizes.rewritten with ⟨ours, segments, last, -, sub, -, found, related, -⟩
  rw [matchingLinks_eq] at found
  have spans := spans_of_destinations found
  have all : ours = relative containing_dir (streams source).forest := by
    apply sub.eq_of_length
    rw [related.length_eq]
    exact spans.length_eq.symm
  rw [all] at related
  intro spot mem
  have both := List.Forall₂.mp (fun _ _ span rewrites => And.intro span rewrites) spans related
  rcases exists_of_forall₂ both mem with ⟨edit, -, span, link, target, at_, selected, isEdit⟩
  have located : Located link := by
    apply at_.span_of_located.mp
    rw [span, isEdit]
  refine ⟨⟨link, at_, located⟩, ?_⟩
  intro other isOther
  have inline : ¬ IsAutolink source spot := by
    intro isAutolink
    rcases isAutolink with ⟨autolink, isSource, isSpan, isEnd⟩
    have unseen := destinationSpan_autolink autolink
    rw [isSource, isSpan, isEnd, span] at unseen
    cases unseen
  exact (same_name_iff plainDir isOther).mp (absolutizes.same spot mem other isOther inline)

/-- What a Note holds after the pass is not relative any more. -/
theorem matchingLinks_moved {streams : ∀ source, EventStream source} {out containing_dir : Text}
    {spots_ : List LinkSpot}
    (read : (spots .linksAndImages (streams out).forest).map LinkSpot.dest_url =
      spots_.map (movedUrl containing_dir)) :
    matchingLinks (streams out).events .linksAndImages (absolute containing_dir) = [] := by
  rw [matchingLinks_eq]
  apply List.filterMap_eq_nil_iff.mpr
  intro spot mem
  have moved : spot.dest_url ∈ spots_.map (movedUrl containing_dir) := by
    rw [← read]
    exact List.mem_map_of_mem mem
  rcases List.mem_map.mp moved with ⟨old, -, isMoved⟩
  unfold LinkSpot.matched?
  rw [← isMoved, movedUrl]
  cases selected : absolute containing_dir old.dest_url with
  | none =>
    dsimp only [Option.elim]
    rw [selected]
    rfl
  | some target =>
    dsimp only [Option.elim]
    have moved : absolute containing_dir target.url = none := by
      cases target <;> exact absolute_of_slash containing_dir _
    rw [moved]
    rfl

theorem movedUrl_of_absolute {containing_dir : Text} {spot : LinkSpot} {target : Replacement}
    (selected : absolute containing_dir spot.dest_url = some target) :
    movedUrl containing_dir spot = target.url := by
  rw [movedUrl, selected]
  rfl

/-- Movable destinations that close nothing are read as what they are moved to. -/
theorem read_of_unenclosed {streams : ∀ source, EventStream source} (isOpaque : Opaque streams)
    {source containing_dir last : Text} {segments : List Segment}
    (isSource : source = original segments last)
    (movable : ∀ spot ∈ relative containing_dir (streams source).forest,
      Movable source containing_dir spot ∧ Unenclosed streams source containing_dir spot)
    (spans : destinations source
      (matchingLinks (streams source).events .linksAndImages (absolute containing_dir)) =
        .ok (edits 0 segments))
    (related : List.Forall₂ (Rewrites source (absolute containing_dir))
      (relative containing_dir (streams source).forest) (edits 0 segments)) :
    (spots .linksAndImages (streams (replaced segments last)).forest).map LinkSpot.dest_url =
      (spots .linksAndImages (streams source).forest).map (movedUrl containing_dir) := by
  have redirects : List.Forall₂ (Redirects streams source (movedUrl containing_dir))
      (relative containing_dir (streams source).forest) (edits 0 segments) := by
    rw [matchingLinks_eq] at spans
    apply List.Forall₂.mp _ (spans_of_destinations spans)
      ((List.forall₂_and_left _ _).mpr ⟨movable, related⟩)
    intro spot edit span both
    rcases both with ⟨⟨⟨-, faithful⟩, unenclosed⟩, link, target, at_, selected, isEdit⟩
    have located : Located link := by
      apply at_.span_of_located.mp
      rw [span, isEdit]
    rw [target.destinationText_eq] at isEdit
    have closes := unenclosed link target at_ located selected
    rw [target.destinationText_eq] at closes
    have isUrl := movedUrl_of_absolute selected
    refine ⟨link, at_, located, ?_, ?_, ?_⟩
    · rw [isUrl]
      exact isEdit
    · rw [isUrl]
      exact (faithful target selected).1
    · rw [isUrl]
      exact closes
  have nested := (@spots_pairwise .linksAndImages source (streams source).forest 0 _
    (streams source).placed).filter fun spot => (absolute containing_dir spot.dest_url).isSome
  rcases @exists_redirected streams isOpaque (movedUrl containing_dir) source [] last segments _
    isSource (fun spot mem => (List.mem_filter.mp mem).1) nested redirects with ⟨moved, redirected⟩
  have all := redirected 0 fun edit _ => Nat.zero_le _
  rw [List.nil_append] at all
  rw [all.links, List.map_map]
  apply List.map_congr_left
  intro spot mem
  by_cases ours : spot ∈ relative containing_dir (streams source).forest
  · exact all.own spot ours
  · rw [Function.comp, all.others spot mem ours, movedUrl]
    have unselected : absolute containing_dir spot.dest_url = none := by
      by_contra selected
      exact ours (List.mem_filter.mpr ⟨mem, Option.isSome_iff_ne_none.mpr selected⟩)
    rw [unselected]
    rfl

theorem plain_accepted : bareBody 0 ['x'] = true := by decide

theorem plain_bare : (['x'] : Text).head? ≠ some '<' := by decide

/-- The destination of a Note that is one link with the text `a`: `x`, or one in brackets. -/
def plainDestination? : Text → Option Destination
  | '[' :: 'a' :: ']' :: '(' :: rest =>
      let body := rest.tail.dropLast.dropLast
      if rest = ['x', ')'] then some (.bare ['x'] plain_accepted plain_bare)
      else if pointy : rest = '<' :: body ++ ['>', ')'] ∧ pointyBody body = true then
        some (.pointy body pointy.2)
      else none
  | _ => none

def plainUrl : Destination → Text
  | .pointy body _ => unescape body
  | .bare body _ _ => unescape body

def plainForest (source : Text) : Forest :=
  match plainDestination? source with
  | some destination =>
      .node .paragraph ⟨0, byteLen source⟩
        (.node (.link (plainUrl destination)) ⟨0, byteLen source⟩
          (.leaf (.text ['a']) ⟨1, 2⟩ .nil) .nil) .nil
  | none => .nil

theorem plainDestination?_pointy {body : Text} (accepted : pointyBody body = true) :
    plainDestination? ("[a](".toList ++ ('<' :: body ++ ['>']) ++ [')']) =
      some (.pointy body accepted) := by
  have shape : "[a](".toList ++ ('<' :: body ++ ['>']) ++ [')'] =
      '[' :: 'a' :: ']' :: '(' :: '<' :: (body ++ ['>', ')']) := by
    simp
  rw [shape, plainDestination?]
  simp [accepted]

theorem source_of_plain {source : Text} {destination : Destination}
    (plain : plainDestination? source = some destination) :
    source = "[a](".toList ++ destination.text ++ [')'] ∧ destination.text ≠ [] ∧
      ¬ destination.BackslashAtEnd := by
  unfold plainDestination? at plain
  split at plain
  · rename_i rest
    dsimp only at plain
    split at plain
    · rename_i bare
      cases plain
      subst bare
      decide
    · split at plain
      · rename_i pointy
        cases plain
        refine ⟨?_, by simp [Destination.text], id⟩
        apply (congrArg (fun rest => '[' :: 'a' :: ']' :: '(' :: rest) pointy.1).trans
        simp [Destination.text]
      · cases plain
  · cases plain

theorem plainForest_placed (source : Text) :
    (plainForest source).placed source 0 (byteLen source) = true := by
  unfold plainForest
  split
  · rename_i destination plain
    rcases source_of_plain plain with ⟨isSource, -, -⟩
    have shape : source = ['['] ++ ['a'] ++ ("](".toList ++ destination.text ++ [')']) := by
      rw [isSource]
      simp
    have whole : slice? source ⟨0, byteLen source⟩ = some source :=
      slice?_eq_some_iff.mpr ⟨[], [], by simp, rfl, by simp⟩
    have inner : slice? source ⟨1, 2⟩ = some ['a'] :=
      slice?_eq_some_iff.mpr ⟨['['], _, shape, by decide, by decide⟩
    have long : 2 ≤ byteLen source := by
      rw [shape, byteLen_append]
      exact Nat.le_add_right 2 _
    simp [Forest.placed, whole, inner, long]
    omega
  · simp [Forest.placed]

def plainStreams (source : Text) : EventStream source where
  forest := plainForest source
  conforms := by
    unfold plainForest
    split <;> rfl
  placed := plainForest_placed source

theorem spots_of_plain {source : Text} {destination : Destination}
    (plain : plainDestination? source = some destination) :
    spots .linksAndImages (plainStreams source).forest =
      [⟨plainUrl destination, ⟨0, byteLen source⟩, 2⟩] := by
  have isForest : (plainStreams source).forest = _ := plainForest.eq_def source
  rw [isForest, plain]
  simp [spots, Scan.dest?, Scan.opened, reach]

theorem mem_spots_plain {source : Text} {spot : LinkSpot}
    (mem : spot ∈ spots .linksAndImages (plainStreams source).forest) :
    ∃ destination, plainDestination? source = some destination ∧
      spot = ⟨plainUrl destination, ⟨0, byteLen source⟩, 2⟩ := by
  cases plain : plainDestination? source with
  | none =>
    have isForest : (plainStreams source).forest = _ := plainForest.eq_def source
    rw [isForest, plain] at mem
    cases mem
  | some destination =>
    rw [spots_of_plain plain] at mem
    exact ⟨destination, rfl, List.mem_singleton.mp mem⟩

/-- The Note is one block, in which the text of the link is open. -/
theorem openAt_plain {source : Text} {destination : Destination}
    (plain : plainDestination? source = some destination) {first second : Nat} (upTo : first ≤ 4)
    (upTo' : second ≤ 4) : OpenAt (plainStreams source) first second ↔ first = 1 := by
  have isForest : (plainStreams source).forest = _ := plainForest.eq_def source
  have long : 4 < byteLen source := by
    rw [(source_of_plain plain).1, byteLen_append, byteLen_append]
    have four : byteLen "[a](".toList = 4 := by decide
    have one : byteLen [')'] = 1 := by decide
    omega
  unfold OpenAt EventStream.events
  rw [isForest, plain]
  constructor
  · intro open_
    rcases open_.1 with ⟨text, range, mem, from_, upTo_⟩
    simp [Forest.events] at mem
    rcases mem with ⟨-, isRange⟩
    subst isRange
    dsimp only at from_ upTo_
    omega
  · intro one
    subst one
    refine ⟨⟨['a'], ⟨1, 2⟩, by simp [Forest.events], by decide, by decide⟩, ?_⟩
    intro tag range mem block
    have whole : range = ⟨0, byteLen source⟩ := by
      simp [Forest.events] at mem
      rcases mem with ⟨-, isRange⟩ | ⟨-, isRange⟩ <;> exact isRange
    subst whole
    dsimp only
    omega

/-- A located link that is read in such a Note is the one that the Note is. -/
theorem cut_of_plain {source : Text} {link : InlineLink} {spot : LinkSpot} {destination : Destination}
    (plain : plainDestination? source = some destination)
    (isSpot : spot = ⟨plainUrl destination, ⟨0, byteLen source⟩, 2⟩)
    (at_ : LinkAt source spot link) (located : Located link) :
    link.upToDestination = "[a](".toList ∧ link.destination.text = destination.text ∧
      link.ending.text ++ link.trail = [')'] := by
  rcases source_of_plain plain with ⟨isSource, some_, unescaped⟩
  let whole := linkTo .empty destination (.plain .empty) fun backslash => absurd backslash unescaped
  have same : whole.source = source := by
    rw [isSource]
    simp [whole, linkTo, InlineLink.source, InlineLink.upToEnd, InlineLink.upToDestination,
      Place.opening, LinkText.text, Gap.text, Gap.empty, Ending.text]
  have span : whole.span = link.span := by
    rw [at_.span_eq, isSpot, ← same, InlineLink.source, show whole.trail = [] from rfl,
      List.append_nil]
    rfl
  have textEnd : whole.textEnd = link.textEnd := by
    rw [at_.textEnd_eq, isSpot]
    show Place.textEnd ⟨[], false⟩ ⟨['a'], [], _, _⟩ = 2
    decide
  have range : link.destinationRange = whole.destinationRange := by
    apply Option.some.inj
    rw [← (destinationSpan_inline link).mpr located,
      ← (destinationSpan_inline whole).mpr ⟨show Gap.empty.Unquoted by decide, some_, unescaped⟩, same, span, textEnd,
      at_.source_eq]
  apply @cut_of_range link [] "[a](".toList destination.text [')'] (at_.source_eq.trans isSource)
  · rw [range, byteLen_nil, Nat.zero_add]
    rfl
  · rw [range, destinationRange_stop, byteLen_nil, Nat.zero_add]
    rfl

theorem plain_opaque : Opaque plainStreams := by
  intro link spot url mem at_ located line _
  rcases mem_spots_plain mem with ⟨destination, plain, isSpot⟩
  rcases cut_of_plain plain isSpot at_ located with ⟨upTo, -, after⟩
  rcases readsAs_serializeDestination.mpr ⟨rfl, line⟩ with ⟨body, isText, accepted, -, isUrl⟩
  have isOut : redirected link (serializeDestination url) =
      "[a](".toList ++ ('<' :: body ++ ['>']) ++ [')'] := by
    rw [redirected, upTo, isText, List.append_assoc _ _ link.trail, after]
  have isPlain := plainDestination?_pointy accepted
  rw [← isOut] at isPlain
  have four : byteLen link.upToDestination = 4 := by
    rw [upTo]
    decide
  have old := spots_of_plain plain
  have only (other : LinkSpot)
      (mem' : other ∈ spots .linksAndImages (plainStreams link.source).forest) : other = spot := by
    rw [old] at mem'
    rw [isSpot]
    exact List.mem_singleton.mp mem'
  refine ⟨fun _ => ⟨url, ⟨0, byteLen (redirected link (serializeDestination url))⟩, 2⟩, ?_, ?_, ?_, ?_, ?_⟩
  · rw [spots_of_plain isPlain, old, List.map_singleton, plainUrl, isUrl]
  · intro _ _
    rfl
  · intro other mem' absent
    exact absurd (List.mem_singleton.mpr (only other mem')) absent
  · intro other mem' upTo_
    rw [only other mem', isSpot, four] at upTo_
    have further := destinationRange_lt link
    rw [at_.span_eq, isSpot, destinationRange_stop] at further
    have start : link.destinationRange.start = 4 := four
    dsimp only at upTo_ further
    omega
  · intro first upTo_ second upTo_'
    rw [four] at upTo_ upTo_'
    rw [openAt_plain isPlain upTo_ upTo_', openAt_plain plain upTo_ upTo_']

/-- Where nothing but the bracket of the link is in front of its destination, nothing is open. -/
theorem plainLink_unenclosed {source : Text} {stream : EventStream source} {link : InlineLink}
    (upTo : link.upToDestination = "[a](".toList) (isText : link.destination.text = ['x']) :
    ¬ Enclosed stream link "</x>".toList := by
  have absent {front mark mid : Text} {c : Char} (split : link.upToDestination = front ++ mark ++ mid)
      (mem : c ∈ mark) : c ∈ "[a](".toList := by
    rw [← upTo, split]
    simp [mem]
  intro enclosed
  cases enclosed with
  | code split => exact absurd (absent split (List.mem_replicate.mpr ⟨Nat.succ_ne_zero _, rfl⟩)) (by decide)
  | html kind split =>
    have opened : '<' ∈ "[a](".toList := by
      apply absent split
      simp [rawHtml] at kind
      rcases kind with ⟨rfl, -⟩ | ⟨rfl, -⟩ | ⟨rfl, -⟩ <;> decide
    exact absurd opened (by decide)
  | declaration _ split => exact absurd (absent split List.mem_cons_self) (by decide)
  | tag _ split => exact absurd (absent split List.mem_cons_self) (by decide)
  | outer _ _ _ held =>
    rw [isText] at held
    exact absurd held (by decide)
  | definition _ _ held =>
    rw [isText] at held
    exact absurd held (by decide)
  | fence opener held =>
    rw [isText] at held
    exact absurd held (by decide)
  | line wraps =>
    rcases Option.isSome_iff_exists.mp wraps with ⟨wrapped, isWrap⟩
    have broken (ending : LineEnding) : ∃ c ∈ ending.text, isLineEnding c = true := by
      cases ending
      · exact ⟨'\n', by decide, by decide⟩
      · exact ⟨'\r', by decide, by decide⟩
      · exact ⟨'\r', by decide, by decide⟩
    rcases broken wrapped.1 with ⟨c, mem, isEnding⟩
    have inside : c ∈ "[a](".toList := by
      rw [← upTo, InlineLink.upToDestination, Gap.text, isWrap]
      simp [mem]
    have unbroken : ∀ c ∈ "[a](".toList, isLineEnding c = false :=
      List.all_iff_forall_prop.mp (by decide)
    rw [unbroken c inside] at isEnding
    cases isEnding

/-- `<a@b.com>`, an email address in a Note. -/
def email : Autolink := ⟨[], "a@b.com".toList, []⟩

def emailStream : EventStream email.source where
  forest := .node .paragraph ⟨0, 9⟩
    (.node (.link "a@b.com".toList) ⟨0, 9⟩ (.leaf (.text "a@b.com".toList) ⟨1, 8⟩ .nil) .nil) .nil
  conforms := by decide +kernel
  placed := by decide +kernel

end Burlmd.Workspace
