import Burlmd.Interface.LinkPlans

/-!
# Where painted Links lead

A Link leads to its own target when the Links draw in the order in which they are painted.
-/

namespace Burlmd.Interface

open Deferred
open Markdown
open Okf (ConceptId)
open Utf8 (Text)

/-! ## The active Links -/

section Active

mutual

theorem internalLinks_eq (node : AstNode) :
    internalLinks node = internalLinksInInlines (elements node) := by
  cases node with
  | list _ children | listItem children _ | blockquote children | suggestion _ children _ =>
    rw [internalLinks, elements]
    exact internalLinksEach_eq children
  | paragraph _ | heading _ _ | codeBlock _ _ | image _ _ | thematicBreak => rfl

theorem internalLinksEach_eq (nodes : List AstNode) :
    internalLinksEach nodes = internalLinksInInlines (elementsEach nodes) := by
  cases nodes with
  | nil => rfl
  | cons node rest =>
    rw [internalLinksEach, elementsEach, internalLinksInInlines_append, internalLinks_eq node,
      internalLinksEach_eq rest]

end

theorem internalLinkCountBefore_eq (nodes : List AstNode) (stop : Nat) :
    internalLinkCountBefore nodes stop = linkCount (elementsEach (nodes.take stop)) := by
  have from_ (before : List AstNode) (count : Nat) :
      before.foldl (fun count node => count + (internalLinks node).length) count =
        count + linkCount (elementsEach before) := by
    induction before generalizing count with
    | nil => rfl
    | cons node rest ih =>
      have own : (internalLinks node).length = linkCount (elements node) :=
        congrArg List.length (internalLinks_eq node)
      rw [List.foldl_cons, ih, elementsEach, linkCount_append, own, Nat.add_assoc]
  exact (from_ _ 0).trans (Nat.zero_add _)

variable {node focusedNode child : AstNode} {path : List Nat} {index : Nat}

theorem elements_children (children : childNodes node ≠ []) :
    elements node = elementsEach (childNodes node) := by
  cases node with
  | list _ _ | listItem _ _ | blockquote _ | suggestion _ _ _ => rfl
  | paragraph _ | heading _ _ | codeBlock _ _ | image _ _ | thematicBreak =>
    exact absurd rfl children

theorem internalLinkPrefixForPath_found {remaining : List Nat}
    (found : (childNodes node)[index]? = some child) :
    internalLinkPrefixForPath (index :: remaining) node =
      internalLinkCountBefore (childNodes node) index + internalLinkPrefixForPath remaining child := by
  cases node with
  | list _ children | listItem children _ | blockquote children | suggestion _ children _ =>
    have at_ : children[index]? = some child := found
    rw [internalLinkPrefixForPath, at_]
    rfl
  | paragraph _ | heading _ _ | codeBlock _ _ | image _ _ | thematicBreak => cases found

/-- The content of a Block, cut around the node at a path. -/
theorem elements_around (found : nodeAtPath path node = some focusedNode) :
    ∃ before after, elements node = before ++ (elements focusedNode ++ after) ∧
      internalLinkPrefixForPath path node = linkCount before ∧
      elementsOutside path node = before ++ after := by
  induction path generalizing node with
  | nil =>
    rw [← Option.some.inj found]
    exact ⟨[], [], (List.append_nil _).symm, rfl, rfl⟩
  | cons index remaining ih =>
    rw [nodeAtPath_cons] at found
    rcases Option.bind_eq_some_iff.mp found with ⟨child, at_, below⟩
    rcases ih below with ⟨before, after, whole, count, outside⟩
    rcases List.getElem?_eq_some_iff.mp at_ with ⟨inside, isChild⟩
    have some_ : childNodes node ≠ [] := by
      intro empty
      rw [empty] at inside
      exact Nat.not_lt_zero _ inside
    have cut : childNodes node =
        (childNodes node).take index ++ child :: (childNodes node).drop (index + 1) := by
      rw [← isChild, List.getElem_cons_drop, List.take_append_drop]
    refine ⟨elementsEach ((childNodes node).take index) ++ before,
      after ++ elementsEach ((childNodes node).drop (index + 1)), ?_, ?_, ?_⟩
    · conv_lhs => rw [elements_children some_, cut, elementsEach_append, elementsEach, whole]
      simp only [List.append_assoc]
    · rw [internalLinkPrefixForPath_found at_, internalLinkCountBefore_eq, linkCount_append, count]
    · rw [elementsOutside_found at_, outside]
      simp only [List.append_assoc]

/-- The active Links are those of the content that is not edited. -/
theorem internalLinksOutsideFocusedPath_eq (found : nodeAtPath path node = some focusedNode) :
    internalLinksOutsideFocusedPath node path =
      internalLinksInInlines (elementsOutside path node) := by
  rcases elements_around found with ⟨before, after, whole, count, outside⟩
  unfold internalLinksOutsideFocusedPath
  rw [found, outside, internalLinksInInlines_append]
  dsimp only
  rw [internalLinks_eq, whole, count, internalLinks_eq focusedNode, internalLinksInInlines_append,
    internalLinksInInlines_append]
  unfold linkCount
  rw [List.take_left, ← List.append_assoc, ← List.length_append, List.drop_left]

end Active

/-! ## Identities -/

section Identities

variable {occurrences : ConceptId → Option Nat} {links : List InternalLink}

theorem linkIdentitiesFrom_targets :
    (linkIdentitiesFrom occurrences links).map LinkIdentity.targetId =
      links.map InternalLink.targetId := by
  induction links generalizing occurrences with
  | nil => rfl
  | cons link rest ih => exact congrArg (link.targetId :: ·) ih

/-- Later identities of a target have higher occurrences than the last one that was given. -/
theorem linkIdentitiesFrom_after {identity : LinkIdentity}
    (inside : identity ∈ linkIdentitiesFrom occurrences links) {last : Nat}
    (given : occurrences identity.targetId = some last) : last < identity.occurrence := by
  induction links generalizing occurrences last with
  | nil => cases inside
  | cons link rest ih =>
    rcases List.mem_cons.mp inside with own | behind
    · rw [own] at given ⊢
      dsimp only at given ⊢
      rw [given]
      exact Nat.lt_succ_self last
    · by_cases same : identity.targetId = link.targetId
      · have next : Function.update occurrences link.targetId (some (last + 1)) identity.targetId =
            some (last + 1) := by rw [same, Function.update_self]
        have behind' := behind
        rw [same] at given
        rw [given] at behind'
        exact Nat.lt_of_succ_lt (ih behind' next)
      · apply ih behind
        rw [Function.update_of_ne same]
        exact given

theorem linkIdentitiesFrom_nodup : (linkIdentitiesFrom occurrences links).Nodup := by
  induction links generalizing occurrences with
  | nil => exact List.nodup_nil
  | cons link rest ih =>
    apply List.nodup_cons.mpr
    refine ⟨?_, ih⟩
    intro again
    have later := linkIdentitiesFrom_after again (Function.update_self _ _ _)
    exact Nat.lt_irrefl _ later

end Identities

/-! ## Links inside of Links -/

mutual

/-- All internal Links of an element, at any depth. -/
def allLinks : InlineElement → Nat
  | .text _ => 0
  | .link _ _ content => 1 + allLinksEach content
  | .externalLink _ content => allLinksEach content

def allLinksEach : List InlineElement → Nat
  | [] => 0
  | element :: rest => allLinks element + allLinksEach rest

end

/-- The internal Links that stand inside of another Link. -/
def nestedLinks : List InlineElement → Nat
  | [] => 0
  | .text _ :: rest => nestedLinks rest
  | .link _ _ content :: rest | .externalLink _ content :: rest =>
      allLinksEach content + nestedLinks rest

mutual

theorem renderInline_links (element : InlineElement) :
    (renderInline element).links.length = allLinks element := by
  cases element with
  | text run => rfl
  | link target_id exists_ content =>
    rw [renderInline, InlineSpan.links, allLinks, List.length_cons, renderInlines_links content,
      Nat.add_comm]
  | externalLink url content =>
    rw [renderInline, InlineSpan.links, allLinks, renderInlines_links content]

theorem renderInlines_links (content : List InlineElement) :
    (linksEach (renderInlines content)).length = allLinksEach content := by
  cases content with
  | nil => rfl
  | cons element rest =>
    rw [renderInlines, linksEach, allLinksEach, List.length_append, renderInline_links element,
      renderInlines_links rest]

end

section Recognizer

variable (recognizer : Option LinkIdentity)

mutual

theorem linkElement_links (element : InlineElement) :
    (linkElementWithRecognizer recognizer element).links.length = allLinks element := by
  cases element with
  | text run => rfl
  | link target_id exists_ content =>
    rw [linkElementWithRecognizer, InlineSpan.links, allLinks, List.length_cons,
      linkContent_links content, Nat.add_comm]
  | externalLink url content =>
    rw [linkElementWithRecognizer, InlineSpan.links, allLinks, linkContent_links content]

theorem linkContent_links (content : List InlineElement) :
    (linksEach (linkContentWithRecognizer recognizer content)).length = allLinksEach content := by
  cases content with
  | nil => rfl
  | cons element rest =>
    rw [linkContentWithRecognizer, linksEach, allLinksEach, List.length_append,
      linkElement_links element, linkContent_links rest]

end

mutual

theorem linkElement_runs (element : InlineElement) :
    ∀ run ∈ (linkElementWithRecognizer recognizer element).runs, run.2 = recognizer := by
  cases element with
  | text run =>
    intro painted inside
    rw [List.mem_singleton.mp inside]
  | link target_id exists_ content | externalLink url content =>
    rw [linkElementWithRecognizer, InlineSpan.runs]
    exact linkContent_runs content

/-- Each text of a Link has the recognizer of the Link. -/
theorem linkContent_runs (content : List InlineElement) :
    ∀ run ∈ runsEach (linkContentWithRecognizer recognizer content), run.2 = recognizer := by
  cases content with
  | nil =>
    intro run inside
    cases inside
  | cons element rest =>
    intro run inside
    rw [linkContentWithRecognizer, runsEach] at inside
    rcases List.mem_append.mp inside with own | behind
    · exact linkElement_runs element run own
    · exact linkContent_runs rest run behind

end

end Recognizer

/-- The Links that draw, with their content. -/
def topLinks : List InlineElement → List (ConceptId × List InlineElement)
  | [] => []
  | .link targetId _ content :: rest => (targetId, content) :: topLinks rest
  | .text _ :: rest | .externalLink _ _ :: rest => topLinks rest

/-- A Link that was given a number. -/
def paintLink (identities : List LinkIdentity) (link : ConceptId × List InlineElement)
    (number : Nat) : PaintedLink :=
  ⟨link.1, identities[number]?, runsEach (linkContentWithRecognizer identities[number]? link.2)⟩

section Painted

variable {identities : List LinkIdentity} {content : List InlineElement} {numbers : List Nat}

theorem topLinks_targets :
    (topLinks content).map Prod.fst = (internalLinksInInlines content).map InternalLink.targetId := by
  induction content with
  | nil => rfl
  | cons element rest ih =>
    cases element with
    | text run => exact ih
    | link targetId exists_ inner => exact congrArg (targetId :: ·) ih
    | externalLink url inner => exact ih

theorem paintElements_length (enough : numbers.length = linkCount content) :
    (paintElements identities content numbers).length = linkCount content + nestedLinks content := by
  induction content generalizing numbers with
  | nil => rfl
  | cons element rest ih =>
    cases element with
    | text run => exact ih enough
    | externalLink url inner =>
      have own := renderInline_links (.externalLink url inner)
      have onward := ih enough
      have count : linkCount (.externalLink url inner :: rest) = linkCount rest := rfl
      rw [allLinks] at own
      rw [paintElements, List.length_append, onward, own, count, nestedLinks]
      · omega
      all_goals
        intros
        contradiction
    | link targetId exists_ inner =>
      cases numbers with
      | nil => exact absurd enough.symm (Nat.succ_ne_zero _)
      | cons number numbers =>
        have onward := ih (Nat.succ.inj enough)
        have own := linkContent_links identities[number]? inner
        have count : linkCount (.link targetId exists_ inner :: rest) = linkCount rest + 1 :=
          rfl
        rw [paintElements, List.length_append, onward, linkSpan, InlineSpan.links, List.length_cons,
          own, count, nestedLinks]
        omega

/-- Without Links inside of Links each painted Link is one that drew. -/
theorem paintElements_eq (enough : numbers.length = linkCount content)
    (flat : nestedLinks content = 0) :
    paintElements identities content numbers =
      List.zipWith (paintLink identities) (topLinks content) numbers := by
  induction content generalizing numbers with
  | nil => rfl
  | cons element rest ih =>
    cases element with
    | text run => exact ih enough flat
    | externalLink url inner =>
      rw [nestedLinks, Nat.add_eq_zero_iff] at flat
      have own := renderInline_links (.externalLink url inner)
      rw [allLinks, flat.1, List.length_eq_zero_iff] at own
      have onward := ih enough flat.2
      rw [paintElements, own, List.nil_append, onward, topLinks]
      all_goals
        intros
        contradiction
    | link targetId exists_ inner =>
      cases numbers with
      | nil => exact absurd enough.symm (Nat.succ_ne_zero _)
      | cons number numbers =>
        rw [nestedLinks, Nat.add_eq_zero_iff] at flat
        have own := linkContent_links identities[number]? inner
        rw [flat.1, List.length_eq_zero_iff] at own
        have onward := ih (Nat.succ.inj enough) flat.2
        rw [paintElements, onward, topLinks, List.zipWith_cons_cons, linkSpan, InlineSpan.links, own]
        rfl

end Painted

/-! ## Where Links lead -/

/-- A leaf is edited, or none. -/
def FocusedLeaf (node : AstNode) : Option (List Nat) → Prop
  | none => True
  | some path => LeafAt path node

/-- The content of a Block that is not edited. -/
def shownElements (node : AstNode) : Option (List Nat) → List InlineElement
  | none => elements node
  | some path => elementsOutside path node

def linkPlan (node : AstNode) : Option (List Nat) → Plan
  | none => plan node
  | some path => planOutside path node

/-- The Link received the identity with a number, which has its target, and all of its texts did. -/
def Leads (identities : List LinkIdentity) (k : Nat) (link : PaintedLink) : Prop :=
  ∃ identity, identities[k]? = some identity ∧ link.recognizer = some identity ∧
    identity.targetId = link.targetId ∧ ∀ run ∈ link.runs, run.2 = some identity

/-- Each painted Link leads by the identity with its number. No Link found the list too short, and
none was left. -/
structure LinksLead (node : AstNode) (focusedLeafPath : Option (List Nat)) : Prop where
  count : (paintedLinks (BlockView.surface node focusedLeafPath true).1).length =
    (linkIdentities (activeLinks node focusedLeafPath)).length
  lead : ∀ k link, (paintedLinks (BlockView.surface node focusedLeafPath true).1)[k]? = some link →
    Leads (linkIdentities (activeLinks node focusedLeafPath)) k link
  counter : (BlockView.surface node focusedLeafPath true).2 =
    (linkIdentities (activeLinks node focusedLeafPath)).length

section Numbers

variable {identities : List LinkIdentity} {links : List (ConceptId × List InlineElement)}
  {numbers : List Nat}

/-- Links lead by their numbers exactly when they were given those. -/
theorem leads_iff (distinct : identities.Nodup)
    (targets : links.map Prod.fst = identities.map LinkIdentity.targetId)
    (enough : numbers.length = identities.length) :
    (∀ k link, (List.zipWith (paintLink identities) links numbers)[k]? = some link →
        Leads identities k link) ↔ numbers = List.range identities.length := by
  have lengths := congrArg List.length targets
  rw [List.length_map, List.length_map] at lengths
  constructor
  · intro lead
    apply List.ext_getElem
    · rw [enough, List.length_range]
    · intro k inside _
      have bounded : k < links.length := by omega
      have painted : (List.zipWith (paintLink identities) links numbers)[k]? =
          some (paintLink identities links[k] numbers[k]) := by
        rw [List.getElem?_zipWith, List.getElem?_eq_getElem bounded,
          List.getElem?_eq_getElem inside]
      rcases lead k _ painted with ⟨identity, own, received, _, _⟩
      have same : identities[k]? = identities[numbers[k]]? := own.trans received.symm
      rw [List.getElem_range]
      have within : k < identities.length := by omega
      exact ((List.getElem?_inj within distinct).mp same).symm
  · intro counts k link painted
    rw [List.getElem?_zipWith_eq_some] at painted
    rcases painted with ⟨top, number, at_top, at_number, own⟩
    rw [counts] at at_number
    have bounded := (List.getElem?_eq_some_iff.mp at_number).1
    rw [List.length_range] at bounded
    rw [List.getElem?_range bounded] at at_number
    have here := List.getElem?_eq_getElem bounded
    have target := congrArg (·[k]?) targets
    rw [List.getElem?_map, List.getElem?_map, at_top, here] at target
    rw [← own, ← Option.some.inj at_number]
    refine ⟨identities[k], here, here, (Option.some.inj target).symm, ?_⟩
    intro run inside
    rw [← here]
    exact linkContent_runs _ _ run inside

end Numbers

section Lead

variable {node : AstNode} {focusedLeafPath : Option (List Nat)}

theorem activeLinks_eq (focused : FocusedLeaf node focusedLeafPath) :
    activeLinks node focusedLeafPath =
      internalLinksInInlines (shownElements node focusedLeafPath) := by
  cases focusedLeafPath with
  | none => exact internalLinks_eq node
  | some path =>
    rcases focused with ⟨leaf, found, _⟩
    exact internalLinksOutsideFocusedPath_eq found

theorem linkIdentities_length (links : List InternalLink) :
    (linkIdentities links).length = links.length := by
  have targets : (linkIdentities links).map LinkIdentity.targetId = links.map InternalLink.targetId :=
    linkIdentitiesFrom_targets
  have lengths := congrArg List.length targets
  rw [List.length_map, List.length_map] at lengths
  exact lengths

/-- A Block draws by its plan. -/
theorem build_draws (focused : FocusedLeaf node focusedLeafPath) :
    Draws (linkIdentities (activeLinks node focusedLeafPath))
      (BlockView.buildFrom node focusedLeafPath true) (linkPlan node focusedLeafPath)
      (shownElements node focusedLeafPath) := by
  cases focusedLeafPath with
  | none => exact renderBlockForView_draws node
  | some path => exact renderBlockWithFocusedLeaf_draws renderBlockForView_draws path node focused

theorem surface_draws (focused : FocusedLeaf node focusedLeafPath) :
    (BlockView.surface node focusedLeafPath true).2 =
        linkCount (shownElements node focusedLeafPath) ∧
      paintedLinks (BlockView.surface node focusedLeafPath true).1 =
        paintElements (linkIdentities (activeLinks node focusedLeafPath))
          (shownElements node focusedLeafPath)
          ((linkPlan node focusedLeafPath).place 0 (linkPlan node focusedLeafPath).eager) := by
  have draws := build_draws focused
  have drawn : (BlockView.build node focusedLeafPath true).2 =
      (linkPlan node focusedLeafPath).eager := (draws.eager 0).trans (Nat.zero_add _)
  unfold BlockView.surface
  dsimp only
  rw [drawn]
  exact ⟨(draws.deferred 0 _).trans draws.total, draws.painted 0 _⟩

/-- Links lead to their own targets exactly when they draw in the order in which they are painted and
no Link stands inside of another. -/
theorem links_lead_iff (focused : FocusedLeaf node focusedLeafPath) :
    LinksLead node focusedLeafPath ↔
      (linkPlan node focusedLeafPath).inOrder = true ∧
        nestedLinks (shownElements node focusedLeafPath) = 0 := by
  have total := (build_draws focused).total
  rcases surface_draws focused with ⟨counter, painted⟩
  have active := activeLinks_eq focused
  have length : (linkIdentities (activeLinks node focusedLeafPath)).length =
      linkCount (shownElements node focusedLeafPath) :=
    (linkIdentities_length _).trans (congrArg List.length active)
  have enough : ((linkPlan node focusedLeafPath).place 0
      (linkPlan node focusedLeafPath).eager).length =
        linkCount (shownElements node focusedLeafPath) := Plan.place_length.trans total
  have distinct : (linkIdentities (activeLinks node focusedLeafPath)).Nodup :=
    linkIdentitiesFrom_nodup
  have targets : (topLinks (shownElements node focusedLeafPath)).map Prod.fst =
      (linkIdentities (activeLinks node focusedLeafPath)).map LinkIdentity.targetId := by
    rw [topLinks_targets, ← active]
    exact linkIdentitiesFrom_targets.symm
  have numbered := leads_iff distinct targets (enough.trans length.symm)
  rw [length, ← total, Plan.place_eq_range_iff] at numbered
  constructor
  · intro leads
    have count := leads.count
    rw [painted, paintElements_length enough, length] at count
    have flat : nestedLinks (shownElements node focusedLeafPath) = 0 := by omega
    have lead := leads.lead
    rw [painted, paintElements_eq enough flat] at lead
    exact ⟨numbered.mp lead, flat⟩
  · intro both
    rcases both with ⟨ordered, flat⟩
    constructor
    · rw [painted, paintElements_length enough, flat, length]
      exact Nat.add_zero _
    · rw [painted, paintElements_eq enough flat]
      exact numbered.mpr ordered
    · exact counter.trans length.symm

end Lead

/-! ## Two Blocks -/

def linked (targetId : ConceptId) : AstNode :=
  .paragraph [.link targetId true [.text ⟨targetId, false, false, false, false⟩]]

/-- An item with a Link, a List with a Link, and one more Link. -/
def outline (last : List AstNode) : AstNode :=
  .list false [.listItem (linked ['a'] :: .list false [.listItem [linked ['b']] none] :: last) none]

theorem links_lead_outline : FocusedLeaf (outline []) none ∧ LinksLead (outline []) none := by
  have focused : FocusedLeaf (outline []) none := trivial
  refine ⟨focused, (links_lead_iff focused).mpr ?_⟩
  decide

/-- The last Link of the outer item opens what the Link of the inner List names. -/
theorem links_cross : ¬ LinksLead (outline [linked ['c']]) none ∧
    (paintedLinks (BlockView.surface (outline [linked ['c']]) none true).1).map
        (fun link => (link.targetId, link.recognizer.map LinkIdentity.targetId)) =
      [(['a'], some ['a']), (['b'], some ['c']), (['c'], some ['b'])] := by
  constructor
  · intro leads
    have painted : (paintedLinks (BlockView.surface (outline [linked ['c']]) none true).1)[1]? =
        some ⟨['b'], some ⟨['c'], 0⟩, [(['b'], some ⟨['c'], 0⟩)]⟩ := by
      rfl
    rcases leads.lead 1 _ painted with ⟨identity, _, received, target, _⟩
    rw [← Option.some.inj received] at target
    revert target
    decide
  · decide

end Burlmd.Interface
