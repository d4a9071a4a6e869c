import Burlmd.Interface.Widgets
import Burlmd.Library.Deferred

/-!
# The order in which Links draw

A Block draws identities for its Links while it is built, and for the bodies of items when their
Builders are inflated. Each way of rendering follows a plan of what draws when.
-/

namespace Burlmd.Interface

open Deferred
open Markdown
open Okf (ConceptId)
open Utf8 (Text)

/-! ## Painted Links -/

/-- A Link on the screen: its target, the recognizer it received, and its texts with theirs. -/
structure PaintedLink where
  targetId : ConceptId
  recognizer : Option LinkIdentity
  runs : List (Text × Option LinkIdentity)

mutual

def InlineSpan.runs : InlineSpan → List (Text × Option LinkIdentity)
  | .text content recognizer => [(content, recognizer)]
  | .group children | .link _ _ children => runsEach children

def runsEach : List InlineSpan → List (Text × Option LinkIdentity)
  | [] => []
  | span :: rest => span.runs ++ runsEach rest

end

mutual

def InlineSpan.links : InlineSpan → List PaintedLink
  | .text _ _ => []
  | .group children => linksEach children
  | .link targetId identity children => ⟨targetId, identity, runsEach children⟩ :: linksEach children

def linksEach : List InlineSpan → List PaintedLink
  | [] => []
  | span :: rest => span.links ++ linksEach rest

end

/-- The Links that can be seen, in their order. -/
def paintedLinks : RenderObject → List PaintedLink
  | .blank | .baseline _ | .paragraph (.icon _) => []
  | .paragraph (.rich spans) => linksEach spans
  | .nonDocumentText child => paintedLinks child
  | .beside first second => paintedLinks first ++ paintedLinks second

/-! ## Inline content and numbers -/

def linkCount (elements : List InlineElement) : Nat := (internalLinksInInlines elements).length

/-- The Links of inline content that was given numbers in its order. -/
def paintElements (identities : List LinkIdentity) : List InlineElement → List Nat → List PaintedLink
  | [], _ => []
  | .link targetId exists_ content :: rest, number :: numbers =>
      (linkSpan identities targetId exists_ content number).1.links ++
        paintElements identities rest numbers
  | .link .. :: _, [] => []
  | element :: rest, numbers => (renderInline element).links ++ paintElements identities rest numbers

section Elements

variable {identities : List LinkIdentity}

theorem internalLinksInInlines_append (first second : List InlineElement) :
    internalLinksInInlines (first ++ second) =
      internalLinksInInlines first ++ internalLinksInInlines second := by
  induction first with
  | nil => rfl
  | cons element rest ih =>
    cases element with
    | link targetId exists_ content => exact congrArg (InternalLink.mk _ _ _ :: ·) ih
    | text run => exact ih
    | externalLink url content => exact ih

theorem linkCount_append (first second : List InlineElement) :
    linkCount (first ++ second) = linkCount first + linkCount second := by
  unfold linkCount
  rw [internalLinksInInlines_append, List.length_append]

theorem paintElements_append {first second : List InlineElement} {numbers others : List Nat}
    (enough : numbers.length = linkCount first) :
    paintElements identities (first ++ second) (numbers ++ others) =
      paintElements identities first numbers ++ paintElements identities second others := by
  induction first generalizing numbers with
  | nil =>
    rw [List.length_eq_zero_iff.mp enough]
    rfl
  | cons element rest ih =>
    cases element with
    | text run => exact (congrArg (_ ++ ·) (ih enough)).trans (List.append_assoc _ _ _).symm
    | externalLink url content =>
      exact (congrArg (_ ++ ·) (ih enough)).trans (List.append_assoc _ _ _).symm
    | link targetId exists_ content =>
      cases numbers with
      | nil => exact absurd enough.symm (Nat.succ_ne_zero _)
      | cons number numbers =>
        exact (congrArg (_ ++ ·) (ih (Nat.succ.inj enough))).trans (List.append_assoc _ _ _).symm

/-- Inline content draws one number for each of its Links, in order. -/
theorem interactiveInlines_draws (content : List InlineElement) (renderedLinkIndex : Nat) :
    (interactiveInlines (linkSpan identities) content renderedLinkIndex).2 =
        renderedLinkIndex + linkCount content ∧
      linksEach (interactiveInlines (linkSpan identities) content renderedLinkIndex).1 =
        paintElements identities content (List.range' renderedLinkIndex (linkCount content)) := by
  induction content generalizing renderedLinkIndex with
  | nil => exact ⟨rfl, rfl⟩
  | cons element rest ih =>
    cases element with
    | text run =>
      have onward := ih renderedLinkIndex
      exact ⟨onward.1, congrArg (_ ++ ·) onward.2⟩
    | externalLink url inner =>
      have onward := ih renderedLinkIndex
      exact ⟨onward.1, congrArg (_ ++ ·) onward.2⟩
    | link targetId exists_ inner =>
      have onward := ih (renderedLinkIndex + 1)
      have count : linkCount (.link targetId exists_ inner :: rest) = linkCount rest + 1 := rfl
      rw [count]
      refine ⟨onward.1.trans (by omega), ?_⟩
      rw [List.range'_succ]
      exact congrArg (_ ++ ·) onward.2

end Elements

/-! ## Plans of nodes -/

mutual

/-- The inline content of a node, in order. -/
def elements : AstNode → List InlineElement
  | .paragraph content | .heading _ content => content
  | .list _ items => elementsEach items
  | .listItem content _ => elementsEach content
  | .blockquote nodes => elementsEach nodes
  | .suggestion _ local_content _ => elementsEach local_content
  | .codeBlock .. | .image .. | .thematicBreak => []

def elementsEach : List AstNode → List InlineElement
  | [] => []
  | node :: rest => elements node ++ elementsEach rest

end

mutual

/-- What a node draws at once; the body of an item of a List is put off. -/
def plan : AstNode → Plan
  | .paragraph content | .heading _ content => .draw (linkCount content)
  | .list _ items => planItems items
  | .listItem content _ => planEach content
  | .blockquote nodes => planEach nodes
  | .suggestion _ local_content _ => planEach local_content
  | .codeBlock .. | .image .. | .thematicBreak => .draw 0

def planEach : List AstNode → Plan
  | [] => .draw 0
  | node :: rest => .both (plan node) (planEach rest)

def planItems : List AstNode → Plan
  | [] => .draw 0
  | .listItem content _ :: rest => .both (.later (planEach content)) (planItems rest)
  | node :: rest => .both (plan node) (planItems rest)

end

/-- The plan of an item of a List that is not edited. -/
def itemPlan : AstNode → Plan
  | .listItem content _ => .later (planEach content)
  | node => plan node

theorem planItems_cons (node : AstNode) (rest : List AstNode) :
    planItems (node :: rest) = .both (itemPlan node) (planItems rest) := by
  cases node with
  | listItem content checked => rw [planItems, itemPlan]
  | heading _ _ | paragraph _ | list _ _ | blockquote _ | codeBlock _ _ | thematicBreak
  | image _ _ | suggestion _ _ _ =>
    rw [planItems, itemPlan]
    all_goals
      intro _ _ never
      cases never

/-- The inline content of a node beside the leaf at a path. -/
def elementsOutside : List Nat → AstNode → List InlineElement
  | [], _ => []
  | index :: remaining, node =>
      match node with
      | .list _ children | .listItem children _ | .blockquote children
      | .suggestion _ children _ =>
          match children[index]? with
          | some child => elementsEach (children.take index) ++
              (elementsOutside remaining child ++ elementsEach (children.drop (index + 1)))
          | none => elementsEach children
      | node => elements node

/-- What a node draws while the leaf at a path is edited. The children of a node that holds the leaf
are built at once, but for items beside it. -/
def planOutside : List Nat → AstNode → Plan
  | [], _ => .draw 0
  | index :: remaining, node =>
      match node with
      | .list _ items =>
          match items[index]? with
          | some item => .both (planItems (items.take index))
              (.both (planOutside remaining item) (planItems (items.drop (index + 1))))
          | none => planItems items
      | .listItem children _ | .blockquote children | .suggestion _ children _ =>
          match children[index]? with
          | some child => .both (planEach (children.take index))
              (.both (planOutside remaining child) (planEach (children.drop (index + 1))))
          | none => planEach children
      | node => plan node

theorem planEach_eq (nodes : List AstNode) : planEach nodes = Plan.all (nodes.map plan) := by
  induction nodes with
  | nil => rw [planEach, List.map_nil, Plan.all]
  | cons node rest ih => rw [planEach, List.map_cons, Plan.all, ih]

theorem planItems_eq (items : List AstNode) : planItems items = Plan.all (items.map itemPlan) := by
  induction items with
  | nil => rw [planItems, List.map_nil, Plan.all]
  | cons node rest ih => rw [planItems_cons, List.map_cons, Plan.all, ih]

/-! ## Builds that follow a plan -/

/-- The build draws what the plan draws at once and, when it is inflated, what the plan put off; the
Links are painted by the numbers that the plan gives them. -/
structure Draws (identities : List LinkIdentity) (build : Nat → Widget × Nat) (plan : Plan)
    (content : List InlineElement) : Prop where
  total : plan.total = linkCount content
  eager : ∀ now, (build now).2 = now + plan.eager
  deferred : ∀ now after, ((build now).1.inflate after).2 = after + plan.deferred
  painted : ∀ now after, paintedLinks ((build now).1.inflate after).1 =
    paintElements identities content (plan.place now after)

/-- A build of the children of one widget. -/
def DrawsEach (identities : List LinkIdentity) (build : Nat → List Widget × Nat) (plan : Plan)
    (content : List InlineElement) : Prop :=
  Draws identities (fun now => (.children (build now).1, (build now).2)) plan content

/-- Nothing is drawn and no Link is painted. -/
def Still (widget : Widget) : Prop :=
  ∀ after, (widget.inflate after).2 = after ∧ paintedLinks (widget.inflate after).1 = []

/-- Nothing is drawn and no Link is painted beside the child. -/
def Transparent (wrap : Widget → Widget) : Prop :=
  ∀ widget after, ((wrap widget).inflate after).2 = (widget.inflate after).2 ∧
    paintedLinks ((wrap widget).inflate after).1 = paintedLinks (widget.inflate after).1

namespace Draws

variable {identities : List LinkIdentity} {build other : Nat → Widget × Nat}
  {builds others : Nat → List Widget × Nat} {first second : Plan}
  {content contents : List InlineElement}

theorem of_eq (inner : Draws identities build first content) (same : ∀ now, other now = build now) :
    Draws identities other first content := by
  have whole : other = build := funext same
  rw [whole]
  exact inner

theorem still {widget : Widget} (still : Still widget) :
    Draws identities (fun now => (widget, now)) (.draw 0) [] where
  total := rfl
  eager _ := rfl
  deferred _ after := (still after).1
  painted _ after := (still after).2

theorem both (ahead : Draws identities build first content)
    (behind : Draws identities other second contents) :
    Draws identities
      (fun now => (.beside (build now).1 (other (build now).2).1, (other (build now).2).2))
      (.both first second) (content ++ contents) where
  total := by
    have one := ahead.total
    have two := behind.total
    rw [linkCount_append]
    simp only [Plan.total, Plan.eager, Plan.deferred] at one two ⊢
    omega
  eager now := by
    have one := ahead.eager now
    have two := behind.eager (build now).2
    simp only [Plan.eager]
    omega
  deferred now after := by
    have one := ahead.deferred now after
    have two := behind.deferred (build now).2 (((build now).1.inflate after).2)
    simp only [Plan.deferred]
    rw [← Nat.add_assoc, ← one]
    exact two
  painted now after := by
    have one := ahead.painted now after
    have two := behind.painted (build now).2 (((build now).1.inflate after).2)
    rw [ahead.eager, ahead.deferred] at two
    have places : (Plan.both first second).place now after = first.place now after ++
        second.place (now + first.eager) (after + first.deferred) := rfl
    rw [places, paintElements_append (Plan.place_length.trans ahead.total), ← one, ← two,
      ← ahead.deferred now after, ← ahead.eager now]
    rfl

theorem later (body : DrawsEach identities builds first content) :
    Draws identities (fun now => (.deferred builds, now)) (.later first) content where
  total := by
    have inner := body.total
    simp only [Plan.total, Plan.eager, Plan.deferred] at inner ⊢
    omega
  eager _ := rfl
  deferred _ after := by
    have inner := body.deferred after (builds after).2
    have drawn : (builds after).2 = after + first.eager := body.eager after
    simp only [Plan.deferred]
    rw [← Nat.add_assoc, ← drawn]
    exact inner
  painted now after := by
    have inner := body.painted after (builds after).2
    have drawn : (builds after).2 = after + first.eager := body.eager after
    have places : (Plan.later first).place now after = first.place after (after + first.eager) :=
      rfl
    rw [places, ← drawn]
    exact inner

theorem wrap {wrap : Widget → Widget} (transparent : Transparent wrap)
    (inner : Draws identities build first content) :
    Draws identities (fun now => (wrap (build now).1, (build now).2)) first content where
  total := inner.total
  eager := inner.eager
  deferred now after := (transparent _ after).1.trans (inner.deferred now after)
  painted now after := (transparent _ after).2.trans (inner.painted now after)

theorem nil : DrawsEach identities (fun now => ([], now)) (.draw 0) [] :=
  still fun _ => ⟨rfl, rfl⟩

theorem cons (ahead : Draws identities build first content)
    (behind : DrawsEach identities builds second contents) :
    DrawsEach identities
      (fun now => ((build now).1 :: (builds (build now).2).1, (builds (build now).2).2))
      (.both first second) (content ++ contents) := ahead.both behind

theorem inflate_append (ahead behind : List Widget) (after : Nat) :
    ((Widget.children (ahead ++ behind)).inflate after).2 =
        ((Widget.children behind).inflate ((Widget.children ahead).inflate after).2).2 ∧
      paintedLinks ((Widget.children (ahead ++ behind)).inflate after).1 =
        paintedLinks ((Widget.children ahead).inflate after).1 ++
          paintedLinks
            ((Widget.children behind).inflate ((Widget.children ahead).inflate after).2).1 := by
  induction ahead generalizing after with
  | nil => exact ⟨rfl, rfl⟩
  | cons widget rest ih =>
    have onward := ih (widget.inflate after).2
    exact ⟨onward.1, (congrArg (_ ++ ·) onward.2).trans (List.append_assoc _ _ _).symm⟩

/-- Children that are built in two parts are those of both. -/
theorem append (ahead : DrawsEach identities builds first content)
    (behind : DrawsEach identities others second contents) :
    DrawsEach identities
      (fun now => ((builds now).1 ++ (others (builds now).2).1, (others (builds now).2).2))
      (.both first second) (content ++ contents) := by
  have whole := ahead.both behind
  constructor
  · exact whole.total
  · exact whole.eager
  · intro now after
    exact (inflate_append _ _ after).1.trans (whole.deferred now after)
  · intro now after
    exact (inflate_append _ _ after).2.trans (whole.painted now after)

end Draws

end Burlmd.Interface
