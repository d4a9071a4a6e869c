import Burlmd.Library.Inlines

/-!
# What stays visible

The reading of a line loses nothing but markers, brackets and backticks. Runs that do not pair
stay as they are, and a pair takes at least two markers away.
-/

namespace Burlmd.CommonMark

open Utf8 (Text)

/-- How often the items show a character. -/
def tally (c : Char) (items : List Item) : Nat := (items.flatMap Item.shown).count c

section Tally

variable (c : Char)

@[simp] theorem tally_nil : tally c [] = 0 := rfl

@[simp] theorem tally_cons (item : Item) (rest : List Item) :
    tally c (item :: rest) = item.shown.count c + tally c rest := by
  simp [tally]

@[simp] theorem tally_append (first second : List Item) :
    tally c (first ++ second) = tally c first + tally c second := by
  simp [tally]

@[simp] theorem tally_reverse (items : List Item) : tally c items.reverse = tally c items := by
  induction items with
  | nil => rfl
  | cons item rest ih =>
    rw [List.reverse_cons, tally_append, ih, tally_cons, tally_cons, tally_nil]
    omega

theorem shown_concat (items : List Item) : (concat items).shown = items.flatMap Item.shown := by
  induction items with
  | nil => rfl
  | cons item rest ih =>
    have step : concat (item :: rest) = item.inlines.append (concat rest) := rfl
    rw [step, Inlines.shown_append, ih, List.flatMap_cons, Item.shown]

theorem count_concat (items : List Item) : (concat items).shown.count c = tally c items := by
  rw [shown_concat, tally]

end Tally

@[simp] theorem shown_plain (content : Text) : (Item.plain content).shown = content := by
  simp [Item.plain, Item.shown, Item.inlines, Inlines.shown]

@[simp] theorem shown_run (delim : Delim) :
    (Item.run delim).shown = List.replicate delim.count delim.marker.char := by
  simp [Item.shown, Item.inlines, Inlines.shown]

@[simp] theorem shown_node (kind : Kind) (children : Inlines) :
    (Item.piece (.node kind children .nil)).shown = children.shown := by
  simp [Item.shown, Item.inlines, Inlines.shown]

@[simp] theorem shown_code (content : Text) : (Item.piece (.code content .nil)).shown = content := by
  simp [Item.shown, Item.inlines, Inlines.shown]

@[simp] theorem tally_item? (c : Char) (delim : Delim) :
    tally c delim.item? = (List.replicate delim.count delim.marker.char).count c := by
  unfold Delim.item?
  split
  · rename_i none
    simp [none]
  · simp

@[simp] theorem count_without (delim : Delim) (used : Nat) :
    (delim.without used).count = delim.count - used := rfl

@[simp] theorem marker_without (delim : Delim) (used : Nat) :
    (delim.without used).marker = delim.marker := rfl

theorem count_replicate_le (c d : Char) {few many : Nat} (le : few ≤ many) :
    (List.replicate few d).count c ≤ (List.replicate many d).count c := by
  rw [List.count_replicate, List.count_replicate]
  split
  · exact le
  · exact Nat.le_refl _

/-! ## Pairs -/

/-- The runs of markers among the items, in order. -/
def runs (items : List Item) : List Delim := items.filterMap Item.delim?

theorem runs_append (first second : List Item) :
    runs (first ++ second) = runs first ++ runs second :=
  List.filterMap_append

/-- An item that goes over to the left is among the runs as before. -/
theorem runs_passed (item : Item) (left rest : List Item) :
    runs (item :: left).reverse ++ runs rest = runs left.reverse ++ runs (item :: rest) := by
  rw [List.reverse_cons, runs_append, List.append_assoc, ← runs_append]
  rfl

theorem mem_runs {items : List Item} {delim : Delim} : delim ∈ runs items ↔ .run delim ∈ items := by
  unfold runs
  rw [List.mem_filterMap]
  constructor
  · intro found
    rcases found with ⟨item, mem, isDelim⟩
    cases item with
    | run other =>
      cases isDelim
      exact mem
    | piece inlines => cases isDelim
    | bracket image active => cases isDelim
  · intro mem
    exact ⟨_, mem, rfl⟩

namespace Rules

variable {rules : Rules}

theorem opener?_eq_some {closer opener : Delim} {left inner outer : List Item}
    (found : rules.opener? closer left = some (inner, opener, outer)) :
    left = inner ++ .run opener :: outer ∧ rules.pairs opener closer = true := by
  induction left generalizing inner with
  | nil => cases found
  | cons item rest ih =>
    cases item with
    | run delim =>
      rw [opener?] at found
      split at found
      · rename_i pairs
        cases found
        exact ⟨rfl, pairs⟩
      · rcases Option.map_eq_some_iff.mp found with ⟨⟨_, _, _⟩, isFound, same⟩
        cases same
        rcases ih isFound with ⟨split, pairs⟩
        exact ⟨by rw [split]; exact rfl, pairs⟩
    | piece inlines =>
      rcases Option.map_eq_some_iff.mp found with ⟨⟨_, _, _⟩, isFound, same⟩
      cases same
      rcases ih isFound with ⟨split, pairs⟩
      exact ⟨by rw [split]; exact rfl, pairs⟩
    | bracket image active =>
      rcases Option.map_eq_some_iff.mp found with ⟨⟨_, _, _⟩, isFound, same⟩
      cases same
      rcases ih isFound with ⟨split, pairs⟩
      exact ⟨by rw [split]; exact rfl, pairs⟩

theorem opener?_eq_none {closer : Delim} {left : List Item} :
    rules.opener? closer left = none ↔ ∀ opener ∈ runs left, ¬ rules.pairs opener closer = true := by
  induction left with
  | nil => simp [opener?, runs]
  | cons item rest ih =>
    cases item with
    | run delim =>
      have own : runs (.run delim :: rest) = delim :: runs rest := rfl
      rw [own, List.forall_mem_cons, ← ih, opener?]
      split
      · rename_i pairs
        simp [pairs]
      · rename_i apart
        simp [apart]
    | piece inlines =>
      have own : runs (.piece inlines :: rest) = runs rest := rfl
      have deeper : rules.opener? closer (.piece inlines :: rest) =
        (rules.opener? closer rest).map fun found => (.piece inlines :: found.1, found.2) := rfl
      rw [own, ← ih, deeper, Option.map_eq_none_iff]
    | bracket image active =>
      have own : runs (.bracket image active :: rest) = runs rest := rfl
      have deeper : rules.opener? closer (.bracket image active :: rest) =
        (rules.opener? closer rest).map fun found => (.bracket image active :: found.1, found.2) :=
          rfl
      rw [own, ← ih, deeper, Option.map_eq_none_iff]

theorem used_pos {opener closer : Delim} (some_ : closer.count ≠ 0) : 0 < opener.used closer := by
  unfold Delim.used
  split
  · omega
  · split
    · omega
    · omega

/-- What the round of a pair leaves on the left shows no character more than before. -/
theorem tally_paired_le (c : Char) {inner outer : List Item} (opener closer : Delim) :
    tally c (.piece (.node (.emphasis closer.marker (opener.used closer))
      (concat inner.reverse) .nil) :: ((opener.without (opener.used closer)).item? ++ outer)) ≤
      tally c (inner ++ .run opener :: outer) := by
  have fewer := count_replicate_le c opener.marker.char
    (Nat.sub_le opener.count (opener.used closer))
  simp only [tally_cons, tally_append, shown_node, count_concat, tally_reverse, tally_item?,
    shown_run, count_without, marker_without]
  omega

theorem tally_settle_le (c : Char) (rounds : Nat) (closer : Delim) (left : List Item) :
    tally c (rules.settle rounds closer left) ≤
      tally c left + (List.replicate closer.count closer.marker.char).count c := by
  induction rounds generalizing closer left with
  | zero => exact Nat.le_add_right _ _
  | succ rounds ih =>
    rw [settle]
    cases found : rules.opener? closer left with
    | none =>
      simp only [tally_append, tally_item?]
      omega
    | some parts =>
      rcases parts with ⟨inner, opener, outer⟩
      rcases opener?_eq_some found with ⟨split, -⟩
      have paired := @tally_paired_le c inner outer opener closer
      rw [← split] at paired
      dsimp only
      split
      · omega
      · have next := ih (closer.without (opener.used closer))
          (.piece (.node (.emphasis closer.marker (opener.used closer)) (concat inner.reverse) .nil) ::
            ((opener.without (opener.used closer)).item? ++ outer))
        have fewer := count_replicate_le c closer.marker.char
          (Nat.sub_le closer.count (opener.used closer))
        simp only [count_without, marker_without] at next
        omega

/-- A run that pairs loses a marker. -/
theorem tally_settle_lt {closer opener : Delim} {left : List Item} (some_ : closer.count ≠ 0)
    (mem : opener ∈ runs left) (pairs : rules.pairs opener closer = true) :
    tally closer.marker.char (rules.settle closer.count closer left) <
      tally closer.marker.char left + closer.count := by
  rcases Nat.exists_eq_succ_of_ne_zero some_ with ⟨rounds, isCount⟩
  rw [isCount, settle]
  cases found : rules.opener? closer left with
  | none => exact absurd pairs (opener?_eq_none.mp found opener mem)
  | some parts =>
    rcases parts with ⟨inner, nearest, outer⟩
    rcases opener?_eq_some found with ⟨split, -⟩
    have paired := @tally_paired_le closer.marker.char inner outer nearest closer
    rw [← split] at paired
    have taken := @used_pos nearest closer some_
    dsimp only
    split
    · omega
    · have next := @tally_settle_le rules closer.marker.char rounds
        (closer.without (nearest.used closer))
        (.piece (.node (.emphasis closer.marker (nearest.used closer)) (concat inner.reverse) .nil) ::
          ((nearest.without (nearest.used closer)).item? ++ outer))
      simp only [count_without, marker_without, List.count_replicate_self] at next
      omega

/-- Pairing takes nothing but markers away. -/
theorem le_tally_settle {c : Char} (other : ∀ marker : Marker, marker.char ≠ c) (rounds : Nat)
    (closer : Delim) (left : List Item) :
    tally c left ≤ tally c (rules.settle rounds closer left) := by
  have none_ (count : Nat) (marker : Marker) : (List.replicate count marker.char).count c = 0 := by
    rw [List.count_replicate, if_neg]
    simpa using other marker
  induction rounds generalizing closer left with
  | zero => exact Nat.le_refl _
  | succ rounds ih =>
    rw [settle]
    cases found : rules.opener? closer left with
    | none =>
      rw [tally_append]
      exact Nat.le_add_left _ _
    | some parts =>
      rcases parts with ⟨inner, opener, outer⟩
      rcases opener?_eq_some found with ⟨split, -⟩
      have kept : tally c left ≤ tally c (.piece (.node (.emphasis closer.marker
          (opener.used closer)) (concat inner.reverse) .nil) ::
          ((opener.without (opener.used closer)).item? ++ outer)) := by
        rw [split]
        simp only [tally_cons, tally_append, shown_node, count_concat, tally_reverse, tally_item?,
          shown_run, none_]
        omega
      dsimp only
      split
      · exact kept
      · exact Nat.le_trans kept (ih _ _)

@[simp] theorem absorb_run (closer : Delim) (left : List Item) :
    rules.absorb left (.run closer) = rules.settle closer.count closer left := rfl

@[simp] theorem absorb_piece (inlines : Inlines) (left : List Item) :
    rules.absorb left (.piece inlines) = .piece inlines :: left := rfl

@[simp] theorem absorb_bracket (image active : Bool) (left : List Item) :
    rules.absorb left (.bracket image active) = .bracket image active :: left := rfl

theorem tally_absorb_le (c : Char) (left : List Item) (item : Item) :
    tally c (rules.absorb left item) ≤ tally c left + item.shown.count c := by
  cases item with
  | run closer =>
    rw [shown_run]
    exact tally_settle_le c _ closer left
  | piece inlines =>
    rw [absorb_piece, tally_cons]
    omega
  | bracket image active =>
    rw [absorb_bracket, tally_cons]
    omega

theorem tally_absorbs_le (c : Char) (items left : List Item) :
    tally c (items.foldl rules.absorb left) ≤ tally c left + tally c items := by
  induction items generalizing left with
  | nil => exact Nat.le_refl _
  | cons item rest ih =>
    have one := @tally_absorb_le rules c left item
    have next := ih (rules.absorb left item)
    rw [List.foldl_cons, tally_cons]
    omega

/-- What is resolved shows no character more than the items do. -/
theorem count_resolve_le (c : Char) (items : List Item) :
    (rules.resolve items).shown.count c ≤ tally c items := by
  rw [resolve, count_concat, tally_reverse]
  have all := @tally_absorbs_le rules c items []
  rw [tally_nil, Nat.zero_add] at all
  exact all

theorem le_tally_absorbs {c : Char} (other : ∀ marker : Marker, marker.char ≠ c)
    (items left : List Item) :
    tally c left + tally c items ≤ tally c (items.foldl rules.absorb left) := by
  induction items generalizing left with
  | nil => exact Nat.le_refl _
  | cons item rest ih =>
    have next := ih (rules.absorb left item)
    have one : tally c left + item.shown.count c ≤ tally c (rules.absorb left item) := by
      cases item with
      | run closer =>
        have none_ : (Item.run closer).shown.count c = 0 := by
          rw [shown_run, List.count_replicate, if_neg]
          simpa using other closer.marker
        rw [none_]
        exact le_tally_settle other _ closer left
      | piece inlines =>
        rw [absorb_piece, tally_cons]
        omega
      | bracket image active =>
        rw [absorb_bracket, tally_cons]
        omega
    rw [List.foldl_cons, tally_cons]
    omega

theorem le_count_resolve {c : Char} (other : ∀ marker : Marker, marker.char ≠ c)
    (items : List Item) : tally c items ≤ (rules.resolve items).shown.count c := by
  rw [resolve, count_concat, tally_reverse]
  have all := @le_tally_absorbs rules c other items []
  rw [tally_nil, Nat.zero_add] at all
  exact all

/-- No run pairs with one behind it. -/
def Apart (rules : Rules) (list : List Delim) : Prop :=
  list.Pairwise fun opener closer => ¬ rules.pairs opener closer = true

instance (list : List Delim) : Decidable (rules.Apart list) :=
  inferInstanceAs (Decidable (List.Pairwise _ _))

theorem absorbs_of_apart {items left : List Item} (some_ : ∀ delim ∈ runs items, delim.count ≠ 0)
    (apart : rules.Apart (runs left.reverse ++ runs items)) :
    items.foldl rules.absorb left = items.reverse ++ left := by
  induction items generalizing left with
  | nil => rfl
  | cons item rest ih =>
    have step : rules.absorb left item = item :: left := by
      cases item with
      | run closer =>
        have none_ : rules.opener? closer left = none := by
          apply opener?_eq_none.mpr
          intro opener mem
          have earlier : opener ∈ runs left.reverse := by
            rw [mem_runs, List.mem_reverse, ← mem_runs]
            exact mem
          exact (List.pairwise_append.mp apart).2.2 opener earlier closer List.mem_cons_self
        have count : closer.count ≠ 0 := some_ closer List.mem_cons_self
        rcases Nat.exists_eq_succ_of_ne_zero count with ⟨rounds, isCount⟩
        rw [absorb_run, isCount, settle, none_]
        simp [Delim.item?, count]
      | piece inlines => rfl
      | bracket image active => rfl
    have later : ∀ delim ∈ runs rest, delim.count ≠ 0 := by
      intro delim mem
      apply some_ delim
      rw [mem_runs] at mem ⊢
      exact List.mem_cons_of_mem _ mem
    rw [List.foldl_cons, step, ih later (by rw [runs_passed]; exact apart), List.reverse_cons,
      List.append_assoc, List.singleton_append]

/-- Runs that are apart stay as they are. -/
theorem resolve_of_apart {items : List Item} (some_ : ∀ delim ∈ runs items, delim.count ≠ 0)
    (apart : rules.Apart (runs items)) : rules.resolve items = concat items := by
  rw [resolve, @absorbs_of_apart rules items [] some_ apart, List.append_nil, List.reverse_reverse]

theorem exists_absorbs_lt {items left : List Item} (some_ : ∀ delim ∈ runs items, delim.count ≠ 0)
    (clear : rules.Apart (runs left.reverse))
    (pair : ¬ rules.Apart (runs left.reverse ++ runs items)) :
    ∃ marker : Marker, tally marker.char (items.foldl rules.absorb left) <
      tally marker.char left + tally marker.char items := by
  induction items generalizing left with
  | nil =>
    apply absurd _ pair
    rw [show runs [] = [] from rfl, List.append_nil]
    exact clear
  | cons item rest ih =>
    have later : ∀ delim ∈ runs rest, delim.count ≠ 0 := by
      intro delim mem
      apply some_ delim
      rw [mem_runs] at mem ⊢
      exact List.mem_cons_of_mem _ mem
    have pair' : ¬ rules.Apart (runs (item :: left).reverse ++ runs rest) := by
      rw [runs_passed]
      exact pair
    have onward (clear : rules.Apart (runs (item :: left).reverse))
        (step : rules.absorb left item = item :: left) :
        ∃ marker : Marker, tally marker.char ((item :: rest).foldl rules.absorb left) <
          tally marker.char left + tally marker.char (item :: rest) := by
      rcases ih later clear pair' with ⟨marker, less⟩
      refine ⟨marker, ?_⟩
      rw [List.foldl_cons, step, tally_cons]
      rw [tally_cons] at less
      omega
    cases item with
    | piece inlines =>
      apply onward _ rfl
      have same : runs (.piece inlines :: left).reverse = runs left.reverse := by
        simp [runs, Item.delim?]
      rw [same]
      exact clear
    | bracket image active =>
      apply onward _ rfl
      have same : runs (.bracket image active :: left).reverse = runs left.reverse := by
        simp [runs, Item.delim?]
      rw [same]
      exact clear
    | run closer =>
      have count : closer.count ≠ 0 := some_ closer List.mem_cons_self
      by_cases none_ : ∀ opener ∈ runs left, ¬ rules.pairs opener closer = true
      · apply onward
        · have own : runs (.run closer :: left).reverse = runs left.reverse ++ [closer] := by
            simp [runs, Item.delim?]
          rw [own]
          apply List.pairwise_append.mpr
          refine ⟨clear, List.pairwise_singleton _ _, ?_⟩
          intro opener mem other isCloser
          rw [List.mem_singleton.mp isCloser]
          apply none_ opener
          rw [mem_runs] at mem ⊢
          exact List.mem_reverse.mp mem
        · rcases Nat.exists_eq_succ_of_ne_zero count with ⟨rounds, isCount⟩
          rw [absorb_run, isCount, settle, opener?_eq_none.mpr none_]
          simp [Delim.item?, count]
      · push Not at none_
        rcases none_ with ⟨opener, mem, pairs⟩
        have less := tally_settle_lt count mem pairs
        have rest_ := @tally_absorbs_le rules closer.marker.char rest
          (rules.settle closer.count closer left)
        refine ⟨closer.marker, ?_⟩
        rw [List.foldl_cons, absorb_run, tally_cons, shown_run, List.count_replicate_self]
        omega

/-- Where two runs pair, a marker is gone. -/
theorem exists_count_resolve_lt {items : List Item} (some_ : ∀ delim ∈ runs items, delim.count ≠ 0)
    (pair : ¬ rules.Apart (runs items)) :
    ∃ marker : Marker, (rules.resolve items).shown.count marker.char < tally marker.char items := by
  rcases @exists_absorbs_lt rules items [] some_ List.Pairwise.nil pair with ⟨marker, less⟩
  refine ⟨marker, ?_⟩
  rw [resolve, count_concat, tally_reverse]
  rw [tally_nil, Nat.zero_add] at less
  exact less

end Rules

/-! ## The scan -/

theorem bracket?_eq_some {stack inner outer : List Item} {kind : Bool × Bool}
    (found : bracket? stack = some (inner, kind, outer)) :
    stack = inner ++ .bracket kind.1 kind.2 :: outer := by
  induction stack generalizing inner with
  | nil => cases found
  | cons item rest ih =>
    cases item with
    | bracket image active =>
      cases found
      rfl
    | piece inlines =>
      rcases Option.map_eq_some_iff.mp found with ⟨⟨_, _, _⟩, isFound, same⟩
      cases same
      rw [ih isFound]
      rfl
    | run delim =>
      rcases Option.map_eq_some_iff.mp found with ⟨⟨_, _, _⟩, isFound, same⟩
      cases same
      rw [ih isFound]
      rfl

theorem shown_deactivate (item : Item) : item.deactivate.shown = item.shown := by
  unfold Item.deactivate
  split <;> rfl

theorem tally_deactivate (c : Char) (items : List Item) :
    tally c (items.map Item.deactivate) = tally c items := by
  induction items with
  | nil => rfl
  | cons item rest ih => rw [List.map_cons, tally_cons, tally_cons, shown_deactivate, ih]

namespace Rules

variable {rules : Rules}

section Kept

variable {c : Char} (other : ∀ marker : Marker, marker.char ≠ c) (opening : c ≠ '[') (image : c ≠ '!')

include other opening image

theorem le_tally_closeBracket (stack : List Item) (rest : Text) :
    tally c stack ≤ tally c (rules.closeBracket stack rest).1 := by
  unfold closeBracket
  cases found : bracket? stack with
  | none =>
    dsimp only
    rw [tally_cons]
    exact Nat.le_add_left _ _
  | some parts =>
    rcases parts with ⟨inner, ⟨isImage, active⟩, outer⟩
    have split := bracket?_eq_some found
    have none_ : (Item.bracket isImage active).shown.count c = 0 := by
      apply List.count_eq_zero_of_not_mem
      cases isImage with
      | true => simp [Item.shown, Item.inlines, Inlines.shown, opening, image]
      | false => simp [Item.shown, Item.inlines, Inlines.shown, opening]
    have children := @le_count_resolve rules c other inner.reverse
    rw [tally_reverse] at children
    have literal : tally c stack ≤ tally c (.plain [']'] :: inner ++
        .plain (if isImage then ['!', '['] else ['[']) :: outer) := by
      rw [split]
      simp only [tally_append, tally_cons, none_]
      omega
    dsimp only
    split
    · split
      · exact literal
      · split
        · rw [split, tally_cons, tally_append, tally_cons, none_, shown_node]
          omega
        · rw [split, tally_cons, tally_append, tally_cons, none_, shown_node, tally_deactivate]
          omega
    · exact literal

theorem le_tally_step (previous : Option Char) (stack : List Item) (d : Char) (rest : Text) :
    tally c stack ≤ tally c (rules.step previous stack d rest).1 := by
  have push (item : Item) : tally c stack ≤ tally c (item :: stack) := by
    rw [tally_cons]
    exact Nat.le_add_left _ _
  unfold step
  split
  · split
    · split <;> exact push _
    · exact push _
  · split
    · unfold codeSpan
      dsimp only
      split <;> exact push _
    · split
      · exact push _
      · split
        · exact push _
        · split
          · exact push _
          · split
            · exact le_tally_closeBracket other opening image stack rest
            · split
              · split <;> exact push _
              · split
                · split <;> exact push _
                · exact push _

/-- What is read stays visible, markers and brackets apart. -/
theorem le_count_scan (skip : Nat) (previous : Option Char) (stack : List Item) (text : Text) :
    tally c stack ≤ (rules.scan skip previous stack text).shown.count c := by
  induction text generalizing skip previous stack with
  | nil =>
    rw [scan, ← tally_reverse]
    exact le_count_resolve other stack.reverse
  | cons d rest ih =>
    cases skip with
    | succ skip => exact ih skip (some d) stack
    | zero =>
      rw [scan]
      exact Nat.le_trans (le_tally_step other opening image previous stack d rest) (ih _ _ _)

end Kept

end Rules

end Burlmd.CommonMark
