import Mathlib.Data.Set.Basic
import Burlmd.Library.Segments

/-!
# Ancestors

Names are lists, and a separator in one tells the names above it. A listing of leaves and
branches is closed where every name above a listed one is a branch.
-/

namespace Burlmd.Segments

universe u
variable {α : Type u}

/-- A proper ancestor. -/
def Above (a : α) (level xs : List α) : Prop := level ≠ [] ∧ level ++ [a] <+: xs

section Above

variable {a : α} {level middle xs ys : List α}

theorem Above.trans (first : Above a level middle) (second : Above a middle xs) :
    Above a level xs :=
  ⟨first.1, first.2.trans ((List.prefix_append middle [a]).trans second.2)⟩

theorem Above.length_lt (above : Above a level xs) : level.length < xs.length := by
  have bound := above.2.length_le
  rw [List.length_append, List.length_singleton] at bound
  omega

theorem not_above_of_not_mem (plain : a ∉ xs) : ¬Above a level xs := by
  intro above
  exact plain (above.2.subset (List.mem_append_right _ (List.mem_singleton_self a)))

theorem above_append_cons (nonempty : xs ≠ []) : Above a xs (xs ++ a :: ys) :=
  ⟨nonempty, ys, by rw [List.append_assoc, List.singleton_append]⟩

/-- Only what stands before the last separator has separators of its own. -/
theorem above_append_cons_iff (plain : a ∉ ys) :
    Above a level (xs ++ a :: ys) ↔ (level ≠ [] ∧ level = xs) ∨ Above a level xs := by
  constructor
  · rintro ⟨nonempty, rest, same⟩
    rw [List.append_assoc, List.singleton_append, List.append_eq_append_iff] at same
    rcases same with ⟨between, rfl, same⟩ | ⟨between, rfl, same⟩
    · cases between with
      | nil =>
        rw [List.append_nil]
        exact .inl ⟨nonempty, rfl⟩
      | cons c tail =>
        obtain ⟨rfl, -⟩ := List.cons.inj same
        exact .inr (above_append_cons nonempty)
    · cases between with
      | nil =>
        rw [List.append_nil] at nonempty ⊢
        exact .inl ⟨nonempty, rfl⟩
      | cons c tail =>
        obtain ⟨-, rfl⟩ := List.cons.inj same
        exact absurd (List.mem_append_right tail List.mem_cons_self) plain
  · rintro (⟨nonempty, rfl⟩ | above)
    · exact above_append_cons nonempty
    · exact ⟨above.1, above.2.trans (List.prefix_append xs (a :: ys))⟩

end Above

/-! ## Listings -/

/-- The names of the leaves and of the branches of a tree. -/
@[ext]
structure Listing (α : Type u) where
  leaves : Set (List α)
  branches : Set (List α)

namespace Listing

variable {a : α} {listing : Listing α} {name : List α}

/-- Every name above a listed one is a branch. -/
structure Closed (a : α) (listing : Listing α) : Prop where
  leaves : ∀ name ∈ listing.leaves, ∀ level, Above a level name → level ∈ listing.branches
  branches : ∀ name ∈ listing.branches, ∀ level, Above a level name → level ∈ listing.branches

/-- A branch with all that is above it. -/
def record (a : α) (listing : Listing α) (name : List α) : Listing α :=
  { listing with
    branches := listing.branches ∪ {level | level = name ∨ Above a level name} }

def insertLeaf (listing : Listing α) (name : List α) : Listing α :=
  { listing with leaves := insert name listing.leaves }

theorem Closed.record (closed : Closed a listing) : Closed a (listing.record a name) := by
  constructor
  · intro leaf mem level above
    exact .inl (closed.leaves leaf mem level above)
  · rintro branch (mem | rfl | mem) level above
    · exact .inl (closed.branches branch mem level above)
    · exact .inr (.inr above)
    · exact .inr (.inr (above.trans mem))

theorem Closed.insertLeaf (closed : Closed a listing)
    (reached : ∀ level, Above a level name → level ∈ listing.branches) :
    Closed a (listing.insertLeaf name) := by
  constructor
  · rintro leaf (rfl | mem) level above
    · exact reached level above
    · exact closed.leaves leaf mem level above
  · exact closed.branches

end Listing

/-! ## The ancestors of a name -/

variable [BEq α] [LawfulBEq α] {a : α} {level xs : List α}

/-- No segment is empty. -/
def Whole (a : α) (xs : List α) : Prop := [] ∉ xs.splitOn a

instance (a : α) (xs : List α) : Decidable (Whole a xs) :=
  inferInstanceAs (Decidable ([] ∉ xs.splitOn a))

omit [LawfulBEq α] in
theorem Whole.ne_nil (whole : Whole a xs) : xs ≠ [] := by
  rintro rfl
  exact whole (by simp)

theorem whole_append_cons_iff {ys : List α} : Whole a (xs ++ a :: ys) ↔ Whole a xs ∧ Whole a ys := by
  unfold Whole
  rw [List.splitOn_append_cons_self, List.mem_append, not_or]

theorem whole_of_not_mem (plain : a ∉ xs) (nonempty : xs ≠ []) : Whole a xs := by
  unfold Whole
  rw [List.splitOn_eq_singleton plain, List.mem_singleton]
  exact nonempty.symm

theorem Whole.above (whole : Whole a xs) (above : Above a level xs) : Whole a level := by
  obtain ⟨-, rest, rfl⟩ := above
  rw [List.append_assoc, List.singleton_append] at whole
  exact (whole_append_cons_iff.mp whole).1

/-- What stands before the last separator. -/
def parent (a : α) (xs : List α) : List α := [a].intercalate (xs.splitOn a).dropLast

theorem parent_of_not_mem (plain : a ∉ xs) : parent a xs = [] := by
  unfold parent
  rw [List.splitOn_eq_singleton plain]
  rfl

theorem parent_append_cons {ys : List α} (plain : a ∉ ys) : parent a (xs ++ a :: ys) = xs := by
  unfold parent
  rw [dropLast_splitOn_append_cons, List.splitOn_eq_singleton plain, List.dropLast_singleton,
    List.append_nil, List.intercalate_splitOn]

theorem above_iff_parent :
    Above a level xs ↔ (level ≠ [] ∧ level = parent a xs) ∨ Above a level (parent a xs) := by
  rcases not_mem_or_exists_last a xs with plain | ⟨before, last, rfl, plain⟩
  · rw [parent_of_not_mem plain]
    constructor
    · exact fun above => absurd above (not_above_of_not_mem plain)
    · rintro (⟨nonempty, rfl⟩ | above)
      · exact absurd rfl nonempty
      · exact absurd above (not_above_of_not_mem List.not_mem_nil)
  · rw [parent_append_cons plain, above_append_cons_iff plain]

theorem Whole.parent (whole : Whole a xs) (nested : parent a xs ≠ []) : Whole a (parent a xs) :=
  whole.above (above_iff_parent.mpr (.inl ⟨nested, rfl⟩))

omit [BEq α] [LawfulBEq α] in
theorem intercalate_append {first second : List (List α)} (nonempty : first ≠ [])
    (nonempty' : second ≠ []) :
    [a].intercalate (first ++ second) = [a].intercalate first ++ a :: [a].intercalate second := by
  induction first with
  | nil => exact absurd rfl nonempty
  | cons head tail ih =>
    cases tail with
    | nil =>
      rw [List.singleton_append, List.intercalate_cons_of_ne_nil nonempty',
        List.intercalate_singleton]
      simp
    | cons next rest =>
      have tail := ih (List.cons_ne_nil _ _)
      rw [List.cons_append] at tail
      rw [List.cons_append, List.cons_append, List.intercalate_cons_cons, tail,
        List.intercalate_cons_cons]
      simp

/-- A name and its ancestors, outermost first. -/
def ancestors (a : α) (xs : List α) : List (List α) :=
  ((xs.splitOn a).filter fun segment => !segment.isEmpty).inits.tail.map [a].intercalate

omit [LawfulBEq α] in
theorem ancestors_nil : ancestors a [] = [] := by
  simp [ancestors]

omit [LawfulBEq α] in
theorem Whole.filter_splitOn (whole : Whole a xs) :
    (xs.splitOn a).filter (fun segment => !segment.isEmpty) = xs.splitOn a := by
  rw [List.filter_eq_self]
  intro segment mem
  cases segment with
  | nil => exact absurd mem whole
  | cons c rest => rfl

theorem mem_ancestors (whole : Whole a xs) :
    level ∈ ancestors a xs ↔ level = xs ∨ Above a level xs := by
  have initials : ∀ levels : List (List α), levels ∈ (xs.splitOn a).inits.tail ↔
      levels ≠ [] ∧ levels <+: xs.splitOn a := by
    intro levels
    obtain ⟨first, rest, isSplit⟩ := List.exists_cons_of_ne_nil (List.splitOn_ne_nil a xs)
    rw [isSplit, List.inits_cons, List.tail_cons, List.mem_map]
    simp only [List.mem_inits]
    constructor
    · rintro ⟨tail, isPrefix, rfl⟩
      exact ⟨List.cons_ne_nil _ _, List.cons_prefix_cons.mpr ⟨rfl, isPrefix⟩⟩
    · rintro ⟨nonempty, isPrefix⟩
      cases levels with
      | nil => exact absurd rfl nonempty
      | cons head tail =>
        obtain ⟨rfl, shorter⟩ := List.cons_prefix_cons.mp isPrefix
        exact ⟨tail, shorter, rfl⟩
  unfold ancestors
  rw [whole.filter_splitOn, List.mem_map]
  constructor
  · rintro ⟨levels, mem, rfl⟩
    obtain ⟨nonempty, rest, isSplit⟩ := (initials levels).mp mem
    have joined := @List.intercalate_splitOn α xs _ _ a
    rw [← isSplit] at joined
    cases rest with
    | nil =>
      rw [List.append_nil] at joined
      exact .inl joined
    | cons next rest =>
      rw [intercalate_append nonempty (List.cons_ne_nil _ _)] at joined
      have isWhole := joined ▸ whole
      refine .inr ?_
      rw [← joined]
      exact above_append_cons (whole_append_cons_iff.mp isWhole).1.ne_nil
  · rintro (rfl | ⟨nonempty, rest, rfl⟩)
    · refine ⟨level.splitOn a, (initials _).mpr ⟨List.splitOn_ne_nil a level, List.prefix_refl _⟩, ?_⟩
      exact List.intercalate_splitOn a
    · refine ⟨level.splitOn a, (initials _).mpr ⟨List.splitOn_ne_nil a level, ?_⟩,
        List.intercalate_splitOn a⟩
      rw [List.append_assoc, List.singleton_append, List.splitOn_append_cons_self]
      exact List.prefix_append _ _

/-! ## Children -/

/-- Below the root, or below a name. -/
def Under (a : α) (level xs : List α) : Prop := level = [] ∨ Above a level xs

instance [DecidableEq α] : Decidable (Under a level xs) :=
  inferInstanceAs (Decidable (_ ∨ _ ∧ _))

theorem length_parent_lt (nonempty : xs ≠ []) : (parent a xs).length < xs.length := by
  rcases not_mem_or_exists_last a xs with plain | ⟨before, last, rfl, plain⟩
  · rw [parent_of_not_mem plain]
    exact List.length_pos_of_ne_nil nonempty
  · rw [parent_append_cons plain, List.length_append, List.length_cons]
    omega

/-- Between a name and what is not directly below it there is a child. -/
theorem exists_child (under : Under a level xs) (indirect : parent a xs ≠ level) :
    ∃ child, child ≠ [] ∧ parent a child = level ∧ Above a child xs := by
  induction bound : xs.length using Nat.strong_induction_on generalizing xs with
  | _ length ih =>
    have nested : parent a xs ≠ [] := by
      intro root
      rcases under with rfl | above
      · exact indirect root
      · rcases above_iff_parent.mp above with ⟨-, same⟩ | above
        · exact indirect same.symm
        · rw [root] at above
          exact not_above_of_not_mem List.not_mem_nil above
    have isAbove : Above a (parent a xs) xs := above_iff_parent.mpr (.inl ⟨nested, rfl⟩)
    by_cases direct : parent a (parent a xs) = level
    · exact ⟨parent a xs, nested, direct, isAbove⟩
    · have under' : Under a level (parent a xs) := by
        refine under.imp_right fun above => ?_
        rcases above_iff_parent.mp above with ⟨-, same⟩ | above
        · exact absurd same.symm indirect
        · exact above
      have shorter := isAbove.length_lt
      obtain ⟨child, nonempty, isChild, above⟩ :=
        ih (parent a xs).length (by omega) under' direct rfl
      exact ⟨child, nonempty, isChild, above.trans isAbove⟩

theorem not_above_of_parent_eq {child : List α} (nonempty : child ≠ [])
    (siblings : parent a child = parent a xs) : ¬Above a child xs := by
  intro above
  have shorter := length_parent_lt (a := a) nonempty
  rcases above_iff_parent.mp above with ⟨-, same⟩ | above
  · rw [siblings, ← same] at shorter
    omega
  · have longer := above.length_lt
    rw [← siblings] at longer
    omega

/-- A name is below one child only. -/
theorem child_unique {child other : List α} (siblings : parent a child = parent a other)
    (above : Above a child xs) (above' : Above a other xs) : child = other := by
  rcases List.prefix_or_prefix_of_prefix above.2 above'.2 with isPrefix | isPrefix
  · by_contra apart
    refine not_above_of_parent_eq above.1 siblings ⟨above.1, ?_⟩
    rcases List.prefix_concat_iff.mp isPrefix with same | isPrefix
    · exact absurd (List.append_cancel_right same) apart
    · exact isPrefix
  · by_contra apart
    refine not_above_of_parent_eq above'.1 siblings.symm ⟨above'.1, ?_⟩
    rcases List.prefix_concat_iff.mp isPrefix with same | isPrefix
    · exact absurd (List.append_cancel_right same).symm apart
    · exact isPrefix

theorem ancestors_eq_parent (whole : Whole a xs) :
    ancestors a xs = ancestors a (parent a xs) ++ [xs] := by
  rcases not_mem_or_exists_last a xs with plain | ⟨before, last, rfl, plain⟩
  · rw [parent_of_not_mem plain, ancestors_nil]
    unfold ancestors
    rw [whole.filter_splitOn, List.splitOn_eq_singleton plain]
    simp
  · rw [parent_append_cons plain]
    unfold ancestors
    rw [whole.filter_splitOn, (whole_append_cons_iff.mp whole).1.filter_splitOn,
      List.splitOn_append_cons_self, List.splitOn_eq_singleton plain, List.inits_append]
    obtain ⟨first, rest, isInits⟩ :
        ∃ first rest, (before.splitOn a).inits = first :: rest := by
      cases before.splitOn a with
      | nil => exact ⟨[], [], rfl⟩
      | cons head tail => exact ⟨[], tail.inits.map fun t => head :: t, List.inits_cons head tail⟩
    rw [isInits, List.cons_append, List.tail_cons, List.tail_cons, List.map_append]
    congr 1
    show [[a].intercalate (before.splitOn a ++ [last])] = _
    rw [intercalate_append (List.splitOn_ne_nil a before) (List.cons_ne_nil _ _),
      List.intercalate_splitOn, List.intercalate_singleton]

/-! ## Renaming a branch -/

variable {old new rest : List α}

/-- What is above a name beneath another one is above that one, or beneath it too. -/
theorem above_beneath (whole : Whole a (old ++ a :: rest)) (above : Above a level (old ++ a :: rest)) :
    level = old ∨ Above a level old ∨ ∃ between, level = old ++ a :: between ∧ Above a between rest := by
  obtain ⟨nonempty, tail, same⟩ := above
  rw [List.append_assoc, List.singleton_append, List.append_eq_append_iff] at same
  rcases same with ⟨between, rfl, same⟩ | ⟨between, rfl, same⟩
  · cases between with
    | nil => exact .inl (List.append_nil _).symm
    | cons c cs =>
      obtain ⟨rfl, -⟩ := List.cons.inj same
      exact .inr (.inl (above_append_cons nonempty))
  · cases between with
    | nil => exact .inl (List.append_nil _)
    | cons c cs =>
      obtain ⟨rfl, isRest⟩ := List.cons.inj same
      have wholeRest := (whole_append_cons_iff.mp whole).2
      have isBeneath : rest = cs ++ a :: tail := isRest
      rw [isBeneath] at wholeRest ⊢
      exact .inr (.inr ⟨cs, rfl, above_append_cons (whole_append_cons_iff.mp wholeRest).1.ne_nil⟩)

/-- What a name becomes where `old` is renamed. -/
inductive Renamed (a : α) (old new : List α) : List α → List α → Prop
  | self : Renamed a old new old new
  | beneath (rest : List α) : Renamed a old new (old ++ a :: rest) (new ++ a :: rest)

omit [BEq α] [LawfulBEq α] in
theorem renamed_iff {name target : List α} : Renamed a old new name target ↔
    (name = old ∧ target = new) ∨ ∃ rest, name = old ++ a :: rest ∧ target = new ++ a :: rest := by
  constructor
  · rintro (_ | rest)
    · exact .inl ⟨rfl, rfl⟩
    · exact .inr ⟨rest, rfl, rfl⟩
  · rintro (⟨rfl, rfl⟩ | ⟨rest, rfl, rfl⟩)
    · exact .self
    · exact .beneath rest

namespace Listing

/-- The branches after a rename: those elsewhere, those that moved and those above. -/
def rename (a : α) (listing : Listing α) (old new : List α) : Listing α :=
  { listing with
    branches := {name ∈ listing.branches | ∀ target, ¬Renamed a old new name target} ∪
      {target | ∃ name ∈ listing.branches, Renamed a old new name target} ∪
      {level | level = new ∨ Above a level new} }

/-- A rename keeps a listing closed if no leaf stays behind. -/
theorem Closed.rename {listing : Listing α} (closed : Closed a listing) (inside : Whole a old)
    (leaves : ∀ name ∈ listing.leaves, ¬Above a old name)
    (whole : ∀ name ∈ listing.branches, Whole a name) (wholeNew : Whole a new) :
    Closed a (listing.rename a old new) := by
  have elsewhere : ∀ {name level : List α}, ¬Above a old name → Above a level name →
      level ∈ listing.branches → level ∈ (listing.rename a old new).branches := by
    intro name level apart above mem
    refine .inl (.inl ⟨mem, fun target renamed => ?_⟩)
    cases renamed with
    | self => exact apart above
    | beneath rest => exact apart ((above_append_cons inside.ne_nil).trans above)
  constructor
  · intro name mem level above
    exact elsewhere (leaves name mem) above (closed.leaves name mem level above)
  · rintro name ((⟨mem, kept⟩ | ⟨source, mem, renamed⟩) | atNew) level above
    · refine elsewhere (fun beneath => ?_) above (closed.branches name mem level above)
      obtain ⟨-, rest, rfl⟩ := beneath
      rw [List.append_assoc, List.singleton_append] at kept
      exact kept _ (.beneath rest)
    · cases renamed with
      | self => exact .inr (.inr above)
      | beneath rest =>
        have wholeSource := whole _ mem
        have wholeTarget : Whole a (new ++ a :: rest) :=
          whole_append_cons_iff.mpr ⟨wholeNew, (whole_append_cons_iff.mp wholeSource).2⟩
        rcases above_beneath wholeTarget above with rfl | higher | ⟨between, rfl, deeper⟩
        · exact .inr (.inl rfl)
        · exact .inr (.inr higher)
        · refine .inl (.inr ⟨old ++ a :: between, ?_, .beneath between⟩)
          refine closed.branches _ mem _ ⟨by simp, ?_⟩
          obtain ⟨-, tail, rfl⟩ := deeper
          exact ⟨tail, by simp⟩
    · rcases atNew with rfl | isAbove
      · exact .inr (.inr above)
      · exact .inr (.inr (above.trans isAbove))

theorem whole_rename {listing : Listing α} (whole : ∀ name ∈ listing.branches, Whole a name)
    (wholeNew : Whole a new) : ∀ name ∈ (listing.rename a old new).branches, Whole a name := by
  rintro name ((⟨mem, -⟩ | ⟨source, mem, renamed⟩) | rfl | above)
  · exact whole name mem
  · cases renamed with
    | self => exact wholeNew
    | beneath rest =>
      exact whole_append_cons_iff.mpr ⟨wholeNew, (whole_append_cons_iff.mp (whole _ mem)).2⟩
  · exact wholeNew
  · exact wholeNew.above above

end Listing

end Burlmd.Segments
