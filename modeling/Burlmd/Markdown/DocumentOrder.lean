import Burlmd.Markdown.Coherence

/-!
# Document order

Of two paths neither of which is above the other, one comes later in the document.
-/

namespace Burlmd.Markdown

/-- The second path comes after the first one, and is not below it. -/
@[grind =] def Later : BlockPath → BlockPath → Prop
  | first :: s, second :: t => first < second ∨ first = second ∧ Later s t
  | _, _ => False

instance : ∀ path other : BlockPath, Decidable (Later path other)
  | [], _ => isFalse id
  | _ :: _, [] => isFalse id
  | first :: s, second :: t =>
      have := instDecidableLater s t
      inferInstanceAs (Decidable (first < second ∨ first = second ∧ Later s t))

theorem later_iff {path other : BlockPath} :
    Later path other ↔ ∃ base first second s t, first < second ∧ path = base ++ first :: s ∧
      other = base ++ second :: t := by
  induction path generalizing other with
  | nil =>
    constructor
    · intro never
      cases never
    · rintro ⟨base, first, second, s, t, -, none_, -⟩
      exact absurd none_.symm (List.append_ne_nil_of_right_ne_nil _ (List.cons_ne_nil _ _))
  | cons a rest ih =>
    cases other with
    | nil =>
      constructor
      · intro never
        cases never
      · rintro ⟨base, first, second, s, t, -, -, none_⟩
        exact absurd none_.symm (List.append_ne_nil_of_right_ne_nil _ (List.cons_ne_nil _ _))
    | cons b others =>
      unfold Later
      rw [ih]
      constructor
      · rintro (lt | ⟨same, base, first, second, s, t, lt, isRest, isOthers⟩)
        · exact ⟨[], a, b, rest, others, lt, rfl, rfl⟩
        · refine ⟨a :: base, first, second, s, t, lt, ?_, ?_⟩
          · rw [isRest]
            rfl
          · rw [isOthers, same]
            rfl
      · rintro ⟨base, first, second, s, t, lt, isPath, isOther⟩
        cases base with
        | nil =>
          cases isPath
          cases isOther
          exact Or.inl lt
        | cons c base =>
          cases isPath
          cases isOther
          exact Or.inr ⟨rfl, base, first, second, s, t, lt, rfl, rfl⟩

theorem prefix_or_later (path other : BlockPath) :
    path <+: other ∨ other <+: path ∨ Later path other ∨ Later other path := by
  by_cases above : path <+: other
  · exact Or.inl above
  · by_cases below : other <+: path
    · exact Or.inr (Or.inl below)
    · rcases paths_part above below with ⟨base, first, second, s, t, ne, isPath, isOther⟩
      rcases Nat.lt_or_gt_of_ne ne with lt | gt
      · exact Or.inr (Or.inr (Or.inl (later_iff.mpr ⟨base, first, second, s, t, lt, isPath, isOther⟩)))
      · exact Or.inr (Or.inr (Or.inr (later_iff.mpr ⟨base, second, first, t, s, gt, isOther, isPath⟩)))

theorem Later.asymm {path other : BlockPath} (later : Later path other) : ¬ Later other path := by
  induction path generalizing other with
  | nil => cases later
  | cons a rest ih =>
    cases other with
    | nil => cases later
    | cons b others =>
      unfold Later at later ⊢
      rintro (gt | ⟨same, back⟩)
      · rcases later with lt | ⟨same, -⟩
        · omega
        · omega
      · rcases later with lt | ⟨-, onward⟩
        · omega
        · exact ih onward back

theorem Later.not_above {path other : BlockPath} (later : Later path other) :
    ¬ path <+: other ∧ ¬ other <+: path := by
  rcases later_iff.mp later with ⟨base, first, second, s, t, lt, isPath, isOther⟩
  rw [isPath, isOther, List.prefix_append_right_inj, List.prefix_append_right_inj,
    List.cons_prefix_cons, List.cons_prefix_cons]
  constructor
  · rintro ⟨same, -⟩
    omega
  · rintro ⟨same, -⟩
    omega

theorem Later.append {path other : BlockPath} (later : Later path other) (s t : BlockPath) :
    Later (path ++ s) (other ++ t) := by
  rcases later_iff.mp later with ⟨base, first, second, s', t', lt, isPath, isOther⟩
  apply later_iff.mpr
  refine ⟨base, first, second, s' ++ s, t' ++ t, lt, ?_, ?_⟩
  · rw [isPath, List.append_assoc]
    rfl
  · rw [isOther, List.append_assoc]
    rfl

theorem later_siblings {base : BlockPath} {first second : Nat} (lt : first < second) :
    Later (base ++ [first]) (base ++ [second]) :=
  later_iff.mpr ⟨base, first, second, [], [], lt, rfl, rfl⟩

theorem Later.trans {a b c : BlockPath} (first : Later a b) (second : Later b c) : Later a c := by
  induction a generalizing b c with
  | nil => cases first
  | cons x xs ih =>
    cases b with
    | nil => cases first
    | cons y ys =>
      cases c with
      | nil => cases second
      | cons z zs =>
        unfold Later at first second ⊢
        rcases first with lt | ⟨same, onward⟩
        · rcases second with lt' | ⟨same', -⟩
          · exact Or.inl (Nat.lt_trans lt lt')
          · exact Or.inl (by omega)
        · rcases second with lt' | ⟨same', onward'⟩
          · exact Or.inl (by omega)
          · exact Or.inr ⟨same.trans same', ih onward onward'⟩

end Burlmd.Markdown
