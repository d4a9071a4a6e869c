import Mathlib.Data.List.Nodup
import Mathlib.Tactic.Common

/-!
# Keyed tables

A table is a list of rows no two of which share a key. The statements are those of a
relational store: an insertion refuses a key that is taken, or leaves the row that has
it, or takes its place.
-/

namespace Burlmd

universe u v
variable {ρ : Type u} {κ : Type v}

structure Table (key : ρ → κ) where
  rows : List ρ
  distinct : (rows.map key).Nodup

namespace Table

variable {key : ρ → κ}

instance : Membership ρ (Table key) := ⟨fun t r => r ∈ t.rows⟩

theorem mem_def {t : Table key} {r : ρ} : r ∈ t ↔ r ∈ t.rows := Iff.rfl

instance [DecidableEq ρ] (r : ρ) (t : Table key) : Decidable (r ∈ t) :=
  inferInstanceAs (Decidable (r ∈ t.rows))

instance : EmptyCollection (Table key) := ⟨⟨[], List.nodup_nil⟩⟩

@[simp] theorem not_mem_empty (r : ρ) : ¬r ∈ (∅ : Table key) := List.not_mem_nil

theorem eq_of_key_eq {t : Table key} {r r' : ρ} (mem : r ∈ t) (mem' : r' ∈ t)
    (same : key r = key r') : r = r' :=
  List.inj_on_of_nodup_map t.distinct mem mem' same

/-- Deletes the rows that `p` selects. -/
def delete (t : Table key) (p : ρ → Bool) : Table key :=
  ⟨t.rows.filter fun r => !p r, (List.filter_sublist.map key).nodup t.distinct⟩

@[simp] theorem mem_delete {t : Table key} {p : ρ → Bool} {r : ρ} :
    r ∈ t.delete p ↔ r ∈ t ∧ p r = false := by
  simp [delete, mem_def]

theorem delete_eq_self {t : Table key} {p : ρ → Bool} (none : ∀ r ∈ t, p r = false) :
    t.delete p = t := by
  have kept : t.rows.filter (fun r => !p r) = t.rows := by
    apply List.filter_eq_self.mpr
    intro r mem
    rw [none r mem, Bool.not_false]
  unfold delete
  simp only [kept]

/-- Rewrites the rows that `p` selects, each under the key it has. -/
def update (t : Table key) (p : ρ → Bool) (f : ρ → ρ) (keeps : ∀ r, key (f r) = key r) :
    Table key where
  rows := t.rows.map fun r => if p r then f r else r
  distinct := by
    have same : key ∘ (fun r => if p r then f r else r) = key := by
      funext r
      simp only [Function.comp_apply]
      split
      · exact keeps r
      · rfl
    rw [List.map_map, same]
    exact t.distinct

theorem mem_update {t : Table key} {p : ρ → Bool} {f : ρ → ρ} {keeps : ∀ r, key (f r) = key r}
    {r : ρ} :
    r ∈ t.update p f keeps ↔ (r ∈ t ∧ p r = false) ∨ ∃ r' ∈ t, p r' = true ∧ f r' = r := by
  simp only [update, mem_def, List.mem_map]
  constructor
  · rintro ⟨r', mem, rfl⟩
    by_cases selected : p r' = true
    · exact .inr ⟨r', mem, selected, by rw [if_pos selected]⟩
    · rw [if_neg selected]
      exact .inl ⟨mem, by simpa using selected⟩
  · rintro (⟨mem, left⟩ | ⟨r', mem, selected, rfl⟩)
    · exact ⟨r, mem, by simp [left]⟩
    · exact ⟨r', mem, by rw [if_pos selected]⟩

variable [DecidableEq κ]

def find? (t : Table key) (k : κ) : Option ρ := t.rows.find? fun r => key r = k

theorem find?_eq_some_iff {t : Table key} {k : κ} {r : ρ} :
    t.find? k = some r ↔ r ∈ t ∧ key r = k := by
  constructor
  · intro found
    exact ⟨List.mem_of_find?_eq_some found, by simpa using List.find?_some found⟩
  · rintro ⟨mem, rfl⟩
    cases found : t.find? (key r) with
    | none => exact absurd (List.find?_eq_none.mp found r mem) (by simp)
    | some r' =>
      have same : key r' = key r := by simpa using List.find?_some found
      rw [eq_of_key_eq (List.mem_of_find?_eq_some found) mem same]

theorem find?_eq_none_iff {t : Table key} {k : κ} :
    t.find? k = none ↔ ∀ r ∈ t, key r ≠ k := by
  simp [find?, mem_def, List.find?_eq_none]

theorem find?_key {t : Table key} {r : ρ} (mem : r ∈ t) : t.find? (key r) = some r :=
  find?_eq_some_iff.mpr ⟨mem, rfl⟩

/-- Two tables answer a key alike when they hold the same rows under it. -/
theorem find?_congr {t t' : Table key} {k : κ}
    (same : ∀ r, key r = k → (r ∈ t ↔ r ∈ t')) : t.find? k = t'.find? k := by
  cases found : t'.find? k with
  | none =>
    rw [find?_eq_none_iff] at found ⊢
    intro r mem isKey
    exact found r ((same r isKey).mp mem) isKey
  | some r =>
    obtain ⟨mem, isKey⟩ := find?_eq_some_iff.mp found
    exact find?_eq_some_iff.mpr ⟨(same r isKey).mpr mem, isKey⟩

/-- A table that lost exactly the rows whose key `q` selects. -/
theorem find?_of_mem_iff {t t' : Table key} {q : κ → Bool}
    (mem_iff : ∀ r, r ∈ t' ↔ r ∈ t ∧ q (key r) = false) (k : κ) :
    t'.find? k = if q k then none else t.find? k := by
  split
  · rename_i deleted
    rw [find?_eq_none_iff]
    rintro r mem rfl
    simp [((mem_iff r).mp mem).2] at deleted
  · rename_i kept
    apply find?_congr
    rintro r rfl
    rw [mem_iff]
    constructor
    · exact And.left
    · exact fun mem => ⟨mem, by simpa using kept⟩

/-- Inserts a row, unless its key is taken. -/
def insert? (t : Table key) (r : ρ) : Option (Table key) :=
  if fresh : key r ∉ t.rows.map key then
    some ⟨t.rows ++ [r], by
      rw [List.map_append, List.map_singleton]
      exact List.nodup_append.mpr ⟨t.distinct, List.nodup_singleton _, by
        intro k mem k' mem' same
        rw [List.mem_singleton] at mem'
        exact fresh (mem' ▸ same ▸ mem)⟩⟩
  else none

theorem insert?_eq_some_iff {t t' : Table key} {r : ρ} :
    t.insert? r = some t' ↔ (∀ x ∈ t, key x ≠ key r) ∧ t'.rows = t.rows ++ [r] := by
  unfold insert?
  split
  · rename_i fresh
    have free : ∀ x ∈ t, key x ≠ key r := by
      intro x mem same
      exact fresh (List.mem_map.mpr ⟨x, mem, same⟩)
    constructor
    · rintro ⟨⟩
      exact ⟨free, rfl⟩
    · rintro ⟨-, shape⟩
      cases t'
      simp_all
  · rename_i taken
    rw [not_not, List.mem_map] at taken
    obtain ⟨x, mem, same⟩ := taken
    constructor
    · rintro ⟨⟩
    · rintro ⟨free, -⟩
      exact absurd same (free x mem)

theorem mem_insert? {t t' : Table key} {r x : ρ} (inserted : t.insert? r = some t') :
    x ∈ t' ↔ x ∈ t ∨ x = r := by
  rw [mem_def, (insert?_eq_some_iff.mp inserted).2, List.mem_append, List.mem_singleton]
  rfl

theorem insert?_isSome_iff {t : Table key} {r : ρ} :
    (t.insert? r).isSome ↔ ∀ x ∈ t, key x ≠ key r := by
  unfold insert?
  split
  · rename_i fresh
    simp only [Option.isSome_some, true_iff]
    intro x mem same
    exact fresh (List.mem_map.mpr ⟨x, mem, same⟩)
  · rename_i taken
    rw [not_not, List.mem_map] at taken
    obtain ⟨x, mem, same⟩ := taken
    simp only [Option.isSome_none, Bool.false_eq_true, false_iff, not_forall]
    exact ⟨x, mem, fun free => free same⟩

/-- Inserts a row, or leaves the one that has its key. -/
def insertOrIgnore (t : Table key) (r : ρ) : Table key := (t.insert? r).getD t

theorem mem_insertOrIgnore {t : Table key} {r x : ρ} :
    x ∈ t.insertOrIgnore r ↔ x ∈ t ∨ (x = r ∧ ∀ y ∈ t, key y ≠ key r) := by
  unfold insertOrIgnore
  cases inserted : t.insert? r with
  | none =>
    have taken : ¬∀ y ∈ t, key y ≠ key r := by
      rw [← insert?_isSome_iff, inserted]
      simp
    simp [taken]
  | some t' =>
    have free := (insert?_eq_some_iff.mp inserted).1
    rw [Option.getD_some, mem_insert? inserted]
    constructor
    · rintro (mem | rfl)
      · exact .inl mem
      · exact .inr ⟨rfl, free⟩
    · rintro (mem | ⟨rfl, -⟩)
      · exact .inl mem
      · exact .inr rfl

/-- Inserts the rows in the order given; the first of those that share a key stays. -/
def insertAllOrIgnore (t : Table key) (rs : List ρ) : Table key := rs.foldl insertOrIgnore t

theorem mem_of_mem_insertAllOrIgnore {t : Table key} {rs : List ρ} {x : ρ}
    (mem : x ∈ t.insertAllOrIgnore rs) : x ∈ t ∨ x ∈ rs := by
  induction rs generalizing t with
  | nil => exact .inl mem
  | cons r rs ih =>
    rcases ih (t := t.insertOrIgnore r) mem with mem | mem
    · rcases mem_insertOrIgnore.mp mem with mem | ⟨rfl, -⟩
      · exact .inl mem
      · exact .inr List.mem_cons_self
    · exact .inr (List.mem_cons_of_mem _ mem)

theorem find?_insert? {t t' : Table key} {r : ρ} (inserted : t.insert? r = some t') (k : κ) :
    t'.find? k = if key r = k then some r else t.find? k := by
  split
  · rename_i isKey
    exact find?_eq_some_iff.mpr ⟨(mem_insert? inserted).mpr (.inr rfl), isKey⟩
  · rename_i other
    apply find?_congr
    rintro x rfl
    rw [mem_insert? inserted]
    constructor
    · rintro (mem | rfl)
      · exact mem
      · exact absurd rfl other
    · exact .inl

theorem find?_insertOrIgnore {t : Table key} {r : ρ} {k : κ} :
    (t.insertOrIgnore r).find? k =
      (t.find? k).or (if key r = k then some r else none) := by
  unfold insertOrIgnore
  cases inserted : t.insert? r with
  | none =>
    have taken : ¬∀ y ∈ t, key y ≠ key r := by
      rw [← insert?_isSome_iff, inserted]
      simp
    rw [Option.getD_none]
    split
    · rename_i isKey
      rw [← find?_eq_none_iff, isKey] at taken
      obtain ⟨y, found⟩ := Option.ne_none_iff_exists'.mp taken
      rw [found, Option.some_or]
    · rw [Option.or_none]
  | some t' =>
    rw [Option.getD_some, find?_insert? inserted]
    split
    · rename_i isKey
      have free := (insert?_eq_some_iff.mp inserted).1
      rw [find?_eq_none_iff.mpr (isKey ▸ free), Option.none_or]
    · rw [Option.or_none]

theorem find?_insertAllOrIgnore {t : Table key} {rs : List ρ} {k : κ} :
    (t.insertAllOrIgnore rs).find? k = (t.find? k).or (rs.find? fun r => key r = k) := by
  induction rs generalizing t with
  | nil => simp [insertAllOrIgnore]
  | cons r rs ih =>
    have step := @ih (t.insertOrIgnore r)
    rw [find?_insertOrIgnore, Option.or_assoc] at step
    rw [show t.insertAllOrIgnore (r :: rs) = (t.insertOrIgnore r).insertAllOrIgnore rs from rfl,
      step, List.find?_cons]
    by_cases isKey : key r = k
    · simp [isKey]
    · simp [isKey]

/-- Inserts a row in the place of the one that has its key. -/
def put (t : Table key) (r : ρ) : Table key where
  rows := (t.rows.filter fun x => !decide (key x = key r)) ++ [r]
  distinct := by
    rw [List.map_append, List.map_singleton]
    refine List.nodup_append.mpr
      ⟨(List.filter_sublist.map key).nodup t.distinct, List.nodup_singleton _, ?_⟩
    intro k mem k' mem' same
    obtain ⟨x, kept, rfl⟩ := List.mem_map.mp mem
    rw [List.mem_singleton] at mem'
    simp only [List.mem_filter, Bool.not_eq_true', decide_eq_false_iff_not] at kept
    exact kept.2 (same.trans mem')

@[simp] theorem mem_put {t : Table key} {r x : ρ} :
    x ∈ t.put r ↔ (x ∈ t ∧ key x ≠ key r) ∨ x = r := by
  simp [put, mem_def]

theorem find?_put {t : Table key} {r : ρ} {k : κ} :
    (t.put r).find? k = if key r = k then some r else t.find? k := by
  split
  · rename_i isKey
    exact find?_eq_some_iff.mpr ⟨mem_put.mpr (.inr rfl), isKey⟩
  · rename_i other
    apply find?_congr
    rintro x rfl
    rw [mem_put]
    constructor
    · rintro (⟨mem, -⟩ | rfl)
      · exact mem
      · exact absurd rfl other
    · exact fun mem => .inl ⟨mem, fun same => other same.symm⟩

/-- Puts the rows in the order given. -/
def putAll (t : Table key) (rs : List ρ) : Table key := rs.foldl put t

theorem mem_putAll {t : Table key} {rs : List ρ} (apart : (rs.map key).Nodup) {x : ρ} :
    x ∈ t.putAll rs ↔ (x ∈ t ∧ ∀ r ∈ rs, key x ≠ key r) ∨ x ∈ rs := by
  induction rs generalizing t with
  | nil => simp [putAll]
  | cons r rs ih =>
    obtain ⟨fresh, apart⟩ := List.nodup_cons.mp apart
    have step := @ih (t.put r) apart
    rw [show t.putAll (r :: rs) = (t.put r).putAll rs from rfl, step, mem_put]
    constructor
    · rintro (⟨⟨mem, ne⟩ | rfl, others⟩ | mem)
      · exact .inl ⟨mem, by simpa using ⟨ne, others⟩⟩
      · exact .inr List.mem_cons_self
      · exact .inr (List.mem_cons_of_mem _ mem)
    · rintro (⟨mem, others⟩ | mem)
      · exact .inl ⟨.inl ⟨mem, others r List.mem_cons_self⟩,
          fun r' mem' => others r' (List.mem_cons_of_mem _ mem')⟩
      · rcases List.mem_cons.mp mem with rfl | mem
        · refine .inl ⟨.inr rfl, fun r' mem' same => fresh ?_⟩
          exact List.mem_map.mpr ⟨r', mem', same.symm⟩
        · exact .inr mem

/-- Rewrites the rows that `p` selects, keys included; a row whose key a rewritten one
takes makes way for it. -/
def updateOrReplace (t : Table key) (p : ρ → Bool) (f : ρ → ρ) : Table key :=
  (t.delete p).putAll ((t.rows.filter p).map f)

theorem mem_updateOrReplace {t : Table key} {p : ρ → Bool} {f : ρ → ρ}
    (apart : ∀ r ∈ t, ∀ r' ∈ t, p r = true → p r' = true → key (f r) = key (f r') →
      key r = key r') {x : ρ} :
    x ∈ t.updateOrReplace p f ↔
      (x ∈ t ∧ p x = false ∧ ∀ r ∈ t, p r = true → key x ≠ key (f r)) ∨
        ∃ r ∈ t, p r = true ∧ f r = x := by
  have distinct : (((t.rows.filter p).map f).map key).Nodup := by
    rw [List.map_map]
    have kept : ((t.rows.filter p).map key).Nodup :=
      (List.filter_sublist.map key).nodup t.distinct
    refine List.Nodup.map_on ?_ (List.Nodup.of_map key kept)
    intro r mem r' mem' same
    obtain ⟨mem, selected⟩ := List.mem_filter.mp mem
    obtain ⟨mem', selected'⟩ := List.mem_filter.mp mem'
    exact eq_of_key_eq mem mem' (apart r mem r' mem' selected selected' same)
  rw [updateOrReplace, mem_putAll distinct]
  simp only [mem_delete, List.mem_map, List.mem_filter]
  constructor
  · rintro (⟨⟨mem, left⟩, others⟩ | ⟨r, ⟨mem, selected⟩, rfl⟩)
    · exact .inl ⟨mem, left, fun r mem selected => others _ ⟨r, ⟨mem, selected⟩, rfl⟩⟩
    · exact .inr ⟨r, mem, selected, rfl⟩
  · rintro (⟨mem, left, others⟩ | ⟨r, mem, selected, rfl⟩)
    · refine .inl ⟨⟨mem, left⟩, ?_⟩
      rintro _ ⟨r, ⟨mem, selected⟩, rfl⟩
      exact others r mem selected
    · exact .inr ⟨r, ⟨mem, selected⟩, rfl⟩

end Table

end Burlmd
