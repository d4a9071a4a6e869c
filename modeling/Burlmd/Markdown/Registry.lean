import Mathlib.Data.List.Sort
import Mathlib.Tactic.Common
import Burlmd.Library.BottomUp
import Burlmd.Markdown.Simulation

/-!
# What the span map registers

A path looks up an emitted block; the registered entries are the blocks that have
a source, each under its own path.
-/

namespace Burlmd.Markdown

open Utf8

def Emitted.children : Emitted → List Emitted
  | leaf .. => []
  | container _ _ children => children

def lookup : List Emitted → BlockPath → Option Emitted
  | _, [] => none
  | blocks, [index] => blocks[index]?
  | blocks, index :: next :: rest =>
      blocks[index]?.bind fun block => lookup block.children (next :: rest)

def Emitted.source? : Emitted → Option Range
  | leaf _ source _ => source
  | container _ source _ => some source

@[simp] theorem Emitted.source?_leaf (node : AstNode) (source : Option Range)
    (runs : List InlineRun) : (leaf node source runs).source? = source := rfl

@[simp] theorem Emitted.source?_container (kind : ContainerKind) (source : Range)
    (children : List Emitted) : (container kind source children).source? = some source := rfl

def Emitted.runs : Emitted → List InlineRun
  | leaf _ _ runs => runs
  | container .. => []

/-- The entry of a block registered under `path`. -/
def Emitted.entry (path : BlockPath) (source : Range) (block : Emitted) : BlockSpan :=
  ⟨path, source, block.runs, SpanMapBuilder.renderedEnd block.runs, []⟩

@[simp] theorem lookup_nil (path : BlockPath) : lookup [] path = none := by
  cases path with
  | nil => rfl
  | cons index rest => cases rest <;> simp [lookup]

theorem lookup_cons_cons (blocks : List Emitted) (index next : Nat) (rest : BlockPath) :
    lookup blocks (index :: next :: rest) =
      blocks[index]?.bind fun block => lookup block.children (next :: rest) := rfl

theorem lookup_cons_some {blocks : List Emitted} {index : Nat} {rest : BlockPath}
    {block : Emitted} :
    lookup blocks (index :: rest) = some block ↔
      ∃ first, blocks[index]? = some first ∧
        ((rest = [] ∧ first = block) ∨ (rest ≠ [] ∧ lookup first.children rest = some block)) := by
  cases rest with
  | nil => simp [lookup]
  | cons next rest => simp [lookup_cons_cons, Option.bind_eq_some_iff]

theorem lookup_snoc {blocks : List Emitted} {path : BlockPath} {index : Nat} {block : Emitted}
    (nonempty : path ≠ []) :
    lookup blocks (path ++ [index]) = some block ↔
      ∃ parent, lookup blocks path = some parent ∧ parent.children[index]? = some block := by
  induction path generalizing blocks with
  | nil => simp at nonempty
  | cons first rest ih =>
    cases rest with
    | nil => simp [lookup, Option.bind_eq_some_iff]
    | cons next rest =>
      simp only [List.cons_append] at ih ⊢
      simp only [lookup_cons_cons, Option.bind_eq_some_iff]
      constructor
      · rintro ⟨top, found, below⟩
        obtain ⟨parent, upTo, held⟩ := (ih (by simp)).mp below
        exact ⟨parent, ⟨top, found, upTo⟩, held⟩
      · rintro ⟨parent, ⟨top, found, upTo⟩, held⟩
        exact ⟨top, found, (ih (by simp)).mpr ⟨parent, upTo, held⟩⟩

theorem lookup_append {blocks : List Emitted} {path rest : BlockPath} {inner : Emitted}
    (nonempty : path ≠ []) (below : rest ≠ []) (found : lookup blocks (path ++ rest) = some inner) :
    ∃ outer, lookup blocks path = some outer ∧ lookup outer.children rest = some inner := by
  induction path generalizing blocks with
  | nil => simp at nonempty
  | cons first upper ih =>
    obtain ⟨top, at_, ⟨empty, -⟩ | ⟨-, deeper⟩⟩ := lookup_cons_some.mp found
    · simp [below] at empty
    · cases upper with
      | nil => exact ⟨top, at_, by simpa using deeper⟩
      | cons next upper =>
        obtain ⟨outer, here, held⟩ := ih (by simp) deeper
        exact ⟨outer, lookup_cons_some.mpr ⟨top, at_, .inr ⟨by simp, here⟩⟩, held⟩

mutual

theorem Emitted.mem_register {entry : BlockSpan} : ∀ (block : Emitted) (path : BlockPath),
    entry ∈ block.register path ↔
      (∃ source, block.source? = some source ∧ entry = block.entry path source) ∨
      ∃ rest inner source, lookup block.children rest = some inner ∧
        inner.source? = some source ∧ entry = inner.entry (path ++ rest) source
  | .leaf node none runs, path => by
    simp [Emitted.register, Emitted.source?, Emitted.children, lookup_nil]
  | .leaf node (some source) runs, path => by
    simp [Emitted.register, Emitted.source?, Emitted.children, lookup_nil, Emitted.entry,
      Emitted.runs]
  | .container kind source children, path => by
    have inner := @mem_registerAll entry children path 0
    rw [Emitted.register, List.mem_append, List.mem_singleton, inner, or_comm]
    refine or_congr (by simp [Emitted.source?, Emitted.entry, Emitted.runs,
      SpanMapBuilder.renderedEnd]) ⟨?_, ?_⟩
    · rintro ⟨index, rest, block, range, found, registered, same⟩
      exact ⟨index :: rest, block, range, found, registered, by simpa using same⟩
    · rintro ⟨path', block, range, found, registered, same⟩
      cases path' with
      | nil => simp [lookup] at found
      | cons index rest => exact ⟨index, rest, block, range, found, registered, by simpa using same⟩

theorem mem_registerAll {entry : BlockSpan} : ∀ (blocks : List Emitted) (base : BlockPath)
    (first : Nat), entry ∈ registerAll base first blocks ↔
      ∃ index rest block source, lookup blocks (index :: rest) = some block ∧
        block.source? = some source ∧
        entry = block.entry (base ++ (first + index) :: rest) source
  | [], base, first => by simp [registerAll, lookup_nil]
  | block :: blocks, base, first => by
    have head := @Emitted.mem_register entry block (base ++ [first])
    have tail := @mem_registerAll entry blocks base (first + 1)
    rw [registerAll, List.mem_append, head, tail]
    constructor
    · rintro ((⟨range, registered, same⟩ | ⟨rest, inner, range, found, registered, same⟩) |
        ⟨index, rest, inner, range, found, registered, same⟩)
      · exact ⟨0, [], block, range, rfl, registered, same⟩
      · refine ⟨0, rest, inner, range, ?_, registered, by simpa using same⟩
        have nonempty : rest ≠ [] := by rintro rfl; simp [lookup] at found
        exact lookup_cons_some.mpr ⟨block, rfl, .inr ⟨nonempty, found⟩⟩
      · refine ⟨index + 1, rest, inner, range, ?_, registered,
          by simpa [Nat.add_comm, Nat.add_left_comm] using same⟩
        obtain ⟨top, at_, below⟩ := lookup_cons_some.mp found
        exact lookup_cons_some.mpr ⟨top, by simpa using at_, below⟩
    · rintro ⟨index, rest, inner, range, found, registered, same⟩
      obtain ⟨top, at_, below⟩ := lookup_cons_some.mp found
      cases index with
      | zero =>
        obtain rfl : block = top := by simpa using at_
        obtain ⟨rfl, rfl⟩ | ⟨nonempty, below⟩ := below
        · exact .inl (.inl ⟨range, registered, same⟩)
        · exact .inl (.inr ⟨rest, inner, range, below, registered, by simpa using same⟩)
      | succ index =>
        refine .inr ⟨index, rest, inner, range, ?_, registered,
          by simpa [Nat.add_comm, Nat.add_left_comm] using same⟩
        exact lookup_cons_some.mpr ⟨top, by simpa using at_, below⟩

end

theorem mem_registered {entry : BlockSpan} {blocks : List Emitted} :
    entry ∈ registerAll [] 0 blocks ↔
      ∃ path block source, lookup blocks path = some block ∧ block.source? = some source ∧
        entry = block.entry path source := by
  rw [mem_registerAll]
  constructor
  · rintro ⟨index, rest, block, range, found, registered, same⟩
    exact ⟨index :: rest, block, range, found, registered, by simpa using same⟩
  · rintro ⟨path, block, range, found, registered, same⟩
    cases path with
    | nil => simp [lookup] at found
    | cons index rest => exact ⟨index, rest, block, range, found, registered, by simpa using same⟩

mutual

theorem Emitted.register_nodup : ∀ (block : Emitted) (path : BlockPath),
    ((block.register path).map BlockSpan.path).Nodup
  | .leaf _ none _, path => by simp [Emitted.register]
  | .leaf _ (some _) _, path => by simp [Emitted.register]
  | .container kind source children, path => by
    rw [Emitted.register, List.map_append, List.nodup_append]
    refine ⟨registerAll_nodup children path 0, by simp, ?_⟩
    rintro inner member outer own rfl
    obtain ⟨entry, registered, same⟩ := List.mem_map.mp member
    obtain ⟨index, rest, block, range, -, -, rfl⟩ := (mem_registerAll _ _ _).mp registered
    simp [Emitted.entry] at own same
    simp [own] at same

theorem registerAll_nodup : ∀ (blocks : List Emitted) (base : BlockPath) (first : Nat),
    ((registerAll base first blocks).map BlockSpan.path).Nodup
  | [], base, first => by simp [registerAll]
  | block :: blocks, base, first => by
    rw [registerAll, List.map_append, List.nodup_append]
    refine ⟨block.register_nodup _, registerAll_nodup blocks base (first + 1), ?_⟩
    rintro path here later there rfl
    obtain ⟨entry, registered, same⟩ := List.mem_map.mp here
    obtain ⟨entry', registered', same'⟩ := List.mem_map.mp there
    obtain ⟨index, rest, inner, range, -, -, rfl⟩ := (mem_registerAll _ _ _).mp registered'
    have start : ∃ tail, entry.path = base ++ first :: tail := by
      obtain ⟨range, -, rfl⟩ | ⟨tail, inner, range, -, -, rfl⟩ :=
        (Emitted.mem_register _ _).mp registered
      · exact ⟨[], rfl⟩
      · exact ⟨tail, by simp [Emitted.entry]⟩
    obtain ⟨tail, start⟩ := start
    have both : base ++ first :: tail = base ++ (first + 1 + index) :: rest := by
      rw [← start, same, ← same']
      rfl
    simp only [List.append_cancel_left_eq, List.cons.injEq] at both
    omega

end

/-- The paths of the map are those of the blocks that have a source. -/
theorem mem_paths {blocks : List Emitted} {path : BlockPath} :
    path ∈ (registerAll [] 0 blocks).map BlockSpan.path ↔
      ∃ block, lookup blocks path = some block ∧ block.source?.isSome := by
  simp only [List.mem_map, mem_registered]
  constructor
  · rintro ⟨_, ⟨path, block, source, found, registered, rfl⟩, rfl⟩
    exact ⟨block, found, by simp [registered]⟩
  · rintro ⟨block, found, registered⟩
    obtain ⟨source, registered⟩ := Option.isSome_iff_exists.mp registered
    exact ⟨_, ⟨path, block, source, found, registered, rfl⟩, rfl⟩

/-- A property of the blocks of a forest and of the children of a block it holds of
reaches every block that can be looked up. -/
theorem lookup_induction {blocks : List Emitted} {motive : Emitted → Prop}
    (top : ∀ block ∈ blocks, motive block)
    (below : ∀ block, motive block → ∀ child ∈ block.children, motive child) {path : BlockPath}
    {block : Emitted} (found : lookup blocks path = some block) : motive block := by
  induction path generalizing blocks with
  | nil => simp [lookup] at found
  | cons index rest ih =>
    obtain ⟨first, at_, ⟨-, rfl⟩ | ⟨-, deeper⟩⟩ := lookup_cons_some.mp found
    · exact top _ (List.mem_of_getElem? at_)
    · exact ih (below first (top first (List.mem_of_getElem? at_))) deeper

end Burlmd.Markdown
