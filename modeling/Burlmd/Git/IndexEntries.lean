import Burlmd.Git.PathEdits

/-!
# The index of a commit

The entries of the named paths, as long as no lookup misses an entry that is there. Entries pushed
for new paths stand at the end until all are placed, so a later lookup may miss one.
-/

namespace Burlmd.Git

open Utf8 (Text)

variable {lookup : EntryLookup} {entries : List IndexEntry} {entry : IndexEntry}
  {state : List IndexEntry × Bool} {staged : StagedPath} {all : List StagedPath}
  {path removed : Text}

theorem isAtOrUnder_iff : isAtOrUnder path removed = true ↔ AtOrAbove removed path := by
  unfold isAtOrUnder AtOrAbove
  rw [Bool.or_eq_true, decide_eq_true_eq]
  apply or_congr_right
  simp only [Bool.and_eq_true, decide_eq_true_eq, Bool.not_eq_true', List.isEmpty_eq_false_iff,
    List.isPrefixOf_iff_prefix]
  constructor
  · intro under
    rcases under with ⟨⟨⟨-, ⟨rest, isPath⟩⟩, nonempty⟩, slash⟩
    rw [← isPath, List.getElem?_append_right (Nat.le_refl _), Nat.sub_self] at slash
    cases rest with
    | nil => cases slash
    | cons c cs =>
      rw [List.getElem?_cons_zero] at slash
      refine ⟨nonempty, cs, ?_⟩
      rw [← isPath, Option.some.inj slash, List.append_assoc, List.singleton_append]
  · intro above
    rcases above with ⟨nonempty, rest, isPath⟩
    rw [List.append_assoc, List.singleton_append] at isPath
    rw [← isPath]
    refine ⟨⟨⟨?_, List.prefix_append _ _⟩, nonempty⟩, ?_⟩
    · rw [List.length_append, List.length_cons]
      omega
    · rw [List.getElem?_append_right (Nat.le_refl _), Nat.sub_self, List.getElem?_cons_zero]

/-! ## One staged path -/

/-- What a commit records of an entry. -/
def IndexEntry.record (entry : IndexEntry) : Stage × ObjectId × EntryKind :=
  (entry.stage, entry.id, entry.mode)

theorem placeEntry_none (deleted : staged.blob = none) : placeEntry lookup state staged = state := by
  unfold placeEntry
  rw [deleted]

/-- A staged path takes the place of its entry, or stands at the end. -/
theorem placeEntry_some (lookup : EntryLookup) (state : List IndexEntry × Bool)
    {blob : ObjectId × EntryKind} (isBlob : staged.blob = some blob) :
    (∃ before entry after, state.1 = before ++ entry :: after ∧
        entry.key = (staged.relative, .unconflicted) ∧
        (lookup.find (state.1.map IndexEntry.key) staged.relative).isSome ∧
        (placeEntry lookup state staged).1 = before ++ entry.update blob :: after) ∨
      lookup.find (state.1.map IndexEntry.key) staged.relative = none ∧
        (placeEntry lookup state staged).1 =
          state.1 ++ [⟨staged.relative, .unconflicted, blob.1, blob.2, .empty, .default⟩] := by
  unfold placeEntry
  rw [isBlob]
  cases found : lookup.find (state.1.map IndexEntry.key) staged.relative with
  | none => exact .inr ⟨rfl, rfl⟩
  | some i =>
    apply Or.inl
    have isKey := lookup.sound found
    rw [List.getElem?_map, Option.map_eq_some_iff] at isKey
    rcases isKey with ⟨entry, isAt, isKey⟩
    rcases List.getElem?_eq_some_iff.mp isAt with ⟨bound, isEntry⟩
    have split : state.1 = state.1.take i ++ entry :: state.1.drop (i + 1) := by
      rw [← isEntry, ← List.drop_eq_getElem_cons bound, List.take_append_drop]
    refine ⟨state.1.take i, entry, state.1.drop (i + 1), split, isKey, rfl, ?_⟩
    have modified := List.modify_eq_take_cons_drop (f := IndexEntry.update blob) bound
    rw [isEntry] at modified
    exact modified

theorem keys_placeEntry : state.1.map IndexEntry.key <+:
    (placeEntry lookup state staged).1.map IndexEntry.key := by
  cases isBlob : staged.blob with
  | none => rw [placeEntry_none isBlob]
  | some blob =>
    rcases placeEntry_some lookup state isBlob with
      ⟨before, entry, after, isState, -, -, isPlaced⟩ | ⟨-, isPlaced⟩
    · rw [isPlaced, isState, List.map_append, List.map_append, List.map_cons, List.map_cons]
      exact List.prefix_refl _
    · rw [isPlaced, List.map_append]
      exact List.prefix_append _ _

/-- The entries of other paths stay as they are. -/
theorem filter_placeEntry {kept : Text → Bool}
    (other : staged.blob.isSome → kept staged.relative = false) :
    (placeEntry lookup state staged).1.filter (fun entry => kept entry.path) =
      state.1.filter fun entry => kept entry.path := by
  cases isBlob : staged.blob with
  | none => rw [placeEntry_none isBlob]
  | some blob =>
    have isOther := other (by rw [isBlob]; exact rfl)
    rcases placeEntry_some lookup state isBlob with
      ⟨before, entry, after, isState, isKey, -, isPlaced⟩ | ⟨-, isPlaced⟩
    · have isPath : entry.path = staged.relative := congrArg Prod.fst isKey
      have isPath' : (entry.update blob).path = staged.relative := isPath
      rw [isPlaced, isState, List.filter_append, List.filter_append,
        List.filter_cons_of_neg, List.filter_cons_of_neg]
      · rw [isPath, isOther]
        exact Bool.false_ne_true
      · rw [isPath', isOther]
        exact Bool.false_ne_true
    · rw [isPlaced, List.filter_append, List.filter_cons_of_neg, List.filter_nil, List.append_nil]
      dsimp only
      rw [isOther]
      exact Bool.false_ne_true

theorem mem_paths_placeEntry : path ∈ (placeEntry lookup state staged).1.map IndexEntry.path ↔
    path ∈ state.1.map IndexEntry.path ∨ (staged.blob.isSome ∧ staged.relative = path) := by
  cases isBlob : staged.blob with
  | none =>
    rw [placeEntry_none isBlob]
    simp
  | some blob =>
    rcases placeEntry_some lookup state isBlob with
      ⟨before, entry, after, isState, isKey, -, isPlaced⟩ | ⟨-, isPlaced⟩
    · have isPath : entry.path = staged.relative := congrArg Prod.fst isKey
      have isPath' : (entry.update blob).path = staged.relative := isPath
      rw [isPlaced, isState, List.map_append, List.map_append, List.map_cons, List.map_cons, isPath,
        isPath']
      simp only [List.mem_append, List.mem_cons, Option.isSome_some, true_and]
      constructor
      · exact Or.inl
      · intro either
        rcases either with placed | same
        · exact placed
        · exact .inr (.inl same.symm)
    · rw [isPlaced, List.map_append, List.mem_append]
      simp [eq_comm]

/-- No entry at the path is left by a merge. -/
def Resolved (entries : List IndexEntry) (staged : StagedPath) : Prop :=
  staged.blob.isSome → ∀ entry ∈ entries, entry.path = staged.relative → entry.stage = .unconflicted

theorem filter_eq_singleton {α : Type} {p : α → Bool} {before after : List α} {x : α}
    (isX : p x = true) (left : ∀ y ∈ before, p y = false) (right : ∀ y ∈ after, p y = false) :
    (before ++ x :: after).filter p = [x] := by
  rw [List.filter_append, List.filter_cons_of_pos isX, List.filter_eq_nil_iff.mpr,
    List.filter_eq_nil_iff.mpr, List.nil_append]
  · intro y mem
    rw [right y mem]
    exact Bool.false_ne_true
  · intro y mem
    rw [left y mem]
    exact Bool.false_ne_true

/-- Where the lookup does not miss, the path has the one entry that the commit records. -/
theorem records_placeEntry {blob : ObjectId × EntryKind} (isBlob : staged.blob = some blob)
    (distinct : (state.1.map IndexEntry.key).Nodup) (resolved : Resolved state.1 staged)
    (finds : (staged.relative, .unconflicted) ∈ state.1.map IndexEntry.key →
      (lookup.find (state.1.map IndexEntry.key) staged.relative).isSome) :
    (((placeEntry lookup state staged).1.filter fun entry => entry.path = staged.relative).map
      IndexEntry.record) = [(.unconflicted, blob)] := by
  have stages := resolved (by rw [isBlob]; exact rfl)
  rcases placeEntry_some lookup state isBlob with
    ⟨before, entry, after, isState, isKey, -, isPlaced⟩ | ⟨missed, isPlaced⟩
  · have isPath : entry.path = staged.relative := congrArg Prod.fst isKey
    have isStage : entry.stage = .unconflicted := congrArg Prod.snd isKey
    rw [isState] at stages distinct
    rw [List.map_append, List.map_cons] at distinct
    have apart : ∀ other, other ∈ before ∨ other ∈ after → other.path ≠ staged.relative := by
      intro other mem same
      have isKey' : other.key = entry.key := by
        rw [isKey]
        have inState : other ∈ before ++ entry :: after := by
          rcases mem with mem | mem
          · exact List.mem_append_left _ mem
          · exact List.mem_append_right _ (List.mem_cons_of_mem _ mem)
        unfold IndexEntry.key
        rw [same, stages other inState same]
      rcases List.nodup_append.mp distinct with ⟨-, tail, disjoint⟩
      rcases mem with mem | mem
      · exact disjoint _ (List.mem_map_of_mem mem) _ List.mem_cons_self isKey'
      · exact (List.nodup_cons.mp tail).1 (isKey' ▸ List.mem_map_of_mem mem)
    have isPath' : (entry.update blob).path = staged.relative := isPath
    have alone := filter_eq_singleton (p := fun entry => decide (entry.path = staged.relative))
      (x := entry.update blob) (decide_eq_true isPath')
      (fun other mem => decide_eq_false (apart other (.inl mem)))
      (fun other mem => decide_eq_false (apart other (.inr mem)))
    rw [isPlaced, alone]
    unfold IndexEntry.record IndexEntry.update
    rw [List.map_singleton, isStage]
  · have fresh : ∀ entry ∈ state.1, entry.path ≠ staged.relative := by
      intro entry mem same
      have isFound := finds (List.mem_map.mpr ⟨entry, mem, by
        unfold IndexEntry.key
        rw [same, stages entry mem same]⟩)
      rw [missed] at isFound
      cases isFound
    have alone := filter_eq_singleton (p := fun entry => decide (entry.path = staged.relative))
      (x := ⟨staged.relative, .unconflicted, blob.1, blob.2, .empty, .default⟩)
      (decide_eq_true rfl) (fun entry mem => decide_eq_false (fresh entry mem))
      (List.forall_mem_nil _)
    rw [isPlaced, alone]
    rfl

/-! ## All staged paths -/

/-- No lookup misses an entry that is there, among those kept and those pushed before it. -/
def LookupsFind (lookup : EntryLookup) : List EntryKey → List StagedPath → Prop
  | _, [] => True
  | keys, staged :: rest =>
      if staged.blob.isNone then LookupsFind lookup keys rest
      else if (staged.relative, .unconflicted) ∈ keys then
        (lookup.find keys staged.relative).isSome ∧ LookupsFind lookup keys rest
      else LookupsFind lookup (keys ++ [(staged.relative, .unconflicted)]) rest

/-- The entries after all staged paths. -/
def placed (lookup : EntryLookup) (state : List IndexEntry × Bool) (all : List StagedPath) :
    List IndexEntry := (all.foldl (placeEntry lookup) state).1

theorem keys_placed (lookup : EntryLookup) (state : List IndexEntry × Bool)
    (all : List StagedPath) : state.1.map IndexEntry.key <+:
    (placed lookup state all).map IndexEntry.key := by
  induction all generalizing state with
  | nil => exact List.prefix_refl _
  | cons staged rest ih => exact keys_placeEntry.trans (ih _)

theorem filter_placed (lookup : EntryLookup) (state : List IndexEntry × Bool) {kept : Text → Bool}
    (other : ∀ staged ∈ all, staged.blob.isSome → kept staged.relative = false) :
    (placed lookup state all).filter (fun entry => kept entry.path) =
      state.1.filter fun entry => kept entry.path := by
  induction all generalizing state with
  | nil => rfl
  | cons staged rest ih =>
    rw [List.forall_mem_cons] at other
    exact (ih _ other.2).trans (filter_placeEntry other.1)

theorem mem_paths_placed : path ∈ (placed lookup state all).map IndexEntry.path ↔
    path ∈ state.1.map IndexEntry.path ∨
      ∃ staged ∈ all, staged.blob.isSome ∧ staged.relative = path := by
  induction all generalizing state with
  | nil => simp [placed]
  | cons staged rest ih =>
    have step := @ih (placeEntry lookup state staged)
    unfold placed at step ⊢
    rw [List.foldl_cons, step, mem_paths_placeEntry, or_assoc, List.exists_mem_cons_iff]

/-- A lookup that finds its entry leaves the keys as they are; one without an entry adds its own. -/
theorem keys_placeEntry_eq {blob : ObjectId × EntryKind} (isBlob : staged.blob = some blob)
    (finds : (staged.relative, .unconflicted) ∈ state.1.map IndexEntry.key →
      (lookup.find (state.1.map IndexEntry.key) staged.relative).isSome) :
    (placeEntry lookup state staged).1.map IndexEntry.key =
      if (staged.relative, Stage.unconflicted) ∈ state.1.map IndexEntry.key then
        state.1.map IndexEntry.key
      else state.1.map IndexEntry.key ++ [(staged.relative, .unconflicted)] := by
  rcases placeEntry_some lookup state isBlob with
    ⟨before, entry, after, isState, isKey, -, isPlaced⟩ | ⟨missed, isPlaced⟩
  · have isKey' : (entry.update blob).key = entry.key := rfl
    have present : (staged.relative, Stage.unconflicted) ∈ state.1.map IndexEntry.key := by
      rw [isState, ← isKey]
      exact List.mem_map_of_mem (List.mem_append_right _ List.mem_cons_self)
    rw [if_pos present, isPlaced, isState, List.map_append, List.map_append, List.map_cons,
      List.map_cons, isKey']
  · have absent : (staged.relative, Stage.unconflicted) ∉ state.1.map IndexEntry.key := by
      intro present
      have found := finds present
      rw [missed] at found
      cases found
    rw [if_neg absent, isPlaced, List.map_append]
    rfl

theorem LookupsFind.cons_blob {keys : List EntryKey} {blob : ObjectId × EntryKind}
    (isBlob : staged.blob = some blob) : LookupsFind lookup keys (staged :: all) ↔
      ((staged.relative, .unconflicted) ∈ keys → (lookup.find keys staged.relative).isSome) ∧
        LookupsFind lookup (if (staged.relative, Stage.unconflicted) ∈ keys then keys
          else keys ++ [(staged.relative, .unconflicted)]) all := by
  rw [LookupsFind, isBlob, if_neg (by exact Bool.false_ne_true)]
  by_cases present : (staged.relative, Stage.unconflicted) ∈ keys
  · rw [if_pos present, if_pos present]
    exact and_congr_left' ⟨fun found _ => found, fun finds => finds present⟩
  · rw [if_neg present, if_neg present]
    exact ⟨fun rest => ⟨fun wrong => absurd wrong present, rest⟩, And.right⟩

/-- Each staged file has the one entry that the commit records, if no lookup misses. -/
theorem records_placed (finds : LookupsFind lookup (state.1.map IndexEntry.key) all)
    (distinct : (state.1.map IndexEntry.key).Nodup)
    (resolved : ∀ staged ∈ all, Resolved state.1 staged)
    (agree : ∀ staged ∈ all, ∀ other ∈ all, staged.relative = other.relative → staged = other)
    (mem : staged ∈ all) {blob : ObjectId × EntryKind} (isBlob : staged.blob = some blob) :
    (((placed lookup state all).filter fun entry => entry.path = staged.relative).map
      IndexEntry.record) = [(.unconflicted, blob)] := by
  induction all generalizing state with
  | nil => cases mem
  | cons first rest ih =>
    have agree' : ∀ staged ∈ rest, ∀ other ∈ rest,
        staged.relative = other.relative → staged = other := by
      intro staged mem other mem' same
      exact agree staged (List.mem_cons_of_mem _ mem) other (List.mem_cons_of_mem _ mem') same
    cases isFirst : first.blob with
    | none =>
      have inRest : staged ∈ rest := by
        rcases List.mem_cons.mp mem with same | inRest
        · rw [same, isFirst] at isBlob
          cases isBlob
        · exact inRest
      rw [LookupsFind, isFirst, if_pos (by exact rfl)] at finds
      unfold placed
      rw [List.foldl_cons, placeEntry_none isFirst]
      exact ih finds distinct (fun staged mem => resolved staged (List.mem_cons_of_mem _ mem)) agree'
        inRest
    | some blob' =>
      rcases (LookupsFind.cons_blob isFirst).mp finds with ⟨findsFirst, findsRest⟩
      have keys := keys_placeEntry_eq isFirst findsFirst
      rw [← keys] at findsRest
      have distinct' : ((placeEntry lookup state first).1.map IndexEntry.key).Nodup := by
        rw [keys]
        by_cases present : (first.relative, Stage.unconflicted) ∈ state.1.map IndexEntry.key
        · rw [if_pos present]
          exact distinct
        · rw [if_neg present]
          exact List.nodup_append.mpr ⟨distinct, List.nodup_singleton _, by
            intro key mem key' mem' same
            rw [List.mem_singleton] at mem'
            exact present (mem' ▸ same ▸ mem)⟩
      have resolved' : ∀ staged ∈ rest, Resolved (placeEntry lookup state first).1 staged := by
        intro staged mem isSome entry placed isPath
        have isKey := List.mem_map_of_mem (f := IndexEntry.key) placed
        rw [keys] at isKey
        have cases : entry.key ∈ state.1.map IndexEntry.key ∨
            entry.key = (first.relative, .unconflicted) := by
          by_cases present : (first.relative, Stage.unconflicted) ∈ state.1.map IndexEntry.key
          · rw [if_pos present] at isKey
            exact .inl isKey
          · rw [if_neg present, List.mem_append, List.mem_singleton] at isKey
            exact isKey
        rcases cases with before | new
        · rcases List.mem_map.mp before with ⟨entry', mem', same⟩
          have isPath' : entry'.path = staged.relative :=
            (congrArg Prod.fst same).trans isPath
          have isStage := resolved staged (List.mem_cons_of_mem _ mem) isSome entry' mem' isPath'
          exact (congrArg Prod.snd same).symm.trans isStage
        · exact congrArg Prod.snd new
      by_cases later : staged ∈ rest
      · exact ih findsRest distinct' resolved' agree' later
      · have isStaged : staged = first := by
          rcases List.mem_cons.mp mem with same | inRest
          · exact same
          · exact absurd inRest later
        have others : ∀ other ∈ rest, other.blob.isSome →
            decide (other.relative = staged.relative) = false := by
          intro other mem' _
          apply decide_eq_false
          intro same
          have isSame := agree other (List.mem_cons_of_mem _ mem') staged mem same
          exact later (isSame ▸ mem')
        have rest' := @filter_placed _ lookup (placeEntry lookup state first)
          (fun path => decide (path = staged.relative)) others
        have whole : placed lookup state (first :: rest) =
            placed lookup (placeEntry lookup state first) rest := rfl
        rw [whole, rest', isStaged]
        rw [isStaged] at isBlob
        exact records_placeEntry isBlob distinct (resolved first List.mem_cons_self) findsFirst

/-- Where a lookup misses its entry, that path ends with two of them. -/
theorem exists_double (missed : ¬ LookupsFind lookup (state.1.map IndexEntry.key) all) :
    ∃ staged ∈ all, staged.blob.isSome ∧
      2 ≤ ((placed lookup state all).map IndexEntry.key).count (staged.relative, .unconflicted) := by
  induction all generalizing state with
  | nil => exact absurd trivial missed
  | cons first rest ih =>
    have lift : (∃ staged ∈ rest, staged.blob.isSome ∧
        2 ≤ ((placed lookup (placeEntry lookup state first) rest).map IndexEntry.key).count
          (staged.relative, .unconflicted)) → ∃ staged ∈ first :: rest, staged.blob.isSome ∧
        2 ≤ ((placed lookup state (first :: rest)).map IndexEntry.key).count
          (staged.relative, .unconflicted) := by
      intro twice
      rcases twice with ⟨staged, mem, isSome, twice⟩
      exact ⟨staged, List.mem_cons_of_mem _ mem, isSome, twice⟩
    cases isFirst : first.blob with
    | none =>
      rw [LookupsFind, isFirst, if_pos (by exact rfl)] at missed
      apply lift
      rw [placeEntry_none isFirst]
      exact ih missed
    | some blob =>
      by_cases finds : (first.relative, .unconflicted) ∈ state.1.map IndexEntry.key →
          (lookup.find (state.1.map IndexEntry.key) first.relative).isSome
      · apply lift
        apply ih
        rw [keys_placeEntry_eq isFirst finds]
        intro findsRest
        exact missed ((LookupsFind.cons_blob isFirst).mpr ⟨finds, findsRest⟩)
      · rw [Classical.not_imp] at finds
        rcases finds with ⟨present, notFound⟩
        rcases placeEntry_some lookup state isFirst with
          ⟨_, _, _, -, -, found, -⟩ | ⟨-, isPlaced⟩
        · exact absurd found notFound
        · refine ⟨first, List.mem_cons_self, by rw [isFirst]; exact rfl, ?_⟩
          have twice : 2 ≤ ((placeEntry lookup state first).1.map IndexEntry.key).count
              (first.relative, .unconflicted) := by
            have once := List.count_pos_iff.mpr present
            have isNew : ([⟨first.relative, .unconflicted, blob.1, blob.2, .empty, .default⟩] :
                List IndexEntry).map IndexEntry.key = [(first.relative, .unconflicted)] := rfl
            rw [isPlaced, List.map_append, List.count_append, isNew, List.count_singleton_self]
            omega
          exact Nat.le_trans twice
            ((keys_placed lookup (placeEntry lookup state first) rest).sublist.count_le _)

end Burlmd.Git
