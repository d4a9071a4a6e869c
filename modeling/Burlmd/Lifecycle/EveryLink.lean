import Burlmd.Index.LostLinks
import Burlmd.Index.Mirror
import Burlmd.Lifecycle.Baseline
import Burlmd.Lifecycle.ForeignKept
import Burlmd.Lifecycle.History
import Burlmd.Lifecycle.OperationSpecs
import Burlmd.Snapshot.Usable

/-!
# Which Notes a rename sees

A plan rewrites the Notes that the index, the drafts and the registry tell it of. Where the
index agrees with the disk this is the same as to scan every Note, but for a Note all of whose
links to the renamed ids are lost by the index.
-/

namespace Burlmd.Lifecycle

open Workspace
open Markdown
open Burlmd.Snapshot (NamesCarried notePath_of_listed)
open Utf8 (Text)
open Okf (ConceptId containingDir)
open Index (WorkspaceId Agrees Database Mirrors linkedTargets lostTargets matchingLinks_eq_nil_iff
  mirrors_of_rebuild treeTargets_account listedId fileStem scanBundle treeTargets)
open Checked

variable {host : Host} {workspace_id : WorkspaceId} {plan : Reidentify} {core core' : Core}
  {affected : List Affected} {id : ConceptId} {source : Text}

/-- The text that a plan gives to the file of a Note. -/
def plannedFile (affected : List Affected) (id : ConceptId) : Option Text :=
  (affected.find? fun a => a.old_id = id).bind Affected.new_file

/-- A Note that only its links could make a candidate, and the index tells of none of those
that lead to a renamed Note. -/
structure Overlooked (workspace_id : WorkspaceId) (core : Core) (plan : Reidentify) (id : ConceptId)
    (f : Forest) : Prop where
  bystander : id ∉ plan.targets
  undrafted : core.db.readDraft workspace_id id = none
  unopened : core.sessions.find? id = none
  linked : ∃ renamed ∈ plan.remap, renamed.1 ∈ linkedTargets (containingDir id) f
  lost : ∀ renamed ∈ plan.remap, (lostTargets (containingDir id) f).count renamed.1 =
    (linkedTargets (containingDir id) f).count renamed.1

/-! ## What a plan does to a Note it is not about -/

/-- Only a Note that the operation is about has its destinations spelled out. -/
theorem absolutizes_target {op : Operation}
    (planned : op.plan host workspace_id core = some (core', plan))
    (absolutizes : plan.absolutize = some id) : id ∈ plan.targets := by
  cases planned_of_plan planned with
  | rename note_id new_title new_id isPlan =>
    rcases planRename_spec isPlan with ⟨-, -, -, -, -, -, -, -, shape⟩
    rw [shape] at absolutizes
    cases absolutizes
  | move note_id new_directory_path new_id old_path directory bundle located isPlan =>
    rcases planMove_spec isPlan with ⟨new_path, isNew, -, -, shape⟩
    rw [shape] at absolutizes ⊢
    dsimp only at absolutizes
    by_cases stays : containingDir note_id = directory
    · rw [if_neg (not_not.mpr stays)] at absolutizes
      cases absolutizes
    · rw [if_pos stays] at absolutizes
      obtain rfl := Option.some.inj absolutizes
      have moves : new_id ≠ note_id := by
        intro same
        have isDirectory := @containingDir_joinId (fileStem note_id) directory
          Segments.not_mem_lastSegment
        rw [← isNew, same] at isDirectory
        exact stays isDirectory
      unfold Reidentify.targets singleRemap
      rw [if_neg moves]
      exact List.mem_cons_self
  | directory path new_name directory isPlan made =>
    rw [made.plain.2.2] at absolutizes
    cases absolutizes

theorem newId_of_bystander (bystander : id ∉ plan.targets) : plan.newId id = id := by
  unfold Reidentify.newId
  cases found : plan.remap.lookup id with
  | none => rfl
  | some new_id =>
    have isTarget : id ∈ plan.targets := by
      apply List.mem_append_left
      exact List.mem_map.mpr ⟨(id, new_id), mem_of_lookup found, rfl⟩
    exact absurd isTarget bystander

theorem destinations_eq_nil_iff {links : List MatchedLink} :
    destinations source links = .ok [] ↔ links = [] := by
  constructor
  · intro found
    cases links with
    | nil => rfl
    | cons link rest =>
      unfold destinations at found
      cases located : destinationSpan source link.span link.text_end with
      | none =>
        rw [located] at found
        cases found
      | some span =>
        rw [located] at found
        rcases map_eq_ok.mp found with ⟨rewrites, -, isCons⟩
        cases isCons
  · rintro rfl
    rfl

theorem rewriteDestinations_eq_none_iff {events : List (Event × Utf8.Range)} {scan : Scan}
    {select : Text → Option Replacement} :
    rewriteDestinations source events scan select = .ok none ↔
      matchingLinks events scan select = [] := by
  rw [← @destinations_eq_nil_iff source]
  unfold rewriteDestinations
  constructor
  · intro rewritten
    rcases bind_eq_ok.mp rewritten with ⟨rewrites, found, rest⟩
    cases rewrites with
    | nil => exact found
    | cons first others =>
      rcases bind_eq_ok.mp rest with ⟨out, -, isSome⟩
      cases isSome
  · intro found
    rw [found]
    rfl

/-- The links of a text stay exactly where it links to no renamed id. -/
theorem rewriteLinkTargets_eq_none_iff {stream : EventStream source} {containing_dir : Text} {remap : Remap}
    (parsed : host.events source = stream.events) :
    rewriteLinkTargets host.events source containing_dir remap = .ok none ↔
      ∀ renamed ∈ remap, renamed.1 ∉ linkedTargets containing_dir stream.forest := by
  have unrenamed : (∀ renamed ∈ remap, renamed.1 ∉ linkedTargets containing_dir stream.forest) ↔
      matchingLinks stream.events .linksOnly (remap.select containing_dir) = [] := by
    rw [matchingLinks_eq_nil_iff]
    constructor
    · intro absent target_id mem
      apply List.lookup_eq_none_iff.mpr
      intro renamed inside
      apply bne_iff_ne.mpr
      rintro rfl
      exact absent renamed inside mem
    · intro absent renamed inside mem
      have missing := List.lookup_eq_none_iff.mp (absent renamed.1 mem) renamed inside
      exact bne_iff_ne.mp missing rfl
  rw [unrenamed]
  unfold rewriteLinkTargets
  by_cases still : remap = []
  · rw [still, matchingLinks_eq_nil_iff]
    exact ⟨fun _ _ _ => rfl, fun _ => rfl⟩
  · have moves : remap.isEmpty = false := by
      rw [← Bool.not_eq_true, List.isEmpty_iff]
      exact still
    rw [moves, parsed]
    exact rewriteDestinations_eq_none_iff

/-- A text that a plan leaves alone has its links left alone. -/
theorem links_of_rewrite (unchanged : plan.rewrite host id source = .ok none) :
    rewriteLinkTargets host.events source (containingDir id) plan.remap = .ok none := by
  unfold Reidentify.rewrite rewriteNoteText at unchanged
  rcases bind_eq_ok.mp unchanged with ⟨absolutized, -, rest⟩
  rcases bind_eq_ok.mp rest with ⟨answer, found, isNone⟩
  cases answer with
  | some text => cases isNone
  | none =>
    obtain ⟨rfl, untitled⟩ := Option.or_eq_none_iff.mp (Except.ok.inj isNone)
    rw [untitled] at found
    exact found

/-- A Note that the operation is not about has nothing but its links rewritten. -/
theorem rewrite_of_bystander (bystander : id ∉ plan.targets)
    (absolutizes : ∀ other, plan.absolutize = some other → other ∈ plan.targets)
    (unlinked : rewriteLinkTargets host.events source (containingDir id) plan.remap = .ok none) :
    plan.rewrite host id source = .ok none := by
  have untitled : plan.newTitle id = none := by
    unfold Reidentify.newTitle
    cases isRetitled : plan.retitled with
    | none => rfl
    | some retitled =>
      have other : decide (retitled.1 = id) = false := by
        apply decide_eq_false
        rintro rfl
        apply bystander
        unfold Reidentify.targets
        rw [isRetitled]
        exact List.mem_append_right _ List.mem_cons_self
      rw [Option.filter_some, other]
      rfl
  have relative : decide (plan.absolutize = some id) = false := by
    apply decide_eq_false
    intro isSome
    exact bystander (absolutizes id isSome)
  unfold Reidentify.rewrite rewriteNoteText
  rw [untitled, relative]
  apply bind_eq_ok.mpr
  exact ⟨none, rfl, bind_eq_ok.mpr ⟨none, unlinked, rfl⟩⟩

/-! ## The whole plan -/

theorem plannedFile_of_mem {a : Affected} (distinct : (affected.map Affected.old_id).Nodup)
    (mem : a ∈ affected) : plannedFile affected a.old_id = a.new_file := by
  have found : (affected.find? fun other => other.old_id = a.old_id) = some a := by
    induction affected with
    | nil => cases mem
    | cons first rest ih =>
      rcases List.nodup_cons.mp distinct with ⟨fresh, distinct⟩
      rcases List.mem_cons.mp mem with rfl | inside
      · exact List.find?_cons_of_pos (decide_eq_true rfl)
      · have other : ¬first.old_id = a.old_id := by
          intro same
          exact fresh (same ▸ List.mem_map_of_mem inside)
        simp only [List.find?_cons, other, decide_false]
        exact ih distinct inside
  unfold plannedFile
  rw [found]
  rfl

theorem plannedFile_of_absent (absent : ∀ a ∈ affected, a.old_id ≠ id) :
    plannedFile affected id = none := by
  have missing : (affected.find? fun other => other.old_id = id) = none := by
    apply List.find?_eq_none.mpr
    intro a mem same
    exact absent a mem (of_decide_eq_true same)
  unfold plannedFile
  rw [missing]
  rfl

/-- A candidate that has its file is affected, or it keeps its id and nothing in it is rewritten. -/
theorem Plans.unchanged {path : Path} {contents : FileBytes} (plans : Plans host workspace_id plan core affected)
    (candidate : id ∈ plan.candidates workspace_id core) (isPath : notePath host core.bundle id = .ok path)
    (read : core.bundle.read path = some contents) : (∃ a ∈ affected, a.old_id = id) ∨
      plan.newId id = id ∧ ∃ text, contents = .text text ∧ plan.rewrite host id text = .ok none := by
  rcases plans.spared id candidate with affected | spared
  · exact Or.inl affected
  · cases spared with
    | unresolved error refused bystander =>
      unfold Reidentify.resolved at refused
      rw [newId_of_bystander bystander, isPath] at refused
      cases refused
    | «absent» paths resolves disk draft session =>
      have same : paths.1 = path := Except.ok.inj ((resolved_eq_ok.mp resolves).1.symm.trans isPath)
      rw [same] at disk
      rw [readSource_spec disk] at read
      cases read
    | unchanged paths disk resolves isRead rewritten buffer draft kept =>
      have same : paths.1 = path := Except.ok.inj ((resolved_eq_ok.mp resolves).1.symm.trans isPath)
      rw [same] at isRead
      rw [readSource_spec isRead] at read
      rcases Option.map_eq_some_iff.mp read with ⟨text, isSome, isText⟩
      rw [isSome] at rewritten
      exact Or.inr ⟨kept, text, isText.symm, rewritten⟩

/-- A candidate is rewritten as its text calls for. -/
theorem Plans.rewrites {file : BundleFile} (plans : Plans host workspace_id plan core affected)
    (candidate : id ∈ plan.candidates workspace_id core) (mem : file ∈ core.bundle.files)
    (isPath : notePath host core.bundle id = .ok file.path)
    (isText : file.contents.fromUtf8 = some source) :
    plan.rewrite host id source = .ok (plannedFile affected id) := by
  have read : core.bundle.read file.path = some file.contents :=
    congrArg (Option.map BundleFile.contents) (Table.find?_key mem)
  by_cases touched : ∃ a ∈ affected, a.old_id = id
  · rcases touched with ⟨a, inside, rfl⟩
    rcases (plans.affects a inside).2 with ⟨disk, affects⟩
    obtain same : a.old_path = file.path := Except.ok.inj (affects.old_path.symm.trans isPath)
    have isRead := readSource_spec affects.read
    rw [same, read] at isRead
    rcases Option.map_eq_some_iff.mp isRead.symm with ⟨text, isSome, isContents⟩
    have rewritten := affects.new_file
    rw [← isContents] at isText
    obtain rfl := Option.some.inj isText
    rw [isSome] at rewritten
    rw [plannedFile_of_mem plans.distinct inside]
    exact rewritten
  · have absent : ∀ a ∈ affected, a.old_id ≠ id := fun a inside same => touched ⟨a, inside, same⟩
    rw [plannedFile_of_absent absent]
    rcases plans.unchanged candidate isPath read with affected | ⟨-, text, isContents, rewritten⟩
    · exact absurd affected touched
    · rw [isContents] at isText
      obtain rfl := Option.some.inj isText
      exact rewritten

/-- What the index tells a rename of the links of a text. -/
theorem mem_linkSources_iff {file : BundleFile} {stream : EventStream source}
    (agrees : Agrees host workspace_id core.bundle core.db) (mem : file ∈ core.bundle.files)
    (listed : listedId file.path = some id) (isText : file.contents.fromUtf8 = some source)
    (parsed : host.events source = stream.events) (target_id : ConceptId) :
    id ∈ core.db.linkSources workspace_id target_id ↔
      target_id ∈ treeTargets (parseNote source (containingDir id) stream.events).ast := by
  have isSource : file.contents = .text source := by
    cases contents : file.contents with
    | text text =>
      rw [contents] at isText
      exact congrArg FileBytes.text (Option.some.inj isText)
    | binary bytes invalid =>
      rw [contents] at isText
      cases isText
  rw [agrees.mem_linkSources mem listed, isSource, ← parsed]
  exact List.mem_map.symm

/-- A plan rewrites the file of a Note as a scan of every Note would, exactly where it does not
overlook the Note. -/
theorem rename_sees_every_link {op : Operation} {file : BundleFile} {stream : EventStream source}
    (planned : op.plan host workspace_id core = some (core', plan))
    (isPlanned : plan.planAffected host workspace_id core' = .ok affected)
    (rooted : Rooted core'.bundle) (carried : NamesCarried core'.bundle)
    (agrees : Agrees host workspace_id core'.bundle core'.db)
    (mem : file ∈ core'.bundle.files) (listed : listedId file.path = some id)
    (isText : file.contents.fromUtf8 = some source) (parsed : host.events source = stream.events) :
    plan.rewrite host id source = .ok (plannedFile affected id) ↔
      ¬Overlooked workspace_id core' plan id stream.forest := by
  have plans := planAffected_spec isPlanned
  have isPath := @notePath_of_listed host _ _ _ rooted carried mem listed
  have absolutizes : ∀ other, plan.absolutize = some other → other ∈ plan.targets :=
    fun other isSome => absolutizes_target planned isSome
  have recorded := mem_linkSources_iff agrees mem listed isText parsed
  have account (target_id : ConceptId) :=
    @treeTargets_account (containingDir id) source stream target_id
  by_cases candidate : id ∈ plan.candidates workspace_id core'
  · -- A candidate is read, so it is not overlooked.
    constructor
    · intro _ overlooked
      rcases mem_candidates.mp candidate with target | ⟨renamed, inside, found⟩ | drafted | opened
      · exact overlooked.bystander target
      · have known := List.count_pos_iff.mpr ((recorded renamed.1).mp found)
        have gone := overlooked.lost renamed inside
        have total := account renamed.1
        omega
      · rw [overlooked.undrafted] at drafted
        cases drafted
      · rw [overlooked.unopened] at opened
        cases opened
    · intro _
      exact plans.rewrites candidate mem isPath isText
  · have absent : ∀ a ∈ affected, a.old_id ≠ id := by
      rintro a inside rfl
      exact candidate (plans.affects a inside).1
    have unknown : id ∉ plan.targets ∧ (∀ renamed ∈ plan.remap,
          id ∉ core'.db.linkSources workspace_id renamed.1) ∧
        core'.db.readDraft workspace_id id = none ∧ core'.sessions.find? id = none := by
      rw [mem_candidates, not_or, not_or, not_or] at candidate
      rcases candidate with ⟨bystander, unlinked, undrafted, unopened⟩
      refine ⟨bystander, fun renamed inside found => unlinked ⟨renamed, inside, found⟩, ?_, ?_⟩
      · exact Option.not_isSome_iff_eq_none.mp undrafted
      · exact Option.not_isSome_iff_eq_none.mp unopened
    rcases unknown with ⟨bystander, unlinked, undrafted, unopened⟩
    rw [plannedFile_of_absent absent]
    constructor
    · intro unchanged overlooked
      rcases overlooked.linked with ⟨renamed, inside, linked⟩
      exact (rewriteLinkTargets_eq_none_iff parsed).mp (links_of_rewrite unchanged) renamed inside linked
    · intro seen
      apply rewrite_of_bystander bystander absolutizes
      apply (rewriteLinkTargets_eq_none_iff parsed).mpr
      intro renamed inside linked
      apply seen
      refine ⟨bystander, undrafted, unopened, ⟨renamed, inside, linked⟩, fun other other_mem => ?_⟩
      have silent := List.count_eq_zero.mpr fun found =>
        unlinked other other_mem ((recorded other.1).mpr found)
      rw [← account other.1, silent, Nat.zero_add]

/-- A text whose one link shows nothing. -/
def emptyLabel : Text := "[](/m.md)".toList

def emptyLabelStream : EventStream emptyLabel where
  forest := .node .paragraph ⟨0, 9⟩ (.node (.link "/m.md".toList) ⟨0, 9⟩ .nil .nil) .nil
  conforms := by decide
  placed := by decide

/-- A host that reads this link. -/
def emptyLabelHost : Host :=
  { Host.plain with
    events := fun source =>
      if source = emptyLabel then emptyLabelStream.events else Host.plain.events source }

theorem nameable_linked : Nameable ['m', '.', 'm', 'd'] := by decide

/-- Two Notes, the one with a link to the other. -/
def emptyLabelBundle : Bundle :=
  ⟨((∅ : Table BundleFile.path).put ⟨[⟨['m', '.', 'm', 'd'], nameable_linked⟩], .text ['a'], 0⟩).put
    ⟨[⟨['n', '.', 'm', 'd'], nameable_note⟩], .text emptyLabel, 0⟩, [], []⟩

/-- The index that a rebuild makes of them. -/
def emptyLabelIndex : Database :=
  ((Database.empty [['w']]).writeScannedBundle emptyLabelHost.title_lookup_key ['w']
    (scanBundle emptyLabelHost emptyLabelBundle)).getD (.empty [['w']])

theorem flat_emptyLabelBundle {file : BundleFile} (mem : file ∈ emptyLabelBundle.files) :
    ∃ name, file.path = [name] ∧ '\\' ∉ name.text := by
  rcases Table.mem_put.mp mem with ⟨mem, -⟩ | rfl
  · rcases Table.mem_put.mp mem with ⟨mem, -⟩ | rfl
    · cases mem
    · exact ⟨_, rfl, by decide⟩
  · exact ⟨_, rfl, by decide⟩

theorem rooted_emptyLabelBundle : Rooted emptyLabelBundle := by
  refine ⟨fun file mem => ?_, fun path mem => absurd mem List.not_mem_nil, fun link mem => absurd mem List.not_mem_nil⟩
  rcases flat_emptyLabelBundle mem with ⟨name, isPath, -⟩
  rw [isPath]
  refine ⟨List.cons_ne_nil _ _, fun level isPrefix nonempty shorter => ?_⟩
  rcases isPrefix with ⟨rest, same⟩
  rcases List.append_eq_singleton_iff.mp same with ⟨isEmpty, -⟩ | ⟨isWhole, -⟩
  · exact absurd isEmpty nonempty
  · exact absurd isWhole shorter

theorem carried_emptyLabelBundle : NamesCarried emptyLabelBundle := by
  refine ⟨fun file mem => ?_, fun path mem => absurd mem List.not_mem_nil⟩
  rcases flat_emptyLabelBundle mem with ⟨name, isPath, carried⟩
  intro level inside
  rw [isPath] at inside
  obtain rfl := List.mem_singleton.mp inside
  exact carried

theorem emptyLabelIndex_written : (Database.empty [['w']]).writeScannedBundle emptyLabelHost.title_lookup_key
    ['w'] (scanBundle emptyLabelHost emptyLabelBundle) = some emptyLabelIndex := by
  have written : ((Database.empty [['w']]).writeScannedBundle emptyLabelHost.title_lookup_key ['w']
      (scanBundle emptyLabelHost emptyLabelBundle)).isSome = true := by decide +kernel
  rcases Option.isSome_iff_exists.mp written with ⟨db, isSome⟩
  unfold emptyLabelIndex
  rw [isSome, Option.getD_some]

theorem mirrors_emptyLabelIndex : Mirrors emptyLabelHost ['w'] emptyLabelBundle emptyLabelIndex :=
  mirrors_of_rebuild (Database.consistent_empty _) emptyLabelIndex_written

theorem emptyLabel_parsed : emptyLabelHost.events emptyLabel = emptyLabelStream.events := by
  dsimp only [emptyLabelHost]
  exact if_pos rfl

def emptyLabelCore : Core := ⟨emptyLabelBundle, emptyLabelIndex, ∅⟩

theorem emptyLabel_planned : ∃ plan affected,
    (Operation.renameNote ['m'] ['k']).plan emptyLabelHost ['w'] emptyLabelCore = some (emptyLabelCore, plan) ∧
    plan.planAffected emptyLabelHost ['w'] emptyLabelCore = .ok affected ∧ plan.remap = [(['m'], ['k'])] ∧
    plan.targets = [['m'], ['m']] ∧ plan.directory_rename = none := by
  have isPlanned : ((planRename emptyLabelHost ['w'] emptyLabelCore ['m'] ['k']).toOption.any fun planned =>
      (planned.2.planAffected emptyLabelHost ['w'] emptyLabelCore).toBool) = true := by
    decide +kernel
  rcases (Option.any_eq_true _ _).mp isPlanned with ⟨⟨new_id, plan⟩, isPlan, isAffected⟩
  dsimp only at isAffected
  cases answer : plan.planAffected emptyLabelHost ['w'] emptyLabelCore with
  | error error =>
    rw [answer] at isAffected
    cases isAffected
  | ok affected =>
    rcases planRename_spec (toOption_eq_some_iff.mp isPlan) with ⟨-, -, -, -, -, isNew, -, -, shape⟩
    have remap : plan.remap = [(['m'], ['k'])] := by
      rw [shape, isNew]
      decide
    refine ⟨plan, affected, ?_, answer, remap, ?_, congrArg Reidentify.directory_rename shape⟩
    · unfold Operation.plan
      dsimp only
      rw [isPlan]
      rfl
    · unfold Reidentify.targets
      rw [remap, shape]
      rfl

/-- The rename of the one Note leaves the link of the other behind. -/
theorem rename_sees_every_link_overlooked : ∃ core plan affected,
    (Operation.renameNote ['m'] ['k']).plan emptyLabelHost ['w'] emptyLabelCore = some (core, plan) ∧
    plan.planAffected emptyLabelHost ['w'] core = .ok affected ∧
    plan.rewrite emptyLabelHost ['n'] emptyLabel ≠ .ok (plannedFile affected ['n']) := by
  rcases emptyLabel_planned with ⟨plan, affected, planned, answer, remap, targets, -⟩
  refine ⟨_, plan, affected, planned, answer, ?_⟩
  have mem : (⟨[⟨['n', '.', 'm', 'd'], nameable_note⟩], .text emptyLabel, 0⟩ : BundleFile) ∈
      emptyLabelBundle.files :=
    Table.mem_put.mpr (Or.inr rfl)
  have overlooked : Overlooked ['w'] emptyLabelCore plan ['n'] emptyLabelStream.forest := by
    refine ⟨?_, by decide +kernel, rfl, ?_, ?_⟩
    · rw [targets]
      decide
    · rw [remap]
      decide
    · rw [remap]
      decide
  have listed : listedId [⟨['n', '.', 'm', 'd'], nameable_note⟩] = some ['n'] := by decide
  have sees_iff := rename_sees_every_link planned answer rooted_emptyLabelBundle carried_emptyLabelBundle
    mirrors_emptyLabelIndex.agrees mem listed rfl emptyLabel_parsed
  intro sees
  exact sees_iff.mp sees overlooked

end Burlmd.Lifecycle
