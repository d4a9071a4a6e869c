import Burlmd.Index.Scan
import Burlmd.Library.Machine

/-!
# A rebuild beside the writes of open Notes

A rebuild walks the bundle, reads the Notes one by one and writes what it derived in one
transaction. An idle flush, an explicit one and the flush of a close all write a Note in
the same two steps: first the file, then the index.
-/

namespace Burlmd.Index

open Utf8 (Text)
open Okf (ConceptId conceptIdToPath)
open Workspace (notePath)
open Machine (Reaches)

inductive WriteStage where
  /-- The file holds the bytes; the index has not been asked yet. -/
  | published
  /-- The index holds another hash. -/
  | outdated
  deriving DecidableEq, Repr

/-- A tier 2 write whose file is written and whose index rows are not. -/
structure Tier2Write where
  note_id : ConceptId
  source : Text
  stage : WriteStage
  deriving DecidableEq, Repr

/-- A scan under way: what is left to read, and what was derived so far. -/
structure Scanning where
  directories : List Text
  pending : List ConceptId
  derived : List IndexedNote

/-- The scan read a Note when its file held these bytes. -/
def Scanning.Read (scanning : Scanning) (host : Host) (id : ConceptId) (contents : FileBytes) :
    Prop :=
  ∃ modified, derive host id contents modified ∈ scanning.derived

structure Reindexing where
  bundle : Bundle
  db : Database
  /-- The one rebuild that the lifecycle lock admits. -/
  scanning : Option Scanning
  /-- One a Note: the write lock of its session is held. -/
  writes : Table Tier2Write.note_id
  rebuilt : Bool

namespace Reindexing

inductive Action where
  | walk
  | readNext
  | writeRows
  | publish (note_id : ConceptId) (source revision : Text) (awaiting_recreate : Bool) (now : Int)
  | compareHash (note_id : ConceptId)
  | writeIndex (note_id : ConceptId)
  deriving DecidableEq, Repr

variable (host : Host) (workspace_id : WorkspaceId)

/-- Replaces the file, unless it holds other bytes than the session recorded. -/
def publish (c : Reindexing) (note_id : ConceptId) (source revision : Text)
    (awaiting_recreate : Bool) (now : Int) : Option Reindexing := do
  let path ← (notePath host c.bundle note_id).toOption
  let on_disk ← (c.bundle.read path).or
    (if awaiting_recreate then some (.text []) else none)
  let writes ← c.writes.insert? ⟨note_id, source, .published⟩
  if on_disk.hash host = revision then
    let written := FileBytes.text source
    let bundle :=
      if written.hash host ≠ on_disk.hash host ∨ awaiting_recreate then
        (c.bundle.createDirAll path.dropLast).atomicWrite path written now
      else c.bundle
    some { c with bundle, writes }
  else none

def finish (c : Reindexing) (note_id : ConceptId) : Reindexing :=
  { c with writes := c.writes.delete fun write => write.note_id = note_id }

/-- The row that a tier 2 write derives from the bytes it has in hand. -/
def written (c : Reindexing) (write : Tier2Write) : IndexedNote :=
  let modified := ((normalComponents (conceptIdToPath write.note_id)).bind c.bundle.file?).elim 0
    BundleFile.modified
  derive host write.note_id (.text write.source) modified

def step (c : Reindexing) : Action → Option Reindexing
  | .walk =>
      if c.scanning.isNone then
        let scan := walkBundle c.bundle
        some { c with scanning := some ⟨scan.directories, scan.notes, []⟩ }
      else none
  | .readNext =>
      match c.scanning with
      | some ⟨directories, id :: pending, derived⟩ =>
          some { c with
            scanning := some
              ⟨directories, pending, derived ++ (readNote host c.bundle id).toList⟩ }
      | _ => none
  | .writeRows =>
      match c.scanning with
      | some ⟨directories, [], derived⟩ =>
          match c.db.writeScannedBundle host.title_lookup_key workspace_id ⟨directories, derived⟩ with
          | some db => some { c with db, scanning := none, rebuilt := true }
          | none => some { c with scanning := none }
      | _ => none
  | .publish note_id source revision awaiting_recreate now =>
      c.publish host note_id source revision awaiting_recreate now
  | .compareHash note_id =>
      match c.writes.find? note_id with
      | some ⟨_, source, .published⟩ =>
          if c.db.storedContentHash workspace_id note_id =
              some ((FileBytes.text source).hash host) then some (c.finish note_id)
          else some { c with writes := c.writes.put ⟨note_id, source, .outdated⟩ }
      | _ => none
  | .writeIndex note_id =>
      match c.writes.find? note_id with
      | some ⟨_, source, .outdated⟩ =>
          match c.db.writeNoteRows host.title_lookup_key workspace_id
              (c.written host ⟨note_id, source, .outdated⟩) with
          | some db => some ({ c with db }.finish note_id)
          | none => some (c.finish note_id)
      | _ => none

/-- Nothing runs, and at least one rebuild went through. -/
def Finished (c : Reindexing) : Prop :=
  c.rebuilt = true ∧ c.scanning = none ∧ ∀ write, write ∉ c.writes

structure Initial (workspace_id : WorkspaceId) (c : Reindexing) : Prop where
  scanning : c.scanning = none
  writes : ∀ write, write ∉ c.writes
  rebuilt : c.rebuilt = false
  consistent : c.db.Consistent
  paths : c.db.PathsMatch
  known : workspace_id ∈ c.db.workspaces

/-- A Note is written under the id that the walk lists it under, and a rebuild writes its
rows when every Note whose bytes it did not read has an index write still to come. -/
def Undisturbed (host : Host) (c : Reindexing) : Action → Prop
  | .publish note_id _ _ _ _ => ∀ path, notePath host c.bundle note_id = .ok path →
      ∀ listed, listedId path = some listed → listed = note_id
  | .writeRows => ∀ scanning, c.scanning = some scanning → ∀ file ∈ c.bundle.files, ∀ id,
      listedId file.path = some id →
        scanning.Read host id file.contents ∨ ∃ write ∈ c.writes, write.note_id = id
  | _ => True

/-! ## The invariant -/

structure Tracks (host : Host) (workspace_id : WorkspaceId) (c : Reindexing) : Prop where
  consistent : c.db.Consistent
  paths : c.db.PathsMatch
  known : workspace_id ∈ c.db.workspaces
  /-- The file of a write under way holds its bytes. -/
  holds : ∀ write ∈ c.writes, ∀ file ∈ c.bundle.files,
    listedId file.path = some write.note_id → file.contents = .text write.source
  scanned : ∀ scanning, c.scanning = some scanning →
    (∀ note ∈ scanning.derived, ∃ contents modified,
      note = derive host note.concept_id contents modified) ∧
    (scanning.derived.map IndexedNote.concept_id ++ scanning.pending).Nodup
  /-- Every row was derived from some bytes. -/
  derived : c.rebuilt = true → ∀ id, c.db.rowsOf (workspace_id, id) = .none ∨
    ∃ contents, c.db.rowsOf (workspace_id, id) = derivedRows host id contents
  /-- A Note whose rows are not those of its bytes is about to be indexed. -/
  settled : c.rebuilt = true → ∀ file ∈ c.bundle.files, ∀ id, listedId file.path = some id →
    c.db.rowsOf (workspace_id, id) = derivedRows host id file.contents ∨
      ∃ write ∈ c.writes, write.note_id = id

section Steps

variable {host} {workspace_id} {c c' : Reindexing}

theorem tracks_initial (initial : Initial workspace_id c) : Tracks host workspace_id c where
  consistent := initial.consistent
  paths := initial.paths
  known := initial.known
  holds write mem := absurd mem (initial.writes write)
  scanned scanning isScanning := by
    rw [initial.scanning] at isScanning
    cases isScanning
  derived rebuilt := by
    rw [initial.rebuilt] at rebuilt
    cases rebuilt
  settled rebuilt := by
    rw [initial.rebuilt] at rebuilt
    cases rebuilt

theorem Tracks.walk (inv : Tracks host workspace_id c)
    (stepped : step host workspace_id c .walk = some c') : Tracks host workspace_id c' := by
  simp only [step, Option.ite_none_right_eq_some, Option.some.injEq] at stepped
  obtain ⟨-, rfl⟩ := stepped
  refine { inv with scanned := ?_ }
  rintro _ ⟨⟩
  refine ⟨fun note mem => absurd mem List.not_mem_nil, ?_⟩
  simpa using nodup_walkBundle c.bundle

theorem Tracks.readNext (inv : Tracks host workspace_id c)
    (stepped : step host workspace_id c .readNext = some c') : Tracks host workspace_id c' := by
  simp only [step] at stepped
  split at stepped
  · rename_i directories id pending derived isScanning
    obtain rfl := Option.some.inj stepped
    refine { inv with scanned := ?_ }
    rintro _ ⟨⟩
    obtain ⟨areDerived, apart⟩ := inv.scanned _ isScanning
    cases read : readNote host c.bundle id with
    | none =>
      simp only [Option.toList_none, List.append_nil]
      refine ⟨areDerived, apart.sublist ?_⟩
      exact List.Sublist.append_left (List.sublist_cons_self id pending) _
    | some note =>
      obtain ⟨path, file, -, -, rfl⟩ := readNote_eq_some_iff.mp read
      refine ⟨fun note mem => ?_, by simpa using apart⟩
      rcases List.mem_append.mp mem with mem | mem
      · exact areDerived note mem
      · obtain rfl := List.mem_singleton.mp mem
        exact ⟨_, _, rfl⟩
  · cases stepped

/-- What the transaction of a rebuild leaves of a Note. -/
theorem rowsOf_rebuild {db : Database} {scanning : Scanning} (inv : Tracks host workspace_id c)
    (isScanning : c.scanning = some scanning)
    (written : c.db.writeScannedBundle host.title_lookup_key workspace_id
      ⟨scanning.directories, scanning.derived⟩ = some db) (id : ConceptId) :
    (db.rowsOf (workspace_id, id) = .none ∨
      ∃ contents, db.rowsOf (workspace_id, id) = derivedRows host id contents) ∧
    ∀ contents, scanning.Read host id contents →
      db.rowsOf (workspace_id, id) = derivedRows host id contents := by
  obtain ⟨areDerived, apart⟩ := inv.scanned scanning isScanning
  have distinct := (List.nodup_append.mp apart).1
  rw [Database.rowsOf_writeScannedBundle inv.consistent written]
  cases found : scanning.derived.find? fun note => note.concept_id = id with
  | none =>
    refine ⟨.inl rfl, fun contents read => ?_⟩
    obtain ⟨modified, mem⟩ := read
    exact absurd (List.find?_eq_none.mp found _ mem) (by simp)
  | some note =>
    have isId : note.concept_id = id := by simpa using List.find?_some found
    obtain ⟨contents, modified, shape⟩ := areDerived note (List.mem_of_find?_eq_some found)
    rw [isId] at shape
    subst shape
    refine ⟨.inr ⟨contents, rfl⟩, fun other read => ?_⟩
    obtain ⟨modified', mem⟩ := read
    have same := List.inj_on_of_nodup_map distinct mem (List.mem_of_find?_eq_some found) rfl
    rw [← same]
    rfl

theorem Tracks.writeRows (inv : Tracks host workspace_id c)
    (undisturbed : Undisturbed host c .writeRows)
    (stepped : step host workspace_id c .writeRows = some c') : Tracks host workspace_id c' := by
  simp only [step] at stepped
  split at stepped
  · rename_i directories derived isScanning
    obtain ⟨areDerived, apart⟩ := inv.scanned _ isScanning
    have arePaths : ∀ note ∈ derived, note.path = conceptIdToPath note.concept_id := by
      intro note mem
      obtain ⟨contents, modified, shape⟩ := areDerived note mem
      rw [shape]
      rfl
    split at stepped
    · rename_i db written
      obtain rfl := Option.some.inj stepped
      exact {
        consistent := inv.consistent.writeScannedBundle written
        paths := inv.paths.writeScannedBundle arePaths written
        known := by
          rw [(Database.writeScannedBundle_frame written).1]
          exact inv.known
        holds := inv.holds
        scanned := fun _ isScanning => by cases isScanning
        derived := fun _ id => (rowsOf_rebuild inv isScanning written id).1
        settled := fun _ file mem id listed =>
          (undisturbed _ isScanning file mem id listed).imp_left
            ((rowsOf_rebuild inv isScanning written id).2 file.contents) }
    · obtain rfl := Option.some.inj stepped
      exact { inv with scanned := fun _ isScanning => by cases isScanning }
  · cases stepped

theorem publish_spec {note_id : ConceptId} {source revision : Text} {awaiting_recreate : Bool}
    {now : Int}
    (published : c.publish host note_id source revision awaiting_recreate now = some c') :
    ∃ path writes, notePath host c.bundle note_id = .ok path ∧
      c.writes.insert? ⟨note_id, source, .published⟩ = some writes ∧
      ∃ bundle : Bundle, c' = { c with bundle, writes } ∧
        (bundle.files = c.bundle.files.put ⟨path, .text source, now⟩ ∨
          (bundle = c.bundle ∧ ∃ contents, c.bundle.read path = some contents ∧
            contents.hash host = (FileBytes.text source).hash host)) := by
  unfold publish at published
  simp only [Option.bind_eq_bind, Option.bind_eq_some_iff] at published
  obtain ⟨path, isPath, on_disk, isDisk, writes, locked, published⟩ := published
  rw [Option.ite_none_right_eq_some] at published
  obtain ⟨-, published⟩ := published
  obtain rfl := Option.some.inj published
  refine ⟨path, writes, toOption_eq_some_iff.mp isPath, locked, _, rfl, ?_⟩
  split
  · exact .inl rfl
  · rename_i unchanged
    simp only [ne_eq, not_or, not_not, Bool.not_eq_true] at unchanged
    rw [unchanged.2, if_neg Bool.false_ne_true, Option.or_none] at isDisk
    exact .inr ⟨rfl, on_disk, isDisk, unchanged.1.symm⟩

theorem Tracks.publish (injective : Function.Injective host.content_hash)
    (inv : Tracks host workspace_id c) {note_id : ConceptId} {source revision : Text}
    {awaiting_recreate : Bool} {now : Int}
    (undisturbed : Undisturbed host c (.publish note_id source revision awaiting_recreate now))
    (stepped : step host workspace_id c
      (.publish note_id source revision awaiting_recreate now) = some c') :
    Tracks host workspace_id c' := by
  obtain ⟨path, writes, isPath, locked, bundle, rfl, changed⟩ := publish_spec stepped
  have own := undisturbed path isPath
  have free : ∀ write ∈ c.writes, write.note_id ≠ note_id := (Table.insert?_eq_some_iff.mp locked).1
  -- every file that is not the Note's own is as it was
  have others : ∀ file ∈ bundle.files, file.path ≠ path → file ∈ c.bundle.files := by
    intro file mem elsewhere
    rcases changed with changed | ⟨rfl, -⟩
    · rw [changed, Table.mem_put] at mem
      rcases mem with ⟨mem, -⟩ | rfl
      · exact mem
      · exact absurd rfl elsewhere
    · exact mem
  have holdsOwn : ∀ file ∈ bundle.files, file.path = path → file.contents = .text source := by
    intro file mem here
    rcases changed with changed | ⟨rfl, contents, read, same⟩
    · rw [changed, Table.mem_put] at mem
      rcases mem with ⟨-, elsewhere⟩ | rfl
      · exact absurd here elsewhere
      · rfl
    · obtain ⟨stored, found, rfl⟩ := Option.map_eq_some_iff.mp read
      have isFile : stored = file := by
        obtain ⟨stored_mem, isStored⟩ := Table.find?_eq_some_iff.mp found
        exact Table.eq_of_key_eq stored_mem mem (isStored.trans here.symm)
      exact isFile ▸ FileBytes.hash_injective injective same
  have listedThere : ∀ file : BundleFile, listedId file.path = some note_id → file.path = path := by
    intro file listed
    have spelled := normalComponents_of_listedId listed
    rw [Workspace.normalComponents_of_notePath isPath] at spelled
    exact (Option.some.inj spelled).symm
  refine { inv with holds := ?_, settled := ?_ }
  · intro write mem file file_mem listed
    rcases (Table.mem_insert? locked).mp mem with mem | rfl
    · refine inv.holds write mem file (others file file_mem fun here => ?_) listed
      exact free write mem (own write.note_id (here ▸ listed))
    · exact holdsOwn file file_mem (listedThere file listed)
  · intro rebuilt file file_mem id listed
    by_cases here : file.path = path
    · have isNote : id = note_id := own id (here ▸ listed)
      exact .inr ⟨_, (Table.mem_insert? locked).mpr (.inr rfl), isNote.symm⟩
    · refine (inv.settled rebuilt file (others file file_mem here) id listed).imp_right ?_
      rintro ⟨write, mem, isNote⟩
      exact ⟨write, (Table.mem_insert? locked).mpr (.inl mem), isNote⟩

theorem mem_writes_finish {note_id : ConceptId} {write : Tier2Write} :
    write ∈ (c.finish note_id).writes ↔ write ∈ c.writes ∧ write.note_id ≠ note_id := by
  simp [finish]

/-- A write ends when the rows of its Note are those of the bytes it wrote. -/
theorem Tracks.finish (inv : Tracks host workspace_id c) {note_id : ConceptId}
    (indexed : c.rebuilt = true → ∀ file ∈ c.bundle.files, listedId file.path = some note_id →
      c.db.rowsOf (workspace_id, note_id) = derivedRows host note_id file.contents) :
    Tracks host workspace_id (c.finish note_id) := by
  refine { inv with holds := ?_, settled := ?_ }
  · intro write mem
    exact inv.holds write (mem_writes_finish.mp mem).1
  · intro rebuilt file mem id listed
    by_cases isNote : id = note_id
    · subst isNote
      exact .inl (indexed rebuilt file mem listed)
    · refine (inv.settled rebuilt file mem id listed).imp_right ?_
      rintro ⟨write, write_mem, rfl⟩
      exact ⟨write, mem_writes_finish.mpr ⟨write_mem, isNote⟩, rfl⟩

theorem Tracks.compareHash (injective : Function.Injective host.content_hash)
    (inv : Tracks host workspace_id c) {note_id : ConceptId}
    (stepped : step host workspace_id c (.compareHash note_id) = some c') :
    Tracks host workspace_id c' := by
  simp only [step] at stepped
  split at stepped
  · rename_i _ id source found
    obtain ⟨mem, rfl⟩ := Table.find?_eq_some_iff.mp found
    split at stepped
    · rename_i stored
      obtain rfl := Option.some.inj stepped
      refine inv.finish fun rebuilt file file_mem listed => ?_
      rw [Database.storedContentHash_eq] at stored
      rcases inv.derived rebuilt id with none | ⟨contents, rows⟩
      · rw [none] at stored
        cases stored
      · rw [rows, derivedRows_content_hash, Option.some.injEq] at stored
        rw [rows, FileBytes.hash_injective injective stored,
          inv.holds _ mem file file_mem listed]
    · obtain rfl := Option.some.inj stepped
      refine { inv with holds := ?_, settled := ?_ }
      · intro write write_mem file file_mem listed
        rcases Table.mem_put.mp write_mem with ⟨write_mem, -⟩ | rfl
        · exact inv.holds write write_mem file file_mem listed
        · exact inv.holds _ mem file file_mem listed
      · intro rebuilt file file_mem listed isListed
        refine (inv.settled rebuilt file file_mem listed isListed).imp_right ?_
        rintro ⟨write, write_mem, rfl⟩
        by_cases isNote : write.note_id = id
        · exact ⟨_, Table.mem_put.mpr (.inr rfl), isNote.symm⟩
        · exact ⟨write, Table.mem_put.mpr (.inl ⟨write_mem, isNote⟩), rfl⟩
  · cases stepped

theorem Tracks.writeIndex (inv : Tracks host workspace_id c) {note_id : ConceptId}
    (stepped : step host workspace_id c (.writeIndex note_id) = some c') :
    Tracks host workspace_id c' := by
  simp only [step] at stepped
  split at stepped
  · rename_i _ id source found
    obtain ⟨mem, rfl⟩ := Table.find?_eq_some_iff.mp found
    split at stepped
    · rename_i db written
      obtain rfl := Option.some.inj stepped
      have rows : ∀ other, db.rowsOf (workspace_id, other) =
          if id = other then derivedRows host id (.text source)
          else c.db.rowsOf (workspace_id, other) := by
        intro other
        rw [Database.rowsOf_writeNoteRows inv.consistent written]
        simp only [Reindexing.written, derive_concept_id, derived_derive, Prod.mk.injEq, true_and]
      have indexed : Tracks host workspace_id { c with db } :=
        { consistent := inv.consistent.writeNoteRows written
          paths := inv.paths.writeNoteRows rfl written
          known := by
            rw [(Database.writeNoteRows_frame written).1]
            exact inv.known
          holds := inv.holds
          scanned := inv.scanned
          derived := by
            intro rebuilt other
            rw [rows]
            split
            · rename_i same
              exact .inr ⟨.text source, by rw [same]⟩
            · exact inv.derived rebuilt other
          settled := by
            intro rebuilt file file_mem other listed
            rw [rows]
            split
            · rename_i same
              exact .inr ⟨_, mem, same⟩
            · exact inv.settled rebuilt file file_mem other listed }
      refine indexed.finish fun rebuilt file file_mem listed => ?_
      rw [rows, if_pos rfl, inv.holds _ mem file file_mem listed]
    · rename_i refused
      have succeeds := @Database.writeNoteRows_isSome host.title_lookup_key c.db workspace_id
        (c.written host ⟨id, source, .outdated⟩) inv.consistent inv.paths inv.known rfl
      rw [refused] at succeeds
      cases succeeds
  · cases stepped

theorem Tracks.step (injective : Function.Injective host.content_hash)
    (inv : Tracks host workspace_id c) {action : Action}
    (undisturbed : Undisturbed host c action)
    (stepped : Reindexing.step host workspace_id c action = some c') :
    Tracks host workspace_id c' := by
  cases action with
  | walk => exact inv.walk stepped
  | readNext => exact inv.readNext stepped
  | writeRows => exact inv.writeRows undisturbed stepped
  | publish note_id source revision awaiting_recreate now =>
      exact inv.publish injective undisturbed stepped
  | compareHash note_id => exact inv.compareHash injective stepped
  | writeIndex note_id => exact inv.writeIndex stepped

theorem Tracks.agrees (inv : Tracks host workspace_id c) (finished : c.Finished) :
    Agrees host workspace_id c.bundle c.db := by
  intro file mem id listed
  rcases inv.settled finished.1 file mem id listed with rows | ⟨write, write_mem, -⟩
  · exact rows
  · exact absurd write_mem (finished.2.2 write)

/-- When every step meets the condition, the index holds what the bytes on disk call for
once everything has finished, and answers a rename with every source of a Link. -/
theorem rebuild_keeps_every_update (injective : Function.Injective host.content_hash)
    {start : Reindexing} (initial : Initial workspace_id start)
    (reached : Reaches (Reindexing.step host workspace_id) (Undisturbed host) start c)
    (finished : c.Finished) :
    Agrees host workspace_id c.bundle c.db ∧
      ∀ file ∈ c.bundle.files, ∀ id, listedId file.path = some id → ∀ target_id,
        (id ∈ c.db.linkSources workspace_id target_id ↔
          ∃ edge ∈ (derive host id file.contents file.modified).links,
            edge.target_id = target_id) := by
  have inv : Tracks host workspace_id c :=
    reached.invariant (tracks_initial initial) fun _ _ _ inv undisturbed stepped =>
      inv.step injective undisturbed stepped
  exact ⟨inv.agrees finished, fun file mem id listed target_id =>
    (inv.agrees finished).mem_linkSources mem listed target_id⟩

end Steps

def oneNote : Reindexing where
  bundle := ⟨(∅ : Table BundleFile.path).put ⟨[⟨['n', '.', 'm', 'd'], by decide⟩], .text ['a'], 0⟩,
    [], []⟩
  db := .empty [['w']]
  scanning := none
  writes := ∅
  rebuilt := false

theorem oneNote_initial : Initial ['w'] oneNote where
  scanning := rfl
  writes := Table.not_mem_empty
  rebuilt := rfl
  consistent := Database.consistent_empty _
  paths _ mem := absurd mem (Table.not_mem_empty _)
  known := List.mem_cons_self

def twoNotes : Reindexing :=
  { oneNote with
    bundle := ⟨oneNote.bundle.files.put ⟨[⟨['m', '.', 'm', 'd'], by decide⟩], .text ['c'], 0⟩,
      [], []⟩ }

/-- A rebuild that a write crosses: the file of `n` is replaced after it was read, and its rows
are written after those of the rebuild. -/
theorem rebuild_crossed_keeps_every_update :
    ∃ c, Finished c ∧ c.bundle.read [⟨['n', '.', 'm', 'd'], by decide⟩] = some (.text ['b']) ∧
      Agrees Host.plain ['w'] c.bundle c.db := by
  have walked : Reaches (step Host.plain ['w']) (Undisturbed Host.plain) twoNotes _ :=
    .tail .refl (a := .walk) trivial rfl
  have first : Reaches (step Host.plain ['w']) (Undisturbed Host.plain) twoNotes _ :=
    walked.tail (a := .readNext) trivial rfl
  have second : Reaches (step Host.plain ['w']) (Undisturbed Host.plain) twoNotes _ :=
    first.tail (a := .readNext) trivial rfl
  have published : Reaches (step Host.plain ['w']) (Undisturbed Host.plain) twoNotes _ :=
    second.tail (a := .publish ['n'] ['b'] ['a'] false 1) (by
      intro path isPath listed isListed
      obtain rfl : _ = path := Except.ok.inj ((show _ = Except.ok _ from rfl).symm.trans isPath)
      exact (Option.some.inj isListed).symm) rfl
  have rebuilt : Reaches (step Host.plain ['w']) (Undisturbed Host.plain) twoNotes _ :=
    published.tail (a := .writeRows) (by
      rintro _ ⟨⟩ file mem id listed
      rcases List.mem_cons.mp (Table.mem_def.mp mem) with rfl | mem
      · obtain rfl := Option.some.inj listed
        exact .inl ⟨0, List.mem_cons_self⟩
      · obtain rfl := List.mem_singleton.mp mem
        obtain rfl := Option.some.inj listed
        exact .inr ⟨_, Table.mem_def.mpr List.mem_cons_self, rfl⟩) rfl
  have compared : Reaches (step Host.plain ['w']) (Undisturbed Host.plain) twoNotes _ :=
    rebuilt.tail (a := .compareHash ['n']) trivial rfl
  have indexed : Reaches (step Host.plain ['w']) (Undisturbed Host.plain) twoNotes _ :=
    compared.tail (a := .writeIndex ['n']) trivial rfl
  have start : Initial ['w'] twoNotes := { oneNote_initial with }
  have kept := rebuild_keeps_every_update Host.plain_injective start indexed
  refine ⟨_, ?_, ?_, (kept ⟨rfl, rfl, Table.not_mem_empty⟩).1⟩
  · exact ⟨rfl, rfl, Table.not_mem_empty⟩
  · rfl

/-- The scan reads `a`, then the Note is written and indexed, and then the rebuild writes
the rows of `a` over those of `b`. -/
def overtaken : List Action :=
  [.walk, .readNext, .publish ['n'] ['b'] ['a'] false 1, .compareHash ['n'], .writeIndex ['n'],
    .writeRows]

theorem overtaken_loses_update :
    ∃ c, Reaches (step Host.plain ['w']) Machine.Any oneNote c ∧ c.Finished ∧
      ¬Agrees Host.plain ['w'] c.bundle c.db := by
  have ran : Machine.run (step Host.plain ['w']) oneNote overtaken = some _ := rfl
  refine ⟨_, Reaches.of_run ran, ⟨rfl, rfl, Table.not_mem_empty⟩, fun agrees => ?_⟩
  have rows := agrees _ (Table.mem_def.mpr List.mem_cons_self) ['n'] rfl
  have hashes := congrArg (fun rows => rows.note.map NoteColumns.content_hash) rows
  exact absurd hashes (by decide)

end Reindexing

end Burlmd.Index
