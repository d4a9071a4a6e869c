import Mathlib.Logic.Equiv.List
import Burlmd.Snapshot.Store

/-!
# No snapshot file is lost

Bytes at the snapshot path are moved aside before they are replaced, unless they are a
current snapshot. What is put aside stays, and a guard keeps later saves from the path.
-/

namespace Burlmd.Snapshot

open Utf8 (Text)
open Index (WorkspaceId)
open Machine (Reaches Any)

variable {host : Host} {codec : Codec}

/-! ## What is promised -/

/-- The bytes are at the snapshot path, or in a quarantine file. -/
def Present (host : Host) (files : Files) (workspace_id : WorkspaceId) (bytes : Bytes) : Prop :=
  files (Store.path host workspace_id) = some bytes ∨
    ∃ reason pid sequence,
      files (.quarantine (key host workspace_id) reason pid sequence) = some bytes

structure Kept (host : Host) (codec : Codec) (record : Record) : Prop where
  /-- Bytes that were at the path during a call are still there, or were a current snapshot. -/
  held : ∀ entry ∈ record.held,
    (∃ bundle ∈ entry.bundles, ValidSnapshot host codec bundle entry.workspace_id entry.bytes) ∨
      Present host record.store.files entry.workspace_id entry.bytes
  /-- A save where a call has refused ends at its first step, and leaves the files. -/
  refuses : ∀ workspace_id ∈ record.refused, ∀ snapshot stage,
    record.store.call = some ⟨workspace_id, .save snapshot, stage⟩ →
      ∀ fault record', record.step host codec (.advance fault) = some record' →
        record'.store.files = record.store.files ∧ record'.store.call = none ∧
          ∃ error, record'.store.result = some (.failed error)
  /-- A load returns the snapshot that was saved last. -/
  returns : ∀ workspace_id snapshot, (workspace_id, snapshot) ∈ record.saved →
    ∀ begun loaded, record.step host codec (.begin workspace_id .load) = some begun →
      begun.step host codec (.advance none) = some loaded →
        loaded.store.call = none ∧ loaded.store.result = some (.loaded snapshot)
  /-- What is in quarantine stays there. -/
  quarantined : ∀ action record' key reason pid sequence bytes,
    record.step host codec action = some record' →
      record.store.files (.quarantine key reason pid sequence) = some bytes →
        record'.store.files (.quarantine key reason pid sequence) = some bytes

/-! ## Judging the bytes -/

theorem validSnapshot_of_judge {bundle : Bundle} {workspace_id : WorkspaceId} {bytes : Bytes}
    {snapshot : ActiveWorkspaceSessionSnapshot}
    (isValid : judge host codec bundle workspace_id bytes = .valid snapshot) :
    ValidSnapshot host codec bundle workspace_id bytes := by
  unfold judge at isValid
  split at isValid
  · cases isValid
  · rename_i raw isRaw
    split at isValid
    · cases isValid
    · cases isValid
    · rename_i isCurrent
      split at isValid
      · cases isValid
      · rename_i persisted parsed
        split at isValid
        · cases isValid
        · rename_i meant
          exact ⟨raw, persisted, isRaw, isCurrent, parsed, meant⟩

theorem judge_to_vec {bundle : Bundle} {workspace_id : WorkspaceId}
    {snapshot : ActiveWorkspaceSessionSnapshot}
    (round_trip : ∀ persisted, codec.from_slice (codec.to_vec persisted) = some (encode persisted))
    (valid : validateSemantics host bundle workspace_id (.fromSnapshot workspace_id snapshot) =
      .ok ()) :
    judge host codec bundle workspace_id (codec.to_vec (.fromSnapshot workspace_id snapshot)) =
      .valid snapshot := by
  unfold judge
  rw [round_trip]
  dsimp only
  rw [snapshotVersion_encode rfl, parseCurrentSchema_encode rfl]
  dsimp only
  rw [valid]
  rfl

/-! ## Steps of a call -/

namespace Store

variable {store : Store} {call : Call}

theorem write_files {name : FileName} {contents : Option Bytes} :
    (store.write name contents).files = Function.update store.files name contents := rfl

theorem proceed_files {unverified : Bool} {found : ActiveWorkspaceSessionSnapshot} :
    (store.proceed call unverified found).files = store.files := by
  unfold proceed
  split
  · rfl
  · rfl
  · split <;> rfl

theorem proceed_bundle {unverified : Bool} {found : ActiveWorkspaceSessionSnapshot} :
    (store.proceed call unverified found).bundle = store.bundle := by
  unfold proceed
  split
  · rfl
  · rfl
  · split <;> rfl

/-- Only a save that has judged the bytes goes on. -/
theorem proceed_call {unverified : Bool} {found : ActiveWorkspaceSessionSnapshot} :
    (store.proceed call unverified found).call = none ∨
      (unverified = false ∧ (∃ snapshot, call.request = .save snapshot) ∧
        (store.proceed call unverified found).call = some { call with stage := .creating }) := by
  unfold proceed
  split
  · exact .inl rfl
  · exact .inl rfl
  · rename_i snapshot isSave
    cases unverified with
    | true => exact .inl rfl
    | false => exact .inr ⟨rfl, ⟨snapshot, isSave⟩, rfl⟩

theorem attempted_files {stage : Stage} : (store.attempted stage).files = store.files := by
  cases stage <;> rfl

theorem read_files : (store.read host codec call).files = store.files := by
  unfold read
  split
  · exact proceed_files
  · split <;> first | rfl | exact proceed_files

theorem read_bundle : (store.read host codec call).bundle = store.bundle := by
  unfold read
  split
  · exact proceed_bundle
  · split <;> first | rfl | exact proceed_bundle

theorem validated_files : (store.validated host codec call).files = store.files := by
  unfold validated
  split
  · dsimp only
    split <;> rfl
  · rfl

theorem validated_bundle : (store.validated host codec call).bundle = store.bundle := by
  unfold validated
  split
  · dsimp only
    split <;> rfl
  · rfl

/-- There is nothing to link, or the name is taken, or the bytes get a second name. -/
theorem link_cases (host : Host) (store : Store) (call : Call) (reason : Text) (unverified : Bool) :
    (store.files (path host call.workspace_id) = none ∧
        store.link host call reason unverified =
          (store.attempted (.linking reason unverified)).proceed call unverified .default) ∨
      store.link host call reason unverified = store.attempted (.linking reason unverified) ∨
      ∃ bytes, store.files (path host call.workspace_id) = some bytes ∧
        store.files (store.quarantinePath host call.workspace_id reason) = none ∧
        (store.link host call reason unverified).files =
          Function.update store.files (store.quarantinePath host call.workspace_id reason)
            (some bytes) ∧
        (store.link host call reason unverified).call =
          some { call with stage := .unlinking reason unverified } := by
  unfold link
  dsimp only
  split
  · rename_i clear
    exact .inl ⟨clear, rfl⟩
  · rename_i bytes found
    split
    · exact .inr (.inl rfl)
    · rename_i free
      exact .inr (.inr ⟨bytes, found, free, rfl, rfl⟩)

/-- What a link leaves: the bytes under a name that was free, or nothing new. -/
theorem link_files (host : Host) (store : Store) (call : Call) (reason : Text) (unverified : Bool) :
    (store.link host call reason unverified).files = store.files ∨
      ∃ bytes, store.files (store.quarantinePath host call.workspace_id reason) = none ∧
        (store.link host call reason unverified).files =
          Function.update store.files (store.quarantinePath host call.workspace_id reason)
            (some bytes) := by
  rcases link_cases host store call reason unverified with
    ⟨-, isProceed⟩ | isTaken | ⟨bytes, -, free, isFiles, -⟩
  · left
    rw [isProceed, proceed_files]
    rfl
  · left
    rw [isTaken]
    rfl
  · exact .inr ⟨bytes, free, isFiles⟩

theorem link_bundle {reason : Text} {unverified : Bool} :
    (store.link host call reason unverified).bundle = store.bundle := by
  unfold link
  dsimp only
  split
  · exact proceed_bundle
  · split <;> rfl

theorem perform_bundle {stage : Stage} : (store.perform host codec call stage).bundle = store.bundle := by
  cases stage with
  | inspecting =>
    unfold perform
    dsimp only
    split <;> rfl
  | reading => exact read_bundle
  | guarding reason => rfl
  | linking reason unverified => exact link_bundle
  | unlinking reason unverified => exact proceed_bundle
  | creating => exact validated_bundle
  | writing bytes => rfl

theorem guarding_files {reason : Text} : (store.perform host codec call (.guarding reason)).files =
    Function.update store.files (guardPath host call.workspace_id)
      (some (Utf8.bytes "refused".toList)) := rfl

theorem unlinking_files {reason : Text} {unverified : Bool} :
    (store.perform host codec call (.unlinking reason unverified)).files =
      Function.update store.files (path host call.workspace_id) none := proceed_files

theorem writing_files {bytes : Bytes} : (store.perform host codec call (.writing bytes)).files =
    Function.update store.files (path host call.workspace_id) (some bytes) := rfl

/-- A step writes one file at most: the guard, a free quarantine name, or the path. -/
theorem perform_other {stage : Stage} {name : FileName}
    (notPath : name ≠ path host call.workspace_id) (taken : (store.files name).isSome) :
    (store.perform host codec call stage).files name = store.files name ∨
      (name = guardPath host call.workspace_id ∧
        ((store.perform host codec call stage).files name).isSome) := by
  cases stage with
  | inspecting =>
    left
    unfold perform
    dsimp only
    split <;> rfl
  | reading => exact .inl (congrFun read_files name)
  | guarding reason =>
    by_cases isGuard : name = guardPath host call.workspace_id
    · right
      refine ⟨isGuard, ?_⟩
      rw [isGuard, guarding_files, Function.update_self]
      rfl
    · left
      rw [guarding_files, Function.update_of_ne isGuard]
  | linking reason unverified =>
    left
    rcases link_files host store call reason unverified with same | ⟨bytes, free, isFiles⟩
    · exact congrFun same name
    · refine (congrFun isFiles name).trans (Function.update_of_ne ?_ _ _)
      rintro rfl
      rw [free] at taken
      cases taken
  | unlinking reason unverified =>
    left
    rw [unlinking_files, Function.update_of_ne notPath]
  | creating => exact .inl (congrFun validated_files name)
  | writing bytes =>
    left
    rw [writing_files, Function.update_of_ne notPath]

theorem proceed_saved {unverified : Bool} {found : ActiveWorkspaceSessionSnapshot}
    (returned : (store.proceed call unverified found).call = none) :
    (store.proceed call unverified found).result ≠ some .saved := by
  unfold proceed at returned ⊢
  split at returned
  · simp [finish]
  · simp [finish]
  · split at returned
    · rename_i refused
      simp [refused, finish]
    · simp [goTo] at returned

/-- Only the last stage of a save returns that it is done. -/
theorem writing_of_saved {stage : Stage} (running : store.call ≠ none)
    (returned : (store.perform host codec call stage).call = none)
    (isSaved : (store.perform host codec call stage).result = some .saved) :
    ∃ bytes, stage = .writing bytes := by
  cases stage with
  | writing bytes => exact ⟨bytes, rfl⟩
  | inspecting =>
    simp only [perform] at returned isSaved
    split at isSaved
    · cases isSaved
    · rename_i none_
      rw [none_] at returned
      cases returned
  | reading =>
    simp only [perform, read] at returned isSaved
    split at isSaved
    · rename_i none_
      rw [none_] at returned
      exact absurd isSaved (proceed_saved returned)
    · rename_i bytes isBytes
      rw [isBytes] at returned
      dsimp only at returned
      split at isSaved
      · rename_i judged
        rw [judged] at returned
        exact absurd isSaved (proceed_saved returned)
      all_goals
        rename_i judged
        rw [judged] at returned
        cases returned
  | guarding reason => cases returned
  | linking reason unverified =>
    simp only [perform, link] at returned isSaved
    split at isSaved
    · rename_i none_
      rw [none_] at returned
      exact absurd isSaved (proceed_saved returned)
    · rename_i bytes isBytes
      rw [isBytes] at returned
      dsimp only at returned
      split at isSaved
      · rename_i taken isTaken
        rw [isTaken] at returned
        exact absurd returned running
      · rename_i none_
        rw [none_] at returned
        cases returned
  | unlinking reason unverified => exact absurd isSaved (proceed_saved returned)
  | creating =>
    simp only [perform, validated] at returned isSaved
    split at isSaved
    · rename_i snapshot isSave
      rw [isSave] at returned
      dsimp only at returned
      split at isSaved
      · cases isSaved
      · rename_i valid
        rw [valid] at returned
        cases returned
    · rename_i other
      split at returned
      · rename_i snapshot isSave
        exact absurd isSave (other snapshot)
      · exact absurd returned running

theorem perform_guard {stage : Stage} {k : Text}
    (taken : (store.files (.laterVersionGuard k)).isSome) :
    ((store.perform host codec call stage).files (.laterVersionGuard k)).isSome := by
  rcases @perform_other host codec store call stage (.laterVersionGuard k) FileName.noConfusion taken
    with same | ⟨-, isSome⟩
  · rw [same]
    exact taken
  · exact isSome

theorem perform_quarantine {stage : Stage} {k reason : Text} {pid sequence : Nat} {bytes : Bytes}
    (isolated : store.files (.quarantine k reason pid sequence) = some bytes) :
    (store.perform host codec call stage).files (.quarantine k reason pid sequence) = some bytes := by
  rcases @perform_other host codec store call stage (.quarantine k reason pid sequence)
    FileName.noConfusion (by rw [isolated]; rfl) with same | ⟨isGuard, -⟩
  · rw [same]
    exact isolated
  · cases isGuard

/-- Which stages leave the snapshot paths as they are. -/
theorem perform_path {stage : Stage} {k : Text}
    (reads : ∀ reason unverified, stage ≠ .unlinking reason unverified)
    (keeps : ∀ bytes, stage ≠ .writing bytes) :
    (store.perform host codec call stage).files (.snapshot k) = store.files (.snapshot k) := by
  cases stage with
  | inspecting =>
    unfold perform
    dsimp only
    split <;> rfl
  | reading => exact congrFun read_files _
  | guarding reason => rw [guarding_files, Function.update_of_ne (by simp [guardPath])]
  | linking reason unverified =>
    rcases link_files host store call reason unverified with same | ⟨bytes, -, isFiles⟩
    · exact congrFun same _
    · exact (congrFun isFiles _).trans (Function.update_of_ne (by simp [quarantinePath]) _ _)
  | unlinking reason unverified => exact absurd rfl (reads reason unverified)
  | creating => exact congrFun validated_files _
  | writing bytes => exact absurd rfl (keeps bytes)

theorem perform_path_other {stage : Stage} {workspace_id : WorkspaceId}
    (other : key host workspace_id ≠ key host call.workspace_id) :
    (store.perform host codec call stage).files (path host workspace_id) =
      store.files (path host workspace_id) := by
  have notPath : path host workspace_id ≠ path host call.workspace_id :=
    fun same => other (FileName.snapshot.inj same)
  cases stage with
  | unlinking reason unverified => rw [unlinking_files, Function.update_of_ne notPath]
  | writing bytes => rw [writing_files, Function.update_of_ne notPath]
  | _ => exact perform_path (fun _ _ => Stage.noConfusion) fun _ => Stage.noConfusion

end Store

/-! ## The invariant -/

/-- What holds of a call at its stage. -/
structure StageSound (host : Host) (codec : Codec) (files : Files) (bundles : List Bundle)
    (refused : List WorkspaceId) (seen : Bool) (call : Call) : Prop where
  /-- What is about to be unlinked has a second name. -/
  isolated : ∀ reason unverified, call.stage = .unlinking reason unverified →
    ∀ bytes, files (Store.path host call.workspace_id) = some bytes →
      ∃ reason pid sequence,
        files (.quarantine (key host call.workspace_id) reason pid sequence) = some bytes
  /-- What is about to be replaced is a current snapshot. -/
  replaceable : (call.stage = .creating ∨ ∃ bytes, call.stage = .writing bytes) →
    ∀ bytes, files (Store.path host call.workspace_id) = some bytes →
      ∃ bundle ∈ bundles, ValidSnapshot host codec bundle call.workspace_id bytes
  saving : ∀ snapshot bytes, call.request = .save snapshot → call.stage = .writing bytes →
    bytes = codec.to_vec (.fromSnapshot call.workspace_id snapshot) ∧
      ∃ bundle ∈ bundles, validateSemantics host bundle call.workspace_id
        (.fromSnapshot call.workspace_id snapshot) = .ok ()
  guarded : ∀ reason,
    (call.stage = .linking reason true ∨ call.stage = .unlinking reason true) →
      (files (Store.guardPath host call.workspace_id)).isSome
  unseen : seen = true → ∃ reason, call.stage = .guarding reason ∨
    call.stage = .linking reason true ∨ call.stage = .unlinking reason true
  free : ∀ snapshot, call.request = .save snapshot → call.stage ≠ .inspecting →
    call.workspace_id ∉ refused

structure Sound (host : Host) (codec : Codec) (record : Record) : Prop where
  /-- During a call, what is known of its path is about its Workspace. -/
  subject : ∀ call, record.store.call = some call → ∀ entry ∈ record.held,
    key host entry.workspace_id = key host call.workspace_id →
      entry.workspace_id = call.workspace_id
  current : record.store.bundle ∈ record.bundles
  since : ∀ entry ∈ record.held, record.bundles ⊆ entry.bundles
  held : ∀ entry ∈ record.held,
    (∃ bundle ∈ entry.bundles, ValidSnapshot host codec bundle entry.workspace_id entry.bytes) ∨
      Present host record.store.files entry.workspace_id entry.bytes
  stage : ∀ call, record.store.call = some call →
    StageSound host codec record.store.files record.bundles record.refused record.seen call
  refused : ∀ workspace_id ∈ record.refused,
    (record.store.files (Store.guardPath host workspace_id)).isSome
  saved : ∀ workspace_id snapshot, (workspace_id, snapshot) ∈ record.saved →
    record.store.files (Store.path host workspace_id) =
        some (codec.to_vec (.fromSnapshot workspace_id snapshot)) ∧
      validateSemantics host record.store.bundle workspace_id
        (.fromSnapshot workspace_id snapshot) = .ok ()

variable {record record' : Record}

theorem Present.mono {files files' : Files} {workspace_id : WorkspaceId} {bytes : Bytes}
    (present : Present host files workspace_id bytes)
    (path : files' (Store.path host workspace_id) = files (Store.path host workspace_id))
    (quarantine : ∀ k reason pid sequence bytes,
      files (.quarantine k reason pid sequence) = some bytes →
        files' (.quarantine k reason pid sequence) = some bytes) :
    Present host files' workspace_id bytes := by
  rcases present with atPath | ⟨reason, pid, sequence, isolated⟩
  · exact .inl (path.trans atPath)
  · exact .inr ⟨reason, pid, sequence, quarantine _ _ _ _ _ isolated⟩

/-- A save that counts was checked against the bundle as it is. -/
theorem Sound.nowSaved {call : Call} (sound : Sound host codec record)
    (isCall : record.store.call = some call) {workspace_id : WorkspaceId}
    {snapshot : ActiveWorkspaceSessionSnapshot}
    (mem : (workspace_id, snapshot) ∈
      record.nowSaved call (record.store.perform host codec call call.stage)) :
    (record.store.perform host codec call call.stage).files (Store.path host workspace_id) =
        some (codec.to_vec (.fromSnapshot workspace_id snapshot)) ∧
      validateSemantics host record.store.bundle workspace_id
        (.fromSnapshot workspace_id snapshot) = .ok () := by
  unfold Record.nowSaved at mem
  split at mem
  · rename_i saving isSave isSaved
    split at mem
    · rename_i returned
      cases List.mem_singleton.mp mem
      rcases Store.writing_of_saved (by rw [isCall]; exact Option.some_ne_none call) returned.1 isSaved with
        ⟨bytes, isWriting⟩
      obtain ⟨rfl, bundle, isMember, valid⟩ := (sound.stage call isCall).saving _ _ isSave isWriting
      have isCurrent := sound.current
      obtain ⟨only, isOnly⟩ := List.length_eq_one_iff.mp returned.2
      rw [isOnly] at isMember isCurrent
      have same : record.store.bundle = bundle :=
        (List.mem_singleton.mp isCurrent).trans (List.mem_singleton.mp isMember).symm
      rw [isWriting, Store.writing_files, Function.update_self, same]
      exact ⟨rfl, valid⟩
    · cases mem
  · cases mem

theorem mem_atPath {files : Files} {workspace_id : WorkspaceId} {bundles : List Bundle}
    {entry : Held} : entry ∈ Record.atPath host files workspace_id bundles ↔
      entry.workspace_id = workspace_id ∧ files (Store.path host workspace_id) = some entry.bytes ∧
        entry.bundles = bundles := by
  unfold Record.atPath
  rw [List.mem_map]
  constructor
  · rintro ⟨bytes, mem, rfl⟩
    exact ⟨rfl, Option.mem_toList.mp mem, rfl⟩
  · rintro ⟨rfl, atPath, rfl⟩
    exact ⟨entry.bytes, Option.mem_toList.mpr atPath, rfl⟩

/-- What a step of a call has to keep of its own stage, for the record to stay sound. -/
theorem Sound.performed {call : Call} (sound : Sound host codec record)
    (isCall : record.store.call = some call)
    (stepped : record.step host codec (.advance none) = some record')
    (held : ∀ bytes, record.store.files (Store.path host call.workspace_id) = some bytes →
      (∃ bundle ∈ record.bundles, ValidSnapshot host codec bundle call.workspace_id bytes) ∨
        Present host (record.store.perform host codec call call.stage).files call.workspace_id bytes)
    (stage : ∀ call', (record.store.perform host codec call call.stage).call = some call' →
      call'.workspace_id = call.workspace_id ∧
        StageSound host codec (record.store.perform host codec call call.stage).files record.bundles
          record.refused (record.seen || Record.seesUnverified host codec record.store call) call')
    (refuses : (record.seen || Record.seesUnverified host codec record.store call) = true →
      (record.store.perform host codec call call.stage).call = none →
        (record.store.files (Store.guardPath host call.workspace_id)).isSome) :
    Sound host codec record' := by
  have sameBundle := @Store.perform_bundle host codec record.store call call.stage
  unfold Record.step at stepped
  dsimp only at stepped
  rw [isCall] at stepped
  cases stepped
  refine ⟨?_, ?_, ?_, ?_, ?_, ?_, ?_⟩
  · intro call' isCall' entry mem
    rw [(stage call' isCall').1]
    rcases List.mem_append.mp mem with mem | mem
    · exact fun _ => (mem_atPath.mp mem).1
    · exact sound.subject call isCall entry mem
  · show (record.store.perform host codec call call.stage).bundle ∈ record.bundles
    rw [sameBundle]
    exact sound.current
  · intro entry mem
    rcases List.mem_append.mp mem with mem | mem
    · rw [(mem_atPath.mp mem).2.2]
      exact List.Subset.refl _
    · exact sound.since entry mem
  · intro entry mem
    rcases List.mem_append.mp mem with mem | mem
    · obtain ⟨isWorkspace, atPath, -⟩ := mem_atPath.mp mem
      rw [isWorkspace]
      exact .inr (.inl atPath)
    · rcases sound.held entry mem with valid | atPath | ⟨reason, pid, sequence, isolated⟩
      · exact .inl valid
      · by_cases same : key host entry.workspace_id = key host call.workspace_id
        · rw [sound.subject call isCall entry mem same] at atPath ⊢
          refine (held entry.bytes atPath).imp ?_ id
          rintro ⟨bundle, isMember, valid⟩
          exact ⟨bundle, sound.since entry mem isMember, valid⟩
        · exact .inr (.inl ((Store.perform_path_other same).trans atPath))
      · exact .inr (.inr ⟨reason, pid, sequence, Store.perform_quarantine isolated⟩)
  · intro call' isCall'
    have going : ¬((record.seen || Record.seesUnverified host codec record.store call) = true ∧
        (record.store.perform host codec call call.stage).call = none) := by
      rintro ⟨-, isNone⟩
      rw [isNone] at isCall'
      cases isCall'
    dsimp only
    rw [if_neg going]
    exact (stage call' isCall').2
  · intro workspace_id mem
    dsimp only at mem
    split at mem
    · rename_i returned
      rcases List.mem_cons.mp mem with rfl | mem
      · exact Store.perform_guard (refuses returned.1 returned.2)
      · exact Store.perform_guard (sound.refused workspace_id mem)
    · exact Store.perform_guard (sound.refused workspace_id mem)
  · intro workspace_id snapshot mem
    show (record.store.perform host codec call call.stage).files _ = _ ∧
      validateSemantics host (record.store.perform host codec call call.stage).bundle _ _ = _
    rw [sameBundle]
    rcases List.mem_append.mp mem with mem | mem
    · exact sound.nowSaved isCall mem
    · obtain ⟨mem, same⟩ := List.mem_filter.mp mem
      obtain ⟨isSaved, valid⟩ := sound.saved workspace_id snapshot mem
      exact ⟨(of_decide_eq_true same).trans isSaved, valid⟩

/-! ## Each stage of a call -/

namespace StageSound

variable {files : Files} {bundles : List Bundle} {refused : List WorkspaceId} {seen : Bool}
  {call : Call}

theorem inspecting (isInspecting : call.stage = .inspecting) :
    StageSound host codec files bundles refused false call where
  isolated _ _ isStage := by cases isInspecting.symm.trans isStage
  replaceable isStage := by simp [isInspecting] at isStage
  saving _ _ _ isStage := by cases isInspecting.symm.trans isStage
  guarded _ isStage := by simp [isInspecting] at isStage
  unseen isSeen := by cases isSeen
  free _ _ past := absurd isInspecting past

theorem reading
    (free : ∀ snapshot, call.request = .save snapshot → call.workspace_id ∉ refused) :
    StageSound host codec files bundles refused false { call with stage := .reading } where
  isolated _ _ isStage := by cases isStage
  replaceable isStage := by simp at isStage
  saving _ _ _ isStage := by cases isStage
  guarded _ isStage := by simp at isStage
  unseen isSeen := by cases isSeen
  free snapshot isSave _ := free snapshot isSave

theorem guarding {reason : Text}
    (free : ∀ snapshot, call.request = .save snapshot → call.workspace_id ∉ refused) :
    StageSound host codec files bundles refused seen { call with stage := .guarding reason } where
  isolated _ _ isStage := by cases isStage
  replaceable isStage := by simp at isStage
  saving _ _ _ isStage := by cases isStage
  guarded _ isStage := by simp at isStage
  unseen _ := ⟨reason, .inl rfl⟩
  free snapshot isSave _ := free snapshot isSave

theorem linking {reason : Text} {unverified : Bool}
    (guarded : unverified = true → (files (Store.guardPath host call.workspace_id)).isSome)
    (unseen : seen = true → unverified = true)
    (free : ∀ snapshot, call.request = .save snapshot → call.workspace_id ∉ refused) :
    StageSound host codec files bundles refused seen
      { call with stage := .linking reason unverified } where
  isolated _ _ isStage := by cases isStage
  replaceable isStage := by simp at isStage
  saving _ _ _ isStage := by cases isStage
  guarded _ isStage := by
    rcases isStage with isStage | isStage
    · exact guarded (Stage.linking.inj isStage).2
    · cases isStage
  unseen isSeen := ⟨reason, .inr (.inl (by rw [unseen isSeen]))⟩
  free snapshot isSave _ := free snapshot isSave

theorem unlinking {reason : Text} {unverified : Bool}
    (isolated : ∀ bytes, files (Store.path host call.workspace_id) = some bytes →
      ∃ reason pid sequence,
        files (.quarantine (key host call.workspace_id) reason pid sequence) = some bytes)
    (guarded : unverified = true → (files (Store.guardPath host call.workspace_id)).isSome)
    (unseen : seen = true → unverified = true)
    (free : ∀ snapshot, call.request = .save snapshot → call.workspace_id ∉ refused) :
    StageSound host codec files bundles refused seen
      { call with stage := .unlinking reason unverified } where
  isolated _ _ _ := isolated
  replaceable isStage := by simp at isStage
  saving _ _ _ isStage := by cases isStage
  guarded _ isStage := by
    rcases isStage with isStage | isStage
    · cases isStage
    · exact guarded (Stage.unlinking.inj isStage).2
  unseen isSeen := ⟨reason, .inr (.inr (by rw [unseen isSeen]))⟩
  free snapshot isSave _ := free snapshot isSave

theorem creating
    (replaceable : ∀ bytes, files (Store.path host call.workspace_id) = some bytes →
      ∃ bundle ∈ bundles, ValidSnapshot host codec bundle call.workspace_id bytes)
    (unseen : seen = false)
    (free : ∀ snapshot, call.request = .save snapshot → call.workspace_id ∉ refused) :
    StageSound host codec files bundles refused seen { call with stage := .creating } where
  isolated _ _ isStage := by cases isStage
  replaceable _ := replaceable
  saving _ _ _ isStage := by cases isStage
  guarded _ isStage := by simp at isStage
  unseen isSeen := by
    rw [unseen] at isSeen
    cases isSeen
  free snapshot isSave _ := free snapshot isSave

theorem writing {snapshot : ActiveWorkspaceSessionSnapshot} (isSave : call.request = .save snapshot)
    (replaceable : ∀ bytes, files (Store.path host call.workspace_id) = some bytes →
      ∃ bundle ∈ bundles, ValidSnapshot host codec bundle call.workspace_id bytes)
    (valid : ∃ bundle ∈ bundles, validateSemantics host bundle call.workspace_id
      (.fromSnapshot call.workspace_id snapshot) = .ok ())
    (free : ∀ snapshot, call.request = .save snapshot → call.workspace_id ∉ refused) :
    StageSound host codec files bundles refused false
      { call with stage := .writing (codec.to_vec (.fromSnapshot call.workspace_id snapshot)) } where
  isolated _ _ isStage := by cases isStage
  replaceable _ := replaceable
  saving snapshot' bytes isSave' isStage := by
    cases isSave.symm.trans isSave'
    cases isStage
    exact ⟨rfl, valid⟩
  guarded _ isStage := by simp at isStage
  unseen isSeen := by cases isSeen
  free snapshot isSave _ := free snapshot isSave

/-- A stage that is not about unverified bytes has not seen any. -/
theorem not_seen (sound : StageSound host codec files bundles refused seen call)
    (other : ∀ reason, call.stage ≠ .guarding reason ∧ call.stage ≠ .linking reason true ∧
      call.stage ≠ .unlinking reason true) : seen = false := by
  cases seen with
  | false => rfl
  | true =>
    obtain ⟨reason, isStage⟩ := sound.unseen rfl
    obtain ⟨notGuarding, notLinking, notUnlinking⟩ := other reason
    rcases isStage with isStage | isStage | isStage
    · exact absurd isStage notGuarding
    · exact absurd isStage notLinking
    · exact absurd isStage notUnlinking

end StageSound

theorem not_seesUnverified {store : Store} {call : Call} (notReading : call.stage ≠ .reading) :
    Record.seesUnverified host codec store call = false := by
  unfold Record.seesUnverified
  rw [decide_eq_false notReading]
  rfl

/-- A call that goes on after the path has been cleared, or found clear. -/
theorem StageSound.proceed {store : Store} {call call' : Call} {unverified seen : Bool}
    {found : ActiveWorkspaceSessionSnapshot} {bundles : List Bundle} {refused : List WorkspaceId}
    (goes : (store.proceed call unverified found).call = some call')
    (replaceable : ∀ bytes, store.files (Store.path host call.workspace_id) = some bytes →
      ∃ bundle ∈ bundles, ValidSnapshot host codec bundle call.workspace_id bytes)
    (unseen : unverified = false → seen = false)
    (free : ∀ snapshot, call.request = .save snapshot → call.workspace_id ∉ refused) :
    call'.workspace_id = call.workspace_id ∧
      StageSound host codec (store.proceed call unverified found).files bundles refused seen
        call' := by
  rcases @Store.proceed_call store call unverified found with isNone | ⟨verified, -, isCall⟩
  · rw [isNone] at goes
    cases goes
  · rw [isCall] at goes
    cases goes
    rw [Store.proceed_files]
    exact ⟨rfl, StageSound.creating replaceable (unseen verified) free⟩

namespace Sound

variable {call : Call}

/-- A save that has passed the guard was not refused before. -/
theorem not_refused (sound : Sound host codec record) (isCall : record.store.call = some call)
    (past : call.stage ≠ .inspecting) :
    ∀ snapshot, call.request = .save snapshot → call.workspace_id ∉ record.refused :=
  fun snapshot isSave => (sound.stage call isCall).free snapshot isSave past

/-- Where the path is left alone, what was there still is. -/
theorem still_present {stage : Stage}
    (reads : ∀ reason unverified, stage ≠ .unlinking reason unverified)
    (keeps : ∀ bytes, stage ≠ .writing bytes) (bytes : Bytes)
    (atPath : record.store.files (Store.path host call.workspace_id) = some bytes) :
    (∃ bundle ∈ record.bundles, ValidSnapshot host codec bundle call.workspace_id bytes) ∨
      Present host (record.store.perform host codec call stage).files call.workspace_id bytes :=
  .inr (.inl ((Store.perform_path reads keeps).trans atPath))

theorem inspected (sound : Sound host codec record) (isCall : record.store.call = some call)
    (isStage : call.stage = .inspecting)
    (stepped : record.step host codec (.advance none) = some record') :
    Sound host codec record' := by
  have notSeen : record.seen = false :=
    (sound.stage call isCall).not_seen fun reason => by simp [isStage]
  have notSees : Record.seesUnverified host codec record.store call = false :=
    not_seesUnverified (by simp [isStage])
  apply sound.performed isCall stepped
  · rw [isStage]
    exact still_present (by simp) (by simp)
  · intro call' goes
    rw [notSeen, notSees, Bool.false_or]
    rw [isStage] at goes ⊢
    unfold Store.perform at goes ⊢
    dsimp only at goes ⊢
    split at goes
    · cases goes
    · rename_i noGuard
      cases goes
      refine ⟨rfl, StageSound.reading ?_⟩
      intro snapshot _ isRefused
      have guarded := sound.refused _ isRefused
      rw [noGuard] at guarded
      cases guarded
  · rw [notSeen, notSees]
    exact fun isSeen => by cases isSeen

theorem guarded (sound : Sound host codec record) (isCall : record.store.call = some call)
    {reason : Text} (isStage : call.stage = .guarding reason)
    (stepped : record.step host codec (.advance none) = some record') :
    Sound host codec record' := by
  apply sound.performed isCall stepped
  · rw [isStage]
    exact still_present (by simp) (by simp)
  · intro call' goes
    rw [isStage] at goes ⊢
    cases goes
    refine ⟨rfl, StageSound.linking ?_ (fun _ => rfl) (sound.not_refused isCall (by simp [isStage]))⟩
    intro _
    rw [Store.guarding_files, Function.update_self]
    rfl
  · intro _ returned
    rw [isStage] at returned
    cases returned

theorem linked (sound : Sound host codec record) (isCall : record.store.call = some call)
    {reason : Text} {unverified : Bool} (isStage : call.stage = .linking reason unverified)
    (stepped : record.step host codec (.advance none) = some record') :
    Sound host codec record' := by
  have stageSound := sound.stage call isCall
  have free := sound.not_refused isCall (by simp [isStage])
  have notSees : Record.seesUnverified host codec record.store call = false :=
    not_seesUnverified (by simp [isStage])
  have guarded : unverified = true →
      (record.store.files (Store.guardPath host call.workspace_id)).isSome := by
    rintro rfl
    exact stageSound.guarded reason (.inl isStage)
  have unseen : record.seen = true → unverified = true := by
    intro isSeen
    obtain ⟨reason', isStage'⟩ := stageSound.unseen isSeen
    simp only [isStage, reduceCtorEq, Stage.linking.injEq, false_or, or_false] at isStage'
    exact isStage'.2
  apply sound.performed isCall stepped
  · rw [isStage]
    exact still_present (by simp) (by simp)
  · intro call' goes
    rw [notSees, Bool.or_false]
    rw [isStage] at goes ⊢
    rcases Store.link_cases host record.store call reason unverified with
      ⟨clear, isProceed⟩ | isTaken | ⟨bytes, atPath, free', isFiles, isUnlinking⟩
    · replace goes : ((record.store.attempted (.linking reason unverified)).proceed call unverified
        .default).call = some call' := isProceed ▸ goes
      show call'.workspace_id = _ ∧ StageSound host codec
        (record.store.link host call reason unverified).files _ _ _ call'
      rw [isProceed]
      refine StageSound.proceed goes ?_ ?_ free
      · intro bytes atPath
        rw [Store.attempted_files, clear] at atPath
        cases atPath
      · intro verified
        rw [← Bool.not_eq_true]
        intro isSeen
        rw [unseen isSeen] at verified
        cases verified
    · replace goes : (record.store.link host call reason unverified).call = some call' := goes
      show call'.workspace_id = _ ∧ StageSound host codec
        (record.store.link host call reason unverified).files _ _ _ call'
      rw [isTaken] at goes ⊢
      have same : call' = { call with stage := .linking reason unverified } := by
        rw [← isStage]
        exact (Option.some.inj (isCall.symm.trans goes)).symm
      subst same
      exact ⟨rfl, StageSound.linking guarded unseen free⟩
    · have same : call' = { call with stage := .unlinking reason unverified } :=
        (Option.some.inj (isUnlinking.symm.trans goes)).symm
      subst same
      refine ⟨rfl, StageSound.unlinking ?_
        (fun isUnverified => Store.perform_guard (guarded isUnverified)) unseen free⟩
      intro bytes' atPath'
      refine ⟨reason, record.store.pid, record.store.next_quarantine_file, ?_⟩
      refine (congrFun isFiles _).trans ((Function.update_self ..).trans (atPath.symm.trans ?_))
      rw [← atPath']
      exact (Store.perform_path (by simp) (by simp)).symm
  · rw [notSees, Bool.or_false]
    exact fun isSeen _ => guarded (unseen isSeen)

theorem hasRead (sound : Sound host codec record) (isCall : record.store.call = some call)
    (isStage : call.stage = .reading)
    (stepped : record.step host codec (.advance none) = some record') :
    Sound host codec record' := by
  have free := sound.not_refused isCall (by simp [isStage])
  have notSeen : record.seen = false :=
    (sound.stage call isCall).not_seen fun reason => by simp [isStage]
  have current := sound.current
  apply sound.performed isCall stepped
  · rw [isStage]
    exact still_present (by simp) (by simp)
  · intro call' goes
    rw [notSeen, Bool.false_or]
    rw [isStage] at goes ⊢
    show call'.workspace_id = _ ∧ StageSound host codec (record.store.read host codec call).files _ _
      _ call'
    replace goes : (record.store.read host codec call).call = some call' := goes
    unfold Record.seesUnverified
    rw [decide_eq_true isStage, Bool.true_and]
    unfold Store.read at goes ⊢
    split at goes
    · rename_i clear
      refine StageSound.proceed goes ?_ ?_ free
      · intro bytes atPath
        rw [clear] at atPath
        cases atPath
      · rw [clear]
        exact fun _ => rfl
    · rename_i bytes atPath
      rw [atPath, Option.any_some]
      split at goes
      · rename_i snapshot isValid
        rw [isValid]
        refine StageSound.proceed goes ?_ (fun _ => rfl) free
        intro bytes' atPath'
        cases atPath.symm.trans atPath'
        exact ⟨record.store.bundle, current, validSnapshot_of_judge isValid⟩
      · rename_i isInvalid
        cases goes
        rw [isInvalid]
        exact ⟨rfl, StageSound.linking (by simp) (by simp [Verdict.unverified]) free⟩
      all_goals
        cases goes
        exact ⟨rfl, StageSound.guarding free⟩
  · intro isSeen returned
    rw [notSeen, Bool.false_or] at isSeen
    unfold Record.seesUnverified at isSeen
    rw [decide_eq_true isStage, Bool.true_and] at isSeen
    rw [isStage] at returned
    replace returned : (record.store.read host codec call).call = none := returned
    -- Bytes that are not verified send the call on to write the guard.
    unfold Store.read at returned
    split at returned
    · rename_i clear
      rw [clear] at isSeen
      cases isSeen
    · rename_i bytes atPath
      rw [atPath, Option.any_some] at isSeen
      split at returned
      · rename_i isValid
        rw [isValid] at isSeen
        cases isSeen
      all_goals cases returned

theorem unlinked (sound : Sound host codec record) (isCall : record.store.call = some call)
    {reason : Text} {unverified : Bool} (isStage : call.stage = .unlinking reason unverified)
    (stepped : record.step host codec (.advance none) = some record') :
    Sound host codec record' := by
  have stageSound := sound.stage call isCall
  have notSees : Record.seesUnverified host codec record.store call = false :=
    not_seesUnverified (by simp [isStage])
  have unseen : record.seen = true → unverified = true := by
    intro isSeen
    obtain ⟨reason', isStage'⟩ := stageSound.unseen isSeen
    simp only [isStage, reduceCtorEq, Stage.unlinking.injEq, false_or] at isStage'
    exact isStage'.2
  apply sound.performed isCall stepped
  · intro bytes atPath
    obtain ⟨reason', pid, sequence, isolated⟩ := stageSound.isolated reason unverified isStage _ atPath
    exact .inr (.inr ⟨reason', pid, sequence, Store.perform_quarantine isolated⟩)
  · intro call' goes
    rw [notSees, Bool.or_false]
    rw [isStage] at goes ⊢
    refine StageSound.proceed goes ?_ ?_ (sound.not_refused isCall (by simp [isStage]))
    · intro bytes atPath
      replace atPath : Function.update record.store.files (Store.path host call.workspace_id) none
        (Store.path host call.workspace_id) = some bytes := atPath
      rw [Function.update_self] at atPath
      cases atPath
    · intro verified
      rw [← Bool.not_eq_true]
      intro isSeen
      rw [unseen isSeen] at verified
      cases verified
  · rw [notSees, Bool.or_false]
    intro isSeen _
    apply stageSound.guarded reason
    rw [isStage, unseen isSeen]
    exact .inr rfl

theorem validated (sound : Sound host codec record) (isCall : record.store.call = some call)
    (isStage : call.stage = .creating)
    (stepped : record.step host codec (.advance none) = some record') :
    Sound host codec record' := by
  have stageSound := sound.stage call isCall
  have notSeen : record.seen = false := stageSound.not_seen fun reason => by simp [isStage]
  have notSees : Record.seesUnverified host codec record.store call = false :=
    not_seesUnverified (by simp [isStage])
  apply sound.performed isCall stepped
  · rw [isStage]
    exact still_present (by simp) (by simp)
  · intro call' goes
    rw [notSeen, notSees, Bool.false_or]
    rw [isStage] at goes ⊢
    show call'.workspace_id = _ ∧ StageSound host codec
      (record.store.validated host codec call).files _ _ _ call'
    rw [Store.validated_files]
    replace goes : (record.store.validated host codec call).call = some call' := goes
    unfold Store.validated at goes
    split at goes
    · rename_i snapshot isSave
      dsimp only at goes
      split at goes
      · cases goes
      · rename_i valid
        cases goes
        exact ⟨rfl, StageSound.writing isSave (stageSound.replaceable (.inl isStage))
          ⟨record.store.bundle, sound.current, valid⟩
          (sound.not_refused isCall (by simp [isStage]))⟩
    · rename_i notSave
      cases isCall.symm.trans goes
      exact ⟨rfl, notSeen ▸ stageSound⟩
  · rw [notSeen, notSees]
    exact fun isSeen => by cases isSeen

theorem written (sound : Sound host codec record) (isCall : record.store.call = some call)
    {bytes : Bytes} (isStage : call.stage = .writing bytes)
    (stepped : record.step host codec (.advance none) = some record') :
    Sound host codec record' := by
  have stageSound := sound.stage call isCall
  have notSeen : record.seen = false := stageSound.not_seen fun reason => by simp [isStage]
  have notSees : Record.seesUnverified host codec record.store call = false :=
    not_seesUnverified (by simp [isStage])
  apply sound.performed isCall stepped
  · intro bytes' atPath
    exact .inl (stageSound.replaceable (.inr ⟨bytes, isStage⟩) bytes' atPath)
  · intro call' goes
    rw [isStage] at goes
    cases goes
  · rw [notSeen, notSees]
    exact fun isSeen => by cases isSeen

theorem advanced (sound : Sound host codec record) (isCall : record.store.call = some call)
    (stepped : record.step host codec (.advance none) = some record') :
    Sound host codec record' := by
  cases isStage : call.stage with
  | inspecting => exact sound.inspected isCall isStage stepped
  | reading => exact sound.hasRead isCall isStage stepped
  | guarding reason => exact sound.guarded isCall isStage stepped
  | linking reason unverified => exact sound.linked isCall isStage stepped
  | unlinking reason unverified => exact sound.unlinked isCall isStage stepped
  | creating => exact sound.validated isCall isStage stepped
  | writing bytes => exact sound.written isCall isStage stepped

/-- A failed step changes no file, and ends the call. -/
theorem failed (sound : Sound host codec record) (isCall : record.store.call = some call)
    {error : AppError} (stepped : record.step host codec (.advance (some error)) = some record') :
    Sound host codec record' := by
  unfold Record.step at stepped
  dsimp only at stepped
  rw [isCall] at stepped
  cases stepped
  have sameFiles := @Store.attempted_files record.store call.stage
  have sameBundle : (record.store.attempted call.stage).bundle = record.store.bundle := by
    cases call.stage <;> rfl
  refine ⟨?_, ?_, sound.since, ?_, ?_, ?_, ?_⟩
  · exact fun _ isCall' => by cases isCall'
  · show (record.store.attempted call.stage).bundle ∈ record.bundles
    rw [sameBundle]
    exact sound.current
  · intro entry mem
    show _ ∨ Present host (record.store.attempted call.stage).files _ _
    rw [sameFiles]
    exact sound.held entry mem
  · exact fun _ isCall' => by cases isCall'
  · intro workspace_id mem
    show ((record.store.attempted call.stage).files _).isSome
    rw [sameFiles]
    exact sound.refused workspace_id mem
  · intro workspace_id snapshot mem
    show (record.store.attempted call.stage).files _ = _ ∧
      validateSemantics host (record.store.attempted call.stage).bundle _ _ = _
    rw [sameFiles, sameBundle]
    exact sound.saved workspace_id snapshot mem

theorem begun (sound : Sound host codec record) {workspace_id : WorkspaceId} {request : Request}
    (stepped : record.step host codec (.begin workspace_id request) = some record') :
    Sound host codec record' := by
  unfold Record.step at stepped
  dsimp only at stepped
  split at stepped
  · cases stepped
  · cases stepped
    refine ⟨?_, List.mem_singleton_self _, ?_, ?_, ?_, sound.refused, sound.saved⟩
    · rintro call' ⟨⟩ entry mem
      rcases List.mem_append.mp mem with mem | mem
      · exact fun _ => (mem_atPath.mp mem).1
      · exact of_decide_eq_true (List.mem_filter.mp mem).2
    · intro entry mem
      rcases List.mem_append.mp mem with mem | mem
      · rw [(mem_atPath.mp mem).2.2]
        exact List.Subset.refl _
      · intro bundle isMember
        rw [List.mem_singleton.mp isMember]
        exact sound.since entry (List.mem_filter.mp mem).1 sound.current
    · intro entry mem
      rcases List.mem_append.mp mem with mem | mem
      · obtain ⟨isWorkspace, atPath, -⟩ := mem_atPath.mp mem
        rw [isWorkspace]
        exact .inr (.inl atPath)
      · exact sound.held entry (List.mem_filter.mp mem).1
    · rintro call' ⟨⟩
      cases request with
      | save snapshot => exact StageSound.inspecting rfl
      | load => exact @StageSound.reading _ _ _ _ _ ⟨workspace_id, .load, .reading⟩ (by simp)
      | clear_corrupt =>
        exact @StageSound.reading _ _ _ _ _ ⟨workspace_id, .clear_corrupt, .reading⟩ (by simp)

theorem died (sound : Sound host codec record) {pid : Nat}
    (stepped : record.step host codec (.die pid) = some record') : Sound host codec record' := by
  cases stepped
  refine ⟨?_, sound.current, sound.since, sound.held, ?_, sound.refused, sound.saved⟩
  · exact fun _ isCall => by cases isCall
  · exact fun _ isCall => by cases isCall

theorem external (sound : Sound host codec record) {workspace_id : WorkspaceId}
    {contents : Option Bytes}
    (stepped : record.step host codec (.external workspace_id contents) = some record') :
    Sound host codec record' := by
  unfold Record.step at stepped
  dsimp only at stepped
  split at stepped
  · cases stepped
  · rename_i noCall
    cases stepped
    refine ⟨?_, sound.current, ?_, ?_, ?_, ?_, ?_⟩
    · exact fun _ isCall => by cases noCall.symm.trans isCall
    · exact fun entry mem => sound.since entry (List.mem_filter.mp mem).1
    · intro entry mem
      obtain ⟨mem, other⟩ := List.mem_filter.mp mem
      refine (sound.held entry mem).imp id fun present => present.mono ?_ ?_
      · refine Function.update_of_ne (fun same => of_decide_eq_true other ?_) _ _
        exact FileName.snapshot.inj same
      · intro k reason pid sequence bytes isolated
        rw [Store.write_files, Function.update_of_ne (by simp [Store.path])]
        exact isolated
    · exact fun _ isCall => by cases noCall.symm.trans isCall
    · intro workspace_id' mem
      rw [Store.write_files, Function.update_of_ne (by simp [Store.path, Store.guardPath])]
      exact sound.refused workspace_id' mem
    · intro workspace_id' snapshot mem
      obtain ⟨mem, same⟩ := List.mem_filter.mp mem
      obtain ⟨isSaved, valid⟩ := sound.saved workspace_id' snapshot mem
      exact ⟨(of_decide_eq_true same).trans isSaved, valid⟩

theorem changed (sound : Sound host codec record) {bundle : Bundle}
    (stepped : record.step host codec (.change bundle) = some record') : Sound host codec record' := by
  cases stepped
  refine ⟨?_, List.mem_cons_self, ?_, ?_, ?_, sound.refused, ?_⟩
  · intro call isCall entry mem
    obtain ⟨entry, isHeld, rfl⟩ := List.mem_map.mp mem
    exact sound.subject call isCall entry isHeld
  · intro entry mem
    obtain ⟨entry, isHeld, rfl⟩ := List.mem_map.mp mem
    exact List.cons_subset_cons bundle (sound.since entry isHeld)
  · intro entry mem
    obtain ⟨entry, isHeld, rfl⟩ := List.mem_map.mp mem
    refine (sound.held entry isHeld).imp ?_ id
    rintro ⟨bundle', isMember, valid⟩
    exact ⟨bundle', List.mem_cons_of_mem _ isMember, valid⟩
  · intro call isCall
    obtain ⟨isolated, replaceable, saving, guarded, unseen, free⟩ := sound.stage call isCall
    refine ⟨isolated, ?_, ?_, guarded, unseen, free⟩
    · intro isStage bytes atPath
      obtain ⟨bundle', isMember, valid⟩ := replaceable isStage bytes atPath
      exact ⟨bundle', List.mem_cons_of_mem _ isMember, valid⟩
    · intro snapshot bytes isSave isStage
      obtain ⟨isBytes, bundle', isMember, valid⟩ := saving snapshot bytes isSave isStage
      exact ⟨isBytes, bundle', List.mem_cons_of_mem _ isMember, valid⟩
  · exact fun _ _ mem => by cases mem

theorem step (sound : Sound host codec record) {action : Action}
    (stepped : record.step host codec action = some record') : Sound host codec record' := by
  cases action with
  | begin workspace_id request => exact sound.begun stepped
  | advance fault =>
    cases isCall : record.store.call with
    | none =>
      unfold Record.step at stepped
      dsimp only at stepped
      rw [isCall] at stepped
      cases stepped
    | some call =>
      cases fault with
      | none => exact sound.advanced isCall stepped
      | some error => exact sound.failed isCall stepped
  | die pid => exact sound.died stepped
  | external workspace_id contents => exact sound.external stepped
  | change bundle => exact sound.changed stepped

theorem initial {files : Files} {bundle : Bundle} {pid : Nat} :
    Sound host codec (Record.initial files bundle pid) where
  subject _ isCall := by cases isCall
  current := List.mem_singleton_self _
  since _ mem := by cases mem
  held _ mem := by cases mem
  stage _ isCall := by cases isCall
  refused _ mem := by cases mem
  saved _ _ mem := by cases mem

/-! ## What a sound record promises -/

theorem refuses (sound : Sound host codec record) {workspace_id : WorkspaceId}
    (isRefused : workspace_id ∈ record.refused) {snapshot : ActiveWorkspaceSessionSnapshot}
    {stage : Stage} (isCall : record.store.call = some ⟨workspace_id, .save snapshot, stage⟩)
    {fault : Option AppError}
    (stepped : record.step host codec (.advance fault) = some record') :
    record'.store.files = record.store.files ∧ record'.store.call = none ∧
      ∃ error, record'.store.result = some (.failed error) := by
  have isInspecting : stage = .inspecting := by
    by_contra past
    exact (sound.stage _ isCall).free snapshot rfl past isRefused
  subst isInspecting
  obtain ⟨guard, isGuard⟩ := Option.isSome_iff_exists.mp (sound.refused _ isRefused)
  unfold Record.step at stepped
  dsimp only at stepped
  rw [isCall] at stepped
  cases fault with
  | some error =>
    cases stepped
    exact ⟨rfl, rfl, error, rfl⟩
  | none =>
    cases stepped
    have isPerform : record.store.perform host codec ⟨workspace_id, .save snapshot, .inspecting⟩
        .inspecting = record.store.finish (.failed normalPathRefusal) := by
      unfold Store.perform
      dsimp only
      rw [isGuard]
    dsimp only
    rw [isPerform]
    exact ⟨rfl, rfl, _, rfl⟩

theorem returns (sound : Sound host codec record)
    (round_trip : ∀ persisted, codec.from_slice (codec.to_vec persisted) = some (encode persisted))
    {workspace_id : WorkspaceId} {snapshot : ActiveWorkspaceSessionSnapshot}
    (isSaved : (workspace_id, snapshot) ∈ record.saved) {begun loaded : Record}
    (begins : record.step host codec (.begin workspace_id .load) = some begun)
    (reads : begun.step host codec (.advance none) = some loaded) :
    loaded.store.call = none ∧ loaded.store.result = some (.loaded snapshot) := by
  obtain ⟨atPath, valid⟩ := sound.saved workspace_id snapshot isSaved
  unfold Record.step at begins
  dsimp only at begins
  split at begins
  · cases begins
  · cases begins
    unfold Record.step at reads
    cases reads
    dsimp only [Store.firstStage]
    unfold Store.perform
    dsimp only
    unfold Store.read
    dsimp only
    rw [atPath]
    dsimp only
    rw [judge_to_vec round_trip valid]
    exact ⟨rfl, rfl⟩

end Sound

/-- Whatever happens, a quarantine file is not touched. -/
theorem step_quarantined {action : Action} {k reason : Text} {pid sequence : Nat} {bytes : Bytes}
    (stepped : record.step host codec action = some record')
    (isolated : record.store.files (.quarantine k reason pid sequence) = some bytes) :
    record'.store.files (.quarantine k reason pid sequence) = some bytes := by
  cases action with
  | begin workspace_id request =>
    unfold Record.step at stepped
    dsimp only at stepped
    split at stepped
    · cases stepped
    · cases stepped
      exact isolated
  | advance fault =>
    unfold Record.step at stepped
    dsimp only at stepped
    split at stepped
    · cases stepped
    · split at stepped
      · cases stepped
        exact (congrFun Store.attempted_files _).trans isolated
      · cases stepped
        exact Store.perform_quarantine isolated
  | die pid =>
    cases stepped
    exact isolated
  | external workspace_id contents =>
    unfold Record.step at stepped
    dsimp only at stepped
    split at stepped
    · cases stepped
    · cases stepped
      rw [Store.write_files, Function.update_of_ne (by simp [Store.path])]
      exact isolated
  | change bundle =>
    cases stepped
    exact isolated

/-- Snapshot bytes are never lost or overwritten unread: over every run of calls, of faults
and deaths between their steps, and of other programs at the snapshot path. -/
theorem snapshots_are_kept (host : Host) (codec : Codec)
    (round_trip : ∀ persisted, codec.from_slice (codec.to_vec persisted) = some (encode persisted))
    {files : Files} {bundle : Bundle} {pid : Nat}
    (reached : Reaches (Record.step host codec) Any (Record.initial files bundle pid) record) :
    Kept host codec record := by
  have sound : Sound host codec record :=
    reached.invariant Sound.initial fun _ _ _ sound _ stepped => sound.step stepped
  exact {
    held := sound.held
    refuses := fun workspace_id isRefused snapshot stage isCall fault record' stepped =>
      sound.refuses isRefused isCall stepped
    returns := fun workspace_id snapshot isSaved begun loaded begins reads =>
      sound.returns round_trip isSaved begins reads
    quarantined := fun action record' k reason pid sequence bytes stepped isolated =>
      step_quarantined stepped isolated }

/-! ## A codec -/

namespace Codec

abbrev Code := List Nat

def code (text : Text) : Code := text.map Char.toNat

def ofCode (code : Code) : Text := code.map Char.ofNat

@[simp]
theorem ofCode_code (text : Text) : ofCode (code text) = text := by
  unfold ofCode code
  rw [List.map_map]
  refine (List.map_congr_left fun c _ => ?_).trans text.map_id
  exact Char.ofNat_toNat c

/-- The members of a snapshot, with a number for each character. -/
abbrev Members := Nat × Code × List Code × Option Code × List Code × Code × Nat

def members (persisted : PersistedWorkspaceSessionSnapshot) : Members :=
  (persisted.schema_version, code persisted.workspace_id, persisted.open_note_ids.map code,
    persisted.active_note_id.map code, persisted.expanded_directory_ids.map code,
    code persisted.search_query,
    match persisted.sync_presentation with
      | .local_ => 0
      | .connected => 1
      | .paused => 2)

def ofMembers : Members → PersistedWorkspaceSessionSnapshot
  | (version, workspace_id, notes, active, directories, query, sync) =>
      ⟨version, ofCode workspace_id, notes.map ofCode, active.map ofCode, directories.map ofCode,
        ofCode query,
        match sync with
          | 0 => .local_
          | 1 => .connected
          | _ => .paused⟩

theorem ofMembers_members (persisted : PersistedWorkspaceSessionSnapshot) :
    ofMembers (members persisted) = persisted := by
  obtain ⟨version, workspace_id, notes, active, directories, query, sync⟩ := persisted
  have each (texts : List Text) : (texts.map code).map ofCode = texts := by
    rw [List.map_map]
    exact (List.map_congr_left fun text _ => ofCode_code text).trans texts.map_id
  have isActive : (active.map code).map ofCode = active := by
    cases active with
    | none => rfl
    | some id => exact congrArg some (ofCode_code id)
  unfold members ofMembers
  dsimp only
  rw [ofCode_code, ofCode_code, each, each, isActive]
  cases sync <;> rfl

/-- A snapshot with nothing in it, of the Workspace `v`. -/
def bare : PersistedWorkspaceSessionSnapshot := .fromSnapshot "v".toList .default

def bareBytes : Bytes :=
  Utf8.bytes <| ("\x7b\"schema_version\":1,\"workspace_id\":\"v\",\"open_note_ids\":[]," ++
    "\"active_note_id\":null,\"expanded_directory_ids\":[],\"search_query\":\"\"," ++
    "\"sync_presentation\":\"local\"\x7d").toList

/-- It writes the bare snapshot as JSON, and any other in unary. -/
def plain : Codec where
  from_slice bytes :=
    if bytes = bareBytes then some (encode bare)
    else if bytes.all (· = 0) then (Encodable.decode bytes.length).map fun read => encode (ofMembers read)
    else none
  to_vec persisted :=
    if persisted = bare then bareBytes
    else List.replicate (Encodable.encode (members persisted)) 0

theorem plain_round_trip (persisted : PersistedWorkspaceSessionSnapshot) :
    plain.from_slice (plain.to_vec persisted) = some (encode persisted) := by
  have notUnary (n : Nat) : List.replicate n (0 : UInt8) ≠ bareBytes := by
    intro same
    have isZero : ∀ byte ∈ bareBytes, byte = 0 := by
      rw [← same]
      exact fun byte mem => List.eq_of_mem_replicate mem
    exact absurd (isZero 123 (by decide +kernel)) (by decide)
  unfold plain
  dsimp only
  by_cases isBare : persisted = bare
  · rw [if_pos isBare, if_pos rfl, isBare]
  · rw [if_neg isBare, if_neg (notUnary _), if_pos (by simp), List.length_replicate, Encodable.encodek,
      Option.map_some, ofMembers_members]

end Codec

/-- A load finds bytes that are no JSON, and a Workspace has saved the bare snapshot. -/
theorem refused_and_saved_are_kept :
    ∃ record, record.refused = ["w".toList] ∧ record.saved = [("v".toList, .default)] ∧
      record.held ≠ [] ∧ Kept Host.plain Codec.plain record := by
  let bytes := Utf8.bytes "\x7b".toList
  let files : Files := Function.update (fun _ => none) (Store.path Host.plain "w".toList) (some bytes)
  let next := Action.advance none
  let actions : List Action :=
    [.begin "w".toList .load, next, next, next, next,
      .begin "v".toList (.save .default), next, next, next, next]
  have seen : ((Machine.run (Record.step Host.plain Codec.plain)
      (Record.initial files ⟨∅, [], []⟩ 7) actions).map
        fun record => (record.refused, record.saved, record.held.isEmpty)) =
      some (["w".toList], [("v".toList, .default)], false) := by
    decide +kernel
  obtain ⟨record, ran, parts⟩ := Option.map_eq_some_iff.mp seen
  obtain ⟨isRefused, isSaved, isHeld⟩ : record.refused = _ ∧ record.saved = _ ∧ _ = false := by
    simpa only [Prod.mk.injEq] using parts
  refine ⟨record, isRefused, isSaved, ?_,
    snapshots_are_kept Host.plain Codec.plain Codec.plain_round_trip (Reaches.of_run ran)⟩
  rintro none
  rw [none] at isHeld
  cases isHeld

end Burlmd.Snapshot
