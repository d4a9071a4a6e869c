import Burlmd.Error
import Burlmd.Index.Existence

/-!
# Editor sessions

A session holds the text of an open Note, the tree and the span map of its last parse, and how
often it was edited. Every edit ends in a draft; where the draft cannot be written, the edit is
taken back.
-/

namespace Burlmd.Editor

open Checked
open Markdown
open Index (Frontmatter)
open Okf (ConceptId containingDir)
open Utf8

/-- What a session counts on: the Markdown and the YAML reader, and the answers of the Workspace. -/
structure Surroundings where
  note_id : ConceptId
  stream : ∀ source : Text, EventStream source
  readFrontmatter : Text → Frontmatter
  contentHash : Text → Text
  editLease : Except AppError Unit
  noteExists : ConceptId → Except AppError Bool
  writeDraft : Text → Nat → Except AppError Unit

structure Session where
  source : Text
  spans : SpanMap
  ast : List AstNode
  edit_seq : Nat
  session_edited : Bool
  unwritten : Bool
  conflicted : Bool
  closed : Bool

variable (env : Surroundings)

def Surroundings.parse (source : Text) : ParsedNote :=
  parseNote source (containingDir env.note_id) (env.stream source).events

def Surroundings.resolveLinks (ast : List AstNode) : Except AppError (List AstNode) :=
  Index.resolveLinkExistence env.noteExists ast

/-- A path as a message shows it. -/
def shownPath (path : BlockPath) : Text :=
  "[".toList ++ ", ".toList.intercalate (path.map shown) ++ "]".toList

def noBlock (path : BlockPath) : AppError :=
  .parseError ("no Block at block_path ".toList ++ shownPath path)

def notAddressable (range : Range) : AppError :=
  .parseError ("source range ".toList ++ shown range.start ++ "..".toList ++ shown range.stop ++
    " is not addressable in this Note".toList)

def offsetNotAddressable (offset : Nat) : AppError :=
  .parseError ("offset ".toList ++ shown offset ++ " is not addressable".toList)

/-- The text of a range, or an error where it is none. -/
def getOr (error : AppError) (text : Text) (range : Range) : Except AppError Text :=
  match slice? text range with
  | some part => .ok part
  | none => .error error

def Session.refuseWhileConflicted (session : Session) (what : Text) : Except AppError Unit :=
  if session.closed then
    .error (.parseError (env.note_id ++
      " was retired by a Workspace lifecycle operation, so ".toList ++ what ++
        " is refused; open its current identity instead".toList))
  else if session.conflicted then
    .error <| .parseError <| env.note_id ++ " holds an unresolved merge conflict, so ".toList ++
      what ++ (" is refused: the Suggestion nodes the reload installed renumbered this Note's " ++
        "Blocks and the span map still indexes the raw markers, so no block_path addresses the " ++
        "same Block in both. Resolve the conflict in the file, then reload the Note.").toList
  else .ok ()

/-- What an edit call replaced, put back. -/
def Session.rollback (installed previous : Session) : Session :=
  { installed with
    source := previous.source
    spans := previous.spans
    ast := previous.ast
    edit_seq := previous.edit_seq
    session_edited := previous.session_edited
    unwritten := previous.unwritten }

def Session.install (session : Session) (source : Text) (spans : SpanMap) (ast : List AstNode) :
    Session :=
  { session with
    source
    spans
    ast
    edit_seq := session.edit_seq + 1
    session_edited := true
    unwritten := true }

/-- The draft of an installed edit, which is taken back where the draft is refused. -/
def Session.drafted {α : Type} (previous installed : Session) (result : α) :
    Except AppError α × Session :=
  match env.writeDraft installed.source installed.edit_seq with
  | .ok () => (.ok result, installed)
  | .error error => (.error error, installed.rollback previous)

/-! ## Keystrokes -/

def checkSpan (source : Text) (span : Range) : Except AppError Unit :=
  if (slice? source span).isSome then .ok () else .error (notAddressable span)

def containerRefused (path : BlockPath) : AppError :=
  .parseError ("block_path ".toList ++ shownPath path ++
    (" addresses a container Block, whose child spans a buffered edit cannot maintain; edit " ++
      "the Block that holds the text, or use a reparsing call").toList)

/-- The buffer and the map after a keystroke; nothing is parsed. -/
def bufferedEdit (session : Session) (block_path : BlockPath) (new_source : Text) :
    Except AppError (Text × SpanMap) :=
  match session.spans.block block_path with
  | none => .error (noBlock block_path)
  | some block => do
      checkSpan session.source block.source
      match session.spans.applyBufferedEdit block_path (byteLen new_source) with
      | none => .error (containerRefused block_path)
      | some (_, spans) =>
          match splice? session.source block.source new_source with
          | none => .error (notAddressable block.source)
          | some source => .ok (source, spans)

def updateBlock (session : Session) (block_path : BlockPath) (new_source : Text) :
    Except AppError Unit × Session :=
  let edited := do
    env.editLease
    session.refuseWhileConflicted env "editing a Block".toList
    bufferedEdit session block_path new_source
  match edited with
  | .error error => (.error error, session)
  | .ok (source, spans) =>
      session.drafted env (session.install source spans session.ast) ()

/-! ## Reparsing edits -/

/-- An edit of the text, given the fresh parse of it and the map that the caller still sees. -/
abbrev Edit (α : Type) := Text → ParsedNote → SpanMap → Except AppError (Text × α)

/-- What the fresh parse of the new text makes of the result of an edit. -/
abbrev Derivation (α β : Type) := Text → ParsedNote → α → Except AppError β

/-- The new text, tree, map and result of an edit, before anything is installed. -/
def attempt {α β : Type} (session : Session) (edit : Edit α) (derive : Derivation α β) :
    Except AppError (Text × ParsedNote × β) := do
  env.editLease
  session.refuseWhileConflicted env "a structural edit".toList
  let (new_source, result) ← edit session.source (env.parse session.source) session.spans
  let parsed := env.parse new_source
  let ast ← env.resolveLinks parsed.ast
  let result ← derive new_source ⟨ast, parsed.spans⟩ result
  return (new_source, ⟨ast, parsed.spans⟩, result)

def structuralEditWithResult {α β : Type} (session : Session) (edit : Edit α)
    (derive : Derivation α β) : Except AppError β × Session :=
  match attempt env session edit derive with
  | .error error => (.error error, session)
  | .ok (new_source, parsed, result) =>
      session.drafted env (session.install new_source parsed.spans parsed.ast) result

def structuralEdit {α : Type} (session : Session) (edit : Edit α) : Except AppError α × Session :=
  structuralEditWithResult env session edit fun _ _ result => .ok result

/-- A parse of the text as it is. -/
def commitBlock (session : Session) : Except AppError Unit × Session :=
  let parsed := env.parse session.source
  let linked := do
    session.refuseWhileConflicted env "committing a Block".toList
    env.resolveLinks parsed.ast
  match linked with
  | .error error => (.error error, session)
  | .ok ast => (.ok (), { session with ast, spans := parsed.spans })

/-! ## What an edit leaves -/

/-- An open Note outside a conflict. -/
structure Session.Editable (session : Session) : Prop where
  conflicted : session.conflicted = false
  closed : session.closed = false

/-- A session whose map is that of its text, as after every parse. -/
structure Session.Fresh (session : Session) : Prop extends session.Editable where
  spans_eq : session.spans = (env.parse session.source).spans

variable {env} {session : Session}

theorem Session.Editable.refuseWhileConflicted (editable : session.Editable) (what : Text) :
    session.refuseWhileConflicted env what = .ok () := by
  unfold Session.refuseWhileConflicted
  rw [editable.closed, editable.conflicted]
  rfl

theorem editable_of_not_refused {what : Text}
    (open_ : session.refuseWhileConflicted env what = .ok ()) : session.Editable := by
  unfold Session.refuseWhileConflicted at open_
  cases closed : session.closed with
  | true =>
    rw [closed, if_pos rfl] at open_
    cases open_
  | false =>
    rw [closed, if_neg Bool.false_ne_true] at open_
    cases conflicted : session.conflicted with
    | true =>
      rw [conflicted, if_pos rfl] at open_
      cases open_
    | false => exact ⟨conflicted, closed⟩

theorem Session.drafted_eq_ok {α : Type} {installed : Session} {given result : α}
    (done : (session.drafted env installed given).1 = .ok result) :
    given = result ∧ session.drafted env installed given = (.ok given, installed) := by
  unfold Session.drafted at done ⊢
  cases written : env.writeDraft installed.source installed.edit_seq with
  | error error =>
    rw [written] at done
    cases done
  | ok _ =>
    rw [written] at done
    exact ⟨Except.ok.inj done, rfl⟩

section StructuralEdit

variable {α β : Type} {edit : Edit α} {derive : Derivation α β}

/-- An edit that cannot be made is refused. -/
theorem structuralEdit_refused (lease : env.editLease = .ok ()) (editable : session.Editable)
    {error : AppError}
    (refused : edit session.source (env.parse session.source) session.spans = .error error) :
    structuralEditWithResult env session edit derive = (.error error, session) := by
  have attempted : attempt env session edit derive = .error error := by
    unfold attempt
    rw [lease, editable.refuseWhileConflicted, refused]
    rfl
  unfold structuralEditWithResult
  rw [attempted]

/-- An edit that is made is installed with the parse of its text. -/
theorem structuralEdit_installed (lease : env.editLease = .ok ()) (editable : session.Editable)
    {new_source : Text} {change : α} {result : β} {ast : List AstNode}
    (edited :
      edit session.source (env.parse session.source) session.spans = .ok (new_source, change))
    (links : env.resolveLinks (env.parse new_source).ast = .ok ast)
    (derived : derive new_source ⟨ast, (env.parse new_source).spans⟩ change = .ok result)
    (drafted : env.writeDraft new_source (session.edit_seq + 1) = .ok ()) :
    structuralEditWithResult env session edit derive =
      (.ok result, session.install new_source (env.parse new_source).spans ast) := by
  have attempted : attempt env session edit derive =
      .ok (new_source, ⟨ast, (env.parse new_source).spans⟩, result) := by
    unfold attempt
    rw [lease, editable.refuseWhileConflicted, edited]
    dsimp only [bind, Except.bind]
    rw [links]
    dsimp only
    rw [derived]
    rfl
  unfold structuralEditWithResult Session.drafted
  rw [attempted]
  dsimp only [Session.install]
  rw [drafted]

/-- What an edit that is made was made of. -/
theorem structuralEdit_ok {result : β}
    (done : (structuralEditWithResult env session edit derive).1 = .ok result) :
    session.Editable ∧ env.editLease = .ok () ∧ ∃ new_source change ast,
      edit session.source (env.parse session.source) session.spans = .ok (new_source, change) ∧
      env.resolveLinks (env.parse new_source).ast = .ok ast ∧
      derive new_source ⟨ast, (env.parse new_source).spans⟩ change = .ok result ∧
      structuralEditWithResult env session edit derive =
        (.ok result, session.install new_source (env.parse new_source).spans ast) := by
  unfold structuralEditWithResult at done ⊢
  cases attempted : attempt env session edit derive with
  | error error =>
    rw [attempted] at done
    cases done
  | ok attempt_ =>
    rw [attempted] at done
    unfold attempt at attempted
    rcases bind_eq_ok.mp attempted with ⟨_, lease, attempted⟩
    rcases bind_eq_ok.mp attempted with ⟨_, open_, attempted⟩
    rcases bind_eq_ok.mp attempted with ⟨⟨new_source, change⟩, edited, attempted⟩
    rcases bind_eq_ok.mp attempted with ⟨ast, links, attempted⟩
    rcases bind_eq_ok.mp attempted with ⟨result', derived, attempted⟩
    rw [← pure_eq_ok.mp attempted] at done ⊢
    dsimp only at done ⊢
    rcases Session.drafted_eq_ok done with ⟨same, drafted⟩
    rw [same] at derived drafted ⊢
    exact ⟨editable_of_not_refused open_, lease, new_source, change, ast, edited, links, derived,
      drafted⟩

/-- A structural edit leaves the map of the text that it leaves. -/
theorem structuralEdit_fresh {result : β}
    (done : (structuralEditWithResult env session edit derive).1 = .ok result) :
    (structuralEditWithResult env session edit derive).2.Fresh env := by
  rcases structuralEdit_ok done with ⟨editable, -, new_source, change, ast, -, -, -, left⟩
  rw [left]
  exact ⟨⟨editable.conflicted, editable.closed⟩, rfl⟩

end StructuralEdit

theorem commitBlock_fresh (done : (commitBlock env session).1 = .ok ()) :
    (commitBlock env session).2.Fresh env := by
  unfold commitBlock at done ⊢
  dsimp only [bind, Except.bind] at done ⊢
  cases refused : session.refuseWhileConflicted env "committing a Block".toList with
  | error error =>
    rw [refused] at done
    cases done
  | ok _ =>
    have editable := editable_of_not_refused refused
    rw [refused] at done
    dsimp only at done ⊢
    cases links : env.resolveLinks (env.parse session.source).ast with
    | error error =>
      rw [links] at done
      cases done
    | ok ast => exact ⟨⟨editable.conflicted, editable.closed⟩, rfl⟩

theorem rollback_install {source : Text} {spans : SpanMap} {ast : List AstNode} :
    (session.install source spans ast).rollback session = session := rfl

/-- An edit that fails leaves the session as it was. -/
theorem structuralEditWithResult_error {α β : Type} {edit : Edit α} {derive : Derivation α β}
    {error : AppError}
    (failed : (structuralEditWithResult env session edit derive).1 = .error error) :
    (structuralEditWithResult env session edit derive).2 = session := by
  unfold structuralEditWithResult at failed ⊢
  cases attempted : attempt env session edit derive with
  | error error => rfl
  | ok result =>
    rw [attempted] at failed
    unfold Session.drafted at failed ⊢
    dsimp only at failed ⊢
    cases drafted : env.writeDraft (session.install result.1 result.2.1.spans result.2.1.ast).source
        (session.install result.1 result.2.1.spans result.2.1.ast).edit_seq with
    | error error => exact rollback_install
    | ok written =>
      rw [drafted] at failed
      cases failed

end Burlmd.Editor
