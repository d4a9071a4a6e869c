import Mathlib.Data.List.Infix
import Mathlib.Data.List.TakeWhile
import Burlmd.Library.IgnoreFile
import Burlmd.Library.Lines
import Burlmd.Workspace.Scratch

/-!
# Keeping scratch files out of commits

The patterns are appended to the root ignore file of a Workspace, where no line reads like them.
The lines are compared without the blanks around them, which Git reads differently.
-/

namespace Burlmd.Git

open IgnoreFile (Matching Components Pattern Ignored patterns)
open Lines (splitInclusive)
open Markdown (trim isWhiteSpace)
open Okf (slash)
open Utf8 (Text)
open Workspace

/-- A line without the line ending that ends it. -/
def stripLineEnd (line : Text) : Text :=
  match line.dropSuffix? ['\n'] with
  | none => line
  | some line => (line.dropSuffix? ['\r']).getD line

def lines (text : Text) : List Text := (splitInclusive text).map stripLineEnd

/-- The lines of an ignore file, as they are compared with the patterns. -/
def present (contents : Text) : List Text := (lines contents).map trim

def missing (contents : Text) : List Text :=
  SCRATCH_IGNORE_PATTERNS.filter fun pattern => !(present contents).contains pattern

def scratchComment : Text := "# burlmd scratch files: never bundle content, and plaintext.\n".toList

/-- What is put between the contents and the patterns. -/
def seam (contents : Text) : Text :=
  (if contents ≠ [] ∧ ¬ ['\n'] <:+ contents then ['\n'] else []) ++
    (if contents ≠ [] then ['\n'] else [])

def extended (contents : Text) (missing : List Text) : Text :=
  contents ++ seam contents ++ scratchComment ++ missing.flatMap fun pattern => pattern ++ ['\n']

/-- What is at the place of the root ignore file. -/
inductive GitignoreFile where
  | absent
  | symlink
  | unreadable
  | bytes (contents : FileBytes)

def ensure_scratch_ignored (atomic_write : Text → Except AppError Unit) (file : GitignoreFile) :
    Except AppError Bool × GitignoreFile :=
  match file with
  | .symlink => (.ok false, file)
  | .unreadable => (.ok false, file)
  | .bytes (.binary _ _) => (.ok false, file)
  | .absent => publish []
  | .bytes (.text contents) => publish contents
where
  publish (contents : Text) : Except AppError Bool × GitignoreFile :=
    if missing contents = [] then (.ok false, file)
    else
      let out := extended contents (missing contents)
      match atomic_write out with
      | .error e => (.error e, file)
      | .ok () => (.ok true, .bytes (.text out))

/-! ## What the extension keeps and adds -/

theorem trim_concat {text : Text} {c : Char} (white : isWhiteSpace c = true) :
    trim (text ++ [c]) = trim text := by
  unfold trim
  congr 1
  by_cases blank : ∀ d ∈ text, isWhiteSpace d = true
  · have all : ∀ d ∈ text ++ [c], isWhiteSpace d = true := by
      intro d mem
      rcases List.mem_append.mp mem with left | right
      · exact blank d left
      · rw [List.mem_singleton.mp right]
        exact white
    rw [List.dropWhile_eq_nil_iff.2 all, List.dropWhile_eq_nil_iff.2 blank]
  · push Not at blank
    rcases blank with ⟨d, mem, visible⟩
    have kept : text.dropWhile isWhiteSpace ≠ [] := by
      intro none_
      exact visible (List.dropWhile_eq_nil_iff.mp none_ d mem)
    have later : (text ++ [c]).dropWhile isWhiteSpace = text.dropWhile isWhiteSpace ++ [c] := by
      rw [List.dropWhile_append]
      split
      · rename_i empty
        exact absurd (List.isEmpty_iff.mp empty) kept
      · rfl
    rw [later, List.reverse_append, List.reverse_singleton, List.singleton_append,
      List.dropWhile_cons_of_pos white]

theorem trim_stripLineEnd_newline (body : Text) : trim (stripLineEnd (body ++ ['\n'])) = trim body := by
  have isBody : (body ++ ['\n']).dropSuffix? ['\n'] = some body :=
    List.dropSuffix?_eq_some_iff.mpr ⟨['\n'], rfl, beq_self_eq_true _⟩
  unfold stripLineEnd
  rw [isBody]
  dsimp only
  cases found : body.dropSuffix? ['\r'] with
  | none => rfl
  | some front =>
    rcases List.dropSuffix?_eq_some_iff.mp found with ⟨return_, isReturn, same⟩
    rw [Option.getD_some, isReturn, eq_of_beq same]
    exact (trim_concat (by decide)).symm

theorem trim_stripLineEnd_plain {body : Text} (whole : '\n' ∉ body) : stripLineEnd body = body := by
  unfold stripLineEnd
  cases found : body.dropSuffix? ['\n'] with
  | none => rfl
  | some front =>
    rcases List.dropSuffix?_eq_some_iff.mp found with ⟨newline, isNewline, same⟩
    rw [isNewline, eq_of_beq same] at whole
    exact absurd (List.mem_append_right _ (List.mem_singleton_self _)) whole

/-- The lines are compared as if they were cut at each newline. -/
theorem mem_present_iff {pattern : Text} (some_ : pattern ≠ []) (contents : Text) :
    pattern ∈ present contents ↔ pattern ∈ (contents.splitOn '\n').map trim := by
  generalize isLength : contents.length = n
  induction n using Nat.strong_induction_on generalizing contents with
  | _ n ih =>
    by_cases newline : '\n' ∈ contents
    · rcases List.eq_append_cons_of_mem newline with ⟨body, rest, isContents, whole⟩
      have shorter : rest.length < n := by
        rw [← isLength, isContents, List.length_append, List.length_cons]
        omega
      have later := ih rest.length shorter rest rfl
      unfold present lines at later ⊢
      rw [isContents, Lines.splitInclusive_append whole, List.splitOn_append_cons_self,
        List.splitOn_eq_singleton whole, List.map_cons, List.map_cons, trim_stripLineEnd_newline,
        List.singleton_append, List.map_cons, List.mem_cons, List.mem_cons, later]
    · rw [List.splitOn_eq_singleton newline]
      rcases List.eq_nil_or_concat contents with none_ | ⟨front, c, isContents⟩
      · rw [none_]
        have blank : trim [] = [] := rfl
        simp [present, lines, splitInclusive, blank, some_]
      · rw [List.concat_eq_append] at isContents
        have whole : '\n' ∉ front := by
          intro mem
          rw [isContents] at newline
          exact newline (List.mem_append_left _ mem)
        unfold present lines
        rw [isContents, Lines.splitInclusive_whole whole, List.map_singleton, List.map_singleton,
          trim_stripLineEnd_plain (by rwa [isContents] at newline), List.map_singleton]

theorem mem_missing_iff {pattern contents : Text} :
    pattern ∈ missing contents ↔ pattern ∈ SCRATCH_IGNORE_PATTERNS ∧ pattern ∉ present contents := by
  unfold missing
  rw [List.mem_filter, Bool.not_eq_true', List.contains_eq_mem, decide_eq_false_iff_not]

theorem newline_not_mem {pattern : Text} (mem : pattern ∈ SCRATCH_IGNORE_PATTERNS) :
    pattern ≠ [] ∧ '\n' ∉ pattern ∧ trim pattern = pattern ∧
      Pattern.ofLine pattern = some ⟨false, pattern⟩ := by
  unfold SCRATCH_IGNORE_PATTERNS at mem
  rcases List.mem_pair.mp mem with same | same
  · rw [same]
    decide +kernel
  · rw [same]
    decide +kernel

/-- The extension as the contents and what is behind a newline. -/
theorem exists_extended (contents : Text) (added : List Text) : ∃ gap : Text,
    (gap = [] ∨ gap = ['\n']) ∧
    extended contents added =
      if contents = [] then gap ++ scratchComment ++ added.flatMap (· ++ ['\n'])
      else contents ++ '\n' :: (gap ++ scratchComment ++ added.flatMap (· ++ ['\n'])) := by
  unfold extended seam
  by_cases none_ : contents = []
  · refine ⟨[], Or.inl rfl, ?_⟩
    simp [none_]
  · by_cases ends : ['\n'] <:+ contents
    · refine ⟨[], Or.inl rfl, ?_⟩
      simp [none_, ends]
    · refine ⟨['\n'], Or.inr rfl, ?_⟩
      simp [none_, ends]

theorem splitOn_lines {added : List Text} (whole : ∀ line ∈ added, '\n' ∉ line) :
    (added.flatMap (· ++ ['\n'])).splitOn '\n' = added ++ [[]] := by
  induction added with
  | nil => rfl
  | cons line rest ih =>
    rw [List.flatMap_cons, List.append_assoc, List.singleton_append, List.splitOn_append_cons_self,
      List.splitOn_eq_singleton (whole line List.mem_cons_self),
      ih fun other mem => whole other (List.mem_cons_of_mem _ mem)]
    rfl

/-- The pieces behind the contents: the comment, the patterns, and nothing. -/
theorem splitOn_tail {gap : Text} (isGap : gap = [] ∨ gap = ['\n']) {added : List Text}
    (sub : added ⊆ SCRATCH_IGNORE_PATTERNS) :
    ∃ blanks comment, (∀ line ∈ blanks, line = []) ∧ Pattern.ofLine comment = none ∧
      (gap ++ scratchComment ++ added.flatMap (· ++ ['\n'])).splitOn '\n' =
        blanks ++ comment :: (added ++ [[]]) := by
  have whole : ∀ line ∈ added, '\n' ∉ line := fun line mem => (newline_not_mem (sub mem)).2.1
  have isComment : scratchComment =
      "# burlmd scratch files: never bundle content, and plaintext.".toList ++ ['\n'] := by
    decide +kernel
  have one : '\n' ∉ "# burlmd scratch files: never bundle content, and plaintext.".toList := by
    decide +kernel
  have behind : (scratchComment ++ added.flatMap (· ++ ['\n'])).splitOn '\n' =
      "# burlmd scratch files: never bundle content, and plaintext.".toList :: (added ++ [[]]) := by
    rw [isComment, List.append_assoc, List.singleton_append, List.splitOn_append_cons_self,
      List.splitOn_eq_singleton one, splitOn_lines whole]
    rfl
  rcases isGap with none_ | newline
  · refine ⟨[], "# burlmd scratch files: never bundle content, and plaintext.".toList,
      List.forall_mem_nil _, by decide +kernel, ?_⟩
    rw [none_, List.nil_append, behind]
    rfl
  · refine ⟨[[]], "# burlmd scratch files: never bundle content, and plaintext.".toList,
      List.forall_mem_singleton.mpr rfl, by decide +kernel, ?_⟩
    rw [newline, List.append_assoc, List.singleton_append, ← behind]
    exact List.splitOn_append_cons_self [] _

theorem missing_subset (contents : Text) : missing contents ⊆ SCRATCH_IGNORE_PATTERNS :=
  fun _ mem => (mem_missing_iff.mp mem).1

/-- Git reads the extension as the contents and then the patterns. -/
theorem patterns_extended (contents : Text) :
    patterns (extended contents (missing contents)) =
      patterns contents ++ (missing contents).map (⟨false, ·⟩) := by
  rcases exists_extended contents (missing contents) with ⟨gap, isGap, same⟩
  rcases splitOn_tail isGap (missing_subset contents) with ⟨blanks, comment, isBlank, skipped, split⟩
  have unmarked : contents = [] → IgnoreFile.stripMark
      (gap ++ scratchComment ++ (missing contents).flatMap (· ++ ['\n'])) =
        gap ++ scratchComment ++ (missing contents).flatMap (· ++ ['\n']) := by
    intro _
    rcases isGap with none_ | newline
    · rw [none_]
      rfl
    · rw [newline]
      rfl
  rw [same, IgnoreFile.patterns_append _ unmarked, split, List.filterMap_append,
    List.filterMap_cons, skipped, List.filterMap_append]
  have noBlanks : blanks.filterMap Pattern.ofLine = [] := by
    rw [List.filterMap_eq_nil_iff]
    intro line mem
    rw [isBlank line mem]
    rfl
  have own : (missing contents).filterMap Pattern.ofLine = (missing contents).map (⟨false, ·⟩) := by
    rw [← List.filterMap_eq_map]
    apply List.filterMap_congr
    intro line mem
    exact (newline_not_mem (missing_subset contents mem)).2.2.2
  rw [noBlanks, own]
  have last : [[]].filterMap Pattern.ofLine = [] := rfl
  rw [last, List.append_nil, List.nil_append]

/-- Nothing is missing from what was extended. -/
theorem missing_extended (contents : Text) : missing (extended contents (missing contents)) = [] := by
  rw [List.eq_nil_iff_forall_not_mem]
  intro pattern mem
  rcases mem_missing_iff.mp mem with ⟨isPattern, absent⟩
  rcases newline_not_mem isPattern with ⟨some_, -, trimmed, -⟩
  rw [mem_present_iff some_] at absent
  apply absent
  rcases exists_extended contents (missing contents) with ⟨gap, isGap, same⟩
  rcases splitOn_tail isGap (missing_subset contents) with ⟨blanks, comment, -, -, split⟩
  rw [same]
  by_cases before : pattern ∈ present contents
  · have some_contents : contents ≠ [] := by
      intro none_
      rw [none_, mem_present_iff some_] at before
      have blank : ([] : Text).splitOn '\n' = [[]] := rfl
      rw [blank, List.map_singleton, List.mem_singleton] at before
      exact some_ before
    rw [if_neg some_contents, List.splitOn_append_cons_self, List.map_append, List.mem_append]
    exact Or.inl ((mem_present_iff some_ contents).mp before)
  · have own : pattern ∈ blanks ++ comment :: (missing contents ++ [[]]) := by
      apply List.mem_append_right
      apply List.mem_cons_of_mem
      exact List.mem_append_left _ (mem_missing_iff.mpr ⟨isPattern, before⟩)
    rw [← split] at own
    have isTrimmed := List.mem_map.mpr ⟨pattern, own, trimmed⟩
    by_cases none_ : contents = []
    · rwa [if_pos none_]
    · rw [if_neg none_, List.splitOn_append_cons_self, List.map_append, List.mem_append]
      exact Or.inr isTrimmed

/-! ## What Git ignores -/

/-- Git's matching. A pattern without a slash is matched against the last component of a path, at
every level, and a star against any text. -/
structure GitMatching where
  matches_ : Matching
  trash : ∀ parents name isDir,
    matches_ ".burlmd-trash.*".toList (parents ++ [name]) isDir = true ↔ TRASH_PREFIX <+: name
  temp : ∀ parents name isDir,
    matches_ ".*.tmp".toList (parents ++ [name]) isDir = true ↔
      ∃ middle, name = '.' :: middle ++ tmpSuffix

variable (git : GitMatching)

/-- Every path whose last component is a scratch name is ignored. -/
def AllIgnored (contents : Text) : Prop :=
  ∀ parents name isDir, is_burlmd_scratch_name name = true →
    Ignored git.matches_ (patterns contents) (parents ++ [name]) isDir

/-- No line reads like a pattern once the blanks around it are gone. -/
def Unread (contents pattern : Text) : Prop :=
  ∀ line ∈ contents.splitOn '\n', trim line ≠ pattern

/-- Every scratch path, or a directory that it is in, is matched by one of the two patterns that no
line reads like, or by a line as Git reads it that no matching negation follows. -/
def LinesKeep (contents : Text) : Prop :=
  ∀ parents name isDir, is_burlmd_scratch_name name = true →
    ∃ front rest, parents ++ [name] = front ++ rest ∧ front ≠ [] ∧
      ((∃ pattern ∈ SCRATCH_IGNORE_PATTERNS, Unread contents pattern ∧
          git.matches_ pattern front (rest ≠ [] || isDir) = true) ∨
        IgnoreFile.Lists git.matches_ contents front (rest ≠ [] || isDir))

/-- Where a line reads like one of the two patterns, some line is that pattern for Git, too, and no
negation follows it. -/
def LinesRead (contents : Text) : Prop :=
  ∀ pattern ∈ SCRATCH_IGNORE_PATTERNS, Unread contents pattern ∨
    ∃ before line after, (IgnoreFile.stripMark contents).splitOn '\n' = before ++ line :: after ∧
      Pattern.ofLine line = some ⟨false, pattern⟩ ∧
      ∀ later ∈ after, ∀ glob, Pattern.ofLine later ≠ some ⟨true, glob⟩

/-- No line is a negation, and the patterns of the others match no scratch name. -/
def Silent (contents : Text) : Prop :=
  ∀ line ∈ (IgnoreFile.stripMark contents).splitOn '\n', ∀ pattern,
    Pattern.ofLine line = some pattern → pattern.negated = false ∧
      (pattern.glob ∈ SCRATCH_IGNORE_PATTERNS ∨ ∀ name isDir,
        is_burlmd_scratch_name name = true → git.matches_ pattern.glob [name] isDir = false)

def fileOf (existing : Option Text) : GitignoreFile :=
  match existing with
  | none => .absent
  | some contents => .bytes (.text contents)

def contentsOf (file : GitignoreFile) : Text :=
  match file with
  | .bytes (.text contents) => contents
  | _ => []

variable {git}

/-- One of the two patterns is for a name. -/
theorem exists_pattern {name : Text} (scratch : is_burlmd_scratch_name name = true)
    (parents : Components) (isDir : Bool) :
    ∃ pattern ∈ SCRATCH_IGNORE_PATTERNS, git.matches_ pattern (parents ++ [name]) isDir = true := by
  unfold is_burlmd_scratch_name at scratch
  split at scratch
  · rename_i starts
    refine ⟨_, List.mem_cons_self, ?_⟩
    exact (git.trash parents name isDir).mpr (List.isPrefixOf_iff_prefix.mp starts)
  · refine ⟨_, List.mem_cons_of_mem _ List.mem_cons_self, ?_⟩
    apply (git.temp parents name isDir).mpr
    split at scratch
    · cases scratch
    · rename_i rest found
      rcases Option.bind_eq_some_iff.mp found with ⟨behind, isBehind, isRest⟩
      rcases List.dropPrefix?_eq_some_iff.mp isBehind with ⟨dot, isName, same⟩
      rcases List.dropSuffix?_eq_some_iff.mp isRest with ⟨tmp, isBehind', same'⟩
      refine ⟨rest, ?_⟩
      rw [isName, isBehind', eq_of_beq same, eq_of_beq same']
      rfl

theorem unread_iff {contents pattern : Text} (isPattern : pattern ∈ SCRATCH_IGNORE_PATTERNS) :
    Unread contents pattern ↔ pattern ∈ missing contents := by
  rw [mem_missing_iff, mem_present_iff (newline_not_mem isPattern).1, List.mem_map]
  constructor
  · intro unread
    refine ⟨isPattern, ?_⟩
    intro read
    rcases read with ⟨line, inside, same⟩
    exact unread line inside same
  · intro missing_ line inside same
    exact missing_.2 ⟨line, inside, same⟩

/-- With the missing patterns behind its own, a file ignores the scratch paths exactly where its lines
keep them. -/
theorem allIgnored_iff {contents after : Text}
    (isAfter : patterns after = patterns contents ++ (missing contents).map (⟨false, ·⟩)) :
    AllIgnored git after ↔ LinesKeep git contents := by
  unfold AllIgnored LinesKeep
  rw [isAfter]
  constructor
  · intro all parents name isDir scratch
    rcases all parents name isDir scratch with ⟨front, rest, isPath, some_, excluded⟩
    refine ⟨front, rest, isPath, some_, ?_⟩
    rw [IgnoreFile.excludes_append, Bool.or_eq_true, IgnoreFile.excludes_patterns_iff,
      List.any_eq_true] at excluded
    rcases excluded with listed | ⟨pattern, isMissing, hit⟩
    · exact .inr listed
    · have isPattern := missing_subset contents isMissing
      exact .inl ⟨pattern, isPattern, (unread_iff isPattern).mpr isMissing, hit⟩
  · intro keep parents name isDir scratch
    rcases keep parents name isDir scratch with ⟨front, rest, isPath, some_, kept⟩
    refine ⟨front, rest, isPath, some_, ?_⟩
    rw [IgnoreFile.excludes_append, Bool.or_eq_true, IgnoreFile.excludes_patterns_iff,
      List.any_eq_true]
    rcases kept with ⟨pattern, isPattern, unread, hit⟩ | listed
    · exact .inr ⟨pattern, (unread_iff isPattern).mp unread, hit⟩
    · exact .inl listed

/-- Lines that are read as they look keep every scratch path. -/
theorem linesKeep_of_read {contents : Text} (read : LinesRead contents) : LinesKeep git contents := by
  intro parents name isDir scratch
  rcases @exists_pattern git _ scratch parents isDir with ⟨pattern, isPattern, hit⟩
  refine ⟨parents ++ [name], [], (List.append_nil _).symm, by simp, ?_⟩
  rcases read pattern isPattern with unread | ⟨before, line, after, isLines, isLine, positive⟩
  · exact .inl ⟨pattern, isPattern, unread, hit⟩
  · refine .inr ⟨before, line, after, isLines, ⟨pattern, isLine, hit⟩, ?_⟩
    intro later inside negation
    rcases negation with ⟨glob, isNegation, -⟩
    exact positive later inside glob isNegation

/-- Each of the two patterns is the only one for some name. -/
theorem exists_own {pattern : Text} (isPattern : pattern ∈ SCRATCH_IGNORE_PATTERNS) :
    ∃ name, is_burlmd_scratch_name name = true ∧ ∀ other ∈ SCRATCH_IGNORE_PATTERNS,
      git.matches_ other [name] false = true → other = pattern := by
  rcases List.mem_pair.mp isPattern with same | same
  · refine ⟨TRASH_PREFIX, by decide +kernel, ?_⟩
    intro other isOther hit
    rcases List.mem_pair.mp isOther with isTrash | isTemp
    · exact isTrash.trans same.symm
    · rw [isTemp] at hit
      rcases (git.temp [] TRASH_PREFIX false).mp hit with ⟨middle, isName⟩
      have ends : tmpSuffix <:+ TRASH_PREFIX := ⟨'.' :: middle, isName.symm⟩
      exact absurd ends (by decide +kernel)
  · refine ⟨".n.md.1.1.tmp".toList, by decide +kernel, ?_⟩
    intro other isOther hit
    rcases List.mem_pair.mp isOther with isTrash | isTemp
    · rw [isTrash] at hit
      have starts := (git.trash [] ".n.md.1.1.tmp".toList false).mp hit
      exact absurd starts (by decide +kernel)
    · exact isTemp.trans same.symm

/-- Where no other line speaks of scratch names, the two patterns have to be read as they look. -/
theorem linesRead_of_keep {contents : Text} (silent : Silent git contents)
    (keep : LinesKeep git contents) : LinesRead contents := by
  intro pattern isPattern
  rcases @exists_own git pattern isPattern with ⟨name, scratch, own⟩
  rcases keep [] name false scratch with ⟨front, rest, isPath, some_, kept⟩
  have alone : front = [name] ∧ rest = [] := by
    rcases List.append_eq_singleton_iff.mp isPath.symm with ⟨none_, -⟩ | both
    · exact absurd none_ some_
    · exact both
  rw [alone.1, alone.2] at kept
  rcases kept with ⟨other, isOther, unread, hit⟩ | ⟨before, line, after, isLines, reads, -⟩
  · rw [own other isOther hit] at unread
    exact .inl unread
  · rcases reads with ⟨glob, isLine, hit⟩
    have inside (later : Text) (isLater : later ∈ line :: after) :
        later ∈ (IgnoreFile.stripMark contents).splitOn '\n' := by
      rw [isLines]
      exact List.mem_append_right _ isLater
    rcases (silent line (inside line List.mem_cons_self) _ isLine).2 with isOther | misses
    · rw [own glob isOther hit] at isLine
      refine .inr ⟨before, line, after, isLines, isLine, ?_⟩
      intro later isLater negated isNegation
      have positive := (silent later (inside later (List.mem_cons_of_mem _ isLater)) _ isNegation).1
      cases positive
    · have missed := misses name false scratch
      exact absurd (hit.symm.trans missed) (by decide)

/-- What a run leaves: the contents themselves, or their extension. -/
theorem ensure_spec {atomic_write : Text → Except AppError Unit} {existing : Option Text}
    {changed : Bool}
    (isOk : (ensure_scratch_ignored atomic_write (fileOf existing)).1 = .ok changed) :
    (missing (existing.getD []) = [] ∧
      (ensure_scratch_ignored atomic_write (fileOf existing)).2 = fileOf existing) ∨
    (missing (existing.getD []) ≠ [] ∧
      (ensure_scratch_ignored atomic_write (fileOf existing)).2 =
        .bytes (.text (extended (existing.getD []) (missing (existing.getD []))))) := by
  have isPublish : ensure_scratch_ignored atomic_write (fileOf existing) =
      ensure_scratch_ignored.publish atomic_write (fileOf existing) (existing.getD []) := by
    cases existing <;> rfl
  rw [isPublish] at isOk ⊢
  unfold ensure_scratch_ignored.publish at isOk ⊢
  by_cases none_ : missing (existing.getD []) = []
  · rw [if_pos none_]
    exact Or.inl ⟨none_, rfl⟩
  · rw [if_neg none_] at isOk ⊢
    refine Or.inr ⟨none_, ?_⟩
    dsimp only at isOk ⊢
    cases written : atomic_write (extended (existing.getD []) (missing (existing.getD []))) with
    | error e =>
      rw [written] at isOk
      cases isOk
    | ok _ => rfl

/-- A file with nothing missing is left alone, whatever a write would do. -/
theorem ensure_of_present {file : GitignoreFile} {contents : Text}
    (isFile : file = .bytes (.text contents) ∨ file = .absent ∧ contents = [])
    (none_ : missing contents = []) (atomic_write : Text → Except AppError Unit) :
    ensure_scratch_ignored atomic_write file = (.ok false, file) := by
  rcases isFile with same | ⟨same, empty⟩
  · rw [same]
    exact if_pos none_
  · rw [same]
    rw [empty] at none_
    exact if_pos none_

/-- The generated names are known again, and no Note and no Directory has one. -/
structure NamesKnown : Prop where
  trash : ∀ file_name pid next,
    is_burlmd_scratch_name (trashName file_name pid next) = true ∧
      is_ignored_scratch_name (trashName file_name pid next) = true
  temp : ∀ file_name pid next,
    is_burlmd_scratch_name (tempName file_name pid next) = true ∧
      is_ignored_scratch_name (tempName file_name pid next) = true
  segment : ∀ host segment, Lifecycle.validateSegment host segment = .ok () → Unscratched segment
  title : ∀ host title, Lifecycle.validateTitle host title = .ok () → Unscratched title
  directory : ∀ host path directory, Lifecycle.normalizeDirectory host path = .ok directory →
    ∀ segment ∈ directory.splitOn slash, Unscratched segment
  notes : ∀ bundle, ∀ id ∈ (Index.walkBundle bundle).notes,
    ∀ segment ∈ id.splitOn slash, Unscratched segment
  directories : ∀ bundle, ∀ directory ∈ (Index.walkBundle bundle).directories,
    ∀ segment ∈ directory.splitOn slash, Unscratched segment

theorem namesKnown : NamesKnown where
  trash := is_scratch_trashName
  temp := is_scratch_tempName
  segment := fun _ _ valid => unscratched_of_validateSegment valid
  title := fun _ _ valid => unscratched_of_visible (Lifecycle.validateTitle_iff.mp valid).visible
  directory := fun _ _ _ valid => unscratched_of_normalizeDirectory valid
  notes := fun _ _ mem => unscratched_of_notes mem
  directories := fun _ _ mem => unscratched_of_directories mem

/-- The names are known, a run that succeeds keeps what was there and is not repeated, and every
scratch path is ignored afterwards exactly where the lines of the file keep them: where a line that
reads like one of the patterns is it for Git, too, and only there if no other line matters. -/
theorem scratch_unpublished_iff (git : GitMatching) :
    NamesKnown ∧
      ∀ atomic_write existing changed,
        (ensure_scratch_ignored atomic_write (fileOf existing)).1 = .ok changed →
          existing.getD [] <+:
              contentsOf (ensure_scratch_ignored atomic_write (fileOf existing)).2 ∧
            (∀ atomic_write', ensure_scratch_ignored atomic_write'
              (ensure_scratch_ignored atomic_write (fileOf existing)).2 =
                (.ok false, (ensure_scratch_ignored atomic_write (fileOf existing)).2)) ∧
            (AllIgnored git (contentsOf (ensure_scratch_ignored atomic_write (fileOf existing)).2) ↔
              LinesKeep git (existing.getD [])) ∧
            (LinesRead (existing.getD []) → LinesKeep git (existing.getD [])) ∧
            (Silent git (existing.getD []) → LinesKeep git (existing.getD []) →
              LinesRead (existing.getD [])) := by
  refine ⟨namesKnown, ?_⟩
  intro atomic_write existing changed isOk
  rcases ensure_spec isOk with ⟨none_, same⟩ | ⟨-, same⟩
  · have isContents : contentsOf (fileOf existing) = existing.getD [] := by
      cases existing <;> rfl
    rw [same, isContents]
    refine ⟨List.prefix_rfl, ?_, allIgnored_iff (by rw [none_, List.map_nil, List.append_nil]),
      linesKeep_of_read, linesRead_of_keep⟩
    apply ensure_of_present _ none_
    cases existing with
    | none => exact Or.inr ⟨rfl, rfl⟩
    | some contents => exact Or.inl rfl
  · rw [same]
    refine ⟨?_, ?_, allIgnored_iff (patterns_extended _), linesKeep_of_read, linesRead_of_keep⟩
    · unfold contentsOf extended
      dsimp only
      rw [List.append_assoc, List.append_assoc]
      exact List.prefix_append _ _
    · exact ensure_of_present (Or.inl rfl) (missing_extended _)

/-! ## A file with a blank before a pattern -/

/-- The match of a name with a pattern of plain characters and stars. -/
def glob : Text → Text → Bool
  | [], name => name = []
  | c :: rest, name =>
      if c = '*' then name.tails.any (glob rest)
      else
        match name with
        | [] => false
        | d :: others => c = d && glob rest others

theorem glob_literal {literal : Text} (plain : '*' ∉ literal) (name : Text) :
    glob literal name = true ↔ name = literal := by
  induction literal generalizing name with
  | nil => simp [glob]
  | cons c rest ih =>
    rw [List.mem_cons, not_or] at plain
    rw [glob.eq_def]
    dsimp only
    rw [if_neg (Ne.symm plain.1)]
    cases name with
    | nil => simp
    | cons d others =>
      have tail := ih plain.2 others
      simp only [Bool.and_eq_true, decide_eq_true_eq, tail, List.cons.injEq]
      exact and_congr_left fun _ => eq_comm

theorem glob_append {literal : Text} (plain : '*' ∉ literal) (pattern name : Text) :
    glob (literal ++ pattern) name = true ↔ ∃ rest, name = literal ++ rest ∧ glob pattern rest = true := by
  induction literal generalizing name with
  | nil => simp
  | cons c rest ih =>
    rw [List.mem_cons, not_or] at plain
    rw [List.cons_append, glob.eq_def]
    dsimp only
    rw [if_neg (Ne.symm plain.1)]
    cases name with
    | nil => simp
    | cons d others =>
      have tail := ih plain.2 others
      simp only [Bool.and_eq_true, decide_eq_true_eq, tail, List.cons_append, List.cons.injEq]
      constructor
      · rintro ⟨same, later, isOthers, hit⟩
        exact ⟨later, ⟨same.symm, isOthers⟩, hit⟩
      · rintro ⟨later, ⟨same, isOthers⟩, hit⟩
        exact ⟨same.symm, later, isOthers, hit⟩

theorem glob_star (pattern name : Text) :
    glob ('*' :: pattern) name = true ↔ ∃ front rest, name = front ++ rest ∧ glob pattern rest = true := by
  rw [glob.eq_def]
  dsimp only
  rw [if_pos rfl, List.any_eq_true]
  constructor
  · rintro ⟨rest, mem, hit⟩
    rcases (List.mem_tails _ _).mp mem with ⟨front, same⟩
    exact ⟨front, rest, same.symm, hit⟩
  · rintro ⟨front, rest, same, hit⟩
    refine ⟨rest, (List.mem_tails _ _).mpr ?_, hit⟩
    rw [same]
    exact List.suffix_append _ _

def globMatching : GitMatching where
  matches_ := fun pattern path _ => glob pattern (path.getLastD [])
  trash := by
    intro parents name isDir
    have split : ".burlmd-trash.*".toList = TRASH_PREFIX ++ ['*'] := by decide +kernel
    rw [List.getLastD_concat, split, glob_append (by decide +kernel)]
    constructor
    · rintro ⟨rest, same, -⟩
      exact ⟨rest, same.symm⟩
    · rintro ⟨rest, same⟩
      refine ⟨rest, same.symm, (glob_star [] rest).mpr ⟨rest, [], (List.append_nil _).symm, ?_⟩⟩
      rfl
  temp := by
    intro parents name isDir
    have split : ".*.tmp".toList = ['.'] ++ '*' :: tmpSuffix := by decide +kernel
    rw [List.getLastD_concat, split, glob_append (by decide)]
    constructor
    · rintro ⟨rest, same, hit⟩
      rcases (glob_star _ _).mp hit with ⟨middle, last, isRest, isLast⟩
      rw [glob_literal (by decide +kernel)] at isLast
      exact ⟨middle, by rw [same, isRest, isLast]; exact rfl⟩
    · rintro ⟨middle, same⟩
      refine ⟨middle ++ tmpSuffix, same, (glob_star _ _).mpr ⟨middle, tmpSuffix, rfl, ?_⟩⟩
      exact (glob_literal (by decide +kernel) _).mpr rfl

/-- One pattern with a space behind it, and a pattern of the user's. -/
def logsFile : Text := ".*.tmp \n*.log\n".toList

theorem logsFile_read : LinesRead logsFile := by
  intro pattern isPattern
  rcases List.mem_pair.mp isPattern with same | same
  · rw [same]
    left
    unfold Unread
    decide +kernel
  · rw [same]
    exact .inr ⟨[], ".*.tmp ".toList, ["*.log".toList, []], by decide +kernel, by decide +kernel,
      fun later inside glob => by
        rcases List.mem_pair.mp inside with same | same
        · rw [same]
          have isLine : Pattern.ofLine "*.log".toList = some ⟨false, "*.log".toList⟩ := by
            decide +kernel
          rw [isLine]
          simp
        · rw [same]
          simp [Pattern.ofLine, IgnoreFile.stripReturn]⟩

theorem logsFile_ignores :
    AllIgnored globMatching
      (contentsOf (ensure_scratch_ignored (fun _ => .ok ()) (fileOf (some logsFile))).2) := by
  have isOk : (ensure_scratch_ignored (fun _ => .ok ()) (fileOf (some logsFile))).1 = .ok true := by
    decide +kernel
  have run := (scratch_unpublished_iff globMatching).2 (fun _ => .ok ()) (some logsFile) true isOk
  exact run.2.2.1.mpr (run.2.2.2.1 logsFile_read)

def blankFile : Text := " .*.tmp\n.burlmd-trash.*\n".toList

/-- A temporary of the Note `n`. -/
def temporary : Text := ".n.md.1.1.tmp".toList

theorem blankFile_publishes :
    (ensure_scratch_ignored (fun _ => .ok ()) (fileOf (some blankFile))).1 = .ok false ∧
      contentsOf (ensure_scratch_ignored (fun _ => .ok ()) (fileOf (some blankFile))).2 = blankFile ∧
      is_burlmd_scratch_name temporary = true ∧
      ¬ Ignored globMatching.matches_ (patterns blankFile) [temporary] false := by
  refine ⟨by decide +kernel, by decide +kernel, by decide +kernel, ?_⟩
  rintro ⟨front, rest, isPath, some_, excluded⟩
  have alone : front = [temporary] ∧ rest = [] := by
    rcases List.append_eq_singleton_iff.mp isPath.symm with ⟨none_, -⟩ | both
    · exact absurd none_ some_
    · exact both
  rw [alone.1, alone.2] at excluded
  revert excluded
  decide +kernel

end Burlmd.Git
