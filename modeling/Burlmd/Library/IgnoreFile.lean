import Mathlib.Data.List.Infix
import Mathlib.Tactic.Common

/-!
# Ignore files

How Git reads one: each line a pattern, the last pattern that matches a path decides, and what is
in an ignored directory is ignored. Which paths a pattern matches is a parameter.
-/

namespace Burlmd.IgnoreFile

abbrev Text := List Char

/-- A path as its components. -/
abbrev Components := List Text

structure Pattern where
  negated : Bool
  glob : Text
  deriving DecidableEq, Repr

/-- A line without the spaces at its end, but for an escaped one. -/
def trimSpaces : Text → Text
  | [] => []
  | ['\\'] => ['\\']
  | '\\' :: c :: rest => '\\' :: c :: trimSpaces rest
  | c :: rest =>
      let kept := trimSpaces rest
      if c = ' ' ∧ kept = [] then [] else c :: kept

/-- A line without the carriage return before its newline. -/
def stripReturn (line : Text) : Text := if line.getLast? = some '\r' then line.dropLast else line

/-- The pattern of a line: none for an empty one and for a comment. -/
def Pattern.ofLine (line : Text) : Option Pattern :=
  match stripReturn line with
  | [] => none
  | '#' :: _ => none
  | '!' :: glob => some ⟨true, trimSpaces glob⟩
  | line => some ⟨false, trimSpaces line⟩

def byteOrderMark : Char := Char.ofNat 0xFEFF

def stripMark (contents : Text) : Text :=
  match contents with
  | [] => []
  | c :: rest => if c = byteOrderMark then rest else c :: rest

def patterns (contents : Text) : List Pattern :=
  ((stripMark contents).splitOn '\n').filterMap Pattern.ofLine

/-- Whether a pattern matches a path, which is one of a directory or not. -/
abbrev Matching := Text → Components → Bool → Bool

variable (matches_ : Matching)

/-- Whether the last pattern that matches a path excludes it. -/
def excludes (patterns : List Pattern) (path : Components) (isDir : Bool) : Bool :=
  match patterns.reverse.find? fun pattern => matches_ pattern.glob path isDir with
  | none => false
  | some pattern => !pattern.negated

/-- A path is ignored if it is excluded, or one of the directories it is in. -/
def Ignored (patterns : List Pattern) (path : Components) (isDir : Bool) : Prop :=
  ∃ front rest, path = front ++ rest ∧ front ≠ [] ∧
    excludes matches_ patterns front (rest ≠ [] || isDir) = true

/-- A line is read as a pattern, negated or not, that matches a path. -/
def Reads (negated : Bool) (line : Text) (path : Components) (isDir : Bool) : Prop :=
  ∃ glob, Pattern.ofLine line = some ⟨negated, glob⟩ ∧ matches_ glob path isDir = true

/-- Some line of a file is read as a pattern that matches a path, and none behind it as a negation
that does. -/
def Lists (contents : Text) (path : Components) (isDir : Bool) : Prop :=
  ∃ before line after, (stripMark contents).splitOn '\n' = before ++ line :: after ∧
    Reads matches_ false line path isDir ∧ ∀ later ∈ after, ¬ Reads matches_ true later path isDir

variable {matches_}

/-- The last pattern that matches is no negation exactly where some pattern that is none has no
matching negation behind it. -/
theorem excludes_iff {patterns : List Pattern} {path : Components} {isDir : Bool} :
    excludes matches_ patterns path isDir = true ↔
      ∃ before glob after, patterns = before ++ ⟨false, glob⟩ :: after ∧
        matches_ glob path isDir = true ∧
        ∀ later ∈ after, matches_ later.glob path isDir = true → later.negated = false := by
  unfold excludes
  constructor
  · intro excluded
    split at excluded
    · cases excluded
    · rename_i pattern found
      rcases List.find?_eq_some_iff_append.mp found with ⟨hit, behind, front, isReverse, misses⟩
      rcases pattern with ⟨negated, glob⟩
      rw [Bool.not_eq_true'] at excluded
      have isNegated : negated = false := excluded
      rw [isNegated] at isReverse
      refine ⟨front.reverse, glob, behind.reverse, ?_, hit, ?_⟩
      · rw [← List.reverse_reverse patterns, isReverse]
        simp
      · intro later inside matched
        have missed := misses later (List.mem_reverse.mp inside)
        rw [matched] at missed
        cases missed
  · intro listed
    rcases listed with ⟨before, glob, after, isPatterns, hit, positive⟩
    have isReverse : patterns.reverse = after.reverse ++ ⟨false, glob⟩ :: before.reverse := by
      rw [isPatterns]
      simp
    rw [isReverse, List.find?_append]
    cases found : after.reverse.find? fun pattern => matches_ pattern.glob path isDir with
    | none =>
      have first : (Pattern.mk false glob :: before.reverse).find?
          (fun pattern => matches_ pattern.glob path isDir) = some ⟨false, glob⟩ :=
        List.find?_cons_of_pos hit
      rw [Option.none_or, first]
      rfl
    | some pattern =>
      have inside := List.mem_reverse.mp (List.mem_of_find?_eq_some found)
      have matched := List.find?_some found
      rw [Option.some_or]
      dsimp only
      rw [positive pattern inside matched]
      rfl

/-- What the patterns of a file exclude is what its lines list. -/
theorem excludes_patterns_iff {contents : Text} {path : Components} {isDir : Bool} :
    excludes matches_ (patterns contents) path isDir = true ↔ Lists matches_ contents path isDir := by
  rw [excludes_iff]
  unfold patterns Lists
  constructor
  · intro listed
    rcases listed with ⟨before, glob, after, isPatterns, hit, positive⟩
    rcases List.filterMap_eq_append_iff.mp isPatterns with ⟨front, rest, isLines, -, isRest⟩
    rcases List.filterMap_eq_cons_iff.mp isRest with ⟨skipped, line, behind, isSplit, -, isLine, isAfter⟩
    refine ⟨front ++ skipped, line, behind, ?_, ⟨glob, isLine, hit⟩, ?_⟩
    · rw [isLines, isSplit, List.append_assoc]
    · intro later inside negation
      rcases negation with ⟨negated, isLater, matched⟩
      have isPattern : ⟨true, negated⟩ ∈ after := by
        rw [← isAfter]
        exact List.mem_filterMap.mpr ⟨later, inside, isLater⟩
      have wrong := positive _ isPattern matched
      cases wrong
  · intro listed
    rcases listed with ⟨before, line, after, isLines, ⟨glob, isLine, hit⟩, positive⟩
    refine ⟨before.filterMap Pattern.ofLine, glob, after.filterMap Pattern.ofLine, ?_, hit, ?_⟩
    · rw [isLines, List.filterMap_append, List.filterMap_cons, isLine]
    · intro later inside matched
      rcases List.mem_filterMap.mp inside with ⟨text, isText, isLater⟩
      rcases later with ⟨negated, other⟩
      cases negated with
      | false => rfl
      | true => exact absurd ⟨other, isLater, matched⟩ (positive text isText)

theorem excludes_append (first : List Pattern) (globs : List Text) (path : Components)
    (isDir : Bool) :
    excludes matches_ (first ++ globs.map (⟨false, ·⟩)) path isDir =
      (excludes matches_ first path isDir || globs.any fun glob => matches_ glob path isDir) := by
  unfold excludes
  rw [List.reverse_append, List.find?_append]
  cases found : (globs.map (Pattern.mk false)).reverse.find? fun pattern =>
      matches_ pattern.glob path isDir with
  | none =>
    have none_ : (globs.any fun glob => matches_ glob path isDir) = false := by
      rw [List.any_eq_false]
      intro glob mem hit
      have miss := List.find?_eq_none.mp found ⟨false, glob⟩
        (List.mem_reverse.mpr (List.mem_map.mpr ⟨glob, mem, rfl⟩))
      exact miss hit
    rw [Option.none_or, none_, Bool.or_false]
  | some pattern =>
    have isGlob := List.mem_reverse.mp (List.mem_of_find?_eq_some found)
    rcases List.mem_map.mp isGlob with ⟨glob, mem, same⟩
    have hit := List.find?_some found
    rw [← same] at hit
    have some_ : (globs.any fun glob => matches_ glob path isDir) = true :=
      List.any_eq_true.mpr ⟨glob, mem, hit⟩
    rw [Option.some_or, some_, Bool.or_true, ← same]
    rfl

/-- The lines behind a whole line are read on their own. -/
theorem patterns_append {front : Text} (rest : Text) (unmarked : front = [] → stripMark rest = rest) :
    patterns (if front = [] then rest else front ++ '\n' :: rest) =
      patterns front ++ (rest.splitOn '\n').filterMap Pattern.ofLine := by
  unfold patterns
  cases front with
  | nil =>
    rw [if_pos rfl, unmarked rfl]
    rfl
  | cons c others =>
    rw [if_neg (List.cons_ne_nil _ _)]
    by_cases marked : c = byteOrderMark
    · have whole : stripMark (c :: others ++ '\n' :: rest) = others ++ '\n' :: rest := if_pos marked
      have own : stripMark (c :: others) = others := if_pos marked
      rw [whole, own, List.splitOn_append_cons_self, List.filterMap_append]
    · have whole : stripMark (c :: others ++ '\n' :: rest) = c :: others ++ '\n' :: rest :=
        if_neg marked
      have own : stripMark (c :: others) = c :: others := if_neg marked
      rw [whole, own, List.splitOn_append_cons_self, List.filterMap_append]

end Burlmd.IgnoreFile
