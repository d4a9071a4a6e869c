import Mathlib.Data.List.Basic
import Mathlib.Tactic.Common
import Burlmd.Library.CommonMark

/-!
# Runs of markers

Backticks, asterisks, underscores and tildes count in runs: a text is cut into the longest
runs of these and the characters between them.
-/

namespace Burlmd.CommonMark

open Utf8 (Text)

def tick : Char := Char.ofNat 96

/-- What marks emphasis or strikethrough. -/
inductive Marker where
  | asterisk
  | underscore
  | tilde
  deriving DecidableEq, Repr

def Marker.char : Marker → Char
  | asterisk => '*'
  | underscore => '_'
  | tilde => '~'

def Marker.of? (c : Char) : Option Marker :=
  if c = '*' then some asterisk
  else if c = '_' then some underscore
  else if c = '~' then some tilde
  else none

theorem Marker.char_of? {c : Char} {marker : Marker} (isMarker : Marker.of? c = some marker) :
    marker.char = c := by
  unfold Marker.of? at isMarker
  split at isMarker
  · rename_i same
    cases isMarker
    exact same.symm
  · split at isMarker
    · rename_i same
      cases isMarker
      exact same.symm
    · split at isMarker
      · rename_i same
        cases isMarker
        exact same.symm
      · cases isMarker

def isRun (c : Char) : Bool := c = tick || (Marker.of? c).isSome

/-- A character of its own, or a run: one character and `more` of the same behind it. -/
inductive Chunk where
  | char (c : Char)
  | run (c : Char) (more : Nat)
  deriving DecidableEq, Repr

namespace Chunk

def text : Chunk → Text
  | char c => [c]
  | run c more => c :: List.replicate more c

def single (c : Char) : Chunk := if isRun c then run c 0 else char c

/-- Puts a character in front, into the run that starts there. -/
def attach (c : Char) : List Chunk → List Chunk
  | run d more :: rest => if c = d then run d (more + 1) :: rest else single c :: run d more :: rest
  | rest => single c :: rest

@[simp] theorem attach_run_self (c : Char) (more : Nat) (rest : List Chunk) :
    attach c (run c more :: rest) = run c (more + 1) :: rest :=
  if_pos rfl

theorem attach_run {c d : Char} (other : c ≠ d) (more : Nat) (rest : List Chunk) :
    attach c (run d more :: rest) = single c :: run d more :: rest :=
  if_neg other

theorem text_single (c : Char) : (single c).text = [c] := by
  unfold single
  split <;> rfl

theorem attach_text (c : Char) (chunks : List Chunk) :
    (attach c chunks).flatMap text = c :: chunks.flatMap text := by
  unfold attach
  split
  · rename_i d more rest
    split
    · rename_i same
      simp [text, same, List.replicate_succ]
    · simp [text_single]
  · simp [text_single]

/-- What a chunk starts with. -/
def head : Chunk → Char
  | char c => c
  | run c _ => c

/-- A run is of a character that counts in runs, any other chunk is not. -/
def Whole : Chunk → Prop
  | char c => isRun c = false
  | run c _ => isRun c = true

end Chunk

open Chunk

/-- The chunks of a text. -/
def chunks (text : Text) : List Chunk := text.foldr attach []

theorem chunks_cons (c : Char) (rest : Text) : chunks (c :: rest) = attach c (chunks rest) :=
  rfl

theorem text_chunks (text : Text) : (chunks text).flatMap Chunk.text = text := by
  induction text with
  | nil => rfl
  | cons c rest ih => rw [chunks_cons, attach_text, ih]

/-- Every run is as long as it can be. -/
def WellCut : List Chunk → Prop
  | [] => True
  | first :: rest =>
      first.Whole ∧ (∀ c more, first = run c more → ∀ second ∈ rest.head?, second.head ≠ c) ∧
        WellCut rest

theorem whole_single (c : Char) : (single c).Whole := by
  unfold single
  split
  · rename_i isRun
    exact isRun
  · rename_i plain
    simpa [Whole] using plain

theorem wellCut_attach {c : Char} {list : List Chunk} (wellCut : WellCut list) :
    WellCut (attach c list) := by
  cases list with
  | nil => exact ⟨whole_single c, by simp, trivial⟩
  | cons first rest =>
    cases first with
    | char d =>
      refine ⟨whole_single c, ?_, wellCut⟩
      intro e more isSingle second mem same
      have plain : isRun d = false := wellCut.1
      cases Option.some.inj mem
      have counts := whole_single c
      rw [isSingle] at counts
      rw [Whole, ← same, head, plain] at counts
      cases counts
    | run d more =>
      by_cases same : c = d
      · rw [same, attach_run_self]
        refine ⟨wellCut.1, ?_, wellCut.2.2⟩
        intro e others isRun second mem
        cases isRun
        exact wellCut.2.1 _ _ rfl second mem
      · rename' same => other
        rw [attach_run other]
        refine ⟨whole_single c, ?_, wellCut⟩
        intro e others isSingle second mem same
        cases Option.some.inj mem
        have text := text_single c
        rw [isSingle] at text
        exact other ((List.cons.inj text).1.symm.trans same.symm)

theorem wellCut_chunks (text : Text) : WellCut (chunks text) := by
  induction text with
  | nil => exact trivial
  | cons c rest ih => exact wellCut_attach ih

theorem attach_of_not_run {c : Char} (plain : isRun c = false) (text : Text) :
    attach c (chunks text) = char c :: chunks text := by
  have one : single c = char c := if_neg (by simp [plain])
  cases cut : chunks text with
  | nil => exact congrArg (fun chunk => [chunk]) one
  | cons first rest =>
    cases first with
    | char d => exact congrArg (fun chunk => chunk :: char d :: rest) one
    | run d more =>
      have counts : isRun d = true := by
        have wellCut := wellCut_chunks text
        rw [cut] at wellCut
        exact wellCut.1
      have other : c ≠ d := by
        intro same
        rw [same, counts] at plain
        cases plain
      rw [attach_run other, one]

theorem chunks_cons_of_not_run {c : Char} (plain : isRun c = false) (rest : Text) :
    chunks (c :: rest) = char c :: chunks rest :=
  attach_of_not_run plain rest

/-- A text that starts with no run may be cut off. -/
theorem chunks_append {first second : Text} (boundary : ∀ c ∈ second.head?, isRun c = false) :
    chunks (first ++ second) = chunks first ++ chunks second := by
  have closed : second = [] ∨ ∃ c rest, chunks second = char c :: rest := by
    cases second with
    | nil => exact Or.inl rfl
    | cons c rest =>
      exact Or.inr ⟨c, _, chunks_cons_of_not_run (boundary c rfl) rest⟩
  rcases closed with none_ | ⟨d, others, isSecond⟩
  · rw [none_, List.append_nil]
    exact (List.append_nil _).symm
  · rw [isSecond]
    induction first with
    | nil => exact isSecond
    | cons c rest ih =>
      rw [List.cons_append, chunks_cons, ih, chunks_cons]
      cases chunks rest with
      | nil => rfl
      | cons first list =>
        cases first with
        | char e => rfl
        | run e more =>
          rw [List.cons_append]
          by_cases same : c = e
          · rw [same, attach_run_self, attach_run_self]
            rfl
          · rw [attach_run same, attach_run same]
            rfl

/-- There is one way to cut a text well. -/
theorem chunks_of_wellCut {list : List Chunk} (wellCut : WellCut list) :
    chunks (list.flatMap Chunk.text) = list := by
  induction list with
  | nil => rfl
  | cons first rest ih =>
    have cut := ih wellCut.2.2
    rw [List.flatMap_cons]
    cases first with
    | char c =>
      have plain : isRun c = false := wellCut.1
      rw [Chunk.text, List.singleton_append, chunks_cons_of_not_run plain, cut]
    | run c more =>
      have counts : isRun c = true := wellCut.1
      have starts : attach c rest = run c 0 :: rest := by
        have one : single c = run c 0 := if_pos counts
        cases rest with
        | nil => exact congrArg (fun chunk => [chunk]) one
        | cons second others =>
          have other := wellCut.2.1 c more rfl second rfl
          cases second with
          | char d => exact congrArg (fun chunk => chunk :: char d :: others) one
          | run d more =>
            have apart : c ≠ d := Ne.symm other
            rw [attach_run apart, one]
      rw [Chunk.text, List.cons_append, chunks_cons]
      clear wellCut ih
      induction more with
      | zero => rw [List.replicate_zero, List.nil_append, cut, starts]
      | succ more ih =>
        rw [List.replicate_succ, List.cons_append, chunks_cons, ih, attach_run_self]

/-! ## Runs of backticks -/

/-- How long the runs of backticks are. -/
def ticks (list : List Chunk) : List Nat :=
  list.filterMap fun
    | run c more => if c = tick then some (more + 1) else none
    | char _ => none

/-- How many characters stand before the first run of `length` backticks. -/
def before? (length : Nat) : List Chunk → Option Nat
  | [] => none
  | first :: rest =>
      if first = run tick (length - 1) then some 0
      else (before? length rest).map (first.text.length + ·)

theorem before?_isSome_iff {length : Nat} (some_ : length ≠ 0) {list : List Chunk} :
    (before? length list).isSome ↔ length ∈ ticks list := by
  induction list with
  | nil => simp [before?, ticks]
  | cons first rest ih =>
    have own : length ∈ ticks (first :: rest) ↔ first = run tick (length - 1) ∨ length ∈ ticks rest := by
      cases first with
      | char c => simp [ticks]
      | run c more =>
        by_cases same : c = tick
        · have count : length = more + 1 ↔ more = length - 1 := by omega
          simp [ticks, same, count]
        · simp [ticks, same]
    rw [own, before?]
    split
    · rename_i same
      simp [same]
    · rename_i other
      simp [other, ih]

theorem ticks_append (first second : List Chunk) :
    ticks (first ++ second) = ticks first ++ ticks second :=
  List.filterMap_append

theorem ticks_cons_of_not_run {c : Char} (plain : isRun c = false) (rest : Text) :
    ticks (chunks (c :: rest)) = ticks (chunks rest) := by
  rw [chunks_cons_of_not_run plain]
  rfl

theorem before?_append {length : Nat} (some_ : length ≠ 0) {first : List Chunk}
    (none_ : length ∉ ticks first) (second : List Chunk) :
    before? length (first ++ second) =
      (before? length second).map ((first.flatMap Chunk.text).length + ·) := by
  induction first with
  | nil => simp
  | cons chunk rest ih =>
    have later : length ∉ ticks rest := by
      intro mem
      apply none_
      have whole := ticks_append [chunk] rest
      rw [List.singleton_append] at whole
      rw [whole]
      exact List.mem_append_right _ mem
    have other : chunk ≠ run tick (length - 1) := by
      intro same
      apply none_
      rw [same, show length = length - 1 + 1 by omega]
      simp [ticks]
    rw [List.cons_append, before?, if_neg other, ih later, Option.map_map]
    congr 1
    funext n
    simp [Nat.add_assoc]

theorem mem_ticks_singleton {more : Nat} {chunk : Chunk} :
    more + 1 ∈ ticks [chunk] ↔ chunk = run tick more := by
  cases chunk with
  | char c => simp [ticks]
  | run c count =>
    by_cases isTick : c = tick
    · simp [ticks, isTick, eq_comm]
    · simp [ticks, isTick]

/-- The list up to the first run of its length. -/
theorem exists_first {more : Nat} {list : List Chunk} (mem : more + 1 ∈ ticks list) :
    ∃ first second, list = first ++ run tick more :: second ∧ more + 1 ∉ ticks first := by
  induction list with
  | nil => cases mem
  | cons chunk rest ih =>
    have whole (others : List Chunk) : more + 1 ∈ ticks (chunk :: others) ↔
        chunk = run tick more ∨ more + 1 ∈ ticks others := by
      rw [← List.singleton_append, ticks_append, List.mem_append, mem_ticks_singleton]
    by_cases same : chunk = run tick more
    · exact ⟨[], rest, by rw [same]; exact rfl, List.not_mem_nil⟩
    · rcases ih (((whole rest).mp mem).resolve_left same) with ⟨first, second, split, none_⟩
      refine ⟨chunk :: first, second, by rw [split]; exact rfl, ?_⟩
      rw [whole first, not_or]
      exact ⟨same, none_⟩

end Burlmd.CommonMark
