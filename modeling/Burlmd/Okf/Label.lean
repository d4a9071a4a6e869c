import Burlmd.Library.Reading
import Burlmd.Okf.Classify
import Burlmd.Okf.Serialize

/-!
# What a serialized link reads as

The label escapes brackets, angle brackets, ampersands and backslashes, and neither backticks
nor the markers of emphasis. So the label is its title where no run of backticks is closed, in
the label or in the destination behind it, and no two runs of markers pair.
-/

namespace Burlmd.Okf

open Utf8 (Text)
open CommonMark

def isLabelSpecial (c : Char) : Bool := c ∈ ['\\', '[', ']', '<', '>', '&']

def isDestinationSpecial (c : Char) : Bool := c ∈ ['\\', '<', '>', '&']

theorem escapeLinkText_eq (text : Text) : escapeLinkText text = escape isLabelSpecial text :=
  rfl

theorem escapeDestination_eq (text : Text) : escapeDestination text = escape isDestinationSpecial text :=
  rfl

theorem not_run_of_label {c : Char} (marked : isLabelSpecial c = true) : isRun c = false := by
  simp only [isLabelSpecial, List.mem_cons, List.not_mem_nil, or_false, decide_eq_true_eq] at marked
  rcases marked with same | same | same | same | same | same <;> subst same <;> decide

theorem not_run_of_destination {c : Char} (marked : isDestinationSpecial c = true) :
    isRun c = false := by
  simp only [isDestinationSpecial, List.mem_cons, List.not_mem_nil, or_false,
    decide_eq_true_eq] at marked
  rcases marked with same | same | same | same <;> subst same <;> decide

theorem punctuation_of_label {c : Char} (marked : isLabelSpecial c = true) :
    isAsciiPunctuation c = true := by
  simp only [isLabelSpecial, List.mem_cons, List.not_mem_nil, or_false, decide_eq_true_eq] at marked
  rcases marked with same | same | same | same | same | same <;> subst same <;> decide

/-! ## Escapes and runs -/

section Escape

variable {special : Char → Bool}

def escapeChunk (special : Char → Bool) : Chunk → List Chunk
  | .char c => if special c then [.char '\\', .char c] else [.char c]
  | .run c more => [.run c more]

theorem escapeChunk_marked {c : Char} (marked : special c = true) :
    escapeChunk special (.char c) = [.char '\\', .char c] :=
  if_pos marked

theorem escapeChunk_plain {c : Char} (plain : ¬ special c = true) :
    escapeChunk special (.char c) = [.char c] :=
  if_neg plain

theorem escape_append (first second : Text) :
    escape special (first ++ second) = escape special first ++ escape special second :=
  List.flatMap_append

theorem escape_run {c : Char} (plain : special c = false) (more : Nat) :
    escape special (c :: List.replicate more c) = c :: List.replicate more c := by
  have one : escape special [c] = [c] := by simp [escape, plain]
  induction more with
  | zero => exact one
  | succ more ih =>
    rw [List.replicate_succ, escape_cons, ih, if_neg (by simp [plain])]
    rfl

theorem wellCut_escape {list : List Chunk} (wellCut : WellCut list) :
    WellCut (list.flatMap (escapeChunk special)) := by
  have backslash : isRun '\\' = false := by decide
  induction list with
  | nil => exact trivial
  | cons first rest ih =>
    have later := ih wellCut.2.2
    rw [List.flatMap_cons]
    cases first with
    | char c =>
      have plain : isRun c = false := wellCut.1
      have one : WellCut (.char c :: rest.flatMap (escapeChunk special)) := by
        refine ⟨plain, ?_, later⟩
        intro d more same
        cases same
      by_cases marked : special c = true
      · rw [escapeChunk_marked marked]
        refine ⟨backslash, ?_, one⟩
        intro d more same
        cases same
      · rw [escapeChunk_plain marked]
        exact one
    | run c more =>
      have counts : isRun c = true := wellCut.1
      refine ⟨counts, ?_, later⟩
      intro d others same second mem
      cases same
      cases rest with
      | nil => cases mem
      | cons next tail =>
        rw [List.flatMap_cons] at mem
        have own := wellCut.2.1 c more rfl next rfl
        cases next with
        | char e =>
          by_cases marked : special e = true
          · rw [escapeChunk_marked marked] at mem
            cases Option.some.inj mem
            intro isBackslash
            rw [← isBackslash] at counts
            cases backslash.symm.trans counts
          · rw [escapeChunk_plain marked] at mem
            cases Option.some.inj mem
            exact own
        | run e count =>
          cases Option.some.inj mem
          exact own

variable (silent : ∀ c, special c = true → isRun c = false)

include silent

theorem text_escape {list : List Chunk} (wellCut : WellCut list) :
    (list.flatMap (escapeChunk special)).flatMap Chunk.text = escape special (list.flatMap Chunk.text) := by
  induction list with
  | nil => rfl
  | cons first rest ih =>
    rw [List.flatMap_cons, List.flatMap_append, ih wellCut.2.2, List.flatMap_cons, escape_append]
    congr 1
    cases first with
    | char c =>
      by_cases marked : special c = true
      · simp [escapeChunk_marked marked, Chunk.text, escape, marked]
      · simp [escapeChunk_plain marked, Chunk.text, escape, marked]
    | run c more =>
      have counts : isRun c = true := wellCut.1
      have plain : special c = false := by
        by_contra marked
        rw [silent c (by simpa using marked)] at counts
        cases counts
      rw [Chunk.text, escape_run plain]
      simp [escapeChunk, Chunk.text]

theorem chunks_escape (text : Text) :
    chunks (escape special text) = (chunks text).flatMap (escapeChunk special) := by
  have cut := chunks_of_wellCut (@wellCut_escape special _ (wellCut_chunks text))
  rw [text_escape silent (wellCut_chunks text), text_chunks] at cut
  exact cut

theorem ticks_escape (text : Text) : ticks (chunks (escape special text)) = ticks (chunks text) := by
  rw [chunks_escape silent]
  induction chunks text with
  | nil => rfl
  | cons first rest ih =>
    have split := ticks_append [first] rest
    rw [List.singleton_append] at split
    rw [List.flatMap_cons, ticks_append, ih, split]
    congr 1
    cases first with
    | char c =>
      by_cases marked : special c = true
      · rw [escapeChunk_marked marked]
        rfl
      · rw [escapeChunk_plain marked]
    | run c more => rfl

end Escape

/-! ## The label -/

/-- What stands behind a run in a label whose title goes on with `rest`. -/
def labelNext (rest : Text) : Option Char := (escapeLinkText rest ++ [']']).head?

/-- The items of a label in which every run of backticks stays open. -/
def labelItems (rules : Rules) : Option Char → List Chunk → List Item
  | _, [] => []
  | _, .char c :: rest => .plain [c] :: labelItems rules (some c) rest
  | previous, .run c more :: rest =>
      (match Marker.of? c with
        | some marker =>
            .run (rules.flanked marker (more + 1) previous (labelNext (rest.flatMap Chunk.text)))
        | none => .plain (List.replicate (more + 1) c)) :: labelItems rules (some c) rest

/-- No run of backticks is closed, in the list or in the text behind it. -/
def StaysOpen (list : List Chunk) (behind : Text) : Prop :=
  (ticks list).Nodup ∧ ∀ n ∈ ticks list, n ∉ ticks (chunks behind)

instance (list : List Chunk) (behind : Text) : Decidable (StaysOpen list behind) :=
  inferInstanceAs (Decidable (_ ∧ _))

theorem head?_label (rest tail : Text) :
    (escapeLinkText rest ++ ']' :: tail).head? = labelNext rest := by
  unfold labelNext
  cases escapeLinkText rest <;> rfl

theorem head?_escape_append {special : Char → Bool} (c : Char) (rest tail : Text) :
    (escape special (c :: rest) ++ tail).head? = some (if special c then '\\' else c) := by
  rw [escape_cons]
  split <;> rfl

theorem labelNext_ne_bracket (rest : Text) : labelNext rest ≠ some '[' := by
  unfold labelNext
  cases rest with
  | nil => decide
  | cons c others =>
    rw [escapeLinkText_eq, head?_escape_append]
    intro same
    split at same
    · exact absurd same (by decide)
    · rename_i plain
      rw [Option.some.inj same] at plain
      exact plain (by decide)

theorem labelNext_ne_run {c : Char} {more : Nat} {rest : List Chunk}
    (wellCut : WellCut (.run c more :: rest)) : labelNext (rest.flatMap Chunk.text) ≠ some c := by
  have counts : isRun c = true := wellCut.1
  unfold labelNext
  cases rest with
  | nil =>
    intro same
    rw [← Option.some.inj same] at counts
    revert counts
    decide
  | cons second others =>
    have other := wellCut.2.1 c more rfl second rfl
    have starts : ∃ tail, (second :: others).flatMap Chunk.text = second.head :: tail := by
      cases second with
      | char d => exact ⟨_, rfl⟩
      | run d count => exact ⟨_, rfl⟩
    rcases starts with ⟨tail, isText⟩
    rw [isText, escapeLinkText_eq, head?_escape_append]
    intro same
    split at same
    · rw [← Option.some.inj same] at counts
      revert counts
      decide
    · exact other (Option.some.inj same)

theorem ticks_label (rest tail : Text) :
    ticks (chunks (escapeLinkText rest ++ ']' :: tail)) = ticks (chunks rest) ++ ticks (chunks tail) := by
  have close : isRun ']' = false := by decide
  rw [chunks_append (by simpa using close), ticks_append, escapeLinkText_eq,
    ticks_escape (fun _ => not_run_of_label), ticks_cons_of_not_run close]

theorem isOrdinary_of_label {c : Char} (plain : isRun c = false) (unmarked : ¬ isLabelSpecial c = true)
    (quiet : c ≠ '!') : isOrdinary c = true := by
  simp only [isLabelSpecial, List.mem_cons, List.not_mem_nil, or_false, decide_eq_true_eq,
    not_or] at unmarked
  simp [isOrdinary, plain, quiet, unmarked]

section Scan

variable {rules : Rules}

/-- One character of the title, with its escape if it has any. -/
theorem scan_label_char {c : Char} (plain : isRun c = false) (previous : Option Char)
    (stack : List Item) (rest tail : Text) :
    rules.scan 0 previous stack (escapeLinkText (c :: rest) ++ ']' :: tail) =
      rules.scan 0 (some c) (.plain [c] :: stack) (escapeLinkText rest ++ ']' :: tail) := by
  rw [escapeLinkText_eq, escape_cons, List.append_assoc, ← escapeLinkText_eq]
  by_cases marked : isLabelSpecial c = true
  · rw [if_pos marked]
    exact Rules.scan_escape (punctuation_of_label marked) _
  · rw [if_neg marked, List.singleton_append]
    by_cases bang : c = '!'
    · rw [bang]
      apply Rules.scan_bang
      rw [head?_label]
      exact labelNext_ne_bracket rest
    · exact Rules.scan_ordinary (isOrdinary_of_label plain marked bang) _

theorem escape_label_run {c : Char} (counts : isRun c = true) (more : Nat) (rest : Text) :
    escapeLinkText (c :: List.replicate more c ++ rest) =
      c :: (List.replicate more c ++ escapeLinkText rest) := by
  have plain : isLabelSpecial c = false := by
    by_contra marked
    rw [not_run_of_label (by simpa using marked)] at counts
    cases counts
  rw [escapeLinkText_eq, escape_append, escape_run plain]
  rfl

/-- A label in which every run of backticks stays open. -/
theorem scan_label_open {list : List Chunk} (wellCut : WellCut list) {tail : Text}
    (open_ : StaysOpen list tail) (previous : Option Char) (stack : List Item) :
    ∃ last, rules.scan 0 previous stack
        (escapeLinkText (list.flatMap Chunk.text) ++ ']' :: tail) =
      rules.scan 0 last ((labelItems rules previous list).reverse ++ stack) (']' :: tail) := by
  induction list generalizing previous stack with
  | nil => exact ⟨previous, rfl⟩
  | cons first rest ih =>
    have own := ticks_append [first] rest
    rw [List.singleton_append] at own
    have later : StaysOpen rest tail := by
      unfold StaysOpen at open_ ⊢
      rw [own] at open_
      exact ⟨(List.nodup_append.mp open_.1).2.1, fun n mem => open_.2 n (List.mem_append_right _ mem)⟩
    rw [List.flatMap_cons]
    cases first with
    | char c =>
      rw [Chunk.text, List.singleton_append, scan_label_char wellCut.1]
      rcases ih wellCut.2.2 later (some c) (.plain [c] :: stack) with ⟨last, isScan⟩
      refine ⟨last, ?_⟩
      rw [isScan, labelItems, List.reverse_cons, List.append_assoc]
      rfl
    | run c more =>
      have counts : isRun c = true := wellCut.1
      have boundary : (escapeLinkText (rest.flatMap Chunk.text) ++ ']' :: tail).head? ≠ some c := by
        rw [head?_label]
        exact labelNext_ne_run wellCut
      rw [Chunk.text, escape_label_run counts, List.cons_append, List.append_assoc, labelItems]
      cases isMarker : Marker.of? c with
      | some marker =>
        rw [Rules.scan_markers isMarker boundary, head?_label]
        rcases ih wellCut.2.2 later (some c) (.run (rules.flanked marker (more + 1) previous
          (labelNext (rest.flatMap Chunk.text))) :: stack) with ⟨last, isScan⟩
        refine ⟨last, ?_⟩
        rw [isScan, List.reverse_cons, List.append_assoc]
        rfl
      | none =>
        have isTick : c = tick := by
          unfold isRun at counts
          rw [isMarker] at counts
          simpa using counts
        subst isTick
        have unclosed : more + 1 ∉
            ticks (chunks (escapeLinkText (rest.flatMap Chunk.text) ++ ']' :: tail)) := by
          unfold StaysOpen at open_
          have here : more + 1 ∈ ticks [.run tick more] := mem_ticks_singleton.mpr rfl
          rw [own] at open_
          rw [ticks_label, chunks_of_wellCut wellCut.2.2, List.mem_append, not_or]
          refine ⟨?_, open_.2 _ (List.mem_append_left _ here)⟩
          intro mem
          exact (List.nodup_append.mp open_.1).2.2 _ here _ mem rfl
        rw [Rules.scan_ticks boundary unclosed]
        rcases ih wellCut.2.2 later (some tick) (.plain (List.replicate (more + 1) tick) :: stack)
          with ⟨last, isScan⟩
        refine ⟨last, ?_⟩
        rw [isScan, List.reverse_cons, List.append_assoc]
        rfl

/-! ## Closed runs -/

theorem count_escape {c : Char} (other : c ≠ '\\') (special : Char → Bool) (text : Text) :
    (escape special text).count c = text.count c := by
  induction text with
  | nil => rfl
  | cons d rest ih =>
    rw [escape_cons, List.count_append, ih, List.count_cons]
    split
    · simp [List.count_cons, Ne.symm other, Nat.add_comm]
    · simp [List.count_cons, Nat.add_comm]

theorem count_text_cons (c : Char) (first : Chunk) (rest : List Chunk) :
    ((first :: rest).flatMap Chunk.text).count c =
      first.text.count c + (rest.flatMap Chunk.text).count c := by
  rw [List.flatMap_cons, List.count_append]

theorem WellCut.suffix {first second : List Chunk} (wellCut : WellCut (first ++ second)) :
    WellCut second := by
  induction first with
  | nil => exact wellCut
  | cons chunk rest ih => exact ih wellCut.2.2

theorem WellCut.start {first second : List Chunk} (wellCut : WellCut (first ++ second)) :
    WellCut first := by
  induction first with
  | nil => exact trivial
  | cons chunk rest ih =>
    refine ⟨wellCut.1, ?_, ih wellCut.2.2⟩
    intro c more same next mem
    apply wellCut.2.1 c more same next
    cases rest with
    | nil => cases mem
    | cons other others => exact mem

/-- A code span of a label ends at the next run of its length. -/
theorem before?_label {content after : List Chunk} {more : Nat} {tail : Text}
    (wellCut : WellCut (content ++ .run tick more :: after)) (none_ : more + 1 ∉ ticks content) :
    before? (more + 1) (chunks (escapeLinkText ((content ++ .run tick more :: after).flatMap
      Chunk.text) ++ ']' :: tail)) = some (escapeLinkText (content.flatMap Chunk.text)).length := by
  have close : isRun ']' = false := by decide
  have silent : ∀ c, isLabelSpecial c = true → isRun c = false := fun _ => not_run_of_label
  have isContent := WellCut.start wellCut
  have kept : more + 1 ∉ ticks (content.flatMap (escapeChunk isLabelSpecial)) := by
    have same := ticks_escape silent (content.flatMap Chunk.text)
    rw [chunks_escape silent, chunks_of_wellCut isContent] at same
    rw [same]
    exact none_
  have here : escapeChunk isLabelSpecial (.run tick more) = [.run tick more] := rfl
  rw [chunks_append (by simpa using close), escapeLinkText_eq, chunks_escape silent,
    chunks_of_wellCut wellCut, List.flatMap_append, List.flatMap_cons, here, List.append_assoc,
    before?_append (Nat.succ_ne_zero more) kept, text_escape silent isContent, List.append_assoc,
    List.singleton_append, before?, if_pos (by simp)]
  rfl

/-- What a scan over a label comes to: the closing bracket, with fewer backticks shown if a run
of the label is closed, or a code span that goes over the closing bracket. -/
def Scanned (rules : Rules) (list : List Chunk) (tail : Text) (previous : Option Char)
    (stack : List Item) : Prop :=
  (∃ items last, rules.scan 0 previous stack
        (escapeLinkText (list.flatMap Chunk.text) ++ ']' :: tail) =
      rules.scan 0 last (items.reverse ++ stack) (']' :: tail) ∧
    (∀ image active, .bracket image active ∉ items) ∧
    tally tick items ≤ (list.flatMap Chunk.text).count tick ∧
    (¬ StaysOpen list tail → tally tick items < (list.flatMap Chunk.text).count tick)) ∨
  tally ']' stack + (list.flatMap Chunk.text).count ']' <
    (rules.scan 0 previous stack
      (escapeLinkText (list.flatMap Chunk.text) ++ ']' :: tail)).shown.count ']'

theorem staysOpen_of_cons {first : Chunk} {rest : List Chunk} {tail : Text}
    (apart : ∀ more, first = .run tick more →
      more + 1 ∉ ticks rest ∧ more + 1 ∉ ticks (chunks tail)) (open_ : StaysOpen rest tail) :
    StaysOpen (first :: rest) tail := by
  have own := ticks_append [first] rest
  rw [List.singleton_append] at own
  unfold StaysOpen at open_ ⊢
  have isTicks : ticks [first] = [] ∨ ∃ more, first = .run tick more ∧ ticks [first] = [more + 1] := by
    cases first with
    | char c => exact Or.inl rfl
    | run c more =>
      by_cases isTick : c = tick
      · exact Or.inr ⟨more, by rw [isTick], by simp [ticks, isTick]⟩
      · exact Or.inl (by simp [ticks, isTick])
  rw [own]
  rcases isTicks with none_ | ⟨more, isRun, one⟩
  · rw [none_, List.nil_append]
    exact open_
  · rcases apart more isRun with ⟨inside, beyond⟩
    rw [one, List.singleton_append, List.nodup_cons, List.forall_mem_cons]
    exact ⟨⟨inside, open_.1⟩, beyond, open_.2⟩

/-- An item in front of a scan, with the chunks it is read from. -/
theorem Scanned.cons {rest list : List Chunk} {tail : Text} {previous next : Option Char}
    {stack : List Item} {item : Item}
    (reads : rules.scan 0 previous stack (escapeLinkText (list.flatMap Chunk.text) ++ ']' :: tail) =
      rules.scan 0 next (item :: stack) (escapeLinkText (rest.flatMap Chunk.text) ++ ']' :: tail))
    (piece : ∀ image active, .bracket image active ≠ item)
    (closing : (list.flatMap Chunk.text).count ']' ≤
      item.shown.count ']' + (rest.flatMap Chunk.text).count ']')
    (fewer : item.shown.count tick + (rest.flatMap Chunk.text).count tick ≤
      (list.flatMap Chunk.text).count tick)
    (closed : ¬ StaysOpen list tail → ¬ StaysOpen rest tail ∨
      item.shown.count tick + (rest.flatMap Chunk.text).count tick <
        (list.flatMap Chunk.text).count tick)
    (scanned : Scanned rules rest tail next (item :: stack)) :
    Scanned rules list tail previous stack := by
  unfold Scanned at scanned ⊢
  rw [reads]
  rcases scanned with ⟨items, last, isScan, noBracket, le, lt⟩ | crossing
  · refine Or.inl ⟨item :: items, last, ?_, ?_, ?_, ?_⟩
    · rw [isScan, List.reverse_cons, List.append_assoc]
      rfl
    · intro image active mem
      rcases List.mem_cons.mp mem with same | later
      · exact piece image active same
      · exact noBracket image active later
    · rw [tally_cons]
      omega
    · intro isClosed
      rw [tally_cons]
      rcases closed isClosed with later | here
      · have less := lt later
        omega
      · omega
  · rw [tally_cons] at crossing
    exact Or.inr (by omega)

theorem marker_ne {c : Char} (other : isRun c = false) (marker : Marker) : marker.char ≠ c := by
  intro same
  rw [← same] at other
  revert other
  cases marker <;> decide

theorem scan_label {list : List Chunk} (wellCut : WellCut list) (tail : Text)
    (previous : Option Char) (stack : List Item) : Scanned rules list tail previous stack := by
  have closing : ']' ≠ tick := by decide
  induction isSize : list.length using Nat.strong_induction_on generalizing list previous stack with
  | _ size ih =>
  cases list with
  | nil =>
    refine Or.inl ⟨[], previous, rfl, ?_, Nat.le_refl _, ?_⟩
    · intro image active mem
      cases mem
    · intro closed
      exact absurd ⟨List.nodup_nil, fun n mem => absurd mem List.not_mem_nil⟩ closed
  | cons first rest =>
    have shorter : rest.length < size := by
      rw [← isSize]
      exact Nat.lt_succ_self _
    have staysOpen (apart : ∀ more, first = .run tick more →
        more + 1 ∉ ticks rest ∧ more + 1 ∉ ticks (chunks tail)) :
        ¬ StaysOpen (first :: rest) tail → ¬ StaysOpen rest tail :=
      fun closed open_ => closed (staysOpen_of_cons apart open_)
    cases first with
    | char c =>
      have reads := @scan_label_char rules c wellCut.1 previous stack (rest.flatMap Chunk.text) tail
      apply Scanned.cons reads
      · intro image active same
        cases same
      · rw [count_text_cons, shown_plain]
        exact Nat.le_refl _
      · rw [count_text_cons, shown_plain]
        exact Nat.le_refl _
      · intro closed
        refine Or.inl (staysOpen ?_ closed)
        intro more same
        cases same
      · exact ih _ shorter wellCut.2.2 _ _ rfl
    | run c more =>
      have counts : isRun c = true := wellCut.1
      have boundary : (escapeLinkText (rest.flatMap Chunk.text) ++ ']' :: tail).head? ≠ some c := by
        rw [head?_label]
        exact labelNext_ne_run wellCut
      have isText : escapeLinkText ((Chunk.run c more :: rest).flatMap Chunk.text) ++ ']' :: tail =
          c :: (List.replicate more c ++ (escapeLinkText (rest.flatMap Chunk.text) ++ ']' :: tail)) := by
        rw [List.flatMap_cons, Chunk.text, escape_label_run counts, List.cons_append,
          List.append_assoc]
      have bracketless : (c :: List.replicate more c).count ']' = 0 := by
        have other : c ≠ ']' := by
          intro same
          rw [same] at counts
          revert counts
          decide
        rw [← List.replicate_succ, List.count_replicate, if_neg (by simpa using other)]
      cases isMarker : Marker.of? c with
      | some marker =>
        have isChar := Marker.char_of? isMarker
        have other : c ≠ tick := by
          intro same
          rw [same] at isMarker
          cases isMarker
        have reads := @Rules.scan_markers rules previous stack c marker isMarker more _ boundary
        rw [← isText] at reads
        apply Scanned.cons reads
        · intro image active same
          cases same
        · rw [count_text_cons, Chunk.text, bracketless]
          omega
        · rw [count_text_cons, shown_run, Rules.flanked, isChar, Chunk.text, ← List.replicate_succ]
        · intro closed
          refine Or.inl (staysOpen ?_ closed)
          intro more same
          cases same
          exact absurd rfl other
        · exact ih _ shorter wellCut.2.2 _ _ rfl
      | none =>
        have isTick : c = tick := by
          unfold isRun at counts
          rw [isMarker] at counts
          simpa using counts
        subst isTick
        by_cases inside : more + 1 ∈ ticks rest
        · -- a code span in the label
          rcases exists_first inside with ⟨content, after, split, none_⟩
          have isContent : WellCut (content ++ .run tick more :: after) := by
            rw [← split]
            exact wellCut.2.2
          have isAfter : WellCut (.run tick more :: after) := WellCut.suffix isContent
          have restText : escapeLinkText (rest.flatMap Chunk.text) ++ ']' :: tail =
              escapeLinkText (content.flatMap Chunk.text) ++ tick :: (List.replicate more tick ++
                (escapeLinkText (after.flatMap Chunk.text) ++ ']' :: tail)) := by
            rw [split, List.flatMap_append, List.flatMap_cons, escapeLinkText_eq, escape_append,
              ← escapeLinkText_eq, ← escapeLinkText_eq, Chunk.text, escape_label_run counts]
            simp only [List.append_assoc, List.cons_append]
          have next : before? (more + 1) (chunks (escapeLinkText (content.flatMap Chunk.text) ++
              tick :: (List.replicate more tick ++
                (escapeLinkText (after.flatMap Chunk.text) ++ ']' :: tail)))) =
              some (escapeLinkText (content.flatMap Chunk.text)).length := by
            rw [← restText, split]
            exact before?_label isContent none_
          rw [restText] at boundary
          have reads := @Rules.scan_code rules previous stack more _ _ boundary next
          rw [← restText, ← isText] at reads
          have closes := count_escape (show ']' ≠ '\\' by decide) isLabelSpecial
            (content.flatMap Chunk.text)
          have opens := count_escape (show tick ≠ '\\' by decide) isLabelSpecial
            (content.flatMap Chunk.text)
          have ticks_ : (tick :: List.replicate more tick).count tick = more + 1 := by
            rw [← List.replicate_succ, List.count_replicate_self]
          have own (c : Char) : ((Chunk.run tick more :: rest).flatMap Chunk.text).count c =
              (tick :: List.replicate more tick).count c + (content.flatMap Chunk.text).count c +
                ((tick :: List.replicate more tick).count c +
                  (after.flatMap Chunk.text).count c) := by
            rw [count_text_cons, split, List.flatMap_append, List.count_append, count_text_cons,
              Chunk.text]
            omega
          apply Scanned.cons reads
          · intro image active same
            cases same
          · rw [own, shown_code, count_trimCode (by decide), escapeLinkText_eq, closes, bracketless]
            omega
          · rw [own, shown_code, count_trimCode (by decide), escapeLinkText_eq, opens, ticks_]
            omega
          · intro _
            apply Or.inr
            rw [own, shown_code, count_trimCode (by decide), escapeLinkText_eq, opens, ticks_]
            omega
          · apply ih after.length _ isAfter.2.2 _ _ rfl
            rw [split] at shorter
            simp only [List.length_append, List.length_cons] at shorter
            omega
        · by_cases beyond : more + 1 ∈ ticks (chunks tail)
          · -- a code span that goes over the closing bracket
            apply Or.inr
            rw [isText]
            have close : isRun ']' = false := by decide
            have silent : ∀ c, isLabelSpecial c = true → isRun c = false :=
              fun _ => not_run_of_label
            have none_ : more + 1 ∉ ticks (chunks (escapeLinkText (rest.flatMap Chunk.text))) := by
              rw [escapeLinkText_eq, ticks_escape silent, chunks_of_wellCut wellCut.2.2]
              exact inside
            rcases Option.isSome_iff_exists.mp
              ((before?_isSome_iff (Nat.succ_ne_zero more)).mpr beyond) with ⟨length, isLength⟩
            have next : before? (more + 1) (chunks (escapeLinkText (rest.flatMap Chunk.text) ++
                ']' :: tail)) =
                some ((escapeLinkText (rest.flatMap Chunk.text)).length + (1 + length)) := by
              rw [chunks_append (by simpa using close), before?_append (Nat.succ_ne_zero more) none_,
                text_chunks, chunks_cons_of_not_run close, before?, if_neg (by simp), isLength]
              rfl
            have whole : escapeLinkText (rest.flatMap Chunk.text) ++ ']' :: tail =
                (escapeLinkText (rest.flatMap Chunk.text) ++ [']']) ++ tail := by simp
            rw [whole] at boundary next ⊢
            have shown := @Rules.le_count_scan_code rules previous stack more _ _ _ ']'
              (by decide) (marker_ne (by decide)) (by decide) (by decide) boundary next
              (by rw [List.length_append, List.length_singleton]; omega)
            rw [List.count_append, escapeLinkText_eq, count_escape (by decide),
              List.count_singleton_self] at shown
            rw [count_text_cons, Chunk.text, bracketless]
            rw [escapeLinkText_eq]
            omega
          · have unclosed : more + 1 ∉
                ticks (chunks (escapeLinkText (rest.flatMap Chunk.text) ++ ']' :: tail)) := by
              rw [ticks_label, chunks_of_wellCut wellCut.2.2, List.mem_append, not_or]
              exact ⟨inside, beyond⟩
            have reads := @Rules.scan_ticks rules previous stack more _ boundary unclosed
            rw [← isText] at reads
            apply Scanned.cons reads
            · intro image active same
              cases same
            · rw [count_text_cons, Chunk.text, bracketless]
              omega
            · rw [count_text_cons, shown_plain, Chunk.text, ← List.replicate_succ]
            · intro closed
              refine Or.inl (staysOpen ?_ closed)
              intro other same
              cases same
              exact ⟨inside, beyond⟩
            · exact ih _ shorter wellCut.2.2 _ _ rfl

end Scan

/-! ## The link -/

/-- What stands behind the closing bracket of a link. -/
def linkTail (concept_id : ConceptId) : Text :=
  '(' :: '<' :: escapeDestination (slash :: concept_id ++ mdSuffix) ++ '>' :: ')' :: []

theorem serializeLink_eq (title : Text) (concept_id : ConceptId) :
    serializeLink title concept_id = '[' :: (escapeLinkText title ++ ']' :: linkTail concept_id) := by
  simp [serializeLink, serializeDestination, linkTail]

theorem ticks_linkTail (concept_id : ConceptId) :
    ticks (chunks (linkTail concept_id)) = ticks (chunks concept_id) := by
  have plain (c : Char) (other : isRun c = false) (rest : Text) :=
    ticks_cons_of_not_run other rest
  have suffix : ticks (chunks mdSuffix) = [] := by decide
  have ending : ticks (chunks ['>', ')']) = [] := by decide
  have silent : ∀ c, isDestinationSpecial c = true → isRun c = false :=
    fun _ => not_run_of_destination
  unfold linkTail
  rw [List.cons_append, plain '(' (by decide), List.cons_append, plain '<' (by decide),
    chunks_append (by simp; decide), ticks_append, escapeDestination_eq, ticks_escape silent,
    List.cons_append, plain slash (by decide), chunks_append (by simp [mdSuffix]; decide),
    ticks_append, suffix, ending, List.append_nil, List.append_nil]

/-- The runs of markers of a label, as they flank. -/
def labelRuns (rules : Rules) (title : Text) : List Delim :=
  runs (labelItems rules (some '[') (chunks title))

section Link

variable {rules : Rules}

theorem labelItems_shown (previous : Option Char) (list : List Chunk) :
    (labelItems rules previous list).flatMap Item.shown = list.flatMap Chunk.text := by
  induction list generalizing previous with
  | nil => rfl
  | cons first rest ih =>
    cases first with
    | char c =>
      rw [labelItems, List.flatMap_cons, ih, List.flatMap_cons, shown_plain]
      rfl
    | run c more =>
      rw [labelItems, List.flatMap_cons, ih, List.flatMap_cons]
      congr 1
      cases isMarker : Marker.of? c with
      | some marker =>
        dsimp only
        rw [shown_run, Rules.flanked, Marker.char_of? isMarker]
        exact List.replicate_succ
      | none =>
        dsimp only
        rw [shown_plain]
        exact List.replicate_succ

theorem labelItems_open (previous : Option Char) (list : List Chunk) (image active : Bool) :
    .bracket image active ∉ labelItems rules previous list := by
  induction list generalizing previous with
  | nil => exact List.not_mem_nil
  | cons first rest ih =>
    cases first with
    | char c =>
      rw [labelItems, List.mem_cons, not_or]
      exact ⟨(fun same => by cases same), ih (some c)⟩
    | run c more =>
      rw [labelItems, List.mem_cons, not_or]
      refine ⟨?_, ih (some c)⟩
      cases Marker.of? c with
      | some marker => exact fun same => by cases same
      | none => exact fun same => by cases same

theorem labelRuns_count {previous : Option Char} {list : List Chunk} :
    ∀ delim ∈ runs (labelItems rules previous list), delim.count ≠ 0 := by
  induction list generalizing previous with
  | nil =>
    intro delim mem
    cases mem
  | cons first rest ih =>
    intro delim mem
    rw [mem_runs] at mem
    cases first with
    | char c =>
      rcases List.mem_cons.mp mem with same | later
      · cases same
      · exact ih delim (mem_runs.mpr later)
    | run c more =>
      rw [labelItems] at mem
      rcases List.mem_cons.mp mem with same | later
      · cases isMarker : Marker.of? c with
        | some marker =>
          rw [isMarker] at same
          cases same
          exact Nat.succ_ne_zero more
        | none =>
          rw [isMarker] at same
          cases same
      · exact ih delim (mem_runs.mpr later)

/-- The line that a link is written on, as it is read. -/
def linkRead (rules : Rules) (title : Text) (concept_id : ConceptId) : Inlines :=
  rules.scan 0 none [] (serializeLink title concept_id)

theorem scan_linkTail {concept_id : ConceptId} (line : ∀ c ∈ concept_id, isLineEnding c = false)
    {inner : List Item} (open_ : ∀ image active, .bracket image active ∉ inner)
    (previous : Option Char) :
    rules.scan 0 previous (inner ++ [.bracket false true]) (']' :: linkTail concept_id) =
      .node (.link (slash :: concept_id ++ mdSuffix)) (rules.resolve inner.reverse) .nil := by
  have path : ∀ c ∈ slash :: concept_id ++ mdSuffix, isLineEnding c = false := by
    intro c mem
    rw [List.cons_append, List.mem_cons, List.mem_append] at mem
    rcases mem with same | inside | suffix
    · rw [same]
      decide
    · exact line c inside
    · simp only [mdSuffix, List.mem_cons, List.not_mem_nil, or_false] at suffix
      rcases suffix with same | same | same <;> subst same <;> decide
  rcases (@readsAs_serializeDestination (slash :: concept_id ++ mdSuffix) _).mpr
    ⟨rfl, path⟩ with ⟨body, same, accepted, free, isUrl⟩
  rw [serializeDestination, List.singleton_append, List.cons_append, List.cons_append] at same
  have isBody := List.append_cancel_right (List.cons.inj same).2
  have isTail : linkTail concept_id = '(' :: '<' :: body ++ '>' :: ')' :: [] := by
    rw [linkTail, ← isBody]
    rfl
  have read := @Rules.scan_link rules previous inner [] open_ body accepted free []
  rw [isUrl] at read
  rw [isTail]
  exact read

/-- With every run of backticks open and the markers apart, the label is the title. -/
theorem linkRead_of_open {title : Text} {concept_id : ConceptId}
    (line : ∀ c ∈ concept_id, isLineEnding c = false) (open_ : StaysOpen (chunks title) concept_id)
    (apart : rules.Apart (labelRuns rules title)) :
    ∃ children, linkRead rules title concept_id =
        .node (.link (slash :: concept_id ++ mdSuffix)) children .nil ∧ children.shown = title := by
  have stays : StaysOpen (chunks title) (linkTail concept_id) := by
    unfold StaysOpen at open_ ⊢
    rw [ticks_linkTail]
    exact open_
  rcases @scan_label_open rules _ (wellCut_chunks title) _ stays (some '[') [.bracket false true] with
    ⟨last, isScan⟩
  rw [text_chunks] at isScan
  have closed : ∀ image active,
      .bracket image active ∉ (labelItems rules (some '[') (chunks title)).reverse := by
    intro image active mem
    exact labelItems_open _ _ image active (List.mem_reverse.mp mem)
  refine ⟨concat (labelItems rules (some '[') (chunks title)), ?_, ?_⟩
  · rw [linkRead, serializeLink_eq, Rules.scan_bracket, isScan, scan_linkTail line closed,
      List.reverse_reverse, Rules.resolve_of_apart labelRuns_count apart]
  · rw [shown_concat, labelItems_shown, text_chunks]

/-- Otherwise something of the title is gone, or something of the destination is shown. -/
theorem linkRead_of_not_open {title : Text} {concept_id : ConceptId}
    (line : ∀ c ∈ concept_id, isLineEnding c = false)
    (closed : ¬ (StaysOpen (chunks title) concept_id ∧ rules.Apart (labelRuns rules title))) :
    ∃ c, secure c = c ∧ c ≠ secure '\x00' ∧
      (linkRead rules title concept_id).shown.count c ≠ title.count c := by
  have isRead : linkRead rules title concept_id = rules.scan 0 (some '[') [.bracket false true]
      (escapeLinkText title ++ ']' :: linkTail concept_id) := by
    rw [linkRead, serializeLink_eq, Rules.scan_bracket]
  by_cases open_ : StaysOpen (chunks title) concept_id
  · have pair : ¬ rules.Apart (labelRuns rules title) := fun apart => closed ⟨open_, apart⟩
    have stays : StaysOpen (chunks title) (linkTail concept_id) := by
      unfold StaysOpen at open_ ⊢
      rw [ticks_linkTail]
      exact open_
    rcases @scan_label_open rules _ (wellCut_chunks title) _ stays (some '[')
      [.bracket false true] with ⟨last, isScan⟩
    rw [text_chunks] at isScan
    have inner : ∀ image active,
        .bracket image active ∉ (labelItems rules (some '[') (chunks title)).reverse := by
      intro image active mem
      exact labelItems_open _ _ image active (List.mem_reverse.mp mem)
    rcases Rules.exists_count_resolve_lt labelRuns_count pair with ⟨marker, less⟩
    have whole : tally marker.char (labelItems rules (some '[') (chunks title)) =
        title.count marker.char := by
      rw [tally, labelItems_shown, text_chunks]
    refine ⟨marker.char, by cases marker <;> decide, by cases marker <;> decide, ?_⟩
    rw [isRead, isScan, scan_linkTail line inner, List.reverse_reverse, Inlines.shown,
      Inlines.shown, List.append_nil]
    omega
  · have stays : ¬ StaysOpen (chunks title) (linkTail concept_id) := by
      unfold StaysOpen at open_ ⊢
      rw [ticks_linkTail]
      exact open_
    rcases @scan_label rules _ (wellCut_chunks title) (linkTail concept_id) (some '[')
      [.bracket false true] with ⟨items, last, isScan, inner, -, less⟩ | crossing
    · rw [text_chunks] at isScan less
      have fewer := less stays
      have within := @Rules.count_resolve_le rules tick items
      have brackets : ∀ image active, .bracket image active ∉ items.reverse := by
        intro image active mem
        exact inner image active (List.mem_reverse.mp mem)
      refine ⟨tick, by decide, by decide, ?_⟩
      rw [isRead, isScan, scan_linkTail line brackets, List.reverse_reverse, Inlines.shown,
        Inlines.shown, List.append_nil]
      omega
    · rw [text_chunks, ← isRead] at crossing
      refine ⟨']', by decide, by decide, ?_⟩
      omega

end Link

end Burlmd.Okf
