import Burlmd.Library.Segments
import Burlmd.Okf.Links

/-!
# What a destination addresses

An internal destination is resolved against a directory, and its concept id is the
normalized path without the extension. The extension goes before the segments are
normalized, so a final component of dots names a directory after it.
-/

namespace Burlmd.Okf

open Utf8 (Text)
open Segments

/-- A segment that a resolution keeps. -/
def PlainSegment (segment : Text) : Prop :=
  segment ≠ [] ∧ segment ≠ ['.'] ∧ segment ≠ ['.', '.']

instance (segment : Text) : Decidable (PlainSegment segment) :=
  inferInstanceAs (Decidable (_ ∧ _ ∧ _))

/-- A directory of plain segments, or the bundle root. -/
def PlainDirectory (directory : Text) : Prop :=
  directory = [] ∨ ∀ segment ∈ directory.splitOn slash, PlainSegment segment

/-- What a concept id has to be, to name the Note that a destination names. -/
structure Addressable (dest : Text) (concept_id : ConceptId) : Prop where
  nonempty : concept_id ≠ []
  leading : concept_id.head? ≠ some slash
  trailing : concept_id.getLast? ≠ some slash
  plain : ∀ segment ∈ concept_id.splitOn slash, PlainSegment segment
  named : lastSegment slash concept_id ++ mdSuffix = lastSegment slash dest
  normal : ∀ containing_dir,
    classify (slash :: concept_id ++ mdSuffix) containing_dir = .internal concept_id

/-- A destination that is spelled from the directory of its Note. -/
def RelativeSpelling (dest : Text) : Prop := dest.head? ≠ some slash ∧ hasUrlScheme dest = false

/-- The absolute spelling of a relative destination. -/
def absoluteSpelling (directory dest : Text) : Text :=
  if directory = [] then slash :: dest else slash :: directory ++ slash :: dest

structure AddressesOnly (dest containing_dir : Text) : Prop where
  internal : ∀ concept_id, classify dest containing_dir = .internal concept_id →
    Addressable dest concept_id
  absolute : RelativeSpelling dest → ∀ other,
    (classify (absoluteSpelling containing_dir dest) other).internal? =
      (classify dest containing_dir).internal?

/-- More segments climb than there are to pop, at some point. -/
def climbs : Nat → List Text → Bool
  | _, [] => false
  | depth, segment :: rest =>
      if segment = [] ∨ segment = ['.'] then climbs depth rest
      else if segment = ['.', '.'] then
        match depth with
        | 0 => true
        | depth + 1 => climbs depth rest
      else climbs (depth + 1) rest

/-- A destination climbs above the bundle root once its extension is off. -/
def Climbs (dest containing_dir : Text) : Prop :=
  climbs (if dest.head? = some slash then 0 else (components containing_dir).length)
    (((dest.dropSuffix? mdSuffix).getD dest).splitOn slash) = true

/-! ## Resolution -/

theorem pushSegment_plain {stack : List Text} {segment : Text} (plain : PlainSegment segment) :
    pushSegment stack segment = some (segment :: stack) := by
  obtain ⟨nonempty, notHere, notUp⟩ := plain
  unfold pushSegment
  rw [if_neg (by simp [nonempty, notHere]), if_neg notUp]

theorem foldlM_pushSegment_plain {stack segments : List Text}
    (plain : ∀ segment ∈ segments, PlainSegment segment) :
    segments.foldlM pushSegment stack = some (segments.reverse ++ stack) := by
  induction segments generalizing stack with
  | nil => rfl
  | cons segment rest ih =>
    rw [List.foldlM_cons, pushSegment_plain (plain segment List.mem_cons_self), Option.bind_eq_bind,
      Option.bind_some, ih fun other mem => plain other (List.mem_cons_of_mem _ mem),
      List.reverse_cons, List.append_assoc]
    rfl

/-- A resolution keeps the stack plain, whatever it pushes. -/
theorem plain_of_foldlM {stack segments result : List Text}
    (resolved : segments.foldlM pushSegment stack = some result)
    (isPlain : ∀ segment ∈ stack, PlainSegment segment ∧ slash ∉ segment)
    (noSlash : ∀ segment ∈ segments, slash ∉ segment) :
    ∀ segment ∈ result, PlainSegment segment ∧ slash ∉ segment := by
  induction segments generalizing stack with
  | nil =>
    cases resolved
    exact isPlain
  | cons segment rest ih =>
    rw [List.foldlM_cons] at resolved
    obtain ⟨next, pushed, resolved⟩ := Option.bind_eq_some_iff.mp resolved
    refine ih resolved ?_ fun other mem => noSlash other (List.mem_cons_of_mem _ mem)
    unfold pushSegment at pushed
    split at pushed
    · cases pushed
      exact isPlain
    · rename_i kept
      simp only [not_or] at kept
      split at pushed
      · split at pushed
        · cases pushed
        · cases pushed
          exact fun other mem => isPlain other (List.mem_cons_of_mem _ mem)
      · rename_i notUp
        cases pushed
        intro other mem
        rcases List.mem_cons.mp mem with rfl | mem
        · exact ⟨⟨kept.1, kept.2, notUp⟩, noSlash _ List.mem_cons_self⟩
        · exact isPlain other mem

theorem foldlM_isNone_iff_climbs {stack segments : List Text} :
    segments.foldlM pushSegment stack = none ↔ climbs stack.length segments = true := by
  induction segments generalizing stack with
  | nil => simp [climbs]
  | cons segment rest ih =>
    rw [List.foldlM_cons]
    unfold pushSegment climbs
    split
    · exact ih
    · split
      · cases stack with
        | nil => simp
        | cons first others => exact ih
      · exact ih

/-! ## Classification -/

/-- The stack that a destination is resolved from. -/
def baseStack (containing_dir dest : Text) : List Text :=
  if dest.head? = some slash then [] else (components containing_dir).reverse

theorem dropSuffix?_append_mdSuffix {stem : Text} :
    (stem ++ mdSuffix).dropSuffix? mdSuffix = some stem :=
  List.dropSuffix?_eq_some_iff.mpr ⟨mdSuffix, rfl, beq_self_eq_true _⟩

theorem resolveRelative_append {containing_dir stem : Text} :
    resolveRelative containing_dir (stem ++ mdSuffix) =
      if lastSegment slash stem = [] then none
      else ((stem.splitOn slash).foldlM pushSegment (components containing_dir).reverse).map
        fun stack => [slash].intercalate stack.reverse := by
  unfold resolveRelative resolvePath
  rw [dropSuffix?_append_mdSuffix]
  rfl

theorem splitOn_slash_cons {rest : Text} : (slash :: rest).splitOn slash = [] :: rest.splitOn slash :=
  List.splitOn_append_cons_self [] rest

theorem lastSegment_slash_cons {rest : Text} :
    lastSegment slash (slash :: rest) = lastSegment slash rest :=
  @lastSegment_append_cons Char slash [] rest _ _

/-- How a destination with the extension resolves. -/
theorem classify_append {stem containing_dir : Text} :
    classify (stem ++ mdSuffix) containing_dir =
      if hasUrlScheme (stem ++ mdSuffix) = true then .external (stem ++ mdSuffix)
      else if lastSegment slash stem = [] then .external (stem ++ mdSuffix)
      else
        match (stem.splitOn slash).foldlM pushSegment (baseStack containing_dir stem) with
        | some stack => .internal ([slash].intercalate stack.reverse)
        | none => .external (stem ++ mdSuffix) := by
  have isNote : mdSuffix.isSuffixOf (stem ++ mdSuffix) = true :=
    List.isSuffixOf_iff_suffix.mpr (List.suffix_append _ _)
  unfold classify
  rw [isNote, Bool.not_true, Bool.or_false]
  split
  · rfl
  · cases stem with
    | nil => rfl
    | cons c rest =>
      by_cases isSlash : c = slash
      · subst isSlash
        have stripped : (slash :: rest ++ mdSuffix).dropPrefix? [slash] = some (rest ++ mdSuffix) :=
          List.dropPrefix?_eq_some_iff.mpr ⟨[slash], rfl, beq_self_eq_true _⟩
        have base : baseStack containing_dir (slash :: rest) = [] := if_pos rfl
        dsimp only
        rw [stripped]
        dsimp only
        rw [resolveRelative_append, lastSegment_slash_cons, base, splitOn_slash_cons]
        have skipped : ([] :: rest.splitOn slash).foldlM pushSegment [] =
            (rest.splitOn slash).foldlM pushSegment [] := rfl
        rw [skipped]
        have root : (components []).reverse = [] := rfl
        rw [root]
        by_cases unnamed : lastSegment slash rest = []
        · rw [if_pos unnamed, if_pos unnamed]
        · rw [if_neg unnamed, if_neg unnamed]
          cases (rest.splitOn slash).foldlM pushSegment [] <;> rfl
      · have unstripped : (c :: rest ++ mdSuffix).dropPrefix? [slash] = none := by
          cases stripped : (c :: rest ++ mdSuffix).dropPrefix? [slash] with
          | none => rfl
          | some _ =>
            obtain ⟨prefix_, shape, same⟩ := List.dropPrefix?_eq_some_iff.mp stripped
            obtain rfl := eq_of_beq same
            exact absurd (List.cons.inj shape).1 isSlash
        have base : baseStack containing_dir (c :: rest) = (components containing_dir).reverse :=
          if_neg fun same => isSlash (Option.some.inj same)
        dsimp only
        rw [unstripped]
        dsimp only
        rw [resolveRelative_append, base]
        by_cases unnamed : lastSegment slash (c :: rest) = []
        · rw [if_pos unnamed, if_pos unnamed]
        · rw [if_neg unnamed, if_neg unnamed]
          cases ((c :: rest).splitOn slash).foldlM pushSegment (components containing_dir).reverse <;>
            rfl

theorem classify_of_not_note {dest containing_dir : Text} (other : ¬mdSuffix <:+ dest) :
    classify dest containing_dir = .external dest := by
  have notNote : mdSuffix.isSuffixOf dest = false := by
    rw [← Bool.not_eq_true, List.isSuffixOf_iff_suffix]
    exact other
  unfold classify
  rw [notNote, Bool.not_false, Bool.or_true, if_pos rfl]

theorem classify_eq_internal_iff {dest containing_dir : Text} {concept_id : ConceptId} :
    classify dest containing_dir = .internal concept_id ↔
      ∃ stem stack, dest = stem ++ mdSuffix ∧ hasUrlScheme dest = false ∧
        lastSegment slash stem ≠ [] ∧
        (stem.splitOn slash).foldlM pushSegment (baseStack containing_dir stem) = some stack ∧
        concept_id = [slash].intercalate stack.reverse := by
  by_cases isNote : mdSuffix <:+ dest
  · obtain ⟨stem, rfl⟩ := isNote
    rw [classify_append]
    constructor
    · intro isInternal
      split at isInternal
      · cases isInternal
      · rename_i noScheme
        split at isInternal
        · cases isInternal
        · rename_i named
          split at isInternal
          · rename_i stack resolved
            cases isInternal
            exact ⟨stem, stack, rfl, by simpa using noScheme, named, resolved, rfl⟩
          · cases isInternal
    · rintro ⟨stem', stack, same, noScheme, named, resolved, rfl⟩
      obtain rfl := List.append_cancel_right same
      rw [if_neg (by simp [noScheme]), if_neg named, resolved]
  · rw [classify_of_not_note isNote]
    constructor
    · rintro ⟨⟩
    · rintro ⟨stem, stack, rfl, -⟩
      exact absurd (List.suffix_append _ _) isNote

/-! ## Normal forms -/

theorem hasUrlScheme_slash_cons {rest : Text} : hasUrlScheme (slash :: rest) = false := by
  unfold hasUrlScheme
  split
  · rename_i colon found
    cases colon with
    | zero => simp [List.findIdx?_cons, slash] at found
    | succ n => rfl
  · rfl

theorem lastSegment_mem {path : Text} : lastSegment slash path ∈ path.splitOn slash := by
  rw [splitOn_eq_dropLast_append]
  exact List.mem_append_right _ (List.mem_singleton_self _)

section Plain

variable {path : Text} (plain : ∀ segment ∈ path.splitOn slash, PlainSegment segment)
include plain

theorem ne_nil_of_plain : path ≠ [] := by
  rintro rfl
  exact (plain [] (by simp)).1 rfl

theorem head?_ne_slash_of_plain : path.head? ≠ some slash := by
  intro leads
  cases path with
  | nil => cases leads
  | cons c rest =>
    obtain rfl : c = slash := Option.some.inj leads
    rw [splitOn_slash_cons] at plain
    exact (plain [] List.mem_cons_self).1 rfl

theorem getLast?_ne_slash_of_plain : path.getLast? ≠ some slash := by
  intro trails
  obtain ⟨front, rfl⟩ := List.getLast?_eq_some_iff.mp trails
  have isLast : lastSegment slash (front ++ [slash]) = [] := by
    rw [lastSegment_append_cons]
    rfl
  exact (plain _ lastSegment_mem).1 isLast

/-- An absolute spelling of plain segments is the normal form of its id. -/
theorem classify_of_plain {containing_dir : Text} :
    classify (slash :: path ++ mdSuffix) containing_dir = .internal path := by
  refine classify_eq_internal_iff.mpr ⟨slash :: path, (path.splitOn slash).reverse, rfl,
    hasUrlScheme_slash_cons, ?_, ?_, ?_⟩
  · rw [lastSegment_slash_cons]
    exact (plain _ lastSegment_mem).1
  · have base : baseStack containing_dir (slash :: path) = [] := if_pos rfl
    have resolved := @foldlM_pushSegment_plain [] _ plain
    rw [List.append_nil] at resolved
    rw [base, splitOn_slash_cons]
    exact resolved
  · rw [List.reverse_reverse, List.intercalate_splitOn]

end Plain

theorem components_of_plain {directory : Text} (plain : PlainDirectory directory) :
    ∀ segment ∈ components directory, PlainSegment segment ∧ slash ∉ segment := by
  intro segment mem
  obtain ⟨mem, nonempty⟩ := List.mem_filter.mp mem
  refine ⟨?_, not_mem_of_mem_splitOn mem⟩
  rcases plain with rfl | plain
  · obtain rfl : segment = [] := by simpa using mem
    simp at nonempty
  · exact plain segment mem

theorem components_eq_splitOn {directory : Text}
    (plain : ∀ segment ∈ directory.splitOn slash, PlainSegment segment) :
    components directory = directory.splitOn slash := by
  apply List.filter_eq_self.mpr
  intro segment mem
  exact decide_eq_true (plain segment mem).1

/-- The last segment that is pushed is on top. -/
theorem foldlM_pushSegment_last {init stack result : List Text} {last : Text}
    (plain : PlainSegment last) (resolved : (init ++ [last]).foldlM pushSegment stack = some result) :
    ∃ rest, result = last :: rest := by
  rw [List.foldlM_append] at resolved
  obtain ⟨rest, -, pushed⟩ := Option.bind_eq_some_iff.mp resolved
  rw [List.foldlM_cons, pushSegment_plain plain] at pushed
  cases pushed
  exact ⟨rest, rfl⟩

section Destination

variable {dest containing_dir : Text}

/-- What an internal destination addresses, unless its final component is made of dots. -/
theorem addressable_of_internal {concept_id : ConceptId} (plainDir : PlainDirectory containing_dir)
    (isInternal : classify dest containing_dir = .internal concept_id)
    (notHere : lastSegment slash dest ≠ '.' :: mdSuffix)
    (notUp : lastSegment slash dest ≠ '.' :: '.' :: mdSuffix) : Addressable dest concept_id := by
  obtain ⟨stem, stack, rfl, -, named, resolved, rfl⟩ := classify_eq_internal_iff.mp isInternal
  have noSlash : slash ∉ mdSuffix := by decide
  rw [lastSegment_append noSlash] at notHere notUp
  have plainLast : PlainSegment (lastSegment slash stem) := by
    refine ⟨named, ?_, ?_⟩
    · intro same
      exact notHere (by rw [same]; rfl)
    · intro same
      exact notUp (by rw [same]; rfl)
  have plainBase : ∀ segment ∈ baseStack containing_dir stem, PlainSegment segment ∧ slash ∉ segment := by
    intro segment mem
    unfold baseStack at mem
    split at mem
    · cases mem
    · exact components_of_plain plainDir segment (List.mem_reverse.mp mem)
  have plainStack := plain_of_foldlM resolved plainBase fun _ mem => not_mem_of_mem_splitOn mem
  rw [splitOn_eq_dropLast_append] at resolved
  obtain ⟨rest, rfl⟩ := foldlM_pushSegment_last plainLast resolved
  have split : ([slash].intercalate (lastSegment slash stem :: rest).reverse).splitOn slash =
      (lastSegment slash stem :: rest).reverse := by
    apply List.splitOn_intercalate
    · exact fun segment mem => (plainStack segment (List.mem_reverse.mp mem)).2
    · simp
  have plain : ∀ segment ∈ ([slash].intercalate (lastSegment slash stem :: rest).reverse).splitOn
      slash, PlainSegment segment := by
    rw [split]
    exact fun segment mem => (plainStack segment (List.mem_reverse.mp mem)).1
  refine ⟨ne_nil_of_plain plain, head?_ne_slash_of_plain plain, getLast?_ne_slash_of_plain plain,
    plain, ?_, fun _ => classify_of_plain plain⟩
  have isLast : lastSegment slash ([slash].intercalate (lastSegment slash stem :: rest).reverse) =
      lastSegment slash stem :=
    lastSegment_of_splitOn (split.trans List.reverse_cons)
  rw [isLast, lastSegment_append noSlash]

/-- The two spellings of a relative destination resolve alike. -/
theorem internal?_absoluteSpelling (plainDir : PlainDirectory containing_dir)
    (relative : RelativeSpelling dest) (other : Text) :
    (classify (absoluteSpelling containing_dir dest) other).internal? =
      (classify dest containing_dir).internal? := by
  obtain ⟨unanchored, noScheme⟩ := relative
  have spelled : ∀ rest, absoluteSpelling containing_dir rest =
      slash :: (if containing_dir = [] then rest else containing_dir ++ slash :: rest) := by
    intro rest
    unfold absoluteSpelling
    split <;> rfl
  by_cases isNote : mdSuffix <:+ dest
  · obtain ⟨stem, rfl⟩ := isNote
    have joined : absoluteSpelling containing_dir (stem ++ mdSuffix) =
        absoluteSpelling containing_dir stem ++ mdSuffix := by
      unfold absoluteSpelling
      split
      · rfl
      · rw [List.append_assoc, List.cons_append]
        rfl
    have sameLast : lastSegment slash (absoluteSpelling containing_dir stem) =
        lastSegment slash stem := by
      rw [spelled, lastSegment_slash_cons]
      split
      · rfl
      · exact lastSegment_append_cons
    have sameScheme : hasUrlScheme (absoluteSpelling containing_dir stem ++ mdSuffix) = false := by
      rw [spelled]
      exact hasUrlScheme_slash_cons
    have fromRoot : baseStack other (absoluteSpelling containing_dir stem) = [] := by
      rw [spelled]
      exact if_pos rfl
    have fromDir : baseStack containing_dir stem = (components containing_dir).reverse := by
      apply if_neg
      intro leads
      cases stem with
      | nil => cases leads
      | cons c rest => exact unanchored leads
    have resolved : ((absoluteSpelling containing_dir stem).splitOn slash).foldlM pushSegment [] =
        (stem.splitOn slash).foldlM pushSegment (components containing_dir).reverse := by
      rw [spelled, splitOn_slash_cons]
      split
      · rename_i root
        rw [root]
        rfl
      · rename_i inside
        have plain := plainDir.resolve_left inside
        rw [List.splitOn_append_cons_self, components_eq_splitOn plain]
        have pushed := @foldlM_pushSegment_plain [] _ plain
        rw [List.append_nil] at pushed
        refine List.foldlM_append.trans ?_
        rw [pushed]
        rfl
    rw [joined, classify_append, classify_append, sameScheme, noScheme, sameLast, fromRoot, fromDir,
      resolved]
    simp only [Bool.false_eq_true, ↓reduceIte]
    split
    · rfl
    · cases (stem.splitOn slash).foldlM pushSegment (components containing_dir).reverse <;> rfl
  · have notNote : ¬mdSuffix <:+ absoluteSpelling containing_dir dest := by
      have noSlash : slash ∉ mdSuffix := by decide
      intro isSuffix
      apply isNote
      unfold absoluteSpelling at isSuffix
      split at isSuffix
      · exact (@suffix_append_cons_iff Char slash [] _ _ noSlash).mp isSuffix
      · exact (suffix_append_cons_iff noSlash).mp isSuffix
    rw [classify_of_not_note notNote, classify_of_not_note isNote]
    rfl

theorem climbs_append_iff {stem : Text} : Climbs (stem ++ mdSuffix) containing_dir ↔
    (stem.splitOn slash).foldlM pushSegment (baseStack containing_dir stem) = none := by
  have leads : (stem ++ mdSuffix).head? = some slash ↔ stem.head? = some slash := by
    cases stem with
    | nil => decide
    | cons c rest => exact Iff.rfl
  have depth : (baseStack containing_dir stem).length =
      if (stem ++ mdSuffix).head? = some slash then 0 else (components containing_dir).length := by
    unfold baseStack
    by_cases isAbsolute : stem.head? = some slash
    · rw [if_pos isAbsolute, if_pos (leads.mpr isAbsolute)]
      rfl
    · rw [if_neg isAbsolute, if_neg fun same => isAbsolute (leads.mp same), List.length_reverse]
  rw [foldlM_isNone_iff_climbs, depth]
  unfold Climbs
  rw [dropSuffix?_append_mdSuffix, Option.getD_some]

theorem exists_stem_of_lastSegment {dots : Text} (isLast : lastSegment slash dest = dots ++ mdSuffix) :
    ∃ stem, dest = stem ++ mdSuffix ∧ lastSegment slash stem = dots := by
  have noSlash : slash ∉ mdSuffix := by decide
  have isNote : mdSuffix <:+ dest := by
    have lastNote : mdSuffix <:+ lastSegment slash dest := by
      rw [isLast]
      exact List.suffix_append _ _
    rcases not_mem_or_exists_last slash dest with whole | ⟨before, last, rfl, whole⟩
    · rwa [lastSegment_of_not_mem whole] at lastNote
    · rw [lastSegment_append_cons, lastSegment_of_not_mem whole] at lastNote
      exact (suffix_append_cons_iff noSlash).mpr lastNote
  obtain ⟨stem, rfl⟩ := isNote
  rw [lastSegment_append noSlash] at isLast
  exact ⟨stem, rfl, List.append_cancel_right isLast⟩

/-- A final component of dots is lost once it resolves. -/
theorem not_addressable_of_dots {dots : Text} (isDots : dots = ['.'] ∨ dots = ['.', '.'])
    (isLast : lastSegment slash dest = dots ++ mdSuffix) (noScheme : hasUrlScheme dest = false)
    (noClimb : ¬Climbs dest containing_dir) : ¬AddressesOnly dest containing_dir := by
  obtain ⟨stem, rfl, isDotted⟩ := exists_stem_of_lastSegment isLast
  have named : lastSegment slash stem ≠ [] := by
    rw [isDotted]
    rcases isDots with rfl | rfl <;> simp
  obtain ⟨stack, resolved⟩ := Option.ne_none_iff_exists'.mp (mt climbs_append_iff.mpr noClimb)
  intro addresses
  have addressable := addresses.internal _
    (classify_eq_internal_iff.mpr ⟨stem, stack, rfl, noScheme, named, resolved, rfl⟩)
  have isLast' := addressable.named.trans isLast
  have plain := addressable.plain _ lastSegment_mem
  rw [List.append_cancel_right isLast'] at plain
  rcases isDots with rfl | rfl
  · exact plain.2.1 rfl
  · exact plain.2.2 rfl

/-- A destination addresses what it names, exactly where its final component is not made of
dots, or is not resolved. -/
theorem classify_addresses_iff (dest containing_dir : Text) (plainDir : PlainDirectory containing_dir) :
    AddressesOnly dest containing_dir ↔
      (lastSegment slash dest ≠ "..md".toList ∧ lastSegment slash dest ≠ "...md".toList) ∨
        hasUrlScheme dest = true ∨ Climbs dest containing_dir := by
  constructor
  · intro addresses
    by_contra fails
    simp only [not_or, not_and_or, not_not, Bool.not_eq_true] at fails
    obtain ⟨dotted, noScheme, noClimb⟩ := fails
    rcases dotted with isLast | isLast
    · exact not_addressable_of_dots (.inl rfl) isLast noScheme noClimb addresses
    · exact not_addressable_of_dots (.inr rfl) isLast noScheme noClimb addresses
  · intro met
    refine ⟨fun concept_id isInternal => ?_, internal?_absoluteSpelling plainDir⟩
    rcases met with ⟨notHere, notUp⟩ | isUrl | climbs
    · exact addressable_of_internal plainDir isInternal notHere notUp
    · obtain ⟨stem, stack, rfl, noScheme, -⟩ := classify_eq_internal_iff.mp isInternal
      rw [isUrl] at noScheme
      cases noScheme
    · obtain ⟨stem, stack, rfl, -, -, resolved, -⟩ := classify_eq_internal_iff.mp isInternal
      rw [climbs_append_iff.mp climbs] at resolved
      cases resolved

end Destination

/-- A sibling of the Note, and the Note's own directory. -/
theorem sibling_addresses : AddressesOnly "b.md".toList "a".toList :=
  (classify_addresses_iff _ _ (.inr (by decide))).mpr (.inl (by decide))

/-- `..md` names the directory it is in, and at the root a concept id without a segment. -/
theorem dots_address_nothing : classify "..md".toList [] = .internal [] ∧
    ¬AddressesOnly "..md".toList [] := by
  refine ⟨by decide, ?_⟩
  intro addresses
  exact (addresses.internal [] (by decide)).nonempty rfl

end Burlmd.Okf
