import Mathlib.Data.Bool.AllAny
import Burlmd.Git.Failure
import Burlmd.Library.Occurrence

/-!
# Diagnostics of one kind

What Git writes for a failure: its own words, with the names of remotes, branches and paths
between them. The words tell the kind, so that only a name can hide it.
-/

namespace Burlmd.Git

open Markdown (trim)
open Occurrence
open Utf8 (Text IsAscii)

structure Diagnostic where
  kind : Failure
  first : Text
  /-- Each name with the words behind it. -/
  rest : List (Text × Text)

namespace Diagnostic

variable (casing : Casing) (d : Diagnostic)

def stderr : Text := woven d.first d.rest

/-- What the failure is to be reported as. -/
def error : AppError :=
  match d.kind with
  | .rejected => .gitConflict
  | .authentication => .authExpired
  | .network => .networkError (trim d.stderr)
  | .other => .ioError (trim d.stderr)

def Classified : Prop := classify_git_cli_failure casing d.stderr = d.error

/-- The names and words in lower case, each as it is in the text. -/
def lowerRest : Text → List (Text × Text) → List (Text × Text)
  | _, [] => []
  | before, (name, next) :: rest =>
      (casing.lowercaseIn before name (next ++ flat rest),
        casing.lowercaseIn (before ++ name) next (flat rest)) ::
        lowerRest (before ++ name ++ next) rest

def lowerFirst : Text := casing.lowercaseIn [] d.first (flat d.rest)

/-- Git's own words in the message have the phrase. -/
def Says (phrase : Text) : Prop :=
  ∃ fixed ∈ words (d.lowerFirst casing) (lowerRest casing d.first d.rest), phrase <:+: fixed

/-- Some name has the phrase or a part of it. -/
def Names (phrase : Text) : Prop :=
  Touches phrase (d.lowerFirst casing) (lowerRest casing d.first d.rest)

end Diagnostic

/-- The kinds that are searched for before a kind. -/
def Failure.before : Failure → List Failure
  | rejected => []
  | authentication => [rejected]
  | network => [rejected, authentication]
  | other => [rejected, authentication, network]

/-! ## What Git's words tell -/

/-- The messages of Git in the C locale, by the kind of failure: the words before the first name, and
those behind each name. -/
structure GitMessages where
  Writes : Failure → Text → List Text → Prop

/-- What Git, and the hosts it speaks to, say in a failure of a kind, in lower case. -/
def Failure.telltales : Failure → List Text
  | rejected => ["non-fast-forward".toList, "fetch first".toList, "conflict".toList]
  | authentication =>
      ["authentication failed".toList, "invalid credentials".toList,
        "invalid username or password".toList, "bad credentials".toList,
        "permission denied".toList, "access denied".toList, "error: 401".toList,
        "error: 403".toList, "support for password authentication was removed".toList]
  | network =>
      ["could not resolve host".toList, "could not read from remote repository".toList,
        "connection refused".toList, "connection timed out".toList, "unable to access".toList,
        "network".toList]
  | other => []

/-- The words of a message, which are ASCII, say what kind it is of, and say nothing that belongs to a
kind that is searched for before. -/
structure GitMessages.Worded (git : GitMessages) : Prop where
  ascii : ∀ kind first others, git.Writes kind first others →
    ∀ fixed ∈ first :: others, ∀ c ∈ fixed, IsAscii c
  told : ∀ kind first others, git.Writes kind first others → kind ≠ .other →
    ∃ fixed ∈ first :: others, ∃ telltale ∈ kind.telltales, telltale <:+: fixed.map Char.toLower
  plain : ∀ kind first others, git.Writes kind first others → ∀ before ∈ kind.before,
    ∀ telltale ∈ before.telltales, ∀ fixed ∈ first :: others,
      ¬ telltale <:+: fixed.map Char.toLower

/-- A diagnostic is a message of Git for a failure of its kind, with names in it. -/
def Diagnostic.Written (git : GitMessages) (d : Diagnostic) : Prop :=
  git.Writes d.kind d.first (d.rest.map Prod.snd)

/-- No phrase of a kind that is searched for before the diagnostic's touches a name in it: lies in
the name, or overlaps it. -/
def Diagnostic.NamesSilent (casing : Casing) (d : Diagnostic) : Prop :=
  ∀ before ∈ d.kind.before, ∀ phrase ∈ before.phrases, ¬ d.Names casing phrase

/-- Each telltale is searched for. -/
theorem telltales_subset_phrases (kind : Failure) : kind.telltales ⊆ kind.phrases := by
  cases kind
  all_goals
    simp only [Failure.telltales, Failure.phrases, List.cons_subset, List.mem_cons, true_or, or_true,
      List.nil_subset, and_true]

/-- Each phrase that is searched for is a telltale, or ends with one. -/
theorem exists_telltale (kind : Failure) : ∀ phrase ∈ kind.phrases,
    ∃ telltale ∈ kind.telltales, telltale <:+ phrase := by
  cases kind
  all_goals decide +kernel

namespace Diagnostic

variable {casing : Casing} {d : Diagnostic} {git : GitMessages}

theorem lowercaseIn_flat (before : Text) (rest : List (Text × Text)) :
    casing.lowercaseIn before (flat rest) [] = flat (lowerRest casing before rest) := by
  induction rest generalizing before with
  | nil => rfl
  | cons entry others ih =>
    rcases entry with ⟨name, next⟩
    have isFlat : flat ((name, next) :: others) = name ++ (next ++ flat others) := by
      simp [flat]
    rw [isFlat, casing.lowercaseIn_append, casing.lowercaseIn_append, ih, List.append_nil,
      List.append_nil]
    simp [lowerRest, flat]

theorem to_lowercase_stderr :
    casing.to_lowercase d.stderr = woven (d.lowerFirst casing) (lowerRest casing d.first d.rest) := by
  unfold Casing.to_lowercase stderr woven lowerFirst
  rw [casing.lowercaseIn_append, List.append_nil, List.nil_append, lowercaseIn_flat]

theorem contained_iff (failure : Failure) :
    failure.contained (casing.to_lowercase d.stderr) ↔
      ∃ phrase ∈ failure.phrases, d.Says casing phrase ∨ d.Names casing phrase := by
  unfold Failure.contained Says Names
  rw [to_lowercase_stderr]
  simp only [infix_woven_iff]

/-- Words of ASCII are lowered by themselves, whatever stands around them. -/
theorem map_snd_lowerRest (before : Text) {rest : List (Text × Text)}
    (ascii : ∀ fixed ∈ rest.map Prod.snd, ∀ c ∈ fixed, IsAscii c) :
    (lowerRest casing before rest).map Prod.snd = (rest.map Prod.snd).map (·.map Char.toLower) := by
  induction rest generalizing before with
  | nil => rfl
  | cons entry others ih =>
    rcases entry with ⟨name, next⟩
    have own := ascii next List.mem_cons_self
    have later := ih (before ++ name ++ next) fun fixed inside =>
      ascii fixed (List.mem_cons_of_mem _ inside)
    rw [lowerRest, List.map_cons, casing.lowercaseIn_ascii own, later]
    rfl

theorem says_iff (worded : git.Worded) (written : d.Written git) (phrase : Text) :
    d.Says casing phrase ↔
      ∃ fixed ∈ d.first :: d.rest.map Prod.snd, phrase <:+: fixed.map Char.toLower := by
  have ascii := worded.ascii _ _ _ written
  have isFirst : d.lowerFirst casing = d.first.map Char.toLower :=
    casing.lowercaseIn_ascii (ascii d.first List.mem_cons_self) _ _
  unfold Says words
  rw [isFirst, map_snd_lowerRest _ fun fixed inside => ascii fixed (List.mem_cons_of_mem _ inside),
    ← List.map_cons]
  simp only [List.mem_map, exists_exists_and_eq_and]

/-- The words have a phrase of their kind. -/
theorem contained_own (worded : git.Worded) (written : d.Written git) (some_ : d.kind ≠ .other) :
    d.kind.contained (casing.to_lowercase d.stderr) := by
  rcases worded.told _ _ _ written some_ with ⟨fixed, inside, telltale, isTelltale, said⟩
  apply (contained_iff d.kind).mpr
  refine ⟨telltale, telltales_subset_phrases d.kind isTelltale, .inl ?_⟩
  exact (says_iff worded written _).mpr ⟨fixed, inside, said⟩

/-- A phrase that is searched for before can only be in a name. -/
theorem contained_before_iff (worded : git.Worded) (written : d.Written git) {before : Failure}
    (isBefore : before ∈ d.kind.before) :
    before.contained (casing.to_lowercase d.stderr) ↔
      ∃ phrase ∈ before.phrases, d.Names casing phrase := by
  rw [contained_iff]
  constructor
  · intro found
    rcases found with ⟨phrase, isPhrase, said | named⟩
    · rcases exists_telltale before phrase isPhrase with ⟨telltale, isTelltale, part⟩
      rcases (says_iff worded written phrase).mp said with ⟨fixed, inside, occurs⟩
      exact absurd (part.isInfix.trans occurs)
        (worded.plain _ _ _ written before isBefore telltale isTelltale fixed inside)
    · exact ⟨phrase, isPhrase, named⟩
  · intro found
    rcases found with ⟨phrase, isPhrase, named⟩
    exact ⟨phrase, isPhrase, .inr named⟩

theorem namesSilent_iff (worded : git.Worded) (written : d.Written git) :
    d.NamesSilent casing ↔
      ∀ before ∈ d.kind.before, ¬ before.contained (casing.to_lowercase d.stderr) := by
  unfold NamesSilent
  constructor
  · intro silent before isBefore found
    rcases (contained_before_iff worded written isBefore).mp found with ⟨phrase, isPhrase, named⟩
    exact silent before isBefore phrase isPhrase named
  · intro absent before isBefore phrase isPhrase named
    exact absent before isBefore
      ((contained_before_iff worded written isBefore).mpr ⟨phrase, isPhrase, named⟩)

/-- A failure is reported as what it is exactly where no name hides it. -/
theorem classified_iff (worded : git.Worded) (written : d.Written git) :
    d.Classified casing ↔ d.NamesSilent casing := by
  have own := @contained_own casing _ _ worded written
  rw [namesSilent_iff worded written]
  unfold Classified classify_git_cli_failure error
  dsimp only
  cases isKind : d.kind with
  | rejected =>
    rw [isKind] at own
    rw [if_pos (own (by simp))]
    simp [Failure.before]
  | authentication =>
    rw [isKind] at own
    have own := own (by simp)
    simp only [Failure.before, List.forall_mem_singleton]
    split_ifs <;> simp_all
  | network =>
    rw [isKind] at own
    have own := own (by simp)
    simp only [Failure.before, List.forall_mem_cons]
    split_ifs <;> simp_all
  | other =>
    simp only [Failure.before, List.forall_mem_cons]
    split_ifs <;> simp_all

end Diagnostic

/-! ## Messages of Git -/

/-- Messages of `git push` and `git fetch`. -/
inductive CLocale : Failure → Text → List Text → Prop where
  | non_fast_forward : CLocale .rejected "To ".toList
      ["\n ! [rejected]        ".toList, " -> ".toList,
        " (non-fast-forward)\nerror: failed to push some refs to '".toList, "'\n".toList]
  | unauthenticated : CLocale .authentication "fatal: Authentication failed for '".toList
      ["'\n".toList]
  | forbidden : CLocale .authentication "fatal: unable to access '".toList
      ["': The requested URL returned error: 403\n".toList]
  | unresolved : CLocale .network "fatal: unable to access '".toList
      ["': Could not resolve host: ".toList, "\n".toList]
  | unknown_ref : CLocale .other "error: src refspec ".toList
      [" does not match any\nerror: failed to push some refs to '".toList, "'\n".toList]

def cLocale : GitMessages := ⟨CLocale⟩

theorem cLocale_worded : cLocale.Worded where
  ascii kind first others writes := by
    intro fixed inside
    refine List.all_iff_forall_prop.mp ?_
    revert fixed
    cases writes
    all_goals decide +kernel
  told kind first others writes some_ := by
    cases writes
    case unknown_ref => exact absurd rfl some_
    all_goals decide +kernel
  plain kind first others writes := by
    cases writes
    all_goals decide +kernel

end Burlmd.Git
