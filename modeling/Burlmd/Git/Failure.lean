import Mathlib.Data.List.Infix
import Burlmd.Error
import Burlmd.Library.Ascii
import Burlmd.Markdown.Parser

/-!
# Failures of the Git commands

What the output of a failed `git push`, `git fetch` or `git merge` is taken for.
-/

namespace Burlmd.Git

open Markdown (trim)
open Utf8 (Text IsAscii)

/-- Lower-casing: one character at a time, but for a sigma, which depends on what is around it. -/
structure Casing where
  lower : Char → Text
  final_sigma : Text → Text → Bool
  ascii : ∀ c, IsAscii c → lower c = [c.toLower]

namespace Casing

variable (casing : Casing)

def lowercaseIn (before : Text) : Text → Text → Text
  | [], _ => []
  | c :: rest, after =>
      (if c = 'Σ' then [if casing.final_sigma before (rest ++ after) then 'ς' else 'σ']
        else casing.lower c) ++ lowercaseIn (before ++ [c]) rest after

def to_lowercase (text : Text) : Text := casing.lowercaseIn [] text []

theorem lowercaseIn_append (before first second after : Text) :
    casing.lowercaseIn before (first ++ second) after =
      casing.lowercaseIn before first (second ++ after) ++
        casing.lowercaseIn (before ++ first) second after := by
  induction first generalizing before with
  | nil =>
    rw [List.append_nil]
    rfl
  | cons c rest ih =>
    rw [List.cons_append, lowercaseIn, lowercaseIn, ih, List.append_assoc, List.append_assoc,
      List.append_assoc, List.singleton_append]

theorem lowercaseIn_ascii {text : Text} (ascii : ∀ c ∈ text, IsAscii c) (before after : Text) :
    casing.lowercaseIn before text after = text.map Char.toLower := by
  induction text generalizing before with
  | nil => rfl
  | cons c rest ih =>
    have own := ascii c List.mem_cons_self
    have other : c ≠ 'Σ' := by
      intro sigma
      rw [sigma] at own
      exact absurd own (by decide)
    rw [lowercaseIn, if_neg other, casing.ascii c own,
      ih fun d mem => ascii d (List.mem_cons_of_mem _ mem)]
    rfl

end Casing

/-- The kinds of failure that the output is searched for, in the order of the search. -/
inductive Failure where
  | rejected
  | authentication
  | network
  | other
  deriving DecidableEq, Repr

def Failure.phrases : Failure → List Text
  | rejected => ["non-fast-forward".toList, "fetch first".toList, "conflict".toList]
  | authentication =>
      ["authentication failed".toList, "invalid credentials".toList,
        "invalid username or password".toList, "bad credentials".toList,
        "permission denied".toList, "access denied".toList, "error: 401".toList,
        "error: 403".toList, "returned error: 401".toList, "returned error: 403".toList,
        "http basic: access denied".toList,
        "support for password authentication was removed".toList]
  | network =>
      ["could not resolve host".toList, "could not read from remote repository".toList,
        "connection refused".toList, "connection timed out".toList, "unable to access".toList,
        "network".toList]
  | other => []

def Failure.contained (failure : Failure) (lower : Text) : Prop :=
  ∃ phrase ∈ failure.phrases, phrase <:+: lower

instance (failure : Failure) (lower : Text) : Decidable (failure.contained lower) :=
  inferInstanceAs (Decidable (∃ phrase ∈ failure.phrases, phrase <:+: lower))

/-- Standard error is taken as the text it decodes to. -/
def classify_git_cli_failure (casing : Casing) (stderr : Text) : AppError :=
  let lower := casing.to_lowercase stderr
  if Failure.rejected.contained lower then .gitConflict
  else if Failure.authentication.contained lower then .authExpired
  else if Failure.network.contained lower then .networkError (trim stderr)
  else .ioError (trim stderr)

/-- What a command leaves when it ends. -/
structure Output where
  success : Bool
  stdout : Text
  stderr : Text

/-- `git push`, which may not even start. -/
def push (casing : Casing) (output : Except Text Output) : Except AppError Unit :=
  match output with
  | .error e => .error (.ioError ("spawn git push: ".toList ++ e))
  | .ok output =>
      if output.success then .ok () else .error (classify_git_cli_failure casing output.stderr)

/-- `git fetch`, then `git merge` where it succeeds. -/
def pull (casing : Casing) (fetch_output merge_output : Except Text Output) : Except AppError Unit :=
  match fetch_output with
  | .error e => .error (.ioError ("spawn git fetch: ".toList ++ e))
  | .ok fetch_output =>
      if !fetch_output.success then .error (classify_git_cli_failure casing fetch_output.stderr)
      else
        match merge_output with
        | .error e => .error (.ioError ("spawn git merge: ".toList ++ e))
        | .ok merge_output =>
            if merge_output.success then .ok ()
            else
              let text := merge_output.stdout ++ merge_output.stderr
              if "CONFLICT".toList <:+: text ∨ "Automatic merge failed".toList <:+: text then
                .error .gitConflict
              else .error (classify_git_cli_failure casing merge_output.stderr)

end Burlmd.Git
