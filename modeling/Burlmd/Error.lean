import Mathlib.Tactic.Common
import Burlmd.Library.Utf8

/-!
# The shared domain error
-/

namespace Burlmd

open Utf8 (Text)

inductive AppError where
  | diskFull
  | authExpired
  | revisionMismatch (base_revision : Text)
  | gitConflict
  | pathUnavailable (detail : Text)
  | notFound (detail : Text)
  | databaseError (detail : Text)
  | cryptoError (detail : Text)
  | networkError (detail : Text)
  | oAuthStateMismatch
  | oAuthError (detail : Text)
  | ioError (detail : Text)
  | parseError (detail : Text)
  deriving DecidableEq, Repr

/-- A natural number as a message shows it. -/
def shown (n : Nat) : Text := (toString n).toList

end Burlmd
