import Mathlib.Data.List.Basic
import Mathlib.Tactic.Common
import Burlmd.Library.Utf8

/-!
# Classifying and serializing OKF links

`classify` receives a destination as the Markdown parser resolved it, together
with the directory of the Note that holds it. The bundle-absolute spelling is
the one burlmd writes.
-/

namespace Burlmd.Okf

open Utf8 (Text)

/-- A concept id: the bundle-relative path of a Note without its `.md`. -/
abbrev ConceptId := Text

inductive LinkTarget where
  | internal (concept_id : ConceptId)
  | external (url : Text)
  deriving DecidableEq, Repr

def slash : Char := '/'

def mdSuffix : Text := ['.', 'm', 'd']

def pathToConceptId (path : Text) : ConceptId :=
  let path := (path.dropPrefix? [slash]).getD path
  (path.dropSuffix? mdSuffix).getD path

def conceptIdToPath (concept_id : ConceptId) : Text := concept_id ++ mdSuffix

/-- The directory part of a concept id, empty for a Note at the bundle root. -/
def containingDir (concept_id : ConceptId) : Text :=
  [slash].intercalate (concept_id.splitOn slash).dropLast

def isSchemeChar (c : Char) : Bool :=
  c.isAlphanum || c == '+' || c == '-' || c == '.'

def hasUrlScheme (dest : Text) : Bool :=
  match dest.findIdx? (· == ':') with
  | some colon =>
      match dest.take colon with
      | [] => false
      | first :: others => first.isAlpha && others.all isSchemeChar
  | none => false

/-- One segment of a destination against the stack of components, innermost first. -/
def pushSegment (stack : List Text) (segment : Text) : Option (List Text) :=
  if segment = [] ∨ segment = ['.'] then some stack
  else if segment = ['.', '.'] then
    match stack with
    | [] => none
    | _ :: rest => some rest
  else some (segment :: stack)

def components (path : Text) : List Text :=
  (path.splitOn slash).filter (· ≠ [])

def resolvePath (containing_dir dest : Text) : Option Text :=
  ((dest.splitOn slash).foldlM pushSegment (components containing_dir).reverse).map fun stack =>
    [slash].intercalate stack.reverse

def resolveRelative (containing_dir dest : Text) : Option ConceptId :=
  let dest_without_ext := (dest.dropSuffix? mdSuffix).getD dest
  if ((dest_without_ext.splitOn slash).getLastD []) = [] then none
  else resolvePath containing_dir dest_without_ext

def classify (dest containing_dir : Text) : LinkTarget :=
  if hasUrlScheme dest || !mdSuffix.isSuffixOf dest then .external dest
  else
    -- An absolute destination resolves from the bundle root.
    let (base, relative) :=
      match dest.dropPrefix? [slash] with
      | some absolute => ([], absolute)
      | none => (containing_dir, dest)
    match resolveRelative base relative with
    | some concept_id => .internal concept_id
    | none => .external dest

def resolveBundlePath (dest containing_dir : Text) : Option Text :=
  if dest = [] || [slash].isPrefixOf dest || '#' ∈ dest || '?' ∈ dest || hasUrlScheme dest then
    none
  else (resolvePath containing_dir dest).filter (· ≠ [])

/-- Backslash-escapes the characters of `text` that `special` selects. -/
def escape (special : Char → Bool) (text : Text) : Text :=
  text.flatMap fun c => if special c then ['\\', c] else [c]

def escapeLinkText : Text → Text :=
  escape fun c => c ∈ ['\\', '[', ']', '<', '>', '&']

def escapeDestination : Text → Text :=
  escape fun c => c ∈ ['\\', '<', '>', '&']

def serializeDestination (path : Text) : Text :=
  ['<'] ++ escapeDestination path ++ ['>']

def serializeLink (text : Text) (concept_id : ConceptId) : Text :=
  ['['] ++ escapeLinkText text ++ [']', '('] ++
    serializeDestination (slash :: concept_id ++ mdSuffix) ++ [')']

namespace LinkTarget

def internal? : LinkTarget → Option ConceptId
  | internal concept_id => some concept_id
  | external _ => none

@[simp] theorem internal?_internal (concept_id : ConceptId) :
    (internal concept_id).internal? = some concept_id := rfl

@[simp] theorem internal?_external (url : Text) : (external url).internal? = none := rfl

end LinkTarget

end Burlmd.Okf
