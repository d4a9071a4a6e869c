import Burlmd.Workspace.Bundle
import Burlmd.Workspace.LinksRewrite

/-!
# The frontmatter title

A rename rewrites the `title` of a Note that has a frontmatter block, in the file and in
every unflushed copy of it. The rest of the block stays byte for byte.
-/

namespace Burlmd.Lifecycle

open Workspace
open Utf8 (Text Range byteLen slice? splice?)
open Markdown (parseNote trim)

/-! ## YAML scalars -/

/-- Unicode category Cc. -/
def isControl (c : Char) : Bool := c.toNat < 0x20 || (0x7F ≤ c.toNat && c.toNat < 0xA0)

/-- The code point in upper-case hexadecimal, four digits at least. -/
def hexadecimal (c : Char) : Text :=
  let digits := (Nat.toDigits 16 c.toNat).map Char.toUpper
  List.replicate (4 - digits.length) '0' ++ digits

def yamlReserved : List Text :=
  ["true", "false", "yes", "no", "on", "off", "null"].map String.toList

/-- A value that YAML reads back as the same string when it stands there bare. -/
def isPlainScalar (host : Host) (value : Text) : Bool :=
  value.head?.any Char.isAlpha &&
    value.getLast? ≠ some ' ' &&
    !(value.tails.any fun rest => [':', ' '].isPrefixOf rest) &&
    !(value.tails.any fun rest => [' ', '#'].isPrefixOf rest) &&
    value.all (fun c => host.is_alphanumeric c || c ∈ [' ', '_', '-', '.', '(', ')']) &&
    value.map Char.toLower ∉ yamlReserved

def escapeScalarChar (c : Char) : Text :=
  if c = '"' then ['\\', '"']
  else if c = '\\' then ['\\', '\\']
  else if c = '\n' then ['\\', 'n']
  else if c = '\r' then ['\\', 'r']
  else if c = '\t' then ['\\', 't']
  else if isControl c then ['\\', 'u'] ++ hexadecimal c
  else [c]

def yamlScalar (host : Host) (value : Text) : Text :=
  if isPlainScalar host value then value
  else ['"'] ++ value.flatMap escapeScalarChar ++ ['"']

def conformantFrontmatter (host : Host) (title : Text) : Text :=
  "---\ntype: Note\ntitle: ".toList ++ yamlScalar host title ++ "\n---\n\n".toList

/-! ## Finding the key -/

/-- The lines of a text, each with its terminator. -/
def splitInclusive : Text → List Text
  | [] => []
  | c :: rest =>
      if c = '\n' then [c] :: splitInclusive rest
      else
        match splitInclusive rest with
        | [] => [[c]]
        | line :: lines => (c :: line) :: lines

def trimLineEnd (line : Text) : Text :=
  (line.reverse.dropWhile fun c => c = '\n' || c = '\r').reverse

/-- The lines without their terminators, each with the offset it starts at. -/
def linesFrom : Nat → List Text → List (Nat × Text)
  | _, [] => []
  | offset, line :: rest => (offset, trimLineEnd line) :: linesFrom (offset + byteLen line) rest

def isIndented (line : Text) : Bool := line.head? = some ' ' || line.head? = some '\t'

/-- What stands before the first colon of a line. -/
def keyOf (line : Text) : Text := line.takeWhile (· ≠ ':')

def stripQuotes (quote : Char) (key : Text) : Option Text :=
  (key.dropPrefix? [quote]).bind fun rest => rest.dropSuffix? [quote]

def isTitleKey (line : Text) : Bool :=
  if isIndented line then false
  else
    let key := trim (keyOf line)
    ((stripQuotes '"' key).or (stripQuotes '\'' key)).getD key = "title".toList

/-- A value continues over the indented lines below its own. -/
def valueEnd : Nat → List (Nat × Text) → Nat
  | stop, [] => stop
  | stop, (start, next) :: rest =>
      if isIndented next then valueEnd (start + byteLen next) rest else stop

def newlineStyle (text : Text) : Text :=
  match (text.reverse.dropWhile (· ≠ '\n')).drop 1 with
  | '\r' :: _ => ['\r', '\n']
  | _ => ['\n']

/-! ## The rewrite -/

/-- Where a new title goes in a source with a frontmatter block, and what goes there. -/
def titleEdit (host : Host) (source new_title : Text) : Option (Range × Text) := do
  let span ← (parseNote source [] (host.events source)).spans.frontmatter
  let block ← slice? source span
  let lines := linesFrom span.start (splitInclusive block)
  match lines.findIdx? fun line => isTitleKey line.2 with
  | some index =>
      let (start, line) ← lines[index]?
      let stop := valueEnd (start + byteLen line) (lines.drop (index + 1))
      some (⟨start, stop⟩, keyOf line ++ ": ".toList ++ yamlScalar host new_title)
  | none =>
      let (closing_start, _) ← lines.getLast?
      let before ← slice? source ⟨span.start, closing_start⟩
      some (⟨closing_start, closing_start⟩,
        "title: ".toList ++ yamlScalar host new_title ++ newlineStyle before)

/-- Nothing when the Note has no block, or carries this title already. -/
def rewriteFrontmatterTitle (host : Host) (source new_title : Text) : Option Text := do
  let (span, replacement) ← titleEdit host source new_title
  let replaced ← slice? source span
  if replaced = replacement then none else splice? source span replacement

end Burlmd.Lifecycle
