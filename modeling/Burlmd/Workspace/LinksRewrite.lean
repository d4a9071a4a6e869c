import Mathlib.Data.List.Sort
import Mathlib.Tactic.Common
import Burlmd.Error
import Burlmd.Library.BottomUp
import Burlmd.Markdown.Events
import Burlmd.Okf.Links

/-!
# Rewriting link destinations in the bytes of a Note

The scan walks the same event stream as the parser with a stack of its own. The
destination of a link is then found in its bytes, from where its inner events end.
-/

namespace Burlmd.Workspace

open Utf8
open BottomUp (sortByKey)
open Okf
open Markdown

/-- Old concept id to new concept id, for every Note an operation re-identifies. -/
abbrev Remap := List (ConceptId × ConceptId)

inductive Replacement where
  | note (concept_id : ConceptId)
  | bundlePath (path : Text)
  deriving DecidableEq, Repr

namespace Replacement

/-- The text to splice in, angle brackets included. -/
def destinationText : Replacement → Text
  | note concept_id => serializeDestination (slash :: concept_id ++ mdSuffix)
  | bundlePath path => serializeDestination (slash :: path)

def display : Replacement → Text
  | note concept_id => concept_id
  | bundlePath path => path

end Replacement

inductive Scan where
  | linksOnly
  | linksAndImages
  deriving DecidableEq, Repr

structure MatchedLink where
  span : Range
  /-- The furthest byte an inner event reached. -/
  text_end : Nat
  new_target : Replacement
  deriving DecidableEq, Repr

structure OpenLink where
  link : MatchedLink
  matches_ : Bool
  deriving DecidableEq, Repr

/-- Extends the innermost open link over an event that lies inside it. -/
def foldInner (links : List OpenLink) (range : Range) : List OpenLink :=
  match links with
  | [] => []
  | top :: rest =>
      if top.link.span.start ≤ range.start && range.stop ≤ top.link.span.stop then
        { top with link := { top.link with text_end := max top.link.text_end range.stop } } :: rest
      else top :: rest

/-- The destination of an event that opens a link the scan considers. -/
def Scan.opened (scan : Scan) : Event → Option Text
  | .start (.link dest_url) => some dest_url
  | .start (.image dest_url) => if scan = .linksAndImages then some dest_url else none
  | _ => none

def Scan.closes (scan : Scan) (event : Event) : Bool :=
  event = .stop .link || (scan = .linksAndImages && event = .stop .image)

structure ScanState where
  open_ : List OpenLink
  matched : List MatchedLink
  deriving DecidableEq, Repr

def ScanState.step (scan : Scan) (select : Text → Option Replacement) (st : ScanState)
    (event : Event × Range) : ScanState :=
  match scan.opened event.1 with
  | some dest_url =>
      let new_target := select dest_url
      let link := ⟨event.2, event.2.start + 1, new_target.getD (.note [])⟩
      { st with open_ := ⟨link, new_target.isSome⟩ :: st.open_ }
  | none =>
      if scan.closes event.1 then
        match st.open_ with
        | [] => st
        | closed :: rest =>
            ⟨foldInner rest closed.link.span,
              if closed.matches_ then st.matched ++ [closed.link] else st.matched⟩
      else { st with open_ := foldInner st.open_ event.2 }

def matchingLinks (events : List (Event × Range)) (scan : Scan)
    (select : Text → Option Replacement) : List MatchedLink :=
  (events.foldl (ScanState.step scan select) ⟨[], []⟩).matched

/-! ## Destinations -/

def byte (c : Char) : UInt8 := c.toNat.toUInt8

def isAsciiWhitespace (b : UInt8) : Bool :=
  b = byte ' ' || b = byte '\t' || b = byte '\n' || b = 0x0C || b = byte '\r'

def isEscaped (bytes : List UInt8) (index : Nat) : Bool :=
  ((bytes.take index).reverse.takeWhile (· = byte '\\')).length % 2 = 1

/-- The first offset from `start` on that holds no whitespace, and the bytes there. -/
@[grind =] def skipWhitespace (limit : Nat) : Nat → List UInt8 → Nat × List UInt8
  | start, [] => (start, [])
  | start, b :: rest =>
      if start < limit && isAsciiWhitespace b then skipWhitespace limit (start + 1) rest
      else (start, b :: rest)

/-- Where the angle bracket that is open at `k` closes. -/
@[grind =] def angleEnd (limit : Nat) : Nat → List UInt8 → Option Nat
  | _, [] => none
  | k, b :: rest =>
      if limit ≤ k then none
      else if b = byte '\\' then
        match rest with
        | [] => none
        | _ :: rest => angleEnd limit (k + 2) rest
      else if b = byte '>' then some (k + 1)
      else angleEnd limit (k + 1) rest

/-- Where a bare destination ends, with the parentheses open so far. -/
@[grind =] def bareEnd (limit : Nat) : Nat → Nat → List UInt8 → Nat
  | _, k, [] => k
  | depth, k, b :: rest =>
      if limit ≤ k then k
      else if b = byte '\\' then
        match rest with
        | [] => k + 2
        | _ :: rest => bareEnd limit depth (k + 2) rest
      else if b = byte '(' then bareEnd limit (depth + 1) (k + 1) rest
      else if b = byte ')' then if depth = 0 then k else bareEnd limit (depth - 1) (k + 1) rest
      else if isAsciiWhitespace b then k
      else bareEnd limit depth (k + 1) rest

def parseDestination (bytes : List UInt8) (from_ limit : Nat) : Option Range :=
  match skipWhitespace limit from_ (bytes.drop from_) with
  | (_, []) => none
  | (start, b :: rest) =>
      if limit ≤ start then none
      else if b = byte '<' then (angleEnd limit (start + 1) rest).map fun stop => ⟨start, stop⟩
      else
        let stop := bareEnd limit 0 start (b :: rest)
        if start < stop then some ⟨start, stop⟩ else none

/-- The first unescaped closing bracket from `i` on decides. -/
@[grind =] def scanClosing (bytes : List UInt8) (limit : Nat) : Nat → List UInt8 → Option Range
  | _, [] => none
  | i, b :: rest =>
      if limit ≤ i then none
      else if b = byte ']' && !isEscaped bytes i then
        if rest.head? = some (byte '(') then parseDestination bytes (i + 2) limit else none
      else scanClosing bytes limit (i + 1) rest

def destinationSpan (source : Text) (span : Range) (text_end : Nat) : Option Range :=
  let i := max text_end (span.start + 1)
  scanClosing (bytes source) span.stop i ((bytes source).drop i)

/-! ## The splice -/

def notInline (link : MatchedLink) : AppError :=
  .parseError <| "the Link at bytes ".toList ++ shown link.span.start ++ "..".toList ++
    shown link.span.stop ++ " targets ".toList ++ link.new_target.display ++
    (" but its destination is not written inline, so this operation cannot rewrite it; " ++
      "rewriting the rest would leave the graph partially updated " ++
      "(architecture/risks.md risk 8)").toList

def notAddressable (span : Range) : AppError :=
  .parseError <| "link destination span ".toList ++ shown span.start ++ "..".toList ++
    shown span.stop ++ " is not addressable in this Note".toList

def destinations (source : Text) : List MatchedLink → Except AppError (List (Range × Text))
  | [] => .ok []
  | link :: rest =>
      match destinationSpan source link.span link.text_end with
      | none => .error (notInline link)
      | some destination =>
          (destinations source rest).map fun rewrites =>
            (destination, link.new_target.destinationText) :: rewrites

/-- Splices the rewrites in the order given. -/
def spliceAll : Text → List (Range × Text) → Except AppError Text
  | out, [] => .ok out
  | out, (span, replacement) :: rest =>
      match splice? out span replacement with
      | none => .error (notAddressable span)
      | some out => spliceAll out rest

def rewriteDestinations (source : Text) (events : List (Event × Range)) (scan : Scan)
    (select : Text → Option Replacement) : Except AppError (Option Text) := do
  let rewrites ← destinations source (matchingLinks events scan select)
  if rewrites.isEmpty then return none
  -- descending, so that no splice moves a span that is still to come
  let out ← spliceAll source
    (sortByKey (fun rewrite : Range × Text => OrderDual.toDual rewrite.1.start) rewrites)
  return some out

/-- The new id of a destination that names a remapped Note. -/
def Remap.select (remap : Remap) (containing_dir : Text) (dest : Text) : Option Replacement :=
  match classify dest containing_dir with
  | .internal id => (remap.lookup id).map .note
  | .external _ => none

def rewriteLinkTargets (events : Text → List (Event × Range)) (source containing_dir : Text)
    (remap : Remap) : Except AppError (Option Text) :=
  if remap.isEmpty then .ok none
  else rewriteDestinations source (events source) .linksOnly (remap.select containing_dir)

/-- The bundle-absolute spelling of a destination written relatively. -/
def absolute (containing_dir : Text) (dest : Text) : Option Replacement :=
  if [slash].isPrefixOf dest then none
  else
    match classify dest containing_dir with
    | .internal id => some (.note id)
    | .external _ => (resolveBundlePath dest containing_dir).map .bundlePath

def absolutizeRelativeLinks (events : Text → List (Event × Range)) (source containing_dir : Text) :
    Except AppError (Option Text) :=
  rewriteDestinations source (events source) .linksAndImages (absolute containing_dir)

end Burlmd.Workspace
