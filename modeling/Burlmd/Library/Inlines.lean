import Burlmd.Library.Runs

/-!
# The inline content of a line

One line of inline content as CommonMark reads it. Escapes and code spans are read first,
links where their bracket closes, and the markers between two brackets pair up when these
close. How a run of markers flanks, which runs pair, and what an angle bracket or an
ampersand starts, is left to the rules of a dialect. The document defines no references.
-/

namespace Burlmd.CommonMark

open Utf8 (Text)

/-- A text without a line ending. -/
structure Line where
  text : Text
  whole : ∀ c ∈ text, isLineEnding c = false

inductive Kind where
  | emphasis (marker : Marker) (length : Nat)
  | link (dest_url : Text)
  | image (dest_url : Text)
  deriving DecidableEq, Repr

inductive Inlines where
  | nil
  | text (content : Text) (rest : Inlines)
  | code (content : Text) (rest : Inlines)
  | node (kind : Kind) (children rest : Inlines)
  deriving DecidableEq, Repr

namespace Inlines

def append : Inlines → Inlines → Inlines
  | nil, last => last
  | text content rest, last => text content (rest.append last)
  | code content rest, last => code content (rest.append last)
  | node kind children rest, last => node kind children (rest.append last)

/-- The plain text that a reader sees. -/
def shown : Inlines → Text
  | nil => []
  | text content rest => content ++ rest.shown
  | code content rest => content ++ rest.shown
  | node _ children rest => children.shown ++ rest.shown

@[simp] theorem shown_append (first last : Inlines) :
    (first.append last).shown = first.shown ++ last.shown := by
  induction first with
  | nil => rfl
  | text content rest ih => simp [append, shown, ih]
  | code content rest ih => simp [append, shown, ih]
  | node kind children rest _ ih => simp [append, shown, ih]

end Inlines

/-- A run of markers, read `length` long, of which `count` are left. -/
structure Delim where
  marker : Marker
  length : Nat
  count : Nat
  opens : Bool
  closes : Bool
  deriving DecidableEq, Repr

/-- What is read but not yet closed. -/
inductive Item where
  | piece (inlines : Inlines)
  | run (delim : Delim)
  | bracket (image active : Bool)
  deriving DecidableEq, Repr

namespace Item

def plain (content : Text) : Item := piece (.text content .nil)

/-- An item that nothing closes any more. -/
def inlines : Item → Inlines
  | piece inlines => inlines
  | run delim => .text (List.replicate delim.count delim.marker.char) .nil
  | bracket image _ => .text (if image then ['!', '['] else ['[']) .nil

def shown (item : Item) : Text := item.inlines.shown

def delim? : Item → Option Delim
  | run delim => some delim
  | _ => none

def deactivate : Item → Item
  | bracket false _ => bracket false false
  | item => item

end Item

def concat (items : List Item) : Inlines :=
  items.foldr (fun item rest => item.inlines.append rest) .nil

/-- What the dialects differ in, and what is not followed here. -/
structure Rules where
  /-- A run of markers with what stands before and behind it. -/
  opens : Marker → Nat → Option Char → Option Char → Bool
  closes : Marker → Nat → Option Char → Option Char → Bool
  /-- The lengths fit. -/
  fits : Delim → Delim → Bool
  /-- What starts behind an angle bracket, and how many characters it takes. -/
  angle : Text → Option (Inlines × Nat)
  entity : Text → Option (Text × Nat)

namespace Rules

variable (rules : Rules)

/-! ## Emphasis -/

def pairs (opener closer : Delim) : Bool :=
  opener.marker = closer.marker && opener.opens && closer.closes && rules.fits opener closer

/-- The nearest run that opens what `closer` closes. -/
def opener? (closer : Delim) : List Item → Option (List Item × Delim × List Item)
  | [] => none
  | .run opener :: left =>
      if rules.pairs opener closer then some ([], opener, left)
      else (opener? closer left).map fun found => (.run opener :: found.1, found.2)
  | item :: left => (opener? closer left).map fun found => (item :: found.1, found.2)

end Rules

/-- How many markers a pair takes from either run. -/
def Delim.used (opener closer : Delim) : Nat :=
  if closer.marker = .tilde then closer.count
  else if 2 ≤ opener.count ∧ 2 ≤ closer.count then 2
  else 1

def Delim.without (delim : Delim) (used : Nat) : Delim := { delim with count := delim.count - used }

def Delim.item? (delim : Delim) : List Item := if delim.count = 0 then [] else [.run delim]

namespace Rules

variable (rules : Rules)

/-- Pairs a closing run with the runs to its left, until it is used up or nothing pairs. Each
round takes a marker at least. -/
def settle : Nat → Delim → List Item → List Item
  | 0, _, left => left
  | rounds + 1, closer, left =>
      match rules.opener? closer left with
      | none => closer.item? ++ left
      | some (inner, opener, outer) =>
          let used := opener.used closer
          let node := Inlines.node (.emphasis closer.marker used) (concat inner.reverse) .nil
          let left := .piece node :: ((opener.without used).item? ++ outer)
          if closer.count ≤ used then left else settle rounds (closer.without used) left

def absorb (left : List Item) : Item → List Item
  | .run closer => rules.settle closer.count closer left
  | item => item :: left

/-- The items between two brackets, with the runs paired. -/
def resolve (items : List Item) : Inlines := concat (items.foldl rules.absorb []).reverse

end Rules

/-! ## Destinations -/

def isGap (c : Char) : Bool := isBlank c || isLineEnding c

/-- The body of a pointy destination and what follows it. -/
def pointy? : Text → Option (Text × Text)
  | [] => none
  | c :: rest =>
      if c = '\\' then
        match rest with
        | [] => none
        | d :: rest =>
            if isAsciiPunctuation d then (pointy? rest).map fun found => (c :: d :: found.1, found.2)
            else (pointy? (d :: rest)).map fun found => (c :: found.1, found.2)
      else if c = '>' then some ([], rest)
      else if c = '<' || isLineEnding c then none
      else (pointy? rest).map fun found => (c :: found.1, found.2)

/-- A bare destination inside `depth` open parentheses, and what follows it. -/
def bare? : Nat → Text → Option (Text × Text)
  | depth, [] => if depth = 0 then some ([], []) else none
  | depth, c :: rest =>
      if c = '\\' then
        match rest with
        | [] => if depth = 0 then some (['\\'], []) else none
        | d :: rest =>
            if isAsciiPunctuation d then
              (bare? depth rest).map fun found => (c :: d :: found.1, found.2)
            else (bare? depth (d :: rest)).map fun found => (c :: found.1, found.2)
      else if c = ' ' || isAsciiControl c then
        if depth = 0 then some ([], c :: rest) else none
      else if c = '(' then (bare? (depth + 1) rest).map fun found => (c :: found.1, found.2)
      else if c = ')' then
        if depth = 0 then some ([], c :: rest)
        else (bare? (depth - 1) rest).map fun found => (c :: found.1, found.2)
      else (bare? depth rest).map fun found => (c :: found.1, found.2)

def destination? : Text → Option (Text × Text)
  | [] => none
  | c :: rest => if c = '<' then pointy? rest else bare? 0 (c :: rest)

def Quotes.of? (c : Char) : Option Quotes :=
  if c = '"' then some double
  else if c = '\'' then some single
  else if c = '(' then some parentheses
  else none

/-- What follows the closing quote of a title. -/
def title? (quotes : Quotes) : Text → Option Text
  | [] => none
  | c :: rest =>
      if c = '\\' then
        match rest with
        | [] => none
        | d :: rest => if isAsciiPunctuation d then title? quotes rest else title? quotes (d :: rest)
      else if c = quotes.closing then some rest
      else if c = quotes.opening then none
      else title? quotes rest

/-- What follows the closing parenthesis. -/
def closed? (text : Text) : Option Text :=
  match text.dropWhile isGap with
  | [] => none
  | c :: rest => if c = ')' then some rest else none

/-- What follows a link, from the end of its destination on. -/
def ending? (text : Text) : Option Text :=
  match closed? text with
  | some rest => some rest
  | none =>
      match text.dropWhile isGap with
      | [] => none
      | c :: rest =>
          -- a title stands apart from the destination
          if text.head? = some c then none
          else ((Quotes.of? c).bind fun quotes => title? quotes rest).bind closed?

namespace Rules

variable (rules : Rules)

/-- A destination as it reads, from the character behind an entity reference on. -/
def decode : Nat → Text → Text
  | _, [] => []
  | skip + 1, _ :: rest => decode skip rest
  | 0, c :: rest =>
      if c = '\\' then
        match rest with
        | [] => ['\\']
        | d :: rest => if isAsciiPunctuation d then d :: decode 0 rest else '\\' :: decode 0 (d :: rest)
      else if c = '&' then
        match rules.entity rest with
        | some (content, length) => content ++ decode length rest
        | none => c :: decode 0 rest
      else c :: decode 0 rest

/-- What makes a bracket a link: the destination, and how many characters it takes. -/
def tail? : Text → Option (Text × Nat)
  | [] => none
  | c :: rest =>
      if c = '(' then
        (destination? (rest.dropWhile isGap)).bind fun found =>
          (ending? found.2).map fun after =>
            (rules.decode 0 found.1, rest.length + 1 - after.length)
      else none

end Rules

/-! ## The scan -/

/-- One blank at either end of a code span is not content, if there is any other content. -/
def trimCode (content : Text) : Text :=
  if content.head? = some ' ' && content.getLast? = some ' ' && content.any (· ≠ ' ') then
    content.tail.dropLast
  else content

/-- The nearest open bracket, with what is inside and outside of it. -/
def bracket? : List Item → Option (List Item × (Bool × Bool) × List Item)
  | [] => none
  | .bracket image active :: outer => some ([], (image, active), outer)
  | item :: outer => (bracket? outer).map fun found => (item :: found.1, found.2)

/-- How many of the same character stand in front. -/
def leading (c : Char) (text : Text) : Nat := (text.takeWhile (· = c)).length

namespace Rules

variable (rules : Rules)

def codeSpan (stack : List Item) (rest : Text) : List Item × Nat :=
  let more := leading tick rest
  match before? (more + 1) (chunks (rest.drop more)) with
  | some length =>
      (.piece (.code (trimCode ((rest.drop more).take length)) .nil) :: stack,
        more + length + (more + 1))
  | none => (.plain (List.replicate (more + 1) tick) :: stack, more)

def markers (marker : Marker) (previous : Option Char) (stack : List Item) (rest : Text) :
    List Item × Nat :=
  let more := leading marker.char rest
  let next := (rest.drop more).head?
  (.run ⟨marker, more + 1, more + 1, rules.opens marker (more + 1) previous next,
    rules.closes marker (more + 1) previous next⟩ :: stack, more)

def closeBracket (stack : List Item) (rest : Text) : List Item × Nat :=
  match bracket? stack with
  | none => (.plain [']'] :: stack, 0)
  | some (inner, (image, active), outer) =>
      let literal := (.plain [']'] :: inner ++ .plain (if image then ['!', '['] else ['[']) :: outer, 0)
      if active then
        match rules.tail? rest with
        | none => literal
        | some (dest_url, length) =>
            let children := rules.resolve inner.reverse
            if image then (.piece (.node (.image dest_url) children .nil) :: outer, length)
            else (.piece (.node (.link dest_url) children .nil) :: outer.map Item.deactivate, length)
      else literal

/-- Reads on at the character `c`: what is read so far, and how many characters behind `c`
are read with it. -/
def step (previous : Option Char) (stack : List Item) (c : Char) (rest : Text) : List Item × Nat :=
  if c = '\\' then
    match rest.head? with
    | some d =>
        if isAsciiPunctuation d then (.plain [d] :: stack, 1) else (.plain [c] :: stack, 0)
    | none => (.plain [c] :: stack, 0)
  else if c = tick then codeSpan stack rest
  else
    match Marker.of? c with
    | some marker => rules.markers marker previous stack rest
    | none =>
        if c = '[' then (.bracket false true :: stack, 0)
        else if c = '!' && rest.head? = some '[' then (.bracket true true :: stack, 1)
        else if c = ']' then rules.closeBracket stack rest
        else if c = '<' then
          match rules.angle rest with
          | some (inlines, length) => (.piece inlines :: stack, length)
          | none => (.plain [c] :: stack, 0)
        else if c = '&' then
          match rules.entity rest with
          | some (content, length) => (.plain content :: stack, length)
          | none => (.plain [c] :: stack, 0)
        else (.plain [c] :: stack, 0)

/-- Reads a text whose first characters may be read already. -/
def scan : Nat → Option Char → List Item → Text → Inlines
  | _, _, stack, [] => rules.resolve stack.reverse
  | skip + 1, _, stack, c :: rest => scan skip (some c) stack rest
  | 0, previous, stack, c :: rest =>
      scan (rules.step previous stack c rest).2 (some c) (rules.step previous stack c rest).1 rest

end Rules

/-- A null character is never shown. -/
def secure (c : Char) : Char := if c = '\x00' then Char.ofNat 0xFFFD else c

def Rules.inlines (rules : Rules) (line : Line) : Inlines :=
  rules.scan 0 none [] (line.text.map secure)

/-! ## The dialect with strikethrough -/

section Flanking

variable (isSpace isSign : Char → Bool)

/-- What stands behind a run is no whitespace, and punctuation only behind whitespace or other
punctuation. -/
def flanks (behind before : Option Char) : Bool :=
  match behind with
  | none => false
  | some d => !isSpace d && (!isSign d || before.all fun c => isSpace c || isSign c)

/-- CommonMark with strikethrough between one or two tildes, over the classes of whitespace
and punctuation. -/
def Rules.commonMark (angle : Text → Option (Inlines × Nat)) (entity : Text → Option (Text × Nat)) :
    Rules where
  opens marker length previous next :=
    let left := flanks isSpace isSign next previous
    let right := flanks isSpace isSign previous next
    match marker with
    | .asterisk => left
    | .underscore => left && (!right || previous.any isSign)
    | .tilde => left && length ≤ 2
  closes marker length previous next :=
    let left := flanks isSpace isSign next previous
    let right := flanks isSpace isSign previous next
    match marker with
    | .asterisk => right
    | .underscore => right && (!left || next.any isSign)
    | .tilde => right && length ≤ 2
  fits opener closer :=
    match closer.marker with
    | .tilde => opener.length = closer.length
    | _ =>
        (!opener.closes && !closer.opens) || (opener.length + closer.length) % 3 ≠ 0 ||
          (opener.length % 3 = 0 && closer.length % 3 = 0)
  angle
  entity

end Flanking

end Burlmd.CommonMark
