import Burlmd.Library.Utf8

/-!
# Link destinations in CommonMark

What follows the text of an inline link: a destination and a title between parentheses,
with gaps around them that may go over a line, and so over the markers of the containers
the next line starts with. A destination is pointy or bare, and a backslash escapes nothing
but ASCII punctuation.
-/

namespace Burlmd.CommonMark

open Utf8

def isAsciiPunctuation (c : Char) : Bool :=
  ('!' ≤ c && c ≤ '/') || (':' ≤ c && c ≤ '@') || ('[' ≤ c && c ≤ (Char.ofNat 96)) ||
    ('{' ≤ c && c ≤ '~')

def isAsciiControl (c : Char) : Bool := c.toNat < 32 || c.toNat = 127

def isBlank (c : Char) : Bool := c = ' ' || c = '\t'

def isLineEnding (c : Char) : Bool := c = '\n' || c = '\r'

/-! ## Destinations -/

/-- What may stand between the brackets of a pointy destination. -/
def pointyBody : Text → Bool
  | [] => true
  | c :: rest =>
      if c = '\\' then
        match rest with
        | [] => false
        | d :: rest => if isAsciiPunctuation d then pointyBody rest else pointyBody (d :: rest)
      else c ≠ '<' && c ≠ '>' && !isLineEnding c && pointyBody rest

/-- What may stand as a bare destination inside `depth` open parentheses. -/
def bareBody : Nat → Text → Bool
  | depth, [] => depth = 0
  | depth, c :: rest =>
      if c = '\\' then
        match rest with
        | [] => depth = 0
        | d :: rest =>
            if isAsciiPunctuation d then bareBody depth rest else bareBody depth (d :: rest)
      else if c = '(' then bareBody (depth + 1) rest
      else if c = ')' then depth ≠ 0 && bareBody (depth - 1) rest
      else c ≠ ' ' && !isAsciiControl c && bareBody depth rest

/-- Ends in a backslash that no other backslash escapes. -/
def endsInBackslash : Text → Bool
  | [] => false
  | c :: rest =>
      if c = '\\' then
        match rest with
        | [] => true
        | d :: rest =>
            if isAsciiPunctuation d then endsInBackslash rest else endsInBackslash (d :: rest)
      else endsInBackslash rest

/-- What a text reads as, with the escapes undone. -/
def unescape : Text → Text
  | [] => []
  | c :: rest =>
      if c = '\\' then
        match rest with
        | [] => ['\\']
        | d :: rest =>
            if isAsciiPunctuation d then d :: unescape rest else '\\' :: unescape (d :: rest)
      else c :: unescape rest

/-- No ampersand that could start an entity reference: each one is escaped. -/
def entityFree : Text → Bool
  | [] => true
  | c :: rest =>
      if c = '\\' then
        match rest with
        | [] => true
        | d :: rest => if isAsciiPunctuation d then entityFree rest else entityFree (d :: rest)
      else c ≠ '&' && entityFree rest

inductive Destination where
  | pointy (body : Text) (accepted : pointyBody body = true)
  /-- An empty one is left out. -/
  | bare (body : Text) (accepted : bareBody 0 body = true) (plain : body.head? ≠ some '<')

namespace Destination

def text : Destination → Text
  | pointy body _ => '<' :: body ++ ['>']
  | bare body _ _ => body

/-- A backslash at the end of a bare destination is one of its characters. -/
def BackslashAtEnd : Destination → Prop
  | pointy _ _ => False
  | bare body _ _ => endsInBackslash body = true

instance (destination : Destination) : Decidable destination.BackslashAtEnd :=
  match destination with
  | pointy _ _ => inferInstanceAs (Decidable False)
  | bare body _ _ => inferInstanceAs (Decidable (endsInBackslash body = true))

end Destination

/-- A pointy destination without entity references, and the URL it reads as. -/
def ReadsAs (text url : Text) : Prop :=
  ∃ body, text = '<' :: body ++ ['>'] ∧ pointyBody body = true ∧ entityFree body = true ∧
    unescape body = url

theorem ReadsAs.unique {text first second : Text} (left : ReadsAs text first)
    (right : ReadsAs text second) : first = second := by
  rcases left with ⟨body, same, -, -, url⟩
  rcases right with ⟨other, same', -, -, url'⟩
  rw [same, List.cons_append, List.cons_append] at same'
  rw [← url, ← url', List.append_cancel_right (List.cons.inj same').2]

/-! ## Gaps and titles -/

inductive LineEnding where
  | lf
  | cr
  | crlf
  deriving DecidableEq

def LineEnding.text : LineEnding → Text
  | lf => ['\n']
  | cr => ['\r']
  | crlf => ['\r', '\n']

/-- Blanks, over at most one line ending. Behind the line ending stand the markers of block
quotes and the indentation of list items, if the link is in any. -/
structure Gap where
  before : Text
  wrap : Option (LineEnding × Text)
  blank : ∀ c ∈ before, isBlank c = true
  markers : ∀ line ∈ wrap, ∀ c ∈ line.2, isBlank c = true ∨ c = '>'

namespace Gap

def text (gap : Gap) : Text :=
  gap.before ++ match gap.wrap with
    | none => []
    | some line => line.1.text ++ line.2

/-- Goes over no marker of a block quote. -/
def Unquoted (gap : Gap) : Prop := '>' ∉ gap.text

instance (gap : Gap) : Decidable gap.Unquoted := inferInstanceAs (Decidable (_ ∉ _))

def empty : Gap where
  before := []
  wrap := none
  blank _ mem := absurd mem List.not_mem_nil
  markers _ none := by cases none

theorem mem_text {gap : Gap} {c : Char} (mem : c ∈ gap.text) :
    isBlank c = true ∨ isLineEnding c = true ∨ c = '>' := by
  rcases List.mem_append.mp mem with before | wrapped
  · exact Or.inl (gap.blank c before)
  · cases wrap : gap.wrap with
    | none => simp [wrap] at wrapped
    | some line =>
      simp only [wrap] at wrapped
      rcases List.mem_append.mp wrapped with ending | marker
      · apply Or.inr
        apply Or.inl
        cases kind : line.1 <;> simp [kind, LineEnding.text] at ending <;>
          simp [isLineEnding, ending]
        rcases ending with same | same <;> simp [same]
      · rcases gap.markers line wrap c marker with blank | quote
        · exact Or.inl blank
        · exact Or.inr (Or.inr quote)

/-- A gap starts with a blank or a line ending. -/
theorem head_text {gap : Gap} {c : Char} {rest : Text} (same : gap.text = c :: rest) :
    isBlank c = true ∨ isLineEnding c = true := by
  unfold text at same
  cases before : gap.before with
  | cons d others =>
    rw [before, List.cons_append, List.cons.injEq] at same
    rw [← same.1]
    exact Or.inl (gap.blank d (before ▸ List.mem_cons_self))
  | nil =>
    rw [before, List.nil_append] at same
    cases wrap : gap.wrap with
    | none => simp [wrap] at same
    | some line =>
      simp only [wrap] at same
      apply Or.inr
      cases kind : line.1 <;> simp [kind, LineEnding.text] at same <;>
        simp [isLineEnding, ← same.1]

end Gap

inductive Quotes where
  | double
  | single
  | parentheses
  deriving DecidableEq

namespace Quotes

def opening : Quotes → Char
  | double => '"'
  | single => '\''
  | parentheses => '('

def closing : Quotes → Char
  | double => '"'
  | single => '\''
  | parentheses => ')'

end Quotes

/-- What may stand between the quotes of a title. -/
def titleBody (quotes : Quotes) : Text → Bool
  | [] => true
  | c :: rest =>
      if c = '\\' then
        match rest with
        | [] => false
        | d :: rest =>
            if isAsciiPunctuation d then titleBody quotes rest else titleBody quotes (d :: rest)
      else c ≠ quotes.opening && c ≠ quotes.closing && titleBody quotes rest

structure Title where
  quotes : Quotes
  body : Text
  accepted : titleBody quotes body = true

def Title.text (title : Title) : Text := title.quotes.opening :: title.body ++ [title.quotes.closing]

/-- What follows the destination, up to the closing parenthesis. A title stands apart from
the destination. -/
inductive Ending where
  | plain (gap : Gap)
  | titled (gap : Gap) (apart : gap.text ≠ []) (title : Title) (after : Gap)

def Ending.text : Ending → Text
  | plain gap => gap.text ++ [')']
  | titled gap _ title after => gap.text ++ title.text ++ after.text ++ [')']

/-- The closing parenthesis or a gap. -/
theorem Ending.text_cases (ending : Ending) :
    ending.text = [')'] ∨ ∃ c rest, ending.text = c :: rest ∧
      (isBlank c = true ∨ isLineEnding c = true) := by
  cases ending with
  | plain gap =>
    cases same : gap.text with
    | nil =>
      left
      simp [Ending.text, same]
    | cons c rest =>
      right
      exact ⟨c, rest ++ [')'], by simp [Ending.text, same], Gap.head_text same⟩
  | titled gap apart title after =>
    right
    rcases List.exists_cons_of_ne_nil apart with ⟨c, rest, same⟩
    exact ⟨c, rest ++ title.text ++ after.text ++ [')'], by simp [Ending.text, same],
      Gap.head_text same⟩

/-! ## Links -/

/-- The text of a link or an image between its brackets. Its inner content reaches up to
`hidden`, where only what stands between the lines of the text is left: blanks, line endings
and markers. The bracket behind it is not escaped. -/
structure LinkText where
  shown : Text
  hidden : Text
  between : ∀ c ∈ hidden, isBlank c = true ∨ isLineEnding c = true ∨ c = '>'
  closes : ((shown ++ hidden).reverse.takeWhile (· = '\\')).length % 2 = 0

def LinkText.text (text : LinkText) : Text := text.shown ++ text.hidden

/-- Where a link stands: what is before it, and whether it is an image. -/
structure Place where
  lead : Text
  image : Bool

namespace Place

def opening (place : Place) : Text := if place.image then ['!', '['] else ['[']

def start (place : Place) : Nat := byteLen place.lead

/-- Where the inner content of a link ends. Without any, only the first byte of the link is
known not to be in its text. -/
def textEnd (place : Place) (text : LinkText) : Nat :=
  if text.shown = [] then place.start + 1 else byteLen (place.lead ++ place.opening ++ text.shown)

/-- Between there and the closing bracket stands no other one. -/
theorem exists_textEnd (place : Place) (text : LinkText) : ∃ before passed,
    place.lead ++ place.opening ++ text.text = before ++ passed ∧
      byteLen before = place.textEnd text ∧ ']' ∉ passed ∧ place.start + 1 ≤ place.textEnd text := by
  have hidden : ']' ∉ text.hidden := by
    intro mem
    rcases text.between _ mem with blank | ending | marker
    · exact absurd blank (by decide)
    · exact absurd ending (by decide)
    · exact absurd marker (by decide)
  unfold textEnd
  by_cases none : text.shown = []
  · rw [if_pos none]
    unfold opening start
    cases place.image with
    | true =>
      refine ⟨place.lead ++ ['!'], '[' :: text.hidden, ?_, ?_, ?_, Nat.le_refl _⟩
      · simp [LinkText.text, none]
      · simp [show Char.utf8Size '!' = 1 from by decide]
      · simp [hidden]
    | false =>
      refine ⟨place.lead ++ ['['], text.hidden, ?_, ?_, hidden, Nat.le_refl _⟩
      · simp [LinkText.text, none]
      · simp [show Char.utf8Size '[' = 1 from by decide]
  · rw [if_neg none]
    refine ⟨place.lead ++ place.opening ++ text.shown, text.hidden, ?_, rfl, hidden, ?_⟩
    · simp [LinkText.text]
    · have one : 1 ≤ byteLen place.opening := by
        unfold opening
        cases place.image <;> decide
      simp only [byteLen_append, start]
      omega

/-- What stands before the closing bracket ends in the backslashes of the text. -/
theorem backslashes_eq (place : Place) (text : LinkText) :
    (place.lead ++ place.opening ++ text.text).reverse.takeWhile (· = '\\') =
      text.text.reverse.takeWhile (· = '\\') := by
  have last : ∃ rest, (place.lead ++ place.opening).reverse = '[' :: rest := by
    unfold opening
    cases place.image
    · exact ⟨place.lead.reverse, by simp⟩
    · exact ⟨'!' :: place.lead.reverse, by simp⟩
  rcases last with ⟨rest, last⟩
  rw [List.reverse_append, last]
  induction text.text.reverse with
  | nil => simp
  | cons c others ih =>
    rw [List.cons_append, List.takeWhile_cons, List.takeWhile_cons, ih]

end Place

/-- `[text](destination "title")`. -/
structure InlineLink where
  place : Place
  text : LinkText
  gap : Gap
  destination : Destination
  ending : Ending
  /-- A backslash before the closing parenthesis would escape it. -/
  delimited : destination.BackslashAtEnd → ending.text ≠ [')']
  trail : Text

namespace InlineLink

variable (link : InlineLink)

def upToDestination : Text :=
  link.place.lead ++ link.place.opening ++ link.text.text ++ "](".toList ++ link.gap.text

def upToEnd : Text := link.upToDestination ++ link.destination.text ++ link.ending.text

def source : Text := link.upToEnd ++ link.trail

def span : Range := ⟨link.place.start, byteLen link.upToEnd⟩

def textEnd : Nat := link.place.textEnd link.text

/-- The bytes of the destination, with its brackets if it has any. -/
def destinationRange : Range :=
  ⟨byteLen link.upToDestination, byteLen (link.upToDestination ++ link.destination.text)⟩

end InlineLink

/-- `[text][label]`, `[text][]`, or `[text]`. -/
structure ReferenceLink where
  place : Place
  text : LinkText
  label : Option Text
  trail : Text

namespace ReferenceLink

variable (link : ReferenceLink)

def labelText : Text :=
  match link.label with
  | some label => '[' :: label ++ [']']
  | none => []

def upToEnd : Text :=
  link.place.lead ++ link.place.opening ++ link.text.text ++ [']'] ++ link.labelText

def source : Text := link.upToEnd ++ link.trail

def span : Range := ⟨link.place.start, byteLen link.upToEnd⟩

def textEnd : Nat := link.place.textEnd link.text

end ReferenceLink

/-- `<address>`. -/
structure Autolink where
  lead : Text
  address : Text
  trail : Text

namespace Autolink

variable (link : Autolink)

def source : Text := link.lead ++ ['<'] ++ link.address ++ ['>'] ++ link.trail

def span : Range :=
  ⟨byteLen link.lead, byteLen (link.lead ++ ['<'] ++ link.address ++ ['>'])⟩

def textEnd : Nat := byteLen (link.lead ++ ['<'] ++ link.address)

end Autolink

end Burlmd.CommonMark
