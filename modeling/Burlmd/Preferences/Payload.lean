import Mathlib.Data.Bool.AllAny
import Burlmd.Library.Segments
import Burlmd.Preferences.Store

/-!
# Payloads as compact JSON text

A flat object of plain strings, booleans and decimal numbers: the text that the JSON writer gives
it, and a reader of such texts. They are a codec of the payloads.
-/

namespace Burlmd.Preferences.Payload

open Snapshot (Value)
open Utf8 (Text)

/-! ## The writer -/

def quoted (text : Text) : Text := '"' :: text ++ ['"']

def scalarText : Value → Text
  | .string text => quoted text
  | .bool true => "true".toList
  | .bool false => "false".toList
  | .number (.integer n) => (toString n).toList
  | _ => "null".toList

def memberText (member : Text × Value) : Text := quoted member.1 ++ ':' :: scalarText member.2

def objectText (members : List (Text × Value)) : Text :=
  '{' :: [','].intercalate (members.map memberText) ++ ['}']

def encode : Value → Bytes
  | .object members => Utf8.bytes (objectText members)
  | scalar => Utf8.bytes (scalarText scalar)

/-! ## The reader -/

/-- The text between two quotes, where nothing in it is escaped. -/
def unquoted : Text → Option Text
  | '"' :: rest =>
      if rest.getLast? = some '"' ∧ '"' ∉ rest.dropLast ∧ '\\' ∉ rest.dropLast then
        some rest.dropLast
      else none
  | _ => none

def digit (c : Char) : Option Nat := if c.isDigit then some (c.toNat - '0'.toNat) else none

def number (text : Text) : Option Nat :=
  if text = [] ∨ (text.head? = some '0' ∧ text.length ≠ 1) then none
  else (text.mapM digit).map fun digits => digits.foldl (fun n d => 10 * n + d) 0

def scalar (text : Text) : Option Value :=
  if text = "null".toList then some .null
  else if text = "true".toList then some (.bool true)
  else if text = "false".toList then some (.bool false)
  else match number text with
    | some n => some (.number (.integer n))
    | none => (unquoted text).map .string

def member (text : Text) : Option (Text × Value) :=
  match text.splitOn ':' with
  | [key, value] => (unquoted key).bind fun key => (scalar value).map fun value => (key, value)
  | _ => none

def object : Text → Option Value
  | '{' :: rest =>
      if rest.getLast? = some '}' then
        ((rest.dropLast.splitOn ',').mapM member).map .object
      else none
  | _ => none

def ascii (byte : UInt8) : Option Char :=
  if byte < 128 then some (Char.ofNat byte.toNat) else none

def decode (bytes : Bytes) : Option Value := (bytes.mapM ascii).bind object

/-! ## What is written is read back -/

theorem ascii_bytes {text : Text} (plain : ∀ c ∈ text, c.toNat < 128) :
    (Utf8.bytes text).mapM ascii = some text := by
  induction text with
  | nil => rfl
  | cons c rest ih =>
    have small : c.toNat < 128 := plain c List.mem_cons_self
    have later := ih fun d inside => plain d (List.mem_cons_of_mem _ inside)
    have one : String.utf8EncodeChar c = [UInt8.ofNat c.toNat] := by
      unfold String.utf8EncodeChar
      have le : c.val.toNat ≤ 127 := Nat.le_of_lt_succ small
      simp only [le, if_true]
      rfl
    have back : ascii (UInt8.ofNat c.toNat) = some c := by
      unfold ascii
      have same : (UInt8.ofNat c.toNat).toNat = c.toNat := by
        rw [UInt8.toNat_ofNat']
        omega
      have lt : UInt8.ofNat c.toNat < 128 := by
        rw [UInt8.lt_iff_toNat_lt, same]
        exact small
      rw [if_pos lt, same, Char.ofNat_toNat]
    unfold Utf8.bytes at later ⊢
    rw [List.flatMap_cons, one, List.singleton_append, List.mapM_cons, back, later]
    rfl

/-- A member whose text is plain ASCII without a comma, and is read back. -/
structure Plain (m : Text × Value) : Prop where
  text : ∀ c ∈ memberText m, c.toNat < 128 ∧ c ≠ ','
  read : member (memberText m) = some m

section Members

variable {members : List (Text × Value)}

theorem splitOn_members (some_ : members ≠ []) (plain : ∀ m ∈ members, Plain m) :
    ([','].intercalate (members.map memberText)).splitOn ',' = members.map memberText := by
  apply List.splitOn_intercalate
  · intro text inside comma
    rcases List.mem_map.mp inside with ⟨m, isMember, isText⟩
    rw [← isText] at comma
    exact ((plain m isMember).text _ comma).2 rfl
  · simpa using some_

theorem mapM_memberText (plain : ∀ m ∈ members, Plain m) :
    (members.map memberText).mapM member = some members := by
  induction members with
  | nil => rfl
  | cons m rest ih =>
    have later := ih fun other inside => plain other (List.mem_cons_of_mem _ inside)
    rw [List.map_cons, List.mapM_cons, (plain m List.mem_cons_self).read, later]
    rfl

theorem object_objectText (some_ : members ≠ []) (plain : ∀ m ∈ members, Plain m) :
    object (objectText members) = some (.object members) := by
  unfold object objectText
  simp only [List.cons_append, List.getLast?_concat, if_true, List.dropLast_concat,
    splitOn_members some_ plain, mapM_memberText plain, Option.map_some]

theorem ascii_objectText (some_ : members ≠ []) (plain : ∀ m ∈ members, Plain m) :
    ∀ c ∈ objectText members, c.toNat < 128 := by
  intro c inside
  simp only [objectText, List.cons_append, List.mem_cons, List.mem_append, List.not_mem_nil,
    or_false] at inside
  rcases inside with isOpen | inside | isClose
  · rw [isOpen]
    decide
  · rcases Segments.mem_or_exists_of_mem (a := ',') inside with isComma | ⟨part, isPart, inside⟩
    · rw [isComma]
      decide
    · rw [splitOn_members some_ plain] at isPart
      rcases List.mem_map.mp isPart with ⟨m, isMember, isText⟩
      rw [← isText] at inside
      exact ((plain m isMember).text c inside).1
  · rw [isClose]
    decide

theorem decode_objectText (some_ : members ≠ []) (plain : ∀ m ∈ members, Plain m) :
    decode (encode (.object members)) = some (.object members) := by
  unfold decode encode
  dsimp only
  rw [ascii_bytes (ascii_objectText some_ plain), Option.bind_some]
  exact object_objectText some_ plain

end Members

theorem plain_theme (theme : BurlThemePreference) :
    Plain ("theme".toList, .string theme.name) := by
  cases theme
  all_goals exact ⟨List.all_iff_forall_prop.mp (by decide), rfl⟩

theorem plain_fontScale (fontScale : BurlFontScale) :
    Plain ("font_scale".toList, .string fontScale.name) := by
  cases fontScale
  all_goals exact ⟨List.all_iff_forall_prop.mp (by decide), rfl⟩

theorem plain_measure (measure : BurlMeasure) :
    Plain ("measure".toList, .string measure.name) := by
  cases measure
  all_goals exact ⟨List.all_iff_forall_prop.mp (by decide), rfl⟩

theorem plain_focusMode (focusMode : Bool) : Plain ("focus_mode".toList, .bool focusMode) := by
  cases focusMode
  all_goals exact ⟨List.all_iff_forall_prop.mp (by decide), rfl⟩

theorem plain_updateNotifications (updateNotifications : Bool) :
    Plain ("update_notifications".toList, .bool updateNotifications) := by
  cases updateNotifications
  all_goals exact ⟨List.all_iff_forall_prop.mp (by decide), rfl⟩

theorem plain_version : Plain ("schema_version".toList, .number (.integer 1)) :=
  ⟨List.all_iff_forall_prop.mp (by decide), rfl⟩

theorem decode_encode (preferences : BurlPreferences) :
    decode (encode preferences.toJson) = some preferences.toJson := by
  apply decode_objectText
  · simp
  · intro m inside
    simp only [List.mem_cons, List.not_mem_nil, or_false] at inside
    rcases inside with isMember | isMember | isMember | isMember | isMember | isMember
    · rw [isMember]
      exact plain_version
    · rw [isMember]
      exact plain_theme _
    · rw [isMember]
      exact plain_fontScale _
    · rw [isMember]
      exact plain_measure _
    · rw [isMember]
      exact plain_focusMode _
    · rw [isMember]
      exact plain_updateNotifications _

end Payload

def payloadCodec : JsonCodec where
  decode := Payload.decode
  encode := Payload.encode
  decode_encode := Payload.decode_encode

end Burlmd.Preferences
