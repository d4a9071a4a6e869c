import Burlmd.Library.Ascii
import Burlmd.Library.CommonMark
import Burlmd.Workspace.LinkScan

/-!
# Where a destination stands

The byte scan for a destination against the grammar of inline links. The two agree except
over the marker of a block quote, for a destination that is left out, and after a backslash
that ends a bare destination.
-/

namespace Burlmd.Workspace

open Utf8
open CommonMark

theorem byte_eq_asciiByte (c : Char) : byte c = asciiByte c := rfl

/-! ## Bytes of a character -/

/-- A scan for `c` passes over every other character. -/
theorem ne_byte_of_mem {c d : Char} (ascii : IsAscii c) (other : d ≠ c) {b : UInt8}
    (mem : b ∈ String.utf8EncodeChar d) : b ≠ byte c := by
  intro same
  subst same
  rw [byte_eq_asciiByte] at mem
  have there : c ∈ [d] := by
    apply mem_of_asciiByte_mem ascii
    simpa [bytes_cons] using mem
  exact other (List.mem_singleton.mp there).symm

theorem isAsciiWhitespace_eq_false {c : Char} (space : c ≠ ' ') (control : isAsciiControl c = false)
    {b : UInt8} (mem : b ∈ String.utf8EncodeChar c) : isAsciiWhitespace b = false := by
  have apart (d : Char) (low : isAsciiControl d = true) (ascii : IsAscii d) : b ≠ byte d := by
    apply ne_byte_of_mem ascii _ mem
    intro same
    rw [same, low] at control
    contradiction
  have tab := apart '\t' (by decide) (by decide)
  have newline := apart '\n' (by decide) (by decide)
  have feed := apart (Char.ofNat 12) (by decide) (by decide)
  have ret := apart '\r' (by decide) (by decide)
  have blank := ne_byte_of_mem (c := ' ') (by decide) space mem
  have feed' : b ≠ 0x0C := feed
  simp [isAsciiWhitespace, blank, tab, newline, feed', ret]

theorem whitespace_of_gap {c : Char} (gap : isBlank c = true ∨ isLineEnding c = true) :
    IsAscii c ∧ isAsciiWhitespace (byte c) = true := by
  simp only [isBlank, isLineEnding, Bool.or_eq_true, decide_eq_true_eq] at gap
  rcases gap with (same | same) | same | same <;> subst same <;> decide

theorem ne_of_not_punctuation {c d : Char} (other : ¬ isAsciiPunctuation d = true)
    (punctuation : isAsciiPunctuation c = true) : d ≠ c := by
  intro same
  rw [same] at other
  exact other punctuation

theorem isAscii_of_punctuation {c : Char} (punctuation : isAsciiPunctuation c = true) :
    IsAscii c := by
  simp only [isAsciiPunctuation, Bool.or_eq_true, Bool.and_eq_true, decide_eq_true_eq,
    Char.le_def, UInt32.le_iff_toNat_le] at punctuation
  have large : c.val.toNat ≤ 126 := by
    rcases punctuation with ((this | this) | this) | this
    · exact Nat.le_trans this.2 (by decide)
    · exact Nat.le_trans this.2 (by decide)
    · exact Nat.le_trans this.2 (by decide)
    · exact this.2
  exact Nat.lt_of_le_of_lt large (by decide)

/-- The bytes of a character are its first one and others. -/
theorem exists_utf8EncodeChar (c : Char) : ∃ b others, String.utf8EncodeChar c = b :: others :=
  List.exists_cons_of_ne_nil String.utf8EncodeChar_ne_nil

/-! ## Pointy destinations -/

section Pointy

variable {limit k : Nat}

theorem angleEnd_plain {b : UInt8} (escape : b ≠ byte '\\') (close : b ≠ byte '>')
    (room : k < limit) (rest : List UInt8) :
    angleEnd limit k (b :: rest) = angleEnd limit (k + 1) rest := by
  have inside : ¬ limit ≤ k := by omega
  rw [angleEnd.eq_def]
  simp only [inside, escape, close, if_false]

theorem angleEnd_escape (room : k < limit) (b : UInt8) (rest : List UInt8) :
    angleEnd limit k (byte '\\' :: b :: rest) = angleEnd limit (k + 2) rest := by
  have inside : ¬ limit ≤ k := by omega
  rw [angleEnd.eq_def]
  simp only [inside, if_false, if_true]

theorem angleEnd_close (room : k < limit) (rest : List UInt8) :
    angleEnd limit k (byte '>' :: rest) = some (k + 1) := by
  have inside : ¬ limit ≤ k := by omega
  have other : byte '>' ≠ byte '\\' := by decide
  rw [angleEnd.eq_def]
  simp only [inside, other, if_false, if_true]

/-- Bytes that an angle scan passes over. -/
theorem angleEnd_append {passed : List UInt8}
    (plain : ∀ b ∈ passed, b ≠ byte '\\' ∧ b ≠ byte '>') (room : k + passed.length ≤ limit)
    (rest : List UInt8) :
    angleEnd limit k (passed ++ rest) = angleEnd limit (k + passed.length) rest := by
  induction passed generalizing k with
  | nil => simp
  | cons b others ih =>
    simp only [List.length_cons] at room
    have this := plain b List.mem_cons_self
    rw [List.cons_append, angleEnd_plain this.1 this.2 (by omega),
      ih (fun b mem => plain b (List.mem_cons_of_mem _ mem)) (by omega), List.length_cons,
      Nat.add_assoc, Nat.add_comm 1]

theorem angleEnd_body {body : Text} (accepted : pointyBody body = true)
    (room : k + byteLen body < limit) (rest : List UInt8) :
    angleEnd limit k (bytes body ++ byte '>' :: rest) = some (k + byteLen body + 1) := by
  induction body using pointyBody.induct generalizing k with
  | case1 => exact angleEnd_close room rest
  | case2 => simp [pointyBody] at accepted
  | case3 d text punctuation ih =>
    have ascii := isAscii_of_punctuation punctuation
    have size := utf8Size_ascii ascii
    have one := utf8Size_ascii (show IsAscii '\\' by decide)
    rw [pointyBody] at accepted
    simp only [punctuation, if_true] at accepted
    simp only [byteLen_cons, size, one] at room ⊢
    rw [bytes_cons_ascii (by decide), bytes_cons_ascii ascii, List.cons_append, List.cons_append]
    refine (angleEnd_escape (by omega) _ _).trans ?_
    rw [ih accepted (by omega)]
    congr 1
    omega
  | case4 d text other ih =>
    -- the scan skips a byte of a character that the backslash does not escape
    have one := utf8Size_ascii (show IsAscii '\\' by decide)
    rw [pointyBody] at accepted
    simp only [other, if_true, Bool.false_eq_true, if_false] at accepted
    rw [byteLen_cons, one] at room ⊢
    rcases exists_utf8EncodeChar d with ⟨b, others, encoded⟩
    have mem : b ∈ String.utf8EncodeChar d := encoded ▸ List.mem_cons_self
    have escape := ne_byte_of_mem (by decide) (ne_of_not_punctuation other (c := '\\') (by decide)) mem
    have close := ne_byte_of_mem (by decide) (ne_of_not_punctuation other (c := '>') (by decide)) mem
    have after := ih accepted (k := k + 1) (by omega)
    rw [bytes_cons, encoded, List.cons_append, List.cons_append,
      angleEnd_plain escape close (by omega)] at after
    rw [bytes_cons_ascii (by decide), bytes_cons, encoded, List.cons_append, List.cons_append,
      List.cons_append]
    refine (angleEnd_escape (by omega) _ _).trans (after.trans ?_)
    congr 1
    omega
  | case5 c text escape ih =>
    rw [pointyBody.eq_def] at accepted
    simp only [escape, if_false, Bool.and_eq_true, decide_eq_true_eq] at accepted
    rw [byteLen_cons] at room ⊢
    have plain : ∀ b ∈ String.utf8EncodeChar c, b ≠ byte '\\' ∧ b ≠ byte '>' := fun b mem =>
      ⟨ne_byte_of_mem (by decide) escape mem, ne_byte_of_mem (by decide) accepted.1.1.2 mem⟩
    rw [bytes_cons, List.append_assoc, angleEnd_append plain (by
      rw [String.length_utf8EncodeChar]
      omega), String.length_utf8EncodeChar, ih accepted.2 (by omega)]
    congr 1
    omega

end Pointy

/-! ## Bare destinations -/

section Bare

variable {limit depth k : Nat}

theorem bareEnd_plain {b : UInt8} (escape : b ≠ byte '\\') (opens : b ≠ byte '(')
    (closes : b ≠ byte ')') (whitespace : isAsciiWhitespace b = false) (room : k < limit)
    (rest : List UInt8) : bareEnd limit depth k (b :: rest) = bareEnd limit depth (k + 1) rest := by
  have inside : ¬ limit ≤ k := by omega
  rw [bareEnd.eq_def]
  simp [inside, escape, opens, closes, whitespace]

theorem bareEnd_escape (room : k < limit) (b : UInt8) (rest : List UInt8) :
    bareEnd limit depth k (byte '\\' :: b :: rest) = bareEnd limit depth (k + 2) rest := by
  have inside : ¬ limit ≤ k := by omega
  rw [bareEnd.eq_def]
  simp only [inside, if_false, if_true]

theorem bareEnd_open (room : k < limit) (rest : List UInt8) :
    bareEnd limit depth k (byte '(' :: rest) = bareEnd limit (depth + 1) (k + 1) rest := by
  have inside : ¬ limit ≤ k := by omega
  have other : byte '(' ≠ byte '\\' := by decide
  rw [bareEnd.eq_def]
  simp only [inside, other, if_false, if_true]

theorem bareEnd_close (room : k < limit) (inner : depth ≠ 0) (rest : List UInt8) :
    bareEnd limit depth k (byte ')' :: rest) = bareEnd limit (depth - 1) (k + 1) rest := by
  have inside : ¬ limit ≤ k := by omega
  have other : byte ')' ≠ byte '\\' := by decide
  have other' : byte ')' ≠ byte '(' := by decide
  rw [bareEnd.eq_def]
  simp only [inside, other, other', inner, if_false, if_true]

theorem bareEnd_stop {b : UInt8} (stops : b = byte ')' ∨ isAsciiWhitespace b = true)
    (rest : List UInt8) : bareEnd limit 0 k (b :: rest) = k := by
  rw [bareEnd.eq_def]
  dsimp only
  split
  · rfl
  · rcases stops with same | whitespace
    · subst same
      simp [byte]
    · have escape : b ≠ byte '\\' := by
        intro same
        subst same
        revert whitespace
        decide
      have opens : b ≠ byte '(' := by
        intro same
        subst same
        revert whitespace
        decide
      simp only [escape, opens, whitespace, if_false, if_true]
      split <;> rfl

theorem bareEnd_ge (bs : List UInt8) : k ≤ bareEnd limit depth k bs := by
  induction depth, k, bs using bareEnd.induct limit with
  | case1 => simp [bareEnd]
  | case2 depth k b rest past =>
    rw [bareEnd.eq_def]
    simp [past]
  | case3 depth k past =>
    rw [bareEnd.eq_def]
    simp [past]
  | case4 depth k past b rest ih =>
    rw [bareEnd_escape (by omega)]
    omega
  | case5 depth k rest past ih =>
    rw [bareEnd_open (by omega)]
    omega
  | case6 k rest past other other' =>
    rw [bareEnd_stop (Or.inl rfl)]
  | case7 depth k rest past inner other other' ih =>
    rw [bareEnd_close (by omega) inner]
    omega
  | case8 depth k b rest past escape opens closes whitespace =>
    rw [bareEnd.eq_def]
    simp [past, escape, opens, closes, whitespace]
  | case9 depth k b rest past escape opens closes whitespace ih =>
    rw [bareEnd_plain escape opens closes (Bool.eq_false_of_not_eq_true whitespace) (by omega)]
    omega

/-- Bytes that a bare scan passes over. -/
theorem bareEnd_append {passed : List UInt8}
    (plain : ∀ b ∈ passed, (b ≠ byte '\\' ∧ b ≠ byte '(' ∧ b ≠ byte ')') ∧
      isAsciiWhitespace b = false)
    (room : k + passed.length ≤ limit) (rest : List UInt8) :
    bareEnd limit depth k (passed ++ rest) = bareEnd limit depth (k + passed.length) rest := by
  induction passed generalizing k with
  | nil => simp
  | cons b others ih =>
    simp only [List.length_cons] at room
    have this := plain b List.mem_cons_self
    rw [List.cons_append, bareEnd_plain this.1.1 this.1.2.1 this.1.2.2 this.2 (by omega),
      ih (fun b mem => plain b (List.mem_cons_of_mem _ mem)) (by omega), List.length_cons,
      Nat.add_assoc, Nat.add_comm 1]

/-- Where a bare scan of a destination from `k` ends: behind it, or further on when a
backslash at its end takes the next byte along. -/
def EndsAt (body : Text) (k stop : Nat) : Prop :=
  if endsInBackslash body then k + byteLen body < stop else stop = k + byteLen body

theorem EndsAt.cons {body rest : Text} {n stop : Nat} (ends : EndsAt rest (k + n) stop)
    (same : endsInBackslash body = endsInBackslash rest) (len : byteLen body = n + byteLen rest) :
    EndsAt body k stop := by
  unfold EndsAt at ends ⊢
  rw [same, len, ← Nat.add_assoc]
  exact ends

theorem bareEnd_body {body : Text} (accepted : bareBody depth body = true)
    (room : k + byteLen body < limit) {b : UInt8}
    (stops : b = byte ')' ∨ isAsciiWhitespace b = true) (rest : List UInt8) :
    EndsAt body k (bareEnd limit depth k (bytes body ++ b :: rest)) := by
  have one := utf8Size_ascii (show IsAscii '\\' by decide)
  induction depth, body using bareBody.induct generalizing k with
  | case1 depth =>
    rw [bareBody, decide_eq_true_eq] at accepted
    subst accepted
    exact bareEnd_stop stops rest
  | case2 depth =>
    have further := @bareEnd_ge limit depth (k + 2) rest
    rw [byteLen_cons, one, byteLen_nil] at room
    unfold EndsAt
    rw [bytes_cons_ascii (by decide), bytes_nil, List.cons_append, List.nil_append]
    refine Nat.lt_of_lt_of_le ?_ (le_of_le_of_eq further (bareEnd_escape (by omega) b rest).symm)
    rw [byteLen_cons, one, byteLen_nil]
    omega
  | case3 depth d text punctuation ih =>
    have ascii := isAscii_of_punctuation punctuation
    have size := utf8Size_ascii ascii
    rw [bareBody] at accepted
    simp only [punctuation, if_true] at accepted
    simp only [byteLen_cons, size, one] at room
    rw [bytes_cons_ascii (by decide), bytes_cons_ascii ascii, List.cons_append, List.cons_append]
    have step := @bareEnd_escape limit depth k (by omega)
      (asciiByte d) (bytes text ++ b :: rest)
    rw [byte_eq_asciiByte] at step
    rw [step]
    apply (ih accepted (by omega)).cons
    · simp [endsInBackslash, punctuation]
    · simp only [byteLen_cons, size, one]
      omega
  | case4 depth d text other ih =>
    rw [bareBody] at accepted
    simp only [other, if_true, Bool.false_eq_true, if_false] at accepted
    rw [byteLen_cons, one] at room
    rcases exists_utf8EncodeChar d with ⟨first, others, encoded⟩
    have mem : first ∈ String.utf8EncodeChar d := encoded ▸ List.mem_cons_self
    have passes (c : Char) (punctuation : isAsciiPunctuation c = true) : d ≠ c :=
      ne_of_not_punctuation other punctuation
    have escape := ne_byte_of_mem (by decide) (passes '\\' (by decide)) mem
    have opens := ne_byte_of_mem (by decide) (passes '(' (by decide)) mem
    have closes := ne_byte_of_mem (by decide) (passes ')' (by decide)) mem
    have inner : (d ≠ ' ' ∧ isAsciiControl d = false) := by
      rw [bareBody.eq_def] at accepted
      simp only [passes '\\' (by decide), passes '(' (by decide), passes ')' (by decide), if_false,
        Bool.and_eq_true, decide_eq_true_eq, Bool.not_eq_true'] at accepted
      exact accepted.1
    have whitespace := isAsciiWhitespace_eq_false inner.1 inner.2 mem
    have after := ih accepted (k := k + 1) (by omega)
    rw [bytes_cons, encoded, List.cons_append, List.cons_append,
      bareEnd_plain escape opens closes whitespace (by omega)] at after
    rw [bytes_cons_ascii (by decide), bytes_cons, encoded, List.cons_append, List.cons_append,
      List.cons_append]
    have step := @bareEnd_escape limit depth k (by omega)
      first (others ++ bytes text ++ b :: rest)
    rw [byte_eq_asciiByte, List.append_assoc] at step
    rw [List.append_assoc] at after ⊢
    rw [step]
    apply after.cons
    · simp [endsInBackslash, other]
    · simp only [byteLen_cons, one]
  | case5 depth text escape ih =>
    have size := utf8Size_ascii (show IsAscii '(' by decide)
    rw [bareBody.eq_def] at accepted
    simp only [escape, if_false, if_true] at accepted
    rw [byteLen_cons, size] at room
    rw [bytes_cons_ascii (by decide), List.cons_append, ← byte_eq_asciiByte,
      bareEnd_open (by omega)]
    apply (ih accepted (by omega)).cons
    · rw [endsInBackslash.eq_def]
      simp only [escape, if_false]
    · rw [byteLen_cons, size]
  | case6 depth text escape opens ih =>
    have size := utf8Size_ascii (show IsAscii ')' by decide)
    rw [bareBody.eq_def] at accepted
    simp only [escape, opens, if_false, if_true, Bool.and_eq_true, decide_eq_true_eq] at accepted
    rw [byteLen_cons, size] at room
    rw [bytes_cons_ascii (by decide), List.cons_append, ← byte_eq_asciiByte,
      bareEnd_close (by omega) accepted.1]
    apply (ih accepted.2 (by omega)).cons
    · rw [endsInBackslash.eq_def]
      simp only [escape, if_false]
    · rw [byteLen_cons, size]
  | case7 depth c text escape opens closes ih =>
    rw [bareBody.eq_def] at accepted
    simp only [escape, opens, closes, if_false, Bool.and_eq_true, decide_eq_true_eq,
      Bool.not_eq_true'] at accepted
    rw [byteLen_cons] at room
    have plain : ∀ b ∈ String.utf8EncodeChar c,
        (b ≠ byte '\\' ∧ b ≠ byte '(' ∧ b ≠ byte ')') ∧ isAsciiWhitespace b = false :=
      fun b mem => ⟨⟨ne_byte_of_mem (by decide) escape mem, ne_byte_of_mem (by decide) opens mem,
        ne_byte_of_mem (by decide) closes mem⟩,
        isAsciiWhitespace_eq_false accepted.1.1 accepted.1.2 mem⟩
    rw [bytes_cons, List.append_assoc, bareEnd_append plain (by
      rw [String.length_utf8EncodeChar]
      omega), String.length_utf8EncodeChar]
    apply (ih accepted.2 (by omega)).cons
    · rw [endsInBackslash.eq_def]
      simp only [escape, if_false]
    · rw [byteLen_cons]

end Bare

/-! ## Gaps -/

section Gaps

variable {limit start : Nat}

theorem skipWhitespace_stop {b : UInt8} (other : isAsciiWhitespace b = false) (rest : List UInt8) :
    skipWhitespace limit start (b :: rest) = (start, b :: rest) := by
  simp [skipWhitespace, other]

theorem skipWhitespace_append {white : List UInt8}
    (all : ∀ b ∈ white, isAsciiWhitespace b = true) (room : start + white.length ≤ limit)
    (rest : List UInt8) :
    skipWhitespace limit start (white ++ rest) =
      skipWhitespace limit (start + white.length) rest := by
  induction white generalizing start with
  | nil => simp
  | cons b others ih =>
    simp only [List.length_cons] at room
    have inside : start < limit := by omega
    rw [List.cons_append, skipWhitespace]
    simp only [inside, all b List.mem_cons_self, decide_true, Bool.and_self, if_true]
    rw [ih (fun b mem => all b (List.mem_cons_of_mem _ mem)) (by omega), List.length_cons,
      Nat.add_assoc, Nat.add_comm 1]

/-- A byte that is no whitespace is not skipped. -/
theorem skipWhitespace_lt {passed : List UInt8} {b : UInt8} (mem : b ∈ passed)
    (other : isAsciiWhitespace b = false) (rest : List UInt8) :
    (skipWhitespace limit start (passed ++ rest)).1 < start + passed.length := by
  induction passed generalizing start with
  | nil => cases mem
  | cons c others ih =>
    rw [List.cons_append, skipWhitespace]
    split
    · rename_i white
      rcases List.mem_cons.mp mem with same | later
      · subst same
        simp [other] at white
      · have further := @ih (start + 1) later
        rw [List.length_cons]
        omega
    · rw [List.length_cons]
      dsimp only
      omega

theorem bytes_gap {gap : Gap} (unquoted : gap.Unquoted) :
    ∀ b ∈ bytes gap.text, isAsciiWhitespace b = true := by
  intro b mem
  rcases List.mem_flatMap.mp mem with ⟨c, there, encoded⟩
  have blank : isBlank c = true ∨ isLineEnding c = true := by
    rcases Gap.mem_text there with blank | ending | marker
    · exact Or.inl blank
    · exact Or.inr ending
    · subst marker
      exact absurd there unquoted
  rw [utf8EncodeChar_ascii (whitespace_of_gap blank).1, List.mem_singleton] at encoded
  rw [encoded]
  exact (whitespace_of_gap blank).2

theorem asciiByte_mem_bytes {c : Char} (ascii : IsAscii c) {text : Text} (mem : c ∈ text) :
    asciiByte c ∈ bytes text := by
  apply List.mem_flatMap.mpr
  exact ⟨c, mem, by simp [utf8EncodeChar_ascii ascii]⟩

/-- The first byte of what follows the destination. -/
theorem bytes_ending (ending : Ending) : ∃ b rest, bytes ending.text = b :: rest ∧
    (b = byte ')' ∨ isAsciiWhitespace b = true) := by
  rcases ending.text_cases with close | ⟨c, rest, same, gap⟩
  · exact ⟨byte ')', [], by rw [close, bytes_cons_ascii (by decide)]; simp [byte, asciiByte],
      Or.inl rfl⟩
  · have white := whitespace_of_gap gap
    refine ⟨asciiByte c, bytes rest, ?_, Or.inr white.2⟩
    rw [same, bytes_cons_ascii white.1]

end Gaps

/-! ## Destinations of inline links -/

section Parse

theorem angleEnd_gt {limit k stop : Nat} {bs : List UInt8} (found : angleEnd limit k bs = some stop) :
    k < stop := by
  induction k, bs using angleEnd.induct limit with
  | case1 => simp [angleEnd] at found
  | case2 k b rest past =>
    rw [angleEnd.eq_def] at found
    simp [past] at found
  | case3 k past =>
    rw [angleEnd.eq_def] at found
    simp [past] at found
  | case4 k past b rest ih =>
    rw [angleEnd_escape (by omega)] at found
    have later := ih found
    omega
  | case5 k rest past other =>
    rw [angleEnd_close (by omega), Option.some.injEq] at found
    omega
  | case6 k b rest past escape close ih =>
    rw [angleEnd_plain escape close (by omega)] at found
    have later := ih found
    omega

/-- A destination that is found stands where the whitespace ends, and is not empty. -/
theorem parseDestination_start {bs : List UInt8} {from_ limit : Nat} {range : Range}
    (found : parseDestination bs from_ limit = some range) :
    range.start = (skipWhitespace limit from_ (bs.drop from_)).1 ∧ range.start < range.stop := by
  unfold parseDestination at found
  split at found
  · cases found
  · rename_i start b rest skipped
    rw [skipped]
    split at found
    · cases found
    · split at found
      · rcases Option.map_eq_some_iff.mp found with ⟨stop, closes, same⟩
        subst same
        have later := angleEnd_gt closes
        exact ⟨rfl, by dsimp only; omega⟩
      · dsimp only at found
        split at found
        · rename_i ordered
          cases found
          exact ⟨rfl, ordered⟩
        · cases found

theorem parseDestination_pointy {bs : List UInt8} {from_ limit start : Nat} {body : Text}
    {rest : List UInt8}
    (skipped : skipWhitespace limit from_ (bs.drop from_) =
      (start, byte '<' :: (bytes body ++ byte '>' :: rest)))
    (accepted : pointyBody body = true) (room : start + 1 + byteLen body < limit) :
    parseDestination bs from_ limit = some ⟨start, start + 1 + byteLen body + 1⟩ := by
  have inside : ¬ limit ≤ start := by omega
  unfold parseDestination
  rw [skipped]
  simp only [inside, if_false, if_true]
  rw [angleEnd_body accepted room]
  rfl

theorem parseDestination_bare {bs : List UInt8} {from_ limit start : Nat} {b : UInt8}
    {rest : List UInt8} (skipped : skipWhitespace limit from_ (bs.drop from_) = (start, b :: rest))
    (bare : b ≠ byte '<') (inside : start < limit) :
    parseDestination bs from_ limit =
      if start < bareEnd limit 0 start (b :: rest) then
        some ⟨start, bareEnd limit 0 start (b :: rest)⟩
      else none := by
  have inside : ¬ limit ≤ start := by omega
  unfold parseDestination
  rw [skipped]
  simp only [inside, bare, if_false]

/-- A bare destination starts with a byte that is no whitespace. -/
theorem bytes_bare {c : Char} {rest : Text} (accepted : bareBody 0 (c :: rest) = true) :
    ∀ b ∈ String.utf8EncodeChar c, isAsciiWhitespace b = false := by
  intro b mem
  rw [bareBody.eq_def] at accepted
  by_cases escape : c = '\\'
  · subst escape
    exact isAsciiWhitespace_eq_false (by decide) (by decide) mem
  · by_cases opens : c = '('
    · subst opens
      exact isAsciiWhitespace_eq_false (by decide) (by decide) mem
    · by_cases closes : c = ')'
      · subst closes
        exact isAsciiWhitespace_eq_false (by decide) (by decide) mem
      · simp only [escape, opens, closes, if_false, Bool.and_eq_true, decide_eq_true_eq,
          Bool.not_eq_true'] at accepted
        exact isAsciiWhitespace_eq_false accepted.1.1 accepted.1.2 mem

theorem drop_bytes (before after : Text) :
    (bytes (before ++ after)).drop (byteLen before) = bytes after := by
  rw [bytes_append, ← length_bytes, List.drop_left]

/-- Where the scan finds the destination of an inline link as CommonMark delimits it: no
marker of a block quote stands in front of it, it is not left out, and it does not end in a
backslash. -/
def Located (link : InlineLink) : Prop :=
  link.gap.Unquoted ∧ link.destination.text ≠ [] ∧ ¬ link.destination.BackslashAtEnd

/-- What stands before the gap in front of the destination. -/
def upToGap (link : InlineLink) : Text :=
  link.place.lead ++ link.place.opening ++ link.text.text ++ "](".toList

theorem source_eq (link : InlineLink) :
    link.source = upToGap link ++ (link.gap.text ++ (link.destination.text ++
      (link.ending.text ++ link.trail))) := by
  simp [InlineLink.source, InlineLink.upToEnd, InlineLink.upToDestination, upToGap]

theorem destinationRange_start (link : InlineLink) :
    link.destinationRange.start = byteLen (upToGap link) + byteLen link.gap.text := by
  simp [InlineLink.destinationRange, InlineLink.upToDestination, upToGap, Nat.add_assoc]

theorem destinationRange_stop (link : InlineLink) :
    link.destinationRange.stop =
      link.destinationRange.start + byteLen link.destination.text := by
  simp [InlineLink.destinationRange]

/-- The link goes on behind its destination. -/
theorem destinationRange_lt (link : InlineLink) :
    link.destinationRange.stop < link.span.stop := by
  have some_ : 0 < byteLen link.ending.text := by
    rcases bytes_ending link.ending with ⟨b, rest, same, -⟩
    rw [← length_bytes, same, List.length_cons]
    omega
  simp only [InlineLink.destinationRange, InlineLink.span, InlineLink.upToEnd, byteLen_append]
  omega

theorem parseDestination_iff (link : InlineLink) :
    parseDestination (bytes link.source) (byteLen (upToGap link)) link.span.stop =
      some link.destinationRange ↔ Located link := by
  have from_ : (bytes link.source).drop (byteLen (upToGap link)) =
      bytes link.gap.text ++ bytes (link.destination.text ++ (link.ending.text ++ link.trail)) := by
    rw [source_eq, drop_bytes, bytes_append]
  have start := destinationRange_start link
  have stop := destinationRange_stop link
  have upTo := destinationRange_lt link
  by_cases unquoted : link.gap.Unquoted
  · have room : byteLen (upToGap link) + (bytes link.gap.text).length ≤ link.span.stop := by
      rw [length_bytes]
      omega
    have skipped := skipWhitespace_append (bytes_gap unquoted) room
      (bytes (link.destination.text ++ (link.ending.text ++ link.trail)))
    rw [← from_, length_bytes, ← start] at skipped
    rcases bytes_ending link.ending with ⟨e, after, ending, stops⟩
    cases kind : link.destination with
    | pointy body accepted =>
      have len : byteLen link.destination.text = 1 + byteLen body + 1 := by
        simp [kind, Destination.text, show Char.utf8Size '<' = 1 from by decide,
          show Char.utf8Size '>' = 1 from by decide, Nat.add_assoc]
      have opened : bytes (link.destination.text ++ (link.ending.text ++ link.trail)) =
          byte '<' :: (bytes body ++ byte '>' :: bytes (link.ending.text ++ link.trail)) := by
        simp only [kind, Destination.text, List.cons_append, List.append_assoc, List.nil_append]
        rw [bytes_cons_ascii (by decide), bytes_append, bytes_cons_ascii (by decide)]
        rfl
      rw [opened, skipWhitespace_stop (by decide)] at skipped
      rw [parseDestination_pointy skipped accepted (by omega)]
      have same : (⟨link.destinationRange.start,
          link.destinationRange.start + 1 + byteLen body + 1⟩ : Range) = link.destinationRange := by
        have len' : link.destinationRange.start + 1 + byteLen body + 1 =
            link.destinationRange.stop := by omega
        rw [len']
      constructor
      · intro _
        exact ⟨unquoted, by simp [kind, Destination.text], by simp [kind, Destination.BackslashAtEnd]⟩
      · intro _
        rw [same]
    | bare body accepted plain =>
      have text : link.destination.text = body := by rw [kind, Destination.text]
      cases shape : body with
      | nil =>
        -- nothing is found that is empty
        constructor
        · intro found
          have ordered := (parseDestination_start found).2
          rw [stop, text, shape, byteLen_nil] at ordered
          omega
        · intro located
          exact absurd (text.trans shape) located.2.1
      | cons c rest =>
        rcases exists_utf8EncodeChar c with ⟨b, others, encoded⟩
        have mem : b ∈ String.utf8EncodeChar c := encoded ▸ List.mem_cons_self
        have opened : bytes (link.destination.text ++ (link.ending.text ++ link.trail)) =
            bytes body ++ e :: (after ++ bytes link.trail) := by
          rw [text, bytes_append, bytes_append, ending, List.cons_append]
        have first : bytes body ++ e :: (after ++ bytes link.trail) =
            b :: (others ++ bytes rest ++ e :: (after ++ bytes link.trail)) := by
          rw [shape, bytes_cons, encoded]
          simp
        have white : isAsciiWhitespace b = false := bytes_bare (shape ▸ accepted) b mem
        have bare : b ≠ byte '<' := by
          apply ne_byte_of_mem (by decide) _ mem
          intro same
          rw [shape, same] at plain
          exact plain rfl
        rw [opened, first, skipWhitespace_stop white, ← first] at skipped
        rw [first] at skipped
        rw [parseDestination_bare skipped bare (by omega), ← first]
        rw [text] at stop
        have ends := @bareEnd_body link.span.stop 0 link.destinationRange.start body accepted
          (by omega) e stops (after ++ bytes link.trail)
        unfold EndsAt at ends
        have positive : 0 < byteLen body := by
          have size := c.utf8Size_pos
          rw [shape, byteLen_cons]
          omega
        split at ends
        · rename_i backslash
          constructor
          · intro found
            split at found
            · have late := congrArg Range.stop (Option.some.inj found)
              dsimp only at late
              omega
            · cases found
          · intro located
            exact absurd (by simpa [kind, Destination.BackslashAtEnd] using backslash) located.2.2
        · rename_i backslash
          rw [ends]
          constructor
          · intro _
            refine ⟨unquoted, ?_, ?_⟩
            · rw [text, shape]
              exact List.cons_ne_nil _ _
            · simpa [kind, Destination.BackslashAtEnd] using backslash
          · intro _
            rw [if_pos (by omega), ← stop]
  · have marker : asciiByte '>' ∈ bytes link.gap.text :=
      asciiByte_mem_bytes (by decide) (not_not.mp unquoted)
    constructor
    · intro found
      have at_ := (parseDestination_start found).1
      have early := @skipWhitespace_lt link.span.stop (byteLen (upToGap link)) _ _
        marker (by decide) (bytes (link.destination.text ++ (link.ending.text ++ link.trail)))
      rw [← from_, length_bytes, ← at_] at early
      omega
    · intro located
      exact absurd located.1 unquoted

end Parse

/-! ## The closing bracket -/

section Closing

theorem utf8EncodeChar_getLast (c : Char) : ∃ others b, String.utf8EncodeChar c = others ++ [b] := by
  rcases List.eq_nil_or_concat (String.utf8EncodeChar c) with none | ⟨others, b, same⟩
  · exact absurd none String.utf8EncodeChar_ne_nil
  · exact ⟨others, b, same.trans List.concat_eq_append⟩

theorem takeWhile_backslash (text : Text) :
    ((bytes text).reverse.takeWhile (· = byte '\\')).length =
      (text.reverse.takeWhile (· = '\\')).length := by
  induction text using List.reverseRecOn with
  | nil => simp
  | append_singleton text c ih =>
    rw [bytes_append, List.reverse_append, List.reverse_append]
    by_cases escape : c = '\\'
    · subst escape
      rw [bytes_cons_ascii (by decide), bytes_nil]
      simp only [List.reverse_singleton, List.singleton_append, List.takeWhile_cons, decide_true,
        if_true, List.length_cons]
      rw [← ih]
      simp [byte, asciiByte]
    · rcases utf8EncodeChar_getLast c with ⟨others, b, encoded⟩
      have mem : b ∈ String.utf8EncodeChar c := by simp [encoded]
      have other := ne_byte_of_mem (by decide) escape mem
      rw [bytes_cons, bytes_nil, List.append_nil, encoded]
      simp [escape, other]

/-- The escape check at a character boundary. -/
theorem isEscaped_bytes (before after : Text) :
    isEscaped (bytes (before ++ after)) (byteLen before) =
      decide ((before.reverse.takeWhile (· = '\\')).length % 2 = 1) := by
  unfold isEscaped
  rw [bytes_append, ← length_bytes, List.take_left, takeWhile_backslash]

theorem scanClosing_append {limit i : Nat} {bs passed : List UInt8}
    (plain : ∀ b ∈ passed, b ≠ byte ']') (room : i + passed.length ≤ limit) (rest : List UInt8) :
    scanClosing bs limit i (passed ++ rest) =
      scanClosing bs limit (i + passed.length) rest := by
  induction passed generalizing i with
  | nil => simp
  | cons b others ih =>
    simp only [List.length_cons] at room
    have inside : ¬ limit ≤ i := by omega
    have this := plain b List.mem_cons_self
    rw [List.cons_append, scanClosing]
    simp only [inside, this, decide_false, Bool.false_and, Bool.false_eq_true, if_false]
    rw [ih (fun b mem => plain b (List.mem_cons_of_mem _ mem)) (by omega), List.length_cons,
      Nat.add_assoc, Nat.add_comm 1]

theorem scanClosing_close {limit i : Nat} {bs : List UInt8} (unescaped : isEscaped bs i = false)
    (inside : i < limit) (rest : List UInt8) :
    scanClosing bs limit i (byte ']' :: rest) =
      if rest.head? = some (byte '(') then parseDestination bs (i + 2) limit else none := by
  have inside : ¬ limit ≤ i := by omega
  rw [scanClosing]
  simp only [inside, unescaped, decide_true, Bool.not_false, Bool.and_self, if_true, if_false]

/-- The scan stops at the bracket behind the text. -/
theorem destinationSpan_close {place : Place} {text : LinkText} {rest : Text} {span : Range}
    {source : Text} (same : source = place.lead ++ place.opening ++ text.text ++ ']' :: rest)
    (start : span.start = place.start)
    (room : byteLen (place.lead ++ place.opening ++ text.text) < span.stop) :
    destinationSpan source span (place.textEnd text) =
      if (bytes rest).head? = some (byte '(') then
        parseDestination (bytes source) (byteLen (place.lead ++ place.opening ++ text.text) + 2)
          span.stop
      else none := by
  rcases place.exists_textEnd text with ⟨before, passed, whole, upTo, plain, later⟩
  have len := congrArg byteLen whole
  rw [byteLen_append before passed] at len
  have at_ : source = before ++ (passed ++ ']' :: rest) := by
    rw [same, whole, List.append_assoc]
  have none : ∀ b ∈ bytes passed, b ≠ byte ']' := by
    intro b mem bracket
    subst bracket
    exact plain (mem_of_asciiByte_mem (by decide) mem)
  have unescaped : isEscaped (bytes source)
      (byteLen (place.lead ++ place.opening ++ text.text)) = false := by
    have even := text.closes
    rw [same, isEscaped_bytes, place.backslashes_eq, LinkText.text, even]
    rfl
  unfold destinationSpan
  dsimp only
  rw [start, Nat.max_eq_left later, ← upTo]
  have dropped : (bytes source).drop (byteLen before) = bytes passed ++ byte ']' :: bytes rest := by
    rw [at_, drop_bytes, bytes_append, bytes_cons_ascii (by decide)]
    rfl
  rw [dropped, scanClosing_append none (by rw [length_bytes]; omega), length_bytes, ← len]
  exact scanClosing_close unescaped room (bytes rest)

theorem destinationSpan_inline (link : InlineLink) :
    destinationSpan link.source link.span link.textEnd = some link.destinationRange ↔
      Located link := by
  have same : link.source = link.place.lead ++ link.place.opening ++ link.text.text ++ ']' ::
      ('(' :: (link.gap.text ++ (link.destination.text ++ (link.ending.text ++ link.trail)))) := by
    rw [source_eq, upToGap]
    simp
  have two : byteLen (upToGap link) =
      byteLen (link.place.lead ++ link.place.opening ++ link.text.text) + 2 := by
    simp [upToGap, show Char.utf8Size ']' = 1 from by decide,
      show Char.utf8Size '(' = 1 from by decide, Nat.add_assoc]
  have start := destinationRange_start link
  have stop := destinationRange_stop link
  have upTo := destinationRange_lt link
  rw [InlineLink.textEnd, destinationSpan_close same rfl (by omega),
    bytes_cons_ascii (by decide)]
  rw [List.head?_cons, ← byte_eq_asciiByte, if_pos rfl, ← two]
  exact parseDestination_iff link

/-- A link whose destination is written elsewhere has none. -/
theorem destinationSpan_reference (link : ReferenceLink) :
    destinationSpan link.source link.span link.textEnd = none := by
  have same : link.source = link.place.lead ++ link.place.opening ++ link.text.text ++ ']' ::
      (link.labelText ++ link.trail) := by
    simp [ReferenceLink.source, ReferenceLink.upToEnd]
  have bracket : Char.utf8Size ']' = 1 := by decide
  have stop : link.span.stop =
      byteLen (link.place.lead ++ link.place.opening ++ link.text.text) + 1 +
        byteLen link.labelText := by
    simp [ReferenceLink.span, ReferenceLink.upToEnd, bracket, Nat.add_assoc]
  rw [ReferenceLink.textEnd, destinationSpan_close same rfl (by omega)]
  split
  · rename_i paren
    -- the parenthesis stands behind the link
    have short : link.labelText = [] := by
      unfold ReferenceLink.labelText at paren ⊢
      cases label : link.label with
      | none => rfl
      | some label =>
        simp only [label, List.cons_append] at paren
        rw [bytes_cons_ascii (by decide)] at paren
        exact absurd (Option.some.inj paren) (by decide)
    rw [short, byteLen_nil] at stop
    unfold parseDestination
    generalize (bytes link.source).drop _ = rest
    cases rest with
    | nil => rfl
    | cons b rest =>
      rw [skipWhitespace]
      have past : ¬ byteLen (link.place.lead ++ link.place.opening ++ link.text.text) + 2 <
          link.span.stop := by omega
      have past' : link.span.stop ≤
          byteLen (link.place.lead ++ link.place.opening ++ link.text.text) + 2 := by omega
      simp only [past, past', decide_false, Bool.false_and, Bool.false_eq_true, if_false, if_true]
  · rfl

theorem destinationSpan_autolink (link : Autolink) :
    destinationSpan link.source link.span link.textEnd = none := by
  have size : Char.utf8Size '<' = 1 := by decide
  have close : Char.utf8Size '>' = 1 := by decide
  have later : link.span.start + 1 ≤ link.textEnd := by
    simp only [Autolink.span, Autolink.textEnd, byteLen_append, byteLen_cons, byteLen_nil, size]
    omega
  have stop : link.span.stop = link.textEnd + 1 := by
    simp only [Autolink.span, Autolink.textEnd, byteLen_append, byteLen_cons, byteLen_nil, size,
      close]
  have rest : (bytes link.source).drop link.textEnd = byte '>' :: bytes link.trail := by
    have whole : link.source = (link.lead ++ ['<'] ++ link.address) ++ '>' :: link.trail := by
      simp [Autolink.source]
    rw [whole, Autolink.textEnd, drop_bytes, bytes_cons_ascii (by decide)]
    rfl
  unfold destinationSpan
  dsimp only
  rw [Nat.max_eq_left later, rest, scanClosing]
  have inside : ¬ link.span.stop ≤ link.textEnd := by omega
  have other : byte '>' ≠ byte ']' := by decide
  simp only [inside, other, decide_false, Bool.false_and, Bool.false_eq_true, if_false]
  cases bytes link.trail with
  | nil => rfl
  | cons b others =>
    rw [scanClosing, if_pos (by omega)]

end Closing

end Burlmd.Workspace
