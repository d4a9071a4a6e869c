import Burlmd.Library.Visible

/-!
# How a line is read

One equation for each construct that a line may go on with.
-/

namespace Burlmd.CommonMark

open Utf8 (Text)

/-- A character that stands for itself wherever it is. -/
def isOrdinary (c : Char) : Bool :=
  !isRun c && c ∉ ['\\', '[', ']', '!', '<', '&']

theorem leading_replicate {c : Char} {rest : Text} (boundary : rest.head? ≠ some c) (more : Nat) :
    leading c (List.replicate more c ++ rest) = more := by
  unfold leading
  induction more with
  | zero =>
    cases rest with
    | nil => rfl
    | cons d others =>
      have other : ¬ d = c := fun same => boundary (congrArg some same)
      simp [other]
  | succ more ih =>
    rw [List.replicate_succ, List.cons_append, List.takeWhile_cons_of_pos (by simp),
      List.length_cons, ih]

theorem drop_replicate (c : Char) (more : Nat) (rest : Text) :
    (List.replicate more c ++ rest).drop more = rest := by
  rw [List.drop_append_of_le_length (by simp), List.drop_eq_nil_of_le (by simp), List.nil_append]

/-- Blanks at its ends are all that a code span loses. -/
theorem count_trimCode {c : Char} (other : c ≠ ' ') (content : Text) :
    (trimCode content).count c = content.count c := by
  unfold trimCode
  split
  · rename_i blanks
    simp only [Bool.and_eq_true, decide_eq_true_eq] at blanks
    rcases blanks with ⟨⟨first, last⟩, inner⟩
    cases content with
    | nil => cases first
    | cons d rest =>
      cases Option.some.inj first
      rcases List.eq_nil_or_concat rest with none_ | ⟨mid, e, isRest⟩
      · subst none_
        simp at inner
      · rw [isRest, List.concat_eq_append] at last ⊢
        have isBlank : e = ' ' := by
          have ends : (' ' :: (mid ++ [e])).getLast? = some e := by
            rw [← List.cons_append, List.getLast?_append]
            rfl
          rw [ends] at last
          exact Option.some.inj last
        rw [List.tail_cons, List.dropLast_concat, List.count_cons, List.count_append, isBlank]
        simp [other.symm]
  · rfl

namespace Rules

variable {rules : Rules} {previous : Option Char} {stack : List Item}

/-- What is read already is passed over. -/
theorem scan_skip {last : Char} (passed rest : Text) :
    rules.scan (passed.length + 1) previous stack (passed ++ last :: rest) =
      rules.scan 0 (some last) stack rest := by
  induction passed generalizing previous with
  | nil => rfl
  | cons c others ih => exact ih

theorem scan_run {c : Char} (more : Nat) (rest : Text) :
    rules.scan more (some c) stack (List.replicate more c ++ rest) =
      rules.scan 0 (some c) stack rest := by
  cases more with
  | zero => rfl
  | succ more =>
    have passed := @scan_skip rules (some c) stack c (List.replicate more c) rest
    rw [List.length_replicate] at passed
    rw [List.replicate_succ', List.append_assoc]
    exact passed

theorem scan_escape {d : Char} (punctuation : isAsciiPunctuation d = true) (rest : Text) :
    rules.scan 0 previous stack ('\\' :: d :: rest) =
      rules.scan 0 (some d) (.plain [d] :: stack) rest := by
  have step : rules.step previous stack '\\' (d :: rest) = (.plain [d] :: stack, 1) := by
    simp [Rules.step, punctuation]
  rw [scan, step]
  rfl

theorem scan_ordinary {c : Char} (ordinary : isOrdinary c = true) (rest : Text) :
    rules.scan 0 previous stack (c :: rest) =
      rules.scan 0 (some c) (.plain [c] :: stack) rest := by
  have step : rules.step previous stack c rest = (.plain [c] :: stack, 0) := by
    unfold isOrdinary isRun at ordinary
    simp at ordinary
    simp [Rules.step, ordinary]
  rw [scan, step]

theorem scan_bang {rest : Text} (alone : rest.head? ≠ some '[') :
    rules.scan 0 previous stack ('!' :: rest) =
      rules.scan 0 (some '!') (.plain ['!'] :: stack) rest := by
  have step : rules.step previous stack '!' rest = (.plain ['!'] :: stack, 0) := by
    have isTick : ¬ '!' = tick := by decide
    have isMarker : Marker.of? '!' = none := by decide
    simp [Rules.step, isTick, isMarker, alone]
  rw [scan, step]

theorem scan_bracket (rest : Text) :
    rules.scan 0 previous stack ('[' :: rest) =
      rules.scan 0 (some '[') (.bracket false true :: stack) rest := by
  have step : rules.step previous stack '[' rest = (.bracket false true :: stack, 0) := by
    have isTick : ¬ '[' = tick := by decide
    have isMarker : Marker.of? '[' = none := by decide
    simp [Rules.step, isTick, isMarker]
  rw [scan, step]

/-- The run of a marker with what stands around it. -/
def flanked (rules : Rules) (marker : Marker) (length : Nat) (previous next : Option Char) : Delim :=
  ⟨marker, length, length, rules.opens marker length previous next,
    rules.closes marker length previous next⟩

theorem scan_markers {c : Char} {marker : Marker} (isMarker : Marker.of? c = some marker)
    {more : Nat} {rest : Text} (boundary : rest.head? ≠ some c) :
    rules.scan 0 previous stack (c :: (List.replicate more c ++ rest)) =
      rules.scan 0 (some c) (.run (rules.flanked marker (more + 1) previous rest.head?) :: stack)
        rest := by
  have isChar := Marker.char_of? isMarker
  have escape : ¬ c = '\\' := by
    intro same
    rw [same] at isMarker
    cases isMarker
  have isTick : ¬ c = tick := by
    intro same
    rw [same] at isMarker
    cases isMarker
  have step : rules.step previous stack c (List.replicate more c ++ rest) =
      (.run (rules.flanked marker (more + 1) previous rest.head?) :: stack, more) := by
    simp only [Rules.step, escape, isTick, isMarker, if_false]
    unfold markers
    dsimp only
    rw [isChar, leading_replicate boundary, drop_replicate]
    rfl
  rw [scan, step]
  exact scan_run more rest

theorem step_tick {more : Nat} {rest : Text} (boundary : rest.head? ≠ some tick) :
    rules.step previous stack tick (List.replicate more tick ++ rest) =
      (before? (more + 1) (chunks rest)).elim
        (.plain (List.replicate (more + 1) tick) :: stack, more)
        fun length => (.piece (.code (trimCode (rest.take length)) .nil) :: stack,
          more + length + (more + 1)) := by
  have escape : ¬ tick = '\\' := by decide
  cases found : before? (more + 1) (chunks rest) with
  | none => simp [Rules.step, escape, codeSpan, leading_replicate boundary, found]
  | some length =>
    simp [Rules.step, escape, codeSpan, leading_replicate boundary, found]

/-- A run of backticks that nothing closes. -/
theorem scan_ticks {more : Nat} {rest : Text} (boundary : rest.head? ≠ some tick)
    (open_ : more + 1 ∉ ticks (chunks rest)) :
    rules.scan 0 previous stack (tick :: (List.replicate more tick ++ rest)) =
      rules.scan 0 (some tick) (.plain (List.replicate (more + 1) tick) :: stack) rest := by
  have none_ : before? (more + 1) (chunks rest) = none := by
    rw [← Option.not_isSome_iff_eq_none, before?_isSome_iff (Nat.succ_ne_zero more)]
    exact open_
  rw [scan, step_tick boundary, none_, Option.elim_none]
  exact scan_run more rest

/-- A code span up to the next run of the same length. -/
theorem scan_code {more : Nat} {content rest : Text}
    (boundary : (content ++ tick :: (List.replicate more tick ++ rest)).head? ≠ some tick)
    (next : before? (more + 1) (chunks (content ++ tick :: (List.replicate more tick ++ rest))) =
      some content.length) :
    rules.scan 0 previous stack
        (tick :: (List.replicate more tick ++ (content ++ tick :: (List.replicate more tick ++ rest)))) =
      rules.scan 0 (some tick) (.piece (.code (trimCode content) .nil) :: stack) rest := by
  rw [scan, step_tick boundary, next, Option.elim_some]
  dsimp only
  rw [List.take_left]
  have passed : List.replicate more tick ++ (content ++ tick :: (List.replicate more tick ++ rest)) =
      (List.replicate more tick ++ (content ++ List.replicate more tick)) ++ tick :: rest := by
    have swap : tick :: (List.replicate more tick ++ rest) =
        List.replicate more tick ++ tick :: rest := by
      rw [← List.cons_append, ← List.replicate_succ, List.replicate_succ', List.append_assoc]
      rfl
    rw [swap]
    simp only [List.append_assoc]
  have length : more + content.length + (more + 1) =
      (List.replicate more tick ++ (content ++ List.replicate more tick)).length + 1 := by
    simp
    omega
  rw [passed, length]
  exact scan_skip _ rest

/-- A code span that reaches at least over `content`. -/
theorem le_count_scan_code {more length : Nat} {content rest : Text} (c : Char) (blank : c ≠ ' ')
    (other : ∀ marker : Marker, marker.char ≠ c) (opening : c ≠ '[') (image : c ≠ '!')
    (boundary : (content ++ rest).head? ≠ some tick)
    (next : before? (more + 1) (chunks (content ++ rest)) = some length)
    (reaches : content.length ≤ length) :
    content.count c + tally c stack ≤
      (rules.scan 0 previous stack
        (tick :: (List.replicate more tick ++ (content ++ rest)))).shown.count c := by
  rw [scan, step_tick boundary, next, Option.elim_some]
  dsimp only
  have kept := @le_count_scan rules c other opening image (more + length + (more + 1)) (some tick)
    (.piece (.code (trimCode ((content ++ rest).take length)) .nil) :: stack)
    (List.replicate more tick ++ (content ++ rest))
  have within : content.count c ≤ ((content ++ rest).take length).count c := by
    rw [List.take_append, List.take_of_length_le reaches, List.count_append]
    exact Nat.le_add_right _ _
  rw [tally_cons, shown_code, count_trimCode blank] at kept
  omega

/-! ## Links -/

theorem pointy?_body {body : Text} (accepted : pointyBody body = true) (rest : Text) :
    pointy? (body ++ '>' :: rest) = some (body, rest) := by
  induction body using pointyBody.induct with
  | case1 =>
    rw [List.nil_append, pointy?.eq_def]
    simp
  | case2 => simp [pointyBody] at accepted
  | case3 d body punctuation ih =>
    rw [pointyBody.eq_def] at accepted
    simp only [punctuation, if_true] at accepted
    rw [List.cons_append, List.cons_append, pointy?.eq_def]
    simp [punctuation, ih accepted]
  | case4 d body plain ih =>
    rw [pointyBody.eq_def] at accepted
    simp only [plain, if_true] at accepted
    have deeper := ih accepted
    rw [List.cons_append] at deeper
    rw [List.cons_append, List.cons_append, pointy?.eq_def]
    simp [plain, deeper]
  | case5 c body escape ih =>
    rw [pointyBody.eq_def] at accepted
    simp only [escape, if_false, Bool.and_eq_true, decide_eq_true_eq, Bool.not_eq_true'] at accepted
    rw [List.cons_append, pointy?.eq_def]
    simp [escape, accepted.1.1.1, accepted.1.1.2, accepted.1.2, ih accepted.2]

theorem decode_of_entityFree {body : Text} (free : entityFree body = true) :
    rules.decode 0 body = unescape body := by
  induction body using entityFree.induct with
  | case1 => rfl
  | case2 => simp [decode, unescape]
  | case3 d body punctuation ih =>
    rw [entityFree.eq_def] at free
    simp only [punctuation, if_true] at free
    rw [decode.eq_def, unescape.eq_def]
    simp [punctuation, ih free]
  | case4 d body plain ih =>
    rw [entityFree.eq_def] at free
    simp only [plain, if_true] at free
    rw [decode.eq_def, unescape.eq_def]
    simp [plain, ih free]
  | case5 c body escape ih =>
    rw [entityFree.eq_def] at free
    simp only [escape, if_false, Bool.and_eq_true, decide_eq_true_eq] at free
    rw [decode.eq_def, unescape.eq_def]
    simp [escape, free.1, ih free.2]

theorem bracket?_append {inner : List Item} (open_ : ∀ image active, .bracket image active ∉ inner)
    (outer : List Item) (image active : Bool) :
    bracket? (inner ++ .bracket image active :: outer) = some (inner, (image, active), outer) := by
  induction inner with
  | nil => rfl
  | cons item rest ih =>
    have deeper := ih fun image active mem => open_ image active (List.mem_cons_of_mem _ mem)
    cases item with
    | bracket image active => exact absurd List.mem_cons_self (open_ image active)
    | piece inlines =>
      rw [List.cons_append, bracket?, deeper]
      · rfl
      · intro image active same
        cases same
    | run delim =>
      rw [List.cons_append, bracket?, deeper]
      · rfl
      · intro image active same
        cases same

theorem tail?_pointy {body : Text} (accepted : pointyBody body = true)
    (free : entityFree body = true) (rest : Text) :
    rules.tail? ('(' :: '<' :: body ++ '>' :: ')' :: rest) =
      some (unescape body, body.length + 4) := by
  have gap : ('<' :: body ++ '>' :: ')' :: rest).dropWhile isGap =
      '<' :: body ++ '>' :: ')' :: rest := by
    rw [List.cons_append]
    exact List.dropWhile_cons_of_neg (by decide)
  have found : destination? ('<' :: body ++ '>' :: ')' :: rest) = some (body, ')' :: rest) := by
    rw [List.cons_append, destination?, if_pos rfl, pointy?_body accepted]
  have ending : ending? (')' :: rest) = some rest := by
    have stays : (')' :: rest).dropWhile isGap = ')' :: rest :=
      List.dropWhile_cons_of_neg (by decide)
    simp [ending?, closed?, stays]
  rw [List.cons_append, tail?, if_pos rfl, gap, found, Option.bind_some, ending,
    Option.map_some, decode_of_entityFree free]
  congr 2
  simp
  omega

theorem closeBracket_link {inner outer : List Item}
    (open_ : ∀ image active, .bracket image active ∉ inner) {rest dest_url : Text} {length : Nat}
    (found : rules.tail? rest = some (dest_url, length)) :
    rules.closeBracket (inner ++ .bracket false true :: outer) rest =
      (.piece (.node (.link dest_url) (rules.resolve inner.reverse) .nil) ::
        outer.map Item.deactivate, length) := by
  rw [closeBracket, bracket?_append open_]
  simp [found]

/-- A bracket that closes over a pointy destination makes a link. -/
theorem scan_link {inner outer : List Item} (open_ : ∀ image active, .bracket image active ∉ inner)
    {body : Text} (accepted : pointyBody body = true) (free : entityFree body = true) (rest : Text) :
    rules.scan 0 previous (inner ++ .bracket false true :: outer)
        (']' :: '(' :: '<' :: body ++ '>' :: ')' :: rest) =
      rules.scan 0 (some ')')
        (.piece (.node (.link (unescape body)) (rules.resolve inner.reverse) .nil) ::
          outer.map Item.deactivate) rest := by
  have isTick : ¬ ']' = tick := by decide
  have isMarker : Marker.of? ']' = none := by decide
  have closes : rules.step previous (inner ++ .bracket false true :: outer) ']'
      ('(' :: '<' :: body ++ '>' :: ')' :: rest) =
      (.piece (.node (.link (unescape body)) (rules.resolve inner.reverse) .nil) ::
        outer.map Item.deactivate, body.length + 4) := by
    have isClose : rules.step previous (inner ++ .bracket false true :: outer) ']'
        ('(' :: '<' :: body ++ '>' :: ')' :: rest) =
        rules.closeBracket (inner ++ .bracket false true :: outer)
          ('(' :: '<' :: body ++ '>' :: ')' :: rest) := by
      simp [Rules.step, isTick, isMarker]
    rw [isClose, closeBracket_link open_ (tail?_pointy accepted free rest)]
  rw [List.cons_append, scan, closes]
  have passed : '(' :: '<' :: body ++ '>' :: ')' :: rest = ('(' :: '<' :: body ++ ['>']) ++ ')' :: rest := by
    simp
  have length : body.length + 4 = ('(' :: '<' :: body ++ ['>']).length + 1 := by simp
  rw [passed, length]
  exact scan_skip _ rest

end Rules

end Burlmd.CommonMark
