/-
  Values come back from TOML.

  Numbers and booleans are words, which end before the line feed, the comma or the bracket that
  stands behind every value (`Closed`).  A list of several elements has a line for each, with a
  comma at its end, so its elements are read one line after the other (`takeItems_itemsChars`).  The
  induction is on the document; a list takes one of the levels that values may be nested.

  Of floats only those come back that the reader takes for what the writer prints
  (`Toml.ReadsBack`).
-/
import Embroidery.Document.Toml.Reader
import Embroidery.Proofs.Document.Toml.Text

namespace Embroidery.Toml

variable {cs left rest : List Char}

/-! ## What stands around values -/

/-- A value ends here: at the end of its line, of an element, or of a list. -/
def isCloser (c : Char) : Bool := c == '\n' || (c == ',' || c == ']')

/-- The text behind a value. -/
def Closed (rest : List Char) : Prop := StopsAt (fun c => !isCloser c) rest

theorem Closed.cons {c : Char} (h : isCloser c = true) (rest : List Char) : Closed (c :: rest) :=
  StopsAt.cons (by rw [h]; rfl)

theorem Closed.stopsAt {test : Char → Bool} (h : Closed rest)
    (htest : test '\n' = false ∧ test ',' = false ∧ test ']' = false) : StopsAt test rest := by
  refine StopsAt.mono h fun c hc => ?_
  obtain ⟨hfeed, hcomma, hbracket⟩ := htest
  have hne : ∀ d, test d = false → (c == d) = false := by
    intro d hd
    rw [beq_eq_false_iff_ne]
    rintro rfl
    exact Bool.noConfusion (hd.symm.trans hc)
  rw [isCloser, hne '\n' hfeed, hne ',' hcomma, hne ']' hbracket]
  rfl

/-- A character that is not passed over in front of a value. -/
structure Starts (c : Char) : Prop where
  space : isSpace c = false
  feed : c ≠ '\n'
  carriage : c ≠ '\r'
  comment : c ≠ '#'

theorem skipSpace_cons {c : Char} (hc : isSpace c = false) (cs : List Char) :
    skipSpace (c :: cs) = c :: cs :=
  List.dropWhile_cons_of_neg (by rw [hc]; exact Bool.false_ne_true)

theorem skipComment_cons {c : Char} (hc : c ≠ '#') (cs : List Char) :
    skipComment (c :: cs) = c :: cs := by
  unfold skipComment
  split
  · next h => exact absurd (List.cons.inj h).1 hc
  · rfl

theorem Starts.skipLines {c : Char} (h : Starts c) (fuel : Nat) (cs : List Char) :
    skipLines fuel (c :: cs) = c :: cs := by
  cases fuel with
  | zero => rfl
  | succ fuel =>
    rw [Toml.skipLines, skipSpace_cons h.space, skipComment_cons h.comment,
      dropBreak_cons h.feed h.carriage]

theorem skipLines_indent {c : Char} (h : Starts c) {fuel : Nat} (hfuel : 0 < fuel)
    (cs : List Char) : skipLines fuel ("    ".toList ++ c :: cs) = c :: cs := by
  obtain ⟨fuel, rfl⟩ := Nat.exists_eq_succ_of_ne_zero (Nat.ne_of_gt hfuel)
  have hindent : skipLines (fuel + 1) ("    ".toList ++ c :: cs) =
      skipLines (fuel + 1) (c :: cs) := by
    rw [skipLines, skipLines]
    rfl
  exact hindent.trans (h.skipLines (fuel + 1) cs)

theorem skipLines_break {fuel : Nat} (hfuel : 0 < fuel) (cs : List Char) :
    skipLines fuel ('\n' :: cs) = skipLines (fuel - 1) cs := by
  obtain ⟨fuel, rfl⟩ := Nat.exists_eq_succ_of_ne_zero (Nat.ne_of_gt hfuel)
  rw [skipLines]
  rfl

/-- The next element of a list stands on the next line. -/
theorem skipLines_nextLine {c : Char} (h : Starts c) {fuel : Nat} (hfuel : 1 < fuel)
    (cs : List Char) : skipLines fuel ('\n' :: ("    ".toList ++ c :: cs)) = c :: cs := by
  rw [skipLines_break (by omega), skipLines_indent h (by omega)]

/-! ## Words -/

/-- The characters of words start words only. -/
theorem starts_of_isWordChar {c : Char} (h : isWordChar c = true) :
    Starts c ∧ c ≠ ']' ∧ c ≠ '"' ∧ c ≠ '\'' ∧ c ≠ '[' ∧ c ≠ '\x7b' := by
  have hne : ∀ d, isWordChar d = false → c ≠ d := by
    rintro d hd rfl
    exact Bool.noConfusion (h.symm.trans hd)
  have hspace : isSpace c = false := by
    rw [isSpace, decide_eq_false (hne ' ' rfl), decide_eq_false (hne '\t' rfl)]
    rfl
  exact ⟨⟨hspace, hne '\n' rfl, hne '\r' rfl, hne '#' rfl⟩, hne ']' rfl, hne '"' rfl, hne '\'' rfl,
    hne '[' rfl, hne '\x7b' rfl⟩

theorem takeScalar_append {word : List Char} {d : Document}
    (hword : ∀ c ∈ word, isWordChar c = true)
    (hd : wordValue word = some d) (hrest : Closed rest) :
    takeScalar (word ++ rest) = some (d, rest) := by
  have hstop : StopsAt isWordChar rest := hrest.stopsAt (by decide)
  have hblank : (rest.head? == some ' ') = false := by
    rw [beq_eq_false_iff_ne]
    intro h
    exact absurd (hrest ' ' h) (by decide)
  rw [takeScalar, hstop.takeWhile_run hword, hstop.dropWhile_run hword, hblank, Bool.and_false,
    Bool.false_and,
    if_neg Bool.false_ne_true, hd]
  rfl

theorem takeValue_word {word : List Char} {d : Document} (hword : ∀ c ∈ word, isWordChar c = true)
    (hd : wordValue word = some d) (hrest : Closed rest) (fuel depth : Nat) :
    takeValue (fuel + 1) depth (word ++ rest) = some (d, rest) := by
  have hscalar := takeScalar_append hword hd hrest
  cases word with
  | nil =>
    have hnone : wordValue [] = none := rfl
    exact nomatch hnone.symm.trans hd
  | cons c word =>
    obtain ⟨-, -, hquote, hliteral, hlist, htable⟩ :=
      starts_of_isWordChar (hword c List.mem_cons_self)
    rw [takeValue.eq_def]
    dsimp only
    split
    · next h => exact absurd (List.cons.inj h).1 hquote
    · next h => exact absurd (List.cons.inj h).1 hliteral
    · next h => exact absurd (List.cons.inj h).1 hlist
    · next h => exact absurd (List.cons.inj h).1 htable
    · exact hscalar

theorem wordValue_bool (b : Bool) :
    (∀ c ∈ (if b then "true" else "false").toList, isWordChar c = true) ∧
      wordValue (if b then "true" else "false").toList = some (.bool b) := by
  cases b with
  | true => exact ⟨List.all_eq_true.1 (by decide), rfl⟩
  | false => exact ⟨List.all_eq_true.1 (by decide), rfl⟩

/-! ## Numbers -/

theorem isWordChar_of_isDigit {c : Char} (h : c.isDigit = true) : isWordChar c = true := by
  rw [isWordChar, Char.isAlphanum, h, Bool.or_true]
  rfl

/-- Digits, behind a minus sign or not. -/
def signedDigits (negative : Bool) (digits : List Char) : List Char :=
  (if negative then ['-'] else []) ++ digits

variable {digits : List Char}

theorem of_mem_signedDigits {negative : Bool} (hdigits : ∀ c ∈ digits, c.isDigit = true) {c : Char}
    (hc : c ∈ signedDigits negative digits) : c = '-' ∨ c.isDigit = true := by
  rcases List.mem_append.1 hc with hsign | hc
  · cases negative with
    | true => exact .inl (List.mem_singleton.1 hsign)
    | false => exact absurd hsign List.not_mem_nil
  · exact .inr (hdigits c hc)

/-- No letter and no colon is a sign or a digit. -/
theorem not_mem_signedDigits {negative : Bool} (hdigits : ∀ c ∈ digits, c.isDigit = true) {c : Char}
    (hsign : c ≠ '-') (hc : c.isDigit = false) : c ∉ signedDigits negative digits := by
  intro hmem
  rcases of_mem_signedDigits hdigits hmem with h | h
  · exact hsign h
  · exact Bool.noConfusion (hc.symm.trans h)

/-- Digits without an underscore. -/
theorem joinDigits_eq_self (hne : digits ≠ []) (hdigits : ∀ c ∈ digits, c.isDigit = true) :
    joinDigits Char.isDigit digits = some digits := by
  induction digits with
  | nil => exact absurd rfl hne
  | cons c digits ih =>
    obtain ⟨hc, hothers⟩ := List.forall_mem_cons.1 hdigits
    cases digits with
    | nil => rw [joinDigits, if_pos hc]
    | cons d digits =>
      have hd : d ≠ '_' := by
        rintro rfl
        exact absurd (hothers '_' List.mem_cons_self) (by decide)
      rw [joinDigits, if_pos hc, ih (List.cons_ne_nil d digits) hothers]
      · rfl
      · exact List.cons_ne_nil d digits
      · intro tail h
        exact hd (List.cons.inj h).1

theorem dropMark_eq_none {mark : Char} (h : mark ∉ cs) : dropMark mark cs = none := by
  cases cs with
  | nil => rfl
  | cons c cs => exact if_neg fun (hc : c = mark) => h (hc ▸ List.mem_cons_self)

/-- There is no date without a dash behind the year. -/
theorem dropDate_eq_none (h : '-' ∉ cs.drop 4) : dropDate cs = none := by
  rw [dropDate]
  dsimp only
  split
  · rfl
  · rw [dropMark_eq_none h]
    rfl

/-- There is no time without a colon. -/
theorem dropTime_eq_none (h : ':' ∉ cs) : dropTime cs = none := by
  match cs with
  | [] => rfl
  | [_] => rfl
  | a :: b :: tail =>
    have htail : ':' ∉ tail := fun hmem => h (List.mem_cons_of_mem a (List.mem_cons_of_mem b hmem))
    rw [dropTime, twoDigits]
    dsimp only
    split
    · rw [Option.bind_eq_bind, Option.bind_some, dropMark_eq_none htail]
      rfl
    · rfl

theorem isDateTime_signedDigits (negative : Bool) (hdigits : ∀ c ∈ digits, c.isDigit = true) :
    isDateTime (signedDigits negative digits) = false := by
  have hdate : dropDate (signedDigits negative digits) = none := by
    refine dropDate_eq_none fun hmem => ?_
    have hdash : '-' ∈ digits := by
      cases negative with
      | true => exact List.mem_of_mem_drop hmem
      | false => exact List.mem_of_mem_drop hmem
    exact absurd (hdigits '-' hdash) (by decide)
  rw [isDateTime, hdate,
    dropTime_eq_none (not_mem_signedDigits hdigits (by decide) (by decide))]
  rfl

/-- Digits with no zero in front of others. -/
structure IsWhole (digits : List Char) : Prop where
  ne_nil : digits ≠ []
  isDigit : ∀ c ∈ digits, c.isDigit = true
  zero : digits.head? = some '0' → digits = ['0']

theorem isWhole_naturalChars (n : Nat) : IsWhole (naturalChars n) where
  ne_nil := naturalChars_ne_nil n
  isDigit := fun _ => isDigit_of_mem_naturalChars
  zero := by
    intro h
    by_cases hn : n = 0
    · rw [hn]
      rfl
    · exact absurd h (head?_naturalChars hn)

theorem IsWhole.wholeDigits (h : IsWhole digits) : wholeDigits digits = some digits := by
  rw [Toml.wholeDigits, joinDigits_eq_self h.ne_nil h.isDigit]
  split
  · next heq => rw [Option.some.inj heq]
  · next hother heq =>
    obtain rfl := Option.some.inj heq
    exact (hother (List.cons.inj (h.zero rfl)).2).elim
  · rfl

theorem IsWhole.takeSign (h : IsWhole digits) (negative : Bool) :
    takeSign (signedDigits negative digits) = (negative, digits) := by
  cases negative with
  | true => rfl
  | false =>
    obtain ⟨d, tail, rfl⟩ := List.exists_cons_of_ne_nil h.ne_nil
    exact takeSign_of_isDigit (h.isDigit d List.mem_cons_self)

/-- No mark of a base stands in front of the digits. -/
theorem IsWhole.integer? (h : IsWhole digits) (negative : Bool) :
    integer? (signedDigits negative digits) =
      inRange (if negative then -(digitsValue digits : Int) else digitsValue digits) := by
  have hmark : ∀ c tail, signedDigits negative digits = '0' :: c :: tail → c.isDigit = true := by
    intro c tail heq
    cases negative with
    | true => exact nomatch (List.cons.inj heq).1
    | false => exact h.isDigit c (by rw [show digits = '0' :: c :: tail from heq]; simp)
  rw [Toml.integer?.eq_def]
  split
  · next heq => exact absurd (hmark _ _ heq) (by decide)
  · next heq => exact absurd (hmark _ _ heq) (by decide)
  · next heq => exact absurd (hmark _ _ heq) (by decide)
  · rw [h.takeSign]
    dsimp only
    rw [h.wholeDigits]
    rfl

/-- The integers that TOML can express. -/
def InRange (i : Int) : Prop := Int64.minValue.toInt ≤ i ∧ i ≤ Int64.maxValue.toInt

theorem wordValue_signedDigits {negative : Bool} {i : Int} (h : IsWhole digits)
    (hvalue : i = if negative then -(digitsValue digits : Int) else digitsValue digits)
    (hi : InRange i) : wordValue (signedDigits negative digits) = some (.integer i) := by
  have hletter : 'e' ∉ signedDigits negative digits :=
    not_mem_signedDigits h.isDigit (by decide) (by decide)
  have hinteger : integer? (signedDigits negative digits) = some i := by
    rw [h.integer?, ← hvalue]
    exact if_pos hi
  rw [wordValue, if_neg fun heq => hletter (by rw [heq]; decide),
    if_neg fun heq => hletter (by rw [heq]; decide), isDateTime_signedDigits negative h.isDigit,
    if_neg Bool.false_ne_true, hinteger]

/-- An integer is a word that is read as it was written. -/
theorem wordValue_integerChars {i : Int} (hi : InRange i) :
    (∀ c ∈ integerChars i, isWordChar c = true) ∧
      wordValue (integerChars i) = some (.integer i) := by
  have hsigned : ∀ (negative : Bool) (n : Nat),
      (i = if negative then -(n : Int) else n) →
      (∀ c ∈ signedDigits negative (naturalChars n), isWordChar c = true) ∧
        wordValue (signedDigits negative (naturalChars n)) = some (.integer i) := by
    intro negative n hvalue
    have hwhole := isWhole_naturalChars n
    refine ⟨fun c hc => ?_, wordValue_signedDigits hwhole ?_ hi⟩
    · rcases of_mem_signedDigits hwhole.isDigit hc with rfl | hdigit
      · rfl
      · exact isWordChar_of_isDigit hdigit
    · rw [digitsValue_naturalChars]
      exact hvalue
  cases i with
  | ofNat n => exact hsigned false n rfl
  | negSucc n => exact hsigned true (n + 1) rfl

/-- All digits of a float written out are characters of words. -/
theorem isWordChar_plainChars (pointZero : Bool) (digits : Nat) (exponent : Int) :
    ∀ c ∈ plainChars pointZero digits exponent, isWordChar c = true := by
  have hdigits : ∀ c ∈ naturalChars digits, isWordChar c = true :=
    fun c hc => isWordChar_of_isDigit (isDigit_of_mem_naturalChars hc)
  have hzeros : ∀ n, ∀ c ∈ List.replicate n '0', isWordChar c = true := by
    intro n c hc
    rw [(List.mem_replicate.1 hc).2]
    rfl
  intro c hc
  unfold plainChars at hc
  dsimp only at hc
  split at hc
  · rcases List.mem_append.1 hc with hc | hc
    · rcases List.mem_append.1 hc with hc | hc
      · exact hdigits c hc
      · exact hzeros _ c hc
    · cases pointZero with
      | true =>
        have hpoint : ∀ c ∈ ['.', '0'], isWordChar c = true := List.all_eq_true.1 (by decide)
        exact hpoint c hc
      | false => exact absurd hc List.not_mem_nil
  · have hpadded : ∀ n, ∀ c ∈ List.replicate n '0' ++ naturalChars digits, isWordChar c = true := by
      intro n c hc
      rcases List.mem_append.1 hc with hc | hc
      · exact hzeros n c hc
      · exact hdigits c hc
    rcases List.mem_append.1 hc with hc | hc
    · exact hpadded _ c (List.mem_of_mem_take hc)
    · rcases List.mem_cons.1 hc with rfl | hc
      · rfl
      · exact hpadded _ c (List.mem_of_mem_drop hc)

theorem isWordChar_floatChars (v : Binary64) : ∀ c ∈ numberStyle.chars v, isWordChar c = true := by
  have hsigned : ∀ (negative : Bool) (cs : List Char), (∀ c ∈ cs, isWordChar c = true) →
      ∀ c ∈ (if negative then ['-'] else []) ++ cs, isWordChar c = true := by
    intro negative cs hcs c hc
    rcases List.mem_append.1 hc with hc | hc
    · cases negative with
      | true => rw [List.mem_singleton.1 hc]; rfl
      | false => exact absurd hc List.not_mem_nil
    · exact hcs c hc
  cases v with
  | nan =>
    have hname : ∀ c ∈ "nan".toList, isWordChar c = true := List.all_eq_true.1 (by decide)
    exact hname
  | infinite negative =>
    have hname : ∀ c ∈ "inf".toList, isWordChar c = true := List.all_eq_true.1 (by decide)
    exact hsigned negative _ hname
  | finite negative units =>
    rw [NumberStyle.chars]
    split
    · exact hsigned negative _ (isWordChar_plainChars _ _ _)
    · obtain ⟨digits, exponent⟩ := shortestDecimal numberStyle.tieUp units
      exact hsigned negative _ (isWordChar_plainChars true digits exponent)

/-- The reader takes a float for itself when it is written. -/
def ReadsBack (v : Binary64) : Prop := wordValue (numberStyle.chars v) = some (.float v)

/-! ## Texts -/

/-- A text starts with one of the two quotes. -/
theorem textChars_head (s : String) :
    ∃ c tail, textChars s = c :: tail ∧ (c = '"' ∨ c = '\'') := by
  unfold textChars
  dsimp only
  split
  · exact ⟨_, _, rfl, .inl rfl⟩
  · exact ⟨_, _, rfl, .inr rfl⟩
  · exact ⟨_, _, rfl, .inl rfl⟩
  · exact ⟨_, _, rfl, .inr rfl⟩

theorem takeValue_textChars (s : String) (hrest : Closed rest) (fuel depth : Nat) :
    takeValue (fuel + 1) depth (textChars s ++ rest) = some (.string s, rest) := by
  have htext := takeText_textChars s (hrest.stopsAt (by decide)) (hrest.stopsAt (by decide))
  obtain ⟨c, tail, hchars, hc⟩ := textChars_head s
  rw [hchars, List.cons_append] at htext ⊢
  have hvalue : takeValue (fuel + 1) depth (c :: (tail ++ rest)) =
      (takeText (c :: (tail ++ rest))).map fun p => (.string (String.ofList p.1), p.2) := by
    rcases hc with rfl | rfl
    · rw [takeValue]
    · rw [takeValue]
  rw [hvalue, htext, Option.map_some, String.ofList_toList]

/-! ## Lists -/

/-- Several elements have a line each. -/
theorem valueChars_lines (first second : Document) (items : List Document) :
    valueChars (.list (first :: second :: items)) =
      '[' :: '\n' :: (itemsChars (first :: second :: items) ++ [']']) := by
  rw [valueChars]
  · rfl
  · exact List.cons_ne_nil _ _
  · exact fun item h => nomatch h

/-- The line of an element. -/
theorem itemsChars_append (item : Document) (items : List Document) (cs : List Char) :
    itemsChars (item :: items) ++ cs =
      "    ".toList ++ (valueChars item ++ ',' :: '\n' :: (itemsChars items ++ cs)) := by
  rw [itemsChars, List.append_assoc, List.append_assoc, List.append_assoc]
  rfl

theorem takeValue_nil (fuel depth : Nat) (rest : List Char) :
    takeValue (fuel + 1) (depth + 1) ('[' :: ']' :: rest) = some (.list [], rest) := by
  have hend : Starts ']' := ⟨rfl, by decide, by decide, by decide⟩
  rw [takeValue, hend.skipLines]
  rfl

/-- A list that does not end at once. -/
theorem takeValue_list {fuel depth : Nat} {c : Char} (hskip : skipLines fuel cs = c :: left)
    (hend : c ≠ ']') : takeValue (fuel + 1) (depth + 1) ('[' :: cs) =
      (takeItems fuel depth (c :: left)).map fun p => (.list p.1, p.2) := by
  rw [takeValue, hskip]
  split
  · next heq => exact absurd (List.cons.inj heq).1 hend
  · rfl

/-- The last element of a list. -/
theorem takeItems_last {fuel depth : Nat} {item : Document}
    (hitem : takeValue fuel depth cs = some (item, left))
    (hleft : skipLines fuel left = ']' :: rest) :
    takeItems (fuel + 1) depth cs = some ([item], rest) := by
  rw [takeItems, hitem]
  simp only [Option.bind_eq_bind, Option.bind_some, hleft]
  rfl

/-- The last element of a list, with a comma behind it. -/
theorem takeItems_lastLine {fuel depth : Nat} {item : Document} {more : List Char}
    (hitem : takeValue fuel depth cs = some (item, left))
    (hleft : skipLines fuel left = ',' :: more) (hmore : skipLines fuel more = ']' :: rest) :
    takeItems (fuel + 1) depth cs = some ([item], rest) := by
  rw [takeItems, hitem]
  simp only [Option.bind_eq_bind, Option.bind_some, hleft, hmore]
  rfl

/-- An element of a list with others behind it. -/
theorem takeItems_next {fuel depth : Nat} {item : Document} {items : List Document} {c : Char}
    {more tail : List Char} (hitem : takeValue fuel depth cs = some (item, left))
    (hleft : skipLines fuel left = ',' :: more) (hmore : skipLines fuel more = c :: tail)
    (hend : c ≠ ']') (hitems : takeItems fuel depth (c :: tail) = some (items, rest)) :
    takeItems (fuel + 1) depth cs = some (item :: items, rest) := by
  rw [takeItems, hitem]
  simp only [Option.bind_eq_bind, Option.bind_some, hleft, hmore]
  split
  · next heq => exact absurd (List.cons.inj heq).1 hend
  · rw [hitems]
    rfl

/-- A value that TOML has a text for, with so many levels of lists, and whose floats come back. -/
inductive Expressible : Nat → Document → Prop where
  | bool {n : Nat} (b : Bool) : Expressible n (.bool b)
  | integer {n : Nat} {i : Int} (h : InRange i) : Expressible n (.integer i)
  | float {n : Nat} {v : Binary64} (h : ReadsBack v) : Expressible n (.float v)
  | string {n : Nat} (s : String) : Expressible n (.string s)
  | list {n : Nat} {items : List Document} (h : ∀ d ∈ items, Expressible n d) :
      Expressible (n + 1) (.list items)

/-- The text of a value starts with a character that is not passed over and ends no list. -/
theorem head_valueChars {n : Nat} {d : Document} (hd : Expressible n d) :
    ∃ c tail, valueChars d = c :: tail ∧ Starts c ∧ c ≠ ']' := by
  have hword : ∀ {word : List Char} {d : Document}, (∀ c ∈ word, isWordChar c = true) →
      wordValue word = some d → ∃ c tail, word = c :: tail ∧ Starts c ∧ c ≠ ']' := by
    intro word d hword hvalue
    cases word with
    | nil =>
      have hnone : wordValue [] = none := rfl
      exact nomatch hnone.symm.trans hvalue
    | cons c tail =>
      obtain ⟨hstart, hend, -⟩ := starts_of_isWordChar (hword c List.mem_cons_self)
      exact ⟨c, tail, rfl, hstart, hend⟩
  have hmark : ∀ {c : Char}, isSpace c = false ∧ c ≠ '\n' ∧ c ≠ '\r' ∧ c ≠ '#' ∧ c ≠ ']' →
      Starts c ∧ c ≠ ']' :=
    fun ⟨hspace, hfeed, hreturn, hcomment, hend⟩ => ⟨⟨hspace, hfeed, hreturn, hcomment⟩, hend⟩
  cases hd with
  | bool b =>
    obtain ⟨hchars, hvalue⟩ := wordValue_bool b
    rw [valueChars]
    exact hword hchars hvalue
  | integer h =>
    obtain ⟨hchars, hvalue⟩ := wordValue_integerChars h
    rw [valueChars]
    exact hword hchars hvalue
  | float h =>
    rw [valueChars]
    exact hword (isWordChar_floatChars _) h
  | string s =>
    obtain ⟨c, tail, hchars, hc⟩ := textChars_head s
    rw [valueChars]
    refine ⟨c, tail, hchars, hmark ?_⟩
    rcases hc with rfl | rfl
    · decide
    · decide
  | @list n items h =>
    match items with
    | [] => exact ⟨'[', _, by rw [valueChars], hmark (by decide)⟩
    | [item] => exact ⟨'[', _, by rw [valueChars]; rfl, hmark (by decide)⟩
    | first :: second :: items => exact ⟨'[', _, valueChars_lines _ _ _, hmark (by decide)⟩

/-- The value is read as it was written, where it may be nested deep enough. -/
def IsRead (n : Nat) (d : Document) : Prop :=
  ∀ (fuel depth : Nat) (rest : List Char), n ≤ depth → Closed rest →
    2 * (valueChars d ++ rest).length < fuel →
    takeValue fuel depth (valueChars d ++ rest) = some (d, rest)

/-- The elements of a list are read line by line. -/
theorem takeItems_itemsChars {n : Nat} (item : Document) (items : List Document)
    (hexpressible : ∀ d ∈ items, Expressible n d) (hitem : IsRead n item)
    (hread : ∀ d ∈ items, IsRead n d) (fuel : Nat) {depth : Nat} (hdepth : n ≤ depth)
    (rest : List Char)
    (hfuel : 2 * (valueChars item ++ ',' :: '\n' :: (itemsChars items ++ ']' :: rest)).length + 1 <
      fuel) :
    takeItems fuel depth (valueChars item ++ ',' :: '\n' :: (itemsChars items ++ ']' :: rest)) =
      some (item :: items, rest) := by
  have hend : Starts ']' := ⟨rfl, by decide, by decide, by decide⟩
  have hcomma : Starts ',' := ⟨rfl, by decide, by decide, by decide⟩
  induction items generalizing item fuel with
  | nil =>
    rw [itemsChars, List.nil_append] at hfuel ⊢
    obtain ⟨fuel, rfl⟩ := Nat.exists_eq_succ_of_ne_zero (show fuel ≠ 0 by omega)
    refine takeItems_lastLine (hitem fuel depth _ hdepth (.cons rfl _) (by omega))
      (hcomma.skipLines fuel _) ?_
    rw [skipLines_break (by omega), hend.skipLines]
  | cons next items ih =>
    obtain ⟨hnext, hothers⟩ := List.forall_mem_cons.1 hread
    obtain ⟨hexpressible, hlater⟩ := List.forall_mem_cons.1 hexpressible
    obtain ⟨c, tail, hchars, hstart, hne⟩ := head_valueChars hexpressible
    rw [itemsChars_append] at hfuel ⊢
    obtain ⟨fuel, rfl⟩ := Nat.exists_eq_succ_of_ne_zero (show fuel ≠ 0 by omega)
    have hmore := ih next hlater hnext hothers fuel (by
      simp only [List.length_append, List.length_cons] at hfuel ⊢
      omega)
    rw [hchars, List.cons_append] at hmore
    refine takeItems_next (hitem fuel depth _ hdepth (.cons rfl _) (by omega))
      (hcomma.skipLines fuel _) ?_ hne hmore
    rw [hchars, List.cons_append]
    exact skipLines_nextLine hstart (by
      simp only [List.length_append, List.length_cons] at hfuel
      omega) _

/-- A value that is a word is read as it was written. -/
theorem isRead_word {n : Nat} {d : Document} (hchars : ∀ c ∈ valueChars d, isWordChar c = true)
    (hvalue : wordValue (valueChars d) = some d) : IsRead n d := by
  intro fuel depth rest _ hrest hfuel
  obtain ⟨fuel, rfl⟩ := Nat.exists_eq_succ_of_ne_zero (show fuel ≠ 0 by omega)
  exact takeValue_word hchars hvalue hrest fuel depth

/-- A list is read as it was written, if its elements are. -/
theorem isRead_list {n : Nat} {items : List Document} (hexpressible : ∀ d ∈ items, Expressible n d)
    (hread : ∀ d ∈ items, IsRead n d) : IsRead (n + 1) (.list items) := by
  intro fuel depth rest hdepth hrest hfuel
  have hend : Starts ']' := ⟨rfl, by decide, by decide, by decide⟩
  obtain ⟨fuel, rfl⟩ := Nat.exists_eq_succ_of_ne_zero (show fuel ≠ 0 by omega)
  obtain ⟨depth, rfl⟩ := Nat.exists_eq_succ_of_ne_zero (show depth ≠ 0 by omega)
  have hdepth : n ≤ depth := by omega
  match items with
  | [] =>
    rw [valueChars]
    exact takeValue_nil fuel depth rest
  | [item] =>
    obtain ⟨c, tail, hchars, hstart, hne⟩ := head_valueChars (hexpressible item List.mem_cons_self)
    have htext : valueChars (.list [item]) ++ rest = '[' :: (valueChars item ++ ']' :: rest) := by
      rw [valueChars, List.cons_append, List.cons_append, List.append_assoc]
      rfl
    rw [htext, List.length_cons] at hfuel
    obtain ⟨fuel, rfl⟩ := Nat.exists_eq_succ_of_ne_zero (show fuel ≠ 0 by omega)
    have hitem := hread item List.mem_cons_self fuel depth (']' :: rest) hdepth (.cons rfl _)
      (by omega)
    have hskip : skipLines (fuel + 1) (valueChars item ++ ']' :: rest) =
        c :: (tail ++ ']' :: rest) := by
      rw [hchars, List.cons_append]
      exact hstart.skipLines _ _
    rw [hchars, List.cons_append] at hitem
    rw [htext, takeValue_list hskip hne, takeItems_last hitem (hend.skipLines fuel rest)]
    rfl
  | first :: second :: items =>
    obtain ⟨hitem, hothers⟩ := List.forall_mem_cons.1 hread
    obtain ⟨hfirst, hlater⟩ := List.forall_mem_cons.1 hexpressible
    obtain ⟨c, tail, hchars, hstart, hne⟩ := head_valueChars hfirst
    have htext : valueChars (.list (first :: second :: items)) ++ rest =
        '[' :: '\n' :: ("    ".toList ++ (valueChars first ++
          ',' :: '\n' :: (itemsChars (second :: items) ++ ']' :: rest))) := by
      rw [valueChars_lines, List.cons_append, List.cons_append, List.append_assoc,
        itemsChars_append]
      rfl
    rw [htext] at hfuel
    simp only [List.length_cons, List.length_append] at hfuel
    have hitems := takeItems_itemsChars first (second :: items) hlater hitem hothers fuel hdepth
      rest (by
        simp only [List.length_cons, List.length_append]
        omega)
    have hskip : skipLines fuel ('\n' :: ("    ".toList ++ (valueChars first ++
        ',' :: '\n' :: (itemsChars (second :: items) ++ ']' :: rest)))) =
        c :: (tail ++ ',' :: '\n' :: (itemsChars (second :: items) ++ ']' :: rest)) := by
      rw [hchars, List.cons_append]
      exact skipLines_nextLine hstart (by omega) _
    rw [hchars, List.cons_append] at hitems
    rw [htext, takeValue_list hskip hne, hitems]
    rfl

/-- A value is read as it was written. -/
theorem isRead_of_expressible {n : Nat} {d : Document} (hd : Expressible n d) : IsRead n d := by
  induction hd with
  | bool b =>
    obtain ⟨hchars, hvalue⟩ := wordValue_bool b
    exact isRead_word (by rw [valueChars]; exact hchars) (by rw [valueChars]; exact hvalue)
  | integer h =>
    obtain ⟨hchars, hvalue⟩ := wordValue_integerChars h
    exact isRead_word (by rw [valueChars]; exact hchars) (by rw [valueChars]; exact hvalue)
  | float h =>
    exact isRead_word (by rw [valueChars]; exact isWordChar_floatChars _)
      (by rw [valueChars]; exact h)
  | string s =>
    intro fuel depth rest _ hrest hfuel
    obtain ⟨fuel, rfl⟩ := Nat.exists_eq_succ_of_ne_zero (show fuel ≠ 0 by omega)
    rw [valueChars]
    exact takeValue_textChars s hrest fuel depth
  | list h ih => exact isRead_list h ih

end Embroidery.Toml
