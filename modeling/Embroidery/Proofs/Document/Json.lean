/-
  Documents come back from JSON.

  A document that JSON can express (`Json.Expressible`) is read as it was written (`read_write`).
  The reader has fuel, and every call takes at least one character; so the induction is on the fuel,
  for values, for the elements of lists and for the members of tables at once (`reads`).  A number
  is read to its end if no character stands behind it that could belong to it; behind a value there
  is a comma, a line feed or nothing.

  Of floats only those come back that the reader takes for what the writer prints
  (`Json.ReadsBack`), which are not all.
-/
import Embroidery.Document.Json.Reader
import Embroidery.Document.Json.Writer
import Embroidery.Proofs.Text.Runs

namespace Embroidery.Json

/-! ## Texts -/

/-- The four hexadecimal digits of a control character. -/
theorem hexValue?_control : ∀ n, n < 32 →
    hexValue? ['0', '0', Nat.digitChar (n / 16), Nat.digitChar (n % 16)] = some n := by
  decide

/-- A character read in front of the others. -/
def withCode (n : Nat) (taken : Option (List Nat × List Char)) : Option (List Nat × List Char) :=
  taken.map fun p => (n :: p.1, p.2)

theorem takeCodes_short {c d : Char} (hc : c ≠ 'u') (hd : unescape c = some d) (rest : List Char) :
    takeCodes ('\\' :: c :: rest) = withCode d.toNat (takeCodes rest) := by
  rw [takeCodes.eq_def]
  split
  · next h => exact nomatch h
  · next h => exact nomatch (List.cons.inj h).1
  · next h => exact absurd (List.cons.inj (List.cons.inj h).2).1 hc
  · next h =>
    obtain ⟨rfl, rfl⟩ := List.cons.inj (List.cons.inj h).2
    rw [hd]
    cases takeCodes rest <;> rfl
  · next hshort h =>
    obtain ⟨rfl, rfl⟩ := List.cons.inj h
    exact (hshort c rest rfl rfl).elim

theorem takeCodes_plain {c : Char} (hquote : c ≠ '"') (hslash : c ≠ '\\') (hc : 0x20 ≤ c.toNat)
    (rest : List Char) : takeCodes (c :: rest) = withCode c.toNat (takeCodes rest) := by
  rw [takeCodes.eq_def]
  split
  · next h => exact nomatch h
  · next h => exact absurd (List.cons.inj h).1 hquote
  · next h => exact absurd (List.cons.inj h).1 hslash
  · next h => exact absurd (List.cons.inj h).1 hslash
  · next h =>
    obtain ⟨rfl, rfl⟩ := List.cons.inj h
    dsimp only
    rw [if_neg (by omega)]
    cases takeCodes rest <;> rfl

/-- A character is read as its code. -/
theorem takeCodes_escape (c : Char) (rest : List Char) :
    takeCodes (escape c ++ rest) = withCode c.toNat (takeCodes rest) := by
  unfold escape
  split
  · next h =>
    subst h
    exact takeCodes_short (by decide) rfl rest
  next hquote =>
  split
  · next h =>
    subst h
    exact takeCodes_short (by decide) rfl rest
  next hslash =>
  split
  · next h =>
    subst h
    exact takeCodes_short (by decide) rfl rest
  split
  · next h =>
    subst h
    exact takeCodes_short (by decide) rfl rest
  split
  · next h =>
    subst h
    exact takeCodes_short (by decide) rfl rest
  split
  · next h =>
    subst h
    exact takeCodes_short (by decide) rfl rest
  split
  · next h =>
    subst h
    exact takeCodes_short (by decide) rfl rest
  split
  · next hcontrol =>
    rw [List.cons_append, List.cons_append, List.cons_append, List.cons_append, List.cons_append,
      List.cons_append, List.nil_append, takeCodes, hexValue?_control c.toNat hcontrol]
    cases takeCodes rest <;> rfl
  · next hcontrol => exact takeCodes_plain hquote hslash (Nat.le_of_not_lt hcontrol) rest

theorem takeCodes_flatMap (cs : List Char) (rest : List Char) :
    takeCodes (cs.flatMap escape ++ '"' :: rest) = some (cs.map Char.toNat, rest) := by
  induction cs with
  | nil => rw [List.flatMap_nil, List.nil_append, takeCodes, List.map_nil]
  | cons c cs ih =>
    rw [List.flatMap_cons, List.append_assoc, takeCodes_escape, ih]
    rfl

/-- Characters are no surrogates. -/
theorem ofCodes_map (cs : List Char) : ofCodes (cs.map Char.toNat) = some cs := by
  induction cs with
  | nil => rw [List.map_nil, ofCodes]
  | cons c cs ih =>
    have hvalid : c.toNat < 0xD800 ∨ 0xDFFF < c.toNat ∧ c.toNat < 0x110000 := c.valid
    have hhigh : isHighSurrogate c.toNat = false := by
      rw [isHighSurrogate, Bool.and_eq_false_iff, decide_eq_false_iff_not, decide_eq_false_iff_not]
      omega
    have hlow : isLowSurrogate c.toNat = false := by
      rw [isLowSurrogate, Bool.and_eq_false_iff, decide_eq_false_iff_not, decide_eq_false_iff_not]
      omega
    rw [List.map_cons, ofCodes.eq_def]
    dsimp only
    rw [hhigh, hlow, ih, Char.ofNat_toNat]
    rfl

theorem textChars_append (s : String) (cs : List Char) :
    textChars s ++ cs = '"' :: (s.toList.flatMap escape ++ '"' :: cs) := by
  show '"' :: (s.toList.flatMap escape ++ ['"'] ++ cs) = _
  rw [List.append_assoc]
  rfl

/-- A text is read as it was written. -/
theorem takeText_textChars (s : String) (rest : List Char) :
    takeText (s.toList.flatMap escape ++ '"' :: rest) = some (some s, rest) := by
  rw [takeText, takeCodes_flatMap, Option.map_some]
  dsimp only
  rw [ofCodes_map, Option.map_some, String.ofList_toList]

/-! ## Numbers -/

/-- A character that may belong to a number, behind its first. -/
def isNumberPart (c : Char) : Bool := c.isDigit || (c == '.' || (c == 'e' || c == 'E'))

variable {cs left rest : List Char}

theorem stopsAt_isDigit (h : StopsAt isNumberPart rest) : StopsAt Char.isDigit rest :=
  h.mono fun c hc => by rw [isNumberPart, hc]; rfl

/-- The minus sign of a number, and what follows it. -/
def dropMinus : List Char → Bool × List Char
  | '-' :: rest => (true, rest)
  | rest => (false, rest)

theorem dropMinus_append (hcs : cs ≠ []) (rest : List Char) :
    dropMinus (cs ++ rest) = ((dropMinus cs).1, (dropMinus cs).2 ++ rest) := by
  cases cs with
  | nil => exact absurd rfl hcs
  | cons c cs =>
    by_cases hc : c = '-'
    · subst hc
      rfl
    · unfold dropMinus
      rw [List.cons_append]
      split
      · next h => exact absurd (List.cons.inj h).1 hc
      · split
        · next h => exact absurd (List.cons.inj h).1 hc
        · rfl

theorem takeSign_append (hcs : cs ≠ []) (rest : List Char) :
    takeSign (cs ++ rest) = ((takeSign cs).1, (takeSign cs).2 ++ rest) := by
  cases cs with
  | nil => exact absurd rfl hcs
  | cons c cs =>
    by_cases hminus : c = '-'
    · subst hminus
      rfl
    by_cases hplus : c = '+'
    · subst hplus
      rfl
    unfold takeSign
    rw [List.cons_append]
    split
    · next h => exact absurd (List.cons.inj h).1 hminus
    · next h => exact absurd (List.cons.inj h).1 hplus
    · split
      · next h => exact absurd (List.cons.inj h).1 hminus
      · next h => exact absurd (List.cons.inj h).1 hplus
      · rfl

/-- Places are read the same with another text behind them. -/
theorem takePlaces_append {places : List Char} (hrest : StopsAt isNumberPart rest)
    (h : takePlaces cs = some (places, left)) :
    takePlaces (cs ++ rest) = some (places, left ++ rest) := by
  have hdigit := stopsAt_isDigit hrest
  unfold takePlaces at h
  split at h
  · next tail =>
    rw [List.cons_append, takePlaces, hdigit.takeWhile, hdigit.dropWhile]
    dsimp only at h ⊢
    split at h
    · exact nomatch h
    · next hne =>
      obtain ⟨rfl, rfl⟩ := Prod.mk.inj (Option.some.inj h)
      rw [if_neg hne]
  · next hcs =>
    obtain ⟨rfl, rfl⟩ := Prod.mk.inj (Option.some.inj h)
    rw [takePlaces.eq_def]
    split
    · next tail heq =>
      cases cs with
      | nil => exact absurd (hrest '.' (by rw [← List.nil_append rest, heq]; rfl)) (by decide)
      | cons c cs => exact (hcs cs (by rw [(List.cons.inj heq).1])).elim
    · rfl

/-- An exponent is read the same with another text behind it. -/
theorem takeExponent_append {exponent : Option (Bool × List Char)}
    (hrest : StopsAt isNumberPart rest) (h : takeExponent cs = some (exponent, left)) :
    takeExponent (cs ++ rest) = some (exponent, left ++ rest) := by
  have hdigit := stopsAt_isDigit hrest
  cases cs with
  | nil =>
    obtain ⟨rfl, rfl⟩ := Prod.mk.inj (Option.some.inj h)
    cases rest with
    | nil => rfl
    | cons c rest =>
      have hmark : ¬(decide (c = 'e') || decide (c = 'E')) = true := by
        intro hmark
        have hpart := hrest c rfl
        rcases Bool.or_eq_true_iff.1 hmark with hc | hc
        · exact absurd (of_decide_eq_true hc ▸ hpart) (by decide)
        · exact absurd (of_decide_eq_true hc ▸ hpart) (by decide)
      show takeExponent (c :: rest) = some (none, c :: rest)
      rw [takeExponent, if_neg hmark]
  | cons c cs =>
    rw [takeExponent] at h
    rw [List.cons_append, takeExponent]
    split at h
    · next hmark =>
      rw [if_pos hmark]
      by_cases hcs : cs = []
      · subst hcs
        exact nomatch h
      · rw [takeSign_append hcs]
        dsimp only at h ⊢
        rw [hdigit.takeWhile, hdigit.dropWhile]
        split at h
        · exact nomatch h
        · next hne =>
          obtain ⟨rfl, rfl⟩ := Prod.mk.inj (Option.some.inj h)
          rw [if_neg hne]
    · next hmark =>
      obtain ⟨rfl, rfl⟩ := Prod.mk.inj (Option.some.inj h)
      rw [if_neg hmark]
      rfl

/-- The parts of a number. -/
theorem takeNumeral_eq_some_iff {n : Numeral} : takeNumeral cs = some (n, left) ↔
    (n.whole.isEmpty || (n.whole.head? == some '0' && decide (1 < n.whole.length))) = false ∧
      n.whole = (dropMinus cs).2.takeWhile Char.isDigit ∧ n.negative = (dropMinus cs).1 ∧
      ∃ mid, takePlaces ((dropMinus cs).2.dropWhile Char.isDigit) = some (n.places, mid) ∧
        takeExponent mid = some (n.exponent, left) := by
  have hparts : takeNumeral cs =
      if (((dropMinus cs).2.takeWhile Char.isDigit).isEmpty ||
        (((dropMinus cs).2.takeWhile Char.isDigit).head? == some '0' &&
          decide (1 < ((dropMinus cs).2.takeWhile Char.isDigit).length))) = true then none
      else (takePlaces ((dropMinus cs).2.dropWhile Char.isDigit)).bind fun p =>
        (takeExponent p.2).bind fun q =>
          some (⟨(dropMinus cs).1, (dropMinus cs).2.takeWhile Char.isDigit, p.1, q.1⟩, q.2) := by
    rfl
  rw [hparts]
  constructor
  · intro h
    split at h
    · exact nomatch h
    · next hwhole =>
      obtain ⟨⟨places, mid⟩, hplaces, h⟩ := Option.bind_eq_some_iff.1 h
      obtain ⟨⟨exponent, left'⟩, hexponent, h⟩ := Option.bind_eq_some_iff.1 h
      obtain ⟨rfl, rfl⟩ := Prod.mk.inj (Option.some.inj h)
      exact ⟨Bool.eq_false_iff.2 hwhole, rfl, rfl, mid, hplaces, hexponent⟩
  · rintro ⟨hwhole, heq, hnegative, mid, hplaces, hexponent⟩
    rw [← heq, hwhole, if_neg Bool.false_ne_true, hplaces, Option.bind_some, hexponent, ← hnegative]
    rfl

/-- A number is read the same with another text behind it. -/
theorem takeNumeral_append {n : Numeral}
    (hrest : StopsAt isNumberPart rest) (h : takeNumeral cs = some (n, left)) :
    takeNumeral (cs ++ rest) = some (n, left ++ rest) := by
  have hdigit := stopsAt_isDigit hrest
  obtain ⟨hwhole, heq, hnegative, mid, hplaces, hexponent⟩ := takeNumeral_eq_some_iff.1 h
  have hcs : cs ≠ [] := by
    rintro rfl
    rw [heq] at hwhole
    exact absurd hwhole (by decide)
  rw [takeNumeral_eq_some_iff, dropMinus_append hcs, hdigit.takeWhile, hdigit.dropWhile]
  exact ⟨hwhole, heq, hnegative, mid ++ rest, takePlaces_append hrest hplaces,
    takeExponent_append hrest hexponent⟩

/-- A number starts with a digit or a minus sign. -/
theorem head_of_takeNumeral {n : Numeral} (h : takeNumeral cs = some (n, left)) :
    ∃ c tail, cs = c :: tail ∧ (c.isDigit = true ∨ c = '-') := by
  obtain ⟨hwhole, heq, -⟩ := takeNumeral_eq_some_iff.1 h
  cases cs with
  | nil =>
    rw [heq] at hwhole
    exact absurd hwhole (by decide)
  | cons c cs =>
    refine ⟨c, cs, rfl, ?_⟩
    by_cases hminus : c = '-'
    · exact .inr hminus
    · refine .inl (Classical.byContradiction fun hc => ?_)
      have hself : dropMinus (c :: cs) = (false, c :: cs) := by
        unfold dropMinus
        split
        · next h => exact absurd (List.cons.inj h).1 hminus
        · rfl
      rw [heq, hself, List.takeWhile_cons, if_neg hc] at hwhole
      exact absurd hwhole (by decide)

/-- Digits as they are written, behind a sign or not, are a number without places and exponent. -/
theorem takeNumeral_natural (negative : Bool) (n : Nat) :
    takeNumeral ((if negative then ['-'] else []) ++ naturalChars n) =
      some (⟨negative, naturalChars n, [], none⟩, []) := by
  have hdigits : ∀ c ∈ naturalChars n, c.isDigit = true := fun c => isDigit_of_mem_naturalChars
  have hdrop : dropMinus ((if negative then ['-'] else []) ++ naturalChars n) =
      (negative, naturalChars n) := by
    cases negative with
    | true => rfl
    | false =>
      show dropMinus (naturalChars n) = _
      unfold dropMinus
      split
      · next h => exact absurd (hdigits '-' (h ▸ List.mem_cons_self)) (by decide)
      · rfl
  have hwhole : ((naturalChars n).isEmpty || ((naturalChars n).head? == some '0' &&
      decide (1 < (naturalChars n).length))) = false := by
    rw [List.isEmpty_eq_false_iff.2 (naturalChars_ne_nil n), Bool.false_or]
    by_cases hn : n = 0
    · rw [hn]
      rfl
    · rw [beq_eq_false_iff_ne.2 (head?_naturalChars hn), Bool.false_and]
  rw [takeNumeral_eq_some_iff, hdrop, takeWhile_eq_self hdigits, dropWhile_eq_nil hdigits]
  exact ⟨hwhole, rfl, rfl, [], rfl, rfl⟩

/-- The integers of 64 bits, with a sign or without. -/
def InRange (i : Int) : Prop := -(UInt64.size / 2 : Nat) ≤ i ∧ i ≤ maxWord64

/-- An integer is read as it was written. -/
theorem takeNumeral_integerChars {i : Int} (hi : InRange i) :
    ∃ n, takeNumeral (integerChars i) = some (n, []) ∧ n.toDocument = .integer i := by
  obtain ⟨hlow, hhigh⟩ := hi
  cases i with
  | ofNat n =>
    refine ⟨_, takeNumeral_natural false n, ?_⟩
    have hfit : n ≤ maxWord64 := Int.ofNat_le.1 hhigh
    rw [Numeral.toDocument]
    dsimp only
    rw [digitsValue_naturalChars, decide_eq_true hfit]
    rfl
  | negSucc n =>
    refine ⟨_, takeNumeral_natural true (n + 1), ?_⟩
    have hfit : n + 1 ≤ UInt64.size / 2 := by omega
    rw [Numeral.toDocument]
    dsimp only
    rw [digitsValue_naturalChars, decide_eq_true hfit]
    rfl

/-- The reader takes a float for itself when it is written. -/
def ReadsBack (v : Binary64) : Prop :=
  ∃ n, takeNumeral (numberStyle.chars v) = some (n, []) ∧ n.toDocument = .float v

/-! ## Values -/

theorem skipSpace_cons {c : Char} (hc : isSpace c = false) (cs : List Char) :
    skipSpace (c :: cs) = c :: cs :=
  List.dropWhile_cons_of_neg (by rw [hc]; exact Bool.false_ne_true)

theorem skipSpace_indent (depth : Nat) (cs : List Char) :
    skipSpace (indent depth ++ cs) = skipSpace cs := by
  have hspaces : ∀ c ∈ indent depth, isSpace c = true := by
    intro c hc
    rcases List.mem_cons.1 hc with rfl | hc
    · rfl
    · rw [(List.mem_replicate.1 hc).2]
      rfl
  exact List.dropWhile_append_of_pos hspaces

theorem takeValue_indent (fuel depth : Nat) (cs : List Char) :
    takeValue fuel (indent depth ++ cs) = takeValue fuel cs := by
  cases fuel with
  | zero => rw [takeValue, takeValue]
  | succ fuel => rw [takeValue, takeValue, skipSpace_indent]

/-- The first character of a number starts nothing else. -/
theorem of_numberHead {c : Char} (h : c.isDigit = true ∨ c = '-') :
    isSpace c = false ∧ c.isAlpha = false ∧ c ≠ '"' ∧ c ≠ '[' ∧ c ≠ '\x7b' ∧ c ≠ ']' := by
  rcases h with hdigit | rfl
  · have hdigits : ∀ n, n < 58 → 48 ≤ n → isSpace (Char.ofNat n) = false ∧
        (Char.ofNat n).isAlpha = false ∧ Char.ofNat n ≠ '"' ∧ Char.ofNat n ≠ '[' ∧
        Char.ofNat n ≠ '\x7b' ∧ Char.ofNat n ≠ ']' := by
      decide
    obtain ⟨hlow, hhigh⟩ := isDigit_iff.1 hdigit
    rw [← Char.ofNat_toNat c]
    exact hdigits c.toNat (by omega) hlow
  · decide

/-- What is no text, list or table and starts with no letter is a number. -/
theorem takeValue_number (fuel : Nat) {n : Numeral} (h : takeNumeral cs = some (n, left)) :
    takeValue (fuel + 1) cs = some (n.toDocument, left) := by
  obtain ⟨c, tail, rfl, hc⟩ := head_of_takeNumeral h
  obtain ⟨hspace, halpha, hquote, hlist, htable, -⟩ := of_numberHead hc
  rw [takeValue, skipSpace_cons hspace]
  split
  · next heq => exact absurd (List.cons.inj heq).1 hquote
  · next heq => exact absurd (List.cons.inj heq).1 hlist
  · next heq => exact absurd (List.cons.inj heq).1 htable
  · next heq =>
    obtain ⟨rfl, rfl⟩ := List.cons.inj heq
    rw [halpha, if_neg Bool.false_ne_true, h]
    rfl
  · next heq => exact nomatch heq

theorem takeValue_word (fuel : Nat) (b : Bool) (rest : List Char) :
    takeValue (fuel + 1) ((if b then "true" else "false").toList ++ rest) =
      some (.bool b, rest) := by
  cases b with
  | true => rfl
  | false => rfl

theorem takeValue_null (fuel : Nat) (rest : List Char) :
    takeValue (fuel + 1) ("null".toList ++ rest) = some (.null, rest) := rfl

theorem takeValue_textChars (fuel : Nat) (s : String) (rest : List Char) :
    takeValue (fuel + 1) (textChars s ++ rest) = some (.string s, rest) := by
  rw [textChars_append, takeValue, skipSpace_cons (by decide)]
  show (takeText (s.toList.flatMap escape ++ '"' :: rest)).map (fun p =>
    ((p.1.map Document.string).getD .unreadable, p.2)) = _
  rw [takeText_textChars]
  rfl

/-! ## Lists and tables -/

theorem takeItems_indent (fuel depth : Nat) (cs : List Char) :
    takeItems fuel (indent depth ++ cs) = takeItems fuel cs := by
  cases fuel with
  | zero => rw [takeItems, takeItems]
  | succ fuel => rw [takeItems, takeItems, takeValue_indent]

theorem takeMembers_indent (fuel depth : Nat) (cs : List Char) :
    takeMembers fuel (indent depth ++ cs) = takeMembers fuel cs := by
  cases fuel with
  | zero => rw [takeMembers, takeMembers]
  | succ fuel => rw [takeMembers, takeMembers, skipSpace_indent]

/-- A list that does not end at once. -/
theorem takeValue_list (fuel depth : Nat) {c : Char} (hspace : isSpace c = false) (hend : c ≠ ']')
    (tail : List Char) :
    takeValue (fuel + 1) ('[' :: (indent depth ++ c :: tail)) =
      (takeItems fuel (c :: tail)).map fun p => (.list p.1, p.2) := by
  have hskip : skipSpace (indent depth ++ c :: tail) = c :: tail := by
    rw [skipSpace_indent, skipSpace_cons hspace]
  rw [takeValue, skipSpace_cons (by decide)]
  split
  · next heq => exact absurd (List.cons.inj heq).1 (by decide)
  · next heq =>
    rw [← (List.cons.inj heq).2, hskip]
    split
    · next heq => exact absurd (List.cons.inj heq).1 hend
    · rfl
  · next heq => exact absurd (List.cons.inj heq).1 (by decide)
  · next hlist _ heq =>
    obtain ⟨rfl, rfl⟩ := List.cons.inj heq
    exact (hlist rfl).elim
  · next heq => exact absurd heq (List.cons_ne_nil _ _)

/-- A table that does not end at once. -/
theorem takeValue_table (fuel depth : Nat) (tail : List Char) :
    takeValue (fuel + 1) ('\x7b' :: (indent depth ++ '"' :: tail)) =
      (takeMembers fuel ('"' :: tail)).map fun p => (.table p.1, p.2) := by
  have hskip : skipSpace (indent depth ++ '"' :: tail) = '"' :: tail := by
    rw [skipSpace_indent, skipSpace_cons (by decide)]
  rw [takeValue, skipSpace_cons (by decide)]
  split
  · next heq => exact absurd (List.cons.inj heq).1 (by decide)
  · next heq => exact absurd (List.cons.inj heq).1 (by decide)
  · next heq =>
    rw [← (List.cons.inj heq).2, hskip]
    rfl
  · next htable heq =>
    obtain ⟨rfl, rfl⟩ := List.cons.inj heq
    exact (htable rfl).elim
  · next heq => exact absurd heq (List.cons_ne_nil _ _)

/-- A document that JSON has a text for, and whose floats come back. -/
inductive Expressible : Document → Prop where
  | null : Expressible .null
  | bool (b : Bool) : Expressible (.bool b)
  | integer {i : Int} (h : InRange i) : Expressible (.integer i)
  | float {v : Binary64} (hfinite : v.isFinite = true) (h : ReadsBack v) : Expressible (.float v)
  | string (s : String) : Expressible (.string s)
  | list {items : List Document} (h : ∀ d ∈ items, Expressible d) : Expressible (.list items)
  | table {members : List (Option String × Document)} (hkeys : ∀ m ∈ members, m.1.isSome = true)
    (h : ∀ m ∈ members, Expressible m.2) : Expressible (.table members)

/-- The text of a document starts with a visible character that does not end a list. -/
theorem head_valueChars {d : Document} (hd : Expressible d) (depth : Nat) :
    ∃ c tail, valueChars depth d = c :: tail ∧ isSpace c = false ∧ c ≠ ']' := by
  have hnumber : ∀ {cs left : List Char} {n : Numeral}, takeNumeral cs = some (n, left) →
      ∃ c tail, cs = c :: tail ∧ isSpace c = false ∧ c ≠ ']' := by
    intro cs left n h
    obtain ⟨c, tail, rfl, hc⟩ := head_of_takeNumeral h
    obtain ⟨hspace, -, -, -, -, hend⟩ := of_numberHead hc
    exact ⟨c, tail, rfl, hspace, hend⟩
  cases hd with
  | null => exact ⟨'n', _, by rw [valueChars]; rfl, by decide, by decide⟩
  | bool b =>
    rw [valueChars]
    cases b with
    | true => exact ⟨'t', _, rfl, by decide, by decide⟩
    | false => exact ⟨'f', _, rfl, by decide, by decide⟩
  | integer h =>
    obtain ⟨n, hn, -⟩ := takeNumeral_integerChars h
    rw [valueChars]
    exact hnumber hn
  | float hfinite h =>
    obtain ⟨n, hn, -⟩ := h
    rw [valueChars, if_pos hfinite]
    exact hnumber hn
  | string s => exact ⟨'"', _, by rw [valueChars]; rfl, by decide, by decide⟩
  | @list items h =>
    cases items with
    | nil => exact ⟨'[', _, by rw [valueChars], by decide, by decide⟩
    | cons item items => exact ⟨'[', _, by rw [valueChars]; rfl, by decide, by decide⟩
  | @table members hkeys h =>
    cases members with
    | nil => exact ⟨'\x7b', _, by rw [valueChars], by decide, by decide⟩
    | cons m members => exact ⟨'\x7b', _, by rw [valueChars]; rfl, by decide, by decide⟩

/-! ## The induction -/

/-- Values are read with so much fuel. -/
def ReadsValues (fuel : Nat) : Prop :=
  ∀ (d : Document) (depth : Nat) (rest : List Char), Expressible d → StopsAt isNumberPart rest →
    (valueChars depth d).length ≤ fuel →
    takeValue fuel (valueChars depth d ++ rest) = some (d, rest)

/-- The elements of lists are read with so much fuel. -/
def ReadsItems (fuel : Nat) : Prop :=
  ∀ (item : Document) (items : List Document) (depth outer : Nat) (rest : List Char),
    Expressible item → (∀ d ∈ items, Expressible d) →
    (valueChars depth item).length + (itemsChars depth items).length < fuel →
    takeItems fuel
      (valueChars depth item ++ (itemsChars depth items ++ (indent outer ++ ']' :: rest))) =
      some (item :: items, rest)

/-- The members of tables are read with so much fuel. -/
def ReadsMembers (fuel : Nat) : Prop :=
  ∀ (key : String) (value : Document) (members : List (Option String × Document))
    (depth outer : Nat) (rest : List Char),
    Expressible value → (∀ m ∈ members, m.1.isSome = true) → (∀ m ∈ members, Expressible m.2) →
    (valueChars depth value).length + (membersChars depth members).length < fuel →
    takeMembers fuel (textChars key ++ (':' :: ' ' :: (valueChars depth value ++
      (membersChars depth members ++ (indent outer ++ '\x7d' :: rest))))) =
      some ((some key, value) :: members, rest)

theorem readsValues_succ {fuel : Nat} (hitems : ReadsItems fuel) (hmembers : ReadsMembers fuel) :
    ReadsValues (fuel + 1) := by
  intro d depth rest hd hrest hfuel
  cases hd with
  | null =>
    rw [valueChars]
    exact takeValue_null fuel rest
  | bool b =>
    rw [valueChars]
    exact takeValue_word fuel b rest
  | integer h =>
    obtain ⟨n, hn, hdocument⟩ := takeNumeral_integerChars h
    rw [valueChars, takeValue_number fuel (takeNumeral_append hrest hn), hdocument]
    rfl
  | float hfinite h =>
    obtain ⟨n, hn, hdocument⟩ := h
    rw [valueChars, if_pos hfinite, takeValue_number fuel (takeNumeral_append hrest hn), hdocument]
    rfl
  | string s =>
    rw [valueChars]
    exact takeValue_textChars fuel s rest
  | @list items h =>
    cases items with
    | nil =>
      rw [valueChars]
      rfl
    | cons item items =>
      obtain ⟨hitem, hothers⟩ := List.forall_mem_cons.1 h
      obtain ⟨c, tail, hchars, hspace, hend⟩ := head_valueChars hitem (depth + 1)
      have hread := hitems item items (depth + 1) depth rest hitem hothers (by
        rw [valueChars] at hfuel
        simp only [List.length_append, List.length_cons, List.cons_append] at hfuel
        omega)
      rw [hchars, List.cons_append] at hread
      rw [valueChars]
      simp only [List.append_assoc, List.cons_append, List.nil_append, hchars]
      rw [takeValue_list fuel (depth + 1) hspace hend, hread]
      rfl
  | @table members hkeys h =>
    cases members with
    | nil =>
      rw [valueChars]
      rfl
    | cons m members =>
      obtain ⟨hkey, hnamed⟩ := List.forall_mem_cons.1 hkeys
      obtain ⟨hvalue, hothers⟩ := List.forall_mem_cons.1 h
      obtain ⟨key, value⟩ := m
      obtain ⟨key, rfl⟩ := Option.isSome_iff_exists.1 hkey
      have hread := hmembers key value members (depth + 1) depth rest hvalue hnamed hothers (by
        rw [valueChars] at hfuel
        simp only [List.length_append, List.length_cons, List.cons_append] at hfuel
        omega)
      rw [textChars, List.cons_append, List.cons_append] at hread
      rw [valueChars, Option.getD_some, textChars]
      simp only [List.append_assoc, List.cons_append, List.nil_append] at hread ⊢
      rw [takeValue_table, hread]
      rfl

theorem stopsAt_itemsChars (depth outer : Nat) (items : List Document) (cs : List Char) :
    StopsAt isNumberPart (itemsChars depth items ++ (indent outer ++ cs)) := by
  cases items with
  | nil =>
    rw [itemsChars]
    exact .cons (by decide)
  | cons item items =>
    rw [itemsChars]
    exact .cons (by decide)

theorem stopsAt_membersChars (depth outer : Nat) (members : List (Option String × Document))
    (cs : List Char) :
    StopsAt isNumberPart (membersChars depth members ++ (indent outer ++ cs)) := by
  cases members with
  | nil =>
    rw [membersChars]
    exact .cons (by decide)
  | cons m members =>
    rw [membersChars]
    exact .cons (by decide)

/-- The last element of a list. -/
theorem takeItems_last {fuel : Nat} {item : Document}
    (hitem : takeValue fuel cs = some (item, left))
    (hleft : skipSpace left = ']' :: rest) : takeItems (fuel + 1) cs = some ([item], rest) := by
  rw [takeItems, hitem]
  simp only [Option.bind_eq_bind, Option.bind_some, hleft]
  rfl

/-- An element of a list with others behind it. -/
theorem takeItems_next {fuel : Nat} {item : Document} {items : List Document} {more : List Char}
    (hitem : takeValue fuel cs = some (item, left)) (hleft : skipSpace left = ',' :: more)
    (hmore : takeItems fuel more = some (items, rest)) :
    takeItems (fuel + 1) cs = some (item :: items, rest) := by
  rw [takeItems, hitem]
  simp only [Option.bind_eq_bind, Option.bind_some, hleft]
  rw [hmore]
  rfl

theorem readsItems_succ {fuel : Nat} (hvalues : ReadsValues fuel) (hitems : ReadsItems fuel) :
    ReadsItems (fuel + 1) := by
  intro item items depth outer rest hitem hothers hfuel
  have hread := hvalues item depth _ hitem (stopsAt_itemsChars depth outer items (']' :: rest))
    (by omega)
  cases items with
  | nil =>
    refine takeItems_last hread ?_
    rw [itemsChars, List.nil_append, skipSpace_indent, skipSpace_cons (by decide)]
  | cons next items =>
    obtain ⟨hnext, hothers⟩ := List.forall_mem_cons.1 hothers
    rw [itemsChars] at hread hfuel ⊢
    simp only [List.append_assoc, List.cons_append, List.length_append, List.length_cons]
      at hread hfuel ⊢
    refine takeItems_next hread (skipSpace_cons (by decide) _) ?_
    rw [takeItems_indent]
    exact hitems next items depth outer rest hnext hothers (by omega)

/-- The last member of a table. -/
theorem takeMembers_last {fuel : Nat} (key : String) {value : Document}
    (hvalue : takeValue fuel (' ' :: cs) = some (value, left))
    (hleft : skipSpace left = '\x7d' :: rest) :
    takeMembers (fuel + 1) (textChars key ++ ':' :: ' ' :: cs) =
      some ([(some key, value)], rest) := by
  rw [textChars_append, takeMembers, skipSpace_cons (by decide)]
  simp only [Option.bind_eq_bind, takeText_textChars, Option.bind_some]
  rw [skipSpace_cons (by decide)]
  simp only [hvalue, Option.bind_some, hleft]
  rfl

/-- A member of a table with others behind it. -/
theorem takeMembers_next {fuel : Nat} (key : String) {value : Document}
    {members : List (Option String × Document)} {more : List Char}
    (hvalue : takeValue fuel (' ' :: cs) = some (value, left))
    (hleft : skipSpace left = ',' :: more)
    (hmore : takeMembers fuel more = some (members, rest)) :
    takeMembers (fuel + 1) (textChars key ++ ':' :: ' ' :: cs) =
      some ((some key, value) :: members, rest) := by
  rw [textChars_append, takeMembers, skipSpace_cons (by decide)]
  simp only [Option.bind_eq_bind, takeText_textChars, Option.bind_some]
  rw [skipSpace_cons (by decide)]
  simp only [hvalue, Option.bind_some, hleft]
  rw [hmore]
  rfl

theorem readsMembers_succ {fuel : Nat} (hvalues : ReadsValues fuel) (hmembers : ReadsMembers fuel) :
    ReadsMembers (fuel + 1) := by
  intro key value members depth outer rest hvalue hkeys hothers hfuel
  have hspace : ∀ cs, takeValue fuel (' ' :: cs) = takeValue fuel cs := by
    intro cs
    cases fuel with
    | zero => rw [takeValue, takeValue]
    | succ fuel =>
      rw [takeValue, takeValue, skipSpace, List.dropWhile_cons_of_pos (by decide)]
      rfl
  have hread := hvalues value depth _ hvalue
    (stopsAt_membersChars depth outer members ('\x7d' :: rest)) (by omega)
  rw [← hspace] at hread
  cases members with
  | nil =>
    refine takeMembers_last key hread ?_
    rw [membersChars, List.nil_append, skipSpace_indent, skipSpace_cons (by decide)]
  | cons next members =>
    obtain ⟨hnext, hlater⟩ := List.forall_mem_cons.1 hothers
    obtain ⟨hkey, hnamed⟩ := List.forall_mem_cons.1 hkeys
    obtain ⟨nextKey, nextValue⟩ := next
    obtain ⟨nextKey, rfl⟩ := Option.isSome_iff_exists.1 hkey
    rw [membersChars, Option.getD_some] at hread hfuel ⊢
    simp only [List.append_assoc, List.cons_append, List.length_append, List.length_cons,
      List.nil_append] at hread hfuel ⊢
    refine takeMembers_next key hread (skipSpace_cons (by decide) _) ?_
    rw [takeMembers_indent]
    exact hmembers nextKey nextValue members depth outer rest hnext hnamed hlater (by omega)

/-- Fuel for every character is enough. -/
theorem reads (fuel : Nat) : ReadsValues fuel ∧ ReadsItems fuel ∧ ReadsMembers fuel := by
  induction fuel with
  | zero =>
    refine ⟨?_, ?_, ?_⟩
    · intro d depth rest hd _ hfuel
      obtain ⟨c, tail, hchars, -⟩ := head_valueChars hd depth
      rw [hchars] at hfuel
      exact absurd hfuel (Nat.not_succ_le_zero _)
    · intro _ _ _ _ _ _ _ hfuel
      exact absurd hfuel (Nat.not_lt_zero _)
    · intro _ _ _ _ _ _ _ _ _ hfuel
      exact absurd hfuel (Nat.not_lt_zero _)
  | succ fuel ih =>
    obtain ⟨hvalues, hitems, hmembers⟩ := ih
    exact ⟨readsValues_succ hitems hmembers, readsItems_succ hvalues hitems,
      readsMembers_succ hvalues hmembers⟩

/-- **Round trip of JSON.**  A document that JSON can express is read as it was written. -/
theorem read_write {d : Document} (hd : Expressible d) : read (write d) = some d := by
  have hvalue := (reads (2 * (valueChars 0 d).length + 2)).1 d 0 [] hd .nil (by omega)
  rw [List.append_nil] at hvalue
  rw [read, write, String.toList_ofList, hvalue]
  rfl

end Embroidery.Json
