/-
  Texts come back from TOML, in whichever of the four forms they are written.

  A basic text is read character by character, each with its escape (`basicText_basicChars`).
  Between three quotes the quotes of the text are the difficulty: of a run of them the third is
  escaped, and up to two that stand right before the closing three are taken behind them.  So the
  induction carries the quotes that stand in front (`basicLines_run`), and the one over a literal
  text asks for no three quotes in a row (`literalLines_append`).
-/
import Embroidery.Document.Toml.Text
import Embroidery.Document.Toml.Writer
import Embroidery.Proofs.Text.Runs

namespace Embroidery.Toml

/-! ## Characters -/

/-- What is no control character and no line feed may stand for itself. -/
theorem isTextChar_of {c : Char} (hcontrol : isControl c = false) (hbreak : c ≠ '\n') :
    isTextChar c = true := by
  rw [isControl, Bool.or_eq_false_iff, decide_eq_false_iff_not] at hcontrol
  obtain ⟨hlow, hdelete⟩ := hcontrol
  rw [isTextChar, Bool.or_eq_true_iff, Bool.and_eq_true_iff, decide_eq_true_iff,
    decide_eq_true_iff, decide_eq_true_iff]
  by_cases htab : c = '\t'
  · exact .inl htab
  · refine .inr ⟨Nat.le_of_not_lt fun hlt => ?_, hdelete⟩
    rw [decide_eq_true hlt, decide_eq_true htab, decide_eq_true hbreak] at hlow
    exact Bool.noConfusion hlow

theorem lt_of_isControl {c : Char} (h : isControl c = true) : c.toNat < 128 := by
  rcases Bool.or_eq_true_iff.1 h with hlow | hdelete
  · obtain ⟨hlow, -⟩ := Bool.and_eq_true_iff.1 hlow
    obtain ⟨hlow, -⟩ := Bool.and_eq_true_iff.1 hlow
    have hlt := of_decide_eq_true hlow
    omega
  · rw [of_decide_eq_true hdelete]
    decide

/-- The code of a control character is read as the character. -/
theorem charOfHex_control {c : Char} (h : isControl c = true) :
    ∃ a b d e, escapeByCode c = ['\\', 'u', a, b, d, e] ∧ charOfHex [a, b, d, e] = some c := by
  have hcodes : ∀ n, n < 128 →
      charOfHex ((escapeByCode (Char.ofNat n)).drop 2) = some (Char.ofNat n) := by
    decide +kernel
  have hcode := hcodes c.toNat (lt_of_isControl h)
  rw [Char.ofNat_toNat] at hcode
  exact ⟨_, _, _, _, rfl, hcode⟩

/-! ## Escapes -/

/-- A letter that stands for a character starts no code, and drops no line break. -/
theorem of_unescape {c d : Char} (h : unescape c = some d) :
    c ≠ 'u' ∧ c ≠ 'U' ∧ isSpace c = false ∧ c ≠ '\n' ∧ c ≠ '\r' := by
  unfold unescape at h
  split at h
  · decide
  · decide
  · decide
  · decide
  · decide
  · decide
  · decide
  · exact nomatch h

/-- A reader of texts that undoes escapes. -/
structure Unescapes (read : List Char → Option (List Char × List Char)) : Prop where
  short : ∀ {c d : Char}, unescape c = some d →
    ∀ rest, read ('\\' :: c :: rest) = (read rest).map (push d)
  code : ∀ {a b d e c : Char}, charOfHex [a, b, d, e] = some c →
    ∀ rest, read ('\\' :: 'u' :: a :: b :: d :: e :: rest) = (read rest).map (push c)
  plain : ∀ {c : Char}, c ≠ '"' → c ≠ '\\' → isTextChar c = true →
    ∀ rest, read (c :: rest) = (read rest).map (push c)

/-- What is neither a quote nor a line feed is read from its escape. -/
theorem Unescapes.escape {read : List Char → Option (List Char × List Char)} (h : Unescapes read)
    {c : Char} (hquote : c ≠ '"') (hbreak : c ≠ '\n') (rest : List Char) :
    read (escape c ++ rest) = (read rest).map (push c) := by
  unfold Toml.escape
  split
  · next hc =>
    subst hc
    exact h.short rfl rest
  next hslash =>
  split
  · next hc =>
    subst hc
    exact h.short rfl rest
  split
  · next hc =>
    subst hc
    exact h.short rfl rest
  split
  · next hc =>
    subst hc
    exact h.short rfl rest
  split
  · next hc =>
    subst hc
    exact h.short rfl rest
  split
  · next hcontrol =>
    obtain ⟨a, b, d, e, hescape, hcode⟩ := charOfHex_control hcontrol
    rw [hescape]
    exact h.code hcode rest
  · next hcontrol =>
    exact h.plain hquote hslash (isTextChar_of (Bool.eq_false_iff.2 hcontrol) hbreak) rest

/-! ## Basic texts on one line -/

theorem unescapes_basicText : Unescapes basicText where
  short := by
    intro c d hd rest
    obtain ⟨hu, hU, -⟩ := of_unescape hd
    rw [basicText.eq_def]
    split
    · next h => exact nomatch h
    · next h => exact nomatch (List.cons.inj h).1
    · next h => exact absurd (List.cons.inj (List.cons.inj h).2).1 hu
    · next h => exact absurd (List.cons.inj (List.cons.inj h).2).1 hU
    · next h =>
      obtain ⟨rfl, rfl⟩ := List.cons.inj (List.cons.inj h).2
      rw [hd]
      rfl
    · next hshort h =>
      obtain ⟨rfl, rfl⟩ := List.cons.inj h
      exact (hshort c rest rfl rfl).elim
  code := by
    intro a b d e c hc rest
    rw [basicText, hc]
    rfl
  plain := by
    intro c hquote hslash hc rest
    rw [basicText.eq_def]
    split
    · next h => exact nomatch h
    · next h => exact absurd (List.cons.inj h).1 hquote
    · next h => exact absurd (List.cons.inj h).1 hslash
    · next h => exact absurd (List.cons.inj h).1 hslash
    · next h => exact absurd (List.cons.inj h).1 hslash
    · next h =>
      obtain ⟨rfl, rfl⟩ := List.cons.inj h
      rw [if_pos hc]

/-- A basic text on one line is read as it was written. -/
theorem basicText_basicChars (cs rest : List Char) :
    basicText (basicChars cs ++ '"' :: rest) = some (cs, rest) := by
  induction cs with
  | nil => rw [basicChars, List.flatMap_nil, List.nil_append, basicText]
  | cons c cs ih =>
    have hstep : basicChars (c :: cs) =
        (if c = '"' then ['\\', '"'] else if c = '\n' then ['\\', 'n'] else escape c) ++
          basicChars cs := rfl
    have hnext : ∀ d, (basicText (basicChars cs ++ '"' :: rest)).map (push d) =
        some (d :: cs, rest) := by
      intro d
      rw [ih]
      rfl
    rw [hstep, List.append_assoc]
    split
    · next hc =>
      subst hc
      exact (unescapes_basicText.short rfl _).trans (hnext _)
    next hquote =>
    split
    · next hc =>
      subst hc
      exact (unescapes_basicText.short rfl _).trans (hnext _)
    · next hbreak => rw [unescapes_basicText.escape hquote hbreak, hnext]

/-! ## Basic texts over several lines -/

theorem unescapes_basicLines : Unescapes (basicLines false) where
  short := by
    intro c d hd rest
    obtain ⟨hu, hU, hspace, hfeed, hreturn⟩ := of_unescape hd
    have hdrop : dropBreak ((c :: rest).dropWhile isSpace) = none := by
      rw [List.dropWhile_cons_of_neg (by rw [hspace]; exact Bool.false_ne_true)]
      unfold dropBreak
      split
      · next h => exact absurd (List.cons.inj h).1 hfeed
      · next h => exact absurd (List.cons.inj h).1 hreturn
      · rfl
    rw [basicLines.eq_def]
    split
    · next h => exact nomatch h
    · next h => exact nomatch (List.cons.inj h).1
    · next h => exact absurd (List.cons.inj (List.cons.inj h).2).1 hu
    · next h => exact absurd (List.cons.inj (List.cons.inj h).2).1 hU
    · next h =>
      obtain ⟨rfl, rfl⟩ := List.cons.inj (List.cons.inj h).2
      rw [hdrop, hd]
      rfl
    · next h => exact nomatch (List.cons.inj h).1
    · next h => exact nomatch (List.cons.inj h).1
    · next hshort _ _ h =>
      obtain ⟨rfl, rfl⟩ := List.cons.inj h
      exact (hshort c rest rfl rfl).elim
  code := by
    intro a b d e c hc rest
    rw [basicLines, hc]
    rfl
  plain := by
    intro c hquote hslash hc rest
    have hfeed : c ≠ '\n' := by
      rintro rfl
      exact absurd hc (by decide)
    have hreturn : c ≠ '\r' := by
      rintro rfl
      exact absurd hc (by decide)
    rw [basicLines.eq_def]
    split
    · next h => exact nomatch h
    · next h => exact absurd (List.cons.inj h).1 hquote
    · next h => exact absurd (List.cons.inj h).1 hslash
    · next h => exact absurd (List.cons.inj h).1 hslash
    · next h => exact absurd (List.cons.inj h).1 hslash
    · next h => exact absurd (List.cons.inj h).1 hreturn
    · next h => exact absurd (List.cons.inj h).1 hfeed
    · next h =>
      obtain ⟨rfl, rfl⟩ := List.cons.inj h
      rw [Bool.false_and, if_neg Bool.false_ne_true, if_pos hc]

theorem basicLines_break (rest : List Char) :
    basicLines false ('\n' :: rest) = (basicLines false rest).map (push '\n') := by
  rw [basicLines]
  rfl

/-- A quote that does not start three of them. -/
theorem basicLines_quote (h : ∀ tail, rest ≠ '"' :: '"' :: tail) :
    basicLines false ('"' :: rest) = (basicLines false rest).map (push '"') := by
  rw [basicLines.eq_def]
  split
  · next heq => exact nomatch heq
  · next tail heq => exact absurd (List.cons.inj heq).2 (h tail)
  · next heq => exact nomatch (List.cons.inj heq).1
  · next heq => exact nomatch (List.cons.inj heq).1
  · next heq => exact nomatch (List.cons.inj heq).1
  · next heq => exact nomatch (List.cons.inj heq).1
  · next heq => exact nomatch (List.cons.inj heq).1
  · next heq =>
    obtain ⟨rfl, rfl⟩ := List.cons.inj heq
    rfl

/-- Up to two quotes in front of another character belong to the text. -/
theorem basicLines_quotes {run : Nat} (hrun : run ≤ 2) {c : Char} (hc : c ≠ '"')
    {tail text : List Char} (h : basicLines false (c :: tail) = some (text, rest)) :
    basicLines false (List.replicate run '"' ++ c :: tail) =
      some (List.replicate run '"' ++ text, rest) := by
  have hone : basicLines false ('"' :: c :: tail) = some ('"' :: text, rest) := by
    rw [basicLines_quote (fun tail heq => hc (List.cons.inj heq).1), h]
    rfl
  match run, hrun with
  | 0, _ => exact h
  | 1, _ => exact hone
  | 2, _ =>
    show basicLines false ('"' :: '"' :: c :: tail) = _
    rw [basicLines_quote (fun tail heq => hc (List.cons.inj (List.cons.inj heq).2).1), hone]
    rfl

/-- Behind the closing three quotes, up to two further ones are taken. -/
theorem afterClosing_quotes {quote : Char} {run : Nat} (hrun : run ≤ 2)
    (hrest : StopsAt (· == quote) rest) :
    afterClosing quote (List.replicate run quote ++ rest) = (List.replicate run quote, rest) := by
  have hne : ∀ c tail, rest = c :: tail → c ≠ quote := by
    rintro c tail rfl rfl
    have hquote : (c == c) = false := hrest c rfl
    rw [beq_self_eq_true] at hquote
    exact Bool.noConfusion hquote
  match run, hrun with
  | 0, _ =>
    cases rest with
    | nil => rfl
    | cons c tail => exact if_neg (hne c tail rfl)
  | 1, _ =>
    cases rest with
    | nil => exact if_pos rfl
    | cons c tail =>
      show (if quote = quote then (if c = quote then _ else _) else _) = _
      rw [if_pos rfl, if_neg (hne c tail rfl)]
      rfl
  | 2, _ =>
    show (if quote = quote then (if quote = quote then _ else _) else _) = _
    rw [if_pos rfl, if_pos rfl]
    rfl

theorem replicate_append_quotes {run : Nat} (quote : Char) (rest : List Char) (hrun : run ≤ 2) :
    List.replicate run quote ++ quote :: quote :: quote :: rest =
      quote :: quote :: quote :: (List.replicate run quote ++ rest) := by
  match run, hrun with
  | 0, _ => rfl
  | 1, _ => rfl
  | 2, _ => rfl

/-- Up to two quotes in front of the closing three belong to the text. -/
theorem basicLines_closing {run : Nat} (hrun : run ≤ 2) (hrest : StopsAt (· == '"') rest) :
    basicLines false (List.replicate run '"' ++ '"' :: '"' :: '"' :: rest) =
      some (List.replicate run '"', rest) := by
  rw [replicate_append_quotes '"' rest hrun, basicLines, afterClosing_quotes hrun hrest]

/-- An escape starts with a backslash, or is the character itself. -/
theorem escape_head (c : Char) :
    ∃ d tail, escape c = d :: tail ∧ (d = '\\' ∨ d = c ∧ c ≠ '\r') := by
  unfold escape
  split
  · exact ⟨_, _, rfl, .inl rfl⟩
  split
  · exact ⟨_, _, rfl, .inl rfl⟩
  split
  · exact ⟨_, _, rfl, .inl rfl⟩
  split
  · exact ⟨_, _, rfl, .inl rfl⟩
  split
  · exact ⟨_, _, rfl, .inl rfl⟩
  next hreturn =>
  split
  · exact ⟨_, _, rfl, .inl rfl⟩
  · exact ⟨_, _, rfl, .inr ⟨rfl, hreturn⟩⟩

/-- A basic text over several lines is read as it was written, behind a run of quotes. -/
theorem basicLines_run (hrest : StopsAt (· == '"') rest) (cs : List Char) {run : Nat}
    (hrun : run ≤ 2) :
    basicLines false
      (List.replicate run '"' ++ (basicLinesChars run cs ++ '"' :: '"' :: '"' :: rest)) =
      some (List.replicate run '"' ++ cs, rest) := by
  induction cs generalizing run with
  | nil =>
    rw [basicLinesChars, List.nil_append, List.append_nil]
    exact basicLines_closing hrun hrest
  | cons c cs ih =>
    have hnext : ∀ d, (basicLines false (basicLinesChars 0 cs ++ '"' :: '"' :: '"' :: rest)).map
        (push d) = some (d :: cs, rest) := by
      intro d
      have h := ih (Nat.zero_le 2)
      rw [List.replicate_zero, List.nil_append, List.nil_append] at h
      rw [h]
      rfl
    rw [basicLinesChars]
    split
    · next hc =>
      subst hc
      split
      · -- the third quote of a run is escaped
        next htwo =>
        refine basicLines_quotes hrun (by decide) ?_
        exact (unescapes_basicLines.short rfl _).trans (hnext '"')
      · next htwo =>
        have hlonger : run + 1 ≤ 2 := by omega
        have hmore := ih hlonger
        rw [List.replicate_succ', List.append_assoc, List.append_assoc] at hmore
        exact hmore
    next hquote =>
    split
    · next hc =>
      subst hc
      refine basicLines_quotes hrun (by decide) ?_
      exact (basicLines_break _).trans (hnext '\n')
    · next hbreak =>
      obtain ⟨d, tail, hescape, hd⟩ := escape_head c
      have hne : d ≠ '"' := by
        rcases hd with rfl | ⟨rfl, -⟩
        · decide
        · exact hquote
      have hread := (unescapes_basicLines.escape hquote hbreak _).trans (hnext c)
      rw [hescape] at hread
      rw [hescape, List.append_assoc, List.cons_append]
      exact basicLines_quotes hrun hne hread

/-! ## Literal texts -/

theorem literalText_append {cs : List Char} (hcs : ∀ c ∈ cs, isTextChar c = true ∧ c ≠ '\'')
    (rest : List Char) : literalText (cs ++ '\'' :: rest) = some (cs, rest) := by
  induction cs with
  | nil => rw [List.nil_append, literalText]
  | cons c cs ih =>
    obtain ⟨⟨hc, hquote⟩, hcs⟩ := List.forall_mem_cons.1 hcs
    rw [List.cons_append, literalText.eq_def]
    split
    · next h => exact nomatch h
    · next h => exact absurd (List.cons.inj h).1 hquote
    · next h =>
      obtain ⟨rfl, rfl⟩ := List.cons.inj h
      rw [if_pos hc, ih hcs]
      rfl

theorem literalLines_closing {run : Nat} (hrun : run ≤ 2) (hrest : StopsAt (· == '\'') rest) :
    literalLines (List.replicate run '\'' ++ '\'' :: '\'' :: '\'' :: rest) =
      some (List.replicate run '\'', rest) := by
  rw [replicate_append_quotes '\'' rest hrun, literalLines, afterClosing_quotes hrun hrest]

/-- A quote that does not start three of them, or another character. -/
theorem literalLines_cons {c : Char} (hc : isControl c = false)
    (h : ∀ tail, c :: rest ≠ '\'' :: '\'' :: '\'' :: tail) :
    literalLines (c :: rest) = (literalLines rest).map (push c) := by
  rw [literalLines.eq_def]
  split
  · next heq => exact nomatch heq
  · next tail heq => exact absurd heq (h tail)
  · next heq =>
    rw [(List.cons.inj heq).1] at hc
    exact absurd hc (by decide)
  · next heq =>
    obtain ⟨rfl, rfl⟩ := List.cons.inj heq
    rfl
  · next hbreak heq =>
    obtain ⟨rfl, rfl⟩ := List.cons.inj heq
    rw [if_pos (isTextChar_of hc hbreak)]

/-- Without its first character a text has no more quotes in a row. -/
theorem hasTriple_of_cons {quote c : Char} {cs : List Char}
    (h : hasTriple quote (c :: cs) = false) : hasTriple quote cs = false := by
  match cs, h with
  | [], _ => rfl
  | [_], _ => rfl
  | _ :: _ :: _, h => exact (Bool.or_eq_false_iff.1 h).2

/-- Three quotes at the end of a text begin in it only where it ends in quotes. -/
theorem starts_triple {cs : List Char} {c : Char} (htriple : hasTriple '\'' (c :: cs) = false)
    {tail : List Char}
    (h : c :: (cs ++ '\'' :: '\'' :: '\'' :: rest) = '\'' :: '\'' :: '\'' :: tail) :
    c :: cs = List.replicate 1 '\'' ∨ c :: cs = List.replicate 2 '\'' := by
  obtain ⟨rfl, hafter⟩ := List.cons.inj h
  match cs, htriple, hafter with
  | [], _, _ => exact .inl rfl
  | [_], _, htwo =>
    obtain ⟨rfl, -⟩ := List.cons.inj htwo
    exact .inr rfl
  | _ :: _ :: _, htriple, htwo =>
    obtain ⟨rfl, hthree⟩ := List.cons.inj htwo
    obtain ⟨rfl, -⟩ := List.cons.inj hthree
    exact absurd (Bool.or_eq_false_iff.1 htriple).1 (by decide)

/-- A literal text over several lines is read as it was written.  Where the text ends in quotes, the
    closing three are found before its end. -/
theorem literalLines_append (hrest : StopsAt (· == '\'') rest) {cs : List Char}
    (hcs : ∀ c ∈ cs, isControl c = false) (htriple : hasTriple '\'' cs = false) :
    literalLines (cs ++ '\'' :: '\'' :: '\'' :: rest) = some (cs, rest) := by
  induction cs with
  | nil => exact literalLines_closing (Nat.zero_le 2) hrest
  | cons c cs ih =>
    by_cases hstart : c :: cs = List.replicate 1 '\'' ∨ c :: cs = List.replicate 2 '\''
    · rcases hstart with h | h
      · rw [h]
        exact literalLines_closing (by decide) hrest
      · rw [h]
        exact literalLines_closing (by decide) hrest
    · obtain ⟨hc, hothers⟩ := List.forall_mem_cons.1 hcs
      rw [List.cons_append,
        literalLines_cons hc fun tail h => hstart (starts_triple htriple h),
        ih hothers (hasTriple_of_cons htriple)]
      rfl

/-! ## Texts in their forms -/

/-- The line break behind the opening quotes is dropped, and none of the text itself. -/
theorem skipFirstBreak_opening (cs : List Char) {inside : List Char}
    (h : '\n' ∉ cs → dropBreak inside = none) :
    skipFirstBreak (openingBreak cs ++ inside) = inside := by
  unfold openingBreak
  split
  · rfl
  · next hbreak =>
    rw [List.nil_append, skipFirstBreak, h fun hmem => hbreak (List.contains_iff_mem.2 hmem)]
    rfl

theorem dropBreak_cons {c : Char} (hfeed : c ≠ '\n') (hreturn : c ≠ '\r') (rest : List Char) :
    dropBreak (c :: rest) = none := by
  unfold dropBreak
  split
  · next h => exact absurd (List.cons.inj h).1 hfeed
  · next h => exact absurd (List.cons.inj h).1 hreturn
  · rfl

/-- A text without a line feed does not start with a line break. -/
theorem dropBreak_basicLinesChars {cs : List Char} (hcs : '\n' ∉ cs) (run : Nat)
    (rest : List Char) :
    dropBreak (basicLinesChars run cs ++ '"' :: rest) = none := by
  cases cs with
  | nil => rfl
  | cons c cs =>
    rw [basicLinesChars]
    split
    · split
      · rfl
      · rfl
    split
    · next hbreak => exact absurd (hbreak ▸ List.mem_cons_self) hcs
    · next hbreak =>
      obtain ⟨d, tail, hescape, hd⟩ := escape_head c
      rw [hescape]
      rcases hd with rfl | ⟨rfl, hreturn⟩
      · rfl
      · exact dropBreak_cons hbreak hreturn _

theorem dropBreak_literal {cs : List Char} (hcs : ∀ c ∈ cs, isControl c = false)
    (hbreak : '\n' ∉ cs) (rest : List Char) : dropBreak (cs ++ '\'' :: rest) = none := by
  cases cs with
  | nil => rfl
  | cons c cs =>
    refine dropBreak_cons (fun h => hbreak (h ▸ List.mem_cons_self)) (fun h => ?_) _
    have hc := hcs c List.mem_cons_self
    rw [h] at hc
    exact absurd hc (by decide)

/-- A form can hold a text: literal forms have no escapes. -/
def TextForm.Holds (cs : List Char) : TextForm → Prop
  | .basic => True
  | .basicLines => True
  | .literal => (∀ c ∈ cs, isControl c = false) ∧ '\n' ∉ cs ∧ '\'' ∉ cs ∧ cs ≠ []
  | .literalLines => (∀ c ∈ cs, isControl c = false) ∧ hasTriple '\'' cs = false

theorem TextForm.holds_of (cs : List Char) : (TextForm.of cs).Holds cs := by
  have hplain : (!cs.any isControl) = true → ∀ c ∈ cs, isControl c = false := by
    intro h c hc
    rw [Bool.not_eq_true', List.any_eq_false] at h
    exact Bool.eq_false_iff.2 (h c hc)
  have hnone : ∀ c : Char, (!cs.contains c) = true → c ∉ cs := by
    intro c h hmem
    rw [List.contains_iff_mem.2 hmem] at h
    exact Bool.noConfusion h
  unfold TextForm.of
  simp only
  split
  · trivial
  next hbasic =>
  split
  · next h =>
    obtain ⟨h, hquote⟩ := Bool.and_eq_true_iff.1 h
    obtain ⟨hcontrol, hbreak⟩ := Bool.and_eq_true_iff.1 h
    refine ⟨hplain hcontrol, hnone '\n' hbreak, hnone '\'' hquote, ?_⟩
    rintro rfl
    exact hbasic rfl
  split
  · trivial
  split
  · next h =>
    obtain ⟨hcontrol, htriple⟩ := Bool.and_eq_true_iff.1 h
    rw [Bool.not_eq_true'] at htriple
    exact ⟨hplain hcontrol, htriple⟩
  split
  · trivial
  · trivial

/-- A basic text that is not taken for one between three quotes. -/
theorem takeText_eq_basicText (h : ∀ tail, rest ≠ '"' :: '"' :: tail) :
    takeText ('"' :: rest) = basicText rest := by
  rw [takeText.eq_def]
  split
  · next tail heq => exact absurd (List.cons.inj heq).2 (h tail)
  · next heq => rw [(List.cons.inj heq).2]
  · next heq => exact nomatch (List.cons.inj heq).1
  · next heq => exact nomatch (List.cons.inj heq).1
  · next hother _ _ => exact absurd rfl (hother _)

/-- A literal text that is not taken for one between three quotes. -/
theorem takeText_eq_literalText (h : ∀ tail, rest ≠ '\'' :: '\'' :: tail) :
    takeText ('\'' :: rest) = literalText rest := by
  rw [takeText.eq_def]
  split
  · next heq => exact nomatch (List.cons.inj heq).1
  · next heq => exact nomatch (List.cons.inj heq).1
  · next tail heq => exact absurd (List.cons.inj heq).2 (h tail)
  · next heq => rw [(List.cons.inj heq).2]
  · next hother => exact absurd rfl (hother _)

theorem takeText_basic (cs : List Char) (hrest : StopsAt (· == '"') rest) :
    takeText ('"' :: (basicChars cs ++ '"' :: rest)) = some (cs, rest) := by
  refine (takeText_eq_basicText fun tail h => ?_).trans (basicText_basicChars cs rest)
  -- two quotes are there only if the text is empty and another quote stands behind it
  cases cs with
  | nil =>
    have hquote := hrest '"' (by rw [(List.cons.inj h).2]; rfl)
    exact absurd hquote (by decide)
  | cons c cs =>
    have hstep : basicChars (c :: cs) =
        (if c = '"' then ['\\', '"'] else if c = '\n' then ['\\', 'n'] else escape c) ++
          basicChars cs := rfl
    rw [hstep] at h
    split at h
    · exact nomatch (List.cons.inj h).1
    next hquote =>
    split at h
    · exact nomatch (List.cons.inj h).1
    · obtain ⟨d, after, hescape, hd⟩ := escape_head c
      rw [hescape] at h
      rcases hd with rfl | ⟨rfl, -⟩
      · exact nomatch (List.cons.inj h).1
      · exact hquote (List.cons.inj h).1

theorem takeText_literal {cs : List Char} (hcs : ∀ c ∈ cs, isControl c = false)
    (hbreak : '\n' ∉ cs) (hquote : '\'' ∉ cs) (hne : cs ≠ []) (rest : List Char) :
    takeText ('\'' :: (cs ++ '\'' :: rest)) = some (cs, rest) := by
  have htext : literalText (cs ++ '\'' :: rest) = some (cs, rest) := by
    refine literalText_append (fun d hd => ⟨isTextChar_of (hcs d hd) ?_, ?_⟩) rest
    · rintro rfl
      exact hbreak hd
    · rintro rfl
      exact hquote hd
  refine (takeText_eq_literalText fun tail h => ?_).trans htext
  obtain ⟨c, ds, rfl⟩ := List.exists_cons_of_ne_nil hne
  exact hquote ((List.cons.inj h).1 ▸ List.mem_cons_self)

theorem takeText_basicLines (cs : List Char) (hrest : StopsAt (· == '"') rest) :
    takeText ('"' :: '"' :: '"' ::
      (openingBreak cs ++ (basicLinesChars 0 cs ++ '"' :: '"' :: '"' :: rest))) =
      some (cs, rest) := by
  rw [takeText, skipFirstBreak_opening cs fun h => dropBreak_basicLinesChars h 0 _]
  exact basicLines_run hrest cs (Nat.zero_le 2)

theorem takeText_literalLines {cs : List Char} (hrest : StopsAt (· == '\'') rest)
    (hcs : ∀ c ∈ cs, isControl c = false) (htriple : hasTriple '\'' cs = false) :
    takeText ('\'' :: '\'' :: '\'' :: (openingBreak cs ++ (cs ++ '\'' :: '\'' :: '\'' :: rest))) =
      some (cs, rest) := by
  rw [takeText, skipFirstBreak_opening cs fun h => dropBreak_literal hcs h _]
  exact literalLines_append hrest hcs htriple

/-- A text is read as it was written, with no quote behind it. -/
theorem takeText_textChars (s : String) (hbasic : StopsAt (· == '"') rest)
    (hliteral : StopsAt (· == '\'') rest) :
    takeText (textChars s ++ rest) = some (s.toList, rest) := by
  have hholds := TextForm.holds_of s.toList
  unfold textChars
  simp only
  split
  · rw [List.cons_append, List.cons_append, List.append_assoc]
    exact takeText_basic s.toList hbasic
  · next h =>
    rw [h] at hholds
    obtain ⟨hcontrol, hbreak, hquote, hne⟩ := hholds
    rw [List.cons_append, List.cons_append, List.append_assoc]
    exact takeText_literal hcontrol hbreak hquote hne rest
  · rw [List.append_assoc, List.append_assoc, List.append_assoc]
    exact takeText_basicLines s.toList hbasic
  · next h =>
    rw [h] at hholds
    rw [List.append_assoc, List.append_assoc, List.append_assoc]
    exact takeText_literalLines hliteral hholds.1 hholds.2

end Embroidery.Toml
