/-
  Reading a line does not depend on how it is presented.

  A line that is no comment is read by its words (`Instruction.ofChars_eq`), so an edit that keeps
  the words keeps what is read, but for the text of a foreign code, which is kept as it stands.
  Around a gap of blanks the words are those in front and, unless a comment starts there, those
  behind (`wordsOf_around`); the length of the gap does not matter, and a token that spells no word
  may stand in it (`AddsToken.wordsOf`).  The case of letters is given up by every word
  (`wordsOf_lowered`).

  What an edit must not do is turn the line into a comment.  That is decided by the first character
  that is not blank (`head?_trim`), and only taking a token away can bring a semicolon there.
-/
import Mathlib.Logic.Relation
import Embroidery.Proofs.Instruction.Reading
import Embroidery.Proofs.Number.LetterCase

namespace Embroidery

variable {line edited front back gap before after token : List Char}

/-! ## Blanks -/

def AllBlank (cs : List Char) : Prop := ∀ c ∈ cs, isBlank c = true

instance (cs : List Char) : Decidable (AllBlank cs) :=
  decidable_of_iff (cs.all isBlank = true) List.all_eq_true

/-- The first character of a line that is not blank. -/
def firstVisible (line : List Char) : Option Char := line.find? fun c => !isBlank c

theorem firstVisible_append (front back : List Char) :
    firstVisible (front ++ back) = (firstVisible front).or (firstVisible back) :=
  List.find?_append

theorem AllBlank.firstVisible (h : AllBlank gap) : firstVisible gap = none := by
  refine List.find?_eq_none.2 ?_
  intro c hc
  rw [h c hc]
  exact Bool.false_ne_true

/-- A trimmed text starts with the first visible character. -/
theorem head?_trim (cs : List Char) : (trim cs).head? = firstVisible cs := by
  induction cs with
  | nil => rfl
  | cons c cs ih =>
    unfold firstVisible
    cases hc : isBlank c with
    | true =>
      rw [List.find?_cons_of_neg (by simp [hc]), trim, trimStart_of_blank hc]
      exact ih
    | false =>
      rw [List.find?_cons_of_pos (by simp [hc]), trim, trimStart_of_not_blank hc,
        trimEnd_of_not_blank hc]
      rfl

theorem AllBlank.tokens_append (h : AllBlank gap) (cs : List Char) :
    tokens (gap ++ cs) = tokens cs := by
  induction gap with
  | nil => rfl
  | cons c gap ih =>
    rw [List.cons_append, tokens_blank (h c List.mem_cons_self)]
    exact ih fun d hd => h d (List.mem_cons_of_mem c hd)

theorem growFirst_ne_nil (c : Char) (ts : List (List Char)) : growFirst c ts ≠ [] := by
  cases ts with
  | nil => exact List.cons_ne_nil _ _
  | cons t ts => exact List.cons_ne_nil _ _

theorem growFirst_append (c : Char) {ts : List (List Char)} (hts : ts ≠ [])
    (us : List (List Char)) : growFirst c (ts ++ us) = growFirst c ts ++ us := by
  cases ts with
  | nil => exact absurd rfl hts
  | cons t ts => rfl

/-- A character in front of another one joins its token. -/
theorem tokens_joined {c d : Char} (hc : isBlank c = false) (hd : isBlank d = false)
    (cs : List Char) : tokens (c :: d :: cs) = growFirst c (tokens (d :: cs)) := by
  rw [tokens, if_neg (by simp [hc]), if_neg (by simp [hd])]

/-- A character in front of a blank, or of nothing, is a token by itself. -/
theorem tokens_alone {c : Char} {rest : List Char} (hc : isBlank c = false)
    (hrest : ∀ d ∈ rest.head?, isBlank d = true) : tokens (c :: rest) = [c] :: tokens rest :=
  tokens_append (List.cons_ne_nil c []) (List.forall_mem_singleton.2 hc) hrest

theorem nil_isBlank : ∀ c ∈ ([] : List Char).head?, isBlank c = true := fun _ hc => (nomatch hc)

theorem head_isBlank {d : Char} (hd : isBlank d = true) (cs : List Char) :
    ∀ c ∈ (d :: cs).head?, isBlank c = true := fun _ hc => Option.some.inj hc ▸ hd

theorem tokens_ne_nil {c : Char} (hc : isBlank c = false) (cs : List Char) :
    tokens (c :: cs) ≠ [] := by
  cases cs with
  | nil =>
    rw [tokens_alone hc nil_isBlank]
    exact List.cons_ne_nil _ _
  | cons d ds =>
    cases hd : isBlank d with
    | true =>
      rw [tokens_alone hc (head_isBlank hd ds)]
      exact List.cons_ne_nil _ _
    | false =>
      rw [tokens_joined hc hd]
      exact growFirst_ne_nil c _

/-- In front of a blank, or of nothing, no token goes on. -/
theorem tokens_append_of_blank (hback : ∀ c ∈ back.head?, isBlank c = true) (front : List Char) :
    tokens (front ++ back) = tokens front ++ tokens back := by
  induction front with
  | nil => rfl
  | cons c cs ih =>
    cases hc : isBlank c with
    | true => rw [List.cons_append, tokens_blank hc, tokens_blank hc, ih]
    | false =>
      -- whether the token ends here is told by the next character
      cases cs with
      | nil =>
        rw [tokens_alone hc nil_isBlank]
        exact tokens_alone hc hback
      | cons d ds =>
        rw [List.cons_append] at ih
        show tokens (c :: d :: (ds ++ back)) = tokens (c :: d :: ds) ++ tokens back
        cases hd : isBlank d with
        | true =>
          rw [tokens_alone hc (head_isBlank hd _), tokens_alone hc (head_isBlank hd ds), ih,
            List.cons_append]
        | false =>
          rw [tokens_joined hc hd, tokens_joined hc hd, ih,
            growFirst_append c (tokens_ne_nil hd ds)]

/-- The tokens around a gap are those in front and those behind. -/
theorem tokens_around (hgap : AllBlank gap) (hsep : front = [] ∨ back = [] ∨ gap ≠ []) :
    tokens (front ++ (gap ++ back)) = tokens front ++ tokens back := by
  rcases hsep with rfl | hsep
  · exact hgap.tokens_append back
  · have hhead : ∀ c ∈ (gap ++ back).head?, isBlank c = true := by
      intro c hc
      cases gap with
      | nil =>
        rcases hsep with rfl | hne
        · exact nomatch hc
        · exact absurd rfl hne
      | cons d gap =>
        rw [← Option.some.inj hc]
        exact hgap d List.mem_cons_self
    rw [tokens_append_of_blank hhead, hgap.tokens_append]

/-! ## Comments -/

/-- A comment starts somewhere in the text. -/
def HasComment (cs : List Char) : Prop := ∃ c ∈ cs, c = ';' ∨ c = '('

theorem not_hasComment_iff {cs : List Char} : ¬HasComment cs ↔ ∀ c ∈ cs, c ≠ ';' ∧ c ≠ '(' := by
  simp only [HasComment, not_exists, not_and, not_or]

theorem AllBlank.not_hasComment (h : AllBlank gap) : ¬HasComment gap := by
  rintro ⟨c, hc, rfl | rfl⟩
  · exact absurd (h _ hc) (by decide)
  · exact absurd (h _ hc) (by decide)

theorem stripComment_append (h : ¬HasComment front) (back : List Char) :
    stripComment (front ++ back) = front ++ stripComment back := by
  refine List.takeWhile_append_of_pos ?_
  intro c hc
  rw [Bool.and_eq_true, bne_iff_ne, bne_iff_ne]
  exact not_hasComment_iff.1 h c hc

/-- Nothing counts behind the start of a comment. -/
theorem stripComment_append_of_hasComment (h : HasComment front) (back : List Char) :
    stripComment (front ++ back) = stripComment front := by
  induction front with
  | nil => exact absurd h (by simp [HasComment])
  | cons c cs ih =>
    show List.takeWhile _ (c :: (cs ++ back)) = List.takeWhile _ (c :: cs)
    rw [List.takeWhile_cons, List.takeWhile_cons]
    split
    · next hc =>
      have hrest : HasComment cs := by
        obtain ⟨d, hd, hmark⟩ := h
        rcases List.mem_cons.1 hd with rfl | hd
        · rw [Bool.and_eq_true, bne_iff_ne, bne_iff_ne] at hc
          rcases hmark with hmark | hmark
          · exact absurd hmark hc.1
          · exact absurd hmark hc.2
        · exact ⟨d, hd, hmark⟩
      exact congrArg (c :: ·) (ih hrest)
    · rfl

/-! ## Words around gaps -/

open Classical in
/-- The words around a gap: those in front, and those behind if no comment starts in front. -/
theorem wordsOf_around (hgap : AllBlank gap) (hsep : front = [] ∨ back = [] ∨ gap ≠ []) :
    wordsOf (front ++ (gap ++ back)) =
      wordsOf front ++ if HasComment front then [] else wordsOf back := by
  by_cases hfront : HasComment front
  · rw [wordsOf, stripComment_append_of_hasComment hfront, if_pos hfront, List.append_nil, wordsOf]
  · have hsep' : front = [] ∨ stripComment back = [] ∨ gap ≠ [] := by
      rcases hsep with hsep | rfl | hsep
      · exact .inl hsep
      · exact .inr (.inl rfl)
      · exact .inr (.inr hsep)
    rw [if_neg hfront, wordsOf, stripComment_append hfront, stripComment_append hgap.not_hasComment,
      tokens_around hgap hsep', List.filterMap_append, wordsOf, wordsOf,
      stripComment_eq_self (not_hasComment_iff.1 hfront)]

/-- Blanks around a line do not change its words. -/
theorem wordsOf_margins (hbefore : AllBlank before) (hafter : AllBlank after) (line : List Char) :
    wordsOf (before ++ (line ++ after)) = wordsOf line := by
  have hstart := wordsOf_around hbefore
    (.inl rfl : ([] : List Char) = [] ∨ line ++ after = [] ∨ before ≠ [])
  have hend := wordsOf_around hafter
    (.inr (.inl rfl) : line = [] ∨ ([] : List Char) = [] ∨ after ≠ [])
  rw [List.append_nil] at hend
  have hnone : ¬HasComment [] := by simp [HasComment]
  rw [List.nil_append, if_neg hnone] at hstart
  rw [hstart, hend]
  show [] ++ (wordsOf line ++ _) = _
  split
  · exact List.append_nil _
  · exact List.append_nil _

theorem allBlank_takeWhile (cs : List Char) : AllBlank (cs.takeWhile isBlank) :=
  List.all_eq_true.1 List.all_takeWhile

/-- A line is its trimmed text between blanks. -/
theorem exists_margins (line : List Char) :
    ∃ before after, AllBlank before ∧ AllBlank after ∧ line = before ++ (trim line ++ after) := by
  have hstart : line = line.takeWhile isBlank ++ trimStart line :=
    List.takeWhile_append_dropWhile.symm
  have hend : trimStart line =
      trim line ++ ((trimStart line).reverse.takeWhile isBlank).reverse := by
    rw [trim, trimEnd, ← List.reverse_append, List.takeWhile_append_dropWhile, List.reverse_reverse]
  refine ⟨line.takeWhile isBlank, ((trimStart line).reverse.takeWhile isBlank).reverse,
    allBlank_takeWhile line, ?_, ?_⟩
  · intro c hc
    exact allBlank_takeWhile (trimStart line).reverse c (List.mem_reverse.1 hc)
  · rw [← hend, ← hstart]

theorem wordsOf_trim (line : List Char) : wordsOf (trim line) = wordsOf line := by
  obtain ⟨before, after, hbefore, hafter, hline⟩ := exists_margins line
  have hwords := wordsOf_margins hbefore hafter (trim line)
  rw [← hline] at hwords
  exact hwords.symm

/-! ## Tokens that spell no word -/

/-- A token that is passed over: it starts with no letter. -/
structure IsPassedOver (token : List Char) : Prop where
  isToken : IsToken token
  head : ∀ c ∈ token.head?, c.isAlpha = false

theorem IsPassedOver.not_hasComment (h : IsPassedOver token) : ¬HasComment token :=
  not_hasComment_iff.2 fun c hc => (isPlain_iff.1 (h.isToken.plain c hc)).2

theorem IsPassedOver.wordsOf (h : IsPassedOver token) : wordsOf token = [] := by
  obtain ⟨htoken, hhead⟩ := h
  have htokens : tokens (token ++ []) = token :: tokens [] :=
    tokens_append htoken.ne_nil htoken.not_blank nil_isBlank
  rw [List.append_nil] at htokens
  rw [Embroidery.wordsOf, stripComment_eq_self fun c hc => (isPlain_iff.1 (htoken.plain c hc)).2,
    htokens]
  cases token with
  | nil => rfl
  | cons c rest =>
    show List.filterMap Word.ofToken [c :: rest] = []
    rw [List.filterMap_cons_none]
    · rfl
    · rw [Word.ofToken, hhead c rfl, if_neg Bool.false_ne_true]

/-- The second line is the first with a further token in a gap or at an end. -/
inductive AddsToken : List Char → List Char → Prop where
  | intro {front gap back before token after : List Char} (htoken : IsPassedOver token)
    (hgap : AllBlank gap) (hbefore : AllBlank before) (hafter : AllBlank after)
    (hsep : front = [] ∨ back = [] ∨ gap ≠ []) (hfront : front = [] ∨ before ≠ [])
    (hback : back = [] ∨ after ≠ []) :
    AddsToken (front ++ (gap ++ back)) (front ++ (before ++ (token ++ (after ++ back))))

theorem AddsToken.wordsOf (h : AddsToken line edited) : wordsOf edited = wordsOf line := by
  obtain ⟨htoken, hgap, hbefore, hafter, hsep, hfront, hback⟩ := h
  next front gap back before token after =>
  have hsep' : front = [] ∨ token ++ (after ++ back) = [] ∨ before ≠ [] := by
    rcases hfront with hfront | hfront
    · exact .inl hfront
    · exact .inr (.inr hfront)
  rw [wordsOf_around hgap hsep, wordsOf_around hbefore hsep', wordsOf_around hafter (.inr hback),
    htoken.wordsOf, if_neg htoken.not_hasComment, List.nil_append]

/-! ## The case of letters -/

theorem isBlank_toLower (c : Char) : isBlank c.toLower = isBlank c :=
  eq_of_beq (toLower_induct (fun c d => isBlank d == isBlank c) (fun _ => beq_self_eq_true _)
    (by decide) c)

theorem stripComment_lowered (cs : List Char) :
    stripComment (lowered cs) = lowered (stripComment cs) := by
  rw [stripComment, lowered, List.takeWhile_map]
  refine congrArg (fun test => lowered (cs.takeWhile test)) (funext fun c => ?_)
  exact eq_of_beq (toLower_induct
    (fun c d => (d != ';' && d != '(') == (c != ';' && c != '('))
    (fun _ => beq_self_eq_true _) (by decide) c)

theorem growFirst_lowered (c : Char) (ts : List (List Char)) :
    growFirst c.toLower (ts.map lowered) = (growFirst c ts).map lowered := by
  cases ts with
  | nil => rfl
  | cons t ts => rfl

theorem tokens_lowered (cs : List Char) : tokens (lowered cs) = (tokens cs).map lowered := by
  induction cs with
  | nil => rfl
  | cons c cs ih =>
    show tokens (c.toLower :: lowered cs) = _
    cases hc : isBlank c with
    | true => rw [tokens_blank hc, tokens_blank ((isBlank_toLower c).trans hc), ih]
    | false =>
      have hc' : isBlank c.toLower = false := (isBlank_toLower c).trans hc
      cases cs with
      | nil =>
        rw [tokens_alone hc nil_isBlank]
        exact tokens_alone hc' nil_isBlank
      | cons d ds =>
        show tokens (c.toLower :: d.toLower :: lowered ds) = _
        cases hd : isBlank d with
        | true =>
          have hd' : isBlank d.toLower = true := (isBlank_toLower d).trans hd
          rw [tokens_alone hc (head_isBlank hd ds), tokens_alone hc' (head_isBlank hd' _),
            List.map_cons, ← ih]
          rfl
        | false =>
          have hd' : isBlank d.toLower = false := (isBlank_toLower d).trans hd
          rw [tokens_joined hc hd, tokens_joined hc' hd', ← growFirst_lowered, ← ih]
          rfl

theorem Word.ofToken_lowered (token : List Char) :
    Word.ofToken (lowered token) = Word.ofToken token := by
  cases token with
  | nil => rfl
  | cons c rest =>
    show Word.ofToken (c.toLower :: lowered rest) = _
    rw [Word.ofToken, Word.ofToken, isAlpha_toLower, toUpper_toLower, readNumber_lowered]

theorem wordsOf_lowered (line : List Char) : wordsOf (lowered line) = wordsOf line := by
  rw [wordsOf, stripComment_lowered, tokens_lowered, List.filterMap_map, wordsOf]
  exact congrArg (fun f => (tokens (stripComment line)).filterMap f) (funext Word.ofToken_lowered)

/-! ## Edits -/

/-- The line is not empty and no comment as a whole. -/
def IsCode (line : List Char) : Prop := trim line ≠ [] ∧ (trim line).head? ≠ some ';'

instance (line : List Char) : Decidable (IsCode line) :=
  inferInstanceAs (Decidable (trim line ≠ [] ∧ (trim line).head? ≠ some ';'))

/-- An edit of how a line is presented, made on the whole line. -/
inductive Restyled : List Char → List Char → Prop where
  /-- A comment behind the line. -/
  | comment {line text : List Char} {mark : Char} (hmark : mark = ';' ∨ mark = '(') :
    Restyled line (line ++ mark :: text)
  /-- Blanks in front and behind. -/
  | margins {line before after : List Char} (hbefore : AllBlank before) (hafter : AllBlank after) :
    Restyled line (before ++ (line ++ after))
  /-- Other blanks in place of some. -/
  | gap {front gap gap' back : List Char} (hgap : AllBlank gap) (hgap' : AllBlank gap')
    (hne : gap ≠ []) (hne' : gap' ≠ []) :
    Restyled (front ++ (gap ++ back)) (front ++ (gap' ++ back))
  /-- Letters in the other case. -/
  | letterCase {line edited : List Char} (h : lowered line = lowered edited) :
    Restyled line edited
  /-- A further token that spells no word. -/
  | insertion {line edited : List Char} (h : AddsToken line edited) : Restyled line edited
  /-- A token taken away that spells no word; what is left must not become a comment. -/
  | deletion {line edited : List Char} (h : AddsToken edited line)
    (hcode : (trim edited).head? ≠ some ';') : Restyled line edited

theorem Restyled.wordsOf (h : Restyled line edited) : wordsOf edited = wordsOf line := by
  cases h with
  | @comment _ text mark hmark =>
    by_cases hline : HasComment line
    · rw [Embroidery.wordsOf, stripComment_append_of_hasComment hline, Embroidery.wordsOf]
    · have hrest : stripComment (mark :: text) = [] := by
        rcases hmark with rfl | rfl
        · rfl
        · rfl
      rw [Embroidery.wordsOf, stripComment_append hline, hrest, List.append_nil,
        Embroidery.wordsOf, stripComment_eq_self (not_hasComment_iff.1 hline)]
  | margins hbefore hafter => exact wordsOf_margins hbefore hafter line
  | gap hgap hgap' hne hne' =>
    rw [wordsOf_around hgap (.inr (.inr hne)), wordsOf_around hgap' (.inr (.inr hne'))]
  | letterCase h => rw [← wordsOf_lowered, ← h, wordsOf_lowered]
  | insertion h => exact h.wordsOf
  | deletion h hcode => exact h.wordsOf.symm

theorem firstVisible_lowered (line : List Char) :
    firstVisible (lowered line) = (firstVisible line).map Char.toLower := by
  rw [firstVisible, lowered, List.find?_map]
  refine congrArg (fun test => (line.find? test).map Char.toLower) (funext fun c => ?_)
  exact congrArg Bool.not (isBlank_toLower c)

/-- A token is visible from its first character on, and this starts no comment. -/
theorem IsPassedOver.firstVisible (h : IsPassedOver token) :
    ∃ c, firstVisible token = some c ∧ c ≠ ';' := by
  obtain ⟨⟨hne, hplain⟩, -⟩ := h
  cases token with
  | nil => exact absurd rfl hne
  | cons c rest =>
    obtain ⟨hblank, hsemicolon, -⟩ := isPlain_iff.1 (hplain c List.mem_cons_self)
    exact ⟨c, List.find?_cons_of_pos (by rw [hblank]; rfl), hsemicolon⟩

theorem isCode_iff : IsCode line ↔ ∃ c, firstVisible line = some c ∧ c ≠ ';' := by
  rw [IsCode, ne_eq, ← List.head?_eq_none_iff, head?_trim]
  cases firstVisible line with
  | none => simp
  | some c => simp

/-- No edit makes a comment of a line. -/
theorem Restyled.head?_trim_ne (h : Restyled line edited) (hcode : IsCode line) :
    (trim edited).head? ≠ some ';' := by
  obtain ⟨c, hline, hc⟩ := isCode_iff.1 hcode
  have hne : some c ≠ some ';' := fun heq => hc (Option.some.inj heq)
  rw [head?_trim]
  cases h with
  | comment hmark =>
    rw [firstVisible_append, hline, Option.some_or]
    exact hne
  | margins hbefore hafter =>
    rw [firstVisible_append, firstVisible_append, hbefore.firstVisible, hline, Option.none_or,
      Option.some_or]
    exact hne
  | gap hgap hgap' _ _ =>
    rw [firstVisible_append, firstVisible_append, hgap.firstVisible] at hline
    rw [firstVisible_append, firstVisible_append, hgap'.firstVisible, hline]
    exact hne
  | letterCase h =>
    intro hedited
    have hcase : some c.toLower = some (Char.toLower ';') := by
      rw [← Option.map_some, ← hline, ← firstVisible_lowered, h, firstVisible_lowered, hedited]
      rfl
    exact hc ((toLower_eq_iff (by decide)).1 (Option.some.inj hcase))
  | insertion h =>
    obtain ⟨htoken, _, hbefore, _⟩ := h
    obtain ⟨t, ht, hsemicolon⟩ := htoken.firstVisible
    rw [firstVisible_append] at hline
    rw [firstVisible_append, firstVisible_append, firstVisible_append, hbefore.firstVisible, ht,
      Option.none_or, Option.some_or]
    generalize firstVisible _ = first at hline ⊢
    cases first with
    | none => exact fun heq => hsemicolon (Option.some.inj heq)
    | some d =>
      rw [Option.some_or] at hline ⊢
      rw [hline]
      exact hne
  | deletion _ hedited => exact head?_trim edited ▸ hedited

/-! ## Readings -/

namespace Instruction

/-- An instruction without the text that is kept of a foreign code. -/
def withoutText : Instruction → Instruction
  | .other _ => .other ""
  | i => i

variable {words : List Word}

theorem withoutText_getD (found : Option Instruction) (text text' : String) :
    (found.getD (.other text)).withoutText = (found.getD (.other text')).withoutText := by
  cases found with
  | none => rfl
  | some i => rfl

/-- The words of a line tell all but the text of a foreign code. -/
theorem withoutText_ofLineWords (words : List Word) (verbatim verbatim' : List Char) :
    (ofLineWords words verbatim).map withoutText =
      (ofLineWords words verbatim').map withoutText := by
  unfold ofLineWords
  split
  · rfl
  split
  · rfl
  unfold ofCommand
  split
  · exact congrArg Except.ok (withoutText_getD _ _ _)
  split
  · generalize ofMachineCode _ _ = found
    cases found with
    | error fault => rfl
    | ok found => exact congrArg Except.ok (withoutText_getD found _ _)
  · rfl

/-- An edited line is read as before. -/
theorem ofChars_restyled (hcode : IsCode line) (h : Restyled line edited) :
    (ofChars edited).map withoutText = (ofChars line).map withoutText := by
  have hline : ∀ c ∈ (trim line).head?, c ≠ ';' := by
    rintro c hc rfl
    exact hcode.2 hc
  have hedited : ∀ c ∈ (trim edited).head?, c ≠ ';' := by
    rintro c hc rfl
    exact h.head?_trim_ne hcode hc
  rw [ofChars_eq hedited, ofChars_eq hline, wordsOf_trim, wordsOf_trim, h.wordsOf]
  exact withoutText_ofLineWords _ _ _

/-- Edits of code, one after the other. -/
abbrev RestyledCode : List Char → List Char → Prop :=
  Relation.ReflTransGen fun line edited => IsCode line ∧ Restyled line edited

theorem ofChars_restyledCode (h : RestyledCode line edited) :
    (ofChars edited).map withoutText = (ofChars line).map withoutText := by
  induction h with
  | refl => rfl
  | tail _ hedit ih => rw [ofChars_restyled hedit.1 hedit.2, ih]

/-- **Presentation.**  A line that is code is read as before after any edit of how it is presented,
    and so after any number of them that are made on code: a comment behind it, blanks around it,
    other blanks in its gaps, letters in the other case, tokens that spell no word put in or taken
    away.  The instruction is the same, but for the text that is kept of a foreign code, and so is
    the error. -/
theorem parse_of_restyled {line edited : String} (h : RestyledCode line.toList edited.toList) :
    (parse edited).map withoutText = (parse line).map withoutText :=
  ofChars_restyledCode h

/-- A move in small letters, with a wider gap, a number by itself and a comment behind. -/
theorem parse_of_move_restyled :
    RestyledCode "G1 X1e1".toList "g1 \t7 x1E1 (to X2".toList ∧
      (parse "g1 \t7 x1E1 (to X2").map withoutText = (parse "G1 X1e1").map withoutText := by
  have hcase : Restyled "G1 X1e1".toList "g1 x1E1".toList := .letterCase (by decide)
  have hgap : Restyled "g1 x1E1".toList "g1 \t x1E1".toList :=
    @Restyled.gap "g1".toList [' '] [' ', '\t', ' '] "x1E1".toList (by decide) (by decide)
      (by decide) (by decide)
  have hseven : IsPassedOver ['7'] := ⟨isToken_cons (by decide) (fun _ h => nomatch h), by simp⟩
  have htoken : Restyled "g1 \t x1E1".toList "g1 \t7 x1E1".toList :=
    .insertion (@AddsToken.intro "g1".toList [' ', '\t', ' '] "x1E1".toList [' ', '\t'] ['7'] [' ']
      hseven (by decide) (by decide) (by decide) (by decide) (by decide) (by decide))
  have hcomment : Restyled "g1 \t7 x1E1 ".toList "g1 \t7 x1E1 (to X2".toList :=
    @Restyled.comment "g1 \t7 x1E1 ".toList "to X2".toList '(' (.inr rfl)
  have hmargin : Restyled "g1 \t7 x1E1".toList "g1 \t7 x1E1 ".toList :=
    @Restyled.margins "g1 \t7 x1E1".toList [] [' '] (by decide) (by decide)
  have hchain : RestyledCode "G1 X1e1".toList "g1 \t7 x1E1 (to X2".toList :=
    (((((Relation.ReflTransGen.single ⟨by decide, hcase⟩).tail ⟨by decide, hgap⟩).tail
      ⟨by decide, htoken⟩).tail ⟨by decide, hmargin⟩).tail ⟨by decide, hcomment⟩)
  exact ⟨hchain, parse_of_restyled hchain⟩

end Instruction
end Embroidery
