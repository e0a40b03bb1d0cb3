/-
  Lines made of words with one space between them.

  `spaced` is the part of such a line behind its first word.  A word that is not empty and has only
  plain characters (`IsToken`) is not cut, trimmed or taken for a comment, so a line of such words
  reads back as the list of its words (`tokens_spaced`), and neither trimming nor the search for a
  comment changes it (`trim_spaced`, `stripComment_spaced`).

  Trimming in general: the two ends are trimmed independently (`trimStart_trimEnd`), which is what a
  comment needs, whose text is trimmed once with its line and once by itself.  A text that was
  trimmed or stripped of its comment stays so, and its tokens are the same (`tokens_trim`).
-/
import Embroidery.Proofs.Text.Runs

namespace Embroidery

/-! ## Plain characters -/

/-- A character that ends no word and starts no comment. -/
def isPlain (c : Char) : Bool := !isBlank c && c != ';' && c != '('

theorem isPlain_iff {c : Char} : isPlain c = true ↔ isBlank c = false ∧ c ≠ ';' ∧ c ≠ '(' := by
  simp [isPlain, and_assoc]

/-- A character of an interval is in no range that the interval does not meet. -/
theorem inRanges_eq_false {ranges : List (Nat × Nat)} {low high : Nat} {c : Char}
    (hranges : ∀ r ∈ ranges, r.2 < low ∨ high < r.1) (hlow : low ≤ c.toNat)
    (hhigh : c.toNat ≤ high) : inRanges ranges c = false := by
  refine List.any_eq_false.2 ?_
  intro r hr
  have h := hranges r hr
  simp only [Bool.and_eq_true, decide_eq_true_eq]
  omega

/-- A character from the exclamation mark to the tilde is not blank. -/
theorem isBlank_of_visible {c : Char} (hlow : 33 ≤ c.toNat) (hhigh : c.toNat ≤ 126) :
    isBlank c = false :=
  inRanges_eq_false (by decide) hlow hhigh

theorem isPlain_of_isDigit {c : Char} (h : c.isDigit = true) : isPlain c = true := by
  have hrange := isDigit_iff.1 h
  refine isPlain_iff.2 ⟨isBlank_of_visible (by omega) (by omega), ?_, ?_⟩
  · rintro rfl
    exact absurd hrange.2 (by decide)
  · rintro rfl
    exact absurd hrange.1 (by decide)

/-- A word that reads back as one token. -/
structure IsToken (w : List Char) : Prop where
  ne_nil : w ≠ []
  plain : ∀ c ∈ w, isPlain c = true

theorem isToken_cons {c : Char} {w : List Char} (hc : isPlain c = true)
    (hw : ∀ d ∈ w, isPlain d = true) : IsToken (c :: w) := by
  refine ⟨List.cons_ne_nil _ _, ?_⟩
  intro d hd
  rcases List.mem_cons.1 hd with rfl | hd
  · exact hc
  · exact hw d hd

theorem IsToken.not_blank {w : List Char} (hw : IsToken w) : ∀ c ∈ w, isBlank c = false := by
  intro c hc
  exact (isPlain_iff.1 (hw.plain c hc)).1

/-! ## Words with spaces between them -/

/-- Words, each with a space in front. -/
def spaced (ws : List (List Char)) : List Char := ws.flatMap (' ' :: ·)

theorem spaced_append (vs ws : List (List Char)) : spaced (vs ++ ws) = spaced vs ++ spaced ws :=
  List.flatMap_append

/-- A character of a spaced line is a space or plain. -/
theorem mem_spaced {w : List Char} {ws : List (List Char)} (hw : IsToken w)
    (hws : ∀ v ∈ ws, IsToken v) {c : Char} (h : c ∈ w ++ spaced ws) :
    c = ' ' ∨ isPlain c = true := by
  rcases List.mem_append.1 h with h | h
  · exact Or.inr (hw.plain c h)
  · obtain ⟨v, hv, hc⟩ := List.mem_flatMap.1 h
    rcases List.mem_cons.1 hc with hc | hc
    · exact Or.inl hc
    · exact Or.inr ((hws v hv).plain c hc)

/-! ## Tokens -/

theorem tokens_blank {c : Char} {cs : List Char} (h : isBlank c = true) :
    tokens (c :: cs) = tokens cs := by
  simp only [tokens, h, if_true]

/-- A word in front of a blank, or of nothing, is the first token. -/
theorem tokens_append {w rest : List Char} (hne : w ≠ []) (hw : ∀ c ∈ w, isBlank c = false)
    (hrest : ∀ c ∈ rest.head?, isBlank c = true) : tokens (w ++ rest) = w :: tokens rest := by
  induction w with
  | nil => exact absurd rfl hne
  | cons c w ih =>
    have hc : isBlank c = false := hw c (by simp)
    -- the last character starts the token, and each one in front of it joins it
    cases w with
    | nil =>
      cases rest with
      | nil => simp [tokens, hc]
      | cons d rest =>
        have hd : isBlank d = true := hrest d rfl
        show tokens (c :: d :: rest) = [c] :: tokens (d :: rest)
        rw [tokens, if_neg (by simp [hc])]
        simp only [hd, if_true]
    | cons d w =>
      have hd : isBlank d = false := hw d (by simp)
      have hstep := ih (by simp) fun x hx => hw x (List.mem_cons_of_mem c hx)
      show tokens (c :: d :: (w ++ rest)) = (c :: d :: w) :: tokens rest
      rw [tokens, if_neg (by simp [hc])]
      simp only [hd, Bool.false_eq_true, if_false]
      rw [List.cons_append] at hstep
      rw [hstep]
      rfl

/-- A line of words reads back as its words. -/
theorem tokens_spaced {w : List Char} {ws : List (List Char)} (hw : IsToken w)
    (hws : ∀ v ∈ ws, IsToken v) : tokens (w ++ spaced ws) = w :: ws := by
  induction ws generalizing w with
  | nil =>
    have h : tokens (w ++ []) = w :: tokens [] :=
      tokens_append hw.ne_nil hw.not_blank (by simp)
    simpa [spaced, tokens] using h
  | cons v ws ih =>
    have hv : IsToken v := hws v (by simp)
    have hspace : spaced (v :: ws) = ' ' :: (v ++ spaced ws) := rfl
    have hblank : ∀ c ∈ (' ' :: (v ++ spaced ws)).head?, isBlank c = true := by
      intro c hc
      rw [← Option.some.inj hc]
      decide
    have hrest : tokens (v ++ spaced ws) = v :: ws :=
      ih hv fun x hx => hws x (List.mem_cons_of_mem v hx)
    rw [hspace, tokens_append hw.ne_nil hw.not_blank hblank, tokens_blank (by decide), hrest]

/-! ## Comments -/

theorem stripComment_eq_self {cs : List Char} (h : ∀ c ∈ cs, c ≠ ';' ∧ c ≠ '(') :
    stripComment cs = cs := by
  refine takeWhile_eq_self ?_
  intro c hc
  rw [Bool.and_eq_true, bne_iff_ne, bne_iff_ne]
  exact h c hc

/-- No character of a stripped line starts a comment. -/
theorem of_mem_stripComment {cs : List Char} {c : Char} (h : c ∈ stripComment cs) :
    c ≠ ';' ∧ c ≠ '(' := by
  have htest := List.all_eq_true.1 (List.all_takeWhile (l := cs)) c h
  rw [Bool.and_eq_true, bne_iff_ne, bne_iff_ne] at htest
  exact htest

/-- A line of words has no comment. -/
theorem stripComment_spaced {w : List Char} {ws : List (List Char)} (hw : IsToken w)
    (hws : ∀ v ∈ ws, IsToken v) : stripComment (w ++ spaced ws) = w ++ spaced ws := by
  refine stripComment_eq_self ?_
  intro c hc
  rcases mem_spaced hw hws hc with rfl | hplain
  · decide
  · exact (isPlain_iff.1 hplain).2

/-! ## Trimming -/

theorem trimStart_of_not_blank {c : Char} {cs : List Char} (h : isBlank c = false) :
    trimStart (c :: cs) = c :: cs := by
  rw [trimStart, List.dropWhile_cons_of_neg (by simp [h])]

theorem trimStart_of_blank {c : Char} {cs : List Char} (h : isBlank c = true) :
    trimStart (c :: cs) = trimStart cs := by
  rw [trimStart, List.dropWhile_cons_of_pos h]
  rfl

/-- Behind the first character the end is trimmed as if that character were not there, unless all
    is blank. -/
theorem trimEnd_cons (c : Char) (cs : List Char) :
    trimEnd (c :: cs) = if isBlank c = true ∧ trimEnd cs = [] then [] else c :: trimEnd cs := by
  have hrev : (c :: cs).reverse = cs.reverse ++ [c] := List.reverse_cons
  simp only [trimEnd, hrev, List.dropWhile_append, List.isEmpty_iff, List.reverse_eq_nil_iff]
  by_cases hcs : cs.reverse.dropWhile isBlank = []
  · by_cases hc : isBlank c = true <;> simp [hcs, hc]
  · simp [hcs]

theorem trimEnd_of_not_blank {c : Char} {cs : List Char} (h : isBlank c = false) :
    trimEnd (c :: cs) = c :: trimEnd cs := by
  rw [trimEnd_cons, if_neg (by simp [h])]

/-- The two ends of a text are trimmed independently. -/
theorem trimStart_trimEnd (cs : List Char) : trimStart (trimEnd cs) = trimEnd (trimStart cs) := by
  induction cs with
  | nil => rfl
  | cons c cs ih =>
    cases hc : isBlank c with
    | false => rw [trimEnd_of_not_blank hc, trimStart_of_not_blank hc, trimStart_of_not_blank hc,
        trimEnd_of_not_blank hc]
    | true =>
      rw [trimStart_of_blank hc, ← ih, trimEnd_cons]
      by_cases hend : trimEnd cs = []
      · rw [if_pos ⟨hc, hend⟩, hend]
      · rw [if_neg (fun h => hend h.2), trimStart_of_blank hc]

theorem trimEnd_trimEnd (cs : List Char) : trimEnd (trimEnd cs) = trimEnd cs := by
  induction cs with
  | nil => rfl
  | cons c cs ih =>
    rw [trimEnd_cons c cs]
    split
    · rfl
    · next h => rw [trimEnd_cons, ih, if_neg h]

theorem trimStart_trimStart (cs : List Char) : trimStart (trimStart cs) = trimStart cs := by
  induction cs with
  | nil => rfl
  | cons c cs ih =>
    cases hc : isBlank c with
    | false => rw [trimStart_of_not_blank hc, trimStart_of_not_blank hc]
    | true => rw [trimStart_of_blank hc, ih]

theorem trim_trim (cs : List Char) : trim (trim cs) = trim cs := by
  rw [trim, trim, trimStart_trimEnd, trimStart_trimStart, trimEnd_trimEnd]

theorem mem_of_mem_trim {cs : List Char} {c : Char} (h : c ∈ trim cs) : c ∈ cs := by
  have hstart : c ∈ (trimStart cs).reverse := List.dropWhile_subset _ (List.mem_reverse.1 h)
  exact List.dropWhile_subset _ (List.mem_reverse.1 hstart)

theorem tokens_trimStart (cs : List Char) : tokens (trimStart cs) = tokens cs := by
  induction cs with
  | nil => rfl
  | cons c cs ih =>
    cases hc : isBlank c with
    | false => rw [trimStart_of_not_blank hc]
    | true => rw [trimStart_of_blank hc, tokens_blank hc, ih]

theorem tokens_trimEnd (cs : List Char) : tokens (trimEnd cs) = tokens cs := by
  induction cs with
  | nil => rfl
  | cons c cs ih =>
    cases hc : isBlank c with
    | true =>
      rw [tokens_blank hc, trimEnd_cons, ← ih]
      split
      · next hend => rw [hend.2]
      · exact tokens_blank hc
    | false =>
      rw [trimEnd_of_not_blank hc]
      -- whether the token ends here is told by the next character
      cases cs with
      | nil => rfl
      | cons d ds =>
        cases hd : isBlank d with
        | false =>
          rw [trimEnd_of_not_blank hd] at ih ⊢
          simp only [tokens, hc, hd, Bool.false_eq_true, if_false] at ih ⊢
          rw [ih]
        | true =>
          have hsplit : ∀ rest, tokens (c :: d :: rest) = [c] :: tokens (d :: rest) := by
            intro rest
            refine tokens_append (List.cons_ne_nil c []) (List.forall_mem_singleton.2 hc) ?_
            intro x hx
            rw [← Option.some.inj hx]
            exact hd
          rw [hsplit, ← ih, trimEnd_cons]
          split
          · simp only [tokens, hc, Bool.false_eq_true, if_false]
          · exact hsplit _

/-- Trimming keeps the tokens of a text. -/
theorem tokens_trim (cs : List Char) : tokens (trim cs) = tokens cs := by
  rw [trim, tokens_trimEnd, tokens_trimStart]

/-- A text that starts and ends with a character that is not blank is not changed by trimming. -/
theorem trim_eq_self {cs : List Char} (hhead : ∀ c ∈ cs.head?, isBlank c = false)
    (hlast : ∀ c ∈ cs.getLast?, isBlank c = false) : trim cs = cs := by
  have hstart : trimStart cs = cs := by
    cases cs with
    | nil => rfl
    | cons c cs => exact trimStart_of_not_blank (hhead c rfl)
  rw [trim, hstart, trimEnd]
  have hrev : cs.reverse.dropWhile isBlank = cs.reverse := by
    cases hr : cs.reverse with
    | nil => rfl
    | cons c rs =>
      have hc : isBlank c = false := hlast c (by
        rw [← List.head?_reverse, hr]
        rfl)
      exact List.dropWhile_cons_of_neg (by simp [hc])
  rw [hrev, List.reverse_reverse]

/-- A token ends with a character that is not blank. -/
theorem IsToken.not_blank_getLast {w : List Char} (hw : IsToken w) :
    ∀ c ∈ w.getLast?, isBlank c = false := by
  intro c hc
  exact hw.not_blank c (List.mem_of_getLast? hc)

theorem IsToken.not_blank_head {w : List Char} (hw : IsToken w) :
    ∀ c ∈ w.head?, isBlank c = false := by
  intro c hc
  exact hw.not_blank c (List.mem_of_head? hc)

/-- A line of words ends with the end of a word. -/
theorem not_blank_getLast_spaced {w : List Char} {ws : List (List Char)} (hw : IsToken w)
    (hws : ∀ v ∈ ws, IsToken v) : ∀ c ∈ (w ++ spaced ws).getLast?, isBlank c = false := by
  induction ws generalizing w with
  | nil => simpa [spaced] using hw.not_blank_getLast
  | cons v ws ih =>
    have hv : IsToken v := hws v (by simp)
    -- the end of the line is that of the words behind, of which there is at least one
    have hsplit : w ++ spaced (v :: ws) = (w ++ [' ']) ++ (v ++ spaced ws) := by simp [spaced]
    obtain ⟨d, hd⟩ : ∃ d, (v ++ spaced ws).getLast? = some d :=
      ⟨_, List.getLast?_eq_some_getLast (by simp [hv.ne_nil])⟩
    have hrest := ih hv fun x hx => hws x (List.mem_cons_of_mem v hx)
    rw [hsplit, List.getLast?_append, hd]
    rw [hd] at hrest
    exact hrest

/-- A line of words is trimmed already. -/
theorem trim_spaced {w : List Char} {ws : List (List Char)} (hw : IsToken w)
    (hws : ∀ v ∈ ws, IsToken v) : trim (w ++ spaced ws) = w ++ spaced ws := by
  refine trim_eq_self ?_ (not_blank_getLast_spaced hw hws)
  obtain ⟨d, hd⟩ : ∃ d, w.head? = some d := ⟨_, List.head?_eq_some_head hw.ne_nil⟩
  have hhead := hw.not_blank_head
  rw [List.head?_append, hd]
  rw [hd] at hhead
  exact hhead

end Embroidery
