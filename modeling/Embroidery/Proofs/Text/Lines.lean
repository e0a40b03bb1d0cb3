/-
  Texts that are made of lines.

  A text of lines has the line feeds at their ends and those inside them (`count_joinLines`), so it
  is a text of as many lines as were joined only if none of them has a line feed of its own
  (`hasLines_joinLines_iff`).  Such lines are found again when the text is cut, each without a
  carriage return at its end (`linesOf_joinLines`).
-/
import Embroidery.Text.Lines

namespace Embroidery

/-- The text consists of so many lines, each ended by a line feed. -/
def HasLines (count : Nat) (text : String) : Prop :=
  ∃ lines : List String, lines.length = count ∧ (∀ line ∈ lines, '\n' ∉ line.toList) ∧
    text = joinLines lines

/-! ## Joining -/

theorem joinLines_cons (line : String) (lines : List String) :
    joinLines (line :: lines) = line ++ "\n" ++ joinLines lines := by
  rw [joinLines, List.map_cons, String.join_cons]
  rfl

theorem toList_joinLines_cons (line : String) (lines : List String) :
    (joinLines (line :: lines)).toList = line.toList ++ '\n' :: (joinLines lines).toList := by
  rw [joinLines_cons, String.toList_append, String.toList_append, List.append_assoc]
  rfl

/-- Adding lines to a text one by one adds their text. -/
theorem foldl_addLine (text : String) (lines : List String) :
    lines.foldl (fun text line => text ++ line ++ "\n") text = text ++ joinLines lines := by
  induction lines generalizing text with
  | nil => exact String.append_empty.symm
  | cons line rest ih =>
    rw [List.foldl_cons, ih, joinLines_cons, String.append_assoc, String.append_assoc,
      String.append_assoc]

theorem joinLines_concat (lines : List String) (line : String) :
    joinLines (lines ++ [line]) = joinLines lines ++ line ++ "\n" := by
  have hlines := foldl_addLine "" (lines ++ [line])
  rw [List.foldl_append, foldl_addLine "" lines, String.empty_append, String.empty_append] at hlines
  exact hlines.symm

/-- The line feeds of a text of lines are those at the ends and those inside. -/
theorem count_joinLines (lines : List String) :
    (joinLines lines).toList.count '\n' =
      lines.length + (lines.flatMap String.toList).count '\n' := by
  induction lines with
  | nil => rfl
  | cons line rest ih =>
    rw [toList_joinLines_cons, List.count_append, List.count_cons_self, ih, List.flatMap_cons,
      List.count_append, List.length_cons]
    omega

/-- Joined lines are that many lines exactly if none has a line feed inside. -/
theorem hasLines_joinLines_iff (lines : List String) :
    HasLines lines.length (joinLines lines) ↔ ∀ line ∈ lines, '\n' ∉ line.toList := by
  constructor
  · -- two texts of as many lines have as many line feeds inside
    rintro ⟨others, hlength, hothers, hjoin⟩ line hline hmem
    have hnone : (others.flatMap String.toList).count '\n' = 0 := by
      refine List.count_eq_zero.2 ?_
      intro h
      obtain ⟨other, hother, hfeed⟩ := List.mem_flatMap.1 h
      exact hothers other hother hfeed
    have hsome : 0 < (lines.flatMap String.toList).count '\n' :=
      List.count_pos_iff.2 (List.mem_flatMap.2 ⟨line, hline, hmem⟩)
    have hcount := count_joinLines lines
    rw [hjoin, count_joinLines, hlength, hnone] at hcount
    omega
  · intro h
    exact ⟨lines, rfl, h, rfl⟩

/-! ## Cutting -/

theorem beq_of_not_mem {α : Type} [BEq α] [LawfulBEq α] {mark : α} {piece : List α}
    (h : mark ∉ piece) : ∀ x ∈ piece, (x == mark) = false := by
  intro x hx
  refine beq_eq_false_iff_ne.2 ?_
  intro heq
  exact h (heq ▸ hx)

/-- A piece in front of an end mark. -/
theorem cutLines_ended {α : Type} {isEnd : α → Bool} {piece : List α}
    (hpiece : ∀ x ∈ piece, isEnd x = false) {mark : α} (hmark : isEnd mark = true)
    (rest : List α) :
    cutLines isEnd (piece ++ mark :: rest) = (piece, true) :: cutLines isEnd rest := by
  induction piece with
  | nil => exact if_pos hmark
  | cons x piece ih =>
    obtain ⟨hx, hpiece⟩ := List.forall_mem_cons.1 hpiece
    rw [List.cons_append, cutLines, hx, if_neg Bool.false_ne_true, ih hpiece]

/-- A last piece without an end mark. -/
theorem cutLines_unended {α : Type} {isEnd : α → Bool} {piece : List α}
    (hpiece : ∀ x ∈ piece, isEnd x = false) (hne : piece ≠ []) :
    cutLines isEnd piece = [(piece, false)] := by
  induction piece with
  | nil => exact absurd rfl hne
  | cons x piece ih =>
    obtain ⟨hx, hpiece⟩ := List.forall_mem_cons.1 hpiece
    rw [cutLines, hx, if_neg Bool.false_ne_true]
    cases piece with
    | nil => rfl
    | cons y piece => rw [ih hpiece (fun h => nomatch h)]

theorem cutLines_ne_nil {α : Type} (isEnd : α → Bool) {xs : List α} (h : xs ≠ []) :
    cutLines isEnd xs ≠ [] := by
  cases xs with
  | nil => exact absurd rfl h
  | cons x xs =>
    rw [cutLines]
    split
    · exact List.cons_ne_nil _ _
    · split <;> exact List.cons_ne_nil _ _

/-- Behind an end mark the cutting starts afresh. -/
theorem cutLines_append_mark {α : Type} {isEnd : α → Bool} {mark : α} (hmark : isEnd mark = true)
    (xs rest : List α) :
    cutLines isEnd (xs ++ mark :: rest) =
      cutLines isEnd (xs ++ [mark]) ++ cutLines isEnd rest := by
  induction xs with
  | nil =>
    rw [List.nil_append, List.nil_append, cutLines, cutLines, if_pos hmark, if_pos hmark]
    rfl
  | cons x xs ih =>
    rw [List.cons_append, List.cons_append, cutLines, cutLines, ih]
    split
    · rfl
    · cases hcut : cutLines isEnd (xs ++ [mark]) with
      | nil =>
        have hne : xs ++ [mark] ≠ [] := List.append_ne_nil_of_right_ne_nil xs (List.cons_ne_nil _ _)
        exact absurd hcut (cutLines_ne_nil isEnd hne)
      | cons piece pieces => rfl

theorem cutLines_line {line rest : List Char} (h : '\n' ∉ line) :
    cutLines (· == '\n') (line ++ '\n' :: rest) = (line, true) :: cutLines (· == '\n') rest :=
  cutLines_ended (beq_of_not_mem h) rfl rest

theorem dropLastIf_mark {α : Type} {isMark : α → Bool} {mark : α} (h : isMark mark = true)
    (before : List α) : dropLastIf isMark (before ++ [mark]) = before := by
  rw [dropLastIf, List.getLast?_concat]
  dsimp only
  rw [if_pos h, List.dropLast_concat]

theorem dropLastIf_of_ne {α : Type} [BEq α] [LawfulBEq α] {mark : α} {xs : List α}
    (h : xs.getLast? ≠ some mark) : dropLastIf (· == mark) xs = xs := by
  unfold dropLastIf
  split
  · next x hlast =>
    rw [if_neg]
    intro heq
    exact h (hlast.trans (congrArg some (eq_of_beq heq)))
  · rfl

/-- A line as it comes back when a text is cut. -/
def cutLine (line : String) : String := String.ofList (dropLastIf (· == '\r') line.toList)

/-- Joined lines come back when the text is cut. -/
theorem linesOf_joinLines {lines : List String} (h : ∀ line ∈ lines, '\n' ∉ line.toList) :
    linesOf (joinLines lines) = lines.map cutLine := by
  induction lines with
  | nil => rfl
  | cons line rest ih =>
    obtain ⟨hline, hrest⟩ := List.forall_mem_cons.1 h
    have hcut := ih hrest
    rw [linesOf, textLines] at hcut ⊢
    rw [toList_joinLines_cons, cutLines_line hline, List.map_cons, List.map_cons, hcut]
    rfl

/-- The lines of a text behind a first line, whatever line feeds that has inside. -/
theorem linesOf_joinLines_cons (line : String) (lines : List String) :
    linesOf (joinLines (line :: lines)) =
      linesOf (joinLines [line]) ++ linesOf (joinLines lines) := by
  have hempty : joinLines [] = "" := rfl
  rw [linesOf, linesOf, linesOf, textLines, textLines, textLines, toList_joinLines_cons,
    toList_joinLines_cons, hempty, cutLines_append_mark rfl, List.map_append, List.map_append]
  rfl

/-- The first character of a line stays, if it is no carriage return. -/
theorem cutLine_cons {c : Char} (hc : c ≠ '\r') (cs : List Char) :
    ∃ ds, cutLine (String.ofList (c :: cs)) = String.ofList (c :: ds) := by
  rw [cutLine, String.toList_ofList]
  unfold dropLastIf
  split
  · next last hlast =>
    split
    · next hmark =>
      cases cs with
      | nil =>
        have hcr : c = '\r' := (Option.some.inj hlast).trans (eq_of_beq hmark)
        exact absurd hcr hc
      | cons d ds => exact ⟨_, rfl⟩
    · exact ⟨cs, rfl⟩
  · exact ⟨cs, rfl⟩

end Embroidery
