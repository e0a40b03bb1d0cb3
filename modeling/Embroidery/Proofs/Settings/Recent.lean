/-
  Recent patterns as a history of additions.

  Every addition moves a path to the front and cuts the list at its limit.  Read as a history, the
  list is: the paths that were added, each at its latest addition and the newest first, and behind
  them what was there at the start and was never added (`foldl_moveToFront`).

  The limit does no harm on the way.  An addition takes at most one path out of a list without
  duplicates, so what lies beyond the limit before it lies beyond the limit after it
  (`take_filter_take`, `take_moveToFront_take`); hence cutting at every step is cutting once at the
  end (`recentFiles_foldl`).
-/
import Embroidery.Settings.Basic

namespace Embroidery

/-- No path stands twice in a list, however it is written. -/
def Path.Distinct (paths : List Path) : Prop := paths.Pairwise fun p q => p.same q = false

/-- The paths of a history of additions, each at its latest addition, the newest first. -/
def latestFirst : List Path → List Path
  | [] => []
  | p :: later => if later.any p.same then latestFirst later else latestFirst later ++ [p]

variable {p q r : Path} {paths : List Path}

/-! ## The same path -/

namespace Path

theorem same_iff : p.same q = true ↔ p.components = q.components := decide_eq_true_iff

theorem same_comm (p q : Path) : p.same q = q.same p := by
  rw [Bool.eq_iff_iff, same_iff, same_iff]
  exact eq_comm

theorem same_trans (hpq : p.same q = true) (hqr : q.same r = true) : p.same r = true := by
  rw [same_iff] at hpq hqr ⊢
  exact hpq.trans hqr

theorem Distinct.filter (h : Distinct paths) (test : Path → Bool) :
    Distinct (paths.filter test) := List.Pairwise.filter test h

theorem Distinct.take (h : Distinct paths) (n : Nat) : Distinct (paths.take n) :=
  List.Pairwise.sublist (List.take_sublist n paths) h

/-- Nothing behind the first of distinct paths is the same as something that is the same as it. -/
theorem Distinct.filter_tail (h : Distinct (q :: paths)) (hq : q.same p = true) :
    paths.filter (fun r => !r.same p) = paths := by
  rw [List.filter_eq_self]
  intro r hr
  have hqr : q.same r = false := List.rel_of_pairwise_cons h hr
  rw [Bool.not_eq_true', Bool.eq_false_iff]
  intro hrp
  rw [same_comm] at hrp
  exact absurd (same_trans hq hrp) (by simp [hqr])

end Path

/-! ## Moving to the front -/

namespace Settings

open Embroidery.Path (Distinct)

theorem distinct_moveToFront (h : Distinct paths) (p : Path) : Distinct (moveToFront p paths) := by
  refine List.Pairwise.cons ?_ (h.filter _)
  intro q hq
  have hkept := (List.mem_filter.1 hq).2
  rw [Bool.not_eq_true'] at hkept
  rw [Path.same_comm, hkept]

/-- Of distinct paths at most one is taken out, so it does not matter if the list was cut one
    further on before. -/
theorem take_filter_take (h : Distinct paths) (p : Path) (n : Nat) :
    ((paths.take (n + 1)).filter fun q => !q.same p).take n =
      (paths.filter fun q => !q.same p).take n := by
  induction paths generalizing n with
  | nil => rfl
  | cons q rest ih =>
    have hrest : Distinct rest := List.Pairwise.of_cons h
    rw [List.take_succ_cons]
    cases hq : q.same p with
    | true =>
      -- the path is found here, and nothing behind it is taken out
      have hcut : Distinct (q :: rest.take n) := h.take (n + 1)
      rw [List.filter_cons_of_neg (by simp [hq]), List.filter_cons_of_neg (by simp [hq]),
        hcut.filter_tail hq, h.filter_tail hq, List.take_take, Nat.min_self]
    | false =>
      rw [List.filter_cons_of_pos (by simp [hq]), List.filter_cons_of_pos (by simp [hq])]
      cases n with
      | zero => rfl
      | succ n => rw [List.take_succ_cons, List.take_succ_cons, ih hrest n]

theorem take_moveToFront_take (h : Distinct paths) (p : Path) (n : Nat) :
    (moveToFront p (paths.take (n + 1))).take (n + 1) = (moveToFront p paths).take (n + 1) := by
  rw [moveToFront, moveToFront, List.take_succ_cons, List.take_succ_cons, take_filter_take h]

/-! ## Histories -/

/-- The list behind a history, if nothing is ever cut. -/
def moveAllToFront (added paths : List Path) : List Path :=
  added.foldl (fun paths p => moveToFront p paths) paths

theorem distinct_moveAllToFront (h : Distinct paths) (added : List Path) :
    Distinct (moveAllToFront added paths) := by
  induction added generalizing paths with
  | nil => exact h
  | cons p later ih => exact ih (distinct_moveToFront h p)

/-- Two lists that agree up to the limit agree up to it behind an addition. -/
theorem take_moveToFront_congr {paths' : List Path} (h : Distinct paths) (h' : Distinct paths')
    {n : Nat} (heq : paths.take (n + 1) = paths'.take (n + 1)) (p : Path) :
    (moveToFront p paths).take (n + 1) = (moveToFront p paths').take (n + 1) := by
  rw [← take_moveToFront_take h, heq, take_moveToFront_take h']

/-- Cutting at every addition is cutting once, behind the last one. -/
theorem take_recentFiles_foldl {s : Settings} (hs : Distinct s.recentFiles) (h : Distinct paths)
    (heq : s.recentFiles.take recentLimit = paths.take recentLimit) (added : List Path) :
    (added.foldl addRecent s).recentFiles.take recentLimit =
      (moveAllToFront added paths).take recentLimit := by
  induction added generalizing s paths with
  | nil => exact heq
  | cons p later ih =>
    have hdistinct := distinct_moveToFront hs p
    refine ih (s := s.addRecent p) (hdistinct.take recentLimit) (distinct_moveToFront h p) ?_
    show ((moveToFront p s.recentFiles).take recentLimit).take recentLimit = _
    rw [List.take_take, Nat.min_self]
    exact take_moveToFront_congr hs h heq p

theorem length_recentFiles_addRecent (s : Settings) (p : Path) :
    (s.addRecent p).recentFiles.length ≤ recentLimit := List.length_take_le _ _

theorem length_recentFiles_foldl {s : Settings} {added : List Path}
    (hs : s.recentFiles.length ≤ recentLimit) :
    (added.foldl addRecent s).recentFiles.length ≤ recentLimit := by
  induction added generalizing s with
  | nil => exact hs
  | cons p later ih => exact ih (length_recentFiles_addRecent s p)

theorem recentFiles_foldl {s : Settings} (hs : Distinct s.recentFiles) {added : List Path}
    (hadded : added ≠ []) :
    (added.foldl addRecent s).recentFiles =
      (moveAllToFront added s.recentFiles).take recentLimit := by
  obtain ⟨p, later, rfl⟩ := List.exists_cons_of_ne_nil hadded
  have hlength : (later.foldl addRecent (s.addRecent p)).recentFiles.length ≤ recentLimit :=
    length_recentFiles_foldl (length_recentFiles_addRecent s p)
  rw [← take_recentFiles_foldl hs hs rfl, List.foldl_cons, List.take_of_length_le hlength]

theorem foldl_addRecent_fields (s : Settings) (added : List Path) :
    added.foldl addRecent s = { s with recentFiles := (added.foldl addRecent s).recentFiles } := by
  induction added generalizing s with
  | nil => rfl
  | cons p later ih => exact ih (s.addRecent p)

/-! ## What a history leaves -/

/-- One more addition comes first, and its path is taken out behind. -/
theorem latestFirst_concat (added : List Path) (p : Path) :
    latestFirst (added ++ [p]) = moveToFront p (latestFirst added) := by
  induction added with
  | nil => rfl
  | cons q later ih =>
    rw [List.cons_append, latestFirst, latestFirst, ih, List.any_append]
    cases hlater : later.any q.same with
    | true => rfl
    | false =>
      cases hq : q.same p with
      | true => simp [moveToFront, hq]
      | false => simp [moveToFront, hq]

theorem foldl_moveToFront (added paths : List Path) :
    moveAllToFront added paths =
      latestFirst added ++ paths.filter fun q => !added.any q.same := by
  induction h : added.reverse generalizing added with
  | nil =>
    obtain rfl := List.reverse_eq_nil_iff.1 h
    exact (List.filter_eq_self.2 fun _ _ => rfl).symm
  | cons p earlier ih =>
    obtain rfl : added = earlier.reverse ++ [p] := List.reverse_eq_cons_iff.1 h
    have hearlier := ih earlier.reverse (List.reverse_reverse earlier)
    rw [moveAllToFront] at hearlier ⊢
    rw [List.foldl_append, hearlier, List.foldl_cons, List.foldl_nil, latestFirst_concat,
      moveToFront, moveToFront, List.filter_append, List.filter_filter, List.cons_append]
    refine congrArg (fun rest => p :: (_ ++ rest)) (List.filter_congr fun q _ => ?_)
    simp [List.any_append, Bool.and_comm]

/-- **Recent patterns.**  Behind a history of additions the recent patterns are the first ten of
    this list: the paths that were added, each at its latest addition and the newest first, and
    then those from the start that were never added, in their order.  There are no duplicates among
    them, and they are the first ten of what there would be if nothing had been cut on the way.
    Nothing else of the settings changes. -/
theorem recent_after_additions {s : Settings} {added : List Path} (hs : Distinct s.recentFiles)
    (hadded : added ≠ []) :
    let recent := (added.foldl addRecent s).recentFiles
    added.foldl addRecent s = { s with recentFiles := recent } ∧
      recent = (latestFirst added ++ s.recentFiles.filter fun q => !added.any q.same).take 10 ∧
      recent = (added.foldl (fun paths p => moveToFront p paths) s.recentFiles).take 10 ∧
      Distinct recent ∧ recent.length ≤ 10 := by
  intro recent
  have hrecent : recent = (moveAllToFront added s.recentFiles).take 10 :=
    recentFiles_foldl hs hadded
  refine ⟨foldl_addRecent_fields s added, ?_, hrecent, ?_, ?_⟩
  · rw [hrecent, foldl_moveToFront]
  · rw [hrecent]
    exact (distinct_moveAllToFront hs added).take 10
  · rw [hrecent]
    exact List.length_take_le 10 _

/-- Of twelve patterns the last three are lost when one of them and a new one are added, the new
    one under two spellings. -/
theorem recent_after_three_additions :
    let s : Settings :=
      { recentFiles := ["a", "b", "c", "d", "e", "f", "g", "h", "i", "j", "k", "l"].map Path.mk }
    let added : List Path := [⟨"x/y"⟩, ⟨"l"⟩, ⟨"x//y"⟩]
    Distinct s.recentFiles ∧ added ≠ [] ∧
      (added.foldl addRecent s).recentFiles =
        ["x//y", "l", "a", "b", "c", "d", "e", "f", "g", "h"].map Path.mk := by
  intro s added
  have hs : Distinct s.recentFiles := by
    show List.Pairwise _ _
    decide +kernel
  have hadded : added ≠ [] := List.cons_ne_nil _ _
  obtain ⟨-, hrecent, -⟩ := recent_after_additions hs hadded
  refine ⟨hs, hadded, hrecent.trans ?_⟩
  decide +kernel

end Settings
end Embroidery
