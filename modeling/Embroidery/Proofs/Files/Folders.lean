/-
  The folder of a file that is there.

  To save a file its folder is made where it is missing, and the path of that folder is made from
  components: without slashes that are doubled and dots that lead nowhere.  Such dots may be left
  out of steps (`Workspace.follow_filter_dots`), so the path leads to the folder that the file is in
  (`Workspace.find_parent`).  Where that folder is there, nothing is made
  (`Settings.run_makeFoldersFor`).
-/
import Embroidery.Proofs.Files.Script
import Embroidery.Proofs.Files.Workspace
import Embroidery.Settings.Storage

namespace Embroidery

/-! ## Paths of components -/

namespace Path

/-- Steps that can be joined to a path. -/
def IsTrail (names : List String) : Prop := ∀ name ∈ names, name ≠ "" ∧ '/' ∉ name.toList

variable {p : Path} {names before : List String} {last : String}

theorem not_mem_of_mem_cutSlashes {cs piece : List Char} (h : piece ∈ cutSlashes cs) :
    '/' ∉ piece := by
  induction cs generalizing piece with
  | nil => exact List.mem_singleton.1 h ▸ List.not_mem_nil
  | cons c cs ih =>
    rw [cutSlashes] at h
    split at h
    · rcases List.mem_cons.1 h with rfl | h
      · exact List.not_mem_nil
      · exact ih h
    · next hc =>
      cases hcut : cutSlashes cs with
      | nil => exact absurd hcut (cutSlashes_ne_nil cs)
      | cons first rest =>
        rw [hcut] at h ih
        rcases List.mem_cons.1 h with rfl | h
        · intro hmem
          rcases List.mem_cons.1 hmem with heq | hmem
          · exact hc heq.symm
          · exact ih List.mem_cons_self hmem
        · exact ih (List.mem_cons_of_mem first h)

theorem not_mem_of_mem_pieces {piece : String} (h : piece ∈ p.pieces) : '/' ∉ piece.toList := by
  obtain ⟨cs, hcs, rfl⟩ := List.mem_map.1 h
  rw [String.toList_ofList]
  exact not_mem_of_mem_cutSlashes hcs

theorem root_not_mem_pieces : root ∉ p.pieces :=
  fun h => not_mem_of_mem_pieces h (List.mem_singleton.2 rfl)

theorem pieces_eq (text : String) :
    pieces ⟨text⟩ = (cutSlashes text.toList).map String.ofList := rfl

/-- In front of the root there is nothing. -/
theorem pieces_of_isAbsolute (h : p.isAbsolute = true) : ∃ rest, p.pieces = "" :: rest := by
  rw [pieces]
  cases hchars : p.text.toList with
  | nil =>
    rw [isAbsolute, hchars] at h
    cases h
  | cons c cs =>
    rw [isAbsolute, hchars] at h
    obtain rfl := Option.some.inj (of_decide_eq_true h)
    exact ⟨_, rfl⟩

/-- Steps that are joined are found again. -/
theorem pieces_intercalate (hnames : IsTrail names) (hne : names ≠ []) :
    pieces ⟨String.intercalate "/" names⟩ = names := by
  induction names with
  | nil => exact absurd rfl hne
  | cons name rest ih =>
    obtain ⟨⟨-, hslash⟩, hrest⟩ := List.forall_mem_cons.1 hnames
    cases rest with
    | nil =>
      rw [String.intercalate_singleton, pieces_eq, cutSlashes_of_not_mem hslash, List.map_singleton,
        String.ofList_toList]
    | cons next rest =>
      have hchars : (name ++ "/" ++ String.intercalate "/" (next :: rest)).toList =
          name.toList ++ '/' :: (String.intercalate "/" (next :: rest)).toList := by
        rw [String.toList_append, String.toList_append, List.append_assoc]
        rfl
      rw [String.intercalate_cons_cons, pieces_eq, hchars, cutSlashes_append,
        cutSlashes_of_not_mem hslash, List.map_append, ← pieces_eq,
        ih hrest (List.cons_ne_nil _ _), List.map_singleton, String.ofList_toList]
      rfl

/-- Steps without dots. -/
def IsPlain (names : List String) : Prop := IsTrail names ∧ "." ∉ names

theorem isPlain_meaningful {pieces : List String} (h : ∀ piece ∈ pieces, '/' ∉ piece.toList) :
    IsPlain (meaningful pieces) := by
  constructor
  · intro name hname
    obtain ⟨hmem, hkept⟩ := List.mem_filter.1 hname
    rw [Bool.and_eq_true, decide_eq_true_iff] at hkept
    exact ⟨hkept.1, h name hmem⟩
  · intro hname
    obtain ⟨-, hkept⟩ := List.mem_filter.1 hname
    exact absurd hkept (by decide)

theorem IsPlain.meaningful (h : IsPlain names) : meaningful names = names := by
  refine List.filter_eq_self.2 fun name hname => ?_
  rw [Bool.and_eq_true, decide_eq_true_iff, decide_eq_true_iff]
  exact ⟨(h.1 name hname).1, fun hdot => h.2 (hdot ▸ hname)⟩

theorem IsTrail.filter (h : IsTrail names) : names.filter (· ≠ "") = names :=
  List.filter_eq_self.2 fun name hname => decide_eq_true (h name hname).1

/-- A path from the root is made from its components. -/
theorem ofComponents_root (h : IsPlain names) :
    (ofComponents (root :: names)).isAbsolute = true ∧
      (ofComponents (root :: names)).steps = names ∧
      (ofComponents (root :: names)).components = root :: names := by
  have hpath : ofComponents (root :: names) = ⟨"/" ++ String.intercalate "/" names⟩ := by
    rw [ofComponents, if_pos rfl]
    rfl
  have hchars : ("/" ++ String.intercalate "/" names).toList =
      [] ++ '/' :: (String.intercalate "/" names).toList := by
    rw [String.toList_append]
    rfl
  have habsolute : (ofComponents (root :: names)).isAbsolute = true := by
    rw [hpath, isAbsolute, hchars]
    rfl
  have hpieces : (ofComponents (root :: names)).pieces =
      "" :: pieces ⟨String.intercalate "/" names⟩ := by
    rw [hpath, pieces_eq, hchars, cutSlashes_append, List.map_append, ← pieces_eq]
    rfl
  have hkept : Path.meaningful (ofComponents (root :: names)).pieces = names ∧
      (ofComponents (root :: names)).steps = names := by
    rw [steps, hpieces]
    by_cases hne : names = []
    · subst hne
      exact ⟨by decide +kernel, by decide +kernel⟩
    · rw [pieces_intercalate h.1 hne]
      exact ⟨h.meaningful, h.1.filter⟩
  refine ⟨habsolute, hkept.2, ?_⟩
  rw [components, if_pos habsolute, hkept.1]

/-- A path from home is made from its components. -/
theorem ofComponents_names (h : IsTrail names) (hne : names ≠ []) :
    (ofComponents names).isAbsolute = false ∧ (ofComponents names).steps = names ∧
      (ofComponents names).pieces = names := by
  obtain ⟨name, rest, rfl⟩ := List.exists_cons_of_ne_nil hne
  obtain ⟨⟨hempty, hslash⟩, -⟩ := List.forall_mem_cons.1 h
  have hpath : ofComponents (name :: rest) = ⟨String.intercalate "/" (name :: rest)⟩ := by
    rw [ofComponents, if_neg]
    rintro rfl
    exact hslash (List.mem_singleton.2 rfl)
  have hpieces : (ofComponents (name :: rest)).pieces = name :: rest := by
    rw [hpath, pieces_intercalate h hne]
  refine ⟨?_, ?_, hpieces⟩
  · rw [Bool.eq_false_iff]
    intro habsolute
    obtain ⟨_, hroot⟩ := pieces_of_isAbsolute habsolute
    exact hempty (List.cons.inj (hpieces.symm.trans hroot)).1
  · rw [steps, hpieces, h.filter]

theorem steps_of_pieces (hpieces : p.pieces = before ++ [last]) (hempty : last ≠ "") :
    p.steps = before.filter (· ≠ "") ++ [last] := by
  have hkept : [last].filter (· ≠ "") = [last] :=
    List.filter_cons_of_pos (decide_eq_true hempty)
  rw [steps, hpieces, List.filter_append, hkept]

theorem text_ne_of_isAbsolute (h : p.isAbsolute = true) : p.text ≠ "" := by
  intro htext
  rw [isAbsolute, htext] at h
  cases h

theorem text_ne_of_steps (h : p.steps ≠ []) : p.text ≠ "" := by
  intro htext
  rw [steps, pieces, htext] at h
  exact h rfl

theorem components_of_no_dot (h : p.isAbsolute = false) (hdot : "." ∉ p.pieces) :
    p.components = meaningful p.pieces := by
  rw [components, h, if_neg Bool.false_ne_true]
  split
  · next hpieces => exact absurd (hpieces ▸ List.mem_cons_self) hdot
  · rfl

theorem components_of_dot {rest : List String} (h : p.isAbsolute = false)
    (hpieces : p.pieces = "." :: rest) : p.components = "." :: meaningful rest := by
  rw [components, h, if_neg Bool.false_ne_true, hpieces]
  rfl

/-- The components in front of the last, if that is a name. -/
theorem components_concat (hpieces : p.pieces = before ++ [last]) (hempty : last ≠ "")
    (hdot : last ≠ ".") :
    ∃ front, p.components = front ++ [last] ∧
      (p.isAbsolute = true ∧ front = root :: meaningful before ∨
        p.isAbsolute = false ∧ (front = meaningful before ∨
          ∃ rest, before = "." :: rest ∧ front = "." :: meaningful rest)) := by
  have hlast : meaningful [last] = [last] := by
    refine List.filter_cons_of_pos ?_
    rw [Bool.and_eq_true, decide_eq_true_iff, decide_eq_true_iff]
    exact ⟨hempty, hdot⟩
  have hconcat : ∀ pieces, meaningful (pieces ++ [last]) = meaningful pieces ++ [last] := by
    intro pieces
    show List.filter _ (pieces ++ [last]) = _
    rw [List.filter_append]
    exact congrArg (meaningful pieces ++ ·) hlast
  rw [components, hpieces]
  split
  · next habsolute =>
    exact ⟨root :: meaningful before, congrArg (root :: ·) (hconcat before), .inl ⟨habsolute, rfl⟩⟩
  · next habsolute =>
    rw [Bool.not_eq_true] at habsolute
    split
    · next rest hrest =>
      cases before with
      | nil => exact absurd (List.cons.inj hrest).1 hdot
      | cons first before =>
        obtain ⟨rfl, rfl⟩ := List.cons.inj hrest
        exact ⟨"." :: meaningful before, congrArg ("." :: ·) (hconcat before),
          .inr ⟨habsolute, .inr ⟨before, rfl, rfl⟩⟩⟩
    · exact ⟨meaningful before, hconcat before, .inr ⟨habsolute, .inl rfl⟩⟩

end Path

/-! ## Folders -/

namespace Workspace

variable {w : Workspace} {p : Path} {loc dir : Location} {before : List String} {last : String}

/-- Dots may be left out of steps. -/
theorem follow_filter_dots {steps : List String} (h : w.follow steps loc = .ok dir) :
    w.follow (steps.filter (· ≠ ".")) loc = .ok dir := by
  induction steps generalizing loc with
  | nil => exact h
  | cons step rest ih =>
    obtain ⟨hfolder, hrest⟩ := follow_cons_eq_ok_iff.1 h
    by_cases hdot : step = "."
    · rw [List.filter_cons_of_neg (by simp [hdot])]
      rw [hdot, stepFrom, if_pos rfl] at hrest
      exact ih hrest
    · rw [List.filter_cons_of_pos (by simp [hdot])]
      exact follow_cons_eq_ok_iff.2 ⟨hfolder, ih hrest⟩

theorem follow_meaningful (h : w.follow (before.filter (· ≠ "")) loc = .ok dir) :
    w.follow (Path.meaningful before) loc = .ok dir := by
  have hfilter : Path.meaningful before = (before.filter (· ≠ "")).filter (· ≠ ".") := by
    rw [List.filter_filter]
    exact List.filter_congr fun _ _ => Bool.and_comm _ _
  rw [hfilter]
  exact follow_filter_dots h

theorem find_of_follow (htext : p.text ≠ "") (hfollow : w.follow p.steps (w.base p) = .ok dir)
    (hdir : w.entryAt dir = some .folder) : w.find p = .ok .folder := by
  refine find_eq_ok_iff.2 ⟨dir, locate_eq_ok_iff.2 ⟨htext, ?_⟩, hdir⟩
  split
  · exact follow_concat_eq_ok_iff.2 ⟨dir, hfollow, hdir, if_pos rfl⟩
  · exact hfollow

/-- A slash at the end makes no difference where a folder is. -/
theorem follow_of_find (h : w.find p = .ok .folder) :
    p.text ≠ "" ∧ ∃ dir, w.follow p.steps (w.base p) = .ok dir ∧ w.entryAt dir = some .folder := by
  obtain ⟨loc, hlocate, hfolder⟩ := find_eq_ok_iff.1 h
  obtain ⟨htext, hfollow⟩ := locate_eq_ok_iff.1 hlocate
  split at hfollow
  · obtain ⟨dir, hsteps, hdir, -⟩ := follow_concat_eq_ok_iff.1 hfollow
    exact ⟨htext, dir, hsteps, hdir⟩
  · exact ⟨htext, loc, hfollow, hfolder⟩

/-- A folder that is there is not made again. -/
theorem makeFolder_of_find (h : w.find p = .ok .folder) :
    w.makeFolder p = (.error .alreadyExists, w) := by
  obtain ⟨htext, loc, hfollow, hfolder⟩ := follow_of_find h
  have htarget : w.folderTarget p = .error .alreadyExists := by
    rw [folderTarget, locateNew, if_neg htext]
    rcases List.eq_nil_or_concat p.steps with hsteps | ⟨init, step, hsteps⟩
    · rw [hsteps] at hfollow ⊢
      rw [List.dropLast_nil, hfollow]
      show (w.enter loc).bind _ >>= _ = _
      rw [enter_eq_ok_iff.2 ⟨hfolder, rfl⟩]
      rfl
    · rw [List.concat_eq_append] at hsteps
      rw [hsteps] at hfollow ⊢
      obtain ⟨dir, hinit, hdir, hstep⟩ := follow_concat_eq_ok_iff.1 hfollow
      rw [List.dropLast_concat, hinit, List.getLast?_concat]
      show (w.enter dir).bind _ >>= _ = _
      rw [enter_eq_ok_iff.2 ⟨hdir, rfl⟩]
      dsimp only [Except.bind]
      split
      · rfl
      · next hname =>
        obtain ⟨hdot, hdots⟩ := not_or.1 hname
        rw [stepFrom, if_neg hdot, if_neg hdots] at hstep
        dsimp only [bind, Except.bind]
        rw [hstep, hfolder]
  rw [makeFolder, htarget]

/-- The path of the folder that a name is in leads to that folder. -/
theorem find_parent (hpieces : p.pieces = before ++ [last]) (hempty : last ≠ "") (hdot : last ≠ ".")
    (hfollow : w.follow (before.filter (· ≠ "")) (w.base p) = .ok dir)
    (hdir : w.entryAt dir = some .folder) :
    ∃ front, p.components = front ++ [last] ∧ p.parent = some (.ofComponents front) ∧
      (front = [] ∨ (Path.ofComponents front).components = front ∧
        w.find (.ofComponents front) = .ok .folder) := by
  have hslashes : ∀ piece ∈ before, '/' ∉ piece.toList := by
    intro piece hpiece
    exact Path.not_mem_of_mem_pieces (hpieces ▸ List.mem_append_left [last] hpiece)
  obtain ⟨front, hcomponents, hfront⟩ := Path.components_concat hpieces hempty hdot
  have hparent : p.parent = some (.ofComponents front) := by
    have hroot : last ≠ Path.root := by
      rintro rfl
      exact Path.root_not_mem_pieces (hpieces ▸ List.mem_append_right before List.mem_cons_self)
    rw [Path.parent, hcomponents]
    cases front with
    | nil =>
      dsimp only [List.nil_append]
      rw [if_neg fun h => hroot h.1]
      rfl
    | cons first front =>
      dsimp only [List.cons_append]
      rw [if_neg fun h => List.append_ne_nil_of_right_ne_nil front (List.cons_ne_nil last []) h.2,
        ← List.cons_append, List.dropLast_concat]
  refine ⟨front, hcomponents, hparent, ?_⟩
  have hplain := Path.isPlain_meaningful hslashes
  have hbase : ∀ q : Path, q.isAbsolute = p.isAbsolute → w.base q = w.base p := by
    intro q hq
    rw [base, base, hq]
  rcases hfront with ⟨habsolute, rfl⟩ | ⟨hrelative, rfl | ⟨rest, rfl, rfl⟩⟩
  · obtain ⟨hroot, hsteps, hagain⟩ := Path.ofComponents_root hplain
    refine .inr ⟨hagain, find_of_follow (Path.text_ne_of_isAbsolute hroot) ?_ hdir⟩
    rw [hsteps, hbase _ (hroot.trans habsolute.symm)]
    exact follow_meaningful hfollow
  · by_cases hnil : Path.meaningful before = []
    · exact .inl hnil
    · obtain ⟨hhome, hsteps, hagain⟩ := Path.ofComponents_names hplain.1 hnil
      have htext := Path.text_ne_of_steps (by rw [hsteps]; exact hnil)
      refine .inr ⟨?_, find_of_follow htext ?_ hdir⟩
      · rw [Path.components_of_no_dot hhome (by rw [hagain]; exact hplain.2), hagain,
          hplain.meaningful]
      · rw [hsteps, hbase _ (hhome.trans hrelative.symm)]
        exact follow_meaningful hfollow
  · have hrest := Path.isPlain_meaningful fun piece hpiece =>
      hslashes piece (List.mem_cons_of_mem "." hpiece)
    have htrail : Path.IsTrail ("." :: Path.meaningful rest) :=
      List.forall_mem_cons.2 ⟨⟨by decide, by decide⟩, hrest.1⟩
    obtain ⟨hhome, hsteps, hagain⟩ := Path.ofComponents_names htrail (List.cons_ne_nil _ _)
    have htext := Path.text_ne_of_steps (by rw [hsteps]; exact List.cons_ne_nil _ _)
    refine .inr ⟨?_, find_of_follow htext ?_ hdir⟩
    · rw [Path.components_of_dot hhome hagain, hrest.meaningful]
    · rw [List.filter_cons_of_pos (by decide)] at hfollow
      obtain ⟨hhere, hfollow⟩ := follow_cons_eq_ok_iff.1 hfollow
      rw [hsteps, hbase _ (hhome.trans hrelative.symm)]
      exact follow_cons_eq_ok_iff.2 ⟨hhere, follow_meaningful hfollow⟩

/-! ## Files that are there -/

/-- The path ends in the step that leads from a folder to a file. -/
structure Names (w : Workspace) (p : Path) (before : List String) (last : String)
    (dir : Location) : Prop where
  text : p.text ≠ ""
  pieces : p.pieces = before ++ [last]
  ne_empty : last ≠ ""
  ne_dot : last ≠ "."
  follow : w.follow (before.filter (· ≠ "")) (w.base p) = .ok dir
  folder : w.entryAt dir = some .folder

/-- A path that leads to a file ends in a step to it, which is no dot. -/
theorem exists_names {content : ByteArray} (hlocate : w.locate p = .ok loc)
    (hentry : w.entryAt loc = some (.file content)) :
    ∃ before last dir, w.Names p before last dir ∧ stepFrom dir last = loc := by
  have hfile : w.entryAt loc ≠ some .folder := fun h => nomatch hentry.symm.trans h
  obtain ⟨htext, hfollow⟩ := locate_eq_ok_iff.1 hlocate
  have hslash : ¬p.endsInSlash = true := by
    intro hslash
    rw [if_pos hslash] at hfollow
    obtain ⟨dir, -, hdir, rfl⟩ := follow_concat_eq_ok_iff.1 hfollow
    exact hfile hdir
  rw [if_neg hslash] at hfollow
  have hne : p.pieces ≠ [] := fun h => Path.cutSlashes_ne_nil _ (List.map_eq_nil_iff.1 h)
  obtain ⟨before, last, hpieces⟩ : ∃ before last, p.pieces = before ++ [last] :=
    ⟨_, _, (List.dropLast_concat_getLast hne).symm⟩
  have hempty : last ≠ "" := by
    rintro rfl
    refine hslash ?_
    rw [Path.endsInSlash, hpieces, List.getLast?_concat]
    rfl
  rw [Path.steps_of_pieces hpieces hempty] at hfollow
  obtain ⟨dir, hbefore, hdir, hstep⟩ := follow_concat_eq_ok_iff.1 hfollow
  have hdot : last ≠ "." := by
    rintro rfl
    exact hfile (hstep ▸ hdir)
  exact ⟨before, last, dir, ⟨htext, hpieces, hempty, hdot, hbefore, hdir⟩, hstep⟩

variable {format : SettingsFormat}

/-- The name of a settings file is the last step of its path. -/
theorem Names.fileName (h : w.Names p before last dir)
    (hformat : SettingsFormat.ofPath p = .ok format) : p.fileName = some last ∧ last ≠ ".." := by
  obtain ⟨front, hcomponents, -⟩ :=
    find_parent h.pieces h.ne_empty h.ne_dot h.follow h.folder
  have hname : p.fileName = none ∨ p.fileName = some last ∧ last ≠ ".." := by
    rw [Path.fileName, hcomponents, List.getLast?_concat]
    dsimp only
    split
    · exact .inl rfl
    · next hlast => exact .inr ⟨rfl, fun hdots => hlast (.inr (.inr hdots))⟩
  refine hname.resolve_left fun hnone => ?_
  rw [SettingsFormat.ofPath, Path.extension, hnone] at hformat
  exact nomatch hformat

/-- A settings file that is there can be written to. -/
theorem Names.writeTarget (h : w.Names p before last dir) (hdots : last ≠ "..")
    (hentry : w.entryAt (stepFrom dir last) ≠ some .folder) :
    w.writeTarget p = .ok (stepFrom dir last) := by
  have hslash : p.endsInSlash = false := by
    rw [Path.endsInSlash, h.pieces, List.getLast?_concat]
    exact decide_eq_false fun heq => h.ne_empty (Option.some.inj heq)
  have hstep : stepFrom dir last = dir ++ [last] := by
    rw [stepFrom, if_neg h.ne_dot, if_neg hdots]
  exact writeTarget_eq_ok_iff.2 ⟨hslash, hentry, dir, last, locateNew_eq_ok_iff.2
    ⟨h.text, h.ne_dot, hdots, h.folder, _, Path.steps_of_pieces h.pieces h.ne_empty, h.follow⟩,
    hstep⟩

end Workspace

/-- Where the folder of a file is there, nothing is made for it. -/
theorem Settings.run_makeFoldersFor {w : Workspace} {p : Path} {before : List String}
    {last : String} {dir : Location} (h : w.Names p before last dir) :
    (makeFoldersFor p).run w = (.ok (), w) := by
  obtain ⟨front, -, hparent, hfront⟩ :=
    Workspace.find_parent h.pieces h.ne_empty h.ne_dot h.follow h.folder
  rw [makeFoldersFor, hparent]
  dsimp only
  rcases hfront with rfl | ⟨hcomponents, hfind⟩
  · rfl
  have hlook : (Script.isFolder (.ofComponents front)).run w = (true, w) := by
    rw [Script.isFolder, Script.run_bind, Script.run_look, hfind]
    rfl
  rw [Script.makeFolders, hcomponents]
  cases hreverse : front.reverse with
  | nil => rfl
  | cons c above =>
    have hagain : (c :: above).reverse = front := by rw [← hreverse, List.reverse_reverse]
    rw [Script.makeFoldersFrom, hagain, Script.run_bind, Script.run_makeFolder,
      Workspace.makeFolder_of_find hfind]
    dsimp only
    rw [Script.makeFoldersFrom.orPresent, Script.run_bind, hlook]
    rfl

end Embroidery
