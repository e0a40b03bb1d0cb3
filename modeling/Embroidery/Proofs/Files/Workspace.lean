/-
  What writing to a tree of files does, and what it leaves alone.

  To follow a path depends on where there are folders and on nothing else (`SameFolders.locate`,
  `SameFolders.writeTarget`), and files come and go without any folder changing
  (`sameFolders_place_file`, `sameFolders_clear`).  So a path keeps leading where it led.  Where a
  path can be written to, it can be read from afterwards, and the content is what was written
  (`read_write`).

  A fresh file gets a name that is not in use, since there are more candidates than entries
  (`entryAt_freshName`), and its path leads to where it was put (`exists_makeFresh`).
-/
import Embroidery.Files.Workspace
import Embroidery.Proofs.Number.Whole
import Embroidery.Proofs.Results

namespace Embroidery

/-! ## Paths inside folders -/

/-- A name of something in a folder. -/
structure IsName (name : String) : Prop where
  ne_empty : name ≠ ""
  ne_dot : name ≠ "."
  ne_dots : name ≠ ".."
  no_slash : '/' ∉ name.toList

namespace Path

theorem cutSlashes_ne_nil (cs : List Char) : cutSlashes cs ≠ [] := by
  cases cs with
  | nil => exact List.cons_ne_nil _ _
  | cons c cs =>
    rw [cutSlashes]
    split
    · exact List.cons_ne_nil _ _
    · split
      · exact List.cons_ne_nil _ _
      · exact List.cons_ne_nil _ _

theorem cutSlashes_append (as bs : List Char) :
    cutSlashes (as ++ '/' :: bs) = cutSlashes as ++ cutSlashes bs := by
  induction as with
  | nil => rfl
  | cons a as ih =>
    rw [List.cons_append, cutSlashes, cutSlashes, ih]
    split
    · rfl
    · cases h : cutSlashes as with
      | nil => exact absurd h (cutSlashes_ne_nil as)
      | cons piece pieces => rfl

theorem cutSlashes_of_not_mem {cs : List Char} (h : '/' ∉ cs) : cutSlashes cs = [cs] := by
  induction cs with
  | nil => rfl
  | cons c cs ih =>
    have hc : c ≠ '/' := fun heq => h (heq ▸ List.mem_cons_self)
    have hcs : '/' ∉ cs := fun hmem => h (List.mem_cons_of_mem c hmem)
    rw [cutSlashes, if_neg hc, ih hcs]

theorem cutAtLastDot_append {before after : List Char} (hbefore : before ≠ [])
    (hafter : '.' ∉ after) : cutAtLastDot (before ++ '.' :: after) = some (before, after) := by
  have hreverse : (before ++ '.' :: after).reverse = after.reverse ++ '.' :: before.reverse := by
    rw [List.reverse_append, List.reverse_cons, List.append_assoc]
    rfl
  have hrun : ∀ c ∈ after.reverse, decide (c ≠ '.') = true := by
    intro c hc
    refine decide_eq_true ?_
    rintro rfl
    exact hafter (List.mem_reverse.1 hc)
  rw [cutAtLastDot, hreverse, List.dropWhile_append_of_pos hrun, List.takeWhile_append_of_pos hrun,
    List.dropWhile_cons_of_neg (by simp), List.takeWhile_cons_of_neg (by simp)]
  dsimp only
  rw [if_neg, List.reverse_reverse, List.append_nil, List.reverse_reverse]
  rw [List.isEmpty_iff, List.reverse_eq_nil_iff]
  exact hbefore

section
variable {folder : Path} {name : String}

theorem toList_inside (folder : Path) (name : String) : (folder.inside name).text.toList =
    if folder.text = "" then name.toList else folder.text.toList ++ '/' :: name.toList := by
  unfold inside
  split
  · rfl
  · show (folder.text ++ "/" ++ name).toList = _
    rw [String.toList_append, String.toList_append, List.append_assoc]
    rfl

/-- The name is the last piece of a path inside a folder. -/
theorem pieces_inside (hname : IsName name) :
    (folder.inside name).pieces = if folder.text = "" then [name] else folder.pieces ++ [name] := by
  rw [pieces, toList_inside]
  split
  · rw [cutSlashes_of_not_mem hname.no_slash, List.map_singleton, String.ofList_toList]
  · rw [cutSlashes_append, cutSlashes_of_not_mem hname.no_slash, List.map_append,
      List.map_singleton, String.ofList_toList]
    rfl

theorem steps_inside (hname : IsName name) :
    (folder.inside name).steps = folder.steps ++ [name] := by
  have hkept : [name].filter (· ≠ "") = [name] :=
    List.filter_cons_of_pos (decide_eq_true hname.ne_empty)
  unfold steps
  rw [pieces_inside hname]
  split
  · next htext =>
    rw [hkept, pieces, htext]
    rfl
  · rw [List.filter_append, hkept]

theorem endsInSlash_inside (hname : IsName name) : (folder.inside name).endsInSlash = false := by
  have hlast : (folder.inside name).pieces.getLast? = some name := by
    rw [pieces_inside hname]
    split
    · rfl
    · exact List.getLast?_concat
  rw [endsInSlash, hlast]
  exact decide_eq_false fun h => hname.ne_empty (Option.some.inj h)

theorem text_inside_ne (hname : IsName name) : (folder.inside name).text ≠ "" := by
  intro h
  have hchars := toList_inside folder name
  rw [h] at hchars
  split at hchars
  · exact hname.ne_empty (String.toList_eq_nil_iff.1 hchars.symm)
  · exact List.append_ne_nil_of_right_ne_nil _ (List.cons_ne_nil _ _) hchars.symm

/-- A path inside a folder starts where that of the folder does. -/
theorem isAbsolute_inside (hname : IsName name) :
    (folder.inside name).isAbsolute = folder.isAbsolute := by
  rw [isAbsolute, isAbsolute, toList_inside]
  split
  · next htext =>
    have hhead : name.toList.head? ≠ some '/' := by
      intro h
      exact hname.no_slash (List.mem_of_mem_head? h)
    rw [htext, decide_eq_false hhead]
    rfl
  · next htext =>
    cases hchars : folder.text.toList with
    | nil => exact absurd (String.toList_eq_nil_iff.1 hchars) htext
    | cons c cs => rfl

end
end Path

namespace Workspace

variable {w w' : Workspace} {loc other : Location} {p : Path}

/-! ## The tree -/

theorem entryAt_clear (hloc : loc ≠ []) (other : Location) :
    (w.clear loc).entryAt other = if other = loc then none else w.entryAt other := by
  unfold entryAt clear
  by_cases hother : other = loc
  · rw [if_neg (hother ▸ hloc), if_pos hother, List.find?_filter]
    refine congrArg (Option.map Prod.snd) (List.find?_eq_none.2 fun e _ => ?_)
    simp [hother]
  · rw [if_neg hother, List.find?_filter]
    split
    · rfl
    refine congrArg (fun test => (w.entries.find? test).map Prod.snd) (funext fun e => ?_)
    by_cases he : e.1 = other
    · simp [he, hother]
    · simp [he]

theorem entryAt_place (hloc : loc ≠ []) (entry : Entry) (other : Location) :
    (w.place loc entry).entryAt other = if other = loc then some entry else w.entryAt other := by
  by_cases hother : other = loc
  · unfold entryAt place
    rw [if_neg (hother ▸ hloc), if_pos hother, List.find?_cons_of_pos (by simp [hother])]
    rfl
  · have hclear := entryAt_clear (w := w) hloc other
    rw [if_neg hother] at hclear ⊢
    rw [← hclear]
    unfold entryAt place
    rw [List.find?_cons_of_neg (by simp [Ne.symm hother])]

/-- The root is a folder. -/
theorem ne_nil_of_entryAt (h : w.entryAt loc ≠ some .folder) : loc ≠ [] := by
  rintro rfl
  exact h rfl

theorem enter_eq_ok_iff : w.enter loc = .ok other ↔ w.entryAt loc = some .folder ∧ loc = other := by
  unfold enter
  cases w.entryAt loc with
  | none => simp
  | some entry => cases entry <;> simp

/-! ## Steps -/

/-- The location that a step leads to. -/
def stepFrom (loc : Location) (step : String) : Location :=
  if step = "." then loc else if step = ".." then loc.dropLast else loc ++ [step]

theorem follow_cons_eq_ok_iff {step : String} {rest : List String} {last : Location} :
    w.follow (step :: rest) loc = .ok last ↔
      w.entryAt loc = some .folder ∧ w.follow rest (stepFrom loc step) = .ok last := by
  rw [follow]
  cases henter : w.enter loc with
  | error fault =>
    refine ⟨fun h => (nomatch h), fun ⟨hfolder, _⟩ => ?_⟩
    rw [enter_eq_ok_iff.2 ⟨hfolder, rfl⟩] at henter
    exact nomatch henter
  | ok entered =>
    obtain ⟨hfolder, rfl⟩ := enter_eq_ok_iff.1 henter
    exact ⟨fun h => ⟨hfolder, h⟩, fun h => h.2⟩

/-- A path is followed to its last step, from the folder that the others lead to. -/
theorem follow_concat_eq_ok_iff {steps : List String} {step : String} {last : Location} :
    w.follow (steps ++ [step]) loc = .ok last ↔
      ∃ folder, w.follow steps loc = .ok folder ∧ w.entryAt folder = some .folder ∧
        stepFrom folder step = last := by
  induction steps generalizing loc with
  | nil =>
    rw [List.nil_append, follow_cons_eq_ok_iff]
    constructor
    · rintro ⟨hfolder, hlast⟩
      exact ⟨loc, rfl, hfolder, Except.ok.inj hlast⟩
    · rintro ⟨folder, hloc, hfolder, rfl⟩
      obtain rfl := Except.ok.inj hloc
      exact ⟨hfolder, rfl⟩
  | cons first steps ih =>
    rw [List.cons_append, follow_cons_eq_ok_iff, ih]
    constructor
    · rintro ⟨hloc, folder, hsteps, hfolder, hlast⟩
      exact ⟨folder, follow_cons_eq_ok_iff.2 ⟨hloc, hsteps⟩, hfolder, hlast⟩
    · rintro ⟨folder, hsteps, hfolder, hlast⟩
      obtain ⟨hloc, hsteps⟩ := follow_cons_eq_ok_iff.1 hsteps
      exact ⟨hloc, folder, hsteps, hfolder, hlast⟩

theorem locate_eq_ok_iff : w.locate p = .ok loc ↔ p.text ≠ "" ∧
    w.follow (if p.endsInSlash then p.steps ++ ["."] else p.steps) (w.base p) = .ok loc := by
  unfold locate
  split
  · next h => exact ⟨fun h' => (nomatch h'), fun h' => absurd h h'.1⟩
  · next h => exact ⟨fun h' => ⟨h, h'⟩, fun h' => h'.2⟩

/-- The place for something new: a folder, and a name that the last step of the path gives. -/
theorem locateNew_eq_ok_iff {folder : Location} {name : String} :
    w.locateNew p = .ok (folder, some name) ↔
      p.text ≠ "" ∧ name ≠ "." ∧ name ≠ ".." ∧ w.entryAt folder = some .folder ∧
        ∃ steps, p.steps = steps ++ [name] ∧ w.follow steps (w.base p) = .ok folder := by
  unfold locateNew
  split
  · next h => exact ⟨fun h' => (nomatch h'), fun h' => absurd h h'.1⟩
  next htext =>
  constructor
  · intro h
    obtain ⟨reached, hfollow, h⟩ := of_bind_eq_ok h
    obtain ⟨entered, henter, h⟩ := of_bind_eq_ok h
    obtain ⟨hfolder, rfl⟩ := enter_eq_ok_iff.1 henter
    split at h
    · exact nomatch (Prod.mk.inj (Except.ok.inj h)).2
    · next last hlast =>
      obtain ⟨rfl, hname⟩ := Prod.mk.inj (Except.ok.inj h)
      split at hname
      · exact nomatch hname
      · next hdots =>
        obtain rfl := Option.some.inj hname
        obtain ⟨hdot, hdots⟩ := not_or.1 hdots
        obtain ⟨steps, hsteps⟩ := List.getLast?_eq_some_iff.1 hlast
        rw [hsteps, List.dropLast_concat] at hfollow
        exact ⟨htext, hdot, hdots, hfolder, steps, hsteps, hfollow⟩
  · rintro ⟨-, hdot, hdots, hfolder, steps, hsteps, hfollow⟩
    have hnone : ¬(name = "." ∨ name = "..") := not_or.2 ⟨hdot, hdots⟩
    rw [hsteps, List.dropLast_concat, hfollow, List.getLast?_concat]
    show (w.enter folder).bind _ = _
    rw [enter_eq_ok_iff.2 ⟨hfolder, rfl⟩]
    dsimp only [Except.bind]
    rw [if_neg hnone]

/-- What it takes to write to a path. -/
theorem writeTarget_eq_ok_iff : w.writeTarget p = .ok loc ↔
    p.endsInSlash = false ∧ w.entryAt loc ≠ some .folder ∧
      ∃ folder name, w.locateNew p = .ok (folder, some name) ∧ loc = folder ++ [name] := by
  unfold writeTarget
  constructor
  · intro h
    obtain ⟨⟨folder, last⟩, hnew, h⟩ := of_bind_eq_ok h
    cases last with
    | none => exact nomatch h
    | some name =>
      dsimp only at h
      split at h
      · exact nomatch h
      next hslash =>
      split at h
      · exact nomatch h
      next hentry =>
      obtain rfl := Except.ok.inj h
      exact ⟨Bool.eq_false_iff.2 hslash, hentry, folder, name, hnew, rfl⟩
  · rintro ⟨hslash, hentry, folder, name, hnew, rfl⟩
    rw [hnew]
    show (if p.endsInSlash = true then _ else _) = _
    rw [hslash, if_neg Bool.false_ne_true]
    split
    · next hfolder => exact absurd hfolder hentry
    · rfl

/-- What it takes for a path to lead to a folder. -/
theorem locateFolder_eq_ok_iff : w.locateFolder p = .ok loc ↔ w.entryAt loc = some .folder ∧
    (p.text = "" → loc = w.home) ∧ (p.text ≠ "" → w.locate p = .ok loc) := by
  unfold locateFolder
  by_cases htext : p.text = ""
  · rw [if_pos htext]
    show w.enter w.home = .ok loc ↔ _
    rw [enter_eq_ok_iff]
    constructor
    · rintro ⟨hfolder, rfl⟩
      exact ⟨hfolder, fun _ => rfl, fun h => absurd htext h⟩
    · rintro ⟨hfolder, hhome, -⟩
      obtain rfl := hhome htext
      exact ⟨hfolder, rfl⟩
  · rw [if_neg htext]
    show (w.locate p >>= w.enter) = .ok loc ↔ _
    rw [bind_eq_ok_iff]
    constructor
    · rintro ⟨reached, hlocate, henter⟩
      obtain ⟨hfolder, rfl⟩ := enter_eq_ok_iff.1 henter
      exact ⟨hfolder, fun h => absurd h htext, fun _ => hlocate⟩
    · rintro ⟨hfolder, -, hlocate⟩
      exact ⟨loc, hlocate htext, enter_eq_ok_iff.2 ⟨hfolder, rfl⟩⟩

/-! ## Where folders are -/

/-- Both trees have the same folders, and paths start at the same place. -/
structure SameFolders (w w' : Workspace) : Prop where
  home : w.home = w'.home
  folder : ∀ loc, w.entryAt loc = some .folder ↔ w'.entryAt loc = some .folder

namespace SameFolders

theorem refl (w : Workspace) : w.SameFolders w := ⟨rfl, fun _ => Iff.rfl⟩

theorem symm (h : w.SameFolders w') : w'.SameFolders w :=
  ⟨h.home.symm, fun loc => (h.folder loc).symm⟩

theorem trans {w'' : Workspace} (h : w.SameFolders w') (h' : w'.SameFolders w'') :
    w.SameFolders w'' :=
  ⟨h.home.trans h'.home, fun loc => (h.folder loc).trans (h'.folder loc)⟩

theorem base (h : w.SameFolders w') (p : Path) : w.base p = w'.base p := by
  rw [Workspace.base, Workspace.base, h.home]

theorem follow (h : w.SameFolders w') {steps : List String} {last : Location}
    (hfollow : w.follow steps loc = .ok last) : w'.follow steps loc = .ok last := by
  induction steps generalizing loc with
  | nil => exact hfollow
  | cons step rest ih =>
    obtain ⟨hfolder, hrest⟩ := follow_cons_eq_ok_iff.1 hfollow
    exact follow_cons_eq_ok_iff.2 ⟨(h.folder loc).1 hfolder, ih hrest⟩

theorem locate (h : w.SameFolders w') (hlocate : w.locate p = .ok loc) : w'.locate p = .ok loc := by
  obtain ⟨htext, hfollow⟩ := locate_eq_ok_iff.1 hlocate
  rw [h.base] at hfollow
  exact locate_eq_ok_iff.2 ⟨htext, h.follow hfollow⟩

theorem locateNew (h : w.SameFolders w') {folder : Location} {name : String}
    (hnew : w.locateNew p = .ok (folder, some name)) :
    w'.locateNew p = .ok (folder, some name) := by
  obtain ⟨htext, hdot, hdots, hfolder, steps, hsteps, hfollow⟩ := locateNew_eq_ok_iff.1 hnew
  rw [h.base] at hfollow
  exact locateNew_eq_ok_iff.2 ⟨htext, hdot, hdots, (h.folder folder).1 hfolder, steps, hsteps,
    h.follow hfollow⟩

theorem writeTarget (h : w.SameFolders w') (htarget : w.writeTarget p = .ok loc) :
    w'.writeTarget p = .ok loc := by
  obtain ⟨hslash, hentry, folder, name, hnew, hloc⟩ := writeTarget_eq_ok_iff.1 htarget
  exact writeTarget_eq_ok_iff.2 ⟨hslash, fun hfolder => hentry ((h.folder loc).2 hfolder), folder,
    name, h.locateNew hnew, hloc⟩

theorem locateFolder (h : w.SameFolders w') (hfolder : w.locateFolder p = .ok loc) :
    w'.locateFolder p = .ok loc := by
  obtain ⟨hentry, hempty, hlocate⟩ := locateFolder_eq_ok_iff.1 hfolder
  exact locateFolder_eq_ok_iff.2 ⟨(h.folder loc).1 hentry, fun htext => (hempty htext).trans h.home,
    fun htext => h.locate (hlocate htext)⟩

end SameFolders

/-- A file in place of nothing or of a file changes no folder. -/
theorem sameFolders_place_file (hentry : w.entryAt loc ≠ some .folder) (content : ByteArray) :
    (w.place loc (.file content)).SameFolders w := by
  refine ⟨rfl, fun other => ?_⟩
  rw [entryAt_place (ne_nil_of_entryAt hentry)]
  split
  · next hother =>
    subst hother
    exact ⟨fun h => (nomatch h), fun h => absurd h hentry⟩
  · exact Iff.rfl

theorem sameFolders_clear (hentry : w.entryAt loc ≠ some .folder) :
    (w.clear loc).SameFolders w := by
  refine ⟨rfl, fun other => ?_⟩
  rw [entryAt_clear (ne_nil_of_entryAt hentry)]
  split
  · next hother =>
    subst hother
    exact ⟨fun h => (nomatch h), fun h => absurd h hentry⟩
  · exact Iff.rfl

/-! ## Changes in one place -/

/-- The second tree has an entry at a location, or nothing, and is otherwise the first. -/
structure Turns (w w' : Workspace) (loc : Location) (entry : Option Entry) : Prop where
  folders : w'.SameFolders w
  entry : ∀ other, w'.entryAt other = if other = loc then entry else w.entryAt other

theorem Turns.refl {entry : Option Entry} (hentry : w.entryAt loc = entry) :
    w.Turns w loc entry := by
  refine ⟨.refl w, fun other => ?_⟩
  split
  · next hother => rw [hother, hentry]
  · rfl

theorem Turns.here {entry : Option Entry} (h : w.Turns w' loc entry) : w'.entryAt loc = entry := by
  rw [h.entry, if_pos rfl]

theorem Turns.elsewhere {entry : Option Entry} (h : w.Turns w' loc entry) (hother : other ≠ loc) :
    w'.entryAt other = w.entryAt other := by
  rw [h.entry, if_neg hother]

theorem turns_place (hentry : w.entryAt loc ≠ some .folder) (content : ByteArray) :
    w.Turns (w.place loc (.file content)) loc (some (.file content)) :=
  ⟨sameFolders_place_file hentry content, entryAt_place (ne_nil_of_entryAt hentry) _⟩

/-! ## Reading what was written -/

/-- Where a path can be written to is where it leads. -/
theorem locate_of_writeTarget (h : w.writeTarget p = .ok loc) : w.locate p = .ok loc := by
  obtain ⟨hslash, -, folder, name, hnew, rfl⟩ := writeTarget_eq_ok_iff.1 h
  obtain ⟨htext, hdot, hdots, hfolder, steps, hsteps, hfollow⟩ := locateNew_eq_ok_iff.1 hnew
  refine locate_eq_ok_iff.2 ⟨htext, ?_⟩
  rw [hslash, if_neg Bool.false_ne_true, hsteps]
  refine follow_concat_eq_ok_iff.2 ⟨folder, hfollow, hfolder, ?_⟩
  rw [stepFrom, if_neg hdot, if_neg hdots]

theorem entryAt_of_writeTarget (h : w.writeTarget p = .ok loc) : w.entryAt loc ≠ some .folder :=
  (writeTarget_eq_ok_iff.1 h).2.1

/-- What is at a path is what is where it leads. -/
theorem find_eq_ok_iff {entry : Entry} :
    w.find p = .ok entry ↔ ∃ loc, w.locate p = .ok loc ∧ w.entryAt loc = some entry := by
  rw [find, bind_eq_ok_iff]
  refine exists_congr fun loc => and_congr_right fun _ => ?_
  cases w.entryAt loc with
  | none => exact ⟨fun h => (nomatch h), fun h => (nomatch h)⟩
  | some found =>
    exact ⟨fun h => congrArg _ (Except.ok.inj h), fun h => congrArg _ (Option.some.inj h)⟩

/-- A path is read where it leads. -/
theorem read_eq_ok_iff {content : ByteArray} : w.read p = .ok content ↔
    ∃ loc, w.locate p = .ok loc ∧ w.entryAt loc = some (.file content) := by
  rw [← find_eq_ok_iff, read, bind_eq_ok_iff]
  constructor
  · rintro ⟨entry, hfind, hcontent⟩
    cases entry with
    | file found => rw [hfind, Except.ok.inj hcontent]
    | folder => exact nomatch hcontent
  · intro hfind
    exact ⟨_, hfind, rfl⟩

theorem read_of_locate (h : w.locate p = .ok loc) {content : ByteArray}
    (hentry : w.entryAt loc = some (.file content)) : w.read p = .ok content :=
  read_eq_ok_iff.2 ⟨loc, h, hentry⟩

/-- What is written can be read. -/
theorem read_write (h : w.writeTarget p = .ok loc) (content : ByteArray) :
    (w.write p content).2.read p = .ok content := by
  have hentry := entryAt_of_writeTarget h
  rw [write, h]
  refine read_of_locate ((sameFolders_place_file hentry content).symm.locate
    (locate_of_writeTarget h)) ?_
  rw [entryAt_place (ne_nil_of_entryAt hentry), if_pos rfl]

/-- To remove what is no folder leaves nothing at its place and all else alone. -/
theorem remove_file (hlocate : w.locate p = .ok loc) (hentry : w.entryAt loc ≠ some .folder) :
    w.Turns (w.remove p).2 loc none := by
  have hremove : (w.remove p).2 = w ∧ w.entryAt loc = none ∨ (w.remove p).2 = w.clear loc := by
    rw [remove, hlocate]
    dsimp only
    cases h : w.entryAt loc with
    | none => exact .inl ⟨rfl, rfl⟩
    | some entry =>
      cases entry with
      | file content => exact .inr rfl
      | folder => exact absurd h hentry
  rcases hremove with ⟨hsame, hnone⟩ | hclear
  · rw [hsame]
    exact .refl hnone
  · rw [hclear]
    exact ⟨sameFolders_clear hentry, entryAt_clear (ne_nil_of_entryAt hentry)⟩

/-! ## Fresh files -/

/-- A name inside a folder leads to the place for it. -/
theorem locateNew_inside {folder : Path} {name : String} (hfolder : w.locateFolder folder = .ok loc)
    (hname : IsName name) : w.locateNew (folder.inside name) = .ok (loc, some name) := by
  obtain ⟨hentry, hempty, hlocate⟩ := locateFolder_eq_ok_iff.1 hfolder
  refine locateNew_eq_ok_iff.2 ⟨Path.text_inside_ne hname, hname.ne_dot, hname.ne_dots, hentry,
    folder.steps, Path.steps_inside hname, ?_⟩
  rw [base, Path.isAbsolute_inside hname]
  show w.follow folder.steps (w.base folder) = .ok loc
  by_cases htext : folder.text = ""
  · rw [hempty htext, base, Path.isAbsolute, Path.steps, Path.pieces, htext]
    rfl
  · obtain ⟨-, hfollow⟩ := locate_eq_ok_iff.1 (hlocate htext)
    split at hfollow
    · -- a slash at the end takes a further step, on the spot
      obtain ⟨reached, hsteps, -, hlast⟩ := follow_concat_eq_ok_iff.1 hfollow
      rw [stepFrom, if_pos rfl] at hlast
      rw [hsteps, hlast]
    · exact hfollow

theorem toList_freshName (start ending : String) (n : Nat) :
    (freshName start ending n).toList = start.toList ++ naturalChars n ++ ending.toList := by
  rw [freshName, String.toList_append, String.toList_append, String.toList_ofList]

theorem freshName_inj {start ending : String} {m n : Nat}
    (h : freshName start ending m = freshName start ending n) : m = n := by
  have hchars := congrArg String.toList h
  rw [toList_freshName, toList_freshName] at hchars
  have hdigits := List.append_cancel_left (List.append_cancel_right hchars)
  rw [← digitsValue_naturalChars m, hdigits, digitsValue_naturalChars]

theorem entryAt_eq_none (hloc : loc ≠ []) (h : loc ∉ w.entries.map Prod.fst) :
    w.entryAt loc = none := by
  rw [entryAt, if_neg hloc, Option.map_eq_none_iff, List.find?_eq_none]
  intro e he heq
  exact h (of_decide_eq_true heq ▸ List.mem_map_of_mem he)

/-- Nothing has a fresh name: of all candidates, one more than there are entries, not every one can
    be in use. -/
theorem entryAt_freshName (w : Workspace) (folder : Location) (start ending : String) :
    w.entryAt (folder ++ [freshName start ending (w.freshNumber folder start ending)]) = none := by
  unfold freshNumber
  dsimp only
  cases hfind : ((List.range (w.entries.length + 1)).map (w.named + ·)).find? fun n =>
      (w.entryAt (folder ++ [freshName start ending n])).isNone with
  | some n =>
    have hunused := List.find?_some hfind
    exact Option.isNone_iff_eq_none.1 hunused
  | none =>
    exfalso
    have hused := List.find?_eq_none.1 hfind
    have hnodup : (((List.range (w.entries.length + 1)).map (w.named + ·)).map fun n =>
        folder ++ [freshName start ending n]).Nodup := by
      rw [List.map_map]
      refine List.Pairwise.map _ (fun a b hne heq => hne ?_) List.nodup_range
      have hname := List.append_cancel_left heq
      exact Nat.add_left_cancel (freshName_inj (List.cons.inj hname).1)
    have hsubset : (((List.range (w.entries.length + 1)).map (w.named + ·)).map fun n =>
        folder ++ [freshName start ending n]) ⊆ w.entries.map Prod.fst := by
      intro place hplace
      obtain ⟨n, hn, rfl⟩ := List.mem_map.1 hplace
      refine Classical.byContradiction fun hnot => hused n hn ?_
      exact Option.isNone_iff_eq_none.2 (entryAt_eq_none (by simp) hnot)
    have hlength := hnodup.length_le_of_subset hsubset
    rw [List.length_map, List.length_map, List.length_range, List.length_map] at hlength
    exact Nat.not_succ_le_self _ hlength

/-- The second tree is the first with a further file, to which a path leads. -/
structure Adds (w w' : Workspace) (p : Path) (loc : Location) (content : ByteArray) : Prop where
  folders : w'.SameFolders w
  fresh : w.entryAt loc = none
  target : w'.writeTarget p = .ok loc
  entry : ∀ other, w'.entryAt other = if other = loc then some (.file content) else w.entryAt other

/-- Both trees have the same at all locations. -/
structure Alike (w w' : Workspace) : Prop where
  home : w.home = w'.home
  entry : ∀ loc, w.entryAt loc = w'.entryAt loc

theorem Alike.refl (w : Workspace) : w.Alike w := ⟨rfl, fun _ => rfl⟩

theorem Alike.sameFolders (h : w.Alike w') : w.SameFolders w' :=
  ⟨h.home, fun loc => by rw [h.entry]⟩

namespace Adds

variable {content : ByteArray}

theorem read (h : w.Adds w' p loc content) : w'.read p = .ok content := by
  refine read_of_locate (locate_of_writeTarget h.target) ?_
  rw [h.entry, if_pos rfl]

/-- The further file can be written to. -/
theorem write (h : w.Adds w' p loc content) (content' : ByteArray) :
    ∃ w'', w'.write p content' = (.ok (), w'') ∧ w.Adds w'' p loc content' := by
  have hentry := entryAt_of_writeTarget h.target
  have hfolders := sameFolders_place_file hentry content'
  refine ⟨_, by rw [Workspace.write, h.target], hfolders.trans h.folders, h.fresh,
    hfolders.symm.writeTarget h.target, fun other => ?_⟩
  rw [entryAt_place (ne_nil_of_entryAt hentry)]
  split
  · rfl
  · next hother => rw [h.entry, if_neg hother]

/-- When the further file is taken away, the tree is what it was. -/
theorem remove (h : w.Adds w' p loc content) : (w'.remove p).2.Alike w := by
  obtain ⟨hfolders, hentries⟩ :=
    remove_file (locate_of_writeTarget h.target) (entryAt_of_writeTarget h.target)
  refine ⟨(hfolders.trans h.folders).home, fun other => ?_⟩
  rw [hentries]
  split
  · next hother => rw [hother, h.fresh]
  · next hother => rw [h.entry, if_neg hother]

end Adds

/-- A fresh file is where nothing was, and its path leads there. -/
theorem exists_makeFresh {folder : Path} {start ending : String}
    (hname : ∀ n, IsName (freshName start ending n)) (hfolder : w.locateFolder folder = .ok loc) :
    let name := freshName start ending (w.freshNumber loc start ending)
    ∃ w', w.makeFresh folder start ending = (.ok (folder.inside name), w') ∧
      w.Adds w' (folder.inside name) (loc ++ [name]) .empty := by
  intro name
  have hfresh := entryAt_freshName w loc start ending
  have hentry : w.entryAt (loc ++ [name]) ≠ some .folder := fun h => nomatch hfresh.symm.trans h
  have hnew := hname (w.freshNumber loc start ending)
  have htarget := writeTarget_eq_ok_iff.2 ⟨Path.endsInSlash_inside hnew, hentry, loc, _,
    locateNew_inside hfolder hnew, rfl⟩
  obtain ⟨hhome, hfolders⟩ := sameFolders_place_file hentry .empty
  -- that a name was given out changes no entry
  have hplaced : ({ w.place (loc ++ [name]) (.file .empty) with
      named := w.freshNumber loc start ending + 1 } : Workspace).SameFolders w :=
    ⟨hhome, hfolders⟩
  unfold makeFresh
  rw [hfolder]
  exact ⟨_, rfl, hplaced, hfresh, hplaced.symm.writeTarget htarget,
    entryAt_place (ne_nil_of_entryAt hentry) _⟩

/-- Where no folder is to be found, no fresh file is made. -/
theorem makeFresh_of_error {folder : Path} {start ending : String} {fault : FileFault}
    (hfolder : w.locateFolder folder = .error fault) :
    w.makeFresh folder start ending = (.error fault, w) := by
  rw [makeFresh, hfolder]

end Workspace
end Embroidery
