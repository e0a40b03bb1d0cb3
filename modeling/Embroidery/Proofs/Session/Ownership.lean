/-
  Who owns the files of artifacts.

  Any number of artifacts are handled in any order (`Handling`).  Beside them runs a record of each:
  in what hands its file is, and the lines that it was given (`Record`).  The invariant is that the
  records are right (`Bench.Sound`): every artifact that has a file has one of its own, where
  nothing was at the start, with all its lines in it once it is finished; and apart from these files
  and from copies nothing has changed.

  What an operation does to one artifact it does at the place of that artifact only, so a single
  record is exchanged (`Bench.Sound.exchange`) and the others are kept (`Bench.Sound.keeps_frame`).
  A new file is put where nothing is (`Bench.Sound.add`), and a copy where no artifact is
  (`Bench.Sound.copy`).
-/
import Embroidery.Proofs.Session.Production

namespace Embroidery

/-! ## Artifacts one by one -/

section
variable {w w' : Workspace} {loc out : Location} {content : ByteArray}

/-- A tree is what it would be without one of its files, and that file. -/
theorem Workspace.adds_of_entry {p : Path} (htarget : w.writeTarget p = .ok loc)
    (hentry : w.entryAt loc = some (.file content)) : (w.clear loc).Adds w p loc content := by
  have hcleared := Workspace.entryAt_clear (w := w)
    (Workspace.ne_nil_of_entryAt (Workspace.entryAt_of_writeTarget htarget))
  have hfolders := Workspace.sameFolders_clear (Workspace.entryAt_of_writeTarget htarget)
  refine ⟨hfolders.symm, ?_, htarget, fun other => ?_⟩
  · rw [hcleared, if_pos rfl]
  · rw [hcleared]
    split
    · next hother => rw [hother, hentry]
    · rfl

/-- An artifact that is finished has its lines in its file, and no other file changes. -/
theorem OpenArtifact.finish_turns {a : OpenArtifact} (htarget : w.writeTarget a.path = .ok loc)
    (hentry : w.entryAt loc = some (.file content)) :
    ∃ w', a.finish.run w = (.ok ⟨a.path⟩, w') ∧
      w.Turns w' loc (some (.file a.written.toUTF8)) := by
  have hadds := Workspace.adds_of_entry htarget hentry
  obtain ⟨w', hrun, hadds'⟩ := OpenArtifact.run_finish hadds
  refine ⟨w', hrun, hadds'.folders.trans hadds.folders.symm, fun other => ?_⟩
  rw [hadds'.entry, hadds.entry]
  split
  · rfl
  · rfl

/-- An artifact that is dropped takes its file along, and no other. -/
theorem OpenArtifact.drop_turns {a : OpenArtifact} (htarget : w.writeTarget a.path = .ok loc) :
    w.Turns (a.drop.run w).2 loc none := by
  rw [run_drop]
  exact Workspace.remove_file (Workspace.locate_of_writeTarget htarget)
    (Workspace.entryAt_of_writeTarget htarget)

namespace FinishedArtifact

theorem drop_turns {f : FinishedArtifact} (htarget : w.writeTarget f.path = .ok loc) :
    w.Turns (f.drop.run w).2 loc none := by
  rw [run_drop]
  exact Workspace.remove_file (Workspace.locate_of_writeTarget htarget)
    (Workspace.entryAt_of_writeTarget htarget)

end FinishedArtifact
end

/-! ## Artifacts side by side -/

/-- In what hands the file of an artifact is. -/
inductive Holding where
  | opened (a : OpenArtifact)
  | finished (f : FinishedArtifact)
  /-- The file was given away, by its path. -/
  | released (path : Path)
  | dropped
deriving DecidableEq

/-- An artifact, and the lines that were written to it. -/
structure Record where
  holding : Holding
  lines : List String
deriving DecidableEq

/-- What is done with artifacts, which are counted in the order of their making. -/
inductive Handling where
  | create (folder : Path)
  | addLine (i : Nat) (line : String)
  | finish (i : Nat)
  | exportTo (i : Nat) (target : Path)
  | giveAway (i : Nat)
  | drop (i : Nat)

/-- Files, the artifacts that were made so far, and where copies of artifacts were put. -/
structure Bench where
  files : Workspace
  records : List Record
  copies : List Location

namespace Record

/-- The path of the file, as long as there is a file. -/
def path (r : Record) : Option Path :=
  match r.holding with
  | .opened a => some a.path
  | .finished f => some f.path
  | .released path => some path
  | .dropped => none

/-- Where the file is. -/
def place (w : Workspace) (r : Record) : Option Location :=
  r.path.bind fun p => (w.writeTarget p).toOption

/-- The file holds the lines, each ended by a line feed, once the artifact is finished.  How many of
    them are in the file before is left open. -/
def MayHold (r : Record) (content : ByteArray) : Prop :=
  match r.holding with
  | .opened _ => True
  | _ => content = (joinLines r.lines).toUTF8

/-- An artifact that takes lines has counted those it was given. -/
def Tallies (r : Record) : Prop :=
  ∀ a, r.holding = .opened a → a.written = joinLines r.lines ∧ a.lineCount = r.lines.length

end Record

namespace Bench

/-- A bench without artifacts. -/
def clear (w : Workspace) : Bench := ⟨w, [], []⟩

/-- Where the file of an artifact is. -/
def place (b : Bench) (i : Nat) : Option Location := b.records[i]?.bind (Record.place b.files)

/-- Where there are files of artifacts. -/
def places (b : Bench) : List Location := b.records.filterMap (Record.place b.files)

/-- The bench with a further record and other files. -/
def add (b : Bench) (r : Record) (files : Workspace) : Bench :=
  { b with files, records := b.records ++ [r] }

/-- The bench with another record in place of one, and other files. -/
def exchange (b : Bench) (i : Nat) (r : Record) (files : Workspace) : Bench :=
  { b with files, records := b.records.set i r }

/-- The bench with further copies and other files. -/
def withCopies (b : Bench) (places : List Location) (files : Workspace) : Bench :=
  { b with files, copies := places ++ b.copies }

/-- The bench behind an operation.  What is asked of an artifact that is not there for it, is not
    done. -/
def next (b : Bench) : Handling → Bench
  | .create folder =>
    match (OpenArtifact.create folder).run b.files with
    | (.ok a, files) => b.add ⟨.opened a, []⟩ files
    | (.error _, files) => { b with files }
  | .addLine i line =>
    match b.records[i]? with
    | some ⟨.opened a, lines⟩ => b.exchange i ⟨.opened (a.addLine line), lines ++ [line]⟩ b.files
    | _ => b
  | .finish i =>
    match b.records[i]? with
    | some ⟨.opened a, lines⟩ =>
      match a.finish.run b.files with
      | (.ok f, files) => b.exchange i ⟨.finished f, lines⟩ files
      | (.error _, files) => b.exchange i ⟨.dropped, lines⟩ files
    | _ => b
  | .exportTo i target =>
    match b.records[i]? with
    | some ⟨.finished f, _⟩ =>
      b.withCopies (b.files.writeTarget target).toOption.toList ((f.exportTo target).run b.files).2
    | _ => b
  | .giveAway i =>
    match b.records[i]? with
    | some ⟨.finished f, lines⟩ =>
      let (path, files) := f.giveAway.run b.files
      b.exchange i ⟨.released path, lines⟩ files
    | _ => b
  | .drop i =>
    match b.records[i]? with
    | some ⟨.opened a, lines⟩ => b.exchange i ⟨.dropped, lines⟩ (a.drop.run b.files).2
    | some ⟨.finished f, lines⟩ => b.exchange i ⟨.dropped, lines⟩ (f.drop.run b.files).2
    | _ => b

/-- The bench behind a history. -/
def after (b : Bench) (history : List Handling) : Bench := history.foldl next b

/-- An export goes elsewhere than to the file of an artifact. -/
def Elsewhere (b : Bench) : Handling → Prop
  | .exportTo _ target => ∀ out ∈ (b.files.writeTarget target).toOption, out ∉ b.places
  | _ => True

instance (b : Bench) (op : Handling) : Decidable (b.Elsewhere op) :=
  match op with
  | .exportTo _ target =>
    inferInstanceAs (Decidable (∀ out ∈ (b.files.writeTarget target).toOption, out ∉ b.places))
  | .create _ | .addLine _ _ | .finish _ | .giveAway _ | .drop _ => .isTrue trivial

/-- All exports of a history go elsewhere. -/
def AllElsewhere (b : Bench) : List Handling → Prop
  | [] => True
  | op :: rest => b.Elsewhere op ∧ (b.next op).AllElsewhere rest

instance decidableAllElsewhere (b : Bench) : (history : List Handling) →
    Decidable (b.AllElsewhere history)
  | [] => .isTrue trivial
  | op :: rest =>
    have := decidableAllElsewhere (b.next op) rest
    inferInstanceAs (Decidable (b.Elsewhere op ∧ (b.next op).AllElsewhere rest))

end Bench

/-! ## What holds -/

section
variable {w₀ w w' : Workspace} {copies : List Location} {r r' : Record} {loc out : Location}

/-- An artifact has a file of its own, where nothing was. -/
structure Record.Keeps (w₀ w : Workspace) (copies : List Location) (r : Record)
    (loc : Location) : Prop where
  place : r.place w = some loc
  fresh : w₀.entryAt loc = none
  spared : loc ∉ copies
  content : ∃ content, w.entryAt loc = some (.file content) ∧ r.MayHold content

/-- The records are right. -/
structure Bench.Sound (w₀ : Workspace) (b : Bench) : Prop where
  folders : b.files.SameFolders w₀
  keeps : ∀ (i : Nat) (r : Record), b.records[i]? = some r →
    r.path = none ∨ ∃ loc, r.Keeps w₀ b.files b.copies loc
  tallies : ∀ (i : Nat) (r : Record), b.records[i]? = some r → r.Tallies
  apart : ∀ i j loc, b.place i = some loc → b.place j = some loc → i = j
  copied : ∀ loc ∈ b.copies, ∃ content, b.files.entryAt loc = some (.file content)
  others : ∀ loc, (∀ i, b.place i ≠ some loc) → loc ∉ b.copies →
    b.files.entryAt loc = w₀.entryAt loc

theorem Record.place_eq_some_iff {r : Record} :
    r.place w = some loc ↔ ∃ p, r.path = some p ∧ w.writeTarget p = .ok loc := by
  rw [place, Option.bind_eq_some_iff]
  refine exists_congr fun p => and_congr_right fun _ => ?_
  cases w.writeTarget p with
  | error fault => exact ⟨fun h => (nomatch h), fun h => (nomatch h)⟩
  | ok reached =>
    exact ⟨fun h => congrArg _ (Option.some.inj h), fun h => congrArg _ (Except.ok.inj h)⟩

/-- Files stay in their places as long as no folder changes. -/
theorem Record.place_of_sameFolders (h : w'.SameFolders w) (r : Record) :
    r.place w' = r.place w := by
  refine Option.ext fun loc => ?_
  rw [place_eq_some_iff, place_eq_some_iff]
  exact exists_congr fun p => and_congr_right fun _ => ⟨h.writeTarget, h.symm.writeTarget⟩

theorem Record.Keeps.frame (h : r.Keeps w₀ w copies loc) (hfolders : w'.SameFolders w)
    (hentry : w'.entryAt loc = w.entryAt loc) : r.Keeps w₀ w' copies loc := by
  obtain ⟨hplace, hfresh, hspared, hcontent⟩ := h
  refine ⟨(place_of_sameFolders hfolders r).trans hplace, hfresh, hspared, ?_⟩
  rw [hentry]
  exact hcontent

namespace Bench

variable {b : Bench} {i : Nat}

theorem place_eq_some_iff :
    b.place i = some loc ↔ ∃ r, b.records[i]? = some r ∧ r.place b.files = some loc :=
  Option.bind_eq_some_iff

theorem mem_places_iff : loc ∈ b.places ↔ ∃ i, b.place i = some loc := by
  rw [places, List.mem_filterMap]
  constructor
  · rintro ⟨r, hr, hplace⟩
    obtain ⟨i, hi⟩ := List.mem_iff_getElem?.1 hr
    exact ⟨i, place_eq_some_iff.2 ⟨r, hi, hplace⟩⟩
  · rintro ⟨i, hi⟩
    obtain ⟨r, hr, hplace⟩ := place_eq_some_iff.1 hi
    exact ⟨r, List.mem_iff_getElem?.2 ⟨i, hr⟩, hplace⟩

theorem Sound.of_place (h : b.Sound w₀) (hplace : b.place i = some loc) :
    ∃ r, b.records[i]? = some r ∧ r.Keeps w₀ b.files b.copies loc := by
  obtain ⟨r, hr, hloc⟩ := place_eq_some_iff.1 hplace
  refine ⟨r, hr, ?_⟩
  rcases h.keeps i r hr with hnone | ⟨reached, hkeeps⟩
  · obtain ⟨p, hp, -⟩ := Record.place_eq_some_iff.1 hloc
    exact nomatch hnone.symm.trans hp
  · obtain rfl := Option.some.inj (hkeeps.place.symm.trans hloc)
    exact hkeeps

/-- An artifact that has a path has a file there. -/
theorem Sound.of_path (h : b.Sound w₀) (hr : b.records[i]? = some r) {p : Path}
    (hp : r.path = some p) :
    ∃ loc, b.place i = some loc ∧ b.files.writeTarget p = .ok loc ∧
      r.Keeps w₀ b.files b.copies loc := by
  rcases h.keeps i r hr with hnone | ⟨loc, hkeeps⟩
  · exact nomatch hnone.symm.trans hp
  · obtain ⟨q, hq, htarget⟩ := Record.place_eq_some_iff.1 hkeeps.place
    obtain rfl := Option.some.inj (hp.symm.trans hq)
    exact ⟨loc, place_eq_some_iff.2 ⟨r, hr, hkeeps.place⟩, htarget, hkeeps⟩

/-- An artifact keeps its file as long as nothing changes there. -/
theorem Sound.keeps_frame (h : b.Sound w₀) (hr : b.records[i]? = some r)
    (hfolders : w'.SameFolders b.files)
    (hsame : ∀ loc, b.place i = some loc → w'.entryAt loc = b.files.entryAt loc) :
    r.path = none ∨ ∃ loc, r.Keeps w₀ w' b.copies loc := by
  rcases h.keeps i r hr with hnone | ⟨loc, hkeeps⟩
  · exact .inl hnone
  · have hplace : b.place i = some loc := place_eq_some_iff.2 ⟨r, hr, hkeeps.place⟩
    exact .inr ⟨loc, hkeeps.frame hfolders (hsame loc hplace)⟩

/-- The file at the place of an artifact is that of no other, and no copy. -/
theorem Sound.entryAt_of_turns (h : b.Sound w₀) (hplace : b.place i = some loc)
    {entry : Option Entry} (hturns : b.files.Turns w' loc entry) :
    (∀ j other, b.place j = some other → j ≠ i → w'.entryAt other = b.files.entryAt other) ∧
      ∀ other ∈ b.copies, w'.entryAt other = b.files.entryAt other := by
  constructor
  · intro j other hj hne
    refine hturns.elsewhere ?_
    rintro rfl
    exact hne (h.apart j i other hj hplace)
  · intro other hother
    obtain ⟨r, -, hkeeps⟩ := h.of_place hplace
    refine hturns.elsewhere ?_
    rintro rfl
    exact hkeeps.spared hother

/-! ## Exchanging one record -/

theorem records_exchange (hr : b.records[i]? = some r) (r' : Record) (files : Workspace) (j : Nat) :
    (b.exchange i r' files).records[j]? = if j = i then some r' else b.records[j]? := by
  obtain ⟨hi, -⟩ := List.getElem?_eq_some_iff.1 hr
  show (b.records.set i r')[j]? = _
  rw [List.getElem?_set]
  by_cases hj : j = i
  · rw [if_pos hj.symm, if_pos hi, if_pos hj]
  · rw [if_neg (Ne.symm hj), if_neg hj]

theorem place_exchange (hr : b.records[i]? = some r) (hfolders : w'.SameFolders b.files)
    (r' : Record) (j : Nat) :
    (b.exchange i r' w').place j = if j = i then r'.place b.files else b.place j := by
  rw [place, records_exchange hr]
  show Option.bind _ (Record.place w') = _
  rw [funext (Record.place_of_sameFolders hfolders)]
  split
  · rfl
  · rfl

/-- What is at the place of an artifact, for another record of it: its file, or nothing if it has
    none any more. -/
def FitsAt (b : Bench) (loc : Location) (entry : Option Entry) (r : Record) : Prop :=
  r.path = none ∧ entry = none ∨
    r.place b.files = some loc ∧ ∃ content, entry = some (.file content) ∧ r.MayHold content

/-- An exchange puts no file into other hands. -/
theorem FitsAt.place_eq {entry : Option Entry} (hfits : b.FitsAt loc entry r')
    (hr : b.records[i]? = some r) (hplace : b.place i = some loc)
    (hfolders : w'.SameFolders b.files) {j : Nat} {other : Location}
    (hj : (b.exchange i r' w').place j = some other) : b.place j = some other := by
  rw [place_exchange hr hfolders] at hj
  split at hj
  · next hji =>
    rcases hfits with ⟨hnone, -⟩ | ⟨hsame, -⟩
    · obtain ⟨p, hp, -⟩ := Record.place_eq_some_iff.1 hj
      exact nomatch hnone.symm.trans hp
    · rw [hji, hplace, ← hsame, hj]
  · exact hj

/-- A record may be exchanged for one whose file is at the same place, or is gone. -/
theorem Sound.exchange (h : b.Sound w₀) (hr : b.records[i]? = some r)
    (hplace : b.place i = some loc) {entry : Option Entry} (hturns : b.files.Turns w' loc entry)
    (htallies : r'.Tallies) (hfits : b.FitsAt loc entry r') : (b.exchange i r' w').Sound w₀ := by
  obtain ⟨hothers, hcopies⟩ := h.entryAt_of_turns hplace hturns
  obtain ⟨_, hsame, hkeeps⟩ := h.of_place hplace
  obtain rfl := Option.some.inj (hr.symm.trans hsame)
  have hplaces := place_exchange hr hturns.folders r'
  refine ⟨hturns.folders.trans h.folders, fun j s hs => ?_, fun j s hs => ?_,
    fun j k other hj hk => h.apart j k other (hfits.place_eq hr hplace hturns.folders hj)
      (hfits.place_eq hr hplace hturns.folders hk),
    fun other hother => ?_, fun other hnot hother => ?_⟩
  · rw [records_exchange hr] at hs
    split at hs
    · obtain rfl := Option.some.inj hs
      rcases hfits with ⟨hnone, -⟩ | ⟨hsame, content, rfl, hcontent⟩
      · exact .inl hnone
      · exact .inr ⟨loc, (Record.place_of_sameFolders hturns.folders _).trans hsame, hkeeps.fresh,
          hkeeps.spared, content, hturns.here, hcontent⟩
    · next hne =>
      exact h.keeps_frame hs hturns.folders fun other hother => hothers j other hother hne
  · rw [records_exchange hr] at hs
    split at hs
    · exact Option.some.inj hs ▸ htallies
    · exact h.tallies j s hs
  · obtain ⟨content, hcontent⟩ := h.copied other hother
    exact ⟨content, (hcopies other hother).trans hcontent⟩
  · -- a place in no hands afterwards was in none before, or is that of the file that is gone
    show w'.entryAt other = w₀.entryAt other
    by_cases hloc : other = loc
    · rcases hfits with ⟨-, rfl⟩ | ⟨hsame, -⟩
      · rw [hloc, hturns.here, hkeeps.fresh]
      · have hi := hplaces i
        rw [if_pos rfl, hsame] at hi
        exact absurd (hloc ▸ hi) (hnot i)
    · rw [hturns.elsewhere hloc]
      refine h.others other (fun j hj => ?_) hother
      have hj' := hplaces j
      split at hj'
      · next hji =>
        rw [hji, hplace] at hj
        exact hloc (Option.some.inj hj).symm
      · exact hnot j (hj'.trans hj)

/-! ## Further files -/

theorem records_add (r : Record) (files : Workspace) (j : Nat) :
    (b.add r files).records[j]? = if j = b.records.length then some r else b.records[j]? := by
  show (b.records ++ [r])[j]? = _
  split
  · next hj => rw [hj, List.getElem?_concat_length]
  · next hj =>
    rcases Nat.lt_or_gt_of_ne hj with hlt | hgt
    · rw [List.getElem?_append_left hlt]
    · rw [List.getElem?_eq_none (by rw [List.length_append]; exact hgt),
        List.getElem?_eq_none (Nat.le_of_lt hgt)]

theorem place_add (hfolders : w'.SameFolders b.files) (r : Record) (j : Nat) :
    (b.add r w').place j = if j = b.records.length then r.place b.files else b.place j := by
  rw [place, records_add]
  show Option.bind _ (Record.place w') = _
  rw [funext (Record.place_of_sameFolders hfolders)]
  split
  · rfl
  · rfl

/-- A record of something new may be added, with a file where nothing was. -/
theorem Sound.add (h : b.Sound w₀) {p : Path} {content : ByteArray}
    (hadds : b.files.Adds w' p loc content) (hpath : r.path = some p) (htallies : r.Tallies)
    (hcontent : r.MayHold content) : (b.add r w').Sound w₀ := by
  have hplace : r.place b.files = some loc :=
    Record.place_eq_some_iff.2 ⟨p, hpath, hadds.folders.writeTarget hadds.target⟩
  have hplaces := place_add hadds.folders r
  -- nothing was there, so it is neither a copy nor in other hands
  have hcopies : loc ∉ b.copies := by
    intro hmem
    obtain ⟨_, hfile⟩ := h.copied loc hmem
    exact nomatch hadds.fresh.symm.trans hfile
  have hnot : ∀ j, b.place j ≠ some loc := by
    intro j hj
    obtain ⟨_, -, hkeeps⟩ := h.of_place hj
    obtain ⟨_, hfile, -⟩ := hkeeps.content
    exact nomatch hadds.fresh.symm.trans hfile
  have hsame : ∀ other, other ≠ loc → w'.entryAt other = b.files.entryAt other := by
    intro other hne
    rw [hadds.entry, if_neg hne]
  refine ⟨hadds.folders.trans h.folders, fun j s hs => ?_, fun j s hs => ?_,
    fun j k other hj hk => ?_, fun other hother => ?_, fun other hother hnone => ?_⟩
  · rw [records_add] at hs
    split at hs
    · obtain rfl := Option.some.inj hs
      refine .inr ⟨loc, (Record.place_of_sameFolders hadds.folders _).trans hplace, ?_, hcopies,
        content, ?_, hcontent⟩
      · rw [← h.others loc hnot hcopies, hadds.fresh]
      · exact (hadds.entry loc).trans (if_pos rfl)
    · exact h.keeps_frame hs hadds.folders fun other hother =>
        hsame other fun heq => hnot j (heq ▸ hother)
  · rw [records_add] at hs
    split at hs
    · exact Option.some.inj hs ▸ htallies
    · exact h.tallies j s hs
  · rw [hplaces, hplace] at hj hk
    split at hj
    · next hlast =>
      obtain rfl := Option.some.inj hj
      split at hk
      · next hlast' => rw [hlast, hlast']
      · exact absurd hk (hnot k)
    · split at hk
      · obtain rfl := Option.some.inj hk
        exact absurd hj (hnot j)
      · exact h.apart j k other hj hk
  · obtain ⟨content, hfile⟩ := h.copied other hother
    exact ⟨content, (hsame other fun heq => hcopies (heq ▸ hother)).trans hfile⟩
  · -- the new file is in the hands of the new record, so it is none of the other places
    have hne : other ≠ loc := by
      rintro rfl
      have hlast := hplaces b.records.length
      rw [if_pos rfl, hplace] at hlast
      exact hother _ hlast
    refine (hsame other hne).trans (h.others other (fun j hj => ?_) hnone)
    have hj' := hplaces j
    split at hj'
    · next hlast =>
      rw [hlast, place, List.getElem?_eq_none (Nat.le_refl _)] at hj
      exact nomatch hj
    · exact hother j (hj'.trans hj)

/-- A copy may be put where there is no file of an artifact. -/
theorem Sound.copy (h : b.Sound w₀) (hentry : b.files.entryAt out ≠ some .folder)
    (hout : out ∉ b.places) (content : ByteArray) :
    (b.withCopies [out] (b.files.place out (.file content))).Sound w₀ := by
  have hfolders := Workspace.sameFolders_place_file hentry content
  have hentries := Workspace.entryAt_place (w := b.files) (Workspace.ne_nil_of_entryAt hentry)
    (.file content)
  have hplaces : ∀ j, (b.withCopies [out] (b.files.place out (.file content))).place j =
      b.place j := by
    intro j
    show Option.bind _ (Record.place (b.files.place out _)) = _
    rw [funext (Record.place_of_sameFolders hfolders)]
    rfl
  have hne : ∀ {j other}, b.place j = some other → other ≠ out := by
    rintro j other hj rfl
    exact hout (mem_places_iff.2 ⟨j, hj⟩)
  refine ⟨hfolders.trans h.folders, fun j s hs => ?_, h.tallies, fun j k other hj hk => ?_,
    fun other hother => ?_, fun other hother hnone => ?_⟩
  · rcases h.keeps j s hs with hnone | ⟨loc, hplace, hfresh, hspared, hcontent⟩
    · exact .inl hnone
    · have hloc := hne (place_eq_some_iff.2 ⟨s, hs, hplace⟩)
      refine .inr ⟨loc, (Record.place_of_sameFolders hfolders s).trans hplace, hfresh, ?_, ?_⟩
      · exact List.not_mem_cons_of_ne_of_not_mem hloc hspared
      · obtain ⟨held, hheld, hmay⟩ := hcontent
        refine ⟨held, ?_, hmay⟩
        exact ((hentries loc).trans (if_neg hloc)).trans hheld
  · rw [hplaces] at hj hk
    exact h.apart j k other hj hk
  · show ∃ held, (b.files.place out (.file content)).entryAt other = some (.file held)
    rw [hentries]
    split
    · exact ⟨content, rfl⟩
    · next hother' => exact h.copied other (List.mem_of_ne_of_mem hother' hother)
  · obtain ⟨hother', hspared⟩ := not_or.1 fun hmem => hnone (List.mem_cons.2 hmem)
    show (b.files.place out (.file content)).entryAt other = _
    rw [hentries, if_neg hother']
    exact h.others other (fun j hj => hother j ((hplaces j).trans hj)) hspared

/-! ## Operations -/

variable {a : OpenArtifact} {f : FinishedArtifact} {lines : List String}

/-- An artifact is made in a folder that is there. -/
theorem next_create {folder : Path} {dir : Location}
    (hdir : b.files.locateFolder folder = .ok dir) :
    ∃ path w', b.next (.create folder) = b.add ⟨.opened ⟨path, "", 0⟩, []⟩ w' ∧
      b.files.Adds w' path (dir ++ [OpenArtifact.nextName b.files dir]) .empty := by
  rcases OpenArtifact.run_create folder b.files with
    ⟨why, -, hnone⟩ | ⟨loc, path, w', hcreate, hloc, hadds⟩
  · exact absurd hdir (hnone dir)
  · obtain rfl := Except.ok.inj (hdir.symm.trans hloc)
    refine ⟨path, w', ?_, hadds⟩
    rw [next, hcreate]

theorem next_create_of_error {folder : Path} {fault : FileFault}
    (hdir : b.files.locateFolder folder = .error fault) : b.next (.create folder) = b := by
  rcases OpenArtifact.run_create folder b.files with
    ⟨why, hcreate, -⟩ | ⟨loc, path, w', -, hloc, -⟩
  · rw [next, hcreate]
  · exact nomatch hdir.symm.trans hloc

/-- Finishing hands the file over, with the lines in it. -/
theorem Sound.finish (h : b.Sound w₀) (hr : b.records[i]? = some ⟨.opened a, lines⟩)
    (hplace : b.place i = some loc) :
    ∃ w', a.finish.run b.files = (.ok ⟨a.path⟩, w') ∧
      b.files.Turns w' loc (some (.file (joinLines lines).toUTF8)) ∧
      b.next (.finish i) = b.exchange i ⟨.finished ⟨a.path⟩, lines⟩ w' := by
  obtain ⟨loc', hplace', htarget, hkeeps⟩ := h.of_path hr rfl
  obtain rfl := Option.some.inj (hplace.symm.trans hplace')
  obtain ⟨content, hentry, -⟩ := hkeeps.content
  obtain ⟨w', hrun, hturns⟩ := OpenArtifact.finish_turns htarget hentry
  obtain ⟨hwritten, -⟩ := h.tallies i _ hr a rfl
  rw [hwritten] at hturns
  refine ⟨w', hrun, hturns, ?_⟩
  rw [next, hr]
  dsimp only
  rw [hrun]

/-- Exporting copies the lines and answers their size. -/
theorem Sound.exportTo (h : b.Sound w₀) (hr : b.records[i]? = some ⟨.finished f, lines⟩)
    {target : Path} (htarget : b.files.writeTarget target = .ok out) (hout : out ∉ b.places) :
    (f.exportTo target).run b.files =
        (.ok (joinLines lines).toUTF8.size, b.files.place out (.file (joinLines lines).toUTF8)) ∧
      b.next (.exportTo i target) =
        b.withCopies [out] (b.files.place out (.file (joinLines lines).toUTF8)) := by
  obtain ⟨loc, hplace, hsource, hkeeps⟩ := h.of_path hr rfl
  obtain ⟨content, hentry, rfl⟩ := hkeeps.content
  have hne : out ≠ loc := by
    rintro rfl
    exact hout (mem_places_iff.2 ⟨i, hplace⟩)
  have hrun := FinishedArtifact.run_exportTo hsource hentry htarget hne
  refine ⟨hrun, ?_⟩
  rw [next, hr]
  dsimp only
  rw [hrun, htarget]
  rfl

/-- Dropping removes the file, if it is still to be dropped. -/
theorem Sound.drop (h : b.Sound w₀) (hr : b.records[i]? = some r) (hplace : b.place i = some loc)
    (hheld : ∀ p, r.holding ≠ .released p) :
    ∃ w', b.files.Turns w' loc none ∧ b.next (.drop i) = b.exchange i ⟨.dropped, r.lines⟩ w' := by
  obtain ⟨holding, lines⟩ := r
  have htarget : ∀ p, Record.path ⟨holding, lines⟩ = some p → b.files.writeTarget p = .ok loc := by
    intro p hp
    obtain ⟨loc', hplace', htarget, -⟩ := h.of_path hr hp
    rw [Option.some.inj (hplace.symm.trans hplace'), htarget]
  cases holding with
  | opened a =>
    refine ⟨_, OpenArtifact.drop_turns (htarget a.path rfl), ?_⟩
    rw [next, hr]
  | finished f =>
    refine ⟨_, FinishedArtifact.drop_turns (htarget f.path rfl), ?_⟩
    rw [next, hr]
  | released p => exact absurd rfl (hheld p)
  | dropped =>
    obtain ⟨_, hsame, hloc⟩ := place_eq_some_iff.1 hplace
    obtain rfl := Option.some.inj (hr.symm.trans hsame)
    exact nomatch hloc

/-- Every operation keeps the records right. -/
theorem Sound.next (h : b.Sound w₀) {op : Handling} (hop : b.Elsewhere op) :
    (b.next op).Sound w₀ := by
  cases op with
  | create folder =>
    cases hdir : b.files.locateFolder folder with
    | error fault =>
      rw [next_create_of_error hdir]
      exact h
    | ok dir =>
      obtain ⟨path, w', hnext, hadds⟩ := next_create hdir
      rw [hnext]
      refine h.add hadds rfl (fun a ha => ?_) trivial
      obtain rfl := Holding.opened.inj ha
      exact ⟨rfl, rfl⟩
  | addLine i line =>
    rw [Bench.next]
    split
    · next a lines hr =>
      obtain ⟨loc, hplace, -, hkeeps⟩ := h.of_path hr rfl
      obtain ⟨content, hentry, -⟩ := hkeeps.content
      refine h.exchange hr hplace (.refl hentry) (fun a' ha => ?_)
        (.inr ⟨hkeeps.place, content, rfl, trivial⟩)
      obtain rfl := Holding.opened.inj ha
      obtain ⟨hwritten, hcount⟩ := h.tallies i _ hr a rfl
      refine ⟨?_, ?_⟩
      · show a.written ++ line ++ "\n" = joinLines (lines ++ [line])
        rw [hwritten, joinLines_concat]
      · show a.lineCount + 1 = (lines ++ [line]).length
        rw [hcount, List.length_append]
        rfl
    · exact h
  | finish i =>
    cases hr : b.records[i]? with
    | none =>
      rw [Bench.next, hr]
      exact h
    | some r =>
      obtain ⟨holding, lines⟩ := r
      cases holding with
      | opened a =>
        obtain ⟨loc, hplace, -, hkeeps⟩ := h.of_path hr rfl
        obtain ⟨w', -, hturns, hnext⟩ := h.finish hr hplace
        rw [hnext]
        exact h.exchange hr hplace hturns (fun _ ha => nomatch ha)
          (.inr ⟨hkeeps.place, _, rfl, rfl⟩)
      | _ =>
        rw [Bench.next, hr]
        exact h
  | exportTo i target =>
    rw [Bench.next]
    split
    · next f lines hr =>
      cases htarget : b.files.writeTarget target with
      | error fault =>
        rw [FinishedArtifact.exportTo_of_error htarget]
        exact h
      | ok out =>
        have hout : out ∉ b.places := hop out (by rw [htarget]; rfl)
        rw [(h.exportTo hr htarget hout).1]
        exact h.copy (Workspace.entryAt_of_writeTarget htarget) hout _
    · exact h
  | giveAway i =>
    rw [Bench.next]
    split
    · next f lines hr =>
      rw [FinishedArtifact.run_giveAway]
      obtain ⟨loc, hplace, -, hkeeps⟩ := h.of_path hr rfl
      obtain ⟨content, hentry, hcontent⟩ := hkeeps.content
      exact h.exchange hr hplace (.refl hentry) (fun _ ha => nomatch ha)
        (.inr ⟨hkeeps.place, content, rfl, hcontent⟩)
    · exact h
  | drop i =>
    cases hr : b.records[i]? with
    | none =>
      rw [Bench.next, hr]
      exact h
    | some r =>
      obtain ⟨holding, lines⟩ := r
      have hdrop : ∀ p, Record.path ⟨holding, lines⟩ = some p → (∀ q, holding ≠ .released q) →
          (b.next (.drop i)).Sound w₀ := by
        intro p hp hheld
        obtain ⟨loc, hplace, -, -⟩ := h.of_path hr hp
        obtain ⟨w', hturns, hnext⟩ := h.drop hr hplace hheld
        rw [hnext]
        exact h.exchange hr hplace hturns (fun _ ha => nomatch ha) (.inl ⟨rfl, rfl⟩)
      cases holding with
      | opened a => exact hdrop a.path rfl fun _ heq => nomatch heq
      | finished f => exact hdrop f.path rfl fun _ heq => nomatch heq
      | _ =>
        rw [Bench.next, hr]
        exact h

theorem Sound.after (h : b.Sound w₀) {history : List Handling} (hall : b.AllElsewhere history) :
    (b.after history).Sound w₀ := by
  induction history generalizing b with
  | nil => exact h
  | cons op rest ih =>
    obtain ⟨hop, hrest⟩ := hall
    exact ih (h.next hop) hrest

/-! ## Files that were given away -/

/-- Nothing is done to the record of an artifact that is in no hands. -/
theorem records_next_of_released {p : Path} (hr : b.records[i]? = some ⟨.released p, lines⟩)
    (op : Handling) : (b.next op).records[i]? = some ⟨.released p, lines⟩ := by
  have hexchange : ∀ (j : Nat) (r r' : Record) (files : Workspace), b.records[j]? = some r →
      r.holding ≠ .released p →
      (b.exchange j r' files).records[i]? = some ⟨.released p, lines⟩ := by
    intro j r r' files hj hheld
    rw [records_exchange hj, if_neg]
    · exact hr
    · rintro rfl
      obtain rfl := Option.some.inj (hj.symm.trans hr)
      exact hheld rfl
  cases op with
  | create folder =>
    cases hdir : b.files.locateFolder folder with
    | error fault => rw [next_create_of_error hdir, hr]
    | ok dir =>
      obtain ⟨path, w', hnext, -⟩ := next_create hdir
      obtain ⟨hi, -⟩ := List.getElem?_eq_some_iff.1 hr
      rw [hnext, records_add, if_neg (Nat.ne_of_lt hi), hr]
  | exportTo j target =>
    rw [next]
    split
    · exact hr
    · exact hr
  | addLine j line =>
    rw [next]
    split
    · next hj => exact hexchange j _ _ _ hj fun heq => nomatch heq
    · exact hr
  | finish j =>
    rw [next]
    split
    · next hj =>
      split
      · exact hexchange j _ _ _ hj fun heq => nomatch heq
      · exact hexchange j _ _ _ hj fun heq => nomatch heq
    · exact hr
  | giveAway j =>
    rw [next]
    split
    · next hj => exact hexchange j _ _ _ hj fun heq => nomatch heq
    · exact hr
  | drop j =>
    rw [next]
    split
    · next hj => exact hexchange j _ _ _ hj fun heq => nomatch heq
    · next hj => exact hexchange j _ _ _ hj fun heq => nomatch heq
    · exact hr

theorem records_after_of_released {p : Path} (hr : b.records[i]? = some ⟨.released p, lines⟩)
    (history : List Handling) : (b.after history).records[i]? = some ⟨.released p, lines⟩ := by
  induction history generalizing b with
  | nil => exact hr
  | cons op rest ih => exact ih (records_next_of_released hr op)

theorem Sound.read (h : b.Sound w₀) (hr : b.records[i]? = some r) {p : Path} (hp : r.path = some p)
    (hfinished : ∀ a, r.holding ≠ .opened a) : b.files.read p = .ok (joinLines r.lines).toUTF8 := by
  obtain ⟨loc, -, htarget, hkeeps⟩ := h.of_path hr hp
  obtain ⟨content, hentry, hcontent⟩ := hkeeps.content
  have hlines : content = (joinLines r.lines).toUTF8 := by
    obtain ⟨holding, lines⟩ := r
    cases holding with
    | opened a => exact absurd rfl (hfinished a)
    | _ => exact hcontent
  rw [Workspace.read_of_locate (Workspace.locate_of_writeTarget htarget) hentry, hlines]

theorem sound_clear (w₀ : Workspace) : (clear w₀).Sound w₀ := by
  have hnone : ∀ i, (clear w₀).records[i]? = none := fun i => List.getElem?_nil
  refine ⟨.refl w₀, fun i r hr => ?_, fun i r hr => ?_, fun i j loc hi => ?_,
    fun loc hloc => ?_, fun loc _ _ => rfl⟩
  · exact nomatch (hnone i).symm.trans hr
  · exact nomatch (hnone i).symm.trans hr
  · obtain ⟨r, hr, -⟩ := place_eq_some_iff.1 hi
    exact nomatch (hnone i).symm.trans hr
  · exact nomatch hloc

end Bench

/-- **Artifacts own their files.**  Take any history of artifacts whose exports go elsewhere than to
    the files of artifacts.  Every artifact that takes lines, is finished or was given away has a
    file of its own, where nothing was at the start, and there are no others but copies
    (`Bench.Sound`).

    An artifact is made in a folder that is there, with a new and empty file, and in no other.  To
    finish it hands its file over with all the lines that it was given, which it has counted, and
    changes no other file.  To export it copies these lines, answers the number of their bytes and
    changes nothing else.  To drop it removes its file and no other.  A file that was given away
    stays as it is, whatever is done later. -/
theorem artifacts_own_files {history : List Handling}
    (h : (Bench.clear w₀).AllElsewhere history) :
    let b := (Bench.clear w₀).after history
    b.Sound w₀ ∧
    (∀ folder, (∀ dir, b.files.locateFolder folder = .ok dir → ∃ path w',
        b.next (.create folder) = b.add ⟨.opened ⟨path, "", 0⟩, []⟩ w' ∧
        b.files.Adds w' path (dir ++ [OpenArtifact.nextName b.files dir]) .empty) ∧
      ∀ fault, b.files.locateFolder folder = .error fault → b.next (.create folder) = b) ∧
    (∀ (i : Nat) a lines, b.records[i]? = some ⟨.opened a, lines⟩ →
      a.lineCount = lines.length ∧ ∃ loc w', b.place i = some loc ∧
        a.finish.run b.files = (.ok ⟨a.path⟩, w') ∧
        b.files.Turns w' loc (some (.file (joinLines lines).toUTF8)) ∧
        b.next (.finish i) = b.exchange i ⟨.finished ⟨a.path⟩, lines⟩ w') ∧
    (∀ (i : Nat) f lines, b.records[i]? = some ⟨.finished f, lines⟩ →
      b.files.read f.path = .ok (joinLines lines).toUTF8 ∧
      b.next (.giveAway i) = b.exchange i ⟨.released f.path, lines⟩ b.files ∧
      ∀ target out, b.files.writeTarget target = .ok out → out ∉ b.places →
        (f.exportTo target).run b.files = (.ok (joinLines lines).toUTF8.size,
            b.files.place out (.file (joinLines lines).toUTF8)) ∧
          (b.next (.exportTo i target)).records = b.records) ∧
    (∀ (i : Nat) r loc, b.records[i]? = some r → b.place i = some loc →
      (∀ p, r.holding ≠ .released p) →
      (b.next (.drop i)).place i = none ∧ b.files.Turns (b.next (.drop i)).files loc none) ∧
    ∀ (i : Nat) p lines, b.records[i]? = some ⟨.released p, lines⟩ →
      ∀ later, b.AllElsewhere later →
        (b.after later).records[i]? = some ⟨.released p, lines⟩ ∧
        (b.after later).files.read p = .ok (joinLines lines).toUTF8 := by
  intro b
  have hb : b.Sound w₀ := (Bench.sound_clear w₀).after h
  refine ⟨hb, fun folder => ⟨fun dir => Bench.next_create, fun fault => Bench.next_create_of_error⟩,
    fun i a lines hr => ?_, fun i f lines hr => ?_, fun i r loc hr hplace hheld => ?_,
    fun i p lines hr later hlater => ?_⟩
  · obtain ⟨loc, hplace, -, -⟩ := hb.of_path hr rfl
    obtain ⟨w', hrun, hturns, hnext⟩ := hb.finish hr hplace
    exact ⟨(hb.tallies i _ hr a rfl).2, loc, w', hplace, hrun, hturns, hnext⟩
  · refine ⟨hb.read hr rfl fun _ heq => (nomatch heq), ?_, fun target out htarget hout => ?_⟩
    · rw [Bench.next, hr]
      rfl
    · obtain ⟨hrun, hnext⟩ := hb.exportTo hr htarget hout
      refine ⟨hrun, ?_⟩
      rw [hnext]
      rfl
  · obtain ⟨w', hturns, hnext⟩ := hb.drop hr hplace hheld
    rw [hnext, Bench.place_exchange hr hturns.folders, if_pos rfl]
    exact ⟨rfl, hturns⟩
  · have hlast := Bench.records_after_of_released hr later
    exact ⟨hlast, (hb.after hlater).read hlast rfl fun _ heq => nomatch heq⟩

/-- Of two artifacts one is finished, copied and given away, and the other dropped; a third is not
    made, for want of a folder.  What was given away cannot be dropped any more. -/
theorem artifacts_own_files_of_two :
    let w₀ : Workspace := ⟨[], [(["tmp"], .folder)], 0⟩
    let history : List Handling :=
      [.create ⟨"tmp"⟩, .addLine 0 "M17", .create ⟨"none"⟩, .create ⟨"tmp"⟩, .finish 0,
        .exportTo 0 ⟨"copy.gcode"⟩, .drop 1, .giveAway 0]
    let b := (Bench.clear w₀).after history
    (Bench.clear w₀).AllElsewhere history ∧ b.Sound w₀ ∧
      b.places = [["tmp", "stitchkit-0.gcode"]] ∧ b.copies = [["copy.gcode"]] ∧
      (b.after [.drop 0]).files.read ⟨"tmp/stitchkit-0.gcode"⟩ = .ok "M17\n".toUTF8 := by
  intro w₀ history b
  have helsewhere : (Bench.clear w₀).AllElsewhere history := by decide +kernel
  have hplaces : b.places = [["tmp", "stitchkit-0.gcode"]] := by decide +kernel
  have hcopies : b.copies = [["copy.gcode"]] := by decide +kernel
  have hrecord : b.records[0]? = some ⟨.released ⟨"tmp/stitchkit-0.gcode"⟩, ["M17"]⟩ := by
    decide +kernel
  have hlines : joinLines ["M17"] = "M17\n" := by decide +kernel
  obtain ⟨hsound, -, -, -, -, hreleased⟩ := artifacts_own_files helsewhere
  obtain ⟨-, hread⟩ := hreleased 0 _ _ hrecord [.drop 0] ⟨trivial, trivial⟩
  rw [hlines] at hread
  exact ⟨helsewhere, hsound, hplaces, hcopies, hread⟩

end
end Embroidery
