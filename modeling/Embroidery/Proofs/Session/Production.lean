/-
  Artifacts on disk: what a production writes, and what it leaves when it fails.

  A production makes a fresh file, hands the lines of the program to it and completes it
  (`Session.run_produce`).  If it fails, at whatever point, the files are what they were.  If it
  succeeds there is one further file, with the text that a sink for text would hold.
-/
import Embroidery.Proofs.Files.Script
import Embroidery.Proofs.Files.Workspace
import Embroidery.Proofs.Preview.Name
import Embroidery.Session

namespace Embroidery

variable {w w' : Workspace} {loc out : Location} {content : ByteArray}

/-! ## Lines of artifacts -/

/-- A sink that has no cause to refuse keeps what it holds when no program is written. -/
theorem generateInto_error {held : Type} {sink : Sink held Empty} {before after : held}
    {p : Parameters} {pattern : Pattern} {error : GenerateError Empty}
    (h : generateInto sink before p pattern = (after, .error error)) : after = before := by
  unfold generateInto at h
  split at h
  · exact (Prod.mk.inj h).1.symm
  · dsimp only at h
    split at h
    · exact (Prod.mk.inj h).1.symm
    · split at h
      · next why _ => exact nomatch why
      · exact nomatch (Prod.mk.inj h).2

namespace OpenArtifact

theorem foldl_addLine (a : OpenArtifact) (lines : List String) :
    lines.foldl addLine a =
      ⟨a.path, a.written ++ joinLines lines, a.lineCount + lines.length⟩ := by
  induction lines generalizing a with
  | nil =>
    show a = ⟨a.path, a.written ++ "", a.lineCount⟩
    rw [String.append_empty]
  | cons line rest ih =>
    rw [List.foldl_cons, ih, joinLines_cons, List.length_cons]
    simp only [addLine, String.append_assoc, Nat.add_assoc, Nat.add_comm 1]

/-- An artifact is given the text that a sink for text holds. -/
theorem written_of_generateInto {a after : OpenArtifact} {p : Parameters} {pattern : Pattern}
    {summary : Summary}
    (h : generateInto (sink : Sink OpenArtifact Empty) a p pattern = (after, .ok summary)) :
    ∃ text, generateInto (Sink.text : Sink String Empty) "" p pattern = (text, .ok summary) ∧
      after.path = a.path ∧ after.written = a.written ++ text := by
  obtain ⟨hp, hcolors, htaken, hsummary⟩ := of_generateInto h
  rw [sink, Sink.takeAll_following, foldl_addLine] at htaken
  obtain ⟨rfl, -⟩ := Prod.mk.inj htaken
  have htext : generateInto (Sink.text : Sink String Empty) "" p pattern = _ :=
    generateInto_following (fun text line => text ++ line ++ "\n") "" hp hcolors
  rw [Embroidery.foldl_addLine, String.empty_append] at htext
  rw [hsummary]
  exact ⟨_, htext, rfl, rfl⟩

/-! ## Files of artifacts -/

theorem isName_artifact (n : Nat) : IsName (Workspace.freshName "stitchkit-" ".gcode" n) := by
  have hchars := Workspace.toList_freshName "stitchkit-" ".gcode" n
  have hne : ∀ text : String, text.toList.length < 10 →
      Workspace.freshName "stitchkit-" ".gcode" n ≠ text := by
    intro text hshort h
    have hlength := congrArg (List.length ∘ String.toList) h
    have hstart : "stitchkit-".toList.length = 10 := rfl
    simp only [Function.comp, hchars, List.length_append, hstart] at hlength
    omega
  refine ⟨hne "" (by decide), hne "." (by decide), hne ".." (by decide), ?_⟩
  rw [hchars]
  intro hmem
  rcases List.mem_append.1 hmem with hmem | hmem
  · rcases List.mem_append.1 hmem with hmem | hmem
    · exact absurd hmem (by decide)
    · exact absurd (isDigit_of_mem_naturalChars hmem) (by decide)
  · exact absurd hmem (by decide)

/-- The name of the next artifact in a folder. -/
def nextName (w : Workspace) (folder : Location) : String :=
  Workspace.freshName "stitchkit-" ".gcode" (w.freshNumber folder "stitchkit-" ".gcode")

/-- An artifact without lines is made where nothing was, if there is a folder for it. -/
theorem run_create (folder : Path) (w : Workspace) :
    (∃ why, (create folder).run w = (.error why, w) ∧ ∀ loc, w.locateFolder folder ≠ .ok loc) ∨
      ∃ loc path w', (create folder).run w = (.ok ⟨path, "", 0⟩, w') ∧
        w.locateFolder folder = .ok loc ∧ w.Adds w' path (loc ++ [nextName w loc]) .empty := by
  rw [create, Script.run_bind, Script.run_makeFresh]
  cases hfolder : w.locateFolder folder with
  | error why =>
    rw [Workspace.makeFresh_of_error hfolder]
    exact .inl ⟨why, rfl, fun loc h => nomatch h⟩
  | ok loc =>
    obtain ⟨w', hfresh, hadds⟩ := Workspace.exists_makeFresh isName_artifact hfolder
    rw [hfresh]
    exact .inr ⟨loc, _, w', rfl, rfl, hadds⟩

theorem run_finish {a : OpenArtifact} (h : w.Adds w' a.path loc content) :
    ∃ w'', a.finish.run w' = (.ok ⟨a.path⟩, w'') ∧ w.Adds w'' a.path loc a.written.toUTF8 := by
  obtain ⟨w'', hwrite, hadds⟩ := h.write a.written.toUTF8
  rw [finish, Script.run_bind, Script.run_writeText, hwrite]
  exact ⟨w'', rfl, hadds⟩

/-- Nothing is at the empty path, so it makes no difference that an artifact without a path does
    not ask for its removal. -/
theorem run_drop (a : OpenArtifact) (w : Workspace) :
    a.drop.run w = ((), (w.remove a.path).2) := by
  unfold drop
  split
  · next hpath =>
    rw [Workspace.remove, Workspace.locate, if_pos hpath]
    rfl
  · rw [Script.run_bind, Script.run_remove]
    rfl

end OpenArtifact

namespace FinishedArtifact

theorem run_drop (f : FinishedArtifact) (w : Workspace) :
    f.drop.run w = ((), (w.remove f.path).2) := by
  rw [drop, Script.run_bind, Script.run_remove]
  rfl

/-- What is left behind when a file is given away is told to keep it. -/
theorem run_giveAway (f : FinishedArtifact) (w : Workspace) : f.giveAway.run w = (f.path, w) := rfl

/-- An export copies the content of the file to another place. -/
theorem run_exportTo {f : FinishedArtifact} (hsource : w.writeTarget f.path = .ok loc)
    (hentry : w.entryAt loc = some (.file content)) {target : Path}
    (htarget : w.writeTarget target = .ok out) (hout : out ≠ loc) :
    (f.exportTo target).run w = (.ok content.size, w.place out (.file content)) := by
  have hlocate := Workspace.locate_of_writeTarget hsource
  have hother : ¬(w.locate f.path).toOption = some out := by
    rw [hlocate]
    exact fun heq => hout (Option.some.inj heq).symm
  rw [exportTo, Script.run_copy, Workspace.copy, Workspace.read_of_locate hlocate hentry, htarget]
  dsimp only
  rw [if_neg hother]

/-- An export changes nothing but its own target. -/
theorem exportTo_files (f : FinishedArtifact) (target : Path) (w : Workspace) :
    ((f.exportTo target).run w).2 = w ∨
      ∃ out content, w.writeTarget target = .ok out ∧
        ((f.exportTo target).run w).2 = w.place out (.file content) := by
  rw [exportTo, Script.run_copy]
  unfold Workspace.copy
  cases w.read f.path with
  | error fault => exact .inl rfl
  | ok content =>
    cases w.writeTarget target with
    | error fault => exact .inl rfl
    | ok out => exact .inr ⟨out, _, rfl, rfl⟩

/-- Where no file can be written, an export changes nothing. -/
theorem exportTo_of_error {target : Path} {fault : FileFault}
    (htarget : w.writeTarget target = .error fault) (f : FinishedArtifact) :
    ((f.exportTo target).run w).2 = w := by
  rcases f.exportTo_files target w with hsame | ⟨out, content, hout, -⟩
  · exact hsame
  · exact nomatch htarget.symm.trans hout

end FinishedArtifact

/-! ## Productions -/

/-- A production adds a file with the text of the program.  If there is no such text, or no folder
    for the file, it leaves the files as they were. -/
theorem Session.run_produce (p : Parameters) (folder : Path) (pattern : Pattern) (w : Workspace) :
    (∃ error w', (produce p folder pattern).run w = (.error error, w') ∧ w'.Alike w ∧
        ∀ text summary loc,
          generateInto (Sink.text : Sink String Empty) "" p pattern = (text, .ok summary) →
          w.locateFolder folder ≠ .ok loc) ∨
      ∃ loc text product w', (produce p folder pattern).run w = (.ok product, w') ∧
        generateInto (Sink.text : Sink String Empty) "" p pattern = (text, .ok product.summary) ∧
        w.locateFolder folder = .ok loc ∧
        w.Adds w' product.artifact.path (loc ++ [OpenArtifact.nextName w loc]) text.toUTF8 := by
  unfold produce
  split
  · next fault hfault =>
    refine .inl ⟨_, w, rfl, .refl w, fun text summary loc htext => ?_⟩
    obtain ⟨hp, -⟩ := of_generateInto htext
    exact nomatch hfault.symm.trans hp
  rw [Script.run_bind]
  rcases OpenArtifact.run_create folder w with
    ⟨why, hcreate, hnone⟩ | ⟨loc, path, w', hcreate, hfolder, hadds⟩
  · rw [hcreate]
    exact .inl ⟨_, w, rfl, .refl w, fun _ _ loc _ => hnone loc⟩
  rw [hcreate]
  dsimp only
  split
  · next after error hwritten =>
    obtain rfl := generateInto_error hwritten
    rw [Script.run_bind, OpenArtifact.run_drop]
    refine .inl ⟨_, _, rfl, hadds.remove, fun text summary loc htext => ?_⟩
    -- an artifact takes every line that a text takes
    obtain ⟨hp, hcolors, -⟩ := of_generateInto htext
    have htaken : generateInto (OpenArtifact.sink : Sink OpenArtifact Empty) _ p pattern = _ :=
      generateInto_following OpenArtifact.addLine ⟨path, "", 0⟩ hp hcolors
    exact nomatch congrArg Prod.snd (hwritten.symm.trans htaken)
  · next after summary hwritten =>
    obtain ⟨text, htext, hpath, hafter⟩ := OpenArtifact.written_of_generateInto hwritten
    obtain rfl : after.path = path := hpath
    obtain ⟨w'', hfinish, hadds'⟩ := OpenArtifact.run_finish hadds
    rw [hafter, String.empty_append] at hadds'
    rw [Script.run_bind, hfinish]
    exact .inr ⟨loc, text, ⟨⟨after.path⟩, summary⟩, w'', rfl, htext, hfolder, hadds'⟩

end Embroidery
