/-
  What a run of the generating command does to the files.

  A run goes through stages, each of which may fail: settings, pattern, program, preview, delivery.
  It gets through all of them exactly if a program can be made and there are places for it
  (`Feasible`).  On the way there is one file more, that of the artifact
  (`run_generateFromFile_start`), and it is dropped however the run ends.  So a run that fails
  leaves every file as it was.  One that succeeds changes the output, if there is one
  (`run_deliver`), and the settings file, if it was there before (`run_rememberPattern`), and
  nothing else.

  A settings file that was not there cannot be taken for the artifact's file meanwhile: its name
  would have to end in a way that no settings file does (`ofPath_of_locate`).
-/
import Embroidery.Command.Run
import Embroidery.Proofs.Preview.Stored
import Embroidery.Proofs.Session.History
import Embroidery.Proofs.Settings.Reloading

namespace Embroidery

variable {w w' : Workspace} {session : Session} {product : Product} {text : String}
  {loc : Location} {file pattern : Path} {settings : Settings} {format : SettingsFormat}

/-! ## Delivery -/

/-- Nothing fails or changes when a program whose file is there is reported on. -/
theorem run_generatedLines (hproduct : session.product = some product)
    (hread : w.read product.artifact.path = .ok text.toUTF8) (summary : Summary) (shown : Bool) :
    ∃ lines, (generatedLines session summary shown).run w = (.ok lines, w) := by
  cases shown with
  | false => exact ⟨_, rfl⟩
  | true =>
    rw [generatedLines, if_pos rfl, Script.run_bind, Session.preview, hproduct]
    dsimp only
    rw [Script.run_bind, run_previewFile hread]
    exact ⟨_, rfl⟩

/-- The program has gone where it should go. -/
structure Delivered (w w' : Workspace) (output : Option Path) (text : String)
    (outcome : Outcome) : Prop where
  status : outcome.status = 0
  out : output = none → outcome.out = text ∧ w' = w
  file : ∀ target, output = some target →
    ∃ out, w.writeTarget target = .ok out ∧ w.Turns w' out (some (.file text.toUTF8))

/-- A program is delivered, unless there is an output that cannot be written. -/
theorem run_deliver (hproduct : session.product = some product)
    (htarget : w.writeTarget product.artifact.path = .ok loc)
    (hentry : w.entryAt loc = some (.file text.toUTF8)) (summary : Summary) {output : Option Path}
    (houtput : ∀ target, output = some target → w.writeTarget target ≠ .ok loc) (shown : Bool) :
    (∃ outcome target fault, (deliver session summary output shown).run w = (.error outcome, w) ∧
      outcome.status ≠ 0 ∧ output = some target ∧ w.writeTarget target = .error fault) ∨
      ∃ outcome w', (deliver session summary output shown).run w = (.ok outcome, w') ∧
        Delivered w w' output text outcome := by
  have hread := Workspace.read_of_locate (Workspace.locate_of_writeTarget htarget) hentry
  obtain ⟨lines, hlines⟩ := run_generatedLines hproduct hread summary shown
  rw [deliver, Script.run_bind, hlines]
  dsimp only
  cases output with
  | none =>
    dsimp only
    rw [deliverToOutput, hproduct]
    dsimp only
    rw [Script.run_bind, Script.run_readText hread]
    exact .inr ⟨_, w, rfl, rfl, fun _ => ⟨rfl, rfl⟩,
      fun _ h => absurd h.symm (Option.some_ne_none _)⟩
  | some target =>
    dsimp only
    rw [deliverToFile, Script.run_bind, Session.exportTo, hproduct]
    dsimp only
    rw [Script.run_bind]
    cases hout : w.writeTarget target with
    | error fault =>
      rw [FinishedArtifact.exportTo, Script.run_copy, Workspace.copy, hread, hout]
      exact .inl ⟨_, target, fault, rfl, Nat.one_ne_zero, rfl, hout⟩
    | ok out =>
      have hne : out ≠ loc := by
        rintro rfl
        exact houtput target rfl hout
      rw [FinishedArtifact.run_exportTo htarget hentry hout hne]
      refine .inr ⟨_, _, rfl, rfl, fun h => absurd h (Option.some_ne_none _),
        fun target' htarget' => ?_⟩
      obtain rfl := Option.some.inj htarget'
      exact ⟨out, hout, Workspace.turns_place (Workspace.entryAt_of_writeTarget hout) _⟩

/-! ## Remembering -/

/-- A settings file that is there is written anew. -/
theorem run_rememberPattern {content : ByteArray}
    (hformat : SettingsFormat.ofPath file = .ok format) (hlocate : w.locate file = .ok loc)
    (hentry : w.entryAt loc = some (.file content)) (hcheck : settings.check = .ok ())
    (pattern : Path) :
    ∃ w', (rememberPattern file settings pattern).run w = ((), w') ∧
      w.Turns w' loc (some (.file (format.write (settings.addRecent pattern)).toUTF8)) := by
  have hisFile : (Script.isFile file).run w = (true, w) := by
    rw [Script.isFile, Script.run_bind, Script.run_look,
      Workspace.find_eq_ok_iff.2 ⟨loc, hlocate, hentry⟩]
    rfl
  have hrecent : (settings.addRecent pattern).check = .ok () := hcheck
  obtain ⟨w', hsave, hturns⟩ := Settings.run_save_again hformat hlocate hentry hrecent
  refine ⟨w', ?_, hturns⟩
  rw [rememberPattern, Script.run_bind, hisFile]
  dsimp only
  rw [if_pos rfl, Script.run_bind, hsave]
  rfl

/-- Where there is no file of a settings format, nothing is remembered. -/
theorem run_rememberPattern_absent (settings : Settings) (pattern : Path)
    (h : ∀ content, w.find file = .ok (.file content) →
      ∃ fault, SettingsFormat.ofPath file = .error fault) :
    (rememberPattern file settings pattern).run w = ((), w) := by
  rw [rememberPattern, Script.run_bind, Script.isFile, Script.run_bind, Script.run_look]
  cases hfind : w.find file with
  | error fault => rfl
  | ok entry =>
    cases entry with
    | folder => rfl
    | file content =>
      obtain ⟨fault, hfault⟩ := h content hfind
      have hrendered : ∃ fault, (settings.addRecent pattern).rendered file = .error fault := by
        rw [Settings.rendered, hfault]
        cases (settings.addRecent pattern).check with
        | error fault => exact ⟨fault, rfl⟩
        | ok _ => exact ⟨fault, rfl⟩
      obtain ⟨fault, hrendered⟩ := hrendered
      show ((settings.addRecent pattern).save file >>= fun _ => pure ()).run w = _
      rw [Script.run_bind, Settings.run_save_rejected hrendered]
      rfl

/-- The name of an artifact's file is that of no settings file. -/
theorem ofPath_artifact {n : Nat}
    (h : file.fileName = some (Workspace.freshName "stitchkit-" ".gcode" n)) :
    ∃ fault, SettingsFormat.ofPath file = .error fault := by
  have hchars : (Workspace.freshName "stitchkit-" ".gcode" n).toList =
      ("stitchkit-".toList ++ naturalChars n) ++ '.' :: "gcode".toList :=
    Workspace.toList_freshName _ _ n
  have hne : "stitchkit-".toList ++ naturalChars n ≠ [] := List.cons_ne_nil _ _
  have hextension : file.extension = some "gcode" := by
    rw [Path.extension, h, Option.bind_some, hchars, Path.cutAtLastDot_append hne (by decide),
      Option.map_some]
    exact congrArg some String.ofList_toList
  rw [SettingsFormat.ofPath, hextension]
  exact ⟨_, rfl⟩

/-- The file of an artifact is no settings file, whatever path leads to it. -/
theorem ofPath_of_locate {dir : Location} {n : Nat} {content : ByteArray}
    (hlocate : w.locate file = .ok (dir ++ [Workspace.freshName "stitchkit-" ".gcode" n]))
    (hentry : w.entryAt (dir ++ [Workspace.freshName "stitchkit-" ".gcode" n]) =
      some (.file content)) :
    ∃ fault, SettingsFormat.ofPath file = .error fault := by
  cases hformat : SettingsFormat.ofPath file with
  | error fault => exact ⟨fault, rfl⟩
  | ok format =>
    obtain ⟨before, last, folder, hnames, hstep⟩ := Workspace.exists_names hlocate hentry
    obtain ⟨hname, hdots⟩ := hnames.fileName hformat
    rw [Workspace.stepFrom, if_neg hnames.ne_dot, if_neg hdots] at hstep
    obtain ⟨-, hlast⟩ := List.append_inj' hstep rfl
    rw [(List.cons.inj hlast).1] at hname
    obtain ⟨fault, hfault⟩ := ofPath_artifact hname
    exact ⟨fault, hformat.symm.trans hfault⟩

/-! ## Stages -/

/-- A first generation leaves the files as they were, or adds one with the text of the program. -/
theorem run_generateFromFile_start (p : Parameters) (folder pattern : Path) (w : Workspace) :
    (∃ e session w', ((Session.start p folder).generateFromFile pattern).run w =
        ((.error e, session), w') ∧ session.product = none ∧ w'.Alike w ∧
        ∀ source text summary dir, (Pattern.load pattern).run w = (.ok source, w) →
          generateInto (Sink.text : Sink String Empty) "" p source = (text, .ok summary) →
          w.locateFolder folder ≠ .ok dir) ∨
      ∃ source summary session product dir text w',
        ((Session.start p folder).generateFromFile pattern).run w =
          ((.ok summary, session), w') ∧ session.product = some product ∧
        (Pattern.load pattern).run w = (.ok source, w) ∧
        generateInto (Sink.text : Sink String Empty) "" p source = (text, .ok summary) ∧
        w.locateFolder folder = .ok dir ∧
        w.Adds w' product.artifact.path (dir ++ [OpenArtifact.nextName w dir]) text.toUTF8 := by
  have hdiscard : (Session.start p folder).discard.run w = (Session.start p folder, w) := rfl
  rw [run_generateFromFile, hdiscard]
  have hload := looksOnly_load pattern w
  cases hsource : (Pattern.load pattern).run w with
  | mk answer after =>
    rw [hsource] at hload
    obtain rfl : after = w := hload
    cases answer with
    | error e =>
      exact .inl ⟨_, _, _, rfl, rfl, .refl _, fun _ _ _ _ h => nomatch (Prod.mk.inj h).1⟩
    | ok source =>
      dsimp only
      rw [run_generate, hdiscard]
      rcases Session.run_produce p folder source after with
        ⟨e, w', hrun, halike, hnone⟩ | ⟨dir, text, product, w', hrun, hwritten, hdir, hadds⟩
      · have hproduce : (Session.produce (Session.start p folder).parameters
            (Session.start p folder).folder source).run after = (.error e, w') := hrun
        rw [hproduce]
        refine .inl ⟨_, _, w', rfl, rfl, halike, fun source' text summary dir hload hwritten => ?_⟩
        obtain rfl := Except.ok.inj (Prod.mk.inj hload).1
        exact hnone text summary dir hwritten
      · have hproduce : (Session.produce (Session.start p folder).parameters
            (Session.start p folder).folder source).run after = (.ok product, w') := hrun
        rw [hproduce]
        exact .inr ⟨source, _, _, product, dir, text, w', rfl, rfl, rfl, hwritten, hdir, hadds⟩

/-- The pattern was remembered in a settings file that was there, or there was none. -/
inductive Remembered (w : Workspace) (file : Path) (settings : Settings) (pattern : Path) :
    Workspace → Workspace → Prop where
  | written {format : SettingsFormat} {loc : Location} {before after : Workspace}
    (format_eq : SettingsFormat.ofPath file = .ok format) (locate : w.locate file = .ok loc)
    (present : w.entryAt loc ≠ none) (load : (Settings.load file).run w = (.ok settings, w))
    (turns : before.Turns after loc
      (some (.file (format.write (settings.addRecent pattern)).toUTF8))) :
    Remembered w file settings pattern before after
  | absent {before : Workspace} (absent : ∀ entry, w.find file ≠ .ok entry) :
    Remembered w file settings pattern before before

/-- Meanwhile there is a further file, but it is never taken for the settings file. -/
theorem run_rememberPattern_after {dir : Location} {p : Path} {content : ByteArray}
    {w₁ w₂ : Workspace} (hload : (Settings.loadOrDefault file).run w = (.ok settings, w))
    (hadds : w.Adds w₁ p (dir ++ [OpenArtifact.nextName w dir]) content)
    (hfolders : w₂.SameFolders w)
    (hkept : ∀ loc, w.locate file = .ok loc → w₂.entryAt loc = w₁.entryAt loc) (pattern : Path) :
    ∃ w₃, (rememberPattern file settings pattern).run w₂ = ((), w₃) ∧
      Remembered w file settings pattern w₂ w₃ := by
  rcases Settings.of_loadOrDefault hload with hload | habsent
  · obtain ⟨-, format, loc, before, text, hformat, hlocate, hentry, hparse⟩ :=
      Settings.of_load hload
    have hne : loc ≠ dir ++ [OpenArtifact.nextName w dir] := by
      rintro rfl
      exact nomatch hentry.symm.trans hadds.fresh
    have hentry' : w₂.entryAt loc = some (.file before) := by
      rw [hkept loc hlocate, hadds.entry, if_neg hne, hentry]
    obtain ⟨w₃, hrun, hturns⟩ := run_rememberPattern hformat (hfolders.symm.locate hlocate) hentry'
      (Settings.parse_eq_ok_iff.1 hparse).2 pattern
    refine ⟨w₃, hrun, .written hformat hlocate ?_ hload hturns⟩
    rw [hentry]
    exact Option.some_ne_none _
  · refine ⟨w₂, run_rememberPattern_absent settings pattern fun found hfound => ?_, .absent habsent⟩
    obtain ⟨loc, hlocate, hentry⟩ := Workspace.find_eq_ok_iff.1 hfound
    have hbefore : w.locate file = .ok loc := hfolders.locate hlocate
    -- the only thing that is there now and was not before
    have hartifact : loc = dir ++ [OpenArtifact.nextName w dir] := by
      refine Classical.byContradiction fun hne => ?_
      rw [hkept loc hbefore, hadds.entry, if_neg hne] at hentry
      exact habsent _ (Workspace.find_eq_ok_iff.2 ⟨loc, hbefore, hentry⟩)
    rw [hartifact] at hlocate hentry
    exact ofPath_of_locate hlocate hentry

theorem Remembered.elsewhere {w₂ w₃ : Workspace} (h : Remembered w file settings pattern w₂ w₃) :
    w₃.SameFolders w₂ ∧ ∀ other, (w.locate file = .ok other → w.entryAt other = none) →
      w₃.entryAt other = w₂.entryAt other := by
  cases h with
  | written hformat hlocate hpresent hload hturns =>
    refine ⟨hturns.folders, fun other hother => hturns.elsewhere ?_⟩
    rintro rfl
    exact hpresent (hother hlocate)
  | absent _ => exact ⟨.refl _, fun _ _ => rfl⟩

theorem Delivered.elsewhere {output : Option Path} {outcome : Outcome} (hfolders : w.SameFolders w')
    {w₂ : Workspace} (h : Delivered w' w₂ output text outcome) :
    w₂.SameFolders w' ∧ ∀ other,
      (∀ target, output = some target → w.writeTarget target ≠ .ok other) →
      w₂.entryAt other = w'.entryAt other := by
  cases output with
  | none =>
    obtain ⟨-, rfl⟩ := h.out rfl
    exact ⟨.refl _, fun _ _ => rfl⟩
  | some target =>
    obtain ⟨out, hout, hturns⟩ := h.file target rfl
    refine ⟨hturns.folders, fun other hother => hturns.elsewhere ?_⟩
    rintro rfl
    exact hother target rfl (hfolders.symm.writeTarget hout)

/-! ## Runs -/

section
variable {around : Surroundings} {named output : Option Path} {shown : Bool}

/-- The output is not the file that the artifact gets. -/
def SparesArtifact (w : Workspace) (folder : Path) (output : Option Path) : Prop :=
  ∀ target dir, output = some target → w.locateFolder folder = .ok dir →
    w.writeTarget target ≠ .ok (dir ++ [OpenArtifact.nextName w dir])

/-- The output is not the settings file. -/
def SparesSettings (w : Workspace) (file : Path) (output : Option Path) : Prop :=
  ∀ target out, output = some target → w.writeTarget target = .ok out → w.locate file ≠ .ok out

/-- What a run makes its program of, and the text of that. -/
structure Ingredients (w : Workspace) (around : Surroundings) (named : Option Path)
    (pattern file : Path) (settings : Settings) (source : Pattern) (text : String)
    (summary : Summary) : Prop where
  file_eq : around.settingsFile named = some file
  settings_eq : (Settings.loadOrDefault file).run w = (.ok settings, w)
  source_eq : (Pattern.load pattern).run w = (.ok source, w)
  text_eq : generateInto (Sink.text : Sink String Empty) "" settings.parameters source =
    (text, .ok summary)

theorem Ingredients.unique {file' : Path} {settings' : Settings} {source source' : Pattern}
    {text' : String} {summary summary' : Summary}
    (h : Ingredients w around named pattern file settings source text summary)
    (h' : Ingredients w around named pattern file' settings' source' text' summary') :
    file = file' ∧ settings = settings' ∧ source = source' ∧ text = text' := by
  obtain rfl := Option.some.inj (h.file_eq.symm.trans h'.file_eq)
  obtain rfl := Except.ok.inj (Prod.mk.inj (h.settings_eq.symm.trans h'.settings_eq)).1
  obtain rfl := Except.ok.inj (Prod.mk.inj (h.source_eq.symm.trans h'.source_eq)).1
  exact ⟨rfl, rfl, rfl, (Prod.mk.inj (h.text_eq.symm.trans h'.text_eq)).1⟩

/-- There is a program, a folder for the artifact, and an output only if it can be written. -/
def Feasible (w : Workspace) (around : Surroundings) (named : Option Path) (pattern : Path)
    (output : Option Path) : Prop :=
  (∃ file settings source text summary,
    Ingredients w around named pattern file settings source text summary) ∧
  (∃ dir, w.locateFolder around.temporary = .ok dir) ∧
  ∀ target, output = some target → ∃ out, w.writeTarget target = .ok out

/-- A run that is not feasible fails and changes nothing.  Any other goes through all stages. -/
theorem run_runGenerate (hartifact : SparesArtifact w around.temporary output)
    (hsettings : ∀ file, around.settingsFile named = some file → SparesSettings w file output) :
    (∃ outcome w', (runGenerate around named pattern output shown).run w = (outcome, w') ∧
      outcome.status ≠ 0 ∧ w'.Alike w ∧ ¬Feasible w around named pattern output) ∨
      ∃ file settings source summary text artifact dir w₁ w₂ w₃ outcome,
        Ingredients w around named pattern file settings source text summary ∧
        w.locateFolder around.temporary = .ok dir ∧
        w.Adds w₁ artifact (dir ++ [OpenArtifact.nextName w dir]) text.toUTF8 ∧
        Delivered w₁ w₂ output text outcome ∧ Remembered w file settings pattern w₂ w₃ ∧
        (runGenerate around named pattern output shown).run w =
          (outcome, (w₃.remove artifact).2) := by
  rw [runGenerate]
  cases hfile : around.settingsFile named with
  | none =>
    refine .inl ⟨_, w, rfl, Nat.one_ne_zero, .refl w, ?_⟩
    rintro ⟨⟨file, settings, source, text, summary, hfile', -⟩, -⟩
    exact nomatch hfile.symm.trans hfile'
  | some file =>
  dsimp only
  rw [Script.run_bind]
  have hlooks := Settings.looksOnly_loadOrDefault file w
  cases hload : (Settings.loadOrDefault file).run w with
  | mk answer after =>
  rw [hload] at hlooks
  obtain rfl : after = w := hlooks
  cases answer with
  | error e =>
    refine .inl ⟨_, after, rfl, Nat.one_ne_zero, .refl after, ?_⟩
    rintro ⟨⟨file', settings, source, text, summary, hfile', hload', -⟩, -⟩
    obtain rfl := Option.some.inj (hfile.symm.trans hfile')
    exact nomatch (Prod.mk.inj (hload.symm.trans hload')).1
  | ok settings =>
  dsimp only
  rw [Script.run_bind]
  rcases run_generateFromFile_start settings.parameters around.temporary pattern after with
    ⟨e, session, w', hrun, hproduct, halike, hnone⟩ |
    ⟨source, summary, session, product, dir, text, w₁, hrun, hproduct, hsource, hwritten, hdir,
      hadds⟩
  · rw [hrun]
    dsimp only
    rw [Script.run_bind, run_discard, hproduct]
    refine .inl ⟨_, w', rfl, Nat.one_ne_zero, halike, ?_⟩
    rintro ⟨⟨file', settings', source, text, summary, hfile', hload', hsource, hwritten⟩,
      ⟨dir, hdir⟩, -⟩
    obtain rfl := Option.some.inj (hfile.symm.trans hfile')
    obtain rfl := Except.ok.inj (Prod.mk.inj (hload.symm.trans hload')).1
    exact hnone source text summary dir hsource hwritten hdir
  -- from here on there is the artifact's file, and every way out drops it
  rw [hrun]
  dsimp only
  rw [Script.run_bind]
  have houtput : ∀ target, output = some target →
      w₁.writeTarget target ≠ .ok (dir ++ [OpenArtifact.nextName after dir]) :=
    fun target htarget hout => hartifact target dir htarget hdir (hadds.folders.writeTarget hout)
  have hentry := (hadds.entry _).trans (if_pos rfl)
  rcases run_deliver hproduct hadds.target hentry summary houtput shown with
    ⟨outcome, target, fault, hdeliver, hstatus, htarget, hfault⟩ |
    ⟨outcome, w₂, hdeliver, hdelivered⟩
  · rw [hdeliver]
    dsimp only
    rw [Script.run_bind, run_discard, hproduct]
    refine .inl ⟨outcome, _, rfl, hstatus, hadds.remove, ?_⟩
    rintro ⟨-, -, hwritable⟩
    obtain ⟨out, hout⟩ := hwritable target htarget
    exact nomatch hfault.symm.trans (hadds.folders.symm.writeTarget hout)
  rw [hdeliver]
  dsimp only
  -- the settings file is where it was, whether or not there is one
  obtain ⟨hfolders, helsewhere⟩ := hdelivered.elsewhere hadds.folders.symm
  have hkept : ∀ loc, after.locate file = .ok loc → w₂.entryAt loc = w₁.entryAt loc :=
    fun loc hlocate => helsewhere loc fun target htarget hout =>
      hsettings file hfile target loc htarget hout hlocate
  obtain ⟨w₃, hremember, hremembered⟩ := run_rememberPattern_after hload hadds
    (hfolders.trans hadds.folders) hkept pattern
  rw [Script.run_bind, hremember]
  dsimp only
  rw [Script.run_bind, run_discard, hproduct]
  exact .inr ⟨file, settings, source, summary, text, _, dir, w₁, w₂, w₃, outcome,
    ⟨hfile, hload, hsource, hwritten⟩, hdir, hadds, hdelivered, hremembered, rfl⟩

/-! ## What is left -/

section
variable {w₁ w₂ w₃ : Workspace} {outcome : Outcome} {artifact : Path}
  (hremembered : Remembered w file settings pattern w₂ w₃)
  (hadds : w.Adds w₁ artifact loc text.toUTF8) (hdelivered : Delivered w₁ w₂ output text outcome)

include hremembered hadds hdelivered

/-- In the end nothing is at the place of the artifact, as before the run. -/
theorem Remembered.removed :
    (w₃.remove artifact).2.SameFolders w ∧ w₃.Turns (w₃.remove artifact).2 loc none := by
  obtain ⟨hfolders, -⟩ := hdelivered.elsewhere hadds.folders.symm
  have hlater := hremembered.elsewhere.1.trans hfolders
  have htarget := hlater.symm.writeTarget hadds.target
  have hturns := Workspace.remove_file (Workspace.locate_of_writeTarget htarget)
    (Workspace.entryAt_of_writeTarget htarget)
  exact ⟨hturns.folders.trans (hlater.trans hadds.folders), hturns⟩

/-- Only the output and a settings file that is there are changed. -/
theorem Remembered.frame {other : Location}
    (houtput : ∀ target, output = some target → w.writeTarget target ≠ .ok other)
    (hsettings : w.locate file = .ok other → w.entryAt other = none) :
    (w₃.remove artifact).2.entryAt other = w.entryAt other := by
  obtain ⟨-, hturns⟩ := hremembered.removed hadds hdelivered
  by_cases hother : other = loc
  · rw [hother, hturns.here, hadds.fresh]
  · rw [hturns.elsewhere hother, hremembered.elsewhere.2 other hsettings,
      (hdelivered.elsewhere hadds.folders.symm).2 other houtput, hadds.entry, if_neg hother]

/-- The text of the program is in the output. -/
theorem Remembered.read_output (hspares : SparesSettings w file output) {target : Path}
    (htarget : output = some target) (hartifact : w.writeTarget target ≠ .ok loc) :
    (w₃.remove artifact).2.read target = .ok text.toUTF8 := by
  obtain ⟨hfolders, hturns⟩ := hremembered.removed hadds hdelivered
  obtain ⟨out, hout, hwritten⟩ := hdelivered.file target htarget
  have hbefore := hadds.folders.writeTarget hout
  have hne : out ≠ loc := by
    rintro rfl
    exact hartifact hbefore
  refine Workspace.read_of_locate
    (hfolders.symm.locate (Workspace.locate_of_writeTarget hbefore)) ?_
  rw [hturns.elsewhere hne, hremembered.elsewhere.2 out, hwritten.here]
  exact fun hlocate => absurd hlocate (hspares target out htarget hbefore)

/-- The settings come back with the pattern among the recent ones. -/
theorem Remembered.load_again {entry : Entry} (hentry : w.find file = .ok entry)
    (hlibrary : ∀ format, (Settings.load file).run w = (.ok settings, w) →
      SettingsFormat.ofPath file = .ok format → format.ReadsNumbers settings) :
    (Settings.load file).run (w₃.remove artifact).2 =
      (.ok (settings.addRecent pattern), (w₃.remove artifact).2) := by
  obtain ⟨hfolders, hturns⟩ := hremembered.removed hadds hdelivered
  cases hremembered with
  | absent habsent => exact absurd hentry (habsent entry)
  | @written format place _ _ hformat hlocate hpresent hload hwritten =>
    obtain ⟨-, _, _, _, text, hformat', -, -, hparse⟩ := Settings.of_load hload
    obtain rfl := Except.ok.inj (hformat.symm.trans hformat')
    have hne : place ≠ loc := by
      rintro rfl
      exact hpresent hadds.fresh
    have hcheck := (Settings.parse_eq_ok_iff.1 hparse).2
    obtain ⟨hscaling, hclearance⟩ := hlibrary format hload hformat
    refine Settings.run_load_again hformat (hfolders.symm.locate hlocate) ?_ hcheck
      ⟨hscaling, hclearance⟩ ?_
    · rw [hturns.elsewhere hne, hwritten.here]
    · -- only the recent files differ, and they come back from both formats
      have hlimits := SettingsFormat.restored_eq_self_iff.1 (Settings.restored_of_parse hparse)
      exact SettingsFormat.restored_eq_self_iff.2 hlimits

end

/-- **Generating on the command line.**  A run succeeds exactly if there is a program of the pattern
    under the settings, and places for it.  Without an output the text of the program is then the
    standard output, with or without a preview; with an output it is what that file holds.  A
    settings file that was there is loaded with the pattern remembered and otherwise as it was; one
    that was not there still is not; and nothing else is changed.  A run that fails changes nothing.
    Both ways the artifact is gone. -/
theorem generate_run_files {args : List String}
    (hargs : readArguments args = some (.run named (.generate pattern output shown)))
    (hartifact : SparesArtifact w around.temporary output)
    (hsettings : ∀ file, around.settingsFile named = some file → SparesSettings w file output)
    (hlibrary : ∀ file settings format, around.settingsFile named = some file →
      (Settings.load file).run w = (.ok settings, w) → SettingsFormat.ofPath file = .ok format →
      format.ReadsNumbers settings) :
    let result := (runProgram around args).run w
    (result.1.status = 0 ↔ Feasible w around named pattern output) ∧
    (result.1.status = 0 → ∀ file settings source text summary,
      Ingredients w around named pattern file settings source text summary →
      (output = none → result.1.out = text) ∧
      (∀ target, output = some target → result.2.read target = .ok text.toUTF8) ∧
      (∀ entry, w.find file = .ok entry →
        (Settings.load file).run result.2 = (.ok (settings.addRecent pattern), result.2)) ∧
      ((∀ entry, w.find file ≠ .ok entry) → ∀ entry, result.2.find file ≠ .ok entry) ∧
      ∀ loc, (∀ target, output = some target → w.writeTarget target ≠ .ok loc) →
        (w.locate file = .ok loc → w.entryAt loc = none) →
        result.2.entryAt loc = w.entryAt loc) ∧
    (result.1.status ≠ 0 → result.2.Alike w) := by
  intro result
  have hresult : (runGenerate around named pattern output shown).run w = result := by
    show _ = (runProgram around args).run w
    rw [runProgram, hargs]
    rfl
  rcases run_runGenerate hartifact hsettings with
    ⟨outcome, w', hrun, hstatus, halike, hnot⟩ |
    ⟨file, settings, source, summary, text, artifact, dir, w₁, w₂, w₃, outcome, hmade, hdir, hadds,
      hdelivered, hremembered, hrun⟩
  · rw [← hresult, hrun]
    exact ⟨⟨fun h => absurd h hstatus, fun h => absurd h hnot⟩, fun h => absurd h hstatus,
      fun _ => halike⟩
  · have hfeasible : Feasible w around named pattern output := by
      refine ⟨⟨file, settings, source, text, summary, hmade⟩, ⟨dir, hdir⟩, fun target htarget => ?_⟩
      obtain ⟨out, hout, -⟩ := hdelivered.file target htarget
      exact ⟨out, hadds.folders.writeTarget hout⟩
    rw [← hresult, hrun]
    refine ⟨⟨fun _ => hfeasible, fun _ => hdelivered.status⟩,
      fun _ file' settings' source' text' summary' hmade' => ?_,
      fun h => absurd hdelivered.status h⟩
    obtain ⟨rfl, rfl, rfl, rfl⟩ := hmade.unique hmade'
    have hspares := hsettings file hmade.file_eq
    obtain ⟨hfolders, -⟩ := hremembered.removed hadds hdelivered
    refine ⟨fun h => (hdelivered.out h).1, fun target htarget => ?_, fun entry hentry => ?_,
      fun habsent entry hentry => ?_, fun loc => hremembered.frame hadds hdelivered⟩
    · exact hremembered.read_output hadds hdelivered hspares htarget
        (hartifact target dir htarget hdir)
    · exact hremembered.load_again hadds hdelivered hentry fun format hrun =>
        hlibrary file settings format hmade.file_eq hrun
    · obtain ⟨loc, hlocate, hthere⟩ := Workspace.find_eq_ok_iff.1 hentry
      have hbefore := hfolders.locate hlocate
      have hnone : w.entryAt loc = none := by
        cases hentry : w.entryAt loc with
        | none => rfl
        | some found => exact absurd (Workspace.find_eq_ok_iff.2 ⟨loc, hbefore, hentry⟩) (habsent _)
      rw [hremembered.frame hadds hdelivered (fun target htarget hout =>
        hspares target loc htarget hout hbefore) fun _ => hnone, hnone] at hthere
      exact nomatch hthere

/-- A program goes into a file, and the settings, which were empty, remember the pattern. -/
theorem generate_run_files_of_leaf :
    let leaf := "\x7b\"stitches\":[\x7b\"index\":1,\"x\":2.5,\"y\":0,\"kind\":\"STITCH\"\x7d]\x7d"
    let w : Workspace := ⟨["home"], [(["home"], .folder), (["tmp"], .folder),
      (["home", "c.json"], .file "\x7b\x7d".toUTF8),
      (["home", "leaf.json"], .file leaf.toUTF8)], 0⟩
    let around : Surroundings := ⟨none, ⟨"/tmp"⟩⟩
    let args := ["generate", "leaf.json", "-o", "leaf.gcode", "--preview", "-c", "c.json"]
    let result := (runProgram around args).run w
    readArguments args =
        some (.run (some ⟨"c.json"⟩) (.generate ⟨"leaf.json"⟩ (some ⟨"leaf.gcode"⟩) true)) ∧
      SparesArtifact w around.temporary (some ⟨"leaf.gcode"⟩) ∧
      SparesSettings w ⟨"c.json"⟩ (some ⟨"leaf.gcode"⟩) ∧
      SettingsFormat.json.ReadsNumbers {} ∧ result.1.status = 0 ∧
      (∃ source text summary, (Pattern.load ⟨"leaf.json"⟩).run w = (.ok source, w) ∧
        generateInto (Sink.text : Sink String Empty) "" ({} : Settings).parameters source =
          (text, .ok summary) ∧
        result.2.read ⟨"leaf.gcode"⟩ = .ok text.toUTF8) ∧
      (Settings.load ⟨"c.json"⟩).run result.2 =
        (.ok { recentFiles := [⟨"leaf.json"⟩] }, result.2) := by
  intro leaf w around args result
  have hargs : readArguments args =
      some (.run (some ⟨"c.json"⟩) (.generate ⟨"leaf.json"⟩ (some ⟨"leaf.gcode"⟩) true)) := by
    decide +kernel
  have hout : w.writeTarget ⟨"leaf.gcode"⟩ = .ok ["home", "leaf.gcode"] :=
    ok_of_toOption (by decide +kernel)
  have hfolder : w.locateFolder around.temporary = .ok ["tmp"] :=
    ok_of_toOption (by decide +kernel)
  have hlocate : w.locate ⟨"c.json"⟩ = .ok ["home", "c.json"] := ok_of_toOption (by decide +kernel)
  have hload : (Settings.load ⟨"c.json"⟩).run w = (.ok {}, w) :=
    Prod.ext (ok_of_toOption (by decide +kernel)) rfl
  have hformat : SettingsFormat.ofPath ⟨"c.json"⟩ = .ok .json := ok_of_toOption (by decide +kernel)
  have hartifact : SparesArtifact w around.temporary (some ⟨"leaf.gcode"⟩) := by
    intro target dir htarget hdir hfresh
    obtain rfl := Option.some.inj htarget
    obtain rfl := Except.ok.inj (hfolder.symm.trans hdir)
    have heq := Except.ok.inj (hout.symm.trans hfresh)
    exact absurd (List.cons.inj heq).1 (by decide)
  have hsettings : SparesSettings w ⟨"c.json"⟩ (some ⟨"leaf.gcode"⟩) := by
    intro target out htarget hwrite hsame
    obtain rfl := Option.some.inj htarget
    have heq := Except.ok.inj (hlocate.symm.trans (hsame.trans (hwrite.symm.trans hout)))
    exact absurd heq (by decide)
  have hstatus : result.1.status = 0 := by decide +kernel
  have hlibrary : ∀ file settings format, around.settingsFile (some ⟨"c.json"⟩) = some file →
      (Settings.load file).run w = (.ok settings, w) → SettingsFormat.ofPath file = .ok format →
      format.ReadsNumbers settings := by
    intro file settings format hfile hrun hf
    obtain rfl := Option.some.inj hfile
    obtain rfl := Except.ok.inj (Prod.mk.inj (hload.symm.trans hrun)).1
    obtain rfl := Except.ok.inj (hformat.symm.trans hf)
    exact Settings.readsNumbers_default
  obtain ⟨hfeasible, hsuccess, -⟩ := generate_run_files hargs hartifact
    (fun file hfile => Option.some.inj hfile ▸ hsettings) hlibrary
  obtain ⟨⟨file, settings, source, text, summary, hmade⟩, -⟩ := hfeasible.1 hstatus
  obtain rfl := Option.some.inj hmade.file_eq
  have hpresent : w.find ⟨"c.json"⟩ = .ok (.file "\x7b\x7d".toUTF8) :=
    Workspace.find_eq_ok_iff.2 ⟨_, hlocate, rfl⟩
  have hempty : settings = {} := by
    rcases Settings.of_loadOrDefault hmade.settings_eq with hrun | habsent
    · exact (Except.ok.inj (Prod.mk.inj (hload.symm.trans hrun)).1).symm
    · exact absurd hpresent (habsent _)
  subst hempty
  obtain ⟨-, hread, hagain, -⟩ := hsuccess hstatus _ _ _ _ _ hmade
  exact ⟨hargs, hartifact, hsettings, Settings.readsNumbers_default, hstatus,
    ⟨source, text, summary, hmade.source_eq, hmade.text_eq, hread _ rfl⟩, hagain _ hpresent⟩

end
end Embroidery
