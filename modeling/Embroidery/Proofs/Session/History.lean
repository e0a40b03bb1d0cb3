/-
  What a session holds after any history.

  A history is a list of actions on a session: generations, other parameters, discarding, previews,
  exports, and that somebody else takes the file of the program away.  Beside the session and the
  files runs an account of what was answered (`Account`): the parameters that are in force and the
  latest generation, if it succeeded and was not discarded.

  The invariant is that the account is right (`Scene.Holds`).  Without a latest generation the
  session has no program and the files are what they were at the start; with one, the session has
  its summary and there is one further file, with the text of its program.  Files that exports
  wrote are apart: an export goes to another folder than that of the artifacts, so it neither meets
  the artifact nor takes a fresh name.
-/
import Embroidery.Proofs.Preview.Stored
import Embroidery.Proofs.Session.Production

namespace Embroidery

/-! ## Histories -/

/-- What is done with a session. -/
inductive Action where
  | generate (pattern : Pattern)
  | generateFromFile (path : Path)
  | setParameters (parameters : Parameters)
  | discard
  | preview
  | exportTo (target : Path)
  /-- Somebody else takes the file of the program away. -/
  | loseFile

/-- A generation that succeeded. -/
structure Generation where
  /-- The parameters that were in force. -/
  parameters : Parameters
  /-- What the pattern was read as. -/
  source : Except PatternFileError Pattern
  summary : Summary
  /-- The file was taken away. -/
  lost : Bool

/-- What is known of a session from its answers. -/
structure Account where
  parameters : Parameters
  latest : Option Generation

/-- The account behind a generation, by its answer. -/
def Account.generated (account : Account) (source : Except PatternFileError Pattern) :
    Except SessionError Summary → Account
  | .ok summary => { account with latest := some ⟨account.parameters, source, summary, false⟩ }
  | .error _ => { account with latest := none }

/-- A session, the files, and the account of what was done. -/
structure Scene where
  session : Session
  files : Workspace
  account : Account

namespace Scene

def start (parameters : Parameters) (folder : Path) (files : Workspace) : Scene :=
  ⟨.start parameters folder, files, ⟨parameters, none⟩⟩

/-- The scene behind a generation. -/
def ofGeneration (account : Account) (source : Except PatternFileError Pattern)
    (result : (Except SessionError Summary × Session) × Workspace) : Scene :=
  ⟨result.1.2, result.2, account.generated source result.1.1⟩

/-- The scene behind an action. -/
def next (scene : Scene) : Action → Scene
  | .generate pattern =>
    ofGeneration scene.account (.ok pattern) ((scene.session.generate pattern).run scene.files)
  | .generateFromFile path =>
    -- the pattern is read when the former program is gone
    let source := ((Pattern.load path).run (scene.session.discard.run scene.files).2).1
    ofGeneration scene.account source ((scene.session.generateFromFile path).run scene.files)
  | .setParameters parameters =>
    ⟨scene.session.setParameters parameters, scene.files, { scene.account with parameters }⟩
  | .discard =>
    let (session, files) := scene.session.discard.run scene.files
    ⟨session, files, { scene.account with latest := none }⟩
  | .preview => { scene with files := (scene.session.preview.run scene.files).2 }
  | .exportTo target => { scene with files := ((scene.session.exportTo target).run scene.files).2 }
  | .loseFile =>
    let files := match scene.session.product with
      | some product => (scene.files.remove product.artifact.path).2
      | none => scene.files
    ⟨scene.session, files,
      { scene.account with latest := scene.account.latest.map ({ · with lost := true }) }⟩

/-- The scene behind a history. -/
def after (scene : Scene) (history : List Action) : Scene := history.foldl next scene

end Scene

/-- Where the exports of a history put their copies. -/
def exportLocations (w : Workspace) (history : List Action) : List Location :=
  history.filterMap fun
    | .exportTo target => (w.writeTarget target).toOption
    | _ => none

/-! ## What holds -/

section
variable {w₀ w w' : Workspace} {folder : Path} {exported : List Location}

/-- A program is kept as it was generated: the files are those at the start and one more, in the
    folder for artifacts. -/
structure Kept (w₀ w : Workspace) (folder : Path) (exported : List Location) (g : Generation)
    (product : Product) (loc : Location) (text : String) : Prop where
  written : ∃ pattern, g.source = .ok pattern ∧
    generateInto (Sink.text : Sink String Empty) "" g.parameters pattern = (text, .ok g.summary)
  summary : product.summary = g.summary
  target : w.writeTarget product.artifact.path = .ok loc
  place : w₀.locateFolder folder = .ok loc.dropLast
  fresh : w₀.entryAt loc = none
  spared : loc ∉ exported
  content : w.entryAt loc = if g.lost then none else some (.file text.toUTF8)
  others : ∀ other ∉ exported, other ≠ loc → w.entryAt other = w₀.entryAt other

/-- The files and the program of a session are those of the latest generation. -/
inductive Accounted (w₀ w : Workspace) (folder : Path) (exported : List Location) :
    Option Generation → Option Product → Prop where
  | empty (h : ∀ loc ∉ exported, w.entryAt loc = w₀.entryAt loc) :
    Accounted w₀ w folder exported none none
  | full {g : Generation} {product : Product} {loc : Location} {text : String}
    (h : Kept w₀ w folder exported g product loc text) :
    Accounted w₀ w folder exported (some g) (some product)

/-- Nothing but exports has changed: the files of a session without a program. -/
structure Clean (w₀ w : Workspace) (exported : List Location) : Prop where
  folders : w.SameFolders w₀
  entry : ∀ loc ∉ exported, w.entryAt loc = w₀.entryAt loc

/-- The account is right. -/
structure Scene.Holds (w₀ : Workspace) (folder : Path) (exported : List Location)
    (scene : Scene) : Prop where
  folders : scene.files.SameFolders w₀
  place : scene.session.folder = folder
  parameters : scene.session.parameters = scene.account.parameters
  product : Accounted w₀ scene.files folder exported scene.account.latest scene.session.product

/-! ## Discarding and losing -/

variable {g : Generation} {product : Product} {loc : Location} {text : String}

/-- Without its file, nothing of a program is left. -/
theorem Kept.remove (h : Kept w₀ w folder exported g product loc text)
    (hfolders : w.SameFolders w₀) :
    Clean w₀ (w.remove product.artifact.path).2 exported := by
  obtain ⟨hsame, hentries⟩ :=
    Workspace.remove_file (Workspace.locate_of_writeTarget h.target)
      (Workspace.entryAt_of_writeTarget h.target)
  refine ⟨hsame.trans hfolders, fun other hother => ?_⟩
  rw [hentries]
  split
  · next heq => rw [heq, h.fresh]
  · next hne => exact h.others other hother hne

theorem Kept.lose (h : Kept w₀ w folder exported g product loc text) :
    (w.remove product.artifact.path).2.SameFolders w ∧
      Kept w₀ (w.remove product.artifact.path).2 folder exported { g with lost := true } product loc
        text := by
  obtain ⟨hsame, hentries⟩ :=
    Workspace.remove_file (Workspace.locate_of_writeTarget h.target)
      (Workspace.entryAt_of_writeTarget h.target)
  refine ⟨hsame, h.written, h.summary, hsame.symm.writeTarget h.target, h.place, h.fresh, h.spared,
    ?_, fun other hother hne => ?_⟩
  · rw [hentries, if_pos rfl]
    rfl
  · rw [hentries, if_neg hne]
    exact h.others other hother hne

theorem run_discard (s : Session) (w : Workspace) :
    s.discard.run w = ({ s with product := none },
      match s.product with
      | some product => (w.remove product.artifact.path).2
      | none => w) := by
  unfold Session.discard
  cases s.product with
  | none => rfl
  | some product =>
    dsimp only
    rw [Script.run_bind, FinishedArtifact.drop, Script.run_bind, Script.run_remove]
    rfl

/-- Once its program is dropped, nothing of a session is left. -/
theorem Scene.Holds.discard {scene : Scene}
    (h : scene.Holds w₀ folder exported) :
    Clean w₀ (scene.session.discard.run scene.files).2 exported := by
  rw [run_discard]
  obtain ⟨hfolders, -, -, hproduct⟩ := h
  generalize scene.session.product = product, scene.account.latest = latest at hproduct
  cases hproduct with
  | empty hentry => exact ⟨hfolders, hentry⟩
  | full hkept => exact hkept.remove hfolders

/-! ## Generations -/

/-- Exports go to another folder than that of the artifacts. -/
def GoElsewhere (w₀ : Workspace) (folder : Path) (exported : List Location) : Prop :=
  ∀ loc, w₀.locateFolder folder = .ok loc → ∀ out ∈ exported, out.dropLast ≠ loc

theorem run_generate (s : Session) (pattern : Pattern) (w : Workspace) :
    (s.generate pattern).run w =
      match (Session.produce s.parameters s.folder pattern).run (s.discard.run w).2 with
      | (.error error, w') => ((.error error, { s with product := none }), w')
      | (.ok product, w') => ((.ok product.summary, { s with product := some product }), w') := by
  rw [Session.generate, Script.run_bind, Script.run_bind, run_discard]
  dsimp only
  generalize (Session.produce s.parameters s.folder pattern).run _ = result
  obtain ⟨answer, w'⟩ := result
  cases answer with
  | error error => rfl
  | ok product => rfl

/-- A generation in a session whose former program is gone. -/
theorem holds_generate (helsewhere : GoElsewhere w₀ folder exported) {s : Session}
    {account : Account} (hfolder : s.folder = folder)
    (hparameters : s.parameters = account.parameters)
    (hclean : Clean w₀ (s.discard.run w).2 exported) (pattern : Pattern) :
    Scene.Holds w₀ folder exported
      (.ofGeneration account (.ok pattern) ((s.generate pattern).run w)) := by
  rw [run_generate]
  rcases Session.run_produce s.parameters s.folder pattern (s.discard.run w).2 with
    ⟨error, w', hrun, halike, -⟩ | ⟨loc, text, product, w', hrun, hwritten, hlocate, hadds⟩
  · rw [hrun]
    show Scene.Holds w₀ folder exported
      ⟨{ s with product := none }, w', { account with latest := none }⟩
    refine ⟨halike.sameFolders.trans hclean.folders, hfolder, hparameters, .empty ?_⟩
    intro loc hloc
    rw [halike.entry, hclean.entry loc hloc]
  · rw [hfolder] at hlocate
    have hplace := hclean.folders.locateFolder hlocate
    generalize OpenArtifact.nextName _ loc = name at hadds
    have hspared : loc ++ [name] ∉ exported := by
      intro hmem
      exact helsewhere loc hplace _ hmem List.dropLast_concat
    have hkept : Kept w₀ w' folder exported
        ⟨account.parameters, .ok pattern, product.summary, false⟩ product (loc ++ [name]) text := by
      refine ⟨⟨pattern, rfl, ?_⟩, rfl, hadds.target, ?_, ?_, hspared, ?_,
        fun other hother hne => ?_⟩
      · rw [← hparameters]
        exact hwritten
      · rw [List.dropLast_concat, hplace]
      · rw [← hclean.entry _ hspared, hadds.fresh]
      · rw [hadds.entry, if_pos rfl]
        rfl
      · rw [hadds.entry, if_neg hne, hclean.entry other hother]
    rw [hrun]
    exact ⟨hadds.folders.trans hclean.folders, hfolder, hparameters, .full hkept⟩

theorem looksOnly_load (path : Path) : (Pattern.load path).LooksOnly := by
  refine (Script.looksOnly_readText path).bind fun answer => ?_
  cases answer with
  | error why => exact Script.looksOnly_pure _
  | ok text => exact Script.looksOnly_pure _

theorem run_generateFromFile (s : Session) (path : Path) (w : Workspace) :
    (s.generateFromFile path).run w =
      match ((Pattern.load path).run (s.discard.run w).2).1 with
      | .error error =>
        ((.error (.source error), { s with product := none }), (s.discard.run w).2)
      | .ok pattern => ((s.discard.run w).1.generate pattern).run (s.discard.run w).2 := by
  rw [Session.generateFromFile, Script.run_bind, Script.run_bind, looksOnly_load, run_discard]
  dsimp only
  generalize ((Pattern.load path).run _).1 = source
  cases source with
  | error error => rfl
  | ok pattern => rfl

theorem holds_generateFromFile (helsewhere : GoElsewhere w₀ folder exported) {s : Session}
    {account : Account} (hfolder : s.folder = folder)
    (hparameters : s.parameters = account.parameters)
    (hclean : Clean w₀ (s.discard.run w).2 exported) (path : Path) :
    Scene.Holds w₀ folder exported
      (.ofGeneration account ((Pattern.load path).run (s.discard.run w).2).1
        ((s.generateFromFile path).run w)) := by
  rw [run_generateFromFile]
  cases ((Pattern.load path).run (s.discard.run w).2).1 with
  | error error => exact ⟨hclean.folders, hfolder, hparameters, .empty hclean.entry⟩
  | ok pattern =>
    -- there is no program any more that the generation could drop
    have hdropped : (s.discard.run w).1 = { s with product := none } := by rw [run_discard]
    have hagain : Clean w₀
        (({ s with product := none } : Session).discard.run (s.discard.run w).2).2 exported := by
      rw [run_discard { s with product := none }]
      exact hclean
    show Scene.Holds w₀ folder exported (.ofGeneration account (.ok pattern)
      (((s.discard.run w).1.generate pattern).run (s.discard.run w).2))
    rw [hdropped]
    refine holds_generate helsewhere ?_ ?_ hagain pattern
    · exact hfolder
    · exact hparameters

/-! ## Previews and exports -/

theorem looksOnly_preview (s : Session) : s.preview.LooksOnly := by
  unfold Session.preview
  cases s.product with
  | none => exact Script.looksOnly_pure _
  | some product => exact (looksOnly_previewFile _ _).bind fun _ => Script.looksOnly_pure _

/-- The program that is kept, as long as its file is there. -/
theorem Kept.read (h : Kept w₀ w folder exported g product loc text) (hlost : g.lost = false) :
    w.read product.artifact.path = .ok text.toUTF8 := by
  refine Workspace.read_of_locate (Workspace.locate_of_writeTarget h.target) ?_
  rw [h.content, hlost]
  rfl

/-- The preview is that of the text, in as many hues as the summary has colours. -/
theorem Kept.preview (h : Kept w₀ w folder exported g product loc text) (hlost : g.lost = false)
    {s : Session} (hs : s.product = some product) :
    s.preview.run w = (.ok (decodeText (hueCycle g.summary.colorCount) text), w) := by
  rw [Session.preview, hs]
  dsimp only
  rw [Script.run_bind, run_previewFile (h.read hlost), Option.getD_some, lossyText_toUTF8,
    h.summary]
  rfl

/-- An export copies the bytes of the text and answers their number. -/
theorem Kept.exportTo (h : Kept w₀ w folder exported g product loc text) (hlost : g.lost = false)
    {s : Session} (hs : s.product = some product) {target : Path} {out : Location}
    (htarget : w.writeTarget target = .ok out) (hout : out ≠ loc) :
    (s.exportTo target).run w = (.ok text.toUTF8.size, w.place out (.file text.toUTF8)) := by
  have hentry : w.entryAt loc = some (.file text.toUTF8) := by
    rw [h.content, hlost]
    rfl
  rw [Session.exportTo, hs]
  dsimp only
  rw [Script.run_bind, FinishedArtifact.run_exportTo h.target hentry htarget hout]
  rfl

theorem exportTo_files (s : Session) (target : Path) (w : Workspace) :
    ((s.exportTo target).run w).2 = w ∨
      ∃ out content, w.writeTarget target = .ok out ∧
        ((s.exportTo target).run w).2 = w.place out (.file content) := by
  unfold Session.exportTo
  cases s.product with
  | none => exact .inl rfl
  | some product =>
    dsimp only
    rw [Script.run_bind]
    exact product.artifact.exportTo_files target w

/-- An export changes nothing but its own target. -/
theorem Accounted.place {latest : Option Generation} {product : Option Product}
    (h : Accounted w₀ w folder exported latest product) {target : Path} {out : Location}
    (htarget : w.writeTarget target = .ok out) (hout : out ∈ exported) (content : ByteArray) :
    Accounted w₀ (w.place out (.file content)) folder exported latest product := by
  have hentry := Workspace.entryAt_of_writeTarget htarget
  have hother : ∀ loc ∉ exported, (w.place out (.file content)).entryAt loc = w.entryAt loc := by
    intro loc hloc
    rw [Workspace.entryAt_place (Workspace.ne_nil_of_entryAt hentry), if_neg]
    intro heq
    exact hloc (heq ▸ hout)
  cases h with
  | empty h =>
    refine .empty fun loc hloc => ?_
    rw [hother loc hloc, h loc hloc]
  | full h =>
    refine .full ⟨h.written, h.summary, ?_, h.place, h.fresh, h.spared, ?_, fun other hne heq => ?_⟩
    · exact (Workspace.sameFolders_place_file hentry content).symm.writeTarget h.target
    · rw [hother _ h.spared, h.content]
    · rw [hother other hne, h.others other hne heq]

/-! ## Histories -/

/-- Every action keeps the account right. -/
theorem Scene.Holds.next (helsewhere : GoElsewhere w₀ folder exported) {scene : Scene}
    (h : scene.Holds w₀ folder exported) {a : Action}
    (ha : ∀ target out, a = .exportTo target → w₀.writeTarget target = .ok out → out ∈ exported) :
    (scene.next a).Holds w₀ folder exported := by
  cases a with
  | generate pattern => exact holds_generate helsewhere h.place h.parameters h.discard pattern
  | generateFromFile path =>
    exact holds_generateFromFile helsewhere h.place h.parameters h.discard path
  | setParameters parameters => exact ⟨h.folders, h.place, rfl, h.product⟩
  | discard =>
    have hclean := h.discard
    have hdropped : (scene.session.discard.run scene.files).1 =
        { scene.session with product := none } := by rw [run_discard]
    show Scene.Holds w₀ folder exported ⟨(scene.session.discard.run scene.files).1, _, _⟩
    rw [hdropped]
    exact ⟨hclean.folders, h.place, h.parameters, .empty hclean.entry⟩
  | preview =>
    show Scene.Holds w₀ folder exported
      { scene with files := (scene.session.preview.run scene.files).2 }
    rw [looksOnly_preview]
    exact h
  | exportTo target =>
    show Scene.Holds w₀ folder exported
      { scene with files := ((scene.session.exportTo target).run scene.files).2 }
    rcases exportTo_files scene.session target scene.files with
      hsame | ⟨out, content, htarget, hplace⟩
    · rw [hsame]
      exact h
    · rw [hplace]
      have hfolders := Workspace.sameFolders_place_file
        (Workspace.entryAt_of_writeTarget htarget) content
      refine ⟨hfolders.trans h.folders, h.place, h.parameters, h.product.place htarget ?_ content⟩
      exact ha target out rfl (h.folders.writeTarget htarget)
  | loseFile =>
    obtain ⟨hfolders, hplace, hparameters, hproduct⟩ := h
    obtain ⟨session, files, account⟩ := scene
    obtain ⟨parameters, dir, product⟩ := session
    obtain ⟨inForce, latest⟩ := account
    cases hproduct with
    | empty hentry => exact ⟨hfolders, hplace, hparameters, .empty hentry⟩
    | full hkept =>
      obtain ⟨hsame, hlost⟩ := hkept.lose
      exact ⟨hsame.trans hfolders, hplace, hparameters, .full hlost⟩

/-- The account is right behind every history. -/
theorem Scene.Holds.after (helsewhere : GoElsewhere w₀ folder exported) {scene : Scene}
    (h : scene.Holds w₀ folder exported) {history : List Action}
    (hexported : ∀ out ∈ exportLocations w₀ history, out ∈ exported) :
    (scene.after history).Holds w₀ folder exported := by
  induction history generalizing scene with
  | nil => exact h
  | cons a history ih =>
    have ha : ∀ target out, a = .exportTo target → w₀.writeTarget target = .ok out →
        out ∈ exported := by
      rintro target out rfl htarget
      refine hexported out (List.mem_filterMap.2 ⟨_, List.mem_cons_self, ?_⟩)
      dsimp only
      rw [htarget]
      rfl
    have hrest : ∀ out ∈ exportLocations w₀ history, out ∈ exported := by
      intro out hout
      obtain ⟨b, hb, hlocation⟩ := List.mem_filterMap.1 hout
      exact hexported out (List.mem_filterMap.2 ⟨b, List.mem_cons_of_mem a hb, hlocation⟩)
    exact ih (h.next helsewhere ha) hrest

/-- **Sessions.**  Take any history of a session whose exports go to other folders than that of the
    artifacts.  The session has a program exactly if the latest of its generations and discardings
    was a generation that succeeded.

    Without one, there is no file but those that were there at the start and the exports.  With one,
    there is one further file, unless it was taken away, and its bytes are the text of the program
    under the parameters that were in force then.  While the file is there, a preview shows that
    text in as many hues as the summary has colours, an export copies those bytes and answers their
    number, and neither changes anything else. -/
theorem session_account {parameters : Parameters} {history : List Action}
    (helsewhere : GoElsewhere w₀ folder (exportLocations w₀ history)) :
    let exported := exportLocations w₀ history
    let scene := (Scene.start parameters folder w₀).after history
    (scene.account.latest = none → scene.session.product = none ∧
      ∀ loc ∉ exported, scene.files.entryAt loc = w₀.entryAt loc) ∧
    ∀ g, scene.account.latest = some g → ∃ product loc text,
      scene.session.product = some product ∧
      Kept w₀ scene.files folder exported g product loc text ∧
      (g.lost = false →
        scene.session.preview.run scene.files =
          (.ok (decodeText (hueCycle g.summary.colorCount) text), scene.files) ∧
        ∀ target out, scene.files.writeTarget target = .ok out → out ≠ loc →
          (scene.session.exportTo target).run scene.files =
            (.ok text.toUTF8.size, scene.files.place out (.file text.toUTF8))) := by
  intro exported scene
  have hstart : (Scene.start parameters folder w₀).Holds w₀ folder exported :=
    ⟨.refl w₀, rfl, rfl, .empty fun _ _ => rfl⟩
  obtain ⟨-, -, -, hproduct⟩ : scene.Holds w₀ folder exported :=
    hstart.after helsewhere fun out hout => hout
  generalize hg : scene.account.latest = latest, hp : scene.session.product = product at hproduct ⊢
  cases hproduct with
  | empty hentry => exact ⟨fun _ => ⟨rfl, hentry⟩, fun g h => (nomatch h)⟩
  | full hkept =>
    refine ⟨fun h => (nomatch h), fun g h => ?_⟩
    obtain rfl := Option.some.inj h
    exact ⟨_, _, _, rfl, hkept, fun hlost => ⟨hkept.preview hlost hp, fun target out htarget hout =>
      hkept.exportTo hlost hp htarget hout⟩⟩

/-- A program is kept while other parameters are set and a copy of it is made elsewhere. -/
theorem account_of_one_generation :
    let w₀ : Workspace := ⟨[], [(["tmp"], .folder)], 0⟩
    let pattern : Pattern := ⟨none, [⟨0, 10, 10, .stitch⟩]⟩
    let history : List Action :=
      [.generate pattern, .setParameters { jumpSpeed := 1 }, .exportTo ⟨"copy.gcode"⟩]
    let exported := exportLocations w₀ history
    let scene := (Scene.start {} ⟨"tmp"⟩ w₀).after history
    GoElsewhere w₀ ⟨"tmp"⟩ exported ∧
      ∃ g product loc text, scene.account.latest = some g ∧ g.lost = false ∧
        g.parameters.jumpSpeed = 3000 ∧ scene.session.product = some product ∧
        Kept w₀ scene.files ⟨"tmp"⟩ exported g product loc text ∧
        scene.session.preview.run scene.files =
          (.ok (decodeText (hueCycle g.summary.colorCount) text), scene.files) := by
  intro w₀ pattern history exported scene
  have hlocations : exported = [["copy.gcode"]] := by decide +kernel
  have hfolder : w₀.locateFolder ⟨"tmp"⟩ = .ok ["tmp"] := ok_of_toOption (by decide +kernel)
  have helsewhere : GoElsewhere w₀ ⟨"tmp"⟩ exported := by
    intro loc hloc out hout
    rw [hlocations] at hout
    obtain rfl := Except.ok.inj (hfolder.symm.trans hloc)
    rw [List.mem_singleton.1 hout]
    decide
  have hlatest : (scene.account.latest.map fun g => (g.lost, g.parameters.jumpSpeed)) =
      some (false, 3000) := by decide +kernel
  obtain ⟨g, hg, hfacts⟩ := Option.map_eq_some_iff.1 hlatest
  obtain ⟨hlost, hspeed⟩ := Prod.mk.inj hfacts
  obtain ⟨-, hkept⟩ := session_account helsewhere
  obtain ⟨product, loc, text, hproduct, hkept, hfile⟩ := hkept g hg
  exact ⟨helsewhere, g, product, loc, text, hg, hlost, hspeed, hproduct, hkept, (hfile hlost).1⟩

end
end Embroidery
