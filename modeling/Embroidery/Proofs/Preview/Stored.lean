/-
  Previews of program files agree with previews of their text.

  A file is cut at line feeds before its bytes are read, and every line loses a carriage return at
  its end.  A text is cut after it was read, and only a line that has a line feed loses one.  Both
  ways give lines from the same pieces of the file (`fileLines_eq`, `linesOf_lossyText`), and the
  lines that differ spell the same instruction, since blanks around an instruction are passed over
  (`instructionsOf_fileLines`).  All that a preview shows and all that is counted depends on those
  instructions alone.

  The colours of a file are counted before it is previewed.  The number of a group is that of the
  colour start that opens it, so it is below that count (`number_lt_countColorStarts`).
-/
import Embroidery.Program.Stored
import Embroidery.Proofs.Files.Script
import Embroidery.Proofs.Preview.Decoding
import Embroidery.Proofs.Text.Utf8

namespace Embroidery

/-! ## Lines of a file and of its text -/

/-- A carriage return at the end of a line is blank. -/
theorem trim_carriageReturn (cs : List Char) : trim (cs ++ ['\r']) = trim cs := by
  have hend : trimEnd (cs ++ ['\r']) = trimEnd cs := by
    rw [trimEnd, List.reverse_append]
    exact congrArg List.reverse (List.dropWhile_cons_of_pos (by decide))
  rw [trim, trim, ← trimStart_trimEnd, ← trimStart_trimEnd, hend]

/-- A line is read the same with a carriage return at its end and without. -/
theorem parse_dropLastIf (cs : List Char) :
    Instruction.parse (String.ofList (dropLastIf (· == '\r') cs)) =
      Instruction.parse (String.ofList cs) := by
  by_cases hlast : cs.getLast? = some '\r'
  · obtain ⟨before, rfl⟩ := List.getLast?_eq_some_iff.1 hlast
    rw [dropLastIf_mark rfl, Instruction.parse, Instruction.parse, String.toList_ofList,
      String.toList_ofList, Instruction.ofChars, Instruction.ofChars, trim_carriageReturn]
  · rw [dropLastIf_of_ne hlast]

/-- The pieces of a file between line feeds, with whether they end at one. -/
def filePieces (content : ByteArray) : List (List UInt8 × Bool) :=
  cutLines (· == 0x0A) content.data.toList

theorem fileLines_eq (content : ByteArray) :
    fileLines content = (filePieces content).map fun piece =>
      String.ofList (dropLastIf (· == '\r') (lossyChars piece.1)) := by
  refine List.map_congr_left fun piece _ => ?_
  rw [dropLastIf_lossyChars]
  rfl

theorem linesOf_lossyText (content : ByteArray) :
    linesOf (lossyText content.data.toList) = (filePieces content).map fun piece =>
      String.ofList (if piece.2 then dropLastIf (· == '\r') (lossyChars piece.1)
        else lossyChars piece.1) := by
  rw [linesOf, lossyText, String.toList_ofList, textLines, cutLines_lossyChars, List.map_map,
    List.map_map]
  rfl

/-- The lines of a file spell the instructions that the lines of its text spell. -/
theorem instructionsOf_fileLines (content : ByteArray) :
    instructionsOf (fileLines content) =
      instructionsOf (linesOf (lossyText content.data.toList)) := by
  rw [instructionsOf, instructionsOf, fileLines_eq, linesOf_lossyText, List.filterMap_map,
    List.filterMap_map]
  refine congrArg (fun read => (filePieces content).filterMap read) (funext fun piece => ?_)
  refine congrArg Except.toOption ?_
  dsimp only
  split
  · rfl
  · exact parse_dropLastIf (lossyChars piece.1)

theorem length_fileLines (content : ByteArray) :
    (fileLines content).length = (linesOf (lossyText content.data.toList)).length := by
  rw [fileLines_eq, linesOf_lossyText, List.length_map, List.length_map]

/-! ## What depends on the instructions alone -/

theorem decodeLines_congr (palette : Palette) {lines others : List String}
    (h : instructionsOf lines = instructionsOf others) :
    decodeLines palette lines = decodeLines palette others := by
  rw [decodeLines, decodeLines, Decoder.foldl_readLine_eq, Decoder.foldl_readLine_eq, h]

theorem countColorStarts_congr {lines others : List String}
    (h : instructionsOf lines = instructionsOf others) :
    countColorStarts lines = countColorStarts others := by
  rw [countColorStarts_eq, countColorStarts_eq, h]

/-- The number of a group is below the number of colour starts. -/
theorem number_lt_countColorStarts {palette : Palette} {lines : List String} {g : ColorGroup}
    (hg : g ∈ (decodeLines palette lines).groups) : g.number < countColorStarts lines := by
  rw [decodeLines, Decoder.foldl_readLine_eq,
    Decoder.groups_foldl_blank Decoder.start_blank] at hg
  obtain ⟨⟨piece, number⟩, hmem, hgroup⟩ := List.mem_filterMap.1 hg
  have hnumber : number < (colorPieces (instructionsOf lines)).length :=
    List.snd_lt_of_mem_zipIdx hmem
  rw [length_colorPieces, ← countColorStarts_eq] at hnumber
  rw [pieceGroup] at hgroup
  split at hgroup
  · rw [← Option.some.inj hgroup]
    exact hnumber
  · cases hgroup

/-! ## Reading files -/

section
variable {w : Workspace} {path : Path} {content : ByteArray} {held cause : Type}

/-- A sink that refuses no line takes all lines. -/
theorem Sink.takeAll_of_never {sink : Sink held cause}
    (hsink : ∀ h line, (sink.take h line).2 = none)
    (h : held) (lines : List String) :
    sink.takeAll h lines = (lines.foldl (fun h line => (sink.take h line).1) h, none) := by
  induction lines generalizing h with
  | nil => rfl
  | cons line rest ih =>
    rw [takeAll]
    split
    · next h' heq => rw [ih, List.foldl_cons, heq]
    · next h' why heq =>
      have hrefused := hsink h line
      rw [heq] at hrefused
      exact nomatch hrefused

/-- What can be read is a file. -/
theorem Workspace.find_of_read (hread : w.read path = .ok content) :
    w.find path = .ok (.file content) := by
  unfold Workspace.read at hread
  cases hfind : w.find path with
  | error fault =>
    rw [hfind] at hread
    exact nomatch hread
  | ok entry =>
    rw [hfind] at hread
    cases entry with
    | file found => rw [Except.ok.inj (show Except.ok found = Except.ok content from hread)]
    | folder => exact nomatch hread

variable (cause) in
/-- A file that can be read is found, with its size. -/
theorem run_find (hread : w.read path = .ok content) :
    (ProgramFile.find path : Script (Except (ProgramReadError cause) ProgramFile)).run w =
      (.ok ⟨path, content.size⟩, w) := by
  rw [ProgramFile.find, Script.run_bind, Script.run_look, Workspace.find_of_read hread]
  rfl

/-- A sink that refuses no line is given all lines of the file. -/
theorem run_readInto (hread : w.read path = .ok content) {sink : Sink held cause}
    (hsink : ∀ h line, (sink.take h line).2 = none) (h : held) (size : Nat) :
    (ProgramFile.readInto sink h ⟨path, size⟩).run w =
      (((fileLines content).foldl (fun h line => (sink.take h line).1) h,
        .ok ⟨content.size, (fileLines content).length, size⟩), w) := by
  rw [ProgramFile.readInto, Script.run_bind, Script.run_read, hread]
  dsimp only
  rw [Sink.takeAll_of_never hsink]
  rfl

/-- To read a program file changes no file. -/
theorem looksOnly_readInto (sink : Sink held cause) (h : held) (file : ProgramFile) :
    (file.readInto sink h).LooksOnly := by
  refine (Script.looksOnly_read file.path).bind fun answer => ?_
  cases answer with
  | error why => exact Script.looksOnly_pure _
  | ok content =>
    dsimp only
    split
    · exact Script.looksOnly_pure _
    · exact Script.looksOnly_pure _

theorem looksOnly_decode (palette : Palette) (file : ProgramFile) :
    (file.decode palette).LooksOnly :=
  (looksOnly_readInto _ _ file).bind fun _ => Script.looksOnly_pure _

theorem looksOnly_previewFile (path : Path) (colors : Option Nat) :
    (previewFile path colors).LooksOnly := by
  have hfind : (ProgramFile.find path :
      Script (Except (ProgramReadError Empty) ProgramFile)).LooksOnly := by
    refine (Script.looksOnly_look path).bind fun answer => ?_
    split
    · exact Script.looksOnly_pure _
    · exact Script.looksOnly_pure _
    · exact Script.looksOnly_pure _
  refine hfind.bind fun found => ?_
  cases found with
  | error why => exact Script.looksOnly_pure _
  | ok file =>
    cases colors with
    | some n => exact looksOnly_decode _ file
    | none =>
      have hcount : file.countColors.LooksOnly :=
        (looksOnly_readInto _ _ file).bind fun _ => Script.looksOnly_pure _
      refine hcount.bind fun count => ?_
      cases count with
      | error why => exact Script.looksOnly_pure _
      | ok n => exact looksOnly_decode _ file

/-- Lines that pass a test, counted one after the other. -/
theorem foldl_count {α : Type} (test : α → Bool) (as : List α) (n : Nat) :
    as.foldl (fun n a => if test a then n + 1 else n) n = n + as.countP test := by
  induction as generalizing n with
  | nil => rfl
  | cons a rest ih =>
    rw [List.foldl_cons, ih, List.countP_cons]
    split <;> omega

theorem run_countColors (hread : w.read path = .ok content) (size : Nat) :
    (ProgramFile.countColors ⟨path, size⟩).run w =
      (.ok (countColorStarts (linesOf (lossyText content.data.toList))), w) := by
  rw [ProgramFile.countColors, Script.run_bind, run_readInto hread (fun _ _ => rfl)]
  show (Except.ok
    ((fileLines content).foldl (fun n line => if startsColor line then n + 1 else n) 0),
    w) = _
  rw [foldl_count, Nat.zero_add, ← countColorStarts_congr (instructionsOf_fileLines content)]
  rfl

theorem run_decode (hread : w.read path = .ok content) (palette : Palette) (size : Nat) :
    (ProgramFile.decode palette ⟨path, size⟩).run w =
      (.ok (decodeText palette (lossyText content.data.toList)), w) := by
  rw [ProgramFile.decode, Script.run_bind, run_readInto hread (fun _ _ => rfl), decodeText,
    ← decodeLines_congr palette (instructionsOf_fileLines content)]
  rfl

/-- The preview of a file is that of its text, in the hues of the colours that are given or counted
    in it. -/
theorem run_previewFile (hread : w.read path = .ok content) (colors : Option Nat) :
    (previewFile path colors).run w =
      (.ok (decodeText
        (hueCycle (colors.getD (countColorStarts (linesOf (lossyText content.data.toList)))))
        (lossyText content.data.toList)), w) := by
  rw [previewFile, Script.run_bind, run_find Empty hread]
  dsimp only
  cases colors with
  | some n => exact run_decode hread (hueCycle n) content.size
  | none =>
    dsimp only
    rw [Script.run_bind, run_countColors hread]
    exact run_decode hread _ content.size

end

/-- **A program file is previewed as its text.**  Whatever the bytes of the file are, it is the same
    to read it line by line and to read it as a whole: for the preview in any palette, for the
    number of colour starts and for the number of lines.  A preview in the hues of the colours
    counted in the file gives each of its groups a number below that count. -/
theorem stored_preview_eq {w : Workspace} {path : Path} {content : ByteArray}
    (hread : w.read path = .ok content) :
    let text := lossyText content.data.toList
    let count := countColorStarts (linesOf text)
    (ProgramFile.find path : Script (Except (ProgramReadError Empty) ProgramFile)).run w =
        (.ok ⟨path, content.size⟩, w) ∧
      (∀ palette size, (ProgramFile.decode palette ⟨path, size⟩).run w =
        (.ok (decodeText palette text), w)) ∧
      (∀ size, (ProgramFile.countColors ⟨path, size⟩).run w = (.ok count, w)) ∧
      (∀ {held cause : Type} (sink : Sink held cause) (h : held) (size : Nat),
        (∀ h line, (sink.take h line).2 = none) →
          (ProgramFile.readInto sink h ⟨path, size⟩).run w =
            (((fileLines content).foldl (fun h line => (sink.take h line).1) h,
              .ok ⟨content.size, (linesOf text).length, size⟩), w)) ∧
      (previewFile path none).run w = (.ok (decodeText (hueCycle count) text), w) ∧
      ∀ g ∈ (decodeText (hueCycle count) text).groups, g.number < count := by
  intro text count
  refine ⟨run_find Empty hread, run_decode hread, run_countColors hread, ?_,
    run_previewFile hread none, fun g hg => number_lt_countColorStarts hg⟩
  intro held cause sink h size hsink
  rw [run_readInto hread hsink, length_fileLines]

/-- A file with a character that breaks off at a line feed, lines ended in both ways and a last line
    that has a carriage return but no line feed. -/
theorem stored_preview_of_broken_text :
    let content : ByteArray := ⟨#[
    0x4D, 0x30, 0x20, 0x43, 0x31, 0x0D, 0x0A,
    0x4D, 0x30, 0x20, 0x43, 0x31, 0x30, 0x30, 0x0A,
    0x47, 0x31, 0x20, 0x58, 0x31, 0x20, 0xE2, 0x0A,
    0x47, 0x31, 0x20, 0x59, 0x32, 0x0D]⟩
    let w : Workspace := ⟨[], [(["p"], .file content)], 0⟩
    w.read ⟨"p"⟩ = .ok content ∧ (previewFile ⟨"p"⟩ none).run w =
      (.ok ⟨[⟨0, hueCycle 1 0, [⟨1, 0⟩, ⟨1, 2⟩]⟩]⟩, w) := by
  intro content w
  have hread : w.read ⟨"p"⟩ = .ok content := by rfl
  obtain ⟨-, -, -, -, hpreview, -⟩ := stored_preview_eq hread
  refine ⟨hread, hpreview.trans ?_⟩
  have hdecode : decodeText (hueCycle (countColorStarts (linesOf (lossyText content.data.toList))))
      (lossyText content.data.toList) = ⟨[⟨0, hueCycle 1 0, [⟨1, 0⟩, ⟨1, 2⟩]⟩]⟩ := by
    decide +kernel
  rw [hdecode]

end Embroidery
