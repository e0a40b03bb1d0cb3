/-
  What a preview shows, for any list of lines.

  The decoder reads line by line and keeps flags and a buffer.  Its result can be told without them
  (`decodeLines_eq`): cut the instructions of the lines at the colour starts, and number the pieces
  behind them from zero.  A piece is a group if the thread is inserted in it, and its points are
  where the machine stands at each sewing move behind the first insertion.  Where the machine stands
  is settled by all moves so far, whatever colour runs.

  The induction follows the decoder with the piece that it is in.  Two invariants carry it: before
  the first colour start nothing is kept (`Decoder.Blank`), and without thread the buffer is empty
  (`Decoder.Running`).
-/
import Embroidery.Proofs.Preview.RoundTrip

namespace Embroidery

/-! ## Instructions at their places -/

/-- The last number that moves give on an axis, zero if there is none. -/
def lastGiven (axis : Target → Option Binary64) (is : List Instruction) : Binary64 :=
  (is.filterMap fun i => i.target?.bind axis).getLast?.getD 0

/-- Where the machine stands after some instructions. -/
def standing (is : List Instruction) : Point := ⟨lastGiven Target.x is, lastGiven Target.y is⟩

/-- An instruction at its place in a program. -/
structure Place where
  instruction : Instruction
  /-- The program up to the instruction, with it. -/
  upTo : List Instruction

namespace Place

def startsColor (q : Place) : Bool := q.instruction.isColorStart

def inserts (q : Place) : Bool := q.instruction.isInsertion

/-- The point of a sewing move. -/
def point? (q : Place) : Option Point :=
  if q.instruction.isSewing then some (standing q.upTo) else none

end Place

/-- The places of instructions behind others. -/
def placesBehind (before : List Instruction) : List Instruction → List Place
  | [] => []
  | i :: rest => ⟨i, before ++ [i]⟩ :: placesBehind (before ++ [i]) rest

/-- The pieces of a program between its colour starts; what stands before the first one is in none
    of them. -/
def colorPieces (is : List Instruction) : List (List Place) :=
  ((placesBehind [] is).splitOnP Place.startsColor).tail

/-- The points of a piece: those of its sewing moves behind the first insertion of the thread. -/
def piecePoints (piece : List Place) : List Point :=
  (piece.dropWhile fun q => !q.inserts).filterMap Place.point?

/-- The group of a piece with its number; none without an insertion. -/
def pieceGroup (palette : Palette) : List Place × Nat → Option ColorGroup
  | (piece, number) =>
    if piece.any Place.inserts then some ⟨number, palette number, piecePoints piece⟩ else none

/-- The line spells a move, a colour start or an insertion of the thread. -/
def steersPreview (line : String) : Bool :=
  match Instruction.parse line with
  | .ok (.move _ _) => true
  | .ok (.pause (.colorStart _)) => true
  | .ok (.pause .threadInserted) => true
  | _ => false

/-! ## Pieces -/

theorem splitOnP_placesBehind_cons (before : List Instruction) (i : Instruction)
    (rest : List Instruction) :
    (placesBehind before (i :: rest)).splitOnP Place.startsColor =
      if i.isColorStart = true then
        [] :: (placesBehind (before ++ [i]) rest).splitOnP Place.startsColor
      else ((placesBehind (before ++ [i]) rest).splitOnP Place.startsColor).modifyHead
        (⟨i, before ++ [i]⟩ :: ·) := by
  rw [placesBehind, List.splitOnP_cons_eq_if_modifyHead]
  rfl

/-- The pieces from the running one on. -/
theorem exists_splitOnP_placesBehind (before is : List Instruction) :
    ∃ first rest, (placesBehind before is).splitOnP Place.startsColor = first :: rest :=
  List.exists_cons_of_ne_nil (List.splitOnP_ne_nil _ _)

/-- There are as many pieces as colour starts. -/
theorem length_splitOnP_placesBehind (before is : List Instruction) :
    ((placesBehind before is).splitOnP Place.startsColor).length =
      is.countP Instruction.isColorStart + 1 := by
  induction is generalizing before with
  | nil => rfl
  | cons i is ih =>
    rw [splitOnP_placesBehind_cons]
    split
    · next h => rw [List.length_cons, ih, List.countP_cons_of_pos h]
    · next h => rw [List.length_modifyHead, ih, List.countP_cons_of_neg h]

theorem length_colorPieces (is : List Instruction) :
    (colorPieces is).length = is.countP Instruction.isColorStart := by
  rw [colorPieces, List.length_tail, length_splitOnP_placesBehind, Nat.add_sub_cancel]

/-- In front of an insertion nothing counts. -/
theorem pieceGroup_skip (palette : Palette) {q : Place} (h : q.inserts = false)
    (piece : List Place) (number : Nat) :
    pieceGroup palette (q :: piece, number) = pieceGroup palette (piece, number) := by
  have hpoints : piecePoints (q :: piece) = piecePoints piece := by
    rw [piecePoints, List.dropWhile_cons_of_pos (by rw [h]; rfl)]
    rfl
  rw [pieceGroup, pieceGroup, hpoints, List.any_cons, h, Bool.false_or]

/-- Behind an insertion every sewing move counts. -/
theorem pieceGroup_inserts (palette : Palette) {q : Place} (h : q.inserts = true)
    (piece : List Place) (number : Nat) :
    pieceGroup palette (q :: piece, number) =
      some ⟨number, palette number, (q :: piece).filterMap Place.point?⟩ := by
  have hpoints : piecePoints (q :: piece) = (q :: piece).filterMap Place.point? := by
    rw [piecePoints, List.dropWhile_cons_of_neg (by rw [h]; exact Bool.false_ne_true)]
  rw [pieceGroup, hpoints, List.any_cons, h, Bool.true_or, if_pos rfl]

theorem eq_colorStart {i : Instruction} (h : i.isColorStart = true) :
    ∃ color, i = .pause (.colorStart color) := by
  cases i with
  | pause code =>
    cases code with
    | colorStart color => exact ⟨color, rfl⟩
    | _ => exact Bool.noConfusion h
  | _ => exact Bool.noConfusion h

theorem of_passes {i : Instruction} (h : i.passes = true) :
    i.isSewing = false ∧ i.isInsertion = false ∧ i.isColorStart = false := by
  simpa [Instruction.passes, and_assoc] using h

/-! ## Where the machine stands -/

theorem lastGiven_concat (axis : Target → Option Binary64) (is : List Instruction)
    (i : Instruction) :
    lastGiven axis (is ++ [i]) = (i.target?.bind axis).getD (lastGiven axis is) :=
  getLast?_filterMap_concat _ is i 0

theorem standing_move (is : List Instruction) (kind : MoveKind) (t : Target) :
    standing (is ++ [.move kind t]) =
      ⟨t.x.getD (standing is).x, t.y.getD (standing is).y⟩ := by
  rw [standing, lastGiven_concat, lastGiven_concat]
  rfl

theorem standing_other (is : List Instruction) {i : Instruction} (h : i.target? = none) :
    standing (is ++ [i]) = standing is := by
  rw [standing, lastGiven_concat, lastGiven_concat, h]
  rfl

namespace Decoder

variable {palette : Palette} {d : Decoder} {before : List Instruction}

theorem reach_standing (hd : d.position = standing before) (kind : MoveKind) (t : Target) :
    d.reach t = standing (before ++ [.move kind t]) := by
  rw [standing_move, reach, hd]

/-- An instruction that is no sewing move, colour start or insertion changes at most the
    position. -/
theorem apply_moving (hd : d.position = standing before) {i : Instruction}
    (hi : i.passes = true) :
    d.apply palette i = { d with position := standing (before ++ [i]) } := by
  have hkept : i.target? = none → d = { d with position := standing (before ++ [i]) } := by
    intro h
    rw [standing_other before h, ← hd]
  cases i with
  | move kind t =>
    cases kind with
    | free =>
      show { d with position := d.reach t } = _
      rw [reach_standing hd .free]
    | sewing => exact Bool.noConfusion hi
  | pause code =>
    cases code with
    | colorStart color => exact Bool.noConfusion hi
    | threadInserted => exact Bool.noConfusion hi
    | _ => exact hkept rfl
  | _ => exact hkept rfl

/-! ## Before the first colour -/

/-- What a decoder holds before the first colour start: nothing but the position and whether the
    thread was inserted. -/
structure Blank (d : Decoder) (before : List Instruction) : Prop where
  started : d.started = false
  number : d.number = 0
  pending : d.pending = #[]
  sealed : d.sealed = #[]
  position : d.position = standing before

/-- What a decoder holds while a colour runs: without thread, no points. -/
structure Running (d : Decoder) (before : List Instruction) : Prop where
  started : d.started = true
  pending : d.threaded = false → d.pending = #[]
  position : d.position = standing before

theorem start_blank : start.Blank [] := ⟨rfl, rfl, rfl, rfl, rfl⟩

theorem Blank.step (hd : d.Blank before) {i : Instruction} (hi : i.isColorStart = false) :
    (d.apply palette i).Blank (before ++ [i]) := by
  by_cases hpass : i.passes = true
  · rw [apply_moving hd.position hpass]
    exact ⟨hd.started, hd.number, hd.pending, hd.sealed, rfl⟩
  · cases i with
    | move kind t =>
      cases kind with
      | free => exact absurd rfl hpass
      | sewing =>
        -- no colour runs, so the point is not kept
        rw [apply_sewing, hd.started, reach_standing hd.position .sewing]
        exact ⟨rfl, hd.number, hd.pending, hd.sealed, rfl⟩
    | pause code =>
      cases code with
      | colorStart color => exact Bool.noConfusion hi
      | threadInserted =>
        exact ⟨hd.started, hd.number, hd.pending, hd.sealed, hd.position.trans
          (standing_other before (i := .pause .threadInserted) rfl).symm⟩
      | _ => exact absurd rfl hpass
    | _ => exact absurd rfl hpass

variable (palette) in
/-- The first colour start ends nothing. -/
theorem Blank.startColor (hd : d.Blank before) (color : UInt8) :
    (d.apply palette (.pause (.colorStart color))).Running
        (before ++ [.pause (.colorStart color)]) ∧
      (d.apply palette (.pause (.colorStart color))).threaded = false ∧
      (d.apply palette (.pause (.colorStart color))).number = 0 ∧
      (d.apply palette (.pause (.colorStart color))).sealed = #[] := by
  have hstart : d.apply palette (.pause (.colorStart color)) =
      { d with started := true, threaded := false } := by
    rw [apply_colorStart, Decoder.startColor, hd.started]
    rfl
  rw [hstart]
  exact ⟨⟨rfl, fun _ => hd.pending, hd.position.trans (standing_other before rfl).symm⟩, rfl,
    hd.number, hd.sealed⟩

/-! ## While a colour runs -/

/-- The group that the running colour leaves at the end of its piece, if it leaves one. -/
def openGroup (palette : Palette) (d : Decoder) (piece : List Place) : Option ColorGroup :=
  if d.threaded then
    some ⟨d.number, palette d.number, d.pending.toList ++ piece.filterMap Place.point?⟩
  else pieceGroup palette (piece, d.number)

theorem openGroup_of_not_threaded (h : d.threaded = false) (piece : List Place) :
    d.openGroup palette piece = pieceGroup palette (piece, d.number) := by
  rw [openGroup, h]
  rfl

/-- At the end of the program the running colour is closed. -/
theorem groups_finish_openGroup (hd : d.Running before) :
    (d.finish palette).groups = d.sealed.toList ++ (d.openGroup palette []).toList := by
  rw [finish, openGroup, hd.started]
  cases d.threaded with
  | false => exact (List.append_nil _).symm
  | true =>
    show (d.sealed.push _).toList = d.sealed.toList ++ [⟨_, _, d.pending.toList ++ []⟩]
    rw [Array.toList_push, List.append_nil]

variable (palette) in
/-- A colour start closes the running colour as the end of the program does. -/
theorem Running.startColor (hd : d.Running before) (color : UInt8) :
    (d.apply palette (.pause (.colorStart color))).Running
        (before ++ [.pause (.colorStart color)]) ∧
      (d.apply palette (.pause (.colorStart color))).threaded = false ∧
      (d.apply palette (.pause (.colorStart color))).number = d.number + 1 ∧
      (d.apply palette (.pause (.colorStart color))).sealed.toList = (d.finish palette).groups := by
  have hposition : d.position = standing (before ++ [.pause (.colorStart color)]) :=
    hd.position.trans (standing_other before rfl).symm
  rw [apply_colorStart, Decoder.startColor, finish, hd.started]
  cases d.threaded with
  | false => exact ⟨⟨rfl, fun _ => rfl, hposition⟩, rfl, rfl, rfl⟩
  | true => exact ⟨⟨hd.started, fun _ => rfl, hposition⟩, rfl, rfl, rfl⟩

variable (palette) in
/-- Any other instruction extends the piece of the running colour. -/
theorem Running.step (hd : d.Running before) {i : Instruction} (hi : i.isColorStart = false) :
    (d.apply palette i).Running (before ++ [i]) ∧
      (d.apply palette i).number = d.number ∧ (d.apply palette i).sealed = d.sealed ∧
      ∀ piece, (d.apply palette i).openGroup palette piece =
        d.openGroup palette (⟨i, before ++ [i]⟩ :: piece) := by
  by_cases hpass : i.passes = true
  · -- neither an insertion nor a point
    obtain ⟨hsewing, hinsertion, -⟩ := of_passes hpass
    have hinserts : Place.inserts ⟨i, before ++ [i]⟩ = false := hinsertion
    have hpoint : Place.point? ⟨i, before ++ [i]⟩ = none := by
      rw [Place.point?, hsewing]
      rfl
    rw [apply_moving hd.position hpass]
    refine ⟨⟨hd.started, hd.pending, rfl⟩, rfl, rfl, ?_⟩
    intro piece
    rw [openGroup, openGroup, List.filterMap_cons_none hpoint, pieceGroup_skip palette hinserts]
  · cases i with
    | move kind t =>
      cases kind with
      | free => exact absurd rfl hpass
      | sewing =>
        rw [apply_sewing, hd.started, reach_standing hd.position .sewing]
        cases hthread : d.threaded with
        | false =>
          refine ⟨⟨rfl, fun _ => hd.pending hthread, rfl⟩, rfl, rfl, ?_⟩
          intro piece
          have hinserts : Place.inserts ⟨.move .sewing t, before ++ [.move .sewing t]⟩ = false :=
            rfl
          rw [openGroup, openGroup, hthread, pieceGroup_skip palette hinserts]
          rfl
        | true =>
          refine ⟨⟨rfl, fun h => Bool.noConfusion h, rfl⟩, rfl, rfl, ?_⟩
          intro piece
          have hpoint : Place.point? ⟨.move .sewing t, before ++ [.move .sewing t]⟩ =
              some (standing (before ++ [.move .sewing t])) := rfl
          rw [openGroup, openGroup, hthread, List.filterMap_cons_some hpoint]
          show some (ColorGroup.mk _ _ ((d.pending.push _).toList ++ _)) = _
          rw [Array.toList_push, List.append_assoc]
          rfl
    | pause code =>
      cases code with
      | colorStart color => exact Bool.noConfusion hi
      | threadInserted =>
        have hinsert : d.apply palette (.pause .threadInserted) = { d with threaded := true } := rfl
        rw [hinsert]
        refine ⟨⟨hd.started, fun h => Bool.noConfusion h,
          hd.position.trans (standing_other before rfl).symm⟩, rfl, rfl, ?_⟩
        intro piece
        -- a first insertion finds the buffer empty, and a further one changes nothing
        rw [openGroup, openGroup, if_pos rfl]
        cases hthread : d.threaded with
        | false =>
          have hinserts : Place.inserts
              ⟨.pause .threadInserted, before ++ [.pause .threadInserted]⟩ = true := rfl
          rw [hd.pending hthread, pieceGroup_inserts palette hinserts]
          rfl
        | true => rfl
      | _ => exact absurd rfl hpass
    | _ => exact absurd rfl hpass

variable (palette) in
/-- The run lemma while a colour runs: the groups that are closed, that of the running colour with
    the rest of its piece, and those of the pieces behind it. -/
theorem groups_foldl_running (hd : d.Running before) (is : List Instruction) :
    ∃ first rest, (placesBehind before is).splitOnP Place.startsColor = first :: rest ∧
      ((is.foldl (apply palette) d).finish palette).groups =
        d.sealed.toList ++ ((d.openGroup palette first).toList ++
          (rest.zipIdx (d.number + 1)).filterMap (pieceGroup palette)) := by
  induction is generalizing d before with
  | nil =>
    refine ⟨[], [], rfl, ?_⟩
    rw [List.zipIdx_nil, List.filterMap_nil, List.append_nil]
    exact groups_finish_openGroup hd
  | cons i is ih =>
    rw [splitOnP_placesBehind_cons]
    cases hi : i.isColorStart with
    | true =>
      obtain ⟨color, rfl⟩ := eq_colorStart hi
      obtain ⟨hnext, hthread, hnumber, hsealed⟩ := hd.startColor palette color
      obtain ⟨first, rest, hsplit, hgroups⟩ := ih hnext
      refine ⟨[], first :: rest, ?_, ?_⟩
      · rw [hsplit]
        rfl
      · rw [List.foldl_cons, hgroups, hsealed, groups_finish_openGroup hd,
          openGroup_of_not_threaded hthread, hnumber, filterMap_zipIdx_cons, List.append_assoc]
    | false =>
      obtain ⟨hnext, hnumber, hsealed, hgroup⟩ := hd.step palette hi
      obtain ⟨first, rest, hsplit, hgroups⟩ := ih hnext
      refine ⟨⟨i, before ++ [i]⟩ :: first, rest, ?_, ?_⟩
      · rw [hsplit]
        rfl
      · rw [List.foldl_cons, hgroups, hnumber, hsealed, hgroup]

/-- The run lemma before the first colour: the groups of the pieces behind the first start. -/
theorem groups_foldl_blank (hd : d.Blank before) (is : List Instruction) :
    ((is.foldl (apply palette) d).finish palette).groups =
      (((placesBehind before is).splitOnP Place.startsColor).tail.zipIdx).filterMap
        (pieceGroup palette) := by
  induction is generalizing d before with
  | nil =>
    show (d.finish palette).groups = []
    rw [finish, hd.started]
    show d.sealed.toList = []
    rw [hd.sealed]
  | cons i is ih =>
    rw [splitOnP_placesBehind_cons, List.foldl_cons]
    cases hi : i.isColorStart with
    | true =>
      obtain ⟨color, rfl⟩ := eq_colorStart hi
      obtain ⟨hnext, hthread, hnumber, hsealed⟩ := hd.startColor palette color
      obtain ⟨first, rest, hsplit, hgroups⟩ := groups_foldl_running palette hnext is
      rw [hgroups, hsealed, openGroup_of_not_threaded hthread, hnumber, hsplit]
      exact (filterMap_zipIdx_cons _ first rest 0).symm
    | false =>
      obtain ⟨first, rest, hsplit⟩ := exists_splitOnP_placesBehind (before ++ [i]) is
      rw [ih (hd.step hi), hsplit]
      rfl

end Decoder

/-! ## Lines -/

/-- A line that steers nothing changes nothing. -/
theorem readLine_of_not_steersPreview (palette : Palette) (d : Decoder) {line : String}
    (h : steersPreview line = false) : d.readLine palette line = d := by
  unfold steersPreview at h
  unfold Decoder.readLine
  cases hline : Instruction.parse line with
  | error fault => rfl
  | ok i =>
    rw [hline] at h
    cases i with
    | move kind t => exact Bool.noConfusion h
    | pause code =>
      cases code with
      | colorStart color => exact Bool.noConfusion h
      | threadInserted => exact Bool.noConfusion h
      | _ => rfl
    | _ => rfl

theorem countColorStarts_eq (lines : List String) :
    countColorStarts lines = (instructionsOf lines).countP Instruction.isColorStart := by
  rw [countColorStarts, instructionsOf, List.countP_filterMap]
  refine congrArg (fun test => lines.countP test) (funext fun line => ?_)
  unfold startsColor
  cases Instruction.parse line with
  | error fault => rfl
  | ok i =>
    cases i with
    | pause code => cases code <;> rfl
    | move kind t => rfl
    | _ => rfl

/-- **The preview of any lines.**  It has a group for each piece in which the thread is inserted,
    under the number of the piece, with its colour in the palette; the pieces are as many as the
    colour starts.  Lines that are no move, colour start or insertion do nothing. -/
theorem decodeLines_eq (palette : Palette) (lines : List String) :
    decodeLines palette lines =
        ⟨(colorPieces (instructionsOf lines)).zipIdx.filterMap (pieceGroup palette)⟩ ∧
      (colorPieces (instructionsOf lines)).length = countColorStarts lines ∧
      decodeLines palette (lines.filter steersPreview) = decodeLines palette lines := by
  refine ⟨?_, ?_, ?_⟩
  · rw [decodeLines, Decoder.foldl_readLine_eq]
    exact congrArg Preview.mk (Decoder.groups_foldl_blank Decoder.start_blank _)
  · rw [length_colorPieces, countColorStarts_eq]
  · rw [decodeLines, decodeLines, List.foldl_filter]
    refine congrArg (Decoder.finish palette) (congrArg (fun f => lines.foldl f Decoder.start) ?_)
    funext d line
    cases h : steersPreview line with
    | true => rfl
    | false => exact (readLine_of_not_steersPreview palette d h).symm

/-- A colour without thread has no group, but it counts; and a move that leaves an axis out keeps
    it, also across colours. -/
example :
    decodeLines (hueCycle 3)
        ["M0 C100", "G1 X9 Y9", "M0 C1", "G1 X2", "M0 C100", "G1 Y3", "G1 Xinf", "M0 C2", "G1 X5",
          "M0 C3", "M0 C100", "oops", "G1 Y7"] =
      ⟨[⟨0, hueCycle 3 0, [⟨2, 3⟩, ⟨2, 3⟩]⟩, ⟨2, hueCycle 3 2, [⟨5, 7⟩]⟩]⟩ := by
  decide +kernel

end Embroidery
