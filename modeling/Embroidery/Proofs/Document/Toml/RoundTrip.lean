/-
  Documents come back from TOML.

  A file is read statement by statement, and what it has built up so far is a tree of tables
  (`Reads`).  While the reader goes through what the writer wrote, the table that is open is the
  last entry of the table around it; so the tree is known from the tables on the way to it (`fill`),
  and only the innermost one grows (`alter_fill`).  Values come before tables, and members that are
  null are not there (`entriesOf`).

  A table can be stored if its keys are bare and distinct, its values have a text, and its tables
  can be stored (`Storable`).  The induction over it carries the path that leads to the table.
-/
import Embroidery.Proofs.Document.Toml.Values

namespace Embroidery.Toml

variable {cs left rest : List Char}

/-! ## Entries -/

/-- The key is not in use. -/
def Fresh (key : String) (entries : Entries) : Prop := ∀ e ∈ entries, e.1 ≠ key

variable {key : String} {entries : Entries} {node : Node}

theorem Fresh.nil : Fresh key [] := fun _ h => absurd h List.not_mem_nil

theorem Fresh.append {more : Entries} (h : Fresh key entries) (hmore : Fresh key more) :
    Fresh key (entries ++ more) := by
  intro e he
  rcases List.mem_append.1 he with he | he
  · exact h e he
  · exact hmore e he

theorem Fresh.find? (h : Fresh key entries) : entries.find? (fun e => e.1 = key) = none :=
  List.find?_eq_none.2 fun e he => by rw [decide_eq_true_eq]; exact h e he

theorem Fresh.nodeAt (h : Fresh key entries) : nodeAt entries key = none := by
  rw [Toml.nodeAt, h.find?]
  rfl

theorem Fresh.setNode (h : Fresh key entries) (node : Node) :
    setNode entries key node = entries ++ [(key, node)] := by
  refine if_neg ?_
  rw [List.any_eq_true]
  rintro ⟨e, he, hkey⟩
  exact h e he (of_decide_eq_true hkey)

theorem Fresh.nodeAt_last (h : Fresh key entries) (node : Node) :
    Toml.nodeAt (entries ++ [(key, node)]) key = some node := by
  have hself : [(key, node)].find? (fun e => e.1 = key) = some (key, node) :=
    List.find?_cons_of_pos (decide_eq_true rfl)
  rw [Toml.nodeAt, List.find?_append, h.find?, hself]
  rfl

theorem Fresh.setNode_last (h : Fresh key entries) (old new : Node) :
    Toml.setNode (entries ++ [(key, old)]) key new = entries ++ [(key, new)] := by
  have hthere : ((entries ++ [(key, old)]).any fun e => e.1 = key) = true := by
    rw [List.any_eq_true]
    exact ⟨(key, old), List.mem_append_right _ (List.mem_singleton.2 rfl), decide_eq_true rfl⟩
  have hsame : entries.map (fun e => if e.1 = key then (key, new) else e) = entries := by
    refine (List.map_congr_left fun e he => if_neg (h e he)).trans (List.map_id' entries)
  rw [Toml.setNode, if_pos hthere, List.map_append, hsame]
  show entries ++ [if key = key then (key, new) else (key, old)] = _
  rw [if_pos rfl]

/-! ## The tables on the way -/

/-- A table on the way to the open one: its entries so far, and the key that leads on. -/
abbrev Crumb := Entries × String

/-- The tree in which tables lead to one with given entries, which is the last in each. -/
def fill : List Crumb → Entries → Entries
  | [], entries => entries
  | (before, key) :: crumbs, entries => before ++ [(key, .table .header (fill crumbs entries))]

/-- The path of the table that is open. -/
def pathOf (crumbs : List Crumb) : List String := crumbs.map Prod.snd

theorem fill_append (crumbs : List Crumb) (before : Entries) (key : String) (entries : Entries) :
    fill (crumbs ++ [(before, key)]) entries =
      fill crumbs (before ++ [(key, .table .header entries)]) := by
  induction crumbs with
  | nil => rfl
  | cons crumb crumbs ih => rw [List.cons_append, fill, fill, ih]

/-- A change at the end of the path changes the innermost table only. -/
theorem alter_fill {crumbs : List Crumb} (h : ∀ c ∈ crumbs, Fresh c.2 c.1)
    (change : Origin → Entries → Option Entries) (entries : Entries) :
    alter .path change (pathOf crumbs) .header (fill crumbs entries) =
      (change .header entries).map (fill crumbs) := by
  induction crumbs with
  | nil =>
    show change .header entries = (change .header entries).map id
    rw [Option.map_id]
    rfl
  | cons crumb crumbs ih =>
    obtain ⟨hfresh, hothers⟩ := List.forall_mem_cons.1 h
    obtain ⟨before, key⟩ := crumb
    have hopen : ¬(Origin.path = .dotted ∧ Origin.header = .header) := fun h => nomatch h.1
    show alter .path change (key :: pathOf crumbs) .header
      (fill ((before, key) :: crumbs) entries) = _
    rw [alter, fill, Fresh.nodeAt_last hfresh]
    dsimp only
    rw [if_neg hopen, ih hothers, Option.map_map]
    congr 1
    funext inner
    exact Fresh.setNode_last hfresh _ _

/-- A key with its value is added to the table that is open. -/
theorem key_fill {crumbs : List Crumb} (h : ∀ c ∈ crumbs, Fresh c.2 c.1) (hkey : Fresh key entries)
    (d : Document) :
    Progress.key ⟨fill crumbs entries, pathOf crumbs⟩ [] key d =
      some ⟨fill crumbs (entries ++ [(key, .value d)]), pathOf crumbs⟩ := by
  have hadd : addKey [] key d .header entries = some (entries ++ [(key, .value d)]) := by
    rw [addKey, alter, setValue, hkey.nodeAt, hkey.setNode]
    rfl
  rw [Progress.key]
  dsimp only
  rw [alter_fill h, hadd]
  rfl

/-- A header opens an empty table in the table at its path. -/
theorem header_fill {crumbs : List Crumb} (h : ∀ c ∈ crumbs, Fresh c.2 c.1)
    (hkey : Fresh key entries) (current : List String) :
    Progress.header ⟨fill crumbs entries, current⟩ false (pathOf crumbs) key =
      some ⟨fill (crumbs ++ [(entries, key)]) [], pathOf (crumbs ++ [(entries, key)])⟩ := by
  have hopen : openTable key .header entries = some (entries ++ [(key, .table .header [])]) := by
    rw [openTable, hkey.nodeAt]
    dsimp only
    rw [hkey.setNode]
  rw [Progress.header, if_neg Bool.false_ne_true]
  dsimp only
  rw [alter_fill h, hopen, fill_append, pathOf, pathOf, List.map_append]
  rfl

/-! ## Keys -/

/-- The key stands for itself. -/
def IsBare (key : String) : Prop := key.toList ≠ [] ∧ key.toList.all isBareChar = true

instance (key : String) : Decidable (IsBare key) :=
  inferInstanceAs (Decidable (key.toList ≠ [] ∧ key.toList.all isBareChar = true))

theorem IsBare.isBareChar (h : IsBare key) : ∀ c ∈ key.toList, isBareChar c = true :=
  List.all_eq_true.1 h.2

theorem isWordChar_of_isBareChar {c : Char} (h : isBareChar c = true) : isWordChar c = true := by
  rw [isBareChar] at h
  rw [isWordChar]
  simp only [Bool.or_eq_true] at h ⊢
  rcases h with (h | h) | h
  · exact .inl (.inl (.inl (.inl (.inl h))))
  · exact .inl (.inl (.inl (.inr h)))
  · exact .inl (.inl (.inr h))

/-- The first character of a bare key starts nothing else. -/
theorem IsBare.head (h : IsBare key) :
    ∃ c tail, key.toList = c :: tail ∧ Starts c ∧ c ≠ '"' ∧ c ≠ '\'' ∧ c ≠ '[' := by
  obtain ⟨c, tail, hchars⟩ := List.exists_cons_of_ne_nil h.1
  have hc := h.isBareChar c (hchars ▸ List.mem_cons_self)
  obtain ⟨hstart, -, hquote, hliteral, hlist, -⟩ :=
    starts_of_isWordChar (isWordChar_of_isBareChar hc)
  exact ⟨c, tail, hchars, hstart, hquote, hliteral, hlist⟩

theorem takeKeyPart_append (h : IsBare key) (hrest : StopsAt isBareChar rest) :
    takeKeyPart (key.toList ++ rest) = some (key, rest) := by
  obtain ⟨c, tail, hchars, -, hquote, hliteral, -⟩ := h.head
  have hrun : takeKeyPart (key.toList ++ rest) =
      if ((key.toList ++ rest).takeWhile isBareChar).isEmpty then none
      else some (String.ofList ((key.toList ++ rest).takeWhile isBareChar),
        (key.toList ++ rest).dropWhile isBareChar) := by
    rw [takeKeyPart.eq_def, hchars, List.cons_append]
    split
    · next heq => exact absurd (List.cons.inj heq).1 hquote
    · next heq => exact absurd (List.cons.inj heq).1 hliteral
    · rfl
  rw [hrun, hrest.takeWhile_run h.isBareChar, hrest.dropWhile_run h.isBareChar,
    String.ofList_toList, if_neg]
  rw [List.isEmpty_iff]
  exact h.1

/-- The last part of a key. -/
theorem takeKeyParts_last (h : IsBare key) (hrest : StopsAt isBareChar rest)
    (hpoint : ∀ tail, skipSpace rest ≠ '.' :: tail) (fuel : Nat) :
    takeKeyParts (fuel + 1) (key.toList ++ rest) = some ([key], skipSpace rest) := by
  have hskip : skipSpace (key.toList ++ rest) = key.toList ++ rest := by
    obtain ⟨c, tail, hchars, hstart, -⟩ := h.head
    rw [hchars, List.cons_append, skipSpace_cons hstart.space]
  rw [takeKeyParts, hskip, takeKeyPart_append h hrest, Option.bind_eq_bind, Option.bind_some]
  dsimp only
  split
  · next tail heq => exact absurd heq (hpoint tail)
  · rfl

/-- A part of a key with others behind it. -/
theorem takeKeyParts_cons (h : IsBare key) {fuel : Nat} {parts : List String}
    (hparts : takeKeyParts fuel cs = some (parts, rest)) :
    takeKeyParts (fuel + 1) (key.toList ++ '.' :: cs) = some (key :: parts, rest) := by
  have hskip : skipSpace (key.toList ++ '.' :: cs) = key.toList ++ '.' :: cs := by
    obtain ⟨c, tail, hchars, hstart, -⟩ := h.head
    rw [hchars, List.cons_append, skipSpace_cons hstart.space]
  rw [takeKeyParts, hskip, takeKeyPart_append h (.cons (by decide)), Option.bind_eq_bind,
    Option.bind_some]
  dsimp only
  rw [skipSpace_cons (by decide)]
  show (takeKeyParts fuel cs).bind (fun taken => some (key :: taken.1, taken.2)) = _
  rw [hparts]
  rfl

/-- The key of a header, with points between its parts. -/
def pathChars (path : List String) : List Char :=
  ((path.map String.toList).intersperse ['.']).flatten

theorem pathChars_cons (key next : String) (path : List String) :
    pathChars (key :: next :: path) = key.toList ++ '.' :: pathChars (next :: path) := rfl

/-- Nothing in a path looks like the second bracket of a header. -/
theorem pathChars_head {path : List String} (hne : path ≠ []) (hpath : ∀ k ∈ path, IsBare k) :
    ∃ c tail, pathChars path = c :: tail ∧ c ≠ '[' := by
  obtain ⟨key, path, rfl⟩ := List.exists_cons_of_ne_nil hne
  obtain ⟨c, tail, hchars, -, -, -, hc⟩ := (hpath key List.mem_cons_self).head
  cases path with
  | nil => exact ⟨c, tail, by rw [pathChars, ← hchars]; simp, hc⟩
  | cons next path => exact ⟨c, _, by rw [pathChars_cons, hchars]; rfl, hc⟩

theorem takeKeyParts_pathChars {path : List String} (hne : path ≠ []) (hpath : ∀ k ∈ path, IsBare k)
    {fuel : Nat} (hfuel : path.length ≤ fuel) (rest : List Char) :
    takeKeyParts fuel (pathChars path ++ ']' :: rest) = some (path, ']' :: rest) := by
  induction path generalizing fuel with
  | nil => exact absurd rfl hne
  | cons key path ih =>
    obtain ⟨hkey, hothers⟩ := List.forall_mem_cons.1 hpath
    obtain ⟨fuel, rfl⟩ := Nat.exists_eq_succ_of_ne_zero (show fuel ≠ 0 by
      rw [List.length_cons] at hfuel
      omega)
    cases path with
    | nil =>
      have hchars : pathChars [key] ++ ']' :: rest = key.toList ++ ']' :: rest := by
        rw [pathChars]
        simp
      rw [hchars, takeKeyParts_last hkey (.cons (by decide)) (fun tail h => ?_) fuel,
        skipSpace_cons (by decide)]
      rw [skipSpace_cons (by decide)] at h
      exact nomatch (List.cons.inj h).1
    | cons next path =>
      rw [pathChars_cons, List.append_assoc, List.cons_append]
      exact takeKeyParts_cons hkey
        (ih (List.cons_ne_nil _ _) hothers (Nat.le_of_succ_le_succ hfuel))

theorem takeKey_pathChars {path : List String} (hpath : ∀ k ∈ path ++ [key], IsBare k)
    (hlength : (path ++ [key]).length < depthLimit) (rest : List Char) :
    takeKey (pathChars (path ++ [key]) ++ ']' :: rest) = some (path, key, ']' :: rest) := by
  have hparts := takeKeyParts_pathChars
    (List.append_ne_nil_of_right_ne_nil path (List.cons_ne_nil key [])) hpath
    (Nat.le_sub_one_of_lt hlength) rest
  rw [takeKey, hparts]
  simp

/-! ## Statements -/

/-- The text takes the reader from one state of the file to another, whatever stands behind it. -/
def Reads (p : Progress) (text : List Char) (p' : Progress) : Prop :=
  ∀ (fuel : Nat) (rest : List Char), (text ++ rest).length < fuel →
    ∃ fuel', rest.length < fuel' ∧
      takeStatements fuel p (text ++ rest) = takeStatements fuel' p' rest

theorem Reads.nil (p : Progress) : Reads p [] p := fun fuel _ h => ⟨fuel, h, rfl⟩

theorem Reads.append {p p' p'' : Progress} {text text' : List Char} (h : Reads p text p')
    (h' : Reads p' text' p'') : Reads p (text ++ text') p'' := by
  intro fuel rest hfuel
  rw [List.append_assoc] at hfuel ⊢
  obtain ⟨fuel', hfuel', hread⟩ := h fuel (text' ++ rest) hfuel
  obtain ⟨fuel'', hfuel'', hread'⟩ := h' fuel' rest hfuel'
  exact ⟨fuel'', hfuel'', hread.trans hread'⟩

/-- The whole file. -/
theorem Reads.finish {p p' : Progress} {text : List Char} (h : Reads p text p') :
    takeStatements (text.length + 1) p text = some p' := by
  obtain ⟨fuel, hfuel, hread⟩ := h (text.length + 1) [] (by rw [List.append_nil]; omega)
  obtain ⟨fuel, rfl⟩ := Nat.exists_eq_succ_of_ne_zero (show fuel ≠ 0 by omega)
  rw [List.append_nil] at hread
  rw [hread]
  rfl

/-- A blank line. -/
theorem Reads.blank (p : Progress) : Reads p ['\n'] p := by
  intro fuel rest hfuel
  obtain ⟨fuel, rfl⟩ := Nat.exists_eq_succ_of_ne_zero (show fuel ≠ 0 by omega)
  refine ⟨fuel, ?_, ?_⟩
  · rw [List.length_append, List.length_singleton] at hfuel
    omega
  · rw [List.singleton_append, takeStatements, skipSpace_cons (by decide)]
    rfl

theorem endLine_break (cs : List Char) : endLine ('\n' :: cs) = some cs := rfl

/-- A statement on a line of its own, from its first character on. -/
theorem Reads.statement {p p' : Progress} {c : Char} {text : List Char} (hc : Starts c)
    (h : ∀ (fuel : Nat) (rest : List Char), (c :: text ++ rest).length ≤ fuel →
      takeStatement fuel p (c :: text ++ rest) = some (p', rest)) : Reads p (c :: text) p' := by
  intro fuel rest hfuel
  obtain ⟨fuel, rfl⟩ := Nat.exists_eq_succ_of_ne_zero (show fuel ≠ 0 by omega)
  have hread := h (fuel + 1) rest (by omega)
  have hend : endLine (c :: (text ++ rest)) = none := by
    rw [endLine, skipSpace_cons hc.space, skipComment_cons hc.comment]
    exact dropBreak_cons hc.feed hc.carriage _
  refine ⟨fuel, ?_, ?_⟩
  · rw [List.length_append, List.length_cons] at hfuel
    omega
  · rw [List.cons_append] at hread ⊢
    rw [takeStatements, skipSpace_cons hc.space]
    dsimp only
    rw [hend]
    dsimp only
    rw [hread]
    rfl

/-- A value stands on the line of its key. -/
theorem lineChars_eq {n : Nat} {d : Document} (hd : Expressible n d) (key : String) :
    lineChars (some key, d) = key.toList ++ ' ' :: '=' :: ' ' :: (valueChars d ++ ['\n']) := by
  have happend : key.toList ++ " = ".toList ++ valueChars d ++ ['\n'] =
      key.toList ++ ' ' :: '=' :: ' ' :: (valueChars d ++ ['\n']) := by
    rw [List.append_assoc, List.append_assoc]
    rfl
  cases hd with
  | bool => exact happend
  | integer => exact happend
  | float => exact happend
  | string => exact happend
  | list => exact happend

theorem takeKey_line (h : IsBare key) (cs : List Char) :
    takeKey (key.toList ++ ' ' :: '=' :: cs) = some ([], key, '=' :: cs) := by
  have hskip : skipSpace (' ' :: '=' :: cs) = '=' :: cs := by
    rw [skipSpace, List.dropWhile_cons_of_pos (by decide)]
    exact skipSpace_cons (by decide) cs
  have hparts := takeKeyParts_last h (.cons (by decide))
    (fun tail heq => nomatch (List.cons.inj (hskip.symm.trans heq)).1) (depthLimit - 2)
  rw [hskip] at hparts
  have hfuel : depthLimit - 1 = depthLimit - 2 + 1 := rfl
  rw [takeKey, hfuel, hparts]
  rfl

/-- A statement that starts with no bracket is a key with its value. -/
theorem takeStatement_key {fuel : Nat} {p p' : Progress} {d : Document} {c : Char} (hc : c ≠ '[')
    (hkey : takeKey (c :: cs) = some ([], key, '=' :: ' ' :: left))
    (hvalue : takeValue (2 * fuel) (depthLimit - 1) (skipSpace (' ' :: left)) =
      some (d, '\n' :: rest))
    (hp : p.key [] key d = some p') : takeStatement fuel p (c :: cs) = some (p', rest) := by
  rw [takeStatement.eq_def]
  split
  · next heq => exact absurd (List.cons.inj heq).1 hc
  · next heq => exact absurd (List.cons.inj heq).1 hc
  · rw [hkey, Option.bind_eq_bind, Option.bind_some]
    dsimp only
    rw [dropMark, if_pos rfl, Option.bind_eq_bind, Option.bind_some, hvalue, Option.bind_eq_bind,
      Option.bind_some]
    dsimp only
    rw [endLine_break, Option.bind_eq_bind, Option.bind_some, hp]
    rfl

/-- A key with its value. -/
theorem Reads.line {p p' : Progress} {d : Document} (hkey : IsBare key)
    (hd : Expressible (depthLimit - 1) d) (hp : p.key [] key d = some p') :
    Reads p (lineChars (some key, d)) p' := by
  obtain ⟨c, tail, hchars, hstart, -, -, hlist⟩ := hkey.head
  obtain ⟨first, after, hvalue, hfirst, -⟩ := head_valueChars hd
  have hread := isRead_of_expressible hd
  rw [lineChars_eq hd, hchars, List.cons_append]
  refine .statement hstart fun fuel rest hfuel => ?_
  have htext : c :: (tail ++ ' ' :: '=' :: ' ' :: (valueChars d ++ ['\n'])) ++ rest =
      key.toList ++ ' ' :: '=' :: ' ' :: (valueChars d ++ '\n' :: rest) := by
    rw [hchars]
    simp
  have hskip : skipSpace (' ' :: (valueChars d ++ '\n' :: rest)) =
      valueChars d ++ '\n' :: rest := by
    rw [skipSpace, List.dropWhile_cons_of_pos (by decide), hvalue, List.cons_append]
    exact skipSpace_cons hfirst.space _
  have hkeyRead := takeKey_line hkey (' ' :: (valueChars d ++ '\n' :: rest))
  rw [htext] at hfuel ⊢
  rw [hchars, List.cons_append] at hkeyRead ⊢
  refine takeStatement_key hlist hkeyRead ?_ hp
  rw [hskip]
  refine hread _ _ _ (Nat.le_refl _) (.cons rfl _) ?_
  rw [hchars] at hfuel
  simp only [List.length_append, List.length_cons] at hfuel ⊢
  omega

/-- A statement that starts with one bracket is a header. -/
theorem takeStatement_header {fuel : Nat} {p p' : Progress} {path : List String} {c : Char}
    (hc : c ≠ '[') (hkey : takeKey (c :: cs) = some (path, key, ']' :: '\n' :: rest))
    (hp : p.header false path key = some p') :
    takeStatement fuel p ('[' :: c :: cs) = some (p', rest) := by
  rw [takeStatement.eq_def]
  split
  · next heq => exact absurd (List.cons.inj (List.cons.inj heq).2).1 hc
  · next heq =>
    rw [← (List.cons.inj heq).2, hkey, Option.bind_eq_bind, Option.bind_some]
    dsimp only
    rw [dropMark, if_pos rfl, Option.bind_eq_bind, Option.bind_some, endLine_break,
      Option.bind_eq_bind, Option.bind_some, hp]
    rfl
  · next hother => exact absurd rfl (hother _)

/-- The header of a table, with the blank line before it. -/
theorem Reads.header {p p' : Progress} {path : List String} (hpath : ∀ k ∈ path ++ [key], IsBare k)
    (hlength : (path ++ [key]).length < depthLimit) (hp : p.header false path key = some p') :
    Reads p (headerChars (path ++ [key])) p' := by
  obtain ⟨c, tail, hchars, hc⟩ := pathChars_head
    (List.append_ne_nil_of_right_ne_nil path (List.cons_ne_nil key [])) hpath
  have htext : headerChars (path ++ [key]) =
      ['\n'] ++ '[' :: (pathChars (path ++ [key]) ++ [']', '\n']) := rfl
  rw [htext]
  refine (Reads.blank p).append (.statement ⟨rfl, by decide, by decide, by decide⟩ ?_)
  intro fuel rest hfuel
  have hkey := takeKey_pathChars hpath hlength ('\n' :: rest)
  rw [List.cons_append, List.append_assoc]
  rw [hchars, List.cons_append] at hkey ⊢
  exact takeStatement_header hc hkey hp

/-! ## Tables -/

/-- The entry of a member that is no table and not null. -/
def valueEntry : Option String × Document → Option (String × Node)
  | (_, .table _) => none
  | (_, .null) => none
  | (key, d) => some (key.getD "", .value d)

mutual

/-- The entry of a member that is a table. -/
def tableEntry (key : String) : Document → Entries
  | .table members =>
    [(key, .table .header (members.filterMap valueEntry ++ tableEntries members))]
  | .null => []
  | .bool _ => []
  | .integer _ => []
  | .float _ => []
  | .string _ => []
  | .list _ => []
  | .date => []
  | .unreadable => []

/-- The entries of the members that are tables. -/
def tableEntries : List (Option String × Document) → Entries
  | [] => []
  | (key, d) :: members => tableEntry (key.getD "") d ++ tableEntries members

end

/-- The entries of a table in a file: values first, and nothing that is null. -/
def entriesOf (members : List (Option String × Document)) : Entries :=
  members.filterMap valueEntry ++ tableEntries members

/-- What a file keeps of a document. -/
def kept : Document → Document
  | .table members => .table (entriesToMembers (entriesOf members))
  | d => d

/-- A table that TOML has a text for, at the end of a path with so many keys. -/
inductive Storable : Nat → List (Option String × Document) → Prop where
  | members {level : Nat} {members : List (Option String × Document)} (hlevel : level < depthLimit)
    (hkeys : ∀ m ∈ members, ∃ key, m.1 = some key ∧ IsBare key)
    (hdistinct : members.Pairwise fun m m' => m.1 ≠ m'.1)
    (hvalues : ∀ m ∈ members, m.2 = .null ∨ (∃ sub, m.2 = .table sub) ∨
      Expressible (depthLimit - 1) m.2)
    (htables : ∀ m ∈ members, ∀ sub, m.2 = .table sub → Storable (level + 1) sub) :
    Storable level members

theorem Storable.level_lt {level : Nat} {members : List (Option String × Document)}
    (h : Storable level members) : level < depthLimit := by
  cases h with
  | members hlevel => exact hlevel

/-- A member that a table at this level may have. -/
def Fits (level : Nat) (d : Document) : Prop :=
  d = .null ∨ Expressible (depthLimit - 1) d ∨ ∃ sub, d = .table sub ∧ Storable (level + 1) sub

theorem Storable.of_keys {level : Nat} {members : List (Option String × Document)}
    (keys : List String)
    (hkeys : members.map Prod.fst = keys.map some) (hbare : ∀ key ∈ keys, IsBare key)
    (hdistinct : keys.Nodup) (hlevel : level < depthLimit) (hfits : ∀ m ∈ members, Fits level m.2) :
    Storable level members := by
  refine .members hlevel ?_ ?_ ?_ ?_
  · intro m hm
    have hkey : m.1 ∈ keys.map some := hkeys ▸ List.mem_map_of_mem hm
    obtain ⟨key, hkey, hsome⟩ := List.mem_map.1 hkey
    exact ⟨key, hsome.symm, hbare key hkey⟩
  · have hpairwise : (members.map Prod.fst).Pairwise (· ≠ ·) := by
      rw [hkeys]
      exact List.Pairwise.map some (fun _ _ hne h => hne (Option.some.inj h)) hdistinct
    exact List.pairwise_map.1 hpairwise
  · intro m hm
    obtain hnull | hvalue | ⟨sub, htable, -⟩ := hfits m hm
    · exact .inl hnull
    · exact .inr (.inr hvalue)
    · exact .inr (.inl ⟨sub, htable⟩)
  · intro m hm sub htable
    obtain hnull | hvalue | ⟨other, hother, hstorable⟩ := hfits m hm
    · exact nomatch hnull.symm.trans htable
    · rw [htable] at hvalue
      exact nomatch hvalue
    · rw [hother] at htable
      exact Document.table.inj htable ▸ hstorable

theorem valueEntry_eq {n : Nat} {d : Document} (hd : Expressible n d) (key : String) :
    valueEntry (some key, d) = some (key, .value d) := by
  cases hd <;> rfl

/-- What is no table has no header and no entry as one. -/
theorem no_table {d : Document} (h : ∀ sub, d ≠ .table sub) (path : List String) (key : String) :
    tableChars path d = [] ∧ tableEntry key d = [] := by
  cases d with
  | table sub => exact absurd rfl (h sub)
  | null => exact ⟨by rw [tableChars], by rw [tableEntry]⟩
  | bool _ => exact ⟨by rw [tableChars], by rw [tableEntry]⟩
  | integer _ => exact ⟨by rw [tableChars], by rw [tableEntry]⟩
  | float _ => exact ⟨by rw [tableChars], by rw [tableEntry]⟩
  | string _ => exact ⟨by rw [tableChars], by rw [tableEntry]⟩
  | list _ => exact ⟨by rw [tableChars], by rw [tableEntry]⟩
  | date => exact ⟨by rw [tableChars], by rw [tableEntry]⟩
  | unreadable => exact ⟨by rw [tableChars], by rw [tableEntry]⟩

theorem valueEntry_key {m : Option String × Document} {e : String × Node}
    (h : valueEntry m = some e) : m.1.getD "" = e.1 := by
  unfold valueEntry at h
  split at h
  · exact nomatch h
  · exact nomatch h
  · rw [← Option.some.inj h]

/-- The keys of tables are not in use by the values before them. -/
theorem fresh_valueEntries {members : List (Option String × Document)}
    (hkeys : ∀ m ∈ members, ∃ key, m.1 = some key ∧ IsBare key)
    (hdistinct : members.Pairwise fun m m' => m.1 ≠ m'.1) {sub : List (Option String × Document)}
    (hmem : (some key, .table sub) ∈ members) : Fresh key (members.filterMap valueEntry) := by
  have hother : ∀ m ∈ members, ∀ e, valueEntry m = some e → m.1 ≠ some key → e.1 ≠ key := by
    intro m hm e he hne hkey
    obtain ⟨other, hother, -⟩ := hkeys m hm
    have hsame := valueEntry_key he
    rw [hother, Option.getD_some] at hsame
    exact hne (by rw [hother, hsame, hkey])
  intro e he
  obtain ⟨m, hm, hentry⟩ := List.mem_filterMap.1 he
  refine hother m hm e hentry fun hkey => ?_
  -- two members with one key are the same, and a table has no entry among the values
  have hsame : m = (some key, .table sub) := by
    obtain ⟨before, after, rfl⟩ := List.append_of_mem hmem
    obtain ⟨-, hafter, hbefore⟩ := List.pairwise_append.1 hdistinct
    rcases List.mem_append.1 hm with hm | hm
    · exact absurd hkey (hbefore m hm _ List.mem_cons_self)
    rcases List.mem_cons.1 hm with rfl | hm
    · rfl
    · exact absurd hkey.symm ((List.pairwise_cons.1 hafter).1 m hm)
  rw [hsame] at hentry
  exact nomatch hentry

/-- The tables on a way have new keys, and bare ones. -/
structure IsWay (crumbs : List Crumb) : Prop where
  fresh : ∀ c ∈ crumbs, Fresh c.2 c.1
  bare : ∀ c ∈ crumbs, IsBare c.2

theorem IsWay.nil : IsWay [] :=
  ⟨fun _ h => absurd h List.not_mem_nil, fun _ h => absurd h List.not_mem_nil⟩

theorem IsWay.snoc {crumbs : List Crumb} (h : IsWay crumbs) (hfresh : Fresh key entries)
    (hkey : IsBare key) : IsWay (crumbs ++ [(entries, key)]) where
  fresh := by
    intro c hc
    rcases List.mem_append.1 hc with hc | hc
    · exact h.fresh c hc
    · rw [List.mem_singleton.1 hc]
      exact hfresh
  bare := by
    intro c hc
    rcases List.mem_append.1 hc with hc | hc
    · exact h.bare c hc
    · rw [List.mem_singleton.1 hc]
      exact hkey

theorem IsWay.path {crumbs : List Crumb} (h : IsWay crumbs) (hkey : IsBare key) :
    ∀ k ∈ pathOf crumbs ++ [key], IsBare k := by
  intro k hk
  rcases List.mem_append.1 hk with hk | hk
  · obtain ⟨c, hc, rfl⟩ := List.mem_map.1 hk
    exact h.bare c hc
  · rw [List.mem_singleton.1 hk]
    exact hkey

/-- The lines of a table add its values to the table that is open. -/
theorem reads_lines {crumbs : List Crumb} (hway : IsWay crumbs)
    {members : List (Option String × Document)}
    (hkeys : ∀ m ∈ members, ∃ key, m.1 = some key ∧ IsBare key)
    (hdistinct : members.Pairwise fun m m' => m.1 ≠ m'.1)
    (hvalues : ∀ m ∈ members, m.2 = .null ∨ (∃ sub, m.2 = .table sub) ∨
      Expressible (depthLimit - 1) m.2)
    (hfresh : ∀ key d, (some key, d) ∈ members → Fresh key entries) :
    Reads ⟨fill crumbs entries, pathOf crumbs⟩ (members.flatMap lineChars)
      ⟨fill crumbs (entries ++ members.filterMap valueEntry), pathOf crumbs⟩ := by
  induction members generalizing entries with
  | nil =>
    rw [List.flatMap_nil, List.filterMap_nil, List.append_nil]
    exact .nil _
  | cons m members ih =>
    obtain ⟨key, d⟩ := m
    obtain ⟨⟨key, rfl, hkey⟩, hnamed⟩ := List.forall_mem_cons.1 hkeys
    obtain ⟨hnew, hdistinct⟩ := List.pairwise_cons.1 hdistinct
    have hrest : ∀ more, (∀ key d, (some key, d) ∈ members → Fresh key more) →
        Reads ⟨fill crumbs more, pathOf crumbs⟩ (members.flatMap lineChars)
          ⟨fill crumbs (more ++ members.filterMap valueEntry), pathOf crumbs⟩ :=
      fun more => ih hnamed hdistinct fun m hm => hvalues m (List.mem_cons_of_mem _ hm)
    have hlater : ∀ key d, (some key, d) ∈ members → Fresh key entries :=
      fun key d hm => hfresh key d (List.mem_cons_of_mem _ hm)
    rw [List.flatMap_cons]
    obtain rfl | ⟨sub, rfl⟩ | hd := hvalues _ List.mem_cons_self
    · exact (Reads.nil _).append (hrest entries hlater)
    · exact (Reads.nil _).append (hrest entries hlater)
    · rw [List.filterMap_cons_some (valueEntry_eq hd key), List.append_cons]
      have hentries : Fresh key entries := hfresh key d List.mem_cons_self
      refine (Reads.line hkey hd (key_fill hway.fresh hentries d)).append (hrest _ ?_)
      intro other d' hm
      refine (hlater other d' hm).append fun e he hsame => ?_
      rw [List.mem_singleton.1 he] at hsame
      exact hnew _ hm (congrArg some hsame)

/-- The table at the end of a way of this length is read as it was written. -/
def IsStored (level : Nat) (members : List (Option String × Document)) : Prop :=
  ∀ crumbs, IsWay crumbs → crumbs.length = level →
    ∃ current, Reads ⟨fill crumbs [], pathOf crumbs⟩
      (members.flatMap lineChars ++ tablesChars (pathOf crumbs) members)
      ⟨fill crumbs (entriesOf members), current⟩

/-- The tables of a table are added to it, if each is read as it was written. -/
theorem reads_tables {crumbs : List Crumb} (hway : IsWay crumbs)
    {members : List (Option String × Document)}
    (hkeys : ∀ m ∈ members, ∃ key, m.1 = some key ∧ IsBare key)
    (hdistinct : members.Pairwise fun m m' => m.1 ≠ m'.1)
    (htables : ∀ m ∈ members, ∀ sub, m.2 = .table sub →
      crumbs.length + 1 < depthLimit ∧ IsStored (crumbs.length + 1) sub)
    (hfresh : ∀ key sub, (some key, Document.table sub) ∈ members → Fresh key entries)
    (current : List String) :
    ∃ current', Reads ⟨fill crumbs entries, current⟩ (tablesChars (pathOf crumbs) members)
      ⟨fill crumbs (entries ++ tableEntries members), current'⟩ := by
  induction members generalizing entries current with
  | nil =>
    rw [tablesChars, tableEntries, List.append_nil]
    exact ⟨current, .nil _⟩
  | cons m members ih =>
    obtain ⟨key, d⟩ := m
    obtain ⟨⟨key, rfl, hkey⟩, hnamed⟩ := List.forall_mem_cons.1 hkeys
    obtain ⟨hnew, hdistinct⟩ := List.pairwise_cons.1 hdistinct
    have hrest : ∀ more current,
        (∀ key sub, (some key, Document.table sub) ∈ members → Fresh key more) →
        ∃ current', Reads ⟨fill crumbs more, current⟩ (tablesChars (pathOf crumbs) members)
          ⟨fill crumbs (more ++ tableEntries members), current'⟩ :=
      fun more current hmore => ih hnamed hdistinct
        (fun m hm => htables m (List.mem_cons_of_mem _ hm)) hmore current
    have hlater : ∀ key sub, (some key, Document.table sub) ∈ members → Fresh key entries :=
      fun key sub hm => hfresh key sub (List.mem_cons_of_mem _ hm)
    rw [tablesChars, tableEntries, Option.getD_some]
    by_cases htable : ∃ sub, d = .table sub
    · obtain ⟨sub, rfl⟩ := htable
      have hentries : Fresh key entries := hfresh key sub List.mem_cons_self
      obtain ⟨hlength, hstored⟩ := htables _ List.mem_cons_self sub rfl
      have hheader := Reads.header (hway.path hkey) (by
        rw [List.length_append, pathOf, List.length_map]
        exact hlength) (header_fill hway.fresh hentries current)
      obtain ⟨inner, hsub⟩ := hstored _ (hway.snoc hentries hkey) (by
        rw [List.length_append]
        rfl)
      obtain ⟨current', hothers⟩ := hrest (entries ++ [(key, .table .header (entriesOf sub))]) inner
        (by
          intro other sub' hm
          refine (hlater other sub' hm).append fun e he hsame => ?_
          rw [List.mem_singleton.1 he] at hsame
          exact hnew _ hm (congrArg some hsame))
      rw [← fill_append] at hothers
      have hpath : pathOf (crumbs ++ [(entries, key)]) = pathOf crumbs ++ [key] := List.map_append
      rw [hpath] at hheader hsub
      refine ⟨current', ?_⟩
      rw [tableChars, tableEntry, List.append_assoc (headerChars _), ← List.append_assoc entries]
      exact (hheader.append hsub).append hothers
    · obtain ⟨hchars, hentry⟩ :=
        no_table (fun sub h => htable ⟨sub, h⟩) (pathOf crumbs ++ [key]) key
      rw [hchars, hentry, List.nil_append, List.nil_append]
      exact hrest entries current hlater

/-- A table is read as it was written, and the tables in it. -/
theorem isStored_of_storable {level : Nat} {members : List (Option String × Document)}
    (h : Storable level members) : IsStored level members := by
  induction h with
  | @members level members hlevel hkeys hdistinct hvalues hsub ih =>
    rintro crumbs hway rfl
    have hlines := reads_lines hway hkeys hdistinct hvalues fun _ _ _ => Fresh.nil
    rw [List.nil_append] at hlines
    obtain ⟨current, htables⟩ := reads_tables hway hkeys hdistinct
      (fun m hm sub htable => ⟨(hsub m hm sub htable).level_lt, ih m hm sub htable⟩)
      (fun key sub hm => fresh_valueEntries hkeys hdistinct hm) (pathOf crumbs)
    exact ⟨current, hlines.append htables⟩

/-- A line starts with its key. -/
theorem lineChars_head (m : Option String × Document) :
    lineChars m = [] ∨ ∃ tail, lineChars m = (m.1.getD "").toList ++ tail := by
  unfold lineChars
  split
  · exact .inl rfl
  · exact .inl rfl
  · exact .inr ⟨_, by rw [List.append_assoc, List.append_assoc]⟩

/-- No file starts with a byte order mark: a line starts with its key, a table with a line feed. -/
theorem stopsAt_lines {members : List (Option String × Document)}
    (hkeys : ∀ m ∈ members, ∃ key, m.1 = some key ∧ IsBare key)
    (hrest : StopsAt (· == '\uFEFF') rest) :
    StopsAt (· == '\uFEFF') (members.flatMap lineChars ++ rest) := by
  induction members with
  | nil => exact hrest
  | cons m members ih =>
    obtain ⟨⟨key, hsome, hkey⟩, hnamed⟩ := List.forall_mem_cons.1 hkeys
    rw [List.flatMap_cons, List.append_assoc]
    rcases lineChars_head m with hline | ⟨tail, hline⟩
    · rw [hline]
      exact ih hnamed
    · obtain ⟨c, after, hchars⟩ := List.exists_cons_of_ne_nil hkey.1
      have hc := hkey.isBareChar c (hchars ▸ List.mem_cons_self)
      rw [hline, hsome, Option.getD_some, hchars]
      refine .cons (beq_eq_false_iff_ne.2 ?_)
      rintro rfl
      exact absurd hc (by decide)

theorem stopsAt_tables (path : List String) (members : List (Option String × Document)) :
    StopsAt (· == '\uFEFF') (tablesChars path members) := by
  induction members with
  | nil =>
    rw [tablesChars]
    exact .nil
  | cons m members ih =>
    obtain ⟨key, d⟩ := m
    rw [tablesChars]
    by_cases htable : ∃ sub, d = .table sub
    · obtain ⟨sub, rfl⟩ := htable
      rw [tableChars]
      exact .cons (by decide)
    · rw [(no_table (fun sub h => htable ⟨sub, h⟩) _ "").1]
      exact ih

/-- **Round trip of TOML.**  A table is read as it was written, but for its order and for members
    that are null. -/
theorem read_write {members : List (Option String × Document)} (h : Storable 0 members) :
    read (write members) = some (kept (.table members)) := by
  obtain ⟨current, hreads⟩ := isStored_of_storable h [] .nil rfl
  have hfile := hreads.finish
  have hmark : StopsAt (· == '\uFEFF') (members.flatMap lineChars ++ tablesChars [] members) := by
    cases h with
    | members _ hkeys => exact stopsAt_lines hkeys (stopsAt_tables [] members)
  rw [read, write, String.toList_ofList]
  split
  · next heq =>
    rw [heq] at hmark
    exact absurd (hmark _ rfl) (by decide)
  · exact congrArg (Option.map fun p => (Node.table .header p.root).toDocument) hfile

end Embroidery.Toml
