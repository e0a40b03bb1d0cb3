/-
  Nothing in a TOML file is null.

  No word stands for null, so no value that is read holds one (`nullFree_takeValue`), and the tree
  of tables that a file builds up only ever takes in values that were read (`KeepsFree.alter`).  A
  field that is an option therefore has a value wherever it is present at all.
-/
import Embroidery.Document.Toml.Reader

namespace Embroidery

/-! ## Documents -/

/-- Nothing in the document is null. -/
inductive Document.NullFree : Document → Prop where
  | bool (b : Bool) : NullFree (.bool b)
  | integer (i : Int) : NullFree (.integer i)
  | float (v : Binary64) : NullFree (.float v)
  | string (s : String) : NullFree (.string s)
  | list {items : List Document} (h : ∀ d ∈ items, NullFree d) : NullFree (.list items)
  | table {members : List (Option String × Document)} (h : ∀ m ∈ members, NullFree m.2) :
    NullFree (.table members)
  | date : NullFree .date
  | unreadable : NullFree .unreadable

namespace Document.NullFree

variable {d : Document} {surplus : Bool} {names : List String}
  {fields fields' : List (String × Option Document)} {values : List (Option Document)}

theorem setField {name : String} (hd : d.NullFree) (h : ∀ f ∈ fields, ∀ d ∈ f.2, d.NullFree)
    (hset : Document.setField name d fields = some fields') :
    ∀ f ∈ fields', ∀ d ∈ f.2, d.NullFree := by
  induction fields generalizing fields' with
  | nil =>
    obtain rfl := Option.some.inj hset
    exact h
  | cons field rest ih =>
    obtain ⟨hfield, hrest⟩ := List.forall_mem_cons.1 h
    obtain ⟨n, old⟩ := field
    rw [Document.setField.eq_def] at hset
    dsimp only at hset
    split at hset
    · split at hset
      · obtain rfl := Option.some.inj hset
        refine List.forall_mem_cons.2 ⟨fun d' hd' => ?_, hrest⟩
        obtain rfl := Option.some.inj hd'
        exact hd
      · exact nomatch hset
    · obtain ⟨rest', hset', rfl⟩ := Option.map_eq_some_iff.1 hset
      exact List.forall_mem_cons.2 ⟨hfield, ih hrest hset'⟩

theorem setFields {members : List (Option String × Document)}
    (hmembers : ∀ m ∈ members, m.2.NullFree) (h : ∀ f ∈ fields, ∀ d ∈ f.2, d.NullFree)
    (hset : Document.setFields fields members = some fields') :
    ∀ f ∈ fields', ∀ d ∈ f.2, d.NullFree := by
  induction members generalizing fields with
  | nil =>
    obtain rfl := Option.some.inj hset
    exact h
  | cons member rest ih =>
    obtain ⟨hmember, hrest⟩ := List.forall_mem_cons.1 hmembers
    obtain ⟨key, value⟩ := member
    cases key with
    | none => exact nomatch hset
    | some key =>
      obtain ⟨next, hnext, hset'⟩ := Option.bind_eq_some_iff.1 hset
      exact ih hrest (hmember.setField h hnext) hset'

/-- The values of a record are as free of null as the record. -/
theorem record (hd : d.NullFree) (h : d.record surplus names = some values) :
    ∀ v ∈ values, ∀ d ∈ v, d.NullFree := by
  cases hd with
  | list hitems =>
    rw [Document.record] at h
    split at h
    · exact nomatch h
    · obtain rfl := Option.some.inj h
      intro v hv d hdv
      rcases List.mem_append.1 (List.mem_of_mem_take hv) with hv | hv
      · obtain ⟨item, hitem, rfl⟩ := List.mem_map.1 hv
        obtain rfl := Option.some.inj hdv
        exact hitems item hitem
      · rw [List.eq_of_mem_replicate hv] at hdv
        exact nomatch hdv
  | table hmembers =>
    obtain ⟨fields, hset, rfl⟩ := Option.map_eq_some_iff.1 h
    have hnone : ∀ f ∈ names.map fun n => ((n, none) : String × Option Document),
        ∀ d ∈ f.2, d.NullFree := by
      intro f hf d hd
      obtain ⟨n, -, rfl⟩ := List.mem_map.1 hf
      exact nomatch hd
    intro v hv
    obtain ⟨f, hf, rfl⟩ := List.mem_map.1 hv
    exact setFields hmembers hnone hset f hf
  | date =>
    obtain rfl := Option.some.inj h
    intro v hv d hd
    obtain ⟨n, -, rfl⟩ := List.mem_map.1 hv
    exact nomatch hd
  | _ => exact nomatch h

end Document.NullFree

namespace Toml

/-! ## Trees -/

/-- Nothing in the tree is null. -/
inductive Node.NullFree : Node → Prop where
  | value {d : Document} (h : d.NullFree) : NullFree (.value d)
  | table {origin : Origin} {entries : Entries} (h : ∀ e ∈ entries, NullFree e.2) :
    NullFree (.table origin entries)
  | tables {newest : Entries} {older : List Entries} (hnewest : ∀ e ∈ newest, NullFree e.2)
    (holder : ∀ entries ∈ older, ∀ e ∈ entries, NullFree e.2) : NullFree (.tables newest older)

/-- Nothing in the entries is null. -/
def EntriesFree (entries : Entries) : Prop := ∀ e ∈ entries, e.2.NullFree

variable {entries entries' : Entries} {node : Node} {key : String} {path : List String}
  {origin made : Origin} {d : Document} {cs rest : List Char} {fuel depth : Nat}

theorem EntriesFree.nil : EntriesFree [] := fun _ h => nomatch h

theorem EntriesFree.nodeAt (h : EntriesFree entries) (hnode : nodeAt entries key = some node) :
    node.NullFree := by
  obtain ⟨e, he, rfl⟩ := Option.map_eq_some_iff.1 hnode
  exact h e (List.mem_of_find?_eq_some he)

theorem EntriesFree.setNode (h : EntriesFree entries) (hnode : node.NullFree) :
    EntriesFree (setNode entries key node) := by
  rw [Toml.setNode]
  split
  · intro e he
    obtain ⟨old, hold, rfl⟩ := List.mem_map.1 he
    split
    · exact hnode
    · exact h old hold
  · intro e he
    rcases List.mem_append.1 he with he | he
    · exact h e he
    · obtain rfl := List.mem_singleton.1 he
      exact hnode

mutual

theorem Node.NullFree.toDocument : (node : Node) → node.NullFree → node.toDocument.NullFree
  | .value _, .value h => h
  | .table _ entries, .table h => .table (nullFree_entriesToMembers entries h)
  | .tables newest older, .tables hnewest holder => by
    refine .list fun d hd => ?_
    rcases List.mem_append.1 hd with hd | hd
    · exact nullFree_listedToDocuments older holder d (List.mem_reverse.1 hd)
    · obtain rfl := List.mem_singleton.1 hd
      exact .table (nullFree_entriesToMembers newest hnewest)

theorem nullFree_entriesToMembers : (entries : Entries) → EntriesFree entries →
    ∀ m ∈ entriesToMembers entries, m.2.NullFree
  | [], _ => fun _ hm => nomatch hm
  | (_, node) :: rest, h => by
    obtain ⟨hnode, hrest⟩ := List.forall_mem_cons.1 h
    exact List.forall_mem_cons.2
      ⟨Node.NullFree.toDocument node hnode, nullFree_entriesToMembers rest hrest⟩

theorem nullFree_listedToDocuments : (older : List Entries) →
    (∀ entries ∈ older, EntriesFree entries) → ∀ d ∈ listedToDocuments older, d.NullFree
  | [], _ => fun _ hd => nomatch hd
  | entries :: rest, h => by
    obtain ⟨hentries, hrest⟩ := List.forall_mem_cons.1 h
    exact List.forall_mem_cons.2
      ⟨.table (nullFree_entriesToMembers entries hentries), nullFree_listedToDocuments rest hrest⟩

end

/-! ## Changes -/

/-- The change brings nothing null into a table. -/
def KeepsFree (change : Origin → Entries → Option Entries) : Prop :=
  ∀ origin entries entries', EntriesFree entries → change origin entries = some entries' →
    EntriesFree entries'

theorem KeepsFree.alter {change : Origin → Entries → Option Entries} (h : KeepsFree change)
    (hentries : EntriesFree entries)
    (haltered : alter made change path origin entries = some entries') : EntriesFree entries' := by
  induction path generalizing origin entries entries' with
  | nil => exact h origin entries entries' hentries haltered
  | cons key path ih =>
    rw [Toml.alter] at haltered
    split at haltered
    · obtain ⟨inner, hinner, rfl⟩ := Option.map_eq_some_iff.1 haltered
      exact hentries.setNode (.table (ih .nil hinner))
    · exact nomatch haltered
    · next origin inner hnode =>
      split at haltered
      · exact nomatch haltered
      · obtain ⟨inner', hinner, rfl⟩ := Option.map_eq_some_iff.1 haltered
        cases hentries.nodeAt hnode with
        | table hfree => exact hentries.setNode (.table (ih hfree hinner))
    · next newest older hnode =>
      obtain ⟨newest', hnewest, rfl⟩ := Option.map_eq_some_iff.1 haltered
      cases hentries.nodeAt hnode with
      | tables hfree holder => exact hentries.setNode (.tables (ih hfree hnewest) holder)

theorem keepsFree_setValue (hd : d.NullFree) (isDotted : Bool) (key : String) :
    KeepsFree (setValue isDotted key d) := by
  intro origin entries entries' hentries h
  rw [setValue] at h
  split at h
  · exact nomatch h
  · split at h
    · exact nomatch h
    · obtain rfl := Option.some.inj h
      exact hentries.setNode (.value hd)

theorem keepsFree_addKey (hd : d.NullFree) (path : List String) (key : String) :
    KeepsFree (addKey path key d) :=
  fun _ _ _ hentries h => (keepsFree_setValue hd _ key).alter hentries h

theorem keepsFree_openTable (key : String) : KeepsFree (openTable key) := by
  intro origin entries entries' hentries h
  rw [openTable] at h
  split at h
  · obtain rfl := Option.some.inj h
    exact hentries.setNode (.table EntriesFree.nil)
  · next inner hnode =>
    obtain rfl := Option.some.inj h
    cases hentries.nodeAt hnode with
    | table hfree => exact hentries.setNode (.table hfree)
  · exact nomatch h

theorem keepsFree_openListed (key : String) : KeepsFree (openListed key) := by
  intro origin entries entries' hentries h
  rw [openListed] at h
  split at h
  · obtain rfl := Option.some.inj h
    exact hentries.setNode (.tables EntriesFree.nil fun _ h => nomatch h)
  · next newest older hnode =>
    obtain rfl := Option.some.inj h
    cases hentries.nodeAt hnode with
    | tables hnewest holder =>
      exact hentries.setNode (.tables EntriesFree.nil (List.forall_mem_cons.2 ⟨hnewest, holder⟩))
  · exact nomatch h

/-! ## Values -/

theorem nullFree_wordValue {word : List Char} (h : wordValue word = some d) : d.NullFree := by
  rw [wordValue] at h
  split at h
  · obtain rfl := Option.some.inj h
    exact .bool true
  · split at h
    · obtain rfl := Option.some.inj h
      exact .bool false
    · split at h
      · obtain rfl := Option.some.inj h
        exact .date
      · split at h
        · obtain rfl := Option.some.inj h
          exact .integer _
        · obtain ⟨v, -, rfl⟩ := Option.map_eq_some_iff.1 h
          exact .float v

theorem nullFree_takeScalar (h : takeScalar cs = some (d, rest)) : d.NullFree := by
  unfold takeScalar at h
  dsimp only at h
  split at h
  · split at h
    · obtain ⟨rfl, -⟩ := Prod.mk.inj (Option.some.inj h)
      exact .date
    · exact nomatch h
  · obtain ⟨d', hword, heq⟩ := Option.map_eq_some_iff.1 h
    obtain ⟨rfl, -⟩ := Prod.mk.inj heq
    exact nullFree_wordValue hword

/-- No value is read that is null or holds one.  The induction on the fuel goes through the elements
    of lists and the pairs of tables at the same time. -/
theorem nullFree_taken (fuel : Nat) :
    (∀ depth cs d rest, takeValue fuel depth cs = some (d, rest) → d.NullFree) ∧
    (∀ depth cs items rest, takeItems fuel depth cs = some (items, rest) →
      ∀ d ∈ items, d.NullFree) ∧
    ∀ depth entries cs entries' rest, EntriesFree entries →
      takePairs fuel depth entries cs = some (entries', rest) → EntriesFree entries' := by
  induction fuel with
  | zero =>
    refine ⟨fun depth cs d rest h => ?_, fun depth cs items rest h => ?_,
      fun depth entries cs entries' rest _ h => ?_⟩
    · rw [takeValue] at h
      exact nomatch h
    · rw [takeItems] at h
      exact nomatch h
    · rw [takePairs] at h
      exact nomatch h
  | succ fuel ih =>
    obtain ⟨ihvalue, ihitems, ihpairs⟩ := ih
    refine ⟨fun depth cs d rest h => ?_, fun depth cs items rest h => ?_,
      fun depth entries cs entries' rest hentries h => ?_⟩
    · rw [takeValue.eq_def] at h
      dsimp only at h
      split at h
      · obtain ⟨_, -, heq⟩ := Option.map_eq_some_iff.1 h
        obtain ⟨rfl, -⟩ := Prod.mk.inj heq
        exact .string _
      · obtain ⟨_, -, heq⟩ := Option.map_eq_some_iff.1 h
        obtain ⟨rfl, -⟩ := Prod.mk.inj heq
        exact .string _
      · split at h
        · exact nomatch h
        · split at h
          · obtain ⟨rfl, -⟩ := Prod.mk.inj (Option.some.inj h)
            exact .list fun _ hd => nomatch hd
          · obtain ⟨_, hitems, heq⟩ := Option.map_eq_some_iff.1 h
            obtain ⟨rfl, -⟩ := Prod.mk.inj heq
            exact .list (ihitems _ _ _ _ hitems)
      · split at h
        · exact nomatch h
        · split at h
          · obtain ⟨rfl, -⟩ := Prod.mk.inj (Option.some.inj h)
            exact .table fun _ hm => nomatch hm
          · obtain ⟨_, hpairs, heq⟩ := Option.map_eq_some_iff.1 h
            obtain ⟨rfl, -⟩ := Prod.mk.inj heq
            exact Node.NullFree.toDocument _ (.table (ihpairs _ _ _ _ _ .nil hpairs))
      · exact nullFree_takeScalar h
    · rw [takeItems] at h
      obtain ⟨⟨item, after⟩, hitem, h⟩ := Option.bind_eq_some_iff.1 h
      have hfirst := ihvalue _ _ _ _ hitem
      dsimp only at h
      split at h
      · obtain ⟨rfl, -⟩ := Prod.mk.inj (Option.some.inj h)
        exact List.forall_mem_singleton.2 hfirst
      · split at h
        · obtain ⟨rfl, -⟩ := Prod.mk.inj (Option.some.inj h)
          exact List.forall_mem_singleton.2 hfirst
        · obtain ⟨⟨others, after'⟩, hothers, h⟩ := Option.bind_eq_some_iff.1 h
          obtain ⟨rfl, -⟩ := Prod.mk.inj (Option.some.inj h)
          exact List.forall_mem_cons.2 ⟨hfirst, ihitems _ _ _ _ hothers⟩
      · exact nomatch h
    · rw [takePairs] at h
      obtain ⟨⟨path, key, after⟩, -, h⟩ := Option.bind_eq_some_iff.1 h
      obtain ⟨after', -, h⟩ := Option.bind_eq_some_iff.1 h
      obtain ⟨⟨d, after''⟩, hd, h⟩ := Option.bind_eq_some_iff.1 h
      obtain ⟨added, hadded, h⟩ := Option.bind_eq_some_iff.1 h
      have hnext := keepsFree_addKey (ihvalue _ _ _ _ hd) path key _ _ _ hentries hadded
      split at h
      · obtain ⟨rfl, -⟩ := Prod.mk.inj (Option.some.inj h)
        exact hnext
      · exact ihpairs _ _ _ _ _ hnext h
      · exact nomatch h

theorem nullFree_takeValue (h : takeValue fuel depth cs = some (d, rest)) : d.NullFree :=
  (nullFree_taken fuel).1 depth cs d rest h

/-! ## Files -/

variable {p p' : Progress}

theorem nullFree_header {listed : Bool} (hp : EntriesFree p.root)
    (h : p.header listed path key = some p') : EntriesFree p'.root := by
  obtain ⟨root, hroot, rfl⟩ := Option.map_eq_some_iff.1 h
  cases listed with
  | true => exact (keepsFree_openListed key).alter hp hroot
  | false => exact (keepsFree_openTable key).alter hp hroot

theorem nullFree_key (hd : d.NullFree) (hp : EntriesFree p.root)
    (h : p.key path key d = some p') : EntriesFree p'.root := by
  obtain ⟨root, hroot, rfl⟩ := Option.map_eq_some_iff.1 h
  exact (keepsFree_addKey hd path key).alter hp hroot

theorem nullFree_takeStatement (hp : EntriesFree p.root)
    (h : takeStatement fuel p cs = some (p', rest)) : EntriesFree p'.root := by
  rw [takeStatement.eq_def] at h
  split at h
  · obtain ⟨⟨path, key, after⟩, -, h⟩ := Option.bind_eq_some_iff.1 h
    obtain ⟨_, -, h⟩ := Option.bind_eq_some_iff.1 h
    obtain ⟨_, -, h⟩ := Option.bind_eq_some_iff.1 h
    obtain ⟨_, -, h⟩ := Option.bind_eq_some_iff.1 h
    obtain ⟨next, hnext, h⟩ := Option.bind_eq_some_iff.1 h
    obtain ⟨rfl, -⟩ := Prod.mk.inj (Option.some.inj h)
    exact nullFree_header hp hnext
  · obtain ⟨⟨path, key, after⟩, -, h⟩ := Option.bind_eq_some_iff.1 h
    obtain ⟨_, -, h⟩ := Option.bind_eq_some_iff.1 h
    obtain ⟨_, -, h⟩ := Option.bind_eq_some_iff.1 h
    obtain ⟨next, hnext, h⟩ := Option.bind_eq_some_iff.1 h
    obtain ⟨rfl, -⟩ := Prod.mk.inj (Option.some.inj h)
    exact nullFree_header hp hnext
  · obtain ⟨⟨path, key, after⟩, -, h⟩ := Option.bind_eq_some_iff.1 h
    obtain ⟨_, -, h⟩ := Option.bind_eq_some_iff.1 h
    obtain ⟨⟨d, after'⟩, hd, h⟩ := Option.bind_eq_some_iff.1 h
    obtain ⟨_, -, h⟩ := Option.bind_eq_some_iff.1 h
    obtain ⟨next, hnext, h⟩ := Option.bind_eq_some_iff.1 h
    obtain ⟨rfl, -⟩ := Prod.mk.inj (Option.some.inj h)
    exact nullFree_key (nullFree_takeValue hd) hp hnext

theorem nullFree_takeStatements (hp : EntriesFree p.root)
    (h : takeStatements fuel p cs = some p') : EntriesFree p'.root := by
  induction fuel generalizing p cs with
  | zero => exact nomatch h
  | succ fuel ih =>
    rw [takeStatements] at h
    split at h
    · exact Option.some.inj h ▸ hp
    · split at h
      · exact ih hp h
      · obtain ⟨⟨next, after⟩, hnext, h⟩ := Option.bind_eq_some_iff.1 h
        exact ih (nullFree_takeStatement hp hnext) h

/-- Nothing in a TOML file is null. -/
theorem nullFree_read {text : String} (h : read text = some d) : d.NullFree := by
  obtain ⟨p, hp, rfl⟩ := Option.map_eq_some_iff.1 h
  exact Node.NullFree.toDocument _ (.table (nullFree_takeStatements EntriesFree.nil hp))

end Toml
end Embroidery
