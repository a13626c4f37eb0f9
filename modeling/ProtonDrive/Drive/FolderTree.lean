import Mathlib.Data.List.InsertIdx
import Mathlib.Data.List.Nodup
import ProtonDrive.Drive.Node

/-!
# A tree of folders that several clients write to

What the server keeps of nodes as far as names and folders go. It takes a new node into a folder
that is there if no other child of it has the name, and nothing is ever moved, renamed or removed
here.

* `Tree` — the nodes, in the order in which listings have them. No uid is there twice, and no name
  twice among siblings.
* `Grows` — one tree after more nodes have been created, anywhere in the order.
* `Leads` — the folders that a path goes through.
* `Fills` — what may have been created on the way along a path: at most the segments that were
  missing.
-/

namespace ProtonDrive.FolderTree

open OpenPgp

/-- What a listing shows of a node. -/
structure Entry where
  uid : NodeUid
  parent : Option NodeUid
  name : Bytes
  isFolder : Bool
  deriving DecidableEq, Repr

structure Tree where
  nodes : List Entry
  uids : (nodes.map Entry.uid).Nodup
  names : ∀ e ∈ nodes, ∀ e' ∈ nodes, ∀ p, e.parent = some p → e'.parent = some p →
    e.name = e'.name → e = e'
  volumes : ∀ e ∈ nodes, ∀ p, e.parent = some p → p.volumeId = e.uid.volumeId

/-- A node to be created, and where listings are to have it. -/
structure NewNode where
  parent : NodeUid
  name : Bytes
  linkId : LinkId
  isFolder : Bool
  position : Nat
  deriving DecidableEq, Repr

def NewNode.entry (new : NewNode) : Entry where
  uid := ⟨new.parent.volumeId, new.linkId⟩
  parent := some new.parent
  name := new.name
  isFolder := new.isFolder

/-- The server takes a node if its parent is a folder that is there, and its uid and its name are
new. -/
def Tree.Accepts (t : Tree) (new : NewNode) : Prop :=
  (∃ e ∈ t.nodes, e.uid = new.parent ∧ e.isFolder = true) ∧
    (∀ e ∈ t.nodes, e.uid ≠ new.entry.uid) ∧
    ∀ e ∈ t.nodes, e.parent = some new.parent → e.name ≠ new.name

instance (t : Tree) (new : NewNode) : Decidable (t.Accepts new) :=
  inferInstanceAs (Decidable (_ ∧ _ ∧ _))

/-- The child of a folder with a name. -/
structure Tree.Child (t : Tree) (parent : NodeUid) (name : Bytes) (e : Entry) : Prop where
  mem : e ∈ t.nodes
  parent_eq : e.parent = some parent
  name_eq : e.name = name

theorem Tree.Child.unique {t : Tree} {parent : NodeUid} {name : Bytes} {e e' : Entry}
    (h : t.Child parent name e) (h' : t.Child parent name e') : e = e' :=
  t.names e h.mem e' h'.mem parent h.parent_eq h'.parent_eq (h.name_eq.trans h'.name_eq.symm)

theorem Tree.eq_of_uid {t : Tree} {e e' : Entry} (h : e ∈ t.nodes) (h' : e' ∈ t.nodes)
    (huid : e.uid = e'.uid) : e = e' :=
  List.inj_on_of_nodup_map t.uids h h' huid

/-! ## Creating -/

/-- The nodes with the new one at its place, or at the end. -/
def Tree.withNew (t : Tree) (new : NewNode) : List Entry :=
  t.nodes.insertIdx (min new.position t.nodes.length) new.entry

theorem mem_withNew {t : Tree} {new : NewNode} {e : Entry} :
    e ∈ t.withNew new ↔ e = new.entry ∨ e ∈ t.nodes :=
  List.mem_insertIdx (Nat.min_le_right _ _)

/-- The tree with a node that it takes. -/
def Tree.insert (t : Tree) (new : NewNode) (h : t.Accepts new) : Tree where
  nodes := t.withNew new
  uids := by
    have hperm : (t.withNew new).Perm (new.entry :: t.nodes) :=
      List.perm_insertIdx _ _ (Nat.min_le_right _ _)
    rw [(hperm.map Entry.uid).nodup_iff, List.map_cons, List.nodup_cons]
    refine ⟨?_, t.uids⟩
    intro hmem
    obtain ⟨e, he, huid⟩ := List.mem_map.mp hmem
    exact h.2.1 e he huid
  names := by
    intro e he e' he' p hp hp' hname
    rcases mem_withNew.mp he with rfl | he
    · rcases mem_withNew.mp he' with rfl | he'
      · rfl
      · cases hp
        exact absurd hname.symm (h.2.2 e' he' hp')
    · rcases mem_withNew.mp he' with rfl | he'
      · cases hp'
        exact absurd hname (h.2.2 e he hp)
      · exact t.names e he e' he' p hp hp' hname
  volumes := by
    intro e he p hp
    rcases mem_withNew.mp he with rfl | he
    · cases hp
      rfl
    · exact t.volumes e he p hp

/-- Create a node, if the server takes it. -/
def Tree.create (t : Tree) (new : NewNode) : Tree :=
  if h : t.Accepts new then t.insert new h else t

/-! ## Growth -/

/-- More nodes have been created; the others are as they were. -/
def Tree.Grows (t t' : Tree) : Prop := t.nodes.Sublist t'.nodes

theorem Tree.Grows.refl (t : Tree) : t.Grows t := List.Sublist.refl _

theorem Tree.Grows.trans {t t' t'' : Tree} (h : t.Grows t') (h' : t'.Grows t'') : t.Grows t'' :=
  List.Sublist.trans h h'

instance : Trans Tree.Grows Tree.Grows Tree.Grows := ⟨Tree.Grows.trans⟩

theorem grows_insert (t : Tree) (new : NewNode) (h : t.Accepts new) : t.Grows (t.insert new h) :=
  List.sublist_insertIdx _ _ _

theorem grows_create (t : Tree) (new : NewNode) : t.Grows (t.create new) := by
  unfold Tree.create
  split
  · exact grows_insert t new _
  · exact .refl t

theorem child_insert {t : Tree} {new : NewNode} (h : t.Accepts new) :
    (t.insert new h).Child new.parent new.name new.entry where
  mem := mem_withNew.mpr (.inl rfl)
  parent_eq := rfl
  name_eq := rfl

theorem Tree.Child.grows {t t' : Tree} {parent : NodeUid} {name : Bytes} {e : Entry}
    (h : t.Child parent name e) (hgrows : t.Grows t') : t'.Child parent name e :=
  ⟨hgrows.subset h.mem, h.parent_eq, h.name_eq⟩

/-! ## Paths -/

/-- From `root`, folders with the names of the path lead to `target`. -/
inductive Leads (t : Tree) : NodeUid → List Bytes → NodeUid → Prop where
  | here {root : NodeUid} : Leads t root [] root
  | down {root target : NodeUid} {name : Bytes} {names : List Bytes} {e : Entry}
      (hchild : t.Child root name e) (hfolder : e.isFolder = true)
      (hrest : Leads t e.uid names target) : Leads t root (name :: names) target

theorem Leads.grows {t t' : Tree} {root target : NodeUid} {names : List Bytes}
    (h : Leads t root names target) (hgrows : t.Grows t') : Leads t' root names target := by
  induction h with
  | here => exact .here
  | down hchild hfolder _ ih => exact .down (hchild.grows hgrows) hfolder ih

/-- A path leads to one folder. -/
theorem Leads.unique {t : Tree} {root target target' : NodeUid} {names : List Bytes}
    (h : Leads t root names target) (h' : Leads t root names target') : target = target' := by
  induction h with
  | here =>
      cases h'
      rfl
  | down hchild _ _ ih =>
      cases h' with
      | down hchild' _ hrest' =>
          rw [hchild'.unique hchild] at hrest'
          exact ih hrest'

theorem Leads.take {t : Tree} {root target : NodeUid} {names : List Bytes}
    (h : Leads t root names target) (n : Nat) : ∃ v, Leads t root (names.take n) v := by
  induction h generalizing n with
  | here => exact ⟨_, by rw [List.take_nil]; exact .here⟩
  | down hchild hfolder _ ih =>
      cases n with
      | zero => exact ⟨_, .here⟩
      | succ n =>
          obtain ⟨v, hv⟩ := ih n
          exact ⟨v, .down hchild hfolder hv⟩

/-- Along the path, the segment at `i` was missing: no folder was there at the end of it. -/
def Missing (t : Tree) (root : NodeUid) (names : List Bytes) (i : Nat) : Prop :=
  i < names.length ∧ ¬ ∃ v, Leads t root (names.take (i + 1)) v

/-- What has been created between two trees, a folder for each of some segments that were missing
before, in the order of the path: at most one a segment, with its name, in the folder that the path
leads to before it. -/
def Fills (t t' : Tree) (root : NodeUid) (names : List Bytes) (log : List (NodeUid × Bytes)) :
    Prop :=
  ∃ indices : List Nat, indices.Pairwise (· < ·) ∧
    List.Forall₂ (fun i made => Missing t root names i ∧ names[i]? = some made.2 ∧
      Leads t' root (names.take i) made.1) indices log

section Fills

variable {t t1 t' : Tree} {root : NodeUid} {names : List Bytes} {name : Bytes} {e : Entry}
  {log : List (NodeUid × Bytes)}

theorem Fills.nil (t t' : Tree) (root : NodeUid) (names : List Bytes) : Fills t t' root names [] :=
  ⟨[], .nil, .nil⟩

/-- What is missing in a tree was missing before. -/
theorem Fills.earlier (h : Fills t1 t' root names log) (hgrows : t.Grows t1) :
    Fills t t' root names log := by
  obtain ⟨indices, hincreasing, hmade⟩ := h
  refine ⟨indices, hincreasing, hmade.imp ?_⟩
  rintro i made ⟨⟨hlt, hmissing⟩, hname, hleads⟩
  refine ⟨⟨hlt, ?_⟩, hname, hleads⟩
  rintro ⟨v, hv⟩
  exact hmissing ⟨v, hv.grows hgrows⟩

/-- Below the folder of the first segment. -/
theorem fills_below (hgrows : t.Grows t') (hchild : t'.Child root name e)
    (hfolder : e.isFolder = true) {indices : List Nat}
    (h : List.Forall₂ (fun i made => Missing t e.uid names i ∧
      names[i]? = some made.2 ∧ Leads t' e.uid (names.take i) made.1) indices log) :
    List.Forall₂ (fun i made => Missing t root (name :: names) i ∧
      (name :: names)[i]? = some made.2 ∧ Leads t' root ((name :: names).take i) made.1)
      (indices.map (· + 1)) log := by
  rw [List.forall₂_map_left_iff]
  refine h.imp ?_
  rintro i made ⟨⟨hlt, hmissing⟩, hname, hleads⟩
  refine ⟨⟨Nat.succ_lt_succ hlt, ?_⟩, hname, .down hchild hfolder hleads⟩
  rintro ⟨v, hv⟩
  rw [List.take_succ_cons] at hv
  cases hv with
  | down hchild' _ hrest =>
      rw [(hchild'.grows hgrows).unique hchild] at hrest
      exact hmissing ⟨v, hrest⟩

theorem Fills.found (h : Fills t t' e.uid names log) (hgrows : t.Grows t')
    (hchild : t'.Child root name e) (hfolder : e.isFolder = true) :
    Fills t t' root (name :: names) log := by
  obtain ⟨indices, hincreasing, hmade⟩ := h
  refine ⟨indices.map (· + 1), ?_, fills_below hgrows hchild hfolder hmade⟩
  rw [List.pairwise_map]
  exact hincreasing.imp Nat.succ_lt_succ

theorem Fills.made (h : Fills t t' e.uid names log) (hgrows : t.Grows t')
    (hchild : t'.Child root name e) (hfolder : e.isFolder = true)
    (hnew : ∀ e, ¬ t.Child root name e) :
    Fills t t' root (name :: names) ((root, name) :: log) := by
  obtain ⟨indices, hincreasing, hmade⟩ := h
  refine ⟨0 :: indices.map (· + 1), ?_, .cons ⟨⟨Nat.succ_pos _, ?_⟩, rfl, .here⟩
    (fills_below hgrows hchild hfolder hmade)⟩
  · rw [List.pairwise_cons, List.pairwise_map]
    refine ⟨?_, hincreasing.imp Nat.succ_lt_succ⟩
    intro i hi
    obtain ⟨j, -, rfl⟩ := List.mem_map.mp hi
    exact Nat.succ_pos j
  · rintro ⟨v, hv⟩
    cases hv with
    | down hchild' _ _ => exact hnew _ hchild'

/-- Where the path leads on, nothing was missing. -/
theorem Fills.eq_nil {target : NodeUid} (h : Fills t t' root names log)
    (hleads : Leads t root names target) : log = [] := by
  obtain ⟨indices, -, hmade⟩ := h
  cases hmade with
  | nil => rfl
  | cons hfirst _ => exact absurd (hleads.take _) hfirst.1.2

end Fills

end ProtonDrive.FolderTree
