import ProtonDrive.Lib.Segments
import ProtonDrive.Drive.Hierarchy
import ProtonDrive.Drive.Listings
import ProtonDrive.Drive.Reads

/-!
# Paths there and back

`get_node_path` puts the names on the way to a node behind slashes, and `get_node_by_path` splits a
path at its slashes and looks the segments up one below the other. A name may have a slash in it:
`validate_node_name` only looks at the length of a name.

* `Tree` — a tree that can be read, with accepted names, none of them twice in a folder.
* `Reading.listed` — the listings have the children of each folder if the paging loop reads them to
  their end, that is if none of them is cut short by an empty page.
* `Way` — the names on the way from the root of a tree to a node.
* `roundTrips_iff` — the path of a node leads back to it exactly if no name on the way has a slash.
-/

namespace ProtonDrive.Context

open OpenPgp

/-! ## Trees and their names -/

/-- The name of a node, as listings show it. -/
def plainName (c : Context) (server : NodeUid → Option LinkDetails) (uid : NodeUid) :
    Option Bytes :=
  (c.plainListed server .light uid).map Node.name

/-- The folder a link is in. -/
def parentOf (server : NodeUid → Option LinkDetails) (uid : NodeUid) : Option NodeUid :=
  (server uid).bind (fun details => details.link.parentId.map (NodeUid.mk uid.volumeId))

/-- A tree that can be read: its listings have the children of each folder, and all nodes can be
built. The names in it were accepted when they were given, and those of siblings are different. -/
structure Tree (c : Context) (server : NodeUid → Option LinkDetails) (depth : NodeUid → Nat) :
    Prop where
  rooted : c.Rooted server depth
  readable : ∀ {uid details}, server uid = some details → ∀ detail,
    ∃ node, c.plainBuild server detail uid = .ok (some node)
  listed : ∀ {uid parent}, parentOf server uid = some parent ↔
    uid ∈ c.enumerateFolderChildrenNodeUids parent ∧ (server uid).isSome = true
  accepted : ∀ {uid parent name}, parentOf server uid = some parent →
    c.plainName server uid = some name → validateNodeName name = .ok ()
  distinct : ∀ {uid uid' parent name}, parentOf server uid = some parent →
    parentOf server uid' = some parent → c.plainName server uid = some name →
    c.plainName server uid' = some name → uid = uid'

/-! ## The listings of a tree -/

section Listings

variable {c : Context} {server : NodeUid → Option LinkDetails} {listing : NodeUid → FolderListing}

/-- The context has as the children of a folder what a client reads of the server's listing. -/
def Reading (c : Context) (listing : NodeUid → FolderListing) : Prop :=
  ∀ folder, c.enumerateFolderChildrenNodeUids folder = (listing folder).read folder

/-- The children of the context are what the paging loop returns. -/
theorem Reading.run (h : c.Reading listing) (folder : NodeUid) (extra : Nat)
    (later : List (Except ProtonError FolderChildrenResponse)) :
    ∃ t, (ProtonDrive.enumerateFolderChildrenNodeUids Paging.Script.get
        ((listing folder).pages.length + extra) folder).run ((listing folder).server later) =
      some (t, .ok (c.enumerateFolderChildrenNodeUids folder)) := by
  rw [h folder]
  exact (listing folder).run_read folder extra later

/-- If no listing is cut short, the children are the links on all pages of a listing. -/
theorem Reading.listed (h : c.Reading listing) (hread : ∀ folder, ¬ (listing folder).CutShort)
    (hserver : ∀ {uid parent}, parentOf server uid = some parent ↔
      uid ∈ (listing parent).children parent ∧ (server uid).isSome = true) {uid parent : NodeUid} :
    parentOf server uid = some parent ↔
      uid ∈ c.enumerateFolderChildrenNodeUids parent ∧ (server uid).isSome = true := by
  rw [h parent, ((listing parent).read_eq_children_iff parent).mpr (hread parent)]
  exact hserver

end Listings

/-- The names on the way from a root to a node below it, the root's own name left out. -/
inductive Way (c : Context) (server : NodeUid → Option LinkDetails) (root : NodeUid) :
    List Bytes → NodeUid → Prop where
  | root {details} (hd : server root = some details) (hp : details.link.parentId = none) :
      Way c server root [] root
  | child {names parent uid name} (h : Way c server root names parent)
      (hp : parentOf server uid = some parent) (hname : c.plainName server uid = some name) :
      Way c server root (names ++ [name]) uid

/-- The path of the node leads back to it. -/
def RoundTrips (c : Context) (w : World) (root uid : NodeUid) : Prop :=
  ∃ w1 path w2 node, (c.getNodePath uid).run w = some (w1, .ok (some path)) ∧
    (c.getNodeByPath root path).run w1 = some (w2, .ok (some node)) ∧ node.uid = uid

variable {c : Context} {server : NodeUid → Option LinkDetails} {depth : NodeUid → Nat} {w : World}

/-- An accepted name is not empty. -/
theorem validateNodeName_ne_nil {name : Bytes} (h : validateNodeName name = .ok ()) :
    name ≠ [] := by
  rintro rfl
  cases h

/-! ## Nodes of a tree -/

section Tree

variable {uid parent root : NodeUid} {details : LinkDetails} {detail : NodeDetail} {node : Node}
  {name : Bytes} {names : List Bytes}

/-- The parent of a link on the server. -/
theorem parentOf_eq_some : parentOf server uid = some parent ↔
    ∃ details p, server uid = some details ∧ details.link.parentId = some p ∧
      parent = ⟨uid.volumeId, p⟩ := by
  unfold parentOf
  simp only [Option.bind_eq_some_iff, Option.map_eq_some_iff]
  constructor
  · rintro ⟨details, hd, p, hp, rfl⟩
    exact ⟨details, p, hd, hp, rfl⟩
  · rintro ⟨details, p, hd, hp, rfl⟩
    exact ⟨details, hd, p, hp, rfl⟩

/-- A built node says what the link does: who it is, where it is, and its name. -/
structure Describes (c : Context) (server : NodeUid → Option LinkDetails) (uid : NodeUid)
    (node : Node) : Prop where
  uid_eq : node.uid = uid
  parent_eq : node.parentUid = parentOf server uid
  name_eq : c.plainName server uid = some node.name

/-- What is built of a link is what the server has of it. -/
theorem Tree.describes (h : c.Tree server depth)
    (hbuild : c.plainBuild server detail uid = .ok (some node)) : c.Describes server uid node := by
  obtain ⟨details, key, nodeKey, hd, hkey, hbuilt⟩ := plainBuild_eq_some.mp hbuild
  refine ⟨h.rooted.node_uid hd hbuilt, ?_, ?_⟩
  · rw [(decryptNode_uids hbuilt).2, parentOf, hd]
    rfl
  · obtain ⟨light, hlight⟩ := h.readable hd .light
    obtain ⟨details', key', nodeKey', hd', hkey', hbuilt'⟩ := plainBuild_eq_some.mp hlight
    rw [hd] at hd'
    cases hd'
    rw [hkey] at hkey'
    cases hkey'
    -- Both builds read the name with the same key.
    have hname : light.name = node.name := by
      apply Except.ok.inj
      rw [← decryptNode_name hbuilt', ← decryptNode_name hbuilt]
    rw [plainName, plainListed, hlight, ← hname]
    rfl

/-- A parent lies closer to the root, and is there. -/
theorem Tree.depth_lt (h : c.Tree server depth) (hp : parentOf server uid = some parent) :
    depth parent < depth uid ∧ (server parent).isSome = true := by
  obtain ⟨details, p, hd, hparent, rfl⟩ := parentOf_eq_some.mp hp
  have hl : linksOf server uid.volumeId uid.linkId = some details.link := by
    show (server uid).map LinkDetails.link = _
    rw [hd]
    rfl
  obtain ⟨⟨lp, hlp⟩, hlt⟩ := (h.rooted.tree uid.volumeId).parent hl hparent
  obtain ⟨above, hd', -⟩ := Option.map_eq_some_iff.mp hlp
  exact ⟨hlt, by rw [hd']; rfl⟩

/-- `get_node` finds every node of the tree. -/
theorem Sound.getNode_tree (hw : c.Sound server depth w) (h : c.Tree server depth)
    (hd : (server uid).isSome = true) :
    ∃ w' node, (c.getNode uid).run w = some (w', .ok (some node)) ∧ c.Sound server depth w' ∧
      c.Describes server uid node := by
  obtain ⟨details, hd⟩ := Option.isSome_iff_exists.mp hd
  obtain ⟨w', hrun, hw'⟩ := hw.getNode uid
  cases hinfo : w.entities uid with
  | some info =>
      obtain ⟨-, -, -, detail, hbuild⟩ := hw.entities hinfo
      rw [hinfo] at hrun
      exact ⟨w', info.node, hrun, hw', h.describes hbuild⟩
  | none =>
      obtain ⟨node, hfull⟩ := h.readable hd .full
      rw [hinfo] at hrun
      dsimp only at hrun
      rw [hfull] at hrun
      exact ⟨w', node, hrun, hw', h.describes hfull⟩

/-- A way leads to a link of the server. -/
theorem Way.isSome (h : c.Way server root names uid) : (server uid).isSome = true := by
  cases h with
  | root hd _ => rw [hd]; rfl
  | child _ hp _ =>
      obtain ⟨details, p, hd, -⟩ := parentOf_eq_some.mp hp
      rw [hd]
      rfl

/-- There is one way to a node. -/
theorem Way.unique {names' : List Bytes} (h : c.Way server root names uid)
    (h' : c.Way server root names' uid) : names = names' := by
  have hroot : ∀ {details parent}, server root = some details → details.link.parentId = none →
      parentOf server root ≠ some parent := by
    intro details parent hd hnone hp
    obtain ⟨details', p, hd', hp, -⟩ := parentOf_eq_some.mp hp
    rw [hd] at hd'
    cases hd'
    rw [hnone] at hp
    cases hp
  induction h generalizing names' with
  | root hd hnone =>
      cases h' with
      | root => rfl
      -- The root has no parent, so a way to it is empty.
      | child _ hp _ => exact absurd hp (hroot hd hnone)
  | child _ hp hname ih =>
      cases h' with
      | root hd hnone => exact absurd hp (hroot hd hnone)
      | child h' hp' hname' =>
          rw [hp] at hp'
          cases hp'
          rw [hname] at hname'
          cases hname'
          rw [ih h']

/-- Every name on a way is an accepted one. -/
theorem Way.accepted (htree : c.Tree server depth) (h : c.Way server root names uid) :
    ∀ name ∈ names, validateNodeName name = .ok () := by
  induction h with
  | root => exact fun _ hmem => nomatch hmem
  | child _ hp hname ih =>
      intro name hmem
      rcases List.mem_append.mp hmem with hmem | hmem
      · exact ih name hmem
      · obtain rfl := List.mem_singleton.mp hmem
        exact htree.accepted hp hname

end Tree

/-! ## From a node to its path -/

section There

variable {uid root : NodeUid} {names : List Bytes} {node : Node}

/-- A path is its names with a slash between them. -/
theorem joinNodePath_eq (names : List Bytes) (hne : names ≠ []) :
    joinNodePath names = Segments.joined 47 names := by
  have hfold : ∀ path, names.foldl (fun path name => path ++ 47 :: name) path =
      path ++ Segments.joined 47 names := by
    clear hne
    induction names with
    | nil => exact fun path => (List.append_nil path).symm
    | cons name names ih =>
        intro path
        rw [List.foldl_cons, ih, List.append_assoc]
        rfl
  unfold joinNodePath
  rw [hfold, List.nil_append]
  cases names with
  | nil => exact absurd rfl hne
  | cons name names => rfl

/-- The chain that the hierarchy walk makes above a node has the names on the way to it. -/
theorem Way.hierarchyAbove (htree : c.Tree server depth) (h : c.Way server root names uid)
    (hw : c.Sound server depth w) (hnode : c.Describes server uid node) {fuel : Nat}
    (hfuel : depth uid < fuel) {visited : List NodeUid} (chain : List Node)
    (hvisited : ∀ y ∈ visited, depth uid ≤ depth y) :
    ∃ w' top below, (c.hierarchyAbove fuel visited (node :: chain)).run w =
        some (w', .ok (top :: below ++ chain)) ∧
      c.Sound server depth w' ∧ below.map Node.name = names := by
  obtain ⟨fuel, rfl⟩ : ∃ m, fuel = m + 1 := ⟨fuel - 1, by omega⟩
  induction h generalizing w node fuel visited chain with
  | root hd hp =>
      have hnone : node.parentUid = none := by
        rw [hnode.parent_eq, parentOf, hd, Option.bind_some, hp]
        rfl
      exact ⟨w, node, [], hierarchyAbove_none hnone fuel visited chain, hw, rfl⟩
  | @child names parent uid name h hp hname ih =>
      obtain ⟨hdepth, hparent⟩ := htree.depth_lt hp
      have hup : node.parentUid = some parent := hnode.parent_eq.trans hp
      -- The parent is nearer to the root than all that has been visited.
      have hnew : parent ∉ visited := by
        intro hmem
        have hle := hvisited parent hmem
        omega
      obtain ⟨w1, above, hget, hw1, habove⟩ := hw.getNode_tree htree hparent
      obtain ⟨fuel, rfl⟩ : ∃ m, fuel = m + 1 := ⟨fuel - 1, by omega⟩
      have hvisited' : ∀ y ∈ parent :: visited, depth parent ≤ depth y := by
        intro y hy
        rcases List.mem_cons.mp hy with rfl | hy
        · exact Nat.le_refl _
        · exact Nat.le_of_lt (Nat.lt_of_lt_of_le hdepth (hvisited y hy))
      obtain ⟨w2, top, below, hrest, hw2, hnames⟩ :=
        ih hw1 habove (node :: chain) hvisited' fuel (by omega)
      refine ⟨w2, top, below ++ [node], ?_, hw2, ?_⟩
      · rw [hierarchyAbove_new hup hnew, Program.bind_ok hget, hrest, List.cons_append,
          List.cons_append, List.append_assoc]
        rfl
      · have hlast := hnode.name_eq
        rw [hname] at hlast
        cases hlast
        rw [List.map_append, hnames]
        rfl

/-- The path of a node has the names on the way to it. -/
theorem Way.getNodePath (htree : c.Tree server depth) (h : c.Way server root names uid)
    (hw : c.Sound server depth w) :
    ∃ w', (c.getNodePath uid).run w = some (w', .ok (some (joinNodePath names))) ∧
      c.Sound server depth w' := by
  obtain ⟨details, hd⟩ := Option.isSome_iff_exists.mp h.isSome
  obtain ⟨w1, node, hget, hw1, hnode⟩ := hw.getNode_tree htree h.isSome
  have hvisited : ∀ y ∈ [uid], depth uid ≤ depth y := by
    intro y hy
    rw [List.mem_singleton.mp hy]
  obtain ⟨w2, top, below, habove, hw2, rfl⟩ :=
    h.hierarchyAbove htree hw1 hnode (htree.rooted.shallow hd) [] hvisited
  have hchain : (c.getNodeHierarchy uid).run w = some (w2, .ok (some (top :: below ++ []))) := by
    unfold getNodeHierarchy
    rw [Program.bind_ok hget]
    exact Program.bind_ok habove
  refine ⟨w2, ?_, hw2⟩
  unfold Context.getNodePath
  rw [Program.bind_ok hchain, List.append_nil]
  rfl

end There

/-! ## From a path to the node -/

section Back

variable {uid parent root target : NodeUid} {name : Bytes} {names segments : List Bytes}

/-- In a tree, the child of a name is the node in the folder that has the name. -/
theorem Tree.plainChild_iff (h : c.Tree server depth) :
    c.plainChild server parent name = some uid ↔
      parentOf server uid = some parent ∧ c.plainName server uid = some name := by
  have hlisted : ∀ {uid node}, c.plainListed server .light uid = some node →
      c.Describes server uid node ∧ (server uid).isSome = true := by
    intro uid node hshown
    have hbuild : c.plainBuild server .light uid = .ok (some node) := by
      unfold plainListed at hshown
      cases hbuild : c.plainBuild server .light uid with
      | error e => rw [hbuild] at hshown; cases hshown
      | ok shown =>
          rw [hbuild] at hshown
          rw [show shown = some node from hshown]
    obtain ⟨details, -, -, hd, -⟩ := plainBuild_eq_some.mp hbuild
    exact ⟨h.describes hbuild, by rw [hd]; rfl⟩
  -- What is found has the name, and is in the folder.
  have hfound : ∀ {uid}, c.plainChild server parent name = some uid →
      parentOf server uid = some parent ∧ c.plainName server uid = some name := by
    intro uid hchild
    obtain ⟨node, hfind, rfl⟩ := Option.map_eq_some_iff.mp hchild
    obtain ⟨uid, huid, hshown⟩ := List.mem_filterMap.mp (List.mem_of_find?_eq_some hfind)
    obtain ⟨hnode, hsome⟩ := hlisted hshown
    have hname : node.name = name := by simpa using List.find?_some hfind
    rw [hnode.uid_eq]
    exact ⟨h.listed.mpr ⟨huid, hsome⟩, by rw [hnode.name_eq, hname]⟩
  constructor
  · exact hfound
  · rintro ⟨hp, hname⟩
    obtain ⟨node, hshown, rfl⟩ := Option.map_eq_some_iff.mp hname
    have hmem : node ∈ (c.enumerateFolderChildrenNodeUids parent).filterMap
        (c.plainListed server .light) :=
      List.mem_filterMap.mpr ⟨uid, (h.listed.mp hp).1, hshown⟩
    cases hchild : c.plainChild server parent node.name with
    | some uid' =>
        obtain ⟨hp', hname'⟩ := hfound hchild
        rw [h.distinct hp' hp hname' hname]
    | none =>
        have hnone := List.find?_eq_none.mp (Option.map_eq_none_iff.mp hchild) node hmem
        exact absurd (beq_self_eq_true node.name) hnone

/-- What a path leads to is where the way of its segments ends. -/
theorem Tree.way_of_plainTarget (htree : c.Tree server depth) (h : c.Way server root names uid)
    (htarget : c.plainTarget server uid segments = some target) :
    c.Way server root (names ++ segments) target := by
  induction segments generalizing names uid with
  | nil =>
      cases htarget
      rw [List.append_nil]
      exact h
  | cons segment rest ih =>
      obtain ⟨child, hchild, hrest⟩ := Option.bind_eq_some_iff.mp htarget
      obtain ⟨hp, hname⟩ := htree.plainChild_iff.mp hchild
      have hway := ih (.child h hp hname) hrest
      rwa [List.append_assoc] at hway

/-- A path in two parts. -/
theorem plainTarget_append (names segments : List Bytes) :
    c.plainTarget server root (names ++ segments) =
      (c.plainTarget server root names).bind (c.plainTarget server · segments) := by
  induction names generalizing root with
  | nil => rfl
  | cons name names ih =>
      rw [List.cons_append, plainTarget, plainTarget, Option.bind_assoc]
      congr 1
      funext child
      exact ih

/-- The names on the way lead to the node. -/
theorem Way.plainTarget (htree : c.Tree server depth) (h : c.Way server root names uid) :
    c.plainTarget server root names = some uid := by
  induction h with
  | root => rfl
  | child _ hp hname ih =>
      rw [plainTarget_append, ih, Option.bind_some, Context.plainTarget,
        htree.plainChild_iff.mpr ⟨hp, hname⟩]
      rfl

/-- A way begins at the root. -/
theorem Way.start (h : c.Way server root names uid) : c.Way server root [] root := by
  induction h with
  | root hd hp => exact .root hd hp
  | child _ _ _ ih => exact ih

/-- `get_node_by_path` finds a node exactly if the segments of the path lead to it. -/
theorem Tree.getNodeByPath_iff (htree : c.Tree server depth) (hw : c.Sound server depth w)
    (hroot : c.Way server root [] root) {path : Bytes} :
    (∃ w' node, (c.getNodeByPath root path).run w = some (w', .ok (some node)) ∧
        node.uid = target) ↔ c.plainTarget server root (pathSegments path) = some target := by
  obtain ⟨w1, hfind, h1, -⟩ := hw.findByPath root (pathSegments path)
  unfold Context.getNodeByPath
  rw [Program.bind_ok hfind]
  cases htarget : c.plainTarget server root (pathSegments path) with
  | none =>
      constructor
      · rintro ⟨w', node, hrun, -⟩
        cases hrun
      · intro hnone
        cases hnone
  | some found =>
      -- A path that leads somewhere leads to a node that can be read.
      have hway := htree.way_of_plainTarget hroot htarget
      obtain ⟨w2, node, hget, -, hnode⟩ := h1.getNode_tree htree hway.isSome
      constructor
      · rintro ⟨w', node', hrun, rfl⟩
        dsimp only at hrun
        rw [hget] at hrun
        cases hrun
        rw [hnode.uid_eq]
      · intro hsame
        cases hsame
        exact ⟨w2, node, hget, hnode.uid_eq⟩

end Back

/-! ## There and back -/

/-- The path of accepted names splits into these names exactly if none of them has a slash. -/
theorem pathSegments_joinNodePath_iff {names : List Bytes}
    (haccepted : ∀ name ∈ names, validateNodeName name = .ok ()) :
    pathSegments (joinNodePath names) = names ↔ ∀ name ∈ names, 47 ∉ name := by
  constructor
  · intro hsplit name hmem
    rw [← hsplit] at hmem
    exact Segments.not_mem_of_mem_segments hmem
  · intro hslash
    cases names with
    | nil => rfl
    | cons name names =>
        rw [joinNodePath_eq _ (List.cons_ne_nil name names)]
        apply Segments.segments_joined_self
        intro segment hmem
        exact ⟨validateNodeName_ne_nil (haccepted segment hmem), hslash segment hmem⟩

/-- **Paths there and back.** In a tree of accepted names that are all different within a folder,
the path of a node leads back to the node exactly if no name on the way to it has a slash. -/
theorem roundTrips_iff (htree : c.Tree server depth) (hw : c.Sound server depth w)
    {root uid : NodeUid} {names : List Bytes} (h : c.Way server root names uid) :
    c.RoundTrips w root uid ↔ ∀ name ∈ names, 47 ∉ name := by
  obtain ⟨w1, hpath, hw1⟩ := h.getNodePath htree hw
  rw [← pathSegments_joinNodePath_iff (h.accepted htree)]
  have hback : (∃ w' node, (c.getNodeByPath root (joinNodePath names)).run w1 =
        some (w', .ok (some node)) ∧ node.uid = uid) ↔
      c.plainTarget server root (pathSegments (joinNodePath names)) = some uid :=
    htree.getNodeByPath_iff hw1 h.start
  constructor
  · rintro ⟨w1', path, w2, node, hpath', hrun, huid⟩
    rw [hpath] at hpath'
    cases hpath'
    -- The segments lead to the node, and there is only one way to it.
    have htarget := hback.mp ⟨w2, node, hrun, huid⟩
    exact (h.unique (htree.way_of_plainTarget h.start htarget)).symm
  · intro hsplit
    rw [hsplit] at hback
    obtain ⟨w2, node, hrun, huid⟩ := hback.mpr (h.plainTarget htree)
    exact ⟨w1, joinNodePath names, w2, node, hpath, hrun, huid⟩

/-! ## A folder in the root -/

/-- A folder of some name in the root. -/
def exampleChild (name : Bytes) : LinkDetails :=
  { exampleRoot with
    link := { KeyWalk.folder 1 (some 0) 10 with name := encryptAndSign 10 1 1 name } }

def oneFolder (name : Bytes) (uid : NodeUid) : Option LinkDetails :=
  if uid = ⟨0, 0⟩ then some exampleRoot
  else if uid = ⟨0, 1⟩ then some (exampleChild name) else none

theorem oneFolder_eq_some {name : Bytes} {uid : NodeUid} {details : LinkDetails}
    (h : oneFolder name uid = some details) :
    (uid = ⟨0, 0⟩ ∧ details = exampleRoot) ∨ (uid = ⟨0, 1⟩ ∧ details = exampleChild name) := by
  unfold oneFolder at h
  split at h
  · next huid =>
    cases h
    exact .inl ⟨huid, rfl⟩
  · split at h
    · next huid =>
      cases h
      exact .inr ⟨huid, rfl⟩
    · cases h

/-- Only the folder has a parent. -/
theorem oneFolder_parent {name : Bytes} {uid parent : NodeUid} :
    parentOf (oneFolder name) uid = some parent ↔ uid = ⟨0, 1⟩ ∧ parent = ⟨0, 0⟩ := by
  constructor
  · intro h
    obtain ⟨details, p, hd, hp, rfl⟩ := parentOf_eq_some.mp h
    rcases oneFolder_eq_some hd with ⟨rfl, rfl⟩ | ⟨rfl, rfl⟩
    · cases hp
    · cases hp
      exact ⟨rfl, rfl⟩
  · rintro ⟨rfl, rfl⟩
    rfl

/-- The sample server files its links as it should. -/
theorem oneFolder_rooted (name : Bytes) :
    exampleContext.Rooted (oneFolder name) NodeUid.linkId := by
  constructor
  · intro v
    constructor
    · intro a l hl
      obtain ⟨details, hd, rfl⟩ := Option.map_eq_some_iff.mp hl
      rcases oneFolder_eq_some hd with ⟨huid, rfl⟩ | ⟨huid, rfl⟩
      · cases huid
        rfl
      · cases huid
        rfl
    · intro a l p hl hp
      obtain ⟨details, hd, rfl⟩ := Option.map_eq_some_iff.mp hl
      rcases oneFolder_eq_some hd with ⟨huid, rfl⟩ | ⟨huid, rfl⟩
      · cases hp
      · cases huid
        cases hp
        exact ⟨⟨exampleRoot.link, rfl⟩, Nat.zero_lt_one⟩
  · intro uid details hd
    rcases oneFolder_eq_some hd with ⟨rfl, -⟩ | ⟨rfl, -⟩
    · exact Nat.zero_lt_two
    · exact Nat.one_lt_two

/-- The sample server is a tree. -/
theorem oneFolder_tree {name : Bytes} (haccepted : validateNodeName name = .ok ())
    (hname : exampleContext.plainName (oneFolder name) ⟨0, 1⟩ = some name)
    (hbuild : ∀ detail,
      ∃ node, exampleContext.plainBuild (oneFolder name) detail ⟨0, 1⟩ = .ok (some node)) :
    exampleContext.Tree (oneFolder name) NodeUid.linkId where
  rooted := oneFolder_rooted name
  readable hd detail := by
    rcases oneFolder_eq_some hd with ⟨rfl, -⟩ | ⟨rfl, -⟩
    · cases detail <;> exact ⟨_, rfl⟩
    · exact hbuild detail
  listed := by
    rintro uid parent
    rw [oneFolder_parent]
    constructor
    · rintro ⟨rfl, rfl⟩
      exact ⟨List.mem_singleton.mpr rfl, rfl⟩
    · -- Only the root has a child.
      rintro ⟨hmem, -⟩
      obtain ⟨a, ha, rfl⟩ := List.mem_map.mp hmem
      simp only [exampleContext] at ha
      split at ha
      · next hparent =>
        obtain rfl := List.mem_singleton.mp ha
        rw [hparent]
        exact ⟨rfl, rfl⟩
      · cases ha
  accepted hp hname' := by
    obtain ⟨rfl, rfl⟩ := oneFolder_parent.mp hp
    rw [hname] at hname'
    cases hname'
    exact haccepted
  distinct hp hp' _ _ := by
    rw [(oneFolder_parent.mp hp).1, (oneFolder_parent.mp hp').1]

/-- The way to the folder has its name. -/
theorem oneFolder_way {name : Bytes}
    (hname : exampleContext.plainName (oneFolder name) ⟨0, 1⟩ = some name) :
    exampleContext.Way (oneFolder name) ⟨0, 0⟩ [name] ⟨0, 1⟩ :=
  .child (@Way.root _ _ _ exampleRoot rfl rfl) (oneFolder_parent.mpr ⟨rfl, rfl⟩) hname

/-- **A slash in a name** is accepted, and the path of a folder "a/b" leads nowhere. -/
theorem not_roundTrips :
    exampleContext.Tree (oneFolder [97, 47, 98]) NodeUid.linkId ∧
    exampleContext.Way (oneFolder [97, 47, 98]) ⟨0, 0⟩ [[97, 47, 98]] ⟨0, 1⟩ ∧
    ¬ exampleContext.RoundTrips (started (oneFolder [97, 47, 98])) ⟨0, 0⟩ ⟨0, 1⟩ := by
  have hname : exampleContext.plainName (oneFolder [97, 47, 98]) ⟨0, 1⟩ = some [97, 47, 98] := by
    decide
  have hbuild : ∀ detail, ∃ node,
      exampleContext.plainBuild (oneFolder [97, 47, 98]) detail ⟨0, 1⟩ = .ok (some node) := by
    intro detail
    cases detail <;> exact ⟨_, rfl⟩
  refine ⟨oneFolder_tree rfl hname hbuild, oneFolder_way hname, ?_⟩
  -- The name is one segment with a slash in it, and is read as two.
  obtain ⟨w1, hpath, w2, hrun⟩ : ∃ w1,
      (exampleContext.getNodePath ⟨0, 1⟩).run (started (oneFolder [97, 47, 98])) =
        some (w1, .ok (some [47, 97, 47, 98])) ∧
      ∃ w2, (exampleContext.getNodeByPath ⟨0, 0⟩ [47, 97, 47, 98]).run w1 = some (w2, .ok none) :=
    ⟨_, rfl, _, rfl⟩
  rintro ⟨w1', path, w2', node, hpath', hrun', -⟩
  rw [hpath] at hpath'
  cases hpath'
  rw [hrun] at hrun'
  cases hrun'

/-! ## A folder in a folder

Folders "a" and "b" in the root, on two pages, and a second folder "a" in "b". -/

def nestedServer (uid : NodeUid) : Option LinkDetails :=
  if uid = ⟨0, 0⟩ then some exampleRoot
  else if uid = ⟨0, 1⟩ then some (exampleChild [97])
  else if uid = ⟨0, 2⟩ then
    some { exampleRoot with
      link := { KeyWalk.folder 2 (some 0) 10 with name := encryptAndSign 10 1 2 [98] } }
  else if uid = ⟨0, 3⟩ then some { exampleRoot with link := KeyWalk.folder 3 (some 2) 12 }
  else none

def nestedListing (uid : NodeUid) : FolderListing where
  before := if uid = ⟨0, 0⟩ then [⟨[1], some 1, true⟩] else []
  last := ⟨if uid = ⟨0, 0⟩ then [2] else if uid = ⟨0, 2⟩ then [3] else [], none, false⟩
  goesOn := by split <;> simp [FolderChildrenResponse.following]
  ends := rfl

def nestedContext : Context :=
  { exampleContext with
    children := fun uid => if uid = ⟨0, 0⟩ then [1, 2] else if uid = ⟨0, 2⟩ then [3] else []
    fuel := 4 }

theorem nestedServer_eq_some {uid : NodeUid} {details : LinkDetails}
    (h : nestedServer uid = some details) :
    uid = ⟨0, 0⟩ ∨ uid = ⟨0, 1⟩ ∨ uid = ⟨0, 2⟩ ∨ uid = ⟨0, 3⟩ := by
  unfold nestedServer at h
  split_ifs at h with h0 h1 h2 h3
  · exact .inl h0
  · exact .inr (.inl h1)
  · exact .inr (.inr (.inl h2))
  · exact .inr (.inr (.inr h3))

/-- Who is whose parent. -/
theorem nestedServer_parent {uid parent : NodeUid} :
    parentOf nestedServer uid = some parent ↔
      (uid = ⟨0, 1⟩ ∧ parent = ⟨0, 0⟩) ∨ (uid = ⟨0, 2⟩ ∧ parent = ⟨0, 0⟩) ∨
        (uid = ⟨0, 3⟩ ∧ parent = ⟨0, 2⟩) := by
  constructor
  · intro h
    obtain ⟨details, p, hd, hp, rfl⟩ := parentOf_eq_some.mp h
    rcases nestedServer_eq_some hd with rfl | rfl | rfl | rfl
    · cases hd
      cases hp
    · cases hd
      cases hp
      exact .inl ⟨rfl, rfl⟩
    · cases hd
      cases hp
      exact .inr (.inl ⟨rfl, rfl⟩)
    · cases hd
      cases hp
      exact .inr (.inr ⟨rfl, rfl⟩)
  · rintro (⟨rfl, rfl⟩ | ⟨rfl, rfl⟩ | ⟨rfl, rfl⟩) <;> rfl

/-- The folders have the children that their pages list. -/
theorem nestedContext_reading : nestedContext.Reading nestedListing := by
  intro folder
  by_cases h0 : folder = ⟨0, 0⟩
  · subst h0
    rfl
  · by_cases h2 : folder = ⟨0, 2⟩
    · subst h2
      rfl
    · simp [enumerateFolderChildrenNodeUids, nestedContext, FolderListing.read, Listing.pages,
        nestedListing, readPages, FolderChildrenResponse.next, h0, h2]

/-- No page of the sample hides the next one. -/
theorem nestedListing_not_cutShort (folder : NodeUid) : ¬ (nestedListing folder).CutShort := by
  rw [← FolderListing.read_eq_children_iff folder]
  by_cases h0 : folder = ⟨0, 0⟩
  · subst h0
    rfl
  · simp [FolderListing.read, FolderListing.children, Listing.pages, nestedListing, readPages,
      FolderChildrenResponse.next, h0]

/-- The sample server files its links as it should. -/
theorem nestedContext_rooted : nestedContext.Rooted nestedServer NodeUid.linkId := by
  constructor
  · intro v
    constructor
    · intro a l hl
      obtain ⟨details, hd, rfl⟩ := Option.map_eq_some_iff.mp hl
      rcases nestedServer_eq_some hd with huid | huid | huid | huid <;>
        · cases huid
          cases hd
          rfl
    · intro a l p hl hp
      obtain ⟨details, hd, rfl⟩ := Option.map_eq_some_iff.mp hl
      have hparent : parentOf nestedServer ⟨v, a⟩ = some ⟨v, p⟩ :=
        parentOf_eq_some.mpr ⟨details, p, hd, hp, rfl⟩
      rcases nestedServer_parent.mp hparent with ⟨hu, hp⟩ | ⟨hu, hp⟩ | ⟨hu, hp⟩ <;>
        · cases hu
          cases hp
          exact ⟨⟨_, rfl⟩, by decide⟩
  · intro uid details hd
    rcases nestedServer_eq_some hd with rfl | rfl | rfl | rfl <;> decide

/-- The sample server is a tree. -/
theorem nestedContext_tree : nestedContext.Tree nestedServer NodeUid.linkId where
  rooted := nestedContext_rooted
  readable hd detail := by
    rcases nestedServer_eq_some hd with rfl | rfl | rfl | rfl <;>
      · cases detail <;> exact ⟨_, rfl⟩
  listed := by
    apply nestedContext_reading.listed nestedListing_not_cutShort
    intro uid parent
    rw [nestedServer_parent]
    constructor
    · rintro (⟨rfl, rfl⟩ | ⟨rfl, rfl⟩ | ⟨rfl, rfl⟩) <;> decide
    · rintro ⟨hmem, -⟩
      by_cases h0 : parent = ⟨0, 0⟩
      · subst h0
        have huid : uid = ⟨0, 1⟩ ∨ uid = ⟨0, 2⟩ := by
          simpa [FolderListing.children, Listing.pages, nestedListing] using hmem
        rcases huid with rfl | rfl
        · exact .inl ⟨rfl, rfl⟩
        · exact .inr (.inl ⟨rfl, rfl⟩)
      · by_cases h2 : parent = ⟨0, 2⟩
        · subst h2
          have huid : uid = ⟨0, 3⟩ := by
            simpa [FolderListing.children, Listing.pages, nestedListing] using hmem
          exact .inr (.inr ⟨huid, rfl⟩)
        · simp [FolderListing.children, Listing.pages, nestedListing, h0, h2] at hmem
  accepted hp hname := by
    rcases nestedServer_parent.mp hp with ⟨rfl, -⟩ | ⟨rfl, -⟩ | ⟨rfl, -⟩ <;>
      · cases hname
        rfl
  distinct hp hp' hname hname' := by
    -- The two folders "a" have different parents.
    rcases nestedServer_parent.mp hp with ⟨rfl, rfl⟩ | ⟨rfl, rfl⟩ | ⟨rfl, rfl⟩ <;>
      rcases nestedServer_parent.mp hp' with ⟨rfl, hq⟩ | ⟨rfl, hq⟩ | ⟨rfl, hq⟩ <;>
      cases hq <;> first | rfl | (cases hname; cases hname')

/-- The path of the folder "a" in "b" leads back to it, and not to the folder "a" in the root. -/
theorem roundTrips_folder :
    nestedContext.RoundTrips (started nestedServer) ⟨0, 0⟩ ⟨0, 3⟩ := by
  have hroot : nestedContext.Way nestedServer ⟨0, 0⟩ [] ⟨0, 0⟩ :=
    @Way.root _ _ _ exampleRoot rfl rfl
  have hb : nestedContext.Way nestedServer ⟨0, 0⟩ [[98]] ⟨0, 2⟩ :=
    .child hroot rfl rfl
  have ha : nestedContext.Way nestedServer ⟨0, 0⟩ [[98], [97]] ⟨0, 3⟩ :=
    .child hb rfl rfl
  exact (roundTrips_iff nestedContext_tree nestedContext_rooted.started ha).mpr (by decide)

end ProtonDrive.Context
