import ProtonDrive.Lib.BreadthFirst
import ProtonDrive.Drive.SharedFolder

/-!
# The subtree of a shared folder

`enumerate_subtree` of the client of a public link, which has no endpoint for a whole tree: it lists
the folders of a level, up to six at a time, takes their children in the order of the folders, and
goes on with the folders among them. The listings run in any order and step by step, the key cache
that they share may lose keys at any time, and a count of the nodes found is reported after each
listing.

* `Share.walk` — the walk.
* `Walk.At` — where it is: how many levels it has read, and which folders of the next one.
* `subtree_walk` — on a finite tree whose nodes decrypt, every walk can be brought to its end, and
  its result is complete, in order and without duplicates exactly if no folder's listing is cut short
  by a page without links.
-/

namespace ProtonDrive.PublicLink

open OpenPgp

/-- `MAX_CONCURRENT_FOLDER_LISTINGS`. -/
def maxConcurrentFolderListings : Nat := 6

/-- A walk under way, in one of its levels. -/
structure Walk where
  keys : Keys
  listings : TaskStream ListFolder
  next : List NodeUid
  found : List Node
  /-- What has been reported. -/
  progress : List Nat

inductive WalkAction where
  /-- A listing is taken in, or goes on. -/
  | listing (action : TaskStreamAction ListFolderAction)
  /-- `listings.try_next()` -/
  | children
  /-- On to the next level. -/
  | level
  /-- The cache loses a key. -/
  | evict (uid : NodeUid)
  deriving DecidableEq, Repr

namespace Share

variable (share : Share)

def listLevel (level : List NodeUid) : TaskStream ListFolder :=
  .start (level.map (ListFolder.start share))

def walkStep (w : Walk) : WalkAction → Option Walk
  | .listing action =>
      (TaskStream.step share.listFolder maxConcurrentFolderListings w.keys w.listings action).map
        (fun p => { w with keys := p.1, listings := p.2 })
  | .children =>
      (w.listings.pop ListFolder.result).map (fun p =>
        { w with
          listings := p.2
          next := w.next ++ (p.1.filter Node.isFolder).map Node.uid
          found := w.found ++ p.1
          progress := w.progress ++ [(w.found ++ p.1).length] })
  | .level =>
      if w.listings.Over ∧ w.next ≠ [] then
        some { w with listings := share.listLevel w.next, next := [] }
      else none
  | .evict uid => some { w with keys := w.keys.evict uid }

def walk : Machine Walk WalkAction := ⟨share.walkStep⟩

end Share

def Walk.start (share : Share) (keys : Keys) (folderUid : NodeUid) : Walk where
  keys := keys
  listings := share.listLevel [folderUid]
  next := []
  found := []
  progress := []

/-- The call has returned. -/
def Walk.Done (w : Walk) : Prop := w.listings.Over ∧ w.next = []

/-- The counts do not decrease, and the last is the length of the result. -/
def Walk.Reported (w : Walk) : Prop :=
  w.progress.Pairwise (· ≤ ·) ∧ w.progress.getLast? = some w.found.length

/-! ## What a subtree is -/

namespace Share

section

variable (share : Share) (folderUid : NodeUid)

/-- The children of a folder, by the whole of its listing. -/
def children : List Node := ((share.listing folderUid).children folderUid).filterMap share.node

/-- The children that `list_folder` returns. -/
def listed : List Node := ((share.listing folderUid).read folderUid).filterMap share.node

/-- The folder itself, or a folder below it. -/
def Reached (uid : NodeUid) : Prop :=
  BreadthFirst.Reached share.children Node.uid Node.isFolder folderUid uid

/-- Below the folder there is a finite tree of nodes that decrypt. -/
structure IsTree : Prop where
  readable : ∀ {uid child}, share.Reached folderUid uid →
    child ∈ (share.listing uid).children uid → share.Readable child
  tree : BreadthFirst.IsTree share.children Node.uid Node.isFolder folderUid
  finite : {uid | share.Reached folderUid uid}.Finite

/-- Every node below the folder once and nothing else, level by level and in the order of the
listings. -/
def Complete (found : List Node) : Prop :=
  BreadthFirst.Complete share.children Node.uid Node.isFolder folderUid found

end

variable {share : Share} {folderUid uid : NodeUid} {uids : List NodeUid}

theorem map_uid_filterMap (h : ∀ uid ∈ uids, share.Readable uid) :
    (uids.filterMap share.node).map Node.uid = uids := by
  induction uids with
  | nil => rfl
  | cons uid uids ih =>
      obtain ⟨-, -, node, -, -, -, -, hnode, huid⟩ := (h uid List.mem_cons_self).exists_node
      have hrest := ih (fun uid huid => h uid (List.mem_cons_of_mem _ huid))
      rw [List.filterMap_cons_some hnode, List.map_cons, hrest, huid]

theorem listed_sublist (uid : NodeUid) : (share.listed uid).Sublist (share.children uid) :=
  (share.listing uid).read_prefix_children.sublist.filterMap share.node

theorem IsTree.readable_read (htree : share.IsTree folderUid) (huid : share.Reached folderUid uid) :
    ∀ child ∈ (share.listing uid).read uid, share.Readable child := by
  intro child hchild
  exact htree.readable huid ((share.listing uid).read_prefix_children.subset hchild)

/-- `list_folder` returns all children exactly if the listing is not cut short. -/
theorem IsTree.listed_eq_iff (htree : share.IsTree folderUid) (huid : share.Reached folderUid uid) :
    share.listed uid = share.children uid ↔ ¬ (share.listing uid).CutShort := by
  rw [← FolderListing.read_eq_children_iff uid]
  constructor
  · intro h
    have huids := congrArg (List.map Node.uid) h
    unfold listed children at huids
    rw [map_uid_filterMap (htree.readable_read huid),
      map_uid_filterMap (fun child hchild => htree.readable huid hchild)] at huids
    exact huids
  · intro h
    unfold listed children
    rw [h]

end Share

/-! ## Where a walk is -/

section

variable (share : Share) (folderUid : NodeUid)

/-- The folders that the walk lists after `depth` levels. -/
def Share.frontier (depth : Nat) : List NodeUid :=
  BreadthFirst.frontier share.listed Node.uid Node.isFolder folderUid depth

/-- After `depth` levels: of the next one, `before` has been taken and `after` is still to come. -/
structure Walk.At (depth : Nat) (before after : List NodeUid) (w : Walk) : Prop where
  keys : share.KeysRight w.keys
  frontier : share.frontier folderUid depth = before ++ after
  due : w.listings.Due share.Lists (after.map share.listed)
  next : w.next = ((before.flatMap share.listed).filter Node.isFolder).map Node.uid
  found : w.found =
    (List.range depth).flatMap
      (BreadthFirst.level share.listed Node.uid Node.isFolder folderUid) ++
    before.flatMap share.listed
  rising : w.progress.Pairwise (· ≤ ·)
  bounded : ∀ count ∈ w.progress, count ≤ w.found.length
  last : depth ≠ 0 ∨ before ≠ [] → w.progress.getLast? = some w.found.length

end

namespace Walk

variable {share : Share} {folderUid folder : NodeUid} {depth : Nat} {before after : List NodeUid}
  {w w' : Walk} {keys : Keys}

theorem reached_of_mem_frontier (h : folder ∈ share.frontier folderUid depth) :
    share.Reached folderUid folder :=
  (BreadthFirst.reached_of_mem_frontier h).mono share.listed_sublist

theorem due_listLevel (htree : share.IsTree folderUid) (depth : Nat) :
    (share.listLevel (share.frontier folderUid depth)).Due share.Lists
      ((share.frontier folderUid depth).map share.listed) := by
  apply TaskStream.due_start
  rw [List.forall₂_map_left_iff, List.forall₂_map_right_iff, List.forall₂_same]
  intro folder hfolder
  exact Share.lists_start (htree.readable_read (reached_of_mem_frontier hfolder))

theorem at_start (htree : share.IsTree folderUid) (hkeys : share.KeysRight keys) :
    At share folderUid 0 [] [folderUid] (.start share keys folderUid) where
  keys := hkeys
  frontier := rfl
  due := due_listLevel htree 0
  next := rfl
  found := rfl
  rising := .nil
  bounded _ hcount := absurd hcount List.not_mem_nil
  last h := by
    rcases h with h | h
    · exact absurd rfl h
    · exact absurd rfl h

/-! ## Steps -/

/-- A listing goes on. -/
theorem At.listing (h : At share folderUid depth before after w)
    {listings : TaskStream ListFolder} (hkeys : share.KeysRight keys)
    (hdue : listings.Due share.Lists (after.map share.listed)) :
    At share folderUid depth before after { w with keys := keys, listings := listings } :=
  { h with keys := hkeys, due := hdue }

/-- The next folder's children come from its listing. -/
theorem At.children {after : List NodeUid} (h : At share folderUid depth before after w)
    (hstep : share.walk.step w .children = some w') :
    ∃ folder rest, after = folder :: rest ∧
      At share folderUid depth (before ++ [folder]) rest w' := by
  obtain ⟨⟨children, listings⟩, hpop, rfl⟩ := Option.map_eq_some_iff.mp hstep
  obtain ⟨rest, hrest, hdue⟩ := share.settles.pop_due h.due hpop
  obtain ⟨folder, after, rfl, rfl, rfl⟩ := List.map_eq_cons_iff.mp hrest
  refine ⟨folder, after, rfl, ?_⟩
  have hchildren : (before ++ [folder]).flatMap share.listed =
      before.flatMap share.listed ++ share.listed folder := by
    rw [List.flatMap_append, List.flatMap_singleton]
  constructor
  · exact h.keys
  · -- The listing popped is that of the folder whose turn it is.
    rw [h.frontier, List.append_assoc]
    rfl
  · exact hdue
  · show w.next ++ _ = _
    rw [hchildren, h.next, List.filter_append, List.map_append]
  · show w.found ++ _ = _
    rw [hchildren, h.found, List.append_assoc]
  · -- Progress only ever grows, as folders are added to those found.
    show (w.progress ++ [_]).Pairwise _
    rw [List.pairwise_append]
    refine ⟨h.rising, List.pairwise_singleton _ _, ?_⟩
    intro count hcount last hlast
    cases List.mem_singleton.mp hlast
    have hle := h.bounded count hcount
    rw [List.length_append]
    omega
  · show ∀ count ∈ w.progress ++ [_], _
    intro count hcount
    rcases List.mem_append.mp hcount with hcount | hcount
    · have hle := h.bounded count hcount
      show count ≤ (w.found ++ _).length
      rw [List.length_append]
      omega
    · cases List.mem_singleton.mp hcount
      exact Nat.le_refl _
  · intro _
    exact List.getLast?_concat

/-- The folders that have been found are the next level. -/
theorem At.next_eq (h : At share folderUid depth before [] w) :
    w.next = share.frontier folderUid (depth + 1) := by
  have hbefore : before = share.frontier folderUid depth := by
    rw [h.frontier, List.append_nil]
  rw [h.next, hbefore]
  rfl

theorem At.found_eq (h : At share folderUid depth before [] w) :
    w.found = (List.range (depth + 1)).flatMap
      (BreadthFirst.level share.listed Node.uid Node.isFolder folderUid) := by
  have hbefore : before = share.frontier folderUid depth := by
    rw [h.frontier, List.append_nil]
  rw [h.found, hbefore, List.range_succ, List.flatMap_append, List.flatMap_singleton]
  rfl

/-- At the end of a level the last count is that of all nodes found. -/
theorem At.last_eq (h : At share folderUid depth before [] w) :
    w.progress.getLast? = some w.found.length := by
  apply h.last
  cases depth with
  | zero =>
      right
      rintro rfl
      cases h.frontier
  | succ depth =>
      left
      exact Nat.succ_ne_zero depth

theorem At.level (htree : share.IsTree folderUid) (h : At share folderUid depth before after w)
    (hstep : share.walk.step w .level = some w') :
    after = [] ∧
      At share folderUid (depth + 1) [] (share.frontier folderUid (depth + 1)) w' := by
  -- A level ends once every listing of it is taken.
  obtain ⟨⟨hover, -⟩, heq⟩ := Option.ite_none_right_eq_some.mp hstep
  cases heq
  cases List.map_eq_nil_iff.mp (h.due.over_iff.mp hover)
  refine ⟨rfl, ?_⟩
  constructor
  · exact h.keys
  · rfl
  · -- In a tree every folder found is readable, so its listing is due.
    show (share.listLevel w.next).Due _ _
    rw [h.next_eq]
    exact due_listLevel htree (depth + 1)
  · rfl
  · rw [List.flatMap_nil, List.append_nil]
    exact h.found_eq
  · exact h.rising
  · exact h.bounded
  · intro _
    exact h.last_eq

/-- **One step** of a walk. -/
theorem At.step {action : WalkAction} (htree : share.IsTree folderUid)
    (h : At share folderUid depth before after w) (hstep : share.walk.step w action = some w') :
    ∃ depth' before' after', At share folderUid depth' before' after' w' := by
  cases action with
  | listing action =>
      obtain ⟨⟨keys, listings⟩, hlisting, rfl⟩ := Option.map_eq_some_iff.mp hstep
      obtain ⟨hkeys, hdue⟩ := share.settles.step_due h.keys h.due hlisting
      exact ⟨depth, before, after, h.listing hkeys hdue⟩
  | children =>
      obtain ⟨folder, rest, -, h'⟩ := h.children hstep
      exact ⟨_, _, _, h'⟩
  | level =>
      obtain ⟨-, h'⟩ := h.level htree hstep
      exact ⟨_, _, _, h'⟩
  | evict uid =>
      cases hstep
      exact ⟨depth, before, after, h.listing (h.keys.evict uid) h.due⟩

/-- **Every run** of a walk. -/
theorem exists_at {actions : List WalkAction} (htree : share.IsTree folderUid)
    (hkeys : share.KeysRight keys)
    (hrun : share.walk.exec (.start share keys folderUid) actions = some w) :
    ∃ depth before after, At share folderUid depth before after w := by
  apply share.walk.exec_invariant
    (fun w => ∃ depth before after, At share folderUid depth before after w) _
    ⟨0, [], [folderUid], at_start htree hkeys⟩ hrun
  rintro v action v' ⟨depth, before, after, h⟩ hstep
  exact h.step htree hstep

/-- **What a walk returns**: the listings, level by level. -/
theorem At.inOrder (h : At share folderUid depth before after w) (hdone : w.Done) :
    BreadthFirst.InOrder share.listed Node.uid Node.isFolder folderUid w.found ∧ w.Reported := by
  obtain ⟨hover, hnext⟩ := hdone
  cases List.map_eq_nil_iff.mp (h.due.over_iff.mp hover)
  exact ⟨⟨depth + 1, h.next_eq.symm.trans hnext, h.found_eq⟩, h.rising, h.last_eq⟩

/-! ## Progress -/

/-- What the stream of listings does, the walk does. -/
theorem exec_listings {actions : List (TaskStreamAction ListFolderAction)}
    {listings : TaskStream ListFolder}
    (h : (TaskStream.machine share.listFolder maxConcurrentFolderListings).exec
      (w.keys, w.listings) actions = some (keys, listings)) :
    ∃ steps, share.walk.exec w steps = some { w with keys := keys, listings := listings } := by
  apply Machine.exec_refines _ (fun p => ({ w with keys := p.1, listings := p.2 } : Walk)) _ h
  rintro ⟨k, l⟩ action ⟨k', l'⟩ hstep
  refine ⟨[.listing action], share.walk.exec_singleton ?_⟩
  exact Option.map_eq_some_iff.mpr ⟨(k', l'), hstep, rfl⟩

/-- The folders of a level can all be listed. -/
theorem At.finish_level (h : At share folderUid depth before after w) :
    ∃ actions w', share.walk.exec w actions = some w' ∧
      At share folderUid depth (before ++ after) [] w' := by
  -- By induction on the folders whose listing is still due.
  induction after generalizing before w with
  | nil =>
      refine ⟨[], w, rfl, ?_⟩
      rw [List.append_nil]
      exact h
  | cons folder after ih =>
      -- The listing in front can be brought to its end and taken.
      obtain ⟨actions, keys, listings, rest, hexec, hpop⟩ :=
        share.settles.exists_pop (n := maxConcurrentFolderListings) (by decide) h.keys h.due
      obtain ⟨hkeys, hdue⟩ := share.settles.exec_due h.keys h.due hexec
      obtain ⟨steps, hsteps⟩ := exec_listings hexec
      have hat := h.listing hkeys hdue
      obtain ⟨w1, hchildren⟩ : ∃ w1, share.walk.step
          { w with keys := keys, listings := listings } .children = some w1 := by
        apply Option.isSome_iff_exists.mp
        show ((listings.pop ListFolder.result).map _).isSome = true
        rw [Option.isSome_map, hpop]
        rfl
      obtain ⟨_, _, heq, hat1⟩ := hat.children hchildren
      cases heq
      obtain ⟨actions', w', hexec', hat'⟩ := ih hat1
      refine ⟨steps ++ .children :: actions', w', ?_, ?_⟩
      · rw [share.walk.exec_append, hsteps]
        exact share.walk.exec_cons_iff.mpr ⟨w1, hchildren, hexec'⟩
      · rw [List.append_assoc] at hat'
        exact hat'

/-- **Every walk** of a finite tree can be run until it returns. -/
theorem At.canFinish (htree : share.IsTree folderUid)
    (h : At share folderUid depth before after w) :
    ∃ actions w', share.walk.exec w actions = some w' ∧ w'.Done := by
  obtain ⟨last, hlast⟩ := (htree.tree.mono share.listed_sublist).exists_frontier_eq_nil
    (htree.finite.subset (fun uid huid => huid.mono share.listed_sublist))
  -- On the number of levels that are left.
  induction hleft : last - depth using Nat.strongRecOn generalizing depth before after w with
  | _ left ih =>
      obtain ⟨actions, w1, hexec, hat⟩ := h.finish_level
      have hover : w1.listings.Over := hat.due.over_iff.mpr rfl
      by_cases hnext : w1.next = []
      · exact ⟨actions, w1, hexec, hover, hnext⟩
      · have hstep : share.walk.step w1 .level =
            some { w1 with listings := share.listLevel w1.next, next := [] } :=
          if_pos ⟨hover, hnext⟩
        obtain ⟨-, hat2⟩ := hat.level htree hstep
        rw [hat.next_eq] at hnext
        obtain ⟨folder, hfolder⟩ := List.exists_mem_of_ne_nil _ hnext
        have hlt := BreadthFirst.lt_of_mem_frontier hlast hfolder
        obtain ⟨actions', w', hexec', hdone⟩ := ih (last - (depth + 1)) (by omega) hat2 rfl
        refine ⟨actions ++ .level :: actions', w', ?_, hdone⟩
        rw [share.walk.exec_append, hexec]
        exact share.walk.exec_cons_iff.mpr ⟨_, hstep, hexec'⟩

end Walk

/-- **The walk of a subtree**, in every run: it can always be brought to its end, and there its
result is complete exactly if the listing of no folder of the subtree is cut short. -/
theorem subtree_walk {share : Share} {folderUid : NodeUid} {keys : Keys} {actions : List WalkAction}
    {w : Walk} (htree : share.IsTree folderUid) (hkeys : share.KeysRight keys)
    (hrun : share.walk.exec (.start share keys folderUid) actions = some w) :
    (∃ actions' w', share.walk.exec w actions' = some w' ∧ w'.Done) ∧
    (w.Done → (share.Complete folderUid w.found ∧ w.Reported ↔
      ∀ uid, share.Reached folderUid uid → ¬ (share.listing uid).CutShort)) := by
  obtain ⟨depth, before, after, hat⟩ := Walk.exists_at htree hkeys hrun
  refine ⟨hat.canFinish htree, ?_⟩
  intro hdone
  obtain ⟨hinOrder, hreported⟩ := hat.inOrder hdone
  have hcomplete := BreadthFirst.complete_iff htree.tree share.listed_sublist hinOrder
  constructor
  · intro h uid huid
    exact (htree.listed_eq_iff huid).mp (hcomplete.mp h.1 uid huid)
  · intro h
    refine ⟨hcomplete.mpr ?_, hreported⟩
    intro uid huid
    exact (htree.listed_eq_iff huid).mpr (h uid huid)

/-! ## A share with one file -/

def oneFile (listing : FolderListing) : Share where
  rootUid := ⟨1, 2⟩
  shareKey := 10
  links uid :=
    if uid = ⟨1, 2⟩ then some (entry 1 (KeyWalk.folder 2 none 10))
    else if uid = ⟨1, 8⟩ then some (entry 2 (KeyWalk.folder 8 (some 2) 12))
    else none
  listing uid := if uid = ⟨1, 2⟩ then listing else ⟨[], ⟨[], none, false⟩, by decide, rfl⟩
  parseAttributes _ := none
where
  entry (linkType : Int) (link : Link) : LinkDetails :=
    ⟨link, linkType, 1, 0, 0, none, none, none, none, none, none, none⟩

/-- A link whose key and name decrypt is a node of its kind. -/
theorem node_entry {share : Share} {v : VolumeId} {linkType : Int} {id : LinkId}
    {parentId : Option LinkId} {key : Key}
    (h : share.node ⟨v, id⟩ = (share.buildNode v
      (oneFile.entry linkType (KeyWalk.folder id parentId key)) key).toOption) :
    ∃ node, share.node ⟨v, id⟩ = some node ∧ node.uid = ⟨v, id⟩ ∧ node.isFolder =
      decide ((oneFile.entry linkType (KeyWalk.folder id parentId key)).parsedType = .folder) := by
  rw [h]
  unfold Share.buildNode
  show ∃ node, (decryptLink key (KeyWalk.folder id parentId key) >>= _).toOption = some node ∧ _
  rw [Thumbnails.decryptLink_folder]
  refine ⟨_, rfl, rfl, ?_⟩
  by_cases hfolder :
      (oneFile.entry linkType (KeyWalk.folder id parentId key)).parsedType = .folder
  · simp [Node.isFolder, hfolder]
  · simp [Node.isFolder, Share.fileKind, hfolder]

theorem readable_oneFile (listing : FolderListing) : (oneFile listing).Readable ⟨1, 8⟩ := by
  have hroot : (oneFile listing).Readable ⟨1, 2⟩ :=
    .root rfl rfl rfl (Thumbnails.decryptLink_folder 2 none 10)
  have hne : (8 : LinkId) ≠ 2 := by decide
  exact .child rfl rfl hne rfl rfl (Thumbnails.decryptLink_folder 8 (some 2) 12) hroot

theorem node_oneFile (listing : FolderListing) :
    ∃ file, (oneFile listing).node ⟨1, 8⟩ = some file ∧ file.isFolder = false ∧
      file.uid = ⟨1, 8⟩ := by
  obtain ⟨file, hnode, huid, hfile⟩ := @node_entry (oneFile listing) 1 2 8 (some 2) 12 rfl
  exact ⟨file, hnode, hfile, huid⟩

theorem children_oneFile {listing : FolderListing} (h : listing.children ⟨1, 2⟩ = [⟨1, 8⟩]) :
    ∃ file, (oneFile listing).children ⟨1, 2⟩ = [file] ∧ file.isFolder = false ∧
      file.uid = ⟨1, 8⟩ := by
  obtain ⟨file, hnode, hfile, huid⟩ := node_oneFile listing
  refine ⟨file, ?_, hfile, huid⟩
  show (listing.children ⟨1, 2⟩).filterMap _ = _
  rw [h, List.filterMap_cons_some hnode]
  rfl

theorem reached_oneFile {listing : FolderListing} (h : listing.children ⟨1, 2⟩ = [⟨1, 8⟩])
    {uid : NodeUid} (huid : (oneFile listing).Reached ⟨1, 2⟩ uid) : uid = ⟨1, 2⟩ := by
  obtain ⟨file, hchildren, hfile, -⟩ := children_oneFile h
  induction huid with
  | refl => rfl
  | tail _ hinto ih =>
      -- The only child is not a folder.
      obtain ⟨child, hchild, hfolder, -⟩ := hinto
      rw [ih, hchildren] at hchild
      cases List.mem_singleton.mp hchild
      rw [hfile] at hfolder
      cases hfolder

theorem isTree_oneFile {listing : FolderListing} (h : listing.children ⟨1, 2⟩ = [⟨1, 8⟩]) :
    (oneFile listing).IsTree ⟨1, 2⟩ := by
  obtain ⟨file, hchildren, hfile, hfileUid⟩ := children_oneFile h
  constructor
  · -- The folder is the only one that is reached.
    intro uid child huid hchild
    cases reached_oneFile h huid
    have hchild' : child ∈ listing.children ⟨1, 2⟩ := hchild
    rw [h] at hchild'
    cases List.mem_singleton.mp hchild'
    exact readable_oneFile listing
  · constructor
    · intro uid huid
      cases reached_oneFile h huid
      rw [hchildren]
      exact List.nodup_singleton _
    · intro uid uid' x y huid huid' _ _ _
      rw [reached_oneFile h huid, reached_oneFile h huid']
    · rintro x ⟨uid, huid, hx⟩
      cases reached_oneFile h huid
      rw [hchildren] at hx
      cases List.mem_singleton.mp hx
      rw [hfileUid]
      decide
  · exact (Set.finite_singleton _).subset (fun uid huid => reached_oneFile h huid)

theorem keysRight_none (share : Share) : share.KeysRight (fun _ => none) := by
  intro uid key h
  cases h

/-- The page with the only child is the second one, after a page without links. The walk returns
without it. -/
theorem emptyPageFirst_walk :
    let share := oneFile emptyPageFirst
    share.IsTree ⟨1, 2⟩ ∧ ∃ actions w,
      share.walk.exec (.start share (fun _ => none) ⟨1, 2⟩) actions = some w ∧ w.Done ∧
        w.found = [] ∧ ¬ share.Complete ⟨1, 2⟩ w.found := by
  intro share
  refine ⟨isTree_oneFile rfl,
    [.listing .take, .listing (.run 0 .advance), .children], _, rfl, ⟨⟨rfl, rfl⟩, rfl⟩, rfl, ?_⟩
  intro hcomplete
  have hlisted : emptyPageFirst.children ⟨1, 2⟩ = [⟨1, 8⟩] := rfl
  obtain ⟨file, hchildren, -⟩ := children_oneFile hlisted
  have hbelow : file ∈ share.children ⟨1, 2⟩ := by
    rw [hchildren]
    exact List.mem_cons_self
  have hmem := (hcomplete.all file).mpr ⟨⟨1, 2⟩, .refl, hbelow⟩
  cases hmem

/-! ## A share with a folder in it

The shared folder has a folder 5 and a file 8, each on a page of its own, and folder 5 has a file 9. -/

def onePage (linkIds : List LinkId) : FolderListing where
  before := []
  last := ⟨linkIds, none, false⟩
  goesOn := by simp
  ends := rfl

def twoPages (first : List LinkId) (anchorId : LinkId) (linkIds : List LinkId) : FolderListing where
  before := [⟨first, some anchorId, true⟩]
  last := ⟨linkIds, none, false⟩
  goesOn := by simp [FolderChildrenResponse.following]
  ends := rfl

def nested : Share where
  rootUid := ⟨1, 2⟩
  shareKey := 10
  links uid :=
    if uid = ⟨1, 2⟩ then some (oneFile.entry 1 (KeyWalk.folder 2 none 10))
    else if uid = ⟨1, 5⟩ then some (oneFile.entry 1 (KeyWalk.folder 5 (some 2) 12))
    else if uid = ⟨1, 8⟩ then some (oneFile.entry 2 (KeyWalk.folder 8 (some 2) 12))
    else if uid = ⟨1, 9⟩ then some (oneFile.entry 2 (KeyWalk.folder 9 (some 5) 15))
    else none
  listing uid :=
    if uid = ⟨1, 2⟩ then twoPages [5] 5 [8]
    else if uid = ⟨1, 5⟩ then onePage [9]
    else onePage []
  parseAttributes _ := none

theorem readable_nested : nested.Readable ⟨1, 5⟩ ∧ nested.Readable ⟨1, 8⟩ ∧
    nested.Readable ⟨1, 9⟩ := by
  have hroot : nested.Readable ⟨1, 2⟩ :=
    .root rfl rfl rfl (Thumbnails.decryptLink_folder 2 none 10)
  have hdocs : nested.Readable ⟨1, 5⟩ :=
    .child rfl rfl (by decide) rfl rfl (Thumbnails.decryptLink_folder 5 (some 2) 12) hroot
  have hfile : nested.Readable ⟨1, 8⟩ :=
    .child rfl rfl (by decide) rfl rfl (Thumbnails.decryptLink_folder 8 (some 2) 12) hroot
  have hinner : nested.Readable ⟨1, 9⟩ :=
    .child rfl rfl (by decide) rfl rfl (Thumbnails.decryptLink_folder 9 (some 5) 15) hdocs
  exact ⟨hdocs, hfile, hinner⟩

theorem children_nested : ∃ docs file inner,
    nested.children ⟨1, 2⟩ = [docs, file] ∧ nested.children ⟨1, 5⟩ = [inner] ∧
      (docs.isFolder = true ∧ docs.uid = ⟨1, 5⟩) ∧ (file.isFolder = false ∧ file.uid = ⟨1, 8⟩) ∧
      inner.isFolder = false ∧ inner.uid = ⟨1, 9⟩ := by
  obtain ⟨docs, hdocs, hdocsUid, hfolder⟩ := @node_entry nested 1 1 5 (some 2) 12 rfl
  obtain ⟨file, hfile, hfileUid, hnot⟩ := @node_entry nested 1 2 8 (some 2) 12 rfl
  obtain ⟨inner, hinner, hinnerUid, hnot'⟩ := @node_entry nested 1 2 9 (some 5) 15 rfl
  refine ⟨docs, file, inner, ?_, ?_, ⟨hfolder, hdocsUid⟩, ⟨hnot, hfileUid⟩, hnot', hinnerUid⟩
  · show [(⟨1, 5⟩ : NodeUid), ⟨1, 8⟩].filterMap nested.node = _
    rw [List.filterMap_cons_some hdocs, List.filterMap_cons_some hfile]
    rfl
  · show [(⟨1, 9⟩ : NodeUid)].filterMap nested.node = _
    rw [List.filterMap_cons_some hinner]
    rfl

theorem reached_nested {uid : NodeUid} (huid : nested.Reached ⟨1, 2⟩ uid) :
    uid = ⟨1, 2⟩ ∨ uid = ⟨1, 5⟩ := by
  obtain ⟨docs, file, inner, hroot, hdocs, ⟨-, hdocsUid⟩, ⟨hfile, -⟩, hinner, -⟩ := children_nested
  induction huid with
  | refl => exact .inl rfl
  | tail _ hinto ih =>
      obtain ⟨child, hchild, hfolder, rfl⟩ := hinto
      rcases ih with rfl | rfl
      · rw [hroot, List.mem_pair] at hchild
        rcases hchild with rfl | rfl
        · exact .inr hdocsUid
        · rw [hfile] at hfolder
          cases hfolder
      · rw [hdocs, List.mem_singleton] at hchild
        cases hchild
        rw [hinner] at hfolder
        cases hfolder

theorem isTree_nested : nested.IsTree ⟨1, 2⟩ := by
  obtain ⟨hreadDocs, hreadFile, hreadInner⟩ := readable_nested
  obtain ⟨docs, file, inner, hroot, hdocs, ⟨-, hdocsUid⟩, ⟨-, hfileUid⟩, -, hinnerUid⟩ :=
    children_nested
  constructor
  · intro uid child huid hchild
    rcases reached_nested huid with rfl | rfl
    · have hpair : child ∈ [(⟨1, 5⟩ : NodeUid), ⟨1, 8⟩] := hchild
      rcases List.mem_pair.mp hpair with rfl | rfl
      · exact hreadDocs
      · exact hreadFile
    · have hone : child ∈ [(⟨1, 9⟩ : NodeUid)] := hchild
      cases List.mem_singleton.mp hone
      exact hreadInner
  · constructor
    · intro uid huid
      rcases reached_nested huid with rfl | rfl
      · rw [hroot, List.map_cons, List.map_cons, hdocsUid, hfileUid]
        decide
      · rw [hdocs]
        exact List.nodup_singleton _
    · intro uid uid' x y huid huid' hx hy hsame
      -- The uids below the two folders differ.
      have hdiffer : ∀ {x y}, x ∈ nested.children ⟨1, 2⟩ → y ∈ nested.children ⟨1, 5⟩ →
          x.uid ≠ y.uid := by
        intro x y hx hy
        rw [hroot, List.mem_pair] at hx
        rw [hdocs, List.mem_singleton] at hy
        rw [hy, hinnerUid]
        rcases hx with rfl | rfl
        · rw [hdocsUid]
          decide
        · rw [hfileUid]
          decide
      rcases reached_nested huid with rfl | rfl <;> rcases reached_nested huid' with rfl | rfl
      · rfl
      · exact absurd hsame (hdiffer hx hy)
      · exact absurd hsame.symm (hdiffer hy hx)
      · rfl
    · rintro x ⟨uid, huid, hx⟩
      rcases reached_nested huid with rfl | rfl
      · rw [hroot, List.mem_pair] at hx
        rcases hx with rfl | rfl
        · rw [hdocsUid]
          decide
        · rw [hfileUid]
          decide
      · rw [hdocs, List.mem_singleton] at hx
        rw [hx, hinnerUid]
        decide
  · exact (Set.toFinite {(⟨1, 2⟩ : NodeUid), ⟨1, 5⟩}).subset (fun uid huid => reached_nested huid)

/-- All listings are read to their end, and the walk finds the two files and the folder. -/
theorem subtree_walk_nested :
    ∃ actions w, nested.walk.exec (.start nested (fun _ => none) ⟨1, 2⟩) actions = some w ∧
      w.Done ∧ nested.Complete ⟨1, 2⟩ w.found ∧ w.Reported := by
  have hstart : nested.walk.exec (.start nested (fun _ => none) ⟨1, 2⟩) [] = some _ := rfl
  obtain ⟨⟨actions, w, hexec, hdone⟩, -⟩ :=
    subtree_walk isTree_nested (keysRight_none nested) hstart
  refine ⟨actions, w, hexec, hdone, ?_⟩
  apply ((subtree_walk isTree_nested (keysRight_none nested) hexec).2 hdone).mpr
  intro uid huid
  rw [← FolderListing.read_eq_children_iff uid]
  rcases reached_nested huid with rfl | rfl <;> rfl

end ProtonDrive.PublicLink
