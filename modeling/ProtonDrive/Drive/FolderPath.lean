import ProtonDrive.Drive.FolderTree
import ProtonDrive.Drive.Listings
import ProtonDrive.Drive.Requests

/-!
# Creating every folder of a path

`create_folder_path` goes down a path. It looks each segment up, creates the folder if it is not
there, and looks again if that failed, as another client may have been faster.

Other clients create nodes all the time here, before any request of this one is served. What happens
around each request is told by a `Turn`: it may fail, a page may be short or empty, nodes may be
left out because they cannot be read, and a folder may be created although the answer is an error.
Only what the server itself does is fixed: the tree takes no second child of a name, and a page has
the children that come after its anchor.

* `Shared` — the tree, the turns to come, and what this client has created.
* `createFolderPath_spec` — what any call leaves behind.
* `createFolderPath_answered` — a call along a path that is there already.
* `createFolderPath_mkdir` — the result.
-/

namespace ProtonDrive.FolderTree

open OpenPgp

/-! ## The server -/

/-- What happens around a request. -/
structure Turn where
  /-- What other clients create before the request is served. -/
  others : List NewNode
  /-- The request fails, and has no effect. -/
  failure : Option ProtonError
  /-- How many links a page has at most. -/
  size : Option Nat
  /-- A page says that more follow, though none do. -/
  saysMore : Bool
  /-- The nodes that cannot be read. -/
  hidden : List NodeUid
  /-- The id of a new folder, if it is free, and its place in listings. -/
  linkId : LinkId
  position : Nat
  /-- The folder is created, but what comes back is this error. -/
  lost : Option ProtonError
  /-- What the server says when it refuses a folder. -/
  refusal : ProtonError
  deriving DecidableEq, Repr

/-- Nobody else is there, and the request is answered in full. -/
def Turn.quiet : Turn where
  others := []
  failure := none
  size := none
  saysMore := false
  hidden := []
  linkId := 0
  position := 0
  lost := none
  refusal := .invalidOperation "refused"

/-- `created` has the folders that this client has created, with their names. -/
structure Shared where
  tree : Tree
  turns : List Turn
  created : List (NodeUid × Bytes)

/-- The others have their turn. -/
def Tree.createAll (t : Tree) (others : List NewNode) : Tree := others.foldl Tree.create t

/-- The next turn, after what the others do in it. -/
def Shared.next (s : Shared) : Turn × Shared :=
  match s.turns with
  | [] => (.quiet, s)
  | turn :: turns => (turn, { s with tree := s.tree.createAll turn.others, turns := turns })

/-- A request. -/
def serve {α : Type} (reply : Turn → Shared → Shared × Except ProtonError α) :
    Program Shared ProtonError α where
  run s :=
    match s.next.1.failure with
    | some e => some (s.next.2, .error e)
    | none => some (reply s.next.1 s.next.2)

def Tree.childrenOf (t : Tree) (folder : NodeUid) : List LinkId :=
  (t.nodes.filter (fun e => e.parent = some folder)).map (fun e => e.uid.linkId)

/-- What comes after an anchor. -/
def afterAnchor (ids : List LinkId) : Option LinkId → List LinkId
  | none => ids
  | some anchor => (ids.dropWhile (fun id => id != anchor)).drop 1

/-- A page of what is left. -/
def Turn.page (turn : Turn) (left : List LinkId) : FolderChildrenResponse :=
  let linkIds := match turn.size with
    | some size => left.take size
    | none => left
  { linkIds := linkIds
    anchorId := linkIds.getLast?
    moreResultsExist := linkIds.length < left.length || turn.saysMore }

/-- The request for a page of a listing. -/
def childrenPage (folderUid : NodeUid) (anchor : Option LinkId) :
    Program Shared ProtonError FolderChildrenResponse :=
  serve (fun turn s => (s, .ok (turn.page (afterAnchor (s.tree.childrenOf folderUid) anchor))))

/-- The nodes of a batch, those that are there and can be read. -/
def Tree.shown (t : Tree) (hidden : List NodeUid) (batch : VolumeId × List LinkId) : List Entry :=
  batch.2.filterMap (fun a =>
    t.nodes.find? (fun e => e.uid = ⟨batch.1, a⟩ && e.uid ∉ hidden))

/-- The requests for the nodes of a batch. -/
def batchNodes (batch : VolumeId × List LinkId) : Program Shared ProtonError (List Entry) :=
  serve (fun turn s => (s, .ok (s.tree.shown turn.hidden batch)))

/-- An id that is not in use, the wanted one if possible. -/
def Tree.freeLinkId (t : Tree) (wanted : LinkId) : LinkId :=
  if t.nodes.any (fun e => e.uid.linkId = wanted) then
    (t.nodes.map (fun e => e.uid.linkId)).foldl max 0 + 1
  else wanted

/-- The folder that a turn would have created. -/
def Turn.newFolder (turn : Turn) (t : Tree) (parentUid : NodeUid) (name : Bytes) : NewNode where
  parent := parentUid
  name := name
  linkId := t.freeLinkId turn.linkId
  isFolder := true
  position := turn.position

/-- The requests for the keys of the parent, and the one that creates the folder. -/
def postFolder (parentUid : NodeUid) (name : Bytes) : Program Shared ProtonError NodeUid :=
  serve (fun turn s =>
    let new := turn.newFolder s.tree parentUid name
    if h : s.tree.Accepts new then
      ({ s with tree := s.tree.insert new h, created := s.created ++ [(parentUid, name)] },
        match turn.lost with
        | some e => .error e
        | none => .ok new.entry.uid)
    else (s, .error turn.refusal))

/-! ## The client -/

/-- `fuel` is how many pages a listing may take. -/
def enumerateFolderChildrenNodeUids (fuel : Nat) (folderUid : NodeUid) :
    Program Shared ProtonError (List NodeUid) :=
  Paging.collect (childrenPage folderUid)
    (fun page => page.linkIds.map (fun linkId => ⟨folderUid.volumeId, linkId⟩))
    FolderChildrenResponse.next fuel none []

/-- It is the listing of a client whose requests this server answers. -/
theorem enumerateFolderChildrenNodeUids_eq
    {get : String → Program Shared ProtonError FolderChildrenResponse} {folderUid : NodeUid}
    (hget : ∀ anchor, get (childrenPath folderUid anchor) = childrenPage folderUid anchor)
    (fuel : Nat) :
    ProtonDrive.enumerateFolderChildrenNodeUids get fuel folderUid =
      enumerateFolderChildrenNodeUids fuel folderUid := by
  unfold ProtonDrive.enumerateFolderChildrenNodeUids listFolderChildren
    enumerateFolderChildrenNodeUids
  congr 1
  funext anchor
  exact hget anchor

def enumerateNodesLight (uids : List NodeUid) : Program Shared ProtonError (List Entry) := do
  let nodes ← Program.traverse batchNodes (Context.batches uids)
  return nodes.flatten

/-- The text of a name, which is valid UTF-8. -/
def nameText (name : Bytes) : String := (String.fromUTF8? ⟨name.toArray⟩).getD ""

def existsAsFile (name : Bytes) (uid : NodeUid) : ProtonError :=
  .invalidOperation ("Cannot create folder path: " ++ nameText name ++ " exists as a file (" ++
    uid.text ++ ")")

def findExistingFolder (fuel : Nat) (parentUid : NodeUid) (name : Bytes) :
    Program Shared ProtonError (Option NodeUid) := do
  let childUids ← enumerateFolderChildrenNodeUids fuel parentUid
  if childUids.isEmpty then return none
  else
    let children ← enumerateNodesLight childUids
    match children.find? (fun child => child.name == name) with
    | some child =>
        if child.isFolder then return some child.uid
        else .ofExcept (.error (existsAsFile name child.uid))
    | none => return none

def createFolder (parentUid : NodeUid) (name : Bytes) : Program Shared ProtonError NodeUid := do
  .ofExcept (Context.validateNodeName name)
  postFolder parentUid name

/-- The body of the loop: the folder of a segment. -/
def segmentFolder (fuel : Nat) (current : NodeUid) (segment : Bytes) :
    Program Shared ProtonError NodeUid := do
  match ← findExistingFolder fuel current segment with
  | some existing => return existing
  | none =>
      match ← (createFolder current segment).attempt with
      | .ok uid => return uid
      | .error err =>
          -- Another client may have been faster: its folder is taken.
          match ← findExistingFolder fuel current segment with
          | some existing => return existing
          | none => .ofExcept (.error err)

def createSegments (fuel : Nat) : NodeUid → List Bytes → Program Shared ProtonError NodeUid
  | current, [] => return current
  | current, segment :: rest => do
      let current ← segmentFolder fuel current segment
      createSegments fuel current rest

def createFolderPath (fuel : Nat) (rootUid : NodeUid) (path : Bytes) :
    Program Shared ProtonError NodeUid :=
  createSegments fuel rootUid (Context.pathSegments path)

/-! ## Reading -/

/-- Time has passed, and this client has only read. -/
structure Reads (s s' : Shared) : Prop where
  grows : s.tree.Grows s'.tree
  created : s'.created = s.created
  turns : s'.turns <:+ s.turns

instance : Std.Refl Reads := ⟨fun s => ⟨.refl s.tree, rfl, List.suffix_refl _⟩⟩

instance : Trans Reads Reads Reads where
  trans h h' := ⟨h.grows.trans h'.grows, h'.created.trans h.created, h'.turns.trans h.turns⟩

theorem Reads.rfl (s : Shared) : Reads s s := Std.Refl.refl s

/-- What others create only adds. -/
theorem grows_createAll (t : Tree) (others : List NewNode) : t.Grows (t.createAll others) := by
  induction others generalizing t with
  | nil => exact .refl t
  | cons new others ih => exact (grows_create t new).trans (ih (t.create new))

theorem next_reads (s : Shared) : Reads s s.next.2 := by
  unfold Shared.next
  cases hturns : s.turns with
  | nil => exact .rfl s
  | cons turn turns =>
      refine ⟨grows_createAll s.tree turn.others, rfl, ?_⟩
      rw [hturns]
      exact List.suffix_cons turn turns

section Serve

variable {α : Type} {reply : Turn → Shared → Shared × Except ProtonError α} {s s' : Shared}
  {r : Except ProtonError α}

/-- A request fails as the turn says, or is answered by the tree of its turn. -/
theorem serve_run (h : (serve reply).run s = some (s', r)) :
    (∃ e, s.next.1.failure = some e ∧ s' = s.next.2 ∧ r = .error e) ∨
      (s.next.1.failure = none ∧ reply s.next.1 s.next.2 = (s', r)) := by
  simp only [serve] at h
  split at h
  · next e hfailure =>
    cases h
    exact .inl ⟨e, hfailure, rfl, rfl⟩
  · next hfailure => exact .inr ⟨hfailure, Option.some.inj h⟩

/-- Every request is answered. -/
theorem serve_returns (reply : Turn → Shared → Shared × Except ProtonError α) (s : Shared) :
    ∃ s' r, (serve reply).run s = some (s', r) := by
  simp only [serve]
  split
  · exact ⟨_, _, rfl⟩
  · exact ⟨_, _, rfl⟩

/-- A request that changes nothing itself leaves what the others have done. -/
theorem serve_reads (hreply : ∀ turn s, (reply turn s).1 = s) :
    Program.Keeps Reads (serve reply) := by
  intro s s' r h
  rcases serve_run h with ⟨e, -, rfl, -⟩ | ⟨-, hsame⟩
  · exact next_reads s
  · have hstate := hreply s.next.1 s.next.2
    rw [hsame] at hstate
    obtain rfl : s' = s.next.2 := hstate
    exact next_reads s

end Serve

theorem childrenPage_reads (folder : NodeUid) (anchor : Option LinkId) :
    Program.Keeps Reads (childrenPage folder anchor) := serve_reads (fun _ _ => rfl)

theorem batchNodes_reads (batch : VolumeId × List LinkId) :
    Program.Keeps Reads (batchNodes batch) := serve_reads (fun _ _ => rfl)

/-- Listing a folder changes nothing. -/
theorem enumerateFolderChildrenNodeUids_reads (fuel : Nat) (folder : NodeUid) :
    Program.Keeps Reads (enumerateFolderChildrenNodeUids fuel folder) :=
  Paging.collect_keeps (childrenPage_reads folder) fuel none []

/-- Nor does reading its nodes. -/
theorem enumerateNodesLight_reads (uids : List NodeUid) :
    Program.Keeps Reads (enumerateNodesLight uids) :=
  .bind (.traverse batchNodes_reads _) (fun _ => .pure _)

/-- Nor does looking for a folder in it. -/
theorem findExistingFolder_reads (fuel : Nat) (parent : NodeUid) (name : Bytes) :
    Program.Keeps Reads (findExistingFolder fuel parent name) := by
  unfold findExistingFolder
  refine .bind (enumerateFolderChildrenNodeUids_reads fuel parent) ?_
  intro childUids
  split
  · exact .pure none
  · refine .bind (enumerateNodesLight_reads childUids) ?_
    intro children
    split
    · split
      · exact .pure _
      · exact .ofExcept _
    · exact .pure none

/-! ## What is read is there -/

/-- The children of a folder are the entries that name it as their parent. -/
theorem mem_childrenOf {t : Tree} {folder : NodeUid} {a : LinkId} :
    a ∈ t.childrenOf folder ↔
      ∃ e ∈ t.nodes, e.parent = some folder ∧ e.uid = ⟨folder.volumeId, a⟩ := by
  unfold Tree.childrenOf
  simp only [List.mem_map, List.mem_filter, decide_eq_true_eq]
  constructor
  · rintro ⟨e, ⟨he, hparent⟩, rfl⟩
    refine ⟨e, he, hparent, ?_⟩
    rw [t.volumes e he folder hparent]
  · rintro ⟨e, he, hparent, huid⟩
    exact ⟨e, ⟨he, hparent⟩, by rw [huid]⟩

/-- What is left after an anchor are some of the ids, in their order. -/
theorem afterAnchor_sublist (ids : List LinkId) (anchor : Option LinkId) :
    (afterAnchor ids anchor).Sublist ids := by
  cases anchor with
  | none => exact List.Sublist.refl _
  | some a => exact (List.drop_sublist 1 _).trans (List.dropWhile_sublist _)

theorem page_initial (turn : Turn) (left : List LinkId) :
    (turn.page left).linkIds <+: left := by
  unfold Turn.page
  cases turn.size with
  | none => exact List.prefix_refl left
  | some size => exact List.take_prefix size left

/-- A child of the folder, wherever else it may be later. -/
def Tree.Has (t : Tree) (folder uid : NodeUid) : Prop :=
  ∃ e ∈ t.nodes, e.parent = some folder ∧ e.uid = uid

/-- A folder keeps what it has. -/
theorem Tree.Has.grows {t t' : Tree} {folder uid : NodeUid} (h : t.Has folder uid)
    (hgrows : t.Grows t') : t'.Has folder uid := by
  obtain ⟨e, he, hparent, huid⟩ := h
  exact ⟨e, hgrows.subset he, hparent, huid⟩

/-- Every uid of a listing is one of a child. -/
theorem listed_has {fuel : Nat} {folder : NodeUid} {s s' : Shared} {uids : List NodeUid}
    (h : (enumerateFolderChildrenNodeUids fuel folder).run s = some (s', .ok uids)) :
    ∀ uid ∈ uids, s'.tree.Has folder uid := by
  obtain ⟨pages, hchain, rfl⟩ := Paging.chain_of_collect h
  rw [List.nil_append]
  have hpages : ∀ page ∈ pages, ∀ a ∈ page.linkIds, s'.tree.Has folder ⟨folder.volumeId, a⟩ := by
    clear h
    have hpage : ∀ {anchor : Option LinkId} {s t : Shared} {page : FolderChildrenResponse},
        (childrenPage folder anchor).run s = some (t, .ok page) →
        ∀ a ∈ page.linkIds, t.tree.Has folder ⟨folder.volumeId, a⟩ := by
      intro anchor s t page hrun a ha
      rcases serve_run hrun with ⟨e, -, -, herror⟩ | ⟨-, hsame⟩
      · cases herror
      · cases hsame
        have hmem := (afterAnchor_sublist _ _).subset ((page_initial _ _).subset ha)
        exact mem_childrenOf.mp hmem
    generalize (none : Option LinkId) = anchor at hchain
    -- A page shows what is there when it is answered, and nothing that is there goes away.
    induction hchain with
    | last hrun _ =>
        intro page hmem
        rw [List.mem_singleton.mp hmem]
        exact hpage hrun
    | more hrun _ hrest ih =>
        intro page hmem a ha
        rcases List.mem_cons.mp hmem with rfl | hmem
        · have hgrows := (Paging.Chain.keeps (childrenPage_reads folder) hrest).grows
          exact (hpage hrun a ha).grows hgrows
        · exact ih page hmem a ha
  intro uid hmem
  obtain ⟨page, hpage, huid⟩ := List.mem_flatMap.mp hmem
  obtain ⟨a, ha, rfl⟩ := List.mem_map.mp huid
  exact hpages page hpage a ha

/-- A batch shows the entries that it asks for and that are not hidden. -/
theorem mem_shown {t : Tree} {hidden : List NodeUid} {batch : VolumeId × List LinkId} {e : Entry} :
    e ∈ t.shown hidden batch ↔ e ∈ t.nodes ∧ e.uid ∉ hidden ∧
      e.uid.volumeId = batch.1 ∧ e.uid.linkId ∈ batch.2 := by
  unfold Tree.shown
  rw [List.mem_filterMap]
  constructor
  · rintro ⟨a, ha, hfind⟩
    have hmatch := List.find?_some hfind
    simp only [Bool.and_eq_true, decide_eq_true_eq] at hmatch
    obtain ⟨huid, hhidden⟩ := hmatch
    refine ⟨List.mem_of_find?_eq_some hfind, hhidden, ?_, ?_⟩
    · rw [huid]
    · rw [huid]
      exact ha
  · rintro ⟨he, hhidden, hvolume, hlink⟩
    have huid : e.uid = ⟨batch.1, e.uid.linkId⟩ := by rw [← hvolume]
    refine ⟨e.uid.linkId, hlink, ?_⟩
    -- There is one node of each uid, so the search finds this one.
    cases hfind : t.nodes.find? (fun e' => e'.uid = ⟨batch.1, e.uid.linkId⟩ && e'.uid ∉ hidden) with
    | none =>
        have hnone := List.find?_eq_none.mp hfind e he
        simp only [Bool.and_eq_true, decide_eq_true_eq, not_and] at hnone
        exact absurd hhidden (hnone huid)
    | some e' =>
        have hmatch := List.find?_some hfind
        simp only [Bool.and_eq_true, decide_eq_true_eq] at hmatch
        rw [t.eq_of_uid (List.mem_of_find?_eq_some hfind) he (hmatch.1.trans huid.symm)]

/-- Every node that a batch or several have shown is there, and was asked for. -/
theorem shown_there {bs : List (VolumeId × List LinkId)} {s s' : Shared} {lists : List (List Entry)}
    (h : (Program.traverse batchNodes bs).run s = some (s', .ok lists)) :
    ∀ e ∈ lists.flatten, e ∈ s'.tree.nodes ∧
      ∃ batch ∈ bs, e.uid.volumeId = batch.1 ∧ e.uid.linkId ∈ batch.2 := by
  induction bs generalizing s lists with
  | nil =>
      cases h
      intro e he
      cases he
  | cons batch bs ih =>
      obtain ⟨t, first, rest, hfirst, hrest, rfl⟩ := Program.traverse_cons_eq_ok.mp h
      intro e he
      rw [List.flatten_cons] at he
      rcases List.mem_append.mp he with he | he
      · rcases serve_run hfirst with ⟨_, -, -, herror⟩ | ⟨-, hsame⟩
        · cases herror
        · -- The batch that shows the entry is answered now, and the entry stays.
          cases hsame
          obtain ⟨hmem, -, hvolume, hlink⟩ := mem_shown.mp he
          have hgrows := (Program.Keeps.traverse batchNodes_reads bs _ _ _ hrest).grows
          exact ⟨hgrows.subset hmem, batch, List.mem_cons_self, hvolume, hlink⟩
      · obtain ⟨hmem, other, hother, hwhere⟩ := ih hrest e he
        exact ⟨hmem, other, List.mem_cons_of_mem _ hother, hwhere⟩

/-- The nodes that are returned are in the tree, and were asked for. -/
theorem enumerated_there {uids : List NodeUid} {s s' : Shared} {children : List Entry}
    (h : (enumerateNodesLight uids).run s = some (s', .ok children)) :
    ∀ e ∈ children, e ∈ s'.tree.nodes ∧ e.uid ∈ uids := by
  obtain ⟨t, lists, hlists, hlast⟩ := Program.bind_eq_ok.mp h
  cases hlast
  intro e he
  obtain ⟨hmem, hbatch⟩ := shown_there hlists e he
  exact ⟨hmem, Context.mem_batches.mpr hbatch⟩

/-- A node that a lookup comes to is the child with the name. -/
theorem child_of_find {fuel : Nat} {parent : NodeUid} {name : Bytes} {s t t' : Shared}
    {childUids : List NodeUid} {children : List Entry} {child : Entry}
    (hlisting : (enumerateFolderChildrenNodeUids fuel parent).run s = some (t, .ok childUids))
    (hchildren : (enumerateNodesLight childUids).run t = some (t', .ok children))
    (hfind : children.find? (fun child => child.name == name) = some child) :
    t'.tree.Child parent name child := by
  obtain ⟨hmem, huid⟩ := enumerated_there hchildren child (List.mem_of_find?_eq_some hfind)
  have hgrows := (enumerateNodesLight_reads childUids _ _ _ hchildren).grows
  -- The listing says that some node with this uid is a child, and there is only one.
  obtain ⟨e, he, hparent, hsame⟩ := (listed_has hlisting child.uid huid).grows hgrows
  rw [Tree.eq_of_uid he hmem hsame] at hparent
  exact ⟨hmem, hparent, by simpa using List.find?_some hfind⟩

/-- **A folder that is found** is there, with the name that was looked for. -/
theorem found_child {fuel : Nat} {parent uid : NodeUid} {name : Bytes} {s s' : Shared}
    (h : (findExistingFolder fuel parent name).run s = some (s', .ok (some uid))) :
    ∃ e, s'.tree.Child parent name e ∧ e.isFolder = true ∧ e.uid = uid := by
  obtain ⟨t, childUids, hlisting, hrest⟩ := Program.bind_eq_ok.mp h
  split at hrest
  · cases hrest
  · obtain ⟨t', children, hchildren, hlast⟩ := Program.bind_eq_ok.mp hrest
    split at hlast
    · next child hfind =>
      split at hlast
      · next hfolder =>
        cases hlast
        exact ⟨child, child_of_find hlisting hchildren hfind, hfolder, rfl⟩
      · cases hlast
    · cases hlast

/-! ## Writing -/

/-- What this client has created below a folder: nothing, or a folder with a name that no child
had. -/
def Wrote (s s' : Shared) (parent : NodeUid) (name : Bytes) : Prop :=
  s'.created = s.created ∨
    s'.created = s.created ++ [(parent, name)] ∧ (∀ e, ¬ s.tree.Child parent name e) ∧
      ∃ e, s'.tree.Child parent name e ∧ e.isFolder = true

/-- What the request for the folder of a segment leaves behind. -/
structure SegmentDone (s s' : Shared) (parent : NodeUid) (name : Bytes)
    (r : Except ProtonError NodeUid) : Prop where
  grows : s.tree.Grows s'.tree
  turns : s'.turns <:+ s.turns
  wrote : Wrote s s' parent name
  found : ∀ uid, r = .ok uid → ∃ e, s'.tree.Child parent name e ∧ e.isFolder = true ∧ e.uid = uid

section Writing

variable {s t s' : Shared} {parent : NodeUid} {name : Bytes} {r : Except ProtonError NodeUid}

/-- Nothing is created by reading, before or after. -/
theorem Wrote.after (h : Wrote s t parent name) (hreads : Reads t s') : Wrote s s' parent name := by
  rcases h with h | ⟨h, hnew, e, hchild, hfolder⟩
  · exact .inl (hreads.created.trans h)
  · exact .inr ⟨hreads.created.trans h, hnew, e, hchild.grows hreads.grows, hfolder⟩

/-- What has been written since a later state has been written since an earlier one. -/
theorem Wrote.before (h : Wrote t s' parent name) (hreads : Reads s t) :
    Wrote s s' parent name := by
  unfold Wrote at h
  rw [hreads.created] at h
  rcases h with h | ⟨h, hnew, hchild⟩
  · exact .inl h
  · exact .inr ⟨h, fun e he => hnew e (he.grows hreads.grows), hchild⟩

/-- And so is a segment that was done. -/
theorem SegmentDone.before (h : SegmentDone t s' parent name r) (hreads : Reads s t) :
    SegmentDone s s' parent name r where
  grows := hreads.grows.trans h.grows
  turns := h.turns.trans hreads.turns
  wrote := h.wrote.before hreads
  found := h.found

/-- After the request, the client only reads. -/
theorem SegmentDone.after {r' : Except ProtonError NodeUid} (h : SegmentDone s t parent name r')
    (hreads : Reads t s') (hfound : ∀ uid, r = .ok uid →
      ∃ e, s'.tree.Child parent name e ∧ e.isFolder = true ∧ e.uid = uid) :
    SegmentDone s s' parent name r where
  grows := h.grows.trans hreads.grows
  turns := hreads.turns.trans h.turns
  wrote := h.wrote.after hreads
  found := hfound

/-- A call that only reads has created nothing. -/
theorem Reads.segmentDone (h : Reads s s') (hfound : ∀ uid, r = .ok uid →
    ∃ e, s'.tree.Child parent name e ∧ e.isFolder = true ∧ e.uid = uid) :
    SegmentDone s s' parent name r where
  grows := h.grows
  turns := h.turns
  wrote := .inl h.created
  found := hfound

/-- A segment that fails before it wrote anything. -/
theorem Reads.failed {e : ProtonError} (h : Reads s s') :
    SegmentDone s s' parent name (.error e) := by
  apply h.segmentDone
  intro uid hnever
  cases hnever

/-- A segment that fails later has written what it had. -/
theorem SegmentDone.failed {r' : Except ProtonError NodeUid} {e : ProtonError}
    (h : SegmentDone s t parent name r') (hreads : Reads t s') :
    SegmentDone s s' parent name (.error e) := by
  apply h.after hreads
  intro uid hnever
  cases hnever

/-- The request that creates the folder makes one, or fails. -/
theorem postFolder_done (h : (postFolder parent name).run s = some (s', r)) :
    SegmentDone s s' parent name r := by
  have hreads := next_reads s
  rcases serve_run h with ⟨e, -, rfl, rfl⟩ | ⟨-, hsame⟩
  · exact hreads.failed
  · dsimp only at hsame
    -- The server makes the folder only where no child has the name.
    split at hsame
    · next haccepts =>
      cases hsame
      have hchild := child_insert haccepts
      refine SegmentDone.before ⟨grows_insert _ _ haccepts, List.suffix_refl _, ?_, ?_⟩ hreads
      · refine .inr ⟨rfl, ?_, _, hchild, rfl⟩
        intro e he
        exact haccepts.2.2 e he.mem he.parent_eq he.name_eq
      · intro uid huid
        refine ⟨_, hchild, rfl, ?_⟩
        split at huid
        · cases huid
        · cases huid
          rfl
    · cases hsame
      exact hreads.failed

/-- So does the call around it. -/
theorem createFolder_done (h : (createFolder parent name).run s = some (s', r)) :
    SegmentDone s s' parent name r := by
  rcases Program.bind_eq_some.mp h with ⟨e, herror, rfl⟩ | ⟨t, _, hname, hpost⟩
  · obtain ⟨rfl, -⟩ := Program.ofExcept_eq_some.mp herror
    exact (Reads.rfl _).failed
  · obtain ⟨rfl, -⟩ := Program.ofExcept_eq_some.mp hname
    exact postFolder_done hpost

/-- **One segment**: lookup, create and second lookup together create its folder at most once, and
not if there is one; and what they return is that folder. -/
theorem segmentFolder_done {fuel : Nat}
    (h : (segmentFolder fuel parent name).run s = some (s', r)) :
    SegmentDone s s' parent name r := by
  rcases Program.bind_eq_some.mp h with ⟨e, herror, rfl⟩ | ⟨t, found, hfind, hrest⟩
  · exact (findExistingFolder_reads _ _ _ _ _ _ herror).failed
  · have hreads := findExistingFolder_reads _ _ _ _ _ _ hfind
    cases found with
    | some existing =>
        cases hrest
        apply hreads.segmentDone
        intro uid huid
        cases huid
        exact found_child hfind
    | none =>
        apply SegmentDone.before _ hreads
        obtain ⟨t', created, hcreate, hlast⟩ : ∃ t' created,
            (createFolder parent name).run t = some (t', created) ∧
            (match created with
              | .ok uid => (pure uid : Program Shared ProtonError NodeUid)
              | .error err => do
                  match ← findExistingFolder fuel parent name with
                  | some existing => return existing
                  | none => .ofExcept (.error err)).run t' = some (s', r) := by
          rcases Program.bind_eq_some.mp hrest with ⟨e, herror, -⟩ | ⟨t', created, hcreate, hlast⟩
          · obtain ⟨_, _, hnever⟩ := Option.map_eq_some_iff.mp herror
            cases hnever
          · exact ⟨t', created, Program.attempt_run.mp hcreate, hlast⟩
        have hdone := createFolder_done hcreate
        cases created with
        | ok uid =>
            cases hlast
            exact hdone
        | error err =>
            -- The second lookup adopts what is there now.
            rcases Program.bind_eq_some.mp hlast with ⟨e, herror, rfl⟩ | ⟨u, again, hfind', hend⟩
            · exact hdone.failed (findExistingFolder_reads _ _ _ _ _ _ herror)
            · have hreads' := findExistingFolder_reads _ _ _ _ _ _ hfind'
              cases again with
              | some existing =>
                  cases hend
                  apply hdone.after hreads'
                  intro uid huid
                  cases huid
                  exact found_child hfind'
              | none =>
                  cases hend
                  exact hdone.failed hreads'

end Writing

/-! ## Along the path -/

/-- What a call along a path leaves behind. -/
structure PathDone (s s' : Shared) (root : NodeUid) (names : List Bytes)
    (r : Except ProtonError NodeUid) : Prop where
  grows : s.tree.Grows s'.tree
  created : ∃ log, s'.created = s.created ++ log ∧ Fills s.tree s'.tree root names log
  leads : ∀ uid, r = .ok uid → Leads s'.tree root names uid

/-- Segment by segment: each is found or made, until one fails. -/
theorem createSegments_done {fuel : Nat} {names : List Bytes} {root : NodeUid} {s s' : Shared}
    {r : Except ProtonError NodeUid}
    (h : (createSegments fuel root names).run s = some (s', r)) : PathDone s s' root names r := by
  induction names generalizing root s with
  | nil =>
      cases h
      refine ⟨.refl _, ⟨[], (List.append_nil _).symm, .nil _ _ _ _⟩, ?_⟩
      intro uid huid
      cases huid
      exact .here
  | cons name names ih =>
      rcases Program.bind_eq_some.mp h with ⟨e, herror, rfl⟩ | ⟨t, current, hsegment, hrest⟩
      · -- The segment failed, perhaps after the folder was made.
        have hdone := segmentFolder_done herror
        refine ⟨hdone.grows, ?_, ?_⟩
        · rcases hdone.wrote with hsame | ⟨hmade, hnew, e', hchild, hfolder⟩
          · exact ⟨[], by rw [hsame, List.append_nil], .nil _ _ _ _⟩
          · refine ⟨[(root, name)], hmade, ?_⟩
            exact (Fills.nil _ _ _ _).made hdone.grows hchild hfolder hnew
        · intro uid hnever
          cases hnever
      · -- The rest of the path goes on from the folder that was found or made.
        have hdone := segmentFolder_done hsegment
        obtain ⟨hgrows, ⟨log, hlog, hfills⟩, hleads⟩ := ih hrest
        obtain ⟨e, hchild, hfolder, rfl⟩ := hdone.found current rfl
        have hchild' := hchild.grows hgrows
        have hgrows' := hdone.grows.trans hgrows
        refine ⟨hgrows', ?_, fun uid huid => .down hchild' hfolder (hleads uid huid)⟩
        rcases hdone.wrote with hsame | ⟨hmade, hnew, -⟩
        · exact ⟨log, by rw [hlog, hsame],
            (hfills.earlier hdone.grows).found hgrows' hchild' hfolder⟩
        · exact ⟨(root, name) :: log, by rw [hlog, hmade, List.append_assoc]; rfl,
            (hfills.earlier hdone.grows).made hgrows' hchild' hfolder hnew⟩

/-- **Any call**, whatever the others do and whatever goes wrong: the nodes that were there are as
they were, a folder has been created for each of some missing segments at most, and the uid that is
returned is where the path leads. -/
theorem createFolderPath_spec {fuel : Nat} {root : NodeUid} {path : Bytes} {s s' : Shared}
    {r : Except ProtonError NodeUid}
    (h : (createFolderPath fuel root path).run s = some (s', r)) :
    PathDone s s' root (Context.pathSegments path) r := createSegments_done h

/-! ## Every call returns -/

theorem quiet_page (left : List LinkId) : (Turn.quiet.page left).next = none := by
  unfold FolderChildrenResponse.next
  split
  · rfl
  · rw [if_pos (by simp [Turn.page, Turn.quiet])]

/-- A turn is over after a request, if there was one. -/
theorem next_turns (s : Shared) : s.next.2.turns = s.turns.tail := by
  unfold Shared.next
  cases hturns : s.turns with
  | nil => exact hturns
  | cons turn turns => rfl

/-- The loop ends, since every turn of the others ends it once they are quiet. -/
theorem enumerateFolderChildrenNodeUids_returns {fuel : Nat} {folder : NodeUid}
    (anchor : Option LinkId) (found : List NodeUid) {s : Shared} (hfuel : s.turns.length < fuel) :
    ∃ s' r, (Paging.collect (childrenPage folder)
      (fun page => page.linkIds.map (fun linkId => (⟨folder.volumeId, linkId⟩ : NodeUid)))
      FolderChildrenResponse.next fuel anchor found).run s = some (s', r) := by
  induction fuel generalizing anchor found s with
  | zero => cases hfuel
  | succ fuel ih =>
      unfold Paging.collect
      obtain ⟨t, r, hpage⟩ : ∃ t r, (childrenPage folder anchor).run s = some (t, r) :=
        serve_returns _ s
      cases r with
      | error e => exact ⟨_, _, Program.bind_error hpage⟩
      | ok page =>
          rw [Program.bind_ok hpage]
          cases hnext : page.next with
          | none => exact ⟨_, _, rfl⟩
          | some anchor' =>
              apply ih
              rcases serve_run hpage with ⟨_, -, -, herror⟩ | ⟨-, hsame⟩
              · cases herror
              · cases hsame
                rw [next_turns]
                -- The others' turns are used up, and without them a page is the last one.
                cases hturns : s.turns with
                | nil =>
                    have hquiet : s.next.1 = Turn.quiet := by simp [Shared.next, hturns]
                    rw [hquiet, quiet_page] at hnext
                    cases hnext
                | cons turn turns =>
                    rw [hturns] at hfuel
                    exact Nat.lt_of_succ_lt_succ hfuel

section Returns

variable {fuel : Nat} {s : Shared}

theorem enumerateNodesLight_returns (uids : List NodeUid) (s : Shared) :
    ∃ s' r, (enumerateNodesLight uids).run s = some (s', r) := by
  have htraverse : ∀ bs s, ∃ s' r, (Program.traverse batchNodes bs).run s = some (s', r) := by
    intro bs
    induction bs with
    | nil => exact fun s => ⟨s, _, rfl⟩
    | cons batch bs ih =>
        intro s
        exact Program.bind_returns (serve_returns _ s)
          (fun t b _ => Program.bind_returns (ih t) (fun t' bs' _ => ⟨t', _, rfl⟩))
  exact Program.bind_returns (htraverse _ s) (fun t lists _ => ⟨t, _, rfl⟩)

/-- Looking for a folder ends. -/
theorem findExistingFolder_returns (parent : NodeUid) (name : Bytes)
    (hfuel : s.turns.length < fuel) :
    ∃ s' r, (findExistingFolder fuel parent name).run s = some (s', r) := by
  refine Program.bind_returns (enumerateFolderChildrenNodeUids_returns none [] hfuel) ?_
  intro t childUids _
  split
  · exact ⟨_, _, rfl⟩
  · refine Program.bind_returns (enumerateNodesLight_returns childUids t) ?_
    intro t' children _
    split
    · split
      · exact ⟨_, _, rfl⟩
      · exact ⟨_, _, rfl⟩
    · exact ⟨_, _, rfl⟩

theorem createFolder_returns (parent : NodeUid) (name : Bytes) (s : Shared) :
    ∃ s' r, (createFolder parent name).run s = some (s', r) :=
  Program.bind_returns ⟨_, _, rfl⟩ (fun t _ _ => serve_returns _ t)

/-- One segment ends. -/
theorem segmentFolder_returns (parent : NodeUid) (name : Bytes) (hfuel : s.turns.length < fuel) :
    ∃ s' r, (segmentFolder fuel parent name).run s = some (s', r) := by
  refine Program.bind_returns (findExistingFolder_returns parent name hfuel) ?_
  intro t found hfind
  have hturns := (findExistingFolder_reads _ _ _ _ _ _ hfind).turns.length_le
  cases found with
  | some existing => exact ⟨_, _, rfl⟩
  | none =>
      obtain ⟨t', created, hcreate⟩ := createFolder_returns parent name t
      show ∃ s' r, ((createFolder parent name).attempt >>= _).run t = some (s', r)
      -- A create that fails is followed by one more look, which returns as well.
      rw [Program.bind_ok (Program.attempt_run.mpr hcreate)]
      cases created with
      | ok uid => exact ⟨_, _, rfl⟩
      | error err =>
          have hturns' := (createFolder_done hcreate).turns.length_le
          refine Program.bind_returns (findExistingFolder_returns parent name (by omega)) ?_
          intro u again _
          cases again with
          | some existing => exact ⟨_, _, rfl⟩
          | none => exact ⟨_, _, rfl⟩

/-- And so do all of them. -/
theorem createSegments_returns (names : List Bytes) (root : NodeUid)
    (hfuel : s.turns.length < fuel) :
    ∃ s' r, (createSegments fuel root names).run s = some (s', r) := by
  induction names generalizing root s with
  | nil => exact ⟨_, _, rfl⟩
  | cons name names ih =>
      refine Program.bind_returns (segmentFolder_returns root name hfuel) ?_
      intro t current hsegment
      have hturns := (segmentFolder_done hsegment).turns.length_le
      exact ih current (by omega)

end Returns

/-! ## A call whose requests are answered -/

/-- A request that is answered: it does not fail, its page has room for a link, and the nodes of
`shown` can be read. -/
structure Turn.Answered (turn : Turn) (shown : NodeUid → Prop) : Prop where
  failure : turn.failure = none
  size : turn.size ≠ some 0
  hidden : ∀ uid ∈ turn.hidden, ¬ shown uid

/-- Every request to come is answered, whatever others do meanwhile. -/
def Shared.Answered (s : Shared) (shown : NodeUid → Prop) : Prop :=
  ∀ turn ∈ s.turns, turn.Answered shown

theorem quiet_answered (shown : NodeUid → Prop) : Turn.quiet.Answered shown where
  failure := rfl
  size := nofun
  hidden := nofun

section Answered

variable {shown : NodeUid → Prop} {s s' : Shared}

/-- With nobody else there, every request is answered. -/
theorem Shared.answered_of_quiet (hturns : s.turns = []) : s.Answered shown := by
  intro turn hturn
  rw [hturns] at hturn
  cases hturn

/-- Fewer turns are answered if all of them are. -/
theorem Shared.Answered.later (h : s.Answered shown) (hturns : s'.turns <:+ s.turns) :
    s'.Answered shown := fun turn hturn => h turn (hturns.subset hturn)

theorem Shared.Answered.next (h : s.Answered shown) : s.next.1.Answered shown := by
  unfold Shared.next
  cases hturns : s.turns with
  | nil => exact quiet_answered shown
  | cons turn turns =>
      apply h
      rw [hturns]
      exact List.mem_cons_self

/-- A request of an answered turn succeeds. -/
theorem serve_succeeds {α : Type} {reply : Turn → Shared → Shared × Except ProtonError α}
    (hreply : ∀ turn s, ∃ a, reply turn s = (s, .ok a)) :
    Program.Succeeds (fun s => s.Answered shown) (serve reply) := by
  intro s s' r hs h
  obtain ⟨a, ha⟩ := hreply s.next.1 s.next.2
  rcases serve_run h with ⟨e, hfailure, -⟩ | ⟨-, hsame⟩
  · rw [hs.next.failure] at hfailure
    cases hfailure
  · rw [ha] at hsame
    cases hsame
    exact ⟨hs.later (next_reads s).turns, a, rfl⟩

theorem enumerateFolderChildrenNodeUids_succeeds (fuel : Nat) (folder : NodeUid) :
    Program.Succeeds (fun s => s.Answered shown) (enumerateFolderChildrenNodeUids fuel folder) :=
  Paging.collect_succeeds (fun _ => serve_succeeds (fun _ _ => ⟨_, rfl⟩)) fuel none []

theorem enumerateNodesLight_succeeds (uids : List NodeUid) :
    Program.Succeeds (fun s => s.Answered shown) (enumerateNodesLight uids) :=
  .bind (.traverse (fun _ => serve_succeeds (fun _ _ => ⟨_, rfl⟩)) _) (fun _ => .pure _)

end Answered

/-! ## Nothing is left out -/

/-- What comes after an anchor are the ids behind it. -/
theorem mem_afterAnchor {ids : List LinkId} {a b : LinkId} :
    b ∈ afterAnchor ids (some a) ↔ [a, b].Sublist ids := by
  show b ∈ (ids.dropWhile (fun id => id != a)).drop 1 ↔ _
  induction ids with
  | nil => simp
  | cons x ids ih =>
      by_cases hx : x = a
      · subst hx
        rw [List.dropWhile_cons_of_neg (by simp), List.drop_one, List.tail_cons,
          List.cons_sublist_cons, List.singleton_sublist]
      · rw [List.dropWhile_cons_of_pos (by simpa using hx), ih]
        constructor
        · exact List.Sublist.cons x
        · intro h
          cases h with
          | cons _ h => exact h
          | cons_cons _ h => exact absurd rfl hx

/-- More children before or after the anchor, or between, hide none. -/
theorem afterAnchor_grows {ids ids' : List LinkId} (h : ids.Sublist ids') {anchor : Option LinkId}
    {b : LinkId} (hb : b ∈ afterAnchor ids anchor) : b ∈ afterAnchor ids' anchor := by
  cases anchor with
  | none => exact h.subset hb
  | some a => exact mem_afterAnchor.mpr ((mem_afterAnchor.mp hb).trans h)

/-- The children of a folder stay in their order. -/
theorem childrenOf_grows {t t' : Tree} (h : t.Grows t') (folder : NodeUid) :
    (t.childrenOf folder).Sublist (t'.childrenOf folder) := (List.Sublist.filter _ h).map _

section Page

variable {turn : Turn} {left : List LinkId} {a b : LinkId}

/-- A page without links is the answer of a server that has none left. -/
theorem page_empty (hsize : turn.size ≠ some 0) (hempty : (turn.page left).linkIds = []) :
    left = [] := by
  unfold Turn.page at hempty
  cases hturn : turn.size with
  | none =>
      rw [hturn] at hempty
      exact hempty
  | some size =>
      rw [hturn] at hempty
      rcases List.take_eq_nil_iff.mp hempty with rfl | hnil
      · exact absurd hturn hsize
      · exact hnil

/-- What is left and not on the page comes after its last link. -/
theorem page_more (hnext : (turn.page left).next = some a) (hb : b ∈ left) :
    b ∈ (turn.page left).linkIds ∨ [a, b].Sublist left := by
  have hlast : (turn.page left).linkIds.getLast? = some a := by
    unfold FolderChildrenResponse.next at hnext
    split at hnext
    · cases hnext
    · split at hnext
      · cases hnext
      · exact hnext
  obtain ⟨rest, hrest⟩ := page_initial turn left
  rw [← hrest, List.mem_append] at hb
  rcases hb with hb | hb
  · exact .inl hb
  · right
    rw [← hrest]
    exact (List.singleton_sublist.mpr (List.mem_of_getLast? hlast)).append
      (List.singleton_sublist.mpr hb)

/-- The last page has all that is left. -/
theorem page_last (hsize : turn.size ≠ some 0) (hnext : (turn.page left).next = none)
    (hb : b ∈ left) : b ∈ (turn.page left).linkIds := by
  by_cases hempty : (turn.page left).linkIds = []
  · rw [page_empty hsize hempty] at hb
    cases hb
  · unfold FolderChildrenResponse.next at hnext
    rw [if_neg (by simpa using hempty)] at hnext
    split at hnext
    · next hmore =>
      have hlength : left.length ≤ (turn.page left).linkIds.length := by
        have hnone : (turn.page left).moreResultsExist = false := by simpa using hmore
        simp only [Turn.page, Bool.or_eq_false_iff, decide_eq_false_iff_not, Nat.not_lt] at hnone
        exact hnone.1
      rw [(page_initial turn left).eq_of_length_le hlength]
      exact hb
    · have hnone : (turn.page left).linkIds.getLast? = none := hnext
      exact absurd (List.getLast?_eq_none_iff.mp hnone) hempty

end Page

section Answered

variable {shown : NodeUid → Prop} {fuel : Nat} {s s' : Shared}

/-- **A listing is complete**: it has every child that was there when it began, while others are
created around its pages. -/
theorem listed_complete {folder : NodeUid} {uids : List NodeUid} (hanswered : s.Answered shown)
    (h : (enumerateFolderChildrenNodeUids fuel folder).run s = some (s', .ok uids))
    {a : LinkId} (ha : a ∈ s.tree.childrenOf folder) : ⟨folder.volumeId, a⟩ ∈ uids := by
  obtain ⟨pages, hchain, rfl⟩ := Paging.chain_of_collect h
  rw [List.nil_append]
  have hpage : ∃ page ∈ pages, a ∈ page.linkIds := by
    clear h
    replace ha : a ∈ afterAnchor (s.tree.childrenOf folder) none := ha
    -- The child lies after the cursor of each page until the page that shows it.
    generalize (none : Option LinkId) = anchor at hchain ha
    induction hchain with
    | @last anchor s t page hrun hnext =>
        rcases serve_run hrun with ⟨_, -, -, herror⟩ | ⟨-, hsame⟩
        · cases herror
        · cases hsame
          have hleft := afterAnchor_grows (childrenOf_grows (next_reads s).grows folder) ha
          exact ⟨_, List.mem_singleton_self _, page_last hanswered.next.size hnext hleft⟩
    | @more anchor s t u page anchor' pages hrun hnext hrest ih =>
        rcases serve_run hrun with ⟨_, -, -, herror⟩ | ⟨-, hsame⟩
        · cases herror
        · cases hsame
          have hleft := afterAnchor_grows (childrenOf_grows (next_reads s).grows folder) ha
          -- The page shows the child, or the child lies after its cursor.
          rcases page_more hnext hleft with hhere | hafter
          · exact ⟨_, List.mem_cons_self, hhere⟩
          · have hlater := hafter.trans (afterAnchor_sublist _ _)
            obtain ⟨page, hmem, hhere⟩ := ih (hanswered.later (next_reads s).turns)
              (mem_afterAnchor.mpr hlater)
            exact ⟨page, List.mem_cons_of_mem _ hmem, hhere⟩
  obtain ⟨page, hmem, hhere⟩ := hpage
  exact List.mem_flatMap.mpr ⟨page, hmem, List.mem_map.mpr ⟨a, hhere, rfl⟩⟩

/-- Every node that can be read is shown, if it was asked for. -/
theorem shown_complete {bs : List (VolumeId × List LinkId)} {lists : List (List Entry)}
    (hanswered : s.Answered shown)
    (h : (Program.traverse batchNodes bs).run s = some (s', .ok lists)) {e : Entry}
    (he : e ∈ s.tree.nodes) (hshown : shown e.uid)
    (hbatch : ∃ batch ∈ bs, e.uid.volumeId = batch.1 ∧ e.uid.linkId ∈ batch.2) :
    e ∈ lists.flatten := by
  induction bs generalizing s lists with
  | nil =>
      obtain ⟨batch, hmem, -⟩ := hbatch
      cases hmem
  | cons first bs ih =>
      obtain ⟨t, nodes, rest, hfirst, hrest, rfl⟩ := Program.traverse_cons_eq_ok.mp h
      have hreads := batchNodes_reads first _ _ _ hfirst
      rw [List.flatten_cons, List.mem_append]
      obtain ⟨batch, hmem, hwhere⟩ := hbatch
      -- The batch of the entry shows it, unless the server hides it.
      rcases List.mem_cons.mp hmem with rfl | hmem
      · left
        rcases serve_run hfirst with ⟨_, -, -, herror⟩ | ⟨-, hsame⟩
        · cases herror
        · cases hsame
          have hvisible : e.uid ∉ s.next.1.hidden :=
            fun hhidden => hanswered.next.hidden e.uid hhidden hshown
          exact mem_shown.mpr ⟨hreads.grows.subset he, hvisible, hwhere⟩
      · right
        exact ih (hanswered.later hreads.turns) hrest (hreads.grows.subset he)
          ⟨batch, hmem, hwhere⟩

/-- **A folder that is there is found.** -/
theorem findExistingFolder_answered {parent : NodeUid} {name : Bytes} {e : Entry}
    (hfuel : s.turns.length < fuel) (hanswered : s.Answered shown)
    (hchild : s.tree.Child parent name e) (hfolder : e.isFolder = true) (hshown : shown e.uid) :
    ∃ s', (findExistingFolder fuel parent name).run s = some (s', .ok (some e.uid)) := by
  obtain ⟨t, r, hlisting⟩ : ∃ t r,
      (enumerateFolderChildrenNodeUids fuel parent).run s = some (t, r) :=
    enumerateFolderChildrenNodeUids_returns none [] hfuel
  obtain ⟨ht, uids, rfl⟩ :=
    enumerateFolderChildrenNodeUids_succeeds fuel parent _ _ _ hanswered hlisting
  have hgrows := (enumerateFolderChildrenNodeUids_reads fuel parent _ _ _ hlisting).grows
  have huid : e.uid = ⟨parent.volumeId, e.uid.linkId⟩ := by
    rw [s.tree.volumes e hchild.mem parent hchild.parent_eq]
  have hlisted : e.uid ∈ uids := by
    rw [huid]
    apply listed_complete hanswered hlisting
    exact mem_childrenOf.mpr ⟨e, hchild.mem, hchild.parent_eq, huid⟩
  obtain ⟨t', r, hnodes⟩ := enumerateNodesLight_returns uids t
  obtain ⟨-, children, rfl⟩ := enumerateNodesLight_succeeds uids _ _ _ ht hnodes
  have hgrows' := (enumerateNodesLight_reads uids _ _ _ hnodes).grows
  -- The folder is among the children that are read.
  have hmem : e ∈ children := by
    obtain ⟨u, lists, hlists, hlast⟩ := Program.bind_eq_ok.mp hnodes
    cases hlast
    exact shown_complete ht hlists (hgrows.subset hchild.mem) hshown
      (Context.mem_batches.mp hlisted)
  refine ⟨t', ?_⟩
  unfold findExistingFolder
  rw [Program.bind_ok hlisting, if_neg (by simpa using List.ne_nil_of_mem hlisted),
    Program.bind_ok hnodes]
  cases hfind : children.find? (fun child => child.name == name) with
  | none =>
      have hnone := List.find?_eq_none.mp hfind e hmem
      simp [hchild.name_eq] at hnone
  -- No two children have the same name, so the one that is found is the folder.
  | some child =>
      have hsame := child_of_find hlisting hnodes hfind
      obtain rfl := hsame.unique (hchild.grows (hgrows.trans hgrows'))
      simp only [hfolder, if_true]
      rfl

/-- A folder that is there and shown is found, and none is made. -/
theorem segmentFolder_answered {parent : NodeUid} {name : Bytes} {e : Entry}
    (hfuel : s.turns.length < fuel) (hanswered : s.Answered shown)
    (hchild : s.tree.Child parent name e) (hfolder : e.isFolder = true) (hshown : shown e.uid) :
    ∃ s', (segmentFolder fuel parent name).run s = some (s', .ok e.uid) := by
  obtain ⟨s', hfind⟩ := findExistingFolder_answered hfuel hanswered hchild hfolder hshown
  refine ⟨s', ?_⟩
  unfold segmentFolder
  rw [Program.bind_ok hfind]
  rfl

/-- Along a path that leads through folders that can be read. -/
theorem createSegments_answered {t : Tree} {root target : NodeUid} {names : List Bytes}
    (hleads : Leads t root names target) (hgrows : t.Grows s.tree)
    (hfuel : s.turns.length < fuel) (hanswered : s.Answered shown)
    (hshown : ∀ i v, Leads t root (names.take i) v → shown v) :
    ∃ s', (createSegments fuel root names).run s = some (s', .ok target) := by
  induction hleads generalizing s with
  | here => exact ⟨s, rfl⟩
  | @down root target name names e hchild hfolder hrest ih =>
      have hfirst : shown e.uid := hshown 1 e.uid (.down hchild hfolder .here)
      obtain ⟨u, hsegment⟩ := segmentFolder_answered hfuel hanswered (hchild.grows hgrows) hfolder
        hfirst
      have hdone := segmentFolder_done hsegment
      have hturns := hdone.turns.length_le
      obtain ⟨s', hend⟩ := ih (hgrows.trans hdone.grows) (by omega) (hanswered.later hdone.turns)
        (fun i v hv => hshown (i + 1) v (.down hchild hfolder hv))
      refine ⟨s', ?_⟩
      unfold createSegments
      rw [Program.bind_ok hsegment]
      exact hend

/-- **A call along a path that is there already** returns where it leads, if its requests are
answered and the folders on the way can be read. -/
theorem createFolderPath_answered {root target : NodeUid} {path : Bytes}
    (hleads : Leads s.tree root (Context.pathSegments path) target)
    (hfuel : s.turns.length < fuel)
    (hanswered : s.Answered
      (fun uid => ∃ i, Leads s.tree root ((Context.pathSegments path).take i) uid)) :
    ∃ s', (createFolderPath fuel root path).run s = some (s', .ok target) :=
  createSegments_answered hleads (.refl _) hfuel hanswered (fun i _ hv => ⟨i, hv⟩)

end Answered

/-- **`create_folder_path` is `mkdir -p`**, in any tree and whatever other clients create meanwhile.
A call returns. It changes no node that is there, and creates at most one folder for each missing
segment. If it returns a uid, the path leads there, through folders; and a later call creates
nothing and returns no other uid, and does return this one if its requests are answered. -/
theorem createFolderPath_mkdir (fuel : Nat) (root : NodeUid) (path : Bytes) (s : Shared) :
    (s.turns.length < fuel → ∃ s' r, (createFolderPath fuel root path).run s = some (s', r)) ∧
    ∀ s' r, (createFolderPath fuel root path).run s = some (s', r) →
      s.tree.Grows s'.tree ∧
      (∃ log, s'.created = s.created ++ log ∧
        Fills s.tree s'.tree root (Context.pathSegments path) log) ∧
      ∀ uid, r = .ok uid →
        Leads s'.tree root (Context.pathSegments path) uid ∧
        ∀ again : Shared, s'.tree.Grows again.tree → ∀ fuel',
          (∀ s'' r', (createFolderPath fuel' root path).run again = some (s'', r') →
            s''.created = again.created ∧ ∀ uid', r' = .ok uid' → uid' = uid) ∧
          (again.turns.length < fuel' →
            again.Answered
              (fun v => ∃ i, Leads again.tree root ((Context.pathSegments path).take i) v) →
            ∃ s'', (createFolderPath fuel' root path).run again = some (s'', .ok uid)) := by
  refine ⟨createSegments_returns _ _, ?_⟩
  intro s' r hrun
  have hdone := createFolderPath_spec hrun
  refine ⟨hdone.grows, hdone.created, ?_⟩
  intro uid huid
  have hleads := hdone.leads uid huid
  refine ⟨hleads, ?_⟩
  intro again hgrows fuel'
  have hthere := hleads.grows hgrows
  constructor
  · intro s'' r' hagain
    have hdone' := createFolderPath_spec hagain
    constructor
    · -- Nothing is missing on the way any more.
      obtain ⟨log, hlog, hfills⟩ := hdone'.created
      rw [hlog, hfills.eq_nil hthere, List.append_nil]
    · intro uid' huid'
      exact (hdone'.leads uid' huid').unique (hthere.grows hdone'.grows)
  · intro hfuel hanswered
    exact createFolderPath_answered hthere hfuel hanswered

/-- A volume with nothing in its root, where another client creates the folder `a` just after this
one has looked for it. -/
def race : Shared where
  tree :=
    { nodes := [⟨⟨0, 0⟩, none, [], true⟩]
      uids := by decide
      names := by
        intro e he e' _ p hp
        cases List.mem_singleton.mp he
        cases hp
      volumes := by
        intro e he p hp
        cases List.mem_singleton.mp he
        cases hp }
  turns := [.quiet, { Turn.quiet with others := [⟨⟨0, 0⟩, [97], 5, true, 0⟩] }, .quiet, .quiet]
  created := []

/-- The path `/a/b` goes through the other client's folder; only `b` is created, and a second call
finds both. -/
theorem createFolderPath_mkdir_race :
    ∃ s', (createFolderPath 5 ⟨0, 0⟩ [47, 97, 47, 98]).run race = some (s', .ok ⟨0, 6⟩) ∧
      s'.created = [(⟨0, 5⟩, [98])] ∧
      Leads s'.tree ⟨0, 0⟩ [[97], [98]] ⟨0, 6⟩ ∧
      ∃ s'', (createFolderPath 1 ⟨0, 0⟩ [47, 97, 47, 98]).run { s' with turns := [] } =
          some (s'', .ok ⟨0, 6⟩) ∧
        s''.created = s'.created := by
  have hrun : ((createFolderPath 5 ⟨0, 0⟩ [47, 97, 47, 98]).run race).map
      (fun p => (p.1.created, p.2)) = some ([(⟨0, 5⟩, [98])], .ok ⟨0, 6⟩) := rfl
  obtain ⟨⟨s', r⟩, hs', hresult⟩ := Option.map_eq_some_iff.mp hrun
  obtain ⟨hcreated, rfl⟩ := Prod.mk.inj hresult
  obtain ⟨-, -, hok⟩ := (createFolderPath_mkdir _ _ _ _).2 s' _ hs'
  obtain ⟨hleads, hagain⟩ := hok ⟨0, 6⟩ rfl
  obtain ⟨hnothing, hreturns⟩ := hagain { s' with turns := [] } (.refl _) 1
  obtain ⟨s'', hs''⟩ := hreturns Nat.zero_lt_one (Shared.answered_of_quiet rfl)
  have hpath : Context.pathSegments [47, 97, 47, 98] = [[97], [98]] := by decide
  rw [hpath] at hleads
  exact ⟨s', hs', hcreated, hleads, s'', hs'', (hnothing s'' _ hs'').1⟩

end ProtonDrive.FolderTree
