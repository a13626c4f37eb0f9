import Mathlib.Data.List.SplitBy
import Mathlib.Logic.Function.Basic
import ProtonDrive.Lib.Program
import ProtonDrive.Drive.Node
import ProtonDrive.Drive.ParentKey

/-!
# A client and its caches

The reads of `ProtonDriveClient`: single nodes, listings and paths. A client keeps two caches, the
unlocked folder keys and the decrypted nodes (the entity cache). Every build of a node, light or
full, writes both; `get_node` is answered from the entity cache when it can be.

The server and the caches of one client make up a `World`; calls are programs over it. All requests
are answered, and the key cache is taken to be large enough to keep what is put into it.
-/

namespace ProtonDrive

open OpenPgp

/-- An entry of the entity cache. -/
structure CachedNodeInfo where
  node : Node
  nameHashDigest : NameHash
  deriving DecidableEq, Repr

structure World where
  server : NodeUid → Option LinkDetails
  folderKeys : NodeUid → Option Key
  entities : NodeUid → Option CachedNodeInfo

/-- What does not change while a client runs. -/
structure Context where
  account : Account
  /-- The share key of a root. -/
  rootLinkShareKey : VolumeId → LinkId → Except ProtonError Key
  /-- The children of a folder, in the order of the server's listing. -/
  children : NodeUid → List LinkId
  /-- The address that writes are signed as, and its key. -/
  membershipAddress : Except ProtonError (String × Key)
  /-- The hash of a name under a hash key: the lowercase hex of its HMAC. -/
  hmacName : (hashKey name : Bytes) → NameHash
  /-- How many requests a walk to a root may take. -/
  fuel : Nat

/-- A call of a client. -/
abbrev Call (α : Type) := Program World ProtonError α

/-- The server knows its links by their ids. -/
def Context.WellNamed (server : NodeUid → Option LinkDetails) : Prop :=
  ∀ uid details, server uid = some details → details.link.id = uid.linkId

/-! ## The caches -/

def World.putFolderKey (w : World) (uid : NodeUid) (key : Key) : World :=
  { w with folderKeys := Function.update w.folderKeys uid (some key) }

def World.putFolderKeys (w : World) (volumeId : VolumeId) (puts : List (LinkId × Key)) : World :=
  puts.foldl (fun w put => w.putFolderKey ⟨volumeId, put.1⟩ put.2) w

def World.setNode (w : World) (uid : NodeUid) (info : CachedNodeInfo) : World :=
  { w with entities := Function.update w.entities uid (some info) }

@[simp] theorem putFolderKey_server (w : World) (uid : NodeUid) (key : Key) :
    (w.putFolderKey uid key).server = w.server := rfl

@[simp] theorem putFolderKey_entities (w : World) (uid : NodeUid) (key : Key) :
    (w.putFolderKey uid key).entities = w.entities := rfl

@[simp] theorem setNode_server (w : World) (uid : NodeUid) (info : CachedNodeInfo) :
    (w.setNode uid info).server = w.server := rfl

@[simp] theorem setNode_folderKeys (w : World) (uid : NodeUid) (info : CachedNodeInfo) :
    (w.setNode uid info).folderKeys = w.folderKeys := rfl

@[simp] theorem putFolderKeys_server (w : World) (volumeId : VolumeId)
    (puts : List (LinkId × Key)) : (w.putFolderKeys volumeId puts).server = w.server := by
  induction puts generalizing w with
  | nil => rfl
  | cons put puts ih => exact ih (w.putFolderKey ⟨volumeId, put.1⟩ put.2)

@[simp] theorem putFolderKeys_entities (w : World) (volumeId : VolumeId)
    (puts : List (LinkId × Key)) : (w.putFolderKeys volumeId puts).entities = w.entities := by
  induction puts generalizing w with
  | nil => rfl
  | cons put puts ih => exact ih (w.putFolderKey ⟨volumeId, put.1⟩ put.2)

/-- Every key that is in the cache afterwards was there before or has been put. -/
theorem putFolderKeys_eq_some {w : World} {volumeId : VolumeId} {puts : List (LinkId × Key)}
    {uid : NodeUid} {key : Key} (h : (w.putFolderKeys volumeId puts).folderKeys uid = some key) :
    w.folderKeys uid = some key ∨ (uid.volumeId = volumeId ∧ (uid.linkId, key) ∈ puts) := by
  induction puts generalizing w with
  | nil => exact .inl h
  | cons put puts ih =>
      rcases ih h with h | ⟨hv, hmem⟩
      · simp only [World.putFolderKey, Function.update_apply] at h
        split at h
        · next huid =>
          cases h
          subst huid
          exact .inr ⟨rfl, List.mem_cons_self⟩
        · exact .inl h
      · exact .inr ⟨hv, List.mem_cons_of_mem _ hmem⟩

/-! ## Keys -/

/-- The links of a volume. -/
def linksOf (server : NodeUid → Option LinkDetails) (volumeId : VolumeId) : Links :=
  fun a => (server ⟨volumeId, a⟩).map LinkDetails.link

/-- What a walk to the root of a volume reads. -/
def World.walkEnv (w : World) (c : Context) (volumeId : VolumeId) : KeyWalk.Env where
  server := linksOf w.server volumeId
  folderKeys a := w.folderKeys ⟨volumeId, a⟩
  cachedParent a :=
    (w.entities ⟨volumeId, a⟩).map (fun info => info.node.parentUid.map NodeUid.linkId)
  forPhotos := false
  photosShareKey := .error .keysLocked
  rootLinkShareKey := c.rootLinkShareKey volumeId

namespace Context

variable (c : Context)

/-- The key above a link: the cached one of its parent, or what the walk finds. -/
def resolveParentKey (volumeId : VolumeId) (link : Link) : Call Key where
  run w :=
    match link.parentId.bind (fun p => w.folderKeys ⟨volumeId, p⟩) with
    | some key => some (w, .ok key)
    | none =>
        ((w.walkEnv c volumeId).resolveParentKeyWalk c.fuel link).map
          (fun outcome => (w.putFolderKeys volumeId outcome.1, outcome.2))

def getLinkDetails (volumeId : VolumeId) (linkIds : List LinkId) : Call (List LinkDetails) :=
  .read (fun w => linkIds.filterMap (fun a => w.server ⟨volumeId, a⟩))

/-! ## Building nodes -/

/-- The key of a folder is kept, for its children. -/
def cacheFolderKey (details : LinkDetails) (uid : NodeUid) (nodeKey : Option Key) (w : World) :
    World :=
  match details.parsedType, nodeKey with
  | .folder, some key => w.putFolderKey uid key
  | .album, some key => w.putFolderKey uid key
  | _, _ => w

/-- A node is kept if its link says what its name hash is. -/
def cacheEntity (details : LinkDetails) (node : Node) (w : World) : World :=
  match details.link.nameHash with
  | some hash => w.setNode node.uid ⟨node, hash⟩
  | none => w

def buildNode (volumeId : VolumeId) (details : LinkDetails) (parentKey : Key) (detail : NodeDetail) :
    Call Node := do
  let (node, nodeKey) ← .ofExcept (c.account.decryptNode detail volumeId details parentKey)
  .modify (cacheFolderKey details node.uid nodeKey)
  .modify (cacheEntity details node)
  return node

/-! ## Single nodes -/

def loadNode (uid : NodeUid) : Call (Option Node) := do
  match (← getLinkDetails uid.volumeId [uid.linkId]).head? with
  | none => return none
  | some details =>
      let parentKey ← c.resolveParentKey uid.volumeId details.link
      let node ← c.buildNode uid.volumeId details parentKey .full
      return some node

def getNode (uid : NodeUid) : Call (Option Node) := do
  match ← .read (fun w => w.entities uid) with
  | some info => return some info.node
  | none => c.loadNode uid

/-! ## Listings -/

/-- `slice::chunks`. -/
def chunks {α : Type} (size : Nat) (l : List α) : List (List α) :=
  (List.range ((l.length + size - 1) / size)).map (fun i => (l.drop (i * size)).take size)

def addToGroup (uid : NodeUid) : List (VolumeId × List LinkId) → List (VolumeId × List LinkId)
  | [] => [(uid.volumeId, [uid.linkId])]
  | (v, ids) :: rest =>
      if v = uid.volumeId then (v, ids ++ [uid.linkId]) :: rest
      else (v, ids) :: addToGroup uid rest

def groupByVolume (uids : List NodeUid) : List (VolumeId × List LinkId) :=
  uids.foldl (fun groups uid => addToGroup uid groups) []

/-- The key a link is decrypted with, named by where it comes from. -/
inductive ParentKeyId where
  | parent (a : LinkId)
  | root (a : LinkId)
  deriving DecidableEq, Repr

def ParentKeyId.of (link : Link) : ParentKeyId :=
  match link.parentId with
  | some p => .parent p
  | none => .root link.id

/-- One key for each `ParentKeyId` of a batch. A key that cannot be had is left out. -/
def resolveParentKeys (volumeId : VolumeId) : List LinkDetails → (ParentKeyId → Option Key) →
    Call (ParentKeyId → Option Key)
  | [], keys => return keys
  | details :: rest, keys => do
      let id := ParentKeyId.of details.link
      if (keys id).isSome then resolveParentKeys volumeId rest keys
      else
        match ← (c.resolveParentKey volumeId details.link).attempt with
        | .ok key => resolveParentKeys volumeId rest (Function.update keys id (some key))
        | .error _ => resolveParentKeys volumeId rest keys

/-- Build the nodes whose key is there, and skip those that do not decrypt. -/
def buildEach (volumeId : VolumeId) (detail : NodeDetail) (keys : ParentKeyId → Option Key) :
    List LinkDetails → Call (List Node)
  | [] => return []
  | details :: rest =>
      match keys (ParentKeyId.of details.link) with
      | none => buildEach volumeId detail keys rest
      | some key => do
          let built ← (c.buildNode volumeId details key detail).attempt
          let nodes ← buildEach volumeId detail keys rest
          return built.toOption.toList ++ nodes

def enumerateBatch (detail : NodeDetail) (batch : VolumeId × List LinkId) : Call (List Node) := do
  let links ← getLinkDetails batch.1 batch.2
  let keys ← c.resolveParentKeys batch.1 links (fun _ => none)
  c.buildEach batch.1 detail keys links

def batches (uids : List NodeUid) : List (VolumeId × List LinkId) :=
  (groupByVolume uids).flatMap
    (fun group => (chunks KeyWalk.maxBatchCount group.2).map (fun ids => (group.1, ids)))

def enumerateNodesDetail (uids : List NodeUid) (detail : NodeDetail) : Call (List Node) := do
  let nodes ← Program.traverse (c.enumerateBatch detail) (batches uids)
  return nodes.flatten

def enumerateNodes (uids : List NodeUid) : Call (List Node) := c.enumerateNodesDetail uids .full

def enumerateNodesLight (uids : List NodeUid) : Call (List Node) :=
  c.enumerateNodesDetail uids .light

/-! ## Paths -/

def structureLoop (uid : NodeUid) : ProtonError :=
  .invalidOperation ("Folder structure loop detected at " ++ uid.text)

def hierarchyBroken (uid : NodeUid) : ProtonError :=
  .invalidOperation ("Node hierarchy is broken: parent " ++ uid.text ++ " does not exist")

/-- Up from the node pushed last, which is the first of the chain. -/
def hierarchyAbove : (fuel : Nat) → (visited : List NodeUid) → (chain : List Node) →
    Call (List Node)
  | 0, _, _ => ⟨fun _ => none⟩
  | fuel + 1, visited, chain =>
      match chain.head?.bind Node.parentUid with
      | none => return chain
      | some parentUid =>
          if parentUid ∈ visited then .ofExcept (.error (structureLoop parentUid))
          else do
            match ← c.getNode parentUid with
            | none => .ofExcept (.error (hierarchyBroken parentUid))
            | some parent => hierarchyAbove fuel (parentUid :: visited) (parent :: chain)

/-- The chain from the root of the tree down to the node. -/
def getNodeHierarchy (uid : NodeUid) : Call (Option (List Node)) := do
  match ← c.getNode uid with
  | none => return none
  | some node => do
      let chain ← c.hierarchyAbove c.fuel [uid] [node]
      return some chain

def joinNodePath (names : List Bytes) : Bytes :=
  let path := names.foldl (fun path name => path ++ 47 :: name) []
  if path.isEmpty then [47] else path

/-- The path of a node from its root, whose own name is not in it. -/
def getNodePath (uid : NodeUid) : Call (Option Bytes) := do
  match ← c.getNodeHierarchy uid with
  | none => return none
  | some hierarchy => return some (joinNodePath ((hierarchy.drop 1).map Node.name))

def enumerateFolderChildrenNodeUids (folder : NodeUid) : List NodeUid :=
  (c.children folder).map (NodeUid.mk folder.volumeId)

def findChildByName (parent : NodeUid) (name : Bytes) : Call (Option NodeUid) := do
  let childUids := c.enumerateFolderChildrenNodeUids parent
  if childUids.isEmpty then return none
  else
    let children ← c.enumerateNodesLight childUids
    return (children.find? (fun child => child.name == name)).map Node.uid

/-- The parts of a path between its slashes. -/
def pathSegments (path : Bytes) : List Bytes :=
  (path.splitOn 47).filter (fun segment => !segment.isEmpty)

def findByPath : NodeUid → List Bytes → Call (Option NodeUid)
  | current, [] => return some current
  | current, segment :: rest => do
      match ← c.findChildByName current segment with
      | none => return none
      | some child => findByPath child rest

def getNodeByPath (root : NodeUid) (path : Bytes) : Call (Option Node) := do
  match ← c.findByPath root (pathSegments path) with
  | none => return none
  | some target => c.getNode target

/-! ## Builds and the caches -/

variable {c}

theorem buildNode_run (v : VolumeId) (details : LinkDetails) (key : Key) (detail : NodeDetail)
    (w : World) :
    (c.buildNode v details key detail).run w =
      match c.account.decryptNode detail v details key with
      | .error e => some (w, .error e)
      | .ok (node, nodeKey) =>
          some (cacheEntity details node (cacheFolderKey details node.uid nodeKey w), .ok node) := by
  unfold buildNode
  cases hbuilt : c.account.decryptNode detail v details key with
  | error e => exact Program.bind_error rfl
  | ok built => exact Program.bind_ok rfl

@[simp] theorem cacheFolderKey_entities (details : LinkDetails) (uid : NodeUid)
    (nodeKey : Option Key) (w : World) :
    (cacheFolderKey details uid nodeKey w).entities = w.entities := by
  unfold cacheFolderKey
  split <;> rfl

/-! ## Batches -/

theorem chunks_flatten {α : Type} {size : Nat} (hsize : 0 < size) (l : List α) :
    (chunks size l).flatten = l := by
  have htake : ∀ k, ((List.range k).map (fun i => (l.drop (i * size)).take size)).flatten =
      l.take (k * size) := by
    intro k
    induction k with
    | zero => simp
    | succ k ih =>
        rw [List.range_succ, List.map_append, List.flatten_append, ih, Nat.succ_mul, List.take_add]
        simp
  rw [chunks, htake]
  apply List.take_of_length_le
  have hmod := Nat.div_add_mod (l.length + size - 1) size
  have hlt := Nat.mod_lt (l.length + size - 1) hsize
  rw [Nat.mul_comm] at hmod
  omega

/-- Nodes of one volume make one group. -/
theorem groupByVolume_of_volume (volumeId : VolumeId) {ids : List LinkId} (hne : ids ≠ []) :
    groupByVolume (ids.map (NodeUid.mk volumeId)) = [(volumeId, ids)] := by
  have hgrow : ∀ (ids seen : List LinkId),
      (ids.map (NodeUid.mk volumeId)).foldl (fun groups uid => addToGroup uid groups)
        [(volumeId, seen)] = [(volumeId, seen ++ ids)] := by
    intro ids
    induction ids with
    | nil => simp
    | cons a ids ih =>
        intro seen
        rw [List.map_cons, List.foldl_cons]
        simp only [addToGroup, if_true]
        rw [ih, List.append_assoc]
        rfl
  cases ids with
  | nil => exact absurd rfl hne
  | cons a ids =>
      rw [groupByVolume, List.map_cons, List.foldl_cons]
      exact hgrow ids [a]

theorem batches_of_volume (volumeId : VolumeId) (ids : List LinkId) :
    batches (ids.map (NodeUid.mk volumeId)) =
      (chunks KeyWalk.maxBatchCount ids).map (fun chunk => (volumeId, chunk)) := by
  cases ids with
  | nil => rfl
  | cons a ids =>
      rw [batches, groupByVolume_of_volume volumeId (List.cons_ne_nil a ids)]
      simp

theorem foldl_addToGroup (v : VolumeId) (ids : List LinkId) (groups : List (VolumeId × List LinkId))
    (uids : List NodeUid) :
    uids.foldl (fun groups uid => addToGroup uid groups) ((v, ids) :: groups) =
      (v, ids ++ (uids.filter (fun uid => uid.volumeId = v)).map NodeUid.linkId) ::
        (uids.filter (fun uid => uid.volumeId ≠ v)).foldl (fun groups uid => addToGroup uid groups)
          groups := by
  induction uids generalizing ids groups with
  | nil => simp
  | cons uid uids ih =>
      rw [List.foldl_cons]
      by_cases huid : uid.volumeId = v
      · simp only [addToGroup, huid, if_true]
        rw [ih]
        simp [huid]
      · have hne : v ≠ uid.volumeId := fun h => huid h.symm
        simp only [addToGroup, if_neg hne]
        rw [ih]
        simp [huid]

/-- The volumes come in the order in which they first appear, each with its links in order. -/
theorem groupByVolume_eq (uids : List NodeUid) :
    groupByVolume uids = (uids.map NodeUid.volumeId).eraseDups.map (fun v =>
      (v, (uids.filter (fun uid => uid.volumeId = v)).map NodeUid.linkId)) := by
  induction hlength : uids.length using Nat.strongRecOn generalizing uids with
  | _ n ih =>
      cases uids with
      | nil => rfl
      | cons uid uids =>
          have hshorter : (uids.filter (fun other => other.volumeId ≠ uid.volumeId)).length < n := by
            have hle :=
              List.length_filter_le (fun other : NodeUid => other.volumeId ≠ uid.volumeId) uids
            rw [List.length_cons] at hlength
            omega
          have hrest := ih _ hshorter (uids.filter (fun other => other.volumeId ≠ uid.volumeId)) rfl
          have hvolumes : (uids.map NodeUid.volumeId).filter (fun v => !v == uid.volumeId) =
              (uids.filter (fun other => other.volumeId ≠ uid.volumeId)).map NodeUid.volumeId := by
            rw [List.filter_map]
            congr 1
            apply List.filter_congr
            intro other _
            simp [beq_eq_decide]
          unfold groupByVolume at hrest ⊢
          rw [List.foldl_cons]
          show uids.foldl _ [(uid.volumeId, [uid.linkId])] = _
          rw [foldl_addToGroup, hrest, List.map_cons, List.eraseDups_cons, hvolumes, List.map_cons]
          congr 1
          · simp
          · apply List.map_congr_left
            intro v hv
            -- None of the other volumes is that of the first link.
            rw [List.mem_eraseDups, List.mem_map] at hv
            obtain ⟨other, hother, rfl⟩ := hv
            have hne : uid.volumeId ≠ other.volumeId := by
              have hfilter := (List.mem_filter.mp hother).2
              simp only [ne_eq, decide_not, Bool.not_eq_true', decide_eq_false_iff_not] at hfilter
              exact fun h => hfilter h.symm
            rw [List.filter_filter, List.filter_cons_of_neg (by simpa using hne)]
            congr 2
            apply List.filter_congr
            intro x _
            by_cases hx : x.volumeId = other.volumeId
            · simp [hx, Ne.symm hne]
            · simp [hx]

/-- The batches have the uids, and no others. -/
theorem mem_batches {uids : List NodeUid} {uid : NodeUid} :
    uid ∈ uids ↔ ∃ batch ∈ batches uids, uid.volumeId = batch.1 ∧ uid.linkId ∈ batch.2 := by
  have hflat : ∀ ids : List LinkId, (chunks KeyWalk.maxBatchCount ids).flatten = ids :=
    fun ids => chunks_flatten (by decide) ids
  simp only [batches, groupByVolume_eq, List.mem_flatMap, List.mem_map, List.mem_eraseDups]
  constructor
  · -- The link is in its volume's group, and there in one of the chunks.
    intro hmem
    have hlink : uid.linkId ∈ (chunks KeyWalk.maxBatchCount
        ((uids.filter (fun other => other.volumeId = uid.volumeId)).map NodeUid.linkId)).flatten := by
      rw [hflat]
      exact List.mem_map.mpr ⟨uid, List.mem_filter.mpr ⟨hmem, by simp⟩, rfl⟩
    obtain ⟨chunk, hchunk, hlink⟩ := List.mem_flatten.mp hlink
    exact ⟨_, ⟨_, ⟨_, ⟨uid, hmem, rfl⟩, rfl⟩, chunk, hchunk, rfl⟩, rfl, hlink⟩
  · rintro ⟨_, ⟨_, ⟨v, -, rfl⟩, chunk, hchunk, rfl⟩, hv, hlink⟩
    have hmem := List.mem_flatten.mpr ⟨chunk, hchunk, hlink⟩
    rw [hflat] at hmem
    obtain ⟨other, hother, hsame⟩ := List.mem_map.mp hmem
    obtain ⟨hother, hvolume⟩ := List.mem_filter.mp hother
    have huid : other = uid := by
      cases other
      cases uid
      simp only [decide_eq_true_eq] at hvolume hv hsame
      rw [hvolume, hv, hsame]
    rw [← huid]
    exact hother

end Context

end ProtonDrive
