import Mathlib.Data.List.TakeWhile
import ProtonDrive.Lib.TaskStream
import ProtonDrive.Drive.Enumeration
import ProtonDrive.Drive.Listings
import ProtonDrive.Drive.PublicLinkKeys
import ProtonDrive.Drive.Thumbnails

/-!
# Listing a folder of a public link

`list_folder` of the client of a public link, as a task that can be interrupted wherever it waits:
the pages of the folder's listing, the link details of its children, volume by volume in batches of
which up to four are fetched at a time, and for each link the key of its parent, for which
`node_key` goes up to the nearest node whose key is unlocked and back down. Node keys are kept in a
cache that all tasks share, and that may lose them.

* `Share.listFolder` — the task.
* `Lists` — what it is going to return: the nodes of the uids that the paging loop reads, in their
  order.
* `nodeKey_alone` — a task that loads a key by itself does what `Env.nodeKey` says.
* `settles` — under any interleaving, with a cache that has only right keys, and if the nodes
  decrypt.

All requests are answered, and a batch of links comes in the order of its request. Two tasks that
load one key do it each for itself.
-/

namespace ProtonDrive

open OpenPgp
open Paging (collect Script)

namespace PublicLink

/-- What the server holds of a share, and what its visitor has opened it with. -/
structure Share where
  rootUid : NodeUid
  shareKey : Key
  links : NodeUid → Option LinkDetails
  listing : NodeUid → FolderListing
  /-- The JSON of extended attributes. -/
  parseAttributes : Bytes → Option DecryptedExtendedAttributes

/-- The node keys in the cache. -/
abbrev Keys := NodeUid → Option Key

def Keys.put (keys : Keys) (uid : NodeUid) (key : Key) : Keys := Function.update keys uid (some key)

def Keys.evict (keys : Keys) (uid : NodeUid) : Keys := Function.update keys uid none

def Keys.putAll (keys : Keys) (puts : List (NodeUid × Key)) : Keys :=
  puts.foldl (fun keys put => keys.put put.1 put.2) keys

/-- Keys are put one after the other. -/
theorem Keys.putAll_append (keys : Keys) (puts later : List (NodeUid × Key)) :
    keys.putAll (puts ++ later) = (keys.putAll puts).putAll later := List.foldl_append

namespace Share

variable (share : Share)

def fetchLinkDetails (volumeId : VolumeId) (linkIds : List LinkId) : List LinkDetails :=
  linkIds.filterMap (fun a => share.links ⟨volumeId, a⟩)

/-- What `node_key` reads. -/
def env (keys : Keys) : Env where
  rootUid := share.rootUid
  shareKey := share.shareKey
  nodeKeys := keys
  fetchLinkDetails uid := .ok (share.fetchLinkDetails uid.volumeId [uid.linkId])

@[simp] theorem env_rootUid (keys : Keys) : (share.env keys).rootUid = share.rootUid := rfl

@[simp] theorem env_shareKey (keys : Keys) : (share.env keys).shareKey = share.shareKey := rfl

@[simp] theorem env_nodeKeys (keys : Keys) : (share.env keys).nodeKeys = keys := rfl

/-! ## Building a node -/

def decryptExtendedAttributesUnverified (nodeKey : Key) (xattr : Message) :
    Except ProtonError DecryptedExtendedAttributes := do
  let json ← decryptArmoredMessage nodeKey xattr
  match share.parseAttributes json with
  | some attrs => return attrs
  | none => .error (.invalidOperation "deserialize extended attributes")

/-- What a file says of itself. Attributes that do not decrypt are left out. -/
def fileKind (details : LinkDetails) (nodeKey : Key) : NodeKind :=
  let file := details.fileProperties
  let active := file.bind FileDto.activeRevision
  let common := (active.bind ActiveRevisionDto.extendedAttributes).bind (fun xattr =>
    match share.decryptExtendedAttributesUnverified nodeKey xattr with
    | .ok attrs => attrs.common
    | .error _ => none)
  .file ((file.map FileDto.mediaType).getD "") ((file.map FileDto.totalSizeOnStorage).getD 0)
    (active.map (fun revision => RevisionState.fromRaw revision.state))
    (active.map ActiveRevisionDto.id)
    (common.bind DecryptedCommonExtendedAttributes.size)
    (common.bind DecryptedCommonExtendedAttributes.modificationTime)
    (common.bind DecryptedCommonExtendedAttributes.sha1)

def buildNode (volumeId : VolumeId) (details : LinkDetails) (parentKey : Key) :
    Except ProtonError Node := do
  let decrypted ← decryptLink parentKey details.link
  return {
    uid := ⟨volumeId, details.link.id⟩
    parentUid := details.link.parentId.map (NodeUid.mk volumeId)
    kind :=
      if details.parsedType = .folder then .folder
      else share.fileKind details decrypted.nodeKey
    name := decrypted.name
    creationTime := details.creationTime
    modificationTime := details.modificationTime
    trashed := details.isTrashed
    isShared := true
    isSharedPublicly := true
    signatureEmail := details.link.nameSignatureEmail
    membership := none
    directRole := none
    shareId := none
    photo := none
    album := none
    verification := ⟨.notSigned, .notSigned, none, none⟩ }

end Share

/-! ## The task -/

inductive Stage where
  /-- `enumerate_folder_children_node_uids`, with the pages that the server has still to give. -/
  | paging (folderUid : NodeUid) (answers : List FolderChildrenResponse) (uids : List NodeUid)
  /-- It waits for the next batch of links. -/
  | fetching
  /-- The loop over the links of a batch. -/
  | building (volumeId : VolumeId) (links : List LinkDetails)
  /-- `node_key` on its way up, for the first of the links. -/
  | climbing (volumeId : VolumeId) (details : LinkDetails) (links : List LinkDetails)
      (cursor : NodeUid) (chain : List LinkDetails)
  /-- `node_key` on its way down. -/
  | unlocking (volumeId : VolumeId) (details : LinkDetails) (links : List LinkDetails) (key : Key)
      (chain : List LinkDetails)

structure ListFolder where
  stage : Stage
  groups : List (VolumeId × List LinkId)
  responses : Buffer Keys (VolumeId × List LinkDetails)
  nodes : List Node

inductive ListFolderAction where
  /-- The futures of the batches. -/
  | fetch (action : BufferAction)
  /-- The loops go on. -/
  | advance
  deriving DecidableEq, Repr

namespace ListFolder

def start (share : Share) (folderUid : NodeUid) : ListFolder where
  stage := .paging folderUid (share.listing folderUid).pages []
  groups := []
  responses := .empty
  nodes := []

def result (task : ListFolder) : Option (List Node) :=
  match task.stage, task.groups with
  | .fetching, [] => if task.responses.Over then some task.nodes else none
  | _, _ => none

end ListFolder

namespace Share

variable (share : Share)

/-- The request for the details of a chunk. -/
def fetchChunk (volumeId : VolumeId) (linkIds : List LinkId) :
    Future Keys (VolumeId × List LinkDetails) :=
  .poll id (fun _ => .ready (volumeId, share.fetchLinkDetails volumeId linkIds))

def fetchGroup (group : VolumeId × List LinkId) : Buffer Keys (VolumeId × List LinkDetails) :=
  .start ((Context.chunks KeyWalk.maxBatchCount group.2).map (share.fetchChunk group.1))

section

variable (keys : Keys) (task : ListFolder) (volumeId : VolumeId) (details : LinkDetails)
  (links : List LinkDetails)

/-- With the parent key of a link, or an error, the loop goes on to the next link. What does not
decrypt is skipped. -/
def resolved : Except ProtonError Key → ListFolder
  | .error _ => { task with stage := .building volumeId links }
  | .ok parentKey =>
      match share.buildNode volumeId details parentKey with
      | .error _ => { task with stage := .building volumeId links }
      | .ok node => { task with stage := .building volumeId links, nodes := task.nodes ++ [node] }

def resolveParentKey : ListFolder :=
  if details.link.id = share.rootUid.linkId then
    share.resolved task volumeId details links (.ok share.shareKey)
  else
    match details.link.parentId with
    | none => share.resolved task volumeId details links (.error noParent)
    | some p =>
        match keys ⟨volumeId, p⟩ with
        | some key => share.resolved task volumeId details links (.ok key)
        | none => { task with stage := .climbing volumeId details links ⟨volumeId, p⟩ [] }

def climb (cursor : NodeUid) (chain : List LinkDetails) : Keys × ListFolder :=
  match keys cursor with
  | some key => (keys, { task with stage := .unlocking volumeId details links key chain })
  | none =>
      match (share.env keys).linkDetails cursor with
      | .error e => (keys, share.resolved task volumeId details links (.error e))
      | .ok above =>
          if above.link.id = share.rootUid.linkId then
            match decryptLink share.shareKey above.link with
            | .error e => (keys, share.resolved task volumeId details links (.error e))
            | .ok d =>
                (keys.put cursor d.nodeKey,
                  { task with stage := .unlocking volumeId details links d.nodeKey chain })
          else
            match above.link.parentId with
            | none => (keys, share.resolved task volumeId details links (.error noParent))
            | some p =>
                (keys,
                  { task with
                    stage := .climbing volumeId details links ⟨cursor.volumeId, p⟩
                      (above :: chain) })

def unlock (key : Key) : List LinkDetails → Keys × ListFolder
  | [] => (keys, share.resolved task volumeId details links (.ok key))
  | below :: chain =>
      match decryptLink key below.link with
      | .error e => (keys, share.resolved task volumeId details links (.error e))
      | .ok d =>
          (keys.put ⟨volumeId, below.link.id⟩ d.nodeKey,
            { task with stage := .unlocking volumeId details links d.nodeKey chain })

end

/-- The paging loop takes a page, and goes on to `enumerate_nodes` after the last one. -/
def takePage (task : ListFolder) (folderUid : NodeUid) (uids : List NodeUid) :
    List FolderChildrenResponse → Option ListFolder
  | [] => none
  | page :: answers =>
      let uids := uids ++ page.linkIds.map (NodeUid.mk folderUid.volumeId)
      match page.next with
      | some _ => some { task with stage := .paging folderUid answers uids }
      | none => some { task with stage := .fetching, groups := Context.groupByVolume uids }

/-- `responses.try_next()`; after the last batch of a volume, on to the next volume. -/
def takeBatch (task : ListFolder) : Option ListFolder :=
  match task.responses.pop with
  | some ((volumeId, links), responses) =>
      some { task with responses := responses, stage := .building volumeId links }
  | none =>
      match task.groups with
      | [] => none
      | group :: groups =>
          if task.responses.Over then
            some { task with groups := groups, responses := share.fetchGroup group }
          else none

def listFolderStep (keys : Keys) (task : ListFolder) : ListFolderAction → Option (Keys × ListFolder)
  | .fetch action =>
      (task.responses.step Context.maxConcurrentDetailFetches keys action).map
        (fun p => (p.1, { task with responses := p.2 }))
  | .advance =>
      match task.stage with
      | .paging folderUid answers uids =>
          (takePage task folderUid uids answers).map (keys, ·)
      | .fetching => (share.takeBatch task).map (keys, ·)
      | .building _ [] => some (keys, { task with stage := .fetching })
      | .building volumeId (details :: links) =>
          some (keys, share.resolveParentKey keys task volumeId details links)
      | .climbing volumeId details links cursor chain =>
          some (share.climb keys task volumeId details links cursor chain)
      | .unlocking volumeId details links key chain =>
          some (share.unlock keys task volumeId details links key chain)

def listFolder : Machine (Keys × ListFolder) ListFolderAction :=
  ⟨fun p action => share.listFolderStep p.1 p.2 action⟩

end Share

/-! ## Nodes that decrypt -/

namespace Share

section

variable (share : Share)

/-- The key that a link decrypts with: the share key at the shared root, or its parent's. -/
def parentKey (volumeId : VolumeId) (details : LinkDetails) : Option Key :=
  if details.link.id = share.rootUid.linkId then some share.shareKey
  else
    (details.link.parentId.bind (fun p => share.links ⟨volumeId, p⟩)).map
      (fun parent => parent.link.key.key)

/-- The node of a uid, decrypted with that key. -/
def node (uid : NodeUid) : Option Node := do
  let details ← share.links uid
  let key ← share.parentKey uid.volumeId details
  (share.buildNode uid.volumeId details key).toOption

/-- The links from a node up to the shared root decrypt. -/
inductive Readable : NodeUid → Prop where
  | root {uid details d} (hlink : share.links uid = some details)
      (hid : details.link.id = uid.linkId) (hroot : uid.linkId = share.rootUid.linkId)
      (hopen : decryptLink share.shareKey details.link = .ok d) : Readable uid
  | child {uid details p parent d} (hlink : share.links uid = some details)
      (hid : details.link.id = uid.linkId) (hroot : uid.linkId ≠ share.rootUid.linkId)
      (hparent : details.link.parentId = some p)
      (habove : share.links ⟨uid.volumeId, p⟩ = some parent)
      (hopen : decryptLink parent.link.key.key details.link = .ok d)
      (hrest : Readable ⟨uid.volumeId, p⟩) : Readable uid

def KeyOf (uid : NodeUid) (key : Key) : Prop :=
  ∃ details, share.links uid = some details ∧ details.link.key.key = key

/-- The cache has only the nodes' own keys. -/
def KeysRight (keys : Keys) : Prop := ∀ uid key, keys uid = some key → share.KeyOf uid key

end

variable {share : Share} {keys : Keys} {uid : NodeUid} {volumeId : VolumeId} {details : LinkDetails}
  {key : Key}

/-- A right key leaves the cache right. -/
theorem KeysRight.put (h : share.KeysRight keys) (hkey : share.KeyOf uid key) :
    share.KeysRight (keys.put uid key) := by
  intro uid' key' h'
  simp only [Keys.put, Function.update_apply] at h'
  split at h'
  · next heq =>
    cases h'
    rw [heq]
    exact hkey
  · exact h uid' key' h'

/-- A key that is dropped cannot be wrong. -/
theorem KeysRight.evict (h : share.KeysRight keys) (uid : NodeUid) :
    share.KeysRight (keys.evict uid) := by
  intro uid' key' h'
  simp only [Keys.evict, Function.update_apply] at h'
  split at h'
  · cases h'
  · exact h uid' key' h'

variable (share volumeId) in
/-- A link that opens becomes a node with the link's id. -/
theorem buildNode_of_decryptLink {d : DecryptedLink}
    (h : decryptLink key details.link = .ok d) :
    ∃ node, share.buildNode volumeId details key = .ok node ∧
      node.uid = ⟨volumeId, details.link.id⟩ := by
  unfold buildNode
  rw [h]
  exact ⟨_, rfl, rfl⟩

variable (volumeId) in
/-- The parent key of the root is the key of the share. -/
theorem parentKey_root (h : details.link.id = share.rootUid.linkId) :
    share.parentKey volumeId details = some share.shareKey := if_pos h

/-- The parent key of any other link is the key of its parent. -/
theorem parentKey_below {p : LinkId} (hroot : details.link.id ≠ share.rootUid.linkId)
    (hparent : details.link.parentId = some p) (hkey : share.KeyOf ⟨volumeId, p⟩ key) :
    share.parentKey volumeId details = some key := by
  obtain ⟨parent, hlink, rfl⟩ := hkey
  unfold parentKey
  rw [if_neg hroot, hparent]
  show (share.links ⟨volumeId, p⟩).map _ = _
  rw [hlink]
  rfl

/-- **A readable node** is built with its parent key. -/
theorem Readable.exists_node (h : share.Readable uid) : ∃ details key node,
    share.links uid = some details ∧ details.link.id = uid.linkId ∧
      share.parentKey uid.volumeId details = some key ∧
      share.buildNode uid.volumeId details key = .ok node ∧ share.node uid = some node ∧
      node.uid = uid := by
  -- What is left over once the parent's key is known is the same in both cases.
  have hnode : ∀ {details key d}, share.links uid = some details → details.link.id = uid.linkId →
      share.parentKey uid.volumeId details = some key → decryptLink key details.link = .ok d →
      ∃ node, share.buildNode uid.volumeId details key = .ok node ∧ share.node uid = some node ∧
        node.uid = uid := by
    intro details key d hlink hid hkey hopen
    obtain ⟨node, hbuild, huid⟩ := buildNode_of_decryptLink share uid.volumeId hopen
    refine ⟨node, hbuild, ?_, ?_⟩
    · unfold Share.node
      rw [hlink]
      show (share.parentKey uid.volumeId details).bind _ = _
      rw [hkey]
      show (share.buildNode uid.volumeId details key).toOption = _
      rw [hbuild]
      rfl
    · rw [huid, hid]
  cases h with
  | root hlink hid hroot hopen =>
      have hkey := parentKey_root uid.volumeId (hid.trans hroot)
      obtain ⟨node, hbuilt⟩ := hnode hlink hid hkey hopen
      exact ⟨_, _, node, hlink, hid, hkey, hbuilt⟩
  | child hlink hid hroot hparent habove hopen _ =>
      have hne : _ ≠ share.rootUid.linkId := fun heq => hroot (hid.symm.trans heq)
      have hkey := parentKey_below hne hparent ⟨_, habove, rfl⟩
      obtain ⟨node, hbuilt⟩ := hnode hlink hid hkey hopen
      exact ⟨_, _, node, hlink, hid, hkey, hbuilt⟩

end Share

/-! ## What a task is going to return -/

namespace Share

section

variable (share : Share)

/-- A link of a node that decrypts, as the server has it. -/
def Holds (volumeId : VolumeId) (details : LinkDetails) : Prop :=
  share.links ⟨volumeId, details.link.id⟩ = some details ∧
    share.Readable ⟨volumeId, details.link.id⟩

def nodesOf (volumeId : VolumeId) (links : List LinkDetails) : List Node :=
  links.filterMap (fun details => share.node ⟨volumeId, details.link.id⟩)

/-- The chain leads from a node down to another one, each link of it below the one before. -/
inductive Down (volumeId : VolumeId) : LinkId → List LinkDetails → LinkId → Prop where
  | here {x} : Down volumeId x [] x
  | step {x target details chain} (hheld : share.Holds volumeId details)
      (hroot : details.link.id ≠ share.rootUid.linkId) (hparent : details.link.parentId = some x)
      (hrest : Down volumeId details.link.id chain target) :
      Down volumeId x (details :: chain) target

/-- What is still to come of the batch at hand. -/
inductive Current : Stage → List Node → Prop where
  | fetching : Current .fetching []
  | building {volumeId links} (hheld : ∀ details ∈ links, share.Holds volumeId details) :
      Current (.building volumeId links) (share.nodesOf volumeId links)
  | climbing {volumeId details links p x chain}
      (hheld : ∀ d ∈ details :: links, share.Holds volumeId d)
      (hroot : details.link.id ≠ share.rootUid.linkId) (hparent : details.link.parentId = some p)
      (hcursor : share.Readable ⟨volumeId, x⟩) (hdown : share.Down volumeId x chain p) :
      Current (.climbing volumeId details links ⟨volumeId, x⟩ chain)
        (share.nodesOf volumeId (details :: links))
  | unlocking {volumeId details links p x key chain}
      (hheld : ∀ d ∈ details :: links, share.Holds volumeId d)
      (hroot : details.link.id ≠ share.rootUid.linkId) (hparent : details.link.parentId = some p)
      (hkey : share.KeyOf ⟨volumeId, x⟩ key) (hdown : share.Down volumeId x chain p) :
      Current (.unlocking volumeId details links key chain)
        (share.nodesOf volumeId (details :: links))

/-- What is to come of the batches that are fetched, and of the volumes after them. -/
def Pending (task : ListFolder) (rest : List Node) : Prop :=
  ∃ batches, task.responses.Due share.KeysRight batches ∧
    (∀ batch ∈ batches, ∀ details ∈ batch.2, share.Holds batch.1 details) ∧
    (∀ uid ∈ task.groups.flatMap Thumbnails.groupUids, share.Readable uid) ∧
    rest = batches.flatMap (fun batch => share.nodesOf batch.1 batch.2) ++
      (task.groups.flatMap Thumbnails.groupUids).filterMap share.node

/-- The task is going to return `all`. -/
inductive Lists : ListFolder → List Node → Prop where
  | paging {folderUid answers uids} (hvolume : ∀ uid ∈ uids, uid.volumeId = folderUid.volumeId)
      (hreadable : ∀ uid ∈ uids ++ readPages folderUid answers, share.Readable uid)
      (hends : ∃ page ∈ answers, page.next = none) :
      Lists ⟨.paging folderUid answers uids, [], .empty, []⟩
        ((uids ++ readPages folderUid answers).filterMap share.node)
  | reading {task current rest} (hcurrent : share.Current task.stage current)
      (hpending : share.Pending task rest) : Lists task (task.nodes ++ (current ++ rest))

end

variable {share : Share} {keys keys' : Keys} {task task' : ListFolder} {uid : NodeUid}
  {volumeId : VolumeId} {details : LinkDetails} {links chain : List LinkDetails} {x p : LinkId}
  {key : Key} {current rest all : List Node}

/-- The first link of a batch gives its node. -/
theorem nodesOf_cons (hheld : share.Holds volumeId details)
    (hkey : share.parentKey volumeId details = some key) (links : List LinkDetails) :
    ∃ node, share.buildNode volumeId details key = .ok node ∧
      share.nodesOf volumeId (details :: links) = node :: share.nodesOf volumeId links := by
  obtain ⟨hlink, hreadable⟩ := hheld
  obtain ⟨details', key', node, hlink', -, hkey', hbuild, hnode, -⟩ := hreadable.exists_node
  cases hlink.symm.trans hlink'
  cases hkey.symm.trans hkey'
  refine ⟨node, hbuild, ?_⟩
  simp only [nodesOf, List.filterMap_cons, hnode]

/-! ## Single steps -/

/-- With its parent key, the next link is built. -/
theorem lists_resolved (hheld : ∀ d ∈ details :: links, share.Holds volumeId d)
    (hkey : share.parentKey volumeId details = some key) (hpending : share.Pending task rest) :
    share.Lists (share.resolved task volumeId details links (.ok key))
      (task.nodes ++ (share.nodesOf volumeId (details :: links) ++ rest)) := by
  obtain ⟨node, hbuild, hnodes⟩ := nodesOf_cons (hheld details List.mem_cons_self) hkey links
  have hresolved : share.resolved task volumeId details links (.ok key) =
      { task with stage := .building volumeId links, nodes := task.nodes ++ [node] } := by
    simp only [resolved, hbuild]
  have hsame : task.nodes ++ (share.nodesOf volumeId (details :: links) ++ rest) =
      (task.nodes ++ [node]) ++ (share.nodesOf volumeId links ++ rest) := by
    rw [hnodes, List.append_assoc]
    rfl
  rw [hresolved, hsame]
  have hcurrent := Current.building (fun d hd => hheld d (List.mem_cons_of_mem details hd))
  exact .reading hcurrent hpending

/-- Whatever the cache holds, the list that will come out is the same. -/
theorem lists_resolveParentKey (hkeys : share.KeysRight keys)
    (hheld : ∀ d ∈ details :: links, share.Holds volumeId d)
    (hpending : share.Pending task rest) :
    share.Lists (share.resolveParentKey keys task volumeId details links)
      (task.nodes ++ (share.nodesOf volumeId (details :: links) ++ rest)) := by
  obtain ⟨hlink, hreadable⟩ := hheld details List.mem_cons_self
  unfold resolveParentKey
  cases hreadable with
  | root hlink' hid hroot hopen =>
      rw [if_pos hroot]
      exact lists_resolved hheld (parentKey_root volumeId hroot) hpending
  | child hlink' hid hroot hparent habove hopen hrest =>
      cases hlink.symm.trans hlink'
      rw [if_neg hroot, hparent]
      dsimp only
      split
      · next key hkey =>
        exact lists_resolved hheld (parentKey_below hroot hparent (hkeys _ _ hkey)) hpending
      · exact .reading (.climbing hheld hroot hparent hrest .here) hpending

/-- The walk up reads the links of the server. -/
theorem linkDetails_eq (hlink : share.links uid = some details) :
    (share.env keys).linkDetails uid = .ok details := by
  have hlinks : share.fetchLinkDetails uid.volumeId [uid.linkId] = [details] := by
    simp only [fetchLinkDetails, List.filterMap_cons, hlink, List.filterMap_nil]
  have hfetch : (share.env keys).fetchLinkDetails uid = .ok [details] :=
    congrArg Except.ok hlinks
  unfold Env.linkDetails
  rw [hfetch]
  rfl

/-- Each step of the way up leads to the same list. -/
theorem lists_climb (hkeys : share.KeysRight keys)
    (hheld : ∀ d ∈ details :: links, share.Holds volumeId d)
    (hroot : details.link.id ≠ share.rootUid.linkId) (hparent : details.link.parentId = some p)
    (hcursor : share.Readable ⟨volumeId, x⟩) (hdown : share.Down volumeId x chain p)
    (hpending : share.Pending task rest)
    (h : share.climb keys task volumeId details links ⟨volumeId, x⟩ chain = (keys', task')) :
    share.KeysRight keys' ∧
      share.Lists task' (task.nodes ++ (share.nodesOf volumeId (details :: links) ++ rest)) := by
  unfold climb at h
  cases hcached : keys ⟨volumeId, x⟩ with
  | some key =>
      rw [hcached] at h
      cases h
      -- A cached key ends the climb, and the chain is walked down from it.
      exact ⟨hkeys, .reading (.unlocking hheld hroot hparent (hkeys _ _ hcached) hdown) hpending⟩
  | none =>
      rw [hcached] at h
      dsimp only at h
      have hcursor' := hcursor
      cases hcursor with
      | @root _ above d hlink hid htop hopen =>
          rw [linkDetails_eq hlink] at h
          dsimp only at h
          rw [if_pos (hid.trans htop), hopen] at h
          cases h
          -- The top of the share is opened with the share's own key.
          have hkey : share.KeyOf ⟨volumeId, x⟩ d.nodeKey :=
            ⟨above, hlink, (decryptLink_nodeKey hopen).symm⟩
          exact ⟨hkeys.put hkey, .reading (.unlocking hheld hroot hparent hkey hdown) hpending⟩
      | @child _ above q parent d hlink hid htop hup habove hopen hrest =>
          have hne : above.link.id ≠ share.rootUid.linkId := fun heq => htop (hid.symm.trans heq)
          rw [linkDetails_eq hlink] at h
          dsimp only at h
          rw [if_neg hne, hup] at h
          -- Below the top the climb goes on with the parent, and the link joins the chain.
          cases h
          have hsame : (⟨volumeId, x⟩ : NodeUid) = ⟨volumeId, above.link.id⟩ := by rw [hid]
          have hheld' : share.Holds volumeId above := by
            unfold Holds
            rw [← hsame]
            exact ⟨hlink, hcursor'⟩
          have hdown' : share.Down volumeId q (above :: chain) p := by
            refine .step hheld' hne hup ?_
            rw [hid]
            exact hdown
          exact ⟨hkeys, .reading (.climbing hheld hroot hparent hrest hdown') hpending⟩

/-- Each step of the way down leads to the same list. -/
theorem lists_unlock (hkeys : share.KeysRight keys)
    (hheld : ∀ d ∈ details :: links, share.Holds volumeId d)
    (hroot : details.link.id ≠ share.rootUid.linkId) (hparent : details.link.parentId = some p)
    (hkey : share.KeyOf ⟨volumeId, x⟩ key) (hdown : share.Down volumeId x chain p)
    (hpending : share.Pending task rest)
    (h : share.unlock keys task volumeId details links key chain = (keys', task')) :
    share.KeysRight keys' ∧
      share.Lists task' (task.nodes ++ (share.nodesOf volumeId (details :: links) ++ rest)) := by
  cases hdown with
  | here =>
      cases h
      exact ⟨hkeys, lists_resolved hheld (parentKey_below hroot hparent hkey) hpending⟩
  | @step _ _ below chain hbelow htop hup hrest =>
      obtain ⟨hlink, hreadable⟩ := hbelow
      -- The link at the top of the chain opens with the key of the node above it.
      obtain ⟨d, hopen⟩ : ∃ d, decryptLink key below.link = .ok d := by
        obtain ⟨above, habove, rfl⟩ := hkey
        cases hreadable with
        | root _ _ htop' _ => exact absurd htop' htop
        | child hlink' _ _ hup' habove' hopen _ =>
            cases hlink.symm.trans hlink'
            cases hup.symm.trans hup'
            cases habove.symm.trans habove'
            exact ⟨_, hopen⟩
      simp only [unlock, hopen] at h
      cases h
      have hkey' : share.KeyOf ⟨volumeId, below.link.id⟩ d.nodeKey :=
        ⟨below, hlink, (decryptLink_nodeKey hopen).symm⟩
      exact ⟨hkeys.put hkey', .reading (.unlocking hheld hroot hparent hkey' hrest) hpending⟩

/-! ## Pages and batches -/

/-- The links of one volume are grouped without loss. -/
theorem groupByVolume_flatMap {uids : List NodeUid} (h : ∀ uid ∈ uids, uid.volumeId = volumeId) :
    (Context.groupByVolume uids).flatMap Thumbnails.groupUids = uids := by
  obtain ⟨ids, rfl⟩ : ∃ ids : List LinkId, ids.map (NodeUid.mk volumeId) = uids := by
    refine ⟨uids.map NodeUid.linkId, ?_⟩
    rw [List.map_map]
    conv_rhs => rw [← List.map_id uids]
    apply List.map_congr_left
    intro uid huid
    show (⟨volumeId, uid.linkId⟩ : NodeUid) = uid
    rw [← h uid huid]
  by_cases hne : ids = []
  · rw [hne]
    rfl
  · rw [Context.groupByVolume_of_volume volumeId hne]
    exact List.flatMap_singleton _ _

/-- A page adds its own links, and what they open to, to what will come out. -/
theorem lists_takePage {folderUid : NodeUid} {answers : List FolderChildrenResponse}
    {uids : List NodeUid} (hvolume : ∀ uid ∈ uids, uid.volumeId = folderUid.volumeId)
    (hreadable : ∀ uid ∈ uids ++ readPages folderUid answers, share.Readable uid)
    (hends : ∃ page ∈ answers, page.next = none)
    (h : takePage ⟨.paging folderUid answers uids, [], .empty, []⟩ folderUid uids answers =
      some task') :
    share.Lists task' ((uids ++ readPages folderUid answers).filterMap share.node) := by
  cases answers with
  | nil => cases h
  | cons page answers =>
      have hvolume' : ∀ uid ∈ uids ++ page.linkIds.map (NodeUid.mk folderUid.volumeId),
          uid.volumeId = folderUid.volumeId := by
        intro uid huid
        rcases List.mem_append.mp huid with huid | huid
        · exact hvolume uid huid
        · obtain ⟨a, -, rfl⟩ := List.mem_map.mp huid
          rfl
      simp only [takePage] at h
      cases hnext : page.next with
      | some anchor =>
          rw [hnext] at h
          cases h
          -- More pages follow, so the last one is among the answers left.
          have hends' := exists_last_of_next hends hnext
          rw [readPages_of_next hnext, ← List.append_assoc] at hreadable ⊢
          exact .paging hvolume' hreadable hends'
      | none =>
          rw [hnext] at h
          cases h
          rw [readPages_of_next_none hnext] at hreadable ⊢
          -- The last page: what was collected is now grouped by volume.
          have hgroups := groupByVolume_flatMap hvolume'
          rw [← hgroups] at hreadable
          have hpending : share.Pending
              ⟨.fetching, Context.groupByVolume (uids ++ _), .empty, []⟩ _ :=
            ⟨[], .nil, fun _ h => absurd h List.not_mem_nil, hreadable, rfl⟩
          rw [hgroups] at hpending
          exact .reading .fetching hpending

/-- The links of one fetch open to the nodes that they have. -/
theorem nodesOf_fetch {ids : List LinkId} (h : ∀ a ∈ ids, share.Readable ⟨volumeId, a⟩) :
    share.nodesOf volumeId (share.fetchLinkDetails volumeId ids) =
      (ids.map (NodeUid.mk volumeId)).filterMap share.node := by
  induction ids with
  | nil => rfl
  | cons a ids ih =>
      obtain ⟨details, -, node, hlink, hid, -, -, hnode, -⟩ := (h a List.mem_cons_self).exists_node
      have hid' : details.link.id = a := hid
      have hrest := ih (fun a ha => h a (List.mem_cons_of_mem _ ha))
      unfold nodesOf fetchLinkDetails at hrest ⊢
      simp only [List.filterMap_cons, hlink, hid', hnode, List.map_cons, hrest]

/-- Every link of a fetch is one of the server's. -/
theorem holds_of_mem_fetch {ids : List LinkId} (h : ∀ a ∈ ids, share.Readable ⟨volumeId, a⟩)
    (hmem : details ∈ share.fetchLinkDetails volumeId ids) : share.Holds volumeId details := by
  obtain ⟨a, ha, hlink⟩ := List.mem_filterMap.mp hmem
  obtain ⟨details', -, -, hlink', hid, -⟩ := (h a ha).exists_node
  cases hlink.symm.trans hlink'
  have hid' : details.link.id = a := hid
  unfold Holds
  rw [hid']
  exact ⟨hlink, h a ha⟩

/-- A group is fetched in batches, whose links are those of the group. -/
theorem due_fetchGroup (group : VolumeId × List LinkId) :
    (share.fetchGroup group).Due share.KeysRight
      ((Context.chunks KeyWalk.maxBatchCount group.2).map
        (fun ids => (group.1, share.fetchLinkDetails group.1 ids))) := by
  apply Buffer.due_start
  rw [List.forall₂_map_left_iff, List.forall₂_map_right_iff, List.forall₂_same]
  intro ids _
  exact .poll (fun _ h => h) (fun _ _ => .ready _)

/-- Batch by batch, the nodes of a group. -/
theorem nodes_fetchGroup {chunks : List (List LinkId)}
    (h : ∀ ids ∈ chunks, ∀ a ∈ ids, share.Readable ⟨volumeId, a⟩) :
    (chunks.map (fun ids => (volumeId, share.fetchLinkDetails volumeId ids))).flatMap
        (fun batch => share.nodesOf batch.1 batch.2) =
      (chunks.flatten.map (NodeUid.mk volumeId)).filterMap share.node := by
  rw [List.flatMap_map, List.map_flatten, List.filterMap_flatten, List.map_map, List.flatMap_def]
  congr 1
  apply List.map_congr_left
  intro ids hids
  exact nodesOf_fetch (h ids hids)

/-- A batch that comes back replaces the one that was due. -/
theorem lists_takeBatch (hstage : task.stage = .fetching) (hpending : share.Pending task rest)
    (h : share.takeBatch task = some task') : share.Lists task' (task.nodes ++ ([] ++ rest)) := by
  obtain ⟨batches, hdue, hheld, hreadable, rfl⟩ := hpending
  unfold takeBatch at h
  cases hpop : task.responses.pop with
  | some p =>
      -- A batch that has arrived is built, node by node.
      obtain ⟨⟨volumeId, links⟩, responses⟩ := p
      rw [hpop] at h
      cases h
      obtain ⟨batches, rfl, hdue'⟩ := Buffer.pop_due hdue hpop
      rw [List.nil_append, List.flatMap_cons, List.append_assoc]
      have hcurrent := Current.building (hheld (volumeId, links) List.mem_cons_self)
      refine .reading hcurrent ⟨batches, hdue', ?_, hreadable, rfl⟩
      intro batch hbatch
      exact hheld batch (List.mem_cons_of_mem _ hbatch)
  | none =>
      rw [hpop] at h
      dsimp only at h
      split at h
      · cases h
      · next group groups hgroups =>
        split at h
        · -- The group is over, and the requests for the next one are made.
          next hover =>
          cases h
          cases hdue.over_iff.mp hover
          rw [hgroups, List.flatMap_cons] at hreadable ⊢
          have hflatten := Context.chunks_flatten (show 0 < KeyWalk.maxBatchCount by decide) group.2
          -- The batches hold ids of the group only, and these are all readable.
          have hids : ∀ ids ∈ Context.chunks KeyWalk.maxBatchCount group.2, ∀ a ∈ ids,
              share.Readable ⟨group.1, a⟩ := by
            intro ids hids a ha
            apply hreadable
            apply List.mem_append_left
            apply List.mem_map_of_mem
            rw [← hflatten]
            exact List.mem_flatten_of_mem hids ha
          refine .reading (by rw [hstage]; exact .fetching)
            ⟨_, due_fetchGroup group, ?_, ?_, ?_⟩
          · intro batch hbatch details hdetails
            obtain ⟨ids, hmem, rfl⟩ := List.mem_map.mp hbatch
            exact holds_of_mem_fetch (hids ids hmem) hdetails
          · intro uid huid
            exact hreadable uid (List.mem_append_right _ huid)
          · rw [nodes_fetchGroup hids, hflatten, List.filterMap_append]
            rfl
        · cases h

/-- An empty buffer makes no step. -/
theorem step_empty {n : Nat} (action : BufferAction) :
    (Buffer.empty : Buffer Keys (VolumeId × List LinkDetails)).step n keys action = none := by
  cases action with
  | take => rfl
  | poll i => rfl

/-- **One step** of a task keeps what it is going to return. -/
theorem lists_step {action : ListFolderAction} (hkeys : share.KeysRight keys)
    (h : share.Lists task all)
    (hstep : share.listFolder.step (keys, task) action = some (keys', task')) :
    share.KeysRight keys' ∧ share.Lists task' all := by
  simp only [listFolder] at hstep
  cases h with
  | @paging folderUid answers uids hvolume hreadable hends =>
      -- While the ids are paged, no request for links is under way.
      cases action with
      | fetch action =>
          simp only [listFolderStep, step_empty] at hstep
          cases hstep
      | advance =>
          obtain ⟨next, hpage, heq⟩ := Option.map_eq_some_iff.mp hstep
          cases heq
          exact ⟨hkeys, lists_takePage hvolume hreadable hends hpage⟩
  | @reading _ current rest hcurrent hpending =>
      cases action with
      -- A request that is started or answered leaves the walk where it is.
      | fetch action =>
          obtain ⟨batches, hdue, hheld, hgroups, hrest⟩ := hpending
          obtain ⟨⟨keys1, responses⟩, hfetch, heq⟩ := Option.map_eq_some_iff.mp hstep
          cases heq
          obtain ⟨hkeys', hdue'⟩ := Buffer.step_due hkeys hdue hfetch
          exact ⟨hkeys', .reading hcurrent ⟨batches, hdue', hheld, hgroups, hrest⟩⟩
      | advance =>
          simp only [listFolderStep] at hstep
          -- The walk goes on from the stage in which it is.
          generalize hstage : task.stage = stage at hcurrent hstep
          cases hcurrent with
          | fetching =>
              obtain ⟨next, hbatch, heq⟩ := Option.map_eq_some_iff.mp hstep
              cases heq
              exact ⟨hkeys, lists_takeBatch hstage hpending hbatch⟩
          | @building volumeId links hheld =>
              cases links with
              | nil =>
                  cases hstep
                  exact ⟨hkeys, .reading .fetching hpending⟩
              | cons details links =>
                  cases hstep
                  exact ⟨hkeys, lists_resolveParentKey hkeys hheld hpending⟩
          | climbing hheld hroot hparent hcursor hdown =>
              exact lists_climb hkeys hheld hroot hparent hcursor hdown hpending
                (Option.some.inj hstep)
          | unlocking hheld hroot hparent hkey hdown =>
              exact lists_unlock hkeys hheld hroot hparent hkey hdown hpending
                (Option.some.inj hstep)

/-- Along every run the list that will come out stays the same. -/
theorem lists_exec {actions : List ListFolderAction} (hkeys : share.KeysRight keys)
    (h : share.Lists task all)
    (hexec : share.listFolder.exec (keys, task) actions = some (keys', task')) :
    share.KeysRight keys' ∧ share.Lists task' all := by
  apply share.listFolder.exec_invariant (fun p => share.KeysRight p.1 ∧ share.Lists p.2 all) _
    (show share.KeysRight keys ∧ share.Lists task all from ⟨hkeys, h⟩) hexec
  rintro ⟨k, t⟩ action ⟨k', t'⟩ hinv hstep
  exact lists_step hinv.1 hinv.2 hstep

/-- **A task returns** what it was going to. -/
theorem Lists.result_eq {nodes : List Node} (h : share.Lists task all)
    (hresult : task.result = some nodes) : nodes = all := by
  unfold ListFolder.result at hresult
  split at hresult
  · next hstage hgroups =>
    split at hresult
    · next hover =>
      cases hresult
      cases h with
      | paging _ _ _ => cases hstage
      | reading hcurrent hpending =>
          obtain ⟨batches, hdue, -, -, rfl⟩ := hpending
          cases hdue.over_iff.mp hover
          rw [hstage] at hcurrent
          cases hcurrent
          rw [hgroups]
          exact (List.append_nil _).symm
    · cases hresult
  · cases hresult

/-! ## Progress -/

/-- The task can be run until it is at this stage, with what it reads as it is. -/
def Reaches (share : Share) (keys : Keys) (task : ListFolder) (stage : Stage) : Prop :=
  ∃ actions keys' nodes, share.listFolder.exec (keys, task) actions =
    some (keys', { task with stage := stage, nodes := nodes })

/-- A step, and then a run. -/
theorem Reaches.of_step {stage next : Stage} {nodes : List Node}
    (hstep : share.listFolder.step (keys, task) .advance =
      some (keys', { task with stage := next, nodes := nodes }))
    (h : share.Reaches keys' { task with stage := next, nodes := nodes } stage) :
    share.Reaches keys task stage := by
  obtain ⟨actions, keys'', nodes', hexec⟩ := h
  exact ⟨.advance :: actions, keys'', nodes',
    share.listFolder.exec_cons_iff.mpr ⟨_, hstep, hexec⟩⟩

/-- The listing is at the stage where it is. -/
theorem Reaches.refl {stage : Stage} (h : task.stage = stage) : share.Reaches keys task stage := by
  refine ⟨[], keys, task.nodes, ?_⟩
  rw [← h]
  rfl

/-- A resolved key leads to the next link, with the node if the key opened it. -/
theorem exists_resolved (share : Share) (task : ListFolder) (volumeId : VolumeId)
    (details : LinkDetails) (links : List LinkDetails) (r : Except ProtonError Key) :
    ∃ nodes, share.resolved task volumeId details links r =
      { task with stage := .building volumeId links, nodes := nodes } := by
  cases r with
  | error e => exact ⟨task.nodes, rfl⟩
  | ok key =>
      simp only [resolved]
      split
      · exact ⟨task.nodes, rfl⟩
      · exact ⟨_, rfl⟩

/-- A step that resolves the key has reached the next link. -/
theorem reaches_of_resolved {r : Except ProtonError Key}
    (h : share.listFolder.step (keys, task) .advance =
      some (keys', share.resolved task volumeId details links r)) :
    share.Reaches keys task (.building volumeId links) := by
  obtain ⟨nodes, hresolved⟩ := exists_resolved share task volumeId details links r
  rw [hresolved] at h
  exact .of_step h (.refl rfl)

/-- The way down comes to its end. -/
theorem reaches_of_unlocking (h : task.stage = .unlocking volumeId details links key chain) :
    share.Reaches keys task (.building volumeId links) := by
  have hstep : share.listFolder.step (keys, task) .advance =
      some (share.unlock keys task volumeId details links key chain) := by
    simp only [listFolder, listFolderStep, h]
  induction chain generalizing keys task key with
  | nil => exact reaches_of_resolved hstep
  | cons below chain ih =>
      simp only [unlock] at hstep
      split at hstep
      · exact reaches_of_resolved hstep
      · exact .of_step hstep (ih rfl (by simp only [listFolder, listFolderStep]))

/-- The way up comes to its end, below the shared root. -/
theorem reaches_of_climbing (hcursor : share.Readable uid)
    (h : task.stage = .climbing volumeId details links uid chain) :
    share.Reaches keys task (.building volumeId links) := by
  have hstep : share.listFolder.step (keys, task) .advance =
      some (share.climb keys task volumeId details links uid chain) := by
    simp only [listFolder, listFolderStep, h]
  unfold climb at hstep
  -- By induction on how the cursor is readable, one link further up each time.
  induction hcursor generalizing task chain with
  | @root uid above d hlink hid hroot hopen =>
      split at hstep
      · exact .of_step hstep (reaches_of_unlocking rfl)
      · rw [linkDetails_eq hlink] at hstep
        dsimp only at hstep
        rw [if_pos (hid.trans hroot), hopen] at hstep
        exact .of_step hstep (reaches_of_unlocking rfl)
  | @child uid above p parent d hlink hid hroot hparent habove hopen hrest ih =>
      split at hstep
      · exact .of_step hstep (reaches_of_unlocking rfl)
      · have hne : above.link.id ≠ share.rootUid.linkId := fun heq => hroot (hid.symm.trans heq)
        rw [linkDetails_eq hlink] at hstep
        dsimp only at hstep
        rw [if_neg hne, hparent] at hstep
        exact .of_step hstep (ih rfl (by simp only [listFolder, listFolderStep, climb]))

/-- One stage after the other. -/
theorem Reaches.trans {stage next : Stage} (h : share.Reaches keys task next)
    (hnext : ∀ keys' nodes, share.Reaches keys' { task with stage := next, nodes := nodes } stage) :
    share.Reaches keys task stage := by
  obtain ⟨actions, keys', nodes, hexec⟩ := h
  obtain ⟨actions', keys'', nodes', hexec'⟩ := hnext keys' nodes
  refine ⟨actions ++ actions', keys'', nodes', ?_⟩
  rw [share.listFolder.exec_append, hexec]
  exact hexec'

/-- The loop comes to the next link. -/
theorem reaches_next (hheld : share.Holds volumeId details)
    (h : task.stage = .building volumeId (details :: links)) :
    share.Reaches keys task (.building volumeId links) := by
  obtain ⟨hlink, hreadable⟩ := hheld
  have hstep : share.listFolder.step (keys, task) .advance =
      some (keys, share.resolveParentKey keys task volumeId details links) := by
    simp only [listFolder, listFolderStep, h]
  unfold resolveParentKey at hstep
  cases hreadable with
  | root hlink' hid hroot hopen =>
      rw [if_pos hroot] at hstep
      exact reaches_of_resolved hstep
  | child hlink' hid hroot hparent habove hopen hrest =>
      cases hlink.symm.trans hlink'
      rw [if_neg hroot, hparent] at hstep
      dsimp only at hstep
      split at hstep
      · exact reaches_of_resolved hstep
      · exact .of_step hstep (reaches_of_climbing hrest rfl)

/-- The loop over the links of a batch comes to its end. -/
theorem reaches_of_building (hheld : ∀ d ∈ links, share.Holds volumeId d)
    (h : task.stage = .building volumeId links) : share.Reaches keys task .fetching := by
  induction links generalizing keys task with
  | nil =>
      have hstep : share.listFolder.step (keys, task) .advance =
          some (keys, { task with stage := .fetching, nodes := task.nodes }) := by
        simp only [listFolder, listFolderStep, h]
      exact .of_step hstep (.refl rfl)
  | cons details links ih =>
      apply Reaches.trans (reaches_next (hheld details List.mem_cons_self) h)
      intro keys' nodes
      exact ih (fun d hd => hheld d (List.mem_cons_of_mem details hd)) rfl

/-- What the futures of the batches do, the task does. -/
theorem exec_fetch {actions : List BufferAction}
    {responses : Buffer Keys (VolumeId × List LinkDetails)}
    (h : Buffer.run Context.maxConcurrentDetailFetches keys task.responses actions =
      some (keys', responses)) :
    share.listFolder.exec (keys, task) (actions.map .fetch) =
      some (keys', { task with responses := responses }) := by
  induction actions generalizing keys task with
  | nil =>
      cases h
      rfl
  | cons action actions ih =>
      obtain ⟨⟨keys1, responses1⟩, hfetch, hrest⟩ := Option.bind_eq_some_iff.mp h
      have hstep : share.listFolder.step (keys, task) (.fetch action) =
          some (keys1, { task with responses := responses1 }) := by
        simp only [listFolder, listFolderStep, hfetch, Option.map_some]
      exact share.listFolder.exec_cons_iff.mpr ⟨_, hstep, ih hrest⟩

/-- The task can be run until it returns. -/
def CanFinish (share : Share) (keys : Keys) (task : ListFolder) : Prop :=
  ∃ actions keys' task', share.listFolder.exec (keys, task) actions = some (keys', task') ∧
    task'.result.isSome

/-- What can finish after some steps can finish before them. -/
theorem CanFinish.of_exec {actions : List ListFolderAction}
    (hexec : share.listFolder.exec (keys, task) actions = some (keys', task'))
    (h : share.CanFinish keys' task') : share.CanFinish keys task := by
  obtain ⟨actions', keys'', task'', hexec', hresult⟩ := h
  refine ⟨actions ++ actions', keys'', task'', ?_, hresult⟩
  rw [share.listFolder.exec_append, hexec]
  exact hexec'

/-- With batches to come, the next one is read to its end. -/
theorem canFinish_of_batches {batches : List (VolumeId × List LinkDetails)}
    (hkeys : share.KeysRight keys) (hlists : share.Lists task all) (hstage : task.stage = .fetching)
    (hdue : task.responses.Due share.KeysRight batches)
    (hheld : ∀ batch ∈ batches, ∀ d ∈ batch.2, share.Holds batch.1 d)
    (hlast : ∀ keys' task', share.KeysRight keys' → share.Lists task' all →
      task'.stage = .fetching → task'.groups = task.groups → task'.responses.Over →
      share.CanFinish keys' task') : share.CanFinish keys task := by
  -- By induction on the batches due, each of which is fetched and then built.
  induction batches generalizing keys task with
  | nil => exact hlast keys task hkeys hlists hstage rfl (hdue.over_iff.mpr rfl)
  | cons batch batches ih =>
      obtain ⟨volumeId, links⟩ := batch
      obtain ⟨actions, keys1, responses, hrun, rest, hpop⟩ :=
        Buffer.exists_pop (n := Context.maxConcurrentDetailFetches) (by decide) hkeys hdue
      obtain ⟨hkeys1, hdue1⟩ := Buffer.run_due hkeys hdue hrun
      obtain ⟨_, heq, hrest⟩ := Buffer.pop_due hdue1 hpop
      cases heq
      have hstep : share.listFolder.step (keys1, { task with responses := responses }) .advance =
          some (keys1, { task with responses := rest, stage := .building volumeId links }) := by
        simp only [listFolder, listFolderStep, hstage, takeBatch, hpop, Option.map_some]
      have hbuilding : share.Reaches keys1
          { task with responses := rest, stage := .building volumeId links } .fetching :=
        reaches_of_building (hheld (volumeId, links) List.mem_cons_self) rfl
      obtain ⟨actions', keys2, nodes, hexec⟩ := hbuilding
      have hall : share.listFolder.exec (keys, task)
          (actions.map .fetch ++ .advance :: actions') =
          some (keys2, { task with responses := rest, stage := .fetching, nodes := nodes }) := by
        rw [share.listFolder.exec_append, exec_fetch hrun]
        exact share.listFolder.exec_cons_iff.mpr ⟨_, hstep, hexec⟩
      -- The fetches first, then the step that takes the batch, then the building.
      obtain ⟨hkeys2, hlists2⟩ := lists_exec hkeys hlists hall
      apply CanFinish.of_exec hall
      exact ih hkeys2 hlists2 rfl hrest
        (fun batch hbatch => hheld batch (List.mem_cons_of_mem _ hbatch)) hlast

/-- What is still due is a list of batches with links that the share holds. -/
theorem Lists.exists_batches (h : share.Lists task all) (hstage : task.stage = .fetching) :
    ∃ batches, task.responses.Due share.KeysRight batches ∧
      ∀ batch ∈ batches, ∀ d ∈ batch.2, share.Holds batch.1 d := by
  cases h with
  | paging _ _ _ => cases hstage
  | reading hcurrent hpending =>
      obtain ⟨batches, hdue, hheld, -, -⟩ := hpending
      exact ⟨batches, hdue, hheld⟩

/-- The loop over the volumes comes to its end. -/
theorem canFinish_of_fetching (hkeys : share.KeysRight keys) (hlists : share.Lists task all)
    (hstage : task.stage = .fetching) : share.CanFinish keys task := by
  generalize hgroups : task.groups = groups
  -- By induction on the groups; the batches of one are emptied before the next is fetched.
  induction groups generalizing keys task with
  | nil =>
      obtain ⟨batches, hdue, hheld⟩ := hlists.exists_batches hstage
      apply canFinish_of_batches hkeys hlists hstage hdue hheld
      intro keys' task' _ _ hstage' hsame hover
      refine ⟨[], keys', task', rfl, ?_⟩
      simp only [ListFolder.result, hstage', hsame.trans hgroups, if_pos hover, Option.isSome_some]
  | cons group groups ih =>
      obtain ⟨batches, hdue, hheld⟩ := hlists.exists_batches hstage
      apply canFinish_of_batches hkeys hlists hstage hdue hheld
      intro keys' task' hkeys' hlists' hstage' hsame hover
      have hpop : task'.responses.pop = none := by
        unfold Buffer.pop
        rw [hover.2]
      have hstep : share.listFolder.step (keys', task') .advance =
          some (keys', { task' with groups := groups, responses := share.fetchGroup group }) := by
        simp only [listFolder, listFolderStep, hstage', takeBatch, hpop, hsame.trans hgroups,
          if_pos hover, Option.map_some]
      obtain ⟨hkeys1, hlists1⟩ := lists_step hkeys' hlists' hstep
      exact .of_exec (share.listFolder.exec_singleton hstep) (ih hkeys1 hlists1 hstage' rfl)

/-- The paging loop comes to its end. -/
theorem canFinish_of_paging {folderUid : NodeUid} {answers : List FolderChildrenResponse}
    {uids : List NodeUid} (hkeys : share.KeysRight keys)
    (hlists : share.Lists ⟨.paging folderUid answers uids, [], .empty, []⟩ all)
    (hends : ∃ page ∈ answers, page.next = none) :
    share.CanFinish keys ⟨.paging folderUid answers uids, [], .empty, []⟩ := by
  -- The pages are finitely many and one of them is the last.
  induction answers generalizing uids with
  | nil =>
      obtain ⟨page, hpage, -⟩ := hends
      cases hpage
  | cons page answers ih =>
      have hstep : share.listFolder.step
          (keys, ⟨.paging folderUid (page :: answers) uids, [], .empty, []⟩) .advance =
          (takePage ⟨.paging folderUid (page :: answers) uids, [], .empty, []⟩ folderUid uids
            (page :: answers)).map (keys, ·) := rfl
      simp only [takePage] at hstep
      cases hnext : page.next with
      | none =>
          rw [hnext] at hstep
          obtain ⟨hkeys1, hlists1⟩ := lists_step hkeys hlists hstep
          exact .of_exec (share.listFolder.exec_singleton hstep)
            (canFinish_of_fetching hkeys1 hlists1 rfl)
      | some anchor =>
          rw [hnext] at hstep
          obtain ⟨hkeys1, hlists1⟩ := lists_step hkeys hlists hstep
          have hends' := exists_last_of_next hends hnext
          exact .of_exec (share.listFolder.exec_singleton hstep) (ih hlists1 hends')

/-- **Every task** can be run until it returns. -/
theorem Lists.canFinish (hkeys : share.KeysRight keys) (h : share.Lists task all) :
    share.CanFinish keys task := by
  -- From the stage between two batches the walk can finish; the others lead there.
  have hfetching : share.Reaches keys task .fetching → share.CanFinish keys task := by
    rintro ⟨actions, keys', nodes, hexec⟩
    obtain ⟨hkeys', hlists'⟩ := lists_exec hkeys h hexec
    exact .of_exec hexec (canFinish_of_fetching hkeys' hlists' rfl)
  have hlists := h
  cases h with
  | paging _ _ hends => exact canFinish_of_paging hkeys hlists hends
  | reading hcurrent hpending =>
      apply hfetching
      generalize hstage : task.stage = stage at hcurrent
      cases hcurrent with
      | fetching => exact .refl hstage
      | building hheld => exact reaches_of_building hheld hstage
      | climbing hheld _ _ hcursor _ =>
          apply Reaches.trans (reaches_of_climbing hcursor hstage)
          intro keys' nodes
          exact reaches_of_building (fun d hd => hheld d (List.mem_cons_of_mem _ hd)) rfl
      | unlocking hheld _ _ _ _ =>
          apply Reaches.trans (reaches_of_unlocking hstage)
          intro keys' nodes
          exact reaches_of_building (fun d hd => hheld d (List.mem_cons_of_mem _ hd)) rfl

/-- **The task of a folder**, whatever else runs with it. -/
theorem settles (share : Share) :
    TaskStream.Settles share.listFolder ListFolder.result share.KeysRight share.Lists where
  step := lists_step
  returns := Lists.result_eq
  ends := by
    intro keys task all hkeys hlists
    obtain ⟨actions, keys', task', hexec, hresult⟩ := hlists.canFinish hkeys
    obtain ⟨nodes, hnodes⟩ := Option.isSome_iff_exists.mp hresult
    refine ⟨actions, keys', task', hexec, ?_⟩
    rw [hnodes, (lists_exec hkeys hlists hexec).2.result_eq hnodes]

/-- At the start everything readable is still to come. -/
theorem lists_start {folderUid : NodeUid}
    (h : ∀ uid ∈ (share.listing folderUid).read folderUid, share.Readable uid) :
    share.Lists (.start share folderUid)
      (((share.listing folderUid).read folderUid).filterMap share.node) := by
  apply Lists.paging _ h (share.listing folderUid).exists_next_eq_none
  intro uid huid
  cases huid

/-! ## A task alone -/

/-- Where a task is after the way up. -/
def climbed (share : Share) (task : ListFolder) (volumeId : VolumeId) (details : LinkDetails)
    (links : List LinkDetails) : Except ProtonError (Key × List LinkDetails) → ListFolder
  | .error e => share.resolved task volumeId details links (.error e)
  | .ok (key, chain) => { task with stage := .unlocking volumeId details links key chain }

/-- What is resolved does not depend on the stage before it. -/
theorem resolved_stage (stage : Stage) (r : Except ProtonError Key) :
    share.resolved { task with stage := stage } volumeId details links r =
      share.resolved task volumeId details links r := by
  cases r with
  | error e => rfl
  | ok key => simp only [resolved]

/-- Where the climb ends does not depend on the stage before it. -/
theorem climbed_stage (stage : Stage) (r : Except ProtonError (Key × List LinkDetails)) :
    share.climbed { task with stage := stage } volumeId details links r =
      share.climbed task volumeId details links r := by
  cases r with
  | error e => rfl
  | ok top => rfl

/-- A climb that nobody disturbs ends as `climb` does. -/
theorem climb_alone {fuel : Nat} {outcome : Outcome (Key × List LinkDetails)}
    (hstage : task.stage = .climbing volumeId details links uid chain)
    (h : (share.env keys).climb fuel uid chain = some outcome) :
    ∃ actions, share.listFolder.exec (keys, task) actions =
      some (keys.putAll outcome.1, share.climbed task volumeId details links outcome.2) := by
  induction fuel generalizing task uid chain with
  | zero => cases h
  | succ fuel ih =>
      have hstep : share.listFolder.step (keys, task) .advance =
          some (share.climb keys task volumeId details links uid chain) := by
        simp only [listFolder, listFolderStep, hstage]
      unfold climb at hstep
      unfold Env.climb at h
      rw [env_nodeKeys] at h
      split at h
      · -- A cached key, in the sequential climb and in the step alike.
        next key hcached =>
        cases h
        rw [hcached] at hstep
        exact ⟨_, share.listFolder.exec_singleton hstep⟩
      · next hcached =>
        rw [hcached] at hstep
        dsimp only at hstep
        split at h
        · -- The link was not served, and both fail with the same error.
          next e hlink =>
          cases h
          rw [hlink] at hstep
          exact ⟨_, share.listFolder.exec_singleton hstep⟩
        · next above hlink =>
          rw [hlink] at hstep
          dsimp only at hstep
          rw [env_rootUid, env_shareKey] at h
          split at h
          · -- The top of the share: its link opens with the share's key, or both fail.
            next htop =>
            rw [if_pos htop] at hstep
            cases hopen : decryptLink share.shareKey above.link with
            | error e =>
                rw [hopen] at h hstep
                cases h
                exact ⟨_, share.listFolder.exec_singleton hstep⟩
            | ok d =>
                rw [hopen] at h hstep
                cases h
                exact ⟨_, share.listFolder.exec_singleton hstep⟩
          · next htop =>
            rw [if_neg htop] at hstep
            split at h
            · -- A link without a parent is an error in both.
              next hup =>
              rw [hup] at hstep
              cases h
              exact ⟨_, share.listFolder.exec_singleton hstep⟩
            · -- One link further up, by the induction hypothesis.
              next p hup =>
              rw [hup] at hstep
              obtain ⟨actions, hexec⟩ := @ih { task with
                stage := .climbing volumeId details links ⟨uid.volumeId, p⟩ (above :: chain) } _ _
                  rfl h
              rw [climbed_stage] at hexec
              exact ⟨_, share.listFolder.exec_cons_iff.mpr ⟨_, hstep, hexec⟩⟩

/-- Keys found before the way down stay in front. -/
theorem descend_puts (puts : List (NodeUid × Key)) :
    descend volumeId (puts, .ok (key, chain)) =
      (puts ++ (descend volumeId ([], .ok (key, chain))).1,
        (descend volumeId ([], .ok (key, chain))).2) := rfl

/-- A link that does not open ends the way down. -/
theorem descend_error {above : LinkDetails} {e : ProtonError}
    (h : decryptLink key above.link = .error e) :
    descend volumeId ([], .ok (key, above :: chain)) = ([], .error e) := by
  simp [descend, KeyWalk.unlockDown, h]

/-- A link that opens gives the key for the next one. -/
theorem descend_ok {above : LinkDetails} {d : DecryptedLink}
    (h : decryptLink key above.link = .ok d) :
    descend volumeId ([], .ok (key, above :: chain)) =
      ((⟨volumeId, above.link.id⟩, d.nodeKey) ::
        (descend volumeId ([], .ok (d.nodeKey, chain))).1,
        (descend volumeId ([], .ok (d.nodeKey, chain))).2) := by
  simp [descend, KeyWalk.unlockDown, h]

/-- A way down that nobody disturbs ends as `descend` does. -/
theorem unlock_alone (share : Share) (keys : Keys)
    (hstage : task.stage = .unlocking volumeId details links key chain) :
    ∃ actions, share.listFolder.exec (keys, task) actions =
      some (keys.putAll (descend volumeId ([], .ok (key, chain))).1,
        share.resolved task volumeId details links
          (descend volumeId ([], .ok (key, chain))).2) := by
  have hstep : share.listFolder.step (keys, task) .advance =
      some (share.unlock keys task volumeId details links key chain) := by
    simp only [listFolder, listFolderStep, hstage]
  -- The chain is walked down key by key; a link that does not open stops both.
  induction chain generalizing keys task key with
  | nil => exact ⟨_, share.listFolder.exec_singleton hstep⟩
  | cons above chain ih =>
      simp only [unlock] at hstep
      cases hopen : decryptLink key above.link with
      | error e =>
          rw [hopen] at hstep
          rw [descend_error hopen]
          exact ⟨_, share.listFolder.exec_singleton hstep⟩
      | ok d =>
          rw [hopen] at hstep
          rw [descend_ok hopen]
          obtain ⟨actions, hexec⟩ := @ih { task with
            stage := .unlocking volumeId details links d.nodeKey chain } _
              (keys.put ⟨volumeId, above.link.id⟩ d.nodeKey) rfl rfl
          rw [resolved_stage] at hexec
          exact ⟨_, share.listFolder.exec_cons_iff.mpr ⟨_, hstep, hexec⟩⟩

/-- **By itself** a task that loads a key does what `node_key` does. -/
theorem nodeKey_alone {fuel : Nat} {outcome : Outcome Key}
    (hstage : task.stage = .climbing volumeId details links ⟨volumeId, p⟩ [])
    (hcached : keys ⟨volumeId, p⟩ = none)
    (h : (share.env keys).nodeKey fuel ⟨volumeId, p⟩ = some outcome) :
    ∃ actions, share.listFolder.exec (keys, task) actions =
      some (keys.putAll outcome.1, share.resolved task volumeId details links outcome.2) := by
  unfold Env.nodeKey at h
  -- No key is cached for the parent, so the walk is a climb and the way back down.
  rw [env_nodeKeys, hcached] at h
  obtain ⟨⟨puts, top⟩, hclimb, rfl⟩ := Option.map_eq_some_iff.mp h
  obtain ⟨actions, hexec⟩ := climb_alone hstage hclimb
  cases top with
  | error e => exact ⟨actions, hexec⟩
  | ok top =>
      obtain ⟨key, chain⟩ := top
      obtain ⟨actions', hexec'⟩ := @unlock_alone { task with
        stage := .unlocking volumeId details links key chain } _ _ _ _ _ share (keys.putAll puts)
          rfl
      refine ⟨actions ++ actions', ?_⟩
      rw [resolved_stage] at hexec'
      rw [share.listFolder.exec_append, hexec, descend_puts, Keys.putAll_append]
      exact hexec'

end Share

end PublicLink

end ProtonDrive
