import ProtonDrive.Lib.Machine
import ProtonDrive.Drive.KeyTree

/-!
# Writes to the tree

The `create_folder`, `upload_file_from`, `rename_node`, `move_node`, `move_nodes` and `copy_node`
calls of one client. The server stores the fields as sent and keeps those that a request leaves out.
Whether it does so, and what it answers, are arguments of a call; the two are independent, since an
answer can get lost.

* `Tree` — the world, with what each node was created with and the name it was last given.
* `send` — the shape of a call that makes one request.
* `treeCalls` — the machine that takes any sequence of such calls.
-/

namespace ProtonDrive

open OpenPgp

/-! ## Trees -/

/-- A world, what each node was created with, and its name. Births stay when a node is deleted,
since ids are not given out twice. -/
structure Tree where
  world : World
  birth : NodeUid → Option Birth
  given : NodeUid → Bytes

/-- The server adds a node, under an id it has not used before. -/
def Tree.add (t : Tree) (uid : NodeUid) (details : LinkDetails) (b : Birth) (name : Bytes) : Tree :=
  if (t.birth uid).isSome then t
  else
    { world := t.world.setLink uid (some details)
      birth := Function.update t.birth uid (some b)
      given := Function.update t.given uid name }

/-- The server creates a link for a request, if it does. -/
def Tree.store (t : Tree) (volumeId : VolumeId) (stored : Option Stamp)
    (details : Stamp → LinkDetails) (node : GeneratedNodeKey) (name : Bytes) : Tree :=
  match stored with
  | none => t
  | some stamp =>
      t.add ⟨volumeId, stamp.linkId⟩ (details stamp) ⟨node.passphrase, node.key⟩ name

/-- The server deletes a draft. A draft is a file: only folders have a hash key. -/
def Tree.deleteDraft (t : Tree) (uid : NodeUid) : Tree :=
  match t.world.server uid with
  | some details =>
      if details.link.hashKey.isNone then { t with world := t.world.setLink uid none } else t
  | none => t

def Tree.rename (t : Tree) (uid : NodeUid) (request : Context.RenameLinkRequest) (newName : Bytes) :
    Tree :=
  { t with
    world := t.world.updateLink uid (LinkDetails.rename request)
    given := Function.update t.given uid newName }

def Tree.updateLink (t : Tree) (uid : NodeUid) (f : LinkDetails → LinkDetails) : Tree :=
  { t with world := t.world.updateLink uid f }

/-- Copy nodes from one volume into another, each below the copy of its parent. `copies` names nodes
and the ids of their copies, parents first; `made` are those made so far. A node whose parent has
not been copied is left out. -/
def Tree.copyBelow (source target : VolumeId) : (copies made : List (LinkId × LinkId)) → Tree → Tree
  | [], _, t => t
  | (a, copy) :: copies, made, t =>
      match t.world.server ⟨source, a⟩, t.birth ⟨source, a⟩ with
      | some details, some b =>
          match details.link.parentId.bind (fun p => made.lookup p) with
          | some parent =>
              if (t.birth ⟨target, copy⟩).isSome then copyBelow source target copies made t
              else
                copyBelow source target copies ((a, copy) :: made)
                  (t.add ⟨target, copy⟩ (details.copyBelow copy parent) b (t.given ⟨source, a⟩))
          | none => copyBelow source target copies made t
      | _, _ => copyBelow source target copies made t

/-- Copy a node with what is below it. -/
def Tree.copy (t : Tree) (uid : NodeUid) (request : CopyLinkRequest) (name : Option Bytes)
    (copy : LinkId) (copies : List (LinkId × LinkId)) : Tree :=
  match t.world.server uid, t.birth uid with
  | some details, some b =>
      if (t.birth ⟨request.targetVolumeId, copy⟩).isSome then t
      else
        (t.add ⟨request.targetVolumeId, copy⟩ (details.copyTo request copy) b
          (name.getD (t.given uid))).copyBelow uid.volumeId request.targetVolumeId copies
            [(uid.linkId, copy)]
  | _, _ => t

/-! ## Calls -/

/-- What the server has done with a request, and its answer. -/
structure Reply where
  applied : Bool
  result : Except ProtonError Unit

structure CreationReply where
  stored : Option Stamp
  result : Except ProtonError LinkId

/-- The answer to one attempt at a draft, with the details of a conflict, and the answer to the
deletion that may follow. -/
structure DraftReply where
  stored : Option Stamp
  result : Except ProtonError LinkId
  conflict : Option (DraftRace.RevisionConflict String)
  deletion : Reply

structure SealReply where
  stored : Option (ActiveRevisionDto × Int)
  result : Except ProtonError Unit

/-- The id of the copy, and of the copies of what is below it. -/
structure CopyReply where
  stored : Option (LinkId × List (LinkId × LinkId))
  result : Except ProtonError LinkId

/-- A call that writes. -/
abbrev Write (α : Type) := Program Tree ProtonError α

/-- A call of the layer below. -/
def onWorld {α : Type} (x : Call α) : Write α where
  run t := (x.run t.world).map (fun p => ({ t with world := p.1 }, p.2))

/-- Build a request, let the server do its part, and return its answer. -/
def send {ρ α : Type} (x : Call ρ) (effect : ρ → Tree → Tree) (result : Except ProtonError α) :
    Write α := do
  let request ← onWorld x
  .modify (effect request)
  .ofExcept result

namespace Context

variable (c : Context)

def createFolder (parentUid : NodeUid) (name : Bytes) (attributes : Option Bytes)
    (secrets : FolderSecrets) (reply : CreationReply) : Write NodeUid :=
  send (c.folderCreationRequest parentUid name attributes secrets)
    (fun request t =>
      t.store parentUid.volumeId reply.stored request.details secrets.node name)
    (reply.result.map (fun link => ⟨parentUid.volumeId, link⟩))

/-- The attempts of `create_file_draft`. A draft of its own, or of anyone when overriding, that
holds the name is deleted. -/
def createFileDraft (spec : FileDraftSpec) (secrets : FileSecrets) (request : FileCreationRequest) :
    (attempts : Nat) → List DraftReply → Write LinkId
  | 0, _ => .ofExcept (.error keptConflicting)
  | _ + 1, [] => ⟨fun _ => none⟩
  | attempts + 1, reply :: replies => do
      let volumeId := spec.parentUid.volumeId
      .modify (fun t => t.store volumeId reply.stored request.details secrets.node spec.name)
      match reply.result with
      | .ok link => return link
      | .error (.api e) =>
          let stale := reply.conflict.bind
            (DraftRace.staleDraft ⟨spec.clientUid, spec.overrideExistingDraft⟩)
          match (if e.code = .alreadyExists then stale else none) with
          | some link =>
              .modify (fun t => if reply.deletion.applied then t.deleteDraft ⟨volumeId, link⟩ else t)
              .ofExcept reply.deletion.result
              createFileDraft spec secrets request attempts replies
          | none => .ofExcept (.error (.api e))
      | .error e => .ofExcept (.error e)

/-- Create the draft, write the blocks and seal the revision. `sealing` is how the latter two
end. -/
def uploadFileFrom (spec : FileDraftSpec) (secrets : FileSecrets) (replies : List DraftReply)
    (sealing : SealReply) : Write NodeUid := do
  let request ← onWorld (c.fileCreationRequest spec secrets)
  let link ← createFileDraft spec secrets request DraftRace.MAX_DRAFT_ATTEMPTS replies
  let uid : NodeUid := ⟨spec.parentUid.volumeId, link⟩
  .modify (fun t =>
    match sealing.stored with
    | some (revision, size) => t.updateLink uid (LinkDetails.seal revision size)
    | none => t)
  .ofExcept (sealing.result.map (fun _ => uid))

def renameNode (uid : NodeUid) (newName : Bytes) (newMediaType : Option String) (session : Session)
    (reply : Reply) : Write Unit :=
  send (c.renameRequest uid newName newMediaType session)
    (fun request t => if reply.applied then t.rename uid request newName else t) reply.result

def moveNode (uid newParent : NodeUid) (session : Session) (reply : Reply) : Write Unit :=
  send (c.moveRequest uid newParent session)
    (fun request t => if reply.applied then t.updateLink uid (LinkDetails.move request) else t)
    reply.result

def copyNode (uid newParent : NodeUid) (name : Option Bytes) (session : Session)
    (reply : CopyReply) : Write NodeUid :=
  send (c.copyRequest uid newParent name session)
    (fun request t =>
      match reply.stored with
      | some (copy, copies) => t.copy uid request name copy copies
      | none => t)
    (reply.result.map (fun link => ⟨newParent.volumeId, link⟩))

end Context

inductive TreeCall where
  | createFolder (parentUid : NodeUid) (name : Bytes) (attributes : Option Bytes)
      (secrets : FolderSecrets) (reply : CreationReply)
  | uploadFileFrom (spec : FileDraftSpec) (secrets : FileSecrets) (replies : List DraftReply)
      (sealing : SealReply)
  | renameNode (uid : NodeUid) (newName : Bytes) (newMediaType : Option String) (session : Session)
      (reply : Reply)
  | moveNode (uid newParent : NodeUid) (session : Session) (reply : Reply)
  | moveNodes (uids : List NodeUid) (newParent : NodeUid) (sessions : NodeUid → Session)
      (replies : List BatchReply)
  | copyNode (uid newParent : NodeUid) (name : Option Bytes) (session : Session)
      (reply : CopyReply)

namespace Context

variable (c : Context)

/-- A call is taken if it returns, in whatever way. -/
def treeStep (t : Tree) : TreeCall → Option Tree
  | .createFolder parentUid name attributes secrets reply =>
      ((c.createFolder parentUid name attributes secrets reply).run t).map Prod.fst
  | .uploadFileFrom spec secrets replies sealing =>
      ((c.uploadFileFrom spec secrets replies sealing).run t).map Prod.fst
  | .renameNode uid newName newMediaType session reply =>
      ((c.renameNode uid newName newMediaType session reply).run t).map Prod.fst
  | .moveNode uid newParent session reply =>
      ((c.moveNode uid newParent session reply).run t).map Prod.fst
  | .moveNodes uids newParent sessions replies =>
      ((onWorld (c.moveNodes uids newParent sessions replies)).run t).map Prod.fst
  | .copyNode uid newParent name session reply =>
      ((c.copyNode uid newParent name session reply).run t).map Prod.fst

def treeCalls : Machine Tree TreeCall := ⟨c.treeStep⟩

end Context

end ProtonDrive
