import ProtonDrive.Drive.DraftRace
import ProtonDrive.Drive.Requests

/-!
# Creating and copying nodes

The requests of `create_folder`, `create_file_draft` and `copy_node`, and the links that the server
makes of them. Node keys, hash keys and session keys are chosen at random, and are arguments here.
-/

namespace ProtonDrive

open OpenPgp

/-! ## Secrets -/

/-- A new node key, locked with its passphrase. -/
structure GeneratedNodeKey where
  key : Key
  lockedArmored : LockedKey
  passphrase : Bytes
  unlocks : fromArmored lockedArmored passphrase = .ok key
  deriving DecidableEq, Repr

/-- What a new folder needs, with a session key for each message. -/
structure FolderSecrets where
  node : GeneratedNodeKey
  hashKey : Bytes
  nameSession : Session
  passphraseSession : Session
  hashKeySession : Session
  attributesSession : Session
  deriving DecidableEq, Repr

structure FileSecrets where
  node : GeneratedNodeKey
  contentKey : Session
  nameSession : Session
  passphraseSession : Session
  deriving DecidableEq, Repr

/-- The hash key of a folder, encrypted to and signed by its own node key. -/
def generateNodeHashKey (nodeKey : Key) (session : Session) (bytes : Bytes) : Message :=
  encryptAndSign nodeKey nodeKey session bytes

/-! ## Requests -/

structure FolderCreationRequest where
  name : Message
  nameHash : NameHash
  parentLinkId : LinkId
  passphrase : Message
  passphraseSignature : Signature
  key : LockedKey
  nodeHashKey : Message
  signatureEmail : String
  extendedAttributes : Option Message
  deriving DecidableEq, Repr

structure FileCreationRequest where
  name : Message
  nameHash : NameHash
  parentLinkId : LinkId
  passphrase : Message
  passphraseSignature : Signature
  key : LockedKey
  mediaType : String
  contentKeyPacket : Message
  contentKeySignature : Signature
  signatureAddress : String
  clientUid : Option String
  intendedUploadSize : Int
  deriving DecidableEq, Repr

structure CopyLinkRequest where
  targetVolumeId : VolumeId
  targetParentLinkId : LinkId
  passphrase : Message
  passphraseSignature : Option Signature
  signatureEmail : Option String
  name : Message
  nameSignatureEmail : String
  nameHash : NameHash
  deriving DecidableEq, Repr

/-- What an upload says about the file it creates. -/
structure FileDraftSpec where
  parentUid : NodeUid
  name : Bytes
  mediaType : String
  intendedUploadSize : Int
  clientUid : String
  overrideExistingDraft : Bool
  deriving DecidableEq, Repr

namespace Context

variable (c : Context)

/-- The request of a `create_folder`. `attributes` is the JSON of the modification time, if there is
one. -/
def folderCreationRequest (parentUid : NodeUid) (name : Bytes) (attributes : Option Bytes)
    (secrets : FolderSecrets) : Call FolderCreationRequest := do
  .ofExcept (validateNodeName name)
  let parentKey ← c.folderNodeKey parentUid
  let hashKey ← parentHashKey parentUid parentKey
  let (email, signingKey) ← .ofExcept c.membershipAddress
  let node := secrets.node
  return {
    name := encryptAndSign parentKey signingKey secrets.nameSession name
    nameHash := c.hmacName hashKey name
    parentLinkId := parentUid.linkId
    passphrase := encrypt parentKey secrets.passphraseSession node.passphrase
    passphraseSignature := signDetached signingKey node.passphrase
    key := node.lockedArmored
    nodeHashKey := generateNodeHashKey node.key secrets.hashKeySession secrets.hashKey
    signatureEmail := email
    extendedAttributes :=
      attributes.map (encryptAndSign node.key signingKey secrets.attributesSession) }

/-- The request of a `create_file_draft`. The name of a file is not checked. -/
def fileCreationRequest (spec : FileDraftSpec) (secrets : FileSecrets) :
    Call FileCreationRequest := do
  let parentKey ← c.folderNodeKey spec.parentUid
  let hashKey ← parentHashKey spec.parentUid parentKey
  let (email, signingKey) ← .ofExcept c.membershipAddress
  let node := secrets.node
  return {
    name := encryptAndSign parentKey signingKey secrets.nameSession spec.name
    nameHash := c.hmacName hashKey spec.name
    parentLinkId := spec.parentUid.linkId
    passphrase := encrypt parentKey secrets.passphraseSession node.passphrase
    passphraseSignature := signDetached signingKey node.passphrase
    key := node.lockedArmored
    mediaType := spec.mediaType
    contentKeyPacket := [.pkesk node.key secrets.contentKey]
    contentKeySignature := signDetached node.key (c.account.exportKey secrets.contentKey)
    signatureAddress := email
    clientUid := some spec.clientUid
    intendedUploadSize := spec.intendedUploadSize }

/-- The request of a `copy_node`. -/
def copyRequest (uid newParent : NodeUid) (name : Option Bytes) (session : Session) :
    Call CopyLinkRequest := do
  .ofExcept (match name with | some name => validateNodeName name | none => .ok ())
  let link ← fetchLink uid (nodeNotFound uid)
  let destParentKey ← c.folderNodeKey newParent
  let destHashKey ← parentHashKey newParent destParentKey
  let (email, signingKey) ← .ofExcept c.membershipAddress
  let parts ← c.buildMoveParts uid link name destParentKey destHashKey signingKey session
  return {
    targetVolumeId := newParent.volumeId
    targetParentLinkId := newParent.linkId
    passphrase := parts.passphrase
    passphraseSignature := parts.anonymousSignature
    signatureEmail := parts.anonymousSignature.map (fun _ => email)
    name := parts.encryptedName
    nameSignatureEmail := email
    nameHash := parts.nameHash }

/-- The errors of a draft that conflicted once too often. -/
def keptConflicting : ProtonError :=
  .invalidOperation "file draft creation kept conflicting after retries"

end Context

/-! ## The server -/

/-- What the server adds to a link it creates. -/
structure Stamp where
  linkId : LinkId
  creationTime : Int
  modificationTime : Int
  deriving DecidableEq, Repr

/-- `LinkState::Draft` and `LinkState::Active`. -/
def stateDraft : Int := 0

def stateActive : Int := 1

def FolderCreationRequest.details (request : FolderCreationRequest) (stamp : Stamp) :
    LinkDetails where
  link := {
    id := stamp.linkId
    parentId := some request.parentLinkId
    name := request.name
    nameHash := some request.nameHash
    key := request.key
    passphrase := request.passphrase
    passphraseSignature := some request.passphraseSignature
    signatureEmail := some request.signatureEmail
    nameSignatureEmail := some request.signatureEmail
    hashKey := some request.nodeHashKey }
  linkType := 1
  state := stateActive
  creationTime := stamp.creationTime
  modificationTime := stamp.modificationTime
  trashTime := none
  trashedLegacy := none
  file := none
  photo := none
  album := none
  sharing := none
  membership := none

def FileCreationRequest.details (request : FileCreationRequest) (stamp : Stamp) :
    LinkDetails where
  link := {
    id := stamp.linkId
    parentId := some request.parentLinkId
    name := request.name
    nameHash := some request.nameHash
    key := request.key
    passphrase := request.passphrase
    passphraseSignature := some request.passphraseSignature
    signatureEmail := some request.signatureAddress
    nameSignatureEmail := some request.signatureAddress
    hashKey := none }
  linkType := 2
  state := stateDraft
  creationTime := stamp.creationTime
  modificationTime := stamp.modificationTime
  trashTime := none
  trashedLegacy := none
  file := some ⟨request.mediaType, 0, some request.contentKeyPacket,
    some request.contentKeySignature, none⟩
  photo := none
  album := none
  sharing := none
  membership := none

/-- The draft becomes a file with an active revision. -/
def LinkDetails.seal (revision : ActiveRevisionDto) (size : Int) (d : LinkDetails) : LinkDetails :=
  { d with
    state := stateActive
    file := d.file.map (fun file =>
      { file with activeRevision := some revision, totalSizeOnStorage := size }) }

/-- The copy of a node that a request is about. -/
def LinkDetails.copyTo (request : CopyLinkRequest) (copy : LinkId) (d : LinkDetails) : LinkDetails :=
  { d with
    link := { d.link with
      id := copy
      parentId := some request.targetParentLinkId
      passphrase := request.passphrase
      passphraseSignature := request.passphraseSignature <|> d.link.passphraseSignature
      signatureEmail := request.signatureEmail <|> d.link.signatureEmail
      name := request.name
      nameHash := some request.nameHash
      nameSignatureEmail := some request.nameSignatureEmail } }

/-- The copy of a node below it. -/
def LinkDetails.copyBelow (copy parent : LinkId) (d : LinkDetails) : LinkDetails :=
  { d with link := { d.link with id := copy, parentId := some parent } }

end ProtonDrive
