import ProtonDrive.Drive.Link

/-!
# Nodes

The link details of a node as the server sends them, the decrypted `Node` a caller gets, and how the
one is made of the other. A build is `full` or `light`; a light build of a file leaves the file's
own key locked, and with it everything that only this key can read.

* `decryptNode` — the pure part of `build_node_ctx`: what it decrypts, without its caches.
* `LightSuffices` — the node key of a link has nothing to add to a light build.
* `decryptNode_full_eq_light` — it is so exactly when the two builds return the same.
-/

namespace ProtonDrive

open OpenPgp

/-! ## Link details -/

inductive LinkType where
  | folder
  | file
  | album
  | unknown
  deriving DecidableEq, Repr

def LinkType.fromRaw (raw : Int) : LinkType :=
  if raw = 1 then .folder else if raw = 2 then .file else if raw = 3 then .album else .unknown

structure ActiveRevisionDto where
  id : String
  state : Option Int
  extendedAttributes : Option Message
  signatureEmail : Option String
  deriving DecidableEq, Repr

structure FileDto where
  mediaType : String
  totalSizeOnStorage : Int
  /-- The packet after base64; one that does not decode is no message at all. -/
  contentKeyPacket : Option Message
  contentKeySignature : Option Signature
  activeRevision : Option ActiveRevisionDto
  deriving DecidableEq, Repr

structure PhotoDto where
  file : FileDto
  captureTime : Int
  contentHash : Option String
  mainPhotoLinkId : Option LinkId
  relatedPhotoLinkIds : List LinkId
  tags : List Int
  albumInclusions : List LinkId
  deriving DecidableEq, Repr

structure AlbumDto where
  photoCount : Int
  coverLinkId : Option LinkId
  lastActivityTime : Int
  deriving DecidableEq, Repr

structure LinkSharingDto where
  shareId : String
  shareUrlId : Option String
  deriving DecidableEq, Repr

structure ShareMembershipSummaryDto where
  shareId : String
  membershipId : String
  permissions : Int
  inviteTime : Option Int
  inviterEmail : Option String
  /-- `some none` is a packet that does not decode. -/
  memberSharePassphraseKeyPacket : Option (Option Bytes)
  inviterSharePassphraseKeyPacketSignature : Option ContextSignature
  deriving DecidableEq, Repr

structure LinkDetails where
  link : Link
  linkType : Int
  state : Int
  creationTime : Int
  modificationTime : Int
  trashTime : Option Int
  trashedLegacy : Option Int
  file : Option FileDto
  photo : Option PhotoDto
  album : Option AlbumDto
  sharing : Option LinkSharingDto
  membership : Option ShareMembershipSummaryDto
  deriving DecidableEq, Repr

def LinkDetails.parsedType (d : LinkDetails) : LinkType := .fromRaw d.linkType

/-- `LinkState::Trashed`. -/
def stateTrashed : Int := 2

def LinkDetails.isTrashed (d : LinkDetails) : Bool :=
  d.state == stateTrashed || d.trashTime.isSome || d.trashedLegacy.isSome

/-- The file block, or the one inside the photo block. -/
def LinkDetails.fileProperties (d : LinkDetails) : Option FileDto :=
  d.file <|> d.photo.map PhotoDto.file

/-! ## Nodes -/

inductive RevisionState where
  | active
  | superseded
  deriving DecidableEq, Repr

def RevisionState.fromRaw (value : Option Int) : RevisionState :=
  if value = some 2 then .superseded else .active

inductive PhotoTag where
  | favorite
  | screenshot
  | video
  | livePhoto
  | motionPhoto
  | selfie
  | portrait
  | burst
  | panorama
  | raw
  deriving DecidableEq, Repr

def PhotoTag.all : List PhotoTag :=
  [.favorite, .screenshot, .video, .livePhoto, .motionPhoto, .selfie, .portrait, .burst, .panorama,
    .raw]

/-- An unknown tag is dropped. -/
def PhotoTag.fromRaw (value : Int) : Option PhotoTag :=
  if 0 ≤ value then PhotoTag.all[value.toNat]? else none

/-- A position in decimal degrees. -/
structure PhotoLocation where
  latitude : Rat
  longitude : Rat
  deriving DecidableEq, Repr

def PhotoLocation.fromClaimed (latitude longitude : Option Rat) : Option PhotoLocation := do
  let latitude ← latitude
  let longitude ← longitude
  if (-90 ≤ latitude ∧ latitude ≤ 90) ∧ (-180 ≤ longitude ∧ longitude ≤ 180) then
    some ⟨latitude, longitude⟩
  else none

structure PhotoProperties where
  captureTime : Int
  contentHash : Option String
  mainPhotoUid : Option NodeUid
  relatedPhotoUids : List NodeUid
  tags : List PhotoTag
  albumUids : List NodeUid
  location : Option PhotoLocation
  deriving DecidableEq, Repr

structure AlbumProperties where
  photoCount : Int
  coverPhotoUid : Option NodeUid
  lastActivityTime : Option Int
  deriving DecidableEq, Repr

structure NodeVerification where
  name : VerificationStatus
  passphrase : VerificationStatus
  contentKey : Option VerificationStatus
  extendedAttributes : Option VerificationStatus
  deriving DecidableEq, Repr

inductive NodeKind where
  | folder
  | file (mediaType : String) (totalSizeOnStorage : Int)
      (activeRevisionState : Option RevisionState) (activeRevisionId : Option String)
      (claimedSize : Option Int) (claimedModificationTime : Option String)
      (contentSha1 : Option String)
  deriving DecidableEq, Repr

inductive MemberRole where
  | viewer
  | editor
  | admin
  | inherited
  deriving DecidableEq, Repr

def MemberRole.fromPermissions : Option Int → MemberRole
  | none => .inherited
  | some p => if p = 4 then .viewer else if p = 6 then .editor else if p = 22 then .admin else .viewer

structure ShareMembership where
  shareId : String
  membershipId : String
  permissions : Int
  inviteTime : Option Int
  inviterEmail : Option String
  inviterVerification : Option VerificationStatus
  deriving DecidableEq, Repr

structure Node where
  uid : NodeUid
  parentUid : Option NodeUid
  kind : NodeKind
  /-- UTF-8. -/
  name : Bytes
  creationTime : Int
  modificationTime : Int
  trashed : Bool
  isShared : Bool
  isSharedPublicly : Bool
  signatureEmail : Option String
  membership : Option ShareMembership
  directRole : Option MemberRole
  shareId : Option String
  photo : Option PhotoProperties
  album : Option AlbumProperties
  verification : NodeVerification
  deriving DecidableEq, Repr

def Node.isFolder (n : Node) : Bool :=
  match n.kind with
  | .folder => true
  | .file .. => false

/-! ## What a client knows of its account -/

/-- The common block of decrypted extended attributes. -/
structure DecryptedCommonExtendedAttributes where
  size : Option Int
  modificationTime : Option String
  blockSizes : Option (List Int)
  sha1 : Option String
  deriving DecidableEq, Repr

structure DecryptedExtendedAttributes where
  common : Option DecryptedCommonExtendedAttributes
  location : Option (Option Rat × Option Rat)
  deriving DecidableEq, Repr

/-- The answers of the account service and of the libraries that a build asks. -/
structure Account where
  publicKeys : String → List Key
  isOwnVolume : VolumeId → Bool
  /-- The raw bytes of a session key. -/
  exportKey : Session → Bytes
  /-- The JSON of extended attributes. -/
  parseAttributes : Bytes → Option DecryptedExtendedAttributes

structure AuthorshipClaim where
  author : Option String
  keys : List Key

def Account.authorshipClaim (a : Account) : Option String → AuthorshipClaim
  | some email => if email.isEmpty then ⟨none, []⟩ else ⟨some email, a.publicKeys email⟩
  | none => ⟨none, []⟩

/-- The author's keys, or the key that decrypts when nobody claims authorship. -/
def AuthorshipClaim.ring (c : AuthorshipClaim) (fallback : Key) : List Key :=
  if c.author.isSome then c.keys else [fallback]

def AuthorshipClaim.contentRing (c : AuthorshipClaim) (nodeKey : Key) : List Key :=
  nodeKey :: c.keys

/-! ## Decrypting -/

/-- What the parent key alone can read: the passphrase, the name and the status of their
signatures. -/
def Account.decryptLinkParts (a : Account) (parentKey : Key) (link : Link) :
    Except ProtonError (Bytes × Bytes × NodeVerification) := do
  let nodeClaim := a.authorshipClaim link.signatureEmail
  let nameClaim :=
    if link.nameSignatureEmail = link.signatureEmail then nodeClaim
    else a.authorshipClaim link.nameSignatureEmail
  let passphrase ← decryptArmoredMessage parentKey link.passphrase
  let passphraseStatus :=
    match link.passphraseSignature with
    | some signature => verifyDetached signature passphrase (nodeClaim.ring parentKey)
    | none => .notSigned
  let (name, nameStatus) ← decryptArmoredVerify parentKey link.name (nameClaim.ring parentKey)
  if ByteArray.validateUTF8 ⟨name.toArray⟩ then
    return (passphrase, name, ⟨nameStatus, passphraseStatus, none, none⟩)
  else .error notUtf8

def Account.decryptLinkVerified (a : Account) (parentKey : Key) (link : Link) :
    Except ProtonError (DecryptedLink × NodeVerification) := do
  let (passphrase, name, verification) ← a.decryptLinkParts parentKey link
  let nodeKey ← fromArmored link.key passphrase
  return (⟨nodeKey, name⟩, verification)

def Account.decryptLinkNameVerified (a : Account) (parentKey : Key) (link : Link) :
    Except ProtonError (Bytes × NodeVerification) := do
  let (_, name, verification) ← a.decryptLinkParts parentKey link
  return (name, verification)

def Account.decryptContentKeyVerified (a : Account) (nodeKey : Key)
    (nodeSignatureEmail : Option String) (contentKeyPacket : Message)
    (contentKeySignature : Option Signature) : Except ProtonError (Session × VerificationStatus) := do
  let contentKey ← decryptContentKey nodeKey contentKeyPacket
  let status :=
    match contentKeySignature with
    | some signature =>
        verifyDetached signature (a.exportKey contentKey)
          ((a.authorshipClaim nodeSignatureEmail).contentRing nodeKey)
    | none => .notSigned
  return (contentKey, status)

def Account.decryptExtendedAttributesVerified (a : Account) (nodeKey : Key)
    (revisionSignatureEmail : Option String) (xattr : Message) :
    Except ProtonError (DecryptedExtendedAttributes × VerificationStatus) := do
  let (json, status) ← decryptArmoredVerify nodeKey xattr
    ((a.authorshipClaim revisionSignatureEmail).ring nodeKey)
  match a.parseAttributes json with
  | some attrs => return (attrs, status)
  | none => .error (.invalidOperation "deserialize extended attributes")

/-- The status of a file's content key, if there is one and the node key opens it. A failure is
logged and leaves the status out. -/
def Account.contentKeyStatus (a : Account) (nodeKey : Option Key) (link : Link) (file : FileDto) :
    Option VerificationStatus := do
  let nodeKey ← nodeKey
  let packet ← file.contentKeyPacket
  match a.decryptContentKeyVerified nodeKey link.signatureEmail packet file.contentKeySignature with
  | .ok (_, status) => some status
  | .error _ => none

/-- The extended attributes of a file's active revision, as far as the node key opens them. -/
def Account.extendedAttributes (a : Account) (nodeKey : Option Key) (file : FileDto) :
    Option (DecryptedExtendedAttributes × VerificationStatus) := do
  let nodeKey ← nodeKey
  let revision ← file.activeRevision
  let xattr ← revision.extendedAttributes
  match a.decryptExtendedAttributesVerified nodeKey revision.signatureEmail xattr with
  | .ok result => some result
  | .error _ => none

/-! ## Building a node -/

inductive NodeDetail where
  | full
  | light
  deriving DecidableEq, Repr

/-- The file's own key stays locked in a light build; a folder's never does. -/
def wantNodeKey (detail : NodeDetail) (type : LinkType) : Bool :=
  detail == .full || type != .file

def photoProperties (volumeId : VolumeId) (photo : PhotoDto) (location : Option PhotoLocation) :
    PhotoProperties where
  captureTime := photo.captureTime
  contentHash := photo.contentHash
  mainPhotoUid := photo.mainPhotoLinkId.map (NodeUid.mk volumeId)
  relatedPhotoUids := photo.relatedPhotoLinkIds.map (NodeUid.mk volumeId)
  tags := photo.tags.filterMap PhotoTag.fromRaw
  albumUids := photo.albumInclusions.map (NodeUid.mk volumeId)
  location := location

def albumProperties (volumeId : VolumeId) (album : AlbumDto) : AlbumProperties where
  photoCount := album.photoCount
  coverPhotoUid := album.coverLinkId.map (NodeUid.mk volumeId)
  lastActivityTime := if album.lastActivityTime ≠ 0 then some album.lastActivityTime else none

def folderWithoutKey : ProtonError := .invalidOperation "folder node built without its key"

def missingFileProperties : ProtonError := .invalidOperation "file node missing file properties"

def unsupportedLinkType (raw : Int) : ProtonError :=
  .invalidOperation ("unsupported link type " ++ toString raw)

/-- The part of a node that depends on what kind of link it is. -/
structure KindParts where
  kind : NodeKind
  photo : Option PhotoProperties
  album : Option AlbumProperties
  contentKey : Option VerificationStatus
  extendedAttributes : Option VerificationStatus

/-- What a file shows of itself, with or without its key. -/
def Account.fileParts (a : Account) (volumeId : VolumeId) (details : LinkDetails) (file : FileDto)
    (nodeKey : Option Key) : KindParts :=
  let attributes := a.extendedAttributes nodeKey file
  let common := attributes.bind (fun attrs => attrs.1.common)
  let location := (attributes.bind (fun attrs => attrs.1.location)).bind
    (fun l => PhotoLocation.fromClaimed l.1 l.2)
  { kind := .file file.mediaType file.totalSizeOnStorage
      (file.activeRevision.map (fun rev => RevisionState.fromRaw rev.state))
      (file.activeRevision.map ActiveRevisionDto.id)
      (common.bind DecryptedCommonExtendedAttributes.size)
      (common.bind DecryptedCommonExtendedAttributes.modificationTime)
      (common.bind DecryptedCommonExtendedAttributes.sha1)
    photo := details.photo.map (fun photo => photoProperties volumeId photo location)
    album := none
    contentKey := a.contentKeyStatus nodeKey details.link file
    extendedAttributes := attributes.map Prod.snd }

def Account.kindParts (a : Account) (volumeId : VolumeId) (details : LinkDetails)
    (nodeKey : Option Key) : Except ProtonError KindParts :=
  match details.parsedType with
  | .folder | .album =>
      match nodeKey with
      | none => .error folderWithoutKey
      | some _ => .ok
          { kind := .folder
            photo := none
            album := details.album.map (albumProperties volumeId)
            contentKey := none
            extendedAttributes := none }
  | .file =>
      match details.fileProperties with
      | none => .error missingFileProperties
      | some file => .ok (a.fileParts volumeId details file nodeKey)
  | .unknown => .error (unsupportedLinkType details.linkType)

def sharingInviterContext : String := "drive.share-member.inviter"

def Account.verifiedMembership (a : Account) (dto : ShareMembershipSummaryDto) : ShareMembership where
  shareId := dto.shareId
  membershipId := dto.membershipId
  permissions := dto.permissions
  inviteTime := dto.inviteTime
  inviterEmail := dto.inviterEmail
  inviterVerification := some <|
    match dto.memberSharePassphraseKeyPacket, dto.inviterSharePassphraseKeyPacketSignature with
    | some (some packet), some signature =>
        let email := dto.inviterEmail.getD ""
        let keys := if email.isEmpty then [] else a.publicKeys email
        verifyDetachedWithContext signature packet keys sharingInviterContext
    | some none, some _ => .failed
    | _, _ => .notSigned

/-- The node of a link, with its kind already looked at. -/
def Account.node (a : Account) (volumeId : VolumeId) (details : LinkDetails) (name : Bytes)
    (verification : NodeVerification) (parts : KindParts) : Node where
  uid := ⟨volumeId, details.link.id⟩
  parentUid := details.link.parentId.map (NodeUid.mk volumeId)
  kind := parts.kind
  name := name
  creationTime := details.creationTime
  modificationTime := details.modificationTime
  trashed := details.isTrashed
  isShared := details.sharing.isSome
  isSharedPublicly := (details.sharing.bind LinkSharingDto.shareUrlId).isSome
  signatureEmail := details.link.signatureEmail
  membership := details.membership.map a.verifiedMembership
  directRole := some <|
    if a.isOwnVolume volumeId then .admin
    else .fromPermissions (details.membership.map ShareMembershipSummaryDto.permissions)
  shareId := details.sharing.map LinkSharingDto.shareId
  photo := parts.photo
  album := parts.album
  verification :=
    { verification with
      contentKey := parts.contentKey
      extendedAttributes := parts.extendedAttributes }

/-- The name, the statuses and, if it is wanted, the node key of a link. -/
def Account.openLink (a : Account) (detail : NodeDetail) (details : LinkDetails) (parentKey : Key) :
    Except ProtonError (Bytes × Option Key × NodeVerification) :=
  if wantNodeKey detail details.parsedType then do
    let (decrypted, verification) ← a.decryptLinkVerified parentKey details.link
    return (decrypted.name, some decrypted.nodeKey, verification)
  else do
    let (name, verification) ← a.decryptLinkNameVerified parentKey details.link
    return (name, none, verification)

/-- What `build_node_ctx` makes of a link, and the key it has unlocked for it. -/
def Account.decryptNode (a : Account) (detail : NodeDetail) (volumeId : VolumeId)
    (details : LinkDetails) (parentKey : Key) : Except ProtonError (Node × Option Key) := do
  let (name, nodeKey, verification) ← a.openLink detail details parentKey
  let parts ← a.kindParts volumeId details nodeKey
  return (a.node volumeId details name verification parts, nodeKey)

/-! ## What a light build leaves out -/

@[simp] theorem contentKeyStatus_none (a : Account) (link : Link) (file : FileDto) :
    a.contentKeyStatus none link file = none := rfl

@[simp] theorem extendedAttributes_none (a : Account) (file : FileDto) :
    a.extendedAttributes none file = none := rfl

/-- The node key of a link adds nothing to what a light build reads: the link is no file, or its key
opens and there is neither a content key nor an extended attribute that it could read. -/
def Account.LightSuffices (a : Account) (details : LinkDetails) (parentKey : Key) : Prop :=
  details.parsedType = .file →
    decryptArmoredMessage parentKey details.link.passphrase = .ok details.link.key.passphrase ∧
    ∀ file, details.fileProperties = some file →
      a.contentKeyStatus (some details.link.key.key) details.link file = none ∧
      a.extendedAttributes (some details.link.key.key) file = none

theorem decryptNode_of_not_file {a : Account} {volumeId : VolumeId} {details : LinkDetails}
    (h : details.parsedType ≠ .file) (detail detail' : NodeDetail) (parentKey : Key) :
    a.decryptNode detail volumeId details parentKey =
      a.decryptNode detail' volumeId details parentKey := by
  have hwant : ∀ detail, wantNodeKey detail details.parsedType = true := by
    intro detail
    simp [wantNodeKey, h]
  simp only [Account.decryptNode, Account.openLink, hwant]

theorem openLink_light_eq_ok {a : Account} {details : LinkDetails} {parentKey : Key} {name : Bytes}
    {key : Option Key} {verification : NodeVerification} (hfile : details.parsedType = .file) :
    a.openLink .light details parentKey = .ok (name, key, verification) ↔
      key = none ∧ ∃ passphrase,
        a.decryptLinkParts parentKey details.link = .ok (passphrase, name, verification) := by
  have hwant : wantNodeKey .light details.parsedType = false := by
    simp [wantNodeKey, hfile]
  rw [Account.openLink, hwant, Account.decryptLinkNameVerified]
  cases a.decryptLinkParts parentKey details.link with
  | error e => simp [bind, Except.bind]
  | ok opened =>
      obtain ⟨passphrase, name', verification'⟩ := opened
      simp only [bind, Except.bind, pure, Except.pure, Bool.false_eq_true, if_false,
        Except.ok.injEq, Prod.mk.injEq]
      constructor
      · rintro ⟨rfl, rfl, rfl⟩
        exact ⟨rfl, passphrase, rfl, rfl, rfl⟩
      · rintro ⟨rfl, _, -, rfl, rfl⟩
        exact ⟨rfl, rfl, rfl⟩

theorem openLink_full_eq_ok {a : Account} {details : LinkDetails} {parentKey : Key} {name : Bytes}
    {key : Option Key} {verification : NodeVerification} :
    a.openLink .full details parentKey = .ok (name, key, verification) ↔
      key = some details.link.key.key ∧
        a.decryptLinkParts parentKey details.link =
          .ok (details.link.key.passphrase, name, verification) := by
  have hwant : wantNodeKey .full details.parsedType = true := rfl
  rw [Account.openLink, hwant, Account.decryptLinkVerified]
  cases a.decryptLinkParts parentKey details.link with
  | error e => simp [bind, Except.bind]
  | ok opened =>
      obtain ⟨passphrase, name', verification'⟩ := opened
      -- The passphrase unlocks the key only if it is the one that the key was locked with.
      by_cases hpass : details.link.key.passphrase = passphrase
      · simp only [bind, Except.bind, pure, Except.pure, if_true, fromArmored, if_pos hpass,
          Except.ok.injEq, Prod.mk.injEq]
        constructor
        · rintro ⟨rfl, rfl, rfl⟩
          exact ⟨rfl, hpass.symm, rfl, rfl⟩
        · rintro ⟨rfl, -, rfl, rfl⟩
          exact ⟨rfl, rfl, rfl⟩
      · simp [bind, Except.bind, fromArmored, hpass, Ne.symm hpass]

/-- A build of a file, light or full, is what it read of the link and of the file block. -/
theorem decryptNode_file_eq_ok {a : Account} {detail : NodeDetail} {volumeId : VolumeId}
    {details : LinkDetails} {parentKey : Key} {node : Node} {key : Option Key}
    (hfile : details.parsedType = .file) :
    a.decryptNode detail volumeId details parentKey = .ok (node, key) ↔
      ∃ name verification file,
        a.openLink detail details parentKey = .ok (name, key, verification) ∧
        details.fileProperties = some file ∧
        node = a.node volumeId details name verification (a.fileParts volumeId details file key) := by
  simp only [Account.decryptNode, Except.bind_eq_ok, Account.kindParts, hfile]
  constructor
  · rintro ⟨⟨name, key', verification⟩, hopen, parts, hparts, hnode⟩
    -- A file without its properties is no file.
    cases hprops : details.fileProperties with
    | none => rw [hprops] at hparts; cases hparts
    | some file =>
        rw [hprops] at hparts
        cases hparts
        cases hnode
        exact ⟨name, verification, file, hopen, rfl, rfl⟩
  · rintro ⟨name, verification, file, hopen, hprops, rfl⟩
    exact ⟨(name, key, verification), hopen, a.fileParts volumeId details file key, by rw [hprops],
      rfl⟩

theorem decryptLinkParts_reads {a : Account} {parentKey : Key} {link : Link}
    {passphrase name : Bytes} {verification : NodeVerification}
    (h : a.decryptLinkParts parentKey link = .ok (passphrase, name, verification)) :
    decryptArmoredMessage parentKey link.passphrase = .ok passphrase ∧
      decryptArmoredMessage parentKey link.name = .ok name ∧
      ByteArray.validateUTF8 ⟨name.toArray⟩ = true := by
  unfold Account.decryptLinkParts at h
  obtain ⟨p, hp, h⟩ := Except.bind_eq_ok.mp h
  obtain ⟨⟨n, status⟩, hverified, h⟩ := Except.bind_eq_ok.mp h
  obtain ⟨n', hn, hverified⟩ := Except.bind_eq_ok.mp hverified
  cases hverified
  obtain ⟨hutf, h⟩ := Except.guard_eq_ok.mp h
  cases h
  exact ⟨hp, hn, hutf⟩

theorem decryptNode_uids {a : Account} {detail : NodeDetail} {volumeId : VolumeId}
    {details : LinkDetails} {parentKey : Key} {node : Node} {nodeKey : Option Key}
    (h : a.decryptNode detail volumeId details parentKey = .ok (node, nodeKey)) :
    node.uid = ⟨volumeId, details.link.id⟩ ∧
      node.parentUid = details.link.parentId.map (NodeUid.mk volumeId) := by
  unfold Account.decryptNode at h
  obtain ⟨⟨name, key, verification⟩, -, h⟩ := Except.bind_eq_ok.mp h
  obtain ⟨parts, -, h⟩ := Except.bind_eq_ok.mp h
  cases h
  exact ⟨rfl, rfl⟩

/-- The name of a node is the one that its parent's key reads, in every detail. -/
theorem decryptNode_name {a : Account} {detail : NodeDetail} {volumeId : VolumeId}
    {details : LinkDetails} {parentKey : Key} {node : Node} {nodeKey : Option Key}
    (h : a.decryptNode detail volumeId details parentKey = .ok (node, nodeKey)) :
    decryptArmoredMessage parentKey details.link.name = .ok node.name := by
  unfold Account.decryptNode at h
  obtain ⟨⟨name, key, verification⟩, hopen, h⟩ := Except.bind_eq_ok.mp h
  obtain ⟨parts, -, h⟩ := Except.bind_eq_ok.mp h
  cases h
  unfold Account.openLink at hopen
  split at hopen
  · -- With the node key or without it, the name is read with the parent's key.
    obtain ⟨⟨d, verification'⟩, hdecrypt, hopen⟩ := Except.bind_eq_ok.mp hopen
    cases hopen
    obtain ⟨⟨passphrase, name', verification''⟩, hparts, hdecrypt⟩ := Except.bind_eq_ok.mp hdecrypt
    obtain ⟨nodeKey, -, hdecrypt⟩ := Except.bind_eq_ok.mp hdecrypt
    cases hdecrypt
    exact (decryptLinkParts_reads hparts).2.1
  · obtain ⟨⟨name', verification'⟩, hdecrypt, hopen⟩ := Except.bind_eq_ok.mp hopen
    cases hopen
    obtain ⟨⟨passphrase, name'', verification''⟩, hparts, hdecrypt⟩ :=
      Except.bind_eq_ok.mp hdecrypt
    cases hdecrypt
    exact (decryptLinkParts_reads hparts).2.1

/-- A key that a build has unlocked is the one `decryptLink` finds. -/
theorem decryptNode_nodeKey {a : Account} {detail : NodeDetail} {volumeId : VolumeId}
    {details : LinkDetails} {parentKey : Key} {node : Node} {key : Key}
    (h : a.decryptNode detail volumeId details parentKey = .ok (node, some key)) :
    ∃ d, decryptLink parentKey details.link = .ok d ∧ d.nodeKey = key := by
  unfold Account.decryptNode at h
  obtain ⟨⟨name, key', verification⟩, hopen, h⟩ := Except.bind_eq_ok.mp h
  obtain ⟨parts, -, h⟩ := Except.bind_eq_ok.mp h
  cases h
  unfold Account.openLink at hopen
  split at hopen
  · -- The node key is unlocked only where it is wanted.
    obtain ⟨⟨d, verification'⟩, hdecrypt, hopen⟩ := Except.bind_eq_ok.mp hopen
    cases hopen
    obtain ⟨⟨passphrase, name', verification''⟩, hparts, hdecrypt⟩ := Except.bind_eq_ok.mp hdecrypt
    obtain ⟨nodeKey, hunlock, hdecrypt⟩ := Except.bind_eq_ok.mp hdecrypt
    cases hdecrypt
    obtain ⟨hpass, hname, hutf⟩ := decryptLinkParts_reads hparts
    obtain ⟨rfl, rfl⟩ := fromArmored_eq_ok.mp hunlock
    exact ⟨_, decryptLink_eq_ok.mpr ⟨hpass, rfl, hname, hutf⟩, rfl⟩
  · obtain ⟨⟨name', verification'⟩, -, hopen⟩ := Except.bind_eq_ok.mp hopen
    cases hopen

/-- **A light build is a full one** exactly when the node key has nothing to add. -/
theorem decryptNode_full_eq_light {a : Account} {volumeId : VolumeId} {details : LinkDetails}
    {parentKey : Key} {node : Node} {key : Option Key}
    (hlight : a.decryptNode .light volumeId details parentKey = .ok (node, key)) :
    (∃ key', a.decryptNode .full volumeId details parentKey = .ok (node, key')) ↔
      a.LightSuffices details parentKey := by
  by_cases hfile : details.parsedType = .file
  · obtain ⟨name, verification, file, hopen, hprops, rfl⟩ :=
      (decryptNode_file_eq_ok hfile).mp hlight
    obtain ⟨rfl, passphrase, hparts⟩ := (openLink_light_eq_ok hfile).mp hopen
    have hpass := (decryptLinkParts_reads hparts).1
    constructor
    · rintro ⟨key', hfull⟩ -
      obtain ⟨name', verification', file', hopen', hprops', hnode⟩ :=
        (decryptNode_file_eq_ok hfile).mp hfull
      obtain ⟨rfl, hparts'⟩ := openLink_full_eq_ok.mp hopen'
      rw [hparts] at hparts'
      rw [hprops] at hprops'
      cases hparts'
      cases hprops'
      refine ⟨hpass, ?_⟩
      intro file' hprops'
      rw [hprops] at hprops'
      cases hprops'
      -- The statuses of the two nodes are those of the content key and of the attributes.
      have hverification := congrArg Node.verification hnode
      simp only [Account.node, Account.fileParts, NodeVerification.mk.injEq, contentKeyStatus_none,
        extendedAttributes_none, Option.map_none, true_and] at hverification
      obtain ⟨hcontent, hattributes⟩ := hverification
      exact ⟨hcontent.symm, Option.map_eq_none_iff.mp hattributes.symm⟩
    · intro hsuffices
      obtain ⟨hkey, hnothing⟩ := hsuffices hfile
      obtain ⟨hcontent, hattributes⟩ := hnothing file hprops
      rw [hpass] at hkey
      cases hkey
      refine ⟨some details.link.key.key, (decryptNode_file_eq_ok hfile).mpr
        ⟨name, verification, file, openLink_full_eq_ok.mpr ⟨rfl, hparts⟩, hprops, ?_⟩⟩
      simp only [Account.fileParts, hcontent, hattributes, contentKeyStatus_none,
        extendedAttributes_none]
  · constructor
    · intro _ h
      exact absurd h hfile
    · intro _
      exact ⟨key, by rw [← hlight]; exact decryptNode_of_not_file hfile _ _ _⟩

end ProtonDrive
