import ProtonDrive.Lib.Lossy
import ProtonDrive.Lib.Machine
import ProtonDrive.Drive.RootShares

/-!
# Devices

A device of the account has a share and a root folder of its own, whose name is the device's name. To
the user the devices are a list of names; the server has shares and links in which the names are
encrypted.

* `registry` — what happens to the list.
* `client` — the calls of `devices.rs` one after the other, against a server that may refuse each
  request, lose the answer to it, or get it several times, as the HTTP layer sends a request again
  whose answer did not come in time.
* `Explains` — what a call has done to the list, and why it failed if it did.
* `Follows` — what the server has is the list.
-/

namespace ProtonDrive.Devices

open OpenPgp
open Program (ofExcept attempt request inquiry Triple)
open Online (At)

abbrev DeviceUid := String

/-! ## The calls -/

inductive DeviceType where
  | windows
  | macOs
  | linux
  deriving DecidableEq, Repr

def DeviceType.asI32 : DeviceType → Int
  | .windows => 1
  | .macOs => 2
  | .linux => 3

def unsupportedDeviceType (value : Int) : ProtonError :=
  .invalidOperation ("unsupported device type " ++ toString value)

def DeviceType.fromRaw (value : Int) : Except ProtonError DeviceType :=
  if value = 1 then .ok .windows
  else if value = 2 then .ok .macOs
  else if value = 3 then .ok .linux
  else .error (unsupportedDeviceType value)

theorem DeviceType.fromRaw_asI32 (deviceType : DeviceType) :
    fromRaw deviceType.asI32 = .ok deviceType := by
  cases deviceType <;> rfl

structure Device where
  uid : DeviceUid
  deviceType : DeviceType
  /-- The decrypted name, or why it could not be read. -/
  name : Except ProtonError Bytes
  rootFolderUid : NodeUid
  creationTime : Int
  lastSyncTime : Option Int
  shareId : ShareId
  deriving DecidableEq

structure DeviceMetadata where
  uid : DeviceUid
  deviceType : DeviceType
  rootFolderUid : NodeUid
  creationTime : Int
  lastSyncTime : Option Int
  /-- The share still has a copy of a name. -/
  hasDeprecatedName : Bool
  shareId : ShareId

def DeviceMetadata.intoDevice (d : DeviceMetadata) (name : Except ProtonError Bytes) : Device where
  uid := d.uid
  deviceType := d.deviceType
  name := name
  rootFolderUid := d.rootFolderUid
  creationTime := d.creationTime
  lastSyncTime := d.lastSyncTime
  shareId := d.shareId

/-- An item of the device list, with the share that holds the root folder. -/
structure DeviceListItem where
  id : DeviceUid
  volumeId : VolumeId
  deviceType : Int
  creationTime : Int
  lastSyncTime : Option Int
  shareId : ShareId
  rootLinkId : LinkId
  shareName : Option String

structure DeviceCreationRequest where
  deviceType : Int
  syncState : Int
  addressId : String
  addressKeyId : String
  shareKey : LockedKey
  sharePassphrase : Message
  sharePassphraseSignature : Signature
  name : Message
  key : LockedKey
  passphrase : Message
  passphraseSignature : Signature
  nodeHashKey : Message

structure DeviceCreationResult where
  id : DeviceUid
  shareId : ShareId
  rootLinkId : LinkId

structure RenameLinkRequest where
  name : Message
  nameHash : NameHash
  nameSignatureEmail : String
  mediaType : Option String
  originalHash : NameHash

/-- What the calls ask of the client and of the server. -/
structure Calls (σ : Type) where
  /-- The volume of `get_my_files_folder`. -/
  myFilesVolume : Program σ ProtonError VolumeId
  /-- The id, the email and the key of the address of the My Files root. -/
  membershipAddressFor : VolumeId → Program σ ProtonError (String × String × Key)
  addressPrimaryKeyId : String → Program σ ProtonError String
  resolveMembershipAddress : String → Program σ ProtonError (String × String × Key)
  addressPrivateKeys : String → Program σ ProtonError (List Key)
  getDevices : Program σ ProtonError (List DeviceListItem)
  postDevice : DeviceCreationRequest → Program σ ProtonError DeviceCreationResult
  /-- Sets the name on the share of a device. -/
  putShareName : DeviceUid → String → Program σ ProtonError Unit
  removeDevice : DeviceUid → Program σ ProtonError Unit
  getShare : ShareId → Program σ ProtonError ShareDto
  getLinkDetails : VolumeId → List LinkId → Program σ ProtonError (List Link)
  renameLink : VolumeId → LinkId → RenameLinkRequest → Program σ ProtonError Unit
  putFolderKey : NodeUid → Key → Program σ ProtonError Unit

def utf8 (text : String) : Bytes := text.toUTF8.data.toList

def rootNotFound (uid : NodeUid) : ProtonError :=
  .invalidOperation ("device root folder " ++ uid.text ++ " not found")

def deviceNotFound (deviceUid : DeviceUid) : ProtonError :=
  .invalidOperation ("device " ++ deviceUid ++ " not found")

section Calls

variable {σ : Type} (c : Calls σ)

/-- A share by its id, unlocked, and the id of its membership address. -/
def shareKeyById (shareId : ShareId) : Program σ ProtonError (Key × String) := do
  let share ← c.getShare shareId
  let addressKeys ← c.addressPrivateKeys share.addressId
  let key ← ofExcept (decryptShareKey addressKeys share)
  return (key, share.addressId)

def DeviceListItem.metadata (item : DeviceListItem) : Except ProtonError DeviceMetadata := do
  let deviceType ← DeviceType.fromRaw item.deviceType
  return {
    uid := item.id
    deviceType := deviceType
    rootFolderUid := ⟨item.volumeId, item.rootLinkId⟩
    creationTime := item.creationTime
    lastSyncTime := item.lastSyncTime
    hasDeprecatedName := item.shareName.any (fun name => !name.isEmpty)
    shareId := item.shareId }

/-- One device of an unknown type fails the list. -/
def deviceMetadata : Program σ ProtonError (List DeviceMetadata) := do
  let items ← c.getDevices
  ofExcept (items.mapM DeviceListItem.metadata)

def deviceMetadataByUid (deviceUid : DeviceUid) : Program σ ProtonError DeviceMetadata := do
  let devices ← deviceMetadata c
  ofExcept (match devices.find? (fun device => device.uid == deviceUid) with
    | some device => .ok device
    | none => .error (deviceNotFound deviceUid))

/-- The name of the root folder, whose key is cached. -/
def deviceRootFolderName (device : DeviceMetadata) : Program σ ProtonError Bytes := do
  let (shareKey, _) ← shareKeyById c device.shareId
  let uid := device.rootFolderUid
  let details ← c.getLinkDetails uid.volumeId [uid.linkId]
  let link ← ofExcept (match details.head? with
    | some link => .ok link
    | none => .error (rootNotFound uid))
  let decrypted ← ofExcept (decryptLink shareKey link)
  c.putFolderKey uid decrypted.nodeKey
  return decrypted.name

def enumerateDevices : Program σ ProtonError (List Device) := do
  let metadata ← deviceMetadata c
  Program.traverse (fun device => do
    let name ← (deviceRootFolderName c device).attempt
    return device.intoDevice name) metadata

def creationRequest (addressId addressKeyId : String) (deviceType : DeviceType)
    (material : VolumeCreationMaterial) : DeviceCreationRequest where
  deviceType := deviceType.asI32
  syncState := 0
  addressId := addressId
  addressKeyId := addressKeyId
  shareKey := material.shareKeyArmored
  sharePassphrase := material.sharePassphrase
  sharePassphraseSignature := material.sharePassphraseSignature
  name := material.folderName
  key := material.folderKeyArmored
  passphrase := material.folderPassphrase
  passphraseSignature := material.folderPassphraseSignature
  nodeHashKey := material.folderHashKey

/-- The random choices and the time of the return are arguments. -/
def createDevice (secrets : VolumeSecrets) (now : Int) (name : String) (deviceType : DeviceType) :
    Program σ ProtonError Device := do
  let volumeId ← c.myFilesVolume
  let (addressId, _, addressKey) ← c.membershipAddressFor volumeId
  let addressKeyId ← c.addressPrimaryKeyId addressId
  let created ← c.postDevice (creationRequest addressId addressKeyId deviceType
    (buildVolumeCreationMaterial addressKey (utf8 name) secrets))
  return {
    uid := created.id
    deviceType := deviceType
    name := .ok (utf8 name)
    rootFolderUid := ⟨volumeId, created.rootLinkId⟩
    creationTime := now
    lastSyncTime := none
    shareId := created.shareId }

/-- The copy of the name on the share is cleared first, and it does not matter if that fails. -/
def clearDeprecatedName (device : DeviceMetadata) : Program σ ProtonError Unit :=
  if device.hasDeprecatedName then do
    let _ ← (c.putShareName device.uid "").attempt
    return ()
  else return ()

/-- The new name is encrypted with the session key of the old one. -/
def renameDevice (deviceUid : DeviceUid) (name : String) : Program σ ProtonError Device := do
  let device ← deviceMetadataByUid c deviceUid
  clearDeprecatedName c device
  let (shareKey, membershipAddressId) ← shareKeyById c device.shareId
  let (_, email, signingKey) ← c.resolveMembershipAddress membershipAddressId
  let uid := device.rootFolderUid
  let details ← c.getLinkDetails uid.volumeId [uid.linkId]
  let current ← ofExcept (match details.find? (fun link => link.id == uid.linkId) with
    | some link => .ok link
    | none => .error (rootNotFound uid))
  let session ← ofExcept (decryptContentKey shareKey current.name)
  c.renameLink uid.volumeId uid.linkId {
    name := encryptAndSign shareKey signingKey session (utf8 name)
    nameHash := []
    nameSignatureEmail := email
    mediaType := none
    originalHash := [] }
  return device.intoDevice (.ok (utf8 name))

def deleteDevice (deviceUid : DeviceUid) : Program σ ProtonError Unit := c.removeDevice deviceUid

end Calls

/-! ## The list -/

/-- A device, as the user knows it. -/
structure Entry where
  uid : DeviceUid
  deviceType : Int
  name : String
  rootFolderUid : NodeUid
  creationTime : Int
  lastSyncTime : Option Int
  shareId : ShareId
  /-- A name is still on the share. -/
  deprecatedName : Bool
  deriving DecidableEq, Repr

inductive Event where
  | registered (e : Entry)
  /-- A device gets another name, perhaps, and loses its old copy of one, perhaps. -/
  | changed (uid : DeviceUid) (name : Option String) (cleared : Bool)
  | removed (uid : DeviceUid)

def Entry.change (uid : DeviceUid) (name : Option String) (cleared : Bool) (e : Entry) : Entry :=
  if e.uid = uid then
    { e with name := name.getD e.name, deprecatedName := e.deprecatedName && !cleared }
  else e

def registry : Machine (List Entry) Event where
  step entries
    | .registered e =>
        if e.uid ∈ entries.map Entry.uid then none else some (entries ++ [e])
    | .changed uid name cleared =>
        if uid ∈ entries.map Entry.uid then some (entries.map (Entry.change uid name cleared))
        else none
    | .removed uid =>
        if uid ∈ entries.map Entry.uid then some (entries.filter (fun e => e.uid != uid)) else none

/-! ## The server -/

/-- What the server has of a device. -/
structure Registered where
  uid : DeviceUid
  deviceType : Int
  volumeId : VolumeId
  creationTime : Int
  lastSyncTime : Option Int
  share : ShareDto
  shareName : Option String
  root : Link

/-- The account, with its keys at hand. -/
structure Owner where
  volumeId : VolumeId
  addressId : String
  email : String
  addressKey : Key
  addressKeyId : String
  /-- The keys of each address, by its id. -/
  keysOf : String → List Key
  /-- The email and the primary key of an address. -/
  signer : String → String × Key
  mem_keys : addressKey ∈ keysOf addressId

/-- The devices on the server, and the folder keys in the client's cache. -/
structure World where
  devices : List Registered
  /-- The key of every root folder that there has been. -/
  born : List (NodeUid × Key)
  folderKeys : NodeUid → Option Key

def World.bornKey (s : World) (uid : NodeUid) : Option Key := s.born.lookup uid

/-- What a device gets from the server. -/
structure NewDevice where
  uid : DeviceUid
  shareId : ShareId
  rootLinkId : LinkId
  createTime : Int

/-- The ids are not those of anything that there is, or has been in the case of a link. -/
structure World.Fresh (o : Owner) (s : World) (new : NewDevice) : Prop where
  uid : new.uid ∉ s.devices.map Registered.uid
  shareId : new.shareId ∉ s.devices.map (fun r => r.share.id)
  root : s.bornKey ⟨o.volumeId, new.rootLinkId⟩ = none

/-- What the server chooses for what it makes. No id is given twice. -/
structure Choices (o : Owner) where
  newDevice : World → NewDevice
  fresh : ∀ s : World, s.Fresh o (newDevice s)
  /-- Whether a rename leaves the key packets of the name as they are. -/
  keepsKeyPackets : Bool

def Registered.item (r : Registered) : DeviceListItem where
  id := r.uid
  volumeId := r.volumeId
  deviceType := r.deviceType
  creationTime := r.creationTime
  lastSyncTime := r.lastSyncTime
  shareId := r.share.id
  rootLinkId := r.root.id
  shareName := r.shareName

def Registered.rootUid (r : Registered) : NodeUid := ⟨r.volumeId, r.root.id⟩

def refusal : ProtonError := .invalidOperation "refused"

def isData : Packet → Bool
  | .seipd _ _ _ => true
  | .pkesk _ _ => false

/-- The name with another data packet. -/
def replaceData (old new : Message) : Message :=
  old.filter (fun packet => !isData packet) ++ new.filter isData

namespace World

variable (o : Owner) (w : Choices o)

def registered (new : NewDevice) (post : DeviceCreationRequest) : Registered where
  uid := new.uid
  deviceType := post.deviceType
  volumeId := o.volumeId
  creationTime := new.createTime
  lastSyncTime := none
  share := ⟨new.shareId, post.shareKey, post.sharePassphrase, post.addressId⟩
  shareName := none
  root := {
    id := new.rootLinkId
    parentId := none
    name := post.name
    nameHash := none
    key := post.key
    passphrase := post.passphrase
    passphraseSignature := some post.passphraseSignature
    signatureEmail := some o.email
    nameSignatureEmail := some o.email
    hashKey := some post.nodeHashKey }

def postDevice (post : DeviceCreationRequest) (s : World) :
    Except ProtonError (World × DeviceCreationResult) :=
  let new := w.newDevice s
  .ok ({ s with
      devices := s.devices ++ [registered o new post]
      born := (⟨o.volumeId, new.rootLinkId⟩, post.key.key) :: s.born },
    ⟨new.uid, new.shareId, new.rootLinkId⟩)

def setShareName (uid : DeviceUid) (name : String) (r : Registered) : Registered :=
  if r.uid = uid then { r with shareName := some name } else r

def putShareName (uid : DeviceUid) (name : String) (s : World) :
    Except ProtonError (World × Unit) :=
  if uid ∈ s.devices.map Registered.uid then
    .ok ({ s with devices := s.devices.map (setShareName uid name) }, ())
  else .error refusal

def removeDevice (uid : DeviceUid) (s : World) : Except ProtonError (World × Unit) :=
  if uid ∈ s.devices.map Registered.uid then
    .ok ({ s with devices := s.devices.filter (fun r => r.uid != uid) }, ())
  else .error refusal

def getShare (shareId : ShareId) (s : World) : Except ProtonError ShareDto :=
  match s.devices.find? (fun r => r.share.id == shareId) with
  | some r => .ok r.share
  | none => .error refusal

def getLinkDetails (volumeId : VolumeId) (linkIds : List LinkId) (s : World) : List Link :=
  (s.devices.filter (fun r => r.volumeId == volumeId && linkIds.contains r.root.id)).map
    Registered.root

def renamed (keeps : Bool) (uid : NodeUid) (put : RenameLinkRequest) (r : Registered) :
    Registered :=
  if r.rootUid = uid then
    { r with
      root := { r.root with
        name := if keeps then replaceData r.root.name put.name else put.name
        nameSignatureEmail := some put.nameSignatureEmail } }
  else r

def renameLink (keeps : Bool) (volumeId : VolumeId) (linkId : LinkId) (put : RenameLinkRequest)
    (s : World) : Except ProtonError (World × Unit) :=
  if ⟨volumeId, linkId⟩ ∈ s.devices.map Registered.rootUid then
    .ok ({ s with devices := s.devices.map (renamed keeps ⟨volumeId, linkId⟩ put) }, ())
  else .error refusal

def putFolderKey (uid : NodeUid) (key : Key) (s : World) : World :=
  { s with folderKeys := Function.update s.folderKeys uid (some key) }

end World

/-- The calls of the client, as that server answers them. -/
def calls (o : Owner) (w : Choices o) : Calls (Online World ProtonError) where
  myFilesVolume := inquiry (fun _ => .ok o.volumeId)
  membershipAddressFor _ := inquiry (fun _ => .ok (o.addressId, o.email, o.addressKey))
  addressPrimaryKeyId _ := inquiry (fun _ => .ok o.addressKeyId)
  resolveMembershipAddress id := inquiry (fun _ => .ok (id, o.signer id))
  addressPrivateKeys id := inquiry (fun _ => .ok (o.keysOf id))
  getDevices := inquiry (fun s => .ok (s.devices.map Registered.item))
  postDevice post := request (World.postDevice o w post)
  putShareName uid name := request (World.putShareName uid name)
  removeDevice uid := request (World.removeDevice uid)
  getShare shareId := inquiry (World.getShare shareId)
  getLinkDetails volumeId linkIds := inquiry (fun s => .ok (s.getLinkDetails volumeId linkIds))
  renameLink volumeId linkId put := request (World.renameLink w.keepsKeyPackets volumeId linkId put)
  putFolderKey uid key := Program.modify (fun s => { s with server := s.server.putFolderKey uid key })

/-! ## The calls of the user -/

inductive UserCall where
  /-- With the time at which it returns. -/
  | create (name : String) (deviceType : DeviceType) (now : Int)
  | rename (uid : DeviceUid) (name : String)
  | delete (uid : DeviceUid)
  | enumerate

/-- A call, with everything that is chosen for it. -/
structure Step (o : Owner) where
  call : UserCall
  secrets : VolumeSecrets
  choices : Choices o
  fates : List (Fate ProtonError)

section

variable (o : Owner)

def perform (secrets : VolumeSecrets) (w : Choices o) :
    UserCall → Program (Online World ProtonError) ProtonError (List Device)
  | .create name deviceType now => do
      let device ← createDevice (calls o w) secrets now name deviceType
      return [device]
  | .rename uid name => do
      let device ← renameDevice (calls o w) uid name
      return [device]
  | .delete uid => do
      deleteDevice (calls o w) uid
      return []
  | .enumerate => enumerateDevices (calls o w)

def client : Machine World (Step o × Except ProtonError (List Device)) :=
  Program.client (fun step => perform o step.secrets step.choices step.call) Step.fates

/-- How a device is reported. -/
def Entry.device (e : Entry) (deviceType : DeviceType) (name : Except ProtonError Bytes)
    (creationTime : Int) : Device where
  uid := e.uid
  deviceType := deviceType
  name := name
  rootFolderUid := e.rootFolderUid
  creationTime := creationTime
  lastSyncTime := e.lastSyncTime
  shareId := e.shareId

/-- The client knows the type of the device. -/
def Entry.OfType (e : Entry) (deviceType : DeviceType) : Prop :=
  DeviceType.fromRaw e.deviceType = .ok deviceType

/-- The report of a device in a list: its name is right, or could not be had. -/
def Lists (fates : List (Fate ProtonError)) (e : Entry) (d : Device) : Prop :=
  ∃ deviceType name, e.OfType deviceType ∧ d = e.device deviceType name e.creationTime ∧
    (name = .ok (utf8 e.name) ∨ Disturbed fates ∧ ∃ err, name = .error err)

/-- A call that fails even if all its requests are answered. -/
def Unable (entries : List Entry) : UserCall → Prop
  | .create _ _ _ => False
  | .rename uid _ => uid ∉ entries.map Entry.uid ∨ ∃ e ∈ entries, ∀ t, ¬ e.OfType t
  | .delete uid => uid ∉ entries.map Entry.uid
  | .enumerate => ∃ e ∈ entries, ∀ t, ¬ e.OfType t

/-- A device that is made with this name. -/
structure Entry.Made (e : Entry) (name : String) (deviceType : DeviceType) : Prop where
  name_eq : e.name = name
  ofType : e.OfType deviceType
  root_eq : e.rootFolderUid.volumeId = o.volumeId
  lastSyncTime_eq : e.lastSyncTime = none
  deprecatedName_eq : e.deprecatedName = false

/-- What the call has done to the list. It did what it was asked, and said so; or a request was
disturbed, and it failed, although the last request may have been carried out; or it could do nothing.
A device is made each time the request for it is carried out. A rename clears the old copy of a name
first, and that may be all it does. -/
inductive Explains (entries : List Entry) (step : Step o)
    (outcome : Except ProtonError (List Device)) : List Event → Prop
  | registered {name : String} {deviceType : DeviceType} {now : Int} {es : List Entry}
      (hcall : step.call = .create name deviceType now) (hmade : ∀ e ∈ es, e.Made o name deviceType)
      (hcopies : Copies step.fates es.length)
      (houtcome : (∃ e, es.getLast? = some e ∧
          outcome = .ok [e.device deviceType (.ok (utf8 name)) now]) ∨
        Disturbed step.fates ∧ ∃ err, outcome = .error err) :
      Explains entries step outcome (es.map .registered)
  | renamed {e : Entry} {deviceType : DeviceType} {name : String} {cleared : Bool}
      (hcall : step.call = .rename e.uid name) (hmem : e ∈ entries) (htype : e.OfType deviceType)
      (hcleared : cleared ∨ ¬ e.deprecatedName ∨ Disturbed step.fates)
      (houtcome : outcome = .ok [e.device deviceType (.ok (utf8 name)) e.creationTime] ∨
        Disturbed step.fates ∧ ∃ err, outcome = .error err) :
      Explains entries step outcome [.changed e.uid (some name) cleared]
  | cleared {e : Entry} {name : String} (hcall : step.call = .rename e.uid name) (hmem : e ∈ entries)
      (hdeprecated : e.deprecatedName)
      (houtcome : Disturbed step.fates ∧ ∃ err, outcome = .error err) :
      Explains entries step outcome [.changed e.uid none true]
  | removed {uid : DeviceUid} (hcall : step.call = .delete uid)
      (houtcome : outcome = .ok [] ∨
        Disturbed step.fates ∧ ∃ err, outcome = .error err) :
      Explains entries step outcome [.removed uid]
  | listed {devices : List Device} (hcall : step.call = .enumerate)
      (hlists : List.Forall₂ (Lists step.fates) entries devices)
      (houtcome : outcome = .ok devices) : Explains entries step outcome []
  | failed {err : ProtonError} (houtcome : outcome = .error err)
      (hreason : Disturbed step.fates ∨ Unable entries step.call) : Explains entries step outcome []

/-! ## What the server keeps for a device -/

/-- The account's keys open the share of a device, and its key the root folder and the name, whose
session key is in the leading packet. -/
structure Shows (born : NodeUid → Option Key) (r : Registered) (e : Entry) : Prop where
  uid_eq : r.uid = e.uid
  deviceType_eq : r.deviceType = e.deviceType
  root_eq : r.rootUid = e.rootFolderUid
  creationTime_eq : r.creationTime = e.creationTime
  lastSyncTime_eq : r.lastSyncTime = e.lastSyncTime
  shareId_eq : r.share.id = e.shareId
  deprecatedName_eq : r.shareName.any (fun name => !name.isEmpty) = e.deprecatedName
  born_eq : born r.rootUid = some r.root.key.key
  opens : ∃ shareKey session,
    decryptShareKey (o.keysOf r.share.addressId) r.share = .ok shareKey ∧
    decryptContentKey shareKey r.root.name = .ok session ∧
    decryptLink shareKey r.root = .ok ⟨r.root.key.key, utf8 e.name⟩

/-- The devices of the server are those of the list, and the cached folder keys are right. -/
structure Follows (s : World) (entries : List Entry) : Prop where
  shows : List.Forall₂ (Shows o s.bornKey) s.devices entries
  uids : (entries.map Entry.uid).Nodup
  shareIds : (entries.map Entry.shareId).Nodup
  roots : (entries.map Entry.rootFolderUid).Nodup
  cached : ∀ uid key, s.folderKeys uid = some key → s.bornKey uid = some key

end

end ProtonDrive.Devices
