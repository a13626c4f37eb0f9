import ProtonDrive.Lib.Lossy
import ProtonDrive.Lib.Once
import ProtonDrive.Drive.RootShares

/-!
# Bootstrap

`ensure_my_files` and `ensure_photos`: the first call that needs the account's volume finds its share,
unlocks it and caches it. An account without a My Files volume gets one, and so does an account whose
volume was locked, once the server has said that no active regular volume is left.

The calls race for the guard of a cell (`Once`), any of them may be dropped while it waits for an
answer, answers are lost, and the account changes under them: other clients create, lock and restore
volumes, and a request whose caller is gone may still reach the server later.

* `createVolume` — the only question that changes something on the server.
* `ensureMyFiles`, `ensurePhotos` — the calls, behind the guard and when nothing is cached.
-/

namespace ProtonDrive.Bootstrap

open OpenPgp
open Account (Address)

/-! ## The calls -/

structure MyFilesShareResponse where
  volumeId : VolumeId
  share : ShareDto
  link : Link
  deriving DecidableEq, Repr

structure VolumeListItem where
  id : VolumeId
  state : Int
  volumeType : Option Int
  deriving DecidableEq, Repr

structure VolumeCreationRequest where
  addressId : String
  addressKeyId : String
  shareKey : LockedKey
  sharePassphrase : Message
  sharePassphraseSignature : Signature
  folderName : Message
  folderKey : LockedKey
  folderPassphrase : Message
  folderPassphraseSignature : Signature
  folderHashKey : Message
  deriving DecidableEq, Repr

/-- What a call waits for. -/
inductive Question where
  | myFilesShare
  | photosShare
  | volumes
  | createVolume (request : VolumeCreationRequest)
  | defaultAddress
  | addressPrivateKeys (addressId : String)
  /-- The random choices for a new volume. -/
  | secrets

@[reducible] def Question.Answer : Question → Type
  | .myFilesShare => MyFilesShareResponse
  | .photosShare => MyFilesShareResponse
  | .volumes => List VolumeListItem
  | .createVolume _ => Unit
  | .defaultAddress => Address
  | .addressPrivateKeys _ => List Key
  | .secrets => VolumeSecrets

abbrev Asking (α : Type) := Dialogue Question Question.Answer ProtonError α

def ask (q : Question) : Asking q.Answer := .call q

structure ShareKey where
  shareId : ShareId
  addressId : String
  key : Key
  deriving DecidableEq, Repr

/-- What the cache is given at once: a volume, its root folder and that folder's key, its share. -/
structure CachedVolume where
  volumeId : VolumeId
  root : NodeUid
  rootKey : Key
  share : ShareKey
  deriving DecidableEq, Repr

/-- Both the code in the envelope and a bare HTTP status occur. -/
def isNotFound : ProtonError → Bool
  | .api e => e.code == .doesNotExist || e.httpStatus == 404
  | _ => false

/-- A volume without a type counts as regular. -/
def hasActiveRegularVolume (volumes : List VolumeListItem) : Bool :=
  volumes.any (fun v => v.state == 1 && v.volumeType.getD 1 == 1)

def noPrimaryKey : ProtonError := .invalidOperation "default address has no primary key"

def rootName : Bytes := "root".toUTF8.data.toList

def primaryKey (address : Address) (addressKeys : List Key) : Except ProtonError Key :=
  match addressKeys[address.primaryKeyIndex]? with
  | some key => .ok key
  | none => .error noPrimaryKey

def creationRequest (address : Address) (material : VolumeCreationMaterial) :
    VolumeCreationRequest where
  addressId := address.id
  addressKeyId := address.primaryKeyId
  shareKey := material.shareKeyArmored
  sharePassphrase := material.sharePassphrase
  sharePassphraseSignature := material.sharePassphraseSignature
  folderName := material.folderName
  folderKey := material.folderKeyArmored
  folderPassphrase := material.folderPassphrase
  folderPassphraseSignature := material.folderPassphraseSignature
  folderHashKey := material.folderHashKey

def createVolume : Asking Unit := do
  let address ← ask .defaultAddress
  let addressKeys ← ask (.addressPrivateKeys address.id)
  let addressKey ← .ofExcept (primaryKey address addressKeys)
  let secrets ← ask .secrets
  ask (.createVolume (creationRequest address
    (buildVolumeCreationMaterial addressKey rootName secrets)))

/-- `decrypt_share_key`. -/
def unlockShare (share : ShareDto) : Asking Key := do
  let addressKeys ← ask (.addressPrivateKeys share.addressId)
  .ofExcept (decryptShareKey addressKeys share)

def openRoot (response : MyFilesShareResponse) (shareKey : Key) : Except ProtonError CachedVolume := do
  let decryptedRoot ← decryptLink shareKey response.link
  return {
    volumeId := response.volumeId
    root := ⟨response.volumeId, response.link.id⟩
    rootKey := decryptedRoot.nodeKey
    share := ⟨response.share.id, response.share.addressId, shareKey⟩ }

/-- The share of the volume, which is created if there is none. -/
def getOrCreateShare : Asking MyFilesShareResponse := do
  match ← (ask .myFilesShare).attempt with
  | .ok response => pure response
  | .error e =>
      if isNotFound e then do
        createVolume
        ask .myFilesShare
      else .fail e

/-- The share and its key, of a new volume if this one is locked. -/
def unlockOrReplace (response : MyFilesShareResponse) : Asking (MyFilesShareResponse × Key) := do
  match ← (unlockShare response.share).attempt with
  | .ok key => pure (response, key)
  | .error e =>
      if e.isCrypto then do
        let volumes ← ask .volumes
        if hasActiveRegularVolume volumes then .fail e
        else do
          createVolume
          let replacement : MyFilesShareResponse ← ask .myFilesShare
          let key ← unlockShare replacement.share
          pure (replacement, key)
      else .fail e

/-- `ensure_my_files` behind the guard, when nothing is cached. -/
def ensureMyFiles : Asking CachedVolume := do
  let response ← getOrCreateShare
  let unlocked ← unlockOrReplace response
  .ofExcept (openRoot unlocked.1 unlocked.2)

/-- `ensure_photos` behind the guard. That there is no photos volume is cached as well. -/
def ensurePhotos : Asking (Option CachedVolume) := do
  match ← (ask .photosShare).attempt with
  | .error (.api e) => if e.code = .doesNotExist then pure none else .fail (.api e)
  | .error e => .fail e
  | .ok (response : MyFilesShareResponse) => do
      let shareKey ← unlockShare response.share
      some <$> .ofExcept (openRoot response shareKey)

end ProtonDrive.Bootstrap
