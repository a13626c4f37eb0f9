import ProtonDrive.Drive.Create
import ProtonDrive.Drive.Listings
import ProtonDrive.Sdk.Account

/-!
# Root shares

The share and the root folder of a volume, and likewise of a device. The passphrase of the share is
encrypted to an address key, that of the folder and its name to the share key, and the folder's hash
key to the folder's own. What a new one is made of is random, and arguments here.

* `decryptShareKey_material` — the address key opens the share.
* `decryptLink_material` — the share key opens the root folder and its name.
* `decryptShareKey_error` — a share that the keys do not open is an error of the cryptography.
-/

namespace ProtonDrive

open OpenPgp

/-! ## Writing -/

/-- The secrets of a new share with its root folder. -/
structure VolumeSecrets where
  share : GeneratedNodeKey
  folder : GeneratedNodeKey
  hashKey : Bytes
  sharePassphraseSession : Session
  nameSession : Session
  folderPassphraseSession : Session
  hashKeySession : Session
  deriving DecidableEq, Repr

structure VolumeCreationMaterial where
  shareKeyArmored : LockedKey
  sharePassphrase : Message
  sharePassphraseSignature : Signature
  folderName : Message
  folderKeyArmored : LockedKey
  folderPassphrase : Message
  folderPassphraseSignature : Signature
  folderHashKey : Message
  deriving DecidableEq, Repr

def buildVolumeCreationMaterial (addressKey : Key) (rootFolderName : Bytes)
    (secrets : VolumeSecrets) : VolumeCreationMaterial where
  shareKeyArmored := secrets.share.lockedArmored
  sharePassphrase :=
    encrypt addressKey secrets.sharePassphraseSession secrets.share.passphrase
  sharePassphraseSignature := signDetached addressKey secrets.share.passphrase
  folderName := encryptAndSign secrets.share.key addressKey secrets.nameSession rootFolderName
  folderKeyArmored := secrets.folder.lockedArmored
  folderPassphrase :=
    encrypt secrets.share.key secrets.folderPassphraseSession secrets.folder.passphrase
  folderPassphraseSignature := signDetached addressKey secrets.folder.passphrase
  folderHashKey := encryptAndSign secrets.folder.key addressKey secrets.hashKeySession secrets.hashKey

/-! ## Reading -/

structure ShareDto where
  id : ShareId
  key : LockedKey
  passphrase : Message
  addressId : String
  deriving DecidableEq, Repr

/-- The share key, for an account whose address has these keys. -/
def decryptShareKey (addressKeys : List Key) (share : ShareDto) : Except ProtonError Key := do
  let passphrase ← decryptArmoredWithKeys share.passphrase addressKeys
  fromArmored share.key passphrase

def ProtonError.isCrypto : ProtonError → Bool
  | .crypto _ => true
  | _ => false

variable {key : Key} {keys : List Key} {e : ProtonError}

theorem decryptArmoredMessage_error {message : Message}
    (h : decryptArmoredMessage key message = .error e) : e.isCrypto := by
  unfold decryptArmoredMessage at h
  split at h
  · split at h <;> cases h
    rfl
  · cases h
    rfl
  · cases h
    rfl

theorem decryptShareKey_error {share : ShareDto} (h : decryptShareKey keys share = .error e) :
    e.isCrypto := by
  unfold decryptShareKey at h
  cases hpassphrase : decryptArmoredWithKeys share.passphrase keys with
  | error e' =>
      rw [hpassphrase] at h
      cases h
      exact Except.firstOk_error (fun e => e.isCrypto = true) rfl
        (fun _ _ => decryptArmoredMessage_error) hpassphrase
  | ok passphrase =>
      rw [hpassphrase] at h
      change fromArmored share.key passphrase = .error e at h
      unfold fromArmored at h
      split at h <;> cases h
      rfl

/-! ## What is written is read -/

variable (addressKey : Key) (name : Bytes) (secrets : VolumeSecrets)

theorem validateUTF8_toUTF8 (text : String) :
    ByteArray.validateUTF8 ⟨text.toUTF8.data.toList.toArray⟩ = true :=
  ByteArray.validateUTF8_eq_true_iff.mpr text.isValidUTF8

/-- The address key opens the share. -/
theorem decryptShareKey_material (hmem : addressKey ∈ keys) {dto : ShareDto}
    (hkey : dto.key = (buildVolumeCreationMaterial addressKey name secrets).shareKeyArmored)
    (hpassphrase :
      dto.passphrase = (buildVolumeCreationMaterial addressKey name secrets).sharePassphrase) :
    decryptShareKey keys dto = .ok secrets.share.key := by
  have hread := decryptArmoredWithKeys_of_mem hmem (decrypt_encrypt addressKey
    secrets.sharePassphraseSession secrets.share.passphrase)
  unfold decryptShareKey
  rw [hkey, hpassphrase]
  show (decryptArmoredWithKeys (encrypt addressKey secrets.sharePassphraseSession
    secrets.share.passphrase) keys >>= _) = _
  rw [hread]
  exact secrets.share.unlocks

/-- The share key opens the root folder and its name. -/
theorem decryptLink_material (hname : ByteArray.validateUTF8 ⟨name.toArray⟩ = true) {link : Link}
    (hkey : link.key = (buildVolumeCreationMaterial addressKey name secrets).folderKeyArmored)
    (hpassphrase :
      link.passphrase = (buildVolumeCreationMaterial addressKey name secrets).folderPassphrase)
    (hlink : link.name = (buildVolumeCreationMaterial addressKey name secrets).folderName) :
    decryptLink secrets.share.key link = .ok ⟨secrets.folder.key, name⟩ := by
  obtain ⟨hlocked, hunlocked⟩ := fromArmored_eq_ok.mp secrets.folder.unlocks
  apply decryptLink_eq_ok.mpr
  rw [hkey, hpassphrase, hlink]
  refine ⟨?_, hunlocked, decrypt_encryptAndSign _ _ _ _, hname⟩
  show decryptArmoredMessage _ (encrypt _ _ _) = _
  rw [decrypt_encrypt]
  exact congrArg Except.ok hlocked.symm

end ProtonDrive
