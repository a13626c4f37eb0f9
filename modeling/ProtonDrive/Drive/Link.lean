import ProtonDrive.Drive.Ids
import ProtonDrive.Sdk.OpenPgp

/-!
# Links

What the server holds of a node, with the fields that the key tree, the names and the caches are
made of: the parts of `LinkDto` and of the folder block of its details that the modelled functions
read.
-/

namespace ProtonDrive

open OpenPgp

/-- A name hash: the lowercase hex of an HMAC. -/
abbrev NameHash := Bytes

structure Link where
  id : LinkId
  parentId : Option LinkId
  name : Message
  nameHash : Option NameHash
  key : LockedKey
  passphrase : Message
  passphraseSignature : Option Signature
  signatureEmail : Option String
  nameSignatureEmail : Option String
  /-- The hash key of a folder or an album; `none` for a file. -/
  hashKey : Option Message
  deriving DecidableEq, Repr

/-- The links of a server, by id. -/
abbrev Links := LinkId → Option Link

structure DecryptedLink where
  nodeKey : Key
  name : Bytes
  deriving DecidableEq, Repr

def notUtf8 : ProtonError := .invalidOperation "node name is not valid UTF-8"

/-- Decrypt a link's passphrase and name with its parent's key, and unlock its own key. -/
def decryptLink (parentKey : Key) (link : Link) : Except ProtonError DecryptedLink := do
  let passphrase ← decryptArmoredMessage parentKey link.passphrase
  let nodeKey ← fromArmored link.key passphrase
  let name ← decryptArmoredMessage parentKey link.name
  if ByteArray.validateUTF8 ⟨name.toArray⟩ then .ok ⟨nodeKey, name⟩ else .error notUtf8

theorem decryptLink_eq_ok {parentKey : Key} {link : Link} {d : DecryptedLink} :
    decryptLink parentKey link = .ok d ↔
      decryptArmoredMessage parentKey link.passphrase = .ok link.key.passphrase ∧
      link.key.key = d.nodeKey ∧
      decryptArmoredMessage parentKey link.name = .ok d.name ∧
      ByteArray.validateUTF8 ⟨d.name.toArray⟩ = true := by
  unfold decryptLink
  simp only [Except.bind_eq_ok, fromArmored_eq_ok, Except.guard_eq_ok, Except.ok.injEq]
  constructor
  · rintro ⟨passphrase, hp, nodeKey, ⟨rfl, rfl⟩, name, hn, hutf, rfl⟩
    exact ⟨hp, rfl, hn, hutf⟩
  · rintro ⟨hp, hk, hn, hutf⟩
    exact ⟨_, hp, _, ⟨rfl, hk⟩, _, hn, hutf, rfl⟩

/-- Whatever key opens a link, what comes out is the key locked in it. -/
theorem decryptLink_nodeKey {parentKey : Key} {link : Link} {d : DecryptedLink}
    (h : decryptLink parentKey link = .ok d) : d.nodeKey = link.key.key :=
  (decryptLink_eq_ok.mp h).2.1.symm

end ProtonDrive
