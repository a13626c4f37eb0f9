import ProtonDrive.Sdk.Recipients
import ProtonDrive.Drive.Node

/-!
# The share of a node

`ensure_node_share`: a node that is shared has a share passphrase, encrypted to its node key and to
others, and the session key of the passphrase is what an invitation hands on. A node that is not
shared yet gets a share, whose passphrase is encrypted to the node key and to the owner's address
key, in that order.

* `run_ensureNodeShare_shared` — the session key comes from the leading packet of the passphrase.
* `recover_createNodeShare` — the node key recovers that of a share the client made itself.
* `recovers_iff_first` — of several recipients the first one recovers the session key.
-/

namespace ProtonDrive.Recipients

open OpenPgp (Bytes)

/-! ## The calls -/

structure ShareLink where
  id : LinkId
  passphrase : Message
  name : Message

structure ShareDetails where
  link : ShareLink
  sharing : Option ShareId

structure GeneratedNodeKey where
  key : PrivateKey
  passphrase : Bytes

/-- A detached signature. -/
structure Signature where
  signer : Nat
  data : Bytes

structure StandardShareMaterial where
  shareKey : GeneratedNodeKey
  sharePassphrase : Message
  sharePassphraseSignature : Signature
  passphraseKeyPacket : Packet
  nameKeyPacket : Packet
  shareSessionKey : ContentKey

structure CreateShareRequest where
  rootLinkId : LinkId
  addressId : String
  name : String
  shareKey : GeneratedNodeKey
  sharePassphrase : Message
  sharePassphraseSignature : Signature
  passphraseKeyPacket : Packet
  nameKeyPacket : Packet

/-- What `ensure_node_share` asks of the client and of the server. -/
structure ShareClient where
  getLinkDetails : NodeUid → Except ProtonError (List ShareDetails)
  resolveParentKey : VolumeId → ShareLink → Except ProtonError PrivateKey
  /-- The node key of a link, under the key of its parent. -/
  decryptLink : PrivateKey → ShareLink → Except ProtonError PrivateKey
  /-- The id and the email of the owning address, and its key. -/
  membershipAddressFor : NodeUid → Except ProtonError (String × String × PrivateKey)
  /-- The passphrase of a share. -/
  getShare : ShareId → Except ProtonError Message
  createShare : VolumeId → CreateShareRequest → Except ProtonError ShareId

/-- The key and the session key of a new share are random, and arguments here. -/
def buildStandardShareMaterial (generated : GeneratedNodeKey) (shareSessionKey : ContentKey)
    (nodeKey : PrivateKey) (nodePassphraseSessionKey nodeNameSessionKey : ContentKey)
    (addressKey : PrivateKey) : Except ProtonError StandardShareMaterial := do
  let sharePassphrase ←
    encryptMessageTo shareSessionKey [nodeKey, addressKey] generated.passphrase
  let passphraseKeyPacket ← nodePassphraseSessionKey.toPacket generated.key
  let nameKeyPacket ← nodeNameSessionKey.toPacket generated.key
  return {
    shareKey := generated
    sharePassphrase := sharePassphrase
    sharePassphraseSignature := ⟨addressKey.primaryKey.id, generated.passphrase⟩
    passphraseKeyPacket := passphraseKeyPacket
    nameKeyPacket := nameKeyPacket
    shareSessionKey := shareSessionKey }

variable (c : ShareClient) (generated : GeneratedNodeKey) (fresh : ContentKey)

/-- The branch of a node that is not shared yet. -/
def createNodeShare (uid : NodeUid) (link : ShareLink) (parentKey nodeKey : PrivateKey)
    (address : String × String × PrivateKey) :
    Except ProtonError (ShareId × ContentKey × String × PrivateKey) := do
  let nodePassphraseSk ← recoverMessageSessionKey parentKey link.passphrase
  let nodeNameSk ← recoverMessageSessionKey parentKey link.name
  let material ← buildStandardShareMaterial generated fresh nodeKey nodePassphraseSk nodeNameSk
    address.2.2
  let shareId ← c.createShare uid.volumeId {
    rootLinkId := uid.linkId
    addressId := address.1
    name := "New Share"
    shareKey := material.shareKey
    sharePassphrase := material.sharePassphrase
    sharePassphraseSignature := material.sharePassphraseSignature
    passphraseKeyPacket := material.passphraseKeyPacket
    nameKeyPacket := material.nameKeyPacket }
  return (shareId, material.shareSessionKey, address.2.1, address.2.2)

def nodeNotFound : ProtonError := .invalidOperation "node not found"

def ensureNodeShare (uid : NodeUid) :
    Except ProtonError (ShareId × ContentKey × String × PrivateKey) := do
  let details ← c.getLinkDetails uid
  match details.find? (fun detail => detail.link.id == uid.linkId) with
  | none => throw nodeNotFound
  | some detail =>
      let parentKey ← c.resolveParentKey uid.volumeId detail.link
      let nodeKey ← c.decryptLink parentKey detail.link
      let address ← c.membershipAddressFor uid
      match detail.sharing with
      | some shareId =>
          let passphrase ← c.getShare shareId
          let shareSessionKey ← recoverMessageSessionKey nodeKey passphrase
          return (shareId, shareSessionKey, address.2.1, address.2.2)
      | none => createNodeShare c generated fresh uid detail.link parentKey nodeKey address

/-! ## What it hands out -/

/-- The node is shared, with that passphrase, and the server and the client's keys are at hand. -/
structure SharedWith (c : ShareClient) (uid : NodeUid) (nodeKey : PrivateKey) (shareId : ShareId)
    (passphrase : Message) (address : String × String × PrivateKey) : Prop where
  details : ∃ details detail parentKey, c.getLinkDetails uid = .ok details ∧
    details.find? (fun detail => detail.link.id == uid.linkId) = some detail ∧
    detail.sharing = some shareId ∧ c.resolveParentKey uid.volumeId detail.link = .ok parentKey ∧
    c.decryptLink parentKey detail.link = .ok nodeKey
  address : c.membershipAddressFor uid = .ok address
  share : c.getShare shareId = .ok passphrase

variable {c generated fresh} {uid : NodeUid} {nodeKey : PrivateKey} {shareId : ShareId}
  {passphrase : Message} {address : String × String × PrivateKey}

theorem run_ensureNodeShare_shared (h : SharedWith c uid nodeKey shareId passphrase address) :
    ensureNodeShare c generated fresh uid = do
      let shareSessionKey ← recoverMessageSessionKey nodeKey passphrase
      return (shareId, shareSessionKey, address.2.1, address.2.2) := by
  obtain ⟨details, detail, parentKey, hdetails, hfind, hsharing, hparent, hlink⟩ := h.details
  unfold ensureNodeShare
  rw [hdetails]
  -- The reads of the source, each of which the hypothesis answers.
  show (match details.find? _ with | none => _ | some detail => _) = _
  rw [hfind]
  show (c.resolveParentKey _ _ >>= _) = _
  rw [hparent]
  show (c.decryptLink _ _ >>= _) = _
  rw [hlink]
  show (c.membershipAddressFor _ >>= _) = _
  rw [h.address]
  show (match detail.sharing with | some shareId => _ | none => _) = _
  rw [hsharing]
  show (c.getShare _ >>= _) = _
  rw [h.share]
  rfl

variable {session : ContentKey} {recipients : List PrivateKey} {data : Bytes} {message : Message}
  {key first : PrivateKey} {part : KeyPart}

/-- The first recipient always recovers the session key. -/
theorem recovers_first (h : encryptMessageTo session (key :: recipients) data = .ok message) :
    Recovers key message session data := by
  obtain ⟨-, packets, hpackets, -⟩ := encryptMessageTo_eq_ok.mp h
  cases hpackets with
  | cons hpacket _ =>
      obtain ⟨part, hpart, -⟩ := toPacket_cases hpacket
      exact (recovers_iff h hpart).mpr (holds_recipientEncryptionKey hpart)

/-- A share that the client made has a passphrase whose session key its node key recovers. -/
theorem recover_createNodeShare {link : ShareLink} {parentKey : PrivateKey}
    {share : ShareId × ContentKey × String × PrivateKey}
    (h : createNodeShare c generated fresh uid link parentKey nodeKey address = .ok share) :
    ∃ request, c.createShare uid.volumeId request = .ok share.1 ∧
      recoverMessageSessionKey nodeKey request.sharePassphrase = .ok share.2.1 := by
  obtain ⟨passphraseSk, -, h⟩ := Except.bind_eq_ok.mp h
  obtain ⟨nameSk, -, h⟩ := Except.bind_eq_ok.mp h
  obtain ⟨material, hmaterial, h⟩ := Except.bind_eq_ok.mp h
  obtain ⟨shareId, hshare, h⟩ := Except.bind_eq_ok.mp h
  cases h
  refine ⟨_, hshare, ?_⟩
  obtain ⟨sharePassphrase, hencrypt, hmaterial⟩ := Except.bind_eq_ok.mp hmaterial
  obtain ⟨passphraseKeyPacket, -, hmaterial⟩ := Except.bind_eq_ok.mp hmaterial
  obtain ⟨nameKeyPacket, -, hmaterial⟩ := Except.bind_eq_ok.mp hmaterial
  cases hmaterial
  exact (recovers_first hencrypt).session_eq

/-- The calls for a shared node hand out the session key exactly if the node key recovers it. -/
theorem ensureNodeShare_eq_ok (h : SharedWith c uid nodeKey shareId passphrase address) :
    ensureNodeShare c generated fresh uid = .ok (shareId, session, address.2.1, address.2.2) ↔
      recoverMessageSessionKey nodeKey passphrase = .ok session := by
  rw [run_ensureNodeShare_shared h, Except.bind_eq_ok]
  constructor
  · rintro ⟨session', hsession, heq⟩
    cases heq
    exact hsession
  · intro hsession
    exact ⟨session, hsession, rfl⟩

/-! ## Among several recipients -/

/-- Keys that have no (sub)key in common. -/
def Apart (key key' : PrivateKey) : Prop := ∀ p ∈ key.parts, ∀ q ∈ key'.parts, p.id ≠ q.id

/-- Of keys that are apart, the first is the one that holds its (sub)key. -/
theorem holds_iff_first (hapart : (first :: recipients).Pairwise Apart)
    (hpart : recipientEncryptionKey first = .ok part) (hmem : key ∈ first :: recipients) :
    key.Holds part ↔ key = first := by
  constructor
  · rintro ⟨p, hp, hid⟩
    rcases List.mem_cons.mp hmem with rfl | hmem
    · rfl
    · exact absurd hid.symm
        ((List.pairwise_cons.mp hapart).1 key hmem part (recipientEncryptionKey_mem hpart) p hp)
  · rintro rfl
    exact holds_recipientEncryptionKey hpart

theorem all_first_iff (hapart : (first :: recipients).Pairwise Apart) :
    (∀ key ∈ first :: recipients, key = first) ↔ (first :: recipients).length = 1 := by
  cases recipients with
  | nil => simp
  | cons second recipients =>
      have hne : second ≠ first := by
        rintro rfl
        have happart := (List.pairwise_cons.mp hapart).1 second List.mem_cons_self
        exact happart _ List.mem_cons_self _ List.mem_cons_self rfl
      simp [hne]

/-- A recipient recovers the session key, rewraps the message and shares its node exactly if it
holds what the first recipient is encrypted to; of keys that are apart only the first does, and all
do exactly if there is one. -/
theorem recovers_iff_first (hmessage : encryptMessageTo session recipients data = .ok message) :
    ∃ first part, recipients.head? = some first ∧ recipientEncryptionKey first = .ok part ∧
      ((∀ key ∈ recipients, Recovers key message session data) ↔
        ∀ key ∈ recipients, key.Holds part) ∧
      (∀ c generated fresh uid nodeKey shareId address,
        SharedWith c uid nodeKey shareId message address →
          (ensureNodeShare c generated fresh uid =
            .ok (shareId, session, address.2.1, address.2.2) ↔ nodeKey.Holds part)) ∧
      (recipients.Pairwise Apart →
        ((∀ key ∈ recipients, Recovers key message session data) ↔ recipients.length = 1) ∧
        ∀ key ∈ recipients, (key.Holds part ↔ recipients.head? = some key)) := by
  cases recipients with
  | nil => exact absurd rfl (encryptMessageTo_eq_ok.mp hmessage).1
  | cons first recipients =>
      obtain ⟨-, packets, hpackets, -⟩ := encryptMessageTo_eq_ok.mp hmessage
      obtain ⟨part, hpart⟩ : ∃ part, recipientEncryptionKey first = .ok part := by
        cases hpackets with
        | cons hpacket _ =>
            obtain ⟨part, hpart, -⟩ := toPacket_cases hpacket
            exact ⟨part, hpart⟩
      have hall : (∀ key ∈ first :: recipients, Recovers key message session data) ↔
          ∀ key ∈ first :: recipients, key.Holds part :=
        -- The session comes from the first packet alone, for the members and for the owner.
        forall₂_congr fun key _ => recovers_iff hmessage hpart
      refine ⟨first, part, rfl, hpart, hall, ?_, ?_⟩
      · intro c generated fresh uid nodeKey shareId address hshared
        rw [ensureNodeShare_eq_ok hshared]
        exact recoverMessageSessionKey_eq_ok hmessage hpart
      · -- Keys that are apart: only the first one holds the part of the first packet.
        intro hapart
        refine ⟨?_, ?_⟩
        · rw [hall, ← all_first_iff hapart]
          exact forall₂_congr fun key hmem => holds_iff_first hapart hpart hmem
        · intro key hmem
          rw [holds_iff_first hapart hpart hmem, List.head?_cons, Option.some.injEq, eq_comm]

/-- A key that signs, with a subkey to encrypt to. -/
def signingKey (n : Nat) : PrivateKey := ⟨⟨n, false⟩, [⟨n + 1, true⟩]⟩

/-- Of a message to two keys, not both recover the session key. -/
theorem signingKey_recovers :
    ∃ message, encryptMessageTo (.v3_4 9 [7]) [signingKey 1, signingKey 3] [42] = .ok message ∧
      ¬ ∀ key ∈ [signingKey 1, signingKey 3], Recovers key message (.v3_4 9 [7]) [42] := by
  have hmessage : ∃ message,
      encryptMessageTo (.v3_4 9 [7]) [signingKey 1, signingKey 3] [42] = .ok message := ⟨_, rfl⟩
  obtain ⟨message, hmessage⟩ := hmessage
  obtain ⟨first, part, -, -, -, -, hapart⟩ := recovers_iff_first hmessage
  refine ⟨message, hmessage, ?_⟩
  rw [(hapart (by simp [Apart, signingKey, PrivateKey.parts])).1]
  decide

/-- The other recipient reads the data and recovers no session key, nor does a node whose key it is
hand one out. -/
theorem second_recipient_not_recovers :
    ∃ message, encryptMessageTo (.v3_4 9 [7]) [signingKey 1, signingKey 3] [42] = .ok message ∧
      decryptArmoredMessage (signingKey 3) message = .ok [42] ∧
      recoverMessageSessionKey (signingKey 3) message =
        .error (OpenPgp.decryptError "content key (subkey)") ∧
      rewrapMessageTo (signingKey 3) message (signingKey 5) =
        .error (OpenPgp.decryptError "content key (subkey)") ∧
      ensureNodeShare
          { getLinkDetails := fun _ => .ok [⟨⟨1, [], []⟩, some "share"⟩]
            resolveParentKey := fun _ _ => .ok (signingKey 9)
            decryptLink := fun _ _ => .ok (signingKey 3)
            membershipAddressFor := fun _ => .ok ("id", "me@example.test", signingKey 1)
            getShare := fun _ => .ok message
            createShare := fun _ _ => .error nodeNotFound }
          ⟨signingKey 7, []⟩ (.v3_4 9 [8]) ⟨1, 1⟩ =
        .error (OpenPgp.decryptError "content key (subkey)") :=
  ⟨_, rfl, rfl, rfl, rfl, rfl⟩

end ProtonDrive.Recipients
