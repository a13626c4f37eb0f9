import ProtonDrive.Sdk.Srp
import ProtonDrive.Drive.NodeShare

/-!
# Who unlocks a share

The passphrase of a share is encrypted once. Whoever may unlock the share gets its session key in a
packet of their own: the owner's keys in the message itself, a member in the key packet of the
invitation, the visitors of a public link in one that is sealed with a password. The server puts
the packet in front of the data.

* `decrypt_rekey` — the message with another key packet reads the same.
* `decrypt_rekeyWithPassword` — and so it does under a password.
* `decryptShareKey_rekey` — a member unlocks the share with the packet of the invitation.
-/

namespace ProtonDrive.Recipients

open OpenPgp (Bytes parseError decryptError unlockError)

/-! ## Public keys -/

structure PublicKey where
  primaryKey : KeyPart
  publicSubkeys : List KeyPart
  deriving DecidableEq, Repr

def PrivateKey.publicKey (key : PrivateKey) : PublicKey := ⟨key.primaryKey, key.secretSubkeys⟩

def recipientEncryptionKeyPublic (key : PublicKey) : Except ProtonError KeyPart :=
  if key.primaryKey.canEncrypt then .ok key.primaryKey
  else
    match key.publicSubkeys.find? KeyPart.canEncrypt with
    | some sub => .ok sub
    | none => .error (encryptError "public key has no encryption-capable (sub)key")

def ContentKey.toPacketForPublic (session : ContentKey) (pubkey : PublicKey) :
    Except ProtonError Packet := do
  let (symAlg, key) ← session.sessionParts
  let recipient ← recipientEncryptionKeyPublic pubkey
  return if session.isAead then .pkeskV6 recipient.id key else .pkeskV3 recipient.id symAlg key

/-- The raw key. -/
def ContentKey.exported (session : ContentKey) : Except ProtonError Bytes := do
  let (_, key) ← session.sessionParts
  return key

/-! ## Invitations -/

/-- A detached signature under a context. -/
structure ContextSignature (α : Type) where
  signer : Nat
  data : α
  context : String
  deriving DecidableEq, Repr

def sharingInviterContext : String := "drive.share-member.inviter"

def sharingMemberContext : String := "drive.share-member.member"

def signDetachedBinaryWithContext {α : Type} (signer : PrivateKey) (data : α) (context : String) :
    ContextSignature α := ⟨signer.primaryKey.id, data, context⟩

/-- The key packet and the signature over it. -/
def encryptInvitation (shareSessionKey : ContentKey) (inviterKey : PrivateKey)
    (inviteePublicKey : PublicKey) : Except ProtonError (Packet × ContextSignature Packet) := do
  let keyPacket ← shareSessionKey.toPacketForPublic inviteePublicKey
  return (keyPacket, signDetachedBinaryWithContext inviterKey keyPacket sharingInviterContext)

/-- The signature over the session key that the packet holds for one of the keys. -/
def acceptInvitation (keyPacket : Packet) (inviteeKeys : List PrivateKey)
    (signingKey : PrivateKey) : Except ProtonError (ContextSignature Bytes) :=
  match inviteeKeys.findSome? (fun k => (decryptContentKey k [keyPacket]).toOption) with
  | none => .error (decryptError "no invitee key could decrypt the invitation key packet")
  | some sessionKey => do
      let bytes ← sessionKey.exported
      return signDetachedBinaryWithContext signingKey bytes sharingMemberContext

/-! ## Passwords -/

/-- A session key that is sealed with a password. -/
structure Skesk where
  password : Bytes
  symAlg : Nat
  key : Bytes
  deriving DecidableEq, Repr

def ContentKey.encryptWithPassword (session : ContentKey) (password : Bytes) :
    Except ProtonError Skesk := do
  let (symAlg, key) ← session.sessionParts
  return ⟨password, symAlg, key⟩

/-- A message to whoever knows the password. -/
structure PasswordMessage where
  skesk : Skesk
  body : Message
  deriving DecidableEq, Repr

def decryptArmoredWithPassword (message : PasswordMessage) (password : Bytes) :
    Except ProtonError Bytes :=
  if message.skesk.password = password then
    match serializeSeipd message.body with
    | .ok (.seipd session data) =>
        if session = .v3_4 message.skesk.symAlg message.skesk.key then .ok data
        else .error (decryptError "wrong session key")
    | _ => .error (parseError "message")
  else .error (decryptError "wrong password")

/-- `crypto::derive_key_passphrase`: what bcrypt writes after the variant, the cost and the salt. -/
def deriveKeyPassphrase (p : Srp.Primitives) (password salt : Bytes) : Except ProtonError Bytes :=
  if salt.length ≠ 16 then
    .error (unlockError ("key salt must be 16 bytes, got " ++ toString salt.length))
  else
    match p.bcrypt password 10 salt with
    | .error e => .error (unlockError ("bcrypt: " ++ e))
    | .ok hash =>
        if (String.Pos.Raw.mk 29).isValid hash then .ok (hash.toUTF8.toList.drop 29)
        else .error (unlockError "bcrypt hash shorter than expected")

/-! ## Reading -/

/-- A locked key, and the passphrase it is tried with. -/
def fromArmored (locked : GeneratedNodeKey) (passphrase : Bytes) : Except ProtonError PrivateKey :=
  if locked.passphrase = passphrase then .ok locked.key else .error (unlockError "wrong passphrase")

/-- The keys are tried in turn; the error is the last one's. -/
def decryptArmoredWithKeys (message : Message) (keys : List PrivateKey) : Except ProtonError Bytes :=
  Except.firstOk (decryptArmoredMessage · message) (decryptError "no candidate keys") keys

structure ShareDto where
  id : ShareId
  key : GeneratedNodeKey
  passphrase : Message
  addressId : String

/-- The share key, for an account whose address has these keys. -/
def decryptShareKey (addressKeys : List PrivateKey) (share : ShareDto) :
    Except ProtonError PrivateKey := do
  let passphrase ← decryptArmoredWithKeys share.passphrase addressKeys
  fromArmored share.key passphrase

/-! ## Other key packets -/

def Packet.isData : Packet → Bool
  | .seipd _ _ => true
  | _ => false

/-- The message with another key packet, as the server serves it. -/
def rekey (packet : Packet) (message : Message) : Message := packet :: message.filter Packet.isData

def rekeyWithPassword (skesk : Skesk) (message : Message) : PasswordMessage :=
  ⟨skesk, message.filter Packet.isData⟩

variable {session : ContentKey} {recipients : List PrivateKey} {data : Bytes} {message : Message}
  {key destination : PrivateKey} {packet : Packet}

theorem recipientEncryptionKeyPublic_eq_ok {key : PrivateKey} {part : KeyPart} :
    recipientEncryptionKeyPublic key.publicKey = .ok part ↔
      recipientEncryptionKey key = .ok part := by
  unfold recipientEncryptionKeyPublic recipientEncryptionKey PrivateKey.publicKey
  dsimp only
  split
  · rfl
  · cases key.secretSubkeys.find? KeyPart.canEncrypt <;> simp

/-- A packet for the public half of a key is one for the key. -/
theorem toPacketForPublic_eq_ok :
    session.toPacketForPublic key.publicKey = .ok packet ↔ session.toPacket key = .ok packet := by
  unfold ContentKey.toPacketForPublic ContentKey.toPacket
  simp only [Except.bind_eq_ok, recipientEncryptionKeyPublic_eq_ok]

theorem serializeSeipd_filter : ∀ message : Message,
    serializeSeipd (message.filter Packet.isData) = serializeSeipd message
  | [] => rfl
  | .seipd _ _ :: _ => rfl
  | .pkeskV3 _ _ _ :: rest => serializeSeipd_filter rest
  | .pkeskV6 _ _ :: rest => serializeSeipd_filter rest
  | .literal _ :: rest => serializeSeipd_filter rest

theorem openPacket_findSome? {key : PrivateKey} (h : key.openPacket packet = .ok session) :
    key.parts.findSome? (·.decrypt packet) = some session := by
  unfold PrivateKey.openPacket at h
  unfold PrivateKey.parts
  rw [List.findSome?_cons]
  split at h
  · next hprimary =>
    cases h
    rw [hprimary]
  · next hprimary =>
    rw [hprimary]
    split at h
    · next hsub =>
      cases h
      exact hsub
    · cases h

/-- The leading packet is the one a reader of the message uses. -/
theorem sessionFor_of_decryptContentKey (h : decryptContentKey key message = .ok session) :
    sessionFor key message = some session := by
  cases message with
  | nil => cases h
  | cons packet rest =>
      cases packet with
      | pkeskV3 recipient symAlg sealed =>
          unfold sessionFor
          rw [openPacket_findSome? h]
      | pkeskV6 recipient sealed =>
          unfold sessionFor
          rw [openPacket_findSome? h]
      | seipd s d => cases h
      | literal d => cases h

/-- What a message says is encrypted under the session key that its reader finds. -/
theorem decryptArmoredMessage_eq_ok : decryptArmoredMessage key message = .ok data ↔
    ∃ session, sessionFor key message = some session ∧
      serializeSeipd message = .ok (.seipd session data) := by
  unfold decryptArmoredMessage
  constructor
  · intro h
    split at h
    · next session session' data' hsession hbody =>
      obtain ⟨rfl, hdata⟩ := Except.guard_eq_ok.mp h
      cases hdata
      exact ⟨_, hsession, hbody⟩
    · cases h
    · cases h
  · rintro ⟨session, hsession, hbody⟩
    rw [hsession, hbody]
    exact if_pos rfl

theorem serializeSeipd_of_recover (hsession : recoverMessageSessionKey key message = .ok session)
    (hdata : decryptArmoredMessage key message = .ok data) :
    serializeSeipd message = .ok (.seipd session data) := by
  obtain ⟨session', hsession', hbody⟩ := decryptArmoredMessage_eq_ok.mp hdata
  rw [sessionFor_of_decryptContentKey hsession] at hsession'
  cases hsession'
  exact hbody

theorem sessionFor_rekey (hpacket : session.toPacket destination = .ok packet) :
    sessionFor destination (rekey packet message) = some session := by
  obtain ⟨part, hpart, -⟩ := toPacket_cases hpacket
  unfold rekey
  rw [sessionFor_cons hpacket hpart, if_pos]
  exact holds_recipientEncryptionKey hpart

/-- Where one key recovers the session key and reads the data, the message with a key packet for
another key reads the same with that one. -/
theorem decrypt_rekey (hsession : recoverMessageSessionKey key message = .ok session)
    (hdata : decryptArmoredMessage key message = .ok data)
    (hpacket : session.toPacket destination = .ok packet) :
    decryptArmoredMessage destination (rekey packet message) = .ok data := by
  apply decryptArmoredMessage_eq_ok.mpr
  refine ⟨session, sessionFor_rekey hpacket, ?_⟩
  unfold rekey
  rw [serializeSeipd_cons hpacket, serializeSeipd_filter]
  exact serializeSeipd_of_recover hsession hdata

/-- Under a password as well, if the session key is not one for AEAD. -/
theorem decrypt_rekeyWithPassword {symAlg : Nat} {bytes password : Bytes} {skesk : Skesk}
    (hsession : recoverMessageSessionKey key message = .ok (.v3_4 symAlg bytes))
    (hdata : decryptArmoredMessage key message = .ok data)
    (hskesk : (ContentKey.v3_4 symAlg bytes).encryptWithPassword password = .ok skesk) :
    decryptArmoredWithPassword (rekeyWithPassword skesk message) password = .ok data := by
  cases hskesk
  unfold decryptArmoredWithPassword rekeyWithPassword
  rw [if_pos rfl]
  dsimp only
  rw [serializeSeipd_filter, serializeSeipd_of_recover hsession hdata]
  exact if_pos rfl

/-! ## Keys that are tried in turn -/

/-- Whichever key reads the message, it reads the same. -/
theorem decryptArmoredMessage_unique {key' : PrivateKey} {data' : Bytes}
    (h : decryptArmoredMessage key message = .ok data)
    (h' : decryptArmoredMessage key' message = .ok data') : data' = data := by
  obtain ⟨session, -, hbody⟩ := decryptArmoredMessage_eq_ok.mp h
  obtain ⟨session', -, hbody'⟩ := decryptArmoredMessage_eq_ok.mp h'
  rw [hbody] at hbody'
  cases hbody'
  rfl

theorem findSome?_decryptArmored {keys : List PrivateKey} (hmem : key ∈ keys)
    (hdata : decryptArmoredMessage key message = .ok data) :
    keys.findSome? (fun k => (decryptArmoredMessage k message).toOption) = some data := by
  cases hfound : keys.findSome? (fun k => (decryptArmoredMessage k message).toOption) with
  | none =>
      have hnone := List.findSome?_eq_none_iff.mp hfound key hmem
      rw [hdata] at hnone
      cases hnone
  | some data' =>
      obtain ⟨key', -, hkey'⟩ := List.exists_of_findSome?_eq_some hfound
      rw [decryptArmoredMessage_unique hdata (Except.toOption_eq_some.mp hkey')]

theorem decryptArmoredWithKeys_eq_ok {keys : List PrivateKey} (hmem : key ∈ keys)
    (hdata : decryptArmoredMessage key message = .ok data) :
    decryptArmoredWithKeys message keys = .ok data :=
  Except.firstOk_of_mem hmem hdata (fun _ _ h => decryptArmoredMessage_unique hdata h)

/-- A member unlocks the share with the packet of the invitation. -/
theorem decryptShareKey_rekey {keys : List PrivateKey} {shareKey : GeneratedNodeKey}
    {share : ShareDto} (hsession : recoverMessageSessionKey key message = .ok session)
    (hdata : decryptArmoredMessage key message = .ok shareKey.passphrase)
    (hpacket : session.toPacket destination = .ok packet) (hmem : destination ∈ keys)
    (hkey : share.key = shareKey) (hpassphrase : share.passphrase = rekey packet message) :
    decryptShareKey keys share = .ok shareKey.key := by
  unfold decryptShareKey
  rw [hpassphrase,
    decryptArmoredWithKeys_eq_ok hmem (decrypt_rekey hsession hdata hpacket), hkey]
  exact if_pos rfl

/-- One of the invitee's keys finds the session key that was handed on. -/
theorem acceptInvitation_eq_ok {keys : List PrivateKey} (signingKey : PrivateKey)
    (hpacket : session.toPacket destination = .ok packet) (hmem : destination ∈ keys) :
    ∃ bytes, session.exported = .ok bytes ∧ acceptInvitation packet keys signingKey =
      .ok ⟨signingKey.primaryKey.id, bytes, sharingMemberContext⟩ := by
  obtain ⟨part, hpart, hcases⟩ := toPacket_cases hpacket
  -- A key that opens the packet at all opens it to the session that was sealed.
  have hopen : ∀ k session', decryptContentKey k [packet] = .ok session' → session' = session := by
    intro k session' hk
    rw [decryptContentKey_cons hpacket] at hk
    have hfind := openPacket_findSome? hk
    rw [findSome?_decrypt hpacket hpart] at hfind
    split at hfind
    · cases hfind
      rfl
    · cases hfind
  have hfound : keys.findSome? (fun k => (decryptContentKey k [packet]).toOption) =
      some session := by
    -- The keys are tried in their order, so one before the recipient's may answer, alike.
    induction keys with
    | nil => cases hmem
    | cons first keys ih =>
        rw [List.findSome?_cons]
        cases hfirst : (decryptContentKey first [packet]).toOption with
        | some session' =>
            rw [hopen _ _ (Except.toOption_eq_some.mp hfirst)]
        | none =>
            apply ih
            rcases List.mem_cons.mp hmem with rfl | hmem
            · have hown := (openPacket_eq_ok hpacket hpart destination).mpr
                (holds_recipientEncryptionKey hpart)
              rw [decryptContentKey_cons hpacket, hown] at hfirst
              cases hfirst
            · exact hmem
  unfold acceptInvitation
  rw [hfound]
  -- The two ways in which a packet is written export the same bytes.
  rcases hcases with ⟨symAlg, bytes, rfl, -⟩ | ⟨bytes, rfl, -⟩
  · exact ⟨bytes, rfl, rfl⟩
  · exact ⟨bytes, rfl, rfl⟩

end ProtonDrive.Recipients
