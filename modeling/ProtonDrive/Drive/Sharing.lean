import ProtonDrive.Lib.Program
import ProtonDrive.Drive.PublicLinks

/-!
# Sharing a node with people

The owner of a node invites people to its share. A Proton user gets the session key of the share in a
key packet for their public key; somebody without one gets a signature, which the server makes an
invitation of when they sign up. Who was invited before, or is a member, is passed over, whatever the
letter case of the email. The invitee answers with a signature over the session key, and is then a
member, who reads the node through the share key.
-/

namespace ProtonDrive

namespace Recipients.Sharing

open OpenPgp (Bytes)
open Program (ofExcept)

/-! ## What is sent -/

structure ShareInvitationDto where
  invitationId : String
  inviterEmail : String
  inviteeEmail : String
  permissions : Option Int
  createTime : Int
  deriving DecidableEq, Repr

structure ShareMemberDto where
  memberId : String
  email : String
  inviterEmail : String
  permissions : Option Int
  createTime : Int
  deriving DecidableEq, Repr

structure ExternalInvitationResponseDto where
  externalInvitationId : String
  inviterEmail : String
  inviteeEmail : String
  permissions : Option Int
  createTime : Int
  state : Int
  deriving DecidableEq, Repr

/-- With the message of the email that announces it. -/
structure InviteProtonUserRequest where
  inviterEmail : String
  inviteeEmail : String
  permissions : Int
  keyPacket : Packet
  keyPacketSignature : ContextSignature Packet
  message : Option String
  deriving DecidableEq, Repr

structure InviteExternalUserRequest where
  inviterAddressId : String
  inviteeEmail : String
  permissions : Int
  externalInvitationSignature : ContextSignature String
  message : Option String
  deriving DecidableEq, Repr

structure ShareInvitation where
  shareId : ShareId
  invitationId : String
  inviteeEmail : String
  inviterEmail : String
  role : MemberRole
  invitationTime : Int
  deriving DecidableEq, Repr

structure ShareMember where
  shareId : ShareId
  membershipId : String
  email : String
  addedByEmail : String
  role : MemberRole
  invitationTime : Int
  deriving DecidableEq, Repr

inductive ExternalInvitationState where
  | pending
  | userRegistered
  deriving DecidableEq, Repr

structure ExternalInvitation where
  shareId : ShareId
  invitationId : String
  inviteeEmail : String
  inviterEmail : String
  role : MemberRole
  invitationTime : Int
  state : ExternalInvitationState
  deriving DecidableEq, Repr

/-- An invitation, as the invitee gets it: with the share, and the link of the node. -/
structure InvitationDetails where
  invitationId : String
  inviterEmail : String
  inviteeEmail : String
  permissions : Option Int
  createTime : Int
  keyPacket : Packet
  sharePassphrase : Message
  shareKey : GeneratedNodeKey
  linkName : Message

/-- What the owner's client asks for, once it has the share. -/
structure Calls (σ : Type) where
  getInvitations : ShareId → Program σ ProtonError (List ShareInvitationDto)
  getMembers : ShareId → Program σ ProtonError (List ShareMemberDto)
  getExternalInvitations : ShareId → Program σ ProtonError (List ExternalInvitationResponseDto)
  /-- Those of the account client, which never fails. -/
  publicKeys : String → Program σ ProtonError (List PublicKey)
  membershipAddress : Program σ ProtonError (String × String × PrivateKey)
  postInvitation : ShareId → InviteProtonUserRequest → Program σ ProtonError ShareInvitationDto
  postExternalInvitation : ShareId → InviteExternalUserRequest →
    Program σ ProtonError ExternalInvitationResponseDto

def invitationFromDto (shareId : ShareId) (dto : ShareInvitationDto) : ShareInvitation where
  shareId := shareId
  invitationId := dto.invitationId
  inviteeEmail := dto.inviteeEmail
  inviterEmail := dto.inviterEmail
  role := .fromPermissions dto.permissions
  invitationTime := dto.createTime

def memberFromDto (shareId : ShareId) (dto : ShareMemberDto) : ShareMember where
  shareId := shareId
  membershipId := dto.memberId
  email := dto.email
  addedByEmail := dto.inviterEmail
  role := .fromPermissions dto.permissions
  invitationTime := dto.createTime

def cannotInvite : ProtonError :=
  .invalidOperation "cannot invite a user with the inherited role"

def noPublicKey (email : String) : ProtonError :=
  .invalidOperation ("no public key for invitee " ++ email)

def sharingExternalInvitationContext : String := "drive.share-member.external-invitation"

def encryptExternalInvitation (base64Encode : Bytes → String) (shareSessionKey : ContentKey)
    (inviterKey : PrivateKey) (inviteeEmail : String) :
    Except ProtonError (ContextSignature String) := do
  let bytes ← shareSessionKey.exported
  return signDetachedBinaryWithContext inviterKey (inviteeEmail ++ "|" ++ base64Encode bytes)
    sharingExternalInvitationContext

def ExternalInvitationState.fromRaw (state : Int) : ExternalInvitationState :=
  if state = 1 then .pending else .userRegistered

def externalInvitationFromDto (shareId : ShareId) (dto : ExternalInvitationResponseDto) :
    ExternalInvitation where
  shareId := shareId
  invitationId := dto.externalInvitationId
  inviteeEmail := dto.inviteeEmail
  inviterEmail := dto.inviterEmail
  role := .fromPermissions dto.permissions
  invitationTime := dto.createTime
  state := .fromRaw dto.state

/-! ## The owner -/

section

variable {σ β : Type} (lower : String → String) (c : Calls σ) (base64Encode : Bytes → String)

def listShareInvitationsInner (shareId : ShareId) : Program σ ProtonError (List ShareInvitation) := do
  let response ← c.getInvitations shareId
  return response.map (invitationFromDto shareId)

def listShareMembersInner (shareId : ShareId) : Program σ ProtonError (List ShareMember) := do
  let response ← c.getMembers shareId
  return response.map (memberFromDto shareId)

def listExternalInvitationsInner (shareId : ShareId) :
    Program σ ProtonError (List ExternalInvitation) := do
  let response ← c.getExternalInvitations shareId
  return response.map (externalInvitationFromDto shareId)

/-- The loop over the invitees, with what is done for one of them. -/
def inviteAll (already : List String) (invite : String → MemberRole → Program σ ProtonError β) :
    List (String × MemberRole) → Program σ ProtonError (List β)
  | [] => return []
  | (email, role) :: invitees =>
      if lower email ∈ already then inviteAll already invite invitees
      else do
        let invitation ← invite email role
        let created ← inviteAll already invite invitees
        return invitation :: created

def inviteUser (shareId : ShareId) (shareSessionKey : ContentKey) (inviterEmail : String)
    (inviterKey : PrivateKey) (emailMessage : Option String) (email : String) (role : MemberRole) :
    Program σ ProtonError ShareInvitation :=
  match role.toPermissions with
  | none => ofExcept (.error cannotInvite)
  | some permissions => do
      let inviteeKeys ← c.publicKeys email
      match inviteeKeys with
      | [] => ofExcept (.error (noPublicKey email))
      | inviteePubkey :: _ => do
          let (keyPacket, keyPacketSignature) ←
            ofExcept (encryptInvitation shareSessionKey inviterKey inviteePubkey)
          let invitation ← c.postInvitation shareId {
            inviterEmail := inviterEmail
            inviteeEmail := email
            permissions := permissions
            keyPacket := keyPacket
            keyPacketSignature := keyPacketSignature
            message := emailMessage }
          return invitationFromDto shareId invitation

/-- `ensured` is the call of `ensure_node_share`. -/
def shareNode (ensured : Program σ ProtonError (ShareId × ContentKey × String × PrivateKey))
    (invitees : List (String × MemberRole)) (emailMessage : Option String) :
    Program σ ProtonError (List ShareInvitation) := do
  let (shareId, shareSessionKey, inviterEmail, inviterKey) ← ensured
  let existingInvites ← listShareInvitationsInner c shareId
  let existingMembers ← listShareMembersInner c shareId
  let already := existingInvites.map (fun i => lower i.inviteeEmail) ++
    existingMembers.map (fun m => lower m.email)
  inviteAll lower already
    (inviteUser c shareId shareSessionKey inviterEmail inviterKey emailMessage) invitees

def inviteExternalUser (shareId : ShareId) (shareSessionKey : ContentKey) (inviterKey : PrivateKey)
    (addressId : String) (emailMessage : Option String) (email : String) (role : MemberRole) :
    Program σ ProtonError ExternalInvitation :=
  match role.toPermissions with
  | none => ofExcept (.error cannotInvite)
  | some permissions => do
      let signature ← ofExcept
        (encryptExternalInvitation base64Encode shareSessionKey inviterKey email)
      let invitation ← c.postExternalInvitation shareId {
        inviterAddressId := addressId
        inviteeEmail := email
        permissions := permissions
        externalInvitationSignature := signature
        message := emailMessage }
      return externalInvitationFromDto shareId invitation

def inviteExternalUsers
    (ensured : Program σ ProtonError (ShareId × ContentKey × String × PrivateKey))
    (invitees : List (String × MemberRole)) (emailMessage : Option String) :
    Program σ ProtonError (List ExternalInvitation) := do
  let (shareId, shareSessionKey, _, inviterKey) ← ensured
  let (addressId, _, _) ← c.membershipAddress
  let external ← listExternalInvitationsInner c shareId
  let invites ← listShareInvitationsInner c shareId
  let members ← listShareMembersInner c shareId
  let already := external.map (fun i => lower i.inviteeEmail) ++
    (invites.map (fun i => lower i.inviteeEmail) ++ members.map (fun m => lower m.email))
  inviteAll lower already
    (inviteExternalUser c base64Encode shareId shareSessionKey inviterKey addressId emailMessage)
    invitees

end

/-! ## The invitee -/

section

variable {σ : Type} (getIncomingInvitation : String → Program σ ProtonError InvitationDetails)
  (ownAddressKeys : String → Program σ ProtonError (List PrivateKey × PrivateKey))
  (postAccept : String → ContextSignature Bytes → Program σ ProtonError Unit)

def acceptIncoming (invitationId : String) : Program σ ProtonError Unit := do
  let detail ← getIncomingInvitation invitationId
  let (keys, signingKey) ← ownAddressKeys detail.inviteeEmail
  let signature ← ofExcept (acceptInvitation detail.keyPacket keys signingKey)
  postAccept invitationId signature

end

/-- By a member, whose membership is told with the details of the link. -/
def leaveSharedNode {σ : Type}
    (getMemberships : NodeUid → Program σ ProtonError (List (LinkId × Option (ShareId × String))))
    (removeShareMember : ShareId → String → Program σ ProtonError Unit) (uid : NodeUid) :
    Program σ ProtonError Unit := do
  let details ← getMemberships uid
  match (details.find? (fun detail => detail.1 == uid.linkId)).bind Prod.snd with
  | none =>
      ofExcept (.error (.invalidOperation "you can leave only an item that is shared with you"))
  | some (shareId, membershipId) => removeShareMember shareId membershipId

def decryptInvitationName (keys : List PrivateKey) (detail : InvitationDetails) : Option String := do
  let passphrase ←
    keys.findSome? (fun k => (decryptArmoredMessage k detail.sharePassphrase).toOption)
  let shareKey ← (fromArmored detail.shareKey passphrase).toOption
  let nameBytes ← (decryptArmoredMessage shareKey detail.linkName).toOption
  String.fromUTF8? nameBytes.toByteArray

end Recipients.Sharing

end ProtonDrive
