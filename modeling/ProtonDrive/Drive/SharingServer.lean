import ProtonDrive.Lib.Machine
import ProtonDrive.Drive.EnsureShare
import ProtonDrive.Drive.Sharing

/-!
# A server of shared nodes

The owner of a node and the people that it is shared with, who ask in any order, against a server that
may refuse each request, lose the answer to it, or get it several times.

* `perform` — what one of them does.
* `system` — the calls one after the other.
* `Right` — what every guest of the node has.
* `Once` — nobody is invited twice. This does not relate the invitations of the two kinds, since
  `share_node` reads the external ones not at all.
-/

namespace ProtonDrive

namespace Recipients.Sharing

open OpenPgp (Bytes)
open Program (ofExcept attempt request inquiry component)
open PublicLinks (Owned ShareRight SharesNode)

/-! ## The server -/

/-- Somebody who is invited, or a member. -/
structure Guest where
  id : String
  email : String
  inviterEmail : String
  permissions : Int
  createTime : Int
  keyPacket : Packet

structure ExternalGuest where
  id : String
  email : String
  permissions : Int
  createTime : Int

structure Server where
  node : PublicLinks.Server
  invitations : List Guest
  members : List Guest
  external : List ExternalGuest

/-- What the server chooses, and the public keys that it has of an email. -/
structure Choices (keysOf : String → List PrivateKey) where
  node : PublicLinks.Choices
  newId : Server → String
  createTime : Int
  directory : String → List PublicKey
  /-- The key that is encrypted to is one of those that the user has. -/
  honest : ∀ email publicKey, (directory email).head? = some publicKey →
    ∃ key ∈ keysOf email, publicKey = key.publicKey

def Guest.invitation (g : Guest) : ShareInvitationDto where
  invitationId := g.id
  inviterEmail := g.inviterEmail
  inviteeEmail := g.email
  permissions := some g.permissions
  createTime := g.createTime

def Guest.member (g : Guest) : ShareMemberDto where
  memberId := g.id
  email := g.email
  inviterEmail := g.inviterEmail
  permissions := some g.permissions
  createTime := g.createTime

def ExternalGuest.dto (inviterEmail : String) (g : ExternalGuest) : ExternalInvitationResponseDto where
  externalInvitationId := g.id
  inviterEmail := inviterEmail
  inviteeEmail := g.email
  permissions := some g.permissions
  createTime := g.createTime
  state := 1

def refusal : ProtonError := .invalidOperation "refused"

def setPermissions (id : String) (permissions : Int) (g : Guest) : Guest :=
  if g.id = id then { g with permissions := permissions } else g

namespace Server

variable {keysOf : String → List PrivateKey} (o : Owned) (w : Choices keysOf)

def invite (shareId : ShareId) (post : InviteProtonUserRequest) (s : Server) :
    Except ProtonError (Server × ShareInvitationDto) :=
  let guest : Guest := ⟨w.newId s, post.inviteeEmail, post.inviterEmail,
    post.permissions, w.createTime, post.keyPacket⟩
  if s.node.hasShare shareId then
    .ok ({ s with invitations := s.invitations ++ [guest] }, guest.invitation)
  else .error refusal

def inviteExternal (shareId : ShareId) (post : InviteExternalUserRequest) (s : Server) :
    Except ProtonError (Server × ExternalInvitationResponseDto) :=
  let guest : ExternalGuest := ⟨w.newId s, post.inviteeEmail, post.permissions, w.createTime⟩
  if s.node.hasShare shareId then
    .ok ({ s with external := s.external ++ [guest] }, guest.dto o.address.2.1)
  else .error refusal

/-- What a guest of the share is shown of it. -/
def detailsFor (s : Server) (g : Guest) : Option InvitationDetails :=
  s.node.share.map (fun share => {
    invitationId := g.id
    inviterEmail := g.inviterEmail
    inviteeEmail := g.email
    permissions := some g.permissions
    createTime := g.createTime
    keyPacket := g.keyPacket
    sharePassphrase := rekey g.keyPacket share.2.sharePassphrase
    shareKey := share.2.shareKey
    linkName := rekey share.2.nameKeyPacket o.link.name })

def incoming (id : String) (s : Server) : Except ProtonError InvitationDetails :=
  match (s.invitations.find? (fun g => g.id == id)).bind (s.detailsFor o) with
  | some details => .ok details
  | none => .error refusal

/-- The guest is a member from now on. -/
def accept (id : String) (s : Server) : Except ProtonError (Server × Unit) :=
  match s.invitations.find? (fun g => g.id == id) with
  | some guest => .ok ({ s with
      invitations := s.invitations.filter (fun g => g.id != id)
      members := s.members ++ [guest] }, ())
  | none => .error refusal

def deleteInvitation (id : String) (s : Server) : Except ProtonError (Server × Unit) :=
  .ok ({ s with invitations := s.invitations.filter (fun g => g.id != id) }, ())

def removeMember (id : String) (s : Server) : Except ProtonError (Server × Unit) :=
  .ok ({ s with members := s.members.filter (fun g => g.id != id) }, ())

/-- What a member is told of the membership. -/
def membership (id : String) (s : Server) : Option (ShareId × String) :=
  if (s.members.find? (fun g => g.id == id)).isSome then s.node.share.map (fun share => (share.1, id))
  else none

def deleteExternal (id : String) (s : Server) : Except ProtonError (Server × Unit) :=
  .ok ({ s with external := s.external.filter (fun g => g.id != id) }, ())

def updateInvitation (id : String) (permissions : Int) (s : Server) :
    Except ProtonError (Server × Unit) :=
  .ok ({ s with invitations := s.invitations.map (setPermissions id permissions) }, ())

def updateMember (id : String) (permissions : Int) (s : Server) : Except ProtonError (Server × Unit) :=
  .ok ({ s with members := s.members.map (setPermissions id permissions) }, ())

end Server

/-! ## The calls -/

inductive Call where
  | shareNode (invitees : List (String × MemberRole)) (emailMessage : Option String)
  | inviteExternalUsers (invitees : List (String × MemberRole)) (emailMessage : Option String)
  | updateInvitationRole (id : String) (role : MemberRole)
  | updateMemberRole (id : String) (role : MemberRole)
  | deleteInvitation (id : String)
  | removeMember (id : String)
  | deleteExternalInvitation (id : String)
  /-- By the invitee. -/
  | acceptInvitation (id : String)
  | rejectInvitation (id : String)
  /-- By the member. -/
  | leaveSharedNode (id : String)

section

variable (lower : String → String) (base64Encode : Bytes → String) (o : Owned)
  (keysOf : String → List PrivateKey) (w : Choices keysOf) (d : PublicLinks.Draws)

def calls : Calls (Online Server ProtonError) where
  getInvitations shareId := inquiry (fun s =>
    if s.node.hasShare shareId then .ok (s.invitations.map Guest.invitation) else .error refusal)
  getMembers shareId := inquiry (fun s =>
    if s.node.hasShare shareId then .ok (s.members.map Guest.member) else .error refusal)
  getExternalInvitations shareId := inquiry (fun s =>
    if s.node.hasShare shareId then .ok (s.external.map (ExternalGuest.dto o.address.2.1))
    else .error refusal)
  publicKeys email := do
    let keys ← attempt (inquiry (fun _ => .ok (w.directory email)))
    return keys.toOption.getD []
  membershipAddress := inquiry (fun _ => .ok o.address)
  postInvitation shareId post := request (Server.invite w shareId post)
  postExternalInvitation shareId post := request (Server.inviteExternal o w shareId post)

def ensured : Program (Online Server ProtonError) ProtonError
    (ShareId × ContentKey × String × PrivateKey) :=
  component Server.node (fun s node => { s with node := node })
    (PublicLinks.ensureNodeShare (PublicLinks.calls o w.node) d o.uid)

def noPrimaryKey : ProtonError := .invalidOperation "address has no primary key"

/-- All keys, and the first one to sign with. -/
def ownAddressKeys (email : String) : Except ProtonError (List PrivateKey × PrivateKey) :=
  match keysOf email with
  | [] => .error noPrimaryKey
  | key :: keys => .ok (key :: keys, key)

/-- A change of a role, which is not made if the role has no permissions of its own. -/
def updateRole (error : ProtonError) (role : MemberRole)
    (put : Int → Server → Except ProtonError (Server × Unit)) :
    Program (Online Server ProtonError) ProtonError Unit :=
  match role.toPermissions with
  | none => ofExcept (.error error)
  | some permissions => request (put permissions)

def perform : Call → Program (Online Server ProtonError) ProtonError Unit
  | .shareNode invitees emailMessage => do
      let _ ← shareNode lower (calls o keysOf w) (ensured o keysOf w d) invitees emailMessage
      return ()
  | .inviteExternalUsers invitees emailMessage => do
      let _ ← inviteExternalUsers lower (calls o keysOf w) base64Encode (ensured o keysOf w d) invitees
        emailMessage
      return ()
  | .updateInvitationRole id role =>
      updateRole (.invalidOperation "cannot set an invitation to the inherited role") role
        (Server.updateInvitation id)
  | .updateMemberRole id role =>
      updateRole (.invalidOperation "cannot set a member to the inherited role") role
        (Server.updateMember id)
  | .deleteInvitation id => request (Server.deleteInvitation id)
  | .removeMember id => request (Server.removeMember id)
  | .deleteExternalInvitation id => request (Server.deleteExternal id)
  | .acceptInvitation id =>
      acceptIncoming (fun id => inquiry (Server.incoming o id))
        (fun email => inquiry (fun _ => ownAddressKeys keysOf email))
        (fun id _ => request (Server.accept id)) id
  | .rejectInvitation id => request (Server.deleteInvitation id)
  | .leaveSharedNode id =>
      leaveSharedNode (fun uid => inquiry (fun s => .ok [(uid.linkId, s.membership id)]))
        (fun _ id => request (Server.removeMember id)) o.uid

end

/-- A call, with everything that is chosen for it. -/
structure Step (keysOf : String → List PrivateKey) where
  call : Call
  draws : PublicLinks.Draws
  choices : Choices keysOf
  fates : List (Fate ProtonError)

section

variable (lower : String → String) (base64Encode : Bytes → String) (o : Owned)
  (keysOf : String → List PrivateKey)

def system : Machine Server (Step keysOf) where
  step s step :=
    ((perform lower base64Encode o keysOf step.choices step.draws step.call).run ⟨s, step.fates⟩).map
      (fun p => p.1.server)

/-- Nobody is twice on a list of people to invite. -/
def Call.Distinct : Call → Prop
  | .shareNode invitees _ => (invitees.map (fun i => lower i.1)).Nodup
  | .inviteExternalUsers invitees _ => (invitees.map (fun i => lower i.1)).Nodup
  | _ => True

/-! ## What holds in every state -/

def Server.guests (s : Server) : List Guest := s.invitations ++ s.members

def emails (guests : List Guest) : List String := guests.map (fun g => lower g.email)

def externalEmails (external : List ExternalGuest) : List String :=
  external.map (fun g => lower g.email)

/-- The guest has a key that the session key was sealed for. -/
def Sealed (session : ContentKey) (g : Guest) : Prop :=
  ∃ key ∈ keysOf g.email, session.toPacket key = .ok g.keyPacket

/-- The share can be read by its owner, and its session key was sealed for every guest. -/
structure Right (s : Server) : Prop where
  unshared : s.node.share = none → s.guests = []
  shared : ∀ shareId share, s.node.share = some (shareId, share) →
    ∃ session, ShareRight o.nodeKey share session ∧ SharesNode o share ∧
      ∀ g ∈ s.guests, Sealed keysOf session g

/-- Nobody has two Proton invitations, or one beside a membership, and nobody has two external ones. -/
structure Once (s : Server) : Prop where
  guests : (emails lower s.guests).Nodup
  external : (externalEmails lower s.external).Nodup

end

end Recipients.Sharing

end ProtonDrive
