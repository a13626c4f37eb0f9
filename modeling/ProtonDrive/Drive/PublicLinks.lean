import ProtonDrive.Lib.Program
import ProtonDrive.Drive.Bookmarks
import ProtonDrive.Drive.ShareKeys

/-!
# Public links

The owner of a node makes a link to it: the session key of the node's share is sealed with a password,
and so is an SRP verifier, with which the server lets visitors in without knowing the password. The
password is twelve random characters, which are the fragment of the link's URL, and a custom password
after them, which visitors have to know. An update seals both again and leaves the URL as it is.

A visitor proves to know the password, has the server prove that it knows the verifier, and unlocks
the share key.

* `ensureNodeShare_ofClient` — the call that makes the share, over a server with a state.
* `auth_opens` — visitors with the password that the settings were sealed with get the share key.
* `openCredentials_linkUrl` — what visitors authenticate with is in the URL that the owner was given.
-/

namespace ProtonDrive

def MemberRole.toPermissions : MemberRole → Option Int
  | .viewer => some 4
  | .editor => some 6
  | .admin => some 22
  | .inherited => none

/-- A role is read as it was sent. -/
theorem MemberRole.fromPermissions_toPermissions {role : MemberRole} {permissions : Int}
    (h : role.toPermissions = some permissions) : .fromPermissions (some permissions) = role := by
  cases role <;> cases h <;> rfl

namespace Recipients.PublicLinks

open OpenPgp (Bytes)
open Bookmarks (Text asBytes fromUtf8Lossy nonEmpty splitLinkPassword publicLinkPasswordLen
  openCredentials)
open Program (ofExcept attempt)

/-! ## What is sent -/

/-- The key packet is here the packet that is encoded. -/
structure PublicLinkSettingsDto where
  permissions : Int
  flags : Int
  sharePasswordSalt : String
  sharePassphraseKeyPacket : Skesk
  password : Message
  urlPasswordSalt : String
  srpVerifier : String
  srpModulusId : String
  maxAccesses : Int
  deriving DecidableEq, Repr

structure CreatePublicLinkRequest where
  creatorEmail : String
  expirationTime : Option Int
  settings : PublicLinkSettingsDto
  deriving DecidableEq, Repr

structure UpdatePublicLinkRequest where
  expirationTime : Option Int
  settings : PublicLinkSettingsDto
  deriving DecidableEq, Repr

structure ShareUrlDto where
  shareUrlId : String
  publicUrl : Text
  password : Option Message
  createTime : Int
  expirationTime : Option Int
  permissions : Option Int
  flags : Int
  deriving DecidableEq, Repr

structure ModulusResponse where
  modulus : String
  modulusId : String
  deriving DecidableEq, Repr

structure PublicLink where
  shareId : ShareId
  publicLinkId : String
  url : Option Text
  role : MemberRole
  creationTime : Int
  expirationTime : Option Int
  hasCustomPassword : Bool
  customPassword : Option Text
  deriving DecidableEq, Repr

/-- What a client asks for. -/
structure Calls (σ : Type) where
  getLinkDetails : NodeUid → Program σ ProtonError (List ShareDetails)
  resolveParentKey : VolumeId → ShareLink → Program σ ProtonError PrivateKey
  decryptLink : PrivateKey → ShareLink → Except ProtonError PrivateKey
  membershipAddressFor : NodeUid → Program σ ProtonError (String × String × PrivateKey)
  getShare : ShareId → Program σ ProtonError Message
  createShare : VolumeId → CreateShareRequest → Program σ ProtonError ShareId
  /-- The keys of the address of the My Files share. -/
  ownAddressKeys : Program σ ProtonError (List PrivateKey)
  fetchSrpModulus : Program σ ProtonError ModulusResponse
  getUrls : ShareId → Program σ ProtonError (List ShareUrlDto)
  createUrl : ShareId → CreatePublicLinkRequest → Program σ ProtonError ShareUrlDto
  updateUrl : ShareId → String → UpdatePublicLinkRequest → Program σ ProtonError Unit
  deleteUrl : ShareId → String → Program σ ProtonError Unit

/-- What a call draws at random. -/
structure Draws where
  shareKey : GeneratedNodeKey
  shareSession : Bytes
  password : Vector UInt8 12
  keySalt : Vector UInt8 16
  passwordSession : Bytes
  srpSalt : Except String Bytes

def publicLinkPasswordCharset : Text :=
  "ABCDEFGHIJKLMNOPQRSTUVWXYZabcdefghijklmnopqrstuvwxyz0123456789".toList

/-- A character of the alphabet for each random byte. -/
def generatePublicLinkPassword (raw : Vector UInt8 12) : Text :=
  raw.toList.map (fun b =>
    publicLinkPasswordCharset.getD (b.toNat % publicLinkPasswordCharset.length) 'A')

def notForLinks : ProtonError :=
  .invalidOperation "a public link can only grant the Viewer or Editor role"

def publicLinkPermissions (role : MemberRole) : Except ProtonError Int :=
  match role.toPermissions with
  | some permissions =>
      if role = .viewer ∨ role = .editor then .ok permissions else .error notForLinks
  | none => .error notForLinks

/-! ## Failures of the crypto layer -/

def displayCryptoError : Srp.CryptoError → String
  | .parse text => "failed to parse PGP data: " ++ text
  | .unlock text => "failed to unlock private key: " ++ text
  | .decrypt text => "failed to decrypt: " ++ text
  | .encrypt text => "failed to encrypt: " ++ text
  | .verification text => "signature verification failed: " ++ text

/-- The work is done in a task of its own; `crash` is what is said of one that panics. -/
def ofFailure (crash : String) : Srp.Failure → ProtonError
  | .crypto e => .crypto (displayCryptoError e)
  | .panicked => .invalidOperation ("public link crypto task failed: " ++ crash)

/-- Encrypt-only, under a new session key. -/
def encryptTo (key : PrivateKey) (sessionKey data : Bytes) : Except ProtonError Message :=
  encryptMessageTo (.v3_4 aes256 sessionKey) [key] data

/-! ## The owner -/

section

variable {σ : Type} (c : Calls σ) (p : Srp.Primitives) (crash : String) (d : Draws)

def createNodeShare (uid : NodeUid) (link : ShareLink) (parentKey nodeKey : PrivateKey)
    (address : String × String × PrivateKey) :
    Program σ ProtonError (ShareId × ContentKey × String × PrivateKey) := do
  let nodePassphraseSk ← ofExcept (recoverMessageSessionKey parentKey link.passphrase)
  let nodeNameSk ← ofExcept (recoverMessageSessionKey parentKey link.name)
  let material ← ofExcept (buildStandardShareMaterial d.shareKey (.v3_4 aes256 d.shareSession) nodeKey
    nodePassphraseSk nodeNameSk address.2.2)
  let shareId ← c.createShare uid.volumeId {
    rootLinkId := uid.linkId
    addressId := address.1
    name := "New Share"
    shareKey := material.shareKey
    sharePassphrase := material.sharePassphrase
    sharePassphraseSignature := material.sharePassphraseSignature
    passphraseKeyPacket := material.passphraseKeyPacket
    nameKeyPacket := material.nameKeyPacket }
  return (shareId, material.shareSessionKey, address.2.1, address.2.2)

def ensureNodeShare (uid : NodeUid) :
    Program σ ProtonError (ShareId × ContentKey × String × PrivateKey) := do
  let details ← c.getLinkDetails uid
  match details.find? (fun detail => detail.link.id == uid.linkId) with
  | none => ofExcept (.error nodeNotFound)
  | some detail => do
      let parentKey ← c.resolveParentKey uid.volumeId detail.link
      let nodeKey ← ofExcept (c.decryptLink parentKey detail.link)
      let address ← c.membershipAddressFor uid
      match detail.sharing with
      | some shareId => do
          let passphrase ← c.getShare shareId
          let shareSessionKey ← ofExcept (recoverMessageSessionKey nodeKey passphrase)
          return (shareId, shareSessionKey, address.2.1, address.2.2)
      | none => createNodeShare c d uid detail.link parentKey nodeKey address

/-- The part of `seal_public_link_settings` that is pure work. -/
def sealSecrets (fullPassword : Text) (signedModulus : String) (shareSessionKey : ContentKey)
    (addressKey : PrivateKey) : Except ProtonError (Skesk × Message × Srp.SrpVerifier) := do
  let saltedPassphrase ← deriveKeyPassphrase p (asBytes fullPassword) d.keySalt.toList
  let keyPacket ← shareSessionKey.encryptWithPassword saltedPassphrase
  let armoredPassword ← encryptTo addressKey d.passwordSession (asBytes fullPassword)
  let verifier ← (Srp.generateVerifier p d.srpSalt (asBytes fullPassword) signedModulus 2048).mapError
    (ofFailure crash)
  return (keyPacket, armoredPassword, verifier)

def sealPublicLinkSettings (permissions : Int) (generated : Text) (customPassword : Option Text)
    (shareSessionKey : ContentKey) (addressKey : PrivateKey) :
    Program σ ProtonError PublicLinkSettingsDto := do
  let customPassword := nonEmpty customPassword
  let fullPassword := generated ++ customPassword.getD []
  let modulus ← c.fetchSrpModulus
  let (keyPacket, armoredPassword, verifier) ← ofExcept
    (sealSecrets p crash d fullPassword modulus.modulus shareSessionKey addressKey)
  return {
    permissions := permissions
    flags := if customPassword.isSome then 3 else 2
    sharePasswordSalt := p.base64Encode d.keySalt.toList
    sharePassphraseKeyPacket := keyPacket
    password := armoredPassword
    urlPasswordSalt := verifier.salt
    srpVerifier := verifier.verifier
    srpModulusId := modulus.modulusId
    maxAccesses := 0 }

def linkUrl (publicUrl generated : Text) : Text := publicUrl ++ '#' :: generated

/-- `now` is the time at which the call returns. -/
def createPublicLink (now : Int) (uid : NodeUid) (role : MemberRole) (customPassword : Option Text)
    (expirationTime : Option Int) : Program σ ProtonError PublicLink := do
  let permissions ← ofExcept (publicLinkPermissions role)
  let (shareId, shareSessionKey, creatorEmail, addressKey) ← ensureNodeShare c d uid
  let generated := generatePublicLinkPassword d.password
  let settings ← sealPublicLinkSettings c p crash d permissions generated customPassword shareSessionKey
    addressKey
  let hasCustomPassword := settings.flags == 3
  let shareUrl ← c.createUrl shareId {
    creatorEmail := creatorEmail
    expirationTime := expirationTime
    settings := settings }
  return {
    shareId := shareId
    publicLinkId := shareUrl.shareUrlId
    url := some (linkUrl shareUrl.publicUrl generated)
    role := role
    creationTime := now
    expirationTime := expirationTime
    hasCustomPassword := hasCustomPassword
    customPassword := nonEmpty customPassword }

def nodeShareId (uid : NodeUid) : Program σ ProtonError (Option ShareId) := do
  let details ← c.getLinkDetails uid
  return (details.find? (fun detail => detail.link.id == uid.linkId)).bind ShareDetails.sharing

/-- Without the keys, or without a secret that one of them opens, the link has no URL. -/
def recoverPublicLinkSecret (replaced : Bytes → Text) (dto : ShareUrlDto) :
    Program σ ProtonError (Option Text × Option Text) :=
  match dto.password with
  | none => return (none, none)
  | some enc => do
      match (← attempt c.ownAddressKeys) with
      | .error _ => return (none, none)
      | .ok addressKeys =>
          match decryptArmoredWithKeys enc addressKeys with
          | .error _ => return (none, none)
          | .ok bytes =>
              let (generated, custom) := splitLinkPassword (fromUtf8Lossy replaced bytes)
              let url := if dto.publicUrl.isEmpty then none else some (linkUrl dto.publicUrl generated)
              return (url, custom)

def getPublicLink (replaced : Bytes → Text) (uid : NodeUid) :
    Program σ ProtonError (Option PublicLink) := do
  match (← nodeShareId c uid) with
  | none => return none
  | some shareId => do
      let shareUrls ← c.getUrls shareId
      match shareUrls with
      | [] => return none
      | dto :: _ => do
          let (url, customPassword) ← recoverPublicLinkSecret c replaced dto
          return some {
            shareId := shareId
            publicLinkId := dto.shareUrlId
            url := url
            role := .fromPermissions dto.permissions
            creationTime := dto.createTime
            expirationTime := dto.expirationTime
            hasCustomPassword := dto.flags == 3
            customPassword := customPassword }

def noPublicLink : ProtonError := .invalidOperation "the node has no public link"

def legacyLink : ProtonError :=
  .invalidOperation "a legacy public link cannot be updated; remove it and create a new one"

/-- The fragment of the URL, if it is as long as a generated password. -/
def generatedPassword (link : PublicLink) : Option Text :=
  ((link.url.bind (Bookmarks.splitOnce '#')).map Prod.snd).filter
    (fun fragment => fragment.length == publicLinkPasswordLen)

def updatePublicLink (replaced : Bytes → Text) (uid : NodeUid) (role : MemberRole)
    (customPassword : Option Text) (expirationTime : Option Int) :
    Program σ ProtonError PublicLink := do
  let permissions ← ofExcept (publicLinkPermissions role)
  match (← getPublicLink c replaced uid) with
  | none => ofExcept (.error noPublicLink)
  | some link =>
      match generatedPassword link with
      | none => ofExcept (.error legacyLink)
      | some generated => do
          let (_, shareSessionKey, _, addressKey) ← ensureNodeShare c d uid
          let settings ← sealPublicLinkSettings c p crash d permissions generated customPassword
            shareSessionKey addressKey
          c.updateUrl link.shareId link.publicLinkId
            { expirationTime := expirationTime, settings := settings }
          return { link with
            role := role
            expirationTime := expirationTime
            hasCustomPassword := settings.flags == 3
            customPassword := nonEmpty customPassword }

def removePublicLink (link : PublicLink) : Program σ ProtonError Unit :=
  c.deleteUrl link.shareId link.publicLinkId

end

/-! ## The visitor -/

structure PublicLinkInfoResponse where
  version : Int
  modulus : String
  serverEphemeral : String
  urlPasswordSalt : String
  srpSession : String
  flags : Int
  deriving DecidableEq, Repr

def PublicLinkInfoResponse.isLegacy (info : PublicLinkInfoResponse) : Bool :=
  info.flags == 0 || info.flags == 1

structure PublicLinkAuthRequest where
  clientProof : String
  clientEphemeral : String
  srpSession : String
  deriving DecidableEq, Repr

structure PublicLinkShareDto where
  uid : NodeUid
  sharePasswordSalt : String
  shareKey : GeneratedNodeKey
  sharePassphrase : PasswordMessage
  publicPermissions : Option Int

structure PublicLinkAuthResponse where
  serverProof : String
  uid : String
  accessToken : Option String
  share : PublicLinkShareDto

/-- Of the client for the requests to come, its session. -/
structure AuthOutcome where
  sessionId : String
  accessToken : String
  shareKey : PrivateKey
  rootUid : NodeUid
  publicRole : MemberRole

def legacyFormat : ProtonError :=
  .invalidOperation "this public link uses a legacy format that is no longer supported"

def proofMismatch : ProtonError :=
  .invalidOperation "public link server proof did not match; refusing the session"

def noAccessToken : ProtonError :=
  .invalidOperation "public link auth returned no access token"

section

variable {σ : Type} (p : Srp.Primitives) (crash : String)

def decodeBase64 (value what : String) : Except ProtonError Bytes :=
  (p.base64Decode value).mapError
    (fun e => .invalidOperation (what ++ " is not valid base64: " ++ e))

def unlockShareKey (password : Text) (share : PublicLinkShareDto) :
    Except ProtonError PrivateKey := do
  let salt ← decodeBase64 p share.sharePasswordSalt "SharePasswordSalt"
  let keyPassword ← deriveKeyPassphrase p (asBytes password) salt
  let passphrase ← decryptArmoredWithPassword share.sharePassphrase keyPassword
  fromArmored share.shareKey passphrase

/-- The proofs, once the random generator has drawn what is accepted. -/
def proofsFor (draws : List (Except String Bytes)) (password : Text) (info : PublicLinkInfoResponse)
    (urlPasswordSalt serverEphemeral : Bytes) : Program σ ProtonError Srp.SrpProofs where
  run s :=
    (Srp.generateProofs p info.version (asBytes password) urlPasswordSalt info.modulus
      serverEphemeral 2048 draws).map (fun r => (s, r.mapError (ofFailure crash)))

/-- `Credentials::auth`, over the two requests it makes. -/
def auth (getInfo : Program σ ProtonError PublicLinkInfoResponse)
    (postAuth : PublicLinkAuthRequest → Program σ ProtonError PublicLinkAuthResponse)
    (draws : List (Except String Bytes)) (password : Text) : Program σ ProtonError AuthOutcome := do
  let info ← getInfo
  if info.isLegacy then ofExcept (.error legacyFormat)
  else do
    let urlPasswordSalt ← ofExcept (decodeBase64 p info.urlPasswordSalt "UrlPasswordSalt")
    let serverEphemeral ← ofExcept (decodeBase64 p info.serverEphemeral "ServerEphemeral")
    let proofs ← proofsFor p crash draws password info urlPasswordSalt serverEphemeral
    let response ← postAuth {
      clientProof := p.base64Encode proofs.clientProof
      clientEphemeral := p.base64Encode proofs.clientEphemeral
      srpSession := info.srpSession }
    if response.serverProof ≠ p.base64Encode proofs.expectedServerProof then
      ofExcept (.error proofMismatch)
    else do
      let shareKey ← ofExcept (unlockShareKey p password response.share)
      match response.accessToken with
      | none => ofExcept (.error noAccessToken)
      | some accessToken =>
          return {
            sessionId := response.uid
            accessToken := accessToken
            shareKey := shareKey
            rootUid := response.share.uid
            publicRole := .fromPermissions response.share.publicPermissions }

end

/-! ## The server of a link -/

structure ShareUrl where
  id : String
  publicUrl : Text
  createTime : Int
  expirationTime : Option Int
  settings : PublicLinkSettingsDto
  deriving DecidableEq, Repr

/-- What the server chooses for one visit: its ephemeral value with the secret behind it, and the
session that it opens. -/
structure Visit where
  version : Int
  secret : Nat
  ephemeral : Bytes
  srpSession : String
  uid : String
  accessToken : String

section

variable (p : Srp.Primitives) (v : Visit) (signedModulus : String) (settings : PublicLinkSettingsDto)

def serveInfo : PublicLinkInfoResponse where
  version := v.version
  modulus := signedModulus
  serverEphemeral := p.base64Encode v.ephemeral
  urlPasswordSalt := settings.urlPasswordSalt
  srpSession := v.srpSession
  flags := settings.flags

def wrongCredentials : ProtonError := .invalidOperation "wrong credentials"

/-- The server checks the proof of the visitor and gives its own, and the share, with the key packet
of the link in front of the passphrase. -/
def serveAuth (uid : NodeUid) (share : CreateShareRequest) (request : PublicLinkAuthRequest) :
    Except ProtonError PublicLinkAuthResponse := do
  let modulus ← (Srp.verifyAndDecodeModulus p signedModulus).mapError (ofFailure "")
  let verifier ← decodeBase64 p settings.srpVerifier "SRPVerifier"
  let aBytes ← decodeBase64 p request.clientEphemeral "ClientEphemeral"
  let proofs ← (Srp.serverProofs p (Srp.fromLe modulus) (2048 / 8) (Srp.fromLe verifier) v.secret
    v.ephemeral aBytes (Srp.fromLe (Srp.expandHash p (aBytes ++ v.ephemeral)))).mapError (ofFailure "")
  if request.clientProof ≠ p.base64Encode proofs.clientProof then .error wrongCredentials
  else .ok {
    serverProof := p.base64Encode proofs.expectedServerProof
    uid := v.uid
    accessToken := some v.accessToken
    share := {
      uid := uid
      sharePasswordSalt := settings.sharePasswordSalt
      shareKey := share.shareKey
      sharePassphrase := rekeyWithPassword settings.sharePassphraseKeyPacket share.sharePassphrase
      publicPermissions := some settings.permissions } }

/-- The ephemeral value of the server is what SRP has it compute from the verifier. -/
def Visit.Honest : Prop :=
  ∃ modulus verifier k, Srp.verifyAndDecodeModulus p signedModulus = .ok modulus ∧
    (Srp.fromLe modulus).Prime ∧ Srp.multiplier p (Srp.fromLe modulus) (2048 / 8) = .ok k ∧
    p.base64Decode settings.srpVerifier = .ok verifier ∧
    Srp.fromLe v.ephemeral =
      (k * Srp.fromLe verifier + 2 ^ v.secret) % Srp.fromLe modulus

end

/-! ## URLs of links -/

/-- A URL of a link, without a fragment. -/
def ValidUrl (publicUrl : Text) : Prop :=
  '#' ∉ publicUrl ∧ ∃ start token, publicUrl = start ++ (Bookmarks.container ++ token) ∧
    token ≠ [] ∧ '/' ∉ token

theorem parse_linkUrl {publicUrl secret : Text} (h : ValidUrl publicUrl) (hsecret : secret ≠ []) :
    ∃ token, Bookmarks.parsePublicLinkUrl (linkUrl publicUrl secret) = .ok (token, secret) := by
  obtain ⟨hhash, start, token, rfl, htoken, hslash⟩ := h
  have htrim : token.rdropWhile (fun c => c == '/') = token := by
    rw [List.rdropWhile_eq_self_iff]
    intro hl hlast
    apply hslash
    rw [beq_iff_eq] at hlast
    rw [← hlast]
    exact List.getLast_mem hl
  refine ⟨token, ?_⟩
  unfold Bookmarks.parsePublicLinkUrl linkUrl
  rw [Bookmarks.splitOnce_append hhash]
  dsimp only
  rw [Bookmarks.rsplitOnce_container hslash]
  dsimp only
  rw [htrim, if_neg]
  simp [htoken, hslash, hsecret]

/-- What visitors authenticate with: the two parts of the password. -/
theorem openCredentials_linkUrl {publicUrl secret : Text} (h : ValidUrl publicUrl)
    (hsecret : secret ≠ []) (custom : Option Text) :
    ∃ token, openCredentials (linkUrl publicUrl secret) custom =
      .ok (token, secret ++ custom.getD []) := by
  obtain ⟨token, hparse⟩ := parse_linkUrl h hsecret
  exact ⟨token, Bookmarks.openCredentials_of_parse hparse custom⟩

theorem length_generatePublicLinkPassword (raw : Vector UInt8 12) :
    (generatePublicLinkPassword raw).length = publicLinkPasswordLen := by
  simp [generatePublicLinkPassword, publicLinkPasswordLen]

/-! ## The share -/

/-- Calls that have no state. -/
structure Calls.Of {σ : Type} (c : Calls σ) (client : ShareClient) : Prop where
  getLinkDetails : ∀ uid, c.getLinkDetails uid = ofExcept (client.getLinkDetails uid)
  resolveParentKey : ∀ volumeId link,
    c.resolveParentKey volumeId link = ofExcept (client.resolveParentKey volumeId link)
  decryptLink : c.decryptLink = client.decryptLink
  membershipAddressFor : ∀ uid,
    c.membershipAddressFor uid = ofExcept (client.membershipAddressFor uid)
  getShare : ∀ shareId, c.getShare shareId = ofExcept (client.getShare shareId)
  createShare : ∀ volumeId share,
    c.createShare volumeId share = ofExcept (client.createShare volumeId share)

theorem createNodeShare_ofClient {σ : Type} {c : Calls σ} {client : ShareClient} (h : c.Of client)
    (d : Draws) (uid : NodeUid) (link : ShareLink) (parentKey nodeKey : PrivateKey)
    (address : String × String × PrivateKey) :
    createNodeShare c d uid link parentKey nodeKey address =
      ofExcept (Recipients.createNodeShare client d.shareKey (.v3_4 aes256 d.shareSession) uid link
        parentKey nodeKey address) := by
  unfold createNodeShare Recipients.createNodeShare
  simp only [h.createShare, Program.ofExcept_bind]
  rfl

/-- Over such calls the share is had as it was without a state. -/
theorem ensureNodeShare_ofClient {σ : Type} {c : Calls σ} {client : ShareClient} (h : c.Of client)
    (d : Draws) (uid : NodeUid) :
    ensureNodeShare c d uid =
      ofExcept (Recipients.ensureNodeShare client d.shareKey (.v3_4 aes256 d.shareSession) uid) := by
  unfold ensureNodeShare Recipients.ensureNodeShare
  simp only [h.getLinkDetails, h.resolveParentKey, h.decryptLink, h.membershipAddressFor, h.getShare,
    createNodeShare_ofClient h, Program.ofExcept_bind]
  congr 1
  funext details
  -- The two have the same reads in the same order, and part where the share is made.
  cases details.find? (fun detail => detail.link.id == uid.linkId) with
  | none => rfl
  | some detail =>
      simp only [Program.ofExcept_bind]
      congr 1
      funext parentKey
      congr 1
      funext nodeKey
      congr 1
      funext address
      cases detail.sharing with
      | none => rfl
      | some shareId =>
          simp only [Program.ofExcept_bind]
          rfl

/-! ## What was sealed -/

section

variable {p : Srp.Primitives} {crash : String} {d : Draws} {fullPassword : Text}
  {signedModulus : String} {session : ContentKey} {addressKey nodeKey : PrivateKey}
  {keyPacket : Skesk} {armoredPassword : Message} {verifier : Srp.SrpVerifier}

theorem sealSecrets_eq_ok : sealSecrets p crash d fullPassword signedModulus session addressKey =
    .ok (keyPacket, armoredPassword, verifier) ↔
      (∃ salted, deriveKeyPassphrase p (asBytes fullPassword) d.keySalt.toList = .ok salted ∧
        session.encryptWithPassword salted = .ok keyPacket) ∧
      encryptTo addressKey d.passwordSession (asBytes fullPassword) = .ok armoredPassword ∧
      Srp.generateVerifier p d.srpSalt (asBytes fullPassword) signedModulus 2048 =
        .ok verifier := by
  unfold sealSecrets
  simp only [Except.bind_eq_ok, Except.mapError_eq_ok]
  constructor
  · rintro ⟨salted, hsalted, packet, hpacket, armored, harmored, srp, hsrp, h⟩
    cases h
    exact ⟨⟨salted, hsalted, hpacket⟩, harmored, hsrp⟩
  · rintro ⟨⟨salted, hsalted, hpacket⟩, harmored, hsrp⟩
    exact ⟨salted, hsalted, keyPacket, hpacket, armoredPassword, harmored, verifier, hsrp, rfl⟩

/-- The salt that is sent is the one that the verifier was made with. -/
theorem generateVerifier_salt {srpSalt : Except String Bytes} {password : Bytes} {bitLength : Nat}
    (h : Srp.generateVerifier p srpSalt password signedModulus bitLength = .ok verifier) :
    ∃ salt, srpSalt = .ok salt ∧ verifier.salt = p.base64Encode salt := by
  obtain ⟨modulus, -, h⟩ := Except.bind_eq_ok.mp h
  cases srpSalt with
  | error e => cases h
  | ok salt =>
      obtain ⟨hashed, -, h⟩ := Except.bind_eq_ok.mp h
      obtain ⟨x, -, h⟩ := Except.bind_eq_ok.mp h
      obtain ⟨bytes, -, h⟩ := Except.bind_eq_ok.mp h
      cases h
      exact ⟨salt, rfl, rfl⟩

/-- The passphrase of a share, as its owner has it: the node key recovers the session key, which is
not one for AEAD, and reads the passphrase that the share key is locked with. -/
structure ShareRight (nodeKey : PrivateKey) (share : CreateShareRequest) (session : ContentKey) :
    Prop where
  recovers : recoverMessageSessionKey nodeKey share.sharePassphrase = .ok session
  reads : decryptArmoredMessage nodeKey share.sharePassphrase = .ok share.shareKey.passphrase
  plain : ∃ symAlg bytes, session = .v3_4 symAlg bytes

/-- The settings were sealed with this password, for a share with this session key. -/
structure Sealed (p : Srp.Primitives) (crash : String) (moduli : String → Option String)
    (addressKey : PrivateKey) (session : ContentKey) (fullPassword : Text)
    (settings : PublicLinkSettingsDto) : Prop where
  secrets : ∃ d signedModulus, moduli settings.srpModulusId = some signedModulus ∧
    settings.sharePasswordSalt = p.base64Encode d.keySalt.toList ∧
    sealSecrets p crash d fullPassword signedModulus session addressKey =
      .ok (settings.sharePassphraseKeyPacket, settings.password,
        ⟨settings.urlPasswordSalt, settings.srpVerifier⟩)
  flags : settings.flags = 2 ∨ settings.flags = 3

variable {moduli : String → Option String} {settings : PublicLinkSettingsDto} {v : Visit}
  {uid : NodeUid} {share : CreateShareRequest}

/-- The password opens the passphrase, as the server hands it out, and with it the share key. -/
theorem unlockShareKey_of_sealed (uid : NodeUid)
    (hbase64 : ∀ bytes, p.base64Decode (p.base64Encode bytes) = .ok bytes)
    (hsealed : Sealed p crash moduli addressKey session fullPassword settings)
    (hshare : ShareRight nodeKey share session) (permissions : Option Int) :
    unlockShareKey p fullPassword ⟨uid, settings.sharePasswordSalt, share.shareKey,
      rekeyWithPassword settings.sharePassphraseKeyPacket share.sharePassphrase, permissions⟩ =
        .ok share.shareKey.key := by
  obtain ⟨d, signedModulus, -, hsalt, hsecrets⟩ := hsealed.secrets
  obtain ⟨⟨salted, hsalted, hpacket⟩, -, -⟩ := sealSecrets_eq_ok.mp hsecrets
  obtain ⟨symAlg, bytes, rfl⟩ := hshare.plain
  -- The salt is read back, the password salted alike, and the packet decrypted with it.
  have hdecode : decodeBase64 p settings.sharePasswordSalt "SharePasswordSalt" =
      .ok d.keySalt.toList := by
    unfold decodeBase64
    rw [hsalt, hbase64]
    rfl
  unfold unlockShareKey
  apply Except.bind_eq_ok.mpr
  refine ⟨_, hdecode, Except.bind_eq_ok.mpr ⟨_, hsalted, Except.bind_eq_ok.mpr ⟨_,
    decrypt_rekeyWithPassword hshare.recovers hshare.reads hpacket, ?_⟩⟩⟩
  exact if_pos rfl

/-- What the server answers a visitor whose proofs are for the password. -/
theorem serveAuth_eq_ok (uid : NodeUid) (share : CreateShareRequest) {salt : Bytes}
    {proofs : Srp.SrpProofs} {draws : List (Except String Bytes)}
    (hbase64 : ∀ bytes, p.base64Decode (p.base64Encode bytes) = .ok bytes)
    (hverifier : Srp.generateVerifier p (.ok salt) (asBytes fullPassword) signedModulus 2048 =
      .ok ⟨settings.urlPasswordSalt, settings.srpVerifier⟩)
    (hhonest : v.Honest p signedModulus settings)
    (hproofs : Srp.generateProofs p v.version (asBytes fullPassword) salt signedModulus v.ephemeral
      2048 draws = some (.ok proofs)) :
    serveAuth p v signedModulus settings uid share ⟨p.base64Encode proofs.clientProof,
        p.base64Encode proofs.clientEphemeral, v.srpSession⟩ =
      .ok ⟨p.base64Encode proofs.expectedServerProof, v.uid, some v.accessToken,
        ⟨uid, settings.sharePasswordSalt, share.shareKey,
          rekeyWithPassword settings.sharePassphraseKeyPacket share.sharePassphrase,
          some settings.permissions⟩⟩ := by
  obtain ⟨modulus, vBytes, k, hmodulus, hprime, hk, hv, hB⟩ := hhonest
  -- The server's side of the exchange ends with the same proof.
  have hserver := Srp.generateProofs_serverProofs p hbase64 hverifier hmodulus hprime hk hv hB hproofs
  unfold serveAuth decodeBase64
  rw [hmodulus, hv, hbase64]
  simp only [Except.mapError, bind, Except.bind]
  rw [hserver]
  simp

/-- Every visitor who knows the password, and whose random values the handshake accepts, gets the
share key and the role of the link. -/
theorem auth_opens {σ : Type} {draws : List (Except String Bytes)} {salt : Bytes}
    {proofs : Srp.SrpProofs}
    (hbase64 : ∀ bytes, p.base64Decode (p.base64Encode bytes) = .ok bytes)
    (hsealed : Sealed p crash moduli addressKey session fullPassword settings)
    (hshare : ShareRight nodeKey share session)
    (hmoduli : moduli settings.srpModulusId = some signedModulus)
    (hhonest : v.Honest p signedModulus settings)
    (hsalt : p.base64Decode settings.urlPasswordSalt = .ok salt)
    (hproofs : Srp.generateProofs p v.version (asBytes fullPassword) salt signedModulus v.ephemeral
      2048 draws = some (.ok proofs)) (s : σ) :
    (auth p crash (pure (serveInfo p v signedModulus settings))
      (fun request => ofExcept (serveAuth p v signedModulus settings uid share request))
      draws fullPassword).run s =
        some (s, .ok ⟨v.uid, v.accessToken, share.shareKey.key, uid,
          .fromPermissions (some settings.permissions)⟩) := by
  have hunlock := unlockShareKey_of_sealed uid hbase64 hsealed hshare
    (some settings.permissions)
  obtain ⟨d, signedModulus', hmoduli', -, hsecrets⟩ := hsealed.secrets
  cases hmoduli.symm.trans hmoduli'
  obtain ⟨-, -, hverifier⟩ := sealSecrets_eq_ok.mp hsecrets
  obtain ⟨salt', hsrpSalt, hurlSalt⟩ := generateVerifier_salt hverifier
  have hurlSalt : settings.urlPasswordSalt = p.base64Encode salt' := hurlSalt
  -- The salt that the server serves is the one that the verifier was made with.
  have hsame : salt' = salt := by
    rw [hurlSalt, hbase64] at hsalt
    exact Except.ok.inj hsalt
  subst hsame
  rw [hsrpSalt] at hverifier
  -- The flags of a link that the client makes are none of the old ones.
  have hlegacy : (serveInfo p v signedModulus settings).isLegacy = false := by
    rcases hsealed.flags with h | h <;> simp [PublicLinkInfoResponse.isLegacy, serveInfo, h]
  have hsaltDecoded : decodeBase64 p (serveInfo p v signedModulus settings).urlPasswordSalt
      "UrlPasswordSalt" = .ok salt' := by
    show (p.base64Decode settings.urlPasswordSalt).mapError _ = _
    rw [hsalt]
    rfl
  have hephemeral : decodeBase64 p (serveInfo p v signedModulus settings).serverEphemeral
      "ServerEphemeral" = .ok v.ephemeral := by
    show (p.base64Decode (p.base64Encode v.ephemeral)).mapError _ = _
    rw [hbase64]
    rfl
  have hdrawn : (proofsFor p crash draws fullPassword (serveInfo p v signedModulus settings) salt'
      v.ephemeral).run s = some (s, .ok proofs) := by
    show (Srp.generateProofs p v.version _ salt' signedModulus _ _ _).map _ = _
    rw [hproofs]
    rfl
  have hanswer := serveAuth_eq_ok uid share hbase64 hverifier hhonest hproofs
  unfold auth
  rw [Program.bind_ok (Program.pure_run _ _), hlegacy, if_neg Bool.false_ne_true,
    Program.bind_ok (Program.ofExcept_eq_some.mpr ⟨rfl, hsaltDecoded⟩),
    Program.bind_ok (Program.ofExcept_eq_some.mpr ⟨rfl, hephemeral⟩), Program.bind_ok hdrawn]
  refine (Program.bind_ok (Program.ofExcept_eq_some.mpr ⟨rfl, hanswer⟩)).trans ?_
  rw [if_neg (not_not_intro rfl), Program.bind_ok (Program.ofExcept_eq_some.mpr ⟨rfl, hunlock⟩)]
  rfl

end

end Recipients.PublicLinks

end ProtonDrive
