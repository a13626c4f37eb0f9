import ProtonDrive.Lib.Lossy
import ProtonDrive.Lib.Machine
import ProtonDrive.Drive.PublicLinks

/-!
# A server of public links

To its owner, the public links of a node are a list of links, each with a URL that never changes, a
custom password, a role and an expiry. The server has a share and URLs with sealed settings.

* `book` — what happens to the list.
* `owner` — the calls of the owner one after the other, against a server that may refuse each request,
  lose the answer to it, or get it several times, as the HTTP layer sends a request again whose answer
  did not come in time.
* `Explains` — what a call has done to the list, and why it failed if it did.
* `Follows` — the URLs of the server are those of the list.
-/

namespace ProtonDrive

namespace Recipients.PublicLinks

open OpenPgp (Bytes)
open Bookmarks (Text asBytes nonEmpty publicLinkPasswordLen openCredentials)
open Program (ofExcept attempt request inquiry Triple)
open Online (At)

/-! ## Lists of links -/

/-- A public link, as its owner knows it. -/
structure Link where
  id : String
  shareId : ShareId
  publicUrl : Text
  secret : Text
  custom : Option Text
  role : MemberRole
  createTime : Int
  expirationTime : Option Int
  validUrl : ValidUrl publicUrl
  length_secret : secret.length = publicLinkPasswordLen
  nonEmpty_custom : nonEmpty custom = custom
  forLinks : role = .viewer ∨ role = .editor
  deriving DecidableEq

def Link.url (l : Link) : Text := linkUrl l.publicUrl l.secret

/-- What visitors have to know. -/
def Link.password (l : Link) : Text := l.secret ++ l.custom.getD []

/-- What a call reports of the link. -/
def Link.shown (l : Link) (creationTime : Int) : PublicLink where
  shareId := l.shareId
  publicLinkId := l.id
  url := some l.url
  role := l.role
  creationTime := creationTime
  expirationTime := l.expirationTime
  hasCustomPassword := l.custom.isSome
  customPassword := l.custom

/-- What is reported if the keys could not be had. -/
def Link.hidden (l : Link) : PublicLink :=
  { l.shown l.createTime with url := none, customPassword := none }

/-- The same link, with other options. -/
def Link.Changes (old new : Link) : Prop :=
  new.id = old.id ∧ new.shareId = old.shareId ∧ new.publicUrl = old.publicUrl ∧
    new.secret = old.secret ∧ new.createTime = old.createTime

instance (old new : Link) : Decidable (old.Changes new) := inferInstanceAs (Decidable (_ ∧ _))

/-- The options that a call asks for. -/
structure Link.Asked (l : Link) (role : MemberRole) (custom : Option Text)
    (expirationTime : Option Int) : Prop where
  role_eq : l.role = role
  custom_eq : l.custom = nonEmpty custom
  expirationTime_eq : l.expirationTime = expirationTime

inductive Event where
  | created (place : Nat) (link : Link)
  | updated (link : Link)
  | removed (id : String)

/-- The list of the links. The first one is the one that is shown and updated. -/
def book : Machine (List Link) Event where
  step links
    | .created place link =>
        if link.id ∈ links.map Link.id then none
        else some (links.take place ++ link :: links.drop place)
    | .updated link =>
        match links with
        | [] => none
        | old :: rest => if old.Changes link then some (link :: rest) else none
    | .removed id =>
        if id ∈ links.map Link.id then some (links.filter (fun link => link.id != id)) else none

/-! ## The node and the server -/

/-- A node of the user, with the keys at hand. -/
structure Owned where
  uid : NodeUid
  link : ShareLink
  parentKey : PrivateKey
  nodeKey : PrivateKey
  address : String × String × PrivateKey
  /-- The keys of the My Files address, among which is the key of the node's address. -/
  ownKeys : List PrivateKey
  moduli : String → Option String
  link_id : link.id = uid.linkId
  mem_ownKeys : address.2.2 ∈ ownKeys

/-- What the client makes a share of its node from. -/
def Owned.material (o : Owned) (d : Draws) : Except ProtonError StandardShareMaterial := do
  let nodePassphraseSk ← recoverMessageSessionKey o.parentKey o.link.passphrase
  let nodeNameSk ← recoverMessageSessionKey o.parentKey o.link.name
  buildStandardShareMaterial d.shareKey (.v3_4 aes256 d.shareSession) o.nodeKey nodePassphraseSk
    nodeNameSk o.address.2.2

structure Server where
  share : Option (ShareId × CreateShareRequest)
  urls : List ShareUrl

/-- A URL, before it has settings. -/
structure NewUrl where
  id : String
  publicUrl : Text
  /-- Where it stands among the URLs. -/
  place : Nat
  createTime : Int
  validUrl : ValidUrl publicUrl

/-- What the server chooses for what it makes. No id is given to two URLs. -/
structure Choices where
  shareId : ShareId
  modulusId : String
  newUrl : List ShareUrl → NewUrl
  fresh : ∀ urls, (newUrl urls).id ∉ urls.map ShareUrl.id

def ShareUrl.dto (u : ShareUrl) : ShareUrlDto where
  shareUrlId := u.id
  publicUrl := u.publicUrl
  password := some u.settings.password
  createTime := u.createTime
  expirationTime := u.expirationTime
  permissions := some u.settings.permissions
  flags := u.settings.flags

def refusal : ProtonError := .invalidOperation "refused"

def Server.hasShare (s : Server) (shareId : ShareId) : Prop := s.share.map Prod.fst = some shareId

instance (s : Server) (shareId : ShareId) : Decidable (s.hasShare shareId) :=
  inferInstanceAs (Decidable (_ = _))

namespace Server

variable (o : Owned) (w : Choices)

def details (s : Server) : List ShareDetails := [⟨o.link, s.share.map Prod.fst⟩]

def passphrase (shareId : ShareId) (s : Server) : Except ProtonError Message :=
  match s.share with
  | some (id, share) => if id = shareId then .ok share.sharePassphrase else .error refusal
  | none => .error refusal

def createShare (share : CreateShareRequest) (s : Server) : Except ProtonError (Server × ShareId) :=
  match s.share with
  | none => .ok ({ s with share := some (w.shareId, share) }, w.shareId)
  | some _ => .error refusal

def modulus : Except ProtonError ModulusResponse :=
  match o.moduli w.modulusId with
  | some modulus => .ok ⟨modulus, w.modulusId⟩
  | none => .error refusal

def getUrls (shareId : ShareId) (s : Server) : Except ProtonError (List ShareUrlDto) :=
  if s.hasShare shareId then .ok (s.urls.map ShareUrl.dto) else .error refusal

def makeUrl (new : NewUrl) (post : CreatePublicLinkRequest) : ShareUrl where
  id := new.id
  publicUrl := new.publicUrl
  createTime := new.createTime
  expirationTime := post.expirationTime
  settings := post.settings

def createUrl (shareId : ShareId) (post : CreatePublicLinkRequest) (s : Server) :
    Except ProtonError (Server × ShareUrlDto) :=
  let new := w.newUrl s.urls
  if s.hasShare shareId then
    .ok ({ s with urls := s.urls.take new.place ++ makeUrl new post :: s.urls.drop new.place },
      (makeUrl new post).dto)
  else .error refusal

def changeUrl (id : String) (put : UpdatePublicLinkRequest) (u : ShareUrl) : ShareUrl :=
  if u.id = id then { u with expirationTime := put.expirationTime, settings := put.settings } else u

def updateUrl (shareId : ShareId) (id : String) (put : UpdatePublicLinkRequest) (s : Server) :
    Except ProtonError (Server × Unit) :=
  if s.hasShare shareId ∧ id ∈ s.urls.map ShareUrl.id then
    .ok ({ s with urls := s.urls.map (changeUrl id put) }, ())
  else .error refusal

def deleteUrl (shareId : ShareId) (id : String) (s : Server) : Except ProtonError (Server × Unit) :=
  if s.hasShare shareId ∧ id ∈ s.urls.map ShareUrl.id then
    .ok ({ s with urls := s.urls.filter (fun u => u.id != id) }, ())
  else .error refusal

end Server

/-- The calls of the client for its node, as that server answers them. -/
def calls (o : Owned) (w : Choices) : Calls (Online Server ProtonError) where
  getLinkDetails _ := inquiry (fun s => .ok (s.details o))
  resolveParentKey _ _ := inquiry (fun _ => .ok o.parentKey)
  decryptLink _ _ := .ok o.nodeKey
  membershipAddressFor _ := inquiry (fun _ => .ok o.address)
  getShare shareId := inquiry (Server.passphrase shareId)
  createShare _ share := request (Server.createShare w share)
  ownAddressKeys := inquiry (fun _ => .ok o.ownKeys)
  fetchSrpModulus := inquiry (fun _ => Server.modulus o w)
  getUrls shareId := inquiry (Server.getUrls shareId)
  createUrl shareId post := request (Server.createUrl w shareId post)
  updateUrl shareId id put := request (Server.updateUrl shareId id put)
  deleteUrl shareId id := request (Server.deleteUrl shareId id)

/-! ## The calls of the owner -/

inductive OwnerCall where
  /-- With the time at which it returns. -/
  | create (role : MemberRole) (custom : Option Text) (expirationTime : Option Int) (now : Int)
  | update (role : MemberRole) (custom : Option Text) (expirationTime : Option Int)
  | get
  | remove (link : PublicLink)

/-- A call, with everything that is chosen for it. -/
structure Step where
  call : OwnerCall
  draws : Draws
  choices : Choices
  fates : List (Fate ProtonError)

section

variable (o : Owned) (p : Srp.Primitives) (crash : String) (replaced : Bytes → Text)

def perform (d : Draws) (w : Choices) :
    OwnerCall → Program (Online Server ProtonError) ProtonError (Option PublicLink)
  | .create role custom expirationTime now => do
      let link ← createPublicLink (calls o w) p crash d now o.uid role custom expirationTime
      return some link
  | .update role custom expirationTime => do
      let link ← updatePublicLink (calls o w) p crash d replaced o.uid role custom expirationTime
      return some link
  | .get => getPublicLink (calls o w) replaced o.uid
  | .remove link => do
      removePublicLink (calls o w) link
      return none

def owner : Machine Server (Step × Except ProtonError (Option PublicLink)) :=
  Program.client (fun step => perform o p crash replaced step.draws step.choices step.call) Step.fates

/-- A password that the client cannot seal, for whatever session key. -/
def Unsealable (d : Draws) (w : Choices) (fullPassword : Text) : Prop :=
  ∀ signedModulus, o.moduli w.modulusId = some signedModulus → ∀ session secrets,
    sealSecrets p crash d fullPassword signedModulus session o.address.2.2 ≠ .ok secrets

/-- The call fails even if all its requests are answered. -/
def Hindered (links : List Link) (step : Step) : Prop :=
  match step.call with
  | .create role custom _ _ =>
      ¬ (role = .viewer ∨ role = .editor) ∨
      (links = [] ∧ ∃ e, o.material step.draws = .error e) ∨
      Unsealable o p crash step.draws step.choices
        (generatePublicLinkPassword step.draws.password ++ (nonEmpty custom).getD [])
  | .update role custom _ =>
      ¬ (role = .viewer ∨ role = .editor) ∨ links = [] ∨
      ∃ l ∈ links.head?, Unsealable o p crash step.draws step.choices
        (l.secret ++ (nonEmpty custom).getD [])
  | .get => False
  | .remove link => ∀ l ∈ links, l.id = link.publicLinkId → l.shareId ≠ link.shareId

/-- What the call has done to the list. It did what it was asked, and said so; or a request was
disturbed, and it failed, although the last request may have been carried out; or it could do nothing.
A link is made each time the request for it is carried out. -/
inductive Explains (links : List Link) (step : Step)
    (outcome : Except ProtonError (Option PublicLink)) : List Event → Prop
  | created {role : MemberRole} {custom : Option Text} {expirationTime : Option Int} {now : Int}
      {made : List (Nat × Link)}
      (hcall : step.call = .create role custom expirationTime now)
      (hasked : ∀ m ∈ made, m.2.Asked role custom expirationTime ∧
        m.2.secret = generatePublicLinkPassword step.draws.password)
      (hcopies : Copies step.fates made.length)
      (houtcome : (∃ m, made.getLast? = some m ∧ outcome = .ok (some (m.2.shown now))) ∨
        Disturbed step.fates ∧ ∃ e, outcome = .error e) :
      Explains links step outcome (made.map (fun m => .created m.1 m.2))
  | updated {role : MemberRole} {custom : Option Text} {expirationTime : Option Int} {link : Link}
      (hcall : step.call = .update role custom expirationTime)
      (hasked : link.Asked role custom expirationTime)
      (houtcome : outcome = .ok (some (link.shown link.createTime)) ∨
        Disturbed step.fates ∧ ∃ e, outcome = .error e) : Explains links step outcome [.updated link]
  | shown (hcall : step.call = .get)
      (houtcome : outcome = .ok (links.head?.map (fun l => l.shown l.createTime)) ∨
        Disturbed step.fates ∧ outcome = .ok (links.head?.map Link.hidden)) :
      Explains links step outcome []
  | removed {link : PublicLink} (hcall : step.call = .remove link)
      (houtcome : outcome = .ok none ∨ Disturbed step.fates ∧ ∃ e, outcome = .error e) :
      Explains links step outcome [.removed link.publicLinkId]
  | failed {e : ProtonError} (houtcome : outcome = .error e)
      (hreason : Disturbed step.fates ∨ Hindered o p crash links step) : Explains links step outcome []

/-! ## What the server keeps for a link -/

/-- A URL on the server that belongs to a link: its settings were sealed with the link's password. -/
structure Shows (shareId : ShareId) (session : ContentKey) (u : ShareUrl) (l : Link) : Prop where
  id_eq : u.id = l.id
  shareId_eq : l.shareId = shareId
  publicUrl_eq : u.publicUrl = l.publicUrl
  createTime_eq : u.createTime = l.createTime
  expirationTime_eq : u.expirationTime = l.expirationTime
  permissions_eq : l.role.toPermissions = some u.settings.permissions
  flags_eq : u.settings.flags = if l.custom.isSome then 3 else 2
  isSealed : Sealed p crash o.moduli o.address.2.2 session l.password u.settings

/-- The URLs of the server are those of the links. -/
structure Follows (s : Server) (links : List Link) : Prop where
  nodup : (links.map Link.id).Nodup
  shared : ∀ shareId share, s.share = some (shareId, share) →
    ∃ session, ShareRight o.nodeKey share session ∧
      List.Forall₂ (Shows o p crash shareId session) s.urls links
  unshared : s.share = none → s.urls = [] ∧ links = []

end

end Recipients.PublicLinks

end ProtonDrive
