import ProtonDrive.Drive.Client

/-!
# Renames and moves

How `rename_node` and `move_node` build the requests they send, and what the server does with them.
Building a request reads links and keys; it never changes the server or the entity cache
(`renameRequest_keeps`, `buildMoveParts_keeps`).

The session keys of new messages are chosen at random, and are arguments here.
-/

namespace ProtonDrive

open OpenPgp

namespace Context

variable (c : Context)

/-! ## Errors -/

def nodeNotFound (uid : NodeUid) : ProtonError :=
  .invalidOperation ("node " ++ uid.text ++ " not found")

def folderNotFound (uid : NodeUid) : ProtonError :=
  .invalidOperation ("folder " ++ uid.text ++ " not found")

def notAFolder : ProtonError := .invalidOperation "parent node is not a folder"

def cannotRenameRoot : ProtonError := .invalidOperation "cannot rename the root node"

def cannotMoveRoot : ProtonError := .invalidOperation "cannot move the root node"

def crossVolumeMove : ProtonError := .invalidOperation "cross-volume move is not supported"

def emptyName : ProtonError := .invalidOperation "Name must not be empty"

def maxNodeNameLength : Nat := 255

def nameTooLong : ProtonError :=
  .invalidOperation ("Name must be " ++ toString maxNodeNameLength ++ " characters long at most")

/-- The number of characters of a UTF-8 text: its bytes less the continuation bytes. -/
def charCount (text : Bytes) : Nat := text.countP (fun b => b &&& 0xC0 != 0x80)

def validateNodeName (name : Bytes) : Except ProtonError Unit :=
  if name.isEmpty then .error emptyName
  else if charCount name > maxNodeNameLength then .error nameTooLong
  else .ok ()

/-! ## Keys and hashes -/

/-- The link of a node, fetched. -/
def fetchLink (uid : NodeUid) (notFound : ProtonError) : Call Link := do
  match (← getLinkDetails uid.volumeId [uid.linkId]).head? with
  | none => .ofExcept (.error notFound)
  | some details => return details.link

def folderNodeKey (uid : NodeUid) : Call Key := do
  match ← .read (fun w => w.folderKeys uid) with
  | some key => return key
  | none =>
      let link ← fetchLink uid (folderNotFound uid)
      let parentKey ← c.resolveParentKey uid.volumeId link
      let decrypted ← .ofExcept (decryptLink parentKey link)
      .modify (fun w => w.putFolderKey uid decrypted.nodeKey)
      return decrypted.nodeKey

def parentHashKey (parent : NodeUid) (parentKey : Key) : Call Bytes := do
  let link ← fetchLink parent notAFolder
  match link.hashKey with
  | none => .ofExcept (.error notAFolder)
  | some message => .ofExcept (decryptArmoredMessage parentKey message)

/-- The name hash of the entity cache, or else of the link. -/
def cachedOriginalNameHash (uid : NodeUid) (link : Link) : Call (Option NameHash) := do
  match ← .read (fun w => w.entities uid) with
  | some info => if info.nameHashDigest.isEmpty then return link.nameHash
                 else return some info.nameHashDigest
  | none => return link.nameHash

def originalNameHash (uid : NodeUid) (link : Link) (parentKey : Key) (parentHashKey : Bytes) :
    Call NameHash := do
  match ← cachedOriginalNameHash uid link with
  | some hash => return hash
  | none =>
      let currentName ← .ofExcept (decryptArmoredMessage parentKey link.name)
      return c.hmacName parentHashKey currentName

/-! ## Rename -/

structure RenameLinkRequest where
  name : Message
  nameHash : NameHash
  nameSignatureEmail : String
  mediaType : Option String
  originalHash : NameHash
  deriving DecidableEq, Repr

/-- The request of a `rename_node`. -/
def renameRequest (uid : NodeUid) (newName : Bytes) (newMediaType : Option String)
    (session : Session) : Call RenameLinkRequest := do
  .ofExcept (validateNodeName newName)
  let link ← fetchLink uid (nodeNotFound uid)
  match link.parentId with
  | none => .ofExcept (.error cannotRenameRoot)
  | some p =>
      let parentUid : NodeUid := ⟨uid.volumeId, p⟩
      let parentKey ← c.folderNodeKey parentUid
      let hashKey ← parentHashKey parentUid parentKey
      let (email, signingKey) ← .ofExcept c.membershipAddress
      let originalHash ← c.originalNameHash uid link parentKey hashKey
      return {
        name := encryptAndSign parentKey signingKey session newName
        nameHash := c.hmacName hashKey newName
        nameSignatureEmail := email
        mediaType := newMediaType
        originalHash := originalHash }

/-! ## Move -/

structure MoveParts where
  passphrase : Message
  encryptedName : Message
  nameHash : NameHash
  originalHash : NameHash
  anonymousSignature : Option Signature
  currentName : Bytes
  deriving DecidableEq, Repr

/-- Nobody is named as the signer of the link's passphrase. -/
def isAnonymous (link : Link) : Bool :=
  match link.signatureEmail with
  | none => true
  | some email => email.isEmpty

/-- The mover signs the passphrase of an anonymous link. -/
def signAnonymous (parentKey : Key) (link : Link) (signingKey : Key) :
    Except ProtonError (Option Signature) :=
  if isAnonymous link then do
    let plaintext ← decryptArmoredMessage parentKey link.passphrase
    return some (signDetached signingKey plaintext)
  else return none

def buildMoveParts (uid : NodeUid) (link : Link) (targetName : Option Bytes) (destParentKey : Key)
    (destHashKey : Bytes) (signingKey : Key) (session : Session) : Call MoveParts := do
  match link.parentId with
  | none => .ofExcept (.error cannotMoveRoot)
  | some p =>
      let sourceParentUid : NodeUid := ⟨uid.volumeId, p⟩
      let sourceParentKey ← c.folderNodeKey sourceParentUid
      let sourceHashKey ← parentHashKey sourceParentUid sourceParentKey
      let currentName ← .ofExcept (decryptArmoredMessage sourceParentKey link.name)
      let originalHash ← c.originalNameHash uid link sourceParentKey sourceHashKey
      let passphrase ← .ofExcept (rewrapMessageTo sourceParentKey link.passphrase destParentKey)
      let anonymousSignature ← .ofExcept (signAnonymous sourceParentKey link signingKey)
      let name := targetName.getD currentName
      return {
        passphrase := passphrase
        encryptedName := encryptAndSign destParentKey signingKey session name
        nameHash := c.hmacName destHashKey name
        originalHash := originalHash
        anonymousSignature := anonymousSignature
        currentName := currentName }

structure MoveLinkRequest where
  parentLinkId : LinkId
  passphrase : Message
  passphraseSignature : Option Signature
  name : Message
  nameSignatureEmail : String
  nameHash : NameHash
  originalHash : NameHash
  signatureEmail : Option String
  deriving DecidableEq, Repr

/-- The request of a `move_node`. -/
def moveRequest (uid newParent : NodeUid) (session : Session) : Call MoveLinkRequest := do
  if uid.volumeId ≠ newParent.volumeId then .ofExcept (.error crossVolumeMove)
  else
    let link ← fetchLink uid (nodeNotFound uid)
    let destParentKey ← c.folderNodeKey newParent
    let destHashKey ← parentHashKey newParent destParentKey
    let (email, signingKey) ← .ofExcept c.membershipAddress
    let parts ← c.buildMoveParts uid link none destParentKey destHashKey signingKey session
    return {
      parentLinkId := newParent.linkId
      passphrase := parts.passphrase
      passphraseSignature := parts.anonymousSignature
      name := parts.encryptedName
      nameSignatureEmail := email
      nameHash := parts.nameHash
      originalHash := parts.originalHash
      signatureEmail := parts.anonymousSignature.map (fun _ => email) }

end Context

/-! ## What building a request leaves alone -/

/-- Nothing but the key cache has changed. -/
structure KeysOnly (w w' : World) : Prop where
  server_eq : w'.server = w.server
  entities_eq : w'.entities = w.entities

instance : Std.Refl KeysOnly := ⟨fun _ => ⟨rfl, rfl⟩⟩

instance : Trans KeysOnly KeysOnly KeysOnly where
  trans h h' := ⟨h'.server_eq.trans h.server_eq, h'.entities_eq.trans h.entities_eq⟩

namespace Context

variable {c : Context}

theorem resolveParentKey_keeps (v : VolumeId) (link : Link) :
    (c.resolveParentKey v link).Keeps KeysOnly := by
  intro w w' r h
  unfold resolveParentKey at h
  dsimp only at h
  split at h
  · cases h
    exact Std.Refl.refl w
  · obtain ⟨outcome, -, hw⟩ := Option.map_eq_some_iff.mp h
    cases hw
    exact ⟨putFolderKeys_server w v _, putFolderKeys_entities w v _⟩

section Keeps

variable {R : World → World → Prop} [Std.Refl R] [Trans R R R]

theorem fetchLink_keeps (uid : NodeUid) (e : ProtonError) : (fetchLink uid e).Keeps R := by
  refine .bind (.read _) ?_
  intro links
  split
  · exact .ofExcept _
  · exact .pure _

theorem parentHashKey_keeps (parent : NodeUid) (key : Key) :
    (parentHashKey parent key).Keeps R := by
  refine .bind (fetchLink_keeps parent _) (fun link => ?_)
  split
  · exact .ofExcept _
  · exact .ofExcept _

theorem originalNameHash_keeps (uid : NodeUid) (link : Link) (key : Key) (hashKey : Bytes) :
    (c.originalNameHash uid link key hashKey).Keeps R := by
  refine .bind (.bind (.read _) ?_) ?_
  · intro entry
    split
    · split
      · exact .pure _
      · exact .pure _
    · exact .pure _
  · intro hash
    split
    · exact .pure _
    · exact .bind (.ofExcept _) (fun name => .pure _)

-- Requests touch the world in one place only: where a folder's key is looked up.
variable (hkey : ∀ uid, (c.folderNodeKey uid).Keeps R)
include hkey

theorem buildMoveParts_keeps (uid : NodeUid) (link : Link) (targetName : Option Bytes)
    (destParentKey : Key) (destHashKey : Bytes) (signingKey : Key) (session : Session) :
    (c.buildMoveParts uid link targetName destParentKey destHashKey signingKey session).Keeps R := by
  unfold buildMoveParts
  split
  · exact .ofExcept _
  · refine .bind (hkey _) (fun key => ?_)
    refine .bind (parentHashKey_keeps _ key) (fun hashKey => ?_)
    refine .bind (.ofExcept _) (fun name => ?_)
    refine .bind (originalNameHash_keeps uid link key hashKey) (fun hash => ?_)
    exact .bind (.ofExcept _) (fun _ => .bind (.ofExcept _) (fun _ => .pure _))

theorem renameRequest_keeps (uid : NodeUid) (newName : Bytes) (newMediaType : Option String)
    (session : Session) : (c.renameRequest uid newName newMediaType session).Keeps R := by
  refine .bind (.ofExcept _) (fun _ => ?_)
  refine .bind (fetchLink_keeps uid _) (fun link => ?_)
  split
  · exact .ofExcept _
  · refine .bind (hkey _) (fun key => ?_)
    refine .bind (parentHashKey_keeps _ key) (fun hashKey => ?_)
    refine .bind (.ofExcept _) (fun address => ?_)
    exact .bind (originalNameHash_keeps uid link key hashKey) (fun hash => .pure _)

theorem moveRequest_keeps (uid newParent : NodeUid) (session : Session) :
    (c.moveRequest uid newParent session).Keeps R := by
  unfold moveRequest
  split
  · exact .ofExcept _
  · refine .bind (fetchLink_keeps uid _) (fun link => ?_)
    refine .bind (hkey _) (fun key => ?_)
    refine .bind (parentHashKey_keeps _ key) (fun hashKey => ?_)
    refine .bind (.ofExcept _) (fun address => ?_)
    exact .bind (buildMoveParts_keeps hkey uid link none key hashKey _ session) (fun parts => .pure _)

end Keeps

theorem folderNodeKey_keeps (uid : NodeUid) : (c.folderNodeKey uid).Keeps KeysOnly := by
  refine .bind (.read _) ?_
  intro cached
  split
  · exact .pure _
  · refine .bind (fetchLink_keeps uid _) (fun link => ?_)
    refine .bind (resolveParentKey_keeps _ link) (fun parentKey => ?_)
    refine .bind (.ofExcept _) (fun decrypted => ?_)
    exact .bind (.modify (fun w => ⟨rfl, rfl⟩)) (fun _ => .pure _)

/-- A link that has been fetched is the server's. -/
theorem fetchLink_eq_ok {uid : NodeUid} {e : ProtonError} {w w' : World} {link : Link}
    (h : (fetchLink uid e).run w = some (w', .ok link)) :
    w' = w ∧ ∃ details, w.server uid = some details ∧ details.link = link := by
  unfold fetchLink getLinkDetails at h
  rw [Program.read_bind] at h
  cases hd : w.server uid with
  | none =>
      simp only [hd, List.filterMap_cons, List.filterMap_nil, List.head?_nil] at h
      cases h
  | some details =>
      simp only [hd, List.filterMap_cons, List.filterMap_nil, List.head?_cons] at h
      cases h
      exact ⟨rfl, details, rfl, rfl⟩

/-! ## What a request that has been built is made of -/

theorem parentHashKey_eq_ok {parent : NodeUid} {key : Key} {w w' : World} {hashKey : Bytes}
    (h : (parentHashKey parent key).run w = some (w', .ok hashKey)) :
    w' = w ∧ ∃ details message, w.server parent = some details ∧
      details.link.hashKey = some message ∧ decryptArmoredMessage key message = .ok hashKey := by
  obtain ⟨t, link, hfetch, hrest⟩ := Program.bind_eq_ok.mp h
  obtain ⟨rfl, details, hd, rfl⟩ := fetchLink_eq_ok hfetch
  split at hrest
  · cases hrest
  · next message hmessage =>
    obtain ⟨rfl, hdecrypt⟩ := Program.ofExcept_eq_some.mp hrest
    exact ⟨rfl, details, message, hd, hmessage, hdecrypt⟩

/-- Finding out the hash does not change anything. -/
theorem originalNameHash_eq_ok {uid : NodeUid} {link : Link} {key : Key} {hashKey : Bytes}
    {w w' : World} {sent : NameHash}
    (h : (c.originalNameHash uid link key hashKey).run w = some (w', .ok sent)) : w' = w := by
  obtain ⟨t, cached, hcached, hrest⟩ := Program.bind_eq_ok.mp h
  have ht : t = w := by
    unfold cachedOriginalNameHash at hcached
    rw [Program.read_bind] at hcached
    split at hcached
    · split at hcached
      · cases hcached; rfl
      · cases hcached; rfl
    · cases hcached; rfl
  subst ht
  split at hrest
  · cases hrest; rfl
  · obtain ⟨t', name, hname, hpure⟩ := Program.bind_eq_ok.mp hrest
    cases hpure
    exact (Program.ofExcept_eq_some.mp hname).1

theorem renameRequest_eq_ok {uid : NodeUid} {newName : Bytes} {newMediaType : Option String}
    {session : Session} {w w' : World} {request : RenameLinkRequest}
    (h : (c.renameRequest uid newName newMediaType session).run w = some (w', .ok request)) :
    ∃ details p parentKey hashKey email signingKey originalHash,
      w.server uid = some details ∧ details.link.parentId = some p ∧
      (c.folderNodeKey ⟨uid.volumeId, p⟩).run w = some (w', .ok parentKey) ∧
      (parentHashKey ⟨uid.volumeId, p⟩ parentKey).run w' = some (w', .ok hashKey) ∧
      c.membershipAddress = .ok (email, signingKey) ∧
      (c.originalNameHash uid details.link parentKey hashKey).run w' =
        some (w', .ok originalHash) ∧
      request = ⟨encryptAndSign parentKey signingKey session newName, c.hmacName hashKey newName,
        email, newMediaType, originalHash⟩ := by
  unfold renameRequest at h
  obtain ⟨t, _, hvalid, hlink⟩ := Program.bind_eq_ok.mp h
  obtain ⟨ht, -⟩ := Program.ofExcept_eq_some.mp hvalid
  subst ht
  -- The link is fetched first; a node without a parent is refused.
  obtain ⟨t, link, hfetch, hparent⟩ := Program.bind_eq_ok.mp hlink
  obtain ⟨rfl, details, hd, rfl⟩ := fetchLink_eq_ok hfetch
  split at hparent
  · cases hparent
  · next p hp =>
    obtain ⟨t1, key, hkey, hrest1⟩ := Program.bind_eq_ok.mp hparent
    obtain ⟨t2, hashKey, hhashKey, hrest2⟩ := Program.bind_eq_ok.mp hrest1
    obtain ⟨t3, ⟨email, signingKey⟩, haddress, hrest3⟩ := Program.bind_eq_ok.mp hrest2
    obtain ⟨t4, hash, hhash, hrest4⟩ := Program.bind_eq_ok.mp hrest3
    cases hrest4
    -- Of these reads only that of the parent's key may change the caches.
    obtain ⟨ht, haddr⟩ := Program.ofExcept_eq_some.mp haddress
    have ht' := originalNameHash_eq_ok hhash
    have ht'' := (parentHashKey_eq_ok hhashKey).1
    subst ht ht' ht''
    exact ⟨details, p, key, hashKey, email, signingKey, hash, hd, hp, hkey, hhashKey, haddr,
      hhash, rfl⟩

theorem buildMoveParts_eq_ok {uid : NodeUid} {link : Link} {targetName : Option Bytes}
    {destParentKey : Key} {destHashKey : Bytes} {signingKey : Key} {session : Session}
    {w w' : World} {parts : MoveParts}
    (h : (c.buildMoveParts uid link targetName destParentKey destHashKey signingKey session).run w =
      some (w', .ok parts)) :
    ∃ p parentKey hashKey,
      link.parentId = some p ∧
      (c.folderNodeKey ⟨uid.volumeId, p⟩).run w = some (w', .ok parentKey) ∧
      (parentHashKey ⟨uid.volumeId, p⟩ parentKey).run w' = some (w', .ok hashKey) ∧
      decryptArmoredMessage parentKey link.name = .ok parts.currentName ∧
      (c.originalNameHash uid link parentKey hashKey).run w' =
        some (w', .ok parts.originalHash) ∧
      rewrapMessageTo parentKey link.passphrase destParentKey = .ok parts.passphrase ∧
      signAnonymous parentKey link signingKey = .ok parts.anonymousSignature ∧
      parts.encryptedName = encryptAndSign destParentKey signingKey session
        (targetName.getD parts.currentName) ∧
      parts.nameHash = c.hmacName destHashKey (targetName.getD parts.currentName) := by
  unfold buildMoveParts at h
  split at h
  · cases h
  · next p hp =>
    -- The parts in the order in which the source builds them.
    obtain ⟨t1, key, hkey, hrest1⟩ := Program.bind_eq_ok.mp h
    obtain ⟨t2, hashKey, hhashKey, hrest2⟩ := Program.bind_eq_ok.mp hrest1
    obtain ⟨t3, name, hname, hrest3⟩ := Program.bind_eq_ok.mp hrest2
    obtain ⟨t4, hash, hhash, hrest4⟩ := Program.bind_eq_ok.mp hrest3
    obtain ⟨t5, passphrase, hpassphrase, hrest5⟩ := Program.bind_eq_ok.mp hrest4
    obtain ⟨t6, signature, hsignature, hrest6⟩ := Program.bind_eq_ok.mp hrest5
    cases hrest6
    obtain ⟨ht, hplain⟩ := Program.ofExcept_eq_some.mp hname
    obtain ⟨ht', hwrap⟩ := Program.ofExcept_eq_some.mp hpassphrase
    obtain ⟨ht'', hsign⟩ := Program.ofExcept_eq_some.mp hsignature
    subst ht ht' ht''
    have ht := originalNameHash_eq_ok hhash
    have ht' := (parentHashKey_eq_ok hhashKey).1
    subst ht ht'
    exact ⟨p, key, hashKey, hp, hkey, hhashKey, hplain, hhash, hwrap, hsign, rfl, rfl⟩

theorem moveRequest_eq_ok {uid newParent : NodeUid} {session : Session} {w w' : World}
    {request : MoveLinkRequest}
    (h : (c.moveRequest uid newParent session).run w = some (w', .ok request)) :
    ∃ details destParentKey destHashKey email signingKey parts t,
      uid.volumeId = newParent.volumeId ∧ w.server uid = some details ∧
      (c.folderNodeKey newParent).run w = some (t, .ok destParentKey) ∧
      (parentHashKey newParent destParentKey).run t = some (t, .ok destHashKey) ∧
      c.membershipAddress = .ok (email, signingKey) ∧
      (c.buildMoveParts uid details.link none destParentKey destHashKey signingKey session).run t =
        some (w', .ok parts) ∧
      request = ⟨newParent.linkId, parts.passphrase, parts.anonymousSignature, parts.encryptedName,
        email, parts.nameHash, parts.originalHash,
        parts.anonymousSignature.map (fun _ => email)⟩ := by
  unfold moveRequest at h
  split at h
  · cases h
  · next hvolume =>
    -- The move stays in one volume; the link is fetched before the keys of the destination.
    obtain ⟨t, link, hfetch, hrest1⟩ := Program.bind_eq_ok.mp h
    obtain ⟨rfl, details, hd, rfl⟩ := fetchLink_eq_ok hfetch
    obtain ⟨t1, destKey, hdestKey, hrest2⟩ := Program.bind_eq_ok.mp hrest1
    obtain ⟨t2, destHashKey, hdestHashKey, hrest3⟩ := Program.bind_eq_ok.mp hrest2
    obtain ⟨t3, ⟨email, signingKey⟩, haddress, hrest4⟩ := Program.bind_eq_ok.mp hrest3
    obtain ⟨t4, parts, hparts, hrest5⟩ := Program.bind_eq_ok.mp hrest4
    cases hrest5
    obtain ⟨ht, haddr⟩ := Program.ofExcept_eq_some.mp haddress
    have ht' := (parentHashKey_eq_ok hdestHashKey).1
    subst ht ht'
    exact ⟨details, destKey, destHashKey, email, signingKey, parts, t3, not_not.mp hvolume, hd,
      hdestKey, hdestHashKey, haddr, hparts, rfl⟩

end Context

/-! ## The server -/

/-- Set the details of one node. -/
def World.setLink (w : World) (uid : NodeUid) (details : Option LinkDetails) : World :=
  { w with server := Function.update w.server uid details }

/-- Change the details of one node. -/
def World.updateLink (w : World) (uid : NodeUid) (f : LinkDetails → LinkDetails) : World :=
  { w with server := Function.update w.server uid ((w.server uid).map f) }

@[simp] theorem updateLink_entities (w : World) (uid : NodeUid) (f : LinkDetails → LinkDetails) :
    (w.updateLink uid f).entities = w.entities := rfl

@[simp] theorem updateLink_folderKeys (w : World) (uid : NodeUid) (f : LinkDetails → LinkDetails) :
    (w.updateLink uid f).folderKeys = w.folderKeys := rfl

theorem setLink_eq_some {w : World} {uid u : NodeUid} {details : Option LinkDetails}
    {d : LinkDetails} : (w.setLink uid details).server u = some d ↔
      (u = uid ∧ details = some d) ∨ (u ≠ uid ∧ w.server u = some d) := by
  simp only [World.setLink, Function.update_apply]
  split
  · next huid => simp [huid]
  · next huid => simp [huid]

theorem setLink_self (w : World) (uid : NodeUid) (details : Option LinkDetails) :
    (w.setLink uid details).server uid = details := Function.update_self ..

theorem setLink_of_ne (w : World) {uid u : NodeUid} (h : u ≠ uid) (details : Option LinkDetails) :
    (w.setLink uid details).server u = w.server u := Function.update_of_ne h ..

/-- A node that is not there is not changed. -/
theorem updateLink_of_none {w : World} {uid : NodeUid} (h : w.server uid = none)
    (f : LinkDetails → LinkDetails) : w.updateLink uid f = w := by
  unfold World.updateLink
  rw [h, Option.map_none, ← h, Function.update_eq_self]

theorem updateLink_of_some {w : World} {uid : NodeUid} {d : LinkDetails}
    (h : w.server uid = some d) (f : LinkDetails → LinkDetails) :
    w.updateLink uid f = w.setLink uid (some (f d)) := by
  unfold World.updateLink World.setLink
  rw [h, Option.map_some]

/-- The server stores the fields as sent and keeps those that a request leaves out. -/
def LinkDetails.rename (request : Context.RenameLinkRequest) (d : LinkDetails) : LinkDetails :=
  { d with
    link := { d.link with
      name := request.name
      nameHash := some request.nameHash
      nameSignatureEmail := some request.nameSignatureEmail }
    file := d.file.map (fun file =>
      { file with mediaType := request.mediaType.getD file.mediaType }) }

def LinkDetails.move (request : Context.MoveLinkRequest) (d : LinkDetails) : LinkDetails :=
  { d with
    link := { d.link with
      parentId := some request.parentLinkId
      passphrase := request.passphrase
      passphraseSignature := request.passphraseSignature <|> d.link.passphraseSignature
      signatureEmail := request.signatureEmail <|> d.link.signatureEmail
      name := request.name
      nameHash := some request.nameHash
      nameSignatureEmail := some request.nameSignatureEmail } }

end ProtonDrive
