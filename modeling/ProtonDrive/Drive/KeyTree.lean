import ProtonDrive.Drive.BulkMove
import ProtonDrive.Drive.Create

/-!
# The key tree

The passphrase of a node is encrypted to the node key of its parent, and unlocks the node's own key;
its name is encrypted to the same key, and hashed under the parent's hash key. `Holds` says that all
of this is so, of every node, for the passphrase and key the node was created with and the name it
was last given.

* `Holds.put` — one node may be added or changed, if it is in its place afterwards.
* `folderNodeKey_ensures`, `parentHashKey_ensures` — what is looked up of a folder is its own.
* `renameRequest_ensures`, `buildMoveParts_ensures`, … — what is sent belongs where it is sent to.
-/

namespace ProtonDrive

open OpenPgp

/-- What a node was created with. -/
structure Birth where
  passphrase : Bytes
  key : Key
  deriving DecidableEq, Repr

namespace Context

variable {c : Context} {birth : NodeUid → Option Birth} {given : NodeUid → Bytes} {w : World}
  {server : NodeUid → Option LinkDetails}

/-! ## The invariant -/

/-- The link's key unlocks with its passphrase, and the passphrase is signed by the address that is
named as its signer. -/
structure Own (c : Context) (b : Birth) (link : Link) : Prop where
  unlocks : fromArmored link.key b.passphrase = .ok b.key
  signed : ∀ email, link.signatureEmail = some email → email.isEmpty = false →
    ∃ s, link.passphraseSignature = some s ∧
      verifyDetached s b.passphrase (c.account.publicKeys email) = .ok

/-- The link is in its place in a folder with this key and hash key. -/
structure Placed (c : Context) (passphrase name : Bytes) (key : Key) (hashKey : Bytes) (link : Link) :
    Prop where
  decrypt_passphrase : decryptArmoredMessage key link.passphrase = .ok passphrase
  decrypt_name : decryptArmoredMessage key link.name = .ok name
  nameHash_eq : link.nameHash = some (c.hmacName hashKey name)

/-- A folder with this node key and this hash key. -/
def Folder (birth : NodeUid → Option Birth) (server : NodeUid → Option LinkDetails) (uid : NodeUid)
    (key : Key) (hashKey : Bytes) : Prop :=
  (∃ b, birth uid = some b ∧ b.key = key) ∧
    ∃ details message, server uid = some details ∧ details.link.hashKey = some message ∧
      decryptArmoredMessage key message = .ok hashKey

/-- Every node has its own key, is in its place below its parent, and has the right key in the cache
if it has one there. -/
structure Holds (c : Context) (birth : NodeUid → Option Birth) (given : NodeUid → Bytes) (w : World) :
    Prop where
  named : WellNamed w.server
  own : ∀ uid details, w.server uid = some details →
    ∃ b, birth uid = some b ∧ Own c b details.link
  placed : ∀ uid details p, w.server uid = some details → details.link.parentId = some p →
    ∃ b key hashKey, birth uid = some b ∧ Folder birth w.server ⟨uid.volumeId, p⟩ key hashKey ∧
      Placed c b.passphrase (given uid) key hashKey details.link
  cached : ∀ uid key, w.folderKeys uid = some key → ∃ b, birth uid = some b ∧ b.key = key

/-- A folder has one key and one hash key. -/
theorem Folder.unique {uid : NodeUid} {key key' : Key} {hashKey hashKey' : Bytes}
    (h : Folder birth server uid key hashKey) (h' : Folder birth server uid key' hashKey') :
    key = key' ∧ hashKey = hashKey' := by
  obtain ⟨⟨b, hb, rfl⟩, details, message, hd, hm, hdecrypt⟩ := h
  obtain ⟨⟨b', hb', rfl⟩, details', message', hd', hm', hdecrypt'⟩ := h'
  cases hb.symm.trans hb'
  cases hd.symm.trans hd'
  cases hm.symm.trans hm'
  cases hdecrypt.symm.trans hdecrypt'
  exact ⟨rfl, rfl⟩

/-- Folders stay folders while births and hash keys stay. -/
theorem Folder.mono {birth' : NodeUid → Option Birth} {server' : NodeUid → Option LinkDetails}
    {uid : NodeUid} {key : Key} {hashKey : Bytes} (h : Folder birth server uid key hashKey)
    (hbirth : ∀ b, birth uid = some b → birth' uid = some b)
    (hserver : ∀ details message, server uid = some details → details.link.hashKey = some message →
      ∃ details', server' uid = some details' ∧ details'.link.hashKey = some message) :
    Folder birth' server' uid key hashKey := by
  obtain ⟨⟨b, hb, hkey⟩, details, message, hd, hm, hdecrypt⟩ := h
  obtain ⟨details', hd', hm'⟩ := hserver details message hd hm
  exact ⟨⟨b, hbirth b hb, hkey⟩, details', message, hd', hm', hdecrypt⟩

theorem Folder.updateLink {uid u : NodeUid} {key : Key} {hashKey : Bytes}
    (h : Folder birth w.server uid key hashKey) {f : LinkDetails → LinkDetails}
    (hf : ∀ d, (f d).link.hashKey = d.link.hashKey) :
    Folder birth (w.updateLink u f).server uid key hashKey := by
  refine h.mono (fun _ hb => hb) ?_
  intro d message hd hm
  by_cases hu : uid = u
  · subst hu
    rw [updateLink_of_some hd]
    exact ⟨f d, setLink_self .., (hf d).trans hm⟩
  · exact ⟨d, (Function.update_of_ne hu ..).trans hd, hm⟩

/-! ## Changes -/

/-- **One node is added or changed.** It must keep the birth and the hash key it has, and be in its
place afterwards. -/
theorem Holds.put (h : Holds c birth given w) {uid : NodeUid} {details : LinkDetails} {b : Birth}
    (hid : details.link.id = uid.linkId) (hbirth : ∀ b', birth uid = some b' → b' = b)
    (hhash : ∀ old message, w.server uid = some old → old.link.hashKey = some message →
      details.link.hashKey = some message)
    (hown : Own c b details.link) {name : Bytes}
    (hplaced : ∀ p, details.link.parentId = some p →
      ∃ key hashKey, Folder birth w.server ⟨uid.volumeId, p⟩ key hashKey ∧
        Placed c b.passphrase name key hashKey details.link) :
    Holds c (Function.update birth uid (some b)) (Function.update given uid name)
      (w.setLink uid (some details)) := by
  -- A node keeps what it was born with, so the folders of before are folders still.
  have hborn : ∀ u b', birth u = some b' → Function.update birth uid (some b) u = some b' := by
    intro u b' hu
    by_cases huid : u = uid
    · subst huid
      rw [Function.update_self, hbirth b' hu]
    · rw [Function.update_of_ne huid]
      exact hu
  have hfolder : ∀ {u key hashKey}, Folder birth w.server u key hashKey →
      Folder (Function.update birth uid (some b)) (w.setLink uid (some details)).server u key
        hashKey := by
    intro u key hashKey hf
    refine hf.mono (hborn u) ?_
    intro old message hold hm
    by_cases huid : u = uid
    · subst huid
      exact ⟨details, setLink_self .., hhash old message hold hm⟩
    · exact ⟨old, by rw [setLink_of_ne w huid]; exact hold, hm⟩
  refine ⟨?_, ?_, ?_, ?_⟩
  · intro u d hd
    rcases setLink_eq_some.mp hd with ⟨rfl, hnew⟩ | ⟨-, hd⟩
    · cases hnew
      exact hid
    · exact h.named u d hd
  · intro u d hd
    rcases setLink_eq_some.mp hd with ⟨rfl, hnew⟩ | ⟨-, hd⟩
    · cases hnew
      exact ⟨b, Function.update_self .., hown⟩
    · obtain ⟨b', hb', hown'⟩ := h.own u d hd
      exact ⟨b', hborn u b' hb', hown'⟩
  · intro u d p hd hp
    rcases setLink_eq_some.mp hd with ⟨rfl, hnew⟩ | ⟨huid, hd⟩
    · cases hnew
      obtain ⟨key, hashKey, hf, hpl⟩ := hplaced p hp
      refine ⟨b, key, hashKey, Function.update_self .., hfolder hf, ?_⟩
      rw [Function.update_self]
      exact hpl
    · obtain ⟨b', key, hashKey, hb', hf, hpl⟩ := h.placed u d p hd hp
      refine ⟨b', key, hashKey, hborn u b' hb', hfolder hf, ?_⟩
      rw [Function.update_of_ne huid]
      exact hpl
  · intro u key hk
    obtain ⟨b', hb', hkey⟩ := h.cached u key hk
    exact ⟨b', hborn u b' hb', hkey⟩

/-- A node changes that is there already, under the birth it has. -/
theorem Holds.change (h : Holds c birth given w) {uid : NodeUid} {d : LinkDetails} {b : Birth}
    (hd : w.server uid = some d) (hb : birth uid = some b) {f : LinkDetails → LinkDetails}
    (hid : (f d).link.id = d.link.id) (hhash : (f d).link.hashKey = d.link.hashKey)
    (hown : Own c b (f d).link) {name : Bytes}
    (hplaced : ∀ p, (f d).link.parentId = some p →
      ∃ key hashKey, Folder birth w.server ⟨uid.volumeId, p⟩ key hashKey ∧
        Placed c b.passphrase name key hashKey (f d).link) :
    Holds c birth (Function.update given uid name) (w.updateLink uid f) := by
  have hput : Holds c (Function.update birth uid (some b)) (Function.update given uid name)
      (w.setLink uid (some (f d))) := by
    refine h.put (hid.trans (h.named uid d hd)) ?_ ?_ hown hplaced
    · intro b' hb'
      exact Option.some.inj (hb'.symm.trans hb)
    · intro old message hold hm
      cases hd.symm.trans hold
      exact hhash.trans hm
  rw [← hb, Function.update_eq_self] at hput
  rw [updateLink_of_some hd]
  exact hput

/-- A node that is no folder is removed. -/
theorem Holds.remove (h : Holds c birth given w) {uid : NodeUid}
    (hfile : ∀ details, w.server uid = some details → details.link.hashKey = none) :
    Holds c birth given (w.setLink uid none) := by
  have hkept : ∀ {u d}, (w.setLink uid none).server u = some d → w.server u = some d := by
    intro u d hd
    rcases setLink_eq_some.mp hd with ⟨-, hd⟩ | ⟨-, hd⟩
    · cases hd
    · exact hd
  refine ⟨fun u d hd => h.named u d (hkept hd), fun u d hd => h.own u d (hkept hd), ?_, h.cached⟩
  intro u d p hd hp
  obtain ⟨b, key, hashKey, hb, hf, hpl⟩ := h.placed u d p (hkept hd) hp
  refine ⟨b, key, hashKey, hb, hf.mono (fun _ hb => hb) ?_, hpl⟩
  intro old message hold hm
  -- The parent has a hash key, so it is not the node that goes.
  have hne : (⟨u.volumeId, p⟩ : NodeUid) ≠ uid := by
    intro heq
    rw [heq] at hold
    rw [hfile old hold] at hm
    cases hm
  exact ⟨old, by rw [setLink_of_ne w hne]; exact hold, hm⟩

/-- What is not in the link itself may change. -/
theorem Holds.updateDetails (h : Holds c birth given w) (uid : NodeUid)
    {f : LinkDetails → LinkDetails} (hf : ∀ d, (f d).link = d.link) :
    Holds c birth given (w.updateLink uid f) := by
  cases hd : w.server uid with
  | none =>
      rw [updateLink_of_none hd]
      exact h
  | some d =>
      obtain ⟨b, hb, hown⟩ := h.own uid d hd
      have hchange : Holds c birth (Function.update given uid (given uid)) (w.updateLink uid f) := by
        refine h.change hd hb (by rw [hf]) (by rw [hf]) (by rw [hf]; exact hown) ?_
        intro p hp
        rw [hf] at hp
        obtain ⟨b', key, hashKey, hb', hfold, hpl⟩ := h.placed uid d p hd hp
        cases hb.symm.trans hb'
        rw [hf]
        exact ⟨key, hashKey, hfold, hpl⟩
      rw [Function.update_eq_self] at hchange
      exact hchange

/-! ## Keys and hash keys -/

/-- The invariant over a server that does not change. -/
def At (c : Context) (birth : NodeUid → Option Birth) (given : NodeUid → Bytes)
    (server : NodeUid → Option LinkDetails) (w : World) : Prop :=
  Holds c birth given w ∧ w.server = server

/-- Keys may be put into the cache if they are right. -/
theorem At.cache (h : At c birth given server w) {w' : World} (hserver : w'.server = w.server)
    (hkeys : ∀ uid key, w'.folderKeys uid = some key →
      w.folderKeys uid = some key ∨ ∃ b, birth uid = some b ∧ b.key = key) :
    At c birth given server w' := by
  obtain ⟨h, hs⟩ := h
  refine ⟨⟨?_, ?_, ?_, ?_⟩, hserver.trans hs⟩
  · rw [hserver]
    exact h.named
  · rw [hserver]
    exact h.own
  · rw [hserver]
    exact h.placed
  · intro uid key hk
    rcases hkeys uid key hk with hk | hb
    · exact h.cached uid key hk
    · exact hb

/-- The key that is locked in a link is the one its node was created with. -/
theorem Holds.key_of_link (h : Holds c birth given w) {uid : NodeUid} {details : LinkDetails}
    (hd : w.server uid = some details) : ∃ b, birth uid = some b ∧ b.key = details.link.key.key := by
  obtain ⟨b, hb, hown⟩ := h.own uid details hd
  exact ⟨b, hb, (fromArmored_eq_ok.mp hown.unlocks).2.symm⟩

theorem resolveParentKey_stays (v : VolumeId) (link : Link) :
    (c.resolveParentKey v link).Keeps (Program.Stays (At c birth given server)) := by
  intro w w' r hrun h
  unfold resolveParentKey at hrun
  dsimp only at hrun
  split at hrun
  · cases hrun
    exact h
  · obtain ⟨⟨puts, key⟩, hwalk, hw⟩ := Option.map_eq_some_iff.mp hrun
    cases hw
    refine h.cache (putFolderKeys_server w v _) ?_
    intro uid key hk
    -- A key that is new in the cache was put there by the walk, which has opened its link.
    rcases putFolderKeys_eq_some hk with hk | ⟨hv, hput⟩
    · exact .inl hk
    · obtain ⟨a, l, hl, hput⟩ := KeyWalk.walk_puts hwalk _ hput
      obtain ⟨details, hd, rfl⟩ := Option.map_eq_some_iff.mp hl
      obtain ⟨huid, rfl⟩ := Prod.mk.inj hput
      have hname : details.link.id = a := h.1.named ⟨v, a⟩ details hd
      have heq : uid = ⟨v, a⟩ := by
        cases uid
        simp_all
      rw [heq]
      exact .inr (h.1.key_of_link hd)

theorem fetchLink_ensures (uid : NodeUid) (e : ProtonError) :
    (fetchLink uid e).Ensures (At c birth given server)
      (fun link => ∃ details, server uid = some details ∧ details.link = link) := by
  refine .of_keeps (fetchLink_keeps uid e) ?_
  intro w w' link h hrun
  obtain ⟨rfl, details, hd, hlink⟩ := fetchLink_eq_ok hrun
  rw [h.2] at hd
  exact ⟨details, hd, hlink⟩

/-- The key of a folder is the one it was created with. -/
theorem folderNodeKey_ensures (uid : NodeUid) :
    (c.folderNodeKey uid).Ensures (At c birth given server)
      (fun key => ∃ b, birth uid = some b ∧ b.key = key) := by
  have hread : (Program.read (fun w => w.folderKeys uid) : Call (Option Key)).Ensures
      (At c birth given server) (fun cached => ∀ key, cached = some key →
        ∃ b, birth uid = some b ∧ b.key = key) :=
    .read (fun w h key hk => h.1.cached uid key hk)
  refine .bind hread (fun cached hcached => ?_)
  cases cached with
  | some key => exact .pure (hcached key rfl)
  | none =>
      refine .bind (fetchLink_ensures uid _) ?_
      rintro link ⟨details, hd, rfl⟩
      have hparent : (c.resolveParentKey uid.volumeId details.link).Ensures (At c birth given server)
          (fun _ => True) := .of_keeps (resolveParentKey_stays _ _) (fun _ _ _ _ _ => trivial)
      refine .bind hparent (fun parentKey _ => ?_)
      refine .bind (.ofExcept (P := fun d => d.nodeKey = details.link.key.key)
        (fun d hd => decryptLink_nodeKey hd)) (fun d hkey => ?_)
      -- From here on the invariant itself says what the key is.
      intro w w' r h hrun
      obtain ⟨b, hb, hbkey⟩ := h.1.key_of_link (by rw [h.2]; exact hd)
      rw [Program.modify_bind] at hrun
      cases hrun
      refine ⟨h.cache rfl ?_, ?_⟩
      · intro u key hk
        simp only [World.putFolderKey, Function.update_apply] at hk
        split at hk
        · next hu =>
          cases hk
          subst hu
          exact .inr ⟨b, hb, hbkey.trans hkey.symm⟩
        · exact .inl hk
      · intro key hk
        cases hk
        exact ⟨b, hb, hbkey.trans hkey.symm⟩

/-- A key and the hash key that comes with it are those of a folder. -/
theorem parentHashKey_ensures {uid : NodeUid} {key : Key}
    (hkey : ∃ b, birth uid = some b ∧ b.key = key) :
    (parentHashKey uid key).Ensures (At c birth given server)
      (fun hashKey => Folder birth server uid key hashKey) := by
  refine .of_keeps (parentHashKey_keeps uid key) ?_
  intro w w' hashKey h hrun
  obtain ⟨rfl, details, message, hd, hm, hdecrypt⟩ := parentHashKey_eq_ok hrun
  rw [h.2] at hd
  exact ⟨hkey, details, message, hd, hm, hdecrypt⟩

/-! ## Moves and copies -/

/-- The fields of a link that a move or a copy replaces. -/
structure Replaced where
  passphrase : Message
  passphraseSignature : Option Signature
  signatureEmail : Option String
  name : Message
  nameHash : NameHash

def MoveParts.replaced (parts : MoveParts) (email : String) : Replaced where
  passphrase := parts.passphrase
  passphraseSignature := parts.anonymousSignature
  signatureEmail := parts.anonymousSignature.map (fun _ => email)
  name := parts.encryptedName
  nameHash := parts.nameHash

def MoveLinkRequest.replaced (request : MoveLinkRequest) : Replaced where
  passphrase := request.passphrase
  passphraseSignature := request.passphraseSignature
  signatureEmail := request.signatureEmail
  name := request.name
  nameHash := request.nameHash

/-- The fields are right for a node in a folder with this key and hash key. -/
structure Fits (c : Context) (b : Birth) (name : Bytes) (key : Key) (hashKey : Bytes)
    (r : Replaced) : Prop where
  decrypt_passphrase : decryptArmoredMessage key r.passphrase = .ok b.passphrase
  decrypt_name : decryptArmoredMessage key r.name = .ok name
  nameHash_eq : r.nameHash = c.hmacName hashKey name
  signed : ∀ s, r.passphraseSignature = some s → ∃ email, r.signatureEmail = some email ∧
    verifyDetached s b.passphrase (c.account.publicKeys email) = .ok
  unsigned : r.passphraseSignature = none → r.signatureEmail = none

section Fits

variable {b : Birth} {name : Bytes} {key : Key} {hashKey : Bytes} {r : Replaced} {link link' : Link}

/-- A new signer brings a signature, and without one the old signer and signature stay. -/
theorem Fits.own (h : Fits c b name key hashKey r) (hown : Own c b link)
    (hkey : link'.key = link.key)
    (hsignature : link'.passphraseSignature = (r.passphraseSignature <|> link.passphraseSignature))
    (hemail : link'.signatureEmail = (r.signatureEmail <|> link.signatureEmail)) :
    Own c b link' := by
  refine ⟨by rw [hkey]; exact hown.unlocks, ?_⟩
  intro email hsome hne
  rw [hsignature]
  rw [hemail] at hsome
  cases hs : r.passphraseSignature with
  | none =>
      rw [h.unsigned hs] at hsome
      exact hown.signed email hsome hne
  | some s =>
      obtain ⟨email', hr, hverify⟩ := h.signed s hs
      rw [hr] at hsome
      cases hsome
      exact ⟨s, rfl, hverify⟩

theorem Fits.placed (h : Fits c b name key hashKey r) (hpassphrase : link.passphrase = r.passphrase)
    (hname : link.name = r.name) (hhash : link.nameHash = some r.nameHash) :
    Placed c b.passphrase name key hashKey link where
  decrypt_passphrase := by rw [hpassphrase]; exact h.decrypt_passphrase
  decrypt_name := by rw [hname]; exact h.decrypt_name
  nameHash_eq := by rw [hhash, h.nameHash_eq]

end Fits

/-- **A node is moved**, and keeps its name. -/
theorem Holds.move (h : Holds c birth given w) {uid : NodeUid} {b : Birth}
    {request : MoveLinkRequest} {key : Key} {hashKey : Bytes} (hb : birth uid = some b)
    (hfolder : Folder birth w.server ⟨uid.volumeId, request.parentLinkId⟩ key hashKey)
    (hfits : Fits c b (given uid) key hashKey (MoveLinkRequest.replaced request)) :
    Holds c birth given (w.updateLink uid (LinkDetails.move request)) := by
  cases hd : w.server uid with
  | none =>
      rw [updateLink_of_none hd]
      exact h
  -- The link keeps its name and its own keys, and gets the parent of the request.
  | some d =>
      obtain ⟨b', hb', hown⟩ := h.own uid d hd
      cases hb.symm.trans hb'
      have hmoved : Holds c birth (Function.update given uid (given uid))
          (w.updateLink uid (LinkDetails.move request)) := by
        refine h.change hd hb rfl rfl (hfits.own hown rfl rfl rfl) ?_
        intro p hp
        cases hp
        exact ⟨key, hashKey, hfolder, hfits.placed rfl rfl rfl⟩
      rw [Function.update_eq_self] at hmoved
      exact hmoved

/-! ## Requests -/

/-- The keys of the address that writes are signed as are those it signs with. -/
def SignsAsItself (c : Context) : Prop :=
  ∀ email key, c.membershipAddress = .ok (email, key) → key ∈ c.account.publicKeys email

theorem folderNodeKey_stays (uid : NodeUid) :
    (c.folderNodeKey uid).Keeps (Program.Stays (At c birth given server)) :=
  (folderNodeKey_ensures uid).keeps

/-- What a look-up of a folder's key and hash key finds is that folder. -/
theorem folder_of_runs {uid : NodeUid} {w' w'' : World} {key : Key} {hashKey : Bytes}
    (h : At c birth given server w) (hkey : (c.folderNodeKey uid).run w = some (w', .ok key))
    (hhash : (parentHashKey uid key).run w' = some (w'', .ok hashKey)) :
    Folder birth server uid key hashKey := by
  obtain ⟨h', hborn⟩ := folderNodeKey_ensures uid _ _ _ h hkey
  exact (parentHashKey_ensures (hborn key rfl) _ _ _ h' hhash).2 hashKey rfl

theorem renameRequest_ensures (uid : NodeUid) (newName : Bytes) (newMediaType : Option String)
    (session : Session) :
    (c.renameRequest uid newName newMediaType session).Ensures (At c birth given server)
      (fun request => ∃ details p key hashKey, server uid = some details ∧
        details.link.parentId = some p ∧ Folder birth server ⟨uid.volumeId, p⟩ key hashKey ∧
        decryptArmoredMessage key request.name = .ok newName ∧
        request.nameHash = c.hmacName hashKey newName) := by
  refine .of_keeps (renameRequest_keeps folderNodeKey_stays _ _ _ _) ?_
  intro w w' request h hrun
  obtain ⟨details, p, key, hashKey, email, signingKey, sent, hd, hp, hkey, hhash, -, -, rfl⟩ :=
    renameRequest_eq_ok hrun
  rw [h.2] at hd
  exact ⟨details, p, key, hashKey, hd, hp, folder_of_runs h hkey hhash,
    decrypt_encryptAndSign .., rfl⟩

/-- The signature of an anonymous node is over its passphrase. -/
theorem signAnonymous_eq_some {parentKey signingKey : Key} {link : Link} {passphrase : Bytes}
    {s : Signature} (h : signAnonymous parentKey link signingKey = .ok (some s))
    (hpassphrase : decryptArmoredMessage parentKey link.passphrase = .ok passphrase) :
    s = signDetached signingKey passphrase := by
  unfold signAnonymous at h
  split at h
  · rw [hpassphrase] at h
    cases h
    rfl
  · cases h

/-- **The parts of a move belong in the destination.** -/
theorem buildMoveParts_ensures {uid : NodeUid} {details : LinkDetails} {email : String}
    {signingKey : Key} (hd : server uid = some details)
    (hsigner : signingKey ∈ c.account.publicKeys email) (targetName : Option Bytes)
    (destKey : Key) (destHashKey : Bytes) (session : Session) :
    (c.buildMoveParts uid details.link targetName destKey destHashKey signingKey session).Ensures
      (At c birth given server)
      (fun parts => ∃ b, birth uid = some b ∧
        Fits c b (targetName.getD (given uid)) destKey destHashKey
          (MoveParts.replaced parts email)) := by
  refine .of_keeps (buildMoveParts_keeps folderNodeKey_stays _ _ _ _ _ _ _) ?_
  intro w w' parts h hrun
  obtain ⟨p, key, hashKey, hp, hkey, hhash, hname, -, hwrap, hsign, hencrypted, hnameHash⟩ :=
    buildMoveParts_eq_ok hrun
  -- The folder that was looked up and the one the node is placed in are the same.
  have hfolder := folder_of_runs h hkey hhash
  obtain ⟨b, key', hashKey', hb, hfolder', hplaced⟩ :=
    h.1.placed uid details p (by rw [h.2]; exact hd) hp
  rw [h.2] at hfolder'
  obtain ⟨rfl, rfl⟩ := hfolder.unique hfolder'
  have hcurrent : parts.currentName = given uid :=
    Except.ok.inj (hname.symm.trans hplaced.decrypt_name)
  rw [hcurrent] at hencrypted hnameHash
  refine ⟨b, hb, ?_, ?_, hnameHash, ?_, ?_⟩
  · exact decrypt_rewrap hwrap hplaced.decrypt_passphrase
  · show decryptArmoredMessage destKey parts.encryptedName = _
    rw [hencrypted]
    exact decrypt_encryptAndSign ..
  · intro s hs
    have hs : parts.anonymousSignature = some s := hs
    rw [hs] at hsign
    refine ⟨email, by simp [MoveParts.replaced, hs], ?_⟩
    rw [signAnonymous_eq_some hsign hplaced.decrypt_passphrase]
    exact verify_signDetached signingKey hsigner b.passphrase
  · intro hs
    have hs : parts.anonymousSignature = none := hs
    simp [MoveParts.replaced, hs]

theorem moveRequest_ensures (hsigner : c.SignsAsItself) (uid newParent : NodeUid)
    (session : Session) :
    (c.moveRequest uid newParent session).Ensures (At c birth given server)
      (fun request => ∃ b key hashKey, birth uid = some b ∧
        Folder birth server ⟨uid.volumeId, request.parentLinkId⟩ key hashKey ∧
        Fits c b (given uid) key hashKey (MoveLinkRequest.replaced request)) := by
  refine .of_keeps (moveRequest_keeps folderNodeKey_stays _ _ _) ?_
  intro w w' request h hrun
  obtain ⟨details, key, hashKey, email, signingKey, parts, t, hv, hd, hkey, hhash, haddress, hparts,
    rfl⟩ := moveRequest_eq_ok hrun
  have hfolder := folder_of_runs h hkey hhash
  have ht := (folderNodeKey_ensures newParent _ _ _ h hkey).1
  rw [h.2] at hd
  obtain ⟨b, hb, hfits⟩ := (buildMoveParts_ensures hd (hsigner _ _ haddress) none key hashKey session
    _ _ _ ht hparts).2 parts rfl
  refine ⟨b, key, hashKey, hb, ?_, hfits⟩
  show Folder birth server ⟨uid.volumeId, newParent.linkId⟩ key hashKey
  rw [hv]
  exact hfolder

end Context

end ProtonDrive
