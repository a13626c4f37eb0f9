import ProtonDrive.Drive.OwnWrites

/-!
# The key tree under own writes

* `Safe` — a step keeps the key tree, and every node keeps the key it was created with.
* `send_safe` — a call is safe if what the server does with its request is.
* `moveNodes_stays` — a bulk move is, whatever lands and whatever is answered.
* `keyTree_run` — every run of calls is.
-/

namespace ProtonDrive

open OpenPgp

namespace Context

/-! ## The invariant -/

variable {c : Context}

/-- **The key tree.** Every node's passphrase decrypts under its parent's node key to the one the
node was created with, which unlocks the key it was created with; its name decrypts under the same
key to the name it was last given, and its hash is that of the name under the parent's hash key; its
passphrase is signed by the address that is named as its signer. The keys that the client has cached
are the nodes' own. -/
def KeyTree (c : Context) (t : Tree) : Prop := Holds c t.birth t.given t.world

/-- A step that keeps the key tree and every birth. -/
def Safe (c : Context) (t t' : Tree) : Prop :=
  KeyTree c t → KeyTree c t' ∧ ∀ uid b, t.birth uid = some b → t'.birth uid = some b

instance : Std.Refl (Safe c) := ⟨fun _ h => ⟨h, fun _ _ hb => hb⟩⟩

/-- One safe change after the other. -/
theorem Safe.trans {t t' t'' : Tree} (h : Safe c t t') (h' : Safe c t' t'') : Safe c t t'' := by
  intro ht
  obtain ⟨hmid, hbirth⟩ := h ht
  obtain ⟨hend, hbirth'⟩ := h' hmid
  exact ⟨hend, fun uid b hb => hbirth' uid b (hbirth uid b hb)⟩

/-! ## What the server does -/

/-- A node that has been there is not touched by a new one. -/
theorem add_of_born {t : Tree} {u : NodeUid} {b' : Birth} (hb' : t.birth u = some b') (uid : NodeUid)
    (details : LinkDetails) (b : Birth) (name : Bytes) :
    (t.add uid details b name).birth u = some b' ∧
      (t.add uid details b name).world.server u = t.world.server u := by
  unfold Tree.add
  split
  · exact ⟨hb', rfl⟩
  · next hfresh =>
    have hne : u ≠ uid := by
      intro heq
      rw [← heq, hb'] at hfresh
      exact hfresh rfl
    exact ⟨(Function.update_of_ne hne ..).trans hb', setLink_of_ne t.world hne _⟩

/-- A new node in its place. -/
theorem Safe.add {t : Tree} {uid : NodeUid} {details : LinkDetails} {b : Birth} {name : Bytes}
    (hid : details.link.id = uid.linkId) (hown : Own c b details.link)
    (hplaced : ∀ p, details.link.parentId = some p →
      ∃ key hashKey, Folder t.birth t.world.server ⟨uid.volumeId, p⟩ key hashKey ∧
        Placed c b.passphrase name key hashKey details.link) :
    Safe c t (t.add uid details b name) := by
  intro h
  refine ⟨?_, fun u b' hb' => (add_of_born hb' uid details b name).1⟩
  unfold Tree.add
  split
  · -- A uid that is taken already is not used again.
    exact h
  · next hfresh =>
    have hnone : t.birth uid = none := by simpa using hfresh
    refine Holds.put h hid ?_ ?_ hown hplaced
    · intro b' hb'
      rw [hnone] at hb'
      cases hb'
    · intro old message hold _
      obtain ⟨b', hb', -⟩ := h.own uid old hold
      rw [hnone] at hb'
      cases hb'

/-- A change that leaves the link itself alone is safe. -/
theorem Safe.updateDetails (t : Tree) (uid : NodeUid) {f : LinkDetails → LinkDetails}
    (hf : ∀ d, (f d).link = d.link) : Safe c t (t.updateLink uid f) :=
  fun h => ⟨Holds.updateDetails h uid hf, fun _ _ hb => hb⟩

/-- A draft goes, and no folder does. -/
theorem deleteDraft_eq (t : Tree) (uid : NodeUid) :
    t.deleteDraft uid = t ∨
      (∀ details, t.world.server uid = some details → details.link.hashKey = none) ∧
        t.deleteDraft uid = { t with world := t.world.setLink uid none } := by
  unfold Tree.deleteDraft
  split
  · next details hd =>
    split
    · next hnone =>
      refine .inr ⟨?_, rfl⟩
      intro details' hd'
      cases hd.symm.trans hd'
      simpa using hnone
    · exact .inl rfl
  · exact .inl rfl

/-- Deleting a draft is safe. -/
theorem Safe.deleteDraft (t : Tree) (uid : NodeUid) : Safe c t (t.deleteDraft uid) := by
  intro h
  rcases deleteDraft_eq t uid with hsame | ⟨hfile, hgone⟩
  · rw [hsame]
    exact ⟨h, fun _ _ hb => hb⟩
  · rw [hgone]
    exact ⟨Holds.remove h hfile, fun _ _ hb => hb⟩

/-- A folder stays one when a node is added. -/
theorem Folder.add {t : Tree} {uid u : NodeUid} {details : LinkDetails} {b : Birth} {name : Bytes}
    {key : Key} {hashKey : Bytes} (h : Folder t.birth t.world.server uid key hashKey) :
    Folder (t.add u details b name).birth (t.add u details b name).world.server uid key hashKey := by
  obtain ⟨b', hb', -⟩ := h.1
  have hkept := add_of_born hb' u details b name
  refine h.mono ?_ ?_
  · intro b'' hb''
    cases hb'.symm.trans hb''
    exact hkept.1
  · intro d message hd hm
    exact ⟨d, hkept.2.trans hd, hm⟩

/-- A folder stays when a draft is deleted. -/
theorem Folder.deleteDraft {t : Tree} {uid u : NodeUid} {key : Key} {hashKey : Bytes}
    (h : Folder t.birth t.world.server uid key hashKey) :
    Folder (t.deleteDraft u).birth (t.deleteDraft u).world.server uid key hashKey := by
  rcases deleteDraft_eq t u with hsame | ⟨hfile, hgone⟩
  · rw [hsame]
    exact h
  · rw [hgone]
    refine h.mono (fun _ hb => hb) ?_
    intro d message hd hm
    have hne : uid ≠ u := by
      intro heq
      rw [heq] at hd
      rw [hfile d hd] at hm
      cases hm
    refine ⟨d, ?_, hm⟩
    rw [setLink_of_ne t.world hne]
    exact hd

/-! ## Requests -/

section Send

variable {ρ α : Type}
  {Q : (NodeUid → Option Birth) → (NodeUid → Bytes) → (NodeUid → Option LinkDetails) → ρ → Prop}

/-- Building a request is safe, and says of it what the layer below ensures. -/
theorem onWorld_run {x : Call ρ}
    (hx : ∀ birth given server, x.Ensures (At c birth given server) (Q birth given server))
    {t t' : Tree} {r : Except ProtonError ρ} (hrun : (onWorld x).run t = some (t', r))
    (h : KeyTree c t) :
    KeyTree c t' ∧ t'.birth = t.birth ∧
      ∀ request, r = .ok request → Q t'.birth t'.given t'.world.server request := by
  obtain ⟨⟨w', r'⟩, hw, heq⟩ := Option.map_eq_some_iff.mp hrun
  cases heq
  obtain ⟨⟨hholds, hserver⟩, hq⟩ := hx t.birth t.given t.world.server _ _ _ ⟨h, rfl⟩ hw
  refine ⟨hholds, rfl, ?_⟩
  intro request hr
  show Q t.birth t.given w'.server request
  rw [hserver]
  exact hq request hr

/-- A call is safe if what the server does with its request is. -/
theorem send_safe {x : Call ρ} {effect : ρ → Tree → Tree} (result : Except ProtonError α)
    (hx : ∀ birth given server, x.Ensures (At c birth given server) (Q birth given server))
    (heffect : ∀ request t, Q t.birth t.given t.world.server request → KeyTree c t →
      Safe c t (effect request t)) :
    (send x effect result).Keeps (Safe c) := by
  intro t t' r hrun h
  rcases Program.bind_eq_some.mp hrun with ⟨e, herror, -⟩ | ⟨s, request, hrequest, hrest⟩
  · obtain ⟨htree, hbirth, -⟩ := onWorld_run hx herror h
    exact ⟨htree, fun uid b hb => by rw [hbirth]; exact hb⟩
  · obtain ⟨htree, hbirth, hq⟩ := onWorld_run hx hrequest h
    rw [Program.modify_bind] at hrest
    obtain ⟨rfl, -⟩ := Program.ofExcept_eq_some.mp hrest
    obtain ⟨htree', hbirth'⟩ := heffect request s (hq request rfl) htree htree
    exact ⟨htree', fun uid b hb => hbirth' uid b (by rw [hbirth]; exact hb)⟩

end Send

/-! ## Single writes -/

/-- A link that has been built for a folder. -/
def BuiltFor (c : Context) (birth : NodeUid → Option Birth) (server : NodeUid → Option LinkDetails)
    (parentUid : NodeUid) (node : GeneratedNodeKey) (name : Bytes) (details : Stamp → LinkDetails) :
    Prop :=
  ∃ key hashKey, Folder birth server parentUid key hashKey ∧
    ∀ stamp, (details stamp).link.id = stamp.linkId ∧
      (details stamp).link.parentId = some parentUid.linkId ∧
      Own c ⟨node.passphrase, node.key⟩ (details stamp).link ∧
      Placed c node.passphrase name key hashKey (details stamp).link

/-- Storing what was built for the parent is safe. -/
theorem Safe.store {t : Tree} {parentUid : NodeUid} {node : GeneratedNodeKey} {name : Bytes}
    {details : Stamp → LinkDetails} (stored : Option Stamp)
    (h : BuiltFor c t.birth t.world.server parentUid node name details) :
    Safe c t (t.store parentUid.volumeId stored details node name) := by
  obtain ⟨key, hashKey, hfolder, hbuilt⟩ := h
  cases stored with
  | none => exact Std.Refl.refl t
  | some stamp =>
      obtain ⟨hid, hparent, hown, hplaced⟩ := hbuilt stamp
      refine Safe.add hid hown ?_
      intro p hp
      cases hparent.symm.trans hp
      exact ⟨key, hashKey, hfolder, hplaced⟩

/-- What a new node is made of is right for its parent. -/
theorem folderCreationRequest_ensures (hsigner : c.SignsAsItself) (parentUid : NodeUid)
    (name : Bytes) (attributes : Option Bytes) (secrets : FolderSecrets)
    (birth : NodeUid → Option Birth) (given : NodeUid → Bytes)
    (server : NodeUid → Option LinkDetails) :
    (c.folderCreationRequest parentUid name attributes secrets).Ensures (At c birth given server)
      (fun request => BuiltFor c birth server parentUid secrets.node name request.details) := by
  refine .bind (.ofExcept (P := fun _ => True) (fun _ _ => trivial)) (fun _ _ => ?_)
  refine .bind (folderNodeKey_ensures parentUid) (fun key hkey => ?_)
  refine .bind (parentHashKey_ensures hkey) (fun hashKey hfolder => ?_)
  refine .bind (.ofExcept (fun address haddress => hsigner address.1 address.2 haddress)) ?_
  intro address hsigned
  refine .pure ⟨key, hashKey, hfolder, ?_⟩
  intro stamp
  refine ⟨rfl, rfl, ⟨secrets.node.unlocks, ?_⟩, decrypt_encrypt .., decrypt_encryptAndSign .., rfl⟩
  intro email hemail _
  cases hemail
  exact ⟨_, rfl, verify_signDetached address.2 hsigned _⟩

/-- The request for a draft is built for its parent. -/
theorem fileCreationRequest_ensures (hsigner : c.SignsAsItself) (spec : FileDraftSpec)
    (secrets : FileSecrets) (birth : NodeUid → Option Birth) (given : NodeUid → Bytes)
    (server : NodeUid → Option LinkDetails) :
    (c.fileCreationRequest spec secrets).Ensures (At c birth given server)
      (fun request => BuiltFor c birth server spec.parentUid secrets.node spec.name
        request.details) := by
  refine .bind (folderNodeKey_ensures spec.parentUid) (fun key hkey => ?_)
  refine .bind (parentHashKey_ensures hkey) (fun hashKey hfolder => ?_)
  refine .bind (.ofExcept (fun address haddress => hsigner address.1 address.2 haddress)) ?_
  intro address hsigned
  refine .pure ⟨key, hashKey, hfolder, ?_⟩
  intro stamp
  refine ⟨rfl, rfl, ⟨secrets.node.unlocks, ?_⟩, decrypt_encrypt .., decrypt_encryptAndSign .., rfl⟩
  intro email hemail _
  cases hemail
  exact ⟨_, rfl, verify_signDetached address.2 hsigned _⟩

/-- Creating a folder is safe, whatever the server answers. -/
theorem createFolder_safe (hsigner : c.SignsAsItself) (parentUid : NodeUid) (name : Bytes)
    (attributes : Option Bytes) (secrets : FolderSecrets) (reply : CreationReply) :
    (c.createFolder parentUid name attributes secrets reply).Keeps (Safe c) :=
  send_safe _ (folderCreationRequest_ensures hsigner parentUid name attributes secrets)
    (fun _ _ hbuilt _ => Safe.store reply.stored hbuilt)

/-- A rename is safe, whatever the server answers. -/
theorem renameNode_safe (uid : NodeUid) (newName : Bytes) (newMediaType : Option String)
    (session : Session) (reply : Reply) :
    (c.renameNode uid newName newMediaType session reply).Keeps (Safe c) := by
  refine send_safe _ (fun _ _ _ => renameRequest_ensures uid newName newMediaType session) ?_
  intro request t hrequest h
  split
  · refine fun _ => ⟨?_, fun _ _ hb => hb⟩
    obtain ⟨d, p, key, hashKey, hd, hp, hfolder, hname, hhash⟩ := hrequest
    obtain ⟨b, key', hashKey', hb, hfolder', hplaced⟩ := h.placed uid d p hd hp
    obtain ⟨b', hb', hown⟩ := h.own uid d hd
    cases hb.symm.trans hb'
    obtain ⟨rfl, rfl⟩ := hfolder.unique hfolder'
    refine Holds.change h hd hb rfl rfl ⟨hown.unlocks, hown.signed⟩ ?_
    intro p' hp'
    cases hp.symm.trans hp'
    exact ⟨key, hashKey, hfolder, hplaced.decrypt_passphrase, hname, congrArg some hhash⟩
  · exact Std.Refl.refl t

/-- A move is safe, whatever the server answers. -/
theorem moveNode_safe (hsigner : c.SignsAsItself) (uid newParent : NodeUid) (session : Session)
    (reply : Reply) : (c.moveNode uid newParent session reply).Keeps (Safe c) := by
  refine send_safe _ (fun _ _ _ => moveRequest_ensures hsigner uid newParent session) ?_
  intro request t hrequest h
  split
  · refine fun _ => ⟨?_, fun _ _ hb => hb⟩
    obtain ⟨b, key, hashKey, hb, hfolder, hfits⟩ := hrequest
    exact Holds.move h hb hfolder hfits
  · exact Std.Refl.refl t

/-! ## Uploads -/

/-- The attempts at a draft never put a node out of its place. -/
theorem createFileDraft_ensures {t₀ : Tree} {spec : FileDraftSpec} {secrets : FileSecrets}
    {request : FileCreationRequest} (attempts : Nat) (replies : List DraftReply) :
    (createFileDraft spec secrets request attempts replies).Ensures
      (fun t => KeyTree c t ∧
        BuiltFor c t.birth t.world.server spec.parentUid secrets.node spec.name request.details ∧
        ∀ uid b, t₀.birth uid = some b → t.birth uid = some b)
      (fun _ => True) := by
  -- By induction on the attempts: the request stays built for its parent while drafts come and go.
  induction attempts generalizing replies with
  | zero => exact .ofExcept (fun _ _ => trivial)
  | succ attempts ih =>
      cases replies with
      | nil =>
          intro t t' r _ hrun
          cases hrun
      | cons reply replies =>
          refine .bind (.modify ?_) (fun _ _ => ?_)
          · rintro t ⟨h, hbuilt, hgrown⟩
            obtain ⟨h', hbirth⟩ := Safe.store reply.stored hbuilt h
            refine ⟨h', ?_, fun uid b hb => hbirth uid b (hgrown uid b hb)⟩
            obtain ⟨key, hashKey, hfolder, hlinks⟩ := hbuilt
            refine ⟨key, hashKey, ?_, hlinks⟩
            -- The draft lies below the folder, whose keys it leaves.
            cases reply.stored with
            | none => exact hfolder
            | some stamp => exact hfolder.add
          · cases reply.result with
            | ok link => exact .pure trivial
            | error e =>
                cases e with
                | api e =>
                    dsimp only
                    split
                    · next link _ =>
                      refine .bind (.modify ?_) (fun _ _ => ?_)
                      · -- The draft that holds the name is deleted before the next attempt.
                        rintro t ⟨h, hbuilt, hgrown⟩
                        split
                        · obtain ⟨h', hbirth⟩ := Safe.deleteDraft t ⟨_, link⟩ h
                          refine ⟨h', ?_, fun uid b hb => hbirth uid b (hgrown uid b hb)⟩
                          obtain ⟨key, hashKey, hfolder, hlinks⟩ := hbuilt
                          exact ⟨key, hashKey, hfolder.deleteDraft, hlinks⟩
                        · exact ⟨h, hbuilt, hgrown⟩
                      · refine .bind (.ofExcept (P := fun _ => True) (fun _ _ => trivial)) ?_
                        exact fun _ _ => ih replies
                    · exact .ofExcept (fun _ _ => trivial)
                | transport e => exact .ofExcept (fun _ _ => trivial)
                | serialization text => exact .ofExcept (fun _ _ => trivial)
                | crypto text => exact .ofExcept (fun _ _ => trivial)
                | keysLocked => exact .ofExcept (fun _ _ => trivial)
                | invalidOperation text => exact .ofExcept (fun _ _ => trivial)

/-- An upload is safe, whatever the server answers. -/
theorem uploadFileFrom_safe (hsigner : c.SignsAsItself) (spec : FileDraftSpec)
    (secrets : FileSecrets) (replies : List DraftReply) (sealing : SealReply) :
    (c.uploadFileFrom spec secrets replies sealing).Keeps (Safe c) := by
  intro t t' r hrun h
  rcases Program.bind_eq_some.mp hrun with ⟨e, herror, -⟩ | ⟨s, request, hrequest, hrest⟩
  · obtain ⟨htree, hbirth, -⟩ :=
      onWorld_run (fileCreationRequest_ensures hsigner spec secrets) herror h
    exact ⟨htree, fun uid b hb => by rw [hbirth]; exact hb⟩
  · obtain ⟨htree, hbirth, hq⟩ :=
      onWorld_run (fileCreationRequest_ensures hsigner spec secrets) hrequest h
    have hstart : ∀ uid b, t.birth uid = some b → s.birth uid = some b :=
      fun uid b hb => by rw [hbirth]; exact hb
    have hinv := (⟨htree, hq request rfl, hstart⟩ : KeyTree c s ∧
      BuiltFor c s.birth s.world.server spec.parentUid secrets.node spec.name request.details ∧
      ∀ uid b, t.birth uid = some b → s.birth uid = some b)
    -- No draft was made, or one was made and is sealed.
    rcases Program.bind_eq_some.mp hrest with ⟨e, herror, -⟩ | ⟨s', link, hlink, hseal⟩
    · obtain ⟨⟨htree', -, hgrown⟩, -⟩ := createFileDraft_ensures _ _ _ _ _ hinv herror
      exact ⟨htree', hgrown⟩
    · obtain ⟨⟨htree', -, hgrown⟩, -⟩ := createFileDraft_ensures _ _ _ _ _ hinv hlink
      rw [Program.modify_bind] at hseal
      obtain ⟨rfl, -⟩ := Program.ofExcept_eq_some.mp hseal
      cases sealing.stored with
      | none => exact ⟨htree', hgrown⟩
      | some stored =>
          obtain ⟨revision, size⟩ := stored
          obtain ⟨htree'', hbirth'⟩ := Safe.updateDetails s' ⟨spec.parentUid.volumeId, link⟩
            (f := LinkDetails.seal revision size) (fun _ => rfl) htree'
          exact ⟨htree'', fun uid b hb => hbirth' uid b (hgrown uid b hb)⟩

/-! ## Copies -/

def CopyLinkRequest.replaced (request : CopyLinkRequest) : Replaced where
  passphrase := request.passphrase
  passphraseSignature := request.passphraseSignature
  signatureEmail := request.signatureEmail
  name := request.name
  nameHash := request.nameHash

/-- The request for a copy is built for its new parent. -/
theorem copyRequest_ensures (hsigner : c.SignsAsItself) (uid newParent : NodeUid)
    (name : Option Bytes) (session : Session) (birth : NodeUid → Option Birth)
    (given : NodeUid → Bytes) (server : NodeUid → Option LinkDetails) :
    (c.copyRequest uid newParent name session).Ensures (At c birth given server)
      (fun request => ∃ b key hashKey, birth uid = some b ∧
        Folder birth server ⟨request.targetVolumeId, request.targetParentLinkId⟩ key hashKey ∧
        Fits c b (name.getD (given uid)) key hashKey (CopyLinkRequest.replaced request)) := by
  refine .bind (.ofExcept (P := fun _ => True) (fun _ _ => trivial)) (fun _ _ => ?_)
  refine .bind (fetchLink_ensures uid _) ?_
  rintro link ⟨details, hd, rfl⟩
  refine .bind (folderNodeKey_ensures newParent) (fun key hkey => ?_)
  refine .bind (parentHashKey_ensures hkey) (fun hashKey hfolder => ?_)
  refine .bind (.ofExcept (fun address haddress => hsigner address.1 address.2 haddress)) ?_
  intro address hsigned
  refine .bind (buildMoveParts_ensures hd hsigned name key hashKey session) ?_
  rintro parts ⟨b, hb, hfits⟩
  exact .pure ⟨b, key, hashKey, hb, hfolder, hfits⟩

/-- `y` is a copy of `x`, with its keys. -/
def Copied (t : Tree) (x y : NodeUid) : Prop :=
  ∃ b dx dy, t.birth x = some b ∧ t.birth y = some b ∧ t.world.server x = some dx ∧
    t.world.server y = some dy ∧ dy.link.hashKey = dx.link.hashKey

/-- The copy of a folder has the same keys. -/
theorem Copied.folder {t : Tree} {x y : NodeUid} {key : Key} {hashKey : Bytes} (h : Copied t x y)
    (hfolder : Folder t.birth t.world.server x key hashKey) :
    Folder t.birth t.world.server y key hashKey := by
  obtain ⟨b, dx, dy, hbx, hby, hdx, hdy, hhash⟩ := h
  obtain ⟨⟨b', hb', hkey⟩, d, message, hd, hm, hdecrypt⟩ := hfolder
  cases hbx.symm.trans hb'
  cases hdx.symm.trans hd
  exact ⟨⟨b, hby, hkey⟩, dy, message, hdy, hhash.trans hm, hdecrypt⟩

/-- One more copy leaves the others. -/
theorem Copied.add {t : Tree} {x y : NodeUid} (h : Copied t x y) (uid : NodeUid)
    (details : LinkDetails) (b : Birth) (name : Bytes) :
    Copied (t.add uid details b name) x y := by
  obtain ⟨b', dx, dy, hbx, hby, hdx, hdy, hhash⟩ := h
  have hx := add_of_born hbx uid details b name
  have hy := add_of_born hby uid details b name
  exact ⟨b', dx, dy, hx.1, hy.1, hx.2.trans hdx, hy.2.trans hdy, hhash⟩

/-- A new copy is one. -/
theorem Copied.of_add {t : Tree} {x y : NodeUid} {b : Birth} {d details : LinkDetails} {name : Bytes}
    (hb : t.birth x = some b) (hd : t.world.server x = some d) (hfresh : ¬ (t.birth y).isSome = true)
    (hhash : details.link.hashKey = d.link.hashKey) : Copied (t.add y details b name) x y := by
  have hx := add_of_born hb y details b name
  refine ⟨b, d, details, hx.1, ?_, hx.2.trans hd, ?_, hhash⟩
  · unfold Tree.add
    rw [if_neg hfresh]
    exact Function.update_self ..
  · unfold Tree.add
    rw [if_neg hfresh]
    exact setLink_self ..

/-- Copying what lies below is safe, by induction on the links that are copied. -/
theorem copyBelow_safe (source target : VolumeId) (copies made : List (LinkId × LinkId)) (t : Tree)
    (hmade : ∀ p parent, made.lookup p = some parent →
      Copied t ⟨source, p⟩ ⟨target, parent⟩) :
    Safe c t (Tree.copyBelow source target copies made t) := by
  induction copies generalizing made t with
  | nil => exact Std.Refl.refl t
  | cons pair copies ih =>
      obtain ⟨a, copy⟩ := pair
      unfold Tree.copyBelow
      split
      · next d b hd hb =>
        split
        · next parent hparent =>
          obtain ⟨p, hp, hlookup⟩ := Option.bind_eq_some_iff.mp hparent
          split
          · exact ih made t hmade
          · next hfresh =>
            intro h
            obtain ⟨b', hb', hown⟩ := h.own ⟨source, a⟩ d hd
            cases hb.symm.trans hb'
            obtain ⟨b', key, hashKey, hb', hfolder, hplaced⟩ := h.placed ⟨source, a⟩ d p hd hp
            cases hb.symm.trans hb'
            -- The copy is below the copy of the parent as the node is below the parent.
            have hadd : Safe c t (t.add ⟨target, copy⟩ (d.copyBelow copy parent) b
                (t.given ⟨source, a⟩)) := by
              refine Safe.add rfl ⟨hown.unlocks, hown.signed⟩ ?_
              intro p' hp'
              cases hp'
              exact ⟨key, hashKey, (hmade p parent hlookup).folder hfolder,
                hplaced.decrypt_passphrase, hplaced.decrypt_name, hplaced.nameHash_eq⟩
            refine hadd.trans (ih _ _ ?_) h
            intro p' parent' hlookup'
            rw [List.lookup_cons] at hlookup'
            split at hlookup'
            · next heq =>
              cases hlookup'
              rw [beq_iff_eq.mp heq]
              exact .of_add hb hd hfresh rfl
            · exact (hmade p' parent' hlookup').add _ _ _ _
        · exact ih made t hmade
      · exact ih made t hmade

/-- A copy is safe, whatever the server answers. -/
theorem copyNode_safe (hsigner : c.SignsAsItself) (uid newParent : NodeUid) (name : Option Bytes)
    (session : Session) (reply : CopyReply) :
    (c.copyNode uid newParent name session reply).Keeps (Safe c) := by
  refine send_safe _ (copyRequest_ensures hsigner uid newParent name session) ?_
  intro request t hrequest h
  obtain ⟨b, key, hashKey, hb, hfolder, hfits⟩ := hrequest
  split
  · -- The copy of the node is stored first, and then what lies below it.
    next copy copies _ =>
    unfold Tree.copy
    split
    · next d b' hd hb' =>
      cases hb.symm.trans hb'
      split
      · -- The new uid is taken, which the server does not do.
        exact Std.Refl.refl t
      · next hfresh =>
        obtain ⟨b', hb', hown⟩ := h.own uid d hd
        cases hb.symm.trans hb'
        have hadd : Safe c t (t.add ⟨request.targetVolumeId, copy⟩ (d.copyTo request copy) b
            (name.getD (t.given uid))) := by
          refine Safe.add rfl (hfits.own hown rfl rfl rfl) ?_
          intro p hp
          cases hp
          exact ⟨key, hashKey, hfolder, hfits.placed rfl rfl rfl⟩
        refine hadd.trans (copyBelow_safe _ _ _ _ _ ?_)
        intro p parent hlookup
        rw [List.lookup_cons] at hlookup
        split at hlookup
        · next heq =>
          cases hlookup
          rw [beq_iff_eq.mp heq]
          exact .of_add hb hd hfresh rfl
        · cases hlookup
    · exact Std.Refl.refl t
  · exact Std.Refl.refl t

/-! ## Bulk moves -/

/-- What goes on after screening was asked for, in the volume of the parent. -/
theorem screenMoves_mem (parent : NodeUid) (seen : List LinkId) (items : List NodeMoveItem) :
    ∀ item ∈ (screenMoves parent seen items).2,
      item ∈ items ∧ item.uid.volumeId = parent.volumeId := by
  induction items generalizing seen with
  | nil =>
      intro item hitem
      cases hitem
  | cons first items ih =>
      intro item hitem
      unfold screenMoves at hitem
      split at hitem
      · obtain ⟨hmem, hv⟩ := ih seen item hitem
        exact ⟨List.mem_cons_of_mem _ hmem, hv⟩
      · next hnone =>
        -- What is not rejected lies in the volume of the parent.
        rcases List.mem_cons.mp hitem with rfl | hitem
        · refine ⟨List.mem_cons_self, ?_⟩
          unfold rejectMove at hnone
          split at hnone
          · cases hnone
          · next hv => exact not_not.mp hv
        · obtain ⟨hmem, hv⟩ := ih _ item hitem
          exact ⟨List.mem_cons_of_mem _ hmem, hv⟩

variable {birth : NodeUid → Option Birth} {given : NodeUid → Bytes}
  {server : NodeUid → Option LinkDetails}

/-- Links are found under their ids. -/
theorem fetchLinks_ensures (hnamed : WellNamed server) (v : VolumeId) (linkIds : List LinkId) :
    (fetchLinks v linkIds).Ensures (At c birth given server)
      (fun links => ∀ a link, links a = some link →
        ∃ details, server ⟨v, a⟩ = some details ∧ details.link = link) := by
  have hget : ∀ ids, (getLinkDetails v ids).Ensures (At c birth given server)
      (fun details => ∀ d ∈ details, ∃ a, server ⟨v, a⟩ = some d) := by
    intro ids
    refine .read ?_
    intro w hw d hd
    obtain ⟨a, -, ha⟩ := List.mem_filterMap.mp hd
    rw [hw.2] at ha
    exact ⟨a, ha⟩
  refine .bind (.traverse hget _) (fun details hdetails => .pure ?_)
  -- The last link with the id is used, and all with it come from the same place.
  intro a link hlink
  have hmem : link ∈ details.flatten.map LinkDetails.link :=
    List.mem_reverse.mp (List.mem_of_find?_eq_some hlink)
  have hid : link.id = a := by simpa using List.find?_some hlink
  obtain ⟨d, hd, rfl⟩ := List.mem_map.mp hmem
  obtain ⟨ds, hds, hd⟩ := List.mem_flatten.mp hd
  obtain ⟨a', ha'⟩ := hdetails ds hds d hd
  have hsame : d.link.id = a' := hnamed ⟨v, a'⟩ d ha'
  rw [hid] at hsame
  rw [hsame]
  exact ⟨d, ha', rfl⟩

/-- A prepared move that belongs in the destination. -/
def Ready (c : Context) (birth : NodeUid → Option Birth) (given : NodeUid → Bytes) (parent : NodeUid)
    (email : String) (key : Key) (hashKey : Bytes) (p : PreparedMove) : Prop :=
  p.uid.volumeId = parent.volumeId ∧ p.item.linkId = p.uid.linkId ∧
    ∃ b, birth p.uid = some b ∧
      Fits c b (given p.uid) key hashKey
        (MoveLinkRequest.replaced (PreparedMove.request p parent email))

/-- Every move that is prepared is built for the new parent. -/
theorem prepareEach_ensures {links : LinkId → Option Link} {target : MoveTarget}
    {sessions : NodeUid → Session} {parent : NodeUid} {email : String}
    (hsigned : target.signingKey ∈ c.account.publicKeys email) {items : List NodeMoveItem}
    (hitems : ∀ item ∈ items, item.targetName = none ∧ item.uid.volumeId = parent.volumeId)
    (hlinks : ∀ a link, links a = some link →
      ∃ details, server ⟨parent.volumeId, a⟩ = some details ∧ details.link = link)
    {run : MoveRun}
    (hrun : Carries parent email (Ready c birth given parent email target.key target.hashKey) run) :
    (c.prepareEach links target sessions items run).Ensures (At c birth given server)
      (Carries parent email (Ready c birth given parent email target.key target.hashKey)) := by
  induction items generalizing run with
  | nil => exact .pure hrun
  | cons item items ih =>
      obtain ⟨htarget, hv⟩ := hitems item List.mem_cons_self
      have hrest : ∀ i ∈ items, i.targetName = none ∧ i.uid.volumeId = parent.volumeId :=
        fun i hi => hitems i (List.mem_cons_of_mem _ hi)
      unfold prepareEach
      split
      · -- An item without a link, or whose parts fail, is reported and not queued.
        exact ih hrest (hrun.report _)
      · next link hlink =>
        obtain ⟨details, hd, rfl⟩ := hlinks _ _ hlink
        have huid : (⟨parent.volumeId, item.uid.linkId⟩ : NodeUid) = item.uid := by rw [← hv]
        rw [huid] at hd
        refine .bind (.attempt (buildMoveParts_ensures hd hsigned item.targetName target.key
          target.hashKey (sessions item.uid))) (fun parts hparts => ?_)
        cases parts with
        | error e => exact ih hrest (hrun.report _)
        | ok parts =>
            obtain ⟨b, hb, hfits⟩ := hparts parts rfl
            rw [htarget] at hfits
            exact ih hrest (hrun.push ⟨hv, rfl, b, hb, hfits⟩)

/-- Either there is nothing to send, or everything to be sent belongs where it is sent to. -/
theorem prepareMoves_ensures (hsigner : c.SignsAsItself) (hnamed : WellNamed server)
    {items : List NodeMoveItem} (hitems : ∀ item ∈ items, item.targetName = none) (parent : NodeUid)
    (sessions : NodeUid → Session) :
    (c.prepareMoves items parent sessions).Ensures (At c birth given server)
      (fun run => run.queue = [] ∨ ∃ email key hashKey, Folder birth server parent key hashKey ∧
        Carries parent email (Ready c birth given parent email key hashKey) run) := by
  unfold prepareMoves
  dsimp only
  split
  · -- Nothing is left after screening.
    exact .pure (.inl rfl)
  · -- The parent's keys and the own address are read once for all moves.
    refine .bind (folderNodeKey_ensures parent) (fun key hkey => ?_)
    refine .bind (parentHashKey_ensures hkey) (fun hashKey hfolder => ?_)
    refine .bind (.ofExcept (fun address haddress => hsigner address.1 address.2 haddress)) ?_
    intro address hsigned
    refine .bind (fetchLinks_ensures hnamed _ _) (fun links hlinks => ?_)
    have hscreened : ∀ item ∈ (screenMoves parent [] items).2,
        item.targetName = none ∧ item.uid.volumeId = parent.volumeId := by
      intro item hitem
      obtain ⟨hmem, hv⟩ := screenMoves_mem parent [] items item hitem
      exact ⟨hitems item hmem, hv⟩
    have hempty : Carries parent address.1 (Ready c birth given parent address.1 key hashKey)
        ⟨parent, address.1, [], (screenMoves parent [] items).1⟩ :=
      ⟨rfl, rfl, fun p hp => nomatch hp⟩
    refine .weaken (prepareEach_ensures hsigned hscreened hlinks hempty) ?_
    intro run hrun
    exact .inr ⟨address.1, key, hashKey, hfolder, hrun⟩

/-- Without moves nothing is sent. -/
theorem submitMoves_of_empty {run : MoveRun} (h : run.queue = []) (replies : List BatchReply) :
    c.submitMoves replies run = pure run := by
  cases replies with
  | nil => simp [submitMoves, h]
  | cons reply replies => simp [submitMoves, h]

/-- **Every run of `move_nodes` keeps the key tree**, whatever lands and whatever is answered. -/
theorem moveNodes_stays (hsigner : c.SignsAsItself) (uids : List NodeUid) (newParent : NodeUid)
    (sessions : NodeUid → Session) (replies : List BatchReply) :
    (c.moveNodes uids newParent sessions replies).Keeps (Program.Stays (Holds c birth given)) := by
  intro w w' r hrun h
  have hitems : ∀ item ∈ uids.eraseDups.map (fun uid => (⟨uid, none⟩ : NodeMoveItem)),
      item.targetName = none := by
    intro item hitem
    obtain ⟨uid, -, rfl⟩ := List.mem_map.mp hitem
    rfl
  have hat : At c birth given w.server w := ⟨h, rfl⟩
  have hprepare := fun s r =>
    prepareMoves_ensures hsigner h.named hitems newParent sessions w s r hat
  rcases Program.bind_eq_some.mp hrun with ⟨e, herror, -⟩ | ⟨t, run, hprepared, hrest⟩
  · exact (hprepare _ _ herror).1.1
  · obtain ⟨⟨ht, hserver⟩, hready⟩ := hprepare _ _ hprepared
    -- What comes after the batches does not touch the world.
    have hsubmit : ∀ {t' r'}, (c.submitMoves replies run).run t = some (t', r') →
        Holds c birth given t' := by
      intro t' r' hsubmit
      rcases hready run rfl with hempty | ⟨email, key, hashKey, hfolder, hcarries⟩
      · rw [submitMoves_of_empty hempty] at hsubmit
        cases hsubmit
        exact ht
      · let I : World → Prop := fun w => Holds c birth given w ∧
          Folder birth w.server newParent key hashKey
        have hkey : ∀ uid, (c.folderNodeKey uid).Keeps (Program.Stays I) := by
          intro uid s s' r hrun hs
          obtain ⟨hs', hsame⟩ := folderNodeKey_stays uid _ _ _ hrun ⟨hs.1, rfl⟩
          refine ⟨hs', ?_⟩
          rw [hsame]
          exact hs.2
        have hland : ∀ p, Ready c birth given newParent email key hashKey p → ∀ w, I w →
            I (w.updateLink ⟨newParent.volumeId, p.item.linkId⟩
              (LinkDetails.move (PreparedMove.request p newParent email))) := by
          rintro p ⟨hv, hid, b, hb, hfits⟩ w ⟨hw, hfold⟩
          have huid : (⟨newParent.volumeId, p.item.linkId⟩ : NodeUid) = p.uid := by
            rw [hid, ← hv]
          rw [huid]
          refine ⟨Holds.move hw hb ?_ hfits, hfold.updateLink (fun _ => rfl)⟩
          rw [hv]
          exact hfold
        have hretry : ∀ p hash, Ready c birth given newParent email key hashKey p →
            Ready c birth given newParent email key hashKey (p.retry hash) :=
          fun p hash hp => hp
        refine (submitMoves_keeps hkey hretry hland hcarries _ _ _ hsubmit ⟨ht, ?_⟩).1
        rw [hserver]
        exact hfolder
    rcases Program.bind_eq_some.mp hrest with ⟨e, herror, -⟩ | ⟨t', run', hlast, hpure⟩
    · exact hsubmit herror
    · cases hpure
      exact hsubmit hlast

/-! ## Runs -/

/-- Each of the six calls is safe. -/
theorem treeStep_safe (hsigner : c.SignsAsItself) {t t' : Tree} {call : TreeCall}
    (h : c.treeStep t call = some t') : Safe c t t' := by
  cases call with
  | createFolder parentUid name attributes secrets reply =>
      obtain ⟨⟨s, r⟩, hrun, rfl⟩ := Option.map_eq_some_iff.mp h
      exact createFolder_safe hsigner _ _ _ _ _ _ _ _ hrun
  | uploadFileFrom spec secrets replies sealing =>
      obtain ⟨⟨s, r⟩, hrun, rfl⟩ := Option.map_eq_some_iff.mp h
      exact uploadFileFrom_safe hsigner _ _ _ _ _ _ _ hrun
  | renameNode uid newName newMediaType session reply =>
      obtain ⟨⟨s, r⟩, hrun, rfl⟩ := Option.map_eq_some_iff.mp h
      exact renameNode_safe _ _ _ _ _ _ _ _ hrun
  | moveNode uid newParent session reply =>
      obtain ⟨⟨s, r⟩, hrun, rfl⟩ := Option.map_eq_some_iff.mp h
      exact moveNode_safe hsigner _ _ _ _ _ _ _ hrun
  | moveNodes uids newParent sessions replies =>
      obtain ⟨⟨s, r⟩, hrun, rfl⟩ := Option.map_eq_some_iff.mp h
      obtain ⟨⟨w', r'⟩, hmove, heq⟩ := Option.map_eq_some_iff.mp hrun
      cases heq
      -- The bulk move changes links only, and bears nobody.
      intro ht
      exact ⟨moveNodes_stays hsigner _ _ _ _ _ _ _ hmove ht, fun _ _ hb => hb⟩
  | copyNode uid newParent name session reply =>
      obtain ⟨⟨s, r⟩, hrun, rfl⟩ := Option.map_eq_some_iff.mp h
      exact copyNode_safe hsigner _ _ _ _ _ _ _ _ hrun

/-- **The key tree under own writes.** Whatever a client creates, uploads, renames, moves and
copies, and whatever the server does with it, the key tree holds; and every node has the passphrase
and the key it was created with. -/
theorem keyTree_run (hsigner : c.SignsAsItself) {t t' : Tree} {calls : List TreeCall}
    (h : KeyTree c t) (hrun : c.treeCalls.exec t calls = some t') :
    KeyTree c t' ∧ ∀ uid b, t.birth uid = some b → t'.birth uid = some b := by
  refine Machine.exec_invariant _
    (fun s => KeyTree c s ∧ ∀ uid b, t.birth uid = some b → s.birth uid = some b) ?_
    ⟨h, fun _ _ hb => hb⟩ hrun
  rintro s call s' ⟨hs, hgrown⟩ hstep
  obtain ⟨hs', hbirth⟩ := treeStep_safe hsigner hstep hs
  exact ⟨hs', fun uid b hb => hbirth uid b (hgrown uid b hb)⟩

/-! ## A run with every kind of call

A folder "A" and a file "f" are created below the root; the file is renamed to "g" and moved into
the folder, the folder is copied to "B" with the file in it, and the file is moved back. -/

def ownRoot : LinkDetails where
  link := { KeyWalk.folder 0 none 9 with hashKey := some (encrypt 10 3 [5]) }
  linkType := 1
  state := 1
  creationTime := 0
  modificationTime := 0
  trashTime := none
  trashedLegacy := none
  file := none
  photo := none
  album := none
  sharing := none
  membership := none

def ownStart : Tree where
  world := ⟨fun uid => if uid = ⟨0, 0⟩ then some ownRoot else none, fun _ => none, fun _ => none⟩
  birth uid := if uid = ⟨0, 0⟩ then some ⟨ownRoot.link.key.passphrase, ownRoot.link.key.key⟩ else none
  given _ := []

def ownContext : Context where
  account :=
    { publicKeys := fun email => if email = "me" then [1] else []
      isOwnVolume := fun _ => true
      exportKey := fun session => [session.toUInt8]
      parseAttributes := fun _ => none }
  rootLinkShareKey _ _ := .ok 9
  children _ := []
  membershipAddress := .ok ("me", 1)
  hmacName hashKey name := hashKey ++ name
  fuel := 3

def ownCalls : List TreeCall :=
  [.createFolder ⟨0, 0⟩ [65] none ⟨⟨20, ⟨20, [1]⟩, [1], rfl⟩, [6], 21, 22, 23, 24⟩
      ⟨some ⟨1, 0, 0⟩, .ok 1⟩,
    .uploadFileFrom ⟨⟨0, 0⟩, [102], "text/plain", 3, "client", false⟩
      ⟨⟨30, ⟨30, [2]⟩, [2], rfl⟩, 31, 32, 33⟩
      [⟨some ⟨2, 0, 0⟩, .ok 2, none, ⟨false, .ok ()⟩⟩]
      ⟨some (⟨"r", some 1, none, none⟩, 3), .ok ()⟩,
    .renameNode ⟨0, 2⟩ [103] (some "text/plain") 40 ⟨true, .ok ()⟩,
    .moveNode ⟨0, 2⟩ ⟨0, 1⟩ 41 ⟨true, .ok ()⟩,
    .copyNode ⟨0, 1⟩ ⟨0, 0⟩ (some [66]) 42 ⟨some (3, [(2, 4)]), .ok 3⟩,
    .moveNodes [⟨0, 2⟩, ⟨0, 2⟩] ⟨0, 0⟩ (fun _ => 43)
      [⟨[2], .ok [(2, ⟨.success, none, none⟩)]⟩]]

/-- The sample tree is a key tree. -/
theorem ownStart_keyTree : KeyTree ownContext ownStart where
  named := by
    intro uid d hd
    simp only [ownStart] at hd
    split at hd
    · next huid =>
      cases hd
      rw [huid]
      rfl
    · cases hd
  own := by
    intro uid d hd
    simp only [ownStart] at hd
    split at hd
    · next huid =>
      -- The root, which has no parent and was signed by nobody else.
      cases hd
      subst huid
      exact ⟨_, rfl, rfl, fun _ hemail => nomatch hemail⟩
    · cases hd
  placed := by
    intro uid d p hd hp
    simp only [ownStart] at hd
    split at hd
    · cases hd
      cases hp
    · cases hd
  cached := by
    intro uid key hk
    cases hk

/-- Several calls on the sample tree, among them a copy with a new name. -/
theorem keyTree_run_calls :
    ownContext.SignsAsItself ∧ KeyTree ownContext ownStart ∧
      ∃ t, ownContext.treeCalls.exec ownStart ownCalls = some t ∧ KeyTree ownContext t ∧
        t.given ⟨0, 4⟩ = [103] ∧ t.birth ⟨0, 4⟩ = some ⟨[2], 30⟩ := by
  have hsigner : ownContext.SignsAsItself := by
    intro email key h
    cases h
    decide
  have hexec : ∃ t, ownContext.treeCalls.exec ownStart ownCalls = some t ∧
      t.given ⟨0, 4⟩ = [103] ∧ t.birth ⟨0, 4⟩ = some ⟨[2], 30⟩ := ⟨_, rfl, rfl, rfl⟩
  obtain ⟨t, ht, hgiven, hbirth⟩ := hexec
  exact ⟨hsigner, ownStart_keyTree, t, ht, (keyTree_run hsigner ownStart_keyTree ht).1, hgiven,
    hbirth⟩

end Context

end ProtonDrive
