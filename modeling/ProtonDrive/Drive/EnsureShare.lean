import ProtonDrive.Drive.PublicLinkServer

/-!
# Making the share of a node

`ensure_node_share`, over a line that may lose the answer to the request that makes the share.

* `createNodeShare_spec` — what a share is that the client makes.
* `ensureNodeShare_spec` — the share is made once, and later calls find its session key.
-/

namespace ProtonDrive

namespace Recipients.PublicLinks

open Program (Triple)
open Online (At)

section

variable {o : Owned} {w : Choices} {d : Draws} {s : Server} {fates : List (Fate ProtonError)}

/-- The server has this share for the node, and its owner reads it right. -/
def HasSession (o : Owned) (s : Server) (shareId : ShareId) (session : ContentKey) : Prop :=
  ∃ share, s.share = some (shareId, share) ∧ ShareRight o.nodeKey share session

section

variable {session : ContentKey} {shareId : ShareId}

theorem HasSession.hasShare (h : HasSession o s shareId session) : s.hasShare shareId := by
  obtain ⟨share, hshare, -⟩ := h
  rw [Server.hasShare, hshare]
  rfl

theorem HasSession.plain (h : HasSession o s shareId session) :
    ∃ symAlg bytes, session = .v3_4 symAlg bytes := by
  obtain ⟨share, -, hright⟩ := h
  exact hright.plain

end

/-- The share key gets the session keys of what the node's parent key reads. -/
structure SharesNode (o : Owned) (share : CreateShareRequest) : Prop where
  passphrase : ∃ session, recoverMessageSessionKey o.parentKey o.link.passphrase = .ok session ∧
    session.toPacket share.shareKey.key = .ok share.passphraseKeyPacket
  name : ∃ session, recoverMessageSessionKey o.parentKey o.link.name = .ok session ∧
    session.toPacket share.shareKey.key = .ok share.nameKeyPacket

/-- Nothing but a share has been added, if there was none. -/
inductive Grown (o : Owned) (s : Server) : Server → Prop
  | same : Grown o s s
  | made {shareId : ShareId} {share : CreateShareRequest} {session : ContentKey}
      (hnone : s.share = none) (hright : ShareRight o.nodeKey share session)
      (hnode : SharesNode o share) : Grown o s { s with share := some (shareId, share) }

theorem buildStandardShareMaterial_right {nodePassphraseSk nodeNameSk : ContentKey}
    {material : StandardShareMaterial} {nodeKey addressKey : PrivateKey}
    (h : buildStandardShareMaterial d.shareKey (.v3_4 aes256 d.shareSession) nodeKey nodePassphraseSk
      nodeNameSk addressKey = .ok material) :
    material.shareSessionKey = .v3_4 aes256 d.shareSession ∧
      recoverMessageSessionKey nodeKey material.sharePassphrase = .ok material.shareSessionKey ∧
      decryptArmoredMessage nodeKey material.sharePassphrase =
        .ok material.shareKey.passphrase ∧
      nodePassphraseSk.toPacket material.shareKey.key = .ok material.passphraseKeyPacket ∧
      nodeNameSk.toPacket material.shareKey.key = .ok material.nameKeyPacket := by
  obtain ⟨sharePassphrase, hencrypt, h⟩ := Except.bind_eq_ok.mp h
  obtain ⟨passphraseKeyPacket, hpassphrase, h⟩ := Except.bind_eq_ok.mp h
  obtain ⟨nameKeyPacket, hname, h⟩ := Except.bind_eq_ok.mp h
  cases h
  exact ⟨rfl, (recovers_first hencrypt).session_eq,
    decryptArmoredMessage_of_mem hencrypt List.mem_cons_self, hpassphrase, hname⟩

/-- A share is made once, however often it is asked for. -/
theorem settles_createShare (share : CreateShareRequest) : Settles (Server.createShare w share) s := by
  intro t shareId hanswer u shareId' hagain
  unfold Server.createShare at hanswer
  split at hanswer
  · cases hanswer
    cases hagain
  · cases hanswer

/-- No share was made, or it could not be, or the line failed. -/
def NoShare (o : Owned) (d : Draws) (fates : List (Fate ProtonError)) (s : Server)
    (t : Online Server ProtonError) : Prop :=
  (Disturbed fates ∨ s.share = none ∧ ∃ e, o.material d = .error e) ∧
    ∃ s', Grown o s s' ∧ At fates s' t

theorem noShare_of_disturbed {t : Online Server ProtonError} (h : Disturbed fates ∧ At fates s t) :
    NoShare o d fates s t := ⟨.inl h.1, s, .same, h.2⟩

/-- All that can fail before the request is known beforehand. -/
theorem createNodeShare_eq (c : Calls (Online Server ProtonError)) :
    createNodeShare c d o.uid o.link o.parentKey o.nodeKey o.address =
      Program.ofExcept (o.material d) >>= fun material => do
        let shareId ← c.createShare o.uid.volumeId {
          rootLinkId := o.uid.linkId
          addressId := o.address.1
          name := "New Share"
          shareKey := material.shareKey
          sharePassphrase := material.sharePassphrase
          sharePassphraseSignature := material.sharePassphraseSignature
          passphraseKeyPacket := material.passphraseKeyPacket
          nameKeyPacket := material.nameKeyPacket }
        return (shareId, material.shareSessionKey, o.address.2.1, o.address.2.2) := by
  -- The three ways in which the source fails before it asks the server.
  unfold createNodeShare Owned.material
  cases recoverMessageSessionKey o.parentKey o.link.passphrase with
  | error e => rfl
  | ok nodePassphraseSk =>
      cases recoverMessageSessionKey o.parentKey o.link.name with
      | error e => rfl
      | ok nodeNameSk => rfl

theorem createNodeShare_spec (hnone : s.share = none) :
    Triple (At fates s) (createNodeShare (calls o w) d o.uid o.link o.parentKey o.nodeKey o.address)
      (fun r t => r.2.2.2 = o.address.2.2 ∧
        ∃ s', Grown o s s' ∧ HasSession o s' r.1 r.2.1 ∧ At fates s' t)
      (NoShare o d fates s) := by
  rw [createNodeShare_eq]
  -- The keys of the share are built before anything is sent.
  have hmaterial : Triple (At fates s) (Program.ofExcept (o.material d))
      (fun material t => o.material d = .ok material ∧ At fates s t) (NoShare o d fates s) :=
    .check (fun material h t ht => ⟨h, ht⟩)
      (fun e he t ht => ⟨.inr ⟨hnone, e, he⟩, s, .same, ht⟩)
  refine .bind hmaterial (fun t ht => ht) (fun material => .assume fun hmaterial => ?_)
  obtain ⟨nodePassphraseSk, hpassphraseSk, hmaterial⟩ := Except.bind_eq_ok.mp hmaterial
  obtain ⟨nodeNameSk, hnameSk, hmaterial⟩ := Except.bind_eq_ok.mp hmaterial
  obtain ⟨hsession, hrecovers, hreads, hpassphrase, hname⟩ :=
    buildStandardShareMaterial_right hmaterial
  let share : CreateShareRequest := ⟨o.uid.linkId, o.address.1, "New Share", material.shareKey,
    material.sharePassphrase, material.sharePassphraseSignature, material.passphraseKeyPacket,
    material.nameKeyPacket⟩
  have hright : ShareRight o.nodeKey share material.shareSessionKey :=
    ⟨hrecovers, hreads, _, _, hsession⟩
  have hnode : SharesNode o share := ⟨⟨_, hpassphraseSk, hpassphrase⟩, _, hnameSk, hname⟩
  -- There is no share, so the server makes this one.
  have hanswer : Server.createShare w share s =
      .ok ({ s with share := some (w.shareId, share) }, w.shareId) := by
    unfold Server.createShare
    rw [hnone]
  refine .bind (Triple.put (settles_createShare share)) ?_ (fun shareId => .pure ?_)
  · -- The request was not carried out, or its answer was lost.
    rintro t (⟨hreason, ht⟩ | ⟨hdisturbed, s', shareId, hmade, ht⟩)
    · refine ⟨.inl (hreason.resolve_right ?_), s, .same, ht⟩
      rintro ⟨e, he⟩
      cases hanswer.symm.trans he
    · cases hanswer.symm.trans hmade
      exact ⟨.inl hdisturbed, _, .made hnone hright hnode, ht⟩
  · rintro t ⟨s', hmade, ht⟩
    cases hanswer.symm.trans hmade
    exact ⟨rfl, _, .made hnone hright hnode, ⟨share, rfl, hright⟩, ht⟩

/-- The share is made if there is none, and its session key is handed out. -/
theorem ensureNodeShare_spec
    (hright : ∀ shareId share, s.share = some (shareId, share) →
      ∃ session, ShareRight o.nodeKey share session) :
    Triple (At fates s) (ensureNodeShare (calls o w) d o.uid)
      (fun r t => r.2.2.2 = o.address.2.2 ∧
        ∃ s', Grown o s s' ∧ HasSession o s' r.1 r.2.1 ∧ At fates s' t)
      (NoShare o d fates s) := by
  have hfailed : ∀ t, Disturbed fates ∧ At fates s t → NoShare o d fates s t :=
    fun t ht => noShare_of_disturbed ht
  unfold ensureNodeShare calls
  dsimp only
  -- The link, its parent's key, its own key and the address, each of which may be disturbed.
  refine .bind (Triple.answered rfl) hfailed (fun details => .assume fun hdetails => ?_)
  subst hdetails
  have hfind : (s.details o).find? (fun detail => detail.link.id == o.uid.linkId) =
      some ⟨o.link, s.share.map Prod.fst⟩ := by
    simp [Server.details, o.link_id]
  rw [hfind]
  refine .bind (Triple.answered rfl) hfailed (fun parentKey => .assume fun hparent => ?_)
  subst hparent
  have hnodeKey : Program.ofExcept (.ok o.nodeKey : Except ProtonError PrivateKey) =
      (pure o.nodeKey : Program (Online Server ProtonError) ProtonError PrivateKey) := rfl
  rw [hnodeKey]
  refine .bind (.pure fun t ht => ⟨rfl, ht⟩) hfailed (fun nodeKey => .assume fun hnode => ?_)
  subst hnode
  refine .bind (Triple.answered rfl) hfailed (fun address => .assume fun haddress => ?_)
  subst haddress
  cases hshare : s.share with
  | none => exact createNodeShare_spec hshare
  -- The share is there, and its session is recovered from its passphrase.
  | some made =>
      obtain ⟨shareId, share⟩ := made
      obtain ⟨session, hsession⟩ := hright shareId share hshare
      have hpassphrase : Server.passphrase shareId s = .ok share.sharePassphrase := by
        simp [Server.passphrase, hshare]
      refine .bind (Triple.answered hpassphrase) hfailed (fun passphrase => .assume fun h => ?_)
      subst h
      rw [hsession.recovers]
      exact .pure fun t ht => ⟨rfl, s, .same, ⟨share, hshare, hsession⟩, ht⟩

end

end Recipients.PublicLinks

end ProtonDrive
