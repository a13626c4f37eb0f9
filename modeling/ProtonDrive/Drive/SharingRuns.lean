import ProtonDrive.Drive.Inviting
import ProtonDrive.Drive.PublicLinkRuns

/-!
# Runs of sharing

What holds of a shared node after any calls of the owner, the invitees and the members.

* `perform_spec` — what each call does: it takes guests away, or it invites those who are not there.
* `shareNode_accounts` — what one call to share the node has done when it is over.
* `sharing_runs` — every invitee can accept, every member reads the node, and nobody is invited twice
  unless a request is carried out twice.
-/

namespace ProtonDrive

namespace Recipients.Sharing

open OpenPgp (Bytes)
open Program (ofExcept request inquiry Triple)
open Online (At)
open PublicLinks (Owned Grown)

section

variable {lower : String → String} {base64Encode : Bytes → String} {o : Owned}
  {keysOf : String → List PrivateKey} {w : Choices keysOf} {d : PublicLinks.Draws}
  {s s' t : Server} {fates : List (Fate ProtonError)} {session : ContentKey} {g : Guest}
  {emailMessage : Option String} {invitees : List (String × MemberRole)}

/-! ## Every call -/

/-- What a call has done to the server. -/
inductive Did (lower : String → String) (o : Owned) (keysOf : String → List PrivateKey)
    (fates : List (Fate ProtonError)) (s : Server) : Call → Server → Prop
  | fewer {call : Call} {s' : Server} (h : Fewer s s') : Did lower o keysOf fates s call s'
  | shared {invitees invited : List (String × MemberRole)} {emailMessage : Option String}
      {blocks : List (List Guest)} {s' : Server}
      (hinvited : invited <+: chosen lower (emails lower s.guests) invitees)
      (hposted : Posted o keysOf fates s invited blocks s') :
      Did lower o keysOf fates s (.shareNode invitees emailMessage) s'
  | external {invitees invited : List (String × MemberRole)} {emailMessage : Option String}
      {blocks : List (List ExternalGuest)} {s' : Server}
      (hinvited : invited <+:
        chosen lower (externalEmails lower s.external ++ emails lower s.guests) invitees)
      (hposted : PostedExternal o fates s invited blocks s') :
      Did lower o keysOf fates s (.inviteExternalUsers invitees emailMessage) s'

theorem updateRole_fewer (error : ProtonError) (role : MemberRole)
    {put : Int → Server → Except ProtonError (Server × Unit)}
    (hput : ∀ permissions s s' u, put permissions s = .ok (s', u) → Fewer s s') :
    Triple (At fates s) (updateRole error role put) (fun _ t => ∃ s', Fewer s s' ∧ At fates s' t)
      (fun t => ∃ s', Fewer s s' ∧ At fates s' t) := by
  unfold updateRole
  cases role.toPermissions with
  | none => exact .check (fun _ h => nomatch h) (fun e he t ht => ⟨s, Fewer.refl s, ht⟩)
  | some permissions => exact request_fewer (hput permissions)

theorem acceptIncoming_fewer (id : String) :
    Triple (At fates s)
      (acceptIncoming (fun id => inquiry (Server.incoming o id))
        (fun email => inquiry (fun _ => ownAddressKeys keysOf email))
        (fun id _ => request (Server.accept id)) id)
      (fun _ t => ∃ s', Fewer s s' ∧ At fates s' t) (fun t => ∃ s', Fewer s s' ∧ At fates s' t) := by
  -- Until the accept request nothing is changed, whatever goes wrong.
  have hnothing : ∀ t, At fates s t → ∃ s', Fewer s s' ∧ At fates s' t :=
    fun t ht => ⟨s, Fewer.refl s, ht⟩
  unfold acceptIncoming
  apply (Triple.ask (Server.incoming o id)).bind (fun t ht => hnothing t ht.2)
  intro detail
  apply Triple.assume
  intro _
  apply (Triple.ask (fun _ => ownAddressKeys keysOf detail.inviteeEmail)).bind
    (fun t ht => hnothing t ht.2)
  rintro ⟨keys, signingKey⟩
  apply Triple.assume
  intro _
  apply Triple.ofExcept.bind hnothing
  intro signature
  apply Triple.assume
  intro _
  exact request_fewer (fewer_accept id)

theorem leaveSharedNode_fewer (id : String) (uid : NodeUid) :
    Triple (At fates s)
      (leaveSharedNode (fun uid => inquiry (fun s => .ok [(uid.linkId, s.membership id)]))
        (fun _ id => request (Server.removeMember id)) uid)
      (fun _ t => ∃ s', Fewer s s' ∧ At fates s' t) (fun t => ∃ s', Fewer s s' ∧ At fates s' t) := by
  unfold leaveSharedNode
  apply (Triple.ask (fun s : Server => .ok [(uid.linkId, s.membership id)])).bind
    (fun t ht => ⟨s, Fewer.refl s, ht.2⟩)
  intro details
  apply Triple.assume
  intro _
  cases (details.find? (fun detail => detail.1 == uid.linkId)).bind Prod.snd with
  | none => exact .check (fun _ h => nomatch h) (fun e he t ht => ⟨s, Fewer.refl s, ht⟩)
  | some membership => exact request_fewer (fewer_removeMember membership.2)

theorem perform_spec (hs : Right o keysOf s) (call : Call) :
    Triple (At fates s) (perform lower base64Encode o keysOf w d call)
      (fun _ t => ∃ s', Did lower o keysOf fates s call s' ∧ At fates s' t)
      (fun t => ∃ s', Did lower o keysOf fates s call s' ∧ At fates s' t) := by
  -- Eight of the ten calls only take away guests or change a role.
  have hfewer : ∀ {x : Program (Online Server ProtonError) ProtonError Unit},
      Triple (At fates s) x (fun _ t => ∃ s', Fewer s s' ∧ At fates s' t)
        (fun t => ∃ s', Fewer s s' ∧ At fates s' t) →
      Triple (At fates s) x (fun _ t => ∃ s', Did lower o keysOf fates s call s' ∧ At fates s' t)
        (fun t => ∃ s', Did lower o keysOf fates s call s' ∧ At fates s' t) := by
    intro x hx
    apply hx.weaken (fun t ht => ht)
    · rintro u t ⟨s', hs', ht⟩
      exact ⟨s', .fewer hs', ht⟩
    · rintro t ⟨s', hs', ht⟩
      exact ⟨s', .fewer hs', ht⟩
  cases call with
  | shareNode invitees emailMessage =>
      apply (shareNode_spec hs).bind
      · rintro t ⟨invited, blocks, s', hinvited, hposted, -, -, ht⟩
        exact ⟨s', .shared hinvited hposted, ht⟩
      · -- What comes after the invitations does not touch the server.
        intro created
        apply Triple.pure
        rintro t ⟨shareId, blocks, s', hposted, -, -, ht⟩
        exact ⟨s', .shared (List.prefix_refl _) hposted, ht⟩
  | inviteExternalUsers invitees emailMessage =>
      apply (inviteExternalUsers_spec hs).bind
      · rintro t ⟨invited, blocks, s', hinvited, hposted, ht⟩
        exact ⟨s', .external hinvited hposted, ht⟩
      · intro created
        apply Triple.pure
        rintro t ⟨invited, blocks, s', hinvited, hposted, ht⟩
        exact ⟨s', .external hinvited hposted, ht⟩
  | updateInvitationRole id role => exact hfewer (updateRole_fewer _ role (fewer_updateInvitation id))
  | updateMemberRole id role => exact hfewer (updateRole_fewer _ role (fewer_updateMember id))
  | deleteInvitation id => exact hfewer (request_fewer (fewer_deleteInvitation id))
  | removeMember id => exact hfewer (request_fewer (fewer_removeMember id))
  | deleteExternalInvitation id => exact hfewer (request_fewer (fewer_deleteExternal id))
  | acceptInvitation id => exact hfewer (acceptIncoming_fewer id)
  | rejectInvitation id => exact hfewer (request_fewer (fewer_deleteInvitation id))
  | leaveSharedNode id => exact hfewer (leaveSharedNode_fewer id o.uid)

/-! ## Every guest has the key -/

theorem Right.fewer (hs : Right o keysOf s) (h : Fewer s s') : Right o keysOf s' where
  unshared hnone := by
    have hempty : s.guests = [] := hs.unshared (h.node_eq ▸ hnone)
    have hsub := h.guests
    rw [hempty] at hsub
    exact List.map_eq_nil_iff.mp (List.subperm_nil.mp hsub)
  shared shareId share hshare := by
    obtain ⟨session, hright, hnode, hsealed⟩ := hs.shared shareId share (h.node_eq ▸ hshare)
    refine ⟨session, hright, hnode, ?_⟩
    intro g hg
    obtain ⟨g', hg', heq⟩ := List.mem_map.mp (h.guests.subset (List.mem_map_of_mem hg))
    obtain ⟨hemail, hpacket⟩ := Prod.mk.inj heq
    unfold Sealed
    rw [← hemail, ← hpacket]
    exact hsealed g' hg'

/-- A share that is made for the node has no guests. -/
theorem Right.grown {node : PublicLinks.Server} (hs : Right o keysOf s) (hgrown : Grown o s.node node) :
    Right o keysOf { s with node := node } := by
  generalize hbefore : s.node = before at hgrown
  cases hgrown with
  | same =>
      subst hbefore
      exact hs
  | made hnone hright hnode =>
      have hempty : s.guests = [] := hs.unshared (by rw [hbefore]; exact hnone)
      refine ⟨nofun, ?_⟩
      intro shareId share hshare
      cases hshare
      refine ⟨_, hright, hnode, ?_⟩
      show ∀ g ∈ s.guests, _
      rw [hempty]
      exact nofun

theorem forall_mem_flatten {γ : Type} {good : String × MemberRole → γ → Prop} {Q : γ → Prop}
    {blocks : List (List γ)} {invited : List (String × MemberRole)}
    (h : List.Forall₂ (fun gs i => Block fates (good i) gs) blocks invited)
    (hgood : ∀ i g, good i g → Q g) : ∀ g ∈ blocks.flatten, Q g := by
  intro g hg
  obtain ⟨gs, hgs, hg⟩ := List.mem_flatten.mp hg
  obtain ⟨i, -, hblock⟩ := h.flip.exists_right hgs
  exact hgood i g (hblock.good g hg)

theorem Right.posted {invited : List (String × MemberRole)} {blocks : List (List Guest)}
    (hs : Right o keysOf s) (h : Posted o keysOf fates s invited blocks s') : Right o keysOf s' := by
  have hgrown : Right o keysOf { s with node := s'.node } := hs.grown h.grown
  have hguests : s'.guests = s.invitations ++ blocks.flatten ++ s.members := by
    unfold Server.guests
    rw [h.invitations_eq, h.members_eq]
  rcases h.sessions with ⟨rfl, -⟩ | ⟨shareId, session, ⟨share, hshare, hright⟩, hblocks⟩
  · have hsame : s'.guests = ({ s with node := s'.node } : Server).guests := by
      rw [hguests, List.flatten_nil, List.append_nil]
      rfl
    exact ⟨fun hnone => hsame ▸ hgrown.unshared hnone, hsame ▸ hgrown.shared⟩
  · refine ⟨fun hnone => (nomatch hshare.symm.trans hnone), ?_⟩
    intro shareId' share' hshare'
    cases hshare.symm.trans hshare'
    -- the session key that the guests have is the one that the invitations were sealed with
    obtain ⟨session', hright', hnode, hsealed⟩ := hgrown.shared shareId share hshare
    cases hright.recovers.symm.trans hright'.recovers
    refine ⟨session, hright, hnode, ?_⟩
    have hnew := forall_mem_flatten hblocks (Q := Sealed keysOf session) (fun i g hg => hg.isSealed)
    intro g hg
    rw [hguests] at hg
    rcases List.mem_append.mp hg with hg | hg
    · rcases List.mem_append.mp hg with hg | hg
      · exact hsealed g (List.mem_append_left _ hg)
      · exact hnew g hg
    · exact hsealed g (List.mem_append_right _ hg)

theorem Right.did {call : Call} (hs : Right o keysOf s) (h : Did lower o keysOf fates s call s') :
    Right o keysOf s' := by
  cases h with
  | fewer h => exact hs.fewer h
  | shared hinvited hposted => exact hs.posted hposted
  | external hinvited hposted =>
      have hgrown : Right o keysOf { s with node := s'.node } := hs.grown hposted.grown
      have hsame : s'.guests = ({ s with node := s'.node } : Server).guests := by
        unfold Server.guests
        rw [hposted.invitations_eq, hposted.members_eq]
      exact ⟨fun hnone => hsame ▸ hgrown.unshared hnone, hsame ▸ hgrown.shared⟩

/-! ## Nobody is invited twice -/

theorem Once.fewer (hs : Once lower s) (h : Fewer s s') : Once lower s' where
  guests := by
    have hemails : ∀ gs : List Guest,
        emails lower gs = (gs.map Guest.sealedFor).map (fun p => lower p.1) := by
      intro gs
      rw [List.map_map]
      rfl
    have hnodup := hs.guests
    rw [hemails] at hnodup ⊢
    obtain ⟨part, hperm, hpart⟩ := subperm_map (fun p => lower p.1) h.guests
    exact hperm.nodup_iff.mp (hnodup.sublist hpart)
  external := hs.external.sublist (h.external.map _)

/-- If no request is carried out twice, there is at most one guest for each invitee. -/
theorem sublist_flatten {γ : Type} {good : String × MemberRole → γ → Prop} {email : γ → String}
    {blocks : List (List γ)} {invited : List (String × MemberRole)}
    (h : List.Forall₂ (fun gs i => Block fates (good i) gs) blocks invited)
    (hunrepeated : Unrepeated fates) (hgood : ∀ i g, good i g → email g = i.1) :
    (blocks.flatten.map (fun g => lower (email g))).Sublist (invited.map (fun i => lower i.1)) := by
  induction h with
  | nil => exact List.Sublist.slnil
  | @cons gs i blocks invited hblock _ ih =>
      rw [List.flatten_cons, List.map_append, List.map_cons]
      have hlength := hblock.copies.le_one hunrepeated
      match gs, hblock.good with
      | [], _ => exact ih.cons _
      | [g], hg =>
          rw [List.map_singleton, hgood i g (hg g List.mem_cons_self)]
          exact ih.cons_cons _
      | _ :: _ :: _, _ => exact absurd hlength (by simp)

/-- Those who were not there are new. -/
theorem nodup_append_invited {old already new : List String}
    {invited invitees : List (String × MemberRole)} (hold : old.Nodup) (hsub : old ⊆ already)
    (hinvited : invited <+: chosen lower already invitees)
    (hdistinct : (invitees.map (fun i => lower i.1)).Nodup)
    (hnew : new.Sublist (invited.map (fun i => lower i.1))) : (old ++ new).Nodup := by
  have hlisted : invited.Sublist invitees := hinvited.sublist.trans List.filter_sublist
  refine List.nodup_append'.mpr ⟨hold, hdistinct.sublist (hnew.trans (hlisted.map _)), ?_⟩
  intro email hmem hemail
  obtain ⟨i, hi, rfl⟩ := List.mem_map.mp (hnew.subset hemail)
  have hchosen := (List.mem_filter.mp (hinvited.subset hi)).2
  rw [decide_eq_true_eq] at hchosen
  exact hchosen (hsub hmem)

theorem Once.did {call : Call} (hs : Once lower s) (h : Did lower o keysOf fates s call s')
    (hdistinct : call.Distinct lower) (hunrepeated : Unrepeated fates) : Once lower s' := by
  cases h with
  | fewer h => exact hs.fewer h
  | @shared invitees invited emailMessage blocks _ hinvited hposted =>
      -- The external invitations are as they were; the emails are appended.
      refine ⟨?_, hposted.external_eq ▸ hs.external⟩
      have hemails : (emails lower s'.guests).Perm
          (emails lower s.guests ++ emails lower blocks.flatten) := by
        unfold emails Server.guests
        rw [hposted.invitations_eq, hposted.members_eq, ← List.map_append]
        apply List.Perm.map
        rw [List.append_assoc, List.append_assoc]
        exact List.perm_append_comm.append_left _
      rw [hemails.nodup_iff]
      apply nodup_append_invited hs.guests (List.Subset.refl _) hinvited hdistinct
      -- Nothing was posted, or a part of what the call was to invite.
      rcases hposted.sessions with ⟨rfl, rfl⟩ | ⟨shareId, session, -, hblocks⟩
      · exact List.Sublist.slnil
      · exact sublist_flatten hblocks hunrepeated (fun i g hg => hg.email_eq)
  | @external invitees invited emailMessage blocks _ hinvited hposted =>
      -- The other list is as it was.
      constructor
      · unfold Server.guests
        rw [hposted.invitations_eq, hposted.members_eq]
        exact hs.guests
      · unfold externalEmails
        rw [hposted.external_eq, List.map_append]
        apply nodup_append_invited hs.external (List.subset_append_left _ _) hinvited hdistinct
        exact sublist_flatten hposted.invited hunrepeated (fun i g hg => hg.email_eq)

/-! ## Guests -/

/-- What a guest can do with the packet of the invitation: accept it, and read the node. -/
structure CanRead (o : Owned) (keysOf : String → List PrivateKey) (share : CreateShareRequest)
    (g : Guest) : Prop where
  accepts : ∃ session bytes, recoverMessageSessionKey o.nodeKey share.sharePassphrase = .ok session ∧
    session.exported = .ok bytes ∧ ∀ signingKey,
      acceptInvitation g.keyPacket (keysOf g.email) signingKey =
        .ok ⟨signingKey.primaryKey.id, bytes, sharingMemberContext⟩
  unlocks : ∀ shareId addressId, decryptShareKey (keysOf g.email)
    ⟨shareId, share.shareKey, rekey g.keyPacket share.sharePassphrase, addressId⟩ =
      .ok share.shareKey.key
  passphrase : ∀ data, decryptArmoredMessage o.parentKey o.link.passphrase = .ok data →
    decryptArmoredMessage share.shareKey.key (rekey share.passphraseKeyPacket o.link.passphrase) =
      .ok data
  name : ∀ data, decryptArmoredMessage o.parentKey o.link.name = .ok data →
    decryptArmoredMessage share.shareKey.key (rekey share.nameKeyPacket o.link.name) = .ok data
  invitation : ∀ (s : Server) shareId details data, s.node.share = some (shareId, share) →
    s.detailsFor o g = some details → decryptArmoredMessage o.parentKey o.link.name = .ok data →
      decryptInvitationName (keysOf g.email) details = String.fromUTF8? data.toByteArray

theorem Right.canRead (hs : Right o keysOf s) (hg : g ∈ s.guests) :
    ∃ shareId share, s.node.share = some (shareId, share) ∧ CanRead o keysOf share g := by
  cases hshare : s.node.share with
  | none =>
      rw [hs.unshared hshare] at hg
      cases hg
  | some made =>
      obtain ⟨shareId, share⟩ := made
      obtain ⟨session, hright, hnode, hsealed⟩ := hs.shared shareId share hshare
      obtain ⟨key, hmem, hpacket⟩ := hsealed g hg
      obtain ⟨passphraseSk, hpassphraseSk, hpassphrase⟩ := hnode.passphrase
      obtain ⟨nameSk, hnameSk, hname⟩ := hnode.name
      have hread := decrypt_rekey hright.recovers hright.reads hpacket
      refine ⟨shareId, share, rfl, ?_, ?_, ?_, ?_, ?_⟩
      · obtain ⟨symAlg, bytes, rfl⟩ := hright.plain
        refine ⟨.v3_4 symAlg bytes, bytes, hright.recovers, rfl, fun signingKey => ?_⟩
        obtain ⟨bytes', hbytes', haccept⟩ := acceptInvitation_eq_ok signingKey hpacket hmem
        cases hbytes'
        exact haccept
      · intro shareId addressId
        exact decryptShareKey_rekey hright.recovers hright.reads hpacket hmem rfl rfl
      · intro data hdata
        exact decrypt_rekey hpassphraseSk hdata hpassphrase
      · intro data hdata
        exact decrypt_rekey hnameSk hdata hname
      · intro s' shareId' details data hshare' hdetails hdata
        unfold Server.detailsFor at hdetails
        rw [hshare'] at hdetails
        cases hdetails
        have hunlocked : fromArmored share.shareKey share.shareKey.passphrase =
            .ok share.shareKey.key := if_pos rfl
        -- the name of the node comes with the invitation, for the share key
        unfold decryptInvitationName
        dsimp only
        rw [findSome?_decryptArmored hmem hread]
        simp only [Option.bind_eq_bind, Option.bind_some, hunlocked, Except.toOption,
          decrypt_rekey hnameSk hdata hname]

/-! ## Runs -/

/-- A step does what its call does. -/
theorem system_step {step : Step keysOf} (hs : Right o keysOf s)
    (hstep : (system lower base64Encode o keysOf).step s step = some t) :
    Did lower o keysOf step.fates s step.call t := by
  obtain ⟨⟨u, r⟩, hperform, rfl⟩ := Option.map_eq_some_iff.mp hstep
  obtain ⟨hok, herror⟩ := perform_spec hs step.call _ _ _ ⟨rfl, List.suffix_refl _⟩ hperform
  cases r with
  | ok a =>
      obtain ⟨s', hdid, ht⟩ := hok a rfl
      exact ht.server_eq ▸ hdid
  | error e =>
      obtain ⟨s', hdid, ht⟩ := herror e rfl
      exact ht.server_eq ▸ hdid

theorem Right.exec {steps : List (Step keysOf)} (hs : Right o keysOf s)
    (hrun : (system lower base64Encode o keysOf).exec s steps = some t) : Right o keysOf t := by
  apply Machine.exec_invariant _ (Right o keysOf) _ hs hrun
  intro s step t hs hstep
  exact hs.did (system_step hs hstep)

/-- **Whatever the owner, the invitees and the members do**, and whatever becomes of their requests,
every invitee can accept, and every member reads the node. If no call lists somebody twice and no
request is carried out twice, nobody is invited twice. -/
theorem sharing_runs {steps : List (Step keysOf)} (hs : Right o keysOf s)
    (hrun : (system lower base64Encode o keysOf).exec s steps = some t) :
    Right o keysOf t ∧
    (∀ g ∈ t.guests, ∃ shareId share,
      t.node.share = some (shareId, share) ∧ CanRead o keysOf share g) ∧
    (Once lower s → (∀ step ∈ steps, step.call.Distinct lower ∧ Unrepeated step.fates) →
      Once lower t) := by
  have ht : Right o keysOf t := hs.exec hrun
  refine ⟨ht, fun g hg => ht.canRead hg, ?_⟩
  intro honce hsteps
  have hboth : Right o keysOf t ∧ Once lower t := by
    apply Machine.exec_invariant_along _ (fun s => Right o keysOf s ∧ Once lower s) _
      (Machine.along_of_mem _ s hsteps) ⟨hs, honce⟩ hrun
    rintro s step t ⟨hdistinct, hunrepeated⟩ ⟨hs, honce⟩ hstep
    have hdid := system_step hs hstep
    exact ⟨hs.did hdid, honce.did hdid hdistinct hunrepeated⟩
  exact hboth.2

end

/-! ## A node that is shared -/

def sampleKey (n : Nat) : PrivateKey := ⟨⟨n, true⟩, []⟩

def sampleOwned : Owned where
  uid := ⟨1, 2⟩
  link := ⟨2, [.pkeskV3 1 aes256 [7], .seipd (.v3_4 aes256 [7]) [3]],
    [.pkeskV3 1 aes256 [8], .seipd (.v3_4 aes256 [8]) [65]]⟩
  parentKey := sampleKey 1
  nodeKey := sampleKey 2
  address := ("address", "me@example.test", sampleKey 3)
  ownKeys := [sampleKey 3]
  moduli _ := none
  link_id := rfl
  mem_ownKeys := List.mem_cons_self

def sampleKeysOf (_ : String) : List PrivateKey := [sampleKey 4]

def sampleChoices : Choices sampleKeysOf where
  node := PublicLinks.sampleChoices
  newId s := newText ((s.guests.map Guest.id) ++ s.external.map ExternalGuest.id)
  createTime := 0
  directory _ := [(sampleKey 4).publicKey]
  honest := by
    rintro email publicKey h
    cases h
    exact ⟨sampleKey 4, List.mem_cons_self, rfl⟩

def sampleDraws : PublicLinks.Draws where
  shareKey := ⟨sampleKey 5, [9]⟩
  shareSession := [10]
  password := Vector.replicate 12 0
  keySalt := Vector.replicate 16 0
  passwordSession := []
  srpSalt := .ok []

def sampleServer : Server := ⟨⟨none, []⟩, [], [], []⟩

/-- An invitation by email stands beside the one as a Proton user, whose answer is lost; the user, who
is not invited again, accepts it. -/
def sampleSteps : List (Step sampleKeysOf) :=
  [⟨.inviteExternalUsers [("you@example.test", .viewer)] none, sampleDraws, sampleChoices, []⟩,
    ⟨.shareNode [("you@example.test", .editor)] none, sampleDraws, sampleChoices,
      [.done, .done, .done, .done, .done, .done, .done, .lost refusal]⟩,
    ⟨.shareNode [("you@example.test", .editor)] none, sampleDraws, sampleChoices, []⟩,
    ⟨.acceptInvitation "xx", sampleDraws, sampleChoices, []⟩]

theorem sampleServer_right : Right sampleOwned sampleKeysOf sampleServer := ⟨fun _ => rfl, nofun⟩

theorem sharing_runs_sample :
    ∃ t, (system id (fun _ => "") sampleOwned sampleKeysOf).exec sampleServer sampleSteps = some t ∧
      t.members.length = 1 ∧ t.invitations = [] ∧ t.external.length = 1 ∧
      Right sampleOwned sampleKeysOf t ∧
      (∀ g ∈ t.guests, ∃ shareId share,
        t.node.share = some (shareId, share) ∧ CanRead sampleOwned sampleKeysOf share g) ∧
      Once id t := by
  have honce : Once id sampleServer := ⟨List.nodup_nil, List.nodup_nil⟩
  have hsteps : ∀ step ∈ sampleSteps, step.call.Distinct id ∧ Unrepeated step.fates := by
    simp [sampleSteps, Call.Distinct, Unrepeated, Fate.Single]
  obtain ⟨t, hrun, hmembers, hinvitations, hexternal⟩ : ∃ t,
      (system id (fun _ => "") sampleOwned sampleKeysOf).exec sampleServer sampleSteps = some t ∧
        t.members.length = 1 ∧ t.invitations = [] ∧ t.external.length = 1 := ⟨_, rfl, rfl, rfl, rfl⟩
  obtain ⟨hright, hread, hruns⟩ := sharing_runs sampleServer_right hrun
  exact ⟨t, hrun, hmembers, hinvitations, hexternal, hright, hread, hruns honce hsteps⟩

end Recipients.Sharing

end ProtonDrive
