import ProtonDrive.Lib.Forall2
import ProtonDrive.Drive.SharingServer

/-!
# Inviting people

What the requests of a shared node do to it: some take guests away, however often they are carried out,
and some add one each time.

* `Fewer` — nobody was added.
* `inviteAll_spec` — the loop over the invitees, for invitations of either kind.
* `shareNode_spec`, `inviteExternalUsers_spec` — the calls with that loop.
-/

namespace ProtonDrive

namespace Recipients.Sharing

open OpenPgp (Bytes)
open Program (ofExcept attempt request inquiry component Triple)
open Online (At)
open PublicLinks (Owned ShareRight HasSession SharesNode Grown)

section

variable {lower : String → String} {base64Encode : Bytes → String} {o : Owned}
  {keysOf : String → List PrivateKey} {w : Choices keysOf} {d : PublicLinks.Draws}
  {s s' t : Server} {fates : List (Fate ProtonError)} {session : ContentKey} {g : Guest}

/-! ## Nobody is added -/

/-- What is sealed for a guest, and for whom. -/
def Guest.sealedFor (g : Guest) : String × Packet := (g.email, g.keyPacket)

/-- No guest was added. Roles may have changed, and invitations may have been accepted. -/
structure Fewer (s s' : Server) : Prop where
  node_eq : s'.node = s.node
  guests : (s'.guests.map Guest.sealedFor).Subperm (s.guests.map Guest.sealedFor)
  external : s'.external.Sublist s.external

theorem Fewer.refl (s : Server) : Fewer s s := ⟨rfl, List.Subperm.refl _, List.Sublist.refl _⟩

/-- Fewer and fewer. -/
theorem Fewer.trans (h : Fewer s s') (h' : Fewer s' t) : Fewer s t :=
  ⟨h'.node_eq.trans h.node_eq, h'.guests.trans h.guests, h'.external.trans h.external⟩

/-- Mapping keeps one list within another. -/
theorem subperm_map {α β : Type} (f : α → β) {as bs : List α} (h : as.Subperm bs) :
    (as.map f).Subperm (bs.map f) := by
  obtain ⟨part, hperm, hpart⟩ := h
  exact ⟨part.map f, hperm.map f, hpart.map f⟩

/-- Guests who leave make the server hold fewer. -/
theorem Fewer.of_guests (hnode : s'.node = s.node) (hexternal : s'.external = s.external)
    (hguests : s'.guests.Subperm s.guests) : Fewer s s' :=
  ⟨hnode, subperm_map _ hguests, by rw [hexternal]⟩

/-- However often a request takes somebody away, nobody is added. -/
theorem request_fewer {answer : Server → Except ProtonError (Server × Unit)}
    (hanswer : ∀ s s' u, answer s = .ok (s', u) → Fewer s s') :
    Triple (At fates s) (request answer) (fun _ t => ∃ s', Fewer s s' ∧ At fates s' t)
      (fun t => ∃ s', Fewer s s' ∧ At fates s' t) := by
  have hkeeps : ∀ {us s'}, Repeats answer s us s' → Fewer s s' := by
    intro us s' hrepeats
    apply hrepeats.keeps (fun s₁ s₂ u h hs₁ => Fewer.trans hs₁ (hanswer s₁ s₂ u h))
    exact Fewer.refl s
  apply (Triple.tell answer).weaken (fun t ht => ht)
  · rintro u t ⟨us, s', hrepeats, -, ht⟩
    exact ⟨s', hkeeps hrepeats, ht⟩
  · rintro t ⟨us, s', hrepeats, -, -, ht⟩
    exact ⟨s', hkeeps hrepeats, ht⟩

/-- Deleting an invitation adds nobody. -/
theorem fewer_deleteInvitation (id : String) (s s' : Server) (u : Unit)
    (h : Server.deleteInvitation id s = .ok (s', u)) : Fewer s s' := by
  cases h
  exact .of_guests rfl rfl (List.filter_sublist.append_right _).subperm

/-- Removing a member adds nobody. -/
theorem fewer_removeMember (id : String) (s s' : Server) (u : Unit)
    (h : Server.removeMember id s = .ok (s', u)) : Fewer s s' := by
  cases h
  exact .of_guests rfl rfl (List.filter_sublist.append_left _).subperm

/-- Deleting an external invitation adds nobody. -/
theorem fewer_deleteExternal (id : String) (s s' : Server) (u : Unit)
    (h : Server.deleteExternal id s = .ok (s', u)) : Fewer s s' := by
  cases h
  exact ⟨rfl, List.Subperm.refl _, List.filter_sublist⟩

/-- New permissions leave every guest with the packet sealed for him. -/
theorem map_setPermissions (id : String) (permissions : Int) (guests : List Guest) :
    (guests.map (setPermissions id permissions)).map Guest.sealedFor =
      guests.map Guest.sealedFor := by
  rw [List.map_map]
  congr 1
  funext g
  unfold Function.comp setPermissions
  split <;> rfl

/-- Updating an invitation adds nobody. -/
theorem fewer_updateInvitation (id : String) (permissions : Int) (s s' : Server) (u : Unit)
    (h : Server.updateInvitation id permissions s = .ok (s', u)) : Fewer s s' := by
  cases h
  refine ⟨rfl, ?_, List.Sublist.refl _⟩
  unfold Server.guests
  rw [List.map_append, List.map_append, map_setPermissions]

/-- Updating a member adds nobody. -/
theorem fewer_updateMember (id : String) (permissions : Int) (s s' : Server) (u : Unit)
    (h : Server.updateMember id permissions s = .ok (s', u)) : Fewer s s' := by
  cases h
  refine ⟨rfl, ?_, List.Sublist.refl _⟩
  unfold Server.guests
  rw [List.map_append, List.map_append, map_setPermissions]

/-- An invitation that was accepted is that of a member. -/
theorem accepted_subperm {invitations members : List Guest} {id : String}
    (hfind : invitations.find? (fun g => g.id == id) = some g) :
    (invitations.filter (fun g => g.id != id) ++ (members ++ [g])).Subperm
      (invitations ++ members) := by
  have hg : [g].Sublist (invitations.filter (fun g => g.id == id)) := by
    rw [List.singleton_sublist]
    have hid := List.find?_some hfind
    exact List.mem_filter.mpr ⟨List.mem_of_find?_eq_some hfind, hid⟩
  have hsplit : (invitations.filter (fun g => g.id == id) ++
      invitations.filter (fun g => g.id != id)).Perm invitations :=
    List.filter_append_perm _ _
  have hmoved : (invitations.filter (fun g => g.id != id) ++ (members ++ [g])).Perm
      ([g] ++ invitations.filter (fun g => g.id != id) ++ members) := by
    rw [← List.append_assoc]
    exact List.perm_append_comm.trans (by rw [List.append_assoc])
  have hkept : ([g] ++ invitations.filter (fun g => g.id != id)).Subperm invitations :=
    (hg.append_right _).subperm.trans hsplit.subperm
  exact hmoved.subperm.trans ((List.subperm_append_right members).mpr hkept)

/-- Accepting an invitation makes a member of a guest and adds nobody. -/
theorem fewer_accept (id : String) (s s' : Server) (u : Unit)
    (h : Server.accept id s = .ok (s', u)) : Fewer s s' := by
  unfold Server.accept at h
  split at h
  · next guest hfind =>
    cases h
    exact .of_guests rfl rfl (accepted_subperm hfind)
  · cases h

/-! ## Somebody is added -/

/-- Guests of some kind are put on the server. -/
structure Adding {γ : Type} (add : Server → List γ → Server) : Prop where
  nil : ∀ s, add s [] = s
  append : ∀ s gs gs', add (add s gs) gs' = add s (gs ++ gs')
  node : ∀ s gs, (add s gs).node = s.node

def Server.invited (s : Server) (posted : List Guest) : Server :=
  { s with invitations := s.invitations ++ posted }

def Server.invitedExternal (s : Server) (posted : List ExternalGuest) : Server :=
  { s with external := s.external ++ posted }

/-- An invitation adds one guest, or as many as it was sent. -/
theorem adding_invited : Adding Server.invited where
  nil s := by
    unfold Server.invited
    rw [List.append_nil]
  append s gs gs' := by
    unfold Server.invited
    rw [List.append_assoc]
  node _ _ := rfl

/-- An external invitation adds one guest, or as many as it was sent. -/
theorem adding_invitedExternal : Adding Server.invitedExternal where
  nil s := by
    unfold Server.invitedExternal
    rw [List.append_nil]
  append s gs gs' := by
    unfold Server.invitedExternal
    rw [List.append_assoc]
  node _ _ := rfl

/-- The guests that the request for one invitee has made, one each time it was carried out. -/
structure Block {γ : Type} (fates : List (Fate ProtonError)) (good : γ → Prop) (gs : List γ) :
    Prop where
  good : ∀ g ∈ gs, good g
  copies : Copies fates gs.length

theorem Block.nil {γ : Type} {good : γ → Prop} : Block fates good [] := ⟨nofun, .inl (Nat.zero_le 1)⟩

/-- A weaker condition on the guests of a block. -/
theorem Block.imp {γ : Type} {good good' : γ → Prop} {gs : List γ} (h : Block fates good gs)
    (hgood : ∀ g, good g → good' g) : Block fates good' gs :=
  ⟨fun g hg => hgood g (h.good g hg), h.copies⟩

/-- Of the guests for one invitee the last one is reported. -/
def Reports {β γ : Type} (shown : γ → β) (i : β) (gs : List γ) : Prop :=
  ∃ g, gs.getLast? = some g ∧ i = shown g

/-- An invitation that is reported was carried out. -/
theorem Reports.ne_nil {β γ : Type} {shown : γ → β} {i : β} {gs : List γ} (h : Reports shown i gs) :
    gs ≠ [] := by
  rintro rfl
  obtain ⟨g, hg, -⟩ := h
  cases hg

section

variable {β γ δ : Type} {add : Server → List γ → Server} {shareId : ShareId} {dto : γ → δ}

/-- A request that adds a guest adds one each time it is carried out. -/
theorem repeats_adds {answer : Server → Except ProtonError (Server × δ)} {good : γ → Prop}
    (hadd : Adding add)
    (hanswer : ∀ s, s.node.hasShare shareId → ∃ g, good g ∧ answer s = .ok (add s [g], dto g))
    {dtos : List δ} (hs : s.node.hasShare shareId) (h : Repeats answer s dtos t) :
    ∃ gs, (∀ g ∈ gs, good g) ∧ dtos = gs.map dto ∧ t = add s gs := by
  induction h with
  | nil => exact ⟨[], nofun, rfl, (hadd.nil _).symm⟩
  | @cons s _ _ _ _ hstep _ ih =>
      obtain ⟨g, hg, hok⟩ := hanswer s hs
      cases hok.symm.trans hstep
      obtain ⟨gs, hgs, rfl, rfl⟩ := ih (by rw [hadd.node]; exact hs)
      exact ⟨g :: gs, List.forall_mem_cons.mpr ⟨hg, hgs⟩, rfl, hadd.append s [g] gs⟩

/-- Such a request fails only if it was disturbed. -/
theorem post_spec {answer : Server → Except ProtonError (Server × δ)} {good : γ → Prop}
    (hadd : Adding add)
    (hanswer : ∀ s, s.node.hasShare shareId → ∃ g, good g ∧ answer s = .ok (add s [g], dto g))
    (hs : s.node.hasShare shareId) :
    Triple (At fates s) (request answer)
      (fun a t => ∃ gs, (Block fates good gs ∧ Reports dto a gs) ∧ At fates (add s gs) t)
      (fun t => ∃ gs, Block fates good gs ∧ Disturbed fates ∧ At fates (add s gs) t) := by
  -- The share stays where it is, so that the server goes on accepting the request.
  have haccepts : Accepts answer s := by
    apply Accepts.of_keeps (I := fun s => s.node.hasShare shareId) _ hs
    intro s hs
    obtain ⟨g, -, hok⟩ := hanswer s hs
    exact ⟨_, _, hok, by rw [hadd.node]; exact hs⟩
  apply (Triple.tell answer).weaken (fun t ht => ht)
  · -- What is reported is the guest of the last time that the line carried the request out.
    rintro a t ⟨before, s', hrepeats, hcopies, ht⟩
    obtain ⟨gs, hgood, hdtos, rfl⟩ := repeats_adds hadd hanswer hs hrepeats
    obtain ⟨first, last, rfl, rfl, hlast⟩ := List.append_eq_map_iff.mp hdtos
    obtain ⟨g, rest, rfl, rfl, hrest⟩ := List.map_eq_cons_iff.mp hlast
    cases List.map_eq_nil_iff.mp hrest
    refine ⟨first ++ [g], ⟨⟨hgood, ?_⟩, g, List.getLast?_concat, rfl⟩, ht⟩
    simpa using hcopies haccepts
  · -- All times before that count, and all times when no answer came back.
    rintro t ⟨dtos, s', hrepeats, hcopies, hreason, ht⟩
    obtain ⟨gs, hgood, rfl, rfl⟩ := repeats_adds hadd hanswer hs hrepeats
    rw [List.length_map] at hcopies
    refine ⟨gs, ⟨hgood, hcopies haccepts⟩, hreason.resolve_right ?_, ht⟩
    rintro ⟨-, e, he⟩
    obtain ⟨g, -, hok⟩ := hanswer s hs
    cases hok.symm.trans he

/-- What the loop has to know of an invitation: whom it adds for an invitee, and who cannot be
invited. -/
structure Invites (fates : List (Fate ProtonError)) (shareId : ShareId)
    (add : Server → List γ → Server) (good : String × MemberRole → γ → Prop) (shown : γ → β)
    (unable : String × MemberRole → Prop)
    (invite : String → MemberRole → Program (Online Server ProtonError) ProtonError β) : Prop where
  adding : Adding add
  spec : ∀ s, s.node.hasShare shareId → ∀ invitee,
    Triple (At fates s) (invite invitee.1 invitee.2)
      (fun i t => ∃ gs, (Block fates (good invitee) gs ∧ Reports shown i gs) ∧ At fates (add s gs) t)
      (fun t => ∃ gs, Block fates (good invitee) gs ∧ (Disturbed fates ∨ gs = [] ∧ unable invitee) ∧
        At fates (add s gs) t)

/-- Those of the invitees who are not there yet. -/
def chosen (lower : String → String) (already : List String) (invitees : List (String × MemberRole)) :
    List (String × MemberRole) :=
  invitees.filter (fun i => lower i.1 ∉ already)

/-- Why the loop stopped after these: a request was disturbed, or the next one cannot be invited. -/
def Stops (fates : List (Fate ProtonError)) (unable : String × MemberRole → Prop)
    (invitees invited : List (String × MemberRole)) (blocks : List (List γ)) : Prop :=
  Disturbed fates ∨ (∀ gs ∈ blocks, gs ≠ []) ∧ ∃ i, invited ++ [i] <+: invitees ∧ unable i

/-- One more invitee before the one at which the call stops. -/
theorem Stops.cons {unable : String × MemberRole → Prop} {i : String × MemberRole}
    {invitees invited : List (String × MemberRole)} {gs : List γ} {blocks : List (List γ)}
    (h : Stops fates unable invitees invited blocks) (hgs : gs ≠ []) :
    Stops fates unable (i :: invitees) (i :: invited) (gs :: blocks) := by
  apply h.imp_right
  rintro ⟨hblocks, j, hj, hunable⟩
  exact ⟨List.forall_mem_cons.mpr ⟨hgs, hblocks⟩, j, List.cons_prefix_cons.mpr ⟨rfl, hj⟩, hunable⟩

/-- Those who are not there yet are invited, in order, up to the first failure. -/
theorem inviteAll_spec {good : String × MemberRole → γ → Prop} {shown : γ → β}
    {unable : String × MemberRole → Prop}
    {invite : String → MemberRole → Program (Online Server ProtonError) ProtonError β}
    {already : List String} {invitees : List (String × MemberRole)}
    (h : Invites fates shareId add good shown unable invite) (hs : s.node.hasShare shareId) :
    Triple (At fates s) (inviteAll lower already invite invitees)
      (fun created t => ∃ blocks,
        (List.Forall₂ (fun gs i => Block fates (good i) gs) blocks (chosen lower already invitees) ∧
          List.Forall₂ (Reports shown) created blocks) ∧ At fates (add s blocks.flatten) t)
      (fun t => ∃ blocks invited, invited <+: chosen lower already invitees ∧
        List.Forall₂ (fun gs i => Block fates (good i) gs) blocks invited ∧
        (∀ gs ∈ blocks.dropLast, gs ≠ []) ∧
        Stops fates unable (chosen lower already invitees) invited blocks ∧
        At fates (add s blocks.flatten) t) := by
  induction invitees generalizing s with
  | nil => exact .pure fun t ht => ⟨[], ⟨.nil, .nil⟩, (h.adding.nil s).symm ▸ ht⟩
  | cons invitee invitees ih =>
      obtain ⟨email, role⟩ := invitee
      unfold inviteAll
      -- The email is among those that the source skips.
      by_cases hold : lower email ∈ already
      · have hskip : chosen lower already ((email, role) :: invitees) =
            chosen lower already invitees := List.filter_cons_of_neg (by simpa using hold)
        rw [if_pos hold, hskip]
        exact ih hs
      · have hnew : chosen lower already ((email, role) :: invitees) =
            (email, role) :: chosen lower already invitees :=
          List.filter_cons_of_pos (by simpa using hold)
        rw [if_neg hold, hnew]
        apply (h.spec s hs (email, role)).bind
        · rintro t ⟨gs, hblock, hreason, ht⟩
          -- This invitation failed: disturbed, with what it has left on the server, or refused
          -- before it was sent.
          rcases hreason with hdisturbed | ⟨rfl, hunable⟩
          · refine ⟨[gs], [(email, role)], ⟨_, rfl⟩, .cons hblock .nil, nofun, .inl hdisturbed, ?_⟩
            rwa [List.flatten_singleton]
          · exact ⟨[], [], ⟨_, rfl⟩, .nil, nofun, .inr ⟨nofun, _, ⟨_, rfl⟩, hunable⟩, ht⟩
        intro invitation
        apply Triple.intro_exists
        intro gs
        apply Triple.assume
        rintro ⟨hblock, hreports⟩
        apply (ih (s := add s gs) (by rw [h.adding.node]; exact hs)).bind
        · -- A later one failed, after this one was reported.
          rintro t ⟨blocks, invited, hinvited, hblocks, hdropped, hstops, ht⟩
          rw [h.adding.append] at ht
          refine ⟨gs :: blocks, (email, role) :: invited, List.cons_prefix_cons.mpr ⟨rfl, hinvited⟩,
            .cons hblock hblocks, ?_, hstops.cons hreports.ne_nil, ht⟩
          cases blocks with
          | nil => exact nofun
          | cons next blocks => exact List.forall_mem_cons.mpr ⟨hreports.ne_nil, hdropped⟩
        · intro created
          apply Triple.pure
          rintro t ⟨blocks, ⟨hblocks, hcreated⟩, ht⟩
          rw [h.adding.append] at ht
          exact ⟨gs :: blocks, ⟨.cons hblock hblocks, .cons hreports hcreated⟩, ht⟩

end

/-! ## Invitations -/

/-- A guest who was invited with this role. -/
structure Invited (keysOf : String → List PrivateKey) (session : ContentKey)
    (invitee : String × MemberRole) (g : Guest) : Prop where
  email_eq : g.email = invitee.1
  permissions_eq : invitee.2.toPermissions = some g.permissions
  isSealed : Sealed keysOf session g

/-- Who has no role of their own, or no key that can be encrypted to, cannot be invited. -/
def Unable (w : Choices keysOf) (invitee : String × MemberRole) : Prop :=
  invitee.2.toPermissions = none ∨
    ∀ publicKey ∈ (w.directory invitee.1).head?, ∃ e, recipientEncryptionKeyPublic publicKey = .error e

/-- The keys of an email are those of the directory, or none when the request was disturbed. -/
theorem publicKeys_spec (email : String) :
    Triple (At fates s) ((calls o keysOf w).publicKeys email)
      (fun keys t => (keys = w.directory email ∨ Disturbed fates ∧ keys = []) ∧ At fates s t)
      (fun _ => False) := by
  have hasked : Triple (At fates s) (inquiry (fun _ => .ok (w.directory email)))
      (fun keys t => keys = w.directory email ∧ At fates s t)
      (fun t => Disturbed fates ∧ At fates s t) := Triple.answered rfl
  apply hasked.attempt.bind (fun t ht => ht.elim)
  intro r
  apply Triple.pure
  intro t ht
  cases r with
  | ok keys => exact ⟨.inl ht.1, ht.2⟩
  | error e => exact ⟨.inr ⟨ht.1, rfl⟩, ht.2⟩

variable {shareId : ShareId} {inviterEmail : String} {inviterKey : PrivateKey}
  {emailMessage : Option String} {invitees : List (String × MemberRole)}

/-- An invitation can be sealed for every key that can be encrypted to. -/
theorem encryptInvitation_eq_error {symAlg : Nat} {bytes : Bytes} {publicKey : PublicKey}
    {e : ProtonError}
    (h : encryptInvitation (.v3_4 symAlg bytes) inviterKey publicKey = .error e) :
    ∃ e, recipientEncryptionKeyPublic publicKey = .error e := by
  cases hpart : recipientEncryptionKeyPublic publicKey with
  | error e' => exact ⟨e', rfl⟩
  | ok part =>
      unfold encryptInvitation ContentKey.toPacketForPublic at h
      rw [hpart] at h
      cases h

/-- The invitation is sealed for the first of the keys, and sent. -/
theorem sealInvitation_spec (hplain : ∃ symAlg bytes, session = .v3_4 symAlg bytes)
    (hs : s.node.hasShare shareId) {invitee : String × MemberRole} {permissions : Int}
    {publicKey : PublicKey} (hrole : invitee.2.toPermissions = some permissions)
    (hhead : (w.directory invitee.1).head? = some publicKey) :
    Triple (At fates s)
      (do
        let (keyPacket, keyPacketSignature) ←
          ofExcept (encryptInvitation session inviterKey publicKey)
        let invitation ← (calls o keysOf w).postInvitation shareId {
          inviterEmail := inviterEmail
          inviteeEmail := invitee.1
          permissions := permissions
          keyPacket := keyPacket
          keyPacketSignature := keyPacketSignature
          message := emailMessage }
        return invitationFromDto shareId invitation)
      (fun i t => ∃ gs, (Block fates (Invited keysOf session invitee) gs ∧
        Reports (fun g => invitationFromDto shareId g.invitation) i gs) ∧ At fates (s.invited gs) t)
      (fun t => ∃ gs, Block fates (Invited keysOf session invitee) gs ∧
        (Disturbed fates ∨ gs = [] ∧ Unable w invitee) ∧ At fates (s.invited gs) t) := by
  have hsealed : Triple (At fates s) (ofExcept (encryptInvitation session inviterKey publicKey))
      (fun packets t => encryptInvitation session inviterKey publicKey = .ok packets ∧ At fates s t)
      (fun t => ∃ gs, Block fates (Invited keysOf session invitee) gs ∧
        (Disturbed fates ∨ gs = [] ∧ Unable w invitee) ∧ At fates (s.invited gs) t) := by
    refine .check (fun packets h t ht => ⟨h, ht⟩) (fun e he t ht => ⟨[], .nil, .inr ⟨rfl, ?_⟩, ?_⟩)
    · -- A key that cannot be encrypted to is the reason, the session being one that can be sealed.
      obtain ⟨symAlg, bytes, rfl⟩ := hplain
      right
      rw [hhead]
      rintro _ ⟨⟩
      exact encryptInvitation_eq_error he
    · rwa [adding_invited.nil]
  apply hsealed.bind (fun t ht => ht)
  intro packets
  apply Triple.assume
  intro hpackets
  obtain ⟨key, hmem, rfl⟩ := w.honest _ _ hhead
  obtain ⟨keyPacket, hpacket, hpackets⟩ := Except.bind_eq_ok.mp hpackets
  cases hpackets
  rw [toPacketForPublic_eq_ok] at hpacket
  -- Whenever the request is carried out, it makes a guest of this kind.
  have hanswer : ∀ s : Server, s.node.hasShare shareId →
      ∃ g, Invited keysOf session invitee g ∧
        Server.invite w shareId ⟨inviterEmail, invitee.1, permissions, keyPacket,
          signDetachedBinaryWithContext inviterKey keyPacket sharingInviterContext,
          emailMessage⟩ s = .ok (s.invited [g], g.invitation) :=
    fun s hs => ⟨⟨w.newId s, invitee.1, inviterEmail, permissions, w.createTime, keyPacket⟩,
      ⟨rfl, hrole, key, hmem, hpacket⟩, if_pos hs⟩
  apply (post_spec adding_invited hanswer hs).bind
  · rintro t ⟨gs, hblock, hdisturbed, ht⟩
    exact ⟨gs, hblock, .inl hdisturbed, ht⟩
  · intro dto
    apply Triple.pure
    rintro t ⟨gs, ⟨hblock, g, hlast, rfl⟩, ht⟩
    exact ⟨gs, ⟨hblock, g, hlast, rfl⟩, ht⟩

/-- One invitation to a user, sealed for the keys of the email. -/
theorem inviteUser_invites (hplain : ∃ symAlg bytes, session = .v3_4 symAlg bytes) :
    Invites fates shareId Server.invited (Invited keysOf session)
      (fun g => invitationFromDto shareId g.invitation) (Unable w)
      (inviteUser (calls o keysOf w) shareId session inviterEmail inviterKey emailMessage) where
  adding := adding_invited
  spec s hs invitee := by
    -- Nobody is invited where the source gives up before the request.
    have hfailed : ∀ t, Disturbed fates ∨ Unable w invitee → At fates s t →
        ∃ gs, Block fates (Invited keysOf session invitee) gs ∧
          (Disturbed fates ∨ gs = [] ∧ Unable w invitee) ∧ At fates (s.invited gs) t := by
      intro t hreason ht
      refine ⟨[], .nil, hreason.imp_right (fun hunable => ⟨rfl, hunable⟩), ?_⟩
      rwa [adding_invited.nil]
    unfold inviteUser
    cases hrole : invitee.2.toPermissions with
    | none =>
        exact .check (fun _ h => nomatch h) (fun e he t ht => hfailed t (.inr (.inl hrole)) ht)
    | some permissions =>
        apply (publicKeys_spec invitee.1).bind (fun t ht => ht.elim)
        intro keys
        apply Triple.assume
        intro hkeys
        cases keys with
        | nil =>
            -- The directory has no key, or could not be asked.
            refine .check (fun _ h => nomatch h) (fun e he t ht => hfailed t ?_ ht)
            rcases hkeys with hkeys | ⟨hdisturbed, -⟩
            · right
              right
              rw [← hkeys]
              exact nofun
            · exact .inl hdisturbed
        | cons publicKey rest =>
            have hhead : (w.directory invitee.1).head? = some publicKey := by
              rcases hkeys with hkeys | ⟨-, hkeys⟩
              · rw [← hkeys]
                rfl
              · cases hkeys
            exact sealInvitation_spec hplain hs hrole hhead

/-- An external guest who was invited with this role. -/
structure InvitedExternal (invitee : String × MemberRole) (g : ExternalGuest) : Prop where
  email_eq : g.email = invitee.1
  permissions_eq : invitee.2.toPermissions = some g.permissions

/-- One invitation to an email without keys. -/
theorem inviteExternalUser_invites {addressId : String}
    (hplain : ∃ symAlg bytes, session = .v3_4 symAlg bytes) :
    Invites fates shareId Server.invitedExternal InvitedExternal
      (fun g => externalInvitationFromDto shareId (g.dto o.address.2.1))
      (fun invitee => invitee.2.toPermissions = none)
      (inviteExternalUser (calls o keysOf w) base64Encode shareId session inviterKey addressId
        emailMessage) where
  adding := adding_invitedExternal
  spec s hs invitee := by
    unfold inviteExternalUser
    cases hrole : invitee.2.toPermissions with
    -- A role without permissions is refused before anything is sent.
    | none =>
        refine .check (fun _ h => nomatch h) (fun e he t ht => ⟨[], .nil, .inr ⟨rfl, rfl⟩, ?_⟩)
        rwa [adding_invitedExternal.nil]
    | some permissions =>
        obtain ⟨symAlg, bytes, rfl⟩ := hplain
        show Triple _ ((calls o keysOf w).postExternalInvitation shareId _ >>= _) _ _
        have hanswer : ∀ post : InviteExternalUserRequest, post.inviteeEmail = invitee.1 →
            post.permissions = permissions → ∀ s : Server, s.node.hasShare shareId →
            ∃ g, InvitedExternal invitee g ∧ Server.inviteExternal o w shareId post s =
              .ok (s.invitedExternal [g], g.dto o.address.2.1) := by
          rintro ⟨_, _, _, _, _⟩ rfl rfl s hs
          exact ⟨⟨w.newId s, invitee.1, _, w.createTime⟩, ⟨rfl, hrole⟩, if_pos hs⟩
        apply (post_spec adding_invitedExternal (hanswer _ rfl rfl) hs).bind
        · rintro t ⟨gs, hblock, hdisturbed, ht⟩
          exact ⟨gs, hblock, .inl hdisturbed, ht⟩
        · intro dto
          apply Triple.pure
          rintro t ⟨gs, ⟨hblock, g, hlast, rfl⟩, ht⟩
          exact ⟨gs, ⟨hblock, g, hlast, rfl⟩, ht⟩

/-! ## What is asked first -/

/-- No share could be made for the node. -/
def Unshareable (o : Owned) (d : PublicLinks.Draws) (s : Server) : Prop :=
  s.node.share = none ∧ ∃ e, o.material d = .error e

/-- A node share is there afterwards, with its session. -/
theorem ensured_spec (h : Right o keysOf s) :
    Triple (At fates s) (ensured o keysOf w d)
      (fun r t => ∃ node, (Grown o s.node node ∧ HasSession o node r.1 r.2.1) ∧
        At fates { s with node := node } t)
      (fun t => ∃ node, (Grown o s.node node ∧ (Disturbed fates ∨ Unshareable o d s)) ∧
        At fates { s with node := node } t) := by
  apply Triple.component
  apply (PublicLinks.ensureNodeShare_spec _).weaken (fun t ht => ht)
  · rintro r t ⟨-, node, hgrown, hsession, ht⟩
    exact ⟨node, ⟨hgrown, hsession⟩, ht⟩
  · rintro t ⟨hreason, node, hgrown, ht⟩
    exact ⟨node, ⟨hgrown, hreason⟩, ht⟩
  · intro shareId share hshare
    obtain ⟨session, hright, -⟩ := h.shared shareId share hshare
    exact ⟨session, hright⟩

/-- What the server lists of its share. -/
theorem list_spec {α β : Type} (rows : Server → List α) (shown : α → β)
    (hhas : s.node.hasShare shareId) :
    Triple (At fates s)
      (do
        let response ← inquiry (fun s =>
          if s.node.hasShare shareId then .ok (rows s) else .error refusal)
        return response.map shown)
      (fun r t => r = (rows s).map shown ∧ At fates s t) (fun t => Disturbed fates ∧ At fates s t) := by
  have hanswer : (if s.node.hasShare shareId then .ok (rows s) else .error refusal :
      Except ProtonError (List α)) = .ok (rows s) := if_pos hhas
  have hasked : Triple (At fates s)
      (inquiry (fun s => if s.node.hasShare shareId then .ok (rows s) else .error refusal))
      (fun response t => response = rows s ∧ At fates s t)
      (fun t => Disturbed fates ∧ At fates s t) := Triple.answered hanswer
  apply hasked.bind (fun t ht => ht)
  intro response
  apply Triple.assume
  rintro rfl
  exact .pure (fun t ht => ⟨rfl, ht⟩)

/-- The invitations are listed in full. -/
theorem listShareInvitationsInner_spec (hhas : s.node.hasShare shareId) :
    Triple (At fates s) (listShareInvitationsInner (calls o keysOf w) shareId)
      (fun r t => r = (s.invitations.map Guest.invitation).map (invitationFromDto shareId) ∧
        At fates s t) (fun t => Disturbed fates ∧ At fates s t) :=
  list_spec (fun s => s.invitations.map Guest.invitation) (invitationFromDto shareId) hhas

/-- The members are listed in full. -/
theorem listShareMembersInner_spec (hhas : s.node.hasShare shareId) :
    Triple (At fates s) (listShareMembersInner (calls o keysOf w) shareId)
      (fun r t => r = (s.members.map Guest.member).map (memberFromDto shareId) ∧ At fates s t)
      (fun t => Disturbed fates ∧ At fates s t) :=
  list_spec (fun s => s.members.map Guest.member) (memberFromDto shareId) hhas

/-- The external invitations are listed in full. -/
theorem listExternalInvitationsInner_spec (hhas : s.node.hasShare shareId) :
    Triple (At fates s) (listExternalInvitationsInner (calls o keysOf w) shareId)
      (fun r t => r = (s.external.map (ExternalGuest.dto o.address.2.1)).map
        (externalInvitationFromDto shareId) ∧ At fates s t)
      (fun t => Disturbed fates ∧ At fates s t) :=
  list_spec (fun s => s.external.map (ExternalGuest.dto o.address.2.1))
    (externalInvitationFromDto shareId) hhas

/-- The emails that are listed are those of the guests. -/
theorem emails_guests (s : Server) (shareId : ShareId) :
    ((s.invitations.map Guest.invitation).map (invitationFromDto shareId)).map
        (fun i => lower i.inviteeEmail) ++
      ((s.members.map Guest.member).map (memberFromDto shareId)).map (fun m => lower m.email) =
      emails lower s.guests := by
  unfold emails Server.guests
  simp only [List.map_append, List.map_map]
  rfl

/-- The emails that are listed are those of the external guests. -/
theorem emails_external (s : Server) (shareId : ShareId) :
    ((s.external.map (ExternalGuest.dto o.address.2.1)).map (externalInvitationFromDto shareId)).map
      (fun i => lower i.inviteeEmail) = externalEmails lower s.external := by
  unfold externalEmails
  simp only [List.map_map]
  rfl

/-! ## Sharing the node -/

/-- What `share_node` has done to the server: for each of these who were invited, there are guests. -/
structure Posted (o : Owned) (keysOf : String → List PrivateKey) (fates : List (Fate ProtonError))
    (s : Server) (invited : List (String × MemberRole)) (blocks : List (List Guest)) (s' : Server) :
    Prop where
  grown : Grown o s.node s'.node
  sessions : blocks = [] ∧ invited = [] ∨ ∃ shareId session, HasSession o s'.node shareId session ∧
    List.Forall₂ (fun gs i => Block fates (Invited keysOf session i) gs) blocks invited
  invitations_eq : s'.invitations = s.invitations ++ blocks.flatten
  members_eq : s'.members = s.members
  external_eq : s'.external = s.external

/-- Nothing was posted yet. -/
theorem posted_nothing {node : PublicLinks.Server} (hgrown : Grown o s.node node) :
    Posted o keysOf fates s [] [] { s with node := node } :=
  ⟨hgrown, .inl ⟨rfl, rfl⟩, (List.append_nil _).symm, rfl, rfl⟩

/-- Why `share_node` has stopped. -/
def Hindered (o : Owned) (w : Choices keysOf) (d : PublicLinks.Draws) (fates : List (Fate ProtonError))
    (s : Server) (invitees invited : List (String × MemberRole)) (blocks : List (List Guest)) : Prop :=
  Stops fates (Unable w) invitees invited blocks ∨ blocks = [] ∧ Unshareable o d s

/-- Those who are neither invited nor members are invited, in order, up to the first failure. -/
theorem shareNode_spec (h : Right o keysOf s) :
    Triple (At fates s)
      (shareNode lower (calls o keysOf w) (ensured o keysOf w d) invitees emailMessage)
      (fun created t => ∃ shareId blocks s',
        Posted o keysOf fates s (chosen lower (emails lower s.guests) invitees) blocks s' ∧
        s'.node.hasShare shareId ∧
        List.Forall₂ (Reports (fun g => invitationFromDto shareId g.invitation)) created blocks ∧
        At fates s' t)
      (fun t => ∃ invited blocks s', invited <+: chosen lower (emails lower s.guests) invitees ∧
        Posted o keysOf fates s invited blocks s' ∧ (∀ gs ∈ blocks.dropLast, gs ≠ []) ∧
        Hindered o w d fates s (chosen lower (emails lower s.guests) invitees) invited blocks ∧
        At fates s' t) := by
  unfold shareNode
  -- Whatever fails before the first invitation leaves nothing but the share.
  have hnothing : ∀ {node t}, Grown o s.node node → Disturbed fates ∨ Unshareable o d s →
      At fates { s with node := node } t →
      ∃ invited blocks s', invited <+: chosen lower (emails lower s.guests) invitees ∧
        Posted o keysOf fates s invited blocks s' ∧ (∀ gs ∈ blocks.dropLast, gs ≠ []) ∧
        Hindered o w d fates s (chosen lower (emails lower s.guests) invitees) invited blocks ∧
        At fates s' t :=
    fun hgrown hreason ht => ⟨[], [], _, ⟨_, rfl⟩, posted_nothing hgrown, nofun,
      hreason.imp .inl (fun hunshareable => ⟨rfl, hunshareable⟩), ht⟩
  apply (ensured_spec h).bind (fun t ⟨node, hnode, ht⟩ => hnothing hnode.1 hnode.2 ht)
  rintro ⟨shareId, session, inviterEmail, inviterKey⟩
  apply Triple.intro_exists
  intro node
  apply Triple.assume
  rintro ⟨hgrown, hsession⟩
  dsimp only at hsession ⊢
  have hhas := hsession.hasShare
  have hfailed := fun t (ht : Disturbed fates ∧ At fates { s with node := node } t) =>
    hnothing hgrown (.inl ht.1) ht.2
  apply (listShareInvitationsInner_spec hhas).bind hfailed
  intro existingInvites
  apply Triple.assume
  rintro rfl
  apply (listShareMembersInner_spec hhas).bind hfailed
  intro existingMembers
  apply Triple.assume
  rintro rfl
  rw [emails_guests]
  have hinvites : Invites fates shareId Server.invited (Invited keysOf session)
      (fun g => invitationFromDto shareId g.invitation) (Unable w)
      (inviteUser (calls o keysOf w) shareId session inviterEmail inviterKey emailMessage) :=
    inviteUser_invites hsession.plain
  -- Neither members nor those invited already are invited again.
  apply (inviteAll_spec hinvites hhas).weaken (fun t ht => ht)
  · rintro created t ⟨blocks, ⟨hblocks, hcreated⟩, ht⟩
    exact ⟨shareId, blocks, Server.invited { s with node := node } blocks.flatten,
      ⟨hgrown, .inr ⟨shareId, session, hsession, hblocks⟩, rfl, rfl, rfl⟩, hhas, hcreated, ht⟩
  · rintro t ⟨blocks, invited, hinvited, hblocks, hdropped, hstops, ht⟩
    exact ⟨invited, blocks, Server.invited { s with node := node } blocks.flatten, hinvited,
      ⟨hgrown, .inr ⟨shareId, session, hsession, hblocks⟩, rfl, rfl, rfl⟩, hdropped, .inl hstops, ht⟩

/-- What `invite_external_users` has done to the server. -/
structure PostedExternal (o : Owned) (fates : List (Fate ProtonError)) (s : Server)
    (invited : List (String × MemberRole)) (blocks : List (List ExternalGuest)) (s' : Server) :
    Prop where
  grown : Grown o s.node s'.node
  invited : List.Forall₂ (fun gs i => Block fates (InvitedExternal i) gs) blocks invited
  invitations_eq : s'.invitations = s.invitations
  members_eq : s'.members = s.members
  external_eq : s'.external = s.external ++ blocks.flatten

/-- Those who are nothing yet are invited, in order, up to the first failure. -/
theorem inviteExternalUsers_spec (h : Right o keysOf s) :
    Triple (At fates s)
      (inviteExternalUsers lower (calls o keysOf w) base64Encode (ensured o keysOf w d) invitees
        emailMessage)
      (fun _ t => ∃ invited blocks s', invited <+:
          chosen lower (externalEmails lower s.external ++ emails lower s.guests) invitees ∧
        PostedExternal o fates s invited blocks s' ∧ At fates s' t)
      (fun t => ∃ invited blocks s', invited <+:
          chosen lower (externalEmails lower s.external ++ emails lower s.guests) invitees ∧
        PostedExternal o fates s invited blocks s' ∧ At fates s' t) := by
  unfold inviteExternalUsers
  -- Whatever fails before the first invitation leaves nothing but the share.
  have hnothing : ∀ {node t}, Grown o s.node node → At fates { s with node := node } t →
      ∃ invited blocks s', invited <+:
          chosen lower (externalEmails lower s.external ++ emails lower s.guests) invitees ∧
        PostedExternal o fates s invited blocks s' ∧ At fates s' t :=
    fun {node} _ hgrown ht => ⟨[], [], { s with node := node }, ⟨_, rfl⟩,
      ⟨hgrown, .nil, rfl, rfl, (List.append_nil _).symm⟩, ht⟩
  apply (ensured_spec h).bind (fun t ⟨node, hnode, ht⟩ => hnothing hnode.1 ht)
  rintro ⟨shareId, session, inviterEmail, inviterKey⟩
  apply Triple.intro_exists
  intro node
  apply Triple.assume
  rintro ⟨hgrown, hsession⟩
  dsimp only at hsession ⊢
  have hhas := hsession.hasShare
  have hfailed := fun t (ht : Disturbed fates ∧ At fates { s with node := node } t) =>
    hnothing hgrown ht.2
  have haddress : Triple (At fates { s with node := node }) (calls o keysOf w).membershipAddress
      (fun address t => address = o.address ∧ At fates { s with node := node } t)
      (fun t => Disturbed fates ∧ At fates { s with node := node } t) := by
    show Triple _ (inquiry (fun _ => .ok o.address)) _ _
    exact Triple.answered rfl
  -- The address and the three lists, each of which may be disturbed.
  apply haddress.bind hfailed
  intro address
  apply Triple.assume
  rintro rfl
  apply (listExternalInvitationsInner_spec hhas).bind hfailed
  intro external
  apply Triple.assume
  rintro rfl
  apply (listShareInvitationsInner_spec hhas).bind hfailed
  intro invites
  apply Triple.assume
  rintro rfl
  apply (listShareMembersInner_spec hhas).bind hfailed
  intro members
  apply Triple.assume
  rintro rfl
  rw [emails_guests, emails_external]
  apply (inviteAll_spec (inviteExternalUser_invites hsession.plain) hhas).weaken
    (fun t ht => ht)
  · rintro created t ⟨blocks, ⟨hblocks, -⟩, ht⟩
    exact ⟨_, blocks, Server.invitedExternal { s with node := node } blocks.flatten,
      List.prefix_refl _, ⟨hgrown, hblocks, rfl, rfl, rfl⟩, ht⟩
  · rintro t ⟨blocks, invited, hinvited, hblocks, -, -, ht⟩
    exact ⟨invited, blocks, Server.invitedExternal { s with node := node } blocks.flatten, hinvited,
      ⟨hgrown, hblocks, rfl, rfl, rfl⟩, ht⟩

end

end Recipients.Sharing

end ProtonDrive
