import ProtonDrive.Lib.Forall2
import ProtonDrive.Drive.EnsureShare

/-!
# Calls for public links

What the calls of an owner that make a node's public links, change and read them and take them away do
to the list of the links, whatever becomes of the requests.

* `sealPublicLinkSettings_spec` — what is sealed for a link.
* `Follows.posts` — a request for a link makes one each time it is carried out.
* `createPublicLink_spec`, `getPublicLink_spec`, `updatePublicLink_spec`, `removePublicLink_spec` — the
  calls.
-/

namespace ProtonDrive

namespace Recipients.PublicLinks

open OpenPgp (Bytes)
open Bookmarks (Text asBytes nonEmpty publicLinkPasswordLen openCredentials)
open Program (ofExcept attempt request inquiry Triple Accounts)
open Online (At)

/-! ## Settings -/

/-- An empty password has become none already. -/
theorem nonEmpty_nonEmpty (custom : Option Text) : nonEmpty (nonEmpty custom) = nonEmpty custom := by
  unfold nonEmpty
  rw [Option.filter_filter]
  simp

/-- Only viewers and editors have permissions of a public link. -/
theorem publicLinkPermissions_eq_ok {role : MemberRole} {permissions : Int}
    (h : publicLinkPermissions role = .ok permissions) :
    role.toPermissions = some permissions ∧ (role = .viewer ∨ role = .editor) := by
  unfold publicLinkPermissions at h
  split at h
  · next hrole =>
    obtain ⟨hfor, h⟩ := Except.guard_eq_ok.mp h
    cases h
    exact ⟨hrole, hfor⟩
  · cases h

section

variable {o : Owned} {p : Srp.Primitives} {crash : String} {replaced : Bytes → Text} {w : Choices}
  {d : Draws} {s : Server} {fates : List (Fate ProtonError)} {session : ContentKey}
  {u : ShareUrl} {l : Link} {links : List Link}

/-- What the sealed settings are. -/
structure SealedFor (o : Owned) (p : Srp.Primitives) (crash : String) (session : ContentKey)
    (permissions : Int) (generated : Text) (custom : Option Text) (settings : PublicLinkSettingsDto) :
    Prop where
  permissions_eq : settings.permissions = permissions
  flags_eq : settings.flags = if (nonEmpty custom).isSome then 3 else 2
  isSealed : Sealed p crash o.moduli o.address.2.2 session (generated ++ (nonEmpty custom).getD [])
    settings

/-- What cannot be sealed for one session key, cannot be for any. -/
theorem unsealable_of_error {fullPassword : Text} {signedModulus : String} {e : ProtonError}
    (hmodulus : o.moduli w.modulusId = some signedModulus)
    (hplain : ∃ symAlg bytes, session = .v3_4 symAlg bytes)
    (h : sealSecrets p crash d fullPassword signedModulus session o.address.2.2 = .error e) :
    Unsealable o p crash d w fullPassword := by
  rintro signedModulus' hmodulus' session' ⟨keyPacket, armoredPassword, verifier⟩ hok
  cases hmodulus.symm.trans hmodulus'
  obtain ⟨⟨salted, hsalted, -⟩, hencrypt, hverifier⟩ := sealSecrets_eq_ok.mp hok
  obtain ⟨symAlg, bytes, rfl⟩ := hplain
  have hsealed : sealSecrets p crash d fullPassword signedModulus (.v3_4 symAlg bytes) o.address.2.2 =
      .ok (⟨salted, symAlg, bytes⟩, armoredPassword, verifier) :=
    sealSecrets_eq_ok.mpr ⟨⟨salted, hsalted, rfl⟩, hencrypt, hverifier⟩
  cases h.symm.trans hsealed

/-- The settings are sealed for the password, or a request was disturbed. -/
theorem sealPublicLinkSettings_spec (permissions : Int) (generated : Text) (custom : Option Text)
    (hplain : ∃ symAlg bytes, session = .v3_4 symAlg bytes) :
    Triple (At fates s) (sealPublicLinkSettings (calls o w) p crash d permissions generated custom
        session o.address.2.2)
      (fun settings t =>
        SealedFor o p crash session permissions generated custom settings ∧ At fates s t)
      (fun t => (Disturbed fates ∨
        Unsealable o p crash d w (generated ++ (nonEmpty custom).getD [])) ∧ At fates s t) := by
  -- The modulus that is answered is one of the server's, signed.
  have hmoduli : ∀ modulus, Server.modulus o w = .ok modulus →
      o.moduli w.modulusId = some modulus.modulus ∧ modulus.modulusId = w.modulusId := by
    intro modulus h
    unfold Server.modulus at h
    split at h
    · next hsome =>
      cases h
      exact ⟨hsome, rfl⟩
    · cases h
  unfold sealPublicLinkSettings calls
  dsimp only
  refine .bind (Triple.ask _) ?_ (fun modulus => .assume fun hmodulus => ?_)
  · rintro t ⟨hreason, ht⟩
    refine ⟨hreason.imp_right ?_, ht⟩
    rintro ⟨e, he⟩ signedModulus hsome
    simp [Server.modulus, hsome] at he
  obtain ⟨hmodulus, hid⟩ := hmoduli modulus hmodulus
  -- The secrets are computed without a request, and may fail.
  have hsecrets : Triple (At fates s)
      (ofExcept (sealSecrets p crash d (generated ++ (nonEmpty custom).getD []) modulus.modulus session
        o.address.2.2))
      (fun secrets t => sealSecrets p crash d (generated ++ (nonEmpty custom).getD [])
        modulus.modulus session o.address.2.2 = .ok secrets ∧ At fates s t)
      (fun t => (Disturbed fates ∨
        Unsealable o p crash d w (generated ++ (nonEmpty custom).getD [])) ∧ At fates s t) :=
    .check (fun secrets h t ht => ⟨h, ht⟩)
      (fun e he t ht => ⟨.inr (unsealable_of_error hmodulus hplain he), ht⟩)
  apply hsecrets.bind (fun t ht => ht)
  intro secrets
  apply Triple.assume
  intro hsecrets
  apply Triple.pure
  intro t ht
  refine ⟨⟨rfl, rfl, ⟨d, modulus.modulus, ?_, rfl, hsecrets⟩, ?_⟩, ht⟩
  · show o.moduli modulus.modulusId = _
    rw [hid]
    exact hmodulus
  · dsimp only
    split
    · exact .inr rfl
    · exact .inl rfl

/-! ## Lists that follow -/

variable {shareId : ShareId}

/-- The links are in the order of the URLs. -/
theorem Shows.map_id {us : List ShareUrl} {ls : List Link}
    (h : List.Forall₂ (Shows o p crash shareId session) us ls) :
    us.map ShareUrl.id = ls.map Link.id := by
  induction h with
  | nil => rfl
  | cons hfirst _ ih => rw [List.map_cons, List.map_cons, hfirst.id_eq, ih]

/-- A share that is created changes no link. -/
theorem Follows.grown {s' : Server} (h : Follows o p crash s links) (hgrown : Grown o s s') :
    Follows o p crash s' links := by
  cases hgrown with
  | same => exact h
  | made hnone hright _ =>
      obtain ⟨hurls, rfl⟩ := h.unshared hnone
      refine ⟨h.nodup, ?_, nofun⟩
      intro shareId share hshare
      cases hshare
      exact ⟨_, hright, by rw [hurls]; exact .nil⟩

/-- The session key of the share is the one that its links were sealed for. -/
theorem Follows.shows (h : Follows o p crash s links) (hsession : HasSession o s shareId session) :
    List.Forall₂ (Shows o p crash shareId session) s.urls links := by
  obtain ⟨share, hshare, hright⟩ := hsession
  obtain ⟨session', hright', hshows⟩ := h.shared _ _ hshare
  cases hright.recovers.symm.trans hright'.recovers
  exact hshows

/-- URLs that show the links, without a repeated id. -/
theorem follows_of_shows {urls : List ShareUrl} (hnodup : (links.map Link.id).Nodup)
    (hsession : HasSession o s shareId session)
    (hshows : List.Forall₂ (Shows o p crash shareId session) urls links) :
    Follows o p crash { s with urls := urls } links := by
  obtain ⟨share, hshare, hright⟩ := hsession
  refine ⟨hnodup, ?_, ?_⟩
  · intro shareId' share' hshare'
    cases hshare.symm.trans hshare'
    exact ⟨session, hright, hshows⟩
  · intro hnone
    cases hshare.symm.trans hnone

/-- A new URL is one more link, at its place. -/
theorem Follows.insert (h : Follows o p crash s links) (hsession : HasSession o s shareId session)
    (hnew : u.id ∉ s.urls.map ShareUrl.id) (hu : Shows o p crash shareId session u l) (place : Nat) :
    book.step links (.created place l) = some (links.take place ++ l :: links.drop place) ∧
      Follows o p crash { s with urls := s.urls.take place ++ u :: s.urls.drop place }
        (links.take place ++ l :: links.drop place) := by
  have hshows := h.shows hsession
  rw [Shows.map_id hshows, hu.id_eq] at hnew
  refine ⟨if_neg hnew, follows_of_shows ?_ hsession ?_⟩
  · have hperm : (links.take place ++ l :: links.drop place).Perm (l :: links) := by
      have hmiddle : (links.take place ++ l :: links.drop place).Perm
          (l :: (links.take place ++ links.drop place)) := List.perm_middle
      rwa [List.take_append_drop] at hmiddle
    rw [(hperm.map Link.id).nodup_iff, List.map_cons, List.nodup_cons]
    exact ⟨hnew, h.nodup⟩
  · exact List.rel_append (List.forall₂_take place hshows)
      (.cons hu (List.forall₂_drop place hshows))

/-- A URL with new settings is the changed link. -/
theorem Follows.change {put : UpdatePublicLinkRequest} {new : Link}
    (h : Follows o p crash s (l :: links)) (hsession : HasSession o s shareId session)
    (hchanges : l.Changes new)
    (hnew : ∀ u, Shows o p crash shareId session u l → Shows o p crash shareId session
      { u with expirationTime := put.expirationTime, settings := put.settings } new) :
    book.step (l :: links) (.updated new) = some (new :: links) ∧
      Follows o p crash { s with urls := s.urls.map (Server.changeUrl l.id put) }
        (new :: links) := by
  refine ⟨if_pos hchanges, ?_⟩
  have hshows := h.shows hsession
  have hnodup := h.nodup
  rw [List.map_cons, List.nodup_cons] at hnodup
  generalize s.urls = urls at hshows
  cases hshows with
  | @cons first _ others _ hfirst hrest =>
      apply follows_of_shows _ hsession
      · refine .cons ?_ ?_
        · unfold Server.changeUrl
          rw [if_pos hfirst.id_eq]
          exact hnew _ hfirst
        · -- the other links have other ids
          have hother : ∀ u ∈ others, u.id ≠ l.id := by
            intro u hu heq
            apply hnodup.1
            rw [← Shows.map_id hrest, ← heq]
            exact List.mem_map_of_mem hu
          rw [List.forall₂_map_left_iff]
          refine ((List.forall₂_and_left _ _).mpr ⟨hother, hrest⟩).imp ?_
          rintro u l' ⟨hne, hu⟩
          unfold Server.changeUrl
          rwa [if_neg hne]
      · rw [List.map_cons, hchanges.1]
        exact List.nodup_cons.mpr hnodup

/-- A URL that is deleted is a link less. -/
theorem Follows.remove (h : Follows o p crash s links) (hsession : HasSession o s shareId session)
    {id : String} (hid : id ∈ s.urls.map ShareUrl.id) :
    book.step links (.removed id) = some (links.filter (fun link => link.id != id)) ∧
      Follows o p crash { s with urls := s.urls.filter (fun u => u.id != id) }
        (links.filter (fun link => link.id != id)) := by
  have hshows := h.shows hsession
  rw [Shows.map_id hshows] at hid
  refine ⟨if_pos hid, follows_of_shows (h.nodup.sublist (List.filter_sublist.map Link.id)) hsession ?_⟩
  apply List.rel_filter _ hshows
  intro u l hu
  simp only [hu.id_eq]

/-- However often the request for a link is carried out, each time it makes one. -/
theorem Follows.posts {post : CreatePublicLinkRequest} {mk : NewUrl → Link} {t : Server}
    {dtos : List ShareUrlDto} (h : Follows o p crash s links)
    (hsession : HasSession o s shareId session)
    (hmk : ∀ new, Shows o p crash shareId session (Server.makeUrl new post) (mk new))
    (hposts : Repeats (Server.createUrl w shareId post) s dtos t) :
    ∃ news : List NewUrl, dtos = news.map (fun new => (Server.makeUrl new post).dto) ∧
      ∃ links', book.exec links (news.map (fun new => .created new.place (mk new))) = some links' ∧
        Follows o p crash t links' := by
  induction hposts generalizing links with
  | nil => exact ⟨[], rfl, links, rfl, h⟩
  | @cons s _ _ _ _ hanswer _ ih =>
      obtain ⟨-, hanswer⟩ := Except.guard_eq_ok.mp hanswer
      cases hanswer
      obtain ⟨hstep, hfollows⟩ := h.insert hsession (w.fresh s.urls) (hmk _) (w.newUrl s.urls).place
      obtain ⟨news, rfl, links', hexec, ht⟩ := ih hfollows hsession
      exact ⟨w.newUrl s.urls :: news, rfl, links', (book.exec_cons_iff).mpr ⟨_, hstep, hexec⟩, ht⟩

/-- An update that arrives again changes nothing more. -/
theorem settles_updateUrl (shareId : ShareId) (id : String) (put : UpdatePublicLinkRequest)
    (s : Server) : Settles (Server.updateUrl shareId id put) s := by
  intro t a ht u b hu
  obtain ⟨-, ht⟩ := Except.guard_eq_ok.mp ht
  obtain ⟨-, hu⟩ := Except.guard_eq_ok.mp hu
  cases ht
  cases hu
  refine ⟨?_, rfl⟩
  rw [List.map_map]
  congr 1
  apply List.map_congr_left
  intro u _
  unfold Function.comp Server.changeUrl
  split <;> simp [*]

/-- A delete that arrives again changes nothing more. -/
theorem settles_deleteUrl (shareId : ShareId) (id : String) (s : Server) :
    Settles (Server.deleteUrl shareId id) s := by
  intro t a ht u b hu
  obtain ⟨-, ht⟩ := Except.guard_eq_ok.mp ht
  obtain ⟨⟨-, hmem⟩, -⟩ := Except.guard_eq_ok.mp hu
  cases ht
  obtain ⟨v, hv, hid⟩ := List.mem_map.mp hmem
  have hne := (List.mem_filter.mp hv).2
  rw [hid] at hne
  simp at hne

/-! ## One call -/

/-- The owner's keys open the password of the link. -/
theorem decrypt_password
    (hsealed : Sealed p crash o.moduli o.address.2.2 session l.password u.settings) :
    decryptArmoredWithKeys u.settings.password o.ownKeys = .ok (asBytes l.password) := by
  obtain ⟨d, signedModulus, -, -, hsecrets⟩ := hsealed.secrets
  obtain ⟨-, hencrypt, -⟩ := sealSecrets_eq_ok.mp hsecrets
  exact decryptArmoredWithKeys_eq_ok o.mem_ownKeys
    (decryptArmoredMessage_of_mem hencrypt List.mem_cons_self)

/-- A valid URL is not empty. -/
theorem ValidUrl.ne_nil {publicUrl : Text} (h : ValidUrl publicUrl) : publicUrl.isEmpty = false := by
  obtain ⟨-, start, token, rfl, htoken, -⟩ := h
  cases token with
  | nil => exact absurd rfl htoken
  | cons c token => simp

/-- The owner gets the URL and the custom password back, if the keys are at hand. -/
theorem recoverPublicLinkSecret_spec (hu : Shows o p crash shareId session u l) :
    Triple (At fates s) (recoverPublicLinkSecret (calls o w) replaced u.dto)
      (fun r t => (r = (some l.url, l.custom) ∨ Disturbed fates ∧ r = (none, none)) ∧ At fates s t)
      (fun _ => False) := by
  unfold recoverPublicLinkSecret calls ShareUrl.dto
  dsimp only
  refine .bind (Triple.ask _).attempt (fun t ht => ht.elim) (fun r => ?_)
  cases r with
  -- A key that could not be asked for leaves the link without its secret.
  | error e =>
      apply Triple.pure
      rintro t ⟨hreason, ht⟩
      rcases hreason with hdisturbed | ⟨e, he⟩
      · exact ⟨.inr ⟨hdisturbed, rfl⟩, ht⟩
      · cases he
  | ok addressKeys =>
      refine .assume fun hkeys => ?_
      cases hkeys
      dsimp only
      -- The owner's keys open the password, which is split into the generated one and the custom
      -- one.
      rw [decrypt_password hu.isSealed]
      dsimp only
      rw [Bookmarks.fromUtf8Lossy_asBytes]
      unfold Link.password
      rw [Bookmarks.splitLinkPassword_of_length _ l.length_secret, l.nonEmpty_custom,
        hu.publicUrl_eq, l.validUrl.ne_nil]
      exact .pure fun t ht => ⟨.inl rfl, ht⟩

/-- What a URL is shown as. -/
theorem ShareUrl.publicLink_eq (hu : Shows o p crash shareId session u l) (url custom : Option Text) :
    ({ shareId := shareId, publicLinkId := u.dto.shareUrlId, url := url,
       role := .fromPermissions u.dto.permissions, creationTime := u.dto.createTime,
       expirationTime := u.dto.expirationTime, hasCustomPassword := u.dto.flags == 3,
       customPassword := custom } : PublicLink) =
      { l.shown l.createTime with url := url, customPassword := custom } := by
  unfold ShareUrl.dto Link.shown
  rw [hu.shareId_eq, hu.id_eq, hu.createTime_eq, hu.expirationTime_eq, hu.flags_eq,
    MemberRole.fromPermissions_toPermissions hu.permissions_eq]
  cases l.custom <;> rfl

/-- The share of the node, if it has one. -/
theorem nodeShareId_spec (fates : List (Fate ProtonError)) (s : Server) :
    Triple (At fates s) (nodeShareId (calls o w) o.uid)
      (fun r t => r = s.share.map Prod.fst ∧ At fates s t)
      (fun t => Disturbed fates ∧ At fates s t) := by
  have hdetails : Triple (At fates s) (inquiry (fun s => .ok (s.details o)))
      (fun details t => details = s.details o ∧ At fates s t)
      (fun t => Disturbed fates ∧ At fates s t) := Triple.answered rfl
  apply hdetails.bind (fun t ht => ht)
  intro details
  apply Triple.assume
  rintro rfl
  apply Triple.pure
  exact fun t ht => ⟨by simp [Server.details, o.link_id], ht⟩

/-- The first link is reported, without its secret only if the line failed. -/
theorem getPublicLink_spec (h : Follows o p crash s links) :
    Triple (At fates s) (getPublicLink (calls o w) replaced o.uid)
      (fun r t => (r = links.head?.map (fun l => l.shown l.createTime) ∨
          Disturbed fates ∧ r = links.head?.map Link.hidden) ∧ At fates s t)
      (fun t => Disturbed fates ∧ At fates s t) := by
  unfold getPublicLink
  apply (nodeShareId_spec fates s).bind (fun t ht => ht)
  intro asked
  apply Triple.assume
  rintro rfl
  cases hshare : s.share with
  -- Without a share there is no link.
  | none =>
      obtain ⟨-, rfl⟩ := h.unshared hshare
      exact .pure fun t ht => ⟨.inl rfl, ht⟩
  | some made =>
      obtain ⟨shareId, share⟩ := made
      obtain ⟨session, hright, hshows⟩ := h.shared _ _ hshare
      have hurls : Server.getUrls shareId s = .ok (s.urls.map ShareUrl.dto) :=
        if_pos (by rw [Server.hasShare, hshare]; rfl)
      unfold calls
      dsimp only [Option.map_some]
      refine .bind (Triple.answered hurls) (fun t ht => ht) (fun urls => .assume fun heq => ?_)
      subst heq
      generalize s.urls = us at hshows
      cases hshows with
      | nil => exact .pure fun t ht => ⟨.inl rfl, ht⟩
      -- The source shows the first of the URLs.
      | cons hfirst _ =>
          rw [List.map_cons]
          apply (recoverPublicLinkSecret_spec hfirst).bind (fun t ht => ht.elim)
          intro secret
          apply Triple.pure
          rintro t ⟨hsecret, ht⟩
          refine ⟨?_, ht⟩
          rw [ShareUrl.publicLink_eq hfirst]
          rcases hsecret with rfl | ⟨hdisturbed, rfl⟩
          · exact .inl rfl
          · exact .inr ⟨hdisturbed, rfl⟩

/-- The generated password is what the link's URL ends with. -/
theorem generatedPassword_shown (l : Link) :
    generatedPassword (l.shown l.createTime) = some l.secret := by
  unfold generatedPassword Link.shown Link.url linkUrl
  rw [Option.bind_some, Bookmarks.splitOnce_append l.validUrl.1]
  simp [Option.filter, l.length_secret]

/-! ### Making a link -/

/-- Other roles are refused. -/
theorem publicLinkPermissions_eq_error {role : MemberRole} {e : ProtonError}
    (h : publicLinkPermissions role = .error e) : ¬ (role = .viewer ∨ role = .editor) := by
  rintro (rfl | rfl) <;> cases h

/-- The flags say whether there is a custom password. -/
theorem flags_eq_three (custom : Bool) : ((if custom then 3 else 2 : Int) == 3) = custom := by
  cases custom <;> rfl

/-- The share of a node that has links is right. -/
theorem Follows.shareRight (h : Follows o p crash s links) (shareId : ShareId)
    (share : CreateShareRequest) (hshare : s.share = some (shareId, share)) :
    ∃ session, ShareRight o.nodeKey share session := by
  obtain ⟨session, hright, -⟩ := h.shared shareId share hshare
  exact ⟨session, hright⟩

/-- The link that a user asks for, as the server makes it. -/
def newLink (shareId : ShareId) (raw : Vector UInt8 12) (role : MemberRole) (custom : Option Text)
    (expirationTime : Option Int) (hrole : role = .viewer ∨ role = .editor) (new : NewUrl) : Link where
  id := new.id
  shareId := shareId
  publicUrl := new.publicUrl
  secret := generatePublicLinkPassword raw
  custom := nonEmpty custom
  role := role
  createTime := new.createTime
  expirationTime := expirationTime
  validUrl := new.validUrl
  length_secret := length_generatePublicLinkPassword raw
  nonEmpty_custom := nonEmpty_nonEmpty custom
  forLinks := hrole

/-- A URL that was just created shows the link that was asked for. -/
theorem shows_newLink {permissions : Int} {custom : Option Text} {raw : Vector UInt8 12}
    {role : MemberRole} {settings : PublicLinkSettingsDto} (creatorEmail : String)
    (expirationTime : Option Int) (hrole : role = .viewer ∨ role = .editor)
    (hpermissions : role.toPermissions = some permissions)
    (hsettings : SealedFor o p crash session permissions (generatePublicLinkPassword raw) custom
      settings) (new : NewUrl) :
    Shows o p crash shareId session (Server.makeUrl new ⟨creatorEmail, expirationTime, settings⟩)
      (newLink shareId raw role custom expirationTime hrole new) :=
  ⟨rfl, rfl, rfl, rfl, rfl, hpermissions.trans (congrArg some hsettings.permissions_eq.symm),
    hsettings.flags_eq, hsettings.isSealed⟩

/-- Each time the request is carried out it makes a link, and the asker hears of the last one. -/
theorem createUrl_spec {post : CreatePublicLinkRequest} {mk : NewUrl → Link}
    (h : Follows o p crash s links) (hsession : HasSession o s shareId session)
    (hmk : ∀ new, Shows o p crash shareId session (Server.makeUrl new post) (mk new)) :
    Triple (At fates s) (request (Server.createUrl w shareId post))
      (fun dto t => ∃ (news : List NewUrl) (last : NewUrl), news.getLast? = some last ∧
        dto = (Server.makeUrl last post).dto ∧ Copies fates news.length ∧
        Accounts book (Follows o p crash) fates links
          (fun events => events = news.map (fun new => .created new.place (mk new))) t)
      (fun t => Disturbed fates ∧ ∃ news : List NewUrl, Copies fates news.length ∧
        Accounts book (Follows o p crash) fates links
          (fun events => events = news.map (fun new => .created new.place (mk new))) t) := by
  have hhas : s.hasShare shareId := hsession.hasShare
  -- The share stays where it is, so that the server goes on accepting the request.
  have haccepts : Accepts (Server.createUrl w shareId post) s :=
    Accepts.of_keeps (I := fun s => s.hasShare shareId) (fun s hs => ⟨_, _, if_pos hs, hs⟩) hhas
  apply (Triple.tell (Server.createUrl w shareId post)).weaken (fun t ht => ht)
  · -- The answer is that of the last time that the line carried the request out.
    rintro dto t ⟨before, s', hrepeats, hcopies, ht⟩
    obtain ⟨news, hnews, links', hexec, hs'⟩ := h.posts hsession hmk hrepeats
    obtain ⟨first, last, rfl, rfl, hlast⟩ := List.append_eq_map_iff.mp hnews
    obtain ⟨last, rest, rfl, rfl, hrest⟩ := List.map_eq_cons_iff.mp hlast
    cases List.map_eq_nil_iff.mp hrest
    refine ⟨first ++ [last], last, List.getLast?_concat, rfl, ?_, _, links', s', rfl, hexec, hs', ht⟩
    simpa using hcopies haccepts
  · -- No answer came back, whatever the line has carried out.
    rintro t ⟨answers, s', hrepeats, hcopies, hreason, ht⟩
    obtain ⟨news, rfl, links', hexec, hs'⟩ := h.posts hsession hmk hrepeats
    rw [List.length_map] at hcopies
    refine ⟨hreason.resolve_right ?_, news, hcopies haccepts, _, links', s', rfl, hexec, hs', ht⟩
    rintro ⟨-, e, he⟩
    unfold Server.createUrl at he
    rw [if_pos hhas] at he
    cases he

/-- The links of one `POST`, as many as the line has carried out. -/
theorem explains_newLinks {step : Step} {role : MemberRole} {custom : Option Text}
    {expirationTime : Option Int} {now : Int} {news : List NewUrl}
    {outcome : Except ProtonError (Option PublicLink)}
    (hcall : step.call = .create role custom expirationTime now) (shareId : ShareId)
    (hrole : role = .viewer ∨ role = .editor) (hcopies : Copies step.fates news.length)
    (houtcome : (∃ last, news.getLast? = some last ∧ outcome = .ok (some
        ((newLink shareId step.draws.password role custom expirationTime hrole last).shown now))) ∨
      Disturbed step.fates ∧ ∃ e, outcome = .error e) :
    Explains o p crash links step outcome (news.map (fun new => .created new.place
      (newLink shareId step.draws.password role custom expirationTime hrole new))) := by
  let made (new : NewUrl) : Nat × Link :=
    (new.place, newLink shareId step.draws.password role custom expirationTime hrole new)
  -- Every link that was made is the one that was asked for.
  have hasked : ∀ m ∈ news.map made, m.2.Asked role custom expirationTime ∧
      m.2.secret = generatePublicLinkPassword step.draws.password := by
    intro m hm
    obtain ⟨new, -, rfl⟩ := List.mem_map.mp hm
    exact ⟨⟨rfl, rfl, rfl⟩, rfl⟩
  have hexplains : Explains o p crash links step outcome
      ((news.map made).map (fun m => .created m.1 m.2)) := by
    apply Explains.created hcall hasked
    · rwa [List.length_map]
    · refine houtcome.imp_left ?_
      rintro ⟨last, hlast, hshown⟩
      exact ⟨made last, by rw [List.getLast?_map, hlast]; rfl, hshown⟩
  rwa [List.map_map] at hexplains

/-- The new links are on the list, whether or not their owner has heard of them. -/
theorem createPublicLink_spec (h : Follows o p crash s links) (step : Step) (role : MemberRole)
    (custom : Option Text) (expirationTime : Option Int) (now : Int)
    (hcall : step.call = .create role custom expirationTime now) :
    Triple (At step.fates s)
      (createPublicLink (calls o step.choices) p crash step.draws now o.uid role custom
        expirationTime)
      (fun link => Accounts book (Follows o p crash) step.fates links
        (Explains o p crash links step (.ok (some link))))
      (Accounts book (Follows o p crash) step.fates links
        (fun events => ∀ e, Explains o p crash links step (.error e) events)) := by
  have hnothing : ∀ {s' t}, Follows o p crash s' links →
      Disturbed step.fates ∨ Hindered o p crash links step → At step.fates s' t →
      Accounts book (Follows o p crash) step.fates links
        (fun events => ∀ e, Explains o p crash links step (.error e) events) t :=
    fun hs' hreason ht => .nothing hs' (fun e => .failed rfl hreason) ht
  unfold createPublicLink
  -- Other roles than viewer and editor are refused first.
  have hpermissions : Triple (At step.fates s) (ofExcept (publicLinkPermissions role))
      (fun permissions t => publicLinkPermissions role = .ok permissions ∧ At step.fates s t)
      (Accounts book (Follows o p crash) step.fates links
        (fun events => ∀ e, Explains o p crash links step (.error e) events)) := by
    refine .check (fun permissions h t ht => ⟨h, ht⟩) (fun e he t ht => hnothing h (.inr ?_) ht)
    unfold Hindered
    rw [hcall]
    exact .inl (publicLinkPermissions_eq_error he)
  apply hpermissions.bind (fun t ht => ht)
  intro permissions
  apply Triple.assume
  intro hrole
  obtain ⟨hpermissions, hfor⟩ := publicLinkPermissions_eq_ok hrole
  -- The share of the node, with the session that seals the password.
  apply (ensureNodeShare_spec h.shareRight).bind
  · rintro t ⟨hreason, s', hgrown, ht⟩
    refine hnothing (h.grown hgrown) (hreason.imp_right ?_) ht
    rintro ⟨hnone, herror⟩
    unfold Hindered
    rw [hcall]
    exact .inr (.inl ⟨(h.unshared hnone).2, herror⟩)
  rintro ⟨shareId, session, creatorEmail, addressKey⟩
  apply Triple.assume
  intro haddress
  apply Triple.intro_exists
  intro s'
  apply Triple.assume
  intro hgrown
  apply Triple.assume
  intro hsession
  dsimp only at haddress hsession ⊢
  subst haddress
  have hfollows := h.grown hgrown
  apply (sealPublicLinkSettings_spec permissions _ custom hsession.plain).bind
  · rintro t ⟨hreason, ht⟩
    refine hnothing hfollows (hreason.imp_right ?_) ht
    unfold Hindered
    rw [hcall]
    exact fun hunsealable => .inr (.inr hunsealable)
  intro settings
  apply Triple.assume
  intro hsettings
  apply (createUrl_spec hfollows hsession
    (shows_newLink creatorEmail expirationTime hfor hpermissions hsettings)).bind
  · -- The answer was lost, or came for the last of the URLs that were made.
    rintro t ⟨hdisturbed, news, hcopies, events, links', s'', rfl, hexec, hs'', ht⟩
    refine ⟨_, links', s'', ?_, hexec, hs'', ht⟩
    exact fun e => explains_newLinks hcall shareId hfor hcopies (.inr ⟨hdisturbed, e, rfl⟩)
  · intro dto
    apply Triple.pure
    rintro t ⟨news, last, hlast, rfl, hcopies, events, links', s'', rfl, hexec, hs'', ht⟩
    refine ⟨_, links', s'', ?_, hexec, hs'', ht⟩
    refine explains_newLinks hcall shareId hfor hcopies (.inl ⟨last, hlast, ?_⟩)
    rw [hsettings.flags_eq, flags_eq_three]
    rfl

/-! ### Changing a link -/

/-- The link with the options that its owner asks for. -/
def changedLink (old : Link) (role : MemberRole) (custom : Option Text) (expirationTime : Option Int)
    (hrole : role = .viewer ∨ role = .editor) : Link :=
  { old with
    custom := nonEmpty custom
    role := role
    expirationTime := expirationTime
    nonEmpty_custom := nonEmpty_nonEmpty custom
    forLinks := hrole }

/-- The request changes the link, or the line fails. -/
theorem updateUrl_spec {put : UpdatePublicLinkRequest} {old new : Link}
    (h : Follows o p crash s (old :: links)) (hsession : HasSession o s shareId session)
    (hchanges : old.Changes new)
    (hnew : ∀ u, Shows o p crash shareId session u old → Shows o p crash shareId session
      { u with expirationTime := put.expirationTime, settings := put.settings } new) :
    Triple (At fates s) (request (Server.updateUrl shareId old.id put))
      (fun _ => Accounts book (Follows o p crash) fates (old :: links)
        (fun events => events = [.updated new]))
      (fun t => Disturbed fates ∧ Accounts book (Follows o p crash) fates (old :: links)
        (fun events => events = [] ∨ events = [.updated new]) t) := by
  obtain ⟨hbook, hfollows⟩ := h.change hsession hchanges hnew
  have hanswer : Server.updateUrl shareId old.id put s =
      .ok ({ s with urls := s.urls.map (Server.changeUrl old.id put) }, ()) := by
    apply if_pos
    refine ⟨hsession.hasShare, ?_⟩
    rw [Shows.map_id (h.shows hsession)]
    exact List.mem_cons_self
  apply (Triple.put (settles_updateUrl shareId old.id put s)).weaken (fun t ht => ht)
  · rintro u t ⟨s', hdone, ht⟩
    cases hanswer.symm.trans hdone
    exact .event hfollows rfl hbook ht
  · -- The request was not carried out, or its answer was lost.
    rintro t (⟨hreason, ht⟩ | ⟨hdisturbed, s', u, hdone, ht⟩)
    · refine ⟨hreason.resolve_right ?_, .nothing h (.inl rfl) ht⟩
      rintro ⟨e, he⟩
      cases hanswer.symm.trans he
    · cases hanswer.symm.trans hdone
      exact ⟨hdisturbed, .event hfollows (.inr rfl) hbook ht⟩

/-- The link that was found shows its new options, once they are sealed for it. -/
theorem shows_changedLink {old : Link} {role : MemberRole} {custom : Option Text} {permissions : Int}
    {settings : PublicLinkSettingsDto} (expirationTime : Option Int)
    (hrole : role = .viewer ∨ role = .editor) (hpermissions : role.toPermissions = some permissions)
    (hsettings : SealedFor o p crash session permissions old.secret custom settings)
    (hu : Shows o p crash shareId session u old) :
    Shows o p crash shareId session { u with expirationTime := expirationTime, settings := settings }
      (changedLink old role custom expirationTime hrole) :=
  ⟨hu.id_eq, hu.shareId_eq, hu.publicUrl_eq, hu.createTime_eq, rfl,
    hpermissions.trans (congrArg some hsettings.permissions_eq.symm), hsettings.flags_eq,
    hsettings.isSealed⟩

/-- A node with a link has a share, so that none is made for it. -/
theorem ensureNodeShare_of_link {old : Link} (h : Follows o p crash s (old :: links)) :
    Triple (At fates s) (ensureNodeShare (calls o w) d o.uid)
      (fun r t => r.1 = old.shareId ∧ r.2.2.2 = o.address.2.2 ∧ HasSession o s r.1 r.2.1 ∧
        At fates s t)
      (fun t => Disturbed fates ∧ At fates s t) := by
  have hshared : s.share ≠ none := by
    intro hnone
    cases (h.unshared hnone).2
  have hsame : ∀ {s'}, Grown o s s' → s' = s := by
    intro s' hgrown
    cases hgrown with
    | same => rfl
    | made hnone _ _ => exact absurd hnone hshared
  apply (ensureNodeShare_spec h.shareRight).weaken (fun t ht => ht)
  · rintro ⟨shareId, session, creatorEmail, addressKey⟩ t ⟨haddress, s', hgrown, hsession, ht⟩
    cases hsame hgrown
    refine ⟨?_, haddress, hsession, ht⟩
    have hshows := h.shows hsession
    generalize s.urls = urls at hshows
    cases hshows with
    | cons hfirst _ => exact hfirst.shareId_eq.symm
  · rintro t ⟨hreason, s', hgrown, ht⟩
    cases hsame hgrown
    exact ⟨hreason.resolve_right fun hnone => hshared hnone.1, ht⟩

/-- What becomes of the link that was found. -/
theorem resealLink_spec {old : Link} (h : Follows o p crash s (old :: links)) (step : Step)
    {role : MemberRole} {custom : Option Text} {expirationTime : Option Int} {permissions : Int}
    (hcall : step.call = .update role custom expirationTime)
    (hrole : publicLinkPermissions role = .ok permissions) :
    Triple (At step.fates s)
      (do
        let (_, shareSessionKey, _, addressKey) ←
          ensureNodeShare (calls o step.choices) step.draws o.uid
        let settings ← sealPublicLinkSettings (calls o step.choices) p crash step.draws permissions
          old.secret custom shareSessionKey addressKey
        (calls o step.choices).updateUrl old.shareId old.id
          { expirationTime := expirationTime, settings := settings }
        return { old.shown old.createTime with
          role := role
          expirationTime := expirationTime
          hasCustomPassword := settings.flags == 3
          customPassword := nonEmpty custom })
      (fun link => Accounts book (Follows o p crash) step.fates (old :: links)
        (Explains o p crash (old :: links) step (.ok (some link))))
      (Accounts book (Follows o p crash) step.fates (old :: links)
        (fun events => ∀ e, Explains o p crash (old :: links) step (.error e) events)) := by
  have hnothing : ∀ {t}, Disturbed step.fates ∨ Hindered o p crash (old :: links) step →
      At step.fates s t → Accounts book (Follows o p crash) step.fates (old :: links)
        (fun events => ∀ e, Explains o p crash (old :: links) step (.error e) events) t :=
    fun hreason ht => .nothing h (fun e => .failed rfl hreason) ht
  obtain ⟨hpermissions, hfor⟩ := publicLinkPermissions_eq_ok hrole
  apply (ensureNodeShare_of_link h).bind
  · rintro t ⟨hdisturbed, ht⟩
    exact hnothing (.inl hdisturbed) ht
  rintro ⟨shareId, session, creatorEmail, addressKey⟩
  apply Triple.assume
  intro hshareId
  apply Triple.assume
  intro haddress
  apply Triple.assume
  intro hsession
  dsimp only at hshareId haddress hsession ⊢
  subst hshareId haddress
  -- The new settings are sealed for the secret that is in the URL of the link.
  apply (sealPublicLinkSettings_spec permissions old.secret custom hsession.plain).bind
  · rintro t ⟨hreason, ht⟩
    refine hnothing (hreason.imp_right ?_) ht
    unfold Hindered
    rw [hcall]
    exact fun hunsealable => .inr (.inr ⟨old, rfl, hunsealable⟩)
  intro settings
  apply Triple.assume
  intro hsettings
  have hchanges : old.Changes (changedLink old role custom expirationTime hfor) :=
    ⟨rfl, rfl, rfl, rfl, rfl⟩
  have hput : Triple (At step.fates s)
      (request (Server.updateUrl old.shareId old.id ⟨expirationTime, settings⟩)) _ _ :=
    updateUrl_spec h hsession hchanges
      (fun u hu => shows_changedLink expirationTime hfor hpermissions hsettings hu)
  apply hput.bind
  · -- Whether the link was changed is not known here, and the line is to blame.
    rintro t ⟨hdisturbed, events, links', s', hevents, hexec, hs', ht⟩
    refine ⟨events, links', s', ?_, hexec, hs', ht⟩
    intro e
    rcases hevents with rfl | rfl
    · exact .failed rfl (.inl hdisturbed)
    · exact .updated hcall ⟨rfl, rfl, rfl⟩ (.inr ⟨hdisturbed, e, rfl⟩)
  · intro u
    apply Triple.pure
    rintro t ⟨events, links', s', rfl, hexec, hs', ht⟩
    refine ⟨_, links', s', .updated hcall ⟨rfl, rfl, rfl⟩ (.inl ?_), hexec, hs', ht⟩
    rw [hsettings.flags_eq, flags_eq_three]
    rfl

/-- Nothing but the options of the first link is changed. -/
theorem updatePublicLink_spec (h : Follows o p crash s links) (step : Step) {role : MemberRole}
    {custom : Option Text} {expirationTime : Option Int}
    (hcall : step.call = .update role custom expirationTime) :
    Triple (At step.fates s)
      (updatePublicLink (calls o step.choices) p crash step.draws replaced o.uid role custom
        expirationTime)
      (fun link => Accounts book (Follows o p crash) step.fates links
        (Explains o p crash links step (.ok (some link))))
      (Accounts book (Follows o p crash) step.fates links
        (fun events => ∀ e, Explains o p crash links step (.error e) events)) := by
  have hnothing : ∀ {t}, Disturbed step.fates ∨ Hindered o p crash links step → At step.fates s t →
      Accounts book (Follows o p crash) step.fates links
        (fun events => ∀ e, Explains o p crash links step (.error e) events) t :=
    fun hreason ht => .nothing h (fun e => .failed rfl hreason) ht
  have hrefused : ∀ {e : ProtonError}, Disturbed step.fates ∨ Hindered o p crash links step →
      Triple (At step.fates s) (ofExcept (.error e))
        (fun link => Accounts book (Follows o p crash) step.fates links
          (Explains o p crash links step (.ok (some link))))
        (Accounts book (Follows o p crash) step.fates links
          (fun events => ∀ e, Explains o p crash links step (.error e) events)) :=
    fun hreason => .check (fun _ h => nomatch h) (fun _ _ t ht => hnothing hreason ht)
  unfold updatePublicLink
  cases hrole : publicLinkPermissions role with
  | error e =>
      show Triple _ (ofExcept (.error e)) _ _
      apply hrefused (.inr _)
      unfold Hindered
      rw [hcall]
      exact .inl (publicLinkPermissions_eq_error hrole)
  | ok permissions =>
      show Triple _ (getPublicLink _ _ _ >>= _) _ _
      apply (getPublicLink_spec h).bind (fun t ht => hnothing (.inl ht.1) ht.2)
      intro found
      apply Triple.assume
      intro hfound
      cases links with
      | nil =>
          have hnone : found = none := by rcases hfound with rfl | ⟨-, rfl⟩ <;> rfl
          subst hnone
          apply hrefused
          unfold Hindered
          rw [hcall]
          exact .inr (.inr (.inl rfl))
      | cons old rest =>
          rcases hfound with rfl | ⟨hdisturbed, rfl⟩
          · dsimp only [List.head?_cons, Option.map_some]
            rw [generatedPassword_shown]
            exact resealLink_spec h step hcall hrole
          · -- without its URL the link passes for a legacy one
            exact hrefused (.inl hdisturbed)

/-! ### Taking a link away -/

/-- A removal takes at most the one link away. -/
theorem removePublicLink_spec (h : Follows o p crash s links) (step : Step) (link : PublicLink)
    (hcall : step.call = .remove link) :
    Triple (At step.fates s) (removePublicLink (calls o step.choices) link)
      (fun _ => Accounts book (Follows o p crash) step.fates links
        (Explains o p crash links step (.ok none)))
      (Accounts book (Follows o p crash) step.fates links
        (fun events => ∀ e, Explains o p crash links step (.error e) events)) := by
  have hdone : ∀ s' u, Server.deleteUrl link.shareId link.publicLinkId s = .ok (s', u) →
      book.step links (.removed link.publicLinkId) =
          some (links.filter (fun l => l.id != link.publicLinkId)) ∧
        Follows o p crash s' (links.filter (fun l => l.id != link.publicLinkId)) := by
    intro s' u hanswer
    obtain ⟨⟨hhas, hmem⟩, hanswer⟩ := Except.guard_eq_ok.mp hanswer
    cases hanswer
    obtain ⟨⟨shareId, share⟩, hshare, rfl⟩ := Option.map_eq_some_iff.mp hhas
    obtain ⟨session, hright, -⟩ := h.shared _ share hshare
    exact h.remove ⟨share, hshare, hright⟩ hmem
  -- The server refuses only a link that it does not have.
  have hgone : (∃ e, Server.deleteUrl link.shareId link.publicLinkId s = .error e) →
      Hindered o p crash links step := by
    rintro ⟨e, he⟩
    unfold Hindered
    rw [hcall]
    intro l hl hid hshareId
    cases hshare : s.share with
    | none =>
        cases (h.unshared hshare).2
        cases hl
    | some made =>
        obtain ⟨shareId, share⟩ := made
        obtain ⟨session, hright, hshows⟩ := h.shared shareId share hshare
        obtain ⟨u, hu, hshown⟩ := hshows.exists_right hl
        have hserved : s.hasShare link.shareId ∧ link.publicLinkId ∈ s.urls.map ShareUrl.id := by
          constructor
          · rw [Server.hasShare, hshare, ← hshareId, hshown.shareId_eq]
            rfl
          · rw [← hid, ← hshown.id_eq]
            exact List.mem_map_of_mem hu
        unfold Server.deleteUrl at he
        rw [if_pos hserved] at he
        cases he
  apply (Triple.put (settles_deleteUrl link.shareId link.publicLinkId s)).weaken (fun t ht => ht)
  · rintro u t ⟨s', hanswer, ht⟩
    obtain ⟨hbook, hs'⟩ := hdone s' u hanswer
    exact .event hs' (.removed hcall (.inl rfl)) hbook ht
  · -- The request was not carried out, or its answer was lost.
    rintro t (⟨hreason, ht⟩ | ⟨hdisturbed, s', u, hanswer, ht⟩)
    · exact .nothing h (fun e => .failed rfl (hreason.imp_right hgone)) ht
    · obtain ⟨hbook, hs'⟩ := hdone s' u hanswer
      exact .event hs' (fun e => .removed hcall (.inr ⟨hdisturbed, e, rfl⟩)) hbook ht

end

end Recipients.PublicLinks

end ProtonDrive
