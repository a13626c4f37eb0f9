import ProtonDrive.Lib.Forall2
import ProtonDrive.Drive.Devices

/-!
# Runs of device calls

Devices are registered, renamed, deleted and listed, one call after the other, whatever becomes of
the requests.

* `decrypt_replaceData` — a name that is encrypted anew with its session key stays readable, whether
  or not the server keeps the old key packets.
* `perform_spec` — what one call does to the list.
* `devices_simulate` — a run of calls is a run on the list, and every name on it can be read.
-/

namespace ProtonDrive.Devices

open OpenPgp
open Program (ofExcept attempt request inquiry Triple Accounts)
open Online (At)

variable {o : Owner} {w : Choices o} {s t : World} {fates : List (Fate ProtonError)}
  {entries : List Entry} {r : Registered} {e : Entry}

/-! ## Names -/

variable {shareKey : Key} {session : Session} {name : Message}

/-- Of the old message only its key packets are kept, which say nothing about the data. -/
theorem dataPacket_keys (keys rest : Message) :
    dataPacket (keys.filter (fun packet => !isData packet) ++ rest) = dataPacket rest := by
  induction keys with
  | nil => rfl
  | cons packet keys ih =>
      cases packet with
      | pkesk recipient session => exact ih
      | seipd session plaintext signer => exact ih

/-- A name that is encrypted anew with its session key is read by the same key, whether or not its key
packets stay. -/
theorem decrypt_replaceData (hsession : decryptContentKey shareKey name = .ok session)
    (signer : Key) (data : Bytes) (keeps : Bool) :
    let new := encryptAndSign shareKey signer session data
    let kept := if keeps then replaceData name new else new
    decryptContentKey shareKey kept = .ok session ∧
      decryptArmoredMessage shareKey kept = .ok data := by
  cases keeps with
  | false => exact ⟨by simp [encryptAndSign, decryptContentKey], decrypt_encryptAndSign _ _ _ _⟩
  -- The old key packets are kept, and the new data packet has the session that they hold.
  | true =>
      dsimp only
      rw [if_pos rfl]
      have hdata : dataPacket (replaceData name (encryptAndSign shareKey signer session data)) =
          some (session, data, some signer) := dataPacket_keys name _
      have hkept : decryptContentKey shareKey
          (replaceData name (encryptAndSign shareKey signer session data)) = .ok session := by
        cases name with
        | nil => cases hsession
        | cons packet rest =>
            cases packet with
            | seipd session' plaintext signer' => cases hsession
            | pkesk recipient session' => exact hsession
      refine ⟨hkept, ?_⟩
      unfold decryptArmoredMessage
      rw [sessionFor_of_decryptContentKey hkept, hdata]
      exact if_pos rfl

/-! ## Lists that follow -/

section

variable (h : Follows o s entries)
include h

/-- The devices are in the order of the entries. -/
theorem Follows.map_uid : s.devices.map Registered.uid = entries.map Entry.uid :=
  h.shows.map_eq (fun _ _ hre => hre.uid_eq)

/-- The shares are in the order of the entries. -/
theorem Follows.map_shareId : s.devices.map (fun r => r.share.id) = entries.map Entry.shareId :=
  h.shows.map_eq (fun _ _ hre => hre.shareId_eq)

/-- The root folders are in the order of the entries. -/
theorem Follows.map_root : s.devices.map Registered.rootUid = entries.map Entry.rootFolderUid :=
  h.shows.map_eq (fun _ _ hre => hre.root_eq)

/-- Every entry has its device on the server. -/
theorem Follows.exists_registered (he : e ∈ entries) :
    ∃ r ∈ s.devices, Shows o s.bornKey r e := h.shows.exists_right he

/-- The server finds the share of a device by its id. -/
theorem Follows.getShare (hr : r ∈ s.devices) : s.getShare r.share.id = .ok r.share := by
  have hnodup : (s.devices.map (fun r => r.share.id)).Nodup := h.map_shareId ▸ h.shareIds
  have hfind : s.devices.find? (fun b => b.share.id == r.share.id) = some r :=
    List.find?_key hnodup hr
  unfold World.getShare
  rw [hfind]

/-- The server finds the root folder of a device. -/
theorem Follows.getLinkDetails (hr : r ∈ s.devices) :
    s.getLinkDetails r.rootUid.volumeId [r.rootUid.linkId] = [r.root] := by
  have hnodup : (s.devices.map Registered.rootUid).Nodup := h.map_root ▸ h.roots
  have hsame : (fun b : Registered => b.volumeId == r.rootUid.volumeId &&
      [r.rootUid.linkId].contains b.root.id) = (fun b => b.rootUid == r.rootUid) := by
    funext b
    rw [Bool.eq_iff_iff]
    simp [Registered.rootUid]
  unfold World.getLinkDetails
  rw [hsame, List.filter_key hnodup hr]
  rfl

/-- The cache does not matter, as long as it is right. -/
theorem Follows.setCache {f : NodeUid → Option Key}
    (hf : ∀ uid key, f uid = some key → s.bornKey uid = some key) :
    Follows o { s with folderKeys := f } entries :=
  ⟨h.shows, h.uids, h.shareIds, h.roots, hf⟩

end

/-! ## Reading -/

/-- What is known of a device without its name. -/
structure Meta (e : Entry) (d : DeviceMetadata) : Prop where
  ofType : e.OfType d.deviceType
  intoDevice_eq : ∀ name, d.intoDevice name = e.device d.deviceType name e.creationTime
  uid_eq : d.uid = e.uid
  root_eq : d.rootFolderUid = e.rootFolderUid
  shareId_eq : d.shareId = e.shareId
  deprecatedName_eq : d.hasDeprecatedName = e.deprecatedName

/-- What the server lists of a device is what its entry says. -/
theorem meta_of_item {born : NodeUid → Option Key} {d : DeviceMetadata} (h : Shows o born r e)
    (hd : r.item.metadata = .ok d) : Meta e d := by
  obtain ⟨deviceType, htype, hd⟩ := Except.bind_eq_ok.mp hd
  cases hd
  refine ⟨?_, ?_, h.uid_eq, h.root_eq, h.shareId_eq, h.deprecatedName_eq⟩
  · show DeviceType.fromRaw e.deviceType = .ok deviceType
    rw [← h.deviceType_eq]
    exact htype
  · intro name
    unfold DeviceMetadata.intoDevice Entry.device
    rw [← h.uid_eq, ← h.root_eq, ← h.creationTime_eq, ← h.lastSyncTime_eq, ← h.shareId_eq]
    rfl

/-- A call that only reads, when its answer is known. -/
theorem call_spec {α : Type} {a : α} {x : Program (Online World ProtonError) ProtonError α}
    (answer : World → Except ProtonError α) (hx : x = inquiry answer) (ha : answer s = .ok a) :
    Triple (At fates s) x (fun b t => b = a ∧ At fates s t) (fun t => Disturbed fates ∧ At fates s t) :=
  hx ▸ Triple.answered ha

/-- The devices are listed as the entries say, unless a request was disturbed or a type is
unknown. -/
theorem deviceMetadata_spec (h : Follows o s entries) :
    Triple (At fates s) (deviceMetadata (calls o w))
      (fun ds t => List.Forall₂ Meta entries ds ∧ At fates s t)
      (fun t => (Disturbed fates ∨ ∃ e ∈ entries, ∀ t, ¬ e.OfType t) ∧ At fates s t) := by
  have hasked : Triple (At fates s) (calls o w).getDevices
      (fun items t => items = s.devices.map Registered.item ∧ At fates s t)
      (fun t => Disturbed fates ∧ At fates s t) :=
    call_spec (fun s => .ok (s.devices.map Registered.item)) rfl rfl
  apply hasked.bind (fun t ht => ⟨.inl ht.1, ht.2⟩)
  intro items
  apply Triple.assume
  rintro rfl
  apply Triple.check
  · -- Each item is read as its entry, in the order of the entries.
    intro ds hds t ht
    refine ⟨?_, ht⟩
    have hitems := List.forall₂_map_left_iff.mp (List.mapM_eq_ok hds)
    exact h.shows.flip.comp hitems (fun e _ r _ d hre hd => meta_of_item hre hd)
  · -- An item that cannot be read has a type that the client does not know.
    intro err herr t ht
    refine ⟨.inr ?_, ht⟩
    obtain ⟨item, hitem, herr⟩ := List.mapM_eq_error herr
    obtain ⟨r, hr, rfl⟩ := List.mem_map.mp hitem
    obtain ⟨e, he, hre⟩ := h.shows.flip.exists_right hr
    refine ⟨e, he, ?_⟩
    intro deviceType htype
    have hraw : DeviceType.fromRaw r.item.deviceType = .ok deviceType := by
      rw [show r.item.deviceType = e.deviceType from hre.deviceType_eq]
      exact htype
    unfold DeviceListItem.metadata at herr
    rw [hraw] at herr
    cases herr

/-- The share of a device opens with the keys of its address. -/
theorem shareKeyById_spec (h : Follows o s entries) (hr : r ∈ s.devices)
    (hkey : decryptShareKey (o.keysOf r.share.addressId) r.share = .ok shareKey) :
    Triple (At fates s) (shareKeyById (calls o w) r.share.id)
      (fun p t => p = (shareKey, r.share.addressId) ∧ At fates s t)
      (fun t => Disturbed fates ∧ At fates s t) := by
  have hshare : Triple (At fates s) ((calls o w).getShare r.share.id)
      (fun share t => share = r.share ∧ At fates s t) (fun t => Disturbed fates ∧ At fates s t) :=
    call_spec (World.getShare r.share.id) rfl (h.getShare hr)
  -- The share, and then the keys of its address.
  apply hshare.bind (fun t ht => ht)
  intro share
  apply Triple.assume
  rintro rfl
  have hkeys : Triple (At fates s) ((calls o w).addressPrivateKeys r.share.addressId)
      (fun keys t => keys = o.keysOf r.share.addressId ∧ At fates s t)
      (fun t => Disturbed fates ∧ At fates s t) :=
    call_spec (fun _ => .ok (o.keysOf r.share.addressId)) rfl rfl
  apply hkeys.bind (fun t ht => ht)
  intro addressKeys
  apply Triple.assume
  rintro rfl
  rw [hkey]
  exact .pure (fun t ht => ⟨rfl, ht⟩)

/-- The links of the root folder of a device. -/
theorem getLinkDetails_spec (h : Follows o s entries) (hr : r ∈ s.devices) :
    Triple (At fates s)
      ((calls o w).getLinkDetails r.rootUid.volumeId [r.rootUid.linkId])
      (fun links t => links = [r.root] ∧ At fates s t) (fun t => Disturbed fates ∧ At fates s t) :=
  call_spec (fun s => .ok (s.getLinkDetails r.rootUid.volumeId [r.rootUid.linkId])) rfl
    (congrArg Except.ok (h.getLinkDetails hr))

/-- Right folder keys are cached, and nothing else has changed. -/
def Caching (fates : List (Fate ProtonError)) (s : World) (t : Online World ProtonError) : Prop :=
  ∃ f, (∀ uid key, f uid = some key → s.bornKey uid = some key) ∧
    At fates { s with folderKeys := f } t

/-- The root folder of a device opens to its name. -/
theorem deviceRootFolderName_spec (h : Follows o s entries) (he : e ∈ entries) {d : DeviceMetadata}
    (hd : Meta e d) :
    Triple (Caching fates s) (deviceRootFolderName (calls o w) d)
      (fun name t => name = utf8 e.name ∧ Caching fates s t)
      (fun t => Disturbed fates ∧ Caching fates s t) := by
  obtain ⟨r, hr, hre⟩ := h.exists_registered he
  obtain ⟨shareKey, session, hkey, -, hlink⟩ := hre.opens
  apply Triple.intro_exists
  intro f
  apply Triple.assume
  intro hf
  have hfollows : Follows o { s with folderKeys := f } entries := h.setCache hf
  have hfailed : ∀ t, Disturbed fates ∧ At fates { s with folderKeys := f } t →
      Disturbed fates ∧ Caching fates s t := fun t ht => ⟨ht.1, f, hf, ht.2⟩
  unfold deviceRootFolderName
  rw [hd.shareId_eq, ← hre.shareId_eq, hd.root_eq, ← hre.root_eq]
  apply (shareKeyById_spec hfollows hr hkey).bind hfailed
  intro p
  apply Triple.assume
  rintro rfl
  apply (getLinkDetails_spec hfollows hr).bind hfailed
  intro links
  apply Triple.assume
  rintro rfl
  show Triple _ (ofExcept (decryptLink shareKey r.root) >>= _) _ _
  rw [hlink]
  -- The key of the root folder goes to the cache, which holds right keys before and after.
  have hput : Triple (At fates { s with folderKeys := f })
      ((calls o w).putFolderKey r.rootUid r.root.key.key) (fun _ => Caching fates s)
      (fun t => Disturbed fates ∧ Caching fates s t) := by
    apply Triple.modify
    intro t ht
    refine ⟨Function.update f r.rootUid (some r.root.key.key), ?_, ?_, ht.fates_suffix⟩
    · intro uid key hkey
      by_cases huid : uid = r.rootUid
      · subst huid
        rw [Function.update_self] at hkey
        rw [hre.born_eq, hkey]
      · rw [Function.update_of_ne huid] at hkey
        exact hf uid key hkey
    · show t.server.putFolderKey _ _ = _
      rw [ht.server_eq]
      rfl
  exact hput.bind (fun t ht => ht) (fun _ => .pure fun t ht => ⟨rfl, ht⟩)

/-! ## What each call does -/

/-- A folder key that is cached changes nothing that an entry says. -/
theorem Caching.follows {t : Online World ProtonError} (h : Follows o s entries)
    (ht : Caching fates s t) : ∃ s', Follows o s' entries ∧ At fates s' t := by
  obtain ⟨f, hf, hat⟩ := ht
  exact ⟨_, h.setCache hf, hat⟩

/-- Before anything is cached the cache is the server's own. -/
theorem caching_of_at {t : Online World ProtonError} (h : Follows o s entries) (ht : At fates s t) :
    Caching fates s t := ⟨s.folderKeys, h.cached, ht⟩

/-- Each device is listed, with its name if it could be had. -/
theorem enumerateDevices_spec (h : Follows o s entries) :
    Triple (At fates s) (enumerateDevices (calls o w))
      (fun devices t => List.Forall₂ (Lists fates) entries devices ∧ Caching fates s t)
      (fun t => (Disturbed fates ∨ Unable entries .enumerate) ∧ Caching fates s t) := by
  apply (deviceMetadata_spec h).bind (fun t ht => ⟨ht.1, caching_of_at h ht.2⟩)
  intro ds
  apply Triple.assume
  intro hds
  -- Each device on its own: a name that cannot be read does not end the enumeration.
  have heach : ∀ d ∈ ds, Triple (Caching fates s)
      (do
        let name ← (deviceRootFolderName (calls o w) d).attempt
        return d.intoDevice name)
      (fun device t => (∀ e ∈ entries, Meta e d → Lists fates e device) ∧ Caching fates s t)
      (fun t => (Disturbed fates ∨ Unable entries .enumerate) ∧ Caching fates s t) := by
    intro d hd
    obtain ⟨e, he, hmeta⟩ := hds.exists_right hd
    apply Triple.bind (deviceRootFolderName_spec h he hmeta).attempt (fun t ht => ht.elim)
    intro name
    apply Triple.pure
    intro t ht
    refine ⟨?_, by cases name <;> exact ht.2⟩
    -- The uids differ, so the entry is the one that the device shows.
    intro e' he' hmeta'
    have hsame : e' = e :=
      List.inj_on_of_nodup_map h.uids he' he (hmeta'.uid_eq.symm.trans hmeta.uid_eq)
    subst hsame
    refine ⟨d.deviceType, name, hmeta.ofType, hmeta.intoDevice_eq name, ?_⟩
    cases name with
    | ok name => exact .inl (congrArg Except.ok ht.1)
    | error err => exact .inr ⟨ht.1, err, rfl⟩
  apply ((Triple.traverse heach).weaken (fun t ht => caching_of_at h ht) ?_ (fun t ht => ht))
  rintro devices t ⟨hdevices, ht⟩
  refine ⟨hds.comp hdevices ?_, ht⟩
  exact fun e he d _ device hmeta hlists => hlists e he hmeta

/-! ### Registering -/

variable {text : String} {deviceType : DeviceType}

/-- The device that a user makes. -/
def newEntry (o : Owner) (text : String) (deviceType : DeviceType) (new : NewDevice) : Entry where
  uid := new.uid
  deviceType := deviceType.asI32
  name := text
  rootFolderUid := ⟨o.volumeId, new.rootLinkId⟩
  creationTime := new.createTime
  lastSyncTime := none
  shareId := new.shareId
  deprecatedName := false

/-- The entry of a new device is what was asked for. -/
theorem newEntry_made (o : Owner) (text : String) (deviceType : DeviceType) (new : NewDevice) :
    (newEntry o text deviceType new).Made o text deviceType :=
  ⟨rfl, DeviceType.fromRaw_asI32 deviceType, rfl, rfl, rfl⟩

/-- The request for a device with this name. -/
def deviceRequest (o : Owner) (secrets : VolumeSecrets) (text : String) (deviceType : DeviceType) :
    DeviceCreationRequest :=
  creationRequest o.addressId o.addressKeyId deviceType
    (buildVolumeCreationMaterial o.addressKey (utf8 text) secrets)

/-- What the server makes of a new device can be read. -/
theorem shows_registered (secrets : VolumeSecrets) (text : String) (deviceType : DeviceType)
    (new : NewDevice) {born : NodeUid → Option Key}
    (hborn : born ⟨o.volumeId, new.rootLinkId⟩ = some secrets.folder.lockedArmored.key) :
    Shows o born (World.registered o new (deviceRequest o secrets text deviceType))
      (newEntry o text deviceType new) := by
  refine ⟨rfl, rfl, rfl, rfl, rfl, rfl, rfl, hborn, ?_⟩
  refine ⟨secrets.share.key, secrets.nameSession, ?_, ?_, ?_⟩
  · exact decryptShareKey_material o.addressKey (utf8 text) secrets o.mem_keys rfl rfl
  · show decryptContentKey _ (encryptAndSign _ _ _ _) = _
    simp [encryptAndSign, decryptContentKey]
  · rw [decryptLink_material o.addressKey (utf8 text) secrets (validateUTF8_toUTF8 text) rfl rfl rfl]
    exact congrArg (fun key => Except.ok (DecryptedLink.mk key (utf8 text)))
      (fromArmored_eq_ok.mp secrets.folder.unlocks).2.symm

/-- A root folder that is new changes nothing for the others. -/
theorem bornKey_cons {uid uid' : NodeUid} {key key' : Key} (huid : s.bornKey uid = none)
    (huid' : s.bornKey uid' = some key') :
    ({ s with born := (uid, key) :: s.born } : World).bornKey uid' = some key' := by
  have hne : uid' ≠ uid := by
    rintro rfl
    cases huid.symm.trans huid'
  show List.lookup uid' ((uid, key) :: s.born) = some key'
  rw [List.lookup_cons, beq_false_of_ne hne]
  exact huid'

/-- A new device is one more entry. -/
theorem Follows.register (h : Follows o s entries) {new : NewDevice} (hfresh : s.Fresh o new)
    (secrets : VolumeSecrets) (text : String) (deviceType : DeviceType) :
    registry.step entries (.registered (newEntry o text deviceType new)) =
      some (entries ++ [newEntry o text deviceType new]) ∧
    Follows o { s with
      devices := s.devices ++ [World.registered o new (deviceRequest o secrets text deviceType)]
      born := (⟨o.volumeId, new.rootLinkId⟩, secrets.folder.lockedArmored.key) :: s.born }
      (entries ++ [newEntry o text deviceType new]) := by
  have huid : new.uid ∉ entries.map Entry.uid := by
    rw [← h.map_uid]
    exact hfresh.uid
  have hshareId : new.shareId ∉ entries.map Entry.shareId := by
    rw [← h.map_shareId]
    exact hfresh.shareId
  -- The new root folder was not there before, since nothing was born under its uid.
  have hroot : ⟨o.volumeId, new.rootLinkId⟩ ∉ entries.map Entry.rootFolderUid := by
    rw [← h.map_root]
    intro hmem
    obtain ⟨r, hr, heq⟩ := List.mem_map.mp hmem
    obtain ⟨e, -, hre⟩ := h.shows.flip.exists_right hr
    have hborn := hre.born_eq
    rw [heq] at hborn
    cases hfresh.root.symm.trans hborn
  refine ⟨if_neg huid, ?_, ?_, ?_, ?_, ?_⟩
  · refine List.rel_append (h.shows.imp ?_) (.cons ?_ .nil)
    · exact fun r e hre => { hre with born_eq := bornKey_cons hfresh.root hre.born_eq }
    · exact shows_registered secrets text deviceType new List.lookup_cons_self
  · rw [List.map_append]
    exact h.uids.append (List.nodup_singleton _) (List.disjoint_singleton.mpr huid)
  · rw [List.map_append]
    exact h.shareIds.append (List.nodup_singleton _) (List.disjoint_singleton.mpr hshareId)
  · rw [List.map_append]
    exact h.roots.append (List.nodup_singleton _) (List.disjoint_singleton.mpr hroot)
  · exact fun uid key hkey => bornKey_cons hfresh.root (h.cached uid key hkey)

/-- However often the request for a device is carried out, each time it makes one. -/
theorem Follows.posts {secrets : VolumeSecrets} {text : String} {deviceType : DeviceType}
    {created : List DeviceCreationResult} (h : Follows o s entries)
    (hposts : Repeats (World.postDevice o w (deviceRequest o secrets text deviceType)) s created t) :
    ∃ news : List NewDevice,
      created = news.map (fun new => ⟨new.uid, new.shareId, new.rootLinkId⟩) ∧
      registry.exec entries ((news.map (newEntry o text deviceType)).map .registered) =
        some (entries ++ news.map (newEntry o text deviceType)) ∧
      Follows o t (entries ++ news.map (newEntry o text deviceType)) := by
  generalize hpost : World.postDevice o w (deviceRequest o secrets text deviceType) = post at hposts
  -- By induction on the times that the line has carried the `POST` out.
  induction hposts generalizing entries with
  | nil => exact ⟨[], rfl, by simp, by simpa using h⟩
  | @cons s _ _ _ _ hanswer _ ih =>
      subst hpost
      cases hanswer
      obtain ⟨hstep, hfollows⟩ := h.register (w.fresh s) secrets text deviceType
      obtain ⟨news, hcreated, hexec, ht⟩ := ih hfollows
      refine ⟨w.newDevice s :: news, ?_, ?_, ?_⟩
      · rw [hcreated]
        rfl
      · rw [List.map_cons, List.map_cons, List.append_cons]
        exact (registry.exec_cons_iff).mpr ⟨_, hstep, hexec⟩
      · rw [List.map_cons, List.append_cons]
        exact ht

/-- Each time the request is carried out it makes a device; the answer is about the last of them. -/
theorem createDevice_spec (h : Follows o s entries) (step : Step o) (now : Int)
    (hcall : step.call = .create text deviceType now) :
    Triple (At step.fates s)
      (createDevice (calls o step.choices) step.secrets now text deviceType)
      (fun device => Accounts registry (Follows o) step.fates entries
        (Explains o entries step (.ok [device])))
      (Accounts registry (Follows o) step.fates entries
        (fun events => ∀ err, Explains o entries step (.error err) events)) := by
  have hfailed : ∀ t, Disturbed step.fates ∧ At step.fates s t →
      Accounts registry (Follows o) step.fates entries
      (fun events => ∀ err, Explains o entries step (.error err) events) t :=
    fun t ht => .nothing h (fun err => .failed rfl (.inl ht.1)) ht.2
  have hvolume : Triple (At step.fates s) (calls o step.choices).myFilesVolume
      (fun volumeId t => volumeId = o.volumeId ∧ At step.fates s t)
      (fun t => Disturbed step.fates ∧ At step.fates s t) :=
    call_spec (fun _ => .ok o.volumeId) rfl rfl
  apply hvolume.bind hfailed
  intro volumeId
  apply Triple.assume
  rintro rfl
  have haddress : Triple (At step.fates s) ((calls o step.choices).membershipAddressFor o.volumeId)
      (fun p t => p = (o.addressId, o.email, o.addressKey) ∧ At step.fates s t)
      (fun t => Disturbed step.fates ∧ At step.fates s t) :=
    call_spec (fun _ => .ok (o.addressId, o.email, o.addressKey)) rfl rfl
  apply haddress.bind hfailed
  intro p
  apply Triple.assume
  rintro rfl
  have hkeyId : Triple (At step.fates s) ((calls o step.choices).addressPrimaryKeyId o.addressId)
      (fun id t => id = o.addressKeyId ∧ At step.fates s t)
      (fun t => Disturbed step.fates ∧ At step.fates s t) :=
    call_spec (fun _ => .ok o.addressKeyId) rfl rfl
  apply hkeyId.bind hfailed
  intro id
  apply Triple.assume
  rintro rfl
  have hmade : ∀ news : List NewDevice, ∀ e ∈ news.map (newEntry o text deviceType),
      e.Made o text deviceType := by
    intro news
    rw [List.forall_mem_map]
    exact fun new _ => newEntry_made o text deviceType new
  -- The server takes every new device.
  have haccepts : Accepts (World.postDevice o step.choices
      (deviceRequest o step.secrets text deviceType)) s := fun _ _ _ => ⟨_, rfl⟩
  apply Triple.bind (Triple.tell _)
  · rintro t ⟨created, s', hposts, hcopies, hreason, ht⟩
    obtain ⟨news, rfl, hexec, hfollows⟩ := h.posts hposts
    have hdisturbed : Disturbed step.fates := by
      refine hreason.resolve_right ?_
      rintro ⟨-, err, herr⟩
      cases herr
    refine ⟨_, _, s', fun err => ?_, hexec, hfollows, ht⟩
    refine .registered hcall (hmade news) ?_ (.inr ⟨hdisturbed, err, rfl⟩)
    simpa using hcopies haccepts
  · intro created
    apply Triple.pure
    rintro t ⟨earlier, s', hposts, hcopies, ht⟩
    obtain ⟨news, hnews, hexec, hfollows⟩ := h.posts hposts
    -- The last device is the one that the client hears of.
    have hlast : (news.map (fun new : NewDevice =>
        (⟨new.uid, new.shareId, new.rootLinkId⟩ : DeviceCreationResult))).getLast? = some created := by
      rw [← hnews, List.getLast?_concat]
    rw [List.getLast?_map] at hlast
    obtain ⟨new, hnew, rfl⟩ := Option.map_eq_some_iff.mp hlast
    refine ⟨_, _, s', ?_, hexec, hfollows, ht⟩
    refine .registered hcall (hmade news) ?_ ?_
    · have hlength := congrArg List.length hnews
      rw [List.length_append, List.length_map, List.length_singleton] at hlength
      rw [List.length_map, ← hlength]
      exact hcopies haccepts
    · refine .inl ⟨newEntry o text deviceType new, ?_, rfl⟩
      rw [List.getLast?_map, hnew]
      rfl

/-! ### Renaming -/

variable {uid : DeviceUid} {newName : Option String} {cleared : Bool}

@[simp] theorem change_uid : (e.change uid newName cleared).uid = e.uid := by
  unfold Entry.change
  split <;> rfl

@[simp] theorem change_root : (e.change uid newName cleared).rootFolderUid = e.rootFolderUid := by
  unfold Entry.change
  split <;> rfl

@[simp] theorem change_shareId : (e.change uid newName cleared).shareId = e.shareId := by
  unfold Entry.change
  split <;> rfl

/-- A change of nothing. -/
theorem change_nothing : e.change uid none false = e := by
  unfold Entry.change
  split <;> simp

/-- Clearing the old name and setting the new one are one change. -/
theorem change_change :
    (e.change uid none cleared).change uid newName false = e.change uid newName cleared := by
  by_cases huid : e.uid = uid
  · simp [Entry.change, huid]
  · simp [Entry.change, huid]

/-- Every device changes on the server as it does on the list. -/
theorem Follows.change (h : Follows o s entries) {g : Registered → Registered}
    (hg : ∀ r ∈ s.devices, ∀ e ∈ entries, Shows o s.bornKey r e →
      Shows o s.bornKey (g r) (e.change uid newName cleared)) :
    Follows o { s with devices := s.devices.map g }
      (entries.map (Entry.change uid newName cleared)) := by
  -- The change leaves what identifies an entry.
  have hsame : ∀ {κ : Type} (f : Entry → κ), (∀ e, f (Entry.change uid newName cleared e) = f e) →
      (entries.map (Entry.change uid newName cleared)).map f = entries.map f := by
    intro κ f hf
    rw [List.map_map]
    exact List.map_congr_left (fun e _ => hf e)
  refine ⟨?_, ?_, ?_, ?_, h.cached⟩
  · rw [List.forall₂_map_left_iff, List.forall₂_map_right_iff]
    apply h.shows.comp (List.forall₂_same.mpr (fun _ _ => rfl))
    rintro r hr e he _ hre rfl
    exact hg r hr e he hre
  · rw [hsame Entry.uid (fun _ => change_uid)]
    exact h.uids
  · rw [hsame Entry.shareId (fun _ => change_shareId)]
    exact h.shareIds
  · rw [hsame Entry.rootFolderUid (fun _ => change_root)]
    exact h.roots

/-- A device whose share has no name any more shows the cleared entry. -/
theorem Shows.clear (hre : Shows o s.bornKey r e) :
    Shows o s.bornKey (World.setShareName uid "" r) (e.change uid none true) := by
  unfold World.setShareName Entry.change
  by_cases huid : e.uid = uid
  · rw [if_pos (hre.uid_eq.trans huid), if_pos huid]
    exact { hre with deprecatedName_eq := by simp }
  · rw [if_neg (hre.uid_eq ▸ huid), if_neg huid]
    exact hre

/-- The name of a root folder, and with it that of the device, is encrypted anew. -/
theorem Shows.rename (hre : Shows o s.bornKey r e) (keeps : Bool) {put : RenameLinkRequest}
    (hput : ∀ shareKey session, decryptShareKey (o.keysOf r.share.addressId) r.share = .ok shareKey →
      decryptContentKey shareKey r.root.name = .ok session →
      ∃ signer, put.name = encryptAndSign shareKey signer session (utf8 text)) :
    Shows o s.bornKey
      { r with
        root := { r.root with
          name := if keeps then replaceData r.root.name put.name else put.name
          nameSignatureEmail := some put.nameSignatureEmail } }
      { e with name := text } := by
  obtain ⟨shareKey, session, hkey, hsession, hlink⟩ := hre.opens
  obtain ⟨signer, hname⟩ := hput shareKey session hkey hsession
  -- The name is sealed anew for the session of the old one.
  obtain ⟨hkept, hread⟩ := decrypt_replaceData hsession signer (utf8 text) keeps
  obtain ⟨hpassphrase, hunlocked, -, -⟩ := decryptLink_eq_ok.mp hlink
  refine { hre with opens := ⟨shareKey, session, hkey, ?_, ?_⟩ }
  · dsimp only
    rw [hname]
    exact hkept
  · apply decryptLink_eq_ok.mpr
    dsimp only
    rw [hname]
    exact ⟨hpassphrase, hunlocked, hread, validateUTF8_toUTF8 text⟩

/-- The device with the uid, when there is one. -/
theorem deviceMetadataByUid_spec (h : Follows o s entries) (uid : DeviceUid) (text : String) :
    Triple (At fates s) (deviceMetadataByUid (calls o w) uid)
      (fun d t => (∃ e ∈ entries, e.uid = uid ∧ Meta e d) ∧ At fates s t)
      (fun t => (Disturbed fates ∨ Unable entries (.rename uid text)) ∧ At fates s t) := by
  apply (deviceMetadata_spec h).bind (fun t ht => ⟨ht.1.imp_right .inr, ht.2⟩)
  intro ds
  apply Triple.assume
  intro hds
  apply Triple.check
  · intro d hd t ht
    refine ⟨?_, ht⟩
    split at hd <;> cases hd
    next hfind =>
      obtain ⟨e, he, hmeta⟩ := hds.exists_right (List.mem_of_find?_eq_some hfind)
      have huid : d.uid = uid := by simpa using List.find?_some hfind
      exact ⟨e, he, hmeta.uid_eq.symm.trans huid, hmeta⟩
  · intro err herr t ht
    refine ⟨.inr (.inl ?_), ht⟩
    split at herr <;> cases herr
    -- No device has the uid, so no entry does.
    next hfind =>
      have huids : entries.map Entry.uid = ds.map DeviceMetadata.uid :=
        hds.map_eq (fun _ _ hmeta => hmeta.uid_eq.symm)
      rw [huids]
      intro hmem
      obtain ⟨d, hd, huid⟩ := List.mem_map.mp hmem
      have hne := List.find?_eq_none.mp hfind d hd
      simp [huid] at hne

/-- Setting the same name again changes nothing. -/
theorem setShareName_again (uid : DeviceUid) (name : String) (r : Registered) :
    World.setShareName uid name (World.setShareName uid name r) = World.setShareName uid name r := by
  unfold World.setShareName
  split <;> simp [*]

/-- Replacing the data packet again keeps the last one. -/
theorem replaceData_again (old new : Message) :
    replaceData (replaceData old new) new = replaceData old new := by
  simp [replaceData, List.filter_filter]

/-- Renaming the root folder again to the same name changes nothing. -/
theorem renamed_again (keeps : Bool) (uid : NodeUid) (put : RenameLinkRequest) (r : Registered) :
    World.renamed keeps uid put (World.renamed keeps uid put r) = World.renamed keeps uid put r := by
  by_cases hr : r.rootUid = uid
  · have hrenamed : (World.renamed keeps uid put r).rootUid = uid := by
      rw [World.renamed, if_pos hr]
      exact hr
    rw [World.renamed, if_pos hrenamed, World.renamed, if_pos hr]
    cases keeps <;> simp [replaceData_again]
  · simp [World.renamed, hr]

/-- A change that is made again changes nothing. -/
theorem settles_map {g : Registered → Registered} (hg : ∀ r, g (g r) = g r) {p : World → Prop}
    [DecidablePred p] (s : World) :
    Settles (fun s => if p s then .ok ({ s with devices := s.devices.map g }, ()) else .error refusal)
      s := by
  intro t a ht u b hu
  obtain ⟨-, ht⟩ := Except.guard_eq_ok.mp ht
  obtain ⟨-, hu⟩ := Except.guard_eq_ok.mp hu
  cases ht
  cases hu
  refine ⟨?_, rfl⟩
  rw [List.map_map]
  congr 1
  exact List.map_congr_left (fun r _ => hg r)

/-- A device that is deleted again stays deleted. -/
theorem settles_removeDevice (uid : DeviceUid) (s : World) : Settles (World.removeDevice uid) s := by
  intro t a ht u b hu
  obtain ⟨-, ht⟩ := Except.guard_eq_ok.mp ht
  obtain ⟨hmem, -⟩ := Except.guard_eq_ok.mp hu
  cases ht
  obtain ⟨r, hr, huid⟩ := List.mem_map.mp hmem
  have hne := (List.mem_filter.mp hr).2
  rw [huid] at hne
  simp at hne

/-- The old copy of the name is gone, or a request was lost. -/
theorem clearDeprecatedName_spec (h : Follows o s entries) (he : e ∈ entries) {d : DeviceMetadata}
    (hd : Meta e d) :
    Triple (At fates s) (clearDeprecatedName (calls o w) d)
      (fun _ t => ∃ cleared s', ((cleared = true ∨ ¬ e.deprecatedName ∨ Disturbed fates) ∧
          (cleared = true → e.deprecatedName)) ∧
        Follows o s' (entries.map (Entry.change e.uid none cleared)) ∧ At fates s' t)
      (fun _ => False) := by
  have hkept : Follows o s (entries.map (Entry.change e.uid none false)) := by
    rw [show Entry.change e.uid none false = id from funext fun _ => change_nothing, List.map_id]
    exact h
  unfold clearDeprecatedName
  rw [hd.deprecatedName_eq, hd.uid_eq]
  cases hdeprecated : e.deprecatedName with
  -- A device without a deprecated name is not touched.
  | false => exact .pure (fun t ht => ⟨false, s, ⟨.inr (.inl (by simp)), nofun⟩, hkept, ht⟩)
  | true =>
      have hmem : e.uid ∈ s.devices.map Registered.uid := by
        rw [h.map_uid]
        exact List.mem_map_of_mem he
      have hcleared : Follows o
          { s with devices := s.devices.map (World.setShareName e.uid "") }
          (entries.map (Entry.change e.uid none true)) :=
        h.change (fun r _ e' _ hre => hre.clear)
      have hanswer : World.putShareName e.uid "" s =
          .ok ({ s with devices := s.devices.map (World.setShareName e.uid "") }, ()) := if_pos hmem
      have hsettles : Settles (World.putShareName e.uid "") s :=
        settles_map (setShareName_again e.uid "") s
      -- The source logs a failed request and goes on.
      refine .bind (Triple.put hsettles).attempt (fun t ht => ht.elim) (fun r => .pure ?_)
      intro t ht
      cases r with
      | ok u =>
          obtain ⟨s', hput, ht⟩ := ht
          cases hanswer.symm.trans hput
          exact ⟨true, _, ⟨.inl rfl, fun _ => rfl⟩, hcleared, ht⟩
      | error err =>
          -- The request was not carried out, or its answer was lost.
          rcases ht with ⟨hreason, ht⟩ | ⟨hdisturbed, s', u, hput, ht⟩
          · refine ⟨false, s, ⟨.inr (.inr (hreason.resolve_right ?_)), nofun⟩, hkept, ht⟩
            rintro ⟨err, herr⟩
            cases hanswer.symm.trans herr
          · cases hanswer.symm.trans hput
            exact ⟨true, _, ⟨.inl rfl, fun _ => rfl⟩, hcleared, ht⟩

/-- A root folder with a new name shows the entry with the new name. -/
theorem Follows.rename (h : Follows o s entries) (hr : r ∈ s.devices) (he : e ∈ entries)
    (hre : Shows o s.bornKey r e) {put : RenameLinkRequest} (keeps : Bool)
    (hput : ∀ shareKey session, decryptShareKey (o.keysOf r.share.addressId) r.share = .ok shareKey →
      decryptContentKey shareKey r.root.name = .ok session →
      ∃ signer, put.name = encryptAndSign shareKey signer session (utf8 text)) :
    Follows o { s with devices := s.devices.map (World.renamed keeps e.rootFolderUid put) }
      (entries.map (Entry.change e.uid (some text) false)) := by
  apply h.change
  intro r' hr' e' he' hre'
  unfold World.renamed Entry.change
  by_cases huid : e'.uid = e.uid
  · have hsame : e' = e := List.inj_on_of_nodup_map h.uids he' he huid
    subst hsame
    have hroots : (s.devices.map Registered.rootUid).Nodup := h.map_root ▸ h.roots
    -- Of the devices only the one with this root folder is renamed.
    have hdevice : r' = r :=
      List.inj_on_of_nodup_map hroots hr' hr (hre'.root_eq.trans hre.root_eq.symm)
    subst hdevice
    rw [if_pos hre'.root_eq, if_pos rfl]
    have hrenamed := hre'.rename keeps hput
    exact { hrenamed with deprecatedName_eq := by simpa using hre'.deprecatedName_eq }
  · -- Other entries have other root folders.
    have hroot : r'.rootUid ≠ e.rootFolderUid := by
      rw [hre'.root_eq]
      intro heq
      exact huid (congrArg Entry.uid (List.inj_on_of_nodup_map h.roots he' he heq))
    rw [if_neg hroot, if_neg huid]
    exact hre'

/-- A name that the server gets is that of the device. -/
theorem renameLink_spec (h : Follows o s entries) (hr : r ∈ s.devices) (he : e ∈ entries)
    (hre : Shows o s.bornKey r e) {put : RenameLinkRequest} (keeps : Bool)
    (hput : ∀ shareKey session, decryptShareKey (o.keysOf r.share.addressId) r.share = .ok shareKey →
      decryptContentKey shareKey r.root.name = .ok session →
      ∃ signer, put.name = encryptAndSign shareKey signer session (utf8 text)) :
    Triple (At fates s)
      (request (World.renameLink keeps r.rootUid.volumeId r.rootUid.linkId put))
      (fun _ t => ∃ s', Follows o s' (entries.map (Entry.change e.uid (some text) false)) ∧
        At fates s' t)
      (fun t => Disturbed fates ∧ (At fates s t ∨
        ∃ s', Follows o s' (entries.map (Entry.change e.uid (some text) false)) ∧ At fates s' t)) := by
  have hmem : r.rootUid ∈ s.devices.map Registered.rootUid := List.mem_map_of_mem hr
  have hanswer : World.renameLink keeps r.rootUid.volumeId r.rootUid.linkId put s =
      .ok ({ s with devices := s.devices.map (World.renamed keeps r.rootUid put) }, ()) :=
    if_pos hmem
  have hrenamed : Follows o { s with devices := s.devices.map (World.renamed keeps r.rootUid put) }
      (entries.map (Entry.change e.uid (some text) false)) := by
    rw [hre.root_eq]
    exact h.rename hr he hre keeps hput
  have hsettles : Settles (World.renameLink keeps r.rootUid.volumeId r.rootUid.linkId put) s :=
    settles_map (renamed_again keeps r.rootUid put) s
  apply (Triple.put hsettles).weaken (fun t ht => ht)
  · rintro u t ⟨s', hdone, ht⟩
    cases hanswer.symm.trans hdone
    exact ⟨_, hrenamed, ht⟩
  · -- A rename that fails was not carried out, or its answer was lost.
    rintro t (⟨hreason, ht⟩ | ⟨hdisturbed, s', u, hdone, ht⟩)
    · refine ⟨hreason.resolve_right ?_, .inl ht⟩
      rintro ⟨err, herr⟩
      cases hanswer.symm.trans herr
    · cases hanswer.symm.trans hdone
      exact ⟨hdisturbed, .inr ⟨_, hrenamed, ht⟩⟩

/-- The root folder of the device gets the name, under the session key of its old one. -/
theorem renameRoot_spec (h : Follows o s entries) (he : e ∈ entries) {d : DeviceMetadata}
    (hshareId : d.shareId = e.shareId) (hroot : d.rootFolderUid = e.rootFolderUid) (text : String) :
    Triple (At fates s)
      (do
        let (shareKey, membershipAddressId) ← shareKeyById (calls o w) d.shareId
        let (_, email, signingKey) ← (calls o w).resolveMembershipAddress membershipAddressId
        let uid := d.rootFolderUid
        let details ← (calls o w).getLinkDetails uid.volumeId [uid.linkId]
        let current ← ofExcept (match details.find? (fun link => link.id == uid.linkId) with
          | some link => .ok link
          | none => .error (rootNotFound uid))
        let session ← ofExcept (decryptContentKey shareKey current.name)
        (calls o w).renameLink uid.volumeId uid.linkId {
          name := encryptAndSign shareKey signingKey session (utf8 text)
          nameHash := []
          nameSignatureEmail := email
          mediaType := none
          originalHash := [] }
        return d.intoDevice (.ok (utf8 text)))
      (fun device t => device = d.intoDevice (.ok (utf8 text)) ∧
        ∃ s', Follows o s' (entries.map (Entry.change e.uid (some text) false)) ∧ At fates s' t)
      (fun t => Disturbed fates ∧ (At fates s t ∨
        ∃ s', Follows o s' (entries.map (Entry.change e.uid (some text) false)) ∧ At fates s' t)) := by
  have hfailed : ∀ t, Disturbed fates ∧ At fates s t → Disturbed fates ∧ (At fates s t ∨
      ∃ s', Follows o s' (entries.map (Entry.change e.uid (some text) false)) ∧ At fates s' t) :=
    fun t ht => ⟨ht.1, .inl ht.2⟩
  obtain ⟨r, hr, hre⟩ := h.exists_registered he
  obtain ⟨shareKey, session, hkey, hsession, hlink⟩ := hre.opens
  rw [hshareId, hroot, ← hre.shareId_eq, ← hre.root_eq]
  apply (shareKeyById_spec h hr hkey).bind hfailed
  intro p
  apply Triple.assume
  rintro rfl
  have hsigner : Triple (At fates s) ((calls o w).resolveMembershipAddress r.share.addressId)
      (fun p t => p = (r.share.addressId, o.signer r.share.addressId) ∧ At fates s t)
      (fun t => Disturbed fates ∧ At fates s t) :=
    call_spec (fun _ => .ok (r.share.addressId, o.signer r.share.addressId)) rfl rfl
  apply hsigner.bind hfailed
  intro p
  apply Triple.assume
  rintro rfl
  apply (getLinkDetails_spec h hr).bind hfailed
  intro links
  apply Triple.assume
  rintro rfl
  have hfind : [r.root].find? (fun link => link.id == r.rootUid.linkId) = some r.root := by
    simp [Registered.rootUid]
  rw [hfind]
  show Triple _ (ofExcept (decryptContentKey shareKey r.root.name) >>= _) _ _
  rw [hsession]
  apply Triple.bind (renameLink_spec h hr he hre w.keepsKeyPackets ?_) (fun t ht => ht)
  · intro u
    exact .pure (fun t ht => ⟨rfl, ht⟩)
  · -- The name is encrypted with the session key that it had.
    intro shareKey' session' hkey' hsession'
    cases hkey.symm.trans hkey'
    cases hsession.symm.trans hsession'
    exact ⟨_, rfl⟩

/-- A rename that fails leaves the device as it was, cleared, or with the new name. -/
theorem renameDevice_spec (h : Follows o s entries) (step : Step o)
    (hcall : step.call = .rename uid text) :
    Triple (At step.fates s) (renameDevice (calls o step.choices) uid text)
      (fun device => Accounts registry (Follows o) step.fates entries
        (Explains o entries step (.ok [device])))
      (Accounts registry (Follows o) step.fates entries
        (fun events => ∀ err, Explains o entries step (.error err) events)) := by
  apply (deviceMetadataByUid_spec h uid text).bind
  · exact fun t ht => .nothing h (fun err => .failed rfl (hcall ▸ ht.1)) ht.2
  intro d
  apply Triple.assume
  rintro ⟨e, he, rfl, hmeta⟩
  apply (clearDeprecatedName_spec h he hmeta).bind (fun t ht => ht.elim)
  intro _
  apply Triple.intro_exists
  intro cleared
  apply Triple.intro_exists
  intro s'
  apply Triple.assume
  rintro ⟨hcleared, hdeprecated⟩
  apply Triple.assume
  intro h'
  have hmem : e.uid ∈ entries.map Entry.uid := List.mem_map_of_mem he
  -- The device on the list, after its old name was cleared, and then with its new one.
  have he' : e.change e.uid none cleared ∈ entries.map (Entry.change e.uid none cleared) :=
    List.mem_map_of_mem he
  have hdone : ∀ {explains : List Event → Prop} {t : Online World ProtonError},
      explains [.changed e.uid (some text) cleared] →
      (∃ s'', Follows o s'' ((entries.map (Entry.change e.uid none cleared)).map
          (Entry.change (e.change e.uid none cleared).uid (some text) false)) ∧
        At step.fates s'' t) → Accounts registry (Follows o) step.fates entries explains t := by
    rintro explains t hexplains ⟨s'', h'', ht⟩
    have hcomp : Entry.change e.uid (some text) false ∘ Entry.change e.uid none cleared =
        Entry.change e.uid (some text) cleared := funext fun _ => change_change
    rw [List.map_map, change_uid, hcomp] at h''
    exact .event h'' hexplains (if_pos hmem) ht
  apply (renameRoot_spec h' he' (hmeta.shareId_eq.trans (change_shareId ..).symm)
    (hmeta.root_eq.trans (change_root ..).symm) text).weaken (fun t ht => ht)
  · rintro device t ⟨rfl, ht⟩
    refine hdone (.renamed hcall he hmeta.ofType hcleared (.inl ?_)) ht
    rw [hmeta.intoDevice_eq]
  · rintro t ⟨hdisturbed, ht | ht⟩
    · -- The new name did not arrive, and the old copy of the name may be gone.
      cases cleared with
      | true =>
          have hevent : registry.step entries (.changed e.uid none true) = some _ := if_pos hmem
          exact .event h' (fun err => .cleared hcall he (hdeprecated rfl) ⟨hdisturbed, err, rfl⟩) hevent
            ht
      | false =>
          rw [show Entry.change e.uid none false = id from funext fun _ => change_nothing,
            List.map_id] at h'
          exact .nothing h' (fun err => .failed rfl (.inl hdisturbed)) ht
    · refine hdone (fun err => ?_) ht
      exact .renamed hcall he hmeta.ofType hcleared (.inr ⟨hdisturbed, err, rfl⟩)

/-- A delete takes at most the one device away. -/
theorem deleteDevice_spec (h : Follows o s entries) (step : Step o) (uid : DeviceUid)
    (hcall : step.call = .delete uid) :
    Triple (At step.fates s) (deleteDevice (calls o step.choices) uid)
      (fun _ => Accounts registry (Follows o) step.fates entries
        (Explains o entries step (.ok [])))
      (Accounts registry (Follows o) step.fates entries
        (fun events => ∀ err, Explains o entries step (.error err) events)) := by
  have hdone : ∀ s' u, World.removeDevice uid s = .ok (s', u) →
      registry.step entries (.removed uid) = some (entries.filter (fun e => e.uid != uid)) ∧
      Follows o s' (entries.filter (fun e => e.uid != uid)) := by
    intro s' u hanswer
    obtain ⟨hmem, hanswer⟩ := Except.guard_eq_ok.mp hanswer
    cases hanswer
    -- What is left of the devices shows what is left of the entries.
    have hsub : (entries.filter (fun e => e.uid != uid)).Sublist entries := List.filter_sublist
    refine ⟨if_pos (h.map_uid ▸ hmem), ?_, h.uids.sublist (hsub.map _),
      h.shareIds.sublist (hsub.map _), h.roots.sublist (hsub.map _), h.cached⟩
    exact List.rel_filter (fun _ _ hre => by simp [hre.uid_eq]) h.shows
  apply (Triple.put (settles_removeDevice uid s)).weaken (fun t ht => ht)
  · rintro u t ⟨s', hanswer, ht⟩
    obtain ⟨hevent, hs'⟩ := hdone s' u hanswer
    exact .event hs' (.removed hcall (.inl rfl)) hevent ht
  · -- The server refuses only a device that it does not have.
    rintro t (⟨hreason, ht⟩ | ⟨hdisturbed, s', u, hanswer, ht⟩)
    · refine .nothing h (fun err => .failed rfl (hreason.imp_right ?_)) ht
      rintro ⟨err, herr⟩
      rw [hcall]
      intro hmem
      rw [← h.map_uid] at hmem
      unfold World.removeDevice at herr
      rw [if_pos hmem] at herr
      cases herr
    · obtain ⟨hevent, hs'⟩ := hdone s' u hanswer
      exact .event hs' (fun err => .removed hcall (.inr ⟨hdisturbed, err, rfl⟩)) hevent ht

/-- Each call, with what it leaves on the server and what it answers. -/
theorem perform_spec (h : Follows o s entries) (step : Step o) :
    Triple (At step.fates s) (perform o step.secrets step.choices step.call)
      (fun devices => Accounts registry (Follows o) step.fates entries
        (Explains o entries step (.ok devices)))
      (Accounts registry (Follows o) step.fates entries
        (fun events => ∀ err, Explains o entries step (.error err) events)) := by
  obtain ⟨call, secrets, choices, fates⟩ := step
  cases call with
  | create name deviceType now =>
      exact .bind (createDevice_spec h _ now rfl) (fun t ht => ht)
        (fun device => .pure fun t ht => ht)
  | rename uid name =>
      exact .bind (renameDevice_spec h _ rfl) (fun t ht => ht) (fun device => .pure fun t ht => ht)
  | delete uid =>
      exact .bind (deleteDevice_spec h _ uid rfl) (fun t ht => ht) (fun _ => .pure fun t ht => ht)
  -- The enumeration changes nothing but the folder keys that are cached.
  | enumerate =>
      apply (enumerateDevices_spec h).weaken (fun t ht => ht)
      · rintro devices t ⟨hlists, ht⟩
        obtain ⟨s', h', ht⟩ := ht.follows h
        exact .nothing h' (.listed rfl hlists rfl) ht
      · rintro t ⟨hreason, ht⟩
        obtain ⟨s', h', ht⟩ := ht.follows h
        exact .nothing h' (fun err => .failed rfl hreason) ht

/-! ## Runs -/

/-- The account has a key `1` for its one address. -/
def sampleOwner : Owner where
  volumeId := 1
  addressId := "address"
  email := "me@proton.me"
  addressKey := 1
  addressKeyId := "address-key"
  keysOf _ := [1]
  signer _ := ("me@proton.me", 1)
  mem_keys := List.mem_singleton_self 1

def sampleChoices : Choices sampleOwner where
  newDevice s :=
    { uid := newText (s.devices.map Registered.uid)
      shareId := newText (s.devices.map (fun r => r.share.id))
      rootLinkId := newNumber (s.born.map (fun p => p.1.linkId))
      createTime := 5 }
  fresh s := by
    refine ⟨newText_notMem _, newText_notMem _, List.lookup_eq_none_iff.mpr ?_⟩
    intro p hp
    rw [bne_iff_ne]
    intro heq
    apply newNumber_notMem (s.born.map (fun p => p.1.linkId))
    exact List.mem_map.mpr ⟨p, hp, by rw [← heq]⟩
  keepsKeyPackets := true

def sampleNew : NewDevice := ⟨"old", "old-share", 7, 1⟩

def sampleEntry : Entry :=
  { newEntry sampleOwner "plain" .linux sampleNew with deprecatedName := true }

end ProtonDrive.Devices
