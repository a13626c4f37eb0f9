import ProtonDrive.Drive.ConsistentWalk
import ProtonDrive.Drive.Reads

/-!
# Single loads, over any server

What a load of one node returns when the caches agree with the server, whatever that says: links may
be missing, be below links that are missing, or not decrypt.

* `Consistent` — a cached key is one that can be had, and a cached node has the parent that its link
  has. It is all that the reads of link details rely on, and weaker than `Sound`.
* `Shows` — the link decrypts to the node, with the key above it.
* `Consistent.loadNode` — a load that returns has a node exactly if the server shows one.
-/

namespace ProtonDrive

open OpenPgp

namespace Context

section Shows

variable (c : Context) (server : NodeUid → Option LinkDetails)

/-- The node key of a link can be had, and is `key`. -/
def Unlocks (uid : NodeUid) (key : Key) : Prop :=
  KeyWalk.Unlocks (linksOf server uid.volumeId) (c.rootLinkShareKey uid.volumeId) uid.linkId key

/-- The key above a link can be had, and is `key`. -/
def KeyAbove (volumeId : VolumeId) (link : Link) (key : Key) : Prop :=
  KeyWalk.KeyAbove (linksOf server volumeId) (c.rootLinkShareKey volumeId) link key

/-- The server has the link, and it decrypts to the node. -/
def Shows (detail : NodeDetail) (uid : NodeUid) (node : Node) : Prop :=
  ∃ details key nodeKey, server uid = some details ∧
    c.KeyAbove server uid.volumeId details.link key ∧
    c.account.decryptNode detail uid.volumeId details key = .ok (node, nodeKey)

/-- What a client remembers agrees with the server. -/
structure Consistent (w : World) : Prop where
  server_eq : w.server = server
  named : WellNamed server
  keys : ∀ {uid key}, w.folderKeys uid = some key → c.Unlocks server uid key
  parents : ∀ {uid info}, w.entities uid = some info → ∃ details, server uid = some details ∧
    info.node.parentUid = details.link.parentId.map (NodeUid.mk uid.volumeId)

/-- Parents, whether they exist or not, are nearer to the root, and the fuel is enough for any way
there. -/
structure Grounded (depth : NodeUid → Nat) : Prop where
  nearer : ∀ {uid details p}, server uid = some details → details.link.parentId = some p →
    depth ⟨uid.volumeId, p⟩ < depth uid
  shallow : ∀ {uid details}, server uid = some details → depth uid < c.fuel

end Shows

variable {c : Context} {server : NodeUid → Option LinkDetails} {w w' : World}

/-! ## Keys -/

theorem KeyAbove.unique {v : VolumeId} {link : Link} {key key' : Key}
    (h : c.KeyAbove server v link key) (h' : c.KeyAbove server v link key') : key = key' := by
  unfold KeyAbove at h h'
  cases hp : link.parentId with
  | none =>
      rw [KeyWalk.keyAbove_root hp] at h h'
      rw [h, Except.ok.injEq] at h'
      exact h'
  | some p =>
      rw [KeyWalk.keyAbove_child hp] at h h'
      exact h.unique h'

/-- The key above a link depends only on where it comes from. -/
theorem keyAbove_of {v : VolumeId} {link link' : Link} {key : Key}
    (h : ParentKeyId.of link = ParentKeyId.of link') :
    c.KeyAbove server v link key ↔ c.KeyAbove server v link' key := by
  unfold ParentKeyId.of at h
  unfold KeyAbove
  cases hp : link.parentId with
  | none =>
      cases hp' : link'.parentId with
      | none =>
          rw [hp, hp', ParentKeyId.root.injEq] at h
          rw [KeyWalk.keyAbove_root hp, KeyWalk.keyAbove_root hp', h]
      | some p' => rw [hp, hp'] at h; cases h
  | some p =>
      cases hp' : link'.parentId with
      | none => rw [hp, hp'] at h; cases h
      | some p' =>
          rw [hp, hp'] at h
          cases h
          rw [KeyWalk.keyAbove_child hp, KeyWalk.keyAbove_child hp']

theorem linksOf_eq {uid : NodeUid} {details : LinkDetails} (hd : server uid = some details) :
    linksOf server uid.volumeId uid.linkId = some details.link := by
  unfold linksOf
  rw [show (⟨uid.volumeId, uid.linkId⟩ : NodeUid) = uid from rfl, hd]
  rfl

/-- A key that a build unlocks is that of its link. -/
theorem unlocks_of_build {detail : NodeDetail} {uid : NodeUid} {details : LinkDetails}
    {key nodeKey : Key} {node : Node} (hd : server uid = some details)
    (hkey : c.KeyAbove server uid.volumeId details.link key)
    (hbuilt : c.account.decryptNode detail uid.volumeId details key = .ok (node, some nodeKey)) :
    c.Unlocks server uid nodeKey := by
  obtain ⟨d, hopen, rfl⟩ := decryptNode_nodeKey hbuilt
  exact (KeyWalk.unlocks_iff (linksOf_eq hd)).mpr ⟨key, d, hkey, hopen, rfl⟩

theorem Shows.unique {detail : NodeDetail} {uid : NodeUid} {node node' : Node}
    (h : c.Shows server detail uid node) (h' : c.Shows server detail uid node') : node = node' := by
  obtain ⟨details, key, nodeKey, hd, hkey, hbuilt⟩ := h
  obtain ⟨details', key', nodeKey', hd', hkey', hbuilt'⟩ := h'
  rw [hd] at hd'
  cases hd'
  rw [hkey.unique hkey', hbuilt'] at hbuilt
  cases hbuilt
  rfl

/-! ## Writes to the caches -/

theorem Consistent.putFolderKeys (h : c.Consistent server w) {v : VolumeId}
    {puts : List (LinkId × Key)} (hputs : ∀ put ∈ puts, c.Unlocks server ⟨v, put.1⟩ put.2) :
    c.Consistent server (w.putFolderKeys v puts) where
  server_eq := by rw [putFolderKeys_server]; exact h.server_eq
  named := h.named
  keys := by
    intro uid key hk
    rcases putFolderKeys_eq_some hk with hk | ⟨rfl, hmem⟩
    · exact h.keys hk
    · exact hputs _ hmem
  parents := by rw [putFolderKeys_entities]; exact h.parents

theorem Consistent.putFolderKey (h : c.Consistent server w) {uid : NodeUid} {key : Key}
    (hkey : c.Unlocks server uid key) : c.Consistent server (w.putFolderKey uid key) := by
  have hputs : ∀ put ∈ [(uid.linkId, key)], c.Unlocks server ⟨uid.volumeId, put.1⟩ put.2 := by
    intro put hmem
    obtain rfl := List.mem_singleton.mp hmem
    exact hkey
  exact h.putFolderKeys hputs

theorem Consistent.cacheFolderKey (h : c.Consistent server w) {uid : NodeUid}
    {details : LinkDetails} {nodeKey : Option Key}
    (hkey : ∀ key, nodeKey = some key → c.Unlocks server uid key) :
    c.Consistent server (cacheFolderKey details uid nodeKey w) := by
  unfold Context.cacheFolderKey
  split
  · exact h.putFolderKey (hkey _ rfl)
  · exact h.putFolderKey (hkey _ rfl)
  · exact h

theorem Consistent.cacheEntity (h : c.Consistent server w) {details : LinkDetails} {node : Node}
    (hd : server node.uid = some details)
    (hparent : node.parentUid = details.link.parentId.map (NodeUid.mk node.uid.volumeId)) :
    c.Consistent server (cacheEntity details node w) := by
  unfold Context.cacheEntity
  split
  · refine ⟨h.server_eq, h.named, h.keys, ?_⟩
    intro uid info hinfo
    simp only [World.setNode, Function.update_apply] at hinfo
    split at hinfo
    · next huid =>
      cases hinfo
      subst huid
      exact ⟨details, hd, hparent⟩
    · exact h.parents hinfo
  · exact h

theorem Consistent.evict (h : c.Consistent server w) (uids : List NodeUid) :
    c.Consistent server (evict w uids) where
  server_eq := h.server_eq
  named := h.named
  keys := by
    intro uid key hk
    simp only [Context.evict] at hk
    split at hk
    · cases hk
    · exact h.keys hk
  parents := h.parents

/-! ## The parent key -/

theorem Consistent.walkEnv (h : c.Consistent server w) (v : VolumeId) :
    (w.walkEnv c v).Consistent := by
  constructor
  · rfl
  · -- What is cached agrees with the server, and so does what the walk sees of it.
    intro a l hl
    have hl : (w.server ⟨v, a⟩).map LinkDetails.link = some l := hl
    rw [h.server_eq] at hl
    obtain ⟨details, hd, rfl⟩ := Option.map_eq_some_iff.mp hl
    exact h.named _ _ hd
  · intro a q hq
    obtain ⟨info, hinfo, rfl⟩ := Option.map_eq_some_iff.mp hq
    obtain ⟨details, hd, hparent⟩ := h.parents hinfo
    refine ⟨details.link, ?_, ?_⟩
    · show (w.server ⟨v, a⟩).map LinkDetails.link = some details.link
      rw [h.server_eq, hd]
      rfl
    · rw [hparent]
      cases details.link.parentId with
      | none => rfl
      | some p => rfl
  · intro a k hk
    have hkey := h.keys hk
    unfold Unlocks at hkey
    rw [← h.server_eq] at hkey
    exact hkey

/-- A parent key is resolved exactly if there is one. -/
theorem Consistent.resolveParentKey (h : c.Consistent server w) {v : VolumeId} {link : Link}
    {r : Except ProtonError Key} (hrun : (c.resolveParentKey v link).run w = some (w', r)) :
    c.Consistent server w' ∧ ∀ k, r = .ok k ↔ c.KeyAbove server v link k := by
  unfold Context.resolveParentKey at hrun
  dsimp only at hrun
  split at hrun
  · next key hcached =>
    cases hrun
    -- The key of the parent is cached, and right.
    obtain ⟨p, hp, hkey⟩ := Option.bind_eq_some_iff.mp hcached
    have habove : c.KeyAbove server v link key := (KeyWalk.keyAbove_child hp).mpr (h.keys hkey)
    refine ⟨h, ?_⟩
    intro k
    constructor
    · intro hsame
      cases hsame
      exact habove
    · intro hk
      rw [habove.unique hk]
  · -- The walk finds the key, and what it puts into the cache is right.
    obtain ⟨⟨puts, r'⟩, hwalk, hsame⟩ := Option.map_eq_some_iff.mp hrun
    cases hsame
    obtain ⟨hputs, hkeys⟩ := KeyWalk.walk_keyAbove (h.walkEnv v) hwalk
    have hserver : (w.walkEnv c v).server = linksOf server v := by rw [← h.server_eq]; rfl
    unfold KeyWalk.Env.PutsRight at hputs
    rw [hserver] at hputs hkeys
    exact ⟨h.putFolderKeys hputs, hkeys⟩

theorem Consistent.resolveParentKey_returns {depth : NodeUid → Nat} (h : c.Consistent server w)
    (hground : c.Grounded server depth) {uid : NodeUid} {details : LinkDetails}
    (hd : server uid = some details) :
    ∃ w' r, (c.resolveParentKey uid.volumeId details.link).run w = some (w', r) := by
  unfold Context.resolveParentKey
  dsimp only
  split
  · exact ⟨_, _, rfl⟩
  · have hnearer : ∀ {a l p}, (w.walkEnv c uid.volumeId).server a = some l → l.parentId = some p →
        depth ⟨uid.volumeId, p⟩ < depth ⟨uid.volumeId, a⟩ := by
      intro a l p hl hp
      have hl : (w.server ⟨uid.volumeId, a⟩).map LinkDetails.link = some l := hl
      rw [h.server_eq] at hl
      obtain ⟨details', hd', rfl⟩ := Option.map_eq_some_iff.mp hl
      exact hground.nearer hd' hp
    obtain ⟨outcome, hwalk⟩ : ∃ outcome,
        (w.walkEnv c uid.volumeId).resolveParentKeyWalk c.fuel details.link = some outcome := by
      -- Every hop leads closer to the root, and the fuel is more than the depth.
      apply KeyWalk.walk_returns (h.walkEnv uid.volumeId) hnearer
      intro p hp
      exact Nat.lt_trans (hground.nearer hd hp) (hground.shallow hd)
    rw [hwalk]
    exact ⟨_, _, rfl⟩

/-! ## Loads -/

/-- **A load that returns** has a node exactly if the server shows one. -/
theorem Consistent.loadNode (h : c.Consistent server w) {uid : NodeUid}
    {r : Except ProtonError (Option Node)} (hrun : (c.loadNode uid).run w = some (w', r))
    (node : Node) : r = .ok (some node) ↔ c.Shows server .full uid node := by
  unfold Context.loadNode getLinkDetails at hrun
  rw [Program.read_bind, h.server_eq] at hrun
  cases hd : server uid with
  | none =>
      simp only [List.filterMap_cons, List.filterMap_nil, hd, List.head?_nil] at hrun
      cases hrun
      constructor
      · intro hnone
        cases hnone
      · rintro ⟨details, _, _, hd', _⟩
        rw [hd] at hd'
        cases hd'
  | some details =>
      simp only [List.filterMap_cons, List.filterMap_nil, hd, List.head?_cons] at hrun
      rcases Program.bind_eq_some.mp hrun with ⟨e, hresolve, rfl⟩ | ⟨w1, key, hresolve, hrest⟩
      · obtain ⟨-, hkeys⟩ := h.resolveParentKey hresolve
        constructor
        · intro hnone
          cases hnone
        · rintro ⟨details', key, _, hd', hkey, _⟩
          rw [hd] at hd'
          cases hd'
          cases (hkeys key).mpr hkey
      · obtain ⟨-, hkeys⟩ := h.resolveParentKey hresolve
        have hkey := (hkeys key).mp rfl
        -- The build is that of the server's link, with the key above it.
        have hshows : c.Shows server .full uid node ↔
            ∃ nodeKey,
              c.account.decryptNode .full uid.volumeId details key = .ok (node, nodeKey) := by
          constructor
          · rintro ⟨details', key', nodeKey, hd', hkey', hbuilt⟩
            rw [hd] at hd'
            cases hd'
            rw [hkey.unique hkey']
            exact ⟨nodeKey, hbuilt⟩
          · rintro ⟨nodeKey, hbuilt⟩
            exact ⟨details, key, nodeKey, hd, hkey, hbuilt⟩
        rw [hshows]
        rcases Program.bind_eq_some.mp hrest with ⟨e, hbuild, rfl⟩ | ⟨w2, built, hbuild, hlast⟩
        · rw [buildNode_run] at hbuild
          split at hbuild
          · next hbuilt =>
            simp [hbuilt]
          · cases hbuild
        · rw [buildNode_run] at hbuild
          split at hbuild
          · cases hbuild
          · next node' nodeKey hbuilt =>
            cases hbuild
            cases hlast
            simp [hbuilt]

/-- A single load returns, if ways to a root end. -/
theorem Consistent.loadNode_returns {depth : NodeUid → Nat} (h : c.Consistent server w)
    (hground : c.Grounded server depth) (uid : NodeUid) :
    ∃ w' r, (c.loadNode uid).run w = some (w', r) := by
  unfold Context.loadNode getLinkDetails
  rw [Program.read_bind, h.server_eq]
  cases hd : server uid with
  | none =>
      simp only [List.filterMap_cons, List.filterMap_nil, hd, List.head?_nil]
      exact ⟨_, _, rfl⟩
  | some details =>
      simp only [List.filterMap_cons, List.filterMap_nil, hd, List.head?_cons]
      obtain ⟨w1, r, hresolve⟩ := h.resolveParentKey_returns hground hd
      cases r with
      -- A key that is not found ends the load with an error.
      | error e => exact ⟨_, _, Program.bind_error hresolve⟩
      | ok key =>
          rw [Program.bind_ok hresolve]
          cases hbuilt : c.account.decryptNode .full uid.volumeId details key with
          | error e =>
              have hbuild : (c.buildNode uid.volumeId details key .full).run w1 =
                  some (w1, .error e) := by rw [buildNode_run, hbuilt]
              exact ⟨_, _, Program.bind_error hbuild⟩
          | ok built =>
              have hbuild := buildNode_run (c := c) uid.volumeId details key .full w1
              rw [hbuilt] at hbuild
              rw [Program.bind_ok hbuild]
              exact ⟨_, _, rfl⟩

/-! ## Sound caches are consistent -/

theorem keyAbove_of_plain {v : VolumeId} {fuel : Nat} {link : Link} {key : Key}
    (h : KeyWalk.plainParentKey (linksOf server v) (c.rootLinkShareKey v) fuel link = .ok key) :
    c.KeyAbove server v link key := by
  induction fuel generalizing link key with
  | zero =>
      unfold KeyWalk.plainParentKey at h
      split at h
      · next hp => exact (KeyWalk.keyAbove_root hp).mpr h
      · cases h
      · next hfuel => cases hfuel
  | succ fuel ih =>
      cases hp : link.parentId with
      | none =>
          rw [KeyWalk.plainParentKey_root hp] at h
          exact (KeyWalk.keyAbove_root hp).mpr h
      | some p =>
          rw [KeyWalk.plainParentKey_child hp] at h
          unfold KeyWalk.plainKey at h
          split at h
          · cases h
          · -- By induction the key above the parent opens it.
            next parent hparent =>
            obtain ⟨above, habove, h⟩ := Except.bind_eq_ok.mp h
            obtain ⟨d, hopen, hsame⟩ := Except.bind_eq_ok.mp h
            cases hsame
            apply (KeyWalk.keyAbove_child hp).mpr
            exact (KeyWalk.unlocks_iff hparent).mpr ⟨above, d, ih habove, hopen, rfl⟩

theorem unlocks_of_plainKey {uid : NodeUid} {key : Key} (h : c.plainKey server uid = .ok key) :
    c.Unlocks server uid key := by
  unfold plainKey KeyWalk.plainKey at h
  split at h
  · cases h
  · next link hlink =>
    obtain ⟨above, habove, h⟩ := Except.bind_eq_ok.mp h
    obtain ⟨d, hopen, hsame⟩ := Except.bind_eq_ok.mp h
    cases hsame
    exact (KeyWalk.unlocks_iff hlink).mpr ⟨above, d, keyAbove_of_plain habove, hopen, rfl⟩

theorem Sound.consistent {depth : NodeUid → Nat} (h : c.Sound server depth w) :
    c.Consistent server w where
  server_eq := h.server_eq
  named uid details hd := h.rooted.id_eq hd
  keys hk := unlocks_of_plainKey (h.keys hk)
  parents := by
    intro uid info hinfo
    obtain ⟨details, hd, -, detail, hbuild⟩ := h.entities hinfo
    obtain ⟨details', parentKey, nodeKey, hd', -, hbuilt⟩ := plainBuild_eq_some.mp hbuild
    rw [hd] at hd'
    cases hd'
    exact ⟨details, hd, (decryptNode_uids hbuilt).2⟩

theorem Rooted.grounded {depth : NodeUid → Nat} (h : c.Rooted server depth) :
    c.Grounded server depth where
  nearer := by
    intro uid details p hd hp
    exact ((h.tree uid.volumeId).parent (linksOf_eq hd) hp).2
  shallow hd := h.shallow hd

end Context

end ProtonDrive
