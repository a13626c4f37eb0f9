import ProtonDrive.Lib.Machine
import ProtonDrive.Drive.Client

/-!
# Light and full reads of one client

Light and full builds share the entity cache, and `get_node` returns what it finds there. So a light
listing of a file is what later reads of the file get, `get_node_by_path` included, which lists the
children of a folder lightly before it reads one of them "in full".

* `plainBuild` — a build of a node from the link details alone, without any cache.
* `Sound` — with the server's contents fixed, every cached key and every cached node is a plain one,
  light or full. All reads keep it.
* `reads_full_iff` — in a run of reads, every read returns the full build of its node exactly when
  none meets a light entry of a node whose own key has something to add.
-/

namespace ProtonDrive

open OpenPgp

namespace Context

/-! ## Reads without caches -/

section Plain

variable (c : Context) (server : NodeUid → Option LinkDetails)

def plainParentKey (volumeId : VolumeId) (link : Link) : Except ProtonError Key :=
  KeyWalk.plainParentKey (linksOf server volumeId) (c.rootLinkShareKey volumeId) c.fuel link

def plainKey (uid : NodeUid) : Except ProtonError Key :=
  KeyWalk.plainKey (linksOf server uid.volumeId) (c.rootLinkShareKey uid.volumeId) c.fuel uid.linkId

/-- The build of a node from the server's link details. -/
def plainBuild (detail : NodeDetail) (uid : NodeUid) : Except ProtonError (Option Node) :=
  match server uid with
  | none => .ok none
  | some details => do
      let parentKey ← c.plainParentKey server uid.volumeId details.link
      let built ← c.account.decryptNode detail uid.volumeId details parentKey
      return some built.1

/-- The node a listing shows for a child, if it shows one. -/
def plainListed (detail : NodeDetail) (uid : NodeUid) : Option Node :=
  (c.plainBuild server detail uid).toOption.join

/-- The child of a folder with a name: the first one in the listing. -/
def plainChild (parent : NodeUid) (name : Bytes) : Option NodeUid :=
  (((c.enumerateFolderChildrenNodeUids parent).filterMap (c.plainListed server .light)).find?
    (fun child => child.name == name)).map Node.uid

/-- The node that a path names. -/
def plainTarget : NodeUid → List Bytes → Option NodeUid
  | current, [] => some current
  | current, segment :: rest => (c.plainChild server current segment).bind (plainTarget · rest)

end Plain

variable {c : Context} {server : NodeUid → Option LinkDetails}

/-- What a read without caches returns, and when it does. -/
theorem plainBuild_eq_some {detail : NodeDetail} {uid : NodeUid} {node : Node} :
    c.plainBuild server detail uid = .ok (some node) ↔
      ∃ details parentKey nodeKey, server uid = some details ∧
        c.plainParentKey server uid.volumeId details.link = .ok parentKey ∧
        c.account.decryptNode detail uid.volumeId details parentKey = .ok (node, nodeKey) := by
  unfold plainBuild
  cases hd : server uid with
  | none => simp
  | some details =>
      simp only [Except.bind_eq_ok, Option.some.injEq]
      constructor
      · rintro ⟨parentKey, hkey, ⟨node', nodeKey⟩, hbuilt, h⟩
        cases h
        exact ⟨details, parentKey, nodeKey, rfl, hkey, hbuilt⟩
      · rintro ⟨details', parentKey, nodeKey, rfl, hkey, hbuilt⟩
        exact ⟨parentKey, hkey, (node, nodeKey), hbuilt, rfl⟩

/-! ## Sound caches -/

/-- The server's links form trees, no deeper than the fuel. -/
structure Rooted (c : Context) (server : NodeUid → Option LinkDetails) (depth : NodeUid → Nat) :
    Prop where
  tree : ∀ v, KeyWalk.IsTree (linksOf server v) (fun a => depth ⟨v, a⟩)
  shallow : ∀ {uid details}, server uid = some details → depth uid < c.fuel

/-- What a client remembers is what the server says. -/
structure Sound (c : Context) (server : NodeUid → Option LinkDetails) (depth : NodeUid → Nat)
    (w : World) : Prop where
  server_eq : w.server = server
  rooted : c.Rooted server depth
  keys : ∀ {uid key}, w.folderKeys uid = some key → c.plainKey server uid = .ok key
  entities : ∀ {uid info}, w.entities uid = some info →
    ∃ details, server uid = some details ∧ details.link.nameHash = some info.nameHashDigest ∧
      ∃ detail, c.plainBuild server detail uid = .ok (some info.node)

variable {depth : NodeUid → Nat} {w : World}

/-- The server files every link under its own id. -/
theorem Rooted.id_eq (h : c.Rooted server depth) {uid : NodeUid} {details : LinkDetails}
    (hd : server uid = some details) : details.link.id = uid.linkId := by
  apply (h.tree uid.volumeId).id_eq (a := uid.linkId)
  simp [linksOf, hd]

/-- A link becomes a node of its own uid. -/
theorem Rooted.node_uid (h : c.Rooted server depth) {detail : NodeDetail} {uid : NodeUid}
    {details : LinkDetails} {parentKey : Key} {node : Node} {nodeKey : Option Key}
    (hd : server uid = some details)
    (hbuilt : c.account.decryptNode detail uid.volumeId details parentKey = .ok (node, nodeKey)) :
    node.uid = uid := by
  rw [(decryptNode_uids hbuilt).1, h.id_eq hd]

/-- For the walk to a root, the caches of a sound client are sound. -/
theorem Sound.walkEnv (h : c.Sound server depth w) (v : VolumeId) :
    (w.walkEnv c v).Sound (fun a => depth ⟨v, a⟩) c.fuel := by
  constructor
  · show KeyWalk.IsTree (linksOf w.server v) _
    rw [h.server_eq]
    exact h.rooted.tree v
  · intro a l hl
    have hl : (w.server ⟨v, a⟩).map LinkDetails.link = some l := hl
    rw [h.server_eq] at hl
    obtain ⟨details, hd, -⟩ := Option.map_eq_some_iff.mp hl
    exact h.rooted.shallow hd
  · rfl
  · -- A cached node was built from the link of the server, so it has its parent.
    intro a q hq
    obtain ⟨info, hinfo, rfl⟩ := Option.map_eq_some_iff.mp hq
    obtain ⟨-, -, -, detail, hbuild⟩ := h.entities hinfo
    obtain ⟨details, parentKey, nodeKey, hd, -, hbuilt⟩ := plainBuild_eq_some.mp hbuild
    refine ⟨details.link, ?_, ?_⟩
    · show (w.server ⟨v, a⟩).map LinkDetails.link = some details.link
      rw [h.server_eq, hd]
      rfl
    · rw [(decryptNode_uids hbuilt).2]
      cases details.link.parentId with
      | none => rfl
      | some p => rfl
  · intro a k hk
    have hplain := h.keys hk
    rw [← h.server_eq] at hplain
    exact hplain

/-- Right keys leave the caches right. -/
theorem Sound.putFolderKeys (h : c.Sound server depth w) {v : VolumeId}
    {puts : List (LinkId × Key)}
    (hputs : ∀ put ∈ puts, c.plainKey server ⟨v, put.1⟩ = .ok put.2) :
    c.Sound server depth (w.putFolderKeys v puts) where
  server_eq := by rw [putFolderKeys_server]; exact h.server_eq
  rooted := h.rooted
  keys := by
    intro uid key hk
    rcases putFolderKeys_eq_some hk with hk | ⟨rfl, hmem⟩
    · exact h.keys hk
    · exact hputs _ hmem
  entities := by rw [putFolderKeys_entities]; exact h.entities

/-- A right key leaves the caches right. -/
theorem Sound.putFolderKey (h : c.Sound server depth w) {uid : NodeUid} {key : Key}
    (hkey : c.plainKey server uid = .ok key) : c.Sound server depth (w.putFolderKey uid key) := by
  have hput : ∀ put ∈ [(uid.linkId, key)],
      c.plainKey server ⟨uid.volumeId, put.1⟩ = .ok put.2 := by
    intro put hmem
    obtain rfl := List.mem_singleton.mp hmem
    exact hkey
  exact h.putFolderKeys hput

/-- A node as the server shows it leaves the caches right. -/
theorem Sound.setNode (h : c.Sound server depth w) {uid : NodeUid} {info : CachedNodeInfo}
    {detail : NodeDetail} {details : LinkDetails} (hd : server uid = some details)
    (hhash : details.link.nameHash = some info.nameHashDigest)
    (hinfo : c.plainBuild server detail uid = .ok (some info.node)) :
    c.Sound server depth (w.setNode uid info) where
  server_eq := h.server_eq
  rooted := h.rooted
  keys := h.keys
  entities := by
    intro uid' info' h'
    simp only [World.setNode, Function.update_apply] at h'
    split at h'
    · next huid =>
      cases h'
      subst huid
      exact ⟨details, hd, hhash, detail, hinfo⟩
    · exact h.entities h'

/-! ## The programs, with sound caches -/

/-- The parent key is the plain one, however it is found. -/
theorem Sound.resolveParentKey (h : c.Sound server depth w) {uid : NodeUid}
    {details : LinkDetails} (hd : server uid = some details) :
    ∃ w', (c.resolveParentKey uid.volumeId details.link).run w =
        some (w', c.plainParentKey server uid.volumeId details.link) ∧
      c.Sound server depth w' ∧ w'.entities = w.entities := by
  have hsound := h.walkEnv uid.volumeId
  have hlink : (w.walkEnv c uid.volumeId).server details.link.id = some details.link := by
    show (w.server ⟨uid.volumeId, details.link.id⟩).map LinkDetails.link = some details.link
    rw [h.server_eq, h.rooted.id_eq hd, hd]
    rfl
  have hplain : KeyWalk.plainParentKey (w.walkEnv c uid.volumeId).server
      (w.walkEnv c uid.volumeId).rootLinkShareKey c.fuel details.link =
      c.plainParentKey server uid.volumeId details.link := by
    rw [plainParentKey, ← h.server_eq]
    rfl
  unfold Context.resolveParentKey
  dsimp only
  split
  · -- The key that is cached is the one that the walk without caches finds.
    next key hkey =>
    obtain ⟨p, hp, hcached⟩ := Option.bind_eq_some_iff.mp hkey
    refine ⟨w, ?_, h, rfl⟩
    rw [← hplain, hsound.plainParentKey_eq hp hlink, hsound.keys hcached]
  · obtain ⟨puts, hwalk, hputs⟩ := KeyWalk.walk_plain hsound hlink
    refine ⟨w.putFolderKeys uid.volumeId puts, ?_, ?_, putFolderKeys_entities w _ puts⟩
    · rw [hwalk, hplain]
      rfl
    · apply h.putFolderKeys
      intro put hput
      have hkey := hputs put hput
      rw [← h.server_eq]
      exact hkey

/-- The key of a folder that was opened leaves the caches right. -/
theorem Sound.cacheFolderKey (h : c.Sound server depth w) {uid : NodeUid} {details : LinkDetails}
    {nodeKey : Option Key} (hkey : ∀ key, nodeKey = some key → c.plainKey server uid = .ok key) :
    c.Sound server depth (cacheFolderKey details uid nodeKey w) := by
  unfold Context.cacheFolderKey
  split
  · exact h.putFolderKey (hkey _ rfl)
  · exact h.putFolderKey (hkey _ rfl)
  · exact h

/-- A link that was opened leaves the caches right. -/
theorem Sound.cacheEntity (h : c.Sound server depth w) {details : LinkDetails} {node : Node}
    {detail : NodeDetail} (hd : server node.uid = some details)
    (hnode : c.plainBuild server detail node.uid = .ok (some node)) :
    c.Sound server depth (cacheEntity details node w) := by
  unfold Context.cacheEntity
  split
  · next hash hhash => exact h.setNode hd hhash hnode
  · exact h

/-- A key that a build unlocks is the plain one. -/
theorem plainKey_of_build {uid : NodeUid} {details : LinkDetails} {detail : NodeDetail}
    {parentKey key : Key} {node : Node} (hd : server uid = some details)
    (hkey : c.plainParentKey server uid.volumeId details.link = .ok parentKey)
    (hbuilt : c.account.decryptNode detail uid.volumeId details parentKey = .ok (node, some key)) :
    c.plainKey server uid = .ok key := by
  obtain ⟨d, hdecrypt, rfl⟩ := decryptNode_nodeKey hbuilt
  unfold plainParentKey at hkey
  simp only [plainKey, KeyWalk.plainKey, linksOf, hd, Option.map_some]
  rw [hkey]
  exact KeyWalk.nodeKeyUnder_eq_ok hdecrypt

/-- The entry of a node is the one that a build with `detail` writes, if it writes one. -/
def Listed (c : Context) (server : NodeUid → Option LinkDetails) (detail : NodeDetail) (w : World)
    (uid : NodeUid) : Prop :=
  ∀ details hash node, server uid = some details → details.link.nameHash = some hash →
    c.plainBuild server detail uid = .ok (some node) → w.entities uid = some ⟨node, hash⟩

/-- The node that is cached is listed, and the others stay so. -/
theorem Listed.cacheEntity {detail : NodeDetail} {uid : NodeUid} {details : LinkDetails} {node : Node}
    (hd : server node.uid = some details)
    (hnode : c.plainBuild server detail node.uid = .ok (some node))
    (h : uid = node.uid ∨ c.Listed server detail w uid) :
    c.Listed server detail (cacheEntity details node w) uid := by
  intro details' hash node' hd' hhash hplain
  unfold Context.cacheEntity
  by_cases huid : uid = node.uid
  · subst huid
    rw [hd] at hd'
    cases hd'
    rw [hnode] at hplain
    cases hplain
    rw [hhash]
    exact Function.update_self ..
  · -- The entry of another node stays.
    have hbefore := (h.resolve_left huid) details' hash node' hd' hhash hplain
    split
    · rw [World.setNode]
      exact (Function.update_of_ne huid ..).trans hbefore
    · exact hbefore

/-- A build returns the plain node, keeps the caches sound, and leaves its node, and all that were
listed with the same detail, listed. -/
theorem Sound.buildNode (h : c.Sound server depth w) {uid : NodeUid} {details : LinkDetails}
    {parentKey : Key} (hd : server uid = some details)
    (hkey : c.plainParentKey server uid.volumeId details.link = .ok parentKey)
    (detail : NodeDetail) :
    ∃ w', (c.buildNode uid.volumeId details parentKey detail).run w =
        some (w', (c.account.decryptNode detail uid.volumeId details parentKey).map Prod.fst) ∧
      c.Sound server depth w' ∧ c.Listed server detail w' uid ∧
      ∀ uid', c.Listed server detail w uid' → c.Listed server detail w' uid' := by
  rw [buildNode_run]
  cases hbuilt : c.account.decryptNode detail uid.volumeId details parentKey with
  | error e =>
      -- A node that does not open is not listed either.
      refine ⟨w, rfl, h, ?_, fun _ hlisted => hlisted⟩
      intro details' hash node hd' _ hplain
      obtain ⟨details'', key', nodeKey, hd'', hkey', hbuilt'⟩ := plainBuild_eq_some.mp hplain
      rw [hd] at hd''
      cases hd''
      rw [hkey] at hkey'
      cases hkey'
      rw [hbuilt] at hbuilt'
      cases hbuilt'
  | ok built =>
      obtain ⟨node, nodeKey⟩ := built
      have huid : node.uid = uid := h.rooted.node_uid hd hbuilt
      subst huid
      have hplain : c.plainBuild server detail node.uid = .ok (some node) :=
        plainBuild_eq_some.mpr ⟨details, parentKey, nodeKey, hd, hkey, hbuilt⟩
      -- The folder key is cached first, and then the node.
      have hkeys : c.Sound server depth (Context.cacheFolderKey details node.uid nodeKey w) := by
        apply h.cacheFolderKey
        rintro key rfl
        exact plainKey_of_build hd hkey hbuilt
      refine ⟨_, rfl, hkeys.cacheEntity hd hplain, .cacheEntity hd hplain (.inl rfl), ?_⟩
      intro uid' hlisted
      apply Listed.cacheEntity hd hplain
      right
      intro details' hash node' hd' hhash hplain'
      rw [cacheFolderKey_entities]
      exact hlisted details' hash node' hd' hhash hplain'

/-- A load returns the full build. -/
theorem Sound.loadNode (h : c.Sound server depth w) (uid : NodeUid) :
    ∃ w', (c.loadNode uid).run w = some (w', c.plainBuild server .full uid) ∧
      c.Sound server depth w' := by
  unfold Context.loadNode getLinkDetails
  rw [Program.read_bind]
  unfold plainBuild
  cases hd : server uid with
  | none =>
      refine ⟨w, ?_, h⟩
      simp only [h.server_eq, hd, List.filterMap_cons, List.filterMap_nil, List.head?_nil]
      rfl
  | some details =>
      simp only [h.server_eq, hd, List.filterMap_cons, List.filterMap_nil, List.head?_cons]
      obtain ⟨w1, hresolve, h1, -⟩ := h.resolveParentKey hd
      cases hkey : c.plainParentKey server uid.volumeId details.link with
      | error e =>
          rw [hkey] at hresolve
          exact ⟨w1, Program.bind_error hresolve, h1⟩
      | ok parentKey =>
          rw [hkey] at hresolve
          obtain ⟨w2, hbuild, h2, -⟩ := h1.buildNode hd hkey .full
          refine ⟨w2, ?_, h2⟩
          rw [Program.bind_ok hresolve]
          -- What is built is what the server's link opens to.
          cases hbuilt : c.account.decryptNode .full uid.volumeId details parentKey with
          | error e =>
              rw [hbuilt] at hbuild
              rw [Program.bind_error hbuild]
              simp [bind, Except.bind, hbuilt]
          | ok built =>
              rw [hbuilt] at hbuild
              rw [Program.bind_ok hbuild]
              simp [bind, Except.bind, hbuilt, pure, Except.pure, Program.pure]

/-- What `get_node` returns: the entry, or the full build. -/
theorem Sound.getNode (h : c.Sound server depth w) (uid : NodeUid) :
    ∃ w', (c.getNode uid).run w = some (w', match w.entities uid with
        | some info => .ok (some info.node)
        | none => c.plainBuild server .full uid) ∧
      c.Sound server depth w' := by
  unfold Context.getNode
  rw [Program.read_bind]
  cases w.entities uid with
  | some info => exact ⟨w, rfl, h⟩
  | none => exact h.loadNode uid

/-! ## Listings -/

/-- The key above a link depends only on where it comes from. -/
theorem plainParentKey_of {v : VolumeId} {link link' : Link}
    (h : ParentKeyId.of link = ParentKeyId.of link') :
    c.plainParentKey server v link = c.plainParentKey server v link' := by
  unfold ParentKeyId.of at h
  unfold plainParentKey
  cases hp : link.parentId with
  | none =>
      cases hp' : link'.parentId with
      | none =>
          rw [hp, hp', ParentKeyId.root.injEq] at h
          rw [KeyWalk.plainParentKey_root hp, KeyWalk.plainParentKey_root hp', h]
      | some p' => rw [hp, hp'] at h; cases h
  | some p =>
      cases hp' : link'.parentId with
      | none => rw [hp, hp'] at h; cases h
      | some p' =>
          rw [hp, hp'] at h
          cases h
          exact KeyWalk.plainParentKey_sibling hp hp' c.fuel

/-- No key in the map is a wrong one. -/
def PlainKeys (c : Context) (server : NodeUid → Option LinkDetails) (v : VolumeId)
    (keys : ParentKeyId → Option Key) : Prop :=
  ∀ link key, keys (ParentKeyId.of link) = some key → c.plainParentKey server v link = .ok key

/-- One more right parent key. -/
theorem PlainKeys.update {v : VolumeId} {keys : ParentKeyId → Option Key}
    (h : c.PlainKeys server v keys) {link : Link} {key : Key}
    (hkey : c.plainParentKey server v link = .ok key) :
    c.PlainKeys server v (Function.update keys (ParentKeyId.of link) (some key)) := by
  intro link' key' h'
  simp only [Function.update_apply] at h'
  split at h'
  · next hid =>
    cases h'
    rw [plainParentKey_of hid]
    exact hkey
  · exact h link' key' h'

/-- The links of a batch are those of the server. -/
def Fetched (server : NodeUid → Option LinkDetails) (v : VolumeId) (links : List LinkDetails) : Prop :=
  ∀ details ∈ links, ∃ a, server ⟨v, a⟩ = some details

/-- The parent keys are found as they are without caches. -/
theorem Sound.resolveParentKeys (h : c.Sound server depth w) {v : VolumeId}
    {links : List LinkDetails} {keys : ParentKeyId → Option Key}
    (hlinks : Fetched server v links) (hkeys : c.PlainKeys server v keys) :
    ∃ w' keys', (c.resolveParentKeys v links keys).run w = some (w', .ok keys') ∧
      c.Sound server depth w' ∧ w'.entities = w.entities ∧ c.PlainKeys server v keys' ∧
      (∀ id key, keys id = some key → ∃ key', keys' id = some key') ∧
      ∀ details ∈ links, ∀ key, c.plainParentKey server v details.link = .ok key →
        keys' (ParentKeyId.of details.link) = some key := by
  induction links generalizing w keys with
  | nil => exact ⟨w, keys, rfl, h, rfl, hkeys, fun _ key hk => ⟨key, hk⟩, by simp⟩
  | cons details rest ih =>
      obtain ⟨a, hd⟩ := hlinks details List.mem_cons_self
      have hrest : Fetched server v rest := fun d hmem => hlinks d (List.mem_cons_of_mem _ hmem)
      -- The key of the head stays in the map, and is right there.
      have hhead : ∀ keys', c.PlainKeys server v keys' →
          (∃ key', keys' (ParentKeyId.of details.link) = some key') → ∀ key,
          c.plainParentKey server v details.link = .ok key →
          keys' (ParentKeyId.of details.link) = some key := by
        rintro keys' hplain' ⟨key', hkey'⟩ key hkey
        rw [hplain' _ _ hkey'] at hkey
        cases hkey
        exact hkey'
      unfold Context.resolveParentKeys
      cases hknown : keys (ParentKeyId.of details.link) with
      | some known =>
          rw [if_pos (by rw [hknown]; rfl)]
          obtain ⟨w', keys', hrun, h', hent, hplain, hgrow, hall⟩ := ih h hrest hkeys
          refine ⟨w', keys', hrun, h', hent, hplain, hgrow, ?_⟩
          intro d hmem key hkey
          rcases List.mem_cons.mp hmem with rfl | hmem
          · exact hhead keys' hplain (hgrow _ _ hknown) key hkey
          · exact hall d hmem key hkey
      | none =>
          rw [if_neg (by rw [hknown]; simp)]
          obtain ⟨w1, hresolve, h1, hent1⟩ := h.resolveParentKey hd
          rw [Program.bind_ok (Program.attempt_run.mpr hresolve)]
          cases hkey : c.plainParentKey server v details.link with
          | error e =>
              obtain ⟨w', keys', hrun, h', hent, hplain, hgrow, hall⟩ := ih h1 hrest hkeys
              refine ⟨w', keys', hrun, h', hent.trans hent1, hplain, hgrow, ?_⟩
              intro d hmem key hkey'
              rcases List.mem_cons.mp hmem with rfl | hmem
              · rw [hkey] at hkey'
                cases hkey'
              · exact hall d hmem key hkey'
          | ok key =>
              obtain ⟨w', keys', hrun, h', hent, hplain, hgrow, hall⟩ :=
                ih h1 hrest (hkeys.update hkey)
              have hput : ∃ key', keys' (ParentKeyId.of details.link) = some key' :=
                hgrow _ key (Function.update_self ..)
              refine ⟨w', keys', hrun, h', hent.trans hent1, hplain, ?_, ?_⟩
              · intro id known hid
                by_cases hsame : id = ParentKeyId.of details.link
                · rw [hsame]
                  exact hput
                · exact hgrow id known (by rw [Function.update_of_ne hsame]; exact hid)
              · intro d hmem key' hkey'
                rcases List.mem_cons.mp hmem with rfl | hmem
                · exact hhead keys' hplain hput key' hkey'
                · exact hall d hmem key' hkey'

/-- What a link is listed as without caches. -/
theorem plainListed_eq {d : NodeDetail} {uid : NodeUid} {details : LinkDetails}
    (hd : server uid = some details) :
    c.plainListed server d uid =
      (c.plainParentKey server uid.volumeId details.link).toOption.bind (fun key =>
        ((c.account.decryptNode d uid.volumeId details key).map Prod.fst).toOption) := by
  unfold plainListed plainBuild
  rw [hd]
  dsimp only
  cases c.plainParentKey server uid.volumeId details.link with
  | error e => rfl
  | ok key =>
      dsimp only [bind, Except.bind, Except.toOption, Option.bind_some]
      cases c.account.decryptNode d uid.volumeId details key with
      | error e => rfl
      | ok built => rfl

/-- What a listing with `detail` does to the caches: they stay sound, what was listed stays so, and
the nodes of the listing are listed. -/
structure Lists (c : Context) (server : NodeUid → Option LinkDetails) (depth : NodeUid → Nat)
    (detail : NodeDetail) (w w' : World) (uids : List NodeUid) : Prop where
  sound : c.Sound server depth w'
  keeps : ∀ uid, c.Listed server detail w uid → c.Listed server detail w' uid
  listed : ∀ uid ∈ uids, c.Listed server detail w' uid

/-- One listing after the other. -/
theorem Lists.append {detail : NodeDetail} {w w' w'' : World} {uids uids' : List NodeUid}
    (h : Lists c server depth detail w w' uids) (h' : Lists c server depth detail w' w'' uids') :
    Lists c server depth detail w w'' (uids ++ uids') where
  sound := h'.sound
  keeps uid hlisted := h'.keeps uid (h.keeps uid hlisted)
  listed := by
    intro uid hmem
    rcases List.mem_append.mp hmem with hmem | hmem
    · exact h'.keeps uid (h.listed uid hmem)
    · exact h'.listed uid hmem

/-- Each link of a batch is built as it is without caches. -/
theorem Sound.buildEach (h : c.Sound server depth w) {v : VolumeId} (detail : NodeDetail)
    {links : List LinkDetails} {keys : ParentKeyId → Option Key} (hlinks : Fetched server v links)
    (hkeys : ∀ details ∈ links,
      keys (ParentKeyId.of details.link) = (c.plainParentKey server v details.link).toOption) :
    ∃ w', (c.buildEach v detail keys links).run w =
        some (w', .ok (links.filterMap (fun d => c.plainListed server detail ⟨v, d.link.id⟩))) ∧
      Lists c server depth detail w w' (links.map (fun d => ⟨v, d.link.id⟩)) := by
  induction links generalizing w with
  | nil => exact ⟨w, rfl, h, fun _ hlisted => hlisted, by simp⟩
  | cons details rest ih =>
      obtain ⟨a, hd⟩ := hlinks details List.mem_cons_self
      have hid : details.link.id = a := h.rooted.id_eq hd
      subst hid
      have hrest : Fetched server v rest := fun d hmem => hlinks d (List.mem_cons_of_mem _ hmem)
      have hkeysRest := fun d hmem => hkeys d (List.mem_cons_of_mem _ hmem)
      have hkey := hkeys details List.mem_cons_self
      have hshown := plainListed_eq (c := c) (d := detail) hd
      unfold Context.buildEach
      rw [List.filterMap_cons, hshown, hkey]
      cases hplain : c.plainParentKey server v details.link with
      | error e =>
          obtain ⟨w', hrun, hlists⟩ := ih h hrest hkeysRest
          refine ⟨w', hrun, hlists.sound, hlists.keeps, ?_⟩
          -- Without a parent key there is no build, so nothing is claimed of the head.
          intro uid hmem
          rcases List.mem_cons.mp hmem with rfl | hmem
          · intro details' hash node hd' _ hbuild
            obtain ⟨d, k, nk, hd'', hk, -⟩ := plainBuild_eq_some.mp hbuild
            rw [hd] at hd''
            cases hd''
            rw [hplain] at hk
            cases hk
          · exact hlists.listed uid hmem
      | ok key =>
          obtain ⟨w1, hbuild, h1, hlisted1, hkeeps1⟩ := h.buildNode hd hplain detail
          have hfirst : Lists c server depth detail w w1 [⟨v, details.link.id⟩] :=
            ⟨h1, hkeeps1, by simpa using hlisted1⟩
          obtain ⟨w', hrun, hlists⟩ := ih h1 hrest hkeysRest
          refine ⟨w', ?_, hfirst.append hlists⟩
          simp only [Except.toOption]
          rw [Program.bind_ok (Program.attempt_run.mpr hbuild), Program.bind_ok hrun]
          cases hbuilt : c.account.decryptNode detail v details key with
          | error e => simp [hbuilt, Except.map]
          | ok built => simp [hbuilt, Except.map]

/-- A batch is listed as it is without caches. -/
theorem Sound.enumerateBatch (h : c.Sound server depth w) (detail : NodeDetail)
    (batch : VolumeId × List LinkId) :
    ∃ w', (c.enumerateBatch detail batch).run w =
        some (w', .ok (batch.2.filterMap (fun a => c.plainListed server detail ⟨batch.1, a⟩))) ∧
      Lists c server depth detail w w' (batch.2.map (NodeUid.mk batch.1)) := by
  obtain ⟨v, ids⟩ := batch
  have hfetched : Fetched server v (ids.filterMap (fun a => server ⟨v, a⟩)) := by
    intro details hmem
    obtain ⟨a, -, ha⟩ := List.mem_filterMap.mp hmem
    exact ⟨a, ha⟩
  have hempty : c.PlainKeys server v (fun _ => none) := by
    intro _ _ hk
    cases hk
  obtain ⟨w1, keys, hresolve, h1, hent, hplain, -, hall⟩ := h.resolveParentKeys hfetched hempty
  have hkeys : ∀ details ∈ ids.filterMap (fun a => server ⟨v, a⟩),
      keys (ParentKeyId.of details.link) = (c.plainParentKey server v details.link).toOption := by
    intro details hmem
    cases hkey : c.plainParentKey server v details.link with
    | ok key => rw [hall details hmem key hkey]; rfl
    | error e =>
        cases hknown : keys (ParentKeyId.of details.link) with
        | none => rfl
        | some key =>
            rw [hplain details.link key hknown] at hkey
            cases hkey
  obtain ⟨w2, hbuild, hlists⟩ := h1.buildEach detail hfetched hkeys
  refine ⟨w2, ?_, hlists.sound, ?_, ?_⟩
  · unfold Context.enumerateBatch getLinkDetails
    rw [Program.read_bind, h.server_eq, Program.bind_ok hresolve, hbuild, List.filterMap_filterMap]
    -- An id that the server does not know shows nothing either way.
    congr 4
    funext a
    cases hd : server ⟨v, a⟩ with
    | none => simp [plainListed, plainBuild, hd, Except.toOption]
    | some details =>
        rw [Option.bind_some, show details.link.id = a from h.rooted.id_eq hd]
  · intro uid hlisted
    apply hlists.keeps
    intro details hash node hd hhash hbuilt
    rw [hent]
    exact hlisted details hash node hd hhash hbuilt
  · intro uid hmem
    obtain ⟨a, ha, rfl⟩ := List.mem_map.mp hmem
    cases hd : server ⟨v, a⟩ with
    | none =>
        intro details hash node hd'
        rw [hd] at hd'
        cases hd'
    | some details =>
        apply hlists.listed
        have hid : details.link.id = a := h.rooted.id_eq hd
        refine List.mem_map.mpr ⟨details, List.mem_filterMap.mpr ⟨a, ha, hd⟩, by rw [hid]⟩

/-- Batches are listed one after the other as they are without caches. -/
theorem Sound.enumerateBatches (h : c.Sound server depth w) (detail : NodeDetail)
    (bs : List (VolumeId × List LinkId)) :
    ∃ w', (Program.traverse (c.enumerateBatch detail) bs).run w =
        some (w', .ok (bs.map (fun b =>
          b.2.filterMap (fun a => c.plainListed server detail ⟨b.1, a⟩)))) ∧
      Lists c server depth detail w w' (bs.flatMap (fun b => b.2.map (NodeUid.mk b.1))) := by
  induction bs generalizing w with
  | nil => exact ⟨w, rfl, h, fun _ hlisted => hlisted, by simp⟩
  | cons b bs ih =>
      obtain ⟨w1, hbatch, hlists⟩ := h.enumerateBatch detail b
      obtain ⟨w2, hrest, hlists'⟩ := ih hlists.sound
      refine ⟨w2, ?_, hlists.append hlists'⟩
      rw [Program.traverse, Program.bind_ok hbatch, Program.bind_ok hrest]
      rfl

/-- The enumeration returns, and leaves the caches right. -/
theorem Sound.enumerateNodesDetail (h : c.Sound server depth w) (detail : NodeDetail)
    (uids : List NodeUid) :
    ∃ w' nodes, (c.enumerateNodesDetail uids detail).run w = some (w', .ok nodes) ∧
      c.Sound server depth w' := by
  obtain ⟨w', hrun, hlists⟩ := h.enumerateBatches detail (batches uids)
  refine ⟨w', (batches uids).flatMap (fun b =>
    b.2.filterMap (fun a => c.plainListed server detail ⟨b.1, a⟩)), ?_, hlists.sound⟩
  unfold Context.enumerateNodesDetail
  rw [Program.bind_ok hrun, Program.pure_run, List.flatMap_def]

/-- A light listing of a folder's children shows their plain light builds, and leaves them in the
cache. -/
theorem Sound.enumerateChildren (h : c.Sound server depth w) (folder : NodeUid) :
    ∃ w', (c.enumerateNodesLight (c.enumerateFolderChildrenNodeUids folder)).run w =
        some (w', .ok ((c.enumerateFolderChildrenNodeUids folder).filterMap
          (c.plainListed server .light))) ∧
      Lists c server depth .light w w' (c.enumerateFolderChildrenNodeUids folder) := by
  have hbatches := batches_of_volume folder.volumeId (c.children folder)
  -- The batches, one after another, are the children again.
  have hflat : (chunks KeyWalk.maxBatchCount (c.children folder)).flatten = c.children folder :=
    chunks_flatten (by decide) _
  obtain ⟨w', hrun, hlists⟩ :=
    h.enumerateBatches .light (batches (c.enumerateFolderChildrenNodeUids folder))
  unfold enumerateFolderChildrenNodeUids at hrun hlists ⊢
  rw [hbatches] at hrun hlists
  refine ⟨w', ?_, ?_⟩
  · unfold enumerateNodesLight Context.enumerateNodesDetail
    rw [hbatches, Program.bind_ok hrun, Program.pure_run]
    congr 3
    rw [List.filterMap_map]
    conv_rhs => rw [← hflat]
    rw [List.map_map, List.filterMap_flatten]
    rfl
  · have hsame : ((chunks KeyWalk.maxBatchCount (c.children folder)).map
        (fun chunk => (folder.volumeId, chunk))).flatMap (fun b => b.2.map (NodeUid.mk b.1)) =
        (c.children folder).map (NodeUid.mk folder.volumeId) := by
      conv_rhs => rw [← hflat]
      rw [List.flatMap_map, List.map_flatten, List.flatMap_def]
    rw [hsame] at hlists
    exact hlists

/-! ## Paths -/

/-- A child that is found by its name is in the listing, and can be built lightly. -/
theorem Rooted.plainChild_mem (h : c.Rooted server depth) {parent child : NodeUid} {name : Bytes}
    (hchild : c.plainChild server parent name = some child) :
    child ∈ c.enumerateFolderChildrenNodeUids parent ∧
      ∃ node, c.plainBuild server .light child = .ok (some node) := by
  obtain ⟨node, hfind, rfl⟩ := Option.map_eq_some_iff.mp hchild
  obtain ⟨uid, huid, hshown⟩ := List.mem_filterMap.mp (List.mem_of_find?_eq_some hfind)
  have hbuild : c.plainBuild server .light uid = .ok (some node) := by
    unfold plainListed at hshown
    cases hbuild : c.plainBuild server .light uid with
    | error e => rw [hbuild] at hshown; cases hshown
    | ok shown =>
        rw [hbuild] at hshown
        rw [show shown = some node from hshown]
  obtain ⟨details, key, nodeKey, hd, -, hbuilt⟩ := plainBuild_eq_some.mp hbuild
  rw [h.node_uid hd hbuilt]
  exact ⟨huid, node, hbuild⟩

/-- What a path leads to opens to a node. -/
theorem Rooted.plainTarget_light (h : c.Rooted server depth) {root target : NodeUid}
    {segments : List Bytes} (hne : segments ≠ [])
    (htarget : c.plainTarget server root segments = some target) :
    ∃ node, c.plainBuild server .light target = .ok (some node) := by
  induction segments generalizing root with
  | nil => exact absurd rfl hne
  | cons segment rest ih =>
      obtain ⟨child, hchild, hrest⟩ := Option.bind_eq_some_iff.mp htarget
      cases rest with
      | nil =>
          cases hrest
          exact (h.plainChild_mem hchild).2
      | cons next rest => exact ih (List.cons_ne_nil next rest) hrest

/-- The child of a name is found as it is without caches. -/
theorem Sound.findChildByName (h : c.Sound server depth w) (parent : NodeUid) (name : Bytes) :
    ∃ w', (c.findChildByName parent name).run w =
        some (w', .ok (c.plainChild server parent name)) ∧
      c.Sound server depth w' ∧
      ∀ child, c.plainChild server parent name = some child → c.Listed server .light w' child := by
  unfold Context.findChildByName
  by_cases hempty : (c.enumerateFolderChildrenNodeUids parent).isEmpty = true
  · -- Without children nothing is loaded.
    have hnone : c.plainChild server parent name = none := by
      rw [plainChild, List.isEmpty_iff.mp hempty]
      rfl
    refine ⟨w, ?_, h, ?_⟩
    · rw [if_pos hempty, hnone]
      rfl
    · intro child hchild
      rw [hnone] at hchild
      cases hchild
  · obtain ⟨w', hrun, hlists⟩ := h.enumerateChildren parent
    refine ⟨w', ?_, hlists.sound, ?_⟩
    · rw [if_neg hempty, Program.bind_ok hrun]
      rfl
    · intro child hchild
      exact hlists.listed child (h.rooted.plainChild_mem hchild).1

/-- The way along a path ends at the node the path names, and unless the path is empty it has just
been listed lightly. -/
theorem Sound.findByPath (h : c.Sound server depth w) (root : NodeUid) (segments : List Bytes) :
    ∃ w', (c.findByPath root segments).run w =
        some (w', .ok (c.plainTarget server root segments)) ∧
      c.Sound server depth w' ∧
      (segments = [] → w' = w) ∧
      (segments ≠ [] → ∀ target, c.plainTarget server root segments = some target →
        c.Listed server .light w' target) := by
  -- By induction on the segments; only the last folder read matters for what is cached.
  induction segments generalizing root w with
  | nil => exact ⟨w, rfl, h, fun _ => rfl, fun hne => absurd rfl hne⟩
  | cons segment rest ih =>
      obtain ⟨w1, hfind, h1, hlisted⟩ := h.findChildByName root segment
      unfold Context.findByPath plainTarget
      rw [Program.bind_ok hfind]
      cases hchild : c.plainChild server root segment with
      | none =>
          refine ⟨w1, rfl, h1, (nomatch ·), ?_⟩
          intro _ target htarget
          cases htarget
      | some child =>
          obtain ⟨w', hrun, h', hnil, hcons⟩ := ih h1 child
          refine ⟨w', hrun, h', (nomatch ·), ?_⟩
          intro _ target htarget
          rw [Option.bind_some] at htarget
          cases rest with
          | nil =>
              cases htarget
              rw [hnil rfl]
              exact hlisted child hchild
          | cons next rest => exact hcons (List.cons_ne_nil next rest) target htarget

/-- What `get_node_by_path` returns, in terms of the state along the way. -/
theorem Sound.getNodeByPath (h : c.Sound server depth w) (root : NodeUid) (path : Bytes) :
    ∃ w1 w2, (c.getNodeByPath root path).run w = some (w2,
        match c.plainTarget server root (pathSegments path) with
        | none => .ok none
        | some target =>
            match w1.entities target with
            | some info => .ok (some info.node)
            | none => c.plainBuild server .full target) ∧
      c.Sound server depth w1 ∧ c.Sound server depth w2 ∧
      (pathSegments path = [] → w1 = w) ∧
      (pathSegments path ≠ [] → ∀ target,
        c.plainTarget server root (pathSegments path) = some target →
        c.Listed server .light w1 target) := by
  obtain ⟨w1, hfind, h1, hnil, hcons⟩ := h.findByPath root (pathSegments path)
  unfold Context.getNodeByPath
  rw [Program.bind_ok hfind]
  cases htarget : c.plainTarget server root (pathSegments path) with
  | none => exact ⟨w1, w1, rfl, h1, h1, hnil, fun _ _ hnone => nomatch hnone⟩
  | some target =>
      -- The target was cached by the walk, and is now read through the cache.
      obtain ⟨w2, hget, h2⟩ := h1.getNode target
      refine ⟨w1, w2, hget, h1, h2, hnil, ?_⟩
      intro hne t ht
      cases ht
      exact hcons hne target htarget

/-! ## Entries that serve as full reads -/

/-- The node key of a node adds nothing to a light build of it. -/
def LightSufficesAt (c : Context) (server : NodeUid → Option LinkDetails) (uid : NodeUid) : Prop :=
  ∀ details parentKey, server uid = some details →
    c.plainParentKey server uid.volumeId details.link = .ok parentKey →
    c.account.LightSuffices details parentKey

/-- The node is not in the entity cache as a light build that lacks something. -/
def NotDegraded (c : Context) (server : NodeUid → Option LinkDetails) (w : World) (uid : NodeUid) :
    Prop :=
  ∀ info, w.entities uid = some info → c.plainBuild server .light uid = .ok (some info.node) →
    c.LightSufficesAt server uid

/-- The light node is the full one exactly where it leaves nothing out. -/
theorem light_eq_full_iff {uid : NodeUid} {node : Node}
    (hlight : c.plainBuild server .light uid = .ok (some node)) :
    c.plainBuild server .full uid = .ok (some node) ↔ c.LightSufficesAt server uid := by
  -- A light build that went well leaves the claimed size as the only difference.
  obtain ⟨details, parentKey, nodeKey, hd, hkey, hbuilt⟩ := plainBuild_eq_some.mp hlight
  have hiff := decryptNode_full_eq_light hbuilt
  constructor
  · intro hfull details' parentKey' hd' hkey'
    rw [hd] at hd'
    cases hd'
    rw [hkey] at hkey'
    cases hkey'
    obtain ⟨details'', key'', nodeKey', hd'', hkey'', hbuilt'⟩ := plainBuild_eq_some.mp hfull
    rw [hd] at hd''
    cases hd''
    rw [hkey] at hkey''
    cases hkey''
    exact hiff.mp ⟨nodeKey', hbuilt'⟩
  · intro hsuffices
    obtain ⟨nodeKey', hfull⟩ := hiff.mpr (hsuffices details parentKey hd hkey)
    exact plainBuild_eq_some.mpr ⟨details, parentKey, nodeKey', hd, hkey, hfull⟩

/-- What is read from the entry, or loaded, is the full build exactly when the entry is not a
degraded one. -/
theorem Sound.entry_full_iff (h : c.Sound server depth w) (uid : NodeUid) :
    (match w.entities uid with
      | some info => .ok (some info.node)
      | none => c.plainBuild server .full uid) = c.plainBuild server .full uid ↔
      c.NotDegraded server w uid := by
  cases hinfo : w.entities uid with
  | none =>
      -- Without an entry the node is built in full.
      refine ⟨fun _ info hinfo' => ?_, fun _ => rfl⟩
      rw [hinfo] at hinfo'
      cases hinfo'
  | some info =>
      constructor
      · intro hfull info' hinfo' hlight
        rw [hinfo] at hinfo'
        cases hinfo'
        exact (light_eq_full_iff hlight).mp hfull.symm
      · intro hnot
        -- The entry is the build of some detail, and only a light one can fall short.
        obtain ⟨-, -, -, detail, hbuild⟩ := h.entities hinfo
        cases detail with
        | full => exact hbuild.symm
        | light => exact ((light_eq_full_iff hbuild).mpr (hnot info hinfo hbuild)).symm

/-- A node that has been listed lightly is degraded unless its link has no name hash. -/
theorem Sound.notDegraded_of_listed (h : c.Sound server depth w) {uid : NodeUid} {node : Node}
    (hlisted : c.Listed server .light w uid)
    (hlight : c.plainBuild server .light uid = .ok (some node)) :
    c.NotDegraded server w uid ↔
      ∀ details, server uid = some details → details.link.nameHash.isSome = true →
        c.LightSufficesAt server uid := by
  constructor
  · intro hnot details hd hsome
    obtain ⟨hash, hhash⟩ := Option.isSome_iff_exists.mp hsome
    exact hnot ⟨node, hash⟩ (hlisted details hash node hd hhash hlight) hlight
  · intro hsuffices info hinfo _
    obtain ⟨details, hd, hhash, -⟩ := h.entities hinfo
    exact hsuffices details hd (by rw [hhash]; rfl)

/-- The result of a program, which is unique, is the expected one. -/
theorem run_eq_iff {α : Type} {x : Call α} {w' : World} {r r' : Except ProtonError α}
    (h : x.run w = some (w', r)) : (∃ w'', x.run w = some (w'', r')) ↔ r = r' := by
  constructor
  · rintro ⟨w'', h'⟩
    rw [h] at h'
    cases h'
    rfl
  · rintro rfl
    exact ⟨w', h⟩

/-! ## Runs -/

/-- The calls of a run. The key cache may lose entries between them. -/
inductive ReadCall where
  | getNode (uid : NodeUid)
  | enumerateNodes (uids : List NodeUid)
  | enumerateNodesLight (uids : List NodeUid)
  | getNodeByPath (root : NodeUid) (path : Bytes)
  | evict (uids : List NodeUid)
  deriving DecidableEq, Repr

def evict (w : World) (uids : List NodeUid) : World :=
  { w with folderKeys := fun uid => if uid ∈ uids then none else w.folderKeys uid }

def readStep (c : Context) (w : World) : ReadCall → Option World
  | .getNode uid => ((c.getNode uid).run w).map Prod.fst
  | .enumerateNodes uids => ((c.enumerateNodes uids).run w).map Prod.fst
  | .enumerateNodesLight uids => ((c.enumerateNodesLight uids).run w).map Prod.fst
  | .getNodeByPath root path => ((c.getNodeByPath root path).run w).map Prod.fst
  | .evict uids => some (evict w uids)

def reads (c : Context) : Machine World ReadCall := ⟨readStep c⟩

/-- The call returns the full build of the node it is asked for. -/
def ReadsFull (c : Context) (server : NodeUid → Option LinkDetails) (w : World) : ReadCall → Prop
  | .getNode uid => ∃ w', (c.getNode uid).run w = some (w', c.plainBuild server .full uid)
  | .getNodeByPath root path =>
      ∃ w', (c.getNodeByPath root path).run w = some (w',
        match c.plainTarget server root (pathSegments path) with
        | none => .ok none
        | some target => c.plainBuild server .full target)
  | _ => True

/-- The entry that the call will read is not a degraded one. The target of a path has always just
been listed lightly, and is then in the cache if its link has a name hash. -/
def Fresh (c : Context) (server : NodeUid → Option LinkDetails) (w : World) : ReadCall → Prop
  | .getNode uid => c.NotDegraded server w uid
  | .getNodeByPath root path =>
      if pathSegments path = [] then c.NotDegraded server w root
      else ∀ target details, c.plainTarget server root (pathSegments path) = some target →
        server target = some details → details.link.nameHash.isSome = true →
        c.LightSufficesAt server target
  | _ => True

/-- A read is full exactly when the state before it is fresh for it. -/
theorem Sound.readsFull_iff (h : c.Sound server depth w) (call : ReadCall) :
    c.ReadsFull server w call ↔ c.Fresh server w call := by
  cases call with
  | getNode uid =>
      obtain ⟨w', hrun, -⟩ := h.getNode uid
      exact (run_eq_iff hrun).trans (h.entry_full_iff uid)
  | getNodeByPath root path =>
      obtain ⟨w1, w2, hrun, h1, -, hnil, hcons⟩ := h.getNodeByPath root path
      apply (run_eq_iff hrun).trans
      dsimp only [Fresh]
      by_cases hsegments : pathSegments path = []
      · -- The path is empty: the root is read as it is, without a walk.
        have htarget : c.plainTarget server root (pathSegments path) = some root := by
          rw [hsegments]
          rfl
        rw [htarget, if_pos hsegments, ← hnil hsegments]
        exact h1.entry_full_iff root
      · rw [if_neg hsegments]
        cases htarget : c.plainTarget server root (pathSegments path) with
        | none =>
            exact ⟨fun _ target details hnone => (nomatch hnone), fun _ => rfl⟩
        | some target =>
            -- The walk has just listed the target, so its entry is light at most.
            obtain ⟨node, hlight⟩ := h.rooted.plainTarget_light hsegments htarget
            refine (h1.entry_full_iff target).trans
              ((h1.notDegraded_of_listed (hcons hsegments target htarget) hlight).trans ?_)
            constructor
            · intro hall t details ht
              cases ht
              exact hall details
            · intro hall details
              exact hall target details rfl
  | enumerateNodes uids => exact Iff.rfl
  | enumerateNodesLight uids => exact Iff.rfl
  | evict uids => exact Iff.rfl

/-- Entries that are dropped leave the caches right. -/
theorem Sound.evict (h : c.Sound server depth w) (uids : List NodeUid) :
    c.Sound server depth (evict w uids) where
  server_eq := h.server_eq
  rooted := h.rooted
  keys := by
    intro uid key hk
    simp only [Context.evict] at hk
    split at hk
    · cases hk
    · exact h.keys hk
  entities := h.entities

/-- Every call returns, and keeps the caches sound. -/
theorem Sound.readStep (h : c.Sound server depth w) (call : ReadCall) :
    ∃ w', (reads c).step w call = some w' ∧ c.Sound server depth w' := by
  cases call with
  | getNode uid =>
      obtain ⟨w', hrun, h'⟩ := h.getNode uid
      exact ⟨w', by simp [reads, Context.readStep, hrun], h'⟩
  | enumerateNodes uids =>
      obtain ⟨w', nodes, hrun, h'⟩ := h.enumerateNodesDetail .full uids
      exact ⟨w', by simp [reads, Context.readStep, enumerateNodes, hrun], h'⟩
  | enumerateNodesLight uids =>
      obtain ⟨w', nodes, hrun, h'⟩ := h.enumerateNodesDetail .light uids
      exact ⟨w', by simp [reads, Context.readStep, enumerateNodesLight, hrun], h'⟩
  | getNodeByPath root path =>
      obtain ⟨w1, w2, hrun, -, h2, -⟩ := h.getNodeByPath root path
      exact ⟨w2, by simp [reads, Context.readStep, hrun], h2⟩
  | evict uids => exact ⟨Context.evict w uids, rfl, h.evict uids⟩

/-- The client has just been started. -/
def started (server : NodeUid → Option LinkDetails) : World := ⟨server, fun _ => none, fun _ => none⟩

/-- Empty caches are right. -/
theorem Rooted.started (h : c.Rooted server depth) : c.Sound server depth (started server) where
  server_eq := rfl
  rooted := h
  keys hk := nomatch hk
  entities hinfo := nomatch hinfo

/-- **Reads after light listings.** On a server whose contents do not change, every call of a run
returns, and every `get_node` and `get_node_by_path` of it returns the full build of its node
exactly when none of them meets a degraded entry. -/
theorem reads_full_iff (h : c.Rooted server depth) (calls : List ReadCall) :
    (∃ w, (reads c).exec (started server) calls = some w) ∧
      ((reads c).Along (c.ReadsFull server) (started server) calls ↔
        (reads c).Along (c.Fresh server) (started server) calls) := by
  suffices hrun : ∀ w, c.Sound server depth w →
      (∃ w', (reads c).exec w calls = some w') ∧
        ((reads c).Along (c.ReadsFull server) w calls ↔ (reads c).Along (c.Fresh server) w calls) from
    hrun _ h.started
  -- Each read keeps the caches sound, so that the condition can be asked anew.
  induction calls with
  | nil => exact fun w _ => ⟨⟨w, rfl⟩, Iff.rfl⟩
  | cons call calls ih =>
      intro w hw
      obtain ⟨w', hstep, hw'⟩ := hw.readStep call
      obtain ⟨⟨w'', hexec⟩, hiff⟩ := ih w' hw'
      refine ⟨⟨w'', ((reads c).exec_cons_iff).mpr ⟨w', hstep, hexec⟩⟩, ?_⟩
      have hrest : ∀ ok : World → ReadCall → Prop,
          (∀ t ∈ (reads c).step w call, (reads c).Along ok t calls) ↔ (reads c).Along ok w' calls := by
        intro ok
        rw [hstep]
        simp
      exact and_congr (hw.readsFull_iff call) ((hrest _).trans (hiff.trans (hrest _).symm))

/-! ## A file that is listed and then read

A volume with a root and one file "a" of five bytes in it. -/

def exampleRoot : LinkDetails where
  link := KeyWalk.folder 0 none 9
  linkType := 1
  state := 1
  creationTime := 0
  modificationTime := 0
  trashTime := none
  trashedLegacy := none
  file := none
  photo := none
  album := none
  sharing := none
  membership := none

/-- The size is in the extended attributes, which are encrypted to the file's own key. -/
def exampleFile : LinkDetails :=
  { exampleRoot with
    link := { KeyWalk.folder 1 (some 0) 10 with nameHash := some [7] }
    linkType := 2
    file := some
      { mediaType := "text/plain"
        totalSizeOnStorage := 64
        contentKeyPacket := none
        contentKeySignature := none
        activeRevision := some ⟨"r", some 1, some (encryptAndSign 11 11 5 [2]), none⟩ } }

def exampleServer (uid : NodeUid) : Option LinkDetails :=
  if uid = ⟨0, 0⟩ then some exampleRoot else if uid = ⟨0, 1⟩ then some exampleFile else none

def exampleContext : Context where
  account :=
    { publicKeys := fun _ => []
      isOwnVolume := fun _ => true
      exportKey := fun _ => []
      parseAttributes := fun _ => some ⟨some ⟨some 5, none, none, none⟩, none⟩ }
  rootLinkShareKey _ _ := .ok 9
  children uid := if uid = ⟨0, 0⟩ then [1] else []
  membershipAddress := .error .keysLocked
  hmacName _ name := name
  fuel := 2

theorem exampleServer_eq_some {uid : NodeUid} {details : LinkDetails}
    (h : exampleServer uid = some details) :
    (uid = ⟨0, 0⟩ ∧ details = exampleRoot) ∨ (uid = ⟨0, 1⟩ ∧ details = exampleFile) := by
  unfold exampleServer at h
  split at h
  · next huid =>
    cases h
    exact .inl ⟨huid, rfl⟩
  · split at h
    · next huid =>
      cases h
      exact .inr ⟨huid, rfl⟩
    · cases h

/-- The sample server files its links as it should. -/
theorem exampleContext_rooted : exampleContext.Rooted exampleServer NodeUid.linkId := by
  constructor
  · -- The depth goes down to the parent, and every link names its own volume.
    intro v
    constructor
    · intro a l hl
      obtain ⟨details, hd, rfl⟩ := Option.map_eq_some_iff.mp hl
      rcases exampleServer_eq_some hd with ⟨huid, rfl⟩ | ⟨huid, rfl⟩
      · cases huid
        rfl
      · cases huid
        rfl
    · intro a l p hl hp
      obtain ⟨details, hd, rfl⟩ := Option.map_eq_some_iff.mp hl
      rcases exampleServer_eq_some hd with ⟨huid, rfl⟩ | ⟨huid, rfl⟩
      · cases hp
      · cases huid
        cases hp
        exact ⟨⟨exampleRoot.link, rfl⟩, Nat.zero_lt_one⟩
  · intro uid details hd
    rcases exampleServer_eq_some hd with ⟨rfl, -⟩ | ⟨rfl, -⟩
    · exact Nat.zero_lt_two
    · exact Nat.one_lt_two

/-- The size that a node claims. -/
def claimedSize (node : Node) : Option Int :=
  match node.kind with
  | .file _ _ _ _ size _ _ => size
  | .folder => none

/-- The size in what a read returned. -/
def sizeRead (r : Option (World × Except ProtonError (Option Node))) : Option Int :=
  r.bind (fun p => p.2.toOption.join.bind claimedSize)

/-- **Light listings degrade reads.** After a light listing of the file, `get_node` returns it
without its size; and `get_node_by_path` does so by itself. -/
theorem not_reads_full :
    ¬ (reads exampleContext).Along (exampleContext.ReadsFull exampleServer) (started exampleServer)
      [.enumerateNodesLight [⟨0, 1⟩], .getNode ⟨0, 1⟩] ∧
    ¬ (reads exampleContext).Along (exampleContext.ReadsFull exampleServer) (started exampleServer)
      [.getNodeByPath ⟨0, 0⟩ [97]] := by
  have hfull : sizeRead (some (started exampleServer,
      exampleContext.plainBuild exampleServer .full ⟨0, 1⟩)) = some 5 := by decide
  constructor
  · -- The listing caches the file light, and the read serves that entry.
    rintro ⟨-, hrest⟩
    have hread : ∀ t ∈ (reads exampleContext).step (started exampleServer)
        (.enumerateNodesLight [⟨0, 1⟩]),
        sizeRead ((exampleContext.getNode ⟨0, 1⟩).run t) = none := by
      intro t ht
      cases ht
      decide
    obtain ⟨t, ht, -⟩ := exampleContext_rooted.started.readStep (.enumerateNodesLight [⟨0, 1⟩])
    obtain ⟨⟨w', hrun⟩, -⟩ := hrest t ht
    have hnone := hread t ht
    rw [hrun] at hnone
    cases hnone.symm.trans hfull
  · -- The walk does the same before the read.
    rintro ⟨⟨w', hrun⟩, -⟩
    have hnone : sizeRead ((exampleContext.getNodeByPath ⟨0, 0⟩ [97]).run (started exampleServer)) =
        none := by decide
    have htarget : exampleContext.plainTarget exampleServer ⟨0, 0⟩ (pathSegments [97]) =
        some ⟨0, 1⟩ := by decide
    rw [hrun, htarget] at hnone
    cases hnone.symm.trans hfull

/-- After a full listing the same read is complete. -/
theorem reads_full_iff_listed :
    exampleContext.Rooted exampleServer NodeUid.linkId ∧
      (reads exampleContext).Along (exampleContext.ReadsFull exampleServer) (started exampleServer)
        [.enumerateNodes [⟨0, 1⟩], .getNode ⟨0, 1⟩] := by
  refine ⟨exampleContext_rooted, (reads_full_iff exampleContext_rooted _).2.mpr ⟨trivial, ?_⟩⟩
  intro t ht
  refine ⟨?_, fun _ _ => trivial⟩
  -- The entry has the size, which a light build does not have.
  intro info hinfo hlight
  have hsize : (t.entities ⟨0, 1⟩).bind (fun info => claimedSize info.node) = some 5 := by
    cases ht
    decide
  have hnone : (exampleContext.plainListed exampleServer .light ⟨0, 1⟩).bind claimedSize = none := by
    decide
  rw [hinfo] at hsize
  unfold plainListed at hnone
  rw [hlight] at hnone
  cases hsize.symm.trans hnone

end Context

end ProtonDrive
