import ProtonDrive.Lib.Machine
import ProtonDrive.Drive.Requests

/-!
# The `OriginalHash` of renames and moves

A rename or move names the hash the node has at present. The client takes it from the entity cache
if the node is there, and reads fill that cache; but a rename or move that succeeds changes the hash
on the server and leaves the entry as it is.

* `Refreshes` — a read leaves each entry alone or makes it what the server holds.
* `sends_current` — in every run in which no node is renamed or moved while its entry is older than
  its last rename or move, every `OriginalHash` sent is the server's.
* `not_sends_current` — in general it is not.
-/

namespace ProtonDrive

open OpenPgp

namespace Context

variable {c : Context} {w w' : World}

/-! ## What reads do to the entity cache -/

/-- The entry has the name hash that the server holds. -/
def Current (server : NodeUid → Option LinkDetails) (uid : NodeUid) (info : CachedNodeInfo) : Prop :=
  ∃ details, server uid = some details ∧ details.link.nameHash = some info.nameHashDigest

/-- The current hash is the one of the link on the server. -/
theorem Current.of_eq {server : NodeUid → Option LinkDetails} {uid : NodeUid} {info : CachedNodeInfo}
    {details : LinkDetails} (h : Current server uid info) (hd : server uid = some details) :
    details.link.nameHash = some info.nameHashDigest := by
  obtain ⟨details', hd', hdigest⟩ := h
  rw [hd] at hd'
  cases hd'
  exact hdigest

/-- Each entry is left alone or made current. -/
structure Refreshes (w w' : World) : Prop where
  server_eq : w'.server = w.server
  entities : ∀ uid, w'.entities uid = w.entities uid ∨
    ∃ info, w'.entities uid = some info ∧ Current w.server uid info

/-- A change of the keys alone refreshes nothing and spoils nothing. -/
theorem Refreshes.of_keysOnly (h : KeysOnly w w') : Refreshes w w' :=
  ⟨h.server_eq, fun uid => .inl (by rw [h.entities_eq])⟩

theorem Refreshes.refl (w : World) : Refreshes w w := .of_keysOnly (Std.Refl.refl w)

/-- One read after the other. -/
theorem Refreshes.trans {w'' : World} (h : Refreshes w w') (h' : Refreshes w' w'') :
    Refreshes w w'' := by
  refine ⟨h'.server_eq.trans h.server_eq, ?_⟩
  intro uid
  rcases h'.entities uid with hsame | ⟨info, hinfo, hcurrent⟩
  · rw [hsame]
    exact h.entities uid
  · rw [h.server_eq] at hcurrent
    exact .inr ⟨info, hinfo, hcurrent⟩

/-- Caching a folder key leaves the entities alone. -/
theorem cacheFolderKey_keysOnly (details : LinkDetails) (uid : NodeUid) (nodeKey : Option Key)
    (w : World) : KeysOnly w (cacheFolderKey details uid nodeKey w) := by
  unfold cacheFolderKey
  split <;> exact ⟨rfl, rfl⟩

/-- A link that the server has is cached with its own hash. -/
theorem cacheEntity_refreshes {details : LinkDetails} {node : Node}
    (hd : w.server node.uid = some details) : Refreshes w (cacheEntity details node w) := by
  unfold cacheEntity
  split
  · next hash hhash =>
    refine ⟨rfl, ?_⟩
    intro uid
    by_cases huid : uid = node.uid
    · subst huid
      exact .inr ⟨⟨node, hash⟩, Function.update_self .., details, hd, hhash⟩
    · exact .inl (Function.update_of_ne huid ..)
  · exact .of_keysOnly ⟨rfl, rfl⟩

/-- Building a node caches what the server has. -/
theorem buildNode_refreshes {v : VolumeId} {details : LinkDetails} {key : Key}
    {detail : NodeDetail} {r : Except ProtonError Node}
    (hd : w.server ⟨v, details.link.id⟩ = some details)
    (h : (c.buildNode v details key detail).run w = some (w', r)) : Refreshes w w' := by
  rw [buildNode_run] at h
  split at h
  · cases h
    exact .refl _
  · next node nodeKey hbuilt =>
    cases h
    have hkeys := cacheFolderKey_keysOnly details node.uid nodeKey w
    refine (Refreshes.of_keysOnly hkeys).trans (cacheEntity_refreshes ?_)
    rw [hkeys.server_eq, (decryptNode_uids hbuilt).1]
    exact hd

/-- Loading a node caches what the server has. -/
theorem loadNode_refreshes (hnamed : WellNamed w.server) {uid : NodeUid}
    {r : Except ProtonError (Option Node)} (h : (c.loadNode uid).run w = some (w', r)) :
    Refreshes w w' := by
  unfold loadNode getLinkDetails at h
  rw [Program.read_bind] at h
  cases hd : w.server uid with
  | none =>
      simp only [hd, List.filterMap_cons, List.filterMap_nil, List.head?_nil] at h
      cases h
      exact .refl _
  | some details =>
      simp only [hd, List.filterMap_cons, List.filterMap_nil, List.head?_cons] at h
      rcases Program.bind_eq_some.mp h with ⟨e, herror, -⟩ | ⟨t, parentKey, hresolve, h⟩
      · -- Only the keys change before the node is built.
        exact .of_keysOnly (resolveParentKey_keeps _ _ _ _ _ herror)
      · have hkeys : KeysOnly w t := resolveParentKey_keeps _ _ _ _ _ hresolve
        have hdt : t.server ⟨uid.volumeId, details.link.id⟩ = some details := by
          rw [hkeys.server_eq, hnamed _ _ hd]
          exact hd
        apply (Refreshes.of_keysOnly hkeys).trans
        rcases Program.bind_eq_some.mp h with ⟨e, herror, -⟩ | ⟨t', node, hbuild, h⟩
        · exact buildNode_refreshes hdt herror
        · cases h
          exact buildNode_refreshes hdt hbuild

/-- Reading a node caches what the server has. -/
theorem getNode_refreshes (hnamed : WellNamed w.server) {uid : NodeUid}
    {r : Except ProtonError (Option Node)} (h : (c.getNode uid).run w = some (w', r)) :
    Refreshes w w' := by
  unfold getNode at h
  rw [Program.read_bind] at h
  split at h
  · cases h
    exact .refl _
  · exact loadNode_refreshes hnamed h

/-- Finding parent keys leaves the entities alone. -/
theorem resolveParentKeys_keeps (v : VolumeId) (links : List LinkDetails)
    (keys : ParentKeyId → Option Key) : (c.resolveParentKeys v links keys).Keeps KeysOnly := by
  induction links generalizing keys with
  | nil => exact .pure keys
  | cons details rest ih =>
      unfold resolveParentKeys
      dsimp only
      split
      · exact ih keys
      · refine .bind (.attempt (resolveParentKey_keeps v details.link)) (fun r => ?_)
        cases r with
        | ok key => exact ih _
        | error e => exact ih keys

/-- Building several nodes caches what the server has. -/
theorem buildEach_refreshes {v : VolumeId} {detail : NodeDetail} {keys : ParentKeyId → Option Key}
    {links : List LinkDetails} {r : Except ProtonError (List Node)}
    (hlinks : ∀ d ∈ links, w.server ⟨v, d.link.id⟩ = some d)
    (h : (c.buildEach v detail keys links).run w = some (w', r)) : Refreshes w w' := by
  induction links generalizing w r with
  | nil =>
      cases h
      exact .refl _
  | cons details rest ih =>
      have hrest : ∀ d ∈ rest, w.server ⟨v, d.link.id⟩ = some d :=
        fun d hd => hlinks d (List.mem_cons_of_mem _ hd)
      unfold buildEach at h
      split at h
      · exact ih hrest h
      · next key hkey =>
        rcases Program.bind_eq_some.mp h with ⟨e, herror, -⟩ | ⟨t, built, hbuild, h⟩
        · -- An attempt has no error.
          unfold Program.attempt at herror
          obtain ⟨p, -, hp⟩ := Option.map_eq_some_iff.mp herror
          cases hp
        · have hfirst : Refreshes w t :=
            buildNode_refreshes (hlinks details List.mem_cons_self) (Program.attempt_run.mp hbuild)
          have hrest' : ∀ d ∈ rest, t.server ⟨v, d.link.id⟩ = some d := by
            rw [hfirst.server_eq]
            exact hrest
          apply hfirst.trans
          rcases Program.bind_eq_some.mp h with ⟨e, herror, -⟩ | ⟨t', nodes, hnodes, h⟩
          · exact ih hrest' herror
          · cases h
            exact ih hrest' hnodes

/-- Reading a batch caches what the server has. -/
theorem enumerateBatch_refreshes (hnamed : WellNamed w.server) {detail : NodeDetail}
    {batch : VolumeId × List LinkId} {r : Except ProtonError (List Node)}
    (h : (c.enumerateBatch detail batch).run w = some (w', r)) : Refreshes w w' := by
  unfold enumerateBatch getLinkDetails at h
  rw [Program.read_bind] at h
  rcases Program.bind_eq_some.mp h with ⟨e, herror, -⟩ | ⟨t, keys, hresolve, h⟩
  · exact .of_keysOnly (resolveParentKeys_keeps _ _ _ _ _ _ herror)
  · have hkeys : KeysOnly w t := resolveParentKeys_keeps _ _ _ _ _ _ hresolve
    refine (Refreshes.of_keysOnly hkeys).trans (buildEach_refreshes ?_ h)
    intro details hmem
    obtain ⟨a, -, ha⟩ := List.mem_filterMap.mp hmem
    rw [hkeys.server_eq, hnamed _ _ ha]
    exact ha

/-- Enumerating nodes caches what the server has. -/
theorem enumerateNodesDetail_refreshes (hnamed : WellNamed w.server) {detail : NodeDetail}
    {uids : List NodeUid} {r : Except ProtonError (List Node)}
    (h : (c.enumerateNodesDetail uids detail).run w = some (w', r)) : Refreshes w w' := by
  have hbatches : ∀ (bs : List (VolumeId × List LinkId)) {w w' : World} {r},
      WellNamed w.server →
      (Program.traverse (c.enumerateBatch detail) bs).run w = some (w', r) → Refreshes w w' := by
    -- By induction on the batches, whichever of them fails.
    intro bs
    induction bs with
    | nil =>
        intro w w' r _ h
        cases h
        exact .refl _
    | cons b bs ih =>
        intro w w' r hnamed h
        rcases Program.bind_eq_some.mp h with ⟨e, herror, -⟩ | ⟨t, nodes, hbatch, h⟩
        · exact enumerateBatch_refreshes hnamed herror
        · have hfirst := enumerateBatch_refreshes hnamed hbatch
          have hnamed' : WellNamed t.server := by
            rw [hfirst.server_eq]
            exact hnamed
          apply hfirst.trans
          rcases Program.bind_eq_some.mp h with ⟨e, herror, -⟩ | ⟨t', rest, hrest, h⟩
          · exact ih hnamed' herror
          · cases h
            exact ih hnamed' hrest
  unfold enumerateNodesDetail at h
  rcases Program.bind_eq_some.mp h with ⟨e, herror, -⟩ | ⟨t, nodes, hnodes, h⟩
  · exact hbatches _ hnamed herror
  · cases h
    exact hbatches _ hnamed hnodes

/-! ## The hash that is sent -/

/-- The hash of a request is current if the entry of the node, if there is one, is. -/
theorem originalNameHash_current {uid : NodeUid} {link : Link} {key : Key} {hashKey : Bytes}
    {sent hash : NameHash}
    (hentry : ∀ info, w.entities uid = some info → link.nameHash = some info.nameHashDigest)
    (hhash : link.nameHash = some hash)
    (h : (c.originalNameHash uid link key hashKey).run w = some (w', .ok sent)) : sent = hash := by
  obtain ⟨t, cached, hcached, h⟩ := Program.bind_eq_ok.mp h
  have hsome : cached = some hash := by
    unfold cachedOriginalNameHash at hcached
    rw [Program.read_bind] at hcached
    split at hcached
    · next info hinfo =>
      -- The cached hash is the link's own, so it does not matter which of the two is sent.
      have hdigest : info.nameHashDigest = hash :=
        Option.some.inj ((hentry info hinfo).symm.trans hhash)
      split at hcached
      · cases hcached
        exact hhash
      · cases hcached
        rw [hdigest]
    · cases hcached
      exact hhash
  rw [hsome] at h
  cases h
  rfl

/-- A rename sends the current hash when the cached one is not stale. -/
theorem renameRequest_current {uid : NodeUid} {newName : Bytes} {newMediaType : Option String}
    {session : Session} {request : RenameLinkRequest} {details : LinkDetails} {hash : NameHash}
    (hd : w.server uid = some details) (hhash : details.link.nameHash = some hash)
    (hentry : ∀ info, w.entities uid = some info → Current w.server uid info)
    (h : (c.renameRequest uid newName newMediaType session).run w = some (w', .ok request)) :
    request.originalHash = hash := by
  obtain ⟨details', p, parentKey, hashKey, email, signingKey, sent, hd', -, hkey, -, -, hsent, rfl⟩ :=
    renameRequest_eq_ok h
  rw [hd] at hd'
  cases hd'
  refine originalNameHash_current ?_ hhash hsent
  intro info hinfo
  rw [(folderNodeKey_keeps _ _ _ _ hkey).entities_eq] at hinfo
  exact (hentry info hinfo).of_eq hd

/-- A move sends the current hash when the cached one is not stale. -/
theorem moveRequest_current {uid newParent : NodeUid} {session : Session}
    {request : MoveLinkRequest} {details : LinkDetails} {hash : NameHash}
    (hd : w.server uid = some details) (hhash : details.link.nameHash = some hash)
    (hentry : ∀ info, w.entities uid = some info → Current w.server uid info)
    (h : (c.moveRequest uid newParent session).run w = some (w', .ok request)) :
    request.originalHash = hash := by
  obtain ⟨details', destKey, destHashKey, email, signingKey, parts, t, -, hd', hdest, -, -, hparts,
    rfl⟩ := moveRequest_eq_ok h
  obtain ⟨p, parentKey, hashKey, -, hkey, -, -, hsent, -⟩ := buildMoveParts_eq_ok hparts
  rw [hd] at hd'
  cases hd'
  refine originalNameHash_current ?_ hhash hsent
  intro info hinfo
  rw [(folderNodeKey_keeps _ _ _ _ hkey).entities_eq,
    (folderNodeKey_keeps _ _ _ _ hdest).entities_eq] at hinfo
  exact (hentry info hinfo).of_eq hd

/-! ## Runs -/

/-- The calls of a run. Of a request that is sent, `accepted` says what the server makes of it. -/
inductive HashCall where
  | getNode (uid : NodeUid)
  | enumerateNodes (uids : List NodeUid)
  | renameNode (uid : NodeUid) (newName : Bytes) (newMediaType : Option String) (session : Session)
      (accepted : Bool)
  | moveNode (uid newParent : NodeUid) (session : Session) (accepted : Bool)
  deriving DecidableEq, Repr

/-- A world, and which entries of its entity cache are older than the last accepted rename or move
of their node. -/
structure Tracked where
  world : World
  stale : NodeUid → Bool

/-- After a read: an entry that the read has written is stale no more. -/
def Tracked.afterRead (t : Tracked) (w' : World) : Tracked where
  world := w'
  stale uid := t.stale uid && decide (w'.entities uid = t.world.entities uid)

/-- After an accepted write of a node: its entry, if it has one, is stale. -/
def Tracked.afterWrite (t : Tracked) (w' : World) (uid : NodeUid)
    (f : LinkDetails → LinkDetails) : Tracked where
  world := w'.updateLink uid f
  stale := Function.update t.stale uid (w'.entities uid).isSome

def hashStep (c : Context) (t : Tracked) : HashCall → Option Tracked
  | .getNode uid => ((c.getNode uid).run t.world).map (fun p => t.afterRead p.1)
  | .enumerateNodes uids => ((c.enumerateNodes uids).run t.world).map (fun p => t.afterRead p.1)
  | .renameNode uid newName newMediaType session accepted =>
      match (c.renameRequest uid newName newMediaType session).run t.world with
      | none => none
      | some (w', .error _) => some ⟨w', t.stale⟩
      | some (w', .ok request) =>
          if accepted then some (t.afterWrite w' uid (LinkDetails.rename request))
          else some ⟨w', t.stale⟩
  | .moveNode uid newParent session accepted =>
      match (c.moveRequest uid newParent session).run t.world with
      | none => none
      | some (w', .error _) => some ⟨w', t.stale⟩
      | some (w', .ok request) =>
          if accepted then some (t.afterWrite w' uid (LinkDetails.move request))
          else some ⟨w', t.stale⟩

def hashCalls (c : Context) : Machine Tracked HashCall := ⟨hashStep c⟩

/-- If the call sends a request, it names the hash that the server holds for the node. -/
def SendsCurrent (c : Context) (t : Tracked) : HashCall → Prop
  | .renameNode uid newName newMediaType session _ =>
      ∀ w' request details hash,
        (c.renameRequest uid newName newMediaType session).run t.world = some (w', .ok request) →
        w'.server uid = some details → details.link.nameHash = some hash →
        request.originalHash = hash
  | .moveNode uid newParent session _ =>
      ∀ w' request details hash,
        (c.moveRequest uid newParent session).run t.world = some (w', .ok request) →
        w'.server uid = some details → details.link.nameHash = some hash →
        request.originalHash = hash
  | _ => True

/-- The entry of the node that is to be renamed or moved, if there is one, has been written since
its last accepted rename or move. -/
def NotStale (t : Tracked) : HashCall → Prop
  | .renameNode uid _ _ _ _ => t.stale uid = false
  | .moveNode uid _ _ _ => t.stale uid = false
  | _ => True

/-! ## The invariant -/

/-- Entries that are not stale are current. -/
structure HashInv (t : Tracked) : Prop where
  named : WellNamed t.world.server
  current : ∀ {uid info}, t.world.entities uid = some info → t.stale uid = false →
    Current t.world.server uid info

/-- A read makes no entry stale. -/
theorem HashInv.afterRead {t : Tracked} {w' : World} (h : HashInv t)
    (hread : Refreshes t.world w') : HashInv (t.afterRead w') where
  named := by
    show WellNamed w'.server
    rw [hread.server_eq]
    exact h.named
  current := by
    intro uid info hinfo hstale
    show Current w'.server uid info
    rw [hread.server_eq]
    rcases hread.entities uid with hsame | ⟨info', hinfo', hcurrent⟩
    · -- The entry is the old one, and was not stale before.
      have hold : t.stale uid = false := by
        simpa [Tracked.afterRead, hsame] using hstale
      exact h.current (hsame.symm.trans hinfo) hold
    · have hsame : some info' = some info := hinfo'.symm.trans hinfo
      cases hsame
      exact hcurrent

/-- A change of the keys makes no entry stale. -/
theorem HashInv.keysOnly {t : Tracked} {w' : World} (h : HashInv t) (hkeys : KeysOnly t.world w') :
    HashInv ⟨w', t.stale⟩ where
  named := by
    show WellNamed w'.server
    rw [hkeys.server_eq]
    exact h.named
  current := by
    intro uid info hinfo hstale
    show Current w'.server uid info
    rw [hkeys.server_eq]
    refine h.current ?_ hstale
    rw [← hkeys.entities_eq]
    exact hinfo

/-- A write makes at most the entry of its own node stale. -/
theorem HashInv.afterWrite {t : Tracked} {w' : World} (h : HashInv t)
    (hkeys : KeysOnly t.world w') (uid : NodeUid) {f : LinkDetails → LinkDetails}
    (hf : ∀ d, (f d).link.id = d.link.id) : HashInv (t.afterWrite w' uid f) where
  named := by
    intro uid' details hd
    simp only [Tracked.afterWrite, World.updateLink, Function.update_apply] at hd
    split at hd
    · next huid =>
      subst huid
      obtain ⟨d, hd', rfl⟩ := Option.map_eq_some_iff.mp hd
      rw [hf]
      exact (h.keysOnly hkeys).named _ _ hd'
    · exact (h.keysOnly hkeys).named _ _ hd
  current := by
    intro uid' info hinfo hstale
    have hinfo : w'.entities uid' = some info := hinfo
    simp only [Tracked.afterWrite, Function.update_apply] at hstale
    -- An entry of the node that was written is stale now.
    split at hstale
    · next huid =>
      rw [← huid, hinfo] at hstale
      cases hstale
    · next huid =>
      obtain ⟨details, hd, hdigest⟩ := (h.keysOnly hkeys).current hinfo hstale
      refine ⟨details, ?_, hdigest⟩
      show Function.update w'.server uid _ uid' = some details
      rw [Function.update_of_ne huid]
      exact hd

/-- Every call keeps the account of what is stale. -/
theorem HashInv.step {t t' : Tracked} {call : HashCall} (h : HashInv t)
    (hstep : (hashCalls c).step t call = some t') : HashInv t' := by
  have hstep : hashStep c t call = some t' := hstep
  cases call with
  | getNode uid =>
      obtain ⟨⟨w', r⟩, hrun, rfl⟩ := Option.map_eq_some_iff.mp hstep
      exact h.afterRead (getNode_refreshes h.named hrun)
  | enumerateNodes uids =>
      obtain ⟨⟨w', r⟩, hrun, rfl⟩ := Option.map_eq_some_iff.mp hstep
      exact h.afterRead (enumerateNodesDetail_refreshes h.named hrun)
  | renameNode uid newName newMediaType session accepted =>
      simp only [hashStep] at hstep
      split at hstep
      · cases hstep
      · -- A request that fails before it is sent writes nothing.
        next w' e hrun =>
        cases hstep
        exact h.keysOnly (renameRequest_keeps folderNodeKey_keeps _ _ _ _ _ _ _ hrun)
      · next w' request hrun =>
        have hkeys : KeysOnly t.world w' := renameRequest_keeps folderNodeKey_keeps _ _ _ _ _ _ _ hrun
        -- Only a write that the server accepts makes the node's entry stale.
        split at hstep
        · cases hstep
          exact h.afterWrite hkeys uid (fun _ => rfl)
        · cases hstep
          exact h.keysOnly hkeys
  | moveNode uid newParent session accepted =>
      simp only [hashStep] at hstep
      split at hstep
      · cases hstep
      · next w' e hrun =>
        cases hstep
        exact h.keysOnly (moveRequest_keeps folderNodeKey_keeps _ _ _ _ _ _ hrun)
      · next w' request hrun =>
        have hkeys : KeysOnly t.world w' := moveRequest_keeps folderNodeKey_keeps _ _ _ _ _ _ hrun
        split at hstep
        · cases hstep
          exact h.afterWrite hkeys uid (fun _ => rfl)
        · cases hstep
          exact h.keysOnly hkeys

/-- A call about a node that is not stale sends the current hash. -/
theorem HashInv.sendsCurrent {t : Tracked} {call : HashCall} (h : HashInv t)
    (hstale : NotStale t call) : c.SendsCurrent t call := by
  cases call with
  | getNode uid => trivial
  | enumerateNodes uids => trivial
  | renameNode uid newName newMediaType session accepted =>
      intro w' request details hash hrun hd hhash
      rw [(renameRequest_keeps folderNodeKey_keeps _ _ _ _ _ _ _ hrun).server_eq] at hd
      exact renameRequest_current hd hhash (fun info hinfo => h.current hinfo hstale) hrun
  | moveNode uid newParent session accepted =>
      intro w' request details hash hrun hd hhash
      rw [(moveRequest_keeps folderNodeKey_keeps _ _ _ _ _ _ hrun).server_eq] at hd
      exact moveRequest_current hd hhash (fun info hinfo => h.current hinfo hstale) hrun

/-- The client has just been started. -/
def trackedStart (server : NodeUid → Option LinkDetails) : Tracked where
  world := ⟨server, fun _ => none, fun _ => none⟩
  stale _ := false

/-- **Own writes and `OriginalHash`.** In every run in which no node is renamed or moved while its
entry in the cache is older than its last accepted rename or move, every request names the hash that
the server holds at that moment. -/
theorem sends_current {server : NodeUid → Option LinkDetails} (hnamed : WellNamed server)
    {calls : List HashCall} (h : (hashCalls c).Along NotStale (trackedStart server) calls) :
    (hashCalls c).Along c.SendsCurrent (trackedStart server) calls := by
  have hstart : HashInv (trackedStart server) := ⟨hnamed, fun hinfo => nomatch hinfo⟩
  suffices hrun : ∀ t, HashInv t → (hashCalls c).Along NotStale t calls →
      (hashCalls c).Along c.SendsCurrent t calls from hrun _ hstart h
  clear h
  induction calls with
  | nil => exact fun _ _ _ => trivial
  | cons call calls ih =>
      intro t ht halong
      obtain ⟨hstale, hrest⟩ := halong
      refine ⟨ht.sendsCurrent hstale, ?_⟩
      intro t' hstep
      exact ih t' (ht.step hstep) (hrest t' hstep)

/-! ## A node that is read and renamed twice

A volume with a root and one file "a" in it. -/

def renameRoot : LinkDetails where
  link := { KeyWalk.folder 0 none 9 with hashKey := some (encrypt 10 3 [5]) }
  linkType := 1
  state := 1
  creationTime := 0
  modificationTime := 0
  trashTime := none
  trashedLegacy := none
  file := none
  photo := none
  album := none
  sharing := none
  membership := none

def renameFile : LinkDetails :=
  { renameRoot with
    link := { KeyWalk.folder 1 (some 0) 10 with nameHash := some [5, 97] }
    linkType := 2
    file := some ⟨"text/plain", 64, none, none, none⟩ }

def renameServer (uid : NodeUid) : Option LinkDetails :=
  if uid = ⟨0, 0⟩ then some renameRoot else if uid = ⟨0, 1⟩ then some renameFile else none

def renameContext : Context where
  account :=
    { publicKeys := fun _ => []
      isOwnVolume := fun _ => true
      exportKey := fun _ => []
      parseAttributes := fun _ => none }
  rootLinkShareKey _ _ := .ok 9
  children _ := []
  membershipAddress := .ok ("me", 1)
  hmacName hashKey name := hashKey ++ name
  fuel := 2

/-- Read, rename to "b", and rename again, to "c". -/
def readAndRename : List HashCall :=
  [.getNode ⟨0, 1⟩, .renameNode ⟨0, 1⟩ [98] none 7 true, .renameNode ⟨0, 1⟩ [99] none 8 true]

/-- **The second rename of a node that has been read names its first hash.** -/
theorem not_sends_current :
    ¬ (hashCalls renameContext).Along renameContext.SendsCurrent (trackedStart renameServer)
      readAndRename := by
  rintro ⟨-, h⟩
  obtain ⟨-, h⟩ := h _ rfl
  obtain ⟨h, -⟩ := h _ rfl
  have hsame : ([5, 97] : NameHash) = [5, 98] := h _ _ _ _ rfl rfl rfl
  cases hsame

/-- Without the read, or with a listing in between, both renames name the right hash. -/
theorem sends_current_listed :
    WellNamed renameServer ∧
      (hashCalls renameContext).Along renameContext.SendsCurrent (trackedStart renameServer)
        [.getNode ⟨0, 1⟩, .renameNode ⟨0, 1⟩ [98] none 7 true, .enumerateNodes [⟨0, 1⟩],
          .renameNode ⟨0, 1⟩ [99] none 8 true] := by
  have hnamed : WellNamed renameServer := by
    intro uid details hd
    unfold renameServer at hd
    split at hd
    · next huid => cases hd; rw [huid]; rfl
    · split at hd
      · next huid => cases hd; rw [huid]; rfl
      · cases hd
  refine ⟨hnamed, sends_current hnamed ⟨trivial, ?_⟩⟩
  intro t1 h1
  cases h1
  -- The listing between the two renames has refreshed the entry.
  refine ⟨rfl, ?_⟩
  intro t2 h2
  cases h2
  refine ⟨trivial, ?_⟩
  intro t3 h3
  cases h3
  refine ⟨?_, fun _ _ => trivial⟩
  show Tracked.stale _ _ = false
  rfl

end Context

end ProtonDrive
