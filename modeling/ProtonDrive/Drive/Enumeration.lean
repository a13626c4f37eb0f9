import ProtonDrive.Lib.Buffered
import ProtonDrive.Drive.Loads

/-!
# Enumerating nodes in batches

`enumerate_nodes_detail` with everything that runs at the same time in it. For each volume the link
details are fetched in batches, up to four at a time; for each batch the parent keys are resolved one
after the other, and then the nodes are built, up to eight at a time, each writing the caches when it
comes to it. The results are taken in order. Meanwhile the key cache may lose entries.

* `enumeration` — the machine, whose actions are the polls of the futures and the steps of the loops.
* `Enumerates` — what a step does.
* `OwnKeys` — every link is decrypted with a key that was resolved for a link with the same
  `ParentKeyId`. `ownKeys_of_run`: so it is in all runs, with any caches.
-/

namespace ProtonDrive

open OpenPgp

namespace Context

/-! ## The futures -/

/-- `MAX_CONCURRENT_DETAIL_FETCHES`. -/
def maxConcurrentDetailFetches : Nat := 4

/-- `MAX_CONCURRENT_NODE_BUILDS`. -/
def maxConcurrentNodeBuilds : Nat := 8

variable (c : Context)

/-- The request for the details of a chunk. -/
def fetchChunk (volumeId : VolumeId) (linkIds : List LinkId) :
    Future World (VolumeId × List LinkDetails) :=
  .poll id (fun w => .ready (volumeId, linkIds.filterMap (fun a => w.server ⟨volumeId, a⟩)))

/-- A build within the stream. A node that does not decrypt is skipped. The two caches are written
in different polls. -/
def buildInStream (volumeId : VolumeId) (detail : NodeDetail) (details : LinkDetails)
    (parentKey : Key) : Future World (Option Node) :=
  match c.account.decryptNode detail volumeId details parentKey with
  | .error _ => .ready none
  | .ok (node, nodeKey) =>
      .poll (cacheFolderKey details node.uid nodeKey) (fun _ =>
        .poll (cacheEntity details node) (fun _ => .ready (some node)))

variable {c}

/-- By itself, it is a build. -/
theorem buildInStream_alone (v : VolumeId) (detail : NodeDetail) (details : LinkDetails) (key : Key)
    (w : World) :
    (c.buildNode v details key detail).run w =
      some (((c.buildInStream v detail details key).alone w).1,
        (c.account.decryptNode detail v details key).map Prod.fst) ∧
      ((c.buildInStream v detail details key).alone w).2 =
        ((c.account.decryptNode detail v details key).map Prod.fst).toOption := by
  rw [buildNode_run]
  unfold buildInStream
  cases c.account.decryptNode detail v details key with
  | error e => exact ⟨rfl, rfl⟩
  | ok built => exact ⟨rfl, rfl⟩

/-! ## The machine -/

/-- Where the loop over the batches of a volume is. -/
inductive Stage where
  /-- It waits for the next batch. -/
  | fetching
  /-- It resolves the parent keys of the `pending` links of a batch. -/
  | resolving (volumeId : VolumeId) (links pending : List LinkDetails)
      (keys : ParentKeyId → Option Key)
  /-- It waits for the next node of the batch. -/
  | building (builds : Buffer World (Option Node))

/-- A call under way. The two logs say for which link which key has been resolved, and which link is
decrypted with which key. -/
structure Enumeration where
  world : World
  groups : List (VolumeId × List LinkId)
  fetches : Buffer World (VolumeId × List LinkDetails)
  stage : Stage
  nodes : List Node
  resolved : List (VolumeId × Link × Key)
  used : List (VolumeId × Link × Key)

inductive EnumerationAction where
  /-- The outer loop goes on to the next volume. -/
  | group
  | fetch (action : BufferAction)
  /-- `fetches.try_next()` -/
  | batch
  /-- The next parent key, or on to the builds. -/
  | resolve
  | build (action : BufferAction)
  /-- `built.next()` -/
  | node
  /-- The key cache loses entries. -/
  | evict (uids : List NodeUid)
  deriving DecidableEq, Repr

/-- The fetches of a volume. -/
def fetchGroup (group : VolumeId × List LinkId) : Buffer World (VolumeId × List LinkDetails) :=
  .start ((chunks KeyWalk.maxBatchCount group.2).map (fetchChunk group.1))

/-- The links whose parent key is there, with it. -/
def buildable (links : List LinkDetails) (keys : ParentKeyId → Option Key) :
    List (LinkDetails × Key) :=
  links.filterMap (fun details => (keys (ParentKeyId.of details.link)).map (details, ·))

section Steps

variable (c : Context) (detail : NodeDetail)

def resolveStep (s : Enumeration) (v : VolumeId) (links : List LinkDetails)
    (keys : ParentKeyId → Option Key) : List LinkDetails → Option Enumeration
  | [] =>
      some { s with
        stage := .building (.start ((buildable links keys).map
          (fun p => c.buildInStream v detail p.1 p.2)))
        used := s.used ++ (buildable links keys).map (fun p => (v, p.1.link, p.2)) }
  | details :: pending =>
      if (keys (ParentKeyId.of details.link)).isSome then
        some { s with stage := .resolving v links pending keys }
      else
        match (c.resolveParentKey v details.link).run s.world with
        | none => none
        | some (w, .error _) =>
            some { s with world := w, stage := .resolving v links pending keys }
        | some (w, .ok key) =>
            some { s with
              world := w
              stage := .resolving v links pending
                (Function.update keys (ParentKeyId.of details.link) (some key))
              resolved := s.resolved ++ [(v, details.link, key)] }

def enumerationStep (s : Enumeration) : EnumerationAction → Option Enumeration
  | .group =>
      match s.stage, s.groups with
      | .fetching, group :: groups =>
          if s.fetches.Over then some { s with groups := groups, fetches := fetchGroup group }
          else none
      | _, _ => none
  | .fetch action =>
      (s.fetches.step maxConcurrentDetailFetches s.world action).map
        (fun p => { s with world := p.1, fetches := p.2 })
  | .batch =>
      match s.stage, s.fetches.pop with
      | .fetching, some ((v, links), fetches) =>
          some { s with fetches := fetches, stage := .resolving v links links (fun _ => none) }
      | _, _ => none
  | .resolve =>
      match s.stage with
      | .resolving v links pending keys => c.resolveStep detail s v links keys pending
      | _ => none
  | .build action =>
      match s.stage with
      | .building builds =>
          (builds.step maxConcurrentNodeBuilds s.world action).map
            (fun p => { s with world := p.1, stage := .building p.2 })
      | _ => none
  | .node =>
      match s.stage with
      | .building builds =>
          match builds.pop with
          | some (node, builds) =>
              some { s with stage := .building builds, nodes := s.nodes ++ node.toList }
          | none => if builds.Over then some { s with stage := .fetching } else none
      | _ => none
  | .evict uids => some { s with world := evict s.world uids }

def enumeration : Machine Enumeration EnumerationAction := ⟨c.enumerationStep detail⟩

end Steps

def Enumeration.start (w : World) (uids : List NodeUid) : Enumeration where
  world := w
  groups := groupByVolume uids
  fetches := .empty
  stage := .fetching
  nodes := []
  resolved := []
  used := []

/-- The call has returned. -/
def Enumeration.Done (s : Enumeration) : Prop :=
  s.groups = [] ∧ s.fetches.Over ∧ s.stage = .fetching

/-- Every link is decrypted with a key that was resolved for one with the same `ParentKeyId`. -/
def Enumeration.OwnKeys (s : Enumeration) : Prop :=
  ∀ v link key, (v, link, key) ∈ s.used → ∃ link', (v, link', key) ∈ s.resolved ∧
    ParentKeyId.of link' = ParentKeyId.of link

/-! ## What a step does -/

section

variable {c : Context} {detail : NodeDetail} {s t : Enumeration}

/-- The steps of the machine, with what they depend on. -/
inductive Enumerates (c : Context) (detail : NodeDetail) (s : Enumeration) : Enumeration → Prop where
  | group {group groups} (hstage : s.stage = .fetching) (hgroups : s.groups = group :: groups)
      (hover : s.fetches.Over) :
      Enumerates c detail s { s with groups := groups, fetches := fetchGroup group }
  | fetch {action w fetches}
      (hfetch : s.fetches.step maxConcurrentDetailFetches s.world action = some (w, fetches)) :
      Enumerates c detail s { s with world := w, fetches := fetches }
  | batch {v links fetches} (hstage : s.stage = .fetching)
      (hpop : s.fetches.pop = some ((v, links), fetches)) :
      Enumerates c detail s
        { s with fetches := fetches, stage := .resolving v links links (fun _ => none) }
  | known {v links details pending keys key}
      (hstage : s.stage = .resolving v links (details :: pending) keys)
      (hkey : keys (ParentKeyId.of details.link) = some key) :
      Enumerates c detail s { s with stage := .resolving v links pending keys }
  | failed {v links details pending keys w e}
      (hstage : s.stage = .resolving v links (details :: pending) keys)
      (hnew : keys (ParentKeyId.of details.link) = none)
      (hrun : (c.resolveParentKey v details.link).run s.world = some (w, .error e)) :
      Enumerates c detail s { s with world := w, stage := .resolving v links pending keys }
  | resolved {v links details pending keys w key}
      (hstage : s.stage = .resolving v links (details :: pending) keys)
      (hnew : keys (ParentKeyId.of details.link) = none)
      (hrun : (c.resolveParentKey v details.link).run s.world = some (w, .ok key)) :
      Enumerates c detail s
        { s with
          world := w
          stage := .resolving v links pending
            (Function.update keys (ParentKeyId.of details.link) (some key))
          resolved := s.resolved ++ [(v, details.link, key)] }
  | builds {v links keys} (hstage : s.stage = .resolving v links [] keys) :
      Enumerates c detail s
        { s with
          stage := .building (.start ((buildable links keys).map
            (fun p => c.buildInStream v detail p.1 p.2)))
          used := s.used ++ (buildable links keys).map (fun p => (v, p.1.link, p.2)) }
  | build {builds action w builds'} (hstage : s.stage = .building builds)
      (hbuild : builds.step maxConcurrentNodeBuilds s.world action = some (w, builds')) :
      Enumerates c detail s { s with world := w, stage := .building builds' }
  | node {builds node builds'} (hstage : s.stage = .building builds)
      (hpop : builds.pop = some (node, builds')) :
      Enumerates c detail s { s with stage := .building builds', nodes := s.nodes ++ node.toList }
  | built {builds} (hstage : s.stage = .building builds) (hover : builds.Over) :
      Enumerates c detail s { s with stage := .fetching }
  | evict (uids : List NodeUid) : Enumerates c detail s { s with world := Context.evict s.world uids }

theorem enumerates_of_resolveStep {v : VolumeId} {links pending : List LinkDetails}
    {keys : ParentKeyId → Option Key} (hstage : s.stage = .resolving v links pending keys)
    (h : c.resolveStep detail s v links keys pending = some t) : Enumerates c detail s t := by
  cases pending with
  | nil =>
      cases h
      exact .builds hstage
  | cons details pending =>
      simp only [resolveStep] at h
      split at h
      · -- The parent key is known already, or the lookup fails, or it finds the key.
        next hknown =>
        obtain ⟨key, hkey⟩ := Option.isSome_iff_exists.mp hknown
        cases h
        exact .known hstage hkey
      · next hunknown =>
        have hnew : keys (ParentKeyId.of details.link) = none := by simpa using hunknown
        split at h
        · cases h
        · next hrun =>
          cases h
          exact .failed hstage hnew hrun
        · next hrun =>
          cases h
          exact .resolved hstage hnew hrun

theorem enumerates_of_step {action : EnumerationAction}
    (h : (c.enumeration detail).step s action = some t) : Enumerates c detail s t := by
  simp only [enumeration] at h
  cases action with
  | group =>
      simp only [enumerationStep] at h
      split at h
      · next group groups hstage hgroups =>
        split at h
        · next hover =>
          cases h
          exact .group hstage hgroups hover
        · cases h
      · cases h
  | fetch action =>
      obtain ⟨⟨w, fetches⟩, hfetch, rfl⟩ := Option.map_eq_some_iff.mp h
      exact .fetch hfetch
  | batch =>
      simp only [enumerationStep] at h
      split at h
      · next v links fetches hstage hpop =>
        cases h
        exact .batch hstage hpop
      · cases h
  | resolve =>
      simp only [enumerationStep] at h
      split at h
      · next v links pending keys hstage => exact enumerates_of_resolveStep hstage h
      · cases h
  | build action =>
      simp only [enumerationStep] at h
      split at h
      · next builds hstage =>
        obtain ⟨⟨w, builds'⟩, hbuild, rfl⟩ := Option.map_eq_some_iff.mp h
        exact .build hstage hbuild
      · cases h
  | node =>
      simp only [enumerationStep] at h
      split at h
      · next builds hstage =>
        -- The next build is ready, or all of them are over.
        split at h
        · next node builds' hpop =>
          cases h
          exact .node hstage hpop
        · split at h
          · next hover =>
            cases h
            exact .built hstage hover
          · cases h
      · cases h
  | evict uids =>
      cases h
      exact .evict uids

/-! ## Own keys -/

/-- The keys of the batch were resolved for links of their `ParentKeyId`. -/
def Enumeration.KeysResolved (s : Enumeration) : Prop :=
  ∀ v links pending keys, s.stage = .resolving v links pending keys →
    ∀ id key, keys id = some key → ∃ link', (v, link', key) ∈ s.resolved ∧ ParentKeyId.of link' = id

theorem mem_buildable {links : List LinkDetails} {keys : ParentKeyId → Option Key}
    {p : LinkDetails × Key} :
    p ∈ buildable links keys ↔ p.1 ∈ links ∧ keys (ParentKeyId.of p.1.link) = some p.2 := by
  obtain ⟨details, key⟩ := p
  simp only [buildable, List.mem_filterMap, Option.map_eq_some_iff, Prod.mk.injEq]
  constructor
  · rintro ⟨_, hmem, _, hkey, rfl, rfl⟩
    exact ⟨hmem, hkey⟩
  · rintro ⟨hmem, hkey⟩
    exact ⟨details, hmem, key, hkey, rfl, rfl⟩

theorem ownKeys_step (h : s.OwnKeys) (hkeys : s.KeysResolved) (hstep : Enumerates c detail s t) :
    t.OwnKeys ∧ t.KeysResolved := by
  -- Most steps leave the logs as they are, and do not resolve anything.
  cases hstep with
  | group hstage _ _ => exact ⟨h, hkeys⟩
  | fetch _ => exact ⟨h, hkeys⟩
  | batch hstage _ =>
      refine ⟨h, ?_⟩
      intro v links pending keys hstage' id key hkey
      cases hstage'
      cases hkey
  | known hstage _ =>
      refine ⟨h, ?_⟩
      intro v links pending keys hstage' id key hkey
      cases hstage'
      exact hkeys _ _ _ _ hstage id key hkey
  | failed hstage _ _ =>
      refine ⟨h, ?_⟩
      intro v links pending keys hstage' id key hkey
      cases hstage'
      exact hkeys _ _ _ _ hstage id key hkey
  | @resolved v links details pending keys w key hstage _ _ =>
      constructor
      · intro v' link' key' hused
        obtain ⟨link'', hmem, hid⟩ := h v' link' key' hused
        exact ⟨link'', List.mem_append_left _ hmem, hid⟩
      · intro v' links' pending' keys' hstage' id key' hkey
        cases hstage'
        simp only [Function.update_apply] at hkey
        split at hkey
        · next hid =>
          cases hkey
          exact ⟨details.link, List.mem_append_right _ List.mem_cons_self, hid.symm⟩
        · obtain ⟨link', hmem, hid⟩ := hkeys _ _ _ _ hstage id key' hkey
          exact ⟨link', List.mem_append_left _ hmem, hid⟩
  | @builds v links keys hstage =>
      constructor
      · intro v' link' key' hused
        rcases List.mem_append.mp hused with hused | hused
        · exact h v' link' key' hused
        · obtain ⟨p, hp, hsame⟩ := List.mem_map.mp hused
          cases hsame
          exact hkeys _ _ _ _ hstage _ _ (mem_buildable.mp hp).2
      · intro v' links' pending' keys' hstage'
        cases hstage'
  | build hstage _ =>
      refine ⟨h, ?_⟩
      intro v links pending keys hstage'
      cases hstage'
  | node hstage _ =>
      refine ⟨h, ?_⟩
      intro v links pending keys hstage'
      cases hstage'
  | built hstage _ =>
      refine ⟨h, ?_⟩
      intro v links pending keys hstage'
      cases hstage'
  | evict uids => exact ⟨h, hkeys⟩

/-- In every run, with any caches, links are decrypted with keys of their own `ParentKeyId`. -/
theorem ownKeys_of_run {w : World} {uids : List NodeUid} {actions : List EnumerationAction}
    (h : (c.enumeration detail).exec (.start w uids) actions = some t) : t.OwnKeys := by
  have hboth : t.OwnKeys ∧ t.KeysResolved := by
    apply (c.enumeration detail).exec_invariant (fun s => s.OwnKeys ∧ s.KeysResolved) _ _ h
    · intro s a t hs hstep
      exact ownKeys_step hs.1 hs.2 (enumerates_of_step hstep)
    · constructor
      · intro v link key hused
        cases hused
      · intro v links pending keys hstage
        cases hstage
  exact hboth.1

end

end Context

end ProtonDrive
