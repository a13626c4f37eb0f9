import ProtonDrive.Drive.Enumeration

/-!
# Batches are loads

What a call of `enumerate_nodes` comes to, whatever is polled when: the nodes that loads of the
single uids return, volume by volume.

* `Comes` — the nodes there are, and those to come from the builds, the fetches and the volumes, are
  the same all along, if the caches are consistent with the server.
* `reaches_done` — where ways to a root end, every run can be brought to its end.
* `reaches_of_enumerateNodesDetail` — the call without anything at the same time is one of the runs.
* `enumerateNodes_eq_loads` — the result.
-/

namespace ProtonDrive

open OpenPgp

namespace Context

/-! ## What the server shows -/

section Shown

variable (c : Context) (server : NodeUid → Option LinkDetails) (detail : NodeDetail)

open Classical in
/-- The node that the server shows, if it shows one. -/
noncomputable def shown (uid : NodeUid) : Option Node :=
  if h : ∃ node, c.Shows server detail uid node then some h.choose else none

/-- The nodes of some links. -/
noncomputable def shownLinks (batch : VolumeId × List LinkDetails) : List Node :=
  batch.2.filterMap (fun details => c.shown server detail ⟨batch.1, details.link.id⟩)

/-- The nodes of a volume, as they are asked for. -/
noncomputable def shownGroup (group : VolumeId × List LinkId) : List Node :=
  group.2.filterMap (fun a => c.shown server detail ⟨group.1, a⟩)

variable {c server detail}

/-- What a link is shown as, when it is shown. -/
theorem shown_eq_some {uid : NodeUid} {node : Node} :
    c.shown server detail uid = some node ↔ c.Shows server detail uid node := by
  unfold shown
  split
  · next h =>
    constructor
    · intro hsame
      cases hsame
      exact h.choose_spec
    · intro hshows
      rw [hshows.unique h.choose_spec]
  · next h =>
    constructor
    · intro hnone
      cases hnone
    · intro hshows
      exact absurd ⟨node, hshows⟩ h

/-- A link that no key opens is not shown. -/
theorem shown_eq_none {uid : NodeUid} (h : ∀ node, ¬ c.Shows server detail uid node) :
    c.shown server detail uid = none := by
  cases hshown : c.shown server detail uid with
  | none => rfl
  | some node => exact absurd (shown_eq_some.mp hshown) (h node)

/-- An id that the server does not know shows nothing. -/
theorem shownLinks_fetched (hnamed : WellNamed server) (v : VolumeId) (ids : List LinkId) :
    c.shownLinks server detail (v, ids.filterMap (fun a => server ⟨v, a⟩)) =
      c.shownGroup server detail (v, ids) := by
  simp only [shownLinks, shownGroup, List.filterMap_filterMap]
  congr 1
  funext a
  cases hd : server ⟨v, a⟩ with
  | none =>
      rw [Option.bind_none, shown_eq_none]
      rintro node ⟨details, _, _, hd', _⟩
      rw [hd] at hd'
      cases hd'
  | some details =>
      rw [Option.bind_some, hnamed _ _ hd]

/-- Fetching the links of a volume in chunks shows the same nodes. -/
theorem shownGroup_chunks (v : VolumeId) (ids : List LinkId) :
    (chunks KeyWalk.maxBatchCount ids).flatMap (fun chunk => c.shownGroup server detail (v, chunk)) =
      c.shownGroup server detail (v, ids) := by
  have hflat : (chunks KeyWalk.maxBatchCount ids).flatten = ids := chunks_flatten (by decide) ids
  calc (chunks KeyWalk.maxBatchCount ids).flatMap (fun chunk => c.shownGroup server detail (v, chunk))
      = (chunks KeyWalk.maxBatchCount ids).flatten.filterMap
          (fun a => c.shown server detail ⟨v, a⟩) := by
        rw [List.filterMap_flatten, List.flatMap_def]
        rfl
    _ = c.shownGroup server detail (v, ids) := by
        rw [hflat]
        rfl

end Shown

/-! ## What the futures yield -/

section Yields

open Future

variable {c : Context} {server : NodeUid → Option LinkDetails} {detail : NodeDetail}

/-- A chunk that is fetched brings the links that the server has of it. -/
theorem fetchChunk_yields (v : VolumeId) (ids : List LinkId) :
    Yields (c.Consistent server) (fetchChunk v ids)
      (v, ids.filterMap (fun a => server ⟨v, a⟩)) := by
  refine .poll (fun w hw => hw) ?_
  intro w hw
  rw [hw.server_eq]
  exact .ready _

/-- The batches of a volume. -/
def fetched (server : NodeUid → Option LinkDetails) (group : VolumeId × List LinkId) :
    List (VolumeId × List LinkDetails) :=
  (chunks KeyWalk.maxBatchCount group.2).map
    (fun ids => (group.1, ids.filterMap (fun a => server ⟨group.1, a⟩)))

/-- The chunks of a group are due in their order. -/
theorem fetchGroup_due (group : VolumeId × List LinkId) :
    (fetchGroup group).Due (c.Consistent server) (fetched server group) := by
  apply Buffer.due_start
  unfold fetched
  rw [List.forall₂_map_left_iff, List.forall₂_map_right_iff, List.forall₂_same]
  intro ids _
  exact fetchChunk_yields group.1 ids

/-- A build yields what the server shows, and keeps the caches consistent. -/
theorem buildInStream_yields (hnamed : WellNamed server) {v : VolumeId} {a : LinkId}
    {details : LinkDetails} {key : Key} (hd : server ⟨v, a⟩ = some details)
    (hkey : c.KeyAbove server v details.link key) :
    Yields (c.Consistent server) (c.buildInStream v detail details key)
      (c.shown server detail ⟨v, details.link.id⟩) := by
  obtain rfl : details.link.id = a := hnamed _ _ hd
  unfold buildInStream
  split
  · next e hbuilt =>
    -- The key is the only one above the link, so no other attempt opens it either.
    rw [shown_eq_none]
    · exact .ready none
    · rintro node ⟨details', key', nodeKey, hd', hkey', hbuilt'⟩
      rw [hd] at hd'
      cases hd'
      rw [← hkey.unique hkey', hbuilt] at hbuilt'
      cases hbuilt'
  · next node nodeKey hbuilt =>
    have hshows : c.Shows server detail ⟨v, details.link.id⟩ node :=
      ⟨details, key, nodeKey, hd, hkey, hbuilt⟩
    obtain ⟨huid, hparent⟩ := decryptNode_uids hbuilt
    rw [shown_eq_some.mpr hshows]
    -- Two polls, each with a write to a cache, and then the node.
    refine .poll ?_ (fun _ _ => .poll ?_ (fun _ _ => .ready _))
    · intro w hw
      apply hw.cacheFolderKey
      rintro key' rfl
      rw [huid]
      exact unlocks_of_build hd hkey hbuilt
    · intro w hw
      apply hw.cacheEntity
      · rw [huid]
        exact hd
      · rw [hparent, huid]

/-- The keys of a batch are right, and those of the links that have been dealt with are there if
they can be had. -/
structure KeysFor (c : Context) (server : NodeUid → Option LinkDetails) (v : VolumeId)
    (done : List LinkDetails) (keys : ParentKeyId → Option Key) : Prop where
  right : ∀ link key, keys (ParentKeyId.of link) = some key → c.KeyAbove server v link key
  there : ∀ details ∈ done, ∀ key, c.KeyAbove server v details.link key →
    keys (ParentKeyId.of details.link) = some key

/-- Each link of a batch comes out as it is shown, whichever build ends first. -/
theorem builds_due (detail : NodeDetail) (hnamed : WellNamed server) {v : VolumeId}
    {links : List LinkDetails} {keys : ParentKeyId → Option Key} (hlinks : Fetched server v links)
    (hkeys : KeysFor c server v links keys) :
    ∃ results, List.Forall₂ (Yields (c.Consistent server))
        ((buildable links keys).map (fun p => c.buildInStream v detail p.1 p.2)) results ∧
      results.filterMap id = c.shownLinks server detail (v, links) := by
  induction links with
  | nil => exact ⟨[], .nil, rfl⟩
  | cons details links ih =>
      obtain ⟨a, hd⟩ := hlinks details List.mem_cons_self
      have hrest : KeysFor c server v links keys :=
        ⟨hkeys.right, fun d hmem => hkeys.there d (List.mem_cons_of_mem _ hmem)⟩
      obtain ⟨results, hyields, hresults⟩ :=
        ih (fun d hmem => hlinks d (List.mem_cons_of_mem _ hmem)) hrest
      unfold shownLinks at hresults ⊢
      rw [List.filterMap_cons, ← hresults]
      cases hkey : keys (ParentKeyId.of details.link) with
      | none =>
          -- There is no key above the link, so it is not built and shows nothing.
          have hnone : c.shown server detail ⟨v, details.link.id⟩ = none := by
            apply shown_eq_none
            rintro node ⟨details', key, _, hd', habove, _⟩
            rw [hnamed _ _ hd, hd] at hd'
            cases hd'
            rw [hkeys.there _ List.mem_cons_self key habove] at hkey
            cases hkey
          refine ⟨results, ?_, by rw [hnone]⟩
          simp only [buildable, List.filterMap_cons, hkey, Option.map_none]
          exact hyields
      | some key =>
          refine ⟨c.shown server detail ⟨v, details.link.id⟩ :: results, ?_, ?_⟩
          · simp only [buildable, List.filterMap_cons, hkey, Option.map_some, List.map_cons]
            exact .cons (buildInStream_yields hnamed hd (hkeys.right _ _ hkey)) hyields
          · rw [List.filterMap_cons]
            rfl

end Yields

/-! ## What is to come -/

section Due

variable {c : Context} {server : NodeUid → Option LinkDetails} {detail : NodeDetail}

/-- The nodes to come from the batch that is being worked on. -/
inductive StageDue (c : Context) (server : NodeUid → Option LinkDetails) (detail : NodeDetail) :
    Stage → List Node → Prop where
  | fetching : StageDue c server detail .fetching []
  | resolving (done : List LinkDetails) {v links pending keys} (hlinks : links = done ++ pending)
      (hfetched : Fetched server v links) (hkeys : KeysFor c server v done keys) :
      StageDue c server detail (.resolving v links pending keys)
        (c.shownLinks server detail (v, links))
  | building {builds results} (hdue : builds.Due (c.Consistent server) results) :
      StageDue c server detail (.building builds) (results.filterMap id)

/-- The fetched batches to come. -/
structure FetchesDue (c : Context) (server : NodeUid → Option LinkDetails)
    (fetches : Buffer World (VolumeId × List LinkDetails))
    (batches : List (VolumeId × List LinkDetails)) : Prop where
  due : fetches.Due (c.Consistent server) batches
  fetched : ∀ batch ∈ batches, Fetched server batch.1 batch.2

/-- The caches are consistent, and with what is to come the nodes are going to be `total`. -/
def Enumeration.Comes (c : Context) (server : NodeUid → Option LinkDetails) (detail : NodeDetail)
    (total : List Node) (s : Enumeration) : Prop :=
  c.Consistent server s.world ∧
    ∃ rest batches, StageDue c server detail s.stage rest ∧ FetchesDue c server s.fetches batches ∧
      total = s.nodes ++ rest ++ batches.flatMap (c.shownLinks server detail) ++
        s.groups.flatMap (c.shownGroup server detail)

/-- The fetches of a group are due in their order. -/
theorem fetchesDue_fetchGroup (group : VolumeId × List LinkId) :
    FetchesDue c server (fetchGroup group) (fetched server group) := by
  refine ⟨fetchGroup_due group, ?_⟩
  intro batch hmem
  obtain ⟨ids, -, rfl⟩ := List.mem_map.mp hmem
  intro details hdetails
  obtain ⟨a, -, ha⟩ := List.mem_filterMap.mp hdetails
  exact ⟨a, ha⟩

/-- The batches of a volume have its nodes. -/
theorem fetched_shown (hnamed : WellNamed server) (group : VolumeId × List LinkId) :
    (fetched server group).flatMap (c.shownLinks server detail) =
      c.shownGroup server detail group := by
  unfold fetched
  rw [List.flatMap_map]
  simp only [shownLinks_fetched hnamed]
  exact shownGroup_chunks group.1 group.2

/-- A link whose parent key is known already needs no other. -/
theorem KeysFor.skip {v : VolumeId} {done : List LinkDetails} {details : LinkDetails}
    {keys : ParentKeyId → Option Key} (h : KeysFor c server v done keys)
    (hhead : ∀ key, c.KeyAbove server v details.link key →
      keys (ParentKeyId.of details.link) = some key) :
    KeysFor c server v (done ++ [details]) keys where
  right := h.right
  there := by
    intro d hmem key hkey
    rcases List.mem_append.mp hmem with hmem | hmem
    · exact h.there d hmem key hkey
    · obtain rfl := List.mem_singleton.mp hmem
      exact hhead key hkey

/-- A parent key that has been found is added to the others. -/
theorem KeysFor.update {v : VolumeId} {done : List LinkDetails} {details : LinkDetails} {key : Key}
    {keys : ParentKeyId → Option Key} (h : KeysFor c server v done keys)
    (hkey : c.KeyAbove server v details.link key) :
    KeysFor c server v (done ++ [details])
      (Function.update keys (ParentKeyId.of details.link) (some key)) := by
  have hright : ∀ link key',
      Function.update keys (ParentKeyId.of details.link) (some key) (ParentKeyId.of link) =
        some key' → c.KeyAbove server v link key' := by
    intro link key' h'
    -- Links with the same parent share the key that was found for one of them.
    simp only [Function.update_apply] at h'
    split at h'
    · next hid =>
      cases h'
      exact (keyAbove_of hid).mpr hkey
    · exact h.right link key' h'
  refine ⟨hright, ?_⟩
  intro d hmem key' hkey'
  by_cases hid : ParentKeyId.of d.link = ParentKeyId.of details.link
  · rw [hid, Function.update_self, ((keyAbove_of hid).mp hkey').unique hkey]
  · rw [Function.update_of_ne hid]
    rcases List.mem_append.mp hmem with hmem | hmem
    · exact h.there d hmem key' hkey'
    · rw [List.mem_singleton.mp hmem] at hid
      exact absurd rfl hid

/-- **One step** keeps the caches consistent, and the nodes there will be. -/
theorem Enumeration.Comes.step {total : List Node} {s t : Enumeration}
    (h : s.Comes c server detail total) (hstep : Enumerates c detail s t) :
    t.Comes c server detail total := by
  obtain ⟨hw, rest, batches, hstage, hfetches, rfl⟩ := h
  cases hstep with
  -- The next group, whose batches were counted with it until now.
  | @group group groups hfetching hgroups hover =>
      obtain rfl := hfetches.due.over_iff.mp hover
      refine ⟨hw, rest, fetched server group, hstage, fetchesDue_fetchGroup group, ?_⟩
      rw [fetched_shown hw.named, hgroups]
      simp
  | @fetch action w fetches hfetch =>
      obtain ⟨hw', hdue⟩ := Buffer.step_due hw hfetches.due hfetch
      exact ⟨hw', rest, batches, hstage, ⟨hdue, hfetches.fetched⟩, rfl⟩
  | @batch v links fetches hfetching hpop =>
      obtain ⟨later, rfl, hdue⟩ := Buffer.pop_due hfetches.due hpop
      rw [hfetching] at hstage
      cases hstage
      -- No parent key of the batch is looked up yet.
      refine ⟨hw, c.shownLinks server detail (v, links), later, ?_, ⟨hdue, ?_⟩, by simp⟩
      · refine .resolving [] rfl (hfetches.fetched (v, links) List.mem_cons_self) ⟨?_, ?_⟩
        · intro link key hkey
          cases hkey
        · intro d hmem
          cases hmem
      · intro batch hmem
        exact hfetches.fetched batch (List.mem_cons_of_mem _ hmem)
  -- The parent key is known from an earlier link of the batch.
  | @known v links details pending keys key hresolving hkey =>
      rw [hresolving] at hstage
      cases hstage with
      | resolving done hlinks hfetched hkeys =>
          refine ⟨hw, _, batches, .resolving (done ++ [details]) ?_ hfetched ?_, hfetches, rfl⟩
          · rw [hlinks, List.append_assoc]
            rfl
          · apply hkeys.skip
            intro key' hkey'
            rw [hkey, (hkeys.right _ _ hkey).unique hkey']
  | @failed v links details pending keys w e hresolving hnew hrun =>
      obtain ⟨hw', hiff⟩ := hw.resolveParentKey hrun
      rw [hresolving] at hstage
      cases hstage with
      | resolving done hlinks hfetched hkeys =>
          refine ⟨hw', _, batches, .resolving (done ++ [details]) ?_ hfetched ?_, hfetches, rfl⟩
          · rw [hlinks, List.append_assoc]
            rfl
          · -- A parent key that does not open is none that any link could use.
            apply hkeys.skip
            intro key' hkey'
            cases (hiff key').mpr hkey'
  | @resolved v links details pending keys w key hresolving hnew hrun =>
      obtain ⟨hw', hiff⟩ := hw.resolveParentKey hrun
      rw [hresolving] at hstage
      cases hstage with
      | resolving done hlinks hfetched hkeys =>
          refine ⟨hw', _, batches, .resolving (done ++ [details]) ?_ hfetched
            (hkeys.update ((hiff key).mp rfl)), hfetches, rfl⟩
          rw [hlinks, List.append_assoc]
          rfl
  | @builds v links keys hresolving =>
      rw [hresolving] at hstage
      cases hstage with
      | resolving done hlinks hfetched hkeys =>
          rw [List.append_nil] at hlinks
          subst hlinks
          obtain ⟨results, hyields, hresults⟩ := builds_due detail hw.named hfetched hkeys
          refine ⟨hw, results.filterMap id, batches, .building (Buffer.due_start hyields),
            hfetches, ?_⟩
          rw [hresults]
  | @build builds action w builds' hbuilding hbuild =>
      rw [hbuilding] at hstage
      cases hstage with
      | @building _ results hdue =>
          obtain ⟨hw', hdue'⟩ := Buffer.step_due hw hdue hbuild
          exact ⟨hw', _, batches, .building hdue', hfetches, rfl⟩
  | @node builds node builds' hbuilding hpop =>
      rw [hbuilding] at hstage
      cases hstage with
      | @building _ results hdue =>
          obtain ⟨later, rfl, hdue'⟩ := Buffer.pop_due hdue hpop
          refine ⟨hw, later.filterMap id, batches, .building hdue', hfetches, ?_⟩
          -- A link that did not open has left `none` in the stream, which adds no node.
          cases node <;> simp
  | @built builds hbuilding hover =>
      rw [hbuilding] at hstage
      cases hstage with
      | @building _ results hdue =>
          obtain rfl := hdue.over_iff.mp hover
          exact ⟨hw, [], batches, .fetching, hfetches, rfl⟩
  | evict uids => exact ⟨hw.evict uids, rest, batches, hstage, hfetches, rfl⟩

/-- At the start everything that is shown is still to come. -/
theorem comes_start {w : World} (hw : c.Consistent server w) (uids : List NodeUid) :
    (Enumeration.start w uids).Comes c server detail
      ((groupByVolume uids).flatMap (c.shownGroup server detail)) := by
  refine ⟨hw, [], [], .fetching, ⟨.nil, ?_⟩, rfl⟩
  intro batch hmem
  cases hmem

/-- A run that is over has all the nodes. -/
theorem Enumeration.Comes.done {total : List Node} {s : Enumeration}
    (h : s.Comes c server detail total) (hdone : s.Done) : s.nodes = total := by
  obtain ⟨-, rest, batches, hstage, hfetches, rfl⟩ := h
  obtain ⟨hgroups, hover, hfetching⟩ := hdone
  obtain rfl := hfetches.due.over_iff.mp hover
  rw [hfetching] at hstage
  cases hstage
  rw [hgroups]
  simp

/-- Along every run what has come and what is still to come stay the same together. -/
theorem comes_of_run {w : World} (hw : c.Consistent server w) {uids : List NodeUid}
    {actions : List EnumerationAction} {t : Enumeration}
    (h : (c.enumeration detail).exec (.start w uids) actions = some t) :
    t.Comes c server detail ((groupByVolume uids).flatMap (c.shownGroup server detail)) := by
  apply (c.enumeration detail).exec_invariant _ _ (comes_start hw uids) h
  intro s a t hs hstep
  exact hs.step (enumerates_of_step hstep)

end Due

/-! ## Every run can be brought to its end -/

section Progress

variable {c : Context} {server : NodeUid → Option LinkDetails} {detail : NodeDetail}
  {total : List Node} {s t u : Enumeration}

/-- Some run leads from `s` to `t`. -/
def Reaches (c : Context) (detail : NodeDetail) (s t : Enumeration) : Prop :=
  ∃ actions, (c.enumeration detail).exec s actions = some t

theorem Reaches.refl (s : Enumeration) : Reaches c detail s s := ⟨[], rfl⟩

/-- One run after the other. -/
theorem Reaches.trans (h : Reaches c detail s t) (h' : Reaches c detail t u) :
    Reaches c detail s u := by
  obtain ⟨actions, h⟩ := h
  obtain ⟨more, h'⟩ := h'
  exact ⟨actions ++ more, by rw [Machine.exec_append, h, Option.bind_some, h']⟩

/-- One more step in front. -/
theorem Reaches.head (action : EnumerationAction)
    (hstep : (c.enumeration detail).step s action = some t) (h : Reaches c detail t u) :
    Reaches c detail s u :=
  .trans ⟨[action], Machine.exec_singleton _ hstep⟩ h

/-- What comes is the same along the way. -/
theorem Enumeration.Comes.reaches (h : s.Comes c server detail total) (hrun : Reaches c detail s t) :
    t.Comes c server detail total := by
  obtain ⟨actions, hrun⟩ := hrun
  apply (c.enumeration detail).exec_invariant _ _ h hrun
  intro s a t hs hstep
  exact hs.step (enumerates_of_step hstep)

/-- A run of the builds is one of the enumeration. -/
theorem reaches_builds {builds builds' : Buffer World (Option Node)} {w : World}
    {actions : List BufferAction} (hstage : s.stage = .building builds)
    (hrun : Buffer.run maxConcurrentNodeBuilds s.world builds actions = some (w, builds')) :
    Reaches c detail s { s with world := w, stage := .building builds' } := by
  induction actions generalizing s builds with
  | nil =>
      cases hrun
      rw [← hstage]
      exact .refl s
  | cons action actions ih =>
      obtain ⟨⟨w1, builds1⟩, hstep, hrest⟩ := Option.bind_eq_some_iff.mp hrun
      have hfirst : (c.enumeration detail).step s (.build action) =
          some { s with world := w1, stage := .building builds1 } := by
        simp only [enumeration, enumerationStep, hstage, hstep, Option.map_some]
      exact .head _ hfirst (ih (s := { s with world := w1, stage := .building builds1 }) rfl hrest)

/-- A run of the fetches is one of the enumeration. -/
theorem reaches_fetches {fetches' : Buffer World (VolumeId × List LinkDetails)} {w : World}
    {actions : List BufferAction}
    (hrun : Buffer.run maxConcurrentDetailFetches s.world s.fetches actions = some (w, fetches')) :
    Reaches c detail s { s with world := w, fetches := fetches' } := by
  induction actions generalizing s with
  | nil =>
      cases hrun
      exact .refl s
  | cons action actions ih =>
      obtain ⟨⟨w1, fetches1⟩, hstep, hrest⟩ := Option.bind_eq_some_iff.mp hrun
      have hfirst : (c.enumeration detail).step s (.fetch action) =
          some { s with world := w1, fetches := fetches1 } := by
        simp only [enumeration, enumerationStep, hstep, Option.map_some]
      exact .head _ hfirst (ih (s := { s with world := w1, fetches := fetches1 }) hrest)

/-- The same volumes and fetches are still to come. -/
structure AtBatchEnd (s t : Enumeration) : Prop where
  stage : t.stage = .fetching
  fetches : t.fetches = s.fetches
  groups : t.groups = s.groups

/-- The builds of a batch can be finished. -/
theorem builds_end {builds : Buffer World (Option Node)} {results : List (Option Node)}
    (hw : c.Consistent server s.world) (hstage : s.stage = .building builds)
    (hdue : builds.Due (c.Consistent server) results) :
    ∃ t, Reaches c detail s t ∧ AtBatchEnd s t := by
  induction results generalizing s builds with
  | nil =>
      have hover : builds.Over := hdue.over_iff.mpr rfl
      have hpop : builds.pop = none := by
        unfold Buffer.pop
        rw [hover.2]
      refine ⟨{ s with stage := .fetching }, .head .node ?_ (.refl _), rfl, rfl, rfl⟩
      simp only [enumeration, enumerationStep, hstage, hpop, hover, if_true]
  | cons node results ih =>
      -- The first build in line is polled until it is ready.
      obtain ⟨actions, w, builds', hrun, rest, hpop⟩ :=
        Buffer.exists_pop (n := maxConcurrentNodeBuilds) (by decide) hw hdue
      obtain ⟨hw', hdue'⟩ := Buffer.run_due hw hdue hrun
      obtain ⟨results', hsame, hrest⟩ := Buffer.pop_due hdue' hpop
      cases hsame
      obtain ⟨t, hreach, hend⟩ :=
        ih (s := { s with world := w, stage := .building rest, nodes := s.nodes ++ node.toList })
          hw' rfl hrest
      refine ⟨t, (reaches_builds hstage hrun).trans (.head .node ?_ hreach),
        hend.stage, hend.fetches, hend.groups⟩
      simp only [enumeration, enumerationStep, hpop]

variable {depth : NodeUid → Nat}

/-- The parent keys of a batch are all dealt with. -/
theorem pending_end (hground : c.Grounded server depth) {v : VolumeId}
    {links pending : List LinkDetails} {keys : ParentKeyId → Option Key}
    (hw : c.Consistent server s.world) (hfetched : Fetched server v pending)
    (hstage : s.stage = .resolving v links pending keys) :
    ∃ t keys', Reaches c detail s t ∧ t.stage = .resolving v links [] keys' ∧
      t.fetches = s.fetches ∧ t.groups = s.groups := by
  induction pending generalizing s keys with
  | nil => exact ⟨s, keys, .refl s, hstage, rfl, rfl⟩
  | cons details pending ih =>
      obtain ⟨a, hd⟩ := hfetched details List.mem_cons_self
      have hrest : Fetched server v pending := fun d hmem => hfetched d (List.mem_cons_of_mem _ hmem)
      obtain ⟨s', hstep, hw', ⟨keys', hstage'⟩, hfetches, hgroups⟩ : ∃ s',
          (c.enumeration detail).step s .resolve = some s' ∧ c.Consistent server s'.world ∧
          (∃ keys', s'.stage = .resolving v links pending keys') ∧ s'.fetches = s.fetches ∧
          s'.groups = s.groups := by
        simp only [enumeration, enumerationStep, hstage, resolveStep]
        by_cases hknown : (keys (ParentKeyId.of details.link)).isSome = true
        · rw [if_pos hknown]
          exact ⟨_, rfl, hw, ⟨keys, rfl⟩, rfl, rfl⟩
        · -- A lookup that fails drops the link and the batch goes on.
          rw [if_neg hknown]
          obtain ⟨w, r, hrun⟩ := hw.resolveParentKey_returns hground hd
          obtain ⟨hw', -⟩ := hw.resolveParentKey hrun
          rw [hrun]
          cases r with
          | error e => exact ⟨_, rfl, hw', ⟨_, rfl⟩, rfl, rfl⟩
          | ok key => exact ⟨_, rfl, hw', ⟨_, rfl⟩, rfl, rfl⟩
      obtain ⟨t, keys'', hreach, hstage'', hfetches', hgroups'⟩ := ih hw' hrest hstage'
      exact ⟨t, keys'', .head .resolve hstep hreach, hstage'', hfetches'.trans hfetches,
        hgroups'.trans hgroups⟩

/-- A batch can be finished, from whatever stage it is at. -/
theorem batch_end (hground : c.Grounded server depth) (h : s.Comes c server detail total) :
    ∃ t, Reaches c detail s t ∧ AtBatchEnd s t := by
  obtain ⟨hw, rest, batches, hstage, -, -⟩ := id h
  cases hs : s.stage with
  | fetching => exact ⟨s, .refl s, hs, rfl, rfl⟩
  | building builds =>
      rw [hs] at hstage
      cases hstage with
      | building hdue => exact builds_end hw hs hdue
  | resolving v links pending keys =>
      rw [hs] at hstage
      cases hstage with
      | resolving done hlinks hfetched _ =>
          have hpending : Fetched server v pending := by
            intro d hmem
            apply hfetched d
            rw [hlinks]
            exact List.mem_append_right _ hmem
          obtain ⟨t, keys', hreach, ht, hfetches, hgroups⟩ := pending_end hground hw hpending hs
          -- All keys are there, so the builds start, and they end as well.
          obtain ⟨u, hu, ⟨builds, hbuilding⟩, hfetches', hgroups'⟩ :
              ∃ u, (c.enumeration detail).step t .resolve = some u ∧
                (∃ builds, u.stage = .building builds) ∧ u.fetches = t.fetches ∧
                u.groups = t.groups := by
            simp only [enumeration, enumerationStep, ht, resolveStep]
            exact ⟨_, rfl, ⟨_, rfl⟩, rfl, rfl⟩
          have hreach' := hreach.trans (.head .resolve hu (.refl u))
          obtain ⟨hwu, _, _, hstageu, -, -⟩ := h.reaches hreach'
          rw [hbuilding] at hstageu
          cases hstageu with
          | building hdue =>
              obtain ⟨x, hx, hend⟩ := builds_end hwu hbuilding hdue
              refine ⟨x, hreach'.trans hx, hend.stage, ?_, ?_⟩
              · rw [hend.fetches, hfetches', hfetches]
              · rw [hend.groups, hgroups', hgroups]

/-- The fetches of a group can be finished, by induction on the batches that are due. -/
theorem fetches_end (hground : c.Grounded server depth) (h : s.Comes c server detail total)
    (hstage : s.stage = .fetching) {batches : List (VolumeId × List LinkDetails)}
    (hdue : s.fetches.Due (c.Consistent server) batches) :
    ∃ t, Reaches c detail s t ∧ t.stage = .fetching ∧ t.fetches.Over ∧ t.groups = s.groups := by
  induction batches generalizing s with
  | nil => exact ⟨s, .refl s, hstage, hdue.over_iff.mpr rfl, rfl⟩
  | cons batch batches ih =>
      obtain ⟨hw, -⟩ := id h
      -- The first fetch in line is polled until it is ready, and its batch is finished before the
      -- next.
      obtain ⟨actions, w, fetches, hrun, rest, hpop⟩ :=
        Buffer.exists_pop (n := maxConcurrentDetailFetches) (by decide) hw hdue
      obtain ⟨-, hdue'⟩ := Buffer.run_due hw hdue hrun
      obtain ⟨batches', hsame, hrest⟩ := Buffer.pop_due hdue' hpop
      cases hsame
      have hfetched : Reaches c detail s { s with world := w, fetches := fetches } :=
        reaches_fetches hrun
      obtain ⟨t, ht, htfetches, htgroups⟩ : ∃ t,
          (c.enumeration detail).step { s with world := w, fetches := fetches } .batch = some t ∧
          t.fetches = rest ∧ t.groups = s.groups := by
        simp only [enumeration, enumerationStep, hstage, hpop]
        exact ⟨_, rfl, rfl, rfl⟩
      have hreach := hfetched.trans (.head .batch ht (.refl t))
      obtain ⟨u, hu, hend⟩ := batch_end hground (h.reaches hreach)
      have hreach' := hreach.trans hu
      have hlater : u.fetches.Due (c.Consistent server) batches := by
        rw [hend.fetches, htfetches]
        exact hrest
      obtain ⟨x, hx, hxstage, hover, hgroups⟩ := ih (h.reaches hreach') hend.stage hlater
      exact ⟨x, hreach'.trans hx, hxstage, hover, by rw [hgroups, hend.groups, htgroups]⟩

/-- The loop over the batches of a volume ends. -/
theorem volume_end (hground : c.Grounded server depth) (h : s.Comes c server detail total) :
    ∃ t, Reaches c detail s t ∧ t.stage = .fetching ∧ t.fetches.Over ∧ t.groups = s.groups := by
  obtain ⟨t, ht, hend⟩ := batch_end hground h
  obtain ⟨-, _, batches, -, hfetches, -⟩ := h.reaches ht
  obtain ⟨u, hu, hstage, hover, hgroups⟩ :=
    fetches_end hground (h.reaches ht) hend.stage hfetches.due
  exact ⟨u, ht.trans hu, hstage, hover, hgroups.trans hend.groups⟩

/-- Where ways to a root end, every run can be brought to its end. -/
theorem reaches_done (hground : c.Grounded server depth) (h : s.Comes c server detail total) :
    ∃ t, Reaches c detail s t ∧ t.Done := by
  induction hgroups : s.groups generalizing s with
  | nil =>
      obtain ⟨t, ht, hstage, hover, hsame⟩ := volume_end hground h
      exact ⟨t, ht, hsame.trans hgroups, hover, hstage⟩
  | cons group groups ih =>
      obtain ⟨t, ht, hstage, hover, hsame⟩ := volume_end hground h
      rw [hgroups] at hsame
      obtain ⟨u, hu, hugroups⟩ : ∃ u, (c.enumeration detail).step t .group = some u ∧
          u.groups = groups := by
        simp only [enumeration, enumerationStep, hstage, hsame, hover, if_true]
        exact ⟨_, rfl, rfl⟩
      have hreach := ht.trans (.head .group hu (.refl u))
      obtain ⟨v, hv, hdone⟩ := ih (h.reaches hreach) hugroups
      exact ⟨v, hreach.trans hv, hdone⟩

end Progress

/-! ## Nothing at the same time -/

section Sequential

variable {c : Context} {detail : NodeDetail} {s : Enumeration} {w : World} {v : VolumeId}

/-- Builds one after the other are a run of the stream. -/
theorem reaches_of_buildEach {links : List LinkDetails} {keys : ParentKeyId → Option Key}
    {nodes : List Node} (hrun : (c.buildEach v detail keys links).run s.world = some (w, .ok nodes))
    (hstage : s.stage = .building (.start ((buildable links keys).map
      (fun p => c.buildInStream v detail p.1 p.2)))) :
    Reaches c detail s { s with world := w, stage := .fetching, nodes := s.nodes ++ nodes } := by
  induction links generalizing s nodes with
  | nil =>
      cases hrun
      apply Reaches.head .node _ (.refl _)
      simp only [enumeration, enumerationStep, hstage, List.append_nil]
      rfl
  | cons details links ih =>
      unfold buildEach at hrun
      cases hkey : keys (ParentKeyId.of details.link) with
      -- Without a parent key the stream has no future for the link.
      | none =>
          rw [hkey] at hrun
          apply ih hrun
          rw [hstage]
          simp only [buildable, List.filterMap_cons, hkey, Option.map_none]
      | some key =>
          rw [hkey] at hrun
          obtain ⟨w1, built, hbuilt, hrest⟩ := Program.bind_eq_ok.mp hrun
          obtain ⟨w2, later, hlater, hlast⟩ := Program.bind_eq_ok.mp hrest
          cases hlast
          -- The future of the link, polled alone, does what `buildEach` does for it.
          obtain ⟨halone, hresult⟩ := buildInStream_alone (c := c) v detail details key s.world
          rw [Program.attempt_run.mp hbuilt] at halone
          cases halone
          obtain ⟨actions, hpolls⟩ := Buffer.run_take_alone (n := maxConcurrentNodeBuilds) (by decide)
            (c.buildInStream v detail details key)
            ((buildable links keys).map (fun p => c.buildInStream v detail p.1 p.2)) s.world
          rw [hresult] at hpolls
          have hfutures : (buildable (details :: links) keys).map
              (fun p => c.buildInStream v detail p.1 p.2) = c.buildInStream v detail details key ::
                (buildable links keys).map (fun p => c.buildInStream v detail p.1 p.2) := by
            simp only [buildable, List.filterMap_cons, hkey, Option.map_some, List.map_cons]
          rw [hfutures] at hstage
          apply (reaches_builds hstage hpolls).trans
          apply Reaches.head .node rfl
          have hends := ih (s := { s with
            world := ((c.buildInStream v detail details key).alone s.world).1
            stage := .building (.start ((buildable links keys).map
              (fun p => c.buildInStream v detail p.1 p.2)))
            nodes := s.nodes ++
              ((c.account.decryptNode detail v details key).map Prod.fst).toOption.toList })
            hlater rfl
          rw [List.append_assoc] at hends
          exact hends

/-- Parent keys found one after the other are a run of the stream. -/
theorem reaches_of_resolveParentKeys {links pending : List LinkDetails}
    {keys keys' : ParentKeyId → Option Key}
    (hrun : (c.resolveParentKeys v pending keys).run s.world = some (w, .ok keys'))
    (hstage : s.stage = .resolving v links pending keys) :
    ∃ log, Reaches c detail s
      { s with world := w, stage := .resolving v links [] keys', resolved := log } := by
  induction pending generalizing s keys with
  | nil =>
      cases hrun
      refine ⟨s.resolved, ?_⟩
      rw [← hstage]
      exact .refl s
  | cons details pending ih =>
      unfold resolveParentKeys at hrun
      have hstep : ∀ t, c.resolveStep detail s v links keys (details :: pending) = some t →
          (c.enumeration detail).step s .resolve = some t := by
        intro t ht
        simp only [enumeration, enumerationStep, hstage]
        exact ht
      by_cases hknown : (keys (ParentKeyId.of details.link)).isSome = true
      · rw [if_pos hknown] at hrun
        obtain ⟨log, hreach⟩ := ih (s := { s with stage := .resolving v links pending keys }) hrun rfl
        refine ⟨log, .head .resolve (hstep _ ?_) hreach⟩
        rw [resolveStep, if_pos hknown]
      · rw [if_neg hknown] at hrun
        obtain ⟨w1, r, hresolve, hrest⟩ := Program.bind_eq_ok.mp hrun
        -- The source logs a failed lookup and goes on with the next link.
        rw [Program.attempt_run] at hresolve
        cases r with
        | error e =>
            obtain ⟨log, hreach⟩ := ih
              (s := { s with world := w1, stage := .resolving v links pending keys }) hrest rfl
            refine ⟨log, .head .resolve (hstep _ ?_) hreach⟩
            rw [resolveStep, if_neg hknown, hresolve]
        | ok key =>
            obtain ⟨log, hreach⟩ := ih (s := { s with
              world := w1
              stage := .resolving v links pending
                (Function.update keys (ParentKeyId.of details.link) (some key))
              resolved := s.resolved ++ [(v, details.link, key)] }) hrest rfl
            refine ⟨log, .head .resolve (hstep _ ?_) hreach⟩
            rw [resolveStep, if_neg hknown, hresolve]

/-- The loop has gone on to `t`, with `waiting` still to be fetched. -/
structure After (s t : Enumeration) (waiting : List (Future World (VolumeId × List LinkDetails)))
    (w : World) (nodes : List Node) : Prop where
  stage : t.stage = .fetching
  groups : t.groups = s.groups
  fetches : t.fetches = .start waiting
  world : t.world = w
  nodes : t.nodes = s.nodes ++ nodes

/-- A batch that is read alone is a run of the stream. -/
theorem reaches_of_enumerateBatch {ids : List LinkId} {nodes : List Node}
    {waiting : List (Future World (VolumeId × List LinkDetails))}
    (hrun : (c.enumerateBatch detail (v, ids)).run s.world = some (w, .ok nodes))
    (hstage : s.stage = .fetching) (hfetches : s.fetches = .start (fetchChunk v ids :: waiting)) :
    ∃ t, Reaches c detail s t ∧ After s t waiting w nodes := by
  unfold enumerateBatch getLinkDetails at hrun
  rw [Program.read_bind] at hrun
  obtain ⟨w1, keys, hresolve, hbuild⟩ := Program.bind_eq_ok.mp hrun
  obtain ⟨links, hlinks⟩ : ∃ links, links = ids.filterMap (fun a => s.world.server ⟨v, a⟩) :=
    ⟨_, rfl⟩
  rw [← hlinks] at hresolve hbuild
  -- Fetched, resolved and built without anything in between.
  obtain ⟨actions, hpolls⟩ := Buffer.run_take_alone (n := maxConcurrentDetailFetches) (by decide)
    (fetchChunk v ids) waiting s.world
  rw [show (⟨fetchChunk v ids :: waiting, []⟩ : Buffer World _) = s.fetches from hfetches.symm]
    at hpolls
  have hfetched : Reaches c detail s { s with fetches := ⟨waiting, [.ready (v, links)]⟩ } := by
    rw [hlinks]
    exact reaches_fetches hpolls
  obtain ⟨t, hbatch, hstage', hfetches', hgroups, hworld, hnodes⟩ : ∃ t,
      (c.enumeration detail).step { s with fetches := ⟨waiting, [.ready (v, links)]⟩ } .batch =
        some t ∧ t.stage = .resolving v links links (fun _ => none) ∧ t.fetches = .start waiting ∧
      t.groups = s.groups ∧ t.world = s.world ∧ t.nodes = s.nodes := by
    simp only [enumeration, enumerationStep, hstage, Buffer.pop]
    exact ⟨_, rfl, rfl, rfl, rfl, rfl, rfl⟩
  rw [← hworld] at hresolve
  obtain ⟨log, hresolved⟩ : ∃ log, Reaches c detail t
      { t with world := w1, stage := .resolving v links [] keys, resolved := log } :=
    reaches_of_resolveParentKeys hresolve hstage'
  have hbuilds := reaches_of_buildEach
    (s := { t with
      world := w1
      stage := .building (.start ((buildable links keys).map
        (fun p => c.buildInStream v detail p.1 p.2)))
      resolved := log
      used := t.used ++ (buildable links keys).map (fun p => (v, p.1.link, p.2)) }) hbuild rfl
  refine ⟨_, hfetched.trans (.head .batch hbatch (hresolved.trans (.head .resolve rfl hbuilds))),
    rfl, hgroups, hfetches', rfl, ?_⟩
  show t.nodes ++ nodes = s.nodes ++ nodes
  rw [hnodes]

/-- The chunks of a group one after the other are a run of the stream. -/
theorem reaches_of_chunks {chunks : List (List LinkId)} {nodes : List (List Node)}
    (hrun : (Program.traverse (c.enumerateBatch detail) (chunks.map (fun ids => (v, ids)))).run
      s.world = some (w, .ok nodes))
    (hstage : s.stage = .fetching) (hfetches : s.fetches = .start (chunks.map (fetchChunk v))) :
    ∃ t, Reaches c detail s t ∧ After s t [] w nodes.flatten := by
  induction chunks generalizing s nodes with
  | nil =>
      cases hrun
      exact ⟨s, .refl s, hstage, rfl, hfetches, rfl, (List.append_nil _).symm⟩
  | cons ids chunks ih =>
      rw [List.map_cons] at hrun hfetches
      obtain ⟨w1, first, rest, hfirst, hrest, rfl⟩ := Program.traverse_cons_eq_ok.mp hrun
      obtain ⟨t, ht, hafter⟩ := reaches_of_enumerateBatch hfirst hstage hfetches
      rw [← hafter.world] at hrest
      obtain ⟨u, hu, hlater⟩ := ih hrest hafter.stage hafter.fetches
      refine ⟨u, ht.trans hu, hlater.stage, hlater.groups.trans hafter.groups, hlater.fetches,
        hlater.world, ?_⟩
      rw [hlater.nodes, hafter.nodes, List.append_assoc, List.flatten_cons]

/-- The groups one after the other are a run of the stream. -/
theorem reaches_of_groups {groups : List (VolumeId × List LinkId)} {nodes : List (List Node)}
    (hrun : (Program.traverse (c.enumerateBatch detail) (groups.flatMap (fun group =>
      (chunks KeyWalk.maxBatchCount group.2).map (fun ids => (group.1, ids))))).run s.world =
        some (w, .ok nodes))
    (hstage : s.stage = .fetching) (hover : s.fetches.Over) (hgroups : s.groups = groups) :
    ∃ t, Reaches c detail s t ∧ t.Done ∧ t.world = w ∧ t.nodes = s.nodes ++ nodes.flatten := by
  induction groups generalizing s nodes with
  | nil =>
      cases hrun
      exact ⟨s, .refl s, ⟨hgroups, hover, hstage⟩, rfl, (List.append_nil _).symm⟩
  | cons group groups ih =>
      rw [List.flatMap_cons] at hrun
      obtain ⟨w1, first, rest, hfirst, hrest, rfl⟩ := Program.traverse_append_eq_ok hrun
      -- The step that takes the group, and then its chunks, which leave the buffer empty for the
      -- next.
      obtain ⟨t, hgroup, hstage', hfetches, hgroups', hworld, hnodes⟩ : ∃ t,
          (c.enumeration detail).step s .group = some t ∧ t.stage = .fetching ∧
          t.fetches = fetchGroup group ∧ t.groups = groups ∧ t.world = s.world ∧
          t.nodes = s.nodes := by
        simp only [enumeration, enumerationStep, hstage, hgroups, hover, if_true]
        exact ⟨_, rfl, rfl, rfl, rfl, rfl, rfl⟩
      rw [← hworld] at hfirst
      obtain ⟨u, hu, hafter⟩ := reaches_of_chunks hfirst hstage' hfetches
      rw [← hafter.world] at hrest
      have hover' : u.fetches.Over := by
        rw [hafter.fetches]
        exact Buffer.over_empty
      obtain ⟨x, hx, hdone, hworld', hnodes'⟩ :=
        ih hrest hafter.stage hover' (hafter.groups.trans hgroups')
      refine ⟨x, .head .group hgroup (hu.trans hx), hdone, hworld', ?_⟩
      rw [hnodes', hafter.nodes, hnodes, List.append_assoc, List.flatten_append]

/-- **One after the other** is one way to do it. -/
theorem reaches_of_enumerateNodesDetail {uids : List NodeUid} {w w' : World} {nodes : List Node}
    (hrun : (c.enumerateNodesDetail uids detail).run w = some (w', .ok nodes)) :
    ∃ t, Reaches c detail (.start w uids) t ∧ t.Done ∧ t.world = w' ∧ t.nodes = nodes := by
  obtain ⟨w1, lists, hlists, hlast⟩ := Program.bind_eq_ok.mp hrun
  cases hlast
  obtain ⟨t, ht, hdone, hworld, hnodes⟩ := reaches_of_groups
    (s := .start w uids) hlists rfl Buffer.over_empty rfl
  exact ⟨t, ht, hdone, hworld, hnodes⟩

end Sequential

/-! ## One by one -/

/-- What a load of the single node returns, if it returns one. -/
def loaded (c : Context) (w : World) (uid : NodeUid) : Option Node :=
  ((c.loadNode uid).run w).bind (fun outcome => outcome.2.toOption.join)

/-- A node that is loaded by itself is the one that the enumeration shows. -/
theorem loaded_eq_shown {c : Context} {server : NodeUid → Option LinkDetails} {w : World}
    (hw : c.Consistent server w) {uid : NodeUid} (hreturns : ((c.loadNode uid).run w).isSome = true) :
    c.loaded w uid = c.shown server .full uid := by
  obtain ⟨⟨w', r⟩, hrun⟩ := Option.isSome_iff_exists.mp hreturns
  have hiff := hw.loadNode hrun
  apply Option.ext
  intro node
  rw [shown_eq_some, ← hiff node]
  unfold loaded
  rw [hrun, Option.bind_some]
  cases r with
  | error e => simp [Except.toOption]
  | ok found => cases found <;> simp [Except.toOption]

/-- **Batches are loads.** Whatever the server says, if the caches agree with it: in every run of
`enumerate_nodes` each link is decrypted with a key that was resolved for a link with the same
`ParentKeyId`, and the run that is over has the nodes that loads of the single uids return, the
volumes in the order in which they first appear. If ways to a root end, the loads return, and every
run can be brought to its end. -/
theorem enumerateNodes_eq_loads (c : Context) (server : NodeUid → Option LinkDetails) (w : World)
    (hw : c.Consistent server w) (uids : List NodeUid) :
    (∀ actions t, (c.enumeration .full).exec (.start w uids) actions = some t →
      t.OwnKeys ∧
      (t.Done → (∀ uid ∈ uids, ((c.loadNode uid).run w).isSome = true) →
        t.nodes = (uids.map NodeUid.volumeId).eraseDups.flatMap (fun v =>
          (uids.filter (fun uid => uid.volumeId = v)).filterMap (c.loaded w)))) ∧
    ∀ depth, c.Grounded server depth →
      (∀ uid, ((c.loadNode uid).run w).isSome = true) ∧
      ∀ actions t, (c.enumeration .full).exec (.start w uids) actions = some t →
        ∃ more t', (c.enumeration .full).exec t more = some t' ∧ t'.Done := by
  constructor
  · intro actions t hrun
    refine ⟨ownKeys_of_run hrun, ?_⟩
    intro hdone hreturns
    -- What has come in the end is all that was to come at the start, volume by volume.
    rw [(comes_of_run hw hrun).done hdone, groupByVolume_eq, List.flatMap_map]
    congr 1
    funext v
    show ((uids.filter _).map NodeUid.linkId).filterMap _ = _
    rw [List.filterMap_map]
    apply List.filterMap_congr
    intro uid hmem
    obtain ⟨huids, hv⟩ := List.mem_filter.mp hmem
    obtain rfl : uid.volumeId = v := by simpa using hv
    exact (loaded_eq_shown hw (hreturns uid huids)).symm
  · intro depth hground
    refine ⟨?_, ?_⟩
    · intro uid
      obtain ⟨w', r, hrun⟩ := hw.loadNode_returns hground uid
      rw [hrun]
      rfl
    · -- Some fair continuation polls every future until it is ready.
      intro actions t hrun
      obtain ⟨t', ⟨more, hmore⟩, hdone⟩ := reaches_done hground (comes_of_run hw hrun)
      exact ⟨more, t', hmore, hdone⟩

/-- The file, its root, and the file again, by a client that has just been started. -/
theorem enumerateNodes_eq_loads_example :
    exampleContext.Consistent exampleServer (started exampleServer) ∧
      ∃ actions t, (exampleContext.enumeration .full).exec
          (.start (started exampleServer) [⟨0, 1⟩, ⟨0, 0⟩, ⟨0, 1⟩]) actions = some t ∧
        t.Done ∧ t.OwnKeys ∧ (t.nodes.map Node.uid) = [⟨0, 1⟩, ⟨0, 0⟩, ⟨0, 1⟩] := by
  have hw := exampleContext_rooted.started.consistent
  have hground := exampleContext_rooted.grounded
  obtain ⟨hruns, hends⟩ := enumerateNodes_eq_loads exampleContext exampleServer
    (started exampleServer) hw [⟨0, 1⟩, ⟨0, 0⟩, ⟨0, 1⟩]
  obtain ⟨hloads, hcomplete⟩ := hends _ hground
  obtain ⟨actions, t, hrun, hdone⟩ := hcomplete [] _ rfl
  obtain ⟨hkeys, hnodes⟩ := hruns actions t hrun
  refine ⟨hw, actions, t, hrun, hdone, hkeys, ?_⟩
  rw [hnodes hdone (fun uid _ => hloads uid)]
  decide

end Context

end ProtonDrive
