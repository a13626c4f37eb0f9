import ProtonDrive.Drive.SingleFlight

/-!
# Invalidation — an event against the loads in flight

`get_node` reads the entity cache and, on a miss, joins or starts a shared load; the load fetches
the link from the server, resolves keys and decrypts, and only then writes the entity cache. A
listing does the same for many nodes. `invalidate_caches_for_event` drops the entry of the node an
event names. What a fetch brought is identified with the node's version on the server at that
moment, so metadata is older than an event exactly when its version is smaller.

* `State.horizon` — the newest event of a node whose invalidation has returned. A call remembers
  the horizon it started behind.
* `Fresh` — no call returns metadata from before its horizon.
* `fresh_of_settled` — that holds in every run in which no invalidation overtakes older metadata
  that is still to be written to the cache or still to be had from a load. The code makes sure of
  neither.
-/

namespace ProtonDrive.Invalidation

open SingleFlight (LoadId Outcome Caller)

abbrev Version := Nat

/-- A `get_node` call. `since` is the horizon of its node when it started. -/
inductive Call (K : Type) where
  | idle
  | missed (u : K) (since : Version)
  | loading (u : K) (since : Version)
  | returned (u : K) (since : Version) (r : Outcome (Option Version))
  | dropped

structure State (ι K : Type) where
  /-- How often each node has changed on the server. -/
  server : K → Version
  horizon : K → Version
  /-- The entity cache: the version each entry was built from. -/
  entities : K → Option Version
  /-- `node_loads`. -/
  flight : SingleFlight.State ι K (Option Version)
  /-- What the fetch of a load brought. -/
  fetched : LoadId → Option Version
  /-- The load is past the cache write at the end of `build_node`. -/
  built : LoadId → Bool
  call : ι → Call K
  /-- Link details that listings have fetched and not yet built. -/
  listing : List (K × Version)

inductive Action (ι K : Type) where
  /-- A node changes on the server. -/
  | change (u : K)
  /-- `get_node` up to its look into the cache. -/
  | getNode (i : ι) (u : K)
  /-- `node_loads.run`, up to its await. -/
  | join (i : ι)
  /-- The load that `i` waits for gets its link details. -/
  | fetch (i : ι)
  /-- It builds the node; a link without a name hash is not cached. -/
  | build (i : ι) (cached : Bool)
  /-- It ends. -/
  | finish (i : ι) (r : Outcome (Option Version))
  | wake (i : ι)
  | clear (i : ι)
  | drop (i : ι)
  /-- A listing gets the link details of a chunk. -/
  | enumerate (us : List K)
  /-- It builds the `n`-th node that is waiting for it, and caches it. -/
  | store (n : Nat)
  /-- It gives that node up: undecryptable, not cached, or the listing was dropped. -/
  | skip (n : Nat)
  /-- `invalidate_caches_for_event` for the change that made version `k` of `u`. -/
  | invalidate (u : K) (k : Version)

section Runs

variable {ι K : Type} [DecidableEq ι] [DecidableEq K]

def State.setCall (s : State ι K) (i : ι) (c : Call K) : State ι K :=
  { s with call := Function.update s.call i c }

/-- A load that has nothing left to do, and what it may end with. -/
def State.MayEnd (s : State ι K) (l : LoadId) : Outcome (Option Version) → Prop
  | .ok (some v) => s.fetched l = some v ∧ s.built l = true
  | .ok none => s.fetched l = none
  | .error _ => True

instance (s : State ι K) (l : LoadId) : (r : Outcome (Option Version)) → Decidable (s.MayEnd l r)
  | .ok (some v) => inferInstanceAs (Decidable (s.fetched l = some v ∧ s.built l = true))
  | .ok none => inferInstanceAs (Decidable (s.fetched l = none))
  | .error _ => .isTrue trivial

def step (s : State ι K) : Action ι K → Option (State ι K)
  | .change u => some { s with server := Function.update s.server u (s.server u + 1) }
  | .getNode i u =>
      match s.call i, s.entities u with
      | .idle, some v => some (s.setCall i (.returned u (s.horizon u) (.ok (some v))))
      | .idle, none => some (s.setCall i (.missed u (s.horizon u)))
      | _, _ => none
  | .join i =>
      match s.call i with
      | .missed u since =>
          (SingleFlight.step s.flight (.run i u)).map
            (fun f => { s.setCall i (.loading u since) with flight := f })
      | _ => none
  | .fetch i =>
      match s.flight.caller i with
      | .waiting _ l =>
          match s.flight.loads l, s.fetched l with
          | some ⟨u, none⟩, none =>
              some { s with fetched := Function.update s.fetched l (some (s.server u)) }
          | _, _ => none
      | _ => none
  | .build i cached =>
      match s.flight.caller i with
      | .waiting _ l =>
          match s.flight.loads l, s.fetched l, s.built l with
          | some ⟨u, none⟩, some v, false =>
              some { s with
                built := Function.update s.built l true
                entities := if cached then Function.update s.entities u (some v) else s.entities }
          | _, _, _ => none
      | _ => none
  | .finish i r =>
      match s.flight.caller i with
      | .waiting _ l =>
          if s.MayEnd l r then
            (SingleFlight.step s.flight (.finish i r)).map (fun f => { s with flight := f })
          else none
      | _ => none
  | .wake i => (SingleFlight.step s.flight (.wake i)).map (fun f => { s with flight := f })
  | .clear i =>
      match s.call i, s.flight.caller i with
      | .loading u since, .clearing _ _ r =>
          (SingleFlight.step s.flight (.clear i)).map (fun f =>
            { s.setCall i (.returned u since (r.mapError SingleFlight.shareError)) with flight := f })
      | _, _ => none
  | .drop i =>
      match s.call i with
      | .missed _ _ => some (s.setCall i .dropped)
      | .loading _ _ =>
          (SingleFlight.step s.flight (.drop i)).map
            (fun f => { s.setCall i .dropped with flight := f })
      | _ => none
  | .enumerate us => some { s with listing := s.listing ++ us.map (fun u => (u, s.server u)) }
  | .store n =>
      match s.listing[n]? with
      | some (u, v) =>
          some { s with
            entities := Function.update s.entities u (some v)
            listing := s.listing.eraseIdx n }
      | none => none
  | .skip n =>
      if n < s.listing.length then some { s with listing := s.listing.eraseIdx n } else none
  | .invalidate u k =>
      if k ≤ s.server u then
        some { s with
          entities := Function.update s.entities u none
          horizon := Function.update s.horizon u (max (s.horizon u) k) }
      else none

/-- One client, its event consumer and the server, as a machine. -/
def client : Machine (State ι K) (Action ι K) := ⟨step⟩

def start : State ι K :=
  { server := fun _ => 0
    horizon := fun _ => 0
    entities := fun _ => none
    flight := SingleFlight.start
    fetched := fun _ => none
    built := fun _ => false
    call := fun _ => .idle
    listing := [] }

/-! ## What it is for -/

/-- No call returned metadata that was fetched before an event whose invalidation had returned when
the call started. -/
def Fresh (s : State ι K) : Prop :=
  ∀ i u since v, s.call i = .returned u since (.ok (some v)) → since ≤ v

/-! ## The condition -/

/-- The version a caller of load `l` may still be given. -/
def State.mayServe (s : State ι K) (l : LoadId) : Option Version :=
  match s.flight.loads l with
  | some ⟨_, none⟩ => s.fetched l
  | some ⟨_, some (.ok r)⟩ => r
  | _ => none

/-- What a load that `c` waits for may still write to the cache entry of `u`. -/
def State.mayWrite (s : State ι K) (u : K) : Caller K (Option Version) → Option Version
  | .waiting u' l =>
      if u' = u ∧ s.flight.finished l = false ∧ s.built l = false then s.fetched l else none
  | _ => none

/-- An invalidation overtakes no older metadata: none that a listing or a load has yet to write, and
none that the load in the node's slot has for those who join it. -/
def Settled (s : State ι K) : Action ι K → Prop
  | .invalidate u k =>
      (∀ p ∈ s.listing, p.1 = u → k ≤ p.2) ∧
      (∀ l ∈ s.flight.inflight u, ∀ v ∈ s.mayServe l, k ≤ v) ∧
      (∀ i, ∀ v ∈ s.mayWrite u (s.flight.caller i), k ≤ v)
  | _ => True

instance [Fintype ι] (s : State ι K) : (a : Action ι K) → Decidable (Settled s a)
  | .invalidate u k => inferInstanceAs (Decidable (
      (∀ p ∈ s.listing, p.1 = u → k ≤ p.2) ∧
      (∀ l ∈ s.flight.inflight u, ∀ v ∈ s.mayServe l, k ≤ v) ∧
      (∀ i, ∀ v ∈ s.mayWrite u (s.flight.caller i), k ≤ v)))
  | .change _ | .getNode _ _ | .join _ | .fetch _ | .build _ _ | .finish _ _ | .wake _ | .clear _
  | .drop _ | .enumerate _ | .store _ | .skip _ => .isTrue trivial

/-! ## The invariant -/

/-- Where call `i` stands, it is not going to return metadata from before its horizon. -/
def State.CallOk (s : State ι K) (i : ι) : Prop :=
  match s.call i with
  | .idle | .dropped => True
  | .missed u since => since ≤ s.horizon u
  | .loading u since => since ≤ s.horizon u ∧
      ∀ {u' l}, (s.flight.caller i).attached = some (u', l) →
        u' = u ∧ ∀ v, s.mayServe l = some v → since ≤ v
  | .returned _ since r => ∀ v, r = .ok (some v) → since ≤ v

structure Inv (s : State ι K) : Prop where
  keyed : SingleFlight.Keyed s.flight
  unfetched : ∀ l, s.flight.nextLoad ≤ l → s.fetched l = none
  /-- An event comes after the change it tells of. -/
  known : ∀ u, s.horizon u ≤ s.server u
  cached : ∀ {u v}, s.entities u = some v → s.horizon u ≤ v
  listed : ∀ {u v}, (u, v) ∈ s.listing → s.horizon u ≤ v
  /-- Whoever joins the load in a slot is not given older metadata. -/
  slot : ∀ {u l v}, s.flight.inflight u = some l → s.mayServe l = some v → s.horizon u ≤ v
  /-- No load writes older metadata. -/
  writes : ∀ {i u l v}, s.flight.caller i = .waiting u l → s.flight.loads l = some ⟨u, none⟩ →
    s.built l = false → s.fetched l = some v → s.horizon u ≤ v
  calls : ∀ i, s.CallOk i

omit [DecidableEq ι] [DecidableEq K] in
theorem inv_start : Inv (start : State ι K) := by
  refine ⟨SingleFlight.keyed_start, ?_, ?_, ?_, ?_, ?_, ?_, ?_⟩ <;>
    simp [start, SingleFlight.start, State.CallOk]

omit [DecidableEq ι] [DecidableEq K] in
/-- A call that a step leaves alone stays fine if the step only adds metadata that is new enough. -/
theorem State.CallOk.mono {s t : State ι K} {i : ι} (h : s.CallOk i) (hcall : t.call i = s.call i)
    (hhor : ∀ u, s.horizon u ≤ t.horizon u)
    (hatt : (t.flight.caller i).attached = (s.flight.caller i).attached)
    (hserve : ∀ {u l v}, (s.flight.caller i).attached = some (u, l) → t.mayServe l = some v →
      s.mayServe l = some v ∨ s.horizon u ≤ v) : t.CallOk i := by
  unfold State.CallOk at h ⊢
  rw [hcall]
  cases hc : s.call i with
  | idle => trivial
  | dropped => trivial
  | missed u since =>
      rw [hc] at h
      exact Nat.le_trans h (hhor u)
  | returned u since r =>
      rw [hc] at h
      exact h
  -- A caller that loads may be served only what is not older than its start.
  | loading u since =>
      rw [hc] at h
      refine ⟨Nat.le_trans h.1 (hhor u), ?_⟩
      intro u' l hatt'
      rw [hatt] at hatt'
      obtain ⟨rfl, hold⟩ := h.2 hatt'
      refine ⟨rfl, ?_⟩
      intro v hv
      rcases hserve hatt' hv with hv | hv
      · exact hold v hv
      · exact Nat.le_trans h.1 hv

/-! ## The steps of the server, the events and the listings -/

omit [DecidableEq ι] in
theorem inv_change {s : State ι K} (hs : Inv s) (u : K) :
    Inv { s with server := Function.update s.server u (s.server u + 1) } := by
  obtain ⟨h1, h2, h3, h4, h5, h6, h7, h8⟩ := hs
  refine ⟨h1, h2, ?_, h4, h5, h6, h7, h8⟩
  intro u'
  have hold := h3 u'
  simp only [Function.update_apply]
  split
  · next hu => subst hu; exact Nat.le_succ_of_le hold
  · exact hold

omit [DecidableEq ι] in
theorem inv_invalidate {s : State ι K} (hs : Inv s) {u : K} {k : Version}
    (hset : Settled s (.invalidate u k)) (hk : k ≤ s.server u) :
    Inv { s with
      entities := Function.update s.entities u none
      horizon := Function.update s.horizon u (max (s.horizon u) k) } := by
  obtain ⟨hlist, hslot, hwrite⟩ := hset
  -- The new horizon of a node is its old one, or for `u` the event's version.
  have hmax : ∀ {u' : K} {v : Version}, s.horizon u' ≤ v → (u' = u → k ≤ v) →
      Function.update s.horizon u (max (s.horizon u) k) u' ≤ v := by
    intro u' v hold hnew
    rw [Function.update_apply]
    split
    · next hu =>
      subst hu
      exact Nat.max_le.mpr ⟨hold, hnew rfl⟩
    · exact hold
  have hgrow : ∀ u', s.horizon u' ≤ Function.update s.horizon u (max (s.horizon u) k) u' := by
    intro u'
    rw [Function.update_apply]
    split
    · next hu => subst hu; exact Nat.le_max_left _ _
    · exact Nat.le_refl _
  refine ⟨hs.keyed, hs.unfetched, ?_, ?_, ?_, ?_, ?_, ?_⟩
  · intro u'
    exact hmax (hs.known u') (fun hu => hu ▸ hk)
  · intro u' v (hv : Function.update s.entities u none u' = some v)
    rw [Function.update_apply] at hv
    split at hv
    · cases hv
    · next hu => exact hmax (hs.cached hv) (fun h => absurd h hu)
  · intro u' v hv
    exact hmax (hs.listed hv) (hlist (u', v) hv)
  · intro u' l v hin hserve
    apply hmax (hs.slot hin hserve)
    rintro rfl
    exact hslot l hin v hserve
  · intro i u' l v hi hl hb hf
    apply hmax (hs.writes hi hl hb hf)
    rintro rfl
    have hfin : s.flight.finished l = false := by
      rw [SingleFlight.State.finished, show s.flight.loads l = some ⟨u', none⟩ from hl]
      rfl
    have hw : s.mayWrite u' (s.flight.caller i) = some v := by
      rw [show s.flight.caller i = .waiting u' l from hi]
      simp [State.mayWrite, hfin, show s.built l = false from hb, show s.fetched l = some v from hf]
    exact hwrite i v hw
  · intro i
    exact (hs.calls i).mono rfl hgrow rfl (fun _ hv => .inl hv)

omit [DecidableEq ι] [DecidableEq K] in
theorem inv_enumerate {s : State ι K} (hs : Inv s) (us : List K) :
    Inv { s with listing := s.listing ++ us.map (fun u => (u, s.server u)) } := by
  obtain ⟨h1, h2, h3, h4, h5, h6, h7, h8⟩ := hs
  refine ⟨h1, h2, h3, h4, ?_, h6, h7, h8⟩
  intro u v hv
  rcases List.mem_append.mp hv with hv | hv
  · exact h5 hv
  · obtain ⟨u', -, heq⟩ := List.mem_map.mp hv
    cases heq
    exact h3 u

omit [DecidableEq ι] [DecidableEq K] in
theorem inv_skip {s : State ι K} (hs : Inv s) (n : Nat) :
    Inv { s with listing := s.listing.eraseIdx n } := by
  obtain ⟨h1, h2, h3, h4, h5, h6, h7, h8⟩ := hs
  exact ⟨h1, h2, h3, h4, fun hv => h5 (List.mem_of_mem_eraseIdx hv), h6, h7, h8⟩

omit [DecidableEq ι] in
theorem inv_cache {s : State ι K} (hs : Inv s) {u : K} {v : Version} (hv : s.horizon u ≤ v) :
    Inv { s with entities := Function.update s.entities u (some v) } := by
  obtain ⟨h1, h2, h3, h4, h5, h6, h7, h8⟩ := hs
  refine ⟨h1, h2, h3, ?_, h5, h6, h7, h8⟩
  intro u' v' h
  simp only [Function.update_apply] at h
  split at h
  · next hu =>
    subst hu
    cases h
    exact hv
  · exact h4 h

/-! ## The steps of the loads -/

omit [DecidableEq ι] [DecidableEq K] in
/-- A load that fetches now gets what the server has now. -/
theorem inv_fetch {s : State ι K} (hs : Inv s) {u : K} {l : LoadId}
    (hl : s.flight.loads l = some ⟨u, none⟩) :
    Inv { s with fetched := Function.update s.fetched l (some (s.server u)) } := by
  have hnew : s.horizon u ≤ s.server u := hs.known u
  obtain ⟨h1, h2, h3, h4, h5, h6, h7, h8⟩ := hs
  obtain ⟨k1, k2, k3, k4⟩ := h1
  refine ⟨⟨k1, k2, k3, k4⟩, ?_, h3, h4, h5, ?_, ?_, ?_⟩
  · simp only [Function.update_apply]
    grind
  · simp only [State.mayServe, Function.update_apply] at *
    grind
  · simp only [Function.update_apply]
    grind
  · intro i
    refine (h8 i).mono rfl (fun _ => Nat.le_refl _) rfl ?_
    intro u' l' v hatt hv
    have hkey := k3 hatt
    simp only [State.mayServe, Function.update_apply] at hv ⊢
    grind

omit [DecidableEq ι] in
/-- What a load writes to the cache is what it fetched. -/
theorem inv_build {s : State ι K} (hs : Inv s) {i : ι} {u u' : K} {l : LoadId} {v : Version}
    (cached : Bool) (hi : s.flight.caller i = .waiting u' l)
    (hl : s.flight.loads l = some ⟨u, none⟩) (hb : s.built l = false)
    (hv : s.fetched l = some v) :
    Inv { s with
      built := Function.update s.built l true
      entities := if cached then Function.update s.entities u (some v) else s.entities } := by
  have hatt : (s.flight.caller i).attached = some (u', l) := by rw [hi]; rfl
  have hkey : (s.flight.loads l).map SingleFlight.Load.key = some u' := hs.keyed.attachedKey hatt
  obtain rfl : u = u' := by
    rw [hl] at hkey
    exact Option.some.inj hkey
  -- Only the caller that waits writes, and what it writes is new enough.
  have hcache : Inv { s with
      entities := if cached then Function.update s.entities u (some v) else s.entities } := by
    cases cached
    · exact hs
    · exact inv_cache hs (hs.writes hi hl hb hv)
  obtain ⟨h1, h2, h3, h4, h5, h6, h7, h8⟩ := hcache
  refine ⟨h1, h2, h3, h4, h5, h6, ?_, h8⟩
  intro j u'' l' v' hj hl' hb' hf'
  simp only [Function.update_apply] at hb'
  split at hb'
  · cases hb'
  · exact h7 hj hl' hb' hf'

omit [DecidableEq K] in
/-- The single flight moves on. It may empty slots and end loads, and a caller may join the load in
a slot or a load that has fetched nothing; calls other than `i` are left alone. -/
theorem inv_flight {s t : State ι K} (hs : Inv s)
    (hserver : t.server = s.server) (hhor : t.horizon = s.horizon)
    (hent : t.entities = s.entities) (hfetched : t.fetched = s.fetched) (hbuilt : t.built = s.built)
    (hlisting : t.listing = s.listing) (hkeyed : SingleFlight.Keyed t.flight)
    (hnext : s.flight.nextLoad ≤ t.flight.nextLoad)
    (hserve : ∀ {l v}, t.mayServe l = some v → s.mayServe l = some v)
    (hslot : ∀ {u l v}, t.flight.inflight u = some l → t.mayServe l = some v →
      s.flight.inflight u = some l)
    (hwait : ∀ {i u l v}, t.flight.caller i = .waiting u l → t.flight.loads l = some ⟨u, none⟩ →
      s.fetched l = some v →
        s.flight.inflight u = some l ∨
          (s.flight.caller i = .waiting u l ∧ s.flight.loads l = some ⟨u, none⟩))
    {i : ι} (hcalls : ∀ j, j ≠ i → t.call j = s.call j ∧
      (t.flight.caller j).attached = (s.flight.caller j).attached)
    (hi : t.CallOk i) : Inv t := by
  refine ⟨hkeyed, ?_, ?_, ?_, ?_, ?_, ?_, ?_⟩
  · intro l hl
    rw [hfetched]
    exact hs.unfetched l (Nat.le_trans hnext hl)
  · rw [hserver, hhor]
    exact hs.known
  · rw [hent, hhor]
    exact hs.cached
  · rw [hlisting, hhor]
    exact hs.listed
  · intro u l v hin hv
    rw [hhor]
    exact hs.slot (hslot hin hv) (hserve hv)
  · intro j u l v hj hl hb hf
    have hv : t.mayServe l = some v := by
      rw [State.mayServe, hl]
      exact hf
    rw [hfetched] at hf
    rw [hbuilt] at hb
    rw [hhor]
    -- A caller that did not wait before has joined the load of the slot.
    rcases hwait hj hl hf with hin | ⟨hj', hl'⟩
    · exact hs.slot hin (hserve hv)
    · exact hs.writes hj' hl' hb hf
  · intro j
    by_cases hji : j = i
    · subst hji
      exact hi
    · obtain ⟨hcall, hatt⟩ := hcalls j hji
      refine (hs.calls j).mono hcall (fun u => by rw [hhor]) hatt ?_
      intro _ _ _ _ hv
      exact .inl (hserve hv)

/-- Joining the load in the slot is joining one whose metadata is new enough; a load that is started
has none yet. -/
theorem inv_join {s : State ι K} (hs : Inv s) {i : ι} {u : K} {since : Version}
    (hi : s.call i = .missed u since)
    (hkeyed : SingleFlight.Keyed (s.flight.enter i u)) :
    Inv { s.setCall i (.loading u since) with flight := s.flight.enter i u } := by
  have hsince : since ≤ s.horizon u := by
    have hok := hs.calls i
    unfold State.CallOk at hok
    rw [hi] at hok
    exact hok
  unfold SingleFlight.State.enter at hkeyed ⊢
  split at hkeyed
  · next l hl =>
    refine inv_flight hs rfl rfl rfl rfl rfl rfl hkeyed (Nat.le_refl _) ?_ ?_ ?_ (i := i) ?_ ?_
    · exact fun hv => hv
    · exact fun hin _ => hin
    · intro j u' l' v hj hl' hv
      simp only [SingleFlight.State.setCaller, Function.update_apply] at hj hl'
      grind
    · intro j hj
      simp only [State.setCall, SingleFlight.State.setCaller, Function.update_of_ne hj]
      exact ⟨trivial, trivial⟩
    · simp only [State.CallOk, State.setCall, SingleFlight.State.setCaller, Function.update_self]
      refine ⟨hsince, ?_⟩
      intro u' l' hatt
      cases hatt
      exact ⟨rfl, fun v hv => Nat.le_trans hsince (hs.slot hl hv)⟩
  · next hnone =>
    -- The slot was empty: the new load has fetched nothing that it could serve.
    have hunf : s.fetched s.flight.nextLoad = none := hs.unfetched _ (Nat.le_refl _)
    have hsame : ∀ {l v}, State.mayServe { s.setCall i (.loading u since) with
        flight := {
          inflight := Function.update s.flight.inflight u (some s.flight.nextLoad)
          loads := Function.update s.flight.loads s.flight.nextLoad (some ⟨u, none⟩)
          nextLoad := s.flight.nextLoad + 1
          caller := Function.update s.flight.caller i (.waiting u s.flight.nextLoad) } } l = some v →
        l ≠ s.flight.nextLoad ∧ s.mayServe l = some v := by
      intro l v hv
      by_cases hl : l = s.flight.nextLoad
      · subst hl
        simp only [State.mayServe, State.setCall, Function.update_self, hunf] at hv
        cases hv
      · refine ⟨hl, ?_⟩
        simp only [State.mayServe, State.setCall, Function.update_of_ne hl] at hv
        exact hv
    refine inv_flight hs rfl rfl rfl rfl rfl rfl hkeyed (Nat.le_succ _) ?_ ?_ ?_ (i := i) ?_ ?_
    · exact fun hv => (hsame hv).2
    · intro u' l' v hin hv
      have hne := (hsame hv).1
      simp only [Function.update_apply] at hin
      grind
    · intro j u' l' v hj hl' hv
      simp only [Function.update_apply] at hj hl'
      grind
    · intro j hj
      simp only [State.setCall, Function.update_of_ne hj]
      exact ⟨trivial, trivial⟩
    · simp only [State.CallOk, State.setCall, Function.update_self]
      refine ⟨hsince, ?_⟩
      intro u' l' hatt
      cases hatt
      exact ⟨rfl, fun v hv => absurd rfl (hsame hv).1⟩

omit [DecidableEq K] in
theorem inv_finish {s : State ι K} (hs : Inv s) {i : ι} {u u' : K} {l : LoadId}
    {r : Outcome (Option Version)} (hi : s.flight.caller i = .waiting u' l)
    (hl : s.flight.loads l = some ⟨u, none⟩) (hend : s.MayEnd l r)
    (hkeyed : SingleFlight.Keyed
      { s.flight with loads := Function.update s.flight.loads l (some ⟨u, some r⟩) }) :
    Inv { s with
      flight := { s.flight with
        loads := Function.update s.flight.loads l (some ⟨u, some r⟩) } } := by
  have hsame : ∀ {l' v}, State.mayServe { s with
      flight := { s.flight with
        loads := Function.update s.flight.loads l (some ⟨u, some r⟩) } } l' = some v →
      s.mayServe l' = some v := by
    intro l' v hv
    by_cases hl' : l' = l
    · subst hl'
      simp only [State.mayServe, Function.update_self] at hv
      rw [State.mayServe, hl]
      cases r with
      | error e => cases hv
      | ok r' =>
          have hr : r' = some v := hv
          subst hr
          exact hend.1
    · simp only [State.mayServe, Function.update_of_ne hl'] at hv
      exact hv
  -- A load that ends serves what it had fetched, or nothing.
  refine inv_flight hs rfl rfl rfl rfl rfl rfl hkeyed (Nat.le_refl _) hsame ?_ ?_ (i := i) ?_ ?_
  · exact fun hin _ => hin
  · intro j u'' l' v hj hl' hv
    simp only [Function.update_apply] at hl'
    grind
  · exact fun j _ => ⟨rfl, rfl⟩
  · exact (hs.calls i).mono rfl (fun _ => Nat.le_refl _) rfl (fun _ hv => .inl (hsame hv))

omit [DecidableEq K] in
/-- A caller that is woken, or empties its slot, or is dropped, leaves every load as it is. -/
theorem inv_leave {s : State ι K} (hs : Inv s) {f : SingleFlight.State ι K (Option Version)}
    {call : ι → Call K} (hkeyed : SingleFlight.Keyed f) (hloads : f.loads = s.flight.loads)
    (hnext : f.nextLoad = s.flight.nextLoad)
    (hslot : ∀ {u l}, f.inflight u = some l → s.flight.inflight u = some l) {i : ι}
    (hwait : ∀ u l, f.caller i ≠ .waiting u l)
    (hother : ∀ j, j ≠ i → call j = s.call j ∧ f.caller j = s.flight.caller j)
    (hi : State.CallOk { s with flight := f, call := call } i) :
    Inv { s with flight := f, call := call } := by
  refine inv_flight hs rfl rfl rfl rfl rfl rfl hkeyed (Nat.le_of_eq hnext.symm) ?_ ?_ ?_ (i := i) ?_ hi
  · intro l v hv
    simp only [State.mayServe, hloads] at hv
    exact hv
  · exact fun hin _ => hslot hin
  · -- Only the caller that leaves has changed, and it does not wait any more.
    intro j u l v hj hl _
    have hji : j ≠ i := fun h => hwait u l (h ▸ hj)
    rw [(hother j hji).2] at hj
    rw [hloads] at hl
    exact .inr ⟨hj, hl⟩
  · intro j hj
    obtain ⟨hcall, hcaller⟩ := hother j hj
    exact ⟨hcall, by rw [hcaller]⟩

omit [DecidableEq K] in
/-- A call moves on without touching the loads. -/
theorem inv_setCall {s : State ι K} (hs : Inv s) {i : ι} {c : Call K}
    (hi : (s.setCall i c).CallOk i) : Inv (s.setCall i c) := by
  obtain ⟨h1, h2, h3, h4, h5, h6, h7, h8⟩ := hs
  refine ⟨h1, h2, h3, h4, h5, h6, h7, ?_⟩
  intro j
  by_cases hji : j = i
  · subst hji
    exact hi
  · refine (h8 j).mono (Function.update_of_ne hji ..) (fun _ => Nat.le_refl _) rfl ?_
    exact fun _ hv => .inl hv

/-- The result a caller takes out of a load is one the load had for it. -/
theorem inv_clear {s : State ι K} (hs : Inv s) {i : ι} {u u' : K} {l : LoadId} {since : Version}
    {r : Outcome (Option Version)} (hcall : s.call i = .loading u since)
    (hi : s.flight.caller i = .clearing u' l r) {f : SingleFlight.State ι K (Option Version)}
    (hf : SingleFlight.step s.flight (.clear i) = some f) :
    Inv { s.setCall i (.returned u since (r.mapError SingleFlight.shareError)) with
      flight := f } := by
  have hkeyed := SingleFlight.step_keyed hs.keyed hf
  have hdone : s.flight.loads l = some ⟨u', some r⟩ := hs.keyed.clearingDone hi
  obtain ⟨key, l', o, hi', rfl⟩ := SingleFlight.step_clear hf
  refine inv_leave hs hkeyed rfl rfl ?_ (i := i) ?_ ?_ ?_
  · -- The slot of the load is emptied, and no other.
    intro u'' l'' hin
    simp only [Function.update_apply] at hin
    split at hin
    · cases hin
    · exact hin
  · simp only [Function.update_self]
    exact fun _ _ => by simp
  · intro j hj
    exact ⟨Function.update_of_ne hj .., Function.update_of_ne hj ..⟩
  · -- What it returns is what its load brought, which was fresh enough for it.
    simp only [State.CallOk, State.setCall, Function.update_self]
    intro v hv
    have hok := hs.calls i
    unfold State.CallOk at hok
    rw [hcall] at hok
    have hatt : (s.flight.caller i).attached = some (u', l) := by rw [hi]; rfl
    have hr : r = .ok (some v) := by
      cases r with
      | error e => cases hv
      | ok r' => cases hv; rfl
    apply (hok.2 hatt).2 v
    rw [State.mayServe, hdone, hr]

theorem inv_wake {s : State ι K} (hs : Inv s) {i : ι}
    {f : SingleFlight.State ι K (Option Version)}
    (hf : SingleFlight.step s.flight (.wake i) = some f) : Inv { s with flight := f } := by
  have hkeyed := SingleFlight.step_keyed hs.keyed hf
  obtain ⟨key, key', l, o, hi, hl, rfl⟩ := SingleFlight.step_wake hf
  refine inv_leave hs hkeyed rfl rfl (fun hin => hin) (i := i) ?_ ?_ ?_
  · simp only [SingleFlight.State.setCaller, Function.update_self]
    exact fun _ _ => by simp
  · intro j hj
    exact ⟨rfl, Function.update_of_ne hj ..⟩
  · refine (hs.calls i).mono rfl (fun _ => Nat.le_refl _) ?_ (fun _ hv => .inl hv)
    simp only [SingleFlight.State.setCaller, Function.update_self, hi]
    rfl

theorem inv_drop {s : State ι K} (hs : Inv s) {i : ι}
    {f : SingleFlight.State ι K (Option Version)}
    (hf : SingleFlight.step s.flight (.drop i) = some f) :
    Inv { s.setCall i .dropped with flight := f } := by
  have hkeyed := SingleFlight.step_keyed hs.keyed hf
  obtain ⟨key, l, hi, rfl⟩ := SingleFlight.step_drop hf
  refine inv_leave hs hkeyed rfl rfl (fun hin => hin) (i := i) ?_ ?_ ?_
  · simp only [SingleFlight.State.setCaller, Function.update_self]
    exact fun _ _ => by simp
  · intro j hj
    exact ⟨Function.update_of_ne hj .., Function.update_of_ne hj ..⟩
  · simp only [State.CallOk, State.setCall, Function.update_self]

/-! ## Every run -/

/-- Every action keeps the invariant: those on the slots by what the slots do, an invalidation because
it does not overtake anything. -/
theorem step_inv {s t : State ι K} {a : Action ι K} (hset : Settled s a) (hs : Inv s)
    (h : step s a = some t) : Inv t := by
  cases a with
  | change u =>
      cases h
      exact inv_change hs u
  | getNode i u =>
      simp only [step] at h
      split at h
      · next v _ hv =>
        -- A hit: what the cache holds is as new as what the call may return.
        cases h
        apply inv_setCall hs
        simp only [State.CallOk, State.setCall, Function.update_self]
        intro v' hv'
        cases hv'
        exact hs.cached hv
      · -- A miss: the call goes to the slot, and may return whatever is read from now on.
        cases h
        apply inv_setCall hs
        simp only [State.CallOk, State.setCall, Function.update_self]
        exact Nat.le_refl _
      · cases h
  | join i =>
      simp only [step] at h
      split at h
      · next hi =>
        obtain ⟨f, hf, rfl⟩ := Option.map_eq_some_iff.mp h
        have hkeyed := SingleFlight.step_keyed hs.keyed hf
        obtain ⟨-, rfl⟩ := SingleFlight.step_run hf
        exact inv_join hs hi hkeyed
      · cases h
  | fetch i =>
      simp only [step] at h
      split at h
      · split at h
        · next hl _ => cases h; exact inv_fetch hs hl
        · cases h
      · cases h
  | build i cached =>
      simp only [step] at h
      split at h
      · next hi =>
        split at h
        · next hl hv hb => cases h; exact inv_build hs cached hi hl hb hv
        · cases h
      · cases h
  | finish i r =>
      simp only [step] at h
      split at h
      · next u l hi =>
        split at h
        · next hend =>
          obtain ⟨f, hf, rfl⟩ := Option.map_eq_some_iff.mp h
          have hkeyed := SingleFlight.step_keyed hs.keyed hf
          -- Only the leader of the slot finishes it, and it is the one that has fetched.
          obtain ⟨key, key', l', hi', hl, rfl⟩ := SingleFlight.step_finish hf
          rw [hi] at hi'
          cases hi'
          exact inv_finish hs hi hl hend hkeyed
        · cases h
      · cases h
  | wake i =>
      obtain ⟨f, hf, rfl⟩ := Option.map_eq_some_iff.mp h
      exact inv_wake hs hf
  | clear i =>
      simp only [step] at h
      split at h
      · next hcall hi =>
        obtain ⟨f, hf, rfl⟩ := Option.map_eq_some_iff.mp h
        exact inv_clear hs hcall hi hf
      · cases h
  | drop i =>
      simp only [step] at h
      split at h
      · cases h
        apply inv_setCall hs
        simp only [State.CallOk, State.setCall, Function.update_self]
      · obtain ⟨f, hf, rfl⟩ := Option.map_eq_some_iff.mp h
        exact inv_drop hs hf
      · cases h
  | enumerate us =>
      cases h
      exact inv_enumerate hs us
  | store n =>
      simp only [step] at h
      split at h
      · next u v hn =>
        cases h
        -- What the listing brought is cached like what a load brings.
        have hmem : (u, v) ∈ s.listing := List.mem_of_getElem? hn
        exact inv_skip (inv_cache hs (hs.listed hmem)) n
      · cases h
  | skip n =>
      simp only [step] at h
      split at h
      · cases h; exact inv_skip hs n
      · cases h
  | invalidate u k =>
      simp only [step] at h
      split at h
      · -- The one action that the schedule has to admit: nothing older is still to be written.
        next hk =>
        cases h
        exact inv_invalidate hs hset hk
      · cases h

omit [DecidableEq ι] [DecidableEq K] in
theorem Inv.fresh {s : State ι K} (hs : Inv s) : Fresh s := by
  intro i u since v hi
  have hok := hs.calls i
  unfold State.CallOk at hok
  rw [hi] at hok
  exact hok v rfl

/-- **Invalidation beats loads in flight**, in every run in which no invalidation overtakes older
metadata that a load or a listing has yet to write, or that its slot still hands out. -/
theorem fresh_of_settled {as : List (Action ι K)} {s : State ι K}
    (hset : client.Along Settled start as) (hs : client.exec start as = some s) : Fresh s := by
  have hinv : Inv s := client.exec_invariant_along Inv
    (fun hok hinv hst => step_inv hok hinv hst) hset inv_start hs
  exact hinv.fresh

end Runs

/-! ## What the code allows

Three ways in which an invalidation is overtaken: by the write of a load, by the load in the slot,
and by the write of a listing. The node is `()`, and changes once. -/

def overtakenByWrite : List (Action (Fin 2) Unit) :=
  [.getNode 0 (), .join 0, .fetch 0, .change (), .invalidate () 1, .build 0 true, .getNode 1 ()]

def overtakenInSlot : List (Action (Fin 2) Unit) :=
  [.getNode 0 (), .join 0, .fetch 0, .build 0 true, .change (), .invalidate () 1, .getNode 1 (),
    .join 1, .finish 0 (.ok (some 0)), .wake 1, .clear 1]

def overtakenByListing : List (Action (Fin 2) Unit) :=
  [.enumerate [()], .change (), .invalidate () 1, .store 0, .getNode 1 ()]

theorem not_fresh :
    (∃ s, client.exec start overtakenByWrite = some s ∧ ¬ Fresh s) ∧
      (∃ s, client.exec start overtakenInSlot = some s ∧ ¬ Fresh s) ∧
      ∃ s, client.exec start overtakenByListing = some s ∧ ¬ Fresh s := by
  have hold : ∀ s : State (Fin 2) Unit, s.call 1 = .returned () 1 (.ok (some 0)) → ¬ Fresh s := by
    intro s hs h
    exact absurd (h 1 () 1 0 hs) (by decide)
  refine ⟨?_, ?_, ?_⟩
  · exact ⟨_, rfl, hold _ rfl⟩
  · exact ⟨_, rfl, hold _ rfl⟩
  · exact ⟨_, rfl, hold _ rfl⟩

/-- The load is over when the event comes, and the next call fetches anew. -/
def settledRun : List (Action (Fin 2) Unit) :=
  [.getNode 0 (), .join 0, .fetch 0, .build 0 true, .finish 0 (.ok (some 0)), .wake 0, .clear 0,
    .change (), .invalidate () 1, .getNode 1 (), .join 1, .fetch 1, .build 1 true,
    .finish 1 (.ok (some 1)), .wake 1, .clear 1]

theorem fresh_of_settled_run :
    ∃ s, client.exec start settledRun = some s ∧ s.call 1 = .returned () 1 (.ok (some 1)) ∧
      Fresh s := by
  have hset : client.Along Settled start settledRun := by decide
  exact ⟨_, rfl, rfl, fresh_of_settled hset rfl⟩

end ProtonDrive.Invalidation
