import Mathlib.Data.Finset.Card
import ProtonDrive.Drive.KeyWalkEnds
import ProtonDrive.Drive.Requests

/-!
# The chain above a node

`get_node_hierarchy` goes up from a node by the parents that `get_node` reports, and keeps the nodes
it has visited, so that it does not go round in circles. The check is made between calls of
`get_node`, which may have to walk up to the root itself, to unlock the key above its node.

* `Comes` — where the walk comes to, and in which state of the client.
* `endsWell_iff` — `get_node_hierarchy` returns, and with an error if it runs into a cycle, exactly
  if the key walks that it starts on the way end.
-/

namespace ProtonDrive

open OpenPgp Pursuit

theorem KeyWalk.resolveParentKeyWalk_mono {env : KeyWalk.Env} {link : Link} {fuel more : Nat}
    {r : KeyWalk.Outcome} (hle : fuel ≤ more) (h : env.resolveParentKeyWalk fuel link = some r) :
    env.resolveParentKeyWalk more link = some r := by
  unfold KeyWalk.Env.resolveParentKeyWalk at h ⊢
  cases hp : link.parentId with
  | none =>
      rw [hp] at h
      exact h
  | some p =>
      rw [hp] at h
      obtain ⟨found, hfound, rfl⟩ := Option.map_eq_some_iff.mp h
      dsimp only
      rw [KeyWalk.climb_mono hle hfound]
      rfl

namespace Context

/-- The same client, with another amount of fuel. -/
def withFuel (c : Context) (fuel : Nat) : Context := { c with fuel := fuel }

/-! ## Single nodes -/

section Single

variable {c : Context} {w : World} {uid : NodeUid} {fuel more : Nat}

theorem resolveParentKey_below (hle : fuel ≤ more) (v : VolumeId) (link : Link) :
    Program.Below ((c.withFuel fuel).resolveParentKey v link)
      ((c.withFuel more).resolveParentKey v link) := by
  intro w r h
  unfold resolveParentKey at h ⊢
  dsimp only at h ⊢
  split at h
  · exact h
  · obtain ⟨outcome, houtcome, hr⟩ := Option.map_eq_some_iff.mp h
    exact Option.map_eq_some_iff.mpr
      ⟨outcome, KeyWalk.resolveParentKeyWalk_mono hle houtcome, hr⟩

theorem loadNode_below (hle : fuel ≤ more) (uid : NodeUid) :
    Program.Below ((c.withFuel fuel).loadNode uid) ((c.withFuel more).loadNode uid) := by
  unfold loadNode
  apply Program.Below.bind (.refl _)
  intro links
  cases links.head? with
  | none => exact .refl _
  | some details =>
      apply Program.Below.bind (resolveParentKey_below hle uid.volumeId details.link)
      intro key
      exact .refl _

theorem getNode_below (hle : fuel ≤ more) (uid : NodeUid) :
    Program.Below ((c.withFuel fuel).getNode uid) ((c.withFuel more).getNode uid) := by
  unfold getNode
  apply Program.Below.bind (.refl _)
  intro entry
  cases entry with
  | some info => exact .refl _
  | none => exact loadNode_below hle uid

/-- The key above a link is found, or not, if there is no walk to make or the walk ends. -/
theorem resolveParentKey_returns_iff {v : VolumeId} {link : Link} :
    (∃ fuel r, ((c.withFuel fuel).resolveParentKey v link).run w = some r) ↔
      ∀ p, link.parentId = some p → Ends (w.walkEnv c v).nextHead p := by
  unfold resolveParentKey
  dsimp only
  cases hkey : link.parentId.bind (fun p => w.folderKeys ⟨v, p⟩) with
  -- The key of the parent is cached, so there is no walk.
  | some key =>
      obtain ⟨p, hp, hcached⟩ := Option.bind_eq_some_iff.mp hkey
      constructor
      · rintro - q hq
        rw [hp] at hq
        cases hq
        have hknown : (w.walkEnv c v).folderKeys p = some key := hcached
        exact .of_none (KeyWalk.Env.nextHead_of_known hknown)
      · exact fun _ => ⟨0, _, rfl⟩
  | none =>
      -- Otherwise it is the walk that returns or not.
      rw [← KeyWalk.returns_iff]
      constructor
      · rintro ⟨fuel, r, h⟩
        obtain ⟨outcome, houtcome, -⟩ := Option.map_eq_some_iff.mp h
        exact ⟨outcome, fuel, houtcome⟩
      · rintro ⟨outcome, fuel, houtcome⟩
        exact ⟨fuel, _, Option.map_eq_some_iff.mpr ⟨outcome, houtcome, rfl⟩⟩

/-- What `get_node` does, as far as its walk. -/
theorem getNode_run (c : Context) (w : World) (uid : NodeUid) :
    (c.getNode uid).run w =
      match w.entities uid, w.server uid with
      | some info, _ => some (w, .ok (some info.node))
      | none, none => some (w, .ok none)
      | none, some details =>
          ((c.resolveParentKey uid.volumeId details.link >>= fun key =>
            c.buildNode uid.volumeId details key .full >>= fun node =>
              pure (some node)) : Call (Option Node)).run w := by
  unfold getNode
  rw [Program.read_bind]
  cases w.entities uid with
  | some info => rfl
  | none =>
      dsimp only
      unfold loadNode getLinkDetails
      rw [Program.read_bind]
      -- A request for one link is answered with that link or with none.
      cases hd : w.server ⟨uid.volumeId, uid.linkId⟩ with
      | none =>
          simp only [hd, List.filterMap_cons, List.filterMap_nil, List.head?_nil]
          rfl
      | some details =>
          simp only [hd, List.filterMap_cons, List.filterMap_nil, List.head?_cons]

/-- The walk to the key above `uid` that `get_node` starts, if it starts one, does not come back. -/
def KeyFound (c : Context) (w : World) (uid : NodeUid) : Prop :=
  w.entities uid = none → ∀ details p, w.server uid = some details →
    details.link.parentId = some p → ¬ ComesBack (w.walkEnv c uid.volumeId).nextHead p

theorem finitely_linksOf {server : NodeUid → Option LinkDetails} (hfin : Finitely server)
    (v : VolumeId) : Finitely (linksOf server v) := by
  have hinj : Function.Injective (NodeUid.mk v) := by
    intro a b h
    cases h
    rfl
  apply (Set.Finite.preimage hinj.injOn hfin).subset
  intro a ha
  obtain ⟨l, hl⟩ := Option.isSome_iff_exists.mp ha
  obtain ⟨details, hd, -⟩ := Option.map_eq_some_iff.mp hl
  show (server ⟨v, a⟩).isSome = true
  rw [hd]
  rfl

theorem getNode_returns_iff (hfin : Finitely w.server) :
    (∃ fuel r, ((c.withFuel fuel).getNode uid).run w = some r) ↔ c.KeyFound w uid := by
  simp only [getNode_run]
  unfold KeyFound
  cases hinfo : w.entities uid with
  | some info => exact ⟨fun _ hnone => (nomatch hnone), fun _ => ⟨0, _, rfl⟩⟩
  | none =>
      cases hd : w.server uid with
      | none => exact ⟨fun _ _ _ _ hnone => (nomatch hnone), fun _ => ⟨0, _, rfl⟩⟩
      | some details =>
          have hkey := @resolveParentKey_returns_iff c w uid.volumeId details.link
          have hends : ∀ p, Ends (w.walkEnv c uid.volumeId).nextHead p ↔
              ¬ ComesBack (w.walkEnv c uid.volumeId).nextHead p :=
            fun p => ends_iff (KeyWalk.Env.finitely_nextHead (finitely_linksOf hfin _))
          constructor
          · rintro ⟨fuel, ⟨w', r⟩, h⟩ - details' p hd' hp
            cases hd'
            refine (hends p).mp (hkey.mp ⟨fuel, ?_⟩ p hp)
            rcases Program.bind_eq_some.mp h with ⟨e, he, -⟩ | ⟨t, key, hrun, -⟩
            · exact ⟨_, he⟩
            · exact ⟨_, hrun⟩
          · intro hback
            obtain ⟨fuel, ⟨w', r⟩, h⟩ := hkey.mpr
              (fun p hp => (hends p).mpr (hback rfl details p rfl hp))
            refine ⟨fuel, ?_⟩
            cases r with
            | error e => exact ⟨_, Program.bind_error h⟩
            | ok key =>
                dsimp only
                rw [Program.bind_ok h]
                -- A build returns, with the node or with an error.
                have hbuild :=
                  buildNode_run (c := c.withFuel fuel) uid.volumeId details key .full w'
                split at hbuild
                · exact ⟨_, Program.bind_error hbuild⟩
                · exact ⟨_, Program.bind_ok hbuild⟩

end Single

/-! ## The walk -/

/-- The walk from `uid` in `w` comes to a node with the client in state `w'`, after it has passed
other nodes, the latest first. A node that it has passed is where it stops. -/
inductive Comes (c : Context) (w : World) (uid : NodeUid) :
    List NodeUid → World → NodeUid → Prop where
  | start : Comes c w uid [] w uid
  | up {passed w' x fuel w'' node p} (h : Comes c w uid passed w' x) (hnew : x ∉ passed)
      (hget : ((c.withFuel fuel).getNode x).run w' = some (w'', .ok (some node)))
      (hp : node.parentUid = some p) : Comes c w uid (x :: passed) w'' p

/-- The walk comes to a node that it has passed. -/
def RunsIntoCycle (c : Context) (w : World) (uid : NodeUid) : Prop :=
  ∃ passed w' x, c.Comes w uid passed w' x ∧ x ∈ passed

/-- `get_node_hierarchy` returns, and with an error if it runs into a cycle. -/
def EndsWell (c : Context) (w : World) (uid : NodeUid) : Prop :=
  ∃ fuel w' r, ((c.withFuel fuel).getNodeHierarchy uid).run w = some (w', r) ∧
    (c.RunsIntoCycle w uid → ∃ e, r = .error e)

/-- Every key walk that is started on the way ends. -/
def KeysFound (c : Context) (w : World) (uid : NodeUid) : Prop :=
  ∀ passed w' x, c.Comes w uid passed w' x → x ∉ passed → c.KeyFound w' x

section Walk

variable {c : Context} {w w' wf : World} {uid x : NodeUid} {passed : List NodeUid} {fuel : Nat}

theorem hierarchyAbove_none {node : Node} (hp : node.parentUid = none) (more : Nat)
    (visited : List NodeUid) (chain : List Node) :
    (c.hierarchyAbove (more + 1) visited (node :: chain)).run w =
      some (w, .ok (node :: chain)) := by
  rw [hierarchyAbove, List.head?_cons, Option.bind_some, hp]
  rfl

theorem hierarchyAbove_visited {node : Node} {p : NodeUid} (hp : node.parentUid = some p)
    {visited : List NodeUid} (hmem : p ∈ visited) (more : Nat) (chain : List Node) :
    (c.hierarchyAbove (more + 1) visited (node :: chain)).run w =
      some (w, .error (structureLoop p)) := by
  rw [hierarchyAbove, List.head?_cons, Option.bind_some, hp]
  dsimp only
  rw [if_pos hmem]
  rfl

theorem hierarchyAbove_new {node : Node} {p : NodeUid} (hp : node.parentUid = some p)
    {visited : List NodeUid} (hnew : p ∉ visited) (more : Nat) (chain : List Node) :
    c.hierarchyAbove (more + 1) visited (node :: chain) = c.getNode p >>= fun found =>
      match found with
      | none => .ofExcept (.error (hierarchyBroken p))
      | some parent => c.hierarchyAbove more (p :: visited) (parent :: node :: chain) := by
  rw [hierarchyAbove, List.head?_cons, Option.bind_some, hp]
  exact if_neg hnew

/-- What `get_node` returns, if it returns, does not depend on the fuel. -/
theorem getNode_unique {fuel fuel' : Nat} {p p' : World × Except ProtonError (Option Node)}
    (h : ((c.withFuel fuel).getNode x).run w = some p)
    (h' : ((c.withFuel fuel').getNode x).run w = some p') : p = p' := by
  have hmore := getNode_below (Nat.le_max_left fuel fuel') x w p h
  have hmore' := getNode_below (Nat.le_max_right fuel fuel') x w p' h'
  rw [hmore] at hmore'
  cases hmore'
  rfl

/-- Wherever the walk comes to, a `get_node_hierarchy` that has returned has been there. -/
theorem Comes.run {r : Except ProtonError (Option (List Node))} (h : c.Comes w uid passed w' x)
    (hnew : x ∉ passed)
    (hrun : ((c.withFuel fuel).getNodeHierarchy uid).run w = some (wf, r)) :
    ∃ w'' r', ((c.withFuel fuel).getNode x).run w' = some (w'', r') ∧
      ∀ node, r' = .ok (some node) → ∃ more chain rf,
        ((c.withFuel fuel).hierarchyAbove more (x :: passed) (node :: chain)).run w'' =
          some (wf, rf) ∧ r = rf.map some := by
  -- By induction on the way up: each hop is a read of the next node and the rest of the loop.
  induction h with
  | start =>
      unfold getNodeHierarchy at hrun
      rcases Program.bind_eq_some.mp hrun with ⟨e, he, -⟩ | ⟨t, found, hfound, hrest⟩
      · exact ⟨wf, .error e, he, fun node h => nomatch h⟩
      · refine ⟨t, .ok found, hfound, ?_⟩
        intro node hnode
        cases hnode
        rcases Program.bind_eq_some.mp hrest with ⟨e, he, rfl⟩ | ⟨t', chain, hchain, hpure⟩
        · exact ⟨_, [], .error e, he, rfl⟩
        · cases hpure
          exact ⟨_, [], .ok chain, hchain, rfl⟩
  | @up passed w' x fuel' w'' node p _ hnew' hget hp ih =>
      obtain ⟨t, r', hget', hrest⟩ := ih hnew'
      cases getNode_unique hget hget'
      obtain ⟨more, chain, rf, habove, hr⟩ := hrest node rfl
      cases more with
      | zero => cases habove
      | succ more =>
          rw [hierarchyAbove_new hp hnew] at habove
          -- The read of the next node fails, or the loop goes on above it.
          rcases Program.bind_eq_some.mp habove with ⟨e, he, -⟩ | ⟨t', found, hfound, hrest'⟩
          · exact ⟨wf, .error e, he, fun node h => nomatch h⟩
          · refine ⟨t', .ok found, hfound, ?_⟩
            intro parent hparent
            cases hparent
            exact ⟨more, node :: chain, rf, hrest', hr⟩

/-- A `get_node_hierarchy` that has run into a cycle has returned an error. -/
theorem RunsIntoCycle.error {r : Except ProtonError (Option (List Node))}
    (h : c.RunsIntoCycle w uid)
    (hrun : ((c.withFuel fuel).getNodeHierarchy uid).run w = some (wf, r)) : ∃ e, r = .error e := by
  obtain ⟨passed, w', x, hcomes, hmem⟩ := h
  cases hcomes with
  | start => cases hmem
  | @up passed w0 y fuel' _ node _ hcomes hnew hget hp =>
      obtain ⟨t, r', hget', hrest⟩ := hcomes.run hnew hrun
      cases getNode_unique hget hget'
      obtain ⟨more, chain, rf, habove, rfl⟩ := hrest node rfl
      cases more with
      | zero => cases habove
      | succ more =>
          rw [hierarchyAbove_visited hp hmem] at habove
          cases habove
          exact ⟨_, rfl⟩

/-! ## It visits finitely many nodes -/

/-- The nodes that the server and the entity cache know are among these. -/
structure Within (D : Finset NodeUid) (w : World) : Prop where
  server : ∀ {uid details}, w.server uid = some details →
    uid ∈ D ∧ NodeUid.mk uid.volumeId details.link.id ∈ D
  entities : ∀ {uid info}, w.entities uid = some info → uid ∈ D

theorem exists_within (hserver : Finitely w.server) (hentities : Finitely w.entities) :
    ∃ D, Within D w := by
  -- A link may name itself differently from where the server files it.
  let named (uid : NodeUid) : NodeUid :=
    match w.server uid with
    | some details => ⟨uid.volumeId, details.link.id⟩
    | none => uid
  have hfin := (hserver.union (hserver.image named)).union hentities
  refine ⟨hfin.toFinset, ?_, ?_⟩
  · intro uid details hd
    have hmem : uid ∈ {uid | (w.server uid).isSome = true} := by
      show (w.server uid).isSome = true
      rw [hd]
      rfl
    simp only [Set.Finite.mem_toFinset]
    refine ⟨.inl (.inl hmem), .inl (.inr ⟨uid, hmem, ?_⟩)⟩
    show named uid = _
    simp only [named, hd]
  · intro uid info hinfo
    simp only [Set.Finite.mem_toFinset]
    refine .inr ?_
    show (w.entities uid).isSome = true
    rw [hinfo]
    rfl

theorem Within.finitely {D : Finset NodeUid} (h : Within D w) : Finitely w.server := by
  apply D.finite_toSet.subset
  intro uid huid
  obtain ⟨details, hd⟩ := Option.isSome_iff_exists.mp huid
  exact (h.server hd).1

theorem Within.keysOnly {D : Finset NodeUid} (h : Within D w) (hkeys : KeysOnly w w') :
    Within D w' where
  server := by rw [hkeys.server_eq]; exact h.server
  entities := by rw [hkeys.entities_eq]; exact h.entities

theorem Within.built {D : Finset NodeUid} (h : Within D w) {details : LinkDetails} {node : Node}
    {nodeKey : Option Key} (hnode : node.uid ∈ D) :
    Within D (cacheEntity details node (cacheFolderKey details node.uid nodeKey w)) := by
  have hkeys : KeysOnly w (cacheFolderKey details node.uid nodeKey w) := by
    unfold cacheFolderKey
    split <;> exact ⟨rfl, rfl⟩
  have h' := h.keysOnly hkeys
  unfold cacheEntity
  split
  · refine ⟨h'.server, ?_⟩
    intro uid info hinfo
    simp only [World.setNode, Function.update_apply] at hinfo
    split at hinfo
    · next huid =>
      rw [huid]
      exact hnode
    · exact h'.entities hinfo
  · exact h'

/-- `get_node` finds nothing but what the server or the entity cache knows. -/
theorem Within.getNode {D : Finset NodeUid} (h : Within D w)
    {r : Except ProtonError (Option Node)} (hrun : (c.getNode x).run w = some (w', r)) :
    Within D w' ∧ ∀ node, r = .ok (some node) → x ∈ D := by
  rw [getNode_run] at hrun
  split at hrun
  · next info hinfo =>
    cases hrun
    -- A node that is cached, none at all, or one that is built and then cached.
    exact ⟨h, fun _ _ => h.entities hinfo⟩
  · cases hrun
    exact ⟨h, fun _ hnone => nomatch hnone⟩
  · next details _ hd =>
    refine ⟨?_, fun _ _ => (h.server hd).1⟩
    rcases Program.bind_eq_some.mp hrun with ⟨e, he, -⟩ | ⟨t, key, hkey, hrest⟩
    · exact h.keysOnly (resolveParentKey_keeps _ _ _ _ _ he)
    · have ht := h.keysOnly (resolveParentKey_keeps _ _ _ _ _ hkey)
      have hbuild := buildNode_run (c := c) x.volumeId details key .full t
      split at hbuild
      · rw [Program.bind_error hbuild] at hrest
        cases hrest
        exact ht
      · next node nodeKey hbuilt =>
        rw [Program.bind_ok hbuild] at hrest
        cases hrest
        apply ht.built
        rw [(decryptNode_uids hbuilt).1]
        exact (h.server hd).2

theorem Comes.within {D : Finset NodeUid} (hD : Within D w) (h : c.Comes w uid passed w' x) :
    Within D w' ∧ passed.Nodup ∧ ∀ y ∈ passed, y ∈ D := by
  induction h with
  | start => exact ⟨hD, List.nodup_nil, fun y hy => nomatch hy⟩
  | up _ hnew hget _ ih =>
      obtain ⟨hw, hnodup, hmem⟩ := ih
      obtain ⟨hw', hx⟩ := hw.getNode hget
      exact ⟨hw', List.nodup_cons.mpr ⟨hnew, hnodup⟩, List.forall_mem_cons.mpr ⟨hx _ rfl, hmem⟩⟩

theorem Comes.length_le {D : Finset NodeUid} (hD : Within D w) (h : c.Comes w uid passed w' x) :
    passed.length ≤ D.card := by
  obtain ⟨-, hnodup, hmem⟩ := h.within hD
  rw [← List.toFinset_card_of_nodup hnodup]
  apply Finset.card_le_card
  intro y hy
  exact hmem y (List.mem_toFinset.mp hy)

/-! ## When it ends well -/

/-- With fuel for `steps` steps more, and from `bound` on for each of its key walks, the walk
returns from `x`. -/
def Visits (c : Context) (steps bound : Nat) (passed : List NodeUid) (w : World) (x : NodeUid) :
    Prop :=
  ∀ fuel ≥ bound, ∃ w' r, ((c.withFuel fuel).getNode x).run w = some (w', r) ∧
    ∀ node, r = .ok (some node) → ∀ more ≥ steps, ∀ chain, ∃ s,
      ((c.withFuel fuel).hierarchyAbove more (x :: passed) (node :: chain)).run w' = some s

/-- One step of the walk: `get_node` returns, and if it goes on, it returns from the parent. -/
theorem Visits.step {steps bound fuel : Nat} {w' : World} {r : Except ProtonError (Option Node)}
    (hget : ((c.withFuel fuel).getNode x).run w = some (w', r))
    (hnext : ∀ node p, r = .ok (some node) → node.parentUid = some p → p ∉ x :: passed →
      c.Visits steps bound (x :: passed) w' p) :
    c.Visits (steps + 1) (max fuel bound) passed w x := by
  intro fuel' hfuel
  refine ⟨w', r, getNode_below (le_trans (le_max_left fuel bound) hfuel) x _ _ hget, ?_⟩
  rintro node rfl more hmore chain
  obtain ⟨more, rfl⟩ : ∃ m, more = m + 1 := ⟨more - 1, by omega⟩
  -- The loop ends at a node without a parent or with one that it has passed.
  cases hp : node.parentUid with
  | none => exact ⟨_, hierarchyAbove_none hp more _ chain⟩
  | some p =>
      by_cases hmem : p ∈ x :: passed
      · exact ⟨_, hierarchyAbove_visited hp hmem more chain⟩
      · rw [hierarchyAbove_new hp hmem]
        obtain ⟨t, found, hfound, hrest⟩ :=
          hnext node p rfl hp hmem fuel' (le_trans (le_max_right fuel bound) hfuel)
        cases found with
        | error e => exact ⟨_, Program.bind_error hfound⟩
        | ok found =>
            rw [Program.bind_ok hfound]
            cases found with
            | none => exact ⟨_, rfl⟩
            | some parent => exact hrest parent rfl more (by omega) (node :: chain)

/-- The nodes that are still to be visited get fewer with every step. -/
theorem KeysFound.visits (hkeys : c.KeysFound w uid) {D : Finset NodeUid} (hD : Within D w)
    {steps : Nat} (h : c.Comes w uid passed w' x) (hnew : x ∉ passed)
    (hsteps : D.card < passed.length + steps) : ∃ bound, c.Visits steps bound passed w' x := by
  induction steps generalizing passed w' x with
  -- More nodes passed than there are.
  | zero => exact absurd (h.length_le hD) (Nat.not_le_of_lt hsteps)
  | succ steps ih =>
      obtain ⟨fuel, ⟨w'', r⟩, hget⟩ :=
        (getNode_returns_iff (h.within hD).1.finitely).mpr (hkeys _ _ _ h hnew)
      obtain ⟨bound, hbound⟩ : ∃ bound, ∀ node p, r = .ok (some node) → node.parentUid = some p →
          p ∉ x :: passed → c.Visits steps bound (x :: passed) w'' p := by
        -- The walk goes up only from a node whose parent is new.
        by_cases hup : ∃ node p, r = .ok (some node) ∧ node.parentUid = some p ∧ p ∉ x :: passed
        · obtain ⟨node, p, rfl, hp, hmem⟩ := hup
          obtain ⟨bound, hbound⟩ := ih (.up h hnew hget hp) hmem (by
            rw [List.length_cons]
            omega)
          refine ⟨bound, ?_⟩
          intro node' p' hnode hp' _
          cases hnode
          rw [hp] at hp'
          cases hp'
          exact hbound
        · exact ⟨0, fun node p hr hp hmem => absurd ⟨node, p, hr, hp, hmem⟩ hup⟩
      exact ⟨_, .step hget hbound⟩

/-- **`get_node_hierarchy`** ends well exactly if every key walk that it starts on its way ends. -/
theorem endsWell_iff (hserver : Finitely w.server) (hentities : Finitely w.entities) :
    c.EndsWell w uid ↔ c.KeysFound w uid := by
  obtain ⟨D, hD⟩ := exists_within hserver hentities
  constructor
  · rintro ⟨fuel, wf, r, hrun, -⟩ passed w' x h hnew
    obtain ⟨w'', r', hget, -⟩ := h.run hnew hrun
    exact (getNode_returns_iff (h.within hD).1.finitely).mp ⟨fuel, _, hget⟩
  · intro hkeys
    have hsteps : D.card < ([] : List NodeUid).length + (D.card + 1) := by
      rw [List.length_nil]
      omega
    obtain ⟨bound, hvisits⟩ := hkeys.visits hD .start List.not_mem_nil hsteps
    -- Enough for each key walk, and for every step.
    let fuel := max bound (D.card + 1)
    obtain ⟨w', r, hget, hrest⟩ := hvisits fuel (le_max_left bound _)
    obtain ⟨wf, rf, hrun⟩ :
        ∃ wf rf, ((c.withFuel fuel).getNodeHierarchy uid).run w = some (wf, rf) := by
      unfold getNodeHierarchy
      cases r with
      | error e => exact ⟨_, _, Program.bind_error hget⟩
      | ok found =>
          rw [Program.bind_ok hget]
          cases found with
          | none => exact ⟨_, _, rfl⟩
          | some node =>
              obtain ⟨⟨wf, rf⟩, hchain⟩ := hrest node rfl fuel (le_max_right bound _) []
              cases rf with
              | error e => exact ⟨_, _, Program.bind_error hchain⟩
              | ok chain => exact ⟨_, _, Program.bind_ok hchain⟩
    exact ⟨fuel, wf, rf, hrun, fun hcycle => hcycle.error hrun⟩

end Walk

end Context

end ProtonDrive
