import ProtonDrive.Lib.Pursuit
import ProtonDrive.Drive.Client

/-!
# The node keys of a public link

A visitor of a public link unlocks a node with `node_key`: up to the nearest node whose key is
unlocked, or to the shared root, which opens with the share key, and back down. One link is fetched
at a time, and nothing remembers the links on the way up.

* `endsWell_iff` — `node_key` returns, and with an error if the parents run into a cycle, exactly if
  they do not.
-/

namespace ProtonDrive.PublicLink

open OpenPgp Pursuit

/-- What the client of a public link reads. -/
structure Env where
  rootUid : NodeUid
  shareKey : Key
  /-- Node keys already unlocked. -/
  nodeKeys : NodeUid → Option Key
  /-- The links in the response to a request for one node. -/
  fetchLinkDetails : NodeUid → Except ProtonError (List LinkDetails)

def nodeNotFound (uid : NodeUid) : ProtonError :=
  .invalidOperation ("node " ++ uid.text ++ " was not found")

def noParent : ProtonError :=
  .invalidOperation "node has no parent and is not the shared root"

def Env.linkDetails (env : Env) (uid : NodeUid) : Except ProtonError LinkDetails :=
  match env.fetchLinkDetails uid with
  | .error e => .error e
  | .ok links =>
      match links.head? with
      | none => .error (nodeNotFound uid)
      | some details => .ok details

/-- Keys that are put into the cache, and a result. -/
abbrev Outcome (α : Type) := List (NodeUid × Key) × Except ProtonError α

/-- Up: the key at the top, and the chain below it, topmost first. -/
def Env.climb (env : Env) : (fuel : Nat) → NodeUid → List LinkDetails →
    Option (Outcome (Key × List LinkDetails))
  | 0, _, _ => none
  | fuel + 1, cursor, chain =>
      match env.nodeKeys cursor with
      | some key => some ([], .ok (key, chain))
      | none =>
          match env.linkDetails cursor with
          | .error e => some ([], .error e)
          | .ok details =>
              if details.link.id = env.rootUid.linkId then
                match decryptLink env.shareKey details.link with
                | .error e => some ([], .error e)
                | .ok d => some ([(cursor, d.nodeKey)], .ok (d.nodeKey, chain))
              else
                match details.link.parentId with
                | none => some ([], .error noParent)
                | some p => env.climb fuel ⟨cursor.volumeId, p⟩ (details :: chain)

/-- Down: each node's key unlocks the next. -/
def descend (volumeId : VolumeId) : Outcome (Key × List LinkDetails) → Outcome Key
  | (puts, .error e) => (puts, .error e)
  | (puts, .ok (key, chain)) =>
      let down := KeyWalk.unlockDown key (chain.map LinkDetails.link)
      (puts ++ down.1.map (fun put => (⟨volumeId, put.1⟩, put.2)), down.2)

def Env.nodeKey (env : Env) (fuel : Nat) (uid : NodeUid) : Option (Outcome Key) :=
  match env.nodeKeys uid with
  | some key => some ([], .ok key)
  | none => (env.climb fuel uid []).map (descend uid.volumeId)

/-- `node_key` ends with this outcome. -/
def Returns (env : Env) (uid : NodeUid) (r : Outcome Key) : Prop :=
  ∃ fuel, env.nodeKey fuel uid = some r

/-! ## Cycles -/

/-- The node above `x`, if the climb goes on there. -/
def Env.nextCursor (env : Env) (x : NodeUid) : Option NodeUid :=
  match env.nodeKeys x, env.linkDetails x with
  | none, .ok details =>
      if details.link.id = env.rootUid.linkId then none
      else details.link.parentId.map (NodeUid.mk x.volumeId)
  | _, _ => none

/-- On its way up `node_key` comes to a node that it has passed. -/
def RunsIntoCycle (env : Env) (uid : NodeUid) : Prop := ComesBack env.nextCursor uid

/-- `node_key` returns, and with an error if it runs into a cycle. -/
def EndsWell (env : Env) (uid : NodeUid) : Prop :=
  ∃ r, Returns env uid r ∧ (RunsIntoCycle env uid → ∃ e, r.2 = .error e)

/-- The server has finitely many links. -/
def Env.FiniteServer (env : Env) : Prop := Finitely (fun uid => (env.linkDetails uid).toOption)

variable {env : Env} {x y : NodeUid}

theorem Env.nextCursor_eq_some :
    env.nextCursor x = some y ↔ env.nodeKeys x = none ∧ ∃ details p,
      env.linkDetails x = .ok details ∧ details.link.id ≠ env.rootUid.linkId ∧
      details.link.parentId = some p ∧ y = ⟨x.volumeId, p⟩ := by
  unfold Env.nextCursor
  constructor
  · intro h
    split at h
    · -- The walk goes up only below the root, and only while no key is cached.
      next details hk hd =>
      split at h
      · cases h
      · next hroot =>
        obtain ⟨p, hp, rfl⟩ := Option.map_eq_some_iff.mp h
        exact ⟨hk, details, p, hd, hroot, hp, rfl⟩
    · cases h
  · rintro ⟨hk, details, p, hd, hroot, hp, rfl⟩
    rw [hk, hd]
    dsimp only
    rw [if_neg hroot, hp]
    rfl

theorem Env.FiniteServer.nextCursor (hfin : env.FiniteServer) : Finitely env.nextCursor := by
  apply hfin.subset
  intro x hx
  obtain ⟨y, hy⟩ := Option.isSome_iff_exists.mp hx
  obtain ⟨-, details, -, hd, -⟩ := Env.nextCursor_eq_some.mp hy
  show ((env.linkDetails x).toOption).isSome = true
  rw [hd]
  rfl

theorem climb_next {chain : List LinkDetails} (h : env.nextCursor x = some y) :
    ∃ details, ∀ fuel, env.climb (fuel + 1) x chain = env.climb fuel y (details :: chain) := by
  obtain ⟨hk, details, p, hd, hroot, hp, rfl⟩ := Env.nextCursor_eq_some.mp h
  refine ⟨details, ?_⟩
  intro fuel
  rw [Env.climb, hk, hd]
  dsimp only
  rw [if_neg hroot, hp]

/-- The climb is over where there is no node to go on at. -/
theorem climb_last {chain : List LinkDetails} (h : env.nextCursor x = none) :
    ∃ r, env.climb 1 x chain = some r := by
  unfold Env.nextCursor at h
  unfold Env.climb
  cases hk : env.nodeKeys x with
  | some key => exact ⟨_, rfl⟩
  | none =>
      cases hd : env.linkDetails x with
      | error e => exact ⟨_, rfl⟩
      | ok details =>
          rw [hk, hd] at h
          dsimp only at h ⊢
          split
          · split <;> exact ⟨_, rfl⟩
          · next hroot =>
            rw [if_neg hroot, Option.map_eq_none_iff] at h
            rw [h]
            exact ⟨_, rfl⟩

theorem climb_returns_iff {chain : List LinkDetails} :
    (∃ fuel r, env.climb fuel x chain = some r) ↔ Ends env.nextCursor x := by
  constructor
  · rintro ⟨fuel, r, h⟩
    -- A climb that returns has walked up to a link without a next one.
    induction fuel generalizing x chain with
    | zero => cases h
    | succ fuel ih =>
        cases hx : env.nextCursor x with
        | none => exact .of_none hx
        | some y =>
            obtain ⟨details, hclimb⟩ := climb_next hx
            rw [hclimb] at h
            exact (ends_next hx).mpr (ih h)
  · intro h
    revert chain
    apply h.rec_next
    · intro x hx chain
      obtain ⟨r, hr⟩ := climb_last hx
      exact ⟨1, r, hr⟩
    · intro x y hx ih chain
      obtain ⟨details, hclimb⟩ := climb_next hx
      obtain ⟨fuel, r, hr⟩ := @ih (details :: chain)
      exact ⟨fuel + 1, r, by rw [hclimb, hr]⟩

theorem returns_iff : (∃ r, Returns env x r) ↔ Ends env.nextCursor x := by
  unfold Returns Env.nodeKey
  cases hk : env.nodeKeys x with
  | some key =>
      have hnone : env.nextCursor x = none := by
        unfold Env.nextCursor
        rw [hk]
      exact ⟨fun _ => .of_none hnone, fun _ => ⟨_, 0, rfl⟩⟩
  | none =>
      rw [← @climb_returns_iff env x []]
      constructor
      · rintro ⟨r, fuel, hr⟩
        obtain ⟨c, hc, -⟩ := Option.map_eq_some_iff.mp hr
        exact ⟨fuel, c, hc⟩
      · rintro ⟨fuel, c, hc⟩
        exact ⟨descend x.volumeId c, fuel, by dsimp only; rw [hc]; rfl⟩

/-- **`node_key` of a public link** ends well exactly if it does not run into a cycle. -/
theorem endsWell_iff (hfin : env.FiniteServer) : EndsWell env x ↔ ¬ RunsIntoCycle env x := by
  constructor
  · rintro ⟨r, hr, -⟩ hcycle
    exact hcycle.not_ends (returns_iff.mp ⟨r, hr⟩)
  · intro hcycle
    obtain ⟨r, hr⟩ := returns_iff.mpr (ends_of_not_comesBack hfin.nextCursor hcycle)
    exact ⟨r, hr, fun h => absurd h hcycle⟩

end ProtonDrive.PublicLink
