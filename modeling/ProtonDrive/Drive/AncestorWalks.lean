import ProtonDrive.Drive.Hierarchy
import ProtonDrive.Drive.PublicLinkKeys
import ProtonDrive.Drive.Reads

/-!
# Walks up to the root

Three loops of the clients go up by the parents that a server reports: the walk to a parent key, the
one to a node key of a public link, and `get_node_hierarchy`. Only the last one looks out for a
cycle, as its comment says both other SDKs do, and it does so above calls that make the first one.

* `ancestorWalks_endWell_iff` — on a server with finitely many links, when each of the three
  returns, with an error if it runs into a cycle.
* `not_ancestorWalks_endWell` — with two folders that are each other's parent none of them returns.
-/

namespace ProtonDrive

open OpenPgp Pursuit

/-- **Ancestor walks.** Each of the three ends well exactly if the loop without a check, its own or
one below it, does not come back to where it has been. -/
theorem ancestorWalks_endWell_iff (env : KeyWalk.Env) (link : Link) (publicEnv : PublicLink.Env)
    (shared : NodeUid) (c : Context) (w : World) (uid : NodeUid) (hlinks : Finitely env.server)
    (hpublic : publicEnv.FiniteServer) (hserver : Finitely w.server)
    (hentities : Finitely w.entities) :
    (KeyWalk.EndsWell env link ↔
      ∀ p, link.parentId = some p → ¬ ComesBack env.nextHead p ∧ ¬ env.Reopens link p) ∧
    (PublicLink.EndsWell publicEnv shared ↔ ¬ PublicLink.RunsIntoCycle publicEnv shared) ∧
    (c.EndsWell w uid ↔ c.KeysFound w uid) :=
  ⟨KeyWalk.endsWell_iff hlinks, PublicLink.endsWell_iff hpublic,
    Context.endsWell_iff hserver hentities⟩

/-! ## Two folders in a circle

Folders 1 and 2 of a volume are each other's parent. Folder 0 is the root, and 3 is in it. -/

namespace Circle

def links : Links
  | 0 => some (KeyWalk.folder 0 none 9)
  | 1 => some (KeyWalk.folder 1 (some 2) 12)
  | 2 => some (KeyWalk.folder 2 (some 1) 11)
  | 3 => some (KeyWalk.folder 3 (some 0) 10)
  | _ => none

def server (uid : NodeUid) : Option LinkDetails :=
  if uid.volumeId = 0 then
    (links uid.linkId).map (fun link => { Context.exampleRoot with link := link })
  else none

/-- A client that knows no key and no node. -/
def env : KeyWalk.Env := (Context.started server).walkEnv Context.exampleContext 0

def publicEnv : PublicLink.Env where
  rootUid := ⟨0, 0⟩
  shareKey := 9
  nodeKeys _ := none
  fetchLinkDetails uid := .ok (server uid).toList

theorem server_finite : Finitely server := by
  apply ((Set.finite_lt_nat 4).image (NodeUid.mk 0)).subset
  rintro ⟨v, a⟩ huid
  obtain ⟨details, hd⟩ := Option.isSome_iff_exists.mp huid
  unfold server at hd
  split at hd
  · next hv =>
    obtain ⟨l, hl, -⟩ := Option.map_eq_some_iff.mp hd
    refine ⟨a, ?_, by rw [show v = 0 from hv]⟩
    match a with
    | 0 | 1 | 2 | 3 => decide
    | _ + 4 => cases hl
  · cases hd

theorem env_finite : Finitely env.server := Context.finitely_linksOf server_finite 0

theorem publicEnv_finite : publicEnv.FiniteServer := by
  apply server_finite.subset
  intro uid huid
  by_contra hnone
  have hnone : server uid = none := by simpa using hnone
  simp [PublicLink.Env.linkDetails, publicEnv, hnone, Except.toOption] at huid

theorem env_comesBack : ComesBack env.nextHead 2 := ⟨0, 2, 2, by decide, rfl, rfl⟩

/-- The walk from folder 3 goes to the root and no further. -/
theorem keysFound : Context.exampleContext.KeysFound (Context.started server) ⟨0, 3⟩ := by
  let c := Context.exampleContext
  -- Two reads lead to the root, which has no parent, so the walk comes to no other node.
  obtain ⟨w1, node, hfirst, hp, hserver, w2, root, hsecond, hnone⟩ :
      ∃ w1 node, ((c.withFuel 2).getNode ⟨0, 3⟩).run (Context.started server) =
          some (w1, .ok (some node)) ∧ node.parentUid = some ⟨0, 0⟩ ∧ w1.server = server ∧
        ∃ w2 root, ((c.withFuel 2).getNode ⟨0, 0⟩).run w1 = some (w2, .ok (some root)) ∧
          root.parentUid = none := ⟨_, _, rfl, rfl, rfl, _, _, rfl, rfl⟩
  have hcomes : ∀ {passed w' x}, c.Comes (Context.started server) ⟨0, 3⟩ passed w' x →
      (w' = Context.started server ∧ x = ⟨0, 3⟩) ∨ (w' = w1 ∧ x = ⟨0, 0⟩) := by
    intro passed w' x h
    induction h with
    | start => exact .inl ⟨rfl, rfl⟩
    | up _ _ hget hp' ih =>
        rcases ih with ⟨rfl, rfl⟩ | ⟨rfl, rfl⟩
        · cases Context.getNode_unique hget hfirst
          rw [hp] at hp'
          cases hp'
          exact .inr ⟨rfl, rfl⟩
        · cases Context.getNode_unique hget hsecond
          rw [hnone] at hp'
          cases hp'
  intro passed w' x h _
  rcases hcomes h with ⟨rfl, rfl⟩ | ⟨rfl, rfl⟩
  · intro _ details p hd hparent
    cases hd
    cases hparent
    exact fun hback => hback.not_ends (.of_none (show env.nextHead 0 = none from rfl))
  · intro _ details p hd hparent
    rw [hserver] at hd
    cases hd
    cases hparent

end Circle

/-- **Ancestor walks do not always end.** With two folders that are each other's parent, none of the
three returns. -/
theorem not_ancestorWalks_endWell :
    (Finitely Circle.env.server ∧ ¬ KeyWalk.EndsWell Circle.env (KeyWalk.folder 1 (some 2) 12)) ∧
    (Circle.publicEnv.FiniteServer ∧ ¬ PublicLink.EndsWell Circle.publicEnv ⟨0, 1⟩) ∧
    (Finitely Circle.server ∧
      ¬ Context.exampleContext.EndsWell (Context.started Circle.server) ⟨0, 1⟩) := by
  refine ⟨⟨Circle.env_finite, ?_⟩, ⟨Circle.publicEnv_finite, ?_⟩, Circle.server_finite, ?_⟩
  · rintro ⟨r, hr, -⟩
    exact Circle.env_comesBack.not_ends (KeyWalk.returns_iff.mp ⟨r, hr⟩ 2 rfl)
  · rintro ⟨r, hr, -⟩
    have hback : ComesBack Circle.publicEnv.nextCursor ⟨0, 1⟩ := ⟨0, 2, ⟨0, 1⟩, by decide, rfl, rfl⟩
    exact hback.not_ends (PublicLink.returns_iff.mp ⟨r, hr⟩)
  · rintro ⟨fuel, w', r, hrun, -⟩
    obtain ⟨w'', r', hget, -⟩ := Context.Comes.run .start List.not_mem_nil hrun
    exact (Context.getNode_returns_iff Circle.server_finite).mp ⟨fuel, _, hget⟩ rfl _ 2 rfl rfl
      Circle.env_comesBack

/-- Elsewhere on the same server they do end. -/
theorem ancestorWalks_endWell_outside :
    KeyWalk.EndsWell Circle.env (KeyWalk.folder 3 (some 0) 10) ∧
    PublicLink.EndsWell Circle.publicEnv ⟨0, 3⟩ ∧
    Context.exampleContext.EndsWell (Context.started Circle.server) ⟨0, 3⟩ := by
  have hroot : Circle.env.nextHead 0 = none := rfl
  have hempty : Finitely (Context.started Circle.server).entities :=
    Set.finite_empty.subset (fun uid huid => nomatch huid)
  obtain ⟨hwalk, hpublic, hhierarchy⟩ := ancestorWalks_endWell_iff Circle.env
    (KeyWalk.folder 3 (some 0) 10) Circle.publicEnv ⟨0, 3⟩ Context.exampleContext
    (Context.started Circle.server) ⟨0, 3⟩ Circle.env_finite Circle.publicEnv_finite
    Circle.server_finite hempty
  refine ⟨hwalk.mpr ?_, hpublic.mpr ?_, hhierarchy.mpr Circle.keysFound⟩
  · intro p hp
    cases hp
    refine ⟨fun hback => hback.not_ends (.of_none hroot), ?_⟩
    -- No two positions of the walk come back to one another, since it ends at the root.
    rintro ⟨⟨i, j, x, y, a, hij, hx, hy, -⟩, -⟩
    cases j with
    | zero => cases hij
    | succ j => rw [after_succ, hroot] at hy; cases hy
  · intro hback
    exact hback.not_ends ⟨2, rfl⟩

end ProtonDrive
