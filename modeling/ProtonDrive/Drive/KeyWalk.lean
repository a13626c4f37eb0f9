import Mathlib.Data.List.Chain
import Mathlib.Logic.Relation
import ProtonDrive.Drive.Link

/-!
# The ancestor walk

`resolve_parent_key_walk` climbs from a link's parent to the nearest ancestor whose key is known, or
to the root, and unlocks its way back down. To save requests it climbs in batches: a run of
ancestors named by the entity cache is fetched at once. The plain walk is the same walk with a cold
entity cache, one ancestor at a time.

* `Honest` — wherever the walk takes a parent from the entity cache, it is the server's.
* `walk_agrees` — with an honest cache the two walks return the same, and where no link opens with
  the key of a folder that is not its parent they do so only with an honest cache. Nothing in the
  code checks a cached parent against the link that is fetched with it.

The climb is not bounded by anything: with a stale cache it can go round in circles. It is modelled
with fuel, and `Returns` says that some amount of it is enough.
-/

namespace ProtonDrive.KeyWalk

open OpenPgp

def maxBatchCount : Nat := 150

/-- What a walk reads. -/
structure Env where
  server : Links
  /-- Folder keys already decrypted. -/
  folderKeys : LinkId → Option Key
  /-- The parents in the entity cache: `none` for an unknown node, `some none` for a root. -/
  cachedParent : LinkId → Option (Option LinkId)
  forPhotos : Bool
  photosShareKey : Except ProtonError Key
  rootLinkShareKey : LinkId → Except ProtonError Key

/-- The same client with nothing in its entity cache. -/
def Env.cold (env : Env) : Env := { env with cachedParent := fun _ => none }

/-! ## The climb -/

/-- The parent that the entity cache names for `x`, if the run goes on there: known, not a root, and
not one whose key is known already. -/
def Env.cachedHop (env : Env) (x : LinkId) : Option LinkId :=
  match env.cachedParent x with
  | some (some q) => if (env.folderKeys q).isSome then none else some q
  | _ => none

/-- The run above `x`, as long as there is room in the batch. -/
def Env.runAbove (env : Env) : (room : Nat) → LinkId → List LinkId
  | 0, _ => []
  | room + 1, x =>
      match env.cachedHop x with
      | some q => q :: env.runAbove room q
      | none => []

def Env.cachedAncestorRun (env : Env) (first : LinkId) : List LinkId :=
  first :: env.runAbove (maxBatchCount - 1) first

def ancestorNotFound (a : LinkId) : ProtonError :=
  .invalidOperation ("ancestor " ++ toString a ++ " not found")

/-- The links of a run, out of one response. A link is taken out of the response when it is used, so
an id that the run names twice is not found the second time. -/
def collect (server : Links) : List LinkId → (used : List LinkId) → Except ProtonError (List Link)
  | [], _ => .ok []
  | a :: run, used =>
      match (if a ∈ used then none else server a) with
      | none => .error (ancestorNotFound a)
      | some link => (collect server run (a :: used)).map (link :: ·)

/-- The loop: the ancestors, nearest first, and the key above the last one if it is known. -/
def Env.climb (env : Env) : (fuel : Nat) → LinkId → List Link →
    Option (Except ProtonError (List Link × Option Key))
  | 0, _, _ => none
  | fuel + 1, parentId, ancestry =>
      match env.folderKeys parentId with
      | some key => some (.ok (ancestry, some key))
      | none =>
          match collect env.server (env.cachedAncestorRun parentId) [] with
          | .error e => some (.error e)
          | .ok links =>
              match links.getLast?.bind Link.parentId with
              | none => some (.ok (ancestry ++ links, none))
              | some p => env.climb fuel p (ancestry ++ links)

/-! ## The way down -/

/-- Unlock links downward, the topmost first. The first component is what is put into the key
cache. -/
def unlockDown : Key → List Link → List (LinkId × Key) × Except ProtonError Key
  | key, [] => ([], .ok key)
  | key, link :: below =>
      match decryptLink key link with
      | .error e => ([], .error e)
      | .ok d =>
          let rest := unlockDown d.nodeKey below
          ((link.id, d.nodeKey) :: rest.1, rest.2)

/-- The key above the topmost link: the known one, or the share key of the root. -/
def Env.baseKey (env : Env) (link : Link) (ancestry : List Link) : Option Key →
    Except ProtonError Key
  | some key => .ok key
  | none =>
      if env.forPhotos then env.photosShareKey
      else env.rootLinkShareKey ((ancestry.getLast?.map Link.id).getD link.id)

/-- What a walk ends with: the keys it has cached, and its result. -/
abbrev Outcome := List (LinkId × Key) × Except ProtonError Key

def Env.descend (env : Env) (link : Link) :
    Except ProtonError (List Link × Option Key) → Outcome
  | .error e => ([], .error e)
  | .ok (ancestry, base) =>
      match env.baseKey link ancestry base with
      | .error e => ([], .error e)
      | .ok key => unlockDown key ancestry.reverse

def Env.resolveParentKeyWalk (env : Env) (fuel : Nat) (link : Link) : Option Outcome :=
  match link.parentId with
  | none => some (env.descend link (.ok ([], none)))
  | some p => (env.climb fuel p []).map (env.descend link)

/-- The walk ends with this outcome. -/
def Returns (env : Env) (link : Link) (r : Outcome) : Prop :=
  ∃ fuel, env.resolveParentKeyWalk fuel link = some r

/-! ## Trees -/

/-- The links of a server form a tree: they are known by their ids, and the parent of a link is a
link, nearer to the root. -/
structure IsTree (server : Links) (depth : LinkId → Nat) : Prop where
  id_eq : ∀ {a l}, server a = some l → l.id = a
  parent : ∀ {a l p}, server a = some l → l.parentId = some p →
    (∃ lp, server p = some lp) ∧ depth p < depth a

/-- No link opens with the node key of a link that is not its parent. -/
def Exclusive (server : Links) : Prop :=
  ∀ {a b l m d}, server a = some l → server b = some m → decryptLink m.key.key l = .ok d →
    l.parentId = some b

/-! ## Honest caches -/

/-- The parent the walk takes from the cache at `x`, the `n`-th of its batch. -/
def Env.hopAt (env : Env) (n : Nat) (x : LinkId) : Option LinkId :=
  if n < maxBatchCount then env.cachedHop x else none

/-- From `x` to its parent on the server, whose key is not known, with the position in the batch. -/
inductive Env.Up (env : Env) : LinkId × Nat → LinkId × Nat → Prop where
  | mk {x n l p} (hx : env.server x = some l) (hp : l.parentId = some p)
      (hk : env.folderKeys p = none) :
      env.Up (x, n) (p, if (env.hopAt n x).isSome then n + 1 else 1)

/-- From `x` at position `n` on, up the server's tree, every parent taken from the cache is the
server's. -/
def Env.HonestFrom (env : Env) (x : LinkId × Nat) : Prop :=
  ∀ y, Relation.ReflTransGen env.Up x y → ∀ q, env.hopAt y.2 y.1 = some q →
    ∃ l, env.server y.1 = some l ∧ l.parentId = some q

def Honest (env : Env) (link : Link) : Prop :=
  ∀ p, link.parentId = some p → env.folderKeys p = none → env.HonestFrom (p, 1)

/-! ## Fuel -/

theorem climb_succ {env : Env} {fuel : Nat} {x : LinkId} {ancestry : List Link}
    {r : Except ProtonError (List Link × Option Key)} (h : env.climb fuel x ancestry = some r) :
    env.climb (fuel + 1) x ancestry = some r := by
  induction fuel generalizing x ancestry with
  | zero => cases h
  | succ fuel ih =>
      unfold Env.climb at h ⊢
      split at h
      · exact h
      · split at h
        · exact h
        · split at h
          · exact h
          · exact ih h

theorem climb_mono {env : Env} {fuel more : Nat} {x : LinkId} {ancestry : List Link}
    {r : Except ProtonError (List Link × Option Key)} (hle : fuel ≤ more)
    (h : env.climb fuel x ancestry = some r) : env.climb more x ancestry = some r := by
  induction hle with
  | refl => exact h
  | step _ ih => exact climb_succ ih

/-- A walk has one outcome. -/
theorem Returns.unique {env : Env} {link : Link} {r r' : Outcome} (h : Returns env link r)
    (h' : Returns env link r') : r = r' := by
  obtain ⟨fuel, h⟩ := h
  obtain ⟨fuel', h'⟩ := h'
  unfold Env.resolveParentKeyWalk at h h'
  cases hp : link.parentId with
  | none =>
      rw [hp] at h h'
      cases h
      cases h'
      rfl
  | some p =>
      rw [hp] at h h'
      obtain ⟨c, hc, rfl⟩ := Option.map_eq_some_iff.mp h
      obtain ⟨c', hc', rfl⟩ := Option.map_eq_some_iff.mp h'
      -- Both climbs end within the greater of the two numbers of hops.
      have hcm := climb_mono (Nat.le_max_left fuel fuel') hc
      have hcm' := climb_mono (Nat.le_max_right fuel fuel') hc'
      rw [hcm] at hcm'
      cases hcm'
      rfl

/-! ## The server's chain -/

/-- The ancestors from `x` up to the first known key or the root, one parent at a time. -/
inductive Ascends (server : Links) (folderKeys : LinkId → Option Key) :
    LinkId → List Link → Option Key → Prop where
  | known {x key} (hk : folderKeys x = some key) : Ascends server folderKeys x [] (some key)
  | root {x l} (hk : folderKeys x = none) (hx : server x = some l) (hp : l.parentId = none) :
      Ascends server folderKeys x [l] none
  | up {x l p ancestry base} (hk : folderKeys x = none) (hx : server x = some l)
      (hp : l.parentId = some p) (habove : Ascends server folderKeys p ancestry base) :
      Ascends server folderKeys x (l :: ancestry) base

/-- In a tree every chain ends. -/
theorem IsTree.ascends {server : Links} {depth : LinkId → Nat} (htree : IsTree server depth)
    (folderKeys : LinkId → Option Key) {x : LinkId} {l : Link} (hx : server x = some l) :
    ∃ ancestry base, Ascends server folderKeys x ancestry base := by
  induction hd : depth x using Nat.strongRecOn generalizing x l with
  | _ d ih =>
      cases hk : folderKeys x with
      | some key => exact ⟨[], some key, .known hk⟩
      | none =>
          cases hp : l.parentId with
          | none => exact ⟨[l], none, .root hk hx hp⟩
          | some p =>
              obtain ⟨⟨lp, hlp⟩, hlt⟩ := htree.parent hx hp
              obtain ⟨ancestry, base, habove⟩ := ih (depth p) (hd ▸ hlt) hlp rfl
              exact ⟨l :: ancestry, base, .up hk hx hp habove⟩

/-! ## Honest runs follow the chain -/

theorem Env.HonestFrom.hop {env : Env} {x : LinkId} {n : Nat} (h : env.HonestFrom (x, n))
    {q : LinkId} (hq : env.hopAt n x = some q) :
    ∃ l, env.server x = some l ∧ l.parentId = some q :=
  h (x, n) .refl q hq

theorem Env.HonestFrom.up {env : Env} {x y : LinkId × Nat} (h : env.HonestFrom x)
    (hup : env.Up x y) : env.HonestFrom y :=
  fun z hz => h z (.head hup hz)

/-- What is left to do after a run: nothing above a root, or to climb on from the last parent. -/
def Env.After (env : Env) (links rest : List Link) (base : Option Key) : Prop :=
  (links.getLast?.bind Link.parentId = none ∧ rest = [] ∧ base = none) ∨
    ∃ p, links.getLast?.bind Link.parentId = some p ∧
      Ascends env.server env.folderKeys p rest base ∧
      (env.folderKeys p = none → env.HonestFrom (p, 1))

theorem Env.After.cons {env : Env} {links rest : List Link} {base : Option Key}
    (h : env.After links rest base) (l : Link) (hne : links ≠ []) :
    env.After (l :: links) rest base := by
  unfold Env.After at h ⊢
  rw [List.getLast?_cons_of_ne_nil hne]
  exact h

/-- Without a cached parent to go on with, the run is over. -/
theorem after_singleton {env : Env} {x : LinkId} {n : Nat} {l : Link} {ancestry : List Link}
    {base : Option Key} (hasc : Ascends env.server env.folderKeys x (l :: ancestry) base)
    (hhop : env.hopAt n x = none) (hhonest : env.HonestFrom (x, n)) :
    env.After [l] ancestry base := by
  cases hasc with
  | root hk hx hp => exact .inl ⟨hp, rfl, rfl⟩
  | up hk hx hp habove =>
      refine .inr ⟨_, hp, habove, ?_⟩
      intro hkp
      have hup := hhonest.up (.mk hx hp hkp)
      rw [hhop] at hup
      exact hup

theorem runAbove_of_hopAt_none {env : Env} {x : LinkId} {n room : Nat}
    (hroom : n + room = maxBatchCount) (hhop : env.hopAt n x = none) :
    env.runAbove room x = [] := by
  cases room with
  | zero => rfl
  | succ room =>
      have hlt : n < maxBatchCount := by omega
      rw [Env.hopAt, if_pos hlt] at hhop
      rw [Env.runAbove, hhop]

theorem runAbove_of_hopAt_some {env : Env} {x q : LinkId} {n room : Nat}
    (hroom : n + room = maxBatchCount) (hhop : env.hopAt n x = some q) :
    ∃ room', room = room' + 1 ∧ env.runAbove room x = q :: env.runAbove room' q := by
  have hlt : n < maxBatchCount := by
    by_contra hge
    rw [Env.hopAt, if_neg hge] at hhop
    cases hhop
  obtain ⟨room', rfl⟩ : ∃ room', room = room' + 1 := ⟨room - 1, by omega⟩
  rw [Env.hopAt, if_pos hlt] at hhop
  exact ⟨room', rfl, by rw [Env.runAbove, hhop]⟩

theorem hopAt_unknown {env : Env} {x q : LinkId} {n : Nat} (h : env.hopAt n x = some q) :
    env.folderKeys q = none := by
  unfold Env.hopAt Env.cachedHop at h
  split at h
  · split at h
    · split at h
      · cases h
      · next hk =>
        cases h
        simpa using hk
    · cases h
  · cases h

/-- The links of an honest run are the lower end of the server's chain. Going up, ids get nearer to
the root, so no id is used twice. -/
theorem collect_run {env : Env} {depth : LinkId → Nat} (htree : IsTree env.server depth)
    {room n : Nat} {x : LinkId} {ancestry : List Link} {base : Option Key} {used : List LinkId}
    (hroom : n + room = maxBatchCount)
    (hasc : Ascends env.server env.folderKeys x ancestry base) (hk : env.folderKeys x = none)
    (hhonest : env.HonestFrom (x, n)) (hused : ∀ a ∈ used, depth x < depth a) :
    ∃ links rest, collect env.server (x :: env.runAbove room x) used = .ok links ∧
      links ≠ [] ∧ ancestry = links ++ rest ∧ env.After links rest base := by
  induction room using Nat.strongRecOn generalizing n x ancestry used with
  | _ room ih =>
      obtain ⟨l, above, hx, rfl⟩ : ∃ l above, env.server x = some l ∧ ancestry = l :: above := by
        cases hasc with
        | known hk' => rw [hk] at hk'; cases hk'
        | root _ hx _ => exact ⟨_, _, hx, rfl⟩
        | up _ hx _ _ => exact ⟨_, _, hx, rfl⟩
      have hnew : x ∉ used := fun h => Nat.lt_irrefl _ (hused x h)
      cases hhop : env.hopAt n x with
      | none =>
          refine ⟨[l], above, ?_, by simp, rfl, after_singleton hasc hhop hhonest⟩
          rw [runAbove_of_hopAt_none hroom hhop]
          simp [collect, hnew, hx, Except.map]
      | some q =>
          obtain ⟨room', rfl, hrun⟩ := runAbove_of_hopAt_some hroom hhop
          have hkq : env.folderKeys q = none := hopAt_unknown hhop
          -- The cached parent is the server's, so the chain goes on there.
          obtain ⟨l', hx', hq⟩ := hhonest.hop hhop
          rw [hx] at hx'
          cases hx'
          obtain ⟨habove, hdepth⟩ : Ascends env.server env.folderKeys q above base ∧
              depth q < depth x := by
            refine ⟨?_, (htree.parent hx hq).2⟩
            cases hasc with
            | root _ hx' hp => rw [hq] at hp; cases hp
            | up _ hx' hp habove =>
                rw [hq] at hp
                cases hp
                exact habove
          have hhonest' : env.HonestFrom (q, n + 1) := by
            have hup := hhonest.up (.mk hx hq hkq)
            rw [hhop] at hup
            exact hup
          have hused' : ∀ a ∈ x :: used, depth q < depth a := by
            intro a ha
            rcases List.mem_cons.mp ha with rfl | ha
            · exact hdepth
            · exact Nat.lt_trans hdepth (hused a ha)
          obtain ⟨links, rest, hcol, hne, habv, hafter⟩ :=
            ih room' (Nat.lt_succ_self _) (by omega) habove hkq hhonest' hused'
          refine ⟨l :: links, rest, ?_, by simp, by rw [habv]; rfl, hafter.cons l hne⟩
          rw [hrun, collect, if_neg hnew, hx]
          simp only [hcol, Except.map]

theorem honest_run {env : Env} {depth : LinkId → Nat} (htree : IsTree env.server depth)
    {x : LinkId} {ancestry : List Link} {base : Option Key}
    (hasc : Ascends env.server env.folderKeys x ancestry base) (hk : env.folderKeys x = none)
    (hhonest : env.HonestFrom (x, 1)) :
    ∃ links rest, collect env.server (env.cachedAncestorRun x) [] = .ok links ∧
      links ≠ [] ∧ ancestry = links ++ rest ∧ env.After links rest base := by
  have hroom : 1 + (maxBatchCount - 1) = maxBatchCount := rfl
  exact collect_run htree hroom hasc hk hhonest (by simp)

/-- With an honest cache, the climb finds the server's chain, with one request per ancestor at
most. -/
theorem climb_of_honest {env : Env} {depth : LinkId → Nat} (htree : IsTree env.server depth)
    {x : LinkId} {above : List Link} {base : Option Key}
    (hasc : Ascends env.server env.folderKeys x above base)
    (hhonest : env.folderKeys x = none → env.HonestFrom (x, 1)) (ancestry : List Link) {fuel : Nat}
    (hfuel : above.length < fuel) :
    env.climb fuel x ancestry = some (.ok (ancestry ++ above, base)) := by
  -- On the fuel: every run of cached ancestors takes one unit and at least one link.
  induction fuel generalizing x above ancestry with
  | zero => cases hfuel
  | succ fuel ih =>
      cases hk : env.folderKeys x with
      | some key =>
          cases hasc with
          | known hk' =>
              rw [hk] at hk'
              cases hk'
              simp [Env.climb, hk]
          | root hk' _ _ => rw [hk] at hk'; cases hk'
          | up hk' _ _ _ => rw [hk] at hk'; cases hk'
      | none =>
          -- The cached run is a prefix of the true path, so the climb goes on from its last link.
          obtain ⟨links, rest, hcol, hne, rfl, hafter⟩ := honest_run htree hasc hk (hhonest hk)
          rcases hafter with ⟨hlast, rfl, rfl⟩ | ⟨p, hlast, hrest, hhonest'⟩
          · simp [Env.climb, hk, hcol, hlast]
          · have hpos : 0 < links.length := List.length_pos_of_ne_nil hne
            have hlt : rest.length < fuel := by
              rw [List.length_append] at hfuel
              omega
            have hclimb := ih hrest hhonest' (ancestry ++ links) hlt
            rw [List.append_assoc] at hclimb
            simp only [Env.climb, hk, hcol, hlast]
            exact hclimb

theorem cold_honest (env : Env) (x : LinkId × Nat) : env.cold.HonestFrom x := by
  intro y _ q hq
  have hnone : env.cold.hopAt y.2 y.1 = none := by
    unfold Env.hopAt
    split <;> rfl
  rw [hnone] at hq
  cases hq

/-- With an honest cache the two walks end with the same outcome. -/
theorem returns_iff_of_honest {env : Env} {depth : LinkId → Nat} (htree : IsTree env.server depth)
    {link : Link} (hlink : env.server link.id = some link) (hhonest : Honest env link)
    (r : Outcome) : Returns env link r ↔ Returns env.cold link r := by
  cases hp : link.parentId with
  | none => simp only [Returns, Env.resolveParentKeyWalk, hp]; rfl
  | some p =>
      obtain ⟨⟨lp, hlp⟩, -⟩ := htree.parent hlink hp
      obtain ⟨above, base, hasc⟩ := htree.ascends env.folderKeys hlp
      have hfuel := climb_of_honest htree hasc (hhonest p hp) [] (Nat.lt_succ_self _)
      -- With honest parents the cached climb and the cold one find the same links.
      have hfuel' := climb_of_honest (show IsTree env.cold.server depth from htree) hasc
        (fun _ => cold_honest env _) [] (Nat.lt_succ_self _)
      have hwarm : Returns env link (env.descend link (.ok ([] ++ above, base))) := by
        refine ⟨above.length + 1, ?_⟩
        simp only [Env.resolveParentKeyWalk, hp, hfuel]
        rfl
      have hcold : Returns env.cold link (env.descend link (.ok ([] ++ above, base))) := by
        refine ⟨above.length + 1, ?_⟩
        simp only [Env.resolveParentKeyWalk, hp, hfuel']
        rfl
      constructor
      · intro h
        rw [h.unique hwarm]
        exact hcold
      · intro h
        rw [h.unique hcold]
        exact hwarm

/-! ## A walk that succeeds was honest -/

theorem collect_eq_ok {server : Links} {run used : List LinkId} {links : List Link}
    (h : collect server run used = .ok links) :
    List.Forall₂ (fun a l => server a = some l) run links := by
  induction run generalizing used links with
  | nil =>
      cases h
      exact .nil
  | cons a run ih =>
      unfold collect at h
      split at h
      · cases h
      · next l hl =>
        cases hrest : collect server run (a :: used) with
        | error e => rw [hrest] at h; cases h
        | ok rest =>
            rw [hrest] at h
            cases h
            refine .cons ?_ (ih hrest)
            -- A link that comes twice in the run is answered once.
            split at hl
            · cases hl
            · exact hl

theorem collect_mem {server : Links} {run used : List LinkId} {links : List Link}
    (h : collect server run used = .ok links) : ∀ l ∈ links, ∃ a, server a = some l := by
  have hrun := collect_eq_ok h
  clear h
  induction hrun with
  | nil => simp
  | cons hl _ ih => exact List.forall_mem_cons.mpr ⟨⟨_, hl⟩, ih⟩

/-- The climb only adds links of the server. -/
theorem climb_adds {env : Env} {fuel : Nat} {x : LinkId} {ancestry all : List Link}
    {base : Option Key} (h : env.climb fuel x ancestry = some (.ok (all, base))) :
    ∃ above, all = ancestry ++ above ∧ ∀ l ∈ above, ∃ a, env.server a = some l := by
  induction fuel generalizing x ancestry with
  | zero => cases h
  | succ fuel ih =>
      unfold Env.climb at h
      split at h
      · cases h
        exact ⟨[], by simp, by simp⟩
      · split at h
        · cases h
        · next links hcol =>
          have hlinks : ∀ l ∈ links, ∃ a, env.server a = some l := collect_mem hcol
          split at h
          · cases h
            exact ⟨links, rfl, hlinks⟩
          · -- The links of this run, and those above it.
            obtain ⟨above, hall, habove⟩ := ih h
            refine ⟨links ++ above, by rw [hall, List.append_assoc], ?_⟩
            intro l hl
            rcases List.mem_append.mp hl with hl | hl
            · exact hlinks l hl
            · exact habove l hl

/-- Each link of a successful descent opened with the key of the link above it. -/
theorem unlockDown_chain {key : Key} {links : List Link} {puts : List (LinkId × Key)} {k : Key}
    (h : unlockDown key links = (puts, .ok k)) :
    links.IsChain (fun upper lower => ∃ d, decryptLink upper.key.key lower = .ok d) := by
  induction links generalizing key puts with
  | nil => exact .nil
  | cons link below ih =>
      unfold unlockDown at h
      split at h
      · cases h
      · next d hd =>
        have hkey : d.nodeKey = link.key.key := decryptLink_nodeKey hd
        have hbelow : unlockDown d.nodeKey below = ((unlockDown d.nodeKey below).1, .ok k) := by
          rw [Prod.mk.injEq] at h
          exact Prod.ext rfl h.2
        cases below with
        | nil => exact .singleton _
        | cons lower rest =>
            refine List.isChain_cons_cons.mpr ⟨?_, ih hbelow⟩
            -- The link below was opened with the key of this one.
            rw [hkey, unlockDown] at hbelow
            split at hbelow
            · cases hbelow
            · next d' hd' => exact ⟨d', hd'⟩

theorem Env.HonestFrom.intro {env : Env} {x : LinkId} {n : Nat}
    (hhere : ∀ q, env.hopAt n x = some q → ∃ l, env.server x = some l ∧ l.parentId = some q)
    (habove : ∀ y, env.Up (x, n) y → env.HonestFrom y) : env.HonestFrom (x, n) := by
  intro z hz q hq
  rcases hz.cases_head with rfl | ⟨y, hup, hrest⟩
  · exact hhere q hq
  · exact habove y hup z hrest q hq

/-- A run whose links are each other's parents on the server was honest. -/
theorem honest_of_chain {env : Env} {depth : LinkId → Nat} (htree : IsTree env.server depth)
    {room n : Nat} {x : LinkId} {links : List Link} (hroom : n + room = maxBatchCount)
    (hcol : List.Forall₂ (fun a l => env.server a = some l) (x :: env.runAbove room x) links)
    (hchain : links.IsChain (fun lower upper => lower.parentId = some upper.id))
    (hafter : ∀ p, links.getLast?.bind Link.parentId = some p → env.folderKeys p = none →
      env.HonestFrom (p, 1)) : env.HonestFrom (x, n) := by
  -- On the room left in the batch: a cached hop that is on the checked chain is a true one, and
  -- leaves one place less.
  induction room using Nat.strongRecOn generalizing n x links with
  | _ room ih =>
      cases hhop : env.hopAt n x with
      | none =>
          rw [runAbove_of_hopAt_none hroom hhop] at hcol
          obtain ⟨l, hl, rfl⟩ : ∃ l, env.server x = some l ∧ links = [l] := by
            cases hcol with
            | cons hl hrest =>
                cases hrest
                exact ⟨_, hl, rfl⟩
          refine .intro (fun q hq => by rw [hhop] at hq; cases hq) ?_
          rintro _ ⟨hx, hp, hk⟩
          rw [hl] at hx
          cases hx
          rw [hhop]
          exact hafter _ hp hk
      | some q =>
          obtain ⟨room', rfl, hrun⟩ := runAbove_of_hopAt_some hroom hhop
          rw [hrun] at hcol
          obtain ⟨l, l', links', hl, hl', hcol', rfl⟩ : ∃ l l' links', env.server x = some l ∧
              env.server q = some l' ∧
              List.Forall₂ (fun a l => env.server a = some l) (q :: env.runAbove room' q)
                (l' :: links') ∧ links = l :: l' :: links' := by
            cases hcol with
            | cons hl hrest =>
                cases hrest with
                | cons hl' hrest' => exact ⟨_, _, _, hl, hl', .cons hl' hrest', rfl⟩
          -- The server answers `q` with the link of that id, so the chain says that `q` is the
          -- parent.
          obtain ⟨hparent, hchain'⟩ := List.isChain_cons_cons.mp hchain
          rw [htree.id_eq hl'] at hparent
          have hrest : env.HonestFrom (q, n + 1) := by
            apply ih room' (Nat.lt_succ_self _) (by omega) hcol' hchain'
            intro p hp
            rw [← List.getLast?_cons_of_ne_nil (List.cons_ne_nil l' links')] at hp
            exact hafter p hp
          refine .intro ?_ ?_
          · intro q' hq'
            rw [hhop] at hq'
            cases hq'
            exact ⟨l, hl, hparent⟩
          · rintro _ ⟨hx, hp, hk⟩
            rw [hl] at hx
            cases hx
            rw [hparent] at hp
            cases hp
            rw [hhop]
            exact hrest

theorem climb_honest {env : Env} {depth : LinkId → Nat} (htree : IsTree env.server depth)
    {fuel : Nat} {x : LinkId} {ancestry all : List Link} {base : Option Key}
    (h : env.climb fuel x ancestry = some (.ok (all, base))) (hk : env.folderKeys x = none)
    (hchain : all.IsChain (fun lower upper => lower.parentId = some upper.id)) :
    env.HonestFrom (x, 1) := by
  induction fuel generalizing x ancestry with
  | zero => cases h
  | succ fuel ih =>
      unfold Env.climb at h
      rw [hk] at h
      dsimp only at h
      have hroom : 1 + (maxBatchCount - 1) = maxBatchCount := rfl
      split at h
      · cases h
      · next links hcol =>
        split at h
        · next hlast =>
          cases h
          -- At the top no parent is left to be cached.
          apply honest_of_chain htree hroom (collect_eq_ok hcol) hchain.right_of_append
          intro p hp
          rw [hlast] at hp
          cases hp
        · next p hlast =>
          -- The run ends below `p`, and the climb goes on from there.
          obtain ⟨above, rfl, -⟩ := climb_adds h
          refine honest_of_chain htree hroom (collect_eq_ok hcol)
            hchain.left_of_append.right_of_append ?_
          intro p' hp' hkp
          rw [hlast] at hp'
          cases hp'
          exact ih h hkp

theorem honest_of_returns {env : Env} {depth : LinkId → Nat} (htree : IsTree env.server depth)
    (hexcl : Exclusive env.server) {link : Link} {puts : List (LinkId × Key)} {k : Key}
    (h : Returns env link (puts, .ok k)) : Honest env link := by
  intro p hp hk
  obtain ⟨fuel, h⟩ := h
  simp only [Env.resolveParentKeyWalk, hp] at h
  obtain ⟨c, hclimb, hdesc⟩ := Option.map_eq_some_iff.mp h
  cases c with
  | error e => cases hdesc
  | ok found =>
      obtain ⟨all, base⟩ := found
      obtain ⟨above, rfl, hserver⟩ := climb_adds hclimb
      apply climb_honest htree hclimb hk
      simp only [Env.descend] at hdesc
      split at hdesc
      · cases hdesc
      · -- Each link opened with the key of the one above it, which is therefore its parent.
        have hopens := List.isChain_reverse.mp (unlockDown_chain hdesc)
        apply hopens.imp_of_mem_imp
        rintro lower upper hlower hupper ⟨d, hd⟩
        obtain ⟨a, ha⟩ := hserver lower (by simpa using hlower)
        obtain ⟨b, hb⟩ := hserver upper (by simpa using hupper)
        rw [htree.id_eq hb]
        exact hexcl ha hb hd

/-- **The walk is independent of the entity cache** where every parent it takes from the cache is
the server's. In a tree whose links open with their parents' keys only, it is so nowhere else: if
the plain walk finds the key and this one returns the same, the cache was honest. -/
theorem walk_agrees {env : Env} {depth : LinkId → Nat} (htree : IsTree env.server depth)
    {link : Link} (hlink : env.server link.id = some link) :
    (Honest env link → ∀ r, Returns env link r ↔ Returns env.cold link r) ∧
    (Exclusive env.server → (∃ puts k, Returns env.cold link (puts, .ok k)) →
      (∀ r, Returns env link r ↔ Returns env.cold link r) → Honest env link) := by
  refine ⟨returns_iff_of_honest htree hlink, ?_⟩
  intro hexcl ⟨puts, k, hcold⟩ hsame
  exact honest_of_returns htree hexcl ((hsame _).mpr hcold)

/-! ## Walks with a stale cache

Folder 0 is the root, 1 and 2 are below it, 3 is or was below one of them, and 4 is the node whose
parent key is wanted. The node key of folder `n` is `10 + n`, and the share key is 9. -/

def folder (id : LinkId) (parentId : Option LinkId) (parentKey : Key) : Link where
  id := id
  parentId := parentId
  name := encryptAndSign parentKey 1 id [97]
  nameHash := none
  key := ⟨10 + id, [1]⟩
  passphrase := encrypt parentKey id [1]
  passphraseSignature := none
  signatureEmail := none
  nameSignatureEmail := none
  hashKey := none

/-- Folder 3 is below folder 1. -/
def beforeMove : Links
  | 0 => some (folder 0 none 9)
  | 1 => some (folder 1 (some 0) 10)
  | 2 => some (folder 2 (some 0) 10)
  | 3 => some (folder 3 (some 1) 11)
  | 4 => some (folder 4 (some 3) 13)
  | _ => none

/-- Folder 3 has been moved below folder 2. -/
def afterMove : Links
  | 3 => some (folder 3 (some 2) 12)
  | a => beforeMove a

/-- Folder 3 has been moved below the root, and folder 1 below folder 3. -/
def afterSwap : Links
  | 1 => some (folder 1 (some 3) 13)
  | 3 => some (folder 3 (some 0) 10)
  | a => beforeMove a

def node : Link := folder 4 (some 3) 13

/-- A client that has read folder 3 and knows no folder key. -/
def readFolder3 (server : Links) (parent : LinkId) : Env where
  server := server
  folderKeys _ := none
  cachedParent x := if x = 3 then some (some parent) else none
  forPhotos := false
  photosShareKey := .error .keysLocked
  rootLinkShareKey _ := .ok 9

/-- Every entry of the entity cache was once true. -/
def ConsistentWith (env : Env) (earlier : Links) : Prop :=
  ∀ x q, env.cachedParent x = some q → ∃ l, earlier x = some l ∧ l.parentId = q

theorem isTree_afterMove : IsTree afterMove id := by
  constructor
  · intro a l h
    match a with
    | 0 | 1 | 2 | 3 | 4 => cases h; rfl
    | _ + 5 => cases h
  · intro a l p h hp
    match a with
    | 0 => cases h; cases hp
    | 1 | 2 | 3 | 4 => cases h; cases hp; exact ⟨⟨_, rfl⟩, by decide⟩
    | _ + 5 => cases h

theorem swap_loops (fuel : Nat) (ancestry : List Link) :
    (readFolder3 afterSwap 1).climb fuel 3 ancestry = none := by
  induction fuel generalizing ancestry with
  | zero => rfl
  | succ fuel ih => exact ih _

/-- With a parent in the cache that was true before a move, the walk fails where the plain one finds
the key; with another move it does not even end. -/
theorem walk_differs :
    (ConsistentWith (readFolder3 afterMove 1) beforeMove ∧
      (∃ puts, Returns (readFolder3 afterMove 1).cold node (puts, .ok 13)) ∧
      ¬ ∃ puts k, Returns (readFolder3 afterMove 1) node (puts, .ok k)) ∧
    (ConsistentWith (readFolder3 afterSwap 1) beforeMove ∧
      (∃ puts, Returns (readFolder3 afterSwap 1).cold node (puts, .ok 13)) ∧
      ¬ ∃ r, Returns (readFolder3 afterSwap 1) node r) := by
  have hcons : ∀ server, ConsistentWith (readFolder3 server 1) beforeMove := by
    intro server x q h
    simp only [readFolder3] at h
    split at h
    · next hx =>
      subst hx
      cases h
      exact ⟨_, rfl, rfl⟩
    · cases h
  refine ⟨⟨hcons _, ⟨_, 4, rfl⟩, ?_⟩, hcons _, ⟨_, 4, rfl⟩, ?_⟩
  · rintro ⟨puts, k, h⟩
    have hfails : Returns (readFolder3 afterMove 1) node
        ([(0, 10), (1, 11)], .error (decryptError "missing key")) := ⟨4, rfl⟩
    cases h.unique hfails
  · -- The cached parent leads back to the run's own start, again and again.
    rintro ⟨r, fuel, h⟩
    simp only [Env.resolveParentKeyWalk, show node.parentId = some 3 from rfl, swap_loops] at h
    cases h

/-- The cache names the parent that folder 3 has now. -/
theorem walk_agrees_afterMove :
    Honest (readFolder3 afterMove 2) node ∧
      Returns (readFolder3 afterMove 2) node ([(0, 10), (2, 12), (3, 13)], .ok 13) := by
  have hhonest : Honest (readFolder3 afterMove 2) node := by
    intro p _ _ y _ q hq
    simp only [Env.hopAt, Env.cachedHop, readFolder3] at hq
    by_cases hy : y.1 = 3
    · rw [if_pos hy] at hq
      rw [hy]
      refine ⟨_, rfl, ?_⟩
      split at hq
      · exact hq
      · cases hq
    · rw [if_neg hy] at hq
      split at hq <;> cases hq
  have hcold : Returns (readFolder3 afterMove 2).cold node ([(0, 10), (2, 12), (3, 13)], .ok 13) :=
    ⟨4, rfl⟩
  exact ⟨hhonest, ((walk_agrees isTree_afterMove rfl).1 hhonest _).mpr hcold⟩

end ProtonDrive.KeyWalk
