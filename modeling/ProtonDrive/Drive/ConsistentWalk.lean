import ProtonDrive.Drive.ParentKey

/-!
# Walks over any server

The server's links need not form a tree here: an ancestor may be missing, and parents may go round
in circles. Only the caches have to be consistent with it.

* `Unlocks` — the key of a link, unlocked from the root down, if it can be.
* `walk_keyAbove` — a walk that returns has the key above its link exactly if there is one, and puts
  into the key cache what is right there.
* `walk_returns` — if parents are nearer to the root, whether they exist or not, the walk returns.
-/

namespace ProtonDrive.KeyWalk

open OpenPgp

/-! ## Keys that can be had -/

section Unlocks

variable (server : Links) (shareKey : LinkId → Except ProtonError Key)

/-- The node key of a link, which is unlocked from the root down. -/
inductive Unlocks : LinkId → Key → Prop where
  | root {a : LinkId} {link : Link} {share : Key} {d : DecryptedLink}
      (hlink : server a = some link) (hroot : link.parentId = none)
      (hshare : shareKey link.id = .ok share) (hopen : decryptLink share link = .ok d) :
      Unlocks a d.nodeKey
  | child {a p : LinkId} {link : Link} {key : Key} {d : DecryptedLink}
      (hlink : server a = some link) (hp : link.parentId = some p) (hparent : Unlocks p key)
      (hopen : decryptLink key link = .ok d) : Unlocks a d.nodeKey

/-- The key above a link: a share key, or the node key of the parent. -/
def KeyAbove (link : Link) (key : Key) : Prop :=
  match link.parentId with
  | none => shareKey link.id = .ok key
  | some p => Unlocks server shareKey p key

variable {server shareKey} {a x : LinkId} {link : Link} {key key' : Key}

theorem keyAbove_root (h : link.parentId = none) :
    KeyAbove server shareKey link key ↔ shareKey link.id = .ok key := by
  unfold KeyAbove
  rw [h]

theorem keyAbove_child {p : LinkId} (h : link.parentId = some p) :
    KeyAbove server shareKey link key ↔ Unlocks server shareKey p key := by
  unfold KeyAbove
  rw [h]

/-- A key is unlocked with the one above it. -/
theorem unlocks_iff (hlink : server a = some link) :
    Unlocks server shareKey a key ↔
      ∃ above d, KeyAbove server shareKey link above ∧ decryptLink above link = .ok d ∧
        key = d.nodeKey := by
  constructor
  · intro h
    cases h with
    | root hlink' hroot hshare hopen =>
        rw [hlink] at hlink'
        cases hlink'
        exact ⟨_, _, (keyAbove_root hroot).mpr hshare, hopen, rfl⟩
    | child hlink' hp hparent hopen =>
        rw [hlink] at hlink'
        cases hlink'
        exact ⟨_, _, (keyAbove_child hp).mpr hparent, hopen, rfl⟩
  · rintro ⟨above, d, habove, hopen, rfl⟩
    cases hp : link.parentId with
    | none => exact .root hlink hp ((keyAbove_root hp).mp habove) hopen
    | some p => exact .child hlink hp ((keyAbove_child hp).mp habove) hopen

theorem Unlocks.exists_link (h : Unlocks server shareKey a key) : ∃ link, server a = some link := by
  cases h with
  | root hlink _ _ _ => exact ⟨_, hlink⟩
  | child hlink _ _ _ => exact ⟨_, hlink⟩

/-- A link has one key. -/
theorem Unlocks.unique (h : Unlocks server shareKey a key) (h' : Unlocks server shareKey a key') :
    key = key' := by
  obtain ⟨link, hlink⟩ := h.exists_link
  obtain ⟨_, d, -, hopen, rfl⟩ := (unlocks_iff hlink).mp h
  obtain ⟨_, d', -, hopen', rfl⟩ := (unlocks_iff hlink).mp h'
  rw [decryptLink_nodeKey hopen, decryptLink_nodeKey hopen']

/-- If `above` is the key above a link wherever there is one, `nodeKeyUnder` has its own key. -/
theorem nodeKeyUnder_unlocks (hlink : server a = some link) {above : Except ProtonError Key}
    (habove : ∀ k, above = .ok k ↔ KeyAbove server shareKey link k) (k : Key) :
    nodeKeyUnder above link = .ok k ↔ Unlocks server shareKey a k := by
  rw [unlocks_iff hlink]
  constructor
  · intro h
    obtain ⟨key, hkey, h⟩ := Except.bind_eq_ok.mp h
    obtain ⟨d, hopen, h⟩ := Except.bind_eq_ok.mp h
    cases h
    exact ⟨key, d, (habove key).mp hkey, hopen, rfl⟩
  · rintro ⟨key, d, hkey, hopen, rfl⟩
    rw [(habove key).mpr hkey]
    exact nodeKeyUnder_eq_ok hopen

/-! ## Distances to the root -/

/-- The root is `n` steps above `a`. -/
inductive Ascent (server : Links) : LinkId → Nat → Prop where
  | root {a : LinkId} {link : Link} (hlink : server a = some link) (hroot : link.parentId = none) :
      Ascent server a 0
  | child {a p : LinkId} {link : Link} {n : Nat} (hlink : server a = some link)
      (hp : link.parentId = some p) (hparent : Ascent server p n) : Ascent server a (n + 1)

theorem Ascent.unique {n m : Nat} (h : Ascent server a n) (h' : Ascent server a m) : n = m := by
  induction h generalizing m with
  | root hlink hroot =>
      cases h' with
      | root _ _ => rfl
      -- A link is the root or has a parent, as the server says, and cannot be both.
      | child hlink' hp _ =>
          rw [hlink] at hlink'
          cases hlink'
          rw [hroot] at hp
          cases hp
  | child hlink hp _ ih =>
      cases h' with
      | root hlink' hroot =>
          rw [hlink] at hlink'
          cases hlink'
          rw [hroot] at hp
          cases hp
      | child hlink' hp' hparent' =>
          rw [hlink] at hlink'
          cases hlink'
          rw [hp] at hp'
          cases hp'
          rw [ih hparent']

theorem Ascent.exists_link {n : Nat} (h : Ascent server a n) : ∃ link, server a = some link := by
  cases h with
  | root hlink _ => exact ⟨_, hlink⟩
  | child hlink _ _ => exact ⟨_, hlink⟩

theorem Ascent.parent {n : Nat} {p : LinkId} (h : Ascent server a n) (hlink : server a = some link)
    (hp : link.parentId = some p) : ∃ m, n = m + 1 ∧ Ascent server p m := by
  cases h with
  | root hlink' hroot =>
      rw [hlink] at hlink'
      cases hlink'
      rw [hp] at hroot
      cases hroot
  | child hlink' hp' hparent =>
      rw [hlink] at hlink'
      cases hlink'
      rw [hp] at hp'
      cases hp'
      exact ⟨_, rfl, hparent⟩

/-- Where a key can be had, the ancestors are all there. -/
theorem Unlocks.ascent (h : Unlocks server shareKey a key) : ∃ n, Ascent server a n := by
  induction h with
  | root hlink hroot _ _ => exact ⟨0, .root hlink hroot⟩
  | child hlink hp _ _ ih =>
      obtain ⟨n, hn⟩ := ih
      exact ⟨n + 1, .child hlink hp hn⟩

end Unlocks

/-! ## Consistent caches -/

/-- The caches say what the server says. -/
structure Env.Consistent (env : Env) : Prop where
  own : env.forPhotos = false
  id_eq : ∀ {a l}, env.server a = some l → l.id = a
  parents : ∀ {a q}, env.cachedParent a = some q → ∃ l, env.server a = some l ∧ l.parentId = q
  keys : ∀ {a k}, env.folderKeys a = some k → Unlocks env.server env.rootLinkShareKey a k

section Runs

variable {env : Env} {x q : LinkId} {l : Link}

theorem Env.Consistent.hop (h : env.Consistent) (hhop : env.cachedHop x = some q) :
    (∃ l, env.server x = some l ∧ l.parentId = some q) ∧ env.folderKeys q = none := by
  unfold Env.cachedHop at hhop
  split at hhop
  · next q' hparent =>
    split at hhop
    · cases hhop
    · next hk =>
      cases hhop
      exact ⟨h.parents hparent, by simpa using hk⟩
  · cases hhop

/-- A run of links that are each other's parents, and the parent of the last one. -/
inductive Path (env : Env) : LinkId → List Link → Option LinkId → Prop where
  | last {x : LinkId} {l : Link} (hx : env.server x = some l) : Path env x [l] l.parentId
  | up {x q : LinkId} {l : Link} {links : List Link} {p : Option LinkId}
      (hx : env.server x = some l) (hq : l.parentId = some q) (hk : env.folderKeys q = none)
      (habove : Path env q links p) : Path env x (l :: links) p

/-- A batch that was answered is such a run. -/
theorem Env.Consistent.path (h : env.Consistent) {room : Nat} {used : List LinkId}
    {links : List Link} (hcol : collect env.server (x :: env.runAbove room x) used = .ok links) :
    Path env x links (links.getLast?.bind Link.parentId) := by
  have hrun := collect_eq_ok hcol
  clear hcol
  induction room generalizing x links with
  | zero =>
      cases hrun with
      | cons hx hrest =>
          cases hrest
          exact .last hx
  | succ room ih =>
      unfold Env.runAbove at hrun
      cases hhop : env.cachedHop x with
      -- No cached parent: the run is this one link.
      | none =>
          rw [hhop] at hrun
          cases hrun with
          | cons hx hrest =>
              cases hrest
              exact .last hx
      -- The cached parent is the one that the server has.
      | some q =>
          rw [hhop] at hrun
          obtain ⟨⟨l, hl, hq⟩, hk⟩ := h.hop hhop
          cases hrun with
          | cons hx hrest =>
              rw [hl] at hx
              cases hx
              have habove := ih hrest
              refine .up hl hq hk ?_
              cases hrest with
              | cons _ _ =>
                  rw [List.getLast?_cons_of_ne_nil (List.cons_ne_nil _ _)]
                  exact habove

/-- What is above a run: nothing, or the rest of the chain. -/
def Env.Above (env : Env) : Option LinkId → List Link → Option Key → Prop
  | none, rest, base => rest = [] ∧ base = none
  | some p, rest, base => Ascends env.server env.folderKeys p rest base

theorem Path.ascends {links rest : List Link} {base : Option Key} {p : Option LinkId}
    (h : Path env x links p) (hk : env.folderKeys x = none) (habove : env.Above p rest base) :
    Ascends env.server env.folderKeys x (links ++ rest) base := by
  induction h with
  | @last x l hx =>
      cases hp : l.parentId with
      | none =>
          rw [hp] at habove
          obtain ⟨rfl, rfl⟩ := habove
          exact .root hk hx hp
      | some p =>
          rw [hp] at habove
          exact .up hk hx hp habove
  | up hx hq hkq _ ih => exact .up hk hx hq (ih hkq habove)

theorem Path.ascent {links : List Link} {p : LinkId} {n : Nat} (h : Path env x links (some p))
    (hx : Ascent env.server x n) : ∃ m, Ascent env.server p m := by
  generalize ho : some p = o at h
  induction h generalizing n with
  | last hl =>
      obtain ⟨m, -, hm⟩ := hx.parent hl ho.symm
      exact ⟨m, hm⟩
  | up hl hq _ _ ih =>
      obtain ⟨m, -, hm⟩ := hx.parent hl hq
      exact ih hm ho

theorem Path.depth_lt {links : List Link} {p : LinkId} {depth : LinkId → Nat}
    (hdepth : ∀ {a l p}, env.server a = some l → l.parentId = some p → depth p < depth a)
    (h : Path env x links (some p)) : depth p < depth x := by
  generalize ho : some p = o at h
  induction h with
  | last hx => exact hdepth hx ho.symm
  | up hx hq _ _ ih => exact Nat.lt_trans (ih ho) (hdepth hx hq)

/-- Where the ancestors are all there, every batch is answered. -/
theorem Env.Consistent.collect_ok (h : env.Consistent) {room n : Nat} {used : List LinkId}
    (hx : Ascent env.server x n) (hused : ∀ a ∈ used, ∃ m, n < m ∧ Ascent env.server a m) :
    ∃ links, collect env.server (x :: env.runAbove room x) used = .ok links := by
  -- The links that have been used are further down.
  have hnew : ∀ {x : LinkId} {n : Nat} {used : List LinkId}, Ascent env.server x n →
      (∀ a ∈ used, ∃ m, n < m ∧ Ascent env.server a m) → x ∉ used := by
    intro x n used hx hused hmem
    obtain ⟨m, hlt, hm⟩ := hused x hmem
    exact Nat.ne_of_lt hlt (hx.unique hm)
  induction room generalizing x n used with
  | zero =>
      obtain ⟨l, hl⟩ := hx.exists_link
      refine ⟨[l], ?_⟩
      simp [Env.runAbove, collect, hnew hx hused, hl, Except.map]
  | succ room ih =>
      unfold Env.runAbove
      cases hhop : env.cachedHop x with
      | none =>
          obtain ⟨l, hl⟩ := hx.exists_link
          refine ⟨[l], ?_⟩
          simp [collect, hnew hx hused, hl, Except.map]
      | some q =>
          obtain ⟨⟨l, hl, hq⟩, -⟩ := h.hop hhop
          obtain ⟨m, rfl, hqm⟩ := hx.parent hl hq
          have husedq : ∀ a ∈ x :: used, ∃ k, m < k ∧ Ascent env.server a k := by
            intro a ha
            rcases List.mem_cons.mp ha with rfl | ha
            · exact ⟨m + 1, Nat.lt_succ_self m, hx⟩
            · obtain ⟨k, hlt, hk⟩ := hused a ha
              exact ⟨k, by omega, hk⟩
          obtain ⟨links, hlinks⟩ := ih hqm husedq
          refine ⟨l :: links, ?_⟩
          rw [collect, if_neg (hnew hx hused), hl]
          simp only [hlinks, Except.map]

end Runs

/-! ## The climb -/

section Climb

variable {env : Env} {fuel : Nat} {x : LinkId} {ancestry : List Link}

theorem Env.Consistent.climb_ascends (h : env.Consistent) {all : List Link} {base : Option Key}
    (hclimb : env.climb fuel x ancestry = some (.ok (all, base))) :
    ∃ above, all = ancestry ++ above ∧ Ascends env.server env.folderKeys x above base := by
  induction fuel generalizing x ancestry with
  | zero => cases hclimb
  | succ fuel ih =>
      unfold Env.climb at hclimb
      split at hclimb
      · -- The key of the next link up is cached, so the climb ends below it.
        next key hk =>
        cases hclimb
        exact ⟨[], by simp, .known hk⟩
      · next hk =>
        split at hclimb
        · cases hclimb
        · next links hcol =>
          have hpath := h.path hcol
          split at hclimb
          · -- The run ends at the root.
            next htop =>
            cases hclimb
            rw [htop] at hpath
            refine ⟨links, rfl, ?_⟩
            have hasc : Ascends env.server env.folderKeys x (links ++ []) none :=
              hpath.ascends hk ⟨rfl, rfl⟩
            rw [List.append_nil] at hasc
            exact hasc
          · -- The run ends at a link whose parent is not cached, and the climb goes on from there.
            next p hp =>
            rw [hp] at hpath
            obtain ⟨above, hall, habove⟩ := ih hclimb
            exact ⟨links ++ above, by rw [hall, List.append_assoc], hpath.ascends hk habove⟩

/-- Where the ancestors are all there, the climb does not fail. -/
theorem Env.Consistent.climb_ok (h : env.Consistent) {n : Nat} (hx : Ascent env.server x n)
    {r : Except ProtonError (List Link × Option Key)}
    (hclimb : env.climb fuel x ancestry = some r) : ∃ found, r = .ok found := by
  induction fuel generalizing x n ancestry with
  | zero => cases hclimb
  | succ fuel ih =>
      unfold Env.climb at hclimb
      split at hclimb
      · cases hclimb
        exact ⟨_, rfl⟩
      · -- Every link of the run is on the server, so the request for it succeeds.
        obtain ⟨links, hlinks⟩ : ∃ links,
            collect env.server (env.cachedAncestorRun x) [] = .ok links :=
          h.collect_ok hx (fun _ hnone => nomatch hnone)
        rw [hlinks] at hclimb
        dsimp only at hclimb
        have hpath := h.path hlinks
        split at hclimb
        · cases hclimb
          exact ⟨_, rfl⟩
        · next p hp =>
          rw [hp] at hpath
          obtain ⟨m, hm⟩ := hpath.ascent hx
          exact ih hm hclimb

/-- If parents are nearer to the root, the climb returns. -/
theorem Env.Consistent.climb_returns (h : env.Consistent) {depth : LinkId → Nat}
    (hdepth : ∀ {a l p}, env.server a = some l → l.parentId = some p → depth p < depth a)
    (hfuel : depth x < fuel) : ∃ r, env.climb fuel x ancestry = some r := by
  induction fuel generalizing x ancestry with
  | zero => cases hfuel
  | succ fuel ih =>
      unfold Env.climb
      split
      · exact ⟨_, rfl⟩
      · split
        · exact ⟨_, rfl⟩
        · next links hcol =>
          have hpath := h.path hcol
          split
          · exact ⟨_, rfl⟩
          · next p hp =>
            rw [hp] at hpath
            have hlt : depth p < depth x := hpath.depth_lt hdepth
            exact ih (by omega)

end Climb

/-! ## The walk -/

/-- Every key that was put into the cache is one that can be had. -/
def Env.PutsRight (env : Env) (puts : List (LinkId × Key)) : Prop :=
  ∀ put ∈ puts, Unlocks env.server env.rootLinkShareKey put.1 put.2

theorem Env.putsRight_nil (env : Env) : env.PutsRight [] := by
  intro put hput
  cases hput

section Descent

variable {env : Env} {x : LinkId} {l : Link}

/-- One more link at the lower end: its key, with the one above it. -/
theorem Env.Consistent.under (h : env.Consistent) (hx : env.server x = some l)
    {above : Except ProtonError Key}
    (habove : ∀ k, above = .ok k ↔ KeyAbove env.server env.rootLinkShareKey l k)
    {more : List (LinkId × Key)}
    (hmore : ∀ put ∈ more, put.1 = l.id ∧ nodeKeyUnder above l = .ok put.2) :
    env.PutsRight more := by
  intro put hput
  obtain ⟨hid, hkey⟩ := hmore put hput
  rw [hid, h.id_eq hx]
  exact (nodeKeyUnder_unlocks hx habove put.2).mp hkey

/-- The way down a chain ends with the key of its lower end. -/
theorem Env.Consistent.descend (h : env.Consistent) (link : Link) {above : List Link}
    {base : Option Key} (hasc : Ascends env.server env.folderKeys x above base) :
    env.PutsRight (env.descend link (.ok (above, base))).1 ∧
      ∀ k, (env.descend link (.ok (above, base))).2 = .ok k ↔
        Unlocks env.server env.rootLinkShareKey x k := by
  induction hasc with
  | @known x key hk =>
      have hkey := h.keys hk
      refine ⟨env.putsRight_nil, ?_⟩
      intro k
      show Except.ok key = Except.ok k ↔ _
      constructor
      · intro hsame
        cases hsame
        exact hkey
      · intro hk'
        rw [hkey.unique hk']
  | @root x l hk hx hp =>
      have hbase : env.baseKey link [l] none = env.rootLinkShareKey l.id := by
        simp [Env.baseKey, h.own]
      have habove : ∀ k, env.rootLinkShareKey l.id = .ok k ↔
          KeyAbove env.server env.rootLinkShareKey l k := fun k => (keyAbove_root hp).symm
      have hunlocks := nodeKeyUnder_unlocks hx habove
      simp only [Env.descend, hbase]
      cases hshare : env.rootLinkShareKey l.id with
      | error e =>
          rw [hshare] at hunlocks
          exact ⟨env.putsRight_nil, hunlocks⟩
      | ok key =>
          obtain ⟨puts, hrun, hputs⟩ := unlockDown_singleton key l
          rw [hshare] at hunlocks habove
          show env.PutsRight (unlockDown key [l]).1 ∧ ∀ k, (unlockDown key [l]).2 = _ ↔ _
          rw [hrun]
          exact ⟨h.under hx habove hputs, hunlocks⟩
  | @up x l p above base hk hx hp hrest ih =>
      obtain ⟨hputs, hparent⟩ := ih
      -- The topmost link, and with it the base key, is that of the chain above.
      have hbase : env.baseKey link (l :: above) base = env.baseKey link above base := by
        cases hrest with
        | known _ => rfl
        | root _ _ _ => rfl
        | up _ _ _ hrest => cases base <;> simp [Env.baseKey]
      simp only [Env.descend] at hputs hparent ⊢
      rw [hbase]
      cases hkey : env.baseKey link above base with
      | error e =>
          rw [hkey] at hparent
          refine ⟨env.putsRight_nil, ?_⟩
          exact nodeKeyUnder_unlocks hx (fun k => (hparent k).trans (keyAbove_child hp).symm)
      | ok key =>
          rw [hkey] at hputs hparent
          dsimp only at hputs hparent ⊢
          have habove := fun k => (hparent k).trans (keyAbove_child hp).symm
          obtain ⟨more, hrun, hmore⟩ := unlockDown_append key above.reverse l
          rw [List.reverse_cons, hrun]
          refine ⟨?_, nodeKeyUnder_unlocks hx habove⟩
          intro put hput
          rcases List.mem_append.mp hput with hput | hput
          · exact hputs put hput
          · exact h.under hx habove hmore put hput

end Descent

section Walk

variable {env : Env} {fuel : Nat} {link : Link}

/-- **Whatever the server says**: a walk that returns has the key above its link exactly if there is
one. -/
theorem walk_keyAbove (h : env.Consistent) {puts : List (LinkId × Key)}
    {r : Except ProtonError Key} (hwalk : env.resolveParentKeyWalk fuel link = some (puts, r)) :
    env.PutsRight puts ∧ ∀ k, r = .ok k ↔ KeyAbove env.server env.rootLinkShareKey link k := by
  unfold Env.resolveParentKeyWalk at hwalk
  cases hp : link.parentId with
  -- The link is the root, whose parent key is the key of the share.
  | none =>
      rw [hp] at hwalk
      have hbase : env.baseKey link [] none = env.rootLinkShareKey link.id := by
        simp [Env.baseKey, h.own]
      simp only [Env.descend, hbase, Option.some.injEq] at hwalk
      split at hwalk
      · next e hshare =>
        cases hwalk
        refine ⟨env.putsRight_nil, ?_⟩
        intro k
        rw [keyAbove_root hp, hshare]
      · next key hshare =>
        cases hwalk
        refine ⟨env.putsRight_nil, ?_⟩
        intro k
        rw [keyAbove_root hp, hshare]
  | some p =>
      rw [hp] at hwalk
      obtain ⟨found, hclimb, hdesc⟩ := Option.map_eq_some_iff.mp hwalk
      cases found with
      | error e =>
          cases hdesc
          refine ⟨env.putsRight_nil, ?_⟩
          intro k
          rw [keyAbove_child hp]
          constructor
          · -- A climb that fails has a link above it that the server does not have.
            intro hk
            cases hk
          · intro hk
            obtain ⟨n, hn⟩ := hk.ascent
            obtain ⟨all, hall⟩ := h.climb_ok hn hclimb
            cases hall
      | ok found =>
          obtain ⟨all, base⟩ := found
          obtain ⟨above, rfl, hasc⟩ := h.climb_ascends hclimb
          obtain ⟨hputs, hkey⟩ := h.descend link hasc
          rw [hdesc] at hputs hkey
          exact ⟨hputs, fun k => (hkey k).trans (keyAbove_child hp).symm⟩

/-- The walk returns, if parents are nearer to the root. -/
theorem walk_returns (h : env.Consistent) {depth : LinkId → Nat}
    (hdepth : ∀ {a l p}, env.server a = some l → l.parentId = some p → depth p < depth a)
    (hfuel : ∀ p, link.parentId = some p → depth p < fuel) :
    ∃ outcome, env.resolveParentKeyWalk fuel link = some outcome := by
  unfold Env.resolveParentKeyWalk
  cases hp : link.parentId with
  | none => exact ⟨_, rfl⟩
  | some p =>
      obtain ⟨r, hr⟩ : ∃ r, env.climb fuel p [] = some r := h.climb_returns hdepth (hfuel p hp)
      exact ⟨env.descend link r, congrArg (Option.map (env.descend link)) hr⟩

end Walk

end ProtonDrive.KeyWalk
