import ProtonDrive.Drive.KeyWalk

/-!
# The key above a link

What `resolve_parent_key_walk` is for, without its caches and batches: the key above a link is the
share key of a root, or the node key of the parent, which is unlocked with the key above that one.

* `walk_plain` — in a tree, with caches that say what the server says, the walk returns just that
  key, and everything it puts into the key cache is right.
* `walk_eq_ok` — whatever the caches say: a walk that succeeds returned a key it found in the cache,
  or the key locked in the link of the parent.
-/

namespace ProtonDrive.KeyWalk

open OpenPgp

/-- The node key of a link, with the key above it. -/
def nodeKeyUnder (above : Except ProtonError Key) (link : Link) : Except ProtonError Key := do
  let key ← above
  let decrypted ← decryptLink key link
  return decrypted.nodeKey

@[simp] theorem nodeKeyUnder_error (e : ProtonError) (link : Link) :
    nodeKeyUnder (.error e) link = .error e := rfl

theorem nodeKeyUnder_eq_error {key : Key} {link : Link} {e : ProtonError}
    (h : decryptLink key link = .error e) : nodeKeyUnder (.ok key) link = .error e := by
  simp [nodeKeyUnder, h, bind, Except.bind]

theorem nodeKeyUnder_eq_ok {key : Key} {link : Link} {d : DecryptedLink}
    (h : decryptLink key link = .ok d) : nodeKeyUnder (.ok key) link = .ok d.nodeKey := by
  simp [nodeKeyUnder, h, bind, Except.bind, pure, Except.pure]

section Plain

variable (server : Links) (shareKey : LinkId → Except ProtonError Key)

/-- The key above a link, unlocked from the root down. -/
def plainParentKey : (fuel : Nat) → Link → Except ProtonError Key
  | fuel, link =>
      match link.parentId, fuel with
      | none, _ => shareKey link.id
      | some p, 0 => .error (ancestorNotFound p)
      | some p, fuel + 1 =>
          match server p with
          | none => .error (ancestorNotFound p)
          | some parent => nodeKeyUnder (plainParentKey fuel parent) parent

/-- The node key of a link, unlocked from the root down. -/
def plainKey (fuel : Nat) (a : LinkId) : Except ProtonError Key :=
  match server a with
  | none => .error (ancestorNotFound a)
  | some link => nodeKeyUnder (plainParentKey server shareKey fuel link) link

variable {server shareKey}

theorem plainParentKey_root {link : Link} (h : link.parentId = none) (fuel : Nat) :
    plainParentKey server shareKey fuel link = shareKey link.id := by
  unfold plainParentKey
  rw [h]

theorem plainParentKey_child {link : Link} {p : LinkId} (h : link.parentId = some p) (fuel : Nat) :
    plainParentKey server shareKey (fuel + 1) link = plainKey server shareKey fuel p := by
  unfold plainParentKey plainKey
  rw [h]

/-- Links with the same parent are below the same key. -/
theorem plainParentKey_sibling {link link' : Link} {p : LinkId} (h : link.parentId = some p)
    (h' : link'.parentId = some p) (fuel : Nat) :
    plainParentKey server shareKey fuel link = plainParentKey server shareKey fuel link' := by
  unfold plainParentKey
  rw [h, h']
  cases fuel with
  | zero => rfl
  | succ fuel => rfl

/-- More fuel than the tree is deep changes nothing. -/
theorem plainParentKey_stable {depth : LinkId → Nat} (htree : IsTree server depth) {link : Link}
    (hlink : server link.id = some link) {n m : Nat} (hn : depth link.id ≤ n)
    (hm : depth link.id ≤ m) :
    plainParentKey server shareKey n link = plainParentKey server shareKey m link := by
  induction n generalizing link m with
  | zero =>
      -- At depth zero there is no parent, and no fuel is needed.
      have hroot : link.parentId = none := by
        cases hp : link.parentId with
        | none => rfl
        | some p => exact absurd (htree.parent hlink hp).2 (by omega)
      rw [plainParentKey_root hroot, plainParentKey_root hroot]
  | succ n ih =>
      cases hp : link.parentId with
      | none => rw [plainParentKey_root hp, plainParentKey_root hp]
      | some p =>
          -- A parent is closer to the root, so one step less of fuel is enough for it.
          obtain ⟨⟨parent, hparent⟩, hlt⟩ := htree.parent hlink hp
          obtain ⟨m, rfl⟩ : ∃ k, m = k + 1 := ⟨m - 1, by omega⟩
          have hid : parent.id = p := htree.id_eq hparent
          have hsame : plainParentKey server shareKey n parent =
              plainParentKey server shareKey m parent := by
            apply ih
            · rw [hid]; exact hparent
            · rw [hid]; omega
            · rw [hid]; omega
          rw [plainParentKey_child hp, plainParentKey_child hp]
          simp only [plainKey, hparent, hsame]

end Plain

/-! ## Sound caches -/

/-- The caches of a client say what the server says, and the tree is no deeper than the fuel. -/
structure Env.Sound (env : Env) (depth : LinkId → Nat) (fuel : Nat) : Prop where
  tree : IsTree env.server depth
  shallow : ∀ {a l}, env.server a = some l → depth a < fuel
  own : env.forPhotos = false
  parents : ∀ {a q}, env.cachedParent a = some q → ∃ l, env.server a = some l ∧ l.parentId = q
  keys : ∀ {a k}, env.folderKeys a = some k →
    plainKey env.server env.rootLinkShareKey fuel a = .ok k

theorem Env.Sound.honest {env : Env} {depth : LinkId → Nat} {fuel : Nat}
    (h : env.Sound depth fuel) (x : LinkId × Nat) : env.HonestFrom x := by
  intro y _ q hq
  unfold Env.hopAt Env.cachedHop at hq
  split at hq
  · split at hq
    · next q' hcached =>
      split at hq
      · cases hq
      · cases hq
        exact h.parents hcached
    · cases hq
  · cases hq

/-- The key above a link is the node key of its parent. -/
theorem Env.Sound.plainParentKey_eq {env : Env} {depth : LinkId → Nat} {fuel : Nat}
    (h : env.Sound depth fuel) {link : Link} {p : LinkId} (hp : link.parentId = some p)
    (hlink : env.server link.id = some link) :
    plainParentKey env.server env.rootLinkShareKey fuel link =
      plainKey env.server env.rootLinkShareKey fuel p := by
  obtain ⟨⟨parent, hparent⟩, hlt⟩ := h.tree.parent hlink hp
  have hdepth : depth link.id < fuel := h.shallow hlink
  obtain ⟨fuel, rfl⟩ : ∃ k, fuel = k + 1 := ⟨fuel - 1, by omega⟩
  have hid : parent.id = p := h.tree.id_eq hparent
  have hstable : plainParentKey env.server env.rootLinkShareKey fuel parent =
      plainParentKey env.server env.rootLinkShareKey (fuel + 1) parent := by
    apply plainParentKey_stable h.tree
    · rw [hid]; exact hparent
    · rw [hid]; omega
    · rw [hid]; omega
  rw [plainParentKey_child hp]
  simp only [plainKey, hparent, hstable]

theorem Ascends.length_le {server : Links} {folderKeys : LinkId → Option Key}
    {depth : LinkId → Nat} (htree : IsTree server depth) {x : LinkId} {above : List Link}
    {base : Option Key} (h : Ascends server folderKeys x above base) :
    above.length ≤ depth x + 1 := by
  induction h with
  | known _ => simp
  | root _ _ _ => simp
  | up _ hx hp _ ih =>
      have hlt := (htree.parent hx hp).2
      simp only [List.length_cons]
      omega

/-! ## The way down -/

theorem unlockDown_singleton (key : Key) (link : Link) :
    ∃ puts, unlockDown key [link] = (puts, nodeKeyUnder (.ok key) link) ∧
      ∀ put ∈ puts, put.1 = link.id ∧ nodeKeyUnder (.ok key) link = .ok put.2 := by
  cases hd : decryptLink key link with
  | error e =>
      refine ⟨[], ?_, by simp⟩
      rw [nodeKeyUnder_eq_error hd]
      simp [unlockDown, hd]
  | ok d =>
      refine ⟨[(link.id, d.nodeKey)], ?_, ?_⟩
      · rw [nodeKeyUnder_eq_ok hd]
        simp [unlockDown, hd]
      · intro put hput
        rw [List.mem_singleton.mp hput]
        exact ⟨rfl, nodeKeyUnder_eq_ok hd⟩

/-- One more link at the lower end. -/
theorem unlockDown_append (key : Key) (links : List Link) (link : Link) :
    ∃ more, unlockDown key (links ++ [link]) =
        ((unlockDown key links).1 ++ more, nodeKeyUnder (unlockDown key links).2 link) ∧
      ∀ put ∈ more, put.1 = link.id ∧ nodeKeyUnder (unlockDown key links).2 link = .ok put.2 := by
  induction links generalizing key with
  | nil =>
      obtain ⟨puts, hrun, hputs⟩ := unlockDown_singleton key link
      exact ⟨puts, by simpa [unlockDown] using hrun, hputs⟩
  | cons upper links ih =>
      simp only [List.cons_append, unlockDown]
      cases decryptLink key upper with
      | error e => exact ⟨[], by simp, by simp⟩
      | ok d =>
          obtain ⟨more, hrun, hmore⟩ := ih d.nodeKey
          exact ⟨more, by simp [hrun], hmore⟩

/-- Unlocking the server's chain downward gives the plain key of its lower end, and puts plain keys
into the cache. -/
theorem descend_plain {env : Env} {depth : LinkId → Nat} {fuel : Nat} (h : env.Sound depth fuel)
    (link : Link) {x : LinkId} {above : List Link} {base : Option Key}
    (hasc : Ascends env.server env.folderKeys x above base) :
    ∃ puts, env.descend link (.ok (above, base)) =
        (puts, plainKey env.server env.rootLinkShareKey fuel x) ∧
      ∀ put ∈ puts, plainKey env.server env.rootLinkShareKey fuel put.1 = .ok put.2 := by
  induction hasc with
  | known hk =>
      refine ⟨[], ?_, by simp⟩
      rw [h.keys hk]
      rfl
  | @root x l hk hx hp =>
      have hid : l.id = x := h.tree.id_eq hx
      have hplain : plainKey env.server env.rootLinkShareKey fuel x =
          nodeKeyUnder (env.rootLinkShareKey l.id) l := by
        simp only [plainKey, hx, plainParentKey_root hp]
      have hbase : env.baseKey link [l] none = env.rootLinkShareKey l.id := by
        simp [Env.baseKey, h.own]
      simp only [Env.descend, hbase]
      cases hshare : env.rootLinkShareKey l.id with
      | error e =>
          rw [hshare] at hplain
          exact ⟨[], by rw [hplain]; rfl, by simp⟩
      | ok key =>
          rw [hshare] at hplain
          obtain ⟨puts, hrun, hputs⟩ := unlockDown_singleton key l
          refine ⟨puts, by rw [hplain]; exact hrun, ?_⟩
          intro put hput
          obtain ⟨hput1, hput2⟩ := hputs put hput
          rw [hput1, hid, hplain, hput2]
  | @up x l p above base hk hx hp habove ih =>
      have hid : l.id = x := h.tree.id_eq hx
      obtain ⟨puts, hdesc, hputs⟩ := ih
      have hplain : plainKey env.server env.rootLinkShareKey fuel x =
          nodeKeyUnder (plainKey env.server env.rootLinkShareKey fuel p) l := by
        rw [plainKey, hx, ← h.plainParentKey_eq hp (by rw [hid]; exact hx)]
      -- The topmost link, and with it the base key, is that of the chain above.
      have hbase : env.baseKey link (l :: above) base = env.baseKey link above base := by
        cases habove with
        | known _ => rfl
        | root _ _ _ => rfl
        | up _ _ _ hrest => cases base <;> simp [Env.baseKey]
      simp only [Env.descend] at hdesc ⊢
      rw [hbase]
      cases hkey : env.baseKey link above base with
      | error e =>
          rw [hkey] at hdesc
          obtain ⟨rfl, hp'⟩ := Prod.mk.inj hdesc
          exact ⟨[], by rw [hplain, ← hp']; rfl, by simp⟩
      | ok key =>
          rw [hkey] at hdesc
          dsimp only at hdesc ⊢
          obtain ⟨more, hrun, hmore⟩ := unlockDown_append key above.reverse l
          refine ⟨puts ++ more, ?_, ?_⟩
          · rw [List.reverse_cons, hrun, hdesc, hplain]
          · intro put hput
            rcases List.mem_append.mp hput with hput | hput
            · exact hputs put hput
            · obtain ⟨hput1, hput2⟩ := hmore put hput
              rw [hdesc] at hput2
              rw [hput1, hid, hplain, hput2]

/-- **With sound caches the walk returns the plain key**, and keeps the key cache sound. -/
theorem walk_plain {env : Env} {depth : LinkId → Nat} {fuel : Nat} (h : env.Sound depth fuel)
    {link : Link} (hlink : env.server link.id = some link) :
    ∃ puts, env.resolveParentKeyWalk fuel link =
        some (puts, plainParentKey env.server env.rootLinkShareKey fuel link) ∧
      ∀ put ∈ puts, plainKey env.server env.rootLinkShareKey fuel put.1 = .ok put.2 := by
  cases hp : link.parentId with
  | none =>
      refine ⟨[], ?_, by simp⟩
      rw [plainParentKey_root hp]
      simp only [Env.resolveParentKeyWalk, hp, Env.descend, Env.baseKey, h.own, Bool.false_eq_true,
        if_false, List.getLast?_nil, Option.map_none, Option.getD_none]
      cases env.rootLinkShareKey link.id with
      | error e => rfl
      | ok key => rfl
  | some p =>
      obtain ⟨⟨parent, hparent⟩, hlt⟩ := h.tree.parent hlink hp
      obtain ⟨above, base, hasc⟩ := h.tree.ascends env.folderKeys hparent
      -- The links above are no more than the depth allows.
      have hfuel : above.length < fuel := by
        have hlen := hasc.length_le h.tree
        have hdepth := h.shallow hlink
        omega
      have hclimb := climb_of_honest h.tree hasc (fun _ => h.honest _) [] hfuel
      obtain ⟨puts, hdesc, hputs⟩ := descend_plain h link hasc
      refine ⟨puts, ?_, hputs⟩
      rw [List.nil_append] at hclimb
      simp only [Env.resolveParentKeyWalk, hp, hclimb, Option.map_some, hdesc]
      rw [h.plainParentKey_eq hp hlink]

/-! ## Whatever the caches say -/

/-- Every key that a descent puts into the cache is the key locked in its link. -/
theorem unlockDown_puts {key : Key} {links : List Link} {put : LinkId × Key}
    (h : put ∈ (unlockDown key links).1) : ∃ l ∈ links, put = (l.id, l.key.key) := by
  induction links generalizing key with
  | nil => cases h
  | cons link below ih =>
      unfold unlockDown at h
      split at h
      · cases h
      · next d hd =>
        rcases List.mem_cons.mp h with rfl | h
        · exact ⟨link, by simp, by rw [decryptLink_nodeKey hd]⟩
        · obtain ⟨l, hl, hput⟩ := ih h
          exact ⟨l, List.mem_cons_of_mem _ hl, hput⟩

theorem unlockDown_eq_ok {key k : Key} {upper : List Link} {link : Link}
    (h : (unlockDown key (upper ++ [link])).2 = .ok k) : k = link.key.key := by
  obtain ⟨more, hrun, -⟩ := unlockDown_append key upper link
  rw [hrun] at h
  obtain ⟨above, -, h⟩ := Except.bind_eq_ok.mp h
  obtain ⟨d, hd, h⟩ := Except.bind_eq_ok.mp h
  cases h
  exact decryptLink_nodeKey hd

/-- The first link of a climb is the one it started at. -/
theorem climb_head {env : Env} {fuel : Nat} {x : LinkId} {all : List Link} {base : Option Key}
    (h : env.climb fuel x [] = some (.ok (all, base))) (hk : env.folderKeys x = none) :
    ∃ l above, env.server x = some l ∧ all = l :: above := by
  cases fuel with
  | zero => cases h
  | succ fuel =>
      unfold Env.climb at h
      rw [hk] at h
      dsimp only at h
      split at h
      · cases h
      · next links hcol =>
        -- The first link that is collected is the one asked for.
        obtain ⟨l, rest, hl, rfl⟩ : ∃ l rest, env.server x = some l ∧ links = l :: rest := by
          cases collect_eq_ok hcol with
          | cons hl _ => exact ⟨_, _, hl, rfl⟩
        split at h
        · cases h
          exact ⟨l, rest, hl, rfl⟩
        · obtain ⟨above, hall, -⟩ := climb_adds h
          exact ⟨l, rest ++ above, hl, by rw [hall]; rfl⟩

/-- A walk that succeeds below a parent has the key of that parent, from the cache or from its
link. -/
theorem walk_eq_ok {env : Env} {fuel : Nat} {link : Link} {puts : List (LinkId × Key)} {k : Key}
    {p : LinkId} (hp : link.parentId = some p)
    (h : env.resolveParentKeyWalk fuel link = some (puts, .ok k)) :
    env.folderKeys p = some k ∨ ∃ l, env.server p = some l ∧ k = l.key.key := by
  simp only [Env.resolveParentKeyWalk, hp] at h
  obtain ⟨c, hclimb, hdesc⟩ := Option.map_eq_some_iff.mp h
  cases c with
  | error e => cases hdesc
  | ok found =>
      obtain ⟨all, base⟩ := found
      cases hk : env.folderKeys p with
      | some key =>
          cases fuel with
          | zero => cases hclimb
          | succ fuel =>
              -- The key of the parent is cached, and nothing is opened.
              simp only [Env.climb, hk, Option.some.injEq, Except.ok.injEq, Prod.mk.injEq] at hclimb
              obtain ⟨rfl, rfl⟩ := hclimb
              cases hdesc
              exact .inl rfl
      | none =>
          -- The parent is the last link that is opened on the way down.
          obtain ⟨l, above, hl, rfl⟩ := climb_head hclimb hk
          refine .inr ⟨l, hl, ?_⟩
          simp only [Env.descend] at hdesc
          split at hdesc
          · cases hdesc
          · rw [List.reverse_cons] at hdesc
            exact unlockDown_eq_ok (congrArg Prod.snd hdesc)

theorem walk_puts {env : Env} {fuel : Nat} {link : Link} {puts : List (LinkId × Key)}
    {r : Except ProtonError Key} (h : env.resolveParentKeyWalk fuel link = some (puts, r)) :
    ∀ put ∈ puts, ∃ a l, env.server a = some l ∧ put = (l.id, l.key.key) := by
  intro put hput
  unfold Env.resolveParentKeyWalk at h
  -- The links of the descent all come from the server.
  have hdescend : ∀ all base, (∀ l ∈ all, ∃ a, env.server a = some l) →
      env.descend link (.ok (all, base)) = (puts, r) →
      ∃ a l, env.server a = some l ∧ put = (l.id, l.key.key) := by
    intro all base hall hdesc
    simp only [Env.descend] at hdesc
    split at hdesc
    · cases hdesc
      cases hput
    · next key _ =>
      have hmem : put ∈ (unlockDown key all.reverse).1 := by
        rw [hdesc]
        exact hput
      obtain ⟨l, hl, hput⟩ := unlockDown_puts hmem
      obtain ⟨a, ha⟩ := hall l (List.mem_reverse.mp hl)
      exact ⟨a, l, ha, hput⟩
  cases hp : link.parentId with
  | none =>
      rw [hp] at h
      exact hdescend [] none (by simp) (Option.some.inj h)
  | some p =>
      rw [hp] at h
      obtain ⟨c, hclimb, hdesc⟩ := Option.map_eq_some_iff.mp h
      cases c with
      | error e =>
          cases hdesc
          cases hput
      | ok found =>
          obtain ⟨all, base⟩ := found
          obtain ⟨above, rfl, hserver⟩ := climb_adds hclimb
          exact hdescend _ base (by simpa using hserver) hdesc

end ProtonDrive.KeyWalk
