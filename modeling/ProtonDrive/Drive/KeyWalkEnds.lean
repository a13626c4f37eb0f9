import ProtonDrive.Lib.Pursuit
import ProtonDrive.Drive.KeyWalk

/-!
# When the ancestor walk ends

`resolve_parent_key_walk` goes from batch to batch, each of them above the last link of the one
before, and remembers nothing of where it has been. A batch that names an ancestor twice fails, as a
link is taken out of the response when it is used; between batches there is no such check.

* `RunsIntoCycle` — the walk comes to an ancestor again, in the same batch or in a later one.
* `endsWell_iff` — the walk returns, and with an error if it runs into a cycle, exactly if no batch
  starts where another one has started and the walk does not get down through an ancestor that two
  batches have.
* `Env.Reopens.full` — the second only happens past a full batch of cached ancestors.
-/

namespace ProtonDrive.KeyWalk

open OpenPgp Pursuit

/-! ## Cycles -/

/-- The links of the batch that starts at `x`. -/
def Env.batch (env : Env) (x : LinkId) : Except ProtonError (List Link) :=
  collect env.server (env.cachedAncestorRun x) []

/-- Where the batch after the one at `x` starts, if there is one. -/
def Env.nextHead (env : Env) (x : LinkId) : Option LinkId :=
  match env.folderKeys x, env.batch x with
  | none, .ok links => links.getLast?.bind Link.parentId
  | _, _ => none

/-- The ancestors that the walk asks for when it is at `x`. -/
def Env.asked (env : Env) (x : LinkId) : List LinkId :=
  if (env.folderKeys x).isSome then [] else env.cachedAncestorRun x

/-- The walk from `p` asks for one ancestor in two batches. -/
def Env.AsksAgain (env : Env) (p : LinkId) : Prop :=
  ∃ i j x y a, i < j ∧ after env.nextHead i p = some x ∧ after env.nextHead j p = some y ∧
    a ∈ env.asked x ∧ a ∈ env.asked y

/-- The walk comes to an ancestor that it has met, in the same batch or in an earlier one. -/
def RunsIntoCycle (env : Env) (link : Link) : Prop :=
  ∃ p, link.parentId = some p ∧
    ((∃ i x, after env.nextHead i p = some x ∧ ¬ (env.asked x).Nodup) ∨ env.AsksAgain p)

/-- The walk returns, and with an error if it runs into a cycle. -/
def EndsWell (env : Env) (link : Link) : Prop :=
  ∃ r, Returns env link r ∧ (RunsIntoCycle env link → ∃ e, r.2 = .error e)

/-- The links of the batches from `x` on, nearest first, and the key above them if it is known. -/
inductive Env.Climbs (env : Env) : LinkId → List Link → Option Key → Prop where
  | known {x key} (hk : env.folderKeys x = some key) : env.Climbs x [] (some key)
  | top {x links} (hk : env.folderKeys x = none) (hlinks : env.batch x = .ok links)
      (hp : links.getLast?.bind Link.parentId = none) : env.Climbs x links none
  | next {x links p above base} (hk : env.folderKeys x = none) (hlinks : env.batch x = .ok links)
      (hp : links.getLast?.bind Link.parentId = some p) (habove : env.Climbs p above base) :
      env.Climbs x (links ++ above) base

/-- Each of the links opens with the key above it, the topmost, which is the first, with `key`. -/
def Opens : Key → List Link → Prop
  | _, [] => True
  | key, link :: below => ∃ d, decryptLink key link = .ok d ∧ Opens d.nodeKey below

/-- The way down from the top is open, though some ancestor is on it twice. -/
def Env.Reopens (env : Env) (link : Link) (p : LinkId) : Prop :=
  env.AsksAgain p ∧ ∃ ancestry base key, env.Climbs p ancestry base ∧
    env.baseKey link ancestry base = .ok key ∧ Opens key ancestry.reverse

/-! ## One batch -/

section Batch

variable {env : Env} {x p : LinkId} {links : List Link} {key : Key}

theorem Env.nextHead_of_known (hk : env.folderKeys x = some key) : env.nextHead x = none := by
  unfold Env.nextHead
  rw [hk]

theorem Env.nextHead_eq_some :
    env.nextHead x = some p ↔ env.folderKeys x = none ∧
      ∃ links, env.batch x = .ok links ∧ links.getLast?.bind Link.parentId = some p := by
  unfold Env.nextHead
  constructor
  · intro h
    split at h
    · next links hk hlinks => exact ⟨hk, links, hlinks, h⟩
    · cases h
  · rintro ⟨hk, links, hlinks, hp⟩
    rw [hk, hlinks]
    exact hp

/-- A batch that goes on starts at a link of the server. -/
theorem Env.server_of_nextHead (h : env.nextHead x = some p) : (env.server x).isSome = true := by
  obtain ⟨-, links, hlinks, -⟩ := Env.nextHead_eq_some.mp h
  have hall := collect_eq_ok hlinks
  unfold Env.cachedAncestorRun at hall
  cases hall with
  | cons hx _ => rw [hx]; rfl

theorem Env.finitely_nextHead (hfin : Finitely env.server) : Finitely env.nextHead := by
  apply hfin.subset
  intro x hx
  obtain ⟨p, hp⟩ := Option.isSome_iff_exists.mp hx
  exact Env.server_of_nextHead hp

/-- A link is taken out of the response, so no id of a good batch comes twice. -/
theorem collect_nodup {server : Links} {run used : List LinkId} {links : List Link}
    (h : collect server run used = .ok links) : run.Nodup ∧ ∀ a ∈ run, a ∉ used := by
  induction run generalizing used links with
  | nil => exact ⟨List.nodup_nil, by simp⟩
  | cons a run ih =>
      unfold collect at h
      split at h
      · cases h
      · next l hl =>
        cases hrest : collect server run (a :: used) with
        | error e => rw [hrest] at h; cases h
        | ok rest =>
            obtain ⟨hnodup, hnew⟩ := ih hrest
            have ha : a ∉ used := by
              intro ha
              rw [if_pos ha] at hl
              cases hl
            refine ⟨List.nodup_cons.mpr ⟨?_, hnodup⟩, ?_⟩
            · -- Every link that was answered is marked as used for the rest of the run.
              exact fun hmem => hnew a hmem List.mem_cons_self
            · intro b hb
              rcases List.mem_cons.mp hb with rfl | hb
              · exact ha
              · exact fun hused => hnew b hb (List.mem_cons_of_mem _ hused)

end Batch

/-! ## The climb -/

section Climb

variable {env : Env} {x p : LinkId} {links ancestry above : List Link} {base : Option Key}
  {key : Key} {e : ProtonError}

theorem climb_known (hk : env.folderKeys x = some key) (fuel : Nat) :
    env.climb (fuel + 1) x ancestry = some (.ok (ancestry, some key)) := by
  rw [Env.climb, hk]

theorem climb_error (hk : env.folderKeys x = none) (hlinks : env.batch x = .error e)
    (fuel : Nat) : env.climb (fuel + 1) x ancestry = some (.error e) := by
  unfold Env.batch at hlinks
  rw [Env.climb, hk, hlinks]

theorem climb_top (hk : env.folderKeys x = none) (hlinks : env.batch x = .ok links)
    (hp : links.getLast?.bind Link.parentId = none) (fuel : Nat) :
    env.climb (fuel + 1) x ancestry = some (.ok (ancestry ++ links, none)) := by
  unfold Env.batch at hlinks
  rw [Env.climb, hk, hlinks]
  dsimp only
  rw [hp]

theorem climb_next (hk : env.folderKeys x = none) (hlinks : env.batch x = .ok links)
    (hp : links.getLast?.bind Link.parentId = some p) (fuel : Nat) :
    env.climb (fuel + 1) x ancestry = env.climb fuel p (ancestry ++ links) := by
  unfold Env.batch at hlinks
  rw [Env.climb, hk, hlinks]
  dsimp only
  rw [hp]

/-- A climb is over where there is no next batch. -/
theorem climb_of_nextHead_none (h : env.nextHead x = none) :
    ∃ r, ∀ fuel, env.climb (fuel + 1) x ancestry = some r := by
  cases hk : env.folderKeys x with
  | some key => exact ⟨_, climb_known hk⟩
  | none =>
      cases hlinks : env.batch x with
      | error e => exact ⟨_, climb_error hk hlinks⟩
      | ok links =>
          refine ⟨_, climb_top hk hlinks ?_⟩
          by_contra hp
          obtain ⟨p, hp⟩ := Option.ne_none_iff_exists'.mp hp
          rw [Env.nextHead_eq_some.mpr ⟨hk, links, hlinks, hp⟩] at h
          cases h

/-- The climb returns exactly if its batches end. -/
theorem climb_returns_iff :
    (∃ fuel r, env.climb fuel x ancestry = some r) ↔ Ends env.nextHead x := by
  constructor
  · rintro ⟨fuel, r, h⟩
    -- A climb that returns has walked up to a link without a next one.
    induction fuel generalizing x ancestry with
    | zero => cases h
    | succ fuel ih =>
        cases hx : env.nextHead x with
        | none => exact .of_none hx
        | some p =>
            obtain ⟨hk, links, hlinks, hp⟩ := Env.nextHead_eq_some.mp hx
            rw [climb_next hk hlinks hp] at h
            exact (ends_next hx).mpr (ih h)
  · intro h
    revert ancestry
    apply h.rec_next
    · intro x hx ancestry
      obtain ⟨r, hr⟩ := climb_of_nextHead_none hx
      exact ⟨1, r, hr 0⟩
    · intro x p hx ih ancestry
      obtain ⟨hk, links, hlinks, hp⟩ := Env.nextHead_eq_some.mp hx
      obtain ⟨fuel, r, hr⟩ := @ih (ancestry ++ links)
      exact ⟨fuel + 1, r, by rw [climb_next hk hlinks hp, hr]⟩

theorem climb_ok {fuel : Nat} {all : List Link}
    (h : env.climb fuel x ancestry = some (.ok (all, base))) :
    ∃ above, all = ancestry ++ above ∧ env.Climbs x above base := by
  induction fuel generalizing x ancestry with
  | zero => cases h
  | succ fuel ih =>
      cases hk : env.folderKeys x with
      -- A cached key, the root, or a parent to go on from.
      | some key =>
          rw [climb_known hk] at h
          cases h
          exact ⟨[], by simp, .known hk⟩
      | none =>
          cases hlinks : env.batch x with
          | error e => rw [climb_error hk hlinks] at h; cases h
          | ok links =>
              cases hp : links.getLast?.bind Link.parentId with
              | none =>
                  rw [climb_top hk hlinks hp] at h
                  cases h
                  exact ⟨links, rfl, .top hk hlinks hp⟩
              | some p =>
                  rw [climb_next hk hlinks hp] at h
                  obtain ⟨above, rfl, habove⟩ := ih h
                  exact ⟨links ++ above, List.append_assoc .., .next hk hlinks hp habove⟩

theorem Env.Climbs.climb (h : env.Climbs x above base) :
    ∃ fuel, env.climb fuel x ancestry = some (.ok (ancestry ++ above, base)) := by
  induction h generalizing ancestry with
  | known hk => exact ⟨1, by rw [climb_known hk, List.append_nil]⟩
  | top hk hlinks hp => exact ⟨1, climb_top hk hlinks hp 0⟩
  | next hk hlinks hp _ ih =>
      obtain ⟨fuel, hfuel⟩ := @ih (ancestry ++ _)
      exact ⟨fuel + 1, by rw [climb_next hk hlinks hp, hfuel, List.append_assoc]⟩

/-- Every batch of a climb that finds its way is good. -/
theorem Env.Climbs.batch_ok (h : env.Climbs x above base) {i : Nat} {y : LinkId}
    (hy : after env.nextHead i x = some y) (hk : env.folderKeys y = none) :
    ∃ links, env.batch y = .ok links := by
  induction h generalizing i with
  | known hk' =>
      -- The climb ends where a key is cached, and `y` has none.
      obtain rfl := eq_of_after (Env.nextHead_of_known hk') hy
      rw [hk] at hk'
      cases hk'
  | @top x links hk' hlinks hp =>
      have hnone : env.nextHead x = none := by
        unfold Env.nextHead
        rw [hk', hlinks]
        exact hp
      obtain rfl := eq_of_after hnone hy
      exact ⟨links, hlinks⟩
  | @next x links p above base hk' hlinks hp _ ih =>
      cases i with
      | zero =>
          cases hy
          exact ⟨links, hlinks⟩
      | succ i =>
          rw [after_succ, Env.nextHead_eq_some.mpr ⟨hk', links, hlinks, hp⟩] at hy
          exact ih hy

theorem Env.Climbs.asked_nodup (h : env.Climbs x above base) {i : Nat} {y : LinkId}
    (hy : after env.nextHead i x = some y) : (env.asked y).Nodup := by
  unfold Env.asked
  split
  · exact List.nodup_nil
  · next hk =>
    obtain ⟨links, hlinks⟩ := h.batch_ok hy (by simpa using hk)
    exact (collect_nodup hlinks).1

end Climb

/-! ## The way down -/

theorem opens_iff {key : Key} {links : List Link} :
    Opens key links ↔ ∃ k, (unlockDown key links).2 = .ok k := by
  induction links generalizing key with
  | nil => exact ⟨fun _ => ⟨key, rfl⟩, fun _ => trivial⟩
  | cons link below ih =>
      unfold Opens unlockDown
      cases hd : decryptLink key link with
      | error e => simp
      | ok d =>
          simpa using @ih d.nodeKey

theorem descend_ok_iff {env : Env} {link : Link} {ancestry : List Link} {base : Option Key} :
    (∃ k, (env.descend link (.ok (ancestry, base))).2 = .ok k) ↔
      ∃ key, env.baseKey link ancestry base = .ok key ∧ Opens key ancestry.reverse := by
  unfold Env.descend
  dsimp only
  cases hkey : env.baseKey link ancestry base with
  | error e => simp
  | ok key =>
      rw [← opens_iff]
      simp

/-! ## Two batches with one ancestor

Short of a full batch, a run goes on to where the entity cache knows no further, and from one
ancestor this is always the same place. -/

section Shared

variable {env : Env} {x y p a : LinkId} {links : List Link}

theorem mem_runAbove {room : Nat} (h : a ∈ x :: env.runAbove room x) :
    ∃ k, after env.cachedHop k x = some a := by
  induction room generalizing x with
  | zero =>
      obtain rfl := List.mem_singleton.mp h
      exact ⟨0, rfl⟩
  | succ room ih =>
      rcases List.mem_cons.mp h with rfl | h
      · exact ⟨0, rfl⟩
      · unfold Env.runAbove at h
        split at h
        · next q hq =>
          obtain ⟨k, hk⟩ := ih h
          exact ⟨k + 1, by rw [after_succ, hq]; exact hk⟩
        · cases h

theorem runAbove_stops {room : Nat} (h : (env.runAbove room x).length < room) :
    ∃ e, (x :: env.runAbove room x).getLast? = some e ∧ Stops env.cachedHop x e := by
  induction room generalizing x with
  | zero => exact absurd h (Nat.not_lt_zero _)
  | succ room ih =>
      unfold Env.runAbove at h ⊢
      cases hq : env.cachedHop x with
      | none => exact ⟨x, rfl, 0, rfl, hq⟩
      | some q =>
          rw [hq] at h
          obtain ⟨e, hlast, n, hn, he⟩ := ih (Nat.lt_of_succ_lt_succ h)
          refine ⟨e, ?_, n + 1, ?_, he⟩
          · rw [← hlast]
            exact List.getLast?_cons_of_ne_nil (List.cons_ne_nil q _)
          · rw [after_succ, hq]
            exact hn

theorem collect_last {server : Links} {run : List LinkId} {e : LinkId}
    (h : List.Forall₂ (fun a l => server a = some l) run links) (he : run.getLast? = some e) :
    links.getLast? = server e := by
  induction h with
  | nil => cases he
  | @cons a l run links hl hrest ih =>
      cases hrest with
      | nil =>
          cases he
          exact hl.symm
      | cons hl' hrest' =>
          rw [List.getLast?_cons_of_ne_nil (List.cons_ne_nil _ _)] at he ⊢
          exact ih he

/-- Where a batch that is not full goes on is a matter of where its run stops. -/
theorem nextHead_of_stops (hk : env.folderKeys x = none) (hlinks : env.batch x = .ok links)
    (hroom : (env.asked x).length < maxBatchCount) :
    ∃ e, Stops env.cachedHop x e ∧ env.nextHead x = (env.server e).bind Link.parentId := by
  have hrun : env.asked x = x :: env.runAbove (maxBatchCount - 1) x := by
    rw [Env.asked, hk]
    rfl
  rw [hrun, List.length_cons] at hroom
  obtain ⟨e, hlast, hstops⟩ := runAbove_stops (Nat.lt_sub_of_add_lt hroom)
  refine ⟨e, hstops, ?_⟩
  have hfrom : links.getLast? = env.server e := collect_last (collect_eq_ok hlinks) hlast
  unfold Env.nextHead
  rw [hk, hlinks]
  dsimp only
  rw [hfrom]

/-- An ancestor in two batches that are not full brings the walk back to where it was. -/
theorem Env.Climbs.comesBack {ancestry : List Link} {base : Option Key}
    (h : env.Climbs p ancestry base) (hagain : env.AsksAgain p)
    (hroom : ∀ i x, after env.nextHead i p = some x → (env.asked x).length < maxBatchCount) :
    ComesBack env.nextHead p := by
  obtain ⟨i, j, x, y, a, hij, hx, hy, hax, hay⟩ := hagain
  have hgood : ∀ {i z}, after env.nextHead i p = some z → a ∈ env.asked z →
      ∃ e, Stops env.cachedHop a e ∧ env.nextHead z = (env.server e).bind Link.parentId := by
    intro i z hz haz
    have hk : env.folderKeys z = none := by
      by_contra hk
      rw [Env.asked, if_pos (Option.isSome_iff_ne_none.mpr hk)] at haz
      cases haz
    obtain ⟨links, hlinks⟩ := h.batch_ok hz hk
    obtain ⟨e, hstops, hnext⟩ := nextHead_of_stops hk hlinks (hroom i z hz)
    rw [Env.asked, hk] at haz
    obtain ⟨k, hka⟩ := mem_runAbove haz
    exact ⟨e, hstops.of_after hka, hnext⟩
  obtain ⟨e, hstops, hnextx⟩ := hgood hx hax
  obtain ⟨e', hstops', hnexty⟩ := hgood hy hay
  obtain rfl := hstops.unique hstops'
  -- Both batches go on at the same place, and the first one does go on.
  have hsame : after env.nextHead (i + 1) p = after env.nextHead (j + 1) p := by
    rw [after_succ_last, after_succ_last, hx, hy, Option.bind_some, Option.bind_some, hnextx,
      hnexty]
  cases hq : after env.nextHead (i + 1) p with
  | some q => exact ⟨i + 1, j + 1, q, by omega, hq, by rw [← hsame, hq]⟩
  | none =>
      obtain ⟨k, rfl⟩ := Nat.exists_eq_add_of_lt hij
      rw [show i + k + 1 = i + 1 + k by omega, after_add, hq] at hy
      cases hy

/-- Unless the batches come back, it takes a full one to get down through an ancestor twice. -/
theorem Env.Reopens.full {link : Link} (h : env.Reopens link p)
    (hback : ¬ ComesBack env.nextHead p) :
    ∃ i x, after env.nextHead i p = some x ∧ maxBatchCount ≤ (env.asked x).length := by
  obtain ⟨hagain, ancestry, base, key, hclimbs, -⟩ := h
  by_contra hnone
  refine hback (hclimbs.comesBack hagain ?_)
  intro i x hx
  by_contra hge
  exact hnone ⟨i, x, hx, Nat.le_of_not_lt hge⟩

end Shared

/-! ## When the walk ends well -/

section Walk

variable {env : Env} {link : Link} {p : LinkId}

/-- The walk returns exactly if there is nothing to climb or the climb ends. -/
theorem returns_iff :
    (∃ r, Returns env link r) ↔ ∀ p, link.parentId = some p → Ends env.nextHead p := by
  unfold Returns Env.resolveParentKeyWalk
  cases hp : link.parentId with
  | none => simp
  | some p =>
      have hclimb : (∃ fuel r, env.climb fuel p [] = some r) ↔ Ends env.nextHead p :=
        climb_returns_iff
      constructor
      · rintro ⟨r, fuel, hr⟩ q hq
        cases hq
        obtain ⟨c, hc, -⟩ := Option.map_eq_some_iff.mp hr
        exact hclimb.mp ⟨fuel, c, hc⟩
      · intro hends
        obtain ⟨fuel, c, hc⟩ := hclimb.mpr (hends p rfl)
        exact ⟨env.descend link c, fuel, by dsimp only; rw [hc]; rfl⟩

/-- The walk finds a key exactly if the climb finds its way and all links open on the way down. -/
theorem returns_ok_iff (hp : link.parentId = some p) :
    (∃ puts k, Returns env link (puts, .ok k)) ↔
      ∃ ancestry base key, env.Climbs p ancestry base ∧
        env.baseKey link ancestry base = .ok key ∧ Opens key ancestry.reverse := by
  unfold Returns Env.resolveParentKeyWalk
  rw [hp]
  constructor
  · rintro ⟨puts, k, fuel, hr⟩
    obtain ⟨c, hc, hdescend⟩ := Option.map_eq_some_iff.mp hr
    -- What the climb finds is opened from the top down.
    cases c with
    | error e => cases hdescend
    | ok found =>
        obtain ⟨all, base⟩ := found
        obtain ⟨ancestry, hall, hclimbs⟩ := climb_ok hc
        obtain rfl : all = ancestry := hall
        obtain ⟨key, hkey, hopens⟩ := descend_ok_iff.mp ⟨k, congrArg Prod.snd hdescend⟩
        exact ⟨all, base, key, hclimbs, hkey, hopens⟩
  · rintro ⟨ancestry, base, key, hclimbs, hkey, hopens⟩
    obtain ⟨fuel, hfuel⟩ : ∃ fuel, env.climb fuel p [] = some (.ok (ancestry, base)) :=
      hclimbs.climb
    obtain ⟨k, hk⟩ := descend_ok_iff.mpr ⟨key, hkey, hopens⟩
    refine ⟨(env.descend link (.ok (ancestry, base))).1, k, fuel, ?_⟩
    dsimp only
    rw [hfuel, ← hk]
    rfl

/-- **The key walk.** It ends well exactly if the batches above the link do not come back to where
one has started, and if it does not get down through an ancestor that two batches have. -/
theorem endsWell_iff (hfin : Finitely env.server) :
    EndsWell env link ↔
      ∀ p, link.parentId = some p → ¬ ComesBack env.nextHead p ∧ ¬ env.Reopens link p := by
  constructor
  · rintro ⟨r, hr, herror⟩ p hp
    refine ⟨fun hback => hback.not_ends (returns_iff.mp ⟨r, hr⟩ p hp), ?_⟩
    rintro ⟨hagain, hfound⟩
    obtain ⟨e, he⟩ := herror ⟨p, hp, .inr hagain⟩
    obtain ⟨puts, k, hok⟩ := (returns_ok_iff hp).mpr hfound
    rw [hr.unique hok] at he
    cases he
  · intro h
    obtain ⟨r, hr⟩ : ∃ r, Returns env link r := returns_iff.mpr
      -- Without coming back the walk over finitely many links ends.
      (fun p hp => ends_of_not_comesBack (Env.finitely_nextHead hfin) (h p hp).1)
    refine ⟨r, hr, ?_⟩
    rintro ⟨p, hp, hcycle⟩
    obtain ⟨puts, k | k⟩ := r
    · exact ⟨k, rfl⟩
    · obtain ⟨ancestry, base, key, hclimbs, hkey, hopens⟩ := (returns_ok_iff hp).mp ⟨puts, k, hr⟩
      -- The walk has met a link twice in one run, or once more after the run.
      rcases hcycle with ⟨i, x, hx, htwice⟩ | hagain
      · exact absurd (hclimbs.asked_nodup hx) htwice
      · exact absurd ⟨hagain, ancestry, base, key, hclimbs, hkey, hopens⟩ (h p hp).2

end Walk

end ProtonDrive.KeyWalk
