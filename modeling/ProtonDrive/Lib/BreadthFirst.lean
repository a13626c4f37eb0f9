import Mathlib.Data.List.Nodup
import Mathlib.Data.Set.Finite.Basic
import Mathlib.Logic.Relation

/-!
# Breadth-first enumeration

Nodes with keys, some of them inner nodes, whose children are listed by their key. From a root the
nodes below it are enumerated level by level: the children of the root, the children of those of
them that are inner nodes, and so on.

* `InOrder` — a list has whole levels, one after the other, up to one without inner nodes. Such a
  list has exactly the nodes below the root (`InOrder.mem_iff`).
* `IsTree` — every node is listed once. In a tree such a list has no duplicates (`InOrder.nodup`),
  and if there are finitely many inner nodes, there is one (`IsTree.exists_frontier_eq_nil`).
* `complete_iff` — an enumeration that reads only a part of each listing is complete exactly if it
  reads each of them to its end.
-/

namespace BreadthFirst

variable {κ ν : Type} (kids sub : κ → List ν) (key : ν → κ) (inner : ν → Bool) (root : κ)

/-- The inner nodes that are listed after `depth` levels. -/
def frontier : (depth : Nat) → List κ
  | 0 => [root]
  | depth + 1 => (((frontier depth).flatMap kids).filter inner).map key

def level (depth : Nat) : List ν := (frontier kids key inner root depth).flatMap kids

/-- From an inner node to one that it lists. -/
def Into (k k' : κ) : Prop := ∃ x ∈ kids k, inner x ∧ key x = k'

def Reached (k : κ) : Prop := Relation.ReflTransGen (Into kids key inner) root k

def Below (x : ν) : Prop := ∃ k, Reached kids key inner root k ∧ x ∈ kids k

/-- Level by level; in a level, by the order of the nodes that list it. -/
def InOrder (found : List ν) : Prop :=
  ∃ depth, frontier kids key inner root depth = [] ∧
    found = (List.range depth).flatMap (level kids key inner root)

/-- Every node below the root is listed once, and the root is not among them. -/
structure IsTree : Prop where
  siblings : ∀ {k}, Reached kids key inner root k → ((kids k).map key).Nodup
  parent : ∀ {k k' x y}, Reached kids key inner root k → Reached kids key inner root k' →
    x ∈ kids k → y ∈ kids k' → key x = key y → k = k'
  root : ∀ {x}, Below kids key inner root x → key x ≠ root

/-- What an enumeration is to give. -/
structure Complete (found : List ν) : Prop where
  inOrder : InOrder kids key inner root found
  once : (found.map key).Nodup
  all : ∀ x, x ∈ found ↔ Below kids key inner root x

variable {kids sub key inner root} {k : κ} {x y : ν} {depth : Nat} {found : List ν}

/-! ## Levels -/

theorem mem_frontier_succ : k ∈ frontier kids key inner root (depth + 1) ↔
    ∃ p ∈ frontier kids key inner root depth, Into kids key inner p k := by
  simp only [frontier, List.mem_map, List.mem_filter, List.mem_flatMap]
  constructor
  · rintro ⟨x, ⟨⟨p, hp, hx⟩, hinner⟩, hkey⟩
    exact ⟨p, hp, x, hx, hinner, hkey⟩
  · rintro ⟨p, hp, x, hx, hinner, hkey⟩
    exact ⟨x, ⟨⟨p, hp, hx⟩, hinner⟩, hkey⟩

theorem mem_level : x ∈ level kids key inner root depth ↔
    ∃ k ∈ frontier kids key inner root depth, x ∈ kids k := List.mem_flatMap

theorem reached_of_mem_frontier (h : k ∈ frontier kids key inner root depth) :
    Reached kids key inner root k := by
  induction depth generalizing k with
  | zero =>
      cases List.mem_singleton.mp h
      exact .refl
  | succ depth ih =>
      obtain ⟨p, hp, hinto⟩ := mem_frontier_succ.mp h
      exact .tail (ih hp) hinto

theorem exists_frontier_of_reached (h : Reached kids key inner root k) :
    ∃ depth, k ∈ frontier kids key inner root depth := by
  induction h with
  | refl => exact ⟨0, List.mem_singleton_self root⟩
  | tail _ hinto ih =>
      obtain ⟨depth, hp⟩ := ih
      exact ⟨depth + 1, mem_frontier_succ.mpr ⟨_, hp, hinto⟩⟩

theorem below_of_mem_level (h : x ∈ level kids key inner root depth) :
    Below kids key inner root x := by
  obtain ⟨k, hk, hx⟩ := mem_level.mp h
  exact ⟨k, reached_of_mem_frontier hk, hx⟩

/-- After an empty level there are only empty ones. -/
theorem frontier_eq_nil_of_le {later : Nat} (h : frontier kids key inner root depth = [])
    (hle : depth ≤ later) : frontier kids key inner root later = [] := by
  induction hle with
  | refl => exact h
  | step _ ih =>
      unfold frontier
      rw [ih]
      rfl

theorem lt_of_mem_frontier {later : Nat} (h : frontier kids key inner root depth = [])
    (hk : k ∈ frontier kids key inner root later) : later < depth := by
  apply Nat.lt_of_not_le
  intro hle
  rw [frontier_eq_nil_of_le h hle] at hk
  cases hk

/-- **An enumeration in order** has exactly the nodes below the root. -/
theorem InOrder.mem_iff (h : InOrder kids key inner root found) :
    x ∈ found ↔ Below kids key inner root x := by
  obtain ⟨depth, hnil, rfl⟩ := h
  rw [List.mem_flatMap]
  constructor
  · rintro ⟨d, -, hx⟩
    exact below_of_mem_level hx
  · rintro ⟨k, hreached, hx⟩
    obtain ⟨d, hk⟩ := exists_frontier_of_reached hreached
    exact ⟨d, List.mem_range.mpr (lt_of_mem_frontier hnil hk), mem_level.mpr ⟨k, hk, hx⟩⟩

/-! ## Trees -/

namespace IsTree

variable (htree : IsTree kids key inner root)
include htree

/-- An inner node is in one level. -/
theorem depth_unique {d e : Nat} (hd : k ∈ frontier kids key inner root d)
    (he : k ∈ frontier kids key inner root e) : d = e := by
  -- By induction on one depth; equal keys have one parent, which is one level up in both.
  induction d generalizing k e with
  | zero =>
      cases e with
      | zero => rfl
      | succ e =>
          obtain ⟨p, hp, x, hx, -, hkey⟩ := mem_frontier_succ.mp he
          cases List.mem_singleton.mp hd
          exact absurd hkey (htree.root ⟨p, reached_of_mem_frontier hp, hx⟩)
  | succ d ih =>
      obtain ⟨p, hp, x, hx, -, hkey⟩ := mem_frontier_succ.mp hd
      cases e with
      | zero =>
          cases List.mem_singleton.mp he
          exact absurd hkey (htree.root ⟨p, reached_of_mem_frontier hp, hx⟩)
      | succ e =>
          obtain ⟨q, hq, y, hy, -, hkey'⟩ := mem_frontier_succ.mp he
          have hpq : p = q := htree.parent (reached_of_mem_frontier hp)
            (reached_of_mem_frontier hq) hx hy (hkey.trans hkey'.symm)
          cases hpq
          rw [ih hp hq]

/-- The children of different inner nodes are different. -/
theorem nodup_flatMap {ks : List κ} (hks : ks.Nodup)
    (hreached : ∀ k ∈ ks, Reached kids key inner root k) :
    ((ks.flatMap kids).map key).Nodup := by
  rw [List.map_flatMap, List.nodup_flatMap]
  refine ⟨fun k hk => htree.siblings (hreached k hk), ?_⟩
  apply hks.pairwise_of_forall_ne
  intro k hk k' hk' hne
  show List.Disjoint _ _
  intro a ha ha'
  obtain ⟨x, hx, rfl⟩ := List.mem_map.mp ha
  obtain ⟨y, hy, heq⟩ := List.mem_map.mp ha'
  exact hne (htree.parent (hreached k hk) (hreached k' hk') hx hy heq.symm)

theorem nodup_frontier (depth : Nat) : (frontier kids key inner root depth).Nodup := by
  induction depth with
  | zero => exact List.nodup_singleton root
  | succ depth ih =>
      have hlevel := htree.nodup_flatMap ih (fun k hk => reached_of_mem_frontier hk)
      exact hlevel.sublist (List.filter_sublist.map key)

/-- With finitely many inner nodes, the levels come to an end. -/
theorem exists_frontier_eq_nil (hfin : {k | Reached kids key inner root k}.Finite) :
    ∃ depth, frontier kids key inner root depth = [] := by
  apply Classical.byContradiction
  intro hex
  have hne : ∀ depth, ∃ k, k ∈ frontier kids key inner root depth := by
    intro depth
    apply List.exists_mem_of_ne_nil
    intro hnil
    exact hex ⟨depth, hnil⟩
  choose pick hpick using hne
  have hinj : Function.Injective pick := by
    intro d e heq
    have hd := hpick d
    rw [heq] at hd
    exact htree.depth_unique hd (hpick e)
  exact Set.infinite_of_injective_forall_mem hinj (fun d => reached_of_mem_frontier (hpick d)) hfin

end IsTree

/-- **An enumeration of a tree in order** has no duplicates. -/
theorem InOrder.nodup (h : InOrder kids key inner root found)
    (htree : IsTree kids key inner root) : (found.map key).Nodup := by
  obtain ⟨depth, -, rfl⟩ := h
  rw [List.map_flatMap, List.nodup_flatMap]
  constructor
  · intro d _
    exact htree.nodup_flatMap (htree.nodup_frontier d) (fun k hk => reached_of_mem_frontier hk)
  · apply List.nodup_range.pairwise_of_forall_ne
    intro d _ e _ hne
    show List.Disjoint _ _
    intro a ha ha'
    obtain ⟨x, hx, rfl⟩ := List.mem_map.mp ha
    obtain ⟨y, hy, heq⟩ := List.mem_map.mp ha'
    obtain ⟨p, hp, hxp⟩ := mem_level.mp hx
    obtain ⟨q, hq, hyq⟩ := mem_level.mp hy
    have hpq : p = q := htree.parent (reached_of_mem_frontier hp) (reached_of_mem_frontier hq) hxp
      hyq heq.symm
    cases hpq
    exact hne (htree.depth_unique hp hq)

/-! ## Reading a part of each listing -/

theorem Reached.mono (hsub : ∀ k, (sub k).Sublist (kids k)) (h : Reached sub key inner root k) :
    Reached kids key inner root k := by
  apply Relation.ReflTransGen.mono _ _ _ h
  rintro p q ⟨x, hx, hinner, hkey⟩
  exact ⟨x, (hsub p).subset hx, hinner, hkey⟩

theorem IsTree.mono (htree : IsTree kids key inner root)
    (hsub : ∀ k, (sub k).Sublist (kids k)) : IsTree sub key inner root where
  siblings {k} hk := (htree.siblings (hk.mono hsub)).sublist ((hsub k).map key)
  parent {k k' x y} hk hk' hx hy heq :=
    htree.parent (hk.mono hsub) (hk'.mono hsub) ((hsub k).subset hx) ((hsub k').subset hy) heq
  root {x} := by
    rintro ⟨k, hk, hx⟩
    exact htree.root ⟨k, hk.mono hsub, (hsub k).subset hx⟩

/-- The levels depend on the listings that are reached only. -/
theorem frontier_congr (h : ∀ k, Reached kids key inner root k → sub k = kids k) (depth : Nat) :
    frontier sub key inner root depth = frontier kids key inner root depth := by
  induction depth with
  | zero => rfl
  | succ depth ih =>
      have hlevel : (frontier kids key inner root depth).flatMap sub =
          (frontier kids key inner root depth).flatMap kids :=
        List.flatMap_congr (fun k hk => h k (reached_of_mem_frontier hk))
      unfold frontier
      rw [ih, hlevel]

theorem InOrder.congr (h : ∀ k, Reached kids key inner root k → sub k = kids k)
    (hfound : InOrder sub key inner root found) : InOrder kids key inner root found := by
  obtain ⟨depth, hnil, rfl⟩ := hfound
  refine ⟨depth, (frontier_congr h depth).symm.trans hnil, ?_⟩
  apply List.flatMap_congr
  intro d _
  unfold level
  rw [frontier_congr h d]
  exact List.flatMap_congr (fun k hk => h k (reached_of_mem_frontier hk))

/-- A listing of which every node is enumerated has been read to its end. -/
theorem eq_of_enumerated (htree : IsTree kids key inner root)
    (hsub : ∀ k, (sub k).Sublist (kids k)) (hall : ∀ x, Below kids key inner root x →
      Below sub key inner root x) (hk : Reached kids key inner root k) : sub k = kids k := by
  have hsubset : kids k ⊆ sub k := by
    intro x hx
    obtain ⟨k', hk', hx'⟩ := hall x ⟨k, hk, hx⟩
    have hkk' : k = k' := htree.parent hk (hk'.mono hsub) hx ((hsub k').subset hx') rfl
    rw [hkk']
    exact hx'
  have hnodup : (kids k).Nodup := (htree.siblings hk).of_map
  exact (hsub k).eq_of_length_le (hnodup.subperm hsubset).length_le

/-- **Reading a part of each listing** of a tree is complete exactly if each is read to its end. -/
theorem complete_iff (htree : IsTree kids key inner root)
    (hsub : ∀ k, (sub k).Sublist (kids k)) (hfound : InOrder sub key inner root found) :
    Complete kids key inner root found ↔ ∀ k, Reached kids key inner root k → sub k = kids k := by
  constructor
  · intro hcomplete k hk
    apply eq_of_enumerated htree hsub _ hk
    intro x hx
    exact hfound.mem_iff.mp ((hcomplete.all x).mpr hx)
  · intro h
    exact ⟨hfound.congr h, hfound.nodup (htree.mono hsub), fun x => (hfound.congr h).mem_iff⟩

end BreadthFirst
