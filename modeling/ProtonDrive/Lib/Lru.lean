import Mathlib.Data.List.Nodup

/-!
# Least recently used

A bounded map that drops the entry that has not been used for longest, as the list of its entries,
the most recently used first.

* `touch`, `erase`, `insert` — what the operations do to that list.
* `LruCache` — an implementation is anything that shows such a list; `listCache` is the list itself.
-/

namespace Lru

variable {κ ν : Type} [DecidableEq κ]

/-- Without the entry of a key. -/
def erase (l : List (κ × ν)) (k : κ) : List (κ × ν) := l.filter (fun e => e.1 ≠ k)

/-- A use brings the entry of a key to the front. -/
def touch (l : List (κ × ν)) (k : κ) : List (κ × ν) :=
  match l.lookup k with
  | none => l
  | some v => (k, v) :: erase l k

/-- A new value comes to the front, and what does not fit any more is dropped from the back. -/
def insert (capacity : Nat) (l : List (κ × ν)) (k : κ) (v : ν) : List (κ × ν) :=
  ((k, v) :: erase l k).take capacity

/-- The entry that a new value replaces or drives out. -/
def displaced (capacity : Nat) (l : List (κ × ν)) (k : κ) : Option (κ × ν) :=
  match l.lookup k with
  | some old => some (k, old)
  | none => if l.length < capacity then none else l.getLast?

/-- `lookup` decides on the equality of keys. -/
theorem lookup_cons_ite (k j : κ) (v : ν) (l : List (κ × ν)) :
    ((k, v) :: l).lookup j = if j = k then some v else l.lookup j := by
  rw [List.lookup_cons]
  by_cases hjk : j = k
  · rw [if_pos hjk, beq_iff_eq.mpr hjk]
  · rw [if_neg hjk, beq_eq_false_iff_ne.mpr hjk]

theorem lookup_erase (l : List (κ × ν)) (k j : κ) :
    (erase l k).lookup j = if j = k then none else l.lookup j := by
  induction l with
  | nil => simp [erase]
  | cons e l ih =>
      obtain ⟨i, v⟩ := e
      by_cases hik : i = k
      · have hdrop : erase ((i, v) :: l) k = erase l k := by simp [erase, hik]
        rw [hdrop, ih, lookup_cons_ite, hik]
        split <;> rfl
      · have hkeep : erase ((i, v) :: l) k = (i, v) :: erase l k := by simp [erase, hik]
        rw [hkeep, lookup_cons_ite, lookup_cons_ite, ih]
        by_cases hji : j = i
        · rw [if_pos hji, if_pos hji, if_neg (hji ▸ hik)]
        · rw [if_neg hji, if_neg hji]

/-- A use does not change what is there. -/
theorem lookup_touch (l : List (κ × ν)) (k j : κ) : (touch l k).lookup j = l.lookup j := by
  unfold touch
  cases hk : l.lookup k with
  | none => rfl
  | some v =>
      dsimp only
      rw [lookup_cons_ite, lookup_erase]
      by_cases hjk : j = k
      · rw [if_pos hjk, hjk, hk]
      · rw [if_neg hjk, if_neg hjk]

end Lru

/-- An implementation of a map that drops its least recently used entry. -/
structure LruCache (κ ν : Type) [DecidableEq κ] where
  Cache : Type
  /-- The entries, the most recently used first. -/
  view : Cache → List (κ × ν)
  capacity : Cache → Nat
  new : Nat → Cache
  get : Cache → κ → Option ν × Cache
  peek : Cache → κ → Option ν
  push : Cache → κ → ν → Option (κ × ν) × Cache
  pop : Cache → κ → Cache
  clear : Cache → Cache
  view_new : ∀ n, view (new n) = []
  capacity_new : ∀ n, capacity (new n) = n
  get_fst : ∀ c k, (get c k).1 = (view c).lookup k
  view_get : ∀ c k, view (get c k).2 = Lru.touch (view c) k
  capacity_get : ∀ c k, capacity (get c k).2 = capacity c
  peek_eq : ∀ c k, peek c k = (view c).lookup k
  push_fst : ∀ c k v, (push c k v).1 = Lru.displaced (capacity c) (view c) k
  view_push : ∀ c k v, view (push c k v).2 = Lru.insert (capacity c) (view c) k v
  capacity_push : ∀ c k v, capacity (push c k v).2 = capacity c
  view_pop : ∀ c k, view (pop c k) = Lru.erase (view c) k
  capacity_pop : ∀ c k, capacity (pop c k) = capacity c
  view_clear : ∀ c, view (clear c) = []
  capacity_clear : ∀ c, capacity (clear c) = capacity c

/-- The list itself, with its capacity. -/
def Lru.listCache {κ ν : Type} [DecidableEq κ] : LruCache κ ν where
  Cache := Nat × List (κ × ν)
  view := Prod.snd
  capacity := Prod.fst
  new := fun n => (n, [])
  get := fun c k => (c.2.lookup k, c.1, Lru.touch c.2 k)
  peek := fun c k => c.2.lookup k
  push := fun c k v => (Lru.displaced c.1 c.2 k, c.1, Lru.insert c.1 c.2 k v)
  pop := fun c k => (c.1, Lru.erase c.2 k)
  clear := fun c => (c.1, [])
  view_new := fun _ => rfl
  capacity_new := fun _ => rfl
  get_fst := fun _ _ => rfl
  view_get := fun _ _ => rfl
  capacity_get := fun _ _ => rfl
  peek_eq := fun _ _ => rfl
  push_fst := fun _ _ _ => rfl
  view_push := fun _ _ _ => rfl
  capacity_push := fun _ _ _ => rfl
  view_pop := fun _ _ => rfl
  capacity_pop := fun _ _ => rfl
  view_clear := fun _ => rfl
  capacity_clear := fun _ => rfl
