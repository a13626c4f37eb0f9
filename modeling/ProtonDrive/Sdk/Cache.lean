import Mathlib.Data.Finset.Basic
import Mathlib.Data.Finset.Insert
import Mathlib.Data.Finset.Sort
import Mathlib.Data.List.Nodup
import Mathlib.Data.String.Basic
import ProtonDrive.Lib.Lru

/-!
# The cache repository

A bounded map from strings to strings whose entries carry tags. `InMemoryCacheRepository` keeps the
entries in an `LruCache`, and next to it the tags of each key and the keys of each tag.

* `Entries` — what the repository is for: a list of entries, the most recently used first.
* `Refines` — the three maps of the repository show such a list.
* `run_refines` — every sequence of operations is answered as on the list.
* `repository_isTaggedLru` — what this says about the three maps, and about the last value set.
* `getByTags_no_tags` — a query for no tags finds nothing.
-/

namespace ProtonDrive.Cache

/-! ## The repository -/

/-- The order in which a `HashSet` gives out its elements. Nothing is known of it. -/
structure HashOrder where
  iter : Finset String → List String
  nodup : ∀ s, (iter s).Nodup
  mem_iter : ∀ s a, a ∈ iter s ↔ a ∈ s

structure InMemoryState (L : LruCache String String) where
  entries : L.Cache
  keyToTags : String → Option (Finset String)
  tagToKeys : String → Option (Finset String)

section Repository

variable {L : LruCache String String} (order : HashOrder)

/-- A capacity of zero is raised to one. -/
def InMemoryState.withCapacity (L : LruCache String String) (capacity : Nat) : InMemoryState L where
  entries := L.new (max capacity 1)
  keyToTags := fun _ => none
  tagToKeys := fun _ => none

/-- The keys of a tag without one of them; a set that has become empty is removed. -/
def dropKey (key : String) : Option (Finset String) → Option (Finset String)
  | none => none
  | some keys => if keys.erase key = ∅ then none else some (keys.erase key)

/-- The keys of a tag with one more. -/
def addKey (key : String) (keys : Option (Finset String)) : Option (Finset String) :=
  some (insert key (keys.getD ∅))

/-- Change the entries of some keys of a map, one after the other. -/
def changeEach (f : Option (Finset String) → Option (Finset String)) :
    List String → (String → Option (Finset String)) → String → Option (Finset String)
  | [], map => map
  | tag :: tags, map => changeEach f tags (Function.update map tag (f (map tag)))

def clearTagsForKey (state : InMemoryState L) (key : String) : InMemoryState L :=
  match state.keyToTags key with
  | none => state
  | some tags =>
      { state with
        keyToTags := Function.update state.keyToTags key none
        tagToKeys := changeEach (dropKey key) (order.iter tags) state.tagToKeys }

/-- An entry that was driven out loses its tags; one that was replaced has lost them before. -/
def clearEvicted (state : InMemoryState L) (key : String) : Option (String × String) → InMemoryState L
  | none => state
  | some (evicted, _) => if evicted ≠ key then clearTagsForKey order state evicted else state

def set (state : InMemoryState L) (key value : String) (tags : List String) : InMemoryState L :=
  let state := clearTagsForKey order state key
  let pushed := L.push state.entries key value
  let state := clearEvicted order { state with entries := pushed.2 } key pushed.1
  let tagSet := tags.toFinset
  { state with
    tagToKeys := changeEach (addKey key) (order.iter tagSet) state.tagToKeys
    keyToTags := Function.update state.keyToTags key (some tagSet) }

def get (state : InMemoryState L) (key : String) : Option String × InMemoryState L :=
  let got := L.get state.entries key
  (got.1, { state with entries := got.2 })

def remove (state : InMemoryState L) (key : String) : InMemoryState L :=
  clearTagsForKey order { state with entries := L.pop state.entries key } key

def removeByTag (state : InMemoryState L) (tag : String) : InMemoryState L :=
  (order.iter ((state.tagToKeys tag).getD ∅)).foldl (fun s key => remove order s key) state

def clear (state : InMemoryState L) : InMemoryState L where
  entries := L.clear state.entries
  keyToTags := fun _ => none
  tagToKeys := fun _ => none

/-- The keys that carry all of the tags; `none` as soon as there are none. -/
def candidates (tagToKeys : String → Option (Finset String)) :
    List String → Option (Finset String) → Option (Finset String)
  | [], found => some (found.getD ∅)
  | tag :: tags, found =>
      match tagToKeys tag with
      | none => none
      | some keys =>
          let found := match found with
            | some existing => existing ∩ keys
            | none => keys
          if found = ∅ then none else candidates tagToKeys tags (some found)

def getByTags (state : InMemoryState L) (tags : List String) : List (String × String) :=
  if tags.isEmpty then []
  else
    match candidates state.tagToKeys tags none with
    | none => []
    | some found =>
        (order.iter found).filterMap (fun key =>
          (L.peek state.entries key).map (fun value => (key, value)))

end Repository

/-! ## What it is for -/

structure Entry where
  key : String
  value : String
  tags : Finset String
  deriving DecidableEq

/-- The entries, the most recently used first. -/
abbrev Entries := List Entry

namespace Entries

def find (l : Entries) (key : String) : Option Entry := l.find? (fun e => e.key = key)

def without (l : Entries) (key : String) : Entries := l.filter (fun e => e.key ≠ key)

def set (capacity : Nat) (l : Entries) (key value : String) (tags : List String) : Entries :=
  (⟨key, value, tags.toFinset⟩ :: without l key).take capacity

def get (l : Entries) (key : String) : Option String × Entries :=
  match find l key with
  | none => (none, l)
  | some e => (some e.value, e :: without l key)

def removeByTag (l : Entries) (tag : String) : Entries := l.filter (fun e => tag ∉ e.tags)

def getByTags (l : Entries) (tags : List String) : List (String × String) :=
  if tags.isEmpty then []
  else (l.filter (fun e => ∀ tag ∈ tags, tag ∈ e.tags)).map (fun e => (e.key, e.value))

end Entries

/-! ## Operations -/

inductive CacheOp where
  | set (key value : String) (tags : List String)
  | get (key : String)
  | remove (key : String)
  | removeByTag (tag : String)
  | clear
  | getByTags (tags : List String)
  deriving DecidableEq, Repr

inductive CacheResult where
  | done
  | value (v : Option String)
  | entries (l : List (String × String))
  deriving DecidableEq, Repr

def step {L : LruCache String String} (order : HashOrder) (state : InMemoryState L) :
    CacheOp → InMemoryState L × CacheResult
  | .set key value tags => (set order state key value tags, .done)
  | .get key => ((get state key).2, .value (get state key).1)
  | .remove key => (remove order state key, .done)
  | .removeByTag tag => (removeByTag order state tag, .done)
  | .clear => (clear state, .done)
  | .getByTags tags => (state, .entries (getByTags order state tags))

def Entries.step (capacity : Nat) (l : Entries) : CacheOp → Entries × CacheResult
  | .set key value tags => (l.set capacity key value tags, .done)
  | .get key => ((l.get key).2, .value (l.get key).1)
  | .remove key => (l.without key, .done)
  | .removeByTag tag => (l.removeByTag tag, .done)
  | .clear => ([], .done)
  | .getByTags tags => (l, .entries (l.getByTags tags))

def run {L : LruCache String String} (order : HashOrder) :
    InMemoryState L → List CacheOp → InMemoryState L × List CacheResult
  | state, [] => (state, [])
  | state, op :: ops =>
      let next := step order state op
      let rest := run order next.1 ops
      (rest.1, next.2 :: rest.2)

def Entries.run (capacity : Nat) : Entries → List CacheOp → Entries × List CacheResult
  | l, [] => (l, [])
  | l, op :: ops =>
      let next := Entries.step capacity l op
      let rest := Entries.run capacity next.1 ops
      (rest.1, next.2 :: rest.2)

/-! ## The two indexes -/

section Index

variable {L : LruCache String String} {order : HashOrder}

/-- Each tag of the list is changed, and no other. -/
theorem changeEach_apply (f : Option (Finset String) → Option (Finset String)) (t : String) :
    ∀ (ts : List String) (map : String → Option (Finset String)), ts.Nodup →
      changeEach f ts map t = if t ∈ ts then f (map t) else map t := by
  intro ts
  induction ts with
  | nil =>
      intro map _
      simp [changeEach]
  | cons a ts ih =>
      intro map hnodup
      rw [List.nodup_cons] at hnodup
      rw [changeEach, ih _ hnodup.2]
      by_cases hta : t = a
      · subst hta
        simp [hnodup.1]
      · simp [hta]

/-- In whichever order the tags come, each is changed once. -/
theorem changeEach_iter (f : Option (Finset String) → Option (Finset String)) (tags : Finset String)
    (map : String → Option (Finset String)) (t : String) :
    changeEach f (order.iter tags) map t = if t ∈ tags then f (map t) else map t := by
  rw [changeEach_apply f t _ map (order.nodup tags)]
  simp only [order.mem_iter]

theorem mem_dropKey (key k : String) (keys : Option (Finset String)) :
    k ∈ (dropKey key keys).getD ∅ ↔ k ≠ key ∧ k ∈ keys.getD ∅ := by
  cases keys with
  | none => simp [dropKey]
  | some keys =>
      simp only [dropKey]
      split
      · next hempty =>
        -- an emptied set held nothing but the key
        have hnot : k ∉ keys.erase key := by simp [hempty]
        simpa [Finset.mem_erase] using hnot
      · simp [Finset.mem_erase]

/-- A tag that loses its last key is gone. -/
theorem dropKey_ne_empty (key : String) (keys : Option (Finset String)) :
    dropKey key keys ≠ some ∅ := by
  cases keys with
  | none => simp [dropKey]
  | some keys =>
      simp only [dropKey]
      split
      · simp
      · next hne => simpa using hne

theorem mem_addKey (key k : String) (keys : Option (Finset String)) :
    k ∈ (addKey key keys).getD ∅ ↔ k = key ∨ k ∈ keys.getD ∅ := by
  simp [addKey]

theorem addKey_ne_empty (key : String) (keys : Option (Finset String)) :
    addKey key keys ≠ some ∅ := by
  simp [addKey]

/-- The keys of the tags are the inverse of the tags of the keys, and no tag is kept without
keys. -/
structure Consistent (keyToTags tagToKeys : String → Option (Finset String)) : Prop where
  inverse : ∀ k t, k ∈ (tagToKeys t).getD ∅ ↔ t ∈ (keyToTags k).getD ∅
  nonempty : ∀ t, tagToKeys t ≠ some ∅

theorem Consistent.empty : Consistent (fun _ => none) (fun _ => none) where
  inverse := by simp
  nonempty := by simp

/-- Dropping a key from the tags that it has keeps the two maps inverse to each other. -/
theorem Consistent.drop {keyToTags tagToKeys : String → Option (Finset String)} {key : String}
    {tags : Finset String} (h : Consistent keyToTags tagToKeys) (hkey : keyToTags key = some tags) :
    Consistent (Function.update keyToTags key none)
      (changeEach (dropKey key) (order.iter tags) tagToKeys) where
  inverse := by
    intro k t
    rw [changeEach_iter, Function.update_apply]
    have hinv := h.inverse k t
    -- The key is taken out of the sets of its own tags only.
    by_cases ht : t ∈ tags
    · rw [if_pos ht, mem_dropKey, hinv]
      by_cases hk : k = key
      · simp [hk]
      · simp [hk]
    · rw [if_neg ht, hinv]
      by_cases hk : k = key
      · simp [hk, hkey, ht]
      · simp [hk]
  nonempty := by
    intro t
    rw [changeEach_iter]
    split
    · exact dropKey_ne_empty key _
    · exact h.nonempty t

/-- A key that had no tags gets some. -/
theorem Consistent.add {keyToTags tagToKeys : String → Option (Finset String)} {key : String}
    (tags : Finset String) (h : Consistent keyToTags tagToKeys) (hkey : keyToTags key = none) :
    Consistent (Function.update keyToTags key (some tags))
      (changeEach (addKey key) (order.iter tags) tagToKeys) where
  inverse := by
    intro k t
    rw [changeEach_iter, Function.update_apply]
    have hinv := h.inverse k t
    -- The key had no tags, so only the sets of its new ones change.
    by_cases ht : t ∈ tags
    · rw [if_pos ht, mem_addKey, hinv]
      by_cases hk : k = key
      · simp [hk, ht]
      · simp [hk]
    · rw [if_neg ht, hinv]
      by_cases hk : k = key
      · simp [hk, hkey, ht]
      · simp [hk]
  nonempty := by
    intro t
    rw [changeEach_iter]
    split
    · exact addKey_ne_empty key _
    · exact h.nonempty t

@[simp] theorem clearTagsForKey_entries (s : InMemoryState L) (key : String) :
    (clearTagsForKey order s key).entries = s.entries := by
  unfold clearTagsForKey
  split <;> rfl

theorem clearTagsForKey_keyToTags (s : InMemoryState L) (key : String) :
    (clearTagsForKey order s key).keyToTags = Function.update s.keyToTags key none := by
  unfold clearTagsForKey
  split
  · next hnone => rw [← hnone, Function.update_eq_self]
  · rfl

/-- The tags of a key are cleared on both sides. -/
theorem clearTagsForKey_consistent {s : InMemoryState L} (key : String)
    (h : Consistent s.keyToTags s.tagToKeys) :
    Consistent (clearTagsForKey order s key).keyToTags (clearTagsForKey order s key).tagToKeys := by
  unfold clearTagsForKey
  split
  · exact h
  · next hsome => exact h.drop hsome

end Index

/-! ## The list of entries -/

namespace Entries

variable {l : Entries}

/-- An entry as the `LruCache` shows it. -/
def shown (l : Entries) : List (String × String) := l.map (fun e => (e.key, e.value))

def keys (l : Entries) : List String := l.map Entry.key

theorem find_cons (e : Entry) (l : Entries) (k : String) :
    find (e :: l) k = if e.key = k then some e else find l k := by
  unfold find
  by_cases hk : e.key = k
  · simp [hk]
  · simp [hk]

/-- What is left without a key is what was there of the others. -/
theorem find_without (l : Entries) (key k : String) :
    find (without l key) k = if k = key then none else find l k := by
  induction l with
  | nil => simp [find, without]
  | cons e l ih =>
      rw [find_cons]
      by_cases hek : e.key = key
      · have hdrop : without (e :: l) key = without l key := by simp [without, hek]
        rw [hdrop, ih]
        by_cases hk : k = key
        · simp [hk]
        · simp [hk, hek, Ne.symm hk]
      · have hkeep : without (e :: l) key = e :: without l key := by simp [without, hek]
        rw [hkeep, find_cons, ih]
        by_cases hk : e.key = k
        · subst hk
          simp [hek]
        · simp [hk]

/-- Without repeated keys, the entry of a key is the one in the list. -/
theorem find_eq_some_iff (hnodup : l.keys.Nodup) (k : String) (e : Entry) :
    find l k = some e ↔ e ∈ l ∧ e.key = k := by
  induction l with
  | nil => simp [find]
  | cons a l ih =>
      have hrest : (keys l).Nodup := (List.nodup_cons.mp hnodup).2
      have hfresh : a.key ∉ keys l := (List.nodup_cons.mp hnodup).1
      rw [find_cons]
      by_cases hak : a.key = k
      · rw [if_pos hak]
        constructor
        · intro h
          cases h
          exact ⟨List.mem_cons_self, hak⟩
        · rintro ⟨hmem, hek⟩
          rcases List.mem_cons.mp hmem with rfl | hmem
          · rfl
          · -- a second entry under the key would be one of the rest
            have hin : e.key ∈ keys l := List.mem_map_of_mem hmem
            rw [hek, ← hak] at hin
            exact absurd hin hfresh
      · rw [if_neg hak, ih hrest, List.mem_cons]
        constructor
        · rintro ⟨hmem, hek⟩
          exact ⟨Or.inr hmem, hek⟩
        · rintro ⟨rfl | hmem, hek⟩
          · exact absurd hek hak
          · exact ⟨hmem, hek⟩

theorem find_eq_none_iff (l : Entries) (k : String) : find l k = none ↔ k ∉ l.keys := by
  simp [find, keys, List.find?_eq_none]

/-- What the cache shows under a key is the value of the entry. -/
theorem lookup_shown (l : Entries) (k : String) :
    l.shown.lookup k = (find l k).map Entry.value := by
  induction l with
  | nil => rfl
  | cons e l ih =>
      rw [find_cons]
      by_cases hk : e.key = k
      · simp [shown, hk]
      · have hk' : (k == e.key) = false := by simpa using Ne.symm hk
        rw [if_neg hk, ← ih]
        simp [shown, List.lookup_cons, hk']

/-- Erasing from what is shown shows what is left. -/
theorem erase_shown (l : Entries) (k : String) : Lru.erase l.shown k = (without l k).shown := by
  simp [Lru.erase, shown, without, List.filter_map, Function.comp_def]

theorem keys_without (l : Entries) (k : String) : (without l k).keys = l.keys.filter (· ≠ k) := by
  simp [keys, without, List.filter_map, Function.comp_def]

theorem without_eq_self (l : Entries) {k : String} (hk : k ∉ l.keys) : without l k = l := by
  apply List.filter_eq_self.mpr
  intro e he
  have hne : e.key ≠ k := by
    intro heq
    exact hk (heq ▸ List.mem_map_of_mem he)
  simpa using hne

/-- Without a key it has, a list is shorter. -/
theorem length_without_lt (l : Entries) {k : String} (hk : k ∈ l.keys) :
    (without l k).length < l.length := by
  obtain ⟨e, he, rfl⟩ := List.mem_map.mp hk
  apply List.length_filter_lt_length_iff_exists.mpr
  exact ⟨e, he, by simp⟩

/-- The last entry is dropped by its key, since no other entry has it. -/
theorem dropLast_eq_without (hnodup : l.keys.Nodup) {last : Entry} (hlast : l.getLast? = some last) :
    l.dropLast = without l last.key := by
  have hsplit : l.dropLast ++ [last] = l := List.dropLast_append_getLast? last hlast
  have hkeys : l.keys = keys l.dropLast ++ [last.key] := by
    rw [← hsplit]
    simp [keys]
  have hfresh : last.key ∉ keys l.dropLast := by
    rw [hkeys] at hnodup
    intro hmem
    exact (List.disjoint_of_nodup_append hnodup) hmem (List.mem_singleton_self _)
  calc l.dropLast = without l.dropLast last.key := (without_eq_self _ hfresh).symm
    _ = without (l.dropLast ++ [last]) last.key := by simp [without]
    _ = without l last.key := by rw [hsplit]

end Entries

/-! ## Refinement -/

section Refinement

variable {L : LruCache String String} {order : HashOrder} {capacity : Nat} {s : InMemoryState L}
  {l : Entries}

/-- The three maps show the list `l`. -/
structure Refines (capacity : Nat) (s : InMemoryState L) (l : Entries) : Prop where
  view : L.view s.entries = l.shown
  keyToTags : ∀ k, s.keyToTags k = (l.find k).map Entry.tags
  consistent : Consistent s.keyToTags s.tagToKeys
  nodup : l.keys.Nodup
  length_le : l.length ≤ capacity
  capacity : L.capacity s.entries = capacity

/-- A new cache is an empty list, whose capacity is at least one. -/
theorem withCapacity_refines (capacity : Nat) :
    Refines (max capacity 1) (InMemoryState.withCapacity L capacity) [] where
  view := L.view_new _
  keyToTags := by
    intro k
    rfl
  consistent := Consistent.empty
  nodup := List.nodup_nil
  length_le := Nat.zero_le _
  capacity := L.capacity_new _

/-- A cleared cache is an empty list again. -/
theorem clear_refines (h : Refines capacity s l) : Refines capacity (clear s) [] where
  view := L.view_clear _
  keyToTags := by
    intro k
    rfl
  consistent := Consistent.empty
  nodup := List.nodup_nil
  length_le := Nat.zero_le _
  capacity := (L.capacity_clear _).trans h.capacity

/-- Removing a key removes its entry and its tags. -/
theorem remove_refines (h : Refines capacity s l) (key : String) :
    Refines capacity (remove order s key) (l.without key) where
  view := by
    rw [remove, clearTagsForKey_entries, L.view_pop, h.view, Entries.erase_shown]
  keyToTags := by
    intro k
    rw [remove, clearTagsForKey_keyToTags, Function.update_apply, Entries.find_without, h.keyToTags]
    split <;> rfl
  consistent := clearTagsForKey_consistent key h.consistent
  nodup := by
    rw [Entries.keys_without]
    exact h.nodup.filter _
  length_le := le_trans (List.length_filter_le _ _) h.length_le
  capacity := by
    rw [remove, clearTagsForKey_entries, L.capacity_pop, h.capacity]

/-- A read returns the value of the entry. -/
theorem get_fst (h : Refines capacity s l) (key : String) : (get s key).1 = (l.get key).1 := by
  have hgot : (get s key).1 = (l.find key).map Entry.value := by
    rw [get, L.get_fst, h.view, Entries.lookup_shown]
  rw [hgot]
  unfold Entries.get
  cases l.find key with
  | none => rfl
  | some e => rfl

/-- A read puts the entry in front, in the cache and in the list. -/
theorem get_refines (h : Refines capacity s l) (key : String) :
    Refines capacity (get s key).2 (l.get key).2 := by
  have hview : L.view (get s key).2.entries = Lru.touch l.shown key := by
    rw [get, L.view_get, h.view]
  have hcapacity : L.capacity (get s key).2.entries = capacity :=
    (L.capacity_get _ _).trans h.capacity
  unfold Lru.touch at hview
  rw [Entries.lookup_shown] at hview
  unfold Entries.get
  -- The key is not cached, and nothing moves.
  cases hfind : l.find key with
  | none =>
      rw [hfind] at hview
      exact ⟨hview, h.keyToTags, h.consistent, h.nodup, h.length_le, hcapacity⟩
  | some e =>
      rw [hfind] at hview
      obtain ⟨hmem, hkey⟩ := (Entries.find_eq_some_iff h.nodup key e).mp hfind
      have hlive : key ∈ l.keys := hkey ▸ List.mem_map_of_mem hmem
      -- The entry is moved to the front, keeping its tags.
      refine ⟨?_, ?_, h.consistent, ?_, ?_, hcapacity⟩
      · rw [hview]
        show (key, e.value) :: Lru.erase l.shown key = Entries.shown (e :: l.without key)
        rw [Entries.erase_shown, ← hkey]
        rfl
      · intro k
        show s.keyToTags k = _
        rw [h.keyToTags, Entries.find_cons, Entries.find_without]
        by_cases hk : k = key
        · rw [if_pos (hkey.trans hk.symm), hk, hfind]
        · rw [if_neg (fun heq => hk (heq.symm.trans hkey)), if_neg hk]
      · show (e.key :: Entries.keys (l.without key)).Nodup
        rw [Entries.keys_without, hkey]
        exact List.nodup_cons.mpr ⟨by simp, h.nodup.filter _⟩
      · exact le_trans (Entries.length_without_lt l hlive) h.length_le

/-! ### Setting a value -/

/-- The entry that a set drives out. -/
def Entries.evicted (capacity : Nat) (l : Entries) (key : String) : Option Entry :=
  if key ∈ l.keys ∨ l.length < capacity then none else l.getLast?

/-- The other entries after a set. -/
def Entries.others (capacity : Nat) (l : Entries) (key : String) : Entries :=
  match l.evicted capacity key with
  | none => l.without key
  | some last => (l.without key).without last.key

/-- A write puts the entry in front of the others, of which the last may be gone. -/
theorem Entries.set_eq_cons (hnodup : l.keys.Nodup) (hlength : l.length ≤ capacity)
    (hpos : 1 ≤ capacity) (key value : String) (tags : List String) :
    l.set capacity key value tags = ⟨key, value, tags.toFinset⟩ :: l.others capacity key := by
  unfold Entries.set Entries.others Entries.evicted
  by_cases hlive : key ∈ l.keys
  · -- the old entry makes room for the new one
    have hfit := Entries.length_without_lt l hlive
    rw [if_pos (Or.inl hlive)]
    apply List.take_of_length_le
    simp only [List.length_cons]
    omega
  · by_cases hroom : l.length < capacity
    · have hle : (l.without key).length ≤ l.length := List.length_filter_le _ _
      rw [if_pos (Or.inr hroom)]
      apply List.take_of_length_le
      simp only [List.length_cons]
      omega
    · rw [if_neg (by simp [hlive, hroom]), Entries.without_eq_self l hlive]
      have hfull : capacity = (l.length - 1) + 1 := by omega
      cases hlast : l.getLast? with
      | none =>
          -- a full list has a last entry
          rw [List.getLast?_eq_none_iff] at hlast
          simp [hlast] at hroom
          omega
      | some last =>
          rw [hfull, List.take_succ_cons, ← List.dropLast_eq_take,
            Entries.dropLast_eq_without hnodup hlast]

/-- Only the tags of an entry that had to go are cleared. -/
theorem clearEvicted_displaced (st : InMemoryState L) (key : String) :
    clearEvicted order st key (Lru.displaced capacity l.shown key) =
      match l.evicted capacity key with
      | none => st
      | some last => clearTagsForKey order st last.key := by
  have hlookup := Entries.lookup_shown l key
  unfold Lru.displaced Entries.evicted
  rw [hlookup]
  -- A key that is cached already displaces nothing.
  cases hfind : l.find key with
  | some e =>
      have hlive : key ∈ l.keys := by
        by_contra hdead
        rw [(Entries.find_eq_none_iff l key).mpr hdead] at hfind
        exact nomatch hfind
      simp [clearEvicted, hlive]
  | none =>
      have hdead : key ∉ l.keys := (Entries.find_eq_none_iff l key).mp hfind
      have hlength : l.shown.length = l.length := List.length_map _
      by_cases hroom : l.length < capacity
      · simp [clearEvicted, hdead, hlength, hroom]
      · -- The cache is full, so that the last entry has to go.
        cases hlast : l.getLast? with
        | none => simp [clearEvicted, hdead, hroom, Entries.shown, hlast]
        | some last =>
            have hne : last.key ≠ key := by
              intro heq
              exact hdead (heq ▸ List.mem_map_of_mem (List.mem_of_getLast? hlast))
            simp [clearEvicted, hdead, hroom, Entries.shown, hlast, hne]

/-- Under other keys a write leaves what was there, except the entry that had to go. -/
theorem Entries.find_others (key k : String) :
    (l.others capacity key).find k =
      if k = key then none else
        match l.evicted capacity key with
        | none => l.find k
        | some last => if k = last.key then none else l.find k := by
  unfold Entries.others
  cases l.evicted capacity key with
  | none => rw [Entries.find_without]
  | some last =>
      simp only [Entries.find_without]
      by_cases hk : k = key
      · simp [hk]
      · simp [hk]

theorem Entries.keys_others (key : String) : (l.others capacity key).keys.Sublist l.keys := by
  unfold Entries.others
  cases l.evicted capacity key with
  | none =>
      rw [Entries.keys_without]
      exact List.filter_sublist
  | some last =>
      simp only [Entries.keys_without]
      exact List.filter_sublist.trans List.filter_sublist

theorem Entries.not_mem_keys_others (key : String) : key ∉ (l.others capacity key).keys := by
  rw [← Entries.find_eq_none_iff, Entries.find_others, if_pos rfl]

/-- A write, with the eviction that makes room for it. -/
theorem set_refines (h : Refines capacity s l) (hpos : 1 ≤ capacity) (key value : String)
    (tags : List String) :
    Refines capacity (set order s key value tags) (l.set capacity key value tags) := by
  have hcons := Entries.set_eq_cons h.nodup h.length_le hpos key value tags
  -- the state between the eviction and the new tags
  obtain ⟨m, hm, hset⟩ : ∃ m : InMemoryState L,
      m = clearEvicted order { clearTagsForKey order s key with
        entries := (L.push s.entries key value).2 } key (L.push s.entries key value).1 ∧
      set order s key value tags =
        { m with
          tagToKeys := changeEach (addKey key) (order.iter tags.toFinset) m.tagToKeys
          keyToTags := Function.update m.keyToTags key (some tags.toFinset) } := by
    refine ⟨_, rfl, ?_⟩
    simp only [set, clearTagsForKey_entries]
  rw [L.push_fst, h.view, h.capacity, clearEvicted_displaced] at hm
  have hentries : m.entries = (L.push s.entries key value).2 := by
    rw [hm]
    cases l.evicted capacity key with
    | none => rfl
    | some last => simp
  have hconsistent : Consistent m.keyToTags m.tagToKeys := by
    have hcleared : Consistent (clearTagsForKey order s key).keyToTags
        (clearTagsForKey order s key).tagToKeys := clearTagsForKey_consistent key h.consistent
    rw [hm]
    cases l.evicted capacity key with
    | none => exact hcleared
    | some last => exact clearTagsForKey_consistent last.key hcleared
  have hkeyToTags : ∀ k, m.keyToTags k = ((l.others capacity key).find k).map Entry.tags := by
    intro k
    rw [hm, Entries.find_others]
    cases l.evicted capacity key with
    | none =>
        simp only [clearTagsForKey_keyToTags, Function.update_apply, h.keyToTags]
        split <;> rfl
    | some last =>
        simp only [clearTagsForKey_keyToTags, Function.update_apply, h.keyToTags]
        by_cases hlast : k = last.key
        · by_cases hk : k = key <;> simp [hlast]
        · by_cases hk : k = key <;> simp [hlast, hk]
  have hfresh : m.keyToTags key = none := by
    rw [hkeyToTags, Entries.find_others, if_pos rfl]
    rfl
  rw [hset]
  refine ⟨?_, ?_, hconsistent.add _ hfresh, ?_, ?_, ?_⟩
  · show L.view m.entries = _
    rw [hentries, L.view_push, h.view, h.capacity]
    unfold Lru.insert Entries.set
    rw [Entries.erase_shown]
    simp [Entries.shown, List.map_take]
  · intro k
    show Function.update m.keyToTags key (some tags.toFinset) k = _
    rw [hcons, Entries.find_cons, Function.update_apply]
    by_cases hk : k = key
    · simp [hk]
    · rw [if_neg hk, if_neg (Ne.symm hk), hkeyToTags]
  · rw [hcons]
    show (key :: (l.others capacity key).keys).Nodup
    exact List.nodup_cons.mpr
      ⟨Entries.not_mem_keys_others key, h.nodup.sublist (Entries.keys_others key)⟩
  · unfold Entries.set
    exact List.length_take_le _ _
  · show L.capacity m.entries = capacity
    rw [hentries, L.capacity_push, h.capacity]

/-! ### Tags -/

/-- Keys that are removed one after the other are removed from the list at once. -/
theorem foldl_remove_refines (ks : List String) :
    ∀ (s : InMemoryState L) (l : Entries), Refines capacity s l →
      Refines capacity (ks.foldl (fun s key => remove order s key) s)
        (l.filter (fun e => e.key ∉ ks)) := by
  -- By induction on the keys, which are removed one after another.
  induction ks with
  | nil =>
      intro s l h
      have hall : l.filter (fun e => e.key ∉ ([] : List String)) = l := by simp
      rw [hall]
      exact h
  | cons k ks ih =>
      intro s l h
      have hsplit : l.filter (fun e => e.key ∉ k :: ks) =
          (l.without k).filter (fun e => e.key ∉ ks) := by
        simp only [Entries.without, List.filter_filter]
        apply List.filter_congr
        intro e _
        simp [Bool.and_comm]
      rw [hsplit, List.foldl_cons]
      exact ih _ _ (remove_refines h k)

/-- The tags of the live keys, entry by entry. -/
theorem mem_keys_of_tag (h : Refines capacity s l) {e : Entry} (he : e ∈ l) (t : String) :
    e.key ∈ (s.tagToKeys t).getD ∅ ↔ t ∈ e.tags := by
  have hfind : l.find e.key = some e := (Entries.find_eq_some_iff h.nodup _ _).mpr ⟨he, rfl⟩
  rw [h.consistent.inverse, h.keyToTags, hfind]
  rfl

/-- A tag takes all entries with it that have it. -/
theorem removeByTag_refines (h : Refines capacity s l) (tag : String) :
    Refines capacity (removeByTag order s tag) (l.removeByTag tag) := by
  have hfilter : l.removeByTag tag =
      l.filter (fun e => e.key ∉ order.iter ((s.tagToKeys tag).getD ∅)) := by
    unfold Entries.removeByTag
    apply List.filter_congr
    intro e he
    rw [decide_eq_decide, order.mem_iter, mem_keys_of_tag h he]
  rw [hfilter]
  exact foldl_remove_refines _ s l h

/-- The keys found so far are cut down to those with all further tags. -/
theorem mem_candidates_some (tagToKeys : String → Option (Finset String)) (k : String)
    (tags : List String) :
    ∀ found : Finset String, k ∈ (candidates tagToKeys tags (some found)).getD ∅ ↔
      k ∈ found ∧ ∀ tag ∈ tags, k ∈ (tagToKeys tag).getD ∅ := by
  induction tags with
  | nil =>
      intro found
      simp [candidates]
  | cons tag tags ih =>
      intro found
      unfold candidates
      cases htag : tagToKeys tag with
      | none => simp [htag]
      | some keys =>
          simp only []
          split
          · next hempty =>
            -- no key is left, so none is in all of the sets
            have hnot : k ∉ found ∩ keys := by simp [hempty]
            simp only [Finset.mem_inter, not_and] at hnot
            simp only [Option.getD_none, Finset.notMem_empty, List.forall_mem_cons, htag,
              Option.getD_some, false_iff, not_and]
            intro hfound hkeys
            exact absurd hkeys (hnot hfound)
          · rw [ih, Finset.mem_inter, List.forall_mem_cons, htag, Option.getD_some, and_assoc]

/-- The candidates are the keys that have every tag. -/
theorem mem_candidates (tagToKeys : String → Option (Finset String)) (k : String)
    {tags : List String} (htags : tags ≠ []) :
    k ∈ (candidates tagToKeys tags none).getD ∅ ↔
      ∀ tag ∈ tags, k ∈ (tagToKeys tag).getD ∅ := by
  cases tags with
  | nil => exact absurd rfl htags
  | cons tag tags =>
      unfold candidates
      rw [List.forall_mem_cons]
      cases htag : tagToKeys tag with
      | none => simp
      | some keys =>
          simp only []
          split
          · next hempty => simp [hempty]
          · rw [mem_candidates_some, Option.getD_some]

/-- The candidates that have a value, with it. -/
theorem getByTags_eq (s : InMemoryState L) {tags : List String} (htags : tags ≠ []) :
    getByTags order s tags =
      (order.iter ((candidates s.tagToKeys tags none).getD ∅)).filterMap (fun key =>
        (L.peek s.entries key).map (fun value => (key, value))) := by
  unfold getByTags
  rw [if_neg (by simpa using htags)]
  cases candidates s.tagToKeys tags none with
  | some found => rfl
  | none =>
      have hnil : order.iter ∅ = [] := by
        apply List.eq_nil_iff_forall_not_mem.mpr
        intro k
        simp [order.mem_iter]
      simp [hnil]

/-- No key is returned twice. -/
theorem getByTags_nodup (s : InMemoryState L) {tags : List String} (htags : tags ≠ []) :
    (getByTags order s tags).Nodup := by
  rw [getByTags_eq s htags]
  apply (order.nodup _).filterMap
  intro a a' b hb hb'
  obtain ⟨v, _, rfl⟩ := Option.map_eq_some_iff.mp hb
  obtain ⟨v', _, heq⟩ := Option.map_eq_some_iff.mp hb'
  exact (congrArg Prod.fst heq).symm

/-- What is returned are the entries that have every tag. -/
theorem mem_getByTags (h : Refines capacity s l) {tags : List String} (htags : tags ≠ [])
    (k v : String) :
    (k, v) ∈ getByTags order s tags ↔
      ∃ e ∈ l, e.key = k ∧ e.value = v ∧ ∀ tag ∈ tags, tag ∈ e.tags := by
  rw [getByTags_eq s htags, List.mem_filterMap]
  constructor
  · -- A candidate is under every tag; the inverse tables name its entry.
    rintro ⟨key, hkey, hpeek⟩
    rw [order.mem_iter, mem_candidates _ _ htags] at hkey
    obtain ⟨value, hvalue, heq⟩ := Option.map_eq_some_iff.mp hpeek
    cases heq
    rw [L.peek_eq, h.view, Entries.lookup_shown] at hvalue
    obtain ⟨e, hfind, rfl⟩ := Option.map_eq_some_iff.mp hvalue
    obtain ⟨hmem, rfl⟩ := (Entries.find_eq_some_iff h.nodup _ _).mp hfind
    exact ⟨e, hmem, rfl, rfl, fun tag htag => (mem_keys_of_tag h hmem tag).mp (hkey tag htag)⟩
  · rintro ⟨e, hmem, rfl, rfl, hall⟩
    refine ⟨e.key, ?_, ?_⟩
    · rw [order.mem_iter, mem_candidates _ _ htags]
      intro tag htag
      exact (mem_keys_of_tag h hmem tag).mpr (hall tag htag)
    · have hfind : l.find e.key = some e := (Entries.find_eq_some_iff h.nodup _ _).mpr ⟨hmem, rfl⟩
      rw [L.peek_eq, h.view, Entries.lookup_shown, hfind]
      rfl

theorem Entries.mem_getByTags {tags : List String} (htags : tags ≠ []) (k v : String) :
    (k, v) ∈ l.getByTags tags ↔
      ∃ e ∈ l, e.key = k ∧ e.value = v ∧ ∀ tag ∈ tags, tag ∈ e.tags := by
  unfold Entries.getByTags
  rw [if_neg (by simpa using htags)]
  simp only [List.mem_map, List.mem_filter, decide_eq_true_eq, Prod.mk.injEq]
  constructor
  · rintro ⟨e, ⟨hmem, hall⟩, hk, hv⟩
    exact ⟨e, hmem, hk, hv, hall⟩
  · rintro ⟨e, hmem, hk, hv, hall⟩
    exact ⟨e, ⟨hmem, hall⟩, hk, hv⟩

theorem Entries.getByTags_nodup (hnodup : l.keys.Nodup) (tags : List String) :
    (l.getByTags tags).Nodup := by
  unfold Entries.getByTags
  split
  · exact List.nodup_nil
  · -- the keys alone tell the pairs apart
    apply List.Nodup.of_map Prod.fst
    rw [List.map_map]
    exact hnodup.sublist (List.filter_sublist.map _)

/-- The list returns the same entries, in an order of its own. -/
theorem getByTags_perm (h : Refines capacity s l) (tags : List String) :
    (getByTags order s tags).Perm (l.getByTags tags) := by
  by_cases htags : tags = []
  · simp [htags, getByTags, Entries.getByTags]
  · rw [List.perm_ext_iff_of_nodup (getByTags_nodup s htags) (Entries.getByTags_nodup h.nodup tags)]
    rintro ⟨k, v⟩
    rw [mem_getByTags h htags, Entries.mem_getByTags htags]

end Refinement

/-! ## Runs -/

section Runs

variable {L : LruCache String String} {capacity : Nat} (order : HashOrder)

/-- Two answers agree; a set of entries comes in any order. -/
inductive CacheResult.Agrees : CacheResult → CacheResult → Prop where
  | done : Agrees .done .done
  | value (v : Option String) : Agrees (.value v) (.value v)
  | entries {l l' : List (String × String)} (h : l.Perm l') : Agrees (.entries l) (.entries l')

/-- Every operation of the cache is that of the list, with the same answer. -/
theorem step_refines {s : InMemoryState L} {l : Entries} (h : Refines capacity s l)
    (hpos : 1 ≤ capacity) (op : CacheOp) :
    Refines capacity (step order s op).1 (l.step capacity op).1 ∧
      ((step order s op).2.Agrees (l.step capacity op).2) := by
  cases op with
  | set key value tags => exact ⟨set_refines h hpos key value tags, .done⟩
  | get key =>
      refine ⟨get_refines h key, ?_⟩
      show (CacheResult.value (get s key).1).Agrees (.value (l.get key).1)
      rw [get_fst h]
      exact .value _
  | remove key => exact ⟨remove_refines h key, .done⟩
  | removeByTag tag => exact ⟨removeByTag_refines h tag, .done⟩
  | clear => exact ⟨clear_refines h, .done⟩
  | getByTags tags => exact ⟨h, .entries (getByTags_perm h tags)⟩

/-- Every run is a run of the list, answer by answer. -/
theorem run_refines (hpos : 1 ≤ capacity) (ops : List CacheOp) :
    ∀ (s : InMemoryState L) (l : Entries), Refines capacity s l →
      Refines capacity (run order s ops).1 (Entries.run capacity l ops).1 ∧
      List.Forall₂ CacheResult.Agrees (run order s ops).2 (Entries.run capacity l ops).2 := by
  induction ops with
  | nil =>
      intro s l h
      exact ⟨h, .nil⟩
  | cons op ops ih =>
      intro s l h
      obtain ⟨hnext, hagree⟩ := step_refines order h hpos op
      obtain ⟨hlast, hrest⟩ := ih _ _ hnext
      exact ⟨hlast, .cons hagree hrest⟩

/-! ## The last value set -/

namespace Entries

variable {l : Entries}

/-- What one operation makes of the entry of a key: the last one that was set, unless it has been
    removed or driven out since. -/
def note (capacity : Nat) (l : Entries) (k : String) (last : Option Entry) : CacheOp → Option Entry
  | .set key value tags =>
      if key = k then some ⟨key, value, tags.toFinset⟩
      else if (l.evicted capacity key).map Entry.key = some k then none
      else last
  | .remove key => if key = k then none else last
  | .removeByTag tag => last.filter (fun e => tag ∉ e.tags)
  | .clear => none
  | .get _ => last
  | .getByTags _ => last

/-- The entry that was last set for a key and neither removed nor driven out since. -/
def lastSet (capacity : Nat) (k : String) : Entries → Option Entry → List CacheOp → Option Entry
  | _, last, [] => last
  | l, last, op :: ops =>
      lastSet capacity k (Entries.step capacity l op).1 (note capacity l k last op) ops

/-- A read changes the order of the entries and nothing else. -/
theorem find_get (hnodup : l.keys.Nodup) (key k : String) : (l.get key).2.find k = l.find k := by
  unfold Entries.get
  cases hfind : l.find key with
  | none => rfl
  | some e =>
      obtain ⟨_, rfl⟩ := (find_eq_some_iff hnodup key e).mp hfind
      show find (e :: l.without e.key) k = l.find k
      rw [find_cons, find_without]
      by_cases hk : e.key = k
      · rw [if_pos hk, ← hk, hfind]
      · rw [if_neg hk, if_neg (Ne.symm hk)]

theorem find_removeByTag (hnodup : l.keys.Nodup) (tag k : String) :
    (l.removeByTag tag).find k = (l.find k).filter (fun e => tag ∉ e.tags) := by
  have hkept : (l.removeByTag tag).keys.Nodup := hnodup.sublist (List.filter_sublist.map _)
  apply Option.ext
  intro e
  rw [find_eq_some_iff hkept, Option.filter_eq_some_iff, find_eq_some_iff hnodup]
  unfold Entries.removeByTag
  rw [List.mem_filter]
  exact and_right_comm

/-- What one operation leaves under a key is what `note` makes of it. -/
theorem find_step (hnodup : l.keys.Nodup) (hlength : l.length ≤ capacity) (hpos : 1 ≤ capacity)
    (k : String) (op : CacheOp) :
    (l.step capacity op).1.find k = note capacity l k (l.find k) op := by
  cases op with
  | set key value tags =>
      show (l.set capacity key value tags).find k = _
      rw [set_eq_cons hnodup hlength hpos, find_cons, find_others]
      simp only [note]
      -- Setting a key may drop the entry of another one.
      by_cases hk : key = k
      · simp [hk]
      · rw [if_neg hk, if_neg hk, if_neg (Ne.symm hk)]
        cases l.evicted capacity key with
        | none => simp
        | some last => simp [eq_comm]
  | get key => exact find_get hnodup key k
  | remove key =>
      show (l.without key).find k = _
      rw [find_without]
      simp only [note, eq_comm]
  | removeByTag tag => exact find_removeByTag hnodup tag k
  | clear => rfl
  | getByTags tags => rfl

end Entries

/-- What a run leaves under a key is what was last set there, if nothing took it away. -/
theorem find_run (order : HashOrder) (hpos : 1 ≤ capacity) (k : String) (ops : List CacheOp) :
    ∀ (s : InMemoryState L) (l : Entries), Refines capacity s l →
      (Entries.run capacity l ops).1.find k = Entries.lastSet capacity k l (l.find k) ops := by
  induction ops with
  | nil =>
      intro s l _
      rfl
  | cons op ops ih =>
      intro s l h
      show (Entries.run capacity (l.step capacity op).1 ops).1.find k = _
      rw [ih _ _ (step_refines order h hpos op).1,
        Entries.find_step h.nodup h.length_le hpos]
      rfl

/-! ## The repository is a bounded map with tags -/

/-- What the repository promises after the operations `ops`, over the entries `l` of the list. -/
structure IsTaggedLru (capacity : Nat) (ops : List CacheOp) (s : InMemoryState L) (l : Entries) :
    Prop where
  /-- The entries that are held are those of the list, and in its order of use. -/
  view : L.view s.entries = l.shown
  keyToTags_keys : ∀ k, (s.keyToTags k).isSome ↔ k ∈ (L.view s.entries).map Prod.fst
  keyToTags_tags : ∀ e ∈ l, s.keyToTags e.key = some e.tags
  tagToKeys_inverse : ∀ k t, k ∈ (s.tagToKeys t).getD ∅ ↔ t ∈ (s.keyToTags k).getD ∅
  tagToKeys_nonempty : ∀ t, s.tagToKeys t ≠ some ∅
  length_le : (L.view s.entries).length ≤ capacity
  get_last : ∀ k, (get s k).1 = (Entries.lastSet capacity k [] none ops).map Entry.value
  /-- Each of the live entries with all of the tags once, and no other. -/
  getByTags : ∀ (order : HashOrder) (tags : List String), tags ≠ [] →
    (getByTags order s tags).Perm
      ((l.filter (fun e => ∀ tag ∈ tags, tag ∈ e.tags)).map (fun e => (e.key, e.value)))

/-- A cache that refines the list, whose entries are those last set, is a tagged LRU. -/
theorem Refines.isTaggedLru {s : InMemoryState L} {l : Entries} {ops : List CacheOp}
    (h : Refines capacity s l)
    (hlast : ∀ k, l.find k = Entries.lastSet capacity k [] none ops) :
    IsTaggedLru capacity ops s l where
  view := h.view
  keyToTags_keys := by
    intro k
    -- The two tables have the same keys.
    have hkeys : (L.view s.entries).map Prod.fst = l.keys := by
      rw [h.view]
      simp [Entries.shown, Entries.keys, Function.comp_def]
    rw [hkeys, h.keyToTags, Option.isSome_map, ← not_iff_not, Bool.not_eq_true,
      Option.isSome_eq_false_iff, Option.isNone_iff_eq_none, Entries.find_eq_none_iff]
  keyToTags_tags := by
    intro e he
    rw [h.keyToTags, (Entries.find_eq_some_iff h.nodup _ _).mpr ⟨he, rfl⟩]
    rfl
  tagToKeys_inverse := h.consistent.inverse
  tagToKeys_nonempty := h.consistent.nonempty
  length_le := by
    rw [h.view, Entries.shown, List.length_map]
    exact h.length_le
  get_last := by
    intro k
    rw [get, L.get_fst, h.view, Entries.lookup_shown, hlast]
  getByTags := by
    intro order tags htags
    have hperm : (Cache.getByTags order s tags).Perm (l.getByTags tags) := getByTags_perm h tags
    unfold Entries.getByTags at hperm
    rwa [if_neg (by simpa using htags)] at hperm

/-- After every sequence of operations the repository is a bounded map with tags, and it has
    answered each of them as the list of entries does. -/
theorem repository_isTaggedLru (capacity : Nat) (ops : List CacheOp) :
    IsTaggedLru (max capacity 1) ops (run order (InMemoryState.withCapacity L capacity) ops).1
      (Entries.run (max capacity 1) [] ops).1 ∧
    List.Forall₂ CacheResult.Agrees (run order (InMemoryState.withCapacity L capacity) ops).2
      (Entries.run (max capacity 1) [] ops).2 := by
  have hpos : 1 ≤ max capacity 1 := Nat.le_max_right _ _
  have hnew : Refines (max capacity 1) (InMemoryState.withCapacity L capacity) [] :=
    withCapacity_refines capacity
  obtain ⟨hlast, hagree⟩ := run_refines order hpos ops _ _ hnew
  refine ⟨hlast.isTaggedLru ?_, hagree⟩
  intro k
  exact find_run order hpos k ops _ _ hnew

end Runs

/-- A `HashSet` that gives out its elements in their order. -/
def HashOrder.sorted : HashOrder where
  iter := fun s => s.sort (· ≤ ·)
  nodup := fun s => s.sort_nodup _
  mem_iter := fun s _ => s.mem_sort _

/-- Three values in a repository for two: the first one is driven out, with its tags. -/
theorem repository_isTaggedLru_full :
    let ops := [CacheOp.set "a" "1" ["t"], .set "b" "2" ["t"], .set "c" "3" []]
    IsTaggedLru 2 ops (run HashOrder.sorted (InMemoryState.withCapacity Lru.listCache 2) ops).1
      [⟨"c", "3", ∅⟩, ⟨"b", "2", {"t"}⟩] :=
  (repository_isTaggedLru HashOrder.sorted 2
    [.set "a" "1" ["t"], .set "b" "2" ["t"], .set "c" "3" []]).1

/-! ## No tags -/

/-- Asked for no tags, the repository names no entry, although every entry has all of them. -/
theorem getByTags_no_tags :
    let ops := [CacheOp.set "k" "v" ["t"]]
    let s := (run HashOrder.sorted (InMemoryState.withCapacity Lru.listCache 1) ops).1
    let l := (Entries.run 1 [] ops).1
    getByTags HashOrder.sorted s [] = [] ∧
      (l.filter (fun e => ∀ tag ∈ ([] : List String), tag ∈ e.tags)).map
        (fun e => (e.key, e.value)) = [("k", "v")] := by
  refine ⟨rfl, ?_⟩
  rfl

end ProtonDrive.Cache
