import Mathlib.Data.List.Induction
import Mathlib.Data.List.Nodup

/-!
# Questions asked once for many positions

A list of positions, each with the key it asks about. Every key is asked for once, in the order in
which the keys first appear, and an answer goes back to all the positions that asked for its key.

* `Asked.of` — for each key the positions that asked for it, and the keys without repeats.
* `getElem?_deliver` — what a delivery to some positions does to each of them.
* `flatMap_eq_of_nodup` — of all the answers, those to one key.
-/

namespace Routing

variable {κ α β : Type}

/-! ## Who asked for what -/

structure Asked (κ : Type) where
  positions : κ → Option (List Nat)
  /-- Each key once, as they first appeared. -/
  keys : List κ

def Asked.none : Asked κ := ⟨fun _ => Option.none, []⟩

/-- Positions and keys are those of the list. -/
structure Asked.Complete (asked : Asked κ) (ks : List κ) : Prop where
  mem_positions : ∀ k i, (∃ indices, asked.positions k = some indices ∧ i ∈ indices) ↔
    ks[i]? = some k
  nodup_positions : ∀ k indices, asked.positions k = some indices → indices.Nodup
  positions_isSome : ∀ k, (asked.positions k).isSome ↔ k ∈ asked.keys
  nodup_keys : asked.keys.Nodup
  mem_keys : ∀ k, k ∈ asked.keys ↔ k ∈ ks

theorem Asked.Complete.none : (Asked.none : Asked κ).Complete [] where
  mem_positions k i := by simp [Asked.none]
  nodup_positions k indices h := by cases h
  positions_isSome k := by simp [Asked.none]
  nodup_keys := List.nodup_nil
  mem_keys k := by simp [Asked.none]

/-- The position after the last is not yet among those that asked. -/
theorem Asked.Complete.fresh {asked : Asked κ} {ks : List κ} (h : asked.Complete ks) {k : κ}
    {indices : List Nat} (hk : asked.positions k = some indices) : ks.length ∉ indices := by
  intro hmem
  have hget := (h.mem_positions k ks.length).mp ⟨indices, hk, hmem⟩
  rw [List.getElem?_eq_none (Nat.le_refl _)] at hget
  cases hget

/-- The positions of a key are those that have it. -/
theorem Asked.Complete.mem_iff {asked : Asked κ} {ks : List κ} (h : asked.Complete ks) {k : κ}
    {indices : List Nat} (hk : asked.positions k = some indices) {i : Nat} :
    i ∈ indices ↔ ks[i]? = some k := by
  rw [← h.mem_positions k i, hk]
  simp

theorem Asked.Complete.getElem?_ne {asked : Asked κ} {ks : List κ} (h : asked.Complete ks) {k : κ}
    (hk : asked.positions k = Option.none) {i : Nat} : ks[i]? ≠ some k := by
  rw [Ne, ← h.mem_positions k i, hk]
  simp

theorem getElem?_concat {ks : List α} {a b : α} {i : Nat} :
    (ks ++ [a])[i]? = some b ↔ ks[i]? = some b ∨ (i = ks.length ∧ a = b) := by
  rcases Nat.lt_trichotomy i ks.length with hlt | rfl | hgt
  · rw [List.getElem?_append_left hlt]
    grind
  · simp
  · rw [List.getElem?_append_right (Nat.le_of_lt hgt)]
    grind

variable [DecidableEq κ]

def Asked.add (asked : Asked κ) (entry : κ × Nat) : Asked κ :=
  match asked.positions entry.1 with
  | some indices =>
      { asked with
        positions := fun k =>
          if k = entry.1 then some (indices ++ [entry.2]) else asked.positions k }
  | Option.none =>
      { positions := fun k => if k = entry.1 then some [entry.2] else asked.positions k
        keys := asked.keys ++ [entry.1] }

def Asked.of (ks : List κ) : Asked κ := ks.zipIdx.foldl Asked.add Asked.none

theorem Asked.positions_add (asked : Asked κ) (k : κ) (i : Nat) (k' : κ) :
    (asked.add (k, i)).positions k' =
      if k' = k then some ((asked.positions k).getD [] ++ [i]) else asked.positions k' := by
  unfold Asked.add
  cases asked.positions k <;> rfl

theorem Asked.keys_add (asked : Asked κ) (k : κ) (i : Nat) :
    (asked.add (k, i)).keys =
      if (asked.positions k).isSome then asked.keys else asked.keys ++ [k] := by
  unfold Asked.add
  cases asked.positions k <;> rfl

theorem Asked.Complete.mem_keys_add {asked : Asked κ} {ks : List κ} (h : asked.Complete ks)
    {k k' : κ} {i : Nat} : k' ∈ (asked.add (k, i)).keys ↔ k' ∈ asked.keys ∨ k' = k := by
  rw [asked.keys_add]
  split
  · next hasked =>
      rw [h.positions_isSome k] at hasked
      constructor
      · exact .inl
      · rintro (hmem | rfl)
        · exact hmem
        · exact hasked
  · rw [List.mem_append, List.mem_singleton]

/-- One more position keeps positions and keys those of the list. -/
theorem Asked.Complete.add {asked : Asked κ} {ks : List κ} (h : asked.Complete ks) (k : κ) :
    (asked.add (k, ks.length)).Complete (ks ++ [k]) where
  mem_positions := by
    intro k' i
    rw [getElem?_concat, ← h.mem_positions k' i, asked.positions_add]
    by_cases heq : k' = k
    · subst heq
      cases asked.positions k' <;> simp
    · simp [heq, Ne.symm heq]
  nodup_positions := by
    intro k' indices h'
    rw [asked.positions_add] at h'
    by_cases heq : k' = k
    · rw [if_pos heq] at h'
      cases h'
      cases hk : asked.positions k with
      -- A key that is new starts with this position, an old one gets it behind the others.
      | none => exact List.nodup_singleton _
      | some indices =>
          rw [Option.getD_some, ← List.concat_eq_append]
          exact (h.nodup_positions k indices hk).concat (h.fresh hk)
    · rw [if_neg heq] at h'
      exact h.nodup_positions k' indices h'
  positions_isSome := by
    intro k'
    rw [h.mem_keys_add, asked.positions_add, ← h.positions_isSome k']
    by_cases heq : k' = k
    · simp [heq]
    · simp [heq]
  nodup_keys := by
    rw [asked.keys_add]
    split
    · exact h.nodup_keys
    · next hnew =>
        rw [h.positions_isSome k] at hnew
        rw [← List.concat_eq_append]
        exact h.nodup_keys.concat hnew
  mem_keys := by
    intro k'
    rw [h.mem_keys_add, h.mem_keys k', List.mem_append, List.mem_singleton]

/-- Adding the keys one after the other keeps positions and keys those of the list so far. -/
theorem Asked.complete_of (ks : List κ) : (Asked.of ks).Complete ks := by
  unfold Asked.of
  induction ks using List.reverseRecOn with
  | nil => exact .none
  | append_singleton ks k ih =>
      rw [List.zipIdx_append, List.foldl_append]
      simpa using ih.add k

/-! ## Deliveries -/

omit [DecidableEq κ] in
/-- A delivery changes the positions it is for, each once, and of these the ones that take it. -/
theorem getElem?_deliver (takes : Nat → Bool) (f : β → β) {indices : List Nat}
    (hnodup : indices.Nodup) (out : List β) (i : Nat) :
    (indices.foldl (fun out j => if takes j then out.modify j f else out) out)[i]? =
      out[i]?.map (if i ∈ indices ∧ takes i then f else id) := by
  induction indices generalizing out with
  | nil => simp
  | cons j indices ih =>
      obtain ⟨hj, hnodup⟩ := List.nodup_cons.mp hnodup
      rw [List.foldl_cons, ih hnodup]
      by_cases hij : j = i
      · subst hij
        by_cases ht : takes j <;> cases hout : out[j]? <;> simp [hj, ht, hout]
      · have hsame : (if takes j then out.modify j f else out)[i]? = out[i]? := by
          split
          · rw [List.getElem?_modify]
            simp [hij]
          · rfl
        rw [hsame]
        simp [Ne.symm hij]

omit [DecidableEq κ] in
@[simp] theorem length_deliver (takes : Nat → Bool) (f : β → β) (indices : List Nat)
    (out : List β) :
    (indices.foldl (fun out j => if takes j then out.modify j f else out) out).length =
      out.length := by
  induction indices generalizing out with
  | nil => rfl
  | cons j indices ih =>
      rw [List.foldl_cons, ih]
      split
      · rw [List.length_modify]
      · rfl

omit [DecidableEq κ] in
/-- A loop over entries does at a position what each of them does there. -/
theorem getElem?_foldl {record : List β → α → List β} {i : Nat} {f : α → β → β}
    (hrecord : ∀ out d, (record out d)[i]? = out[i]?.map (f d)) (ds : List α) (out : List β) :
    (ds.foldl record out)[i]? = out[i]?.map (fun b => ds.foldl (fun b d => f d b) b) := by
  induction ds generalizing out with
  | nil => simp
  | cons d ds ih =>
      rw [List.foldl_cons, ih, hrecord, Option.map_map]
      rfl

omit [DecidableEq κ] in
theorem length_foldl {record : List β → α → List β}
    (hrecord : ∀ out d, (record out d).length = out.length) (ds : List α) (out : List β) :
    (ds.foldl record out).length = out.length := by
  induction ds generalizing out with
  | nil => rfl
  | cons d ds ih => rw [List.foldl_cons, ih, hrecord]

omit [DecidableEq κ] in
/-- Of the answers to keys without repeats, only those to one key say anything to it. -/
theorem flatMap_eq_of_nodup {ks : List κ} (hnodup : ks.Nodup) {k : κ} (hk : k ∈ ks)
    {f : κ → List α} (hothers : ∀ k' ∈ ks, k' ≠ k → f k' = []) : ks.flatMap f = f k := by
  induction ks with
  | nil => cases hk
  | cons k' ks ih =>
      obtain ⟨hk', hnodup⟩ := List.nodup_cons.mp hnodup
      rw [List.flatMap_cons]
      -- The key is the head, and gives nothing again behind it, or it lies in the tail.
      rcases List.mem_cons.mp hk with rfl | hmem
      · have hrest : ks.flatMap f = [] := by
          rw [List.flatMap_eq_nil_iff]
          intro k₂ hk₂
          apply hothers k₂ (List.mem_cons_of_mem _ hk₂)
          rintro rfl
          exact hk' hk₂
        rw [hrest, List.append_nil]
      · have hne : k' ≠ k := by
          rintro rfl
          exact hk' hmem
        rw [hothers k' List.mem_cons_self hne, List.nil_append]
        exact ih hnodup hmem fun k₂ hk₂ => hothers k₂ (List.mem_cons_of_mem _ hk₂)

end Routing
