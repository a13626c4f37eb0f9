import Mathlib.Logic.Function.Basic

/-!
# Records under a key

A loop that files what it makes of each entry under the entry's key. A later entry replaces an earlier
one under the same key, and one of which nothing is made leaves the record as it is.

* `foldl_record_apply` — what is filed under a key is what the last entry made.
* `foldl_record_eq_none_iff`, `foldl_record_of_last` — when nothing is, and what is.
-/

namespace Records

variable {α κ β : Type} [DecidableEq κ] {key : α → κ} {value : α → Option β} {f : κ → Option β}
  {l : List α} {k : κ}

/-- The record after one more entry. -/
def record (key : α → κ) (value : α → Option β) (f : κ → Option β) (a : α) : κ → Option β :=
  match value a with
  | some b => Function.update f (key a) (some b)
  | none => f

theorem record_apply (a : α) :
    record key value f a k = (if key a = k then value a else none).or (f k) := by
  unfold record
  cases hvalue : value a with
  | none => simp
  | some b =>
      by_cases hk : key a = k
      · subst hk
        simp
      · simp [hk, Function.update_of_ne (Ne.symm hk)]

/-- Of the entries under a key, the last one of which something is made counts. -/
theorem foldl_record_apply (l : List α) (f : κ → Option β) (k : κ) :
    l.foldl (record key value) f k =
      (l.reverse.findSome? (fun a => if key a = k then value a else none)).or (f k) := by
  induction l generalizing f with
  | nil => rfl
  | cons a l ih =>
      rw [List.foldl_cons, ih, record_apply, List.reverse_cons, List.findSome?_append,
        List.findSome?_singleton, Option.or_assoc]

theorem foldl_record_eq_none_iff :
    l.foldl (record key value) f k = none ↔
      f k = none ∧ ∀ a ∈ l, key a = k → value a = none := by
  rw [foldl_record_apply, Option.or_eq_none_iff, List.findSome?_eq_none_iff, and_comm]
  simp

theorem foldl_record_of_last {before after : List α} {a : α} {b : β} (ha : value a = some b)
    (hafter : ∀ a' ∈ after, key a' = key a → value a' = none) :
    (before ++ a :: after).foldl (record key value) f (key a) = some b := by
  have hnone : after.foldl (record key value) (fun _ => none) (key a) = none :=
    foldl_record_eq_none_iff.mpr ⟨rfl, hafter⟩
  rw [foldl_record_apply, Option.or_none] at hnone
  rw [foldl_record_apply, List.reverse_append, List.reverse_cons, List.findSome?_append,
    List.findSome?_append, hnone, List.findSome?_singleton, if_pos rfl, ha]
  rfl

/-- What is filed was made of an entry under its key. -/
theorem exists_of_foldl_record {b : β}
    (h : l.foldl (record key value) (fun _ => none) k = some b) :
    ∃ a ∈ l, key a = k ∧ value a = some b := by
  rw [foldl_record_apply, Option.or_none] at h
  obtain ⟨a, ha, hvalue⟩ := List.exists_of_findSome?_eq_some h
  split at hvalue
  · next hk => exact ⟨a, List.mem_reverse.mp ha, hk, hvalue⟩
  · cases hvalue

/-- Filed once more into a record that has nothing else, everything stays. -/
theorem foldl_record_of_le (hf : ∀ k b, f k = some b →
    l.foldl (record key value) (fun _ => none) k = some b) :
    l.foldl (record key value) f = l.foldl (record key value) (fun _ => none) := by
  funext k
  have h := hf k
  rw [foldl_record_apply] at h ⊢
  rw [foldl_record_apply]
  cases hlast : l.reverse.findSome? (fun a => if key a = k then value a else none) with
  | some b => rfl
  | none =>
      rw [hlast] at h
      cases hk : f k with
      | none => rfl
      | some b => exact (h b hk).symm

end Records
