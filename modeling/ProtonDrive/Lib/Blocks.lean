import Mathlib.Data.List.Sort

/-!
# Blocks and slices of a list, and sorting by a key

* `block size l i` — the `i`-th of the consecutive pieces of `size` elements that a list is cut
  into.
* `flatten_blocks` — together they are the list.
* `slice l lo hi` — the elements from position `lo` up to `hi`; `slice_append` cuts it where the
  list is put together, `slice_slice` where two of them meet.
* `sortByKey_eq` — a list is sorted by keys that are all different in one way only.
-/

variable {α κ : Type}

/-! ## Blocks -/

/-- The `i`-th piece of `size` elements. -/
def block (size : Nat) (l : List α) (i : Nat) : List α := (l.drop (i * size)).take size

/-- How many pieces there are. -/
def blockCount (size : Nat) (l : List α) : Nat := (l.length + size - 1) / size

theorem lt_blockCount {size : Nat} (hsize : 0 < size) (l : List α) (i : Nat) :
    i < blockCount size l ↔ i * size < l.length := by
  unfold blockCount
  rw [Nat.lt_div_iff_mul_lt hsize]
  omega

theorem length_block (size : Nat) (l : List α) (i : Nat) :
    (block size l i).length = min size (l.length - i * size) := by
  unfold block
  rw [List.length_take, List.length_drop]

/-- No piece is empty. -/
theorem block_ne_nil {size : Nat} (hsize : 0 < size) {l : List α} {i : Nat}
    (h : i < blockCount size l) : block size l i ≠ [] := by
  have hlt := (lt_blockCount hsize l i).mp h
  apply List.ne_nil_of_length_pos
  rw [length_block]
  omega

/-- Only the last piece may be shorter. -/
theorem length_block_of_lt {size : Nat} (hsize : 0 < size) {l : List α} {i : Nat}
    (h : i + 1 < blockCount size l) : (block size l i).length = size := by
  have hlt := (lt_blockCount hsize l (i + 1)).mp h
  rw [Nat.succ_mul] at hlt
  rw [length_block]
  omega

theorem block_eq_nil {size : Nat} (hsize : 0 < size) {l : List α} {i : Nat}
    (h : blockCount size l ≤ i) : block size l i = [] := by
  have hle := mt (lt_blockCount hsize l i).mpr (Nat.not_lt.mpr h)
  apply List.eq_nil_of_length_eq_zero
  rw [length_block]
  omega

/-- The first pieces together. -/
theorem flatten_blocks_take (size : Nat) (l : List α) (k : Nat) :
    ((List.range k).map (block size l)).flatten = l.take (k * size) := by
  induction k with
  | zero => simp
  | succ k ih =>
      rw [List.range_succ, List.map_append, List.flatten_append, ih, Nat.succ_mul, List.take_add]
      simp [block]

theorem flatten_blocks {size : Nat} (hsize : 0 < size) (l : List α) :
    ((List.range (blockCount size l)).map (block size l)).flatten = l := by
  rw [flatten_blocks_take]
  apply List.take_of_length_le
  have hle := mt (lt_blockCount hsize l (blockCount size l)).mpr (Nat.lt_irrefl _)
  omega

/-! ## Slices -/

/-- The elements from position `lo` up to `hi`. -/
def slice (l : List α) (lo hi : Nat) : List α := (l.take hi).drop lo

@[simp] theorem slice_nil (lo hi : Nat) : slice ([] : List α) lo hi = [] := by simp [slice]

theorem slice_eq_nil {l : List α} {lo hi : Nat} (h : hi ≤ lo ∨ l.length ≤ lo) :
    slice l lo hi = [] := by
  unfold slice
  apply List.drop_eq_nil_of_le
  rw [List.length_take]
  omega

/-- Past the end there is nothing more. -/
theorem slice_min_length (l : List α) (lo hi : Nat) :
    slice l lo (min hi l.length) = slice l lo hi := by
  unfold slice
  rw [← List.take_eq_take_min]

/-- A slice of a list that is put together is put together. -/
theorem slice_append (l l' : List α) (lo hi : Nat) :
    slice (l ++ l') lo hi = slice l lo hi ++ slice l' (lo - l.length) (hi - l.length) := by
  unfold slice
  rw [List.take_append, List.drop_append, List.length_take]
  by_cases hhi : hi ≤ l.length
  · have hnone : hi - l.length = 0 := by omega
    simp [hnone]
  · have hmin : min hi l.length = l.length := by omega
    rw [hmin]

/-- Slices that meet make one slice. -/
theorem slice_slice {l : List α} {lo mid hi : Nat} (hlo : lo ≤ mid) (hhi : mid ≤ hi) :
    slice l lo mid ++ slice l mid hi = slice l lo hi := by
  unfold slice
  have hmid : l.take mid = (l.take hi).take mid := by rw [List.take_take, Nat.min_eq_left hhi]
  rw [hmid]
  generalize l.take hi = m
  have hsplit : m.drop lo =
      (m.take mid).drop lo ++ (m.drop mid).drop (lo - (m.take mid).length) := by
    rw [← List.drop_append, List.take_append_drop]
  rw [hsplit, List.length_take]
  congr 1
  by_cases hlen : mid ≤ m.length
  · rw [Nat.min_eq_left hlen, Nat.sub_eq_zero_of_le hlo, List.drop_zero]
  · rw [List.drop_eq_nil_of_le (by omega), List.drop_nil]

/-! ## Sorting -/

section Sorting

variable [LinearOrder κ]

/-- `sort_by_key`. -/
def sortByKey (key : α → κ) (l : List α) : List α := l.insertionSort (fun a b => key a ≤ key b)

theorem sortByKey_perm (key : α → κ) (l : List α) : (sortByKey key l).Perm l :=
  List.perm_insertionSort _ l

theorem sortByKey_pairwise (key : α → κ) (l : List α) :
    (sortByKey key l).Pairwise (fun a b => key a ≤ key b) := by
  have : Std.Total (fun a b : α => key a ≤ key b) := ⟨fun a b => le_total (key a) (key b)⟩
  have : IsTrans α (fun a b : α => key a ≤ key b) := ⟨fun _ _ _ h h' => le_trans h h'⟩
  exact List.pairwise_insertionSort _ l

/-- Elements with different keys have one order. -/
theorem sortByKey_eq {key : α → κ} {l l' : List α} (hperm : l'.Perm l)
    (hnodup : (l.map key).Nodup) (hsorted : l'.Pairwise (fun a b => key a ≤ key b)) :
    sortByKey key l = l' := by
  have hinj : ∀ a ∈ l, ∀ b ∈ l, key a = key b → a = b := fun a ha b hb =>
    List.inj_on_of_nodup_map hnodup ha hb
  refine List.Perm.eq_of_pairwise ?_ (sortByKey_pairwise key l) hsorted
    ((sortByKey_perm key l).trans hperm.symm)
  intro a b ha hb hab hba
  exact hinj a ((sortByKey_perm key l).mem_iff.mp ha) b (hperm.mem_iff.mp hb) (le_antisymm hab hba)

end Sorting
