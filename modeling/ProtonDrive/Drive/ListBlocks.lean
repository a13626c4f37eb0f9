import Mathlib
import ProtonDrive.Lib.Checked
import ProtonDrive.Drive.BlockTargets

/-!
# Listing the blocks of a revision

The block table of a revision comes in pages of fifty. `list_blocks` asks for the first page, and
then for several pages at a time without knowing how many there are: two, four, and from then on
six. The first page with fewer than fifty blocks is the last one, and what has been asked for after
it is surplus.

The plain listing asks for one page after the other. The two differ where a surplus page answers
with an error, which ends the listing although nothing of that page is needed.

* `serially_iff` — what the plain listing returns.
* `listBlocks_of_endsAt` — what `list_blocks` returns, if the table has an end.
* `listsAsSerially_iff` — when the two are the same.

The number of the first block of a page is computed in 32 bits; a request for which that overflows
is not sent, and the listing does not return (`none`).
-/

namespace ProtonDrive.ListBlocks

open Content (BlockDto orderBlocks incompleteContents Ordered orderBlocks_eq_ok orderBlocks_of_perm)
open Checked (i32)

def pageSize : Nat := 50

def maxPageWindow : Nat := 6

/-- A page of the listing: the blocks, and what is said of the revision itself. -/
structure RevisionDto (μ : Type) where
  metadata : μ
  blocks : List BlockDto

/-- What the server answers for each page. -/
structure Pages (μ : Type) where
  page : Nat → Except ProtonError (RevisionDto μ)
  length_le : ∀ i r, page i = .ok r → r.blocks.length ≤ pageSize

variable {μ : Type} (pages : Pages μ)

/-- The `FromBlockIndex` of a page. -/
def fromIndex (pageIndex : Nat) : Option Nat := do
  let skipped ← Checked.mul i32 pageIndex pageSize
  Checked.add i32 skipped 1

/-- There are no requests for pages from here on. -/
def pageLimit : Nat := 42949673

/-! ## The speculative listing -/

/-- The responses of a batch, in order. An error ends the listing, also once it is complete. -/
def readBatch : List Nat → (complete : Bool) → List BlockDto →
    Except ProtonError (List BlockDto × Bool)
  | [], complete, blocks => .ok (blocks, complete)
  | i :: batch, complete, blocks =>
      match pages.page i with
      | .error e => .error e
      | .ok response =>
          if complete then readBatch batch true blocks
          else readBatch batch (response.blocks.length < pageSize) (blocks ++ response.blocks)

/-- The loop. Every batch has a page, so `pageLimit` rounds are enough. -/
def walk : (rounds nextPage window : Nat) → List BlockDto →
    Option (Except ProtonError (List BlockDto))
  | 0, _, _, _ => none
  | rounds + 1, nextPage, window, blocks =>
      let batch := List.range' nextPage window
      if batch.all (fun i => (fromIndex i).isSome) then
        match readBatch pages batch false blocks with
        | .error e => some (.error e)
        | .ok (blocks, true) => some (.ok blocks)
        | .ok (blocks, false) =>
            walk rounds (nextPage + window) (min (window * 2) maxPageWindow) blocks
      else none

/-- The metadata of the first page, and the blocks in order. -/
def finish (collected : Except ProtonError (List BlockDto)) :
    Except ProtonError (μ × List BlockDto) := do
  let first ← pages.page 0
  let blocks ← orderBlocks (← collected)
  return (first.metadata, blocks)

def listBlocks : Option (Except ProtonError (μ × List BlockDto)) :=
  match pages.page 0 with
  | .error e => some (.error e)
  | .ok first =>
      let collected :=
        if first.blocks.length < pageSize then some (.ok first.blocks)
        else walk pages pageLimit 1 2 first.blocks
      collected.map (finish pages)

/-! ## The plain listing -/

/-- One page after the other, up to the first one that is not full. -/
def serialFrom : (fuel pageIndex : Nat) → List BlockDto →
    Option (Except ProtonError (List BlockDto))
  | 0, _, _ => none
  | fuel + 1, pageIndex, blocks =>
      match pages.page pageIndex with
      | .error e => some (.error e)
      | .ok response =>
          if response.blocks.length < pageSize then some (.ok (blocks ++ response.blocks))
          else serialFrom fuel (pageIndex + 1) (blocks ++ response.blocks)

/-- The plain listing returns this. -/
def ListsSerially (r : Except ProtonError (μ × List BlockDto)) : Prop :=
  ∃ fuel collected, serialFrom pages fuel 0 [] = some collected ∧ r = finish pages collected

/-! ## Where the table ends -/

def Full (i : Nat) : Prop := ∃ r, pages.page i = .ok r ∧ pageSize ≤ r.blocks.length

/-- The first page that is not full, or cannot be had. -/
def EndsAt (k : Nat) : Prop := (∀ i < k, Full pages i) ∧ ¬ Full pages k

def blocksOf (i : Nat) : List BlockDto :=
  match pages.page i with
  | .ok r => r.blocks
  | .error _ => []

/-- The blocks of the pages before `k`. -/
def before (k : Nat) : List BlockDto := (List.range k).flatMap (blocksOf pages)

/-- The blocks of all pages up to `k`. -/
def table (k : Nat) : List BlockDto := before pages k ++ blocksOf pages k

/-- What a listing that ends at `k` has collected. -/
def collectedAt (k : Nat) : Except ProtonError (List BlockDto) :=
  match pages.page k with
  | .error e => .error e
  | .ok _ => .ok (table pages k)

variable {pages}

/-- The blocks of a page that was answered. -/
theorem blocksOf_eq {i : Nat} {r : RevisionDto μ} (h : pages.page i = .ok r) :
    blocksOf pages i = r.blocks := by simp only [blocksOf, h]

/-- The blocks before the next page are those up to this one. -/
theorem before_succ (k : Nat) : before pages (k + 1) = table pages k := by
  simp [before, table, List.range_succ]

/-- More pages add their blocks. -/
theorem before_add (k n : Nat) :
    before pages (k + n) = before pages k ++ (List.range' k n).flatMap (blocksOf pages) := by
  unfold before
  rw [List.range_eq_range', List.range_eq_range', ← List.flatMap_append]
  congr 1
  have happend : List.range' 0 k ++ List.range' (0 + k) n = List.range' 0 (k + n) :=
    List.range'_append_1
  rw [← happend, Nat.zero_add]

/-- A listing that ends at an answered page has the blocks up to it. -/
theorem collectedAt_of_ok {k : Nat} {r : RevisionDto μ} (h : pages.page k = .ok r) :
    collectedAt pages k = .ok (before pages k ++ r.blocks) := by
  simp only [collectedAt, h, table, blocksOf_eq h]

/-- A listing ends at one page only. -/
theorem EndsAt.unique {k k' : Nat} (h : EndsAt pages k) (h' : EndsAt pages k') : k = k' := by
  rcases Nat.lt_trichotomy k k' with hlt | heq | hlt
  · exact absurd (h'.1 k hlt) h.2
  · exact heq
  · exact absurd (h.1 k' hlt) h'.2

/-- A page that was answered ends the listing when it is short. -/
theorem not_full_iff {i : Nat} {r : RevisionDto μ} (h : pages.page i = .ok r) :
    ¬ Full pages i ↔ r.blocks.length < pageSize := by
  rw [← not_iff_not, not_not, Nat.not_lt]
  constructor
  · rintro ⟨r', hr', hle⟩
    rw [h] at hr'
    cases hr'
    exact hle
  · exact fun hle => ⟨r, h, hle⟩

/-- Where not every page is full the listing ends at the first that is not. -/
theorem exists_endsAt (h : ¬ ∀ i, Full pages i) : ∃ k, EndsAt pages k := by
  classical
  have hex : ∃ i, ¬ Full pages i := not_forall.mp h
  refine ⟨Nat.find hex, fun i hi => ?_, Nat.find_spec hex⟩
  exact not_not.mp (Nat.find_min hex hi)

/-! ## The plain listing, in terms of its end -/

/-- Page after page the serial walk comes to where the listing ends. -/
theorem serialFrom_of_endsAt {k i fuel : Nat} (h : EndsAt pages k) (hle : i ≤ k)
    (hfuel : k < fuel + i) :
    serialFrom pages fuel i (before pages i) = some (collectedAt pages k) := by
  induction fuel generalizing i with
  | zero => omega
  | succ fuel ih =>
      unfold serialFrom
      rcases Nat.lt_or_eq_of_le hle with hlt | rfl
      · -- A full page in front of the last one.
        obtain ⟨r, hr, hfull⟩ := h.1 i hlt
        simp only [hr]
        rw [if_neg (Nat.not_lt.mpr hfull), ← blocksOf_eq hr]
        have hnext : before pages i ++ blocksOf pages i = before pages (i + 1) :=
          (before_succ i).symm
        rw [hnext]
        exact ih hlt (by omega)
      · -- The page at which the listing ends: an error or a short page.
        cases hr : pages.page i with
        | error e => simp only [collectedAt, hr]
        | ok r =>
            dsimp only
            rw [if_pos ((not_full_iff hr).mp h.2), collectedAt_of_ok hr]

/-- The serial walk returns only where the listing ends. -/
theorem endsAt_of_serialFrom {fuel i : Nat} {c : Except ProtonError (List BlockDto)}
    (hfull : ∀ j < i, Full pages j) (h : serialFrom pages fuel i (before pages i) = some c) :
    ∃ k, EndsAt pages k ∧ c = collectedAt pages k := by
  induction fuel generalizing i with
  | zero => cases h
  | succ fuel ih =>
      unfold serialFrom at h
      cases hr : pages.page i with
      | error e =>
          simp only [hr] at h
          cases h
          -- An error ends the listing as a short page does.
          refine ⟨i, ⟨hfull, ?_⟩, by simp only [collectedAt, hr]⟩
          rintro ⟨r, hr', -⟩
          rw [hr] at hr'
          cases hr'
      | ok r =>
          simp only [hr] at h
          split at h
          · next hshort =>
            cases h
            exact ⟨i, ⟨hfull, (not_full_iff hr).mpr hshort⟩, (collectedAt_of_ok hr).symm⟩
          · -- The page is full and the walk goes on.
            next hlong =>
            rw [← blocksOf_eq hr] at h
            have hnext : before pages i ++ blocksOf pages i = before pages (i + 1) :=
              (before_succ i).symm
            rw [hnext] at h
            refine ih ?_ h
            intro j hj
            rcases Nat.lt_succ_iff_lt_or_eq.mp hj with hj | rfl
            · exact hfull j hj
            · exact ⟨r, hr, Nat.not_lt.mp hlong⟩

/-- The plain listing returns what it has at the end of the table. -/
theorem serially_iff {r : Except ProtonError (μ × List BlockDto)} :
    ListsSerially pages r ↔ ∃ k, EndsAt pages k ∧ r = finish pages (collectedAt pages k) := by
  constructor
  · rintro ⟨fuel, collected, hserial, rfl⟩
    obtain ⟨k, hk, rfl⟩ := endsAt_of_serialFrom (i := 0) (fun j hj => absurd hj (Nat.not_lt_zero j))
      hserial
    exact ⟨k, hk, rfl⟩
  · rintro ⟨k, hk, rfl⟩
    exact ⟨k + 1, _, serialFrom_of_endsAt hk (Nat.zero_le k) (by omega), rfl⟩

/-! ## Batches -/

/-- The index of a page fits in an `i32` up to the limit. -/
theorem fromIndex_isSome_iff (i : Nat) : (fromIndex i).isSome = true ↔ i < pageLimit := by
  unfold fromIndex Checked.mul Checked.add Checked.fit i32 pageSize pageLimit
  by_cases hmul : i * 50 < 2 ^ 31
  · rw [if_pos hmul]
    simp only [Option.bind_eq_bind, Option.bind_some]
    split
    · next hadd => simpa using (by omega : i < 42949673)
    · next hadd => simpa using (by omega : 42949673 ≤ i)
  · rw [if_neg hmul]
    simpa using (by omega : 42949673 ≤ i)

/-- A window of pages fits exactly when its last page does. -/
theorem batch_all_iff (next : Nat) {window : Nat} (hpos : 0 < window) :
    (List.range' next window).all (fun i => (fromIndex i).isSome) = true ↔
      next + window ≤ pageLimit := by
  simp only [List.all_eq_true, fromIndex_isSome_iff, List.mem_range'_1]
  constructor
  · intro h
    have hlast := h (next + window - 1) (by omega)
    omega
  · intro h i hi
    omega

/-- The first error among the answers for some pages. -/
def firstError (pages : Pages μ) : List Nat → Option ProtonError
  | [] => none
  | i :: batch =>
      match pages.page i with
      | .error e => some e
      | .ok _ => firstError pages batch

/-- After a short page the rest of the batch is looked at for errors only. -/
theorem readBatch_complete (batch : List Nat) (blocks : List BlockDto) :
    readBatch pages batch true blocks =
      match firstError pages batch with
      | some e => .error e
      | none => .ok (blocks, true) := by
  induction batch with
  | nil => rfl
  | cons i batch ih =>
      unfold readBatch firstError
      cases pages.page i with
      | error e => rfl
      | ok r => simpa using ih

/-- Full pages add their blocks and the batch goes on. -/
theorem readBatch_full {batch : List Nat} (h : ∀ i ∈ batch, Full pages i) (rest : List Nat)
    (blocks : List BlockDto) :
    readBatch pages (batch ++ rest) false blocks =
      readBatch pages rest false (blocks ++ batch.flatMap (blocksOf pages)) := by
  induction batch generalizing blocks with
  | nil => simp
  | cons i batch ih =>
      obtain ⟨r, hr, hfull⟩ := h i List.mem_cons_self
      rw [List.cons_append, readBatch]
      simp only [hr, Bool.false_eq_true, if_false, decide_eq_false (Nat.not_lt.mpr hfull)]
      rw [ih (fun j hj => h j (List.mem_cons_of_mem _ hj)), List.flatMap_cons, blocksOf_eq hr,
        List.append_assoc]

/-- The pages after `k` in its batch. -/
def surplus (k finish : Nat) : List Nat := List.range' (k + 1) (finish - (k + 1))

/-- What is left of a listing that ends at `k`, if the batch ends here. -/
def answered (pages : Pages μ) (k finish : Nat) : Except ProtonError (List BlockDto) :=
  match pages.page k with
  | .error e => .error e
  | .ok _ =>
      match firstError pages (surplus k finish) with
      | some e => .error e
      | none => .ok (table pages k)

/-- The batch in which the listing ends returns what was answered up to there. -/
theorem readBatch_endsAt {k next window : Nat} (h : EndsAt pages k) (hle : next ≤ k)
    (hlt : k < next + window) :
    readBatch pages (List.range' next window) false (before pages next) =
      (answered pages k (next + window)).map (·, true) := by
  -- The batch: the full pages, the last one, and the pages past the end.
  have hsplit : List.range' next window =
      List.range' next (k - next) ++ k :: surplus k (next + window) := by
    have hcons : k :: surplus k (next + window) = List.range' k (next + window - k) := by
      obtain ⟨m, hm⟩ : ∃ m, next + window - k = m + 1 := ⟨next + window - k - 1, by omega⟩
      rw [hm, List.range'_succ, surplus]
      congr 2
      omega
    rw [hcons]
    have happend : List.range' next (k - next) ++
        List.range' (next + (k - next)) (next + window - k) =
        List.range' next (k - next + (next + window - k)) := List.range'_append_1
    rw [Nat.add_sub_cancel' hle] at happend
    rw [happend]
    congr 1
    omega
  have hfull : ∀ i ∈ List.range' next (k - next), Full pages i := by
    intro i hi
    rw [List.mem_range'_1] at hi
    exact h.1 i (by omega)
  have hbefore : before pages next ++ (List.range' next (k - next)).flatMap (blocksOf pages) =
      before pages k := by
    rw [← before_add, Nat.add_sub_cancel' hle]
  rw [hsplit, readBatch_full hfull, hbefore, readBatch, answered]
  cases hr : pages.page k with
  | error e => rfl
  | ok r =>
      have hshort := (not_full_iff hr).mp h.2
      simp only [Bool.false_eq_true, if_false, decide_eq_true hshort]
      rw [readBatch_complete, ← blocksOf_eq hr, ← table]
      cases firstError pages (surplus k (next + window)) <;> rfl

/-! ## Windows -/

/-- Where the batch of a page ends. -/
def windowEnd (k : Nat) : Nat :=
  if k = 0 then 1 else if k < 3 then 3 else if k < 7 then 7 else 7 + 6 * ((k - 7) / 6 + 1)

/-- The batches that the loop asks for. -/
inductive IsWindow : (next window : Nat) → Prop where
  | two : IsWindow 1 2
  | four : IsWindow 3 4
  | six (m : Nat) : IsWindow (7 + 6 * m) 6

/-- No window is empty. -/
theorem IsWindow.pos {next window : Nat} (h : IsWindow next window) : 0 < window := by
  cases h <;> omega

/-- After a window comes one of twice its size, up to the largest. -/
theorem IsWindow.succ {next window : Nat} (h : IsWindow next window) :
    IsWindow (next + window) (min (window * 2) maxPageWindow) := by
  cases h with
  | two => exact .four
  | four => exact .six 0
  | six m => exact .six (m + 1)

/-- The window that has the page `k` ends at `windowEnd k`. -/
theorem IsWindow.windowEnd_eq {next window k : Nat} (h : IsWindow next window) (hle : next ≤ k)
    (hlt : k < next + window) : windowEnd k = next + window := by
  unfold windowEnd
  cases h with
  | two => rw [if_neg (by omega), if_pos (by omega)]
  | four => rw [if_neg (by omega), if_neg (by omega), if_pos (by omega)]
  | six m =>
      rw [if_neg (by omega), if_neg (by omega), if_neg (by omega)]
      omega

/-- Every page lies before the end of its window. -/
theorem lt_windowEnd (k : Nat) : k < windowEnd k := by
  unfold windowEnd
  split
  · omega
  · split
    · omega
    · split
      · omega
      · omega

/-- The batch of a page ends no earlier than the batches before it. -/
theorem IsWindow.le_windowEnd {next window k : Nat} (h : IsWindow next window) (hle : next ≤ k) :
    next + window ≤ windowEnd k := by
  by_cases hlt : k < next + window
  · rw [h.windowEnd_eq hle hlt]
  · have hend := lt_windowEnd k
    omega

/-! ## The loop -/

/-- The walk ends in the window in which the listing ends. -/
theorem walk_of_endsAt {k next window rounds : Nat} (h : EndsAt pages k)
    (hwindow : IsWindow next window) (hle : next ≤ k) (hrounds : pageLimit < rounds + next) :
    walk pages rounds next window (before pages next) =
      if windowEnd k ≤ pageLimit then some (answered pages k (windowEnd k)) else none := by
  induction rounds generalizing next window with
  -- More rounds than pages that can be asked for.
  | zero =>
      have hend := lt_windowEnd k
      rw [if_neg (by omega)]
      rfl
  | succ rounds ih =>
      have hend := hwindow.le_windowEnd hle
      have hpos := hwindow.pos
      unfold walk
      dsimp only
      by_cases hrequest : next + window ≤ pageLimit
      · rw [if_pos ((batch_all_iff next hpos).mpr hrequest)]
        by_cases hlt : k < next + window
        · rw [hwindow.windowEnd_eq hle hlt, if_pos hrequest, readBatch_endsAt h hle hlt]
          cases answered pages k (next + window) <;> rfl
        · -- All pages of this window are full, and the next one is twice as large.
          have hfull : ∀ i ∈ List.range' next window, Full pages i := by
            intro i hi
            rw [List.mem_range'_1] at hi
            exact h.1 i (by omega)
          have hread := readBatch_full hfull [] (before pages next)
          rw [List.append_nil, ← before_add] at hread
          rw [hread]
          exact ih hwindow.succ (by omega) (by omega)
      · -- The last index of the window does not fit in an `i32`.
        have hnot : ¬ (List.range' next window).all (fun i => (fromIndex i).isSome) = true :=
          fun hall => hrequest ((batch_all_iff next hpos).mp hall)
        rw [if_neg hnot, if_neg (by omega)]

/-- Where no page is short the walk comes to no end. -/
theorem walk_of_full {next window : Nat} (h : ∀ i, Full pages i) (rounds : Nat)
    (blocks : List BlockDto) : walk pages rounds next window blocks = none := by
  induction rounds generalizing next window blocks with
  | zero => rfl
  | succ rounds ih =>
      unfold walk
      dsimp only
      split
      · have hfull : ∀ i ∈ List.range' next window, Full pages i := fun i _ => h i
        have hread := readBatch_full hfull [] blocks
        rw [List.append_nil] at hread
        rw [hread]
        exact ih _
      · rfl

/-- What `list_blocks` returns, if the table has an end. -/
theorem listBlocks_of_endsAt {k : Nat} (h : EndsAt pages k) :
    listBlocks pages =
      if windowEnd k ≤ pageLimit then some (finish pages (answered pages k (windowEnd k)))
      else none := by
  unfold listBlocks
  cases hfirst : pages.page 0 with
  | error e =>
      have hzero : k = 0 := by
        by_contra hne
        obtain ⟨r, hr, -⟩ := h.1 0 (by omega)
        rw [hfirst] at hr
        cases hr
      subst hzero
      rw [if_pos (by decide), finish, hfirst]
      rfl
  | ok first =>
      dsimp only
      -- The first page is read alone, before any window.
      by_cases hshort : first.blocks.length < pageSize
      · have hzero : k = 0 := by
          by_contra hne
          exact (not_full_iff hfirst).mpr hshort (h.1 0 (by omega))
        subst hzero
        have hanswered : answered pages 0 (windowEnd 0) = .ok first.blocks := by
          simp [answered, hfirst, surplus, windowEnd, firstError, table, before, blocksOf]
        rw [if_pos hshort, if_pos (by decide), hanswered, Option.map_some]
      · have hne : k ≠ 0 := by
          rintro rfl
          exact hshort ((not_full_iff hfirst).mp h.2)
        have hone : first.blocks = before pages 1 := by
          simp [before, blocksOf, hfirst]
        rw [if_neg hshort, hone,
          walk_of_endsAt h .two (by omega) (Nat.lt_succ_self pageLimit)]
        split <;> rfl

/-- Where no page is short the call panics. -/
theorem listBlocks_of_full (h : ∀ i, Full pages i) : listBlocks pages = none := by
  obtain ⟨r, hr, hfull⟩ := h 0
  simp only [listBlocks, hr]
  rw [if_neg (Nat.not_lt.mpr hfull), walk_of_full h]
  rfl

/-! ## Indices -/

/-- The indices `1` to `n`, each once. -/
def Contiguous (collected : List BlockDto) : Prop :=
  ∃ n, (collected.map BlockDto.index).Perm ((List.range' 1 n).map Int.ofNat)

/-- Ordered blocks are numbered from one. -/
theorem map_index_of_ordered {blocks : List BlockDto} (h : Ordered blocks) :
    blocks.map BlockDto.index = (List.range' 1 blocks.length).map Int.ofNat := by
  apply List.ext_getElem
  · simp
  · intro i hi _
    rw [List.length_map] at hi
    have hindex := h i blocks[i] (List.getElem?_eq_getElem hi)
    simp only [List.getElem_map, List.getElem_range', hindex, Int.ofNat_eq_natCast]
    omega

/-- Only blocks with a gap are refused. -/
theorem orderBlocks_eq_error_iff {collected : List BlockDto} {e : ProtonError} :
    orderBlocks collected = .error e ↔ e = incompleteContents ∧ ¬ Contiguous collected := by
  constructor
  · intro h
    refine ⟨?_, ?_⟩
    · unfold orderBlocks at h
      dsimp only at h
      split at h
      · cases h
      · cases h
        rfl
    · -- Blocks without a gap are ordered.
      rintro ⟨n, hperm⟩
      obtain ⟨blocks, hok, -⟩ := orderBlocks_of_perm hperm
      rw [h] at hok
      cases hok
  · rintro ⟨rfl, hnot⟩
    cases horder : orderBlocks collected with
    | ok blocks =>
        obtain ⟨hordered, hperm⟩ := orderBlocks_eq_ok horder
        refine absurd ⟨blocks.length, ?_⟩ hnot
        rw [← map_index_of_ordered hordered]
        exact (hperm.map BlockDto.index).symm
    | error e =>
        unfold orderBlocks at horder
        dsimp only at horder
        split at horder
        · cases horder
        · cases horder
          rfl

/-! ## The two listings -/

variable (pages) in
/-- `list_blocks` returns what the plain listing returns, and blocks only if their indices are `1`
to `n`, in order. -/
structure ListsAsSerially : Prop where
  same : ∀ r, listBlocks pages = some r ↔ ListsSerially pages r
  contiguous : ∀ metadata blocks, listBlocks pages = some (.ok (metadata, blocks)) →
    blocks.map BlockDto.index = (List.range' 1 blocks.length).map Int.ofNat

variable (pages) in
/-- If the table has an end, the batch of its last page can be asked for, and no surplus page
answers with an error, unless it is the one that the indices of the table give rise to anyway. -/
def Undisturbed : Prop :=
  ∀ k, EndsAt pages k → windowEnd k ≤ pageLimit ∧
    ∀ r e, pages.page k = .ok r → firstError pages (surplus k (windowEnd k)) = some e →
      e = incompleteContents ∧ ¬ Contiguous (table pages k)

/-- What is returned is ordered. -/
theorem finish_eq_ok {collected : Except ProtonError (List BlockDto)} {metadata : μ}
    {blocks : List BlockDto} (h : finish pages collected = .ok (metadata, blocks)) :
    Ordered blocks := by
  unfold finish at h
  obtain ⟨first, -, h⟩ := Except.bind_eq_ok.mp h
  obtain ⟨c, -, h⟩ := Except.bind_eq_ok.mp h
  obtain ⟨ordered, horder, h⟩ := Except.bind_eq_ok.mp h
  cases h
  exact (orderBlocks_eq_ok horder).1

/-- Whatever the server answers, what is returned is in order. -/
theorem contiguous_of_listBlocks {metadata : μ} {blocks : List BlockDto}
    (h : listBlocks pages = some (.ok (metadata, blocks))) :
    blocks.map BlockDto.index = (List.range' 1 blocks.length).map Int.ofNat := by
  by_cases hfull : ∀ i, Full pages i
  · rw [listBlocks_of_full hfull] at h
    cases h
  · obtain ⟨k, hk⟩ := exists_endsAt hfull
    rw [listBlocks_of_endsAt hk] at h
    split at h
    · exact map_index_of_ordered (finish_eq_ok (Option.some.inj h))
    · cases h

/-- The first page answers with blocks if the last one does. -/
theorem EndsAt.first {k : Nat} (h : EndsAt pages k) {r : RevisionDto μ}
    (hr : pages.page k = .ok r) : ∃ first, pages.page 0 = .ok first := by
  cases k with
  | zero => exact ⟨r, hr⟩
  | succ k =>
      obtain ⟨first, hfirst, -⟩ := h.1 0 (Nat.succ_pos k)
      exact ⟨first, hfirst⟩

/-- Where the listing ends, a surplus error makes no difference only if the table has the same. -/
theorem finish_answered_eq_iff {k : Nat} (h : EndsAt pages k) :
    finish pages (answered pages k (windowEnd k)) = finish pages (collectedAt pages k) ↔
      ∀ r e, pages.page k = .ok r → firstError pages (surplus k (windowEnd k)) = some e →
        e = incompleteContents ∧ ¬ Contiguous (table pages k) := by
  unfold answered collectedAt
  cases hr : pages.page k with
  | error e => simp
  | ok r =>
      obtain ⟨first, hfirst⟩ := h.first hr
      dsimp only
      cases herror : firstError pages (surplus k (windowEnd k)) with
      | none => simp
      -- A page past the end failed: the same result only if the blocks are refused anyway.
      | some e =>
          have hall : (∀ r' e', (.ok r : Except ProtonError (RevisionDto μ)) = .ok r' →
              some e = some e' → e' = incompleteContents ∧ ¬ Contiguous (table pages k)) ↔
              orderBlocks (table pages k) = .error e := by
            rw [orderBlocks_eq_error_iff]
            refine ⟨fun hboth => hboth r e rfl rfl, ?_⟩
            intro hboth r' e' _ he
            cases he
            exact hboth
          rw [hall]
          simp only [finish, hfirst, bind, Except.bind]
          cases orderBlocks (table pages k) with
          | ok blocks => simp [pure, Except.pure]
          | error e' => simp [eq_comm]

/-- **When the speculative listing is the plain one**: exactly when no surplus page disturbs it. -/
theorem listsAsSerially_iff (pages : Pages μ) : ListsAsSerially pages ↔ Undisturbed pages := by
  constructor
  · intro h k hk
    have hserial := (h.same _).mpr (serially_iff.mpr ⟨k, hk, rfl⟩)
    rw [listBlocks_of_endsAt hk] at hserial
    split at hserial
    · next hle => exact ⟨hle, (finish_answered_eq_iff hk).mp (Option.some.inj hserial)⟩
    · cases hserial
  · intro h
    refine ⟨?_, fun _ _ => contiguous_of_listBlocks⟩
    intro r
    rw [serially_iff]
    -- Endless listings return neither here nor serially.
    by_cases hfull : ∀ i, Full pages i
    · rw [listBlocks_of_full hfull]
      apply iff_of_false (by simp)
      rintro ⟨k, hk, -⟩
      exact hk.2 (hfull k)
    · obtain ⟨k, hk⟩ := exists_endsAt hfull
      obtain ⟨hle, herror⟩ := h k hk
      rw [listBlocks_of_endsAt hk, if_pos hle, (finish_answered_eq_iff hk).mpr herror,
        Option.some.injEq]
      constructor
      · rintro rfl
        exact ⟨k, hk, rfl⟩
      · rintro ⟨k', hk', rfl⟩
        rw [hk.unique hk']

/-! ## A file of fifty-one blocks -/

def blockDto (index : Nat) : BlockDto := ⟨index, "", ""⟩

def pastTheEnd : ProtonError := .api ⟨.invalidValue, 422, "no such block", none⟩

/-- The second page is the last one, and the server has nothing but an error for the third. -/
def fiftyOne : Pages Unit where
  page := fun i =>
    if i = 0 then .ok ⟨(), (List.range' 1 50).map blockDto⟩
    else if i = 1 then .ok ⟨(), [blockDto 51]⟩
    else .error pastTheEnd
  length_le := by
    intro i r hr
    split at hr
    · cases hr
      simp [pageSize]
    · split at hr
      · cases hr
        simp [pageSize]
      · cases hr

/-- Fifty-one blocks end on the second page. -/
theorem fiftyOne_endsAt : EndsAt fiftyOne 1 := by
  refine ⟨?_, ?_⟩
  · intro i hi
    obtain rfl : i = 0 := by omega
    exact ⟨_, rfl, by simp [pageSize]⟩
  · rintro ⟨r, hr, hle⟩
    cases hr
    exact absurd hle (by decide)

/-- The plain listing returns all blocks; the speculative one has asked for a page too many. -/
theorem not_listsAsSerially :
    listBlocks fiftyOne = some (.error pastTheEnd) ∧
      ListsSerially fiftyOne (.ok ((), (List.range' 1 51).map blockDto)) ∧
      ¬ ListsAsSerially fiftyOne := by
  have hlist : listBlocks fiftyOne = some (.error pastTheEnd) := by
    rw [listBlocks_of_endsAt fiftyOne_endsAt, if_pos (by decide)]
    rfl
  -- Page by page the second page is short, and nothing is asked for past it.
  have hserial : ListsSerially fiftyOne (.ok ((), (List.range' 1 51).map blockDto)) := by
    refine serially_iff.mpr ⟨1, fiftyOne_endsAt, ?_⟩
    have htable : table fiftyOne 1 = (List.range' 1 51).map blockDto := rfl
    have hordered : Ordered ((List.range' 1 51).map blockDto) := by
      intro i b hb
      obtain ⟨n, hn, rfl⟩ := List.mem_map.mp (List.mem_of_getElem? hb)
      simp only [List.getElem?_map, Option.map_eq_some_iff] at hb
      obtain ⟨m, hm, hbm⟩ := hb
      rw [← hbm]
      have hget := List.getElem?_eq_some_iff.mp hm
      obtain ⟨hlt, hget⟩ := hget
      rw [List.getElem_range'] at hget
      simp only [blockDto]
      omega
    have hcollected : collectedAt fiftyOne 1 = .ok (table fiftyOne 1) := rfl
    rw [hcollected, htable]
    show Except.ok ((), (List.range' 1 51).map blockDto) =
      (orderBlocks ((List.range' 1 51).map blockDto)).bind fun blocks => .ok ((), blocks)
    rw [Content.orderBlocks_ordered hordered]
    rfl
  refine ⟨hlist, hserial, ?_⟩
  intro h
  have hsame := (h.same _).mpr hserial
  rw [hlist] at hsame
  cases hsame

end ProtonDrive.ListBlocks
