import Mathlib
import ProtonDrive.Lib.Blocks
import ProtonDrive.Lib.Checked
import ProtonDrive.Drive.Upload

/-!
# Reading ranges of a revision

A `RevisionReader` serves any range of the plaintext by fetching the blocks that overlap it. Where a
block starts is the sum of the sizes of the blocks before it, and the sizes come from what the
uploader has written into the extended attributes of the revision, ranked by `rank_block_sizes`.

Sizes, offsets and lengths are 64-bit numbers. An operation that overflows is `none` here: it panics
or wraps around, depending on the build.

* `readAt_eq` — with true sizes a read is the slice of the plaintext.
* `readAt_isSome` — a reader that could be opened never overflows, whatever it is asked for.
* `rankBlockSizes_refuses_iff` — when sizes that cannot be right are refused.
* `noOverflow_iff` — when an uploader cannot make it overflow.
-/

namespace ProtonDrive.RangeRead

open OpenPgp (Bytes)
open Content (defaultBlockSize)
open Checked (u64)

/-! ## Sizes -/

/-- What the uploader has written about the content of a file. -/
structure DecryptedCommonExtendedAttributes where
  size : Option Int64
  blockSizes : Option (List Int64)
  deriving DecidableEq, Repr

def nonPositiveSize (revisionId : String) (bad : Nat) : ProtonError :=
  .invalidOperation ("revision " ++ revisionId ++ " records a non-positive size for block " ++
    toString bad)

def noSizeInformation (revisionId : String) (blockCount : Nat) : ProtonError :=
  .invalidOperation ("revision " ++ revisionId ++ " has " ++ toString blockCount ++
    " blocks but no usable size information (no block sizes and no total in its " ++
    "extended attributes)")

/-- The recorded sizes, if there is one for each block. -/
def recordedSizes (common : Option DecryptedCommonExtendedAttributes) (blockCount : Nat) :
    Option (List Int64) :=
  (common.bind DecryptedCommonExtendedAttributes.blockSizes).filter (·.length == blockCount)

/-- The recorded total, if it can be one. -/
def recordedTotal (common : Option DecryptedCommonExtendedAttributes) : Option Nat :=
  ((common.bind DecryptedCommonExtendedAttributes.size).filter (0 ≤ ·)).map
    (fun total => total.toInt.toNat)

/-- Full blocks, as far as the total goes. -/
def sizesOfTotal (total blockCount : Nat) : Option (List Nat) :=
  (List.range blockCount).mapM (fun i =>
    (Checked.mul u64 defaultBlockSize i).map (fun start => min (total - start) defaultBlockSize))

def rankBlockSizes (common : Option DecryptedCommonExtendedAttributes) (revisionId : String)
    (blockCount : Nat) : Option (Except ProtonError (List Nat)) :=
  match recordedSizes common blockCount with
  | some sizes =>
      match sizes.findIdx? (· ≤ 0) with
      | some bad => some (.error (nonPositiveSize revisionId bad))
      | none => some (.ok (sizes.map (fun size => size.toInt.toNat)))
  | none =>
      match recordedTotal common with
      | some total => (sizesOfTotal total blockCount).map .ok
      | none =>
          if blockCount ≤ 1 then some (.ok (List.replicate blockCount defaultBlockSize))
          else some (.error (noSizeInformation revisionId blockCount))

/-! ## The reader -/

/-- A reader, with the sizes it believes in. -/
structure RevisionReader where
  blockSizes : List Nat
  fileSize : Nat
  sum_eq : blockSizes.sum = fileSize
  fileSize_lt : fileSize < u64

/-- `RevisionReader::new`, which sums the sizes up. -/
def RevisionReader.new (blockSizes : List Nat) : Option RevisionReader :=
  match h : Checked.sum u64 blockSizes with
  | none => none
  | some fileSize =>
      have hsum := (Checked.sum_eq_some (by decide)).mp h
      some ⟨blockSizes, fileSize, hsum.2, hsum.2 ▸ hsum.1⟩

/-- The sizes of a revision, and a reader over them. -/
def openRevision (common : Option DecryptedCommonExtendedAttributes) (revisionId : String)
    (blockCount : Nat) : Option (Except ProtonError RevisionReader) :=
  match rankBlockSizes common revisionId blockCount with
  | none => none
  | some (.error e) => some (.error e)
  | some (.ok sizes) => (RevisionReader.new sizes).map .ok

/-! ## Reading -/

/-- The loop of `plan_blocks`, from the block with this index on, which starts here. -/
def planFrom (offset finish : Nat) : (index blockStart : Nat) → List Nat → Option (List (Nat × Nat))
  | _, _, [] => some []
  | index, blockStart, size :: sizes =>
      if finish ≤ blockStart then some []
      else do
        let blockEnd ← Checked.add u64 blockStart size
        let wanted ← planFrom offset finish (index + 1) blockEnd sizes
        return if offset < blockEnd then (index, blockStart) :: wanted else wanted

def planBlocks (blockSizes : List Nat) (offset finish : Nat) : Option (List (Nat × Nat)) :=
  planFrom offset finish 0 0 blockSizes

def spliceBlock (out plaintext : Bytes) (blockStart offset finish : Nat) : Option Bytes := do
  let lo := offset - blockStart
  let hi := min (← Checked.sub finish blockStart) plaintext.length
  return if lo < hi then out ++ slice plaintext lo hi else out

/-- The loop of `read_at`. The blocks arrive in the order of the plan; `blockPlaintext` is what
became of the fetch of each. -/
def spliceEach (blockPlaintext : Nat → Except ProtonError Bytes) (offset finish : Nat) :
    List (Nat × Nat) → Bytes → Option (Except ProtonError Bytes)
  | [], out => some (.ok out)
  | (index, blockStart) :: wanted, out =>
      match blockPlaintext index with
      | .error e => some (.error e)
      | .ok plaintext =>
          (spliceBlock out plaintext blockStart offset finish).bind
            (spliceEach blockPlaintext offset finish wanted)

/-- A `read_at`: the blocks whose fetches it lines up, and what it returns. -/
def RevisionReader.readAt (r : RevisionReader) (blockPlaintext : Nat → Except ProtonError Bytes)
    (offset length : Nat) : Option (List Nat × Except ProtonError Bytes) :=
  if length = 0 ∨ r.fileSize ≤ offset then some ([], .ok [])
  else do
    let finish := min (Checked.satAdd u64 offset length) r.fileSize
    let wanted ← planBlocks r.blockSizes offset finish
    let result ← spliceEach blockPlaintext offset finish wanted []
    return (wanted.map Prod.fst, result)

/-! ## The plan -/

variable {offset finish : Nat}

/-- What is planned overlaps the range, and starts where the blocks before it end. -/
structure Planned (sizes : List Nat) (offset finish index blockStart : Nat) : Prop where
  start_eq : blockStart = (sizes.take index).sum
  start_lt : blockStart < finish
  lt_end : ∃ size, sizes[index]? = some size ∧ offset < blockStart + size

/-- A file whose length fits in 64 bits is planned without overflow. -/
theorem planFrom_isSome (offset finish index : Nat) {blockStart : Nat} {sizes : List Nat}
    (h : blockStart + sizes.sum < u64) :
    (planFrom offset finish index blockStart sizes).isSome = true := by
  induction sizes generalizing index blockStart with
  | nil => rfl
  | cons size sizes ih =>
      rw [List.sum_cons] at h
      unfold planFrom
      split
      · rfl
      · rw [Checked.add_of_lt (by omega)]
        obtain ⟨wanted, hwanted⟩ := Option.isSome_iff_exists.mp
          (@ih (index + 1) (blockStart + size) (by omega))
        simp [hwanted]

/-- What is planned overlaps the range, block by block. -/
theorem planFrom_mem {before sizes : List Nat} {wanted : List (Nat × Nat)}
    (h : planFrom offset finish before.length before.sum sizes = some wanted)
    {index blockStart : Nat} (hmem : (index, blockStart) ∈ wanted) :
    Planned (before ++ sizes) offset finish index blockStart := by
  induction sizes generalizing before wanted with
  | nil =>
      cases h
      cases hmem
  | cons size sizes ih =>
      unfold planFrom at h
      split at h
      · cases h
        cases hmem
      · -- The block begins before the end of the range, and is wanted if it ends after the start.
        next hlt =>
        obtain ⟨blockEnd, hadd, h⟩ := Option.bind_eq_some_iff.mp h
        obtain ⟨rest, hrest, h⟩ := Option.bind_eq_some_iff.mp h
        obtain ⟨-, rfl⟩ := Checked.add_eq_some.mp hadd
        have hrest' :
            planFrom offset finish (before ++ [size]).length (before ++ [size]).sum sizes =
            some rest := by simpa using hrest
        have hnext := ih hrest'
        rw [List.append_assoc, List.singleton_append] at hnext
        have hwanted : wanted = if offset < before.sum + size then
            (before.length, before.sum) :: rest else rest := (Option.some.inj h).symm
        split at hwanted
        · next hoverlap =>
          subst hwanted
          rcases List.mem_cons.mp hmem with heq | hmem
          · cases heq
            exact ⟨by simp, Nat.not_le.mp hlt, size, by simp, hoverlap⟩
          · exact hnext hmem
        · subst hwanted
          exact hnext hmem

/-- What is planned for the whole file overlaps the range. -/
theorem planBlocks_mem {sizes : List Nat} {wanted : List (Nat × Nat)}
    (h : planBlocks sizes offset finish = some wanted) {index blockStart : Nat}
    (hmem : (index, blockStart) ∈ wanted) : Planned sizes offset finish index blockStart :=
  @planFrom_mem _ _ [] _ _ h _ _ hmem

/-! ## What is put together -/

/-- A block adds the part of it that lies in the range. -/
theorem spliceBlock_eq {blockStart : Nat} (hlt : blockStart < finish) (out plaintext : Bytes)
    (offset : Nat) : spliceBlock out plaintext blockStart offset finish =
      some (out ++ slice plaintext (offset - blockStart) (finish - blockStart)) := by
  unfold spliceBlock
  rw [Checked.sub_of_le (Nat.le_of_lt hlt)]
  simp only [Option.pure_def, Option.bind_eq_bind, Option.bind_some, slice_min_length,
    Option.some.injEq]
  split
  · rfl
  · next hge =>
    rw [slice_eq_nil (by omega), List.append_nil]

/-- No block that is planned makes the splicing overflow. -/
theorem spliceEach_isSome (blockPlaintext : Nat → Except ProtonError Bytes) (offset : Nat)
    {wanted : List (Nat × Nat)} (h : ∀ block ∈ wanted, block.2 < finish) (out : Bytes) :
    (spliceEach blockPlaintext offset finish wanted out).isSome = true := by
  induction wanted generalizing out with
  | nil => rfl
  | cons block wanted ih =>
      obtain ⟨index, blockStart⟩ := block
      unfold spliceEach
      split
      · rfl
      · rw [spliceBlock_eq (h _ List.mem_cons_self), Option.bind_some]
        exact ih (fun block hblock => h block (List.mem_cons_of_mem _ hblock)) _

/-- The blocks of a plan, spliced, are the range of the plaintext. -/
theorem spliceEach_plan {blockPlaintext : Nat → Except ProtonError Bytes} {blocks : List Bytes}
    {index blockStart : Nat} {wanted : List (Nat × Nat)}
    (hplan : planFrom offset finish index blockStart (blocks.map List.length) = some wanted)
    (hplain : ∀ i b, blocks[i]? = some b → blockPlaintext (index + i) = .ok b) (out : Bytes) :
    spliceEach blockPlaintext offset finish wanted out = some (.ok
      (out ++ slice blocks.flatten (offset - blockStart) (finish - blockStart))) := by
  induction blocks generalizing index blockStart wanted out with
  | nil =>
      cases hplan
      simp [spliceEach]
  | cons b blocks ih =>
      rw [List.map_cons] at hplan
      unfold planFrom at hplan
      split at hplan
      · next hle =>
        cases hplan
        rw [slice_eq_nil (by omega), List.append_nil]
        rfl
      · next hlt =>
        obtain ⟨blockEnd, hadd, hplan⟩ := Option.bind_eq_some_iff.mp hplan
        obtain ⟨rest, hrest, hplan⟩ := Option.bind_eq_some_iff.mp hplan
        obtain ⟨-, rfl⟩ := Checked.add_eq_some.mp hadd
        have hplain' : ∀ i b, blocks[i]? = some b → blockPlaintext (index + 1 + i) = .ok b := by
          intro i b hb
          rw [Nat.add_assoc, Nat.add_comm 1 i]
          exact hplain (i + 1) b hb
        have hwanted : wanted = if offset < blockStart + b.length then
            (index, blockStart) :: rest else rest := (Option.some.inj hplan).symm
        rw [List.flatten_cons, slice_append, Nat.sub_sub, Nat.sub_sub, ← List.append_assoc]
        split at hwanted
        · subst hwanted
          unfold spliceEach
          rw [show blockPlaintext index = .ok b from hplain 0 b rfl]
          dsimp only
          rw [spliceBlock_eq (Nat.not_le.mp hlt), Option.bind_some, ih hrest hplain']
        · next hskip =>
          -- The block ends before the range begins.
          subst hwanted
          rw [ih hrest hplain', slice_eq_nil (l := b) (by omega), List.append_nil]

/-! ## Reads -/

/-- No read overflows, whatever the blocks turn out to be. -/
theorem readAt_isSome (r : RevisionReader) (blockPlaintext : Nat → Except ProtonError Bytes)
    (offset length : Nat) : (r.readAt blockPlaintext offset length).isSome = true := by
  unfold RevisionReader.readAt
  split
  · rfl
  · dsimp only
    have hsum : 0 + r.blockSizes.sum < u64 := by
      rw [Nat.zero_add, r.sum_eq]
      exact r.fileSize_lt
    obtain ⟨wanted, hplan⟩ := Option.isSome_iff_exists.mp
      (planFrom_isSome offset (min (Checked.satAdd u64 offset length) r.fileSize) 0 hsum)
    have hplan' :
        planBlocks r.blockSizes offset (min (Checked.satAdd u64 offset length) r.fileSize) =
        some wanted := hplan
    obtain ⟨result, hresult⟩ := Option.isSome_iff_exists.mp
      (spliceEach_isSome blockPlaintext offset (fun block hblock =>
        (planBlocks_mem hplan' hblock).start_lt) [])
    simp [hplan', hresult]

/-- The block ends before the range begins, or begins where it has ended. -/
def WhollyOutside (sizes : List Nat) (offset finish index : Nat) : Prop :=
  (sizes.take (index + 1)).sum ≤ offset ∨ finish ≤ (sizes.take index).sum

/-- A planned block has bytes in the range. -/
theorem Planned.not_whollyOutside {sizes : List Nat} {index blockStart : Nat}
    (h : Planned sizes offset finish index blockStart) :
    ¬ WhollyOutside sizes offset finish index := by
  obtain ⟨size, hsize, hlt⟩ := h.lt_end
  have hend : (sizes.take (index + 1)).sum = blockStart + size := by
    rw [List.take_add_one, hsize, h.start_eq, List.sum_append]
    simp
  unfold WhollyOutside
  rw [hend, ← h.start_eq]
  have hstart := h.start_lt
  omega

/-- With true sizes a read returns its slice of the plaintext. -/
theorem readAt_eq (r : RevisionReader) {blocks : List Bytes}
    {blockPlaintext : Nat → Except ProtonError Bytes}
    (hsizes : r.blockSizes = blocks.map List.length)
    (hplain : ∀ i b, blocks[i]? = some b → blockPlaintext i = .ok b) (offset length : Nat) :
    ∃ fetched, r.readAt blockPlaintext offset length =
        some (fetched, .ok (slice blocks.flatten offset (min (offset + length) r.fileSize))) ∧
      ∀ index ∈ fetched,
        ¬ WhollyOutside r.blockSizes offset (min (offset + length) r.fileSize) index := by
  have hsome := readAt_isSome r blockPlaintext offset length
  unfold RevisionReader.readAt at hsome ⊢
  split at hsome
  · -- Nothing is asked for, or the range begins at the end of the file.
    next hempty =>
    rw [if_pos hempty]
    refine ⟨[], ?_, by simp⟩
    rw [slice_eq_nil (by omega)]
  · -- The end of the range is cut down to the end of the file.
    next hlong =>
    rw [if_neg hlong]
    rw [Checked.min_satAdd r.fileSize_lt] at hsome ⊢
    generalize min (offset + length) r.fileSize = finish at hsome ⊢
    dsimp only at hsome ⊢
    cases hplan : planBlocks r.blockSizes offset finish with
    | none => rw [hplan] at hsome; cases hsome
    | some wanted =>
        have hresult := @spliceEach_plan _ _ blockPlaintext blocks _ _ _
          (by rw [← hsizes]; exact hplan) (by simpa using hplain) []
        refine ⟨wanted.map Prod.fst, ?_, ?_⟩
        · simp [hresult]
        · intro index hindex
          obtain ⟨block, hblock, rfl⟩ := List.mem_map.mp hindex
          exact (planBlocks_mem hplan hblock).not_whollyOutside

/-- The file is as long as its blocks together. -/
theorem fileSize_eq (r : RevisionReader) {blocks : List Bytes}
    (hsizes : r.blockSizes = blocks.map List.length) : r.fileSize = blocks.flatten.length := by
  rw [← r.sum_eq, hsizes, List.length_flatten]

/-- Reads of these lengths, each from where the one before it ends. -/
def consecutive : (offset : Nat) → List Nat → List (Nat × Nat)
  | _, [] => []
  | offset, length :: lengths => (offset, length) :: consecutive (offset + length) lengths

/-- What consecutive reads return is what one read of the whole range returns. -/
theorem readAt_consecutive (r : RevisionReader) {blocks : List Bytes}
    {blockPlaintext : Nat → Except ProtonError Bytes}
    (hsizes : r.blockSizes = blocks.map List.length)
    (hplain : ∀ i b, blocks[i]? = some b → blockPlaintext i = .ok b) (offset : Nat)
    (lengths : List Nat) :
    ∃ parts, List.Forall₂ (fun piece part =>
        ∃ fetched, r.readAt blockPlaintext piece.1 piece.2 = some (fetched, .ok part))
        (consecutive offset lengths) parts ∧
      parts.flatten = slice blocks.flatten offset (min (offset + lengths.sum) r.fileSize) := by
  induction lengths generalizing offset with
  | nil =>
      refine ⟨[], .nil, ?_⟩
      rw [slice_eq_nil (by simp)]
      rfl
  | cons length lengths ih =>
      obtain ⟨fetched, hread, -⟩ := readAt_eq r hsizes hplain offset length
      obtain ⟨parts, hparts, hflat⟩ := ih (offset + length)
      -- The first part ends where the others begin.
      refine ⟨_ :: parts, .cons ⟨fetched, hread⟩ hparts, ?_⟩
      rw [List.flatten_cons, hflat, List.sum_cons, ← Nat.add_assoc, fileSize_eq r hsizes,
        slice_min_length, slice_min_length, slice_min_length]
      exact slice_slice (Nat.le_add_right _ _) (Nat.le_add_right _ _)

/-- **Range reads are exact.** With true sizes, a read returns the plaintext from the offset to the
end of the range or of the file, fetches no block that lies wholly outside, and reads of consecutive
pieces return together what one read of all of them returns. -/
theorem readAt_exact (r : RevisionReader) (blocks : List Bytes)
    (blockPlaintext : Nat → Except ProtonError Bytes)
    (hsizes : r.blockSizes = blocks.map List.length)
    (hplain : ∀ i b, blocks[i]? = some b → blockPlaintext i = .ok b) :
    (∀ offset length, ∃ fetched, r.readAt blockPlaintext offset length =
        some (fetched, .ok (slice blocks.flatten offset (min (offset + length) r.fileSize))) ∧
      ∀ index ∈ fetched,
        ¬ WhollyOutside r.blockSizes offset (min (offset + length) r.fileSize) index) ∧
    ∀ offset lengths, ∃ fetched whole parts,
      r.readAt blockPlaintext offset lengths.sum = some (fetched, .ok whole) ∧
      List.Forall₂ (fun piece part =>
        ∃ fetched, r.readAt blockPlaintext piece.1 piece.2 = some (fetched, .ok part))
        (consecutive offset lengths) parts ∧
      parts.flatten = whole := by
  refine ⟨readAt_eq r hsizes hplain, ?_⟩
  intro offset lengths
  obtain ⟨fetched, hwhole, -⟩ := readAt_eq r hsizes hplain offset lengths.sum
  obtain ⟨parts, hparts, hflat⟩ := readAt_consecutive r hsizes hplain offset lengths
  exact ⟨fetched, _, parts, hwhole, hparts, hflat⟩

/-- Two blocks with an empty one between them, read across it and past the end of 64 bits. -/
theorem readAt_exact_empty_block :
    let blocks : List Bytes := [[1, 2], [], [3, 4, 5]]
    let r : RevisionReader := ⟨[2, 0, 3], 5, by decide, by decide⟩
    r.readAt (fun i => .ok (blocks.getD i [])) 1 (2 ^ 64 - 1) = some ([0, 1, 2], .ok [2, 3, 4, 5]) ∧
      ∃ fetched whole parts,
        r.readAt (fun i => .ok (blocks.getD i [])) 1 3 = some (fetched, .ok whole) ∧
        List.Forall₂ (fun piece part => ∃ fetched,
          r.readAt (fun i => .ok (blocks.getD i [])) piece.1 piece.2 = some (fetched, .ok part))
          [(1, 2), (3, 1)] parts ∧
        parts.flatten = whole := by
  refine ⟨by decide, ?_⟩
  have hplain : ∀ i b, [[1, 2], [], [3, 4, 5]][i]? = some b →
      (Except.ok ([[1, 2], [], [3, 4, 5]].getD i []) : Except ProtonError Bytes) = .ok b := by
    intro i b hb
    rw [List.getD_eq_getElem?_getD, hb]
    rfl
  exact (readAt_exact ⟨[2, 0, 3], 5, by decide, by decide⟩ [[1, 2], [], [3, 4, 5]] _ rfl hplain).2
    1 [2, 1]

/-! ## Sizes out of a total -/

/-- Where every call returns, `mapM` is the map of what they return. -/
theorem mapM_eq_map {α β : Type} {f : α → Option β} {g : α → β} {l : List α}
    (h : ∀ a ∈ l, f a = some (g a)) : l.mapM f = some (l.map g) := by
  induction l with
  | nil => rfl
  | cons a l ih =>
      rw [List.mapM_cons, h a List.mem_cons_self, ih (fun b hb => h b (List.mem_cons_of_mem _ hb))]
      rfl

/-- Where one call panics, `mapM` does. -/
theorem mapM_eq_none {α β : Type} {f : α → Option β} {l : List α} {a : α} (ha : a ∈ l)
    (h : f a = none) : l.mapM f = none := by
  induction l with
  | nil => cases ha
  | cons b l ih =>
      rw [List.mapM_cons]
      rcases List.mem_cons.mp ha with rfl | ha
      · rw [h]
        rfl
      · rw [ih ha]
        cases f b with
        | none => rfl
        | some c => rfl

theorem defaultBlockSize_eq : defaultBlockSize = 4194304 := rfl

/-- Up to here the start of every block is a number of 64 bits. -/
def maxBlockCount : Nat := 2 ^ 42

/-- The sizes of a total: full blocks, the rest, and then nothing. -/
theorem sizesOfTotal_eq_some (total : Nat) {blockCount : Nat} (h : blockCount ≤ maxBlockCount) :
    sizesOfTotal total blockCount = some ((List.range blockCount).map
      (fun i => min (total - defaultBlockSize * i) defaultBlockSize)) := by
  apply mapM_eq_map
  intro i hi
  have hlt : defaultBlockSize * i < u64 := by
    have hi := List.mem_range.mp hi
    unfold maxBlockCount at h
    unfold u64
    rw [defaultBlockSize_eq]
    omega
  rw [Checked.mul_of_lt hlt, Option.map_some]

/-- Too many blocks for a total overflow. -/
theorem sizesOfTotal_eq_none (total : Nat) {blockCount : Nat} (h : maxBlockCount < blockCount) :
    sizesOfTotal total blockCount = none := by
  apply mapM_eq_none (List.mem_range.mpr h)
  have hbig : Checked.mul u64 defaultBlockSize maxBlockCount = none := by decide
  rw [hbig, Option.map_none]

/-- Together they are the total, as far as that many blocks go. -/
theorem sum_sizesOfTotal (total blockCount : Nat) :
    ((List.range blockCount).map
      (fun i => min (total - defaultBlockSize * i) defaultBlockSize)).sum =
      min total (defaultBlockSize * blockCount) := by
  induction blockCount with
  | zero => simp
  | succ n ih =>
      rw [List.range_succ, List.map_append, List.sum_append, ih, List.map_singleton,
        List.sum_singleton, Nat.mul_succ]
      omega

/-! ## What `rank_block_sizes` returns -/

section Rank

variable {common : Option DecryptedCommonExtendedAttributes} {revisionId : String}
  {blockCount : Nat}

/-- The total the sizes are derived from, if they are. -/
def derivedFrom (common : Option DecryptedCommonExtendedAttributes) (blockCount : Nat) :
    Option Nat :=
  if (recordedSizes common blockCount).isSome then none else recordedTotal common

/-- Recorded sizes are as many as the blocks. -/
theorem recordedSizes_length {sizes : List Int64}
    (h : recordedSizes common blockCount = some sizes) : sizes.length = blockCount := by
  have hlength := (Option.filter_eq_some_iff.mp h).2
  simpa using hlength

/-- A recorded total is a positive number of 64 bits. -/
theorem recordedTotal_lt {total : Nat} (h : recordedTotal common = some total) :
    total < 2 ^ 63 := by
  obtain ⟨size, -, rfl⟩ := Option.map_eq_some_iff.mp h
  have hlt := size.toInt_lt
  omega

/-- A size that is not refused is positive. -/
theorem toNat_pos_of_not_le {size : Int64} (h : ¬ size ≤ 0) : 0 < size.toInt.toNat := by
  have hlt : (0 : Int) < size.toInt := by
    rw [Int64.le_iff_toInt_le] at h
    simpa using h
  omega

/-- Sizes for all blocks are taken as they are, if all of them are positive. -/
theorem rankBlockSizes_of_recordedSizes {sizes : List Int64}
    (h : recordedSizes common blockCount = some sizes) (hpos : ∀ size ∈ sizes, ¬ size ≤ 0) :
    rankBlockSizes common revisionId blockCount =
      some (.ok (sizes.map (fun size => size.toInt.toNat))) := by
  have hnone : sizes.findIdx? (· ≤ 0) = none := by
    rw [List.findIdx?_eq_none_iff]
    intro size hsize
    simpa using hpos size hsize
  simp only [rankBlockSizes, h, hnone]

variable (revisionId) in
/-- A recorded size that is not positive is refused. -/
theorem rankBlockSizes_of_nonPositive {sizes : List Int64}
    (h : recordedSizes common blockCount = some sizes) {size : Int64} (hmem : size ∈ sizes)
    (hle : size ≤ 0) : ∃ bad, rankBlockSizes common revisionId blockCount =
      some (.error (nonPositiveSize revisionId bad)) := by
  have hany : sizes.any (· ≤ 0) = true :=
    List.any_eq_true.mpr ⟨size, hmem, by simpa using hle⟩
  rw [← List.findIdx?_isSome] at hany
  obtain ⟨bad, hbad⟩ := Option.isSome_iff_exists.mp hany
  exact ⟨bad, by simp only [rankBlockSizes, h, hbad]⟩

variable (revisionId) in
/-- Without recorded sizes those of the total are used. -/
theorem rankBlockSizes_of_total {total : Nat} (h : derivedFrom common blockCount = some total) :
    rankBlockSizes common revisionId blockCount = (sizesOfTotal total blockCount).map .ok := by
  unfold derivedFrom at h
  split at h
  · cases h
  · next hnone =>
    rw [Option.not_isSome_iff_eq_none] at hnone
    simp only [rankBlockSizes, hnone, h]

variable (revisionId) in
/-- Without any size only a single block is accepted. -/
theorem rankBlockSizes_of_none (hsizes : recordedSizes common blockCount = none)
    (htotal : recordedTotal common = none) : rankBlockSizes common revisionId blockCount =
      some (if blockCount ≤ 1 then .ok (List.replicate blockCount defaultBlockSize)
        else .error (noSizeInformation revisionId blockCount)) := by
  simp only [rankBlockSizes, hsizes, htotal]
  split <;> rfl

/-- The four ways in which sizes are found, or are not. -/
theorem rankBlockSizes_cases (common : Option DecryptedCommonExtendedAttributes)
    (blockCount : Nat) :
    (∃ sizes, recordedSizes common blockCount = some sizes ∧ ∀ size ∈ sizes, ¬ size ≤ 0) ∨
    (∃ sizes, recordedSizes common blockCount = some sizes ∧ ∃ size ∈ sizes, size ≤ 0) ∨
    (∃ total, derivedFrom common blockCount = some total) ∨
    (recordedSizes common blockCount = none ∧ recordedTotal common = none) := by
  unfold derivedFrom
  cases hsizes : recordedSizes common blockCount with
  | some sizes =>
      by_cases hpos : ∀ size ∈ sizes, ¬ size ≤ 0
      · exact .inl ⟨sizes, rfl, hpos⟩
      · simp only [not_forall, not_not] at hpos
        obtain ⟨size, hmem, hle⟩ := hpos
        exact .inr (.inl ⟨sizes, rfl, size, hmem, hle⟩)
  | none =>
      cases htotal : recordedTotal common with
      | some total => exact .inr (.inr (.inl ⟨total, by simp⟩))
      | none => exact .inr (.inr (.inr ⟨rfl, rfl⟩))

/-- A total that sizes are derived from fits in 63 bits. -/
theorem derivedFrom_lt {total : Nat} (h : derivedFrom common blockCount = some total) :
    total < 2 ^ 63 := by
  unfold derivedFrom at h
  split at h
  · cases h
  · exact recordedTotal_lt h

/-- Where sizes are recorded none are derived. -/
theorem derivedFrom_eq_none {sizes : List Int64}
    (h : recordedSizes common blockCount = some sizes) :
    derivedFrom common blockCount = none := by simp [derivedFrom, h]

/-! ## Refusing rather than guessing -/

/-- The total is that of as many blocks, all of them full but perhaps the last, which is not
empty. -/
def LaidOut (total blockCount : Nat) : Prop :=
  defaultBlockSize * (blockCount - 1) < total ∧ total ≤ defaultBlockSize * blockCount

instance (total blockCount : Nat) : Decidable (LaidOut total blockCount) :=
  inferInstanceAs (Decidable (_ ∧ _))

/-- What the sizes of a revision with this many blocks are to be. -/
structure Refuses (common : Option DecryptedCommonExtendedAttributes) (revisionId : String)
    (blockCount : Nat) : Prop where
  ok : ∀ sizes, rankBlockSizes common revisionId blockCount = some (.ok sizes) →
    sizes.length = blockCount ∧ (∀ size ∈ sizes, 0 < size) ∧
      ∀ total, derivedFrom common blockCount = some total → sizes.sum = total
  refused : ∀ total, derivedFrom common blockCount = some total → ¬ LaidOut total blockCount →
    ∃ e, rankBlockSizes common revisionId blockCount = some (.error e)

/-- Derived sizes are never refused. -/
theorem not_error_of_total {total : Nat} (h : derivedFrom common blockCount = some total)
    (e : ProtonError) : rankBlockSizes common revisionId blockCount ≠ some (.error e) := by
  rw [rankBlockSizes_of_total _ h]
  cases sizesOfTotal total blockCount with
  | none => exact nofun
  | some sizes => exact nofun

/-- A total has no more blocks than can be counted. -/
theorem LaidOut.le_maxBlockCount {total : Nat} (h : LaidOut total blockCount)
    (htotal : total < 2 ^ 63) : blockCount ≤ maxBlockCount := by
  have hlt := h.1
  rw [defaultBlockSize_eq] at hlt
  unfold maxBlockCount
  omega

/-- The derived sizes of a file that is laid out in full blocks are its own. -/
theorem sizes_of_laidOut {total : Nat} (h : LaidOut total blockCount) :
    let sizes := (List.range blockCount).map
      (fun i => min (total - defaultBlockSize * i) defaultBlockSize)
    sizes.length = blockCount ∧ (∀ size ∈ sizes, 0 < size) ∧ sizes.sum = total := by
  refine ⟨by simp, ?_, ?_⟩
  · intro size hsize
    obtain ⟨i, hi, rfl⟩ := List.mem_map.mp hsize
    have hi := List.mem_range.mp hi
    have hlt := h.1
    rw [defaultBlockSize_eq] at hlt ⊢
    omega
  · rw [sum_sizesOfTotal]
    exact Nat.min_eq_left h.2

/-- Sizes out of a total are never refused. -/
theorem Refuses.laidOut {total : Nat} (h : Refuses common revisionId blockCount)
    (htotal : derivedFrom common blockCount = some total) : LaidOut total blockCount := by
  by_contra hnot
  obtain ⟨e, he⟩ := h.refused total htotal hnot
  exact not_error_of_total htotal e he

/-- **When sizes are refused rather than guessed**: exactly when the total, if the sizes have to be
derived from it, is that of as many blocks. -/
theorem rankBlockSizes_refuses_iff (common : Option DecryptedCommonExtendedAttributes)
    (revisionId : String) (blockCount : Nat) (hmany : 2 ≤ blockCount) :
    Refuses common revisionId blockCount ↔
      ∀ total, derivedFrom common blockCount = some total → LaidOut total blockCount := by
  constructor
  · exact fun h _ htotal => h.laidOut htotal
  · intro h
    refine ⟨?_, fun total htotal hnot => absurd (h total htotal) hnot⟩
    intro sizes hsizes
    obtain ⟨recorded, hrec, hpos⟩ | ⟨recorded, hrec, bad, hmem, hle⟩ | ⟨total, htotal⟩ |
      ⟨hnosizes, hnototal⟩ := rankBlockSizes_cases common blockCount
    · -- The recorded sizes are positive.
      rw [rankBlockSizes_of_recordedSizes hrec hpos] at hsizes
      cases hsizes
      refine ⟨by simpa using recordedSizes_length hrec, ?_, ?_⟩
      · intro size hsize
        obtain ⟨n, hn, rfl⟩ := List.mem_map.mp hsize
        exact toNat_pos_of_not_le (hpos n hn)
      · rw [derivedFrom_eq_none hrec]
        exact nofun
    · -- A recorded size is not positive, and the source refuses.
      obtain ⟨i, hi⟩ := rankBlockSizes_of_nonPositive revisionId hrec hmem hle
      rw [hi] at hsizes
      cases hsizes
    · -- The sizes come from a total that is laid out in full blocks.
      have hlaid := h total htotal
      rw [rankBlockSizes_of_total _ htotal,
        sizesOfTotal_eq_some total (hlaid.le_maxBlockCount (derivedFrom_lt htotal))] at hsizes
      cases hsizes
      obtain ⟨hlength, hpos, hsum⟩ := sizes_of_laidOut hlaid
      refine ⟨hlength, hpos, ?_⟩
      intro total' htotal'
      rw [htotal] at htotal'
      cases htotal'
      exact hsum
    · -- Two blocks or more without any size are refused.
      rw [rankBlockSizes_of_none _ hnosizes hnototal, if_neg (by omega)] at hsizes
      cases hsizes

/-- Nine mebibytes in three blocks. -/
theorem rankBlockSizes_refuses_iff_nine :
    Refuses (some ⟨some 9437184, none⟩) "rev" 3 := by
  apply (rankBlockSizes_refuses_iff _ _ _ (by decide)).mpr
  intro total htotal
  have hnine : derivedFrom (some ⟨some 9437184, none⟩) 3 = some 9437184 := by decide
  rw [hnine] at htotal
  cases htotal
  exact ⟨by decide, by decide⟩

/-- A total of one block for a revision of two: the second one is taken to be empty. -/
theorem not_refuses :
    let common := some ⟨some 4194304, none⟩
    rankBlockSizes common "rev" 2 = some (.ok [4194304, 0]) ∧ ¬ Refuses common "rev" 2 := by
  intro common
  have htotal : derivedFrom common 2 = some 4194304 := by decide
  refine ⟨?_, ?_⟩
  · rw [rankBlockSizes_of_total _ htotal, sizesOfTotal_eq_some _ (by decide)]
    simp [defaultBlockSize_eq, List.range_succ]
  · intro h
    exact absurd (h.laidOut htotal).1 (by decide)

/-! ## Overflow -/

/-- Opening a revision does not overflow, and neither does the sum of the sizes it ends with, nor
any read of what has been opened. -/
structure NoOverflow (common : Option DecryptedCommonExtendedAttributes) (revisionId : String)
    (blockCount : Nat) : Prop where
  opens : (openRevision common revisionId blockCount).isSome = true
  sum_lt : ∀ r, openRevision common revisionId blockCount = some (.ok r) → r.blockSizes.sum < u64
  reads : ∀ r, openRevision common revisionId blockCount = some (.ok r) →
    ∀ blockPlaintext offset length, (r.readAt blockPlaintext offset length).isSome = true

/-- The recorded sizes have a sum of 64 bits, if they are used, and the start of each block is one
if the sizes are derived from a total. -/
structure Bounded (common : Option DecryptedCommonExtendedAttributes) (blockCount : Nat) :
    Prop where
  sum_lt : ∀ sizes, recordedSizes common blockCount = some sizes →
    (∀ size ∈ sizes, ¬ size ≤ 0) → (sizes.map (fun size => size.toInt.toNat)).sum < u64
  count_le : ∀ total, derivedFrom common blockCount = some total → blockCount ≤ maxBlockCount

/-- A reader opens without overflow exactly when the sizes fit in 64 bits together. -/
theorem new_isSome_iff {sizes : List Nat} :
    (RevisionReader.new sizes).isSome = true ↔ sizes.sum < u64 := by
  have hsum : Checked.sum u64 sizes = Checked.fit u64 sizes.sum := Checked.sum_eq (by decide) sizes
  unfold RevisionReader.new Checked.fit at *
  split
  · next hnone =>
    rw [hnone] at hsum
    simpa using hsum
  · next n hsome =>
    have hlt := (Checked.sum_eq_some (by decide)).mp hsome
    simpa using hlt.1

/-- Accepted sizes open a reader. -/
theorem openRevision_of_ok {sizes : List Nat}
    (h : rankBlockSizes common revisionId blockCount = some (.ok sizes)) :
    openRevision common revisionId blockCount = (RevisionReader.new sizes).map .ok := by
  simp only [openRevision, h]

/-- Refused sizes open none. -/
theorem openRevision_of_error {e : ProtonError}
    (h : rankBlockSizes common revisionId blockCount = some (.error e)) :
    openRevision common revisionId blockCount = some (.error e) := by
  simp only [openRevision, h]

/-- With recorded sizes only their sum is bounded. -/
theorem bounded_of_recordedSizes {recorded : List Int64}
    (hrec : recordedSizes common blockCount = some recorded)
    (h : (∀ size ∈ recorded, ¬ size ≤ 0) →
      (recorded.map (fun size => size.toInt.toNat)).sum < u64) : Bounded common blockCount := by
  refine ⟨?_, ?_⟩
  · intro sizes hsizes
    rw [hrec] at hsizes
    cases hsizes
    exact h
  · rw [derivedFrom_eq_none hrec]
    exact nofun

/-- With a total only the number of blocks is bounded. -/
theorem bounded_iff_of_total {total : Nat} (htotal : derivedFrom common blockCount = some total) :
    Bounded common blockCount ↔ blockCount ≤ maxBlockCount := by
  have hnone : recordedSizes common blockCount = none := by
    unfold derivedFrom at htotal
    split at htotal
    · cases htotal
    · next hnone => exact Option.not_isSome_iff_eq_none.mp hnone
  constructor
  · exact fun h => h.count_le total htotal
  · intro hle
    refine ⟨?_, fun _ _ => hle⟩
    rw [hnone]
    exact nofun

/-- Opening overflows exactly when the sizes are out of bounds. -/
theorem openRevision_isSome_iff (common : Option DecryptedCommonExtendedAttributes)
    (revisionId : String) (blockCount : Nat) :
    (openRevision common revisionId blockCount).isSome = true ↔ Bounded common blockCount := by
  obtain ⟨recorded, hrec, hpos⟩ | ⟨recorded, hrec, bad, hmem, hle⟩ | ⟨total, htotal⟩ |
    ⟨hnosizes, hnototal⟩ := rankBlockSizes_cases common blockCount
  · -- The recorded sizes are used as they are, and only their sum may overflow.
    rw [openRevision_of_ok (rankBlockSizes_of_recordedSizes hrec hpos), Option.isSome_map,
      new_isSome_iff]
    constructor
    · exact fun hsum => bounded_of_recordedSizes hrec (fun _ => hsum)
    · exact fun h => h.sum_lt recorded hrec hpos
  · obtain ⟨i, hi⟩ := rankBlockSizes_of_nonPositive revisionId hrec hmem hle
    rw [openRevision_of_error hi]
    exact iff_of_true rfl (bounded_of_recordedSizes hrec (fun hpos => absurd hle (hpos bad hmem)))
  · -- The sizes of a total add up to it at most, so only their number matters.
    rw [bounded_iff_of_total htotal]
    have hrank := rankBlockSizes_of_total revisionId htotal
    by_cases hle : blockCount ≤ maxBlockCount
    · refine iff_of_true ?_ hle
      rw [sizesOfTotal_eq_some total hle, Option.map_some] at hrank
      rw [openRevision_of_ok hrank, Option.isSome_map, new_isSome_iff, sum_sizesOfTotal]
      have hlt := derivedFrom_lt htotal
      unfold u64
      omega
    · refine iff_of_false ?_ hle
      rw [sizesOfTotal_eq_none total (Nat.not_le.mp hle), Option.map_none] at hrank
      simp [openRevision, hrank]
  · -- Without sizes a single block has the default size.
    have hbounded : Bounded common blockCount := by
      refine ⟨?_, ?_⟩
      · rw [hnosizes]
        exact nofun
      · simp [derivedFrom, hnosizes, hnototal]
    refine iff_of_true ?_ hbounded
    have hrank := rankBlockSizes_of_none revisionId hnosizes hnototal
    split at hrank
    · next hle =>
      rw [openRevision_of_ok hrank, Option.isSome_map, new_isSome_iff, List.sum_replicate,
        smul_eq_mul, defaultBlockSize_eq]
      unfold u64
      omega
    · rw [openRevision_of_error hrank]
      rfl

/-- **When hostile sizes cannot overflow**: exactly when the recorded sizes have a sum of 64 bits.
The blocks of a revision are never too many, since their indices are of 32 bits. -/
theorem noOverflow_iff (common : Option DecryptedCommonExtendedAttributes) (revisionId : String)
    (blockCount : Nat) : NoOverflow common revisionId blockCount ↔ Bounded common blockCount := by
  rw [← openRevision_isSome_iff common revisionId]
  constructor
  · exact NoOverflow.opens
  · intro h
    refine ⟨h, ?_, fun r _ => readAt_isSome r⟩
    intro r _
    rw [r.sum_eq]
    exact r.fileSize_lt

end Rank

/-- Three blocks, each of the largest size there is. -/
theorem not_noOverflow :
    let largest : Int64 := 9223372036854775807
    ¬ NoOverflow (some ⟨none, some [largest, largest, largest]⟩) "rev" 3 := by
  intro largest h
  have hpos : ¬ largest ≤ 0 := by decide
  have hlargest : largest.toInt.toNat = 9223372036854775807 := by decide
  have hbounded := (openRevision_isSome_iff _ _ _).mp h.opens
  have hsum := hbounded.sum_lt [largest, largest, largest] rfl (by simpa using hpos)
  simp only [List.map_cons, List.map_nil, hlargest] at hsum
  exact absurd hsum (by decide)

end ProtonDrive.RangeRead
