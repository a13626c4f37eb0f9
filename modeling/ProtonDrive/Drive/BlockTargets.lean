import ProtonDrive.Lib.Blocks
import ProtonDrive.Lib.Except
import ProtonDrive.Sdk.OpenPgp

/-!
# The block table of a revision

A revision is listed once, and its blocks are fetched from the URLs of the listing. The URLs expire;
a fetch that runs into that lists the revision again, unless another fetch already has, and asks
once more. One listing is under way at a time.

* `orderBlocks_eq_ok` — a listing that is accepted has block `i + 1` at position `i`.
* `callStep` — one step of a `ciphertext` call, over the table that the calls share.
* `callStep_table` — no call ever spoils the table.
-/

namespace ProtonDrive.Content

open OpenPgp (Bytes)

/-! ## Listing -/

structure BlockDto where
  index : Int
  bareUrl : String
  token : String
  deriving DecidableEq, Repr

def incompleteContents : ProtonError :=
  .invalidOperation "file contents are incomplete (non-contiguous blocks)"

/-- What `list_blocks` makes of the blocks of all pages. -/
def orderBlocks (collected : List BlockDto) : Except ProtonError (List BlockDto) :=
  let blocks := sortByKey BlockDto.index collected
  if blocks.zipIdx.all (fun (block, offset) => block.index == (offset : Int) + 1) then .ok blocks
  else .error incompleteContents

/-- Block `i + 1` is at position `i`. -/
def Ordered (blocks : List BlockDto) : Prop :=
  ∀ (i : Nat) (b : BlockDto), blocks[i]? = some b → b.index = (i : Int) + 1

theorem all_zipIdx_iff (blocks : List BlockDto) :
    blocks.zipIdx.all (fun (block, offset) => block.index == (offset : Int) + 1) = true ↔
      Ordered blocks := by
  rw [List.all_eq_true]
  refine ⟨fun h i b hb => ?_, fun h x hx => ?_⟩
  · have hmem : (b, i) ∈ blocks.zipIdx := List.mk_mem_zipIdx_iff_getElem?.mpr hb
    simpa using h (b, i) hmem
  · obtain ⟨b, i⟩ := x
    simpa using h i b (List.mk_mem_zipIdx_iff_getElem?.mp hx)

theorem orderBlocks_eq_ok {collected blocks : List BlockDto}
    (h : orderBlocks collected = .ok blocks) : Ordered blocks ∧ blocks.Perm collected := by
  simp only [orderBlocks] at h
  split at h
  · next hall =>
    cases h
    exact ⟨(all_zipIdx_iff _).mp hall, sortByKey_perm _ _⟩
  · cases h

/-- A list in order is left as it is. -/
theorem orderBlocks_ordered {blocks : List BlockDto} (h : Ordered blocks) :
    orderBlocks blocks = .ok blocks := by
  have hpairwise : blocks.Pairwise (fun a b => a.index < b.index) := by
    rw [List.pairwise_iff_getElem]
    intro i j hi hj hlt
    have hbi := h i _ (List.getElem?_eq_getElem hi)
    have hbj := h j _ (List.getElem?_eq_getElem hj)
    omega
  have hnodup : (blocks.map BlockDto.index).Nodup :=
    List.pairwise_map.mpr (hpairwise.imp (fun hlt => ne_of_lt hlt))
  have hsort : sortByKey BlockDto.index blocks = blocks :=
    sortByKey_eq (List.Perm.refl _) hnodup (hpairwise.imp (fun hlt => le_of_lt hlt))
  unfold orderBlocks
  rw [hsort]
  exact if_pos ((all_zipIdx_iff blocks).mpr h)

/-- The indices `1` to `n`, listed in any order, are accepted. -/
theorem orderBlocks_of_perm {collected : List BlockDto} {n : Nat}
    (h : (collected.map BlockDto.index).Perm ((List.range' 1 n).map Int.ofNat)) :
    ∃ blocks, orderBlocks collected = .ok blocks ∧ blocks.length = n ∧ Ordered blocks := by
  have hsorted : (sortByKey BlockDto.index collected).map BlockDto.index =
      (List.range' 1 n).map Int.ofNat := by
    have hlt : ((List.range' 1 n).map Int.ofNat).Pairwise (fun a b => a ≤ b) := by
      rw [List.pairwise_map]
      exact (List.pairwise_lt_range').imp (fun hlt => by simpa using le_of_lt hlt)
    have hkeys : ((sortByKey BlockDto.index collected).map BlockDto.index).Pairwise
        (fun a b => a ≤ b) := List.pairwise_map.mpr (sortByKey_pairwise _ _)
    -- Both lists are sorted and have the same entries, so they are equal.
    apply List.Perm.eq_of_pairwise (fun a b _ _ hab hba => le_antisymm hab hba) hkeys hlt
    exact ((sortByKey_perm _ collected).map _).trans h
  have hlength : (sortByKey BlockDto.index collected).length = n := by
    simpa using congrArg List.length hsorted
  have hordered : Ordered (sortByKey BlockDto.index collected) := by
    intro i b hb
    have hi : i < n := by
      rw [← hlength]
      exact (List.getElem?_eq_some_iff.mp hb).1
    have hget := congrArg (fun l => l[i]?) hsorted
    simp only [List.getElem?_map, hb, List.getElem?_range' hi, Option.map_some] at hget
    have hindex := Option.some.inj hget
    simp only [Int.ofNat_eq_natCast] at hindex
    omega
  refine ⟨_, ?_, hlength, hordered⟩
  exact if_pos ((all_zipIdx_iff _).mpr hordered)

/-! ## The table -/

/-- The table that the calls of one transfer share. -/
structure BlockTargets where
  revisionId : String
  blocks : List BlockDto
  generation : Nat
  /-- A listing is under way: the `refresh` lock is held. -/
  refreshing : Bool
  expectedBlocks : Nat
  deriving DecidableEq, Repr

def BlockTargets.new (revisionId : String) (blocks : List BlockDto) (expectedBlocks : Nat) :
    BlockTargets where
  revisionId := revisionId
  blocks := blocks
  generation := 0
  refreshing := false
  expectedBlocks := expectedBlocks

def missingBlock (index : Nat) (revisionId : String) : ProtonError :=
  .invalidOperation ("block " ++ toString index ++ " is missing from revision " ++ revisionId)

def changedBlockCount (revisionId : String) (expected listed : Nat) : ProtonError :=
  .invalidOperation ("revision " ++ revisionId ++ " changed block count while open (" ++
    toString expected ++ " -> " ++ toString listed ++ ")")

def isExpiredBlockUrl : ProtonError → Bool
  | .api e => e.httpStatus == 401 || e.httpStatus == 403 || e.httpStatus == 404
  | _ => false

/-- Where a `ciphertext` call is. -/
inductive FetchCall where
  | idle
  /-- A fetch from the URL of an entry of this generation; `retried` on the second one. -/
  | fetching (block : BlockDto) (generation : Nat) (retried : Bool)
  /-- The URL had expired; the call waits for the lock. -/
  | expired (seen : Nat)
  /-- The call holds the lock and lists the revision. -/
  | listing
  /-- The table is newer than the one the call had seen. -/
  | refreshed
  | done (result : Except ProtonError Bytes)
  deriving DecidableEq, Repr

inductive CallAction where
  | locate
  | answer (reply : Except ProtonError Bytes)
  | lock
  /-- The blocks of all pages of the listing. -/
  | listed (reply : Except ProtonError (List BlockDto))
  deriving DecidableEq, Repr

/-- `location`, and the fetch that follows it. -/
def BlockTargets.locate (t : BlockTargets) (index : Nat) (retried : Bool) : FetchCall :=
  match t.blocks[index]? with
  | none => .done (.error (missingBlock index t.revisionId))
  | some block => .fetching block t.generation retried

/-- The end of `refresh`: the new table is taken if it has as many blocks as the transfer
expects. -/
def BlockTargets.install (t : BlockTargets) (reply : Except ProtonError (List BlockDto)) :
    BlockTargets × FetchCall :=
  match reply.bind orderBlocks with
  | .error e => ({ t with refreshing := false }, .done (.error e))
  | .ok blocks =>
      if blocks.length ≠ t.expectedBlocks then
        ({ t with refreshing := false },
          .done (.error (changedBlockCount t.revisionId t.expectedBlocks blocks.length)))
      else
        ({ t with blocks := blocks, generation := t.generation + 1, refreshing := false },
          .refreshed)

/-- A step of the call for the block at position `index`. -/
def callStep (t : BlockTargets) (index : Nat) :
    FetchCall → CallAction → Option (BlockTargets × FetchCall)
  | .idle, .locate => some (t, t.locate index false)
  | .fetching _ _ _, .answer (.ok ciphertext) => some (t, .done (.ok ciphertext))
  | .fetching _ generation retried, .answer (.error e) =>
      if !retried && isExpiredBlockUrl e then some (t, .expired generation)
      else some (t, .done (.error e))
  | .expired seen, .lock =>
      if t.refreshing then none
      -- Someone else refreshed while the call waited.
      else if t.generation ≠ seen then some (t, .refreshed)
      else some ({ t with refreshing := true }, .listing)
  | .listing, .listed reply => some (t.install reply)
  | .refreshed, .locate => some (t, t.locate index true)
  | _, _ => none

/-- As many blocks as expected, each at its place. -/
structure BlockTargets.Sound (t : BlockTargets) : Prop where
  ordered : Ordered t.blocks
  length_eq : t.blocks.length = t.expectedBlocks

theorem BlockTargets.Sound.install {t : BlockTargets} (h : t.Sound)
    (reply : Except ProtonError (List BlockDto)) : (t.install reply).1.Sound := by
  unfold BlockTargets.install
  cases hreply : reply.bind orderBlocks with
  | error e => exact ⟨h.ordered, h.length_eq⟩
  | ok blocks =>
      obtain ⟨collected, -, horder⟩ := Except.bind_eq_ok.mp hreply
      dsimp only
      split
      · exact ⟨h.ordered, h.length_eq⟩
      · next hlength => exact ⟨(orderBlocks_eq_ok horder).1, not_not.mp hlength⟩

theorem BlockTargets.expectedBlocks_install (t : BlockTargets)
    (reply : Except ProtonError (List BlockDto)) :
    (t.install reply).1.expectedBlocks = t.expectedBlocks := by
  unfold BlockTargets.install
  split
  · rfl
  · split
    · rfl
    · rfl

/-- **No call spoils the table.** -/
theorem callStep_table {t t' : BlockTargets} {index : Nat} {c c' : FetchCall} {a : CallAction}
    (h : callStep t index c a = some (t', c')) (hsound : t.Sound) :
    t'.Sound ∧ t'.expectedBlocks = t.expectedBlocks := by
  unfold callStep at h
  split at h
  · cases h
    exact ⟨hsound, rfl⟩
  · cases h
    exact ⟨hsound, rfl⟩
  · split at h
    · cases h
      exact ⟨hsound, rfl⟩
    · cases h
      exact ⟨hsound, rfl⟩
  · split at h
    · cases h
    · split at h
      · cases h
        exact ⟨hsound, rfl⟩
      · cases h
        -- Taking the lock changes the flag and nothing about the table.
        exact ⟨⟨hsound.ordered, hsound.length_eq⟩, rfl⟩
  · next reply =>
    -- The only step that writes the table is the one that installs a listing.
    have hpair := Option.some.inj h
    rw [show t' = (t.install reply).1 from (congrArg Prod.fst hpair).symm]
    exact ⟨hsound.install reply, t.expectedBlocks_install reply⟩
  · cases h
    exact ⟨hsound, rfl⟩
  · cases h

end ProtonDrive.Content
