import Mathlib.Data.List.Nodup
import ProtonDrive.Drive.BlockPost

/-!
# The upload targets of a batch

`upload_batch` asks for a target for each block and each thumbnail of a batch and hands the targets
out, one after the other. A target is taken for the index that it echoes, or for the next one if it
echoes none, and is gone from the list.

* `takeTarget_echoed`, `takeTarget_silent` — which target is taken, and what is left.
* `batchJobs_matched` — each block gets a target, and the right one.
-/

namespace ProtonDrive

open OpenPgp (Bytes)

variable {α ρ δ : Type}

/-- The first target that echoes what is wanted, or else the first one that echoes nothing. -/
def takeTarget (echo : BlockUploadTarget → Option Int) (targets : List BlockUploadTarget)
    (wanted : Int) : Option (BlockUploadTarget × List BlockUploadTarget) := do
  let position ← (targets.findIdx? (fun target => echo target == some wanted)).or
    (targets.findIdx? (fun target => (echo target).isNone))
  let target ← targets[position]?
  return (target, targets.eraseIdx position)

def takeBlockTarget (targets : List BlockUploadTarget) (index : Int) :
    Option (BlockUploadTarget × List BlockUploadTarget) :=
  takeTarget BlockUploadTarget.index targets index

def takeThumbnailTarget (targets : List BlockUploadTarget) (thumbnailType : Int) :
    Option (BlockUploadTarget × List BlockUploadTarget) :=
  takeTarget BlockUploadTarget.thumbnailType targets thumbnailType

/-! ## The jobs of a batch -/

structure EncryptedThumbnail (δ : Type) where
  thumbnailType : Int
  ciphertext : Bytes
  digest : δ

/-- `index` is a field of the request. -/
structure PreparedBlock (ρ δ : Type) where
  index : Int
  request : ρ
  ciphertext : Bytes
  digest : δ

structure BlockUploadPreparationResponse where
  uploadTargets : List BlockUploadTarget
  thumbnailUploadTargets : List BlockUploadTarget

def EncryptedThumbnail.job (thumbnail : EncryptedThumbnail δ) (target : BlockUploadTarget) :
    UploadJob ρ δ :=
  ⟨none, thumbnail.ciphertext, thumbnail.digest, none, target⟩

def PreparedBlock.job (block : PreparedBlock ρ δ) (target : BlockUploadTarget) : UploadJob ρ δ :=
  ⟨some block.index, block.ciphertext, block.digest, some block.request, target⟩

def noThumbnailTarget (thumbnailType : Int) : ProtonError :=
  .invalidOperation
    ("thumbnail upload preparation returned no target for type " ++ toString thumbnailType)

def noBlockTarget (index : Int) : ProtonError :=
  .invalidOperation ("block upload preparation returned no target for block " ++ toString index)

/-- The two loops that hand out targets. -/
def takeEach
    (take : List BlockUploadTarget → Int → Option (BlockUploadTarget × List BlockUploadTarget))
    (wanted : α → Int) (job : α → BlockUploadTarget → UploadJob ρ δ) (missing : Int → ProtonError) :
    List α → List BlockUploadTarget → Except ProtonError (List (UploadJob ρ δ))
  | [], _ => .ok []
  | a :: rest, targets =>
      match take targets (wanted a) with
      | none => .error (missing (wanted a))
      | some (target, targets) => do
          let jobs ← takeEach take wanted job missing rest targets
          return job a target :: jobs

def thumbnailJobs (thumbnails : List (EncryptedThumbnail δ)) (targets : List BlockUploadTarget) :
    Except ProtonError (List (UploadJob ρ δ)) :=
  takeEach takeThumbnailTarget EncryptedThumbnail.thumbnailType EncryptedThumbnail.job
    noThumbnailTarget thumbnails targets

def blockJobs (batch : List (PreparedBlock ρ δ)) (targets : List BlockUploadTarget) :
    Except ProtonError (List (UploadJob ρ δ)) :=
  takeEach takeBlockTarget PreparedBlock.index PreparedBlock.job noBlockTarget batch targets

/-- The jobs that `upload_batch` makes of what was prepared. -/
def batchJobs (prepared : BlockUploadPreparationResponse) (thumbnails : List (EncryptedThumbnail δ))
    (batch : List (PreparedBlock ρ δ)) : Except ProtonError (List (UploadJob ρ δ)) := do
  let jobs ← thumbnailJobs thumbnails prepared.thumbnailUploadTargets
  let jobs' ← blockJobs batch prepared.uploadTargets
  return jobs ++ jobs'

/-! ## Taking one target -/

section Taking

variable {echo : BlockUploadTarget → Option Int} {targets rest : List BlockUploadTarget}
  {target : BlockUploadTarget} {wanted : Int}

/-- The first target with a property is taken out. -/
theorem take_first {p : BlockUploadTarget → Bool} {position : Nat}
    (h : targets.findIdx? p = some position) :
    ∃ before target after, targets = before ++ target :: after ∧
      targets[position]? = some target ∧ targets.eraseIdx position = before ++ after ∧
      p target = true ∧ ∀ t ∈ before, p t = false := by
  obtain ⟨hlt, htarget, hbefore⟩ := List.findIdx?_eq_some_iff_getElem.mp h
  refine ⟨targets.take position, targets[position], targets.drop (position + 1), ?_, ?_, ?_,
    htarget, ?_⟩
  · rw [List.getElem_cons_drop, List.take_append_drop]
  · exact List.getElem?_eq_getElem hlt
  · exact List.eraseIdx_eq_take_drop_succ targets position
  · intro t ht
    obtain ⟨i, hi, rfl⟩ := List.mem_take_iff_getElem.mp ht
    simpa using hbefore i (by omega)

/-- Where a target echoes the index, the first one that does is taken. -/
theorem takeTarget_echoed (h : ∃ t ∈ targets, echo t = some wanted) :
    ∃ before target after, targets = before ++ target :: after ∧ echo target = some wanted ∧
      takeTarget echo targets wanted = some (target, before ++ after) := by
  obtain ⟨t, ht, hecho⟩ := h
  have hsome : (targets.findIdx? (fun target => echo target == some wanted)).isSome := by
    rw [List.findIdx?_isSome, List.any_eq_true]
    exact ⟨t, ht, by simp [hecho]⟩
  obtain ⟨position, hposition⟩ := Option.isSome_iff_exists.mp hsome
  obtain ⟨before, target, after, hsplit, hat, herase, htarget, -⟩ := take_first hposition
  refine ⟨before, target, after, hsplit, by simpa using htarget, ?_⟩
  unfold takeTarget
  rw [hposition]
  show (targets[position]?).bind _ = _
  rw [hat, herase]
  rfl

/-- Where none echoes anything, the first one of all is taken. -/
theorem takeTarget_silent (h : ∀ t ∈ target :: rest, echo t = none) :
    takeTarget echo (target :: rest) wanted = some (target, rest) := by
  have hnone : (target :: rest).findIdx? (fun target => echo target == some wanted) = none := by
    rw [List.findIdx?_eq_none_iff]
    intro t ht
    simp [h t ht]
  have hfirst : (target :: rest).findIdx? (fun target => (echo target).isNone) = some 0 := by
    rw [List.findIdx?_cons, if_pos (by simp [h target List.mem_cons_self])]
  unfold takeTarget
  rw [hnone, hfirst]
  rfl

end Taking

/-! ## All of them -/

/-- One target for each index, and each target echoes its own. -/
def Echoes (targets : List BlockUploadTarget) (indices : List Int) : Prop :=
  (targets.map BlockUploadTarget.index).Perm (indices.map some)

/-- One target for each index, and no target echoes one. -/
def Silent (targets : List BlockUploadTarget) (indices : List Int) : Prop :=
  targets.length = indices.length ∧ ∀ t ∈ targets, t.index = none

variable {batch : List (PreparedBlock ρ δ)} {targets : List BlockUploadTarget}

theorem blockJobs_cons {block : PreparedBlock ρ δ} {target : BlockUploadTarget}
    {rest taken : List BlockUploadTarget}
    (htake : takeBlockTarget targets block.index = some (target, rest))
    (hrest : blockJobs batch rest = .ok (List.zipWith PreparedBlock.job batch taken)) :
    blockJobs (block :: batch) targets =
      .ok (List.zipWith PreparedBlock.job (block :: batch) (target :: taken)) := by
  unfold blockJobs takeEach
  rw [htake]
  show (blockJobs batch rest >>= _) = _
  rw [hrest]
  rfl

theorem blockJobs_echoed (h : Echoes targets (batch.map PreparedBlock.index)) :
    ∃ taken, blockJobs batch targets = .ok (List.zipWith PreparedBlock.job batch taken) ∧
      taken.Perm targets ∧
      taken.map BlockUploadTarget.index = batch.map (fun block => some block.index) := by
  induction batch generalizing targets with
  | nil =>
      obtain rfl : targets = [] := List.map_eq_nil_iff.mp (List.Perm.eq_nil h)
      exact ⟨[], rfl, .refl _, rfl⟩
  | cons block batch ih =>
      have hfirst : ∃ t ∈ targets, t.index = some block.index := by
        apply List.mem_map.mp
        rw [h.mem_iff]
        exact List.mem_cons_self
      obtain ⟨before, target, after, rfl, hecho, htake⟩ := takeTarget_echoed hfirst
      -- What is left are the targets of the other blocks.
      have hleft : Echoes (before ++ after) (batch.map PreparedBlock.index) := by
        have hmiddle : (before ++ target :: after).Perm (target :: (before ++ after)) :=
          List.perm_middle
        have hall := (hmiddle.map BlockUploadTarget.index).symm.trans h
        rw [List.map_cons, hecho] at hall
        exact List.Perm.cons_inv hall
      obtain ⟨taken, hjobs, hperm, hindices⟩ := ih hleft
      refine ⟨target :: taken, blockJobs_cons htake hjobs, ?_, ?_⟩
      · exact (hperm.cons target).trans List.perm_middle.symm
      · rw [List.map_cons, List.map_cons, hecho, hindices]

theorem blockJobs_silent (h : Silent targets (batch.map PreparedBlock.index)) :
    blockJobs batch targets = .ok (List.zipWith PreparedBlock.job batch targets) := by
  induction batch generalizing targets with
  | nil =>
      obtain rfl := List.eq_nil_of_length_eq_zero h.1
      rfl
  | cons block batch ih =>
      cases targets with
      | nil => cases h.1
      | cons target rest =>
          apply blockJobs_cons (takeTarget_silent h.2)
          exact ih ⟨Nat.succ.inj h.1, fun t ht => h.2 t (List.mem_cons_of_mem target ht)⟩

/-- Only where nothing was asked for do targets both echo their indices and echo none. -/
theorem eq_nil_of_echoes_silent {indices : List Int} (hechoes : Echoes targets indices)
    (hsilent : Silent targets indices) : targets = [] := by
  apply List.eq_nil_iff_forall_not_mem.mpr
  intro t ht
  have hmem := hechoes.mem_iff.mp (List.mem_map_of_mem ht)
  rw [hsilent.2 t ht] at hmem
  obtain ⟨_, -, hnever⟩ := List.mem_map.mp hmem
  cases hnever

/-- **Each block of a batch gets a target**, if the server has answered with one for each, in any
order: no target is used twice, a block gets the target that echoes its index, and the `k`-th block
the `k`-th target where none is echoed. The thumbnails take theirs from a list of their own. -/
theorem batchJobs_matched {prepared : BlockUploadPreparationResponse}
    (hanswer : Echoes prepared.uploadTargets (batch.map PreparedBlock.index) ∨
      Silent prepared.uploadTargets (batch.map PreparedBlock.index)) :
    ∃ taken, taken.Perm prepared.uploadTargets ∧
      (Echoes prepared.uploadTargets (batch.map PreparedBlock.index) →
        taken.map BlockUploadTarget.index = batch.map (fun block => some block.index)) ∧
      (Silent prepared.uploadTargets (batch.map PreparedBlock.index) →
        taken = prepared.uploadTargets) ∧
      ∀ thumbnails : List (EncryptedThumbnail δ), batchJobs prepared thumbnails batch =
        (thumbnailJobs thumbnails prepared.thumbnailUploadTargets).map
          (· ++ List.zipWith PreparedBlock.job batch taken) := by
  have hjobs : ∀ taken,
      blockJobs batch prepared.uploadTargets = .ok (List.zipWith PreparedBlock.job batch taken) →
      ∀ thumbnails : List (EncryptedThumbnail δ), batchJobs prepared thumbnails batch =
        (thumbnailJobs thumbnails prepared.thumbnailUploadTargets).map
          (· ++ List.zipWith PreparedBlock.job batch taken) := by
    intro taken htaken thumbnails
    unfold batchJobs
    rw [htaken]
    cases thumbnailJobs thumbnails prepared.thumbnailUploadTargets <;> rfl
  rcases hanswer with hechoes | hsilent
  · -- Only an empty batch is echoed and silent at once.
    obtain ⟨taken, htaken, hperm, hindices⟩ := blockJobs_echoed hechoes
    refine ⟨taken, hperm, fun _ => hindices, ?_, hjobs taken htaken⟩
    intro hsilent
    rw [eq_nil_of_echoes_silent hechoes hsilent] at hperm ⊢
    exact hperm.eq_nil
  · refine ⟨prepared.uploadTargets, .refl _, ?_, fun _ => rfl, hjobs _ (blockJobs_silent hsilent)⟩
    intro hechoes
    have hnil := eq_nil_of_echoes_silent hechoes hsilent
    have hlength := hsilent.1
    rw [hnil, List.length_nil, List.length_map] at hlength
    rw [hnil, List.eq_nil_of_length_eq_zero hlength.symm]
    rfl

/-- Two blocks, and their targets the other way round. -/
def twoBlocks : List (PreparedBlock Unit Unit) := [⟨1, (), [10], ()⟩, ⟨2, (), [20], ()⟩]

def swappedTargets : BlockUploadPreparationResponse where
  uploadTargets := [⟨"url", "second", some 2, none⟩, ⟨"url", "first", some 1, none⟩]
  thumbnailUploadTargets := []

theorem batchJobs_matched_swapped :
    ∃ taken, taken.Perm swappedTargets.uploadTargets ∧
      taken.map BlockUploadTarget.index = [some 1, some 2] ∧
      batchJobs swappedTargets [] twoBlocks = .ok (List.zipWith PreparedBlock.job twoBlocks taken) := by
  have hechoes : Echoes swappedTargets.uploadTargets (twoBlocks.map PreparedBlock.index) :=
    List.Perm.swap _ _ _
  obtain ⟨taken, hperm, hechoed, -, hjobs⟩ := batchJobs_matched (.inl hechoes)
  exact ⟨taken, hperm, hechoed hechoes, hjobs []⟩

end ProtonDrive
