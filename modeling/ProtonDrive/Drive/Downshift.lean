import ProtonDrive.Lib.Machine
import ProtonDrive.Lib.WeightedSemaphore
import ProtonDrive.Drive.BatchTargets
import ProtonDrive.Drive.Upload

/-!
# Slowing an upload down

The posts of one file. Each blob of a batch is a future of `upload_one_block`, at most five of them
in flight, and each attempt takes one slot of the file's limiter. After a timeout a flag is set, and
from then on an attempt takes all the slots, so that it is alone.

An attempt reads the flag and then asks the limiter. Both are done in one poll, unless the poll finds
the task's cooperative budget spent: then the limiter is asked in a later poll, with what was read
before.

A post here is one call of `post_storage_blob`: it begins with the call and ends with the outcome that
`upload_one_block` sees. What the transport sends again in between belongs to the same post.

* `limited_of_run` — the limiter's permits are those of the blobs, in every run.
* `follows_of_run` — each blob makes the attempts that `uploadOneBlock` makes when it is alone.
* `downshift_serializes` — in a run in which no attempt asks the limiter with a reading from before
  the timeout, a post that begins after the timeout is alone.
-/

namespace ProtonDrive.Downshift

open Content (maxConcurrentBlockUploads)

variable {ρ δ : Type}

/-! ## One file -/

/-- Where one `upload_one_block` stands. -/
inductive Stage where
  /-- Not yet taken in by `buffer_unordered`. -/
  | queued
  /-- At the head of the loop. -/
  | ready
  /-- Has read the flag; the poll found no budget to ask the limiter. -/
  | deferred (wanted : Nat)
  /-- Has asked the limiter, and was not served at once. -/
  | asked (wanted : Nat)
  /-- In `post_storage_blob`. `late` says whether the flag was set when the post began. -/
  | posting (slots : Nat) (late : Bool)
  /-- In `request_upload_targets`. -/
  | preparing
  | stored
  /-- Dropped with the upload. -/
  | dropped
  deriving DecidableEq, Repr

/-- An attempt: which target it used, out of which preparation, and how it failed, with the number
of preparations that had been answered by then. -/
structure Post where
  target : BlockUploadTarget
  issue : Nat
  failure : Option (ProtonError × Nat)
  deriving DecidableEq, Repr

/-- A blob, with the attempts so far, the last one first. -/
structure Blob (ρ δ : Type) where
  job : UploadJob ρ δ
  target : BlockUploadTarget
  issue : Nat
  stage : Stage
  posts : List Post

/-- The upload of one file. `prepared` has the requests of every preparation that was answered. -/
structure FileUpload (ρ δ : Type) where
  blobs : List (Blob ρ δ)
  /-- The jobs of the batch that are not in flight yet. -/
  stream : List Nat
  inFlight : List Nat
  limiter : WeightedSemaphore maxConcurrentBlockUploads Nat
  downshifted : Bool
  prepared : List (List ρ)
  failed : Bool

def FileUpload.initial : FileUpload ρ δ where
  blobs := []
  stream := []
  inFlight := []
  limiter := .idle
  downshifted := false
  prepared := []
  failed := false

inductive Action (ρ δ : Type) where
  /-- `upload_batch`, with what it is answered. -/
  | batch (blocks : List (PreparedBlock ρ δ)) (thumbnails : List (EncryptedThumbnail δ))
      (answer : Except ProtonError BlockUploadPreparationResponse)
  /-- `buffer_unordered` takes in the next job. -/
  | takeIn
  /-- A poll before the limiter has been asked, which may find the task's budget `spent`. -/
  | poll (i : Nat) (spent : Bool)
  /-- A poll after the limiter has served the request. -/
  | start (i : Nat)
  | respond (i : Nat) (outcome : Except ProtonError Unit)
  | renewed (i : Nat) (answer : Except ProtonError (List BlockUploadTarget))

/-! ## Steps -/

def Blob.new (issue : Nat) (job : UploadJob ρ δ) : Blob ρ δ := ⟨job, job.target, issue, .queued, []⟩

/-- A post begins. -/
def Blob.begin (b : Blob ρ δ) (slots : Nat) (late : Bool) : Blob ρ δ :=
  { b with stage := .posting slots late, posts := ⟨b.target, b.issue, none⟩ :: b.posts }

/-- The last post has failed, after so many preparations. -/
def Blob.fail (b : Blob ρ δ) (error : ProtonError) (answered : Nat) : Blob ρ δ :=
  match b.posts with
  | [] => b
  | post :: posts => { b with posts := { post with failure := some (error, answered) } :: posts }

namespace FileUpload

variable (s : FileUpload ρ δ)

def put (i : Nat) (b : Blob ρ δ) : FileUpload ρ δ := { s with blobs := s.blobs.set i b }

/-- An error ends the upload, and everything in flight is dropped. -/
def abort : FileUpload ρ δ :=
  { s with
    blobs := s.blobs.map (fun b => { b with stage := .dropped })
    stream := []
    inFlight := []
    limiter := .idle
    failed := true }

def wanted : Nat := if s.downshifted then maxConcurrentBlockUploads else 1

/-- `limiter.acquire_many`; if it is served at once, the post begins in the same poll. -/
def ask (i : Nat) (b : Blob ρ δ) (wanted : Nat) : FileUpload ρ δ :=
  let asked := s.limiter.acquire i wanted
  { s with limiter := asked.1 }.put i
    (if asked.2 then b.begin wanted s.downshifted else { b with stage := .asked wanted })

/-- What follows a failed post. -/
def retry (i : Nat) (b : Blob ρ δ) (error : ProtonError) : FileUpload ρ δ :=
  let s := { s with limiter := s.limiter.release i }
  let b := b.fail error s.prepared.length
  if maxBlockUploadAttempts ≤ b.posts.length ∨ error.isRetriable = false then s.abort
  else if isUploadTimeout error then
    { s with downshifted := true }.put i { b with stage := .ready }
  else if isExpiredUploadToken error ∧ b.job.request.isSome then
    s.put i { b with stage := .preparing }
  else s.put i { b with stage := .ready }

/-- A job that is done leaves the window. -/
def finish (i : Nat) (b : Blob ρ δ) : FileUpload ρ δ :=
  { s with limiter := s.limiter.release i, inFlight := s.inFlight.erase i }.put i
    { b with stage := .stored }

def addBatch (blocks : List (PreparedBlock ρ δ)) (jobs : List (UploadJob ρ δ)) : FileUpload ρ δ :=
  { s with
    blobs := s.blobs ++ jobs.map (Blob.new s.prepared.length)
    stream := List.range' s.blobs.length jobs.length
    prepared := s.prepared ++ [blocks.map PreparedBlock.request] }

/-- The first target that a renewed preparation returns. -/
def renew (i : Nat) (b : Blob ρ δ) (request : ρ)
    (answer : Except ProtonError (List BlockUploadTarget)) : FileUpload ρ δ :=
  match answer with
  | .error _ => s.abort
  | .ok [] => s.abort
  | .ok (target :: _) =>
      { s with prepared := s.prepared ++ [[request]] }.put i
        { b with target, issue := s.prepared.length, stage := .ready }

def step : Action ρ δ → Option (FileUpload ρ δ)
  | .batch blocks thumbnails answer =>
      if s.failed ∨ s.stream ≠ [] ∨ s.inFlight ≠ [] then none
      else
        match answer with
        | .error _ => some s.abort
        | .ok response =>
            match batchJobs response thumbnails blocks with
            | .error _ => some s.abort
            | .ok jobs => some (s.addBatch blocks jobs)
  | .takeIn =>
      match s.stream with
      | [] => none
      | i :: rest => do
          let b ← s.blobs[i]?
          if s.inFlight.length < maxConcurrentBlockUploads then
            some ({ s with stream := rest, inFlight := i :: s.inFlight }.put i
              { b with stage := .ready })
          else none
  | .poll i spent => do
      let b ← s.blobs[i]?
      match b.stage with
      | .ready =>
          if spent then some (s.put i { b with stage := .deferred s.wanted })
          else some (s.ask i b s.wanted)
      | .deferred wanted => if spent then some s else some (s.ask i b wanted)
      | _ => none
  | .start i => do
      let b ← s.blobs[i]?
      match b.stage with
      | .asked wanted =>
          if (i, wanted) ∈ s.limiter.held then some (s.put i (b.begin wanted s.downshifted))
          else none
      | _ => none
  | .respond i outcome => do
      let b ← s.blobs[i]?
      match b.stage, outcome with
      | .posting _ _, .ok () => some (s.finish i b)
      | .posting _ _, .error error => some (s.retry i b error)
      | _, _ => none
  | .renewed i answer => do
      let b ← s.blobs[i]?
      match b.stage, b.job.request with
      | .preparing, some request => some (s.renew i b request answer)
      | _, _ => none

end FileUpload

def machine (ρ δ : Type) : Machine (FileUpload ρ δ) (Action ρ δ) := ⟨FileUpload.step⟩

/-! ## Stages -/

namespace Stage

/-- The permits that a blob has asked the limiter for, or has been given. -/
def claim : Stage → Option Nat
  | .asked n => some n
  | .posting n _ => some n
  | _ => none

/-- The permits of an attempt that has read the flag. -/
def wanted : Stage → Option Nat
  | .deferred n => some n
  | .asked n => some n
  | .posting n _ => some n
  | _ => none

/-- In the window of `buffer_unordered`. -/
def inWindow : Stage → Bool
  | .queued | .stored | .dropped => false
  | _ => true

/-- Another attempt may follow, and its target is known. -/
def aimed : Stage → Bool
  | .queued | .ready | .deferred _ | .asked _ => true
  | _ => false

/-- A blob that holds permits is one of those under way. -/
theorem inWindow_of_claim {stage : Stage} {n : Nat} (h : stage.claim = some n) :
    stage.inWindow = true := by
  cases stage <;> first | rfl | cases h

/-- The permits that a blob holds are those it asked for. -/
theorem wanted_of_claim {stage : Stage} {n : Nat} (h : stage.claim = some n) :
    stage.wanted = some n := by
  cases stage <;> first | exact h | cases h

end Stage

/-! ## The limiter -/

/-- Who holds or waits. -/
def claims (limiter : WeightedSemaphore maxConcurrentBlockUploads Nat) : List (Nat × Nat) :=
  limiter.held ++ limiter.queue

/-- The permits of the limiter are those of the blobs, which are in the window, and there are at
most five of those. -/
structure Limited (s : FileUpload ρ δ) : Prop where
  claims_iff : ∀ (i n : Nat), (i, n) ∈ claims s.limiter ↔
    ∃ b : Blob ρ δ, s.blobs[i]? = some b ∧ b.stage.claim = some n
  waiting : ∀ (i n : Nat), (i, n) ∈ s.limiter.queue →
    ∀ b : Blob ρ δ, s.blobs[i]? = some b → b.stage = .asked n
  owners : ((claims s.limiter).map Prod.fst).Nodup
  window : ∀ (i : Nat) (b : Blob ρ δ), s.blobs[i]? = some b → b.stage.inWindow = true →
    i ∈ s.inFlight
  small : s.inFlight.length ≤ maxConcurrentBlockUploads
  sizes : ∀ (i : Nat) (b : Blob ρ δ) (n : Nat), s.blobs[i]? = some b → b.stage.wanted = some n →
    0 < n ∧ n ≤ maxConcurrentBlockUploads

/-- After `put` a blob is either the new one or one that was there. -/
theorem getElem?_put {s : FileUpload ρ δ} {i j : Nat} {b c : Blob ρ δ}
    (h : (s.put i b).blobs[j]? = some c) : (j = i ∧ c = b) ∨ (j ≠ i ∧ s.blobs[j]? = some c) := by
  unfold FileUpload.put at h
  rw [List.getElem?_set] at h
  split at h
  · next hij =>
    split at h
    · exact .inl ⟨hij.symm, (Option.some.inj h).symm⟩
    · cases h
  · next hij => exact .inr ⟨Ne.symm hij, h⟩

theorem getElem?_put_self {s : FileUpload ρ δ} {i : Nat} {b b' : Blob ρ δ}
    (h : s.blobs[i]? = some b) : (s.put i b').blobs[i]? = some b' := by
  unfold FileUpload.put
  rw [List.getElem?_set_self (List.getElem?_eq_some_iff.mp h).1]

theorem getElem?_put_ne {s : FileUpload ρ δ} {i j : Nat} {b' : Blob ρ δ} (h : j ≠ i) :
    (s.put i b').blobs[j]? = s.blobs[j]? := by
  unfold FileUpload.put
  rw [List.getElem?_set_ne (Ne.symm h)]

/-- One blob is replaced, and the limiter with it. -/
theorem Limited.put {s t : FileUpload ρ δ} (h : Limited s) {i : Nat} {b b' : Blob ρ δ}
    (hb : s.blobs[i]? = some b) (hblobs : t.blobs = s.blobs)
    (hclaims : ∀ w, w ∈ claims t.limiter ↔
      (w ∈ claims s.limiter ∧ w.1 ≠ i) ∨ (w.1 = i ∧ b'.stage.claim = some w.2))
    (howners : ((claims t.limiter).map Prod.fst).Nodup)
    (hqueue : ∀ n, (i, n) ∈ t.limiter.queue → b'.stage = .asked n)
    (hothers : ∀ j n, j ≠ i → (j, n) ∈ t.limiter.queue → (j, n) ∈ s.limiter.queue)
    (hwindow : ∀ j ∈ s.inFlight, j ≠ i → j ∈ t.inFlight)
    (hself : b'.stage.inWindow = true → i ∈ t.inFlight)
    (hsmall : t.inFlight.length ≤ maxConcurrentBlockUploads)
    (hsizes : ∀ n, b'.stage.wanted = some n → 0 < n ∧ n ≤ maxConcurrentBlockUploads) :
    Limited (t.put i b') := by
  have hti : t.blobs[i]? = some b := by rw [hblobs, hb]
  refine ⟨?_, ?_, howners, ?_, hsmall, ?_⟩
  · -- The claims at the semaphore are those of the stages: of the blob `i` the new one, of the
    -- others the old ones.
    intro j n
    show (j, n) ∈ claims t.limiter ↔ _
    rw [hclaims]
    by_cases hj : j = i
    · rw [hj, getElem?_put_self hti]
      simp
    · rw [getElem?_put_ne hj, hblobs, ← h.claims_iff]
      simp [hj]
  · intro j n hjn c hc
    rcases getElem?_put hc with ⟨rfl, rfl⟩ | ⟨hj, hc⟩
    · exact hqueue n hjn
    · rw [hblobs] at hc
      exact h.waiting j n (hothers j n hj hjn) c hc
  · intro j c hc hin
    rcases getElem?_put hc with ⟨rfl, rfl⟩ | ⟨hj, hc⟩
    · exact hself hin
    · rw [hblobs] at hc
      exact hwindow j (h.window j c hc hin) hj
  · intro j c n hc hn
    rcases getElem?_put hc with ⟨rfl, rfl⟩ | ⟨hj, hc⟩
    · exact hsizes n hn
    · rw [hblobs] at hc
      exact h.sizes j c n hc hn

section

variable {s t : FileUpload ρ δ} {i : Nat} {b b' : Blob ρ δ}

/-- A blob whose stage holds no permits has none at the semaphore either. -/
theorem Limited.not_claimed (h : Limited s) (hb : s.blobs[i]? = some b)
    (hclaim : b.stage.claim = none) (n : Nat) : (i, n) ∉ claims s.limiter := by
  intro hmem
  obtain ⟨c, hc, hn⟩ := (h.claims_iff i n).mp hmem
  rw [hb] at hc
  cases hc
  rw [hclaim] at hn
  cases hn

/-- A blob that has nothing of the limiter goes on to something for which it needs nothing. -/
theorem Limited.put_quiet (h : Limited s) (hb : s.blobs[i]? = some b)
    (hblobs : t.blobs = s.blobs) (hlimiter : t.limiter = s.limiter)
    (hclaim : b.stage.claim = none) (hclaim' : b'.stage.claim = none)
    (hwindow : ∀ j ∈ s.inFlight, j ≠ i → j ∈ t.inFlight)
    (hself : b'.stage.inWindow = true → i ∈ t.inFlight)
    (hsmall : t.inFlight.length ≤ maxConcurrentBlockUploads)
    (hsizes : ∀ n, b'.stage.wanted = some n → 0 < n ∧ n ≤ maxConcurrentBlockUploads) :
    Limited (t.put i b') := by
  -- The blob holds nothing before and after, so the semaphore need not change.
  have hnot := h.not_claimed hb hclaim
  apply h.put hb hblobs
  · rintro ⟨j, n⟩
    rw [hlimiter, hclaim']
    constructor
    · intro hmem
      refine .inl ⟨hmem, ?_⟩
      rintro rfl
      exact hnot n hmem
    · rintro (⟨hmem, -⟩ | ⟨-, hn⟩)
      · exact hmem
      · cases hn
  · rw [hlimiter]
    exact h.owners
  · intro n hn
    rw [hlimiter] at hn
    exact absurd (List.mem_append_right _ hn) (hnot n)
  · intro j n _ hn
    rwa [hlimiter] at hn
  · exact hwindow
  · exact hself
  · exact hsmall
  · exact hsizes

/-- A blob that asks joins the queue of the semaphore, which stays limited. -/
theorem Limited.ask (h : Limited s) (hb : s.blobs[i]? = some b) (hclaim : b.stage.claim = none)
    (hin : b.stage.inWindow = true) {n : Nat} (hn : 0 < n ∧ n ≤ maxConcurrentBlockUploads) :
    Limited (s.ask i b n) := by
  have hnot := h.not_claimed hb hclaim
  have hperm := s.limiter.perm_acquire i n
  have hqueue := s.limiter.queue_acquire i n
  have hclaim' : (if (s.limiter.acquire i n).2 then b.begin n s.downshifted
      else { b with stage := .asked n }).stage.claim = some n := by
    split <;> rfl
  unfold FileUpload.ask
  refine h.put (t := { s with limiter := (s.limiter.acquire i n).1 }) hb rfl ?_ ?_ ?_ ?_
    (fun j hj _ => hj) (fun _ => h.window i b hb hin) h.small ?_
  · -- The semaphore has one claim more, held or in its queue.
    rintro ⟨j, m⟩
    rw [hclaim']
    show (j, m) ∈ (s.limiter.acquire i n).1.held ++ (s.limiter.acquire i n).1.queue ↔ _
    rw [hperm.mem_iff, List.mem_cons]
    constructor
    · rintro (hsame | hmem)
      · cases hsame
        exact .inr ⟨rfl, rfl⟩
      · refine .inl ⟨hmem, ?_⟩
        rintro rfl
        exact hnot m hmem
    · rintro (⟨hmem, -⟩ | ⟨rfl, hm⟩)
      · exact .inr hmem
      · cases hm
        exact .inl rfl
  · -- The blob had none, so no blob has two.
    have hnodup := (hperm.map Prod.fst).nodup_iff.mpr
    apply hnodup
    rw [List.map_cons, List.nodup_cons]
    refine ⟨?_, h.owners⟩
    intro hmem
    obtain ⟨⟨j, m⟩, hjm, rfl⟩ := List.mem_map.mp hmem
    exact hnot m hjm
  · -- In the queue only if the semaphore was not free at once.
    intro m hm
    show (if (s.limiter.acquire i n).2 then _ else _ : Blob ρ δ).stage = _
    change (i, m) ∈ (s.limiter.acquire i n).1.queue at hm
    rw [hqueue] at hm
    split at hm
    · exact absurd (List.mem_append_right _ hm) (hnot m)
    · next hwaits =>
      rw [if_neg hwaits]
      rcases List.mem_append.mp hm with hm | hm
      · exact absurd (List.mem_append_right _ hm) (hnot m)
      · cases List.mem_singleton.mp hm
        rfl
  · intro j m hj hm
    change (j, m) ∈ (s.limiter.acquire i n).1.queue at hm
    rw [hqueue] at hm
    split at hm
    · exact hm
    · rcases List.mem_append.mp hm with hm | hm
      · exact hm
      · cases List.mem_singleton.mp hm
        exact absurd rfl hj
  · intro m hm
    have hwanted := Stage.wanted_of_claim hclaim'
    rw [hwanted] at hm
    cases hm
    exact hn

/-- Who holds does not wait. -/
theorem Limited.not_queued (h : Limited s) {n m : Nat} (hheld : (i, n) ∈ s.limiter.held) :
    (i, m) ∉ s.limiter.queue := by
  intro hqueue
  have howners := h.owners
  unfold claims at howners
  rw [List.map_append] at howners
  exact List.disjoint_of_nodup_append howners (List.mem_map.mpr ⟨(i, n), hheld, rfl⟩)
    (List.mem_map.mpr ⟨(i, m), hqueue, rfl⟩)

/-- A post begins that has been waited for. -/
theorem Limited.start (h : Limited s) {n : Nat} (hb : s.blobs[i]? = some b)
    (hstage : b.stage = .asked n) (hheld : (i, n) ∈ s.limiter.held) (late : Bool) :
    Limited (s.put i (b.begin n late)) := by
  have hclaim : b.stage.claim = some n := by rw [hstage]; rfl
  refine h.put hb rfl ?_ h.owners (fun m hm => absurd hm (h.not_queued hheld))
    (fun j m _ hm => hm) (fun j hj _ => hj)
    (fun _ => h.window i b hb (Stage.inWindow_of_claim hclaim)) h.small ?_
  · rintro ⟨j, m⟩
    by_cases hj : j = i
    · subst hj
      have hsame : (j, m) ∈ claims s.limiter ↔ some n = some m := by
        rw [h.claims_iff, hb]
        simp [hclaim]
      rw [hsame]
      simp [Blob.begin, Stage.claim]
    · simp [hj]
  · intro m hm
    cases hm
    exact h.sizes i b n hb (Stage.wanted_of_claim hclaim)

/-- A post is over, and its slots go back. -/
theorem Limited.release (h : Limited s) {n : Nat} {late : Bool} (hb : s.blobs[i]? = some b)
    (hstage : b.stage = .posting n late) (hblobs : t.blobs = s.blobs)
    (hlimiter : t.limiter = s.limiter.release i) (hclaim' : b'.stage.wanted = none)
    (hwindow : ∀ j ∈ s.inFlight, j ≠ i → j ∈ t.inFlight)
    (hself : b'.stage.inWindow = true → i ∈ t.inFlight)
    (hsmall : t.inFlight.length ≤ maxConcurrentBlockUploads) :
    Limited (t.put i b') := by
  -- Who posts is served, and does not wait.
  have hnot : ∀ m, (i, m) ∉ s.limiter.queue := by
    intro m hm
    have hasked := h.waiting i m hm b hb
    rw [hstage] at hasked
    cases hasked
  have hperm := s.limiter.perm_release i
  have hnone : ∀ m, b'.stage.claim ≠ some m := by
    intro m hm
    rw [Stage.wanted_of_claim hm] at hclaim'
    cases hclaim'
  refine h.put hb hblobs ?_ ?_ ?_ ?_ hwindow hself hsmall ?_
  · rintro ⟨j, m⟩
    show (j, m) ∈ t.limiter.held ++ t.limiter.queue ↔ _
    rw [hlimiter, hperm.mem_iff, List.mem_append, List.mem_filter]
    show _ ↔ ((j, m) ∈ s.limiter.held ++ s.limiter.queue ∧ j ≠ i) ∨ _
    rw [List.mem_append]
    constructor
    · -- What is left are the claims of the others, some of which are served now.
      rintro (⟨hheld, hne⟩ | hqueue)
      · exact .inl ⟨.inl hheld, by simpa using hne⟩
      · refine .inl ⟨.inr hqueue, ?_⟩
        rintro rfl
        exact hnot m hqueue
    · rintro (⟨hmem | hmem, hne⟩ | ⟨-, hm⟩)
      · exact .inl ⟨hmem, by simpa using hne⟩
      · exact .inr hmem
      · exact absurd hm (hnone m)
  · unfold claims
    rw [hlimiter, (hperm.map Prod.fst).nodup_iff]
    exact h.owners.sublist ((List.filter_sublist.append_right _).map Prod.fst)
  · intro m hm
    rw [hlimiter] at hm
    exact absurd (WeightedSemaphore.mem_serve.2 hm) (hnot m)
  · intro j m _ hm
    rw [hlimiter] at hm
    exact WeightedSemaphore.mem_serve.2 hm
  · intro m hm
    rw [hclaim'] at hm
    cases hm

/-- After an abort every blob is dropped. -/
theorem stage_of_abort (hb : s.abort.blobs[i]? = some b) : b.stage = .dropped := by
  unfold FileUpload.abort at hb
  rw [List.getElem?_map, Option.map_eq_some_iff] at hb
  obtain ⟨c, -, rfl⟩ := hb
  rfl

/-- An abort returns every permit. -/
theorem limited_abort (s : FileUpload ρ δ) : Limited s.abort := by
  refine ⟨?_, (fun i n h => by cases h), List.nodup_nil, ?_, Nat.zero_le _, ?_⟩
  · intro i n
    constructor
    · intro h
      cases h
    · rintro ⟨b, hb, hclaim⟩
      rw [stage_of_abort hb] at hclaim
      cases hclaim
  · intro i b hb hin
    rw [stage_of_abort hb] at hin
    cases hin
  · intro i b n hb hn
    rw [stage_of_abort hb] at hn
    cases hn

/-- A batch adds queued blobs and leaves the others as they are. -/
theorem of_addBatch {blocks : List (PreparedBlock ρ δ)} {jobs : List (UploadJob ρ δ)}
    (hb : (s.addBatch blocks jobs).blobs[i]? = some b) :
    s.blobs[i]? = some b ∨ b.stage = .queued := by
  unfold FileUpload.addBatch at hb
  rw [List.getElem?_append] at hb
  split at hb
  · exact .inl hb
  · rw [List.getElem?_map, Option.map_eq_some_iff] at hb
    obtain ⟨job, -, rfl⟩ := hb
    exact .inr rfl

/-- The blobs of a new batch need nothing yet. -/
theorem Limited.addBatch (h : Limited s) (blocks : List (PreparedBlock ρ δ))
    (jobs : List (UploadJob ρ δ)) : Limited (s.addBatch blocks jobs) := by
  have hold : ∀ (i : Nat) (b : Blob ρ δ), s.blobs[i]? = some b →
      (s.addBatch blocks jobs).blobs[i]? = some b := by
    intro i b hb
    unfold FileUpload.addBatch
    rw [List.getElem?_append_left (List.getElem?_eq_some_iff.mp hb).1]
    exact hb
  refine ⟨?_, ?_, h.owners, ?_, h.small, ?_⟩
  · intro i n
    show (i, n) ∈ claims s.limiter ↔ _
    rw [h.claims_iff]
    constructor
    · rintro ⟨b, hb, hn⟩
      exact ⟨b, hold i b hb, hn⟩
    · -- The new blobs are queued and hold nothing.
      rintro ⟨b, hb, hn⟩
      rcases of_addBatch hb with hb | hqueued
      · exact ⟨b, hb, hn⟩
      · rw [hqueued] at hn
        cases hn
  · intro i n hn b hb
    obtain ⟨c, hc, -⟩ := (h.claims_iff i n).mp (List.mem_append_right _ hn)
    have hsame := hold i c hc
    rw [hb] at hsame
    cases hsame
    exact h.waiting i n hn b hc
  · intro i b hb hin
    rcases of_addBatch hb with hb | hqueued
    · exact h.window i b hb hin
    · rw [hqueued] at hin
      cases hin
  · intro i b n hb hn
    rcases of_addBatch hb with hb | hqueued
    · exact h.sizes i b n hb hn
    · rw [hqueued] at hn
      cases hn

end

/-! ## What a step can do -/

/-- One constructor for each way in which a step ends. -/
inductive Step (s : FileUpload ρ δ) : Action ρ δ → FileUpload ρ δ → Prop where
  | abort (a : Action ρ δ) : Step s a s.abort
  | batch {blocks : List (PreparedBlock ρ δ)} {thumbnails : List (EncryptedThumbnail δ)}
      {response : BlockUploadPreparationResponse} {jobs : List (UploadJob ρ δ)}
      (hstream : s.stream = []) (hinFlight : s.inFlight = [])
      (hjobs : batchJobs response thumbnails blocks = .ok jobs) :
      Step s (.batch blocks thumbnails (.ok response)) (s.addBatch blocks jobs)
  | takeIn {i : Nat} {rest : List Nat} {b : Blob ρ δ} (hstream : s.stream = i :: rest)
      (hb : s.blobs[i]? = some b) (hroom : s.inFlight.length < maxConcurrentBlockUploads) :
      Step s .takeIn ({ s with stream := rest, inFlight := i :: s.inFlight }.put i
        { b with stage := .ready })
  | defer {i : Nat} {b : Blob ρ δ} (hb : s.blobs[i]? = some b) (hstage : b.stage = .ready) :
      Step s (.poll i true) (s.put i { b with stage := .deferred s.wanted })
  | deferAgain {i : Nat} {b : Blob ρ δ} {n : Nat} (hb : s.blobs[i]? = some b)
      (hstage : b.stage = .deferred n) : Step s (.poll i true) s
  | ask {i : Nat} {b : Blob ρ δ} (hb : s.blobs[i]? = some b) (hstage : b.stage = .ready) :
      Step s (.poll i false) (s.ask i b s.wanted)
  | askDeferred {i : Nat} {b : Blob ρ δ} {n : Nat} (hb : s.blobs[i]? = some b)
      (hstage : b.stage = .deferred n) : Step s (.poll i false) (s.ask i b n)
  | start {i : Nat} {b : Blob ρ δ} {n : Nat} (hb : s.blobs[i]? = some b)
      (hstage : b.stage = .asked n) (hheld : (i, n) ∈ s.limiter.held) :
      Step s (.start i) (s.put i (b.begin n s.downshifted))
  | stored {i : Nat} {b : Blob ρ δ} {n : Nat} {late : Bool} (hb : s.blobs[i]? = some b)
      (hstage : b.stage = .posting n late) : Step s (.respond i (.ok ())) (s.finish i b)
  | retry {i : Nat} {b : Blob ρ δ} {n : Nat} {late : Bool} {error : ProtonError}
      (hb : s.blobs[i]? = some b) (hstage : b.stage = .posting n late)
      (hmore : (b.fail error s.prepared.length).posts.length < maxBlockUploadAttempts)
      {stage : Stage} {downshifted : Bool}
      (hready : stage = .ready ∨ stage = .preparing)
      (hexpired : stage = .ready → isExpiredUploadToken error = true → b.job.request = none)
      (hflag : downshifted = (s.downshifted || isUploadTimeout error))
      (hretriable : error.isRetriable = true)
      (hpreparing : stage = .preparing →
        isUploadTimeout error = false ∧ isExpiredUploadToken error = true) :
      Step s (.respond i (.error error))
        ({ s with limiter := s.limiter.release i, downshifted }.put i
          { b.fail error s.prepared.length with stage })
  | renewed {i : Nat} {b : Blob ρ δ} {request : ρ} {target : BlockUploadTarget}
      {targets : List BlockUploadTarget} (hb : s.blobs[i]? = some b)
      (hstage : b.stage = .preparing) (hrequest : b.job.request = some request) :
      Step s (.renewed i (.ok (target :: targets)))
        ({ s with prepared := s.prepared ++ [[request]] }.put i
          { b with target, issue := s.prepared.length, stage := .ready })

@[simp] theorem fail_job (b : Blob ρ δ) (error : ProtonError) (answered : Nat) :
    (b.fail error answered).job = b.job := by
  unfold Blob.fail
  split <;> rfl

/-- A timeout is no refused token. -/
theorem not_expired_of_timeout {error : ProtonError} (h : isUploadTimeout error = true) :
    isExpiredUploadToken error = false := by
  cases error <;> first | rfl | cases h

/-- An error that can be tried again and comes in time starts the next attempt. -/
theorem step_retry {s : FileUpload ρ δ} {i : Nat} {b : Blob ρ δ} {n : Nat} {late : Bool}
    (error : ProtonError) (hb : s.blobs[i]? = some b) (hstage : b.stage = .posting n late) :
    Step s (.respond i (.error error)) (s.retry i b error) := by
  unfold FileUpload.retry
  dsimp only
  split
  · -- The attempts are used up, or the error is one that the source does not retry.
    exact .abort _
  · next hgo =>
    rw [not_or, Nat.not_le, Bool.not_eq_false] at hgo
    split
    · -- A timeout raises the flag and the blob tries its old target again.
      next htimeout =>
      refine .retry hb hstage hgo.1 (.inl rfl) ?_ ?_ hgo.2 (fun h => by cases h)
      · intro _ hexpired
        rw [not_expired_of_timeout htimeout] at hexpired
        cases hexpired
      · rw [htimeout, Bool.or_true]
    · next htimeout =>
      have hflag : s.downshifted = (s.downshifted || isUploadTimeout error) := by
        rw [Bool.eq_false_iff.mpr htimeout, Bool.or_false]
      split
      · -- A refused token: a new target is asked for first.
        next hexpired =>
        exact .retry hb hstage hgo.1 (.inr rfl) (fun h => by cases h) hflag hgo.2
          (fun _ => ⟨Bool.eq_false_iff.mpr htimeout, hexpired.1⟩)
      · next hother =>
        refine .retry hb hstage hgo.1 (.inl rfl) ?_ hflag hgo.2 (fun h => by cases h)
        intro _ hexpired
        rw [fail_job] at hother
        simpa using fun hsome => hother ⟨hexpired, hsome⟩

/-- Everything that a step can do, with the guards under which it does it. -/
theorem step_eq_some {s t : FileUpload ρ δ} {a : Action ρ δ} (h : s.step a = some t) :
    Step s a t := by
  cases a with
  | batch blocks thumbnails answer =>
      unfold FileUpload.step at h
      dsimp only at h
      split at h
      · cases h
      · -- A batch comes only when the one before it is done.
        next hidle =>
        rw [not_or, not_or, not_not, not_not] at hidle
        split at h
        · cases h
          exact .abort _
        · split at h
          · cases h
            exact .abort _
          · next hjobs =>
            cases h
            exact .batch hidle.2.1 hidle.2.2 hjobs
  | takeIn =>
      unfold FileUpload.step at h
      dsimp only at h
      split at h
      · cases h
      · next i rest hstream =>
        obtain ⟨b, hb, hrest⟩ := Option.bind_eq_some_iff.mp h
        split at hrest
        · next hroom =>
          cases hrest
          exact .takeIn hstream hb hroom
        · cases hrest
  | poll i spent =>
      obtain ⟨b, hb, hrest⟩ := Option.bind_eq_some_iff.mp h
      -- The two stages that poll differ in the number of permits that they ask for.
      split at hrest
      · next hstage =>
        cases spent
        · cases hrest
          exact .ask hb hstage
        · cases hrest
          exact .defer hb hstage
      · next n hstage =>
        cases spent
        · cases hrest
          exact .askDeferred hb hstage
        · cases hrest
          exact .deferAgain hb hstage
      · cases hrest
  | start i =>
      obtain ⟨b, hb, hrest⟩ := Option.bind_eq_some_iff.mp h
      split at hrest
      · next n hstage =>
        split at hrest
        · next hheld =>
          cases hrest
          exact .start hb hstage hheld
        · cases hrest
      · cases hrest
  | respond i outcome =>
      obtain ⟨b, hb, hrest⟩ := Option.bind_eq_some_iff.mp h
      split at hrest
      · next n late hstage =>
        cases hrest
        exact .stored hb hstage
      · next n late error hstage =>
        cases hrest
        exact step_retry error hb hstage
      · cases hrest
  | renewed i answer =>
      obtain ⟨b, hb, hrest⟩ := Option.bind_eq_some_iff.mp h
      split at hrest
      · next request hstage hrequest =>
        cases hrest
        unfold FileUpload.renew
        -- No new target ends the whole upload.
        split
        · exact .abort _
        · exact .abort _
        · exact .renewed hb hstage hrequest
      · cases hrest

/-! ## Every run -/

/-- The jobs that wait in the stream have not begun. -/
structure Streamed (s : FileUpload ρ δ) : Prop where
  queued : ∀ i ∈ s.stream, ∀ b : Blob ρ δ, s.blobs[i]? = some b → b.stage = .queued
  nodup : s.stream.Nodup

section

variable {s t : FileUpload ρ δ} {i : Nat} {b b' : Blob ρ δ} {a : Action ρ δ}

/-- A blob that has left the queue may change its stage. -/
theorem Streamed.put (h : Streamed s) (hb : s.blobs[i]? = some b) (hstage : b.stage ≠ .queued)
    (hblobs : t.blobs = s.blobs) (hstream : t.stream = s.stream) : Streamed (t.put i b') := by
  refine ⟨?_, ?_⟩
  · intro j hj c hc
    change j ∈ t.stream at hj
    rw [hstream] at hj
    rcases getElem?_put hc with ⟨rfl, rfl⟩ | ⟨-, hc⟩
    · exact absurd (h.queued j hj b hb) hstage
    · rw [hblobs] at hc
      exact h.queued j hj c hc
  · show t.stream.Nodup
    rw [hstream]
    exact h.nodup

/-- Blobs keep starting in the order in which they were queued. -/
theorem streamed_step (h : Streamed s) (hstep : Step s a t) : Streamed t := by
  cases hstep with
  | abort => exact ⟨(fun i hi => by cases hi), List.nodup_nil⟩
  | batch hstream hinFlight hjobs =>
      -- The new blobs are numbered after all others, and are queued.
      refine ⟨?_, List.nodup_range'⟩
      intro i hi b hb
      have hi := List.left_le_of_mem_range' hi
      unfold FileUpload.addBatch at hb
      rw [List.getElem?_append_right hi, List.getElem?_map, Option.map_eq_some_iff] at hb
      obtain ⟨job, -, rfl⟩ := hb
      rfl
  | takeIn hstream hb hroom =>
      have hnodup := h.nodup
      rw [hstream, List.nodup_cons] at hnodup
      refine ⟨?_, hnodup.2⟩
      -- The first in line leaves the stream and no number comes twice in it.
      intro j hj c hc
      rcases getElem?_put hc with ⟨rfl, rfl⟩ | ⟨-, hc⟩
      · exact absurd hj hnodup.1
      · apply h.queued j _ c hc
        rw [hstream]
        exact List.mem_cons_of_mem _ hj
  | defer hb hstage => exact h.put hb (by rw [hstage]; nofun) rfl rfl
  | deferAgain hb hstage => exact h
  | ask hb hstage =>
      exact h.put (t := { s with limiter := _ }) hb (by rw [hstage]; nofun) rfl rfl
  | askDeferred hb hstage =>
      exact h.put (t := { s with limiter := _ }) hb (by rw [hstage]; nofun) rfl rfl
  | start hb hstage hheld => exact h.put hb (by rw [hstage]; nofun) rfl rfl
  | stored hb hstage =>
      exact h.put (t := { s with limiter := _, inFlight := _ }) hb (by rw [hstage]; nofun) rfl rfl
  | retry hb hstage hmore hready hexpired hflag =>
      exact h.put (t := { s with limiter := _, downshifted := _ }) hb (by rw [hstage]; nofun) rfl
        rfl
  | renewed hb hstage hrequest =>
      exact h.put (t := { s with prepared := _ }) hb (by rw [hstage]; nofun) rfl rfl

/-- A blob asks for one permit or for all of them. -/
theorem wanted_bounds (s : FileUpload ρ δ) :
    0 < s.wanted ∧ s.wanted ≤ maxConcurrentBlockUploads := by
  unfold FileUpload.wanted
  split <;> decide

/-- No step lets the blobs hold more permits than there are. -/
theorem limited_step (h : Limited s) (hstreamed : Streamed s) (hstep : Step s a t) :
    Limited t := by
  cases hstep with
  | abort => exact limited_abort s
  | batch hstream hinFlight hjobs => exact h.addBatch _ _
  | takeIn hstream hb hroom =>
      -- A queued blob holds nothing, so only the window changes.
      have hqueued := hstreamed.queued _ (by rw [hstream]; exact List.mem_cons_self) _ hb
      exact h.put_quiet (t := { s with stream := _, inFlight := _ }) hb rfl rfl
        (by rw [hqueued]; rfl) rfl (fun j hj _ => List.mem_cons_of_mem _ hj)
        (fun _ => List.mem_cons_self) hroom (fun n hn => by cases hn)
  | defer hb hstage =>
      refine h.put_quiet hb rfl rfl (by rw [hstage]; rfl) rfl (fun j hj _ => hj)
        (fun _ => h.window _ _ hb (by rw [hstage]; rfl)) h.small ?_
      intro n hn
      cases hn
      exact wanted_bounds s
  | deferAgain hb hstage => exact h
  | ask hb hstage =>
      exact h.ask hb (by rw [hstage]; rfl) (by rw [hstage]; rfl) (wanted_bounds s)
  | askDeferred hb hstage =>
      exact h.ask hb (by rw [hstage]; rfl) (by rw [hstage]; rfl)
        (h.sizes _ _ _ hb (by rw [hstage]; rfl))
  | start hb hstage hheld => exact h.start hb hstage hheld s.downshifted
  | stored hb hstage =>
      -- A stored blob leaves the window and gives its permits back.
      refine h.release (t := { s with limiter := _, inFlight := _ }) hb hstage rfl rfl rfl ?_ ?_ ?_
      · intro j hj hne
        exact (List.mem_erase_of_ne hne).mpr hj
      · nofun
      · exact (List.length_erase_le).trans h.small
  | retry hb hstage hmore hready hexpired hflag =>
      -- A blob that tries again gives its permits back and stays in the window.
      refine h.release (t := { s with limiter := _, downshifted := _ }) hb hstage rfl rfl ?_
        (fun j hj _ => hj) (fun _ => h.window _ _ hb (by rw [hstage]; rfl)) h.small
      rcases hready with rfl | rfl <;> rfl
  | renewed hb hstage hrequest =>
      exact h.put_quiet (t := { s with prepared := _ }) hb rfl rfl (by rw [hstage]; rfl) rfl
        (fun j hj _ => hj) (fun _ => h.window _ _ hb (by rw [hstage]; rfl)) h.small
        (fun n hn => by cases hn)

/-- At first nobody holds a permit. -/
theorem limited_initial : Limited (FileUpload.initial : FileUpload ρ δ) := by
  refine ⟨?_, (fun i n h => by cases h), List.nodup_nil, ?_, Nat.zero_le _, ?_⟩
  · intro i n
    constructor
    · intro h
      cases h
    · rintro ⟨b, hb, -⟩
      cases hb
  · intro i b hb
    cases hb
  · intro i b n hb
    cases hb

/-- The limiter's permits are those of the blobs. -/
theorem limited_of_run {actions : List (Action ρ δ)}
    (h : (machine ρ δ).exec .initial actions = some s) : Limited s ∧ Streamed s := by
  refine (machine ρ δ).exec_invariant (fun s => Limited s ∧ Streamed s) ?_
    ⟨limited_initial, ⟨(fun i hi => by cases hi), List.nodup_nil⟩⟩ h
  intro s a t hs hstep
  have hstep := step_eq_some hstep
  exact ⟨limited_step hs.1 hs.2 hstep, streamed_step hs.2 hstep⟩

end

/-! ## Attempts -/

/-- If this post failed because its token had expired, the target was issued afterwards, for this blob
alone. -/
def Renewed (prepared : List (List ρ)) (request : Option ρ) (issue : Nat) (post : Post) : Prop :=
  ∀ error answered r, post.failure = some (error, answered) → isExpiredUploadToken error = true →
    request = some r → answered ≤ issue ∧ prepared[issue]? = some [r]

/-- After each failure for an expired token, the next attempt had a renewed target. -/
def FreshTargets (prepared : List (List ρ)) (b : Blob ρ δ) : Prop :=
  b.posts.IsChain (fun later earlier => Renewed prepared b.job.request later.issue earlier)

/-- What holds of the attempts of one blob. -/
structure Attempts (prepared : List (List ρ)) (b : Blob ρ δ) : Prop where
  few : b.posts.length ≤ maxBlockUploadAttempts
  more : b.stage.aimed = true ∨ b.stage = .preparing → b.posts.length < maxBlockUploadAttempts
  fresh : FreshTargets prepared b
  aimed : b.stage.aimed = true → ∀ post ∈ b.posts.head?,
    Renewed prepared b.job.request b.issue post
  past : ∀ post ∈ b.posts, ∀ error answered, post.failure = some (error, answered) →
    answered ≤ prepared.length
  begun : ∀ n late, b.stage = .posting n late → b.posts ≠ []

/-- More targets prepared do not change which ones a request was given. -/
theorem Renewed.grow {prepared : List (List ρ)} {request : Option ρ} {issue : Nat} {post : Post}
    (h : Renewed prepared request issue post) (more : List (List ρ)) :
    Renewed (prepared ++ more) request issue post := by
  intro error answered r hfailure hexpired hr
  obtain ⟨hle, hissue⟩ := h error answered r hfailure hexpired hr
  refine ⟨hle, ?_⟩
  rw [List.getElem?_append_left (List.getElem?_eq_some_iff.mp hissue).1]
  exact hissue

section

variable {s t : FileUpload ρ δ} {prepared : List (List ρ)} {b : Blob ρ δ} {a : Action ρ δ}

/-- More targets prepared do not change what the attempts of a blob were. -/
theorem Attempts.grow (h : Attempts prepared b) (more : List (List ρ)) :
    Attempts (prepared ++ more) b := by
  refine ⟨h.few, h.more, h.fresh.imp (fun _ _ hr => hr.grow more),
    fun haimed post hpost => (h.aimed haimed post hpost).grow more, ?_, h.begun⟩
  intro post hpost error answered hfailure
  have := h.past post hpost error answered hfailure
  rw [List.length_append]
  omega

/-- Whoever can go on to an attempt goes on, with the same target. -/
theorem Attempts.move (h : Attempts prepared b) (hstage : b.stage.aimed = true) {stage : Stage}
    (haimed : stage.aimed = true) : Attempts prepared { b with stage } := by
  refine ⟨h.few, fun _ => h.more (.inl hstage), h.fresh, fun _ => h.aimed hstage, h.past, ?_⟩
  intro n late hposting
  change stage = _ at hposting
  rw [hposting] at haimed
  cases haimed

/-- A blob that is stored, or dropped, makes no attempt any more. -/
theorem Attempts.settle (h : Attempts prepared b) {stage : Stage}
    (hstage : stage = .stored ∨ stage = .dropped) : Attempts prepared { b with stage } := by
  refine ⟨h.few, ?_, h.fresh, ?_, h.past, ?_⟩
  · rcases hstage with rfl | rfl <;> rintro (hno | hno) <;> cases hno
  · rcases hstage with rfl | rfl <;> intro hno <;> cases hno
  · rcases hstage with rfl | rfl <;> intro n late hno <;> cases hno

/-- An attempt that begins is one more post, to the target that the blob has. -/
theorem Attempts.begin (h : Attempts prepared b) (hstage : b.stage.aimed = true) (n : Nat)
    (late : Bool) : Attempts prepared (b.begin n late) := by
  have hfew := h.more (.inl hstage)
  refine ⟨?_, ?_, ?_, ?_, ?_, fun _ _ _ => List.cons_ne_nil _ _⟩
  · show (_ :: b.posts).length ≤ _
    rw [List.length_cons]
    omega
  · rintro (hno | hno) <;> cases hno
  · show List.IsChain _ (_ :: b.posts)
    exact h.fresh.cons (h.aimed hstage)
  · intro hno
    cases hno
  · intro post hpost error answered hfailure
    rcases List.mem_cons.mp hpost with rfl | hpost
    · cases hfailure
    · exact h.past post hpost error answered hfailure

/-- A post that failed, of a blob that goes on. -/
theorem Attempts.retry (h : Attempts prepared b) {error : ProtonError}
    (hmore : (b.fail error prepared.length).posts.length < maxBlockUploadAttempts) {stage : Stage}
    (hready : stage = .ready ∨ stage = .preparing)
    (hexpired : stage = .ready → isExpiredUploadToken error = true → b.job.request = none)
    (hbegun : b.posts ≠ []) :
    Attempts prepared { b.fail error prepared.length with stage } := by
  obtain ⟨post, posts, hposts⟩ := List.exists_cons_of_ne_nil hbegun
  -- The last post gets its failure, and the others are as before.
  have hfail : b.fail error prepared.length
      = { b with posts := { post with failure := some (error, prepared.length) } :: posts } := by
    unfold Blob.fail
    rw [hposts]
  have hfresh := h.fresh
  unfold FreshTargets at hfresh
  rw [hposts] at hfresh
  rw [hfail] at hmore ⊢
  refine ⟨Nat.le_of_lt hmore, fun _ => hmore, ?_, ?_, ?_, fun _ _ _ => List.cons_ne_nil _ _⟩
  · show List.IsChain _ (_ :: posts)
    exact hfresh.tail.cons (fun earlier hearlier => hfresh.rel_head? hearlier)
  · intro haimed p hp error' answered r hfailure htoken hr
    cases hp
    cases hfailure
    -- A refused token without a request for a new target cannot be renewed.
    rcases hready with rfl | rfl
    · change b.job.request = some r at hr
      rw [hexpired rfl htoken] at hr
      cases hr
    · cases haimed
  · intro p hp error' answered hfailure
    rcases List.mem_cons.mp hp with rfl | hp
    · cases hfailure
      exact Nat.le_refl _
    · exact h.past p (by rw [hposts]; exact List.mem_cons_of_mem _ hp) error' answered hfailure

/-- A new target, out of an answer that comes after all the failures. -/
theorem Attempts.renew (h : Attempts prepared b) (hstage : b.stage = .preparing) {request : ρ}
    (hrequest : b.job.request = some request) (target : BlockUploadTarget) :
    Attempts (prepared ++ [[request]])
      { b with target, issue := prepared.length, stage := .ready } := by
  have hgrown := h.grow [[request]]
  refine ⟨h.few, fun _ => h.more (.inr hstage), hgrown.fresh, ?_, hgrown.past,
    fun n late hno => by cases hno⟩
  intro _ post hpost error answered r hfailure hexpired hr
  change b.job.request = some r at hr
  rw [hrequest] at hr
  cases hr
  refine ⟨h.past post (List.mem_of_mem_head? hpost) error answered hfailure, ?_⟩
  simp

/-- It is enough to look at the one blob that a step changes. -/
theorem attempts_put {i : Nat} {b' : Blob ρ δ} (h : ∀ b ∈ s.blobs, Attempts s.prepared b)
    (hblobs : t.blobs = s.blobs) (hprepared : ∃ more, t.prepared = s.prepared ++ more)
    (hb' : Attempts t.prepared b') : ∀ b ∈ (t.put i b').blobs, Attempts (t.put i b').prepared b := by
  obtain ⟨more, hmore⟩ := hprepared
  intro c hc
  show Attempts t.prepared c
  rcases List.mem_or_eq_of_mem_set hc with hc | rfl
  · rw [hblobs] at hc
    rw [hmore]
    exact (h c hc).grow more
  · exact hb'

/-- Every step keeps the account of the attempts of each blob. -/
theorem attempts_step (h : ∀ b ∈ s.blobs, Attempts s.prepared b) (hstreamed : Streamed s)
    (hstep : Step s a t) : ∀ b ∈ t.blobs, Attempts t.prepared b := by
  have hsame : ∃ more, s.prepared = s.prepared ++ more := ⟨[], (List.append_nil _).symm⟩
  have hask : ∀ {i : Nat} {b : Blob ρ δ} (n : Nat), s.blobs[i]? = some b →
      b.stage.aimed = true → ∀ c ∈ (s.ask i b n).blobs, Attempts (s.ask i b n).prepared c := by
    intro i b n hb haimed
    refine attempts_put (t := { s with limiter := _ }) h rfl hsame ?_
    have hold := h b (List.mem_of_getElem? hb)
    -- The limiter is free and the attempt begins, or the blob waits.
    split
    · exact hold.begin haimed n s.downshifted
    · exact hold.move haimed rfl
  cases hstep with
  | abort =>
      intro b hb
      obtain ⟨c, hc, rfl⟩ := List.mem_map.mp hb
      exact (h c hc).settle (.inr rfl)
  | batch hstream hinFlight hjobs =>
      intro b hb
      rcases List.mem_append.mp hb with hb | hb
      · exact (h b hb).grow _
      · obtain ⟨job, -, rfl⟩ := List.mem_map.mp hb
        -- A new blob has made no attempt.
        have hmore : 0 < maxBlockUploadAttempts := by decide
        exact ⟨Nat.zero_le _, (fun _ => hmore), .nil, (fun _ _ h => by cases h),
          (fun _ h => by cases h), (fun _ _ h => by cases h)⟩
  | takeIn hstream hb hroom =>
      have hqueued := hstreamed.queued _ (by rw [hstream]; exact List.mem_cons_self) _ hb
      exact attempts_put (t := { s with stream := _, inFlight := _ }) h rfl hsame
        ((h _ (List.mem_of_getElem? hb)).move (by rw [hqueued]; rfl) rfl)
  | defer hb hstage =>
      exact attempts_put h rfl hsame
        ((h _ (List.mem_of_getElem? hb)).move (by rw [hstage]; rfl) rfl)
  | deferAgain hb hstage => exact h
  | ask hb hstage => exact hask _ hb (by rw [hstage]; rfl)
  | askDeferred hb hstage => exact hask _ hb (by rw [hstage]; rfl)
  | start hb hstage hheld =>
      exact attempts_put h rfl hsame
        ((h _ (List.mem_of_getElem? hb)).begin (by rw [hstage]; rfl) _ _)
  | stored hb hstage =>
      exact attempts_put (t := { s with limiter := _, inFlight := _ }) h rfl hsame
        ((h _ (List.mem_of_getElem? hb)).settle (.inl rfl))
  | retry hb hstage hmore hready hexpired hflag =>
      have hold := h _ (List.mem_of_getElem? hb)
      exact attempts_put (t := { s with limiter := _, downshifted := _ }) h rfl hsame
        (hold.retry hmore hready hexpired (hold.begun _ _ hstage))
  | renewed hb hstage hrequest =>
      exact attempts_put (t := { s with prepared := _ }) h rfl ⟨_, rfl⟩
        ((h _ (List.mem_of_getElem? hb)).renew hstage hrequest _)

/-- Three attempts at most, each with a target that was renewed if it had to be. -/
theorem attempts_of_run {actions : List (Action ρ δ)}
    (h : (machine ρ δ).exec .initial actions = some s) :
    ∀ b ∈ s.blobs, Attempts s.prepared b := by
  have hboth := (machine ρ δ).exec_invariant
    (fun s => Streamed s ∧ ∀ b ∈ s.blobs, Attempts s.prepared b) ?_
    ⟨⟨(fun i hi => by cases hi), List.nodup_nil⟩, (fun b hb => by cases hb)⟩ h
  · exact hboth.2
  · intro s a t hs hstep
    have hstep := step_eq_some hstep
    exact ⟨streamed_step hs.1 hstep, attempts_step hs.2 hs.1 hstep⟩

end

/-! ## Each blob for itself

What the limiter and the flag delay is the loop of `uploadOneBlock`, with its failures so far. -/

/-- The failures so far, the last one first. -/
def Blob.failures (b : Blob ρ δ) : List (BlockUploadTarget × ProtonError) :=
  b.posts.filterMap (fun post => post.failure.map (fun f => (post.target, f.1)))

/-- The blob is where `uploadOneBlock` is after these failures, if `prepare` is what it was answered. -/
structure Follows (prepare : Nat → ρ → Except ProtonError (List BlockUploadTarget)) (b : Blob ρ δ) :
    Prop where
  retried : b.stage ≠ .preparing → b.stage ≠ .dropped →
    Retried prepare b.job (b.failures.length + 1) b.target b.failures
  posting : ∀ n late, b.stage = .posting n late →
    ∃ issue posts, b.posts = ⟨b.target, issue, none⟩ :: posts
  preparing : b.stage = .preparing → ∃ error rest, b.failures = (b.target, error) :: rest ∧
    Retried prepare b.job (rest.length + 1) b.target rest ∧
    rest.length + 1 < maxBlockUploadAttempts ∧ error.isRetriable = true ∧
    isUploadTimeout error = false ∧ isExpiredUploadToken error = true

section

variable {s t : FileUpload ρ δ} {b : Blob ρ δ} {a : Action ρ δ}
  {prepare : Nat → ρ → Except ProtonError (List BlockUploadTarget)}

/-- A change of the stage that neither posts nor prepares follows the same loop. -/
theorem Follows.move (h : Follows prepare b) (hstage : b.stage ≠ .preparing ∧ b.stage ≠ .dropped)
    {stage : Stage} (hstage' : stage ≠ .preparing) (hposting : ∀ n late, stage ≠ .posting n late) :
    Follows prepare { b with stage } :=
  ⟨fun _ _ => h.retried hstage.1 hstage.2, fun n late hno => absurd hno (hposting n late),
    fun hno => absurd hno hstage'⟩

/-- The next attempt of the blob is the next turn of its loop. -/
theorem Follows.begin (h : Follows prepare b) (hstage : b.stage ≠ .preparing ∧ b.stage ≠ .dropped)
    (n : Nat) (late : Bool) : Follows prepare (b.begin n late) :=
  ⟨fun _ _ => h.retried hstage.1 hstage.2, fun _ _ _ => ⟨b.issue, b.posts, rfl⟩,
    (fun hno => by cases hno)⟩

/-- A dropped blob follows nothing any more. -/
theorem Follows.drop (b : Blob ρ δ) : Follows prepare { b with stage := .dropped } :=
  ⟨fun _ hno => absurd rfl hno, (fun _ _ hno => by cases hno), (fun hno => by cases hno)⟩

/-- The last post fails with the error that came back. -/
theorem failures_fail {issue : Nat} {posts : List Post} {target : BlockUploadTarget}
    (hposts : b.posts = ⟨target, issue, none⟩ :: posts) (error : ProtonError) (answered : Nat) :
    (b.fail error answered).failures = (target, error) :: b.failures := by
  unfold Blob.failures Blob.fail
  rw [hposts]
  rfl

/-- A failed attempt leaves the target in place. -/
theorem fail_target (b : Blob ρ δ) (error : ProtonError) (answered : Nat) :
    (b.fail error answered).target = b.target := by
  unfold Blob.fail
  split <;> rfl

/-- A blob has no more failures than posts. -/
theorem failures_length_le (b : Blob ρ δ) : b.failures.length ≤ b.posts.length :=
  List.length_filterMap_le _ _

/-- The decision after a failure is the loop's. -/
theorem Follows.retry (h : Follows prepare b) {n : Nat} {late : Bool} {error : ProtonError}
    {answered : Nat} (hstage : b.stage = .posting n late)
    (hmore : (b.fail error answered).posts.length < maxBlockUploadAttempts) {stage : Stage}
    (hready : stage = .ready ∨ stage = .preparing)
    (hexpired : stage = .ready → isExpiredUploadToken error = true → b.job.request = none)
    (hretriable : error.isRetriable = true)
    (hpreparing : stage = .preparing →
      isUploadTimeout error = false ∧ isExpiredUploadToken error = true) :
    Follows prepare { b.fail error answered with stage } := by
  obtain ⟨issue, posts, hposts⟩ := h.posting n late hstage
  have hnot : b.stage ≠ .preparing ∧ b.stage ≠ .dropped := by
    rw [hstage]
    exact ⟨(fun hno => by cases hno), (fun hno => by cases hno)⟩
  have hbefore := h.retried hnot.1 hnot.2
  have hfailures := failures_fail hposts error answered
  have hfew : b.failures.length + 1 < maxBlockUploadAttempts := by
    have hle := failures_length_le (b.fail error answered)
    rw [hfailures, List.length_cons] at hle
    omega
  refine ⟨?_, ?_, ?_⟩
  · intro hno _
    obtain rfl := hready.resolve_right hno
    show Retried prepare (b.fail error answered).job ((b.fail error answered).failures.length + 1)
      (b.fail error answered).target (b.fail error answered).failures
    rw [hfailures, fail_job, fail_target, List.length_cons]
    refine .again hbefore hfew hretriable ?_
    -- Without an expired token, or without a request, the target stays.
    unfold retarget
    split
    · rfl
    · split
      · next htoken => rw [hexpired rfl htoken]
      · rfl
  · intro n' late' hno
    rcases hready with rfl | rfl <;> cases hno
  · intro hno
    obtain rfl : stage = .preparing := hno
    refine ⟨error, b.failures, ?_, ?_, hfew, hretriable, hpreparing rfl⟩
    · show (b.fail error answered).failures = ((b.fail error answered).target, error) :: _
      rw [hfailures, fail_target]
    · show Retried prepare (b.fail error answered).job _ (b.fail error answered).target _
      rw [fail_job, fail_target]
      exact hbefore

/-- A renewed target is the one that the loop goes on with, if it is given this answer. -/
theorem Follows.renew (h : Follows prepare b) (hstage : b.stage = .preparing) {request : ρ}
    (hrequest : b.job.request = some request) (target : BlockUploadTarget)
    (issue : Nat) : ∃ prepare', Follows prepare' { b with target, issue, stage := .ready } := by
  obtain ⟨error, rest, hfailures, hbefore, hfew, hretriable, htimeout, htoken⟩ :=
    h.preparing hstage
  let prepare' := Function.update prepare (rest.length + 1) (fun _ => .ok [target])
  have hsame : ∀ k < rest.length + 1, prepare' k = prepare k :=
    fun k hk => Function.update_of_ne (Nat.ne_of_lt hk) _ _
  refine ⟨prepare', ?_, (fun _ _ hno => by cases hno), (fun hno => by cases hno)⟩
  intro _ _
  show Retried prepare' b.job (b.failures.length + 1) target b.failures
  rw [hfailures, List.length_cons]
  refine .again (hbefore.congr hsame) hfew hretriable ?_
  have hanswer : prepare' (rest.length + 1) request = .ok [target] := by
    simp only [prepare', Function.update_self]
  simp only [retarget, htimeout, htoken, hrequest, hanswer, Bool.false_eq_true, if_false, if_true]

/-- It is enough to look at the one blob that a step changes. -/
theorem follows_put {i : Nat} {b' : Blob ρ δ} (h : ∀ b ∈ s.blobs, ∃ prepare, Follows prepare b)
    (hblobs : t.blobs = s.blobs) (hb' : ∃ prepare, Follows prepare b') :
    ∀ b ∈ (t.put i b').blobs, ∃ prepare, Follows prepare b := by
  intro c hc
  rcases List.mem_or_eq_of_mem_set hc with hc | rfl
  · rw [hblobs] at hc
    exact h c hc
  · exact hb'

/-- Every step keeps each blob on its own `uploadOneBlock`. -/
theorem follows_step (h : ∀ b ∈ s.blobs, ∃ prepare, Follows prepare b) (hstreamed : Streamed s)
    (hstep : Step s a t) : ∀ b ∈ t.blobs, ∃ prepare, Follows prepare b := by
  have hask : ∀ {i : Nat} {b : Blob ρ δ} (n : Nat), s.blobs[i]? = some b →
      b.stage ≠ .preparing ∧ b.stage ≠ .dropped →
      ∀ c ∈ (s.ask i b n).blobs, ∃ prepare, Follows prepare c := by
    intro i b n hb hstage
    refine follows_put (t := { s with limiter := _ }) h rfl ?_
    obtain ⟨prepare, hold⟩ := h b (List.mem_of_getElem? hb)
    -- The limiter is free and the attempt begins, or the blob waits.
    split
    · exact ⟨prepare, hold.begin hstage n s.downshifted⟩
    · exact ⟨prepare, hold.move hstage (fun hno => by cases hno) (fun _ _ hno => by cases hno)⟩
  have hnot : ∀ {b : Blob ρ δ} {stage : Stage}, b.stage = stage → stage ≠ .preparing →
      stage ≠ .dropped → b.stage ≠ .preparing ∧ b.stage ≠ .dropped := by
    rintro b stage rfl h1 h2
    exact ⟨h1, h2⟩
  cases hstep with
  | abort =>
      intro b hb
      obtain ⟨c, hc, rfl⟩ := List.mem_map.mp hb
      exact ⟨fun _ _ => .error noTargetReturned, .drop c⟩
  | batch hstream hinFlight hjobs =>
      intro b hb
      rcases List.mem_append.mp hb with hb | hb
      · exact h b hb
      · obtain ⟨job, -, rfl⟩ := List.mem_map.mp hb
        -- The loop of a new blob is at its start, whatever the server will answer.
        exact ⟨fun _ _ => .error noTargetReturned, fun _ _ => .start, (fun _ _ hno => by cases hno),
          (fun hno => by cases hno)⟩
  | takeIn hstream hb hroom =>
      have hqueued := hstreamed.queued _ (by rw [hstream]; exact List.mem_cons_self) _ hb
      obtain ⟨prepare, hold⟩ := h _ (List.mem_of_getElem? hb)
      exact follows_put (t := { s with stream := _, inFlight := _ }) h rfl
        ⟨prepare, hold.move (hnot hqueued (by simp) (by simp)) (by simp) (by simp)⟩
  | defer hb hstage =>
      obtain ⟨prepare, hold⟩ := h _ (List.mem_of_getElem? hb)
      exact follows_put h rfl
        ⟨prepare, hold.move (hnot hstage (by simp) (by simp)) (by simp) (by simp)⟩
  | deferAgain hb hstage => exact h
  | ask hb hstage => exact hask _ hb (hnot hstage (by simp) (by simp))
  | askDeferred hb hstage => exact hask _ hb (hnot hstage (by simp) (by simp))
  | start hb hstage hheld =>
      obtain ⟨prepare, hold⟩ := h _ (List.mem_of_getElem? hb)
      exact follows_put h rfl ⟨prepare, hold.begin (hnot hstage (by simp) (by simp)) _ _⟩
  | stored hb hstage =>
      obtain ⟨prepare, hold⟩ := h _ (List.mem_of_getElem? hb)
      exact follows_put (t := { s with limiter := _, inFlight := _ }) h rfl
        ⟨prepare, hold.move (hnot hstage (by simp) (by simp)) (by simp) (by simp)⟩
  | retry hb hstage hmore hready hexpired hflag hretriable hpreparing =>
      obtain ⟨prepare, hold⟩ := h _ (List.mem_of_getElem? hb)
      exact follows_put (t := { s with limiter := _, downshifted := _ }) h rfl
        ⟨prepare, hold.retry hstage hmore hready hexpired hretriable hpreparing⟩
  | renewed hb hstage hrequest =>
      obtain ⟨prepare, hold⟩ := h _ (List.mem_of_getElem? hb)
      exact follows_put (t := { s with prepared := _ }) h rfl (hold.renew hstage hrequest _ _)

/-- In every run each blob goes the way of its own `uploadOneBlock`. -/
theorem follows_of_run {actions : List (Action ρ δ)}
    (h : (machine ρ δ).exec .initial actions = some s) :
    ∀ b ∈ s.blobs, ∃ prepare, Follows prepare b := by
  have hboth := (machine ρ δ).exec_invariant
    (fun s => Streamed s ∧ ∀ b ∈ s.blobs, ∃ prepare, Follows prepare b) ?_
    ⟨⟨(fun i hi => by cases hi), List.nodup_nil⟩, (fun b hb => by cases hb)⟩ h
  · exact hboth.2
  · intro s a t hs hstep
    have hstep := step_eq_some hstep
    exact ⟨streamed_step hs.1 hstep, follows_step hs.2 hs.1 hstep⟩

/-- A stored blob is what `uploadOneBlock` returns with the same failures and the same success. -/
theorem uploadOneBlock_of_stored {T : Type} {actions : List (Action ρ δ)}
    (h : (machine ρ δ).exec .initial actions = some s) (hb : b ∈ s.blobs)
    (hstored : b.stage = .stored) :
    ∃ prepare, ∀ (policy : RetryPolicy) (network : Nat → StoragePost → Nat → Attempt T),
      (∀ k t e, b.failures.reverse[k]? = some (t, e) → postStorageBlob policy
        (network (k + 1) ⟨t.bareUrl, t.token, b.job.ciphertext⟩) = .error e) →
      postStorageBlob policy (network (b.failures.length + 1)
        ⟨b.target.bareUrl, b.target.token, b.job.ciphertext⟩) = .ok () →
      (uploadOneBlock policy network prepare b.job).result =
        .ok (b.job.index.map (fun index => (index, b.job.digest))) := by
  obtain ⟨prepare, hfollows⟩ := follows_of_run h b hb
  refine ⟨prepare, ?_⟩
  intro policy network hfailed haccepted
  have hretried := hfollows.retried (by rw [hstored]; simp) (by rw [hstored]; simp)
  rw [uploadOneBlock_of_retried hretried hfailed, uploadAttempts_of_accepted haccepted]

end

/-! ## Alone -/

/-- An attempt that was put off does not ask the limiter with a reading from before the timeout. -/
def Timely (s : FileUpload ρ δ) (a : Action ρ δ) : Prop :=
  ∀ (i n : Nat) (b : Blob ρ δ), a = .poll i false → s.blobs[i]? = some b →
    b.stage = .deferred n → s.downshifted = true → n = maxConcurrentBlockUploads

/-- Before the timeout every attempt wants one permit and gets it at once; after it, whoever waits
wants them all. -/
structure Serial (s : FileUpload ρ δ) : Prop where
  early : s.downshifted = false → ∀ (i : Nat) (b : Blob ρ δ) (n : Nat), s.blobs[i]? = some b →
    b.stage.wanted = some n → n = 1
  asked : ∀ (i : Nat) (b : Blob ρ δ) (n : Nat), s.blobs[i]? = some b → b.stage = .asked n →
    s.downshifted = true ∧ n = maxConcurrentBlockUploads
  late : ∀ (i : Nat) (b : Blob ρ δ) (n : Nat), s.blobs[i]? = some b →
    b.stage = .posting n true → n = maxConcurrentBlockUploads

section

variable {s t : FileUpload ρ δ} {i : Nat} {b b' : Blob ρ δ} {a : Action ρ δ}

/-- Before the timeout there is a permit for everyone in the window. -/
theorem free_of_early (h : Serial s) (hlimited : Limited s) (hearly : s.downshifted = false)
    (hb : s.blobs[i]? = some b) (hclaim : b.stage.claim = none) (hin : b.stage.inWindow = true) :
    s.limiter.Free 1 := by
  -- Before the downshift nobody waits, and everybody holds one permit.
  have hqueue : s.limiter.queue = [] := by
    rw [List.eq_nil_iff_forall_not_mem]
    rintro ⟨j, n⟩ hj
    obtain ⟨c, hc, -⟩ := (hlimited.claims_iff j n).mp (List.mem_append_right _ hj)
    have hasked := h.asked j c n hc (hlimited.waiting j n hj c hc)
    rw [hearly] at hasked
    cases hasked.1
  have hone : ∀ w ∈ s.limiter.held.map Prod.snd, w = 1 := by
    intro w hw
    obtain ⟨⟨j, n⟩, hj, rfl⟩ := List.mem_map.mp hw
    obtain ⟨c, hc, hn⟩ := (hlimited.claims_iff j n).mp (List.mem_append_left _ hj)
    exact h.early hearly j c n hc (Stage.wanted_of_claim hn)
  have hused : s.limiter.used = s.limiter.held.length := by
    unfold WeightedSemaphore.used
    rw [List.eq_replicate_of_mem hone, List.sum_replicate, List.length_map]
    simp
  -- Those who hold one, and this blob, are different blobs of the window, which has at most as many
  -- as there are permits.
  have howners : (i :: s.limiter.held.map Prod.fst).Nodup := by
    have hnodup := hlimited.owners
    unfold claims at hnodup
    rw [hqueue, List.append_nil] at hnodup
    rw [List.nodup_cons]
    refine ⟨?_, hnodup⟩
    intro hmem
    obtain ⟨⟨j, n⟩, hj, rfl⟩ := List.mem_map.mp hmem
    exact hlimited.not_claimed hb hclaim n (List.mem_append_left _ hj)
  have hsubset : i :: s.limiter.held.map Prod.fst ⊆ s.inFlight := by
    intro j hj
    rcases List.mem_cons.mp hj with rfl | hj
    · exact hlimited.window j b hb hin
    · obtain ⟨⟨j, n⟩, hjn, rfl⟩ := List.mem_map.mp hj
      obtain ⟨c, hc, hn⟩ := (hlimited.claims_iff j n).mp (List.mem_append_left _ hjn)
      exact hlimited.window j c hc (Stage.inWindow_of_claim hn)
  have hlength := (List.subperm_of_subset howners hsubset).length_le
  rw [List.length_cons, List.length_map] at hlength
  have hsmall := hlimited.small
  refine ⟨hqueue, ?_⟩
  rw [hused]
  omega

/-- A blob may change as long as it asks for one permit before the downshift and for all of them
after it. -/
theorem Serial.put (h : Serial s) (hblobs : t.blobs = s.blobs)
    (hflag : s.downshifted = true → t.downshifted = true)
    (hearly : t.downshifted = false → ∀ n, b'.stage.wanted = some n → n = 1)
    (hasked : ∀ n, b'.stage = .asked n → t.downshifted = true ∧ n = maxConcurrentBlockUploads)
    (hlate : ∀ n, b'.stage = .posting n true → n = maxConcurrentBlockUploads) :
    Serial (t.put i b') := by
  refine ⟨?_, ?_, ?_⟩
  · intro hfalse j c n hc hn
    change t.downshifted = false at hfalse
    rcases getElem?_put hc with ⟨rfl, rfl⟩ | ⟨-, hc⟩
    · exact hearly hfalse n hn
    · rw [hblobs] at hc
      refine h.early ?_ j c n hc hn
      -- Without the flag afterwards there was none before.
      by_contra htrue
      rw [Bool.not_eq_false] at htrue
      rw [hflag htrue] at hfalse
      cases hfalse
  · intro j c n hc hn
    rcases getElem?_put hc with ⟨rfl, rfl⟩ | ⟨-, hc⟩
    · exact hasked n hn
    · rw [hblobs] at hc
      have hold := h.asked j c n hc hn
      exact ⟨hflag hold.1, hold.2⟩
  · intro j c n hc hn
    rcases getElem?_put hc with ⟨rfl, rfl⟩ | ⟨-, hc⟩
    · exact hlate n hn
    · rw [hblobs] at hc
      exact h.late j c n hc hn

/-- An attempt that asks for what the flag says now. -/
theorem Serial.ask (h : Serial s) (hlimited : Limited s) (hb : s.blobs[i]? = some b)
    (hclaim : b.stage.claim = none) (hin : b.stage.inWindow = true) {n : Nat}
    (hn : n = s.wanted) : Serial (s.ask i b n) := by
  unfold FileUpload.wanted at hn
  unfold FileUpload.ask
  by_cases hflag : s.downshifted = true
  · -- After the downshift all permits are asked for.
    rw [if_pos hflag] at hn
    refine h.put (t := { s with limiter := _ }) rfl (fun hs => hs) ?_ ?_ ?_
    · intro hfalse
      change s.downshifted = false at hfalse
      rw [hflag] at hfalse
      cases hfalse
    · intro m hm
      refine ⟨hflag, ?_⟩
      split at hm
      · cases hm
      · cases hm
        exact hn
    · intro m hm
      split at hm
      · change Stage.posting n s.downshifted = _ at hm
        rw [← (Stage.posting.inj hm).1]
        exact hn
      · cases hm
  · -- Before it one permit is asked for, and there is one.
    rw [if_neg hflag] at hn
    rw [Bool.not_eq_true] at hflag
    rw [hn, WeightedSemaphore.acquire_of_free (free_of_early h hlimited hflag hb hclaim hin)]
    refine h.put (t := { s with limiter := _ }) rfl (fun hs => hs) ?_ ?_ ?_
    · intro _ m hm
      cases hm
      rfl
    · intro m hm
      cases hm
    · intro m hm
      change Stage.posting 1 s.downshifted = .posting m true at hm
      rw [hflag] at hm
      cases hm

/-- An attempt that needs nothing of the limiter. -/
theorem Serial.put_quiet (h : Serial s) (hblobs : t.blobs = s.blobs)
    (hflag : s.downshifted = true → t.downshifted = true) (hwanted : b'.stage.wanted = none) :
    Serial (t.put i b') := by
  refine h.put hblobs hflag ?_ ?_ ?_
  · intro _ n hn
    rw [hwanted] at hn
    cases hn
  · intro n hn
    rw [hn] at hwanted
    cases hwanted
  · intro n hn
    rw [hn] at hwanted
    cases hwanted

/-- Every step whose late posts find nobody beside them keeps the posts serial. -/
theorem serial_step (h : Serial s) (hlimited : Limited s) (htimely : Timely s a)
    (hstep : Step s a t) : Serial t := by
  cases hstep with
  | abort =>
      refine ⟨?_, ?_, ?_⟩
      · intro _ i b n hb hn
        rw [stage_of_abort hb] at hn
        cases hn
      · intro i b n hb hn
        rw [stage_of_abort hb] at hn
        cases hn
      · intro i b n hb hn
        rw [stage_of_abort hb] at hn
        cases hn
  | batch hstream hinFlight hjobs =>
      refine ⟨?_, ?_, ?_⟩
      · -- The new blobs are queued, and post nothing.
        intro hearly i b n hb hn
        rcases of_addBatch hb with hb | hqueued
        · exact h.early hearly i b n hb hn
        · rw [hqueued] at hn
          cases hn
      · intro i b n hb hn
        rcases of_addBatch hb with hb | hqueued
        · exact h.asked i b n hb hn
        · rw [hqueued] at hn
          cases hn
      · intro i b n hb hn
        rcases of_addBatch hb with hb | hqueued
        · exact h.late i b n hb hn
        · rw [hqueued] at hn
          cases hn
  | takeIn hstream hb hroom =>
      exact h.put_quiet (t := { s with stream := _, inFlight := _ }) rfl (fun hs => hs) rfl
  | defer hb hstage =>
      refine h.put rfl (fun hs => hs) ?_ (fun n hn => by cases hn) (fun n hn => by cases hn)
      -- Before the downshift one permit is wanted.
      intro hearly n hn
      cases hn
      unfold FileUpload.wanted
      rw [hearly]
      rfl
  | deferAgain hb hstage => exact h
  | ask hb hstage => exact h.ask hlimited hb (by rw [hstage]; rfl) (by rw [hstage]; rfl) rfl
  | @askDeferred i b n hb hstage =>
      refine h.ask hlimited hb (by rw [hstage]; rfl) (by rw [hstage]; rfl) ?_
      unfold FileUpload.wanted
      -- What was wanted when the poll was put off must still be what is wanted now.
      by_cases hflag : s.downshifted = true
      · rw [if_pos hflag]
        exact htimely i n b rfl hb hstage hflag
      · rw [if_neg hflag]
        rw [Bool.not_eq_true] at hflag
        exact h.early hflag i b n hb (by rw [hstage]; rfl)
  | @start i b n hb hstage hheld =>
      have hasked := h.asked i b n hb hstage
      refine h.put rfl (fun hs => hs) ?_ (fun m hm => by cases hm) ?_
      · -- Whoever was served from the queue had asked after the downshift.
        intro hfalse
        rw [hasked.1] at hfalse
        cases hfalse
      · intro m hm
        change Stage.posting n s.downshifted = _ at hm
        rw [← (Stage.posting.inj hm).1]
        exact hasked.2
  | stored hb hstage =>
      exact h.put_quiet (t := { s with limiter := _, inFlight := _ }) rfl (fun hs => hs) rfl
  | retry hb hstage hmore hready hexpired hflag =>
      refine h.put_quiet (t := { s with limiter := _, downshifted := _ }) rfl ?_ ?_
      · intro hs
        show _ = true
        rw [hflag, hs, Bool.true_or]
      · rcases hready with rfl | rfl <;> rfl
  | renewed hb hstage hrequest =>
      exact h.put_quiet (t := { s with prepared := _ }) rfl (fun hs => hs) rfl

/-- A post that began after the timeout is the only one in flight. -/
def Serialized (s : FileUpload ρ δ) : Prop :=
  ∀ (i j n m : Nat) (late : Bool) (b c : Blob ρ δ), s.blobs[i]? = some b → s.blobs[j]? = some c →
    b.stage = .posting n true → c.stage = .posting m late → i = j

def Unfinished (b : Blob ρ δ) : Prop := b.stage ≠ .stored ∧ b.stage ≠ .dropped

/-- Every blob that is not stored waits for the limiter. -/
def Stuck (s : FileUpload ρ δ) : Prop :=
  (∃ b ∈ s.blobs, Unfinished b) ∧
    ∀ (i : Nat) (b : Blob ρ δ), s.blobs[i]? = some b → Unfinished b →
      ∃ n, (i, n) ∈ s.limiter.queue

/-- Who posts holds its slots. -/
theorem Limited.held_of_posting (h : Limited s) {n : Nat} {late : Bool}
    (hb : s.blobs[i]? = some b) (hstage : b.stage = .posting n late) :
    (i, n) ∈ s.limiter.held := by
  have hclaim := (h.claims_iff i n).mpr ⟨b, hb, by rw [hstage]; rfl⟩
  rcases List.mem_append.mp hclaim with hheld | hqueue
  · exact hheld
  · have hasked := h.waiting i n hqueue b hb
    rw [hstage] at hasked
    cases hasked

/-- While one attempt holds all permits no other attempt can hold one. -/
theorem serialized_of_serial (h : Serial s) (hlimited : Limited s) : Serialized s := by
  intro i j n m late b c hb hc hstage hstage'
  by_contra hne
  have hall := h.late i b n hb hstage
  have htogether := WeightedSemaphore.add_le_capacity (hlimited.held_of_posting hb hstage)
    (hlimited.held_of_posting hc hstage') (fun hsame => hne (congrArg Prod.fst hsame))
  have hsome := (hlimited.sizes j c m hc (by rw [hstage']; rfl)).1
  dsimp only at htogether
  omega

/-- Where somebody waits, somebody else has been served. -/
theorem not_stuck (h : Limited s) : ¬ Stuck s := by
  rintro ⟨⟨b, hmem, hunfinished⟩, hall⟩
  obtain ⟨i, hb⟩ := List.getElem?_of_mem hmem
  obtain ⟨n, hn⟩ := hall i b hb hunfinished
  have hsmall : ∀ w ∈ s.limiter.queue, w.2 ≤ maxConcurrentBlockUploads := by
    rintro ⟨j, m⟩ hw
    obtain ⟨c, hc, hm⟩ := (h.claims_iff j m).mp (List.mem_append_right _ hw)
    exact (h.sizes j c m hc (Stage.wanted_of_claim hm)).2
  obtain ⟨⟨j, m⟩, hheld⟩ := WeightedSemaphore.exists_holder (List.ne_nil_of_mem hn) hsmall
  obtain ⟨c, hc, hm⟩ := (h.claims_iff j m).mp (List.mem_append_left _ hheld)
  have hgoes : Unfinished c := by
    constructor <;> intro hstage <;> rw [hstage] at hm <;> cases hm
  obtain ⟨m', hm'⟩ := hall j c hc hgoes
  exact h.not_queued hheld hm'

/-- Along every timely run the posts stay serial. -/
theorem serial_of_run {actions : List (Action ρ δ)}
    (hrun : (machine ρ δ).exec .initial actions = some s)
    (htimely : (machine ρ δ).Along Timely .initial actions) : Serial s := by
  have hstart : Serial (FileUpload.initial : FileUpload ρ δ) :=
    ⟨(fun _ i b n hb => by cases hb), (fun i b n hb => by cases hb), (fun i b n hb => by cases hb)⟩
  have hall := (machine ρ δ).exec_invariant_along (fun s => Serial s ∧ Limited s ∧ Streamed s) ?_
    htimely ⟨hstart, limited_initial, ⟨(fun i hi => by cases hi), List.nodup_nil⟩⟩ hrun
  · exact hall.1
  · intro s a t hok hs hstep
    have hstep := step_eq_some hstep
    exact ⟨serial_step hs.1 hs.2.1 hok hstep, limited_step hs.2.1 hs.2.2 hstep,
      streamed_step hs.2.2 hstep⟩

/-- The rest of the file is serialized, and comes to its end, with at most three attempts for each
blob and a renewed target after an expired token. -/
theorem downshift_serializes {actions : List (Action ρ δ)}
    (hrun : (machine ρ δ).exec .initial actions = some s)
    (htimely : (machine ρ δ).Along Timely .initial actions) :
    Serialized s ∧ ¬ Stuck s ∧
      ∀ b ∈ s.blobs, b.posts.length ≤ maxBlockUploadAttempts ∧ FreshTargets s.prepared b := by
  have hlimited := (limited_of_run hrun).1
  refine ⟨serialized_of_serial (serial_of_run hrun htimely) hlimited, not_stuck hlimited, ?_⟩
  intro b hb
  have hattempts := attempts_of_run hrun b hb
  exact ⟨hattempts.few, hattempts.fresh⟩

/-- Only a poll without budget puts an attempt off. -/
theorem not_deferred_step (h : ∀ b ∈ s.blobs, ∀ n, b.stage ≠ .deferred n) (hstep : Step s a t)
    (ha : ∀ i, a ≠ .poll i true) : ∀ b ∈ t.blobs, ∀ n, b.stage ≠ .deferred n := by
  have hput : ∀ {r : FileUpload ρ δ} {i : Nat} {b' : Blob ρ δ}, r.blobs = s.blobs →
      (∀ n, b'.stage ≠ .deferred n) → ∀ b ∈ (r.put i b').blobs, ∀ n, b.stage ≠ .deferred n := by
    intro r i b' hblobs hb' b hb
    rcases List.mem_or_eq_of_mem_set hb with hb | rfl
    · rw [hblobs] at hb
      exact h b hb
    · exact hb'
  -- Asking leads to a post or into the queue.
  have hask : ∀ {i : Nat} {b : Blob ρ δ} (n : Nat),
      ∀ c ∈ (s.ask i b n).blobs, ∀ m, c.stage ≠ .deferred m := by
    intro i b n
    refine hput (r := { s with limiter := _ }) rfl ?_
    intro m hm
    split at hm <;> cases hm
  cases hstep with
  | abort =>
      intro b hb n hn
      obtain ⟨c, -, rfl⟩ := List.mem_map.mp hb
      cases hn
  | batch hstream hinFlight hjobs =>
      intro b hb n hn
      rcases List.mem_append.mp hb with hb | hb
      · exact h b hb n hn
      · obtain ⟨job, -, rfl⟩ := List.mem_map.mp hb
        cases hn
  | takeIn hstream hb hroom =>
      exact hput (r := { s with stream := _, inFlight := _ }) rfl (fun n hn => by cases hn)
  | defer hb hstage => exact absurd rfl (ha _)
  | deferAgain hb hstage => exact h
  | ask hb hstage => exact hask _
  | askDeferred hb hstage => exact hask _
  | start hb hstage hheld => exact hput rfl (fun n hn => by cases hn)
  | stored hb hstage =>
      exact hput (r := { s with limiter := _, inFlight := _ }) rfl (fun n hn => by cases hn)
  | retry hb hstage hmore hready hexpired hflag =>
      refine hput (r := { s with limiter := _, downshifted := _ }) rfl ?_
      rcases hready with rfl | rfl <;> intro n hn <;> cases hn
  | renewed hb hstage hrequest =>
      exact hput (r := { s with prepared := _ }) rfl (fun n hn => by cases hn)

/-- Nobody is put off where no poll finds the budget spent. -/
theorem timely_of_unspent {actions : List (Action ρ δ)} (h : ∀ i, .poll i true ∉ actions) :
    (machine ρ δ).Along Timely .initial actions := by
  have hrun : ∀ (s : FileUpload ρ δ), (∀ b ∈ s.blobs, ∀ n, b.stage ≠ .deferred n) →
      (machine ρ δ).Along Timely s actions := by
    induction actions with
    | nil => exact fun _ _ => trivial
    | cons a actions ih =>
        intro s hs
        refine ⟨?_, ?_⟩
        · intro i n b _ hb hstage _
          exact absurd hstage (hs b (List.mem_of_getElem? hb) n)
        · intro t ht
          apply ih (fun i hi => h i (List.mem_cons_of_mem _ hi)) t
          apply not_deferred_step hs (step_eq_some ht)
          rintro i rfl
          exact h i List.mem_cons_self
  exact hrun .initial (fun b hb => by cases hb)

end

/-! ## Three blocks -/

def threeBlocks : List (PreparedBlock Nat Unit) :=
  [⟨1, 1, [10], ()⟩, ⟨2, 2, [20], ()⟩, ⟨3, 3, [30], ()⟩]

def threeTargets : BlockUploadPreparationResponse :=
  ⟨[⟨"u", "a", some 1, none⟩, ⟨"u", "b", some 2, none⟩, ⟨"u", "c", some 3, none⟩], []⟩

def timedOut : ProtonError := .transport ⟨true, false, false, "timed out"⟩

/-- All three are in flight. -/
def takenIn : List (Action Nat Unit) :=
  [.batch threeBlocks [] (.ok threeTargets), .takeIn, .takeIn, .takeIn]

/-- The first post times out, and its second attempt waits for the two others. -/
def oneTimeout : List (Action Nat Unit) :=
  takenIn ++ [.poll 0 false, .poll 1 false, .poll 2 false, .respond 0 (.error timedOut),
    .poll 0 false, .respond 1 (.ok ()), .respond 2 (.ok ()), .start 0]

/-- Three blobs, of which the first times out and is posted again by itself. -/
theorem downshift_serializes_three :
    ∃ s, (machine Nat Unit).exec .initial oneTimeout = some s ∧
      (s.blobs[0]?).map Blob.stage = some (.posting 5 true) ∧ Serialized s ∧ ¬ Stuck s ∧
      ∀ b ∈ s.blobs, b.posts.length ≤ maxBlockUploadAttempts ∧ FreshTargets s.prepared b := by
  obtain ⟨s, hs, hstage⟩ : ∃ s, (machine Nat Unit).exec .initial oneTimeout = some s ∧
      (s.blobs[0]?).map Blob.stage = some (.posting 5 true) := ⟨_, rfl, rfl⟩
  have htimely : (machine Nat Unit).Along Timely .initial oneTimeout := by
    apply timely_of_unspent
    intro i
    simp [oneTimeout, takenIn]
  exact ⟨s, hs, hstage, downshift_serializes hs htimely⟩

/-- Two attempts are put off, and ask for one permit each after the timeout. -/
def putOff : List (Action Nat Unit) :=
  takenIn ++ [.poll 0 false, .poll 1 true, .poll 2 true, .respond 0 (.error timedOut),
    .poll 0 false, .poll 1 false, .poll 2 false, .respond 0 (.ok ()), .start 1, .start 2]

/-- A block that was put off before the timeout is posted beside the one that timed out. -/
theorem put_off_together :
    ∃ s, (machine Nat Unit).exec .initial putOff = some s ∧ ¬ Serialized s := by
  obtain ⟨s, hs, hone, htwo⟩ : ∃ s, (machine Nat Unit).exec .initial putOff = some s ∧
      (s.blobs[1]?).map Blob.stage = some (.posting 1 true) ∧
      (s.blobs[2]?).map Blob.stage = some (.posting 1 true) := ⟨_, rfl, rfl, rfl⟩
  refine ⟨s, hs, ?_⟩
  intro hserial
  obtain ⟨b, hb, hstage⟩ := Option.map_eq_some_iff.mp hone
  obtain ⟨c, hc, hstage'⟩ := Option.map_eq_some_iff.mp htwo
  exact absurd (hserial 1 2 1 1 true b c hb hc hstage hstage') (by decide)

end ProtonDrive.Downshift
