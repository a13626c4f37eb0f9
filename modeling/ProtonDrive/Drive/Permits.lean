import Mathlib
import ProtonDrive.Lib.Machine
import ProtonDrive.Lib.Semaphore
import ProtonDrive.Drive.Download
import ProtonDrive.Drive.Upload

/-!
# In-flight block permits — many transfers, one pool

Every block a client has in memory holds a permit of `block_slots`. A download (and a `read_at`)
asks for a permit in each of its block futures and keeps it until the block is consumed, which
happens in index order. An upload asks in its encryptor, and the permit travels with the block
through the encrypt window, the channel and the batch uploader until the block is stored.

A transfer is modelled by what it does to the pool. `Transfer.act` computes one move of one transfer
and returns a `Demand`: the transfer afterwards, for either answer of the pool. `step` puts the
demand to the pool. So an invariant of the whole state is one lemma for each demand and one lemma
for each transfer.

* `Transfer.Ok waits permits` — what a transfer waits for and holds, read off the transfer itself.
* `Transfer.Ok.act_or_starved` — no hold and wait: a transfer that cannot move holds no permit.
* `not_deadlock` — so the transfer that holds a permit moves, in every run in which the block
  futures of one download reach the pool in index order.

That order is not `write_content_blocks`' own doing. A block future asks when it is first polled,
`buffered` polls new futures in the order in which it took them in, and a poll that finds the task's
cooperative budget spent returns before it asks and sends the future behind the others.
-/

namespace ProtonDrive.Permits

open Content (maxConcurrentBlockDownloads maxConcurrentBlockEncrypts maxBufferedUploadBlocks
  maxConcurrentBlockUploads)

/-! ### Downloads -/

/-- A download or a `read_at` of `count` blocks. `pushed` futures have been taken in by `buffered`,
of which `written` are consumed; the others are in one of the three lists or wait for their
permit. -/
structure Download where
  count : Nat
  pushed : Nat
  written : Nat
  /-- Have not asked yet, in the order in which they will be polled. -/
  fresh : List Nat
  /-- Hold a permit, being fetched and decrypted. -/
  fetching : List Nat
  /-- Hold a permit, decrypted. -/
  ready : List Nat
deriving DecidableEq

def Download.start (count : Nat) : Download :=
  { count, pushed := 0, written := 0, fresh := [], fetching := [], ready := [] }

/-- The pool gives the permit that `block` waits for. -/
def Download.grant (d : Download) (block : Nat) : Download :=
  { d with fetching := block :: d.fetching }

/-! ### Uploads -/

/-- Where the loop of `encrypt_content_blocks` stands. -/
inductive Encryptor where
  /-- At the head of the inner `while`. -/
  | filling
  /-- In `acquire_owned().await`. -/
  | acquiring
  /-- Has a permit for the next block. -/
  | reading
  /-- In `encrypting.next().await`. -/
  | draining
  /-- In `tx.send(prepared).await`. -/
  | sending
  | finished
deriving DecidableEq

/-- Where one `upload_one_block` stands. -/
inductive JobStage where
  /-- Not yet taken in by `buffer_unordered`. -/
  | queued
  /-- At the head of the loop. -/
  | asking
  /-- In `limiter.acquire_many(wanted).await`. -/
  | waiting (wanted : Nat)
  /-- In `post_storage_blob`, with so many of the limiter's slots. -/
  | posting (slots : Nat)
  /-- Asks for a new target. -/
  | preparing
deriving DecidableEq

/-- An `UploadJob`; `block` says whether it has a permit (a thumbnail has none). -/
structure Job where
  block : Bool
  stage : JobStage
deriving DecidableEq

/-- Where the loop of `upload_prepared_blocks` stands. -/
inductive Uploader where
  | receiving
  /-- `upload_batch` asks for the targets of so many blocks and thumbnails. -/
  | requesting (blocks thumbnails : Nat)
  /-- `upload_batch` stores its jobs; those that wait for the limiter are in the order in which they
  asked it. -/
  | storing (jobs : List Job)
  | finished
deriving DecidableEq

/-- An upload with `left` blocks still to read. An entry of `encrypting` says whether the block is
encrypted. -/
structure Upload where
  left : Nat
  thumbnails : Nat
  drained : Bool
  encrypting : List Bool
  encryptor : Encryptor
  channel : Nat
  uploader : Uploader
  downshifted : Bool
deriving DecidableEq

def Upload.start (blocks thumbnails : Nat) : Upload :=
  { left := blocks, thumbnails, drained := false, encrypting := [], encryptor := .filling,
    channel := 0, uploader := .receiving, downshifted := false }

/-- The pool gives the permit the encryptor waits for. -/
def Upload.grant (u : Upload) : Upload :=
  { u with encryptor := .reading }

/-- Why a retriable `post_storage_blob` failed. -/
inductive Failure where
  | timeout
  | expiredToken
  | other
deriving DecidableEq

/-! ### One move of one transfer -/

inductive Transfer where
  | idle
  | download (d : Download)
  | upload (u : Upload)
  /-- Failed or dropped. -/
  | ended
deriving DecidableEq

def Transfer.grant (block : Nat) : Transfer → Transfer
  | .download d => .download (d.grant block)
  | .upload u => .upload u.grant
  | t => t

/-- What a move asks of the pool, with the transfer as it is after either answer. -/
inductive Demand where
  | keep (t : Transfer)
  /-- A permit is dropped. -/
  | release (t : Transfer)
  /-- `acquire_owned` under the key `block`. -/
  | acquire (block : Nat) (granted waiting : Transfer)
  /-- `try_acquire_owned`. -/
  | tryAcquire (granted refused : Transfer)

/-- The moves of a transfer, each one poll of one of its futures or the arrival of a result. -/
inductive Move where
  /-- `buffered` takes in the next block future. -/
  | push
  /-- The next new block future is polled for the first time, or again after a poll that found the
  task's budget `spent`. -/
  | poll (spent : Bool)
  | fetched (block : Nat)
  /-- The next block in order is consumed. -/
  | write
  | fill
  | read
  | encrypted (position : Nat)
  | next
  | send
  | recv
  | targets
  | ask (position : Nat)
  | slot
  | stored (position : Nat)
  | retry (position : Nat) (failure : Failure)
  | prepared (position : Nat)
deriving DecidableEq

def Download.act (d : Download) : Move → Option Demand
  | .push =>
      if d.pushed < d.count ∧ d.pushed - d.written < maxConcurrentBlockDownloads then
        some (.keep (.download { d with pushed := d.pushed + 1, fresh := d.fresh ++ [d.pushed] }))
      else none
  | .poll spent =>
      match d.fresh with
      | [] => none
      | block :: fresh =>
          -- Without budget `acquire_owned` wakes its future and returns: the future is polled again
          -- after all the others, and has not joined the pool's queue.
          if spent then some (.keep (.download { d with fresh := fresh ++ [block] }))
          else
            let d := { d with fresh }
            some (.acquire block (.download (d.grant block)) (.download d))
  | .fetched block =>
      if block ∈ d.fetching then
        some (.keep (.download
          { d with fetching := d.fetching.erase block, ready := block :: d.ready }))
      else none
  | .write =>
      if d.written ∈ d.ready then
        some (.release (.download
          { d with ready := d.ready.erase d.written, written := d.written + 1 }))
      else none
  | _ => none

/-- The slots of the limiter that `job` has. -/
def Job.slots (job : Job) : Nat :=
  match job.stage with
  | .posting slots => slots
  | _ => 0

/-- The limiter's slots that are out. -/
def slotsUsed (jobs : List Job) : Nat :=
  (jobs.map Job.slots).sum

/-- How many jobs `buffer_unordered` has taken in. -/
def inFlight (jobs : List Job) : Nat :=
  jobs.countP (fun job => job.stage ≠ .queued)

def Job.isWaiting (job : Job) : Bool :=
  match job.stage with
  | .waiting _ => true
  | _ => false

/-- The jobs of a batch, thumbnails first. -/
def batchJobs (blocks thumbnails : Nat) : List Job :=
  List.replicate thumbnails { block := false, stage := .queued } ++
    List.replicate blocks { block := true, stage := .queued }

/-- Nothing of `batch` is left: back to `recv_many`. -/
def Uploader.ofJobs : List Job → Uploader
  | [] => .receiving
  | jobs => .storing jobs

/-- A move of one of the jobs of a batch. -/
def Upload.actJob (u : Upload) (jobs : List Job) : Move → Option Demand
  | .ask position => do
      let job ← jobs[position]?
      let wanted := if u.downshifted then maxConcurrentBlockUploads else 1
      -- The job goes to the end of the list, where it is last among those that wait.
      let asked := jobs.eraseIdx position ++ [{ job with stage := .waiting wanted }]
      if job.stage = .asking ∨
          (job.stage = .queued ∧ inFlight jobs < maxConcurrentBlockUploads) then
        some (.keep (.upload { u with uploader := .storing asked }))
      else none
  | .slot => do
      let position ← jobs.findIdx? Job.isWaiting
      let job ← jobs[position]?
      match job.stage with
      | .waiting wanted =>
          if wanted ≤ maxConcurrentBlockUploads - slotsUsed jobs then
            some (.keep (.upload { u with
              uploader := .storing (jobs.set position { job with stage := .posting wanted }) }))
          else none
      | _ => none
  | .stored position => do
      let job ← jobs[position]?
      match job.stage with
      | .posting _ =>
          let t := .upload { u with uploader := .ofJobs (jobs.eraseIdx position) }
          some (if job.block then .release t else .keep t)
      | _ => none
  | .retry position failure => do
      let job ← jobs[position]?
      match job.stage with
      | .posting _ =>
          -- A thumbnail has no request to prepare again.
          let stage := if failure = .expiredToken ∧ job.block then .preparing else .asking
          some (.keep (.upload { u with
            uploader := .storing (jobs.set position { job with stage })
            downshifted := u.downshifted || failure = .timeout }))
      | _ => none
  | .prepared position => do
      let job ← jobs[position]?
      if job.stage = .preparing then
        some (.keep (.upload { u with
          uploader := .storing (jobs.set position { job with stage := .asking }) }))
      else none
  | _ => none

/-- A move of `upload_prepared_blocks`. -/
def Upload.actUploader (u : Upload) (move : Move) : Option Demand :=
  match u.uploader, move with
  | .receiving, .recv =>
      if u.channel ≠ 0 then
        let count := min u.channel (maxBufferedUploadBlocks + 1)
        some (.keep (.upload { u with
          channel := u.channel - count, thumbnails := 0
          uploader := .requesting count u.thumbnails }))
      else if u.encryptor = .finished then
        -- The channel is closed. Thumbnails that had no block to ride with go alone.
        some (.keep (.upload { u with
          thumbnails := 0
          uploader := if u.thumbnails ≠ 0 then .requesting 0 u.thumbnails else .finished }))
      else none
  | .requesting blocks thumbnails, .targets =>
      some (.keep (.upload { u with uploader := .storing (batchJobs blocks thumbnails) }))
  | .storing jobs, move => u.actJob jobs move
  | _, _ => none

/-- A move of `encrypt_content_blocks` or of the uploader it feeds. -/
def Upload.act (u : Upload) : Move → Option Demand
  | .fill =>
      if u.encryptor = .filling then
        if u.drained = false ∧ u.encrypting.length < maxConcurrentBlockEncrypts then
          -- Only wait when nothing is in the window.
          if u.encrypting = [] then
            some (.acquire 0 (.upload u.grant) (.upload { u with encryptor := .acquiring }))
          else some (.tryAcquire (.upload u.grant) (.upload { u with encryptor := .draining }))
        else some (.keep (.upload { u with encryptor := .draining }))
      else none
  | .read =>
      if u.encryptor = .reading then
        match u.left with
        | 0 => some (.release (.upload { u with drained := true, encryptor := .draining }))
        | left + 1 => some (.keep (.upload
            { u with left, encrypting := u.encrypting ++ [false], encryptor := .filling }))
      else none
  | .encrypted position =>
      if u.encrypting[position]? = some false then
        some (.keep (.upload { u with encrypting := u.encrypting.set position true }))
      else none
  | .next =>
      if u.encryptor = .draining then
        match u.encrypting with
        | [] => some (.keep (.upload { u with encryptor := .finished }))
        | true :: encrypting => some (.keep (.upload { u with encrypting, encryptor := .sending }))
        | false :: _ => none
      else none
  | .send =>
      if u.encryptor = .sending ∧ u.channel < maxBufferedUploadBlocks then
        some (.keep (.upload { u with channel := u.channel + 1, encryptor := .filling }))
      else none
  | move => u.actUploader move

def Transfer.act : Transfer → Move → Option Demand
  | .download d, move => d.act move
  | .upload u, move => u.act move
  | _, _ => none

/-! ### The pool and all transfers -/

/-- A client: its pool and its transfers. -/
structure State (capacity : Nat) (ι : Type) where
  slots : Semaphore capacity ι Nat
  transfer : ι → Transfer

/-- A transfer starts, is dropped or failed, or moves. -/
inductive Action (ι : Type) where
  | download (i : ι) (count : Nat)
  | upload (i : ι) (blocks thumbnails : Nat)
  | abort (i : ι)
  | move (i : ι) (move : Move)

section Step

variable {capacity : Nat} {ι : Type} [DecidableEq ι]

def initial : State capacity ι where
  slots := .full
  transfer _ := .idle

namespace State

variable (s : State capacity ι) (i : ι)

def put (t : Transfer) : State capacity ι :=
  { s with transfer := Function.update s.transfer i t }

/-- A permit of `i` is dropped; the transfer at the head of the queue has it at once. -/
def release : State capacity ι :=
  match s.slots.release i with
  | (slots, none) => { s with slots }
  | (slots, some (j, block)) =>
      { slots, transfer := Function.update s.transfer j ((s.transfer j).grant block) }

/-- Put a demand of `i` to the pool. -/
def serve : Demand → State capacity ι
  | .keep t => s.put i t
  | .release t => (s.put i t).release i
  | .acquire block granted waiting =>
      match s.slots.acquire i block with
      | (slots, true) => { s.put i granted with slots }
      | (slots, false) => { s.put i waiting with slots }
  | .tryAcquire granted refused =>
      match s.slots.tryAcquire i with
      | some slots => { s.put i granted with slots }
      | none => s.put i refused

end State

def releaseAll (i : ι) : Nat → State capacity ι → State capacity ι
  | 0, s => s
  | n + 1, s => releaseAll i n (s.release i)

/-- All futures of `i` are dropped: its requests leave the queue and its permits come back. -/
def State.abort (s : State capacity ι) (i : ι) : State capacity ι :=
  releaseAll i (s.slots.permits i) ({ s with slots := s.slots.cancel i }.put i .ended)

def step (s : State capacity ι) : Action ι → Option (State capacity ι)
  | .download i count =>
      if s.transfer i = .idle then some (s.put i (.download (.start count))) else none
  | .upload i blocks thumbnails =>
      if s.transfer i = .idle then some (s.put i (.upload (.start blocks thumbnails))) else none
  | .abort i => some (s.abort i)
  | .move i move => ((s.transfer i).act move).map (s.serve i)

def machine : Machine (State capacity ι) (Action ι) where
  step := step

end Step

/-- There is work left. -/
def Transfer.Unfinished : Transfer → Prop
  | .download d => d.written < d.count
  | .upload u => ¬ (u.encryptor = .finished ∧ u.uploader = .finished)
  | _ => False

/-- Some transfer is not finished, and no transfer can move whatever the network does. -/
def Deadlock {capacity : Nat} {ι : Type} [DecidableEq ι] (s : State capacity ι) : Prop :=
  (∃ i, (s.transfer i).Unfinished) ∧ ∀ i move, machine.step s (.move i move) = none

/-- The next of the download's new futures to be polled is the one of the earliest block. -/
def Transfer.InOrder : Transfer → Prop
  | .download d => ∀ block ∈ d.fresh.head?, ∀ other ∈ d.fresh, block ≤ other
  | _ => True

instance : DecidablePred Transfer.InOrder
  | .download d =>
      inferInstanceAs (Decidable (∀ block ∈ d.fresh.head?, ∀ other ∈ d.fresh, block ≤ other))
  | .idle | .upload _ | .ended => .isTrue trivial

/-- A block future that asks for its permit has no earlier one of its download behind it. -/
def AsksInOrder {capacity : Nat} {ι : Type} (s : State capacity ι) (action : Action ι) : Prop :=
  match action with
  | .move i move => move = .poll false → (s.transfer i).InOrder
  | _ => True

instance {capacity : Nat} {ι : Type} (s : State capacity ι) :
    DecidablePred (AsksInOrder s)
  | .move i move => inferInstanceAs (Decidable (move = .poll false → (s.transfer i).InOrder))
  | .download _ _ | .upload _ _ _ | .abort _ => .isTrue trivial

/-! ### A download's permits -/

/-- The blocks of a download in index order: those that hold a permit, those that wait for one,
those that have not asked. -/
structure Download.Ok (d : Download) (waits : List Nat) (permits : Nat) : Prop where
  granted : (d.fetching ++ d.ready).Perm (List.range' d.written permits)
  waiting : waits = List.range' (d.written + permits) waits.length
  fresh : d.fresh.Perm (List.range' (d.written + permits + waits.length) d.fresh.length)
  pushed : d.pushed = d.written + permits + waits.length + d.fresh.length
  pushed_le : d.pushed ≤ d.count

namespace Download

variable {d : Download} {waits : List Nat} {permits : Nat}

/-- A download that starts holds nothing. -/
theorem start_ok (count : Nat) : (start count).Ok [] 0 where
  granted := .refl _
  waiting := rfl
  fresh := .refl _
  pushed := rfl
  pushed_le := Nat.zero_le count

/-- The request at the head of the queue is the one of the earliest block without a permit. -/
theorem Ok.grant {block : Nat} (h : d.Ok (block :: waits) permits) :
    (d.grant block).Ok waits (permits + 1) := by
  have hwaiting := h.waiting
  rw [List.length_cons, List.range'_succ] at hwaiting
  obtain ⟨rfl, hwaits⟩ := List.cons.inj hwaiting
  have hlength : d.written + permits + 1 + waits.length =
      d.written + permits + (waits.length + 1) := by omega
  refine ⟨?_, ?_, ?_, ?_, h.pushed_le⟩
  · show ((d.written + permits) :: (d.fetching ++ d.ready)).Perm _
    rw [List.range'_concat, Nat.one_mul]
    exact (h.granted.cons _).trans (List.perm_append_singleton _ _).symm
  · exact hwaits
  · have hfresh := h.fresh
    rw [List.length_cons, ← hlength] at hfresh
    exact hfresh
  · have hpushed := h.pushed
    rw [List.length_cons, ← hlength] at hpushed
    exact hpushed

/-- In index order, the future that asks next is the one of the first block that has not. -/
theorem Ok.first_fresh {block : Nat} {fresh : List Nat} (h : d.Ok waits permits)
    (hfresh : d.fresh = block :: fresh) (horder : (Transfer.download d).InOrder) :
    block = d.written + permits + waits.length ∧
      fresh.Perm (List.range' (block + 1) fresh.length) := by
  have hperm := h.fresh
  rw [hfresh, List.length_cons, List.range'_succ] at hperm
  -- No future before it is left, and in index order none comes before it.
  have hlow : d.written + permits + waits.length ≤ block := by
    have hmem := hperm.subset List.mem_cons_self
    rw [← List.range'_succ, List.mem_range'_1] at hmem
    exact hmem.1
  have hhigh : block ≤ d.written + permits + waits.length := by
    have hmem := hperm.symm.subset List.mem_cons_self
    apply horder block
    · rw [hfresh]
      rfl
    · rw [hfresh]
      exact hmem
  have heq : block = d.written + permits + waits.length := Nat.le_antisymm hhigh hlow
  refine ⟨heq, ?_⟩
  rw [← heq] at hperm
  exact hperm.cons_inv

/-- The future of the first block that has not asked joins the pool's queue. -/
theorem Ok.ask {block : Nat} {fresh : List Nat} (h : d.Ok waits permits)
    (hfresh : d.fresh = block :: fresh) (horder : (Transfer.download d).InOrder) :
    { d with fresh }.Ok (waits ++ [block]) permits := by
  obtain ⟨hblock, hrest⟩ := h.first_fresh hfresh horder
  have hlength : (waits ++ [block]).length = waits.length + 1 := by simp
  refine ⟨h.granted, ?_, ?_, ?_, h.pushed_le⟩
  · rw [hlength, List.range'_concat, ← h.waiting, Nat.one_mul, ← hblock]
  · show fresh.Perm (List.range' (d.written + permits + (waits ++ [block]).length) fresh.length)
    rw [hlength, ← Nat.add_assoc, ← hblock]
    exact hrest
  · have hpushed := h.pushed
    rw [hfresh, List.length_cons] at hpushed
    show d.pushed = d.written + permits + (waits ++ [block]).length + fresh.length
    omega

/-- A block that is pushed waits in the queue. -/
theorem Ok.push (h : d.Ok waits permits) (hlt : d.pushed < d.count) :
    { d with pushed := d.pushed + 1, fresh := d.fresh ++ [d.pushed] }.Ok waits permits := by
  have hlength : (d.fresh ++ [d.pushed]).length = d.fresh.length + 1 := by simp
  refine ⟨h.granted, h.waiting, ?_, ?_, hlt⟩
  · show (d.fresh ++ [d.pushed]).Perm (List.range' _ (d.fresh ++ [d.pushed]).length)
    rw [hlength, List.range'_concat, Nat.one_mul, ← h.pushed]
    exact h.fresh.append_right [d.pushed]
  · have hpushed := h.pushed
    show d.pushed + 1 = d.written + permits + waits.length + (d.fresh ++ [d.pushed]).length
    omega

/-- A poll that returns before it asks changes the order of the polls and nothing else. -/
theorem Ok.spent {block : Nat} {fresh : List Nat} (h : d.Ok waits permits)
    (hfresh : d.fresh = block :: fresh) :
    { d with fresh := fresh ++ [block] }.Ok waits permits := by
  have hlength : (fresh ++ [block]).length = d.fresh.length := by simp [hfresh]
  have hperm : (fresh ++ [block]).Perm d.fresh := by
    rw [hfresh]
    exact List.perm_append_singleton block fresh
  refine ⟨h.granted, h.waiting, ?_, ?_, h.pushed_le⟩
  · show (fresh ++ [block]).Perm (List.range' _ (fresh ++ [block]).length)
    rw [hlength]
    exact hperm.trans h.fresh
  · show d.pushed = d.written + permits + waits.length + (fresh ++ [block]).length
    rw [hlength]
    exact h.pushed

/-- A block that has been fetched keeps its permit until it is handed on. -/
theorem Ok.fetched {block : Nat} (h : d.Ok waits permits) (hmem : block ∈ d.fetching) :
    { d with fetching := d.fetching.erase block, ready := block :: d.ready }.Ok waits permits := by
  refine ⟨?_, h.waiting, h.fresh, h.pushed, h.pushed_le⟩
  have hmoved : (d.fetching.erase block ++ block :: d.ready).Perm (d.fetching ++ d.ready) :=
    List.perm_middle.trans ((List.perm_cons_erase hmem).symm.append_right d.ready)
  exact hmoved.trans h.granted

/-- The consumed block gives its permit back. -/
theorem Ok.write (h : d.Ok waits permits) (hmem : d.written ∈ d.ready) :
    ∃ p, permits = p + 1 ∧
      { d with ready := d.ready.erase d.written, written := d.written + 1 }.Ok waits p := by
  have hwritten : d.written ∈ d.fetching ++ d.ready := List.mem_append_right _ hmem
  -- The block that is consumed is the first of those with a permit.
  have hrange := h.granted.subset hwritten
  rw [List.mem_range'_1] at hrange
  obtain ⟨p, rfl⟩ : ∃ p, permits = p + 1 := ⟨permits - 1, by omega⟩
  have hshift : d.written + 1 + p = d.written + (p + 1) := by omega
  refine ⟨p, rfl, ?_, ?_, ?_, ?_, h.pushed_le⟩
  · -- The permits that are left are those of the blocks after it.
    have hperm : (d.written :: (d.fetching ++ d.ready.erase d.written)).Perm
        (d.written :: List.range' (d.written + 1) p) := by
      rw [← List.range'_succ]
      refine List.Perm.trans ?_ h.granted
      exact List.perm_middle.symm.trans ((List.perm_cons_erase hmem).symm.append_left d.fetching)
    exact hperm.cons_inv
  · show waits = List.range' (d.written + 1 + p) waits.length
    rw [hshift]
    exact h.waiting
  · show d.fresh.Perm (List.range' (d.written + 1 + p + waits.length) d.fresh.length)
    rw [hshift]
    exact h.fresh
  · show d.pushed = d.written + 1 + p + waits.length + d.fresh.length
    rw [hshift]
    exact h.pushed

/-- A download that cannot move waits for the permit of its next block and holds none. -/
theorem Ok.act_or_starved (h : d.Ok waits permits) (hlt : d.written < d.count) :
    (∃ move, (d.act move).isSome) ∨ (permits = 0 ∧ waits ≠ []) := by
  by_cases hfetching : d.fetching = []
  · by_cases hfresh : d.fresh = []
    · have hperm := h.granted
      rw [hfetching, List.nil_append] at hperm
      have hpushed := h.pushed
      rw [hfresh, List.length_nil] at hpushed
      by_cases hpermits : permits = 0
      · by_cases hwaits : waits = []
        · -- Nothing is in the window, so there is room for the next block.
          have hroom : d.pushed < d.count ∧
              d.pushed - d.written < maxConcurrentBlockDownloads := by
            rw [hwaits, List.length_nil] at hpushed
            have hten : maxConcurrentBlockDownloads = 10 := rfl
            omega
          exact .inl ⟨.push, by simp [act, hroom]⟩
        · exact .inr ⟨hpermits, hwaits⟩
      · -- All the blocks with a permit are decrypted, the next one to consume among them.
        have hnext : d.written ∈ d.ready := by
          apply hperm.symm.subset
          rw [List.mem_range'_1]
          omega
        exact .inl ⟨.write, by simp [act, hnext]⟩
    · obtain ⟨block, fresh, hcons⟩ := List.exists_cons_of_ne_nil hfresh
      exact .inl ⟨.poll false, by simp [act, hcons]⟩
  · obtain ⟨block, fetching, hcons⟩ := List.exists_cons_of_ne_nil hfetching
    exact .inl ⟨.fetched block, by simp [act, hcons]⟩

end Download

/-! ### An upload's permits -/

def Encryptor.permits : Encryptor → Nat
  | .reading | .sending => 1
  | _ => 0

def Uploader.permits : Uploader → Nat
  | .requesting blocks _ => blocks
  | .storing jobs => jobs.countP Job.block
  | _ => 0

/-- The limiter of one file can serve every job that asks it. -/
structure JobsOk (jobs : List Job) : Prop where
  used : slotsUsed jobs ≤ maxConcurrentBlockUploads
  wanted : ∀ job ∈ jobs, ∀ wanted, job.stage = .waiting wanted →
    wanted ≤ maxConcurrentBlockUploads

/-- A batch is never empty. -/
def Uploader.Ok : Uploader → Prop
  | .requesting blocks thumbnails => blocks + thumbnails ≠ 0
  | .storing jobs => jobs ≠ [] ∧ JobsOk jobs
  | _ => True

/-- Where the permits of an upload are. The encryptor waits only with an empty window. -/
structure Upload.Ok (u : Upload) (waits : List Nat) (permits : Nat) : Prop where
  waiting : waits = if u.encryptor = .acquiring then [0] else []
  held : permits = u.encrypting.length + u.encryptor.permits + u.channel + u.uploader.permits
  window : u.encryptor = .acquiring ∨ u.encryptor = .finished → u.encrypting = []
  batch : u.uploader.Ok
  closed : u.uploader = .finished → u.encryptor = .finished ∧ u.channel = 0

section Jobs

variable {jobs jobs' rest : List Job} {job job' : Job}

/-- The slots of the jobs are those of one of them and of the others. -/
theorem slotsUsed_of_perm (h : jobs.Perm (job :: rest)) :
    slotsUsed jobs = job.slots + slotsUsed rest := by
  have hsum := (h.map Job.slots).sum_eq
  simpa [slotsUsed] using hsum

/-- The blocks among the jobs are one of them, if it is a block, and the others. -/
theorem block_count_of_perm (h : jobs.Perm (job :: rest)) :
    jobs.countP Job.block = rest.countP Job.block + if job.block then 1 else 0 := by
  rw [h.countP_eq, List.countP_cons]

/-- What holds of all jobs holds of the others. -/
theorem JobsOk.others (hok : JobsOk jobs) (h : jobs.Perm (job :: rest)) : JobsOk rest := by
  refine ⟨?_, ?_⟩
  · have hused := hok.used
    rw [slotsUsed_of_perm h] at hused
    omega
  · intro other hother
    exact hok.wanted other (h.symm.subset (List.mem_cons_of_mem job hother))

/-- One job goes on and the others stay. -/
theorem JobsOk.replace (hok : JobsOk jobs) (h : jobs.Perm (job :: rest))
    (h' : jobs'.Perm (job' :: rest))
    (hslots : job'.slots + slotsUsed rest ≤ maxConcurrentBlockUploads)
    (hwanted : ∀ wanted, job'.stage = .waiting wanted → wanted ≤ maxConcurrentBlockUploads) :
    JobsOk jobs' := by
  refine ⟨?_, ?_⟩
  · rw [slotsUsed_of_perm h']
    exact hslots
  · intro other hother
    rcases List.mem_cons.mp (h'.subset hother) with rfl | hother
    · exact hwanted
    · exact (hok.others h).wanted other hother

/-- The jobs of a batch begin in the queue. -/
theorem batchJobs_queued {blocks thumbnails : Nat} (h : job ∈ batchJobs blocks thumbnails) :
    job.stage = .queued := by
  rcases List.mem_append.mp h with h | h
  · rw [List.eq_of_mem_replicate h]
  · rw [List.eq_of_mem_replicate h]

/-- The jobs of a batch hold nothing yet. -/
theorem batchJobs_ok (blocks thumbnails : Nat) : JobsOk (batchJobs blocks thumbnails) := by
  refine ⟨?_, ?_⟩
  · have hnone : slotsUsed (batchJobs blocks thumbnails) = 0 := by
      apply List.sum_eq_zero
      intro slots hslots
      obtain ⟨job, hmem, rfl⟩ := List.mem_map.mp hslots
      simp only [Job.slots, batchJobs_queued hmem]
    rw [hnone]
    exact Nat.zero_le _
  · intro job hmem wanted hstage
    rw [batchJobs_queued hmem] at hstage
    cases hstage

/-- A job and the others are all jobs. -/
theorem perm_eraseIdx {position : Nat} (h : jobs[position]? = some job) :
    jobs.Perm (job :: jobs.eraseIdx position) := by
  obtain ⟨hlt, rfl⟩ := List.getElem?_eq_some_iff.mp h
  exact (List.getElem_cons_eraseIdx_perm hlt).symm

/-- A changed job and the others are all jobs afterwards. -/
theorem perm_set {position : Nat} (h : jobs[position]? = some job) (job' : Job) :
    (jobs.set position job').Perm (job' :: jobs.eraseIdx position) := by
  obtain ⟨hlt, -⟩ := List.getElem?_eq_some_iff.mp h
  exact List.set_perm_cons_eraseIdx hlt job'

/-- Some job of a batch can go on: one that posts, or else the first that waits for the limiter,
whose slots are then all left, or else one that asks it or has to be prepared. -/
theorem JobsOk.act (u : Upload) (hok : JobsOk jobs) (hne : jobs ≠ []) :
    ∃ move, (u.actJob jobs move).isSome := by
  by_cases hposting : ∃ job ∈ jobs, ∃ slots, job.stage = .posting slots
  · obtain ⟨job, hmem, slots, hstage⟩ := hposting
    obtain ⟨position, hget⟩ := List.mem_iff_getElem?.mp hmem
    -- A post can end.
    exact ⟨.stored position, by simp [Upload.actJob, hget, hstage]⟩
  · have hnone : slotsUsed jobs = 0 := by
      apply List.sum_eq_zero
      intro slots hslots
      obtain ⟨job, hmem, rfl⟩ := List.mem_map.mp hslots
      cases hstage : job.stage with
      | posting slots => exact absurd ⟨job, hmem, slots, hstage⟩ hposting
      | _ => simp [Job.slots, hstage]
    -- Nobody posts, so the limiter is free for whoever waits first.
    cases hfind : jobs.findIdx? Job.isWaiting with
    | some position =>
        obtain ⟨hlt, hwaiting, -⟩ := List.findIdx?_eq_some_iff_getElem.mp hfind
        have hget : jobs[position]? = some jobs[position] := List.getElem?_eq_getElem hlt
        cases hstage : jobs[position].stage with
        | waiting wanted =>
            have hwanted := hok.wanted _ (List.getElem_mem hlt) wanted hstage
            exact ⟨.slot, by simp [Upload.actJob, hfind, hget, hstage, hnone, hwanted]⟩
        | _ => simp [Job.isWaiting, hstage] at hwaiting
    | none =>
        have hwaiting : ∀ job ∈ jobs, job.isWaiting = false :=
          List.findIdx?_eq_none_iff.mp hfind
        by_cases hbusy : ∃ job ∈ jobs, job.stage ≠ .queued
        · obtain ⟨job, hmem, hqueued⟩ := hbusy
          obtain ⟨position, hget⟩ := List.mem_iff_getElem?.mp hmem
          cases hstage : job.stage with
          | queued => exact absurd hstage hqueued
          | asking => exact ⟨.ask position, by simp [Upload.actJob, hget, hstage]⟩
          | waiting wanted =>
              have hfalse := hwaiting job hmem
              simp [Job.isWaiting, hstage] at hfalse
          | posting slots => exact absurd ⟨job, hmem, slots, hstage⟩ hposting
          | preparing => exact ⟨.prepared position, by simp [Upload.actJob, hget, hstage]⟩
        · -- All jobs are queued, and the first one can ask.
          obtain ⟨job, others, rfl⟩ := List.exists_cons_of_ne_nil hne
          have hqueued : ∀ job' ∈ job :: others, job'.stage = .queued := by
            intro job' hmem
            by_contra hstage
            exact hbusy ⟨job', hmem, hstage⟩
          have hidle : inFlight (job :: others) = 0 := by
            apply List.countP_eq_zero.mpr
            intro job' hmem
            simp [hqueued job' hmem]
          have hfirst := hqueued job List.mem_cons_self
          exact ⟨.ask 0, by simp [Upload.actJob, hfirst, hidle, maxConcurrentBlockUploads]⟩

end Jobs

/-! ### What a move leaves behind -/

/-- `t` waits in the pool's queue with the keys `waits` and holds `permits` permits. -/
def Transfer.Ok (t : Transfer) (waits : List Nat) (permits : Nat) : Prop :=
  match t with
  | .download d => d.Ok waits permits
  | .upload u => u.Ok waits permits
  | _ => waits = [] ∧ permits = 0

/-- Whatever the pool answers, the transfer's account is right afterwards. The pool only grants at
once when nobody waits. -/
def Demand.Ok (waits : List Nat) (permits : Nat) : Demand → Prop
  | .keep t => t.Ok waits permits
  | .release t => ∃ p, permits = p + 1 ∧ t.Ok waits p
  | .acquire block granted waiting =>
      (waits = [] → granted.Ok [] (permits + 1)) ∧ waiting.Ok (waits ++ [block]) permits
  | .tryAcquire granted refused =>
      (waits = [] → granted.Ok [] (permits + 1)) ∧ refused.Ok waits permits

/-- Every move of a download asks for what it may ask for. -/
theorem Download.Ok.act {d : Download} {waits : List Nat} {permits : Nat} {move : Move}
    {demand : Demand} (h : d.Ok waits permits)
    (horder : move = .poll false → (Transfer.download d).InOrder)
    (hact : d.act move = some demand) : demand.Ok waits permits := by
  cases move with
  | push =>
      simp only [Download.act] at hact
      split at hact
      case isTrue hroom =>
          obtain rfl := Option.some.inj hact
          exact h.push hroom.1
      case isFalse => cases hact
  | poll spent =>
      simp only [Download.act] at hact
      split at hact
      case h_1 => cases hact
      case h_2 block fresh hfresh =>
          cases spent with
          | true =>
              obtain rfl := Option.some.inj hact
              exact h.spent hfresh
          | false =>
              obtain rfl := Option.some.inj hact
              have hask := h.ask hfresh (horder rfl)
              refine ⟨?_, hask⟩
              rintro rfl
              -- With an empty queue the request is granted as if it had waited.
              exact hask.grant
  | fetched block =>
      simp only [Download.act] at hact
      split at hact
      case isTrue hmem =>
          obtain rfl := Option.some.inj hact
          exact h.fetched hmem
      case isFalse => cases hact
  | write =>
      simp only [Download.act] at hact
      split at hact
      case isTrue hmem =>
          obtain rfl := Option.some.inj hact
          exact h.write hmem
      case isFalse => cases hact
  | _ => cases hact

namespace Upload

variable {u : Upload} {waits : List Nat} {permits : Nat}

/-- An upload that starts holds nothing. -/
theorem start_ok (blocks thumbnails : Nat) : (start blocks thumbnails).Ok [] 0 where
  waiting := rfl
  held := rfl
  window h := by rcases h with h | h <;> cases h
  batch := trivial
  closed h := by cases h

/-- The encryptor goes on. -/
theorem Ok.advance (h : u.Ok waits permits) (hopen : u.encryptor ≠ .finished) {left : Nat}
    {drained : Bool} {encrypting : List Bool} {encryptor : Encryptor} {channel : Nat}
    {waits' : List Nat} {permits' : Nat}
    (hwaiting : waits' = if encryptor = .acquiring then [0] else [])
    (hheld : permits' + u.encrypting.length + u.encryptor.permits + u.channel =
      permits + encrypting.length + encryptor.permits + channel)
    (hwindow : encryptor = .acquiring ∨ encryptor = .finished → encrypting = []) :
    { u with left, drained, encrypting, encryptor, channel }.Ok waits' permits' := by
  refine ⟨hwaiting, ?_, hwindow, h.batch, ?_⟩
  · have := h.held
    show permits' = encrypting.length + encryptor.permits + channel + u.uploader.permits
    omega
  · intro hfinished
    exact absurd (h.closed hfinished).1 hopen

/-- The uploader goes on. -/
theorem Ok.deliver (h : u.Ok waits permits) {thumbnails channel : Nat} {uploader : Uploader}
    {downshifted : Bool} {permits' : Nat}
    (hheld : permits' + u.channel + u.uploader.permits = permits + channel + uploader.permits)
    (hbatch : uploader.Ok)
    (hclosed : uploader = .finished → u.encryptor = .finished ∧ channel = 0) :
    { u with thumbnails, channel, uploader, downshifted }.Ok waits permits' := by
  refine ⟨h.waiting, ?_, h.window, hbatch, hclosed⟩
  have := h.held
  show permits' = u.encrypting.length + u.encryptor.permits + channel + uploader.permits
  omega

/-- A permit that comes in belongs to the block that waited first. -/
theorem Ok.grant {block : Nat} (h : u.Ok (block :: waits) permits) :
    u.grant.Ok waits (permits + 1) := by
  have hwaiting := h.waiting
  split at hwaiting
  case isTrue hacquiring =>
      obtain ⟨-, rfl⟩ := List.cons.inj hwaiting
      apply h.advance
      · rw [hacquiring]
        exact nofun
      · rfl
      · rw [hacquiring]
        simp only [Encryptor.permits]
        omega
      · simp
  case isFalse => cases hwaiting

/-- Filling the buffer asks for nothing that is not owed. -/
theorem Ok.fill {demand : Demand} (h : u.Ok waits permits) (hact : u.act .fill = some demand) :
    demand.Ok waits permits := by
  simp only [act] at hact
  split at hact
  case isFalse => cases hact
  case isTrue hfilling =>
      have hopen : u.encryptor ≠ .finished := by
        rw [hfilling]
        exact nofun
      have hidle : waits = [] := by simpa [hfilling] using h.waiting
      have hgranted : u.grant.Ok [] (permits + 1) := by
        apply h.advance hopen
        · rfl
        · simp only [hfilling, Encryptor.permits]
          omega
        · simp
      have hdraining : { u with encryptor := .draining }.Ok waits permits := by
        apply h.advance hopen
        · exact hidle
        · simp only [hfilling, Encryptor.permits]
        · simp
      split at hact
      case isFalse =>
          obtain rfl := Option.some.inj hact
          exact hdraining
      case isTrue =>
          -- The window has room and a block is left: the encryptor asks for its permit.
          split at hact
          case isFalse =>
              obtain rfl := Option.some.inj hact
              exact ⟨fun _ => hgranted, hdraining⟩
          -- The window is empty and the file is read to its end.
          case isTrue hempty =>
              obtain rfl := Option.some.inj hact
              refine ⟨fun _ => hgranted, ?_⟩
              apply h.advance hopen
              · rw [hidle]
                rfl
              · simp only [hfilling, Encryptor.permits]
              · intro _
                exact hempty

/-- Reading a block asks for its permit. -/
theorem Ok.read {demand : Demand} (h : u.Ok waits permits) (hact : u.act .read = some demand) :
    demand.Ok waits permits := by
  simp only [act] at hact
  split at hact
  case isFalse => cases hact
  case isTrue hreading =>
      have hopen : u.encryptor ≠ .finished := by
        rw [hreading]
        exact nofun
      have hidle : waits = [] := by simpa [hreading] using h.waiting
      have hone : u.encryptor.permits = 1 := by rw [hreading]; rfl
      split at hact
      case h_1 =>
          -- The reader was at its end: the permit it took is dropped unused.
          obtain rfl := Option.some.inj hact
          have hheld := h.held
          refine ⟨permits - 1, by omega, ?_⟩
          apply h.advance hopen
          · exact hidle
          · simp only [hreading, Encryptor.permits]
            omega
          · simp
      case h_2 left =>
          obtain rfl := Option.some.inj hact
          apply h.advance hopen
          · exact hidle
          · simp only [hreading, Encryptor.permits, List.length_append, List.length_singleton]
            omega
          · simp

/-- An encrypted block keeps its permit. -/
theorem Ok.encrypted {position : Nat} {demand : Demand} (h : u.Ok waits permits)
    (hact : u.act (.encrypted position) = some demand) : demand.Ok waits permits := by
  simp only [act] at hact
  split at hact
  case isFalse => cases hact
  case isTrue hget =>
      obtain rfl := Option.some.inj hact
      have hne : ¬ (u.encryptor = .acquiring ∨ u.encryptor = .finished) := by
        intro hclosed
        rw [h.window hclosed] at hget
        cases hget
      apply h.advance (fun hfinished => hne (.inr hfinished))
      · exact h.waiting
      · simp only [List.length_set]
      · intro hclosed
        exact absurd hclosed hne

/-- Taking the next block from the queue changes nothing that is held. -/
theorem Ok.next {demand : Demand} (h : u.Ok waits permits) (hact : u.act .next = some demand) :
    demand.Ok waits permits := by
  simp only [act] at hact
  split at hact
  case isFalse => cases hact
  case isTrue hdraining =>
      have hopen : u.encryptor ≠ .finished := by
        rw [hdraining]
        exact nofun
      have hidle : waits = [] := by simpa [hdraining] using h.waiting
      split at hact
      -- Nothing is left to send, and the encryptor is done.
      case h_1 hempty =>
          obtain rfl := Option.some.inj hact
          apply h.advance hopen
          · exact hidle
          · simp only [hdraining, Encryptor.permits]
          · intro _
            exact hempty
      case h_2 encrypting hcons =>
          obtain rfl := Option.some.inj hact
          apply h.advance hopen
          · exact hidle
          · simp only [hdraining, Encryptor.permits, hcons, List.length_cons]
            omega
          · simp
      case h_3 => cases hact

/-- A block that is sent passes its permit on to the uploader. -/
theorem Ok.send {demand : Demand} (h : u.Ok waits permits) (hact : u.act .send = some demand) :
    demand.Ok waits permits := by
  simp only [act] at hact
  split at hact
  case isFalse => cases hact
  case isTrue hsending =>
      obtain rfl := Option.some.inj hact
      apply h.advance
      · rw [hsending.1]
        exact nofun
      · simpa [hsending.1] using h.waiting
      · simp only [hsending.1, Encryptor.permits]
        omega
      · simp

section Batch

variable {jobs : List Job} {job : Job} {position : Nat} {demand : Demand}

/-- A job of the batch goes on. -/
theorem Ok.putJob (h : u.Ok waits permits) (hjobs : u.uploader = .storing jobs)
    (hget : jobs[position]? = some job) {jobs' : List Job} {stage : JobStage} {downshifted : Bool}
    (hperm : jobs'.Perm ({ job with stage } :: jobs.eraseIdx position))
    (hslots : Job.slots { job with stage } + slotsUsed (jobs.eraseIdx position) ≤
      maxConcurrentBlockUploads)
    (hwanted : ∀ wanted, stage = .waiting wanted → wanted ≤ maxConcurrentBlockUploads) :
    { u with uploader := .storing jobs', downshifted }.Ok waits permits := by
  have hbatch := h.batch
  rw [hjobs] at hbatch
  apply h.deliver
  · rw [hjobs]
    show permits + u.channel + jobs.countP Job.block = permits + u.channel + jobs'.countP Job.block
    rw [block_count_of_perm (perm_eraseIdx hget), block_count_of_perm hperm]
  · refine ⟨?_, hbatch.2.replace (perm_eraseIdx hget) hperm hslots hwanted⟩
    rintro rfl
    cases List.nil_perm.mp hperm
  · exact nofun

/-- A job that does not post afterwards has no slot of the limiter. -/
theorem Ok.putJob_idle (h : u.Ok waits permits) (hjobs : u.uploader = .storing jobs)
    (hget : jobs[position]? = some job) {jobs' : List Job} {stage : JobStage} {downshifted : Bool}
    (hperm : jobs'.Perm ({ job with stage } :: jobs.eraseIdx position))
    (hidle : Job.slots { job with stage } = 0)
    (hwanted : ∀ wanted, stage = .waiting wanted → wanted ≤ maxConcurrentBlockUploads) :
    { u with uploader := .storing jobs', downshifted }.Ok waits permits := by
  have hbatch := h.batch
  rw [hjobs] at hbatch
  have hothers := (hbatch.2.others (perm_eraseIdx hget)).used
  exact h.putJob hjobs hget hperm (by omega) hwanted

/-- A job asks for the slots that it still needs. -/
theorem Ok.ask (h : u.Ok waits permits) (hjobs : u.uploader = .storing jobs)
    (hact : u.actJob jobs (.ask position) = some demand) : demand.Ok waits permits := by
  simp only [actJob, Option.bind_eq_bind, Option.bind_eq_some_iff] at hact
  obtain ⟨job, hget, hact⟩ := hact
  split at hact
  case isFalse => cases hact
  case isTrue =>
      obtain rfl := Option.some.inj hact
      apply h.putJob_idle hjobs hget
      · exact List.perm_append_singleton _ _
      · rfl
      · intro wanted hwanted
        obtain rfl := JobStage.waiting.inj hwanted
        cases u.downshifted <;> decide

/-- A slot goes to the job that waited first. -/
theorem Ok.slot (h : u.Ok waits permits) (hjobs : u.uploader = .storing jobs)
    (hact : u.actJob jobs .slot = some demand) : demand.Ok waits permits := by
  simp only [actJob, Option.bind_eq_bind, Option.bind_eq_some_iff] at hact
  obtain ⟨position, -, job, hget, hact⟩ := hact
  split at hact
  case h_1 wanted hstage =>
      split at hact
      case isTrue hfree =>
          obtain rfl := Option.some.inj hact
          have hused := slotsUsed_of_perm (perm_eraseIdx hget)
          have hbatch := h.batch
          rw [hjobs] at hbatch
          have hmax := hbatch.2.used
          -- The slots that are wanted are free.
          apply h.putJob hjobs hget
          · exact perm_set hget _
          · simp only [Job.slots]
            omega
          · exact nofun
      case isFalse => cases hact
  case h_2 => cases hact

/-- A stored block gives its permit back; a thumbnail has none. -/
theorem Ok.stored (h : u.Ok waits permits) (hjobs : u.uploader = .storing jobs)
    (hact : u.actJob jobs (.stored position) = some demand) : demand.Ok waits permits := by
  simp only [actJob, Option.bind_eq_bind, Option.bind_eq_some_iff] at hact
  obtain ⟨job, hget, hact⟩ := hact
  have hcount := block_count_of_perm (perm_eraseIdx hget)
  have hbatch := h.batch
  rw [hjobs] at hbatch
  have hofJobs : (Uploader.ofJobs (jobs.eraseIdx position)).permits =
      (jobs.eraseIdx position).countP Job.block := by
    cases jobs.eraseIdx position <;> rfl
  -- A stored job leaves with its slots, and a block with its permit.
  have hdone : ∀ p, permits = p + (if job.block then 1 else 0) →
      { u with uploader := .ofJobs (jobs.eraseIdx position) }.Ok waits p := by
    intro p hp
    apply h.deliver
    · rw [hjobs, hofJobs]
      simp only [Uploader.permits]
      omega
    · have hothers := hbatch.2.others (perm_eraseIdx hget)
      cases hrest : jobs.eraseIdx position with
      | nil => trivial
      | cons other others =>
          rw [hrest] at hothers
          exact ⟨nofun, hothers⟩
    · -- Jobs are left, or the uploader goes back to receiving.
      cases jobs.eraseIdx position <;> exact nofun
  split at hact
  case h_1 =>
      obtain rfl := Option.some.inj hact
      cases hblock : job.block with
      | true =>
          have hheld := h.held
          rw [hjobs] at hheld
          simp only [Uploader.permits, hblock, if_true] at hheld hcount
          exact ⟨permits - 1, by omega, hdone _ (by simp only [hblock, if_true]; omega)⟩
      | false => exact hdone permits (by simp [hblock])
  case h_2 => cases hact

/-- A job that tries again gives up its slots and asks anew. -/
theorem Ok.retry {failure : Failure} (h : u.Ok waits permits) (hjobs : u.uploader = .storing jobs)
    (hact : u.actJob jobs (.retry position failure) = some demand) : demand.Ok waits permits := by
  simp only [actJob, Option.bind_eq_bind, Option.bind_eq_some_iff] at hact
  obtain ⟨job, hget, hact⟩ := hact
  split at hact
  case h_1 =>
      obtain rfl := Option.some.inj hact
      apply h.putJob_idle hjobs hget
      · exact perm_set hget _
      · split <;> rfl
      · intro wanted hwanted
        split at hwanted <;> cases hwanted
  case h_2 => cases hact

/-- A job that has its new target holds what it held. -/
theorem Ok.prepared (h : u.Ok waits permits) (hjobs : u.uploader = .storing jobs)
    (hact : u.actJob jobs (.prepared position) = some demand) : demand.Ok waits permits := by
  simp only [actJob, Option.bind_eq_bind, Option.bind_eq_some_iff] at hact
  obtain ⟨job, hget, hact⟩ := hact
  split at hact
  case isTrue =>
      obtain rfl := Option.some.inj hact
      apply h.putJob_idle hjobs hget
      · exact perm_set hget _
      · rfl
      · exact nofun
  case isFalse => cases hact

/-- Every move of a job keeps the account of the upload. -/
theorem Ok.actJob {move : Move} (h : u.Ok waits permits) (hjobs : u.uploader = .storing jobs)
    (hact : u.actJob jobs move = some demand) : demand.Ok waits permits := by
  cases move with
  | ask position => exact h.ask hjobs hact
  | slot => exact h.slot hjobs hact
  | stored position => exact h.stored hjobs hact
  | retry position failure => exact h.retry hjobs hact
  | prepared position => exact h.prepared hjobs hact
  | _ => cases hact

end Batch

/-- What the uploader receives keeps its permit. -/
theorem Ok.recv {demand : Demand} (h : u.Ok waits permits) (hreceiving : u.uploader = .receiving)
    (hact : u.actUploader .recv = some demand) : demand.Ok waits permits := by
  simp only [actUploader, hreceiving] at hact
  split at hact
  case isTrue hchannel =>
      obtain rfl := Option.some.inj hact
      -- Whatever is in the channel makes the next batch.
      have hsome : 0 < min u.channel (maxBufferedUploadBlocks + 1) :=
        Nat.lt_min.mpr ⟨Nat.pos_of_ne_zero hchannel, Nat.succ_pos _⟩
      have hle : min u.channel (maxBufferedUploadBlocks + 1) ≤ u.channel := Nat.min_le_left _ _
      apply h.deliver
      · simp only [hreceiving, Uploader.permits]
        omega
      · simp only [Uploader.Ok]
        omega
      · exact nofun
  case isFalse hchannel =>
      have hempty : u.channel = 0 := not_not.mp hchannel
      split at hact
      case isTrue hfinished =>
          obtain rfl := Option.some.inj hact
          -- The channel is closed: the thumbnails are left, or nothing.
          by_cases hthumbnails : u.thumbnails ≠ 0
          · rw [if_pos hthumbnails]
            apply h.deliver
            · simp only [hreceiving, Uploader.permits]
            · simp only [Uploader.Ok]
              omega
            · exact nofun
          · rw [if_neg hthumbnails]
            apply h.deliver
            · simp only [hreceiving, Uploader.permits]
            · trivial
            · intro _
              exact ⟨hfinished, hempty⟩
      case isFalse => cases hact

/-- A batch that gets its targets becomes jobs without slots. -/
theorem Ok.targets {blocks thumbnails : Nat} {demand : Demand} (h : u.Ok waits permits)
    (hrequesting : u.uploader = .requesting blocks thumbnails)
    (hact : u.actUploader .targets = some demand) : demand.Ok waits permits := by
  simp only [actUploader, hrequesting] at hact
  obtain rfl := Option.some.inj hact
  have hbatch := h.batch
  rw [hrequesting] at hbatch
  simp only [Uploader.Ok] at hbatch
  apply h.deliver
  · simp [hrequesting, Uploader.permits, batchJobs, List.countP_replicate]
  · refine ⟨?_, batchJobs_ok blocks thumbnails⟩
    intro hnil
    have hlength := congrArg List.length hnil
    simp only [batchJobs, List.length_append, List.length_replicate, List.length_nil] at hlength
    omega
  · exact nofun

/-- Every move of the uploader keeps the account of the upload. -/
theorem Ok.actUploader {move : Move} {demand : Demand} (h : u.Ok waits permits)
    (hact : u.actUploader move = some demand) : demand.Ok waits permits := by
  cases huploader : u.uploader with
  | receiving =>
      cases move with
      | recv => exact h.recv huploader hact
      | _ => simp [Upload.actUploader, huploader] at hact
  | requesting blocks thumbnails =>
      cases move with
      | targets => exact h.targets huploader hact
      | _ => simp [Upload.actUploader, huploader] at hact
  | storing jobs =>
      simp only [Upload.actUploader, huploader] at hact
      exact h.actJob huploader hact
  | finished => simp [Upload.actUploader, huploader] at hact

/-- Every move of an upload keeps its account. -/
theorem Ok.act {move : Move} {demand : Demand} (h : u.Ok waits permits)
    (hact : u.act move = some demand) : demand.Ok waits permits := by
  cases move with
  | fill => exact h.fill hact
  | read => exact h.read hact
  | encrypted position => exact h.encrypted hact
  | next => exact h.next hact
  | send => exact h.send hact
  | _ => exact h.actUploader hact

/-- The moves of the uploader are moves of the upload. -/
theorem act_of_actUploader {move : Move} (h : (u.actUploader move).isSome) :
    (u.act move).isSome := by
  cases move with
  | fill | read | encrypted | next | send =>
      -- These are the encryptor's.
      cases huploader : u.uploader <;> simp [actUploader, actJob, huploader] at h
  | _ => exact h

/-- The uploader moves whenever it has something to do. -/
theorem Ok.actUploader_isSome (h : u.Ok waits permits) (hopen : u.uploader ≠ .finished)
    (hwork : u.uploader = .receiving → u.channel ≠ 0 ∨ u.encryptor = .finished) :
    ∃ move, (u.act move).isSome := by
  have hbatch := h.batch
  cases huploader : u.uploader with
  | receiving =>
      refine ⟨.recv, act_of_actUploader ?_⟩
      by_cases hchannel : u.channel ≠ 0
      · simp [Upload.actUploader, huploader, hchannel]
      · have hfinished := (hwork huploader).resolve_left hchannel
        simp [Upload.actUploader, huploader, hchannel, hfinished]
  | requesting blocks thumbnails =>
      exact ⟨.targets, act_of_actUploader (by simp [Upload.actUploader, huploader])⟩
  | storing jobs =>
      rw [huploader] at hbatch
      obtain ⟨move, hmove⟩ := hbatch.2.act u hbatch.1
      refine ⟨move, act_of_actUploader ?_⟩
      simpa only [Upload.actUploader, huploader] using hmove
  | finished => exact absurd huploader hopen

/-- An upload that cannot move waits for its first permit and holds none. -/
theorem Ok.act_or_starved (h : u.Ok waits permits)
    (hopen : ¬ (u.encryptor = .finished ∧ u.uploader = .finished)) :
    (∃ move, (u.act move).isSome) ∨ (permits = 0 ∧ waits ≠ []) := by
  have huploader : u.uploader ≠ .finished := fun hf => hopen ⟨(h.closed hf).1, hf⟩
  cases hencryptor : u.encryptor with
  | filling =>
      refine .inl ⟨.fill, ?_⟩
      simp only [Upload.act, hencryptor, if_true]
      split
      · split <;> rfl
      · rfl
  | acquiring =>
      -- Whatever it still holds is with the uploader.
      by_cases hwork : u.uploader = .receiving ∧ u.channel = 0
      · refine .inr ⟨?_, ?_⟩
        · rw [h.held, h.window (.inl hencryptor), hencryptor, hwork.1, hwork.2]
          rfl
        · rw [h.waiting, hencryptor]
          exact nofun
      · refine .inl (h.actUploader_isSome huploader ?_)
        intro hreceiving
        exact .inl (fun hchannel => hwork ⟨hreceiving, hchannel⟩)
  | reading =>
      refine .inl ⟨.read, ?_⟩
      simp only [Upload.act, hencryptor, if_true]
      split <;> rfl
  | draining =>
      cases hwindow : u.encrypting with
      | nil => exact .inl ⟨.next, by simp [Upload.act, hencryptor, hwindow]⟩
      | cons done encrypting =>
          cases done with
          | true => exact .inl ⟨.next, by simp [Upload.act, hencryptor, hwindow]⟩
          | false => exact .inl ⟨.encrypted 0, by simp [Upload.act, hwindow]⟩
  | sending =>
      by_cases hroom : u.channel < maxBufferedUploadBlocks
      · exact .inl ⟨.send, by simp [Upload.act, hencryptor, hroom]⟩
      · -- A full channel is something to receive.
        refine .inl (h.actUploader_isSome huploader ?_)
        intro _
        have hfour : maxBufferedUploadBlocks = 4 := rfl
        exact .inl (by omega)
  | finished => exact .inl (h.actUploader_isSome huploader (fun _ => .inr hencryptor))

end Upload

namespace Transfer

variable {t : Transfer} {waits : List Nat} {permits : Nat}

/-- A permit goes to the transfer that waited for it. -/
theorem Ok.grant {block : Nat} (h : t.Ok (block :: waits) permits) :
    (t.grant block).Ok waits (permits + 1) := by
  cases t with
  | idle => cases h.1
  | download d => exact Download.Ok.grant h
  | upload u => exact Upload.Ok.grant h
  | ended => cases h.1

/-- Every move of a transfer asks for what it may ask for. -/
theorem Ok.act {move : Move} {demand : Demand} (h : t.Ok waits permits)
    (horder : move = .poll false → t.InOrder) (hact : t.act move = some demand) :
    demand.Ok waits permits := by
  cases t with
  | idle => cases hact
  | download d => exact Download.Ok.act h horder hact
  | upload u => exact Upload.Ok.act h hact
  | ended => cases hact

/-- **No hold and wait.** A transfer that cannot move holds no permit. -/
theorem Ok.act_or_starved (h : t.Ok waits permits) (hopen : t.Unfinished) :
    (∃ move, (t.act move).isSome) ∨ (permits = 0 ∧ waits ≠ []) := by
  cases t with
  | idle => exact hopen.elim
  | download d => exact Download.Ok.act_or_starved h hopen
  | upload u => exact Upload.Ok.act_or_starved h hopen
  | ended => exact hopen.elim

/-- A finished transfer holds no permit either. -/
theorem Ok.unfinished (h : t.Ok waits permits) (hheld : permits ≠ 0) : t.Unfinished := by
  cases t with
  | idle => exact absurd h.2 hheld
  | download d =>
      have hpushed := Download.Ok.pushed h
      have hcount := Download.Ok.pushed_le h
      show d.written < d.count
      omega
  | upload u =>
      rintro ⟨hencryptor, huploader⟩
      apply hheld
      rw [Upload.Ok.held h, Upload.Ok.window h (.inr hencryptor), (Upload.Ok.closed h huploader).2,
        hencryptor, huploader]
      rfl
  | ended => exact absurd h.2 hheld

end Transfer

/-! ### Every reachable state -/

section Runs

variable {capacity : Nat} {ι : Type} [DecidableEq ι] {s t : State capacity ι} {i j : ι}

/-- The pool's books agree with every transfer's own. -/
def Inv (s : State capacity ι) : Prop :=
  ∀ i, (s.transfer i).Ok (s.slots.waits i) (s.slots.permits i)

/-- `Inv`, but for `n` permits of `i` that are still to come back. -/
def Owes (s : State capacity ι) (i : ι) (n : Nat) : Prop :=
  ∀ j, ∃ p, s.slots.permits j = p + (if j = i then n else 0) ∧
    (s.transfer j).Ok (s.slots.waits j) p

/-- At first no permit is taken. -/
theorem initial_inv : Inv (initial : State capacity ι) := by
  intro i
  exact ⟨rfl, rfl⟩

/-- What `i` owes goes down with the permit it gives back. -/
theorem owed_succ {n held left p g : Nat} (hp : held = p + if j = i then n + 1 else 0)
    (hback : left + (if j = i then 1 else 0) = held + g) :
    left = p + g + if j = i then n else 0 := by
  by_cases hji : j = i
  · rw [if_pos hji] at hp hback ⊢
    omega
  · rw [if_neg hji] at hp hback ⊢
    omega

/-- Where nothing is owed the account is even. -/
theorem inv_of_owes (h : Owes s i 0) : Inv s := by
  intro j
  obtain ⟨p, hp, hok⟩ := h j
  simp only [ite_self, Nat.add_zero] at hp
  rw [hp]
  exact hok

/-- A permit comes back and goes to the transfer that waits longest, if there is one. -/
theorem Owes.release {n : Nat} (h : Owes s i (n + 1)) : Owes (s.release i) i n := by
  have hi : s.slots.permits i ≠ 0 := by
    obtain ⟨p, hp, -⟩ := h i
    rw [if_pos rfl] at hp
    omega
  intro j
  obtain ⟨p, hp, hok⟩ := h j
  match hrelease : s.slots.release i with
  -- Nobody waits, and the permit goes back to the pool.
  | (slots, none) =>
      obtain ⟨hwaits, hpermits⟩ := Semaphore.release_none hi hrelease
      simp only [State.release, hrelease]
      refine ⟨p, owed_succ (g := 0) hp (hpermits j), ?_⟩
      rw [hwaits j]
      exact hok
  -- The permit goes to whoever has waited longest.
  | (slots, some (k, block)) =>
      obtain ⟨hwaits, hpermits⟩ := Semaphore.release_some hi hrelease
      simp only [State.release, hrelease]
      have hback := hpermits j
      rw [hwaits j] at hok
      by_cases hjk : j = k
      · subst hjk
        rw [Function.update_self]
        rw [if_pos rfl] at hok hback
        exact ⟨p + 1, owed_succ hp hback, hok.grant⟩
      · rw [Function.update_of_ne hjk]
        rw [if_neg hjk] at hok hback
        exact ⟨p, owed_succ (g := 0) hp hback, hok⟩

/-- Returning what is owed evens the account. -/
theorem Owes.releaseAll {n : Nat} (h : Owes s i n) : Inv (releaseAll i n s) := by
  induction n generalizing s with
  | zero => exact inv_of_owes h
  | succ n ih => exact ih h.release

/-- One transfer and its own lines in the pool's books change. -/
theorem Inv.put {t : Transfer} {slots : Semaphore capacity ι Nat} (h : Inv s)
    (hi : t.Ok (slots.waits i) (slots.permits i))
    (hothers : ∀ j, j ≠ i → slots.waits j = s.slots.waits j ∧
      slots.permits j = s.slots.permits j) :
    Inv { s.put i t with slots } := by
  intro j
  by_cases hj : j = i
  · subst hj
    simpa only [State.put, Function.update_self] using hi
  · obtain ⟨hwaits, hpermits⟩ := hothers j hj
    simp only [State.put, Function.update_of_ne hj, hwaits, hpermits]
    exact h j

/-- Serving what a transfer may ask for keeps the account. -/
theorem Inv.serve {demand : Demand} (h : Inv s)
    (hdemand : demand.Ok (s.slots.waits i) (s.slots.permits i)) : Inv (s.serve i demand) := by
  cases demand with
  | keep t => exact h.put hdemand (fun _ _ => ⟨rfl, rfl⟩)
  | release t =>
      obtain ⟨p, hp, hok⟩ := hdemand
      apply inv_of_owes (i := i)
      apply Owes.release
      intro j
      by_cases hj : j = i
      · subst hj
        refine ⟨p, ?_, ?_⟩
        · rw [if_pos rfl]
          exact hp
        · simpa only [State.put, Function.update_self] using hok
      · refine ⟨s.slots.permits j, ?_, ?_⟩
        · rw [if_neg hj]
          rfl
        · simpa only [State.put, Function.update_of_ne hj] using h j
  | acquire block granted waiting =>
      obtain ⟨hgranted, hwaiting⟩ := hdemand
      -- While a permit is left nobody waits, so the transfer has it at once.
      by_cases hleft : 0 < s.slots.available
      · simp only [State.serve, Semaphore.acquire, hleft, dite_true]
        apply h.put
        · rw [Semaphore.waits_take, Semaphore.permits_take, if_pos rfl,
            Semaphore.waits_eq_nil hleft]
          exact hgranted (Semaphore.waits_eq_nil hleft)
        · intro j hj
          rw [Semaphore.permits_take, if_neg hj]
          exact ⟨rfl, rfl⟩
      · simp only [State.serve, Semaphore.acquire, hleft, dite_false]
        apply h.put
        · rw [Semaphore.waits_enqueue, if_pos rfl]
          exact hwaiting
        · intro j hj
          rw [Semaphore.waits_enqueue, if_neg hj, List.append_nil]
          exact ⟨rfl, rfl⟩
  | tryAcquire granted refused =>
      -- A request that does not wait is refused when none is left.
      obtain ⟨hgranted, hrefused⟩ := hdemand
      by_cases hleft : 0 < s.slots.available
      · simp only [State.serve, Semaphore.tryAcquire, hleft, dite_true]
        apply h.put
        · rw [Semaphore.waits_take, Semaphore.permits_take, if_pos rfl,
            Semaphore.waits_eq_nil hleft]
          exact hgranted (Semaphore.waits_eq_nil hleft)
        · intro j hj
          rw [Semaphore.permits_take, if_neg hj]
          exact ⟨rfl, rfl⟩
      · simp only [State.serve, Semaphore.tryAcquire, hleft, dite_false]
        exact h.put hrefused (fun _ _ => ⟨rfl, rfl⟩)

/-- A transfer that is dropped returns all it had. -/
theorem Inv.abort (h : Inv s) (i : ι) : Inv (s.abort i) := by
  apply Owes.releaseAll
  intro j
  by_cases hj : j = i
  · subst hj
    refine ⟨0, ?_, ?_⟩
    · rw [if_pos rfl, Nat.zero_add]
      rfl
    · simp only [State.put, Function.update_self]
      exact ⟨Semaphore.waits_cancel_self, rfl⟩
  · refine ⟨s.slots.permits j, ?_, ?_⟩
    · rw [if_neg hj]
      rfl
    · simp only [State.put, Function.update_of_ne hj, Semaphore.waits_cancel_of_ne hj]
      exact h j

/-- Every step in which the blocks are asked for in order keeps the account. -/
theorem step_inv {action : Action ι} (hok : AsksInOrder s action) (h : Inv s)
    (hstep : step s action = some t) : Inv t := by
  cases action with
  | download i count =>
      simp only [step] at hstep
      split at hstep
      case isTrue hidle =>
          obtain rfl := Option.some.inj hstep
          -- A transfer that is not there holds no permit and waits for none.
          have hfree := h i
          rw [hidle] at hfree
          refine h.put ?_ (fun _ _ => ⟨rfl, rfl⟩)
          rw [hfree.1, hfree.2]
          exact Download.start_ok count
      case isFalse => cases hstep
  | upload i blocks thumbnails =>
      simp only [step] at hstep
      split at hstep
      case isTrue hidle =>
          obtain rfl := Option.some.inj hstep
          have hfree := h i
          rw [hidle] at hfree
          refine h.put ?_ (fun _ _ => ⟨rfl, rfl⟩)
          rw [hfree.1, hfree.2]
          exact Upload.start_ok blocks thumbnails
      case isFalse => cases hstep
  | abort i =>
      obtain rfl := Option.some.inj hstep
      exact h.abort i
  | move i move =>
      obtain ⟨demand, hact, rfl⟩ := Option.map_eq_some_iff.mp hstep
      apply h.serve
      exact (h i).act hok hact

/-- **The transfers of one pool do not deadlock**, whatever their number, their sizes and the order
in which their requests complete, as long as the block futures of each download ask in index
order. -/
theorem not_deadlock (hcapacity : 1 ≤ capacity) {schedule : List (Action ι)}
    (hok : machine.Along AsksInOrder (initial : State capacity ι) schedule)
    (hrun : machine.exec initial schedule = some s) : ¬ Deadlock s := by
  rintro ⟨⟨i, hopen⟩, hstuck⟩
  have hinv : Inv s := machine.exec_invariant_along Inv step_inv hok initial_inv hrun
  have hmove : ∀ j, (s.transfer j).Unfinished → s.slots.permits j = 0 ∧ s.slots.waits j ≠ [] := by
    intro j hj
    apply ((hinv j).act_or_starved hj).resolve_left
    rintro ⟨move, hact⟩
    obtain ⟨demand, hact⟩ := Option.isSome_iff_exists.mp hact
    have hnone : step s (.move j move) = none := hstuck j move
    simp [step, hact] at hnone
  -- Somebody waits, so somebody holds a permit, and that one can move.
  obtain ⟨j, hheld⟩ := Semaphore.exists_holder hcapacity (hmove i hopen).2
  exact hheld (hmove j ((hinv j).unfinished hheld)).1

end Runs

/-- A download and an upload share one permit: the second block and the encryptor wait for it. -/
theorem shared_permit_not_deadlock :
    ∃ s : State 1 Bool,
      machine.exec initial [.download false 2, .upload true 1 0, .move false .push,
        .move false .push, .move false (.poll false), .move false (.poll false),
        .move true .fill] = some s ∧
      s.slots.queue = [(false, 1), (true, 0)] ∧ ¬ Deadlock s := by
  have hexec : ∃ s : State 1 Bool,
      machine.exec initial [.download false 2, .upload true 1 0, .move false .push,
        .move false .push, .move false (.poll false), .move false (.poll false),
        .move true .fill] = some s ∧ s.slots.queue = [(false, 1), (true, 0)] := ⟨_, rfl, rfl⟩
  obtain ⟨s, hrun, hqueue⟩ := hexec
  exact ⟨s, hrun, hqueue, not_deadlock (Nat.le_refl 1) (by decide) hrun⟩

/-- Three blocks and one permit. The first two futures find the budget spent, so the third asks
first; its block is decrypted and keeps the permit until the first one is consumed, which waits for
it. -/
theorem spent_budget_deadlock :
    ∃ s : State 1 Unit,
      machine.exec initial [.download () 3, .move () .push, .move () .push, .move () .push,
        .move () (.poll true), .move () (.poll true), .move () (.poll false),
        .move () (.poll false), .move () (.poll false), .move () (.fetched 2)] = some s ∧
      Deadlock s := by
  refine ⟨_, rfl, ⟨(), ?_⟩, ?_⟩
  · show 0 < 3
    decide
  · intro i move
    cases move <;> rfl

end ProtonDrive.Permits
