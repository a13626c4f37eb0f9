import Mathlib
import ProtonDrive.Lib.Blocks
import ProtonDrive.Lib.Machine
import ProtonDrive.Sdk.OpenPgp

/-!
# Writing the blocks of a file

`write_blocks` reads a source block by block, encrypts up to four blocks at a time, hands them to an
uploader over a channel, and stores them in batches in which up to five uploads are under way. Reads
may be short or interrupted, the two halves take turns in any way, and the uploads of a batch end in
any order.

* `readFullBlock_eq_ok` — a block is full unless the source is at its end.
* `UploadInv` — every block that has been read is in one place, under its index.
* `upload_finished` — what has been stored when a run is over.
* `upload_finishes` — every run can be brought to its end, and no run goes on for ever.
-/

namespace ProtonDrive.Content

open OpenPgp (Bytes)

/-- Blocks are 4 MiB of plaintext each. -/
def defaultBlockSize : Nat := 1 <<< 22

theorem defaultBlockSize_pos : 0 < defaultBlockSize := by decide

/-! ## Reading -/

/-- How a source answers a `read`: with at most `n + 1` bytes, or with an error. -/
inductive ReadEvent where
  | short (n : Nat)
  | interrupted
  | failed (text : String)
  deriving DecidableEq, Repr

/-- The bytes still to come, and how the next reads are answered. A read that nothing is said about
delivers all that is asked for. -/
structure Source where
  events : List ReadEvent
  rest : Bytes
  deriving DecidableEq, Repr

def readError (text : String) : ProtonError := .invalidOperation ("read block: " ++ text)

/-- Read until `want` bytes are there or the source is at its end. -/
def readFullBlock : (want : Nat) → List ReadEvent → Bytes → Except ProtonError (Bytes × Source)
  | 0, events, rest => .ok ([], ⟨events, rest⟩)
  | want + 1, [], rest => .ok (rest.take (want + 1), ⟨[], rest.drop (want + 1)⟩)
  | want + 1, .interrupted :: events, rest => readFullBlock (want + 1) events rest
  | _ + 1, .failed text :: _, _ => .error (readError text)
  | want + 1, .short n :: events, rest =>
      let got := rest.take (min (n + 1) (want + 1))
      -- `Ok(0)` is the end of the source.
      if got.isEmpty then .ok ([], ⟨events, rest⟩)
      else
        (readFullBlock (want + 1 - got.length) events (rest.drop got.length)).map
          (fun (block, source) => (got ++ block, source))

/-- A part of what is wanted, and then the rest of it. -/
theorem take_append_take_drop (l : Bytes) {k want : Nat} (h : k ≤ want) :
    l.take k ++ (l.drop (l.take k).length).take (want - (l.take k).length) = l.take want ∧
      (l.drop (l.take k).length).drop (want - (l.take k).length) = l.drop want := by
  have hdrop : l.drop (l.take k).length = l.drop k := by
    rw [List.length_take, List.drop_eq_drop_iff]
    omega
  have hlen : (l.take k).length ≤ k := by
    rw [List.length_take]
    omega
  refine ⟨?_, ?_⟩
  · rw [hdrop]
    have htake : (l.drop k).take (want - (l.take k).length) = (l.drop k).take (want - k) := by
      rw [List.take_eq_take_iff, List.length_drop, List.length_take]
      omega
    rw [htake, ← List.take_add, Nat.add_sub_cancel' h]
  · rw [List.drop_drop]
    congr 1
    omega

/-- **Short and interrupted reads do not show.** -/
theorem readFullBlock_eq_ok {want : Nat} {events : List ReadEvent} {rest block : Bytes}
    {source : Source} (h : readFullBlock want events rest = .ok (block, source)) :
    block = rest.take want ∧ source.rest = rest.drop want := by
  induction events generalizing want rest block source with
  | nil =>
      cases want with
      | zero =>
          cases h
          exact ⟨rfl, rfl⟩
      | succ want =>
          cases h
          exact ⟨rfl, rfl⟩
  | cons event events ih =>
      cases want with
      | zero =>
          cases h
          exact ⟨rfl, rfl⟩
      | succ want =>
          cases event with
          | interrupted => exact ih h
          | failed text => cases h
          | short n =>
              simp only [readFullBlock] at h
              split at h
              · next hempty =>
                -- Nothing came although something was asked for: the source is at its end.
                cases h
                have hrest : rest = [] := by
                  rcases List.take_eq_nil_iff.mp (List.isEmpty_iff.mp hempty) with hzero | hnil
                  · omega
                  · exact hnil
                subst hrest
                exact ⟨rfl, rfl⟩
              · obtain ⟨⟨tail, source'⟩, hread, hpair⟩ := Except.map_eq_ok.mp h
                cases hpair
                obtain ⟨htail, hsource⟩ := ih hread
                rw [htail, hsource]
                exact take_append_take_drop rest (by omega)

/-- A source that does not fail is read. -/
theorem readFullBlock_ok {want : Nat} {events : List ReadEvent} {rest : Bytes}
    (h : ∀ text, .failed text ∉ events) :
    ∃ source, readFullBlock want events rest = .ok (rest.take want, source) ∧
      source.rest = rest.drop want ∧ ∀ text, .failed text ∉ source.events := by
  induction events generalizing want rest with
  | nil =>
      cases want with
      | zero => exact ⟨_, rfl, rfl, h⟩
      | succ want => exact ⟨_, rfl, rfl, h⟩
  | cons event events ih =>
      have hrest : ∀ text, .failed text ∉ events :=
        fun text hmem => h text (List.mem_cons_of_mem _ hmem)
      cases want with
      | zero => exact ⟨_, rfl, rfl, h⟩
      | succ want =>
          -- An interrupted read is made again, a short one is added to.
          cases event with
          | interrupted => exact ih hrest
          | failed text => exact absurd List.mem_cons_self (h text)
          | short n =>
              simp only [readFullBlock]
              split
              · -- Nothing was read: the end of the contents.
                next hempty =>
                have hnil : rest = [] := by
                  rcases List.take_eq_nil_iff.mp (List.isEmpty_iff.mp hempty) with hzero | hnil
                  · omega
                  · exact hnil
                subst hnil
                exact ⟨_, rfl, rfl, hrest⟩
              · obtain ⟨source, hread, hsource, hhealthy⟩ := ih hrest
                refine ⟨source, ?_, ?_, hhealthy⟩
                · rw [hread]
                  exact congrArg (fun b => Except.ok (b, source))
                    (take_append_take_drop rest (by omega)).1
                · rw [hsource]
                  exact (take_append_take_drop rest (by omega)).2

/-! ## The pipeline -/

/-- How blocks are encrypted; the first argument of `encrypt` is chosen at random. -/
structure Cipher where
  encrypt : Nat → Bytes → Bytes
  decrypt : Bytes → Except ProtonError Bytes
  /-- SHA-256. -/
  digest : Bytes → Bytes
  /-- The hex of the SHA-1. -/
  sha1Hex : Bytes → String
  decrypt_encrypt : ∀ r plaintext, decrypt (encrypt r plaintext) = .ok plaintext

structure PreparedBlock where
  index : Nat
  ciphertext : Bytes
  digest : Bytes
  deriving DecidableEq, Repr

structure EncryptedThumbnail where
  thumbnailType : Int
  ciphertext : Bytes
  digest : Bytes
  deriving DecidableEq, Repr

inductive UploadJob where
  | block (b : PreparedBlock)
  | thumbnail (t : EncryptedThumbnail)
  deriving DecidableEq, Repr

def maxConcurrentBlockEncrypts : Nat := 4

def maxBufferedUploadBlocks : Nat := 4

def maxConcurrentBlockUploads : Nat := 5

/-- A `write_blocks` call in progress, and what the server has stored. Indices are 1-based. -/
structure Upload where
  source : Source
  drained : Bool
  blockSizes : List Nat
  totalSize : Nat
  /-- What the SHA-1 has been fed. -/
  hashed : Bytes
  index : Nat
  /-- The blocks being encrypted, the oldest first. -/
  encrypting : List (Nat × Bytes)
  channel : List PreparedBlock
  /-- The encryptor has returned. -/
  closed : Bool
  pendingThumbnails : List EncryptedThumbnail
  /-- The jobs of the current batch that are not done. -/
  jobs : List UploadJob
  /-- The index and digest of each stored block, in the order of completion. -/
  digests : List (Nat × Bytes)
  finished : Bool
  error : Option ProtonError
  storedBlocks : List (Nat × Bytes)
  storedThumbnails : List EncryptedThumbnail
  deriving DecidableEq, Repr

/-- `thumbnails` are encrypted in the order of their types. -/
def Upload.start (source : Source) (thumbnails : List EncryptedThumbnail) : Upload where
  source := source
  drained := false
  blockSizes := []
  totalSize := 0
  hashed := []
  index := 1
  encrypting := []
  channel := []
  closed := false
  pendingThumbnails := sortByKey EncryptedThumbnail.thumbnailType thumbnails
  jobs := []
  digests := []
  finished := false
  error := none
  storedBlocks := []
  storedThumbnails := []

inductive UploadAction where
  /-- The encryptor reads a block. -/
  | read
  /-- The oldest encryption is done and its block goes into the channel. -/
  | send (random : Nat)
  /-- The encryptor returns. -/
  | close
  /-- The uploader takes some blocks off the channel. -/
  | recv (count : Nat)
  /-- The uploader sends thumbnails that had no block to go with. -/
  | flush
  /-- A job of the batch is stored. -/
  | store (job : UploadJob)
  /-- The uploader returns. -/
  | finish
  /-- One of the two halves fails. -/
  | fail (e : ProtonError)
  deriving DecidableEq, Repr

def prepareBlock (cipher : Cipher) (random index : Nat) (plaintext : Bytes) : PreparedBlock where
  index := index
  ciphertext := cipher.encrypt random plaintext
  digest := cipher.digest (cipher.encrypt random plaintext)

/-- What a stored job adds. -/
def Upload.record (u : Upload) : UploadJob → Upload
  | .block b =>
      { u with
        digests := u.digests ++ [(b.index, b.digest)]
        storedBlocks := u.storedBlocks ++ [(b.index, b.ciphertext)] }
  | .thumbnail t => { u with storedThumbnails := u.storedThumbnails ++ [t] }

/-- A read, and what is kept of the block. -/
def Upload.readBlock (u : Upload) : Upload :=
  match readFullBlock defaultBlockSize u.source.events u.source.rest with
  | .error e => { u with error := some e }
  | .ok ([], source) => { u with source := source, drained := true }
  | .ok (buf, source) =>
      { u with
        source := source
        blockSizes := u.blockSizes ++ [buf.length]
        totalSize := u.totalSize + buf.length
        hashed := u.hashed ++ buf
        index := u.index + 1
        encrypting := u.encrypting ++ [(u.index, buf)] }

def uploadStep (cipher : Cipher) (u : Upload) (a : UploadAction) : Option Upload :=
  if u.error.isSome || u.finished then none
  else
    match a with
    | .read =>
        if !u.drained && u.encrypting.length < maxConcurrentBlockEncrypts then some u.readBlock
        else none
    | .send random =>
        match u.encrypting with
        | [] => none
        | (index, plaintext) :: encrypting =>
            if u.channel.length < maxBufferedUploadBlocks then
              some { u with
                encrypting := encrypting
                channel := u.channel ++ [prepareBlock cipher random index plaintext] }
            else none
    | .close =>
        if u.drained && u.encrypting.isEmpty && !u.closed then some { u with closed := true }
        else none
    | .recv count =>
        if u.jobs.isEmpty && 0 < count && count ≤ maxBufferedUploadBlocks + 1 &&
            count ≤ u.channel.length then
          some { u with
            channel := u.channel.drop count
            pendingThumbnails := []
            jobs := u.pendingThumbnails.map .thumbnail ++ (u.channel.take count).map .block }
        else none
    | .flush =>
        if u.jobs.isEmpty && u.closed && u.channel.isEmpty && !u.pendingThumbnails.isEmpty then
          some { u with pendingThumbnails := [], jobs := u.pendingThumbnails.map .thumbnail }
        else none
    | .store job =>
        if job ∈ u.jobs.take maxConcurrentBlockUploads then
          some { u.record job with jobs := u.jobs.erase job }
        else none
    | .finish =>
        if u.jobs.isEmpty && u.closed && u.channel.isEmpty && u.pendingThumbnails.isEmpty then
          some { u with finished := true }
        else none
    | .fail e => some { u with error := some e }

def uploads (cipher : Cipher) : Machine Upload UploadAction := ⟨uploadStep cipher⟩

/-! ## The result -/

structure BlockWriteResult where
  manifest : Bytes
  blockSizes : List Nat
  totalSize : Nat
  sha1Hex : String
  deriving DecidableEq, Repr

/-- The digests of the thumbnails, and those of the blocks in the order of their indices. -/
def assembleManifest (thumbnails : List Bytes) (blocks : List (Nat × Bytes)) : Bytes :=
  thumbnails.flatten ++ ((sortByKey Prod.fst blocks).map Prod.snd).flatten

def storedTooFew (stored read : Nat) : ProtonError :=
  .invalidOperation ("upload stored " ++ toString stored ++ " of " ++ toString read ++
    " content blocks")

/-- What `write_blocks` returns when both halves have. -/
def Upload.result (u : Upload) (cipher : Cipher) (thumbnails : List EncryptedThumbnail) :
    Except ProtonError BlockWriteResult :=
  if u.digests.length ≠ u.blockSizes.length then
    .error (storedTooFew u.digests.length u.blockSizes.length)
  else
    .ok {
      manifest := assembleManifest
        ((sortByKey EncryptedThumbnail.thumbnailType thumbnails).map EncryptedThumbnail.digest)
        u.digests
      blockSizes := u.blockSizes
      totalSize := u.totalSize
      sha1Hex := cipher.sha1Hex u.hashed }

/-- What `seal_revision` writes into the extended attributes of a file. -/
structure CommonExtendedAttributes where
  size : Option Nat
  modificationTime : Option String
  blockSizes : Option (List Nat)
  sha1 : Option String
  deriving DecidableEq, Repr

def sealAttributes (written : BlockWriteResult) (modificationTime : Option String) :
    CommonExtendedAttributes where
  size := some written.totalSize
  modificationTime := modificationTime
  blockSizes := some written.blockSizes
  sha1 := some written.sha1Hex

/-! ## The invariant -/

def UploadJob.block? : UploadJob → Option PreparedBlock
  | .block b => some b
  | .thumbnail _ => none

def UploadJob.thumbnail? : UploadJob → Option EncryptedThumbnail
  | .block _ => none
  | .thumbnail t => some t

def Upload.jobBlocks (u : Upload) : List PreparedBlock := u.jobs.filterMap UploadJob.block?

def Upload.jobThumbnails (u : Upload) : List EncryptedThumbnail :=
  u.jobs.filterMap UploadJob.thumbnail?

/-- The ciphertext is of the block with this 1-based index. -/
def EncryptsBlock (cipher : Cipher) (data : Bytes) (index : Nat) (ciphertext : Bytes) : Prop :=
  ∃ random, ciphertext = cipher.encrypt random (block defaultBlockSize data (index - 1))

/-- Every block that has been read is in one place, under its index. -/
structure UploadInv (cipher : Cipher) (data : Bytes) (thumbnails : List EncryptedThumbnail)
    (u : Upload) : Prop where
  rest_eq : u.source.rest = data.drop (u.blockSizes.length * defaultBlockSize)
  count_le : u.blockSizes.length ≤ blockCount defaultBlockSize data
  sizes_eq : u.blockSizes =
    (List.range u.blockSizes.length).map (fun i => (block defaultBlockSize data i).length)
  total_eq : u.totalSize = u.blockSizes.sum
  hashed_eq : u.hashed = data.take (u.blockSizes.length * defaultBlockSize)
  index_eq : u.index = u.blockSizes.length + 1
  drained : u.drained = true → u.blockSizes.length = blockCount defaultBlockSize data
  closed : u.closed = true → u.drained = true ∧ u.encrypting = []
  plaintext : ∀ e ∈ u.encrypting, e.2 = block defaultBlockSize data (e.1 - 1)
  prepared : ∀ b ∈ u.jobBlocks ++ u.channel, EncryptsBlock cipher data b.index b.ciphertext ∧
    b.digest = cipher.digest b.ciphertext
  digests_eq : u.digests = u.storedBlocks.map (fun b => (b.1, cipher.digest b.2))
  stored : ∀ b ∈ u.storedBlocks, EncryptsBlock cipher data b.1 b.2
  indices : (u.storedBlocks.map Prod.fst ++ ((u.jobBlocks ++ u.channel).map PreparedBlock.index ++
    u.encrypting.map Prod.fst)).Perm (List.range' 1 u.blockSizes.length)
  thumbnails_perm :
    (u.storedThumbnails ++ (u.jobThumbnails ++ u.pendingThumbnails)).Perm thumbnails
  finished : u.finished = true → u.closed = true ∧ u.channel = [] ∧ u.jobs = [] ∧
    u.pendingThumbnails = []

variable {cipher : Cipher} {data : Bytes} {thumbnails : List EncryptedThumbnail} {u u' : Upload}

theorem UploadInv.start (events : List ReadEvent) :
    UploadInv cipher data thumbnails (.start ⟨events, data⟩ thumbnails) where
  rest_eq := by simp [Upload.start]
  count_le := Nat.zero_le _
  sizes_eq := rfl
  total_eq := rfl
  hashed_eq := by simp [Upload.start]
  index_eq := rfl
  drained := fun h => nomatch h
  closed := fun h => nomatch h
  plaintext := fun _ h => nomatch h
  prepared := fun _ h => nomatch h
  digests_eq := rfl
  stored := fun _ h => nomatch h
  indices := List.Perm.refl _
  thumbnails_perm := sortByKey_perm _ thumbnails
  finished := fun h => nomatch h

theorem UploadInv.readBlock (h : UploadInv cipher data thumbnails u) (hdrained : u.drained = false)
    (hfinished : u.finished = false) : UploadInv cipher data thumbnails u.readBlock := by
  unfold Upload.readBlock
  have hclosed : u.closed = false := by
    cases hc : u.closed with
    | false => rfl
    | true => exact absurd (h.closed hc).1 (by simp [hdrained])
  split
  · exact { h with finished := fun hf => h.finished hf }
  · next source hread =>
    obtain ⟨hnil, hrest⟩ := readFullBlock_eq_ok hread
    -- An empty read: everything has been read.
    have hend : data.drop (u.blockSizes.length * defaultBlockSize) = [] := by
      rw [← h.rest_eq]
      rcases List.take_eq_nil_iff.mp hnil.symm with hzero | hnil
      · exact absurd hzero (by decide)
      · exact hnil
    have hcount : blockCount defaultBlockSize data ≤ u.blockSizes.length := by
      rw [List.drop_eq_nil_iff] at hend
      by_contra hlt
      have := (lt_blockCount defaultBlockSize_pos data _).mp (Nat.not_le.mp hlt)
      omega
    exact { h with
      rest_eq := by rw [hrest, h.rest_eq, hend, List.drop_nil]
      drained := fun _ => Nat.le_antisymm h.count_le hcount
      closed := fun hc => absurd hc (by simp [hclosed])
      finished := fun hf => absurd hf (by simp [hfinished]) }
  · next buf source hne hread =>
    obtain ⟨hbuf, hrest⟩ := readFullBlock_eq_ok hread
    have hblock : buf = block defaultBlockSize data u.blockSizes.length := by
      rw [hbuf, h.rest_eq]
      rfl
    have hlt : u.blockSizes.length < blockCount defaultBlockSize data := by
      by_contra hle
      rw [block_eq_nil defaultBlockSize_pos (Nat.not_lt.mp hle)] at hblock
      exact hne hblock
    refine { h with
      rest_eq := ?_, count_le := ?_, sizes_eq := ?_, total_eq := ?_, hashed_eq := ?_, index_eq := ?_
      drained := ?_, closed := ?_, plaintext := ?_, indices := ?_, finished := ?_ }
    · rw [hrest, h.rest_eq, List.drop_drop]
      simp [Nat.succ_mul]
    · rw [List.length_append]
      exact hlt
    · simp only [List.length_append, List.length_singleton, List.range_succ, List.map_append,
        List.map_cons, List.map_nil]
      rw [← h.sizes_eq, hblock]
    · simp [h.total_eq]
    · simp only [List.length_append, List.length_singleton, Nat.succ_mul, List.take_add]
      rw [h.hashed_eq, hblock]
      rfl
    · simp [h.index_eq]
    · intro hd
      exact absurd hd (by simp [hdrained])
    · intro hc
      exact absurd hc (by simp [hclosed])
    · intro e he
      rcases List.mem_append.mp he with he | he
      · exact h.plaintext e he
      · rw [List.mem_singleton.mp he, hblock]
        simp [h.index_eq]
    · have hindices := h.indices
      simp only [Upload.jobBlocks, List.length_append, List.length_singleton, List.map_append,
        List.map_cons, List.map_nil, List.range'_1_concat, ← List.append_assoc] at hindices ⊢
      rw [h.index_eq, Nat.add_comm 1]
      exact hindices.append_right _
    · intro hf
      exact absurd hf (by simp [hfinished])

theorem UploadInv.send (h : UploadInv cipher data thumbnails u) {index : Nat} {plaintext : Bytes}
    {encrypting : List (Nat × Bytes)} (hfront : u.encrypting = (index, plaintext) :: encrypting)
    (random : Nat) (hfinished : u.finished = false) :
    UploadInv cipher data thumbnails { u with
      encrypting := encrypting
      channel := u.channel ++ [prepareBlock cipher random index plaintext] } := by
  refine { h with closed := ?_, plaintext := ?_, prepared := ?_, indices := ?_, finished := ?_ }
  · intro hc
    rw [(h.closed hc).2] at hfront
    cases hfront
  · intro e he
    exact h.plaintext e (by rw [hfront]; exact List.mem_cons_of_mem _ he)
  · -- The block that is sent was encrypted from its part of the contents.
    intro b hb
    rw [← List.append_assoc] at hb
    rcases List.mem_append.mp hb with hb | hb
    · exact h.prepared b hb
    · rw [List.mem_singleton.mp hb]
      refine ⟨⟨random, ?_⟩, rfl⟩
      have hplain : plaintext = block defaultBlockSize data (index - 1) :=
        h.plaintext (index, plaintext) (by rw [hfront]; exact List.mem_cons_self)
      show cipher.encrypt random plaintext = _
      rw [hplain]
      rfl
  · have hindices := h.indices
    rw [hfront] at hindices
    simpa [Upload.jobBlocks, prepareBlock] using hindices
  · intro hf
    exact absurd hf (by simp [hfinished])

theorem block?_jobs (ts : List EncryptedThumbnail) (bs : List PreparedBlock) :
    (ts.map UploadJob.thumbnail ++ bs.map UploadJob.block).filterMap UploadJob.block? = bs := by
  simp [List.filterMap_map, Function.comp_def, UploadJob.block?]

theorem thumbnail?_jobs (ts : List EncryptedThumbnail) (bs : List PreparedBlock) :
    (ts.map UploadJob.thumbnail ++ bs.map UploadJob.block).filterMap UploadJob.thumbnail? = ts := by
  simp [List.filterMap_map, Function.comp_def, UploadJob.thumbnail?]

theorem UploadInv.recv (h : UploadInv cipher data thumbnails u) (hjobs : u.jobs = []) (count : Nat)
    (hfinished : u.finished = false) :
    UploadInv cipher data thumbnails { u with
      channel := u.channel.drop count
      pendingThumbnails := []
      jobs := u.pendingThumbnails.map .thumbnail ++ (u.channel.take count).map .block } := by
  -- The jobs before are done, so the new ones are all there is.
  have hnone : u.jobBlocks = [] := by simp [Upload.jobBlocks, hjobs]
  have hnone' : u.jobThumbnails = [] := by simp [Upload.jobThumbnails, hjobs]
  refine { h with prepared := ?_, indices := ?_, thumbnails_perm := ?_, finished := ?_ }
  · intro b hb
    simp only [Upload.jobBlocks, block?_jobs, List.take_append_drop] at hb
    exact h.prepared b (by rw [hnone]; exact hb)
  · have hindices := h.indices
    rw [hnone, List.nil_append] at hindices
    simpa only [Upload.jobBlocks, block?_jobs, List.take_append_drop] using hindices
  · have hperm := h.thumbnails_perm
    rw [hnone', List.nil_append] at hperm
    simpa only [Upload.jobThumbnails, thumbnail?_jobs, List.append_nil] using hperm
  · intro hf
    exact absurd hf (by simp [hfinished])

theorem UploadInv.flush (h : UploadInv cipher data thumbnails u) (hjobs : u.jobs = [])
    (hfinished : u.finished = false) :
    UploadInv cipher data thumbnails { u with
      pendingThumbnails := []
      jobs := u.pendingThumbnails.map .thumbnail } := by
  have hrecv := h.recv hjobs 0 hfinished
  simpa using hrecv

theorem UploadInv.store (h : UploadInv cipher data thumbnails u) {job : UploadJob}
    (hjob : job ∈ u.jobs) (hfinished : u.finished = false) :
    UploadInv cipher data thumbnails { u.record job with jobs := u.jobs.erase job } := by
  have hperm : u.jobs.Perm (job :: u.jobs.erase job) := List.perm_cons_erase hjob
  have hblocks := hperm.filterMap UploadJob.block?
  have hthumbs := hperm.filterMap UploadJob.thumbnail?
  have hnot : ∀ {p : Prop}, u.finished = true → p := fun hf => absurd hf (by simp [hfinished])
  -- A block adds to the digests and to what is stored, a thumbnail only to the latter.
  cases job with
  | block b =>
      simp only [List.filterMap_cons, UploadJob.block?, UploadJob.thumbnail?] at hblocks hthumbs
      have hb := h.prepared b (List.mem_append_left _ (hblocks.mem_iff.mpr List.mem_cons_self))
      refine { h with
        prepared := ?_, digests_eq := ?_, stored := ?_, indices := ?_, thumbnails_perm := ?_
        finished := hnot }
      · intro b' hb'
        rcases List.mem_append.mp hb' with hb' | hb'
        · exact h.prepared b' (List.mem_append_left _
            (hblocks.mem_iff.mpr (List.mem_cons_of_mem _ hb')))
        · exact h.prepared b' (List.mem_append_right _ hb')
      · simp [Upload.record, h.digests_eq, hb.2]
      · intro b' hb'
        rcases List.mem_append.mp hb' with hb' | hb'
        · exact h.stored b' hb'
        · rw [List.mem_singleton.mp hb']
          exact hb.1
      · -- The index moves from the jobs to the blocks stored.
        refine List.Perm.trans ?_ h.indices
        simp only [Upload.record, Upload.jobBlocks, List.map_append, List.map_cons, List.map_nil,
          List.append_assoc]
        apply List.Perm.append_left _
        have hmap := (hblocks.map PreparedBlock.index).symm
        exact (hmap.append_right _)
      · refine List.Perm.trans ?_ h.thumbnails_perm
        exact (hthumbs.symm.append_right _).append_left _
  | thumbnail t =>
      simp only [List.filterMap_cons, UploadJob.block?, UploadJob.thumbnail?] at hblocks hthumbs
      refine { h with prepared := ?_, indices := ?_, thumbnails_perm := ?_, finished := hnot }
      · intro b hb
        rcases List.mem_append.mp hb with hb | hb
        · exact h.prepared b (List.mem_append_left _ (hblocks.mem_iff.mpr hb))
        · exact h.prepared b (List.mem_append_right _ hb)
      · refine List.Perm.trans ?_ h.indices
        refine List.Perm.append_left _ (List.Perm.append_right _ ?_)
        exact ((hblocks.symm).append_right _).map _
      · refine List.Perm.trans ?_ h.thumbnails_perm
        simp only [Upload.record, Upload.jobThumbnails, List.append_assoc]
        apply List.Perm.append_left _
        exact hthumbs.symm.append_right _

/-- The effect of every action, with its guard. -/
inductive UploadStep (cipher : Cipher) (u : Upload) : Upload → Prop where
  | read : u.drained = false → UploadStep cipher u u.readBlock
  | send {random index plaintext encrypting} :
      u.encrypting = (index, plaintext) :: encrypting →
      u.channel.length < maxBufferedUploadBlocks →
      UploadStep cipher u { u with
        encrypting := encrypting
        channel := u.channel ++ [prepareBlock cipher random index plaintext] }
  | close : u.drained = true → u.encrypting = [] → u.closed = false →
      UploadStep cipher u { u with closed := true }
  | recv {count} : u.jobs = [] → 0 < count → count ≤ u.channel.length →
      UploadStep cipher u { u with
        channel := u.channel.drop count
        pendingThumbnails := []
        jobs := u.pendingThumbnails.map .thumbnail ++ (u.channel.take count).map .block }
  | flush : u.jobs = [] → u.closed = true → u.channel = [] → u.pendingThumbnails ≠ [] →
      UploadStep cipher u { u with
        pendingThumbnails := []
        jobs := u.pendingThumbnails.map .thumbnail }
  | store {job} : job ∈ u.jobs →
      UploadStep cipher u { u.record job with jobs := u.jobs.erase job }
  | finish : u.jobs = [] → u.closed = true → u.channel = [] → u.pendingThumbnails = [] →
      UploadStep cipher u { u with finished := true }
  | fail {e} : UploadStep cipher u { u with error := some e }

/-- A step is taken by a run that is neither over nor failed. -/
theorem uploadStep_cases {a : UploadAction} (hstep : uploadStep cipher u a = some u') :
    u.error = none ∧ u.finished = false ∧ UploadStep cipher u u' := by
  -- No step is possible once the upload has failed or is finished.
  unfold uploadStep at hstep
  split at hstep
  · cases hstep
  · next hgo =>
    simp only [Bool.or_eq_true, Option.isSome_iff_ne_none, not_or, not_not,
      Bool.not_eq_true] at hgo
    refine ⟨hgo.1, hgo.2, ?_⟩
    cases a with
    | read =>
        obtain ⟨hread, hu⟩ := Option.ite_none_right_eq_some.mp hstep
        cases hu
        simp only [Bool.and_eq_true, Bool.not_eq_true'] at hread
        exact .read hread.1
    | send random =>
        dsimp only at hstep
        split at hstep
        · cases hstep
        · next hfront =>
          obtain ⟨hroom, hu⟩ := Option.ite_none_right_eq_some.mp hstep
          cases hu
          exact .send hfront hroom
    | close =>
        obtain ⟨hclose, hu⟩ := Option.ite_none_right_eq_some.mp hstep
        cases hu
        simp only [Bool.and_eq_true, List.isEmpty_iff, Bool.not_eq_true'] at hclose
        exact .close hclose.1.1 hclose.1.2 hclose.2
    | recv count =>
        obtain ⟨hrecv, hu⟩ := Option.ite_none_right_eq_some.mp hstep
        cases hu
        simp only [Bool.and_eq_true, List.isEmpty_iff, decide_eq_true_eq] at hrecv
        exact .recv hrecv.1.1.1 hrecv.1.1.2 hrecv.2
    | flush =>
        obtain ⟨hflush, hu⟩ := Option.ite_none_right_eq_some.mp hstep
        cases hu
        simp only [Bool.and_eq_true, List.isEmpty_iff, Bool.not_eq_true',
          List.isEmpty_eq_false_iff] at hflush
        exact .flush hflush.1.1.1 hflush.1.1.2 hflush.1.2 hflush.2
    | store job =>
        obtain ⟨hjob, hu⟩ := Option.ite_none_right_eq_some.mp hstep
        cases hu
        exact .store (List.mem_of_mem_take hjob)
    | finish =>
        obtain ⟨hdone, hu⟩ := Option.ite_none_right_eq_some.mp hstep
        cases hu
        simp only [Bool.and_eq_true, List.isEmpty_iff] at hdone
        exact .finish hdone.1.1.1 hdone.1.1.2 hdone.1.2 hdone.2
    | fail e =>
        cases hstep
        exact .fail

theorem UploadInv.step {a : UploadAction} (h : UploadInv cipher data thumbnails u)
    (hstep : uploadStep cipher u a = some u') : UploadInv cipher data thumbnails u' := by
  obtain ⟨-, hfinished, hcase⟩ := uploadStep_cases hstep
  cases hcase with
  | read hdrained => exact h.readBlock hdrained hfinished
  | @send random _ _ _ hfront => exact h.send hfront random hfinished
  | close hdrained hencrypting =>
      exact { h with
        closed := fun _ => ⟨hdrained, hencrypting⟩
        finished := fun hf => absurd hf (by simp [hfinished]) }
  | @recv count hjobs => exact h.recv hjobs count hfinished
  | flush hjobs => exact h.flush hjobs hfinished
  | store hjob => exact h.store hjob hfinished
  | finish hjobs hclosed hchannel hpending =>
      exact { h with finished := fun _ => ⟨hclosed, hchannel, hjobs, hpending⟩ }
  | fail => exact { h with finished := h.finished }

theorem UploadInv.run {events : List ReadEvent} {as : List UploadAction}
    (h : (uploads cipher).exec (.start ⟨events, data⟩ thumbnails) as = some u) :
    UploadInv cipher data thumbnails u :=
  Machine.exec_invariant _ (UploadInv cipher data thumbnails) (fun hi hs => hi.step hs)
    (UploadInv.start events) h

/-! ## The end of a run -/

/-- What there is when both halves have returned: the blocks of the source, each under its index. -/
structure Complete (cipher : Cipher) (data : Bytes) (thumbnails : List EncryptedThumbnail)
    (u : Upload) : Prop where
  blockSizes_eq : u.blockSizes = (List.range (blockCount defaultBlockSize data)).map
    (fun i => (block defaultBlockSize data i).length)
  totalSize_eq : u.totalSize = u.blockSizes.sum
  hashed_eq : u.hashed = data
  indices : (u.storedBlocks.map Prod.fst).Perm (List.range' 1 (blockCount defaultBlockSize data))
  stored : ∀ b ∈ u.storedBlocks, EncryptsBlock cipher data b.1 b.2
  digests_eq : u.digests = u.storedBlocks.map (fun b => (b.1, cipher.digest b.2))
  thumbnails_perm : u.storedThumbnails.Perm thumbnails

/-- **A run that is over has stored the blocks of its source.** -/
theorem upload_finished {events : List ReadEvent} {as : List UploadAction}
    (hrun : (uploads cipher).exec (.start ⟨events, data⟩ thumbnails) as = some u)
    (hfinished : u.finished = true) : Complete cipher data thumbnails u := by
  have h := UploadInv.run hrun
  obtain ⟨hclosed, hchannel, hjobs, hpending⟩ := h.finished hfinished
  obtain ⟨hdrained, hencrypting⟩ := h.closed hclosed
  have hcount := h.drained hdrained
  refine ⟨?_, h.total_eq, ?_, ?_, h.stored, h.digests_eq, ?_⟩
  · have hsizes := h.sizes_eq
    rw [hcount] at hsizes
    exact hsizes
  · rw [h.hashed_eq, hcount]
    rw [← flatten_blocks_take, flatten_blocks defaultBlockSize_pos]
  · have hindices := h.indices
    rw [hcount] at hindices
    simpa [Upload.jobBlocks, hjobs, hchannel, hencrypting] using hindices
  · have hperm := h.thumbnails_perm
    simpa [Upload.jobThumbnails, hjobs, hpending] using hperm

theorem Complete.length_eq (h : Complete cipher data thumbnails u) :
    u.digests.length = u.blockSizes.length := by
  have hlen := h.indices.length_eq
  rw [h.digests_eq, h.blockSizes_eq]
  simpa using hlen

/-- The sizes add up to the length of the source. -/
theorem Complete.totalSize (h : Complete cipher data thumbnails u) :
    u.totalSize = data.length := by
  rw [h.totalSize_eq, h.blockSizes_eq]
  have hflat := congrArg List.length (flatten_blocks defaultBlockSize_pos data)
  rw [List.length_flatten, List.map_map] at hflat
  exact hflat

/-! ## Progress -/

/-- How much is left to do. -/
def Upload.work (u : Upload) (data : Bytes) : Nat :=
  5 * (blockCount defaultBlockSize data - u.blockSizes.length) + 4 * u.encrypting.length +
    3 * u.channel.length + 3 * u.pendingThumbnails.length + 2 * u.jobs.length +
    (if u.drained then 0 else 1) + (if u.closed then 0 else 1) + (if u.finished then 0 else 1) +
    (if u.error.isSome then 0 else 1)

/-- Recording a job is no work; taking it off the batch is. -/
theorem Upload.work_record (job : UploadJob) (jobs : List UploadJob) :
    ({ u.record job with jobs := jobs } : Upload).work data =
      ({ u with jobs := jobs } : Upload).work data := by
  cases job with
  | block b => rfl
  | thumbnail t => rfl

theorem work_step {a : UploadAction} (h : UploadInv cipher data thumbnails u)
    (hstep : uploadStep cipher u a = some u') : u'.work data < u.work data := by
  obtain ⟨herror, hfinished, hcase⟩ := uploadStep_cases hstep
  cases hcase with
  | read hdrained =>
      unfold Upload.readBlock
      split
      · simp [Upload.work, herror]
      · simp [Upload.work, hdrained]
      · next buf source hne hread =>
        -- A block that has been read was one of those left.
        have hle : (u.readBlock).blockSizes.length ≤ blockCount defaultBlockSize data :=
          (h.readBlock hdrained hfinished).count_le
        unfold Upload.readBlock at hle
        rw [hread] at hle
        simp only [List.length_append, List.length_singleton] at hle
        simp only [Upload.work, List.length_append, List.length_singleton]
        omega
  | send hfront =>
      simp only [Upload.work, hfront, List.length_cons, List.length_append, List.length_nil]
      omega
  | close _ _ hopen =>
      simp only [Upload.work, hopen]
      simp
  | recv hjobs hpos hle =>
      simp only [Upload.work, hjobs, List.length_append, List.length_map, List.length_drop,
        List.length_take, List.length_nil]
      omega
  | flush hjobs _ _ hpending =>
      have hpos : 0 < u.pendingThumbnails.length := List.length_pos_iff.mpr hpending
      simp only [Upload.work, hjobs, List.length_map, List.length_nil]
      omega
  | store hjob =>
      have hlen := List.length_erase_of_mem hjob
      have hpos : 0 < u.jobs.length := List.length_pos_of_mem hjob
      rw [Upload.work_record]
      simp only [Upload.work, hlen]
      omega
  | finish => simp [Upload.work, hfinished]
  | fail => simp [Upload.work, herror]

/-- A source that does not fail fails no read. -/
theorem Upload.readBlock_healthy (u : Upload) (herror : u.error = none)
    (hhealthy : ∀ text, .failed text ∉ u.source.events) :
    u.readBlock.error = none ∧ ∀ text, .failed text ∉ u.readBlock.source.events := by
  have hok : ∃ source, readFullBlock defaultBlockSize u.source.events u.source.rest =
      .ok (u.source.rest.take defaultBlockSize, source) ∧
      source.rest = u.source.rest.drop defaultBlockSize ∧
      ∀ text, .failed text ∉ source.events := readFullBlock_ok hhealthy
  obtain ⟨source, hread, -, hsource⟩ := hok
  unfold Upload.readBlock
  rw [hread]
  cases u.source.rest.take defaultBlockSize with
  | nil => exact ⟨herror, hsource⟩
  | cons x xs => exact ⟨herror, hsource⟩

/-- A source that does not fail stays one that does not. -/
theorem upload_healthy {a : UploadAction} (hhealthy : ∀ text, .failed text ∉ u.source.events)
    (hstep : uploadStep cipher u a = some u') : ∀ text, .failed text ∉ u'.source.events := by
  obtain ⟨herror, -, hcase⟩ := uploadStep_cases hstep
  cases hcase with
  | read => exact (u.readBlock_healthy herror hhealthy).2
  | @store job hjob =>
      cases job with
      | block b => exact hhealthy
      | thumbnail t => exact hhealthy
  | _ => exact hhealthy

/-- A run that has not failed, over a source that will not, has a next step that is no failure. -/
theorem upload_enabled (herror : u.error = none)
    (hfinished : u.finished = false) (hhealthy : ∀ text, .failed text ∉ u.source.events) :
    ∃ a u', uploadStep cipher u a = some u' ∧ u'.error = none ∧
      ∀ text, .failed text ∉ u'.source.events := by
  have hgo : ¬ (u.error.isSome || u.finished) = true := by simp [herror, hfinished]
  -- The last stage that holds something has a step: jobs, channel, encryptions, source.
  by_cases hjobs : u.jobs = []
  · by_cases hchannel : u.channel = []
    · cases henc : u.encrypting with
      | cons e encrypting =>
          refine ⟨.send 0, { u with
            encrypting := encrypting
            channel := u.channel ++ [prepareBlock cipher 0 e.1 e.2] }, ?_, herror, hhealthy⟩
          -- The channel is empty here, so that a block fits into it.
          have hroom : u.channel.length < maxBufferedUploadBlocks := by
            rw [hchannel]
            decide
          simp only [uploadStep, if_neg hgo, henc, if_pos hroom]
      | nil =>
          by_cases hdrained : u.drained = true
          · by_cases hclosed : u.closed = true
            · -- Everything is read: thumbnails that no block took along are flushed.
              by_cases hpending : u.pendingThumbnails = []
              · refine ⟨.finish, { u with finished := true }, ?_, herror, hhealthy⟩
                simp [uploadStep, hgo, hjobs, hclosed, hchannel, hpending]
              · refine ⟨.flush, { u with
                  pendingThumbnails := []
                  jobs := u.pendingThumbnails.map .thumbnail }, ?_, herror, hhealthy⟩
                simp [uploadStep, hgo, hjobs, hclosed, hchannel, hpending]
            · refine ⟨.close, { u with closed := true }, ?_, herror, hhealthy⟩
              simp [uploadStep, hgo, hdrained, henc, hclosed]
          · refine ⟨.read, u.readBlock, ?_, u.readBlock_healthy herror hhealthy⟩
            simp [uploadStep, hgo, hdrained, henc, maxConcurrentBlockEncrypts]
    · refine ⟨.recv 1, { u with
        channel := u.channel.drop 1
        pendingThumbnails := []
        jobs := u.pendingThumbnails.map .thumbnail ++ (u.channel.take 1).map .block },
        ?_, herror, hhealthy⟩
      have hpos : 1 ≤ u.channel.length := List.length_pos_iff.mpr hchannel
      simp [uploadStep, hgo, hjobs, hpos, maxBufferedUploadBlocks]
  · obtain ⟨job, jobs, hcons⟩ := List.exists_cons_of_ne_nil hjobs
    have hmem : job ∈ u.jobs.take maxConcurrentBlockUploads := by
      rw [hcons]
      exact List.mem_cons_self
    refine ⟨.store job, { u.record job with jobs := u.jobs.erase job }, ?_, ?_, ?_⟩
    · simp only [uploadStep, if_neg hgo, if_pos hmem]
    · cases job <;> exact herror
    · cases job <;> exact hhealthy

/-- **Every run can be brought to its end**, unless it has failed or its source does. -/
theorem upload_finishes (h : UploadInv cipher data thumbnails u) (herror : u.error = none)
    (hhealthy : ∀ text, .failed text ∉ u.source.events) :
    ∃ as u', (uploads cipher).exec u as = some u' ∧ u'.finished = true := by
  induction hwork : u.work data using Nat.strongRecOn generalizing u with
  | _ work ih =>
      cases hfinished : u.finished with
      | true => exact ⟨[], u, rfl, hfinished⟩
      | false =>
          obtain ⟨a, t, hstep, herror', hhealthy'⟩ := upload_enabled herror hfinished hhealthy
          have hlt := work_step h hstep
          obtain ⟨as, u', hexec, hdone⟩ :=
            ih (t.work data) (by omega) (h.step hstep) herror' hhealthy' rfl
          exact ⟨a :: as, u', (Machine.exec_cons_iff _).mpr ⟨t, hstep, hexec⟩, hdone⟩

/-- No run goes on for ever. -/
theorem upload_bounded {as : List UploadAction} (h : UploadInv cipher data thumbnails u)
    (hrun : (uploads cipher).exec u as = some u') : as.length ≤ u.work data := by
  induction as generalizing u with
  | nil => exact Nat.zero_le _
  | cons a as ih =>
      obtain ⟨t, hstep, hrest⟩ := (Machine.exec_cons_iff _).mp hrun
      have hlt := work_step h hstep
      have hlen := ih (h.step hstep) hrest
      simp only [List.length_cons]
      omega

end ProtonDrive.Content
