import ProtonDrive.Drive.Download

/-!
# What is uploaded is downloaded

The two halves put together: the blocks of a finished upload, listed and fetched in any order, give
the bytes of the source back, and the manifest that is signed at the end of the upload is the one
that the download recomputes.

* `content_round_trip` — the bytes.
* `manifest_agreement` — the manifest.
-/

namespace ProtonDrive.Content

open OpenPgp (Bytes)

/-! ## Sealing -/

/-- What `seal_revision` sends. -/
structure RevisionUpdateRequest where
  /-- The bytes under `manifest_signature`. -/
  manifest : Bytes
  extendedAttributes : CommonExtendedAttributes
  deriving DecidableEq, Repr

def sealRevision (written : BlockWriteResult) (modificationTime : Option String) :
    RevisionUpdateRequest where
  manifest := written.manifest
  extendedAttributes := sealAttributes written modificationTime

/-! ## The stored blocks, by position -/

variable {cipher : Cipher} {data : Bytes} {thumbnails : List EncryptedThumbnail} {u : Upload}

/-- The digest at a position, once the digests are in the order of their indices. -/
def Upload.hash (u : Upload) (i : Nat) : Bytes :=
  (((sortByKey Prod.fst u.digests).map Prod.snd)[i]?).getD []

/-- The digests in order are those of the blocks `1`, `2`, … -/
theorem Complete.sorted_indices (h : Complete cipher data thumbnails u) :
    (sortByKey Prod.fst u.digests).map Prod.fst =
      List.range' 1 (blockCount defaultBlockSize data) := by
  have hkeys : ((sortByKey Prod.fst u.digests).map Prod.fst).Pairwise (fun a b => a ≤ b) :=
    List.pairwise_map.mpr (sortByKey_pairwise _ _)
  have hrange : (List.range' 1 (blockCount defaultBlockSize data)).Pairwise (fun a b => a ≤ b) :=
    (List.pairwise_lt_range').imp (fun hlt => le_of_lt hlt)
  apply List.Perm.eq_of_pairwise (fun a b _ _ hab hba => le_antisymm hab hba) hkeys hrange
  apply ((sortByKey_perm _ u.digests).map _).trans
  rw [h.digests_eq, List.map_map]
  exact h.indices

theorem Complete.sorted_length (h : Complete cipher data thumbnails u) :
    (sortByKey Prod.fst u.digests).length = blockCount defaultBlockSize data := by
  simpa using congrArg List.length h.sorted_indices

/-- An entry that has been stored is at its position. -/
theorem Complete.hash_eq (h : Complete cipher data thumbnails u) {i : Nat} {ciphertext : Bytes}
    (hmem : (i + 1, ciphertext) ∈ u.storedBlocks) : cipher.digest ciphertext = u.hash i := by
  have hdigest : (i + 1, cipher.digest ciphertext) ∈ sortByKey Prod.fst u.digests := by
    rw [(sortByKey_perm _ _).mem_iff, h.digests_eq]
    exact List.mem_map_of_mem hmem
  obtain ⟨j, hj⟩ := List.mem_iff_getElem?.mp hdigest
  have hlt : j < blockCount defaultBlockSize data := by
    rw [← h.sorted_length]
    exact (List.getElem?_eq_some_iff.mp hj).1
  -- The index of an entry says at which position it is.
  have hindex := congrArg (fun l => l[j]?) h.sorted_indices
  simp only [List.getElem?_map, hj, List.getElem?_range' hlt, Option.map_some,
    Option.some.injEq] at hindex
  have hij : i = j := by omega
  subst hij
  simp [Upload.hash, hj]

theorem Complete.contents (h : Complete cipher data thumbnails u) :
    Contents cipher u.storedBlocks (block defaultBlockSize data) u.hash where
  plain := by
    intro i ciphertext hmem
    obtain ⟨random, heq⟩ := h.stored _ hmem
    have hplain : ciphertext = cipher.encrypt random (block defaultBlockSize data i) := heq
    rw [hplain]
    exact cipher.decrypt_encrypt random _
  hash := by
    intro i ciphertext hmem
    exact h.hash_eq hmem

/-- No block is missing. -/
theorem Complete.exists_stored (h : Complete cipher data thumbnails u) {i : Nat}
    (hi : i < blockCount defaultBlockSize data) :
    ∃ ciphertext, (i + 1, ciphertext) ∈ u.storedBlocks := by
  have hmem : i + 1 ∈ u.storedBlocks.map Prod.fst := by
    rw [h.indices.mem_iff, List.mem_range'_1]
    omega
  obtain ⟨⟨index, ciphertext⟩, hstored, heq⟩ := List.mem_map.mp hmem
  cases heq
  exact ⟨ciphertext, hstored⟩

/-- The digests in the order of the indices, as a download computes them. -/
theorem Complete.digests_sorted (h : Complete cipher data thumbnails u) :
    (sortByKey Prod.fst u.digests).map Prod.snd =
      (List.range (blockCount defaultBlockSize data)).map u.hash := by
  apply List.ext_getElem?
  intro i
  by_cases hi : i < blockCount defaultBlockSize data
  · have hlen : i < ((sortByKey Prod.fst u.digests).map Prod.snd).length := by
      rw [List.length_map, h.sorted_length]
      exact hi
    have hright : ((List.range (blockCount defaultBlockSize data)).map u.hash)[i]? =
        some (u.hash i) := by simp [hi]
    rw [hright, Upload.hash, List.getElem?_eq_getElem hlen, Option.getD_some]
  · rw [List.getElem?_eq_none, List.getElem?_eq_none]
    · simpa using hi
    · simpa [h.sorted_length] using hi

/-- `write_blocks` returns, and with what. -/
theorem Complete.result_eq (h : Complete cipher data thumbnails u) :
    u.result cipher thumbnails = .ok {
      manifest :=
        ((sortByKey EncryptedThumbnail.thumbnailType thumbnails).map
          EncryptedThumbnail.digest).flatten ++
        ((List.range (blockCount defaultBlockSize data)).map u.hash).flatten
      blockSizes := (List.range (blockCount defaultBlockSize data)).map
        (fun i => (block defaultBlockSize data i).length)
      totalSize := data.length
      sha1Hex := cipher.sha1Hex data } := by
  unfold Upload.result
  rw [if_neg (not_not.mpr h.length_eq), assembleManifest, h.digests_sorted, ← h.blockSizes_eq,
    h.totalSize, h.hashed_eq]

/-- The counters of the source are wide enough for every file of up to 4 PiB. -/
theorem Complete.fits (h : Complete cipher data thumbnails u) (hdata : data.length ≤ 2 ^ 52) :
    (∀ b ∈ u.storedBlocks, b.1 < 2 ^ 31) ∧ (∀ size ∈ u.blockSizes, size < 2 ^ 31) ∧
      u.totalSize < 2 ^ 63 := by
  refine ⟨?_, ?_, ?_⟩
  · intro b hb
    have hmem := h.indices.mem_iff.mp (List.mem_map_of_mem hb)
    rw [List.mem_range'_1] at hmem
    have hlast := (lt_blockCount defaultBlockSize_pos data (b.1 - 1)).mp (by omega)
    have hsize : defaultBlockSize = 2 ^ 22 := rfl
    rw [hsize] at hlast
    omega
  · intro size hsize
    rw [h.blockSizes_eq] at hsize
    obtain ⟨i, -, rfl⟩ := List.mem_map.mp hsize
    rw [length_block]
    have hle : defaultBlockSize < 2 ^ 31 := by decide
    omega
  · rw [h.totalSize]
    omega

/-! ## The listing -/

/-- The listing of the blocks of a finished upload, in any order, is accepted. -/
theorem Complete.orderBlocks (h : Complete cipher data thumbnails u) {collected : List BlockDto}
    (hlisted : (collected.map BlockDto.index).Perm
      (u.storedBlocks.map (fun b => Int.ofNat b.1))) :
    ∃ blocks, Content.orderBlocks collected = .ok blocks ∧
      collected.length = blockCount defaultBlockSize data := by
  have hperm : (collected.map BlockDto.index).Perm
      ((List.range' 1 (blockCount defaultBlockSize data)).map Int.ofNat) := by
    apply hlisted.trans
    have hindices := h.indices.map Int.ofNat
    rw [List.map_map] at hindices
    exact hindices
  obtain ⟨blocks, hblocks, -, -⟩ := orderBlocks_of_perm hperm
  exact ⟨blocks, hblocks, by simpa using hperm.length_eq⟩

/-- The server lists every stored thumbnail with its digest. -/
def ListsThumbnails (decode : String → Except String Bytes) (listed : List ThumbnailDto)
    (stored : List EncryptedThumbnail) : Prop :=
  (listed.map (fun t => (t.thumbnailType, t.hashDigest.map decode))).Perm
    (stored.map (fun t => (t.thumbnailType, some (.ok t.digest))))

theorem thumbnailDigests_eq {decode : String → Except String Bytes} {listed : List ThumbnailDto}
    {digests : List Bytes}
    (h : listed.map (fun t => t.hashDigest.map decode) = digests.map (fun d => some (.ok d))) :
    thumbnailDigests decode listed = .ok digests.flatten := by
  induction listed generalizing digests with
  | nil =>
      cases digests with
      | nil => rfl
      | cons d digests => simp at h
  | cons t listed ih =>
      cases digests with
      | nil => simp at h
      | cons d digests =>
          simp only [List.map_cons, List.cons.injEq] at h
          obtain ⟨hhead, htail⟩ := h
          obtain ⟨text, htext, hdecode⟩ := Option.map_eq_some_iff.mp hhead
          simp only [thumbnailDigests, htext, hdecode, ih htail, List.flatten_cons]
          rfl

theorem ListsThumbnails.decodes {decode : String → Except String Bytes}
    {listed : List ThumbnailDto} {stored : List EncryptedThumbnail}
    (h : ListsThumbnails decode listed stored) :
    ∃ manifest, thumbnailDigests decode (sortByKey ThumbnailDto.thumbnailType listed) =
      .ok manifest := by
  have hall : ∀ t ∈ sortByKey ThumbnailDto.thumbnailType listed,
      ∃ digest, t.hashDigest.map decode = some (.ok digest) := by
    intro t ht
    have hmem := h.mem_iff.mp (List.mem_map_of_mem ((sortByKey_perm _ _).mem_iff.mp ht))
    obtain ⟨t', -, heq⟩ := List.mem_map.mp hmem
    exact ⟨t'.digest, (congrArg Prod.snd heq).symm⟩
  choose! digest hdigest using hall
  have hmap : (sortByKey ThumbnailDto.thumbnailType listed).map (fun t => t.hashDigest.map decode) =
      ((sortByKey ThumbnailDto.thumbnailType listed).map digest).map (fun d => some (.ok d)) := by
    rw [List.map_map]
    exact List.map_congr_left hdigest
  exact ⟨_, thumbnailDigests_eq hmap⟩

/-- Thumbnails of different types have one order, on both sides. -/
theorem ListsThumbnails.digests {decode : String → Except String Bytes}
    {listed : List ThumbnailDto} {stored : List EncryptedThumbnail}
    (h : ListsThumbnails decode listed stored) (hperm : stored.Perm thumbnails)
    (hdistinct : (thumbnails.map EncryptedThumbnail.thumbnailType).Nodup) :
    thumbnailDigests decode (sortByKey ThumbnailDto.thumbnailType listed) =
      .ok ((sortByKey EncryptedThumbnail.thumbnailType thumbnails).map
        EncryptedThumbnail.digest).flatten := by
  let pair : EncryptedThumbnail → Int × Option (Except String Bytes) :=
    fun t => (t.thumbnailType, some (.ok t.digest))
  -- Types are distinct, so sorting by them forgets the order of the answer.
  have hnodup : ((thumbnails.map pair).map Prod.fst).Nodup := by
    rw [List.map_map]
    exact hdistinct
  have hsent : sortByKey Prod.fst (thumbnails.map pair) =
      (sortByKey EncryptedThumbnail.thumbnailType thumbnails).map pair :=
    sortByKey_eq ((sortByKey_perm _ _).map pair) hnodup
      (List.pairwise_map.mpr (sortByKey_pairwise _ _))
  have hlisted : sortByKey Prod.fst (thumbnails.map pair) =
      (sortByKey ThumbnailDto.thumbnailType listed).map
        (fun t => (t.thumbnailType, t.hashDigest.map decode)) :=
    sortByKey_eq ((((sortByKey_perm _ _).map _).trans h).trans (hperm.map pair)) hnodup
      (List.pairwise_map.mpr (sortByKey_pairwise _ _))
  apply thumbnailDigests_eq
  have hpairs := congrArg (List.map Prod.snd) (hlisted.symm.trans hsent)
  simpa [pair, List.map_map, Function.comp_def] using hpairs

/-- A download of a finished upload starts. -/
theorem Complete.download_start (h : Complete cipher data thumbnails u)
    {decode : String → Except String Bytes} (revisionId : String) {listed : List ThumbnailDto}
    {collected : List BlockDto} {manifest : Bytes}
    (hlisted : (collected.map BlockDto.index).Perm
      (u.storedBlocks.map (fun b => Int.ofNat b.1)))
    (hdigests : thumbnailDigests decode (sortByKey ThumbnailDto.thumbnailType listed) =
      .ok manifest) :
    ∃ d, Download.start decode revisionId listed collected = .ok d ∧ d.manifest = manifest ∧
      d.Healthy ∧ DownloadInv u.storedBlocks (block defaultBlockSize data) u.hash manifest
        (blockCount defaultBlockSize data) d := by
  obtain ⟨blocks, hblocks, hlength⟩ := h.orderBlocks hlisted
  have hstart : ∃ d, Download.start decode revisionId listed collected = .ok d ∧
      d.manifest = manifest ∧ d.Healthy := by
    -- Both checks pass: the blocks are in order and the digests decode.
    refine ⟨_, Except.bind_eq_ok.mpr ⟨blocks, hblocks, Except.bind_eq_ok.mpr ⟨manifest, hdigests,
      rfl⟩⟩, rfl, rfl, ?_⟩
    intro f hf
    cases hf
  obtain ⟨d, hd, hmanifest, hhealthy⟩ := hstart
  have hinv : DownloadInv u.storedBlocks (block defaultBlockSize data) u.hash d.manifest
      collected.length d := DownloadInv.start hd
  rw [hmanifest, hlength] at hinv
  exact ⟨d, hd, hmanifest, hhealthy, hinv⟩

/-! ## The bytes -/

/-- Every download from this start on writes `data`, in whatever order its fetches end: it is never
stuck, and it comes to an end. -/
structure ReadsBack (cipher : Cipher) (stored : List (Nat × Bytes)) (start : Download)
    (data : Bytes) : Prop where
  healthy : start.Healthy
  exact : ∀ as d, (downloads cipher stored).exec start as = some d → d.finished = true →
    d.output = data
  finishes : ∀ as d, (downloads cipher stored).exec start as = some d → d.Healthy →
    ∃ bs d', (downloads cipher stored).exec d bs = some d' ∧ d'.finished = true
  bounded : ∀ as d, (downloads cipher stored).exec start as = some d → as.length ≤ start.work

/-- What has been uploaded is the source, block by block, and is described as such; and it is read
back. -/
structure RoundTrips (cipher : Cipher) (data : Bytes) (thumbnails : List EncryptedThumbnail)
    (u : Upload) : Prop where
  indices : (u.storedBlocks.map Prod.fst).Perm (List.range' 1 (blockCount defaultBlockSize data))
  chunk : ∀ b ∈ u.storedBlocks, cipher.decrypt b.2 = .ok (block defaultBlockSize data (b.1 - 1))
  chunks : ((List.range (blockCount defaultBlockSize data)).map
    (block defaultBlockSize data)).flatten = data
  nonempty : ∀ i < blockCount defaultBlockSize data, block defaultBlockSize data i ≠ []
  full : ∀ i, i + 1 < blockCount defaultBlockSize data →
    (block defaultBlockSize data i).length = defaultBlockSize
  attributes : ∃ written, u.result cipher thumbnails = .ok written ∧ ∀ modificationTime,
    (sealRevision written modificationTime).extendedAttributes.blockSizes =
      some ((List.range (blockCount defaultBlockSize data)).map
        (fun i => (block defaultBlockSize data i).length)) ∧
    (sealRevision written modificationTime).extendedAttributes.size =
      some ((List.range (blockCount defaultBlockSize data)).map
        (fun i => (block defaultBlockSize data i).length)).sum
  readsBack : ∀ decode revisionId listed collected,
    (collected.map BlockDto.index).Perm (u.storedBlocks.map (fun b => Int.ofNat b.1)) →
    ListsThumbnails decode listed u.storedThumbnails →
    ∃ start, Download.start decode revisionId listed collected = .ok start ∧
      ReadsBack cipher u.storedBlocks start data

theorem Complete.readsBack (h : Complete cipher data thumbnails u) {start : Download}
    {manifest : Bytes} (hhealthy : start.Healthy)
    (hinv : DownloadInv u.storedBlocks (block defaultBlockSize data) u.hash manifest
      (blockCount defaultBlockSize data) start) :
    ReadsBack cipher u.storedBlocks start data where
  healthy := hhealthy
  exact := by
    intro as d hrun hfinished
    rw [(download_finished h.contents hinv hrun hfinished).1]
    exact flatten_blocks defaultBlockSize_pos data
  finishes := by
    intro as d hrun hfine
    exact download_finishes h.contents (fun i hi => h.exists_stored hi) (hinv.run h.contents hrun)
      hfine
  bounded := by
    intro as d hrun
    exact download_bounded h.contents hinv hrun

theorem Complete.roundTrips (h : Complete cipher data thumbnails u) :
    RoundTrips cipher data thumbnails u where
  indices := h.indices
  chunk := by
    intro b hb
    obtain ⟨random, heq⟩ := h.stored b hb
    rw [heq]
    exact cipher.decrypt_encrypt random _
  chunks := flatten_blocks defaultBlockSize_pos data
  nonempty := fun i hi => block_ne_nil defaultBlockSize_pos hi
  full := fun i hi => length_block_of_lt defaultBlockSize_pos hi
  attributes := by
    refine ⟨_, h.result_eq, fun modificationTime => ⟨rfl, ?_⟩⟩
    show some data.length = some _
    rw [← h.totalSize, h.totalSize_eq, h.blockSizes_eq]
  readsBack := by
    -- A download starts from what the server lists, and ends with the bytes of the upload.
    intro decode revisionId listed collected hcollected hlisted
    obtain ⟨manifest, hmanifest⟩ := hlisted.decodes
    obtain ⟨start, hstart, -, hhealthy, hinv⟩ :=
      h.download_start revisionId hcollected hmanifest
    exact ⟨start, hstart, h.readsBack hhealthy hinv⟩

/-- **The round trip.** An upload, in whatever pieces its source comes and in whatever order its
blocks are stored, comes to an end unless something fails, and what it has then stored is read back
as the source. -/
theorem content_round_trip {events : List ReadEvent} {as : List UploadAction}
    (hrun : (uploads cipher).exec (.start ⟨events, data⟩ thumbnails) as = some u) :
    as.length ≤ (Upload.start ⟨events, data⟩ thumbnails).work data ∧
    ((∀ text, .failed text ∉ events) → u.error = none →
      ∃ bs u', (uploads cipher).exec u bs = some u' ∧ u'.finished = true) ∧
    (u.finished = true → RoundTrips cipher data thumbnails u) := by
  refine ⟨upload_bounded (UploadInv.start events) hrun, ?_, ?_⟩
  · intro hevents herror
    have hhealthy := Machine.exec_invariant _ (fun u => ∀ text, .failed text ∉ u.source.events)
      (fun hi hs => upload_healthy hi hs) hevents hrun
    exact upload_finishes (UploadInv.run hrun) herror hhealthy
  · intro hfinished
    exact (upload_finished hrun hfinished).roundTrips

/-- A cipher to run the model with. -/
def mirrorCipher : Cipher where
  encrypt random plaintext := UInt8.ofNat random :: plaintext.reverse
  decrypt
    | [] => .error (.crypto "empty block")
    | _ :: ciphertext => .ok ciphertext.reverse
  digest ciphertext := [ciphertext.foldl (fun sum b => sum + b) 0]
  sha1Hex plaintext := toString plaintext.length
  decrypt_encrypt := by
    intro random plaintext
    simp

def sampleThumbnail : EncryptedThumbnail := ⟨1, [8, 8], [16]⟩

/-- Three bytes that come in three reads, one of them interrupted, with a thumbnail. -/
def sampleUpload : List UploadAction :=
  [.read, .send 7, .read, .close, .recv 1, .store (.block ⟨1, [7, 3, 2, 1], [13]⟩),
    .store (.thumbnail sampleThumbnail), .finish]

theorem content_round_trip_sample :
    ∃ u, (uploads mirrorCipher).exec
        (.start ⟨[.short 0, .interrupted, .short 0], [1, 2, 3]⟩ [sampleThumbnail]) sampleUpload =
        some u ∧
      u.finished = true ∧ RoundTrips mirrorCipher [1, 2, 3] [sampleThumbnail] u := by
  have hexec : ∃ u, (uploads mirrorCipher).exec
      (.start ⟨[.short 0, .interrupted, .short 0], [1, 2, 3]⟩ [sampleThumbnail]) sampleUpload =
      some u ∧ u.finished = true := ⟨_, rfl, rfl⟩
  obtain ⟨u, hrun, hfinished⟩ := hexec
  exact ⟨u, hrun, hfinished, (content_round_trip hrun).2.2 hfinished⟩

/-! ## The manifest -/

/-- **The manifest that is signed is the manifest that is recomputed.** -/
theorem manifest_agreement {events : List ReadEvent} {as : List UploadAction}
    {written : BlockWriteResult} {decode : String → Except String Bytes} {revisionId : String}
    {listed : List ThumbnailDto} {collected : List BlockDto}
    (hdistinct : (thumbnails.map EncryptedThumbnail.thumbnailType).Nodup)
    (hrun : (uploads cipher).exec (.start ⟨events, data⟩ thumbnails) as = some u)
    (hfinished : u.finished = true) (hwritten : u.result cipher thumbnails = .ok written)
    (hcollected : (collected.map BlockDto.index).Perm
      (u.storedBlocks.map (fun b => Int.ofNat b.1)))
    (hlisted : ListsThumbnails decode listed u.storedThumbnails) :
    ∃ start, Download.start decode revisionId listed collected = .ok start ∧ start.Healthy ∧
      (∀ bs d, (downloads cipher u.storedBlocks).exec start bs = some d → d.finished = true →
        ∀ modificationTime, d.manifest = (sealRevision written modificationTime).manifest) ∧
      (∀ bs d, (downloads cipher u.storedBlocks).exec start bs = some d → d.Healthy →
        ∃ cs d', (downloads cipher u.storedBlocks).exec d cs = some d' ∧ d'.finished = true) := by
  have h := upload_finished hrun hfinished
  have hdigests := hlisted.digests h.thumbnails_perm hdistinct
  obtain ⟨start, hstart, -, hhealthy, hinv⟩ := h.download_start revisionId hcollected hdigests
  refine ⟨start, hstart, hhealthy, ?_, (h.readsBack hhealthy hinv).finishes⟩
  intro bs d hdownload hdone modificationTime
  -- Both sides hash the same digests in the same order: thumbnails first, then blocks.
  have hmanifest := (download_finished h.contents hinv hdownload hdone).2
  have hsigned := Except.ok.inj (h.result_eq.symm.trans hwritten)
  rw [hmanifest, ← hsigned]
  rfl

/-- `BASE64.decode`, as far as the sample asks. -/
def sampleDecode (text : String) : Except String Bytes :=
  if text = "EA==" then .ok [16] else .error "Invalid symbol"

theorem manifest_agreement_sample :
    ∃ u written start, (uploads mirrorCipher).exec
        (.start ⟨[.short 0, .interrupted, .short 0], [1, 2, 3]⟩ [sampleThumbnail]) sampleUpload =
        some u ∧
      u.result mirrorCipher [sampleThumbnail] = .ok written ∧
      Download.start sampleDecode "r" [⟨1, some "EA=="⟩] [⟨1, "url", "token"⟩] = .ok start ∧
      ∀ bs d, (downloads mirrorCipher u.storedBlocks).exec start bs = some d → d.finished = true →
        d.manifest = (sealRevision written none).manifest := by
  -- The reads come short and one is interrupted, and the block is still whole.
  have hexec : ∃ u, (uploads mirrorCipher).exec
      (.start ⟨[.short 0, .interrupted, .short 0], [1, 2, 3]⟩ [sampleThumbnail]) sampleUpload =
      some u ∧ u.finished = true ∧ u.storedBlocks = [(1, [7, 3, 2, 1])] ∧
      u.storedThumbnails = [sampleThumbnail] ∧
      ∃ written, u.result mirrorCipher [sampleThumbnail] = .ok written :=
    ⟨_, rfl, rfl, rfl, rfl, _, rfl⟩
  obtain ⟨u, hrun, hfinished, hblocks, hthumbnails, written, hwritten⟩ := hexec
  have hcollected : ([⟨1, "url", "token"⟩].map BlockDto.index).Perm
      (u.storedBlocks.map (fun b => Int.ofNat b.1)) := by
    rw [hblocks]
    exact List.Perm.refl _
  have hlisted : ListsThumbnails sampleDecode [⟨1, some "EA=="⟩] u.storedThumbnails := by
    rw [hthumbnails]
    exact List.Perm.refl _
  obtain ⟨start, hstart, -, hagree, -⟩ :=
    manifest_agreement (by decide) hrun hfinished hwritten hcollected hlisted
  exact ⟨u, written, start, hrun, hwritten, hstart,
    fun bs d hdownload hdone => hagree bs d hdownload hdone none⟩

end ProtonDrive.Content
