import ProtonDrive.Drive.RangeRead
import ProtonDrive.Drive.SameContents
import ProtonDrive.Drive.SmallUpload

/-!
# The contents of a small upload

What the one request of `upload_small_file` and of `upload_small_revision` says of the contents: the
block, if there is one, the manifest and the extended attributes, put together by hand where the
block path folds them over the blocks it reads.

* `smallContent_complete` — it is what a block upload of the same bytes ends with.
* `small_describes_same` — the two paths describe one file, and no reader tells them apart.
-/

namespace ProtonDrive.Content

open OpenPgp (Bytes)
open RangeRead (rankBlockSizes openRevision RevisionReader)

/-! ## The request -/

/-- The parts of the request that are about the contents. -/
structure SmallContent where
  /-- The bytes under `manifest_signature`. -/
  manifest : Bytes
  extendedAttributes : CommonExtendedAttributes
  binaryParts : List (String × Bytes)
  contentBlockEncryptedSignature : Option Bytes
  /-- The token before base64. -/
  contentBlockVerificationToken : Option Bytes
  deriving DecidableEq, Repr

/-- The keys of the file: its content key, and what is signed and encrypted with the others. -/
structure SmallKeys where
  cipher : Cipher
  random : Nat
  /-- The detached signature of the contents, encrypted to the node key. -/
  encryptedSignature : Bytes → Bytes
  contentKeyPacket : Bytes

def noVerificationCode : ProtonError :=
  .invalidOperation "content key packet has no verification code"

def verificationToken (code ciphertext : Bytes) : Bytes :=
  code.zipIdx.map fun c => c.1 ^^^ ciphertext.getD c.2 0

/-- How both requests are put together. -/
def smallContent (keys : SmallKeys) (contents : Bytes) (modificationTime : Option String) :
    Except ProtonError SmallContent :=
  let attributes (blockSizes : List Nat) : CommonExtendedAttributes :=
    { size := some contents.length
      modificationTime := modificationTime
      blockSizes := some blockSizes
      sha1 := some (keys.cipher.sha1Hex contents) }
  if contents.isEmpty then
    .ok {
      manifest := []
      extendedAttributes := attributes []
      binaryParts := []
      contentBlockEncryptedSignature := none
      contentBlockVerificationToken := none }
  else
    let ciphertext := keys.cipher.encrypt keys.random contents
    if keys.contentKeyPacket.length < 32 then .error noVerificationCode
    else
      let code := keys.contentKeyPacket.drop (keys.contentKeyPacket.length - 32)
      .ok {
        manifest := keys.cipher.digest ciphertext
        extendedAttributes := attributes [contents.length]
        binaryParts := [("ContentBlock", ciphertext)]
        contentBlockEncryptedSignature := some (keys.encryptedSignature contents)
        contentBlockVerificationToken := some (verificationToken code ciphertext) }

def uploadSmallFile (keys : SmallKeys) (contents : Bytes) : Except ProtonError SmallContent :=
  smallContent keys contents none

def uploadSmallRevision (keys : SmallKeys) (contents : Bytes) (modificationTime : Option String) :
    Except ProtonError SmallContent :=
  smallContent keys contents modificationTime

/-! ## What it leaves on the server -/

/-- The server keeps the parts as blocks, numbered from 1. -/
def SmallContent.storedBlocks (small : SmallContent) : List (Nat × Bytes) :=
  (small.binaryParts.zipIdx 1).map fun part => (part.2, part.1.2)

/-- The block upload that would have stored it. -/
def SmallContent.upload (small : SmallContent) (cipher : Cipher) (contents : Bytes) : Upload :=
  { Upload.start ⟨[], []⟩ [] with
    drained := true
    blockSizes := (small.extendedAttributes.blockSizes).getD []
    totalSize := contents.length
    hashed := contents
    index := small.storedBlocks.length + 1
    closed := true
    digests := small.storedBlocks.map fun b => (b.1, cipher.digest b.2)
    finished := true
    storedBlocks := small.storedBlocks }

variable {keys : SmallKeys} {contents : Bytes} {modificationTime : Option String}
  {small : SmallContent}

theorem length_lt_of_applicable (h : SmallUpload.smallUploadApplicable contents.length) :
    contents.length < defaultBlockSize := by
  have happ : min (contents.length * 11) SmallUpload.usizeMax <
      SmallUpload.smallUploadSizeLimit * 10 := of_decide_eq_true h
  have hlimit : SmallUpload.smallUploadSizeLimit * 10 < SmallUpload.usizeMax := by decide
  have hsize : SmallUpload.smallUploadSizeLimit * 10 < defaultBlockSize * 11 := by decide
  omega

/-- A file that is small enough has one block at most. -/
theorem blockCount_of_applicable (h : SmallUpload.smallUploadApplicable contents.length) :
    blockCount defaultBlockSize contents = if contents.isEmpty then 0 else 1 := by
  have hlt := length_lt_of_applicable h
  have hone : ¬ 1 < blockCount defaultBlockSize contents := by
    rw [lt_blockCount defaultBlockSize_pos]
    omega
  have hzero := lt_blockCount defaultBlockSize_pos contents 0
  cases contents with
  | nil => rfl
  | cons b rest =>
      simp only [List.isEmpty_cons, Bool.false_eq_true, if_false]
      simp only [Nat.zero_mul, List.length_cons] at hzero
      omega

theorem block_of_applicable (h : SmallUpload.smallUploadApplicable contents.length) :
    block defaultBlockSize contents 0 = contents := by
  have hflat := flatten_blocks defaultBlockSize_pos contents
  rw [blockCount_of_applicable h] at hflat
  cases contents with
  | nil => rfl
  | cons b rest => simpa using hflat

/-- The sizes of the blocks of a file that is small enough. -/
def smallSizes (contents : Bytes) : List Nat := if contents.isEmpty then [] else [contents.length]

theorem range_blockCount_of_applicable
    (h : SmallUpload.smallUploadApplicable contents.length) :
    (List.range (blockCount defaultBlockSize contents)).map
      (fun i => (block defaultBlockSize contents i).length) = smallSizes contents := by
  rw [blockCount_of_applicable h, smallSizes]
  split
  · rfl
  · show [(block defaultBlockSize contents 0).length] = _
    rw [block_of_applicable h]

/-- What the request carries, with contents and without. -/
theorem smallContent_cases (h : smallContent keys contents modificationTime = .ok small) :
    small.extendedAttributes = ⟨some contents.length, modificationTime, some (smallSizes contents),
      some (keys.cipher.sha1Hex contents)⟩ ∧
    ((contents = [] ∧ small.storedBlocks = [] ∧ small.manifest = []) ∨
      contents ≠ [] ∧ small.storedBlocks = [(1, keys.cipher.encrypt keys.random contents)] ∧
        small.manifest = keys.cipher.digest (keys.cipher.encrypt keys.random contents)) := by
  unfold smallContent at h
  unfold smallSizes
  split at h
  · next hempty =>
      cases h
      exact ⟨by rw [if_pos hempty], .inl ⟨List.isEmpty_iff.mp hempty, rfl, rfl⟩⟩
  · next hne =>
      dsimp only at h
      split at h
      · cases h
      · cases h
        refine ⟨by rw [if_neg hne], .inr ⟨?_, rfl, rfl⟩⟩
        exact fun hempty => hne (List.isEmpty_iff.mpr hempty)

/-- **One request ends as a block upload of the same bytes would.** -/
theorem smallContent_complete (happlicable : SmallUpload.smallUploadApplicable contents.length)
    (h : smallContent keys contents modificationTime = .ok small) :
    Complete keys.cipher contents [] (small.upload keys.cipher contents) := by
  obtain ⟨hattributes, hblocks⟩ := smallContent_cases h
  have hsizes : (small.upload keys.cipher contents).blockSizes = smallSizes contents := by
    show small.extendedAttributes.blockSizes.getD [] = _
    rw [hattributes]
    rfl
  have hsum : contents.length = (smallSizes contents).sum := by
    unfold smallSizes
    cases contents <;> simp
  refine ⟨hsizes.trans (range_blockCount_of_applicable happlicable).symm, ?_, rfl, ?_, ?_, rfl,
    List.Perm.refl _⟩
  · rw [hsizes]
    exact hsum
  · show (small.storedBlocks.map Prod.fst).Perm _
    rw [blockCount_of_applicable happlicable]
    -- Empty contents have no block, all others have one.
    rcases hblocks with ⟨rfl, hstored, -⟩ | ⟨hne, hstored, -⟩
    · rw [hstored]
      exact .refl _
    · rw [hstored, if_neg (by simpa using hne)]
      exact .refl _
  · -- The one block is the encryption of the whole contents.
    intro b hb
    replace hb : b ∈ small.storedBlocks := hb
    rcases hblocks with ⟨rfl, hstored, -⟩ | ⟨hne, hstored, -⟩
    · rw [hstored] at hb
      cases hb
    · rw [hstored, List.mem_singleton] at hb
      subst hb
      refine ⟨keys.random, ?_⟩
      show _ = keys.cipher.encrypt keys.random (block defaultBlockSize contents 0)
      rw [block_of_applicable happlicable]

/-- What the request says is what `write_blocks` and `seal_revision` would have said. -/
theorem smallContent_result (happlicable : SmallUpload.smallUploadApplicable contents.length)
    (h : smallContent keys contents modificationTime = .ok small) :
    ∃ written, (small.upload keys.cipher contents).result keys.cipher [] = .ok written ∧
      sealRevision written modificationTime = ⟨small.manifest, small.extendedAttributes⟩ := by
  obtain ⟨hattributes, hblocks⟩ := smallContent_cases h
  have hcomplete := smallContent_complete happlicable h
  refine ⟨_, if_neg (not_not.mpr hcomplete.length_eq), ?_⟩
  have hmanifest : assembleManifest []
      (small.storedBlocks.map fun b => (b.1, keys.cipher.digest b.2)) = small.manifest := by
    rcases hblocks with ⟨-, hstored, hmanifest⟩ | ⟨-, hstored, hmanifest⟩
    · rw [hstored, hmanifest]
      rfl
    · rw [hstored, hmanifest]
      simp [assembleManifest, sortByKey]
  show (⟨assembleManifest [] (small.storedBlocks.map fun b => (b.1, keys.cipher.digest b.2)),
    ⟨some contents.length, modificationTime, some (small.extendedAttributes.blockSizes.getD []),
      some (keys.cipher.sha1Hex contents)⟩⟩ : RevisionUpdateRequest) = _
  rw [hmanifest, hattributes]
  rfl

/-! ## The readers -/

/-- The attributes as a reader of the file gets them. -/
def CommonExtendedAttributes.read (attributes : CommonExtendedAttributes) :
    RangeRead.DecryptedCommonExtendedAttributes where
  size := attributes.size.map fun size => Int64.ofNat size
  blockSizes := attributes.blockSizes.map fun sizes => sizes.map fun size => Int64.ofNat size

/-- The plaintext of the block at a position, as a reader of ranges fetches it. -/
def plaintextAt (cipher : Cipher) (stored : List (Nat × Bytes)) (revisionId : String)
    (position : Nat) : Except ProtonError Bytes :=
  match stored.find? (fun b => b.1 == position + 1) with
  | some b => cipher.decrypt b.2
  | none => .error (missingBlock position revisionId)

/-- What a small file with these contents is to look like. -/
structure Describes (cipher : Cipher) (contents manifest : Bytes)
    (attributes : CommonExtendedAttributes) (modificationTime : Option String)
    (stored : List (Nat × Bytes)) : Prop where
  attributes_eq : attributes = ⟨some contents.length, modificationTime, some (smallSizes contents),
    some (cipher.sha1Hex contents)⟩
  count_eq : stored.length = if contents.isEmpty then 0 else 1
  manifest_eq : manifest = (stored.map fun b => cipher.digest b.2).flatten
  plain : ∀ b ∈ stored, b.1 = 1 ∧ cipher.decrypt b.2 = .ok contents
  ranked : ∀ revisionId, rankBlockSizes (some attributes.read) revisionId stored.length =
    some (.ok (smallSizes contents))

/-- No reader tells the two stores apart: one of ranges gets the same plaintexts, a download starts
alike on both, reads the contents back, and is followed step by step on the other one. -/
structure Indistinguishable (cipher cipher' : Cipher) (contents : Bytes)
    (stored stored' : List (Nat × Bytes)) : Prop where
  plaintexts : plaintextAt cipher stored = plaintextAt cipher' stored'
  readsBack : ∀ decode revisionId collected,
    (collected.map BlockDto.index).Perm (stored.map fun b => Int.ofNat b.1) →
      (collected.map BlockDto.index).Perm (stored'.map fun b => Int.ofNat b.1) ∧
      ∃ start, Download.start decode revisionId [] collected = .ok start ∧
        ReadsBack cipher stored start contents ∧ ReadsBack cipher' stored' start contents
  follows : ∀ start : Download, start.window = [] → ∀ as d,
    (downloads cipher stored).exec start as = some d →
      ∃ as' d', List.Forall₂ DownloadAction.Alike as as' ∧
        (downloads cipher' stored').exec start as' = some d' ∧ d'.output = d.output ∧
        d'.finished = d.finished ∧ d'.error = d.error

/-- The recorded sizes are those of the blocks. -/
theorem rankBlockSizes_smallSizes (h : SmallUpload.smallUploadApplicable contents.length)
    {common : RangeRead.DecryptedCommonExtendedAttributes}
    (hsizes : common.blockSizes = some ((smallSizes contents).map fun size => Int64.ofNat size))
    (revisionId : String) :
    rankBlockSizes (some common) revisionId (smallSizes contents).length =
      some (.ok (smallSizes contents)) := by
  -- A recorded size is that of the only block: positive, and small enough for 64 bits.
  have hint : ∀ size ∈ smallSizes contents, (Int64.ofNat size).toInt = size ∧ 0 < size := by
    intro size hsize
    unfold smallSizes at hsize
    split at hsize
    · cases hsize
    · next hne =>
        rw [List.mem_singleton] at hsize
        subst hsize
        have hlt := length_lt_of_applicable h
        have hbig : defaultBlockSize < 2 ^ 63 := by decide
        refine ⟨Int64.toInt_ofNat_of_lt (hlt.trans hbig), ?_⟩
        exact List.length_pos_iff.mpr fun hnil => hne (List.isEmpty_iff.mpr hnil)
  have hrecorded : RangeRead.recordedSizes (some common) (smallSizes contents).length =
      some ((smallSizes contents).map fun size => Int64.ofNat size) := by
    unfold RangeRead.recordedSizes
    rw [Option.bind_some, hsizes]
    simp
  rw [RangeRead.rankBlockSizes_of_recordedSizes hrecorded, List.map_map]
  · congr 2
    conv_rhs => rw [← List.map_id (smallSizes contents)]
    apply List.map_congr_left
    intro size hsize
    rw [Function.comp_apply, (hint size hsize).1]
    rfl
  · intro size hsize
    obtain ⟨n, hn, rfl⟩ := List.mem_map.mp hsize
    obtain ⟨hval, hpos⟩ := hint n hn
    rw [Int64.le_iff_toInt_le, hval]
    show ¬ (n : Int) ≤ 0
    omega

variable {cipher cipher' : Cipher} {u u' : Upload}

/-- The blocks of a small file: none, or the contents under index 1. -/
theorem Complete.storedBlocks_of_applicable (h : Complete cipher contents [] u)
    (happlicable : SmallUpload.smallUploadApplicable contents.length) :
    (contents = [] ∧ u.storedBlocks = []) ∨ (contents ≠ [] ∧
      ∃ ciphertext, u.storedBlocks = [(1, ciphertext)] ∧ cipher.decrypt ciphertext = .ok contents) := by
  have hindices := h.indices
  rw [blockCount_of_applicable happlicable] at hindices
  by_cases hempty : contents = []
  · subst hempty
    exact .inl ⟨rfl, List.map_eq_nil_iff.mp hindices.eq_nil⟩
  · rw [if_neg (by simpa using hempty)] at hindices
    obtain ⟨b, hb, hindex⟩ := List.map_eq_singleton_iff.mp hindices.eq_singleton
    obtain ⟨index, ciphertext⟩ := b
    cases hindex
    refine .inr ⟨hempty, ciphertext, hb, ?_⟩
    have hplain := h.roundTrips.chunk (1, ciphertext) (by rw [hb]; exact List.mem_singleton_self _)
    rwa [Nat.sub_self, block_of_applicable happlicable] at hplain

/-- A small file that has been uploaded looks as it is to. -/
theorem Complete.describes (h : Complete cipher contents [] u)
    (happlicable : SmallUpload.smallUploadApplicable contents.length) {written : BlockWriteResult}
    (hwritten : u.result cipher [] = .ok written) (modificationTime : Option String) :
    Describes cipher contents (sealRevision written modificationTime).manifest
      (sealRevision written modificationTime).extendedAttributes modificationTime
      u.storedBlocks := by
  have hresult : u.result cipher [] = .ok ⟨assembleManifest [] u.digests, u.blockSizes,
      u.totalSize, cipher.sha1Hex u.hashed⟩ := if_neg (not_not.mpr h.length_eq)
  obtain rfl := Except.ok.inj (hresult.symm.trans hwritten)
  have hattributes : (sealRevision ⟨assembleManifest [] u.digests, u.blockSizes, u.totalSize,
      cipher.sha1Hex u.hashed⟩ modificationTime).extendedAttributes =
        ⟨some contents.length, modificationTime, some (smallSizes contents),
          -- The contents are small, so the upload in blocks has a block at most, too.
          some (cipher.sha1Hex contents)⟩ := by
    rw [h.totalSize, h.blockSizes_eq, h.hashed_eq, range_blockCount_of_applicable happlicable]
    rfl
  have hblocks := h.storedBlocks_of_applicable happlicable
  rw [hattributes]
  refine ⟨rfl, ?_, ?_, ?_, ?_⟩
  · -- The sizes: none for empty contents, else the length.
    rcases hblocks with ⟨rfl, hstored⟩ | ⟨hne, ciphertext, hstored, -⟩
    · rw [hstored]
      rfl
    · rw [hstored, if_neg (by simpa using hne)]
      rfl
  · -- The manifest: the digest of the block, there being no thumbnails.
    show assembleManifest [] u.digests = _
    rw [h.digests_eq]
    rcases hblocks with ⟨-, hstored⟩ | ⟨-, ciphertext, hstored, -⟩
    · rw [hstored]
      rfl
    · rw [hstored]
      simp [assembleManifest, sortByKey]
  · -- The block opens to the contents.
    intro b hb
    rcases hblocks with ⟨-, hstored⟩ | ⟨-, ciphertext, hstored, hplain⟩
    · rw [hstored] at hb
      cases hb
    · rw [hstored, List.mem_singleton] at hb
      subst hb
      exact ⟨rfl, hplain⟩
  · -- A ranged read takes the recorded sizes.
    intro revisionId
    have hlength : u.storedBlocks.length = (smallSizes contents).length := by
      unfold smallSizes
      rcases hblocks with ⟨rfl, hstored⟩ | ⟨hne, ciphertext, hstored, -⟩
      · rw [hstored]
        rfl
      · rw [hstored, if_neg (by simpa using hne)]
        rfl
    rw [hlength]
    exact rankBlockSizes_smallSizes happlicable rfl revisionId

theorem plaintextAt_eq {ciphertext : Bytes} (stored : List (Nat × Bytes)) (revisionId : String)
    (hstored : stored = [(1, ciphertext)]) (position : Nat) :
    plaintextAt cipher stored revisionId position =
      if position = 0 then cipher.decrypt ciphertext
      else .error (missingBlock position revisionId) := by
  subst hstored
  unfold plaintextAt
  by_cases hzero : position = 0
  · subst hzero
    rfl
  · rw [if_neg hzero, List.find?_eq_none.mpr]
    intro b hb
    rw [List.mem_singleton] at hb
    subst hb
    simpa using hzero

/-- Two uploads of the same small contents have the same plaintexts in the same places. -/
theorem Complete.same_blocks (h : Complete cipher contents [] u)
    (h' : Complete cipher' contents [] u')
    (happlicable : SmallUpload.smallUploadApplicable contents.length) :
    u.storedBlocks.map Prod.fst = u'.storedBlocks.map Prod.fst ∧
      Offers cipher cipher' u.storedBlocks u'.storedBlocks ∧
      plaintextAt cipher u.storedBlocks = plaintextAt cipher' u'.storedBlocks := by
  rcases h.storedBlocks_of_applicable happlicable with
    ⟨rfl, hstored⟩ | ⟨hne, ciphertext, hstored, hplain⟩
  · -- Contents are the same, so either both uploads have a block or neither has.
    rcases h'.storedBlocks_of_applicable happlicable with ⟨-, hstored'⟩ | ⟨hne', -⟩
    · rw [hstored, hstored']
      refine ⟨rfl, ?_, rfl⟩
      intro i ciphertext hmem
      cases hmem
    · exact absurd rfl hne'
  · rcases h'.storedBlocks_of_applicable happlicable with
      ⟨hnil, -⟩ | ⟨-, ciphertext', hstored', hplain'⟩
    · exact absurd hnil hne
    · refine ⟨by rw [hstored, hstored']; rfl, ?_, ?_⟩
      · intro i c hmem
        rw [hstored, List.mem_singleton] at hmem
        cases hmem
        exact ⟨ciphertext', by rw [hstored']; exact List.mem_singleton_self _,
          hplain.trans hplain'.symm⟩
      · funext revisionId position
        rw [plaintextAt_eq _ _ hstored, plaintextAt_eq _ _ hstored', hplain, hplain']

/-- No reader tells two uploads of the same small contents apart. -/
theorem Complete.indistinguishable (h : Complete cipher contents [] u)
    (h' : Complete cipher' contents [] u')
    (happlicable : SmallUpload.smallUploadApplicable contents.length) :
    Indistinguishable cipher cipher' contents u.storedBlocks u'.storedBlocks := by
  obtain ⟨hindices, hoffers, hplain⟩ := h.same_blocks h' happlicable
  have hnone : ∀ {cipher : Cipher} {u : Upload}, Complete cipher contents [] u →
      ∀ decode, ListsThumbnails decode [] u.storedThumbnails := by
    intro cipher u h decode
    rw [List.perm_nil.mp h.thumbnails_perm]
    exact .refl _
  refine ⟨hplain, ?_, fun start hstart as d hrun => downloads_alike hoffers hstart hrun⟩
  -- The listings name the same indices, so one download starts where the other does.
  intro decode revisionId collected hcollected
  have hcollected' : (collected.map BlockDto.index).Perm
      (u'.storedBlocks.map fun b => Int.ofNat b.1) := by
    have hmap := congrArg (List.map Int.ofNat) hindices
    rw [List.map_map, List.map_map] at hmap
    exact hcollected.trans (.of_eq hmap)
  obtain ⟨start, hstart, hreads⟩ :=
    h.roundTrips.readsBack decode revisionId [] collected hcollected (hnone h decode)
  obtain ⟨start', hstart', hreads'⟩ :=
    h'.roundTrips.readsBack decode revisionId [] collected hcollected' (hnone h' decode)
  obtain rfl := Except.ok.inj (hstart.symm.trans hstart')
  exact ⟨hcollected', start, hstart, hreads, hreads'⟩

/-! ## One file -/

/-- What one request and a block upload of the same contents leave behind. -/
structure SameFile (cipher cipher' : Cipher) (contents : Bytes) (modificationTime : Option String)
    (small : SmallContent) (u : Upload) (written : BlockWriteResult) : Prop where
  attributes_eq :
    small.extendedAttributes = (sealRevision written modificationTime).extendedAttributes
  oneRequest : Describes cipher contents small.manifest small.extendedAttributes modificationTime
    small.storedBlocks
  blockUpload : Describes cipher' contents (sealRevision written modificationTime).manifest
    (sealRevision written modificationTime).extendedAttributes modificationTime u.storedBlocks
  forth : Indistinguishable cipher cipher' contents small.storedBlocks u.storedBlocks
  back : Indistinguishable cipher' cipher contents u.storedBlocks small.storedBlocks

theorem sameFile_of_smallContent
    (happlicable : SmallUpload.smallUploadApplicable contents.length)
    (hsha1 : cipher.sha1Hex = keys.cipher.sha1Hex) (h : Complete cipher contents [] u)
    {written : BlockWriteResult} (hwritten : u.result cipher [] = .ok written)
    (hsmall : smallContent keys contents modificationTime = .ok small) :
    SameFile keys.cipher cipher contents modificationTime small u written := by
  have hcomplete := smallContent_complete happlicable hsmall
  obtain ⟨written', hwritten', hsealed⟩ := smallContent_result happlicable hsmall
  have hblocks := h.describes happlicable hwritten modificationTime
  have hdescribes := hcomplete.describes happlicable hwritten' modificationTime
  rw [hsealed] at hdescribes
  refine ⟨?_, hdescribes, hblocks, hcomplete.indistinguishable h happlicable,
    h.indistinguishable hcomplete happlicable⟩
  rw [hblocks.attributes_eq, hsha1]
  exact hdescribes.attributes_eq

/-- The request can be put together: contents need a packet with a verification code. -/
def SmallKeys.Suffice (keys : SmallKeys) (contents : Bytes) : Prop :=
  contents = [] ∨ 32 ≤ keys.contentKeyPacket.length

theorem smallContent_ok_iff :
    (∃ small, smallContent keys contents modificationTime = .ok small) ↔ keys.Suffice contents := by
  unfold smallContent SmallKeys.Suffice
  cases contents with
  | nil => exact ⟨fun _ => .inl rfl, fun _ => ⟨_, rfl⟩⟩
  | cons b rest =>
      simp only [List.isEmpty_cons, Bool.false_eq_true, if_false, reduceCtorEq, false_or]
      split
      · next hshort =>
          constructor
          · rintro ⟨small, h⟩
            cases h
          · intro hlong
            omega
      · next hlong => exact ⟨fun _ => Nat.le_of_not_lt hlong, fun _ => ⟨_, rfl⟩⟩

/-- **Small and block uploads describe the same file.** Whichever way contents that are small enough
are sent, as a file or as a revision, the attributes are the same, the blocks are as many, the
manifest is that of the blocks, and no reader tells the two apart. Either request is put together,
unless the content key packet is too short for contents that are to be verified. -/
theorem small_describes_same (keys : SmallKeys)
    (happlicable : SmallUpload.smallUploadApplicable contents.length)
    (hsha1 : cipher.sha1Hex = keys.cipher.sha1Hex) {events : List ReadEvent}
    {as : List UploadAction}
    (hrun : (uploads cipher).exec (.start ⟨events, contents⟩ []) as = some u)
    (hfinished : u.finished = true) :
    ∃ written, u.result cipher [] = .ok written ∧
      ((∃ small, uploadSmallFile keys contents = .ok small) ↔ keys.Suffice contents) ∧
      (∀ small, uploadSmallFile keys contents = .ok small →
        SameFile keys.cipher cipher contents none small u written) ∧
      ∀ modificationTime,
        ((∃ small, uploadSmallRevision keys contents modificationTime = .ok small) ↔
          keys.Suffice contents) ∧
        ∀ small, uploadSmallRevision keys contents modificationTime = .ok small →
          SameFile keys.cipher cipher contents modificationTime small u written := by
  have h := upload_finished hrun hfinished
  refine ⟨_, h.result_eq, smallContent_ok_iff, ?_, fun _ => ⟨smallContent_ok_iff, ?_⟩⟩
  · exact fun small hsmall => sameFile_of_smallContent happlicable hsha1 h h.result_eq hsmall
  · exact fun small hsmall => sameFile_of_smallContent happlicable hsha1 h h.result_eq hsmall

/-- Three bytes, in one request for a file, in one for a revision, and in a block upload with reads of
one byte and two. -/
theorem small_describes_same_sample :
    ∃ file revision u written,
      uploadSmallFile ⟨mirrorCipher, 9, fun _ => [], List.replicate 32 1⟩ [1, 2, 3] = .ok file ∧
      uploadSmallRevision ⟨mirrorCipher, 8, fun _ => [], List.replicate 40 1⟩ [1, 2, 3]
        (some "2024-01-01T00:00:00Z") = .ok revision ∧
      file.storedBlocks = [(1, [9, 3, 2, 1])] ∧ revision.storedBlocks = [(1, [8, 3, 2, 1])] ∧
      u.storedBlocks = [(1, [7, 3, 2, 1])] ∧
      SameFile mirrorCipher mirrorCipher [1, 2, 3] none file u written ∧
      SameFile mirrorCipher mirrorCipher [1, 2, 3] (some "2024-01-01T00:00:00Z") revision u
        written := by
  -- The upload in blocks meets an interrupted read and ends with one block.
  have hexec : ∃ u, (uploads mirrorCipher).exec (.start ⟨[.short 0, .interrupted], [1, 2, 3]⟩ [])
      [.read, .send 7, .read, .close, .recv 1, .store (.block ⟨1, [7, 3, 2, 1], [13]⟩), .finish] =
        some u ∧ u.finished = true ∧ u.storedBlocks = [(1, [7, 3, 2, 1])] := ⟨_, rfl, rfl, rfl⟩
  obtain ⟨u, hrun, hfinished, hstored⟩ := hexec
  obtain ⟨written, hwritten, -, hfile, -⟩ := small_describes_same
    ⟨mirrorCipher, 9, fun _ => [], List.replicate 32 1⟩ (by decide) rfl hrun hfinished
  obtain ⟨written', hwritten', -, -, hrevision⟩ := small_describes_same
    ⟨mirrorCipher, 8, fun _ => [], List.replicate 40 1⟩ (by decide) rfl hrun hfinished
  cases hwritten.symm.trans hwritten'
  obtain ⟨revision, hok⟩ :=
    (hrevision (some "2024-01-01T00:00:00Z")).1.mpr (.inr (by decide))
  have hblocks : revision.storedBlocks = [(1, [8, 3, 2, 1])] := by
    cases hok
    rfl
  exact ⟨_, revision, u, written, rfl, hok, rfl, hblocks, hstored, hfile _ rfl,
    (hrevision _).2 revision hok⟩

end ProtonDrive.Content
