import ProtonDrive.Drive.BlockTargets
import ProtonDrive.Drive.Upload

/-!
# Reading a file back

`download_file_to` lists the active revision and writes its blocks in order. Up to ten fetches are
under way at a time and end in any order; a block is written, and its digest goes into the manifest,
when all before it have been.

* `DownloadInv` — what has been written is a prefix of the file.
* `download_finished` — what has been written when a run is over.
* `download_finishes` — every run in which nothing has failed can be brought to its end.
-/

namespace ProtonDrive.Content

open OpenPgp (Bytes)

/-! ## The pipeline -/

def maxConcurrentBlockDownloads : Nat := 10

inductive BlockFetch where
  | calling (call : FetchCall)
  /-- The digest of the ciphertext, and the plaintext. -/
  | ready (result : Except ProtonError (Bytes × Bytes))
  deriving DecidableEq, Repr

/-- A `download_file_to` call in progress, from the first block on. `window` is the queue of
`buffered`: its first entry is the fetch of the block at position `written`. -/
structure Download where
  targets : BlockTargets
  written : Nat
  window : List BlockFetch
  manifest : Bytes
  output : Bytes
  finished : Bool
  error : Option ProtonError
  deriving DecidableEq, Repr

structure ThumbnailDto where
  thumbnailType : Int
  hashDigest : Option String
  deriving DecidableEq, Repr

def badThumbnailDigest (text : String) : ProtonError :=
  .invalidOperation ("decode thumbnail digest: " ++ text)

/-- The digests of thumbnails that are in the order of their types. -/
def thumbnailDigests (decode : String → Except String Bytes) :
    List ThumbnailDto → Except ProtonError Bytes
  | [] => .ok []
  | thumb :: thumbnails =>
      match thumb.hashDigest with
      | none => thumbnailDigests decode thumbnails
      | some text => do
          let digest ← (decode text).mapError badThumbnailDigest
          let manifest ← thumbnailDigests decode thumbnails
          pure (digest ++ manifest)

/-- What `download_file_to` has when the revision is listed. `decode` is `BASE64.decode` after
`trim`. -/
def Download.start (decode : String → Except String Bytes) (revisionId : String)
    (thumbnails : List ThumbnailDto) (collected : List BlockDto) : Except ProtonError Download := do
  let blocks ← orderBlocks collected
  let manifest ← thumbnailDigests decode (sortByKey ThumbnailDto.thumbnailType thumbnails)
  pure {
    targets := .new revisionId blocks blocks.length
    written := 0
    window := []
    manifest := manifest
    output := []
    finished := false
    error := none }

inductive DownloadAction where
  /-- `buffered` takes on the fetch of the next block. -/
  | start
  /-- The fetch at this position of the window goes on. -/
  | call (position : Nat) (a : CallAction)
  /-- The task that decrypts a block ends; it may have crashed. -/
  | decrypt (position : Nat) (crash : Option String)
  /-- The first block of the window is written. -/
  | write
  | writeFailed (text : String)
  | finish
  deriving DecidableEq, Repr

/-- `digest_and_decrypt_block_blocking`, or the error of the fetch before it. -/
def digestAndDecryptBlock (cipher : Cipher) (crash : Option String) :
    Except ProtonError Bytes → Except ProtonError (Bytes × Bytes)
  | .error e => .error e
  | .ok ciphertext =>
      match crash with
      | some text => .error (.invalidOperation ("block decrypt task failed: " ++ text))
      | none => (cipher.decrypt ciphertext).map (fun plaintext =>
          (cipher.digest ciphertext, plaintext))

/-- The server answers a fetch with what is stored under the index, or with an error. -/
def Serves (stored : List (Nat × Bytes)) : FetchCall → CallAction → Bool
  | .fetching block _ _, .answer (.ok ciphertext) => (block.index.toNat, ciphertext) ∈ stored
  | _, _ => true

def Download.blockCount (d : Download) : Nat := d.targets.expectedBlocks

def downloadStep (cipher : Cipher) (stored : List (Nat × Bytes)) (d : Download)
    (a : DownloadAction) : Option Download :=
  if d.error.isSome || d.finished then none
  else
    match a with
    | .start =>
        if d.window.length < maxConcurrentBlockDownloads &&
            d.written + d.window.length < d.blockCount then
          some { d with window := d.window ++ [.calling .idle] }
        else none
    | .call position a =>
        match d.window[position]? with
        | some (.calling c) =>
            if Serves stored c a then
              (callStep d.targets (d.written + position) c a).map (fun (targets, c') =>
                { d with targets := targets, window := d.window.set position (.calling c') })
            else none
        | _ => none
    | .decrypt position crash =>
        match d.window[position]? with
        | some (.calling (.done result)) =>
            some { d with
              window := d.window.set position
                (.ready (digestAndDecryptBlock cipher crash result)) }
        | _ => none
    | .write =>
        match d.window with
        | .ready (.ok (digest, plaintext)) :: window =>
            some { d with
              window := window
              written := d.written + 1
              output := d.output ++ plaintext
              manifest := d.manifest ++ digest }
        | .ready (.error e) :: _ => some { d with error := some e }
        | _ => none
    | .writeFailed text =>
        match d.window with
        | .ready (.ok _) :: _ =>
            some { d with error := some (.invalidOperation ("write block: " ++ text)) }
        | _ => none
    | .finish =>
        if d.window.isEmpty && d.written == d.blockCount then some { d with finished := true }
        else none

def downloads (cipher : Cipher) (stored : List (Nat × Bytes)) : Machine Download DownloadAction :=
  ⟨downloadStep cipher stored⟩

/-! ## The invariant -/

/-- The call is about the block at this position. -/
def FetchCall.Right (stored : List (Nat × Bytes)) (position : Nat) : FetchCall → Prop
  | .fetching block _ _ => block.index = (position : Int) + 1
  | .done (.ok ciphertext) => (position + 1, ciphertext) ∈ stored
  | _ => True

/-- What the blocks of a revision are, and what their digests are, by position. -/
structure Contents (cipher : Cipher) (stored : List (Nat × Bytes)) (plain hash : Nat → Bytes) :
    Prop where
  plain : ∀ i ciphertext, (i + 1, ciphertext) ∈ stored → cipher.decrypt ciphertext = .ok (plain i)
  hash : ∀ i ciphertext, (i + 1, ciphertext) ∈ stored → cipher.digest ciphertext = hash i

def BlockFetch.Right (stored : List (Nat × Bytes)) (plain hash : Nat → Bytes) (position : Nat) :
    BlockFetch → Prop
  | .calling c => c.Right stored position
  | .ready (.ok (digest, plaintext)) => digest = hash position ∧ plaintext = plain position
  | .ready (.error _) => True

/-- What has been written is a prefix of the file, and every fetch is about its block. -/
structure DownloadInv (stored : List (Nat × Bytes)) (plain hash : Nat → Bytes) (first : Bytes)
    (count : Nat) (d : Download) : Prop where
  sound : d.targets.Sound
  blockCount_eq : d.blockCount = count
  window_le : d.written + d.window.length ≤ count
  right : ∀ (k : Nat) (f : BlockFetch), d.window[k]? = some f →
    f.Right stored plain hash (d.written + k)
  output_eq : d.output = ((List.range d.written).map plain).flatten
  manifest_eq : d.manifest = first ++ ((List.range d.written).map hash).flatten
  locked : d.targets.refreshing = true → .calling .listing ∈ d.window
  finished : d.finished = true → d.written = count

variable {cipher : Cipher} {stored : List (Nat × Bytes)} {plain hash : Nat → Bytes}
  {first : Bytes} {count : Nat} {d d' : Download}

theorem Download.start_eq_ok {decode : String → Except String Bytes} {revisionId : String}
    {thumbnails : List ThumbnailDto} {collected : List BlockDto}
    (h : Download.start decode revisionId thumbnails collected = .ok d) :
    ∃ blocks, orderBlocks collected = .ok blocks ∧
      thumbnailDigests decode (sortByKey ThumbnailDto.thumbnailType thumbnails) = .ok d.manifest ∧
      d = { targets := .new revisionId blocks blocks.length, written := 0, window := []
            manifest := d.manifest, output := [], finished := false, error := none } := by
  obtain ⟨blocks, hblocks, hrest⟩ := Except.bind_eq_ok.mp h
  obtain ⟨manifest, hmanifest, hpure⟩ := Except.bind_eq_ok.mp hrest
  cases hpure
  exact ⟨blocks, hblocks, hmanifest, rfl⟩

theorem DownloadInv.start {decode : String → Except String Bytes} {revisionId : String}
    {thumbnails : List ThumbnailDto} {collected : List BlockDto}
    (h : Download.start decode revisionId thumbnails collected = .ok d) :
    DownloadInv stored plain hash d.manifest collected.length d := by
  obtain ⟨blocks, hblocks, -, hd⟩ := Download.start_eq_ok h
  obtain ⟨hordered, hperm⟩ := orderBlocks_eq_ok hblocks
  rw [hd]
  exact {
    sound := ⟨hordered, rfl⟩
    blockCount_eq := hperm.length_eq
    window_le := Nat.zero_le _
    right := fun k f hf => by simp at hf
    output_eq := rfl
    manifest_eq := (List.append_nil _).symm
    locked := fun hlocked => nomatch hlocked
    finished := fun hfinished => nomatch hfinished }

/-- A located block is the one asked for. -/
theorem BlockTargets.Sound.locate {t : BlockTargets} (h : t.Sound) (position : Nat)
    (retried : Bool) : (t.locate position retried).Right stored position := by
  unfold BlockTargets.locate
  split
  · trivial
  · next block hblock => exact h.ordered position block hblock

/-- A step of a call keeps it about its block. -/
theorem callStep_right {t t' : BlockTargets} {position : Nat} {c c' : FetchCall} {a : CallAction}
    (h : callStep t position c a = some (t', c')) (hsound : t.Sound)
    (hright : c.Right stored position) (hserves : Serves stored c a = true) :
    c'.Right stored position := by
  unfold callStep at h
  split at h
  · cases h
    exact hsound.locate position false
  · next block _ _ ciphertext =>
    cases h
    -- The server answers for the index of the block, which is that of the position.
    have hindex : block.index = (position : Int) + 1 := hright
    have hmem : (block.index.toNat, ciphertext) ∈ stored := by simpa [Serves] using hserves
    have hnat : block.index.toNat = position + 1 := by omega
    rw [hnat] at hmem
    exact hmem
  · split at h
    · cases h
      trivial
    · cases h
      trivial
  · split at h
    · cases h
    · split at h
      · cases h
        trivial
      · cases h
        trivial
  · next reply =>
    have hpair := Option.some.inj h
    rw [show c' = (t.install reply).2 from (congrArg Prod.snd hpair).symm]
    unfold BlockTargets.install
    split
    · trivial
    · split
      · trivial
      · trivial
  · cases h
    exact hsound.locate position true
  · cases h

/-- Which calls hold the lock after a step. -/
theorem callStep_locked {t t' : BlockTargets} {position : Nat} {c c' : FetchCall} {a : CallAction}
    (h : callStep t position c a = some (t', c')) (hlocked : t'.refreshing = true) :
    c' = .listing ∨ t.refreshing = true ∧ c ≠ .listing := by
  unfold callStep at h
  split at h
  · cases h
    exact .inr ⟨hlocked, by simp⟩
  · cases h
    exact .inr ⟨hlocked, by simp⟩
  · split at h
    · cases h
      exact .inr ⟨hlocked, by simp⟩
    · cases h
      exact .inr ⟨hlocked, by simp⟩
  · split at h
    · cases h
    · split at h
      · cases h
        exact .inr ⟨hlocked, by simp⟩
      · cases h
        exact .inl rfl
  · next reply =>
    have hpair := Option.some.inj h
    -- The listing has come, and the lock is free whatever it says.
    have hfree : (t.install reply).1.refreshing = false := by
      unfold BlockTargets.install
      split
      · rfl
      · split
        · rfl
        · rfl
    rw [hpair] at hfree
    exact absurd (hlocked.symm.trans hfree) (by simp)
  · cases h
    exact .inr ⟨hlocked, by simp⟩
  · cases h

/-- The other entries of a window stay. -/
theorem mem_set_of_ne {l : List BlockFetch} {k : Nat} {f g x : BlockFetch} (hk : l[k]? = some f)
    (hx : x ∈ l) (hne : x ≠ f) : x ∈ l.set k g := by
  obtain ⟨j, hj⟩ := List.mem_iff_getElem?.mp hx
  have hkj : k ≠ j := by
    intro heq
    subst heq
    exact hne (Option.some.inj (hj.symm.trans hk))
  exact List.mem_iff_getElem?.mpr ⟨j, by rw [List.getElem?_set_ne hkj]; exact hj⟩

/-- A change of one entry of the window. -/
theorem DownloadInv.set (h : DownloadInv stored plain hash first count d) {k : Nat}
    {f g : BlockFetch} {targets : BlockTargets} (hk : d.window[k]? = some f)
    (hsound : targets.Sound) (hcount : targets.expectedBlocks = d.targets.expectedBlocks)
    (hg : g.Right stored plain hash (d.written + k))
    (hlocked : targets.refreshing = true →
      g = .calling .listing ∨ d.targets.refreshing = true ∧ f ≠ .calling .listing) :
    DownloadInv stored plain hash first count
      { d with targets := targets, window := d.window.set k g } where
  sound := hsound
  blockCount_eq := by
    rw [← h.blockCount_eq]
    exact hcount
  window_le := by
    rw [List.length_set]
    exact h.window_le
  right := by
    intro j x hx
    rw [List.getElem?_set] at hx
    split at hx
    · next heq =>
      subst heq
      split at hx
      · cases hx
        exact hg
      · cases hx
    · exact h.right j x hx
  output_eq := h.output_eq
  manifest_eq := h.manifest_eq
  locked := by
    intro hl
    -- The entry that holds the lock is the new one, or one that has not changed.
    rcases hlocked hl with rfl | ⟨hl', hne⟩
    · exact List.mem_set (List.getElem?_eq_some_iff.mp hk).1 _
    · exact mem_set_of_ne hk (h.locked hl') hne.symm
  finished := h.finished

theorem DownloadInv.write (h : DownloadInv stored plain hash first count d) {digest plaintext : Bytes}
    {window : List BlockFetch} (hwindow : d.window = .ready (.ok (digest, plaintext)) :: window)
    (hfinished : d.finished = false) :
    DownloadInv stored plain hash first count
      { d with
        window := window
        written := d.written + 1
        output := d.output ++ plaintext
        manifest := d.manifest ++ digest } := by
  have hfront : d.window[0]? = some (.ready (.ok (digest, plaintext))) := by simp [hwindow]
  -- The first of the window is the next block of the file.
  obtain ⟨hdigest, hplaintext⟩ : digest = hash d.written ∧ plaintext = plain d.written :=
    h.right 0 _ hfront
  have hle := h.window_le
  rw [hwindow, List.length_cons] at hle
  refine ⟨h.sound, h.blockCount_eq, ?_, ?_, ?_, ?_, ?_, ?_⟩
  · show d.written + 1 + window.length ≤ count
    omega
  · intro k f hf
    have hnext := h.right (k + 1) f (by rw [hwindow]; simpa using hf)
    rw [show d.written + 1 + k = d.written + (k + 1) by omega]
    exact hnext
  · rw [List.range_succ, List.map_append, List.flatten_append, ← h.output_eq, hplaintext]
    simp
  · rw [List.range_succ, List.map_append, List.flatten_append, ← List.append_assoc, ← h.manifest_eq,
      hdigest]
    simp
  · intro hlocked
    have hmem := h.locked hlocked
    rw [hwindow] at hmem
    exact (List.mem_cons.mp hmem).resolve_left (by simp)
  · intro hf
    exact absurd hf (by simp [hfinished])

theorem digestAndDecryptBlock_right (hcontents : Contents cipher stored plain hash)
    {position : Nat} {result : Except ProtonError Bytes} (crash : Option String)
    (h : (FetchCall.done result).Right stored position) :
    (BlockFetch.ready (digestAndDecryptBlock cipher crash result)).Right stored plain hash
      position := by
  cases result with
  | error e => trivial
  | ok ciphertext =>
      cases crash with
      | some text => trivial
      | none =>
          simp only [digestAndDecryptBlock, hcontents.plain position ciphertext h, Except.map]
          exact ⟨hcontents.hash position ciphertext h, rfl⟩

/-- The effect of every action, with its guard. -/
inductive DownloadStep (cipher : Cipher) (stored : List (Nat × Bytes)) (d : Download) :
    Download → Prop where
  | start : d.window.length < maxConcurrentBlockDownloads →
      d.written + d.window.length < d.blockCount →
      DownloadStep cipher stored d { d with window := d.window ++ [.calling .idle] }
  | call {position a c targets c'} : d.window[position]? = some (.calling c) →
      Serves stored c a = true →
      callStep d.targets (d.written + position) c a = some (targets, c') →
      DownloadStep cipher stored d
        { d with targets := targets, window := d.window.set position (.calling c') }
  | decrypt {position crash result} : d.window[position]? = some (.calling (.done result)) →
      DownloadStep cipher stored d
        { d with
          window := d.window.set position (.ready (digestAndDecryptBlock cipher crash result)) }
  | write {digest plaintext window} : d.window = .ready (.ok (digest, plaintext)) :: window →
      DownloadStep cipher stored d
        { d with
          window := window
          written := d.written + 1
          output := d.output ++ plaintext
          manifest := d.manifest ++ digest }
  /-- A block came with an error, or could not be written. -/
  | fail {e} : DownloadStep cipher stored d { d with error := some e }
  | finish : d.window = [] → d.written = d.blockCount →
      DownloadStep cipher stored d { d with finished := true }

/-- A step is taken by a run that is neither over nor failed. -/
theorem downloadStep_cases {a : DownloadAction} (hstep : downloadStep cipher stored d a = some d') :
    d.error = none ∧ d.finished = false ∧ DownloadStep cipher stored d d' := by
  unfold downloadStep at hstep
  split at hstep
  · cases hstep
  · next hgo =>
    simp only [Bool.or_eq_true, Option.isSome_iff_ne_none, not_or, not_not,
      Bool.not_eq_true] at hgo
    refine ⟨hgo.1, hgo.2, ?_⟩
    -- After an error or at the end there is no step, so these are the others.
    cases a with
    | start =>
        obtain ⟨hroom, hd⟩ := Option.ite_none_right_eq_some.mp hstep
        cases hd
        simp only [Bool.and_eq_true, decide_eq_true_eq] at hroom
        exact .start hroom.1 hroom.2
    | call position a =>
        dsimp only at hstep
        split at hstep
        · next c hc =>
          obtain ⟨hserves, hstep⟩ := Option.ite_none_right_eq_some.mp hstep
          obtain ⟨⟨targets, c'⟩, hcall, hd⟩ := Option.map_eq_some_iff.mp hstep
          cases hd
          exact .call hc hserves hcall
        · cases hstep
    | decrypt position crash =>
        dsimp only at hstep
        split at hstep
        · next result hresult =>
          cases hstep
          exact .decrypt hresult
        · cases hstep
    | write =>
        dsimp only at hstep
        split at hstep
        · next hwindow =>
          cases hstep
          exact .write hwindow
        · cases hstep
          exact .fail
        · cases hstep
    | writeFailed text =>
        dsimp only at hstep
        split at hstep
        · cases hstep
          exact .fail
        · cases hstep
    | finish =>
        obtain ⟨hdone, hd⟩ := Option.ite_none_right_eq_some.mp hstep
        cases hd
        simp only [Bool.and_eq_true, List.isEmpty_iff, beq_iff_eq] at hdone
        exact .finish hdone.1 hdone.2

theorem DownloadInv.enter (h : DownloadInv stored plain hash first count d)
    (hroom : d.written + d.window.length < d.blockCount) :
    DownloadInv stored plain hash first count
      { d with window := d.window ++ [.calling .idle] } := by
  have hcount := h.blockCount_eq
  refine { h with window_le := ?_, right := ?_, locked := ?_ }
  · show d.written + (d.window ++ [_]).length ≤ count
    rw [List.length_append, List.length_singleton]
    omega
  · intro k f hf
    rw [List.getElem?_append] at hf
    split at hf
    · exact h.right k f hf
    · have hmem := List.mem_of_getElem? hf
      rw [List.mem_singleton.mp hmem]
      trivial
  · intro hlocked
    exact List.mem_append_left _ (h.locked hlocked)

theorem DownloadInv.step (hcontents : Contents cipher stored plain hash) {a : DownloadAction}
    (h : DownloadInv stored plain hash first count d)
    (hstep : downloadStep cipher stored d a = some d') :
    DownloadInv stored plain hash first count d' := by
  obtain ⟨-, hfinished, hcase⟩ := downloadStep_cases hstep
  cases hcase with
  | start _ hroom => exact h.enter hroom
  -- The call moves on; the table stays right, whoever has the lock to renew it.
  | @call position a c targets c' hc hserves hcall =>
      obtain ⟨hsound, hcount⟩ := callStep_table hcall h.sound
      refine h.set hc hsound hcount
        (callStep_right hcall h.sound (h.right position _ hc) hserves) ?_
      intro hlocked
      rcases callStep_locked hcall hlocked with rfl | ⟨hl, hne⟩
      · exact .inl rfl
      · exact .inr ⟨hl, by simpa using hne⟩
  | @decrypt position crash result hresult =>
      refine h.set hresult h.sound rfl
        (digestAndDecryptBlock_right hcontents crash (h.right position _ hresult)) ?_
      intro hlocked
      exact .inr ⟨hlocked, by simp⟩
  | write hwindow => exact h.write hwindow hfinished
  | fail => exact { h with }
  | finish _ hwritten => exact { h with finished := fun _ => hwritten.trans h.blockCount_eq }

theorem DownloadInv.run (hcontents : Contents cipher stored plain hash) {as : List DownloadAction}
    (h : DownloadInv stored plain hash first count d)
    (hrun : (downloads cipher stored).exec d as = some d') :
    DownloadInv stored plain hash first count d' :=
  Machine.exec_invariant _ (DownloadInv stored plain hash first count)
    (fun hi hs => hi.step hcontents hs) h hrun

/-- **A run that is over has written the whole file.** -/
theorem download_finished (hcontents : Contents cipher stored plain hash)
    {as : List DownloadAction} (h : DownloadInv stored plain hash first count d)
    (hrun : (downloads cipher stored).exec d as = some d') (hfinished : d'.finished = true) :
    d'.output = ((List.range count).map plain).flatten ∧
      d'.manifest = first ++ ((List.range count).map hash).flatten := by
  have h' := h.run hcontents hrun
  have hwritten := h'.finished hfinished
  refine ⟨?_, ?_⟩
  · rw [h'.output_eq, hwritten]
  · rw [h'.manifest_eq, hwritten]

/-! ## Progress -/

/-- How many steps a call can still take. -/
def FetchCall.work : FetchCall → Nat
  | .idle => 8
  | .fetching _ _ false => 7
  | .expired _ => 6
  | .listing => 5
  | .refreshed => 4
  | .fetching _ _ true => 3
  | .done _ => 2

def BlockFetch.work : BlockFetch → Nat
  | .calling c => c.work
  | .ready _ => 1

def Download.work (d : Download) : Nat :=
  9 * (d.blockCount - (d.written + d.window.length)) + (d.window.map BlockFetch.work).sum +
    (if d.finished then 0 else 1) + (if d.error.isSome then 0 else 1)

theorem BlockTargets.work_locate_false (t : BlockTargets) (position : Nat) :
    (t.locate position false).work ≤ 7 := by
  unfold BlockTargets.locate
  split
  · simp [FetchCall.work]
  · exact Nat.le_refl 7

theorem BlockTargets.work_locate_true (t : BlockTargets) (position : Nat) :
    (t.locate position true).work ≤ 3 := by
  unfold BlockTargets.locate
  split
  · simp [FetchCall.work]
  · exact Nat.le_refl 3

theorem callStep_work {t t' : BlockTargets} {position : Nat} {c c' : FetchCall} {a : CallAction}
    (h : callStep t position c a = some (t', c')) : c'.work < c.work := by
  unfold callStep at h
  split at h
  · cases h
    exact Nat.lt_succ_of_le (t.work_locate_false position)
  · -- An answer ends the call, unless it is an expired link.
    next retried _ =>
    cases h
    cases retried with
    | false => simp [FetchCall.work]
    | true => simp [FetchCall.work]
  · next generation retried e =>
    split at h
    · next hexpired =>
      -- Only the first expired link leads back, to a new table.
      cases h
      cases retried with
      | false => exact Nat.lt_succ_self 6
      | true => simp at hexpired
    · cases h
      cases retried with
      | false => simp [FetchCall.work]
      | true => simp [FetchCall.work]
  · split at h
    · cases h
    · split at h
      · cases h
        simp [FetchCall.work]
      · cases h
        simp [FetchCall.work]
  · -- A listing takes the table over or fails.
    next reply =>
    have hpair := Option.some.inj h
    rw [show c' = (t.install reply).2 from (congrArg Prod.snd hpair).symm]
    unfold BlockTargets.install
    split
    · simp [FetchCall.work]
    · split
      · simp [FetchCall.work]
      · simp [FetchCall.work]
  · cases h
    exact Nat.lt_succ_of_le (t.work_locate_true position)
  · cases h

theorem sum_map_set {α : Type} (work : α → Nat) {l : List α} {k : Nat} {f g : α}
    (hk : l[k]? = some f) :
    ((l.set k g).map work).sum + work f = (l.map work).sum + work g := by
  induction l generalizing k with
  | nil => simp at hk
  | cons x l ih =>
      cases k with
      | zero =>
          simp only [List.getElem?_cons_zero, Option.some.injEq] at hk
          subst hk
          simp only [List.set_cons_zero, List.map_cons, List.sum_cons]
          omega
      | succ k =>
          simp only [List.getElem?_cons_succ] at hk
          have hrest := ih hk
          simp only [List.set_cons_succ, List.map_cons, List.sum_cons]
          omega

/-- A change of one entry of the window to one with less to do. -/
theorem Download.work_set {targets : BlockTargets} {k : Nat} {f g : BlockFetch}
    (hk : d.window[k]? = some f) (hcount : targets.expectedBlocks = d.targets.expectedBlocks)
    (hlt : g.work < f.work) :
    ({ d with targets := targets, window := d.window.set k g } : Download).work < d.work := by
  have hsum : ((d.window.set k g).map BlockFetch.work).sum + f.work =
      (d.window.map BlockFetch.work).sum + g.work := sum_map_set _ hk
  simp only [Download.work, Download.blockCount, hcount, List.length_set]
  omega

theorem download_work_step {a : DownloadAction} (h : DownloadInv stored plain hash first count d)
    (hstep : downloadStep cipher stored d a = some d') : d'.work < d.work := by
  obtain ⟨herror, hfinished, hcase⟩ := downloadStep_cases hstep
  cases hcase with
  | start _ hroom =>
      have hlt : d.written + d.window.length < d.targets.expectedBlocks := hroom
      simp only [Download.work, Download.blockCount, List.map_append, List.sum_append,
        List.length_append, List.map_singleton, List.sum_singleton, List.length_singleton,
        BlockFetch.work, FetchCall.work]
      omega
  | call hc _ hcall =>
      exact Download.work_set hc (callStep_table hcall h.sound).2 (callStep_work hcall)
  | decrypt hresult => exact Download.work_set hresult rfl (Nat.lt_succ_self 1)
  | write hwindow =>
      simp only [Download.work, Download.blockCount, hwindow, List.map_cons, List.sum_cons,
        List.length_cons, BlockFetch.work]
      omega
  | fail => simp [Download.work, Download.blockCount, herror]
  | finish => simp [Download.work, Download.blockCount, hfinished]

def BlockFetch.failed : BlockFetch → Bool
  | .calling (.done (.error _)) => true
  | .ready (.error _) => true
  | _ => false

/-- Nothing has failed. -/
structure Download.Healthy (d : Download) : Prop where
  error_eq : d.error = none
  window : ∀ f ∈ d.window, f.failed = false

theorem Download.Healthy.set (h : d.Healthy) (targets : BlockTargets) (k : Nat) {g : BlockFetch}
    (hg : g.failed = false) :
    ({ d with targets := targets, window := d.window.set k g } : Download).Healthy where
  error_eq := h.error_eq
  window := by
    intro f hf
    rcases List.mem_or_eq_of_mem_set hf with hmem | rfl
    · exact h.window f hmem
    · exact hg

/-- The table is listed again, and nothing has changed. -/
theorem BlockTargets.Sound.install_same {t : BlockTargets} (h : t.Sound) :
    (t.install (.ok t.blocks)).2 = .refreshed := by
  have hlisted : (Except.ok t.blocks).bind orderBlocks = .ok t.blocks := orderBlocks_ordered h.ordered
  simp [BlockTargets.install, hlisted, h.length_eq]

/-- A fetch of the window goes on, and its step is one of the run. -/
theorem call_enabled (hhealthy : d.Healthy) (hfinished : d.finished = false) {k : Nat}
    {c c' : FetchCall} {a : CallAction} {targets : BlockTargets}
    (hc : d.window[k]? = some (.calling c)) (hserves : Serves stored c a = true)
    (hstep : callStep d.targets (d.written + k) c a = some (targets, c'))
    (hfine : (BlockFetch.calling c').failed = false) :
    ∃ a d', downloadStep cipher stored d a = some d' ∧ d'.Healthy := by
  have hgo : ¬ (d.error.isSome || d.finished) = true := by simp [hhealthy.error_eq, hfinished]
  refine ⟨.call k a, _, ?_, hhealthy.set targets k hfine⟩
  simp only [downloadStep, if_neg hgo, hc, if_pos hserves, hstep, Option.map_some]

/-- The call that holds the lock lists the revision. -/
theorem listing_enabled (h : DownloadInv stored plain hash first count d) (hhealthy : d.Healthy)
    (hfinished : d.finished = false) {k : Nat} (hk : d.window[k]? = some (.calling .listing)) :
    ∃ a d', downloadStep cipher stored d a = some d' ∧ d'.Healthy := by
  apply call_enabled hhealthy hfinished hk (a := .listed (.ok d.targets.blocks)) rfl rfl
  show (BlockFetch.calling (d.targets.install (.ok d.targets.blocks)).2).failed = false
  rw [h.sound.install_same]
  rfl

/-- The first fetch of the window goes on, or the one that it waits for does. -/
theorem front_call_enabled (hcontents : Contents cipher stored plain hash)
    (hcomplete : ∀ i < count, ∃ ciphertext, (i + 1, ciphertext) ∈ stored)
    (h : DownloadInv stored plain hash first count d) (hhealthy : d.Healthy)
    (hfinished : d.finished = false) {c : FetchCall} (hfront : d.window[0]? = some (.calling c)) :
    ∃ a d', downloadStep cipher stored d a = some d' ∧ d'.Healthy := by
  have hok : (BlockFetch.calling c).failed = false :=
    hhealthy.window _ (List.mem_of_getElem? hfront)
  have hwritten : d.written < count := by
    have hle := h.window_le
    -- The first block in the window is the next one to be written.
    have hpos := (List.getElem?_eq_some_iff.mp hfront).1
    omega
  have hlt : d.written < d.targets.blocks.length := by
    rw [h.sound.length_eq]
    show d.written < d.blockCount
    rw [h.blockCount_eq]
    exact hwritten
  have hlocate : ∀ retried, d.targets.locate (d.written + 0) retried =
      .fetching (d.targets.blocks[d.written]) d.targets.generation retried := by
    intro retried
    simp [BlockTargets.locate, List.getElem?_eq_getElem hlt]
  cases c with
  | idle | refreshed =>
      apply call_enabled hhealthy hfinished hfront (a := .locate) rfl rfl
      rw [hlocate]
      rfl
  | fetching block generation retried =>
      have hindex : block.index = (d.written : Int) + 1 := h.right 0 _ hfront
      obtain ⟨ciphertext, hmem⟩ := hcomplete d.written hwritten
      apply call_enabled hhealthy hfinished hfront (a := .answer (.ok ciphertext)) ?_ rfl rfl
      have hnat : block.index.toNat = d.written + 1 := by omega
      simpa [Serves, hnat] using hmem
  -- The link has expired: somebody lists already, or the table is new, or the call lists itself.
  | expired seen =>
      by_cases hlocked : d.targets.refreshing = true
      · obtain ⟨k, hk⟩ := List.mem_iff_getElem?.mp (h.locked hlocked)
        exact listing_enabled h hhealthy hfinished hk
      · by_cases hseen : d.targets.generation = seen
        · have hlock : callStep d.targets (d.written + 0) (.expired seen) .lock =
              some ({ d.targets with refreshing := true }, .listing) := by
            simp [callStep, hlocked, hseen]
          exact call_enabled hhealthy hfinished hfront rfl hlock rfl
        · have hlock : callStep d.targets (d.written + 0) (.expired seen) .lock =
              some (d.targets, .refreshed) := by
            simp [callStep, hlocked, hseen]
          exact call_enabled hhealthy hfinished hfront rfl hlock rfl
  | listing => exact listing_enabled h hhealthy hfinished hfront
  | done result =>
      cases result with
      | error e => cases hok
      | ok ciphertext =>
          have hgo : ¬ (d.error.isSome || d.finished) = true := by
            simp [hhealthy.error_eq, hfinished]
          have hmem : (d.written + 1, ciphertext) ∈ stored := h.right 0 _ hfront
          refine ⟨.decrypt 0 none, _, ?_, hhealthy.set d.targets 0
            (g := .ready (.ok (cipher.digest ciphertext, plain d.written))) rfl⟩
          simp only [downloadStep, if_neg hgo, hfront, digestAndDecryptBlock,
            hcontents.plain _ _ hmem, Except.map]

/-- A run in which nothing has failed has a next step in which nothing does. -/
theorem download_enabled (hcontents : Contents cipher stored plain hash)
    (hcomplete : ∀ i < count, ∃ ciphertext, (i + 1, ciphertext) ∈ stored)
    (h : DownloadInv stored plain hash first count d) (hhealthy : d.Healthy)
    (hfinished : d.finished = false) :
    ∃ a d', downloadStep cipher stored d a = some d' ∧ d'.Healthy := by
  have hgo : ¬ (d.error.isSome || d.finished) = true := by simp [hhealthy.error_eq, hfinished]
  have hcount := h.blockCount_eq
  cases hwindow : d.window with
  | nil =>
      have hle := h.window_le
      rw [hwindow, List.length_nil] at hle
      -- Nothing is in the window: the download is complete, or the next block starts.
      by_cases hdone : d.written = count
      · refine ⟨.finish, { d with finished := true }, ?_, hhealthy.error_eq, hhealthy.window⟩
        simp [downloadStep, hgo, hwindow, hdone, hcount]
      · refine ⟨.start, { d with window := d.window ++ [.calling .idle] }, ?_,
          hhealthy.error_eq, ?_⟩
        · have hlt : d.written < count := by omega
          simp [downloadStep, hgo, hwindow, hcount, hlt, maxConcurrentBlockDownloads]
        · intro f hf
          rcases List.mem_append.mp hf with hmem | hmem
          · exact hhealthy.window f hmem
          · rw [List.mem_singleton.mp hmem]
            rfl
  -- Otherwise the block in front moves, until it is written.
  | cons f rest =>
      have hfront : d.window[0]? = some f := by simp [hwindow]
      have hok : f.failed = false := hhealthy.window f (by simp [hwindow])
      cases f with
      | calling c => exact front_call_enabled hcontents hcomplete h hhealthy hfinished hfront
      | ready result =>
          cases result with
          | error e => cases hok
          | ok block =>
              obtain ⟨digest, plaintext⟩ := block
              refine ⟨.write, { d with
                window := rest
                written := d.written + 1
                output := d.output ++ plaintext
                manifest := d.manifest ++ digest }, ?_, hhealthy.error_eq, ?_⟩
              · simp only [downloadStep, if_neg hgo, hwindow]
              · intro f hf
                exact hhealthy.window f (by rw [hwindow]; exact List.mem_cons_of_mem _ hf)

/-- **Every run in which nothing has failed can be brought to its end.** -/
theorem download_finishes (hcontents : Contents cipher stored plain hash)
    (hcomplete : ∀ i < count, ∃ ciphertext, (i + 1, ciphertext) ∈ stored)
    (h : DownloadInv stored plain hash first count d) (hhealthy : d.Healthy) :
    ∃ as d', (downloads cipher stored).exec d as = some d' ∧ d'.finished = true := by
  induction hwork : d.work using Nat.strongRecOn generalizing d with
  | _ work ih =>
      cases hfinished : d.finished with
      | true => exact ⟨[], d, rfl, hfinished⟩
      | false =>
          obtain ⟨a, t, hstep, hhealthy'⟩ :=
            download_enabled hcontents hcomplete h hhealthy hfinished
          have hlt := download_work_step h hstep
          obtain ⟨as, d', hexec, hdone⟩ :=
            ih t.work (by omega) (h.step hcontents hstep) hhealthy' rfl
          exact ⟨a :: as, d', (Machine.exec_cons_iff _).mpr ⟨t, hstep, hexec⟩, hdone⟩

/-- No run goes on for ever. -/
theorem download_bounded (hcontents : Contents cipher stored plain hash) {as : List DownloadAction}
    (h : DownloadInv stored plain hash first count d)
    (hrun : (downloads cipher stored).exec d as = some d') : as.length ≤ d.work := by
  induction as generalizing d with
  | nil => exact Nat.zero_le _
  | cons a as ih =>
      obtain ⟨t, hstep, hrest⟩ := (Machine.exec_cons_iff _).mp hrun
      have hlt := download_work_step h hstep
      have hlen := ih (h.step hcontents hstep) hrest
      simp only [List.length_cons]
      omega

end ProtonDrive.Content
