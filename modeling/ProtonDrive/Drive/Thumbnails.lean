import Mathlib.Data.List.AList
import ProtonDrive.Lib.Exchange
import ProtonDrive.Drive.Client

/-!
# Thumbnails of many files

`enumerate_thumbnails`, of a client and of a visitor of a public link. The thumbnail ids of a volume
are resolved to blocks in chunks, and a file that cannot be answered for gets an error of its own.
Both keep the files that are still to be answered for in a map, from which every answer removes one.

* `clientChunk_eq` — the set of processed ids, which only the client keeps, makes no difference.
* `thumbnail_per_file` — every file is answered for once, with nothing but its own thumbnail.
-/

namespace ProtonDrive.Thumbnails

open OpenPgp

abbrev ThumbnailId := String

/-! ## Requests -/

structure ThumbnailDto where
  id : Option ThumbnailId
  thumbnailType : Int
  deriving DecidableEq, Repr

structure ThumbnailBlock where
  thumbnailId : ThumbnailId
  bareUrl : String
  token : String
  deriving DecidableEq, Repr

structure ThumbnailBlockError where
  thumbnailId : ThumbnailId
  error : String
  deriving DecidableEq, Repr

structure ThumbnailBlockListResponse where
  blocks : List ThumbnailBlock
  errors : List ThumbnailBlockError
  deriving DecidableEq, Repr

/-- What is read to find the thumbnail of a file: its link, the key of its parent, and the headers
of the thumbnails of a revision. -/
structure Lookups where
  linkDetails : NodeUid → Except ProtonError (List LinkDetails)
  resolveParentKey : NodeUid → LinkDetails → Except ProtonError Key
  revisionThumbnails : NodeUid → (revisionId : String) → Except ProtonError (List ThumbnailDto)

/-- The requests of a chunk, and the order in which a map gives its keys. The state is anything that
answers may depend on. -/
structure Services (σ : Type) where
  thumbnailBlocks : VolumeId → List ThumbnailId → Program σ ProtonError ThumbnailBlockListResponse
  getStorageBlob : (bareUrl token : String) → Program σ ProtonError Message
  keyOrder : List ThumbnailId → List ThumbnailId
  thumbnailBlocks_returns : ∀ volumeId ids, (thumbnailBlocks volumeId ids).Returns
  getStorageBlob_returns : ∀ bareUrl token, (getStorageBlob bareUrl token).Returns
  keyOrder_perm : ∀ ids, (keyOrder ids).Perm ids

/-! ## Thumbnails of a file -/

def fileNotFound (uid : NodeUid) : ProtonError :=
  .invalidOperation ("file " ++ uid.text ++ " not found")

def notAFile (uid : NodeUid) : ProtonError :=
  .invalidOperation ("node " ++ uid.text ++ " is not a file")

def missingContentKeyPacket : ProtonError :=
  .invalidOperation "file is missing its content key packet"

def noActiveRevision : ProtonError := .invalidOperation "file has no active revision"

def orElse {α : Type} (e : ProtonError) : Option α → Except ProtonError α
  | some a => .ok a
  | none => .error e

/-- The first header of the wanted type, if it has an id. -/
def wantedId (wanted : Int) (thumbnails : List ThumbnailDto) : Option ThumbnailId :=
  (thumbnails.find? (fun t => t.thumbnailType == wanted)).bind ThumbnailDto.id

def fileThumbnailTarget (l : Lookups) (wanted : Int) (uid : NodeUid) :
    Except ProtonError (Session × Option ThumbnailId) := do
  let links ← l.linkDetails uid
  let detail ← orElse (fileNotFound uid) links.head?
  let file ← orElse (notAFile uid) detail.fileProperties
  let contentKeyPacket ← orElse missingContentKeyPacket file.contentKeyPacket
  let revision ← orElse noActiveRevision file.activeRevision
  let parentKey ← l.resolveParentKey uid detail
  let node ← decryptLink parentKey detail.link
  let contentKey ← decryptContentKey node.nodeKey contentKeyPacket
  let thumbnails ← l.revisionThumbnails uid revision.id
  return (contentKey, wantedId wanted thumbnails)

namespace PublicLink

def nodeNotFound (uid : NodeUid) : ProtonError :=
  .invalidOperation ("node " ++ uid.text ++ " was not found")

def noActiveRevision : ProtonError :=
  .invalidOperation "the shared file has no active revision"

def noContentKeyPacket : ProtonError :=
  .invalidOperation "the file has no content key packet"

def thumbnailTarget (l : Lookups) (wanted : Int) (uid : NodeUid) :
    Except ProtonError (Session × Option ThumbnailId) := do
  let links ← l.linkDetails uid
  let details ← orElse (nodeNotFound uid) links.head?
  let revision ← orElse noActiveRevision (details.fileProperties.bind FileDto.activeRevision)
  let parentKey ← l.resolveParentKey uid details
  let node ← decryptLink parentKey details.link
  let contentKeyPacket ←
    orElse noContentKeyPacket (details.fileProperties.bind FileDto.contentKeyPacket)
  let contentKey ← decryptContentKey node.nodeKey contentKeyPacket
  let thumbnails ← l.revisionThumbnails uid revision.id
  return (contentKey, wantedId wanted thumbnails)

end PublicLink

/-! ## Answers -/

structure FileThumbnail where
  fileUid : NodeUid
  result : Except ProtonError Bytes

/-- The files that are still to be answered for, by their thumbnail ids, and the answers. -/
structure Progress where
  targets : AList (fun _ : ThumbnailId => NodeUid × Session)
  results : List FileThumbnail

def Progress.push (uid : NodeUid) (result : Except ProtonError Bytes) (p : Progress) : Progress :=
  { p with results := p.results ++ [⟨uid, result⟩] }

/-- The file of a thumbnail id, if it is still there, is removed and answered for. -/
def Progress.report (id : ThumbnailId) (result : Except ProtonError Bytes) (p : Progress) :
    Progress :=
  match p.targets.lookup id with
  | none => p
  | some (uid, _) => { p with targets := p.targets.erase id }.push uid result

def noThumbnail (uid : NodeUid) : ProtonError :=
  .invalidOperation
    ("node " ++ uid.text ++ " has no thumbnail of the requested type")

def unresolved (e : ProtonError) : ProtonError :=
  .invalidOperation ("resolve thumbnail blocks: " ++ e.text)

def thumbnailNotFound : ProtonError := .invalidOperation "thumbnail not found"

/-- The plaintext of the data packet, which has to be of this session key. -/
def decryptThumbnail (contentKey : Session) (ciphertext : Message) : Except ProtonError Bytes :=
  match dataPacket ciphertext with
  | none => .error (parseError "block has no SEIPD packet")
  | some (session, plaintext, _) =>
      if session = contentKey then .ok plaintext else .error (decryptError "block")

/-- `encrypt_thumbnail`: one data packet, signed inside. -/
def encryptThumbnail (contentKey : Session) (signer : Key) (plaintext : Bytes) : Message :=
  [.seipd contentKey plaintext (some signer)]

section

variable {σ : Type} (services : Services σ)

def download (contentKey : Session) (block : ThumbnailBlock) :
    Program σ ProtonError (Except ProtonError Bytes) := do
  match ← (services.getStorageBlob block.bareUrl block.token).attempt with
  | .ok ciphertext => return decryptThumbnail contentKey ciphertext
  | .error e => return .error e

/-! ## Chunks -/

/-- The ids of a chunk whose files are still there get the same error. -/
def reportAll (e : ProtonError) (ids : List ThumbnailId) (p : Progress) : Progress :=
  ids.foldl (fun p id => p.report id (.error e)) p

/-- The loop over the blocks, which also collects the ids that it has seen. -/
def clientBlocks : List ThumbnailBlock → (processed : List ThumbnailId) → Progress →
    Program σ ProtonError (List ThumbnailId × Progress)
  | [], processed, p => return (processed, p)
  | block :: blocks, processed, p =>
      match p.targets.lookup block.thumbnailId with
      | none => clientBlocks blocks (block.thumbnailId :: processed) p
      | some (_, contentKey) => do
          let downloaded ← download services contentKey block
          clientBlocks blocks (block.thumbnailId :: processed)
            (p.report block.thumbnailId downloaded)

/-- The loop over the errors; only an id that was still there is processed. -/
def clientErrors : List ThumbnailBlockError → (processed : List ThumbnailId) → Progress →
    List ThumbnailId × Progress
  | [], processed, p => (processed, p)
  | err :: errors, processed, p =>
      match p.targets.lookup err.thumbnailId with
      | none => clientErrors errors processed p
      | some _ =>
          clientErrors errors (err.thumbnailId :: processed)
            (p.report err.thumbnailId (.error (.invalidOperation err.error)))

/-- One chunk in `enumerate_thumbnails_ctx`. -/
def clientChunk (volumeId : VolumeId) (chunk : List ThumbnailId) (p : Progress) :
    Program σ ProtonError Progress := do
  match ← (services.thumbnailBlocks volumeId chunk).attempt with
  | .error e => return reportAll (unresolved e) chunk p
  | .ok response =>
      let (processed, p) ← clientBlocks services response.blocks [] p
      let (processed, p) := clientErrors response.errors processed p
      return reportAll thumbnailNotFound (chunk.filter (fun id => !processed.contains id)) p

namespace PublicLink

def reportBlocks : List ThumbnailBlock → Progress → Program σ ProtonError Progress
  | [], p => return p
  | block :: blocks, p =>
      match p.targets.lookup block.thumbnailId with
      | none => reportBlocks blocks p
      | some (_, contentKey) => do
          let downloaded ← download services contentKey block
          reportBlocks blocks (p.report block.thumbnailId downloaded)

def reportErrors (errors : List ThumbnailBlockError) (p : Progress) : Progress :=
  errors.foldl (fun p err => p.report err.thumbnailId (.error (.invalidOperation err.error))) p

def drainThumbnailChunk (volumeId : VolumeId) (chunk : List ThumbnailId) (p : Progress) :
    Program σ ProtonError Progress := do
  match ← (services.thumbnailBlocks volumeId chunk).attempt with
  | .error e => return reportAll (unresolved e) chunk p
  | .ok response =>
      let p ← reportBlocks services response.blocks p
      return reportAll thumbnailNotFound chunk (reportErrors response.errors p)

end PublicLink

/-! ## Enumerations -/

abbrev Target := NodeUid → Except ProtonError (Session × Option ThumbnailId)

def findTarget (target : Target) (p : Progress) (uid : NodeUid) : Progress :=
  match target uid with
  | .ok (contentKey, some thumbnailId) =>
      { p with targets := p.targets.insert thumbnailId (uid, contentKey) }
  | .ok (_, none) => p.push uid (.error (noThumbnail uid))
  | .error e => p.push uid (.error e)

def maxThumbnailIdsPerRequest : Nat := 30

/-- One chunk after the other. -/
def chunkLoop (chunkStep : List ThumbnailId → Progress → Program σ ProtonError Progress) :
    List (List ThumbnailId) → Progress → Program σ ProtonError Progress
  | [], p => return p
  | chunk :: rest, p => do
      let p ← chunkStep chunk p
      chunkLoop chunkStep rest p

/-- One volume after the other, each with a map of its own. -/
def volumeLoop (target : Target)
    (chunkStep : VolumeId → List ThumbnailId → Progress → Program σ ProtonError Progress) :
    List (VolumeId × List LinkId) → List FileThumbnail → Program σ ProtonError (List FileThumbnail)
  | [], results => return results
  | (volumeId, linkIds) :: rest, results => do
      let p := (linkIds.map (NodeUid.mk volumeId)).foldl (findTarget target) ⟨∅, results⟩
      let thumbnailIds := services.keyOrder p.targets.keys
      let p ← chunkLoop (chunkStep volumeId)
        (Context.chunks maxThumbnailIdsPerRequest thumbnailIds) p
      volumeLoop target chunkStep rest p.results

def enumerateThumbnailsCtx (l : Lookups) (wanted : Int) (uids : List NodeUid) :
    Program σ ProtonError (List FileThumbnail) :=
  volumeLoop services (fileThumbnailTarget l wanted) (clientChunk services)
    (Context.groupByVolume uids) []

def PublicLink.enumerateThumbnails (l : Lookups) (wanted : Int) (uids : List NodeUid) :
    Program σ ProtonError (List FileThumbnail) :=
  volumeLoop services (PublicLink.thumbnailTarget l wanted)
    (PublicLink.drainThumbnailChunk services) (Context.groupByVolume uids) []

end

/-! ## Progress -/

/-- The files that have been answered for, and those that still have to be. -/
def Progress.files (p : Progress) : List NodeUid :=
  p.targets.entries.map (fun entry => entry.2.1) ++ p.results.map FileThumbnail.fileUid

theorem entries_perm {targets : AList (fun _ : ThumbnailId => NodeUid × Session)}
    {id : ThumbnailId} {v : NodeUid × Session} (h : targets.lookup id = some v) :
    targets.entries.Perm (⟨id, v⟩ :: (targets.erase id).entries) := by
  have hmem : id ∈ targets.entries.keys :=
    List.mem_keys_of_mem (AList.mem_lookup_iff.mp h)
  obtain ⟨v', before, after, -, hentries, herase⟩ := List.exists_of_kerase hmem
  have hv : targets.lookup id = some v' := by
    apply AList.mem_lookup_iff.mpr
    rw [hentries]
    exact List.mem_append_right _ List.mem_cons_self
  rw [h] at hv
  cases hv
  show targets.entries.Perm (⟨id, v⟩ :: targets.entries.kerase id)
  rw [herase, hentries]
  exact List.perm_middle

/-- A report moves a file, if there is one, from those to be answered for to the answers. -/
theorem report_files (id : ThumbnailId) (result : Except ProtonError Bytes) (p : Progress) :
    (p.report id result).files.Perm p.files := by
  unfold Progress.report
  split
  · exact List.Perm.refl _
  · next uid contentKey hlookup =>
    have hentries := (entries_perm hlookup).map (fun entry => entry.2.1)
    unfold Progress.files Progress.push
    rw [List.map_append, ← List.append_assoc]
    apply (List.perm_append_singleton _ _).trans
    exact (hentries.append_right _).symm

theorem report_gone {id other : ThumbnailId} (result : Except ProtonError Bytes) {p : Progress}
    (h : p.targets.lookup other = none) : (p.report id result).targets.lookup other = none := by
  unfold Progress.report
  split
  · exact h
  · show (p.targets.erase id).lookup other = none
    by_cases hsame : other = id
    · rw [hsame]
      exact AList.lookup_erase id p.targets
    · rw [AList.lookup_erase_ne hsame]
      exact h

theorem report_self (id : ThumbnailId) (result : Except ProtonError Bytes) (p : Progress) :
    (p.report id result).targets.lookup id = none := by
  unfold Progress.report
  split
  · next hnone => exact hnone
  · exact AList.lookup_erase id p.targets

section

variable {σ : Type} (services : Services σ) (target : Target)

/-- The block is in some answer to a request for blocks. -/
def Served (block : ThumbnailBlock) : Prop :=
  ∃ volumeId chunk s s' response,
    (services.thumbnailBlocks volumeId chunk).run s = some (s', .ok response) ∧
    block ∈ response.blocks

/-- The data was fetched for a block of this thumbnail. -/
def Obtained (id : ThumbnailId) (ciphertext : Message) : Prop :=
  ∃ block, Served services block ∧ block.thumbnailId = id ∧
    ∃ s s', (services.getStorageBlob block.bareUrl block.token).run s = some (s', .ok ciphertext)

/-- What the content key of a file makes of the data for its thumbnail. -/
def Own (uid : NodeUid) (bytes : Bytes) : Prop :=
  ∃ contentKey id ciphertext, target uid = .ok (contentKey, some id) ∧
    Obtained services id ciphertext ∧ decryptThumbnail contentKey ciphertext = .ok bytes

/-- Every target is what was found for its file, and every answer is the file's own. -/
structure Sound (p : Progress) : Prop where
  targets : ∀ id uid contentKey, p.targets.lookup id = some (uid, contentKey) →
    target uid = .ok (contentKey, some id)
  results : ∀ r ∈ p.results, ∀ bytes, r.result = .ok bytes → Own services target r.fileUid bytes

/-- From `p` to `q` files have been answered for, and soundly. -/
structure Advances (p q : Progress) : Prop where
  files : q.files.Perm p.files
  gone : ∀ id, p.targets.lookup id = none → q.targets.lookup id = none
  sound : Sound services target p → Sound services target q

variable {services target}

theorem Advances.refl (p : Progress) : Advances services target p p :=
  ⟨List.Perm.refl _, fun _ h => h, fun h => h⟩

theorem Advances.trans {p q r : Progress} (h : Advances services target p q)
    (h' : Advances services target q r) : Advances services target p r :=
  ⟨h'.files.trans h.files, fun id hnone => h'.gone id (h.gone id hnone),
    fun hsound => h'.sound (h.sound hsound)⟩

theorem Sound.push {p : Progress} (h : Sound services target p) {uid : NodeUid}
    {result : Except ProtonError Bytes}
    (hown : ∀ bytes, result = .ok bytes → Own services target uid bytes) :
    Sound services target (p.push uid result) := by
  refine ⟨h.targets, ?_⟩
  intro r hr bytes hbytes
  rcases List.mem_append.mp hr with hr | hr
  · exact h.results r hr bytes hbytes
  · rw [List.mem_singleton.mp hr] at hbytes ⊢
    exact hown bytes hbytes

/-- One report. -/
theorem advances_report {id : ThumbnailId} {result : Except ProtonError Bytes} {p : Progress}
    (hown : ∀ uid contentKey bytes, target uid = .ok (contentKey, some id) →
      p.targets.lookup id = some (uid, contentKey) → result = .ok bytes →
      Own services target uid bytes) :
    Advances services target p (p.report id result) := by
  refine ⟨report_files id result p, fun other => report_gone result, ?_⟩
  intro hsound
  unfold Progress.report
  split
  · exact hsound
  · next uid contentKey hlookup =>
    have hfound := hsound.targets id uid contentKey hlookup
    -- What is reported is no longer a target; the others keep their keys.
    have herased : Sound services target { p with targets := p.targets.erase id } := by
      refine ⟨?_, hsound.results⟩
      intro other uid' contentKey' hother
      apply hsound.targets
      by_cases hsame : other = id
      · rw [hsame, AList.lookup_erase] at hother
        cases hother
      · rwa [AList.lookup_erase_ne hsame] at hother
    apply herased.push
    intro bytes hbytes
    exact hown uid contentKey bytes hfound hlookup hbytes

theorem advances_report_error (id : ThumbnailId) (e : ProtonError) (p : Progress) :
    Advances services target p (p.report id (.error e)) := by
  apply advances_report
  intro uid contentKey bytes _ _ h
  cases h

/-- All of a chunk are reported, if they have not been before. -/
theorem advances_reportAll (e : ProtonError) (ids : List ThumbnailId) (p : Progress) :
    Advances services target p (reportAll e ids p) ∧
      ∀ id ∈ ids, (reportAll e ids p).targets.lookup id = none := by
  induction ids generalizing p with
  | nil => exact ⟨.refl p, fun _ h => by cases h⟩
  | cons id ids ih =>
      obtain ⟨hrest, hgone⟩ := ih (p.report id (.error e))
      refine ⟨(advances_report_error id e p).trans hrest, ?_⟩
      intro other hother
      rcases List.mem_cons.mp hother with rfl | hother
      · exact hrest.gone other (report_self other _ p)
      · exact hgone other hother

theorem advances_reportErrors (errors : List ThumbnailBlockError) (p : Progress) :
    Advances services target p (PublicLink.reportErrors errors p) := by
  induction errors generalizing p with
  | nil => exact .refl p
  | cons err errors ih => exact (advances_report_error _ _ p).trans (ih _)

/-- What is downloaded for a served block, and decrypted, is the file's own. -/
theorem delivers_download {block : ThumbnailBlock} (hserved : Served services block)
    (contentKey : Session) :
    (download services contentKey block).Delivers (fun result => ∀ uid bytes,
      target uid = .ok (contentKey, some block.thumbnailId) → result = .ok bytes →
      Own services target uid bytes) := by
  apply Program.Delivers.bind
    (Program.Delivers.attempt (services.getStorageBlob_returns block.bareUrl block.token))
  rintro (e | ciphertext) ⟨s, s', hrun⟩
  · apply Program.Delivers.pure
    intro uid bytes _ h
    cases h
  · apply Program.Delivers.pure
    intro uid bytes htarget h
    exact ⟨contentKey, block.thumbnailId, ciphertext, htarget,
      ⟨block, hserved, rfl, s, s', hrun⟩, h⟩

variable (target) in
theorem delivers_reportBlocks {blocks : List ThumbnailBlock}
    (hserved : ∀ block ∈ blocks, Served services block) (p : Progress) :
    (PublicLink.reportBlocks services blocks p).Delivers (fun q =>
      Advances services target p q ∧
        ∀ block ∈ blocks, q.targets.lookup block.thumbnailId = none) := by
  induction blocks generalizing p with
  | nil => exact Program.Delivers.pure ⟨.refl p, fun _ h => by cases h⟩
  | cons block blocks ih =>
      have hrest : ∀ block ∈ blocks, Served services block :=
        fun block h => hserved block (List.mem_cons_of_mem _ h)
      unfold PublicLink.reportBlocks
      split
      · -- The block is of no target: the source passes over it.
        next hnone =>
        apply (ih hrest p).weaken
        rintro q ⟨hq, hgone⟩
        refine ⟨hq, ?_⟩
        intro other hother
        rcases List.mem_cons.mp hother with rfl | hother
        · exact hq.gone _ hnone
        · exact hgone other hother
      · -- The block is downloaded, and its target reported with what came of it.
        next uid contentKey hlookup =>
        apply Program.Delivers.bind
          (delivers_download (hserved block List.mem_cons_self) contentKey)
        intro downloaded hdownloaded
        have hreport : Advances services target p (p.report block.thumbnailId downloaded) := by
          apply advances_report
          intro uid' contentKey' bytes htarget hlookup' hbytes
          rw [hlookup] at hlookup'
          cases hlookup'
          exact hdownloaded uid bytes htarget hbytes
        apply (ih hrest (p.report block.thumbnailId downloaded)).weaken
        rintro q ⟨hq, hgone⟩
        refine ⟨hreport.trans hq, ?_⟩
        intro other hother
        rcases List.mem_cons.mp hother with rfl | hother
        · exact hq.gone _ (report_self _ _ p)
        · exact hgone other hother

/-- A chunk is answered for when it has been drained. -/
theorem delivers_drain (volumeId : VolumeId) (chunk : List ThumbnailId) (p : Progress) :
    (PublicLink.drainThumbnailChunk services volumeId chunk p).Delivers (fun q =>
      Advances services target p q ∧ ∀ id ∈ chunk, q.targets.lookup id = none) := by
  apply Program.Delivers.bind
    (Program.Delivers.attempt (services.thumbnailBlocks_returns volumeId chunk))
  rintro (e | response) ⟨s, s', hrun⟩
  · exact Program.Delivers.pure (advances_reportAll (unresolved e) chunk p)
  · have hserved : ∀ block ∈ response.blocks, Served services block :=
      fun block h => ⟨volumeId, chunk, s, s', response, hrun, h⟩
    apply Program.Delivers.bind (delivers_reportBlocks target hserved p)
    rintro q ⟨hq, -⟩
    apply Program.Delivers.pure
    obtain ⟨hlast, hgone⟩ := advances_reportAll thumbnailNotFound chunk
      (PublicLink.reportErrors response.errors q)
    exact ⟨hq.trans ((advances_reportErrors response.errors q).trans hlast), hgone⟩

/-! ## The processed ids -/

/-- No file is left to be answered for under these ids. -/
def Gone (ids : List ThumbnailId) (p : Progress) : Prop :=
  ∀ id ∈ ids, p.targets.lookup id = none

variable (services) in
/-- The loop over the blocks does what that of the visitor does, and has seen every id. -/
theorem clientBlocks_run (blocks : List ThumbnailBlock) (processed : List ThumbnailId)
    (p : Progress) (s : σ) :
    (clientBlocks services blocks processed p).run s =
      ((PublicLink.reportBlocks services blocks p).run s).map (fun out => (out.1,
        out.2.map (fun q => ((blocks.map ThumbnailBlock.thumbnailId).reverse ++ processed, q)))) := by
  -- The loop of the client keeps the ids as well; by induction on the blocks.
  induction blocks generalizing processed p s with
  | nil => rfl
  | cons block blocks ih =>
      have hids : (List.map ThumbnailBlock.thumbnailId (block :: blocks)).reverse ++ processed =
          (blocks.map ThumbnailBlock.thumbnailId).reverse ++ block.thumbnailId :: processed := by
        rw [List.map_cons, List.reverse_cons, List.append_assoc]
        rfl
      unfold clientBlocks PublicLink.reportBlocks
      rw [hids]
      split
      · exact ih _ _ s
      · next uid contentKey hlookup =>
        show (Program.bind _ _).run s = ((Program.bind _ _).run s).map _
        unfold Program.bind
        dsimp only
        split
        · rfl
        · rfl
        · exact ih _ _ _

theorem clientErrors_eq (errors : List ThumbnailBlockError) {processed : List ThumbnailId}
    {p : Progress} (h : Gone processed p) :
    (clientErrors errors processed p).2 = PublicLink.reportErrors errors p ∧
      Gone (clientErrors errors processed p).1 (PublicLink.reportErrors errors p) := by
  induction errors generalizing processed p with
  | nil => exact ⟨rfl, h⟩
  | cons err errors ih =>
      unfold clientErrors
      split
      · -- The id was reported before, and to report it again changes nothing.
        next hnone =>
        have hsame : p.report err.thumbnailId (.error (.invalidOperation err.error)) = p := by
          unfold Progress.report
          rw [hnone]
        have hskip : PublicLink.reportErrors (err :: errors) p
            = PublicLink.reportErrors errors p :=
          congrArg (PublicLink.reportErrors errors) hsame
        rw [hskip]
        exact ih h
      · apply ih
        intro id hid
        rcases List.mem_cons.mp hid with rfl | hid
        · exact report_self _ _ p
        · exact report_gone _ (h id hid)

/-- To leave out ids without a file makes no difference. -/
theorem reportAll_filter (e : ProtonError) (chunk : List ThumbnailId)
    {processed : List ThumbnailId} {p : Progress} (h : Gone processed p) :
    reportAll e (chunk.filter (fun id => !processed.contains id)) p = reportAll e chunk p := by
  induction chunk generalizing p with
  | nil => rfl
  | cons id chunk ih =>
      have hafter : Gone processed (p.report id (.error e)) :=
        fun other hother => report_gone _ (h other hother)
      by_cases hid : id ∈ processed
      · have hsame : p.report id (.error e) = p := by
          unfold Progress.report
          rw [h id hid]
        rw [List.filter_cons_of_neg (by simpa using hid)]
        show _ = reportAll e chunk (p.report id (.error e))
        rw [hsame]
        exact ih h
      · rw [List.filter_cons_of_pos (by simpa using hid)]
        exact ih hafter

/-- The set of processed ids makes no difference. -/
theorem clientChunk_eq (services : Services σ) :
    clientChunk services = PublicLink.drainThumbnailChunk services := by
  funext volumeId chunk p
  -- The two chunks read the same and differ only in the set that one of them keeps.
  have hrun : ∀ s, (clientChunk services volumeId chunk p).run s =
      (PublicLink.drainThumbnailChunk services volumeId chunk p).run s := by
    intro s
    obtain ⟨t, r, hanswer⟩ := services.thumbnailBlocks_returns volumeId chunk s
    unfold clientChunk PublicLink.drainThumbnailChunk
    rw [Program.bind_ok (Program.attempt_run.mpr hanswer),
      Program.bind_ok (Program.attempt_run.mpr hanswer)]
    cases r with
    | error e => rfl
    | ok response =>
        have hserved : ∀ block ∈ response.blocks, Served services block :=
          fun block h => ⟨volumeId, chunk, s, t, response, hanswer, h⟩
        obtain ⟨u, q, hblocks, -, hgone⟩ :=
          delivers_reportBlocks (fun _ => .error .keysLocked) hserved p t
        have hclient := clientBlocks_run services response.blocks [] p t
        rw [hblocks] at hclient
        dsimp only
        rw [Program.bind_ok hblocks, Program.bind_ok hclient]
        -- Every block of the answer has been reported by now.
        have hprocessed :
            Gone ((response.blocks.map ThumbnailBlock.thumbnailId).reverse ++ []) q := by
          intro id hid
          rw [List.append_nil, List.mem_reverse] at hid
          obtain ⟨block, hblock, rfl⟩ := List.mem_map.mp hid
          exact hgone block hblock
        obtain ⟨herrors, hall⟩ := clientErrors_eq response.errors hprocessed
        show some (u, Except.ok (reportAll thumbnailNotFound (chunk.filter _) _)) = _
        rw [herrors, reportAll_filter thumbnailNotFound chunk hall]
        rfl
  have hext : ∀ x y : Program σ ProtonError Progress, (∀ s, x.run s = y.run s) → x = y := by
    rintro ⟨x⟩ ⟨y⟩ h
    exact congrArg Program.mk (funext h)
  exact hext _ _ hrun

/-! ## Enumerations -/

/-- A thumbnail id is that of one file. -/
def DistinctIds (target : Target) (uids : List NodeUid) : Prop :=
  ∀ uid ∈ uids, ∀ uid' ∈ uids, ∀ contentKey contentKey' id,
    target uid = .ok (contentKey, some id) → target uid' = .ok (contentKey', some id) → uid = uid'

theorem mem_files {p : Progress} {id : ThumbnailId} {uid : NodeUid} {contentKey : Session}
    (h : p.targets.lookup id = some (uid, contentKey)) : uid ∈ p.files := by
  apply List.mem_append_left
  exact List.mem_map.mpr ⟨_, AList.mem_lookup_iff.mp h, rfl⟩

/-- A file that is looked up is to be answered for, or has been. -/
theorem findTarget_files {p : Progress} {uid : NodeUid} (hsound : Sound services target p)
    (hfresh : uid ∉ p.files) (hdistinct : DistinctIds target (uid :: p.files)) :
    (findTarget target p uid).files.Perm (uid :: p.files) ∧
      Sound services target (findTarget target p uid) := by
  have hpush : ∀ result, (p.push uid result).files.Perm (uid :: p.files) := by
    intro result
    unfold Progress.files Progress.push
    rw [List.map_append, ← List.append_assoc]
    exact List.perm_append_singleton _ _
  unfold findTarget
  split
  · -- The file has a thumbnail of the type asked for, and waits for its block.
    next contentKey id htarget =>
    have hnew : id ∉ p.targets := by
      intro hmem
      obtain ⟨⟨uid', contentKey'⟩, hlookup⟩ :=
        Option.isSome_iff_exists.mp (AList.lookup_isSome.mpr hmem)
      have hsame := hdistinct uid List.mem_cons_self uid'
        (List.mem_cons_of_mem _ (mem_files hlookup)) contentKey contentKey' id htarget
        (hsound.targets id uid' contentKey' hlookup)
      rw [hsame] at hfresh
      exact hfresh (mem_files hlookup)
    refine ⟨?_, ?_, hsound.results⟩
    · show List.Perm (List.map _ (p.targets.insert id (uid, contentKey)).entries ++ _) _
      rw [AList.entries_insert_of_notMem hnew]
      exact List.Perm.refl _
    · -- No other file waits for this id.
      intro other uid' contentKey' hother
      by_cases hsame : other = id
      · rw [hsame, AList.lookup_insert] at hother
        cases hother
        rw [hsame]
        exact htarget
      · rw [AList.lookup_insert_ne hsame] at hother
        exact hsound.targets other uid' contentKey' hother
  · -- A file without one, or one that does not open, is answered at once.
    exact ⟨hpush _, hsound.push (fun _ h => by cases h)⟩
  · exact ⟨hpush _, hsound.push (fun _ h => by cases h)⟩

theorem findTargets_files {uids : List NodeUid} {p : Progress} (hsound : Sound services target p)
    (hnodup : (p.files ++ uids).Nodup) (hdistinct : DistinctIds target (p.files ++ uids)) :
    (uids.foldl (findTarget target) p).files.Perm (p.files ++ uids) ∧
      Sound services target (uids.foldl (findTarget target) p) := by
  induction uids generalizing p with
  | nil =>
      rw [List.append_nil]
      exact ⟨List.Perm.refl _, hsound⟩
  | cons uid uids ih =>
      -- The file moves from those to come to those known, the rest staying as they are.
      have hmove : (p.files ++ uid :: uids).Perm ((uid :: p.files) ++ uids) := List.perm_middle
      have hfresh : uid ∉ p.files := by
        have := (hmove.nodup_iff.mp hnodup)
        rw [List.cons_append, List.nodup_cons] at this
        exact fun h => this.1 (List.mem_append_left _ h)
      obtain ⟨hfiles, hnext⟩ := findTarget_files hsound hfresh
        (fun u hu u' hu' => hdistinct u (hmove.symm.subset (List.mem_append_left _ hu)) u'
          (hmove.symm.subset (List.mem_append_left _ hu')))
      have hall := (hfiles.append_right uids).trans hmove.symm
      obtain ⟨hperm, hlast⟩ := ih hnext (hall.nodup_iff.mpr hnodup)
        (fun u hu u' hu' => hdistinct u (hall.subset hu) u' (hall.subset hu'))
      exact ⟨hperm.trans hall, hlast⟩

variable (target) in
/-- When every chunk has been drained, every file of the volume has been answered for. -/
theorem delivers_chunkLoop (volumeId : VolumeId) (chunks : List (List ThumbnailId))
    (p : Progress) :
    (chunkLoop (PublicLink.drainThumbnailChunk services volumeId) chunks p).Delivers (fun q =>
      Advances services target p q ∧ Gone chunks.flatten q) := by
  induction chunks generalizing p with
  | nil => exact Program.Delivers.pure ⟨.refl p, fun _ h => by cases h⟩
  | cons chunk chunks ih =>
      apply Program.Delivers.bind (delivers_drain volumeId chunk p)
      rintro q ⟨hq, hgone⟩
      apply (ih q).weaken
      rintro r ⟨hr, hrest⟩
      refine ⟨hq.trans hr, ?_⟩
      intro id hid
      rw [List.flatten_cons, List.mem_append] at hid
      rcases hid with hid | hid
      · exact hr.gone id (hgone id hid)
      · exact hrest id hid

/-- Without a target left, the files are those of the answers. -/
theorem files_of_gone {p : Progress} (h : ∀ id, p.targets.lookup id = none) :
    p.files = p.results.map FileThumbnail.fileUid := by
  have hempty : p.targets.entries = [] := by
    rw [List.eq_nil_iff_forall_not_mem]
    rintro ⟨id, v⟩ hmem
    have hlookup := AList.mem_lookup_iff.mpr hmem
    rw [h id] at hlookup
    cases hlookup
  unfold Progress.files
  rw [hempty]
  rfl

/-- The uids of a group. -/
def groupUids (group : VolumeId × List LinkId) : List NodeUid := group.2.map (NodeUid.mk group.1)

theorem addToGroup_perm (uid : NodeUid) (groups : List (VolumeId × List LinkId)) :
    ((Context.addToGroup uid groups).flatMap groupUids).Perm
      (groups.flatMap groupUids ++ [uid]) := by
  induction groups with
  | nil => exact List.Perm.refl _
  | cons group groups ih =>
      obtain ⟨v, ids⟩ := group
      unfold Context.addToGroup
      split
      · next hv =>
        have hgroup : groupUids (v, ids ++ [uid.linkId]) = groupUids (v, ids) ++ [uid] := by
          unfold groupUids
          rw [List.map_append, hv]
          rfl
        rw [List.flatMap_cons, List.flatMap_cons, hgroup, List.append_assoc, List.append_assoc]
        exact (List.perm_append_comm).append_left _
      · rw [List.flatMap_cons, List.flatMap_cons, List.append_assoc]
        exact ih.append_left _

/-- The groups have the uids, each as often as it was given. -/
theorem groupByVolume_perm (uids : List NodeUid) :
    ((Context.groupByVolume uids).flatMap groupUids).Perm uids := by
  have hgrow : ∀ (uids : List NodeUid) (groups : List (VolumeId × List LinkId)),
      ((uids.foldl (fun groups uid => Context.addToGroup uid groups) groups).flatMap
        groupUids).Perm (groups.flatMap groupUids ++ uids) := by
    intro uids
    induction uids with
    | nil =>
        intro groups
        rw [List.append_nil]
        exact List.Perm.refl _
    | cons uid uids ih =>
        intro groups
        apply (ih (Context.addToGroup uid groups)).trans
        apply ((addToGroup_perm uid groups).append_right uids).trans
        rw [List.append_assoc]
        exact List.Perm.refl _
  exact hgrow uids []

/-- The answers so far are the files' own. -/
def Answered (services : Services σ) (target : Target) (results : List FileThumbnail) : Prop :=
  ∀ r ∈ results, ∀ bytes, r.result = .ok bytes → Own services target r.fileUid bytes

variable (services target) in
/-- One volume after the other, every file is answered for once. -/
theorem delivers_volumeLoop {groups : List (VolumeId × List LinkId)}
    {results : List FileThumbnail} (hanswered : Answered services target results)
    (hnodup : (results.map FileThumbnail.fileUid ++ groups.flatMap groupUids).Nodup)
    (hdistinct : DistinctIds target
      (results.map FileThumbnail.fileUid ++ groups.flatMap groupUids)) :
    (volumeLoop services target (PublicLink.drainThumbnailChunk services) groups
      results).Delivers (fun all =>
        (all.map FileThumbnail.fileUid).Perm
          (results.map FileThumbnail.fileUid ++ groups.flatMap groupUids) ∧
        Answered services target all) := by
  -- By induction on the volumes; the files of one are all answered before the next.
  induction groups generalizing results with
  | nil =>
      rw [List.flatMap_nil, List.append_nil]
      exact Program.Delivers.pure ⟨List.Perm.refl _, hanswered⟩
  | cons group groups ih =>
      obtain ⟨volumeId, linkIds⟩ := group
      rw [List.flatMap_cons, ← List.append_assoc] at hnodup hdistinct ⊢
      have hstart : Sound services target ⟨∅, results⟩ := by
        refine ⟨?_, hanswered⟩
        intro id uid contentKey h
        rw [AList.lookup_empty] at h
        cases h
      obtain ⟨hfiles, hsound⟩ : _ ∧ _ := findTargets_files hstart hnodup.of_append_left
        (fun u hu u' hu' => hdistinct u (List.mem_append_left _ hu) u'
          (List.mem_append_left _ hu'))
      apply Program.Delivers.bind (delivers_chunkLoop target volumeId _ _)
      rintro q ⟨hq, hgone⟩
      rw [Context.chunks_flatten (by decide)] at hgone
      -- Each chunk empties its own targets, so none is left at the end.
      have hnone : ∀ id, q.targets.lookup id = none := by
        intro id
        by_cases hid : id ∈ ((groupUids (volumeId, linkIds)).foldl (findTarget target)
            ⟨∅, results⟩).targets
        · exact hgone id ((services.keyOrder_perm _).symm.subset hid)
        · exact hq.gone id (AList.lookup_eq_none.mpr hid)
      have hresults := hq.files.trans hfiles
      rw [files_of_gone hnone] at hresults
      have hall := hresults.append_right (groups.flatMap groupUids)
      apply (ih (hq.sound hsound).results (hall.nodup_iff.mpr hnodup)
        (fun u hu u' hu' => hdistinct u (hall.subset hu) u' (hall.subset hu'))).weaken
      rintro all ⟨hperm, hown⟩
      exact ⟨hperm.trans hall, hown⟩

/-- Of what is encrypted with the content key of a file, the storage has under the id of its thumbnail
nothing but this thumbnail. -/
def StoresThumbnails (services : Services σ) (target : Target) (thumbnail : NodeUid → Bytes) :
    Prop :=
  ∀ uid contentKey id ciphertext plaintext signer,
    target uid = .ok (contentKey, some id) → Obtained services id ciphertext →
    dataPacket ciphertext = some (contentKey, plaintext, signer) →
    ∃ uploader, ciphertext = encryptThumbnail contentKey uploader (thumbnail uid)

/-- One answer for each file, and bytes only with the thumbnail of the file. -/
structure OnePerFile (services : Services σ) (target : Target) (uids : List NodeUid)
    (results : List FileThumbnail) : Prop where
  files : (results.map FileThumbnail.fileUid).Perm uids
  own : ∀ thumbnail, StoresThumbnails services target thumbnail →
    ∀ r ∈ results, ∀ bytes, r.result = .ok bytes → bytes = thumbnail r.fileUid

theorem Own.eq_thumbnail {thumbnail : NodeUid → Bytes}
    (hstores : StoresThumbnails services target thumbnail) {uid : NodeUid} {bytes : Bytes}
    (h : Own services target uid bytes) : bytes = thumbnail uid := by
  obtain ⟨contentKey, id, ciphertext, htarget, hobtained, hdecrypt⟩ := h
  unfold decryptThumbnail at hdecrypt
  split at hdecrypt
  · cases hdecrypt
  · next session plaintext signer hpacket =>
    split at hdecrypt
    · next hsession =>
      cases hdecrypt
      rw [hsession] at hpacket
      obtain ⟨uploader, rfl⟩ := hstores uid contentKey id ciphertext bytes signer htarget
        hobtained hpacket
      simp only [encryptThumbnail, dataPacket, Option.some.injEq, Prod.mk.injEq] at hpacket
      exact hpacket.2.1.symm
    · cases hdecrypt

variable (services) in
/-- What both enumerations do. -/
theorem delivers_onePerFile {uids : List NodeUid} (hnodup : uids.Nodup)
    (hdistinct : DistinctIds target uids) :
    (volumeLoop services target (PublicLink.drainThumbnailChunk services)
      (Context.groupByVolume uids) []).Delivers (OnePerFile services target uids) := by
  have hperm := groupByVolume_perm uids
  have hstart : Answered services target [] := fun _ h => by cases h
  apply (delivers_volumeLoop services target hstart (hperm.nodup_iff.mpr hnodup)
    (fun u hu u' hu' => hdistinct u (hperm.subset hu) u' (hperm.subset hu'))).weaken
  rintro results ⟨hfiles, hanswered⟩
  refine ⟨hfiles.trans hperm, ?_⟩
  intro thumbnail hstores r hr bytes hbytes
  exact (hanswered r hr bytes hbytes).eq_thumbnail hstores

/-- Whatever the server answers, both enumerations have one answer for each file. -/
theorem thumbnail_per_file (services : Services σ) (l : Lookups) (wanted : Int)
    {uids : List NodeUid} (hnodup : uids.Nodup) :
    (DistinctIds (fileThumbnailTarget l wanted) uids →
      (enumerateThumbnailsCtx services l wanted uids).Delivers
        (OnePerFile services (fileThumbnailTarget l wanted) uids)) ∧
    (DistinctIds (PublicLink.thumbnailTarget l wanted) uids →
      (PublicLink.enumerateThumbnails services l wanted uids).Delivers
        (OnePerFile services (PublicLink.thumbnailTarget l wanted) uids)) := by
  constructor
  · intro hdistinct
    unfold enumerateThumbnailsCtx
    rw [clientChunk_eq]
    exact delivers_onePerFile services hnodup hdistinct
  · exact delivers_onePerFile services hnodup

end

/-- Two pictures with a thumbnail each. -/
def twoLookups : Lookups where
  linkDetails uid := .ok [{
    link := KeyWalk.folder uid.linkId (some 0) 10
    linkType := 2
    state := 1
    creationTime := 0
    modificationTime := 0
    trashTime := none
    trashedLegacy := none
    file := some ⟨"image/png", 64, some [.pkesk (10 + uid.linkId) 5], none,
      some ⟨"r", some 1, none, none⟩⟩
    photo := none
    album := none
    sharing := none
    membership := none }]
  resolveParentKey _ _ := .ok 10
  revisionThumbnails uid _ := .ok [⟨some (if uid.linkId = 1 then "s" else "t"), 1⟩]

/-- The server answers every request with both blocks, one of them twice and with an error for the
same id, in the order that it likes. The storage has another picture behind each URL. -/
def repeatingServices : Services Unit where
  thumbnailBlocks _ _ :=
    .ofExcept (.ok ⟨[⟨"t", "u/t", "k"⟩, ⟨"s", "u/s", "k"⟩, ⟨"t", "u/t", "k"⟩], [⟨"t", "gone"⟩]⟩)
  getStorageBlob bareUrl _ :=
    .ofExcept (.ok (encryptThumbnail 5 1 (if bareUrl = "u/s" then [43] else [42])))
  keyOrder ids := ids.reverse
  thumbnailBlocks_returns _ _ s := ⟨s, _, rfl⟩
  getStorageBlob_returns _ _ s := ⟨s, _, rfl⟩
  keyOrder_perm ids := ids.reverse_perm

def twoPictures (uid : NodeUid) : Bytes := if uid.linkId = 1 then [43] else [42]

theorem decryptLink_folder (id : LinkId) (parentId : Option LinkId) (key : Key) :
    decryptLink key (KeyWalk.folder id parentId key) = .ok ⟨10 + id, [97]⟩ := by
  unfold decryptLink KeyWalk.folder
  simp only [decrypt_encrypt, decrypt_encryptAndSign]
  rfl

theorem distinct_two {target : Target}
    (h : ∀ uid, target uid = .ok (5, some (if uid.linkId = 1 then "s" else "t"))) :
    DistinctIds target [⟨0, 1⟩, ⟨0, 2⟩] := by
  intro uid huid uid' huid' contentKey contentKey' id hid hid'
  rw [h] at hid hid'
  have hsame := (Prod.mk.inj (Except.ok.inj hid)).2.trans
    (Prod.mk.inj (Except.ok.inj hid')).2.symm
  simp only [List.mem_cons, List.not_mem_nil, or_false] at huid huid'
  rcases huid with rfl | rfl <;> rcases huid' with rfl | rfl
  · rfl
  · exact absurd hsame (by decide)
  · exact absurd hsame (by decide)
  · rfl

theorem stores_repeating {target : Target}
    (h : ∀ uid, target uid = .ok (5, some (if uid.linkId = 1 then "s" else "t"))) :
    StoresThumbnails repeatingServices target twoPictures := by
  rintro uid contentKey id ciphertext plaintext signer htarget
    ⟨block, ⟨volumeId, ids, s, s', response, hserved, hblock⟩, hid, t, t', hfetched⟩ -
  rw [h uid] at htarget
  cases hserved
  cases hfetched
  cases htarget
  refine ⟨1, ?_⟩
  -- Each of the blocks leads to the picture of its id.
  have hblocks : block = ⟨"t", "u/t", "k"⟩ ∨ block = ⟨"s", "u/s", "k"⟩ := by
    simp only [List.mem_cons, List.not_mem_nil, or_false] at hblock
    rcases hblock with h | h | h
    · exact .inl h
    · exact .inr h
    · exact .inl h
  unfold twoPictures
  by_cases huid : uid.linkId = 1
  · rw [if_pos huid] at hid ⊢
    rcases hblocks with rfl | rfl
    · exact absurd hid (by decide)
    · rfl
  · rw [if_neg huid] at hid ⊢
    rcases hblocks with rfl | rfl
    · rfl
    · exact absurd hid (by decide)

/-- Each picture has one answer, and no other bytes than its own. -/
theorem thumbnail_per_file_repeating :
    let answered (results : List FileThumbnail) : Prop :=
      (results.map FileThumbnail.fileUid).Perm [⟨0, 1⟩, ⟨0, 2⟩] ∧
        ∀ r ∈ results, ∀ bytes, r.result = .ok bytes → bytes = twoPictures r.fileUid
    (enumerateThumbnailsCtx repeatingServices twoLookups 1 [⟨0, 1⟩, ⟨0, 2⟩]).Delivers answered ∧
    (PublicLink.enumerateThumbnails repeatingServices twoLookups 1
      [⟨0, 1⟩, ⟨0, 2⟩]).Delivers answered := by
  intro answered
  -- The files have ids of their own, although the server repeats its answers.
  have htarget : ∀ uid, fileThumbnailTarget twoLookups 1 uid =
      .ok (5, some (if uid.linkId = 1 then "s" else "t")) := by
    intro uid
    unfold fileThumbnailTarget
    show (decryptLink 10 (KeyWalk.folder uid.linkId (some 0) 10) >>= _) = _
    rw [decryptLink_folder]
    simp [decryptContentKey, twoLookups, wantedId, bind, Except.bind, pure, Except.pure]
  have hpublic : ∀ uid, PublicLink.thumbnailTarget twoLookups 1 uid =
      .ok (5, some (if uid.linkId = 1 then "s" else "t")) := by
    intro uid
    unfold PublicLink.thumbnailTarget
    show (decryptLink 10 (KeyWalk.folder uid.linkId (some 0) 10) >>= _) = _
    rw [decryptLink_folder]
    simp [decryptContentKey, twoLookups, wantedId, orElse, LinkDetails.fileProperties, bind,
      Except.bind, pure, Except.pure]
  have hboth := thumbnail_per_file repeatingServices twoLookups 1
    (show [(⟨0, 1⟩ : NodeUid), ⟨0, 2⟩].Nodup by decide)
  constructor
  · apply (hboth.1 (distinct_two htarget)).weaken
    intro results hresults
    exact ⟨hresults.files, hresults.own twoPictures (stores_repeating htarget)⟩
  · apply (hboth.2 (distinct_two hpublic)).weaken
    intro results hresults
    exact ⟨hresults.files, hresults.own twoPictures (stores_repeating hpublic)⟩

end ProtonDrive.Thumbnails
