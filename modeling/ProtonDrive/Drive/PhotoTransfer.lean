import Mathlib.Data.List.Nodup
import ProtonDrive.Drive.Requests
import ProtonDrive.Lib.Blocks
import ProtonDrive.Lib.Exchange

/-!
# Bringing photos into an album or the timeline

`transfer_photos` takes photos off a queue, re-encrypts each with its related photos, and sends
those of the target's volume in batches and the others one by one. A photo whose group the server
calls incomplete goes back into the queue, once, with the related photos that were missing. The
calls may answer anything, and every request is logged with the photos whose answer it decides.

* `Transferring` — every position is in the queue, on its way or has its outcome.
* `Told` — which photos have the outcome Ok, read off the requests and their answers.
* `transferPhotos_spec` — a transfer comes to its end.
* `transfer_accounts_iff` — when a caller can count on the outcomes.
-/

namespace ProtonDrive.PhotoTransfer

open OpenPgp Context

/-! ## Data -/

/-- A photo re-encrypted for a target. -/
structure PhotoMaterial where
  parentUid : Option NodeUid
  /-- The name hash under the hash key of the current parent. -/
  originalNameHash : Option NameHash
  nameHash : NameHash
  name : Message
  passphrase : Message
  contentHash : NameHash
  deriving DecidableEq, Repr

structure PhotoItem where
  uid : NodeUid
  material : PhotoMaterial
  deriving DecidableEq, Repr

/-- A photo with its related photos, which bring none of their own. -/
structure PhotoTargetPayload where
  photo : PhotoItem
  related : List PhotoItem
  deriving DecidableEq, Repr

def PhotoTargetPayload.uid (p : PhotoTargetPayload) : NodeUid := p.photo.uid

inductive PhotoTransferKind where
  | timeline
  | album
  deriving DecidableEq, Repr

structure PhotoTransferTarget where
  uid : NodeUid
  kind : PhotoTransferKind
  key : Key
  hashKey : Bytes
  email : String
  signingKey : Key
  deriving DecidableEq, Repr

structure TransferPhotoLinkItem where
  linkId : LinkId
  nameHash : NameHash
  originalNameHash : NameHash
  name : Message
  passphrase : Message
  contentHash : NameHash
  deriving DecidableEq, Repr

structure AddPhotoToAlbumEntry where
  linkId : LinkId
  nameHash : NameHash
  name : Message
  nameSignatureEmail : String
  passphrase : Message
  contentHash : NameHash
  deriving DecidableEq, Repr

structure CopyPhotoRelatedItem where
  linkId : LinkId
  nameHash : NameHash
  name : Message
  passphrase : Message
  contentHash : NameHash
  deriving DecidableEq, Repr

structure CopyPhotoRequest where
  targetVolumeId : VolumeId
  targetParentLinkId : LinkId
  nameHash : NameHash
  name : Message
  nameSignatureEmail : String
  passphrase : Message
  contentHash : NameHash
  relatedPhotos : List CopyPhotoRelatedItem
  deriving DecidableEq, Repr

inductive TransferRequest where
  /-- `PUT photos/volumes/{vid}/links/transfer-multiple` -/
  | transferMultiple (volumeId : VolumeId) (parentLinkId : LinkId)
      (links : List TransferPhotoLinkItem) (nameSignatureEmail : String)
  /-- `POST photos/volumes/{vid}/albums/{lid}/add-multiple` -/
  | addMultiple (volumeId : VolumeId) (album : LinkId) (albumData : List AddPhotoToAlbumEntry)
  /-- `POST volumes/{vid}/links/{lid}/copy` -/
  | copy (source : NodeUid) (request : CopyPhotoRequest)
  deriving DecidableEq, Repr

/-- The answer for one link of a batch. -/
structure PhotoLinkOutcome where
  linkId : LinkId
  code : Int
  error : Option String
  /-- `Details.Missing`. -/
  missing : List LinkId
  deriving DecidableEq, Repr

/-- A request, and the photos of the list whose answer it decides. -/
structure Posted where
  request : TransferRequest
  photos : List NodeUid
  deriving DecidableEq, Repr

/-- A request that has been sent, and its answer. What a copy is answered is not read. -/
abbrev Sent := Posted × Except ProtonError (List PhotoLinkOutcome)

abbrev TransferCall (σ α : Type) := Program (Logged σ Sent) ProtonError α

/-- The calls that a transfer makes, over a state of which nothing is known. -/
structure TransferClient (σ : Type) where
  folderNodeKey : NodeUid → Program σ ProtonError Key
  parentHashKey : NodeUid → Key → Program σ ProtonError Bytes
  photosMembershipAddress : Program σ ProtonError (String × Key)
  photoTargetPayload : NodeUid → PhotoTransferTarget → Program σ ProtonError PhotoMaterial
  /-- The related photos of a photo; `none` if there is no such node. -/
  getPhotosNode : NodeUid → Program σ ProtonError (Option (List NodeUid))
  send : TransferRequest → Program σ ProtonError (List PhotoLinkOutcome)
  /-- The link ids in the `Details.Missing` of an error. -/
  missingRelatedLinks : ProtonApiError → List LinkId

abbrev PhotoOutcome := NodeUid × Except ProtonError Unit

structure TransferRun where
  /-- A photo, and the related photos that the server asked for. -/
  queue : List (NodeUid × List NodeUid)
  retried : List NodeUid
  outcomes : List PhotoOutcome
  deriving DecidableEq

/-! ## Outcomes -/

/-- Why a photo was not taken, and the related photos that the server wants with it. -/
abbrev Failure := List NodeUid × ProtonError

def missingRelatedPhotosError (missing : List NodeUid) : ProtonError :=
  .invalidOperation ("server wants related photos sent with it: " ++
    ", ".intercalate (missing.map NodeUid.text))

/-- One photo's answer is an outcome, or the photo goes back into the queue. -/
def TransferRun.recordTransferOutcome (run : TransferRun) (uid : NodeUid) :
    Option Failure → TransferRun
  | none => { run with outcomes := run.outcomes ++ [(uid, .ok ())] }
  | some (missing, error) =>
      if !missing.isEmpty && uid ∉ run.retried then
        { run with queue := run.queue ++ [(uid, missing)], retried := uid :: run.retried }
      else { run with outcomes := run.outcomes ++ [(uid, .error error)] }

def successCode : Int := 1000

/-- The server reports on the link, and not that all is well. -/
def PhotoLinkOutcome.failed (o : PhotoLinkOutcome) : Bool :=
  !(o.code == successCode && o.error.isNone)

def PhotoLinkOutcome.failure (o : PhotoLinkOutcome) (volumeId : VolumeId) : Failure :=
  let missing := o.missing.map (fun a => ⟨volumeId, a⟩)
  (missing, if missing.isEmpty then
      .invalidOperation (o.error.getD ("transfer failed with code " ++ toString o.code))
    else missingRelatedPhotosError missing)

/-- The failures of an answer by link id; the last one of a link counts. -/
def collectFailures (volumeId : VolumeId) :
    List PhotoLinkOutcome → (LinkId → Option Failure) → LinkId → Option Failure
  | [], failures => failures
  | o :: responses, failures =>
      if o.failed then
        collectFailures volumeId responses
          (Function.update failures o.linkId (some (o.failure volumeId)))
      else collectFailures volumeId responses failures

/-- A failure is taken out of the map when it is read. -/
def recordEach : List PhotoTargetPayload → (LinkId → Option Failure) → TransferRun → TransferRun
  | [], _, run => run
  | p :: sent, failures, run =>
      recordEach sent (Function.update failures p.uid.linkId none)
        (run.recordTransferOutcome p.uid (failures p.uid.linkId))

def recordTransferOutcomes (target : PhotoTransferTarget) (responses : List PhotoLinkOutcome)
    (sent : List PhotoTargetPayload) (run : TransferRun) : TransferRun :=
  recordEach sent (collectFailures target.uid.volumeId responses (fun _ => none)) run

/-! ## Requests -/

def transferLinkItem (p : PhotoItem) : Option TransferPhotoLinkItem :=
  p.material.originalNameHash.map (fun hash =>
    ⟨p.uid.linkId, p.material.nameHash, hash, p.material.name, p.material.passphrase,
      p.material.contentHash⟩)

def albumEntry (email : String) (p : PhotoItem) : AddPhotoToAlbumEntry :=
  ⟨p.uid.linkId, p.material.nameHash, p.material.name, email, p.material.passphrase,
    p.material.contentHash⟩

def copyPhotoRequest (target : PhotoTransferTarget) (p : PhotoTargetPayload) : CopyPhotoRequest where
  targetVolumeId := target.uid.volumeId
  targetParentLinkId := target.uid.linkId
  nameHash := p.photo.material.nameHash
  name := p.photo.material.name
  nameSignatureEmail := target.email
  passphrase := p.photo.material.passphrase
  contentHash := p.photo.material.contentHash
  relatedPhotos := p.related.map (fun r =>
    ⟨r.uid.linkId, r.material.nameHash, r.material.name, r.material.passphrase,
      r.material.contentHash⟩)

def noNameHash (uid : NodeUid) : ProtonError :=
  .invalidOperation ("photo " ++ uid.text ++
    " has no name hash on its current parent; it cannot be moved")

/-- The links of a batch for the timeline, and the photos they are of. A photo that cannot be moved
has its outcome. -/
def timelineLinks : List PhotoTargetPayload → TransferRun →
    List TransferPhotoLinkItem × List PhotoTargetPayload × TransferRun
  | [], run => ([], [], run)
  | p :: payloads, run =>
      match (p.photo :: p.related).mapM transferLinkItem with
      | some items =>
          let rest := timelineLinks payloads run
          (items ++ rest.1, p :: rest.2.1, rest.2.2)
      | none =>
          timelineLinks payloads
            { run with outcomes := run.outcomes ++ [(p.uid, .error (noNameHash p.uid))] }

namespace TransferClient

variable {σ : Type} (client : TransferClient σ)

def sendBatch (target : PhotoTransferTarget) (request : TransferRequest)
    (sent : List PhotoTargetPayload) (run : TransferRun) : TransferCall σ TransferRun := do
  let posted : Posted := ⟨request, sent.map PhotoTargetPayload.uid⟩
  match ← Program.exchange posted (client.send request) with
  | .error e => .ofExcept (.error e)
  | .ok responses => return recordTransferOutcomes target responses sent run

def transferPhotoBatch (target : PhotoTransferTarget) (payloads : List PhotoTargetPayload)
    (run : TransferRun) : TransferCall σ TransferRun :=
  match target.kind with
  | .timeline =>
      let batch := timelineLinks payloads run
      if batch.1.isEmpty then return batch.2.2
      else
        client.sendBatch target
          (.transferMultiple target.uid.volumeId target.uid.linkId batch.1 target.email)
          batch.2.1 batch.2.2
  | .album =>
      client.sendBatch target
        (.addMultiple target.uid.volumeId target.uid.linkId
          ((payloads.flatMap (fun p => p.photo :: p.related)).map (albumEntry target.email)))
        payloads run

/-- An incomplete group is an ordinary error whose details name the related photos, on the volume of
the source. -/
def copyFailure (volumeId : VolumeId) : Except ProtonError (List PhotoLinkOutcome) → Option Failure
  | .ok _ => none
  | .error (.api e) =>
      let missing := (client.missingRelatedLinks e).map (fun a => ⟨volumeId, a⟩)
      some (missing, if missing.isEmpty then .api e else missingRelatedPhotosError missing)
  | .error e => some ([], e)

def copyPhotoToTarget (target : PhotoTransferTarget) (p : PhotoTargetPayload) (run : TransferRun) :
    TransferCall σ TransferRun := do
  let request := TransferRequest.copy p.uid (copyPhotoRequest target p)
  let reply ← Program.exchange (⟨request, [p.uid]⟩ : Posted) (client.send request)
  return run.recordTransferOutcome p.uid (client.copyFailure p.uid.volumeId reply)

/-! ## Payloads -/

def buildItem (target : PhotoTransferTarget) (uid : NodeUid) : TransferCall σ PhotoItem := do
  let material ← .inside (client.photoTargetPayload uid target)
  return ⟨uid, material⟩

/-- A related photo that cannot be built is left out. -/
def buildRelated (target : PhotoTransferTarget) : List NodeUid → TransferCall σ (List PhotoItem)
  | [] => return []
  | uid :: uids => do
      let item ← (client.buildItem target uid).attempt
      let items ← buildRelated target uids
      match item with
      | .ok item => return item :: items
      | .error _ => return items

def alreadyInTimeline (uid : NodeUid) : ProtonError :=
  .invalidOperation ("photo " ++ uid.text ++ " is already in the timeline")

def photoNotFound (uid : NodeUid) : ProtonError :=
  .invalidOperation ("photo " ++ uid.text ++ " not found")

/-- What the photo declares, and what the server asked for besides. -/
def mergeRelated (related : List NodeUid) : List NodeUid → List NodeUid
  | [] => related
  | extra :: extras =>
      if extra ∈ related then mergeRelated related extras
      else mergeRelated (related ++ [extra]) extras

def transferPhotoPayload (target : PhotoTransferTarget) (uid : NodeUid)
    (extraRelated : List NodeUid) : TransferCall σ PhotoTargetPayload := do
  let photo ← client.buildItem target uid
  if photo.material.parentUid = some target.uid then
    .ofExcept (.error (alreadyInTimeline uid))
  else
    match ← Program.inside (client.getPhotosNode uid) with
    | none => .ofExcept (.error (photoNotFound uid))
    | some related => do
        let related ← client.buildRelated target (mergeRelated related extraRelated)
        return ⟨⟨uid, photo.material⟩, related⟩

/-! ## The loop -/

def loadBatch : Nat := 20

def maxLinksPerTransfer : Nat := 10

/-- Photos on their way: those of the target's volume, and the others. -/
structure Loaded where
  sameVolume : List PhotoTargetPayload
  crossVolume : List PhotoTargetPayload
  run : TransferRun

def loadPhotos (target : PhotoTransferTarget) : (room : Nat) → Loaded → TransferCall σ Loaded
  | 0, loaded => return loaded
  | room + 1, loaded =>
      match loaded.run.queue with
      | [] => return loaded
      | (uid, extraRelated) :: queue => do
          let run := { loaded.run with queue := queue }
          match ← (client.transferPhotoPayload target uid extraRelated).attempt with
          | .error e =>
              loadPhotos target room
                { loaded with run := { run with outcomes := run.outcomes ++ [(uid, .error e)] } }
          | .ok payload =>
              if payload.uid.volumeId = target.uid.volumeId then
                loadPhotos target room
                  { loaded with sameVolume := loaded.sameVolume ++ [payload], run := run }
              else
                loadPhotos target room
                  { loaded with crossVolume := loaded.crossVolume ++ [payload], run := run }

/-- A batch is closed before the photo that would not fit into it any more. -/
def transferBatches (target : PhotoTransferTarget) : List PhotoTargetPayload →
    (batch : List PhotoTargetPayload) → (links : Nat) → TransferRun → TransferCall σ TransferRun
  | [], batch, _, run =>
      if batch.isEmpty then return run else client.transferPhotoBatch target batch run
  | p :: payloads, batch, links, run => do
      let count := 1 + p.related.length
      if !batch.isEmpty && links + count > maxLinksPerTransfer then do
        let run ← client.transferPhotoBatch target batch run
        transferBatches target payloads [p] count run
      else transferBatches target payloads (batch ++ [p]) (links + count) run

def copyPhotos (target : PhotoTransferTarget) :
    List PhotoTargetPayload → TransferRun → TransferCall σ TransferRun
  | [], run => return run
  | p :: payloads, run => do
      let run ← client.copyPhotoToTarget target p run
      copyPhotos target payloads run

/-- Round after round until the queue is empty. A run that is out of fuel does not return. -/
def transferRounds (target : PhotoTransferTarget) : (fuel : Nat) → TransferRun →
    TransferCall σ TransferRun
  | 0, _ => ⟨fun _ => none⟩
  | fuel + 1, run =>
      if run.queue.isEmpty then return run
      else do
        let loaded ← client.loadPhotos target loadBatch ⟨[], [], run⟩
        let run ← client.transferBatches target loaded.sameVolume [] 0 loaded.run
        let run ← client.copyPhotos target loaded.crossVolume run
        transferRounds target fuel run

def transferPhotos (fuel : Nat) (target : PhotoTransferTarget) (photoUids : List NodeUid) :
    TransferCall σ (List PhotoOutcome) := do
  let run ← client.transferRounds target fuel ⟨photoUids.map (fun uid => (uid, [])), [], []⟩
  return run.outcomes

/-- The outcomes are put into the order of the input; a uid has the position at which it is
first. -/
def addPhotosToAlbum (fuel : Nat) (albumUid : NodeUid) (photoUids : List NodeUid) :
    TransferCall σ (List PhotoOutcome) :=
  if photoUids.isEmpty then return []
  else do
    let key ← .inside (client.folderNodeKey albumUid)
    let hashKey ← .inside (client.parentHashKey albumUid key)
    let (email, signingKey) ← .inside client.photosMembershipAddress
    let outcomes ← client.transferPhotos fuel ⟨albumUid, .album, key, hashKey, email, signingKey⟩
      photoUids
    return sortByKey (fun o => photoUids.idxOf o.1) outcomes

end TransferClient

/-! ## The invariant -/

/-- How often a photo of the list has been sent. -/
def sentCount (log : List Sent) (uid : NodeUid) : Nat :=
  (log.flatMap (fun sent => sent.1.photos)).count uid

/-- The photos whose links are in a request, those of the list and the related ones. -/
def TransferRequest.carries : TransferRequest → List NodeUid
  | .transferMultiple volumeId _ links _ => links.map (fun item => ⟨volumeId, item.linkId⟩)
  | .addMultiple volumeId _ albumData => albumData.map (fun entry => ⟨volumeId, entry.linkId⟩)
  | .copy source request =>
      source :: request.relatedPhotos.map (fun r => ⟨source.volumeId, r.linkId⟩)

/-- The request carries the photo, and the answer reports that it failed. A copy fails as a whole. -/
def Sent.ReportsFailure (sent : Sent) (uid : NodeUid) : Prop :=
  uid ∈ sent.1.request.carries ∧
    match sent.1.request, sent.2 with
    | .copy _ _, .ok _ => False
    | _, .ok responses => ∃ o ∈ responses, o.linkId = uid.linkId ∧ o.failed = true
    | _, .error _ => True

/-- The last request that carried the photo came back, and did not report that it failed. -/
def LastTaken (log : List Sent) (uid : NodeUid) : Prop :=
  ∃ before sent after, SplitsAtLast (fun s : Sent => uid ∈ s.1.request.carries) log before sent after ∧
    ¬ sent.ReportsFailure uid

/-- The request was sent for the photo, and the answer does not report that it failed; or it was sent
for two positions of the photo, of which one gets the failure. -/
def Sent.Takes (sent : Sent) (uid : NodeUid) : Prop :=
  (uid ∈ sent.1.photos ∧ ¬ sent.ReportsFailure uid) ∨ 2 ≤ sent.1.photos.count uid

/-- If the last request that carried a photo reports that it failed, neither that request nor one
before it has taken the photo. -/
def FailuresHold (log : List Sent) : Prop :=
  ∀ uid before sent after,
    SplitsAtLast (fun s : Sent => uid ∈ s.1.request.carries) log before sent after →
      sent.ReportsFailure uid → ¬ sent.Takes uid ∧ ∀ s ∈ before, ¬ Sent.Takes s uid

/-- Between two positions of a photo there is no other photo. -/
def Together (uids : List NodeUid) : Prop :=
  ∀ i j k, i < j → j < k → k < uids.length → uids[i]? = uids[k]? → uids[j]? = uids[k]?

/-- Every position has its outcome, or waits for the answer to a request, or is loaded or in the
queue; and a photo is sent once more than it is listed at most. -/
structure Transferring (uids : List NodeUid) (log : List Sent) (flying pending : List NodeUid)
    (run : TransferRun) : Prop where
  perm : (run.outcomes.map Prod.fst ++ (flying ++ (pending ++ run.queue.map Prod.fst))).Perm uids
  paid : ∀ uid, sentCount log uid + pending.count uid + (run.queue.map Prod.fst).count uid +
    (if uid ∈ run.retried then 0 else 1) ≤ uids.count uid + 1

/-- A photo has the outcome Ok if a request has taken it. Every request carries the photos that it was
sent for. -/
structure Told (log : List Sent) (outcomes : List PhotoOutcome) : Prop where
  carried : ∀ sent ∈ log, ∀ uid ∈ sent.1.photos, uid ∈ sent.1.request.carries
  taken : ∀ uid, (uid, .ok ()) ∈ outcomes ↔ ∃ sent ∈ log, Sent.Takes sent uid

/-- How many photos can still be taken off the queue: each may come back into it once. -/
def work (uids : List NodeUid) (run : TransferRun) : Nat :=
  run.queue.length + (uids.filter (fun uid => uid ∉ run.retried)).length

variable {uids flying pending : List NodeUid} {log : List Sent} {run : TransferRun} {u : NodeUid}

/-- The order of the photos that are pending does not matter. -/
theorem Transferring.of_perm {pending' : List NodeUid} (h : Transferring uids log flying pending run)
    (hperm : pending'.Perm pending) : Transferring uids log flying pending' run where
  perm := by
    refine List.Perm.trans ?_ h.perm
    exact List.Perm.append_left _ (List.Perm.append_left _ (hperm.append_right _))
  paid := by
    intro uid
    rw [hperm.count_eq]
    exact h.paid uid

/-- At first every photo is queued and none was sent. -/
theorem Transferring.start (uids : List NodeUid) :
    Transferring uids [] [] [] ⟨uids.map (fun uid => (uid, [])), [], []⟩ where
  perm := by
    simp [Function.comp_def]
  paid := by
    intro uid
    simp [sentCount, Function.comp_def]

/-- At first nothing was reported. -/
theorem Told.start : Told [] [] where
  carried := fun sent hsent => nomatch hsent
  taken := by
    intro uid
    simp

/-- A loaded photo that never gets sent has its outcome. -/
theorem Transferring.drop (h : Transferring uids log flying (u :: pending) run) (e : ProtonError) :
    Transferring uids log flying pending
      { run with outcomes := run.outcomes ++ [(u, .error e)] } where
  perm := by
    refine List.Perm.trans ?_ h.perm
    simp only [List.map_append, List.map_cons, List.map_nil, List.append_assoc,
      List.cons_append, List.nil_append]
    exact List.Perm.append_left _ List.perm_middle.symm
  paid := by
    intro uid
    have hpaid := h.paid uid
    rw [List.count_cons] at hpaid
    dsimp only
    omega

/-- A photo that fails before it is sent contradicts no request. -/
theorem Told.drop {outcomes : List PhotoOutcome} (h : Told log outcomes) (u : NodeUid)
    (e : ProtonError) : Told log (outcomes ++ [(u, .error e)]) where
  carried := h.carried
  taken := by
    intro uid
    rw [← h.taken uid]
    simp

/-- A photo is taken off the queue. -/
theorem Transferring.load {extra : List NodeUid} {queue : List (NodeUid × List NodeUid)}
    (h : Transferring uids log flying pending run) (hqueue : run.queue = (u, extra) :: queue) :
    Transferring uids log flying (u :: pending) { run with queue := queue } where
  perm := by
    refine List.Perm.trans ?_ h.perm
    rw [hqueue]
    simp only [List.map_cons, List.cons_append]
    refine List.Perm.append_left _ (List.Perm.append_left _ ?_)
    exact List.perm_middle.symm
  paid := by
    intro uid
    have hpaid := h.paid uid
    rw [hqueue, List.map_cons, List.count_cons] at hpaid
    rw [List.count_cons]
    dsimp only at hpaid ⊢
    omega

/-- One more request counts its own photos. -/
theorem sentCount_append (log : List Sent) (sent : Sent) (uid : NodeUid) :
    sentCount (log ++ [sent]) uid = sentCount log uid + sent.1.photos.count uid := by
  simp [sentCount, List.count_append]

/-- Loaded photos are sent. -/
theorem Transferring.send {photos : List NodeUid} (h : Transferring uids log [] (photos ++ pending) run)
    (request : TransferRequest) (reply : Except ProtonError (List PhotoLinkOutcome)) :
    Transferring uids (log ++ [(⟨request, photos⟩, reply)]) photos pending run where
  perm := by
    have hperm := h.perm
    simpa [List.append_assoc] using hperm
  paid := by
    intro uid
    have hpaid := h.paid uid
    rw [List.count_append] at hpaid
    rw [sentCount_append]
    dsimp only
    omega

/-- **An answer is recorded**: an outcome, or the one time that the photo comes back. -/
theorem Transferring.record (h : Transferring uids log (u :: flying) pending run)
    (failure : Option Failure) :
    Transferring uids log flying pending (run.recordTransferOutcome u failure) ∧
      work uids (run.recordTransferOutcome u failure) ≤ work uids run := by
  have hmem : u ∈ uids := h.perm.mem_iff.mp
    (List.mem_append_right _ (List.mem_append_left _ List.mem_cons_self))
  -- An outcome takes the place of the photo that was waiting.
  have houtcome : ∀ outcome : Except ProtonError Unit, Transferring uids log flying pending
      { run with outcomes := run.outcomes ++ [(u, outcome)] } := by
    intro outcome
    refine ⟨?_, h.paid⟩
    have hperm := h.perm
    simpa [List.append_assoc] using hperm
  unfold TransferRun.recordTransferOutcome
  split
  · exact ⟨houtcome _, Nat.le_refl _⟩
  · next missing error =>
    split
    · next hretry =>
      simp only [Bool.and_eq_true, decide_eq_true_eq] at hretry
      have hfresh : u ∉ run.retried := hretry.2
      refine ⟨⟨?_, ?_⟩, ?_⟩
      · refine List.Perm.trans ?_ h.perm
        refine List.Perm.append_left _ ?_
        have hmoved : (flying ++ (pending ++ (run.queue ++ [(u, missing)]).map Prod.fst)).Perm
            (u :: (flying ++ (pending ++ run.queue.map Prod.fst))) := by
          rw [List.map_append, ← List.append_assoc, ← List.append_assoc, ← List.append_assoc]
          exact List.perm_append_singleton _ _
        exact hmoved
      · intro uid
        have hpaid := h.paid uid
        simp only [List.map_append, List.map_cons, List.map_nil, List.count_append,
          List.count_singleton, List.mem_cons]
        by_cases huid : uid = u
        · subst huid
          simp only [hfresh, if_false] at hpaid
          simp
          omega
        · have hne : u ≠ uid := fun heq => huid heq.symm
          simp only [huid, false_or, beq_iff_eq, hne, if_false]
          omega
      · have hlt : (uids.filter (fun uid => uid ∉ u :: run.retried)).length <
            (uids.filter (fun uid => uid ∉ run.retried)).length := by
          have hsub : uids.filter (fun uid => uid ∉ u :: run.retried) =
              (uids.filter (fun uid => uid ∉ run.retried)).filter (fun uid => uid ≠ u) := by
            rw [List.filter_filter]
            apply List.filter_congr
            intro uid _
            simp
          rw [hsub]
          apply List.length_filter_lt_length_iff_exists.mpr
          exact ⟨u, List.mem_filter.mpr ⟨hmem, by simpa using hfresh⟩, by simp⟩
        simp only [work, List.length_append, List.length_cons, List.length_nil]
        omega
    · exact ⟨houtcome _, Nat.le_refl _⟩

/-! ## Answers -/

/-- There is no failure of a link if no answer reports one. -/
theorem collectFailures_eq_none_iff {v : VolumeId} {responses : List PhotoLinkOutcome}
    {failures : LinkId → Option Failure} {a : LinkId} :
    collectFailures v responses failures a = none ↔
      failures a = none ∧ ∀ o ∈ responses, o.linkId = a → o.failed = false := by
  induction responses generalizing failures with
  | nil => simp [collectFailures]
  | cons o responses ih =>
      unfold collectFailures
      by_cases hfailed : o.failed = true
      · rw [if_pos hfailed, ih]
        by_cases hlink : a = o.linkId
        · subst hlink
          simp [hfailed]
        · have hne : o.linkId ≠ a := fun heq => hlink heq.symm
          rw [Function.update_of_ne hlink]
          simp [hne]
      · rw [if_neg hfailed, ih]
        simp [hfailed]

/-- A photo is `Ok` when it was before or has just been recorded so. -/
theorem mem_recordTransferOutcome {failure : Option Failure} {uid : NodeUid} :
    (uid, .ok ()) ∈ (run.recordTransferOutcome u failure).outcomes ↔
      (uid, .ok ()) ∈ run.outcomes ∨ (uid = u ∧ failure = none) := by
  unfold TransferRun.recordTransferOutcome
  split
  · simp
  · split <;> simp

/-- A photo gets the outcome Ok if there is no failure of it, or if the failure is taken out of the
map at one of its positions and there is another. -/
theorem mem_recordEach {v : VolumeId} {sent : List PhotoTargetPayload}
    {failures : LinkId → Option Failure} (hvolume : ∀ p ∈ sent, p.uid.volumeId = v)
    (uid : NodeUid) :
    (uid, .ok ()) ∈ (recordEach sent failures run).outcomes ↔
      (uid, .ok ()) ∈ run.outcomes ∨
        (uid ∈ sent.map PhotoTargetPayload.uid ∧ failures uid.linkId = none) ∨
        2 ≤ (sent.map PhotoTargetPayload.uid).count uid := by
  induction sent generalizing run failures with
  | nil => simp [recordEach]
  | cons p sent ih =>
      unfold recordEach
      rw [ih (fun q hq => hvolume q (List.mem_cons_of_mem _ hq)), mem_recordTransferOutcome,
        List.map_cons, List.count_cons, List.mem_cons]
      by_cases huid : uid = p.uid
      · subst huid
        have hcount : 2 ≤ (sent.map PhotoTargetPayload.uid).count p.uid + 1 ↔
            p.uid ∈ sent.map PhotoTargetPayload.uid := by
          rw [← List.count_pos_iff]
          omega
        simp only [Function.update_self, and_true, true_and, true_or, beq_self_eq_true, if_true,
          hcount]
        constructor
        · rintro ((h | h) | h | h)
          · exact .inl h
          · exact .inr (.inl h)
          · exact .inr (.inr h)
          · exact .inr (.inr (List.count_pos_iff.mp (by omega)))
        · rintro (h | h | h)
          · exact .inl (.inl h)
          · exact .inl (.inr h)
          · exact .inr (.inl h)
      · have hne : ¬ p.uid = uid := fun heq => huid heq.symm
        simp only [huid, false_and, or_false, false_or, beq_iff_eq, hne, if_false, Nat.add_zero]
        have hfailures : uid ∈ sent.map PhotoTargetPayload.uid →
            Function.update failures p.uid.linkId none uid.linkId = failures uid.linkId := by
          intro hmem
          apply Function.update_of_ne
          intro hlink
          -- Photos of one volume with one link id are the same photo.
          obtain ⟨q, hq, rfl⟩ := List.mem_map.mp hmem
          apply huid
          have hqv := hvolume q (List.mem_cons_of_mem _ hq)
          have hpv := hvolume p List.mem_cons_self
          cases hqu : q.uid
          cases hpu : p.uid
          simp_all
        constructor
        · rintro (h | ⟨hmem, hnone⟩ | h)
          · exact .inl h
          · exact .inr (.inl ⟨hmem, (hfailures hmem).symm.trans hnone⟩)
          · exact .inr (.inr h)
        · rintro (h | ⟨hmem, hnone⟩ | h)
          · exact .inl h
          · exact .inr (.inl ⟨hmem, (hfailures hmem).trans hnone⟩)
          · exact .inr (.inr h)

/-- Recording the answers of a request settles every photo that it carried. -/
theorem recordEach_spec {sent : List PhotoTargetPayload} {failures : LinkId → Option Failure}
    (h : Transferring uids log (sent.map PhotoTargetPayload.uid) pending run) :
    Transferring uids log [] pending (recordEach sent failures run) ∧
      work uids (recordEach sent failures run) ≤ work uids run := by
  induction sent generalizing run failures with
  | nil => exact ⟨h, Nat.le_refl _⟩
  | cons p sent ih =>
      obtain ⟨hstep, hwork⟩ := h.record (failures p.uid.linkId)
      obtain ⟨hdone, hwork'⟩ := ih hstep
      exact ⟨hdone, hwork'.trans hwork⟩

/-- One more request is in the log, and what it has taken is among the outcomes. -/
theorem Told.append {sent : Sent} {outcomes outcomes' : List PhotoOutcome} (h : Told log outcomes)
    (hcarried : ∀ uid ∈ sent.1.photos, uid ∈ sent.1.request.carries)
    (htaken : ∀ uid, (uid, .ok ()) ∈ outcomes' ↔ (uid, .ok ()) ∈ outcomes ∨ sent.Takes uid) :
    Told (log ++ [sent]) outcomes' where
  carried := by
    intro s hs
    rcases List.mem_append.mp hs with hs | hs
    · exact h.carried s hs
    · rw [List.mem_singleton.mp hs]
      exact hcarried
  taken := by
    intro uid
    rw [htaken, h.taken uid]
    simp only [List.mem_append, List.mem_singleton]
    -- A photo is taken by an earlier request or by this one.
    constructor
    · rintro (⟨s, hs, ht⟩ | ht)
      · exact ⟨s, .inl hs, ht⟩
      · exact ⟨sent, .inr rfl, ht⟩
    · rintro ⟨s, hs | rfl, ht⟩
      · exact .inl ⟨s, hs, ht⟩
      · exact .inr ht

/-- Between two requests, every position is accounted for, and so is every outcome Ok. -/
structure Transfers (uids : List NodeUid) (log : List Sent) (pending : List NodeUid)
    (run : TransferRun) : Prop extends Transferring uids log [] pending run, Told log run.outcomes

/-- The account of a call that has just begun. -/
theorem Transfers.start (uids : List NodeUid) :
    Transfers uids [] [] ⟨uids.map (fun uid => (uid, [])), [], []⟩ :=
  ⟨.start uids, .start⟩

/-- The order of the photos that are pending does not matter. -/
theorem Transfers.of_perm {pending' : List NodeUid} (h : Transfers uids log pending run)
    (hperm : pending'.Perm pending) : Transfers uids log pending' run :=
  ⟨h.toTransferring.of_perm hperm, h.toTold⟩

/-- A pending photo that fails is reported. -/
theorem Transfers.drop (h : Transfers uids log (u :: pending) run) (e : ProtonError) :
    Transfers uids log pending { run with outcomes := run.outcomes ++ [(u, .error e)] } :=
  ⟨h.toTransferring.drop e, h.toTold.drop u e⟩

/-- A photo that is taken from the queue is pending. -/
theorem Transfers.load {extra : List NodeUid} {queue : List (NodeUid × List NodeUid)}
    (h : Transfers uids log pending run) (hqueue : run.queue = (u, extra) :: queue) :
    Transfers uids log (u :: pending) { run with queue := queue } :=
  ⟨h.toTransferring.load hqueue, h.carried, h.taken⟩

/-! ## Programs -/

/-- Every call of the client comes back, with an error or not. -/
structure TransferClient.Returns {σ : Type} (client : TransferClient σ) : Prop where
  folderNodeKey : ∀ uid, (client.folderNodeKey uid).Returns
  parentHashKey : ∀ uid key, (client.parentHashKey uid key).Returns
  photosMembershipAddress : client.photosMembershipAddress.Returns
  photoTargetPayload : ∀ uid target, (client.photoTargetPayload uid target).Returns
  getPhotosNode : ∀ uid, (client.getPhotosNode uid).Returns
  send : ∀ request, (client.send request).Returns

section Programs

variable {σ : Type} {client : TransferClient σ} {target : PhotoTransferTarget}

/-- The program comes back: with an error, and no photo has been sent too often, or with a run in
which no more than `bound` photos are still to be taken off the queue. -/
def Ends (uids pending : List NodeUid) (bound : Nat) (x : TransferCall σ TransferRun)
    (s : Logged σ Sent) : Prop :=
  ∃ s' r, x.run s = some (s', r) ∧ (∀ uid, sentCount s'.log uid ≤ uids.count uid + 1) ∧
    ∀ run, r = .ok run → Transfers uids s'.log pending run ∧ work uids run ≤ bound

/-- No photo is sent more often than it was given, and once more. -/
theorem Transferring.sent_le (h : Transferring uids log flying pending run) (uid : NodeUid) :
    sentCount log uid ≤ uids.count uid + 1 := by
  have hpaid := h.paid uid
  omega

/-- A call that does nothing ends at once. -/
theorem Ends.pure {bound : Nat} {s : Logged σ Sent} (h : Transfers uids s.log pending run)
    (hwork : work uids run ≤ bound) :
    Ends uids pending bound (Pure.pure run : TransferCall σ TransferRun) s := by
  refine ⟨s, .ok run, rfl, h.toTransferring.sent_le, ?_⟩
  intro run' hrun
  cases hrun
  exact ⟨h, hwork⟩

/-- A program that ends, and what comes after it. -/
theorem Ends.bind_exists {α : Type} {bound : Nat} {s : Logged σ Sent}
    {x : TransferCall σ TransferRun} {f : TransferRun → TransferCall σ α}
    {Q : Logged σ Sent → Except ProtonError α → Prop} (hx : Ends uids pending bound x s)
    (herror : ∀ s' e, (∀ uid, sentCount s'.log uid ≤ uids.count uid + 1) → Q s' (.error e))
    (hf : ∀ s' run, Transfers uids s'.log pending run → work uids run ≤ bound →
      ∃ s'' r, (f run).run s' = some (s'', r) ∧ Q s'' r) :
    ∃ s'' r, (x >>= f).run s = some (s'', r) ∧ Q s'' r := by
  obtain ⟨s', r, hrun, hsent, hok⟩ := hx
  cases r with
  | error e => exact ⟨s', .error e, Program.bind_error hrun, herror s' e hsent⟩
  | ok run =>
      obtain ⟨hstate, hwork⟩ := hok run rfl
      obtain ⟨s'', r', hrest, hdone⟩ := hf s' run hstate hwork
      exact ⟨s'', r', by rw [Program.bind_ok hrun]; exact hrest, hdone⟩

/-- One call after the other, the second with the work that the first has left. -/
theorem Ends.bind {pending' : List NodeUid} {bound bound' : Nat} {s : Logged σ Sent}
    {x : TransferCall σ TransferRun} {f : TransferRun → TransferCall σ TransferRun}
    (hx : Ends uids pending bound x s)
    (hf : ∀ s' run, Transfers uids s'.log pending run → work uids run ≤ bound →
      Ends uids pending' bound' (f run) s') : Ends uids pending' bound' (x >>= f) s :=
  hx.bind_exists (fun _ _ hsent => ⟨hsent, fun _ hr => nomatch hr⟩) hf

variable (hclient : client.Returns)
include hclient

/-- A request settles the photos that it carries. -/
theorem sendBatch_ends {s : Logged σ Sent} {sent : List PhotoTargetPayload}
    (request : TransferRequest) (hbatch : ∀ source copy, request ≠ .copy source copy)
    (hcarries : ∀ p ∈ sent, p.uid ∈ request.carries)
    (hvolume : ∀ p ∈ sent, p.uid.volumeId = target.uid.volumeId)
    (h : Transfers uids s.log (sent.map PhotoTargetPayload.uid ++ pending) run) :
    Ends uids pending (work uids run) (client.sendBatch target request sent run) s := by
  obtain ⟨t, reply, hsend⟩ :=
    (hclient.send request).exchange (⟨request, sent.map PhotoTargetPayload.uid⟩ : Posted) s
  have hflying := h.toTransferring.send request reply
  unfold TransferClient.sendBatch
  dsimp only
  unfold Ends
  rw [Program.bind_ok hsend]
  cases reply with
  | error e => exact ⟨_, _, rfl, hflying.sent_le, fun run hr => nomatch hr⟩
  | ok responses =>
      have hcarried : ∀ uid ∈ sent.map PhotoTargetPayload.uid, uid ∈ request.carries := by
        intro uid huid
        obtain ⟨p, hp, rfl⟩ := List.mem_map.mp huid
        exact hcarries p hp
      -- A photo of the batch has no failure in the map if the answer reports none.
      have hreports : ∀ uid ∈ sent.map PhotoTargetPayload.uid,
          (collectFailures target.uid.volumeId responses (fun _ => none) uid.linkId = none ↔
            ¬ Sent.ReportsFailure (⟨request, sent.map PhotoTargetPayload.uid⟩, .ok responses)
              uid) := by
        intro uid huid
        have hlists : Sent.ReportsFailure (⟨request, sent.map PhotoTargetPayload.uid⟩, .ok responses)
            uid ↔ ∃ o ∈ responses, o.linkId = uid.linkId ∧ o.failed = true := by
          cases request with
          | copy source copy => exact absurd rfl (hbatch source copy)
          | transferMultiple _ _ _ _ => exact and_iff_right (hcarried uid huid)
          | addMultiple _ _ _ => exact and_iff_right (hcarried uid huid)
        rw [collectFailures_eq_none_iff, hlists]
        simp
      have htold : Told (s.log ++ [(⟨request, sent.map PhotoTargetPayload.uid⟩, .ok responses)])
          (recordTransferOutcomes target responses sent run).outcomes := by
        apply h.toTold.append hcarried
        intro uid
        unfold recordTransferOutcomes
        rw [mem_recordEach hvolume uid]
        unfold Sent.Takes
        constructor
        · rintro (hold | ⟨hmem, hnone⟩ | hcount)
          · exact .inl hold
          · exact .inr (.inl ⟨hmem, (hreports uid hmem).mp hnone⟩)
          · exact .inr (.inr hcount)
        · rintro (hold | ⟨hmem, hfine⟩ | hcount)
          · exact .inl hold
          · exact .inr (.inl ⟨hmem, (hreports uid hmem).mpr hfine⟩)
          · exact .inr (.inr hcount)
      obtain ⟨hdone, hwork⟩ := recordEach_spec hflying
      refine ⟨_, _, rfl, hdone.sent_le, ?_⟩
      intro run' hrun
      cases hrun
      exact ⟨⟨hdone, htold⟩, hwork⟩

/-- A copy settles its one photo. -/
theorem copyPhotoToTarget_ends {s : Logged σ Sent} {p : PhotoTargetPayload}
    (h : Transfers uids s.log (p.uid :: pending) run) :
    Ends uids pending (work uids run) (client.copyPhotoToTarget target p run) s := by
  obtain ⟨t, reply, hsend⟩ :=
    (hclient.send (.copy p.uid (copyPhotoRequest target p))).exchange
      (⟨.copy p.uid (copyPhotoRequest target p), [p.uid]⟩ : Posted) s
  have hsplit : Transferring uids s.log [] ([p.uid] ++ pending) run := h.toTransferring
  have hflying := hsplit.send (.copy p.uid (copyPhotoRequest target p)) reply
  unfold TransferClient.copyPhotoToTarget
  dsimp only
  unfold Ends
  rw [Program.bind_ok hsend]
  have htold : Told (s.log ++ [(⟨.copy p.uid (copyPhotoRequest target p), [p.uid]⟩, reply)])
      (run.recordTransferOutcome p.uid (client.copyFailure p.uid.volumeId reply)).outcomes := by
    have hcarried : ∀ uid ∈ [p.uid],
        uid ∈ (TransferRequest.copy p.uid (copyPhotoRequest target p)).carries := by
      intro uid huid
      rw [List.mem_singleton.mp huid]
      exact List.mem_cons_self
    apply h.toTold.append hcarried
    intro uid
    rw [mem_recordTransferOutcome]
    -- The copy is `Ok` exactly when the request that carried it did not report it as failed.
    apply or_congr Iff.rfl
    have hcount : ¬ 2 ≤ [p.uid].count uid := by
      rw [List.count_singleton]
      split <;> omega
    constructor
    · rintro ⟨rfl, hnone⟩
      refine .inl ⟨List.mem_singleton_self _, ?_⟩
      cases reply with
      | ok responses => exact fun hreports => hreports.2
      | error e => cases e <;> cases hnone
    · rintro (⟨hmem, hfine⟩ | htwo)
      · refine ⟨List.mem_singleton.mp hmem, ?_⟩
        cases reply with
        | ok responses => rfl
        | error e => exact absurd ⟨hcarried uid hmem, trivial⟩ hfine
      · exact absurd htwo hcount
  obtain ⟨hdone, hwork⟩ := hflying.record (client.copyFailure p.uid.volumeId reply)
  refine ⟨_, _, rfl, hdone.sent_le, ?_⟩
  intro run' hrun
  cases hrun
  exact ⟨⟨hdone, htold⟩, hwork⟩

omit hclient in
/-- The links of one photo of a batch for the timeline. -/
theorem transferLinkItem_linkId {items : List PhotoItem} {links : List TransferPhotoLinkItem}
    (h : items.mapM transferLinkItem = some links) :
    links.map TransferPhotoLinkItem.linkId = items.map (fun item => item.uid.linkId) := by
  induction items generalizing links with
  | nil =>
      cases h
      rfl
  | cons item items ih =>
      rw [List.mapM_cons] at h
      obtain ⟨link, hlink, hrest⟩ := Option.bind_eq_some_iff.mp h
      obtain ⟨rest, hmap, hlinks⟩ := Option.bind_eq_some_iff.mp hrest
      cases hlinks
      obtain ⟨hash, -, rfl⟩ := Option.map_eq_some_iff.mp hlink
      rw [List.map_cons, List.map_cons, ih hmap]

omit hclient in
/-- A photo of the timeline's batch is sent, or has its outcome. -/
theorem timelineLinks_spec {payloads : List PhotoTargetPayload}
    (hvolume : ∀ p ∈ payloads, p.uid.volumeId = target.uid.volumeId)
    (h : Transfers uids log (payloads.map PhotoTargetPayload.uid ++ pending) run) :
    Transfers uids log
        ((timelineLinks payloads run).2.1.map PhotoTargetPayload.uid ++ pending)
        (timelineLinks payloads run).2.2 ∧
      work uids (timelineLinks payloads run).2.2 = work uids run ∧
      (∀ p ∈ (timelineLinks payloads run).2.1, p.uid.volumeId = target.uid.volumeId) ∧
      (∀ p ∈ (timelineLinks payloads run).2.1,
        ∃ item ∈ (timelineLinks payloads run).1, item.linkId = p.uid.linkId) ∧
      ((timelineLinks payloads run).1 = [] → (timelineLinks payloads run).2.1 = []) := by
  induction payloads generalizing run pending with
  | nil => exact ⟨h, rfl, fun p hp => (nomatch hp), fun p hp => (nomatch hp), fun _ => rfl⟩
  | cons p payloads ih =>
      have hrest : ∀ q ∈ payloads, q.uid.volumeId = target.uid.volumeId :=
        fun q hq => hvolume q (List.mem_cons_of_mem _ hq)
      unfold timelineLinks
      split
      · next items hitems =>
        -- The photo itself is behind the others while they are looked at.
        have hbehind : Transfers uids log
            (payloads.map PhotoTargetPayload.uid ++ (p.uid :: pending)) run :=
          h.of_perm List.perm_middle
        obtain ⟨hstate, hwork, hvol, hlinked, -⟩ := ih hrest hbehind
        have hlinks := transferLinkItem_linkId hitems
        rw [List.map_cons] at hlinks
        refine ⟨hstate.of_perm List.perm_middle.symm, hwork, ?_, ?_, ?_⟩
        · intro q hq
          rcases List.mem_cons.mp hq with rfl | hq
          · exact hvolume q List.mem_cons_self
          · exact hvol q hq
        · intro q hq
          rcases List.mem_cons.mp hq with rfl | hq
          · have hmem : q.uid.linkId ∈ items.map TransferPhotoLinkItem.linkId := by
              rw [hlinks]
              exact List.mem_cons_self
            obtain ⟨item, hitem, hlink⟩ := List.mem_map.mp hmem
            exact ⟨item, List.mem_append_left _ hitem, hlink⟩
          · obtain ⟨item, hitem, hlink⟩ := hlinked q hq
            exact ⟨item, List.mem_append_right _ hitem, hlink⟩
        · intro hnil
          rw [(List.append_eq_nil_iff.mp hnil).1] at hlinks
          cases hlinks
      · exact ih hrest (h.drop _)

/-- A batch settles its photos. -/
theorem transferPhotoBatch_ends {s : Logged σ Sent} {payloads : List PhotoTargetPayload}
    (hvolume : ∀ p ∈ payloads, p.uid.volumeId = target.uid.volumeId)
    (h : Transfers uids s.log (payloads.map PhotoTargetPayload.uid ++ pending) run) :
    Ends uids pending (work uids run) (client.transferPhotoBatch target payloads run) s := by
  have huid : ∀ uid : NodeUid, uid.volumeId = target.uid.volumeId →
      (⟨target.uid.volumeId, uid.linkId⟩ : NodeUid) = uid := by
    intro uid hv
    rw [← hv]
  unfold TransferClient.transferPhotoBatch
  split
  · -- To the timeline: the links of the photos, of which some have failed before.
    obtain ⟨hstate, hwork, hvol, hlinked, hnone⟩ := timelineLinks_spec hvolume h
    dsimp only
    split
    · next hempty =>
      rw [hnone (List.isEmpty_iff.mp hempty)] at hstate
      exact .pure hstate (Nat.le_of_eq hwork)
    · rw [← hwork]
      apply sendBatch_ends hclient _ (fun _ _ h => TransferRequest.noConfusion h) _ hvol hstate
      intro p hp
      obtain ⟨item, hitem, hlink⟩ := hlinked p hp
      refine List.mem_map.mpr ⟨item, hitem, ?_⟩
      rw [hlink]
      exact huid p.uid (hvol p hp)
  · -- To an album: the photos with their related links in one request.
    apply sendBatch_ends hclient _ (fun _ _ h => TransferRequest.noConfusion h) _ hvolume h
    intro p hp
    refine List.mem_map.mpr ⟨albumEntry target.email p.photo, ?_, huid p.uid (hvolume p hp)⟩
    exact List.mem_map_of_mem (List.mem_flatMap.mpr ⟨p, hp, List.mem_cons_self⟩)

/-- The batches settle all payloads, by induction on the payloads that are left. -/
theorem transferBatches_ends {s : Logged σ Sent} {payloads : List PhotoTargetPayload}
    (batch : List PhotoTargetPayload) (links : Nat) {bound : Nat}
    (hvolume : ∀ p ∈ batch ++ payloads, p.uid.volumeId = target.uid.volumeId)
    (h : Transfers uids s.log ((batch ++ payloads).map PhotoTargetPayload.uid ++ pending) run)
    (hwork : work uids run ≤ bound) :
    Ends uids pending bound (client.transferBatches target payloads batch links run) s := by
  induction payloads generalizing batch links run s with
  | nil =>
      rw [List.append_nil] at h hvolume
      unfold TransferClient.transferBatches
      split
      · next hempty =>
        rw [List.isEmpty_iff.mp hempty] at h
        exact .pure h hwork
      · obtain ⟨s', r, hrun, hsent, hok⟩ := transferPhotoBatch_ends hclient hvolume h
        exact ⟨s', r, hrun, hsent, fun run' hr => ⟨(hok run' hr).1, (hok run' hr).2.trans hwork⟩⟩
  | cons p payloads ih =>
      unfold TransferClient.transferBatches
      dsimp only
      split
      · -- The batch is full and is sent before the payload.
        have hbatch : ∀ q ∈ batch, q.uid.volumeId = target.uid.volumeId :=
          fun q hq => hvolume q (List.mem_append_left _ hq)
        rw [List.map_append, List.append_assoc] at h
        refine .bind (transferPhotoBatch_ends hclient hbatch h) ?_
        intro s' run' hstate hwork'
        refine ih [p] _ ?_ hstate (hwork'.trans hwork)
        intro q hq
        exact hvolume q (List.mem_append_right _ hq)
      · -- The payload joins the batch.
        have hmoved : batch ++ [p] ++ payloads = batch ++ p :: payloads := by simp
        refine ih (batch ++ [p]) _ ?_ ?_ hwork
        · rw [hmoved]
          exact hvolume
        · rw [hmoved]
          exact h

/-- The copies settle all payloads, one after the other. -/
theorem copyPhotos_ends {s : Logged σ Sent} {payloads : List PhotoTargetPayload} {bound : Nat}
    (h : Transfers uids s.log (payloads.map PhotoTargetPayload.uid ++ pending) run)
    (hwork : work uids run ≤ bound) :
    Ends uids pending bound (client.copyPhotos target payloads run) s := by
  induction payloads generalizing run s with
  | nil => exact .pure h hwork
  | cons p payloads ih =>
      unfold TransferClient.copyPhotos
      refine .bind (copyPhotoToTarget_ends hclient h) ?_
      intro s' run' hstate hwork'
      exact ih hstate (hwork'.trans hwork)

/-! ### Loading -/

/-- Building an item sends no request. -/
theorem buildItem_quiet (uid : NodeUid) : (client.buildItem target uid).Quiet :=
  .bind (.inside (hclient.photoTargetPayload uid target)) (fun _ => .pure _)

/-- Building the related items sends no request. -/
theorem buildRelated_quiet (uids : List NodeUid) : (client.buildRelated target uids).Quiet := by
  induction uids with
  | nil => exact .pure _
  | cons uid uids ih =>
      unfold TransferClient.buildRelated
      refine .bind (.attempt (buildItem_quiet hclient uid)) (fun item => .bind ih (fun items => ?_))
      cases item with
      | ok item => exact .pure _
      | error e => exact .pure _

/-- A payload is of the photo that was asked for. -/
theorem transferPhotoPayload_spec (target : PhotoTransferTarget) (uid : NodeUid)
    (extra : List NodeUid) (s : Logged σ Sent) :
    ∃ s' r, (client.transferPhotoPayload target uid extra).run s = some (s', r) ∧
      s'.log = s.log ∧ ∀ p, r = .ok p → p.uid = uid := by
  unfold TransferClient.transferPhotoPayload
  refine Program.Quiet.bind_exists (buildItem_quiet hclient uid)
    (fun t e => ⟨rfl, fun p hp => nomatch hp⟩) (fun t photo => ?_)
  -- Three reads, and no request to transfer.
  split
  · exact ⟨_, _, rfl, rfl, fun p hp => nomatch hp⟩
  · refine Program.Quiet.bind_exists (.inside (hclient.getPhotosNode uid))
      (fun t e => ⟨rfl, fun p hp => nomatch hp⟩) (fun t related => ?_)
    cases related with
    | none => exact ⟨_, _, rfl, rfl, fun p hp => nomatch hp⟩
    | some related =>
        refine Program.Quiet.bind_exists (buildRelated_quiet hclient _)
          (fun t e => ⟨rfl, fun p hp => nomatch hp⟩) (fun t related => ?_)
        refine ⟨_, _, rfl, rfl, ?_⟩
        intro p hp
        cases hp
        rfl

/-- What has been loaded. -/
structure Loads (uids : List NodeUid) (log : List Sent) (target : PhotoTransferTarget)
    (loaded : TransferClient.Loaded) : Prop where
  state : Transfers uids log
    (loaded.sameVolume.map PhotoTargetPayload.uid ++
      loaded.crossVolume.map PhotoTargetPayload.uid) loaded.run
  volume : ∀ p ∈ loaded.sameVolume, p.uid.volumeId = target.uid.volumeId

/-- Loading takes photos from the queue, and at least one if there is room. -/
theorem loadPhotos_spec (room : Nat) {loaded : TransferClient.Loaded} {s : Logged σ Sent}
    (h : Loads uids s.log target loaded) :
    ∃ t loaded', (client.loadPhotos target room loaded).run s = some (⟨t, s.log⟩, .ok loaded') ∧
      Loads uids s.log target loaded' ∧ work uids loaded'.run ≤ work uids loaded.run ∧
      (0 < room → loaded.run.queue ≠ [] → work uids loaded'.run < work uids loaded.run) := by
  induction room generalizing loaded s with
  | zero => exact ⟨s.state, loaded, rfl, h, Nat.le_refl _, fun hroom => absurd hroom (by simp)⟩
  | succ room ih =>
      unfold TransferClient.loadPhotos
      split
      · next hqueue =>
        exact ⟨s.state, loaded, rfl, h, Nat.le_refl _, fun _ hne => absurd hqueue hne⟩
      · next uid extra queue hqueue =>
        obtain ⟨s', r, hrun, hlog, huid⟩ := transferPhotoPayload_spec hclient target uid
          extra s
        have htaken := h.state.load hqueue
        have hless : ∀ outcomes, work uids { loaded.run with queue := queue, outcomes := outcomes } <
            work uids loaded.run := by
          intro outcomes
          simp only [work, hqueue, List.length_cons]
          omega
        -- What is left of the round, once the photo is accounted for.
        have hnext : ∀ loaded₁ : TransferClient.Loaded, Loads uids s.log target loaded₁ →
            work uids loaded₁.run < work uids loaded.run →
            ∃ t loaded', (client.loadPhotos target room loaded₁).run s' =
                some (⟨t, s.log⟩, .ok loaded') ∧
              Loads uids s.log target loaded' ∧ work uids loaded'.run ≤ work uids loaded.run ∧
              (0 < room + 1 → loaded.run.queue ≠ [] →
                work uids loaded'.run < work uids loaded.run) := by
          intro loaded₁ hloads hlt
          rw [← hlog] at hloads
          obtain ⟨t, loaded', hrest, hdone, hle, -⟩ := ih hloads
          rw [hlog] at hrest hdone
          exact ⟨t, loaded', hrest, hdone, by omega, fun _ _ => by omega⟩
        have hattempt := Program.attempt_run.mpr hrun
        dsimp only
        rw [Program.bind_ok hattempt]
        cases r with
        | error e => exact hnext _ ⟨htaken.drop e, h.volume⟩ (hless _)
        | ok p =>
            have hp : p.uid = uid := huid p rfl
            dsimp only
            split
            · next hvolume =>
              refine hnext _ ⟨?_, ?_⟩ (hless _)
              · apply htaken.of_perm
                rw [List.map_append, List.append_assoc, ← hp]
                exact List.perm_middle
              · intro q hq
                rcases List.mem_append.mp hq with hq | hq
                · exact h.volume q hq
                · rw [List.mem_singleton.mp hq]
                  exact hvolume
            · refine hnext _ ⟨?_, h.volume⟩ (hless _)
              apply htaken.of_perm
              rw [List.map_append, ← List.append_assoc, ← hp]
              exact List.perm_append_singleton _ _

/-! ### Rounds -/

/-- **A transfer comes to its end**, and every position has its outcome. -/
theorem transferRounds_ends (target : PhotoTransferTarget) {fuel : Nat} {s : Logged σ Sent}
    (h : Transfers uids s.log [] run) (hfuel : work uids run < fuel) :
    ∃ s' r, (client.transferRounds target fuel run).run s = some (s', r) ∧
      (∀ uid, sentCount s'.log uid ≤ uids.count uid + 1) ∧
      ∀ run', r = .ok run' → Transfers uids s'.log [] run' ∧ run'.queue = [] := by
  induction fuel generalizing run s with
  | zero => omega
  | succ fuel ih =>
      unfold TransferClient.transferRounds
      split
      · next hempty =>
        refine ⟨s, .ok run, rfl, h.toTransferring.sent_le, ?_⟩
        intro run' hrun
        cases hrun
        exact ⟨h, List.isEmpty_iff.mp hempty⟩
      · -- A round loads photos from the queue, sends those of the volume in batches, and copies
        -- the others.
        next hne =>
        have hstart : Loads uids s.log target ⟨[], [], run⟩ := ⟨h, fun p hp => nomatch hp⟩
        obtain ⟨t, loaded, hload, hloads, -, hless⟩ :=
          loadPhotos_spec hclient TransferClient.loadBatch hstart
        have hlt : work uids loaded.run < work uids run := hless (by decide) (by simpa using hne)
        rw [Program.bind_ok hload]
        have hsame : Ends uids (loaded.crossVolume.map PhotoTargetPayload.uid)
            (work uids loaded.run)
            (client.transferBatches target loaded.sameVolume [] 0 loaded.run) ⟨t, s.log⟩ :=
          transferBatches_ends hclient [] 0 hloads.volume hloads.state (Nat.le_refl _)
        have herror : ∀ (s' : Logged σ Sent) (e : ProtonError),
            (∀ uid, sentCount s'.log uid ≤ uids.count uid + 1) →
            (∀ uid, sentCount s'.log uid ≤ uids.count uid + 1) ∧
              ∀ run', (Except.error e : Except ProtonError TransferRun) = .ok run' →
                Transfers uids s'.log [] run' ∧ run'.queue = [] :=
          fun s' e hsent => ⟨hsent, fun _ hr => nomatch hr⟩
        apply hsame.bind_exists herror
        intro s₁ run₁ hstate₁ hwork₁
        have hcross : Ends uids [] (work uids loaded.run)
            (client.copyPhotos target loaded.crossVolume run₁) s₁ := by
          refine copyPhotos_ends hclient ?_ hwork₁
          rw [List.append_nil]
          exact hstate₁
        apply hcross.bind_exists herror
        intro s₂ run₂ hstate₂ hwork₂
        exact ih hstate₂ (by omega)

omit hclient in
/-- At first each photo may be sent twice. -/
theorem work_start (uids : List NodeUid) :
    work uids ⟨uids.map (fun uid => (uid, [])), [], []⟩ = 2 * uids.length := by
  simp [work]
  omega

/-- What a transfer of the list `uids` is held to. -/
structure TransferAccounts (uids : List NodeUid) (log : List Sent) (outcomes : List PhotoOutcome) :
    Prop where
  /-- One outcome for each position. -/
  positions : (outcomes.map Prod.fst).Perm uids
  /-- A photo that is reported as transferred was not refused in the last request that carried it. -/
  taken : ∀ uid, (uid, .ok ()) ∈ outcomes → LastTaken log uid

omit hclient in
/-- The outcomes are to be counted on if the failures that the server reported last hold. -/
theorem Told.accounts_iff {outcomes : List PhotoOutcome} (h : Told log outcomes)
    (hperm : (outcomes.map Prod.fst).Perm uids) :
    TransferAccounts uids log outcomes ↔ FailuresHold log := by
  constructor
  · -- What the last request reported as failed no request may have taken.
    intro haccounts uid before sent after hlast hreports
    have hnone : ∀ s ∈ log, ¬ Sent.Takes s uid := by
      intro s hs htakes
      obtain ⟨before', sent', after', hlast', hfine⟩ :=
        haccounts.taken uid ((h.taken uid).mpr ⟨s, hs, htakes⟩)
      obtain ⟨-, rfl, -⟩ := hlast.unique hlast'
      exact hfine hreports
    rw [hlast.log_eq] at hnone
    exact ⟨hnone sent (List.mem_append_right _ List.mem_cons_self),
      fun s hs => hnone s (List.mem_append_left _ hs)⟩
  · intro hhold
    refine ⟨hperm, ?_⟩
    intro uid hmem
    obtain ⟨s, hs, htakes⟩ := (h.taken uid).mp hmem
    -- What was taken was carried, so there is a last request that carried it.
    have hphoto : uid ∈ s.1.photos := by
      rcases htakes with ⟨hphoto, -⟩ | hcount
      · exact hphoto
      · exact List.count_pos_iff.mp (by omega)
    have hcarries := h.carried s hs uid hphoto
    obtain ⟨before, sent, after, hlast⟩ := SplitsAtLast.of_exists
      (p := fun s : Sent => uid ∈ s.1.request.carries) ⟨s, hs, hcarries⟩
    refine ⟨before, sent, after, hlast, ?_⟩
    intro hreports
    obtain ⟨hhere, hbefore⟩ := hhold uid before sent after hlast hreports
    rw [hlast.log_eq] at hs
    rcases List.mem_append.mp hs with hs | hs
    · exact hbefore s hs htakes
    · rcases List.mem_cons.mp hs with rfl | hs
      · exact hhere htakes
      · exact hlast.after s hs hcarries

/-- The call returns, with one outcome for each photo. -/
theorem transferPhotos_spec (target : PhotoTransferTarget) (uids : List NodeUid) (state : σ)
    {fuel : Nat} (hfuel : 2 * uids.length < fuel) :
    ∃ s r, (client.transferPhotos fuel target uids).run ⟨state, []⟩ = some (s, r) ∧
      (∀ uid, sentCount s.log uid ≤ uids.count uid + 1) ∧
      ∀ outcomes, r = .ok outcomes →
        (outcomes.map Prod.fst).Perm uids ∧ Told s.log outcomes := by
  have hstart : Transfers uids (⟨state, []⟩ : Logged σ Sent).log []
      ⟨uids.map (fun uid => (uid, [])), [], []⟩ := Transfers.start uids
  have henough : work uids ⟨uids.map (fun uid => (uid, [])), [], []⟩ < fuel := by
    rw [work_start]
    exact hfuel
  obtain ⟨s, r, hrun, hsent, hok⟩ := transferRounds_ends hclient target hstart henough
  unfold TransferClient.transferPhotos
  cases r with
  | error e => exact ⟨s, .error e, Program.bind_error hrun, hsent, fun _ hr => nomatch hr⟩
  | ok run =>
      obtain ⟨hdone, hqueue⟩ := hok run rfl
      refine ⟨s, .ok run.outcomes, by rw [Program.bind_ok hrun]; rfl, hsent, ?_⟩
      intro outcomes hr
      cases hr
      -- Nothing is queued any more, so every photo has its outcome.
      have hperm : (run.outcomes.map Prod.fst).Perm uids := by
        have hall := hdone.perm
        rw [hqueue] at hall
        simpa using hall
      exact ⟨hperm, hdone.toTold⟩

omit hclient in
/-- The order of the outcomes does not matter. -/
theorem Told.of_perm {outcomes outcomes' : List PhotoOutcome} (h : Told log outcomes)
    (hperm : outcomes'.Perm outcomes) : Told log outcomes' where
  carried := h.carried
  taken := by
    intro uid
    rw [hperm.mem_iff]
    exact h.taken uid

omit hclient in
/-- Equal photos stand together if the first positions do not go back. -/
theorem together_iff : Together uids ↔
    uids.Pairwise (fun a b => uids.idxOf a ≤ uids.idxOf b) := by
  -- No photo stands before its first place.
  have hfirst : ∀ i (hi : i < uids.length), uids.idxOf uids[i] ≤ i := by
    intro i hi
    by_contra hlt
    have hbefore : i < uids.findIdx (· == uids[i]) := Nat.lt_of_not_le hlt
    have hne := List.not_of_lt_findIdx hbefore
    simp at hne
  rw [List.pairwise_iff_getElem]
  constructor
  · intro h i j hi hj hlt
    by_contra hback
    have hk : uids.idxOf uids[j] < uids.length := List.idxOf_lt_length_of_mem (List.getElem_mem hj)
    -- The first place of `uids[j]` lies before `i`, so `uids[i]` stands between two equal ones.
    have hki : uids.idxOf uids[j] < i := by
      have hle := hfirst i hi
      omega
    have hsame : uids[uids.idxOf uids[j]]? = uids[j]? := by
      rw [List.getElem?_eq_getElem hk, List.getElem_idxOf, List.getElem?_eq_getElem hj]
    have hbetween := h _ i j hki hlt hj hsame
    rw [List.getElem?_eq_getElem hi, List.getElem?_eq_getElem hj, Option.some.injEq] at hbetween
    rw [hbetween] at hback
    exact hback (Nat.le_refl _)
  · intro h i j k hij hjk hk hsame
    have hj := hjk.trans hk
    have hi := hij.trans hj
    rw [List.getElem?_eq_getElem hi, List.getElem?_eq_getElem hk, Option.some.injEq] at hsame
    rw [List.getElem?_eq_getElem hj, List.getElem?_eq_getElem hk]
    have hup := h i j hi hj hij
    have hdown := h j k hj hk hjk
    rw [hsame] at hup
    exact congrArg some
      ((List.idxOf_inj (List.getElem_mem hj)).mp (Nat.le_antisymm hdown hup))

omit hclient in
/-- Sorted by the first positions, the outcomes are in the order of a list whose equal photos stand
together, and of no other. -/
theorem sortByKey_positions_iff {outcomes : List PhotoOutcome}
    (hperm : (outcomes.map Prod.fst).Perm uids) :
    (sortByKey (fun o => uids.idxOf o.1) outcomes).map Prod.fst = uids ↔ Together uids := by
  have hsorted : ((sortByKey (fun o => uids.idxOf o.1) outcomes).map Prod.fst).Pairwise
      (fun a b => uids.idxOf a ≤ uids.idxOf b) :=
    List.pairwise_map.mpr (sortByKey_pairwise _ _)
  rw [together_iff]
  constructor
  · intro heq
    rw [heq] at hsorted
    exact hsorted
  · intro hinput
    have hsame := ((sortByKey_perm (fun o => uids.idxOf o.1) outcomes).map Prod.fst).trans hperm
    apply List.Perm.eq_of_pairwise _ hsorted hinput hsame
    intro a b ha hb hab hba
    exact (List.idxOf_inj (hsame.mem_iff.mp ha)).mp (le_antisymm hab hba)

/-- Adding to an album returns, with one outcome for each photo. -/
theorem addPhotosToAlbum_spec (albumUid : NodeUid) (uids : List NodeUid) (state : σ)
    {fuel : Nat} (hfuel : 2 * uids.length < fuel) :
    ∃ s r, (client.addPhotosToAlbum fuel albumUid uids).run ⟨state, []⟩ = some (s, r) ∧
      (∀ uid, sentCount s.log uid ≤ uids.count uid + 1) ∧
      ∀ outcomes, r = .ok outcomes → (outcomes.map Prod.fst).Perm uids ∧
        (outcomes.map Prod.fst = uids ↔ Together uids) ∧ Told s.log outcomes := by
  have hquiet : ∀ (t : σ) (e : ProtonError),
      (∀ uid, sentCount (⟨t, []⟩ : Logged σ Sent).log uid ≤ uids.count uid + 1) ∧
      ∀ outcomes, (Except.error e : Except ProtonError (List PhotoOutcome)) = .ok outcomes →
        (outcomes.map Prod.fst).Perm uids ∧
        (outcomes.map Prod.fst = uids ↔ Together uids) ∧
          Told (⟨t, []⟩ : Logged σ Sent).log outcomes :=
    fun t e => ⟨fun uid => Nat.zero_le _, fun _ hr => nomatch hr⟩
  unfold TransferClient.addPhotosToAlbum
  split
  · next hempty =>
    refine ⟨_, _, rfl, fun uid => Nat.zero_le _, ?_⟩
    intro outcomes hr
    cases hr
    rw [List.isEmpty_iff.mp hempty]
    exact ⟨List.Perm.refl _, iff_of_true rfl (fun i j k _ _ hk => (nomatch hk)), Told.start⟩
  · -- Three reads, none of which sends a photo.
    refine Program.Quiet.bind_exists (.inside (hclient.folderNodeKey albumUid))
      (fun t e => hquiet t e) (fun t key => ?_)
    refine Program.Quiet.bind_exists (.inside (hclient.parentHashKey albumUid key))
      (fun t e => hquiet t e) (fun t hashKey => ?_)
    refine Program.Quiet.bind_exists (.inside hclient.photosMembershipAddress)
      (fun t e => hquiet t e) (fun t address => ?_)
    obtain ⟨s, r, hrun, hsent, hok⟩ := transferPhotos_spec hclient
      ⟨albumUid, .album, key, hashKey, address.1, address.2⟩ uids t hfuel
    cases r with
    | error e => exact ⟨s, .error e, Program.bind_error hrun, hsent, fun _ hr => nomatch hr⟩
    | ok outcomes =>
        obtain ⟨hperm, htold⟩ := hok outcomes rfl
        -- Sorting by the first place of a photo keeps the outcomes.
        have hsorted : (sortByKey (fun o => uids.idxOf o.1) outcomes).Perm outcomes :=
          sortByKey_perm _ _
        refine ⟨s, .ok (sortByKey (fun o => uids.idxOf o.1) outcomes), ?_, hsent, ?_⟩
        · rw [Program.bind_ok hrun]
          rfl
        · intro outcomes' hr
          cases hr
          exact ⟨(hsorted.map Prod.fst).trans hperm, sortByKey_positions_iff hperm,
            htold.of_perm hsorted⟩

/-- **Accounting.** Whatever is answered, a transfer comes to its end and sends no photo more than
once too often; and it keeps to its account exactly if the failures that were reported last hold, and
for an album if equal photos stand together in the list. -/
theorem transfer_accounts_iff (uids : List NodeUid) (state : σ) {fuel : Nat}
    (hfuel : 2 * uids.length < fuel) :
    (∀ target, ∃ s r, (client.transferPhotos fuel target uids).run ⟨state, []⟩ = some (s, r) ∧
      (∀ uid, sentCount s.log uid ≤ uids.count uid + 1) ∧
      ∀ outcomes, r = .ok outcomes → (TransferAccounts uids s.log outcomes ↔ FailuresHold s.log)) ∧
    ∀ album, ∃ s r, (client.addPhotosToAlbum fuel album uids).run ⟨state, []⟩ = some (s, r) ∧
      (∀ uid, sentCount s.log uid ≤ uids.count uid + 1) ∧
      ∀ outcomes, r = .ok outcomes →
        (outcomes.map Prod.fst = uids ∧ TransferAccounts uids s.log outcomes ↔
          Together uids ∧ FailuresHold s.log) := by
  refine ⟨fun target => ?_, fun album => ?_⟩
  · obtain ⟨s, r, hrun, hsent, hok⟩ := transferPhotos_spec hclient target uids state hfuel
    refine ⟨s, r, hrun, hsent, ?_⟩
    intro outcomes hr
    obtain ⟨hperm, htold⟩ := hok outcomes hr
    exact htold.accounts_iff hperm
  · -- For an album the outcomes are sorted, which is right when equal photos stand together.
    obtain ⟨s, r, hrun, hsent, hok⟩ := addPhotosToAlbum_spec hclient album uids state hfuel
    refine ⟨s, r, hrun, hsent, ?_⟩
    intro outcomes hr
    obtain ⟨hperm, hpositions, htold⟩ := hok outcomes hr
    rw [hpositions, htold.accounts_iff hperm]

end Programs

/-! ## Servers that refuse -/

/-- Photos of volume 1 that all load, and a server that numbers its requests. -/
def answeringClient (related : LinkId → List LinkId) (answer : Nat → List PhotoLinkOutcome) :
    TransferClient Nat where
  folderNodeKey _ := .pure 1
  parentHashKey _ _ := .pure []
  photosMembershipAddress := .pure ("me", 2)
  photoTargetPayload _ _ := .pure ⟨none, some [], [], [], [], []⟩
  getPhotosNode uid := .pure (some ((related uid.linkId).map (NodeUid.mk uid.volumeId)))
  send _ := ⟨fun n => some (n + 1, .ok (answer n))⟩
  missingRelatedLinks _ := []

/-- Every request of the sample client is answered. -/
theorem answeringClient_returns (related : LinkId → List LinkId)
    (answer : Nat → List PhotoLinkOutcome) : (answeringClient related answer).Returns where
  folderNodeKey _ s := ⟨s, _, rfl⟩
  parentHashKey _ _ s := ⟨s, _, rfl⟩
  photosMembershipAddress s := ⟨s, _, rfl⟩
  photoTargetPayload _ _ s := ⟨s, _, rfl⟩
  getPhotosNode _ s := ⟨s, _, rfl⟩
  send _ s := ⟨s + 1, _, rfl⟩

def photosOf (linkIds : List LinkId) : List NodeUid := linkIds.map (NodeUid.mk 1)

/-- A request to the album 9 with these links, for these photos, and its answer. -/
def added (linkIds photos : List LinkId) (responses : List PhotoLinkOutcome) : Sent :=
  (⟨.addMultiple 1 9 (linkIds.map (fun a => ⟨a, [], [], "me", [], []⟩)), photosOf photos⟩,
    .ok responses)

/-- The second of three photos is wanted with a related one, and is sent once more. -/
theorem transfer_accounts_retried :
    ∃ s outcomes, ((answeringClient (fun _ => [])
          (fun n => if n = 0 then [⟨2, 2511, none, [7]⟩] else [])).addPhotosToAlbum 7 ⟨1, 9⟩
          (photosOf [1, 2, 3])).run ⟨0, []⟩ = some (s, .ok outcomes) ∧
      outcomes = [(⟨1, 1⟩, .ok ()), (⟨1, 2⟩, .ok ()), (⟨1, 3⟩, .ok ())] ∧
      s.log = [added [1, 2, 3] [1, 2, 3] [⟨2, 2511, none, [7]⟩], added [2, 7] [2] []] ∧
      TransferAccounts (photosOf [1, 2, 3]) s.log outcomes ∧ FailuresHold s.log := by
  obtain ⟨s, r, hrun, -, hok⟩ := (transfer_accounts_iff (answeringClient_returns (fun _ => [])
    (fun n => if n = 0 then [⟨2, 2511, none, [7]⟩] else [])) (photosOf [1, 2, 3]) 0
    (show 2 * (photosOf [1, 2, 3]).length < 7 by decide)).2 ⟨1, 9⟩
  have hlog : s.log = [added [1, 2, 3] [1, 2, 3] [⟨2, 2511, none, [7]⟩], added [2, 7] [2] []] := by
    cases hrun
    rfl
  have houtcomes : r = .ok [(⟨1, 1⟩, .ok ()), (⟨1, 2⟩, .ok ()), (⟨1, 3⟩, .ok ())] := by
    cases hrun
    rfl
  subst houtcomes
  have haccounts : TransferAccounts (photosOf [1, 2, 3]) s.log
      [(⟨1, 1⟩, .ok ()), (⟨1, 2⟩, .ok ()), (⟨1, 3⟩, .ok ())] := by
    refine ⟨List.Perm.refl _, ?_⟩
    intro uid huid
    rw [hlog]
    simp only [List.mem_cons, Prod.mk.injEq, and_true, List.not_mem_nil, or_false] at huid
    -- The second photo is carried again, by the last request, and the others by the first one only.
    rcases huid with rfl | rfl | rfl
    · refine ⟨[], _, [_], ⟨rfl, by decide, by decide⟩, ?_⟩
      rintro ⟨-, o, ho, hlink, -⟩
      cases List.mem_singleton.mp ho
      cases hlink
    · refine ⟨[_], _, [], ⟨rfl, by decide, by decide⟩, ?_⟩
      rintro ⟨-, o, ho, -⟩
      cases ho
    · refine ⟨[], _, [_], ⟨rfl, by decide, by decide⟩, ?_⟩
      rintro ⟨-, o, ho, hlink, -⟩
      cases List.mem_singleton.mp ho
      cases hlink
  exact ⟨s, _, hrun, rfl, hlog, haccounts, ((hok _ rfl).mp ⟨rfl, haccounts⟩).2⟩

/-- A photo that is listed twice and refused is reported as added at its second position. One that was
added first, and refused as a related photo in the next request, stays reported as added. And the
outcomes of `[1, 2, 1]` come back as those of `[1, 1, 2]`. -/
theorem transfer_miscounts :
    (∃ s outcomes, ((answeringClient (fun _ => [])
          (fun _ => [⟨1, 2500, some "photo already in album", []⟩])).addPhotosToAlbum 5 ⟨1, 9⟩
          (photosOf [1, 1])).run ⟨0, []⟩ = some (s, .ok outcomes) ∧
      outcomes = [(⟨1, 1⟩, .error (.invalidOperation "photo already in album")),
        (⟨1, 1⟩, .ok ())] ∧
      ¬ TransferAccounts (photosOf [1, 1]) s.log outcomes) ∧
    (∃ s outcomes, ((answeringClient (fun a => if a = 2 then [1] else [])
          (fun n => if n = 0 then [] else [⟨1, 2500, some "refused", []⟩])).addPhotosToAlbum 23 ⟨1, 9⟩
          (photosOf [1, 10, 11, 12, 13, 14, 15, 16, 17, 18, 2])).run ⟨0, []⟩ =
        some (s, .ok outcomes) ∧
      (⟨1, 1⟩, .ok ()) ∈ outcomes ∧
      ¬ TransferAccounts (photosOf [1, 10, 11, 12, 13, 14, 15, 16, 17, 18, 2]) s.log outcomes) ∧
    (∃ s outcomes, ((answeringClient (fun _ => []) (fun _ => [])).addPhotosToAlbum 7 ⟨1, 9⟩
          (photosOf [1, 2, 1])).run ⟨0, []⟩ = some (s, .ok outcomes) ∧
      outcomes.map Prod.fst = photosOf [1, 1, 2]) := by
  refine ⟨⟨_, _, rfl, rfl, ?_⟩, ⟨_, _, rfl, .head _, ?_⟩, ⟨_, _, rfl, rfl⟩⟩
  · intro h
    -- One request carries the photo twice, and both outcomes are read from one answer.
    obtain ⟨before, sent, after, hlast, hfine⟩ := h.taken ⟨1, 1⟩ (.tail _ (.head _))
    have hone : SplitsAtLast (fun s : Sent => (⟨1, 1⟩ : NodeUid) ∈ s.1.request.carries)
        [added [1, 1] [1, 1] [⟨1, 2500, some "photo already in album", []⟩]] []
        (added [1, 1] [1, 1] [⟨1, 2500, some "photo already in album", []⟩]) [] :=
      ⟨rfl, by decide, by decide⟩
    obtain ⟨-, rfl, -⟩ := hlast.unique hone
    exact hfine ⟨by decide, _, .head _, rfl, rfl⟩
  · intro h
    -- The last request carries the photo as related to another one, and reports it as failed.
    obtain ⟨before, sent, after, hlast, hfine⟩ := h.taken ⟨1, 1⟩ (.head _)
    have htwo : SplitsAtLast (fun s : Sent => (⟨1, 1⟩ : NodeUid) ∈ s.1.request.carries)
        [added [1, 10, 11, 12, 13, 14, 15, 16, 17, 18] [1, 10, 11, 12, 13, 14, 15, 16, 17, 18] [],
          added [2, 1] [2] [⟨1, 2500, some "refused", []⟩]]
        [added [1, 10, 11, 12, 13, 14, 15, 16, 17, 18] [1, 10, 11, 12, 13, 14, 15, 16, 17, 18] []]
        (added [2, 1] [2] [⟨1, 2500, some "refused", []⟩]) [] :=
      ⟨rfl, by decide, by decide⟩
    obtain ⟨-, rfl, -⟩ := hlast.unique htwo
    exact hfine ⟨by decide, _, .head _, rfl, rfl⟩

end ProtonDrive.PhotoTransfer
