import ProtonDrive.Drive.Requests

/-!
# Moving several nodes

`move_nodes` prepares every move up front, sends what it could prepare in batches, and reports one
outcome for each uid. What the server does with a batch is an argument: which of its links it has
moved, and what it answers. The two need not agree, since an answer can get lost.

* `prepareMoves`, `takeMoveBatch`, `submitMoveBatch` — the steps of the source.
* `takeMoveBatch_uniform` — a batch is signed one way throughout, as its request says.
* `submitMoves_keeps` — what every landed link and every look-up keeps, a whole run keeps.
-/

namespace ProtonDrive

open OpenPgp

/-! ## Data -/

structure NodeMoveItem where
  uid : NodeUid
  targetName : Option Bytes
  deriving DecidableEq, Repr

structure MoveMultipleLinksItem where
  linkId : LinkId
  name : Message
  passphrase : Message
  nameHash : NameHash
  originalHash : NameHash
  passphraseSignature : Option Signature
  deriving DecidableEq, Repr

structure MoveMultipleLinksRequest where
  parentLinkId : LinkId
  links : List MoveMultipleLinksItem
  nameSignatureEmail : String
  signatureEmail : Option String
  deriving DecidableEq, Repr

/-- One node's move, encrypted and ready for a batch. -/
structure PreparedMove where
  uid : NodeUid
  item : MoveMultipleLinksItem
  /-- Where the move was prepared from, and the name it carried then. -/
  sourceParent : Option LinkId
  currentName : Bytes
  anonymous : Bool
  /-- The original hash already came from the server. -/
  retried : Bool
  /-- The move of an anonymous node, and no other, brings a signature. -/
  signed : anonymous = item.passphraseSignature.isSome
  deriving DecidableEq, Repr

/-- The move with the hash that the server holds. -/
def PreparedMove.retry (prepared : PreparedMove) (hash : NameHash) : PreparedMove :=
  { prepared with
    item := { prepared.item with originalHash := hash }
    retried := true
    signed := prepared.signed }

abbrev MoveOutcome := NodeUid × Except ProtonError Unit

/-- A batch move in progress: what is left to send, and what there is to report. -/
structure MoveRun where
  parent : NodeUid
  /-- The address that names, and the passphrases of anonymous nodes, are signed as. -/
  email : String
  queue : List PreparedMove
  outcomes : List MoveOutcome

/-- What the server has done with a batch, and its answer. -/
structure BatchReply where
  landed : List LinkId
  response : Except ProtonError (List (LinkId × ApiResponse))

/-! ## The server -/

/-- One link of a batch, as the request of a single move. -/
def MoveMultipleLinksRequest.single (request : MoveMultipleLinksRequest)
    (item : MoveMultipleLinksItem) : Context.MoveLinkRequest where
  parentLinkId := request.parentLinkId
  passphrase := item.passphrase
  passphraseSignature := item.passphraseSignature
  name := item.name
  nameSignatureEmail := request.nameSignatureEmail
  nameHash := item.nameHash
  originalHash := item.originalHash
  signatureEmail := request.signatureEmail

/-- Move the links of a request that have landed. -/
def World.moveLinks (w : World) (volumeId : VolumeId) (request : MoveMultipleLinksRequest)
    (landed : List LinkId) : List MoveMultipleLinksItem → World
  | [] => w
  | item :: items =>
      if item.linkId ∈ landed then
        (w.updateLink ⟨volumeId, item.linkId⟩ (LinkDetails.move (request.single item))).moveLinks
          volumeId request landed items
      else w.moveLinks volumeId request landed items

namespace Context

/-! ## Preparing -/

def listedTwice (uid : NodeUid) : ProtonError :=
  .invalidOperation ("node " ++ uid.text ++ " is listed more than once in one move")

/-- Why an item cannot be moved at all, if so. `seen` are the links taken already. -/
def rejectMove (parent : NodeUid) (seen : List LinkId) (item : NodeMoveItem) : Option ProtonError :=
  if item.uid.volumeId ≠ parent.volumeId then some crossVolumeMove
  else
    match item.targetName.map validateNodeName with
    | some (.error e) => some e
    | _ => if item.uid.linkId ∈ seen then some (listedTwice item.uid) else none

/-- The items that are rejected, and those that are left. -/
def screenMoves (parent : NodeUid) : (seen : List LinkId) → List NodeMoveItem →
    List MoveOutcome × List NodeMoveItem
  | _, [] => ([], [])
  | seen, item :: items =>
      match rejectMove parent seen item with
      | some e =>
          let rest := screenMoves parent seen items
          ((item.uid, .error e) :: rest.1, rest.2)
      | none =>
          let rest := screenMoves parent (item.uid.linkId :: seen) items
          (rest.1, item :: rest.2)

variable (c : Context)

/-- The links of a volume by id, fetched in batches. -/
def fetchLinks (volumeId : VolumeId) (linkIds : List LinkId) : Call (LinkId → Option Link) := do
  let details ← Program.traverse (getLinkDetails volumeId) (chunks KeyWalk.maxBatchCount linkIds)
  let links := details.flatten.map LinkDetails.link
  return fun a => links.reverse.find? (fun link => link.id = a)

/-- Where the moves of a run go, and who signs them. -/
structure MoveTarget where
  key : Key
  hashKey : Bytes
  signingKey : Key

def preparedMove (uid : NodeUid) (link : Link) (parts : MoveParts) : PreparedMove where
  uid := uid
  item := {
    linkId := uid.linkId
    name := parts.encryptedName
    passphrase := parts.passphrase
    nameHash := parts.nameHash
    originalHash := parts.originalHash
    passphraseSignature := parts.anonymousSignature }
  sourceParent := link.parentId
  currentName := parts.currentName
  anonymous := parts.anonymousSignature.isSome
  retried := false
  signed := rfl

/-- Encrypt each move. An item whose link is not there or does not decrypt is an outcome. -/
def prepareEach (links : LinkId → Option Link) (target : MoveTarget) (sessions : NodeUid → Session) :
    List NodeMoveItem → MoveRun → Call MoveRun
  | [], run => return run
  | item :: items, run =>
      match links item.uid.linkId with
      | none =>
          prepareEach links target sessions items
            { run with outcomes := run.outcomes ++ [(item.uid, .error (nodeNotFound item.uid))] }
      | some link => do
          let parts ← (c.buildMoveParts item.uid link item.targetName target.key target.hashKey
            target.signingKey (sessions item.uid)).attempt
          match parts with
          | .error e =>
              prepareEach links target sessions items
                { run with outcomes := run.outcomes ++ [(item.uid, .error e)] }
          | .ok parts =>
              prepareEach links target sessions items
                { run with queue := run.queue ++ [preparedMove item.uid link parts] }

def prepareMoves (items : List NodeMoveItem) (parent : NodeUid) (sessions : NodeUid → Session) :
    Call MoveRun :=
  let screened := screenMoves parent [] items
  if screened.2.isEmpty then return ⟨parent, "", [], screened.1⟩
  else do
    let destParentKey ← c.folderNodeKey parent
    let destHashKey ← parentHashKey parent destParentKey
    let (email, signingKey) ← .ofExcept c.membershipAddress
    let links ← fetchLinks parent.volumeId (screened.2.map (fun item => item.uid.linkId))
    c.prepareEach links ⟨destParentKey, destHashKey, signingKey⟩ sessions screened.2
      ⟨parent, email, [], screened.1⟩

/-! ## Sending -/

/-- The first moves of the queue that are signed the same way, at most a request's worth, and the
rest in order. -/
def takeMoves (anonymous : Bool) : (room : Nat) → List PreparedMove →
    List PreparedMove × List PreparedMove
  | _, [] => ([], [])
  | 0, queue => ([], queue)
  | room + 1, p :: queue =>
      if p.anonymous = anonymous then
        let taken := takeMoves anonymous room queue
        (p :: taken.1, taken.2)
      else
        let taken := takeMoves anonymous (room + 1) queue
        (taken.1, p :: taken.2)

def takeMoveBatch : List PreparedMove → List PreparedMove × List PreparedMove
  | [] => ([], [])
  | p :: queue => takeMoves p.anonymous KeyWalk.maxBatchCount (p :: queue)

def batchRequest (run : MoveRun) (batch : List PreparedMove) : MoveMultipleLinksRequest where
  parentLinkId := run.parent.linkId
  links := batch.map PreparedMove.item
  nameSignatureEmail := run.email
  signatureEmail := if (batch.head?.map PreparedMove.anonymous).getD false then some run.email else none

/-- One outcome for each link of an answer. -/
def aggregateOutcomes (responses : List (LinkId × ApiResponse)) :
    List (LinkId × Except ProtonError Unit) :=
  responses.map (fun (a, response) =>
    (a, if response.isSuccess then .ok ()
        else .error (.api ⟨response.code, 200, response.errorMessage.getD "", response.details⟩)))

/-- The error of a batch that failed as a whole, for each node it carried. -/
def batchError : ProtonError → ProtonError
  | .api e => .api e
  | e => .invalidOperation e.text

def changedWhileMoved (uid : NodeUid) : ProtonError :=
  .invalidOperation ("node " ++ uid.text ++ " changed while it was being moved")

def noResponse (uid : NodeUid) : ProtonError :=
  .invalidOperation ("move returned no response for node " ++ uid.text)

/-- The hash that the server holds for a node, if nothing else about it has changed. -/
def remoteOriginalHash (prepared : PreparedMove) : Call NameHash := do
  let link ← fetchLink prepared.uid (nodeNotFound prepared.uid)
  match link.parentId, link.nameHash with
  | some p, some hash =>
      if some p ≠ prepared.sourceParent ∨ hash.isEmpty then
        .ofExcept (.error (changedWhileMoved prepared.uid))
      else do
        let parentKey ← c.folderNodeKey ⟨prepared.uid.volumeId, p⟩
        let name ← .ofExcept (decryptArmoredMessage parentKey link.name)
        if name ≠ prepared.currentName then
          .ofExcept (.error (changedWhileMoved prepared.uid))
        else return hash
  | _, _ => .ofExcept (.error (changedWhileMoved prepared.uid))

/-- The server says that the original hash is not the one it holds, for the first time. -/
def outdated (prepared : PreparedMove) : Except ProtonError Unit → Bool
  | .error (.api e) => e.code == .invalidRequirements && !prepared.retried
  | _ => false

/-- Take the answer apart: each node is done, or goes back into the queue with another hash. -/
def settleEach (perLink : LinkId → Option (Except ProtonError Unit)) :
    List PreparedMove → MoveRun → Call MoveRun
  | [], run => return run
  | prepared :: batch, run =>
      match perLink prepared.uid.linkId with
      | none =>
          settleEach perLink batch
            { run with outcomes := run.outcomes ++ [(prepared.uid, .error (noResponse prepared.uid))] }
      | some outcome =>
          if outdated prepared outcome then do
            let hash ← (c.remoteOriginalHash prepared).attempt
            match hash with
            | .ok hash =>
                settleEach perLink batch { run with queue := run.queue ++ [prepared.retry hash] }
            | .error e =>
                settleEach perLink batch
                  { run with outcomes := run.outcomes ++ [(prepared.uid, .error e)] }
          else
            settleEach perLink batch
              { run with outcomes := run.outcomes ++ [(prepared.uid, outcome)] }

def submitMoveBatch (run : MoveRun) (batch : List PreparedMove) (reply : BatchReply) :
    Call MoveRun := do
  let request := batchRequest run batch
  .modify (fun w => w.moveLinks run.parent.volumeId request reply.landed request.links)
  match reply.response with
  | .error e =>
      return { run with
        outcomes := run.outcomes ++ batch.map (fun p => (p.uid, .error (batchError e))) }
  | .ok responses =>
      -- A link that is answered twice has its last answer.
      let outcomes := (aggregateOutcomes responses).reverse
      c.settleEach (fun a => outcomes.lookup a) batch run

/-- Send batch after batch. A run that is out of replies still waits for one. -/
def submitMoves : List BatchReply → MoveRun → Call MoveRun
  | [], run => if run.queue.isEmpty then return run else ⟨fun _ => none⟩
  | reply :: replies, run =>
      if run.queue.isEmpty then return run
      else do
        let taken := takeMoveBatch run.queue
        let run ← c.submitMoveBatch { run with queue := taken.2 } taken.1 reply
        submitMoves replies run

/-! ## Reporting -/

def noOutcome (uid : NodeUid) : ProtonError :=
  .invalidOperation ("move produced no outcome for node " ++ uid.text)

/-- The outcome of a node for the later positions of its uid. -/
def repeatOutcome : Except ProtonError Unit → Except ProtonError Unit
  | .ok () => .ok ()
  | .error e => .error (.invalidOperation e.text)

/-- One outcome for each position. -/
def reportMoves (outcomes : NodeUid → Option (Except ProtonError Unit)) :
    (seen : List NodeUid) → List NodeUid → List MoveOutcome
  | _, [] => []
  | seen, uid :: uids =>
      let outcome :=
        match outcomes uid with
        | none => .error (noOutcome uid)
        | some outcome => if uid ∈ seen then repeatOutcome outcome else outcome
      (uid, outcome) :: reportMoves outcomes (uid :: seen) uids

def moveNodes (uids : List NodeUid) (newParent : NodeUid) (sessions : NodeUid → Session)
    (replies : List BatchReply) : Call (List MoveOutcome) := do
  let items := uids.eraseDups.map (fun uid => ⟨uid, none⟩)
  let prepared ← c.prepareMoves items newParent sessions
  let run ← c.submitMoves replies prepared
  let outcomes := run.outcomes.reverse
  return reportMoves (fun uid => outcomes.lookup uid) [] uids

/-! ## Batches -/

variable {c}

theorem takeMoves_mem (anonymous : Bool) (room : Nat) (queue : List PreparedMove) :
    (∀ p ∈ (takeMoves anonymous room queue).1, p ∈ queue ∧ p.anonymous = anonymous) ∧
      ∀ p ∈ (takeMoves anonymous room queue).2, p ∈ queue := by
  induction queue generalizing room with
  | nil =>
      unfold takeMoves
      exact ⟨by simp, by simp⟩
  | cons q queue ih =>
      cases room with
      | zero =>
          unfold takeMoves
          exact ⟨by simp, fun p hp => hp⟩
      | succ room =>
          unfold takeMoves
          split
          · next hq =>
            obtain ⟨hbatch, hrest⟩ := ih room
            refine ⟨?_, fun p hp => List.mem_cons_of_mem _ (hrest p hp)⟩
            intro p hp
            rcases List.mem_cons.mp hp with rfl | hp
            · exact ⟨List.mem_cons_self, hq⟩
            · exact ⟨List.mem_cons_of_mem _ (hbatch p hp).1, (hbatch p hp).2⟩
          -- A move signed the other way stays behind and costs no room.
          · obtain ⟨hbatch, hrest⟩ := ih (room + 1)
            refine ⟨?_, ?_⟩
            · intro p hp
              exact ⟨List.mem_cons_of_mem _ (hbatch p hp).1, (hbatch p hp).2⟩
            · intro p hp
              rcases List.mem_cons.mp hp with rfl | hp
              · exact List.mem_cons_self
              · exact List.mem_cons_of_mem _ (hrest p hp)

theorem takeMoveBatch_mem {queue : List PreparedMove} :
    (∀ p ∈ (takeMoveBatch queue).1, p ∈ queue) ∧ ∀ p ∈ (takeMoveBatch queue).2, p ∈ queue := by
  cases queue with
  | nil => exact ⟨fun p hp => hp, fun p hp => hp⟩
  | cons q queue =>
      obtain ⟨hbatch, hrest⟩ := takeMoves_mem q.anonymous KeyWalk.maxBatchCount (q :: queue)
      exact ⟨fun p hp => (hbatch p hp).1, hrest⟩

/-- **A batch is signed one way throughout.** -/
theorem takeMoveBatch_uniform {queue : List PreparedMove} {p q : PreparedMove}
    (hp : p ∈ (takeMoveBatch queue).1) (hq : q ∈ (takeMoveBatch queue).1) :
    p.anonymous = q.anonymous := by
  cases queue with
  | nil => cases hp
  | cons first queue =>
      obtain ⟨hbatch, -⟩ := takeMoves_mem first.anonymous KeyWalk.maxBatchCount
        (first :: queue)
      exact (hbatch p hp).2.trans (hbatch q hq).2.symm

/-- The move as the request of a `move_node`. -/
def PreparedMove.request (p : PreparedMove) (parent : NodeUid) (email : String) :
    MoveLinkRequest where
  parentLinkId := parent.linkId
  passphrase := p.item.passphrase
  passphraseSignature := p.item.passphraseSignature
  name := p.item.name
  nameSignatureEmail := email
  nameHash := p.item.nameHash
  originalHash := p.item.originalHash
  signatureEmail := p.item.passphraseSignature.map (fun _ => email)

/-- What the request of a batch says of each of its links is what `move_node` would say: the signer
of the batch is named exactly if the link brings a signature. -/
theorem batchRequest_single {run : MoveRun} {queue : List PreparedMove} {p : PreparedMove}
    (hp : p ∈ (takeMoveBatch queue).1) :
    (batchRequest run (takeMoveBatch queue).1).single p.item =
      PreparedMove.request p run.parent run.email := by
  obtain ⟨first, rest, hbatch⟩ : ∃ first rest, (takeMoveBatch queue).1 = first :: rest :=
    List.exists_cons_of_ne_nil (List.ne_nil_of_mem hp)
  have hfirst : first.anonymous = p.item.passphraseSignature.isSome := by
    rw [← p.signed]
    exact takeMoveBatch_uniform (by rw [hbatch]; exact List.mem_cons_self) hp
  simp only [MoveMultipleLinksRequest.single, batchRequest, PreparedMove.request, hbatch,
    List.head?_cons, Option.map_some, Option.getD_some, hfirst]
  cases p.item.passphraseSignature with
  | none => rfl
  | some s => rfl

/-! ## Runs -/

theorem moveLinks_invariant {I : World → Prop} {v : VolumeId} {request : MoveMultipleLinksRequest}
    {landed : List LinkId} {items : List MoveMultipleLinksItem}
    (hland : ∀ item ∈ items, ∀ w, I w →
      I (w.updateLink ⟨v, item.linkId⟩ (LinkDetails.move (request.single item))))
    {w : World} (hw : I w) : I (w.moveLinks v request landed items) := by
  induction items generalizing w with
  | nil => exact hw
  | cons item items ih =>
      have hrest : ∀ item' ∈ items, ∀ w, I w →
          I (w.updateLink ⟨v, item'.linkId⟩ (LinkDetails.move (request.single item'))) :=
        fun item' hmem => hland item' (List.mem_cons_of_mem _ hmem)
      unfold World.moveLinks
      split
      · exact ih hrest (hland item List.mem_cons_self w hw)
      · exact ih hrest hw

section Runs

variable {I : World → Prop} {Q : PreparedMove → Prop} {parent : NodeUid} {email : String}

/-- A run to `parent`, signed as `email`, with moves that satisfy `Q`. -/
structure Carries (parent : NodeUid) (email : String) (Q : PreparedMove → Prop) (run : MoveRun) :
    Prop where
  parent_eq : run.parent = parent
  email_eq : run.email = email
  queue : ∀ p ∈ run.queue, Q p

theorem Carries.push {run : MoveRun} (h : Carries parent email Q run) {p : PreparedMove}
    (hp : Q p) : Carries parent email Q { run with queue := run.queue ++ [p] } where
  parent_eq := h.parent_eq
  email_eq := h.email_eq
  queue := by
    intro q hq
    rcases List.mem_append.mp hq with hq | hq
    · exact h.queue q hq
    · rw [List.mem_singleton.mp hq]
      exact hp

theorem Carries.report {run : MoveRun} (h : Carries parent email Q run)
    (outcomes : List MoveOutcome) : Carries parent email Q { run with outcomes := outcomes } :=
  ⟨h.parent_eq, h.email_eq, h.queue⟩

variable (hkey : ∀ uid, (c.folderNodeKey uid).Keeps (Program.Stays I))
include hkey

theorem remoteOriginalHash_keeps (p : PreparedMove) :
    (c.remoteOriginalHash p).Keeps (Program.Stays I) := by
  refine .bind (fetchLink_keeps _ _) (fun link => ?_)
  split
  · split
    · exact .ofExcept _
    · refine .bind (hkey _) (fun key => .bind (.ofExcept _) (fun name => ?_))
      split
      · exact .ofExcept _
      · exact .pure _
  · exact .ofExcept _

variable (hretry : ∀ p hash, Q p → Q (p.retry hash))
include hretry

theorem settleEach_ensures {perLink : LinkId → Option (Except ProtonError Unit)}
    {batch : List PreparedMove} {run : MoveRun} (hbatch : ∀ p ∈ batch, Q p)
    (hrun : Carries parent email Q run) :
    (c.settleEach perLink batch run).Ensures I (Carries parent email Q) := by
  induction batch generalizing run with
  | nil => exact .pure hrun
  | cons p batch ih =>
      have hrest : ∀ q ∈ batch, Q q := fun q hq => hbatch q (List.mem_cons_of_mem _ hq)
      unfold settleEach
      split
      · exact ih hrest (hrun.report _)
      · split
        · have hhash : (c.remoteOriginalHash p).attempt.Ensures I (fun _ => True) :=
            .of_keeps (.attempt (remoteOriginalHash_keeps hkey p)) (fun _ _ _ _ _ => trivial)
          refine .bind hhash (fun hash _ => ?_)
          cases hash with
          | ok hash => exact ih hrest (hrun.push (hretry p hash (hbatch p List.mem_cons_self)))
          | error e => exact ih hrest (hrun.report _)
        · exact ih hrest (hrun.report _)

variable (hland : ∀ p, Q p → ∀ w, I w →
  I (w.updateLink ⟨parent.volumeId, p.item.linkId⟩
    (LinkDetails.move (PreparedMove.request p parent email))))
include hland

theorem submitMoveBatch_ensures (reply : BatchReply) {queue : List PreparedMove} {run : MoveRun}
    (hqueue : ∀ p ∈ queue, Q p) (hrun : Carries parent email Q run) :
    (c.submitMoveBatch run (takeMoveBatch queue).1 reply).Ensures I (Carries parent email Q) := by
  have hbatch : ∀ p ∈ (takeMoveBatch queue).1, Q p :=
    fun p hp => hqueue p (takeMoveBatch_mem.1 p hp)
  refine .bind (.modify ?_) (fun _ _ => ?_)
  · intro w hw
    refine moveLinks_invariant ?_ hw
    intro item hitem w hw
    obtain ⟨p, hp, rfl⟩ := List.mem_map.mp hitem
    rw [batchRequest_single hp, hrun.parent_eq, hrun.email_eq]
    exact hland p (hbatch p hp) w hw
  · cases reply.response with
    | error e => exact .pure (hrun.report _)
    | ok responses => exact settleEach_ensures hkey hretry hbatch hrun

/-- **What each landed link keeps, a whole run of batches keeps.** -/
theorem submitMoves_keeps {replies : List BatchReply} {run : MoveRun}
    (hrun : Carries parent email Q run) :
    (c.submitMoves replies run).Keeps (Program.Stays I) := by
  induction replies generalizing run with
  | nil =>
      unfold submitMoves
      split
      · exact .pure _
      · intro s s' r h
        cases h
  | cons reply replies ih =>
      unfold submitMoves
      split
      · exact .pure _
      · intro w w' r h hw
        -- The moves that are left are moves of the same run.
        have hrest : Carries parent email Q { run with queue := (takeMoveBatch run.queue).2 } :=
          ⟨hrun.parent_eq, hrun.email_eq, fun p hp => hrun.queue p (takeMoveBatch_mem.2 p hp)⟩
        have hbatch := submitMoveBatch_ensures hkey hretry hland reply hrun.queue hrest
        rcases Program.bind_eq_some.mp h with ⟨e, herror, -⟩ | ⟨t, run', hfirst, h⟩
        · -- The batch fails, and no further one is sent.
          exact (hbatch _ _ _ hw herror).1
        · obtain ⟨ht, hrun'⟩ := hbatch _ _ _ hw hfirst
          exact ih (hrun' run' rfl) _ _ _ h ht

end Runs

end Context

end ProtonDrive
