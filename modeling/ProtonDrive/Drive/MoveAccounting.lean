import Mathlib
import ProtonDrive.Drive.BulkMove
import ProtonDrive.Lib.Exchange

/-!
# What a bulk move accounts for

`move_nodes` again, over a client whose calls may answer anything: the folder keys, the look-ups,
the answers to the batches and the hashes for a second try are those of an arbitrary server. Every
batch is logged with its answer.

* `Accounted` — every node is in the queue or has its outcome, and every request is paid for.
* `submitMoves_spec` — the run of batches comes to its end.
* `moveNodes_accounting` — what a caller can count on.
-/

namespace ProtonDrive.BulkMove

open OpenPgp Context

/-! ## The calls -/

/-- The calls that `move_nodes` makes, over a state of which nothing is known. -/
structure MoveClient (σ : Type) where
  folderNodeKey : NodeUid → Program σ ProtonError Key
  parentHashKey : NodeUid → Key → Program σ ProtonError Bytes
  membershipAddress : Program σ ProtonError (String × Key)
  getLinkDetails : VolumeId → List LinkId → Program σ ProtonError (List Link)
  buildMoveParts : NodeUid → Link → Option Bytes → MoveTarget → Program σ ProtonError MoveParts
  moveMultiple : VolumeId → MoveMultipleLinksRequest →
    Program σ ProtonError (List (LinkId × ApiResponse))
  remoteOriginalHash : PreparedMove → Program σ ProtonError NameHash

/-- A batch that has been sent, and its answer. -/
abbrev Sent := MoveMultipleLinksRequest × Except ProtonError (List (LinkId × ApiResponse))

abbrev MoveCall (σ α : Type) := Program (Logged σ Sent) ProtonError α

namespace MoveClient

variable {σ : Type} (client : MoveClient σ)

def fetchLinks (volumeId : VolumeId) (linkIds : List LinkId) : MoveCall σ (LinkId → Option Link) := do
  let links ← Program.traverse (fun chunk => .inside (client.getLinkDetails volumeId chunk))
    (chunks KeyWalk.maxBatchCount linkIds)
  return fun a => links.flatten.reverse.find? (fun link => link.id = a)

/-- Encrypt each move. An item whose link is not there or does not decrypt is an outcome. -/
def prepareEach (links : LinkId → Option Link) (target : MoveTarget) :
    List NodeMoveItem → MoveRun → MoveCall σ MoveRun
  | [], run => return run
  | item :: items, run =>
      match links item.uid.linkId with
      | none =>
          prepareEach links target items
            { run with outcomes := run.outcomes ++ [(item.uid, .error (nodeNotFound item.uid))] }
      | some link => do
          let parts ←
            (Program.inside (client.buildMoveParts item.uid link item.targetName target)).attempt
          match parts with
          | .error e =>
              prepareEach links target items
                { run with outcomes := run.outcomes ++ [(item.uid, .error e)] }
          | .ok parts =>
              prepareEach links target items
                { run with queue := run.queue ++ [preparedMove item.uid link parts] }

def prepareMoves (items : List NodeMoveItem) (parent : NodeUid) : MoveCall σ MoveRun :=
  let screened := screenMoves parent [] items
  if screened.2.isEmpty then return ⟨parent, "", [], screened.1⟩
  else do
    let destParentKey ← .inside (client.folderNodeKey parent)
    let destHashKey ← .inside (client.parentHashKey parent destParentKey)
    let (email, signingKey) ← .inside client.membershipAddress
    let links ← client.fetchLinks parent.volumeId (screened.2.map (fun item => item.uid.linkId))
    client.prepareEach links ⟨destParentKey, destHashKey, signingKey⟩ screened.2
      ⟨parent, email, [], screened.1⟩

/-- Take the answer apart: each node is done, or goes back into the queue with another hash. -/
def settleEach (perLink : LinkId → Option (Except ProtonError Unit)) :
    List PreparedMove → MoveRun → MoveCall σ MoveRun
  | [], run => return run
  | prepared :: batch, run =>
      match perLink prepared.uid.linkId with
      | none =>
          settleEach perLink batch
            { run with outcomes := run.outcomes ++ [(prepared.uid, .error (noResponse prepared.uid))] }
      | some outcome =>
          if outdated prepared outcome then do
            let hash ← (Program.inside (client.remoteOriginalHash prepared)).attempt
            match hash with
            | .ok hash =>
                settleEach perLink batch { run with queue := run.queue ++ [prepared.retry hash] }
            | .error e =>
                settleEach perLink batch
                  { run with outcomes := run.outcomes ++ [(prepared.uid, .error e)] }
          else
            settleEach perLink batch
              { run with outcomes := run.outcomes ++ [(prepared.uid, outcome)] }

def submitMoveBatch (run : MoveRun) (batch : List PreparedMove) : MoveCall σ MoveRun := do
  let request := batchRequest run batch
  match ← Program.exchange request (client.moveMultiple run.parent.volumeId request) with
  | .error e =>
      return { run with
        outcomes := run.outcomes ++ batch.map (fun p => (p.uid, .error (batchError e))) }
  | .ok responses =>
      client.settleEach (fun a => (aggregateOutcomes responses).reverse.lookup a) batch run

/-- Send batch after batch. A run that is out of fuel does not return. -/
def submitMoves : (fuel : Nat) → MoveRun → MoveCall σ MoveRun
  | 0, _ => ⟨fun _ => none⟩
  | fuel + 1, run =>
      if run.queue.isEmpty then return run
      else do
        let taken := takeMoveBatch run.queue
        let run ← client.submitMoveBatch { run with queue := taken.2 } taken.1
        submitMoves fuel run

def moveNodes (fuel : Nat) (uids : List NodeUid) (newParent : NodeUid) :
    MoveCall σ (List MoveOutcome) := do
  let items := uids.eraseDups.map (fun uid => ⟨uid, none⟩)
  let prepared ← client.prepareMoves items newParent
  let run ← client.submitMoves fuel prepared
  return reportMoves (fun uid => run.outcomes.reverse.lookup uid) [] uids

end MoveClient

/-! ## Batches -/

/-- No move is lost when a batch is taken. -/
theorem takeMoves_perm (anonymous : Bool) (room : Nat) (queue : List PreparedMove) :
    ((takeMoves anonymous room queue).1 ++ (takeMoves anonymous room queue).2).Perm queue := by
  induction queue generalizing room with
  | nil =>
      unfold takeMoves
      exact List.Perm.refl _
  | cons p queue ih =>
      cases room with
      | zero =>
          unfold takeMoves
          exact List.Perm.refl _
      | succ room =>
          unfold takeMoves
          split
          · exact (ih room).cons p
          · exact List.perm_middle.trans ((ih (room + 1)).cons p)

/-- A batch never has more moves than there is room for. -/
theorem takeMoves_length (anonymous : Bool) (room : Nat) (queue : List PreparedMove) :
    (takeMoves anonymous room queue).1.length ≤ room := by
  induction queue generalizing room with
  | nil =>
      unfold takeMoves
      exact Nat.zero_le _
  | cons p queue ih =>
      cases room with
      | zero =>
          unfold takeMoves
          exact Nat.le_refl _
      | succ room =>
          unfold takeMoves
          split
          · exact Nat.succ_le_succ (ih room)
          · exact ih (room + 1)

/-- No move is lost when a batch is taken from the queue. -/
theorem takeMoveBatch_perm (queue : List PreparedMove) :
    ((takeMoveBatch queue).1 ++ (takeMoveBatch queue).2).Perm queue := by
  cases queue with
  | nil => exact List.Perm.refl _
  | cons p queue => exact takeMoves_perm p.anonymous KeyWalk.maxBatchCount (p :: queue)

/-- No batch exceeds what one request may carry. -/
theorem takeMoveBatch_length (queue : List PreparedMove) :
    (takeMoveBatch queue).1.length ≤ KeyWalk.maxBatchCount := by
  cases queue with
  | nil => exact Nat.zero_le _
  | cons p queue => exact takeMoves_length p.anonymous KeyWalk.maxBatchCount (p :: queue)

/-- There is always something to send. -/
theorem takeMoveBatch_ne_nil {queue : List PreparedMove} (h : queue ≠ []) :
    (takeMoveBatch queue).1 ≠ [] := by
  cases queue with
  | nil => exact absurd rfl h
  | cons p queue =>
      show (takeMoves p.anonymous (149 + 1) (p :: queue)).1 ≠ []
      unfold takeMoves
      rw [if_pos rfl]
      exact List.cons_ne_nil _ _

/-! ## Counting -/

/-- How often a move in the queue may still be sent. -/
def tries (p : PreparedMove) : Nat := if p.retried then 1 else 2

/-- How often a move that has just been sent may still be sent. -/
def retries (p : PreparedMove) : Nat := if p.retried then 0 else 1

/-- What the moves of one link add up to. -/
def weight (f : PreparedMove → Nat) (moves : List PreparedMove) (a : LinkId) : Nat :=
  ((moves.filter (fun p => p.item.linkId = a)).map f).sum

def linkIds (request : MoveMultipleLinksRequest) : List LinkId :=
  request.links.map MoveMultipleLinksItem.linkId

/-- How often a link has been sent. -/
def sentCount (log : List Sent) (a : LinkId) : Nat :=
  (log.flatMap (fun sent => linkIds sent.1)).count a

/-- A move is tried once more than it is retried. -/
theorem tries_eq (p : PreparedMove) : tries p = retries p + 1 := by
  unfold tries retries
  split
  · rfl
  · rfl

/-- The weight of two lists is that of both. -/
theorem weight_append (f : PreparedMove → Nat) (l l' : List PreparedMove) (a : LinkId) :
    weight f (l ++ l') a = weight f l a + weight f l' a := by
  simp [weight]

/-- The order of the moves does not change their weight. -/
theorem weight_perm {f : PreparedMove → Nat} {l l' : List PreparedMove} (h : l.Perm l')
    (a : LinkId) : weight f l a = weight f l' a :=
  ((h.filter _).map f).sum_nat

/-- The weight of a list is that of its first move and of the others. -/
theorem weight_cons (f : PreparedMove → Nat) (p : PreparedMove) (l : List PreparedMove)
    (a : LinkId) : weight f (p :: l) a = (if p.item.linkId = a then f p else 0) + weight f l a := by
  unfold weight
  rw [List.filter_cons]
  split
  · next h => simp_all
  · next h => simp_all

/-- Sending a batch spends one try of each of its moves. -/
theorem count_batch (batch : List PreparedMove) (a : LinkId) :
    (batch.map (fun p => p.item.linkId)).count a + weight retries batch a = weight tries batch a := by
  induction batch with
  | nil => rfl
  | cons p batch ih =>
      rw [List.map_cons, List.count_cons, weight_cons, weight_cons, tries_eq]
      by_cases h : p.item.linkId = a
      · simp only [h, beq_self_eq_true, if_true]
        omega
      · simp only [h, beq_iff_eq, if_false]
        omega

/-- One more request counts its own links. -/
theorem sentCount_append (log : List Sent) (request : MoveMultipleLinksRequest)
    (reply : Except ProtonError (List (LinkId × ApiResponse))) (a : LinkId) :
    sentCount (log ++ [(request, reply)]) a = sentCount log a + (linkIds request).count a := by
  simp [sentCount, List.count_append]

/-! ## The invariant -/

/-- At most a request's worth, and signed one way throughout. -/
structure FineRequest (request : MoveMultipleLinksRequest) : Prop where
  length_le : request.links.length ≤ 150
  uniform : (∀ item ∈ request.links, item.passphraseSignature.isSome = true) ∨
    (∀ item ∈ request.links, item.passphraseSignature.isSome = false)

/-- The last request that carried the link reported that it was moved. -/
def LastReportedSuccess (log : List Sent) (a : LinkId) : Prop :=
  ∃ before request responses after, log = before ++ (request, .ok responses) :: after ∧
    a ∈ linkIds request ∧ (aggregateOutcomes responses).reverse.lookup a = some (.ok ()) ∧
    ∀ sent ∈ after, a ∉ linkIds sent.1

/-- Every node has its outcome, or is in the queue or in the batch under way; and what has been sent
and may still be sent of a link is no more than two requests. -/
structure Accounted (uids : List NodeUid) (parent : NodeUid) (log : List Sent)
    (batch : List PreparedMove) (run : MoveRun) : Prop where
  parent_eq : run.parent = parent
  perm : (run.outcomes.map Prod.fst ++ (batch ++ run.queue).map PreparedMove.uid).Perm uids
  own : ∀ p ∈ batch ++ run.queue,
    p.item.linkId = p.uid.linkId ∧ p.uid.volumeId = parent.volumeId
  paid : ∀ a, sentCount log a + weight retries batch a + weight tries run.queue a ≤ 2
  fine : ∀ sent ∈ log, FineRequest sent.1
  succeeded : ∀ uid, (uid, .ok ()) ∈ run.outcomes →
    uid.volumeId = parent.volumeId ∧ LastReportedSuccess log uid.linkId

variable {uids : List NodeUid} {parent : NodeUid} {log : List Sent} {batch : List PreparedMove}
  {run : MoveRun} {p : PreparedMove}

/-- A node of the batch has its outcome. -/
theorem Accounted.report (h : Accounted uids parent log (p :: batch) run)
    {outcome : Except ProtonError Unit}
    (hok : outcome = .ok () → LastReportedSuccess log p.uid.linkId) :
    Accounted uids parent log batch
      { run with outcomes := run.outcomes ++ [(p.uid, outcome)] } where
  parent_eq := h.parent_eq
  perm := by
    have hperm := h.perm
    simpa [List.append_assoc] using hperm
  own := fun q hq => h.own q (List.mem_cons_of_mem _ hq)
  -- The move leaves the batch, so its retry need not be paid any more.
  paid := by
    intro a
    have hpaid := h.paid a
    rw [weight_cons] at hpaid
    show sentCount log a + weight retries batch a + weight tries run.queue a ≤ 2
    omega
  fine := h.fine
  succeeded := by
    intro uid hmem
    rcases List.mem_append.mp hmem with hmem | hmem
    · exact h.succeeded uid hmem
    · have hpair := List.mem_singleton.mp hmem
      cases hpair
      exact ⟨(h.own p List.mem_cons_self).2, hok rfl⟩

/-- A move that is reported as failed is accounted for. -/
theorem Accounted.report_error (h : Accounted uids parent log (p :: batch) run) (e : ProtonError) :
    Accounted uids parent log batch
      { run with outcomes := run.outcomes ++ [(p.uid, .error e)] } :=
  h.report (fun hok => nomatch hok)

/-- A node of the batch goes back into the queue, for its second and last try. -/
theorem Accounted.requeue (h : Accounted uids parent log (p :: batch) run)
    (hfirst : p.retried = false) (hash : NameHash) :
    Accounted uids parent log batch { run with queue := run.queue ++ [p.retry hash] } where
  parent_eq := h.parent_eq
  perm := by
    refine List.Perm.trans ?_ h.perm
    apply List.Perm.append_left _
    have hmoved : (batch ++ (run.queue ++ [p.retry hash])).Perm
        (p.retry hash :: (batch ++ run.queue)) := by
      rw [← List.append_assoc]
      exact List.perm_append_singleton _ _
    exact hmoved.map PreparedMove.uid
  own := by
    intro q hq
    have hmem : q ∈ batch ++ run.queue ∨ q = p.retry hash := by
      simpa [or_assoc] using hq
    rcases hmem with hq | rfl
    · exact h.own q (List.mem_cons_of_mem _ hq)
    · exact h.own p List.mem_cons_self
  paid := by
    intro a
    -- The retry that the node had left is turned into the one try it now has in the queue.
    have hpaid := h.paid a
    have hretries : retries p = 1 := by simp [retries, hfirst]
    have htries : tries (p.retry hash) = 1 := rfl
    have hlink : (p.retry hash).item.linkId = p.item.linkId := rfl
    rw [weight_cons, hretries] at hpaid
    show sentCount log a + weight retries batch a +
      weight tries (run.queue ++ [p.retry hash]) a ≤ 2
    rw [weight_append, weight_cons, hlink, htries]
    have hnil : weight tries [] a = 0 := rfl
    omega
  fine := h.fine
  succeeded := h.succeeded

/-- A later request about other links does not change what was last said of this one. -/
theorem LastReportedSuccess.append {a : LinkId} (h : LastReportedSuccess log a) {sent : Sent}
    (hnot : a ∉ linkIds sent.1) : LastReportedSuccess (log ++ [sent]) a := by
  obtain ⟨before, request, responses, after, hlog, hin, hlookup, hafter⟩ := h
  refine ⟨before, request, responses, after ++ [sent], ?_, hin, hlookup, ?_⟩
  · rw [hlog, List.append_assoc, List.cons_append]
  · intro s hs
    rcases List.mem_append.mp hs with hs | hs
    · exact hafter s hs
    · rw [List.mem_singleton.mp hs]
      exact hnot

/-- The request carries the links of the batch. -/
theorem linkIds_batchRequest (run : MoveRun) (batch : List PreparedMove) :
    linkIds (batchRequest run batch) = batch.map (fun p => p.item.linkId) := by
  simp [linkIds, batchRequest]

/-- A batch makes a request of the allowed size, without a repeated link. -/
theorem fineRequest_batch (run : MoveRun) (queue : List PreparedMove) :
    FineRequest (batchRequest run (takeMoveBatch queue).1) where
  length_le := by
    have hlength := takeMoveBatch_length queue
    simpa [batchRequest, KeyWalk.maxBatchCount] using hlength
  uniform := by
    cases hbatch : (takeMoveBatch queue).1 with
    | nil => exact .inl (by simp [batchRequest])
    | cons first rest =>
        have hall : ∀ item ∈ (batchRequest run (first :: rest)).links,
            item.passphraseSignature.isSome = first.anonymous := by
          intro item hitem
          obtain ⟨p, hp, rfl⟩ := List.mem_map.mp hitem
          rw [← p.signed]
          rw [← hbatch] at hp
          exact takeMoveBatch_uniform hp (by rw [hbatch]; exact List.mem_cons_self)
        cases hanonymous : first.anonymous with
        | true => exact .inl (fun item hitem => (hall item hitem).trans hanonymous)
        | false => exact .inr (fun item hitem => (hall item hitem).trans hanonymous)

/-- A node that has been moved is not in the queue. -/
theorem Accounted.not_queued (h : Accounted uids parent log batch run) (hnodup : uids.Nodup)
    {uid : NodeUid} (hout : (uid, .ok ()) ∈ run.outcomes) (hp : p ∈ batch ++ run.queue) :
    p.item.linkId ≠ uid.linkId := by
  intro hlink
  obtain ⟨hown, hvolume⟩ := h.own p hp
  have huid : uid = p.uid := by
    have hv := (h.succeeded uid hout).1
    cases uid
    cases hpu : p.uid
    simp_all
  have hall := h.perm.nodup_iff.mpr hnodup
  exact (List.nodup_append.mp hall).2.2 uid (List.mem_map_of_mem hout) p.uid
    (List.mem_map_of_mem hp) huid

/-- A batch is taken off the queue and sent. -/
theorem Accounted.send (h : Accounted uids parent log [] run) (hnodup : uids.Nodup)
    (reply : Except ProtonError (List (LinkId × ApiResponse))) :
    Accounted uids parent
      (log ++ [(batchRequest { run with queue := (takeMoveBatch run.queue).2 }
        (takeMoveBatch run.queue).1, reply)])
      (takeMoveBatch run.queue).1 { run with queue := (takeMoveBatch run.queue).2 } where
  parent_eq := h.parent_eq
  perm := by
    refine List.Perm.trans ?_ h.perm
    exact List.Perm.append_left _ ((takeMoveBatch_perm run.queue).map _)
  own := fun p hp => h.own p ((takeMoveBatch_perm run.queue).mem_iff.mp hp)
  paid := by
    intro a
    -- A try is paid for by the request; the batch keeps the retries that are left.
    have hpaid := h.paid a
    have hsplit := weight_perm (f := tries) (takeMoveBatch_perm run.queue) a
    rw [weight_append] at hsplit
    have hspent := count_batch (takeMoveBatch run.queue).1 a
    have hnil : weight retries [] a = 0 := rfl
    rw [sentCount_append, linkIds_batchRequest]
    dsimp only
    omega
  fine := by
    intro sent hsent
    rcases List.mem_append.mp hsent with hsent | hsent
    · exact h.fine sent hsent
    · rw [List.mem_singleton.mp hsent]
      exact fineRequest_batch _ run.queue
  succeeded := by
    intro uid hout
    obtain ⟨hvolume, hlast⟩ := h.succeeded uid hout
    refine ⟨hvolume, hlast.append ?_⟩
    rw [linkIds_batchRequest]
    intro hmem
    obtain ⟨p, hp, hlink⟩ := List.mem_map.mp hmem
    have hqueue : p ∈ [] ++ run.queue := takeMoveBatch_mem.1 p hp
    exact h.not_queued hnodup hout hqueue hlink

/-! ## Runs -/

/-- How many requests the queue can still make. -/
def work (queue : List PreparedMove) : Nat := (queue.map tries).sum

/-- Every call of the client comes back, with an error or not. -/
structure MoveClient.Returns {σ : Type} (client : MoveClient σ) : Prop where
  folderNodeKey : ∀ uid, (client.folderNodeKey uid).Returns
  parentHashKey : ∀ uid key, (client.parentHashKey uid key).Returns
  membershipAddress : client.membershipAddress.Returns
  getLinkDetails : ∀ v ids, (client.getLinkDetails v ids).Returns
  buildMoveParts : ∀ uid link name target, (client.buildMoveParts uid link name target).Returns
  moveMultiple : ∀ v request, (client.moveMultiple v request).Returns
  remoteOriginalHash : ∀ p, (client.remoteOriginalHash p).Returns

section Runs

variable {σ : Type} {client : MoveClient σ} (hclient : client.Returns)
include hclient

/-- The answers settle every move of the batch: reported, or queued once more with its new
parts. -/
theorem settleEach_spec {before : List Sent} {request : MoveMultipleLinksRequest}
    {responses : List (LinkId × ApiResponse)} {s : Logged σ Sent}
    (hlog : s.log = before ++ [(request, .ok responses)])
    (hin : ∀ p ∈ batch, p.item.linkId ∈ linkIds request)
    (h : Accounted uids parent s.log batch run) :
    ∃ t run', (client.settleEach (fun a => (aggregateOutcomes responses).reverse.lookup a) batch
        run).run s = some (⟨t, s.log⟩, .ok run') ∧ Accounted uids parent s.log [] run' ∧
      work run'.queue ≤ work run.queue + (batch.map retries).sum := by
  -- On the batch: every entry is reported, or is queued again and pays with its retry.
  induction batch generalizing run s with
  | nil => exact ⟨s.state, run, rfl, h, Nat.le_refl _⟩
  | cons p batch ih =>
      have hrest : ∀ q ∈ batch, q.item.linkId ∈ linkIds request :=
        fun q hq => hin q (List.mem_cons_of_mem _ hq)
      have hown : p.item.linkId = p.uid.linkId := (h.own p List.mem_cons_self).1
      simp only [List.map_cons, List.sum_cons]
      unfold MoveClient.settleEach
      split
      -- The response has no entry for the node.
      · obtain ⟨t, run', hrun, hacc, hwork⟩ := ih hlog hrest (h.report_error _)
        exact ⟨t, run', hrun, hacc, by dsimp only at hwork; omega⟩
      · next outcome houtcome =>
        split
        · next hold =>
          have hfirst : p.retried = false := by
            unfold outdated at hold
            split at hold
            · simp_all
            · cases hold
          have hretries : retries p = 1 := by simp [retries, hfirst]
          obtain ⟨t, r, hhash⟩ := (hclient.remoteOriginalHash p).inside_attempt s
          rw [Program.bind_ok hhash]
          have hlog' : (⟨t, s.log⟩ : Logged σ Sent).log = before ++ [(request, .ok responses)] := hlog
          cases r with
          | ok hash =>
              obtain ⟨t', run', hrun, hacc, hwork⟩ := ih hlog' hrest (h.requeue hfirst hash)
              refine ⟨t', run', hrun, hacc, ?_⟩
              have htries : tries (p.retry hash) = 1 := rfl
              simp only [work, List.map_append, List.sum_append, List.map_cons, List.map_nil,
                List.sum_cons, List.sum_nil, htries] at hwork ⊢
              omega
          | error e =>
              obtain ⟨t', run', hrun, hacc, hwork⟩ :=
                ih hlog' hrest (h.report_error _)
              exact ⟨t', run', hrun, hacc, by dsimp only at hwork; omega⟩
        · have hreported : outcome = .ok () → LastReportedSuccess s.log p.uid.linkId := by
            intro hok
            subst hok
            refine ⟨before, request, responses, [], hlog, ?_, houtcome, ?_⟩
            · rw [← hown]
              exact hin p List.mem_cons_self
            · intro sent hsent
              cases hsent
          obtain ⟨t, run', hrun, hacc, hwork⟩ := ih hlog hrest (h.report hreported)
          exact ⟨t, run', hrun, hacc, by dsimp only at hwork; omega⟩

omit hclient in
/-- A batch that failed as a whole. -/
theorem Accounted.report_all (h : Accounted uids parent log batch run) (e : ProtonError) :
    Accounted uids parent log [] { run with
      outcomes := run.outcomes ++ batch.map (fun p => (p.uid, .error e)) } := by
  induction batch generalizing run with
  | nil => simpa using h
  | cons p batch ih =>
      have hrest := ih (h.report_error e)
      simpa [List.append_assoc] using hrest

/-- One batch is sent and settled, and the work that is left gets less. -/
theorem submitMoveBatch_spec {s : Logged σ Sent} (hnodup : uids.Nodup)
    (h : Accounted uids parent s.log [] run) (hne : run.queue ≠ []) :
    ∃ s' run', (client.submitMoveBatch { run with queue := (takeMoveBatch run.queue).2 }
        (takeMoveBatch run.queue).1).run s = some (s', .ok run') ∧
      Accounted uids parent s'.log [] run' ∧ work run'.queue < work run.queue := by
  have hsplit : work (takeMoveBatch run.queue).1 + work (takeMoveBatch run.queue).2 =
      work run.queue := by
    have hsum := ((takeMoveBatch_perm run.queue).map tries).sum_nat
    rw [List.map_append, List.sum_append] at hsum
    exact hsum
  -- Each move of the batch has been sent once more.
  have hspent : ∀ batch : List PreparedMove,
      work batch = (batch.map retries).sum + batch.length := by
    intro batch
    induction batch with
    | nil => rfl
    | cons p batch ih =>
        simp only [work, List.map_cons, List.sum_cons, List.length_cons, tries_eq] at ih ⊢
        omega
  have hpos : 0 < (takeMoveBatch run.queue).1.length :=
    List.length_pos_iff.mpr (takeMoveBatch_ne_nil hne)
  have hbatch := hspent (takeMoveBatch run.queue).1
  obtain ⟨t, reply, hsend⟩ := (hclient.moveMultiple run.parent.volumeId
    (batchRequest { run with queue := (takeMoveBatch run.queue).2 }
      (takeMoveBatch run.queue).1)).exchange
    (batchRequest { run with queue := (takeMoveBatch run.queue).2 } (takeMoveBatch run.queue).1) s
  have hsent := h.send hnodup reply
  unfold MoveClient.submitMoveBatch
  dsimp only
  rw [Program.bind_ok hsend]
  cases reply with
  | error e =>
      refine ⟨_, _, rfl, hsent.report_all (batchError e), ?_⟩
      dsimp only
      omega
  | ok responses =>
      have hin : ∀ p ∈ (takeMoveBatch run.queue).1, p.item.linkId ∈ linkIds
          (batchRequest { run with queue := (takeMoveBatch run.queue).2 }
            (takeMoveBatch run.queue).1) := by
        intro p hp
        rw [linkIds_batchRequest]
        exact List.mem_map_of_mem hp
      obtain ⟨t', run', hrun, hacc, hwork⟩ := settleEach_spec hclient
        (s := ⟨t, s.log ++ [(batchRequest { run with queue := (takeMoveBatch run.queue).2 }
          (takeMoveBatch run.queue).1, .ok responses)]⟩) rfl hin hsent
      refine ⟨_, run', hrun, hacc, ?_⟩
      dsimp only at hwork
      omega

/-- **The batches come to their end**, and every node has its outcome. -/
theorem submitMoves_spec {s : Logged σ Sent} (hnodup : uids.Nodup) {fuel : Nat}
    (h : Accounted uids parent s.log [] run) (hfuel : work run.queue < fuel) :
    ∃ s' run', (client.submitMoves fuel run).run s = some (s', .ok run') ∧
      Accounted uids parent s'.log [] run' ∧ run'.queue = [] := by
  induction fuel generalizing run s with
  | zero => omega
  | succ fuel ih =>
      unfold MoveClient.submitMoves
      split
      · next hempty => exact ⟨s, run, rfl, h, List.isEmpty_iff.mp hempty⟩
      · next hne =>
        have hne' : run.queue ≠ [] := by simpa using hne
        obtain ⟨t, run', hrun, hacc, hwork⟩ := submitMoveBatch_spec hclient hnodup h hne'
        rw [Program.bind_ok hrun]
        exact ih hacc (by omega)

end Runs

/-! ## Preparing -/

/-- Every item is prepared, or has failed, or is still to do. -/
structure Preparing (uids : List NodeUid) (parent : NodeUid) (items : List NodeMoveItem)
    (run : MoveRun) : Prop where
  parent_eq : run.parent = parent
  perm : (run.outcomes.map Prod.fst ++ (run.queue.map PreparedMove.uid ++
    items.map NodeMoveItem.uid)).Perm uids
  volume : ∀ item ∈ items, item.uid.volumeId = parent.volumeId
  own : ∀ p ∈ run.queue, p.item.linkId = p.uid.linkId ∧ p.uid.volumeId = parent.volumeId
  fresh : ∀ p ∈ run.queue, p.retried = false
  failed : ∀ uid, (uid, .ok ()) ∉ run.outcomes

variable {items : List NodeMoveItem} {item : NodeMoveItem}

/-- An item that fails while it is prepared is reported and not queued. -/
theorem Preparing.fail (h : Preparing uids parent (item :: items) run) (e : ProtonError) :
    Preparing uids parent items
      { run with outcomes := run.outcomes ++ [(item.uid, .error e)] } where
  parent_eq := h.parent_eq
  perm := by
    refine List.Perm.trans ?_ h.perm
    simp only [List.map_append, List.map_cons, List.map_nil, List.append_assoc,
      List.singleton_append]
    exact List.Perm.append_left _ List.perm_middle.symm
  volume := fun i hi => h.volume i (List.mem_cons_of_mem _ hi)
  own := h.own
  fresh := h.fresh
  failed := by
    intro uid hmem
    rcases List.mem_append.mp hmem with hmem | hmem
    · exact h.failed uid hmem
    · cases List.mem_singleton.mp hmem

/-- An item that is prepared is queued once. -/
theorem Preparing.prepare (h : Preparing uids parent (item :: items) run) (link : Link)
    (parts : MoveParts) :
    Preparing uids parent items
      { run with queue := run.queue ++ [preparedMove item.uid link parts] } where
  parent_eq := h.parent_eq
  perm := by
    have hperm := h.perm
    simpa [preparedMove, List.append_assoc] using hperm
  volume := fun i hi => h.volume i (List.mem_cons_of_mem _ hi)
  own := by
    intro p hp
    rcases List.mem_append.mp hp with hp | hp
    · exact h.own p hp
    · rw [List.mem_singleton.mp hp]
      exact ⟨rfl, h.volume item List.mem_cons_self⟩
  -- What is queued for the first time has not been tried.
  fresh := by
    intro p hp
    rcases List.mem_append.mp hp with hp | hp
    · exact h.fresh p hp
    · rw [List.mem_singleton.mp hp]
      rfl
  failed := h.failed

/-- A list of moves of different links. -/
theorem weight_le_two {moves : List PreparedMove}
    (h : (moves.map (fun p => p.item.linkId)).Nodup) (a : LinkId) : weight tries moves a ≤ 2 := by
  have hcount : ∀ moves : List PreparedMove,
      weight tries moves a ≤ 2 * (moves.map (fun p => p.item.linkId)).count a := by
    intro moves
    induction moves with
    | nil => exact Nat.le_refl _
    | cons p moves ih =>
        have hle : tries p ≤ 2 := by
          unfold tries
          split <;> omega
        rw [weight_cons, List.map_cons, List.count_cons]
        -- A link counts for at most two for each move about it, and there is one.
        by_cases hp : p.item.linkId = a
        · simp only [hp, beq_self_eq_true, if_true]
          omega
        · simp only [hp, beq_iff_eq, if_false]
          omega
  have hle := List.nodup_iff_count_le_one.mp h a
  have hweight := hcount moves
  omega

/-- When all items are prepared each is queued or reported. -/
theorem Preparing.accounted (h : Preparing uids parent [] run) (hnodup : uids.Nodup) :
    Accounted uids parent [] [] run where
  parent_eq := h.parent_eq
  perm := by
    have hperm := h.perm
    simpa using hperm
  own := h.own
  paid := by
    intro a
    have hqueue : (run.queue.map PreparedMove.uid).Nodup := by
      have hall := h.perm.nodup_iff.mpr hnodup
      simp only [List.map_nil, List.append_nil] at hall
      exact (List.nodup_append.mp hall).2.1
    -- In one volume different nodes have different links.
    have hlinks : (run.queue.map (fun p => p.item.linkId)).Nodup := by
      refine List.Nodup.map_on ?_ hqueue.of_map
      intro p hp q hq hlink
      obtain ⟨hpl, hpv⟩ := h.own p hp
      obtain ⟨hql, hqv⟩ := h.own q hq
      have huid : p.uid = q.uid := by
        cases hpu : p.uid
        cases hqu : q.uid
        simp_all
      exact List.inj_on_of_nodup_map hqueue hp hq huid
    have hweight := weight_le_two hlinks a
    show 0 + 0 + weight tries run.queue a ≤ 2
    omega
  fine := fun sent hsent => nomatch hsent
  succeeded := fun uid hmem => absurd hmem (h.failed uid)

/-- What is not rejected lies in the target's volume. -/
theorem rejectMove_none {seen : List LinkId} (h : rejectMove parent seen item = none) :
    item.uid.volumeId = parent.volumeId := by
  unfold rejectMove at h
  split at h
  · cases h
  · next hvolume => exact not_not.mp hvolume

/-- Screening splits the items into those that are rejected and those that go on, in one volume and
without repetition. -/
theorem screenMoves_spec (parent : NodeUid) (seen : List LinkId) (items : List NodeMoveItem) :
    ((screenMoves parent seen items).1.map Prod.fst ++
        (screenMoves parent seen items).2.map NodeMoveItem.uid).Perm
      (items.map NodeMoveItem.uid) ∧
    (∀ item ∈ (screenMoves parent seen items).2, item.uid.volumeId = parent.volumeId) ∧
    ∀ uid, (uid, .ok ()) ∉ (screenMoves parent seen items).1 := by
  induction items generalizing seen with
  | nil => simp [screenMoves]
  | cons item items ih =>
      unfold screenMoves
      split
      · -- Rejected: reported as failed, with its own error.
        next e he =>
        obtain ⟨hperm, hvolume, hfailed⟩ := ih seen
        refine ⟨hperm.cons _, hvolume, ?_⟩
        intro uid hmem
        rcases List.mem_cons.mp hmem with heq | hmem
        · cases heq
        · exact hfailed uid hmem
      · -- Accepted: the link counts as seen for the items after it.
        next hnone =>
        obtain ⟨hperm, hvolume, hfailed⟩ := ih (item.uid.linkId :: seen)
        refine ⟨List.perm_middle.trans (hperm.cons _), ?_, hfailed⟩
        intro i hi
        rcases List.mem_cons.mp hi with rfl | hi
        · exact rejectMove_none hnone
        · exact hvolume i hi

section Preparing

variable {σ : Type} {client : MoveClient σ} (hclient : client.Returns)
include hclient

/-- Preparing the items sends no move. -/
theorem prepareEach_spec (links : LinkId → Option Link) (target : MoveTarget)
    {s : Logged σ Sent} (h : Preparing uids parent items run) :
    ∃ t run', (client.prepareEach links target items run).run s = some (⟨t, s.log⟩, .ok run') ∧
      Preparing uids parent [] run' := by
  induction items generalizing run s with
  | nil => exact ⟨s.state, run, rfl, h⟩
  | cons item items ih =>
      unfold MoveClient.prepareEach
      -- Without a link the item is reported as failed.
      split
      · exact ih (h.fail _)
      · next link _ =>
        obtain ⟨t, r, hparts⟩ :=
          (hclient.buildMoveParts item.uid link item.targetName target).inside_attempt s
        rw [Program.bind_ok hparts]
        cases r with
        | error e =>
            obtain ⟨t', run', hrun, hdone⟩ := ih (s := ⟨t, s.log⟩) (h.fail e)
            exact ⟨t', run', hrun, hdone⟩
        | ok parts =>
            obtain ⟨t', run', hrun, hdone⟩ := ih (s := ⟨t, s.log⟩) (h.prepare link parts)
            exact ⟨t', run', hrun, hdone⟩

/-- Fetching links sends no move. -/
theorem fetchLinks_quiet (v : VolumeId) (ids : List LinkId) :
    (client.fetchLinks v ids).Quiet :=
  .bind (.traverse (fun chunk => .inside (hclient.getLinkDetails v chunk)) _) (fun _ => .pure _)

/-- Either nothing can be moved at all, or every item is prepared or has failed. -/
theorem prepareMoves_spec (items : List NodeMoveItem) (parent : NodeUid) (s : Logged σ Sent) :
    ∃ s' r, (client.prepareMoves items parent).run s = some (s', r) ∧ s'.log = s.log ∧
      ∀ run, r = .ok run → Preparing (items.map NodeMoveItem.uid) parent [] run := by
  obtain ⟨hperm, hvolume, hfailed⟩ := screenMoves_spec parent [] items
  have hstart : ∀ email, Preparing (items.map NodeMoveItem.uid) parent
      (screenMoves parent [] items).2 ⟨parent, email, [], (screenMoves parent [] items).1⟩ :=
    fun email => ⟨rfl, hperm, hvolume, fun p hp => (nomatch hp), fun p hp => (nomatch hp), hfailed⟩
  unfold MoveClient.prepareMoves
  dsimp only
  split
  · -- Nothing is left after screening, and nothing is asked for.
    next hempty =>
    refine ⟨s, _, rfl, rfl, ?_⟩
    intro run hrun
    cases hrun
    have hnone := hstart ""
    rw [List.isEmpty_iff.mp hempty] at hnone
    exact hnone
  · -- Four reads, none of which sends a move.
    refine Program.Quiet.bind_exists (.inside (hclient.folderNodeKey parent))
      (fun t e => ⟨rfl, fun run hrun => nomatch hrun⟩) (fun t key => ?_)
    refine Program.Quiet.bind_exists (.inside (hclient.parentHashKey parent key))
      (fun t e => ⟨rfl, fun run hrun => nomatch hrun⟩) (fun t hashKey => ?_)
    refine Program.Quiet.bind_exists (.inside hclient.membershipAddress)
      (fun t e => ⟨rfl, fun run hrun => nomatch hrun⟩) (fun t address => ?_)
    refine Program.Quiet.bind_exists (fetchLinks_quiet hclient _ _)
      (fun t e => ⟨rfl, fun run hrun => nomatch hrun⟩) (fun t links => ?_)
    obtain ⟨t', run', hrun, hdone⟩ := prepareEach_spec hclient links
      ⟨key, hashKey, address.2⟩ (s := ⟨t, s.log⟩) (hstart address.1)
    refine ⟨_, _, hrun, rfl, ?_⟩
    intro run hok
    cases hok
    exact hdone

end Preparing

/-! ## Reporting -/

/-- Every position of the call gets one outcome. -/
theorem reportMoves_fst (outcomes : NodeUid → Option (Except ProtonError Unit))
    (seen uids : List NodeUid) : (reportMoves outcomes seen uids).map Prod.fst = uids := by
  induction uids generalizing seen with
  | nil => rfl
  | cons uid uids ih =>
      unfold reportMoves
      rw [List.map_cons, ih]

/-- A repeated item gets `Ok` when the first one did. -/
theorem repeatOutcome_ok {outcome : Except ProtonError Unit} :
    repeatOutcome outcome = .ok () ↔ outcome = .ok () := by
  cases outcome with
  | ok u => exact ⟨fun _ => rfl, fun _ => rfl⟩
  | error e => exact ⟨fun h => (nomatch h), fun h => (nomatch h)⟩

/-- A position reports success exactly if its node has been moved. -/
theorem reportMoves_ok {outcomes : NodeUid → Option (Except ProtonError Unit)}
    {seen uids : List NodeUid} {uid : NodeUid} {outcome : Except ProtonError Unit}
    (h : (uid, outcome) ∈ reportMoves outcomes seen uids) :
    outcome = .ok () ↔ outcomes uid = some (.ok ()) := by
  induction uids generalizing seen with
  | nil => cases h
  | cons first uids ih =>
      unfold reportMoves at h
      rcases List.mem_cons.mp h with heq | hmem
      · obtain ⟨rfl, rfl⟩ := Prod.mk.inj heq
        cases outcomes uid with
        | none => exact ⟨fun h => (nomatch h), fun h => (nomatch h)⟩
        | some o =>
            dsimp only
            split
            · rw [repeatOutcome_ok, Option.some.injEq]
            · rw [Option.some.injEq]
      · exact ih hmem

/-- Erasing repetitions leaves none. -/
theorem nodup_eraseDups (uids : List NodeUid) : uids.eraseDups.Nodup := by
  induction hlength : uids.length using Nat.strongRecOn generalizing uids with
  | _ n ih =>
      cases uids with
      | nil => simp
      | cons uid uids =>
          rw [List.eraseDups_cons, List.nodup_cons]
          refine ⟨by simp [List.mem_eraseDups], ih _ ?_ _ rfl⟩
          have hle := List.length_filter_le (fun b => !b == uid) uids
          simp only [List.length_cons] at hlength
          omega

/-- What a caller reads off the outcomes. -/
structure Reports (uids : List NodeUid) (parent : NodeUid) (log : List Sent)
    (outcomes : List MoveOutcome) : Prop where
  /-- One outcome for each position, in order. -/
  positions : outcomes.map Prod.fst = uids
  /-- The positions of one uid agree. -/
  agree : ∀ o ∈ outcomes, ∀ o' ∈ outcomes, o.1 = o'.1 → (o.2 = .ok () ↔ o'.2 = .ok ())
  succeeded : ∀ uid, (uid, .ok ()) ∈ outcomes →
    uid.volumeId = parent.volumeId ∧ LastReportedSuccess log uid.linkId

/-- When nothing is queued any more the outcomes are as the log says. -/
theorem Accounted.reports {log : List Sent} {run : MoveRun} {uids items : List NodeUid}
    {parent : NodeUid} (h : Accounted items parent log [] run) :
    Reports uids parent log
      (reportMoves (fun uid => run.outcomes.reverse.lookup uid) [] uids) where
  positions := reportMoves_fst _ _ _
  agree := by
    rintro ⟨uid, outcome⟩ ho ⟨uid', outcome'⟩ ho' heq
    cases heq
    exact (reportMoves_ok ho).trans (reportMoves_ok ho').symm
  succeeded := by
    intro uid hmem
    have hlookup := (reportMoves_ok hmem).mp rfl
    obtain ⟨l, l', hsplit, -⟩ := List.lookup_eq_some_iff.mp hlookup
    have hout : (uid, .ok ()) ∈ run.outcomes := by
      rw [← List.mem_reverse, hsplit]
      simp
    exact h.succeeded uid hout

/-- Each item may be sent twice at most. -/
theorem Preparing.work_le {uids : List NodeUid} {parent : NodeUid} {run : MoveRun}
    (h : Preparing uids parent [] run) : work run.queue ≤ 2 * uids.length := by
  have hlength := h.perm.length_eq
  simp only [List.length_append, List.length_map, List.length_nil] at hlength
  have hle : ∀ moves : List PreparedMove, work moves ≤ 2 * moves.length := by
    intro moves
    induction moves with
    | nil => exact Nat.le_refl _
    | cons p moves ih =>
        have htries : tries p ≤ 2 := by
          unfold tries
          split <;> omega
        simp only [work, List.map_cons, List.sum_cons, List.length_cons] at ih ⊢
        omega
  have hqueue := hle run.queue
  omega

/-- **Accounting.** Over any client whose calls come back, `move_nodes` ends: it fails before it has
sent a batch, or it has one outcome for each position. -/
theorem moveNodes_accounting {σ : Type} {client : MoveClient σ} (hclient : client.Returns)
    (uids : List NodeUid) (newParent : NodeUid) (state : σ) {fuel : Nat}
    (hfuel : 2 * uids.length < fuel) :
    ∃ s r, (client.moveNodes fuel uids newParent).run ⟨state, []⟩ = some (s, r) ∧
      (∀ e, r = .error e → s.log = []) ∧
      (∀ outcomes, r = .ok outcomes → Reports uids newParent s.log outcomes) ∧
      (∀ sent ∈ s.log, FineRequest sent.1) ∧
      ∀ a, sentCount s.log a ≤ 2 := by
  have hitems : (uids.eraseDups.map (fun uid => (⟨uid, none⟩ : NodeMoveItem))).map
      NodeMoveItem.uid = uids.eraseDups := by
    rw [List.map_map]
    exact List.map_id _
  obtain ⟨s, r, hprepare, hlog, hready⟩ := prepareMoves_spec hclient
    (uids.eraseDups.map (fun uid => ⟨uid, none⟩)) newParent ⟨state, []⟩
  rw [hitems] at hready
  unfold MoveClient.moveNodes
  dsimp only
  cases r with
  -- A failed preparation has sent nothing.
  | error e =>
      refine ⟨s, .error e, Program.bind_error hprepare, fun _ _ => hlog, ?_, ?_, ?_⟩
      · intro outcomes hok
        cases hok
      · rw [hlog]
        intro sent hsent
        cases hsent
      · rw [hlog]
        intro a
        exact Nat.zero_le 2
  | ok run =>
      have hnodup := nodup_eraseDups uids
      have hpreparing := hready run rfl
      have hacc : Accounted uids.eraseDups newParent s.log [] run := by
        rw [hlog]
        exact hpreparing.accounted hnodup
      -- Repetitions of a node are reported with it, and sent once.
      have hshort : uids.eraseDups.length ≤ uids.length :=
        hnodup.length_le_of_subset (fun uid h => List.mem_eraseDups.mp h)
      have hwork := hpreparing.work_le
      have henough : work run.queue < fuel := by omega
      obtain ⟨s', run', hsubmit, hdone, -⟩ := submitMoves_spec hclient hnodup hacc henough
      refine ⟨s', .ok (reportMoves (fun uid => run'.outcomes.reverse.lookup uid) [] uids), ?_,
        fun e he => (nomatch he), ?_, hdone.fine, ?_⟩
      · rw [Program.bind_ok hprepare, Program.bind_ok hsubmit]
        rfl
      · intro outcomes hok
        cases hok
        exact hdone.reports
      · intro a
        have hpaid := hdone.paid a
        omega

/-- A client whose server knows three links and refuses the hash of link `1` once. The state counts
the batches. -/
def sampleClient : MoveClient Nat where
  folderNodeKey _ := .pure 1
  parentHashKey _ _ := .pure [7]
  membershipAddress := .pure ("me", 2)
  getLinkDetails _ ids := .pure (ids.map (fun a =>
    ⟨a, some 9, [], some [1], ⟨a, []⟩, [], none, some "me", some "me", none⟩))
  buildMoveParts _ _ _ _ := .pure ⟨[], [], [2], [1], none, [65]⟩
  moveMultiple _ request :=
    ⟨fun n => some (n + 1, .ok (request.links.map (fun item =>
      (item.linkId, if item.linkId = 1 ∧ n = 0 then ⟨.invalidRequirements, none, none⟩
        else ⟨.success, none, none⟩))))⟩
  remoteOriginalHash _ := .pure [3]

/-- Three items, one of them twice: the server asks to try the first again. -/
theorem moveNodes_accounting_sample :
    ∃ s r, (sampleClient.moveNodes 7 [⟨1, 1⟩, ⟨1, 2⟩, ⟨1, 1⟩] ⟨1, 5⟩).run ⟨0, []⟩ = some (s, r) ∧
      (∀ outcomes, r = .ok outcomes →
        Reports [⟨1, 1⟩, ⟨1, 2⟩, ⟨1, 1⟩] ⟨1, 5⟩ s.log outcomes) ∧
      sentCount s.log 1 = 2 := by
  have hclient : sampleClient.Returns :=
    ⟨fun _ s => ⟨s, _, rfl⟩, fun _ _ s => ⟨s, _, rfl⟩, fun s => ⟨s, _, rfl⟩,
      fun _ _ s => ⟨s, _, rfl⟩, fun _ _ _ _ s => ⟨s, _, rfl⟩, fun _ _ s => ⟨s + 1, _, rfl⟩,
      fun _ s => ⟨s, _, rfl⟩⟩
  obtain ⟨s, r, hrun, -, hreports, -⟩ :=
    moveNodes_accounting hclient [⟨1, 1⟩, ⟨1, 2⟩, ⟨1, 1⟩] ⟨1, 5⟩ 0 (by decide : 2 * 3 < 7)
  have hsent : ∃ s r, (sampleClient.moveNodes 7 [⟨1, 1⟩, ⟨1, 2⟩, ⟨1, 1⟩] ⟨1, 5⟩).run ⟨0, []⟩ =
      some (s, r) ∧ sentCount s.log 1 = 2 := ⟨_, _, rfl, rfl⟩
  obtain ⟨s', r', hrun', hcount⟩ := hsent
  obtain ⟨rfl, rfl⟩ := Prod.mk.inj (Option.some.inj (hrun.symm.trans hrun'))
  exact ⟨s, r, hrun, hreports, hcount⟩

end ProtonDrive.BulkMove
