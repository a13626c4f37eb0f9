import Mathlib.Data.Fintype.Defs
import ProtonDrive.Lib.Machine
import ProtonDrive.Drive.Ids

/-!
# Draft creation under concurrent uploads

`create_file_draft` in `client.rs` recovers from a name conflict in three requests: the `POST files`
that is refused, the `delete_multiple` that clears the draft holding the name, and the next
`POST files`. The uploads that run it are stepped here against the one name they all want, in any
number and in any interleaving, up to and including the `seal_revision` that commits a draft.

* `Server` is the part of the server the uploads see: the link that holds the name, and the links
  deleted for good.
* `Phase` is where one `upload_file_from_inner` call stands between two requests.
* `protected_of_sealClear` — a file whose upload has returned is never deleted by another upload,
  **provided** no seal lands between another upload's conflict answer and its delete. Without that
  condition the delete names a link that has been committed in the meantime.
-/

namespace ProtonDrive.DraftRace

/-! ## The server -/

/-- `Details` of an `AlreadyExists` answer to `POST files`. -/
structure RevisionConflict (C : Type) where
  linkId : Option LinkId
  revisionId : Option RevisionId
  draftRevisionId : Option RevisionId
  draftClientUid : Option C

/-- The link that holds the name: its committed revision if it has one, and the draft revision open
on it together with the client that opened it. -/
structure Holder (C : Type) where
  linkId : LinkId
  revisionId : Option RevisionId
  draft : Option (RevisionId × Option C)

/-- The server, as far as one name in one folder is concerned. Ids are minted from `nextId`, so the
link holding the name is older than any link still to be created. -/
structure Server (C : Type) where
  holder : Option (Holder C)
  nextId : Nat
  deleted : List LinkId
  minted : ∀ h, holder = some h → h.linkId < nextId

namespace Server

variable {C : Type}

/-- The conflict a refused creation reports about the link holding the name. -/
def conflict (h : Holder C) : RevisionConflict C :=
  { linkId := some h.linkId
    revisionId := h.revisionId
    draftRevisionId := h.draft.map Prod.fst
    draftClientUid := h.draft.bind Prod.snd }

/-- `POST files`: open a draft, or refuse because the name is held. -/
def createFile (s : Server C) (clientUid : C) :
    Server C × Except (RevisionConflict C) (LinkId × RevisionId) :=
  match s.holder with
  | some h => (s, .error (conflict h))
  | none =>
      ({ holder := some ⟨s.nextId, none, some (s.nextId, some clientUid)⟩
         nextId := s.nextId + 1
         deleted := s.deleted
         minted := by rintro h ⟨⟩; exact Nat.lt_succ_self _ },
       .ok (s.nextId, s.nextId))

/-- `POST delete_multiple` for one link: delete it permanently, whatever its state. A link that is
not there answers `DoesNotExist`, which the caller tolerates. -/
def deleteMultiple (s : Server C) (link : LinkId) : Server C :=
  if s.holder.map Holder.linkId = some link then
    { holder := none
      nextId := s.nextId
      deleted := link :: s.deleted
      minted := by rintro h ⟨⟩ }
  else s

/-- `PUT revisions/{rid}`: make the draft revision the link's active one. Sending it again for a
revision that is already active changes nothing. -/
def sealRevision (s : Server C) (link : LinkId) (revision : RevisionId) : Option (Server C) :=
  match hs : s.holder with
  | some h =>
      if h.linkId = link ∧ (h.draft.map Prod.fst = some revision ∨ h.revisionId = some revision) then
        some
          { holder := some ⟨h.linkId, some revision, none⟩
            nextId := s.nextId
            deleted := s.deleted
            minted := by rintro _ ⟨⟩; exact s.minted h hs }
      else none
  | none => none

end Server

/-! ## One upload -/

/-- What tells two upload calls apart here: the session they run in, and whether they may clear a
draft of another client (`upload_file_replacing_draft_from`). -/
structure FileDraftSpec (C : Type) where
  clientUid : C
  overrideExistingDraft : Bool

def MAX_DRAFT_ATTEMPTS : Nat := 3

/-- The link `create_file_draft` deletes in answer to a conflict: an unsealed draft that is our own,
or anyone's when overriding. Everything else is surfaced unchanged. -/
def staleDraft {C : Type} [DecidableEq C] (spec : FileDraftSpec C) :
    RevisionConflict C → Option LinkId
  | ⟨some link, none, some _, owner⟩ =>
      if spec.overrideExistingDraft || owner == some spec.clientUid then some link else none
  | _ => none

/-- Where an `upload_file_from_inner` call stands. `creating n` has the `n`-th `POST files` ahead of
it, `deleting n link` has been told that `link` is the stale draft in its way. -/
inductive Phase where
  | creating (attempt : Nat)
  | deleting (attempt : Nat) (link : LinkId)
  | writing (link : LinkId) (revision : RevisionId)
  | sealed (link : LinkId)
  | ok (link : LinkId)
  | err
  deriving DecidableEq

/-- The link an upload is about to delete. -/
def Phase.deletes : Phase → Option LinkId
  | .deleting _ link => some link
  | _ => none

/-- The link whose draft an upload has still to seal. -/
def Phase.draft : Phase → Option LinkId
  | .writing link _ => some link
  | _ => none

/-- What becomes of the answer to a request that reached the server. A lost answer either makes the
HTTP layer send the request again, or fails the upload. -/
inductive Reply where
  | received
  | lostAndResent
  | lostAndFailed

/-- What the upload turns to once the answer to its request is settled. -/
def Reply.settle (reply : Reply) (stay onward : Phase) : Phase :=
  match reply with
  | .received => onward
  | .lostAndResent => stay
  | .lostAndFailed => .err

/-- The phase after the draft of attempt `n` has been cleared: the next round of the loop, or out of
rounds. -/
def nextAttempt (n : Nat) : Phase :=
  if n + 1 < MAX_DRAFT_ATTEMPTS then .creating (n + 1) else .err

/-- The phase after `POST files` was answered. -/
def afterCreate {C : Type} [DecidableEq C] (spec : FileDraftSpec C) (n : Nat) :
    Except (RevisionConflict C) (LinkId × RevisionId) → Phase
  | .ok (link, revision) => .writing link revision
  | .error c =>
      match staleDraft spec c with
      | some link => .deleting n link
      | none => .err

/-! ## What a phase promises

What one upload's phase promises about the link it names. `deleting` is the promise the race breaks:
the link is, if it still holds the name, an unsealed draft. -/

section Promises

variable {C : Type}

def PhaseOk (server : Server C) : Phase → Prop
  | .creating _ => True
  | .deleting _ link =>
      link < server.nextId ∧ ∀ h, server.holder = some h → h.linkId = link → h.revisionId = none
  | .writing link _ => link < server.nextId
  | .sealed link =>
      link < server.nextId ∧ ∀ h, server.holder = some h → h.linkId = link → h.revisionId ≠ none
  | .ok link =>
      link < server.nextId ∧ ∀ h, server.holder = some h → h.linkId = link → h.revisionId ≠ none
  | .err => True

theorem phaseOk_settle {server : Server C} {stay onward : Phase} (reply : Reply)
    (hstay : PhaseOk server stay) (honward : PhaseOk server onward) :
    PhaseOk server (reply.settle stay onward) := by
  cases reply with
  | received => exact honward
  | lostAndResent => exact hstay
  | lostAndFailed => trivial

/-- A conflict makes an upload delete only the link it reports, and only an unsealed one. -/
theorem staleDraft_conflict [DecidableEq C] {sp : FileDraftSpec C} {h : Holder C} {link : LinkId}
    (hst : staleDraft sp (Server.conflict h) = some link) :
    h.linkId = link ∧ h.revisionId = none := by
  obtain ⟨l, r, d⟩ := h
  cases r with
  | some r => simp [Server.conflict, staleDraft] at hst
  | none =>
      cases d with
      | none => simp [Server.conflict, staleDraft] at hst
      | some d =>
          simp only [Server.conflict, staleDraft, Option.map_some] at hst
          split at hst
          · cases hst
            exact ⟨rfl, rfl⟩
          · cases hst

/-! ### What each request keeps -/

/-- A new draft has a new id, so it is none of the links the other uploads name. -/
theorem phaseOk_createFile {server : Server C} (c : C) {p : Phase} (hp : PhaseOk server p) :
    PhaseOk (server.createFile c).1 p := by
  unfold Server.createFile
  split
  · exact hp
  · -- the new holder is `nextId`, and every link named so far is below it
    cases p with
    | creating n => trivial
    | deleting n link =>
        refine ⟨Nat.lt_succ_of_lt hp.1, ?_⟩
        rintro h ⟨⟩ rfl
        exact absurd hp.1 (Nat.lt_irrefl _)
    | writing link r => exact Nat.lt_succ_of_lt hp
    | sealed link =>
        refine ⟨Nat.lt_succ_of_lt hp.1, ?_⟩
        rintro h ⟨⟩ rfl
        exact absurd hp.1 (Nat.lt_irrefl _)
    | ok link =>
        refine ⟨Nat.lt_succ_of_lt hp.1, ?_⟩
        rintro h ⟨⟩ rfl
        exact absurd hp.1 (Nat.lt_irrefl _)
    | err => trivial

theorem phaseOk_afterCreate [DecidableEq C] (server : Server C) (sp : FileDraftSpec C) (n : Nat) :
    PhaseOk (server.createFile sp.clientUid).1
      (afterCreate sp n (server.createFile sp.clientUid).2) := by
  unfold Server.createFile
  split
  · next h hh =>
    cases hst : staleDraft sp (Server.conflict h) with
    | none => simp [afterCreate, hst, PhaseOk]
    | some link =>
        obtain ⟨hl, hr⟩ := staleDraft_conflict hst
        simp only [afterCreate, hst, PhaseOk]
        refine ⟨hl ▸ server.minted h hh, ?_⟩
        intro h' hh' _
        cases hh.symm.trans hh'
        exact hr
  · exact Nat.lt_succ_self _

theorem phaseOk_deleteMultiple {server : Server C} (link : LinkId) {p : Phase}
    (hp : PhaseOk server p) : PhaseOk (server.deleteMultiple link) p := by
  unfold Server.deleteMultiple
  split
  · -- nobody holds the name any more, so every promise about the holder is vacuous
    cases p with
    | creating n => trivial
    | deleting n l => exact ⟨hp.1, by rintro h ⟨⟩⟩
    | writing l r => exact hp
    | sealed l => exact ⟨hp.1, by rintro h ⟨⟩⟩
    | ok l => exact ⟨hp.1, by rintro h ⟨⟩⟩
    | err => trivial
  · exact hp

/-- What a seal does to the server: the link holds the name and now has a committed revision. -/
theorem sealRevision_eq_some {server server' : Server C} {link : LinkId} {r : RevisionId}
    (h : server.sealRevision link r = some server') :
    (∀ h', server'.holder = some h' → h'.linkId = link ∧ h'.revisionId = some r) ∧
      server'.nextId = server.nextId ∧ server'.deleted = server.deleted := by
  unfold Server.sealRevision at h
  split at h
  · next h₀ hh₀ =>
    split at h
    · next hc =>
      cases h
      refine ⟨?_, rfl, rfl⟩
      rintro h' ⟨⟩
      exact ⟨hc.1, rfl⟩
    · cases h
  · cases h

theorem phaseOk_sealRevision {server server' : Server C} {link : LinkId} {r : RevisionId}
    (h : server.sealRevision link r = some server') {p : Phase}
    (hclear : p.deletes ≠ some link) (hp : PhaseOk server p) : PhaseOk server' p := by
  obtain ⟨hholder, hnext, -⟩ := sealRevision_eq_some h
  cases p with
  | creating n => trivial
  | deleting n l =>
      refine ⟨hnext ▸ hp.1, ?_⟩
      -- The party that deletes is after another link than the one that is sealed.
      rintro h' hh' rfl
      exact absurd (hholder h' hh').1 (fun hl => hclear (hl ▸ rfl))
  | writing l _ =>
      show l < server'.nextId
      rw [hnext]
      exact hp
  | sealed l =>
      refine ⟨hnext ▸ hp.1, ?_⟩
      -- The holder of the name has its revision now.
      intro h' hh' _
      simp [(hholder h' hh').2]
  | ok l =>
      refine ⟨hnext ▸ hp.1, ?_⟩
      intro h' hh' _
      simp [(hholder h' hh').2]
  | err => trivial

end Promises

/-! ## All uploads of the name -/

/-- A step of upload `i`: one of its requests reaches the server, the answer to its seal reaches the
caller, or it ends early (an error on its own side, a refused request, a dropped call). -/
inductive Action (ι : Type) where
  | create (i : ι) (reply : Reply)
  | delete (i : ι) (reply : Reply)
  | commit (i : ι) (reply : Reply)
  | finish (i : ι)
  | abort (i : ι)

structure State (ι C : Type) where
  server : Server C
  phase : ι → Phase

section Runs

variable {ι C : Type} [DecidableEq ι] [DecidableEq C] (spec : ι → FileDraftSpec C)

def step (s : State ι C) : Action ι → Option (State ι C)
  | .create i reply =>
      match s.phase i with
      | .creating n =>
          let r := s.server.createFile (spec i).clientUid
          some ⟨r.1, Function.update s.phase i
            (reply.settle (.creating n) (afterCreate (spec i) n r.2))⟩
      | _ => none
  | .delete i reply =>
      match s.phase i with
      | .deleting n link =>
          some ⟨s.server.deleteMultiple link, Function.update s.phase i
            (reply.settle (.deleting n link) (nextAttempt n))⟩
      | _ => none
  | .commit i reply =>
      match s.phase i with
      | .writing link revision =>
          (s.server.sealRevision link revision).map (fun server =>
            ⟨server, Function.update s.phase i
              (reply.settle (.writing link revision) (.sealed link))⟩)
      | _ => none
  | .finish i =>
      match s.phase i with
      | .sealed link => some ⟨s.server, Function.update s.phase i (.ok link)⟩
      | _ => none
  | .abort i =>
      match s.phase i with
      | .ok _ => none
      | _ => some ⟨s.server, Function.update s.phase i .err⟩

/-- The uploads of one name, as a machine. -/
def uploads : Machine (State ι C) (Action ι) := ⟨step spec⟩

/-- All uploads are called, none has sent anything yet. -/
def start (server : Server C) : State ι C := ⟨server, fun _ => .creating 0⟩

/-- Once an upload has returned `Ok(uid)`, no step of a run adds `uid` to the deleted links. -/
def Protected (server : Server C) : Prop :=
  ∀ (as bs : List (Action ι)) (s t : State ι C) (i : ι) (uid : LinkId),
    (uploads spec).exec (start server) as = some s → s.phase i = .ok uid →
    (uploads spec).exec s bs = some t → uid ∈ t.server.deleted → uid ∈ s.server.deleted

def Inv (s : State ι C) : Prop := ∀ i, PhaseOk s.server (s.phase i)

/-- No seal lands on a link that another upload is about to delete. -/
def SealClear (s : State ι C) : Action ι → Prop
  | .commit i _ => ∀ j, ∀ link ∈ (s.phase j).deletes, (s.phase i).draft ≠ some link
  | _ => True

instance [Fintype ι] (s : State ι C) : (a : Action ι) → Decidable (SealClear s a)
  | .commit i _ =>
      inferInstanceAs (Decidable (∀ j, ∀ link ∈ (s.phase j).deletes, (s.phase i).draft ≠ some link))
  | .create _ _ | .delete _ _ | .finish _ | .abort _ => .isTrue trivial

/-! ## Every run -/

/-- The effect of every action, with the phase in which it is taken. -/
inductive Step (s : State ι C) : Action ι → State ι C → Prop
  | create {i reply n} (hi : s.phase i = .creating n) :
      Step s (.create i reply) ⟨(s.server.createFile (spec i).clientUid).1,
        Function.update s.phase i (reply.settle (.creating n)
          (afterCreate (spec i) n (s.server.createFile (spec i).clientUid).2))⟩
  | delete {i reply n link} (hi : s.phase i = .deleting n link) :
      Step s (.delete i reply) ⟨s.server.deleteMultiple link,
        Function.update s.phase i (reply.settle (.deleting n link) (nextAttempt n))⟩
  | commit {i reply link revision server} (hi : s.phase i = .writing link revision)
      (hseal : s.server.sealRevision link revision = some server) :
      Step s (.commit i reply) ⟨server,
        Function.update s.phase i (reply.settle (.writing link revision) (.sealed link))⟩
  | finish {i link} (hi : s.phase i = .sealed link) :
      Step s (.finish i) ⟨s.server, Function.update s.phase i (.ok link)⟩
  | abort {i} (hi : ∀ link, s.phase i ≠ .ok link) :
      Step s (.abort i) ⟨s.server, Function.update s.phase i .err⟩

theorem step_cases {s t : State ι C} {a : Action ι} (ht : step spec s a = some t) :
    Step spec s a t := by
  cases a with
  | create i reply =>
      simp only [step] at ht
      split at ht
      · next hi =>
        cases ht
        exact .create hi
      · cases ht
  | delete i reply =>
      simp only [step] at ht
      split at ht
      · next hi =>
        cases ht
        exact .delete hi
      · cases ht
  | commit i reply =>
      simp only [step] at ht
      split at ht
      · next hi =>
        -- The server refuses to seal a revision that it does not have.
        obtain ⟨server, hseal, rfl⟩ := Option.map_eq_some_iff.mp ht
        exact .commit hi hseal
      · cases ht
  | finish i =>
      simp only [step] at ht
      split at ht
      · next hi =>
        cases ht
        exact .finish hi
      · cases ht
  | abort i =>
      simp only [step] at ht
      split at ht
      · cases ht
      · next hi =>
        cases ht
        exact .abort hi

omit [DecidableEq C] in
theorem inv_update {s : State ι C} {server : Server C} {i : ι} {p : Phase}
    (hall : ∀ j, PhaseOk server (s.phase j)) (hp : PhaseOk server p) :
    Inv (⟨server, Function.update s.phase i p⟩ : State ι C) := by
  intro j
  by_cases hji : j = i
  · subst hji
    simpa using hp
  · simpa [Function.update_of_ne hji] using hall j

omit [DecidableEq ι] [DecidableEq C] in
theorem inv_start (server : Server C) : Inv (start server : State ι C) := fun _ => trivial

theorem step_inv {s t : State ι C} {a : Action ι} (hclear : SealClear s a) (hs : Inv s)
    (ht : step spec s a = some t) : Inv t := by
  cases step_cases spec ht with
  | @create i reply n hi =>
      exact inv_update (fun j => phaseOk_createFile _ (hs j))
        (phaseOk_settle reply trivial (phaseOk_afterCreate _ _ _))
  | @delete i reply n link hi =>
      have hpi : PhaseOk s.server (.deleting n link) := hi ▸ hs i
      refine inv_update (fun j => phaseOk_deleteMultiple _ (hs j))
        (phaseOk_settle reply (phaseOk_deleteMultiple _ hpi) ?_)
      -- The loop goes on to another create, or gives up.
      unfold nextAttempt
      split <;> trivial
  | @commit i reply link revision server hi hseal =>
      -- Nobody is about to delete what is sealed here.
      have hclear : ∀ j, (s.phase j).deletes ≠ some link := by
        intro j hj
        exact hclear j link hj (by rw [hi]; rfl)
      have hpi : PhaseOk s.server (.writing link revision) := hi ▸ hs i
      obtain ⟨hholder, hnext, -⟩ := sealRevision_eq_some hseal
      refine inv_update (fun j => phaseOk_sealRevision hseal (hclear j) (hs j))
        (phaseOk_settle reply (phaseOk_sealRevision hseal (by simp [Phase.deletes]) hpi) ?_)
      refine ⟨hnext ▸ hpi, ?_⟩
      intro h' hh' _
      simp [(hholder h' hh').2]
  | @finish i link hi =>
      have hpi : PhaseOk s.server (.sealed link) := hi ▸ hs i
      exact inv_update hs hpi
  | abort => exact inv_update hs trivial

/-- A step that deletes a link deletes one that its upload was told is a stale draft. -/
theorem step_deletes {s t : State ι C} {a : Action ι} (ht : step spec s a = some t) {uid : LinkId}
    (hnew : uid ∈ t.server.deleted) (hold : uid ∉ s.server.deleted) :
    ∃ h j n, s.phase j = .deleting n uid ∧ s.server.holder = some h ∧ h.linkId = uid := by
  cases step_cases spec ht with
  | create =>
      unfold Server.createFile at hnew
      split at hnew
      · exact absurd hnew hold
      · exact absurd hnew hold
  | @delete i reply n link hi =>
      unfold Server.deleteMultiple at hnew
      split at hnew
      · -- A delete takes the link only while it holds the name.
        next hheld =>
        obtain ⟨h, hh, hl⟩ := Option.map_eq_some_iff.mp hheld
        rcases List.mem_cons.mp hnew with rfl | hmem
        · exact ⟨h, i, n, hi, hh, hl⟩
        · exact absurd hmem hold
      · exact absurd hnew hold
  | commit hi hseal =>
      rw [(sealRevision_eq_some hseal).2.2] at hnew
      exact absurd hnew hold
  | finish | abort => exact absurd hnew hold

/-- A returned upload takes no further step. -/
theorem step_keeps_ok {s t : State ι C} {a : Action ι} (ht : step spec s a = some t) {i : ι}
    {uid : LinkId} (hi : s.phase i = .ok uid) : t.phase i = .ok uid := by
  -- the step is another upload's: ours is in none of the phases a step starts from
  have keep : ∀ j p, s.phase j ≠ .ok uid → Function.update s.phase j p i = .ok uid := by
    intro j p hj
    have hji : i ≠ j := by
      rintro rfl
      exact hj hi
    rw [Function.update_of_ne hji, hi]
  cases step_cases spec ht with
  | create hj | delete hj | commit hj | finish hj =>
      apply keep
      rw [hj]
      exact nofun
  | abort hj => exact keep _ _ (hj uid)

/-- **A returned upload's file outlives every other upload**, in every run in which no seal lands on
a link that another upload has been told to delete. -/
theorem protected_of_sealClear (server : Server C) {as bs : List (Action ι)} {s t : State ι C}
    {i : ι} {uid : LinkId}
    (hclear : (uploads spec).Along SealClear (start server) (as ++ bs))
    (hs : (uploads spec).exec (start server) as = some s) (hi : s.phase i = .ok uid)
    (ht : (uploads spec).exec s bs = some t) (hdel : uid ∈ t.server.deleted) :
    uid ∈ s.server.deleted := by
  obtain ⟨hclearA, hclearB⟩ := hclear.append _ hs
  have hinv : Inv s := (uploads spec).exec_invariant_along Inv
    (fun hok hinv hst => step_inv spec hok hinv hst) hclearA (inv_start server) hs
  by_contra hold
  -- along `bs`, the upload stays returned and its link stays undeleted
  have hrun : Inv t ∧ t.phase i = .ok uid ∧ uid ∉ t.server.deleted := by
    refine (uploads spec).exec_invariant_along
      (fun r => Inv r ∧ r.phase i = .ok uid ∧ uid ∉ r.server.deleted)
      ?_ hclearB ⟨hinv, hi, hold⟩ ht
    rintro r a r' hok ⟨hri, hrp, hrd⟩ hst
    refine ⟨step_inv spec hok hri hst, step_keeps_ok spec hst hrp, ?_⟩
    intro hnew
    obtain ⟨h, j, n, hj, hh, hl⟩ := step_deletes spec hst hnew hrd
    -- the deleting upload promises an unsealed draft, the returned one a committed file
    have hdraft : PhaseOk r.server (.deleting n uid) := hj ▸ hri j
    have hfile : PhaseOk r.server (.ok uid) := hrp ▸ hri i
    exact hfile.2 h hh hl (hdraft.2 h hh hl)
  exact hrun.2.2 hdel

end Runs

/-! ## The race

Two uploads, `false` and `true`. The first opens its draft, the second is refused and told of that
draft, the first seals and returns, and the delete of the second then hits the committed file. -/

/-- A folder in which the name is free. -/
def vacant (C : Type) : Server C := ⟨none, 0, [], by rintro h ⟨⟩⟩

/-- Two `upload_file_from` calls of one client. -/
def sameClient : Bool → FileDraftSpec Nat := fun _ => ⟨0, false⟩

/-- An `upload_file_from` call, and an `upload_file_replacing_draft_from` call of another client. -/
def replacing : Bool → FileDraftSpec Nat
  | false => ⟨0, false⟩
  | true => ⟨1, true⟩

def conflictThenSeal : List (Action Bool) :=
  [.create false .received, .create true .received, .commit false .received, .finish false]

/-- Both pairs of uploads the race is about delete a file whose upload has returned. -/
theorem not_protected :
    ¬ Protected sameClient (vacant Nat) ∧ ¬ Protected replacing (vacant Nat) := by
  constructor
  · intro h
    have := h conflictThenSeal [.delete true .received] _ _ false 0 rfl rfl rfl (by decide)
    exact absurd this (by decide)
  · intro h
    have := h conflictThenSeal [.delete true .received] _ _ false 0 rfl rfl rfl (by decide)
    exact absurd this (by decide)

/-- A run that meets the condition: the second upload asks once the first has sealed. -/
theorem protected_of_sealClear_sequential :
    ∃ s t : State Bool Nat,
      (uploads sameClient).exec (start (vacant Nat))
        [.create false .received, .commit false .received, .finish false] = some s ∧
      (uploads sameClient).exec s [.create true .received] = some t ∧
      s.phase false = .ok 0 ∧ t.phase true = .err ∧
      (0 ∈ t.server.deleted → 0 ∈ s.server.deleted) := by
  refine ⟨_, _, rfl, rfl, rfl, rfl, ?_⟩
  have hclear : (uploads sameClient).Along SealClear (start (vacant Nat))
      ([.create false .received, .commit false .received, .finish false] ++
        [.create true .received]) := by decide
  exact protected_of_sealClear sameClient (vacant Nat) (i := false) hclear rfl rfl rfl

end ProtonDrive.DraftRace
