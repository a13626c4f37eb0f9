import ProtonDrive.Drive.Events
import ProtonDrive.Lib.Machine

/-!
# The event manager

`EventManager::run` polls the log of a volume, drops what its events made stale from the caches of
the client, publishes the events and saves the cursor. It starts from the cursor in its store, or
from the head of the log.

* `manager` — the server, the store, the caches and the task as a machine: any of its requests,
  loads, saves and cache removals may fail, and it may be stopped and started anywhere.
* `published_gapless` — what one run publishes is the log after its cursor.
* `saved_told` — a saved cursor is only replaced once everything up to the new one has been
  published. A start that finds a cursor and cannot load it breaks this.
* `passed_dropped` — what lies before the cursor has been dropped from the caches. An invalidation
  that fails breaks this.
-/

namespace ProtonDrive.Events

/-! ## The caches -/

/-- An entry of a cache, by how much of the log there was when its data was fetched. -/
abbrev Fetched := Nat

inductive CacheName where
  | folderKeys
  | contextShareIds
  | entities
  deriving DecidableEq, Repr

abbrev Cache := NodeUid → Option Fetched

structure Caches where
  folderKeys : Cache
  contextShareIds : Cache
  entities : Cache

def Caches.get (caches : Caches) : CacheName → Cache
  | .folderKeys => caches.folderKeys
  | .contextShareIds => caches.contextShareIds
  | .entities => caches.entities

/-- Write or drop the entry of a node. -/
def Caches.put (caches : Caches) (name : CacheName) (nodeUid : NodeUid) (entry : Option Fetched) :
    Caches :=
  match name with
  | .folderKeys =>
      { caches with folderKeys := Function.update caches.folderKeys nodeUid entry }
  | .contextShareIds =>
      { caches with contextShareIds := Function.update caches.contextShareIds nodeUid entry }
  | .entities =>
      { caches with entities := Function.update caches.entities nodeUid entry }

/-- `invalidate_caches_for_event`, with what the removal from the entity cache returns. The other
two caches are held in memory, and cannot fail. -/
def invalidateCaches (caches : Caches) (event : DriveEvent) (removed : Bool) : Caches × Bool :=
  match event with
  | .nodeUpdated _ nodeUid _ _ _ | .nodeDeleted _ nodeUid _ =>
      let caches := { caches with
        folderKeys := Function.update caches.folderKeys nodeUid none
        contextShareIds := fun _ => none }
      if removed then
        ({ caches with entities := Function.update caches.entities nodeUid none }, true)
      else (caches, false)
  | .continuityLost _ | .scopeAccessLost _ =>
      let caches := { caches with folderKeys := fun _ => none, contextShareIds := fun _ => none }
      if removed then ({ caches with entities := fun _ => none }, true) else (caches, false)
  | .sharedWithMeUpdated _ => ({ caches with contextShareIds := fun _ => none }, true)
  | .cursorAdvanced _ => (caches, true)

/-! ## The machine -/

/-- Where the task is. -/
inductive Phase where
  | stopped
  /-- `resolve_start_cursor`, at the load. -/
  | loading
  /-- At the request for the head of the log, or between two of them. -/
  | seeding
  | savingSeed (cursor : DriveEventId)
  /-- Between two polls. -/
  | waiting (cursor : DriveEventId)
  /-- In `enumerate_events`, at the page for `next`. -/
  | polling (cursor next : DriveEventId) (events : List DriveEvent)
  /-- In the loop over the events of a poll: some are done, the others are left. -/
  | applying (cursor : DriveEventId) (done left : List DriveEvent)
  | saving (cursor : DriveEventId)
  deriving DecidableEq, Repr

/-- The cursor the task holds. -/
def Phase.cursor : Phase → Option DriveEventId
  | .stopped | .loading | .seeding => none
  | .savingSeed cursor => some cursor
  | .waiting cursor => some cursor
  | .polling cursor _ _ => some cursor
  | .applying cursor _ _ => some cursor
  | .saving cursor => some cursor

/-- The id up to which the task has applied the log; within a poll it is ahead of the cursor. -/
def Phase.applied : Phase → Option DriveEventId
  | .applying cursor done _ => some ((done.getLast?.map DriveEvent.id).getD cursor)
  | phase => phase.cursor

/-- Everything but the task. -/
structure World where
  log : List VolumeEventDto
  /-- What the `CursorStore` holds. -/
  store : Option DriveEventId
  caches : Caches
  /-- Everything that was ever sent to the subscribers. -/
  published : List DriveEvent
  /-- What was sent since the store was last written. -/
  unsaved : List DriveEvent
  /-- The events whose invalidation has returned `Ok`. -/
  invalidated : List DriveEvent

structure State extends World where
  phase : Phase

/-- A save that fails may have reached the store all the same. -/
inductive SaveResult where
  | ok
  | failed (written : Bool)
  deriving DecidableEq, Repr

inductive Action where
  /-- The log grows. -/
  | append (dto : VolumeEventDto)
  /-- An operation of the client stores an entry that it fetched when the log had length
  `fetched`. -/
  | fill (name : CacheName) (nodeUid : NodeUid) (fetched : Fetched)
  /-- An entry is dropped for room. -/
  | evict (name : CacheName) (nodeUid : NodeUid)
  | start
  /-- The load returns; `false` is an error. -/
  | loaded (ok : Bool)
  /-- The request for the head of the log returns; `none` is an error. -/
  | latest (head : Option DriveEventId)
  | saved (result : SaveResult)
  | poll
  /-- A page comes; `none` is an error. -/
  | page (response : Option VolumeEventListResponse)
  /-- The next event is taken out of the caches and published. -/
  | apply (removed : Bool)
  /-- The task is stopped where it stands; a save that was under way may have reached the store. -/
  | stop (written : Bool)
  deriving DecidableEq, Repr

def World.save (w : World) (cursor : DriveEventId) : SaveResult → World
  | .ok | .failed true => { w with store := some cursor, unsaved := [] }
  | .failed false => w

/-- The next event of a poll: out of the caches, then to the subscribers. A failure is logged. -/
def World.applyEvent (w : World) (event : DriveEvent) (removed : Bool) : World :=
  let dropped := invalidateCaches w.caches event removed
  { w with
    caches := dropped.1
    published := w.published ++ [event]
    unsaved := w.unsaved ++ [event]
    invalidated := if dropped.2 then w.invalidated ++ [event] else w.invalidated }

section Manager

variable (volumeId : VolumeId) (point : DriveEventId → Nat)

/-- Where a poll for `cursor` goes on after a page. -/
def afterPage (cursor next : DriveEventId) (events : List DriveEvent)
    (page : VolumeEventListResponse) : Phase :=
  match readPage volumeId next events page with
  | .error _ => .waiting cursor
  | .ok (events, some next) => .polling cursor next events
  | .ok (events, none) => if events.isEmpty then .waiting cursor else .applying cursor [] events

/-- Where the loop over the events goes on: after the last one, its id is the cursor. -/
def afterEvent (cursor : DriveEventId) (done : List DriveEvent) (event : DriveEvent) :
    List DriveEvent → Phase
  | [] => .saving event.id
  | left => .applying cursor (done ++ [event]) left

/-- Seeding asks `enumerate_events` without a cursor, which gives one event with the id of the head;
    there is always one to go on from. -/
def step (s : State) : Action → Option State
  | .append dto =>
      if point dto.id = s.log.length + 1 then some { s with log := s.log ++ [dto] } else none
  | .fill name nodeUid fetched =>
      if fetched ≤ s.log.length then
        some { s with caches := s.caches.put name nodeUid (some fetched) }
      else none
  | .evict name nodeUid =>
      some { s with caches := s.caches.put name nodeUid none }
  | .start => if s.phase = .stopped then some { s with phase := .loading } else none
  | .loaded ok =>
      if s.phase = .loading then
        match ok, s.store with
        | true, some cursor => some { s with phase := .waiting cursor }
        | _, _ => some { s with phase := .seeding }
      else none
  | .latest head =>
      if s.phase = .seeding then
        match head with
        | none => some s
        | some id =>
            if point id ≤ s.log.length then some { s with phase := .savingSeed id } else none
      else none
  | .saved result =>
      match s.phase with
      | .savingSeed cursor | .saving cursor =>
          some { s.toWorld.save cursor result with phase := .waiting cursor }
      | _ => none
  | .poll =>
      match s.phase with
      | .waiting cursor => some { s with phase := .polling cursor cursor [] }
      | _ => none
  | .page response =>
      match s.phase, response with
      | .polling cursor _ _, none => some { s with phase := .waiting cursor }
      | .polling cursor next events, some page =>
          if Answers point s.log next page then
            some { s with phase := afterPage volumeId cursor next events page }
          else none
      | _, _ => none
  | .apply removed =>
      match s.phase with
      | .applying cursor done (event :: left) =>
          some { s.toWorld.applyEvent event removed with
            phase := afterEvent cursor done event left }
      | _ => none
  | .stop written =>
      match s.phase with
      | .savingSeed cursor | .saving cursor =>
          some { s.toWorld.save cursor (.failed written) with phase := .stopped }
      | _ => some { s with phase := .stopped }

def manager : Machine State Action := ⟨step volumeId point⟩

/-! ## What one step does -/

variable {volumeId point} {s t : State} {a : Action}

/-- The effect of every action, with the phase in which it is taken. -/
inductive Step (volumeId : VolumeId) (point : DriveEventId → Nat) (s : State) :
    Action → State → Prop
  | append {dto} (h : point dto.id = s.log.length + 1) :
      Step volumeId point s (.append dto) { s with log := s.log ++ [dto] }
  | fill {name nodeUid fetched} (h : fetched ≤ s.log.length) :
      Step volumeId point s (.fill name nodeUid fetched)
        { s with caches := s.caches.put name nodeUid (some fetched) }
  | evict {name nodeUid} :
      Step volumeId point s (.evict name nodeUid)
        { s with caches := s.caches.put name nodeUid none }
  | start : Step volumeId point s .start { s with phase := .loading }
  | resume {c} (hphase : s.phase = .loading) (h : s.store = some c) :
      Step volumeId point s (.loaded true) { s with phase := .waiting c }
  /-- There is no cursor, or it cannot be loaded. -/
  | noCursor {ok} (h : s.phase = .loading) :
      Step volumeId point s (.loaded ok) { s with phase := .seeding }
  | again (h : s.phase = .seeding) : Step volumeId point s (.latest none) s
  | seed {c} (h : s.phase = .seeding) (hlog : point c ≤ s.log.length) :
      Step volumeId point s (.latest (some c)) { s with phase := .savingSeed c }
  | saved {result c} (h : s.phase = .savingSeed c ∨ s.phase = .saving c) :
      Step volumeId point s (.saved result)
        { s.toWorld.save c result with phase := .waiting c }
  | poll {c} (h : s.phase = .waiting c) :
      Step volumeId point s .poll { s with phase := .polling c c [] }
  | noPage {c next events} (h : s.phase = .polling c next events) :
      Step volumeId point s (.page none) { s with phase := .waiting c }
  | page {c next events page} (h : s.phase = .polling c next events)
      (hpage : Answers point s.log next page) :
      Step volumeId point s (.page (some page))
        { s with phase := afterPage volumeId c next events page }
  | apply {removed c done event left} (h : s.phase = .applying c done (event :: left)) :
      Step volumeId point s (.apply removed)
        { s.toWorld.applyEvent event removed with phase := afterEvent c done event left }
  | stopSaving {written c} (h : s.phase = .savingSeed c ∨ s.phase = .saving c) :
      Step volumeId point s (.stop written)
        { s.toWorld.save c (.failed written) with phase := .stopped }
  | stop {written} : Step volumeId point s (.stop written) { s with phase := .stopped }

/-- Everything that a step can do, with its guards. -/
theorem step_cases (h : step volumeId point s a = some t) : Step volumeId point s a t := by
  cases a with
  | append dto =>
      simp only [step] at h
      split at h
      · next hid => cases h; exact .append hid
      · exact nomatch h
  | fill name nodeUid fetched =>
      simp only [step] at h
      split at h
      · next hle => cases h; exact .fill hle
      · exact nomatch h
  | evict name nodeUid =>
      cases h
      exact .evict
  | start =>
      simp only [step] at h
      split at h
      · cases h
        exact .start
      · exact nomatch h
  | loaded ok =>
      simp only [step] at h
      split at h
      · -- The load succeeds with a cursor, or the manager has to seed.
        next hphase =>
        split at h
        · next hstore =>
          cases h
          exact .resume hphase hstore
        · cases h
          exact .noCursor hphase
      · exact nomatch h
  | latest head =>
      simp only [step] at h
      split at h
      · next hphase =>
        -- Without a head the source asks again.
        split at h
        · cases h
          exact .again hphase
        · split at h
          · next hle => cases h; exact .seed hphase hle
          · exact nomatch h
      · exact nomatch h
  | saved result =>
      simp only [step] at h
      split at h
      · next hphase =>
        cases h
        exact .saved (.inl hphase)
      · next hphase =>
        cases h
        exact .saved (.inr hphase)
      · exact nomatch h
  | poll =>
      simp only [step] at h
      split at h
      · next hphase =>
        cases h
        exact .poll hphase
      · exact nomatch h
  | page response =>
      simp only [step] at h
      -- A poll that fails is no page.
      split at h
      · next hphase =>
        cases h
        exact .noPage hphase
      · next hphase =>
        split at h
        · next hpage =>
          cases h
          exact .page hphase hpage
        · exact nomatch h
      · exact nomatch h
  | apply removed =>
      simp only [step] at h
      split at h
      · next hphase =>
        cases h
        exact .apply hphase
      · exact nomatch h
  | stop written =>
      simp only [step] at h
      -- A manager that is stopped while it saves may have written or not.
      split at h
      · next hphase =>
        cases h
        exact .stopSaving (.inl hphase)
      · next hphase =>
        cases h
        exact .stopSaving (.inr hphase)
      · cases h
        exact .stop

/-- A task at a save has come to the cursor it saves. -/
theorem applied_of_saving {c : DriveEventId}
    (h : s.phase = .savingSeed c ∨ s.phase = .saving c) : s.phase.applied = some c := by
  rcases h with h | h
  · rw [h]
    rfl
  · rw [h]
    rfl

/-- The entries of the log are numbered, and what a poll has collected or not yet applied takes a
    reader on from where the task is. -/
def PhaseOk (volumeId : VolumeId) (point : DriveEventId → Nat) (w : World) : Phase → Prop
  | .polling cursor next events =>
      Delivers volumeId point w.log (point cursor) events (point next)
  | .applying cursor done left =>
      left ≠ [] ∧ done ⊆ w.published ∧ ∃ p q, Delivers volumeId point w.log (point cursor) done p ∧
        Delivers volumeId point w.log p left q
  | _ => True

structure Sound (volumeId : VolumeId) (point : DriveEventId → Nat) (s : State) : Prop where
  numbered : Numbered point s.log
  phase : PhaseOk volumeId point s.toWorld s.phase

/-- What a step does to the world and to the point up to which the log is applied. -/
inductive Effect (volumeId : VolumeId) (point : DriveEventId → Nat) (s : State) : Action → State → Prop
  | append (dto : VolumeEventDto) (h : point dto.id = s.log.length + 1) :
      Effect volumeId point s (.append dto) { s with log := s.log ++ [dto] }
  | fill (name : CacheName) (nodeUid : NodeUid) (fetched : Fetched) (h : fetched ≤ s.log.length) :
      Effect volumeId point s (.fill name nodeUid fetched)
        { s with caches := s.caches.put name nodeUid (some fetched) }
  | evict (name : CacheName) (nodeUid : NodeUid) :
      Effect volumeId point s (.evict name nodeUid)
        { s with caches := s.caches.put name nodeUid none }
  /-- Only the task moves, and it has applied no more than before. -/
  | quiet (a : Action) (phase : Phase)
      (h : ∀ c ∈ phase.applied, c ∈ s.phase.applied) : Effect volumeId point s a { s with phase }
  /-- It starts from the store. -/
  | resume (c : DriveEventId) (hphase : s.phase = .loading) (h : s.store = some c) :
      Effect volumeId point s (.loaded true) { s with phase := .waiting c }
  /-- It starts from the head of the log. -/
  | seed (c : DriveEventId) (h : s.phase = .seeding) (hlog : point c ≤ s.log.length) :
      Effect volumeId point s (.latest (some c)) { s with phase := .savingSeed c }
  | save (a : Action) (c : DriveEventId) (result : SaveResult) (phase : Phase)
      (hc : s.phase.applied = some c) (h : ∀ c' ∈ phase.applied, c' = c) :
      Effect volumeId point s a { s.toWorld.save c result with phase }
  | apply (removed : Bool) (c : DriveEventId) (event : DriveEvent) (phase : Phase)
      (hnext : ∃ cursor done left, s.phase = .applying cursor done (event :: left))
      (hc : s.phase.applied = some c) (hphase : phase.applied = some event.id)
      (h : Advances volumeId point s.log (point c) event (point event.id)) :
      Effect volumeId point s (.apply removed) { s.toWorld.applyEvent event removed with phase }

/-- The point a task in the loop has come to is that of the last event it has done. -/
theorem point_applied (hlog : Numbered point s.log) {cursor : DriveEventId} {done : List DriveEvent}
    {p : Nat} (h : Delivers volumeId point s.log (point cursor) done p) :
    point ((done.getLast?.map DriveEvent.id).getD cursor) = p := by
  cases hlast : done.getLast? with
  | none =>
      rw [List.getLast?_eq_none_iff.mp hlast] at h
      exact h.symm
  | some last => exact h.point_getLast hlog hlast

/-- An event that has been handled is passed. -/
theorem afterEvent_applied (cursor : DriveEventId) (done : List DriveEvent) (event : DriveEvent)
    (left : List DriveEvent) : (afterEvent cursor done event left).applied = some event.id := by
  cases left with
  | nil => rfl
  | cons next left => simp [afterEvent, Phase.applied]

/-- A page that has been read passes nothing. -/
theorem afterPage_applied (cursor next : DriveEventId) (events : List DriveEvent)
    (page : VolumeEventListResponse) :
    (afterPage volumeId cursor next events page).applied = some cursor := by
  unfold afterPage
  split
  · rfl
  · rfl
  · split
    · rfl
    · rfl

/-- What a step does to the cursor that is passed, stored and published. -/
theorem step_effect (hs : Sound volumeId point s) (h : step volumeId point s a = some t) :
    Effect volumeId point s a t := by
  cases step_cases h with
  | append hid => exact .append _ hid
  | fill hle => exact .fill _ _ _ hle
  | evict => exact .evict _ _
  | start => exact .quiet _ _ nofun
  | resume hphase hstore => exact .resume _ hphase hstore
  | noCursor => exact .quiet _ _ nofun
  | again => exact .quiet _ s.phase (fun _ hc => hc)
  | seed hphase hle => exact .seed _ hphase hle
  | @saved result cursor hphase =>
      exact .save _ cursor result _ (applied_of_saving hphase)
        (fun c hc => (Option.some.inj hc).symm)
  | poll hphase | noPage hphase =>
      -- Neither the poll nor a page that fails passes anything.
      refine .quiet _ _ (fun c hc => ?_)
      rw [hphase]
      exact hc
  | page hphase =>
      refine .quiet _ _ (fun c hc => ?_)
      -- A page that is read passes nothing until its events are applied.
      rw [afterPage_applied] at hc
      rw [hphase]
      exact hc
  | @apply removed cursor done event left hphase =>
      have hok := hs.phase
      rw [hphase] at hok
      -- The event is the next one of the log after what was passed.
      obtain ⟨-, -, p, q, hdone, r, hevent, -⟩ := hok
      refine .apply removed _ event _ ⟨cursor, done, left, hphase⟩ (by rw [hphase]; rfl)
        (afterEvent_applied _ _ _ _) ?_
      rw [point_applied hs.numbered hdone, hevent.point_id hs.numbered]
      exact hevent
  | @stopSaving written cursor hphase =>
      exact .save _ cursor (.failed written) _ (applied_of_saving hphase) nofun
  | stop => exact .quiet _ _ nofun

/-- The log and the feed only grow. -/
theorem PhaseOk.mono {w w' : World} {phase : Phase} (more : List VolumeEventDto)
    (hlog : w'.log = w.log ++ more) (hpublished : w.published ⊆ w'.published)
    (h : PhaseOk volumeId point w phase) : PhaseOk volumeId point w' phase := by
  cases phase with
  | polling cursor next events =>
      show Delivers volumeId point w'.log _ _ _
      rw [hlog]
      exact Delivers.append_log more h
  | applying cursor done left =>
      obtain ⟨hleft, hdone, p, q, hp, hq⟩ := h
      refine ⟨hleft, fun e he => hpublished (hdone he), p, q, ?_, ?_⟩
      · rw [hlog]
        exact hp.append_log more
      · rw [hlog]
        exact hq.append_log more
  | stopped | loading | seeding | savingSeed _ | waiting _ | saving _ => trivial

/-- An empty log is numbered. -/
theorem numbered_nil : Numbered point [] := by
  intro i dto h
  simp at h

/-- A log stays numbered when the next event gets the next number. -/
theorem Numbered.append {log : List VolumeEventDto} {dto : VolumeEventDto}
    (h : Numbered point log) (hid : point dto.id = log.length + 1) :
    Numbered point (log ++ [dto]) := by
  intro i other hother
  rcases Nat.lt_or_ge i log.length with hi | hi
  · rw [List.getElem?_append_left hi] at hother
    exact h i other hother
  · rw [List.getElem?_append_right hi] at hother
    have hzero : i - log.length = 0 := by
      by_contra hne
      rw [List.getElem?_eq_none (by simp only [List.length_singleton]; omega)] at hother
      exact nomatch hother
    rw [hzero] at hother
    cases hother
    omega

/-- After a page the loop has read everything up to the page's cursor. -/
theorem afterPage_ok (hs : Sound volumeId point s) {cursor next : DriveEventId}
    {events : List DriveEvent} {page : VolumeEventListResponse}
    (hsofar : Delivers volumeId point s.log (point cursor) events (point next))
    (hpage : Answers point s.log next page) :
    PhaseOk volumeId point s.toWorld (afterPage volumeId cursor next events page) := by
  unfold afterPage
  split
  · trivial
  · next events' next' hread =>
    obtain ⟨q, hq, hnext⟩ := readPage_delivers hs.numbered hsofar hpage hread
    show Delivers volumeId point s.log (point cursor) events' (point next')
    rw [hnext next' rfl]
    exact hq
  · next events' hread =>
    obtain ⟨q, hq, -⟩ := readPage_delivers hs.numbered hsofar hpage hread
    split
    · trivial
    · next hne => exact ⟨by simpa using hne, nofun, _, q, rfl, hq⟩

/-- After an event the loop has handled everything up to it. -/
theorem afterEvent_ok {w : World} {cursor : DriveEventId} {done left : List DriveEvent}
    {event : DriveEvent} (removed : Bool)
    (h : PhaseOk volumeId point w (.applying cursor done (event :: left))) :
    PhaseOk volumeId point (w.applyEvent event removed) (afterEvent cursor done event left) := by
  obtain ⟨-, hdone, p, q, hp, r, hevent, hleft⟩ := h
  cases left with
  | nil => trivial
  | cons next left =>
      refine ⟨by simp, ?_, r, q, hp.append (delivers_singleton hevent), hleft⟩
      intro e he
      show e ∈ w.published ++ [event]
      rcases List.mem_append.mp he with he | he
      · exact List.mem_append_left _ (hdone he)
      · exact List.mem_append_right _ he

@[simp] theorem save_log (w : World) (c : DriveEventId) (result : SaveResult) :
    (w.save c result).log = w.log := by
  cases result with
  | ok => rfl
  | failed written => cases written <;> rfl

@[simp] theorem save_published (w : World) (c : DriveEventId) (result : SaveResult) :
    (w.save c result).published = w.published := by
  cases result with
  | ok => rfl
  | failed written => cases written <;> rfl

/-- Every step keeps the manager sound. -/
theorem sound_step (hs : Sound volumeId point s) (h : step volumeId point s a = some t) :
    Sound volumeId point t := by
  have hsame : s.log = s.log ++ [] := (List.append_nil _).symm
  cases step_cases h with
  | @append dto hid =>
      exact ⟨hs.numbered.append hid, hs.phase.mono [dto] rfl (List.Subset.refl _)⟩
  | fill | evict => exact ⟨hs.numbered, hs.phase.mono [] hsame (List.Subset.refl _)⟩
  | start | resume | noCursor | seed | noPage | stop => exact ⟨hs.numbered, trivial⟩
  | again => exact hs
  | saved | stopSaving => exact ⟨by simpa using hs.numbered, trivial⟩
  | poll => exact ⟨hs.numbered, rfl⟩
  | page hphase hpage =>
      have hsofar := hs.phase
      rw [hphase] at hsofar
      exact ⟨hs.numbered, afterPage_ok hs hsofar hpage⟩
  | @apply removed _ _ _ _ hphase =>
      have hok := hs.phase
      rw [hphase] at hok
      exact ⟨hs.numbered, afterEvent_ok removed hok⟩

/-! ## Nothing is missing from the feed -/

/-- A task that goes on from `cursor`, over any log, store and caches. -/
def resumed (log : List VolumeEventDto) (store : Option DriveEventId) (caches : Caches)
    (cursor : DriveEventId) : State where
  log := log
  store := store
  caches := caches
  published := []
  unsaved := []
  invalidated := []
  phase := .waiting cursor

/-- What has been published takes a reader from the first cursor to some point, which is the one
that the task has come to if it is still running. -/
structure Feeding (volumeId : VolumeId) (point : DriveEventId → Nat) (cursor : DriveEventId)
    (s : State) : Prop where
  sound : Sound volumeId point s
  running : s.phase ≠ .loading ∧ s.phase ≠ .seeding
  delivered : ∃ q, Delivers volumeId point s.log (point cursor) s.published q
  applied : ∀ c ∈ s.phase.applied,
    Delivers volumeId point s.log (point cursor) s.published (point c)

/-- A manager that resumes at a cursor has published nothing yet. -/
theorem feeding_resumed {log : List VolumeEventDto} (hlog : Numbered point log)
    (store : Option DriveEventId) (caches : Caches) (cursor : DriveEventId) :
    Feeding volumeId point cursor (resumed log store caches cursor) where
  sound := ⟨hlog, trivial⟩
  running := ⟨nofun, nofun⟩
  delivered := ⟨_, rfl⟩
  applied := by
    intro c hc
    cases hc
    rfl

/-- A task that has come to some cursor is past its start. -/
theorem not_starting_of_applied {phase : Phase} {c : DriveEventId} (hc : phase.applied = some c) :
    phase ≠ .loading ∧ phase ≠ .seeding := by
  refine ⟨?_, ?_⟩
  · rintro rfl
    exact nomatch hc
  · rintro rfl
    exact nomatch hc

/-- Without a new start nothing is loaded or seeded again. -/
theorem not_starting_step (h : step volumeId point s a = some t)
    (hrunning : s.phase ≠ .loading ∧ s.phase ≠ .seeding) (ha : a ≠ .start) :
    t.phase ≠ .loading ∧ t.phase ≠ .seeding := by
  cases step_cases h with
  | append | fill | evict => exact hrunning
  | start => exact absurd rfl ha
  | resume hphase | noCursor hphase => exact absurd hphase hrunning.1
  | again hphase | seed hphase => exact absurd hphase hrunning.2
  | saved | poll | noPage | stopSaving | stop => exact ⟨nofun, nofun⟩
  | page => exact not_starting_of_applied (afterPage_applied _ _ _ _)
  | apply => exact not_starting_of_applied (afterEvent_applied _ _ _ _)

/-- Every step keeps publishing where the last one stopped. -/
theorem feeding_step {cursor : DriveEventId} (hs : Feeding volumeId point cursor s) (ha : a ≠ .start)
    (h : step volumeId point s a = some t) : Feeding volumeId point cursor t := by
  refine ⟨sound_step hs.sound h, not_starting_step h hs.running ha, ?_, ?_⟩
  -- What is published only grows by the next event, and that is the next of the log.
  · obtain ⟨q, hq⟩ := hs.delivered
    cases step_effect hs.sound h with
    | append dto hid => exact ⟨q, hq.append_log [dto]⟩
    | fill | evict | quiet => exact ⟨q, hq⟩
    | resume c hphase => exact absurd hphase hs.running.1
    | seed c hphase => exact absurd hphase hs.running.2
    | save c result => exact ⟨q, by simpa using hq⟩
    | apply removed c event phase hnext hc hphase hevent =>
        exact ⟨_, (hs.applied c hc).append (delivers_singleton hevent)⟩
  · cases step_effect hs.sound h with
    | append dto hid =>
        intro c hc
        exact (hs.applied c hc).append_log [dto]
    | fill | evict => exact hs.applied
    | quiet _ phase hphase =>
        intro c hc
        exact hs.applied c (hphase c hc)
    | resume c hphase => exact absurd hphase hs.running.1
    | seed c hphase => exact absurd hphase hs.running.2
    | save _ c result phase hc hphase =>
        intro c' hc'
        cases hphase c' hc'
        simpa using hs.applied c hc
    | apply removed c event phase hnext hc hphase hevent =>
        intro c' hc'
        cases hphase.symm.trans hc'
        exact (hs.applied c hc).append (delivers_singleton hevent)

/-- One run of the manager, whatever fails on the way: what it has published is the log after its
    cursor, entry by entry, except where it said that continuity was lost; after that, it is the log
    after the id that came with it. -/
theorem published_gapless {log : List VolumeEventDto} (hlog : Numbered point log)
    (store : Option DriveEventId) (caches : Caches) (cursor : DriveEventId) {as : List Action}
    (has : ∀ a ∈ as, a ≠ .start)
    (h : (manager volumeId point).exec (resumed log store caches cursor) as = some s) :
    ∃ q, Delivers volumeId point s.log (point cursor) s.published q ∧
      ((∀ id, .continuityLost id ∉ s.published) → ∃ n, q = point cursor + n ∧
        (s.published.filter DriveEvent.isNode).map Except.ok =
          ((s.log.drop (point cursor)).take n).map (toDriveEvent volumeId)) ∧
      (∀ before id after, s.published = before ++ .continuityLost id :: after →
        (∀ id', .continuityLost id' ∉ after) → ∃ n, q = point id + n ∧
          (after.filter DriveEvent.isNode).map Except.ok =
            ((s.log.drop (point id)).take n).map (toDriveEvent volumeId)) := by
  have hs := (manager volumeId point).exec_invariant_along (Feeding volumeId point cursor)
    (fun ha hs h => feeding_step hs ha h) (Machine.along_of_mem _ _ has)
    (feeding_resumed hlog store caches cursor) h
  obtain ⟨q, hq⟩ := hs.delivered
  refine ⟨q, hq, fun hlost => hq.nodes hlost, ?_⟩
  -- After the last loss the events follow the log from there.
  intro before id after hsplit hlost
  rw [hsplit] at hq
  exact hq.after_lost.nodes hlost

/-- Before the first start. -/
def initial : State where
  log := []
  store := none
  caches := ⟨fun _ => none, fun _ => none, fun _ => none⟩
  published := []
  unsaved := []
  invalidated := []
  phase := .stopped

/-- Ids that name the first points of a log. -/
def samplePoint : DriveEventId → Nat
  | "e1" => 1
  | "e2" => 2
  | _ => 0

def sampleEntry (id : DriveEventId) : VolumeEventDto := ⟨id, 2, ⟨7, some 1, false, false⟩⟩

/-- Two entries in two pages: the second page fails at first, and the first save as well. -/
theorem published_gapless_sample : ∃ s,
    (manager 1 samplePoint).exec
      (resumed [] none initial.caches "e0")
      [.append (sampleEntry "e1"), .append (sampleEntry "e2"), .poll,
        .page (some ⟨"e1", [sampleEntry "e1"], true, false⟩), .page none, .poll,
        .page (some ⟨"e1", [sampleEntry "e1"], true, false⟩),
        .page (some ⟨"e2", [sampleEntry "e2"], false, false⟩), .apply false, .apply true,
        .saved (.failed false)] = some s ∧ s.published.length = 2 ∧
    ∃ q, Delivers 1 samplePoint s.log 0 s.published q := by
  have hexec : ∃ s, (manager 1 samplePoint).exec (resumed [] none initial.caches "e0")
      [.append (sampleEntry "e1"), .append (sampleEntry "e2"), .poll,
        .page (some ⟨"e1", [sampleEntry "e1"], true, false⟩), .page none, .poll,
        .page (some ⟨"e1", [sampleEntry "e1"], true, false⟩),
        .page (some ⟨"e2", [sampleEntry "e2"], false, false⟩), .apply false, .apply true,
        .saved (.failed false)] = some s ∧ s.published.length = 2 := ⟨_, rfl, rfl⟩
  obtain ⟨s, hs, hlength⟩ := hexec
  obtain ⟨q, hq, -⟩ := published_gapless numbered_nil none initial.caches "e0" (by decide) hs
  exact ⟨s, hs, hlength, q, hq⟩

/-! ## A saved cursor is not replaced in silence -/

/-- A step that replaces a saved cursor by a later one: since the former was saved, all entries
    between them have been published, or said to be lost. -/
def SaveTold (volumeId : VolumeId) (point : DriveEventId → Nat) (s t : State) : Prop :=
  ∀ c c', s.store = some c → t.store = some c' → ∀ i, point c ≤ i → i < point c' →
    Told volumeId point s.log s.unsaved i

/-- The task starts from the head of the log only where no cursor is saved, or none that the head is
    beyond. A start that fails to load the cursor does not see to it. -/
def SeedsInPlace (point : DriveEventId → Nat) (s : State) : Action → Prop
  | .latest (some id) => ∀ c ∈ s.store, point id ≤ point c
  | _ => True

instance (point : DriveEventId → Nat) (s : State) : (a : Action) → Decidable (SeedsInPlace point s a)
  | .latest (some id) => inferInstanceAs (Decidable (∀ c ∈ s.store, point id ≤ point c))
  | .latest none => .isTrue trivial
  | .append _ | .fill _ _ _ | .evict _ _ | .start | .loaded _ | .saved _ | .poll | .page _
  | .apply _ | .stop _ => .isTrue trivial

/-- From the saved cursor to `p`, everything has been told since. -/
def Covered (volumeId : VolumeId) (point : DriveEventId → Nat) (w : World) (p : Nat) : Prop :=
  ∀ c ∈ w.store, ∀ i, point c ≤ i → i < p → Told volumeId point w.log w.unsaved i

structure Covering (volumeId : VolumeId) (point : DriveEventId → Nat) (s : State) : Prop where
  sound : Sound volumeId point s
  applied : ∀ c ∈ s.phase.applied, Covered volumeId point s.toWorld (point c)

/-- The manager is sound before its first start. -/
theorem sound_initial : Sound volumeId point initial where
  numbered := numbered_nil
  phase := trivial

/-- Before the first start nothing is passed that was not told. -/
theorem covering_initial : Covering volumeId point initial where
  sound := sound_initial
  applied := nofun

/-- A new event of the log lies after everything that was passed. -/
theorem Covered.append {w : World} {p : Nat} (h : Covered volumeId point w p)
    (dto : VolumeEventDto) : Covered volumeId point { w with log := w.log ++ [dto] } p := by
  intro c hc i hi hp
  exact (h c hc i hi hp).append_log [dto]

/-- An event that is published covers the log up to itself. -/
theorem Covered.apply {w : World} {p q : Nat} {event : DriveEvent}
    (h : Covered volumeId point w p) (hevent : Advances volumeId point w.log p event q)
    (removed : Bool) : Covered volumeId point (w.applyEvent event removed) q := by
  intro c hc i hi hq
  rcases Nat.lt_or_ge i p with hp | hp
  · exact (h c hc i hi hp).mono (List.subset_append_left _ _)
  · exact hevent.told (List.mem_append_right _ (List.mem_singleton_self _)) hp hq

/-- Saving a cursor that was reached stores nothing that was not told. -/
theorem Covered.save {w : World} {c : DriveEventId} (h : Covered volumeId point w (point c))
    (result : SaveResult) : Covered volumeId point (w.save c result) (point c) := by
  have hwritten : Covered volumeId point { w with store := some c, unsaved := [] } (point c) := by
    intro c' hc' i hi hlt
    cases hc'
    omega
  cases result with
  | ok => exact hwritten
  | failed written =>
      cases written with
      | true => exact hwritten
      | false => exact h

/-- Every step that does not seed over a stored cursor keeps what was passed told. -/
theorem covering_step (hs : Covering volumeId point s) (hok : SeedsInPlace point s a)
    (h : step volumeId point s a = some t) : Covering volumeId point t := by
  refine ⟨sound_step hs.sound h, ?_⟩
  cases step_effect hs.sound h with
  | append dto hid =>
      intro c hc
      exact (hs.applied c hc).append dto
  | fill | evict => exact hs.applied
  | quiet _ phase hphase =>
      intro c hc
      exact hs.applied c (hphase c hc)
  | resume c hphase hstore =>
      intro c' hc' d hd i hi hlt
      cases hc'
      -- The stored cursor is where the manager resumes, so nothing lies between.
      cases hstore.symm.trans hd
      omega
  | seed c hphase hle =>
      intro c' hc' d hd i hi hlt
      cases hc'
      -- The head that is seeded is not beyond what is stored.
      have hbefore := hok d hd
      omega
  | save _ c result phase hc hphase =>
      intro c' hc'
      cases hphase c' hc'
      exact (hs.applied c hc).save result
  | apply removed c event phase hnext hc hphase hevent =>
      intro c' hc'
      cases hphase.symm.trans hc'
      exact (hs.applied c hc).apply hevent removed

/-- After a save the store holds the new cursor or still the old one. -/
theorem save_store {w : World} {c d d' : DriveEventId} {result : SaveResult}
    (hd : w.store = some d) (hd' : (w.save c result).store = some d') : d' = c ∨ d' = d := by
  cases result with
  | ok => exact Or.inl (Option.some.inj hd').symm
  | failed written =>
      cases written with
      | true => exact Or.inl (Option.some.inj hd').symm
      | false => exact Or.inr (Option.some.inj (hd'.symm.trans hd))

/-- What a step saves has been told. -/
theorem Covering.saveTold (hs : Covering volumeId point s)
    (h : step volumeId point s a = some t) : SaveTold volumeId point s t := by
  intro c c' hc hc' i hi hlt
  have hsame : c' = c → Told volumeId point s.log s.unsaved i := by
    rintro rfl
    omega
  cases step_effect hs.sound h with
  | append | fill | evict | quiet | resume | seed | apply =>
      exact hsame (Option.some.inj (hc'.symm.trans hc))
  | save _ d result phase hd hphase =>
      rcases save_store hc hc' with rfl | heq
      · exact hs.applied c' hd c hc i hi hlt
      · exact hsame heq

/-- Over any sequence of starts and stops, with loads, saves and requests that fail anywhere: as
long as the task starts from the head only in place of no cursor, no saved cursor is replaced in
silence. -/
theorem saved_told {as : List Action} {a : Action} {s t : State}
    (hok : (manager volumeId point).Along (SeedsInPlace point) initial as)
    (hs : (manager volumeId point).exec initial as = some s)
    (h : (manager volumeId point).step s a = some t) : SaveTold volumeId point s t := by
  have hcover := (manager volumeId point).exec_invariant_along (Covering volumeId point)
    (fun hok hs h => covering_step hs hok h) hok covering_initial hs
  exact hcover.saveTold h

/-- A second start that resumes from the store publishes what was added in between. -/
theorem saved_told_sample : ∃ s t,
    (manager 1 samplePoint).exec initial
      [.append (sampleEntry "e1"), .start, .loaded true, .latest (some "e1"), .saved .ok, .stop false,
        .append (sampleEntry "e2"), .start, .loaded true, .poll,
        .page (some ⟨"e2", [sampleEntry "e2"], false, false⟩), .apply true] = some s ∧
    (manager 1 samplePoint).step s (.saved .ok) = some t ∧
    s.store = some "e1" ∧ t.store = some "e2" ∧ SaveTold 1 samplePoint s t := by
  have hexec : ∃ s t, (manager 1 samplePoint).exec initial
      [.append (sampleEntry "e1"), .start, .loaded true, .latest (some "e1"), .saved .ok, .stop false,
        .append (sampleEntry "e2"), .start, .loaded true, .poll,
        .page (some ⟨"e2", [sampleEntry "e2"], false, false⟩), .apply true] = some s ∧
      (manager 1 samplePoint).step s (.saved .ok) = some t ∧
      s.store = some "e1" ∧ t.store = some "e2" := ⟨_, _, rfl, rfl, rfl, rfl⟩
  obtain ⟨s, t, hs, ht, hstore, hstore'⟩ := hexec
  exact ⟨s, t, hs, ht, hstore, hstore', saved_told (by decide) hs ht⟩

/-- The load of the second start fails: the cursor `e1` is replaced by `e2`, and the entry of `e2`
was never published. -/
theorem saved_untold : ∃ s t,
    (manager 1 samplePoint).exec initial
      [.append (sampleEntry "e1"), .start, .loaded true, .latest (some "e1"), .saved .ok, .stop false,
        .append (sampleEntry "e2"), .start, .loaded false, .latest (some "e2")] = some s ∧
    (manager 1 samplePoint).step s (.saved .ok) = some t ∧ ¬ SaveTold 1 samplePoint s t := by
  have hexec : ∃ s t, (manager 1 samplePoint).exec initial
      [.append (sampleEntry "e1"), .start, .loaded true, .latest (some "e1"), .saved .ok, .stop false,
        .append (sampleEntry "e2"), .start, .loaded false, .latest (some "e2")] = some s ∧
      (manager 1 samplePoint).step s (.saved .ok) = some t ∧
      s.store = some "e1" ∧ t.store = some "e2" ∧ s.unsaved = [] :=
    ⟨_, _, rfl, rfl, rfl, rfl, rfl⟩
  obtain ⟨s, t, hs, ht, hstore, hstore', hunsaved⟩ := hexec
  refine ⟨s, t, hs, ht, ?_⟩
  intro htold
  -- The entry after the stored cursor was neither published nor noted as not saved.
  rcases htold "e1" "e2" hstore hstore' 1 (by decide) (by decide) with
    ⟨_, _, _, _, hmem⟩ | ⟨_, hmem, _⟩
  · rw [hunsaved] at hmem
    exact nomatch hmem
  · rw [hunsaved] at hmem
    exact nomatch hmem

/-! ## The caches are ahead of the cursor -/

/-- No entry of a cache was fetched before an entry of the log about its node that lies before
`p`. -/
def Clean (volumeId : VolumeId) (log : List VolumeEventDto) (caches : Caches) (p : Nat) : Prop :=
  ∀ name nodeUid fetched, caches.get name nodeUid = some fetched →
    ∀ (i : Nat) dto, fetched ≤ i → i < p → log[i]? = some dto → nodeOf volumeId dto ≠ nodeUid

/-- A step that moves the cursor, in memory or in the store, past entries whose invalidation has
    succeeded. -/
def PassedInvalidated (volumeId : VolumeId) (point : DriveEventId → Nat) (s t : State) : Prop :=
  (∀ c c', s.phase.cursor = some c → t.phase.cursor = some c' → ∀ i, point c ≤ i → i < point c' →
    Told volumeId point t.log t.invalidated i) ∧
  (∀ c c', s.store = some c → t.store = some c' → ∀ i, point c ≤ i → i < point c' →
    Told volumeId point t.log t.invalidated i)

/-- Every invalidation succeeds; the task starts from the head only where no cursor is saved that
the head is beyond, and no entry is cached that is older than the head; and no operation stores what
it fetched before an event that has been applied since. -/
def InStep (volumeId : VolumeId) (point : DriveEventId → Nat) (s : State) : Action → Prop
  | .latest (some id) =>
      (∀ c ∈ s.store, point id ≤ point c) ∧ Clean volumeId s.log s.caches (point id)
  | .apply removed => ∀ cursor done event left, s.phase = .applying cursor done (event :: left) →
      (invalidateCaches s.caches event removed).2 = true
  | .fill _ nodeUid fetched => ∀ (i : Nat) dto, fetched ≤ i → s.log[i]? = some dto →
      nodeOf volumeId dto = nodeUid →
      (∀ c ∈ s.store, point c ≤ i) ∧ ∀ c ∈ s.phase.applied, point c ≤ i
  | _ => True

/-- Only the entry that is put changes. -/
theorem get_put (caches : Caches) (name other : CacheName) (nodeUid u : NodeUid)
    (entry : Option Fetched) :
    (caches.put name nodeUid entry).get other u =
      if other = name ∧ u = nodeUid then entry else caches.get other u := by
  cases name <;> cases other <;> simp [Caches.put, Caches.get, Function.update_apply]

/-- An invalidation only drops. -/
theorem get_invalidateCaches {caches : Caches} {event : DriveEvent} {removed : Bool}
    {name : CacheName} {nodeUid : NodeUid} {fetched : Fetched}
    (h : (invalidateCaches caches event removed).1.get name nodeUid = some fetched) :
    caches.get name nodeUid = some fetched := by
  cases event with
  | nodeUpdated _ u _ _ _ | nodeDeleted _ u _ =>
      cases removed <;> cases name <;>
        simp [invalidateCaches, Caches.get, Function.update_apply] at h ⊢ <;>
        first | exact h | exact h.2
  | continuityLost | scopeAccessLost =>
      cases removed <;> cases name <;> simp_all [invalidateCaches, Caches.get]
  | sharedWithMeUpdated =>
      cases name <;> simp_all [invalidateCaches, Caches.get]
  | cursorAdvanced => exact h

/-- An invalidation that succeeds leaves no entry of the node of its event. -/
theorem get_invalidateCaches_node {caches : Caches} {event : DriveEvent} {removed : Bool}
    {dto : VolumeEventDto} (hevent : toDriveEvent volumeId dto = .ok event)
    (hok : (invalidateCaches caches event removed).2 = true) (name : CacheName) :
    (invalidateCaches caches event removed).1.get name (nodeOf volumeId dto) = none := by
  rcases toDriveEvent_cases hevent with ⟨_, _, _, rfl⟩ | ⟨_, rfl⟩
  · cases removed with
    | false => simp [invalidateCaches] at hok
    | true => cases name <;> simp [invalidateCaches, Caches.get]
  · cases removed with
    | false => simp [invalidateCaches] at hok
    | true => cases name <;> simp [invalidateCaches, Caches.get]

/-- After a loss of continuity nothing is cached. -/
theorem get_invalidateCaches_lost {caches : Caches} {id : DriveEventId} {removed : Bool}
    (hok : (invalidateCaches caches (.continuityLost id) removed).2 = true) (name : CacheName)
    (nodeUid : NodeUid) :
    (invalidateCaches caches (.continuityLost id) removed).1.get name nodeUid = none := by
  cases removed with
  | false => simp [invalidateCaches] at hok
  | true => cases name <;> simp [invalidateCaches, Caches.get]

section CleanCaches

variable {log : List VolumeEventDto} {caches : Caches} {p : Nat}

/-- A new event of the log makes no entry wrong that was read before it. -/
theorem Clean.append (h : Clean volumeId log caches p) (hp : p ≤ log.length)
    (dto : VolumeEventDto) : Clean volumeId (log ++ [dto]) caches p := by
  intro name nodeUid fetched hget i entry hi hlt hentry
  rw [List.getElem?_append_left (by omega)] at hentry
  exact h name nodeUid fetched hget i entry hi hlt hentry

/-- An entry that is dropped cannot be wrong. -/
theorem Clean.evict (h : Clean volumeId log caches p) (name : CacheName) (nodeUid : NodeUid) :
    Clean volumeId log (caches.put name nodeUid none) p := by
  intro other u fetched hget
  rw [get_put] at hget
  split at hget
  · exact nomatch hget
  · exact h other u fetched hget

/-- An entry read after the last event about its node is right. -/
theorem Clean.fill (h : Clean volumeId log caches p) (name : CacheName) {nodeUid : NodeUid}
    {fetched : Fetched}
    (hahead : ∀ (i : Nat) dto, fetched ≤ i → log[i]? = some dto → nodeOf volumeId dto = nodeUid →
      p ≤ i) :
    Clean volumeId log (caches.put name nodeUid (some fetched)) p := by
  intro other u m hget i dto hi hlt hdto
  rw [get_put] at hget
  split at hget
  · next heq =>
    cases hget
    intro hnode
    have hle := hahead i dto hi hdto (hnode.trans heq.2)
    omega
  · exact h other u m hget i dto hi hlt hdto

/-- An event that drops the entries of its node leaves only entries that are right up to it. -/
theorem Clean.apply (h : Clean volumeId log caches p) {q : Nat} {event : DriveEvent}
    (hevent : Advances volumeId point log p event q) {removed : Bool}
    (hok : (invalidateCaches caches event removed).2 = true) :
    Clean volumeId log (invalidateCaches caches event removed).1 q := by
  intro name nodeUid fetched hget i dto hi hlt hdto
  have hold := h name nodeUid fetched (get_invalidateCaches hget)
  unfold Advances at hevent
  split at hevent
  · exact hold i dto hi (by omega) hdto
  · rw [get_invalidateCaches_lost hok] at hget
    exact nomatch hget
  · obtain ⟨rfl, entry, hentry, hconv⟩ := hevent
    rcases Nat.lt_or_ge i p with hp | hp
    · exact hold i dto hi hp hdto
    · -- the entry that the event is about
      have hip : i = p := by omega
      rw [hip] at hdto
      cases hdto.symm.trans hentry
      rintro rfl
      rw [get_invalidateCaches_node hconv hok] at hget
      exact nomatch hget

/-- A failed invalidation still drops nothing that was clean. -/
theorem Clean.invalidate (h : Clean volumeId log caches p) (event : DriveEvent) (removed : Bool) :
    Clean volumeId log (invalidateCaches caches event removed).1 p := by
  intro name nodeUid fetched hget
  exact h name nodeUid fetched (get_invalidateCaches hget)

end CleanCaches

/-- A point of the log before which the caches are clean. -/
def CleanTo (volumeId : VolumeId) (w : World) (p : Nat) : Prop :=
  p ≤ w.log.length ∧ Clean volumeId w.log w.caches p

structure Dropping (volumeId : VolumeId) (point : DriveEventId → Nat) (s : State) : Prop where
  covering : Covering volumeId point s
  invalidated : s.published ⊆ s.invalidated
  unsaved : s.unsaved ⊆ s.published
  saved : ∀ c ∈ s.store, CleanTo volumeId s.toWorld (point c)
  applied : ∀ c ∈ s.phase.applied, CleanTo volumeId s.toWorld (point c)

/-- Before the first start no cache holds anything. -/
theorem dropping_initial : Dropping volumeId point initial where
  covering := covering_initial
  invalidated := nofun
  unsaved := nofun
  saved := nofun
  applied := nofun

/-- A run in which caches and cursor go together seeds in place. -/
theorem InStep.seedsInPlace (h : InStep volumeId point s a) : SeedsInPlace point s a := by
  cases a with
  | latest head =>
      cases head with
      | none => trivial
      | some id => exact h.1
  | append | fill | evict | start | loaded | saved | poll | page | apply | stop => trivial

/-- Saving a cursor leaves the caches alone. -/
theorem CleanTo.save {w : World} {p : Nat} (h : CleanTo volumeId w p) (c : DriveEventId)
    (result : SaveResult) : CleanTo volumeId (w.save c result) p := by
  cases result with
  | ok => exact h
  | failed written => cases written <;> exact h

/-- A new event of the log leaves the caches right up to where they were. -/
theorem CleanTo.append {w : World} {p : Nat} (h : CleanTo volumeId w p) (dto : VolumeEventDto) :
    CleanTo volumeId { w with log := w.log ++ [dto] } p := by
  refine ⟨?_, h.2.append h.1 dto⟩
  have hp := h.1
  show p ≤ (w.log ++ [dto]).length
  rw [List.length_append]
  omega

/-- What a step of the task leaves clean: the store, and the point it has come to. -/
theorem dropping_step (hs : Dropping volumeId point s) (hok : InStep volumeId point s a)
    (h : step volumeId point s a = some t) : Dropping volumeId point t := by
  have hcovering := covering_step hs.covering hok.seedsInPlace h
  cases step_effect hs.covering.sound h with
  | append dto hid =>
      exact ⟨hcovering, hs.invalidated, hs.unsaved, fun c hc => (hs.saved c hc).append dto,
        fun c hc => (hs.applied c hc).append dto⟩
  | fill name nodeUid fetched hle =>
      refine ⟨hcovering, hs.invalidated, hs.unsaved, fun c hc => ?_, fun c hc => ?_⟩
      · refine ⟨(hs.saved c hc).1, (hs.saved c hc).2.fill name ?_⟩
        intro i dto hi hdto hnode
        exact (hok i dto hi hdto hnode).1 c hc
      · refine ⟨(hs.applied c hc).1, (hs.applied c hc).2.fill name ?_⟩
        intro i dto hi hdto hnode
        exact (hok i dto hi hdto hnode).2 c hc
  | evict name nodeUid =>
      exact ⟨hcovering, hs.invalidated, hs.unsaved,
        fun c hc => ⟨(hs.saved c hc).1, (hs.saved c hc).2.evict name nodeUid⟩,
        fun c hc => ⟨(hs.applied c hc).1, (hs.applied c hc).2.evict name nodeUid⟩⟩
  | quiet _ phase hphase =>
      exact ⟨hcovering, hs.invalidated, hs.unsaved, hs.saved,
        fun c hc => hs.applied c (hphase c hc)⟩
  | resume c hphase hstore =>
      refine ⟨hcovering, hs.invalidated, hs.unsaved, hs.saved, fun c' hc' => ?_⟩
      -- The store was clean up to this cursor before the start.
      cases hc'
      exact hs.saved c hstore
  | seed c hphase hle =>
      refine ⟨hcovering, hs.invalidated, hs.unsaved, hs.saved, fun c' hc' => ?_⟩
      cases hc'
      exact ⟨hle, hok.2⟩
  | save _ c result phase hc hphase =>
      have hclean := (hs.applied c hc).save c result
      refine ⟨hcovering, ?_, ?_, fun d hd => ?_, fun d hd => ?_⟩
      · cases result with
        | ok => exact hs.invalidated
        | failed written => cases written <;> exact hs.invalidated
      · cases result with
        | ok => exact nofun
        | failed written =>
            cases written with
            | true => exact nofun
            | false => exact hs.unsaved
      · cases result with
        | ok => cases hd; exact hclean
        | failed written =>
            cases written with
            | true => cases hd; exact hclean
            | false => exact hs.saved d hd
      · cases hphase d hd
        exact hclean
  | apply removed c event phase hnext hc hphase hevent =>
      -- The run admits only an invalidation that succeeds.
      obtain ⟨cursor, done, left, hnext⟩ := hnext
      have hdropped := hok cursor done event left hnext
      refine ⟨hcovering, ?_, ?_, fun d hd => ?_, fun d hd => ?_⟩
      · show s.published ++ [event] ⊆ if (invalidateCaches s.caches event removed).2 then
          s.invalidated ++ [event] else s.invalidated
        rw [if_pos hdropped]
        intro e he
        rcases List.mem_append.mp he with he | he
        · exact List.mem_append_left _ (hs.invalidated he)
        · exact List.mem_append_right _ he
      · intro e he
        rcases List.mem_append.mp he with he | he
        · exact List.mem_append_left _ (hs.unsaved he)
        · exact List.mem_append_right _ he
      · exact ⟨(hs.saved d hd).1, (hs.saved d hd).2.invalidate event removed⟩
      · cases hphase.symm.trans hd
        exact ⟨hevent.le_length (hs.applied c hc).1, (hs.applied c hc).2.apply hevent hdropped⟩

/-- After a page the loop still stands at the cursor it had. -/
theorem afterPage_cursor (cursor next : DriveEventId) (events : List DriveEvent)
    (page : VolumeEventListResponse) :
    (afterPage volumeId cursor next events page).cursor = some cursor := by
  unfold afterPage
  split
  · rfl
  · rfl
  · split
    · rfl
    · rfl

/-- The cursor in memory moves past the events of a poll, once all of them are published. -/
theorem cursor_step (hs : Sound volumeId point s) (h : step volumeId point s a = some t)
    {c c' : DriveEventId} (hc : s.phase.cursor = some c) (hc' : t.phase.cursor = some c') :
    c' = c ∨ ∃ events, events ⊆ t.published ∧
      Delivers volumeId point t.log (point c) events (point c') := by
  have hsame : t.phase.cursor = s.phase.cursor → c' = c := by
    intro heq
    exact Option.some.inj (hc'.symm.trans (heq.trans hc))
  cases step_cases h with
  | append | fill | evict => exact Or.inl (hsame rfl)
  | start | stopSaving | stop => exact nomatch hc'
  | resume hphase | noCursor hphase | again hphase | seed hphase =>
      rw [hphase] at hc
      exact nomatch hc
  | saved hphase =>
      apply Or.inl (hsame _)
      rcases hphase with hphase | hphase
      · rw [hphase]
        rfl
      · rw [hphase]
        rfl
  | poll hphase | noPage hphase => exact Or.inl (hsame (by rw [hphase]; rfl))
  | page hphase => exact Or.inl (hsame (by rw [hphase]; exact afterPage_cursor _ _ _ _))
  | @apply removed cursor done event left hphase =>
      cases left with
      | cons next left => exact Or.inl (hsame (by rw [hphase]; rfl))
      | nil =>
          -- the last event of the poll
          have hok := hs.phase
          rw [hphase] at hok hc
          cases hc
          cases hc'
          obtain ⟨-, hdone, p, q, hp, r, hevent, -⟩ := hok
          refine Or.inr ⟨done ++ [event], ?_, ?_⟩
          · intro e he
            show e ∈ s.published ++ [event]
            rcases List.mem_append.mp he with he | he
            · exact List.mem_append_left _ (hdone he)
            · exact List.mem_append_right _ he
          · rw [hevent.point_id hs.numbered]
            exact hp.append (delivers_singleton hevent)

/-- The log and the invalidated events only grow. -/
theorem grows_step (hs : Sound volumeId point s) (h : step volumeId point s a = some t) :
    (∃ more, t.log = s.log ++ more) ∧ s.invalidated ⊆ t.invalidated := by
  cases step_effect hs h with
  | append dto hid => exact ⟨⟨[dto], rfl⟩, List.Subset.refl _⟩
  | fill | evict | quiet | resume | seed => exact ⟨⟨[], (List.append_nil _).symm⟩, List.Subset.refl _⟩
  | save _ c result phase hc hphase =>
      refine ⟨⟨[], by simp⟩, ?_⟩
      cases result with
      | ok => exact List.Subset.refl _
      | failed written => cases written <;> exact List.Subset.refl _
  | apply removed c event phase hnext hc hphase hevent =>
      refine ⟨⟨[], (List.append_nil _).symm⟩, ?_⟩
      show s.invalidated ⊆ if (invalidateCaches s.caches event removed).2 then
        s.invalidated ++ [event] else s.invalidated
      split
      · exact List.subset_append_left _ _
      · exact List.Subset.refl _

/-- Every event that a step passes has its entries dropped. -/
theorem Dropping.passedInvalidated (hs : Dropping volumeId point s)
    (hok : InStep volumeId point s a) (h : step volumeId point s a = some t) :
    PassedInvalidated volumeId point s t := by
  have ht := dropping_step hs hok h
  refine ⟨?_, ?_⟩
  · intro c c' hc hc' i hi hlt
    rcases cursor_step hs.covering.sound h hc hc' with rfl | ⟨events, hevents, hdelivers⟩
    · omega
    · exact hdelivers.told (fun e he => ht.invalidated (hevents he)) hi hlt
  · intro c c' hc hc' i hi hlt
    obtain ⟨⟨more, hlog⟩, hgrows⟩ := grows_step hs.covering.sound h
    have htold := hs.covering.saveTold h c c' hc hc' i hi hlt
    rw [hlog]
    apply Told.append_log
    exact htold.mono (fun e he => hgrows (hs.invalidated (hs.unsaved he)))

/-- In every run whose invalidations all succeed, and in which nothing older than the events is
stored behind them: each cursor moves past entries that have been invalidated, and no entry of a
cache is older than an event about its node at or before the saved cursor. -/
theorem passed_dropped {as : List Action}
    (hok : (manager volumeId point).Along (InStep volumeId point) initial as)
    (hs : (manager volumeId point).exec initial as = some s) :
    (∀ a t, InStep volumeId point s a → (manager volumeId point).step s a = some t →
      PassedInvalidated volumeId point s t) ∧
    ∀ c ∈ s.store, Clean volumeId s.log s.caches (point c) := by
  have hdropping := (manager volumeId point).exec_invariant_along (Dropping volumeId point)
    (fun hok hs h => dropping_step hs hok h) hok dropping_initial hs
  refine ⟨?_, ?_⟩
  · intro a t hok h
    exact hdropping.passedInvalidated hok h
  · intro c hc
    exact (hdropping.saved c hc).2

/-- The entry of a node is cached, and then the node is updated. -/
def sampleUpdate (removed : Bool) : List Action :=
  [.start, .loaded true, .latest (some "e0"), .saved .ok, .fill .entities ⟨1, 7⟩ 0,
    .append (sampleEntry "e1"), .poll, .page (some ⟨"e1", [sampleEntry "e1"], false, false⟩),
    .apply removed, .saved .ok]

/-- The sample run meets the condition at each of its steps. -/
theorem sampleUpdate_inStep :
    (manager 1 samplePoint).Along (InStep 1 samplePoint) initial (sampleUpdate true) := by
  refine ⟨trivial, fun _ h => ?_⟩
  obtain rfl := Option.some.inj h
  refine ⟨trivial, fun _ h => ?_⟩
  obtain rfl := Option.some.inj h
  refine ⟨⟨nofun, ?_⟩, fun _ h => ?_⟩
  · -- The caches are empty at the first start.
    intro name nodeUid fetched hget
    cases name <;> exact nomatch hget
  obtain rfl := Option.some.inj h
  refine ⟨trivial, fun _ h => ?_⟩
  obtain rfl := Option.some.inj h
  refine ⟨?_, fun _ h => ?_⟩
  · -- The log holds one entry, which is the one that is fetched.
    intro i dto _ hdto
    exact nomatch (List.getElem?_nil.symm.trans hdto)
  obtain rfl := Option.some.inj h
  refine ⟨trivial, fun _ h => ?_⟩
  obtain rfl := Option.some.inj h
  refine ⟨trivial, fun _ h => ?_⟩
  obtain rfl := Option.some.inj h
  refine ⟨trivial, fun _ h => ?_⟩
  obtain rfl := Option.some.inj h
  refine ⟨?_, fun _ h => ?_⟩
  · intro cursor done event left hphase
    cases hphase
    rfl
  obtain rfl := Option.some.inj h
  exact ⟨trivial, fun _ _ => trivial⟩

/-- One change of a node that is cached: afterwards the cursor is stored and the entry is gone. -/
theorem passed_dropped_sample : ∃ s,
    (manager 1 samplePoint).exec initial (sampleUpdate true) = some s ∧ s.store = some "e1" ∧
      s.caches.entities ⟨1, 7⟩ = none ∧ Clean 1 s.log s.caches 1 := by
  have hexec : ∃ s, (manager 1 samplePoint).exec initial (sampleUpdate true) = some s ∧
      s.store = some "e1" ∧ s.caches.entities ⟨1, 7⟩ = none := ⟨_, rfl, rfl, rfl⟩
  obtain ⟨s, hs, hstore, hdropped⟩ := hexec
  exact ⟨s, hs, hstore, hdropped, (passed_dropped sampleUpdate_inStep hs).2 "e1" hstore⟩

/-- The removal from the entity cache fails once: the cursor moves past the update in memory and in
the store, and the old entry stays. -/
theorem passed_stale : ∃ s,
    (manager 1 samplePoint).exec initial (sampleUpdate false) = some s ∧ s.store = some "e1" ∧
      s.invalidated = [] ∧ ¬ Clean 1 s.log s.caches 1 := by
  have hexec : ∃ s, (manager 1 samplePoint).exec initial (sampleUpdate false) = some s ∧
      s.store = some "e1" ∧ s.invalidated = [] ∧ s.log = [sampleEntry "e1"] ∧
      s.caches.entities ⟨1, 7⟩ = some 0 := ⟨_, rfl, rfl, rfl, rfl, rfl⟩
  obtain ⟨s, hs, hstore, hinvalidated, hlog, hstale⟩ := hexec
  refine ⟨s, hs, hstore, hinvalidated, ?_⟩
  intro hclean
  rw [hlog] at hclean
  exact hclean .entities ⟨1, 7⟩ 0 hstale 0 (sampleEntry "e1") (by decide) (by decide) rfl rfl

end Manager

end ProtonDrive.Events
