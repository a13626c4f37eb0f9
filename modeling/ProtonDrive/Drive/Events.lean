import ProtonDrive.Drive.Node

/-!
# Events of a volume

The server keeps a log of the changes of a volume. `enumerate_events` reads it page by page from a
cursor, and turns each entry into a `DriveEvent`.

* `readPage` — one turn of the loop of `enumerate_events`.
* `Answers` — what the server promises about a page.
* `Delivers` — a list of events brings a reader of the log from one point to another: entry by
  entry, or by telling it that continuity was lost.
* `readPage_delivers` — pages that the server answered do.
-/

namespace ProtonDrive

abbrev DriveEventId := String

inductive DriveEvent where
  | nodeUpdated (id : DriveEventId) (nodeUid : NodeUid) (parentNodeUid : Option NodeUid)
      (isTrashed isShared : Bool)
  | nodeDeleted (id : DriveEventId) (nodeUid : NodeUid) (parentNodeUid : Option NodeUid)
  | cursorAdvanced (id : DriveEventId)
  | continuityLost (id : DriveEventId)
  | scopeAccessLost (id : DriveEventId)
  | sharedWithMeUpdated (id : DriveEventId)
  deriving DecidableEq, Repr

def DriveEvent.id : DriveEvent → DriveEventId
  | .nodeUpdated id _ _ _ _ => id
  | .nodeDeleted id _ _ => id
  | .cursorAdvanced id => id
  | .continuityLost id => id
  | .scopeAccessLost id => id
  | .sharedWithMeUpdated id => id

/-- An event about a node, and not about the cursor or the scope. -/
def DriveEvent.isNode : DriveEvent → Bool
  | .nodeUpdated .. | .nodeDeleted .. => true
  | _ => false

structure VolumeEventLinkDto where
  id : LinkId
  parentId : Option LinkId
  isShared : Bool
  isTrashed : Bool
  deriving DecidableEq, Repr

structure VolumeEventDto where
  id : DriveEventId
  eventType : Int
  link : VolumeEventLinkDto
  deriving DecidableEq, Repr

structure VolumeEventListResponse where
  lastEventId : DriveEventId
  events : List VolumeEventDto
  moreEntriesExist : Bool
  refreshRequired : Bool
  deriving DecidableEq, Repr

namespace Events

/-- The node an entry of the log is about. -/
def nodeOf (volumeId : VolumeId) (event : VolumeEventDto) : NodeUid := ⟨volumeId, event.link.id⟩

def toDriveEvent (volumeId : VolumeId) (event : VolumeEventDto) : Except ProtonError DriveEvent :=
  let nodeUid := nodeOf volumeId event
  let parentNodeUid := event.link.parentId.map (fun parent => ⟨volumeId, parent⟩)
  if 1 ≤ event.eventType ∧ event.eventType ≤ 3 then
    .ok (.nodeUpdated event.id nodeUid parentNodeUid event.link.isTrashed event.link.isShared)
  else if event.eventType = 0 then .ok (.nodeDeleted event.id nodeUid parentNodeUid)
  else .error (.invalidOperation ("unknown volume event type " ++ toString event.eventType))

/-- The loop over the entries of a page; the first entry that cannot be converted ends it. -/
def toDriveEvents (volumeId : VolumeId) :
    List VolumeEventDto → Except ProtonError (List DriveEvent)
  | [] => .ok []
  | event :: rest => do
      let converted ← toDriveEvent volumeId event
      let more ← toDriveEvents volumeId rest
      .ok (converted :: more)

/-- One page for `cursor`, with the events so far: the events now, and the cursor of the next page
if there is to be one. -/
def readPage (volumeId : VolumeId) (cursor : DriveEventId) (events : List DriveEvent)
    (page : VolumeEventListResponse) :
    Except ProtonError (List DriveEvent × Option DriveEventId) :=
  if page.refreshRequired then .ok (events ++ [.continuityLost page.lastEventId], none)
  else if page.events.isEmpty then
    if page.lastEventId ≠ cursor then .ok (events ++ [.cursorAdvanced page.lastEventId], none)
    else .ok (events, none)
  else do
    let converted ← toDriveEvents volumeId page.events
    if page.moreEntriesExist then .ok (events ++ converted, some page.lastEventId)
    else .ok (events ++ converted, none)

/-! ## The log -/

section Log

variable (volumeId : VolumeId) (point : DriveEventId → Nat)

/-- Every entry has its id, which names the point of the log right after it. -/
def Numbered (log : List VolumeEventDto) : Prop := ∀ i dto, log[i]? = some dto → point dto.id = i + 1

/-- A page of the log for `cursor`: the entries strictly after it, in order and any number of them,
    and the id of the last one. An id that comes with a refresh names some point of the log, and one
    that comes with no entries the point of the cursor. -/
def Answers (log : List VolumeEventDto) (cursor : DriveEventId) (page : VolumeEventListResponse) :
    Prop :=
  (page.refreshRequired = true → point page.lastEventId ≤ log.length) ∧
  (page.refreshRequired = false →
    page.events <+: log.drop (point cursor) ∧
    (page.events = [] → point page.lastEventId = point cursor) ∧
    ∀ last ∈ page.events.getLast?, page.lastEventId = last.id)

instance (log : List VolumeEventDto) (cursor : DriveEventId) (page : VolumeEventListResponse) :
    Decidable (Answers point log cursor page) :=
  inferInstanceAs (Decidable (_ ∧ (_ → _ ∧ _ ∧ _)))

/-- An event takes a reader that stands at `p` to `q`. -/
def Advances (log : List VolumeEventDto) (p : Nat) (event : DriveEvent) (q : Nat) : Prop :=
  match event with
  | .cursorAdvanced id => point id = p ∧ q = p
  | .continuityLost id => q = point id ∧ q ≤ log.length
  | event => q = p + 1 ∧ ∃ dto, log[p]? = some dto ∧ toDriveEvent volumeId dto = .ok event

/-- A list of events takes a reader from `p` to `q`. -/
def Delivers (log : List VolumeEventDto) : Nat → List DriveEvent → Nat → Prop
  | p, [], q => q = p
  | p, event :: rest, q => ∃ r, Advances volumeId point log p event r ∧ Delivers log r rest q

/-- Entry `i` of the log was among the events, or they said that it was skipped. -/
def Told (log : List VolumeEventDto) (events : List DriveEvent) (i : Nat) : Prop :=
  (∃ dto event, log[i]? = some dto ∧ toDriveEvent volumeId dto = .ok event ∧ event ∈ events) ∨
  ∃ id, .continuityLost id ∈ events ∧ i < point id

/-! ## What a page delivers -/

variable {volumeId point} {log : List VolumeEventDto}

/-- An event carries the id of its entry. -/
theorem toDriveEvent_id {dto : VolumeEventDto} {event : DriveEvent}
    (h : toDriveEvent volumeId dto = .ok event) : event.id = dto.id := by
  unfold toDriveEvent at h
  simp only [] at h
  split at h
  · cases h
    rfl
  · split at h
    · cases h
      rfl
    · exact nomatch h

/-- Entries become events about their nodes, and nothing else. -/
theorem toDriveEvent_cases {dto : VolumeEventDto} {event : DriveEvent}
    (h : toDriveEvent volumeId dto = .ok event) :
    (∃ parent trashed shared,
      event = .nodeUpdated dto.id (nodeOf volumeId dto) parent trashed shared) ∨
    ∃ parent, event = .nodeDeleted dto.id (nodeOf volumeId dto) parent := by
  unfold toDriveEvent at h
  simp only [] at h
  split at h
  · cases h
    exact Or.inl ⟨_, _, _, rfl⟩
  · split at h
    · cases h
      exact Or.inr ⟨_, rfl⟩
    · exact nomatch h

theorem advances_entry {p : Nat} {dto : VolumeEventDto} {event : DriveEvent}
    (hdto : log[p]? = some dto) (h : toDriveEvent volumeId dto = .ok event) :
    Advances volumeId point log p event (p + 1) := by
  rcases toDriveEvent_cases h with ⟨parent, trashed, shared, rfl⟩ | ⟨parent, rfl⟩
  · exact ⟨rfl, dto, hdto, h⟩
  · exact ⟨rfl, dto, hdto, h⟩

/-- An event names the point it takes its reader to. -/
theorem Advances.point_id (hlog : Numbered point log) {p q : Nat} {event : DriveEvent}
    (h : Advances volumeId point log p event q) : point event.id = q := by
  unfold Advances at h
  split at h
  · exact h.1.trans h.2.symm
  · exact h.1.symm
  · obtain ⟨hq, dto, hdto, hevent⟩ := h
    rw [toDriveEvent_id hevent, hlog _ _ hdto, hq]

/-- A reader does not leave the log. -/
theorem Advances.le_length {p q : Nat} {event : DriveEvent}
    (h : Advances volumeId point log p event q) (hp : p ≤ log.length) : q ≤ log.length := by
  unfold Advances at h
  split at h
  · omega
  · exact h.2
  · obtain ⟨rfl, dto, hdto, -⟩ := h
    obtain ⟨hi, -⟩ := List.getElem?_eq_some_iff.mp hdto
    exact hi

theorem Delivers.append {p q r : Nat} {events more : List DriveEvent}
    (h : Delivers volumeId point log p events q) (hmore : Delivers volumeId point log q more r) :
    Delivers volumeId point log p (events ++ more) r := by
  induction events generalizing p with
  | nil =>
      cases h
      exact hmore
  | cons event events ih =>
      obtain ⟨p', hstep, hrest⟩ := h
      exact ⟨p', hstep, ih hrest⟩

/-- What follows a loss of continuity goes on from its id. -/
theorem Delivers.after_lost {p q : Nat} {before after : List DriveEvent} {id : DriveEventId}
    (h : Delivers volumeId point log p (before ++ .continuityLost id :: after) q) :
    Delivers volumeId point log (point id) after q := by
  induction before generalizing p with
  | nil =>
      obtain ⟨r, hlost, hafter⟩ := h
      rw [← hlost.1]
      exact hafter
  | cons event before ih =>
      obtain ⟨r, -, hrest⟩ := h
      exact ih hrest

theorem delivers_singleton {p q : Nat} {event : DriveEvent}
    (h : Advances volumeId point log p event q) : Delivers volumeId point log p [event] q :=
  ⟨q, h, rfl⟩

theorem Delivers.point_getLast (hlog : Numbered point log) {p q : Nat} {events : List DriveEvent}
    {last : DriveEvent} (h : Delivers volumeId point log p events q)
    (hlast : events.getLast? = some last) : point last.id = q := by
  induction events generalizing p with
  | nil => exact nomatch hlast
  | cons event events ih =>
      obtain ⟨p', hstep, hrest⟩ := h
      cases events with
      | nil =>
          cases hlast
          cases hrest
          exact hstep.point_id hlog
      | cons next events => exact ih hrest (by simpa using hlast)

theorem getElem?_append_log {more : List VolumeEventDto} {i : Nat} {dto : VolumeEventDto}
    (h : log[i]? = some dto) : (log ++ more)[i]? = some dto := by
  obtain ⟨hi, _⟩ := List.getElem?_eq_some_iff.mp h
  rw [List.getElem?_append_left hi, h]

theorem Advances.append_log (more : List VolumeEventDto) {p q : Nat} {event : DriveEvent}
    (h : Advances volumeId point log p event q) :
    Advances volumeId point (log ++ more) p event q := by
  unfold Advances at h ⊢
  split at h
  · exact h
  · refine ⟨h.1, ?_⟩
    rw [List.length_append]
    omega
  · obtain ⟨hq, dto, hdto, hevent⟩ := h
    exact ⟨hq, dto, getElem?_append_log hdto, hevent⟩

theorem Delivers.append_log (more : List VolumeEventDto) {p q : Nat} {events : List DriveEvent}
    (h : Delivers volumeId point log p events q) :
    Delivers volumeId point (log ++ more) p events q := by
  induction events generalizing p with
  | nil => exact h
  | cons event events ih =>
      obtain ⟨p', hstep, hrest⟩ := h
      exact ⟨p', hstep.append_log more, ih hrest⟩

theorem Told.append_log (more : List VolumeEventDto) {events : List DriveEvent} {i : Nat}
    (h : Told volumeId point log events i) : Told volumeId point (log ++ more) events i := by
  rcases h with ⟨dto, event, hdto, hevent, hmem⟩ | hlost
  · exact Or.inl ⟨dto, event, getElem?_append_log hdto, hevent, hmem⟩
  · exact Or.inr hlost

theorem Told.mono {events events' : List DriveEvent} {i : Nat} (hsub : events ⊆ events')
    (h : Told volumeId point log events i) : Told volumeId point log events' i := by
  rcases h with ⟨dto, event, hdto, hevent, hmem⟩ | ⟨id, hmem, hlt⟩
  · exact Or.inl ⟨dto, event, hdto, hevent, hsub hmem⟩
  · exact Or.inr ⟨id, hsub hmem, hlt⟩

/-- The entries that an event passes are told by it. -/
theorem Advances.told {p q : Nat} {event : DriveEvent} (h : Advances volumeId point log p event q)
    {events : List DriveEvent} (hmem : event ∈ events) {i : Nat} (hp : p ≤ i) (hq : i < q) :
    Told volumeId point log events i := by
  unfold Advances at h
  split at h
  · omega
  · exact Or.inr ⟨_, hmem, h.1 ▸ hq⟩
  · obtain ⟨hq', dto, hdto, hevent⟩ := h
    have hi : i = p := by omega
    exact Or.inl ⟨dto, _, hi ▸ hdto, hevent, hmem⟩

/-- The entries between the two points are told by the events. -/
theorem Delivers.told {p q : Nat} {events told : List DriveEvent}
    (h : Delivers volumeId point log p events q) (hsub : events ⊆ told) {i : Nat} (hp : p ≤ i)
    (hq : i < q) : Told volumeId point log told i := by
  induction events generalizing p with
  | nil =>
      cases h
      omega
  | cons event events ih =>
      obtain ⟨r, hevent, hrest⟩ := h
      rcases Nat.lt_or_ge i r with hr | hr
      · exact hevent.told (hsub List.mem_cons_self) hp hr
      · exact ih hrest (fun e he => hsub (List.mem_cons_of_mem _ he)) hr

/-- Without a loss of continuity, the events about nodes are the entries between the two points. -/
theorem Delivers.nodes {p q : Nat} {events : List DriveEvent}
    (h : Delivers volumeId point log p events q) (hlost : ∀ id, .continuityLost id ∉ events) :
    ∃ n, q = p + n ∧ (events.filter DriveEvent.isNode).map Except.ok =
      ((log.drop p).take n).map (toDriveEvent volumeId) := by
  induction events generalizing p with
  | nil => exact ⟨0, h, by simp⟩
  | cons event events ih =>
      obtain ⟨r, hevent, hrest⟩ := h
      obtain ⟨n, hq, hnodes⟩ := ih hrest (fun id hid => hlost id (List.mem_cons_of_mem _ hid))
      unfold Advances at hevent
      split at hevent
      · obtain ⟨-, rfl⟩ := hevent
        exact ⟨n, hq, by simpa [DriveEvent.isNode] using hnodes⟩
      · exact absurd List.mem_cons_self (hlost _)
      · obtain ⟨rfl, dto, hdto, hconv⟩ := hevent
        -- A node event is the entry at `p`, so the log after `p` starts with it.
        refine ⟨n + 1, by omega, ?_⟩
        have hnode : event.isNode = true := by
          rcases toDriveEvent_cases hconv with ⟨_, _, _, rfl⟩ | ⟨_, rfl⟩
          · rfl
          · rfl
        obtain ⟨hi, hget⟩ := List.getElem?_eq_some_iff.mp hdto
        rw [List.filter_cons_of_pos hnode, List.map_cons, hnodes, List.drop_eq_getElem_cons hi,
          List.take_succ_cons, List.map_cons, hget, hconv]

/-- The entries of a page, one after the other. -/
theorem toDriveEvents_delivers {p : Nat} {entries : List VolumeEventDto} {events : List DriveEvent}
    (hentries : entries <+: log.drop p) (h : toDriveEvents volumeId entries = .ok events) :
    Delivers volumeId point log p events (p + entries.length) := by
  induction entries generalizing p events with
  | nil =>
      cases h
      rfl
  | cons dto entries ih =>
      obtain ⟨event, hevent, h⟩ := Except.bind_eq_ok.mp h
      obtain ⟨more, hmore, h⟩ := Except.bind_eq_ok.mp h
      cases h
      obtain ⟨after, hafter⟩ := hentries
      -- The page is the log after `p`: its head is the entry at `p`, its tail the log after
      -- `p + 1`.
      have hdto : log[p]? = some dto := by
        rw [← List.head?_drop, ← hafter]
        rfl
      have hrest : entries <+: log.drop (p + 1) := by
        refine ⟨after, ?_⟩
        rw [← List.tail_drop, ← hafter]
        rfl
      refine ⟨p + 1, advances_entry hdto hevent, ?_⟩
      have hlength : p + (dto :: entries).length = p + 1 + entries.length := by
        simp only [List.length_cons]
        omega
      rw [hlength]
      exact ih hrest hmore

/-- The id of a page names the point that the page reaches. -/
theorem Answers.point_lastEventId (hlog : Numbered point log) {cursor : DriveEventId}
    {page : VolumeEventListResponse} (h : Answers point log cursor page)
    (hfresh : page.refreshRequired = false) :
    point page.lastEventId = point cursor + page.events.length := by
  obtain ⟨hinitial, hempty, hlast⟩ := h.2 hfresh
  cases hl : page.events.getLast? with
  | none =>
      have hnil := List.getLast?_eq_none_iff.mp hl
      rw [hempty hnil, hnil]
      rfl
  | some last =>
      obtain ⟨front, hfront⟩ := List.getLast?_eq_some_iff.mp hl
      obtain ⟨after, hafter⟩ := hinitial
      have hentry : log[point cursor + front.length]? = some last := by
        rw [← List.getElem?_drop, ← hafter, hfront]
        simp
      rw [hlast last hl, hlog _ _ hentry, hfront]
      simp
      omega

/-- The cursor at which a page leaves the enumeration. -/
theorem readPage_delivers (hlog : Numbered point log) {p : Nat} {cursor : DriveEventId}
    {events events' : List DriveEvent} {page : VolumeEventListResponse}
    {next : Option DriveEventId}
    (hsofar : Delivers volumeId point log p events (point cursor))
    (hpage : Answers point log cursor page)
    (h : readPage volumeId cursor events page = .ok (events', next)) :
    ∃ q, Delivers volumeId point log p events' q ∧ ∀ c ∈ next, point c = q := by
  unfold readPage at h
  split at h
  · next hrefresh =>
    -- A refresh: the one event of this page says that continuity is lost.
    cases h
    exact ⟨_, hsofar.append (delivers_singleton ⟨rfl, hpage.1 hrefresh⟩), nofun⟩
  · next hfresh =>
    have hfresh : page.refreshRequired = false := by simpa using hfresh
    obtain ⟨hinitial, hempty, -⟩ := hpage.2 hfresh
    have hend := hpage.point_lastEventId hlog hfresh
    split at h
    · next hnil =>
      split at h
      · cases h
        refine ⟨_, hsofar.append (delivers_singleton ⟨?_, rfl⟩), nofun⟩
        -- An empty first page gives the id of the head, which moves nobody on.
        exact hempty (List.isEmpty_iff.mp hnil)
      · cases h
        exact ⟨_, hsofar, nofun⟩
    · obtain ⟨converted, hconverted, h⟩ := Except.bind_eq_ok.mp h
      have hall := hsofar.append (toDriveEvents_delivers hinitial hconverted)
      split at h
      · cases h
        refine ⟨_, hall, ?_⟩
        intro c hc
        cases hc
        exact hend
      · cases h
        exact ⟨_, hall, nofun⟩

end Log

end Events

end ProtonDrive
