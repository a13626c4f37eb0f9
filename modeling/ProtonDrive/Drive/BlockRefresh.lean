import ProtonDrive.Lib.Renewal
import ProtonDrive.Drive.BlockTargets

/-!
# Refreshing a block table

The calls of `ciphertext` that share a `BlockTargets`, in every order of their steps: where a call
reads the table, waits for the `refresh` lock, looks at the generation, lists the revision, and puts
the new blocks into the table, others may go on in between. A call may be dropped at any point.

The table is a shared thing that is renewed, and its generation is the version.

* `step_refines` — the calls are users of such a thing.
* `refreshedOnce` — no generation is listed again twice, and what else holds in every run.
* `large_refines` — the calls of a download, which take larger steps, are such calls too.
-/

namespace ProtonDrive.BlockRefresh

open OpenPgp (Bytes)
open Content (BlockDto BlockTargets orderBlocks orderBlocks_eq_ok missingBlock changedBlockCount
  isExpiredBlockUrl)

/-- Where a call is. From `locked` to `writing` it holds the `refresh` lock. -/
inductive Phase where
  | idle
  /-- Waits for the blob that the table of this generation has led to. -/
  | fetching (url token : String) (generation : Nat)
  /-- The URL has expired. -/
  | expired (generation : Nat)
  | locked (generation : Nat)
  | listing (generation : Nat)
  /-- Waits for the table, to put the new blocks in. -/
  | writing (generation : Nat) (blocks : List BlockDto)
  /-- `refresh` has returned. -/
  | refreshed (generation : Nat)
  | refetching (url token : String)
  | done (result : Except ProtonError Bytes)
  | dropped
  deriving Repr

structure State (ι : Type) where
  targets : BlockTargets
  calls : ι → Phase
  /-- Newest first; the versions are the generations of the table. -/
  log : List (Renewal.Event ι)

inductive Action (ι : Type) where
  | locate (i : ι)
  | answer (i : ι) (reply : Except ProtonError Bytes)
  | lock (i : ι)
  | check (i : ι)
  /-- What the pages of the listing have brought. -/
  | listed (i : ι) (reply : Except ProtonError (List BlockDto))
  | write (i : ι)
  | drop (i : ι)

/-- The storage URL and token of a block, and the generation of the table they come from. -/
def location (t : BlockTargets) (index : Nat) : Except ProtonError (String × String × Nat) :=
  match t.blocks[index]? with
  | none => .error (missingBlock index t.revisionId)
  | some block => .ok (block.bareUrl, block.token, t.generation)

variable {ι : Type} [DecidableEq ι]

def State.enter (s : State ι) (i : ι) (p : Phase) : State ι :=
  { s with calls := Function.update s.calls i p }

def State.note (s : State ι) (e : Renewal.Event ι) : State ι := { s with log := e :: s.log }

def State.release (s : State ι) : State ι :=
  { s with targets := { s.targets with refreshing := false } }

def State.finish (s : State ι) (i : ι) (result : Except ProtonError Bytes) : State ι :=
  s.enter i (.done result)

/-- The end of a listing: only a table with as many blocks as expected is taken. -/
def State.listed (s : State ι) (i : ι) (generation : Nat)
    (reply : Except ProtonError (List BlockDto)) : State ι :=
  match reply.bind orderBlocks with
  | .error e => (s.finish i (.error e)).release
  | .ok blocks =>
      if blocks.length ≠ s.targets.expectedBlocks then
        (s.finish i (.error (changedBlockCount s.targets.revisionId s.targets.expectedBlocks
          blocks.length))).release
      else (s.enter i (.writing generation blocks)).note (.minted i generation)

/-- A dropped call lets go of the lock. -/
def State.drop (s : State ι) (i : ι) : State ι :=
  let s' := s.enter i .dropped
  match s.calls i with
  | .locked _ => s'.release
  | .listing _ => s'.release
  | .writing generation _ => (s'.note (.lost i generation)).release
  | _ => s'

/-- A step of a call; `index i` is the position of the block that call `i` asks for. -/
def step (index : ι → Nat) (s : State ι) : Action ι → Option (State ι)
  | .locate i =>
      match s.calls i with
      | .idle =>
          match location s.targets (index i) with
          | .error e => some (s.finish i (.error e))
          | .ok (url, token, generation) =>
              some ((s.enter i (.fetching url token generation)).note (.used i generation))
      | .refreshed _ =>
          match location s.targets (index i) with
          | .error e => some (s.finish i (.error e))
          | .ok (url, token, generation) =>
              some ((s.enter i (.refetching url token)).note (.used i generation))
      | _ => none
  | .answer i reply =>
      match s.calls i with
      | .fetching _ _ generation =>
          match reply with
          | .ok bytes => some (s.finish i (.ok bytes))
          | .error e =>
              if isExpiredBlockUrl e then some (s.enter i (.expired generation))
              else some (s.finish i (.error e))
      | .refetching _ _ => some (s.finish i reply)
      | _ => none
  | .lock i =>
      match s.calls i with
      | .expired generation =>
          if s.targets.refreshing then none
          else some { s.enter i (.locked generation) with
            targets := { s.targets with refreshing := true } }
      | _ => none
  | .check i =>
      match s.calls i with
      | .locked generation =>
          -- Someone else refreshed while the call waited.
          if s.targets.generation ≠ generation then some (s.enter i (.refreshed generation)).release
          else some ((s.enter i (.listing generation)).note (.attempted i generation))
      | _ => none
  | .listed i reply =>
      match s.calls i with
      | .listing generation => some (s.listed i generation reply)
      | _ => none
  | .write i =>
      match s.calls i with
      | .writing generation blocks =>
          some { (s.enter i (.refreshed generation)).note (.replaced i generation) with
            targets := { s.targets with
              blocks := blocks
              generation := s.targets.generation + 1
              refreshing := false } }
      | _ => none
  | .drop i =>
      match s.calls i with
      | .done _ => none
      | .dropped => none
      | _ => some (s.drop i)

def calls (index : ι → Nat) : Machine (State ι) (Action ι) := ⟨step index⟩

/-- The table as it was first listed, and no call has begun. -/
def start (revisionId : String) (blocks : List BlockDto) (expectedBlocks : Nat) : State ι where
  targets := .new revisionId blocks expectedBlocks
  calls := fun _ => .idle
  log := []

/-- A call, as a user of the table. -/
def Phase.user : Phase → Renewal.Phase
  | .idle => .idle
  | .fetching _ _ generation => .used generation
  | .expired generation => .waiting generation
  | .locked generation => .holding generation
  | .listing generation => .minting generation
  | .writing generation _ => .minted generation
  | .refreshed generation => .renewed generation
  | .refetching _ _ => .ended
  | .done _ => .ended
  | .dropped => .ended

def State.renewal (s : State ι) : Renewal.State ι where
  version := s.targets.generation
  locked := s.targets.refreshing
  phase := fun i => (s.calls i).user
  log := s.log

/-! ## What a step does -/

section Cases

variable {index : ι → Nat} {s t : State ι}

/-- `step`, one constructor for each thing that can happen. -/
inductive Step (index : ι → Nat) (s : State ι) : Action ι → State ι → Prop where
  | locate {i url token} (hi : s.calls i = .idle)
      (hlocation : location s.targets (index i) = .ok (url, token, s.targets.generation)) :
      Step index s (.locate i)
        ((s.enter i (.fetching url token s.targets.generation)).note
          (.used i s.targets.generation))
  | relocate {i url token g} (hi : s.calls i = .refreshed g)
      (hlocation : location s.targets (index i) = .ok (url, token, s.targets.generation)) :
      Step index s (.locate i)
        ((s.enter i (.refetching url token)).note (.used i s.targets.generation))
  | noBlock {i p e} (hi : s.calls i = p) (hp : p.user.holds = false)
      (hlocation : location s.targets (index i) = .error e) :
      Step index s (.locate i) (s.finish i (.error e))
  | answer {i p reply} (hi : s.calls i = p) (hp : p.user.holds = false) :
      Step index s (.answer i reply) (s.finish i reply)
  | expire {i url token g e} (hi : s.calls i = .fetching url token g)
      (he : isExpiredBlockUrl e = true) :
      Step index s (.answer i (.error e)) (s.enter i (.expired g))
  | lock {i g} (hi : s.calls i = .expired g) (hfree : s.targets.refreshing = false) :
      Step index s (.lock i) { s.enter i (.locked g) with
        targets := { s.targets with refreshing := true } }
  | renewed {i g} (hi : s.calls i = .locked g) (hne : s.targets.generation ≠ g) :
      Step index s (.check i) (s.enter i (.refreshed g)).release
  | attempt {i g} (hi : s.calls i = .locked g) (heq : s.targets.generation = g) :
      Step index s (.check i) ((s.enter i (.listing g)).note (.attempted i g))
  | listed {i g reply} (hi : s.calls i = .listing g) :
      Step index s (.listed i reply) (s.listed i g reply)
  | write {i g blocks} (hi : s.calls i = .writing g blocks) :
      Step index s (.write i) { (s.enter i (.refreshed g)).note (.replaced i g) with
        targets := { s.targets with
          blocks := blocks
          generation := s.targets.generation + 1
          refreshing := false } }
  | drop {i} : Step index s (.drop i) (s.drop i)

omit [DecidableEq ι] in
theorem location_eq_ok {t : BlockTargets} {position generation : Nat} {url token : String}
    (h : location t position = .ok (url, token, generation)) : generation = t.generation := by
  unfold location at h
  split at h
  · cases h
  · cases h
    rfl

theorem step_cases {a : Action ι} (h : step index s a = some t) : Step index s a t := by
  cases a with
  | locate i =>
      simp only [step] at h
      split at h
      · next hi =>
        split at h
        · next hlocation => cases h; exact .noBlock hi rfl hlocation
        · next hlocation =>
          cases h
          obtain rfl := location_eq_ok hlocation
          exact .locate hi hlocation
      · next hi =>
        split at h
        · next hlocation => cases h; exact .noBlock hi rfl hlocation
        · next hlocation =>
          cases h
          obtain rfl := location_eq_ok hlocation
          exact .relocate hi hlocation
      · cases h
  | answer i reply =>
      simp only [step] at h
      split at h
      · next hi =>
        split at h
        · cases h; exact .answer hi rfl
        · split at h
          · -- An expired link asks for a new table once only.
            next he => cases h; exact .expire hi he
          · cases h; exact .answer hi rfl
      · next hi => cases h; exact .answer hi rfl
      · cases h
  | lock i =>
      simp only [step] at h
      split at h
      · next hi =>
        split at h
        · cases h
        · next hfree => cases h; exact .lock hi (Bool.eq_false_iff.mpr hfree)
      · cases h
  | check i =>
      simp only [step] at h
      split at h
      · next hi =>
        split at h
        · next hne => cases h; exact .renewed hi hne
        · next heq => cases h; exact .attempt hi (not_not.mp heq)
      · cases h
  | listed i reply =>
      simp only [step] at h
      split at h <;> cases h
      exact .listed ‹_›
  | write i =>
      simp only [step] at h
      split at h <;> cases h
      exact .write ‹_›
  | drop i =>
      simp only [step] at h
      split at h <;> cases h
      exact .drop

end Cases

/-! ## The table is renewed -/

section Refinement

variable {index : ι → Nat} {s t : State ι} {i : ι}

@[simp] theorem renewal_enter (i : ι) (p : Phase) :
    (s.enter i p).renewal = s.renewal.enter i p.user := by
  have hphase : (fun j => (Function.update s.calls i p j).user) =
      Function.update (fun j => (s.calls j).user) i p.user := Function.comp_update Phase.user _ _ _
  simp only [State.enter, State.renewal, Renewal.State.enter, hphase]

omit [DecidableEq ι] in
@[simp] theorem renewal_note (e : Renewal.Event ι) : (s.note e).renewal = s.renewal.note e := rfl

omit [DecidableEq ι] in
@[simp] theorem renewal_release : s.release.renewal = s.renewal.release := rfl

omit [DecidableEq ι] in
theorem renewal_phase {p : Phase} (hi : s.calls i = p) : s.renewal.phase i = p.user :=
  congrArg Phase.user hi

/-- A call that ends without the lock. -/
theorem stops {p : Phase} (hi : s.calls i = p) (hp : p.user.holds = false) (q : Phase)
    (hq : q.user = .ended) :
    ∃ bs, Renewal.renewals.exec s.renewal bs = some (s.enter i q).renewal := by
  rw [renewal_enter, hq]
  apply Renewal.exec_stop_free
  rwa [renewal_phase hi]

/-- A call that ends in the middle of a listing lets go of the lock. -/
theorem stops_listing {generation : Nat} (hi : s.calls i = .listing generation) (q : Phase)
    (hq : q.user = .ended) :
    ∃ bs, Renewal.renewals.exec s.renewal bs = some (s.enter i q).release.renewal := by
  rw [renewal_release, renewal_enter, hq]
  exact Renewal.exec_stop_holding (.inr (renewal_phase hi))

theorem listed_refines {generation : Nat} (hi : s.calls i = .listing generation)
    (reply : Except ProtonError (List BlockDto)) :
    ∃ bs, Renewal.renewals.exec s.renewal bs = some (s.listed i generation reply).renewal := by
  unfold State.listed
  split
  · exact stops_listing hi _ rfl
  · split
    · exact stops_listing hi _ rfl
    · rw [renewal_note, renewal_enter]
      exact (Renewal.Step.mint (renewal_phase hi)).exec

theorem drop_refines : ∃ bs, Renewal.renewals.exec s.renewal bs = some (s.drop i).renewal := by
  unfold State.drop
  dsimp only
  cases hi : s.calls i with
  | locked g =>
      rw [renewal_release, renewal_enter]
      exact Renewal.exec_stop_holding (.inl (renewal_phase hi))
  | listing g => exact stops_listing hi _ rfl
  | writing g blocks =>
      rw [renewal_release, renewal_note, renewal_enter]
      exact Renewal.exec_stop_minted (renewal_phase hi)
  | idle => exact stops hi rfl _ rfl
  | fetching url token g => exact stops hi rfl _ rfl
  | expired g => exact stops hi rfl _ rfl
  | refreshed g => exact stops hi rfl _ rfl
  | refetching url token => exact stops hi rfl _ rfl
  | done result => exact stops hi rfl _ rfl
  | dropped => exact stops hi rfl _ rfl

/-- **The calls of a table are users of something that is renewed.** -/
theorem step_refines {a : Action ι} (h : step index s a = some t) :
    ∃ bs, Renewal.renewals.exec s.renewal bs = some t.renewal := by
  cases step_cases h with
  -- The block's link is used at the version of the table that is in place.
  | locate hi _ =>
      rw [renewal_note, renewal_enter]
      exact (Renewal.Step.use (renewal_phase hi)).exec
  | relocate hi _ =>
      rw [renewal_note, renewal_enter]
      exact (Renewal.Step.reuse (renewal_phase hi)).exec
  | noBlock hi hp _ => exact stops hi hp _ rfl
  | answer hi hp => exact stops hi hp _ rfl
  | expire hi _ =>
      rw [renewal_enter]
      exact (Renewal.Step.wantAfter (renewal_phase hi)).exec
  -- The write lock of the source is the lock of the renewal.
  | @lock i g hi hfree =>
      show ∃ bs, Renewal.renewals.exec s.renewal bs =
        some { (s.enter i (.locked g)).renewal with locked := true }
      rw [renewal_enter]
      exact (Renewal.Step.acquire (renewal_phase hi) hfree).exec
  | renewed hi hne =>
      rw [renewal_release, renewal_enter]
      exact (Renewal.Step.renewed (renewal_phase hi) hne).exec
  | attempt hi heq =>
      rw [renewal_note, renewal_enter]
      exact (Renewal.Step.attempt (renewal_phase hi) heq).exec
  | listed hi => exact listed_refines hi _
  -- The new table is written and the lock given back in one step.
  | @write i g blocks hi =>
      show ∃ bs, Renewal.renewals.exec s.renewal bs =
        some { ((s.enter i (.refreshed g)).note (.replaced i g)).renewal with
          version := s.renewal.version + 1
          locked := false }
      rw [renewal_note, renewal_enter]
      exact (Renewal.Step.install (renewal_phase hi)).exec
  | drop => exact drop_refines

end Refinement

/-! ## The table -/

section Table

variable {index : ι → Nat} {s t : State ι}

/-- The table is sound, and so is every table that waits to be put in its place. -/
structure TableInv (expectedBlocks : Nat) (s : State ι) : Prop where
  sound : s.targets.Sound
  expected : s.targets.expectedBlocks = expectedBlocks
  writing : ∀ i generation blocks, s.calls i = .writing generation blocks →
    Content.Ordered blocks ∧ blocks.length = expectedBlocks

/-- A call moves on, and the blocks stay what they are. -/
theorem TableInv.enter {expectedBlocks : Nat} (h : TableInv expectedBlocks s) {i : ι} {p : Phase}
    (hcalls : t.calls = Function.update s.calls i p)
    (hblocks : t.targets.blocks = s.targets.blocks)
    (hexpected : t.targets.expectedBlocks = s.targets.expectedBlocks)
    (hp : ∀ generation blocks, p = .writing generation blocks →
      Content.Ordered blocks ∧ blocks.length = expectedBlocks) : TableInv expectedBlocks t where
  sound := by
    refine ⟨?_, ?_⟩
    · rw [hblocks]
      exact h.sound.ordered
    · rw [hblocks, hexpected]
      exact h.sound.length_eq
  expected := hexpected.trans h.expected
  writing := by
    intro j generation blocks hj
    rw [hcalls, Function.update_apply] at hj
    split at hj
    · exact hp generation blocks hj
    · exact h.writing j generation blocks hj

theorem TableInv.listed {expectedBlocks : Nat} (h : TableInv expectedBlocks s) (i : ι)
    (generation : Nat) (reply : Except ProtonError (List BlockDto)) :
    TableInv expectedBlocks (s.listed i generation reply) := by
  unfold State.listed
  split
  · exact h.enter rfl rfl rfl nofun
  · next blocks hreply =>
    split
    · exact h.enter rfl rfl rfl nofun
    · next hlength =>
      refine h.enter rfl rfl rfl ?_
      intro generation' blocks' hp
      cases hp
      obtain ⟨collected, -, horder⟩ := Except.bind_eq_ok.mp hreply
      exact ⟨(orderBlocks_eq_ok horder).1, (not_not.mp hlength).trans h.expected⟩

theorem TableInv.drop {expectedBlocks : Nat} (h : TableInv expectedBlocks s) (i : ι) :
    TableInv expectedBlocks (s.drop i) := by
  unfold State.drop
  dsimp only
  split <;> exact h.enter rfl rfl rfl nofun

theorem TableInv.step {expectedBlocks : Nat} {a : Action ι} (h : TableInv expectedBlocks s)
    (hstep : step index s a = some t) : TableInv expectedBlocks t := by
  cases step_cases hstep with
  | listed hi => exact h.listed _ _ _
  | drop => exact h.drop _
  | @write i generation blocks hi =>
      obtain ⟨hordered, hlength⟩ := h.writing i generation blocks hi
      refine ⟨⟨hordered, hlength.trans h.expected.symm⟩, h.expected, ?_⟩
      intro j generation' blocks' hj
      simp only [State.enter, State.note, Function.update_apply] at hj
      split at hj
      · cases hj
      · exact h.writing j generation' blocks' hj
  | _ => exact h.enter rfl rfl rfl nofun

/-- A listing that fails, or brings another number of blocks, ends its call and changes nothing. -/
theorem listed_fails {i : ι} {reply : Except ProtonError (List BlockDto)}
    (hstep : step index s (.listed i reply) = some t)
    (hbad : ∀ blocks, reply.bind orderBlocks = .ok blocks →
      blocks.length ≠ s.targets.expectedBlocks) :
    (∃ e, t.calls i = .done (.error e)) ∧ t.targets.blocks = s.targets.blocks ∧
      t.targets.generation = s.targets.generation := by
  cases step_cases hstep with
  | listed hi =>
      unfold State.listed
      split
      · next e _ => exact ⟨⟨e, Function.update_self _ _ _⟩, rfl, rfl⟩
      · next blocks hreply =>
        rw [if_pos (hbad blocks hreply)]
        exact ⟨⟨_, Function.update_self _ _ _⟩, rfl, rfl⟩

/-- Only a dropped call loses a listing. -/
theorem step_losses {a : Action ι} (hstep : step index s a = some t) (ha : ∀ i, a ≠ .drop i)
    (g : Nat) : Renewal.losses t.log g = Renewal.losses s.log g := by
  cases step_cases hstep with
  | listed hi =>
      unfold State.listed
      split
      · rfl
      · split <;> rfl
  | drop => exact absurd rfl (ha _)
  | _ => rfl

end Table

/-! ## Runs -/

section Runs

variable {index : ι → Nat} {revisionId : String} {blocks : List BlockDto} {expectedBlocks : Nat}

omit [DecidableEq ι] in
theorem start_renewal :
    (start revisionId blocks expectedBlocks : State ι).renewal = Renewal.start :=
  rfl

theorem run_inv {as : List (Action ι)} {s : State ι}
    (h : (calls index).exec (start revisionId blocks expectedBlocks) as = some s) :
    Renewal.Inv s.renewal := by
  obtain ⟨bs, hbs⟩ := Machine.exec_refines (N := Renewal.renewals) _ State.renewal
    (fun hstep => step_refines hstep) h
  rw [start_renewal] at hbs
  exact Renewal.run_inv Renewal.inv_start hbs

theorem run_losses {as : List (Action ι)} {s : State ι}
    (h : (calls index).exec (start revisionId blocks expectedBlocks) as = some s)
    (has : ∀ a ∈ as, ∀ i, a ≠ .drop i) (g : Nat) : Renewal.losses s.log g = 0 := by
  have halong : (calls index).Along (fun _ a => ∀ i, a ≠ .drop i)
      (start revisionId blocks expectedBlocks) as := Machine.along_of_mem _ _ has
  exact Machine.exec_invariant_along _ (fun s => Renewal.losses s.log g = 0)
    (fun ha hs hstep => (step_losses hstep ha g).trans hs) halong rfl h

/-- What a run from the first table has come to. -/
structure RefreshedOnce (index : ι → Nat) (as : List (Action ι)) (expectedBlocks : Nat)
    (s : State ι) : Prop where
  /-- A generation is listed again successfully once; after that it has been replaced, unless the
  call that had listed it was dropped. -/
  listed_once : (∀ a ∈ as, ∀ i, a ≠ .drop i) → ∀ g, Renewal.mints s.log g ≤ 1
  listed_lost : ∀ g, Renewal.mints s.log g ≤ 1 + Renewal.losses s.log g
  replaced_once : ∀ g, Renewal.replacements s.log g ≤ 1
  generation_le : ∀ bs t, (calls index).exec s bs = some t →
    s.targets.generation ≤ t.targets.generation
  length_eq : s.targets.blocks.length = expectedBlocks
  ordered : ∀ (i : Nat) (b : BlockDto), s.targets.blocks[i]? = some b → b.index = (i : Int) + 1
  lists : ∀ i, Renewal.attempts s.log i ≤ 1
  /-- At most two fetches, and the second one from a newer table. -/
  fetches : ∀ i, Renewal.UsesOk (Renewal.uses s.log i)
  failed_keeps : ∀ i reply t, step index s (.listed i reply) = some t →
    (∀ blocks, reply.bind orderBlocks = .ok blocks → blocks.length ≠ expectedBlocks) →
    (∃ e, t.calls i = .done (.error e)) ∧ t.targets.blocks = s.targets.blocks ∧
      t.targets.generation = s.targets.generation

/-- **Every table is listed again at most once**, whatever the calls do, and in whatever order. -/
theorem refreshedOnce (index : ι → Nat) (revisionId : String) {collected blocks : List BlockDto}
    {expectedBlocks : Nat} (hlisted : orderBlocks collected = .ok blocks)
    (hlength : blocks.length = expectedBlocks) (as : List (Action ι)) (s : State ι)
    (h : (calls index).exec (start revisionId blocks expectedBlocks) as = some s) :
    RefreshedOnce index as expectedBlocks s := by
  have hinv := run_inv h
  have hstart : TableInv expectedBlocks (start revisionId blocks expectedBlocks : State ι) := by
    refine ⟨⟨(orderBlocks_eq_ok hlisted).1, hlength⟩, rfl, ?_⟩
    intro i generation blocks' hi
    cases hi
  have htable : TableInv expectedBlocks s :=
    Machine.exec_invariant _ (TableInv expectedBlocks) (fun hs hstep => hs.step hstep) hstart h
  constructor
  -- Without drops no listing is lost, so no generation is listed twice.
  case listed_once =>
    intro has g
    have hle := hinv.mints_le g
    have hlost : Renewal.losses s.renewal.log g = 0 := run_losses h has g
    rw [hlost] at hle
    exact hle
  case listed_lost => exact hinv.mints_le
  case replaced_once => exact hinv.replaced_le
  -- The generation is the version of the renewal, which only grows.
  case generation_le =>
    intro bs t ht
    obtain ⟨cs, hcs⟩ := Machine.exec_refines (N := Renewal.renewals) _ State.renewal
      (fun hstep => step_refines hstep) ht
    exact Renewal.run_version_le hcs
  case length_eq => exact htable.sound.length_eq.trans htable.expected
  case ordered => exact htable.sound.ordered
  case lists => exact hinv.attempts_le
  case fetches => exact hinv.uses_ok
  case failed_keeps =>
    intro i reply t hstep hbad
    apply listed_fails hstep
    rw [htable.expected]
    exact hbad

end Runs

/-! ## Calls in larger steps

In a download a call takes the lock and looks at the generation in one step, and takes what was
listed into the table in the step in which it hears of it. -/

section Large

open Content (FetchCall CallAction callStep)

inductive Matches : FetchCall → Phase → Prop where
  | idle : Matches .idle .idle
  | first (block : BlockDto) (generation : Nat) :
      Matches (.fetching block generation false) (.fetching block.bareUrl block.token generation)
  | second (block : BlockDto) (generation : Nat) :
      Matches (.fetching block generation true) (.refetching block.bareUrl block.token)
  | expired (generation : Nat) : Matches (.expired generation) (.expired generation)
  | listing (generation : Nat) : Matches .listing (.listing generation)
  | refreshed (generation : Nat) : Matches .refreshed (.refreshed generation)
  | done (result : Except ProtonError Bytes) : Matches (.done result) (.done result)

/-- The calls that share a table, each in the steps of `callStep`. -/
def largeCalls (index : ι → Nat) :
    Machine (BlockTargets × (ι → FetchCall)) (ι × CallAction) where
  step p a := (callStep p.1 (index a.1) (p.2 a.1) a.2).map
    (fun q => (q.1, Function.update p.2 a.1 q.2))

structure Large (p : BlockTargets × (ι → FetchCall)) (s : State ι) : Prop where
  targets : s.targets = p.1
  matched : ∀ i, Matches (p.2 i) (s.calls i)

variable {index : ι → Nat} {p q : BlockTargets × (ι → FetchCall)} {s t : State ι}

theorem Large.enter (h : Large p s) {i : ι} {c : FetchCall} {phase : Phase}
    {targets : BlockTargets} (hcalls : t.calls = Function.update s.calls i phase)
    (htargets : t.targets = targets) (hc : Matches c phase) :
    Large (targets, Function.update p.2 i c) t := by
  refine ⟨htargets, ?_⟩
  intro j
  show Matches (Function.update p.2 i c j) (t.calls j)
  rw [hcalls]
  by_cases hj : j = i
  · subst hj
    rw [Function.update_self, Function.update_self]
    exact hc
  · rw [Function.update_of_ne hj, Function.update_of_ne hj]
    exact h.matched j

omit [DecidableEq ι] in
/-- A lock that was free is free again. -/
theorem targets_release (htargets : t.targets = { p.1 with refreshing := true })
    (hfree : p.1.refreshing = false) : t.release.targets = p.1 := by
  show { t.targets with refreshing := false } = p.1
  rw [htargets]
  show { p.1 with refreshing := false } = p.1
  rw [← hfree]

theorem Large.locate (h : Large p s) {i : ι} {retried : Bool}
    (hi : (p.2 i = .idle ∧ retried = false) ∨ (p.2 i = .refreshed ∧ retried = true)) :
    ∃ t, step index s (.locate i) = some t ∧
      Large (p.1, Function.update p.2 i (p.1.locate (index i) retried)) t := by
  have hmatch := h.matched i
  unfold BlockTargets.locate
  rcases hi with ⟨hi, rfl⟩ | ⟨hi, rfl⟩ <;> rw [hi] at hmatch <;>
    generalize hphase : s.calls i = phase at hmatch <;> cases hmatch <;>
    simp only [step, hphase, location, h.targets]
  · cases p.1.blocks[index i]? with
    | none => exact ⟨_, rfl, h.enter rfl h.targets (.done _)⟩
    | some block => exact ⟨_, rfl, h.enter rfl h.targets (.first block _)⟩
  · cases p.1.blocks[index i]? with
    | none => exact ⟨_, rfl, h.enter rfl h.targets (.done _)⟩
    | some block => exact ⟨_, rfl, h.enter rfl h.targets (.second block _)⟩

theorem Large.answer (h : Large p s) {i : ι} {block : BlockDto} {generation : Nat} {retried : Bool}
    (hi : p.2 i = .fetching block generation retried) (reply : Except ProtonError Bytes) :
    ∃ c t, callStep p.1 (index i) (p.2 i) (.answer reply) = some (p.1, c) ∧
      step index s (.answer i reply) = some t ∧ Large (p.1, Function.update p.2 i c) t := by
  have hmatch := h.matched i
  rw [hi] at hmatch ⊢
  generalize hphase : s.calls i = phase at hmatch
  cases hmatch with
  | first =>
      cases reply with
      | ok bytes =>
          simp only [step, hphase]
          exact ⟨_, _, rfl, rfl, h.enter rfl h.targets (.done _)⟩
      | error e =>
          by_cases hexpired : isExpiredBlockUrl e
          · simp only [step, hphase, callStep, hexpired]
            exact ⟨_, _, rfl, rfl, h.enter rfl h.targets (.expired _)⟩
          · simp only [step, hphase, callStep, hexpired]
            exact ⟨_, _, rfl, rfl, h.enter rfl h.targets (.done _)⟩
  | second =>
      -- The second answer is the call's, whatever it is.
      simp only [step, hphase]
      cases reply with
      | ok bytes => exact ⟨_, _, rfl, rfl, h.enter rfl h.targets (.done _)⟩
      | error e => exact ⟨_, _, rfl, rfl, h.enter rfl h.targets (.done _)⟩

/-- The lock, and the look at the generation. -/
theorem Large.lock (h : Large p s) {i : ι} {seen : Nat} (hi : p.2 i = .expired seen)
    (hfree : p.1.refreshing = false) :
    ∃ q t, callStep p.1 (index i) (p.2 i) .lock = some q ∧
      (calls index).exec s [.lock i, .check i] = some t ∧
      Large (q.1, Function.update p.2 i q.2) t := by
  have hmatch := h.matched i
  rw [hi] at hmatch ⊢
  generalize hphase : s.calls i = phase at hmatch
  cases hmatch
  let locked : State ι :=
    { s.enter i (.locked seen) with targets := { s.targets with refreshing := true } }
  have hlock : step index s (.lock i) = some locked := by
    have hfree' : s.targets.refreshing = false := by rw [h.targets, hfree]
    simp only [step, hphase, hfree', locked]
    rfl
  have hlocked : locked.calls i = .locked seen := Function.update_self ..
  have hcalls : ∀ phase, Function.update locked.calls i phase = Function.update s.calls i phase :=
    fun phase => Function.update_idem ..
  have htargets : locked.targets = { p.1 with refreshing := true } := by
    rw [← h.targets]
  have hcheck : ∀ t, step index locked (.check i) = some t →
      (calls index).exec s [.lock i, .check i] = some t :=
    fun t ht => (Machine.exec_cons_iff _).mpr ⟨locked, hlock, Machine.exec_singleton _ ht⟩
  -- The table is compared under the lock: it is listed again only if nobody has done so meanwhile.
  by_cases hgeneration : p.1.generation = seen
  · refine ⟨({ p.1 with refreshing := true }, .listing),
      (locked.enter i (.listing seen)).note (.attempted i seen), ?_, hcheck _ ?_,
      h.enter (hcalls _) htargets (.listing seen)⟩
    · simp [callStep, hfree, hgeneration]
    · simp [step, hlocked, htargets, hgeneration]
  · refine ⟨(p.1, .refreshed), (locked.enter i (.refreshed seen)).release, ?_, hcheck _ ?_,
      h.enter (hcalls _) (targets_release htargets hfree) (.refreshed seen)⟩
    · simp [callStep, hfree, hgeneration]
    · simp [step, hlocked, htargets, hgeneration]

/-- What was listed, and the write to the table if it is taken. -/
theorem Large.install (h : Large p s) {i : ι} (hi : p.2 i = .listing)
    (reply : Except ProtonError (List BlockDto)) :
    ∃ bs t, (calls index).exec s bs = some t ∧
      Large ((p.1.install reply).1, Function.update p.2 i (p.1.install reply).2) t := by
  have hmatch := h.matched i
  rw [hi] at hmatch
  generalize hphase : s.calls i = phase at hmatch
  cases hmatch with
  | listing generation =>
      have hlisted : step index s (.listed i reply) = some (s.listed i generation reply) := by
        simp only [step, hphase]
      unfold BlockTargets.install
      cases hblocks : reply.bind orderBlocks with
      -- The listing or its order failed, and the table stays.
      | error e =>
          refine ⟨[.listed i reply], _, Machine.exec_singleton _ hlisted, ?_⟩
          simp only [State.listed, hblocks]
          refine h.enter rfl ?_ (.done _)
          rw [← h.targets]
          rfl
      | ok blocks =>
          -- The source takes over a new table only if it has as many blocks as the old one.
          by_cases hlength : blocks.length = p.1.expectedBlocks
          · have hwriting : (s.listed i generation reply).calls i = .writing generation blocks := by
              simp [State.listed, hblocks, h.targets, hlength, State.enter, State.note]
            have hcalls : ∀ phase, Function.update (s.listed i generation reply).calls i phase =
                Function.update s.calls i phase := by
              intro phase
              simp [State.listed, hblocks, h.targets, hlength, State.enter, State.note]
            have hwrite := show step index (s.listed i generation reply) (.write i) = some _ by
              simp only [step, hwriting]
              rfl
            refine ⟨[.listed i reply, .write i], _,
              (Machine.exec_cons_iff _).mpr ⟨_, hlisted, Machine.exec_singleton _ hwrite⟩, ?_⟩
            simp only [hlength, ne_eq, not_true_eq_false, if_false]
            refine h.enter (hcalls _) ?_ (.refreshed generation)
            simp [State.listed, hblocks, h.targets, hlength, State.enter, State.note]
          · refine ⟨[.listed i reply], _, Machine.exec_singleton _ hlisted, ?_⟩
            simp only [State.listed, hblocks, h.targets, hlength, ne_eq, not_false_eq_true, if_true]
            refine h.enter rfl ?_ (.done _)
            rw [← h.targets]
            rfl

/-- Each step is one or two of the calls that share the table. -/
theorem largeStep_refines {a : ι × CallAction} (h : Large p s)
    (hstep : (largeCalls index).step p a = some q) :
    ∃ bs t, (calls index).exec s bs = some t ∧ Large q t := by
  obtain ⟨i, a⟩ := a
  obtain ⟨⟨targets, c⟩, hcall, rfl⟩ := Option.map_eq_some_iff.mp hstep
  dsimp only at hcall ⊢
  cases a with
  | locate =>
      generalize hi : p.2 i = before at hcall
      cases before <;> cases hcall
      · obtain ⟨t, ht, hlarge⟩ := h.locate (.inl ⟨hi, rfl⟩)
        exact ⟨[.locate i], t, Machine.exec_singleton _ ht, hlarge⟩
      · obtain ⟨t, ht, hlarge⟩ := h.locate (.inr ⟨hi, rfl⟩)
        exact ⟨[.locate i], t, Machine.exec_singleton _ ht, hlarge⟩
  | answer reply =>
      obtain ⟨block, generation, retried, hi⟩ :
          ∃ block generation retried, p.2 i = .fetching block generation retried := by
        generalize p.2 i = before at hcall
        cases before <;> first | exact ⟨_, _, _, rfl⟩ | cases hcall
      obtain ⟨c', t, hcall', ht, hlarge⟩ := h.answer hi reply
      rw [hcall] at hcall'
      cases hcall'
      exact ⟨[.answer i reply], t, Machine.exec_singleton _ ht, hlarge⟩
  -- Locking and comparing are one step here and two there.
  | lock =>
      obtain ⟨seen, hi⟩ : ∃ seen, p.2 i = .expired seen := by
        generalize p.2 i = before at hcall
        cases before <;> first | exact ⟨_, rfl⟩ | cases hcall
      have hfree : p.1.refreshing = false := by
        cases hlocked : p.1.refreshing with
        | false => rfl
        | true => simp [callStep, hi, hlocked] at hcall
      obtain ⟨q', t, hcall', ht, hlarge⟩ := h.lock hi hfree
      rw [hcall] at hcall'
      cases hcall'
      exact ⟨_, t, ht, hlarge⟩
  | listed reply =>
      have hi : p.2 i = .listing := by
        generalize p.2 i = before at hcall
        cases before <;> first | rfl | cases hcall
      rw [hi] at hcall
      have hinstall : p.1.install reply = (targets, c) := Option.some.inj hcall
      obtain ⟨bs, t, ht, hlarge⟩ := h.install hi reply
      rw [hinstall] at hlarge
      exact ⟨bs, t, ht, hlarge⟩

/-- The calls of a download are calls that share a table. -/
theorem large_refines {as : List (ι × CallAction)} (h : Large p s)
    (hrun : (largeCalls index).exec p as = some q) :
    ∃ bs t, (calls index).exec s bs = some t ∧ Large q t := by
  induction as generalizing p s with
  | nil =>
      cases hrun
      exact ⟨[], s, rfl, h⟩
  | cons a as ih =>
      obtain ⟨p', hstep, hrest⟩ := (Machine.exec_cons_iff _).mp hrun
      obtain ⟨bs, t, hbs, ht⟩ := largeStep_refines h hstep
      obtain ⟨bs', t', hbs', ht'⟩ := ih ht hrest
      refine ⟨bs ++ bs', t', ?_, ht'⟩
      rw [Machine.exec_append, hbs]
      exact hbs'

end Large

/-! ## Two calls that run into the same expiry -/

def expiredUrl : ProtonError := .api ⟨.unknown, 404, "gone", none⟩

def oldBlock : BlockDto := ⟨1, "old", "t"⟩
def newBlock : BlockDto := ⟨1, "new", "t"⟩

/-- The second call waits for the first one's listing, and does not list again. -/
def bothExpired : List (Action Bool) :=
  [.locate true, .locate false, .answer true (.error expiredUrl), .answer false (.error expiredUrl),
    .lock true, .check true, .listed true (.ok [newBlock]), .write true, .lock false, .check false,
    .locate true, .locate false, .answer true (.ok [1]), .answer false (.ok [1])]

theorem refreshedOnce_bothExpired :
    ∃ s, (calls (fun _ : Bool => 0)).exec (start "r" [oldBlock] 1) bothExpired = some s ∧
      RefreshedOnce (fun _ => 0) bothExpired 1 s :=
  ⟨_, rfl, refreshedOnce (fun _ => 0) "r" (show orderBlocks [oldBlock] = .ok [oldBlock] from rfl)
    rfl bothExpired _ rfl⟩

end ProtonDrive.BlockRefresh
