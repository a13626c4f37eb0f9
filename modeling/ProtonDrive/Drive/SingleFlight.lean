import Mathlib.Data.Fintype.Basic
import ProtonDrive.Lib.Machine
import ProtonDrive.Sdk.Error

/-!
# Single flight — concurrent identical loads share one request

`SingleFlight::run` is three steps of a caller: under the map's lock it joins the load in its key's
slot or puts a new one there, it awaits that shared load, and under the lock again it empties the
slot. Between the steps any other caller may run, and at each of the two awaits the caller may be
dropped. Loads are numbered in the order they are started, so "a later load" is a larger number.

* `OneAtATime` — no key has two loads running.
* `Expired` — a finished load that has served a caller, or has lost all of them. A later `run` must
  not be given its result.
* `collapses_of_slotSafe` — both hold in every run in which no caller empties a slot whose load
  others still wait for, and no finished load is left alone in its slot. `run` itself checks
  neither: it empties whatever is in the slot, and a dropped caller empties nothing.
-/

namespace ProtonDrive.SingleFlight

abbrev LoadId := Nat

abbrev Outcome (V : Type) := Except ProtonError V

/-- A shared load: what it loads, and its result once it has one. -/
structure Load (K V : Type) where
  key : K
  outcome : Option (Outcome V)

/-- Where one `run` call stands. -/
inductive Caller (K V : Type) where
  | idle
  | waiting (key : K) (load : LoadId)
  | clearing (key : K) (load : LoadId) (outcome : Outcome V)
  | returned (load : LoadId) (outcome : Outcome V)
  | dropped

/-- The key and the load of a call that has one and is not over. -/
def Caller.attached {K V : Type} : Caller K V → Option (K × LoadId)
  | .waiting key l => some (key, l)
  | .clearing key l _ => some (key, l)
  | _ => none

/-- The error handed to the waiters of a failed load: an API failure keeps its code, everything else
degrades to its text. -/
def shareError : ProtonError → ProtonError
  | .api e => .api e
  | .transport e => .invalidOperation ("HTTP transport error: " ++ e.text)
  | .serialization text => .invalidOperation ("serialization error: " ++ text)
  | .crypto text => .invalidOperation ("cryptography error: " ++ text)
  | .keysLocked =>
      .invalidOperation "none of the account's keys could be unlocked with this password"
  | .invalidOperation text => .invalidOperation ("invalid operation: " ++ text)

/-- The map of in-flight loads, every load ever started, and the callers. -/
structure State (ι K V : Type) where
  inflight : K → Option LoadId
  loads : LoadId → Option (Load K V)
  nextLoad : LoadId
  caller : ι → Caller K V

/-- A step of caller `i`. `finish` is the poll that completes the shared load; whoever waits on it
may be the one to make it. -/
inductive Action (ι K V : Type) where
  | run (i : ι) (key : K)
  | finish (i : ι) (outcome : Outcome V)
  | wake (i : ι)
  | clear (i : ι)
  | drop (i : ι)

section Runs

variable {ι K V : Type} [DecidableEq ι] [DecidableEq K]

def State.setCaller (s : State ι K V) (i : ι) (c : Caller K V) : State ι K V :=
  { s with caller := Function.update s.caller i c }

/-- `run` up to its first await: join the load in the slot, or start one. -/
def State.enter (s : State ι K V) (i : ι) (key : K) : State ι K V :=
  match s.inflight key with
  | some l => s.setCaller i (.waiting key l)
  | none =>
      { inflight := Function.update s.inflight key (some s.nextLoad)
        loads := Function.update s.loads s.nextLoad (some ⟨key, none⟩)
        nextLoad := s.nextLoad + 1
        caller := Function.update s.caller i (.waiting key s.nextLoad) }

def step (s : State ι K V) : Action ι K V → Option (State ι K V)
  | .run i key =>
      match s.caller i with
      | .idle => some (s.enter i key)
      | _ => none
  | .finish i outcome =>
      match s.caller i with
      | .waiting _ l =>
          match s.loads l with
          | some ⟨key, none⟩ =>
              some { s with loads := Function.update s.loads l (some ⟨key, some outcome⟩) }
          | _ => none
      | _ => none
  | .wake i =>
      match s.caller i with
      | .waiting key l =>
          match s.loads l with
          | some ⟨_, some outcome⟩ => some (s.setCaller i (.clearing key l outcome))
          | _ => none
      | _ => none
  | .clear i =>
      match s.caller i with
      | .clearing key l outcome =>
          some { s with
            inflight := Function.update s.inflight key none
            caller := Function.update s.caller i (.returned l (outcome.mapError shareError)) }
      | _ => none
  | .drop i =>
      match s.caller i with
      | .waiting _ _ => some (s.setCaller i .dropped)
      | .clearing _ _ _ => some (s.setCaller i .dropped)
      | _ => none

/-- The callers of one `SingleFlight`, as a machine. -/
def flights : Machine (State ι K V) (Action ι K V) := ⟨step⟩

/-- An empty map, and nobody has called. -/
def start : State ι K V := ⟨fun _ => none, fun _ => none, 0, fun _ => .idle⟩

/-! ## What it is for -/

/-- Load `l` of `key` is running: unfinished, and somebody drives it. -/
def Running (s : State ι K V) (key : K) (l : LoadId) : Prop :=
  s.loads l = some ⟨key, none⟩ ∧ ∃ i, s.caller i = .waiting key l

def OneAtATime (s : State ι K V) : Prop :=
  ∀ key l l', Running s key l → Running s key l' → l = l'

/-- Load `l` is finished, and has served one of its callers or lost all of them. -/
def Expired (s : State ι K V) (l : LoadId) : Prop :=
  (∃ key outcome, s.loads l = some ⟨key, some outcome⟩) ∧
    ((∃ i outcome, s.caller i = .returned l outcome) ∨
      ∀ i key, (s.caller i).attached ≠ some (key, l))

/-- A call that starts now is not attached to an expired load. -/
def NeverExpired (s : State ι K V) : Prop :=
  ∀ i key t l, step s (.run i key) = some t → t.caller i = .waiting key l → ¬ Expired s l

/-! ## The condition -/

def State.finished (s : State ι K V) (l : LoadId) : Bool :=
  (s.loads l).any (fun load => load.outcome.isSome)

/-- A caller that empties its slot finds no load in it that somebody is still waiting for; a caller
that is dropped is not the last one attached to a finished load that is still in its slot. -/
def SlotSafe (s : State ι K V) : Action ι K V → Prop
  | .clear i => ∀ kl ∈ (s.caller i).attached, ∀ l ∈ s.inflight kl.1,
      s.finished l = true ∨ ∀ j, (s.caller j).attached ≠ some (kl.1, l)
  | .drop i => ∀ kl ∈ (s.caller i).attached, s.inflight kl.1 = some kl.2 →
      s.finished kl.2 = true → ∃ j, j ≠ i ∧ (s.caller j).attached = some kl
  | _ => True

instance [Fintype ι] (s : State ι K V) : (a : Action ι K V) → Decidable (SlotSafe s a)
  | .clear i => inferInstanceAs (Decidable (∀ kl ∈ (s.caller i).attached, ∀ l ∈ s.inflight kl.1,
      s.finished l = true ∨ ∀ j, (s.caller j).attached ≠ some (kl.1, l)))
  | .drop i => inferInstanceAs (Decidable (∀ kl ∈ (s.caller i).attached,
      s.inflight kl.1 = some kl.2 → s.finished kl.2 = true →
        ∃ j, j ≠ i ∧ (s.caller j).attached = some kl))
  | .run _ _ | .finish _ _ | .wake _ => .isTrue trivial

/-! ## What a step does -/

theorem step_run {s t : State ι K V} {i : ι} {key : K} (h : step s (.run i key) = some t) :
    s.caller i = .idle ∧ t = s.enter i key := by
  simp only [step] at h
  split at h
  · next hi => cases h; exact ⟨hi, rfl⟩
  · cases h

theorem step_finish {s t : State ι K V} {i : ι} {o : Outcome V}
    (h : step s (.finish i o) = some t) :
    ∃ key key' l, s.caller i = .waiting key' l ∧ s.loads l = some ⟨key, none⟩ ∧
      t = { s with loads := Function.update s.loads l (some ⟨key, some o⟩) } := by
  simp only [step] at h
  split at h
  · next key' l hi =>
    split at h
    · next key hl => cases h; exact ⟨key, key', l, hi, hl, rfl⟩
    · cases h
  · cases h

theorem step_wake {s t : State ι K V} {i : ι} (h : step s (.wake i) = some t) :
    ∃ key key' l o, s.caller i = .waiting key l ∧ s.loads l = some ⟨key', some o⟩ ∧
      t = s.setCaller i (.clearing key l o) := by
  simp only [step] at h
  split at h
  · next key l hi =>
    split at h
    · next key' o hl => cases h; exact ⟨key, key', l, o, hi, hl, rfl⟩
    · cases h
  · cases h

theorem step_clear {s t : State ι K V} {i : ι} (h : step s (.clear i) = some t) :
    ∃ key l o, s.caller i = .clearing key l o ∧
      t = { s with
        inflight := Function.update s.inflight key none
        caller := Function.update s.caller i (.returned l (o.mapError shareError)) } := by
  simp only [step] at h
  split at h
  · next key l o hi => cases h; exact ⟨key, l, o, hi, rfl⟩
  · cases h

theorem step_drop {s t : State ι K V} {i : ι} (h : step s (.drop i) = some t) :
    ∃ key l, (s.caller i).attached = some (key, l) ∧ t = s.setCaller i .dropped := by
  simp only [step] at h
  split at h
  · next key l hi => cases h; exact ⟨key, l, by rw [hi]; rfl, rfl⟩
  · next key l o hi => cases h; exact ⟨key, l, by rw [hi]; rfl, rfl⟩
  · cases h

/-! ## The invariants -/

/-- What every run keeps: loads are numbered, and belong to the key they are reached by. -/
structure Keyed (s : State ι K V) : Prop where
  /-- Load numbers from `nextLoad` on are unused. -/
  fresh : ∀ l, s.nextLoad ≤ l → s.loads l = none
  /-- A slot holds a load of its own key. -/
  slotKey : ∀ {key l}, s.inflight key = some l → (s.loads l).map Load.key = some key
  /-- A caller is attached to a load of its own key. -/
  attachedKey : ∀ {i key l}, (s.caller i).attached = some (key, l) →
    (s.loads l).map Load.key = some key
  /-- A caller past its await has seen the load's result. -/
  clearingDone : ∀ {i key l o}, s.caller i = .clearing key l o → s.loads l = some ⟨key, some o⟩

structure Inv (s : State ι K V) : Prop extends Keyed s where
  /-- A running load is in its slot. -/
  runningSlot : ∀ {i key l}, s.caller i = .waiting key l → s.loads l = some ⟨key, none⟩ →
    s.inflight key = some l
  /-- A finished load in its slot has somebody attached to it. -/
  slotAttached : ∀ {key l o}, s.inflight key = some l → s.loads l = some ⟨key, some o⟩ →
    ∃ i, (s.caller i).attached = some (key, l)
  /-- A load that has served a caller is in no slot. -/
  returnedGone : ∀ {i l o}, s.caller i = .returned l o → l < s.nextLoad ∧ ∀ key,
    s.inflight key ≠ some l

omit [DecidableEq ι] [DecidableEq K] in
theorem keyed_start : Keyed (start : State ι K V) := by
  constructor <;> simp [start, Caller.attached]

theorem step_keyed {s t : State ι K V} {a : Action ι K V} (hs : Keyed s) (h : step s a = some t) :
    Keyed t := by
  obtain ⟨h1, h2, h3, h4⟩ := hs
  cases a with
  | run i key =>
      obtain ⟨hi, rfl⟩ := step_run h
      -- The caller joins the load of the slot, or opens a load of its own.
      unfold State.enter
      split
      · constructor <;> simp only [State.setCaller, Function.update_apply] <;>
          grind [Caller.attached]
      · constructor <;> simp only [Function.update_apply] <;> grind [Caller.attached]
  | finish i o =>
      obtain ⟨key, key', l, hi, hl, rfl⟩ := step_finish h
      constructor <;> simp only [Function.update_apply] <;> grind [Caller.attached]
  | wake i =>
      obtain ⟨key, key', l, o, hi, hl, rfl⟩ := step_wake h
      have hatt : (s.caller i).attached = some (key, l) := by rw [hi]; rfl
      constructor <;> simp only [State.setCaller, Function.update_apply] <;> grind [Caller.attached]
  | clear i =>
      obtain ⟨key, l, o, hi, rfl⟩ := step_clear h
      constructor <;> simp only [Function.update_apply] <;> grind [Caller.attached]
  | drop i =>
      obtain ⟨key, l, hi, rfl⟩ := step_drop h
      constructor <;> simp only [State.setCaller, Function.update_apply] <;> grind [Caller.attached]

omit [DecidableEq ι] [DecidableEq K] in
theorem inv_start : Inv (start : State ι K V) := by
  refine ⟨keyed_start, ?_, ?_, ?_⟩ <;> simp [start]

/-- Joining adds a caller to the load in the slot; starting fills an empty slot, and no load of that
key was running, since it would have been in the slot. -/
theorem inv_run {s : State ι K V} (hs : Inv s) {i : ι} {key : K} (hi : s.caller i = .idle)
    (hkeyed : Keyed (s.enter i key)) : Inv (s.enter i key) := by
  refine ⟨hkeyed, ?_, ?_, ?_⟩
  all_goals
    obtain ⟨⟨h1, h2, h3, h4⟩, h5, h6, h7⟩ := hs
    unfold State.enter
    split <;> simp only [State.setCaller, Function.update_apply] <;> grind [Caller.attached]

omit [DecidableEq ι] [DecidableEq K] in
theorem inv_finish {s : State ι K V} (hs : Inv s) {i : ι} {l : LoadId} {key key' : K} {o : Outcome V}
    (hi : s.caller i = .waiting key' l) (hl : s.loads l = some ⟨key, none⟩)
    (hkeyed : Keyed { s with loads := Function.update s.loads l (some ⟨key, some o⟩) }) :
    Inv { s with loads := Function.update s.loads l (some ⟨key, some o⟩) } := by
  have hatt : (s.caller i).attached = some (key', l) := by rw [hi]; rfl
  have hkey : (s.loads l).map Load.key = some key' := hs.attachedKey hatt
  obtain ⟨⟨h1, h2, h3, h4⟩, h5, h6, h7⟩ := hs
  refine ⟨hkeyed, ?_, ?_, ?_⟩ <;> simp only [Function.update_apply] <;> grind [Caller.attached]

omit [DecidableEq K] in
theorem inv_wake {s : State ι K V} (hs : Inv s) {i : ι} {l : LoadId} {key : K} {o : Outcome V}
    (hi : s.caller i = .waiting key l) (hkeyed : Keyed (s.setCaller i (.clearing key l o))) :
    Inv (s.setCaller i (.clearing key l o)) := by
  have hatt : (s.caller i).attached = some (key, l) := by rw [hi]; rfl
  obtain ⟨⟨h1, h2, h3, h4⟩, h5, h6, h7⟩ := hs
  refine ⟨hkeyed, ?_, ?_, ?_⟩ <;> simp only [State.setCaller, Function.update_apply] <;>
    grind [Caller.attached]

/-- Emptying the slot takes no load out of it that somebody waits for. -/
theorem inv_clear {s : State ι K V} (hs : Inv s) {i : ι} {l : LoadId} {key : K} {o o' : Outcome V}
    (hi : s.caller i = .clearing key l o)
    (hsafe : ∀ l' ∈ s.inflight key,
      s.finished l' = true ∨ ∀ j, (s.caller j).attached ≠ some (key, l'))
    (hkeyed : Keyed { s with
      inflight := Function.update s.inflight key none
      caller := Function.update s.caller i (.returned l o') }) :
    Inv { s with
      inflight := Function.update s.inflight key none
      caller := Function.update s.caller i (.returned l o') } := by
  have hdone : s.loads l = some ⟨key, some o⟩ := hs.clearingDone hi
  unfold State.finished at hsafe
  obtain ⟨⟨h1, h2, h3, h4⟩, h5, h6, h7⟩ := hs
  refine ⟨hkeyed, ?_, ?_, ?_⟩ <;> simp only [Function.update_apply] <;> grind [Caller.attached]

omit [DecidableEq K] in
theorem inv_drop {s : State ι K V} (hs : Inv s) {i : ι} {l : LoadId} {key : K}
    (hi : (s.caller i).attached = some (key, l))
    (hother : s.inflight key = some l → s.finished l = true →
      ∃ j, j ≠ i ∧ (s.caller j).attached = some (key, l))
    (hkeyed : Keyed (s.setCaller i .dropped)) : Inv (s.setCaller i .dropped) := by
  unfold State.finished at hother
  obtain ⟨⟨h1, h2, h3, h4⟩, h5, h6, h7⟩ := hs
  refine ⟨hkeyed, ?_, ?_, ?_⟩ <;> simp only [State.setCaller, Function.update_apply] <;>
    grind [Caller.attached]

theorem step_inv {s t : State ι K V} {a : Action ι K V} (hsafe : SlotSafe s a) (hs : Inv s)
    (h : step s a = some t) : Inv t := by
  have hkeyed : Keyed t := step_keyed hs.toKeyed h
  cases a with
  | run i key =>
      obtain ⟨hi, rfl⟩ := step_run h
      exact inv_run hs hi hkeyed
  | finish i o =>
      obtain ⟨key, key', l, hi, hl, rfl⟩ := step_finish h
      exact inv_finish hs hi hl hkeyed
  | wake i =>
      obtain ⟨key, key', l, o, hi, hl, rfl⟩ := step_wake h
      exact inv_wake hs hi hkeyed
  | clear i =>
      obtain ⟨key, l, o, hi, rfl⟩ := step_clear h
      -- A caller that takes its load out of the slot must find it there: this is slot safety.
      have hatt : (s.caller i).attached = some (key, l) := by rw [hi]; rfl
      exact inv_clear hs hi (hsafe _ hatt) hkeyed
  | drop i =>
      obtain ⟨key, l, hi, rfl⟩ := step_drop h
      -- Dropping an attached caller clears the slot likewise.
      exact inv_drop hs hi (hsafe _ hi) hkeyed

/-! ## What the invariant gives -/

omit [DecidableEq ι] [DecidableEq K] in
theorem Inv.oneAtATime {s : State ι K V} (hs : Inv s) : OneAtATime s := by
  rintro key l l' ⟨hl, i, hi⟩ ⟨hl', i', hi'⟩
  have hslot : s.inflight key = some l := hs.runningSlot hi hl
  have hslot' : s.inflight key = some l' := hs.runningSlot hi' hl'
  exact Option.some.inj (hslot.symm.trans hslot')

/-- The load a new call is attached to: the one in the slot, or one that did not exist. -/
theorem enter_waiting {s : State ι K V} {i : ι} {key key' : K} {l : LoadId}
    (h : (s.enter i key).caller i = .waiting key' l) :
    s.inflight key = some l ∨ l = s.nextLoad := by
  unfold State.enter at h
  split at h
  · next l' hl' =>
    simp only [State.setCaller, Function.update_self, Caller.waiting.injEq] at h
    left
    rw [hl', h.2]
  · simp only [Function.update_self, Caller.waiting.injEq] at h
    right
    exact h.2.symm

theorem Inv.neverExpired {s : State ι K V} (hs : Inv s) : NeverExpired s := by
  intro i key t l hst hcaller
  rintro ⟨⟨key', o, hdone⟩, hgone⟩
  obtain ⟨hi, rfl⟩ := step_run hst
  rcases enter_waiting hcaller with hslot | rfl
  · rcases hgone with ⟨j, o', hret⟩ | hnobody
    · exact (hs.returnedGone hret).2 key hslot
    · have hkey : (s.loads l).map Load.key = some key := hs.slotKey hslot
      obtain rfl : key' = key := by
        rw [hdone] at hkey
        exact Option.some.inj hkey
      obtain ⟨j, hj⟩ := hs.slotAttached hslot hdone
      exact hnobody j _ hj
  · rw [hs.fresh _ (Nat.le_refl _)] at hdone
    cases hdone

/-- **One load per key, and never an old result**, in every run in which no caller empties a slot
whose load others wait for, and no dropped caller leaves a finished load alone in its slot. -/
theorem collapses_of_slotSafe {as : List (Action ι K V)} {s : State ι K V}
    (hsafe : flights.Along SlotSafe start as) (hs : flights.exec start as = some s) :
    OneAtATime s ∧ NeverExpired s := by
  have hinv : Inv s := flights.exec_invariant_along Inv
    (fun hok hinv hst => step_inv hok hinv hst) hsafe inv_start hs
  exact ⟨hinv.oneAtATime, hinv.neverExpired⟩

end Runs

/-! ## What `run` allows

The two ways out of the condition. Callers are numbered in the order they call. -/

/-- A late waiter empties the slot of the next load: callers 0 and 1 share a load, 0 returns, 2
starts the next load, 1 then empties the slot, and 3 starts a third load beside it. -/
def lateWaiter : List (Action (Fin 4) Unit Nat) :=
  [.run 0 (), .run 1 (), .finish 0 (.ok 7), .wake 0, .wake 1, .clear 0, .run 2 (), .clear 1,
    .run 3 ()]

/-- The only caller of a finished load is dropped before it empties the slot. -/
def abandoned : List (Action (Fin 4) Unit Nat) :=
  [.run 0 (), .finish 0 (.ok 7), .wake 0, .drop 0]

theorem not_collapses :
    ¬ (∀ (as : List (Action (Fin 4) Unit Nat)) s, flights.exec start as = some s → OneAtATime s) ∧
    ¬ (∀ (as : List (Action (Fin 4) Unit Nat)) s, flights.exec start as = some s →
        NeverExpired s) := by
  constructor
  · intro h
    have hrun := h lateWaiter _ rfl () 1 2 ⟨rfl, 2, rfl⟩ ⟨rfl, 3, rfl⟩
    exact absurd hrun (by decide)
  · intro h
    refine h abandoned _ rfl 1 () _ 0 rfl rfl ⟨⟨(), .ok 7, rfl⟩, .inr ?_⟩
    decide

/-- Two callers share a load, and the third, who comes later, gets one of its own. -/
def shared : List (Action (Fin 4) Unit Nat) :=
  [.run 0 (), .run 1 (), .finish 1 (.ok 7), .wake 0, .clear 0, .wake 1, .clear 1, .run 2 ()]

theorem collapses_of_slotSafe_shared :
    ∃ s : State (Fin 4) Unit Nat, flights.exec start shared = some s ∧
      s.caller 0 = .returned 0 (.ok 7) ∧ s.caller 2 = .waiting () 1 ∧
      OneAtATime s ∧ NeverExpired s := by
  refine ⟨_, rfl, rfl, rfl, ?_⟩
  have hsafe : flights.Along SlotSafe start shared := by decide
  exact collapses_of_slotSafe hsafe rfl

end ProtonDrive.SingleFlight
