import ProtonDrive.Lib.Machine

/-!
# The gate of the context shares

`context_share_id` asks the server through which share a node is reached, and keeps the answer. A
move can change that for a whole subtree, so a lookup holds a gate for reading while it asks and
stores, and `run_context_share_mutation` holds it for writing around its request, which it runs in a
task of its own. The invalidation for an event takes the gate for writing as well.

* `client` — any number of lookups, mutations and invalidations on one gate, each cancelled
  anywhere.
* `mapping_fresh` — what is in the cache was fetched after everything that has completed took
  effect; and a mutation that is cancelled before it has the gate sends nothing.
* `mapping_late` — a request that the server acts on after it has failed is not covered.
-/

namespace ProtonDrive.ContextShare

/-- Ticks at each change on the server and at each invalidation. -/
abbrev Time := Nat

/-- A `context_share_id` call. -/
inductive Lookup (K : Type) where
  | idle
  | waiting (u : K)
  /-- It has the guard, and has not looked into the cache. -/
  | reading (u : K)
  | requested (u : K)
  /-- The server has answered, and the answer is not stored. -/
  | answered (u : K) (fetched : Time)
  | returned
  deriving DecidableEq, Repr

/-- A `run_context_share_mutation` call and its task. -/
inductive Mutation where
  | idle
  | waiting
  /-- It has the guard, and has not cleared the cache. -/
  | granted
  /-- The task has the guard, and has not sent the request. -/
  | detached
  | requested
  /-- The request has returned, and the cache is not cleared again. -/
  | responded
  /-- With the last time that the request took effect before that. -/
  | finished (effect : Option Time)
  | cancelled
  deriving DecidableEq, Repr

/-- The part of `invalidate_caches_for_event` that clears the mappings. -/
inductive Invalidation where
  | idle
  | waiting
  | granted
  | finished (effect : Time)
  | cancelled
  deriving DecidableEq, Repr

inductive Writer (ι : Type) where
  | mutation (i : ι)
  | invalidation (i : ι)
  deriving DecidableEq, Repr

structure State (ι K : Type) where
  time : Time
  /-- `context_share_ids`, by when each mapping was fetched. -/
  cache : K → Option Time
  /-- The guards of `context_share_gate` that are held. -/
  readers : List ι
  writer : Option (Writer ι)
  lookup : ι → Lookup K
  mutation : ι → Mutation
  invalidation : ι → Invalidation
  /-- The request of a mutation was sent. -/
  sent : ι → Bool
  /-- The last time it took effect. -/
  effectAt : ι → Option Time

inductive Action (ι K : Type) where
  | lookup (i : ι) (u : K)
  /-- The gate lets a lookup in. -/
  | enterLookup (i : ι)
  /-- It looks into the cache. -/
  | look (i : ι)
  /-- The server reads the mapping for its answer. -/
  | answer (i : ι)
  | store (i : ι)
  /-- The request fails, or the caller goes away. -/
  | dropLookup (i : ι)
  | mutate (i : ι)
  | enterMutation (i : ι)
  /-- It clears the cache and hands the guard to the task. -/
  | detach (i : ι)
  | send (i : ι)
  /-- The server acts on the request; perhaps again, and perhaps late. -/
  | effect (i : ι)
  /-- The request returns, with a result or an error. -/
  | respond (i : ι)
  /-- The cache is cleared again, and the task ends. -/
  | finish (i : ι)
  /-- The request panics, and the task ends at once. -/
  | panic (i : ι)
  /-- The caller of the mutation goes away. -/
  | cancel (i : ι)
  | invalidate (i : ι)
  | enterInvalidation (i : ι)
  | drain (i : ι)
  | cancelInvalidation (i : ι)
  /-- A mapping is dropped for room. -/
  | evict (u : K)
  deriving DecidableEq, Repr

section Client

variable {ι K : Type} [DecidableEq ι] [DecidableEq K]

def State.setLookup (s : State ι K) (i : ι) (l : Lookup K) : State ι K :=
  { s with lookup := Function.update s.lookup i l }

def State.setMutation (s : State ι K) (i : ι) (m : Mutation) : State ι K :=
  { s with mutation := Function.update s.mutation i m }

def State.setInvalidation (s : State ι K) (i : ι) (v : Invalidation) : State ι K :=
  { s with invalidation := Function.update s.invalidation i v }

/-- The lookup gives its guard back. -/
def State.leave (s : State ι K) (i : ι) : State ι K :=
  { s.setLookup i .returned with readers := s.readers.filter (· ≠ i) }

def State.clear (s : State ι K) : State ι K := { s with cache := fun _ => none }

/-- The end of the task. -/
def State.finish (s : State ι K) (i : ι) : State ι K :=
  { s.setMutation i (.finished (s.effectAt i)) with writer := none }

/-- Waiters are let in in any order; a fair queue gives some of these runs. -/
def step (s : State ι K) : Action ι K → Option (State ι K)
  | .lookup i u => if s.lookup i = .idle then some (s.setLookup i (.waiting u)) else none
  | .enterLookup i =>
      match s.lookup i, s.writer with
      | .waiting u, none => some { s.setLookup i (.reading u) with readers := i :: s.readers }
      | _, _ => none
  | .look i =>
      match s.lookup i with
      | .reading u =>
          match s.cache u with
          | some _ => some (s.leave i)
          | none => some (s.setLookup i (.requested u))
      | _ => none
  | .answer i =>
      match s.lookup i with
      | .requested u => some (s.setLookup i (.answered u s.time))
      | _ => none
  | .store i =>
      match s.lookup i with
      | .answered u fetched =>
          some { s.leave i with cache := Function.update s.cache u (some fetched) }
      | _ => none
  | .dropLookup i =>
      match s.lookup i with
      | .idle | .returned => none
      | _ => some (s.leave i)
  | .mutate i => if s.mutation i = .idle then some (s.setMutation i .waiting) else none
  | .enterMutation i =>
      if s.mutation i = .waiting ∧ s.readers = [] ∧ s.writer = none then
        some { s.setMutation i .granted with writer := some (.mutation i) }
      else none
  | .detach i =>
      if s.mutation i = .granted then some (s.clear.setMutation i .detached) else none
  | .send i =>
      if s.mutation i = .detached then
        some { s.setMutation i .requested with sent := Function.update s.sent i true }
      else none
  | .effect i =>
      if s.sent i = true then
        some { s with
          time := s.time + 1
          effectAt := Function.update s.effectAt i (some (s.time + 1)) }
      else none
  | .respond i =>
      if s.mutation i = .requested then some (s.setMutation i .responded) else none
  | .finish i => if s.mutation i = .responded then some (s.clear.finish i) else none
  | .panic i => if s.mutation i = .requested then some (s.finish i) else none
  | .cancel i =>
      match s.mutation i with
      | .idle | .cancelled | .finished _ => none
      | .waiting => some (s.setMutation i .cancelled)
      | .granted => some { s.setMutation i .cancelled with writer := none }
      -- the task goes on without its caller
      | .detached | .requested | .responded => some s
  | .invalidate i => if s.invalidation i = .idle then some (s.setInvalidation i .waiting) else none
  | .enterInvalidation i =>
      if s.invalidation i = .waiting ∧ s.readers = [] ∧ s.writer = none then
        some { s.setInvalidation i .granted with writer := some (.invalidation i) }
      else none
  | .drain i =>
      if s.invalidation i = .granted then
        some { s.clear.setInvalidation i (.finished (s.time + 1)) with
          time := s.time + 1
          writer := none }
      else none
  | .cancelInvalidation i =>
      match s.invalidation i with
      | .waiting => some (s.setInvalidation i .cancelled)
      | .granted => some { s.setInvalidation i .cancelled with writer := none }
      | _ => none
  | .evict u => some { s with cache := Function.update s.cache u none }

def client : Machine (State ι K) (Action ι K) := ⟨step⟩

def start : State ι K where
  time := 0
  cache := fun _ => none
  readers := []
  writer := none
  lookup := fun _ => .idle
  mutation := fun _ => .idle
  invalidation := fun _ => .idle
  sent := fun _ => false
  effectAt := fun _ => none

/-! ## What a step does -/

/-- The effect of every action, with the guard under which it is taken. -/
inductive Step (s : State ι K) : State ι K → Prop where
  | lookup {i u} : s.lookup i = .idle → Step s (s.setLookup i (.waiting u))
  | enterLookup {i u} : s.lookup i = .waiting u → s.writer = none →
      Step s { s.setLookup i (.reading u) with readers := i :: s.readers }
  | request {i u} : s.lookup i = .reading u → Step s (s.setLookup i (.requested u))
  | answer {i u} : s.lookup i = .requested u → Step s (s.setLookup i (.answered u s.time))
  | store {i u fetched} : s.lookup i = .answered u fetched →
      Step s { s.leave i with cache := Function.update s.cache u (some fetched) }
  /-- A hit, an error, or a caller that goes away. -/
  | leave {i} : Step s (s.leave i)
  | mutate {i} : s.mutation i = .idle → Step s (s.setMutation i .waiting)
  | enterMutation {i} : s.mutation i = .waiting → s.readers = [] → s.writer = none →
      Step s { s.setMutation i .granted with writer := some (.mutation i) }
  | detach {i} : s.mutation i = .granted → Step s (s.clear.setMutation i .detached)
  | send {i} : s.mutation i = .detached →
      Step s { s.setMutation i .requested with sent := Function.update s.sent i true }
  | effect {i} : s.sent i = true →
      Step s { s with
        time := s.time + 1
        effectAt := Function.update s.effectAt i (some (s.time + 1)) }
  | respond {i} : s.mutation i = .requested → Step s (s.setMutation i .responded)
  | finish {i} : s.mutation i = .responded → Step s (s.clear.finish i)
  | panic {i} : s.mutation i = .requested → Step s (s.finish i)
  | withdraw {i} : s.mutation i = .waiting → Step s (s.setMutation i .cancelled)
  | giveBack {i} : s.mutation i = .granted →
      Step s { s.setMutation i .cancelled with writer := none }
  /-- The task goes on without its caller. -/
  | goOn : Step s s
  | invalidate {i} : s.invalidation i = .idle → Step s (s.setInvalidation i .waiting)
  | enterInvalidation {i} : s.invalidation i = .waiting → s.readers = [] → s.writer = none →
      Step s { s.setInvalidation i .granted with writer := some (.invalidation i) }
  | drain {i} : s.invalidation i = .granted →
      Step s { s.clear.setInvalidation i (.finished (s.time + 1)) with
        time := s.time + 1
        writer := none }
  | withdrawInvalidation {i} : s.invalidation i = .waiting →
      Step s (s.setInvalidation i .cancelled)
  | giveBackInvalidation {i} : s.invalidation i = .granted →
      Step s { s.setInvalidation i .cancelled with writer := none }
  | evict {u} : Step s { s with cache := Function.update s.cache u none }

variable {s t : State ι K} {i : ι}

/-- Everything that a step can do, with its guards. -/
theorem step_cases {a : Action ι K} (h : step s a = some t) : Step s t := by
  cases a with
  -- These steps ask for one stage of the party, and have one end.
  | lookup | mutate | detach | send | effect | respond | finish | panic | invalidate | drain =>
      simp only [step] at h
      split at h
      · next hi =>
        cases h
        constructor
        exact hi
      · exact nomatch h
  | enterLookup i =>
      simp only [step] at h
      split at h
      · next hi hwriter =>
        cases h
        exact .enterLookup hi hwriter
      · exact nomatch h
  | look i =>
      simp only [step] at h
      split at h
      · next u hi =>
        split at h
        · cases h
          exact .leave
        · cases h
          exact .request hi
      · exact nomatch h
  | answer i =>
      simp only [step] at h
      split at h
      · next hi =>
        cases h
        exact .answer hi
      · exact nomatch h
  | store i =>
      simp only [step] at h
      split at h
      · next hi =>
        cases h
        exact .store hi
      · exact nomatch h
  -- A lookup that is dropped leaves the gate, wherever it was.
  | dropLookup i =>
      simp only [step] at h
      split at h
      · exact nomatch h
      · exact nomatch h
      · cases h
        exact .leave
  | enterMutation i =>
      simp only [step] at h
      split at h
      · next hi =>
        cases h
        exact .enterMutation hi.1 hi.2.1 hi.2.2
      · exact nomatch h
  -- What a dropped mutation leaves behind depends on how far it has come.
  | cancel i =>
      simp only [step] at h
      split at h
      case h_1 | h_2 | h_3 => exact nomatch h
      case h_4 hi =>
          cases h
          exact .withdraw hi
      case h_5 hi =>
          cases h
          exact .giveBack hi
      case h_6 | h_7 | h_8 =>
          cases h
          exact .goOn
  | enterInvalidation i =>
      simp only [step] at h
      split at h
      · next hi =>
        cases h
        exact .enterInvalidation hi.1 hi.2.1 hi.2.2
      · exact nomatch h
  | cancelInvalidation i =>
      simp only [step] at h
      split at h
      · next hi =>
        cases h
        exact .withdrawInvalidation hi
      · next hi =>
        cases h
        exact .giveBackInvalidation hi
      · exact nomatch h
  | evict u =>
      cases h
      exact .evict

/-! ## Who holds the gate -/

/-- The lookup has a guard. -/
def Lookup.Holds : Lookup K → Prop
  | .reading _ | .requested _ | .answered _ _ => True
  | _ => False

/-- The mutation or its task has the guard. -/
def Mutation.Holds : Mutation → Prop
  | .granted | .detached | .requested | .responded => True
  | _ => False

/-- The task is between its two invalidations. -/
def Mutation.Runs : Mutation → Prop
  | .detached | .requested | .responded => True
  | _ => False

/-- No request has been sent. -/
def Mutation.Quiet : Mutation → Prop
  | .idle | .waiting | .granted | .detached | .cancelled => True
  | _ => False

structure Gated (s : State ι K) : Prop where
  exclusive : s.writer ≠ none → s.readers = []
  lookups : ∀ i, (s.lookup i).Holds → i ∈ s.readers
  mutations : ∀ i, (s.mutation i).Holds → s.writer = some (.mutation i)
  invalidations : ∀ i, s.invalidation i = .granted → s.writer = some (.invalidation i)
  /-- Nothing is stored while a mutation runs. -/
  emptied : ∀ i, (s.mutation i).Runs → ∀ u, s.cache u = none
  unsent : ∀ i, (s.mutation i).Quiet → s.sent i = false

omit [DecidableEq ι] [DecidableEq K] in
/-- At first nobody holds the gate. -/
theorem gated_start : Gated (start : State ι K) where
  exclusive := fun h => absurd rfl h
  lookups := fun _ h => h.elim
  mutations := fun _ h => h.elim
  invalidations := nofun
  emptied := fun _ h => h.elim
  unsent := fun _ _ => rfl

/-- A mutation that runs holds the gate. -/
theorem Mutation.Runs.holds {m : Mutation} (h : m.Runs) : m.Holds := by
  cases m <;> first | exact h | trivial

omit [DecidableEq K] in
/-- A lookup moves on with the guard it has, or without one. -/
theorem Gated.setLookup (hs : Gated s) {l : Lookup K} (hl : l.Holds → i ∈ s.readers) :
    Gated (s.setLookup i l) := by
  refine ⟨hs.exclusive, ?_, hs.mutations, hs.invalidations, hs.emptied, hs.unsent⟩
  intro j hj
  show j ∈ s.readers
  change (Function.update s.lookup i l j).Holds at hj
  rw [Function.update_apply] at hj
  split at hj
  · next heq => exact heq ▸ hl hj
  · exact hs.lookups j hj

omit [DecidableEq K] in
/-- A lookup enters while nobody writes. -/
theorem Gated.enter (hs : Gated s) (hwriter : s.writer = none) {l : Lookup K} :
    Gated { s.setLookup i l with readers := i :: s.readers } := by
  refine ⟨fun hw => absurd hwriter hw, ?_, hs.mutations, hs.invalidations, hs.emptied, hs.unsent⟩
  intro j hj
  show j ∈ i :: s.readers
  change (Function.update s.lookup i l j).Holds at hj
  rw [Function.update_apply] at hj
  split at hj
  · next heq => exact heq ▸ List.mem_cons_self
  · exact List.mem_cons_of_mem _ (hs.lookups j hj)

omit [DecidableEq K] in
/-- A lookup leaves. -/
theorem Gated.leave (hs : Gated s) : Gated (s.leave i) := by
  refine ⟨?_, ?_, hs.mutations, hs.invalidations, hs.emptied, hs.unsent⟩
  · intro hw
    show s.readers.filter _ = []
    rw [hs.exclusive hw]
    rfl
  · intro j hj
    show j ∈ s.readers.filter _
    change (Function.update s.lookup i .returned j).Holds at hj
    rw [Function.update_apply] at hj
    split at hj
    · exact hj.elim
    · next hne => exact List.mem_filter.mpr ⟨hs.lookups j hj, by simpa using hne⟩

omit [DecidableEq ι] [DecidableEq K] in
/-- An empty cache breaks nothing. -/
theorem Gated.clear (hs : Gated s) : Gated s.clear :=
  ⟨hs.exclusive, hs.lookups, hs.mutations, hs.invalidations, fun _ _ _ => rfl, hs.unsent⟩

omit [DecidableEq K] in
/-- A mutation may go on as far as the gate allows. -/
theorem Gated.setMutation (hs : Gated s) {m : Mutation}
    (hholds : m.Holds → s.writer = some (.mutation i)) (hruns : m.Runs → ∀ u, s.cache u = none)
    (hquiet : m.Quiet → s.sent i = false) : Gated (s.setMutation i m) := by
  refine ⟨hs.exclusive, hs.lookups, ?_, hs.invalidations, ?_, ?_⟩
  · -- Only the one mutation changes, and of it the hypotheses speak.
    intro j hj
    change (Function.update s.mutation i m j).Holds at hj
    rw [Function.update_apply] at hj
    split at hj
    · next heq => exact heq ▸ hholds hj
    · exact hs.mutations j hj
  · intro j hj
    change (Function.update s.mutation i m j).Runs at hj
    rw [Function.update_apply] at hj
    split at hj
    · exact hruns hj
    · exact hs.emptied j hj
  · intro j hj
    change (Function.update s.mutation i m j).Quiet at hj
    rw [Function.update_apply] at hj
    split at hj
    · next heq => exact heq ▸ hquiet hj
    · exact hs.unsent j hj

omit [DecidableEq K] in
/-- An invalidation may go on as far as the gate allows. -/
theorem Gated.setInvalidation (hs : Gated s) {v : Invalidation}
    (hv : v = .granted → s.writer = some (.invalidation i)) : Gated (s.setInvalidation i v) := by
  refine ⟨hs.exclusive, hs.lookups, hs.mutations, ?_, hs.emptied, hs.unsent⟩
  intro j hj
  change Function.update s.invalidation i v j = .granted at hj
  rw [Function.update_apply] at hj
  split at hj
  · next heq => exact heq ▸ hv hj
  · exact hs.invalidations j hj

omit [DecidableEq ι] [DecidableEq K] in
/-- The gate is taken for writing: nobody else has it. -/
theorem Gated.acquire (hs : Gated s) {w : Writer ι} (hreaders : s.readers = [])
    (hwriter : s.writer = none) : Gated { s with writer := some w } := by
  have hno : ∀ {w : Writer ι}, s.writer ≠ some w := by
    intro w hw
    exact nomatch hwriter.symm.trans hw
  exact ⟨fun _ => hreaders, hs.lookups, fun j hj => absurd (hs.mutations j hj) hno,
    fun j hj => absurd (hs.invalidations j hj) hno, hs.emptied, hs.unsent⟩

omit [DecidableEq ι] [DecidableEq K] in
/-- It is given back by the one who has it. -/
theorem Gated.release (hs : Gated s) (hmutations : ∀ j, ¬ (s.mutation j).Holds)
    (hinvalidations : ∀ j, s.invalidation j ≠ .granted) : Gated { s with writer := none } :=
  ⟨fun h => absurd rfl h, hs.lookups, fun j hj => absurd hj (hmutations j),
    fun j hj => absurd hj (hinvalidations j), hs.emptied, hs.unsent⟩

omit [DecidableEq K] in
/-- A mutation that ends gives the gate back. -/
theorem Gated.endMutation (hs : Gated s) (hi : (s.mutation i).Holds) {m : Mutation}
    (hholds : ¬ m.Holds) (hquiet : m.Quiet → s.sent i = false) :
    Gated { s.setMutation i m with writer := none } := by
  have hwriter := hs.mutations i hi
  apply (hs.setMutation (fun h => absurd h hholds) (fun h => absurd h.holds hholds) hquiet).release
  · intro j hj
    change (Function.update s.mutation i m j).Holds at hj
    rw [Function.update_apply] at hj
    split at hj
    · exact hholds hj
    · next hne =>
      have hother := hs.mutations j hj
      rw [hwriter] at hother
      cases hother
      exact hne rfl
  · intro j hj
    exact nomatch hwriter.symm.trans (hs.invalidations j hj)

omit [DecidableEq K] in
/-- An invalidation that ends gives the gate back. -/
theorem Gated.endInvalidation (hs : Gated s) (hi : s.invalidation i = .granted) {v : Invalidation}
    (hv : v ≠ .granted) : Gated { s.setInvalidation i v with writer := none } := by
  have hwriter := hs.invalidations i hi
  apply (hs.setInvalidation (fun h => absurd h hv)).release
  · intro j hj
    exact nomatch hwriter.symm.trans (hs.mutations j hj)
  · intro j hj
    change Function.update s.invalidation i v j = .granted at hj
    rw [Function.update_apply] at hj
    split at hj
    · exact hv hj
    · next hne =>
      have hother := hs.invalidations j hj
      rw [hwriter] at hother
      cases hother
      exact hne rfl

/-- Every step keeps the gate. -/
theorem gated_step {a : Action ι K} (hs : Gated s) (h : step s a = some t) : Gated t := by
  cases step_cases h with
  | lookup => exact hs.setLookup (fun hl => hl.elim)
  | enterLookup _ hwriter => exact hs.enter hwriter
  | request hi | answer hi => exact hs.setLookup (fun _ => hs.lookups _ (by rw [hi]; trivial))
  | @store i u fetched hi =>
      have hreader : i ∈ s.readers := hs.lookups i (by rw [hi]; trivial)
      have hleft := hs.leave (i := i)
      refine ⟨hleft.exclusive, hleft.lookups, hleft.mutations, hleft.invalidations, ?_,
        hleft.unsent⟩
      -- with a reader in, no mutation is running
      intro j hj
      have hwriter := hs.mutations j hj.holds
      rw [hs.exclusive (by rw [hwriter]; exact nofun)] at hreader
      exact nomatch hreader
  | leave => exact hs.leave
  | mutate hi | withdraw hi =>
      exact hs.setMutation (fun hm => hm.elim) (fun hm => hm.elim)
        (fun _ => hs.unsent _ (by rw [hi]; trivial))
  | enterMutation hi hreaders hwriter =>
      exact (hs.acquire hreaders hwriter).setMutation (fun _ => rfl) (fun hm => hm.elim)
        (fun _ => hs.unsent _ (by rw [hi]; trivial))
  | detach hi =>
      exact hs.clear.setMutation (fun _ => hs.mutations _ (by rw [hi]; trivial))
        (fun _ _ => rfl) (fun _ => hs.unsent _ (by rw [hi]; trivial))
  | @send i hi =>
      have hset : Gated (s.setMutation i .requested) :=
        hs.setMutation (fun _ => hs.mutations i (by rw [hi]; trivial))
          (fun _ => hs.emptied i (by rw [hi]; trivial)) (fun hm => hm.elim)
      refine ⟨hset.exclusive, hset.lookups, hset.mutations, hset.invalidations, hset.emptied, ?_⟩
      intro j hj
      have hne : j ≠ i := by
        rintro rfl
        simp [State.setMutation, Mutation.Quiet] at hj
      show Function.update s.sent i true j = false
      rw [Function.update_of_ne hne]
      exact hset.unsent j hj
  | effect =>
      exact ⟨hs.exclusive, hs.lookups, hs.mutations, hs.invalidations, hs.emptied, hs.unsent⟩
  | respond hi =>
      exact hs.setMutation (fun _ => hs.mutations _ (by rw [hi]; trivial))
        (fun _ => hs.emptied _ (by rw [hi]; trivial)) (fun hm => hm.elim)
  | @finish i hi =>
      have hholds : (s.mutation i).Holds := by rw [hi]; trivial
      exact hs.clear.endMutation hholds (fun hm => hm) (fun hm => hm.elim)
  | @panic i hi =>
      have hholds : (s.mutation i).Holds := by rw [hi]; trivial
      exact hs.endMutation hholds (fun hm => hm) (fun hm => hm.elim)
  | @giveBack i hi =>
      have hholds : (s.mutation i).Holds := by rw [hi]; trivial
      exact hs.endMutation hholds (fun hm => hm) (fun _ => hs.unsent _ (by rw [hi]; trivial))
  | goOn => exact hs
  | invalidate | withdrawInvalidation => exact hs.setInvalidation nofun
  | enterInvalidation _ hreaders hwriter =>
      exact (hs.acquire hreaders hwriter).setInvalidation (fun _ => rfl)
  | drain hi =>
      have hend := hs.clear.endInvalidation hi
        (nofun : Invalidation.finished (s.time + 1) ≠ .granted)
      exact ⟨hend.exclusive, hend.lookups, hend.mutations, hend.invalidations, hend.emptied,
        hend.unsent⟩
  | giveBackInvalidation hi => exact hs.endInvalidation hi nofun
  | @evict u =>
      refine ⟨hs.exclusive, hs.lookups, hs.mutations, hs.invalidations, ?_, hs.unsent⟩
      intro j hj u'
      show Function.update s.cache u none u' = none
      rw [Function.update_apply]
      split
      · rfl
      · exact hs.emptied j hj u'

/-! ## Nothing older than what has completed -/

/-- What has completed took effect by `h`, and what was fetched is from then or later. -/
structure Behind (h : Time) (s : State ι K) : Prop where
  now : h ≤ s.time
  effects : ∀ i k, s.effectAt i = some k → k ≤ s.time
  mutations : ∀ i k, s.mutation i = .finished (some k) → k ≤ h
  invalidations : ∀ i k, s.invalidation i = .finished k → k ≤ h
  cached : ∀ u m, s.cache u = some m → h ≤ m
  answered : ∀ i u m, s.lookup i = .answered u m → h ≤ m

variable {h : Time}

omit [DecidableEq ι] [DecidableEq K] in
/-- At first nothing was settled. -/
theorem behind_start : Behind 0 (start : State ι K) where
  now := Nat.le_refl 0
  effects := nofun
  mutations := nofun
  invalidations := nofun
  cached := nofun
  answered := nofun

omit [DecidableEq K] in
/-- A lookup may answer with what was settled by then. -/
theorem Behind.setLookup (hs : Behind h s) {l : Lookup K} (hl : ∀ u m, l = .answered u m → h ≤ m) :
    Behind h (s.setLookup i l) := by
  refine ⟨hs.now, hs.effects, hs.mutations, hs.invalidations, hs.cached, ?_⟩
  intro j u m hj
  change Function.update s.lookup i l j = .answered u m at hj
  rw [Function.update_apply] at hj
  split at hj
  · exact hl u m hj
  · exact hs.answered j u m hj

omit [DecidableEq K] in
/-- A mutation that finishes was settled by then. -/
theorem Behind.setMutation (hs : Behind h s) {m : Mutation}
    (hm : ∀ k, m = .finished (some k) → k ≤ h) :
    Behind h (s.setMutation i m) := by
  refine ⟨hs.now, hs.effects, ?_, hs.invalidations, hs.cached, hs.answered⟩
  intro j k hj
  change Function.update s.mutation i m j = .finished (some k) at hj
  rw [Function.update_apply] at hj
  split at hj
  · exact hm k hj
  · exact hs.mutations j k hj

omit [DecidableEq K] in
/-- An invalidation that finishes was settled by then. -/
theorem Behind.setInvalidation (hs : Behind h s) {v : Invalidation}
    (hv : ∀ k, v = .finished k → k ≤ h) : Behind h (s.setInvalidation i v) := by
  refine ⟨hs.now, hs.effects, hs.mutations, ?_, hs.cached, hs.answered⟩
  intro j k hj
  change Function.update s.invalidation i v j = .finished k at hj
  rw [Function.update_apply] at hj
  split at hj
  · exact hv k hj
  · exact hs.invalidations j k hj

omit [DecidableEq ι] in
/-- A mapping is stored or dropped. -/
theorem Behind.put (hs : Behind h s) (u : K) {entry : Option Time} (hentry : ∀ m ∈ entry, h ≤ m) :
    Behind h { s with cache := Function.update s.cache u entry } := by
  refine ⟨hs.now, hs.effects, hs.mutations, hs.invalidations, ?_, hs.answered⟩
  intro u' m hm
  change Function.update s.cache u entry u' = some m at hm
  rw [Function.update_apply] at hm
  split at hm
  · exact hentry m hm
  · exact hs.cached u' m hm

omit [DecidableEq ι] [DecidableEq K] in
/-- An empty cache holds nothing old. -/
theorem Behind.clear (hs : Behind h s) : Behind h s.clear :=
  ⟨hs.now, hs.effects, hs.mutations, hs.invalidations, nofun, hs.answered⟩

omit [DecidableEq ι] [DecidableEq K] in
/-- Time goes on. -/
theorem Behind.tick (hs : Behind h s) : Behind h { s with time := s.time + 1 } :=
  ⟨Nat.le_succ_of_le hs.now, fun i k hk => Nat.le_succ_of_le (hs.effects i k hk), hs.mutations,
    hs.invalidations, hs.cached, hs.answered⟩

omit [DecidableEq ι] [DecidableEq K] in
/-- It does not matter who holds the gate, and what was sent. -/
theorem Behind.gate (hs : Behind h s) (readers : List ι) (writer : Option (Writer ι))
    (sent : ι → Bool) : Behind h { s with readers, writer, sent } :=
  ⟨hs.now, hs.effects, hs.mutations, hs.invalidations, hs.cached, hs.answered⟩

omit [DecidableEq ι] [DecidableEq K] in
/-- The writer has emptied the cache, and nobody is reading: nothing is left that was fetched. -/
theorem Behind.advance (hs : Behind h s) (hg : Gated s) (hwriter : s.writer ≠ none)
    (hempty : ∀ u, s.cache u = none) : Behind s.time s := by
  refine ⟨Nat.le_refl _, hs.effects, ?_, ?_, ?_, ?_⟩
  · intro j k hj
    exact Nat.le_trans (hs.mutations j k hj) hs.now
  · intro j k hj
    exact Nat.le_trans (hs.invalidations j k hj) hs.now
  · intro u m hm
    exact nomatch (hempty u).symm.trans hm
  · intro j u m hj
    have hreader := hg.lookups j (by rw [hj]; trivial)
    rw [hg.exclusive hwriter] at hreader
    exact nomatch hreader

omit [DecidableEq K] in
/-- The end of a task, with an empty cache. -/
theorem Behind.finish (hs : Behind h s) (hg : Gated s) (hi : (s.mutation i).Holds)
    (hempty : ∀ u, s.cache u = none) : Behind s.time (s.finish i) := by
  have hwriter : s.writer ≠ none := by
    rw [hg.mutations i hi]
    exact nofun
  have hend : Behind s.time (s.setMutation i (.finished (s.effectAt i))) := by
    apply (hs.advance hg hwriter hempty).setMutation
    intro k hk
    exact hs.effects i k (Mutation.finished.inj hk)
  exact hend.gate _ _ _

omit [DecidableEq K] in
/-- A lookup that leaves says nothing. -/
theorem Behind.leave (hs : Behind h s) : Behind h (s.leave i) := by
  have hset : Behind h (s.setLookup i .returned) := hs.setLookup nofun
  exact hset.gate _ _ _

/-- The horizon moves when a writer finishes, and only then. -/
theorem behind_step {a : Action ι K} (hs : Behind h s) (hg : Gated s) (hstep : step s a = some t) :
    ∃ h', Behind h' t := by
  cases step_cases hstep with
  | lookup | request => exact ⟨h, hs.setLookup nofun⟩
  | @enterLookup i u =>
      have hset : Behind h (s.setLookup i (.reading u)) := hs.setLookup nofun
      exact ⟨h, hset.gate _ _ _⟩
  -- What is answered was so at this moment, which is not before the last effect.
  | answer =>
      refine ⟨h, hs.setLookup ?_⟩
      intro u m hl
      cases hl
      exact hs.now
  | @store i u fetched hi =>
      refine ⟨h, hs.leave.put u ?_⟩
      intro m hm
      cases hm
      exact hs.answered i u fetched hi
  | leave => exact ⟨h, hs.leave⟩
  | mutate | respond | withdraw => exact ⟨h, hs.setMutation nofun⟩
  | @enterMutation i =>
      have hset : Behind h (s.setMutation i .granted) := hs.setMutation nofun
      exact ⟨h, hset.gate _ _ _⟩
  | detach => exact ⟨h, hs.clear.setMutation nofun⟩
  | @send i =>
      have hset : Behind h (s.setMutation i .requested) := hs.setMutation nofun
      exact ⟨h, hset.gate _ _ _⟩
  -- An effect moves the time on, and nothing that is settled lies after it.
  | @effect i =>
      refine ⟨h, hs.tick.now, ?_, hs.mutations, hs.invalidations, hs.cached, hs.answered⟩
      intro j k hk
      change Function.update s.effectAt i (some (s.time + 1)) j = some k at hk
      rw [Function.update_apply] at hk
      split at hk
      · cases hk
        exact Nat.le_refl _
      · exact hs.tick.effects j k hk
  -- The cache is empty when a mutation finishes, so nothing in it is older.
  | @finish i hi =>
      have hholds : (s.mutation i).Holds := by rw [hi]; trivial
      exact ⟨s.time, hs.clear.finish hg.clear hholds (fun _ => rfl)⟩
  | @panic i hi =>
      have hruns : (s.mutation i).Runs := by rw [hi]; trivial
      exact ⟨s.time, hs.finish hg hruns.holds (hg.emptied i hruns)⟩
  | @giveBack i =>
      have hset : Behind h (s.setMutation i .cancelled) := hs.setMutation nofun
      exact ⟨h, hset.gate _ _ _⟩
  | goOn => exact ⟨h, hs⟩
  | invalidate | withdrawInvalidation => exact ⟨h, hs.setInvalidation nofun⟩
  | @enterInvalidation i =>
      have hset : Behind h (s.setInvalidation i .granted) := hs.setInvalidation nofun
      exact ⟨h, hset.gate _ _ _⟩
  -- An invalidation ends with an empty cache too.
  | @drain i hi =>
      have hwriter : s.writer ≠ none := by
        rw [hg.invalidations i hi]
        exact nofun
      have hgate : Gated { s.clear with time := s.time + 1 } :=
        ⟨hg.exclusive, hg.lookups, hg.mutations, hg.invalidations, fun _ _ _ => rfl, hg.unsent⟩
      have hnow := hs.clear.tick.advance hgate hwriter (fun _ => rfl)
      refine ⟨s.time + 1, (hnow.setInvalidation ?_).gate _ _ _⟩
      intro k hk
      cases hk
      exact Nat.le_refl _
  | @giveBackInvalidation i =>
      have hset : Behind h (s.setInvalidation i .cancelled) := hs.setInvalidation nofun
      exact ⟨h, hset.gate _ _ _⟩
  | @evict u => exact ⟨h, hs.put u nofun⟩

/-! ## A cancelled mutation stays so -/

/-- A mutation that was dropped stays dropped. -/
theorem cancelled_step {a : Action ι K} (hi : s.mutation i = .cancelled)
    (hstep : step s a = some t) : t.mutation i = .cancelled := by
  have hset : ∀ {j : ι} {m : Mutation}, s.mutation j ≠ .cancelled →
      Function.update s.mutation j m i = .cancelled := by
    intro j m hj
    have hne : i ≠ j := by
      rintro rfl
      exact hj hi
    rw [Function.update_of_ne hne, hi]
  cases step_cases hstep with
  | mutate hj | enterMutation hj | detach hj | send hj | respond hj | finish hj | panic hj
  | withdraw hj | giveBack hj =>
      apply hset
      rw [hj]
      exact nofun
  | _ => exact hi

/-! ## Results -/

/-- The gate is kept along every run. -/
theorem gated_exec {as : List (Action ι K)} (h : client.exec start as = some s) : Gated s :=
  client.exec_invariant Gated (fun hs h => gated_step hs h) gated_start h

/-- Every run has a last moment at which something was settled. -/
theorem behind_exec {as : List (Action ι K)} (h : client.exec start as = some s) :
    ∃ k, Behind k s := by
  have hboth := client.exec_invariant (fun s => Gated s ∧ ∃ k, Behind k s)
    (fun hs h => ⟨gated_step hs.1 h, hs.2.elim fun _ hk => behind_step hk hs.1 h⟩)
    ⟨gated_start, 0, behind_start⟩ h
  exact hboth.2

/-- In every run: no mapping in the cache was fetched before a mutation that has completed took
effect (the last time before that), or before an invalidation that has completed did; and a mutation
that is cancelled before its task has the gate sends nothing, ever. -/
theorem mapping_fresh {as : List (Action ι K)} (h : client.exec start as = some s) :
    (∀ i k, s.mutation i = .finished (some k) → ∀ u m, s.cache u = some m → k ≤ m) ∧
    (∀ i k, s.invalidation i = .finished k → ∀ u m, s.cache u = some m → k ≤ m) ∧
    (∀ i t, s.mutation i = .waiting → client.step s (.cancel i) = some t →
      ∀ bs r, client.exec t bs = some r → r.sent i = false) := by
  obtain ⟨k, hbehind⟩ := behind_exec h
  refine ⟨?_, ?_, ?_⟩
  · intro i e hi u m hm
    exact Nat.le_trans (hbehind.mutations i e hi) (hbehind.cached u m hm)
  · intro i e hi u m hm
    exact Nat.le_trans (hbehind.invalidations i e hi) (hbehind.cached u m hm)
  · -- A mutation that is dropped while it waits stays dropped, and sends nothing.
    intro i t hi hcancel bs r hr
    have ht : t.mutation i = .cancelled := by
      simp only [client, step, hi] at hcancel
      cases hcancel
      simp [State.setMutation]
    have hkept := client.exec_invariant
      (fun s : State ι K => Gated s ∧ s.mutation i = .cancelled)
      (fun hs h => ⟨gated_step hs.1 h, cancelled_step hs.2 h⟩)
      ⟨gated_step (a := .cancel i) (gated_exec h) hcancel, ht⟩ hr
    exact hkept.1.unsent i (by rw [hkept.2]; trivial)

end Client

/-- A lookup after a mutation: the mapping is from after its effect. -/
theorem mapping_fresh_sample : ∃ s : State Unit Unit,
    client.exec start [.mutate (), .enterMutation (), .detach (), .cancel (), .send (), .effect (),
      .respond (), .finish (), .lookup () (), .enterLookup (), .look (), .answer (), .store ()] =
        some s ∧ s.mutation () = .finished (some 1) ∧ ∀ m, s.cache () = some m → 1 ≤ m := by
  have hexec : ∃ s : State Unit Unit, client.exec start
      [.mutate (), .enterMutation (), .detach (), .cancel (), .send (), .effect (), .respond (),
        .finish (), .lookup () (), .enterLookup (), .look (), .answer (), .store ()] = some s ∧
      s.mutation () = .finished (some 1) := ⟨_, rfl, rfl⟩
  obtain ⟨s, hs, hfinished⟩ := hexec
  exact ⟨s, hs, hfinished, (mapping_fresh hs).1 () 1 hfinished ()⟩

/-- The request times out, and the server acts on it later: the mapping was fetched in between,
after the mutation had completed and before it took effect. -/
theorem mapping_late : ∃ s : State Unit Unit,
    client.exec start [.mutate (), .enterMutation (), .detach (), .send (), .respond (), .finish (),
      .lookup () (), .enterLookup (), .look (), .answer (), .store (), .effect ()] = some s ∧
    ¬ ∀ i effect k, s.mutation i = .finished effect → s.effectAt i = some k →
      ∀ u m, s.cache u = some m → k ≤ m := by
  have hexec : ∃ s : State Unit Unit, client.exec start
      [.mutate (), .enterMutation (), .detach (), .send (), .respond (), .finish (), .lookup () (),
        .enterLookup (), .look (), .answer (), .store (), .effect ()] = some s ∧
      s.mutation () = .finished none ∧ s.effectAt () = some 1 ∧ s.cache () = some 0 :=
    ⟨_, rfl, rfl, rfl, rfl⟩
  obtain ⟨s, hs, hfinished, heffect, hcache⟩ := hexec
  refine ⟨s, hs, ?_⟩
  intro hfresh
  exact absurd (hfresh () none 1 hfinished heffect () 0 hcache) (by decide)

end ProtonDrive.ContextShare
