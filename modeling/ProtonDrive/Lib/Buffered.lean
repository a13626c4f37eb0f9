import ProtonDrive.Lib.TaskStream

/-!
# Buffered streams

A stream of futures that is `buffered(n)`: at most `n` of them are polled at a time, in any order,
and their results come out in the order of the stream. The futures share a state, which each poll
may write, and which others may write between polls. A future is a task whose steps are polls
(`Future.machine`), so that the streams are streams of tasks.

* `Future` — polls until a result.
* `Buffer` — the futures of a stream, the ones that have been taken in and the others.
* `Yields I` — as long as the shared state keeps `I`, the future keeps it too and ends with a result
  that does not depend on it. `step_due` and `pop_due`: if all futures of a stream do, it yields
  their results, whatever is polled when. `exists_pop`: there is a way to get the next one.
-/

/-- A future over a shared state. A poll writes it, and goes on with what it has read. -/
inductive Future (σ α : Type) where
  | ready (a : α)
  | poll (write : σ → σ) (next : σ → Future σ α)

/-- A buffered stream: `inFlight` has the futures that have been taken in, the oldest first. -/
structure Buffer (σ α : Type) where
  waiting : List (Future σ α)
  inFlight : List (Future σ α)

inductive BufferAction where
  | take
  | poll (i : Nat)
  deriving DecidableEq, Repr

namespace Future

variable {σ α : Type}

/-- A future that is polled alone. -/
def alone : Future σ α → σ → σ × α
  | ready a, s => (s, a)
  | poll write next, s => (next s).alone (write s)

/-- While `I` holds of the shared state, the future keeps it, and its result is `a`. -/
inductive Yields (I : σ → Prop) : Future σ α → α → Prop where
  | ready (a : α) : Yields I (.ready a) a
  | poll {write : σ → σ} {next : σ → Future σ α} {a : α} (hwrite : ∀ s, I s → I (write s))
      (hnext : ∀ s, I s → Yields I (next s) a) : Yields I (.poll write next) a

theorem Yields.alone {I : σ → Prop} {future : Future σ α} {a : α} (h : Yields I future a) {s : σ}
    (hs : I s) : (future.alone s).2 = a := by
  induction h generalizing s with
  | ready a => rfl
  | poll hwrite _ ih => exact ih s hs (hwrite s hs)

/-- A future as a task. -/
def machine : Machine (σ × Future σ α) Unit where
  step p _ :=
    match p.2 with
    | ready _ => none
    | poll write next => some (write p.1, next p.1)

def result : Future σ α → Option α
  | ready a => some a
  | poll _ _ => none

theorem settles (I : σ → Prop) :
    TaskStream.Settles (machine : Machine (σ × Future σ α) Unit) result I (Yields I) where
  step {s s' future future' _ a} hs hyields h := by
    cases hyields with
    | ready a => cases h
    | poll hwrite hnext =>
        cases h
        exact ⟨hwrite s hs, hnext s hs⟩
  returns {future a a'} hyields h := by
    cases hyields with
    | ready a =>
        cases h
        rfl
    | poll hwrite hnext => cases h
  ends {s future a} hs hyields := by
    induction hyields generalizing s with
    -- By induction on the future: each poll brings it nearer to its value.
    | ready a => exact ⟨[], s, .ready a, rfl, rfl⟩
    | @poll write next a hwrite hnext ih =>
        obtain ⟨actions, s', future', hexec, hresult⟩ := ih s hs (hwrite s hs)
        exact ⟨() :: actions, s', future', hexec, hresult⟩

end Future

namespace Buffer

open Future

variable {σ α : Type}

/-- A stream of which nothing has been taken in. -/
def start (futures : List (Future σ α)) : Buffer σ α := ⟨futures, []⟩

def empty : Buffer σ α := start []

/-- The stream is over. -/
def Over (b : Buffer σ α) : Prop := b.waiting = [] ∧ b.inFlight = []

instance (b : Buffer σ α) : Decidable b.Over :=
  decidable_of_iff (b.waiting.isEmpty && b.inFlight.isEmpty) (by simp [Over])

def step (n : Nat) (s : σ) (b : Buffer σ α) : BufferAction → Option (σ × Buffer σ α)
  | .take =>
      match b.waiting with
      | [] => none
      | future :: waiting =>
          if b.inFlight.length < n then some (s, ⟨waiting, b.inFlight ++ [future]⟩) else none
  | .poll i =>
      match b.inFlight[i]? with
      | some (.poll write next) => some (write s, { b with inFlight := b.inFlight.set i (next s) })
      | _ => none

/-- The next result, if it is there. -/
def pop (b : Buffer σ α) : Option (α × Buffer σ α) :=
  match b.inFlight with
  | .ready a :: inFlight => some (a, { b with inFlight := inFlight })
  | _ => none

/-- What is to come from the stream. -/
def Due (I : σ → Prop) (b : Buffer σ α) (as : List α) : Prop :=
  List.Forall₂ (Yields I) (b.inFlight ++ b.waiting) as

variable {I : σ → Prop} {n : Nat} {s s' : σ} {b b' : Buffer σ α} {a : α} {as : List α}

theorem due_start {futures : List (Future σ α)} (h : List.Forall₂ (Yields I) futures as) :
    (start futures).Due I as := h

theorem over_empty : (empty : Buffer σ α).Over := ⟨rfl, rfl⟩

/-- The stream of tasks that a buffer is. -/
def tasks (b : Buffer σ α) : TaskStream (Future σ α) := ⟨b.waiting, b.inFlight⟩

theorem Due.tasks (h : b.Due I as) : b.tasks.Due (Yields I) as := h

theorem Due.over_iff (h : b.Due I as) : b.Over ↔ as = [] := h.tasks.over_iff

/-! ## Steps -/

theorem step_tasks {action : BufferAction} (h : step n s b action = some (s', b')) :
    ∃ action', TaskStream.step Future.machine n s b.tasks action' = some (s', b'.tasks) := by
  cases action with
  | take =>
      -- Taking a future is taking a task, under the same bound.
      refine ⟨.take, ?_⟩
      simp only [step] at h
      unfold TaskStream.step tasks
      split at h
      · cases h
      · next future waiting hwaiting =>
        rw [hwaiting]
        split at h
        · next hroom =>
          cases h
          exact if_pos hroom
        · cases h
  | poll i =>
      refine ⟨.run i (), ?_⟩
      simp only [step] at h
      unfold TaskStream.step tasks
      split at h
      · next write next hi =>
        cases h
        simp only [hi]
        rfl
      · cases h

/-- **One step** keeps the invariant, and what is to come. -/
theorem step_due {action : BufferAction} (hs : I s) (hdue : b.Due I as)
    (h : step n s b action = some (s', b')) : I s' ∧ b'.Due I as := by
  obtain ⟨action', h'⟩ := step_tasks h
  exact (Future.settles I).step_due hs hdue.tasks h'

/-- **The next result** is the first that is to come. -/
theorem pop_due (hdue : b.Due I as) (h : b.pop = some (a, b')) :
    ∃ rest, as = a :: rest ∧ b'.Due I rest := by
  have hpop : b.tasks.pop Future.result = some (a, b'.tasks) := by
    unfold pop at h
    split at h
    · next inFlight hfirst =>
      cases h
      unfold TaskStream.pop tasks
      rw [hfirst]
      rfl
    · cases h
  exact (Future.settles I).pop_due hdue.tasks hpop

/-! ## Progress -/

/-- Steps of one stream, one after the other. -/
def run (n : Nat) : σ → Buffer σ α → List BufferAction → Option (σ × Buffer σ α)
  | s, b, [] => some (s, b)
  | s, b, action :: actions => (step n s b action).bind (fun p => run n p.1 p.2 actions)

/-- The oldest future can be polled alone, to its end. -/
theorem run_alone (n : Nat) (future : Future σ α) (inFlight waiting : List (Future σ α)) (s : σ) :
    ∃ actions, run n s ⟨waiting, future :: inFlight⟩ actions =
      some ((future.alone s).1, ⟨waiting, .ready (future.alone s).2 :: inFlight⟩) := by
  induction future generalizing s with
  | ready a => exact ⟨[], rfl⟩
  | poll write next ih =>
      obtain ⟨actions, hrun⟩ := ih s (write s)
      exact ⟨.poll 0 :: actions, hrun⟩

/-- The first future of a stream can be taken in and polled alone. -/
theorem run_take_alone (hn : 0 < n) (future : Future σ α) (waiting : List (Future σ α)) (s : σ) :
    ∃ actions, run n s ⟨future :: waiting, []⟩ actions =
      some ((future.alone s).1, ⟨waiting, [.ready (future.alone s).2]⟩) := by
  have htake : step n s ⟨future :: waiting, []⟩ .take = some (s, ⟨waiting, [future]⟩) := if_pos hn
  obtain ⟨actions, hrun⟩ := run_alone n future [] waiting s
  refine ⟨.take :: actions, ?_⟩
  show (step n s ⟨future :: waiting, []⟩ .take).bind _ = _
  rw [htake]
  exact hrun

/-- **A stream that is not over** can be polled until its next result is there. -/
theorem exists_pop (hn : 0 < n) (hs : I s) (hdue : b.Due I (a :: as)) :
    ∃ actions s' b', run n s b actions = some (s', b') ∧ ∃ rest, b'.pop = some (a, rest) := by
  obtain ⟨waiting, inFlight⟩ := b
  unfold Due at hdue
  cases inFlight with
  | cons future inFlight =>
      rw [List.cons_append] at hdue
      cases hdue with
      | cons hyields _ =>
          obtain ⟨actions, hrun⟩ := run_alone n future inFlight waiting s
          rw [hyields.alone hs] at hrun
          exact ⟨actions, _, ⟨waiting, .ready a :: inFlight⟩, hrun, ⟨waiting, inFlight⟩, rfl⟩
  | nil =>
      rw [List.nil_append] at hdue
      cases hdue with
      | @cons future _ waiting _ hyields _ =>
          obtain ⟨actions, hrun⟩ := run_take_alone hn future waiting s
          rw [hyields.alone hs] at hrun
          exact ⟨actions, _, ⟨waiting, [.ready a]⟩, hrun, ⟨waiting, []⟩, rfl⟩

theorem run_due {actions : List BufferAction} (hs : I s) (hdue : b.Due I as)
    (h : run n s b actions = some (s', b')) : I s' ∧ b'.Due I as := by
  induction actions generalizing s b with
  | nil =>
      cases h
      exact ⟨hs, hdue⟩
  | cons action actions ih =>
      obtain ⟨⟨s1, b1⟩, hstep, hrest⟩ := Option.bind_eq_some_iff.mp h
      obtain ⟨hs1, hdue1⟩ := step_due hs hdue hstep
      exact ih hs1 hdue1 hrest

end Buffer
