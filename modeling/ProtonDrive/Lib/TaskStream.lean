import ProtonDrive.Lib.Forall2
import ProtonDrive.Lib.Machine

/-!
# Buffered streams of tasks

A stream that is `buffered(n)`, of tasks that are machines: each has a state of its own and takes
its steps on it and on a state that all tasks share. At most `n` tasks are under way, any of them may
take the next step, and their results come out in the order of the stream.

* `TaskStream.machine` — the stream as a machine.
* `Settles I R` — while the shared state keeps `I`, a task keeps it too, what it is going to return
  (the relation `R`) does not change, and it can be brought to its end.
* `step_due`, `pop_due`, `exists_pop` — a stream of such tasks yields what they are going to return,
  whatever runs when, and can always be brought to its next result.
-/

/-- `inFlight` has the tasks that have been taken in, the oldest first. -/
structure TaskStream (τ : Type) where
  waiting : List τ
  inFlight : List τ

inductive TaskStreamAction (β : Type) where
  | take
  /-- The `i`-th of the tasks under way takes a step. -/
  | run (i : Nat) (action : β)
  deriving DecidableEq, Repr

namespace TaskStream

variable {σ τ α β : Type}

/-- A stream of which nothing has been taken in. -/
def start (tasks : List τ) : TaskStream τ := ⟨tasks, []⟩

/-- The stream is over. -/
def Over (b : TaskStream τ) : Prop := b.waiting = [] ∧ b.inFlight = []

instance (b : TaskStream τ) : Decidable b.Over :=
  decidable_of_iff (b.waiting.isEmpty && b.inFlight.isEmpty) (by simp [Over])

section

variable (M : Machine (σ × τ) β) (n : Nat)

def step (s : σ) (b : TaskStream τ) : TaskStreamAction β → Option (σ × TaskStream τ)
  | .take =>
      match b.waiting with
      | [] => none
      | task :: waiting =>
          if b.inFlight.length < n then some (s, ⟨waiting, b.inFlight ++ [task]⟩) else none
  | .run i action =>
      match b.inFlight[i]? with
      | none => none
      | some task =>
          (M.step (s, task) action).map
            (fun p => (p.1, { b with inFlight := b.inFlight.set i p.2 }))

def machine : Machine (σ × TaskStream τ) (TaskStreamAction β) :=
  ⟨fun p action => step M n p.1 p.2 action⟩

end

/-- The next result, if it is there. -/
def pop (result : τ → Option α) (b : TaskStream τ) : Option (α × TaskStream τ) :=
  match b.inFlight with
  | [] => none
  | task :: inFlight => (result task).map (fun a => (a, { b with inFlight := inFlight }))

/-- What is to come from the stream. -/
def Due (R : τ → α → Prop) (b : TaskStream τ) (as : List α) : Prop :=
  List.Forall₂ R (b.inFlight ++ b.waiting) as

/-- While `I` holds of the shared state, a task that is going to return `a` keeps `I`, is still
going to return `a` after a step, and can be brought there. -/
structure Settles (M : Machine (σ × τ) β) (result : τ → Option α) (I : σ → Prop)
    (R : τ → α → Prop) : Prop where
  step : ∀ {s s' : σ} {task task' : τ} {action : β} {a : α}, I s → R task a →
    M.step (s, task) action = some (s', task') → I s' ∧ R task' a
  returns : ∀ {task : τ} {a a' : α}, R task a → result task = some a' → a' = a
  ends : ∀ {s : σ} {task : τ} {a : α}, I s → R task a →
    ∃ actions s' task', M.exec (s, task) actions = some (s', task') ∧ result task' = some a

variable {M : Machine (σ × τ) β} {result : τ → Option α} {I : σ → Prop} {R : τ → α → Prop} {n : Nat}
  {s s' : σ} {b b' : TaskStream τ} {a : α} {as : List α}

theorem due_start {tasks : List τ} (h : List.Forall₂ R tasks as) : (start tasks).Due R as := h

theorem Due.over_iff (h : b.Due R as) : b.Over ↔ as = [] := by
  have hlength := List.Forall₂.length_eq h
  rw [List.length_append] at hlength
  unfold Over
  rw [← List.length_eq_zero_iff, ← List.length_eq_zero_iff, ← List.length_eq_zero_iff]
  omega

/-! ## Steps -/

theorem step_take (h : step M n s b .take = some (s', b')) :
    s' = s ∧ b'.inFlight ++ b'.waiting = b.inFlight ++ b.waiting := by
  simp only [step] at h
  split at h
  · cases h
  · next task waiting hwaiting =>
    split at h
    · cases h
      rw [hwaiting]
      exact ⟨rfl, by simp⟩
    · cases h

theorem step_run {i : Nat} {action : β} (h : step M n s b (.run i action) = some (s', b')) :
    ∃ task task', b.inFlight[i]? = some task ∧ M.step (s, task) action = some (s', task') ∧
      b' = { b with inFlight := b.inFlight.set i task' } := by
  simp only [step] at h
  split at h
  · cases h
  · next task hi =>
    obtain ⟨⟨s1, task'⟩, htask, heq⟩ := Option.map_eq_some_iff.mp h
    cases heq
    exact ⟨task, task', hi, htask, rfl⟩

/-- **One step** keeps the invariant, and what is to come. -/
theorem Settles.step_due (hM : Settles M result I R) {action : TaskStreamAction β} (hs : I s)
    (hdue : b.Due R as) (h : TaskStream.step M n s b action = some (s', b')) :
    I s' ∧ b'.Due R as := by
  cases action with
  | take =>
      obtain ⟨rfl, hsame⟩ := step_take h
      refine ⟨hs, ?_⟩
      unfold Due
      rw [hsame]
      exact hdue
  | run i action =>
      obtain ⟨task, task', hi, htask, rfl⟩ := step_run h
      obtain ⟨hlt, -⟩ := List.getElem?_eq_some_iff.mp hi
      have hi' : (b.inFlight ++ b.waiting)[i]? = some task := by
        rw [List.getElem?_append_left hlt]
        exact hi
      -- The task that runs is going to return something, so it keeps the invariant.
      obtain ⟨a, -, ha⟩ := List.Forall₂.exists_getElem? hdue hi'
      refine ⟨(hM.step hs ha htask).1, ?_⟩
      unfold Due
      show List.Forall₂ R (b.inFlight.set i task' ++ b.waiting) as
      rw [← List.set_append_left _ _ hlt]
      apply List.Forall₂.set_left hdue hi'
      intro a' ha'
      exact (hM.step hs ha' htask).2

theorem Settles.exec_due (hM : Settles M result I R) {actions : List (TaskStreamAction β)}
    (hs : I s) (hdue : b.Due R as) (h : (machine M n).exec (s, b) actions = some (s', b')) :
    I s' ∧ b'.Due R as := by
  apply (machine M n).exec_invariant (fun p => I p.1 ∧ p.2.Due R as) _
    (show I s ∧ b.Due R as from ⟨hs, hdue⟩) h
  intro p action q hp hstep
  exact hM.step_due hp.1 hp.2 hstep

/-- **The next result** is the first that is to come. -/
theorem Settles.pop_due (hM : Settles M result I R) (hdue : b.Due R as)
    (h : b.pop result = some (a, b')) : ∃ rest, as = a :: rest ∧ b'.Due R rest := by
  unfold pop at h
  split at h
  · cases h
  · next task inFlight hfirst =>
    obtain ⟨a', ha', heq⟩ := Option.map_eq_some_iff.mp h
    cases heq
    unfold Due at hdue
    rw [hfirst, List.cons_append] at hdue
    cases hdue with
    | @cons _ due _ rest htask hrest =>
        cases hM.returns htask ha'
        exact ⟨rest, rfl, hrest⟩

/-! ## Progress -/

/-- What the oldest task does alone, the stream does. -/
theorem exec_oldest {task task' : τ} {actions : List β} (waiting inFlight : List τ)
    (h : M.exec (s, task) actions = some (s', task')) :
    ∃ steps, (machine M n).exec (s, ⟨waiting, task :: inFlight⟩) steps =
      some (s', ⟨waiting, task' :: inFlight⟩) := by
  apply M.exec_refines (fun p => ((p.1, ⟨waiting, p.2 :: inFlight⟩) : σ × TaskStream τ)) _ h
  rintro ⟨r, old⟩ action ⟨r', new⟩ hstep
  refine ⟨[.run 0 action], (machine M n).exec_singleton ?_⟩
  show (M.step (r, old) action).map _ = _
  rw [hstep]
  rfl

theorem pop_oldest {task : τ} {waiting inFlight : List τ} (h : result task = some a) :
    pop result ⟨waiting, task :: inFlight⟩ = some (a, ⟨waiting, inFlight⟩) := by
  show (result task).map _ = _
  rw [h]
  rfl

/-- **A stream that is not over** can be run until its next result is there. -/
theorem Settles.exists_pop (hM : Settles M result I R) (hn : 0 < n) (hs : I s)
    (hdue : b.Due R (a :: as)) :
    ∃ actions s' b' rest, (machine M n).exec (s, b) actions = some (s', b') ∧
      b'.pop result = some (a, rest) := by
  obtain ⟨waiting, inFlight⟩ := b
  unfold Due at hdue
  cases inFlight with
  -- The oldest task is at work, and can be brought to its end.
  | cons task inFlight =>
      rw [List.cons_append] at hdue
      cases hdue with
      | cons htask _ =>
          obtain ⟨actions, s', task', hrun, hresult⟩ := hM.ends hs htask
          obtain ⟨steps, hsteps⟩ := exec_oldest (n := n) waiting inFlight hrun
          exact ⟨steps, s', _, _, hsteps, pop_oldest hresult⟩
  -- None is at work, so that there is room to take the first that waits.
  | nil =>
      rw [List.nil_append] at hdue
      cases hdue with
      | @cons task _ waiting _ htask _ =>
          obtain ⟨actions, s', task', hrun, hresult⟩ := hM.ends hs htask
          obtain ⟨steps, hsteps⟩ := exec_oldest (n := n) waiting [] hrun
          have htake : (machine M n).step (s, ⟨task :: waiting, []⟩) .take =
              some (s, ⟨waiting, [task]⟩) := if_pos hn
          have hexec := (machine M n).exec_cons_iff.mpr ⟨_, htake, hsteps⟩
          exact ⟨.take :: steps, s', _, _, hexec, pop_oldest hresult⟩

end TaskStream
