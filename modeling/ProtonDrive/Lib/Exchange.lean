import ProtonDrive.Lib.Program

/-!
# Programs that keep a log of what they send

A program that talks to a server, over a state of which nothing is known. What it sends, and what it
is answered, is written to a log, so that a property of all requests of a run is a property of the
log at its end.

* `SplitsAtLast` — a log, around the last entry of a kind.
* `inside` — a call that sends nothing of what is logged.
* `exchange` — a call that is logged with its answer.
* `Returns` — the call comes back, with an error or not.
-/

/-- A state with a log, the oldest entry first. -/
structure Logged (σ ρ : Type) where
  state : σ
  log : List ρ

/-- The log around its last entry with a property. -/
structure SplitsAtLast {ρ : Type} (p : ρ → Prop) (log before : List ρ) (entry : ρ)
    (after : List ρ) : Prop where
  log_eq : log = before ++ entry :: after
  here : p entry
  after : ∀ e ∈ after, ¬ p e

namespace SplitsAtLast

variable {ρ : Type} {p : ρ → Prop} {log before before' after after' : List ρ} {entry entry' : ρ}

theorem of_exists (h : ∃ e ∈ log, p e) : ∃ before last after, SplitsAtLast p log before last after := by
  induction log with
  | nil =>
      obtain ⟨e, he, -⟩ := h
      cases he
  | cons e log ih =>
      by_cases hlater : ∃ e' ∈ log, p e'
      · obtain ⟨before, last, after, hlast⟩ := ih hlater
        exact ⟨e :: before, last, after, congrArg (List.cons e) hlast.log_eq, hlast.here, hlast.after⟩
      · obtain ⟨e', he', hp⟩ := h
        rcases List.mem_cons.mp he' with rfl | he'
        · exact ⟨[], e', log, rfl, hp, fun e he hpe => hlater ⟨e, he, hpe⟩⟩
        · exact absurd ⟨e', he', hp⟩ hlater

/-- There is one last entry. -/
theorem unique (h : SplitsAtLast p log before entry after)
    (h' : SplitsAtLast p log before' entry' after') :
    before = before' ∧ entry = entry' ∧ after = after' := by
  obtain ⟨rfl, hp, hafter⟩ := h
  obtain ⟨heq, hp', hafter'⟩ := h'
  -- The last entry cannot lie further left in one of the two, as its like would come after it.
  induction before generalizing before' with
  | nil =>
      cases before' with
      | nil =>
          obtain ⟨rfl, rfl⟩ := List.cons.inj heq
          exact ⟨rfl, rfl, rfl⟩
      | cons e before' =>
          obtain ⟨-, rfl⟩ := List.cons.inj heq
          exact absurd hp' (hafter entry' (List.mem_append_right _ List.mem_cons_self))
  | cons e before ih =>
      cases before' with
      | nil =>
          obtain ⟨-, rfl⟩ := List.cons.inj heq
          exact absurd hp (hafter' entry (List.mem_append_right _ List.mem_cons_self))
      | cons e' before' =>
          obtain ⟨rfl, htail⟩ := List.cons.inj heq
          obtain ⟨rfl, hentry, hrest⟩ := ih htail
          exact ⟨rfl, hentry, hrest⟩

end SplitsAtLast

namespace Program

variable {σ ε ρ α β κ : Type}

/-- The program comes back from every state. -/
def Returns (x : Program σ ε α) : Prop := ∀ s, ∃ s' r, x.run s = some (s', r)

/-- A call that leaves the log as it is. -/
def inside (x : Program σ ε α) : Program (Logged σ ρ) ε α where
  run s := (x.run s.state).map (fun p => (⟨p.1, s.log⟩, p.2))

/-- A call that is logged with its answer. -/
def exchange (request : κ) (x : Program σ ε α) :
    Program (Logged σ (κ × Except ε α)) ε (Except ε α) where
  run s := (x.run s.state).map (fun p => (⟨p.1, s.log ++ [(request, p.2)]⟩, .ok p.2))

theorem Returns.inside {x : Program σ ε α} (h : x.Returns) (s : Logged σ ρ) :
    ∃ t r, (inside x).run s = some (⟨t, s.log⟩, r) := by
  obtain ⟨t, r, hx⟩ := h s.state
  exact ⟨t, r, by simp only [Program.inside, hx, Option.map_some]⟩

theorem Returns.exchange {x : Program σ ε α} (h : x.Returns) (request : κ)
    (s : Logged σ (κ × Except ε α)) :
    ∃ t r, (exchange request x).run s = some (⟨t, s.log ++ [(request, r)]⟩, .ok r) := by
  obtain ⟨t, r, hx⟩ := h s.state
  exact ⟨t, r, by simp only [Program.exchange, hx, Option.map_some]⟩

/-- A call whose error is a value. -/
theorem Returns.inside_attempt {x : Program σ ε α} (h : x.Returns) (s : Logged σ ρ) :
    ∃ t r, (Program.inside x).attempt.run s = some (⟨t, s.log⟩, .ok r) := by
  obtain ⟨t, r, hx⟩ := h.inside s
  exact ⟨t, r, attempt_run.mpr hx⟩

/-- Nothing was logged, and the program came back. -/
def Quiet (x : Program (Logged σ ρ) ε α) : Prop :=
  ∀ s, ∃ t r, x.run s = some (⟨t, s.log⟩, r)

theorem Quiet.pure (a : α) : Quiet (Pure.pure a : Program (Logged σ ρ) ε α) :=
  fun s => ⟨s.state, .ok a, rfl⟩

theorem Quiet.inside {x : Program σ ε α} (h : x.Returns) :
    Quiet (Program.inside x : Program (Logged σ ρ) ε α) :=
  fun s => h.inside s

theorem Quiet.ofExcept (r : Except ε α) : Quiet (Program.ofExcept r : Program (Logged σ ρ) ε α) :=
  fun s => ⟨s.state, r, rfl⟩

theorem Quiet.attempt {x : Program (Logged σ ρ) ε α} (h : Quiet x) : Quiet x.attempt := by
  intro s
  obtain ⟨t, r, hrun⟩ := h s
  exact ⟨t, .ok r, attempt_run.mpr hrun⟩

theorem Quiet.bind {x : Program (Logged σ ρ) ε α} {f : α → Program (Logged σ ρ) ε β}
    (hx : Quiet x) (hf : ∀ a, Quiet (f a)) : Quiet (x >>= f) := by
  intro s
  obtain ⟨t, r, hrun⟩ := hx s
  cases r with
  | error e => exact ⟨t, .error e, bind_error hrun⟩
  | ok a =>
      obtain ⟨t', r', hrest⟩ := hf a ⟨t, s.log⟩
      exact ⟨t', r', by rw [bind_ok hrun]; exact hrest⟩

/-- A quiet call that may end the program, and what comes after it. -/
theorem Quiet.bind_exists {x : Program (Logged σ ρ) ε α} {f : α → Program (Logged σ ρ) ε β}
    {s : Logged σ ρ} {Q : Logged σ ρ → Except ε β → Prop} (hx : Quiet x)
    (herror : ∀ t e, Q ⟨t, s.log⟩ (.error e))
    (hf : ∀ t a, ∃ s' r, (f a).run ⟨t, s.log⟩ = some (s', r) ∧ Q s' r) :
    ∃ s' r, (x >>= f).run s = some (s', r) ∧ Q s' r := by
  obtain ⟨t, r, hrun⟩ := hx s
  cases r with
  | error e => exact ⟨_, _, bind_error hrun, herror t e⟩
  | ok a =>
      obtain ⟨s', r', hrest, hQ⟩ := hf t a
      exact ⟨s', r', by rw [bind_ok hrun]; exact hrest, hQ⟩

theorem Quiet.traverse {f : α → Program (Logged σ ρ) ε β} (hf : ∀ a, Quiet (f a)) :
    ∀ l, Quiet (Program.traverse f l)
  | [] => .pure []
  | a :: l => .bind (hf a) (fun b => .bind (Quiet.traverse hf l) (fun bs => .pure (b :: bs)))

end Program
