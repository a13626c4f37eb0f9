import Mathlib.Logic.Function.Basic
import ProtonDrive.Lib.Dialogue
import ProtonDrive.Lib.Machine

/-!
# Cells that are filled once

Callers that need a value look whether it is there, and otherwise queue for a guard, look again, and
work the value out by a dialogue. The guard goes back when the dialogue is over, whatever came of it,
and when its holder is dropped. Any caller may move between any two steps, and the world may too.

* `Sound` — one caller at a time is behind the guard, a cell is not worked on once it is filled, and
  whoever got a value got what is in the cell.
* `Kept` — what the dialogue keeps along its text (`Dialogue.Safe`), every run keeps.
* `cell_stays` — a filled cell stays as it is.
* `progress` — whoever queues can enter, or waits for a caller that can take a step.
-/

namespace Once

/-- Where a call stands. -/
inductive Caller (Q : Type) (A : Q → Type) (ε α : Type) where
  | idle
  | queued
  /-- Behind the guard, about to look a second time. -/
  | holding
  | working (q : Q) (next : Except ε (A q) → Dialogue Q A ε α)
  | returned (r : Except ε α)
  | dropped

/-- The caller has the guard. -/
def Caller.Inside {Q : Type} {A : Q → Type} {ε α : Type} : Caller Q A ε α → Prop
  | .holding => True
  | .working _ _ => True
  | _ => False

structure State (ι Q : Type) (A : Q → Type) (ε α σ : Type) where
  cell : Option α
  guard : Option ι
  caller : ι → Caller Q A ε α
  world : σ

/-- A step of caller `i`, or a move of the world. -/
inductive Action (ι χ μ : Type) where
  | enter (i : ι)
  | acquire (i : ι)
  | recheck (i : ι)
  | answer (i : ι) (x : χ)
  | drop (i : ι) (x : χ)
  | move (m : μ)

section Machine

variable {ι Q : Type} {A : Q → Type} {ε α σ χ μ : Type} [DecidableEq ι]

def State.setCaller (s : State ι Q A ε α σ) (i : ι) (c : Caller Q A ε α) : State ι Q A ε α σ :=
  { s with caller := Function.update s.caller i c }

/-- The guard's holder goes on to its next question, or is done. -/
def State.settle (s : State ι Q A ε α σ) (i : ι) : Dialogue Q A ε α → State ι Q A ε α σ
  | .pure a => { (s.setCaller i (.returned (.ok a))) with cell := some a, guard := none }
  | .fail e => { (s.setCaller i (.returned (.error e))) with guard := none }
  | .ask q next => s.setCaller i (.working q next)

variable (env : Environment Q A ε σ χ μ) (init : Dialogue Q A ε α)

def step (s : State ι Q A ε α σ) : Action ι χ μ → Option (State ι Q A ε α σ)
  | .enter i =>
      match s.caller i with
      | .idle =>
          some (s.setCaller i (match s.cell with
            | some a => .returned (.ok a)
            | none => .queued))
      | _ => none
  | .acquire i =>
      match s.caller i, s.guard with
      | .queued, none => some { (s.setCaller i .holding) with guard := some i }
      | _, _ => none
  | .recheck i =>
      match s.caller i with
      | .holding =>
          some (match s.cell with
            | some a => { (s.setCaller i (.returned (.ok a))) with guard := none }
            | none => s.settle i init)
      | _ => none
  | .answer i x =>
      match s.caller i with
      | .working q next =>
          some ({ s with world := (env.answer q x s.world).1 }.settle i
            (next (env.answer q x s.world).2))
      | _ => none
  | .drop i x =>
      match s.caller i with
      | .queued => some (s.setCaller i .dropped)
      | .holding => some { (s.setCaller i .dropped) with guard := none }
      | .working q _ =>
          some { (s.setCaller i .dropped) with
            guard := none
            world := env.abandon q x s.world }
      | _ => none
  | .move m => some { s with world := env.move m s.world }

/-- The callers of one cell, as a machine. -/
def callers : Machine (State ι Q A ε α σ) (Action ι χ μ) := ⟨step env init⟩

/-- Nobody has called. -/
def start (world : σ) : State ι Q A ε α σ := ⟨none, none, fun _ => .idle, world⟩

/-! ## What a step does -/

/-- The kinds of step. -/
inductive Step (s : State ι Q A ε α σ) : State ι Q A ε α σ → Prop
  | seen {i a} : s.caller i = .idle → s.cell = some a → Step s (s.setCaller i (.returned (.ok a)))
  | queue {i} : s.caller i = .idle → s.cell = none → Step s (s.setCaller i .queued)
  | acquire {i} : s.caller i = .queued → s.guard = none →
      Step s { (s.setCaller i .holding) with guard := some i }
  | reseen {i a} : s.caller i = .holding → s.cell = some a →
      Step s { (s.setCaller i (.returned (.ok a))) with guard := none }
  | begin {i} : s.caller i = .holding → s.cell = none → Step s (s.settle i init)
  | answer {i q next} (x : χ) : s.caller i = .working q next →
      Step s ({ s with world := (env.answer q x s.world).1 }.settle i
        (next (env.answer q x s.world).2))
  | leave {i} : s.caller i = .queued → Step s (s.setCaller i .dropped)
  | release {i} : s.caller i = .holding →
      Step s { (s.setCaller i .dropped) with guard := none }
  | abandon {i q next} (x : χ) : s.caller i = .working q next →
      Step s { (s.setCaller i .dropped) with guard := none, world := env.abandon q x s.world }
  | move (m : μ) : Step s { s with world := env.move m s.world }

variable {env init} {s t : State ι Q A ε α σ}

theorem step_cases {a : Action ι χ μ} (h : step env init s a = some t) : Step env init s t := by
  cases a with
  | enter i =>
      simp only [step] at h
      split at h <;> cases h
      next hcaller =>
        -- The cell is looked at before the guard is asked for, and once more behind it.
        cases hcell : s.cell with
        | some a => exact .seen hcaller hcell
        | none => exact .queue hcaller hcell
  | acquire i =>
      simp only [step] at h
      split at h <;> cases h
      next hcaller hguard => exact .acquire hcaller hguard
  | recheck i =>
      simp only [step] at h
      split at h <;> cases h
      next hcaller =>
        cases hcell : s.cell with
        | some a => exact .reseen hcaller hcell
        | none => exact .begin hcaller hcell
  | answer i x =>
      simp only [step] at h
      split at h <;> cases h
      next hcaller => exact .answer x hcaller
  | drop i x =>
      simp only [step] at h
      split at h <;> cases h
      · -- Where the caller is decides what dropping it does.
        next hcaller => exact .leave hcaller
      · next hcaller => exact .release hcaller
      · next hcaller => exact .abandon x hcaller
  | move m =>
      cases h
      exact .move m

/-! ## One at a time -/

structure Sound (s : State ι Q A ε α σ) : Prop where
  inside : ∀ i, (s.caller i).Inside ↔ s.guard = some i
  filled : ∀ {i q next}, s.caller i = .working q next → s.cell = none
  seen : ∀ {i a}, s.caller i = .returned (.ok a) → s.cell = some a

omit [DecidableEq ι] in
theorem Sound.start (world : σ) : Sound (start world : State ι Q A ε α σ) where
  inside i := by simp [Once.start, Caller.Inside]
  filled h := by cases h
  seen h := by cases h

omit [DecidableEq ι] in
/-- Two callers behind the guard are one. -/
theorem Sound.inside_unique (h : Sound s) {i j : ι} (hi : (s.caller i).Inside)
    (hj : (s.caller j).Inside) : i = j := by
  have hguard := (h.inside i).mp hi
  rw [(h.inside j).mp hj] at hguard
  exact (Option.some.inj hguard).symm

/-- A step that changes one caller, who has the guard before or after if the guard or the cell
changes. -/
theorem Sound.update (h : Sound s) {i : ι} {c : Caller Q A ε α}
    (hcaller : t.caller = Function.update s.caller i c)
    (hguard : ∀ j, j ≠ i → (t.guard = some j ↔ s.guard = some j))
    (hinside : c.Inside ↔ t.guard = some i)
    (hcell : t.cell = s.cell ∨ (s.caller i).Inside ∧ s.cell = none)
    (hfilled : ∀ q next, c = .working q next → t.cell = none)
    (hseen : ∀ a, c = .returned (.ok a) → t.cell = some a) : Sound t where
  inside j := by
    -- Only one caller has moved; for the others nothing is new.
    rw [hcaller]
    by_cases hj : j = i
    · subst hj
      rwa [Function.update_self]
    · rw [Function.update_of_ne hj, hguard j hj]
      exact h.inside j
  filled {j q next} hj := by
    rw [hcaller] at hj
    by_cases hji : j = i
    · subst hji
      rw [Function.update_self] at hj
      exact hfilled _ _ hj
    · rw [Function.update_of_ne hji] at hj
      rcases hcell with hcell | ⟨hi, -⟩
      · rw [hcell]
        exact h.filled hj
      · -- The cell was written from inside, where only one caller can be.
        refine absurd (h.inside_unique ?_ hi) hji
        rw [hj]
        trivial
  seen {j a} hj := by
    rw [hcaller] at hj
    by_cases hji : j = i
    · subst hji
      rw [Function.update_self] at hj
      exact hseen _ hj
    · rw [Function.update_of_ne hji] at hj
      rcases hcell with hcell | ⟨-, hcell⟩
      · rw [hcell]
        exact h.seen hj
      · rw [h.seen hj] at hcell
        cases hcell

/-- A step of a caller who has not the guard, before or after. -/
theorem Sound.visit (h : Sound s) {i : ι} {c : Caller Q A ε α} (hi : ¬ (s.caller i).Inside)
    (hc : ¬ c.Inside) (hseen : ∀ a, c = .returned (.ok a) → s.cell = some a) :
    Sound (s.setCaller i c) := by
  apply h.update (t := s.setCaller i c) (i := i) rfl (fun j _ => Iff.rfl)
  · exact iff_of_false hc (fun hguard => hi ((h.inside i).mpr hguard))
  · exact .inl rfl
  · rintro q next rfl
    exact (hc trivial).elim
  · exact hseen

/-- The holder of the guard gives it back. -/
theorem Sound.leave (h : Sound s) {i : ι} {c : Caller Q A ε α} (hi : (s.caller i).Inside)
    (hc : ¬ c.Inside) (hcell : t.cell = s.cell ∨ s.cell = none)
    (hseen : ∀ a, c = .returned (.ok a) → t.cell = some a)
    (hcaller : t.caller = Function.update s.caller i c) (hguard : t.guard = none) : Sound t := by
  apply h.update hcaller
  · intro j hj
    rw [hguard, (h.inside i).mp hi]
    simp [hj.symm]
  · simp [hc, hguard]
  · exact hcell.imp_right (fun hnone => ⟨hi, hnone⟩)
  · rintro q next rfl
    exact (hc trivial).elim
  · exact hseen

theorem Sound.settle (h : Sound s) {i : ι} (hi : (s.caller i).Inside) (hcell : s.cell = none)
    (d : Dialogue Q A ε α) : Sound (s.settle i d) := by
  cases d with
  | pure a =>
      refine h.leave (c := .returned (.ok a)) hi id (.inr hcell) ?_ rfl rfl
      rintro _ ⟨⟩
      rfl
  | fail e => exact h.leave (c := .returned (.error e)) hi id (.inl rfl) nofun rfl rfl
  | ask q next =>
      apply h.update (t := s.setCaller i (.working q next)) (i := i) rfl (fun j _ => Iff.rfl)
      · exact iff_of_true trivial ((h.inside i).mp hi)
      · exact .inl rfl
      · exact fun _ _ _ => hcell
      · nofun

theorem Sound.step (h : Sound s) (hstep : Step env init s t) : Sound t := by
  cases hstep with
  | seen hcaller hcell =>
      refine h.visit (by simp [hcaller, Caller.Inside]) id ?_
      rintro _ ⟨⟩
      exact hcell
  | queue hcaller _ => exact h.visit (by simp [hcaller, Caller.Inside]) id nofun
  | @acquire i hcaller hguard =>
      apply h.update (i := i) (c := .holding) rfl
      · intro j hj
        -- The guard was free, so no other caller is inside.
        simp [hguard, hj.symm]
      · simp [Caller.Inside]
      · exact .inl rfl
      · nofun
      · nofun
  | @reseen i a hcaller hcell =>
      have hi : (s.caller i).Inside := by simp [hcaller, Caller.Inside]
      refine h.leave (c := .returned (.ok a)) hi id (.inl rfl) ?_ rfl rfl
      rintro _ ⟨⟩
      exact hcell
  | begin hcaller hcell => exact h.settle (by simp [hcaller, Caller.Inside]) hcell init
  | @answer i q next x hcaller =>
      -- The world has moved; cell, guard and callers have not.
      have hworld : Sound { s with world := (env.answer q x s.world).1 } :=
        ⟨h.inside, h.filled, h.seen⟩
      apply hworld.settle
      · simp [hcaller, Caller.Inside]
      · exact h.filled hcaller
  | leave hcaller => exact h.visit (by simp [hcaller, Caller.Inside]) id nofun
  | @release i hcaller =>
      have hi : (s.caller i).Inside := by simp [hcaller, Caller.Inside]
      exact h.leave (c := .dropped) hi id (.inl rfl) nofun rfl rfl
  | @abandon i q next x hcaller =>
      have hi : (s.caller i).Inside := by simp [hcaller, Caller.Inside]
      exact h.leave (c := .dropped) hi id (.inl rfl) nofun rfl rfl
  | move m => exact ⟨h.inside, h.filled, h.seen⟩

theorem Sound.exec (h : Sound s) {as : List (Action ι χ μ)}
    (hrun : (callers env init).exec s as = some t) : Sound t :=
  (callers env init).exec_invariant Sound (fun hs ht => hs.step (step_cases ht)) h hrun

/-- Nobody waits in vain: the guard is free, or its holder can take a step. -/
theorem progress (env : Environment Q A ε σ χ μ) (init : Dialogue Q A ε α) (h : Sound s) {i : ι}
    (hi : s.caller i = .queued) (x : χ) :
    (step env init s (.acquire i)).isSome ∨
      ∃ j, (step env init s (.recheck j)).isSome ∨ (step env init s (.answer j x)).isSome := by
  cases hguard : s.guard with
  | none => exact .inl (by simp [step, hi, hguard])
  | some j =>
      have hj : (s.caller j).Inside := (h.inside j).mpr hguard
      cases hcaller : s.caller j with
      | holding => exact .inr ⟨j, .inl (by simp [step, hcaller])⟩
      | working q next => exact .inr ⟨j, .inr (by simp [step, hcaller])⟩
      | _ =>
          rw [hcaller] at hj
          exact hj.elim

/-! ## What the dialogue keeps -/

/-- The world satisfies `I`, the cell `R`, and the caller at work goes on to keep both. -/
structure Kept (env : Environment Q A ε σ χ μ) (I : σ → Prop) (R : α → σ → Prop)
    (s : State ι Q A ε α σ) : Prop where
  inv : I s.world
  full : ∀ {a}, s.cell = some a → R a s.world
  safe : ∀ {i q next}, s.caller i = .working q next →
    (Dialogue.ask q next).Safe env I R (fun _ _ => True) s.world

variable {I : σ → Prop} {R : α → σ → Prop}

/-- If nobody else is behind the guard, then nobody else works. -/
theorem working_update {i j : ι} {c : Caller Q A ε α} {q : Q}
    {next : Except ε (A q) → Dialogue Q A ε α} (hothers : ∀ j, j ≠ i → ¬ (s.caller j).Inside)
    (hj : Function.update s.caller i c j = .working q next) : c = .working q next := by
  by_cases hji : j = i
  · subst hji
    rwa [Function.update_self] at hj
  · rw [Function.update_of_ne hji] at hj
    exact (hothers j hji (hj ▸ trivial)).elim

theorem Kept.settle {i : ι} {d : Dialogue Q A ε α} (hsafe : d.Safe env I R (fun _ _ => True) s.world)
    (hfull : ∀ {a}, s.cell = some a → R a s.world)
    (hothers : ∀ j, j ≠ i → ¬ (s.caller j).Inside) : Kept env I R (s.settle i d) := by
  cases d with
  | pure a =>
      refine ⟨hsafe.1, ?_, fun hj => nomatch working_update hothers hj⟩
      rintro _ ⟨⟩
      exact hsafe.2
  | fail e => exact ⟨hsafe.1, hfull, fun hj => nomatch working_update hothers hj⟩
  | ask q next =>
      refine ⟨hsafe.inv, hfull, ?_⟩
      intro j q' next' hj
      cases working_update hothers hj
      exact hsafe

/-- A step that leaves the world as it is and lets a caller do no work. -/
theorem Kept.update (h : Kept env I R s) {i : ι} {c : Caller Q A ε α}
    (hcaller : t.caller = Function.update s.caller i c) (hc : ∀ q next, c ≠ .working q next)
    (hcell : t.cell = s.cell) (hworld : t.world = s.world) : Kept env I R t := by
  refine ⟨hworld ▸ h.inv, ?_, ?_⟩
  · rw [hcell, hworld]
    exact h.full
  · intro j q next hj
    rw [hcaller] at hj
    rw [hworld]
    by_cases hji : j = i
    · subst hji
      rw [Function.update_self] at hj
      exact absurd hj (hc q next)
    · rw [Function.update_of_ne hji] at hj
      exact h.safe hj

theorem Kept.step (hI : env.Stable I) (hR : ∀ a, env.Stable (R a))
    (hinit : ∀ w, I w → init.Safe env I R (fun _ _ => True) w) (hsound : Sound s) (h : Kept env I R s)
    (hstep : Step env init s t) : Kept env I R t := by
  -- While one caller is inside, no other is at work.
  have hothers : ∀ {i}, (s.caller i).Inside → ∀ j, j ≠ i → ¬ (s.caller j).Inside :=
    fun hi j hj hinside => hj (hsound.inside_unique hinside hi)
  cases hstep with
  | seen => exact h.update rfl nofun rfl rfl
  | queue => exact h.update rfl nofun rfl rfl
  | acquire => exact h.update rfl nofun rfl rfl
  | reseen => exact h.update rfl nofun rfl rfl
  | @begin i hcaller _ =>
      apply Kept.settle (hinit _ h.inv) h.full
      exact hothers (by simp [hcaller, Caller.Inside])
  -- An answer continues the work with what is safe after it.
  | @answer i q next x hcaller =>
      apply Kept.settle
      · exact (h.safe hcaller []).2.2 x
      · intro a ha
        exact absurd (ha.symm.trans (hsound.filled hcaller)) nofun
      · exact hothers (by simp [hcaller, Caller.Inside])
  | leave => exact h.update rfl nofun rfl rfl
  | release => exact h.update rfl nofun rfl rfl
  | @abandon i q next x hcaller =>
      have hi : (s.caller i).Inside := by simp [hcaller, Caller.Inside]
      -- What an abandoned request leaves behind is part of what is safe.
      refine ⟨(h.safe hcaller []).2.1 x, ?_, ?_⟩
      · intro a ha
        exact absurd (ha.symm.trans (hsound.filled hcaller)) nofun
      · exact fun hj => nomatch working_update (hothers hi) hj
  -- Moves of the others keep the invariant, and safety allows for them.
  | move m =>
      refine ⟨hI m _ h.inv, fun ha => hR _ m _ (h.full ha), ?_⟩
      exact fun hj => (h.safe hj).drift [m]

/-- **The run rule.** What the dialogue keeps wherever it stands is kept by every run. -/
theorem Kept.exec (hI : env.Stable I) (hR : ∀ a, env.Stable (R a))
    (hinit : ∀ w, I w → init.Safe env I R (fun _ _ => True) w) {world : σ} (hworld : I world)
    {as : List (Action ι χ μ)} (hrun : (callers env init).exec (start world) as = some t) :
    Kept env I R t := by
  have hstart : Kept env I R (start world : State ι Q A ε α σ) :=
    ⟨hworld, nofun, nofun⟩
  exact ((callers env init).exec_invariant (fun u => Sound u ∧ Kept env I R u)
    (fun hu ht => ⟨hu.1.step (step_cases ht), hu.2.step hI hR hinit hu.1 (step_cases ht)⟩)
    ⟨Sound.start world, hstart⟩ hrun).2

end Machine

end Once
