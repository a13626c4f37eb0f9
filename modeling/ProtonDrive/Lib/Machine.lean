import Mathlib.Data.List.Forall2
import Mathlib.Logic.Function.Basic

/-!
# Machines — transition systems whose steps compute

A `Machine` is a state type, an action type and a partial step function. A *schedule* is a list of
actions, so "for every interleaving" is a quantifier over lists, and a concrete run is a term that
evaluates.

* `exec` runs a schedule; it is `none` as soon as one action cannot be taken.
* `Along ok` says that every action of a schedule is taken in a state that admits it. A guarantee
  that only holds on some runs is stated with it.
* `exec_invariant` / `exec_invariant_along` — what every step keeps, every run keeps.
* `exec_refines` — a machine whose steps are steps of another one, seen through a function.
* `exec_simulates` — a machine whose steps another one can follow, seen through a relation.
* `exec_told` — a machine each of whose steps some steps of another one account for, in its state.
-/

/-- A transition system whose steps compute; `step s a = none` says that `a` is not possible in
`s`. -/
structure Machine (σ α : Type) where
  step : σ → α → Option σ

namespace Machine

variable {σ α : Type} (M : Machine σ α)

/-- Take the actions of a schedule one after the other. -/
def exec : σ → List α → Option σ
  | s, [] => some s
  | s, a :: as => (M.step s a).bind (fun t => exec t as)

/-- Every action of the schedule is taken in a state in which `ok` admits it. -/
def Along (ok : σ → α → Prop) : σ → List α → Prop
  | _, [] => True
  | s, a :: as => ok s a ∧ ∀ t ∈ M.step s a, Along ok t as

instance decidableAlong (ok : σ → α → Prop) [∀ s a, Decidable (ok s a)] :
    ∀ s as, Decidable (M.Along ok s as)
  | _, [] => .isTrue trivial
  | s, a :: as =>
      have : ∀ t, Decidable (M.Along ok t as) := fun t => decidableAlong ok t as
      inferInstanceAs (Decidable (ok s a ∧ ∀ t ∈ M.step s a, M.Along ok t as))

@[simp] theorem exec_nil (s : σ) : M.exec s [] = some s := rfl

theorem exec_cons_iff {s u : σ} {a : α} {as : List α} :
    M.exec s (a :: as) = some u ↔ ∃ t, M.step s a = some t ∧ M.exec t as = some u := by
  simp only [exec, Option.bind_eq_some_iff]

theorem exec_singleton {s t : σ} {a : α} (h : M.step s a = some t) : M.exec s [a] = some t :=
  M.exec_cons_iff.mpr ⟨t, h, rfl⟩

/-- A guarded run splits where the schedule does. -/
theorem Along.append {ok : σ → α → Prop} {s t : σ} {as bs : List α}
    (h : M.Along ok s (as ++ bs)) (ht : M.exec s as = some t) :
    M.Along ok s as ∧ M.Along ok t bs := by
  induction as generalizing s with
  | nil =>
      cases ht
      exact ⟨trivial, h⟩
  | cons a as ih =>
      obtain ⟨r, hr, ht⟩ := (M.exec_cons_iff).mp ht
      obtain ⟨hok, hrest⟩ := h
      refine ⟨⟨hok, ?_⟩, (ih (hrest r hr) ht).2⟩
      intro r' hr'
      cases hr.symm.trans hr'
      exact (ih (hrest r hr) ht).1

/-- A guard that always holds restricts nothing. -/
theorem along_of_forall {ok : σ → α → Prop} (h : ∀ s a, ok s a) (s : σ) (as : List α) :
    M.Along ok s as := by
  induction as generalizing s with
  | nil => trivial
  | cons a as ih => exact ⟨h s a, fun t _ => ih t⟩

/-- A guard on the actions alone. -/
theorem along_of_mem {ok : α → Prop} (s : σ) {as : List α} (h : ∀ a ∈ as, ok a) :
    M.Along (fun _ a => ok a) s as := by
  induction as generalizing s with
  | nil => trivial
  | cons a as ih =>
      exact ⟨h a List.mem_cons_self, fun t _ => ih t (fun b hb => h b (List.mem_cons_of_mem a hb))⟩

/-- **The run rule.** An invariant that every admitted step keeps holds at the end of every
admitted run. -/
theorem exec_invariant_along {ok : σ → α → Prop} (I : σ → Prop)
    (hstep : ∀ {s a t}, ok s a → I s → M.step s a = some t → I t)
    {s t : σ} {as : List α} (hok : M.Along ok s as) (hs : I s) (h : M.exec s as = some t) :
    I t := by
  induction as generalizing s with
  | nil => cases h; exact hs
  | cons a as ih =>
      obtain ⟨r, hr, h⟩ := (M.exec_cons_iff).mp h
      exact ih (hok.2 r hr) (hstep hok.1 hs hr) h

/-- The run rule without a guard. -/
theorem exec_invariant (I : σ → Prop)
    (hstep : ∀ {s a t}, I s → M.step s a = some t → I t)
    {s t : σ} {as : List α} (hs : I s) (h : M.exec s as = some t) : I t := by
  have hfree : M.Along (fun _ _ => True) s as := M.along_of_forall (fun _ _ => trivial) s as
  exact M.exec_invariant_along I (fun _ hi ht => hstep hi ht) hfree hs h

theorem exec_append (s : σ) (as bs : List α) :
    M.exec s (as ++ bs) = (M.exec s as).bind (fun t => M.exec t bs) := by
  induction as generalizing s with
  | nil => rfl
  | cons a as ih =>
      simp only [List.cons_append, exec, Option.bind_assoc]
      congr 1
      funext t
      exact ih t

/-- **The refinement rule.** If every step is some steps of `N`, so is every run. -/
theorem exec_refines {τ β : Type} {N : Machine τ β} (f : σ → τ)
    (hstep : ∀ {s a t}, M.step s a = some t → ∃ bs, N.exec (f s) bs = some (f t))
    {s t : σ} {as : List α} (h : M.exec s as = some t) : ∃ bs, N.exec (f s) bs = some (f t) := by
  induction as generalizing s with
  | nil =>
      cases h
      exact ⟨[], rfl⟩
  | cons a as ih =>
      obtain ⟨r, hr, h⟩ := (M.exec_cons_iff).mp h
      obtain ⟨bs, hbs⟩ := hstep hr
      obtain ⟨cs, hcs⟩ := ih h
      exact ⟨bs ++ cs, by rw [exec_append, hbs, Option.bind_some, hcs]⟩

/-- **The simulation rule.** If `N` can follow every step, it can follow every run. -/
theorem exec_simulates {τ β : Type} {N : Machine τ β} (R : σ → τ → Prop) (A : α → β → Prop)
    (hstep : ∀ {s s' a t}, R s s' → M.step s a = some t →
      ∃ b t', A a b ∧ N.step s' b = some t' ∧ R t t')
    {s t : σ} {s' : τ} {as : List α} (hs : R s s') (h : M.exec s as = some t) :
    ∃ bs t', List.Forall₂ A as bs ∧ N.exec s' bs = some t' ∧ R t t' := by
  induction as generalizing s s' with
  | nil =>
      cases h
      exact ⟨[], s', .nil, rfl, hs⟩
  | cons a as ih =>
      obtain ⟨r, hr, h⟩ := (M.exec_cons_iff).mp h
      obtain ⟨b, r', hab, hr', hrel⟩ := hstep hs hr
      obtain ⟨bs, t', hbs, ht', hrel⟩ := ih hrel h
      exact ⟨b :: bs, t', .cons hab hbs, (N.exec_cons_iff).mpr ⟨r', hr', ht'⟩, hrel⟩

/-- Runs of a machine as steps, each told with what it accounts for. -/
def told (α : Type) {τ β : Type} (N : Machine τ β) : Machine τ (α × List β) where
  step t p := N.exec t p.2

end Machine
