import Mathlib.Data.Fintype.Pigeonhole
import Mathlib.Data.Set.Finite.Basic

/-!
# Following a partial function

A loop that goes from one place to the next until there is none is a pursuit of a partial function.

* `ends_iff` — over a finite domain a pursuit ends exactly if it does not come back to a place where
  it has been.
* `Ends.rec_next` — induction along a pursuit that ends.
-/

namespace Pursuit

/-- A partial function with a finite domain. -/
def Finitely {α β : Type} (f : α → Option β) : Prop := {x | (f x).isSome = true}.Finite

variable {α : Type} (next : α → Option α)

/-- Where `n` steps lead. -/
def after : Nat → α → Option α
  | 0, x => some x
  | n + 1, x => (next x).bind (after n)

/-- The pursuit from `x` ends. -/
def Ends (x : α) : Prop := ∃ n, after next n x = none

/-- The pursuit from `x` comes back to a place where it has been. -/
def ComesBack (x : α) : Prop :=
  ∃ i j y, i < j ∧ after next i x = some y ∧ after next j x = some y

/-- The last place of the pursuit from `x` is `e`. -/
def Stops (x e : α) : Prop := ∃ n, after next n x = some e ∧ next e = none

variable {next} {x y e e' : α}

@[simp] theorem after_zero (x : α) : after next 0 x = some x := rfl

theorem after_succ (n : Nat) (x : α) : after next (n + 1) x = (next x).bind (after next n) := rfl

theorem after_add (m n : Nat) (x : α) :
    after next (m + n) x = (after next m x).bind (after next n) := by
  induction m generalizing x with
  | zero => rw [Nat.zero_add, after_zero, Option.bind_some]
  | succ m ih =>
      rw [Nat.succ_add, after_succ, after_succ]
      cases next x with
      | none => rfl
      | some y => exact ih y

/-- The last step is one more step. -/
theorem after_succ_last (n : Nat) (x : α) :
    after next (n + 1) x = (after next n x).bind next := by
  rw [after_add]
  congr 1
  funext y
  rw [after_succ]
  exact Option.bind_fun_some (next y)

/-- Without a next place there is only the first one. -/
theorem eq_of_after {n : Nat} (h : next x = none) (hy : after next n x = some y) : y = x := by
  cases n with
  | zero =>
      cases hy
      rfl
  | succ n =>
      rw [after_succ, h] at hy
      cases hy

theorem Ends.of_none (h : next x = none) : Ends next x := ⟨1, by rw [after_succ, h]; rfl⟩

theorem ends_next (h : next x = some y) : Ends next x ↔ Ends next y := by
  constructor
  · rintro ⟨n, hn⟩
    cases n with
    | zero => cases hn
    | succ n =>
        refine ⟨n, ?_⟩
        rw [after_succ, h] at hn
        exact hn
  · rintro ⟨n, hn⟩
    refine ⟨n + 1, ?_⟩
    rw [after_succ, h]
    exact hn

/-- From every place on the way the end is the same. -/
theorem Stops.of_after (h : Stops next x e) {k : Nat} (hy : after next k x = some y) :
    Stops next y e := by
  obtain ⟨n, hn, he⟩ := h
  rcases Nat.le_total k n with hle | hle
  · obtain ⟨m, rfl⟩ := Nat.exists_eq_add_of_le hle
    rw [after_add, hy] at hn
    exact ⟨m, hn, he⟩
  · obtain ⟨m, rfl⟩ := Nat.exists_eq_add_of_le hle
    rw [after_add, hn] at hy
    obtain rfl := eq_of_after he hy
    exact ⟨0, rfl, he⟩

theorem Stops.unique (h : Stops next x e) (h' : Stops next x e') : e = e' := by
  obtain ⟨n, hn, he⟩ := h
  obtain ⟨m, hm, -⟩ := h'.of_after hn
  exact (eq_of_after he hm).symm

/-- What holds of a place if it holds of the next one holds along a pursuit that ends. -/
theorem Ends.rec_next {P : α → Prop} (h : Ends next x) (hnone : ∀ x, next x = none → P x)
    (hsome : ∀ x y, next x = some y → P y → P x) : P x := by
  obtain ⟨n, hn⟩ := h
  induction n generalizing x with
  | zero => cases hn
  | succ n ih =>
      cases hx : next x with
      | none => exact hnone x hx
      | some y =>
          rw [after_succ, hx] at hn
          exact hsome x y hx (ih hn)

/-- A pursuit that comes back goes round for ever. -/
theorem ComesBack.not_ends (h : ComesBack next x) : ¬ Ends next x := by
  obtain ⟨i, j, y, hij, hi, hj⟩ := h
  rintro ⟨n, hn⟩
  -- Past the second visit, as many steps less are taken as the way round has.
  induction n using Nat.strongRecOn with
  | _ n ih =>
      by_cases hle : n ≤ j
      · obtain ⟨k, rfl⟩ := Nat.exists_eq_add_of_le hle
        rw [after_add, hn] at hj
        cases hj
      · obtain ⟨k, rfl⟩ := Nat.exists_eq_add_of_le (Nat.le_of_not_le hle)
        apply ih (i + k) (by omega)
        rw [after_add, hi]
        rw [after_add, hj] at hn
        exact hn

/-- Only finitely many places have a next one, so a pursuit without an end meets one of them
twice. -/
theorem ends_of_not_comesBack (hfin : Finitely next) (h : ¬ ComesBack next x) : Ends next x := by
  -- An endless walk within a finite set meets an element twice.
  by_contra hends
  have hsome : ∀ n, ∃ y, after next n x = some y := by
    intro n
    apply Option.ne_none_iff_exists'.mp
    exact fun hn => hends ⟨n, hn⟩
  choose place hplace using hsome
  have hdomain : ∀ n, (next (place n)).isSome = true := by
    intro n
    have hlast : after next (n + 1) x = (after next n x).bind next := after_succ_last n x
    rw [hplace n, hplace (n + 1), Option.bind_some] at hlast
    rw [← hlast]
    rfl
  have : Finite {x | (next x).isSome = true} := hfin
  obtain ⟨i, j, hne, heq⟩ := Finite.exists_ne_map_eq_of_infinite
    (fun n => (⟨place n, hdomain n⟩ : {x | (next x).isSome = true}))
  have heq : place i = place j := congrArg Subtype.val heq
  rcases Nat.lt_or_gt_of_ne hne with hlt | hlt
  · exact h ⟨i, j, place i, hlt, hplace i, by rw [hplace j, heq]⟩
  · exact h ⟨j, i, place j, hlt, hplace j, by rw [hplace i, heq]⟩

theorem ends_iff (hfin : Finitely next) : Ends next x ↔ ¬ ComesBack next x :=
  ⟨fun hends hback => hback.not_ends hends, ends_of_not_comesBack hfin⟩

end Pursuit
