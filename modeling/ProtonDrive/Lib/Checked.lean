import Mathlib

/-!
# Machine integers that must not overflow

Unsigned arithmetic below a bound, as exact arithmetic that is `none` where the machine's would
leave the range. Such an operation panics or wraps around, depending on how the program is built,
and no result of it is relied on here.

* `add_eq_some`, `sub_eq_some`, `mul_eq_some` — an operation that has a result has the exact one.
* `sum_eq` — a sum has a result if and only if the exact sum is in range; no partial sum matters.
* `satAdd` — the addition that stops at the largest number instead.
-/

namespace Checked

variable {bound a b c : Nat}

/-- The numbers of 64 bits end here. -/
def u64 : Nat := 2 ^ 64

/-- The non-negative numbers of a signed 32-bit type end here. -/
def i32 : Nat := 2 ^ 31

/-- The result if it is in range. -/
def fit (bound n : Nat) : Option Nat := if n < bound then some n else none

def add (bound a b : Nat) : Option Nat := fit bound (a + b)

def mul (bound a b : Nat) : Option Nat := fit bound (a * b)

def sub (a b : Nat) : Option Nat := if b ≤ a then some (a - b) else none

/-- `saturating_add`. -/
def satAdd (bound a b : Nat) : Nat := min (a + b) (bound - 1)

/-- The sum of a list, added up from the left. -/
def sumFrom (bound : Nat) : (total : Nat) → List Nat → Option Nat
  | total, [] => some total
  | total, n :: ns => (add bound total n).bind (sumFrom bound · ns)

def sum (bound : Nat) (ns : List Nat) : Option Nat := sumFrom bound 0 ns

theorem fit_eq_some {n : Nat} : fit bound n = some c ↔ n < bound ∧ n = c := by
  unfold fit
  split
  · next h => simp [h]
  · next h => simp [h]

theorem add_eq_some : add bound a b = some c ↔ a + b < bound ∧ a + b = c := fit_eq_some

theorem mul_eq_some : mul bound a b = some c ↔ a * b < bound ∧ a * b = c := fit_eq_some

theorem sub_eq_some : sub a b = some c ↔ b ≤ a ∧ a - b = c := by
  unfold sub
  split
  · next h => simp [h]
  · next h => simp [h]

theorem add_of_lt (h : a + b < bound) : add bound a b = some (a + b) := add_eq_some.mpr ⟨h, rfl⟩

theorem mul_of_lt (h : a * b < bound) : mul bound a b = some (a * b) := mul_eq_some.mpr ⟨h, rfl⟩

theorem sub_of_le (h : b ≤ a) : sub a b = some (a - b) := sub_eq_some.mpr ⟨h, rfl⟩

theorem sumFrom_eq (total : Nat) (ns : List Nat) (htotal : total < bound) :
    sumFrom bound total ns = fit bound (total + ns.sum) := by
  induction ns generalizing total with
  | nil =>
      show some total = _
      rw [List.sum_nil, Nat.add_zero]
      exact (fit_eq_some.mpr ⟨htotal, rfl⟩).symm
  | cons n ns ih =>
      rw [List.sum_cons, ← Nat.add_assoc]
      unfold sumFrom add
      by_cases hfit : total + n < bound
      · rw [fit, if_pos hfit, Option.bind_some, ih _ hfit]
      · have hsum : ¬ total + n + ns.sum < bound := by omega
        rw [fit, if_neg hfit, Option.bind_none, fit, if_neg hsum]

/-- Sums only grow, so one that ends in range has been in range throughout. -/
theorem sum_eq (hbound : 0 < bound) (ns : List Nat) : sum bound ns = fit bound ns.sum := by
  unfold sum
  rw [sumFrom_eq 0 ns hbound, Nat.zero_add]

theorem sum_eq_some (hbound : 0 < bound) {ns : List Nat} :
    sum bound ns = some c ↔ ns.sum < bound ∧ ns.sum = c := by
  rw [sum_eq hbound, fit_eq_some]

/-- Up to a number in range, saturation makes no difference. -/
theorem min_satAdd (h : c < bound) : min (satAdd bound a b) c = min (a + b) c := by
  unfold satAdd
  omega

end Checked
