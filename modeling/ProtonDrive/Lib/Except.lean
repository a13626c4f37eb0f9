/-!
# Computations that fail

What a computation in `Except` did when it is known to have succeeded. With these, a function
written with `do` is taken apart one line at a time.

* `firstOk_of_mem`, `firstOk_error` — trying one candidate after the other.
-/

namespace Except

variable {ε α β : Type}

theorem bind_eq_ok {x : Except ε α} {f : α → Except ε β} {b : β} :
    (x >>= f) = .ok b ↔ ∃ a, x = .ok a ∧ f a = .ok b := by
  cases x with
  | error e => simp [bind, Except.bind]
  | ok a => simp [bind, Except.bind]

/-- A failure that neither part has is not one of the whole. -/
theorem bind_ne_error {x : Except ε α} {f : α → Except ε β} {e : ε} (hx : x ≠ .error e)
    (hf : ∀ a, x = .ok a → f a ≠ .error e) : (x >>= f) ≠ .error e := by
  cases x with
  | error e' => exact fun h => hx (by simpa [bind, Except.bind] using h)
  | ok a => exact hf a rfl

theorem map_eq_ok {x : Except ε α} {f : α → β} {b : β} :
    x.map f = .ok b ↔ ∃ a, x = .ok a ∧ f a = b := by
  cases x with
  | error e => simp [Except.map]
  | ok a => simp [Except.map]

theorem mapError_eq_ok {ε' : Type} {x : Except ε α} {f : ε → ε'} {a : α} :
    x.mapError f = .ok a ↔ x = .ok a := by
  cases x with
  | error e =>
      constructor
      · intro h
        cases h
      · intro h
        cases h
  | ok b =>
      show (Except.ok b : Except ε' α) = .ok a ↔ _
      simp

theorem toOption_eq_some {x : Except ε α} {a : α} : x.toOption = some a ↔ x = .ok a := by
  cases x with
  | error e => simp [Except.toOption]
  | ok b => simp [Except.toOption]

theorem guard_eq_ok {p : Prop} [Decidable p] {e : ε} {x : Except ε α} {a : α} :
    (if p then x else .error e) = .ok a ↔ p ∧ x = .ok a := by
  split
  · next h => simp [h]
  · next h => simp [h]

/-! ## One after the other -/

/-- The first success of `f`. If it fails on all candidates the error is that of the last one, and `e`
if there are none. -/
def firstOk (f : α → Except ε β) (e : ε) : List α → Except ε β
  | [] => .error e
  | a :: rest =>
      match f a with
      | .ok b => .ok b
      | .error e' => firstOk f e' rest

variable {f : α → Except ε β} {e e' : ε} {l : List α} {a : α} {b : β}

/-- If all successes are the same, one candidate that succeeds is enough. -/
theorem firstOk_of_mem (hmem : a ∈ l) (ha : f a = .ok b) (hsame : ∀ a' b', f a' = .ok b' → b' = b) :
    firstOk f e l = .ok b := by
  induction l generalizing e with
  | nil => cases hmem
  | cons first rest ih =>
      unfold firstOk
      cases hfirst : f first with
      | ok b' => rw [hsame first b' hfirst]
      | error e' =>
          apply ih
          rcases List.mem_cons.mp hmem with rfl | hmem
          · rw [ha] at hfirst
            cases hfirst
          · exact hmem

/-- The error is one of the candidates', or the one for no candidates. -/
theorem firstOk_error (P : ε → Prop) (he : P e) (hf : ∀ a e', f a = .error e' → P e')
    (h : firstOk f e l = .error e') : P e' := by
  induction l generalizing e with
  | nil =>
      cases h
      exact he
  | cons first rest ih =>
      unfold firstOk at h
      cases hfirst : f first with
      | ok b =>
          rw [hfirst] at h
          cases h
      | error e' =>
          rw [hfirst] at h
          exact ih (hf first e' hfirst) h

end Except
