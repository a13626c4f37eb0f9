import Mathlib.Data.List.Basic

/-!
# Dialogues

A program that asks: it ends, with a value or an error, or asks a question and goes on with what the
answer is. The program is at rest at each of its questions, and there the world around it may change
and its asker may disappear.

* `Safe` — what holds at every question and at the end, whatever happens meanwhile.
* `Safe.bind`, `Safe.call`, `Safe.attempt` — it is shown along the program's text.
* `run` — the same program when it is left alone.
-/

inductive Dialogue (Q : Type) (A : Q → Type) (ε α : Type) where
  | pure (a : α)
  | fail (e : ε)
  | ask (q : Q) (next : Except ε (A q) → Dialogue Q A ε α)

/-- A world that answers questions. What becomes of a question is decided by `χ`, and the moves `μ`
are those that no program makes. -/
structure Environment (Q : Type) (A : Q → Type) (ε σ χ μ : Type) where
  answer : (q : Q) → χ → σ → σ × Except ε (A q)
  /-- The asker is gone before the answer is there. -/
  abandon : (q : Q) → χ → σ → σ
  move : μ → σ → σ

namespace Dialogue

variable {Q : Type} {A : Q → Type} {ε α β σ χ μ : Type}

protected def bind : Dialogue Q A ε α → (α → Dialogue Q A ε β) → Dialogue Q A ε β
  | .pure a, f => f a
  | .fail e, _ => .fail e
  | .ask q next, f => .ask q (fun r => (next r).bind f)

instance : Monad (Dialogue Q A ε) where
  pure := .pure
  bind := Dialogue.bind

def ofExcept : Except ε α → Dialogue Q A ε α
  | .ok a => .pure a
  | .error e => .fail e

/-- The answer, if it is one. -/
def call (q : Q) : Dialogue Q A ε (A q) := .ask q ofExcept

/-- Go on with the result, an error or not, as a value. -/
def attempt : Dialogue Q A ε α → Dialogue Q A ε (Except ε α)
  | .pure a => .pure (.ok a)
  | .fail e => .pure (.error e)
  | .ask q next => .ask q (fun r => (next r).attempt)

@[simp] theorem pure_bind (a : α) (f : α → Dialogue Q A ε β) :
    ((Dialogue.pure a : Dialogue Q A ε α) >>= f) = f a := rfl

@[simp] theorem fail_bind (e : ε) (f : α → Dialogue Q A ε β) :
    ((Dialogue.fail e : Dialogue Q A ε α) >>= f) = .fail e := rfl

@[simp] theorem ask_bind (q : Q) (next : Except ε (A q) → Dialogue Q A ε α)
    (f : α → Dialogue Q A ε β) : (Dialogue.ask q next >>= f) = .ask q (fun r => next r >>= f) := rfl

/-! ## Alone -/

/-- Every question is answered, and nothing else happens. -/
def run (env : Environment Q A ε σ χ μ) (x : χ) : Dialogue Q A ε α → σ → σ × Except ε α
  | .pure a, s => (s, .ok a)
  | .fail e, s => (s, .error e)
  | .ask q next, s => (next (env.answer q x s).2).run env x (env.answer q x s).1

section Run

variable {env : Environment Q A ε σ χ μ} {x : χ} {s : σ}

@[simp] theorem run_pure (a : α) : (Dialogue.pure a : Dialogue Q A ε α).run env x s = (s, .ok a) :=
  rfl

@[simp] theorem run_fail (e : ε) : (Dialogue.fail e : Dialogue Q A ε α).run env x s = (s, .error e) :=
  rfl

theorem run_ofExcept (r : Except ε α) :
    (ofExcept r : Dialogue Q A ε α).run env x s = (s, r) := by
  cases r <;> rfl

theorem run_bind (d : Dialogue Q A ε α) (f : α → Dialogue Q A ε β) :
    (d >>= f).run env x s = match d.run env x s with
      | (t, .ok a) => (f a).run env x t
      | (t, .error e) => (t, .error e) := by
  induction d generalizing s with
  | pure a => rfl
  | fail e => rfl
  | ask q next ih => exact ih _

theorem run_bind_ok {d : Dialogue Q A ε α} {f : α → Dialogue Q A ε β} {t : σ} {a : α}
    (h : d.run env x s = (t, .ok a)) : (d >>= f).run env x s = (f a).run env x t := by
  rw [run_bind, h]

theorem run_bind_error {d : Dialogue Q A ε α} {f : α → Dialogue Q A ε β} {t : σ} {e : ε}
    (h : d.run env x s = (t, .error e)) : (d >>= f).run env x s = (t, .error e) := by
  rw [run_bind, h]

@[simp] theorem run_call (q : Q) :
    (call q : Dialogue Q A ε (A q)).run env x s = env.answer q x s := run_ofExcept _

@[simp] theorem run_attempt (d : Dialogue Q A ε α) :
    d.attempt.run env x s = ((d.run env x s).1, .ok (d.run env x s).2) := by
  induction d generalizing s with
  | pure a => rfl
  | fail e => rfl
  | ask q next ih => exact ih _

end Run

end Dialogue

/-! ## Disturbed -/

namespace Environment

variable {Q : Type} {A : Q → Type} {ε σ χ μ : Type} (env : Environment Q A ε σ χ μ)

/-- The world after some moves. -/
def drift (ms : List μ) (s : σ) : σ := ms.foldl (fun t m => env.move m t) s

/-- No move takes `P` away. -/
def Stable (P : σ → Prop) : Prop := ∀ m s, P s → P (env.move m s)

variable {env}

theorem drift_append (ms ns : List μ) (s : σ) :
    env.drift (ms ++ ns) s = env.drift ns (env.drift ms s) := List.foldl_append

theorem Stable.drift {P : σ → Prop} (h : env.Stable P) (ms : List μ) {s : σ} (hs : P s) :
    P (env.drift ms s) := by
  induction ms generalizing s with
  | nil => exact hs
  | cons m ms ih => exact ih (h m s hs)

end Environment

namespace Dialogue

variable {Q : Type} {A : Q → Type} {ε α β σ χ μ : Type} (env : Environment Q A ε σ χ μ)

/-- At every question, at its end, and where it is abandoned, the program leaves `I`; the value it
ends with satisfies `R`, and the error `E`. -/
def Safe (I : σ → Prop) (R : α → σ → Prop) (E : ε → σ → Prop) : Dialogue Q A ε α → σ → Prop
  | .pure a, s => I s ∧ R a s
  | .fail e, s => I s ∧ E e s
  | .ask q next, s => ∀ ms, I (env.drift ms s) ∧ (∀ x, I (env.abandon q x (env.drift ms s))) ∧
      ∀ x, (next (env.answer q x (env.drift ms s)).2).Safe I R E
        (env.answer q x (env.drift ms s)).1

namespace Safe

variable {env} {I : σ → Prop} {R : α → σ → Prop} {E E' : ε → σ → Prop} {S : β → σ → Prop} {s : σ}

theorem inv {d : Dialogue Q A ε α} (h : d.Safe env I R E s) : I s := by
  cases d with
  | pure a => exact h.1
  | fail e => exact h.1
  | ask q next => exact (h []).1

/-- A question may be asked later. -/
theorem drift {q : Q} {next : Except ε (A q) → Dialogue Q A ε α} (ms : List μ)
    (h : (Dialogue.ask q next).Safe env I R E s) :
    (Dialogue.ask q next).Safe env I R E (env.drift ms s) := by
  intro ns
  rw [← Environment.drift_append]
  exact h (ms ++ ns)

theorem weaken {R' : α → σ → Prop} {d : Dialogue Q A ε α} (h : d.Safe env I R E s)
    (hR : ∀ a t, R a t → R' a t) (hE : ∀ e t, E e t → E' e t) : d.Safe env I R' E' s := by
  induction d generalizing s with
  | pure a => exact ⟨h.1, hR _ _ h.2⟩
  | fail e => exact ⟨h.1, hE _ _ h.2⟩
  | ask q next ih =>
      intro ms
      obtain ⟨hI, hgone, hnext⟩ := h ms
      exact ⟨hI, hgone, fun x => ih _ (hnext x)⟩

/-- The parts of a sequence, one after the other. -/
theorem bind {d : Dialogue Q A ε α} {f : α → Dialogue Q A ε β} (h : d.Safe env I R E s)
    (herror : ∀ e t, E e t → E' e t) (hf : ∀ a t, I t → R a t → (f a).Safe env I S E' t) :
    (d >>= f).Safe env I S E' s := by
  induction d generalizing s with
  | pure a => exact hf _ _ h.1 h.2
  | fail e => exact ⟨h.1, herror _ _ h.2⟩
  | ask q next ih =>
      intro ms
      obtain ⟨hI, hgone, hnext⟩ := h ms
      exact ⟨hI, hgone, fun x => ih _ (hnext x)⟩

theorem ofExcept {r : Except ε α} (hI : I s) (hR : ∀ a, r = .ok a → R a s)
    (hE : ∀ e, r = .error e → E e s) : (ofExcept r : Dialogue Q A ε α).Safe env I R E s := by
  cases r with
  | ok a => exact ⟨hI, hR a rfl⟩
  | error e => exact ⟨hI, hE e rfl⟩

/-- An error that the program looks at. -/
theorem attempt {d : Dialogue Q A ε α} (h : d.Safe env I R E s) :
    d.attempt.Safe env I
      (fun r t => (∀ a, r = .ok a → R a t) ∧ ∀ e, r = .error e → E e t) E' s := by
  induction d generalizing s with
  | pure a =>
      refine ⟨h.1, ?_, nofun⟩
      rintro _ ⟨⟩
      exact h.2
  | fail e =>
      refine ⟨h.1, nofun, ?_⟩
      rintro _ ⟨⟩
      exact h.2
  | ask q next ih =>
      intro ms
      obtain ⟨hI, hgone, hnext⟩ := h ms
      exact ⟨hI, hgone, fun x => ih _ (hnext x)⟩

/-- A question asked where `P` holds, which no move takes away. -/
theorem call {P : σ → Prop} {q : Q} {R : A q → σ → Prop} (hP : env.Stable P) (hs : P s)
    (hI : ∀ t, P t → I t) (hgone : ∀ t x, P t → I (env.abandon q x t))
    (hnext : ∀ t x, P t → I (env.answer q x t).1 ∧
      (∀ a, (env.answer q x t).2 = .ok a → R a (env.answer q x t).1) ∧
      ∀ e, (env.answer q x t).2 = .error e → E e (env.answer q x t).1) :
    (call q).Safe env I R E s := by
  intro ms
  have ht : P (env.drift ms s) := hP.drift ms hs
  refine ⟨hI _ ht, fun x => hgone _ x ht, fun x => ?_⟩
  obtain ⟨hinv, hok, herror⟩ := hnext _ x ht
  exact ofExcept hinv hok herror

end Safe

end Dialogue
