import Mathlib.Data.List.Forall2
import ProtonDrive.Lib.Program

/-!
# Triples

What holds after a program, when it returned a value and when it failed, for programs whose result and
state belong together.

* `Triple.bind` — the parts of a sequence, one after the other.
* `Triple.attempt` — an error that the program looks at.
-/

namespace Program

variable {σ ε α β : Type}

/-- Started where `P` holds, a run that returns `a` ends where `Q a` holds, and one that fails ends
where `E` holds. -/
def Triple (P : σ → Prop) (x : Program σ ε α) (Q : α → σ → Prop) (E : σ → Prop) : Prop :=
  ∀ s s' r, P s → x.run s = some (s', r) →
    (∀ a, r = .ok a → Q a s') ∧ (∀ e, r = .error e → E s')

namespace Triple

variable {P P' : σ → Prop} {Q Q' : α → σ → Prop} {R : β → σ → Prop} {E E' : σ → Prop}
  {x : Program σ ε α} {f : α → Program σ ε β}

theorem pure {a : α} (h : ∀ s, P s → Q a s) : Triple P (pure a : Program σ ε α) Q E := by
  intro s s' r hs hrun
  cases hrun
  refine ⟨?_, fun e he => (nomatch he)⟩
  intro a' ha'
  cases ha'
  exact h s hs

theorem ofExcept {r : Except ε α} :
    Triple P (ofExcept r : Program σ ε α) (fun a s => r = .ok a ∧ P s) P := by
  intro s s' r' hs hrun
  obtain ⟨rfl, rfl⟩ := ofExcept_eq_some.mp hrun
  exact ⟨fun a ha => ⟨ha, hs⟩, fun _ _ => hs⟩

/-- A result whose error says something as well. -/
theorem check {r : Except ε α} (hok : ∀ a, r = .ok a → ∀ s, P s → Q a s)
    (herror : ∀ e, r = .error e → ∀ s, P s → E s) : Triple P (Program.ofExcept r) Q E := by
  intro s s' r' hs hrun
  obtain ⟨rfl, rfl⟩ := ofExcept_eq_some.mp hrun
  exact ⟨fun a ha => hok a ha _ hs, fun e he => herror e he _ hs⟩

theorem modify {f : σ → σ} {Q : Unit → σ → Prop} (h : ∀ s, P s → Q () (f s)) :
    Triple P (modify f : Program σ ε Unit) Q E := by
  intro s s' r hs hrun
  cases hrun
  exact ⟨fun _ _ => h s hs, fun e he => (nomatch he)⟩

theorem bind (hx : Triple P x Q E') (herror : ∀ s, E' s → E s)
    (hf : ∀ a, Triple (Q a) (f a) R E) : Triple P (x >>= f) R E := by
  intro s s' r hs hrun
  rcases bind_eq_some.mp hrun with ⟨e, hfirst, rfl⟩ | ⟨t, a, hfirst, hrest⟩
  · exact ⟨fun b hb => (nomatch hb), fun _ _ => herror _ ((hx _ _ _ hs hfirst).2 e rfl)⟩
  · exact hf a _ _ _ ((hx _ _ _ hs hfirst).1 a rfl) hrest

theorem attempt (hx : Triple P x Q E) :
    Triple P x.attempt (fun r s => match r with | .ok a => Q a s | .error _ => E s)
      (fun _ => False) := by
  intro s s' r hs hrun
  obtain ⟨p, hp, hr⟩ := Option.map_eq_some_iff.mp hrun
  cases hr
  obtain ⟨hok, herror⟩ := hx _ _ _ hs hp
  refine ⟨?_, fun e he => (nomatch he)⟩
  rintro r hr
  cases hr
  cases hp' : p.2 with
  | ok a => exact hok a hp'
  | error e => exact herror e hp'

/-- The rule of consequence. -/
theorem weaken (hx : Triple P x Q E) (hpre : ∀ s, P' s → P s) (hpost : ∀ a s, Q a s → Q' a s)
    (herror : ∀ s, E s → E' s) : Triple P' x Q' E' := by
  intro s s' r hs hrun
  obtain ⟨hok, hfail⟩ := hx s s' r (hpre s hs) hrun
  exact ⟨fun a ha => hpost a s' (hok a ha), fun e he => herror s' (hfail e he)⟩

/-- What a state says of nothing but the arguments may be assumed. -/
theorem assume {p : Prop} (h : p → Triple P x Q E) : Triple (fun s => p ∧ P s) x Q E :=
  fun s s' r hs hrun => h hs.1 s s' r hs.2 hrun

/-- A witness for the state before. -/
theorem intro_exists {κ : Type} {P : κ → σ → Prop} (h : ∀ k, Triple (P k) x Q E) :
    Triple (fun s => ∃ k, P k s) x Q E := by
  rintro s s' r ⟨k, hs⟩ hrun
  exact h k s s' r hs hrun

/-- The same for each element, one after the other. -/
theorem traverse {f : α → Program σ ε β} {R : α → β → Prop} {as : List α}
    (hf : ∀ a ∈ as, Triple P (f a) (fun b s => R a b ∧ P s) E) :
    Triple P (traverse f as) (fun bs s => List.Forall₂ R as bs ∧ P s) E := by
  induction as with
  | nil => exact pure (fun s hs => ⟨.nil, hs⟩)
  | cons a as ih =>
      have hrest := ih (fun a' ha' => hf a' (List.mem_cons_of_mem _ ha'))
      refine bind (hf a List.mem_cons_self) (fun s hs => hs) (fun b => assume fun hab => ?_)
      refine bind hrest (fun s hs => hs) (fun bs => assume fun hbs => ?_)
      exact pure (fun s hs => ⟨.cons hab hbs, hs⟩)

end Triple

end Program
