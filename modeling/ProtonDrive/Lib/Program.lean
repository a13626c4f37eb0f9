/-!
# Programs over a state

A fallible program that reads and writes a state. It may fail to return, and an error keeps what the
program has written up to there, as it does when a function leaves early through `?`.

* `bind_eq_some` takes a run of a sequence apart, `bind_ok` and `bind_error` put one together.
* `Keeps R` — every run of the program relates the state before and after by `R`; with it a frame is
  proved along the program's text.
* `Ensures I Q` — every run keeps the invariant `I`, and what it returns satisfies `Q`.
* `Succeeds I` — every run keeps the invariant `I`, and none ends in an error.
* `Delivers Q` — the program returns, without an error, and what it returns satisfies `Q`.
-/

/-- A run that is `none` does not return. -/
structure Program (σ ε α : Type) where
  run : σ → Option (σ × Except ε α)

namespace Program

variable {σ ε α β : Type}

protected def pure (a : α) : Program σ ε α := ⟨fun s => some (s, .ok a)⟩

protected def bind (x : Program σ ε α) (f : α → Program σ ε β) : Program σ ε β where
  run s :=
    match x.run s with
    | none => none
    | some (s', .error e) => some (s', .error e)
    | some (s', .ok a) => (f a).run s'

instance : Monad (Program σ ε) where
  pure := Program.pure
  bind := Program.bind

/-- Read from the state. -/
def read (f : σ → α) : Program σ ε α := ⟨fun s => some (s, .ok (f s))⟩

def modify (f : σ → σ) : Program σ ε Unit := ⟨fun s => some (f s, .ok ())⟩

/-- A result that does not touch the state. -/
def ofExcept (r : Except ε α) : Program σ ε α := ⟨fun s => some (s, r)⟩

/-- Go on with the result, an error or not, as a value. -/
def attempt (x : Program σ ε α) : Program σ ε (Except ε α) where
  run s := (x.run s).map (fun p => (p.1, .ok p.2))

/-- A program over a part of the state. -/
def within {τ : Type} (part : τ → σ) (put : τ → σ → τ) (x : Program σ ε α) : Program τ ε α where
  run t := (x.run (part t)).map (fun p => (put t p.1, p.2))

/-- One after the other over a list, and what each one returns. -/
def traverse (f : α → Program σ ε β) : List α → Program σ ε (List β)
  | [] => pure []
  | a :: as => do
      let b ← f a
      let bs ← traverse f as
      return b :: bs

/-! ## Runs -/

@[simp] theorem pure_run (a : α) (s : σ) : (pure a : Program σ ε α).run s = some (s, .ok a) := rfl

@[simp] theorem read_run (f : σ → α) (s : σ) :
    (read f : Program σ ε α).run s = some (s, .ok (f s)) := rfl

@[simp] theorem modify_run (f : σ → σ) (s : σ) :
    (modify f : Program σ ε Unit).run s = some (f s, .ok ()) := rfl

@[simp] theorem ofExcept_run (r : Except ε α) (s : σ) :
    (ofExcept r : Program σ ε α).run s = some (s, r) := rfl

/-- A given result is returned and the state stays as it is. -/
theorem ofExcept_eq_some {r r' : Except ε α} {s s' : σ} :
    (ofExcept r : Program σ ε α).run s = some (s', r') ↔ s' = s ∧ r = r' := by
  rw [ofExcept_run, Option.some.injEq, Prod.mk.injEq, eq_comm (a := s)]

/-- After a success the rest runs from the state that was left. -/
theorem bind_ok {x : Program σ ε α} {f : α → Program σ ε β} {s s' : σ} {a : α}
    (h : x.run s = some (s', .ok a)) : (x >>= f).run s = (f a).run s' := by
  show (Program.bind x f).run s = (f a).run s'
  simp only [Program.bind, h]

/-- A failure ends the program. -/
theorem bind_error {x : Program σ ε α} {f : α → Program σ ε β} {s s' : σ} {e : ε}
    (h : x.run s = some (s', .error e)) : (x >>= f).run s = some (s', .error e) := by
  show (Program.bind x f).run s = some (s', .error e)
  simp only [Program.bind, h]

@[simp] theorem read_bind (g : σ → α) (f : α → Program σ ε β) (s : σ) :
    (read g >>= f).run s = (f (g s)).run s := bind_ok rfl

@[simp] theorem modify_bind (g : σ → σ) (f : Unit → Program σ ε β) (s : σ) :
    (modify g >>= f).run s = (f ()).run (g s) := bind_ok rfl

/-- Two computations without a state one after the other. -/
theorem ofExcept_bind {r : Except ε α} {f : α → Except ε β} :
    (ofExcept (r >>= f) : Program σ ε β) = ofExcept r >>= fun a => ofExcept (f a) := by
  cases r <;> rfl

/-- An attempted program never fails: its result is the value. -/
theorem attempt_run {x : Program σ ε α} {s s' : σ} {r : Except ε α} :
    (attempt x).run s = some (s', .ok r) ↔ x.run s = some (s', r) := by
  simp only [attempt, Option.map_eq_some_iff, Prod.mk.injEq, Except.ok.injEq]
  constructor
  · rintro ⟨⟨t, r'⟩, hx, rfl, rfl⟩
    exact hx
  · intro hx
    exact ⟨(s', r), hx, rfl, rfl⟩

/-- A program on a part of the state runs as it does on its own. -/
theorem within_run {τ : Type} {part : τ → σ} {put : τ → σ → τ} {x : Program σ ε α} {t : τ} {s : σ}
    {r : Except ε α} (h : x.run (part t) = some (s, r)) :
    (within part put x).run t = some (put t s, r) := by
  simp only [within, h, Option.map_some]

/-- A sequence has run if its first part ended in an error, or if both parts have run. -/
theorem bind_eq_some {x : Program σ ε α} {f : α → Program σ ε β} {s s' : σ} {r : Except ε β} :
    (x >>= f).run s = some (s', r) ↔
      (∃ e, x.run s = some (s', .error e) ∧ r = .error e) ∨
      ∃ t a, x.run s = some (t, .ok a) ∧ (f a).run t = some (s', r) := by
  show (Program.bind x f).run s = some (s', r) ↔ _
  unfold Program.bind
  dsimp only
  split
  · -- The first program does not return.
    next hx => simp [hx]
  · next t e hx =>
    simp only [hx, Option.some.injEq, Prod.mk.injEq, Except.error.injEq]
    constructor
    · rintro ⟨rfl, rfl⟩
      exact .inl ⟨e, ⟨rfl, rfl⟩, rfl⟩
    · rintro (⟨e', ⟨rfl, rfl⟩, rfl⟩ | ⟨t', a, ⟨-, h⟩, -⟩)
      · exact ⟨rfl, rfl⟩
      · cases h
  · next t a hx =>
    simp only [hx, Option.some.injEq, Prod.mk.injEq, reduceCtorEq, and_false, false_and,
      exists_false, false_or, Except.ok.injEq]
    constructor
    · intro h
      exact ⟨t, a, ⟨rfl, rfl⟩, h⟩
    · rintro ⟨t', a', ⟨rfl, rfl⟩, h⟩
      exact h

/-- A sequence that succeeded. -/
theorem bind_eq_ok {x : Program σ ε α} {f : α → Program σ ε β} {s s' : σ} {b : β} :
    (x >>= f).run s = some (s', .ok b) ↔
      ∃ t a, x.run s = some (t, .ok a) ∧ (f a).run t = some (s', .ok b) := by
  rw [bind_eq_some]
  constructor
  · rintro (⟨e, -, h⟩ | h)
    · cases h
    · exact h
  · exact .inr

/-- A traversal that succeeds did so at its first element and at the others. -/
theorem traverse_cons_eq_ok {f : α → Program σ ε β} {a : α} {as : List α} {s s' : σ}
    {bs : List β} : (traverse f (a :: as)).run s = some (s', .ok bs) ↔
      ∃ t b rest, (f a).run s = some (t, .ok b) ∧ (traverse f as).run t = some (s', .ok rest) ∧
        bs = b :: rest := by
  rw [traverse, bind_eq_ok]
  constructor
  · rintro ⟨t, b, hb, hbind⟩
    obtain ⟨u, rest, hrest, hlast⟩ := bind_eq_ok.mp hbind
    cases hlast
    exact ⟨t, b, rest, hb, hrest, rfl⟩
  · rintro ⟨t, b, rest, hb, hrest, rfl⟩
    exact ⟨t, b, hb, bind_eq_ok.mpr ⟨s', rest, hrest, rfl⟩⟩

/-- A traversal of two lists is the one followed by the other. -/
theorem traverse_append_eq_ok {f : α → Program σ ε β} {as as' : List α} {s s' : σ}
    {bs : List β} (h : (traverse f (as ++ as')).run s = some (s', .ok bs)) :
    ∃ t first rest, (traverse f as).run s = some (t, .ok first) ∧
      (traverse f as').run t = some (s', .ok rest) ∧ bs = first ++ rest := by
  induction as generalizing s bs with
  | nil => exact ⟨s, [], bs, rfl, h, rfl⟩
  | cons a as ih =>
      obtain ⟨t, b, rest, hb, hrest, rfl⟩ := traverse_cons_eq_ok.mp h
      obtain ⟨u, first, last, hfirst, hlast, rfl⟩ := ih hrest
      exact ⟨u, b :: first, last, traverse_cons_eq_ok.mpr ⟨t, b, first, hb, hfirst, rfl⟩, hlast, rfl⟩

/-- A sequence returns if its first part does, and the rest after what that returned. -/
theorem bind_returns {x : Program σ ε α} {f : α → Program σ ε β} {s : σ}
    (hx : ∃ t r, x.run s = some (t, r))
    (hf : ∀ t a, x.run s = some (t, .ok a) → ∃ u r, (f a).run t = some (u, r)) :
    ∃ u r, (x >>= f).run s = some (u, r) := by
  obtain ⟨t, r, hx⟩ := hx
  cases r with
  | error e => exact ⟨t, .error e, bind_error hx⟩
  | ok a =>
      rw [bind_ok hx]
      exact hf t a hx

/-! ## Programs that may not return -/

/-- Every run of `x` is a run of `y`, which may return where `x` does not. -/
def Below (x y : Program σ ε α) : Prop := ∀ s p, x.run s = some p → y.run s = some p

theorem Below.refl (x : Program σ ε α) : Below x x := fun _ _ h => h

/-- What two programs have below each other in both halves they have in sequence. -/
theorem Below.bind {x y : Program σ ε α} {f g : α → Program σ ε β} (hx : Below x y)
    (hf : ∀ a, Below (f a) (g a)) : Below (x >>= f) (y >>= g) := by
  rintro s ⟨s', r⟩ h
  rcases bind_eq_some.mp h with ⟨e, he, rfl⟩ | ⟨t, a, ha, hrest⟩
  · exact bind_error (hx _ _ he)
  · rw [bind_ok (hx _ _ ha)]
    exact hf a _ _ hrest

/-! ## What a program keeps -/

/-- Every run relates the state it started in to the one it leaves. -/
def Keeps (R : σ → σ → Prop) (x : Program σ ε α) : Prop :=
  ∀ s s' r, x.run s = some (s', r) → R s s'

section Keeps

variable {R : σ → σ → Prop} [Std.Refl R] [Trans R R R]

omit [Trans R R R] in
theorem Keeps.pure (a : α) : Keeps R (pure a : Program σ ε α) := by
  intro s s' r h
  cases h
  exact Std.Refl.refl s

omit [Trans R R R] in
theorem Keeps.read (f : σ → α) : Keeps R (read f : Program σ ε α) := by
  intro s s' r h
  cases h
  exact Std.Refl.refl s

omit [Trans R R R] in
theorem Keeps.ofExcept (x : Except ε α) : Keeps R (ofExcept x : Program σ ε α) := by
  intro s s' r h
  cases h
  exact Std.Refl.refl s

omit [Std.Refl R] [Trans R R R] in
/-- A change keeps a relation that it satisfies at every state. -/
theorem Keeps.modify {f : σ → σ} (h : ∀ s, R s (f s)) :
    Keeps R (modify f : Program σ ε Unit) := by
  intro s s' r hx
  cases hx
  exact h s

omit [Std.Refl R] in
/-- What both halves keep the sequence keeps, since the relation is transitive. -/
theorem Keeps.bind {x : Program σ ε α} {f : α → Program σ ε β} (hx : Keeps R x)
    (hf : ∀ a, Keeps R (f a)) : Keeps R (x >>= f) := by
  intro s s' r h
  rcases bind_eq_some.mp h with ⟨e, he, -⟩ | ⟨t, a, ha, hrest⟩
  · exact hx _ _ _ he
  · exact Trans.trans (hx _ _ _ ha) (hf a _ _ _ hrest)

omit [Std.Refl R] [Trans R R R] in
/-- Catching the error of a program changes nothing about the state it leaves. -/
theorem Keeps.attempt {x : Program σ ε α} (hx : Keeps R x) : Keeps R (attempt x) := by
  intro s s' r h
  cases hrun : x.run s with
  | none => simp [Program.attempt, hrun] at h
  | some p =>
      simp only [Program.attempt, hrun, Option.map_some, Option.some.injEq, Prod.mk.injEq] at h
      obtain ⟨rfl, -⟩ := h
      exact hx s p.1 p.2 hrun

/-- What the program for each element keeps the traversal keeps, by induction on the list. -/
theorem Keeps.traverse {f : α → Program σ ε β} (hf : ∀ a, Keeps R (f a)) (as : List α) :
    Keeps R (traverse f as) := by
  induction as with
  | nil => exact .pure []
  | cons a as ih => exact .bind (hf a) (fun b => .bind ih (fun bs => .pure _))

end Keeps

/-! ## What a program ensures -/

/-- An invariant, as a relation between states. -/
def Stays (I : σ → Prop) (s s' : σ) : Prop := I s → I s'

instance (I : σ → Prop) : Std.Refl (Stays I) := ⟨fun _ h => h⟩

instance (I : σ → Prop) : Trans (Stays I) (Stays I) (Stays I) where
  trans h h' hs := h' (h hs)

/-- Started where `I` holds, every run ends where `I` holds, and what it returns satisfies `Q`. -/
def Ensures (I : σ → Prop) (x : Program σ ε α) (Q : α → Prop) : Prop :=
  ∀ s s' r, I s → x.run s = some (s', r) → I s' ∧ ∀ a, r = .ok a → Q a

section Ensures

variable {I : σ → Prop} {P : α → Prop} {Q : β → Prop}

theorem Ensures.pure {a : α} (h : P a) : Ensures I (pure a : Program σ ε α) P := by
  intro s s' r hs hrun
  cases hrun
  refine ⟨hs, ?_⟩
  intro a' ha
  cases ha
  exact h

theorem Ensures.read {f : σ → α} (h : ∀ s, I s → P (f s)) :
    Ensures I (read f : Program σ ε α) P := by
  intro s s' r hs hrun
  cases hrun
  refine ⟨hs, ?_⟩
  intro a ha
  cases ha
  exact h s hs

theorem Ensures.ofExcept {x : Except ε α} (h : ∀ a, x = .ok a → P a) :
    Ensures I (ofExcept x : Program σ ε α) P := by
  intro s s' r hs hrun
  cases hrun
  exact ⟨hs, h⟩

theorem Ensures.modify {f : σ → σ} (h : ∀ s, I s → I (f s)) :
    Ensures I (modify f : Program σ ε Unit) (fun _ => True) := by
  intro s s' r hs hrun
  cases hrun
  exact ⟨h s hs, fun _ _ => trivial⟩

/-- The postcondition of the first half is the precondition of the second. -/
theorem Ensures.bind {x : Program σ ε α} {f : α → Program σ ε β} (hx : Ensures I x P)
    (hf : ∀ a, P a → Ensures I (f a) Q) : Ensures I (x >>= f) Q := by
  intro s s' r hs hrun
  rcases bind_eq_some.mp hrun with ⟨e, herror, rfl⟩ | ⟨t, a, hfirst, hrest⟩
  · exact ⟨(hx _ _ _ hs herror).1, fun b hb => nomatch hb⟩
  · obtain ⟨ht, ha⟩ := hx _ _ _ hs hfirst
    exact hf a (ha a rfl) _ _ _ ht hrest

/-- Of an attempted program the postcondition is known where it succeeded. -/
theorem Ensures.attempt {x : Program σ ε α} (hx : Ensures I x P) :
    Ensures I (attempt x) (fun r => ∀ a, r = .ok a → P a) := by
  intro s s' r hs hrun
  obtain ⟨p, hp, hr⟩ := Option.map_eq_some_iff.mp hrun
  cases hr
  obtain ⟨hs', ha⟩ := hx _ _ _ hs hp
  refine ⟨hs', ?_⟩
  intro r' hr'
  cases hr'
  exact ha

/-- Each result of a traversal satisfies what each program ensures. -/
theorem Ensures.traverse {f : α → Program σ ε β} (hf : ∀ a, Ensures I (f a) Q) (as : List α) :
    Ensures I (traverse f as) (fun bs => ∀ b ∈ bs, Q b) := by
  induction as with
  | nil => exact .pure (by simp)
  | cons a as ih =>
      refine .bind (hf a) (fun b hb => .bind ih (fun bs hbs => .pure ?_))
      intro b' hb'
      rcases List.mem_cons.mp hb' with rfl | hb'
      · exact hb
      · exact hbs b' hb'

/-- A weaker postcondition. -/
theorem Ensures.weaken {P' : α → Prop} {x : Program σ ε α} (hx : Ensures I x P)
    (h : ∀ a, P a → P' a) : Ensures I x P' := by
  intro s s' r hs hrun
  obtain ⟨hs', ha⟩ := hx _ _ _ hs hrun
  exact ⟨hs', fun a hr => h a (ha a hr)⟩

/-- An invariant that is kept, and from which the postcondition is read off at the end. -/
theorem Ensures.of_keeps {x : Program σ ε α} (hx : Keeps (Stays I) x)
    (h : ∀ s s' a, I s → x.run s = some (s', .ok a) → P a) : Ensures I x P := by
  intro s s' r hs hrun
  refine ⟨hx _ _ _ hrun hs, ?_⟩
  intro a ha
  subst ha
  exact h s s' a hs hrun

/-- Whoever ensures something keeps the invariant. -/
theorem Ensures.keeps {x : Program σ ε α} (hx : Ensures I x P) : Keeps (Stays I) x :=
  fun s s' r hrun hs => (hx s s' r hs hrun).1

end Ensures

/-- Started where `I` holds, no run ends in an error, and every run ends where `I` holds. -/
def Succeeds (I : σ → Prop) (x : Program σ ε α) : Prop :=
  ∀ s s' r, I s → x.run s = some (s', r) → I s' ∧ ∃ a, r = .ok a

section Succeeds

variable {I : σ → Prop}

theorem Succeeds.pure (a : α) : Succeeds I (pure a : Program σ ε α) := by
  intro s s' r hs hrun
  cases hrun
  exact ⟨hs, a, rfl⟩

/-- A sequence succeeds when both halves do. -/
theorem Succeeds.bind {x : Program σ ε α} {f : α → Program σ ε β} (hx : Succeeds I x)
    (hf : ∀ a, Succeeds I (f a)) : Succeeds I (x >>= f) := by
  intro s s' r hs hrun
  rcases bind_eq_some.mp hrun with ⟨e, herror, -⟩ | ⟨t, a, hfirst, hrest⟩
  · obtain ⟨-, a, ha⟩ := hx _ _ _ hs herror
    cases ha
  · exact hf a _ _ _ (hx _ _ _ hs hfirst).1 hrest

/-- A traversal succeeds when every program in it does. -/
theorem Succeeds.traverse {f : α → Program σ ε β} (hf : ∀ a, Succeeds I (f a)) (as : List α) :
    Succeeds I (traverse f as) := by
  induction as with
  | nil => exact .pure []
  | cons a as ih => exact .bind (hf a) (fun b => .bind ih (fun bs => .pure _))

end Succeeds

/-- From every state there is a run, and it returns a value that satisfies `Q`. -/
def Delivers (x : Program σ ε α) (Q : α → Prop) : Prop :=
  ∀ s, ∃ s' a, x.run s = some (s', .ok a) ∧ Q a

section Delivers

variable {P : α → Prop} {Q : β → Prop}

theorem Delivers.pure {a : α} (h : P a) : Delivers (pure a : Program σ ε α) P :=
  fun s => ⟨s, a, rfl, h⟩

/-- What the first half delivers the second may use. -/
theorem Delivers.bind {x : Program σ ε α} {f : α → Program σ ε β} (hx : Delivers x P)
    (hf : ∀ a, P a → Delivers (f a) Q) : Delivers (x >>= f) Q := by
  intro s
  obtain ⟨t, a, hfirst, ha⟩ := hx s
  obtain ⟨s', b, hrest, hb⟩ := hf a ha t
  exact ⟨s', b, by rw [bind_ok hfirst]; exact hrest, hb⟩

/-- The result of a call that returns is a value, which some run has had. -/
theorem Delivers.attempt {x : Program σ ε α} (hx : ∀ s, ∃ s' r, x.run s = some (s', r)) :
    Delivers (attempt x) (fun r => ∃ s s', x.run s = some (s', r)) := by
  intro s
  obtain ⟨s', r, hrun⟩ := hx s
  exact ⟨s', r, attempt_run.mpr hrun, s, s', hrun⟩

/-- A weaker condition on the result. -/
theorem Delivers.weaken {P' : α → Prop} {x : Program σ ε α} (hx : Delivers x P)
    (h : ∀ a, P a → P' a) : Delivers x P' := by
  intro s
  obtain ⟨s', a, hrun, ha⟩ := hx s
  exact ⟨s', a, hrun, h a ha⟩

end Delivers

end Program
