import ProtonDrive.Lib.Machine

/-!
# A shared thing that is renewed

Something that many users share, and that may go stale: a session, a table of URLs. It has a
version. A user who finds it stale remembers the version it has used and asks for a newer one. The
users who ask take turns: the one that has the lock looks at the version first, and makes a new one
only if nobody else has in the meantime. Making one may fail, and a user may be stopped at any
point.

* `step_inv` — what holds between the version, the lock, the users and the log.
* `Inv.replaced_le`, `Inv.mints_le` — no version is replaced twice.
* `Inv.renewed_lt` — a user that has been given a newer version has been.
* `Inv.uses_ok`, `Inv.attempts_le` — a user uses at most two versions, and the second is newer.
-/

namespace Renewal

/-- Where a user is. The version is the one it has used, or has seen. -/
inductive Phase where
  | idle
  | used (g : Nat)
  /-- Asks for a version after `g`, and waits for the lock. -/
  | waiting (g : Nat)
  | holding (g : Nat)
  /-- Has the lock, and `g` was the version; is about to make a new one. -/
  | minting (g : Nat)
  | minted (g : Nat)
  /-- There is a version after `g`. -/
  | renewed (g : Nat)
  | ended
  deriving DecidableEq, Repr

def Phase.holds : Phase → Bool
  | .holding _ => true
  | .minting _ => true
  | .minted _ => true
  | _ => false

inductive Event (ι : Type) where
  | used (i : ι) (g : Nat)
  /-- A new version is made in place of `g`, or at least tried. -/
  | attempted (i : ι) (g : Nat)
  | minted (i : ι) (g : Nat)
  | replaced (i : ι) (g : Nat)
  /-- A version that was made, but not put in place of `g`. -/
  | lost (i : ι) (g : Nat)
  deriving DecidableEq, Repr

inductive Action (ι : Type) where
  | use (i : ι)
  | want (i : ι)
  | acquire (i : ι)
  | check (i : ι)
  | mint (i : ι)
  | install (i : ι)
  | reuse (i : ι)
  | stop (i : ι)
  deriving DecidableEq, Repr

structure State (ι : Type) where
  version : Nat
  locked : Bool
  phase : ι → Phase
  /-- Newest first. -/
  log : List (Event ι)

variable {ι : Type} [DecidableEq ι]

def State.enter (s : State ι) (i : ι) (p : Phase) : State ι :=
  { s with phase := Function.update s.phase i p }

def State.note (s : State ι) (e : Event ι) : State ι := { s with log := e :: s.log }

def State.release (s : State ι) : State ι := { s with locked := false }

/-- A user goes away; the lock goes with it, and what it has made is lost. -/
def State.stop (s : State ι) (i : ι) : State ι :=
  let s' := s.enter i .ended
  match s.phase i with
  | .holding _ => s'.release
  | .minting _ => s'.release
  | .minted g => (s'.note (.lost i g)).release
  | _ => s'

def step (s : State ι) : Action ι → Option (State ι)
  | .use i =>
      match s.phase i with
      | .idle => some ((s.enter i (.used s.version)).note (.used i s.version))
      | _ => none
  | .want i =>
      match s.phase i with
      | .idle => some (s.enter i (.waiting s.version))
      | .used g => some (s.enter i (.waiting g))
      | _ => none
  | .acquire i =>
      match s.phase i with
      | .waiting g =>
          if s.locked then none else some { s.enter i (.holding g) with locked := true }
      | _ => none
  | .check i =>
      match s.phase i with
      | .holding g =>
          if s.version ≠ g then some (s.enter i (.renewed g)).release
          else some ((s.enter i (.minting g)).note (.attempted i g))
      | _ => none
  | .mint i =>
      match s.phase i with
      | .minting g => some ((s.enter i (.minted g)).note (.minted i g))
      | _ => none
  | .install i =>
      match s.phase i with
      | .minted g =>
          some { (s.enter i (.renewed g)).note (.replaced i g) with
            version := s.version + 1
            locked := false }
      | _ => none
  | .reuse i =>
      match s.phase i with
      | .renewed _ => some ((s.enter i .ended).note (.used i s.version))
      | _ => none
  | .stop i => some (s.stop i)

def renewals : Machine (State ι) (Action ι) := ⟨step⟩

/-- Version `0`, and nobody has done anything. -/
def start : State ι where
  version := 0
  locked := false
  phase := fun _ => .idle
  log := []

/-! ## What a step does -/

/-- `step`, one constructor for each thing that can happen. -/
inductive Step (s : State ι) : Action ι → State ι → Prop where
  | use {i} (hi : s.phase i = .idle) :
      Step s (.use i) ((s.enter i (.used s.version)).note (.used i s.version))
  | want {i} (hi : s.phase i = .idle) : Step s (.want i) (s.enter i (.waiting s.version))
  | wantAfter {i g} (hi : s.phase i = .used g) : Step s (.want i) (s.enter i (.waiting g))
  | acquire {i g} (hi : s.phase i = .waiting g) (hfree : s.locked = false) :
      Step s (.acquire i) { s.enter i (.holding g) with locked := true }
  | renewed {i g} (hi : s.phase i = .holding g) (hne : s.version ≠ g) :
      Step s (.check i) (s.enter i (.renewed g)).release
  | attempt {i g} (hi : s.phase i = .holding g) (heq : s.version = g) :
      Step s (.check i) ((s.enter i (.minting g)).note (.attempted i g))
  | mint {i g} (hi : s.phase i = .minting g) :
      Step s (.mint i) ((s.enter i (.minted g)).note (.minted i g))
  | install {i g} (hi : s.phase i = .minted g) :
      Step s (.install i) { (s.enter i (.renewed g)).note (.replaced i g) with
        version := s.version + 1
        locked := false }
  | reuse {i g} (hi : s.phase i = .renewed g) :
      Step s (.reuse i) ((s.enter i .ended).note (.used i s.version))
  | stop {i} : Step s (.stop i) (s.stop i)

/-- Everything that a step can do, with its guards. -/
theorem step_cases {s t : State ι} {a : Action ι} (h : step s a = some t) : Step s a t := by
  cases a with
  | use i =>
      simp only [step] at h
      split at h <;> cases h
      exact .use ‹_›
  | want i =>
      simp only [step] at h
      split at h <;> cases h
      · exact .want ‹_›
      · exact .wantAfter ‹_›
  | acquire i =>
      simp only [step] at h
      split at h
      · next hi =>
        -- The lock has to be free.
        split at h
        · cases h
        · next hfree =>
          cases h
          exact .acquire hi (Bool.eq_false_iff.mpr hfree)
      · cases h
  | check i =>
      simp only [step] at h
      split at h
      · next hi =>
        -- Behind the lock the version is compared: renewed meanwhile, or still the one that failed.
        split at h
        · next hne => cases h; exact .renewed hi hne
        · next heq => cases h; exact .attempt hi (not_not.mp heq)
      · cases h
  | mint i =>
      simp only [step] at h
      split at h <;> cases h
      exact .mint ‹_›
  | install i =>
      simp only [step] at h
      split at h <;> cases h
      exact .install ‹_›
  | reuse i =>
      simp only [step] at h
      split at h <;> cases h
      exact .reuse ‹_›
  | stop i =>
      cases h
      exact .stop

/-- Each way in which a step can end is one. -/
theorem Step.step_eq {s t : State ι} {a : Action ι} (h : Step s a t) : step s a = some t := by
  cases h with
  | use hi => simp only [step, hi]
  | want hi => simp only [step, hi]
  | wantAfter hi => simp only [step, hi]
  | acquire hi hfree => simp only [step, hi, hfree, Bool.false_eq_true, if_false]
  | renewed hi hne => simp only [step, hi, if_pos hne]
  | attempt hi heq => simp only [step, hi, if_neg (not_not.mpr heq)]
  | mint hi => simp only [step, hi]
  | install hi => simp only [step, hi]
  | reuse hi => simp only [step, hi]
  | stop => rfl

/-- A step on its own is a run. -/
theorem Step.exec {s t : State ι} {a : Action ι} (h : Step s a t) :
    ∃ as, renewals.exec s as = some t := ⟨[a], renewals.exec_singleton h.step_eq⟩

/-- A user without the lock just goes. -/
theorem exec_stop_free {s : State ι} {i : ι} (h : (s.phase i).holds = false) :
    ∃ as, renewals.exec s as = some (s.enter i .ended) := by
  have hstop : s.stop i = s.enter i .ended := by
    unfold State.stop
    cases hi : s.phase i with
    | holding g => rw [hi] at h; cases h
    | minting g => rw [hi] at h; cases h
    | minted g => rw [hi] at h; cases h
    | _ => rfl
  rw [← hstop]
  exact Step.stop.exec

/-- One with the lock lets go of it. -/
theorem exec_stop_holding {s : State ι} {i : ι} {g : Nat}
    (h : s.phase i = .holding g ∨ s.phase i = .minting g) :
    ∃ as, renewals.exec s as = some (s.enter i .ended).release := by
  have hstop : s.stop i = (s.enter i .ended).release := by
    rcases h with hi | hi <;> simp only [State.stop, hi]
  rw [← hstop]
  exact Step.stop.exec

/-- What one with a version at hand has made is lost. -/
theorem exec_stop_minted {s : State ι} {i : ι} {g : Nat} (h : s.phase i = .minted g) :
    ∃ as, renewals.exec s as = some ((s.enter i .ended).note (.lost i g)).release := by
  have hstop : s.stop i = ((s.enter i .ended).note (.lost i g)).release := by
    simp only [State.stop, h]
  rw [← hstop]
  exact Step.stop.exec

/-- A version that is made and put in place at once. -/
theorem exec_mint_install {s : State ι} {i : ι} {g : Nat} (h : s.phase i = .minting g) :
    ∃ as, renewals.exec s as =
      some { ((s.enter i (.renewed g)).note (.minted i g)).note (.replaced i g) with
        version := s.version + 1
        locked := false } := by
  refine ⟨[.mint i, .install i], ?_⟩
  simp only [Machine.exec, renewals, step, h, State.enter, State.note, Option.bind_some,
    Function.update_self, Function.update_idem]

/-! ## What is in the log -/

/-- The versions that a user has used, newest first. -/
def uses (log : List (Event ι)) (i : ι) : List Nat :=
  log.filterMap (fun
    | .used j g => if j = i then some g else none
    | _ => none)

def attempts (log : List (Event ι)) (i : ι) : Nat :=
  log.countP (fun
    | .attempted j _ => j = i
    | _ => false)

def mints (log : List (Event ι)) (g : Nat) : Nat :=
  log.countP (fun
    | .minted _ h => h = g
    | _ => false)

def replacements (log : List (Event ι)) (g : Nat) : Nat :=
  log.countP (fun
    | .replaced _ h => h = g
    | _ => false)

def losses (log : List (Event ι)) (g : Nat) : Nat :=
  log.countP (fun
    | .lost _ h => h = g
    | _ => false)

/-! ## The invariant -/

/-- Two versions at most, the later one first. -/
def UsesOk (uses : List Nat) : Prop := uses.length ≤ 2 ∧ uses.Pairwise (· > ·)

/-- What a user in a phase has done, and how its version stands to the present one. -/
def PhaseOk (version : Nat) (uses : List Nat) (attempts : Nat) : Phase → Prop
  | .idle => uses = [] ∧ attempts = 0
  | .used g => g ≤ version ∧ uses = [g] ∧ attempts = 0
  | .waiting g => g ≤ version ∧ (uses = [] ∨ uses = [g]) ∧ attempts = 0
  | .holding g => g ≤ version ∧ (uses = [] ∨ uses = [g]) ∧ attempts = 0
  | .minting g => g = version ∧ (uses = [] ∨ uses = [g]) ∧ attempts = 1
  | .minted g => g = version ∧ (uses = [] ∨ uses = [g]) ∧ attempts = 1
  | .renewed g => g < version ∧ (uses = [] ∨ uses = [g]) ∧ attempts ≤ 1
  | .ended => UsesOk uses ∧ attempts ≤ 1

structure Inv (s : State ι) : Prop where
  held : ∀ i, (s.phase i).holds = true → s.locked = true
  alone : ∀ i j, (s.phase i).holds = true → (s.phase j).holds = true → i = j
  phase : ∀ i, PhaseOk s.version (uses s.log i) (attempts s.log i) (s.phase i)
  /-- The versions before the present one have been replaced, each once. -/
  replaced : ∀ g, replacements s.log g = if g < s.version then 1 else 0
  /-- Every version that was made has been put in place or lost, but for the one at hand. -/
  atHand : ∀ i g, s.phase i = .minted g → mints s.log g = losses s.log g + 1
  settled : ∀ g, (∀ i, s.phase i ≠ .minted g) →
    mints s.log g = replacements s.log g + losses s.log g

omit [DecidableEq ι] in
/-- A single use is in order. -/
theorem usesOk_one {l : List Nat} {g : Nat} (h : l = [] ∨ l = [g]) : UsesOk l := by
  rcases h with rfl | rfl
  · exact ⟨by simp, .nil⟩
  · exact ⟨by simp, List.pairwise_singleton _ _⟩

omit [DecidableEq ι] in
/-- A use after a renewal is in order. -/
theorem usesOk_cons {l : List Nat} {g version : Nat} (h : l = [] ∨ l = [g]) (hlt : g < version) :
    UsesOk (version :: l) := by
  rcases h with rfl | rfl
  · exact ⟨by simp, List.pairwise_singleton _ _⟩
  · exact ⟨by simp, by simpa using hlt⟩

/-- At first nobody holds the lock and nothing was replaced. -/
theorem inv_start : Inv (start : State ι) where
  held := by
    intro i hi
    cases hi
  alone := by
    intro i j hi
    cases hi
  phase := fun _ => ⟨rfl, rfl⟩
  replaced := fun _ => rfl
  atHand := by
    intro i g hi
    cases hi
  settled := fun _ _ => rfl

/-- A user who has nothing to do with the lock is not concerned by a newer version. -/
theorem PhaseOk.mono {version version' : Nat} {l : List Nat} {n : Nat} {p : Phase}
    (h : PhaseOk version l n p) (hle : version ≤ version') (hp : p.holds = false) :
    PhaseOk version' l n p := by
  cases p with
  | idle => exact h
  | used g => exact ⟨Nat.le_trans h.1 hle, h.2⟩
  | waiting g => exact ⟨Nat.le_trans h.1 hle, h.2⟩
  | holding g => cases hp
  | minting g => cases hp
  | minted g => cases hp
  | renewed g => exact ⟨Nat.lt_of_lt_of_le h.1 hle, h.2⟩
  | ended => exact h

/-- Whoever stops has done nothing wrong. -/
theorem PhaseOk.ended {version : Nat} {l : List Nat} {n : Nat} {p : Phase}
    (h : PhaseOk version l n p) : PhaseOk version l n .ended := by
  -- Ending keeps the counts, and asks of them only what every phase asks.
  cases p with
  | idle =>
      obtain ⟨huses, hattempts⟩ := h
      exact ⟨usesOk_one (g := 0) (.inl huses), by omega⟩
  | used g =>
      obtain ⟨-, huses, hattempts⟩ := h
      exact ⟨usesOk_one (.inr huses), by omega⟩
  | waiting g =>
      obtain ⟨-, huses, hattempts⟩ := h
      exact ⟨usesOk_one huses, by omega⟩
  | holding g =>
      obtain ⟨-, huses, hattempts⟩ := h
      exact ⟨usesOk_one huses, by omega⟩
  | minting g =>
      obtain ⟨-, huses, hattempts⟩ := h
      exact ⟨usesOk_one huses, by omega⟩
  | minted g =>
      obtain ⟨-, huses, hattempts⟩ := h
      exact ⟨usesOk_one huses, by omega⟩
  | renewed g =>
      obtain ⟨-, huses, hattempts⟩ := h
      exact ⟨usesOk_one huses, hattempts⟩
  | ended => exact h

section Steps

variable {s t : State ι} {i : ι} {p : Phase}

/-- What a step does to the phases, with what it writes to the log. -/
structure Moves (s t : State ι) (i : ι) (p : Phase) : Prop where
  phase : t.phase = Function.update s.phase i p
  others : ∀ j, j ≠ i → uses t.log j = uses s.log j ∧ attempts t.log j = attempts s.log j

/-- Only the user with the lock can keep the others from it. -/
structure Locks (s t : State ι) (i : ι) (p : Phase) : Prop where
  held : p.holds = true → t.locked = true
  alone : p.holds = true → ∀ j, j ≠ i → (s.phase j).holds = false
  keeps : ∀ j, j ≠ i → (s.phase j).holds = true → t.locked = true

/-- Only one party holds the lock. -/
theorem Inv.others_free (hs : Inv s) (hi : (s.phase i).holds = true) :
    ∀ j, j ≠ i → (s.phase j).holds = false := by
  intro j hj
  rw [← Bool.not_eq_true]
  exact fun hholds => hj (hs.alone j i hholds hi)

/-- The lock after a step. -/
theorem Inv.locks (hs : Inv s) (hmoves : Moves s t i p) (hlocks : Locks s t i p) :
    (∀ j, (t.phase j).holds = true → t.locked = true) ∧
      ∀ j k, (t.phase j).holds = true → (t.phase k).holds = true → j = k := by
  have hphase : ∀ j, t.phase j = if j = i then p else s.phase j := by
    intro j
    rw [hmoves.phase, Function.update_apply]
  -- Either the caller is the one that moved, or its phase is as before.
  refine ⟨?_, ?_⟩
  · intro j hj
    rw [hphase] at hj
    by_cases hji : j = i
    · rw [if_pos hji] at hj
      exact hlocks.held hj
    · rw [if_neg hji] at hj
      exact hlocks.keeps j hji hj
  · intro j k hj hk
    rw [hphase] at hj hk
    by_cases hji : j = i
    · by_cases hki : k = i
      · rw [hji, hki]
      · rw [if_pos hji] at hj
        rw [if_neg hki, hlocks.alone hj k hki] at hk
        cases hk
    · by_cases hki : k = i
      · rw [if_pos hki] at hk
        rw [if_neg hji, hlocks.alone hk j hji] at hj
        cases hj
      · rw [if_neg hji] at hj
        rw [if_neg hki] at hk
        exact hs.alone j k hj hk

/-- A step of a user who neither makes a version nor has one at hand. -/
theorem Inv.move (hs : Inv s) (hmoves : Moves s t i p) (hlocks : Locks s t i p)
    (hversion : t.version = s.version)
    (hcounts : ∀ g, mints t.log g = mints s.log g ∧ replacements t.log g = replacements s.log g ∧
      losses t.log g = losses s.log g)
    (hown : PhaseOk s.version (uses t.log i) (attempts t.log i) p)
    (hp : ∀ g, p ≠ .minted g) (hi : ∀ g, s.phase i ≠ .minted g) : Inv t := by
  obtain ⟨hheld, halone⟩ := hs.locks hmoves hlocks
  -- No phase with a minted token begins or ends here.
  have hminted : ∀ j g, t.phase j = .minted g ↔ s.phase j = .minted g := by
    intro j g
    rw [hmoves.phase, Function.update_apply]
    split
    · next hji =>
      subst hji
      exact iff_of_false (hp g) (hi g)
    · rfl
  refine ⟨hheld, halone, ?_, ?_, ?_, ?_⟩
  · intro j
    rw [hmoves.phase, Function.update_apply, hversion]
    by_cases hji : j = i
    · rw [if_pos hji, hji]
      exact hown
    · rw [if_neg hji, (hmoves.others j hji).1, (hmoves.others j hji).2]
      exact hs.phase j
  · intro g
    rw [(hcounts g).2.1, hversion]
    exact hs.replaced g
  · intro j g hj
    rw [(hcounts g).1, (hcounts g).2.2]
    exact hs.atHand j g ((hminted j g).mp hj)
  · intro g hg
    rw [(hcounts g).1, (hcounts g).2.1, (hcounts g).2.2]
    exact hs.settled g (fun j hj => hg j ((hminted j g).mpr hj))

/-! ### Step by step -/

/-- A party that uses the current version has used nothing newer. -/
theorem Inv.use (hs : Inv s) (hi : s.phase i = .idle) :
    Inv ((s.enter i (.used s.version)).note (.used i s.version)) := by
  have hown := hs.phase i
  rw [hi] at hown
  obtain ⟨huses, hattempts⟩ := hown
  refine hs.move (i := i) (p := .used s.version) ⟨rfl, ?_⟩
    ⟨nofun, nofun, fun j _ hj => hs.held j hj⟩ rfl (fun g => ⟨rfl, rfl, rfl⟩) ?_ nofun
    (by simp [hi])
  · intro j hj
    exact ⟨by simp [State.note, State.enter, uses, Ne.symm hj], rfl⟩
  · refine ⟨Nat.le_refl _, ?_, hattempts⟩
    have hcons : uses (.used i s.version :: s.log) i = s.version :: uses s.log i := by simp [uses]
    exact hcons.trans (by rw [huses])

/-- Asking for a newer version than the one used, or seen. -/
theorem Inv.want (hs : Inv s) {g : Nat} (hle : g ≤ s.version)
    (huses : uses s.log i = [] ∨ uses s.log i = [g]) (hattempts : attempts s.log i = 0)
    (hi : ∀ g, s.phase i ≠ .minted g) : Inv (s.enter i (.waiting g)) :=
  hs.move (i := i) (p := .waiting g) ⟨rfl, fun _ _ => ⟨rfl, rfl⟩⟩
    ⟨nofun, nofun, fun j _ hj => hs.held j hj⟩ rfl (fun _ => ⟨rfl, rfl, rfl⟩)
    ⟨hle, huses, hattempts⟩ nofun hi

/-- The free lock goes to a party that waits. -/
theorem Inv.acquire (hs : Inv s) {g : Nat} (hi : s.phase i = .waiting g)
    (hfree : s.locked = false) : Inv { s.enter i (.holding g) with locked := true } := by
  have hown := hs.phase i
  rw [hi] at hown
  have hothers : ∀ j, j ≠ i → (s.phase j).holds = false := by
    intro j _
    rw [← Bool.not_eq_true]
    intro hj
    rw [hs.held j hj] at hfree
    cases hfree
  exact hs.move (i := i) (p := .holding g) ⟨rfl, fun _ _ => ⟨rfl, rfl⟩⟩
    ⟨fun _ => rfl, fun _ => hothers, fun _ _ _ => rfl⟩ rfl (fun _ => ⟨rfl, rfl, rfl⟩) hown nofun
    (by simp [hi])

/-- Somebody else has made a newer version. -/
theorem Inv.renewed (hs : Inv s) {g : Nat} (hi : s.phase i = .holding g) (hne : s.version ≠ g) :
    Inv (s.enter i (.renewed g)).release := by
  have hown := hs.phase i
  rw [hi] at hown
  obtain ⟨hle, huses, hattempts⟩ := hown
  have hothers := hs.others_free (i := i) (by rw [hi]; rfl)
  have hnone : attempts s.log i ≤ 1 := by omega
  refine hs.move (i := i) (p := .renewed g) ⟨rfl, fun _ _ => ⟨rfl, rfl⟩⟩ ⟨nofun, nofun, ?_⟩ rfl
    (fun _ => ⟨rfl, rfl, rfl⟩) ⟨by omega, huses, hnone⟩ nofun (by simp [hi])
  intro j hj hholds
  rw [hothers j hj] at hholds
  cases hholds

/-- The holder finds its version still in place and attempts a new one. -/
theorem Inv.attempt (hs : Inv s) {g : Nat} (hi : s.phase i = .holding g) (heq : s.version = g) :
    Inv ((s.enter i (.minting g)).note (.attempted i g)) := by
  have hown := hs.phase i
  rw [hi] at hown
  obtain ⟨-, huses, hattempts⟩ := hown
  have hholds : (s.phase i).holds = true := by rw [hi]; rfl
  refine hs.move (i := i) (p := .minting g) ⟨rfl, ?_⟩
    ⟨fun _ => hs.held i hholds, fun _ => hs.others_free hholds, fun j _ hj => hs.held j hj⟩ rfl
    (fun _ => ⟨rfl, rfl, rfl⟩) ⟨heq.symm, huses, ?_⟩ nofun (by simp [hi])
  · intro j hj
    exact ⟨rfl, by simp [State.note, State.enter, attempts, Ne.symm hj]⟩
  · have hcons : attempts (.attempted i g :: s.log) i = attempts s.log i + 1 := by simp [attempts]
    exact hcons.trans (by rw [hattempts])

/-- A party that finds a newer version uses it. -/
theorem Inv.reuse (hs : Inv s) {g : Nat} (hi : s.phase i = .renewed g) :
    Inv ((s.enter i .ended).note (.used i s.version)) := by
  have hown := hs.phase i
  rw [hi] at hown
  obtain ⟨hlt, huses, hattempts⟩ := hown
  have hcons : uses (.used i s.version :: s.log) i = s.version :: uses s.log i := by simp [uses]
  refine hs.move (i := i) (p := .ended) ⟨rfl, ?_⟩ ⟨nofun, nofun, fun j _ hj => hs.held j hj⟩ rfl
    (fun _ => ⟨rfl, rfl, rfl⟩) ⟨?_, hattempts⟩ nofun (by simp [hi])
  · intro j hj
    exact ⟨by simp [State.note, State.enter, uses, Ne.symm hj], rfl⟩
  · show UsesOk (uses (.used i s.version :: s.log) i)
    rw [hcons]
    exact usesOk_cons huses hlt

/-- Nobody has a version at hand but the user with the lock. -/
theorem Inv.none_minted (hs : Inv s) (hi : (s.phase i).holds = true) {j : ι} {g : Nat}
    (hj : j ≠ i) : s.phase j ≠ .minted g := by
  intro hminted
  have hfree := hs.others_free hi j hj
  rw [hminted] at hfree
  cases hfree

/-- What was attempted has been minted, and is not in place yet. -/
theorem Inv.mint (hs : Inv s) {g : Nat} (hi : s.phase i = .minting g) :
    Inv ((s.enter i (.minted g)).note (.minted i g)) := by
  have hown := hs.phase i
  rw [hi] at hown
  have hholds : (s.phase i).holds = true := by rw [hi]; rfl
  have hmoves : Moves s ((s.enter i (.minted g)).note (.minted i g)) i (.minted g) :=
    ⟨rfl, fun _ _ => ⟨rfl, rfl⟩⟩
  obtain ⟨hheld, halone⟩ := hs.locks hmoves
    ⟨fun _ => hs.held i hholds, fun _ => hs.others_free hholds, fun j _ hj => hs.held j hj⟩
  -- before the step nobody has a version at hand
  have hnone : ∀ h j, s.phase j ≠ .minted h := by
    intro h j
    by_cases hji : j = i
    · rw [hji, hi]
      nofun
    · exact hs.none_minted hholds hji
  have hmints : ∀ h, mints (.minted i g :: s.log) h = mints s.log h + if g = h then 1 else 0 := by
    intro h
    simp [mints, List.countP_cons]
  refine ⟨hheld, halone, ?_, hs.replaced, ?_, ?_⟩
  · intro j
    rw [hmoves.phase, Function.update_apply]
    by_cases hji : j = i
    · rw [if_pos hji, hji]
      exact hown
    · rw [if_neg hji]
      exact hs.phase j
  · intro j h hj
    rw [hmoves.phase, Function.update_apply] at hj
    split at hj
    · cases hj
      have hsettled := hs.settled g (hnone g)
      rw [hs.replaced g, hown.1, if_neg (Nat.lt_irrefl _)] at hsettled
      show mints (.minted i g :: s.log) g = losses s.log g + 1
      rw [hmints, if_pos rfl, hown.1, hsettled]
      omega
    · exact absurd hj (hnone h j)
  · intro h hh
    have hne : g ≠ h := by
      rintro rfl
      exact hh i (by rw [hmoves.phase, Function.update_self])
    show mints (.minted i g :: s.log) h = _
    rw [hmints, if_neg hne]
    exact hs.settled h (hnone h)

/-- With a version at hand, all that were made are settled but this one, which is the next. -/
theorem Inv.settled_but (hs : Inv s) {g : Nat} (hi : s.phase i = .minted g) (h : Nat) :
    mints s.log h = replacements s.log h + losses s.log h + if g = h then 1 else 0 := by
  have hown := hs.phase i
  rw [hi] at hown
  by_cases hgh : g = h
  · rw [if_pos hgh, ← hgh, hs.atHand i g hi, hs.replaced g, hown.1, if_neg (Nat.lt_irrefl _)]
    omega
  · rw [if_neg hgh, Nat.add_zero]
    apply hs.settled h
    intro j hj
    by_cases hji : j = i
    · rw [hji, hi] at hj
      cases hj
      exact hgh rfl
    · exact hs.none_minted (by rw [hi]; rfl) hji hj

/-- After a step of the user who had a version at hand, nobody has one. -/
theorem Inv.none_minted_after (hs : Inv s) (hmoves : Moves s t i p)
    (hi : (s.phase i).holds = true) (hp : ∀ g, p ≠ .minted g) (j : ι) (g : Nat) :
    t.phase j ≠ .minted g := by
  intro hj
  rw [hmoves.phase, Function.update_apply] at hj
  split at hj
  · exact hp g hj
  · next hji => exact hs.none_minted hi hji hj

/-- The minted version replaces the one it was made for. -/
theorem Inv.install (hs : Inv s) {g : Nat} (hi : s.phase i = .minted g) :
    Inv { (s.enter i (.renewed g)).note (.replaced i g) with
      version := s.version + 1
      locked := false } := by
  have hown := hs.phase i
  rw [hi] at hown
  obtain ⟨heq, huses, hattempts⟩ := hown
  have hholds : (s.phase i).holds = true := by rw [hi]; rfl
  -- The lock is held by this caller, so the others are outside.
  have hothers := hs.others_free hholds
  have hmoves : Moves s { (s.enter i (.renewed g)).note (.replaced i g) with
      version := s.version + 1
      locked := false } i (.renewed g) := ⟨rfl, fun _ _ => ⟨rfl, rfl⟩⟩
  obtain ⟨hheld, halone⟩ := hs.locks hmoves
    ⟨nofun, nofun, fun j hj hjholds => absurd hjholds (by simp [hothers j hj])⟩
  have hreplacements : ∀ h, replacements (.replaced i g :: s.log) h =
      replacements s.log h + if g = h then 1 else 0 := by
    intro h
    simp [replacements, List.countP_cons]
  refine ⟨hheld, halone, ?_, ?_, ?_, ?_⟩
  · intro j
    rw [hmoves.phase, Function.update_apply]
    by_cases hji : j = i
    · rw [if_pos hji, hji]
      exact ⟨by dsimp only; omega, huses, Nat.le_of_eq hattempts⟩
    · rw [if_neg hji]
      exact (hs.phase j).mono (Nat.le_succ _) (hothers j hji)
  · intro h
    show replacements (.replaced i g :: s.log) h = if h < s.version + 1 then 1 else 0
    rw [hreplacements, hs.replaced h]
    -- The version that was replaced is the newest one.
    by_cases hgh : g = h
    · rw [if_pos hgh, if_neg (by omega), if_pos (by omega)]
    · by_cases hlt : h < s.version
      · rw [if_pos hlt, if_neg hgh, if_pos (by omega)]
      · rw [if_neg hlt, if_neg hgh, if_neg (by omega)]
  · exact fun j h hj => absurd hj (hs.none_minted_after hmoves hholds nofun j h)
  · -- What was minted for it is now replaced, and no longer at hand.
    intro h _
    show mints s.log h = replacements (.replaced i g :: s.log) h + losses s.log h
    rw [hreplacements, hs.settled_but hi h]
    omega

/-- A user that stops without a version at hand. -/
theorem Inv.ends (hs : Inv s) (hi : ∀ g, s.phase i ≠ .minted g) {locked : Bool}
    (hlocked : (s.phase i).holds = false → locked = s.locked) :
    Inv { s.enter i .ended with locked := locked } := by
  refine hs.move (i := i) (p := .ended) ⟨rfl, fun _ _ => ⟨rfl, rfl⟩⟩ ⟨nofun, nofun, ?_⟩ rfl
    (fun _ => ⟨rfl, rfl, rfl⟩) (hs.phase i).ended nofun hi
  intro j hj hholds
  by_cases hown : (s.phase i).holds = true
  · rw [hs.others_free hown j hj] at hholds
    cases hholds
  · rw [Bool.not_eq_true] at hown
    exact (hlocked hown).trans (hs.held j hholds)

/-- A failed attempt replaces nothing. -/
theorem Inv.loses (hs : Inv s) {g : Nat} (hi : s.phase i = .minted g) :
    Inv ((s.enter i .ended).note (.lost i g)).release := by
  have hended := (hs.phase i).ended
  have hholds : (s.phase i).holds = true := by rw [hi]; rfl
  have hothers := hs.others_free hholds
  have hmoves : Moves s ((s.enter i .ended).note (.lost i g)).release i .ended :=
    ⟨rfl, fun _ _ => ⟨rfl, rfl⟩⟩
  obtain ⟨hheld, halone⟩ := hs.locks hmoves
    ⟨nofun, nofun, fun j hj hjholds => absurd hjholds (by simp [hothers j hj])⟩
  have hlosses : ∀ h, losses (.lost i g :: s.log) h = losses s.log h + if g = h then 1 else 0 := by
    intro h
    simp [losses, List.countP_cons]
  refine ⟨hheld, halone, ?_, hs.replaced, ?_, ?_⟩
  · intro j
    rw [hmoves.phase, Function.update_apply]
    by_cases hji : j = i
    · rw [if_pos hji, hji]
      exact hended
    · rw [if_neg hji]
      exact hs.phase j
  · exact fun j h hj => absurd hj (hs.none_minted_after hmoves hholds nofun j h)
  · intro h _
    -- What was minted is now lost, which settles the count again.
    show mints s.log h = replacements s.log h + losses (.lost i g :: s.log) h
    rw [hlosses, hs.settled_but hi h]
    omega

/-- A party that is dropped gives the lock back. -/
theorem Inv.stop (hs : Inv s) (i : ι) : Inv (s.stop i) := by
  unfold State.stop
  dsimp only
  split
  · next hi => exact hs.ends (by simp [hi]) (by simp [hi, Phase.holds])
  · next hi => exact hs.ends (by simp [hi]) (by simp [hi, Phase.holds])
  · next hi => exact hs.loses hi
  · next _ _ hi => exact hs.ends hi (fun _ => rfl)

/-- **The step lemma.** -/
theorem step_inv {a : Action ι} (hs : Inv s) (h : step s a = some t) : Inv t := by
  cases step_cases h with
  | use hi => exact hs.use hi
  | @want i hi =>
      have hown := hs.phase i
      rw [hi] at hown
      exact hs.want (Nat.le_refl _) (.inl hown.1) hown.2 (by simp [hi])
  | @wantAfter i g hi =>
      have hown := hs.phase i
      rw [hi] at hown
      exact hs.want hown.1 (.inr hown.2.1) hown.2.2 (by simp [hi])
  | acquire hi hfree => exact hs.acquire hi hfree
  | renewed hi hne => exact hs.renewed hi hne
  | attempt hi heq => exact hs.attempt hi heq
  | mint hi => exact hs.mint hi
  | install hi => exact hs.install hi
  | reuse hi => exact hs.reuse hi
  | stop => exact hs.stop _

end Steps

/-! ## Runs -/

/-- The invariant holds along every run. -/
theorem run_inv {s t : State ι} {as : List (Action ι)} (hs : Inv s)
    (h : renewals.exec s as = some t) : Inv t :=
  renewals.exec_invariant Inv (fun hi ht => step_inv hi ht) hs h

/-- A party that is dropped replaces nothing. -/
theorem State.stop_version (s : State ι) (i : ι) : (s.stop i).version = s.version := by
  unfold State.stop
  dsimp only
  split <;> rfl

/-- Versions only grow. -/
theorem step_version_le {s t : State ι} {a : Action ι} (h : step s a = some t) :
    s.version ≤ t.version := by
  cases step_cases h with
  | install hi => exact Nat.le_succ _
  | stop => exact Nat.le_of_eq (s.stop_version _).symm
  | _ => exact Nat.le_refl _

/-- Versions only grow. -/
theorem run_version_le {s t : State ι} {as : List (Action ι)} (h : renewals.exec s as = some t) :
    s.version ≤ t.version :=
  renewals.exec_invariant (fun r => s.version ≤ r.version)
    (fun hle ht => Nat.le_trans hle (step_version_le ht)) (Nat.le_refl _) h

section Results

variable {s : State ι}

/-- No version is replaced twice. -/
theorem Inv.replaced_le (hs : Inv s) (g : Nat) : replacements s.log g ≤ 1 := by
  rw [hs.replaced]
  split
  · exact Nat.le_refl _
  · exact Nat.zero_le _

/-- A version is made anew once, unless what was made has been lost. -/
theorem Inv.mints_le (hs : Inv s) (g : Nat) : mints s.log g ≤ 1 + losses s.log g := by
  by_cases hg : ∃ i, s.phase i = .minted g
  · obtain ⟨i, hi⟩ := hg
    rw [hs.atHand i g hi]
    omega
  · have hsettled := hs.settled g (fun i hi => hg ⟨i, hi⟩)
    have hle := hs.replaced_le g
    omega

/-- After a renewal the version is a newer one. -/
theorem Inv.renewed_lt (hs : Inv s) {i : ι} {g : Nat} (hi : s.phase i = .renewed g) :
    g < s.version := by
  have hown := hs.phase i
  rw [hi] at hown
  exact hown.1

/-- The versions that a party uses are in order. -/
theorem Inv.uses_ok (hs : Inv s) (i : ι) : UsesOk (uses s.log i) := (hs.phase i).ended.1

/-- No party attempts more than once. -/
theorem Inv.attempts_le (hs : Inv s) (i : ι) : attempts s.log i ≤ 1 := (hs.phase i).ended.2

end Results

end Renewal
