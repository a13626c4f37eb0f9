import ProtonDrive.Lib.Renewal
import ProtonDrive.Sdk.Error

/-!
# The session of a public link

The anonymous session of a link has no refresh token: when it has expired, the handshake is run
again, and the live session is replaced. Everyone who reads through the link shares it: the `get`
and `post_query` of a `RevisionTransport`, which send a request once more when the session has
expired, and `refresh_session`, which replaces the session right away. Any of them may be dropped
wherever it waits.

The live session is a shared thing that is renewed, and its generation is the version.

* `step_refines` — the calls are users of such a thing.
* `renewedOnce` — no session is replaced twice, and what else holds in every run.
-/

namespace ProtonDrive.LinkSession

structure LiveSession (H : Type) where
  http : H
  generation : Nat
  deriving DecidableEq, Repr

/-- `get` and `post_query` do the same with the session; the request is not looked into. -/
inductive Kind where
  | get
  | postQuery
  | refreshSession
  deriving DecidableEq, Repr

/-- Where a call is. From `locked` to `authenticating` it holds the `renewing` lock. -/
inductive Phase (H T : Type) where
  | idle
  /-- Waits for the response to a request through this session. -/
  | sent (http : H) (generation : Nat)
  /-- `renew` waits for the lock. -/
  | renewing (seen : Nat)
  | locked (seen : Nat)
  | authenticating (seen : Nat)
  /-- `renew` has returned `Ok`. -/
  | renewed (seen : Nat)
  | resent (http : H)
  | done (response : Except ProtonError T)
  /-- `refresh_session` has returned. -/
  | refreshed (result : Except ProtonError Unit)
  | dropped

structure State (ι H T : Type) where
  live : LiveSession H
  /-- The `renewing` lock is held. -/
  renewing : Bool
  calls : ι → Phase H T
  /-- Newest first; the versions are the generations of the session. -/
  log : List (Renewal.Event ι)

inductive Action (ι H T : Type) where
  | begin (i : ι)
  | answer (i : ι) (response : Except ProtonError T)
  | lock (i : ι)
  | check (i : ι)
  /-- What `Credentials::auth` returns. -/
  | handshake (i : ι) (auth : Except ProtonError H)
  | resume (i : ι)
  | drop (i : ι)

def isSessionExpired : ProtonError → Bool
  | .api e => e.httpStatus == 401
  | _ => false

variable {ι H T : Type} [DecidableEq ι]

def State.enter (s : State ι H T) (i : ι) (p : Phase H T) : State ι H T :=
  { s with calls := Function.update s.calls i p }

def State.note (s : State ι H T) (e : Renewal.Event ι) : State ι H T := { s with log := e :: s.log }

def State.release (s : State ι H T) : State ι H T := { s with renewing := false }

/-- What a call of this kind returns if `renew` has failed. -/
def failed (kind : Kind) (e : ProtonError) : Phase H T :=
  match kind with
  | .get => .done (.error e)
  | .postQuery => .done (.error e)
  | .refreshSession => .refreshed (.error e)

/-- A dropped call lets go of the lock. -/
def State.drop (s : State ι H T) (i : ι) : State ι H T :=
  match s.calls i with
  | .locked _ => (s.enter i .dropped).release
  | .authenticating _ => (s.enter i .dropped).release
  | _ => s.enter i .dropped

/-- A step of a call; `kind i` is what call `i` does. -/
def step (kind : ι → Kind) (s : State ι H T) : Action ι H T → Option (State ι H T)
  | .begin i =>
      match s.calls i with
      | .idle =>
          match kind i with
          | .refreshSession => some (s.enter i (.renewing s.live.generation))
          | .get =>
              some ((s.enter i (.sent s.live.http s.live.generation)).note
                (.used i s.live.generation))
          | .postQuery =>
              some ((s.enter i (.sent s.live.http s.live.generation)).note
                (.used i s.live.generation))
      | _ => none
  | .answer i response =>
      match s.calls i with
      | .sent _ generation =>
          match response with
          | .ok t => some (s.enter i (.done (.ok t)))
          | .error e =>
              if isSessionExpired e then some (s.enter i (.renewing generation))
              else some (s.enter i (.done (.error e)))
      | .resent _ => some (s.enter i (.done response))
      | _ => none
  | .lock i =>
      match s.calls i with
      | .renewing seen =>
          if s.renewing then none else some { s.enter i (.locked seen) with renewing := true }
      | _ => none
  | .check i =>
      match s.calls i with
      | .locked seen =>
          -- Someone else re-authenticated while the call waited.
          if s.live.generation ≠ seen then some (s.enter i (.renewed seen)).release
          else some ((s.enter i (.authenticating seen)).note (.attempted i seen))
      | _ => none
  | .handshake i auth =>
      match s.calls i with
      | .authenticating seen =>
          match auth with
          | .error e => some (s.enter i (failed (kind i) e)).release
          | .ok http =>
              -- There is no await between the handshake and the swap.
              let s := ((s.enter i (.renewed seen)).note (.minted i seen)).note (.replaced i seen)
              some { s with live := ⟨http, s.live.generation + 1⟩, renewing := false }
      | _ => none
  | .resume i =>
      match s.calls i with
      | .renewed _ =>
          match kind i with
          | .refreshSession => some (s.enter i (.refreshed (.ok ())))
          | .get => some ((s.enter i (.resent s.live.http)).note (.used i s.live.generation))
          | .postQuery => some ((s.enter i (.resent s.live.http)).note (.used i s.live.generation))
      | _ => none
  | .drop i =>
      match s.calls i with
      | .done _ => none
      | .refreshed _ => none
      | .dropped => none
      | _ => some (s.drop i)

def calls (kind : ι → Kind) : Machine (State ι H T) (Action ι H T) := ⟨step kind⟩

/-- `PublicLinkSession::open`: the first handshake has been made, and no call has begun. -/
def start (http : H) : State ι H T where
  live := ⟨http, 0⟩
  renewing := false
  calls := fun _ => .idle
  log := []

/-- A call, as a user of the session. -/
def Phase.user : Phase H T → Renewal.Phase
  | .idle => .idle
  | .sent _ generation => .used generation
  | .renewing seen => .waiting seen
  | .locked seen => .holding seen
  | .authenticating seen => .minting seen
  | .renewed seen => .renewed seen
  | .resent _ => .ended
  | .done _ => .ended
  | .refreshed _ => .ended
  | .dropped => .ended

def State.renewal (s : State ι H T) : Renewal.State ι where
  version := s.live.generation
  locked := s.renewing
  phase := fun i => (s.calls i).user
  log := s.log

/-! ## What a step does -/

section Cases

variable {kind : ι → Kind} {s t : State ι H T}

/-- `step`, one constructor for each thing that can happen. -/
inductive Step (kind : ι → Kind) (s : State ι H T) : Action ι H T → State ι H T → Prop where
  | refresh {i} (hi : s.calls i = .idle) (hkind : kind i = .refreshSession) :
      Step kind s (.begin i) (s.enter i (.renewing s.live.generation))
  | send {i} (hi : s.calls i = .idle) (hkind : kind i ≠ .refreshSession) :
      Step kind s (.begin i)
        ((s.enter i (.sent s.live.http s.live.generation)).note (.used i s.live.generation))
  | answer {i p response} (hi : s.calls i = p) (hp : p.user.holds = false) :
      Step kind s (.answer i response) (s.enter i (.done response))
  | expire {i http g e} (hi : s.calls i = .sent http g) (he : isSessionExpired e = true) :
      Step kind s (.answer i (.error e)) (s.enter i (.renewing g))
  | lock {i g} (hi : s.calls i = .renewing g) (hfree : s.renewing = false) :
      Step kind s (.lock i) { s.enter i (.locked g) with renewing := true }
  | renewed {i g} (hi : s.calls i = .locked g) (hne : s.live.generation ≠ g) :
      Step kind s (.check i) (s.enter i (.renewed g)).release
  | attempt {i g} (hi : s.calls i = .locked g) (heq : s.live.generation = g) :
      Step kind s (.check i) ((s.enter i (.authenticating g)).note (.attempted i g))
  | handshake {i g http} (hi : s.calls i = .authenticating g) :
      Step kind s (.handshake i (.ok http))
        { ((s.enter i (.renewed g)).note (.minted i g)).note (.replaced i g) with
          live := ⟨http, s.live.generation + 1⟩
          renewing := false }
  | handshakeFails {i g e} (hi : s.calls i = .authenticating g) :
      Step kind s (.handshake i (.error e)) (s.enter i (failed (kind i) e)).release
  | refreshed {i g} (hi : s.calls i = .renewed g) (hkind : kind i = .refreshSession) :
      Step kind s (.resume i) (s.enter i (.refreshed (.ok ())))
  | resend {i g} (hi : s.calls i = .renewed g) (hkind : kind i ≠ .refreshSession) :
      Step kind s (.resume i)
        ((s.enter i (.resent s.live.http)).note (.used i s.live.generation))
  | drop {i} : Step kind s (.drop i) (s.drop i)

theorem step_cases {a : Action ι H T} (h : step kind s a = some t) : Step kind s a t := by
  cases a with
  | begin i =>
      simp only [step] at h
      split at h
      · next hi =>
        -- A call that has to refresh first is one of a kind of its own.
        split at h
        · next hkind => cases h; exact .refresh hi hkind
        · next hkind => cases h; exact .send hi (by simp [hkind])
        · next hkind => cases h; exact .send hi (by simp [hkind])
      · cases h
  | answer i response =>
      simp only [step] at h
      split at h
      · next hi =>
        split at h
        · cases h; exact .answer hi rfl
        · -- An expired session is renewed once only.
          split at h
          · next he => cases h; exact .expire hi he
          · cases h; exact .answer hi rfl
      · next hi => cases h; exact .answer hi rfl
      · cases h
  | lock i =>
      simp only [step] at h
      split at h
      · next hi =>
        split at h
        · cases h
        · next hfree => cases h; exact .lock hi (Bool.eq_false_iff.mpr hfree)
      · cases h
  | check i =>
      simp only [step] at h
      split at h
      · next hi =>
        split at h
        · next hne => cases h; exact .renewed hi hne
        · next heq => cases h; exact .attempt hi (not_not.mp heq)
      · cases h
  | handshake i auth =>
      simp only [step] at h
      split at h
      · next hi =>
        split at h
        · cases h; exact .handshakeFails hi
        · cases h; exact .handshake hi
      · cases h
  | resume i =>
      simp only [step] at h
      split at h
      · next hi =>
        split at h
        · next hkind => cases h; exact .refreshed hi hkind
        · next hkind => cases h; exact .resend hi (by simp [hkind])
        · next hkind => cases h; exact .resend hi (by simp [hkind])
      · cases h
  | drop i =>
      simp only [step] at h
      split at h <;> cases h
      exact .drop

end Cases

/-! ## The session is renewed -/

section Refinement

variable {kind : ι → Kind} {s t : State ι H T} {i : ι}

@[simp] theorem renewal_enter (i : ι) (p : Phase H T) :
    (s.enter i p).renewal = s.renewal.enter i p.user := by
  have hphase : (fun j => (Function.update s.calls i p j).user) =
      Function.update (fun j => (s.calls j).user) i p.user := Function.comp_update Phase.user _ _ _
  simp only [State.enter, State.renewal, Renewal.State.enter, hphase]

omit [DecidableEq ι] in
@[simp] theorem renewal_note (e : Renewal.Event ι) : (s.note e).renewal = s.renewal.note e := rfl

omit [DecidableEq ι] in
@[simp] theorem renewal_release : s.release.renewal = s.renewal.release := rfl

omit [DecidableEq ι] in
theorem renewal_phase {p : Phase H T} (hi : s.calls i = p) : s.renewal.phase i = p.user :=
  congrArg Phase.user hi

theorem failed_user (kind : Kind) (e : ProtonError) :
    (failed kind e : Phase H T).user = .ended := by
  cases kind <;> rfl

/-- A call that ends without the lock. -/
theorem stops {p : Phase H T} (hi : s.calls i = p) (hp : p.user.holds = false) (q : Phase H T)
    (hq : q.user = .ended) :
    ∃ bs, Renewal.renewals.exec s.renewal bs = some (s.enter i q).renewal := by
  rw [renewal_enter, hq]
  apply Renewal.exec_stop_free
  rwa [renewal_phase hi]

theorem stops_holding {seen : Nat}
    (hi : s.calls i = .locked seen ∨ s.calls i = .authenticating seen) (q : Phase H T)
    (hq : q.user = .ended) :
    ∃ bs, Renewal.renewals.exec s.renewal bs = some (s.enter i q).release.renewal := by
  rw [renewal_release, renewal_enter, hq]
  exact Renewal.exec_stop_holding (hi.imp renewal_phase renewal_phase)

theorem drop_refines : ∃ bs, Renewal.renewals.exec s.renewal bs = some (s.drop i).renewal := by
  unfold State.drop
  cases hi : s.calls i with
  | locked seen => exact stops_holding (.inl hi) _ rfl
  | authenticating seen => exact stops_holding (.inr hi) _ rfl
  | _ => exact stops hi rfl _ rfl

/-- **The calls of a session are users of something that is renewed.** -/
theorem step_refines {a : Action ι H T} (h : step kind s a = some t) :
    ∃ bs, Renewal.renewals.exec s.renewal bs = some t.renewal := by
  cases step_cases h with
  | refresh hi _ =>
      rw [renewal_enter]
      exact (Renewal.Step.want (renewal_phase hi)).exec
  | send hi _ =>
      rw [renewal_note, renewal_enter]
      exact (Renewal.Step.use (renewal_phase hi)).exec
  | answer hi hp => exact stops hi hp _ rfl
  | expire hi _ =>
      rw [renewal_enter]
      exact (Renewal.Step.wantAfter (renewal_phase hi)).exec
  | @lock i g hi hfree =>
      show ∃ bs, Renewal.renewals.exec s.renewal bs =
        some { (s.enter i (.locked g)).renewal with locked := true }
      rw [renewal_enter]
      exact (Renewal.Step.acquire (renewal_phase hi) hfree).exec
  | renewed hi hne =>
      rw [renewal_release, renewal_enter]
      exact (Renewal.Step.renewed (renewal_phase hi) hne).exec
  | attempt hi heq =>
      rw [renewal_note, renewal_enter]
      exact (Renewal.Step.attempt (renewal_phase hi) heq).exec
  | @handshake i g http hi =>
      -- the handshake, and the swap right after it
      show ∃ bs, Renewal.renewals.exec s.renewal bs =
        some { (((s.enter i (.renewed g)).note (.minted i g)).note (.replaced i g)).renewal with
          version := s.renewal.version + 1
          locked := false }
      rw [renewal_note, renewal_note, renewal_enter]
      exact Renewal.exec_mint_install (renewal_phase hi)
  | handshakeFails hi => exact stops_holding (.inr hi) _ (failed_user _ _)
  | refreshed hi _ => exact stops hi rfl _ rfl
  | resend hi _ =>
      rw [renewal_note, renewal_enter]
      exact (Renewal.Step.reuse (renewal_phase hi)).exec
  | drop => exact drop_refines

/-- No call is dropped between a handshake and the swap. -/
theorem step_losses {a : Action ι H T} (hstep : step kind s a = some t) (g : Nat) :
    Renewal.losses t.log g = Renewal.losses s.log g := by
  cases step_cases hstep with
  | drop =>
      unfold State.drop
      split <;> rfl
  | _ => rfl

/-- A handshake that fails ends its call, and the live session stays. -/
theorem handshake_fails {e : ProtonError} (hstep : step kind s (.handshake i (.error e)) = some t) :
    t.calls i = failed (kind i) e ∧ t.live = s.live := by
  cases step_cases hstep with
  | handshakeFails hi => exact ⟨Function.update_self _ _ _, rfl⟩

end Refinement

/-! ## Runs -/

section Runs

variable {kind : ι → Kind}

omit [DecidableEq ι] in
theorem start_renewal (http : H) : (start http : State ι H T).renewal = Renewal.start := rfl

theorem run_inv {http : H} {as : List (Action ι H T)} {s : State ι H T}
    (h : (calls kind).exec (start http) as = some s) : Renewal.Inv s.renewal := by
  obtain ⟨bs, hbs⟩ := Machine.exec_refines (N := Renewal.renewals) _ State.renewal
    (fun hstep => step_refines hstep) h
  rw [start_renewal] at hbs
  exact Renewal.run_inv Renewal.inv_start hbs

theorem run_losses {http : H} {as : List (Action ι H T)} {s : State ι H T}
    (h : (calls kind).exec (start http) as = some s) (g : Nat) : Renewal.losses s.log g = 0 :=
  Machine.exec_invariant _ (fun s => Renewal.losses s.log g = 0)
    (fun hs hstep => (step_losses hstep g).trans hs) rfl h

/-- What a run from the first session has come to. -/
structure RenewedOnce (kind : ι → Kind) (s : State ι H T) : Prop where
  replaced_once : ∀ g, Renewal.replacements s.log g ≤ 1
  /-- A session is the occasion of at most one successful handshake. -/
  handshake_once : ∀ g, Renewal.mints s.log g ≤ 1
  /-- `renew` has returned `Ok` only if the live session is newer. -/
  renewed_lt : ∀ i seen, s.calls i = .renewed seen → seen < s.live.generation
  generation_le : ∀ bs t, (calls kind).exec s bs = some t → s.live.generation ≤ t.live.generation
  /-- At most two sends, and the second one through a newer session. -/
  sends : ∀ i, Renewal.UsesOk (Renewal.uses s.log i)
  failed_keeps : ∀ i e t, step kind s (.handshake i (.error e)) = some t →
    t.calls i = failed (kind i) e ∧ t.live = s.live

/-- **No session is replaced twice**, whatever the calls do, and in whatever order. -/
theorem renewedOnce (kind : ι → Kind) (http : H) (as : List (Action ι H T)) (s : State ι H T)
    (h : (calls kind).exec (start http) as = some s) : RenewedOnce kind s := by
  have hinv := run_inv h
  constructor
  case replaced_once => exact hinv.replaced_le
  -- No handshake is lost, so each version has one.
  case handshake_once =>
    intro g
    have hle := hinv.mints_le g
    have hlost : Renewal.losses s.renewal.log g = 0 := run_losses h g
    rw [hlost] at hle
    exact hle
  case renewed_lt =>
    intro i seen hi
    exact hinv.renewed_lt (renewal_phase hi)
  -- The generation is the version of the renewal, which only grows.
  case generation_le =>
    intro bs t ht
    obtain ⟨cs, hcs⟩ := Machine.exec_refines (N := Renewal.renewals) _ State.renewal
      (fun hstep => step_refines hstep) ht
    exact Renewal.run_version_le hcs
  case sends => exact hinv.uses_ok
  case failed_keeps => exact fun i e t hstep => handshake_fails hstep

end Runs

/-! ## A burst of expired requests -/

def expired : ProtonError := .api ⟨.unauthorized, 401, "Invalid access token", none⟩

def burstKind (i : Nat) : Kind :=
  if i = 0 then .get else if i = 1 then .postQuery else .refreshSession

/-- Two requests find the session expired, and a third call renews it at the same time. That one is
dropped in its handshake, the next handshake fails, and only the one after it brings a session. -/
def burst : List (Action Nat String Nat) :=
  [.begin 0, .begin 1, .begin 2, .answer 0 (.error expired), .lock 2, .check 2, .drop 2,
    .answer 1 (.error expired), .lock 0, .check 0, .handshake 0 (.error expired), .lock 1, .check 1,
    .handshake 1 (.ok "second"), .resume 1, .answer 1 (.ok 7)]

theorem renewedOnce_burst :
    ∃ s, (calls burstKind).exec (start "first") burst = some s ∧ RenewedOnce burstKind s :=
  ⟨_, rfl, renewedOnce burstKind "first" burst _ rfl⟩

end ProtonDrive.LinkSession
