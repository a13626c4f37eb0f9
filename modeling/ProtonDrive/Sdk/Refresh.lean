import Mathlib.Data.Fintype.Basic
import ProtonDrive.Lib.Machine
import ProtonDrive.Sdk.Http

/-!
# Token refresh — one rotation per rejected token

Any number of requests share one token pair. A request that is answered 401 spawns a refresh task
and waits for it; the task takes the refresh lock, looks whether the rejected token is still the
stored one, and if so trades the stored refresh token for a new pair, stores it and runs the
callback. A request may be cancelled at any await, which leaves its task alone.

Everything that can be observed is in one log, newest entry first: refresh requests on the wire,
rotations, callbacks. What the store must hold is a function of that log (`storedAfter`).

* `WellFormed` — every entry of a log agrees with the pair that was stored when it was written.
* `rotation_lossless` — the whole contract, over every run.
-/

namespace ProtonDrive.Refresh

structure Tokens (τ : Type) where
  accessToken : τ
  refreshToken : τ
  deriving DecidableEq, Repr

/-- What the refresh path does that others can see. -/
inductive Event (τ : Type) where
  /-- A refresh request with this refresh token went out. -/
  | sent (refreshToken : τ)
  /-- A refresh of `rejected`, paid with `spent`, brought `pair`, and `pair` was stored. -/
  | rotated (rejected spent : τ) (pair : Tokens τ)
  /-- The callback ran with `pair`. -/
  | notified (pair : Tokens τ)
  deriving DecidableEq

/-- A request: `send_with_token` with the token it read, waiting for its refresh task, and
`send_with_token` with the token it got. -/
inductive Request (τ T : Type) where
  | idle
  | sending (token : τ) (attempt : Nat)
  | waiting (rejected : τ)
  | resending (rejected token : τ) (attempt : Nat)
  | returned (r : Except ProtonError T)
  | cancelled

/-- A request's refresh task, `refresh_access_token_now`. From `locked` to `notifying` it holds the
refresh lock. -/
inductive Task (τ : Type) where
  | notSpawned
  | queued (rejected : τ)
  | locked (rejected : τ)
  | requesting (rejected refreshToken : τ) (attempt : Nat)
  | notifying (pair : Tokens τ)
  | finished (r : Except ProtonError τ)

def Task.holdsLock {τ : Type} : Task τ → Bool
  | .locked _ | .requesting _ _ _ | .notifying _ => true
  | .notSpawned | .queued _ | .finished _ => false

/-- What does not change: the retry policy, whether a callback is registered, and for each request
whether it may be replayed and whether its client refreshes at all. -/
structure Config (ι : Type) where
  policy : RetryPolicy
  onTokensRefreshed : Bool
  replay : ι → Replay
  refreshTokens : ι → Bool

structure State (ι τ T : Type) where
  tokens : Tokens τ
  lock : Option ι
  request : ι → Request τ T
  task : ι → Task τ
  log : List (Event τ)
  /-- The bearer tokens each request put on the wire, oldest first. -/
  bearer : ι → List τ

inductive Action (ι τ T : Type) where
  /-- Read the stored access token and send. -/
  | start (i : ι)
  /-- The attempt on the wire ends. -/
  | answer (i : ι) (a : Attempt T)
  | acquire (i : ι)
  /-- Compare the stored token with the rejected one, under the lock. -/
  | reread (i : ι)
  /-- The refresh attempt on the wire ends. -/
  | refreshed (i : ι) (a : Attempt (Tokens τ))
  | notify (i : ι)
  /-- The request gets its task's result. -/
  | resume (i : ι)
  | cancel (i : ι)

section Runs

variable {ι τ T : Type} [DecidableEq ι] [DecidableEq τ]

/-! ## The steps -/

def State.setRequest (s : State ι τ T) (i : ι) (r : Request τ T) : State ι τ T :=
  { s with request := Function.update s.request i r }

def State.setTask (s : State ι τ T) (i : ι) (t : Task τ) : State ι τ T :=
  { s with task := Function.update s.task i t }

/-- Put request `i` on the wire with `token`. -/
def State.send (s : State ι τ T) (i : ι) (token : τ) (r : Request τ T) : State ι τ T :=
  { s with
    request := Function.update s.request i r
    bearer := Function.update s.bearer i (s.bearer i ++ [token]) }

/-- Put the refresh request of task `i` on the wire. -/
def State.sendRefresh (s : State ι τ T) (i : ι) (rejected refreshToken : τ) (attempt : Nat) :
    State ι τ T :=
  { s with
    task := Function.update s.task i (.requesting rejected refreshToken attempt)
    log := .sent refreshToken :: s.log }

/-- Task `i` ends, and lets go of the lock. -/
def State.release (s : State ι τ T) (i : ι) (r : Except ProtonError τ) : State ι τ T :=
  { s with task := Function.update s.task i (.finished r), lock := none }

/-- Store the pair a refresh brought. -/
def State.rotate (s : State ι τ T) (i : ι) (rejected spent : τ) (pair : Tokens τ) : State ι τ T :=
  { s with
    tokens := pair
    task := Function.update s.task i (.notifying pair)
    log := .rotated rejected spent pair :: s.log }

/-- Run the callback if there is one, and end the task. -/
def State.runCallback (cfg : Config ι) (s : State ι τ T) (i : ι) (pair : Tokens τ) :
    State ι τ T :=
  { s.release i (.ok pair.accessToken) with
    log := if cfg.onTokensRefreshed then .notified pair :: s.log else s.log }

/-- The first send of request `i` brought a response: a 401 hands over to a refresh task, unless
the account is gone or the client does not refresh. -/
def State.firstResponse (cfg : Config ι) (s : State ι τ T) (i : ι) (token : τ) (r : Buffered T) :
    State ι τ T :=
  if r.status = 401 ∧ cfg.refreshTokens i then
    if accountGone r then s.setRequest i (.returned (.error (apiError r)))
    else (s.setRequest i (.waiting token)).setTask i (.queued token)
  else s.setRequest i (.returned (parseBuffered r))

/-- What the refresh request brought, once it is not sent again. -/
def refreshOutcome (a : Attempt (Tokens τ)) : Except ProtonError (Tokens τ) :=
  a.result.bind parseBuffered

def step (cfg : Config ι) (s : State ι τ T) : Action ι τ T → Option (State ι τ T)
  | .start i =>
      match s.request i with
      | .idle => some (s.send i s.tokens.accessToken (.sending s.tokens.accessToken 0))
      | _ => none
  | .answer i a =>
      match s.request i with
      | .sending token n =>
          if a.worthRetrying (cfg.replay i) ∧ n < cfg.policy.maxRetries then
            some (s.send i token (.sending token (n + 1)))
          else
            match a.result with
            | .ok r => some (s.firstResponse cfg i token r)
            | .error e => some (s.setRequest i (.returned (.error e)))
      | .resending rejected token n =>
          if a.worthRetrying (cfg.replay i) ∧ n < cfg.policy.maxRetries then
            some (s.send i token (.resending rejected token (n + 1)))
          else some (s.setRequest i (.returned (a.result.bind parseBuffered)))
      | _ => none
  | .acquire i =>
      match s.task i, s.lock with
      | .queued rejected, none => some { s.setTask i (.locked rejected) with lock := some i }
      | _, _ => none
  | .reread i =>
      match s.task i with
      | .locked rejected =>
          if s.tokens.accessToken ≠ rejected then some (s.release i (.ok s.tokens.accessToken))
          else some (s.sendRefresh i rejected s.tokens.refreshToken 0)
      | _ => none
  | .refreshed i a =>
      match s.task i with
      | .requesting rejected refreshToken n =>
          if a.failedToConnect ∧ n < cfg.policy.maxRetries then
            some (s.sendRefresh i rejected refreshToken (n + 1))
          else
            match refreshOutcome a with
            | .ok pair => some (s.rotate i rejected refreshToken pair)
            | .error e => some (s.release i (.error e))
      | _ => none
  | .notify i =>
      match s.task i with
      | .notifying pair => some (s.runCallback cfg i pair)
      | _ => none
  | .resume i =>
      match s.request i, s.task i with
      | .waiting rejected, .finished (.ok token) =>
          some (s.send i token (.resending rejected token 0))
      | .waiting _, .finished (.error e) => some (s.setRequest i (.returned (.error e)))
      | _, _ => none
  | .cancel i =>
      match s.request i with
      | .sending _ _ | .waiting _ | .resending _ _ _ => some (s.setRequest i .cancelled)
      | _ => none

/-- The requests of one session, as a machine. -/
def requests (cfg : Config ι) : Machine (State ι τ T) (Action ι τ T) := ⟨step cfg⟩

/-- A session with its first pair, and nothing sent. -/
def start (initial : Tokens τ) : State ι τ T :=
  ⟨initial, none, fun _ => .idle, fun _ => .notSpawned, [], fun _ => []⟩

/-! ## What the log says -/

/-- The pairs received, newest first. -/
def rotations : List (Event τ) → List (Tokens τ)
  | [] => []
  | .rotated _ _ pair :: log => pair :: rotations log
  | .sent _ :: log | .notified _ :: log => rotations log

/-- The pairs the callback was given, newest first. -/
def notifications : List (Event τ) → List (Tokens τ)
  | [] => []
  | .notified pair :: log => pair :: notifications log
  | .sent _ :: log | .rotated _ _ _ :: log => notifications log

/-- The access tokens that were traded for a new pair, newest first. -/
def tradedTokens : List (Event τ) → List τ
  | [] => []
  | .rotated rejected _ _ :: log => rejected :: tradedTokens log
  | .sent _ :: log | .notified _ :: log => tradedTokens log

/-- Every pair the session has had, newest first. -/
def issued (initial : Tokens τ) (log : List (Event τ)) : List (Tokens τ) :=
  rotations log ++ [initial]

/-- The pair of the latest refresh response, or the initial one. -/
def storedAfter (initial : Tokens τ) (log : List (Event τ)) : Tokens τ :=
  (rotations log).head?.getD initial

/-- Every entry agrees with the pair stored when it was written: a refresh request carries its
refresh token, and a rotation trades its two tokens. -/
def WellFormed (initial : Tokens τ) : List (Event τ) → Prop
  | [] => True
  | .sent r :: log => r = (storedAfter initial log).refreshToken ∧ WellFormed initial log
  | .rotated rejected spent _ :: log =>
      (storedAfter initial log = ⟨rejected, spent⟩) ∧ WellFormed initial log
  | .notified _ :: log => WellFormed initial log

/-- The server does not issue an access token twice. -/
def FreshAccess (initial : Tokens τ) (s : State ι τ T) : Action ι τ T → Prop
  | .refreshed _ a => ∀ pair, refreshOutcome a = .ok pair →
      pair.accessToken ∉ (issued initial s.log).map Tokens.accessToken
  | _ => True

instance (initial : Tokens τ) (s : State ι τ T) :
    (a : Action ι τ T) → Decidable (FreshAccess initial s a)
  | .refreshed _ a =>
      match h : refreshOutcome a with
      | .ok pair =>
          decidable_of_iff (pair.accessToken ∉ (issued initial s.log).map Tokens.accessToken)
            ⟨fun hnew _ hpair => Except.ok.inj (h.symm.trans hpair) ▸ hnew, fun hall => hall _ h⟩
      | .error _ => .isTrue fun _ hpair => nomatch h.symm.trans hpair
  | .start _ | .answer _ _ | .acquire _ | .reread _ | .notify _ | .resume _ | .cancel _ =>
      .isTrue trivial

/-- Refresh tokens are single-use: no two pairs share one. -/
def SingleUse (initial : Tokens τ) (log : List (Event τ)) : Prop :=
  ((issued initial log).map Tokens.refreshToken).Nodup

/-- Never sent, or sent with one token any number of times and then with another one. -/
def ResentOnce (bearer : List τ) : Prop :=
  bearer = [] ∨ ∃ first second n m,
    bearer = List.replicate n first ++ List.replicate m second ∧ (m = 0 ∨ first ≠ second)

/-! ## The contract -/

structure Lossless (cfg : Config ι) (initial : Tokens τ) (s : State ι τ T) : Prop where
  /-- No access token is traded twice. -/
  tradedOnce : (tradedTokens s.log).Nodup
  /-- The store holds the latest pair received. -/
  stored : s.tokens = storedAfter initial s.log
  /-- A refresh request carries the refresh token of the pair stored at that moment. -/
  carriesStored : ∀ {later earlier r}, s.log = later ++ .sent r :: earlier →
    r = (storedAfter initial earlier).refreshToken
  /-- A refresh token that bought a pair is only sent again if the server has handed it out again
  since. -/
  notSentAgain : ∀ {later between earlier rejected r pair},
    s.log = later ++ .sent r :: (between ++ .rotated rejected r pair :: earlier) →
      r ∈ (rotations between ++ [pair]).map Tokens.refreshToken
  /-- So a single-use refresh token is never sent again. -/
  neverSentAgain : SingleUse initial s.log → ∀ {later between earlier rejected r pair},
    s.log ≠ later ++ .sent r :: (between ++ .rotated rejected r pair :: earlier)
  /-- The callback has seen the rotations in their order, and lags by one at most. -/
  callbackOrder : cfg.onTokensRefreshed = true →
    notifications s.log <:+ rotations s.log ∧
      (rotations s.log).length ≤ (notifications s.log).length + 1
  /-- It has seen them all, once no task is about to run it. -/
  callbackAll : cfg.onTokensRefreshed = true → (∀ i, step cfg s (.notify i) = none) →
    notifications s.log = rotations s.log
  /-- A refresh that fails leaves the store alone. -/
  failedKeeps : ∀ {i a e t}, refreshOutcome a = .error e → step cfg s (.refreshed i a) = some t →
    t.tokens = s.tokens
  /-- A request changes its token at most once. -/
  resentOnce : ∀ i, ResentOnce (s.bearer i)

/-! ## Logs -/

omit [DecidableEq τ] in
/-- The stored pair is the one issued last. -/
theorem head_issued (initial : Tokens τ) (log : List (Event τ)) :
    ∃ older, issued initial log = storedAfter initial log :: older := by
  unfold issued storedAfter
  cases rotations log with
  | nil => exact ⟨[], rfl⟩
  | cons pair older => exact ⟨older ++ [initial], rfl⟩

omit [DecidableEq τ] in
/-- The traded tokens and the stored one are the tokens of the issued pairs. -/
theorem WellFormed.traded {initial : Tokens τ} {log : List (Event τ)} (h : WellFormed initial log) :
    (storedAfter initial log).accessToken :: tradedTokens log =
      (issued initial log).map Tokens.accessToken := by
  induction log with
  | nil => rfl
  | cons e log ih =>
      cases e with
      | sent r => exact ih h.2
      | notified pair => exact ih h
      | rotated rejected spent pair =>
          have hlog := ih h.2
          rw [h.1] at hlog
          show pair.accessToken :: rejected :: tradedTokens log = _
          rw [hlog]
          rfl

omit [DecidableEq τ] in
/-- The earlier part of a well-formed log is well formed. -/
theorem WellFormed.suffix {initial : Tokens τ} {later log : List (Event τ)}
    (h : WellFormed initial (later ++ log)) : WellFormed initial log := by
  induction later with
  | nil => exact h
  | cons e later ih =>
      cases e with
      | sent r => exact ih h.2
      | notified pair => exact ih h
      | rotated rejected spent pair => exact ih h.2

omit [DecidableEq τ] in
/-- The rotations of two logs. -/
theorem rotations_append (log log' : List (Event τ)) :
    rotations (log ++ log') = rotations log ++ rotations log' := by
  induction log with
  | nil => rfl
  | cons e log ih => cases e <;> simp [rotations, ih]

omit [DecidableEq τ] in
/-- After a rotation, the stored pair is its pair or a later one. -/
theorem storedAfter_mem (initial pair : Tokens τ) (rejected r : τ) (between earlier : List (Event τ)) :
    storedAfter initial (between ++ .rotated rejected r pair :: earlier) ∈
      rotations between ++ [pair] := by
  unfold storedAfter
  rw [rotations_append]
  show ((rotations between ++ pair :: rotations earlier).head?).getD initial ∈ _
  cases rotations between with
  | nil => simp
  | cons p ps => simp

/-! ## What a step does -/

/-- `step`, one constructor for each thing that can happen. -/
inductive Step (cfg : Config ι) (s : State ι τ T) : Action ι τ T → State ι τ T → Prop where
  | start {i} (hi : s.request i = .idle) :
      Step cfg s (.start i) (s.send i s.tokens.accessToken (.sending s.tokens.accessToken 0))
  | sendAgain {i a token n} (hi : s.request i = .sending token n) :
      Step cfg s (.answer i a) (s.send i token (.sending token (n + 1)))
  | response {i a token n r} (hi : s.request i = .sending token n) :
      Step cfg s (.answer i a) (s.firstResponse cfg i token r)
  | sendFailed {i a token n e} (hi : s.request i = .sending token n) :
      Step cfg s (.answer i a) (s.setRequest i (.returned (.error e)))
  | resendAgain {i a rejected token n} (hi : s.request i = .resending rejected token n) :
      Step cfg s (.answer i a) (s.send i token (.resending rejected token (n + 1)))
  | resendDone {i a rejected token n} (hi : s.request i = .resending rejected token n) (r) :
      Step cfg s (.answer i a) (s.setRequest i (.returned r))
  | acquire {i rejected} (hi : s.task i = .queued rejected) (hl : s.lock = none) :
      Step cfg s (.acquire i) { s.setTask i (.locked rejected) with lock := some i }
  | reuse {i rejected} (hi : s.task i = .locked rejected) (hne : s.tokens.accessToken ≠ rejected) :
      Step cfg s (.reread i) (s.release i (.ok s.tokens.accessToken))
  | sendRefresh {i} (hi : s.task i = .locked s.tokens.accessToken) :
      Step cfg s (.reread i) (s.sendRefresh i s.tokens.accessToken s.tokens.refreshToken 0)
  | refreshAgain {i a rejected r n} (hi : s.task i = .requesting rejected r n) :
      Step cfg s (.refreshed i a) (s.sendRefresh i rejected r (n + 1))
  | rotate {i a rejected r n pair} (hi : s.task i = .requesting rejected r n)
      (ha : refreshOutcome a = .ok pair) :
      Step cfg s (.refreshed i a) (s.rotate i rejected r pair)
  | refreshFailed {i a rejected r n e} (hi : s.task i = .requesting rejected r n)
      (ha : refreshOutcome a = .error e) :
      Step cfg s (.refreshed i a) (s.release i (.error e))
  | notify {i pair} (hi : s.task i = .notifying pair) :
      Step cfg s (.notify i) (s.runCallback cfg i pair)
  | resume {i rejected token} (hi : s.request i = .waiting rejected)
      (ht : s.task i = .finished (.ok token)) :
      Step cfg s (.resume i) (s.send i token (.resending rejected token 0))
  | resumeFailed {i rejected e} (hi : s.request i = .waiting rejected)
      (ht : s.task i = .finished (.error e)) :
      Step cfg s (.resume i) (s.setRequest i (.returned (.error e)))
  | cancel {i} (hi : s.request i ≠ .idle) :
      Step cfg s (.cancel i) (s.setRequest i .cancelled)

/-- Everything that a step can do, with its guards. -/
theorem step_cases {cfg : Config ι} {s t : State ι τ T} {a : Action ι τ T}
    (h : step cfg s a = some t) : Step cfg s a t := by
  cases a with
  | start i =>
      simp only [step] at h
      split at h <;> cases h
      exact .start ‹_›
  -- The answer decides between sending again, the response, and asking for a refresh.
  | answer i a =>
      simp only [step] at h
      split at h
      · split at h
        · cases h; exact .sendAgain ‹_›
        · split at h
          · cases h; exact .response ‹_›
          · cases h; exact .sendFailed ‹_›
      · split at h
        · cases h; exact .resendAgain ‹_›
        · cases h; exact .resendDone ‹_› _
      · cases h
  | acquire i =>
      simp only [step] at h
      split at h <;> cases h
      exact .acquire ‹_› ‹_›
  | reread i =>
      simp only [step] at h
      split at h
      · next hi =>
        -- The stored pair is another one by now, or still the one that was rejected.
        split at h
        · next hne => cases h; exact .reuse hi hne
        · next heq =>
          cases h
          rw [← not_ne_iff.mp heq] at hi ⊢
          exact .sendRefresh hi
      · cases h
  | refreshed i a =>
      simp only [step] at h
      -- The refresh goes again on a transient failure, and else rotates the pair or fails.
      split at h
      · split at h
        · cases h; exact .refreshAgain ‹_›
        · split at h
          · cases h; exact .rotate ‹_› ‹_›
          · cases h; exact .refreshFailed ‹_› ‹_›
      · cases h
  | notify i =>
      simp only [step] at h
      split at h <;> cases h
      exact .notify ‹_›
  | resume i =>
      simp only [step] at h
      split at h <;> cases h
      · exact .resume ‹_› ‹_›
      · exact .resumeFailed ‹_› ‹_›
  | cancel i =>
      simp only [step] at h
      split at h <;> cases h
      all_goals exact .cancel (by simp [*])

/-! ## The store and the lock -/

/-- What holds of the stored pair, the lock, the tasks and the log. -/
structure StoreInv (cfg : Config ι) (initial : Tokens τ) (s : State ι τ T) : Prop where
  stored : s.tokens = storedAfter initial s.log
  wellFormed : WellFormed initial s.log
  unique : ((issued initial s.log).map Tokens.accessToken).Nodup
  /-- The lock is held by the one task that is past it. -/
  lockHeld : ∀ i, (s.task i).holdsLock = true ↔ s.lock = some i
  /-- A refresh request on the wire was made from the stored pair. -/
  requesting : ∀ {i rejected r n}, s.task i = .requesting rejected r n → s.tokens = ⟨rejected, r⟩
  /-- While a task is about to run the callback, its pair is the one the callback has not seen. -/
  owing : cfg.onTokensRefreshed = true → ∀ {i pair}, s.task i = .notifying pair →
    rotations s.log = pair :: notifications s.log
  settled : cfg.onTokensRefreshed = true → (∀ i pair, s.task i ≠ .notifying pair) →
    rotations s.log = notifications s.log

omit [DecidableEq ι] [DecidableEq τ] in
/-- At first nothing was issued, and nobody holds the lock. -/
theorem storeInv_start (cfg : Config ι) (initial : Tokens τ) :
    StoreInv cfg initial (start initial : State ι τ T) := by
  constructor <;> simp [start, storedAfter, rotations, notifications, WellFormed, issued,
    Task.holdsLock]

omit [DecidableEq ι] [DecidableEq τ] in
/-- A step of a request that leaves the store, the lock, the tasks and the log alone. -/
theorem StoreInv.congr {cfg : Config ι} {initial : Tokens τ} {s t : State ι τ T}
    (hs : StoreInv cfg initial s) (htok : t.tokens = s.tokens) (hlock : t.lock = s.lock)
    (htask : t.task = s.task) (hlog : t.log = s.log) : StoreInv cfg initial t := by
  obtain ⟨h1, h2, h3, h4, h5, h6, h7⟩ := hs
  constructor <;> simp only [htok, hlock, htask, hlog] <;> assumption

omit [DecidableEq τ] in
/-- A task that queues changes nothing about the tokens. -/
theorem StoreInv.setTask_queued {cfg : Config ι} {initial : Tokens τ} {s : State ι τ T} {i : ι}
    {rejected : τ} (hs : StoreInv cfg initial s) (hi : s.task i = .notSpawned) :
    StoreInv cfg initial (s.setTask i (.queued rejected)) := by
  obtain ⟨h1, h2, h3, h4, h5, h6, h7⟩ := hs
  constructor <;> simp only [State.setTask, Function.update_apply] <;> grind [Task.holdsLock]

omit [DecidableEq τ] in
/-- A task that takes the free lock owes nothing yet. -/
theorem StoreInv.acquire {cfg : Config ι} {initial : Tokens τ} {s : State ι τ T} (i : ι)
    (rejected : τ) (hs : StoreInv cfg initial s) (hl : s.lock = none) :
    StoreInv cfg initial { s.setTask i (.locked rejected) with lock := some i } := by
  obtain ⟨h1, h2, h3, h4, h5, h6, h7⟩ := hs
  constructor <;> simp only [State.setTask, Function.update_apply] <;> grind [Task.holdsLock]

omit [DecidableEq τ] in
/-- Ending a task that has the lock and owes no callback. -/
theorem StoreInv.release {cfg : Config ι} {initial : Tokens τ} {s : State ι τ T} {i : ι}
    (hs : StoreInv cfg initial s) (hi : (s.task i).holdsLock = true)
    (howes : ∀ pair, s.task i ≠ .notifying pair) (r : Except ProtonError τ) :
    StoreInv cfg initial (s.release i r) := by
  obtain ⟨h1, h2, h3, h4, h5, h6, h7⟩ := hs
  constructor <;> simp only [State.release, Function.update_apply] <;> grind [Task.holdsLock]

omit [DecidableEq τ] in
/-- The holder of the lock sends the stored refresh token. -/
theorem StoreInv.sendRefresh {cfg : Config ι} {initial : Tokens τ} {s : State ι τ T} {i : ι}
    (hs : StoreInv cfg initial s) (hi : (s.task i).holdsLock = true)
    (howes : ∀ pair, s.task i ≠ .notifying pair) {rejected r : τ} (hr : s.tokens = ⟨rejected, r⟩)
    (n : Nat) : StoreInv cfg initial (s.sendRefresh i rejected r n) := by
  have hsent : WellFormed initial (.sent r :: s.log) :=
    ⟨by rw [← hs.stored, hr], hs.wellFormed⟩
  obtain ⟨h1, h2, h3, h4, h5, h6, h7⟩ := hs
  constructor <;> simp only [State.sendRefresh, Function.update_apply] <;>
    grind [Task.holdsLock, storedAfter, issued, rotations, notifications]

omit [DecidableEq τ] in
/-- Nobody else is past the lock, so the pair that is replaced is the one the request was made
from, and the callback has seen every earlier one. -/
theorem StoreInv.rotate {cfg : Config ι} {initial : Tokens τ} {s : State ι τ T} {i : ι}
    {rejected r : τ} {n : Nat} {pair : Tokens τ} (hs : StoreInv cfg initial s)
    (hi : s.task i = .requesting rejected r n)
    (hfresh : pair.accessToken ∉ (issued initial s.log).map Tokens.accessToken) :
    StoreInv cfg initial (s.rotate i rejected r pair) := by
  have hrotated : WellFormed initial (.rotated rejected r pair :: s.log) :=
    ⟨by rw [← hs.stored, hs.requesting hi], hs.wellFormed⟩
  -- The new access token is fresh, so the tokens stay distinct.
  have hunique : ((issued initial (.rotated rejected r pair :: s.log)).map
      Tokens.accessToken).Nodup := by
    show (pair.accessToken :: (issued initial s.log).map Tokens.accessToken).Nodup
    exact List.nodup_cons.mpr ⟨hfresh, hs.unique⟩
  -- The lock is held by this task, so that no other one is notifying.
  have hnobody : ∀ j p, s.task j ≠ .notifying p := by
    intro j p hj
    have hlocki : s.lock = some i := (hs.lockHeld i).mp (by rw [hi]; rfl)
    have hlockj : s.lock = some j := (hs.lockHeld j).mp (by rw [hj]; rfl)
    rw [hlocki] at hlockj
    cases hlockj
    rw [hi] at hj
    cases hj
  obtain ⟨h1, h2, h3, h4, h5, h6, h7⟩ := hs
  constructor <;> simp only [State.rotate, Function.update_apply] <;>
    grind [Task.holdsLock, storedAfter, rotations, notifications]

omit [DecidableEq τ] in
/-- The callback is told the pair that was stored. -/
theorem StoreInv.runCallback {cfg : Config ι} {initial : Tokens τ} {s : State ι τ T} {i : ι}
    {pair : Tokens τ} (hs : StoreInv cfg initial s) (hi : s.task i = .notifying pair) :
    StoreInv cfg initial (s.runCallback cfg i pair) := by
  obtain ⟨h1, h2, h3, h4, h5, h6, h7⟩ := hs
  by_cases hcb : cfg.onTokensRefreshed = true
  · constructor <;> simp only [State.runCallback, State.release, Function.update_apply, if_pos hcb] <;>
      grind [Task.holdsLock, storedAfter, issued, rotations, notifications, WellFormed]
  · constructor <;> simp only [State.runCallback, State.release, Function.update_apply, if_neg hcb] <;>
      grind [Task.holdsLock]

/-! ## The requests -/

/-- What task state a request that had `rejected` turned down may be waiting for. -/
def Task.Serves (rejected : τ) : Task τ → Prop
  | .notSpawned => False
  | .queued r | .locked r | .requesting r _ _ => r = rejected
  | .notifying pair => pair.accessToken ≠ rejected
  | .finished (.ok token) => token ≠ rejected
  | .finished (.error _) => True

/-- The tokens a request has sent, by where it stands. -/
def Request.Sent (bearer : List τ) : Request τ T → Prop
  | .idle => bearer = []
  | .sending token n => bearer = List.replicate (n + 1) token
  | .waiting rejected => ∃ n, bearer = List.replicate n rejected
  | .resending rejected token n => rejected ≠ token ∧
      ∃ m, bearer = List.replicate m rejected ++ List.replicate (n + 1) token
  | .returned _ | .cancelled => ResentOnce bearer

structure RequestInv (s : State ι τ T) : Prop where
  sent : ∀ i, (s.request i).Sent (s.bearer i)
  serves : ∀ {i rejected}, s.request i = .waiting rejected → (s.task i).Serves rejected
  unspawned : ∀ {i}, s.request i = .idle ∨ (∃ token n, s.request i = .sending token n) →
    s.task i = .notSpawned

omit [DecidableEq ι] [DecidableEq τ] in
/-- A request is sent at most twice, the second time with another token. -/
theorem Request.Sent.resentOnce {bearer : List τ} {r : Request τ T} (h : r.Sent bearer) :
    ResentOnce bearer := by
  cases r with
  | idle => exact .inl h
  | sending token n =>
      have hb : bearer = List.replicate (n + 1) token := h
      exact .inr ⟨token, token, n + 1, 0, by simpa using hb, .inl rfl⟩
  | waiting rejected =>
      obtain ⟨n, hn⟩ := h
      exact .inr ⟨rejected, rejected, n, 0, by simpa using hn, .inl rfl⟩
  | resending rejected token n =>
      obtain ⟨hne, m, hm⟩ := h
      exact .inr ⟨rejected, token, m, n + 1, hm, .inr hne⟩
  | returned _ => exact h
  | cancelled => exact h

omit [DecidableEq ι] [DecidableEq τ] in
/-- At first no request was sent. -/
theorem requestInv_start (initial : Tokens τ) : RequestInv (start initial : State ι τ T) := by
  constructor <;> simp [start, Request.Sent]

omit [DecidableEq τ] in
/-- A request that ends, one way or another. -/
theorem RequestInv.ends {s : State ι τ T} (hs : RequestInv s) (i : ι) {r : Request τ T}
    (hr : r = .cancelled ∨ ∃ res, r = .returned res) : RequestInv (s.setRequest i r) := by
  have honce : ResentOnce (s.bearer i) := (hs.sent i).resentOnce
  obtain ⟨h1, h2, h3⟩ := hs
  constructor <;> simp only [State.setRequest, Function.update_apply] <;> grind [Request.Sent]

omit [DecidableEq τ] in
/-- A step of a task, seen from the requests: nobody's task turns into one that serves him less. -/
theorem RequestInv.update_task {s t : State ι τ T} (hs : RequestInv s)
    (hreq : t.request = s.request) (hb : t.bearer = s.bearer) {i : ι} {new : Task τ}
    (htask : t.task = Function.update s.task i new) (hspawned : s.task i ≠ .notSpawned)
    (hserves : ∀ rejected, (s.task i).Serves rejected → new.Serves rejected) : RequestInv t := by
  constructor
  · intro j
    rw [hreq, hb]
    exact hs.sent j
  · -- The task may have moved on, but it still serves the requests that joined it.
    intro j rejected hj
    rw [hreq] at hj
    rw [htask]
    by_cases hji : j = i
    · subst hji
      rw [Function.update_self]
      exact hserves rejected (hs.serves hj)
    · rw [Function.update_of_ne hji]
      exact hs.serves hj
  · intro j hj
    rw [hreq] at hj
    have hji : j ≠ i := fun h => hspawned (h ▸ hs.unspawned hj)
    rw [htask, Function.update_of_ne hji]
    exact hs.unspawned hj

omit [DecidableEq τ] in
/-- One more send, in a phase that remembers it. -/
theorem RequestInv.send {s : State ι τ T} (hs : RequestInv s) {i : ι} {token : τ}
    {r : Request τ T} (hsent : r.Sent (s.bearer i ++ [token]))
    (hwaits : ∀ rejected, r ≠ .waiting rejected)
    (hspawn : (r = .idle ∨ ∃ token n, r = .sending token n) → s.task i = .notSpawned) :
    RequestInv (s.send i token r) := by
  obtain ⟨h1, h2, h3⟩ := hs
  constructor <;> simp only [State.send, Function.update_apply] <;> grind

omit [DecidableEq ι] [DecidableEq τ] in
/-- After a refresh the request is sent once more, with the new token. -/
theorem RequestInv.resent {s : State ι τ T} (hs : RequestInv s) {i : ι} {rejected token : τ}
    (hi : s.request i = .waiting rejected) (ht : s.task i = .finished (.ok token)) :
    (Request.resending rejected token 0 : Request τ T).Sent (s.bearer i ++ [token]) := by
  have hserves := hs.serves hi
  have hsent := hs.sent i
  rw [ht] at hserves
  rw [hi] at hsent
  obtain ⟨n, hn⟩ := hsent
  exact ⟨Ne.symm hserves, n, by rw [hn]; rfl⟩

omit [DecidableEq τ] in
/-- Only a refused token makes the request wait for a refresh. -/
theorem RequestInv.firstResponse {cfg : Config ι} {s : State ι τ T} (hs : RequestInv s) {i : ι}
    {token : τ} {n : Nat} (hi : s.request i = .sending token n) (r : Buffered T) :
    RequestInv (s.firstResponse cfg i token r) := by
  unfold State.firstResponse
  split
  · split
    · exact hs.ends i (.inr ⟨_, rfl⟩)
    · have hsent := hs.sent i
      rw [hi] at hsent
      have hwait : (Request.waiting token : Request τ T).Sent (s.bearer i) := ⟨n + 1, hsent⟩
      obtain ⟨h1, h2, h3⟩ := hs
      constructor <;> simp only [State.setRequest, State.setTask, Function.update_apply] <;>
        grind [Task.Serves]
  · exact hs.ends i (.inr ⟨_, rfl⟩)

/-! ## Every run -/

structure Inv (cfg : Config ι) (initial : Tokens τ) (s : State ι τ T) : Prop where
  store : StoreInv cfg initial s
  requests : RequestInv s

/-- Every step keeps the invariant, if a token that is handed out is a new one. -/
theorem step_inv {cfg : Config ι} {initial : Tokens τ} {s t : State ι τ T} {a : Action ι τ T}
    (hfresh : FreshAccess initial s a) (hs : Inv cfg initial s) (h : step cfg s a = some t) :
    Inv cfg initial t := by
  obtain ⟨hst, hrq⟩ := hs
  cases step_cases h with
  | @start i hi =>
      refine ⟨hst.congr rfl rfl rfl rfl, hrq.send ?_ (by simp) ?_⟩
      · have hsent := hrq.sent i
        rw [hi] at hsent
        rw [show s.bearer i = [] from hsent]
        rfl
      · intro _
        exact hrq.unspawned (.inl hi)
  | @sendAgain i a token n hi =>
      refine ⟨hst.congr rfl rfl rfl rfl, hrq.send ?_ (by simp) ?_⟩
      · have hsent := hrq.sent i
        rw [hi] at hsent
        show s.bearer i ++ [token] = List.replicate (n + 1 + 1) token
        rw [show s.bearer i = List.replicate (n + 1) token from hsent]
        exact (List.replicate_succ').symm
      · intro _
        exact hrq.unspawned (.inr ⟨token, n, hi⟩)
  | @response i a token n r hi =>
      refine ⟨?_, hrq.firstResponse hi r⟩
      unfold State.firstResponse
      split
      · split
        · exact hst.congr rfl rfl rfl rfl
        · have hq : StoreInv cfg initial (s.setRequest i (.waiting token)) :=
            hst.congr rfl rfl rfl rfl
          exact hq.setTask_queued (hrq.unspawned (.inr ⟨token, n, hi⟩))
      · exact hst.congr rfl rfl rfl rfl
  | sendFailed _ => exact ⟨hst.congr rfl rfl rfl rfl, hrq.ends _ (.inr ⟨_, rfl⟩)⟩
  | @resendAgain i a rejected token n hi =>
      refine ⟨hst.congr rfl rfl rfl rfl, hrq.send ?_ (by simp) (by simp)⟩
      have hsent := hrq.sent i
      rw [hi] at hsent
      obtain ⟨hne, m, hm⟩ := hsent
      refine ⟨hne, m, ?_⟩
      rw [hm, List.append_assoc, ← List.replicate_succ']
  | resendDone _ r => exact ⟨hst.congr rfl rfl rfl rfl, hrq.ends _ (.inr ⟨r, rfl⟩)⟩
  | @acquire i rejected hi hl =>
      refine ⟨hst.acquire i rejected hl, hrq.update_task rfl rfl rfl ?_ ?_⟩
      · rw [hi]; simp
      · rw [hi]; exact fun _ h => h
  | @reuse i rejected hi hne =>
      refine ⟨hst.release (by rw [hi]; rfl) (by rw [hi]; simp) _,
        hrq.update_task rfl rfl rfl ?_ ?_⟩
      · rw [hi]; simp
      · rw [hi]
        rintro _ rfl
        exact hne
  | @sendRefresh i hi =>
      refine ⟨hst.sendRefresh (by rw [hi]; rfl) (by rw [hi]; simp) rfl 0,
        hrq.update_task rfl rfl rfl ?_ ?_⟩
      · rw [hi]; simp
      · rw [hi]; exact fun _ h => h
  | @refreshAgain i a rejected r n hi =>
      refine ⟨hst.sendRefresh (by rw [hi]; rfl) (by rw [hi]; simp) (hst.requesting hi) (n + 1),
        hrq.update_task rfl rfl rfl ?_ ?_⟩
      · rw [hi]; simp
      · rw [hi]; exact fun _ h => h
  | @rotate i a rejected r n pair hi ha =>
      have hnew : pair.accessToken ∉ (issued initial s.log).map Tokens.accessToken :=
        hfresh pair ha
      refine ⟨hst.rotate hi hnew, hrq.update_task rfl rfl rfl ?_ ?_⟩
      · rw [hi]; simp
      · rw [hi]
        -- The rejected token is the stored one, and the new one differs from every token issued.
        rintro _ rfl rfl
        obtain ⟨older, hiss⟩ := head_issued initial s.log
        rw [hiss, ← hst.stored, hst.requesting hi] at hnew
        exact hnew (by simp)
  | @refreshFailed i a rejected r n e hi ha =>
      refine ⟨hst.release (by rw [hi]; rfl) (by rw [hi]; simp) _,
        hrq.update_task rfl rfl rfl ?_ ?_⟩
      · rw [hi]; simp
      · exact fun _ _ => trivial
  | @notify i pair hi =>
      refine ⟨hst.runCallback hi, hrq.update_task rfl rfl rfl ?_ ?_⟩
      · rw [hi]; simp
      · rw [hi]; exact fun _ h => h
  | resume hi ht =>
      exact ⟨hst.congr rfl rfl rfl rfl, hrq.send (hrq.resent hi ht) (by simp) (by simp)⟩
  | resumeFailed _ _ => exact ⟨hst.congr rfl rfl rfl rfl, hrq.ends _ (.inr ⟨_, rfl⟩)⟩
  | cancel _ => exact ⟨hst.congr rfl rfl rfl rfl, hrq.ends _ (.inl rfl)⟩

/-- Along every run in which the tokens handed out are new the invariant holds. -/
theorem run_inv {cfg : Config ι} {initial : Tokens τ} {as : List (Action ι τ T)} {s : State ι τ T}
    (hfresh : (requests cfg).Along (FreshAccess initial) (start initial) as)
    (hs : (requests cfg).exec (start initial) as = some s) : Inv cfg initial s :=
  (requests cfg).exec_invariant_along (Inv cfg initial)
    (fun hok hinv hst => step_inv hok hinv hst) hfresh
    ⟨storeInv_start cfg initial, requestInv_start initial⟩ hs

omit [DecidableEq ι] [DecidableEq τ] in
/-- No refresh token is traded twice. -/
theorem StoreInv.tradedOnce {cfg : Config ι} {initial : Tokens τ} {s : State ι τ T}
    (hs : StoreInv cfg initial s) : (tradedTokens s.log).Nodup := by
  have hall := hs.unique
  rw [← hs.wellFormed.traded] at hall
  exact hall.of_cons

omit [DecidableEq ι] [DecidableEq τ] in
/-- A refresh sends the token that is stored at the time. -/
theorem StoreInv.carriesStored {cfg : Config ι} {initial : Tokens τ} {s : State ι τ T}
    (hs : StoreInv cfg initial s) {later earlier : List (Event τ)} {r : τ}
    (h : s.log = later ++ .sent r :: earlier) : r = (storedAfter initial earlier).refreshToken := by
  have hwf := hs.wellFormed
  rw [h] at hwf
  exact hwf.suffix.1

omit [DecidableEq ι] [DecidableEq τ] in
/-- A token that was rotated is not sent again. -/
theorem StoreInv.notSentAgain {cfg : Config ι} {initial : Tokens τ} {s : State ι τ T}
    (hs : StoreInv cfg initial s) {later between earlier : List (Event τ)} {rejected r : τ}
    {pair : Tokens τ}
    (h : s.log = later ++ .sent r :: (between ++ .rotated rejected r pair :: earlier)) :
    r ∈ (rotations between ++ [pair]).map Tokens.refreshToken := by
  rw [hs.carriesStored h]
  exact List.mem_map_of_mem (storedAfter_mem initial pair rejected r between earlier)

omit [DecidableEq ι] [DecidableEq τ] in
/-- The token that paid for a rotation belongs to an older pair than the ones issued since. -/
theorem StoreInv.neverSentAgain {cfg : Config ι} {initial : Tokens τ} {s : State ι τ T}
    (hs : StoreInv cfg initial s) (hsingle : SingleUse initial s.log)
    {later between earlier : List (Event τ)} {rejected r : τ} {pair : Tokens τ} :
    s.log ≠ later ++ .sent r :: (between ++ .rotated rejected r pair :: earlier) := by
  intro h
  have hagain : r ∈ (rotations between ++ [pair]).map Tokens.refreshToken := hs.notSentAgain h
  have hwf := hs.wellFormed
  rw [h, ← List.cons_append, ← List.append_assoc] at hwf
  have hpaid : storedAfter initial earlier = ⟨rejected, r⟩ := hwf.suffix.1
  obtain ⟨older, holder⟩ := head_issued initial earlier
  have hissued : issued initial s.log =
      (rotations later ++ (rotations between ++ [pair])) ++ ⟨rejected, r⟩ :: older := by
    rw [← hpaid, ← holder, h]
    simp [issued, rotations_append, rotations]
  unfold SingleUse at hsingle
  rw [hissued, List.map_append, List.map_append, List.nodup_append] at hsingle
  exact hsingle.2.2 r (List.mem_append_right _ hagain) r (by simp) rfl

omit [DecidableEq ι] [DecidableEq τ] in
/-- The callback hears the pairs in order and lags behind by one at most. -/
theorem StoreInv.callbackOrder {cfg : Config ι} {initial : Tokens τ} {s : State ι τ T}
    (hs : StoreInv cfg initial s) (hcb : cfg.onTokensRefreshed = true) :
    notifications s.log <:+ rotations s.log ∧
      (rotations s.log).length ≤ (notifications s.log).length + 1 := by
  by_cases howes : ∃ i pair, s.task i = .notifying pair
  · obtain ⟨i, pair, hi⟩ := howes
    rw [hs.owing hcb hi]
    exact ⟨List.suffix_cons _ _, by simp⟩
  · rw [hs.settled hcb (by simpa using howes)]
    exact ⟨List.suffix_rfl, by simp⟩

/-- When nobody owes a call the callback has heard every pair. -/
theorem StoreInv.callbackAll {cfg : Config ι} {initial : Tokens τ} {s : State ι τ T}
    (hs : StoreInv cfg initial s) (hcb : cfg.onTokensRefreshed = true)
    (hnone : ∀ i, step cfg s (.notify i) = none) : notifications s.log = rotations s.log := by
  refine (hs.settled hcb ?_).symm
  intro i pair hi
  have hi' := hnone i
  simp [step, hi] at hi'

/-- A refresh that fails leaves the stored pair. -/
theorem failed_keeps {cfg : Config ι} {s t : State ι τ T} {i : ι} {a : Attempt (Tokens τ)}
    {e : ProtonError} (ha : refreshOutcome a = .error e)
    (h : step cfg s (.refreshed i a) = some t) : t.tokens = s.tokens := by
  cases step_cases h with
  | refreshAgain _ => rfl
  | refreshFailed _ _ => rfl
  | rotate _ hok => rw [ha] at hok; cases hok

/-- **Refresh is single and lossless**, for any number of requests, in every order of their steps,
with any answers of the network and any cancellations, as long as the server never issues an access
token twice. -/
theorem rotation_lossless (cfg : Config ι) (initial : Tokens τ) {as : List (Action ι τ T)}
    {s : State ι τ T} (hfresh : (requests cfg).Along (FreshAccess initial) (start initial) as)
    (hs : (requests cfg).exec (start initial) as = some s) : Lossless cfg initial s := by
  obtain ⟨hst, hrq⟩ := run_inv hfresh hs
  exact {
    tradedOnce := hst.tradedOnce
    stored := hst.stored
    carriesStored := hst.carriesStored
    notSentAgain := hst.notSentAgain
    neverSentAgain := hst.neverSentAgain
    callbackOrder := hst.callbackOrder
    callbackAll := hst.callbackAll
    failedKeeps := failed_keeps
    resentOnce := fun i => (hrq.sent i).resentOnce }

end Runs

/-! ## A run

Two requests with the same token are both turned down. The first gives up while its refresh is on
the wire; the pair is stored and handed to the callback all the same, and the second request goes
out again with it. -/

def twoRequests : Config (Fin 2) := ⟨.default, true, fun _ => .notSafe, fun _ => true⟩

def rejection : Attempt Unit :=
  .answered 401 (some "Unauthorized") (.ok ⟨some ⟨.unauthorized, none, none⟩, .ok ()⟩)

def newPair : Attempt (Tokens Nat) :=
  .answered 200 (some "OK") (.ok ⟨some ⟨.success, none, none⟩, .ok ⟨11, 21⟩⟩)

def cancelledRefresh {ι : Type} (i j : ι) : List (Action ι Nat Unit) :=
  [.start i, .start j, .answer i rejection, .answer j rejection, .acquire i, .reread i, .cancel i,
    .refreshed i newPair, .notify i, .acquire j, .reread j, .resume j]

/-- The request that refreshes is dropped, and its refresh goes through. -/
theorem rotation_lossless_cancelled :
    ∃ s : State (Fin 2) Nat Unit,
      (requests twoRequests).exec (start ⟨10, 20⟩) (cancelledRefresh 0 1) = some s ∧
      s.tokens = ⟨11, 21⟩ ∧ notifications s.log = [⟨11, 21⟩] ∧ s.bearer 0 = [10] ∧
      s.bearer 1 = [10, 11] ∧ SingleUse ⟨10, 20⟩ s.log ∧ Lossless twoRequests ⟨10, 20⟩ s := by
  refine ⟨_, rfl, rfl, rfl, rfl, rfl, by unfold SingleUse; decide, ?_⟩
  have hfresh : (requests twoRequests).Along (FreshAccess ⟨10, 20⟩) (start ⟨10, 20⟩)
      (cancelledRefresh 0 1) := by decide
  exact rotation_lossless twoRequests ⟨10, 20⟩ hfresh rfl

end ProtonDrive.Refresh
