import Mathlib
import ProtonDrive.Drive.Ids
import ProtonDrive.Sdk.Http

/-!
# Small uploads — one request that must not be repeated

`upload_file` and `upload_new_revision` send a small enough content in one multipart request, which
creates the node, stores the block and seals the revision together. Repeating it after it may have
landed risks a duplicate, so it may only be sent again after attempts that never left or were
refused with a 401.

* `NotReplayed` — that rule, over the attempts a call made.
* `landed_once` — a call that keeps the rule is applied at most once.
* `notReplayed_iff` — the calls keep it exactly on the network behaviours that are `Unambiguous`:
  where no send, after nothing but failures to connect, ends in a timeout or a retryable status
  while it has retries left. The retry loop below the calls repeats those.
-/

namespace ProtonDrive.SmallUpload

structure SmallUploadResponse where
  linkId : String
  revisionId : String
  deriving DecidableEq, Repr

abbrev Sent := List (Attempt SmallUploadResponse)

/-! ## The calls -/

def smallUploadSizeLimit : Nat := 128 * 1024

/-- The largest `usize`. -/
def usizeMax : Nat := 2 ^ 64 - 1

/-- `saturating_mul` stops at the largest `usize`. -/
def smallUploadApplicable (plaintextSize : Nat) : Bool :=
  min (plaintextSize * 11) usizeMax < smallUploadSizeLimit * 10

def smallUploadShouldFallBack : ProtonError → Bool
  | .api e => e.code == .alreadyExists
  | _ => false

/-- What one call meets: the client's settings, the size of the contents, and the outcomes of
everything it does besides the multipart request. `prepare` stands for resolving keys and
encrypting, `metadata` for encoding the metadata part. -/
structure Call where
  policy : RetryPolicy
  refreshTokens : Bool
  smallFileUpload : Bool
  size : Nat
  prepare : Except ProtonError Unit
  metadata : Except String Unit
  refresh : Except ProtonError Unit
  first : Nat → Attempt SmallUploadResponse
  second : Nat → Attempt SmallUploadResponse

/-- The one request, once everything it needs is there. -/
def Call.postSmall (c : Call) : Sent × Except ProtonError SmallUploadResponse :=
  match c.prepare with
  | .error e => ([], .error e)
  | .ok () => postMultipart c.policy c.refreshTokens c.metadata c.refresh c.first c.second

def uploadSmallFile (c : Call) (volumeId : String) : Sent × Except ProtonError TextNodeUid :=
  (c.postSmall.1, c.postSmall.2.map (fun response => ⟨volumeId, response.linkId⟩))

def uploadSmallRevision (c : Call) : Sent × Except ProtonError Unit :=
  (c.postSmall.1, c.postSmall.2.map (fun _ => ()))

/-- Try the small path if it applies, and the block path where it does not or reports a conflict.
The block path sends no multipart metadata request. -/
def smallOrBlocks {R : Type} (c : Call) (small : Sent × Except ProtonError R)
    (blocks : Except ProtonError R) : Sent × Except ProtonError R :=
  if c.smallFileUpload && smallUploadApplicable c.size then
    match small.2 with
    | .ok r => (small.1, .ok r)
    | .error e => if smallUploadShouldFallBack e then (small.1, blocks) else (small.1, .error e)
  else ([], blocks)

def uploadFile (c : Call) (volumeId : String) (uploadFileFrom : Except ProtonError TextNodeUid) :
    Sent × Except ProtonError TextNodeUid :=
  smallOrBlocks c (uploadSmallFile c volumeId) uploadFileFrom

def uploadNewRevision (c : Call) (uploadNewRevisionFrom : Except ProtonError Unit) :
    Sent × Except ProtonError Unit :=
  smallOrBlocks c (uploadSmallRevision c) uploadNewRevisionFrom

/-! ## The rule -/

section Rule

variable {T : Type}

/-- The attempt cannot have been applied. -/
def Harmless (a : Attempt T) : Prop := a.failedToConnect = true ∨ a.refused 401 = true

instance (a : Attempt T) : Decidable (Harmless a) :=
  inferInstanceAs (Decidable (a.failedToConnect = true ∨ a.refused 401 = true))

/-- The request was sent again only after harmless attempts. -/
def SentAgainOnlyIfHarmless (sent : List (Attempt T)) : Prop := ∀ a ∈ sent.dropLast, Harmless a

/-- Whichever of the other attempts the server applied, it applied one at most. -/
def LandedOnce (sent : List (Attempt T)) : Prop :=
  ∀ landed : Nat → Prop,
    (∀ k, landed k → ∃ a, sent[k]? = some a ∧ ¬ Harmless a) →
      ∀ j k, landed j → landed k → j = k

def NotReplayed (sent : List (Attempt T)) : Prop := SentAgainOnlyIfHarmless sent ∧ LandedOnce sent

theorem landed_once {sent : List (Attempt T)} (h : SentAgainOnlyIfHarmless sent) :
    LandedOnce sent := by
  intro landed hland
  -- Only the last attempt can have been applied.
  have hlast : ∀ k, landed k → k + 1 = sent.length := by
    intro k hk
    obtain ⟨a, ha, hharm⟩ := hland k hk
    obtain ⟨hlt, hget⟩ := List.getElem?_eq_some_iff.mp ha
    by_contra hne
    have hmem : a ∈ sent.dropLast := by
      rw [List.mem_iff_getElem]
      refine ⟨k, by rw [List.length_dropLast]; omega, ?_⟩
      rw [List.getElem_dropLast]
      exact hget
    exact hharm (h a hmem)
  intro j k hj hk
  have hj' := hlast j hj
  have hk' := hlast k hk
  omega

theorem notReplayed_iff_harmless {sent : List (Attempt T)} :
    NotReplayed sent ↔ SentAgainOnlyIfHarmless sent :=
  ⟨fun h => h.1, fun h => ⟨h, landed_once h⟩⟩

/-! ## One send -/

/-- As long as the attempts only failed to connect and a retry is left, none ends in another failure
that the loop repeats. -/
def Clean (retries : Nat) (attempts : Nat → Attempt T) : Prop :=
  ∀ n < retries, (∀ k < n, (attempts k).failedToConnect = true) →
    (attempts n).worthRetrying .notSafe = true → (attempts n).failedToConnect = true

theorem worthRetrying_of_failedToConnect {a : Attempt T} (h : a.failedToConnect = true) :
    a.worthRetrying .notSafe = true := by
  cases a with
  | answered status reason body => cases h
  | failed e =>
      have he : e.isConnect = true := h
      simp [Attempt.worthRetrying, isRetryableError, he]

theorem not_refused_of_worthRetrying {a : Attempt T} (h : a.worthRetrying .notSafe = true) :
    a.refused 401 = false := by
  cases a with
  | failed e => rfl
  | answered status reason body =>
      have hstatus : isRetryableStatus status = true := by
        cases body <;> simpa [Attempt.worthRetrying] using h
      simp only [Attempt.refused, beq_eq_false_iff_ne]
      rintro rfl
      simp [isRetryableStatus] at hstatus

theorem clean_succ {retries : Nat} {attempts : Nat → Attempt T} :
    Clean (retries + 1) attempts ↔
      ((attempts 0).worthRetrying .notSafe = true → (attempts 0).failedToConnect = true) ∧
      ((attempts 0).failedToConnect = true → Clean retries (fun n => attempts (n + 1))) := by
  constructor
  · intro h
    refine ⟨h 0 (by omega) (by omega), ?_⟩
    intro h0 n hn hbefore
    apply h (n + 1) (by omega)
    intro k hk
    cases k with
    | zero => exact h0
    | succ k => exact hbefore k (by omega)
  · rintro ⟨h0, hrest⟩ n hn hbefore hagain
    cases n with
    | zero => exact h0 hagain
    | succ n =>
        exact hrest (hbefore 0 (by omega)) n (by omega) (fun k hk => hbefore (k + 1) (by omega))
          hagain

/-- The loop repeats only harmless attempts exactly on clean networks. -/
theorem sendLoop_harmless_iff (retries : Nat) (attempts : Nat → Attempt T) :
    SentAgainOnlyIfHarmless (sendLoop (Attempt.worthRetrying .notSafe) retries attempts).1 ↔
      Clean retries attempts := by
  -- By induction on the retries that are left.
  induction retries generalizing attempts with
  | zero => simp [sendLoop, SentAgainOnlyIfHarmless, Clean]
  | succ retries ih =>
      rw [clean_succ]
      unfold sendLoop
      split
      · -- The attempt is worth another, so it has to be harmless itself.
        next hagain =>
        have hrest := ih (fun n => attempts (n + 1))
        have hne := (sendLoop_length (Attempt.worthRetrying .notSafe) retries
          (fun n => attempts (n + 1))).1
        have hcons : ∀ rest : List (Attempt T), 1 ≤ rest.length →
            (SentAgainOnlyIfHarmless (attempts 0 :: rest) ↔
              Harmless (attempts 0) ∧ SentAgainOnlyIfHarmless rest) := by
          intro rest hlen
          unfold SentAgainOnlyIfHarmless
          rw [List.dropLast_cons_of_ne_nil (List.ne_nil_of_length_pos hlen)]
          exact List.forall_mem_cons
        have hharm : Harmless (attempts 0) ↔ (attempts 0).failedToConnect = true := by
          unfold Harmless
          rw [not_refused_of_worthRetrying hagain]
          simp
        rw [hcons _ hne, hrest, hharm]
        grind
      · -- The attempt is the last one, and nothing is sent after it.
        next hstop =>
        have hconn : (attempts 0).failedToConnect ≠ true :=
          fun h => hstop (worthRetrying_of_failedToConnect h)
        simp [SentAgainOnlyIfHarmless, hstop, hconn]

/-! ## The two sends of a post -/

/-- Where a send stops after nothing but failures to connect, its result is that of its last
attempt. -/
theorem sendLoop_result_of_stop {retries n : Nat} {attempts : Nat → Attempt T} (hn : n ≤ retries)
    (hbefore : ∀ k < n, (attempts k).failedToConnect = true)
    (hstop : (attempts n).worthRetrying .notSafe = false) :
    (sendLoop (Attempt.worthRetrying .notSafe) retries attempts).2 = (attempts n).result := by
  induction retries generalizing n attempts with
  | zero =>
      obtain rfl : n = 0 := by omega
      rfl
  | succ retries ih =>
      unfold sendLoop
      cases n with
      | zero => rw [if_neg (by rw [hstop]; simp)]
      | succ n =>
          rw [if_pos (worthRetrying_of_failedToConnect (hbefore 0 (by omega)))]
          exact ih (by omega) (fun k hk => hbefore (k + 1) (by omega)) hstop

/-- On a clean network the result is that of an attempt before which all failed to connect. -/
theorem sendLoop_result_of_clean {retries : Nat} {attempts : Nat → Attempt T}
    (hclean : Clean retries attempts) :
    ∃ n ≤ retries, (∀ k < n, (attempts k).failedToConnect = true) ∧
      (sendLoop (Attempt.worthRetrying .notSafe) retries attempts).2 = (attempts n).result := by
  induction retries generalizing attempts with
  | zero => exact ⟨0, by omega, by omega, rfl⟩
  | succ retries ih =>
      obtain ⟨h0, hrest⟩ := clean_succ.mp hclean
      unfold sendLoop
      split
      · next hagain =>
        obtain ⟨n, hn, hbefore, hres⟩ := ih (hrest (h0 hagain))
        refine ⟨n + 1, by omega, ?_, hres⟩
        intro k hk
        cases k with
        | zero => exact h0 hagain
        | succ k => exact hbefore k (by omega)
      · exact ⟨0, by omega, by omega, rfl⟩

theorem not_worthRetrying_of_asksForRefresh {a : Attempt T} (h : asksForRefresh a.result = true) :
    a.worthRetrying .notSafe = false := by
  cases a with
  | failed e => cases h
  | answered status reason body =>
      cases body with
      | error e => cases h
      | ok body =>
          simp only [asksForRefresh, Attempt.result, Bool.and_eq_true, beq_iff_eq] at h
          obtain ⟨rfl, -⟩ := h
          rfl

theorem refused_of_asksForRefresh {a : Attempt T} (h : asksForRefresh a.result = true) :
    a.refused 401 = true := by
  cases a with
  | failed e => cases h
  | answered status reason body =>
      cases body with
      | error e => cases h
      | ok body =>
          simp only [asksForRefresh, Attempt.result, Bool.and_eq_true] at h
          exact h.1

/-- A send, after nothing but failures to connect, is answered a 401 that a new token may cure. -/
def MeetsRejection (retries : Nat) (attempts : Nat → Attempt T) : Prop :=
  ∃ n ≤ retries, (∀ k < n, (attempts k).failedToConnect = true) ∧
    asksForRefresh (attempts n).result = true

theorem asksForRefresh_iff_meetsRejection {policy : RetryPolicy} {attempts : Nat → Attempt T}
    (hclean : Clean policy.maxRetries attempts) :
    asksForRefresh (sendRetrying policy .notSafe attempts).2 = true ↔
      MeetsRejection policy.maxRetries attempts := by
  constructor
  · intro h
    obtain ⟨n, hn, hbefore, hres⟩ := sendLoop_result_of_clean hclean
    refine ⟨n, hn, hbefore, ?_⟩
    rw [← hres]
    exact h
  · rintro ⟨n, hn, hbefore, hasks⟩
    have hres := sendLoop_result_of_stop hn hbefore (not_worthRetrying_of_asksForRefresh hasks)
    rw [sendRetrying, hres]
    exact hasks

/-- No send of a post ends in a failure that may hide an applied request and is repeated. -/
def Unambiguous (policy : RetryPolicy) (refreshTokens : Bool) (refresh : Except ProtonError Unit)
    (first second : Nat → Attempt T) : Prop :=
  Clean policy.maxRetries first ∧
    (refreshTokens = true → refresh.isOk = true → MeetsRejection policy.maxRetries first →
      Clean policy.maxRetries second)

theorem SentAgainOnlyIfHarmless.left {before after : List (Attempt T)}
    (h : SentAgainOnlyIfHarmless (before ++ after)) : SentAgainOnlyIfHarmless before := by
  intro a ha
  cases after with
  | nil => exact h a (by simpa using ha)
  | cons b after =>
      apply h a
      rw [List.dropLast_append_of_ne_nil (by simp)]
      exact List.mem_append_left _ (List.dropLast_subset _ ha)

/-- Where the last attempt before the cut is harmless, a nonempty continuation keeps the rule
exactly when both parts do. -/
theorem sentAgain_append_iff {before after : List (Attempt T)} {last : Attempt T}
    (hlast : Harmless last) (hafter : after ≠ []) :
    SentAgainOnlyIfHarmless ((before ++ [last]) ++ after) ↔
      SentAgainOnlyIfHarmless (before ++ [last]) ∧ SentAgainOnlyIfHarmless after := by
  unfold SentAgainOnlyIfHarmless
  rw [List.dropLast_append_of_ne_nil hafter, List.dropLast_concat]
  simp only [List.mem_append, List.mem_singleton]
  constructor
  · intro h
    exact ⟨fun a ha => h a (.inl (.inl ha)), fun a ha => h a (.inr ha)⟩
  · rintro ⟨hb, ha⟩ a ((hmem | rfl) | hmem)
    · exact hb a hmem
    · exact hlast
    · exact ha a hmem

theorem postMultipart_harmless_iff (policy : RetryPolicy) (refreshTokens : Bool)
    (refresh : Except ProtonError Unit) (first second : Nat → Attempt T) :
    SentAgainOnlyIfHarmless
        (postMultipart policy refreshTokens (.ok ()) refresh first second).1 ↔
      Unambiguous policy refreshTokens refresh first second := by
  rw [postMultipart_sent]
  have hfirst : SentAgainOnlyIfHarmless (sendRetrying policy .notSafe first).1 ↔
      Clean policy.maxRetries first := sendLoop_harmless_iff _ _
  have hsecond : SentAgainOnlyIfHarmless (sendRetrying policy .notSafe second).1 ↔
      Clean policy.maxRetries second := sendLoop_harmless_iff _ _
  -- The request goes out a second time only after a refresh of the tokens.
  by_cases hclean : Clean policy.maxRetries first
  · have hmeets := asksForRefresh_iff_meetsRejection hclean
    by_cases hre : refreshTokens = true ∧ refresh.isOk = true ∧
        MeetsRejection policy.maxRetries first
    · -- The attempt before the refresh was refused for its tokens, so it did nothing.
      obtain ⟨htok, hok, hmeet⟩ := hre
      rw [if_pos (by rw [htok, hok, hmeets.mpr hmeet]; rfl)]
      obtain ⟨before, last, hsent, hres, -⟩ :=
        sendLoop_result (Attempt.worthRetrying .notSafe) policy.maxRetries first
      have hharm : Harmless last := by
        right
        apply refused_of_asksForRefresh
        rw [← hres]
        exact hmeets.mpr hmeet
      have hne : (sendRetrying policy .notSafe second).1 ≠ [] :=
        List.ne_nil_of_length_pos (sendLoop_length _ _ _).1
      rw [show (sendRetrying policy .notSafe first).1 = before ++ [last] from hsent] at hfirst ⊢
      rw [sentAgain_append_iff hharm hne, hfirst, hsecond]
      unfold Unambiguous
      grind
    · rw [if_neg ?_, List.append_nil, hfirst]
      · unfold Unambiguous
        grind
      · simp only [Bool.and_eq_true, hmeets]
        grind
  · -- Without the first half neither side holds.
    constructor
    · intro h
      exact absurd (hfirst.mp h.left) hclean
    · intro h
      exact absurd h.1 hclean

end Rule

/-! ## The calls keep the rule exactly on unambiguous networks -/

/-- The call gets as far as its multipart request. -/
def Call.PostsSmall (c : Call) : Prop :=
  c.smallFileUpload = true ∧ smallUploadApplicable c.size = true ∧ c.prepare.isOk = true ∧
    c.metadata.isOk = true

/-- The condition, on what a call meets. -/
def Call.Unambiguous (c : Call) : Prop :=
  c.PostsSmall → SmallUpload.Unambiguous c.policy c.refreshTokens c.refresh c.first c.second

theorem postSmall_harmless_iff (c : Call) :
    SentAgainOnlyIfHarmless c.postSmall.1 ↔
      (c.prepare.isOk = true → c.metadata.isOk = true →
        SmallUpload.Unambiguous c.policy c.refreshTokens c.refresh c.first c.second) := by
  unfold Call.postSmall
  cases hp : c.prepare with
  | error e => simp [SentAgainOnlyIfHarmless, Except.isOk, Except.toBool]
  | ok u =>
      cases hm : c.metadata with
      | error text => simp [postMultipart, SentAgainOnlyIfHarmless, Except.isOk, Except.toBool]
      | ok v =>
          rw [postMultipart_harmless_iff]
          simp [Except.isOk, Except.toBool]

/-- Whatever becomes of the small path, its attempts are all the call makes. -/
theorem smallOrBlocks_sent {R : Type} (c : Call) (small : Sent × Except ProtonError R)
    (blocks : Except ProtonError R) :
    (smallOrBlocks c small blocks).1 =
      if c.smallFileUpload && smallUploadApplicable c.size then small.1 else [] := by
  unfold smallOrBlocks
  split
  · split
    · rfl
    · split <;> rfl
  · rfl

theorem smallOrBlocks_harmless_iff {R : Type} (c : Call) (small blocks : Except ProtonError R) :
    SentAgainOnlyIfHarmless (smallOrBlocks c (c.postSmall.1, small) blocks).1 ↔ c.Unambiguous := by
  rw [smallOrBlocks_sent]
  split
  · next hsmall =>
    rw [Bool.and_eq_true] at hsmall
    rw [postSmall_harmless_iff]
    unfold Call.Unambiguous Call.PostsSmall
    grind
  · next hsmall =>
    rw [Bool.and_eq_true] at hsmall
    simp only [SentAgainOnlyIfHarmless, List.dropLast_nil, List.not_mem_nil, false_implies,
      implies_true, true_iff]
    intro h
    exact absurd ⟨h.1, h.2.1⟩ hsmall

/-- **A small upload is not replayed after it may have landed, exactly on unambiguous networks.** -/
theorem notReplayed_iff (c : Call) (volumeId : String)
    (uploadFileFrom : Except ProtonError TextNodeUid) (uploadNewRevisionFrom : Except ProtonError Unit) :
    (NotReplayed (uploadFile c volumeId uploadFileFrom).1 ↔ c.Unambiguous) ∧
      (NotReplayed (uploadNewRevision c uploadNewRevisionFrom).1 ↔ c.Unambiguous) := by
  constructor
  · rw [notReplayed_iff_harmless]
    exact smallOrBlocks_harmless_iff c _ _
  · rw [notReplayed_iff_harmless]
    exact smallOrBlocks_harmless_iff c _ _

/-! ## Two ways to send it twice -/

def answer200 : Attempt SmallUploadResponse :=
  .answered 200 (some "OK") (.ok ⟨some ⟨.success, none, none⟩, .ok ⟨"link", "revision"⟩⟩)

/-- The answer to the first attempt does not arrive in time, and the second attempt is answered. -/
def answerLost : Call where
  policy := .default
  refreshTokens := true
  smallFileUpload := true
  size := 100
  prepare := .ok ()
  metadata := .ok ()
  refresh := .ok ()
  first n := if n = 0 then .failed ⟨true, false, true, "operation timed out"⟩ else answer200
  second _ := answer200

/-- A gateway answers the first attempt in the server's place. -/
def gatewayAnswer : Call :=
  { answerLost with
    first := fun n =>
      if n = 0 then .answered 504 (some "Gateway Timeout") (.ok ⟨none, .error "no JSON"⟩)
      else answer200 }

/-- Both are sent twice, and both attempts may have been applied. -/
theorem replayed :
    (¬ NotReplayed (uploadFile answerLost "volume" (.error .keysLocked)).1 ∧
      ¬ LandedOnce (uploadFile answerLost "volume" (.error .keysLocked)).1) ∧
    (¬ NotReplayed (uploadNewRevision gatewayAnswer (.error .keysLocked)).1 ∧
      ¬ LandedOnce (uploadNewRevision gatewayAnswer (.error .keysLocked)).1) := by
  have hboth : ∀ sent : Sent, (∃ a b, sent = [a, b] ∧ ¬ Harmless a ∧ ¬ Harmless b) →
      ¬ NotReplayed sent ∧ ¬ LandedOnce sent := by
    rintro sent ⟨a, b, rfl, ha, hb⟩
    have htwice : ¬ LandedOnce [a, b] := by
      intro h
      refine absurd (h (fun k => k < 2) ?_ 0 1 (by decide) (by decide)) (by decide)
      intro k hk
      match k, hk with
      | 0, _ => exact ⟨a, rfl, ha⟩
      | 1, _ => exact ⟨b, rfl, hb⟩
    exact ⟨fun h => htwice h.2, htwice⟩
  exact ⟨hboth _ ⟨_, _, rfl, by decide, by decide⟩, hboth _ ⟨_, _, rfl, by decide, by decide⟩⟩

end ProtonDrive.SmallUpload
