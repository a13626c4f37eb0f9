import ProtonDrive.Sdk.Error

/-!
# One HTTP request and its retries

The part of `http.rs` that decides what is sent again. An `Attempt` is what came of handing one
request to the transport; a stream of attempts is everything the network may do to a call.

* `Attempt.worthRetrying` — what `send_retrying` repeats: a retryable status, a timeout, a failure
  to connect, and for a request that only reads also a connection that drops later.
* `Attempt.failedToConnect` — what `send_unrepeatable` repeats.
* `sendRetrying` — the loop. It returns the attempts it made beside its result, and stops by itself
  after at most `maxRetries + 1` of them.
-/

namespace ProtonDrive

/-- Whether a request may be sent again after it may already have reached the server. `notSafe` is
the source's `Replay::Unsafe`. -/
inductive Replay where
  | safe
  | notSafe
  deriving DecidableEq, Repr

/-- How often a loop may try again; the delays between attempts decide nothing here. -/
structure RetryPolicy where
  maxRetries : Nat
  deriving DecidableEq, Repr

namespace RetryPolicy

def default : RetryPolicy := ⟨3⟩

def disabled : RetryPolicy := ⟨0⟩

end RetryPolicy

/-- A body read to its end, as the JSON decoder sees it: the envelope, and the payload the caller
asked for. -/
structure Body (T : Type) where
  envelope : Option ApiResponse
  payload : Except String T

/-- A response with its body. `reason` is the canonical reason of its status. -/
structure Buffered (T : Type) where
  status : Nat
  reason : Option String
  body : Body T

/-- What came of one attempt: an answer, whose body may still break off, or a failed send. -/
inductive Attempt (T : Type) where
  | answered (status : Nat) (reason : Option String) (body : Except TransportError (Body T))
  | failed (e : TransportError)

variable {T : Type}

/-! ## The envelope -/

def statusIsSuccess (status : Nat) : Bool := 200 ≤ status && status < 300

def apiError (r : Buffered T) : ProtonError :=
  .api {
    code := (r.body.envelope.map ApiResponse.code).getD .unknown
    httpStatus := r.status
    message := (r.body.envelope.bind ApiResponse.errorMessage).getD (r.reason.getD "unknown error")
    details := r.body.envelope.bind ApiResponse.details }

/-- Enforce the success envelope, then decode. A multi-status is not a failure: its caller looks at
the single codes. -/
def parseBuffered (r : Buffered T) : Except ProtonError T :=
  let failed : Bool :=
    match r.body.envelope with
    | some envelope => !envelope.isSuccess && envelope.code != .multipleResponses
    | none => !statusIsSuccess r.status
  if failed then .error (apiError r)
  else r.body.payload.mapError .serialization

/-- A 401 that a new token cannot cure. -/
def accountGone (r : Buffered T) : Bool :=
  match r.body.envelope with
  | some envelope => envelope.code == .accountDeleted || envelope.code == .accountDisabled
  | none => false

/-! ## What is sent again -/

def isRetryableStatus (status : Nat) : Bool :=
  status == 408 || status == 429 || status == 502 || status == 503 || status == 504

def isRetryableError (e : TransportError) (replay : Replay) : Bool :=
  e.isTimeout || e.isConnect || (replay == .safe && e.isRequest)

namespace Attempt

/-- The attempt showed that the request never left. -/
def failedToConnect : Attempt T → Bool
  | .failed e => e.isConnect
  | .answered _ _ _ => false

def refused (status : Nat) : Attempt T → Bool
  | .answered status' _ _ => status' == status
  | .failed _ => false

/-- Whether `send_retrying` wants another attempt after this one. -/
def worthRetrying (replay : Replay) : Attempt T → Bool
  | .answered status _ body =>
      isRetryableStatus status ||
        (match body with
          | .ok _ => false
          | .error _ => replay == .safe)
  | .failed e => isRetryableError e replay

/-- The result of an attempt after which none follows. -/
def result : Attempt T → Except ProtonError (Buffered T)
  | .answered status reason (.ok body) => .ok ⟨status, reason, body⟩
  | .answered _ _ (.error e) => .error (.transport e)
  | .failed e => .error (.transport e)

end Attempt

/-! ## The loops -/

/-- Send until an attempt is not worth another one, or no retry is left. -/
def sendLoop (again : Attempt T → Bool) :
    (retriesLeft : Nat) → (attempts : Nat → Attempt T) →
      List (Attempt T) × Except ProtonError (Buffered T)
  | 0, attempts => ([attempts 0], (attempts 0).result)
  | retriesLeft + 1, attempts =>
      if again (attempts 0) then
        let rest := sendLoop again retriesLeft (fun n => attempts (n + 1))
        (attempts 0 :: rest.1, rest.2)
      else ([attempts 0], (attempts 0).result)

def sendRetrying (policy : RetryPolicy) (replay : Replay) (attempts : Nat → Attempt T) :
    List (Attempt T) × Except ProtonError (Buffered T) :=
  sendLoop (Attempt.worthRetrying replay) policy.maxRetries attempts

/-- A loop sends at least once, and at most once more than it has retries. -/
theorem sendLoop_length (again : Attempt T → Bool) (retriesLeft : Nat) (attempts : Nat → Attempt T) :
    1 ≤ (sendLoop again retriesLeft attempts).1.length ∧
      (sendLoop again retriesLeft attempts).1.length ≤ retriesLeft + 1 := by
  induction retriesLeft generalizing attempts with
  | zero => simp [sendLoop]
  | succ n ih =>
      have hrest := ih (fun k => attempts (k + 1))
      unfold sendLoop
      split
      · simp only [List.length_cons]
        omega
      · simp

/-- The result is that of the last attempt. -/
theorem sendLoop_result (again : Attempt T → Bool) (retriesLeft : Nat)
    (attempts : Nat → Attempt T) :
    ∃ before last, (sendLoop again retriesLeft attempts).1 = before ++ [last] ∧
      (sendLoop again retriesLeft attempts).2 = last.result ∧
      ∀ a ∈ before, again a = true := by
  induction retriesLeft generalizing attempts with
  | zero => exact ⟨[], attempts 0, rfl, rfl, by simp⟩
  | succ n ih =>
      obtain ⟨before, last, hsent, hres, hagain⟩ := ih (fun k => attempts (k + 1))
      unfold sendLoop
      split
      · next h =>
        refine ⟨attempts 0 :: before, last, ?_, hres, ?_⟩
        · simp only [hsent, List.cons_append]
        · intro a ha
          rcases List.mem_cons.mp ha with rfl | ha
          · exact h
          · exact hagain a ha
      · exact ⟨[], attempts 0, rfl, rfl, by simp⟩

/-! ## A multipart post -/

/-- The outcome of a send that makes the client refresh its token and send again. -/
def asksForRefresh : Except ProtonError (Buffered T) → Bool
  | .ok r => r.status == 401 && !accountGone r
  | .error _ => false

/-- `post_multipart`: one send with the stored token and, after a 401 that a new token may cure, one
with the token the refresh brought. `metadata` is the outcome of encoding the metadata part and
`refresh` that of the refresh; `first` and `second` are what the network does to the two sends. -/
def postMultipart (policy : RetryPolicy) (refreshTokens : Bool) (metadata : Except String Unit)
    (refresh : Except ProtonError Unit) (first second : Nat → Attempt T) :
    List (Attempt T) × Except ProtonError T :=
  match metadata with
  | .error text => ([], .error (.serialization text))
  | .ok () =>
      let sent := sendRetrying policy .notSafe first
      match sent.2 with
      | .error e => (sent.1, .error e)
      | .ok r =>
          if r.status = 401 ∧ refreshTokens then
            if accountGone r then (sent.1, .error (apiError r))
            else
              match refresh with
              | .error e => (sent.1, .error e)
              | .ok () =>
                  let resent := sendRetrying policy .notSafe second
                  (sent.1 ++ resent.1, resent.2.bind parseBuffered)
          else (sent.1, parseBuffered r)

/-- The attempts of a post are those of its first send, and those of the second one where the first
asked for a refresh and got one. -/
theorem postMultipart_sent (policy : RetryPolicy) (refreshTokens : Bool)
    (refresh : Except ProtonError Unit) (first second : Nat → Attempt T) :
    (postMultipart policy refreshTokens (.ok ()) refresh first second).1 =
      (sendRetrying policy .notSafe first).1 ++
        if refreshTokens && refresh.isOk && asksForRefresh (sendRetrying policy .notSafe first).2 then
          (sendRetrying policy .notSafe second).1
        else [] := by
  unfold postMultipart
  generalize sendRetrying policy .notSafe first = sent
  obtain ⟨attempts, result⟩ := sent
  cases result with
  | error e => simp [asksForRefresh]
  | ok r =>
      by_cases hstatus : r.status = 401
      · cases refreshTokens <;> cases hgone : accountGone r <;> cases refresh <;>
          simp [asksForRefresh, hstatus, hgone, Except.isOk, Except.toBool]
      · simp [asksForRefresh, hstatus]

end ProtonDrive
