import ProtonDrive.Lib.Except
import ProtonDrive.Sdk.Http

/-!
# What counts as a successful response

The calls of the HTTP client up to what they hand to their caller: `get`, `post`, `put` and `delete`,
which all end in `parse_buffered`, and the two calls of the block storage, which look at the envelope
themselves.

Each of them lets the envelope decide where there is one and the status where there is none. So a
response is accepted that has only one of the two: a success envelope under a failed status, or a
successful status without an envelope. `Gateway` names these responses.
-/

namespace ProtonDrive

variable {T : Type}

/-! ## The calls -/

namespace Http

/-- The response that a request ends with: the first one, or after a 401 that a new token may cure,
the one to the request with that token. -/
def exchanged (policy : RetryPolicy) (replay : Replay) (refreshTokens : Bool)
    (refresh : Except ProtonError Unit) (first second : Nat → Attempt T) :
    Except ProtonError (Buffered T) :=
  match (sendRetrying policy replay first).2 with
  | .error e => .error e
  | .ok r =>
      if r.status = 401 ∧ refreshTokens then
        if accountGone r then .error (apiError r)
        else
          match refresh with
          | .error e => .error e
          | .ok () => (sendRetrying policy replay second).2
      else .ok r

def send (policy : RetryPolicy) (replay : Replay) (refreshTokens : Bool)
    (refresh : Except ProtonError Unit) (first second : Nat → Attempt T) : Except ProtonError T :=
  (exchanged policy replay refreshTokens refresh first second).bind parseBuffered

def get (policy : RetryPolicy) (refreshTokens : Bool) (refresh : Except ProtonError Unit)
    (first second : Nat → Attempt T) : Except ProtonError T :=
  send policy .safe refreshTokens refresh first second

def post (policy : RetryPolicy) (refreshTokens : Bool) (refresh : Except ProtonError Unit)
    (first second : Nat → Attempt T) : Except ProtonError T :=
  send policy .notSafe refreshTokens refresh first second

/-- A `POST` to an endpoint that only reads. -/
def postQuery (policy : RetryPolicy) (refreshTokens : Bool) (refresh : Except ProtonError Unit)
    (first second : Nat → Attempt T) : Except ProtonError T :=
  send policy .safe refreshTokens refresh first second

def put (policy : RetryPolicy) (refreshTokens : Bool) (refresh : Except ProtonError Unit)
    (first second : Nat → Attempt T) : Except ProtonError T :=
  send policy .notSafe refreshTokens refresh first second

def delete (policy : RetryPolicy) (refreshTokens : Bool) (refresh : Except ProtonError Unit)
    (first second : Nat → Attempt T) : Except ProtonError T :=
  send policy .notSafe refreshTokens refresh first second

end Http

/-- How both storage calls look at a response. Its body, if accepted, is handed on undecoded. -/
def checkStorage (r : Buffered T) : Except ProtonError (Body T) :=
  match r.body.envelope with
  | some envelope => if !envelope.isSuccess then .error (apiError r) else .ok r.body
  | none => if !statusIsSuccess r.status then .error (apiError r) else .ok r.body

def getStorageBlob (policy : RetryPolicy) (attempts : Nat → Attempt T) :
    Except ProtonError (Body T) :=
  (sendRetrying policy .safe attempts).2.bind checkStorage

def postStorageBlob (policy : RetryPolicy) (attempts : Nat → Attempt T) : Except ProtonError Unit :=
  ((sendRetrying policy .notSafe attempts).2.bind checkStorage).map (fun _ => ())

/-! ## What they accept -/

namespace Buffered

/-- The code is one that a successful call may have: a multi-status is left to the caller. -/
def accepts (envelope : ApiResponse) : Bool :=
  envelope.isSuccess || envelope.code == .multipleResponses

/-- The API says that the call succeeded, by status and envelope both. -/
def Succeeded (r : Buffered T) : Prop :=
  statusIsSuccess r.status = true ∧ ∃ envelope, r.body.envelope = some envelope ∧
    accepts envelope = true

/-- The storage says that the block is stored, by status and envelope both. -/
def Stored (r : Buffered T) : Prop :=
  statusIsSuccess r.status = true ∧ ∃ envelope, r.body.envelope = some envelope ∧
    envelope.isSuccess = true

/-- Exactly one of status and envelope speaks for success, and the other does not speak against it:
the status is a failure under an envelope that `good` holds of, or a success without an envelope. -/
def Gateway (good : ApiResponse → Bool) (r : Buffered T) : Prop :=
  match r.body.envelope with
  | some envelope => good envelope = true ∧ statusIsSuccess r.status = false
  | none => statusIsSuccess r.status = true

end Buffered

theorem parseBuffered_eq_ok {r : Buffered T} {x : T} :
    parseBuffered r = .ok x ↔ r.body.payload = .ok x ∧
      match r.body.envelope with
      | some envelope => Buffered.accepts envelope = true
      | none => statusIsSuccess r.status = true := by
  obtain ⟨status, reason, envelope, payload⟩ := r
  unfold parseBuffered Buffered.accepts
  cases envelope with
  | none => cases statusIsSuccess status <;> simp [Except.mapError_eq_ok]
  | some envelope =>
      cases hsuccess : envelope.isSuccess <;> cases hcode : envelope.code == .multipleResponses <;>
        simp_all [Except.mapError_eq_ok]

theorem checkStorage_eq_ok {r : Buffered T} {b : Body T} :
    checkStorage r = .ok b ↔ b = r.body ∧
      match r.body.envelope with
      | some envelope => envelope.isSuccess = true
      | none => statusIsSuccess r.status = true := by
  unfold checkStorage
  split
  · next envelope h =>
    cases envelope.isSuccess <;> simp [eq_comm]
  · next h =>
    cases statusIsSuccess r.status <;> simp [eq_comm]

/-- Of what `parse_buffered` accepts, the gateway responses are those that did not succeed. -/
theorem parseBuffered_succeeded_iff (r : Buffered T) :
    (∀ x, parseBuffered r = .ok x → r.Succeeded) ↔
      ¬ ((∃ x, r.body.payload = .ok x) ∧ r.Gateway Buffered.accepts) := by
  simp only [parseBuffered_eq_ok, Buffered.Succeeded, Buffered.Gateway]
  cases henvelope : r.body.envelope with
  | none => simp
  | some envelope => simp; grind

theorem checkStorage_stored_iff (r : Buffered T) :
    (∀ b, checkStorage r = .ok b → r.Stored) ↔ ¬ r.Gateway ApiResponse.isSuccess := by
  simp only [checkStorage_eq_ok, Buffered.Stored, Buffered.Gateway]
  cases henvelope : r.body.envelope with
  | none => simp
  | some envelope => simp; grind

/-! ## Networks -/

/-- A network that gives this response to whatever is sent. -/
def Buffered.always (r : Buffered T) : Nat → Attempt T :=
  fun _ => .answered r.status r.reason (.ok r.body)

theorem sendRetrying_always (r : Buffered T) (replay : Replay) :
    (sendRetrying .disabled replay r.always).2 = .ok r := rfl

theorem Http.exchanged_always (r : Buffered T) (replay : Replay) (refresh : Except ProtonError Unit)
    (second : Nat → Attempt T) :
    Http.exchanged .disabled replay false refresh r.always second = .ok r := by
  unfold Http.exchanged
  rw [sendRetrying_always]
  simp

theorem Http.send_of_exchanged {policy : RetryPolicy} {replay : Replay} {refreshTokens : Bool}
    {refresh : Except ProtonError Unit} {first second : Nat → Attempt T} {r : Buffered T}
    (h : Http.exchanged policy replay refreshTokens refresh first second = .ok r) :
    Http.send policy replay refreshTokens refresh first second = parseBuffered r := by
  unfold Http.send
  rw [h]
  rfl

theorem postStorageBlob_eq_ok {policy : RetryPolicy} {attempts : Nat → Attempt T} :
    postStorageBlob policy attempts = .ok () ↔
      ∃ r b, (sendRetrying policy .notSafe attempts).2 = .ok r ∧ checkStorage r = .ok b := by
  unfold postStorageBlob
  cases (sendRetrying policy .notSafe attempts).2 with
  | error e => simp [Except.bind, Except.map]
  | ok r => cases hcheck : checkStorage r <;> simp [Except.bind, Except.map, hcheck]

end ProtonDrive
