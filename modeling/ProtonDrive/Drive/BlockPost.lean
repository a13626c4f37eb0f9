import ProtonDrive.Sdk.Responses
import ProtonDrive.Sdk.OpenPgp

/-!
# Posting one block

`upload_one_block`: the attempts to store one encrypted blob, above the retries of a single request.
The network answers each attempt for itself, and what a renewed preparation returns is an argument.

The permits that an attempt waits for, and the flag by which a timeout slows the other blocks of the
file down, do not change what this block is answered and are left out here.
-/

namespace ProtonDrive

open OpenPgp (Bytes)

/-! ## Errors -/

namespace ProtonApiError

/-- Whether sending the request again could plausibly succeed. -/
def isRetriable (e : ProtonApiError) : Bool :=
  if e.code == .tooManyRequests || e.code == .doesNotExist then true
  else !(400 ≤ e.httpStatus && e.httpStatus < 500) ||
    (e.httpStatus == 404 || e.httpStatus == 408 || e.httpStatus == 429)

end ProtonApiError

def ProtonError.isRetriable : ProtonError → Bool
  | .api e => e.isRetriable
  | .transport _ => true
  | .serialization _ | .crypto _ | .keysLocked | .invalidOperation _ => false

def isUploadTimeout : ProtonError → Bool
  | .transport e => e.isTimeout
  | _ => false

/-- The storage no longer knows the token of the upload. -/
def isExpiredUploadToken : ProtonError → Bool
  | .api e => e.httpStatus == 404 || e.code == .doesNotExist
  | _ => false

/-! ## The loop -/

structure BlockUploadTarget where
  bareUrl : String
  token : String
  index : Option Int
  thumbnailType : Option Int
  deriving DecidableEq, Repr

/-- One blob to store. `request` is what a new target is asked for with; a thumbnail has none. -/
structure UploadJob (ρ δ : Type) where
  index : Option Int
  ciphertext : Bytes
  digest : δ
  request : Option ρ
  target : BlockUploadTarget

structure StoragePost where
  url : String
  token : String
  blob : Bytes
  deriving DecidableEq, Repr

/-- The posts of one blob with what came back for each, and what the loop returns. -/
structure BlockUpload (T δ : Type) where
  posts : List (StoragePost × Except ProtonError (Buffered T))
  result : Except ProtonError (Option (Int × δ))

def maxBlockUploadAttempts : Nat := 3

def noTargetReturned : ProtonError :=
  .invalidOperation "block upload preparation returned no target"

section

variable {T ρ δ : Type} (policy : RetryPolicy) (network : Nat → StoragePost → Nat → Attempt T)
  (prepare : Nat → ρ → Except ProtonError (List BlockUploadTarget)) (job : UploadJob ρ δ)

/-- The target of the next attempt: a new one if the old one's token has expired. -/
def retarget (attempt : Nat) (target : BlockUploadTarget) (error : ProtonError) :
    Except ProtonError BlockUploadTarget :=
  if isUploadTimeout error then .ok target
  else if isExpiredUploadToken error then
    match job.request with
    | none => .ok target
    | some request =>
        match prepare attempt request with
        | .error e => .error e
        | .ok [] => .error noTargetReturned
        | .ok (fresh :: _) => .ok fresh
  else .ok target

/-- The attempts from number `attempt` on, of which `left` may follow. -/
def uploadAttempts : (left attempt : Nat) → BlockUploadTarget → BlockUpload T δ
  | left, attempt, target =>
      let sent : StoragePost := ⟨target.bareUrl, target.token, job.ciphertext⟩
      let posted := (sent, (sendRetrying policy .notSafe (network attempt sent)).2)
      match postStorageBlob policy (network attempt sent) with
      | .ok () => ⟨[posted], .ok (job.index.map (fun index => (index, job.digest)))⟩
      | .error error =>
          match left with
          | 0 => ⟨[posted], .error error⟩
          | left + 1 =>
              if !error.isRetriable then ⟨[posted], .error error⟩
              else
                match retarget prepare job attempt target error with
                | .error e => ⟨[posted], .error e⟩
                | .ok target' =>
                    let later := uploadAttempts left (attempt + 1) target'
                    ⟨posted :: later.posts, later.result⟩

def uploadOneBlock : BlockUpload T δ :=
  uploadAttempts policy network prepare job (maxBlockUploadAttempts - 1) 1 job.target

variable {policy network prepare job}

/-- A blob counts as uploaded only after a post whose response the storage call accepted, the last
of at most `left + 1`. -/
theorem uploadAttempts_ok {left attempt : Nat} {target : BlockUploadTarget}
    {stored : Option (Int × δ)}
    (h : (uploadAttempts policy network prepare job left attempt target).result = .ok stored) :
    stored = job.index.map (fun index => (index, job.digest)) ∧
    ∃ before sent r b,
      (uploadAttempts policy network prepare job left attempt target).posts =
        before ++ [(sent, .ok r)] ∧
      before.length ≤ left ∧ sent.blob = job.ciphertext ∧ checkStorage r = .ok b := by
  -- By induction on the attempts that are left: each failed one adds a post in front.
  induction left generalizing attempt target with
  | zero =>
      unfold uploadAttempts at h ⊢
      dsimp only at h ⊢
      split at h
      · next hpost =>
        obtain ⟨r, b, hsent, hcheck⟩ := postStorageBlob_eq_ok.mp hpost
        cases h
        rw [hsent]
        exact ⟨rfl, [], _, r, b, rfl, Nat.le_refl 0, rfl, hcheck⟩
      · next error hpost => cases h
  | succ left ih =>
      unfold uploadAttempts at h ⊢
      dsimp only at h ⊢
      split at h
      · next hpost =>
        obtain ⟨r, b, hsent, hcheck⟩ := postStorageBlob_eq_ok.mp hpost
        cases h
        rw [hsent]
        exact ⟨rfl, [], _, r, b, rfl, Nat.zero_le _, rfl, hcheck⟩
      · next error hpost =>
        split at h
        · cases h
        · next hretriable =>
          rw [if_neg hretriable]
          split at h
          · cases h
          · -- The next attempt goes to `target'`, with its own post after this one.
            next target' htarget =>
            obtain ⟨hstored, before, sent, r, b, hposts, hlength, hblob, hcheck⟩ := ih h
            rw [hposts]
            exact ⟨hstored, _ :: before, sent, r, b, rfl, Nat.succ_le_succ hlength, hblob, hcheck⟩

/-! ### Attempt by attempt -/

variable (prepare job) in
/-- After these failures, the last one first, attempt `n` follows with this target. -/
inductive Retried : (n : Nat) → BlockUploadTarget → List (BlockUploadTarget × ProtonError) → Prop
  | start : Retried 1 job.target []
  | again {n : Nat} {target target' : BlockUploadTarget} {error : ProtonError}
      {failed : List (BlockUploadTarget × ProtonError)} (h : Retried n target failed)
      (hmore : n < maxBlockUploadAttempts) (hretriable : error.isRetriable = true)
      (htarget : retarget prepare job n target error = .ok target') :
      Retried (n + 1) target' ((target, error) :: failed)

theorem Retried.number {n : Nat} {target : BlockUploadTarget}
    {failed : List (BlockUploadTarget × ProtonError)} (h : Retried prepare job n target failed) :
    n = failed.length + 1 := by
  induction h with
  | start => rfl
  | again _ _ _ _ ih => rw [ih, List.length_cons]

/-- Only the preparations of the attempts so far matter. -/
theorem Retried.congr {prepare' : Nat → ρ → Except ProtonError (List BlockUploadTarget)} {n : Nat}
    {target : BlockUploadTarget} {failed : List (BlockUploadTarget × ProtonError)}
    (h : Retried prepare job n target failed) (hsame : ∀ k < n, prepare' k = prepare k) :
    Retried prepare' job n target failed := by
  induction h with
  | start => exact .start
  | @again n _ _ _ _ _ hmore hretriable htarget ih =>
      refine .again (ih (fun k hk => hsame k (Nat.lt_succ_of_lt hk))) hmore hretriable ?_
      unfold retarget at htarget ⊢
      rw [hsame n (Nat.lt_succ_self n)]
      exact htarget

/-- A network that fails these attempts so brings the loop to the next one. -/
theorem uploadOneBlock_of_retried {n : Nat} {target : BlockUploadTarget}
    {failed : List (BlockUploadTarget × ProtonError)} (h : Retried prepare job n target failed)
    (hfailed : ∀ k t e, failed.reverse[k]? = some (t, e) →
      postStorageBlob policy (network (k + 1) ⟨t.bareUrl, t.token, job.ciphertext⟩) = .error e) :
    (uploadOneBlock policy network prepare job).result =
      (uploadAttempts policy network prepare job (maxBlockUploadAttempts - n) n target).result := by
  induction h with
  | start => rfl
  | @again n target target' error failed hprev hmore hretriable htarget ih =>
      -- The failure of this attempt is the one recorded at its place.
      have hpost : postStorageBlob policy
          (network n ⟨target.bareUrl, target.token, job.ciphertext⟩) = .error error := by
        rw [hprev.number]
        apply hfailed failed.length
        simp
      rw [ih]
      · -- Some attempt is left, so the loop goes round once more.
        obtain ⟨left, hleft⟩ := Nat.exists_eq_add_of_lt hmore
        have hthis : maxBlockUploadAttempts - n = left + 1 := by omega
        have hnext : maxBlockUploadAttempts - (n + 1) = left := by omega
        rw [hthis, hnext, uploadAttempts]
        simp only [hpost, hretriable, Bool.not_true, Bool.false_eq_true, if_false, htarget]
      · intro k t e hk
        apply hfailed k t e
        rw [List.reverse_cons, List.getElem?_append_left (List.getElem?_eq_some_iff.mp hk).1]
        exact hk

/-- The attempt that is accepted is the last one. -/
theorem uploadAttempts_of_accepted {left n : Nat} {target : BlockUploadTarget}
    (h : postStorageBlob policy (network n ⟨target.bareUrl, target.token, job.ciphertext⟩) = .ok ()) :
    (uploadAttempts policy network prepare job left n target).result =
      .ok (job.index.map (fun index => (index, job.digest))) := by
  rw [uploadAttempts.eq_def]
  simp only [h]

end

/-- A network whose every answer is this response lets a job end at its first post. -/
theorem uploadOneBlock_always {T ρ δ : Type} (r : Buffered T) {b : Body T}
    (prepare : Nat → ρ → Except ProtonError (List BlockUploadTarget)) (job : UploadJob ρ δ)
    (hcheck : checkStorage r = .ok b) :
    uploadOneBlock .disabled (fun _ _ => r.always) prepare job =
      ⟨[(⟨job.target.bareUrl, job.target.token, job.ciphertext⟩, .ok r)],
        .ok (job.index.map (fun index => (index, job.digest)))⟩ := by
  have hpost : postStorageBlob .disabled r.always = .ok () :=
    postStorageBlob_eq_ok.mpr ⟨r, b, sendRetrying_always r .notSafe, hcheck⟩
  unfold uploadOneBlock uploadAttempts
  dsimp only
  rw [hpost, sendRetrying_always]

/-! ## What is accepted -/

/-- A response is accepted only if it says so by status and envelope both: by the API calls exactly
if it does not come from a gateway or does not decode, by the storage calls exactly if it does not
come from a gateway, whatever the network does before it. -/
theorem accepted_only_on_success_iff {T ρ δ : Type} (r : Buffered T) (job : UploadJob ρ δ) :
    ((∀ policy replay refreshTokens refresh first second x,
        Http.exchanged policy replay refreshTokens refresh first second = .ok r →
        Http.send policy replay refreshTokens refresh first second = .ok x → r.Succeeded) ↔
      ¬ ((∃ x, r.body.payload = .ok x) ∧ r.Gateway Buffered.accepts)) ∧
    ((∀ policy attempts, (sendRetrying policy .notSafe attempts).2 = .ok r →
        postStorageBlob policy attempts = .ok () → r.Stored) ↔
      ¬ r.Gateway ApiResponse.isSuccess) ∧
    ((∀ policy network prepare before sent stored,
        (uploadOneBlock policy network prepare job).posts = before ++ [(sent, .ok r)] →
        (uploadOneBlock policy network prepare job).result = .ok stored → r.Stored) ↔
      ¬ r.Gateway ApiResponse.isSuccess) := by
  rw [← parseBuffered_succeeded_iff, ← checkStorage_stored_iff]
  refine ⟨⟨?_, ?_⟩, ⟨?_, ?_⟩, ⟨?_, ?_⟩⟩
  · -- A line that always answers `r` shows that nothing but `r` was looked at.
    intro h x hx
    have hend := Http.exchanged_always r .safe (.ok ()) r.always
    apply h _ _ _ _ _ _ x hend
    rw [Http.send_of_exchanged hend, hx]
  · intro h policy replay refreshTokens refresh first second x hend hx
    rw [Http.send_of_exchanged hend] at hx
    exact h x hx
  · -- For the post as well, without any retry.
    intro h b hb
    exact h .disabled r.always (sendRetrying_always r .notSafe)
      (postStorageBlob_eq_ok.mpr ⟨r, b, sendRetrying_always r .notSafe, hb⟩)
  · intro h policy attempts hsent hpost
    obtain ⟨r', b, hsent', hcheck⟩ := postStorageBlob_eq_ok.mp hpost
    rw [hsent] at hsent'
    cases hsent'
    exact h b hcheck
  · intro h b hb
    have hupload := uploadOneBlock_always r (fun _ _ => .error noTargetReturned) job hb
    apply h .disabled (fun _ _ => r.always) (fun _ _ => .error noTargetReturned) []
    · rw [hupload]
      rfl
    · rw [hupload]
  · -- The last post of the block is the one that was accepted.
    intro h policy network prepare before sent stored hposts hresult
    obtain ⟨-, before', sent', r', b, hposts', -, -, hcheck⟩ := uploadAttempts_ok hresult
    unfold uploadOneBlock at hposts
    rw [hposts] at hposts'
    obtain ⟨-, hlast⟩ := List.append_inj' hposts' rfl
    cases hlast
    exact h b hcheck

/-- A body that says success, passed on by a gateway under its own status. -/
def badGateway : Buffered Unit := ⟨502, some "Bad Gateway", ⟨some ⟨.success, none, none⟩, .ok ()⟩⟩

/-- A page of its own that a portal answers with in place of the storage. -/
def portalPage : Buffered Unit := ⟨200, some "OK", ⟨none, .error "expected value"⟩⟩

/-- Both are accepted, and the block that was posted counts as stored. -/
theorem gateway_accepted :
    (parseBuffered badGateway = .ok () ∧ ¬ badGateway.Succeeded) ∧
    postStorageBlob .disabled portalPage.always = .ok () ∧
    (uploadOneBlock .disabled (fun _ _ => portalPage.always)
        (fun _ (_ : Unit) => .error noTargetReturned)
        ⟨some 1, [0], "digest", some (), ⟨"storage/blocks", "token", some 1, none⟩⟩).result =
      .ok (some (1, "digest")) ∧
    ¬ portalPage.Stored := by
  have hstored : checkStorage portalPage = .ok portalPage.body := rfl
  refine ⟨⟨rfl, ?_⟩, ?_, ?_, ?_⟩
  · rintro ⟨hstatus, -⟩
    exact absurd hstatus (by decide)
  · exact postStorageBlob_eq_ok.mpr ⟨_, _, sendRetrying_always portalPage .notSafe, hstored⟩
  · rw [uploadOneBlock_always portalPage _ _ hstored]
    rfl
  · rintro ⟨-, envelope, henvelope, -⟩
    cases henvelope

end ProtonDrive
