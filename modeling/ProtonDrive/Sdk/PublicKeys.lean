import Mathlib.Logic.Function.Basic
import ProtonDrive.Lib.Program
import ProtonDrive.Sdk.Error

/-!
# Public keys by email

`public_keys` of the account client: a lookup that never fails, and what it found is remembered under
the email for good. So the answer to the first lookup of an email is the answer to all of them, also
if that lookup failed and was answered with no keys.

* `run_publicKeys` — what a sequence of calls returns, and what it asks the server.
* `keysCurrent_iff` — each call gives what the server has for the email exactly if the first lookup
  of that email did not fail, or the server has nothing to give.
-/

namespace ProtonDrive.PublicKeys

open Program (read modify)

/-! ## The call -/

structure PublicKeyEntry where
  /-- Status flags; bit 1 says that the key is not compromised. -/
  flags : BitVec 32
  publicKey : String
  deriving DecidableEq, Repr

def PublicKeyEntry.isNotCompromised (entry : PublicKeyEntry) : Bool := entry.flags &&& 1#32 != 0#32

/-- What the server would answer to a lookup of an email. -/
abbrev Answer := Except ProtonError (List PublicKeyEntry)

def hexDigit (n : Nat) : Char := if n < 10 then Char.ofNat (48 + n) else Char.ofNat (55 + n)

def isUnreserved (byte : UInt8) : Bool :=
  (65 ≤ byte && byte ≤ 90) || (97 ≤ byte && byte ≤ 122) || (48 ≤ byte && byte ≤ 57) ||
    byte == 45 || byte == 46 || byte == 95 || byte == 126

def encodeQueryComponent (value : String) : String :=
  String.ofList (value.toUTF8.toList.flatMap (fun byte =>
    if isUnreserved byte then [Char.ofNat byte.toNat]
    else ['%', hexDigit (byte.toNat / 16), hexDigit (byte.toNat % 16)]))

def keysPath (email : String) : String :=
  "core/v4/keys/all?InternalOnly=1&Email=" ++ encodeQueryComponent email

structure KeysRequest where
  email : String
  path : String
  answer : Answer

/-- The cache of the account client by email, and the lookups it sent with their answers. -/
structure State (K : Type) where
  publicKeys : String → Option (List K)
  requests : List KeysRequest

variable {K : Type}

def State.start : State K := ⟨fun _ => none, []⟩

/-- A call, with what the server would answer during it. -/
structure KeysCall where
  email : String
  answer : Answer

section

variable (fromArmored : String → Except String K)

/-- The keys that are not compromised and can be parsed. -/
def parsable (entries : List PublicKeyEntry) : List K :=
  (entries.filter PublicKeyEntry.isNotCompromised).filterMap
    (fun entry => (fromArmored entry.publicKey).toOption)

/-- A failed lookup yields no keys. -/
def keysOf : Answer → List K
  | .ok entries => parsable fromArmored entries
  | .error _ => []

def publicKeys (call : KeysCall) : Program (State K) ProtonError (List K) := do
  match ← read (fun s => s.publicKeys call.email) with
  | some keys => return keys
  | none =>
      let request : KeysRequest := ⟨call.email, keysPath call.email, call.answer⟩
      let keys := keysOf fromArmored request.answer
      modify (fun s =>
        { publicKeys := Function.update s.publicKeys call.email (some keys)
          requests := s.requests ++ [request] })
      return keys

end

/-! ## Runs -/

section

variable {fromArmored : String → Except String K}

/-- The lookup that an email's keys come from: the first one. -/
def firstCall (calls : List KeysCall) (email : String) : Option KeysCall :=
  calls.find? (fun call => call.email == email)

/-- The cache after these calls: each email that was looked up, with the answer to its first
lookup. -/
structure After (fromArmored : String → Except String K) (calls : List KeysCall) (s : State K) :
    Prop where
  cached : ∀ email, s.publicKeys email =
    (firstCall calls email).map (fun call => keysOf fromArmored call.answer)
  asked : ∀ email answer, (∃ request ∈ s.requests, request.email = email ∧
    request.answer = answer) ↔ ∃ call, firstCall calls email = some call ∧ call.answer = answer

theorem after_start : After fromArmored [] State.start := by
  constructor
  · intro email
    rfl
  · intro email answer
    simp [State.start, firstCall]

/-- A call returns what the first lookup of its email gave, itself if there was none. -/
theorem run_publicKeys {calls : List KeysCall} {s : State K} (h : After fromArmored calls s)
    (call : KeysCall) :
    ∃ s' first, (publicKeys fromArmored call).run s =
        some (s', .ok (keysOf fromArmored first.answer)) ∧
      firstCall (calls ++ [call]) call.email = some first ∧
      After fromArmored (calls ++ [call]) s' := by
  have hfirst : ∀ email, firstCall (calls ++ [call]) email =
      (firstCall calls email).or (if call.email == email then some call else none) := by
    intro email
    unfold firstCall
    rw [List.find?_append, List.find?_singleton]
  unfold publicKeys
  rw [Program.read_bind, h.cached call.email]
  cases hknown : firstCall calls call.email with
  | some first =>
      refine ⟨s, first, rfl, by rw [hfirst, hknown]; rfl, ?_⟩
      -- A second call for an email changes nothing about the first calls.
      have hsame : ∀ email, firstCall (calls ++ [call]) email = firstCall calls email := by
        intro email
        rw [hfirst]
        by_cases hemail : call.email = email
        · rw [← hemail, hknown]
          rfl
        · simp [hemail]
      constructor
      · intro email
        rw [hsame]
        exact h.cached email
      · intro email answer
        rw [hsame]
        exact h.asked email answer
  -- The first call for this email sends a request, whose answer is kept from then on.
  | none =>
      refine ⟨_, call, rfl, by rw [hfirst, hknown]; simp, ?_⟩
      constructor
      · intro email
        rw [hfirst]
        by_cases hemail : email = call.email
        · subst hemail
          simp [hknown]
        · simp [hemail, Ne.symm hemail, h.cached email]
      · intro email answer
        rw [hfirst]
        by_cases hemail : email = call.email
        · subst hemail
          have hnone : ¬ ∃ request ∈ s.requests, request.email = call.email ∧
              request.answer = answer := by
            rw [h.asked, hknown]
            -- No request for this email was sent before.
            simp
          simp only [List.mem_append, List.mem_singleton, hknown, Option.none_or, beq_self_eq_true,
            if_true, Option.some.injEq, exists_eq_left']
          constructor
          · rintro ⟨request, hmem | rfl, hr⟩
            · exact absurd ⟨request, hmem, hr⟩ hnone
            · exact hr.2
          · rintro rfl
            exact ⟨_, .inr rfl, rfl, rfl⟩
        · have hne : ¬ call.email = email := fun heq => hemail heq.symm
          simp only [beq_iff_eq, hne, if_false, Option.or_none]
          rw [← h.asked]
          constructor
          · rintro ⟨request, hmem, hr⟩
            rcases List.mem_append.mp hmem with hmem | hmem
            · exact ⟨request, hmem, hr⟩
            · obtain rfl := List.mem_singleton.mp hmem
              exact absurd hr.1 hne
          · rintro ⟨request, hmem, hr⟩
            exact ⟨request, List.mem_append_left _ hmem, hr⟩

/-- The keys that the first lookup of an email gave. -/
def keysFor (fromArmored : String → Except String K) (calls : List KeysCall) (email : String) :
    List K :=
  (firstCall calls email).elim [] (fun call => keysOf fromArmored call.answer)

/-- Later calls do not change what an email was answered with. -/
theorem firstCall_append {calls : List KeysCall} (later : List KeysCall) {email : String}
    {first : KeysCall} (h : firstCall calls email = some first) :
    firstCall (calls ++ later) email = some first := by
  unfold firstCall at h ⊢
  rw [List.find?_append, h]
  rfl

/-- A sequence of calls returns for each what the first lookup of its email gave. -/
theorem run_calls {before : List KeysCall} {s : State K} (h : After fromArmored before s)
    (calls : List KeysCall) :
    ∃ s', (Program.traverse (publicKeys fromArmored) calls).run s =
        some (s', .ok (calls.map
          (fun call => keysFor fromArmored (before ++ calls) call.email))) ∧
      After fromArmored (before ++ calls) s' := by
  -- By induction on the calls; the first of an email decides for all later ones.
  induction calls generalizing before s with
  | nil => exact ⟨s, rfl, by rwa [List.append_nil]⟩
  | cons call calls ih =>
      obtain ⟨s₁, first, hrun, hfirst, h₁⟩ := run_publicKeys h call
      obtain ⟨s₂, hrun₂, h₂⟩ := ih h₁
      rw [List.append_assoc, List.singleton_append] at hrun₂ h₂
      refine ⟨s₂, ?_, h₂⟩
      have hhead : keysFor fromArmored (before ++ call :: calls) call.email =
          keysOf fromArmored first.answer := by
        have hall := firstCall_append calls hfirst
        rw [List.append_assoc, List.singleton_append] at hall
        unfold keysFor
        rw [hall]
        rfl
      unfold Program.traverse
      rw [Program.bind_ok hrun, Program.bind_ok hrun₂, List.map_cons, hhead]
      rfl

/-- A call made while the server answers gives what the server has for the email, or what an earlier
lookup of it was answered with. -/
def KeysCurrent (fromArmored : String → Except String K) (requests : List KeysRequest)
    (call : KeysCall) (keys : List K) : Prop :=
  ∀ entries, call.answer = .ok entries → keys = parsable fromArmored entries ∨
    ∃ request ∈ requests, request.email = call.email ∧
      ∃ earlier, request.answer = .ok earlier ∧ keys = parsable fromArmored earlier

/-- The first lookup of the email was answered, or there is nothing to answer. -/
def NotForgotten (fromArmored : String → Except String K) (calls : List KeysCall)
    (call : KeysCall) : Prop :=
  ∀ entries first e, call.answer = .ok entries → firstCall calls call.email = some first →
    first.answer = .error e → parsable fromArmored entries = []

/-- The one lookup of an email is that of the first call with it. -/
theorem After.exists_firstCall {calls : List KeysCall} {s : State K} (h : After fromArmored calls s)
    {call : KeysCall} (hcall : call ∈ calls) :
    ∃ first, firstCall calls call.email = some first ∧
      ∀ answer, (∃ request ∈ s.requests, request.email = call.email ∧
        request.answer = answer) ↔ first.answer = answer := by
  obtain ⟨first, hfirst⟩ : ∃ first, firstCall calls call.email = some first := by
    rw [← Option.isSome_iff_exists]
    unfold firstCall
    rw [List.find?_isSome]
    exact ⟨call, hcall, beq_self_eq_true _⟩
  refine ⟨first, hfirst, ?_⟩
  intro answer
  rw [h.asked, hfirst]
  simp

theorem keysCurrent_iff {calls : List KeysCall} {s : State K} (h : After fromArmored calls s)
    {call : KeysCall} (hcall : call ∈ calls) :
    KeysCurrent fromArmored s.requests call (keysFor fromArmored calls call.email) ↔
      NotForgotten fromArmored calls call := by
  obtain ⟨first, hfirst, hasked⟩ := h.exists_firstCall hcall
  have hkeys : keysFor fromArmored calls call.email = keysOf fromArmored first.answer := by
    unfold keysFor
    rw [hfirst]
    rfl
  unfold KeysCurrent NotForgotten
  rw [hkeys]
  constructor
  · intro hcurrent entries first' e hanswer hfirst' herror
    rw [hfirst] at hfirst'
    cases hfirst'
    -- The first lookup failed, so the request sent was not answered with keys.
    rw [herror] at hcurrent hasked
    rcases hcurrent entries hanswer with hnow | ⟨request, hmem, hemail, earlier, hearlier, -⟩
    · exact hnow.symm
    · cases (hasked _).mp ⟨request, hmem, hemail, hearlier⟩
  · -- It went well, and the keys are those of a request that was answered.
    intro hforgotten entries hanswer
    cases hlookup : first.answer with
    | error e => exact .inl (hforgotten entries first e hanswer hfirst hlookup).symm
    | ok earlier =>
        obtain ⟨request, hmem, hemail, hrequest⟩ := (hasked _).mpr hlookup
        exact .inr ⟨request, hmem, hemail, earlier, hrequest, rfl⟩

end

end ProtonDrive.PublicKeys
