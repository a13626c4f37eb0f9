import Mathlib.Tactic.NormNum.Prime
import ProtonDrive.Lib.BigUint
import ProtonDrive.Lib.Except

/-!
# Logging in with a password

The client side of the SRP handshake: the password is hashed to a number `x`, the server knows
`v = 2 ^ x`, and both sides derive one secret from their ephemeral values and prove it to each
other.

* `finishProofs` — the secret of the client, with a subtraction and a reduced exponent.
* `serverProofs` — what the server derives from the verifier.
* `srp_agreement` — they are the same, and nothing underflows.
* `generateProofs_serverProofs` — so a login whose password fits the verifier is accepted.
-/

namespace ProtonDrive.Srp

abbrev Bytes := List UInt8

/-! ## Failures -/

inductive CryptoError where
  | parse (text : String)
  | unlock (text : String)
  | decrypt (text : String)
  | encrypt (text : String)
  | verification (text : String)
  deriving DecidableEq, Repr

/-- A computation returns an error, or it panics. -/
inductive Failure where
  | crypto (e : CryptoError)
  | panicked
  deriving DecidableEq, Repr

/-- Big integers panic where they have no answer. -/
def orPanic {α : Type} : Option α → Except Failure α
  | none => .error .panicked
  | some a => .ok a

@[simp] theorem orPanic_some {α : Type} (a : α) : orPanic (some a) = .ok a := rfl

/-! ## Hashes and signatures -/

/-- What other packages compute. -/
structure Primitives where
  sha512 : Bytes → Bytes
  /-- `bcrypt::hash_with_salt`, as the text `$2b$cost$saltAndHash`. -/
  bcrypt : Bytes → Nat → Bytes → Except String String
  base64Encode : Bytes → String
  base64Decode : String → Except String Bytes
  /-- The trimmed text of a cleartext message, signed with the key of the SRP modulus. -/
  verifiedText : String → Except CryptoError String

section Handshake

variable (p : Primitives)

def verifyAndDecodeModulus (signedModulus : String) : Except Failure Bytes :=
  match p.verifiedText signedModulus with
  | .error e => .error (.crypto e)
  | .ok text =>
      match p.base64Decode text with
      | .error e => .error (.crypto (.parse ("modulus base64: " ++ e)))
      | .ok modulus => .ok modulus

def expandHash (data : Bytes) : Bytes :=
  (List.range 4).flatMap (fun i => p.sha512 (data ++ [UInt8.ofNat i]))

/-- The password and the salt, with the variant tag of the bcrypt text set to `2y`. -/
def hashPasswordV3 (password salt modulus : Bytes) : Except Failure Bytes :=
  if salt.length + 6 ≠ 16 then
    .error (.crypto (.unlock
      ("SRP login salt must be 10 bytes, got " ++ toString salt.length)))
  else
    match p.bcrypt password 10 (salt ++ "proton".toUTF8.toList) with
    | .error e => .error (.crypto (.unlock ("bcrypt: " ++ e)))
    | .ok text =>
        match text.splitOn "$" with
        | [_, _, cost, tail] =>
            .ok (expandHash p (("$2y$" ++ cost ++ "$" ++ tail).toUTF8.toList ++ modulus))
        | _ => .error (.crypto (.unlock "unexpected bcrypt output"))

/-! ## Numbers and bytes -/

def fromLe (bytes : Bytes) : Nat := BigUint.fromBytesLe bytes

/-- Zero-padded to `byteLen`. -/
def toLeFixed (n byteLen : Nat) : Except Failure Bytes :=
  let v := BigUint.toBytesLe n
  if v.length > byteLen then .error (.crypto (.decrypt "SRP value exceeds group size"))
  else .ok (v ++ List.replicate (byteLen - v.length) 0)

/-! ## The verifier -/

structure SrpVerifier where
  salt : String
  verifier : String
  deriving DecidableEq, Repr

/-- `salt` is the outcome of the random generator. -/
def generateVerifier (salt : Except String Bytes) (password : Bytes) (signedModulus : String)
    (bitLength : Nat) : Except Failure SrpVerifier := do
  let byteLen := bitLength / 8
  let modulus ← verifyAndDecodeModulus p signedModulus
  match salt with
  | .error e => .error (.crypto (.decrypt ("rng: " ++ e)))
  | .ok salt =>
      let hashedPassword ← hashPasswordV3 p password salt modulus
      let n := fromLe modulus
      let x := fromLe hashedPassword
      let verifier ← orPanic (BigUint.modpow 2 x n)
      let verifierLe ← toLeFixed verifier byteLen
      .ok ⟨p.base64Encode salt, p.base64Encode verifierLe⟩

/-! ## The client -/

/-- The modulus and the ephemeral value of the server. The test of primality is skipped, since the
    modulus is signed. -/
def checkParams (bitLength n b : Nat) : Except Failure Unit :=
  if n.size ≠ bitLength then
    .error (.crypto (.verification "SRP modulus has wrong size"))
  else if n % 8 ≠ 3 then
    .error (.crypto (.verification "SRP modulus is not 3 mod 8"))
  else do
    let nMinus1 ← orPanic (BigUint.sub n 1)
    if b ≤ 1 ∨ b ≥ nMinus1 then
      .error (.crypto (.verification "SRP server ephemeral out of bounds"))
    else do
      let lucas ← orPanic (BigUint.modpow 2 (nMinus1 / 2) n)
      if lucas ≠ nMinus1 then .error (.crypto (.verification "SRP modulus is not prime"))
      else .ok ()

/-- The secret, the ephemeral value and the scrambling value of the client. -/
structure Ephemeral where
  secret : Nat
  aBytes : Bytes
  scrambling : Nat

/-- One turn of the loop of `generate_ephemeral`: `none` draws again. -/
def tryEphemeral (bitLength n nMinus1 : Nat) (serverEphemeral buf : Bytes) :
    Except Failure (Option Ephemeral) := do
  let secret ← orPanic (BigUint.rem (fromLe buf) nMinus1)
  if secret ≤ bitLength * 2 ∨ secret ≥ nMinus1 then .ok none
  else do
    let a ← orPanic (BigUint.modpow 2 secret n)
    let aBytes ← toLeFixed a (bitLength / 8)
    let scrambling := fromLe (expandHash p (aBytes ++ serverEphemeral))
    if scrambling.size = 0 then .ok none
    else .ok (some ⟨secret, aBytes, scrambling⟩)

/-- Over the outcomes of the random generator; `none` while the loop is still running. -/
def generateEphemeral (bitLength n nMinus1 : Nat) (serverEphemeral : Bytes) :
    List (Except String Bytes) → Option (Except Failure Ephemeral)
  | [] => none
  | .error e :: _ => some (.error (.crypto (.decrypt ("rng: " ++ e))))
  | .ok buf :: draws =>
      match tryEphemeral p bitLength n nMinus1 serverEphemeral buf with
      | .error e => some (.error e)
      | .ok (some found) => some (.ok found)
      | .ok none => generateEphemeral bitLength n nMinus1 serverEphemeral draws

structure SrpProofs where
  clientEphemeral : Bytes
  clientProof : Bytes
  expectedServerProof : Bytes
  deriving DecidableEq, Repr

/-- The first half of `finish_proofs`: `(B - k * 2 ^ x) ^ (u * x + a)`, modulo `n`. -/
def sessionSecret (n nMinus1 k x b secret scrambling : Nat) : Except Failure Nat := do
  let gx ← orPanic (BigUint.modpow 2 x n)
  let kgx ← orPanic (BigUint.rem (k * gx) n)
  let difference ← orPanic (BigUint.sub (b + n) kgx)
  let base ← orPanic (BigUint.rem difference n)
  let exponent ← orPanic (BigUint.rem (scrambling * x + secret) nMinus1)
  orPanic (BigUint.modpow base exponent n)

def finishProofs (n nMinus1 byteLen k x : Nat) (serverEphemeral : Bytes) (secret : Nat)
    (aBytes : Bytes) (scrambling : Nat) : Except Failure SrpProofs := do
  let shared ← sessionSecret n nMinus1 k x (fromLe serverEphemeral) secret scrambling
  let sharedBytes ← toLeFixed shared byteLen
  let clientProof := expandHash p (aBytes ++ serverEphemeral ++ sharedBytes)
  let expectedServerProof := expandHash p (aBytes ++ clientProof ++ sharedBytes)
  .ok ⟨aBytes, clientProof, expectedServerProof⟩

/-- The multiplier `k`, from the generator and the modulus. -/
def multiplier (n byteLen : Nat) : Except Failure Nat := do
  let g ← toLeFixed 2 byteLen
  let modulus ← toLeFixed n byteLen
  orPanic (BigUint.rem (fromLe (expandHash p (g ++ modulus))) n)

/-- Everything before the random secret: the modulus, its predecessor, `k` and `x`. -/
def prepareProofs (version : Int) (password salt : Bytes) (signedModulus : String)
    (serverEphemeral : Bytes) (bitLength : Nat) : Except Failure (Nat × Nat × Nat × Nat) :=
  if version < 3 then
    .error (.crypto (.unlock ("unsupported SRP auth version " ++ toString version)))
  else do
    let modulus ← verifyAndDecodeModulus p signedModulus
    let hashedPassword ← hashPasswordV3 p password salt modulus
    let n := fromLe modulus
    checkParams bitLength n (fromLe serverEphemeral)
    let nMinus1 ← orPanic (BigUint.sub n 1)
    let k ← multiplier p n (bitLength / 8)
    if k ≤ 1 ∨ k ≥ nMinus1 then
      .error (.crypto (.verification "SRP multiplier out of bounds"))
    else .ok (n, nMinus1, k, fromLe hashedPassword)

def generateProofs (version : Int) (password salt : Bytes) (signedModulus : String)
    (serverEphemeral : Bytes) (bitLength : Nat) (draws : List (Except String Bytes)) :
    Option (Except Failure SrpProofs) :=
  match prepareProofs p version password salt signedModulus serverEphemeral bitLength with
  | .error e => some (.error e)
  | .ok (n, nMinus1, k, x) =>
      match generateEphemeral p bitLength n nMinus1 serverEphemeral draws with
      | none => none
      | some (.error e) => some (.error e)
      | some (.ok found) =>
          some (finishProofs p n nMinus1 (bitLength / 8) k x serverEphemeral found.secret
            found.aBytes found.scrambling)

/-! ## The server -/

/-- What the server derives from the verifier `v`, its secret `b` and the ephemeral value it got. -/
def serverSecret (n v a u b : Nat) : Nat := (a * v ^ u) ^ b % n

def serverProofs (n byteLen v b : Nat) (serverEphemeral aBytes : Bytes) (u : Nat) :
    Except Failure SrpProofs := do
  let sharedBytes ← toLeFixed (serverSecret n v (fromLe aBytes) u b) byteLen
  let clientProof := expandHash p (aBytes ++ serverEphemeral ++ sharedBytes)
  let serverProof := expandHash p (aBytes ++ clientProof ++ sharedBytes)
  .ok ⟨aBytes, clientProof, serverProof⟩

/-! ## Bytes of a fixed length -/

theorem fromLe_toLeFixed {n byteLen : Nat} {bytes : Bytes} (h : toLeFixed n byteLen = .ok bytes) :
    fromLe bytes = n := by
  unfold toLeFixed at h
  simp only [] at h
  split at h
  · exact nomatch h
  · cases h
    unfold fromLe
    rw [BigUint.fromBytesLe_append_zeros, BigUint.fromBytesLe_toBytesLe]

theorem toLeFixed_ok {n byteLen : Nat} (hpos : 0 < byteLen) (h : n < 256 ^ byteLen) :
    ∃ bytes, toLeFixed n byteLen = .ok bytes := by
  have hfits := BigUint.length_toBytesLe_le hpos h
  exact ⟨_, if_neg (Nat.not_lt.mpr hfits)⟩

theorem toLeFixed_ne_panicked (n byteLen : Nat) : toLeFixed n byteLen ≠ .error .panicked := by
  unfold toLeFixed
  simp only []
  split
  · simp
  · simp

/-! ## Accepted parameters -/

/-- What the checks establish. -/
structure Accepted (bitLength n b : Nat) : Prop where
  size : n.size = bitLength
  mod_eight : n % 8 = 3
  one_lt : 1 < b
  lt_pred : b < n - 1
  lucas : 2 ^ ((n - 1) / 2) % n = n - 1

theorem checkParams_eq_ok_iff (bitLength n b : Nat) :
    checkParams bitLength n b = .ok () ↔ Accepted bitLength n b := by
  unfold checkParams
  by_cases hsize : n.size = bitLength
  · by_cases hmod : n % 8 = 3
    · -- a modulus of this form is not zero, so neither of the operations stops
      have hpos : 0 < n := by omega
      rw [if_neg (by simp [hsize]), if_neg (by simp [hmod]), BigUint.sub_of_le hpos]
      simp only [orPanic_some, bind, Except.bind, BigUint.modpow_of_pos _ _ hpos]
      by_cases hbounds : b ≤ 1 ∨ b ≥ n - 1
      · rw [if_pos hbounds]
        simp only [reduceCtorEq, false_iff]
        intro h
        rcases hbounds with hlow | hhigh
        · exact absurd h.one_lt (Nat.not_lt.mpr hlow)
        · exact absurd h.lt_pred (Nat.not_lt.mpr hhigh)
      · rw [if_neg hbounds]
        by_cases hlucas : 2 ^ ((n - 1) / 2) % n = n - 1
        · rw [if_neg (by simp [hlucas])]
          simp only [true_iff]
          push Not at hbounds
          exact ⟨hsize, hmod, hbounds.1, hbounds.2, hlucas⟩
        · rw [if_pos hlucas]
          simp only [reduceCtorEq, false_iff]
          intro h
          exact hlucas h.lucas
    · rw [if_neg (by simp [hsize]), if_pos hmod]
      simp only [reduceCtorEq, false_iff]
      intro h
      exact hmod h.mod_eight
  · rw [if_pos hsize]
    simp only [reduceCtorEq, false_iff]
    intro h
    exact hsize h.size

theorem checkParams_ne_panicked (bitLength n b : Nat) :
    checkParams bitLength n b ≠ .error .panicked := by
  unfold checkParams
  split
  · simp
  · split
    · simp
    · next hmod =>
      have hpos : 0 < n := by omega
      rw [BigUint.sub_of_le hpos]
      simp only [orPanic_some, bind, Except.bind, BigUint.modpow_of_pos _ _ hpos]
      split
      · simp
      · split
        · simp
        · simp

/-! ## The session secret -/

/-- No operation on the way to the secret stops, whatever the server sent. -/
theorem sessionSecret_eq {n : Nat} (hn : 1 < n) (k x b a u : Nat) :
    sessionSecret n (n - 1) k x b a u =
      .ok (((b + n - k * (2 ^ x % n) % n) % n) ^ ((u * x + a) % (n - 1)) % n) := by
  have hpos : 0 < n := by omega
  have hpred : 0 < n - 1 := by omega
  -- the subtrahend is a residue, and the modulus has been added
  have hle : k * (2 ^ x % n) % n ≤ b + n := by
    have hlt := Nat.mod_lt (k * (2 ^ x % n)) hpos
    omega
  simp only [sessionSecret, BigUint.modpow_of_pos _ _ hpos, BigUint.rem_of_pos _ hpos,
    BigUint.rem_of_pos _ hpred, orPanic_some, bind, Except.bind, BigUint.sub_of_le hle]

/-- The subtraction takes the masked verifier off again. -/
theorem cast_base {n k x b B : Nat} [NeZero n] (hB : B = (k * (2 ^ x % n) + 2 ^ b) % n) :
    (((B + n - k * (2 ^ x % n) % n) % n : Nat) : ZMod n) = 2 ^ b := by
  have hpos : 0 < n := Nat.pos_of_neZero n
  have hle : k * (2 ^ x % n) % n ≤ B + n := by
    have hlt := Nat.mod_lt (k * (2 ^ x % n)) hpos
    omega
  rw [ZMod.natCast_mod, Nat.cast_sub hle, hB]
  simp only [Nat.cast_add, ZMod.natCast_mod, ZMod.natCast_self, add_zero, Nat.cast_mul,
    Nat.cast_pow, Nat.cast_ofNat]
  ring

theorem clientSecret_eq_serverSecret {n : Nat} (hprime : n.Prime) (hodd : n % 2 = 1)
    {k x b B : Nat} (hB : B = (k * (2 ^ x % n) + 2 ^ b) % n) (a u : Nat) :
    ((B + n - k * (2 ^ x % n) % n) % n) ^ ((u * x + a) % (n - 1)) % n =
      serverSecret n (2 ^ x % n) (2 ^ a % n) u b := by
  have : Fact n.Prime := ⟨hprime⟩
  have : NeZero n := ⟨hprime.ne_zero⟩
  have htwo : (2 : ZMod n) ≠ 0 := by
    intro h
    have hdvd : n ∣ 2 := (ZMod.natCast_eq_zero_iff 2 n).mp (by exact_mod_cast h)
    have hle := Nat.le_of_dvd (by norm_num) hdvd
    have hlt := hprime.two_le
    omega
  have hbase : (2 : ZMod n) ^ b ≠ 0 := pow_ne_zero b htwo
  apply BigUint.mod_eq_of_cast_eq
  rw [Nat.cast_pow, cast_base hB, BigUint.pow_mod_pred hbase]
  simp only [Nat.cast_pow, Nat.cast_mul, ZMod.natCast_mod, Nat.cast_ofNat]
  calc ((2 : ZMod n) ^ b) ^ (u * x + a) = 2 ^ (b * (u * x + a)) := (pow_mul _ _ _).symm
    _ = 2 ^ ((a + x * u) * b) := by ring_nf
    _ = (2 ^ a * (2 ^ x) ^ u) ^ b := by rw [pow_mul, pow_add, pow_mul 2 x u]

/-! ## Proofs -/

theorem Accepted.one_lt_modulus {bitLength n b : Nat} (h : Accepted bitLength n b) : 1 < n := by
  have hmod := h.mod_eight
  omega

/-- In whole bytes, every residue has room. -/
theorem Accepted.toLeFixed_ok {bitLength n b : Nat} (h : Accepted bitLength n b)
    (hbytes : 8 ∣ bitLength) (m : Nat) : ∃ bytes, toLeFixed (m % n) (bitLength / 8) = .ok bytes := by
  obtain ⟨byteLen, rfl⟩ := hbytes
  have hn := h.one_lt_modulus
  have hsize := h.size
  have hbound : n < 2 ^ (8 * byteLen) := hsize ▸ Nat.lt_size_self n
  have hpos : 0 < byteLen := by
    rcases Nat.eq_zero_or_pos byteLen with rfl | hpos
    · simp at hbound
      omega
    · exact hpos
  rw [Nat.mul_div_cancel_left byteLen (by norm_num)]
  apply Srp.toLeFixed_ok hpos
  calc m % n < n := Nat.mod_lt m (by omega)
    _ < 2 ^ (8 * byteLen) := hbound
    _ = 256 ^ byteLen := by rw [pow_mul]; norm_num

theorem Accepted.sessionSecret {bitLength n k x b B : Nat} (h : Accepted bitLength n B)
    (hprime : n.Prime) (hB : B = (k * (2 ^ x % n) + 2 ^ b) % n) (a u : Nat) :
    sessionSecret n (n - 1) k x B a u = .ok (serverSecret n (2 ^ x % n) (2 ^ a % n) u b) := by
  have hmod := h.mod_eight
  rw [sessionSecret_eq h.one_lt_modulus, clientSecret_eq_serverSecret hprime (by omega) hB]

theorem Accepted.finishProofs {bitLength n k x a b byteLen : Nat} {serverEphemeral aBytes : Bytes}
    (h : Accepted bitLength n (fromLe serverEphemeral)) (hprime : n.Prime)
    (hB : fromLe serverEphemeral = (k * (2 ^ x % n) + 2 ^ b) % n) (ha : fromLe aBytes = 2 ^ a % n)
    (u : Nat) :
    finishProofs p n (n - 1) byteLen k x serverEphemeral a aBytes u =
      serverProofs p n byteLen (2 ^ x % n) b serverEphemeral aBytes u := by
  unfold Srp.finishProofs serverProofs
  rw [h.sessionSecret hprime hB, ha]
  rfl

/-! ## Nothing panics -/

section Panics

variable {p}

theorem orPanic_rem_ne_panicked {n : Nat} (a : Nat) (h : 0 < n) :
    orPanic (BigUint.rem a n) ≠ .error .panicked := by
  rw [BigUint.rem_of_pos a h]
  simp

theorem orPanic_modpow_ne_panicked {n : Nat} (g e : Nat) (h : 0 < n) :
    orPanic (BigUint.modpow g e n) ≠ .error .panicked := by
  rw [BigUint.modpow_of_pos g e h]
  simp

theorem verifyAndDecodeModulus_ne_panicked (signedModulus : String) :
    verifyAndDecodeModulus p signedModulus ≠ .error .panicked := by
  unfold verifyAndDecodeModulus
  split
  · simp
  · split
    · simp
    · simp

theorem hashPasswordV3_ne_panicked (password salt modulus : Bytes) :
    hashPasswordV3 p password salt modulus ≠ .error .panicked := by
  unfold hashPasswordV3
  split
  · simp
  · split
    · simp
    · split
      · simp
      · simp

theorem tryEphemeral_ne_panicked {n : Nat} (hn : 1 < n) (bitLength : Nat)
    (serverEphemeral buf : Bytes) :
    tryEphemeral p bitLength n (n - 1) serverEphemeral buf ≠ .error .panicked := by
  apply Except.bind_ne_error
  · exact orPanic_rem_ne_panicked _ (by omega)
  · intro secret _
    split
    · simp
    · apply Except.bind_ne_error
      · exact orPanic_modpow_ne_panicked _ _ (by omega)
      · intro a _
        apply Except.bind_ne_error
        · exact toLeFixed_ne_panicked _ _
        · intro aBytes _
          simp only []
          split
          · simp
          · simp

theorem generateEphemeral_ne_panicked {n : Nat} (hn : 1 < n) (bitLength : Nat)
    (serverEphemeral : Bytes) (draws : List (Except String Bytes)) :
    generateEphemeral p bitLength n (n - 1) serverEphemeral draws ≠ some (.error .panicked) := by
  induction draws with
  | nil => simp [generateEphemeral]
  | cons draw draws ih =>
      cases draw with
      | error e => simp [generateEphemeral]
      | ok buf =>
          unfold generateEphemeral
          cases hbuf : tryEphemeral p bitLength n (n - 1) serverEphemeral buf with
          | error e =>
              intro h
              cases h
              exact tryEphemeral_ne_panicked hn bitLength serverEphemeral buf hbuf
          | ok found =>
              cases found with
              | some found => simp
              | none => exact ih

theorem multiplier_ne_panicked {n : Nat} (hn : 0 < n) (byteLen : Nat) :
    multiplier p n byteLen ≠ .error .panicked := by
  apply Except.bind_ne_error
  · exact toLeFixed_ne_panicked _ _
  · intro g _
    apply Except.bind_ne_error
    · exact toLeFixed_ne_panicked _ _
    · intro modulus _
      exact orPanic_rem_ne_panicked _ hn

theorem finishProofs_ne_panicked {n : Nat} (hn : 1 < n) (byteLen k x : Nat)
    (serverEphemeral : Bytes) (a : Nat) (aBytes : Bytes) (u : Nat) :
    finishProofs p n (n - 1) byteLen k x serverEphemeral a aBytes u ≠ .error .panicked := by
  apply Except.bind_ne_error
  · rw [sessionSecret_eq hn]
    simp
  · intro shared _
    apply Except.bind_ne_error
    · exact toLeFixed_ne_panicked _ _
    · intro sharedBytes _
      simp

theorem prepareProofs_ne_panicked (version : Int) (password salt : Bytes) (signedModulus : String)
    (serverEphemeral : Bytes) (bitLength : Nat) :
    prepareProofs p version password salt signedModulus serverEphemeral bitLength ≠
      .error .panicked := by
  unfold prepareProofs
  split
  · simp
  · apply Except.bind_ne_error (verifyAndDecodeModulus_ne_panicked signedModulus)
    intro modulus _
    apply Except.bind_ne_error (hashPasswordV3_ne_panicked password salt modulus)
    intro hashedPassword _
    apply Except.bind_ne_error (checkParams_ne_panicked _ _ _)
    intro _ hchecked
    -- what the checks let through is larger than one
    have hn := ((checkParams_eq_ok_iff _ _ _).mp hchecked).one_lt_modulus
    apply Except.bind_ne_error
    · rw [BigUint.sub_of_le (by omega)]
      simp
    · intro nMinus1 _
      apply Except.bind_ne_error (multiplier_ne_panicked (by omega) _)
      intro k _
      split
      · simp
      · simp

/-- What is known once the random secret is drawn. -/
theorem prepareProofs_eq_ok {version : Int} {password salt : Bytes} {signedModulus : String}
    {serverEphemeral : Bytes} {bitLength n nMinus1 k x : Nat}
    (h : prepareProofs p version password salt signedModulus serverEphemeral bitLength =
      .ok (n, nMinus1, k, x)) :
    ∃ modulus hashed, verifyAndDecodeModulus p signedModulus = .ok modulus ∧
      hashPasswordV3 p password salt modulus = .ok hashed ∧
      n = fromLe modulus ∧ x = fromLe hashed ∧ nMinus1 = n - 1 ∧
      multiplier p n (bitLength / 8) = .ok k ∧ Accepted bitLength n (fromLe serverEphemeral) := by
  unfold prepareProofs at h
  split at h
  · exact nomatch h
  · obtain ⟨modulus, hmodulus, h⟩ := Except.bind_eq_ok.mp h
    obtain ⟨hashed, hhashed, h⟩ := Except.bind_eq_ok.mp h
    obtain ⟨_, hchecked, h⟩ := Except.bind_eq_ok.mp h
    have haccepted := (checkParams_eq_ok_iff _ _ _).mp hchecked
    -- A modulus that is accepted is above one, so that the subtraction cannot panic.
    have hn := haccepted.one_lt_modulus
    rw [BigUint.sub_of_le (by omega), orPanic_some] at h
    obtain ⟨_, hpred, h⟩ := Except.bind_eq_ok.mp h
    cases hpred
    obtain ⟨k', hk, h⟩ := Except.bind_eq_ok.mp h
    split at h
    · exact nomatch h
    · cases h
      exact ⟨modulus, hashed, hmodulus, hhashed, rfl, rfl, rfl, hk, haccepted⟩

/-- Whatever the server and the random generator give, no operation of a login panics. -/
theorem generateProofs_ne_panicked (version : Int) (password salt : Bytes) (signedModulus : String)
    (serverEphemeral : Bytes) (bitLength : Nat) (draws : List (Except String Bytes)) :
    generateProofs p version password salt signedModulus serverEphemeral bitLength draws ≠
      some (.error .panicked) := by
  unfold generateProofs
  cases hprepared :
      prepareProofs p version password salt signedModulus serverEphemeral bitLength with
  | error e =>
      intro h
      cases h
      exact prepareProofs_ne_panicked _ _ _ _ _ _ hprepared
  | ok prepared =>
      obtain ⟨n, nMinus1, k, x⟩ := prepared
      -- Once the preparation went well the parameters are accepted, and nothing later panics.
      obtain ⟨_, _, _, _, _, _, rfl, _, haccepted⟩ := prepareProofs_eq_ok hprepared
      have hn := haccepted.one_lt_modulus
      simp only []
      split
      · simp
      · next e he =>
        intro h
        cases h
        exact generateEphemeral_ne_panicked hn _ _ _ he
      · intro h
        exact finishProofs_ne_panicked hn _ _ _ _ _ _ _ (Option.some.inj h)

end Panics

/-! ## Agreement -/

/-- For every prime modulus that is accepted, the secret of the client is that of the server, the
    proofs are the same on both sides and exist where the group is given in whole bytes, and no
    operation stops: neither for any other value below the modulus in place of that of the server,
    nor in any login. -/
theorem srp_agreement {bitLength n : Nat} (hprime : n.Prime) {serverEphemeral : Bytes}
    (k x a b u : Nat) (hB : fromLe serverEphemeral = (k * (2 ^ x % n) + 2 ^ b) % n)
    (haccepted : checkParams bitLength n (fromLe serverEphemeral) = .ok ()) :
    sessionSecret n (n - 1) k x (fromLe serverEphemeral) a u =
        .ok ((2 ^ a % n * (2 ^ x % n) ^ u) ^ b % n) ∧
    (∀ aBytes, fromLe aBytes = 2 ^ a % n →
      finishProofs p n (n - 1) (bitLength / 8) k x serverEphemeral a aBytes u =
        serverProofs p n (bitLength / 8) (2 ^ x % n) b serverEphemeral aBytes u) ∧
    (8 ∣ bitLength → ∃ aBytes proofs, toLeFixed (2 ^ a % n) (bitLength / 8) = .ok aBytes ∧
      finishProofs p n (n - 1) (bitLength / 8) k x serverEphemeral a aBytes u = .ok proofs) ∧
    (∀ B < n, ∃ shared, sessionSecret n (n - 1) k x B a u = .ok shared) ∧
    (∀ version password salt signedModulus other otherLength draws,
      generateProofs p version password salt signedModulus other otherLength draws ≠
        some (.error .panicked)) := by
  have h := (checkParams_eq_ok_iff _ _ _).mp haccepted
  have hsecret := h.sessionSecret hprime hB a u
  refine ⟨hsecret, ?_, ?_, ?_, ?_⟩
  · -- The client's proofs are those of the server: the two compute one secret.
    intro aBytes ha
    exact h.finishProofs p hprime hB ha u
  · -- The lengths suffice for all values below the modulus.
    intro hbytes
    obtain ⟨aBytes, ha⟩ := h.toLeFixed_ok hbytes (2 ^ a)
    obtain ⟨shared, hshared⟩ := h.toLeFixed_ok hbytes ((2 ^ a % n * (2 ^ x % n) ^ u) ^ b)
    have hproofs : ∃ proofs, finishProofs p n (n - 1) (bitLength / 8) k x serverEphemeral a aBytes u
        = .ok proofs := by
      rw [h.finishProofs p hprime hB (fromLe_toLeFixed ha), serverProofs, serverSecret,
        fromLe_toLeFixed ha, hshared]
      exact ⟨_, rfl⟩
    obtain ⟨proofs, hproofs⟩ := hproofs
    exact ⟨aBytes, proofs, ha, hproofs⟩
  · -- The client's side never reads a server ephemeral that would make it panic.
    intro B _
    exact ⟨_, sessionSecret_eq h.one_lt_modulus k x B a u⟩
  · intro version password salt signedModulus other otherLength draws
    exact generateProofs_ne_panicked _ _ _ _ _ _ _

/-- A checksum of 64 bytes in place of the hash. -/
def Primitives.sample : Primitives where
  sha512 := fun data => List.replicate 64 (UInt8.ofNat (data.map UInt8.toNat).sum)
  bcrypt := fun _ _ _ => .ok "$2b$10$hash"
  base64Encode := fun _ => ""
  base64Decode := fun _ => .ok []
  verifiedText := fun _ => .ok ""

/-- A group of one byte: the modulus 131, the multiplier 3 and `x = 5`. -/
theorem srp_agreement_131 :
    sessionSecret 131 130 3 5 93 9 6 = .ok ((119 * 32 ^ 6) ^ 7 % 131) ∧
      ∃ aBytes proofs, toLeFixed 119 1 = .ok aBytes ∧
        finishProofs Primitives.sample 131 130 1 3 5 [93] 9 aBytes 6 = .ok proofs := by
  have hprime : Nat.Prime 131 := by norm_num
  have hB : fromLe [93] = (3 * (2 ^ 5 % 131) + 2 ^ 7) % 131 := by decide
  have haccepted : checkParams 8 131 (fromLe [93]) = .ok () := by decide
  have h := srp_agreement Primitives.sample hprime 3 5 9 7 6 hB haccepted
  exact ⟨h.1, h.2.2.1 (by decide)⟩

/-- What the loop draws: the ephemeral value of its secret, and the scrambling value of both. -/
theorem generateEphemeral_eq_ok {bitLength n : Nat} (hn : 0 < n) {nMinus1 : Nat}
    {serverEphemeral : Bytes} {found : Ephemeral} (draws : List (Except String Bytes))
    (h : generateEphemeral p bitLength n nMinus1 serverEphemeral draws = some (.ok found)) :
    fromLe found.aBytes = 2 ^ found.secret % n ∧
      found.scrambling = fromLe (expandHash p (found.aBytes ++ serverEphemeral)) := by
  -- By induction on the draws; one that is out of range is drawn anew.
  induction draws with
  | nil => exact nomatch h
  | cons draw draws ih =>
      cases draw with
      | error e => exact nomatch h
      | ok buf =>
          unfold generateEphemeral at h
          cases hbuf : tryEphemeral p bitLength n nMinus1 serverEphemeral buf with
          | error e =>
              rw [hbuf] at h
              exact nomatch h
          | ok drawn =>
              rw [hbuf] at h
              cases drawn with
              | none => exact ih h
              | some drawn =>
                  cases h
                  obtain ⟨secret, _, hbuf⟩ := Except.bind_eq_ok.mp hbuf
                  split at hbuf
                  · exact nomatch hbuf
                  · rw [BigUint.modpow_of_pos _ _ hn, orPanic_some] at hbuf
                    obtain ⟨_, ha, hbuf⟩ := Except.bind_eq_ok.mp hbuf
                    cases ha
                    obtain ⟨aBytes, hbytes, hbuf⟩ := Except.bind_eq_ok.mp hbuf
                    simp only [] at hbuf
                    split at hbuf
                    · exact nomatch hbuf
                    · cases hbuf
                      exact ⟨fromLe_toLeFixed hbytes, rfl⟩

/-- The verifier is `2 ^ x` for the hash of the password. -/
theorem generateVerifier_eq_ok {salt password : Bytes} {signedModulus : String} {bitLength : Nat}
    {verifier : SrpVerifier} {modulus hashed : Bytes}
    (h : generateVerifier p (.ok salt) password signedModulus bitLength = .ok verifier)
    (hmodulus : verifyAndDecodeModulus p signedModulus = .ok modulus)
    (hhashed : hashPasswordV3 p password salt modulus = .ok hashed) :
    ∃ bytes, verifier.verifier = p.base64Encode bytes ∧
      fromLe bytes = 2 ^ fromLe hashed % fromLe modulus := by
  obtain ⟨_, hmodulus', h⟩ := Except.bind_eq_ok.mp h
  cases hmodulus.symm.trans hmodulus'
  obtain ⟨_, hhashed', h⟩ := Except.bind_eq_ok.mp h
  cases hhashed.symm.trans hhashed'
  obtain ⟨v, hv, h⟩ := Except.bind_eq_ok.mp h
  obtain ⟨bytes, hbytes, h⟩ := Except.bind_eq_ok.mp h
  cases h
  refine ⟨bytes, rfl, ?_⟩
  rw [fromLe_toLeFixed hbytes]
  -- A modulus of zero would make the power panic.
  unfold BigUint.modpow at hv
  split at hv
  · exact nomatch hv
  · cases hv
    rfl

/-- A login with the password and the salt of the verifier: the server derives the proofs that the
    client sent and expects. -/
theorem generateProofs_serverProofs {version : Int} {password salt serverEphemeral modulus : Bytes}
    {signedModulus : String} {bitLength b k : Nat} {draws : List (Except String Bytes)}
    {verifier : SrpVerifier} {proofs : SrpProofs} {vBytes : Bytes}
    (hbase64 : ∀ bytes, p.base64Decode (p.base64Encode bytes) = .ok bytes)
    (hverifier : generateVerifier p (.ok salt) password signedModulus bitLength = .ok verifier)
    (hmodulus : verifyAndDecodeModulus p signedModulus = .ok modulus)
    (hprime : (fromLe modulus).Prime) (hk : multiplier p (fromLe modulus) (bitLength / 8) = .ok k)
    (hv : p.base64Decode verifier.verifier = .ok vBytes)
    (hB : fromLe serverEphemeral = (k * fromLe vBytes + 2 ^ b) % fromLe modulus)
    (hdone : generateProofs p version password salt signedModulus serverEphemeral bitLength draws =
      some (.ok proofs)) :
    serverProofs p (fromLe modulus) (bitLength / 8) (fromLe vBytes) b serverEphemeral
        proofs.clientEphemeral
        (fromLe (expandHash p (proofs.clientEphemeral ++ serverEphemeral))) = .ok proofs := by
  unfold generateProofs at hdone
  cases hprepared :
      prepareProofs p version password salt signedModulus serverEphemeral bitLength with
  | error e =>
      rw [hprepared] at hdone
      exact nomatch hdone
  | ok prepared =>
      obtain ⟨n, nMinus1, k', x⟩ := prepared
      rw [hprepared] at hdone
      obtain ⟨_, hashed, hmodulus', hhashed, rfl, rfl, rfl, hk', haccepted⟩ :=
        prepareProofs_eq_ok hprepared
      cases hmodulus.symm.trans hmodulus'
      cases hk.symm.trans hk'
      obtain ⟨bytes, hencoded, hbytes⟩ := generateVerifier_eq_ok p hverifier hmodulus hhashed
      rw [hencoded, hbase64] at hv
      cases hv
      simp only [] at hdone
      split at hdone
      · exact nomatch hdone
      · exact nomatch hdone
      · next found hfound =>
        have hn := haccepted.one_lt_modulus
        obtain ⟨ha, hu⟩ := generateEphemeral_eq_ok p (by omega) draws hfound
        have hproofs := Option.some.inj hdone
        rw [hbytes] at hB ⊢
        rw [haccepted.finishProofs p hprime hB ha] at hproofs
        -- the ephemeral value that is sent is the one that was drawn
        have hsent : proofs.clientEphemeral = found.aBytes := by
          obtain ⟨_, _, hassembled⟩ := Except.bind_eq_ok.mp hproofs
          cases hassembled
          rfl
        rw [hsent, ← hu]
        exact hproofs

end Handshake

end ProtonDrive.Srp
