import ProtonDrive.Lib.Except
import ProtonDrive.Sdk.Error

/-!
# OpenPGP, as far as the key tree needs it

Ideal encryption and signatures: a private key is its identity, a session key is its identity, and a
message is the packets it consists of, of which only the holder of a recipient's key can make
anything. What the crypto layer of the SDK does itself is kept: a message is addressed by its PKESK
packets and carries its data in a SEIPD packet, and a rewrap replaces the former and keeps the
latter.

* `decrypt_encrypt`, `decrypt_encryptAndSign` — what is encrypted to a key is read back with it.
* `decrypt_rewrap` — a rewrapped message reads the same with the new key as it did with the old one.
-/

namespace ProtonDrive.OpenPgp

abbrev Bytes := List UInt8

/-- An unlocked private key, by its identity. -/
abbrev Key := Nat

/-- A symmetric session key, by its identity. -/
abbrev Session := Nat

inductive Packet where
  /-- A session key, encrypted to a key. -/
  | pkesk (recipient : Key) (session : Session)
  /-- Data, encrypted with a session key and perhaps signed inside. -/
  | seipd (session : Session) (plaintext : Bytes) (signer : Option Key)
  deriving DecidableEq, Repr

abbrev Message := List Packet

/-- An armored secret key, locked with a passphrase. -/
structure LockedKey where
  key : Key
  passphrase : Bytes
  deriving DecidableEq, Repr

/-- A detached signature. -/
structure Signature where
  signer : Key
  data : Bytes
  deriving DecidableEq, Repr

def parseError (text : String) : ProtonError := .crypto ("failed to parse PGP data: " ++ text)

def decryptError (text : String) : ProtonError := .crypto ("failed to decrypt: " ++ text)

def unlockError (text : String) : ProtonError := .crypto ("failed to unlock private key: " ++ text)

/-! ## Reading -/

/-- The session key a message holds for `key`. -/
def sessionFor (key : Key) : Message → Option Session
  | [] => none
  | .pkesk recipient session :: rest =>
      if recipient = key then some session else sessionFor key rest
  | .seipd _ _ _ :: rest => sessionFor key rest

/-- The first data packet of a message. -/
def dataPacket : Message → Option (Session × Bytes × Option Key)
  | [] => none
  | .seipd session plaintext signer :: _ => some (session, plaintext, signer)
  | .pkesk _ _ :: rest => dataPacket rest

def decryptArmoredMessage (key : Key) (message : Message) : Except ProtonError Bytes :=
  match sessionFor key message, dataPacket message with
  | some session, some (session', plaintext, _) =>
      if session' = session then .ok plaintext else .error (decryptError "wrong session key")
  | none, _ => .error (decryptError "missing key")
  | some _, none => .error (parseError "message")

/-- The keys are tried in turn; the error is the last one's. -/
def decryptArmoredWithKeys (message : Message) (keys : List Key) : Except ProtonError Bytes :=
  Except.firstOk (decryptArmoredMessage · message) (decryptError "no candidate keys") keys

/-- Unlock an armored secret key; a wrong passphrase cannot. -/
def fromArmored (locked : LockedKey) (passphrase : Bytes) : Except ProtonError Key :=
  if locked.passphrase = passphrase then .ok locked.key else .error (unlockError "wrong passphrase")

/-- What became of a signature. It is recorded and never stops a read. -/
inductive VerificationStatus where
  | ok
  | notSigned
  | noVerifier
  | failed
  deriving DecidableEq, Repr

/-- The outcome for a signature that is there. -/
def statusOf (ring : List Key) (good : Bool) : VerificationStatus :=
  if ring.isEmpty then .noVerifier else if good then .ok else .failed

def verifyDetached (signature : Signature) (data : Bytes) (ring : List Key) : VerificationStatus :=
  statusOf ring (signature.data == data && ring.contains signature.signer)

/-- A detached signature made for one purpose, named in a notation. -/
structure ContextSignature where
  signature : Signature
  context : Option String
  deriving DecidableEq, Repr

def verifyDetachedWithContext (signature : ContextSignature) (data : Bytes) (ring : List Key)
    (context : String) : VerificationStatus :=
  statusOf ring (signature.context == some context && signature.signature.data == data &&
    ring.contains signature.signature.signer)

/-- The status of the signature inside a message. -/
def verifyMessage (message : Message) (ring : List Key) : VerificationStatus :=
  match dataPacket message with
  | some (_, _, some signer) => statusOf ring (ring.contains signer)
  | _ => .notSigned

def decryptArmoredVerify (key : Key) (message : Message) (ring : List Key) :
    Except ProtonError (Bytes × VerificationStatus) := do
  let data ← decryptArmoredMessage key message
  return (data, verifyMessage message ring)

/-! ## Writing

The session key of a new message is chosen at random, and is an argument here. -/

def encrypt (key : Key) (session : Session) (data : Bytes) : Message :=
  [.pkesk key session, .seipd session data none]

def encryptAndSign (key signer : Key) (session : Session) (data : Bytes) : Message :=
  [.pkesk key session, .seipd session data (some signer)]

def signDetached (signer : Key) (data : Bytes) : Signature := ⟨signer, data⟩

/-! ## Rewrapping -/

/-- The session key in the leading packet of a message, which must be addressed to `key`. -/
def decryptContentKey (key : Key) : Message → Except ProtonError Session
  | [] => .error (parseError "empty content key packet")
  | .pkesk recipient session :: _ =>
      if recipient = key then .ok session else .error (decryptError "content key")
  | .seipd _ _ _ :: _ => .error (parseError "content key packet is not a PKESK")

/-- The data packet of a message, as it stands. -/
def serializeSeipd (message : Message) : Except ProtonError Packet :=
  match dataPacket message with
  | some (session, plaintext, signer) => .ok (.seipd session plaintext signer)
  | none => .error (parseError "message has no SEIPD packet")

/-- Address a message to `destination` instead of `key`, with its data as it is. -/
def rewrapMessageTo (key : Key) (message : Message) (destination : Key) :
    Except ProtonError Message := do
  let session ← decryptContentKey key message
  let body ← serializeSeipd message
  return [.pkesk destination session, body]

/-! ## What is written is read -/

@[simp] theorem decrypt_encrypt (key : Key) (session : Session) (data : Bytes) :
    decryptArmoredMessage key (encrypt key session data) = .ok data := by
  simp [decryptArmoredMessage, encrypt, sessionFor, dataPacket]

@[simp] theorem decrypt_encryptAndSign (key signer : Key) (session : Session) (data : Bytes) :
    decryptArmoredMessage key (encryptAndSign key signer session data) = .ok data := by
  simp [decryptArmoredMessage, encryptAndSign, sessionFor, dataPacket]

/-- All keys that read a message read the same. -/
theorem decryptArmoredMessage_unique {key key' : Key} {message : Message} {data data' : Bytes}
    (h : decryptArmoredMessage key message = .ok data)
    (h' : decryptArmoredMessage key' message = .ok data') : data' = data := by
  unfold decryptArmoredMessage at h h'
  split at h
  · next session session' plaintext signer _ hpacket =>
    rw [hpacket] at h'
    obtain ⟨-, rfl⟩ := Except.guard_eq_ok.mp h |>.imp_right Except.ok.inj
    split at h'
    · next _ _ _ _ _ heq =>
      cases heq
      exact (Except.ok.inj (Except.guard_eq_ok.mp h').2).symm
    · cases h'
    · next _ heq => cases heq
  · cases h
  · cases h

/-- A message to one of the keys is read, whichever keys are tried before. -/
theorem decryptArmoredWithKeys_of_mem {keys : List Key} {key : Key} {message : Message}
    {data : Bytes} (hmem : key ∈ keys) (h : decryptArmoredMessage key message = .ok data) :
    decryptArmoredWithKeys message keys = .ok data :=
  Except.firstOk_of_mem hmem h (fun _ _ h' => decryptArmoredMessage_unique h h')

@[simp] theorem verify_signDetached (signer : Key) {ring : List Key} (h : signer ∈ ring)
    (data : Bytes) : verifyDetached (signDetached signer data) data ring = .ok := by
  have hne : ring ≠ [] := List.ne_nil_of_mem h
  simp [verifyDetached, signDetached, statusOf, h, hne]

theorem fromArmored_eq_ok {locked : LockedKey} {passphrase : Bytes} {key : Key} :
    fromArmored locked passphrase = .ok key ↔ locked.passphrase = passphrase ∧ locked.key = key := by
  rw [fromArmored, Except.guard_eq_ok, Except.ok.injEq]

/-- The leading packet is the one a reader of the message uses. -/
theorem sessionFor_of_decryptContentKey {key : Key} {message : Message} {session : Session}
    (h : decryptContentKey key message = .ok session) : sessionFor key message = some session := by
  cases message with
  | nil => cases h
  | cons packet rest =>
      cases packet with
      | seipd s p k => cases h
      | pkesk recipient s =>
          simp only [decryptContentKey] at h
          split at h
          · next hr =>
            cases h
            simp [sessionFor, hr]
          · cases h

theorem decrypt_rewrap {key destination : Key} {message rewrapped : Message} {data : Bytes}
    (hrewrap : rewrapMessageTo key message destination = .ok rewrapped)
    (hdata : decryptArmoredMessage key message = .ok data) :
    decryptArmoredMessage destination rewrapped = .ok data := by
  obtain ⟨session, hsession, hrest⟩ := Except.bind_eq_ok.mp hrewrap
  obtain ⟨body, hbody, hmessage⟩ := Except.bind_eq_ok.mp hrest
  cases hmessage
  have hfor : sessionFor key message = some session := sessionFor_of_decryptContentKey hsession
  unfold serializeSeipd at hbody
  split at hbody
  · next session' plaintext signer hpacket =>
    cases hbody
    simp only [decryptArmoredMessage, hfor, hpacket] at hdata
    obtain ⟨hs, hplain⟩ := Except.guard_eq_ok.mp hdata
    cases hplain
    simp [decryptArmoredMessage, sessionFor, dataPacket, hs]
  · cases hbody

end ProtonDrive.OpenPgp
