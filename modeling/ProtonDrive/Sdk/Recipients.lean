import Mathlib.Data.List.Forall2
import ProtonDrive.Sdk.OpenPgp

/-!
# Messages to several recipients

A session key is wrapped to each recipient in a packet of its own, and the data follows in one more
packet. A private key is here what it is to OpenPGP, a primary key with subkeys, of which some can be
encrypted to; a packet is for one of these. Encryption is ideal: a packet is opened by the (sub)key
it is for and by no other.

A message is decrypted with whichever packet is for the key. The session key alone is recovered from
the leading packet, and so is what a rewrap replaces.

* `encryptMessageTo_eq_ok` — the message is a packet for each recipient, then the data.
* `decryptArmoredMessage_of_mem` — every recipient reads the data.
* `recovers_iff` — a recipient recovers the session key and rewraps the message exactly if it holds
  the (sub)key that the first packet is for.
* `decrypt_plain`, `rewrap_plain` — the messages of the key tree are these with the (sub)keys taken for
  keys: what is read or rewrapped here is read or rewrapped there.
-/

namespace ProtonDrive.Recipients

open OpenPgp (Bytes parseError decryptError)

/-! ## Keys -/

/-- A primary key or a subkey. -/
structure KeyPart where
  id : Nat
  canEncrypt : Bool
  deriving DecidableEq, Repr

structure PrivateKey where
  primaryKey : KeyPart
  secretSubkeys : List KeyPart
  deriving DecidableEq, Repr

def PrivateKey.parts (key : PrivateKey) : List KeyPart := key.primaryKey :: key.secretSubkeys

/-- `PlainSessionKey`, as far as a content key may be one. -/
inductive ContentKey where
  | v3_4 (symAlg : Nat) (key : Bytes)
  | v6 (key : Bytes)
  /-- The versions that no message is made with. -/
  | other
  deriving DecidableEq, Repr

def ContentKey.isAead : ContentKey → Bool
  | .v6 _ => true
  | _ => false

def aes256 : Nat := 9

def encryptError (text : String) : ProtonError := .crypto ("failed to encrypt: " ++ text)

def ContentKey.sessionParts : ContentKey → Except ProtonError (Nat × Bytes)
  | .v3_4 symAlg key => .ok (symAlg, key)
  | .v6 key => .ok (aes256, key)
  | .other => .error (encryptError "content key is not a V3/V4 or V6 session key")

/-! ## Packets -/

inductive Packet where
  /-- A session key and its algorithm, for a (sub)key. -/
  | pkeskV3 (recipient : Nat) (symAlg : Nat) (key : Bytes)
  /-- A session key, for a (sub)key. -/
  | pkeskV6 (recipient : Nat) (key : Bytes)
  | seipd (session : ContentKey) (data : Bytes)
  | literal (data : Bytes)
  deriving DecidableEq, Repr

abbrev Message := List Packet

/-- The (sub)key that a key is encrypted to. -/
def recipientEncryptionKey (key : PrivateKey) : Except ProtonError KeyPart :=
  if key.primaryKey.canEncrypt then .ok key.primaryKey
  else
    match key.secretSubkeys.find? KeyPart.canEncrypt with
    | some sub => .ok sub
    | none => .error (encryptError "key has no encryption-capable (sub)key")

def ContentKey.toPacket (session : ContentKey) (nodeKey : PrivateKey) :
    Except ProtonError Packet := do
  let (symAlg, key) ← session.sessionParts
  let recipient ← recipientEncryptionKey nodeKey
  return if session.isAead then .pkeskV6 recipient.id key else .pkeskV3 recipient.id symAlg key

def ContentKey.encryptBlock (session : ContentKey) (data : Bytes) : Except ProtonError Packet := do
  let _ ← session.sessionParts
  return .seipd session data

def encryptMessageTo (session : ContentKey) (recipients : List PrivateKey) (data : Bytes) :
    Except ProtonError Message :=
  if recipients.isEmpty then
    .error (encryptError "encrypt_message_to needs at least one recipient")
  else do
    let packets ← recipients.mapM session.toPacket
    let body ← session.encryptBlock data
    return packets ++ [body]

/-! ## Reading -/

/-- What a (sub)key makes of a packet: the session key, if the packet is for it. -/
def KeyPart.decrypt (part : KeyPart) : Packet → Option ContentKey
  | .pkeskV3 recipient symAlg key => if recipient = part.id then some (.v3_4 symAlg key) else none
  | .pkeskV6 recipient key => if recipient = part.id then some (.v6 key) else none
  | _ => none

/-- The primary key is tried, then the subkeys; the error is the last one's. -/
def PrivateKey.openPacket (key : PrivateKey) (packet : Packet) : Except ProtonError ContentKey :=
  match key.primaryKey.decrypt packet with
  | some session => .ok session
  | none =>
      match key.secretSubkeys.findSome? (·.decrypt packet) with
      | some session => .ok session
      | none =>
          .error (decryptError
            (if key.secretSubkeys.isEmpty then "content key" else "content key (subkey)"))

/-- The session key in the leading packet. -/
def decryptContentKey (key : PrivateKey) : Message → Except ProtonError ContentKey
  | [] => .error (parseError "empty content key packet")
  | .pkeskV3 recipient symAlg sealed :: _ => key.openPacket (.pkeskV3 recipient symAlg sealed)
  | .pkeskV6 recipient sealed :: _ => key.openPacket (.pkeskV6 recipient sealed)
  | _ :: _ => .error (parseError "content key packet is not a PKESK")

def recoverMessageSessionKey (key : PrivateKey) (message : Message) :
    Except ProtonError ContentKey :=
  decryptContentKey key message

/-- The first data packet, as it stands. -/
def serializeSeipd : Message → Except ProtonError Packet
  | [] => .error (parseError "message has no SEIPD packet")
  | .seipd session data :: _ => .ok (.seipd session data)
  | _ :: rest => serializeSeipd rest

def rewrapMessageTo (key : PrivateKey) (message : Message) (destination : PrivateKey) :
    Except ProtonError Message := do
  let session ← decryptContentKey key message
  let body ← serializeSeipd message
  let packet ← session.toPacket destination
  return [packet, body]

/-- The session key in whichever packet before the data is for the key. -/
def sessionFor (key : PrivateKey) : Message → Option ContentKey
  | [] => none
  | .seipd _ _ :: _ => none
  | packet :: rest =>
      match key.parts.findSome? (·.decrypt packet) with
      | some session => some session
      | none => sessionFor key rest

/-- Message decryption: any packet for the key opens it. -/
def decryptArmoredMessage (key : PrivateKey) (message : Message) : Except ProtonError Bytes :=
  match sessionFor key message, serializeSeipd message with
  | some session, .ok (.seipd session' data) =>
      if session' = session then .ok data else .error (decryptError "wrong session key")
  | none, _ => .error (decryptError "missing key")
  | some _, _ => .error (parseError "message")

/-! ## What is written -/

variable {session : ContentKey} {recipients : List PrivateKey} {data : Bytes} {message : Message}
  {key recipient destination : PrivateKey} {packet : Packet} {part : KeyPart}

/-- The (sub)key is one of the key's. -/
def PrivateKey.Holds (key : PrivateKey) (part : KeyPart) : Prop := ∃ p ∈ key.parts, p.id = part.id

theorem recipientEncryptionKey_mem (h : recipientEncryptionKey key = .ok part) :
    part ∈ key.parts := by
  unfold recipientEncryptionKey at h
  split at h
  · cases h
    exact List.mem_cons_self
  · split at h
    · next hfind =>
        cases h
        exact List.mem_cons_of_mem _ (List.mem_of_find?_eq_some hfind)
    · cases h

theorem holds_recipientEncryptionKey (h : recipientEncryptionKey key = .ok part) :
    key.Holds part :=
  ⟨part, recipientEncryptionKey_mem h, rfl⟩

/-- A session key is wrapped, with its algorithm or without, for the (sub)key of the recipient. -/
theorem toPacket_cases (h : session.toPacket recipient = .ok packet) :
    ∃ part, recipientEncryptionKey recipient = .ok part ∧
      ((∃ symAlg key, session = .v3_4 symAlg key ∧ packet = .pkeskV3 part.id symAlg key) ∨
        ∃ key, session = .v6 key ∧ packet = .pkeskV6 part.id key) := by
  obtain ⟨⟨symAlg, bytes⟩, hparts, h⟩ := Except.bind_eq_ok.mp h
  obtain ⟨part, hpart, h⟩ := Except.bind_eq_ok.mp h
  refine ⟨part, hpart, ?_⟩
  cases session with
  | v3_4 symAlg' key' =>
      cases hparts
      cases h
      exact .inl ⟨_, _, rfl, rfl⟩
  | v6 key' =>
      cases hparts
      cases h
      exact .inr ⟨_, rfl, rfl⟩
  | other => cases hparts

theorem exists_toPacket (hsession : session ≠ .other)
    (hpart : recipientEncryptionKey recipient = .ok part) :
    ∃ packet, session.toPacket recipient = .ok packet := by
  unfold ContentKey.toPacket
  cases session with
  | v3_4 symAlg key => exact ⟨_, by rw [hpart]; rfl⟩
  | v6 key => exact ⟨_, by rw [hpart]; rfl⟩
  | other => exact absurd rfl hsession

/-- A packet is opened by the (sub)key it is for, and by no other. -/
theorem decrypt_toPacket (h : session.toPacket recipient = .ok packet)
    (hpart : recipientEncryptionKey recipient = .ok part) (p : KeyPart) :
    p.decrypt packet = if p.id = part.id then some session else none := by
  obtain ⟨part', hpart', h⟩ := toPacket_cases h
  rw [hpart, Except.ok.injEq] at hpart'
  subst hpart'
  rcases h with ⟨symAlg, key, rfl, rfl⟩ | ⟨key, rfl, rfl⟩ <;> unfold KeyPart.decrypt <;> grind

theorem findSome?_decrypt (h : session.toPacket recipient = .ok packet)
    (hpart : recipientEncryptionKey recipient = .ok part) (parts : List KeyPart) :
    parts.findSome? (·.decrypt packet) =
      if ∃ p ∈ parts, p.id = part.id then some session else none := by
  induction parts with
  | nil => rfl
  | cons p parts ih =>
      rw [List.findSome?_cons, decrypt_toPacket h hpart, ih]
      by_cases hp : p.id = part.id <;> simp [hp]

/-- A key opens a packet exactly if it holds what the packet is for. -/
theorem openPacket_eq_ok (h : session.toPacket recipient = .ok packet)
    (hpart : recipientEncryptionKey recipient = .ok part) (key : PrivateKey) :
    key.openPacket packet = .ok session ↔ key.Holds part := by
  unfold PrivateKey.openPacket PrivateKey.Holds PrivateKey.parts
  rw [decrypt_toPacket h hpart, findSome?_decrypt h hpart]
  by_cases hprimary : key.primaryKey.id = part.id
  · rw [if_pos hprimary]
    grind
  · rw [if_neg hprimary]
    by_cases hsub : ∃ p ∈ key.secretSubkeys, p.id = part.id
    · rw [if_pos hsub]
      grind
    · rw [if_neg hsub]
      grind

theorem decryptContentKey_cons (h : session.toPacket recipient = .ok packet) (rest : Message) :
    decryptContentKey key (packet :: rest) = key.openPacket packet := by
  obtain ⟨part, -, ⟨symAlg, bytes, -, rfl⟩ | ⟨bytes, -, rfl⟩⟩ := toPacket_cases h <;> rfl

theorem serializeSeipd_cons (h : session.toPacket recipient = .ok packet) (rest : Message) :
    serializeSeipd (packet :: rest) = serializeSeipd rest := by
  obtain ⟨part, -, ⟨symAlg, bytes, -, rfl⟩ | ⟨bytes, -, rfl⟩⟩ := toPacket_cases h <;> rfl

theorem sessionFor_cons (h : session.toPacket recipient = .ok packet)
    (hpart : recipientEncryptionKey recipient = .ok part) (rest : Message) :
    sessionFor key (packet :: rest) =
      if ∃ p ∈ key.parts, p.id = part.id then some session else sessionFor key rest := by
  have hfind := findSome?_decrypt h hpart key.parts
  obtain ⟨part', -, ⟨symAlg, bytes, -, rfl⟩ | ⟨bytes, -, rfl⟩⟩ := toPacket_cases h <;>
  · simp only [sessionFor, hfind]
    by_cases hholds : ∃ p ∈ key.parts, p.id = part.id
    · simp only [if_pos hholds]
    · simp only [if_neg hholds]

/-! ## The message -/

theorem mapM_toPacket_eq_ok {packets : List Packet} :
    recipients.mapM session.toPacket = .ok packets ↔
      List.Forall₂ (fun recipient packet => session.toPacket recipient = .ok packet)
        recipients packets := by
  induction recipients generalizing packets with
  | nil => simp [pure, Except.pure, eq_comm]
  | cons recipient recipients ih =>
      rw [List.mapM_cons, Except.bind_eq_ok]
      constructor
      · rintro ⟨packet, hpacket, h⟩
        obtain ⟨rest, hrest, h⟩ := Except.bind_eq_ok.mp h
        cases h
        exact .cons hpacket (ih.mp hrest)
      · intro h
        cases h with
        | cons hpacket hrest =>
            exact ⟨_, hpacket, Except.bind_eq_ok.mpr ⟨_, ih.mpr hrest, rfl⟩⟩

/-- A message is a packet for each recipient, in their order, and then the data. -/
theorem encryptMessageTo_eq_ok : encryptMessageTo session recipients data = .ok message ↔
    recipients ≠ [] ∧ ∃ packets, List.Forall₂ (fun recipient packet =>
      session.toPacket recipient = .ok packet) recipients packets ∧
        message = packets ++ [.seipd session data] := by
  unfold encryptMessageTo
  cases recipients with
  -- Without recipients the source refuses.
  | nil => simp
  | cons recipient recipients =>
      constructor
      · intro h
        obtain ⟨packets, hpackets, h⟩ := Except.bind_eq_ok.mp h
        obtain ⟨body, hbody, h⟩ := Except.bind_eq_ok.mp h
        obtain ⟨parts, -, hbody⟩ := Except.bind_eq_ok.mp hbody
        cases hbody
        cases h
        exact ⟨List.cons_ne_nil _ _, packets, mapM_toPacket_eq_ok.mp hpackets, rfl⟩
      · rintro ⟨-, packets, hpackets, rfl⟩
        apply Except.bind_eq_ok.mpr
        refine ⟨packets, mapM_toPacket_eq_ok.mpr hpackets, ?_⟩
        -- The first packet names the cipher, so the body can be sealed.
        cases hpackets with
        | cons hpacket _ =>
            obtain ⟨part, -, ⟨symAlg, bytes, rfl, -⟩ | ⟨bytes, rfl, -⟩⟩ := toPacket_cases hpacket <;>
              rfl

theorem serializeSeipd_message {packets : List Packet}
    (h : List.Forall₂ (fun recipient packet => session.toPacket recipient = .ok packet)
      recipients packets) :
    serializeSeipd (packets ++ [.seipd session data]) = .ok (.seipd session data) := by
  induction h with
  | nil => rfl
  | cons hpacket _ ih => rw [List.cons_append, serializeSeipd_cons hpacket, ih]

/-- What a key reads of the packets is the session key, if one of them is for it. -/
theorem sessionFor_message {packets : List Packet}
    (h : List.Forall₂ (fun recipient packet => session.toPacket recipient = .ok packet)
      recipients packets) (hmem : recipient ∈ recipients) :
    sessionFor recipient (packets ++ [.seipd session data]) = some session := by
  induction h with
  | nil => cases hmem
  | cons hpacket hrest ih =>
      obtain ⟨part, hpart, -⟩ := toPacket_cases hpacket
      rw [List.cons_append, sessionFor_cons hpacket hpart]
      rcases List.mem_cons.mp hmem with rfl | hmem
      · rw [if_pos]
        exact holds_recipientEncryptionKey hpart
      · rw [ih hmem, ite_self]

/-- Every recipient reads the data, wherever among the recipients it stands. -/
theorem decryptArmoredMessage_of_mem (h : encryptMessageTo session recipients data = .ok message)
    (hmem : recipient ∈ recipients) : decryptArmoredMessage recipient message = .ok data := by
  obtain ⟨-, packets, hpackets, rfl⟩ := encryptMessageTo_eq_ok.mp h
  unfold decryptArmoredMessage
  rw [sessionFor_message hpackets hmem, serializeSeipd_message hpackets]
  exact if_pos rfl

/-! ## Recovery -/

/-- The key recovers the session key of a message and addresses it anew, to any key that can be
encrypted to. -/
structure Recovers (key : PrivateKey) (message : Message) (session : ContentKey) (data : Bytes) :
    Prop where
  session_eq : recoverMessageSessionKey key message = .ok session
  rewrap : ∀ destination part, recipientEncryptionKey destination = .ok part →
    ∃ rewrapped, rewrapMessageTo key message destination = .ok rewrapped ∧
      decryptArmoredMessage destination rewrapped = .ok data

/-- A rewrapped message is the message to the one destination. -/
theorem rewrapMessageTo_eq {packets : List Packet}
    (h : List.Forall₂ (fun recipient packet => session.toPacket recipient = .ok packet)
      recipients packets) (hne : session ≠ .other)
    (hkey : decryptContentKey key (packets ++ [.seipd session data]) = .ok session) :
    rewrapMessageTo key (packets ++ [.seipd session data]) destination =
      encryptMessageTo session [destination] data := by
  unfold rewrapMessageTo
  rw [hkey, serializeSeipd_message h]
  show (session.toPacket destination >>= _) = _
  cases hpacket : session.toPacket destination with
  | error e => simp [encryptMessageTo, hpacket, bind, Except.bind]
  | ok packet =>
      cases session <;> first | exact absurd rfl hne | skip
      all_goals simp [encryptMessageTo, hpacket]; rfl

/-- The first packet decides: what it is for recovers the session key, and nothing else does. -/
theorem recoverMessageSessionKey_eq_ok {recipients : List PrivateKey}
    (h : encryptMessageTo session (recipient :: recipients) data = .ok message)
    (hpart : recipientEncryptionKey recipient = .ok part) :
    recoverMessageSessionKey key message = .ok session ↔ key.Holds part := by
  obtain ⟨-, packets, hpackets, rfl⟩ := encryptMessageTo_eq_ok.mp h
  cases hpackets with
  | cons hpacket hrest =>
      rw [recoverMessageSessionKey, List.cons_append, decryptContentKey_cons hpacket]
      exact openPacket_eq_ok hpacket hpart key

theorem recovers_iff {recipients : List PrivateKey}
    (h : encryptMessageTo session (recipient :: recipients) data = .ok message)
    (hpart : recipientEncryptionKey recipient = .ok part) :
    Recovers key message session data ↔ key.Holds part := by
  rw [← recoverMessageSessionKey_eq_ok h hpart]
  constructor
  · exact Recovers.session_eq
  · intro hkey
    refine ⟨hkey, ?_⟩
    intro destination part' hpart'
    obtain ⟨-, packets, hpackets, rfl⟩ := encryptMessageTo_eq_ok.mp h
    -- The session is one that packets can hold.
    have hne : session ≠ .other := by
      cases hpackets with
      | cons hpacket _ =>
          obtain ⟨_, -, ⟨_, _, rfl, -⟩ | ⟨_, rfl, -⟩⟩ := toPacket_cases hpacket <;> simp
    obtain ⟨packet', hpacket'⟩ := exists_toPacket hne hpart'
    have hone : encryptMessageTo session [destination] data =
        .ok [packet', .seipd session data] :=
      encryptMessageTo_eq_ok.mpr ⟨List.cons_ne_nil _ _, [packet'], .cons hpacket' .nil, rfl⟩
    rw [rewrapMessageTo_eq hpackets hne hkey]
    exact ⟨_, hone, decryptArmoredMessage_of_mem hone List.mem_cons_self⟩

/-! ## As the key tree has it

To the key tree a (sub)key is a key, and a session key its identity. -/

section

variable (sessionId : ContentKey → OpenPgp.Session)

def Packet.plain : Packet → Option OpenPgp.Packet
  | .pkeskV3 recipient symAlg key => some (.pkesk recipient (sessionId (.v3_4 symAlg key)))
  | .pkeskV6 recipient key => some (.pkesk recipient (sessionId (.v6 key)))
  | .seipd session data => some (.seipd (sessionId session) data none)
  | .literal _ => none

def plain (message : Message) : OpenPgp.Message := message.filterMap (Packet.plain sessionId)

/-- A packet that one of the parts opens is a packet for this part; any other is for none of them. -/
theorem findSome?_decrypt_cases (parts : List KeyPart) (packet : Packet) :
    (∃ part ∈ parts, ∃ session, parts.findSome? (·.decrypt packet) = some session ∧
      packet.plain sessionId = some (.pkesk part.id (sessionId session))) ∨
    (parts.findSome? (·.decrypt packet) = none ∧ ∀ part ∈ parts, ∀ session,
      packet.plain sessionId ≠ some (.pkesk part.id session)) := by
  cases hfound : parts.findSome? (·.decrypt packet) with
  -- A part that opened the packet is the one that it is sealed to.
  | some session =>
      obtain ⟨part, hmem, hopen⟩ := List.exists_of_findSome?_eq_some hfound
      refine .inl ⟨part, hmem, session, rfl, ?_⟩
      unfold KeyPart.decrypt at hopen
      split at hopen
      · obtain ⟨rfl, hsession⟩ := Option.ite_none_right_eq_some.mp hopen
        cases hsession
        rfl
      · obtain ⟨rfl, hsession⟩ := Option.ite_none_right_eq_some.mp hopen
        cases hsession
        rfl
      · cases hopen
  | none =>
      refine .inr ⟨rfl, ?_⟩
      intro part hmem session hplain
      -- No part opened it, so it is sealed to none of them.
      have hclosed := List.findSome?_eq_none_iff.mp hfound part hmem
      cases packet with
      | pkeskV3 recipient symAlg key =>
          cases hplain
          simp [KeyPart.decrypt] at hclosed
      | pkeskV6 recipient key =>
          cases hplain
          simp [KeyPart.decrypt] at hclosed
      | seipd _ _ => cases hplain
      | literal _ => cases hplain

variable {sessionId}

theorem plain_cons_of_some {packet : Packet} {p : OpenPgp.Packet}
    (h : packet.plain sessionId = some p) (rest : Message) :
    plain sessionId (packet :: rest) = p :: plain sessionId rest :=
  List.filterMap_cons_some h

variable (sessionId) in
/-- Whatever packet is opened first, it is the first one for the part that opens it. -/
theorem sessionFor_plain (h : sessionFor key message = some session) :
    ∃ part ∈ key.parts,
      OpenPgp.sessionFor part.id (plain sessionId message) = some (sessionId session) := by
  induction message with
  | nil => cases h
  | cons packet rest ih =>
      have hstep : (∀ s d, packet ≠ .seipd s d) ∧
          (match key.parts.findSome? (·.decrypt packet) with
            | some session => some session
            | none => sessionFor key rest) = some session := by
        cases packet with
        | seipd _ _ => cases h
        | pkeskV3 _ _ _ => exact ⟨fun _ _ hp => (by cases hp), h⟩
        | pkeskV6 _ _ => exact ⟨fun _ _ hp => (by cases hp), h⟩
        | literal _ => exact ⟨fun _ _ hp => (by cases hp), h⟩
      obtain ⟨hdata, hfound⟩ := hstep
      rcases findSome?_decrypt_cases sessionId key.parts packet with
        ⟨part, hmem, session', hopen, hplain⟩ | ⟨hclosed, hother⟩
      · rw [hopen] at hfound
        cases hfound
        refine ⟨part, hmem, ?_⟩
        rw [plain_cons_of_some hplain, OpenPgp.sessionFor, if_pos rfl]
      · rw [hclosed] at hfound
        obtain ⟨part, hmem, hrest⟩ := ih hfound
        refine ⟨part, hmem, ?_⟩
        -- The packet is for another key, and a reader with this one goes past it.
        cases hplain : packet.plain sessionId with
        | none => rwa [plain, List.filterMap_cons_none hplain]
        | some p =>
            rw [plain_cons_of_some hplain]
            cases p with
            | pkesk recipient s =>
                have hne : recipient ≠ part.id := by
                  rintro rfl
                  exact hother part hmem s hplain
                rw [OpenPgp.sessionFor, if_neg hne]
                exact hrest
            | seipd s d signer => exact hrest

theorem serializeSeipd_seipd {body : Packet} (h : serializeSeipd message = .ok body) :
    ∃ session data, body = .seipd session data := by
  induction message with
  | nil => cases h
  | cons packet rest ih =>
      cases packet with
      | seipd session data =>
          cases h
          exact ⟨session, data, rfl⟩
      | pkeskV3 _ _ _ => exact ih h
      | pkeskV6 _ _ => exact ih h
      | literal _ => exact ih h

variable (sessionId) in
theorem dataPacket_plain (h : serializeSeipd message = .ok (.seipd session data)) :
    OpenPgp.dataPacket (plain sessionId message) = some (sessionId session, data, none) := by
  induction message with
  | nil => cases h
  | cons packet rest ih =>
      cases packet with
      | seipd _ _ =>
          cases h
          rfl
      | pkeskV3 _ _ _ => exact ih h
      | pkeskV6 _ _ => exact ih h
      | literal _ => exact ih h

/-- What a key reads, one of its parts reads in the key tree. -/
theorem decrypt_plain (h : decryptArmoredMessage key message = .ok data) :
    ∃ part ∈ key.parts,
      OpenPgp.decryptArmoredMessage part.id (plain sessionId message) = .ok data := by
  unfold decryptArmoredMessage at h
  split at h
  · next session session' data' hsession hbody =>
    obtain ⟨rfl, hdata⟩ := Except.guard_eq_ok.mp h
    cases hdata
    obtain ⟨part, hmem, hfor⟩ := sessionFor_plain sessionId hsession
    refine ⟨part, hmem, ?_⟩
    simp only [OpenPgp.decryptArmoredMessage, hfor, dataPacket_plain sessionId hbody, if_true]
  · cases h
  · cases h

theorem toPacket_plain (h : session.toPacket recipient = .ok packet)
    (hpart : recipientEncryptionKey recipient = .ok part) :
    packet.plain sessionId = some (.pkesk part.id (sessionId session)) := by
  obtain ⟨part', hpart', hpacket⟩ := toPacket_cases h
  rw [hpart] at hpart'
  cases hpart'
  rcases hpacket with ⟨symAlg, key, rfl, rfl⟩ | ⟨key, rfl, rfl⟩ <;> rfl

/-- A message to one recipient is what the key tree encrypts. -/
theorem encrypt_plain (h : encryptMessageTo session [recipient] data = .ok message)
    (hpart : recipientEncryptionKey recipient = .ok part) :
    plain sessionId message = OpenPgp.encrypt part.id (sessionId session) data := by
  obtain ⟨-, packets, hpackets, rfl⟩ := encryptMessageTo_eq_ok.mp h
  cases hpackets with
  | cons hpacket hnone =>
      cases hnone
      exact plain_cons_of_some (toPacket_plain hpacket hpart) _

theorem findSome?_of_openPacket (h : key.openPacket packet = .ok session) :
    key.parts.findSome? (·.decrypt packet) = some session := by
  unfold PrivateKey.openPacket at h
  unfold PrivateKey.parts
  rw [List.findSome?_cons]
  -- The primary key is tried first, then the subkeys in their order.
  cases hprimary : key.primaryKey.decrypt packet with
  | some session' =>
      rw [hprimary] at h
      cases h
      rfl
  | none =>
      rw [hprimary] at h
      cases hsub : key.secretSubkeys.findSome? (·.decrypt packet) with
      | some session' =>
          rw [hsub] at h
          cases h
          rfl
      | none =>
          rw [hsub] at h
          cases h

/-- What a key rewraps, one of its parts rewraps in the key tree, to the same effect. -/
theorem rewrap_plain {rewrapped : Message}
    (h : rewrapMessageTo key message destination = .ok rewrapped)
    (hpart : recipientEncryptionKey destination = .ok part) :
    ∃ p ∈ key.parts, OpenPgp.rewrapMessageTo p.id (plain sessionId message) part.id =
      .ok (plain sessionId rewrapped) := by
  obtain ⟨session, hsession, h⟩ := Except.bind_eq_ok.mp h
  obtain ⟨body, hbody, h⟩ := Except.bind_eq_ok.mp h
  obtain ⟨packet, hpacket, h⟩ := Except.bind_eq_ok.mp h
  cases h
  -- The leading packet is one that the key opens.
  obtain ⟨first, rest, rfl, hopen⟩ : ∃ first rest, message = first :: rest ∧
      key.openPacket first = .ok session := by
    unfold decryptContentKey at hsession
    split at hsession
    · cases hsession
    · exact ⟨_, _, rfl, hsession⟩
    · exact ⟨_, _, rfl, hsession⟩
    · cases hsession
  have hfound := findSome?_of_openPacket hopen
  rcases findSome?_decrypt_cases sessionId key.parts first with
    ⟨p, hmem, session', hopen', hplain⟩ | ⟨hclosed, -⟩
  · rw [hopen'] at hfound
    cases hfound
    obtain ⟨session', data, rfl⟩ : ∃ session' data, body = .seipd session' data :=
      serializeSeipd_seipd hbody
    refine ⟨p, hmem, ?_⟩
    have hdata := dataPacket_plain sessionId hbody
    rw [plain_cons_of_some hplain] at hdata ⊢
    simp only [OpenPgp.rewrapMessageTo, OpenPgp.decryptContentKey, OpenPgp.serializeSeipd, hdata]
    rw [plain_cons_of_some (toPacket_plain hpacket hpart)]
    rfl
  · rw [hclosed] at hfound
    cases hfound

end

end ProtonDrive.Recipients
