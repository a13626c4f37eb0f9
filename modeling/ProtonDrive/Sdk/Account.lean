import Mathlib.Data.Int.Order.Basic
import ProtonDrive.Lib.FirstMin
import ProtonDrive.Lib.Program
import ProtonDrive.Lib.Records
import ProtonDrive.Sdk.OpenPgp

/-!
# The account's keys

The unlock chain of `account.rs`: passphrases open the user keys, user keys open the tokens of address
keys, and tokens or passphrases open the address keys. The client caches each result.

What a key or a token is made of is not looked into: `KeyOps` says what the crypto layer makes of
it. `Account` is what the server holds and the passphrases of the client, and the functions on it
are what the chain gives without a cache.

* `Consistent` — a cache holds nothing but what the account gives.
* `Gives` — a call leaves a consistent cache, and returns what the account gives unless a request
  fails.
-/

namespace ProtonDrive.Account

open OpenPgp (Bytes)
open Program (read modify ofExcept attempt)
open Records (record)

/-! ## What the server sends -/

structure UserKeyDto where
  id : String
  privateKey : String
  primary : Int
  active : Int
  deriving DecidableEq, Repr

def UserKeyDto.isActive (dto : UserKeyDto) : Bool := dto.active != 0

structure AddressKeyDto where
  id : String
  privateKey : String
  token : Option String
  signature : Option String
  primary : Int
  active : Int
  deriving DecidableEq, Repr

def AddressKeyDto.isActive (dto : AddressKeyDto) : Bool := dto.active != 0

def AddressKeyDto.isPrimary (dto : AddressKeyDto) : Bool := dto.primary != 0

structure AddressDto where
  id : String
  email : String
  status : Int
  order : Int
  keys : List AddressKeyDto
  deriving DecidableEq, Repr

/-- The addresses of the account. Nothing keeps a response from giving two of them one id. -/
structure AddressListResponse where
  addresses : List AddressDto

/-- The salt of a key, in Base64; a key may be without one. -/
structure KeySalt where
  keyId : String
  value : Option String
  deriving DecidableEq, Repr

/-- What the endpoints would answer during a call. -/
structure Server where
  keySalts : Except ProtonError (List KeySalt)
  users : Except ProtonError (List UserKeyDto)
  addresses : Except ProtonError AddressListResponse

/-! ## The client -/

structure Address where
  id : String
  email : String
  order : Int
  status : Int
  /-- The place of the primary key among the decrypted keys. -/
  primaryKeyIndex : Nat
  primaryKeyId : String
  deriving DecidableEq, Repr

abbrev KeyPassphrases := String → Option Bytes

/-- What the crypto layer makes of armored keys, tokens and salts. -/
structure KeyOps (Key : Type) where
  /-- Unlock an armored key with a passphrase. -/
  fromArmored : String → Bytes → Except String Key
  decryptArmored : String → Key → Except String Bytes
  /-- The identifiers of an armored key, none if it does not parse. -/
  keyIds : String → List String
  /-- Whom an armored message is encrypted to, nobody if it does not parse. -/
  recipients : String → List (Option String)
  decodeBase64 : String → Except String Bytes
  /-- The passphrase that the mailbox password has under a salt. -/
  deriveKeyPassphrase : Bytes → Except String Bytes

structure Cache (Key : Type) where
  keySalts : Option (List KeySalt)
  keyPassphrases : Option KeyPassphrases
  userKeys : Option (List Key)
  tokenKeys : Option (List Key)
  addresses : Option (List Address)
  addressKeys : String → Option (List Key)
  /-- Addresses whose keys did not open, with why. -/
  failedAddresses : String → Option String
  /-- Why the lowest-ordered address did not open, if it did not. -/
  defaultFailed : Option String

variable {Key : Type}

def Cache.empty : Cache Key :=
  ⟨none, none, none, none, none, fun _ => none, fun _ => none, none⟩

/-- The cache a client starts with: `new`, `with_key_salts`, `with_key_passphrases`. -/
inductive Start where
  | new
  | withKeySalts (salts : List KeySalt)
  | withKeyPassphrases (passphrases : KeyPassphrases)

def Start.cache : Start → Cache Key
  | .new => .empty
  | .withKeySalts salts => { Cache.empty with keySalts := some salts }
  | .withKeyPassphrases passphrases => { Cache.empty with keyPassphrases := some passphrases }

/-- A call of the client, over its cache. -/
abbrev Call (Key α : Type) := Program (Cache Key) ProtonError α

def invalidBase64Salt (e : String) : ProtonError := .invalidOperation ("invalid base64 salt: " ++ e)

def noActiveUserKey : ProtonError := .invalidOperation "the account has no active user key"

def noPrimaryKey (id : String) : ProtonError :=
  .invalidOperation ("address " ++ id ++ " has no primary key")

section

variable (ops : KeyOps Key) (server : Server)

/-- The keys are tried in turn; the error is the last one's. -/
def decryptArmoredWithKeys (armored : String) (keys : List Key) : Except String Bytes :=
  Except.firstOk (ops.decryptArmored armored) "failed to decrypt: no candidate keys" keys

/-! ## User keys -/

def keySalts : Call Key (List KeySalt) := do
  match ← read Cache.keySalts with
  | some salts => return salts
  | none =>
      let salts ← ofExcept server.keySalts
      modify (fun cache => { cache with keySalts := some salts })
      return salts

/-- The passphrase of each key that has a salt; a later salt of the same key replaces an earlier
one. -/
def derivePassphrases : List KeySalt → KeyPassphrases → Except ProtonError KeyPassphrases
  | [], passphrases => .ok passphrases
  | salt :: salts, passphrases =>
      match salt.value with
      | none => derivePassphrases salts passphrases
      | some text =>
          if text.isEmpty then derivePassphrases salts passphrases
          else do
            let bytes ← (ops.decodeBase64 text).mapError invalidBase64Salt
            let passphrase ← (ops.deriveKeyPassphrase bytes).mapError .crypto
            derivePassphrases salts (Function.update passphrases salt.keyId (some passphrase))

def keyPassphrases : Call Key KeyPassphrases := do
  match ← read Cache.keyPassphrases with
  | some passphrases => return passphrases
  | none =>
      let salts ← keySalts server
      let passphrases ← ofExcept (derivePassphrases ops salts (fun _ => none))
      modify (fun cache => { cache with keyPassphrases := some passphrases })
      return passphrases

/-- The user keys that open, the active ones and the others. -/
def unlockUserKeys (passphrases : KeyPassphrases) : List UserKeyDto → List Key × List Key
  | [] => ([], [])
  | dto :: dtos =>
      let rest := unlockUserKeys passphrases dtos
      match passphrases dto.id with
      | none => rest
      | some passphrase =>
          match ops.fromArmored dto.privateKey passphrase with
          | .error _ => rest
          | .ok key => if dto.isActive then (key :: rest.1, rest.2) else (rest.1, key :: rest.2)

/-- Why there is no active user key that opens. -/
def locked (dtos : List UserKeyDto) : ProtonError :=
  if dtos.any UserKeyDto.isActive then .keysLocked else noActiveUserKey

def userKeys : Call Key (List Key) := do
  match ← read Cache.userKeys with
  | some keys => return keys
  | none =>
      let passphrases ← keyPassphrases ops server
      let dtos ← ofExcept server.users
      let (keys, inactive) := unlockUserKeys ops passphrases dtos
      if keys.isEmpty then ofExcept (.error (locked dtos))
      else
        modify (fun cache =>
          { cache with tokenKeys := some (keys ++ inactive), userKeys := some keys })
        return keys

/-- Every user key that opens, active ones first: what a token may be encrypted to. -/
def tokenKeys : Call Key (List Key) := do
  let _ ← userKeys ops server
  let keys ← read Cache.tokenKeys
  return keys.getD []

/-! ## Addresses -/

/-- The passphrase of an address key: from its token if it has one that is signed, else from the
password. -/
def addressPassphrase (passphrases : KeyPassphrases) (userKeys : List Key)
    (dto : AddressKeyDto) : Option Bytes :=
  match dto.token, dto.signature with
  | some token, some _ => (decryptArmoredWithKeys ops token userKeys).toOption
  | _, _ => passphrases dto.id

structure Opening (Key : Type) where
  keys : List Key
  primaryKeyIndex : Option Nat
  primaryKeyId : Option String

/-- One round of the loop over the keys of an address. -/
def openKey (passphrases : KeyPassphrases) (userKeys : List Key) (opening : Opening Key)
    (dto : AddressKeyDto) : Opening Key :=
  if !dto.isActive then opening
  else
    match addressPassphrase ops passphrases userKeys dto with
    | none => opening
    | some passphrase =>
        match ops.fromArmored dto.privateKey passphrase with
        | .error _ => opening
        | .ok key =>
            if dto.isPrimary && opening.primaryKeyIndex.isNone then
              ⟨opening.keys ++ [key], some opening.keys.length, some dto.id⟩
            else { opening with keys := opening.keys ++ [key] }

/-- The address with its keys, as far as they open. -/
def openAddress (passphrases : KeyPassphrases) (userKeys : List Key) (dto : AddressDto) :
    Except ProtonError (Address × List Key) :=
  let opening := dto.keys.foldl (openKey ops passphrases userKeys) ⟨[], none, none⟩
  match opening.primaryKeyIndex with
  | none => .error (noPrimaryKey dto.id)
  | some primaryKeyIndex =>
      match opening.primaryKeyId with
      | none => .error (noPrimaryKey dto.id)
      | some primaryKeyId =>
          .ok (⟨dto.id, dto.email, dto.order, dto.status, primaryKeyIndex, primaryKeyId⟩,
            opening.keys)

def decryptAddress (dto : AddressDto) : Call Key (Address × List Key) := do
  let userKeys ← tokenKeys ops server
  let passphrases ← keyPassphrases ops server
  ofExcept (openAddress ops passphrases userKeys dto)

/-- What the loop over the addresses has made of those it has seen. -/
structure Loaded where
  addresses : List Address
  failed : String → Option String
  firstError : Option String

def Loaded.none : Loaded := ⟨[], fun _ => .none, .none⟩

/-- The loop over the addresses. One whose keys do not open is left out. -/
def loadAddresses : List AddressDto → Loaded → Call Key Loaded
  | [], loaded => return loaded
  | dto :: dtos, loaded => do
      match ← attempt (decryptAddress ops server dto) with
      | .ok (address, keys) =>
          modify (fun cache =>
            { cache with addressKeys := Function.update cache.addressKeys address.id (some keys) })
          loadAddresses dtos { loaded with addresses := loaded.addresses ++ [address] }
      | .error (.invalidOperation reason) =>
          loadAddresses dtos
            { loaded with
              failed := Function.update loaded.failed dto.id (some reason)
              firstError := some (loaded.firstError.getD reason) }
      | .error e => ofExcept (.error e)

def addresses : Call Key (List Address) := do
  match ← read Cache.addresses with
  | some addresses => return addresses
  | none =>
      let _ ← userKeys ops server
      let response ← ofExcept server.addresses
      let loaded ← loadAddresses ops server response.addresses .none
      match loaded.addresses, loaded.firstError with
      | [], some reason => ofExcept (.error (.invalidOperation reason))
      | _, _ =>
          let addresses := loaded.addresses.mergeSort (FirstMin.byKey Address.order)
          let defaultFailed :=
            (response.addresses.minOn? AddressDto.order).bind (fun dto => loaded.failed dto.id)
          modify (fun cache =>
            { cache with
              failedAddresses := loaded.failed
              defaultFailed := defaultFailed
              addresses := some addresses })
          return addresses

/-- The error for an address that is not among the opened ones. -/
def missing (cache : Cache Key) (id : String) (unknown : String) : ProtonError :=
  match cache.failedAddresses id with
  | some reason => .invalidOperation reason
  | none => .invalidOperation (unknown ++ id)

def address (id : String) : Call Key Address := do
  let addresses ← addresses ops server
  match addresses.find? (fun a => a.id == id) with
  | some a => return a
  | none =>
      let e ← read (fun cache => missing cache id "no address ")
      ofExcept (.error e)

/-- The address with the lowest order, or why it did not open. -/
def defaultAddress : Call Key Address := do
  let addresses ← addresses ops server
  match ← read Cache.defaultFailed with
  | some reason => ofExcept (.error (.invalidOperation reason))
  | none =>
      match addresses.head? with
      | some a => return a
      | none => ofExcept (.error (.invalidOperation "user has no address"))

def addressPrivateKeys (id : String) : Call Key (List Key) := do
  match ← read (fun cache => cache.addressKeys id) with
  | some keys => return keys
  | none =>
      let _ ← addresses ops server
      match ← read (fun cache => cache.addressKeys id) with
      | some keys => return keys
      | none =>
          let e ← read (fun cache => missing cache id "no keys for address ")
          ofExcept (.error e)

/-- The address of a membership, by its id, with the key it signs with. -/
def resolveMembershipAddress (id : String) : Call Key (String × String × Key) := do
  let a ← address ops server id
  let keys ← addressPrivateKeys ops server id
  match keys[a.primaryKeyIndex]? with
  | some key => return (id, a.email, key)
  | none => ofExcept (.error (.invalidOperation "membership address has no primary key"))

def unlock : Call Key Unit := do
  let _ ← userKeys ops server
  return ()

end

/-! ## What the account gives -/

/-- What the server holds of an account, and what its client starts with. -/
structure AccountData where
  start : Start
  keySalts : List KeySalt
  users : List UserKeyDto
  response : AddressListResponse

namespace AccountData

variable (ops : KeyOps Key) (a : AccountData)

/-- A server that answers. -/
def server : Server := ⟨.ok a.keySalts, .ok a.users, .ok a.response⟩

def passphrases : Except ProtonError KeyPassphrases :=
  match a.start with
  | .new => derivePassphrases ops a.keySalts (fun _ => none)
  | .withKeySalts salts => derivePassphrases ops salts (fun _ => none)
  | .withKeyPassphrases passphrases => .ok passphrases

/-- The passphrases, and the user keys that they open, the active ones and the others. -/
def unlocked : Except ProtonError (KeyPassphrases × List Key × List Key) := do
  let passphrases ← a.passphrases ops
  let keys := unlockUserKeys ops passphrases a.users
  if keys.1.isEmpty then .error (locked a.users) else .ok (passphrases, keys)

def openAddress (dto : AddressDto) : Except ProtonError (Address × List Key) := do
  let (passphrases, keys, inactive) ← a.unlocked ops
  Account.openAddress ops passphrases (keys ++ inactive) dto

/-- The address, if its keys open. -/
def opened (dto : AddressDto) : Option Address := (a.openAddress ops dto).toOption.map Prod.fst

def openedKeys (dto : AddressDto) : Option (List Key) :=
  (a.openAddress ops dto).toOption.map Prod.snd

/-- Why the keys of the address do not open. -/
def reason (dto : AddressDto) : Option String :=
  match a.openAddress ops dto with
  | .error (.invalidOperation reason) => some reason
  | _ => none

def failed : String → Option String :=
  a.response.addresses.foldl (record AddressDto.id (a.reason ops)) (fun _ => none)

/-- The keys that are kept under an id: those of the last address with this id that opens. -/
def keysOf : String → Option (List Key) :=
  a.response.addresses.foldl (record AddressDto.id (a.openedKeys ops)) (fun _ => none)

/-- Why the lowest-ordered address does not open, if it does not. -/
def defaultFailed : Option String :=
  (a.response.addresses.minOn? AddressDto.order).bind (fun dto => a.failed ops dto.id)

/-- The addresses in their order; if there are some and none of them opens, the first reason. -/
def loaded : Except ProtonError (List Address) := do
  let _ ← a.unlocked ops
  match a.response.addresses.filterMap (a.opened ops),
      a.response.addresses.findSome? (a.reason ops) with
  | [], some reason => .error (.invalidOperation reason)
  | opened, _ => .ok (opened.mergeSort (FirstMin.byKey Address.order))

end AccountData

/-- During a call, each endpoint gives what the account holds, or fails. -/
structure Server.Of (a : AccountData) (server : Server) : Prop where
  keySalts : ∀ salts, server.keySalts = .ok salts → salts = a.keySalts
  users : ∀ users, server.users = .ok users → users = a.users
  addresses : ∀ response, server.addresses = .ok response → response = a.response

theorem AccountData.server_of (a : AccountData) : a.server.Of a := by
  constructor
  · rintro salts ⟨⟩; rfl
  · rintro users ⟨⟩; rfl
  · rintro response ⟨⟩; rfl

/-- What is loaded of the addresses, in a cache. -/
structure LoadedAs (ops : KeyOps Key) (a : AccountData) (c : Cache Key) (l : List Address) :
    Prop where
  loaded : a.loaded ops = .ok l
  failedAddresses : c.failedAddresses = a.failed ops
  defaultFailed : c.defaultFailed = a.defaultFailed ops
  keys : c.addressKeys = a.keysOf ops

/-- The cache holds nothing but what the account gives. -/
structure Consistent (ops : KeyOps Key) (a : AccountData) (c : Cache Key) : Prop where
  salts : c.keyPassphrases = none →
    derivePassphrases ops (c.keySalts.getD a.keySalts) (fun _ => none) = a.passphrases ops
  passphrases : ∀ passphrases, c.keyPassphrases = some passphrases →
    a.passphrases ops = .ok passphrases
  userKeys : ∀ keys, c.userKeys = some keys → ∃ passphrases inactive,
    a.unlocked ops = .ok (passphrases, keys, inactive) ∧
      c.keyPassphrases = some passphrases ∧ c.tokenKeys = some (keys ++ inactive)
  addressKeys : ∀ id keys, c.addressKeys id = some keys → a.keysOf ops id = some keys
  addresses : ∀ l, c.addresses = some l → LoadedAs ops a c l

theorem LoadedAs.congr {ops : KeyOps Key} {a : AccountData} {c c' : Cache Key} {l : List Address}
    (h : LoadedAs ops a c l) (hfailed : c'.failedAddresses = c.failedAddresses)
    (hdefault : c'.defaultFailed = c.defaultFailed) (hkeys : c'.addressKeys = c.addressKeys) :
    LoadedAs ops a c' l :=
  ⟨h.loaded, hfailed.trans h.failedAddresses, hdefault.trans h.defaultFailed, hkeys.trans h.keys⟩

theorem consistent_start (ops : KeyOps Key) (a : AccountData) : Consistent ops a a.start.cache := by
  constructor
  · intro h
    unfold AccountData.passphrases
    cases hstart : a.start with
    | new => rfl
    | withKeySalts salts => rfl
    | withKeyPassphrases passphrases =>
        rw [hstart] at h
        cases h
  · intro passphrases h
    unfold AccountData.passphrases
    cases hstart : a.start with
    | new => rw [hstart] at h; cases h
    | withKeySalts salts => rw [hstart] at h; cases h
    | withKeyPassphrases passphrases' => rw [hstart] at h; cases h; rfl
  all_goals
    intros
    cases hstart : a.start <;> simp_all [Start.cache, Cache.empty]

/-- From this cache the call comes back, leaves a consistent cache that satisfies `Q` if it succeeds,
and returns `r` unless the server fails. -/
def Gives {α : Type} (ops : KeyOps Key) (a : AccountData) (server : Server) (x : Call Key α)
    (r : Except ProtonError α) (Q : Cache Key → Prop) (c : Cache Key) : Prop :=
  ∃ c' r', x.run c = some (c', r') ∧ Consistent ops a c' ∧
    (r' = r ∨ server ≠ a.server ∧ ∃ e, r' = .error e) ∧ ∀ v, r' = .ok v → Q c'

section

variable {ops : KeyOps Key} {a : AccountData} {server : Server} {α β : Type} {c : Cache Key}
  {Q Q' : Cache Key → Prop}

theorem Gives.ok {v : α} (hc : Consistent ops a c) (hQ : Q c) :
    Gives ops a server (pure v) (.ok v) Q c :=
  ⟨c, .ok v, rfl, hc, .inl rfl, fun _ _ => hQ⟩

theorem Gives.ofExcept {r : Except ProtonError α} (hc : Consistent ops a c) (hQ : Q c) :
    Gives ops a server (Program.ofExcept r) r Q c :=
  ⟨c, r, rfl, hc, .inl rfl, fun _ _ => hQ⟩

theorem Gives.error {e : ProtonError} (hc : Consistent ops a c) :
    Gives ops a server (Program.ofExcept (.error e) : Call Key α) (.error e) Q c :=
  ⟨c, .error e, rfl, hc, .inl rfl, fun _ h => nomatch h⟩

theorem Gives.bind {x : Call Key α} {r : Except ProtonError α} {f : α → Call Key β}
    {t : α → Except ProtonError β} (hx : Gives ops a server x r Q c)
    (hf : ∀ v, r = .ok v → ∀ c, Consistent ops a c → Q c → Gives ops a server (f v) (t v) Q' c) :
    Gives ops a server (x >>= f) (r >>= t) Q' c := by
  obtain ⟨c₁, r₁, hrun, hc₁, hr₁, hQ⟩ := hx
  cases r₁ with
  | error e =>
      refine ⟨c₁, .error e, Program.bind_error hrun, hc₁, ?_, fun w hw => nomatch hw⟩
      rcases hr₁ with rfl | ⟨hserver, -⟩
      · exact .inl rfl
      · exact .inr ⟨hserver, e, rfl⟩
  | ok v =>
      rcases hr₁ with rfl | ⟨-, e, he⟩
      · obtain ⟨c₂, r₂, hrun₂, hrest⟩ := hf v rfl c₁ hc₁ (hQ v rfl)
        exact ⟨c₂, r₂, by rw [Program.bind_ok hrun]; exact hrun₂, hrest⟩
      · cases he

theorem Gives.run {x : Call Key α} {c' : Cache Key} {v : α} {f : α → Call Key β}
    {r : Except ProtonError β} (hrun : x.run c = some (c', .ok v))
    (h : Gives ops a server (f v) r Q c') : Gives ops a server (x >>= f) r Q c := by
  obtain ⟨c₂, r₂, hrun₂, hrest⟩ := h
  exact ⟨c₂, r₂, by rw [Program.bind_ok hrun]; exact hrun₂, hrest⟩

/-- A request gives what the account holds, or fails. -/
theorem Gives.request {answer : Except ProtonError α} {held : α} (hc : Consistent ops a c)
    (hQ : Q c) (hanswer : ∀ v, answer = .ok v → v = held)
    (hserver : ∀ e, answer = .error e → server ≠ a.server) :
    Gives ops a server (Program.ofExcept answer) (.ok held) Q c := by
  cases answer with
  | error e => exact ⟨c, .error e, rfl, hc, .inr ⟨hserver e rfl, e, rfl⟩, fun _ h => nomatch h⟩
  | ok v =>
      obtain rfl := hanswer v rfl
      exact ⟨c, .ok v, rfl, hc, .inl rfl, fun _ _ => hQ⟩

/-- What is read of the cache is the cache's. -/
theorem Gives.read {g : Cache Key → α} {f : α → Call Key β} {r : Except ProtonError β}
    (h : Gives ops a server (f (g c)) r Q c) : Gives ops a server (Program.read g >>= f) r Q c := h

theorem Gives.modify {g : Cache Key → Cache Key} {x : Unit → Call Key β} {r : Except ProtonError β}
    (h : Gives ops a server (x ()) r Q (g c)) :
    Gives ops a server (Program.modify g >>= x) r Q c := h

/-! ## The calls -/

theorem gives_keySalts (hof : server.Of a) (hc : Consistent ops a c) :
    Gives ops a server (keySalts server) (.ok (c.keySalts.getD a.keySalts))
      (fun c' => c'.keyPassphrases = c.keyPassphrases) c := by
  unfold keySalts
  apply Gives.read
  cases hsalts : c.keySalts with
  | some salts => exact .ok hc rfl
  | none =>
      apply Gives.bind (t := fun salts => .ok salts) (Q := fun c' => c' = c)
        (.request hc rfl hof.keySalts (fun e he hserver => by cases hserver; cases he))
      rintro salts ⟨⟩ c' - rfl
      apply Gives.modify
      refine .ok ?_ rfl
      have hderive := hc.salts
      rw [hsalts] at hderive
      exact ⟨hderive, hc.passphrases, hc.userKeys, hc.addressKeys,
        fun l hl => (hc.addresses l hl).congr rfl rfl rfl⟩

theorem gives_keyPassphrases (hof : server.Of a) (hc : Consistent ops a c) :
    Gives ops a server (keyPassphrases ops server) (a.passphrases ops)
      (fun c' => c'.keyPassphrases.isSome) c := by
  unfold keyPassphrases
  apply Gives.read
  cases hpass : c.keyPassphrases with
  -- Cached passphrases are those that the data give.
  | some passphrases =>
      rw [hc.passphrases passphrases hpass]
      exact .ok hc (by rw [hpass]; rfl)
  | none =>
      -- Else they are derived from the salts, cached ones first.
      have hderive : a.passphrases ops =
          (Except.ok (c.keySalts.getD a.keySalts) >>= fun salts =>
            derivePassphrases ops salts (fun _ => none) >>= fun passphrases =>
              .ok passphrases) := by
        rw [← hc.salts hpass]
        show derivePassphrases ops _ _ = (derivePassphrases ops _ _ >>= pure)
        rw [bind_pure]
      rw [hderive]
      apply (gives_keySalts hof hc).bind
      rintro salts hsalts c' hc' hpass'
      apply Gives.bind (Q := fun c'' => c'' = c') (.ofExcept hc' rfl)
      rintro passphrases hpassphrases c'' - rfl
      apply Gives.modify
      have hgives : a.passphrases ops = .ok passphrases := by
        cases hsalts
        rw [← hc.salts hpass, hpassphrases]
      refine .ok ⟨?_, ?_, ?_, hc'.addressKeys, fun l hl => (hc'.addresses l hl).congr rfl rfl rfl⟩ rfl
      · intro h
        cases h
      · rintro p ⟨⟩
        exact hgives
      · intro keys hkeys
        obtain ⟨p, inactive, hunlocked, hp, htoken⟩ := hc'.userKeys keys hkeys
        rw [hpass', hpass] at hp
        cases hp

theorem gives_userKeys (hof : server.Of a) (hc : Consistent ops a c) :
    Gives ops a server (userKeys ops server) ((a.unlocked ops).map (fun u => u.2.1))
      (fun c' => c'.userKeys.isSome) c := by
  unfold userKeys
  apply Gives.read
  cases huser : c.userKeys with
  | some keys =>
      obtain ⟨p, inactive, hunlocked, -, -⟩ := hc.userKeys keys huser
      rw [hunlocked]
      exact .ok hc (by rw [huser]; rfl)
  | none =>
      -- The keys are unlocked with the passphrases, and at least one has to open.
      have hspec : (a.unlocked ops).map (fun u => u.2.1) =
          (a.passphrases ops >>= fun p => Except.ok a.users >>= fun users =>
            if (unlockUserKeys ops p users).1.isEmpty then .error (locked users)
            else .ok (unlockUserKeys ops p users).1) := by
        unfold AccountData.unlocked
        cases a.passphrases ops with
        | error e => rfl
        | ok p =>
            show Except.map _ (if _ then _ else _) = if _ then _ else _
            split <;> rfl
      rw [hspec]
      apply (gives_keyPassphrases hof hc).bind
      intro p hp c₁ hc₁ hsome
      apply Gives.bind (Q := fun c₂ => c₂ = c₁)
        (.request hc₁ rfl hof.users (fun e he hserver => by cases hserver; cases he))
      rintro users ⟨⟩ c₂ - rfl
      dsimp only
      split
      · exact .error hc₁
      · -- The keys are cached together with the passphrases that opened them.
        next hempty =>
        apply Gives.modify
        refine .ok ⟨hc₁.salts, hc₁.passphrases, ?_, hc₁.addressKeys,
          fun l hl => (hc₁.addresses l hl).congr rfl rfl rfl⟩ rfl
        rintro keys ⟨⟩
        obtain ⟨p', hp'⟩ := Option.isSome_iff_exists.mp hsome
        have hpp := hc₁.passphrases p' hp'
        rw [hp] at hpp
        cases hpp
        refine ⟨p, (unlockUserKeys ops p a.users).2, ?_, hp', rfl⟩
        unfold AccountData.unlocked
        rw [hp]
        show (if _ then _ else _) = _
        rw [if_neg hempty]

/-! ## Loading the addresses -/

/-- An address that opens is the one of its data; one that does not is recorded with a reason. -/
theorem openAddress_cases (hunlocked : ∃ u, a.unlocked ops = .ok u) (dto : AddressDto) :
    (∃ address keys, a.openAddress ops dto = .ok (address, keys) ∧ address.id = dto.id ∧
      address.order = dto.order) ∨
    ∃ reason, a.openAddress ops dto = .error (.invalidOperation reason) := by
  obtain ⟨⟨passphrases, keys, inactive⟩, hu⟩ := hunlocked
  have hopen : a.openAddress ops dto =
      Account.openAddress ops passphrases (keys ++ inactive) dto := by
    unfold AccountData.openAddress
    rw [hu]
    rfl
  rw [hopen]
  unfold Account.openAddress
  dsimp only
  split
  · exact .inr ⟨_, rfl⟩
  · split
    · exact .inr ⟨_, rfl⟩
    · exact .inl ⟨_, _, rfl, rfl, rfl⟩

/-- The user keys are in the cache, with all that opening an address needs. -/
def Ready (ops : KeyOps Key) (a : AccountData) (c : Cache Key) : Prop :=
  ∃ passphrases keys inactive, a.unlocked ops = .ok (passphrases, keys, inactive) ∧
    c.userKeys = some keys ∧ c.keyPassphrases = some passphrases ∧
    c.tokenKeys = some (keys ++ inactive)

theorem Consistent.ready (hc : Consistent ops a c) (huser : c.userKeys.isSome) : Ready ops a c := by
  obtain ⟨keys, hkeys⟩ := Option.isSome_iff_exists.mp huser
  obtain ⟨passphrases, inactive, hunlocked, hp, htoken⟩ := hc.userKeys keys hkeys
  exact ⟨passphrases, keys, inactive, hunlocked, hkeys, hp, htoken⟩

/-- Once the user keys are loaded, opening an address asks for nothing. -/
theorem run_decryptAddress (server : Server) (hready : Ready ops a c) (dto : AddressDto) :
    (decryptAddress ops server dto).run c = some (c, a.openAddress ops dto) := by
  obtain ⟨passphrases, keys, inactive, hunlocked, hkeys, hp, htoken⟩ := hready
  have huserRun : (userKeys ops server).run c = some (c, .ok keys) := by
    unfold userKeys
    rw [Program.read_bind, hkeys]
    rfl
  have htokenRun : (tokenKeys ops server).run c = some (c, .ok (keys ++ inactive)) := by
    unfold tokenKeys
    rw [Program.bind_ok huserRun, Program.read_bind, htoken]
    rfl
  have hpassRun : (keyPassphrases ops server).run c = some (c, .ok passphrases) := by
    unfold keyPassphrases
    rw [Program.read_bind, hp]
    rfl
  unfold decryptAddress AccountData.openAddress
  rw [Program.bind_ok htokenRun, Program.bind_ok hpassRun, hunlocked]
  rfl

/-- What the loop makes of the addresses. -/
structure LoadedFrom (ops : KeyOps Key) (a : AccountData) (dtos : List AddressDto)
    (loaded loaded' : Loaded) : Prop where
  addresses : loaded'.addresses = loaded.addresses ++ dtos.filterMap (a.opened ops)
  failed : loaded'.failed = dtos.foldl (record AddressDto.id (a.reason ops)) loaded.failed
  firstError : loaded'.firstError = loaded.firstError.or (dtos.findSome? (a.reason ops))

/-- What an address that opens adds to what has been loaded. -/
theorem recorded_of_opened {dto : AddressDto} {address : Address} {keys : List Key}
    (hopen : a.openAddress ops dto = .ok (address, keys)) (known : String → Option (List Key)) :
    a.opened ops dto = some address ∧ a.reason ops dto = none ∧
      record AddressDto.id (a.openedKeys ops) known dto =
        Function.update known dto.id (some keys) := by
  unfold AccountData.opened AccountData.reason record AccountData.openedKeys
  rw [hopen]
  exact ⟨rfl, rfl, rfl⟩

/-- An address that fails adds its reason, and leaves the keys alone. -/
theorem recorded_of_failed {dto : AddressDto} {reason : String}
    (hopen : a.openAddress ops dto = .error (.invalidOperation reason))
    (known : String → Option (List Key)) :
    a.opened ops dto = none ∧ a.reason ops dto = some reason ∧
      record AddressDto.id (a.openedKeys ops) known dto = known := by
  unfold AccountData.opened AccountData.reason record AccountData.openedKeys
  rw [hopen]
  exact ⟨rfl, rfl, rfl⟩

/-- The loop goes over all addresses, and files the keys of each that opens under its id. In between,
the cache may hold keys that a later address with the same id replaces. -/
theorem run_loadAddresses (server : Server) (hready : Ready ops a c) (dtos : List AddressDto)
    (loaded : Loaded) :
    ∃ loaded', (loadAddresses ops server dtos loaded).run c =
        some ({ c with
          addressKeys := dtos.foldl (record AddressDto.id (a.openedKeys ops)) c.addressKeys },
          .ok loaded') ∧
      LoadedFrom ops a dtos loaded loaded' := by
  have hunlocked : ∃ u, a.unlocked ops = .ok u := by
    obtain ⟨passphrases, keys, inactive, hu, -⟩ := hready
    exact ⟨_, hu⟩
  induction dtos generalizing c loaded with
  | nil => exact ⟨loaded, rfl, by simp, rfl, by simp⟩
  | cons dto dtos ih =>
      have hrun := Program.attempt_run.mpr (run_decryptAddress server hready dto)
      unfold loadAddresses
      rw [Program.bind_ok hrun]
      rcases openAddress_cases hunlocked dto with ⟨address, keys, hopen, hid, -⟩ | ⟨reason, hopen⟩
      · -- The address is added, and its keys replace those of an earlier one with its id.
        obtain ⟨hopened, hreason, hkeys⟩ := recorded_of_opened hopen c.addressKeys
        rw [hopen]
        dsimp only
        rw [Program.modify_bind, hid, ← hkeys]
        have hready' : Ready ops a { c with
            addressKeys := record AddressDto.id (a.openedKeys ops) c.addressKeys dto } := hready
        obtain ⟨loaded', hrun', h⟩ :=
          ih hready' { loaded with addresses := loaded.addresses ++ [address] }
        refine ⟨loaded', hrun', ?_, ?_, ?_⟩
        · rw [h.addresses, List.filterMap_cons_some hopened, List.append_assoc]
          rfl
        · rw [h.failed, List.foldl_cons, record, hreason]
        · rw [h.firstError, List.findSome?_cons, hreason]
      · -- The reason is kept under the id, and as the first one if it is that.
        obtain ⟨hopened, hreason, hkeys⟩ := recorded_of_failed hopen c.addressKeys
        rw [hopen, List.foldl_cons, hkeys]
        dsimp only
        obtain ⟨loaded', hrun', h⟩ := ih hready
          { loaded with
            failed := Function.update loaded.failed dto.id (some reason)
            firstError := some (loaded.firstError.getD reason) }
        refine ⟨loaded', hrun', ?_, ?_, ?_⟩
        · rw [h.addresses, List.filterMap_cons_none hopened]
        · rw [h.failed, List.foldl_cons, record, hreason]
        · rw [h.firstError, List.findSome?_cons, hreason]
          cases loaded.firstError <;> rfl

/-- After the loop, the keys are those of the last address that opens under each id, since no others
were there before. -/
theorem Consistent.load (hc : Consistent ops a c) :
    a.response.addresses.foldl (record AddressDto.id (a.openedKeys ops)) c.addressKeys =
      a.keysOf ops :=
  Records.foldl_record_of_le hc.addressKeys

theorem gives_addresses (hof : server.Of a) (hc : Consistent ops a c) :
    Gives ops a server (addresses ops server) (a.loaded ops) (fun c' => c'.addresses.isSome) c := by
  unfold addresses
  apply Gives.read
  cases haddresses : c.addresses with
  | some l =>
      rw [(hc.addresses l haddresses).loaded]
      exact .ok hc (by rw [haddresses]; rfl)
  | none =>
      -- The user keys come first, then the request, then the loop over the addresses.
      have hspec : a.loaded ops = ((a.unlocked ops).map (fun u => u.2.1) >>= fun _ =>
          Except.ok a.response >>= fun response =>
            match response.addresses.filterMap (a.opened ops),
                response.addresses.findSome? (a.reason ops) with
            | [], some reason => .error (.invalidOperation reason)
            | opened, _ => .ok (opened.mergeSort (FirstMin.byKey Address.order))) := by
        unfold AccountData.loaded
        cases a.unlocked ops <;> rfl
      rw [hspec]
      apply (gives_userKeys hof hc).bind
      intro keys hkeys c₁ hc₁ huser
      have hunlocked : ∃ u, a.unlocked ops = .ok u := by
        obtain ⟨u, hu, -⟩ := Except.map_eq_ok.mp hkeys
        exact ⟨u, hu⟩
      have hready := hc₁.ready huser
      apply Gives.bind (Q := fun c₂ => c₂ = c₁)
        (.request hc₁ rfl hof.addresses (fun e he hserver => by cases hserver; cases he))
      rintro response ⟨⟩ c₂ - rfl
      -- What the loop leaves is known from the data: the addresses opened and the first reason.
      obtain ⟨loaded, hrun, h⟩ := run_loadAddresses server hready a.response.addresses .none
      rw [hc₁.load] at hrun
      have haddr : loaded.addresses = a.response.addresses.filterMap (a.opened ops) := by
        rw [h.addresses]
        rfl
      have hfirst : loaded.firstError = a.response.addresses.findSome? (a.reason ops) := by
        rw [h.firstError]
        rfl
      apply Gives.run hrun
      have hloaded : a.loaded ops = (match loaded.addresses, loaded.firstError with
          | [], some reason => .error (.invalidOperation reason)
          | opened, _ => .ok (opened.mergeSort (FirstMin.byKey Address.order))) := by
        obtain ⟨u, hu⟩ := hunlocked
        rw [haddr, hfirst]
        unfold AccountData.loaded
        rw [hu]
        rfl
      rw [← haddr, ← hfirst]
      dsimp only
      have hc₃ : Consistent ops a { c₂ with addressKeys := a.keysOf ops } := by
        refine ⟨hc₁.salts, hc₁.passphrases, hc₁.userKeys, fun _ _ hkeys => hkeys, ?_⟩
        intro l hl
        have hloadedAs := hc₁.addresses l hl
        exact ⟨hloadedAs.loaded, hloadedAs.failedAddresses, hloadedAs.defaultFailed, rfl⟩
      -- None opened: the first reason is the error, and no address is cached.
      split
      · exact .error hc₃
      · next hsome =>
        have hok : a.loaded ops =
            .ok (loaded.addresses.mergeSort (FirstMin.byKey Address.order)) := by
          rw [hloaded]
          split
          · next hnil hreason => exact absurd hreason (hsome _ hnil)
          · rfl
        apply Gives.modify
        refine .ok ⟨hc₃.salts, hc₃.passphrases, hc₃.userKeys, hc₃.addressKeys, ?_⟩ rfl
        rintro l ⟨⟩
        refine ⟨hok, h.failed, ?_, rfl⟩
        show _ = AccountData.defaultFailed ops a
        unfold AccountData.defaultFailed
        rw [h.failed]
        rfl

end

end ProtonDrive.Account
