import ProtonDrive.Sdk.Account

/-!
# The report on the key chain

`key_report` walks the chain of the unlock path and records every step, where the unlock path skips
what fails.

* `reportAddressKey_unlocks` — a key is reported to unlock exactly if the unlock path's own step opens
  it.
* `foldl_openKey` — the keys of an address that open, and which of them is the primary one.
-/

namespace ProtonDrive.Account

open OpenPgp (Bytes)
open Program (read modify ofExcept attempt)

/-! ## The report -/

structure UserKeyReport where
  id : String
  primary : Bool
  active : Bool
  unlocks : Bool
  error : Option String
  keyIds : List String
  deriving DecidableEq, Repr

structure AddressKeyReport where
  id : String
  primary : Bool
  active : Bool
  /-- The keys the token is encrypted to; `none` for a key without a token. -/
  tokenRecipients : Option (List (Option String))
  unlocks : Bool
  error : Option String
  keyIds : List String
  deriving DecidableEq, Repr

structure AddressReport where
  id : String
  email : String
  keys : List AddressKeyReport
  deriving DecidableEq, Repr

structure KeyReport where
  userKeys : List UserKeyReport
  addresses : List AddressReport
  deriving DecidableEq, Repr

variable {Key : Type}

/-- The error of a computation that failed. -/
def errorOf {α : Type} : Except String α → Option String
  | .ok _ => none
  | .error e => some e

section

variable (ops : KeyOps Key) (server : Server) (passphrases : KeyPassphrases)

def unlockReported (dto : UserKeyDto) : Except String Key :=
  match passphrases dto.id with
  | some passphrase => ops.fromArmored dto.privateKey passphrase
  | none => .error "no passphrase for this key"

def reportUserKey (dto : UserKeyDto) : UserKeyReport :=
  let unlocked := unlockReported ops passphrases dto
  { id := dto.id
    primary := dto.primary != 0
    active := dto.isActive
    unlocks := unlocked.isOk
    error := errorOf unlocked
    keyIds := ops.keyIds dto.privateKey }

/-- The user keys that open, active ones first. -/
def reportTokenKeys (dtos : List UserKeyDto) : List Key :=
  (dtos.filter UserKeyDto.isActive).filterMap
      (fun dto => (unlockReported ops passphrases dto).toOption) ++
    (dtos.filter (fun dto => !dto.isActive)).filterMap
      (fun dto => (unlockReported ops passphrases dto).toOption)

/-- The passphrase of an address key, or why there is none. -/
def reportPassphrase (tokenKeys : List Key) (dto : AddressKeyDto) : Except String Bytes :=
  match dto.token, dto.signature with
  | some token, some _ =>
      (decryptArmoredWithKeys ops token tokenKeys).mapError (fun e => "token: " ++ e)
  | _, _ =>
      match passphrases dto.id with
      | some passphrase => .ok passphrase
      | none => .error "no passphrase for this key"

def reportAddressKey (tokenKeys : List Key) (dto : AddressKeyDto) : AddressKeyReport :=
  let unlocked := (reportPassphrase ops passphrases tokenKeys dto).bind
    (fun passphrase => ops.fromArmored dto.privateKey passphrase)
  { id := dto.id
    primary := dto.isPrimary
    active := dto.isActive
    tokenRecipients := dto.token.map ops.recipients
    unlocks := unlocked.isOk
    error := errorOf unlocked
    keyIds := ops.keyIds dto.privateKey }

def reportAddress (tokenKeys : List Key) (dto : AddressDto) : AddressReport where
  id := dto.id
  email := dto.email
  keys := dto.keys.map (reportAddressKey ops passphrases tokenKeys)

/-- Asks the server each time, and caches nothing but the passphrases it derives. -/
def keyReport : Call Key KeyReport := do
  let passphrases ← keyPassphrases ops server
  let users ← ofExcept server.users
  let response ← ofExcept server.addresses
  let tokenKeys := reportTokenKeys ops passphrases users
  return {
    userKeys := users.map (reportUserKey ops passphrases)
    addresses := response.addresses.map (reportAddress ops passphrases tokenKeys) }

end

/-! ## The two paths -/

section

variable {ops : KeyOps Key} {passphrases : KeyPassphrases}

/-- Both paths try the same user keys on a token, in the same order. -/
theorem unlockUserKeys_eq (dtos : List UserKeyDto) :
    unlockUserKeys ops passphrases dtos =
      ((dtos.filter UserKeyDto.isActive).filterMap
          (fun dto => (unlockReported ops passphrases dto).toOption),
        (dtos.filter (fun dto => !dto.isActive)).filterMap
          (fun dto => (unlockReported ops passphrases dto).toOption)) := by
  induction dtos with
  | nil => rfl
  | cons dto dtos ih =>
      unfold unlockUserKeys
      rw [ih]
      cases hactive : dto.isActive <;> cases hpass : passphrases dto.id with
      | none => simp [hactive, unlockReported, hpass, Except.toOption]
      | some passphrase =>
          cases hkey : ops.fromArmored dto.privateKey passphrase <;>
            simp [hactive, unlockReported, hpass, hkey, Except.toOption]

/-- The step of the unlock path that opens one address key. -/
def openedKey (ops : KeyOps Key) (passphrases : KeyPassphrases) (userKeys : List Key)
    (dto : AddressKeyDto) : Option Key :=
  (addressPassphrase ops passphrases userKeys dto).bind
    (fun passphrase => (ops.fromArmored dto.privateKey passphrase).toOption)

theorem reportPassphrase_toOption (userKeys : List Key) (dto : AddressKeyDto) :
    (reportPassphrase ops passphrases userKeys dto).toOption =
      addressPassphrase ops passphrases userKeys dto := by
  unfold reportPassphrase addressPassphrase
  cases dto.token with
  | none => cases passphrases dto.id <;> rfl
  | some token =>
      cases dto.signature with
      | none => cases passphrases dto.id <;> rfl
      | some signature =>
          show (Except.mapError _ (decryptArmoredWithKeys ops token userKeys)).toOption =
            (decryptArmoredWithKeys ops token userKeys).toOption
          cases decryptArmoredWithKeys ops token userKeys <;> rfl

theorem reportAddressKey_unlocks (userKeys : List Key) (dto : AddressKeyDto) :
    (reportAddressKey ops passphrases userKeys dto).unlocks =
      (openedKey ops passphrases userKeys dto).isSome := by
  unfold openedKey
  rw [← reportPassphrase_toOption]
  unfold reportAddressKey
  dsimp only
  cases reportPassphrase ops passphrases userKeys dto with
  | error e => rfl
  | ok passphrase =>
      show (ops.fromArmored dto.privateKey passphrase).isOk =
        (ops.fromArmored dto.privateKey passphrase).toOption.isSome
      cases ops.fromArmored dto.privateKey passphrase <;> rfl

/-- The active keys of an address that open, each with its data. -/
def openedEntries (ops : KeyOps Key) (passphrases : KeyPassphrases) (userKeys : List Key)
    (dtos : List AddressKeyDto) : List (AddressKeyDto × Key) :=
  (dtos.filter AddressKeyDto.isActive).filterMap
    (fun dto => (openedKey ops passphrases userKeys dto).map (fun key => (dto, key)))

/-- What the loop has when these keys have opened: the first primary one stands where the index
says. -/
def openingOf (entries : List (AddressKeyDto × Key)) : Opening Key where
  keys := entries.map Prod.snd
  primaryKeyIndex := entries.findIdx? (fun e => e.1.isPrimary)
  primaryKeyId := (entries.find? (fun e => e.1.isPrimary)).map (fun e => e.1.id)

/-- One round adds the key to those that have opened, if it is active and opens. -/
theorem openKey_openingOf (userKeys : List Key) (entries : List (AddressKeyDto × Key))
    (dto : AddressKeyDto) :
    openKey ops passphrases userKeys (openingOf entries) dto =
      openingOf (entries ++ openedEntries ops passphrases userKeys [dto]) := by
  unfold openKey openedEntries openedKey
  cases hactive : dto.isActive with
  | false => simp [hactive]
  | true =>
      cases hpass : addressPassphrase ops passphrases userKeys dto with
      | none => simp [hactive, hpass]
      | some passphrase =>
          cases hkey : ops.fromArmored dto.privateKey passphrase with
          | error e => simp [hactive, hpass, hkey, Except.toOption]
          | ok key =>
              -- The first primary key is recorded, and a later one is not.
              simp only [hactive, hpass, hkey, Bool.not_true, Bool.false_eq_true, if_false,
                List.filter_cons, List.filter_nil, if_true, List.filterMap_cons,
                List.filterMap_nil, Option.bind_some, Except.toOption, Option.map_some]
              have hindex : (entries.findIdx? (fun e => e.1.isPrimary)).isSome =
                  (entries.find? (fun e => e.1.isPrimary)).isSome := by
                rw [List.findIdx?_isSome, List.isSome_find?]
              unfold openingOf
              rw [List.findIdx?_append, List.find?_append, List.map_append]
              cases hprimary : dto.isPrimary with
              | false => simp [hprimary]
              | true =>
                  cases hfirst : entries.find? (fun e => e.1.isPrimary) with
                  | none =>
                      rw [hfirst, Option.isSome_none, Option.isSome_eq_false_iff,
                        Option.isNone_iff_eq_none] at hindex
                      simp [hprimary, hindex]
                  | some e =>
                      obtain ⟨i, hi⟩ := Option.isSome_iff_exists.mp (hindex.trans (by rw [hfirst]; rfl))
                      simp [hi]

theorem foldl_openKey (userKeys : List Key) (entries : List (AddressKeyDto × Key))
    (dtos : List AddressKeyDto) :
    dtos.foldl (openKey ops passphrases userKeys) (openingOf entries) =
      openingOf (entries ++ openedEntries ops passphrases userKeys dtos) := by
  induction dtos generalizing entries with
  | nil => simp [openedEntries]
  | cons dto dtos ih =>
      have hcons : openedEntries ops passphrases userKeys (dto :: dtos) =
          openedEntries ops passphrases userKeys [dto] ++
            openedEntries ops passphrases userKeys dtos := by
        unfold openedEntries
        rw [← List.filterMap_append, ← List.filter_append]
        rfl
      rw [List.foldl_cons, openKey_openingOf, ih, hcons, List.append_assoc]

end

end ProtonDrive.Account
