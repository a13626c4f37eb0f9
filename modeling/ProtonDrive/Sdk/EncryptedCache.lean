import ProtonDrive.Lib.Base64
import ProtonDrive.Lib.Program
import ProtonDrive.Sdk.Cache
import ProtonDrive.Sdk.Error

/-!
# The encrypted cache

`EncryptedCacheRepository` keeps the values of a repository encrypted, each under a key of its own:
HKDF makes it of a fresh salt and of the name of the entry. What is stored is the salt and what
AES-GCM has made of the value, in Base64. The names of the entries and their tags are not encrypted.

A value that AES-GCM does not open empties the whole repository, and is a miss.

* `decrypt_seal` — what has been stored under a name opens under this name.
* `decrypt_eq_error_iff`, `not_malformed_iff` — the values that are neither opened nor taken for a
  miss, and those that are.
* `encrypted_transparent` — over the in-memory repository the wrapper answers as the repository
  itself would.
-/

namespace ProtonDrive

/-- The `CacheRepository` trait. -/
structure CacheRepository (σ : Type) where
  set : (key value : String) → (tags : List String) → Program σ ProtonError Unit
  get : (key : String) → Program σ ProtonError (Option String)
  remove : (key : String) → Program σ ProtonError Unit
  removeByTag : (tag : String) → Program σ ProtonError Unit
  clear : Program σ ProtonError Unit
  getByTags : (tags : List String) → Program σ ProtonError (List (String × String))

/-- A repository whose operations succeed, and which gives out what it holds. -/
structure LawfulRepository (σ : Type) extends CacheRepository σ where
  stored : σ → String → Option String
  get_run : ∀ s key, ∃ s', (get key).run s = some (s', .ok (stored s key)) ∧ stored s' = stored s
  getByTags_run : ∀ s tags, ∃ s' entries, (getByTags tags).run s = some (s', .ok entries) ∧
    stored s' = stored s ∧ ∀ e ∈ entries, stored s e.1 = some e.2
  remove_run : ∀ s key, ∃ s', (remove key).run s = some (s', .ok ()) ∧
    stored s' = Function.update (stored s) key none
  clear_run : ∀ s, ∃ s', clear.run s = some (s', .ok ()) ∧ stored s' = fun _ => none

/-- An operation, on any repository. -/
def CacheRepository.step {σ : Type} (repo : CacheRepository σ) :
    Cache.CacheOp → Program σ ProtonError Cache.CacheResult
  | .set key value tags => do
      repo.set key value tags
      return .done
  | .get key => return .value (← repo.get key)
  | .remove key => do
      repo.remove key
      return .done
  | .removeByTag tag => do
      repo.removeByTag tag
      return .done
  | .clear => do
      repo.clear
      return .done
  | .getByTags tags => return .entries (← repo.getByTags tags)

/-- Operations one after the other; one that fails does not keep the next one from being made. -/
def CacheRepository.runAll {σ : Type} (repo : CacheRepository σ) (ops : List Cache.CacheOp) :
    Program σ ProtonError (List (Except ProtonError Cache.CacheResult)) :=
  Program.traverse (fun op => (repo.step op).attempt) ops

/-- The in-memory repository. Its operations do not fail. -/
def Cache.inMemory {L : LruCache String String} (order : Cache.HashOrder) :
    CacheRepository (Cache.InMemoryState L) where
  set key value tags := .modify (fun s => Cache.set order s key value tags)
  get key := ⟨fun s => some ((Cache.get s key).2, .ok (Cache.get s key).1)⟩
  remove key := .modify (fun s => Cache.remove order s key)
  removeByTag tag := .modify (fun s => Cache.removeByTag order s tag)
  clear := .modify Cache.clear
  getByTags tags := .read (fun s => Cache.getByTags order s tags)

/-- What is found by tags is what is stored under its key. -/
theorem Cache.mem_getByTags_lookup {L : LruCache String String} {order : Cache.HashOrder}
    {s : Cache.InMemoryState L} {tags : List String} {e : String × String}
    (h : e ∈ Cache.getByTags order s tags) : (L.view s.entries).lookup e.1 = some e.2 := by
  by_cases htags : tags = []
  · rw [htags] at h
    exact absurd h (by simp [Cache.getByTags])
  · rw [Cache.getByTags_eq s htags, List.mem_filterMap] at h
    obtain ⟨key, -, hpeek⟩ := h
    obtain ⟨value, hvalue, rfl⟩ := Option.map_eq_some_iff.mp hpeek
    rwa [L.peek_eq] at hvalue

/-- It gives out what its `LruCache` shows. -/
def Cache.lawfulInMemory {L : LruCache String String} (order : Cache.HashOrder) :
    LawfulRepository (Cache.InMemoryState L) where
  toCacheRepository := Cache.inMemory order
  stored s key := (L.view s.entries).lookup key
  get_run := by
    intro s key
    refine ⟨(Cache.get s key).2, ?_, ?_⟩
    · rw [← L.get_fst]
      rfl
    · funext j
      show (L.view (L.get s.entries key).2).lookup j = _
      rw [L.view_get, Lru.lookup_touch]
  getByTags_run := fun s tags => ⟨s, _, rfl, rfl, fun _ he => Cache.mem_getByTags_lookup he⟩
  remove_run := by
    intro s key
    refine ⟨Cache.remove order s key, rfl, ?_⟩
    funext j
    show (L.view (Cache.remove order s key).entries).lookup j = _
    rw [Cache.remove, Cache.clearTagsForKey_entries, L.view_pop, Lru.lookup_erase,
      Function.update_apply]
  clear_run := by
    intro s
    refine ⟨Cache.clear s, rfl, ?_⟩
    funext j
    show (L.view (L.clear s.entries)).lookup j = _
    rw [L.view_clear]
    rfl

/-- The cache in memory does each operation and never fails. -/
theorem Cache.inMemory_step {L : LruCache String String} (order : Cache.HashOrder)
    (s : Cache.InMemoryState L) (op : Cache.CacheOp) :
    ((Cache.inMemory order).step op).run s =
      some ((Cache.step order s op).1, .ok (Cache.step order s op).2) := by
  cases op <;> rfl

namespace EncryptedCache

open Cache (InMemoryState HashOrder CacheOp CacheResult)

abbrev Bytes := List UInt8

def saltLen : Nat := 16
def keyLen : Nat := 32
def nonceLen : Nat := 12
def tagLen : Nat := 16

def asBytes (s : String) : Bytes := s.toByteArray.data.toList

def fromUtf8 (bytes : Bytes) : Option String := String.fromUTF8? ⟨bytes.toArray⟩

def encryptionContext : Bytes := asBytes "Drive.EncryptedCacheRepository"

/-- What comes from other crates. The texts are what they say of a value that they reject. -/
structure Primitives where
  /-- What `getrandom` fills a salt with, draw by draw. -/
  random : Nat → Except String Bytes
  random_length : ∀ i salt, random i = .ok salt → salt.length = saltLen
  /-- HKDF-SHA256: so many bytes of output. -/
  hkdf : (salt ikm info : Bytes) → (length : Nat) → Bytes
  hkdf_length : ∀ salt ikm info length, (hkdf salt ikm info length).length = length
  aesEncrypt : (key nonce msg : Bytes) → Option Bytes
  aesDecrypt : (key nonce sealed : Bytes) → Option Bytes
  /-- The tag comes after the ciphertext. -/
  aesEncrypt_length : ∀ key nonce msg sealed, aesEncrypt key nonce msg = some sealed →
    sealed.length = msg.length + tagLen
  base64Error : String → String
  utf8Error : Bytes → String

variable (p : Primitives) (encryptionKey : Bytes)

/-! ## Values -/

/-- `Hkdf::expand`: no more than 255 blocks. -/
def Primitives.expand (salt ikm info : Bytes) (length : Nat) : Except String Bytes :=
  if length ≤ 255 * 32 then .ok (p.hkdf salt ikm info length)
  else .error "invalid number of blocks, too large output"

/-- `Aes256Gcm::new_from_slice`. -/
def newFromSlice (key : Bytes) : Except String Bytes :=
  if key.length = keyLen then .ok key else .error "Invalid Length"

/-- The AES key and the nonce of an entry. -/
def derive (salt : Bytes) (entryKey : String) : Except ProtonError (Bytes × Bytes) := do
  let info := encryptionContext ++ asBytes entryKey
  let okm ← (p.expand salt encryptionKey info (keyLen + nonceLen)).mapError
    (fun e => .invalidOperation ("cache HKDF expand: " ++ e))
  return (okm.take keyLen, okm.drop keyLen)

def cipherOf (key : Bytes) : Except ProtonError Bytes :=
  (newFromSlice key).mapError (fun e => .invalidOperation ("cache cipher: " ++ e))

/-- `encrypt`, once it has its salt. -/
def sealWith (salt : Bytes) (entryKey plaintext : String) : Except ProtonError String := do
  let (key, nonce) ← derive p encryptionKey salt entryKey
  let cipher ← cipherOf key
  match p.aesEncrypt cipher nonce (asBytes plaintext) with
  | none => .error (.invalidOperation "cache encrypt failed")
  | some sealed => return Base64.encode (salt ++ sealed)

/-- A value that does not open is `none`. -/
def decrypt (entryKey encoded : String) : Except ProtonError (Option String) := do
  let combined ← match Base64.decode encoded with
    | none => .error (.invalidOperation ("cache base64: " ++ p.base64Error encoded))
    | some combined => .ok combined
  if combined.length < saltLen + tagLen then
    .error (.invalidOperation "cache value too short")
  else
    let (key, nonce) ← derive p encryptionKey (combined.take saltLen) entryKey
    let cipher ← cipherOf key
    match p.aesDecrypt cipher nonce (combined.drop saltLen) with
    | none => return none
    | some plaintext =>
        match fromUtf8 plaintext with
        | none => .error (.invalidOperation ("cache utf8: " ++ p.utf8Error plaintext))
        | some text => return some text

/-! ## The repository -/

/-- The inner repository, and how many salts have been drawn. -/
structure Store (σ : Type) where
  inner : σ
  drawn : Nat

variable {σ : Type}

def onInner {α : Type} (x : Program σ ProtonError α) : Program (Store σ) ProtonError α :=
  x.within Store.inner (fun s inner => { s with inner })

/-- `getrandom::fill`. -/
def fill : Program (Store σ) ProtonError Bytes where
  run s := some ({ s with drawn := s.drawn + 1 },
    (p.random s.drawn).mapError (fun e => .invalidOperation ("cache salt: " ++ e)))

def encrypt (entryKey plaintext : String) : Program (Store σ) ProtonError String := do
  let salt ← fill p
  .ofExcept (sealWith p encryptionKey salt entryKey plaintext)

variable (inner : CacheRepository σ)

def set (key value : String) (tags : List String) : Program (Store σ) ProtonError Unit := do
  let encrypted ← encrypt p encryptionKey key value
  onInner (inner.set key encrypted tags)

def get (key : String) : Program (Store σ) ProtonError (Option String) := do
  match ← onInner (inner.get key) with
  | none => return none
  | some encrypted =>
      match ← .ofExcept (decrypt p encryptionKey key encrypted) with
      | some value => return some value
      | none => do
          onInner inner.clear
          return none

/-- The loop of `get_by_tags`. -/
def decryptEach : (out : List (String × String)) → List (String × String) →
    Program (Store σ) ProtonError (List (String × String))
  | out, [] => return out
  | out, (key, encrypted) :: entries => do
      match ← .ofExcept (decrypt p encryptionKey key encrypted) with
      | some value => decryptEach (out ++ [(key, value)]) entries
      | none => do
          onInner inner.clear
          return []

def getByTags (tags : List String) : Program (Store σ) ProtonError (List (String × String)) := do
  let entries ← onInner (inner.getByTags tags)
  decryptEach p encryptionKey inner [] entries

/-- The wrapper is a repository again. -/
def repository : CacheRepository (Store σ) where
  set := set p encryptionKey inner
  get := get p encryptionKey inner
  remove key := onInner (inner.remove key)
  removeByTag tag := onInner (inner.removeByTag tag)
  clear := onInner inner.clear
  getByTags := getByTags p encryptionKey inner

/-! ## What a value decrypts to -/

section Values

variable {p : Primitives} {encryptionKey : Bytes}

variable (p encryptionKey) in
def entryKeys (salt : Bytes) (entryKey : String) : Bytes × Bytes :=
  let okm := p.hkdf salt encryptionKey (encryptionContext ++ asBytes entryKey) (keyLen + nonceLen)
  (okm.take keyLen, okm.drop keyLen)

/-- There is always enough output for a key and a nonce. -/
theorem derive_eq (salt : Bytes) (entryKey : String) :
    derive p encryptionKey salt entryKey = .ok (entryKeys p encryptionKey salt entryKey) := by
  have hexpand : ∀ info, p.expand salt encryptionKey info (keyLen + nonceLen) =
      .ok (p.hkdf salt encryptionKey info (keyLen + nonceLen)) := fun info => if_pos (by decide)
  rw [derive, hexpand]
  rfl

/-- A derived key has the length of a key. -/
theorem cipherOf_eq (salt : Bytes) (entryKey : String) :
    cipherOf (entryKeys p encryptionKey salt entryKey).1 =
      .ok (entryKeys p encryptionKey salt entryKey).1 := by
  have hlength : (entryKeys p encryptionKey salt entryKey).1.length = keyLen := by
    rw [entryKeys, List.length_take, p.hkdf_length]
    decide
  rw [cipherOf, newFromSlice, if_pos hlength]
  rfl

/-- The bytes of a text are read back. -/
theorem fromUtf8_asBytes (s : String) : fromUtf8 (asBytes s) = some s := by
  unfold fromUtf8 asBytes String.fromUTF8?
  rw [Array.toArray_toList]
  exact dif_pos s.isValidUTF8

variable (p encryptionKey) in
/-- What AES-GCM makes of a decoded value. -/
def opened (entryKey : String) (combined : Bytes) : Option Bytes :=
  let keys := entryKeys p encryptionKey (combined.take saltLen) entryKey
  p.aesDecrypt keys.1 keys.2 (combined.drop saltLen)

/-- An entry of sufficient length is opened with the keys of its salt. -/
theorem decrypt_of_long {entryKey encoded : String} {combined : Bytes}
    (hdecode : Base64.decode encoded = some combined) (hlong : saltLen + tagLen ≤ combined.length) :
    decrypt p encryptionKey entryKey encoded =
      match opened p encryptionKey entryKey combined with
      | none => .ok none
      | some plaintext =>
          match fromUtf8 plaintext with
          | none => .error (.invalidOperation ("cache utf8: " ++ p.utf8Error plaintext))
          | some text => .ok (some text) := by
  unfold decrypt
  simp only [hdecode, bind, Except.bind]
  rw [if_neg (Nat.not_lt.mpr hlong), derive_eq]
  dsimp only
  rw [cipherOf_eq]
  rfl

/-- The cipher takes a message and gives it back, under every key and nonce. -/
def Inverts (p : Primitives) (msg : Bytes) : Prop :=
  ∀ key nonce, key.length = keyLen → nonce.length = nonceLen →
    ∃ sealed, p.aesEncrypt key nonce msg = some sealed ∧ p.aesDecrypt key nonce sealed = some msg

variable (p encryptionKey) in
/-- The keys of an entry have their lengths. -/
theorem length_entryKeys (salt : Bytes) (entryKey : String) :
    (entryKeys p encryptionKey salt entryKey).1.length = keyLen ∧
      (entryKeys p encryptionKey salt entryKey).2.length = nonceLen := by
  unfold entryKeys
  rw [List.length_take, List.length_drop, p.hkdf_length]
  decide

/-- What has been stored under a name opens under this name. -/
theorem decrypt_seal {salt : Bytes} {entryKey plaintext : String} (hsalt : salt.length = saltLen)
    (hinverts : Inverts p (asBytes plaintext)) :
    ∃ encoded, sealWith p encryptionKey salt entryKey plaintext = .ok encoded ∧
      decrypt p encryptionKey entryKey encoded = .ok (some plaintext) := by
  obtain ⟨hkey, hnonce⟩ := length_entryKeys p encryptionKey salt entryKey
  obtain ⟨sealed, hsealed, hopens⟩ := hinverts _ _ hkey hnonce
  have hseal : sealWith p encryptionKey salt entryKey plaintext =
      .ok (Base64.encode (salt ++ sealed)) := by
    simp only [sealWith, derive_eq, cipherOf_eq, bind, Except.bind, hsealed]
    rfl
  refine ⟨_, hseal, ?_⟩
  -- The sealed value is long enough for its salt and its tag.
  have hlong : saltLen + tagLen ≤ (salt ++ sealed).length := by
    rw [List.length_append, hsalt, p.aesEncrypt_length _ _ _ _ hsealed]
    omega
  have hopened : opened p encryptionKey entryKey (salt ++ sealed) = some (asBytes plaintext) := by
    unfold opened
    rw [← hsalt, List.take_left, List.drop_left]
    exact hopens
  rw [decrypt_of_long (Base64.decode_encode _) hlong, hopened]
  simp only [fromUtf8_asBytes]

/-- What `decrypt` has only an error for: what is not the Base64 of a salt and a tag, and what opens
but is no text. -/
inductive Malformed (p : Primitives) (encryptionKey : Bytes) (entryKey encoded : String) :
    Prop where
  | notBase64 (h : Base64.decode encoded = none)
  | short {combined : Bytes} (h : Base64.decode encoded = some combined)
      (hshort : combined.length < saltLen + tagLen)
  | notUtf8 {combined plaintext : Bytes} (h : Base64.decode encoded = some combined)
      (hlong : saltLen + tagLen ≤ combined.length)
      (hopened : opened p encryptionKey entryKey combined = some plaintext)
      (htext : fromUtf8 plaintext = none)

/-- Decryption fails exactly on malformed entries. -/
theorem decrypt_eq_error_iff {entryKey encoded : String} :
    (∃ e, decrypt p encryptionKey entryKey encoded = .error e) ↔
      Malformed p encryptionKey entryKey encoded := by
  cases hdecode : Base64.decode encoded with
  | none =>
      -- The text is not base64.
      refine iff_of_true ⟨.invalidOperation ("cache base64: " ++ p.base64Error encoded), ?_⟩
        (.notBase64 hdecode)
      simp only [decrypt, hdecode]
      rfl
  | some combined =>
      by_cases hlong : saltLen + tagLen ≤ combined.length
      · rw [decrypt_of_long hdecode hlong]
        constructor
        · rintro ⟨e, he⟩
          -- A tag that does not match is no error: the entry counts as missing.
          cases hopened : opened p encryptionKey entryKey combined with
          | none =>
              rw [hopened] at he
              cases he
          | some plaintext =>
              rw [hopened] at he
              cases htext : fromUtf8 plaintext with
              | none => exact .notUtf8 hdecode hlong hopened htext
              | some text =>
                  simp only [htext] at he
                  cases he
        · rintro (hnone | ⟨hdecode', hshort⟩ | ⟨hdecode', -, hopened, htext⟩)
          · rw [hdecode] at hnone
            cases hnone
          · rw [hdecode] at hdecode'
            cases hdecode'
            omega
          · rw [hdecode] at hdecode'
            cases hdecode'
            rw [hopened]
            simp only [htext]
            exact ⟨_, rfl⟩
      · have hshort := Nat.not_le.mp hlong
        -- The value is too short.
        refine iff_of_true ⟨.invalidOperation "cache value too short", ?_⟩ (.short hdecode hshort)
        simp only [decrypt, hdecode, bind, Except.bind]
        exact if_pos hshort

/-- The values that are read, or are a miss: the Base64 of a salt and a tag at least, which is text
if it opens. -/
theorem not_malformed_iff {entryKey encoded : String} :
    ¬ Malformed p encryptionKey entryKey encoded ↔
      ∃ combined, encoded = Base64.encode combined ∧ saltLen + tagLen ≤ combined.length ∧
        ∀ plaintext, opened p encryptionKey entryKey combined = some plaintext →
          ∃ text, fromUtf8 plaintext = some text := by
  constructor
  · -- Each of the three defects is excluded in turn.
    intro h
    obtain ⟨combined, hdecode⟩ : ∃ combined, Base64.decode encoded = some combined := by
      apply Option.ne_none_iff_exists'.mp
      exact fun hnone => h (.notBase64 hnone)
    have hlong : saltLen + tagLen ≤ combined.length := by
      by_contra hshort
      exact h (.short hdecode (Nat.not_le.mp hshort))
    refine ⟨combined, Base64.decode_eq_some.mp hdecode, hlong, ?_⟩
    intro plaintext hopened
    apply Option.ne_none_iff_exists'.mp
    exact fun hnone => h (.notUtf8 hdecode hlong hopened hnone)
  · rintro ⟨combined, rfl, hlong, htext⟩
    have hdecode := Base64.decode_encode combined
    rintro (hnone | ⟨hdecode', hshort⟩ | ⟨hdecode', -, hopened, hnone⟩)
    · rw [hdecode] at hnone
      cases hnone
    · rw [hdecode] at hdecode'
      cases hdecode'
      omega
    · rw [hdecode] at hdecode'
      cases hdecode'
      obtain ⟨text, htext⟩ := htext _ hopened
      rw [hnone] at htext
      cases htext

variable (p encryptionKey) in
/-- What a reader gets to see of a stored value. -/
def shownText (entryKey encoded : String) : Option String :=
  (decrypt p encryptionKey entryKey encoded).toOption.join

/-- Any other entry is read, or is a miss. -/
theorem decrypt_of_not_malformed {entryKey encoded : String}
    (h : ¬ Malformed p encryptionKey entryKey encoded) :
    decrypt p encryptionKey entryKey encoded =
      .ok (shownText p encryptionKey entryKey encoded) := by
  unfold shownText
  cases hdecrypt : decrypt p encryptionKey entryKey encoded with
  | error e => exact absurd (decrypt_eq_error_iff.mp ⟨e, hdecrypt⟩) h
  | ok v => rfl

end Values

/-! ## The loop of `get_by_tags` -/

section Entries

variable {p : Primitives} {encryptionKey : Bytes} {inner : CacheRepository σ}

/-- An operation of the inner cache leaves the rest of the store alone. -/
theorem onInner_run {α : Type} {x : Program σ ProtonError α} {s : Store σ} {t : σ}
    {r : Except ProtonError α} (h : x.run s.inner = some (t, r)) :
    (onInner x).run s = some ({ s with inner := t }, r) := Program.within_run h

variable (p encryptionKey) in
def shownEntries (entries : List (String × String)) : List (String × String) :=
  entries.filterMap (fun e => (shownText p encryptionKey e.1 e.2).map (fun text => (e.1, text)))

/-- All entries open, so all of them are returned. -/
theorem decryptEach_run {entries : List (String × String)} (out : List (String × String))
    (s : Store σ) (h : ∀ e ∈ entries, ∃ text, decrypt p encryptionKey e.1 e.2 = .ok (some text)) :
    (decryptEach p encryptionKey inner out entries).run s =
      some (s, .ok (out ++ shownEntries p encryptionKey entries)) := by
  induction entries generalizing out with
  | nil => simp [decryptEach, shownEntries]
  | cons e entries ih =>
      obtain ⟨key, encrypted⟩ := e
      obtain ⟨text, htext⟩ := h _ List.mem_cons_self
      have hshown : shownText p encryptionKey key encrypted = some text := by
        simp only [shownText]
        rw [htext]
        rfl
      have hrun : (Program.ofExcept (decrypt p encryptionKey key encrypted)).run s =
          some (s, .ok (some text)) := by rw [Program.ofExcept_run, htext]
      rw [decryptEach, Program.bind_ok hrun]
      dsimp only
      rw [ih _ (fun e he => h e (List.mem_cons_of_mem _ he))]
      simp [shownEntries, hshown]

end Entries

/-! ## Damaged values -/

section Damage

variable {p : Primitives} {encryptionKey : Bytes} {inner : LawfulRepository σ} {s : Store σ}

variable (p encryptionKey inner s) in
/-- What a reader gets to see under a key: nothing, if the value does not decrypt. -/
def shown (key : String) : Option String :=
  (inner.stored s.inner key).bind (shownText p encryptionKey key)

variable (p encryptionKey inner s) in
/-- No value that is stored is malformed. -/
def WellFormed : Prop :=
  ∀ key encoded, inner.stored s.inner key = some encoded → ¬ Malformed p encryptionKey key encoded

/-- A read of an entry that is not malformed returns what it shows. -/
theorem get_of_not_malformed {key : String}
    (h : ∀ encoded, inner.stored s.inner key = some encoded →
      ¬ Malformed p encryptionKey key encoded) :
    ∃ s', (get p encryptionKey inner.toCacheRepository key).run s =
      some (s', .ok (shown p encryptionKey inner s key)) := by
  obtain ⟨t, hget, -⟩ := inner.get_run s.inner key
  let read : Store σ := { s with inner := t }
  have hinner : (onInner (inner.get key)).run s = some (read, .ok (inner.stored s.inner key)) :=
    onInner_run hget
  rw [get, Program.bind_ok hinner, shown]
  cases hstored : inner.stored s.inner key with
  | none => exact ⟨read, rfl⟩
  | some encoded =>
      have hdecrypt : (Program.ofExcept (decrypt p encryptionKey key encoded)).run read =
          some (read, .ok (shownText p encryptionKey key encoded)) := by
        rw [Program.ofExcept_run, decrypt_of_not_malformed (h encoded hstored)]
      dsimp only
      rw [Program.bind_ok hdecrypt, Option.bind_some]
      cases shownText p encryptionKey key encoded with
      | some text => exact ⟨read, rfl⟩
      | none =>
          -- what AES-GCM does not open empties the repository, and is a miss
          obtain ⟨t', hclear, -⟩ := inner.clear_run read.inner
          exact ⟨_, Program.bind_ok (onInner_run hclear)⟩

/-- A malformed value is an error, and it is there for the next read as well. -/
theorem get_malformed {key encoded : String} (hstored : inner.stored s.inner key = some encoded)
    (hmalformed : Malformed p encryptionKey key encoded) :
    ∃ s' e, (get p encryptionKey inner.toCacheRepository key).run s = some (s', .error e) ∧
      decrypt p encryptionKey key encoded = .error e ∧
      inner.stored s'.inner = inner.stored s.inner := by
  obtain ⟨t, hget, hsame⟩ := inner.get_run s.inner key
  obtain ⟨e, he⟩ := decrypt_eq_error_iff.mpr hmalformed
  let read : Store σ := { s with inner := t }
  have hinner : (onInner (inner.get key)).run s = some (read, .ok (some encoded)) := by
    rw [← hstored]
    exact onInner_run hget
  have hdecrypt : (Program.ofExcept (decrypt p encryptionKey key encoded)).run read =
      some (read, .error e) := by rw [Program.ofExcept_run, he]
  refine ⟨read, e, ?_, he, hsame⟩
  rw [get, Program.bind_ok hinner]
  exact Program.bind_error hdecrypt

variable (inner) in
/-- Entries that are not malformed are all read or left out. -/
theorem decryptEach_of_not_malformed {entries : List (String × String)}
    (h : ∀ e ∈ entries, ¬ Malformed p encryptionKey e.1 e.2) (out : List (String × String))
    (s : Store σ) :
    ∃ s' result, (decryptEach p encryptionKey inner.toCacheRepository out entries).run s =
        some (s', .ok result) ∧
      ∀ e ∈ result, e ∈ out ∨
        ∃ encoded, (e.1, encoded) ∈ entries ∧ shownText p encryptionKey e.1 encoded = some e.2 := by
  induction entries generalizing out with
  | nil => exact ⟨s, out, rfl, fun e he => .inl he⟩
  | cons e entries ih =>
      obtain ⟨key, encrypted⟩ := e
      rw [List.forall_mem_cons] at h
      have hdecrypt : (Program.ofExcept (decrypt p encryptionKey key encrypted)).run s =
          some (s, .ok (shownText p encryptionKey key encrypted)) := by
        rw [Program.ofExcept_run, decrypt_of_not_malformed h.1]
      rw [decryptEach, Program.bind_ok hdecrypt]
      cases hshown : shownText p encryptionKey key encrypted with
      | none =>
          -- An entry that does not open clears the cache and ends the reading.
          obtain ⟨t', hclear, -⟩ := inner.clear_run s.inner
          exact ⟨_, [], Program.bind_ok (onInner_run hclear), by simp⟩
      | some text =>
          obtain ⟨s', result, hrun, hresult⟩ := ih h.2 (out ++ [(key, text)])
          -- The entry opens and joins those before it.
          refine ⟨s', result, hrun, ?_⟩
          intro e he
          rcases hresult e he with hout | ⟨encoded, hmem, htext⟩
          · rcases List.mem_append.mp hout with hout | hlast
            · exact .inl hout
            · rw [List.mem_singleton] at hlast
              subst hlast
              exact .inr ⟨encrypted, List.mem_cons_self, hshown⟩
          · exact .inr ⟨encoded, List.mem_cons_of_mem _ hmem, htext⟩

/-- In a well-formed store everything found by tags is what its key shows. -/
theorem getByTags_of_wellFormed (h : WellFormed p encryptionKey inner s) (tags : List String) :
    ∃ s' entries, (getByTags p encryptionKey inner.toCacheRepository tags).run s =
        some (s', .ok entries) ∧
      ∀ e ∈ entries, shown p encryptionKey inner s e.1 = some e.2 := by
  obtain ⟨t, entries, hquery, -, hentries⟩ := inner.getByTags_run s.inner tags
  have hinner : (onInner (inner.getByTags tags)).run s =
      some ({ s with inner := t }, .ok entries) := onInner_run hquery
  obtain ⟨s', result, hrun, hresult⟩ := decryptEach_of_not_malformed inner
    (fun e he => h e.1 e.2 (hentries e he)) [] { s with inner := t }
  refine ⟨s', result, ?_, ?_⟩
  · rw [getByTags, Program.bind_ok hinner]
    exact hrun
  · intro e he
    rcases hresult e he with hnil | ⟨encoded, hmem, htext⟩
    · cases hnil
    · rw [shown, hentries _ hmem]
      exact htext

end Damage

/-! ## Encrypted entries -/

section Seals

open Cache (Entry Entries)

variable {p : Primitives} {encryptionKey : Bytes}

variable (p encryptionKey) in
/-- An entry of the inner repository, and the one it stands for. -/
structure Seals (sealed plain : Entry) : Prop where
  key : sealed.key = plain.key
  tags : sealed.tags = plain.tags
  decrypts : decrypt p encryptionKey plain.key sealed.value = .ok (some plain.value)

variable (p encryptionKey) in
/-- The entries of the inner repository and the ones they stand for, in the same order of use. -/
abbrev SealsAll : Entries → Entries → Prop := List.Forall₂ (Seals p encryptionKey)

variable {sealed plain : Entries}

/-- What is kept on both sides still corresponds. -/
theorem SealsAll.filter (h : SealsAll p encryptionKey sealed plain) {keep : Entry → Bool}
    (hkeep : ∀ e e', Seals p encryptionKey e e' → keep e = keep e') :
    SealsAll p encryptionKey (sealed.filter keep) (plain.filter keep) := by
  refine List.rel_filter ?_ h
  intro e e' hseals
  show keep e = true ↔ keep e' = true
  rw [hkeep e e' hseals]

/-- A key that is dropped on both sides. -/
theorem SealsAll.without (h : SealsAll p encryptionKey sealed plain) (key : String) :
    SealsAll p encryptionKey (sealed.without key) (plain.without key) := by
  apply h.filter
  intro e e' hseals
  rw [hseals.key]

/-- A tag that is dropped on both sides. -/
theorem SealsAll.removeByTag (h : SealsAll p encryptionKey sealed plain) (tag : String) :
    SealsAll p encryptionKey (sealed.removeByTag tag) (plain.removeByTag tag) := by
  apply h.filter
  intro e e' hseals
  rw [hseals.tags]

/-- An entry that is written on both sides, one of them sealed. -/
theorem SealsAll.set (h : SealsAll p encryptionKey sealed plain) (capacity : Nat)
    {key value encrypted : String} (tags : List String)
    (hdecrypt : decrypt p encryptionKey key encrypted = .ok (some value)) :
    SealsAll p encryptionKey (sealed.set capacity key encrypted tags)
      (plain.set capacity key value tags) :=
  List.forall₂_take capacity (.cons ⟨rfl, rfl, hdecrypt⟩ (h.without key))

/-- Either both lists have an entry for the key, or neither has. -/
theorem SealsAll.find (h : SealsAll p encryptionKey sealed plain) (key : String) :
    Option.Rel (Seals p encryptionKey) (sealed.find key) (plain.find key) := by
  induction h with
  | nil => exact .none
  | cons hseals _ ih =>
      rw [Entries.find_cons, Entries.find_cons, hseals.key]
      split
      · exact .some hseals
      · exact ih

/-- What is found under a key has that key. -/
theorem find_key {l : Entries} {key : String} {e : Entry} (h : l.find key = some e) :
    e.key = key := by
  unfold Entries.find at h
  simpa using List.find?_some h

/-- What is read is there on both sides, and the one decrypts to the other. -/
theorem SealsAll.get (h : SealsAll p encryptionKey sealed plain) (key : String) :
    SealsAll p encryptionKey (sealed.get key).2 (plain.get key).2 ∧
      Option.Rel (fun encrypted value => decrypt p encryptionKey key encrypted = .ok (some value))
        (sealed.get key).1 (plain.get key).1 := by
  unfold Entries.get
  have hfind := h.find key
  cases hplain : plain.find key with
  | none =>
      rw [hplain] at hfind
      -- Both caches hold the same keys.
      cases hsealed : sealed.find key with
      | none => exact ⟨h, .none⟩
      | some e =>
          rw [hsealed] at hfind
          cases hfind
  | some e' =>
      rw [hplain] at hfind
      cases hsealed : sealed.find key with
      | none =>
          rw [hsealed] at hfind
          cases hfind
      | some e =>
          rw [hsealed] at hfind
          cases hfind with
          | some hseals =>
              refine ⟨.cons hseals (h.without key), .some ?_⟩
              have hdecrypts := hseals.decrypts
              rwa [find_key hplain] at hdecrypts

/-- All the entries that a query names decrypt, and to what the plain query names. -/
theorem SealsAll.getByTags (h : SealsAll p encryptionKey sealed plain) (tags : List String) :
    (∀ e ∈ sealed.getByTags tags, ∃ text, decrypt p encryptionKey e.1 e.2 = .ok (some text)) ∧
      shownEntries p encryptionKey (sealed.getByTags tags) = plain.getByTags tags := by
  -- Entry by entry, whatever the tags select.
  have hall : ∀ {sealed plain : Entries}, SealsAll p encryptionKey sealed plain →
      (∀ e ∈ sealed.map (fun e => (e.key, e.value)),
        ∃ text, decrypt p encryptionKey e.1 e.2 = .ok (some text)) ∧
      shownEntries p encryptionKey (sealed.map (fun e => (e.key, e.value))) =
        plain.map (fun e => (e.key, e.value)) := by
    intro sealed plain h
    induction h with
    | nil => exact ⟨by simp, rfl⟩
    | @cons e e' sealed plain hseals _ ih =>
        have hdecrypts := hseals.decrypts
        rw [← hseals.key] at hdecrypts
        refine ⟨?_, ?_⟩
        · rw [List.map_cons, List.forall_mem_cons]
          exact ⟨⟨_, hdecrypts⟩, ih.1⟩
        · rw [List.map_cons, List.map_cons, ← ih.2, ← hseals.key]
          simp [shownEntries, shownText, hdecrypts, Except.toOption]
  unfold Entries.getByTags
  split
  · exact ⟨by simp, rfl⟩
  · refine hall (h.filter ?_)
    intro e e' hseals
    rw [hseals.tags]

/-- The same keys, in the same order of use. -/
theorem SealsAll.keys (h : SealsAll p encryptionKey sealed plain) : sealed.keys = plain.keys := by
  induction h with
  | nil => rfl
  | cons hseals _ ih =>
      show _ :: _ = _ :: _
      rw [hseals.key]
      exact congrArg _ ih

end Seals

/-! ## The wrapper over the in-memory repository -/

section InMemory

open Cache (Entries Refines Entry)

variable {p : Primitives} {encryptionKey : Bytes} {L : LruCache String String}
  {order plainOrder : HashOrder} {capacity : Nat}

variable (p encryptionKey order) in
/-- The wrapper, over an in-memory repository. -/
def wrapped : CacheRepository (Store (InMemoryState L)) :=
  repository p encryptionKey (Cache.inMemory order)

variable (p encryptionKey capacity) in
/-- The two repositories hold the same entries, the one of them encrypted. -/
def Related (s : Store (InMemoryState L)) (t : InMemoryState L) : Prop :=
  ∃ sealed plain, Refines capacity s.inner sealed ∧ Refines capacity t plain ∧
    SealsAll p encryptionKey sealed plain

variable (p encryptionKey order) in
/-- A read that comes upon a value which does not open, and empties the repository. -/
def ClearsOnTamper (s : Store (InMemoryState L)) : CacheOp → Prop
  | .get key => ∃ encrypted, (Cache.get s.inner key).1 = some encrypted ∧
      decrypt p encryptionKey key encrypted = .ok none
  | .getByTags tags => ∃ e ∈ Cache.getByTags order s.inner tags,
      decrypt p encryptionKey e.1 e.2 = .ok none
  | _ => False

/-- The value that an operation sets, if the cipher has to take it. -/
def Accepted (p : Primitives) (op : CacheOp) : Prop :=
  ∀ key value tags, op = .set key value tags → Inverts p (asBytes value)

/-- Two operations have succeeded with the same answer, up to the order of entries. -/
def SameAnswer (r r' : Except ProtonError CacheResult) : Prop :=
  ∃ answer answer', r = .ok answer ∧ r' = .ok answer' ∧ answer.Agrees answer'

/-- Nothing that was written through the cache is ever cleared as damaged. -/
theorem Related.not_clearsOnTamper {s : Store (InMemoryState L)} {t : InMemoryState L}
    (h : Related p encryptionKey capacity s t) (op : CacheOp) :
    ¬ ClearsOnTamper p encryptionKey order s op := by
  obtain ⟨sealed, plain, hsealed, -, hseals⟩ := h
  cases op with
  | get key =>
      -- What was sealed under a key opens again under it.
      rintro ⟨encrypted, hget, hdecrypt⟩
      have hrel := (hseals.get key).2
      rw [← Cache.get_fst hsealed key, hget] at hrel
      generalize (plain.get key).1 = shown at hrel
      cases hrel with
      | some hopens =>
          rw [hdecrypt] at hopens
          cases hopens
  | getByTags tags =>
      rintro ⟨e, he, hdecrypt⟩
      have hmem := (Cache.getByTags_perm hsealed tags).mem_iff.mp he
      obtain ⟨text, hopens⟩ := (hseals.getByTags tags).1 e hmem
      rw [hdecrypt] at hopens
      cases hopens
  | set key value tags => exact id
  | remove key => exact id
  | removeByTag tag => exact id
  | clear => exact id

/-! ### One operation -/

variable (order plainOrder) in
/-- A write goes through, sealed. -/
theorem set_run {s : Store (InMemoryState L)} {t : InMemoryState L}
    (h : Related p encryptionKey capacity s t) (hpos : 1 ≤ capacity) (key value : String)
    (tags : List String) (hrandom : ∀ i, ∃ salt, p.random i = .ok salt)
    (hinverts : Inverts p (asBytes value)) :
    ∃ s', ((wrapped p encryptionKey order).set key value tags).run s = some (s', .ok ()) ∧
      Related p encryptionKey capacity s' (Cache.set plainOrder t key value tags) := by
  obtain ⟨sealed, plain, hsealed, hplain, hseals⟩ := h
  obtain ⟨salt, hsalt⟩ := hrandom s.drawn
  -- With salt at hand the value is sealed, and it opens to what it was.
  obtain ⟨encrypted, hencrypt, hdecrypt⟩ : ∃ encrypted,
      sealWith p encryptionKey salt key value = .ok encrypted ∧
        decrypt p encryptionKey key encrypted = .ok (some value) :=
    decrypt_seal (p.random_length _ _ hsalt) hinverts
  let drawn : Store (InMemoryState L) := { s with drawn := s.drawn + 1 }
  have hfill : (fill p).run s = some (drawn, .ok salt) := by
    show some (_, (p.random s.drawn).mapError _) = _
    rw [hsalt]
    rfl
  have hrun : (encrypt p encryptionKey key value).run s = some (drawn, .ok encrypted) := by
    rw [encrypt, Program.bind_ok hfill, Program.ofExcept_run, hencrypt]
  refine ⟨{ drawn with inner := Cache.set order s.inner key encrypted tags }, ?_, ?_⟩
  · show (set p encryptionKey (Cache.inMemory order) key value tags).run s = _
    rw [set, Program.bind_ok hrun]
    rfl
  · exact ⟨_, _, Cache.set_refines hsealed hpos key encrypted tags,
      Cache.set_refines hplain hpos key value tags, hseals.set capacity tags hdecrypt⟩

variable (order) in
/-- A read returns what was written. -/
theorem get_run {s : Store (InMemoryState L)} {t : InMemoryState L}
    (h : Related p encryptionKey capacity s t) (key : String) :
    ∃ s', ((wrapped p encryptionKey order).get key).run s = some (s', .ok (Cache.get t key).1) ∧
      Related p encryptionKey capacity s' (Cache.get t key).2 := by
  obtain ⟨sealed, plain, hsealed, hplain, hseals⟩ := h
  obtain ⟨hnext, hrel⟩ := hseals.get key
  let read : Store (InMemoryState L) := { s with inner := (Cache.get s.inner key).2 }
  have hinner : (onInner ((Cache.inMemory order).get key)).run s =
      some (read, .ok (Cache.get s.inner key).1) := onInner_run rfl
  refine ⟨read, ?_, _, _, Cache.get_refines hsealed key, Cache.get_refines hplain key, hnext⟩
  rw [Cache.get_fst hplain]
  show (get p encryptionKey (Cache.inMemory order) key).run s = _
  rw [get, Program.bind_ok hinner, Cache.get_fst hsealed]
  cases hplainGet : (plain.get key).1 with
  | none =>
      -- The plain cache misses, and the sealed one likewise.
      rw [hplainGet] at hrel
      cases hsealedGet : (sealed.get key).1 with
      | none => rfl
      | some encrypted =>
          rw [hsealedGet] at hrel
          cases hrel
  | some value =>
      rw [hplainGet] at hrel
      cases hsealedGet : (sealed.get key).1 with
      | none =>
          rw [hsealedGet] at hrel
          cases hrel
      | some encrypted =>
          rw [hsealedGet] at hrel
          cases hrel with
          -- The value found opens to that of the plain cache.
          | some hopens =>
              have hdecrypt : (Program.ofExcept (decrypt p encryptionKey key encrypted)).run read =
                  some (read, .ok (some value)) := by rw [Program.ofExcept_run, hopens]
              dsimp only
              rw [Program.bind_ok hdecrypt]
              rfl

variable (order plainOrder) in
/-- A read by tags returns what was written, in an order of its own. -/
theorem getByTags_run {s : Store (InMemoryState L)} {t : InMemoryState L}
    (h : Related p encryptionKey capacity s t) (tags : List String) :
    ∃ entries, ((wrapped p encryptionKey order).getByTags tags).run s = some (s, .ok entries) ∧
      entries.Perm (Cache.getByTags plainOrder t tags) := by
  obtain ⟨sealed, plain, hsealed, hplain, hseals⟩ := h
  obtain ⟨hopen, hshown⟩ := hseals.getByTags tags
  have hperm : (Cache.getByTags order s.inner tags).Perm (sealed.getByTags tags) :=
    Cache.getByTags_perm hsealed tags
  have hinner : (onInner ((Cache.inMemory order).getByTags tags)).run s =
      some (s, .ok (Cache.getByTags order s.inner tags)) := onInner_run rfl
  refine ⟨shownEntries p encryptionKey (Cache.getByTags order s.inner tags), ?_, ?_⟩
  · show (getByTags p encryptionKey (Cache.inMemory order) tags).run s = _
    rw [getByTags, Program.bind_ok hinner,
      decryptEach_run [] s (fun e he => hopen e (hperm.mem_iff.mp he)), List.nil_append]
  · have hdecrypted := hperm.filterMap
      (fun e => (shownText p encryptionKey e.1 e.2).map (fun text => (e.1, text)))
    exact (hdecrypted.trans (.of_eq hshown)).trans (Cache.getByTags_perm hplain tags).symm

variable (order plainOrder) in
/-- An operation on both repositories succeeds with the same answer, and leaves the same entries. -/
theorem step_related {s : Store (InMemoryState L)} {t : InMemoryState L}
    (h : Related p encryptionKey capacity s t) (hpos : 1 ≤ capacity) (op : CacheOp)
    (hrandom : ∀ i, ∃ salt, p.random i = .ok salt) (haccepted : Accepted p op) :
    ∃ s' answer, ((wrapped p encryptionKey order).step op).run s = some (s', .ok answer) ∧
      Related p encryptionKey capacity s' (Cache.step plainOrder t op).1 ∧
      answer.Agrees (Cache.step plainOrder t op).2 := by
  cases op with
  | set key value tags =>
      obtain ⟨s', hrun, hrelated⟩ := set_run order plainOrder h hpos key value
        tags hrandom (haccepted key value tags rfl)
      exact ⟨s', .done, Program.bind_ok hrun, hrelated, .done⟩
  | get key =>
      obtain ⟨s', hrun, hrelated⟩ := get_run order h key
      exact ⟨s', .value _, Program.bind_ok hrun, hrelated, .value _⟩
  | getByTags tags =>
      obtain ⟨entries, hrun, hperm⟩ := getByTags_run order plainOrder h tags
      exact ⟨s, .entries entries, Program.bind_ok hrun, h, .entries hperm⟩
  -- Removals and clearing reach the inner cache as they are.
  | remove key =>
      obtain ⟨sealed, plain, hsealed, hplain, hseals⟩ := h
      exact ⟨_, .done, Program.bind_ok (onInner_run rfl), ⟨_, _, Cache.remove_refines hsealed key,
        Cache.remove_refines hplain key, hseals.without key⟩, .done⟩
  | removeByTag tag =>
      obtain ⟨sealed, plain, hsealed, hplain, hseals⟩ := h
      exact ⟨_, .done, Program.bind_ok (onInner_run rfl), ⟨_, _,
        Cache.removeByTag_refines hsealed tag, Cache.removeByTag_refines hplain tag,
        hseals.removeByTag tag⟩, .done⟩
  | clear =>
      obtain ⟨sealed, plain, hsealed, hplain, hseals⟩ := h
      exact ⟨_, .done, Program.bind_ok (onInner_run rfl), ⟨[], [], Cache.clear_refines hsealed,
        Cache.clear_refines hplain, .nil⟩, .done⟩

/-! ### Runs -/

variable (order plainOrder) in
/-- By induction on the operations the two caches stay related, and answer alike. -/
theorem runAll_related (hpos : 1 ≤ capacity) (hrandom : ∀ i, ∃ salt, p.random i = .ok salt)
    (ops : List CacheOp) : ∀ (s : Store (InMemoryState L)) (t : InMemoryState L),
      Related p encryptionKey capacity s t → (∀ op ∈ ops, Accepted p op) →
      ∃ s' answers t' answers',
        ((wrapped p encryptionKey order).runAll ops).run s = some (s', .ok answers) ∧
        ((Cache.inMemory plainOrder).runAll ops).run t = some (t', .ok answers') ∧
        Related p encryptionKey capacity s' t' ∧ List.Forall₂ SameAnswer answers answers' := by
  -- By induction on the operations; the two caches stay related after each.
  induction ops with
  | nil =>
      intro s t h _
      exact ⟨s, [], t, [], rfl, rfl, h, .nil⟩
  | cons op ops ih =>
      intro s t h haccepted
      rw [List.forall_mem_cons] at haccepted
      obtain ⟨s₁, answer, hstep, hrelated, hagree⟩ :=
        step_related order plainOrder h hpos op hrandom haccepted.1
      obtain ⟨s', answers, t', answers', hrun, hrun', hlast, hsame⟩ :=
        ih s₁ _ hrelated haccepted.2
      have hplain := Cache.inMemory_step plainOrder t op
      refine ⟨s', .ok answer :: answers, t', .ok _ :: answers', ?_, ?_, hlast,
        .cons ⟨answer, _, rfl, rfl, hagree⟩ hsame⟩
      · show (do
            let b ← ((wrapped p encryptionKey order).step op).attempt
            let bs ← (wrapped p encryptionKey order).runAll ops
            return b :: bs).run s = _
        rw [Program.bind_ok (Program.attempt_run.mpr hstep), Program.bind_ok hrun]
        rfl
      · show (do
            let b ← ((Cache.inMemory plainOrder).step op).attempt
            let bs ← (Cache.inMemory plainOrder).runAll ops
            return b :: bs).run t = _
        rw [Program.bind_ok (Program.attempt_run.mpr hplain), Program.bind_ok hrun']
        rfl

/-- What the wrapper promises for a sequence of operations on a repository for `capacity` entries:
the answers of a plain one, the entries of a plain one, and no read that empties it. -/
structure Transparent (p : Primitives) (encryptionKey : Bytes) (L : LruCache String String)
    (order plainOrder : HashOrder) (capacity : Nat) (ops : List CacheOp) : Prop where
  answers : ∃ (s : Store (InMemoryState L)) (t : InMemoryState L) (answers answers' : _),
    ((wrapped p encryptionKey order).runAll ops).run ⟨.withCapacity L capacity, 0⟩ =
      some (s, .ok answers) ∧
    ((Cache.inMemory plainOrder).runAll ops).run (.withCapacity L capacity) =
      some (t, .ok answers') ∧
    List.Forall₂ SameAnswer answers answers' ∧
    (L.view s.inner.entries).map Prod.fst = (L.view t.entries).map Prod.fst
  untampered : ∀ before op after, ops = before ++ op :: after →
    ∀ (s : Store (InMemoryState L)) answers,
      ((wrapped p encryptionKey order).runAll before).run ⟨.withCapacity L capacity, 0⟩ =
        some (s, .ok answers) → ¬ ClearsOnTamper p encryptionKey order s op

/-- Both caches hold the same keys. -/
theorem Related.keys {s : Store (InMemoryState L)} {t : InMemoryState L}
    (h : Related p encryptionKey capacity s t) :
    (L.view s.inner.entries).map Prod.fst = (L.view t.entries).map Prod.fst := by
  obtain ⟨sealed, plain, hsealed, hplain, hseals⟩ := h
  have hkeys : ∀ l : Entries, l.shown.map Prod.fst = l.keys := by
    intro l
    simp [Entries.shown, Entries.keys, Function.comp_def]
  rw [hsealed.view, hplain.view, hkeys, hkeys, hseals.keys]

/-- **The wrapper is transparent**: whatever is done through it, it answers as the repository itself
would, holds the same entries, and never empties itself on a read. -/
theorem encrypted_transparent (p : Primitives) (encryptionKey : Bytes) (L : LruCache String String)
    (order plainOrder : HashOrder) (capacity : Nat) (ops : List CacheOp)
    (hrandom : ∀ i, ∃ salt, p.random i = .ok salt) (haccepted : ∀ op ∈ ops, Accepted p op) :
    Transparent p encryptionKey L order plainOrder capacity ops := by
  have hpos : 1 ≤ max capacity 1 := Nat.le_max_right _ _
  have hempty : Related p encryptionKey (max capacity 1)
      ⟨InMemoryState.withCapacity L capacity, 0⟩ (InMemoryState.withCapacity L capacity) :=
    ⟨[], [], Cache.withCapacity_refines capacity, Cache.withCapacity_refines capacity, .nil⟩
  constructor
  · obtain ⟨s, answers, t, answers', hrun, hrun', hrelated, hsame⟩ :=
      runAll_related order plainOrder hpos hrandom ops _ _ hempty haccepted
    exact ⟨s, t, answers, answers', hrun, hrun', hsame, hrelated.keys⟩
  · rintro before op after rfl s answers hrun
    -- the operations before it are a sequence of their own
    obtain ⟨s', _, _, _, hrun', -, hrelated, -⟩ := runAll_related order plainOrder
      hpos hrandom before _ _ hempty
      (fun op hop => haccepted op (List.mem_append_left _ hop))
    rw [hrun'] at hrun
    cases hrun
    exact hrelated.not_clearsOnTamper op

end InMemory

/-! ## A cipher that only tags -/

def tagOf (key nonce : Bytes) : Bytes := (nonce ++ key ++ List.replicate tagLen 0).take tagLen

/-- The tag of the sample cipher has its length. -/
theorem length_tagOf (key nonce : Bytes) : (tagOf key nonce).length = tagLen := by
  rw [tagOf, List.length_take, List.length_append, List.length_replicate]
  omega

/-- It hides nothing, but a message opens only under the key and nonce that it was tagged with. -/
def tagging : Primitives where
  random i := .ok (List.replicate saltLen (UInt8.ofNat i))
  random_length := by
    intro i salt h
    cases h
    rfl
  hkdf salt ikm info length := (salt ++ ikm ++ info ++ List.replicate length 0).take length
  hkdf_length := by
    intro salt ikm info length
    rw [List.length_take, List.length_append, List.length_replicate]
    omega
  aesEncrypt key nonce msg := some (msg ++ tagOf key nonce)
  aesDecrypt key nonce sealed :=
    if sealed.drop (sealed.length - tagLen) = tagOf key nonce then
      some (sealed.take (sealed.length - tagLen))
    else none
  aesEncrypt_length := by
    intro key nonce msg sealed h
    cases h
    rw [List.length_append, length_tagOf]
  base64Error _ := "Invalid symbol 32, offset 3."
  utf8Error _ := "invalid utf-8 sequence of 1 bytes from index 0"

/-- The sample cipher opens what it sealed. -/
theorem tagging_inverts (msg : Bytes) : Inverts tagging msg := by
  intro key nonce _ _
  refine ⟨msg ++ tagOf key nonce, rfl, ?_⟩
  have hlength : (msg ++ tagOf key nonce).length - tagLen = msg.length := by
    rw [List.length_append, length_tagOf]
    omega
  show (if _ then _ else _) = _
  rw [hlength, List.drop_left, List.take_left, if_pos rfl]

/-- Two values in a repository for one: the first one is driven out of both. -/
theorem encrypted_transparent_two :
    Transparent tagging [1, 2, 3] Lru.listCache HashOrder.sorted HashOrder.sorted 1
      [.set "a" "1" ["t"], .set "b" "2" ["t"], .get "a", .get "b", .getByTags ["t"]] :=
  encrypted_transparent tagging [1, 2, 3] Lru.listCache HashOrder.sorted HashOrder.sorted 1 _
    (fun _ => ⟨_, rfl⟩) (fun _ _ _ _ _ _ => tagging_inverts _)

end EncryptedCache

end ProtonDrive
