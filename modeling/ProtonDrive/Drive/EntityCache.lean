import ProtonDrive.Drive.Ids
import ProtonDrive.Sdk.EncryptedCache

/-!
# The entity cache

The typed view of the Drive client on a cache repository: nodes, as JSON, under a key that is made
of their ids. `get_node` reads through it.

A value that is not the expected JSON is removed, and is a miss; so is one that an encrypted
repository does not open. A value that the repository cannot even decode is neither.

* `treatsDamageAsMiss_iff` — damage is a miss exactly where no value is malformed.
* `getNode_malformed` — a malformed value is an error, and stays where it is.
-/

namespace ProtonDrive.EntityCache

open EncryptedCache (Primitives Bytes Store Malformed WellFormed shown decrypt onInner onInner_run)

structure CachedNodeInfo (ν : Type) where
  node : ν
  membershipShareId : Option String
  nameHashDigest : String

def nodeKey (uid : TextNodeUid) : String := "node:" ++ uid.text

variable {σ τ ν : Type} (repo : CacheRepository σ)

/-- The value under a key. `fromStr` is what `serde_json` makes of a text. -/
def getJson (fromStr : String → Except String τ) (key : String) :
    Program σ ProtonError (Option τ) := do
  match ← repo.get key with
  | none => return none
  | some raw =>
      match fromStr raw with
      | .ok value => return some value
      | .error _ => do
          repo.remove key
          return none

def tryGetNode (fromStr : String → Except String (CachedNodeInfo ν)) (uid : TextNodeUid) :
    Program σ ProtonError (Option (CachedNodeInfo ν)) :=
  getJson repo fromStr (nodeKey uid)

/-- `get_node`; `loadNode` is its network half. -/
def getNode (fromStr : String → Except String (CachedNodeInfo ν))
    (loadNode : TextNodeUid → Program σ ProtonError (Option ν)) (uid : TextNodeUid) :
    Program σ ProtonError (Option ν) := do
  match ← tryGetNode repo fromStr uid with
  | some info => return some info.node
  | none => loadNode uid

/-! ## Over an encrypted repository -/

section Encrypted

variable (p : Primitives) (encryptionKey : Bytes) (inner : LawfulRepository σ)
  (fromStr : String → Except String (CachedNodeInfo ν))
  (loadNode : TextNodeUid → Program (Store σ) ProtonError (Option ν))

/-- The encrypted repository. -/
def encrypted : CacheRepository (Store σ) :=
  EncryptedCache.repository p encryptionKey inner.toCacheRepository

/-- The node that a reader gets to see: none, if its value does not decrypt or is not JSON. -/
def shownNode (s : Store σ) (uid : TextNodeUid) : Option (CachedNodeInfo ν) :=
  (shown p encryptionKey inner s (nodeKey uid)).bind (fun raw => (fromStr raw).toOption)

/-- Every read is answered, as if the values that cannot be read were not there; and `get_node` asks
the network for the nodes that are not. -/
structure TreatsDamageAsMiss (s : Store σ) : Prop where
  gets : ∀ key, ∃ s', ((encrypted p encryptionKey inner).get key).run s =
    some (s', .ok (shown p encryptionKey inner s key))
  lists : ∀ tags, ∃ s' entries, ((encrypted p encryptionKey inner).getByTags tags).run s =
      some (s', .ok entries) ∧
    ∀ e ∈ entries, shown p encryptionKey inner s e.1 = some e.2
  finds : ∀ uid, ∃ s', (tryGetNode (encrypted p encryptionKey inner) fromStr uid).run s =
    some (s', .ok (shownNode p encryptionKey inner fromStr s uid))
  fallsThrough : ∀ uid, shownNode p encryptionKey inner fromStr s uid = none →
    ∃ s', (tryGetNode (encrypted p encryptionKey inner) fromStr uid).run s = some (s', .ok none) ∧
      (getNode (encrypted p encryptionKey inner) fromStr loadNode uid).run s = (loadNode uid).run s'

variable {p encryptionKey inner fromStr loadNode} {s : Store σ}

/-- What is no JSON is removed, and is a miss. -/
theorem tryGetNode_of_get {uid : TextNodeUid} {t : Store σ}
    (h : ((encrypted p encryptionKey inner).get (nodeKey uid)).run s =
      some (t, .ok (shown p encryptionKey inner s (nodeKey uid)))) :
    ∃ s', (tryGetNode (encrypted p encryptionKey inner) fromStr uid).run s =
      some (s', .ok (shownNode p encryptionKey inner fromStr s uid)) := by
  rw [tryGetNode, getJson, Program.bind_ok h, shownNode]
  cases shown p encryptionKey inner s (nodeKey uid) with
  | none => exact ⟨t, rfl⟩
  | some raw =>
      rw [Option.bind_some]
      dsimp only
      cases fromStr raw with
      | ok info => exact ⟨t, rfl⟩
      | error e =>
          obtain ⟨t', hremove, -⟩ := inner.remove_run t.inner (nodeKey uid)
          exact ⟨_, Program.bind_ok (onInner_run hremove)⟩

theorem getNode_of_miss {uid : TextNodeUid} {t : Store σ}
    (h : (tryGetNode (encrypted p encryptionKey inner) fromStr uid).run s = some (t, .ok none)) :
    (getNode (encrypted p encryptionKey inner) fromStr loadNode uid).run s =
      (loadNode uid).run t := by
  rw [getNode, Program.bind_ok h]

/-- A malformed value fails the read of its node, and the next one as well: it stays. -/
theorem getNode_malformed {uid : TextNodeUid} {encoded : String}
    (hstored : inner.stored s.inner (nodeKey uid) = some encoded)
    (hmalformed : Malformed p encryptionKey (nodeKey uid) encoded) :
    ∃ s' e, (getNode (encrypted p encryptionKey inner) fromStr loadNode uid).run s =
        some (s', .error e) ∧
      decrypt p encryptionKey (nodeKey uid) encoded = .error e ∧
      inner.stored s'.inner = inner.stored s.inner := by
  obtain ⟨s', e, hget, he, hsame⟩ := EncryptedCache.get_malformed hstored hmalformed
  refine ⟨s', e, ?_, he, hsame⟩
  have htry : (tryGetNode (encrypted p encryptionKey inner) fromStr uid).run s =
      some (s', .error e) := Program.bind_error hget
  exact Program.bind_error htry

/-- **When damage is a miss**: exactly where no stored value is malformed. -/
theorem treatsDamageAsMiss_iff (p : Primitives) (encryptionKey : Bytes) (inner : LawfulRepository σ)
    (fromStr : String → Except String (CachedNodeInfo ν))
    (loadNode : TextNodeUid → Program (Store σ) ProtonError (Option ν)) (s : Store σ) :
    TreatsDamageAsMiss p encryptionKey inner fromStr loadNode s ↔
      WellFormed p encryptionKey inner s := by
  constructor
  · -- The read of a malformed entry fails, and is no miss.
    intro h key encoded hstored hmalformed
    obtain ⟨s', hget⟩ := h.gets key
    obtain ⟨s'', e, herror, -⟩ := EncryptedCache.get_malformed hstored hmalformed
    have hsame := hget.symm.trans herror
    cases hsame
  · intro h
    have hget : ∀ key, ∃ s', ((encrypted p encryptionKey inner).get key).run s =
        some (s', .ok (shown p encryptionKey inner s key)) :=
      fun key => EncryptedCache.get_of_not_malformed (h key)
    have htry : ∀ uid, ∃ s', (tryGetNode (encrypted p encryptionKey inner) fromStr uid).run s =
        some (s', .ok (shownNode p encryptionKey inner fromStr s uid)) := by
      intro uid
      obtain ⟨t, ht⟩ := hget (nodeKey uid)
      exact tryGetNode_of_get ht
    refine ⟨hget, EncryptedCache.getByTags_of_wellFormed h, htry, ?_⟩
    -- A node that is not shown is loaded from the server.
    intro uid hnone
    obtain ⟨s', hrun⟩ := htry uid
    rw [hnone] at hrun
    exact ⟨s', hrun, getNode_of_miss hrun⟩

end Encrypted

/-! ## A value that is not Base64 -/

/-- A node whose value is no Base64, in an in-memory repository. -/
def damaged : Store (Cache.InMemoryState Lru.listCache) :=
  ⟨Cache.set Cache.HashOrder.sorted (.withCapacity Lru.listCache 1) "node:volume~link" "not base64"
    [], 0⟩

def damagedUid : TextNodeUid := ⟨"volume", "link"⟩

/-- The network has the node, but it is never asked. -/
theorem not_treatsDamageAsMiss :
    let repo := Cache.lawfulInMemory Cache.HashOrder.sorted
    let fromStr : String → Except String (CachedNodeInfo String) := fun _ => .error "expected value"
    let loadNode := fun _ => pure (some "Docs")
    (getNode (encrypted EncryptedCache.tagging [1, 2, 3] repo) fromStr loadNode damagedUid).run
        damaged =
      some (damaged, .error (.invalidOperation "cache base64: Invalid symbol 32, offset 3.")) ∧
    ¬ TreatsDamageAsMiss EncryptedCache.tagging [1, 2, 3] repo fromStr loadNode damaged := by
  intro repo fromStr loadNode
  have hstored : repo.stored damaged.inner (nodeKey damagedUid) = some "not base64" := rfl
  have hmalformed : Malformed EncryptedCache.tagging [1, 2, 3] (nodeKey damagedUid) "not base64" :=
    .notBase64 (by decide)
  refine ⟨rfl, ?_⟩
  intro h
  obtain ⟨s', hget⟩ := h.gets (nodeKey damagedUid)
  obtain ⟨s'', e, herror, -⟩ := EncryptedCache.get_malformed hstored hmalformed
  have hsame := hget.symm.trans herror
  cases hsame

end ProtonDrive.EntityCache
