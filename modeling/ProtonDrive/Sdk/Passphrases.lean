import Mathlib.Data.List.Induction
import Mathlib.Data.String.Basic
import ProtonDrive.Lib.Blocks
import ProtonDrive.Lib.SelfDelimiting
import ProtonDrive.Sdk.OpenPgp

/-!
# The derived key passphrases

`KeyPassphrases` maps key ids to passphrases, and `derive_secret` makes a secret for a purpose from
all of them. What goes into HKDF is the entries in the order of their ids, each id and each passphrase
after its length.

* `fromIter` — a map that is put together entry by entry.
* `material_eq_iff` — two maps go into HKDF as the same bytes exactly if they are equal.
-/

namespace ProtonDrive.Passphrases

open OpenPgp (Bytes)
open SelfDelimiting

/-- A hash map, with its entries in the order in which it happens to iterate them. -/
structure KeyPassphrases where
  entries : List (String × Bytes)
  nodup : (entries.map Prod.fst).Nodup

namespace KeyPassphrases

def new : KeyPassphrases := ⟨[], List.nodup_nil⟩

/-- Add or replace the passphrase of a key. Where the entry is iterated is left open by the map, and
is the front here. -/
def insert (m : KeyPassphrases) (keyId : String) (passphrase : Bytes) : KeyPassphrases where
  entries := (keyId, passphrase) :: m.entries.filter (fun e => e.1 != keyId)
  nodup := by
    rw [List.map_cons, List.nodup_cons]
    constructor
    · intro hmem
      obtain ⟨e, he, hid⟩ := List.mem_map.mp hmem
      simpa [hid] using (List.mem_filter.mp he).2
    · exact m.nodup.sublist (List.filter_sublist.map _)

def get (m : KeyPassphrases) (keyId : String) : Option Bytes :=
  (m.entries.find? (fun e => e.1 == keyId)).map Prod.snd

def len (m : KeyPassphrases) : Nat := m.entries.length

def fromIter (l : List (String × Bytes)) : KeyPassphrases :=
  l.foldl (fun m e => m.insert e.1 e.2) new

/-- Equality as the source has it. -/
def eq (m m' : KeyPassphrases) : Bool :=
  m.len == m'.len && m.entries.all (fun e => m'.get e.1 == some e.2)

/-! ## The secret -/

def utf8 (id : String) : Bytes := id.toUTF8.data.toList

/-- An entry of the material. -/
def entryBytes (e : String × Bytes) : Bytes := prefixed 8 (utf8 e.1) ++ prefixed 8 e.2

/-- What is fed to HKDF. -/
def material (m : KeyPassphrases) : Bytes := (sortByKey Prod.fst m.entries).flatMap entryBytes

/-- `hkdf` is HKDF-SHA256, of a salt, the material and what the secret is for. -/
def deriveSecret (hkdf : Bytes → Bytes → Bytes → Bytes) (m : KeyPassphrases) (purpose : Bytes) :
    Bytes :=
  hkdf (utf8 "proton-sdk.KeyPassphrases.derive_secret") m.material purpose

/-! ## Maps -/

variable {m m' : KeyPassphrases}

theorem get_eq_some_iff {id : String} {passphrase : Bytes} :
    m.get id = some passphrase ↔ (id, passphrase) ∈ m.entries := by
  unfold get
  rw [Option.map_eq_some_iff]
  constructor
  · rintro ⟨⟨id', passphrase'⟩, hfind, rfl⟩
    have hid : id' = id := by simpa using List.find?_some hfind
    rw [← hid]
    exact List.mem_of_find?_eq_some hfind
  · intro hmem
    cases hfind : m.entries.find? (fun e => e.1 == id) with
    | none => simpa using List.find?_eq_none.mp hfind _ hmem
    | some e =>
        have hid : e.1 = id := by simpa using List.find?_some hfind
        -- No other entry has the id.
        have he := List.inj_on_of_nodup_map m.nodup (List.mem_of_find?_eq_some hfind) hmem hid
        exact ⟨e, rfl, by rw [he]⟩

/-- Equal maps have the same entries, in whatever order. -/
theorem eq_iff_perm : m.eq m' = true ↔ m.entries.Perm m'.entries := by
  unfold eq len
  simp only [Bool.and_eq_true, beq_iff_eq, List.all_eq_true, get_eq_some_iff]
  have hnodup : m.entries.Nodup := m.nodup.of_map
  constructor
  · rintro ⟨hlength, hmem⟩
    have hsub : m.entries.Subperm m'.entries := List.subperm_of_subset hnodup hmem
    exact hsub.perm_of_length_le hlength.ge
  · intro hperm
    exact ⟨hperm.length_eq, fun e he => hperm.mem_iff.mp he⟩

/-- Equality is that of the lookups. -/
theorem eq_iff_get : m.eq m' = true ↔ ∀ id, m.get id = m'.get id := by
  rw [eq_iff_perm, List.perm_ext_iff_of_nodup m.nodup.of_map m'.nodup.of_map]
  constructor
  · intro h id
    apply Option.ext
    intro passphrase
    rw [get_eq_some_iff, get_eq_some_iff]
    exact h (id, passphrase)
  · rintro h ⟨id, passphrase⟩
    rw [← get_eq_some_iff, ← get_eq_some_iff, h id]

theorem get_insert (id : String) (passphrase : Bytes) (id' : String) :
    (m.insert id passphrase).get id' = if id' = id then some passphrase else m.get id' := by
  unfold get insert
  rw [List.find?_cons]
  by_cases hid : id' = id
  · subst hid
    simp
  · rw [if_neg hid]
    have hne : (id == id') = false := by simpa using Ne.symm hid
    -- The filter does not touch the entry that is looked for.
    have hsame : (fun e : String × Bytes => decide ((e.1 != id) = true ∧ (e.1 == id') = true)) =
        fun e => e.1 == id' := by
      funext e
      by_cases he : e.1 = id'
      · simp [he, hid]
      · simp [he]
    simp only [hne, List.find?_filter, hsame]

/-- Of the passphrases that are given for a key, the last one stays. -/
theorem get_fromIter (l : List (String × Bytes)) (id : String) :
    (fromIter l).get id = (l.reverse.find? (fun e => e.1 == id)).map Prod.snd := by
  unfold fromIter
  induction l using List.reverseRecOn with
  | nil => rfl
  | append_singleton l e ih =>
      rw [List.foldl_append, List.foldl_cons, List.foldl_nil, get_insert, ih, List.reverse_append,
        List.reverse_singleton, List.singleton_append, List.find?_cons]
      by_cases hid : id = e.1
      · simp [hid]
      · rw [if_neg hid]
        have hne : (e.1 == id) = false := by simpa using Ne.symm hid
        simp only [hne]

/-! ## The material -/

/-- No id and no passphrase is longer than a length can say. -/
def Short (m : KeyPassphrases) : Prop :=
  ∀ e ∈ m.entries, (utf8 e.1).length < 2 ^ 64 ∧ e.2.length < 2 ^ 64

theorem utf8_injective : Function.Injective utf8 := by
  intro id id' h
  apply String.toByteArray_inj.mp
  exact ByteArray.ext (Array.toList_inj.mp h)

theorem delimits_entryBytes :
    Delimits (fun e : String × Bytes => (utf8 e.1).length < 2 ^ 64 ∧ e.2.length < 2 ^ 64)
      entryBytes := by
  rintro ⟨id, passphrase⟩ ⟨id', passphrase'⟩ h h' x y hxy
  obtain ⟨heq, hrest⟩ := (delimits_prefixed 8).pair (delimits_prefixed 8) (utf8 id, passphrase)
    (utf8 id', passphrase') h h' x y hxy
  obtain ⟨hid, rfl⟩ := Prod.mk.inj heq
  rw [utf8_injective hid]
  exact ⟨rfl, hrest⟩

theorem entryBytes_ne_nil (e : String × Bytes) : entryBytes e ≠ [] := by
  intro h
  exact prefixed_ne_nil (by decide) _ (List.append_eq_nil_iff.mp h).1

/-- Maps with the same entries are sorted into one list. -/
theorem sorted_eq (h : m.entries.Perm m'.entries) :
    sortByKey Prod.fst m.entries = sortByKey Prod.fst m'.entries :=
  sortByKey_eq ((sortByKey_perm _ _).trans h.symm) m.nodup (sortByKey_pairwise _ _)

/-- **What is fed to HKDF** tells two maps apart exactly if they differ: in whatever order the entries
were inserted and are iterated, and wherever the bytes of one entry look like the end of another. -/
theorem material_eq_iff (hm : m.Short) (hm' : m'.Short) :
    m.material = m'.material ↔ m.eq m' = true := by
  rw [eq_iff_perm]
  constructor
  · intro h
    have hsorted : sortByKey Prod.fst m.entries = sortByKey Prod.fst m'.entries := by
      apply delimits_entryBytes.flatMap_inj entryBytes_ne_nil _ _ h
      · intro e he
        exact hm e ((sortByKey_perm _ _).mem_iff.mp he)
      · intro e he
        exact hm' e ((sortByKey_perm _ _).mem_iff.mp he)
    have hperm := (sortByKey_perm Prod.fst m.entries).symm
    rw [hsorted] at hperm
    exact hperm.trans (sortByKey_perm _ _)
  · intro h
    unfold material
    rw [sorted_eq h]

/-- The passphrase of `ab` cannot be taken for that of `a`. -/
theorem material_eq_iff_boundary :
    (fromIter [("ab", [99])]).material ≠ (fromIter [("a", [98, 99])]).material := by
  have hshort : ∀ id passphrase, (utf8 id).length < 2 ^ 64 → passphrase.length < 2 ^ 64 →
      (fromIter [(id, passphrase)]).Short := by
    intro id passphrase hid hpassphrase e he
    obtain rfl := List.mem_singleton.mp he
    exact ⟨hid, hpassphrase⟩
  intro h
  have heq := (material_eq_iff (hshort _ _ (by decide) (by decide))
    (hshort _ _ (by decide) (by decide))).mp h
  exact absurd heq (by decide)

/-- Equal maps have the same secret for each purpose. -/
theorem deriveSecret_congr (hkdf : Bytes → Bytes → Bytes → Bytes) (h : m.eq m' = true)
    (purpose : Bytes) : m.deriveSecret hkdf purpose = m'.deriveSecret hkdf purpose := by
  unfold deriveSecret material
  rw [sorted_eq (eq_iff_perm.mp h)]

end KeyPassphrases

end ProtonDrive.Passphrases
