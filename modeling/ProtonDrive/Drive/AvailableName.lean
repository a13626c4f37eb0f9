import Mathlib
import ProtonDrive.Sdk.Error

/-!
# A free name

`get_available_name` tries a name and then its alternates, `name (1)`, `name (2)` and so on. It sends
the hashes of ten candidates at a time, and the server lists those that are free.

The first hash of the first answer that lists any is taken back to its name. Which of the free
candidates that is, is the server's choice.

* `alternate_injective` — the alternates are all different, so some candidate is free.
* `search_firstFree` — the batches before the first free candidate are passed, and then the server
  chooses.
* `getAvailableName_first_iff` — when the first free candidate is what is returned.
-/

namespace ProtonDrive.AvailableName

abbrev Name := List Char

inductive AvailableNameTarget where
  | file
  | folder
  deriving DecidableEq, Repr

/-! ## The candidates -/

/-- A name up to its last dot, and the rest. -/
def splitExtension (original : Name) : Name × Name :=
  match original.reverse.findIdx? (fun c => c == '.') with
  | some behind => original.splitAt (original.length - 1 - behind)
  | none => (original, [])

def numbered (stem : Name) (i : Int) (ext : Name) : Name :=
  stem ++ (" (".toList ++ (i.repr.toList ++ (")".toList ++ ext)))

/-- The counter of the alternates is an `i32` from 1 on, which wraps. -/
def counter (k : Nat) : Int := (k : Int).bmod (2 ^ 32)

/-- An alternate, in the spelling of the target. -/
def alternate (original : Name) (target : AvailableNameTarget) (i : Int) : Name :=
  match target with
  | .file => numbered (splitExtension original).1 i (splitExtension original).2
  | .folder => numbered original i []

/-- The stream, from its `k`-th item. -/
def alternateFileNames (original : Name) (k : Nat) : Name := alternate original .file (counter (k + 1))

def alternateFolderNames (original : Name) (k : Nat) : Name :=
  alternate original .folder (counter (k + 1))

/-- The original name first, then its alternates. -/
def candidate (name : Name) (target : AvailableNameTarget) : Nat → Name
  | 0 => name
  | k + 1 =>
      match target with
      | .file => alternateFileNames name k
      | .folder => alternateFolderNames name k

/-! ## The search -/

def nameAvailabilityBatch : Nat := 10

/-- The candidates of a batch. The stream has no end, so there always are some. -/
def batchNames (name : Name) (target : AvailableNameTarget) (batch : Nat) : List Name :=
  (List.range nameAvailabilityBatch).map
    (fun i => candidate name target (batch * nameAvailabilityBatch + i))

def unknownDigest : ProtonError := .invalidOperation "server returned an unknown name hash digest"

section

variable {δ : Type} [DecidableEq δ] (digest : Name → δ)

/-- The name that was last recorded under a digest. -/
def byDigest (names : List Name) (d : δ) : Option Name :=
  names.reverse.find? (fun candidate => digest candidate = d)

/-- `digest` is the hash under the folder's hash key, and `available` what the server answers to the
hashes of a batch. -/
def getAvailableName (available : Nat → List δ → Except ProtonError (List δ)) (name : Name)
    (target : AvailableNameTarget) : (fuel : Nat) → (batch : Nat) → Option (Except ProtonError Name)
  | 0, _ => none
  | fuel + 1, batch =>
      let names := batchNames name target batch
      match available batch (names.map digest) with
      | .error e => some (.error e)
      | .ok [] => getAvailableName available name target fuel (batch + 1)
      | .ok (first :: _) =>
          match byDigest digest names first with
          | some found => some (.ok found)
          | none => some (.error unknownDigest)

/-- The folder that is asked: the names that are taken in it, and the order in which it lists the
free hashes of a request. -/
structure Folder (δ : Type) where
  taken : Finset Name
  listed : Nat → List δ → List δ
  perm : ∀ batch hashes, (listed batch hashes).Perm hashes

/-- No name that is taken has the hash. -/
def Folder.free (folder : Folder δ) (d : δ) : Prop := ∀ name ∈ folder.taken, digest name ≠ d

instance (folder : Folder δ) (d : δ) : Decidable (folder.free digest d) :=
  inferInstanceAs (Decidable (∀ name ∈ folder.taken, digest name ≠ d))

/-- The answer to a request. -/
def Folder.answer (folder : Folder δ) (batch : Nat) (hashes : List δ) : List δ :=
  folder.listed batch (hashes.filter (fun d => folder.free digest d))

/-- The call returns this. -/
def Returns (folder : Folder δ) (name : Name) (target : AvailableNameTarget)
    (r : Except ProtonError Name) : Prop :=
  ∃ fuel, getAvailableName digest (fun batch hashes => .ok (folder.answer digest batch hashes)) name
    target fuel 0 = some r

end

/-! ## The sequence -/

/-- `name`, `name (1)`, `name (2)` and so on, without an end. -/
def sequence (name : Name) (target : AvailableNameTarget) : Nat → Name
  | 0 => name
  | k + 1 => alternate name target (k + 1 : Nat)

variable {name : Name} {target : AvailableNameTarget}

theorem numbered_inj {stem ext : Name} {i j : Int} (h : numbered stem i ext = numbered stem j ext) :
    i = j := by
  unfold numbered at h
  have htail := List.append_cancel_left (List.append_cancel_left h)
  have hdecimal := List.append_cancel_right htail
  exact Int.repr_injective (String.toList_inj.mp hdecimal)

theorem alternate_injective (name : Name) (target : AvailableNameTarget) :
    Function.Injective (alternate name target) := by
  intro i j h
  cases target with
  | file => exact numbered_inj h
  | folder => exact numbered_inj h

theorem candidate_succ (k : Nat) :
    candidate name target (k + 1) = alternate name target (counter (k + 1)) := by
  cases target with
  | file => rfl
  | folder => rfl

theorem counter_of_lt {k : Nat} (h : k < 2 ^ 31) : counter k = k := by
  apply Int.bmod_eq_of_le
  · omega
  · omega

theorem counter_lt (k : Nat) : counter k < 2 ^ 31 := by
  have hlt : counter k < ((2 ^ 32 : Nat) + 1) / 2 := Int.bmod_lt (by decide)
  omega

/-- Until the counter wraps, the candidates are those of the sequence. -/
theorem candidate_of_lt {k : Nat} (h : k < 2 ^ 31) :
    candidate name target k = sequence name target k := by
  cases k with
  | zero => rfl
  | succ k => rw [candidate_succ, counter_of_lt h, sequence]

/-- After that, none is. -/
theorem candidate_ne {f : Nat} (hf : 2 ^ 31 ≤ f) (k : Nat) :
    candidate name target (k + 1) ≠ sequence name target f := by
  intro h
  obtain ⟨f, rfl⟩ : ∃ f', f = f' + 1 := Nat.exists_eq_succ_of_ne_zero (by omega)
  rw [candidate_succ, sequence] at h
  have hcounter := alternate_injective name target h
  have hlt := counter_lt (k + 1)
  omega

/-- The first name of the sequence that is not taken. -/
def FirstFree (name : Name) (target : AvailableNameTarget) (taken : Finset Name) (f : Nat) : Prop :=
  sequence name target f ∉ taken ∧ ∀ k < f, sequence name target k ∈ taken

/-- There is one: a folder does not have them all. -/
theorem exists_firstFree (name : Name) (target : AvailableNameTarget) (taken : Finset Name) :
    ∃ f, FirstFree name target taken f := by
  have hfree : ∃ k, sequence name target k ∉ taken := by
    by_contra hall
    push Not at hall
    have hinj : Function.Injective (fun k => sequence name target (k + 1)) := by
      intro i j h
      have := alternate_injective name target h
      omega
    have hfinite : Finite Nat := by
      apply Finite.of_injective (fun k => (⟨sequence name target (k + 1), hall (k + 1)⟩ : taken))
      intro i j h
      exact hinj (congrArg Subtype.val h)
    exact not_finite Nat
  classical
  exact ⟨Nat.find hfree, Nat.find_spec hfree,
    fun k hk => by simpa using Nat.find_min hfree hk⟩

/-! ## The batches -/

theorem mem_batchNames {batch : Nat} {c : Name} :
    c ∈ batchNames name target batch ↔
      ∃ k, k / nameAvailabilityBatch = batch ∧ candidate name target k = c := by
  unfold batchNames nameAvailabilityBatch
  rw [List.mem_map]
  constructor
  · rintro ⟨i, hi, rfl⟩
    rw [List.mem_range] at hi
    exact ⟨batch * 10 + i, by omega, rfl⟩
  · rintro ⟨k, rfl, rfl⟩
    refine ⟨k % 10, List.mem_range.mpr (Nat.mod_lt k (by decide)), ?_⟩
    rw [Nat.div_add_mod']

section

variable {δ : Type} [DecidableEq δ] {digest : Name → δ} {folder : Folder δ} {batch : Nat}

omit [DecidableEq δ] in
theorem free_iff (hinj : Function.Injective digest) {c : Name} :
    folder.free digest (digest c) ↔ c ∉ folder.taken := by
  constructor
  · intro h hmem
    exact h c hmem rfl
  · intro h taken htaken heq
    rw [hinj heq] at htaken
    exact h htaken

/-- The server lists the hashes of the free names of a batch, and no others. -/
theorem mem_answer (hinj : Function.Injective digest) {d : δ} :
    d ∈ folder.answer digest batch ((batchNames name target batch).map digest) ↔
      ∃ c ∈ batchNames name target batch, c ∉ folder.taken ∧ digest c = d := by
  unfold Folder.answer
  rw [(folder.perm _ _).mem_iff, List.mem_filter, List.mem_map]
  constructor
  · rintro ⟨⟨c, hc, rfl⟩, hfree⟩
    exact ⟨c, hc, (free_iff hinj).mp (by simpa using hfree), rfl⟩
  · rintro ⟨c, hc, hfree, rfl⟩
    exact ⟨⟨c, hc, rfl⟩, by simpa using (free_iff hinj).mpr hfree⟩

theorem byDigest_eq (hinj : Function.Injective digest) {names : List Name} {c : Name}
    (hc : c ∈ names) : byDigest digest names (digest c) = some c := by
  unfold byDigest
  cases hfind : names.reverse.find? (fun candidate => digest candidate = digest c) with
  | none =>
      have hnone := List.find?_eq_none.mp hfind c (List.mem_reverse.mpr hc)
      simp at hnone
  | some c' =>
      have hsame : digest c' = digest c := by simpa using List.find?_some hfind
      rw [hinj hsame]

/-- The call, with the server's answers. -/
abbrev search (digest : Name → δ) (folder : Folder δ) (name : Name) (target : AvailableNameTarget)
    (fuel batch : Nat) : Option (Except ProtonError Name) :=
  getAvailableName digest (fun batch hashes => .ok (folder.answer digest batch hashes)) name target
    fuel batch

/-- Where every candidate is taken, the next batch is asked about. -/
theorem search_taken (hinj : Function.Injective digest)
    (h : ∀ c ∈ batchNames name target batch, c ∈ folder.taken) (fuel : Nat) :
    search digest folder name target (fuel + 1) batch =
      search digest folder name target fuel (batch + 1) := by
  have hnone : folder.answer digest batch ((batchNames name target batch).map digest) = [] := by
    apply List.eq_nil_iff_forall_not_mem.mpr
    intro d hd
    obtain ⟨c, hc, hfree, -⟩ := (mem_answer hinj).mp hd
    exact hfree (h c hc)
  simp only [search, getAvailableName, hnone]

/-- Where a candidate is free, the server chooses what is returned. -/
theorem search_free (hinj : Function.Injective digest)
    (h : ∃ c ∈ batchNames name target batch, c ∉ folder.taken) :
    ∃ c ∈ batchNames name target batch, c ∉ folder.taken ∧
      (folder.answer digest batch ((batchNames name target batch).map digest)).head? =
        some (digest c) ∧
      ∀ fuel, search digest folder name target (fuel + 1) batch = some (.ok c) := by
  obtain ⟨c, hc, hfree⟩ := h
  have hmem : digest c ∈ folder.answer digest batch ((batchNames name target batch).map digest) :=
    (mem_answer hinj).mpr ⟨c, hc, hfree, rfl⟩
  cases hanswer : folder.answer digest batch ((batchNames name target batch).map digest) with
  | nil =>
      rw [hanswer] at hmem
      cases hmem
  -- The server lists the free digests in an order of its own, so the name returned is any of them.
  | cons first rest =>
      have hfirst : first ∈
          folder.answer digest batch ((batchNames name target batch).map digest) := by
        rw [hanswer]
        exact List.mem_cons_self
      obtain ⟨c', hc', hfree', rfl⟩ := (mem_answer hinj).mp hfirst
      refine ⟨c', hc', hfree', rfl, ?_⟩
      intro fuel
      simp only [search, getAvailableName, hanswer, byDigest_eq hinj hc']

/-- What the call returns is a free candidate. -/
theorem search_ok (hinj : Function.Injective digest) {fuel : Nat} {r : Name}
    (h : search digest folder name target fuel batch = some (.ok r)) :
    r ∉ folder.taken ∧ ∃ k, candidate name target k = r := by
  induction fuel generalizing batch with
  | zero => cases h
  | succ fuel ih =>
      by_cases hall : ∀ c ∈ batchNames name target batch, c ∈ folder.taken
      · rw [search_taken hinj hall] at h
        exact ih h
      · push Not at hall
        obtain ⟨c, hc, hfree, -, hrun⟩ := search_free hinj hall
        rw [hrun] at h
        cases h
        obtain ⟨k, -, hk⟩ := mem_batchNames.mp hc
        exact ⟨hfree, k, hk⟩

/-- **Up to the first free candidate** the search goes on, and there it ends. -/
theorem search_firstFree (hinj : Function.Injective digest) {f : Nat} (hf : f < 2 ^ 31)
    (hfirst : FirstFree name target folder.taken f) {r : Except ProtonError Name} (left : Nat)
    (hbatch : batch + left = f / nameAvailabilityBatch) :
    (∃ fuel, search digest folder name target fuel batch = some r) ↔
      search digest folder name target 1 (f / nameAvailabilityBatch) = some r := by
  induction left generalizing batch with
  | zero =>
      -- The batch with the first free name, which the search does not leave.
      obtain rfl : batch = f / nameAvailabilityBatch := hbatch
      have hfree : ∃ c ∈ batchNames name target (f / nameAvailabilityBatch), c ∉ folder.taken := by
        refine ⟨_, mem_batchNames.mpr ⟨f, rfl, candidate_of_lt hf⟩, hfirst.1⟩
      obtain ⟨c, -, -, -, hrun⟩ := search_free hinj hfree
      constructor
      · rintro ⟨fuel, h⟩
        cases fuel with
        | zero => cases h
        | succ fuel => rw [hrun 0, ← hrun fuel, h]
      · intro h
        exact ⟨1, h⟩
  | succ left ih =>
      -- A batch in front of it, whose names are all taken.
      have htaken : ∀ c ∈ batchNames name target batch, c ∈ folder.taken := by
        intro c hc
        obtain ⟨k, rfl, rfl⟩ := mem_batchNames.mp hc
        have hk : k < f := by
          by_contra hge
          have := Nat.div_le_div_right (c := nameAvailabilityBatch) (Nat.not_lt.mp hge)
          omega
        rw [candidate_of_lt (hk.trans hf)]
        exact hfirst.2 k hk
      have hnext : batch + 1 + left = f / nameAvailabilityBatch := by omega
      rw [← ih hnext]
      constructor
      · rintro ⟨fuel, h⟩
        cases fuel with
        | zero => cases h
        | succ fuel =>
            rw [search_taken hinj htaken] at h
            exact ⟨fuel, h⟩
      · rintro ⟨fuel, h⟩
        exact ⟨fuel + 1, by rw [search_taken hinj htaken, h]⟩

end

/-- Some candidate is free, and the first one is what is returned exactly if it comes before the
counter wraps and the server lists its hash first, in the answer to the batch that it is in. -/
theorem getAvailableName_first_iff {δ : Type} [DecidableEq δ] (digest : Name → δ)
    (hinj : Function.Injective digest) (folder : Folder δ) (name : Name)
    (target : AvailableNameTarget) :
    ∃ f, FirstFree name target folder.taken f ∧
      (Returns digest folder name target (.ok (sequence name target f)) ↔
        f < 2 ^ 31 ∧
        (folder.answer digest (f / nameAvailabilityBatch)
            ((batchNames name target (f / nameAvailabilityBatch)).map digest)).head? =
          some (digest (sequence name target f))) := by
  obtain ⟨f, hfirst⟩ := exists_firstFree name target folder.taken
  refine ⟨f, hfirst, ?_⟩
  by_cases hf : f < 2 ^ 31
  · have hfree : ∃ c ∈ batchNames name target (f / nameAvailabilityBatch), c ∉ folder.taken :=
      ⟨_, mem_batchNames.mpr ⟨f, rfl, candidate_of_lt hf⟩, hfirst.1⟩
    obtain ⟨c, -, -, hhead, hrun⟩ := search_free hinj hfree
    have hreturns := search_firstFree hinj hf hfirst (r := .ok (sequence name target f))
      (f / nameAvailabilityBatch) (Nat.zero_add _)
    show (∃ fuel, search digest folder name target fuel 0 = _) ↔ _
    rw [hreturns, hrun 0, hhead]
    constructor
    · intro h
      cases h
      exact ⟨hf, rfl⟩
    · rintro ⟨-, h⟩
      rw [hinj (Option.some.inj h)]
  · -- Beyond the numbers of an `i32` the search panics before it comes to the first free name.
    constructor
    · rintro ⟨fuel, h⟩
      obtain ⟨hfree, k, hk⟩ := search_ok hinj h
      cases k with
      | zero => exact absurd (hfirst.2 0 (by omega)) (by rw [← hk] at hfree; exact hfree)
      | succ k => exact absurd hk (candidate_ne (Nat.not_lt.mp hf) k)
    · rintro ⟨h, -⟩
      exact absurd h hf

/-- The file `a` is there, and the server keeps the order of the request. -/
def folderWithA : Folder Name where
  taken := {['a']}
  listed _ hashes := hashes
  perm _ hashes := .refl hashes

theorem getAvailableName_first_iff_taken :
    Returns id folderWithA ['a'] .file (.ok (sequence ['a'] .file 1)) := by
  obtain ⟨f, hfirst, hiff⟩ :=
    getAvailableName_first_iff id Function.injective_id folderWithA ['a'] .file
  have hone : f = 1 := by
    have hzero : f ≠ 0 := by
      rintro rfl
      exact hfirst.1 (by decide)
    have hnot : ¬ 1 < f := fun h => absurd (hfirst.2 1 h) (by decide)
    omega
  subst hone
  exact hiff.mpr ⟨by decide, by decide⟩

/-- Nothing is there, and the server lists what is free from the end. -/
def emptyFolder : Folder Name where
  taken := ∅
  listed _ hashes := hashes.reverse
  perm _ hashes := hashes.reverse_perm

/-- The file `a` is free, and becomes `a (9)`. -/
theorem a_becomes_nine :
    FirstFree ['a'] .file emptyFolder.taken 0 ∧
      Returns id emptyFolder ['a'] .file (.ok (sequence ['a'] .file 9)) ∧
      ¬ Returns id emptyFolder ['a'] .file (.ok ['a']) := by
  have hfirst : FirstFree ['a'] .file emptyFolder.taken 0 := by
    refine ⟨Finset.notMem_empty _, ?_⟩
    intro k hk
    cases hk
  have hrun : search id emptyFolder ['a'] .file 1 0 = some (.ok (sequence ['a'] .file 9)) := by
    decide
  refine ⟨hfirst, ⟨1, hrun⟩, ?_⟩
  intro h
  have hother := (search_firstFree Function.injective_id (by decide) hfirst 0 rfl).mp h
  rw [show 0 / nameAvailabilityBatch = 0 from rfl, hrun] at hother
  exact absurd hother (by decide)

end ProtonDrive.AvailableName
