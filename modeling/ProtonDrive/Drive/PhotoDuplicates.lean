import Mathlib.Data.List.Forall2
import ProtonDrive.Lib.Except
import ProtonDrive.Lib.Routing
import ProtonDrive.Sdk.Error
import ProtonDrive.Drive.Client

/-!
# Photos that are already there

The searches for duplicates of a photo: for one photo (`find_photo_duplicates`), for many at once
(`find_photo_duplicates_many`), and by name only (`photo_name_collisions`). A photo is asked for by
the HMAC of its name and known again by that of the SHA-1 of its contents. The searches for many
ask for every name hash once, and an answer goes to all the positions that asked for its hash.

* `found` — the photo an entry of an answer stands for, if it is a duplicate.
* `run_many`, `run_collisions` — what the searches for many return, position by position.
* `Answers` — a server whose answer to a set of hashes is made of the entries of each hash.
-/

namespace ProtonDrive.PhotoDuplicates

open OpenPgp Routing

/-! ## Text -/

def hexDigit (n : Nat) : Char := "0123456789abcdef".toList.getD n '0'

/-- `hex::encode`. -/
def hexEncode (bytes : Bytes) : String :=
  String.ofList (bytes.flatMap fun b => [hexDigit (b.toNat / 16), hexDigit (b.toNat % 16)])

def toAsciiLowercase (s : String) : String := String.ofList (s.toList.map Char.toLower)

def eqIgnoreAsciiCase (s t : String) : Bool := toAsciiLowercase s == toAsciiLowercase t

/-- The digits are lower case. -/
theorem toLower_hexDigit (n : Nat) : (hexDigit n).toLower = hexDigit n := by
  unfold hexDigit
  rcases Nat.lt_or_ge n 16 with hlt | hge
  · have hall : ∀ n < 16, ("0123456789abcdef".toList.getD n '0').toLower =
        "0123456789abcdef".toList.getD n '0' := by decide
    exact hall n hlt
  · rw [List.getD_eq_getElem?_getD, List.getElem?_eq_none (by simpa using hge)]
    rfl

/-- Hex text is lower case already. -/
@[simp] theorem toAsciiLowercase_hexEncode (bytes : Bytes) :
    toAsciiLowercase (hexEncode bytes) = hexEncode bytes := by
  unfold toAsciiLowercase hexEncode
  rw [String.toList_ofList, List.map_flatMap]
  simp only [List.map_cons, List.map_nil, toLower_hexDigit]

/-- Lower case stays lower case. -/
theorem toLower_toLower (ch : Char) : ch.toLower.toLower = ch.toLower := by
  unfold Char.toLower
  split
  · simp only
    grind
  · grind

@[simp] theorem toAsciiLowercase_idem (s : String) :
    toAsciiLowercase (toAsciiLowercase s) = toAsciiLowercase s := by
  unfold toAsciiLowercase
  rw [String.toList_ofList, List.map_map]
  congr 2
  funext ch
  exact toLower_toLower ch

@[simp] theorem toAsciiLowercase_eq_empty {s : String} : toAsciiLowercase s = "" ↔ s = "" := by
  unfold toAsciiLowercase
  rw [← String.toList_inj, ← String.toList_inj, String.toList_ofList]
  simp

/-! ## The searches -/

/-- The fields of an entry that a search reads. -/
structure FoundPhotoDuplicateDto where
  nameHash : String
  contentHash : String
  linkState : Option Int
  linkId : Option LinkId
  deriving DecidableEq, Repr

/-- What the searches ask of the client. -/
structure PhotosClient where
  ensurePhotos : Except ProtonError Bool
  photosRoot : NodeUid
  folderNodeKey : NodeUid → Except ProtonError Key
  parentHashKeyCtx : NodeUid → Key → Except ProtonError Bytes
  /-- HMAC-SHA-256 of a text. -/
  hmacSha256 : Bytes → String → Bytes
  sha1 : Bytes → Bytes
  /-- `POST volumes/{vid}/photos/duplicates`. -/
  postDuplicates : VolumeId → List String → Except ProtonError (List FoundPhotoDuplicateDto)

def activeLinkState : Int := 1

def duplicateBatch : Nat := 150

def noPhotosVolume : ProtonError := .invalidOperation "account has no photos volume"

variable (c : PhotosClient)

/-- How each of the searches begins: the hash key of the photos root. -/
def photosHashKey : Except ProtonError Bytes := do
  match ← c.ensurePhotos with
  | false => throw noPhotosVolume
  | true =>
      let rootKey ← c.folderNodeKey c.photosRoot
      c.parentHashKeyCtx c.photosRoot rootKey

def hashOf (hashKey : Bytes) (text : String) : String := hexEncode (c.hmacSha256 hashKey text)

def findPhotoDuplicates (name : String) (contents : Bytes) : Except ProtonError (List NodeUid) := do
  let hashKey ← photosHashKey c
  let nameHash := hashOf c hashKey name
  let response ← c.postDuplicates c.photosRoot.volumeId [nameHash]
  let candidates := response.filter fun duplicate =>
    duplicate.linkId.isSome && duplicate.linkState == some activeLinkState &&
      duplicate.nameHash != "" && duplicate.contentHash != ""
  if candidates.isEmpty then return []
  else
    let sha1Hex := hexEncode (c.sha1 contents)
    let contentHash := hashOf c hashKey sha1Hex
    return (candidates.filter fun duplicate =>
        eqIgnoreAsciiCase duplicate.nameHash nameHash &&
          eqIgnoreAsciiCase duplicate.contentHash contentHash).filterMap
      fun duplicate => duplicate.linkId.map (NodeUid.mk c.photosRoot.volumeId)

/-- One request for each batch of hashes, and each entry of an answer recorded. -/
def askDuplicates {β : Type} (record : β → FoundPhotoDuplicateDto → β) (out : β)
    (nameHashes : List String) : Except ProtonError β :=
  (Context.chunks duplicateBatch nameHashes).foldlM (fun out chunk => do
    let response ← c.postDuplicates c.photosRoot.volumeId chunk
    return response.foldl record out) out

/-- An entry goes to the positions that asked for its name and whose contents agree too. -/
def recordMatch (positions : String → Option (List Nat)) (contentHashes : List String)
    (out : List (List NodeUid)) (duplicate : FoundPhotoDuplicateDto) : List (List NodeUid) :=
  match duplicate.linkId with
  | none => out
  | some linkId =>
      if duplicate.linkState ≠ some activeLinkState ∨ duplicate.nameHash = "" ∨
          duplicate.contentHash = "" then out
      else
        match positions (toAsciiLowercase duplicate.nameHash) with
        | none => out
        | some indices =>
            indices.foldl (fun out index =>
              if contentHashes[index]?.any (eqIgnoreAsciiCase duplicate.contentHash) then
                out.modify index (· ++ [⟨c.photosRoot.volumeId, linkId⟩])
              else out) out

def findPhotoDuplicatesMany (items : List (String × String)) :
    Except ProtonError (List (List NodeUid)) := do
  let out := List.replicate items.length []
  if items.isEmpty then return out
  else
    let hashKey ← photosHashKey c
    let asked := Asked.of (items.map fun item => hashOf c hashKey item.1)
    let contentHashes := items.map fun item => hashOf c hashKey (toAsciiLowercase item.2)
    askDuplicates c (recordMatch c asked.positions contentHashes) out asked.keys

/-- An entry goes to the positions that asked for its name. -/
def recordCollision (positions : String → Option (List Nat)) (out : List Bool)
    (duplicate : FoundPhotoDuplicateDto) : List Bool :=
  if duplicate.linkId = none ∨ duplicate.linkState ≠ some activeLinkState then out
  else
    match positions (toAsciiLowercase duplicate.nameHash) with
    | none => out
    | some indices => indices.foldl (fun out index => out.modify index fun _ => true) out

def photoNameCollisions (names : List String) : Except ProtonError (List Bool) := do
  let out := List.replicate names.length false
  if names.isEmpty then return out
  else
    let hashKey ← photosHashKey c
    let asked := Asked.of (names.map (hashOf c hashKey))
    askDuplicates c (recordCollision asked.positions) out asked.keys

/-! ## What a search finds -/

/-- The photo an entry stands for, if it is a duplicate of that name and those contents. -/
def found (volumeId : VolumeId) (nameHash contentHash : String)
    (duplicate : FoundPhotoDuplicateDto) : Option NodeUid :=
  if duplicate.linkState = some activeLinkState ∧ duplicate.nameHash ≠ "" ∧
      duplicate.contentHash ≠ "" ∧ toAsciiLowercase duplicate.nameHash = nameHash ∧
      toAsciiLowercase duplicate.contentHash = contentHash then
    duplicate.linkId.map (NodeUid.mk volumeId)
  else none

variable {c : PhotosClient}

/-- A name hash is lower case already. -/
theorem hashOf_lowercase (hashKey : Bytes) (text : String) :
    toAsciiLowercase (hashOf c hashKey text) = hashOf c hashKey text :=
  toAsciiLowercase_hexEncode _

/-- What counts as a duplicate, when both hashes are lower case. -/
theorem found_eq (volumeId : VolumeId) {nameHash contentHash : String}
    (hname : toAsciiLowercase nameHash = nameHash)
    (hcontent : toAsciiLowercase contentHash = contentHash) (d : FoundPhotoDuplicateDto) :
    found volumeId nameHash contentHash d =
      if (d.linkId.isSome && d.linkState == some activeLinkState && d.nameHash != "" &&
          d.contentHash != "") ∧
        (eqIgnoreAsciiCase d.nameHash nameHash && eqIgnoreAsciiCase d.contentHash contentHash) then
        d.linkId.map (NodeUid.mk volumeId)
      else none := by
  unfold found eqIgnoreAsciiCase
  rw [hname, hcontent]
  cases d.linkId <;> simp [and_assoc]

/-- The search for one photo returns what the answer to its name hash has of it. -/
theorem findPhotoDuplicates_eq (name : String) (contents : Bytes) :
    findPhotoDuplicates c name contents = do
      let hashKey ← photosHashKey c
      let response ← c.postDuplicates c.photosRoot.volumeId [hashOf c hashKey name]
      return response.filterMap (found c.photosRoot.volumeId (hashOf c hashKey name)
        (hashOf c hashKey (hexEncode (c.sha1 contents)))) := by
  apply bind_congr
  intro hashKey
  apply bind_congr
  intro response
  have hfound := found_eq c.photosRoot.volumeId (hashOf_lowercase (c := c) hashKey name)
    (hashOf_lowercase (c := c) hashKey (hexEncode (c.sha1 contents)))
  show (if _ then _ else _) = _
  split
  · -- The source returns early when nothing is live under the hash.
    next hempty =>
      rw [List.isEmpty_iff, List.filter_eq_nil_iff] at hempty
      rw [List.filterMap_eq_nil_iff.mpr]
      intro d hd
      rw [hfound d, if_neg]
      exact fun h => hempty d hd h.1
  · -- The three filters of the source are one.
    show pure (List.filterMap _ (List.filter _ (List.filter _ _))) = _
    rw [List.filterMap_filter, List.filterMap_filter]
    congr 2
    funext d
    rw [hfound d]
    grind

/-- The loop records every entry of the answers, in the order of the requests. -/
theorem askDuplicates_eq_ok {β : Type} {record : β → FoundPhotoDuplicateDto → β} {out out' : β}
    {nameHashes : List String} :
    askDuplicates c record out nameHashes = .ok out' ↔
      ∃ answers, List.Forall₂ (fun chunk answer =>
          c.postDuplicates c.photosRoot.volumeId chunk = .ok answer)
        (Context.chunks duplicateBatch nameHashes) answers ∧
        answers.flatten.foldl record out = out' := by
  unfold askDuplicates
  -- By induction on the chunks, each with an answer of its own.
  induction Context.chunks duplicateBatch nameHashes generalizing out with
  | nil => simp [pure, Except.pure]
  | cons chunk rest ih =>
      rw [List.foldlM_cons]
      constructor
      · intro h
        obtain ⟨out₁, h₁, hrest⟩ := Except.bind_eq_ok.mp h
        obtain ⟨answer, hanswer, h₁⟩ := Except.bind_eq_ok.mp h₁
        cases h₁
        obtain ⟨answers, hanswers, hout⟩ := ih.mp hrest
        refine ⟨answer :: answers, .cons hanswer hanswers, ?_⟩
        rw [List.flatten_cons, List.foldl_append, hout]
      · rintro ⟨answers, hanswers, hout⟩
        cases hanswers with
        | cons hanswer hanswers =>
            rw [List.flatten_cons, List.foldl_append] at hout
            apply Except.bind_eq_ok.mpr
            refine ⟨_, Except.bind_eq_ok.mpr ⟨_, hanswer, rfl⟩, ?_⟩
            exact ih.mpr ⟨_, hanswers, hout⟩

/-! ## Position by position -/

variable {asked : Asked String} {nameHashes contentHashes : List String} {i : Nat}
  {nameHash contentHash : String}

/-- What an entry adds at a position: its photo, if it is a duplicate of what was asked there. -/
theorem getElem?_recordMatch (h : asked.Complete nameHashes) (hname : nameHashes[i]? = some nameHash)
    (hcontent : contentHashes[i]? = some contentHash)
    (hlower : toAsciiLowercase contentHash = contentHash) (out : List (List NodeUid))
    (d : FoundPhotoDuplicateDto) :
    (recordMatch c asked.positions contentHashes out d)[i]? =
      out[i]?.map (· ++ (found c.photosRoot.volumeId nameHash contentHash d).toList) := by
  unfold recordMatch found
  cases hlink : d.linkId with
  | none => simp
  | some linkId =>
      simp only [Option.map_some]
      split
      · next hskip =>
          rw [if_neg (by tauto)]
          simp
      · next hkeep =>
          push Not at hkeep
          -- The hash of the answer is none that was asked for.
          cases hpos : asked.positions (toAsciiLowercase d.nameHash) with
          | none =>
              have hne := h.getElem?_ne hpos (i := i)
              rw [hname] at hne
              rw [if_neg fun hall => hne (by rw [hall.2.2.2.1])]
              simp
          | some indices =>
              have hmem := h.mem_iff hpos (i := i)
              rw [hname, Option.some.injEq] at hmem
              rw [getElem?_deliver _ _ (h.nodup_positions _ _ hpos), hcontent, Option.any_some,
                eqIgnoreAsciiCase, hlower]
              congr 1
              funext ms
              -- Of the positions with the name hash those with the contents get the link.
              by_cases hfound : toAsciiLowercase d.nameHash = nameHash ∧
                  toAsciiLowercase d.contentHash = contentHash
              · rw [if_pos ⟨hmem.mpr hfound.1.symm, beq_iff_eq.mpr hfound.2⟩,
                  if_pos ⟨hkeep.1, hkeep.2.1, hkeep.2.2, hfound⟩]
                rfl
              · rw [if_neg fun hall => hfound ⟨(hmem.mp hall.1).symm, beq_iff_eq.mp hall.2⟩,
                  if_neg fun hall => hfound hall.2.2.2]
                simp

/-- What an entry changes at a position: it is a collision if the entry has the name asked there. -/
theorem getElem?_recordCollision (h : asked.Complete nameHashes)
    (hname : nameHashes[i]? = some nameHash) (out : List Bool) (d : FoundPhotoDuplicateDto) :
    (recordCollision asked.positions out d)[i]? =
      out[i]?.map (· || (d.linkId.isSome && d.linkState == some activeLinkState &&
        toAsciiLowercase d.nameHash == nameHash)) := by
  unfold recordCollision
  split
  · -- The entry is no live link, which the source skips.
    next hskip =>
      have hno : (d.linkId.isSome && d.linkState == some activeLinkState) = false := by
        rw [Bool.and_eq_false_iff]
        rcases hskip with hlink | hstate
        · exact .inl (by rw [hlink]; rfl)
        · exact .inr (by simpa using hstate)
      simp [hno]
  · next hkeep =>
      push Not at hkeep
      have hyes : (d.linkId.isSome && d.linkState == some activeLinkState) = true := by
        rw [Bool.and_eq_true, Option.isSome_iff_ne_none, beq_iff_eq]
        exact hkeep
      -- The hash of the answer is none that was asked for.
      cases hpos : asked.positions (toAsciiLowercase d.nameHash) with
      | none =>
          have hne := h.getElem?_ne hpos (i := i)
          rw [hname, Ne, Option.some.injEq] at hne
          simp [beq_false_of_ne (Ne.symm hne)]
      | some indices =>
          have hmem := h.mem_iff hpos (i := i)
          rw [hname, Option.some.injEq] at hmem
          have hdeliver := getElem?_deliver (fun _ => true) (fun _ : Bool => true)
            (h.nodup_positions _ _ hpos) out i
          simp only [if_true] at hdeliver
          rw [hdeliver, hyes]
          congr 1
          funext b
          by_cases heq : nameHash = toAsciiLowercase d.nameHash
          · rw [if_pos ⟨hmem.mpr heq, trivial⟩, heq]
            simp
          · rw [if_neg fun hall => heq (hmem.mp hall.1)]
            simp [Ne.symm heq]

/-- Recording a match keeps the number of items. -/
theorem length_recordMatch (out : List (List NodeUid)) (d : FoundPhotoDuplicateDto) :
    (recordMatch c asked.positions contentHashes out d).length = out.length := by
  unfold recordMatch
  split
  · rfl
  · split
    · rfl
    · split
      · rfl
      · exact length_deliver _ _ _ _

/-- Recording a collision keeps the number of names. -/
theorem length_recordCollision (out : List Bool) (d : FoundPhotoDuplicateDto) :
    (recordCollision asked.positions out d).length = out.length := by
  unfold recordCollision
  split
  · rfl
  · split
    · rfl
    · next indices _ => simpa using length_deliver (fun _ => true) (fun _ => true) indices out

/-- Matches are collected in the order of the answer. -/
theorem foldl_append_toList {α : Type} (g : FoundPhotoDuplicateDto → Option α)
    (ds : List FoundPhotoDuplicateDto) (ms : List α) :
    ds.foldl (fun ms d => ms ++ (g d).toList) ms = ms ++ ds.filterMap g := by
  induction ds generalizing ms with
  | nil => simp
  | cons d ds ih =>
      rw [List.foldl_cons, ih, List.filterMap_cons]
      cases g d <;> simp

/-- One match suffices. -/
theorem foldl_or (p : FoundPhotoDuplicateDto → Bool) (ds : List FoundPhotoDuplicateDto) (b : Bool) :
    ds.foldl (fun b d => b || p d) b = (b || ds.any p) := by
  induction ds generalizing b with
  | nil => simp
  | cons d ds ih => rw [List.foldl_cons, ih, List.any_cons, Bool.or_assoc]

/-- The entries of the answers to all the hashes that were asked for. -/
def Replied (c : PhotosClient) (nameHashes : List String)
    (entries : List FoundPhotoDuplicateDto) : Prop :=
  ∃ answers, List.Forall₂ (fun chunk answer =>
      c.postDuplicates c.photosRoot.volumeId chunk = .ok answer)
    (Context.chunks duplicateBatch (Asked.of nameHashes).keys) answers ∧ answers.flatten = entries

/-- The search for many has at each position what the answers have of it. -/
theorem run_many {items : List (String × String)} (hne : items ≠ []) {out : List (List NodeUid)}
    (hrun : findPhotoDuplicatesMany c items = .ok out) :
    out.length = items.length ∧ ∃ hashKey entries, photosHashKey c = .ok hashKey ∧
      Replied c (items.map fun item => hashOf c hashKey item.1) entries ∧
      ∀ (i : Nat) (item : String × String), items[i]? = some item →
        out[i]? = some (entries.filterMap (found c.photosRoot.volumeId
          (hashOf c hashKey item.1) (hashOf c hashKey (toAsciiLowercase item.2)))) := by
  unfold findPhotoDuplicatesMany at hrun
  simp only [List.isEmpty_iff, hne, if_false] at hrun
  obtain ⟨hashKey, hkey, hrun⟩ := Except.bind_eq_ok.mp hrun
  obtain ⟨answers, hanswers, rfl⟩ := askDuplicates_eq_ok.mp hrun
  constructor
  · rw [length_foldl fun out d => length_recordMatch out d, List.length_replicate]
  · refine ⟨hashKey, answers.flatten, hkey, ⟨answers, hanswers, rfl⟩, ?_⟩
    -- Every item collects, over all answers, what is found under its two hashes.
    intro i item hitem
    have hlt : i < items.length := (List.getElem?_eq_some_iff.mp hitem).1
    rw [getElem?_foldl fun out d => getElem?_recordMatch (Asked.complete_of _)
      (by rw [List.getElem?_map, hitem]; rfl) (by rw [List.getElem?_map, hitem]; rfl)
      (hashOf_lowercase _ _) out d, List.getElem?_replicate, if_pos hlt, Option.map_some,
      foldl_append_toList, List.nil_append]

/-- The search by name has at each position whether the answers have its name. -/
theorem run_collisions {names : List String} (hne : names ≠ []) {hits : List Bool}
    (hrun : photoNameCollisions c names = .ok hits) :
    hits.length = names.length ∧ ∃ hashKey entries, photosHashKey c = .ok hashKey ∧
      Replied c (names.map (hashOf c hashKey)) entries ∧
      ∀ (i : Nat) (name : String), names[i]? = some name → hits[i]? = some (entries.any fun d =>
        d.linkId.isSome && d.linkState == some activeLinkState &&
          toAsciiLowercase d.nameHash == hashOf c hashKey name) := by
  unfold photoNameCollisions at hrun
  simp only [List.isEmpty_iff, hne, if_false] at hrun
  obtain ⟨hashKey, hkey, hrun⟩ := Except.bind_eq_ok.mp hrun
  obtain ⟨answers, hanswers, rfl⟩ := askDuplicates_eq_ok.mp hrun
  constructor
  · rw [length_foldl fun out d => length_recordCollision out d, List.length_replicate]
  · refine ⟨hashKey, answers.flatten, hkey, ⟨answers, hanswers, rfl⟩, ?_⟩
    intro i name hname
    have hlt : i < names.length := (List.getElem?_eq_some_iff.mp hname).1
    rw [getElem?_foldl fun out d => getElem?_recordCollision (Asked.complete_of _)
      (by rw [List.getElem?_map, hname]; rfl) out d, List.getElem?_replicate, if_pos hlt,
      Option.map_some, foldl_or, Bool.false_or]

/-! ## The server -/

/-- An entry as it is, whatever case its name hash is echoed in. -/
def FoundPhotoDuplicateDto.lowered (d : FoundPhotoDuplicateDto) : FoundPhotoDuplicateDto :=
  { d with nameHash := toAsciiLowercase d.nameHash }

/-- A server that answers a set of name hashes with the entries of each hash, and each entry with
the hash it is for. -/
structure Answers (c : PhotosClient) (entries : String → List FoundPhotoDuplicateDto) : Prop where
  perm : ∀ nameHashes answer, nameHashes.Nodup →
    c.postDuplicates c.photosRoot.volumeId nameHashes = .ok answer →
    (answer.map FoundPhotoDuplicateDto.lowered).Perm
      ((nameHashes.flatMap entries).map FoundPhotoDuplicateDto.lowered)
  echoed : ∀ nameHash, ∀ d ∈ entries nameHash, eqIgnoreAsciiCase d.nameHash nameHash

/-- Case does not matter for what is found. -/
theorem found_lowered (volumeId : VolumeId) (d : FoundPhotoDuplicateDto) :
    found volumeId nameHash contentHash d.lowered = found volumeId nameHash contentHash d := by
  unfold found FoundPhotoDuplicateDto.lowered
  simp

/-- Case does not matter for what is found in an answer. -/
theorem filterMap_found_lowered (volumeId : VolumeId) (ds : List FoundPhotoDuplicateDto) :
    (ds.map FoundPhotoDuplicateDto.lowered).filterMap (found volumeId nameHash contentHash) =
      ds.filterMap (found volumeId nameHash contentHash) := by
  rw [List.filterMap_map]
  congr 1
  funext d
  exact found_lowered volumeId d

variable {entries : String → List FoundPhotoDuplicateDto}

/-- What batches of hashes are answered with is what their hashes are. -/
theorem Answers.perm_flatten (h : Answers c entries) {batches : List (List String)}
    {answers : List (List FoundPhotoDuplicateDto)} (hnodup : batches.flatten.Nodup)
    (hanswers : List.Forall₂ (fun batch answer =>
      c.postDuplicates c.photosRoot.volumeId batch = .ok answer) batches answers) :
    (answers.flatten.map FoundPhotoDuplicateDto.lowered).Perm
      ((batches.flatten.flatMap entries).map FoundPhotoDuplicateDto.lowered) := by
  induction hanswers with
  | nil => exact .refl _
  | cons hanswer _ ih =>
      rw [List.flatten_cons] at hnodup
      obtain ⟨hbatch, hrest, -⟩ := List.nodup_append.mp hnodup
      rw [List.flatten_cons, List.flatten_cons, List.map_append, List.flatMap_append,
        List.map_append]
      exact (h.perm _ _ hbatch hanswer).append (ih hrest)

/-- Of all the entries of a reply, those of a name are what its hash alone is answered with. -/
theorem Answers.perm_found (h : Answers c entries) {ds : List FoundPhotoDuplicateDto}
    (hds : Replied c nameHashes ds) (hmem : nameHash ∈ nameHashes)
    (hlower : ∀ k ∈ nameHashes, toAsciiLowercase k = k) {answer : List FoundPhotoDuplicateDto}
    (hanswer : c.postDuplicates c.photosRoot.volumeId [nameHash] = .ok answer)
    (contentHash : String) :
    (ds.filterMap (found c.photosRoot.volumeId nameHash contentHash)).Perm
      (answer.filterMap (found c.photosRoot.volumeId nameHash contentHash)) := by
  obtain ⟨answers, hanswers, rfl⟩ := hds
  have hasked := Asked.complete_of nameHashes
  have hkeys : (Context.chunks duplicateBatch (Asked.of nameHashes).keys).flatten =
      (Asked.of nameHashes).keys := Context.chunks_flatten (by decide) _
  have hbatches := h.perm_flatten (by rw [hkeys]; exact hasked.nodup_keys) hanswers
  have hsingle := h.perm [nameHash] answer (List.nodup_singleton _) hanswer
  rw [hkeys] at hbatches
  -- Under another name hash nothing is found for this one.
  have hothers : ∀ k ∈ (Asked.of nameHashes).keys, k ≠ nameHash →
      (entries k).filterMap (found c.photosRoot.volumeId nameHash contentHash) = [] := by
    intro k hk hne
    rw [List.filterMap_eq_nil_iff]
    intro d hd
    have hecho := h.echoed k d hd
    rw [eqIgnoreAsciiCase, beq_iff_eq, hlower k ((hasked.mem_keys k).mp hk)] at hecho
    exact if_neg fun hall => hne (hecho.symm.trans hall.2.2.2.1)
  -- So what is found comes from the entries of this name hash, however the answers were cut.
  have hone : ((Asked.of nameHashes).keys.flatMap entries).filterMap
      (found c.photosRoot.volumeId nameHash contentHash) =
        ([nameHash].flatMap entries).filterMap
          (found c.photosRoot.volumeId nameHash contentHash) := by
    rw [List.filterMap_flatMap,
      flatMap_eq_of_nodup hasked.nodup_keys ((hasked.mem_keys nameHash).mpr hmem) hothers,
      List.flatMap_singleton]
  have hperm := (hbatches.filterMap (found c.photosRoot.volumeId nameHash contentHash)).trans
    (.of_eq ?_) |>.trans (hsingle.filterMap (found c.photosRoot.volumeId nameHash contentHash)).symm
  · rwa [filterMap_found_lowered, filterMap_found_lowered] at hperm
  · rw [filterMap_found_lowered, filterMap_found_lowered, hone]

/-! ## The searches agree -/

/-- The server answers every set of hashes that a search asks for. -/
def Reachable (c : PhotosClient) : Prop :=
  ∀ nameHashes : List String, nameHashes.length ≤ duplicateBatch →
    ∃ answer, c.postDuplicates c.photosRoot.volumeId nameHashes = .ok answer

/-- With a server that answers every question is answered. -/
theorem Reachable.askDuplicates (h : Reachable c) {β : Type}
    (record : β → FoundPhotoDuplicateDto → β) (out : β) (nameHashes : List String) :
    ∃ out', askDuplicates c record out nameHashes = .ok out' := by
  -- A server that answers every batch of the allowed size answers these.
  have hbatch : ∀ batch ∈ Context.chunks duplicateBatch nameHashes,
      batch.length ≤ duplicateBatch := by
    intro batch hmem
    obtain ⟨i, -, rfl⟩ := List.mem_map.mp hmem
    exact List.length_take_le _ _
  unfold PhotoDuplicates.askDuplicates
  revert hbatch
  induction Context.chunks duplicateBatch nameHashes generalizing out with
  | nil => exact fun _ => ⟨out, rfl⟩
  | cons batch rest ih =>
      intro hbatch
      obtain ⟨answer, hanswer⟩ := h batch (hbatch batch List.mem_cons_self)
      obtain ⟨out', hout'⟩ := ih (answer.foldl record out)
        fun batch hmem => hbatch batch (List.mem_cons_of_mem _ hmem)
      refine ⟨out', ?_⟩
      rw [List.foldlM_cons, hanswer]
      exact hout'

/-- With the server reachable, a search fails as the hash key does. -/
theorem bind_photosHashKey_eq_error {α : Type} {f : Bytes → Except ProtonError α} {e : ProtonError}
    (hf : ∀ hashKey, ∃ a, f hashKey = .ok a) :
    (photosHashKey c >>= f) = .error e ↔ photosHashKey c = .error e := by
  cases photosHashKey c with
  | error e' => simp [bind, Except.bind]
  | ok hashKey =>
      obtain ⟨a, ha⟩ := hf hashKey
      simp [bind, Except.bind, ha]

/-- One photo fails only where the hash key does. -/
theorem findPhotoDuplicates_eq_error (h : Reachable c) {name : String} {contents : Bytes}
    {e : ProtonError} :
    findPhotoDuplicates c name contents = .error e ↔ photosHashKey c = .error e := by
  rw [findPhotoDuplicates_eq]
  apply bind_photosHashKey_eq_error
  intro hashKey
  obtain ⟨answer, hanswer⟩ := h [hashOf c hashKey name] (Nat.le_add_left 1 149)
  rw [hanswer]
  exact ⟨_, rfl⟩

/-- Several photos fail only where the hash key does. -/
theorem findPhotoDuplicatesMany_eq_error (h : Reachable c) {items : List (String × String)}
    (hne : items ≠ []) {e : ProtonError} :
    findPhotoDuplicatesMany c items = .error e ↔ photosHashKey c = .error e := by
  unfold findPhotoDuplicatesMany
  simp only [List.isEmpty_iff, hne, if_false]
  exact bind_photosHashKey_eq_error fun hashKey => h.askDuplicates _ _ _

/-- Several names fail only where the hash key does. -/
theorem photoNameCollisions_eq_error (h : Reachable c) {names : List String} (hne : names ≠ [])
    {e : ProtonError} :
    photoNameCollisions c names = .error e ↔ photosHashKey c = .error e := by
  unfold photoNameCollisions
  simp only [List.isEmpty_iff, hne, if_false]
  exact bind_photosHashKey_eq_error fun hashKey => h.askDuplicates _ _ _

/-- What the answer for one photo is made of. -/
theorem findPhotoDuplicates_eq_ok {name : String} {contents : Bytes} {hashKey : Bytes}
    (hkey : photosHashKey c = .ok hashKey) {ms : List NodeUid} :
    findPhotoDuplicates c name contents = .ok ms ↔ ∃ answer,
      c.postDuplicates c.photosRoot.volumeId [hashOf c hashKey name] = .ok answer ∧
        answer.filterMap (found c.photosRoot.volumeId (hashOf c hashKey name)
          (hashOf c hashKey (hexEncode (c.sha1 contents)))) = ms := by
  rw [findPhotoDuplicates_eq, hkey]
  show (c.postDuplicates _ _ >>= _) = _ ↔ _
  rw [Except.bind_eq_ok]
  constructor
  · rintro ⟨answer, hanswer, hms⟩
    cases hms
    exact ⟨answer, hanswer, rfl⟩
  · rintro ⟨answer, hanswer, rfl⟩
    exact ⟨answer, hanswer, rfl⟩

/-- A duplicate has the name that was asked for. -/
theorem mem_found {volumeId : VolumeId} {d : FoundPhotoDuplicateDto} {uid : NodeUid}
    (h : found volumeId nameHash contentHash d = some uid) :
    (d.linkId.isSome && d.linkState == some activeLinkState &&
      toAsciiLowercase d.nameHash == nameHash) = true := by
  unfold found at h
  split at h
  · next hall =>
      obtain ⟨linkId, hlink, -⟩ := Option.map_eq_some_iff.mp h
      simp [hlink, hall.1, hall.2.2.2.1]
  · cases h

/-- The photos with the digests of their contents. -/
def digests (c : PhotosClient) (inputs : List (String × Bytes)) : List (String × String) :=
  inputs.map fun input => (input.1, hexEncode (c.sha1 input.2))

variable {inputs : List (String × Bytes)} {items : List (String × String)}

/-- The names of the items are those of the photos. -/
theorem names_of_digests
    (hitems : items.map (fun item => (item.1, toAsciiLowercase item.2)) = digests c inputs) :
    items.map Prod.fst = inputs.map Prod.fst := by
  have h := congrArg (List.map Prod.fst) hitems
  rwa [List.map_map, digests, List.map_map] at h

/-- Name hashes are lower case. -/
theorem map_hashOf_lowercase (hashKey : Bytes) (names : List String) :
    ∀ k ∈ names.map (hashOf c hashKey), toAsciiLowercase k = k := by
  intro k hk
  obtain ⟨name, -, rfl⟩ := List.mem_map.mp hk
  exact hashOf_lowercase hashKey name

/-- What is found for one of several photos is what is found for it alone. -/
theorem many_found (hanswers : Answers c entries)
    (hitems : items.map (fun item => (item.1, toAsciiLowercase item.2)) = digests c inputs)
    {out : List (List NodeUid)} (hout : findPhotoDuplicatesMany c items = .ok out) {i : Nat}
    {input : String × Bytes} {ms : List NodeUid} (hinput : inputs[i]? = some input)
    (hms : findPhotoDuplicates c input.1 input.2 = .ok ms) :
    ∃ ms', out[i]? = some ms' ∧ ms'.Perm ms := by
  have hitem := congrArg (fun l : List (String × String) => l[i]?) hitems
  simp only [digests, List.getElem?_map, hinput, Option.map_some, Option.map_eq_some_iff,
    Prod.mk.injEq] at hitem
  obtain ⟨item, hitem, hname, hcontent⟩ := hitem
  have hne : items ≠ [] := by
    rintro rfl
    cases hitem
  -- Both calls have the same hash key, and so the same hashes.
  obtain ⟨-, hashKey, ds, hkey, hds, hat⟩ := run_many hne hout
  obtain ⟨answer, hanswer, rfl⟩ := (findPhotoDuplicates_eq_ok hkey).mp hms
  have hds' : Replied c ((items.map Prod.fst).map (hashOf c hashKey)) ds := by
    rw [List.map_map]
    exact hds
  rw [names_of_digests hitems] at hds'
  refine ⟨_, hat i item hitem, ?_⟩
  rw [hname, hcontent]
  exact hanswers.perm_found hds'
    (List.mem_map_of_mem (List.mem_map_of_mem (List.mem_of_getElem? hinput)))
    (map_hashOf_lowercase _ _) hanswer _

/-- A photo whose name does not collide has no duplicate. -/
theorem collisions_found (hanswers : Answers c entries) {hits : List Bool}
    (hhits : photoNameCollisions c (inputs.map Prod.fst) = .ok hits) {i : Nat}
    {input : String × Bytes} {ms : List NodeUid} (hinput : inputs[i]? = some input)
    (hms : findPhotoDuplicates c input.1 input.2 = .ok ms) (hfalse : hits[i]? = some false) :
    ms = [] := by
  have hmem := List.mem_of_getElem? hinput
  have hne : inputs.map Prod.fst ≠ [] := List.ne_nil_of_mem (List.mem_map_of_mem hmem)
  obtain ⟨-, hashKey, ds, hkey, hds, hat⟩ := run_collisions hne hhits
  obtain ⟨answer, hanswer, rfl⟩ := (findPhotoDuplicates_eq_ok hkey).mp hms
  have hperm := hanswers.perm_found hds (List.mem_map_of_mem (List.mem_map_of_mem hmem))
    (map_hashOf_lowercase _ _) hanswer (hashOf c hashKey (hexEncode (c.sha1 input.2)))
  rw [hat i input.1 (by rw [List.getElem?_map, hinput]; rfl), Option.some.injEq,
    List.any_eq_false] at hfalse
  apply List.Perm.eq_nil
  refine hperm.symm.trans (.of_eq ?_)
  rw [List.filterMap_eq_nil_iff]
  -- Without a collision under the name there is none with the contents either.
  intro d hd
  cases hfound : found c.photosRoot.volumeId (hashOf c hashKey input.1)
      (hashOf c hashKey (hexEncode (c.sha1 input.2))) d with
  | none => rfl
  | some uid => exact absurd (mem_found hfound) (hfalse d hd)

/-- The search for many photos finds for each of them what the search for it alone finds, the search
by name passes over none of these, and all three fail together. -/
theorem many_eq_single (hanswers : Answers c entries)
    (hitems : items.map (fun item => (item.1, toAsciiLowercase item.2)) = digests c inputs) :
    (∀ out, findPhotoDuplicatesMany c items = .ok out → out.length = inputs.length ∧
      ∀ (i : Nat) input ms, inputs[i]? = some input →
        findPhotoDuplicates c input.1 input.2 = .ok ms →
          ∃ ms', out[i]? = some ms' ∧ ms'.Perm ms) ∧
    (∀ hits, photoNameCollisions c (inputs.map Prod.fst) = .ok hits →
      hits.length = inputs.length ∧
      ∀ (i : Nat) input ms, inputs[i]? = some input →
        findPhotoDuplicates c input.1 input.2 = .ok ms → hits[i]? = some false → ms = []) ∧
    (Reachable c → ∀ input ∈ inputs, ∀ e,
      (findPhotoDuplicates c input.1 input.2 = .error e ↔
        findPhotoDuplicatesMany c items = .error e) ∧
      (findPhotoDuplicates c input.1 input.2 = .error e ↔
        photoNameCollisions c (inputs.map Prod.fst) = .error e)) := by
  have hlength : items.length = inputs.length := by
    simpa using congrArg List.length (names_of_digests hitems)
  refine ⟨?_, ?_, ?_⟩
  · intro out hout
    -- No item is asked for when there is none.
    refine ⟨?_, fun i input ms hinput hms => many_found hanswers hitems hout hinput hms⟩
    by_cases hne : items = []
    · subst hne
      cases hout
      exact hlength
    · exact (run_many hne hout).1.trans hlength
  · intro hits hhits
    refine ⟨?_, fun i input ms hinput hms hfalse =>
      collisions_found hanswers hhits hinput hms hfalse⟩
    by_cases hne : inputs = []
    · subst hne
      cases hhits
      rfl
    · have hlen := (run_collisions (by simpa using hne) hhits).1
      rwa [List.length_map] at hlen
  · -- Each of the three fails only where the hash key does.
    intro hreachable input hinput e
    have hne : inputs ≠ [] := List.ne_nil_of_mem hinput
    have hne' : items ≠ [] := by
      rw [← List.length_pos_iff, hlength, List.length_pos_iff]
      exact hne
    rw [findPhotoDuplicates_eq_error hreachable, findPhotoDuplicatesMany_eq_error hreachable hne',
      photoNameCollisions_eq_error hreachable (by simpa using hne)]
    exact ⟨.rfl, .rfl⟩

/-- A server that knows one photo, of the name `j` and the contents 1, and shouts its name hash. -/
def onePhoto : PhotosClient where
  ensurePhotos := .ok true
  photosRoot := ⟨1, 1⟩
  folderNodeKey _ := .ok 7
  parentHashKeyCtx _ _ := .ok [42]
  hmacSha256 _ text := text.toList.map fun ch => UInt8.ofNat ch.toNat
  sha1 := id
  postDuplicates _ nameHashes :=
    .ok (nameHashes.flatMap fun k => if k = "6a" then [⟨"6A", "3031", some 1, some 5⟩] else [])

/-- The sample server answers with one photo. -/
theorem onePhoto_answers :
    Answers onePhoto fun k => if k = "6a" then [⟨"6A", "3031", some 1, some 5⟩] else [] where
  perm nameHashes answer _ hanswer := by
    cases hanswer
    exact .refl _
  echoed k d hd := by
    by_cases hk : k = "6a"
    · subst hk
      obtain rfl : d = ⟨"6A", "3031", some 1, some 5⟩ := by simpa using hd
      decide
    · simp [hk] at hd

/-- Of three photos, two of one name, the one that is there is found in its place. -/
theorem onePhoto_found :
    findPhotoDuplicatesMany onePhoto [("k", "01"), ("j", "02"), ("j", "01")] =
      .ok [[], [], [⟨1, 5⟩]] ∧
    ∃ ms', [[], [], [⟨1, 5⟩]][2]? = some ms' ∧ ms'.Perm [NodeUid.mk 1 5] :=
  have hrun : findPhotoDuplicatesMany onePhoto [("k", "01"), ("j", "02"), ("j", "01")] =
      .ok [[], [], [⟨1, 5⟩]] := by rfl
  have hitems : [("k", "01"), ("j", "02"), ("j", "01")].map
      (fun item => (item.1, toAsciiLowercase item.2)) =
        digests onePhoto [("k", [1]), ("j", [2]), ("j", [1])] := by rfl
  ⟨hrun, ((many_eq_single onePhoto_answers hitems).1 _ hrun).2 2 ("j", [1]) _ rfl (by rfl)⟩

end ProtonDrive.PhotoDuplicates
