import Mathlib.Logic.Function.Basic
import ProtonDrive.Lib.Paging
import ProtonDrive.Drive.Node

/-!
# Paged listings

The four loops of `client.rs` and `public_link.rs` that read a listing on its `AnchorID` cursor: the
children of a folder, in both clients, what is shared with the user, and what the user shares.

A listing ends at its first page without more to come or without an anchor. The two folder loops also
stop at a page without links, so they read a listing to its end exactly if no page before the last
one is empty. The two others always do.
-/

namespace ProtonDrive

open Paging (collect Chain Script)

/-! ## Folder children -/

structure FolderChildrenResponse where
  linkIds : List LinkId
  anchorId : Option LinkId
  moreResultsExist : Bool
  deriving DecidableEq, Repr

/-- The anchor of the page that follows, if the page says that one does. -/
def FolderChildrenResponse.following (page : FolderChildrenResponse) : Option LinkId :=
  if page.moreResultsExist then page.anchorId else none

def childrenPath (folderUid : NodeUid) (anchor : Option LinkId) : String :=
  let path := "v2/volumes/" ++ toString folderUid.volumeId ++ "/folders/" ++
    toString folderUid.linkId ++ "/children"
  match anchor with
  | some anchorId => path ++ "?AnchorID=" ++ toString anchorId
  | none => path

section

variable {σ : Type} (get : String → Program σ ProtonError FolderChildrenResponse)

/-- The anchor from which a folder loop goes on, if it does. -/
def FolderChildrenResponse.next (page : FolderChildrenResponse) : Option LinkId :=
  if page.linkIds.isEmpty then none
  else if !page.moreResultsExist then none
  else page.anchorId

def listFolderChildren (fuel : Nat) (folderUid : NodeUid) : Program σ ProtonError (List NodeUid) :=
  collect (fun anchor => get (childrenPath folderUid anchor))
    (fun page => page.linkIds.map (fun linkId => ⟨folderUid.volumeId, linkId⟩))
    FolderChildrenResponse.next fuel none []

/-- The method of `ProtonDriveClient`. -/
def enumerateFolderChildrenNodeUids (fuel : Nat) (folderUid : NodeUid) :
    Program σ ProtonError (List NodeUid) :=
  listFolderChildren get fuel folderUid

/-- The method of `ProtonDrivePublicLinkClient`, which asks through the link's own transport. -/
def PublicLink.enumerateFolderChildrenNodeUids (fuel : Nat) (folderUid : NodeUid) :
    Program σ ProtonError (List NodeUid) :=
  listFolderChildren get fuel folderUid

end

/-! ## Shared items -/

inductive ShareTargetType where
  | root
  | folder
  | file
  | album
  | photo
  | protonVendor
  deriving DecidableEq, Repr

def ShareTargetType.fromRaw (value : Int) : Option ShareTargetType :=
  if value = 0 then some .root
  else if value = 1 then some .folder
  else if value = 2 then some .file
  else if value = 3 then some .album
  else if value = 4 then some .photo
  else if value = 5 then some .protonVendor
  else none

/-- Whether the Drive client, and not the one for photos, owns this kind. -/
def ShareTargetType.isDriveItem : ShareTargetType → Bool
  | .folder | .file | .protonVendor => true
  | .root | .album | .photo => false

structure SharedWithMeLinkDto where
  volumeId : VolumeId
  shareId : ShareId
  linkId : LinkId
  shareTargetType : Int
  deriving DecidableEq, Repr

structure SharedWithMeItem where
  uid : NodeUid
  shareId : ShareId
  deriving DecidableEq, Repr

structure SharedWithMeResponse where
  links : List SharedWithMeLinkDto
  anchorId : Option String
  more : Bool
  deriving DecidableEq, Repr

def driveItems (page : SharedWithMeResponse) : List SharedWithMeItem :=
  (page.links.filter
    (fun link => (ShareTargetType.fromRaw link.shareTargetType).any ShareTargetType.isDriveItem)).map
    (fun link => ⟨⟨link.volumeId, link.linkId⟩, link.shareId⟩)

structure SharedByMeResponse where
  linkIds : List LinkId
  anchorId : Option String
  more : Bool
  deriving DecidableEq, Repr

/-- The anchor from which a loop over shared items goes on, if it does. An empty one is none. -/
def nextAnchor (more : Bool) (anchorId : Option String) : Option String :=
  let anchor := anchorId.filter (fun id => !id.isEmpty)
  if !more then none else anchor

def SharedWithMeResponse.next (page : SharedWithMeResponse) : Option String :=
  nextAnchor page.more page.anchorId

def SharedByMeResponse.next (page : SharedByMeResponse) : Option String :=
  nextAnchor page.more page.anchorId

def anchored (path : String) : Option String → String
  | some anchorId => path ++ "?AnchorID=" ++ anchorId
  | none => path

/-- The share by which each item was last said to be reached. -/
def shareIndex (items : List SharedWithMeItem) : NodeUid → Option ShareId :=
  items.foldl (fun shares item => Function.update shares item.uid (some item.shareId)) (fun _ => none)

section

variable {σ : Type}

/-- The items, and the share index that is left in the client's cache. -/
def pageSharedWithMe (get : String → Program σ ProtonError SharedWithMeResponse) (fuel : Nat) :
    Program σ ProtonError (List SharedWithMeItem × (NodeUid → Option ShareId)) := do
  let items ← collect (fun anchor => get (anchored "v2/sharedwithme" anchor)) driveItems
    SharedWithMeResponse.next fuel none []
  return (items, shareIndex items)

def pageSharedByMe (get : String → Program σ ProtonError SharedByMeResponse) (fuel : Nat)
    (volumeId : VolumeId) : Program σ ProtonError (List NodeUid) :=
  collect (fun anchor => get (anchored ("v2/volumes/" ++ toString volumeId ++ "/shares") anchor))
    (fun page => page.linkIds.map (fun linkId => ⟨volumeId, linkId⟩))
    SharedByMeResponse.next fuel none []

end

/-! ## What a listing is -/

/-- The pages of one listing, as a server gives them: each but the last says where the next one is. -/
structure Listing (κ P : Type) (next : P → Option κ) where
  before : List P
  last : P
  goesOn : ∀ p ∈ before, (next p).isSome
  ends : next last = none

namespace Listing

variable {κ P : Type} {next : P → Option κ}

def pages (l : Listing κ P next) : List P := l.before ++ [l.last]

/-- A server that gives this listing, and then answers as it likes. -/
def server (l : Listing κ P next) (later : List (Except ProtonError P)) :
    Script String ProtonError P :=
  ⟨l.pages.map .ok ++ later, []⟩

/-- The reader asks for each page of this listing, whatever the server would say after it, and
returns `result`. -/
def ReadAs {β : Type} (l : Listing κ P next) (result : β)
    (reader : Program (Script String ProtonError P) ProtonError β) : Prop :=
  ∀ later, ∃ requested, requested.length = l.pages.length ∧
    reader.run (l.server later) = some (⟨later, requested⟩, .ok result)

/-- A loop that follows the listing's own cursors reads all of it. -/
theorem readAs_collect {α : Type} (l : Listing κ P next) (path : Option κ → String)
    (items : P → List α) (extra : Nat) :
    l.ReadAs (l.pages.flatMap items)
      (collect (fun cursor => Script.get (path cursor)) items next (l.pages.length + extra) none
        []) := by
  intro later
  refine ⟨[] ++ path none :: l.before.map (fun p => path (next p)), ?_, ?_⟩
  · simp [pages]
  · exact Paging.collect_chain (Script.chain path later l.goesOn l.ends none []) extra []

end Listing

/-! ## Folder listings -/

theorem FolderChildrenResponse.next_eq_following {page : FolderChildrenResponse}
    (h : page.linkIds ≠ []) : page.next = page.following := by
  have hne : page.linkIds.isEmpty = false := by simpa using h
  unfold FolderChildrenResponse.next FolderChildrenResponse.following
  rw [hne]
  cases page.moreResultsExist <;> rfl

theorem FolderChildrenResponse.next_of_empty {page : FolderChildrenResponse}
    (h : page.linkIds = []) : page.next = none := by
  simp [FolderChildrenResponse.next, h]

/-- What a folder loop stops at ends the listing, or is empty. -/
theorem FolderChildrenResponse.next_of_following {page : FolderChildrenResponse}
    (h : page.following = none) : page.next = none := by
  by_cases hempty : page.linkIds = []
  · exact next_of_empty hempty
  · rw [next_eq_following hempty, h]

abbrev FolderListing := Listing LinkId FolderChildrenResponse FolderChildrenResponse.following

/-- The children on all pages of the listing. -/
def FolderListing.children (folderUid : NodeUid) (l : FolderListing) : List NodeUid :=
  l.pages.flatMap (fun page => page.linkIds.map (fun linkId => ⟨folderUid.volumeId, linkId⟩))

/-- Without an empty page before the last one, the loop reads the listing to its end. -/
theorem FolderListing.readAs (folderUid : NodeUid) (l : FolderListing)
    (h : ∀ page ∈ l.before, page.linkIds ≠ []) (extra : Nat) :
    l.ReadAs (l.children folderUid)
      (listFolderChildren Script.get (l.pages.length + extra) folderUid) := by
  have hbefore : ∀ page ∈ l.before, page.next.isSome := by
    intro page hpage
    rw [FolderChildrenResponse.next_eq_following (h page hpage)]
    exact l.goesOn page hpage
  intro later
  refine ⟨_, ?_, Paging.collect_chain (Script.chain (childrenPath folderUid) later hbefore
    (FolderChildrenResponse.next_of_following l.ends) none []) extra []⟩
  simp [Listing.pages]

/-- At the first empty page the loop stops, and leaves the answers after it unread. -/
theorem FolderListing.run_of_empty (folderUid : NodeUid) (l : FolderListing)
    {read rest : List FolderChildrenResponse} {page : FolderChildrenResponse}
    (hsplit : l.before = read ++ page :: rest) (hread : ∀ p ∈ read, p.linkIds ≠ [])
    (hpage : page.linkIds = []) (extra : Nat) (later) :
    ∃ requested, (listFolderChildren Script.get (l.pages.length + extra) folderUid).run
        (l.server later) =
      some (⟨(rest ++ [l.last]).map .ok ++ later, requested⟩,
        .ok ((read ++ [page]).flatMap
          (fun p => p.linkIds.map (fun linkId => ⟨folderUid.volumeId, linkId⟩)))) := by
  -- Pages with links carry their cursor on; the empty one ends the loop, with a cursor or without.
  have hbefore : ∀ p ∈ read, p.next.isSome := by
    intro p hp
    rw [FolderChildrenResponse.next_eq_following (hread p hp)]
    apply l.goesOn
    rw [hsplit]
    exact List.mem_append_left _ hp
  have hserver : l.server later =
      ⟨(read ++ [page]).map .ok ++ ((rest ++ [l.last]).map .ok ++ later), []⟩ := by
    simp [Listing.server, Listing.pages, hsplit]
  have hfuel : l.pages.length + extra =
      (read ++ [page]).length + (rest.length + 1 + extra) := by
    simp only [Listing.pages, hsplit, List.length_append, List.length_cons, List.length_nil]
    omega
  rw [hserver, hfuel]
  exact ⟨_, Paging.collect_chain (Script.chain (childrenPath folderUid) _ hbefore
    (FolderChildrenResponse.next_of_empty hpage) none []) _ []⟩

theorem FolderListing.readAs_iff (folderUid : NodeUid) (l : FolderListing) (extra : Nat) :
    l.ReadAs (l.children folderUid)
        (listFolderChildren Script.get (l.pages.length + extra) folderUid) ↔
      ∀ page ∈ l.before, page.linkIds ≠ [] := by
  constructor
  · intro hread
    apply Classical.byContradiction
    intro hex
    obtain ⟨page, hpage⟩ : ∃ page, l.before.find? (fun p => p.linkIds.isEmpty) = some page := by
      rw [← Option.isSome_iff_exists, List.find?_isSome]
      simpa using hex
    obtain ⟨hempty, read, rest, hsplit, hfirst⟩ := List.find?_eq_some_iff_append.mp hpage
    obtain ⟨requested, hrun⟩ := l.run_of_empty folderUid hsplit (by simpa using hfirst)
      (by simpa using hempty) extra []
    obtain ⟨requested', -, hall⟩ := hread []
    -- The last page of the listing has not been asked for.
    rw [hrun] at hall
    simp at hall
  · intro h
    exact l.readAs folderUid h extra

/-! ## What a folder loop reads -/

/-- The uids on the pages that a folder loop asks for. -/
def readPages (folderUid : NodeUid) : List FolderChildrenResponse → List NodeUid
  | [] => []
  | page :: pages =>
      page.linkIds.map (NodeUid.mk folderUid.volumeId) ++
        match page.next with
        | none => []
        | some _ => readPages folderUid pages

def FolderListing.read (folderUid : NodeUid) (l : FolderListing) : List NodeUid :=
  readPages folderUid l.pages

/-- There is a page without links that is not the last one, and a link on a page after it. -/
def FolderListing.CutShort (l : FolderListing) : Prop :=
  ∃ before page after, l.before = before ++ page :: after ∧ page.linkIds = [] ∧
    ∃ p ∈ after ++ [l.last], p.linkIds ≠ []

section

variable {folderUid : NodeUid}

theorem readPages_of_next_none {page : FolderChildrenResponse} (h : page.next = none)
    (pages : List FolderChildrenResponse) :
    readPages folderUid (page :: pages) = page.linkIds.map (NodeUid.mk folderUid.volumeId) := by
  rw [readPages, h]
  exact List.append_nil _

theorem readPages_of_next {page : FolderChildrenResponse} {anchor : LinkId}
    (h : page.next = some anchor) (pages : List FolderChildrenResponse) :
    readPages folderUid (page :: pages) =
      page.linkIds.map (NodeUid.mk folderUid.volumeId) ++ readPages folderUid pages := by
  rw [readPages, h]

theorem readPages_prefix_flatMap (pages : List FolderChildrenResponse) :
    readPages folderUid pages <+:
      pages.flatMap (fun page => page.linkIds.map (NodeUid.mk folderUid.volumeId)) := by
  induction pages with
  | nil => exact List.prefix_rfl
  | cons page pages ih =>
      rw [List.flatMap_cons]
      cases h : page.next with
      | none =>
          rw [readPages_of_next_none h]
          exact List.prefix_append _ _
      | some anchor =>
          rw [readPages_of_next h]
          exact (List.prefix_append_right_inj _).mpr ih

theorem FolderListing.read_prefix_children (l : FolderListing) :
    l.read folderUid <+: l.children folderUid :=
  readPages_prefix_flatMap l.pages

theorem readPages_eq_iff {before : List FolderChildrenResponse} {last : FolderChildrenResponse}
    (hgoesOn : ∀ page ∈ before, page.following.isSome) (hends : last.following = none) :
    readPages folderUid (before ++ [last]) = (before ++ [last]).flatMap
        (fun page => page.linkIds.map (NodeUid.mk folderUid.volumeId)) ↔
      ¬ ∃ read page after, before = read ++ page :: after ∧ page.linkIds = [] ∧
        ∃ p ∈ after ++ [last], p.linkIds ≠ [] := by
  induction before with
  | nil =>
      rw [List.nil_append, readPages_of_next_none (FolderChildrenResponse.next_of_following hends)]
      simp
  | cons first before ih =>
      by_cases hempty : first.linkIds = []
      · -- Nothing is read after an empty page.
        rw [List.cons_append,
          readPages_of_next_none (FolderChildrenResponse.next_of_empty hempty), List.flatMap_cons,
          hempty, List.map_nil, List.nil_append, eq_comm, List.flatMap_eq_nil_iff]
        constructor
        · rintro hnone ⟨read, page, after, hsplit, -, p, hp, hne⟩
          apply hne
          apply List.map_eq_nil_iff.mp (hnone p _)
          cases read with
          | nil =>
              cases hsplit
              exact hp
          | cons _ read =>
              obtain ⟨-, rfl⟩ := List.cons_eq_cons.mp hsplit
              show p ∈ (read ++ page :: after) ++ [last]
              rw [List.append_assoc]
              exact List.mem_append_right _ (List.mem_cons_of_mem _ hp)
        · intro hcut p hp
          apply List.map_eq_nil_iff.mpr
          apply Classical.byContradiction
          intro hne
          exact hcut ⟨[], first, before, rfl, hempty, p, hp, hne⟩
      · -- The loop goes on to the next page.
        obtain ⟨anchor, hanchor⟩ := Option.isSome_iff_exists.mp (hgoesOn first List.mem_cons_self)
        rw [← FolderChildrenResponse.next_eq_following hempty] at hanchor
        rw [List.cons_append, readPages_of_next hanchor, List.flatMap_cons,
          List.append_cancel_left_eq,
          ih (fun page hpage => hgoesOn page (List.mem_cons_of_mem _ hpage))]
        apply not_congr
        constructor
        · rintro ⟨read, page, after, rfl, hrest⟩
          exact ⟨first :: read, page, after, rfl, hrest⟩
        · rintro ⟨read, page, after, hsplit, hpage, hrest⟩
          cases read with
          | nil =>
              cases hsplit
              exact absurd hpage hempty
          | cons _ read =>
              obtain ⟨-, rfl⟩ := List.cons_eq_cons.mp hsplit
              exact ⟨read, page, after, rfl, hpage, hrest⟩

variable (folderUid) in
/-- A listing is read to its end exactly if it is not cut short. -/
theorem FolderListing.read_eq_children_iff (l : FolderListing) :
    l.read folderUid = l.children folderUid ↔ ¬ l.CutShort :=
  readPages_eq_iff l.goesOn l.ends

/-- After a page that is not the last there is the last one. -/
theorem exists_last_of_next {page : FolderChildrenResponse} {pages : List FolderChildrenResponse}
    {anchor : LinkId} (hends : ∃ p ∈ page :: pages, p.next = none)
    (hnext : page.next = some anchor) : ∃ p ∈ pages, p.next = none := by
  obtain ⟨other, hmem, hother⟩ := hends
  rcases List.mem_cons.mp hmem with rfl | hmem
  · rw [hnext] at hother
    cases hother
  · exact ⟨other, hmem, hother⟩

theorem collect_readPages {pages : List FolderChildrenResponse}
    (hends : ∃ page ∈ pages, page.next = none)
    (later : List (Except ProtonError FolderChildrenResponse)) (extra : Nat)
    (cursor : Option LinkId) (requested : List String) (found : List NodeUid) :
    ∃ t, (collect (fun anchor => Script.get (childrenPath folderUid anchor))
        (fun page => page.linkIds.map (NodeUid.mk folderUid.volumeId))
        FolderChildrenResponse.next (pages.length + extra) cursor found).run
          ⟨pages.map .ok ++ later, requested⟩ =
      some (t, .ok (found ++ readPages folderUid pages)) := by
  induction pages generalizing cursor requested found with
  | nil =>
      obtain ⟨page, hpage, -⟩ := hends
      cases hpage
  | cons page pages ih =>
      have hfuel : (page :: pages).length + extra = pages.length + extra + 1 := by
        rw [List.length_cons, Nat.add_right_comm]
      have hget : (Script.get (childrenPath folderUid cursor)).run
          (⟨(page :: pages).map .ok ++ later, requested⟩ :
            Script String ProtonError FolderChildrenResponse) =
          some (⟨pages.map .ok ++ later, requested ++ [childrenPath folderUid cursor]⟩,
            .ok page) := rfl
      rw [hfuel]
      -- A page without a cursor is the last one that is read.
      cases hnext : page.next with
      | none =>
          rw [readPages_of_next_none hnext]
          exact ⟨_, Paging.collect_last hget hnext⟩
      | some anchor =>
          have hrest := exists_last_of_next hends hnext
          rw [Paging.collect_more hget hnext, readPages_of_next hnext, ← List.append_assoc]
          exact ih hrest (some anchor) _ _

theorem FolderListing.exists_next_eq_none (l : FolderListing) :
    ∃ page ∈ l.pages, page.next = none :=
  ⟨l.last, List.mem_append_right _ List.mem_cons_self,
    FolderChildrenResponse.next_of_following l.ends⟩

/-- A folder loop returns what is read of the listing, whatever the server would say after it. -/
theorem FolderListing.run_read (l : FolderListing) (folderUid : NodeUid) (extra : Nat)
    (later : List (Except ProtonError FolderChildrenResponse)) :
    ∃ t, (listFolderChildren Script.get (l.pages.length + extra) folderUid).run (l.server later) =
      some (t, .ok (l.read folderUid)) :=
  collect_readPages l.exists_next_eq_none later extra none [] []

end

/-! ## The four loops -/

/-- The folder loops read a listing to its end exactly if no page before the last one is empty; the
loops over shared items read every listing to its end. -/
theorem listings_read_to_end (folderUid : NodeUid) (l : FolderListing)
    (withMe : Listing String SharedWithMeResponse SharedWithMeResponse.next) (volumeId : VolumeId)
    (byMe : Listing String SharedByMeResponse SharedByMeResponse.next) (extra : Nat) :
    (l.ReadAs (l.children folderUid)
          (enumerateFolderChildrenNodeUids Script.get (l.pages.length + extra) folderUid) ∧
        l.ReadAs (l.children folderUid)
          (PublicLink.enumerateFolderChildrenNodeUids Script.get (l.pages.length + extra)
            folderUid) ↔
      ∀ page ∈ l.before, page.linkIds ≠ []) ∧
    withMe.ReadAs (withMe.pages.flatMap driveItems, shareIndex (withMe.pages.flatMap driveItems))
      (pageSharedWithMe Script.get (withMe.pages.length + extra)) ∧
    byMe.ReadAs
      (byMe.pages.flatMap (fun page => page.linkIds.map (fun linkId => ⟨volumeId, linkId⟩)))
      (pageSharedByMe Script.get (byMe.pages.length + extra) volumeId) := by
  refine ⟨?_, ?_, byMe.readAs_collect _ _ extra⟩
  · have hiff := l.readAs_iff folderUid extra
    unfold enumerateFolderChildrenNodeUids PublicLink.enumerateFolderChildrenNodeUids
    -- The two loops over folders are the same code.
    rw [and_self]
    exact hiff
  · intro later
    obtain ⟨requested, hlength, hrun⟩ := withMe.readAs_collect (anchored "v2/sharedwithme")
      driveItems extra later
    refine ⟨requested, hlength, ?_⟩
    unfold pageSharedWithMe
    rw [Program.bind_ok hrun]
    rfl

/-- A page on which the server had nothing to show, and one more with the folder's only child. -/
def emptyPageFirst : FolderListing where
  before := [⟨[], some 7, true⟩]
  last := ⟨[8], none, false⟩
  goesOn := by decide
  ends := rfl

/-- Both clients stop at the empty page, and do not list the child. -/
theorem emptyPageFirst_not_read :
    emptyPageFirst.children ⟨1, 2⟩ = [⟨1, 8⟩] ∧
    (∀ later, (enumerateFolderChildrenNodeUids Script.get 2 ⟨1, 2⟩).run
        (emptyPageFirst.server later) =
      some (⟨.ok ⟨[8], none, false⟩ :: later, ["v2/volumes/1/folders/2/children"]⟩, .ok [])) ∧
    ¬ emptyPageFirst.ReadAs (emptyPageFirst.children ⟨1, 2⟩)
      (enumerateFolderChildrenNodeUids Script.get 2 ⟨1, 2⟩) ∧
    ¬ emptyPageFirst.ReadAs (emptyPageFirst.children ⟨1, 2⟩)
      (PublicLink.enumerateFolderChildrenNodeUids Script.get 2 ⟨1, 2⟩) := by
  have hnot : ¬ emptyPageFirst.ReadAs (emptyPageFirst.children ⟨1, 2⟩)
      (listFolderChildren Script.get 2 ⟨1, 2⟩) := by
    intro h
    exact (emptyPageFirst.readAs_iff ⟨1, 2⟩ 0).mp h ⟨[], some 7, true⟩ (by decide) rfl
  exact ⟨rfl, fun later => rfl, hnot, hnot⟩

end ProtonDrive
