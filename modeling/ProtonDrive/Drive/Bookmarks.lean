import Mathlib.Data.List.DropRight
import Mathlib.Data.String.Basic
import ProtonDrive.Sdk.OpenPgp

/-!
# Bookmarks of public links

`create_bookmark` keeps the secret of a link: the fragment of its URL and the custom password, one
after the other. `list_bookmarks` takes the secret apart again after twelve characters, and makes a
URL with the first part as its fragment.

* `parse_bookmarkUrl` — the URL of a bookmark is taken apart into what it was made of.
* `bookmark_opens` — a bookmark opens the link that it was made from.
-/

namespace ProtonDrive.Bookmarks

open OpenPgp

/-- The characters of a string. -/
abbrev Text := List Char

/-! ## Public link URLs -/

/-- `split_once`. -/
def splitOnce (c : Char) (s : Text) : Option (Text × Text) :=
  if c ∈ s then some (s.takeWhile (fun x => x != c), (s.dropWhile (fun x => x != c)).drop 1) else none

/-- `rsplit_once`, at the last place where a pattern that is not empty is found. -/
def rsplitOnce (pattern : Text) : Text → Option (Text × Text)
  | [] => none
  | c :: s =>
      match rsplitOnce pattern s with
      | some (before, after) => some (c :: before, after)
      | none =>
          if pattern.isPrefixOf (c :: s) then some ([], (c :: s).drop pattern.length) else none

def container : Text := ['/', 'u', 'r', 'l', 's', '/']

def invalidUrl : ProtonError := .invalidOperation "invalid public link url"

def parsePublicLinkUrl (url : Text) : Except ProtonError (Text × Text) :=
  match splitOnce '#' url with
  | none => .error invalidUrl
  | some (beforeHash, password) =>
      match rsplitOnce container beforeHash with
      | none => .error invalidUrl
      | some (_, afterContainer) =>
          let token := afterContainer.rdropWhile (fun c => c == '/')
          if token.isEmpty || token.contains '/' || password.isEmpty then .error invalidUrl
          else .ok (token, password)

def publicLinkPasswordLen : Nat := 12

/-- The generated part of a secret and the custom password after it, if there is one. -/
def splitLinkPassword (password : Text) : Text × Option Text :=
  let custom := password.drop publicLinkPasswordLen
  (password.take publicLinkPasswordLen, if custom.isEmpty then none else some custom)

/-- The token and the password with which `open` authenticates. -/
def openCredentials (url : Text) (customPassword : Option Text) : Except ProtonError (Text × Text) := do
  let (token, urlPassword) ← parsePublicLinkUrl url
  return (token, match customPassword with
    | some custom => if !custom.isEmpty then urlPassword ++ custom else urlPassword
    | none => urlPassword)

/-! ## Bookmarks -/

/-- Of the token of a bookmark, `data` is what its name is read from. -/
structure BookmarkTokenDto where
  token : Text
  linkType : Int
  data : Bytes
  deriving DecidableEq, Repr

structure BookmarkDto where
  token : BookmarkTokenDto
  createTime : Int
  encryptedUrlPassword : Option Message
  deriving DecidableEq, Repr

structure CreateBookmarkRequest where
  encryptedUrlPassword : Message
  addressId : String
  addressKeyId : String
  deriving DecidableEq, Repr

structure Bookmark where
  token : Text
  url : Text
  customPassword : Option Text
  nodeName : Option Text
  isFolder : Bool
  creationTime : Int
  deriving DecidableEq, Repr

/-- The user's own address: its keys, and which of them is the primary one. -/
structure OwnAddress where
  id : String
  keys : List Key
  primaryKeyIndex : Nat
  primaryKeyId : String

def noPrimaryKey : ProtonError := .invalidOperation "address has no primary key"

def ownAddressKeys (address : OwnAddress) : Except ProtonError (List Key × Key) :=
  match address.keys[address.primaryKeyIndex]? with
  | some signingKey => .ok (address.keys, signingKey)
  | none => .error noPrimaryKey

def asBytes (s : Text) : Bytes := (String.ofList s).toByteArray.data.toList

/-- What is not valid UTF-8 becomes a replacement of some kind. -/
def fromUtf8Lossy (replaced : Bytes → Text) (bytes : Bytes) : Text :=
  match String.fromUTF8? ⟨bytes.toArray⟩ with
  | some s => s.toList
  | none => replaced bytes

/-- The request, and the token in its path. -/
def createBookmark (address : OwnAddress) (session : Session) (url : Text)
    (customPassword : Option Text) : Except ProtonError (Text × CreateBookmarkRequest) := do
  let (token, urlPassword) ← parsePublicLinkUrl url
  let (_, addressKey) ← ownAddressKeys address
  let concatenated := urlPassword ++ customPassword.getD []
  return (token,
    { encryptedUrlPassword := encryptAndSign addressKey addressKey session (asBytes concatenated)
      addressId := address.id
      addressKeyId := address.primaryKeyId })

def bookmarkUrl (token urlPassword : Text) : Text :=
  "https://drive.proton.me/urls/".toList ++ (token ++ '#' :: urlPassword)

section

variable (replaced : Bytes → Text) (bookmarkName : Text → BookmarkTokenDto → Option Text)

/-- One round of the loop of `list_bookmarks`. -/
def bookmarkOf (keys : List Key) (dto : BookmarkDto) : Option Bookmark := do
  let message ← dto.encryptedUrlPassword
  let bytes ← (decryptArmoredWithKeys message keys).toOption
  let password := fromUtf8Lossy replaced bytes
  let (urlPassword, customPassword) := splitLinkPassword password
  return {
    token := dto.token.token
    url := bookmarkUrl dto.token.token urlPassword
    customPassword := customPassword
    nodeName := bookmarkName password dto.token
    isFolder := dto.token.linkType == 1
    creationTime := dto.createTime }

/-- `bookmarkName` reads the name of the item with the password. -/
def listBookmarks (address : OwnAddress) (response : List BookmarkDto) :
    Except ProtonError (List Bookmark) := do
  let (keys, _) ← ownAddressKeys address
  return response.filterMap (bookmarkOf replaced bookmarkName keys)

end

/-! ## Taking URLs apart -/

theorem splitOnce_append {c : Char} {before after : Text} (h : c ∉ before) :
    splitOnce c (before ++ c :: after) = some (before, after) := by
  have hne : ∀ x ∈ before, (x != c) = true := by
    intro x hx
    simp only [bne_iff_ne]
    rintro rfl
    exact h hx
  unfold splitOnce
  rw [if_pos (List.mem_append_right before List.mem_cons_self),
    List.takeWhile_append_of_pos hne, List.dropWhile_append_of_pos hne]
  simp

/-- What a text is split at is not in the first part. -/
theorem not_mem_of_splitOnce {c : Char} {s before after : Text}
    (h : splitOnce c s = some (before, after)) : c ∉ before := by
  unfold splitOnce at h
  split at h
  · cases h
    intro hmem
    simpa using List.mem_takeWhile_imp hmem
  · cases h

theorem rsplitOnce_cons {c : Char} {s : Text} (hc : c ≠ '/') (h : rsplitOnce container s = none) :
    rsplitOnce container (c :: s) = none := by
  unfold rsplitOnce
  rw [h]
  simp [container, Ne.symm hc]

/-- Without a slash there is no container. -/
theorem rsplitOnce_none {s : Text} (h : '/' ∉ s) : rsplitOnce container s = none := by
  induction s with
  | nil => rfl
  | cons c s ih =>
      have hc : c ≠ '/' := fun hc => h (by rw [hc]; exact List.mem_cons_self)
      exact rsplitOnce_cons hc (ih (fun hs => h (List.mem_cons_of_mem c hs)))

/-- A slash alone is not one either. -/
theorem rsplitOnce_slash {s : Text} (h : '/' ∉ s) : rsplitOnce container ('/' :: s) = none := by
  have hnot : container.isPrefixOf ('/' :: s) = false := by
    apply Bool.eq_false_iff.mpr
    intro htrue
    have htail := (List.cons_prefix_cons.mp (List.isPrefixOf_iff_prefix.mp htrue)).2
    exact h (htail.subset (by decide))
  unfold rsplitOnce
  rw [rsplitOnce_none h, hnot]
  rfl

theorem rsplitOnce_append {pattern s before after : Text}
    (h : rsplitOnce pattern s = some (before, after)) (start : Text) :
    rsplitOnce pattern (start ++ s) = some (start ++ before, after) := by
  induction start with
  | nil => exact h
  | cons c start ih =>
      rw [List.cons_append, rsplitOnce, ih]
      rfl

/-- The last container is the one before a token. -/
theorem rsplitOnce_container {token : Text} (h : '/' ∉ token) (start : Text) :
    rsplitOnce container (start ++ (container ++ token)) = some (start, token) := by
  have hinside : rsplitOnce container ('u' :: 'r' :: 'l' :: 's' :: '/' :: token) = none := by
    apply rsplitOnce_cons (by decide)
    apply rsplitOnce_cons (by decide)
    apply rsplitOnce_cons (by decide)
    apply rsplitOnce_cons (by decide)
    exact rsplitOnce_slash h
  have hend : rsplitOnce container (container ++ token) = some ([], token) := by
    show rsplitOnce container ('/' :: 'u' :: 'r' :: 'l' :: 's' :: '/' :: token) = _
    rw [rsplitOnce, hinside]
    simp [container]
  have hall := rsplitOnce_append hend start
  rwa [List.append_nil] at hall

/-- What is after the last container was there before. -/
theorem suffix_of_rsplitOnce {pattern s before after : Text}
    (h : rsplitOnce pattern s = some (before, after)) : after <:+ s := by
  induction s generalizing before with
  | nil => cases h
  | cons c s ih =>
      unfold rsplitOnce at h
      split at h
      · next before' after' hs =>
        cases h
        exact (ih hs).trans (List.suffix_cons c s)
      · split at h
        · cases h
          exact List.drop_suffix _ _
        · cases h

/-- What a URL is accepted with. -/
theorem parsePublicLinkUrl_eq_ok {url token password : Text}
    (h : parsePublicLinkUrl url = .ok (token, password)) :
    token ≠ [] ∧ '/' ∉ token ∧ '#' ∉ token ∧ password ≠ [] := by
  unfold parsePublicLinkUrl at h
  split at h
  · cases h
  · next beforeHash password' hsplit =>
    split at h
    · cases h
    · next start afterContainer hcontainer =>
      dsimp only at h
      split at h
      · cases h
      · next hok =>
        cases h
        simp only [Bool.or_eq_true, List.isEmpty_iff, List.contains_iff_mem, not_or] at hok
        obtain ⟨⟨htoken, hslash⟩, hpassword⟩ := hok
        refine ⟨htoken, hslash, ?_, hpassword⟩
        -- The token comes from the part in front of the first `#`.
        intro hmem
        apply not_mem_of_splitOnce hsplit
        apply (suffix_of_rsplitOnce hcontainer).subset
        exact (List.rdropWhile_prefix _ _).subset hmem

/-- The URL of a bookmark is taken apart into what it was made of. -/
theorem parse_bookmarkUrl {token password : Text} (htoken : token ≠ []) (hslash : '/' ∉ token)
    (hhash : '#' ∉ token) (hpassword : password ≠ []) :
    parsePublicLinkUrl (bookmarkUrl token password) = .ok (token, password) := by
  have hstart : "https://drive.proton.me/urls/".toList
      = "https://drive.proton.me".toList ++ container := by rfl
  have hurl : bookmarkUrl token password
      = ("https://drive.proton.me".toList ++ (container ++ token)) ++ '#' :: password := by
    unfold bookmarkUrl
    rw [hstart]
    simp only [List.append_assoc]
  -- The first `#` is the one in front of the password.
  have hbefore : '#' ∉ "https://drive.proton.me".toList ++ (container ++ token) := by
    rw [List.mem_append, List.mem_append]
    rintro (h | h | h)
    · simp at h
    · simp [container] at h
    · exact hhash h
  -- The token has no slash at its end, so trimming leaves it.
  have htrim : token.rdropWhile (fun c => c == '/') = token := by
    rw [List.rdropWhile_eq_self_iff]
    intro hl hlast
    apply hslash
    rw [beq_iff_eq] at hlast
    rw [← hlast]
    exact List.getLast_mem hl
  unfold parsePublicLinkUrl
  rw [hurl, splitOnce_append hbefore]
  dsimp only
  rw [rsplitOnce_container hslash]
  dsimp only
  rw [htrim, if_neg]
  simp [htoken, hslash, hpassword]

/-! ## Secrets -/

theorem fromUtf8Lossy_asBytes (replaced : Bytes → Text) (s : Text) :
    fromUtf8Lossy replaced (asBytes s) = s := by
  unfold fromUtf8Lossy asBytes String.fromUTF8?
  rw [Array.toArray_toList, dif_pos (String.ofList s).isValidUTF8]
  exact String.toList_ofList

/-- The two parts of a secret, put together again, are the secret. -/
theorem splitLinkPassword_append (password : Text) :
    (splitLinkPassword password).1 ++ (splitLinkPassword password).2.getD [] = password := by
  unfold splitLinkPassword
  dsimp only
  split
  · next hcustom =>
    rw [List.isEmpty_iff] at hcustom
    rw [Option.getD_none, ← hcustom, List.take_append_drop]
  · exact List.take_append_drop _ _

/-- A custom password that is reported is not empty. -/
theorem splitLinkPassword_ne (password : Text) : (splitLinkPassword password).2 ≠ some [] := by
  unfold splitLinkPassword
  dsimp only
  split
  · nofun
  · next hcustom =>
    intro h
    apply hcustom
    rw [Option.some.inj h]
    rfl

/-- Without an empty one, a custom password and none are told apart. -/
def nonEmpty (custom : Option Text) : Option Text := custom.filter (fun c => !c.isEmpty)

/-- A secret whose first part has the usual length is split where it was put together. -/
theorem splitLinkPassword_of_length {password : Text} (custom : Option Text)
    (h : password.length = publicLinkPasswordLen) :
    splitLinkPassword (password ++ custom.getD []) = (password, nonEmpty custom) := by
  unfold splitLinkPassword
  rw [List.take_left' h, List.drop_left' h]
  cases custom with
  | none => rfl
  | some custom => cases custom <;> rfl

/-- The password that `open` derives is the two parts, one after the other. -/
theorem openCredentials_of_parse {url token password : Text}
    (h : parsePublicLinkUrl url = .ok (token, password)) (custom : Option Text) :
    openCredentials url custom = .ok (token, password ++ custom.getD []) := by
  unfold openCredentials
  rw [h]
  cases custom with
  | none => simp [bind, Except.bind, pure, Except.pure]
  | some custom => cases custom <;> simp [bind, Except.bind, pure, Except.pure]

/-! ## Saved links -/

/-- What `create_bookmark` sends. -/
theorem createBookmark_eq_ok {address : OwnAddress} {session : Session}
    {url token urlPassword : Text} {custom : Option Text} {path : Text}
    {request : CreateBookmarkRequest}
    (hurl : parsePublicLinkUrl url = .ok (token, urlPassword))
    (h : createBookmark address session url custom = .ok (path, request)) :
    path = token ∧ ∃ key ∈ address.keys, request.encryptedUrlPassword
      = encryptAndSign key key session (asBytes (urlPassword ++ custom.getD [])) := by
  unfold createBookmark at h
  obtain ⟨parts, hparts, hrest⟩ := Except.bind_eq_ok.mp h
  rw [hurl] at hparts
  cases hparts
  obtain ⟨⟨keys, key⟩, hkeys, hdone⟩ := Except.bind_eq_ok.mp hrest
  cases hdone
  refine ⟨rfl, key, ?_, rfl⟩
  unfold ownAddressKeys at hkeys
  split at hkeys
  · -- The key that signs is the primary one, among the address's own.
    next hprimary =>
    cases hkeys
    exact List.mem_of_getElem? hprimary
  · cases hkeys

variable {replaced : Bytes → Text} {bookmarkName : Text → BookmarkTokenDto → Option Text}

variable (replaced bookmarkName) in
/-- What is reported for a secret that can be read. -/
theorem bookmarkOf_eq {keys : List Key} {dto : BookmarkDto} {message : Message} {password : Text}
    (hsecret : dto.encryptedUrlPassword = some message)
    (hread : decryptArmoredWithKeys message keys = .ok (asBytes password)) :
    ∃ b, bookmarkOf replaced bookmarkName keys dto = some b ∧ b.token = dto.token.token ∧
      b.url = bookmarkUrl dto.token.token (splitLinkPassword password).1 ∧
      b.customPassword = (splitLinkPassword password).2 := by
  unfold bookmarkOf
  rw [hsecret, Option.bind_eq_bind, Option.bind_some, Except.toOption_eq_some.mpr hread,
    Option.bind_eq_bind, Option.bind_some, fromUtf8Lossy_asBytes]
  exact ⟨_, rfl, rfl, rfl, rfl⟩

/-- A bookmark opens the link that it was made from. Its URL and its custom password are those of
the link when the fragment has the usual length. -/
theorem bookmark_opens {address later : OwnAddress} {session : Session}
    {url token urlPassword path : Text} {custom : Option Text} {request : CreateBookmarkRequest}
    {response : List BookmarkDto} {dto : BookmarkDto} {signingKey : Key}
    (hurl : parsePublicLinkUrl url = .ok (token, urlPassword))
    (hcreate : createBookmark address session url custom = .ok (path, request))
    (hkeys : address.keys ⊆ later.keys)
    (hlater : ownAddressKeys later = .ok (later.keys, signingKey))
    (hdto : dto ∈ response) (htoken : dto.token.token = path)
    (hsecret : dto.encryptedUrlPassword = some request.encryptedUrlPassword) :
    ∃ bookmarks b p', listBookmarks replaced bookmarkName later response = .ok bookmarks ∧
      bookmarkOf replaced bookmarkName later.keys dto = some b ∧ b ∈ bookmarks ∧
      parsePublicLinkUrl b.url = .ok (token, p') ∧
      openCredentials b.url b.customPassword = openCredentials url custom ∧
      (urlPassword.length = publicLinkPasswordLen →
        p' = urlPassword ∧ b.customPassword = nonEmpty custom) := by
  obtain ⟨hpath, key, hkey, hrequest⟩ := createBookmark_eq_ok hurl hcreate
  obtain ⟨htok, hslash, hhash, hpassword⟩ := parsePublicLinkUrl_eq_ok hurl
  -- The key that sealed the password is still among the later keys.
  have hread := decryptArmoredWithKeys_of_mem (hkeys hkey)
    (decrypt_encryptAndSign key key session (asBytes (urlPassword ++ custom.getD [])))
  rw [← hrequest] at hread
  obtain ⟨b, hb, hbtoken, hburl, hbcustom⟩ := bookmarkOf_eq replaced bookmarkName hsecret hread
  -- A URL password is not empty, so its first characters are not either.
  have hfirst : (splitLinkPassword (urlPassword ++ custom.getD [])).1 ≠ [] := by
    show (urlPassword ++ custom.getD []).take publicLinkPasswordLen ≠ []
    simp [publicLinkPasswordLen, hpassword]
  rw [htoken, hpath] at hburl
  have hparse := parse_bookmarkUrl htok hslash hhash hfirst
  rw [← hburl] at hparse
  refine ⟨response.filterMap (bookmarkOf replaced bookmarkName later.keys), b, _, ?_, hb,
    List.mem_filterMap.mpr ⟨dto, hdto, hb⟩, hparse, ?_, ?_⟩
  · unfold listBookmarks
    rw [hlater]
    rfl
  · rw [openCredentials_of_parse hparse, openCredentials_of_parse hurl, hbcustom,
      splitLinkPassword_append]
  · intro hlength
    rw [hbcustom, splitLinkPassword_of_length custom hlength]
    exact ⟨rfl, rfl⟩

/-- An address with one key. -/
def oneKey : OwnAddress := ⟨"a", [1], 0, "k"⟩

def secretOf (text : Text) : Message := encryptAndSign 1 1 5 (asBytes text)

def saved (text : Text) : BookmarkDto := ⟨⟨['T'], 1, []⟩, 0, some (secretOf text)⟩

def twelve : Text := ['a', 'b', 'c', 'd', 'e', 'f', 'g', 'h', 'i', 'j', 'k', 'l']

theorem parse_twelve : parsePublicLinkUrl (bookmarkUrl ['T'] twelve) = .ok (['T'], twelve) := by
  apply parse_bookmarkUrl <;> decide

theorem create_twelve (custom : Text) :
    createBookmark oneKey 5 (bookmarkUrl ['T'] twelve) (some custom)
      = .ok (['T'], ⟨secretOf (twelve ++ custom), "a", "k"⟩) := by
  unfold createBookmark
  rw [parse_twelve]
  rfl

theorem bookmark_opens_twelve :
    ∃ bookmarks b p', listBookmarks (fun _ => []) (fun _ _ => none) oneKey
        [saved (twelve ++ ['#', '/'])] = .ok bookmarks ∧
      bookmarkOf (fun _ => []) (fun _ _ => none) [1] (saved (twelve ++ ['#', '/'])) = some b ∧
      b ∈ bookmarks ∧ parsePublicLinkUrl b.url = .ok (['T'], p') ∧
      openCredentials b.url b.customPassword
        = openCredentials (bookmarkUrl ['T'] twelve) (some ['#', '/']) ∧
      (twelve.length = publicLinkPasswordLen →
        p' = twelve ∧ b.customPassword = nonEmpty (some ['#', '/'])) := by
  have hlater : ownAddressKeys oneKey = .ok (oneKey.keys, 1) := rfl
  exact bookmark_opens parse_twelve (create_twelve ['#', '/']) (fun _ h => h) hlater
    List.mem_cons_self rfl rfl

/-- An empty custom password is reported as none. -/
theorem empty_becomes_none :
    parsePublicLinkUrl (bookmarkUrl ['T'] twelve) = .ok (['T'], twelve) ∧
    twelve.length = publicLinkPasswordLen ∧
    createBookmark oneKey 5 (bookmarkUrl ['T'] twelve) (some [])
      = .ok (['T'], ⟨secretOf (twelve ++ []), "a", "k"⟩) ∧
    ∃ b, listBookmarks (fun _ => []) (fun _ _ => none) oneKey [saved (twelve ++ [])] = .ok [b] ∧
      b.customPassword ≠ some [] := by
  refine ⟨parse_twelve, rfl, create_twelve [], ?_⟩
  have hread := decryptArmoredWithKeys_of_mem (List.mem_singleton_self 1)
    (decrypt_encryptAndSign 1 1 5 (asBytes (twelve ++ [])))
  obtain ⟨b, hb, -, -, hcustom⟩ := bookmarkOf_eq (fun _ => []) (fun _ _ => none)
    (show (saved (twelve ++ [])).encryptedUrlPassword = some _ from rfl) hread
  refine ⟨b, ?_, ?_⟩
  · show Except.ok ([saved (twelve ++ [])].filterMap _) = _
    rw [List.filterMap_cons, show bookmarkOf _ _ oneKey.keys _ = some b from hb]
    rfl
  · rw [hcustom]
    exact splitLinkPassword_ne _

end ProtonDrive.Bookmarks
