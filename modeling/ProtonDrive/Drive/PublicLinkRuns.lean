import ProtonDrive.Lib.Base64
import ProtonDrive.Drive.PublicLinkCalls

/-!
# Runs of public links

* `perform_spec` — what each call does to the list of links.
* `Opens` — what every visitor of a link can do.
* `owner_simulates` — a run of calls is a run on the list, and every link on it opens.
-/

namespace ProtonDrive

namespace Recipients.PublicLinks

open OpenPgp (Bytes)
open Bookmarks (Text asBytes openCredentials)
open Program (ofExcept Triple Accounts)
open Online (At)

section

variable {o : Owned} {p : Srp.Primitives} {crash : String} {replaced : Bytes → Text} {s : Server}
  {l : Link} {links : List Link}

/-- What each call does to the list. -/
theorem perform_spec (h : Follows o p crash s links) (step : Step) :
    Triple (At step.fates s) (perform o p crash replaced step.draws step.choices step.call)
      (fun r => Accounts book (Follows o p crash) step.fates links
        (Explains o p crash links step (.ok r)))
      (Accounts book (Follows o p crash) step.fates links
        (fun events => ∀ e, Explains o p crash links step (.error e) events)) := by
  obtain ⟨call, draws, choices, fates⟩ := step
  cases call with
  | create role custom expirationTime now =>
      exact .bind (createPublicLink_spec h _ role custom expirationTime now rfl) (fun t ht => ht)
        (fun link => .pure fun t ht => ht)
  | update role custom expirationTime =>
      exact .bind (updatePublicLink_spec h _ rfl) (fun t ht => ht) (fun link => .pure fun t ht => ht)
  | get =>
      apply (getPublicLink_spec h).weaken (fun t ht => ht)
      · rintro r t ⟨hr, ht⟩
        refine .nothing h (.shown rfl ?_) ht
        -- The first link is shown, without its secret if a request was disturbed.
        rcases hr with rfl | ⟨hdisturbed, rfl⟩
        · exact .inl rfl
        · exact .inr ⟨hdisturbed, rfl⟩
      · rintro t ⟨hdisturbed, ht⟩
        exact .nothing h (fun e => .failed rfl (.inl hdisturbed)) ht
  | remove link =>
      exact .bind (removePublicLink_spec h _ link rfl) (fun t ht => ht)
        (fun _ => .pure fun t ht => ht)

/-! ## Runs -/

/-- Every visitor who has the URL and the custom password, and whose random values the handshake
accepts, gets the share key of the node and the role of the link. -/
def Opens (o : Owned) (p : Srp.Primitives) (crash : String) (s : Server) (l : Link) : Prop :=
  ∃ share u token, s.share = some (l.shareId, share) ∧ u ∈ s.urls ∧ u.id = l.id ∧
    openCredentials l.url l.custom = .ok (token, l.password) ∧
    ∀ (v : Visit) signedModulus salt draws proofs,
      o.moduli u.settings.srpModulusId = some signedModulus →
      v.Honest p signedModulus u.settings → p.base64Decode u.settings.urlPasswordSalt = .ok salt →
      Srp.generateProofs p v.version (asBytes l.password) salt signedModulus v.ephemeral 2048 draws =
        some (.ok proofs) →
      (auth p crash (pure (serveInfo p v signedModulus u.settings))
        (fun post => ofExcept (serveAuth p v signedModulus u.settings o.uid share post))
        draws l.password).run s =
          some (s, .ok ⟨v.uid, v.accessToken, share.shareKey.key, o.uid, l.role⟩)

theorem Follows.opens (hbase64 : ∀ bytes, p.base64Decode (p.base64Encode bytes) = .ok bytes)
    (h : Follows o p crash s links) (hl : l ∈ links) : Opens o p crash s l := by
  cases hshare : s.share with
  | none =>
      obtain ⟨-, rfl⟩ := h.unshared hshare
      cases hl
  | some made =>
      obtain ⟨shareId, share⟩ := made
      obtain ⟨session, hright, hshows⟩ := h.shared _ _ hshare
      obtain ⟨u, hmem, hu⟩ := hshows.exists_right hl
      -- The generated password has its length, so the URL has a secret.
      have hsecret : l.secret ≠ [] := by
        intro hnil
        have hlength := l.length_secret
        rw [hnil] at hlength
        cases hlength
      obtain ⟨token, htoken⟩ := openCredentials_linkUrl l.validUrl hsecret l.custom
      refine ⟨share, u, token, hu.shareId_eq ▸ hshare, hmem, hu.id_eq, htoken, ?_⟩
      intro v signedModulus salt draws proofs hmoduli hhonest hsalt hproofs
      rw [auth_opens hbase64 hu.isSealed hright hmoduli hhonest hsalt hproofs,
        MemberRole.fromPermissions_toPermissions hu.permissions_eq]

end

/-! ## A link -/

def sampleKey : PrivateKey := ⟨⟨1, true⟩, []⟩

def sampleOwned : Owned where
  uid := ⟨1, 2⟩
  link := ⟨2, [.pkeskV3 1 aes256 [8]], [.pkeskV3 1 aes256 [9]]⟩
  parentKey := sampleKey
  nodeKey := sampleKey
  address := ("address", "me@example.test", sampleKey)
  ownKeys := [sampleKey]
  moduli _ := some "modulus"
  link_id := rfl
  mem_ownKeys := List.mem_cons_self

def sampleDraws : Draws where
  shareKey := ⟨sampleKey, [3]⟩
  shareSession := [7]
  password := Vector.replicate 12 0
  keySalt := Vector.replicate 16 0
  passwordSession := [5]
  srpSalt := .ok (List.replicate 10 0)

def sampleChoices : Choices where
  shareId := "share"
  modulusId := "m"
  newUrl urls :=
    { id := newText (urls.map ShareUrl.id)
      publicUrl := "https://drive/urls/T".toList
      place := 0
      createTime := 7
      validUrl := ⟨by decide, "https://drive".toList, ['T'], by decide, by decide, by decide⟩ }
  fresh urls := newText_notMem _

end Recipients.PublicLinks

end ProtonDrive
