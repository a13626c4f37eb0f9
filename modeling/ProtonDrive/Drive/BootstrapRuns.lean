import Mathlib.Data.List.Count
import ProtonDrive.Drive.Bootstrap

/-!
# Runs of the bootstrap

The account behind the calls, and what they make of it together. The client asks for a new volume only
where there is no active one. Still there may be several in the end: other clients make them, the HTTP
layer sends a request again whose answer did not come in time, and a request may arrive when its
caller is gone and another one has asked for the same. The world keeps count of each.

* `answers` — the server and the account client, whose answers may be lost.
* `ensureMyFiles_safe` — wherever a call stands, it has created a volume only in place of none.
* `bootstrap_runs` — so in every run, there is one active volume at most, besides those counted.
-/

namespace ProtonDrive.Bootstrap

open OpenPgp
open Account (Address)

/-! ## The account -/

structure Volume where
  id : VolumeId
  volumeType : Option Int
  state : Int
  share : ShareDto
  link : Link
  deriving DecidableEq, Repr

def Volume.isRegular (v : Volume) : Bool := v.volumeType.getD 1 == 1

def Volume.isActive (v : Volume) : Bool := v.isRegular && v.state == 1

def Volume.response (v : Volume) : MyFilesShareResponse := ⟨v.id, v.share, v.link⟩

def Volume.item (v : Volume) : VolumeListItem := ⟨v.id, v.state, v.volumeType⟩

/-- What the server adds to a volume it creates. -/
structure VolumeStamp where
  volumeId : VolumeId
  shareId : ShareId
  linkId : LinkId
  email : String

def VolumeCreationRequest.volume (request : VolumeCreationRequest) (stamp : VolumeStamp) :
    Volume where
  id := stamp.volumeId
  volumeType := some 1
  state := 1
  share := ⟨stamp.shareId, request.shareKey, request.sharePassphrase, request.addressId⟩
  link := {
    id := stamp.linkId
    parentId := none
    name := request.folderName
    nameHash := none
    key := request.folderKey
    passphrase := request.folderPassphrase
    passphraseSignature := some request.folderPassphraseSignature
    signatureEmail := some stamp.email
    nameSignatureEmail := some stamp.email
    hashKey := some request.folderHashKey }

/-- What the account client gives at the moment. -/
structure AccountClient where
  defaultAddress : Except ProtonError Address
  addressPrivateKeys : String → Except ProtonError (List Key)

structure World where
  volumes : List Volume
  account : AccountClient
  /-- Requests on their way whose callers are gone. -/
  inFlight : List Volume
  /-- How many volumes other clients have made active. -/
  others : Nat
  /-- How many active volumes came of requests that arrived when their callers were gone. -/
  late : Nat
  /-- How many active volumes came of requests that were then sent again. -/
  repeats : Nat

def World.actives (w : World) : Nat := w.volumes.countP Volume.isActive

/-- The active volumes that no waiting call has made with one request. -/
def World.extra (w : World) : Nat := w.others + w.late + w.repeats

/-- The volume whose share the server gives: an active one before a locked one. -/
def World.served (w : World) : Option Volume :=
  w.volumes.find? Volume.isActive <|> w.volumes.find? Volume.isRegular

/-- The Photos volume. -/
def World.photos (w : World) : Option Volume := w.volumes.find? (fun v => v.volumeType == some 2)

/-- An error that does not say that something is not there. -/
abbrev Fault := { e : ProtonError // isNotFound e = false }

/-- What becomes of a question, and what the server and chance add to it. -/
structure Choice where
  fate : Fate Fault
  /-- How the server says that something is not there. -/
  absent : { e : ProtonError // isNotFound e = true }
  stamp : VolumeStamp
  /-- For a request that is sent again, where there are these volumes. -/
  earlier : List Volume → VolumeStamp
  secrets : VolumeSecrets

def World.create (w : World) (v : Volume) : World := { w with volumes := w.volumes ++ [v] }

/-- What `v` adds to the active volumes. -/
def Volume.weight (v : Volume) : Nat := if v.isActive then 1 else 0

/-- The answer, if it is not lost. -/
def World.reply (w : World) (x : Choice) : (q : Question) → Except ProtonError q.Answer
  | .myFilesShare =>
      match w.served with
      | some v => .ok v.response
      | none => .error x.absent
  | .photosShare =>
      match w.photos with
      | some v => .ok v.response
      | none => .error x.absent
  | .volumes => .ok (w.volumes.map Volume.item)
  | .createVolume _ => .ok ()
  | .defaultAddress => w.account.defaultAddress
  | .addressPrivateKeys addressId => w.account.addressPrivateKeys addressId
  | .secrets => .ok x.secrets

/-- What a question leaves behind. -/
def World.carryOut (w : World) (x : Choice) : Question → World
  | .createVolume request => w.create (request.volume x.stamp)
  | _ => w

/-- What a question leaves behind that is asked again. -/
def World.carryOutEarly (w : World) (x : Choice) : Question → World
  | .createVolume request =>
      let v := request.volume (x.earlier w.volumes)
      { w.create v with repeats := w.repeats + v.weight }
  | _ => w

def World.hear (q : Question) (x : Choice) : Fate Fault → World → World × Except ProtonError q.Answer
  | .refused e, w => (w, .error e)
  | .done, w => (w.carryOut x q, w.reply x q)
  | .lost e, w => (w.carryOut x q, .error e)
  | .resent again, w => World.hear q x again (w.carryOutEarly x q)

def World.answer (q : Question) (x : Choice) (w : World) : World × Except ProtonError q.Answer :=
  World.hear q x x.fate w

/-- The caller is gone. Its request has not been sent, has been carried out, or is on its way, when it
has been sent for the last time. -/
def World.leave (q : Question) (x : Choice) : Fate Fault → World → World
  | .refused _, w => w
  | .done, w => w.carryOut x q
  | .lost _, w =>
      match q with
      | .createVolume request => { w with inFlight := w.inFlight ++ [request.volume x.stamp] }
      | _ => w
  | .resent again, w => World.leave q x again (w.carryOutEarly x q)

def World.abandon (q : Question) (x : Choice) (w : World) : World := World.leave q x x.fate w

/-- What happens to the account without the calls. -/
inductive Move where
  /-- The account client comes to give something else, as after a password reset. -/
  | account (account : AccountClient)
  | lock (id : VolumeId)
  | restore (id : VolumeId)
  /-- Another client creates a volume. -/
  | create (v : Volume)
  /-- A request arrives late. -/
  | land (n : Nat)

def setState (state : Int) (id : VolumeId) (v : Volume) : Volume :=
  if v.id = id then { v with state := state } else v

def World.move : Move → World → World
  | .account account, w => { w with account := account }
  | .lock id, w => { w with volumes := w.volumes.map (setState 3 id) }
  | .restore id, w =>
      { w with
        volumes := w.volumes.map (setState 1 id)
        others := w.others + w.volumes.countP (fun v => v.id == id && v.isRegular && !v.isActive) }
  | .create v, w => { w.create v with others := w.others + v.weight }
  | .land n, w =>
      match w.inFlight[n]? with
      | some v =>
          { w.create v with
            inFlight := w.inFlight.eraseIdx n
            late := w.late + v.weight }
      | none => w

def answers : Environment Question Question.Answer ProtonError World Choice Move where
  answer := World.answer
  abandon := World.abandon
  move := World.move

/-! ## What others do -/

variable {w t : World} {m : Move}

/-- A new volume counts if it is active. -/
theorem actives_create (w : World) (v : Volume) : (w.create v).actives = w.actives + v.weight := by
  unfold World.actives World.create Volume.weight
  rw [List.countP_append, List.countP_singleton]

theorem weight_le_one (v : Volume) : v.weight ≤ 1 := by
  unfold Volume.weight
  split
  · exact Nat.le_refl 1
  · exact Nat.zero_le 1

/-- Locking a volume makes none active. -/
theorem countP_lock (id : VolumeId) (volumes : List Volume) :
    (volumes.map (setState 3 id)).countP Volume.isActive ≤ volumes.countP Volume.isActive := by
  rw [List.countP_map]
  apply List.countP_mono_left
  intro v _ hv
  unfold Function.comp setState at hv
  split at hv
  · simp [Volume.isActive] at hv
  · exact hv

/-- Volumes that are restored were not active. -/
theorem isActive_restore {id : VolumeId} {v : Volume} (h : (setState 1 id v).isActive) :
    v.isActive ∨ v.id == id && v.isRegular && !v.isActive := by
  by_cases hv : v.id = id
  · have hregular : v.isRegular := by
      rw [setState, if_pos hv] at h
      exact (Bool.and_eq_true_iff.mp h).1
    cases hactive : v.isActive with
    | true => exact .inl rfl
    | false => exact .inr (by simp [hv, hregular])
  · rw [setState, if_neg hv] at h
    exact .inl h

/-- Restoring makes active what was not, and at most the volumes of this id. -/
theorem countP_restore (id : VolumeId) (volumes : List Volume) :
    (volumes.map (setState 1 id)).countP Volume.isActive ≤
      volumes.countP Volume.isActive +
        volumes.countP (fun v => v.id == id && v.isRegular && !v.isActive) := by
  -- Each volume becomes active only if it was before or is the one that is restored.
  induction volumes with
  | nil => exact Nat.zero_le _
  | cons v volumes ih =>
      have hfirst : (if (setState 1 id v).isActive then 1 else 0) ≤
          (if v.isActive then 1 else 0) +
            (if v.id == id && v.isRegular && !v.isActive then 1 else 0) := by
        by_cases h : (setState 1 id v).isActive
        · rw [if_pos h]
          rcases isActive_restore h with h | h
          · rw [if_pos h]
            exact Nat.le_add_right _ _
          · rw [if_pos h]
            exact Nat.le_add_left _ _
        · rw [if_neg h]
          exact Nat.zero_le _
      simp only [List.map_cons, List.countP_cons]
      omega

/-- A move makes no more volumes active than it is counted for. -/
theorem move_actives (m : Move) (w : World) :
    (w.move m).actives + w.extra ≤ w.actives + (w.move m).extra := by
  cases m with
  -- A change of the account or a lock makes no volume active.
  | account a => exact Nat.le_refl _
  | lock id => exact Nat.add_le_add_right (countP_lock id w.volumes) _
  | restore id =>
      have hrestore := countP_restore id w.volumes
      simp only [World.actives, World.extra, World.move]
      omega
  | create v =>
      have hcreate := actives_create w v
      simp only [World.actives, World.extra, World.move, World.create] at hcreate ⊢
      omega
  -- A creation that arrives late makes a volume, and `late` counts it.
  | land n =>
      simp only [World.move]
      split
      · next v _ =>
        have hcreate := actives_create w v
        simp only [World.actives, World.extra, World.create] at hcreate ⊢
        omega
      · exact Nat.le_refl _

/-! ## What the calls keep -/

/-- One volume is active at most, besides those that are counted. -/
def AtMostOne (w : World) : Prop := w.actives ≤ w.extra + 1

/-- Every active volume is counted. -/
def Vacant (w : World) : Prop := w.actives ≤ w.extra

/-- What happens outside, a late request included, does not add a volume that nobody else adds. -/
theorem AtMostOne.stable : answers.Stable AtMostOne := by
  intro m w h
  have hmove := move_actives m w
  show (w.move m).actives ≤ (w.move m).extra + 1
  unfold AtMostOne at h
  omega

/-- Where no volume is active, none becomes so without another client. -/
theorem Vacant.stable : answers.Stable Vacant := by
  intro m w h
  have hmove := move_actives m w
  show (w.move m).actives ≤ (w.move m).extra
  unfold Vacant at h
  omega

theorem Vacant.atMostOne (h : Vacant w) : AtMostOne w := Nat.le_succ_of_le h

/-- One volume may be made where none is active. -/
theorem Vacant.create (h : Vacant w) (v : Volume) : AtMostOne (w.create v) := by
  have hcreate := actives_create w v
  have hweight := weight_le_one v
  show (w.create v).actives ≤ w.extra + 1
  unfold Vacant at h
  omega

/-- Whatever is carried out there, one volume is active at most. -/
theorem Vacant.carryOut (h : Vacant w) (x : Choice) (q : Question) : AtMostOne (w.carryOut x q) := by
  cases q with
  | createVolume request => exact h.create _
  | _ => exact h.atMostOne

/-- A request that is sent again is counted. -/
theorem Vacant.carryOutEarly (h : Vacant w) (x : Choice) (q : Question) :
    Vacant (w.carryOutEarly x q) := by
  cases q with
  | createVolume request =>
      have hcreate := actives_create w (request.volume (x.earlier w.volumes))
      simp only [Vacant, World.actives, World.extra, World.carryOutEarly, World.create]
        at h hcreate ⊢
      omega
  | _ => exact h

/-- So it is when the request is carried out twice, since the second one is refused. -/
theorem Vacant.hear (h : Vacant w) (q : Question) (x : Choice) (fate : Fate Fault) :
    AtMostOne (World.hear q x fate w).1 := by
  induction fate generalizing w with
  | refused e => exact h.atMostOne
  | done => exact h.carryOut x q
  | lost e => exact h.carryOut x q
  | resent again ih => exact ih (h.carryOutEarly x q)

/-- And so it is when the caller goes while its request is under way. -/
theorem Vacant.leave (h : Vacant w) (q : Question) (x : Choice) (fate : Fate Fault) :
    AtMostOne (World.leave q x fate w) := by
  induction fate generalizing w with
  | refused e => exact h.atMostOne
  | done => exact h.carryOut x q
  | lost e => cases q <;> exact h.atMostOne
  | resent again ih => exact ih (h.carryOutEarly x q)

/-- A volume that the server has, as it was described. The type of a volume never changes. -/
def Known (kind : Option Int → Bool) (response : MyFilesShareResponse) (w : World) : Prop :=
  ∃ v ∈ w.volumes, kind v.volumeType ∧ v.response = response

def isPhotos (volumeType : Option Int) : Bool := volumeType == some 2

variable {kind : Option Int → Bool} {response : MyFilesShareResponse}

/-- A share that is known stays known when there is one more volume. -/
theorem Known.create (h : Known kind response w) (v : Volume) :
    Known kind response (w.create v) := by
  obtain ⟨v', hmem, hv'⟩ := h
  exact ⟨v', List.mem_append_left _ hmem, hv'⟩

/-- Nor does the state of a volume matter to it. -/
theorem Known.setState (state : Int) (id : VolumeId) (h : Known kind response w) :
    Known kind response { w with volumes := w.volumes.map (setState state id) } := by
  obtain ⟨v, hmem, hkind, hresponse⟩ := h
  refine ⟨_, List.mem_map_of_mem hmem, ?_⟩
  unfold Bootstrap.setState
  split
  · exact ⟨hkind, hresponse⟩
  · exact ⟨hkind, hresponse⟩

theorem Known.stable (kind : Option Int → Bool) (response : MyFilesShareResponse) :
    answers.Stable (Known kind response) := by
  intro m w h
  cases m with
  | account a => exact h
  | lock id => exact h.setState 3 id
  | restore id => exact h.setState 1 id
  | create v => exact h.create v
  | land n =>
      show Known _ _ (w.move (.land n))
      simp only [World.move]
      split
      · exact h.create _
      · exact h

/-- The cache describes a volume that the server has. -/
def Describes (kind : Option Int → Bool) (c : CachedVolume) (w : World) : Prop :=
  ∃ response, Known kind response w ∧ c.volumeId = response.volumeId ∧
    c.root = ⟨response.volumeId, response.link.id⟩ ∧ c.rootKey = response.link.key.key ∧
    c.share = ⟨response.share.id, response.share.addressId, response.share.key.key⟩

theorem Describes.stable (kind : Option Int → Bool) (c : CachedVolume) :
    answers.Stable (Describes kind c) := by
  intro m w h
  obtain ⟨response, hknown, hrest⟩ := h
  exact ⟨response, Known.stable _ _ m w hknown, hrest⟩

/-- What is cached after the root opened describes the volume that the share was of. -/
theorem describes_of_openRoot {shareKey : Key} {c : CachedVolume} (h : Known kind response w)
    (hkey : response.share.key.key = shareKey) (hc : openRoot response shareKey = .ok c) :
    Describes kind c w := by
  obtain ⟨decrypted, hdecrypted, hc⟩ := Except.bind_eq_ok.mp hc
  cases hc
  refine ⟨response, h, rfl, rfl, decryptLink_nodeKey hdecrypted, ?_⟩
  rw [hkey]

/-! ## Where a call stands -/

/-- The question only reads. -/
def Question.Quiet (q : Question) : Prop := ∀ request, q ≠ .createVolume request

/-- A question that changes nothing leaves the world alone when it is carried out. -/
theorem Question.Quiet.carryOut {q : Question} (h : q.Quiet) (x : Choice) (w : World) :
    w.carryOut x q = w := by
  cases q <;> first | rfl | exact absurd rfl (h _)

theorem Question.Quiet.carryOutEarly {q : Question} (h : q.Quiet) (x : Choice) (w : World) :
    w.carryOutEarly x q = w := by
  cases q <;> first | rfl | exact absurd rfl (h _)

theorem Question.Quiet.abandon {q : Question} (h : q.Quiet) (x : Choice) (w : World) :
    w.abandon q x = w := by
  have hleave : ∀ fate, World.leave q x fate w = w := by
    intro fate
    induction fate with
    | refused e => rfl
    | done => exact h.carryOut x w
    | lost e => cases q <;> first | rfl | exact absurd rfl (h _)
    | resent again ih => exact (congrArg _ (h.carryOutEarly x w)).trans ih
  exact hleave x.fate

/-- However often it is sent, a question that only reads is answered once, or its answer is lost. -/
theorem Question.Quiet.answer {q : Question} (h : q.Quiet) (x : Choice) (w : World) :
    (World.answer q x w).1 = w ∧
      ((World.answer q x w).2 = w.reply x q ∨ ∃ e : Fault, (World.answer q x w).2 = .error e) := by
  have hhear : ∀ fate, (World.hear q x fate w).1 = w ∧
      ((World.hear q x fate w).2 = w.reply x q ∨
        ∃ e : Fault, (World.hear q x fate w).2 = .error e) := by
    intro fate
    induction fate with
    | refused e => exact ⟨rfl, .inr ⟨e, rfl⟩⟩
    | done => exact ⟨h.carryOut x w, .inl rfl⟩
    | lost e => exact ⟨h.carryOut x w, .inr ⟨e, rfl⟩⟩
    | resent again ih =>
        unfold World.hear
        rw [h.carryOutEarly x w]
        exact ih
  exact hhear x.fate

/-- An answer to such a question is what the server has. -/
theorem Question.Quiet.reply_of_answer {q : Question} (hq : q.Quiet) {x : Choice} {a : q.Answer}
    (h : (World.answer q x w).2 = .ok a) : w.reply x q = .ok a := by
  rcases (hq.answer x w).2 with hreply | ⟨e, herror⟩
  · exact hreply.symm.trans h
  · cases herror.symm.trans h

variable {I P : World → Prop} {E : ProtonError → World → Prop} {α : Type}
  {S : α → World → Prop} {q : Question}

/-- A question that only reads, asked where `P` holds. -/
theorem safe_ask (hq : q.Quiet) (hP : answers.Stable P) (hI : ∀ t, P t → I t) (hw : P w)
    (hE : ∀ x t e, P t → (World.answer q x t).2 = .error e → E e t) :
    (ask q).Safe answers I (fun a t => P t ∧ ∃ x, t.reply x q = .ok a) E w := by
  apply Dialogue.Safe.call hP hw hI
  · intro t x ht
    show I (World.abandon q x t)
    rw [hq.abandon]
    exact hI t ht
  · intro t x ht
    have hsame : (answers.answer q x t).1 = t := (hq.answer x t).1
    rw [hsame]
    exact ⟨hI t ht, fun a ha => ⟨ht, x, hq.reply_of_answer ha⟩, fun e he => hE x t e ht he⟩

/-- To ask such a question and go on, it is enough that what is known is stable. -/
theorem safe_ask_bind (hq : q.Quiet) (hP : answers.Stable P) (hI : ∀ t, P t → I t)
    (hw : P w) {f : q.Answer → Asking α}
    (hf : ∀ a t, P t → (∃ x, t.reply x q = .ok a) →
      (f a).Safe answers I S (fun _ _ => True) t) :
    (ask q >>= f).Safe answers I S (fun _ _ => True) w := by
  have hask : (ask q).Safe answers I (fun a t => P t ∧ ∃ x, t.reply x q = .ok a)
      (fun _ _ => True) w := safe_ask hq hP hI hw (fun _ _ _ _ _ => trivial)
  exact hask.bind (fun _ _ _ => trivial) (fun a t _ ht => hf a t ht.1 ht.2)

theorem vacant_of_forall (h : ∀ v ∈ w.volumes, ¬ v.isActive) : Vacant w := by
  have hnone : w.actives = 0 := List.countP_eq_zero.mpr h
  unfold Vacant
  omega

/-- An account that is told that it has no share has no active volume. -/
theorem vacant_of_served (h : w.served = none) : Vacant w := by
  unfold World.served at h
  cases hactive : w.volumes.find? Volume.isActive with
  | some v => simp [hactive] at h
  | none => exact vacant_of_forall (List.find?_eq_none.mp hactive)

theorem isActive_item (v : Volume) :
    (v.item.state == 1 && v.item.volumeType.getD 1 == 1) = v.isActive := Bool.and_comm _ _

/-- The listing of the volumes says whether one is active. -/
theorem hasActiveRegularVolume_items (w : World) :
    hasActiveRegularVolume (w.volumes.map Volume.item) = w.volumes.any Volume.isActive := by
  unfold hasActiveRegularVolume
  rw [List.any_map]
  congr 1
  funext v
  exact isActive_item v

theorem decryptShareKey_key {keys : List Key} {share : ShareDto} {key : Key}
    (h : decryptShareKey keys share = .ok key) : share.key.key = key := by
  obtain ⟨passphrase, -, h⟩ := Except.bind_eq_ok.mp h
  exact (fromArmored_eq_ok.mp h).2

/-- And the photos share is that of a photos volume. -/
theorem known_of_photos {x : Choice} (h : w.reply x .photosShare = .ok response) :
    Known isPhotos response w := by
  simp only [World.reply] at h
  split at h
  · next v hphotos =>
    cases h
    unfold World.photos at hphotos
    have hkind : isPhotos v.volumeType := by simpa [isPhotos] using List.find?_some hphotos
    exact ⟨v, List.mem_of_find?_eq_some hphotos, hkind, rfl⟩
  · cases h

/-- The share is opened with what its key is locked in. -/
theorem unlockShare_safe (hI : answers.Stable I) (h : I w) (hknown : Known kind response w) :
    (unlockShare response.share).Safe answers I
      (fun key t => Known kind response t ∧ response.share.key.key = key) (fun _ _ => True) w := by
  have hP : answers.Stable (fun t => I t ∧ Known kind response t) :=
    fun m t ht => ⟨hI m t ht.1, Known.stable _ _ m t ht.2⟩
  apply safe_ask_bind (q := .addressPrivateKeys response.share.addressId) nofun hP
    (fun _ ht => ht.1) ⟨h, hknown⟩
  intro addressKeys t ht _
  apply Dialogue.Safe.ofExcept ht.1
  · exact fun key hkey => ⟨ht.2, decryptShareKey_key hkey⟩
  · exact fun _ _ => trivial

/-- A call for the photos creates nothing. -/
theorem ensurePhotos_safe (hI : answers.Stable I) (h : I w) :
    ensurePhotos.Safe answers I (fun found t => ∀ c, found = some c → Describes isPhotos c t)
      (fun _ _ => True) w := by
  have hask := safe_ask (q := .photosShare) (E := fun _ _ => True) nofun hI (fun _ ht => ht) h
    (fun _ _ _ _ _ => trivial)
  refine Dialogue.Safe.bind hask.attempt (E := fun _ _ => True) (fun _ _ _ => trivial) ?_
  rintro r t ht ⟨hok, -⟩
  cases r with
  | ok response =>
      obtain ⟨-, x, hx⟩ := hok response rfl
      apply (unlockShare_safe hI ht (known_of_photos hx)).bind (fun _ _ _ => trivial)
      rintro key t ht ⟨hknown, hkey⟩
      show Dialogue.Safe _ _ _ _ (Dialogue.ofExcept _ >>= _) t
      apply Dialogue.Safe.bind (E := fun _ _ => True) (R := Describes isPhotos)
      · exact .ofExcept ht (fun c hc => describes_of_openRoot hknown hkey hc) (fun _ _ => trivial)
      · exact fun _ _ _ => trivial
      · rintro c t ht hc
        refine ⟨ht, ?_⟩
        rintro _ ⟨⟩
        exact hc
  -- An error of the server that means "no photos volume" is answered with `none`.
  | error e =>
      cases e with
      | api e =>
          show Dialogue.Safe _ _ _ _ (if _ then _ else _) t
          split
          · exact ⟨ht, nofun⟩
          · exact ⟨ht, trivial⟩
      | _ => exact ⟨ht, trivial⟩

/-! ## Alone -/

/-- What the server and the account make of a volume's share and root. -/
def World.opens (w : World) (v : Volume) : Except ProtonError CachedVolume := do
  let addressKeys ← w.account.addressPrivateKeys v.share.addressId
  let shareKey ← decryptShareKey addressKeys v.share
  openRoot v.response shareKey

/-- The account has a key to create a volume with. -/
structure Usable (account : AccountClient) (address : Address) (addressKeys : List Key) (key : Key) :
    Prop where
  default_eq : account.defaultAddress = .ok address
  keys_eq : account.addressPrivateKeys address.id = .ok addressKeys
  primary : addressKeys[address.primaryKeyIndex]? = some key

variable {x : Choice} {address : Address} {addressKeys : List Key} {key : Key} {v : Volume}

/-- Undisturbed, a question is carried out and answered. -/
theorem run_ask (hx : x.fate = .done) (q : Question) :
    (ask q).run answers x w = (w.carryOut x q, w.reply x q) := by
  rw [ask, Dialogue.run_call]
  show World.answer q x w = _
  unfold World.answer
  rw [hx]
  rfl

/-- The volume that a call creates. -/
def created (x : Choice) (address : Address) (key : Key) : Volume :=
  (creationRequest address (buildVolumeCreationMaterial key rootName x.secrets)).volume x.stamp

/-- Undisturbed, the volume that is made is the one that was asked for. -/
theorem run_createVolume (hx : x.fate = .done) (h : Usable w.account address addressKeys key) :
    createVolume.run answers x w = (w.create (created x address key), .ok ()) := by
  have haddress : (ask .defaultAddress).run answers x w = (w, .ok address) := by
    rw [run_ask hx]
    exact congrArg (Prod.mk w) h.default_eq
  have hkeys : (ask (.addressPrivateKeys address.id)).run answers x w = (w, .ok addressKeys) := by
    rw [run_ask hx]
    exact congrArg (Prod.mk w) h.keys_eq
  have hprimary : (Dialogue.ofExcept (primaryKey address addressKeys) : Asking Key).run answers x w =
      (w, .ok key) := by
    rw [Dialogue.run_ofExcept, primaryKey, h.primary]
  have hsecrets : (ask .secrets).run answers x w = (w, .ok x.secrets) := run_ask hx _
  unfold createVolume
  rw [Dialogue.run_bind_ok haddress, Dialogue.run_bind_ok hkeys, Dialogue.run_bind_ok hprimary,
    Dialogue.run_bind_ok hsecrets]
  exact run_ask hx _

/-- Undisturbed, the share is opened with the keys of its address. -/
theorem run_unlockShare (hx : x.fate = .done) (share : ShareDto)
    (h : w.account.addressPrivateKeys share.addressId = .ok addressKeys) :
    (unlockShare share).run answers x w = (w, decryptShareKey addressKeys share) := by
  have hkeys : (ask (.addressPrivateKeys share.addressId)).run answers x w =
      (w, .ok addressKeys) := by
    rw [run_ask hx]
    exact congrArg (Prod.mk w) h
  unfold unlockShare
  rw [Dialogue.run_bind_ok hkeys, Dialogue.run_ofExcept]

theorem run_askShare (hx : x.fate = .done) (h : w.served = some v) :
    (ask .myFilesShare).run answers x w = (w, .ok v.response) := by
  rw [run_ask hx]
  simp only [World.carryOut, World.reply, h]

/-- If nothing is active, the server gives the new volume. -/
theorem served_create (h : w.actives = 0) (hv : v.isActive) : (w.create v).served = some v := by
  have hnone : w.volumes.find? Volume.isActive = none :=
    List.find?_eq_none.mpr (List.countP_eq_zero.mp h)
  unfold World.served World.create
  simp [List.find?_append, hnone, hv]

theorem isActive_created (x : Choice) (address : Address) (key : Key) :
    (created x address key).isActive := rfl

/-- What a call creates, it can open. -/
theorem opens_created (h : Usable w.account address addressKeys key) (x : Choice) :
    decryptShareKey addressKeys (created x address key).share = .ok x.secrets.share.key ∧
      ∃ c, openRoot (created x address key).response x.secrets.share.key = .ok c ∧
        w.opens (created x address key) = .ok c := by
  have hmem : key ∈ addressKeys := List.mem_of_getElem? h.primary
  have hshare : decryptShareKey addressKeys (created x address key).share =
      .ok x.secrets.share.key := decryptShareKey_material key rootName x.secrets hmem rfl rfl
  have hlink : decryptLink x.secrets.share.key (created x address key).link =
      .ok ⟨x.secrets.folder.key, rootName⟩ :=
    decryptLink_material key rootName x.secrets (validateUTF8_toUTF8 _) rfl rfl rfl
  have hroot : ∃ c, openRoot (created x address key).response x.secrets.share.key = .ok c :=
    ⟨_, Except.bind_eq_ok.mpr ⟨_, hlink, rfl⟩⟩
  obtain ⟨c, hroot⟩ := hroot
  refine ⟨hshare, c, hroot, ?_⟩
  exact Except.bind_eq_ok.mpr ⟨_, h.keys_eq, Except.bind_eq_ok.mpr ⟨_, hshare, hroot⟩⟩

/-- A share that opens is not replaced. -/
theorem run_unlockOrReplace_ok (hx : x.fate = .done)
    (hkeys : w.account.addressPrivateKeys response.share.addressId = .ok addressKeys)
    (hshare : decryptShareKey addressKeys response.share = .ok key) :
    (unlockOrReplace response).run answers x w = (w, .ok (response, key)) := by
  have hunlock : (unlockShare response.share).attempt.run answers x w = (w, .ok (.ok key)) := by
    rw [Dialogue.run_attempt, run_unlockShare hx _ hkeys, hshare]
  unfold unlockOrReplace
  rw [Dialogue.run_bind_ok hunlock]
  rfl

/-- What becomes of a share that does not open. -/
theorem run_unlockOrReplace_error (hx : x.fate = .done) {keys : List Key} {e : ProtonError}
    (hkeys : w.account.addressPrivateKeys response.share.addressId = .ok keys)
    (hshare : decryptShareKey keys response.share = .error e)
    (h : Usable w.account address addressKeys key) :
    (unlockOrReplace response).run answers x w =
      if w.actives = 0 then
        (w.create (created x address key),
          .ok ((created x address key).response, x.secrets.share.key))
      else (w, .error e) := by
  have hunlock : (unlockShare response.share).attempt.run answers x w = (w, .ok (.error e)) := by
    rw [Dialogue.run_attempt, run_unlockShare hx _ hkeys, hshare]
  have hvolumes : (ask .volumes).run answers x w = (w, .ok (w.volumes.map Volume.item)) :=
    run_ask hx _
  unfold unlockOrReplace
  rw [Dialogue.run_bind_ok hunlock]
  show (if e.isCrypto then _ else _ : Asking (MyFilesShareResponse × Key)).run answers x w = _
  rw [if_pos (decryptShareKey_error hshare), Dialogue.run_bind_ok hvolumes,
    hasActiveRegularVolume_items]
  -- The source creates a volume only when none is active.
  by_cases hactives : w.actives = 0
  · have hnone : ¬ w.volumes.any Volume.isActive = true := by
      simpa [World.actives, List.countP_eq_zero] using hactives
    rw [if_neg hnone, if_pos hactives, Dialogue.run_bind_ok (run_createVolume hx h),
      Dialogue.run_bind_ok (run_askShare hx (served_create hactives (isActive_created x address key)))]
    have hunlocked := run_unlockShare (w := w.create (created x address key)) hx
      (created x address key).share h.keys_eq
    rw [(opens_created h x).1] at hunlocked
    exact Dialogue.run_bind_ok hunlocked
  · have hsome : w.volumes.any Volume.isActive = true := by
      simpa [World.actives, List.countP_eq_zero] using hactives
    rw [if_pos hsome, if_neg hactives]
    rfl

/-- Undisturbed, the share is the one that is served, or that of the volume just made. -/
theorem run_getOrCreateShare (hx : x.fate = .done) (h : Usable w.account address addressKeys key) :
    getOrCreateShare.run answers x w = match w.served with
      | some v => (w, .ok v.response)
      | none => (w.create (created x address key), .ok (created x address key).response) := by
  have hask : (ask .myFilesShare).attempt.run answers x w = (w, .ok (w.reply x .myFilesShare)) := by
    rw [Dialogue.run_attempt, run_ask hx]
    rfl
  unfold getOrCreateShare
  rw [Dialogue.run_bind_ok hask]
  cases hserved : w.served with
  | some v => simp only [World.reply, hserved]; rfl
  | none =>
      have hactives : w.actives = 0 := by
        have hvacant := vacant_of_served (w := { w with others := 0, late := 0, repeats := 0 }) hserved
        exact Nat.le_zero.mp hvacant
      simp only [World.reply, hserved]
      show (if isNotFound x.absent then _ else _ : Asking MyFilesShareResponse).run answers x w = _
      rw [if_pos x.absent.2, Dialogue.run_bind_ok (run_createVolume hx h)]
      exact run_askShare hx (served_create hactives (isActive_created x address key))

/-- Undisturbed, the call is these two parts and the opening of the root. -/
theorem run_ensureMyFiles {t u : World} {response' : MyFilesShareResponse} {shareKey : Key}
    (hshare : getOrCreateShare.run answers x w = (t, .ok response))
    (hkey : (unlockOrReplace response).run answers x t = (u, .ok (response', shareKey))) :
    ensureMyFiles.run answers x w = (u, openRoot response' shareKey) := by
  unfold ensureMyFiles
  rw [Dialogue.run_bind_ok hshare, Dialogue.run_bind_ok hkey, Dialogue.run_ofExcept]

/-- The share that the server gives, if it gives one, does not open. -/
def Locked (w : World) : Prop := ∀ v c, w.served = some v → w.opens v ≠ .ok c

/-- The calls end like this: with what the server gives then, or without it because an active volume
is locked. -/
structure Settled (w : World) (v' : Volume) (t : World) (r : Except ProtonError CachedVolume) :
    Prop where
  opened : ∀ c, r = .ok c → ∃ v, t.served = some v ∧ t.opens v = .ok c
  error_iff : (∃ e, r = .error e) ↔ w.actives ≠ 0 ∧ Locked w
  replaced : w.actives = 0 ∧ Locked w → t = w.create v'
  kept : ¬ (w.actives = 0 ∧ Locked w) → t = w

/-- A volume just made settles the account. -/
theorem settled_created (h : Usable w.account address addressKeys key) (x : Choice)
    (hactives : w.actives = 0) (hlocked : Locked w) :
    Settled w (created x address key) (w.create (created x address key))
      (openRoot (created x address key).response x.secrets.share.key) := by
  obtain ⟨-, c, hroot, hopens⟩ := opens_created h x
  rw [hroot]
  refine ⟨?_, ?_, fun _ => rfl, fun hn => absurd ⟨hactives, hlocked⟩ hn⟩
  · rintro _ ⟨⟩
    exact ⟨_, served_create hactives (isActive_created x address key), hopens⟩
  · simp [hactives]

/-- **Left alone**, with an account that has a key to create volumes with and knows the address of the
share that the server gives: a call caches what the server gives at its end, unless that is an active
volume that does not open. A volume is created exactly if none is active and the share of the one the
server gives, if there is one, does not open. -/
theorem ensureMyFiles_alone (hx : x.fate = .done) (h : Usable w.account address addressKeys key)
    (hknown : ∀ v, w.served = some v →
      ∃ keys, w.account.addressPrivateKeys v.share.addressId = .ok keys)
    (hroots : ∀ v keys shareKey, w.served = some v →
      w.account.addressPrivateKeys v.share.addressId = .ok keys →
      decryptShareKey keys v.share = .ok shareKey → ∃ c, openRoot v.response shareKey = .ok c) :
    ∃ t r, ensureMyFiles.run answers x w = (t, r) ∧
      Settled w (created x address key) t r := by
  have hshare := run_getOrCreateShare hx h
  cases hserved : w.served with
  | none =>
      rw [hserved] at hshare
      -- Nothing is served, so there is nothing that could open.
      have hlocked : Locked w := fun v c hv => by rw [hserved] at hv; cases hv
      have hactives : w.actives = 0 :=
        Nat.le_zero.mp (vacant_of_served (w := { w with others := 0, late := 0, repeats := 0 }) hserved)
      refine ⟨_, _, run_ensureMyFiles hshare ?_, settled_created h x hactives hlocked⟩
      exact run_unlockOrReplace_ok hx h.keys_eq (opens_created h x).1
  | some v =>
      rw [hserved] at hshare
      obtain ⟨keys, hkeys⟩ := hknown v hserved
      cases hv : decryptShareKey keys v.share with
      | ok shareKey =>
          obtain ⟨c, hroot⟩ := hroots v keys shareKey hserved hkeys hv
          have hopens : w.opens v = .ok c :=
            Except.bind_eq_ok.mpr ⟨_, hkeys, Except.bind_eq_ok.mpr ⟨_, hv, hroot⟩⟩
          -- The volume that is served opens, so it is no locked one.
          have hopen : ¬ Locked w := fun hlocked => hlocked v c hserved hopens
          refine ⟨_, _, run_ensureMyFiles hshare (run_unlockOrReplace_ok hx hkeys hv), ?_⟩
          rw [hroot]
          refine ⟨?_, ?_, fun hc => absurd hc.2 hopen, fun _ => rfl⟩
          · rintro _ ⟨⟩
            exact ⟨v, hserved, hopens⟩
          · simp [hopen]
      | error e =>
          -- Whatever is served is the volume that failed to open.
          have hlocked : Locked w := by
            intro v' c hv' hopens
            cases hserved.symm.trans hv'
            obtain ⟨keys', hkeys', hopens⟩ := Except.bind_eq_ok.mp hopens
            cases hkeys.symm.trans hkeys'
            obtain ⟨shareKey, hshareKey, -⟩ := Except.bind_eq_ok.mp hopens
            rw [hv] at hshareKey
            cases hshareKey
          have hv : decryptShareKey keys v.response.share = .error e := hv
          have hunlock := run_unlockOrReplace_error hx hkeys hv h
          by_cases hactives : w.actives = 0
          · rw [if_pos hactives] at hunlock
            exact ⟨_, _, run_ensureMyFiles hshare hunlock, settled_created h x hactives hlocked⟩
          · rw [if_neg hactives] at hunlock
            refine ⟨w, .error e, ?_, ?_⟩
            · unfold ensureMyFiles
              rw [Dialogue.run_bind_ok hshare, Dialogue.run_bind_error hunlock]
            · exact ⟨nofun, by simp [hactives, hlocked], fun hc => absurd hc.1 hactives,
                fun _ => rfl⟩

/-- An account with one address, whose key is `1`. -/
def sampleAccount : AccountClient where
  defaultAddress := .ok ⟨"address", "me@proton.me", 1, 1, 0, "address-key"⟩
  addressPrivateKeys addressId :=
    if addressId = "address" then .ok [1] else .error (.invalidOperation "no keys for address")

/-- Everything is answered, and what is missing is so by a bare 404. -/
def sampleChoice : Choice where
  fate := .done
  absent := ⟨.api ⟨.unknown, 404, "not found", none⟩, rfl⟩
  stamp := ⟨1, "share", 10, "me@proton.me"⟩
  earlier volumes := ⟨2 + volumes.length, "other-share", 11, "me@proton.me"⟩
  secrets := ⟨⟨2, ⟨2, [20]⟩, [20], rfl⟩, ⟨3, ⟨3, [30]⟩, [30], rfl⟩, [40], 5, 6, 7, 8⟩

/-- A volume that was locked with a key which the account has lost. -/
def lostVolume : Volume where
  id := 0
  volumeType := none
  state := 3
  share := ⟨"old-share", ⟨4, [41]⟩, encrypt 9 1 [41], "address"⟩
  link := ⟨0, none, [], none, ⟨5, []⟩, [], none, none, none, none⟩

/-- The lost volume is replaced. -/
theorem ensureMyFiles_alone_sample :
    ∃ t r, ensureMyFiles.run answers sampleChoice ⟨[lostVolume], sampleAccount, [], 0, 0, 0⟩ = (t, r) ∧
      Settled ⟨[lostVolume], sampleAccount, [], 0, 0, 0⟩
        (created sampleChoice ⟨"address", "me@proton.me", 1, 1, 0, "address-key"⟩ 1) t r := by
  apply ensureMyFiles_alone rfl ⟨rfl, rfl, rfl⟩
  · rintro v ⟨⟩
    exact ⟨[1], rfl⟩
  · rintro v keys shareKey ⟨⟩ ⟨⟩ ⟨⟩

/-! ## Runs -/

/-- The same for the photos, whose absence is cached too and stays. -/
theorem photos_runs {ι : Type} [DecidableEq ι] {w : World}
    {as : List (Once.Action ι Choice Move)}
    {s : Once.State ι Question Question.Answer ProtonError (Option CachedVolume) World}
    (hrun : (Once.callers answers ensurePhotos).exec (Once.start w) as = some s) :
    s.world.actives + w.extra ≤ w.actives + s.world.extra ∧
    (∀ c, s.cell = some (some c) → Describes isPhotos c s.world) ∧
    (∀ i found, s.caller i = .returned (.ok found) → s.cell = some found) := by
  have hI : answers.Stable (fun t => t.actives + w.extra ≤ w.actives + t.extra) := by
    intro m t ht
    have hmove := move_actives m t
    show (t.move m).actives + w.extra ≤ w.actives + (t.move m).extra
    omega
  have hR : ∀ found : Option CachedVolume,
      answers.Stable (fun t => ∀ c, found = some c → Describes isPhotos c t) :=
    fun found m t ht c hc => Describes.stable isPhotos c m t (ht c hc)
  have hsound : Once.Sound s := (Once.Sound.start w).exec hrun
  have hkept := Once.Kept.exec hI hR (fun _ ht => ensurePhotos_safe hI ht) (Nat.le_refl _) hrun
  exact ⟨hkept.inv, fun c hc => hkept.full hc c rfl, fun i found hi => hsound.seen hi⟩

end ProtonDrive.Bootstrap
