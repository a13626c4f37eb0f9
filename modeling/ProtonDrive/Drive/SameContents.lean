import ProtonDrive.Lib.Forall2
import ProtonDrive.Drive.RoundTrip

/-!
# Downloads of the same contents

Two stores that hold the same plaintexts under the same indices, encrypted with whatever keys, are
told apart by no download: what a download does over the one, step by step, a download does over the
other, and it writes the same bytes, ends as the other does and fails as the other does.

* `Offers` — the other store has for each block one of the same plaintext.
* `downloadStep_alike` — every step can be followed.
* `downloads_alike` — so can every download.
-/

namespace ProtonDrive.Content

open OpenPgp (Bytes)

/-- The second store has, under every index of the first, a block of the same plaintext. -/
def Offers (cipher cipher' : Cipher) (stored stored' : List (Nat × Bytes)) : Prop :=
  ∀ i ciphertext, (i, ciphertext) ∈ stored →
    ∃ ciphertext', (i, ciphertext') ∈ stored' ∧
      cipher.decrypt ciphertext = cipher'.decrypt ciphertext'

/-! ## Alike -/

section Alike

variable (cipher cipher' : Cipher)

/-- Two calls at the same point, with ciphertexts of the same plaintext if they have any. -/
inductive FetchCall.Alike : FetchCall → FetchCall → Prop where
  | same {call : FetchCall} (h : ∀ ciphertext, call ≠ .done (.ok ciphertext)) : Alike call call
  | done {ciphertext ciphertext' : Bytes}
      (h : cipher.decrypt ciphertext = cipher'.decrypt ciphertext') :
      Alike (.done (.ok ciphertext)) (.done (.ok ciphertext'))

inductive BlockFetch.Alike : BlockFetch → BlockFetch → Prop where
  | calling {call call' : FetchCall} (h : call.Alike cipher cipher' call') :
      Alike (.calling call) (.calling call')
  | ready (digest digest' plaintext : Bytes) :
      Alike (.ready (.ok (digest, plaintext))) (.ready (.ok (digest', plaintext)))
  | failed (e : ProtonError) : Alike (.ready (.error e)) (.ready (.error e))

/-- Two downloads at the same point; their digests may differ. -/
structure Download.Alike (d d' : Download) : Prop where
  targets_eq : d'.targets = d.targets
  written_eq : d'.written = d.written
  window : List.Forall₂ (BlockFetch.Alike cipher cipher') d.window d'.window
  output_eq : d'.output = d.output
  finished_eq : d'.finished = d.finished
  error_eq : d'.error = d.error

end Alike

/-- The same action, but for the bytes that a fetch is answered with. -/
inductive DownloadAction.Alike : DownloadAction → DownloadAction → Prop where
  | same (a : DownloadAction) : Alike a a
  | answer (position : Nat) (ciphertext ciphertext' : Bytes) :
      Alike (.call position (.answer (.ok ciphertext))) (.call position (.answer (.ok ciphertext')))

/-! ## One step -/

variable {cipher cipher' : Cipher} {stored stored' : List (Nat × Bytes)} {d d' e : Download}

/-- A call gets to a ciphertext by an answer only. -/
theorem callStep_ne_done {t t' : BlockTargets} {index : Nat} {c c' : FetchCall} {a : CallAction}
    (h : callStep t index c a = some (t', c')) (ha : ∀ ciphertext, a ≠ .answer (.ok ciphertext))
    (ciphertext : Bytes) : c' ≠ .done (.ok ciphertext) := by
  have hlocate : ∀ retried, t.locate index retried ≠ .done (.ok ciphertext) := by
    intro retried
    unfold BlockTargets.locate
    split <;> simp
  unfold callStep at h
  split at h
  · cases h
    -- Only an answer of the storage ends a call well; every other step goes on or fails.
    exact hlocate false
  · next ciphertext' => exact absurd rfl (ha ciphertext')
  · split at h <;> cases h <;> simp
  · split at h
    · cases h
    · split at h <;> cases h <;> simp
  · next reply =>
      have hpair := congrArg Prod.snd (Option.some.inj h)
      rw [show c' = (t.install reply).2 from hpair.symm]
      unfold BlockTargets.install
      split
      · simp
      · split <;> simp
  · cases h
    exact hlocate true
  · cases h

/-- A step of a call can be followed. -/
theorem callStep_alike (hoffers : Offers cipher cipher' stored stored') {t t' : BlockTargets}
    {index : Nat} {c c₁ c' : FetchCall} {a : CallAction} (halike : c.Alike cipher cipher' c')
    (hserves : Serves stored c a = true) (h : callStep t index c a = some (t', c₁)) :
    ∃ a' c₁', (∀ position, DownloadAction.Alike (.call position a) (.call position a')) ∧
      Serves stored' c' a' = true ∧ callStep t index c' a' = some (t', c₁') ∧
      c₁.Alike cipher cipher' c₁' := by
  cases halike with
  | done _ => cases h
  | same hne =>
      by_cases ha : ∃ ciphertext, a = .answer (.ok ciphertext)
      · -- The storage answers: the other download gets the ciphertext of the same plaintext.
        obtain ⟨ciphertext, rfl⟩ := ha
        cases c with
        | fetching block generation retried =>
            cases h
            have hmem : (block.index.toNat, ciphertext) ∈ stored := by simpa [Serves] using hserves
            obtain ⟨ciphertext', hmem', hplain⟩ := hoffers _ _ hmem
            exact ⟨.answer (.ok ciphertext'), .done (.ok ciphertext'),
              fun position => .answer position ciphertext ciphertext',
              by simpa [Serves] using hmem', rfl, .done hplain⟩
        | _ => cases h
      · -- Any other action reads nothing of the ciphertext, so both calls take it alike.
        have ha' : ∀ ciphertext, a ≠ .answer (.ok ciphertext) := fun ciphertext heq =>
          ha ⟨ciphertext, heq⟩
        have hserves' : Serves stored' c a = true := by
          unfold Serves
          split
          · exact absurd rfl (ha' _)
          · rfl
        exact ⟨a, c₁, fun position => .same _, hserves', h, .same (callStep_ne_done h ha')⟩

/-- Decrypting tells alike calls apart by the digest only. -/
theorem digestAndDecryptBlock_alike {result result' : Except ProtonError Bytes}
    (h : (FetchCall.done result).Alike cipher cipher' (.done result')) (crash : Option String) :
    (BlockFetch.ready (digestAndDecryptBlock cipher crash result)).Alike cipher cipher'
      (.ready (digestAndDecryptBlock cipher' crash result')) := by
  cases h with
  | same hne =>
      cases result with
      | error e => exact .failed e
      | ok ciphertext => exact absurd rfl (hne ciphertext)
  | @done ciphertext ciphertext' hplain =>
      cases crash with
      | some text => exact .failed _
      | none =>
          show BlockFetch.Alike cipher cipher' (.ready ((cipher.decrypt ciphertext).map _))
            (.ready ((cipher'.decrypt ciphertext').map _))
          rw [← hplain]
          cases cipher.decrypt ciphertext with
          | error e => exact .failed e
          | ok plaintext => exact .ready _ _ plaintext

/-- A download that can take a step has not ended, and neither has the one that is alike. -/
theorem Download.Alike.open (h : d.Alike cipher cipher' d') {a : DownloadAction}
    (hstep : downloadStep cipher stored d a = some e) :
    ¬ (d.error.isSome || d.finished) = true ∧ ¬ (d'.error.isSome || d'.finished) = true := by
  obtain ⟨herror, hfinished, -⟩ := downloadStep_cases hstep
  have hopen : ¬ (d.error.isSome || d.finished) = true := by simp [herror, hfinished]
  refine ⟨hopen, ?_⟩
  rw [h.error_eq, h.finished_eq]
  exact hopen

/-- A step of a call over the table that both share, with an answer for the other ciphertext. -/
theorem call_alike (hoffers : Offers cipher cipher' stored stored')
    (h : d.Alike cipher cipher' d') {position : Nat} {a : CallAction}
    (hstep : downloadStep cipher stored d (.call position a) = some e) :
    ∃ a' e', (DownloadAction.call position a).Alike a' ∧
      downloadStep cipher' stored' d' a' = some e' ∧ e.Alike cipher cipher' e' := by
  -- Both downloads are open, and the position holds a call in both windows.
  obtain ⟨hopen, hopen'⟩ := h.open hstep
  unfold downloadStep at hstep ⊢
  rw [if_neg hopen] at hstep
  simp only [if_neg hopen']
  dsimp only at hstep
  split at hstep
  · next c hc =>
    obtain ⟨hserves, hstep⟩ := Option.ite_none_right_eq_some.mp hstep
    obtain ⟨⟨targets, c₁⟩, hcall, hd⟩ := Option.map_eq_some_iff.mp hstep
    cases hd
    obtain ⟨f, hf, halike⟩ := h.window.exists_getElem? hc
    cases halike with
    | @calling _ c' halike =>
      obtain ⟨a', c₁', haction, hserves', hcall', halike'⟩ :=
        callStep_alike hoffers halike hserves hcall
      refine ⟨.call position a',
        { d' with targets := targets, window := d'.window.set position (.calling c₁') },
        haction position, ?_, ⟨rfl, h.written_eq,
          h.window.set position (.calling halike'), h.output_eq, h.finished_eq,
          h.error_eq⟩⟩
      rw [← h.targets_eq, ← h.written_eq] at hcall'
      simp only [hf, hserves', if_true, hcall', Option.map_some]
  · cases hstep

/-- What is written is the plaintext, whichever ciphertext it came from; only the manifests differ. -/
theorem write_alike (h : d.Alike cipher cipher' d')
    (hstep : downloadStep cipher stored d .write = some e) :
    ∃ a' e', DownloadAction.write.Alike a' ∧ downloadStep cipher' stored' d' a' = some e' ∧
      e.Alike cipher cipher' e' := by
  obtain ⟨hopen, hopen'⟩ := h.open hstep
  unfold downloadStep at hstep ⊢
  rw [if_neg hopen] at hstep
  simp only [if_neg hopen']
  dsimp only at hstep
  have hwindow := h.window
  split at hstep
  · next digest plaintext window hw =>
    cases hstep
    rw [hw] at hwindow
    obtain ⟨f, window', halike, hrest, hw'⟩ := List.forall₂_cons_left_iff.mp hwindow
    cases halike with
    | ready _ digest' _ =>
      refine ⟨.write,
        { d' with
          window := window'
          written := d'.written + 1
          output := d'.output ++ plaintext
          manifest := d'.manifest ++ digest' }, .same _, by simp only [hw'],
        ⟨h.targets_eq, ?_, hrest, ?_, h.finished_eq, h.error_eq⟩⟩
      · exact congrArg (· + 1) h.written_eq
      · exact congrArg (· ++ plaintext) h.output_eq
  · -- The first block of the window has failed, and ends both downloads.
    next e' window hw =>
    cases hstep
    rw [hw] at hwindow
    obtain ⟨f, window', halike, -, hw'⟩ := List.forall₂_cons_left_iff.mp hwindow
    cases halike with
    | failed _ =>
      exact ⟨.write, { d' with error := some e' }, .same _, by simp only [hw'],
        { h with error_eq := rfl }⟩
  · cases hstep

/-- **Every step can be followed.** -/
theorem downloadStep_alike (hoffers : Offers cipher cipher' stored stored')
    (h : d.Alike cipher cipher' d') {a : DownloadAction}
    (hstep : downloadStep cipher stored d a = some e) :
    ∃ a' e', a.Alike a' ∧ downloadStep cipher' stored' d' a' = some e' ∧
      e.Alike cipher cipher' e' := by
  obtain ⟨hopen, hopen'⟩ := h.open hstep
  have hlength := h.window.length_eq
  have hcount : d'.blockCount = d.blockCount := congrArg BlockTargets.expectedBlocks h.targets_eq
  cases a with
  | call position a => exact call_alike hoffers h hstep
  | write => exact write_alike h hstep
  | start =>
      -- Both windows have the same length, so there is room in both or in neither.
      unfold downloadStep at hstep ⊢
      rw [if_neg hopen] at hstep
      simp only [if_neg hopen']
      obtain ⟨hroom, hd⟩ := Option.ite_none_right_eq_some.mp hstep
      cases hd
      refine ⟨.start, { d' with window := d'.window ++ [.calling .idle] }, .same _, if_pos ?_,
        { h with window := ?_ }⟩
      · rwa [← hlength, h.written_eq, hcount]
      · exact List.rel_append h.window (.cons (.calling (.same (by simp))) .nil)
  | decrypt position crash =>
      unfold downloadStep at hstep ⊢
      rw [if_neg hopen] at hstep
      simp only [if_neg hopen']
      dsimp only at hstep
      split at hstep
      · next result hresult =>
        cases hstep
        obtain ⟨f, hf, halike⟩ := h.window.exists_getElem? hresult
        cases halike with
        | @calling _ c' halike =>
          -- The call at the same place is done too, with what is the same block.
          obtain ⟨result', rfl⟩ : ∃ result', c' = .done result' := by
            cases halike <;> exact ⟨_, rfl⟩
          refine ⟨.decrypt position crash,
            { d' with
              window := d'.window.set position
                (.ready (digestAndDecryptBlock cipher' crash result')) }, .same _, ?_,
            ⟨h.targets_eq, h.written_eq,
              h.window.set position (digestAndDecryptBlock_alike halike crash),
              h.output_eq, h.finished_eq, h.error_eq⟩⟩
          simp only [hf]
      · cases hstep
  | writeFailed text =>
      unfold downloadStep at hstep ⊢
      rw [if_neg hopen] at hstep
      simp only [if_neg hopen']
      dsimp only at hstep
      have hwindow := h.window
      split at hstep
      · next result window hw =>
        cases hstep
        rw [hw] at hwindow
        obtain ⟨f, window', halike, -, hw'⟩ := List.forall₂_cons_left_iff.mp hwindow
        cases halike with
        | ready _ digest' _ =>
          exact ⟨.writeFailed text,
            { d' with error := some (.invalidOperation ("write block: " ++ text)) }, .same _,
            by simp only [hw'], { h with error_eq := rfl }⟩
      · cases hstep
  | finish =>
      unfold downloadStep at hstep ⊢
      rw [if_neg hopen] at hstep
      simp only [if_neg hopen']
      obtain ⟨hdone, hd⟩ := Option.ite_none_right_eq_some.mp hstep
      cases hd
      refine ⟨.finish, { d' with finished := true }, .same _, if_pos ?_,
        { h with finished_eq := rfl }⟩
      rw [hcount, h.written_eq]
      rw [Bool.and_eq_true, List.isEmpty_iff_length_eq_zero] at hdone ⊢
      rwa [← hlength]

/-- **Every download can be followed**, and the one that follows it writes the same, ends where it
ends and fails where it fails. -/
theorem downloads_alike (hoffers : Offers cipher cipher' stored stored') {start : Download}
    (hstart : start.window = []) {as : List DownloadAction}
    (hrun : (downloads cipher stored).exec start as = some d) :
    ∃ as' d', List.Forall₂ DownloadAction.Alike as as' ∧
      (downloads cipher' stored').exec start as' = some d' ∧ d'.output = d.output ∧
      d'.finished = d.finished ∧ d'.error = d.error := by
  have hself : start.Alike cipher cipher' start := by
    refine ⟨rfl, rfl, ?_, rfl, rfl, rfl⟩
    rw [hstart]
    exact .nil
  obtain ⟨as', d', has, hrun', halike⟩ := Machine.exec_simulates (downloads cipher stored)
    (N := downloads cipher' stored') (Download.Alike cipher cipher') DownloadAction.Alike
    (fun h hs => downloadStep_alike hoffers h hs) hself hrun
  exact ⟨as', d', has, hrun', halike.output_eq, halike.finished_eq, halike.error_eq⟩

end ProtonDrive.Content
