import ProtonDrive.Drive.Node
import ProtonDrive.Sdk.PublicKeys

/-!
# Inviting users

`invite_users` sends those whose email has public keys an invitation with an encrypted key packet, and
everybody else an external one. It asks `public_keys`, which does not tell a failed lookup from an
email without keys, so after a failed lookup a Proton user is invited as an external one.
-/

namespace ProtonDrive.PublicKeys

open Program (modify ofExcept within)

/-- An email and a role, with what the server would answer to the lookup of the email. -/
structure Invitee where
  call : KeysCall
  role : MemberRole

def Invitee.pair (i : Invitee) : String × MemberRole := (i.call.email, i.role)

/-- The account client's part, and the lists handed to `share_node` and `invite_external_users`. -/
structure InviteState (K : Type) where
  account : State K
  shared : List (List (String × MemberRole))
  external : List (List (String × MemberRole))

variable {K : Type}

section

variable (fromArmored : String → Except String K)

/-- The loop over the invitees. -/
def route : List Invitee → (proton external : List (String × MemberRole)) →
    Program (State K) ProtonError (List (String × MemberRole) × List (String × MemberRole))
  | [], proton, external => return (proton, external)
  | invitee :: invitees, proton, external => do
      let keys ← publicKeys fromArmored invitee.call
      if keys.isEmpty then route invitees proton (external ++ [invitee.pair])
      else route invitees (proton ++ [invitee.pair]) external

/-- Invite those on a list, if there are any. `invite` says how many it invites, or how it fails. -/
def inviteBatch (record : InviteState K → InviteState K)
    (invite : List (String × MemberRole) → Except ProtonError Nat)
    (batch : List (String × MemberRole)) : Program (InviteState K) ProtonError Nat :=
  if batch.isEmpty then pure 0
  else do
    modify record
    ofExcept (invite batch)

def inviteUsers (shareNode inviteExternalUsers : List (String × MemberRole) → Except ProtonError Nat)
    (invitees : List Invitee) : Program (InviteState K) ProtonError (Nat × Nat) := do
  let (proton, external) ← within InviteState.account (fun s account => { s with account := account })
    (route fromArmored invitees [] [])
  let protonInvited ←
    inviteBatch (fun s => { s with shared := s.shared ++ [proton] }) shareNode proton
  let externalInvited ←
    inviteBatch (fun s => { s with external := s.external ++ [external] }) inviteExternalUsers external
  return (protonInvited, externalInvited)

end

section

variable {fromArmored : String → Except String K}

/-- Who has no keys, as far as the lookups of these calls tell. -/
def WithoutKeys (fromArmored : String → Except String K) (calls : List KeysCall) (i : Invitee) :
    Bool :=
  (keysFor fromArmored calls i.call.email).isEmpty

theorem run_route {before : List KeysCall} {s : State K} (h : After fromArmored before s)
    (invitees : List Invitee) (proton external : List (String × MemberRole)) :
    ∃ s', (route fromArmored invitees proton external).run s =
        some (s', .ok
          (proton ++ (invitees.filter (fun i => !WithoutKeys fromArmored
            (before ++ invitees.map Invitee.call) i)).map Invitee.pair,
          external ++ (invitees.filter (WithoutKeys fromArmored
            (before ++ invitees.map Invitee.call))).map Invitee.pair)) ∧
      After fromArmored (before ++ invitees.map Invitee.call) s' := by
  induction invitees generalizing before s proton external with
  | nil => exact ⟨s, by simp [route], by simpa using h⟩
  | cons i invitees ih =>
      -- The email is asked for once; later calls use the first answer.
      obtain ⟨s₁, first, hrun, hfirst, h₁⟩ := run_publicKeys h i.call
      have happend : before ++ [i.call] ++ invitees.map Invitee.call =
          before ++ (i :: invitees).map Invitee.call := by simp
      have hall := firstCall_append (invitees.map Invitee.call) hfirst
      rw [happend] at hall
      have hwithout : WithoutKeys fromArmored (before ++ (i :: invitees).map Invitee.call) i =
          (keysOf fromArmored first.answer).isEmpty := by
        unfold WithoutKeys keysFor
        rw [hall]
        rfl
      unfold route
      rw [Program.bind_ok hrun]
      -- Without keys the invitee is external, whatever the reason.
      cases hempty : (keysOf fromArmored first.answer).isEmpty with
      | true =>
          obtain ⟨s₂, hrun₂, h₂⟩ := ih h₁ proton (external ++ [i.pair])
          rw [happend] at hrun₂ h₂
          refine ⟨s₂, ?_, h₂⟩
          rw [if_pos rfl, hrun₂]
          generalize before ++ (i :: invitees).map Invitee.call = calls at hwithout
          simp [hwithout, hempty]
      | false =>
          obtain ⟨s₂, hrun₂, h₂⟩ := ih h₁ (proton ++ [i.pair]) external
          rw [happend] at hrun₂ h₂
          refine ⟨s₂, ?_, h₂⟩
          rw [if_neg Bool.false_ne_true, hrun₂]
          generalize before ++ (i :: invitees).map Invitee.call = calls at hwithout
          simp [hwithout, hempty]

theorem run_inviteBatch (record : InviteState K → InviteState K)
    (invite : List (String × MemberRole) → Except ProtonError Nat)
    (batch : List (String × MemberRole)) (s : InviteState K) :
    (inviteBatch record invite batch).run s =
      if batch.isEmpty then some (s, .ok 0) else some (record s, invite batch) := by
  unfold inviteBatch
  split <;> rfl

/-- Only those without keys are handed to `invite_external_users`, and all of them if the other
invitations went out. -/
theorem run_inviteUsers {before : List KeysCall} {s : State K} (h : After fromArmored before s)
    (shareNode inviteExternalUsers : List (String × MemberRole) → Except ProtonError Nat)
    (invitees : List Invitee) :
    ∃ s' r, (inviteUsers fromArmored shareNode inviteExternalUsers invitees).run ⟨s, [], []⟩ =
        some (s', r) ∧
      After fromArmored (before ++ invitees.map Invitee.call) s'.account ∧
      (∀ batch ∈ s'.external, ∀ p ∈ batch, ∃ i ∈ invitees, i.pair = p ∧
        WithoutKeys fromArmored (before ++ invitees.map Invitee.call) i) ∧
      ((∀ batch, ∃ n, shareNode batch = .ok n) → ∀ i ∈ invitees,
        WithoutKeys fromArmored (before ++ invitees.map Invitee.call) i →
        ∃ batch ∈ s'.external, i.pair ∈ batch) := by
  obtain ⟨s₁, hrun, h₁⟩ := run_route h invitees [] []
  generalize before ++ invitees.map Invitee.call = calls at hrun h₁ ⊢
  rw [List.nil_append, List.nil_append] at hrun
  generalize (invitees.filter (fun i => !WithoutKeys fromArmored calls i)).map Invitee.pair = proton
    at hrun
  have hmem : ∀ p, p ∈ (invitees.filter (WithoutKeys fromArmored calls)).map Invitee.pair ↔
      ∃ i ∈ invitees, i.pair = p ∧ WithoutKeys fromArmored calls i := by
    intro p
    simp only [List.mem_map, List.mem_filter]
    constructor
    · rintro ⟨i, ⟨hi, hw⟩, rfl⟩
      exact ⟨i, hi, rfl, hw⟩
    · rintro ⟨i, hi, rfl, hw⟩
      exact ⟨i, ⟨hi, hw⟩, rfl⟩
  generalize (invitees.filter (WithoutKeys fromArmored calls)).map Invitee.pair = external
    at hrun hmem
  have hroute : (within InviteState.account (fun s account => { s with account := account })
      (route fromArmored invitees [] [])).run ⟨s, [], []⟩ =
        some (⟨s₁, [], []⟩, .ok (proton, external)) := Program.within_run hrun
  -- The invitations with a key packet go out first, and may fail.
  obtain ⟨shared, r₁, hshare, hr₁⟩ : ∃ shared r₁,
      (inviteBatch (fun s => { s with shared := s.shared ++ [proton] }) shareNode proton).run
        ⟨s₁, [], []⟩ = some ((⟨s₁, shared, []⟩ : InviteState K), r₁) ∧
      ((∀ batch, ∃ n, shareNode batch = .ok n) → ∃ n, r₁ = .ok n) := by
    rw [run_inviteBatch]
    split
    · exact ⟨[], .ok 0, rfl, fun _ => ⟨0, rfl⟩⟩
    · exact ⟨[proton], shareNode proton, rfl, fun hok => hok proton⟩
  obtain ⟨sent, r₂, hsend, hsent⟩ : ∃ sent r₂,
      (inviteBatch (fun s => { s with external := s.external ++ [external] }) inviteExternalUsers
        external).run ⟨s₁, shared, []⟩ = some ((⟨s₁, shared, sent⟩ : InviteState K), r₂) ∧
      ∀ p, p ∈ external ↔ ∃ batch ∈ sent, p ∈ batch := by
    rw [run_inviteBatch]
    split
    · next hempty =>
      refine ⟨[], .ok 0, rfl, ?_⟩
      rw [List.isEmpty_iff.mp hempty]
      simp
    · exact ⟨[external], inviteExternalUsers external, rfl, by simp⟩
  unfold inviteUsers
  rw [Program.bind_ok hroute]
  dsimp only
  cases r₁ with
  | error e =>
      refine ⟨_, .error e, Program.bind_error hshare, h₁, ?_, ?_⟩
      · intro batch hbatch
        cases hbatch
      · intro hok
        obtain ⟨n, hn⟩ := hr₁ hok
        cases hn
  | ok n =>
      rw [Program.bind_ok hshare]
      have hout : (∀ batch ∈ sent, ∀ p ∈ batch, ∃ i ∈ invitees, i.pair = p ∧
          WithoutKeys fromArmored calls i) ∧
          ∀ i ∈ invitees, WithoutKeys fromArmored calls i → ∃ batch ∈ sent, i.pair ∈ batch := by
        constructor
        · intro batch hbatch p hp
          exact (hmem p).mp ((hsent p).mpr ⟨batch, hbatch, hp⟩)
        · intro i hi hwithout
          exact (hsent i.pair).mp ((hmem i.pair).mpr ⟨i, hi, rfl, hwithout⟩)
      cases r₂ with
      | error e => exact ⟨_, .error e, Program.bind_error hsend, h₁, hout.1, fun _ => hout.2⟩
      | ok m => exact ⟨_, .ok (n, m), Program.bind_ok hsend, h₁, hout.1, fun _ => hout.2⟩

/-- During the call the server answers each lookup of this invitee with keys. -/
def HasKeys (fromArmored : String → Except String K) (invitees : List Invitee)
    (p : String × MemberRole) : Prop :=
  ∀ i ∈ invitees, i.pair = p →
    ∃ entries, i.call.answer = .ok entries ∧ parsable fromArmored entries ≠ []

/-- Without keys although the server has some: the first lookup failed, or it found none. -/
theorem withoutKeys_iff {calls : List KeysCall} {s : State K} (h : After fromArmored calls s)
    {i : Invitee} (hi : i.call ∈ calls) :
    WithoutKeys fromArmored calls i ↔
      (∃ first e, firstCall calls i.call.email = some first ∧ first.answer = .error e) ∨
      ∃ request ∈ s.requests, request.email = i.call.email ∧
        ∃ earlier, request.answer = .ok earlier ∧ parsable fromArmored earlier = [] := by
  obtain ⟨first, hfirst, hasked⟩ := h.exists_firstCall hi
  have hkeys : WithoutKeys fromArmored calls i ↔ keysOf fromArmored first.answer = [] := by
    unfold WithoutKeys keysFor
    rw [hfirst, List.isEmpty_iff]
    rfl
  rw [hkeys]
  constructor
  · -- There are no keys because the first lookup failed, or because the server had none.
    intro hempty
    cases hlookup : first.answer with
    | error e => exact .inl ⟨first, e, hfirst, hlookup⟩
    | ok earlier =>
        rw [hlookup] at hempty
        obtain ⟨request, hmem, hemail, hrequest⟩ := (hasked _).mpr hlookup
        exact .inr ⟨request, hmem, hemail, earlier, hrequest, hempty⟩
  · rintro (⟨first', e, hfirst', herror⟩ | ⟨request, hmem, hemail, earlier, hearlier, hempty⟩)
    · rw [hfirst] at hfirst'
      cases hfirst'
      rw [herror]
      rfl
    · rw [(hasked _).mp ⟨request, hmem, hemail, hearlier⟩]
      exact hempty

/-- A failed lookup is forgotten exactly if it is not the first one of an email for which the server
has keys later on: in every run of calls, and in every round of invitations after it. -/
theorem failed_lookup_forgotten_iff (fromArmored : String → Except String K)
    (calls : List KeysCall) (invitees : List Invitee) :
    ((∀ s rs, (Program.traverse (publicKeys fromArmored) calls).run State.start = some (s, .ok rs) →
        ∀ (n : Nat) call keys, calls[n]? = some call → rs[n]? = some keys →
          KeysCurrent fromArmored s.requests call keys) ↔
      ∀ call ∈ calls, NotForgotten fromArmored calls call) ∧
    ((∀ s rs, (Program.traverse (publicKeys fromArmored) calls).run State.start = some (s, .ok rs) →
        ∀ shareNode inviteExternalUsers s' r,
          (inviteUsers fromArmored shareNode inviteExternalUsers invitees).run ⟨s, [], []⟩ =
            some (s', r) →
          ∀ batch ∈ s'.external, ∀ p ∈ batch, HasKeys fromArmored invitees p →
            ∃ request ∈ s'.account.requests, request.email = p.1 ∧
              ∃ earlier, request.answer = .ok earlier ∧ parsable fromArmored earlier = []) ↔
      ∀ i ∈ invitees, HasKeys fromArmored invitees i.pair → ∀ first e,
        firstCall (calls ++ invitees.map Invitee.call) i.call.email = some first →
          first.answer ≠ .error e) := by
  obtain ⟨s, hrun, h⟩ := run_calls (after_start : After fromArmored [] State.start) calls
  rw [List.nil_append] at hrun h
  constructor
  · constructor
    · -- In each half, the one run that there is decides.
      intro hcurrent call hcall
      obtain ⟨n, hn⟩ := List.getElem?_of_mem hcall
      rw [← keysCurrent_iff h hcall]
      exact hcurrent s _ hrun n call _ hn (by rw [List.getElem?_map, hn]; rfl)
    · intro hforgotten s' rs hrun' n call keys hcall hkeys
      rw [hrun] at hrun'
      cases hrun'
      rw [List.getElem?_map, hcall] at hkeys
      cases hkeys
      have hmem := List.mem_of_getElem? hcall
      exact (keysCurrent_iff h hmem).mpr (hforgotten call hmem)
  · constructor
    · intro hexternal i hi hhas first e hfirst herror
      obtain ⟨s', r, hinvite, hafter, -, hall⟩ :=
        run_inviteUsers h (fun _ => .ok 0) (fun _ => .ok 0) invitees
      have hmem : i.call ∈ calls ++ invitees.map Invitee.call :=
        List.mem_append_right _ (List.mem_map_of_mem hi)
      -- With a server that accepts every invitation all those without keys are invited.
      obtain ⟨batch, hbatch, hp⟩ := hall (fun _ => ⟨0, rfl⟩) i hi
        ((withoutKeys_iff hafter hmem).mpr (.inl ⟨first, e, hfirst, herror⟩))
      obtain ⟨request, hrequest, hemail, earlier, hearlier, -⟩ :=
        hexternal s _ hrun _ _ s' r hinvite batch hbatch i.pair hp hhas
      obtain ⟨first', hfirst', hanswer⟩ :=
        (hafter.asked i.call.email _).mp ⟨request, hrequest, hemail, hearlier⟩
      rw [hfirst] at hfirst'
      cases hfirst'
      rw [herror] at hanswer
      cases hanswer
    · intro hforgotten s₀ rs hrun₀ shareNode inviteExternalUsers s' r hinvite batch hbatch p hp hhas
      rw [hrun] at hrun₀
      cases hrun₀
      obtain ⟨s'', r', hinvite', hafter, hout, -⟩ :=
        run_inviteUsers h shareNode inviteExternalUsers invitees
      rw [hinvite] at hinvite'
      cases hinvite'
      obtain ⟨i, hi, rfl, hwithout⟩ := hout batch hbatch p hp
      have hmem : i.call ∈ calls ++ invitees.map Invitee.call :=
        List.mem_append_right _ (List.mem_map_of_mem hi)
      -- Without keys: the lookup failed, which the condition excludes, or the server had none.
      rcases (withoutKeys_iff hafter hmem).mp hwithout with ⟨first, e, hfirst, herror⟩ | hfound
      · exact absurd herror (hforgotten i hi hhas first e hfirst)
      · exact hfound

end

/-- The server, which could not be reached, answers again; the email is still invited as that of
nobody who has keys. -/
theorem timeout_remembered :
    ∃ s, (Program.traverse (publicKeys (.ok : String → Except String String))
        [⟨"me@example.test", .error (.transport ⟨true, false, false, "timed out"⟩)⟩,
          ⟨"me@example.test", .ok [⟨3, "key"⟩]⟩]).run State.start = some (s, .ok [[], []]) ∧
      parsable (.ok : String → Except String String) [⟨3, "key"⟩] = ["key"] ∧
      ((inviteUsers (.ok : String → Except String String) (fun _ => .ok 1) (fun _ => .ok 1)
        [⟨⟨"me@example.test", .ok [⟨3, "key"⟩]⟩, .editor⟩]).run ⟨s, [], []⟩).map
          (fun p => (p.1.shared, p.1.external)) =
        some ([], [[("me@example.test", .editor)]]) :=
  ⟨_, rfl, rfl, rfl⟩

end ProtonDrive.PublicKeys
