import ProtonDrive.Lib.Except
import ProtonDrive.Lib.Machine
import ProtonDrive.Lib.Triples

/-!
# Servers that are asked over a lossy line

A server is a state that requests change. Of each request it is decided beforehand what becomes of it:
it does not get through, it is carried out, or it is carried out and the answer is lost. In the last
case it may be sent again, by a layer that its asker knows nothing of, and then be carried out once
more. A program that sends more requests than were decided has the rest carried out and answered.

* `Repeats`, `Copies` — a request that is carried out several times, and how often.
* `Triple.tell` — what a request leaves behind, whatever becomes of it.
* `Triple.put` — a request that does nothing more when it is repeated.
* `Triple.ask`, `Triple.answered` — a request that only reads.
* `Triple.component` — a program over a part of the server.
* `client`, `client_accounts` — programs one after the other, and what they do to an abstract list of
  what the server has.
-/

inductive Fate (ε : Type) where
  | refused (e : ε)
  | done
  | lost (e : ε)
  /-- The answer is lost, and the request is sent again. -/
  | resent (again : Fate ε)

/-- A server, and what becomes of the requests to come. -/
structure Online (σ ε : Type) where
  server : σ
  fates : List (Fate ε)

/-- Not every request is carried out and answered. -/
def Disturbed {ε : Type} (fates : List (Fate ε)) : Prop := ∃ fate ∈ fates, fate ≠ .done

/-- The request is not sent again after it was carried out. -/
def Fate.Single {ε : Type} (fate : Fate ε) : Prop := ∀ again, fate ≠ .resent again

/-- No request is. -/
def Unrepeated {ε : Type} (fates : List (Fate ε)) : Prop := ∀ fate ∈ fates, fate.Single

/-- How often the request reaches the server. -/
def Fate.copies {ε : Type} : Fate ε → Nat
  | .refused _ => 0
  | .done => 1
  | .lost _ => 1
  | .resent again => again.copies + 1

/-- A request may be carried out so often: once at most, or as often as one of the fates has it. -/
def Copies {ε : Type} (fates : List (Fate ε)) (n : Nat) : Prop :=
  n ≤ 1 ∨ ∃ fate ∈ fates, fate.copies = n

theorem Copies.le_one {ε : Type} {fates : List (Fate ε)} {n : Nat} (h : Copies fates n)
    (hunrepeated : Unrepeated fates) : n ≤ 1 := by
  rcases h with h | ⟨fate, hmem, rfl⟩
  · exact h
  · cases fate with
    | refused e => exact Nat.zero_le 1
    | done => exact Nat.le_refl 1
    | lost e => exact Nat.le_refl 1
    | resent again => exact absurd rfl (hunrepeated _ hmem again)

/-- The server is in this state, and the fates of these requests are not all used up. -/
structure Online.At {σ ε : Type} (fates : List (Fate ε)) (server : σ) (s : Online σ ε) : Prop where
  server_eq : s.server = server
  fates_suffix : s.fates <:+ fates

/-! ## One request -/

section

variable {σ ε α : Type}

/-- What a request does when it is carried out. -/
def carriedOut (answer : σ → Except ε (σ × α)) (s : σ) : σ :=
  match answer s with
  | .ok (t, _) => t
  | .error _ => s

/-- What a request leaves behind, and what its asker hears. -/
def Fate.deliver (answer : σ → Except ε (σ × α)) : Fate ε → σ → σ × Except ε α
  | .refused e, s => (s, .error e)
  | .done, s => (carriedOut answer s, (answer s).map Prod.snd)
  | .lost e, s => (carriedOut answer s, .error e)
  | .resent again, s => again.deliver answer (carriedOut answer s)

/-- Carried out again and again, the request is answered like this. -/
inductive Repeats (answer : σ → Except ε (σ × α)) : σ → List α → σ → Prop
  | nil {s : σ} : Repeats answer s [] s
  | cons {s t u : σ} {a : α} {as : List α} (hanswer : answer s = .ok (t, a))
      (hrest : Repeats answer t as u) : Repeats answer s (a :: as) u

variable {answer : σ → Except ε (σ × α)} {s t u : σ} {a : α} {as bs : List α}

theorem Repeats.append (h : Repeats answer s as t) (h' : Repeats answer t bs u) :
    Repeats answer s (as ++ bs) u := by
  induction h with
  | nil => exact h'
  | cons hanswer _ ih => exact .cons hanswer (ih h')

theorem Repeats.single (hanswer : answer s = .ok (t, a)) : Repeats answer s [a] t :=
  .cons hanswer .nil

/-- What every request keeps, if it is carried out, holds after them all. -/
theorem Repeats.keeps {I : σ → Prop} (hI : ∀ s t a, answer s = .ok (t, a) → I s → I t)
    (h : Repeats answer s as t) (hs : I s) : I t := by
  induction h with
  | nil => exact hs
  | cons hanswer _ ih => exact ih (hI _ _ _ hanswer hs)

/-- A request that does and answers the same when it is repeated, or is refused then. -/
def Settles (answer : σ → Except ε (σ × α)) (s : σ) : Prop :=
  ∀ t a, answer s = .ok (t, a) → ∀ u b, answer t = .ok (u, b) → u = t ∧ b = a

/-- Where the request changes nothing more, all its answers are the same. -/
theorem Repeats.stays (h : Repeats answer s as t)
    (hstays : ∀ u b, answer s = .ok (u, b) → u = s ∧ b = a) : t = s ∧ ∀ b ∈ as, b = a := by
  induction h with
  | nil => exact ⟨rfl, nofun⟩
  | cons hanswer _ ih =>
      obtain ⟨rfl, rfl⟩ := hstays _ _ hanswer
      obtain ⟨ht, has⟩ := ih hstays
      exact ⟨ht, List.forall_mem_cons.mpr ⟨rfl, has⟩⟩

/-- So only the first time counts. -/
theorem Repeats.settled (h : Repeats answer s as t) (hsettles : Settles answer s) :
    as = [] ∧ t = s ∨ ∃ a, answer s = .ok (t, a) ∧ ∀ b ∈ as, b = a := by
  cases h with
  | nil => exact .inl ⟨rfl, rfl⟩
  | cons hanswer hrest =>
      obtain ⟨rfl, has⟩ := hrest.stays (hsettles _ _ hanswer)
      exact .inr ⟨_, hanswer, List.forall_mem_cons.mpr ⟨rfl, has⟩⟩

/-- The server never refuses the request, however often it is carried out. -/
def Accepts (answer : σ → Except ε (σ × α)) (s : σ) : Prop :=
  ∀ as t, Repeats answer s as t → ∃ p, answer t = .ok p

theorem Accepts.after (h : Accepts answer s) (hrepeats : Repeats answer s as t) : Accepts answer t :=
  fun bs u hrest => h (as ++ bs) u (hrepeats.append hrest)

/-- What makes the server accept the request is kept by it. -/
theorem Accepts.of_keeps {I : σ → Prop} (hI : ∀ s, I s → ∃ t a, answer s = .ok (t, a) ∧ I t)
    (hs : I s) : Accepts answer s := by
  intro as t hrepeats
  have ht : I t := by
    apply hrepeats.keeps _ hs
    intro s t a hanswer hs
    obtain ⟨t', a', hanswer', ht'⟩ := hI s hs
    cases hanswer.symm.trans hanswer'
    exact ht'
  obtain ⟨u, a, hanswer, -⟩ := hI t ht
  exact ⟨(u, a), hanswer⟩

theorem repeats_carriedOut (answer : σ → Except ε (σ × α)) (s : σ) :
    ∃ as, Repeats answer s as (carriedOut answer s) ∧ (Accepts answer s → as.length = 1) := by
  unfold carriedOut
  cases hanswer : answer s with
  | error e =>
      refine ⟨[], .nil, fun haccepts => ?_⟩
      obtain ⟨p, hp⟩ := haccepts [] s .nil
      cases hanswer.symm.trans hp
  | ok p => exact ⟨[p.2], .single hanswer, fun _ => rfl⟩

/-- The asker hears the last answer. -/
theorem Fate.deliver_ok {fate : Fate ε} (h : fate.deliver answer s = (t, .ok a)) :
    ∃ as, Repeats answer s (as ++ [a]) t ∧ (Accepts answer s → fate.copies = as.length + 1) := by
  induction fate generalizing s with
  | refused e => cases h
  | lost e => cases h
  | done =>
      obtain ⟨rfl, hanswer⟩ := Prod.mk.inj h
      obtain ⟨⟨t, a'⟩, hserver, rfl⟩ := Except.map_eq_ok.mp hanswer
      refine ⟨[], ?_, fun _ => rfl⟩
      rw [show carriedOut answer s = t by simp [carriedOut, hserver]]
      exact .single hserver
  | resent again ih =>
      obtain ⟨as, hrest, hcopies⟩ := ih h
      obtain ⟨first, hfirst, hone⟩ := repeats_carriedOut answer s
      refine ⟨first ++ as, ?_, ?_⟩
      · rw [List.append_assoc]
        exact hfirst.append hrest
      · intro haccepts
        rw [Fate.copies, hcopies (haccepts.after hfirst), List.length_append, hone haccepts]
        omega

/-- Without an answer the line failed, or the server refused. -/
theorem Fate.deliver_error {fate : Fate ε} {e : ε} (h : fate.deliver answer s = (t, .error e)) :
    ∃ as, Repeats answer s as t ∧ (Accepts answer s → fate.copies = as.length) ∧
      (fate = .done → as = [] ∧ answer s = .error e) := by
  induction fate generalizing s with
  -- The request did not reach the server.
  | refused e =>
      cases h
      exact ⟨[], .nil, fun _ => rfl, nofun⟩
  -- It was carried out, if the server took it, and the answer was lost.
  | lost e =>
      obtain ⟨rfl, -⟩ := Prod.mk.inj h
      obtain ⟨as, hrest, hone⟩ := repeats_carriedOut answer s
      exact ⟨as, hrest, fun haccepts => (hone haccepts).symm, nofun⟩
  | done =>
      obtain ⟨rfl, hanswer⟩ := Prod.mk.inj h
      -- The answer arrived, so the error is the server's own and nothing was done.
      have hrefused : answer s = .error e := by
        cases hserver : answer s with
        | error e' =>
            rw [hserver] at hanswer
            cases hanswer
            rfl
        | ok p =>
            rw [hserver] at hanswer
            cases hanswer
      refine ⟨[], ?_, fun haccepts => ?_, fun _ => ⟨rfl, hrefused⟩⟩
      · rw [show carriedOut answer s = s by simp [carriedOut, hrefused]]
        exact .nil
      · obtain ⟨p, hp⟩ := haccepts [] s .nil
        cases hrefused.symm.trans hp
  -- The request is sent again: what it did before comes on top.
  | resent again ih =>
      obtain ⟨as, hrest, hcopies, -⟩ := ih h
      obtain ⟨first, hfirst, hone⟩ := repeats_carriedOut answer s
      refine ⟨first ++ as, hfirst.append hrest, fun haccepts => ?_, nofun⟩
      rw [Fate.copies, hcopies (haccepts.after hfirst), List.length_append, hone haccepts]
      omega

end

namespace Program

open Online (At)

variable {σ ε α : Type} {fates : List (Fate ε)} {server : σ}

/-- The server refuses by itself, or answers and goes into another state. -/
def request (answer : σ → Except ε (σ × α)) : Program (Online σ ε) ε α where
  run s :=
    let delivered := (s.fates.headD .done).deliver answer s.server
    some (⟨delivered.1, s.fates.tail⟩, delivered.2)

/-- A request that only reads. -/
def inquiry (answer : σ → Except ε α) : Program (Online σ ε) ε α :=
  request (fun s => (answer s).map (fun a => (s, a)))

/-- The next fate is one of those that were decided, or the request is carried out and answered. -/
theorem headD_mem_or_done {s : Online σ ε} (h : s.fates <:+ fates) :
    s.fates.headD .done ∈ fates ∨ s.fates.headD .done = .done := by
  cases hfates : s.fates with
  | nil => exact .inr rfl
  | cons fate rest =>
      rw [hfates] at h
      exact .inl (h.mem List.mem_cons_self)

/-- A value is the server's last answer to the request; without one the line failed, or the server
refused. -/
theorem Triple.tell (answer : σ → Except ε (σ × α)) :
    Triple (At fates server) (request answer)
      (fun a s => ∃ as t, Repeats answer server (as ++ [a]) t ∧
        (Accepts answer server → Copies fates (as.length + 1)) ∧ At fates t s)
      (fun s => ∃ as t, Repeats answer server as t ∧
        (Accepts answer server → Copies fates as.length) ∧
        (Disturbed fates ∨ as = [] ∧ ∃ e, answer server = .error e) ∧ At fates t s) := by
  rintro s s' r ⟨rfl, hsuffix⟩ hrun
  have htail : s.fates.tail <:+ fates := (List.tail_suffix _).trans hsuffix
  -- The request has one of the fates, or it is carried out once and answered.
  have hcopies : Copies fates (s.fates.headD .done).copies := by
    rcases headD_mem_or_done hsuffix with hmem | hdone
    · exact .inr ⟨_, hmem, rfl⟩
    · rw [hdone]
      exact .inl (Nat.le_refl 1)
  obtain ⟨rfl, rfl⟩ := Prod.mk.inj (Option.some.inj hrun)
  constructor
  · intro a ha
    obtain ⟨as, hrepeats, has⟩ := Fate.deliver_ok (Prod.ext rfl ha)
    exact ⟨as, _, hrepeats, fun haccepts => has haccepts ▸ hcopies, rfl, htail⟩
  · intro e he
    obtain ⟨as, hrepeats, has, hdone⟩ := Fate.deliver_error (Prod.ext rfl he)
    refine ⟨as, _, hrepeats, fun haccepts => has haccepts ▸ hcopies, ?_, rfl, htail⟩
    -- An error is either the server's refusal or comes from a disturbed line.
    by_cases hfate : s.fates.headD .done = .done
    · obtain ⟨hnil, hrefused⟩ := hdone hfate
      exact .inr ⟨hnil, e, hrefused⟩
    · exact .inl ⟨_, (headD_mem_or_done hsuffix).resolve_right hfate, hfate⟩

/-- A request that may be repeated has been carried out, or has not. -/
theorem Triple.put {answer : σ → Except ε (σ × α)} (hsettles : Settles answer server) :
    Triple (At fates server) (request answer)
      (fun a s => ∃ t, answer server = .ok (t, a) ∧ At fates t s)
      (fun s => ((Disturbed fates ∨ ∃ e, answer server = .error e) ∧ At fates server s) ∨
        Disturbed fates ∧ ∃ t a, answer server = .ok (t, a) ∧ At fates t s) := by
  apply (Triple.tell answer).weaken (fun s hs => hs)
  · rintro a s ⟨as, t, hrepeats, -, hat⟩
    rcases hrepeats.settled hsettles with ⟨hnil, -⟩ | ⟨a', hanswer, hall⟩
    · simp at hnil
    · rw [← hall a (List.mem_append_right _ List.mem_cons_self)] at hanswer
      exact ⟨t, hanswer, hat⟩
  · rintro s ⟨as, t, hrepeats, -, hreason, hat⟩
    rcases hrepeats.settled hsettles with ⟨-, rfl⟩ | ⟨a', hanswer, -⟩
    · exact .inl ⟨hreason.imp_right And.right, hat⟩
    · refine .inr ⟨hreason.resolve_right ?_, t, a', hanswer, hat⟩
      rintro ⟨-, e, herror⟩
      cases hanswer.symm.trans herror

theorem Triple.ask (answer : σ → Except ε α) :
    Triple (At fates server) (inquiry answer)
      (fun a s => answer server = .ok a ∧ At fates server s)
      (fun s => (Disturbed fates ∨ ∃ e, answer server = .error e) ∧ At fates server s) := by
  -- A question changes nothing, so the answer does not depend on how often it is asked.
  have hsettles : Settles (fun s => (answer s).map (fun a => (s, a))) server := by
    intro t a ha u b hb
    obtain ⟨a', ha', heq⟩ := Except.map_eq_ok.mp ha
    cases heq
    obtain ⟨b', hb', heq⟩ := Except.map_eq_ok.mp hb
    cases heq
    exact ⟨rfl, Except.ok.inj (hb'.symm.trans ha')⟩
  apply (Triple.put hsettles).weaken (fun s hs => hs)
  · rintro a s ⟨t, hanswer, hat⟩
    obtain ⟨a', ha', heq⟩ := Except.map_eq_ok.mp hanswer
    cases heq
    exact ⟨ha', hat⟩
  · rintro s (⟨hreason, hat⟩ | ⟨hdisturbed, t, a, hanswer, hat⟩)
    · refine ⟨hreason.imp_right ?_, hat⟩
      rintro ⟨e, he⟩
      cases hserver : answer server with
      | error e' => exact ⟨e', rfl⟩
      | ok a =>
          rw [hserver] at he
          cases he
    · obtain ⟨a', -, heq⟩ := Except.map_eq_ok.mp hanswer
      cases heq
      exact ⟨.inl hdisturbed, hat⟩

/-- A request that only reads, when its answer is known. -/
theorem Triple.answered {answer : σ → Except ε α} {a : α} (ha : answer server = .ok a) :
    Triple (At fates server) (inquiry answer) (fun b s => b = a ∧ At fates server s)
      (fun s => Disturbed fates ∧ At fates server s) := by
  apply (Triple.ask answer).weaken (fun s hs => hs)
  · rintro b s ⟨hb, hat⟩
    exact ⟨Except.ok.inj (hb.symm.trans ha), hat⟩
  · rintro s ⟨hreason, hat⟩
    refine ⟨hreason.resolve_right ?_, hat⟩
    rintro ⟨e, he⟩
    cases ha.symm.trans he

/-! ## Parts of a server -/

/-- A program that asks only a part of the server. -/
def component {τ : Type} (part : τ → σ) (put : τ → σ → τ) (x : Program (Online σ ε) ε α) :
    Program (Online τ ε) ε α :=
  within (fun t => ⟨part t.server, t.fates⟩) (fun t s => ⟨put t.server s.server, s.fates⟩) x

theorem Triple.component {τ : Type} {part : τ → σ} {put : τ → σ → τ}
    {x : Program (Online σ ε) ε α} {server : τ} {Q : α → σ → Prop} {E : σ → Prop}
    (h : Triple (At fates (part server)) x (fun a s => ∃ t, Q a t ∧ At fates t s)
      (fun s => ∃ t, E t ∧ At fates t s)) :
    Triple (At fates server) (component part put x)
      (fun a s => ∃ t, Q a t ∧ At fates (put server t) s)
      (fun s => ∃ t, E t ∧ At fates (put server t) s) := by
  rintro s s' r ⟨rfl, hsuffix⟩ hrun
  obtain ⟨⟨u, r'⟩, hx, heq⟩ := Option.map_eq_some_iff.mp hrun
  cases heq
  obtain ⟨hok, herror⟩ := h _ _ _ ⟨rfl, hsuffix⟩ hx
  constructor
  · intro a ha
    obtain ⟨t, hQ, hat⟩ := hok a ha
    exact ⟨t, hQ, congrArg _ hat.server_eq, hat.fates_suffix⟩
  · intro e he
    obtain ⟨t, hE, hat⟩ := herror e he
    exact ⟨t, hE, congrArg _ hat.server_eq, hat.fates_suffix⟩

/-! ## Calls one after the other -/

variable {κ τ β : Type} [DecidableEq ε] [DecidableEq α]

/-- Each call comes with what it returns. -/
def client (perform : κ → Program (Online σ ε) ε α) (fates : κ → List (Fate ε)) :
    Machine σ (κ × Except ε α) where
  step s call :=
    match (perform call.1).run ⟨s, fates call.1⟩ with
    | some (t, r) => if r = call.2 then some t.server else none
    | none => none

omit [DecidableEq ε] [DecidableEq α] in
/-- Some steps of `N`, which `explains` admits, account for what has been done to the server. -/
def Accounts (N : Machine τ β) (R : σ → τ → Prop) (fates : List (Fate ε)) (u : τ)
    (explains : List β → Prop) (s : Online σ ε) : Prop :=
  ∃ bs u' t, explains bs ∧ N.exec u bs = some u' ∧ R t u' ∧ At fates t s

omit [DecidableEq ε] [DecidableEq α] in
/-- Nothing was done. -/
theorem Accounts.nothing {N : Machine τ β} {R : σ → τ → Prop} {u : τ} {explains : List β → Prop}
    {s : Online σ ε} (h : R server u) (hexplains : explains []) (hs : At fates server s) :
    Accounts N R fates u explains s :=
  ⟨[], u, server, hexplains, rfl, h, hs⟩

omit [DecidableEq ε] [DecidableEq α] in
/-- One thing was done. -/
theorem Accounts.event {N : Machine τ β} {R : σ → τ → Prop} {u u' : τ} {explains : List β → Prop}
    {b : β} {s : Online σ ε} (h : R server u') (hexplains : explains [b])
    (hb : N.step u b = some u') (hs : At fates server s) : Accounts N R fates u explains s :=
  ⟨[b], u', server, hexplains, N.exec_singleton hb, h, hs⟩

end Program

/-! ## Ids that are new -/

/-- A number that is none of these. -/
def newNumber : List Nat → Nat
  | [] => 1
  | id :: ids => id + newNumber ids

theorem lt_newNumber {id : Nat} {ids : List Nat} (h : id ∈ ids) : id < newNumber ids := by
  have hpos : ∀ ids, 0 < newNumber ids := by
    intro ids
    induction ids with
    | nil => exact Nat.one_pos
    | cons id ids ih => exact Nat.lt_of_lt_of_le ih (Nat.le_add_left _ _)
  induction ids with
  | nil => cases h
  | cons first ids ih =>
      rcases List.mem_cons.mp h with rfl | h
      · exact Nat.lt_add_of_pos_right (hpos ids)
      · exact Nat.lt_of_lt_of_le (ih h) (Nat.le_add_left _ _)

theorem newNumber_notMem (ids : List Nat) : newNumber ids ∉ ids :=
  fun hmem => absurd (lt_newNumber hmem) (Nat.lt_irrefl _)

/-- A text that is none of these. -/
def newText (ids : List String) : String :=
  String.ofList (List.replicate (newNumber (ids.map String.length)) 'x')

theorem newText_notMem (ids : List String) : newText ids ∉ ids := by
  intro hmem
  apply newNumber_notMem (ids.map String.length)
  have hlength : (newText ids).length = newNumber (ids.map String.length) := by simp [newText]
  rw [← hlength]
  exact List.mem_map_of_mem hmem
