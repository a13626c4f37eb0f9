import ProtonDrive.Lib.Program

/-!
# Listings read page by page

A server gives a listing in pages, each with a cursor for the next one. The reader asks for a page,
takes what is on it, and goes on from the cursor or stops.

* `collect` — the loop. What a page adds and where it goes on from are arguments; a run that is given
  too little fuel does not return.
* `Chain` — the pages that a run of requests gave, each asked for with the cursor of the one before.
* `collect_chain` — the loop returns what is on the pages of a chain, in their order.
* `Script` — a server whose answers are fixed in advance.
-/

namespace Paging

variable {σ ε κ P α : Type}

/-- Ask for a page from the cursor and add what is on it, until a page names no cursor to go on
from. -/
def collect (fetch : Option κ → Program σ ε P) (items : P → List α) (next : P → Option κ) :
    (fuel : Nat) → (cursor : Option κ) → (found : List α) → Program σ ε (List α)
  | 0, _, _ => ⟨fun _ => none⟩
  | fuel + 1, cursor, found => do
      let page ← fetch cursor
      match next page with
      | none => return found ++ items page
      | some cursor' => collect fetch items next fuel (some cursor') (found ++ items page)

/-- From a cursor and a state, requests that gave these pages one after the other, the last of which
ends the listing. -/
inductive Chain (fetch : Option κ → Program σ ε P) (next : P → Option κ) :
    Option κ → σ → List P → σ → Prop where
  | last {cursor : Option κ} {s t : σ} {page : P} (hpage : (fetch cursor).run s = some (t, .ok page))
      (hnext : next page = none) : Chain fetch next cursor s [page] t
  | more {cursor : Option κ} {s t u : σ} {page : P} {cursor' : κ} {pages : List P}
      (hpage : (fetch cursor).run s = some (t, .ok page)) (hnext : next page = some cursor')
      (hrest : Chain fetch next (some cursor') t pages u) :
      Chain fetch next cursor s (page :: pages) u

variable {fetch : Option κ → Program σ ε P} {items : P → List α} {next : P → Option κ}

theorem collect_last {fuel : Nat} {cursor : Option κ} {found : List α} {s t : σ} {page : P}
    (hpage : (fetch cursor).run s = some (t, .ok page)) (hnext : next page = none) :
    (collect fetch items next (fuel + 1) cursor found).run s =
      some (t, .ok (found ++ items page)) := by
  rw [collect, Program.bind_ok hpage, hnext]
  rfl

theorem collect_more {fuel : Nat} {cursor : Option κ} {found : List α} {s t : σ} {page : P}
    {cursor' : κ} (hpage : (fetch cursor).run s = some (t, .ok page))
    (hnext : next page = some cursor') :
    (collect fetch items next (fuel + 1) cursor found).run s =
      (collect fetch items next fuel (some cursor') (found ++ items page)).run t := by
  rw [collect, Program.bind_ok hpage, hnext]

/-- The loop reads a chain to its end, given fuel for each of its pages. -/
theorem collect_chain {cursor : Option κ} {s t : σ} {pages : List P}
    (h : Chain fetch next cursor s pages t) (extra : Nat) (found : List α) :
    (collect fetch items next (pages.length + extra) cursor found).run s =
      some (t, .ok (found ++ pages.flatMap items)) := by
  induction h generalizing found with
  | @last cursor s t page hpage hnext =>
      have hfuel : [page].length + extra = extra + 1 := Nat.add_comm 1 extra
      rw [hfuel, collect_last hpage hnext, List.flatMap_singleton]
  | @more cursor s t u page cursor' pages hpage hnext hrest ih =>
      have hfuel : (page :: pages).length + extra = pages.length + extra + 1 := by
        rw [List.length_cons, Nat.add_right_comm]
      rw [hfuel, collect_more hpage hnext, ih, List.flatMap_cons, List.append_assoc]

/-- The loop returns only at the end of a chain, with what is on its pages. -/
theorem chain_of_collect {fuel : Nat} {cursor : Option κ} {found : List α} {s t : σ} {all : List α}
    (h : (collect fetch items next fuel cursor found).run s = some (t, .ok all)) :
    ∃ pages, Chain fetch next cursor s pages t ∧ all = found ++ pages.flatMap items := by
  induction fuel generalizing cursor found s with
  | zero => cases h
  | succ fuel ih =>
      rw [collect, Program.bind_eq_ok] at h
      obtain ⟨u, page, hpage, hrest⟩ := h
      cases hnext : next page with
      | none =>
          rw [hnext] at hrest
          cases hrest
          exact ⟨[page], .last hpage hnext, by rw [List.flatMap_singleton]⟩
      | some cursor' =>
          rw [hnext] at hrest
          obtain ⟨pages, hchain, rfl⟩ := ih hrest
          refine ⟨page :: pages, .more hpage hnext hchain, ?_⟩
          rw [List.flatMap_cons, List.append_assoc]

section Keeps

variable {R : σ → σ → Prop} [Std.Refl R] [Trans R R R]

/-- What every request keeps, a listing keeps. -/
theorem collect_keeps (hfetch : ∀ cursor, Program.Keeps R (fetch cursor)) (fuel : Nat)
    (cursor : Option κ) (found : List α) :
    Program.Keeps R (collect fetch items next fuel cursor found) := by
  induction fuel generalizing cursor found with
  | zero =>
      intro s s' r h
      cases h
  | succ fuel ih =>
      unfold collect
      refine .bind (hfetch cursor) ?_
      intro page
      split
      · exact .pure _
      · exact ih _ _

omit [Std.Refl R] in
theorem Chain.keeps (hfetch : ∀ cursor, Program.Keeps R (fetch cursor)) {cursor : Option κ}
    {s t : σ} {pages : List P} (h : Chain fetch next cursor s pages t) : R s t := by
  induction h with
  | last hpage _ => exact hfetch _ _ _ _ hpage
  | more hpage _ _ ih => exact Trans.trans (hfetch _ _ _ _ hpage) ih

end Keeps

/-- If no request fails, a listing does not. -/
theorem collect_succeeds {I : σ → Prop} (hfetch : ∀ cursor, Program.Succeeds I (fetch cursor))
    (fuel : Nat) (cursor : Option κ) (found : List α) :
    Program.Succeeds I (collect fetch items next fuel cursor found) := by
  induction fuel generalizing cursor found with
  | zero =>
      intro s s' r hs h
      cases h
  | succ fuel ih =>
      unfold collect
      refine .bind (hfetch cursor) ?_
      intro page
      split
      · exact .pure _
      · exact ih _ _

/-! ## A server with fixed answers -/

/-- The answers the server has yet to give, and the requests it was sent. -/
structure Script (ρ ε P : Type) where
  answers : List (Except ε P)
  requested : List ρ

variable {ρ : Type}

/-- Send a request and take the next answer; without one, the call does not return. -/
def Script.get (request : ρ) : Program (Script ρ ε P) ε P where
  run s :=
    match s.answers with
    | [] => none
    | answer :: answers => some (⟨answers, s.requested ++ [request]⟩, answer)

/-- Pages that each name a cursor, up to one that does not, are a chain of any server that gives
them in turn. -/
theorem Script.chain (path : Option κ → ρ) {before : List P} {last : P} (later : List (Except ε P))
    (hbefore : ∀ p ∈ before, (next p).isSome) (hlast : next last = none) (cursor : Option κ)
    (requested : List ρ) :
    Chain (fun cursor => Script.get (path cursor)) next cursor
      ⟨(before ++ [last]).map .ok ++ later, requested⟩ (before ++ [last])
      ⟨later, requested ++ path cursor :: before.map (fun p => path (next p))⟩ := by
  induction before generalizing cursor requested with
  | nil => exact .last rfl hlast
  | cons page before ih =>
      obtain ⟨cursor', hnext⟩ := Option.isSome_iff_exists.mp (hbefore page List.mem_cons_self)
      have hrest := ih (fun p hp => hbefore p (List.mem_cons_of_mem page hp)) (some cursor')
        (requested ++ [path cursor])
      refine .more rfl hnext ?_
      rw [List.append_assoc] at hrest
      rw [List.map_cons, hnext]
      exact hrest

end Paging
