import Mathlib.Data.List.Basic
import Mathlib.Data.List.Count

/-!
# A FIFO semaphore whose permits have owners

A counting semaphore hands out `capacity` permits. A request that finds none left joins a queue,
and a permit that comes back goes to the head of that queue before anyone else can take it. A
request carries a key, so an owner can have several requests in the queue at once.

Two facts are fields of the structure, so every state of a semaphore has them:

* `balance` — the permits that are out and the permits that are left make up the capacity.
* `busy` — nobody waits while a permit is left.

`exists_holder` is what a deadlock argument needs of both: where somebody waits, somebody holds.
-/

/-- A semaphore of `capacity` permits. `held` names the owner of each permit that is out, `queue`
the owner and the key of each request that waits. -/
structure Semaphore (capacity : Nat) (ι κ : Type) where
  available : Nat
  held : List ι
  queue : List (ι × κ)
  balance : held.length + available = capacity
  busy : queue ≠ [] → available = 0

namespace Semaphore

variable {capacity : Nat} {ι κ : Type}

/-- All permits are left. -/
def full : Semaphore capacity ι κ where
  available := capacity
  held := []
  queue := []
  balance := Nat.zero_add capacity
  busy h := absurd rfl h

section Acquire

variable (s : Semaphore capacity ι κ) (i : ι) (k : κ)

/-- One of the permits that are left goes to `i`. -/
def take (h : 0 < s.available) : Semaphore capacity ι κ where
  available := s.available - 1
  held := i :: s.held
  queue := s.queue
  balance := by
    have := s.balance
    simp only [List.length_cons]
    omega
  busy hq := by
    have := s.busy hq
    omega

/-- The request joins the end of the queue. -/
def enqueue (h : ¬ 0 < s.available) : Semaphore capacity ι κ where
  available := s.available
  held := s.held
  queue := s.queue ++ [(i, k)]
  balance := s.balance
  busy _ := Nat.eq_zero_of_not_pos h

/-- Take a permit or fail at once. -/
def tryAcquire : Option (Semaphore capacity ι κ) :=
  if h : 0 < s.available then some (s.take i h) else none

/-- Take a permit or wait for one; says whether it was there. -/
def acquire : Semaphore capacity ι κ × Bool :=
  if h : 0 < s.available then (s.take i h, true) else (s.enqueue i k h, false)

end Acquire

variable [DecidableEq ι]

/-- A permit of `i` comes back; says which request gets it. -/
def release (s : Semaphore capacity ι κ) (i : ι) : Semaphore capacity ι κ × Option (ι × κ) :=
  if hi : i ∈ s.held then
    match hq : s.queue with
    | [] =>
        ({ available := s.available + 1
           held := s.held.erase i
           queue := []
           balance := by
             have hbalance := s.balance
             have hpos : 0 < s.held.length := List.length_pos_of_mem hi
             rw [List.length_erase_of_mem hi]
             omega
           busy := fun h => absurd rfl h }, none)
    | w :: ws =>
        ({ available := s.available
           held := w.1 :: s.held.erase i
           queue := ws
           balance := by
             have hbalance := s.balance
             have hpos : 0 < s.held.length := List.length_pos_of_mem hi
             rw [List.length_cons, List.length_erase_of_mem hi]
             omega
           busy := fun _ => s.busy (by rw [hq]; exact List.cons_ne_nil w ws) }, some w)
  else (s, none)

/-- The requests of `i` leave the queue. -/
def cancel (s : Semaphore capacity ι κ) (i : ι) : Semaphore capacity ι κ where
  available := s.available
  held := s.held
  queue := s.queue.filter (fun w => w.1 ≠ i)
  balance := s.balance
  busy h := s.busy (by
    intro hnil
    rw [hnil] at h
    exact h rfl)

/-- The keys of the requests of `i`, in the order in which they will be served. -/
def waits (s : Semaphore capacity ι κ) (i : ι) : List κ :=
  (s.queue.filter (fun w => w.1 = i)).map Prod.snd

/-- How many permits `i` holds. -/
def permits (s : Semaphore capacity ι κ) (i : ι) : Nat :=
  s.held.count i

variable {s t : Semaphore capacity ι κ} {i j : ι} {k : κ}

@[simp] theorem waits_take (h : 0 < s.available) : (s.take i h).waits j = s.waits j := rfl

theorem permits_take (h : 0 < s.available) :
    (s.take i h).permits j = s.permits j + if j = i then 1 else 0 := by
  simp only [permits, take, List.count_cons, beq_iff_eq, eq_comm (b := j)]

theorem waits_enqueue (h : ¬ 0 < s.available) :
    (s.enqueue i k h).waits j = s.waits j ++ if j = i then [k] else [] := by
  simp only [waits, enqueue, List.filter_append, List.map_append]
  by_cases hij : j = i
  · subst hij
    simp
  · simp [hij, Ne.symm hij]

theorem waits_cancel_self : (s.cancel i).waits i = [] := by
  simp only [waits, cancel, List.filter_filter, List.map_eq_nil_iff, List.filter_eq_nil_iff]
  intro w _
  simp

theorem waits_cancel_of_ne (h : j ≠ i) : (s.cancel i).waits j = s.waits j := by
  simp only [waits, cancel, List.filter_filter]
  congr 1
  apply List.filter_congr
  intro w _
  by_cases hw : w.1 = j
  · simp [hw, h]
  · simp [hw]

/-- Nobody waits while a permit is left. -/
theorem waits_eq_nil (h : 0 < s.available) : s.waits i = [] := by
  have hqueue : s.queue = [] := by
    by_contra hne
    have := s.busy hne
    omega
  simp [waits, hqueue]

theorem count_erase_add {l : List ι} (h : i ∈ l) :
    (l.erase i).count j + (if j = i then 1 else 0) = l.count j := by
  by_cases hij : j = i
  · subst hij
    have hpos : 0 < l.count j := List.count_pos_iff.mpr h
    simp only [List.count_erase_self, if_true]
    omega
  · simp [List.count_erase_of_ne hij, hij]

/-- A permit nobody waits for goes back to the pool. -/
theorem release_none (hi : s.permits i ≠ 0) (h : s.release i = (t, none)) :
    (∀ j, t.waits j = s.waits j) ∧
      ∀ j, t.permits j + (if j = i then 1 else 0) = s.permits j := by
  have hmem : i ∈ s.held := List.count_pos_iff.mp (Nat.pos_of_ne_zero hi)
  simp only [release, hmem, dite_true] at h
  split at h
  case h_1 hq =>
      obtain ⟨rfl, -⟩ := Prod.mk.inj h
      exact ⟨fun j => by simp [waits, hq], fun j => count_erase_add hmem⟩
  case h_2 => cases (Prod.mk.inj h).2

/-- A permit somebody waits for goes to the head of the queue. -/
theorem release_some {w : ι × κ} (hi : s.permits i ≠ 0) (h : s.release i = (t, some w)) :
    (∀ j, s.waits j = (if j = w.1 then [w.2] else []) ++ t.waits j) ∧
      ∀ j, t.permits j + (if j = i then 1 else 0) =
        s.permits j + if j = w.1 then 1 else 0 := by
  have hmem : i ∈ s.held := List.count_pos_iff.mp (Nat.pos_of_ne_zero hi)
  simp only [release, hmem, dite_true] at h
  split at h
  case h_1 => cases (Prod.mk.inj h).2
  case h_2 v ws hq =>
      obtain ⟨rfl, hw⟩ := Prod.mk.inj h
      cases hw
      -- The waiter served is the oldest one, and the permit given back is the one it gets.
      refine ⟨fun j => ?_, fun j => ?_⟩
      · by_cases hj : j = w.1
        · subst hj
          simp [waits, hq]
        · simp [waits, hq, hj, Ne.symm hj]
      · have hcount : (s.held.erase i).count j + (if j = i then 1 else 0) = s.held.count j :=
          count_erase_add hmem
        simp only [permits, List.count_cons, beq_iff_eq, eq_comm (b := j)]
        omega

/-- **Where somebody waits, somebody holds**, unless there are no permits at all. -/
theorem exists_holder (hcapacity : 0 < capacity) (h : s.waits i ≠ []) :
    ∃ j, s.permits j ≠ 0 := by
  have hnone : s.available = 0 := by
    by_contra hne
    exact h (waits_eq_nil (Nat.pos_of_ne_zero hne))
  have hlength : 0 < s.held.length := by
    have := s.balance
    omega
  obtain ⟨j, hj⟩ := List.exists_mem_of_length_pos hlength
  exact ⟨j, Nat.ne_of_gt (List.count_pos_iff.mpr hj)⟩

end Semaphore
