import Mathlib.Data.List.Basic
import Mathlib.Data.List.Nodup
import Mathlib.Algebra.Order.BigOperators.Group.List
import Mathlib.Algebra.Order.Ring.Nat

/-!
# A FIFO semaphore whose requests ask for several permits

A request asks for some of the `capacity` permits at once. It is served at once if nobody waits and
there are enough of them, and otherwise joins a queue. Permits that come back serve the queue from
its head, as far as they go, and nobody is served before the head.

* `add_le_capacity` — two owners hold no more permits together than there are.
* `exists_holder` — where somebody waits, somebody holds.
* `perm_release` — who holds and who waits after a release, up to order.
-/

/-- `held` has the permits of each owner, `queue` what each owner that waits has asked for. -/
structure WeightedSemaphore (capacity : Nat) (ι : Type) where
  held : List (ι × Nat)
  queue : List (ι × Nat)
  fits : (held.map Prod.snd).sum ≤ capacity
  busy : ∀ w ∈ queue.head?, capacity < (held.map Prod.snd).sum + w.2

namespace WeightedSemaphore

variable {capacity : Nat} {ι : Type}

/-- The permits that are out. -/
def used (s : WeightedSemaphore capacity ι) : Nat := (s.held.map Prod.snd).sum

/-- Nobody holds or waits. -/
def idle : WeightedSemaphore capacity ι where
  held := []
  queue := []
  fits := Nat.zero_le capacity
  busy _ h := by cases h

/-- Whether a request is served at once. -/
def Free (s : WeightedSemaphore capacity ι) (n : Nat) : Prop := s.queue = [] ∧ s.used + n ≤ capacity

instance (s : WeightedSemaphore capacity ι) (n : Nat) : Decidable (s.Free n) :=
  match hq : s.queue with
  | [] => decidable_of_iff (s.used + n ≤ capacity) (by simp [Free, hq])
  | _ :: _ => .isFalse (by simp [Free, hq])

section Acquire

variable (s : WeightedSemaphore capacity ι) (i : ι) (n : Nat)

def take (h : s.Free n) : WeightedSemaphore capacity ι where
  held := (i, n) :: s.held
  queue := s.queue
  fits := by
    have hfits := h.2
    unfold used at hfits
    rw [List.map_cons, List.sum_cons]
    omega
  busy w hw := by
    rw [h.1] at hw
    cases hw

def enqueue (h : ¬ s.Free n) : WeightedSemaphore capacity ι where
  held := s.held
  queue := s.queue ++ [(i, n)]
  fits := s.fits
  busy w hw := by
    cases hq : s.queue with
    | nil =>
        rw [hq] at hw
        cases hw
        unfold Free used at h
        rw [not_and] at h
        exact Nat.lt_of_not_le (h hq)
    | cons first rest =>
        rw [hq] at hw
        apply s.busy w
        rw [hq]
        exact hw

/-- Ask for permits; says whether they were there. -/
def acquire : WeightedSemaphore capacity ι × Bool :=
  if h : s.Free n then (s.take i n h, true) else (s.enqueue i n h, false)

end Acquire

/-- Serve a queue from its head, as far as the permits go. -/
def serve (held : List (ι × Nat)) (hfits : (held.map Prod.snd).sum ≤ capacity) :
    List (ι × Nat) → WeightedSemaphore capacity ι
  | [] => ⟨held, [], hfits, fun _ h => by cases h⟩
  | w :: ws =>
      if h : (held.map Prod.snd).sum + w.2 ≤ capacity then
        serve (w :: held) (by rw [List.map_cons, List.sum_cons]; omega) ws
      else ⟨held, w :: ws, hfits, fun v hv => by cases hv; exact Nat.lt_of_not_le h⟩

variable [DecidableEq ι]

/-- The permits of `i` come back. -/
def release (s : WeightedSemaphore capacity ι) (i : ι) : WeightedSemaphore capacity ι :=
  serve (s.held.filter (fun w => w.1 ≠ i))
    (((List.filter_sublist.map Prod.snd).sum_le_sum (fun _ _ => Nat.zero_le _)).trans s.fits)
    s.queue

/-! ## Facts -/

omit [DecidableEq ι] in
/-- Two owners hold no more permits together than there are. -/
theorem add_le_capacity {s : WeightedSemaphore capacity ι} {v w : ι × Nat} (hv : v ∈ s.held)
    (hw : w ∈ s.held) (hne : v ≠ w) : v.2 + w.2 ≤ capacity := by
  obtain ⟨before, after, hsplit⟩ := List.append_of_mem hv
  have hfits := s.fits
  rw [hsplit, List.map_append, List.sum_append, List.map_cons, List.sum_cons] at hfits
  rw [hsplit] at hw
  rcases List.mem_append.mp hw with hw | hw
  · have := List.le_sum_of_mem (List.mem_map_of_mem (f := Prod.snd) hw)
    omega
  · rcases List.mem_cons.mp hw with hw | hw
    · exact absurd hw.symm hne
    · have := List.le_sum_of_mem (List.mem_map_of_mem (f := Prod.snd) hw)
      omega

omit [DecidableEq ι] in
/-- Where somebody waits, somebody holds, unless the request can never be served. -/
theorem exists_holder {s : WeightedSemaphore capacity ι} (hne : s.queue ≠ [])
    (hsmall : ∀ w ∈ s.queue, w.2 ≤ capacity) : ∃ w, w ∈ s.held := by
  cases hq : s.queue with
  | nil => exact absurd hq hne
  | cons first rest =>
      have hbusy := s.busy first (by rw [hq]; rfl)
      have hfirst := hsmall first (by rw [hq]; exact List.mem_cons_self)
      cases hheld : s.held with
      | nil =>
          rw [hheld] at hbusy
          simp only [List.map_nil, List.sum_nil] at hbusy
          omega
      | cons w ws => exact ⟨w, List.mem_cons_self⟩

omit [DecidableEq ι] in
/-- Who holds and who waits after a request. -/
theorem perm_acquire (s : WeightedSemaphore capacity ι) (i : ι) (n : Nat) :
    ((s.acquire i n).1.held ++ (s.acquire i n).1.queue).Perm ((i, n) :: (s.held ++ s.queue)) := by
  unfold acquire
  split
  · exact List.Perm.refl _
  · show List.Perm (s.held ++ (s.queue ++ [(i, n)])) _
    rw [← List.append_assoc]
    exact List.perm_append_singleton _ _

omit [DecidableEq ι] in
theorem acquire_of_free {s : WeightedSemaphore capacity ι} {n : Nat} (h : s.Free n) (i : ι) :
    s.acquire i n = (s.take i n h, true) := by
  unfold acquire
  rw [dif_pos h]

omit [DecidableEq ι] in
/-- A request that is served waits for nothing, and one that is not waits last. -/
theorem queue_acquire (s : WeightedSemaphore capacity ι) (i : ι) (n : Nat) :
    (s.acquire i n).1.queue = if (s.acquire i n).2 then s.queue else s.queue ++ [(i, n)] := by
  unfold acquire
  split <;> rfl

omit [DecidableEq ι] in
/-- Serving moves requests from the queue to the holders and loses none. -/
theorem perm_serve (held : List (ι × Nat)) (hfits : (held.map Prod.snd).sum ≤ capacity)
    (queue : List (ι × Nat)) :
    ((serve held hfits queue).held ++ (serve held hfits queue).queue).Perm (held ++ queue) := by
  induction queue generalizing held with
  | nil => exact List.Perm.refl _
  | cons w ws ih =>
      unfold serve
      split
      · exact (ih _ _).trans List.perm_middle.symm
      · exact List.Perm.refl _

omit [DecidableEq ι] in
/-- Who is served has waited, and who waits has waited. -/
theorem mem_serve {held : List (ι × Nat)} {hfits : (held.map Prod.snd).sum ≤ capacity}
    {queue : List (ι × Nat)} {w : ι × Nat} :
    (w ∈ held → w ∈ (serve held hfits queue).held) ∧
      (w ∈ (serve held hfits queue).queue → w ∈ queue) := by
  induction queue generalizing held with
  | nil => exact ⟨fun h => h, fun h => h⟩
  | cons v vs ih =>
      unfold serve
      split
      · exact ⟨fun h => ih.1 (List.mem_cons_of_mem v h),
          fun h => List.mem_cons_of_mem v (ih.2 h)⟩
      · exact ⟨fun h => h, fun h => h⟩

/-- Who holds and who waits after a release. -/
theorem perm_release (s : WeightedSemaphore capacity ι) (i : ι) :
    ((s.release i).held ++ (s.release i).queue).Perm
      (s.held.filter (fun w => w.1 ≠ i) ++ s.queue) :=
  perm_serve _ _ _

end WeightedSemaphore
