/-!
# Texts of segments

A text is split at a separator, and empty pieces are dropped. The other way round, each name is put
behind a separator.

* `segments_joined` — what comes back is what each of the names splits into.
* `segments_joined_self` — names that are not empty and do not have the separator in them come back.
-/

namespace Segments

variable {α : Type} [DecidableEq α] {sep : α} {l : List α} {names : List (List α)}

/-- The pieces between the separators that are not empty. -/
def segments (sep : α) (l : List α) : List (List α) :=
  (l.splitOn sep).filter (fun segment => !segment.isEmpty)

/-- Each name behind a separator. -/
def joined (sep : α) (names : List (List α)) : List α := names.flatMap (sep :: ·)

theorem segments_append_cons (l r : List α) :
    segments sep (l ++ sep :: r) = segments sep l ++ segments sep r := by
  unfold segments
  rw [List.splitOn_append_cons_self, List.filter_append]

theorem segments_nil : segments sep [] = [] := rfl

theorem segments_cons (l : List α) : segments sep (sep :: l) = segments sep l :=
  segments_append_cons [] l

theorem segments_self (hne : l ≠ []) (h : sep ∉ l) : segments sep l = [l] := by
  unfold segments
  rw [List.splitOn_eq_singleton h]
  simpa using hne

/-- The separators that are put in are places to split, so every name is split for itself. -/
theorem segments_joined (names : List (List α)) :
    segments sep (joined sep names) = names.flatMap (segments sep) := by
  induction names with
  | nil => rfl
  | cons name names ih =>
      have hcons : joined sep (name :: names) = sep :: (name ++ joined sep names) := rfl
      rw [hcons, segments_cons, List.flatMap_cons, ← ih]
      cases names with
      | nil => rw [show joined sep [] = ([] : List α) from rfl, List.append_nil, segments_nil,
          List.append_nil]
      | cons next names =>
          have hnext : joined sep (next :: names) = sep :: (next ++ joined sep names) := rfl
          rw [hnext, segments_append_cons, segments_cons]

theorem segments_joined_self (h : ∀ name ∈ names, name ≠ [] ∧ sep ∉ name) :
    segments sep (joined sep names) = names := by
  rw [segments_joined]
  induction names with
  | nil => rfl
  | cons name names ih =>
      obtain ⟨⟨hne, hsep⟩, hrest⟩ := List.forall_mem_cons.mp h
      rw [List.flatMap_cons, segments_self hne hsep, ih hrest]
      rfl

/-- No segment has the separator in it. -/
theorem not_mem_of_mem_segments {segment : List α} (h : segment ∈ segments sep l) :
    sep ∉ segment := by
  induction hn : l.length using Nat.strongRecOn generalizing l with
  | _ n ih =>
      by_cases hsep : sep ∈ l
      · -- Up to the first separator there is one segment, or none.
        obtain ⟨before, rest, rfl, hbefore⟩ := List.eq_append_cons_of_mem hsep
        rw [segments_append_cons] at h
        rcases List.mem_append.mp h with h | h
        · unfold segments at h
          rw [List.splitOn_eq_singleton hbefore] at h
          obtain rfl := List.mem_singleton.mp (List.mem_filter.mp h).1
          exact hbefore
        · refine ih rest.length ?_ h rfl
          rw [← hn, List.length_append, List.length_cons]
          omega
      · unfold segments at h
        rw [List.splitOn_eq_singleton hsep] at h
        obtain rfl := List.mem_singleton.mp (List.mem_filter.mp h).1
        exact hsep

end Segments
