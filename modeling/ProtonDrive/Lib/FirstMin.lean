import Mathlib.Data.List.Sort

/-!
# The first of the least

In a list whose entries have a key, the entry with the least key, and among several of them the one
that comes first. A stable sort puts it in front, and a search for a minimum that keeps what it has
finds it, so the two agree whatever ties there are.

* `minOn?_eq_some_iff`, `head?_mergeSort_eq_some_iff` — both find the first of the least.
* `IsFirstMin.filterMap` — it is still the first of the least among those that remain, if it
  remains.
-/

namespace FirstMin

variable {α β κ : Type} [LinearOrder κ] {key : α → κ} {l : List α} {a b : α}

/-- The entry stands in the list with nothing less than it, and nothing as little before it. -/
def IsFirstMin (key : α → κ) (l : List α) (a : α) : Prop :=
  ∃ before after, l = before ++ a :: after ∧ (∀ b ∈ before, key a < key b) ∧
    ∀ b ∈ after, key a ≤ key b

theorem IsFirstMin.mem (h : IsFirstMin key l a) : a ∈ l := by
  obtain ⟨before, after, rfl, -, -⟩ := h
  exact List.mem_append_right before List.mem_cons_self

theorem IsFirstMin.le (h : IsFirstMin key l a) (hb : b ∈ l) : key a ≤ key b := by
  obtain ⟨before, after, rfl, hbefore, hafter⟩ := h
  rcases List.mem_append.mp hb with hb | hb
  · exact le_of_lt (hbefore b hb)
  · rcases List.mem_cons.mp hb with rfl | hb
    · exact le_refl _
    · exact hafter b hb

theorem not_isFirstMin_nil : ¬ IsFirstMin key [] a := by
  intro h
  exact List.not_mem_nil h.mem

/-- The first entry is it unless something less follows. -/
theorem isFirstMin_cons : IsFirstMin key (b :: l) a ↔
    (a = b ∧ ∀ c ∈ l, key b ≤ key c) ∨ (key a < key b ∧ IsFirstMin key l a) := by
  constructor
  · rintro ⟨before, after, hsplit, hbefore, hafter⟩
    cases before with
    | nil =>
        cases hsplit
        exact .inl ⟨rfl, hafter⟩
    | cons c before =>
        cases hsplit
        refine .inr ⟨hbefore b List.mem_cons_self, before, after, rfl, ?_, hafter⟩
        exact fun c hc => hbefore c (List.mem_cons_of_mem b hc)
  · rintro (⟨rfl, hl⟩ | ⟨hlt, before, after, rfl, hbefore, hafter⟩)
    · exact ⟨[], l, rfl, by simp, hl⟩
    · refine ⟨b :: before, after, rfl, ?_, hafter⟩
      intro c hc
      rcases List.mem_cons.mp hc with rfl | hc
      · exact hlt
      · exact hbefore c hc

theorem IsFirstMin.unique (ha : IsFirstMin key l a) (hb : IsFirstMin key l b) : a = b := by
  induction l with
  | nil => exact absurd ha not_isFirstMin_nil
  | cons c l ih =>
      rcases isFirstMin_cons.mp ha with ⟨rfl, hle⟩ | ⟨hlt, hal⟩ <;>
        rcases isFirstMin_cons.mp hb with ⟨rfl, hle'⟩ | ⟨hlt', hbl⟩
      · rfl
      · exact absurd (hle b hbl.mem) (not_le_of_gt hlt')
      · exact absurd (hle' a hal.mem) (not_le_of_gt hlt)
      · exact ih hal hbl

/-- How both searches go on: the new entry is kept unless what was found behind it is less. -/
theorem isFirstMin_cons_of_search {found : Option α}
    (hfound : ∀ c, found = some c ↔ IsFirstMin key l c) (hempty : found = none → l = []) :
    IsFirstMin key (b :: l) a ↔
      found.elim b (fun c => if key b ≤ key c then b else c) = a := by
  rw [isFirstMin_cons]
  cases hf : found with
  | none =>
      obtain rfl := hempty hf
      simp [not_isFirstMin_nil, eq_comm]
  | some c =>
      have hc : IsFirstMin key l c := (hfound c).mp hf
      show _ ↔ (if key b ≤ key c then b else c) = a
      split
      · -- The head is as small as what was found behind it, and comes first.
        next hle =>
        constructor
        · rintro (⟨rfl, -⟩ | ⟨hlt, ha⟩)
          · rfl
          · obtain rfl := ha.unique hc
            exact absurd hle (not_le_of_gt hlt)
        · rintro rfl
          exact .inl ⟨rfl, fun d hd => le_trans hle (hc.le hd)⟩
      · -- The head is larger, so what was found stays the first minimum.
        next hnle =>
        have hlt : key c < key b := lt_of_not_ge hnle
        constructor
        · rintro (⟨rfl, hle⟩ | ⟨-, ha⟩)
          · exact absurd (hle c hc.mem) hnle
          · exact hc.unique ha
        · rintro rfl
          exact .inr ⟨hlt, hc⟩

theorem minOn?_eq_some_iff : l.minOn? key = some a ↔ IsFirstMin key l a := by
  induction l generalizing a with
  | nil => simp [not_isFirstMin_nil]
  | cons b l ih =>
      have hempty : l.minOn? key = none → l = [] := by
        intro h
        by_contra hne
        have hsome := (List.isSome_minOn?_iff (f := key)).mpr hne
        rw [h] at hsome
        cases hsome
      rw [isFirstMin_cons_of_search (fun c => ih) hempty, List.minOn?_cons, Option.some.injEq]
      rfl

section

variable (key)

/-- The order of a stable sort by the key. -/
def byKey (a b : α) : Bool := decide (key a ≤ key b)

variable {key}

theorem byKey_trans (a b c : α) (hab : byKey key a b) (hbc : byKey key b c) : byKey key a c :=
  decide_eq_true (le_trans (of_decide_eq_true hab) (of_decide_eq_true hbc))

theorem byKey_total (a b : α) : byKey key a b || byKey key b a := by
  simpa [byKey] using le_total (key a) (key b)

end

theorem head?_mergeSort_eq_some_iff :
    (l.mergeSort (byKey key)).head? = some a ↔ IsFirstMin key l a := by
  induction l generalizing a with
  | nil => simp [not_isFirstMin_nil]
  | cons b l ih =>
      have hempty : (l.mergeSort (byKey key)).head? = none → l = [] := by
        intro h
        have hperm := List.mergeSort_perm l (byKey key)
        rw [List.head?_eq_none_iff.mp h] at hperm
        exact hperm.nil_eq.symm
      rw [isFirstMin_cons_of_search (fun c => ih) hempty]
      have htrans : ∀ a b c : α, byKey key a b → byKey key b c → byKey key a c := byKey_trans
      have htotal : ∀ a b : α, byKey key a b || byKey key b a := byKey_total
      obtain ⟨l₁, l₂, hcons, hl, hl₁⟩ := List.mergeSort_cons htrans htotal b l
      have hsorted := List.pairwise_mergeSort htrans htotal (b :: l)
      rw [hcons] at hsorted ⊢
      rw [hl]
      cases l₁ with
      | nil =>
          -- What stands in front of the sorted rest is not less than the new entry.
          cases l₂ with
          | nil => simp
          | cons c l₂ =>
              have hle : key b ≤ key c :=
                of_decide_eq_true ((List.pairwise_cons.mp hsorted).1 c List.mem_cons_self)
              simp [hle]
      | cons c l₁ =>
          have hlt : ¬ key b ≤ key c := by simpa [byKey] using hl₁ c List.mem_cons_self
          simp [hlt]

/-- Of the entries that remain when some are left out, under the same keys. -/
theorem IsFirstMin.filterMap {f : α → Option β} {key' : β → κ} {b : β}
    (hkey : ∀ a b, f a = some b → key' b = key a) (h : IsFirstMin key l a) (hb : f a = some b) :
    IsFirstMin key' (l.filterMap f) b := by
  obtain ⟨before, after, rfl, hbefore, hafter⟩ := h
  refine ⟨before.filterMap f, after.filterMap f, ?_, ?_, ?_⟩
  · rw [List.filterMap_append, List.filterMap_cons_some hb]
  · intro c hc
    obtain ⟨x, hx, hxc⟩ := List.mem_filterMap.mp hc
    rw [hkey a b hb, hkey x c hxc]
    exact hbefore x hx
  · intro c hc
    obtain ⟨x, hx, hxc⟩ := List.mem_filterMap.mp hc
    rw [hkey a b hb, hkey x c hxc]
    exact hafter x hx

end FirstMin
