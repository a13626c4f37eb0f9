import Mathlib.Data.List.Forall2
import ProtonDrive.Lib.Except

/-!
# Lists related element by element

What `List.Forall₂` says of single positions: their elements are related, and they can be replaced.
A list of results is related to what they are the results of, and a list whose elements have
different keys has one element for each.
-/

namespace List.Forall₂

variable {α β : Type} {R : α → β → Prop} {l : List α} {l' : List β} {i : Nat} {a : α} {b : β}

theorem exists_getElem? (h : Forall₂ R l l') (ha : l[i]? = some a) :
    ∃ b, l'[i]? = some b ∧ R a b := by
  induction h generalizing i with
  | nil => cases ha
  | cons hab _ ih =>
      cases i with
      | zero =>
          cases ha
          exact ⟨_, rfl, hab⟩
      | succ i => exact ih ha

theorem set (h : Forall₂ R l l') (i : Nat) (hab : R a b) :
    Forall₂ R (l.set i a) (l'.set i b) := by
  induction h generalizing i with
  | nil => exact .nil
  | cons hcd hrest ih =>
      cases i with
      | zero => exact .cons hab hrest
      | succ i => exact .cons hcd (ih i)

/-- Replacing an element by one that is related to the same. -/
theorem set_left {old new : α} (h : Forall₂ R l l') (hi : l[i]? = some old)
    (hnew : ∀ b, R old b → R new b) : Forall₂ R (l.set i new) l' := by
  obtain ⟨b, hb, hold⟩ := h.exists_getElem? hi
  obtain ⟨hlt, rfl⟩ := List.getElem?_eq_some_iff.mp hb
  have hset := h.set i (hnew _ hold)
  rw [List.set_getElem_self] at hset
  exact hset

theorem exists_right (h : Forall₂ R l l') (hb : b ∈ l') : ∃ a ∈ l, R a b := by
  obtain ⟨i, hi⟩ := List.getElem?_of_mem hb
  obtain ⟨a, ha, hab⟩ := h.flip.exists_getElem? hi
  exact ⟨a, List.mem_of_getElem? ha, hab⟩

theorem map_eq {γ : Type} {f : α → γ} {g : β → γ} (h : Forall₂ R l l')
    (hfg : ∀ a b, R a b → f a = g b) : l.map f = l'.map g := by
  induction h with
  | nil => rfl
  | cons hab _ ih => rw [List.map_cons, List.map_cons, hfg _ _ hab, ih]

/-- Two relations, one after the other. -/
theorem comp {γ : Type} {S : β → γ → Prop} {T : α → γ → Prop} {l'' : List γ} (h : Forall₂ R l l')
    (h' : Forall₂ S l' l'') (hT : ∀ a ∈ l, ∀ b ∈ l', ∀ c, R a b → S b c → T a c) :
    Forall₂ T l l'' := by
  induction h generalizing l'' with
  | nil =>
      cases h'
      exact .nil
  | cons hab _ ih =>
      cases h' with
      | cons hbc hrest =>
          refine .cons (hT _ List.mem_cons_self _ List.mem_cons_self _ hab hbc) (ih hrest ?_)
          exact fun a ha b hb =>
            hT a (List.mem_cons_of_mem _ ha) b (List.mem_cons_of_mem _ hb)

end List.Forall₂

/-! ## Results for each element -/

namespace List

variable {α β ε : Type} {f : α → Except ε β} {l : List α}

theorem mapM_eq_ok {bs : List β} (h : l.mapM f = .ok bs) :
    Forall₂ (fun a b => f a = .ok b) l bs := by
  induction l generalizing bs with
  | nil =>
      cases h
      exact .nil
  | cons a l ih =>
      rw [List.mapM_cons] at h
      obtain ⟨b, hb, h⟩ := Except.bind_eq_ok.mp h
      obtain ⟨rest, hrest, h⟩ := Except.bind_eq_ok.mp h
      cases h
      exact .cons hb (ih hrest)

theorem mapM_eq_error {e : ε} (h : l.mapM f = .error e) : ∃ a ∈ l, f a = .error e := by
  induction l with
  | nil => cases h
  | cons a l ih =>
      rw [List.mapM_cons] at h
      cases ha : f a with
      -- The head fails, and nothing behind it is looked at.
      | error e' =>
          rw [ha] at h
          cases h
          exact ⟨a, List.mem_cons_self, ha⟩
      | ok b =>
          cases hrest : l.mapM f with
          | ok rest =>
              rw [ha, hrest] at h
              cases h
          | error e' =>
              rw [ha, hrest] at h
              cases h
              obtain ⟨a', ha', he⟩ := ih hrest
              exact ⟨a', List.mem_cons_of_mem _ ha', he⟩

end List

/-! ## Lists with keys -/

namespace List

variable {α κ : Type} [DecidableEq κ] {key : α → κ} {l : List α} {a : α}

/-- If the keys differ, there is one element with a key. -/
theorem filter_key (h : (l.map key).Nodup) (ha : a ∈ l) :
    l.filter (fun b => key b == key a) = [a] := by
  induction l with
  | nil => cases ha
  | cons b l ih =>
      obtain ⟨hb, hrest⟩ := List.nodup_cons.mp h
      rcases List.mem_cons.mp ha with rfl | ha
      · rw [List.filter_cons_of_pos (by simp), List.filter_eq_nil_iff.mpr]
        intro c hc hkey
        exact hb (beq_iff_eq.mp hkey ▸ List.mem_map_of_mem hc)
      · have hne : ¬ (key b == key a) = true := by
          intro hkey
          exact hb (beq_iff_eq.mp hkey ▸ List.mem_map_of_mem ha)
        rw [List.filter_cons, if_neg hne, ih hrest ha]

theorem find?_key (h : (l.map key).Nodup) (ha : a ∈ l) :
    l.find? (fun b => key b == key a) = some a := by
  rw [← List.head?_filter, filter_key h ha, List.head?_cons]

end List
