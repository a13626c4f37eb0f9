import Mathlib.Algebra.Ring.Nat
import Mathlib.Data.List.Basic

/-!
# Self-delimiting encodings

An encoding delimits itself if a text that starts with an encoded value tells which value that is and
where the rest begins. Such encodings can be put one after the other, and a sequence of them can be
taken apart again.

* `Delimits P encode` — the encoding of the values with `P` delimits itself.
* `Delimits.pair`, `Delimits.flatMap_inj` — of two values, and of a list of them.
* `beBytes` — a number in so many bytes, the most significant one first.
* `delimits_prefixed` — bytes after their number.
-/

namespace SelfDelimiting

variable {α β γ : Type}

def Delimits (P : α → Prop) (encode : α → List γ) : Prop :=
  ∀ a b, P a → P b → ∀ x y, encode a ++ x = encode b ++ y → a = b ∧ x = y

section Delimits

variable {P : α → Prop} {Q : β → Prop} {encode : α → List γ} {encode' : β → List γ}

/-- One value after the other. -/
theorem Delimits.pair (h : Delimits P encode) (h' : Delimits Q encode') :
    Delimits (fun p : α × β => P p.1 ∧ Q p.2) (fun p => encode p.1 ++ encode' p.2) := by
  rintro ⟨a, b⟩ ⟨c, d⟩ ⟨ha, hb⟩ ⟨hc, hd⟩ x y hxy
  rw [List.append_assoc, List.append_assoc] at hxy
  obtain ⟨rfl, hrest⟩ := h a c ha hc _ _ hxy
  obtain ⟨rfl, rfl⟩ := h' b d hb hd _ _ hrest
  exact ⟨rfl, rfl⟩

/-- Lists of values are told apart by their encodings, if none of these is empty. -/
theorem Delimits.flatMap_inj (h : Delimits P encode) (hne : ∀ a, encode a ≠ []) {l l' : List α}
    (hl : ∀ a ∈ l, P a) (hl' : ∀ a ∈ l', P a) (heq : l.flatMap encode = l'.flatMap encode) :
    l = l' := by
  -- By induction; the first encodings are equal, since neither runs into what follows.
  induction l generalizing l' with
  | nil =>
      cases l' with
      | nil => rfl
      | cons b l' =>
          rw [List.flatMap_nil, List.flatMap_cons] at heq
          exact absurd (List.append_eq_nil_iff.mp heq.symm).1 (hne b)
  | cons a l ih =>
      cases l' with
      | nil =>
          rw [List.flatMap_nil, List.flatMap_cons] at heq
          exact absurd (List.append_eq_nil_iff.mp heq).1 (hne a)
      | cons b l' =>
          rw [List.flatMap_cons, List.flatMap_cons] at heq
          obtain ⟨rfl, hrest⟩ := h a b (hl a List.mem_cons_self) (hl' b List.mem_cons_self) _ _ heq
          rw [ih (fun c hc => hl c (List.mem_cons_of_mem a hc))
            (fun c hc => hl' c (List.mem_cons_of_mem a hc)) hrest]

end Delimits

/-! ## Bytes after their number -/

def beBytes : (width : Nat) → Nat → List UInt8
  | 0, _ => []
  | width + 1, n => beBytes width (n / 256) ++ [UInt8.ofNat n]

theorem length_beBytes (width n : Nat) : (beBytes width n).length = width := by
  induction width generalizing n with
  | zero => rfl
  | succ width ih => rw [beBytes, List.length_append, ih, List.length_singleton]

theorem beBytes_inj {width m n : Nat} (hm : m < 256 ^ width) (hn : n < 256 ^ width)
    (h : beBytes width m = beBytes width n) : m = n := by
  induction width generalizing m n with
  | zero => omega
  | succ width ih =>
      obtain ⟨hhigh, hlow⟩ := List.append_inj' h rfl
      have hbyte : m % 256 = n % 256 := by
        have hsame := congrArg UInt8.toNat (List.singleton_inj.mp hlow)
        rwa [UInt8.toNat_ofNat', UInt8.toNat_ofNat'] at hsame
      have hquotient : m / 256 = n / 256 := by
        apply ih _ _ hhigh
        · rw [Nat.pow_succ] at hm
          exact Nat.div_lt_of_lt_mul (by omega)
        · rw [Nat.pow_succ] at hn
          exact Nat.div_lt_of_lt_mul (by omega)
      omega

/-- The number of the bytes, then the bytes. -/
def prefixed (width : Nat) (bytes : List UInt8) : List UInt8 := beBytes width bytes.length ++ bytes

theorem delimits_prefixed (width : Nat) :
    Delimits (fun bytes => bytes.length < 256 ^ width) (prefixed width) := by
  intro a b ha hb x y h
  unfold prefixed at h
  rw [List.append_assoc, List.append_assoc] at h
  obtain ⟨hnumber, hbytes⟩ := List.append_inj h (by rw [length_beBytes, length_beBytes])
  exact List.append_inj hbytes (beBytes_inj ha hb hnumber)

theorem prefixed_ne_nil {width : Nat} (hwidth : width ≠ 0) (bytes : List UInt8) :
    prefixed width bytes ≠ [] := by
  intro h
  have hlength := length_beBytes width bytes.length
  rw [(List.append_eq_nil_iff.mp h).1] at hlength
  exact hwidth hlength.symm

end SelfDelimiting
