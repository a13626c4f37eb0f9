import Mathlib.Data.Nat.Digits.Lemmas
import Mathlib.Data.Nat.Size
import Mathlib.FieldTheory.Finite.Basic

/-!
# Unsigned big integers

Natural numbers with the operations of an unsigned big integer type, which stops the program where
an integer has no answer: below zero, and modulo zero.

* `fromBytesLe_toBytesLe` — a number is read back from its little-endian bytes.
* `pow_mod_pred` — modulo a prime, an exponent counts modulo the prime less one.
-/

namespace BigUint

/-! ## Arithmetic that can stop -/

def sub (a b : Nat) : Option Nat := if b ≤ a then some (a - b) else none

def rem (a n : Nat) : Option Nat := if n = 0 then none else some (a % n)

def modpow (g e n : Nat) : Option Nat := if n = 0 then none else some (g ^ e % n)

theorem sub_of_le {a b : Nat} (h : b ≤ a) : sub a b = some (a - b) := if_pos h

theorem rem_of_pos {n : Nat} (a : Nat) (h : 0 < n) : rem a n = some (a % n) :=
  if_neg (Nat.pos_iff_ne_zero.mp h)

theorem modpow_of_pos {n : Nat} (g e : Nat) (h : 0 < n) : modpow g e n = some (g ^ e % n) :=
  if_neg (Nat.pos_iff_ne_zero.mp h)

/-! ## Bytes -/

def fromBytesLe (bytes : List UInt8) : Nat := Nat.ofDigits 256 (bytes.map UInt8.toNat)

/-- Zero takes one byte, like any other number below 256. -/
def toBytesLe (n : Nat) : List UInt8 :=
  if n = 0 then [0] else (Nat.digits 256 n).map UInt8.ofNat

theorem fromBytesLe_append_zeros (bytes : List UInt8) (count : Nat) :
    fromBytesLe (bytes ++ List.replicate count 0) = fromBytesLe bytes := by
  unfold fromBytesLe
  rw [List.map_append, List.map_replicate]
  exact Nat.ofDigits_append_replicate_zero _

theorem fromBytesLe_toBytesLe (n : Nat) : fromBytesLe (toBytesLe n) = n := by
  unfold toBytesLe
  split
  · next hzero =>
    rw [hzero]
    rfl
  · have hbytes : ((Nat.digits 256 n).map UInt8.ofNat).map UInt8.toNat = Nat.digits 256 n := by
      rw [List.map_map]
      conv_rhs => rw [← List.map_id (Nat.digits 256 n)]
      apply List.map_congr_left
      intro d hd
      have hlt : d < 256 := Nat.digits_lt_base (by norm_num) hd
      exact UInt8.toNat_ofNat_of_lt hlt
    rw [fromBytesLe, hbytes, Nat.ofDigits_digits]

theorem length_toBytesLe_le {n count : Nat} (hcount : 0 < count) (h : n < 256 ^ count) :
    (toBytesLe n).length ≤ count := by
  unfold toBytesLe
  split
  · exact hcount
  · rw [List.length_map]
    exact (Nat.digits_length_le_iff (by norm_num) n).mpr h

/-! ## Powers modulo a prime -/

theorem pow_mod_pred {p : Nat} [Fact p.Prime] {g : ZMod p} (hg : g ≠ 0) (e : Nat) :
    g ^ (e % (p - 1)) = g ^ e :=
  (pow_eq_pow_mod e (ZMod.pow_card_sub_one_eq_one hg)).symm

/-- Residues are told apart by their images in `ZMod`. -/
theorem mod_eq_of_cast_eq {p a b : Nat} (h : (a : ZMod p) = (b : ZMod p)) : a % p = b % p :=
  (ZMod.natCast_eq_natCast_iff' a b p).mp h

end BigUint
