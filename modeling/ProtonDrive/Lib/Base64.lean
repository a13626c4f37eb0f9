import Mathlib.Data.List.Basic
import Mathlib.Data.Option.Basic
import Mathlib.Data.String.Basic

/-!
# Base64

The standard alphabet, with padding. Three bytes make four symbols of six bits; the last group may
have one or two bytes, and is filled up with `=`. Decoding is strict: the padding has to be there,
and the bits that it leaves over have to be zero.

* `decode_encode` — what has been encoded is decoded again.
* `decode_eq_some` — nothing else is: a string is decoded only if it is the encoding of some bytes.
-/

namespace Base64

def alphabet : List Char :=
  "ABCDEFGHIJKLMNOPQRSTUVWXYZabcdefghijklmnopqrstuvwxyz0123456789+/".toList

def padding : Char := '='

/-- The symbol of six bits. -/
def symbol (v : Nat) : Char := alphabet.getD v padding

/-- The six bits of a symbol. -/
def sextet (c : Char) : Option Nat := alphabet.idxOf? c

/-! ## Encoding -/

def encodeChars : List UInt8 → List Char
  | [] => []
  | [a] => [symbol (a.toNat / 4), symbol (a.toNat % 4 * 16), padding, padding]
  | [a, b] =>
      [symbol (a.toNat / 4), symbol (a.toNat % 4 * 16 + b.toNat / 16), symbol (b.toNat % 16 * 4),
        padding]
  | a :: b :: c :: rest =>
      symbol (a.toNat / 4) :: symbol (a.toNat % 4 * 16 + b.toNat / 16) ::
        symbol (b.toNat % 16 * 4 + c.toNat / 64) :: symbol (c.toNat % 64) :: encodeChars rest

def encode (bytes : List UInt8) : String := String.ofList (encodeChars bytes)

/-! ## Decoding -/

/-- A group without padding. -/
def decodeFull (w x y z : Char) : Option (List UInt8) := do
  let w ← sextet w
  let x ← sextet x
  let y ← sextet y
  let z ← sextet z
  return [UInt8.ofNat (w * 4 + x / 16), UInt8.ofNat (x % 16 * 16 + y / 4),
    UInt8.ofNat (y % 4 * 64 + z)]

/-- Three symbols; two bits are left over. -/
def decodeTwo (w x y : Char) : Option (List UInt8) := do
  let w ← sextet w
  let x ← sextet x
  let y ← sextet y
  if y % 4 = 0 then some [UInt8.ofNat (w * 4 + x / 16), UInt8.ofNat (x % 16 * 16 + y / 4)]
  else none

/-- Two symbols; four bits are left over. -/
def decodeOne (w x : Char) : Option (List UInt8) := do
  let w ← sextet w
  let x ← sextet x
  if x % 16 = 0 then some [UInt8.ofNat (w * 4 + x / 16)] else none

/-- Only the last group may be padded. -/
def decodeLast (w x y z : Char) : Option (List UInt8) :=
  if z = padding then if y = padding then decodeOne w x else decodeTwo w x y
  else decodeFull w x y z

def decodeChars : List Char → Option (List UInt8)
  | [] => some []
  | [w, x, y, z] => decodeLast w x y z
  | w :: x :: y :: z :: rest => do
      let bytes ← decodeFull w x y z
      let more ← decodeChars rest
      return bytes ++ more
  | _ => none

def decode (s : String) : Option (List UInt8) := decodeChars s.toList

/-! ## Symbols -/

theorem alphabet_nodup : alphabet.Nodup := by decide

theorem alphabet_length : alphabet.length = 64 := by decide

theorem symbol_eq {v : Nat} (h : v < alphabet.length) : symbol v = alphabet[v] := by
  simp [symbol, List.getD, List.getElem?_eq_getElem h]

theorem sextet_symbol {v : Nat} (h : v < 64) : sextet (symbol v) = some v := by
  rw [← alphabet_length] at h
  rw [symbol_eq h, sextet, List.idxOf?_eq_some_iff]
  refine ⟨h, rfl, ?_⟩
  intro j hj heq
  have hsame : j = v := (List.getElem_inj alphabet_nodup).mp heq
  omega

theorem symbol_of_sextet {c : Char} {v : Nat} (h : sextet c = some v) : v < 64 ∧ symbol v = c := by
  obtain ⟨hlt, heq, -⟩ := List.idxOf?_eq_some_iff.mp h
  exact ⟨by rwa [← alphabet_length], (symbol_eq hlt).trans heq⟩

/-- The padding is not a symbol. -/
theorem sextet_padding : sextet padding = none := by decide

theorem symbol_ne_padding {v : Nat} (h : v < 64) : symbol v ≠ padding := by
  intro heq
  have hsome := sextet_symbol h
  rw [heq, sextet_padding] at hsome
  cases hsome

/-! ## Groups -/

section Groups

variable (a b c : UInt8)

theorem decodeOne_encode :
    decodeOne (symbol (a.toNat / 4)) (symbol (a.toNat % 4 * 16)) = some [a] := by
  have ha := a.toNat_lt
  have hzero : a.toNat % 4 * 16 % 16 = 0 := by omega
  have hbyte : a.toNat / 4 * 4 + a.toNat % 4 * 16 / 16 = a.toNat := by omega
  simp only [decodeOne, sextet_symbol (show a.toNat / 4 < 64 by omega),
    sextet_symbol (show a.toNat % 4 * 16 < 64 by omega), Option.bind_eq_bind, Option.bind_some,
    hzero, hbyte, if_true, UInt8.ofNat_toNat]

theorem decodeTwo_encode :
    decodeTwo (symbol (a.toNat / 4)) (symbol (a.toNat % 4 * 16 + b.toNat / 16))
      (symbol (b.toNat % 16 * 4)) = some [a, b] := by
  have ha := a.toNat_lt
  have hb := b.toNat_lt
  have hzero : b.toNat % 16 * 4 % 4 = 0 := by omega
  have hfirst : a.toNat / 4 * 4 + (a.toNat % 4 * 16 + b.toNat / 16) / 16 = a.toNat := by omega
  have hsecond : (a.toNat % 4 * 16 + b.toNat / 16) % 16 * 16 + b.toNat % 16 * 4 / 4 = b.toNat := by
    omega
  simp only [decodeTwo, sextet_symbol (show a.toNat / 4 < 64 by omega),
    sextet_symbol (show a.toNat % 4 * 16 + b.toNat / 16 < 64 by omega),
    sextet_symbol (show b.toNat % 16 * 4 < 64 by omega), Option.bind_eq_bind, Option.bind_some,
    hzero, hfirst, hsecond, if_true, UInt8.ofNat_toNat]

theorem decodeFull_encode :
    decodeFull (symbol (a.toNat / 4)) (symbol (a.toNat % 4 * 16 + b.toNat / 16))
      (symbol (b.toNat % 16 * 4 + c.toNat / 64)) (symbol (c.toNat % 64)) = some [a, b, c] := by
  have ha := a.toNat_lt
  have hb := b.toNat_lt
  have hc := c.toNat_lt
  have hfirst : a.toNat / 4 * 4 + (a.toNat % 4 * 16 + b.toNat / 16) / 16 = a.toNat := by omega
  have hsecond : (a.toNat % 4 * 16 + b.toNat / 16) % 16 * 16 +
      (b.toNat % 16 * 4 + c.toNat / 64) / 4 = b.toNat := by omega
  have hthird : (b.toNat % 16 * 4 + c.toNat / 64) % 4 * 64 + c.toNat % 64 = c.toNat := by omega
  simp only [decodeFull, sextet_symbol (show a.toNat / 4 < 64 by omega),
    sextet_symbol (show a.toNat % 4 * 16 + b.toNat / 16 < 64 by omega),
    sextet_symbol (show b.toNat % 16 * 4 + c.toNat / 64 < 64 by omega),
    sextet_symbol (show c.toNat % 64 < 64 by omega), Option.bind_eq_bind, Option.bind_some, hfirst,
    hsecond, hthird, UInt8.ofNat_toNat]
  rfl

end Groups

/-- A byte is given back if it is one. -/
theorem toNat_ofNat {n : Nat} (h : n < 256) : (UInt8.ofNat n).toNat = n := by
  rw [UInt8.toNat_ofNat']
  exact Nat.mod_eq_of_lt h

theorem encodeChars_of_decodeOne {w x : Char} {bytes : List UInt8}
    (h : decodeOne w x = some bytes) : encodeChars bytes = [w, x, padding, padding] := by
  unfold decodeOne at h
  simp only [Option.bind_eq_bind, Option.bind_eq_some_iff] at h
  obtain ⟨m, hm, n, hn, h⟩ := h
  obtain ⟨hmlt, rfl⟩ := symbol_of_sextet hm
  obtain ⟨hnlt, rfl⟩ := symbol_of_sextet hn
  split at h
  · next hzero =>
    cases h
    rw [encodeChars, toNat_ofNat (by omega)]
    have hw : (m * 4 + n / 16) / 4 = m := by omega
    have hx : (m * 4 + n / 16) % 4 * 16 = n := by omega
    rw [hw, hx]
  · cases h

theorem encodeChars_of_decodeTwo {w x y : Char} {bytes : List UInt8}
    (h : decodeTwo w x y = some bytes) : encodeChars bytes = [w, x, y, padding] := by
  unfold decodeTwo at h
  simp only [Option.bind_eq_bind, Option.bind_eq_some_iff] at h
  obtain ⟨m, hm, n, hn, k, hk, h⟩ := h
  obtain ⟨hmlt, rfl⟩ := symbol_of_sextet hm
  obtain ⟨hnlt, rfl⟩ := symbol_of_sextet hn
  obtain ⟨hklt, rfl⟩ := symbol_of_sextet hk
  split at h
  · next hzero =>
    cases h
    rw [encodeChars, toNat_ofNat (by omega), toNat_ofNat (by omega)]
    have hw : (m * 4 + n / 16) / 4 = m := by omega
    have hx : (m * 4 + n / 16) % 4 * 16 + (n % 16 * 16 + k / 4) / 16 = n := by omega
    have hy : (n % 16 * 16 + k / 4) % 16 * 4 = k := by omega
    rw [hw, hx, hy]
  · cases h

theorem encodeChars_of_decodeFull {w x y z : Char} {bytes : List UInt8}
    (h : decodeFull w x y z = some bytes) (rest : List UInt8) :
    encodeChars (bytes ++ rest) = w :: x :: y :: z :: encodeChars rest := by
  unfold decodeFull at h
  simp only [Option.bind_eq_bind, Option.bind_eq_some_iff] at h
  obtain ⟨m, hm, n, hn, k, hk, l, hl, h⟩ := h
  obtain ⟨hmlt, rfl⟩ := symbol_of_sextet hm
  obtain ⟨hnlt, rfl⟩ := symbol_of_sextet hn
  obtain ⟨hklt, rfl⟩ := symbol_of_sextet hk
  obtain ⟨hllt, rfl⟩ := symbol_of_sextet hl
  cases h
  simp only [List.cons_append, List.nil_append]
  rw [encodeChars, toNat_ofNat (by omega), toNat_ofNat (by omega), toNat_ofNat (by omega)]
  have hw : (m * 4 + n / 16) / 4 = m := by omega
  have hx : (m * 4 + n / 16) % 4 * 16 + (n % 16 * 16 + k / 4) / 16 = n := by omega
  have hy : (n % 16 * 16 + k / 4) % 16 * 4 + (k % 4 * 64 + l) / 64 = k := by omega
  have hz : (k % 4 * 64 + l) % 64 = l := by omega
  rw [hw, hx, hy, hz]

/-! ## Round trips -/

theorem decodeChars_append {w x y z : Char} {bytes : List UInt8}
    (h : decodeFull w x y z = some bytes) (hz : z ≠ padding) (rest : List Char) :
    decodeChars (w :: x :: y :: z :: rest) = (decodeChars rest).map (bytes ++ ·) := by
  cases rest with
  | nil => simp [decodeChars, decodeLast, hz, h]
  | cons c rest =>
      rw [decodeChars, h]
      · simp only [Option.bind_eq_bind, Option.bind_some]
        cases decodeChars (c :: rest) <;> rfl
      · intro hnil
        cases hnil

theorem decodeChars_encodeChars (bytes : List UInt8) :
    decodeChars (encodeChars bytes) = some bytes := by
  induction bytes using encodeChars.induct with
  | case1 => rfl
  | case2 a =>
      simp only [encodeChars, decodeChars, decodeLast, if_true]
      exact decodeOne_encode a
  | case3 a b =>
      have hb := b.toNat_lt
      have hy : symbol (b.toNat % 16 * 4) ≠ padding := symbol_ne_padding (by omega)
      simp only [encodeChars, decodeChars, decodeLast, if_true, if_neg hy]
      exact decodeTwo_encode a b
  | case4 a b c rest ih =>
      have hz : symbol (c.toNat % 64) ≠ padding := symbol_ne_padding (by omega)
      rw [encodeChars, decodeChars_append (decodeFull_encode a b c) hz, ih]
      rfl

/-- Nothing is decoded but what is an encoding. -/
theorem encodeChars_of_decodeChars {cs : List Char} {bytes : List UInt8}
    (h : decodeChars cs = some bytes) : encodeChars bytes = cs := by
  -- By the cases of the decoder: nothing, the last group, a group before others, and too few.
  induction cs using decodeChars.induct generalizing bytes with
  | case1 =>
      cases h
      rfl
  | case2 w x y z =>
      simp only [decodeChars, decodeLast] at h
      split at h
      · next hz =>
        -- The last group may be padded by two characters, by one, or by none.
        split at h
        · next hy => rw [hy, hz, encodeChars_of_decodeOne h]
        · rw [hz, encodeChars_of_decodeTwo h]
      · have hfull := encodeChars_of_decodeFull h []
        rwa [List.append_nil] at hfull
  | case3 w x y z rest hne ih =>
      rw [decodeChars] at h
      · simp only [Option.bind_eq_bind, Option.bind_eq_some_iff] at h
        obtain ⟨group, hgroup, more, hmore, h⟩ := h
        cases h
        rw [encodeChars_of_decodeFull hgroup, ih hmore]
      · exact hne
  | case4 cs h1 h2 h3 =>
      rw [decodeChars] at h
      · cases h
      · exact h1
      · exact h2
      · exact h3

theorem decode_encode (bytes : List UInt8) : decode (encode bytes) = some bytes := by
  unfold decode encode
  rw [String.toList_ofList]
  exact decodeChars_encodeChars bytes

theorem decode_eq_some {s : String} {bytes : List UInt8} :
    decode s = some bytes ↔ s = encode bytes := by
  constructor
  · intro h
    unfold encode
    rw [encodeChars_of_decodeChars h, String.ofList_toList]
  · rintro rfl
    exact decode_encode bytes

example : encode [102, 111, 111, 98] = "Zm9vYg==" := by decide

end Base64
