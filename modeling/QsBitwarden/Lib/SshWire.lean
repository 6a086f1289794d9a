import Mathlib.Algebra.Order.Ring.Int
import Mathlib.Data.List.Basic

/-!
# SshWire — the RFC 4251 data representations

A reader is the list of bytes still to be read. `decodeU8`, `decodeU32` and `decodeString`
take one value off its front, or fail without saying where; a *string* is a big-endian
32-bit length followed by that many bytes.

* **`decodeU32_iff`**, **`decodeString_iff`** — the readers invert the writers, and read nothing
  else.
-/

namespace SshWire

abbrev Bytes := List UInt8

def decodeU8 : Bytes → Option (UInt8 × Bytes)
  | [] => none
  | b :: rest => some (b, rest)

/-- The big-endian value of four bytes. -/
def beU32 (a b c d : UInt8) : Nat :=
  a.toNat * 2 ^ 24 + b.toNat * 2 ^ 16 + c.toNat * 2 ^ 8 + d.toNat

def decodeU32 : Bytes → Option (Nat × Bytes)
  | a :: b :: c :: d :: rest => some (beU32 a b c d, rest)
  | _ => none

def decodeString (bytes : Bytes) : Option (Bytes × Bytes) :=
  match decodeU32 bytes with
  | none => none
  | some (n, rest) => if n ≤ rest.length then some (rest.take n, rest.drop n) else none

def encodeU32 (n : Nat) : Bytes :=
  [UInt8.ofNat (n / 2 ^ 24), UInt8.ofNat (n / 2 ^ 16), UInt8.ofNat (n / 2 ^ 8), UInt8.ofNat n]

/-- Fails where the length has no 32-bit representation. -/
def encodeString (bytes : Bytes) : Option Bytes :=
  if bytes.length < 2 ^ 32 then some (encodeU32 bytes.length ++ bytes) else none

/-! ## What is read is what is written -/

/-- A string on the wire. -/
def str (bytes : Bytes) : Bytes := encodeU32 bytes.length ++ bytes

theorem length_str (bytes : Bytes) : (str bytes).length = bytes.length + 4 := by
  rw [str, List.length_append, Nat.add_comm]
  rfl

theorem decodeU8_iff {bytes rest : Bytes} {b : UInt8} :
    decodeU8 bytes = some (b, rest) ↔ bytes = b :: rest := by
  cases bytes with
  | nil => exact ⟨(fun h => nomatch h), (fun h => nomatch h)⟩
  | cons c bytes =>
    rw [decodeU8, Option.some.injEq, Prod.mk.injEq, List.cons.injEq]

theorem beU32_lt (a b c d : UInt8) : beU32 a b c d < 2 ^ 32 := by
  have ha := a.toNat_lt
  have hb := b.toNat_lt
  have hc := c.toNat_lt
  have hd := d.toNat_lt
  unfold beU32
  omega

theorem encodeU32_beU32 (a b c d : UInt8) : encodeU32 (beU32 a b c d) = [a, b, c, d] := by
  have ha := a.toNat_lt
  have hb := b.toNat_lt
  have hc := c.toNat_lt
  have hd := d.toNat_lt
  have hbyte : ∀ (x : UInt8) (n : Nat), n % 256 = x.toNat → UInt8.ofNat n = x := by
    intro x n hn
    apply UInt8.toNat_inj.mp
    rw [UInt8.toNat_ofNat', hn]
  unfold encodeU32 beU32
  rw [hbyte a _ (by omega), hbyte b _ (by omega), hbyte c _ (by omega), hbyte d _ (by omega)]

theorem decodeU32_encode {n : Nat} (h : n < 2 ^ 32) (rest : Bytes) :
    decodeU32 (encodeU32 n ++ rest) = some (n, rest) := by
  show some (beU32 _ _ _ _, rest) = _
  have hvalue : beU32 (UInt8.ofNat (n / 2 ^ 24)) (UInt8.ofNat (n / 2 ^ 16))
      (UInt8.ofNat (n / 2 ^ 8)) (UInt8.ofNat n) = n := by
    unfold beU32
    rw [UInt8.toNat_ofNat', UInt8.toNat_ofNat', UInt8.toNat_ofNat', UInt8.toNat_ofNat']
    omega
  rw [hvalue]

theorem decodeU32_iff {bytes rest : Bytes} {n : Nat} :
    decodeU32 bytes = some (n, rest) ↔ n < 2 ^ 32 ∧ bytes = encodeU32 n ++ rest := by
  constructor
  · intro h
    unfold decodeU32 at h
    split at h
    · next a b c d tail =>
      obtain ⟨rfl, rfl⟩ := Prod.mk.inj (Option.some.inj h)
      exact ⟨beU32_lt a b c d, by rw [encodeU32_beU32]; rfl⟩
    · cases h
  · rintro ⟨hn, rfl⟩
    exact decodeU32_encode hn rest

theorem decodeString_short {a b c d : UInt8} {rest : Bytes} (h : rest.length < beU32 a b c d) :
    decodeString (a :: b :: c :: d :: rest) = none := by
  rw [decodeString, decodeU32]
  exact if_neg (Nat.not_le.mpr h)

theorem decodeString_iff {bytes value rest : Bytes} :
    decodeString bytes = some (value, rest)
      ↔ value.length < 2 ^ 32 ∧ bytes = str value ++ rest := by
  constructor
  · intro h
    unfold decodeString at h
    split at h
    · cases h
    · next n tail hlength =>
      obtain ⟨hn, rfl⟩ := decodeU32_iff.mp hlength
      split at h
      · next hle =>
        obtain ⟨rfl, rfl⟩ := Prod.mk.inj (Option.some.inj h)
        have htake : (tail.take n).length = n := List.length_take_of_le hle
        refine ⟨by rw [htake]; exact hn, ?_⟩
        rw [str, htake, List.append_assoc, List.take_append_drop]
      · cases h
  · rintro ⟨hlength, rfl⟩
    have hle : value.length ≤ (value ++ rest).length := by
      rw [List.length_append]
      exact Nat.le_add_right _ _
    rw [str, List.append_assoc, decodeString, decodeU32_encode hlength]
    show (if value.length ≤ (value ++ rest).length then _ else _) = _
    rw [if_pos hle, List.take_left, List.drop_left]

end SshWire
