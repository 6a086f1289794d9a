import Mathlib.Data.List.GetD

/-!
# Base64 — the standard alphabet, padded, canonical

Three bytes are four characters. A decoder that re-encodes what it read and compares, as the
strict ones do, accepts exactly the encodings.

* **`encode`** — bytes to characters.
* **`decode`** — characters to bytes; only canonical text is accepted (`decode_eq_some_iff`).
-/

namespace Base64

def alphabet : List Char :=
  "ABCDEFGHIJKLMNOPQRSTUVWXYZabcdefghijklmnopqrstuvwxyz0123456789+/".toList

def symbol (n : Nat) : Char := alphabet.getD n 'A'

def value (c : Char) : Option Nat := if c ∈ alphabet then some (alphabet.idxOf c) else none

def encode : List UInt8 → List Char
  | [] => []
  | [a] => [symbol (a.toNat / 4), symbol (a.toNat % 4 * 16), '=', '=']
  | [a, b] =>
    [symbol (a.toNat / 4), symbol (a.toNat % 4 * 16 + b.toNat / 16), symbol (b.toNat % 16 * 4), '=']
  | a :: b :: c :: rest =>
    symbol (a.toNat / 4) :: symbol (a.toNat % 4 * 16 + b.toNat / 16) ::
      symbol (b.toNat % 16 * 4 + c.toNat / 64) :: symbol (c.toNat % 64) :: encode rest

/-- The first, second and third byte of a group. -/
def first (x y : Nat) : UInt8 := UInt8.ofNat (x * 4 + y / 16)
def second (y z : Nat) : UInt8 := UInt8.ofNat (y % 16 * 16 + z / 4)
def third (z w : Nat) : UInt8 := UInt8.ofNat (z % 4 * 64 + w)

/-- Reads group by group; the last may be padded. -/
def decodeGroups : List Char → Option (List UInt8)
  | [] => some []
  | a :: b :: c :: d :: rest => do
    let x ← value a
    let y ← value b
    if c = '=' ∧ d = '=' ∧ rest = [] then return [first x y]
    let z ← value c
    if d = '=' ∧ rest = [] then return [first x y, second y z]
    let w ← value d
    return first x y :: second y z :: third z w :: (← decodeGroups rest)
  | _ => none

def decode (text : List Char) : Option (List UInt8) := do
  let bytes ← decodeGroups text
  if encode bytes = text then some bytes else none

/-! ## What decodes -/

theorem alphabet_length : alphabet.length = 64 := by decide

theorem alphabet_nodup : alphabet.Nodup := by decide

theorem symbol_mem {n : Nat} (h : n < 64) : symbol n ∈ alphabet := by
  have hlt : n < alphabet.length := by rw [alphabet_length]; exact h
  unfold symbol
  rw [List.getD_eq_getElem _ _ hlt]
  exact List.getElem_mem hlt

theorem value_symbol {n : Nat} (h : n < 64) : value (symbol n) = some n := by
  have hlt : n < alphabet.length := by rw [alphabet_length]; exact h
  unfold value
  rw [if_pos (symbol_mem h)]
  unfold symbol
  rw [List.getD_eq_getElem _ _ hlt, alphabet_nodup.idxOf_getElem]

theorem symbol_ne_pad {n : Nat} (h : n < 64) : symbol n ≠ '=' := by
  intro heq
  have hmem : '=' ∈ alphabet := heq ▸ symbol_mem h
  exact absurd hmem (by decide)

theorem first_eq (a : UInt8) (r : Nat) (hr : r < 16) : first (a.toNat / 4) (a.toNat % 4 * 16 + r) = a := by
  unfold first
  have h : a.toNat / 4 * 4 + (a.toNat % 4 * 16 + r) / 16 = a.toNat := by omega
  rw [h, UInt8.ofNat_toNat]

theorem second_eq (b : UInt8) (q r : Nat) (hr : r < 4) :
    second (q * 16 + b.toNat / 16) (b.toNat % 16 * 4 + r) = b := by
  unfold second
  have hb := b.toNat_lt
  have h : (q * 16 + b.toNat / 16) % 16 * 16 + (b.toNat % 16 * 4 + r) / 4 = b.toNat := by omega
  rw [h, UInt8.ofNat_toNat]

theorem third_eq (c : UInt8) (q : Nat) : third (q * 4 + c.toNat / 64) (c.toNat % 64) = c := by
  unfold third
  have hc := c.toNat_lt
  have h : (q * 4 + c.toNat / 64) % 4 * 64 + c.toNat % 64 = c.toNat := by omega
  rw [h, UInt8.ofNat_toNat]

theorem decodeGroups_encode (bytes : List UInt8) : decodeGroups (encode bytes) = some bytes := by
  induction bytes using encode.induct with
  | case1 => rfl
  | case2 a =>
    have ha := a.toNat_lt
    have hfirst := first_eq a 0 (by omega)
    rw [Nat.add_zero] at hfirst
    simp only [encode, decodeGroups]
    rw [value_symbol (by omega), value_symbol (by omega)]
    simp [hfirst]
  | case3 a b =>
    have ha := a.toNat_lt
    have hb := b.toNat_lt
    have hfirst := first_eq a (b.toNat / 16) (by omega)
    have hsecond := second_eq b (a.toNat % 4) 0 (by omega)
    rw [Nat.add_zero] at hsecond
    have hpad : symbol (b.toNat % 16 * 4) ≠ '=' := symbol_ne_pad (by omega)
    simp only [encode, decodeGroups]
    rw [value_symbol (by omega), value_symbol (by omega), value_symbol (by omega)]
    simp [hpad, hfirst, hsecond]
  | case4 a b c rest ih =>
    have ha := a.toNat_lt
    have hb := b.toNat_lt
    have hc := c.toNat_lt
    have hfirst := first_eq a (b.toNat / 16) (by omega)
    have hsecond := second_eq b (a.toNat % 4) (c.toNat / 64) (by omega)
    have hthird := third_eq c (b.toNat % 16)
    have hpad : symbol (b.toNat % 16 * 4 + c.toNat / 64) ≠ '=' := symbol_ne_pad (by omega)
    have hpad' : symbol (c.toNat % 64) ≠ '=' := symbol_ne_pad (by omega)
    simp only [encode, decodeGroups]
    rw [value_symbol (by omega), value_symbol (by omega), value_symbol (by omega),
      value_symbol (by omega)]
    simp [hpad, hpad', ih, hfirst, hsecond, hthird]

theorem decode_encode (bytes : List UInt8) : decode (encode bytes) = some bytes := by
  unfold decode
  rw [decodeGroups_encode]
  simp

/-- Exactly the encodings decode. -/
theorem decode_eq_some_iff {text : List Char} {bytes : List UInt8} :
    decode text = some bytes ↔ encode bytes = text := by
  constructor
  · intro h
    unfold decode at h
    obtain ⟨read, -, hread⟩ := Option.bind_eq_some_iff.mp h
    obtain ⟨heq, hsome⟩ := Option.ite_none_right_eq_some.mp hread
    rwa [← Option.some.inj hsome]
  · rintro rfl
    exact decode_encode bytes

example : encode [77, 97, 110] = "TWFu".toList := by decide

example : decode "TWE=".toList = some [77, 97] := by decide

/-! ## How long an encoding is -/

theorem length_encode (bytes : List UInt8) : (encode bytes).length = 4 * ((bytes.length + 2) / 3) := by
  induction bytes using encode.induct with
  | case1 => rfl
  | case2 a | case3 a b => simp [encode]
  | case4 a b c rest ih =>
    simp only [encode, List.length_cons, ih]
    omega

theorem mem_encode {bytes : List UInt8} {c : Char} (h : c ∈ encode bytes) : c ∈ '=' :: alphabet := by
  have hsymbol : ∀ n < 64, symbol n ∈ '=' :: alphabet := fun n hn =>
    List.mem_cons_of_mem _ (symbol_mem hn)
  induction bytes using encode.induct with
  | case1 => exact absurd h List.not_mem_nil
  | case2 a =>
    have ha := a.toNat_lt
    simp only [encode, List.mem_cons, List.not_mem_nil, or_false] at h
    rcases h with rfl | rfl | rfl | rfl
    iterate 2 exact hsymbol _ (by omega)
    iterate 2 exact List.mem_cons_self
  | case3 a b =>
    have ha := a.toNat_lt
    have hb := b.toNat_lt
    simp only [encode, List.mem_cons, List.not_mem_nil, or_false] at h
    rcases h with rfl | rfl | rfl | rfl
    iterate 3 exact hsymbol _ (by omega)
    exact List.mem_cons_self
  | case4 a b c rest ih =>
    have ha := a.toNat_lt
    have hb := b.toNat_lt
    have hc := c.toNat_lt
    simp only [encode, List.mem_cons] at h
    rcases h with rfl | rfl | rfl | rfl | h
    iterate 4 exact hsymbol _ (by omega)
    exact ih h

end Base64
