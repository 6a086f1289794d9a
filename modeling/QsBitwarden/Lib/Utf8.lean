import Mathlib.Data.List.Basic

/-!
# Lib — texts as UTF-8 bytes

* **`encode`**, **`fromUtf8`** — a text's bytes, and the text that bytes are, if they are one.
* **`fromUtf8_eq_some`** — reading bytes is inverting `encode`; **`encode_injective`**.
* **`octets`** — how many bytes the sequence that a byte leads announces.
* **`encodeChar_shape`** — a character's bytes: a lead that announces their number, and
  continuation bytes, or one ASCII byte. So the bytes of a text can be taken off character by
  character (**`encode_eq_append`**).
-/

namespace QsBitwarden.Utf8

variable {c : Char} {text : List Char}

def encode (text : List Char) : List UInt8 := text.flatMap String.utf8EncodeChar

/-- The text that `bytes` encode. -/
def fromUtf8 (bytes : List UInt8) : Option (List Char) :=
  (String.fromUTF8? ⟨bytes.toArray⟩).map String.toList

/-- The number of bytes of the sequence `b` leads: its leading one bits, or one if there are
none. -/
def octets (b : UInt8) : Nat :=
  if b.toNat < 0x80 then 1
  else if b.toNat < 0xc0 then 0
  else if b.toNat < 0xe0 then 2
  else if b.toNat < 0xf0 then 3
  else if b.toNat < 0xf8 then 4
  else 0

@[simp] theorem encode_nil : encode [] = [] := rfl

@[simp] theorem encode_cons (c : Char) (text : List Char) :
    encode (c :: text) = String.utf8EncodeChar c ++ encode text := rfl

theorem encode_append (text more : List Char) :
    encode (text ++ more) = encode text ++ encode more := List.flatMap_append

/-- The letters and digits of ASCII. -/
theorem isAlphanum_cases (h : c.isAlphanum = true) :
    ((65 ≤ c.toNat ∧ c.toNat ≤ 90) ∨ (97 ≤ c.toNat ∧ c.toNat ≤ 122))
      ∨ (48 ≤ c.toNat ∧ c.toNat ≤ 57) := by
  have hsplit : ((decide ('A'.val ≤ c.val ∧ c.val ≤ 'Z'.val)
      || (decide ('a'.val ≤ c.val) && decide (c.val ≤ 'z'.val)))
      || (decide ('0'.val ≤ c.val) && decide (c.val ≤ '9'.val))) = true := h
  simp only [Bool.or_eq_true, Bool.and_eq_true, decide_eq_true_eq] at hsplit
  exact hsplit

/-- No character has more than four bytes. -/
theorem length_encode_le (text : List Char) : (encode text).length ≤ 4 * text.length := by
  induction text with
  | nil => exact Nat.zero_le _
  | cons c text ih =>
    have hc := c.utf8Size_le_four
    rw [encode_cons, List.length_append, String.length_utf8EncodeChar, List.length_cons]
    omega

private theorem bytes_ofList (text : List Char) :
    (String.ofList text).toByteArray = ⟨(encode text).toArray⟩ := by
  apply ByteArray.ext
  rw [String.toByteArray_ofList, List.utf8Encode, List.data_toByteArray]
  rfl

theorem toUTF8_eq (text : String) : text.toUTF8.data.toList = encode text.toList := by
  have hbytes := bytes_ofList text.toList
  rw [String.ofList_toList] at hbytes
  show text.toByteArray.data.toList = _
  rw [hbytes]

private theorem toList_loop (bytes : ByteArray) (i : Nat) (read : List UInt8) :
    ByteArray.toList.loop bytes i read = read.reverse ++ bytes.data.toList.drop i := by
  fun_induction ByteArray.toList.loop bytes i read with
  | case1 i read hlt ih =>
    have hlt' : i < bytes.data.toList.length := hlt
    have hget : bytes.get! i = bytes.data.toList[i] := getElem!_pos bytes.data i hlt
    rw [ih, List.reverse_cons, List.append_assoc, List.drop_eq_getElem_cons hlt', hget]
    rfl
  | case2 i read hge =>
    have hle : bytes.data.toList.length ≤ i := Nat.le_of_not_lt hge
    rw [List.drop_eq_nil_of_le hle, List.append_nil]

theorem toList_toUTF8 (text : String) : text.toUTF8.toList = encode text.toList := by
  rw [ByteArray.toList, toList_loop]
  exact toUTF8_eq text

/-- Reading bytes inverts `encode`. -/
theorem fromUtf8_eq_some {bytes : List UInt8} :
    fromUtf8 bytes = some text ↔ bytes = encode text := by
  rw [fromUtf8, String.fromUTF8?, Option.map_eq_some_iff]
  constructor
  · rintro ⟨read, hread, rfl⟩
    split at hread
    · cases hread
      rename_i hvalid
      have hbytes : (⟨bytes.toArray⟩ : ByteArray)
          = (String.ofList (String.fromUTF8 ⟨bytes.toArray⟩ hvalid).toList).toByteArray := by
        rw [String.ofList_toList]
        rfl
      rw [bytes_ofList, ByteArray.mk.injEq] at hbytes
      simpa using congrArg Array.toList hbytes
    · cases hread
  · rintro rfl
    have hvalid : ByteArray.IsValidUTF8 ⟨(encode text).toArray⟩ := by
      rw [← bytes_ofList]
      exact (String.ofList text).isValidUTF8
    refine ⟨String.ofList text, ?_, String.toList_ofList⟩
    rw [dif_pos hvalid, Option.some.injEq]
    exact String.toByteArray_inj.mp (bytes_ofList text).symm

theorem encode_injective {other : List Char} (h : encode text = encode other) : text = other :=
  Option.some.inj ((fromUtf8_eq_some.mpr rfl).symm.trans (fromUtf8_eq_some.mpr h))

@[simp] theorem fromUtf8_encode (text : List Char) : fromUtf8 (encode text) = some text :=
  fromUtf8_eq_some.mpr rfl

/-! ## One character's bytes -/

theorem encodeChar_ascii (h : c.toNat < 0x80) :
    String.utf8EncodeChar c = [UInt8.ofNat c.toNat] := by
  have hle : c.val.toNat ≤ 127 := Nat.lt_succ_iff.mp h
  rw [String.utf8EncodeChar, if_pos hle]
  rfl

/-- A character's bytes are one ASCII byte, or a lead byte and continuation bytes, as many as the
lead announces. -/
theorem encodeChar_shape (c : Char) : ∃ lead tail, String.utf8EncodeChar c = lead :: tail
    ∧ octets lead = tail.length + 1 ∧ (∀ t ∈ tail, 0x80 ≤ t.toNat ∧ t.toNat < 0xc0)
    ∧ (lead.toNat < 0x80 ↔ c.toNat < 0x80) := by
  have hmax : c.val.toNat < 1114112 := by
    rcases c.valid with h | h
    · have : c.val.toNat < 55296 := h
      omega
    · exact h.2
  have hval : c.toNat = c.val.toNat := rfl
  have hbyte : ∀ n, (UInt8.ofNat n).toNat = n % 256 := fun n => UInt8.toNat_ofNat'
  rw [String.utf8EncodeChar, hval]
  generalize c.val.toNat = v at *
  -- The four lengths, by the size of the code point.
  by_cases h1 : v ≤ 127
  · refine ⟨_, _, if_pos h1, ?_, by simp, ?_⟩
    · rw [octets, hbyte, if_pos (by omega)]
      rfl
    · rw [hbyte]
      omega
  by_cases h2 : v ≤ 2047
  · refine ⟨_, _, (if_neg h1).trans (if_pos h2), ?_, ?_, ?_⟩
    · simp only [octets, hbyte, List.length_singleton]
      split_ifs <;> omega
    · simp only [List.forall_mem_singleton, hbyte]
      omega
    · rw [hbyte]
      omega
  by_cases h3 : v ≤ 65535
  · refine ⟨_, _, (if_neg h1).trans ((if_neg h2).trans (if_pos h3)), ?_, ?_, ?_⟩
    · simp only [octets, hbyte, List.length_cons, List.length_nil]
      split_ifs <;> omega
    · simp only [List.forall_mem_cons, hbyte, List.not_mem_nil, false_imp_iff, implies_true,
        and_true]
      omega
    · rw [hbyte]
      omega
  · refine ⟨_, _, (if_neg h1).trans ((if_neg h2).trans (if_neg h3)), ?_, ?_, ?_⟩
    · simp only [octets, hbyte, List.length_cons, List.length_nil]
      split_ifs <;> omega
    · simp only [List.forall_mem_cons, hbyte, List.not_mem_nil, false_imp_iff, implies_true,
        and_true]
      omega
    · rw [hbyte]
      omega

/-- Bytes of characters from `low` on are from `low` on, if that is ASCII. -/
theorem le_of_mem_encode {low : Nat} (hlow : low ≤ 0x80) (h : ∀ c ∈ text, low ≤ c.toNat) :
    ∀ b ∈ encode text, low ≤ b.toNat := by
  intro b hb
  obtain ⟨c, hc, hb⟩ := List.mem_flatMap.mp hb
  have hle := h c hc
  by_cases hascii : c.toNat < 0x80
  · rw [encodeChar_ascii hascii, List.mem_singleton] at hb
    have hbyte : (UInt8.ofNat c.toNat).toNat = c.toNat % 256 := UInt8.toNat_ofNat'
    rw [hb, hbyte]
    omega
  · obtain ⟨lead, tail, hbytes, -, htail, hlead⟩ := encodeChar_shape c
    rw [hbytes, List.mem_cons] at hb
    rcases hb with rfl | hb
    · have hhigh : ¬b.toNat < 0x80 := fun hlt => hascii (hlead.mp hlt)
      omega
    · have hhigh := (htail b hb).1
      omega

theorem encodeChar_injective {d : Char} (h : String.utf8EncodeChar c = String.utf8EncodeChar d) :
    c = d := by
  have hsingle : encode [c] = encode [d] := by simp [h]
  exact List.singleton_inj.mp (encode_injective hsingle)

/-- No character's bytes begin another's: the first byte says how many they are. -/
theorem encode_eq_append {rest : List UInt8} (h : encode text = String.utf8EncodeChar c ++ rest) :
    ∃ more, text = c :: more ∧ encode more = rest := by
  obtain ⟨lead, tail, hc, hcount, -, -⟩ := encodeChar_shape c
  cases text with
  | nil => simp [hc] at h
  | cons d more =>
    obtain ⟨lead', tail', hd, hcount', -, -⟩ := encodeChar_shape d
    have hheads : lead' = lead := by
      rw [encode_cons, hd, hc] at h
      exact (List.cons.inj h).1
    have hlength : (String.utf8EncodeChar d).length = (String.utf8EncodeChar c).length := by
      rw [hc, hd, List.length_cons, List.length_cons, ← hcount, ← hcount', hheads]
    obtain ⟨hchar, hrest⟩ := List.append_inj (encode_cons d more ▸ h) hlength
    exact ⟨more, by rw [encodeChar_injective hchar], hrest⟩

end QsBitwarden.Utf8
