import QsBitwarden.Lib.Utf8
import QsBitwarden.Vault.Helper

/-!
# Vault — a typed secret on its way to the helper (`pinentry/omarchy-pinentry`, `BitwardenModel.js`)

What was typed leaves the prompt as Assuan data lines, is put together again by a shell script,
which also checks its length, and is decoded by the helper: three programs in three languages.

* **`dataLines`** — the prompt's lines, byte by byte as the source writes them.
* **`readAnswer`** — the script's loop over the lines; **`answerLength`** — the length it checks.
* **`foldl_put_char`** — the bytes of a character go into one line together.
* **`dataLines_eq`** — so the lines are the escaped forms of consecutive parts of the text.
* **`answer_survives`** — what the helper decodes is what was typed, and its length is right.
-/

namespace QsBitwarden.Vault.Pinentry

open Utf8

abbrev Bytes := List UInt8

/-! ## The prompt's lines -/

/-- `D_CHUNK`. -/
def dChunk : Nat := 900

/-- `"0123456789ABCDEF".charCodeAt`. -/
def hexCode (n : Nat) : UInt8 :=
  ([48, 49, 50, 51, 52, 53, 54, 55, 56, 57, 65, 66, 67, 68, 69, 70] : Bytes).getD n 0

def isEscaped (byte : UInt8) : Bool := byte < 0x20 || byte == 0x25 || byte == 0x7f

/-- A byte as it stands in a line. -/
def escapeByte (byte : UInt8) : Bytes :=
  if isEscaped byte then [0x25, hexCode (byte.toNat / 16), hexCode (byte.toNat % 16)] else [byte]

def isContinuation (byte : UInt8) : Bool := 0x80 ≤ byte && byte ≤ 0xbf

/-- `D` and a space. -/
def opening : Bytes := [0x44, 0x20]

/-- The lines that are finished, and the one being written. -/
structure Lines where
  done : List Bytes
  line : Bytes

namespace Lines

def flush (s : Lines) : Lines := ⟨s.done ++ [s.line ++ [0x0a]], []⟩

/-- The body of the loop. -/
def put (s : Lines) (byte : UInt8) : Lines :=
  let n := s.line.length
  let s :=
    if n = 0 then { s with line := opening }
    else if dChunk + 4 ≤ n || (dChunk ≤ n && !isContinuation byte) then
      { s.flush with line := opening }
    else s
  { s with line := s.line ++ escapeByte byte }

end Lines

def dataLines (data : Bytes) : List Bytes :=
  let s := data.foldl Lines.put ⟨[], []⟩
  if 0 < s.line.length then s.flush.done else s.done

/-! ## The script -/

/-- How the script ends, with what it printed. -/
inductive Ending where
  | failed
  | cancelled
  | empty
  | short
  | answer (data : Bytes)
  deriving DecidableEq

/-- The length of what was typed: each `%XX` stands for one character, and the rest is counted in
characters. The shell counts so in the locale the script sets; a text that is not UTF-8 is not
counted here. -/
def answerLength (data : Bytes) : Option Nat :=
  (fromUtf8 data).map fun text => text.length - 2 * (text.filter (· = '%')).length

/-- A line of the answer: it begins with this word, alone or with a space behind it. -/
def startsWith (word line : Bytes) : Bool := line == word || (word ++ [0x20]).isPrefixOf line

/-- The number an `ERR` line begins with, if it is one. -/
def errorCode (line : Bytes) : Option Nat :=
  let rest := if ([0x45, 0x52, 0x52, 0x20] : Bytes).isPrefixOf line then line.drop 4 else line
  let code := rest.takeWhile (· != 0x20)
  if !code.isEmpty && code.all (fun b => 48 ≤ b && b ≤ 57) then
    some (code.foldl (fun n b => 10 * n + (b.toNat - 48)) 0)
  else none

/-- The loop over the lines after `GETPIN`, with the data so far. -/
def readLines (min : Option Nat) (data : Bytes) : List Bytes → Ending
  | [] => .failed
  | line :: rest =>
    if opening.isPrefixOf line then readLines min (data ++ line.drop 2) rest
    else if startsWith [0x4f, 0x4b] line then
      if data.isEmpty then .empty
      else if min.any fun min => (answerLength data).any (· < min) then .short
      else .answer data
    else if startsWith [0x45, 0x52, 0x52] line then
      -- The low half of the code names the error: the prompt was cancelled, or timed out.
      if (errorCode line).any fun code => code % 65536 = 99 || code % 65536 = 62 then .cancelled
      else .failed
    else readLines min data rest

/-- `read` gives whole lines only. -/
def readAnswer (min : Option Nat) (stream : Bytes) : Ending :=
  readLines min [] (stream.splitOn 0x0a).dropLast

/-! ## Escaping, by characters

A control character or a percent sign is one byte, so the escaped bytes of a text are the bytes of
an escaped text. -/

def isEscapedChar (c : Char) : Bool := c.toNat < 0x20 || c.toNat == 0x25 || c.toNat == 0x7f

/-- A hexadecimal digit. -/
def hexChar (n : Nat) : Char := Char.ofNat (hexCode n).toNat

def escapeChar (c : Char) : List Char :=
  if isEscapedChar c then ['%', hexChar (c.toNat / 16), hexChar (c.toNat % 16)] else [c]

/-- Facts about the sixteen digits. -/
theorem hexCode_facts : ∀ n < 16, hexDigit? (hexCode n) = some n ∧ hexChar n ≠ '%' ∧
    hexChar n ≠ '\n' ∧ String.utf8EncodeChar (hexChar n) = [hexCode n] ∧
    0x20 < (hexCode n).toNat ∧ (hexCode n).toNat < 0x7f := by
  decide

theorem isEscaped_ofNat {n : Nat} (h : n < 0x80) :
    isEscaped (UInt8.ofNat n) = (decide (n < 0x20) || n == 0x25 || n == 0x7f) := by
  have hall : ∀ n < 0x80, isEscaped (UInt8.ofNat n)
      = (decide (n < 0x20) || n == 0x25 || n == 0x7f) := by decide
  exact hall n h

/-- A byte past ASCII stands for itself. -/
theorem escapeByte_high {byte : UInt8} (h : 0x80 ≤ byte.toNat) : escapeByte byte = [byte] := by
  have hnot : isEscaped byte = false := by
    unfold isEscaped
    rw [Bool.or_eq_false_iff, Bool.or_eq_false_iff]
    refine ⟨⟨decide_eq_false fun hlt => ?_, beq_false_of_ne fun heq => ?_⟩,
      beq_false_of_ne fun heq => ?_⟩
    · have hlt : byte.toNat < 0x20 := hlt
      omega
    · rw [heq] at h
      exact absurd h (by decide)
    · rw [heq] at h
      exact absurd h (by decide)
  unfold escapeByte
  rw [hnot]
  rfl

theorem flatMap_escapeByte_high {bytes : Bytes} (h : ∀ b ∈ bytes, 0x80 ≤ b.toNat) :
    bytes.flatMap escapeByte = bytes := by
  induction bytes with
  | nil => rfl
  | cons b bytes ih =>
    obtain ⟨hb, hbytes⟩ := List.forall_mem_cons.mp h
    rw [List.flatMap_cons, escapeByte_high hb, ih hbytes]
    rfl

theorem high_of_not_ascii {c : Char} (h : ¬c.toNat < 0x80) :
    ∀ b ∈ String.utf8EncodeChar c, 0x80 ≤ b.toNat := by
  obtain ⟨lead, tail, hbytes, -, htail, hlead⟩ := encodeChar_shape c
  rw [hbytes]
  refine List.forall_mem_cons.mpr ⟨?_, fun b hb => (htail b hb).1⟩
  have hnot : ¬lead.toNat < 0x80 := fun hlt => h (hlead.mp hlt)
  omega

theorem escapeChar_bytes (c : Char) :
    (String.utf8EncodeChar c).flatMap escapeByte = encode (escapeChar c) := by
  by_cases hascii : c.toNat < 0x80
  · rw [encodeChar_ascii hascii, List.flatMap_singleton]
    have hmod : (UInt8.ofNat c.toNat).toNat = c.toNat := by
      rw [UInt8.toNat_ofNat']
      omega
    unfold escapeByte escapeChar isEscapedChar
    rw [isEscaped_ofNat hascii, hmod]
    split
    · obtain ⟨-, -, -, hhigh, -⟩ := hexCode_facts (c.toNat / 16) (by omega)
      obtain ⟨-, -, -, hlow, -⟩ := hexCode_facts (c.toNat % 16) (by omega)
      have hpercent : String.utf8EncodeChar '%' = [0x25] := by decide
      rw [encode_cons, encode_cons, encode_cons, encode_nil, hpercent, hhigh, hlow]
      rfl
    · rw [encode_cons, encode_nil, encodeChar_ascii hascii]
      rfl
  · have hplain : isEscapedChar c = false := by
      unfold isEscapedChar
      rw [Bool.or_eq_false_iff, Bool.or_eq_false_iff]
      refine ⟨⟨decide_eq_false (by omega), beq_false_of_ne (by omega)⟩, beq_false_of_ne (by omega)⟩
    rw [flatMap_escapeByte_high (high_of_not_ascii hascii)]
    unfold escapeChar
    rw [hplain]
    show _ = encode [c]
    rw [encode_cons, encode_nil, List.append_nil]

theorem escape_bytes (text : List Char) :
    (encode text).flatMap escapeByte = encode (text.flatMap escapeChar) := by
  induction text with
  | nil => rfl
  | cons c text ih =>
    rw [encode_cons, List.flatMap_append, escapeChar_bytes, ih, List.flatMap_cons, encode_append]

/-! ## The lines, by characters -/

/-- The line that carries a part of the text, without its end. -/
def dataLine (part : List Char) : Bytes := opening ++ (encode part).flatMap escapeByte

theorem length_escapeByte (byte : UInt8) :
    0 < (escapeByte byte).length ∧ (escapeByte byte).length ≤ 3 := by
  unfold escapeByte
  split
  · show 0 < 3 ∧ 3 ≤ 3
    decide
  · show 0 < 1 ∧ 1 ≤ 3
    decide

namespace Lines

/-- The line a byte that begins a character is written to. -/
def start (s : Lines) : Lines :=
  if s.line.length = 0 then { s with line := opening }
  else if dChunk ≤ s.line.length then { s.flush with line := opening }
  else s

theorem put_lead {s : Lines} {byte : UInt8} (h : isContinuation byte = false) :
    s.put byte = { s.start with line := s.start.line ++ escapeByte byte } := by
  unfold put start
  have hsplit : (decide (dChunk + 4 ≤ s.line.length)
      || (decide (dChunk ≤ s.line.length) && !isContinuation byte))
      = decide (dChunk ≤ s.line.length) := by
    rw [h, Bool.not_false, Bool.and_true, Bool.eq_iff_iff, Bool.or_eq_true]
    simp only [decide_eq_true_eq]
    omega
  simp only [hsplit, decide_eq_true_eq]

theorem put_continuation {s : Lines} {byte : UInt8} (h : isContinuation byte = true)
    (hpos : 0 < s.line.length) (hroom : s.line.length < dChunk + 4) :
    s.put byte = { s with line := s.line ++ escapeByte byte } := by
  unfold put
  have hfits : (decide (dChunk + 4 ≤ s.line.length)
      || (decide (dChunk ≤ s.line.length) && !isContinuation byte)) = false := by
    rw [h, Bool.not_true, Bool.and_false, Bool.or_false, decide_eq_false_iff_not]
    omega
  have hne : s.line.length ≠ 0 := by omega
  simp only [hfits, if_neg hne]
  rfl

/-- The rest of a character stays in the line that has its first byte. -/
theorem foldl_put_continuation {tail : Bytes} :
    ∀ {s : Lines}, (∀ b ∈ tail, isContinuation b = true ∧ escapeByte b = [b]) →
      0 < s.line.length → s.line.length + tail.length ≤ dChunk + 4 →
      tail.foldl put s = { s with line := s.line ++ tail.flatMap escapeByte } := by
  induction tail with
  | nil =>
    intro s _ _ _
    rw [List.flatMap_nil, List.append_nil]
    rfl
  | cons b tail ih =>
    intro s htail hpos hroom
    obtain ⟨⟨hcont, hraw⟩, htail⟩ := List.forall_mem_cons.mp htail
    rw [List.length_cons] at hroom
    have hlen : (s.line ++ escapeByte b).length = s.line.length + 1 := by
      rw [hraw, List.length_append]
      rfl
    rw [List.foldl_cons, put_continuation hcont hpos (by omega),
      ih htail (by simp only [hlen]; omega) (by simp only [hlen]; omega), List.flatMap_cons,
      List.append_assoc]

theorem start_room (s : Lines) : 0 < s.start.line.length ∧ s.start.line.length < dChunk := by
  have hopening : 0 < opening.length ∧ opening.length < dChunk := by decide
  unfold start
  split
  · exact hopening
  · split
    · exact hopening
    · omega

/-- The bytes of a character go into one line together. -/
theorem foldl_put_char (s : Lines) (c : Char) :
    (String.utf8EncodeChar c).foldl put s = { s.start with
      line := s.start.line ++ (String.utf8EncodeChar c).flatMap escapeByte } := by
  obtain ⟨lead, tail, hbytes, hcount, htail, -⟩ := encodeChar_shape c
  have hsize : tail.length + 1 ≤ 4 := by
    have hle := c.utf8Size_le_four
    rw [← String.length_utf8EncodeChar, hbytes] at hle
    exact hle
  -- A lead announces at least its own byte, a continuation byte announces none.
  have hlead : isContinuation lead = false := by
    unfold isContinuation
    rw [Bool.and_eq_false_iff]
    by_cases hhigh : lead.toNat < 0x80
    · exact .inl (decide_eq_false fun h => absurd hhigh (Nat.not_lt.mpr h))
    · refine .inr (decide_eq_false fun h => ?_)
      have h : lead.toNat ≤ 0xbf := h
      have hzero : octets lead = 0 := by
        rw [octets, if_neg hhigh, if_pos (by omega)]
      omega
  have hrest : ∀ b ∈ tail, isContinuation b = true ∧ escapeByte b = [b] := by
    intro b hb
    obtain ⟨hlow, hhigh⟩ := htail b hb
    refine ⟨?_, escapeByte_high hlow⟩
    have hle : b.toNat ≤ 0xbf := by omega
    unfold isContinuation
    rw [Bool.and_eq_true]
    exact ⟨decide_eq_true hlow, decide_eq_true hle⟩
  obtain ⟨hpos, hroom⟩ := s.start_room
  obtain ⟨hmore, hmost⟩ := length_escapeByte lead
  have hfirst : s.start.line.length + (escapeByte lead).length + tail.length ≤ dChunk + 4 := by
    cases tail with
    | nil =>
      show _ + _ + 0 ≤ _
      omega
    | cons t tail =>
      -- A lead byte with others behind it is not ASCII, hence not escaped.
      have hraw : (escapeByte lead).length = 1 := by
        have hnot : ¬lead.toNat < 0x80 := by
          intro hascii
          rw [octets, if_pos hascii, List.length_cons] at hcount
          omega
        rw [escapeByte_high (by omega)]
        rfl
      omega
  rw [hbytes, List.foldl_cons, put_lead hlead]
  rw [foldl_put_continuation hrest, List.flatMap_cons, List.append_assoc]
  · rw [List.length_append]
    omega
  · rw [List.length_append]
    exact hfirst

end Lines

/-- The line of a part that may still be empty, in which case it has not been begun. -/
def openLine (part : List Char) : Bytes := if part.isEmpty then [] else dataLine part

/-- What has been written of a text: finished lines for `parts`, and the line of `last`. -/
structure Wrote (s : Lines) (parts : List (List Char)) (last : List Char) : Prop where
  parts_ne : ∀ part ∈ parts, part ≠ []
  parts_le : ∀ part ∈ parts, (dataLine part).length ≤ dChunk + 3
  last_le : (dataLine last).length ≤ dChunk + 3
  done_eq : s.done = parts.map fun part => dataLine part ++ [0x0a]
  line_eq : s.line = openLine last

theorem dataLine_snoc (part : List Char) (c : Char) :
    dataLine (part ++ [c]) = dataLine part ++ (String.utf8EncodeChar c).flatMap escapeByte := by
  unfold dataLine
  rw [encode_append, List.flatMap_append, List.append_assoc, encode_cons, encode_nil,
    List.append_nil]

theorem openLine_of_ne {part : List Char} (h : part ≠ []) : openLine part = dataLine part := by
  cases part with
  | nil => exact absurd rfl h
  | cons c part => rfl

theorem length_escapeChar (c : Char) :
    ((String.utf8EncodeChar c).flatMap escapeByte).length ≤ 4 := by
  by_cases hascii : c.toNat < 0x80
  · rw [encodeChar_ascii hascii, List.flatMap_singleton]
    exact Nat.le_succ_of_le (length_escapeByte _).2
  · rw [flatMap_escapeByte_high (high_of_not_ascii hascii), String.length_utf8EncodeChar]
    exact c.utf8Size_le_four

/-- One more character goes into the open line, or begins the next. -/
theorem Wrote.put {s : Lines} {parts : List (List Char)} {last : List Char}
    (h : Wrote s parts last) (c : Char) :
    ∃ parts' last', Wrote ((String.utf8EncodeChar c).foldl Lines.put s) parts' last' ∧ last' ≠ [] ∧
      parts'.flatten ++ last' = parts.flatten ++ last ++ [c] := by
  have hadd := length_escapeChar c
  have hshort : (dataLine [c]).length ≤ dChunk + 3 := by
    have hline := congrArg List.length (dataLine_snoc [] c)
    rw [List.length_append] at hline
    have hnone : (dataLine []).length = 2 := rfl
    show (dataLine ([] ++ [c])).length ≤ 903
    omega
  rw [Lines.foldl_put_char]
  unfold Lines.start
  rw [h.line_eq]
  by_cases hlast : last = []
  · -- No line is open.
    subst hlast
    refine ⟨parts, [c], ⟨h.parts_ne, h.parts_le, hshort, h.done_eq, ?_⟩, List.cons_ne_nil _ _, ?_⟩
    · exact (dataLine_snoc [] c).symm
    · rw [List.append_nil]
  · have hbegun : (dataLine last).length ≠ 0 := Nat.succ_ne_zero _
    rw [openLine_of_ne hlast, if_neg hbegun]
    by_cases hfull : dChunk ≤ (dataLine last).length
    · rw [if_pos hfull]
      refine ⟨parts ++ [last], [c], ⟨?_, ?_, hshort, ?_, ?_⟩, List.cons_ne_nil _ _, ?_⟩
      · exact List.forall_mem_append.mpr ⟨h.parts_ne, List.forall_mem_singleton.mpr hlast⟩
      · exact List.forall_mem_append.mpr ⟨h.parts_le, List.forall_mem_singleton.mpr h.last_le⟩
      · show s.done ++ [s.line ++ [0x0a]] = _
        rw [h.line_eq, openLine_of_ne hlast, h.done_eq, List.map_append]
        rfl
      · exact (dataLine_snoc [] c).symm
      · rw [List.flatten_append, List.flatten_singleton]
    · rw [if_neg hfull]
      refine ⟨parts, last ++ [c], ⟨h.parts_ne, h.parts_le, ?_, h.done_eq, ?_⟩, ?_, ?_⟩
      · rw [dataLine_snoc, List.length_append]
        omega
      · show s.line ++ _ = _
        have hne : last ++ [c] ≠ [] := List.append_ne_nil_of_right_ne_nil _ (List.cons_ne_nil _ _)
        rw [h.line_eq, openLine_of_ne hlast, openLine_of_ne hne, dataLine_snoc]
      · exact List.append_ne_nil_of_right_ne_nil _ (List.cons_ne_nil _ _)
      · rw [List.append_assoc]

/-- A whole text, by induction on what is still to be written. -/
theorem Wrote.foldl (text : List Char) : ∀ {s : Lines} {parts : List (List Char)}
    {last : List Char}, Wrote s parts last → ∃ parts' last',
      Wrote ((encode text).foldl Lines.put s) parts' last' ∧
        parts'.flatten ++ last' = parts.flatten ++ last ++ text := by
  induction text with
  | nil =>
    intro s parts last h
    exact ⟨parts, last, h, (List.append_nil _).symm⟩
  | cons c text ih =>
    intro s parts last h
    obtain ⟨parts', last', hput, -, hflat⟩ := h.put c
    obtain ⟨parts'', last'', hrest, hall⟩ := ih hput
    rw [encode_cons, List.foldl_append]
    refine ⟨parts'', last'', hrest, ?_⟩
    rw [hall, hflat, List.append_assoc]
    rfl

theorem length_openLine_pos {part : List Char} : 0 < (openLine part).length ↔ part ≠ [] := by
  cases part with
  | nil => exact ⟨fun h => absurd h (Nat.lt_irrefl 0), fun h => absurd rfl h⟩
  | cons c part => exact ⟨fun _ => List.cons_ne_nil _ _, fun _ => Nat.succ_pos _⟩

/-- The lines are the escaped forms of consecutive parts of the text, each with its end. -/
theorem dataLines_eq (text : List Char) : ∃ parts : List (List Char), (∀ part ∈ parts, part ≠ []) ∧
    parts.flatten = text ∧ (∀ part ∈ parts, (dataLine part).length ≤ dChunk + 3) ∧
    dataLines (encode text) = parts.map fun part => dataLine part ++ [0x0a] := by
  have hnone : Wrote ⟨[], []⟩ [] [] :=
    ⟨List.forall_mem_nil _, List.forall_mem_nil _, by decide, rfl, rfl⟩
  obtain ⟨parts, last, hwrote, hflat⟩ := Wrote.foldl text hnone
  rw [List.flatten_nil, List.nil_append, List.nil_append] at hflat
  unfold dataLines
  simp only [hwrote.line_eq, length_openLine_pos]
  by_cases hlast : last = []
  · rw [if_neg (not_not_intro hlast)]
    rw [hlast, List.append_nil] at hflat
    exact ⟨parts, hwrote.parts_ne, hflat, hwrote.parts_le, hwrote.done_eq⟩
  · rw [if_pos hlast]
    refine ⟨parts ++ [last], ?_, ?_, ?_, ?_⟩
    · exact List.forall_mem_append.mpr ⟨hwrote.parts_ne, List.forall_mem_singleton.mpr hlast⟩
    · rw [List.flatten_append, List.flatten_singleton, hflat]
    · exact List.forall_mem_append.mpr
        ⟨hwrote.parts_le, List.forall_mem_singleton.mpr hwrote.last_le⟩
    · show _ ++ [_ ++ [0x0a]] = _
      rw [hwrote.line_eq, openLine_of_ne hlast, hwrote.done_eq, List.map_append]
      rfl

/-! ## What the lines carry -/

/-- No byte of a line's payload is a control byte. -/
theorem payload_plain (bytes : Bytes) :
    ∀ b ∈ bytes.flatMap escapeByte, 0x20 ≤ b.toNat ∧ b ≠ 0x7f := by
  intro b hb
  obtain ⟨byte, -, hb⟩ := List.mem_flatMap.mp hb
  have hsmall : byte.toNat < 256 := byte.toNat_lt
  unfold escapeByte at hb
  split at hb
  · obtain ⟨-, -, -, -, hlow, hhigh⟩ := hexCode_facts (byte.toNat / 16) (by omega)
    obtain ⟨-, -, -, -, hlow', hhigh'⟩ := hexCode_facts (byte.toNat % 16) (by omega)
    have hne : ∀ {d : UInt8}, d.toNat < 0x7f → d ≠ 0x7f := by
      intro d hd heq
      rw [heq] at hd
      exact absurd hd (by decide)
    rcases List.mem_cons.mp hb with rfl | hb
    · exact ⟨by decide, by decide⟩
    · rcases List.mem_cons.mp hb with rfl | hb
      · exact ⟨by omega, hne hhigh⟩
      · cases List.mem_singleton.mp hb
        exact ⟨by omega, hne hhigh'⟩
  · rename_i hplain
    cases List.mem_singleton.mp hb
    unfold isEscaped at hplain
    simp only [Bool.or_eq_true, decide_eq_true_eq, beq_iff_eq, not_or] at hplain
    exact ⟨Nat.not_lt.mp hplain.1.1, hplain.2⟩

theorem decodeBytes_escapeByte {byte : UInt8} (h : byte ≠ 0) (rest : Bytes) :
    decodeBytes (escapeByte byte ++ rest) = (byte :: ·) <$> decodeBytes rest := by
  have hsmall : byte.toNat < 256 := byte.toNat_lt
  unfold escapeByte
  split
  · obtain ⟨hhigh, -⟩ := hexCode_facts (byte.toNat / 16) (by omega)
    obtain ⟨hlow, -⟩ := hexCode_facts (byte.toNat % 16) (by omega)
    have hbyte : UInt8.ofNat (byte.toNat / 16 * 16 + byte.toNat % 16) = byte := by
      rw [Nat.div_add_mod', UInt8.ofNat_toNat]
    show decodeBytes (0x25 :: _ :: _ :: rest) = _
    rw [decodeBytes, if_pos rfl, hhigh, hlow]
    show (if UInt8.ofNat (byte.toNat / 16 * 16 + byte.toNat % 16) = 0 then none else _) = _
    rw [hbyte, if_neg h]
  · rename_i hplain
    have hpercent : byte ≠ 37 := by
      rintro rfl
      exact hplain (by decide)
    show decodeBytes (byte :: rest) = _
    rw [decodeBytes.eq_def]
    simp only [if_neg hpercent, if_neg h]

/-- Decoding undoes the escapes. -/
theorem decodeBytes_flatMap {bytes : Bytes} (h : ∀ b ∈ bytes, b ≠ 0) :
    decodeBytes (bytes.flatMap escapeByte) = some bytes := by
  induction bytes with
  | nil => rfl
  | cons b bytes ih =>
    obtain ⟨hb, hbytes⟩ := List.forall_mem_cons.mp h
    rw [List.flatMap_cons, decodeBytes_escapeByte hb, ih hbytes]
    rfl

theorem encode_ne_zero {text : List Char} (h : '\x00' ∉ text) : ∀ b ∈ encode text, b ≠ 0 := by
  have hlow : ∀ c ∈ text, 1 ≤ c.toNat := by
    intro c hc
    refine Nat.one_le_iff_ne_zero.mpr fun hzero => h ?_
    have hnul : c = '\x00' := Char.toNat_inj.mp hzero
    exact hnul ▸ hc
  intro b hb hzero
  have hle := le_of_mem_encode (by decide) hlow b hb
  rw [hzero] at hle
  exact absurd hle (by decide)

/-- A percent sign is written only as the first character of an escape. -/
theorem count_escapeChar (c : Char) :
    (escapeChar c).length = 1 + 2 * ((escapeChar c).filter (· = '%')).length := by
  unfold escapeChar
  split
  · rename_i hesc
    have hsmall : c.toNat < 0x80 := by
      unfold isEscapedChar at hesc
      simp only [Bool.or_eq_true, decide_eq_true_eq, beq_iff_eq] at hesc
      omega
    obtain ⟨-, hhigh, -⟩ := hexCode_facts (c.toNat / 16) (by omega)
    obtain ⟨-, hlow, -⟩ := hexCode_facts (c.toNat % 16) (by omega)
    have hfilter : ['%', hexChar (c.toNat / 16), hexChar (c.toNat % 16)].filter (· = '%')
        = ['%'] := by
      simp [hhigh, hlow]
    rw [hfilter]
    rfl
  · rename_i hplain
    have hne : c ≠ '%' := by
      rintro rfl
      exact hplain (by decide)
    rw [List.filter_cons_of_neg (by rw [decide_eq_true_eq]; exact hne)]
    rfl

theorem answerLength_escaped (text : List Char) :
    answerLength (encode (text.flatMap escapeChar)) = some text.length := by
  have hcount : (text.flatMap escapeChar).length
      = text.length + 2 * ((text.flatMap escapeChar).filter (· = '%')).length := by
    induction text with
    | nil => rfl
    | cons c text ih =>
      have hc := count_escapeChar c
      rw [List.flatMap_cons, List.filter_append, List.length_append, List.length_append,
        List.length_cons]
      omega
  unfold answerLength
  rw [fromUtf8_encode, Option.map_some, hcount, Nat.add_sub_cancel]

theorem trimEndMatches_of_none {p : Char → Bool} {text : List Char} (h : ∀ c ∈ text, p c = false) :
    trimEndMatches p text = text := by
  unfold trimEndMatches
  have hkeep : text.reverse.dropWhile p = text.reverse := by
    cases hrev : text.reverse with
    | nil => rfl
    | cons c rest =>
      have hmem : c ∈ text := List.mem_reverse.mp (hrev ▸ List.mem_cons_self)
      rw [List.dropWhile_cons_of_neg (by rw [h c hmem]; exact Bool.false_ne_true)]
  rw [hkeep, List.reverse_reverse]

/-- The helper's decoding of the escaped text, which has no line ends to trim. -/
theorem decode_escaped {text : List Char} (h : '\x00' ∉ text) :
    decode (String.ofList (trimEndMatches (· == '\n') (text.flatMap escapeChar)))
      = some (String.ofList text) := by
  have hlines : ∀ c ∈ text.flatMap escapeChar, (c == '\n') = false := by
    intro c hc
    refine beq_false_of_ne fun hnewline => ?_
    -- Its byte would be a control byte of the payload.
    have hbyte : (0x0a : UInt8) ∈ encode (text.flatMap escapeChar) :=
      List.mem_flatMap.mpr ⟨c, hc, by rw [hnewline]; decide⟩
    rw [← escape_bytes] at hbyte
    exact absurd (payload_plain _ _ hbyte).1 (by decide)
  unfold decode
  rw [trimEndMatches_of_none hlines, toList_toUTF8, String.toList_ofList, ← escape_bytes,
    decodeBytes_flatMap (encode_ne_zero h)]
  have hread := fromUtf8_encode text
  unfold fromUtf8 at hread
  obtain ⟨read, hread, htext⟩ := Option.map_eq_some_iff.mp hread
  show String.fromUTF8? _ = _
  rw [hread, ← htext, String.ofList_toList]

/-! ## The script over the lines -/

theorem splitOn_lines {lines : List Bytes} (h : ∀ line ∈ lines, (0x0a : UInt8) ∉ line)
    (rest : Bytes) :
    ((lines.map (· ++ [0x0a])).flatten ++ rest).splitOn 0x0a = lines ++ rest.splitOn 0x0a := by
  induction lines with
  | nil => rfl
  | cons line lines ih =>
    obtain ⟨hline, hlines⟩ := List.forall_mem_cons.mp h
    rw [List.map_cons, List.flatten_cons, List.append_assoc, List.append_assoc,
      List.singleton_append, List.splitOn_append_cons_self, List.splitOn_eq_singleton hline,
      ih hlines]
    rfl

/-- The loop gathers the payloads. -/
theorem readLines_data (min : Option Nat) (rest : List Bytes) {parts : List (List Char)} :
    ∀ data, readLines min data (parts.map dataLine ++ rest)
      = readLines min (data ++ (encode parts.flatten).flatMap escapeByte) rest := by
  induction parts with
  | nil =>
    intro data
    rw [List.flatten_nil, encode_nil, List.flatMap_nil, List.append_nil]
    rfl
  | cons part parts ih =>
    intro data
    have hopening : opening.isPrefixOf (dataLine part) = true :=
      List.isPrefixOf_iff_prefix.mpr (List.prefix_append _ _)
    have hpayload : (dataLine part).drop 2 = (encode part).flatMap escapeByte := rfl
    rw [List.map_cons, List.cons_append, readLines, if_pos hopening, hpayload, ih,
      List.flatten_cons, encode_append, List.flatMap_append, List.append_assoc]

theorem newline_not_mem_dataLine (part : List Char) : (0x0a : UInt8) ∉ dataLine part := by
  intro hmem
  rcases List.mem_append.mp hmem with hmem | hmem
  · exact absurd hmem (by decide)
  · exact absurd (payload_plain _ _ hmem).1 (by decide)

/-- The line that ends an answer. -/
def okLine : Bytes := [0x4f, 0x4b, 0x0a]

/-- The script on a whole answer: it prints the escaped text unless fewer characters than the
minimum were typed. -/
theorem readAnswer_dataLines (min : Option Nat) {typed : List Char} (h : typed ≠ []) :
    readAnswer min ((dataLines (encode typed)).flatten ++ okLine)
      = if min.any (typed.length < ·) then .short
        else .answer (encode (typed.flatMap escapeChar)) := by
  obtain ⟨parts, -, hflat, -, hlines⟩ := dataLines_eq typed
  have hplain : ∀ line ∈ parts.map dataLine, (0x0a : UInt8) ∉ line := by
    intro line hline
    obtain ⟨part, -, rfl⟩ := List.mem_map.mp hline
    exact newline_not_mem_dataLine part
  have hsplit : (((dataLines (encode typed)).flatten ++ okLine).splitOn 0x0a).dropLast
      = parts.map dataLine ++ [[0x4f, 0x4b]] := by
    have hmap : dataLines (encode typed) = (parts.map dataLine).map (· ++ [0x0a]) := by
      rw [hlines, List.map_map]
      rfl
    have hok : okLine.splitOn 0x0a = [[0x4f, 0x4b], []] := by decide
    rw [hmap, splitOn_lines hplain, hok]
    exact List.dropLast_append_of_ne_nil (List.cons_ne_nil _ _)
  have hdata : (encode (typed.flatMap escapeChar)).isEmpty = false := by
    cases typed with
    | nil => exact absurd rfl h
    | cons c rest =>
      rw [← escape_bytes]
      obtain ⟨lead, tail, hbytes, -⟩ := encodeChar_shape c
      obtain ⟨hpos, -⟩ := length_escapeByte lead
      rw [encode_cons, hbytes, List.cons_append, List.flatMap_cons]
      rw [List.isEmpty_eq_false_iff]
      exact List.append_ne_nil_of_left_ne_nil (List.ne_nil_of_length_pos hpos) _
  unfold readAnswer
  rw [hsplit, readLines_data, hflat, List.nil_append, escape_bytes]
  show (if (encode (typed.flatMap escapeChar)).isEmpty then Ending.empty else _) = _
  rw [hdata, answerLength_escaped]
  rfl

/-- A typed secret reaches the helper's store as it was typed, in lines that are within the
protocol's limit and split no character and no escape. -/
theorem answer_survives (bytes : Bytes) (typed : List Char) (htyped : fromUtf8 bytes = some typed)
    (hne : bytes ≠ []) (hnul : (0 : UInt8) ∉ bytes) :
    (∃ parts : List (List Char), (∀ part ∈ parts, part ≠ []) ∧ parts.flatten = typed ∧
      dataLines bytes
        = parts.map fun part => opening ++ (encode part).flatMap escapeByte ++ [0x0a]) ∧
    (∀ line ∈ dataLines bytes, line.length ≤ 1000 ∧
      ∃ payload, line = opening ++ payload ++ [0x0a] ∧ ∀ b ∈ payload, 0x20 ≤ b.toNat ∧ b ≠ 0x7f) ∧
    ∃ data printed, (∀ min, readAnswer min ((dataLines bytes).flatten ++ okLine)
        = if min.any (typed.length < ·) then .short else .answer data) ∧
      answerLength data = some typed.length ∧
      fromUtf8 data = some printed ∧
      (∃ pin, decode (String.ofList (trimEndMatches (· == '\n') printed)) = some pin ∧
        encode pin.toList = bytes) ∧
      ∀ libs store name, keep libs store store.generation (.pinentry name) 0 (String.ofList printed)
        = (⟨"", false, true⟩, store.setSecret name (String.ofList typed)) := by
  obtain rfl := fromUtf8_eq_some.mp htyped
  have hsome : typed ≠ [] := by
    rintro rfl
    exact hne rfl
  have hnul' : '\x00' ∉ typed := fun hmem =>
    hnul (List.mem_flatMap.mpr ⟨'\x00', hmem, by decide⟩)
  obtain ⟨parts, hparts, hflat, hshort, hlines⟩ := dataLines_eq typed
  have hdecode := decode_escaped hnul'
  refine ⟨⟨parts, hparts, hflat, hlines⟩, ?_, encode (typed.flatMap escapeChar),
    typed.flatMap escapeChar, fun min => readAnswer_dataLines min hsome,
    answerLength_escaped typed, fromUtf8_encode _,
    ⟨String.ofList typed, hdecode, by rw [String.toList_ofList]⟩, ?_⟩
  · intro line hline
    rw [hlines] at hline
    obtain ⟨part, hpart, rfl⟩ := List.mem_map.mp hline
    refine ⟨?_, _, rfl, payload_plain _⟩
    have hle : (dataLine part).length ≤ 903 := hshort part hpart
    show (dataLine part ++ [0x0a]).length ≤ 1000
    rw [List.length_append, List.length_singleton]
    omega
  · intro libs store name
    have hpin : String.ofList typed ≠ "" := by
      intro hempty
      have hnil := congrArg String.toList hempty
      rw [String.toList_ofList] at hnil
      exact hsome hnil
    unfold keep
    simp only [and_self, if_true, String.toList_ofList, hdecode, ne_eq, hpin, not_false_eq_true]

/-- A percent sign, a line feed and a letter of two bytes. -/
theorem answer_survives_mixed : ∃ printed,
    readAnswer (some 3) ((dataLines (encode ['%', '\n', 'é'])).flatten ++ okLine)
      = .answer (encode printed) ∧
    ∀ libs store name, keep libs store store.generation (.pinentry name) 0 (String.ofList printed)
      = (⟨"", false, true⟩, store.setSecret name (String.ofList ['%', '\n', 'é'])) := by
  obtain ⟨-, -, data, printed, hread, -, hdata, -, hkeep⟩ :=
    answer_survives (encode ['%', '\n', 'é']) _ (fromUtf8_encode _) (by decide) (by decide)
  have hanswer := hread (some 3)
  rw [fromUtf8_eq_some.mp hdata] at hanswer
  exact ⟨printed, hanswer, hkeep⟩

end QsBitwarden.Vault.Pinentry
