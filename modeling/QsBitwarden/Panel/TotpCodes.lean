import QsBitwarden.Panel.TotpModel

/-!
# Panel — helper and panel compute the same one-time codes

The panel's reader (`TotpModel.js`) and the helper's (`vault/src/totp.rs`) are taken through a key
piece by piece.

* **`formDecode_eq`** — the helper collects bytes and reads them as UTF-8 at the end, the panel
  decodes one escape sequence at a time; both give the same text or none.
* **`parseU32_eq`**, **`readOtpauth_eq`** — numbers and the URI as a whole, down to its secret.
* **`Plain`** — no character of a secret outside ASCII has an upper case with a base32 letter in it.
  The panel upper-cases by Unicode's rules before it drops what is not in the alphabet, the helper
  drops first; `codes_differ` is a key on which that shows.
* **`codes_agree`** — the two codes, and their periods.
-/

namespace QsBitwarden.Panel.TotpModel

open Vault

variable {text rest out : List Char} {bytes tail : List UInt8}

variable {c : Char} {fuel : Nat} {casing : Casing}

/-- What holds of the first 128 characters holds of ASCII. -/
theorem ascii_all {p : Char → Bool} (hall : (List.range 128).all fun n => p (Char.ofNat n))
    (h : c.toNat < 128) : p c = true := by
  have hn := List.all_eq_true.mp hall c.toNat (List.mem_range.mpr h)
  rwa [Char.ofNat_toNat] at hn

/-! ## Escapes -/

theorem plusToBlank_of_ne (h : c ≠ '+') : plusToBlank c = c := if_neg h

theorem plusToBlank_eq_percent : plusToBlank c = '%' ↔ c = '%' := by
  by_cases h : c = '+'
  · subst h
    decide
  · rw [plusToBlank_of_ne h]

theorem octet_plusToBlank (high low : Char) :
    octet (plusToBlank high) (plusToBlank low) = Totp.octet high low := by
  have hdigit : ∀ c, hexDigit (plusToBlank c) = Totp.hexDigit c := by
    intro c
    by_cases h : c = '+'
    · subst h
      decide
    · rw [plusToBlank_of_ne h]
      rfl
  rw [octet, hdigit, hdigit]
  rfl

/-- An escape the panel reads is one the helper reads. -/
theorem readOctet_eq_some {b : UInt8} {left : List Char} :
    readOctet (text.map plusToBlank) = some (b, left)
      ↔ ∃ high low rest, text = '%' :: high :: low :: rest ∧ Totp.octet high low = some b
        ∧ left = rest.map plusToBlank := by
  match text with
  | [] | [_] | [_, _] => simp [readOctet]
  | mark :: high :: low :: rest =>
    simp only [List.map_cons, readOctet, octet_plusToBlank, plusToBlank_eq_percent]
    by_cases h : mark = '%'
    · simp [h, eq_comm]
    · simp [h]

theorem percentBytes_octet (high low : Char) (rest : List Char) :
    Totp.percentBytes ('%' :: high :: low :: rest)
      = (Totp.octet high low).bind fun b => (b :: ·) <$> Totp.percentBytes rest := by
  rw [Totp.percentBytes, if_neg (by decide), if_pos rfl]
  rfl

theorem percentBytes_char (hc : c ≠ '%') (rest : List Char) :
    Totp.percentBytes (c :: rest)
      = (String.utf8EncodeChar (plusToBlank c) ++ ·) <$> Totp.percentBytes rest := by
  conv_lhs => unfold Totp.percentBytes
  by_cases h : c = '+'
  · subst h
    have hblank : String.utf8EncodeChar (plusToBlank '+') = [0x20] := by decide
    rw [if_pos rfl, hblank]
    rfl
  · rw [if_neg h, if_neg hc, plusToBlank_of_ne h]

/-- A continuation byte can only come from an escape. -/
theorem percentBytes_continuation {t : UInt8} (ht : 0x80 ≤ t.toNat ∧ t.toNat < 0xc0)
    (h : Totp.percentBytes text = some (t :: bytes)) :
    ∃ high low rest, text = '%' :: high :: low :: rest ∧ Totp.octet high low = some t
      ∧ Totp.percentBytes rest = some bytes := by
  match text with
  | [] => cases h
  | c :: rest =>
    by_cases hc : c = '%'
    · subst hc
      match rest with
      | [] | [_] => cases h
      | high :: low :: rest =>
        rw [percentBytes_octet] at h
        obtain ⟨b, hb, hmap⟩ := Option.bind_eq_some_iff.mp h
        obtain ⟨more, hmore, heq⟩ := Option.map_eq_some_iff.mp hmap
        cases heq
        exact ⟨high, low, rest, rfl, hb, hmore⟩
    · -- A character's own first byte is ASCII or a lead.
      rw [percentBytes_char hc] at h
      obtain ⟨more, -, heq⟩ := Option.map_eq_some_iff.mp h
      obtain ⟨lead, tail, hchar, hcount, -, -⟩ := Utf8.encodeChar_shape (plusToBlank c)
      rw [hchar] at heq
      have hlead : lead = t := (List.cons.inj heq).1
      rw [hlead, Utf8.octets, if_neg (by omega), if_pos ht.2] at hcount
      omega

/-- Continuation bytes of the helper are escapes the panel reads. -/
theorem readOctets_of_percentBytes (htail : ∀ t ∈ tail, 0x80 ≤ t.toNat ∧ t.toNat < 0xc0)
    (h : Totp.percentBytes text = some (tail ++ bytes)) :
    ∃ rest, readOctets tail.length (text.map plusToBlank) = some (tail, rest.map plusToBlank)
      ∧ Totp.percentBytes rest = some bytes ∧ rest.length ≤ text.length := by
  induction tail generalizing text with
  | nil => exact ⟨text, rfl, h, Nat.le_refl _⟩
  | cons t tail ih =>
    obtain ⟨ht, htail⟩ := List.forall_mem_cons.mp htail
    obtain ⟨high, low, mid, rfl, hoctet, hmid⟩ := percentBytes_continuation ht h
    obtain ⟨rest, hread, hrest, hle⟩ := ih htail hmid
    refine ⟨rest, ?_, hrest, ?_⟩
    · have hfirst := readOctet_eq_some.mpr ⟨high, low, mid, rfl, hoctet, rfl⟩
      rw [List.length_cons, readOctets, hfirst]
      show ((readOctets tail.length (mid.map plusToBlank)).bind fun p => _) = _
      rw [hread]
      rfl
    · rw [List.length_cons, List.length_cons, List.length_cons]
      omega

/-- Escapes the panel reads are bytes of the helper. -/
theorem percentBytes_of_readOctets {n : Nat} {left : List Char}
    (h : readOctets n (text.map plusToBlank) = some (tail, left)) :
    ∃ rest, left = rest.map plusToBlank ∧ rest.length ≤ text.length
      ∧ ∀ bytes, Totp.percentBytes rest = some bytes
        → Totp.percentBytes text = some (tail ++ bytes) := by
  induction n generalizing text tail with
  | zero =>
    cases h
    exact ⟨text, rfl, Nat.le_refl _, fun bytes hbytes => hbytes⟩
  | succ n ih =>
    rw [readOctets] at h
    obtain ⟨⟨b, mid⟩, hfirst, h⟩ := Option.bind_eq_some_iff.mp h
    obtain ⟨⟨bs, last⟩, hmore, heq⟩ := Option.bind_eq_some_iff.mp h
    cases heq
    obtain ⟨high, low, mid, rfl, hoctet, rfl⟩ := readOctet_eq_some.mp hfirst
    obtain ⟨rest, hleft, hle, hbytes⟩ := ih hmore
    refine ⟨rest, hleft, ?_, fun bytes hrest => ?_⟩
    · rw [List.length_cons, List.length_cons, List.length_cons]
      omega
    · rw [percentBytes_octet, hoctet, Option.bind_some, hbytes bytes hrest]
      rfl

theorem codePoint_eq_some : codePoint bytes = some c ↔ bytes = String.utf8EncodeChar c := by
  have hread : Utf8.fromUtf8 bytes = some [c] ↔ bytes = String.utf8EncodeChar c := by
    rw [Utf8.fromUtf8_eq_some, Utf8.encode_cons, Utf8.encode_nil, List.append_nil]
  rw [← hread, codePoint]
  grind

@[simp] theorem decodeFrom_nil (fuel : Nat) : decodeFrom fuel [] = some [] := by
  cases fuel <;> rfl

theorem decodeFrom_char (hc : c ≠ '%') (fuel : Nat) (text : List Char) :
    decodeFrom (fuel + 1) (c :: text) = (c :: ·) <$> decodeFrom fuel text := by
  rw [decodeFrom, if_neg hc]

theorem decodeFrom_escape : decodeFrom (fuel + 1) ('%' :: text) = some out
    ↔ ∃ lead mid tail rest c more, readOctet ('%' :: text) = some (lead, mid)
      ∧ Utf8.octets lead ≠ 0 ∧ readOctets (Utf8.octets lead - 1) mid = some (tail, rest)
      ∧ lead :: tail = String.utf8EncodeChar c ∧ decodeFrom fuel rest = some more
      ∧ out = c :: more := by
  rw [decodeFrom, if_pos rfl]
  constructor
  · intro h
    obtain ⟨⟨lead, mid⟩, hlead, h⟩ := Option.bind_eq_some_iff.mp h
    dsimp only at h
    by_cases hzero : Utf8.octets lead = 0
    · rw [if_pos hzero] at h
      cases h
    · rw [if_neg hzero] at h
      obtain ⟨⟨tail, rest⟩, htail, h⟩ := Option.bind_eq_some_iff.mp h
      obtain ⟨c, hc, h⟩ := Option.bind_eq_some_iff.mp h
      obtain ⟨more, hmore, hout⟩ := Option.map_eq_some_iff.mp h
      exact ⟨lead, mid, tail, rest, c, more, hlead, hzero, htail, codePoint_eq_some.mp hc, hmore,
        hout.symm⟩
  · rintro ⟨lead, mid, tail, rest, c, more, hlead, hzero, htail, hc, hmore, rfl⟩
    simp only [hlead, Option.bind_eq_bind, Option.bind_some, if_neg hzero, htail,
      codePoint_eq_some.mpr hc, hmore]
    rfl

theorem decodeFrom_iff_nil : decodeFrom fuel ([].map plusToBlank) = some out
    ↔ Totp.percentBytes [] = some (Utf8.encode out) := by
  rw [List.map_nil, decodeFrom_nil, Totp.percentBytes, Option.some.injEq, Option.some.injEq]
  constructor
  · intro h
    rw [← h, Utf8.encode_nil]
  · intro h
    exact Utf8.encode_injective h

theorem decodeFrom_iff_char (hc : c ≠ '%')
    (ih : ∀ {out}, decodeFrom fuel (text.map plusToBlank) = some out
      ↔ Totp.percentBytes text = some (Utf8.encode out)) :
    decodeFrom (fuel + 1) ((c :: text).map plusToBlank) = some out
      ↔ Totp.percentBytes (c :: text) = some (Utf8.encode out) := by
  have hblank : plusToBlank c ≠ '%' := fun h => hc (plusToBlank_eq_percent.mp h)
  rw [List.map_cons, decodeFrom_char hblank, percentBytes_char hc]
  constructor
  · intro h
    obtain ⟨more, hmore, rfl⟩ := Option.map_eq_some_iff.mp h
    rw [ih.mp hmore]
    rfl
  · intro h
    obtain ⟨bytes, hbytes, heq⟩ := Option.map_eq_some_iff.mp h
    obtain ⟨more, rfl, hmore⟩ := Utf8.encode_eq_append heq.symm
    rw [ih.mpr (hmore ▸ hbytes)]
    rfl

/-- One escape sequence: the panel takes as many escapes as its lead announces, the helper the
bytes of all escapes that follow. -/
theorem decodeFrom_iff_escape (hfuel : text.length ≤ fuel)
    (ih : ∀ {text out}, text.length ≤ fuel → (decodeFrom fuel (text.map plusToBlank) = some out
      ↔ Totp.percentBytes text = some (Utf8.encode out))) :
    decodeFrom (fuel + 1) (('%' :: text).map plusToBlank) = some out
      ↔ Totp.percentBytes ('%' :: text) = some (Utf8.encode out) := by
  have hmap : ('%' :: text).map plusToBlank = '%' :: text.map plusToBlank := rfl
  rw [hmap, decodeFrom_escape, ← hmap]
  constructor
  · rintro ⟨lead, mid, tail, left, c, more, hlead, -, htail, hchar, hmore, rfl⟩
    obtain ⟨high, low, mid, heq, hoctet, rfl⟩ := readOctet_eq_some.mp hlead
    obtain ⟨rest, rfl, hrest, hbytes⟩ := percentBytes_of_readOctets htail
    cases heq
    have hshort : rest.length ≤ fuel := by
      rw [List.length_cons, List.length_cons] at hfuel
      omega
    rw [percentBytes_octet, hoctet, Option.bind_some, hbytes _ ((ih hshort).mp hmore),
      Utf8.encode_cons, ← hchar]
    rfl
  · intro h
    match text with
    | [] | [_] => cases h
    | high :: low :: mid =>
      rw [percentBytes_octet] at h
      obtain ⟨lead, hoctet, hmap⟩ := Option.bind_eq_some_iff.mp h
      obtain ⟨bytes, hbytes, heq⟩ := Option.map_eq_some_iff.mp hmap
      -- The bytes begin with the lead, so the text begins with a character that has this lead.
      match out with
      | [] => cases heq
      | c :: more =>
        obtain ⟨lead', tail, hchar, hcount, hcont, -⟩ := Utf8.encodeChar_shape c
        rw [Utf8.encode_cons, hchar] at heq
        cases heq
        obtain ⟨rest, hread, hmore, hle⟩ := readOctets_of_percentBytes hcont hbytes
        have hshort : rest.length ≤ fuel := by
          rw [List.length_cons, List.length_cons] at hfuel
          omega
        refine ⟨lead, mid.map plusToBlank, tail, rest.map plusToBlank, c, more,
          readOctet_eq_some.mpr ⟨high, low, mid, rfl, hoctet, rfl⟩, by omega, ?_, hchar.symm,
          (ih hshort).mpr hmore, rfl⟩
        rw [hcount, Nat.add_sub_cancel]
        exact hread

/-- What the panel decodes is the text whose bytes the helper collects. -/
theorem decodeFrom_iff (fuel : Nat) (hfuel : text.length ≤ fuel) :
    decodeFrom fuel (text.map plusToBlank) = some out
      ↔ Totp.percentBytes text = some (Utf8.encode out) := by
  induction fuel generalizing text out with
  | zero =>
    rw [List.length_eq_zero_iff.mp (Nat.le_zero.mp hfuel)]
    exact decodeFrom_iff_nil
  | succ fuel ih =>
    cases text with
    | nil => exact decodeFrom_iff_nil
    | cons c text =>
      have hle : text.length ≤ fuel := Nat.succ_le_succ_iff.mp hfuel
      by_cases hc : c = '%'
      · subst hc
        exact decodeFrom_iff_escape hle fun hshort => ih hshort
      · exact decodeFrom_iff_char hc (ih hle)

theorem formDecode_eq (text : List Char) : formDecode text = Totp.formDecode text := by
  apply Option.ext
  intro out
  rw [formDecode, decodeURIComponent, List.length_map, decodeFrom_iff _ (Nat.le_refl _),
    Totp.formDecode, Option.bind_eq_some_iff]
  constructor
  · intro h
    exact ⟨_, h, Utf8.fromUtf8_encode out⟩
  · rintro ⟨bytes, hbytes, hout⟩
    rw [hbytes, Utf8.fromUtf8_eq_some.mp hout]

/-! ## Numbers -/

theorem le_foldl_digits (v : Nat) (digits : List Char) :
    v ≤ digits.foldl (fun n c => n * 10 + (c.toNat - 48)) v := by
  induction digits generalizing v with
  | nil => exact Nat.le_refl v
  | cons c digits ih =>
    have := ih (v * 10 + (c.toNat - 48))
    rw [List.foldl_cons]
    omega

/-- Checking at each digit and checking the whole number come to the same. -/
theorem readDigits_eq (v : Nat) (digits : List Char) (hv : v < 2 ^ 32) :
    Totp.readDigits v digits
      = if digits.all Char.isDigit
          ∧ digits.foldl (fun n c => n * 10 + (c.toNat - 48)) v < 2 ^ 32
        then some (digits.foldl (fun n c => n * 10 + (c.toNat - 48)) v) else none := by
  induction digits generalizing v with
  | nil => rw [Totp.readDigits, List.foldl_nil, if_pos ⟨rfl, hv⟩]
  | cons c digits ih =>
    rw [Totp.readDigits, List.all_cons, List.foldl_cons]
    -- a number that is too large already only grows
    have hle := le_foldl_digits (v * 10 + (c.toNat - 48)) digits
    grind

theorem parseU32_eq (value : List Char) : parseU32 value = Totp.parseU32 value := by
  have hdigits : ∀ digits : List Char, digits ≠ [] →
      (if digits.isEmpty || !digits.all Char.isDigit then none
        else if number digits ≤ 4294967295 then some (number digits) else none)
        = Totp.readDigits 0 digits := by
    intro digits hne
    rw [readDigits_eq 0 digits (by decide), List.isEmpty_eq_false_iff.mpr hne, Bool.false_or]
    show _ = if _ ∧ number digits < 2 ^ 32 then some (number digits) else _
    grind
  match value with
  | [] => rfl
  | c :: rest =>
    by_cases hc : c = '+'
    · subst hc
      match rest with
      | [] => rfl
      | d :: rest => exact hdigits (d :: rest) (by simp)
    · have hsign : Totp.parseU32 (c :: rest) = Totp.readDigits 0 (c :: rest) := by
        unfold Totp.parseU32
        split <;> simp_all
      have hhead : (c :: rest).head? ≠ some '+' := fun h => hc (Option.some.inj h)
      rw [hsign, ← hdigits (c :: rest) (by simp), parseU32, if_neg hhead]

/-! ## The URI -/

/-- A text up to the first `mark`. -/
theorem headD_splitOn (mark : Char) (text : List Char) :
    (text.splitOn mark).headD []
      = sliceTo text (text.idxOf? mark) := by
  induction text with
  | nil => rfl
  | cons c text ih =>
    rw [List.splitOn, List.splitOnP_cons_eq_if_modifyHead, List.idxOf?_cons]
    by_cases hc : c == mark
    · rw [if_pos hc, if_pos hc]
      rfl
    · rw [if_neg hc, if_neg hc, ← List.splitOn]
      -- The first piece grows by `c`, and so does the place of the mark.
      cases hpieces : text.splitOn mark with
      | nil => exact absurd hpieces (List.splitOn_ne_nil mark text)
      | cons piece pieces =>
        rw [hpieces, List.headD_cons] at ih
        rw [List.modifyHead_cons, List.headD_cons, ih]
        cases text.idxOf? mark <;> rfl

theorem cutAt_fst (mark : Char) (text : List Char) :
    sliceTo text (text.idxOf? mark) = (Totp.cutAt mark text).1 := by
  rw [Totp.cutAt]
  cases text.idxOf? mark <;> rfl

theorem cutAt_snd (mark : Char) (text : List Char) :
    sliceAfter text (text.idxOf? mark) = (Totp.cutAt mark text).2 := by
  rw [Totp.cutAt]
  cases text.idxOf? mark <;> rfl

theorem isBlankOrControl_eq (h : c.toNat < 128) : isBlankOrControl c = Totp.isBlankOrControl c :=
  eq_of_beq (ascii_all (p := fun c => isBlankOrControl c == Totp.isBlankOrControl c)
    (by decide +kernel) h)

/-- What `parts` says under the four names that count. -/
def Parts.query (parts : Parts) : Totp.Query where
  secret := parts "secret".toList
  algorithm := parts "algorithm".toList
  digits := parts "digits".toList
  period := parts "period".toList

theorem Parts.query_set (parts : Parts) (name value : List Char) :
    (parts.set name value).query = parts.query.note name value := by
  rw [Totp.Query.note]
  split_ifs with hsecret halgorithm hdigits hperiod
  case neg => simp only [Parts.query, Parts.set, Ne.symm hsecret, Ne.symm halgorithm,
    Ne.symm hdigits, Ne.symm hperiod, if_false]
  all_goals
    subst name
    rfl

theorem readPairs_eq (parts : Parts) (pairs : List (List Char)) :
    (readPairs parts pairs).map Parts.query
      = Totp.readPairs parts.query (pairs.filter (!·.isEmpty)) := by
  induction pairs generalizing parts with
  | nil => rfl
  | cons pair pairs ih =>
    rw [readPairs]
    by_cases hempty : pair.isEmpty
    · rw [if_pos hempty, ih, List.filter_cons_of_neg (by simp [hempty])]
    · rw [if_neg hempty, List.filter_cons_of_pos (by simp [hempty]), Totp.readPairs]
      dsimp only
      rw [cutAt_fst, cutAt_snd, formDecode_eq, formDecode_eq]
      cases Totp.formDecode (Totp.cutAt '=' pair).1 with
      | none => rfl
      | some name =>
        cases Totp.formDecode (Totp.cutAt '=' pair).2 with
        | none => rfl
        | some value =>
          show (readPairs (parts.set name value) pairs).map Parts.query = _
          rw [ih, Parts.query_set]
          rfl

theorem Parts.settle_eq (parts : Parts) : parts.settle = parts.query.settle := by
  have hdigits : parts.digitsUsed = parts.query.digitsUsed := by
    rw [Parts.digitsUsed, Totp.Query.digitsUsed, funext parseU32_eq]
    dsimp only [Parts.query]
    cases (parts "digits".toList).bind Totp.parseU32 <;> rfl
  have hperiod : parts.periodUsed = parts.query.periodUsed := by
    rw [Parts.periodUsed, Totp.Query.periodUsed, funext parseU32_eq]
    dsimp only [Parts.query]
    cases (parts "period".toList).bind Totp.parseU32 <;> rfl
  have halgorithm : parts.algorithmUsed = parts.query.algorithmUsed := rfl
  have hsecret : parts "secret".toList = parts.query.secret := rfl
  rw [Parts.settle, Totp.Query.settle, hdigits, hperiod, halgorithm, hsecret]
  have hrange : 1 ≤ parts.query.digitsUsed ∧ parts.query.digitsUsed ≤ 9
      ↔ ¬(parts.query.digitsUsed < 1 ∨ 9 < parts.query.digitsUsed) := by omega
  simp only [hrange, ite_not]

theorem readOtpauth_eq (hascii : ∀ c ∈ rest, c.toNat < 128) :
    readOtpauth rest = Totp.readOtpauth rest := by
  rw [readOtpauth, Totp.readOtpauth]
  dsimp only
  rw [← headD_splitOn '#']
  have hcut : ∀ c ∈ (rest.splitOn '#').headD [], c.toNat < 128 := by
    intro c hc
    apply hascii
    rw [headD_splitOn] at hc
    generalize rest.idxOf? '#' = mark at hc
    cases mark with
    | none => exact hc
    | some i => exact List.mem_of_mem_take hc
  generalize (rest.splitOn '#').headD [] = rest at hcut
  have hblank : rest.any isBlankOrControl = rest.any Totp.isBlankOrControl := by
    rw [Bool.eq_iff_iff, List.any_eq_true, List.any_eq_true]
    exact exists_congr fun c => and_congr_right fun hc => by rw [isBlankOrControl_eq (hcut c hc)]
  have hquery : (readPairs (fun _ => none) ((Totp.cutAt '?' rest).2.splitOn '&')).bind Parts.settle
      = (Totp.readPairs {} (((Totp.cutAt '?' rest).2.splitOn '&').filter (!·.isEmpty))).bind
          Totp.Query.settle := by
    have hpairs := readPairs_eq (fun _ => none) ((Totp.cutAt '?' rest).2.splitOn '&')
    have hempty : Parts.query (fun _ => none) = {} := rfl
    rw [← hempty, ← hpairs, Option.bind_map, funext Parts.settle_eq]
    rfl
  rw [cutAt_fst, cutAt_snd, hblank, hquery]
  rfl

/-! ## Secrets -/

/-- A byte's place in the helper's alphabet. -/
def byteIndex (b : UInt8) : Option Nat := Totp.base32Chars.idxOf? (Totp.toAsciiUppercase b)

theorem base32_eq (text : List Char) : Totp.base32 text
    = (((Utf8.encode text).filterMap byteIndex).foldl Totp.Bits.feed {}).out := by
  rw [Totp.base32, List.foldl_filterMap]
  congr 2
  funext s byte
  rw [byteIndex]
  cases Totp.base32Chars.idxOf? (Totp.toAsciiUppercase byte) <;> rfl

/-- The panel's bits as the helper's. -/
def Bits.asHelper (s : Bits) : Totp.Bits := { buffer := s.buffer, bits := s.bits, out := s.bytes }

theorem Bits.asHelper_feed (s : Bits) (idx : Nat) : (s.feed idx).asHelper = s.asHelper.feed idx := by
  unfold Bits.feed Totp.Bits.feed Bits.asHelper
  dsimp only
  split <;> rfl

theorem decodeBase32_eq (casing : Casing) (text : List Char) : decodeBase32 casing text
    = (((text.flatMap casing.upper).filterMap base32Chars.idxOf?).foldl Totp.Bits.feed {}).out := by
  have hfold : ∀ (indexes : List Nat) (s : Bits),
      (indexes.foldl Bits.feed s).asHelper = indexes.foldl Totp.Bits.feed s.asHelper := by
    intro indexes
    induction indexes with
    | nil => exact fun s => rfl
    | cons idx indexes ih =>
      intro s
      rw [List.foldl_cons, List.foldl_cons, ih, Bits.asHelper_feed]
  have hempty : ({} : Bits).asHelper = {} := rfl
  rw [decodeBase32, ← hempty, ← hfold, List.foldl_filterMap]
  show _ = Bits.bytes (List.foldl _ _ _)
  congr 2
  funext s c
  cases base32Chars.idxOf? c <;> rfl

/-- No letter of the base32 alphabet comes of upper-casing a character outside ASCII. -/
def Plain (casing : Casing) (text : List Char) : Prop :=
  ∀ c ∈ text, 128 ≤ c.toNat → ∀ u ∈ casing.upper c, u ∉ base32Chars

/-- A letter and its byte have the same place in the alphabets. -/
theorem index_ascii (h : c.toNat < 128) :
    base32Chars.idxOf? c.toUpper = byteIndex (UInt8.ofNat c.toNat) :=
  eq_of_beq (ascii_all
    (p := fun c => base32Chars.idxOf? c.toUpper == byteIndex (UInt8.ofNat c.toNat))
    (by decide +kernel) h)

theorem byteIndex_of_high {b : UInt8} (h : 0x80 ≤ b.toNat) : byteIndex b = none := by
  have hall : (List.range 128).all fun n => byteIndex (UInt8.ofNat (128 + n)) == none := by
    decide +kernel
  have hlt := b.toNat_lt
  have hn := List.all_eq_true.mp hall (b.toNat - 128) (List.mem_range.mpr (by omega))
  rw [beq_iff_eq, Nat.add_sub_cancel' h, UInt8.ofNat_toNat] at hn
  exact hn

theorem indexes_char (h : 128 ≤ c.toNat → ∀ u ∈ casing.upper c, u ∉ base32Chars) :
    (casing.upper c).filterMap base32Chars.idxOf?
      = (String.utf8EncodeChar c).filterMap byteIndex := by
  by_cases hc : c.toNat < 128
  · rw [casing.ascii c hc, Utf8.encodeChar_ascii hc, List.filterMap_cons, List.filterMap_cons,
      index_ascii hc, List.filterMap_nil, List.filterMap_nil]
  · obtain ⟨lead, tail, hchar, -, htail, hlead⟩ := Utf8.encodeChar_shape c
    have hpanel : ∀ u ∈ casing.upper c, base32Chars.idxOf? u = none :=
      fun u hu => List.idxOf?_eq_none_iff.mpr (h (by omega) u hu)
    have hhelper : ∀ b ∈ String.utf8EncodeChar c, byteIndex b = none := by
      intro b hb
      apply byteIndex_of_high
      rw [hchar] at hb
      rcases List.mem_cons.mp hb with rfl | hb
      · exact Nat.not_lt.mp fun hlow => hc (hlead.mp hlow)
      · exact (htail b hb).1
    rw [List.filterMap_eq_nil_iff.mpr hpanel, List.filterMap_eq_nil_iff.mpr hhelper]

theorem secret_eq (h : Plain casing text) : decodeBase32 casing text = Totp.base32 text := by
  rw [decodeBase32_eq, base32_eq]
  congr 2
  induction text with
  | nil => rfl
  | cons c text ih =>
    obtain ⟨hc, htext⟩ := List.forall_mem_cons.mp h
    rw [List.flatMap_cons, List.filterMap_append, Utf8.encode_cons, List.filterMap_append,
      indexes_char hc, ih htext]

/-! ## Codes -/

theorem counterBytes_eq {counter : Nat} (h : counter < 2 ^ 53) :
    counterBytes counter = Totp.toBeBytes counter := by
  have hmod : ∀ {a b : Nat}, a % 256 = b % 256 → UInt8.ofNat a = UInt8.ofNat b := by
    intro a b hab
    apply UInt8.toNat_inj.mp
    rw [UInt8.toNat_ofNat', UInt8.toNat_ofNat']
    exact hab
  have hbyte : ∀ n i : Nat, (n % 2 ^ 32) >>> (i * 8) &&& 0xff = n % 2 ^ 32 / 2 ^ (i * 8) % 256 := by
    intro n i
    rw [Nat.shiftRight_eq_div_pow]
    exact Nat.and_two_pow_sub_one_eq_mod _ 8
  rw [counterBytes, Double.floorDiv_eq h (by decide), Totp.toBeBytes]
  simp only [wordBytes, hbyte, List.map_cons, List.map_nil, List.cons_append, List.nil_append,
    List.cons.injEq]
  refine ⟨hmod ?_, hmod ?_, hmod ?_, hmod ?_, hmod ?_, hmod ?_, hmod ?_, hmod ?_, trivial⟩ <;> omega

theorem Digest.byte_lt (hash : Totp.Digest) (k : Fin 4) : hash.byte k < 2 ^ 8 := UInt8.toNat_lt _

/-- Four bytes side by side are the same number by shifts and by sums. -/
theorem binary_eq (hash : Totp.Digest) : binary hash = hash.binary := by
  have h1 := Digest.byte_lt hash 1
  have h2 := Digest.byte_lt hash 2
  have h3 := Digest.byte_lt hash 3
  have hsum : ∀ {a b : Nat} (i : Nat), b < 2 ^ i → a <<< i ||| b = a * 2 ^ i + b := by
    intro a b i hb
    rw [← Nat.shiftLeft_add_eq_or_of_lt hb, Nat.shiftLeft_eq]
  rw [binary, Totp.Digest.binary, Nat.or_assoc, Nat.or_assoc, hsum 8 h3, hsum 16 (by omega),
    hsum 24 (by omega), Nat.shiftLeft_eq, Nat.shiftLeft_eq]
  omega

theorem binary_lt (hash : Totp.Digest) : binary hash < 2 ^ 31 := by
  have h0 : hash.byte 0 &&& 127 ≤ 127 := Nat.and_le_right
  have h1 := Digest.byte_lt hash 1
  have h2 := Digest.byte_lt hash 2
  have h3 := Digest.byte_lt hash 3
  rw [binary, Nat.shiftLeft_eq, Nat.shiftLeft_eq]
  omega

/-- The rounded quotients of the panel are whole-number divisions. -/
theorem steamCode_eq (digits : Nat) {full : Nat} (h : full < 2 ^ 53) :
    steamCode digits full = Totp.steamCode digits full := by
  induction digits generalizing full with
  | zero => rfl
  | succ digits ih =>
    have hlength : steamChars.length = 26 := by decide
    have hnext : full / 26 < 2 ^ 53 := Nat.lt_of_le_of_lt (Nat.div_le_self _ _) h
    rw [steamCode, Totp.steamCode, hlength, Double.floorDiv_eq h (by decide), ih hnext]
    have hmod : full % 26 < steamChars.length := hlength ▸ Nat.mod_lt _ (by decide)
    rw [List.getElem?_eq_getElem hmod]
    rfl

theorem padZeros_eq (n : Nat) (otp : List Char) : padZeros n otp = List.replicate n '0' ++ otp := by
  induction n generalizing otp with
  | zero => rfl
  | succ n ih =>
    rw [padZeros, ih, List.replicate_succ', List.append_assoc]
    rfl

theorem deriveOtp_eq (macs : Totp.Macs) (params : Totp.Params) {counter : Nat}
    (h : counter < 2 ^ 53) : deriveOtp macs params counter = Totp.derive macs params counter := by
  have hsteam : ∀ hash, steamCode params.digits (binary hash)
      = Totp.steamCode params.digits hash.binary := by
    intro hash
    rw [← binary_eq]
    exact steamCode_eq _ (Nat.lt_trans (binary_lt hash) (by decide))
  have hdigits : ∀ n, padZeros (params.digits - (Nat.toDigits 10 n).length) (Nat.toDigits 10 n)
      = Totp.zeroPadded params.digits n := fun n => padZeros_eq _ _
  rw [deriveOtp, Totp.derive, counterBytes_eq h]
  dsimp only
  rw [hdigits, hsteam, binary_eq]
  cases params.algorithm <;> rfl

theorem Query.periodUsed_pos (q : Totp.Query) : 0 < q.periodUsed := by
  rw [Totp.Query.periodUsed]
  cases q.period.bind Totp.parseU32 with
  | none => decide
  | some p =>
    show 0 < max p 1
    omega

theorem readOtpauth_period {o : Totp.Otpauth} (h : Totp.readOtpauth rest = some o) :
    0 < o.period := by
  rw [Totp.readOtpauth] at h
  dsimp only at h
  split_ifs at h
  obtain ⟨q, -, hsettle⟩ := Option.bind_eq_some_iff.mp h
  rw [Totp.Query.settle] at hsettle
  obtain ⟨secret, -, hsettle⟩ := Option.bind_eq_some_iff.mp hsettle
  obtain ⟨algorithm, -, hsettle⟩ := Option.bind_eq_some_iff.mp hsettle
  split_ifs at hsettle
  cases hsettle
  exact Query.periodUsed_pos q

theorem parseKey_period {key : List Char} {params : Totp.Params}
    (h : Totp.parseKey key = some params) : 0 < params.period := by
  rw [Totp.parseKey] at h
  dsimp only at h
  split_ifs at h
  · obtain ⟨o, ho, rfl⟩ := Option.map_eq_some_iff.mp h
    exact readOtpauth_period ho
  · cases h
    exact (by decide : 0 < Totp.defaultPeriod)
  · cases h
    exact (by decide : 0 < Totp.defaultPeriod)

/-- The secret's text in an `otpauth` key. -/
def otpauthSecret (key : List Char) : Option (List Char) :=
  let lower := key.map Char.toLower
  if Totp.otpauthScheme.isPrefixOf lower then
    (Totp.readOtpauth (lower.drop Totp.otpauthScheme.length)).map (·.secret)
  else none

theorem toLower_lt (h : c.toNat < 128) : c.toLower.toNat < 128 :=
  of_decide_eq_true (ascii_all (p := fun c => c.toLower.toNat < 128) (by decide +kernel) h)

theorem parseOtpauth_eq (hascii : ∀ c ∈ rest, c.toNat < 128)
    (h : ∀ o ∈ Totp.readOtpauth rest, Plain casing o.secret) :
    parseOtpauth casing rest = Totp.parseOtpauth rest := by
  rw [parseOtpauth, Totp.parseOtpauth, readOtpauth_eq hascii]
  cases hread : Totp.readOtpauth rest with
  | none => rfl
  | some o => rw [Option.map_some, Option.map_some, secret_eq (h o hread)]

theorem any_high_eq (key : List Char) : key.any (128 ≤ ·.toNat) = !Totp.isAscii key := by
  rw [Totp.isAscii, List.not_all_eq_any_not]
  congr 1
  funext c
  rw [← decide_not]
  exact decide_eq_decide.mpr Nat.not_lt.symm

theorem parseKey_eq {key : List Char} (h : ∀ secret ∈ otpauthSecret key, Plain casing secret) :
    parseKey casing key = Totp.parseKey key := by
  rw [parseKey, Totp.parseKey, any_high_eq]
  by_cases hempty : key.isEmpty
  · rw [if_pos hempty, if_pos (by rw [hempty, Bool.true_or])]
  by_cases hascii : Totp.isAscii key
  · have hlower : ∀ c ∈ key.map Char.toLower, c.toNat < 128 := by
      intro c hc
      obtain ⟨d, hd, rfl⟩ := List.mem_map.mp hc
      exact toLower_lt (of_decide_eq_true (List.all_eq_true.mp hascii d hd))
    have hplain : ∀ n, Plain casing ((key.map Char.toLower).drop n) := by
      intro n c hc hge
      have := hlower c (List.mem_of_mem_drop hc)
      omega
    have hopen : ¬(key.isEmpty || !Totp.isAscii key) := by simp [hempty, hascii]
    rw [if_neg hempty, if_neg (by simp [hascii]), if_neg hopen]
    dsimp only
    by_cases hscheme : Totp.otpauthScheme.isPrefixOf (key.map Char.toLower)
    · rw [if_pos hscheme, if_pos (show "otpauth://".toList.isPrefixOf _ from hscheme)]
      apply parseOtpauth_eq
      · exact fun c hc => hlower c (List.mem_of_mem_drop hc)
      · intro o ho
        apply h
        rw [otpauthSecret, if_pos hscheme]
        exact Option.map_eq_some_iff.mpr ⟨o, ho, rfl⟩
    · -- A secret outside a URI is part of the key, and so in ASCII.
      have hbare := hplain 0
      rw [List.drop_zero] at hbare
      rw [if_neg hscheme, if_neg (show ¬"otpauth://".toList.isPrefixOf _ from hscheme),
        secret_eq (hplain _), secret_eq hbare]
      rfl
  · rw [if_neg hempty, if_pos (by simp [hascii]), if_pos (by simp [hascii])]

/-- The panel's milliseconds give the helper's counter. -/
theorem counter_eq {s period : Nat} (hs : s < 2 ^ 43) (hperiod : 0 < period) :
    Double.floorDiv (Double.floorDiv (1000 * s) 1000) period = s / period := by
  have hms : 1000 * s < 2 ^ 53 := by omega
  rw [Double.floorDiv_eq hms (by omega), Nat.mul_div_cancel_left s (by omega),
    Double.floorDiv_eq (by omega) hperiod]

/-- The characters outside ASCII that have an ASCII character in their upper case. -/
def asciiUppers : List (Char × List Char) :=
  [('\u00df', ['S', 'S']), ('\u0131', ['I']), ('\u0149', ['\u02bc', 'N']), ('\u017f', ['S']),
    ('\u01f0', ['J', '\u030c']), ('\u1e96', ['H', '\u0331']), ('\u1e97', ['T', '\u0308']),
    ('\u1e98', ['W', '\u030a']), ('\u1e99', ['Y', '\u030a']), ('\u1e9a', ['A', '\u02be']),
    ('\ufb00', ['F', 'F']), ('\ufb01', ['F', 'I']), ('\ufb02', ['F', 'L']),
    ('\ufb03', ['F', 'F', 'I']), ('\ufb04', ['F', 'F', 'L']), ('\ufb05', ['S', 'T']),
    ('\ufb06', ['S', 'T'])]

/-- Unicode's upper case as far as base32 can tell: every other character outside ASCII stays
outside, and is left as it is. -/
def unicodeCasing : Casing where
  upper c := (asciiUppers.lookup c).getD [c.toUpper]
  ascii := by
    intro c hc
    have hkeys : asciiUppers.all fun entry => 128 ≤ entry.1.toNat := by decide
    have hnone : asciiUppers.lookup c = none := by
      rw [List.lookup_eq_none_iff]
      intro entry hentry
      have hge := of_decide_eq_true (List.all_eq_true.mp hkeys entry hentry)
      rw [bne_iff_ne]
      intro heq
      rw [heq] at hc
      omega
    rw [hnone]
    rfl

end QsBitwarden.Panel.TotpModel
