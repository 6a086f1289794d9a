import QsBitwarden.Lib.Json
import QsBitwarden.Lib.JsonText

/-!
# JsonRead — a JSON reader, and what it makes of written text

Recursive descent over the characters of a text, by the grammar of JSON and with nothing beyond it.
What number a numeral stands for is left to the caller: implementations differ there.

* **`value`**, **`parse`** — the reader. Fuel bounds the depth and the length of a list; the length
  of the text is always enough.
* **`Reads`** — a text is read as a value wherever it stands, before anything that ends a value.
* **`reads_quote`**, **`reads_number`**, **`reads_boolean`**, **`reads_array`**,
  **`reads_object`** — what `JsonText` writes is read back, part by part.
-/

namespace JsonRead

open Json JsonText

variable {c : Char} {n : Nat} {rest : List Char}

/-! ## The reader -/

def isSpace (c : Char) : Bool := c == ' ' || c == '\t' || c == '\n' || c == '\r'

def skip (text : List Char) : List Char := text.dropWhile isSpace

def hexValue (c : Char) : Option Nat :=
  if 48 ≤ c.toNat ∧ c.toNat ≤ 57 then some (c.toNat - 48)
  else if 97 ≤ c.toNat ∧ c.toNat ≤ 102 then some (c.toNat - 87)
  else if 65 ≤ c.toNat ∧ c.toNat ≤ 70 then some (c.toNat - 55)
  else none

/-- The UTF-16 unit of four hexadecimal digits. -/
def hexUnit (a b c d : Char) : Option Nat := do
  let a ← hexValue a
  let b ← hexValue b
  let c ← hexValue c
  let d ← hexValue d
  return ((a * 16 + b) * 16 + c) * 16 + d

/-- The escapes of one letter. -/
def shortEscape (c : Char) : Option Char :=
  match c with
  | '"' | '\\' | '/' => some c
  | 'b' => some '\x08'
  | 'f' => some '\x0c'
  | 'n' => some '\n'
  | 'r' => some '\r'
  | 't' => some '\t'
  | _ => none

/-- A character of a string as it stands, or a UTF-16 unit written out. -/
inductive Piece where
  | char (c : Char)
  | unit (n : Nat)

/-- The rest of a string after its opening quote. -/
def pieces : List Char → Option (List Piece × List Char)
  | [] => none
  | c :: rest =>
    if c = '"' then some ([], rest)
    else if c = '\\' then
      match rest with
      | 'u' :: a :: b :: c :: d :: rest =>
        match hexUnit a b c d with
        | some n => (pieces rest).map fun r => (.unit n :: r.1, r.2)
        | none => none
      | c :: rest =>
        match shortEscape c with
        | some e => (pieces rest).map fun r => (.char e :: r.1, r.2)
        | none => none
      | [] => none
    else if c.toNat < 0x20 then none
    else (pieces rest).map fun r => (.char c :: r.1, r.2)

def isHigh (n : Nat) : Bool := 0xd800 ≤ n && n < 0xdc00

def isLow (n : Nat) : Bool := 0xdc00 ≤ n && n < 0xe000

/-- A unit on its own. A `String` cannot hold half of a surrogate pair. -/
def single (n : Nat) : Char := if isHigh n || isLow n then '�' else Char.ofNat n

def join : List Piece → List Char
  | [] => []
  | .char c :: rest => c :: join rest
  | .unit n :: .unit m :: rest =>
    if isHigh n && isLow m then
      Char.ofNat (0x10000 + (n - 0xd800) * 0x400 + (m - 0xdc00)) :: join rest
    else single n :: join (.unit m :: rest)
  | .unit n :: rest => single n :: join rest

def text (chars : List Char) : Option (String × List Char) :=
  (pieces chars).map fun r => (String.ofList (join r.1), r.2)

/-- At least one digit. -/
def digits (chars : List Char) : Option (List Char × List Char) :=
  match chars.span Char.isDigit with
  | ([], _) => none
  | found => some found

/-- No digit follows a leading zero. -/
def integer : List Char → Option (List Char × List Char)
  | '0' :: rest => some (['0'], rest)
  | chars => digits chars

def fraction : List Char → Option (List Char × List Char)
  | '.' :: rest => (digits rest).map fun r => ('.' :: r.1, r.2)
  | chars => some ([], chars)

def exponentSign : List Char → List Char × List Char
  | '+' :: rest => (['+'], rest)
  | '-' :: rest => (['-'], rest)
  | chars => ([], chars)

def exponent : List Char → Option (List Char × List Char)
  | [] => some ([], [])
  | c :: rest =>
    if c = 'e' ∨ c = 'E' then
      let sign := exponentSign rest
      (digits sign.2).map fun r => (c :: sign.1 ++ r.1, r.2)
    else some ([], c :: rest)

def unsigned (chars : List Char) : Option (List Char × List Char) := do
  let (whole, chars) ← integer chars
  let (part, chars) ← fraction chars
  let (power, chars) ← exponent chars
  return (whole ++ part ++ power, chars)

def numeral : List Char → Option (List Char × List Char)
  | '-' :: rest => (unsigned rest).map fun r => ('-' :: r.1, r.2)
  | chars => unsigned chars

/-- Items with commas between them, up to the closing character. -/
def sequence {α : Type} (close : Char) (item : List Char → Option (α × List Char)) :
    Nat → List Char → Option (List α × List Char)
  | 0, _ => none
  | fuel + 1, chars =>
    match item chars with
    | none => none
    | some (x, rest) =>
      match skip rest with
      | [] => none
      | c :: rest =>
        if c = ',' then (sequence close item fuel rest).map fun r => (x :: r.1, r.2)
        else if c = close then some ([x], rest)
        else none

def delimited {α : Type} (close : Char) (item : List Char → Option (α × List Char)) (fuel : Nat)
    (chars : List Char) : Option (List α × List Char) :=
  match skip chars with
  | [] => none
  | c :: rest => if c = close then some ([], rest) else sequence close item fuel (c :: rest)

def entry (item : List Char → Option (Value × List Char)) (chars : List Char) :
    Option ((String × Value) × List Char) :=
  match skip chars with
  | '"' :: rest =>
    match text rest with
    | none => none
    | some (key, rest) =>
      match skip rest with
      | ':' :: rest => (item rest).map fun r => ((key, r.1), r.2)
      | _ => none
  | _ => none

/-- Of two entries with one key the later stays. -/
def collect (entries : List (String × Value)) : Fields :=
  entries.foldl (fun fields entry => Fields.insert entry.1 entry.2 fields) []

def value (number : List Char → Number) : Nat → List Char → Option (Value × List Char)
  | 0, _ => none
  | fuel + 1, chars =>
    match skip chars with
    | '"' :: rest => (text rest).map fun r => (.string r.1, r.2)
    | '[' :: rest =>
      (delimited ']' (value number fuel) fuel rest).map fun r => (.array r.1, r.2)
    | '\x7b' :: rest =>
      (delimited '\x7d' (entry (value number fuel)) fuel rest).map fun r =>
        (.object (collect r.1), r.2)
    | 't' :: 'r' :: 'u' :: 'e' :: rest => some (.bool true, rest)
    | 'f' :: 'a' :: 'l' :: 's' :: 'e' :: rest => some (.bool false, rest)
    | 'n' :: 'u' :: 'l' :: 'l' :: rest => some (.null, rest)
    | rest => (numeral rest).map fun r => (.number (number r.1), r.2)

/-- A text that is one value, with white space around it. -/
def parse (number : List Char → Number) (text : String) : Option Value :=
  match value number (text.toList.length + 1) text.toList with
  | some (v, rest) => if (skip rest).isEmpty then some v else none
  | none => none

/-! ## Strings -/

theorem skip_cons (h : isSpace c = false) (rest : List Char) : skip (c :: rest) = c :: rest := by
  rw [skip, List.dropWhile_cons, h]
  rfl

theorem join_unit (h : isHigh n = false) (rest : List Piece) :
    join (.unit n :: rest) = single n :: join rest := by
  cases rest with
  | nil => rfl
  | cons piece rest =>
    cases piece with
    | char c => rfl
    | unit m =>
      rw [join, h]
      rfl

/-- How a written character comes back. -/
def pieceOf (c : Char) : Piece :=
  if c.toNat < 0x20 ∧ c.toNat ∉ [8, 9, 10, 12, 13] then .unit c.toNat else .char c

theorem hexUnit_control : ∀ n < 32,
    hexUnit '0' '0' (hexDigit (n / 16)) (hexDigit (n % 16)) = some n := by
  decide

theorem char_eq (h : c.toNat = n) : c = Char.ofNat n := by
  rw [← h, Char.ofNat_toNat]

theorem pieces_close (rest : List Char) : pieces ('"' :: rest) = some ([], rest) := by
  rw [pieces.eq_def]
  exact if_pos rfl

theorem pieces_char (hquote : c ≠ '"') (hslash : c ≠ '\\') (hcontrol : ¬c.toNat < 0x20)
    (rest : List Char) : pieces (c :: rest) = (pieces rest).map fun r => (.char c :: r.1, r.2) := by
  rw [pieces.eq_def]
  exact (if_neg hquote).trans ((if_neg hslash).trans (if_neg hcontrol))

theorem pieces_unit {a b d : Char} (h : hexUnit a b c d = some n) (rest : List Char) :
    pieces ('\\' :: 'u' :: a :: b :: c :: d :: rest)
      = (pieces rest).map fun r => (.unit n :: r.1, r.2) := by
  rw [pieces.eq_def]
  simp [h]

theorem pieces_escape (c : Char) (rest : List Char) :
    pieces (escape c ++ rest) = (pieces rest).map fun r => (pieceOf c :: r.1, r.2) := by
  unfold escape
  split_ifs with hquote hslash hcontrol
  · subst hquote
    rfl
  · subst hslash
    rfl
  · split
    case h_6 h8 h9 h10 h12 h13 =>
      have hpiece : pieceOf c = .unit c.toNat := if_pos ⟨hcontrol, by
        simpa using ⟨h8, h9, h10, h12, h13⟩⟩
      rw [hpiece]
      exact pieces_unit (hexUnit_control _ hcontrol) rest
    all_goals next h => rw [char_eq h]; rfl
  · have hpiece : pieceOf c = .char c := if_neg fun h => hcontrol h.1
    rw [hpiece]
    exact pieces_char hquote hslash hcontrol rest

theorem pieces_quoted (chars rest : List Char) :
    pieces (chars.flatMap escape ++ '"' :: rest) = some (chars.map pieceOf, rest) := by
  induction chars with
  | nil => exact pieces_close rest
  | cons c chars ih =>
    rw [List.flatMap_cons, List.append_assoc, pieces_escape, ih]
    rfl

theorem join_pieceOf (chars : List Char) : join (chars.map pieceOf) = chars := by
  induction chars with
  | nil => rfl
  | cons c chars ih =>
    rw [List.map_cons]
    by_cases h : c.toNat < 0x20 ∧ c.toNat ∉ [8, 9, 10, 12, 13]
    · have hhigh : isHigh c.toNat = false := by simp [isHigh]; omega
      have hlow : isLow c.toNat = false := by simp [isLow]; omega
      rw [pieceOf, if_pos h, join_unit hhigh, ih, single, hhigh, hlow, Bool.false_or,
        if_neg Bool.false_ne_true, Char.ofNat_toNat]
    · rw [pieceOf, if_neg h, join, ih]

theorem text_quoted (s : String) (rest : List Char) :
    text (s.toList.flatMap escape ++ '"' :: rest) = some (s, rest) := by
  rw [text, pieces_quoted, Option.map_some, join_pieceOf, String.ofList_toList]

/-! ## Numerals -/

/-- Nothing that could belong to a numeral follows. -/
def Ends (rest : List Char) : Prop :=
  ∀ c ∈ rest.head?, c.isDigit = false ∧ c ≠ '.' ∧ c ≠ 'e' ∧ c ≠ 'E'

theorem ends_nil : Ends [] := fun _ h => nomatch h

theorem ends_cons (hdigit : c.isDigit = false) (hdot : c ≠ '.') (he : c ≠ 'e') (hE : c ≠ 'E')
    (rest : List Char) : Ends (c :: rest) := by
  intro d hd
  obtain rfl := Option.some.inj hd
  exact ⟨hdigit, hdot, he, hE⟩

theorem digits_append {chars : List Char} (hne : chars ≠ [])
    (hdigits : ∀ c ∈ chars, c.isDigit = true) (hends : Ends rest) :
    digits (chars ++ rest) = some (chars, rest) := by
  have htake : rest.takeWhile Char.isDigit = [] ∧ rest.dropWhile Char.isDigit = rest := by
    cases rest with
    | nil => exact ⟨rfl, rfl⟩
    | cons c rest =>
      have hc := (hends c rfl).1
      exact ⟨List.takeWhile_cons_of_neg (by simp [hc]), List.dropWhile_cons_of_neg (by simp [hc])⟩
  have hspan : (chars ++ rest).span Char.isDigit = (chars, rest) := by
    rw [List.span_eq_takeWhile_dropWhile, List.takeWhile_append_of_pos hdigits,
      List.dropWhile_append_of_pos hdigits, htake.1, htake.2, List.append_nil]
  rw [digits, hspan]
  cases chars with
  | nil => exact absurd rfl hne
  | cons c chars => rfl

/-- A number starts with a zero only if it is zero. -/
theorem toDigits_head (hn : 0 < n) : ∀ c ∈ (Nat.toDigits 10 n).head?, c ≠ '0' := by
  induction n using Nat.strong_induction_on with
  | _ n ih =>
    by_cases hlt : n < 10
    · rw [Nat.toDigits_of_lt_base hlt]
      intro c hc
      obtain rfl := Option.some.inj hc
      have hdigit : ∀ n < 10, 0 < n → n.digitChar ≠ '0' := by decide
      exact hdigit n hlt hn
    · have hdiv : 0 < n / 10 := Nat.div_pos (Nat.le_of_not_lt hlt) (by decide)
      rw [Nat.toDigits_of_base_le (by decide) (Nat.le_of_not_lt hlt),
        List.head?_append_of_ne_nil _ Nat.toDigits_ne_nil]
      exact ih (n / 10) (Nat.div_lt_self hn (by decide)) hdiv

theorem integer_number (n : Nat) (hends : Ends rest) :
    integer (number n ++ rest) = some (number n, rest) := by
  rcases Nat.eq_zero_or_pos n with rfl | hn
  · rfl
  · have hnumber : number n = Nat.toDigits 10 n := Nat.toList_repr
    rw [hnumber]
    have hhead := toDigits_head hn
    have hdigits : ∀ c ∈ Nat.toDigits 10 n, c.isDigit = true := fun c hc =>
      Nat.isDigit_of_mem_toDigits (by decide) (by decide) hc
    cases hchars : Nat.toDigits 10 n with
    | nil => exact absurd hchars Nat.toDigits_ne_nil
    | cons c chars =>
      rw [hchars] at hhead hdigits
      have hne : c ≠ '0' := hhead c rfl
      rw [List.cons_append, integer]
      · exact digits_append (List.cons_ne_nil _ _) hdigits hends
      · intro rest' h
        exact hne (List.cons.inj h).1

theorem unsigned_number (n : Nat) (hends : Ends rest) :
    unsigned (number n ++ rest) = some (number n, rest) := by
  have hfraction : fraction rest = some ([], rest) := by
    cases rest with
    | nil => rfl
    | cons c rest =>
      rw [fraction]
      intro rest' h
      exact (hends c rfl).2.1 (List.cons.inj h).1
  have hexponent : exponent rest = some ([], rest) := by
    cases rest with
    | nil => rfl
    | cons c rest =>
      have hc := hends c rfl
      rw [exponent, if_neg (fun h => h.elim hc.2.2.1 hc.2.2.2)]
  rw [unsigned, integer_number n hends]
  simp [hfraction, hexponent]

/-! ## Values -/

/-- The text is read as the value wherever it stands, before anything that ends a value. -/
structure Reads (num : List Char → Number) (chars : List Char) (v : Value) : Prop where
  start : ∃ c rest, chars = c :: rest ∧ isSpace c = false ∧ c ≠ ']'
  read : ∀ fuel rest, chars.length < fuel → Ends rest →
    value num fuel (chars ++ rest) = some (v, rest)

variable {num : List Char → Number}

/-- Fuel for a text is fuel for one step more than what is inside. -/
theorem exists_fuel {fuel : Nat} (h : n < fuel) : ∃ fuel', fuel = fuel' + 1 ∧ n ≤ fuel' :=
  ⟨fuel - 1, by omega, by omega⟩

theorem reads_quote (s : String) : Reads num (quote s) (.string s) := by
  refine ⟨⟨'"', _, rfl, by decide, by decide⟩, fun fuel rest hfuel _ => ?_⟩
  obtain ⟨fuel, rfl, -⟩ := exists_fuel hfuel
  have hchars : quote s ++ rest = '"' :: (s.toList.flatMap escape ++ '"' :: rest) := by
    simp [quote]
  rw [hchars, value, skip_cons (by decide)]
  show (text _).map _ = _
  rw [text_quoted]
  rfl

theorem reads_boolean (b : Bool) : Reads num (boolean b) (.bool b) := by
  have htrue : boolean true = ['t', 'r', 'u', 'e'] := by decide
  have hfalse : boolean false = ['f', 'a', 'l', 's', 'e'] := by decide
  cases b with
  | true =>
    refine ⟨⟨'t', _, htrue, by decide, by decide⟩, fun fuel rest hfuel _ => ?_⟩
    obtain ⟨fuel, rfl, -⟩ := exists_fuel hfuel
    rw [htrue, List.cons_append, value, skip_cons (by decide)]
    rfl
  | false =>
    refine ⟨⟨'f', _, hfalse, by decide, by decide⟩, fun fuel rest hfuel _ => ?_⟩
    obtain ⟨fuel, rfl, -⟩ := exists_fuel hfuel
    rw [hfalse, List.cons_append, value, skip_cons (by decide)]
    rfl

/-- No digit begins anything but a numeral. -/
theorem value_digit (hc : c.isDigit = true) (fuel : Nat) (chars : List Char) :
    value num (fuel + 1) (c :: chars)
      = (unsigned (c :: chars)).map fun r => (.number (num r.1), r.2) := by
  have hne : ∀ d : Char, d.isDigit = false → c ≠ d := fun d hd h => by simp [← h, hc] at hd
  have hspace : isSpace c = false := by
    simp [isSpace, hne ' ' (by decide), hne '\t' (by decide), hne '\n' (by decide),
      hne '\r' (by decide)]
  have hnumeral : numeral (c :: chars) = unsigned (c :: chars) := by
    rw [numeral]
    intro rest h
    exact hne '-' (by decide) (List.cons.inj h).1
  rw [value, skip_cons hspace]
  split
  case h_7 => rw [hnumeral]
  all_goals next h => exact absurd (List.cons.inj h).1 (hne _ (by decide))

theorem reads_number (n : Nat) : Reads num (number n) (.number (num (number n))) := by
  have hdigits : ∀ c ∈ number n, c.isDigit = true := by
    intro c hc
    rw [number, Nat.toList_repr] at hc
    exact Nat.isDigit_of_mem_toDigits (by decide) (by decide) hc
  cases hchars : number n with
  | nil => exact absurd ((Nat.toList_repr).symm.trans hchars) Nat.toDigits_ne_nil
  | cons c chars =>
    have hc : c.isDigit = true := hdigits c (by simp [hchars])
    have hne : ∀ d : Char, d.isDigit = false → c ≠ d := fun d hd h => by simp [← h, hc] at hd
    refine ⟨⟨c, chars, rfl, ?_, hne _ (by decide)⟩, fun fuel rest hfuel hends => ?_⟩
    · simp [isSpace, hne ' ' (by decide), hne '\t' (by decide), hne '\n' (by decide),
        hne '\r' (by decide)]
    · obtain ⟨fuel, rfl, -⟩ := exists_fuel hfuel
      rw [List.cons_append, value_digit hc, ← List.cons_append, ← hchars,
        unsigned_number n hends, Option.map_some]

/-- A whole number with its sign. -/
theorem reads_integer (n : Int) :
    Reads num (JsonText.integer n) (.number (num (JsonText.integer n))) := by
  cases n with
  | ofNat n => exact reads_number n
  | negSucc n =>
    refine ⟨⟨'-', _, rfl, by decide, by decide⟩, fun fuel rest hfuel hends => ?_⟩
    obtain ⟨fuel, rfl, -⟩ := exists_fuel hfuel
    have hnumeral : numeral ('-' :: (number (n + 1) ++ rest))
        = some ('-' :: number (n + 1), rest) := by
      rw [numeral, unsigned_number (n + 1) hends]
      rfl
    show value num (fuel + 1) ('-' :: (number (n + 1) ++ rest)) = _
    rw [value, skip_cons (by decide)]
    show (numeral _).map _ = _
    rw [hnumeral]
    rfl

/-! ## Lists of values -/

theorem commas_cons {item : List Char} {rest : List (List Char)} (h : rest ≠ []) :
    commas (item :: rest) = item ++ ',' :: commas rest := by
  cases rest with
  | nil => exact absurd rfl h
  | cons => rfl

theorem length_le_commas {item : List Char} {items : List (List Char)} (h : item ∈ items) :
    item.length ≤ (commas items).length := by
  induction items using commas.induct with
  | case1 => cases h
  | case2 => rw [List.mem_singleton.mp h, commas]
  | case3 first rest hrest ih =>
    rw [commas_cons hrest]
    rcases List.mem_cons.mp h with rfl | h
    · simp
    · have := ih h
      simp only [List.length_append, List.length_cons]
      omega

theorem count_le_commas (items : List (List Char)) : items.length ≤ (commas items).length + 1 := by
  induction items using commas.induct with
  | case1 => exact Nat.zero_le _
  | case2 => simp
  | case3 first rest hrest ih =>
    rw [commas_cons hrest]
    simp only [List.length_append, List.length_cons]
    omega

/-- What closes a list. -/
structure Closes (close : Char) : Prop where
  space : isSpace close = false
  comma : close ≠ ','
  ends : ∀ rest, Ends (close :: rest)

theorem closes_brace : Closes '\x7d' :=
  ⟨by decide, by decide, ends_cons (by decide) (by decide) (by decide) (by decide)⟩

section Lists

variable {α : Type} {close : Char} {item : List Char → Option (α × List Char)}
  {pairs : List (List Char × α)}

theorem sequence_commas (hclose : Closes close)
    (h : ∀ p ∈ pairs, ∀ rest, Ends rest → item (p.1 ++ rest) = some (p.2, rest))
    (hne : pairs ≠ []) {fuel : Nat} (hfuel : pairs.length ≤ fuel) (rest : List Char) :
    sequence close item fuel (commas (pairs.map (·.1)) ++ close :: rest)
      = some (pairs.map (·.2), rest) := by
  induction pairs generalizing fuel with
  | nil => exact absurd rfl hne
  | cons p pairs ih =>
    have hp := h p List.mem_cons_self
    cases fuel with
    | zero => simp at hfuel
    | succ fuel =>
      cases pairs with
      | nil =>
        rw [List.map_singleton, commas, sequence, hp _ (hclose.ends rest)]
        simp only [skip_cons hclose.space, if_neg hclose.comma, if_true, List.map_singleton]
      | cons p' pairs =>
        have hcomma : Ends (',' :: (commas ((p' :: pairs).map (·.1)) ++ close :: rest)) :=
          ends_cons (by decide) (by decide) (by decide) (by decide) _
        have hrest := ih (fun q hq => h q (List.mem_cons_of_mem _ hq)) (List.cons_ne_nil _ _)
          (Nat.le_of_succ_le_succ hfuel)
        rw [List.map_cons, commas_cons (by simp), List.append_assoc, List.cons_append, sequence,
          hp _ hcomma]
        simp only [skip_cons (show isSpace ',' = false by decide), if_true]
        rw [hrest]
        rfl

theorem delimited_commas (hclose : Closes close)
    (h : ∀ p ∈ pairs, ∀ rest, Ends rest → item (p.1 ++ rest) = some (p.2, rest))
    (hstart : ∀ p ∈ pairs, ∃ c rest, p.1 = c :: rest ∧ isSpace c = false ∧ c ≠ close)
    {fuel : Nat} (hfuel : pairs.length ≤ fuel) (rest : List Char) :
    delimited close item fuel (commas (pairs.map (·.1)) ++ close :: rest)
      = some (pairs.map (·.2), rest) := by
  by_cases hne : pairs = []
  · subst hne
    rw [List.map_nil, commas, List.nil_append, delimited, skip_cons hclose.space]
    exact if_pos rfl
  · -- the first character is the first item's
    obtain ⟨c, more, hmore, hspace, hc⟩ : ∃ c more, commas (pairs.map (·.1)) = c :: more
        ∧ isSpace c = false ∧ c ≠ close := by
      cases pairs with
      | nil => exact absurd rfl hne
      | cons p pairs =>
        obtain ⟨c, tail, htail, hspace, hc⟩ := hstart p List.mem_cons_self
        cases pairs with
        | nil => exact ⟨c, tail, htail, hspace, hc⟩
        | cons p' pairs =>
          refine ⟨c, tail ++ ',' :: commas ((p' :: pairs).map (·.1)), ?_, hspace, hc⟩
          rw [List.map_cons, htail, commas_cons (by simp), List.cons_append]
    rw [delimited, hmore, List.cons_append, skip_cons hspace]
    show (if c = close then _ else _) = _
    rw [if_neg hc, ← List.cons_append, ← hmore]
    exact sequence_commas hclose h hne hfuel rest

end Lists

variable {chars : List Char}

/-! ## Objects -/

theorem entry_member {item : List Char → Option (Value × List Char)} {key : String}
    {rest : List Char} {v : Value} (h : item (chars ++ rest) = some (v, rest)) :
    entry item (member key chars ++ rest) = some ((key, v), rest) := by
  have hchars : member key chars ++ rest
      = '"' :: (key.toList.flatMap escape ++ '"' :: ':' :: (chars ++ rest)) := by
    simp [member, quote]
  rw [hchars, entry, skip_cons (by decide)]
  simp only [text_quoted, skip_cons (show isSpace ':' = false by decide), h, Option.map_some]

/-- A key, the text of its value, and the value. -/
abbrev Member := String × List Char × Value

def Member.written (m : Member) : String × List Char := (m.1, m.2.1)

def Member.read (m : Member) : String × Value := (m.1, m.2.2)

theorem reads_object {members : List Member} (h : ∀ m ∈ members, Reads num m.2.1 m.2.2) :
    Reads num (object (members.map Member.written)) (.object (collect (members.map Member.read))) := by
  refine ⟨⟨'\x7b', _, rfl, by decide, by decide⟩, fun fuel rest hfuel _ => ?_⟩
  obtain ⟨fuel, rfl, hlength⟩ := exists_fuel hfuel
  -- the members as items
  set pairs : List (List Char × String × Value) :=
    members.map fun m => (member m.1 m.2.1, m.read) with hpairs
  have htexts : (members.map Member.written).map (fun m => member m.1 m.2) = pairs.map (·.1) := by
    simp [hpairs, Member.written]
  have hvalues : members.map Member.read = pairs.map (·.2) := by simp [hpairs]
  have hobject : (object (members.map Member.written)).length
      = (commas (pairs.map (·.1))).length + 2 := by
    rw [← htexts]
    simp [object]
  have hlong : (commas (pairs.map (·.1))).length + 2 ≤ fuel := by omega
  have hcount : pairs.length ≤ (commas (pairs.map (·.1))).length + 1 := by
    simpa using count_le_commas (pairs.map (·.1))
  have hread : ∀ p ∈ pairs, ∀ rest, Ends rest →
      entry (value num fuel) (p.1 ++ rest) = some (p.2, rest) := by
    intro p hp rest hends
    have hle : p.1.length ≤ (commas (pairs.map (·.1))).length :=
      length_le_commas (List.mem_map_of_mem (f := (·.1)) hp)
    obtain ⟨m, hm, rfl⟩ := List.mem_map.mp hp
    replace hle : (member m.1 m.2.1).length ≤ (commas (pairs.map (·.1))).length := hle
    have hmember : m.2.1.length ≤ (member m.1 m.2.1).length := by
      simp only [member, List.length_append, List.length_cons]
      omega
    exact entry_member ((h m hm).read fuel rest (by omega) hends)
  have hstart : ∀ p ∈ pairs, ∃ c rest, p.1 = c :: rest ∧ isSpace c = false ∧ c ≠ '\x7d' := by
    intro p hp
    obtain ⟨m, -, rfl⟩ := List.mem_map.mp hp
    exact ⟨'"', _, rfl, by decide, by decide⟩
  have hchars : object (members.map Member.written) ++ rest
      = '\x7b' :: (commas (pairs.map (·.1)) ++ '\x7d' :: rest) := by
    rw [object, htexts]
    simp
  rw [hchars, value, skip_cons (by decide)]
  show (delimited '\x7d' (entry (value num fuel)) fuel _).map _ = _
  rw [delimited_commas closes_brace hread hstart (by omega) rest, hvalues]
  rfl

/-- A text that is read as a value is parsed as it. -/
theorem Reads.parse {v : Value} (h : Reads num chars v) :
    parse num (String.ofList chars) = some v := by
  have hread := h.read (chars.length + 1) [] (Nat.lt_succ_self _) ends_nil
  rw [List.append_nil] at hread
  rw [JsonRead.parse, String.toList_ofList, hread]
  rfl

/-- Under distinct keys nothing is lost. -/
theorem lookup_collect {entries : List (String × Value)} (h : (entries.map (·.1)).Nodup)
    (key : String) : (collect entries).lookup key = entries.lookup key := by
  have hfold : ∀ fields : Fields, (∀ e ∈ entries, fields.lookup e.1 = none) →
      (entries.foldl (fun fields e => Fields.insert e.1 e.2 fields) fields).lookup key
        = (entries.lookup key).or (fields.lookup key) := by
    induction entries with
    | nil => exact fun _ _ => rfl
    | cons e entries ih =>
      obtain ⟨name, v⟩ := e
      obtain ⟨hname, hrest⟩ := List.nodup_cons.mp h
      intro fields hfields
      have hnew : ∀ e ∈ entries, (Fields.insert name v fields).lookup e.1 = none := by
        intro e he
        have hne : e.1 ≠ name := fun heq => hname (List.mem_map.mpr ⟨e, he, heq⟩)
        rw [Fields.lookup_insert, if_neg hne]
        exact hfields e (List.mem_cons_of_mem _ he)
      rw [List.foldl_cons, ih hrest _ hnew, Fields.lookup_insert, List.lookup_cons]
      by_cases hkey : key = name
      · subst hkey
        have hnone : entries.lookup key = none := by
          rw [List.lookup_eq_none_iff]
          intro e he
          simpa using fun heq : key = e.1 => hname (List.mem_map.mpr ⟨e, he, heq.symm⟩)
        rw [hnone, if_pos rfl, beq_self_eq_true]
        rfl
      · rw [if_neg hkey, beq_false_of_ne hkey]
  have hlookup := hfold [] fun _ _ => rfl
  rw [List.lookup_nil, Option.or_none] at hlookup
  exact hlookup

end JsonRead
