import QsBitwarden.Lib.JsonRead

/-!
# JsonScan — where the values of a JSON text can begin

A scanner that keeps only the depth and whether it is in a string, and what it says about the texts
the reader accepts: one of them can only be the end of another if nothing but white space is before
it.

* **`scan`** — character by character, over texts that need not be complete.
* **`Takes`** — a part of a text takes the scanner from one set of places to another; the parts of
  the reader are followed with it.
* **`takes_value`** — a value leaves the scanner behind a value, at the depth it came with.
* **`value_mono`** — more fuel reads the same.
* **`parse_of_suffix`** — the end of a JSON text that is a JSON text of its own and opens with a
  string in an object is read as the same value.
-/

namespace JsonRead

open Json

/-! ## The scanner -/

inductive Mode where
  /-- Between values, or in a number or a word. -/
  | free
  | text
  /-- Behind a backslash. -/
  | escape
  /-- Behind the closing quote of a string. -/
  | closed
  /-- Behind the one value of the text. -/
  | done
  deriving DecidableEq

structure Place where
  depth : Nat
  mode : Mode
  deriving DecidableEq

def isOpen (c : Char) : Bool := c == '[' || c == '\x7b'

def isClose (c : Char) : Bool := c == ']' || c == '\x7d'

/-- Where a value leaves the scanner. -/
def behind : Nat → Place
  | 0 => ⟨0, .done⟩
  | d + 1 => ⟨d + 1, .free⟩

def leave : Nat → Option Place
  | 0 => none
  | d + 1 => some (behind d)

def step (p : Place) (c : Char) : Option Place :=
  match p.mode with
  | .free =>
    if c = '"' then some ⟨p.depth, .text⟩
    else if isOpen c then some ⟨p.depth + 1, .free⟩
    else if isClose c then leave p.depth
    else if isSpace c then some p
    else some (behind p.depth)
  | .text =>
    if c = '"' then some ⟨p.depth, .closed⟩
    else if c = '\\' then some ⟨p.depth, .escape⟩
    else some p
  | .escape => if c = 'u' ∨ (shortEscape c).isSome then some ⟨p.depth, .text⟩ else none
  | .closed =>
    if isSpace c then some p
    else if isClose c then leave p.depth
    else if 0 < p.depth ∧ (c = ',' ∨ c = ':') then some ⟨p.depth, .free⟩
    else none
  | .done => if c = '"' ∨ isOpen c ∨ isClose c then none else some p

def scan (p : Place) (chars : List Char) : Option Place := chars.foldlM step p

theorem scan_cons (p : Place) (c : Char) (chars : List Char) :
    scan p (c :: chars) = (step p c).bind fun q => scan q chars := List.foldlM_cons

theorem scan_append (p : Place) (chars more : List Char) :
    scan p (chars ++ more) = (scan p chars).bind fun q => scan q more := List.foldlM_append

/-! ## Following the reader -/

/-- The part of `chars` before `rest` takes every place of `P` to one of `Q`. -/
def Takes (P : Place → Prop) (chars rest : List Char) (Q : Place → Prop) : Prop :=
  ∃ used, chars = used ++ rest ∧ ∀ p, P p → ∃ q, scan p used = some q ∧ Q q

section Takes

variable {P Q R : Place → Prop} {chars more rest : List Char}

theorem Takes.trans (h : Takes P chars more Q) (h' : Takes Q more rest R) :
    Takes P chars rest R := by
  obtain ⟨used, rfl, hused⟩ := h
  obtain ⟨used', rfl, hused'⟩ := h'
  refine ⟨used ++ used', (List.append_assoc ..).symm, fun p hp => ?_⟩
  obtain ⟨q, hq, hQ⟩ := hused p hp
  obtain ⟨r, hr, hR⟩ := hused' q hQ
  exact ⟨r, by rw [scan_append, hq, Option.bind_some, hr], hR⟩

theorem Takes.weaken (h : Takes P chars rest Q) (hQ : ∀ q, Q q → R q) : Takes P chars rest R := by
  obtain ⟨used, hchars, hused⟩ := h
  refine ⟨used, hchars, fun p hp => ?_⟩
  obtain ⟨q, hq, hQq⟩ := hused p hp
  exact ⟨q, hq, hQ q hQq⟩

theorem takes_nil : Takes P chars chars P := ⟨[], rfl, fun p hp => ⟨p, rfl, hp⟩⟩

theorem takes_cons {c : Char} (h : ∀ p, P p → ∃ q, step p c = some q ∧ Q q) :
    Takes P (c :: rest) rest Q := by
  refine ⟨[c], rfl, fun p hp => ?_⟩
  obtain ⟨q, hq, hQ⟩ := h p hp
  exact ⟨q, by rw [scan_cons, hq]; rfl, hQ⟩

/-- Characters that leave every place of `P` where it is. -/
theorem takes_all {used : List Char} (h : ∀ c ∈ used, ∀ p, P p → step p c = some p) :
    Takes P (used ++ rest) rest P := by
  induction used with
  | nil => exact takes_nil
  | cons c used ih =>
    have hc := h c List.mem_cons_self
    have hfirst : Takes P (c :: (used ++ rest)) (used ++ rest) P :=
      takes_cons fun p hp => ⟨p, hc p hp, hp⟩
    exact hfirst.trans (ih fun c' hc' => h c' (List.mem_cons_of_mem _ hc'))

theorem takes_skip (h : ∀ p, P p → ∀ c, isSpace c = true → step p c = some p)
    (chars : List Char) : Takes P chars (skip chars) P := by
  have hsplit : chars = chars.takeWhile isSpace ++ skip chars :=
    (List.takeWhile_append_dropWhile ..).symm
  have hspaces : ∀ c ∈ chars.takeWhile isSpace, ∀ p, P p → step p c = some p :=
    fun c hc p hp => h p hp c (List.all_eq_true.mp List.all_takeWhile c hc)
  have htakes : Takes P (chars.takeWhile isSpace ++ skip chars) (skip chars) P := takes_all hspaces
  rwa [← hsplit] at htakes

end Takes

variable {c : Char} {d : Nat} {rest chars found : List Char}

/-- Ready for a value at this depth. -/
def Free (d : Nat) (p : Place) : Prop := p = ⟨d, .free⟩

/-- Behind a value at this depth. -/
def After (d : Nat) (p : Place) : Prop := p = ⟨d, .closed⟩ ∨ p = behind d

theorem isSpace_cases (h : isSpace c = true) : c = ' ' ∨ c = '\t' ∨ c = '\n' ∨ c = '\r' := by
  simpa [isSpace, or_assoc] using h

theorem step_space_free (p : Place) (hp : Free d p) (c : Char) (hc : isSpace c = true) :
    step p c = some p := by
  subst hp
  rcases isSpace_cases hc with rfl | rfl | rfl | rfl <;> rfl

theorem step_space_after (p : Place) (hp : After d p) (c : Char) (hc : isSpace c = true) :
    step p c = some p := by
  rcases hp with rfl | rfl
  · exact if_pos hc
  · cases d with
    | zero => rcases isSpace_cases hc with rfl | rfl | rfl | rfl <;> rfl
    | succ d => exact step_space_free _ rfl c hc

/-- A comma or a colon in a container. -/
theorem step_separator (hc : c = ',' ∨ c = ':') (p : Place) (hp : After (d + 1) p) :
    ∃ q, step p c = some q ∧ Free (d + 1) q := by
  refine ⟨_, ?_, rfl⟩
  rcases hp with rfl | rfl <;> rcases hc with rfl | rfl <;> rfl

theorem step_close (hc : isClose c = true) (p : Place) (hp : Free (d + 1) p ∨ After (d + 1) p) :
    ∃ q, step p c = some q ∧ q = behind d := by
  have hcases : c = ']' ∨ c = '\x7d' := by simpa [isClose] using hc
  refine ⟨_, ?_, rfl⟩
  rcases hp with rfl | rfl | rfl <;> rcases hcases with rfl | rfl <;> rfl

/-! ## Strings -/

theorem step_hex {n : Nat} (h : hexValue c = some n) : step ⟨d, .text⟩ c = some ⟨d, .text⟩ := by
  have hquote : c ≠ '"' := by
    rintro rfl
    cases (show hexValue '"' = none by decide).symm.trans h
  have hslash : c ≠ '\\' := by
    rintro rfl
    cases (show hexValue '\\' = none by decide).symm.trans h
  exact (if_neg hquote).trans (if_neg hslash)

theorem hexValue_of_hexUnit {a b e : Char} {n : Nat} (h : hexUnit a b c e = some n) :
    ∀ x ∈ [a, b, c, e], ∃ m, hexValue x = some m := by
  unfold hexUnit at h
  simp only [Option.bind_eq_bind, Option.bind_eq_some_iff] at h
  obtain ⟨na, ha, nb, hb, nc, hc, ne, he, -⟩ := h
  intro x hx
  simp only [List.mem_cons, List.not_mem_nil, or_false] at hx
  rcases hx with rfl | rfl | rfl | rfl
  exacts [⟨_, ha⟩, ⟨_, hb⟩, ⟨_, hc⟩, ⟨_, he⟩]

/-- A reader whose answer is only dressed up leaves what the inner one leaves. -/
theorem exists_of_map {α β : Type} {f : α × List Char → β} {o : Option (α × List Char)} {x : β}
    (h : (o.map fun r => (f r, r.2)) = some (x, rest)) : ∃ y, o = some (y, rest) := by
  obtain ⟨⟨y, rest'⟩, ho, heq⟩ := Option.map_eq_some_iff.mp h
  obtain ⟨-, rfl⟩ := Prod.mk.inj heq
  exact ⟨y, ho⟩

def InText (d : Nat) (p : Place) : Prop := p = ⟨d, .text⟩

theorem takes_pieces {found : List Piece} (h : pieces chars = some (found, rest)) :
    Takes (InText d) chars rest (· = ⟨d, .closed⟩) := by
  have hslash : ∀ p, InText d p → ∃ q, step p '\\' = some q ∧ q = ⟨d, .escape⟩ := by
    rintro p rfl
    exact ⟨_, rfl, rfl⟩
  fun_induction pieces chars generalizing found with
  | case1 | case4 | case6 | case7 | case8 => cases h
  | case2 =>
    obtain ⟨-, rfl⟩ := Prod.mk.inj (Option.some.inj h)
    exact takes_cons fun p hp => ⟨_, by subst hp; rfl, rfl⟩
  | case3 a b c e rest' n hunit _ ih =>
    obtain ⟨more, hmore⟩ := exists_of_map h
    have hu : Takes (· = ⟨d, .escape⟩) ('u' :: [a, b, c, e] ++ rest') ([a, b, c, e] ++ rest')
        (InText d) := takes_cons fun p hp => ⟨_, by subst hp; rfl, rfl⟩
    have hdigits : Takes (InText d) ([a, b, c, e] ++ rest') rest' (InText d) := by
      apply takes_all
      intro x hx p hp
      obtain ⟨m, hm⟩ := hexValue_of_hexUnit hunit x hx
      subst hp
      exact step_hex hm
    exact (takes_cons hslash).trans (hu.trans (hdigits.trans (ih hmore)))
  | case5 c rest' _ e hshort _ ih =>
    obtain ⟨more, hmore⟩ := exists_of_map h
    have hc : Takes (· = ⟨d, .escape⟩) (c :: rest') rest' (InText d) := by
      apply takes_cons
      rintro p rfl
      exact ⟨⟨d, .text⟩, if_pos (.inr (by rw [hshort]; rfl)), rfl⟩
    exact (takes_cons hslash).trans (hc.trans (ih hmore))
  | case9 c rest' hquote hback _ ih =>
    obtain ⟨more, hmore⟩ := exists_of_map h
    have hc : Takes (InText d) (c :: rest') rest' (InText d) := by
      apply takes_cons
      rintro p rfl
      exact ⟨⟨d, .text⟩, (if_neg hquote).trans (if_neg hback), rfl⟩
    exact hc.trans (ih hmore)

theorem takes_text {s : String} (h : text chars = some (s, rest)) :
    Takes (Free d) ('"' :: chars) rest (After d) := by
  obtain ⟨found, hfound⟩ := exists_of_map h
  have hopen : Takes (Free d) ('"' :: chars) chars (InText d) :=
    takes_cons fun p hp => ⟨_, by subst hp; rfl, rfl⟩
  exact (hopen.trans (takes_pieces hfound)).weaken fun q hq => .inl hq

/-! ## Numbers and words -/

/-- A character that is part of no string, opens or closes nothing and is no white space. -/
def isPlain (c : Char) : Bool := c != '"' && !isOpen c && !isClose c && !isSpace c

theorem step_plain_free (h : isPlain c = true) : step ⟨d, .free⟩ c = some (behind d) := by
  simp only [isPlain, Bool.and_eq_true, bne_iff_ne, Bool.not_eq_true'] at h
  simp [step, h]

theorem step_plain_behind (h : isPlain c = true) : step (behind d) c = some (behind d) := by
  cases d with
  | zero =>
    simp only [isPlain, Bool.and_eq_true, bne_iff_ne, Bool.not_eq_true'] at h
    simp [step, behind, h]
  | succ d => exact step_plain_free h

theorem takes_plain (hne : chars ≠ []) (h : ∀ c ∈ chars, isPlain c = true) :
    Takes (Free d) (chars ++ rest) rest (After d) := by
  cases chars with
  | nil => exact absurd rfl hne
  | cons c chars =>
    have hfirst : Takes (Free d) (c :: (chars ++ rest)) (chars ++ rest) (· = behind d) :=
      takes_cons fun p hp => ⟨_, hp ▸ step_plain_free (h c List.mem_cons_self), rfl⟩
    have hrest : Takes (· = behind d) (chars ++ rest) rest (· = behind d) :=
      takes_all fun c' hc' p hp => hp ▸ step_plain_behind (h c' (List.mem_cons_of_mem _ hc'))
    exact (hfirst.trans hrest).weaken fun q hq => .inr hq

theorem isPlain_digit (h : c.isDigit = true) : isPlain c = true := by
  have hne : ∀ d : Char, d.isDigit = false → c ≠ d := fun d hd heq => by simp [← heq, h] at hd
  simp [isPlain, isOpen, isClose, isSpace, hne '"' (by decide), hne '[' (by decide),
    hne '\x7b' (by decide), hne ']' (by decide), hne '\x7d' (by decide), hne ' ' (by decide),
    hne '\t' (by decide), hne '\n' (by decide), hne '\r' (by decide)]

/-- A part of a numeral: what it is made of and what it leaves. -/
structure Part (chars found rest : List Char) : Prop where
  split : chars = found ++ rest
  plain : ∀ c ∈ found, isPlain c = true

theorem Part.cons (hc : isPlain c = true) (h : Part chars found rest) :
    Part (c :: chars) (c :: found) rest := by
  refine ⟨by rw [h.split, List.cons_append], ?_⟩
  rintro c' (_ | ⟨_, hc'⟩)
  exacts [hc, h.plain c' hc']

theorem Part.append {more found' : List Char} (h : Part chars found more)
    (h' : Part more found' rest) : Part chars (found ++ found') rest := by
  refine ⟨by rw [h.split, h'.split, List.append_assoc], fun c hc => ?_⟩
  rcases List.mem_append.mp hc with hc | hc
  exacts [h.plain c hc, h'.plain c hc]

theorem part_nil (chars : List Char) : Part chars [] chars := ⟨rfl, fun _ h => nomatch h⟩

theorem part_digits (h : digits chars = some (found, rest)) :
    Part chars found rest ∧ found ≠ [] := by
  have hspan := List.span_eq_takeWhile_dropWhile (p := Char.isDigit) (l := chars)
  unfold digits at h
  split at h
  · cases h
  · next pair hne =>
    have heq := Option.some.inj h
    rw [hspan] at heq
    obtain ⟨rfl, rfl⟩ := Prod.mk.inj heq
    refine ⟨⟨(List.takeWhile_append_dropWhile ..).symm, fun c hc => ?_⟩, fun hnil => ?_⟩
    · exact isPlain_digit (List.all_eq_true.mp List.all_takeWhile c hc)
    · exact hne _ (by rw [hspan, hnil])

theorem part_integer (h : integer chars = some (found, rest)) :
    Part chars found rest ∧ found ≠ [] := by
  unfold integer at h
  split at h
  · obtain ⟨rfl, rfl⟩ := Prod.mk.inj (Option.some.inj h)
    exact ⟨(part_nil _).cons (by decide), List.cons_ne_nil _ _⟩
  · exact part_digits h

theorem part_fraction (h : fraction chars = some (found, rest)) : Part chars found rest := by
  unfold fraction at h
  split at h
  · obtain ⟨⟨ds, rest'⟩, hdigits, heq⟩ := Option.map_eq_some_iff.mp h
    obtain ⟨rfl, rfl⟩ := Prod.mk.inj heq
    exact (part_digits hdigits).1.cons (by decide)
  · obtain ⟨rfl, rfl⟩ := Prod.mk.inj (Option.some.inj h)
    exact part_nil _

theorem part_exponentSign (chars : List Char) :
    Part chars (exponentSign chars).1 (exponentSign chars).2 := by
  unfold exponentSign
  split
  · exact (part_nil _).cons (by decide)
  · exact (part_nil _).cons (by decide)
  · exact part_nil _

theorem part_exponent (h : exponent chars = some (found, rest)) : Part chars found rest := by
  unfold exponent at h
  split at h
  · obtain ⟨rfl, rfl⟩ := Prod.mk.inj (Option.some.inj h)
    exact part_nil _
  · next c chars =>
    split at h
    · next hc =>
      obtain ⟨⟨ds, rest'⟩, hdigits, heq⟩ := Option.map_eq_some_iff.mp h
      obtain ⟨rfl, rfl⟩ := Prod.mk.inj heq
      have hplain : isPlain c = true := by rcases hc with rfl | rfl <;> decide
      exact ((part_exponentSign chars).append (part_digits hdigits).1).cons hplain
    · obtain ⟨rfl, rfl⟩ := Prod.mk.inj (Option.some.inj h)
      exact part_nil _

theorem part_unsigned (h : unsigned chars = some (found, rest)) :
    Part chars found rest ∧ found ≠ [] := by
  unfold unsigned at h
  simp only [Option.bind_eq_bind, Option.bind_eq_some_iff] at h
  obtain ⟨⟨whole, chars1⟩, hwhole, ⟨part, chars2⟩, hpart, ⟨power, chars3⟩, hpower, heq⟩ := h
  obtain ⟨rfl, rfl⟩ := Prod.mk.inj (Option.some.inj heq)
  have hinteger := part_integer hwhole
  refine ⟨(hinteger.1.append (part_fraction hpart)).append (part_exponent hpower), ?_⟩
  simp [hinteger.2]

theorem takes_numeral (h : numeral chars = some (found, rest)) :
    Takes (Free d) chars rest (After d) := by
  have hpart : Part chars found rest ∧ found ≠ [] := by
    unfold numeral at h
    split at h
    · obtain ⟨⟨ds, rest'⟩, hunsigned, heq⟩ := Option.map_eq_some_iff.mp h
      obtain ⟨rfl, rfl⟩ := Prod.mk.inj heq
      exact ⟨(part_unsigned hunsigned).1.cons (by decide), List.cons_ne_nil _ _⟩
    · exact part_unsigned h
  rw [hpart.1.split]
  exact takes_plain hpart.2 hpart.1.plain

theorem takes_literal (chars : List Char) (hne : chars ≠ []) (h : chars.all isPlain = true) :
    Takes (Free d) (chars ++ rest) rest (After d) := takes_plain hne (List.all_eq_true.mp h)

/-! ## Containers -/

/-- The reader of an item leaves the scanner behind a value. -/
def ItemAt {α : Type} (d : Nat) (item : List Char → Option (α × List Char)) : Prop :=
  ∀ chars x rest, item chars = some (x, rest) → Takes (Free d) chars rest (After d)

section Containers

variable {α : Type} {d : Nat} {close : Char} {item : List Char → Option (α × List Char)}

theorem takes_sequence (hclose : isClose close = true) (hitem : ItemAt (d + 1) item) {fuel : Nat}
    {chars rest : List Char} {found : List α}
    (h : sequence close item fuel chars = some (found, rest)) :
    Takes (Free (d + 1)) chars rest (· = behind d) := by
  induction fuel generalizing chars found with
  | zero => cases h
  | succ fuel ih =>
    rw [sequence] at h
    split at h
    · cases h
    next x more hx =>
    have hfirst := (hitem _ _ _ hx).trans (takes_skip step_space_after more)
    split at h
    · cases h
    next c more' hskip =>
    rw [hskip] at hfirst
    split_ifs at h with hcomma hc
    · obtain ⟨found', hfound⟩ := exists_of_map h
      exact hfirst.trans ((takes_cons (step_separator (.inl hcomma))).trans (ih hfound))
    · obtain ⟨-, rfl⟩ := Prod.mk.inj (Option.some.inj h)
      subst hc
      exact hfirst.trans (takes_cons fun p hp => step_close hclose p (.inr hp))

theorem takes_delimited (hclose : isClose close = true) (hitem : ItemAt (d + 1) item) {fuel : Nat}
    {chars rest : List Char} {found : List α}
    (h : delimited close item fuel chars = some (found, rest)) :
    Takes (Free (d + 1)) chars rest (· = behind d) := by
  have hspaces := takes_skip (P := Free (d + 1)) step_space_free chars
  unfold delimited at h
  split at h
  · cases h
  next c more hskip =>
  rw [hskip] at hspaces
  split_ifs at h with hc
  · obtain ⟨-, rfl⟩ := Prod.mk.inj (Option.some.inj h)
    subst hc
    exact hspaces.trans (takes_cons fun p hp => step_close hclose p (.inl hp))
  · exact hspaces.trans (takes_sequence hclose hitem h)

end Containers

theorem itemAt_entry {d : Nat} {item : List Char → Option (Value × List Char)}
    (hitem : ItemAt (d + 1) item) : ItemAt (d + 1) (entry item) := by
  intro chars x rest h
  have hspaces := takes_skip (P := Free (d + 1)) step_space_free chars
  unfold entry at h
  split at h
  · next more hskip =>
    rw [hskip] at hspaces
    split at h
    · cases h
    next key more' hkey =>
    have hname := hspaces.trans
      ((takes_text hkey).trans (takes_skip step_space_after more'))
    split at h
    · next last hcolon =>
      rw [hcolon] at hname
      obtain ⟨v, hv⟩ := exists_of_map h
      exact hname.trans ((takes_cons (step_separator (.inr rfl))).trans (hitem _ _ _ hv))
    · cases h
  · cases h

theorem takes_opening {d : Nat} {c : Char} {chars rest : List Char} (hc : isOpen c = true)
    (h : Takes (Free (d + 1)) chars rest (· = behind d)) :
    Takes (Free d) (c :: chars) rest (After d) := by
  have hcases : c = '[' ∨ c = '\x7b' := by simpa [isOpen] using hc
  have hopen : Takes (Free d) (c :: chars) chars (Free (d + 1)) := by
    apply takes_cons
    rintro p rfl
    refine ⟨_, ?_, rfl⟩
    rcases hcases with rfl | rfl <;> rfl
  exact (hopen.trans h).weaken fun q hq => .inr hq

/-- **A value leaves the scanner behind a value, at the depth it came with.** -/
theorem takes_value {num : List Char → Number} (fuel d : Nat) : ItemAt d (value num fuel) := by
  induction fuel generalizing d with
  | zero =>
    intro chars v rest h
    cases h
  | succ fuel ih =>
    intro chars v rest h
    apply (takes_skip step_space_free chars).trans
    rw [value] at h
    split at h
    · next hskip =>
      obtain ⟨s, hs⟩ := exists_of_map h
      rw [hskip]
      exact takes_text hs
    · next hskip =>
      obtain ⟨vs, hvs⟩ := exists_of_map h
      rw [hskip]
      exact takes_opening (by decide) (takes_delimited (by decide) (ih (d + 1)) hvs)
    · next hskip =>
      obtain ⟨es, hes⟩ := exists_of_map h
      rw [hskip]
      exact takes_opening (by decide)
        (takes_delimited (by decide) (itemAt_entry (ih (d + 1))) hes)
    · next hskip =>
      obtain ⟨-, rfl⟩ := Prod.mk.inj (Option.some.inj h)
      rw [hskip]
      exact takes_literal ['t', 'r', 'u', 'e'] (List.cons_ne_nil _ _) rfl
    · next hskip =>
      obtain ⟨-, rfl⟩ := Prod.mk.inj (Option.some.inj h)
      rw [hskip]
      exact takes_literal ['f', 'a', 'l', 's', 'e'] (List.cons_ne_nil _ _) rfl
    · next hskip =>
      obtain ⟨-, rfl⟩ := Prod.mk.inj (Option.some.inj h)
      rw [hskip]
      exact takes_literal ['n', 'u', 'l', 'l'] (List.cons_ne_nil _ _) rfl
    · obtain ⟨n, hn⟩ := exists_of_map h
      exact takes_numeral hn

theorem takes_parse {num : List Char → Number} {chars : List Char} {v : Value}
    (h : parse num (String.ofList chars) = some v) (d : Nat) :
    Takes (Free d) chars [] (After d) := by
  rw [parse, String.toList_ofList] at h
  split at h
  · next v' rest hvalue =>
    split at h
    · next hrest =>
      have hspaces := takes_skip (P := After d) step_space_after rest
      rw [List.isEmpty_iff.mp hrest] at hspaces
      exact (takes_value _ d _ _ _ hvalue).trans hspaces
    · cases h
  · cases h

/-! ## Fuel -/

section Fuel

variable {α : Type} {close : Char} {item item' : List Char → Option (α × List Char)}

/-- What one reader reads, the other reads too. -/
def Extends (item item' : List Char → Option (α × List Char)) : Prop :=
  ∀ chars r, item chars = some r → item' chars = some r

theorem Extends.map {β : Type} {f : α × List Char → β} (h : Extends item item') {chars : List Char}
    {r : β} (hr : (item chars).map f = some r) : (item' chars).map f = some r := by
  obtain ⟨x, hx, rfl⟩ := Option.map_eq_some_iff.mp hr
  rw [h chars x hx, Option.map_some]

theorem sequence_mono (hitem : Extends item item') {fuel : Nat} :
    Extends (sequence close item fuel) (sequence close item' (fuel + 1)) := by
  induction fuel with
  | zero =>
    intro chars r h
    cases h
  | succ fuel ih =>
    intro chars r h
    rw [sequence] at h
    split at h
    · cases h
    next x more hx =>
    rw [sequence, hitem _ _ hx]
    dsimp only
    cases hskip : skip more with
    | nil =>
      rw [hskip] at h
      cases h
    | cons c rest =>
      rw [hskip] at h
      dsimp only at h ⊢
      split_ifs at h ⊢
      · exact ih.map h
      · exact h

theorem delimited_mono (hitem : Extends item item') {fuel : Nat} :
    Extends (delimited close item fuel) (delimited close item' (fuel + 1)) := by
  intro chars r h
  unfold delimited at h ⊢
  split at h
  · cases h
  · split_ifs at h ⊢
    · exact h
    · exact sequence_mono hitem _ _ h

end Fuel

variable {num : List Char → Number} {spaces : List Char} {p : Place}

theorem entry_mono {item item' : List Char → Option (Value × List Char)}
    (hitem : Extends item item') : Extends (entry item) (entry item') := by
  intro chars r h
  unfold entry at h ⊢
  split at h
  · split at h
    · cases h
    · split at h
      · exact hitem.map h
      · cases h
  · cases h

/-- **More fuel reads the same.** -/
theorem value_mono {fuel fuel' : Nat} (h : fuel ≤ fuel') :
    Extends (value num fuel) (value num fuel') := by
  have hsucc : ∀ fuel, Extends (value num fuel) (value num (fuel + 1)) := by
    intro fuel
    induction fuel with
    | zero => exact fun _ _ h => nomatch h
    | succ fuel ih =>
      intro chars r h
      rw [value] at h ⊢
      split at h
      · exact h
      · exact (delimited_mono ih).map h
      · exact (delimited_mono (entry_mono ih)).map h
      · exact h
      · exact h
      · exact h
      · exact h
  induction h with
  | refl => exact fun _ _ h => h
  | step _ ih => exact fun chars r hr => hsucc _ _ _ (ih chars r hr)

variable (h : spaces.all isSpace = true)
include h

theorem skip_append (chars : List Char) : skip (spaces ++ chars) = skip chars :=
  List.dropWhile_append_of_pos (List.all_eq_true.mp h)

theorem value_append (fuel : Nat) (chars : List Char) :
    value num fuel (spaces ++ chars) = value num fuel chars := by
  cases fuel with
  | zero => rfl
  | succ fuel => rw [value, value, skip_append h]

theorem parse_append {chars : List Char} {v : Value}
    (hparse : parse num (String.ofList chars) = some v) :
    parse num (String.ofList (spaces ++ chars)) = some v := by
  rw [parse, String.toList_ofList] at hparse ⊢
  split at hparse
  · next v' rest hvalue =>
    have hfuel : chars.length + 1 ≤ (spaces ++ chars).length + 1 := by
      rw [List.length_append]
      omega
    rw [value_append h, value_mono hfuel _ _ hvalue]
    exact hparse
  · cases hparse

omit h

/-! ## A text at the end of another -/

theorem depth_behind (d : Nat) : (behind d).depth = d := by
  cases d with
  | zero => rfl
  | succ d => rfl

theorem depth_of_after {d : Nat} (h : After d p) : p.depth = d := by
  rcases h with rfl | rfl
  · rfl
  · exact depth_behind d

theorem behind_ne (d : Nat) : behind d ≠ ⟨0, .free⟩ := by
  cases d with
  | zero => exact fun h => nomatch h
  | succ d => exact fun h => nomatch h

theorem leave_ne (d : Nat) : leave d ≠ some ⟨0, .free⟩ := by
  cases d with
  | zero => exact fun h => nomatch h
  | succ d => exact fun h => behind_ne d (Option.some.inj h)

/-- Only white space leaves the scanner before the first value. -/
theorem space_of_step {c : Char} (h : step p c = some ⟨0, .free⟩) :
    p = ⟨0, .free⟩ ∧ isSpace c = true := by
  obtain ⟨d, mode⟩ := p
  cases mode with
  | free =>
    simp only [step] at h
    split_ifs at h with hquote hopen hclose hspace
    · cases h
    · cases h
    · exact absurd h (leave_ne d)
    · exact ⟨Option.some.inj h, hspace⟩
    · exact absurd (Option.some.inj h) (behind_ne d)
  | text =>
    simp only [step] at h
    split_ifs at h <;> cases h
  | escape =>
    simp only [step] at h
    split_ifs at h
    cases h
  | closed =>
    simp only [step] at h
    split_ifs at h with hspace hclose hsep
    · cases h
    · exact absurd h (leave_ne d)
    · cases h
      exact absurd hsep.1 (Nat.lt_irrefl 0)
  | done =>
    simp only [step] at h
    split_ifs at h
    cases h

theorem spaces_of_scan {chars : List Char} (h : scan p chars = some ⟨0, .free⟩) :
    p = ⟨0, .free⟩ ∧ chars.all isSpace = true := by
  induction chars generalizing p with
  | nil => exact ⟨Option.some.inj h, rfl⟩
  | cons c chars ih =>
    rw [scan_cons] at h
    obtain ⟨q, hq, hrest⟩ := Option.bind_eq_some_iff.mp h
    obtain ⟨rfl, hspaces⟩ := ih hrest
    obtain ⟨hp, hspace⟩ := space_of_step hq
    exact ⟨hp, by rw [List.all_cons, hspace, hspaces]; rfl⟩

/-- In a string the brace is a character of it, the quote closes it, and what closes a string is
followed by a separator. -/
theorem free_of_scan {q : Place} {c : Char} {rest : List Char} (hc : isPlain c = true)
    (hsep : c ≠ ',' ∧ c ≠ ':') (h : scan p ('\x7b' :: '"' :: c :: rest) = some q) :
    p.mode = .free := by
  obtain ⟨d, mode⟩ := p
  cases mode with
  | free => rfl
  | text =>
    have hclosed : step ⟨d, .closed⟩ c = none := by
      simp only [isPlain, Bool.and_eq_true, bne_iff_ne, Bool.not_eq_true'] at hc
      simp [step, hc, hsep]
    have hscan : scan ⟨d, .text⟩ ('\x7b' :: '"' :: c :: rest) = scan ⟨d, .closed⟩ (c :: rest) := rfl
    rw [hscan, scan_cons, hclosed] at h
    cases h
  | closed =>
    have hbrace : step ⟨d, .closed⟩ '\x7b' = none := by simp [step, isSpace, isClose]
    rw [scan_cons, hbrace] at h
    cases h
  | escape | done => cases (show none = some q from h)

/-- **The end of a text that is a text of its own** and opens with a key is the whole text but for
white space, and so it is read as the same value. -/
theorem parse_of_suffix {before rest : List Char} {c : Char} {v w : Value} (hc : isPlain c = true)
    (hsep : c ≠ ',' ∧ c ≠ ':')
    (hwhole : parse num (String.ofList (before ++ '\x7b' :: '"' :: c :: rest)) = some v)
    (hsuffix : parse num (String.ofList ('\x7b' :: '"' :: c :: rest)) = some w) : v = w := by
  set suffix := '\x7b' :: '"' :: c :: rest with hdef
  obtain ⟨used, hused, hscan⟩ := takes_parse hwhole 0
  obtain rfl : before ++ suffix = used := by rw [hused, List.append_nil]
  obtain ⟨q, hq, hafter⟩ := hscan _ rfl
  rw [scan_append] at hq
  obtain ⟨p, hp, hrest⟩ := Option.bind_eq_some_iff.mp hq
  -- the suffix starts at a place for values, at some depth, and comes back to that depth
  have hfree : p = ⟨p.depth, .free⟩ := by
    have hmode := free_of_scan hc hsep hrest
    rw [← hmode]
  obtain ⟨used, hused, hscan⟩ := takes_parse hsuffix p.depth
  obtain rfl : suffix = used := by rw [hused, List.append_nil]
  obtain ⟨q', hq', hafter'⟩ := hscan p hfree
  obtain rfl : q = q' := Option.some.inj (hrest.symm.trans hq')
  have hdepth : p.depth = 0 := (depth_of_after hafter').symm.trans (depth_of_after hafter)
  have hspaces : before.all isSpace = true := by
    rw [hfree, hdepth] at hp
    exact (spaces_of_scan hp).2
  have hsame := parse_append hspaces hsuffix
  rw [hwhole] at hsame
  exact Option.some.inj hsame

end JsonRead
