import Mathlib.Algebra.Order.BigOperators.Group.List
import Mathlib.Data.Nat.Digits.Defs
import Mathlib.Data.String.Basic

/-!
# JsonText — compact JSON, and how many bytes it takes

A writer without white space: strings are escaped where JSON requires it and are otherwise raw
UTF-8. Sizes are bounded from the outside in: an object or array by its parts, a string by its
characters.

* **`quote`**, **`number`**, **`object`**, **`array`** — the writer, on lists of characters.
* **`utf8Len_object_le`**, **`utf8Len_quote_le`**, **`utf8Len_quote_plain`** — the bounds.
* **`Printable`** — nothing written is a control character.
-/

namespace JsonText

open String (utf8Len)

def hexDigit (n : Nat) : Char := "0123456789abcdef".toList.getD n '0'

def escape (c : Char) : List Char :=
  if c = '"' then ['\\', '"']
  else if c = '\\' then ['\\', '\\']
  else if c.toNat < 0x20 then
    match c.toNat with
    | 8 => ['\\', 'b']
    | 9 => ['\\', 't']
    | 10 => ['\\', 'n']
    | 12 => ['\\', 'f']
    | 13 => ['\\', 'r']
    | n => ['\\', 'u', '0', '0', hexDigit (n / 16), hexDigit (n % 16)]
  else [c]

def quote (s : String) : List Char := '"' :: s.toList.flatMap escape ++ ['"']

def number (n : Nat) : List Char := n.repr.toList

/-- A whole number with its sign. -/
def integer : Int → List Char
  | .ofNat n => number n
  | .negSucc n => '-' :: number (n + 1)

def boolean (b : Bool) : List Char := (if b then "true" else "false").toList

def commas : List (List Char) → List Char
  | [] => []
  | [item] => item
  | item :: rest => item ++ ',' :: commas rest

def array (items : List (List Char)) : List Char := '[' :: commas items ++ [']']

def member (key : String) (value : List Char) : List Char := quote key ++ ':' :: value

def object (members : List (String × List Char)) : List Char :=
  '\x7b' :: commas (members.map fun m => member m.1 m.2) ++ ['\x7d']

/-! ## Sizes -/

theorem utf8Len_commas_le (items : List (List Char)) :
    utf8Len (commas items) ≤ (items.map fun item => utf8Len item + 1).sum := by
  induction items using commas.induct with
  | case1 => exact Nat.le_refl 0
  | case2 item => simp [commas]
  | case3 item rest hrest ih =>
    rw [commas]
    · rw [String.utf8Len_append, String.utf8Len_cons, List.map_cons, List.sum_cons]
      have hcomma : (',' : Char).utf8Size = 1 := by decide
      omega
    · exact hrest

theorem le_utf8Len_commas (items : List (List Char)) :
    (items.map utf8Len).sum ≤ utf8Len (commas items) := by
  induction items using commas.induct with
  | case1 => exact Nat.le_refl 0
  | case2 item => simp [commas]
  | case3 item rest hrest ih =>
    rw [commas]
    · rw [String.utf8Len_append, String.utf8Len_cons, List.map_cons, List.sum_cons]
      omega
    · exact hrest

theorem utf8Len_array (items : List (List Char)) :
    utf8Len (array items) = utf8Len (commas items) + 2 := by
  unfold array
  rw [List.cons_append, String.utf8Len_cons, String.utf8Len_append]
  have hopen : ('[' : Char).utf8Size = 1 := by decide
  have hclose : utf8Len [']'] = 1 := by decide
  omega

theorem utf8Len_object (members : List (String × List Char)) :
    utf8Len (object members) = utf8Len (commas (members.map fun m => member m.1 m.2)) + 2 := by
  unfold object
  rw [List.cons_append, String.utf8Len_cons, String.utf8Len_append]
  have hopen : ('\x7b' : Char).utf8Size = 1 := by decide
  have hclose : utf8Len ['\x7d'] = 1 := by decide
  omega

theorem utf8Len_member (key : String) (value : List Char) :
    utf8Len (member key value) = utf8Len (quote key) + 1 + utf8Len value := by
  unfold member
  rw [String.utf8Len_append, String.utf8Len_cons]
  have hcolon : (':' : Char).utf8Size = 1 := by decide
  omega

/-- An object takes two bytes for each member next to its key and value, and two more. -/
theorem utf8Len_object_le (members : List (String × List Char)) :
    utf8Len (object members) ≤
      (members.map fun m => utf8Len (quote m.1) + utf8Len m.2 + 2).sum + 2 := by
  rw [utf8Len_object]
  have hcommas := utf8Len_commas_le (members.map fun m => member m.1 m.2)
  rw [List.map_map] at hcommas
  have hsame : (members.map ((fun item => utf8Len item + 1) ∘ fun m => member m.1 m.2)) =
      members.map fun m => utf8Len (quote m.1) + utf8Len m.2 + 2 := by
    refine List.map_congr_left fun m _ => ?_
    show utf8Len (member m.1 m.2) + 1 = _
    rw [utf8Len_member]
    omega
  rw [hsame] at hcommas
  omega

theorem le_utf8Len_object {members : List (String × List Char)} (key : String) {value : List Char}
    (h : (key, value) ∈ members) : utf8Len value ≤ utf8Len (object members) := by
  rw [utf8Len_object]
  have hcommas := le_utf8Len_commas (members.map fun m => member m.1 m.2)
  have hmem : utf8Len (member key value) ∈ (members.map fun m => member m.1 m.2).map utf8Len :=
    List.mem_map.mpr ⟨_, List.mem_map.mpr ⟨(key, value), h, rfl⟩, rfl⟩
  have hmember := List.single_le_sum (fun _ _ => Nat.zero_le _) _ hmem
  rw [utf8Len_member] at hmember
  omega

theorem utf8Len_array_le {items : List (List Char)} {bound : Nat}
    (h : ∀ item ∈ items, utf8Len item ≤ bound) :
    utf8Len (array items) ≤ items.length * (bound + 1) + 2 := by
  rw [utf8Len_array]
  have hcommas := utf8Len_commas_le items
  have hsum : (items.map fun item => utf8Len item + 1).sum ≤
      (items.map fun item => utf8Len item + 1).length * (bound + 1) := by
    refine List.sum_le_card_nsmul _ _ fun x hx => ?_
    obtain ⟨item, hitem, rfl⟩ := List.mem_map.mp hx
    exact Nat.succ_le_succ (h item hitem)
  rw [List.length_map] at hsum
  omega

/-! ## Strings -/

theorem utf8Len_quote (s : String) : utf8Len (quote s) = utf8Len (s.toList.flatMap escape) + 2 := by
  unfold quote
  rw [List.cons_append, String.utf8Len_cons, String.utf8Len_append]
  have hopen : ('"' : Char).utf8Size = 1 := by decide
  have hclose : utf8Len ['"'] = 1 := by decide
  omega

/-- What each character takes at most bounds what all of them take. -/
theorem utf8Len_escape_le {chars : List Char} {bound : Nat}
    (h : ∀ c ∈ chars, utf8Len (escape c) ≤ bound) :
    utf8Len (chars.flatMap escape) ≤ bound * chars.length := by
  induction chars with
  | nil => exact Nat.zero_le _
  | cons c rest ih =>
    have hc := h c List.mem_cons_self
    have hrest := ih fun d hd => h d (List.mem_cons_of_mem _ hd)
    rw [List.flatMap_cons, String.utf8Len_append, List.length_cons, Nat.mul_succ]
    omega

theorem utf8Len_escape_replicate (c : Char) (n : Nat) :
    utf8Len ((List.replicate n c).flatMap escape) = n * utf8Len (escape c) := by
  induction n with
  | zero => rw [Nat.zero_mul]; rfl
  | succ n ih =>
    rw [List.replicate_succ, List.flatMap_cons, String.utf8Len_append, ih, Nat.succ_mul]
    omega

theorem utf8Len_quote_replicate (c : Char) (n : Nat) :
    utf8Len (quote (String.ofList (List.replicate n c))) = n * utf8Len (escape c) + 2 := by
  rw [utf8Len_quote, String.toList_ofList, utf8Len_escape_replicate]

theorem escape_printable {c : Char} (h : 0x20 ≤ c.toNat) : utf8Len (escape c) ≤ 4 := by
  unfold escape
  split
  · decide
  · split
    · decide
    · rw [if_neg (Nat.not_lt.mpr h)]
      have hsize := Char.utf8Size_le_four c
      rw [String.utf8Len_cons, String.utf8Len_nil]
      omega

/-- A text without control characters takes at most four bytes a character. -/
theorem utf8Len_quote_le {s : String} (h : ∀ c ∈ s.toList, 0x20 ≤ c.toNat) :
    utf8Len (quote s) ≤ 4 * s.toList.length + 2 := by
  rw [utf8Len_quote]
  have hescape : utf8Len (s.toList.flatMap escape) ≤ 4 * s.toList.length :=
    utf8Len_escape_le fun c hc => escape_printable (h c hc)
  omega

/-- One byte in JSON as it stands. -/
def Plain (c : Char) : Prop := utf8Len (escape c) ≤ 1

instance (c : Char) : Decidable (Plain c) := inferInstanceAs (Decidable (_ ≤ _))

theorem utf8Len_quote_plain {s : String} (h : ∀ c ∈ s.toList, Plain c) :
    utf8Len (quote s) ≤ s.toList.length + 2 := by
  rw [utf8Len_quote]
  have hescape : utf8Len (s.toList.flatMap escape) ≤ 1 * s.toList.length :=
    utf8Len_escape_le h
  omega

theorem plain_of_range {c : Char} (hlow : 0x20 ≤ c.toNat) (hhigh : c.toNat < 0x80) (hquote : c ≠ '"')
    (hslash : c ≠ '\\') : Plain c := by
  unfold Plain escape
  rw [if_neg hquote, if_neg hslash, if_neg (Nat.not_lt.mpr hlow), String.utf8Len_cons,
    String.utf8Len_nil]
  have hsize : c.utf8Size = 1 := by
    rw [Char.utf8Size_eq_one_iff, UInt32.le_iff_toNat_le]
    show c.toNat ≤ 127
    omega
  omega

theorem utf8Len_number_le {n digits : Nat} (hdigits : 0 < digits) (h : n < 10 ^ digits) :
    utf8Len (number n) ≤ 4 * digits := by
  have hlength : n.repr.toList.length ≤ digits := by
    rw [String.length_toList]
    exact Nat.repr_length n digits hdigits h
  have hsize : ∀ chars : List Char, utf8Len chars ≤ 4 * chars.length := by
    intro chars
    induction chars with
    | nil => exact Nat.zero_le _
    | cons c rest ih =>
      have hc := Char.utf8Size_le_four c
      rw [String.utf8Len_cons, List.length_cons]
      omega
  unfold number
  have := hsize n.repr.toList
  omega

/-! ## Printable texts

No character below the space is left in what the writer makes. -/

def Printable (chars : List Char) : Prop := ∀ c ∈ chars, 0x20 ≤ c.toNat

namespace Printable

variable {chars chars' : List Char}

theorem of_all (h : chars.all (fun c => decide (0x20 ≤ c.toNat)) = true) : Printable chars :=
  fun c hc => of_decide_eq_true (List.all_eq_true.mp h c hc)

theorem append (h : Printable chars) (h' : Printable chars') : Printable (chars ++ chars') :=
  List.forall_mem_append.mpr ⟨h, h'⟩

theorem cons {c : Char} (hc : 0x20 ≤ c.toNat) (h : Printable chars) : Printable (c :: chars) :=
  List.forall_mem_cons.mpr ⟨hc, h⟩

end Printable

theorem forall_hexDigit {P : Char → Prop} (h : ∀ n < 16, P (hexDigit n)) (n : Nat) :
    P (hexDigit n) := by
  by_cases hn : n < 16
  · exact h n hn
  · have hzero : hexDigit n = hexDigit 0 := by
      unfold hexDigit
      rw [List.getD_eq_getElem?_getD, List.getElem?_eq_none (Nat.le_of_not_lt hn)]
      rfl
    rw [hzero]
    exact h 0 (by decide)

theorem hexDigit_printable (n : Nat) : 0x20 ≤ (hexDigit n).toNat :=
  forall_hexDigit (P := fun c => 0x20 ≤ c.toNat) (by decide) n

theorem printable_escape (c : Char) : Printable (escape c) := by
  unfold escape
  split
  · exact .cons (by decide) (.cons (by decide) (List.forall_mem_nil _))
  split
  · exact .cons (by decide) (.cons (by decide) (List.forall_mem_nil _))
  split
  · -- the short forms, and the long one
    split
    all_goals refine .cons (by decide) (.cons (by decide) ?_)
    all_goals try exact List.forall_mem_nil _
    exact .cons (by decide) (.cons (by decide)
      (.cons (hexDigit_printable _) (.cons (hexDigit_printable _) (List.forall_mem_nil _))))
  · next hcontrol => exact .cons (Nat.le_of_not_lt hcontrol) (List.forall_mem_nil _)

theorem printable_quote (s : String) : Printable (quote s) := by
  have hbody : Printable (s.toList.flatMap escape) := by
    intro c hc
    obtain ⟨d, -, hd⟩ := List.mem_flatMap.mp hc
    exact printable_escape d c hd
  exact .append (.cons (by decide) hbody) (.cons (by decide) (List.forall_mem_nil _))

theorem printable_number (n : Nat) : Printable (number n) := by
  intro c hc
  rw [number, Nat.toList_repr] at hc
  have hdigit : c.isDigit = true := Nat.isDigit_of_mem_toDigits (by decide) (by decide) hc
  have hrange : (decide ('0'.val ≤ c.val) && decide (c.val ≤ '9'.val)) = true := hdigit
  rw [Bool.and_eq_true, decide_eq_true_eq] at hrange
  have hlow : 48 ≤ c.toNat := hrange.1
  omega

theorem printable_integer (n : Int) : Printable (integer n) := by
  cases n with
  | ofNat n => exact printable_number n
  | negSucc n => exact .cons (by decide) (printable_number _)

theorem printable_boolean (b : Bool) : Printable (boolean b) := by
  cases b with
  | true | false => exact .of_all (by decide)

theorem printable_commas {items : List (List Char)} (h : ∀ item ∈ items, Printable item) :
    Printable (commas items) := by
  induction items using commas.induct with
  | case1 => exact List.forall_mem_nil _
  | case2 item => exact h item List.mem_cons_self
  | case3 item rest hrest ih =>
    rw [commas]
    · have hitem := h item List.mem_cons_self
      have hmore := ih fun item hitem => h item (List.mem_cons_of_mem _ hitem)
      exact hitem.append (.cons (by decide) hmore)
    · exact hrest

theorem printable_object {members : List (String × List Char)}
    (h : ∀ m ∈ members, Printable m.2) : Printable (object members) := by
  have hmembers : ∀ item ∈ members.map fun m => member m.1 m.2, Printable item := by
    intro item hitem
    obtain ⟨m, hm, rfl⟩ := List.mem_map.mp hitem
    exact (printable_quote m.1).append (.cons (by decide) (h m hm))
  exact .append (.cons (by decide) (printable_commas hmembers))
    (.cons (by decide) (List.forall_mem_nil _))

end JsonText
