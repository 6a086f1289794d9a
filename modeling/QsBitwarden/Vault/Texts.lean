import Mathlib.Data.List.Infix
import Mathlib.Data.List.TakeWhile
import QsBitwarden.Vault.Output

/-!
# Vault — texts and what searching and replacing does to them

The string functions of `Vault.Output`, related to the lists of characters they work on.

* **`trimBoth`** — trimming by any predicate; predicates that agree on the text trim it alike.
* **`contains_iff`** — a text contains a pattern when the pattern is an infix of it.
* **`replaceFrom`** — replacing works piece by piece between characters that are not in the pattern
  (`replace_sep`), so it commutes with trimming, splitting into lines and cutting at a character.
* **`afterFirst_replace`** — it also commutes with searching for a second pattern, where no
  occurrence of one overlaps an occurrence of the other.
-/

namespace QsBitwarden.Vault

/-! ## Trimming -/

def trimBoth (p : Char → Bool) (text : List Char) : List Char := trimEndMatches p (text.dropWhile p)

theorem trim_eq_trimBoth (text : List Char) : trim text = trimBoth isWhitespace text := rfl

section

variable {p q : Char → Bool} {text before after : List Char}

theorem dropWhile_congr (h : ∀ c ∈ text, p c = q c) : text.dropWhile p = text.dropWhile q := by
  induction text with
  | nil => rfl
  | cons c text ih =>
    obtain ⟨hc, htext⟩ := List.forall_mem_cons.mp h
    rw [List.dropWhile_cons, List.dropWhile_cons, hc, ih htext]

theorem trimBoth_congr (h : ∀ c ∈ text, p c = q c) : trimBoth p text = trimBoth q text := by
  unfold trimBoth trimEndMatches
  rw [dropWhile_congr h, dropWhile_congr]
  intro c hc
  exact h c ((List.dropWhile_suffix q).subset (List.mem_reverse.mp hc))

theorem trimEndMatches_append (hafter : ∀ c ∈ after, p c = true) :
    trimEndMatches p (text ++ after) = trimEndMatches p text := by
  unfold trimEndMatches
  rw [List.reverse_append, List.dropWhile_append_of_pos]
  intro c hc
  exact hafter c (List.mem_reverse.mp hc)

theorem trimEndMatches_eq_self {c : Char} (hlast : text.getLast? = some c) (hc : p c = false) :
    trimEndMatches p text = text := by
  obtain ⟨init, rfl⟩ := List.getLast?_eq_some_iff.mp hlast
  unfold trimEndMatches
  rw [List.reverse_append, List.reverse_singleton, List.singleton_append,
    List.dropWhile_cons_of_neg (by simp [hc]), List.reverse_cons, List.reverse_reverse]

theorem trimEndMatches_split (p : Char → Bool) (text : List Char) : ∃ after,
    text = trimEndMatches p text ++ after ∧ (∀ c ∈ after, p c = true) ∧
      ∀ c, (trimEndMatches p text).getLast? = some c → p c = false := by
  refine ⟨(text.reverse.takeWhile p).reverse, ?_, ?_, ?_⟩
  · unfold trimEndMatches
    rw [← List.reverse_append, List.takeWhile_append_dropWhile, List.reverse_reverse]
  · intro c hc
    exact List.mem_takeWhile_imp (List.mem_reverse.mp hc)
  · intro c hc
    have := List.head?_dropWhile_not p text.reverse
    unfold trimEndMatches at hc
    rw [List.getLast?_reverse] at hc
    simpa [hc] using this

theorem trimBoth_append (hbefore : ∀ c ∈ before, p c = true) (hafter : ∀ c ∈ after, p c = true) :
    trimBoth p (before ++ text ++ after) = trimBoth p text := by
  unfold trimBoth
  rw [List.append_assoc, List.dropWhile_append_of_pos hbefore, List.dropWhile_append]
  split
  · next hempty =>
    have hall : after.dropWhile p = [] := List.dropWhile_eq_nil_iff.mpr hafter
    rw [hall, List.isEmpty_iff.mp hempty]
  · exact trimEndMatches_append hafter

/-- A text is what trimming leaves, between what it takes. -/
theorem trimBoth_split (p : Char → Bool) (text : List Char) : ∃ before after,
    text = before ++ trimBoth p text ++ after ∧ (∀ c ∈ before, p c = true) ∧
      ∀ c ∈ after, p c = true := by
  refine ⟨text.takeWhile p, ((text.dropWhile p).reverse.takeWhile p).reverse, ?_, ?_, ?_⟩
  · unfold trimBoth trimEndMatches
    rw [List.append_assoc, ← List.reverse_append, List.takeWhile_append_dropWhile,
      List.reverse_reverse, List.takeWhile_append_dropWhile]
  · intro c hc
    exact List.mem_takeWhile_imp hc
  · intro c hc
    exact List.mem_takeWhile_imp (List.mem_reverse.mp hc)

end

/-! ## Searching -/

section

variable {pattern text : List Char}

theorem afterFirst_here {c : Char} (h : pattern <+: c :: text) :
    afterFirst pattern (c :: text) = some ((c :: text).drop pattern.length) := by
  unfold afterFirst
  rw [if_pos (List.isPrefixOf_iff_prefix.mpr h)]

theorem afterFirst_later {c : Char} (h : ¬ pattern <+: c :: text) :
    afterFirst pattern (c :: text) = afterFirst pattern text := by
  rw [afterFirst, if_neg fun hprefix => h (List.isPrefixOf_iff_prefix.mp hprefix)]

theorem afterFirst_append (hpattern : pattern ≠ []) (rest : List Char) :
    afterFirst pattern (pattern ++ rest) = some rest := by
  obtain ⟨c, pattern, rfl⟩ := List.exists_cons_of_ne_nil hpattern
  have hprefix : c :: pattern <+: c :: (pattern ++ rest) := List.prefix_append (c :: pattern) rest
  rw [List.cons_append, afterFirst_here hprefix]
  simp

theorem afterFirst_append_of_not {first : List Char}
    (h : ∀ n < first.length, ¬ pattern <+: (first ++ text).drop n) :
    afterFirst pattern (first ++ text) = afterFirst pattern text := by
  induction first with
  | nil => rfl
  | cons c first ih =>
    have hhere : ¬ pattern <+: c :: (first ++ text) := h 0 (Nat.succ_pos _)
    rw [List.cons_append, afterFirst_later hhere]
    exact ih fun n hn => h (n + 1) (Nat.succ_lt_succ hn)

theorem afterFirst_suffix {rest : List Char} (h : afterFirst pattern text = some rest) :
    rest <:+ text := by
  induction text with
  | nil =>
    unfold afterFirst at h
    split_ifs at h
    rw [← Option.some.inj h]
  | cons c text ih =>
    by_cases hhere : pattern <+: c :: text
    · rw [afterFirst_here hhere] at h
      rw [← Option.some.inj h]
      exact List.drop_suffix _ _
    · rw [afterFirst_later hhere] at h
      exact (ih h).trans (List.suffix_cons c text)

theorem contains_iff : contains text pattern = true ↔ pattern <:+: text := by
  unfold contains
  induction text with
  | nil =>
    unfold afterFirst
    cases pattern <;> simp
  | cons c text ih =>
    by_cases h : pattern <+: c :: text
    · rw [afterFirst_here h]
      simp [h.isInfix]
    · rw [afterFirst_later h, ih, List.infix_cons_iff]
      simp [h]

end

/-! ## Replacing -/

section

variable {key held text rest : List Char} {c : Char} {skip : Nat}

variable {p : Char → Bool} {held' : List Char}

theorem replace_here (h : key <+: c :: text) :
    replaceFrom key held 0 (c :: text) = held ++ replaceFrom key held (key.length - 1) text := by
  rw [replaceFrom, if_pos (List.isPrefixOf_iff_prefix.mpr h)]

theorem replace_later (h : ¬ key <+: c :: text) :
    replaceFrom key held 0 (c :: text) = c :: replaceFrom key held 0 text := by
  rw [replaceFrom, if_neg fun hprefix => h (List.isPrefixOf_iff_prefix.mp hprefix)]

/-- A prefix without this character ends before it. -/
theorem prefix_append_sep (text : List Char) (hc : c ∉ key) :
    key <+: text ++ c :: rest ↔ key <+: text := by
  induction text generalizing key with
  | nil =>
    cases key with
    | nil => simp
    | cons d key =>
      have hne : d ≠ c := fun heq => hc (heq ▸ List.mem_cons_self)
      simp [hne]
  | cons d text ih =>
    cases key with
    | nil => simp
    | cons e key =>
      rw [List.cons_append, List.cons_prefix_cons, List.cons_prefix_cons,
        ih fun hmem => hc (List.mem_cons_of_mem _ hmem)]

/-- An occurrence without this character lies on one side of it. -/
theorem infix_append_sep (text : List Char) (hc : c ∉ key) :
    key <:+: text ++ c :: rest ↔ key <:+: text ∨ key <:+: rest := by
  induction text with
  | nil =>
    have hhere : key <+: c :: rest ↔ key <+: [] := prefix_append_sep [] hc
    rw [List.nil_append, List.infix_cons_iff, hhere, List.prefix_nil, List.infix_nil]
  | cons d text ih =>
    have hhere : key <+: d :: (text ++ c :: rest) ↔ key <+: d :: text :=
      prefix_append_sep (d :: text) hc
    rw [List.cons_append, List.infix_cons_iff, List.infix_cons_iff, hhere, ih, or_assoc]

variable (hkey : key ≠ [])
include hkey

/-- In joined texts, what lacks the separator is found in one of them. -/
theorem infix_intercalate (hc : c ∉ key) (parts : List (List Char)) :
    key <:+: List.intercalate [c] parts ↔ ∃ part ∈ parts, key <:+: part := by
  induction parts with
  | nil => simp [hkey]
  | cons first parts ih =>
    cases parts with
    | nil => simp
    | cons second parts =>
      rw [List.intercalate_cons_cons, List.append_assoc, List.singleton_append,
        infix_append_sep first hc, List.exists_mem_cons_iff, ih]

theorem replaceFrom_sep (hc : c ∉ key) (hskip : skip ≤ text.length) :
    replaceFrom key held skip (text ++ c :: rest) =
      replaceFrom key held skip text ++ c :: replaceFrom key held 0 rest := by
  induction text generalizing skip with
  | nil =>
    obtain rfl : skip = 0 := Nat.le_zero.mp hskip
    refine replace_later fun h => ?_
    have hnil := (prefix_append_sep [] hc).mp h
    exact hkey (List.prefix_nil.mp hnil)
  | cons d text ih =>
    cases skip with
    | succ skip => exact ih (Nat.le_of_succ_le_succ hskip)
    | zero =>
      by_cases h : key <+: d :: text
      · have hlong : key <+: d :: (text ++ c :: rest) := h.trans (List.prefix_append (d :: text) _)
        have hle : key.length - 1 ≤ text.length := by
          have := h.length_le
          simp only [List.length_cons] at this
          omega
        rw [List.cons_append, replace_here hlong, replace_here h, ih hle,
          List.append_assoc]
      · have hlong : ¬ key <+: d :: (text ++ c :: rest) := fun hp =>
          h ((prefix_append_sep (d :: text) hc).mp hp)
        rw [List.cons_append, replace_later hlong, replace_later h, ih (Nat.zero_le _)]
        rfl

/-- **Replacing works piece by piece** between characters that are not in the pattern. -/
theorem replace_sep (hc : c ∉ key) : replaceFrom key held 0 (text ++ c :: rest) =
    replaceFrom key held 0 text ++ c :: replaceFrom key held 0 rest :=
  replaceFrom_sep hkey hc (Nat.zero_le _)

/-- What has no character of the pattern stays. -/
theorem replace_before {before : List Char} (h : ∀ c ∈ before, c ∉ key) :
    replaceFrom key held 0 (before ++ text) = before ++ replaceFrom key held 0 text := by
  induction before with
  | nil => rfl
  | cons c before ih =>
    obtain ⟨hc, hbefore⟩ := List.forall_mem_cons.mp h
    rw [List.cons_append, ← List.nil_append (c :: (before ++ text)), replace_sep hkey hc, ih hbefore]
    rfl

theorem replace_after {after : List Char} (h : ∀ c ∈ after, c ∉ key) :
    replaceFrom key held 0 (text ++ after) = replaceFrom key held 0 text ++ after := by
  cases after with
  | nil => rw [List.append_nil, List.append_nil]
  | cons c after =>
    obtain ⟨hc, hafter⟩ := List.forall_mem_cons.mp h
    have hsame : replaceFrom key held 0 (after ++ []) = after ++ replaceFrom key held 0 [] :=
      replace_before hkey hafter
    rw [List.append_nil] at hsame
    rw [replace_sep hkey hc, hsame]
    simp [replaceFrom]

omit hkey

theorem replaceFrom_skipped (hskip : text.length ≤ skip) : replaceFrom key held skip text = [] := by
  induction text generalizing skip with
  | nil => unfold replaceFrom; rfl
  | cons c text ih =>
    cases skip with
    | zero => simp at hskip
    | succ skip => exact ih (Nat.le_of_succ_le_succ hskip)

/-- The pattern itself becomes what it is replaced by. -/
theorem replace_self (hkey : key ≠ []) : replaceFrom key held 0 key = held := by
  cases key with
  | nil => exact absurd rfl hkey
  | cons c key =>
    rw [replace_here (List.prefix_refl _), replaceFrom_skipped (by simp), List.append_nil]

theorem replace_eq_nil (hheld : held ≠ []) : replaceFrom key held 0 text = [] ↔ text = [] := by
  cases text with
  | nil => unfold replaceFrom; simp
  | cons c text =>
    by_cases h : key <+: c :: text
    · rw [replace_here h]
      simp [hheld]
    · rw [replace_later h]
      simp

/-- Where the pattern and its replacement are of one kind of character, a text is of that kind
before and after. -/
theorem all_replaceFrom (hne : key ≠ []) (hkey : key.all p) (hheld : held.all p) :
    (replaceFrom key held skip text).all p = (text.drop skip).all p := by
  induction text generalizing skip with
  | nil => unfold replaceFrom; simp
  | cons c text ih =>
    cases skip with
    | succ skip => exact ih
    | zero =>
      by_cases h : key <+: c :: text
      · rw [replace_here h, List.all_append, hheld, Bool.true_and, ih, List.drop_zero]
        obtain ⟨rest, hrest⟩ := h
        have hdrop : text.drop (key.length - 1) = rest := by
          cases key with
          | nil => exact absurd rfl hne
          | cons d key =>
            obtain ⟨_, rfl⟩ := List.cons.inj hrest
            simp
        rw [hdrop, ← hrest, List.all_append, hkey, Bool.true_and]
      · rw [replace_later h, List.all_cons, ih, List.drop_zero, List.drop_zero, List.all_cons]

/-- Nothing is replaced, or both texts are as long as what was. -/
theorem replace_length (text : List Char) : replaceFrom key held 0 text = text ∨
    key.length ≤ text.length ∧ held.length ≤ (replaceFrom key held 0 text).length := by
  induction text with
  | nil => exact .inl (by unfold replaceFrom; rfl)
  | cons c text ih =>
    by_cases h : key <+: c :: text
    · refine .inr ⟨h.length_le, ?_⟩
      rw [replace_here h, List.length_append]
      omega
    · rw [replace_later h]
      rcases ih with hsame | ⟨hkey, hheld⟩
      · exact .inl (by rw [hsame])
      · exact .inr ⟨Nat.le_succ_of_le hkey, Nat.le_succ_of_le hheld⟩

/-- Cutting at the first character of another kind. -/
theorem takeWhile_replace (hne : key ≠ []) (hkey : key.all p) (hheld : held.all p) :
    (replaceFrom key held 0 text).takeWhile p = replaceFrom key held 0 (text.takeWhile p) := by
  have hall : ∀ c ∈ replaceFrom key held 0 (text.takeWhile p), p c = true := by
    rw [← List.all_eq_true, all_replaceFrom hne hkey hheld, List.drop_zero, List.all_eq_true]
    exact fun c hc => List.mem_takeWhile_imp hc
  cases hdrop : text.dropWhile p with
  | nil =>
    have hself : text.takeWhile p = text := by
      rw [← List.append_nil (text.takeWhile p), ← hdrop, List.takeWhile_append_dropWhile]
    rw [hself] at hall ⊢
    exact List.takeWhile_eq_self_iff.mpr hall
  | cons c rest =>
    have hc : p c = false := by
      have := List.head?_dropWhile_not p text
      simpa [hdrop] using this
    have hmem : c ∉ key := fun hmem => by simp [List.all_eq_true.mp hkey c hmem] at hc
    have htext : text = text.takeWhile p ++ c :: rest := by
      rw [← hdrop, List.takeWhile_append_dropWhile]
    rw [htext, replace_sep hne hmem, ← htext, List.takeWhile_append_of_pos hall,
      List.takeWhile_cons_of_neg (by simp [hc]), List.append_nil]

/-- Dropping characters that are not in the pattern. -/
theorem dropWhile_replace {c : Char} (hne : key ≠ []) (hkey : ∀ c ∈ key, p c = false)
    (hheld : held = c :: held') (hc : p c = false) :
    (replaceFrom key held 0 text).dropWhile p = replaceFrom key held 0 (text.dropWhile p) := by
  induction text with
  | nil => unfold replaceFrom; rfl
  | cons d text ih =>
    by_cases h : key <+: d :: text
    · have hd : d ∈ key := by
        obtain ⟨e, key, rfl⟩ := List.exists_cons_of_ne_nil hne
        rw [(List.cons_prefix_cons.mp h).1]
        exact List.mem_cons_self
      rw [List.dropWhile_cons_of_neg (by simp [hkey d hd]), replace_here h, hheld,
        List.cons_append, List.dropWhile_cons_of_neg (by simp [hc])]
    · rw [replace_later h, List.dropWhile_cons, List.dropWhile_cons]
      split
      · exact ih
      · rw [replace_later h]

theorem getLast?_replaceFrom {d : Char} (hne : held ≠ [])
    (h : (replaceFrom key held skip text).getLast? = some d) :
    text.getLast? = some d ∨ held.getLast? = some d := by
  induction text generalizing skip with
  | nil =>
    unfold replaceFrom at h
    cases h
  | cons e text ih =>
    have hcons (htext : text.getLast? = some d) : (e :: text).getLast? = some d := by
      simp [List.getLast?_cons, htext]
    cases skip with
    | succ skip => exact (ih h).imp_left hcons
    | zero =>
      by_cases hprefix : key <+: e :: text
      · rw [replace_here hprefix, List.getLast?_append] at h
        rcases Option.or_eq_some_iff.mp h with hrest | ⟨_, hheld⟩
        · exact (ih hrest).imp_left hcons
        · exact .inr hheld
      · rw [replace_later hprefix, List.getLast?_cons] at h
        cases hlast : (replaceFrom key held 0 text).getLast? with
        | some f =>
          rw [hlast] at h
          exact (ih (hlast.trans h)).imp_left hcons
        | none =>
          -- Only an empty text leaves nothing behind, so the one character was the last.
          obtain rfl : text = [] := (replace_eq_nil hne).mp (List.getLast?_eq_none_iff.mp hlast)
          rw [hlast] at h
          exact .inl h

theorem trim_replace (hne : key ≠ []) (hheld : held ≠ []) (hkey : ∀ c ∈ key, p c = false)
    (hheldp : ∀ c ∈ held, p c = false) :
    trimBoth p (replaceFrom key held 0 text) = replaceFrom key held 0 (trimBoth p text) := by
  obtain ⟨c, held', hcons⟩ := List.exists_cons_of_ne_nil hheld
  have hc : p c = false := hheldp c (hcons ▸ List.mem_cons_self)
  unfold trimBoth
  rw [dropWhile_replace hne hkey hcons hc]
  obtain ⟨after, hsplit, hafter, hlast⟩ := trimEndMatches_split p (text.dropWhile p)
  have hnot : ∀ d ∈ after, d ∉ key := by
    intro d hd hmem
    have hfalse := hkey d hmem
    rw [hafter d hd] at hfalse
    cases hfalse
  rw [hsplit, replace_after hne hnot, trimEndMatches_append hafter, ← hsplit]
  cases hreplaced : (replaceFrom key held 0 (trimEndMatches p (text.dropWhile p))).getLast? with
  | none =>
    rw [List.getLast?_eq_none_iff.mp hreplaced]
    rfl
  | some d =>
    refine trimEndMatches_eq_self hreplaced ?_
    rcases getLast?_replaceFrom hheld hreplaced with hold | hnew
    · exact hlast d hold
    · exact hheldp d (List.mem_of_getLast? hnew)

theorem mem_replaceFrom {d : Char} (h : d ∈ replaceFrom key held skip text) : d ∈ text ∨ d ∈ held := by
  induction text generalizing skip with
  | nil =>
    unfold replaceFrom at h
    cases h
  | cons e text ih =>
    cases skip with
    | succ skip => exact (ih h).imp_left (List.mem_cons_of_mem _)
    | zero =>
      by_cases hprefix : key <+: e :: text
      · rw [replace_here hprefix] at h
        rcases List.mem_append.mp h with hheld | hrest
        · exact .inr hheld
        · exact (ih hrest).imp_left (List.mem_cons_of_mem _)
      · rw [replace_later hprefix] at h
        rcases List.mem_cons.mp h with rfl | hrest
        · exact .inl List.mem_cons_self
        · exact (ih hrest).imp_left (List.mem_cons_of_mem _)

theorem splitOn_replace (hne : key ≠ []) (hc : c ∉ key) (hheld : c ∉ held) (text : List Char) :
    (replaceFrom key held 0 text).splitOn c = (text.splitOn c).map (replaceFrom key held 0) := by
  -- The induction is on the pieces that are left.
  induction hn : text.length using Nat.strong_induction_on generalizing text with
  | _ n ih =>
    have hsingle {text : List Char} (hmem : c ∉ text) : c ∉ replaceFrom key held 0 text :=
      fun hmem' => (mem_replaceFrom hmem').elim hmem hheld
    by_cases hmem : c ∈ text
    · obtain ⟨first, rest, rfl, hfirst⟩ := List.eq_append_cons_of_mem hmem
      have hlt : rest.length < n := by
        rw [← hn, List.length_append, List.length_cons]
        omega
      unfold List.splitOn
      rw [replace_sep hne hc, List.splitOnP_append_cons _ _ (by simp),
        List.splitOnP_append_cons _ _ (by simp), List.map_append]
      have hrest := ih rest.length hlt rest rfl
      unfold List.splitOn at hrest
      have hone := List.splitOn_eq_singleton hfirst
      have hone' := List.splitOn_eq_singleton (hsingle hfirst)
      unfold List.splitOn at hone hone'
      rw [hrest, hone, hone']
      rfl
    · rw [List.splitOn_eq_singleton hmem, List.splitOn_eq_singleton (hsingle hmem)]
      rfl

/-! ## Replacing and searching -/

/-- No occurrence of the one overlaps an occurrence of the other. -/
def Clear (key pattern text : List Char) : Prop :=
  ∀ rest ∈ text.tails, (key <+: rest → ∀ n < key.length, ¬ pattern <+: rest.drop n) ∧
    (pattern <+: rest → ∀ n < pattern.length, ¬ key <+: rest.drop n)

instance (key pattern text : List Char) : Decidable (Clear key pattern text) := by
  unfold Clear
  infer_instance

variable {pattern : List Char}

theorem Clear.tail (h : Clear key pattern (c :: text)) : Clear key pattern text := fun rest hrest =>
  h rest ((List.mem_tails _ _).mpr (((List.mem_tails _ _).mp hrest).trans (List.suffix_cons c text)))

theorem Clear.here (h : Clear key pattern text) :
    (key <+: text → ∀ n < key.length, ¬ pattern <+: text.drop n) ∧
      (pattern <+: text → ∀ n < pattern.length, ¬ key <+: text.drop n) :=
  h text ((List.mem_tails _ _).mpr (List.suffix_refl _))

/-- Where the pattern does not start, nothing is replaced. -/
theorem replace_append_of_not {first : List Char}
    (h : ∀ n < first.length, ¬ key <+: (first ++ text).drop n) :
    replaceFrom key held 0 (first ++ text) = first ++ replaceFrom key held 0 text := by
  induction first with
  | nil => rfl
  | cons d first ih =>
    have hhere : ¬ key <+: d :: (first ++ text) := h 0 (Nat.succ_pos _)
    rw [List.cons_append, replace_later hhere, ih fun n hn => h (n + 1) (Nat.succ_lt_succ hn)]
    rfl

/-- Nothing that lacks the first character of the replacement can start in it. -/
theorem prefix_of_prefix_replace {first : Char} (hheld : held = first :: held')
    (hfirst : first ∉ pattern) (h : pattern <+: replaceFrom key held 0 text) :
    pattern <+: text := by
  induction text generalizing pattern with
  | nil =>
    unfold replaceFrom at h
    exact h
  | cons d text ih =>
    cases pattern with
    | nil => exact List.nil_prefix
    | cons e pattern =>
      by_cases hprefix : key <+: d :: text
      · rw [replace_here hprefix, hheld, List.cons_append] at h
        exact absurd (List.cons_prefix_cons.mp h).1.symm fun heq => hfirst (heq ▸ List.mem_cons_self)
      · rw [replace_later hprefix] at h
        obtain ⟨rfl, hrest⟩ := List.cons_prefix_cons.mp h
        refine List.cons_prefix_cons.mpr ⟨rfl, ih ?_ hrest⟩
        exact fun hmem => hfirst (List.mem_cons_of_mem _ hmem)

/-- **Replacing commutes with searching.** -/
theorem afterFirst_replaceFrom {first : Char} (hne : key ≠ []) (hpattern : pattern ≠ [])
    (hheld : held = first :: held') (hfirst : first ∉ pattern)
    (hpass : ∀ rest, afterFirst pattern (held ++ rest) = afterFirst pattern rest)
    (hclear : Clear key pattern text) (hskip : ∀ n < skip, ¬ pattern <+: text.drop n) :
    afterFirst pattern (replaceFrom key held skip text) =
      (afterFirst pattern text).map (replaceFrom key held 0) := by
  induction text generalizing skip with
  | nil =>
    unfold replaceFrom afterFirst
    rw [if_neg (by simpa using hpattern)]
    rfl
  | cons d text ih =>
    cases skip with
    | succ skip =>
      rw [afterFirst_later (hskip 0 (Nat.succ_pos _))]
      exact ih hclear.tail fun n hn => hskip (n + 1) (Nat.succ_lt_succ hn)
    | zero =>
      by_cases hkey : key <+: d :: text
      · have hnot := hclear.here.1 hkey
        have hpos : 0 < key.length := List.length_pos_iff.mpr hne
        rw [replace_here hkey, hpass, afterFirst_later (hnot 0 hpos)]
        exact ih hclear.tail fun n hn => hnot (n + 1) (by omega)
      · by_cases hhere : pattern <+: d :: text
        · obtain ⟨rest, hrest⟩ := hhere
          have hnot := hclear.here.2 ⟨rest, hrest⟩
          rw [← hrest] at hnot ⊢
          rw [replace_append_of_not hnot, afterFirst_append hpattern, afterFirst_append hpattern]
          rfl
        · have hstill : ¬ pattern <+: replaceFrom key held 0 (d :: text) := fun h =>
            hhere (prefix_of_prefix_replace hheld hfirst h)
          rw [replace_later hkey] at hstill ⊢
          rw [afterFirst_later hstill, afterFirst_later hhere]
          exact ih hclear.tail nofun

end

end QsBitwarden.Vault
