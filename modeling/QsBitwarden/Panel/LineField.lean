import QsBitwarden.Lib.Trace

/-!
# Panel — the line field

The value of a field is kept apart from the text that is shown, and what is typed is mirrored into
it.

* **`changedSpan`** — the two scans of `mirrorEditorToStore`; `Span.Changed` says that they leave
  the longest common start and a common end behind it.
* **`mirrored`** — what lies between is replaced and nothing else; the value is then the editor's
  text, unless that is over the store's maximum.
-/

namespace QsBitwarden.Panel.LineField

/-! ## The store: a `TextInput` -/

def maximumLength : Nat := 10000000

section

variable {α : Type*}

def remove (text : List α) (start stop : Nat) : List α := text.take start ++ text.drop stop

/-- What is over the maximum is cut off; a position outside the text is ignored. -/
def insert (text : List α) (position : Nat) (new : List α) : List α :=
  if text.length < position then text
  else text.take position ++ new.take (maximumLength - text.length) ++ text.drop position

def substring (text : List α) (start stop : Nat) : List α := (text.take stop).drop start

variable {text new : List α} {start stop : Nat}

theorem remove_self : remove text start start = text := List.take_append_drop start text

theorem remove_if (hstop : start ≤ stop) :
    (if start < stop then remove text start stop else text) = remove text start stop := by
  split_ifs with hlt
  · rfl
  · rw [show stop = start by omega, remove_self]

theorem insert_remove (hstop : start ≤ stop) (hlen : stop ≤ text.length) :
    insert (remove text start stop) start new = text.take start ++
      new.take (maximumLength - (remove text start stop).length) ++ text.drop stop := by
  have hstart : (text.take start).length = start := by
    rw [List.length_take]
    omega
  have hin : ¬ (remove text start stop).length < start := by
    rw [remove, List.length_append]
    omega
  rw [insert, if_neg hin, remove, List.take_left' hstart, List.drop_left' hstart]

theorem substring_self (text : List α) (start : Nat) : substring text start start = [] := by
  simp [substring]

theorem substring_split (hle : start ≤ stop) :
    text.take start ++ substring text start stop ++ text.drop stop = text := by
  have htake : text.take start = (text.take stop).take start := by
    rw [List.take_take, Nat.min_eq_left hle]
  rw [substring, htake, List.take_append_drop, List.take_append_drop]

/-! ## Mirroring the editor -/

variable [DecidableEq α]

def scanStart (want stored : List α) (start : Nat) : Nat :=
  if start < want.length ∧ start < stored.length ∧ want[start]? = stored[start]? then
    scanStart want stored (start + 1)
  else start
termination_by want.length - start

def scanEnd (want stored : List α) (start endWant endHave : Nat) : Nat × Nat :=
  if start < endWant ∧ start < endHave ∧ want[endWant - 1]? = stored[endHave - 1]? then
    scanEnd want stored start (endWant - 1) (endHave - 1)
  else (endWant, endHave)
termination_by endWant

/-- The span that differs: its start in both texts, and its end in each. -/
structure Span where
  start : Nat
  endWant : Nat
  endHave : Nat

def changedSpan (want stored : List α) : Span :=
  let start := scanStart want stored 0
  let ends := scanEnd want stored start want.length stored.length
  ⟨start, ends.1, ends.2⟩

def mirrorEditorToStore (want stored : List α) : List α :=
  if want = stored then stored
  else
    let span := changedSpan want stored
    let kept := if span.start < span.endHave then remove stored span.start span.endHave else stored
    if span.start < span.endWant then
      insert kept span.start (substring want span.start span.endWant)
    else kept

/-- The two texts have the same units before the span, as many as they can, and behind it. -/
structure Span.Changed (want stored : List α) (span : Span) : Prop where
  start_le_endWant : span.start ≤ span.endWant
  start_le_endHave : span.start ≤ span.endHave
  endWant_le : span.endWant ≤ want.length
  endHave_le : span.endHave ≤ stored.length
  before : want.take span.start = stored.take span.start
  longest : ∀ n ≤ want.length, n ≤ stored.length → want.take n = stored.take n → n ≤ span.start
  behind : want.drop span.endWant = stored.drop span.endHave

variable {want stored : List α}

theorem scanStart_spec (hwant : start ≤ want.length) (hstored : start ≤ stored.length)
    (hsame : want.take start = stored.take start) :
    Span.Changed want stored ⟨scanStart want stored start, want.length, stored.length⟩ := by
  fun_induction scanStart want stored start with
  | case1 start hstep ih =>
    obtain ⟨hw, hs, hunit⟩ := hstep
    exact ih hw hs (by rw [List.take_add_one, List.take_add_one, hsame, hunit])
  | case2 start hstop =>
    refine ⟨hwant, hstored, Nat.le_refl _, Nat.le_refl _, hsame, fun n hnw hns hn => ?_, by simp⟩
    by_contra hlt
    have hlt : start < n := by simpa using hlt
    -- A longer common start has the same unit here.
    have hunit := congrArg (·[start]?) hn
    exact hstop ⟨by omega, by omega, by simpa [List.getElem?_take, hlt] using hunit⟩

theorem scanEnd_spec {endWant endHave : Nat}
    (h : Span.Changed want stored ⟨start, endWant, endHave⟩) :
    Span.Changed want stored ⟨start, (scanEnd want stored start endWant endHave).1,
      (scanEnd want stored start endWant endHave).2⟩ := by
  fun_induction scanEnd want stored start endWant endHave with
  | case1 endWant endHave hstep ih =>
    obtain ⟨hw, hs, hunit⟩ := hstep
    obtain ⟨-, -, hle, hle', hbefore, hlongest, hbehind⟩ := h
    have hcut (text : List α) (n : Nat) (hn : 0 < n) :
        text.drop (n - 1) = text[n - 1]?.toList ++ text.drop n := by
      rw [List.drop_eq_getElem?_toList_append, Nat.sub_add_cancel hn]
    dsimp only at hle hle' hbehind
    refine ih ⟨?_, ?_, ?_, ?_, hbefore, hlongest, ?_⟩ <;> dsimp only
    · omega
    · omega
    · omega
    · omega
    · rw [hcut want endWant (by omega), hcut stored endHave (by omega), hunit, hbehind]
  | case2 => exact h

variable (want stored)

theorem changedSpan_spec : (changedSpan want stored).Changed want stored :=
  scanEnd_spec (scanStart_spec (Nat.zero_le _) (Nat.zero_le _) rfl)

theorem mirrorEditorToStore_eq :
    let span := changedSpan want stored
    mirrorEditorToStore want stored = stored.take span.start ++
      (substring want span.start span.endWant).take
        (maximumLength - (remove stored span.start span.endHave).length) ++
          stored.drop span.endHave := by
  intro span
  obtain ⟨hwant, hhave, hwantle, hhavele, -, hlongest, -⟩ := changedSpan_spec want stored
  change span.start ≤ span.endWant at hwant
  unfold mirrorEditorToStore
  split_ifs with heq
  · -- The first scan went over the whole of two equal texts.
    subst heq
    have hstart := hlongest want.length (Nat.le_refl _) (Nat.le_refl _) rfl
    have hendWant : span.endWant = span.start := Nat.le_antisymm (Nat.le_trans hwantle hstart) hwant
    have hendHave : span.endHave = span.start := Nat.le_antisymm (Nat.le_trans hhavele hstart) hhave
    simp [hendWant, hendHave, substring_self]
  · dsimp only
    rw [remove_if hhave]
    split_ifs with hlt
    · exact insert_remove hhave hhavele
    · have hendWant : span.endWant = span.start := Nat.le_antisymm (Nat.not_lt.mp hlt) hwant
      rw [hendWant, substring_self]
      simp [remove, span]

/-- **Mirroring.** One removal and one insertion inside the stored text, between the longest common
start and a common end; an editor's text within the maximum is then the value. -/
theorem mirrored :
    ∃ span kept, span = changedSpan want stored ∧ kept = remove stored span.start span.endHave ∧
      span.Changed want stored ∧ span.start ≤ kept.length ∧
      mirrorEditorToStore want stored = stored.take span.start ++
        (substring want span.start span.endWant).take (maximumLength - kept.length) ++
          stored.drop span.endHave ∧
      (want.length ≤ maximumLength → mirrorEditorToStore want stored = want) := by
  have hspan : (changedSpan want stored).Changed want stored := changedSpan_spec want stored
  have heq := mirrorEditorToStore_eq want stored
  generalize changedSpan want stored = span at hspan heq ⊢
  have hstart : (stored.take span.start).length = span.start :=
    List.length_take_of_le (Nat.le_trans hspan.start_le_endHave hspan.endHave_le)
  have hkept : (remove stored span.start span.endHave).length =
      span.start + (stored.drop span.endHave).length := by
    rw [remove, List.length_append, hstart]
  refine ⟨span, _, rfl, rfl, hspan, by omega, heq, fun hfits => ?_⟩
  have hwhole : stored.take span.start ++ substring want span.start span.endWant ++
      stored.drop span.endHave = want := by
    rw [← hspan.behind, ← hspan.before]
    exact substring_split hspan.start_le_endWant
  -- What is inserted and what was kept are the editor's text, so there is room.
  have hroom : (substring want span.start span.endWant).length ≤
      maximumLength - (remove stored span.start span.endHave).length := by
    have hlen := congrArg List.length hwhole
    rw [List.length_append, List.length_append, hstart] at hlen
    omega
  rw [heq, List.take_of_length_le hroom]
  exact hwhole

theorem mirrorEditorToStore_nil_length : (mirrorEditorToStore want []).length ≤ maximumLength := by
  rw [mirrorEditorToStore_eq want []]
  simp only [remove, List.take_nil, List.drop_nil, List.nil_append, List.append_nil,
    List.length_take, List.length_nil]
  omega

/-- A text over the maximum is not mirrored whole. -/
theorem mirrored_over_maximum : ∃ want : List Char, mirrorEditorToStore want [] ≠ want := by
  refine ⟨List.replicate (maximumLength + 1) 'a', fun heq => ?_⟩
  have hlen := mirrorEditorToStore_nil_length (List.replicate (maximumLength + 1) 'a')
  rw [heq, List.length_replicate] at hlen
  exact Nat.not_succ_le_self _ hlen

end

end QsBitwarden.Panel.LineField
