import Mathlib.Data.List.Nodup
import QsBitwarden.Lib.Table

/-!
# Rows — lists whose elements have a key

A list used as a small table: rows are found, replaced and removed by their key, and keep their
order.

* **`Rows.lookup`** — the first row with a key.
* **`Rows.upsert`** — replaces the row with the same key where it stands, or appends.
* **`Rows.drop`** — removes the first row with a key.
* **`Positions`** — a table beside the rows that knows where each key stands, and what keeps it
  right when a row is appended or removed.
-/

namespace Rows

variable {α κ : Type*} [DecidableEq κ] (key : α → κ)

def lookup (rows : List α) (k : κ) : Option α := rows.find? fun row => key row = k

def upsert (rows : List α) (row : α) : List α :=
  match rows with
  | [] => [row]
  | first :: rest => if key first = key row then row :: rest else first :: upsert rest row

def drop (rows : List α) (k : κ) : List α := rows.eraseP fun row => key row = k

variable {key} {rows : List α} {row : α} {k : κ}

theorem lookup_cons (first : α) (rest : List α) (k : κ) :
    lookup key (first :: rest) k = if key first = k then some first else lookup key rest k := by
  unfold lookup
  rw [List.find?_cons]
  by_cases h : key first = k <;> simp [h]

theorem lookup_eq_none : lookup key rows k = none ↔ k ∉ rows.map key := by
  unfold lookup
  rw [List.find?_eq_none]
  simp

theorem findIdx?_eq_none : (rows.findIdx? fun row => key row = k) = none ↔ k ∉ rows.map key := by
  rw [List.findIdx?_eq_none_iff]
  simp

theorem exists_findIdx? (h : k ∈ rows.map key) :
    ∃ index, (rows.findIdx? fun row => key row = k) = some index :=
  Option.ne_none_iff_exists'.mp fun hnone => findIdx?_eq_none.mp hnone h

theorem mem_of_findIdx? {index : Nat}
    (h : (rows.findIdx? fun row => key row = k) = some index) : k ∈ rows.map key := by
  by_contra hmem
  rw [findIdx?_eq_none.mpr hmem] at h
  cases h

/-! ## Replacing or appending -/

theorem upsert_eq_set (rows : List α) (row : α) : upsert key rows row =
    match rows.findIdx? fun other => key other = key row with
    | some index => rows.set index row
    | none => rows ++ [row] := by
  induction rows with
  | nil => rfl
  | cons first rest ih =>
    unfold upsert
    rw [List.findIdx?_cons]
    by_cases h : key first = key row
    · simp [h]
    · simp only [h, if_false, decide_false]
      rw [ih]
      cases rest.findIdx? fun other => decide (key other = key row) with
      | none => rfl
      | some index => rfl

theorem lookup_upsert (rows : List α) (row : α) (k : κ) :
    lookup key (upsert key rows row) k = if k = key row then some row else lookup key rows k := by
  induction rows with
  | nil =>
    unfold upsert
    rw [lookup_cons]
    simp only [eq_comm]
  | cons first rest ih =>
    unfold upsert
    split
    · next h =>
      rw [lookup_cons, lookup_cons, h]
      by_cases hk : k = key row
      · simp [hk]
      · simp [hk, Ne.symm hk]
    · next h =>
      rw [lookup_cons, ih, lookup_cons]
      by_cases hk : key first = k
      · have hne : k ≠ key row := fun heq => h (hk.trans heq)
        simp [hk, hne]
      · simp [hk]

theorem mem_upsert {other : α} (h : other ∈ upsert key rows row) : other = row ∨ other ∈ rows := by
  induction rows with
  | nil => exact .inl (List.mem_singleton.mp h)
  | cons first rest ih =>
    unfold upsert at h
    split at h
    · rcases List.mem_cons.mp h with rfl | hrest
      · exact .inl rfl
      · exact .inr (List.mem_cons_of_mem _ hrest)
    · rcases List.mem_cons.mp h with rfl | hrest
      · exact .inr List.mem_cons_self
      · rcases ih hrest with rfl | hold
        · exact .inl rfl
        · exact .inr (List.mem_cons_of_mem _ hold)

theorem map_upsert (rows : List α) (row : α) : (upsert key rows row).map key =
    if key row ∈ rows.map key then rows.map key else rows.map key ++ [key row] := by
  induction rows with
  | nil => rfl
  | cons first rest ih =>
    unfold upsert
    split
    · next h => simp [h]
    · next h =>
      rw [List.map_cons, ih, List.map_cons]
      by_cases hmem : key row ∈ rest.map key
      · rw [if_pos hmem, if_pos (List.mem_cons_of_mem _ hmem)]
      · rw [if_neg hmem, if_neg (List.not_mem_cons_of_ne_of_not_mem (Ne.symm h) hmem)]
        rfl

theorem nodup_upsert (h : (rows.map key).Nodup) (row : α) : ((upsert key rows row).map key).Nodup := by
  rw [map_upsert]
  split
  · exact h
  · next hmem => exact List.nodup_append.mpr ⟨h, List.nodup_singleton _, by
      intro a ha b hb heq
      rw [List.mem_singleton] at hb
      exact hmem (hb ▸ heq ▸ ha)⟩

theorem length_upsert (rows : List α) (row : α) : (upsert key rows row).length =
    if key row ∈ rows.map key then rows.length else rows.length + 1 := by
  have h : ((upsert key rows row).map key).length = _ := congrArg List.length (map_upsert rows row)
  rw [List.length_map] at h
  rw [h]
  split <;> simp

/-! ## Removing -/

theorem drop_eq_eraseIdx (rows : List α) (k : κ) : drop key rows k =
    match rows.findIdx? fun row => key row = k with
    | some index => rows.eraseIdx index
    | none => rows := by
  unfold drop
  rw [List.eraseP_eq_eraseIdx]
  cases rows.findIdx? fun row => decide (key row = k) <;> rfl

theorem drop_sublist (rows : List α) (k : κ) : (drop key rows k).Sublist rows :=
  List.eraseP_sublist

theorem lookup_drop (h : (rows.map key).Nodup) (k k' : κ) :
    lookup key (drop key rows k) k' = if k' = k then none else lookup key rows k' := by
  induction rows with
  | nil =>
    show none = if k' = k then none else none
    split <;> rfl
  | cons first rest ih =>
    obtain ⟨hfirst, hrest⟩ := List.nodup_cons.mp h
    unfold drop
    rw [List.eraseP_cons]
    by_cases hk : key first = k
    · have hnone : lookup key rest k = none := lookup_eq_none.mpr (hk ▸ hfirst)
      simp only [hk, decide_true, cond_true]
      rw [lookup_cons, hk]
      by_cases hk' : k' = k
      · rw [if_pos hk', hk', hnone]
      · rw [if_neg hk', if_neg (Ne.symm hk')]
    · simp only [hk, decide_false, cond_false]
      rw [lookup_cons, lookup_cons, ← drop, ih hrest]
      by_cases hk' : key first = k'
      · have hne : k' ≠ k := fun heq => hk (hk'.trans heq)
        rw [if_pos hk', if_neg hne]
        simp [hk']
      · rw [if_neg hk', if_neg hk']

/-! ## A table of positions -/

section Positions

variable {κ : Type} [DecidableEq κ] {index : Table κ Nat} {keys : List κ} {k : κ} {i : Nat}

/-- The table has exactly the keys, each at its place. -/
def Positions (index : Table κ Nat) (keys : List κ) : Prop :=
  ∀ k i, index.lookup k = some i ↔ keys[i]? = some k

theorem positions_empty : Positions (∅ : Table κ Nat) [] := by
  intro k i
  rw [AList.lookup_empty]
  simp

variable (h : Positions index keys)
include h

theorem Positions.nodup : keys.Nodup := by
  rw [List.nodup_iff_getElem?_ne_getElem?]
  intro i j hij hj heq
  obtain ⟨k, hk⟩ : ∃ k, keys[j]? = some k := ⟨_, List.getElem?_eq_getElem hj⟩
  have hi := (h k i).mpr (heq.trans hk)
  have hj := (h k j).mpr hk
  rw [hi] at hj
  exact absurd (Option.some.inj hj) (Nat.ne_of_lt hij)

theorem Positions.lookup_isSome : index.lookup k = none ↔ k ∉ keys := by
  rw [Option.eq_none_iff_forall_ne_some]
  constructor
  · intro hnone hmem
    obtain ⟨i, hi⟩ := List.mem_iff_getElem?.mp hmem
    exact hnone i ((h k i).mpr hi)
  · intro hmem i hi
    exact hmem (List.mem_iff_getElem?.mpr ⟨i, (h k i).mp hi⟩)

theorem Positions.append (hnew : k ∉ keys) :
    Positions (index.insert k keys.length) (keys ++ [k]) := by
  intro k' i
  rw [Table.lookup_insert_eq_some, h k' i]
  rcases Nat.lt_trichotomy i keys.length with hlt | rfl | hgt
  · rw [List.getElem?_append_left hlt]
    constructor
    · rintro (⟨-, rfl⟩ | ⟨-, hold⟩)
      · exact absurd hlt (Nat.lt_irrefl _)
      · exact hold
    · exact fun hold => .inr ⟨fun heq => hnew (heq ▸ List.mem_iff_getElem?.mpr ⟨i, hold⟩), hold⟩
  · simp [eq_comm]
  · rw [List.getElem?_append_right (Nat.le_of_lt hgt), List.getElem?_eq_none (Nat.le_of_lt hgt)]
    have hpast : [k][i - keys.length]? = none := List.getElem?_eq_none (by simp; omega)
    rw [hpast]
    constructor
    · rintro (⟨-, rfl⟩ | ⟨-, hold⟩)
      · exact absurd hgt (Nat.lt_irrefl _)
      · exact hold
    · exact fun hold => absurd hold (by simp)

omit h

omit [DecidableEq κ] in
/-- The entries behind a removed one, each at its new place. -/
theorem mem_zipIdx_drop {keys : List κ} {i j : Nat} {k : κ} :
    (k, j) ∈ keys.zipIdx.drop i ↔ i ≤ j ∧ keys[j]? = some k := by
  rw [List.mem_iff_getElem?]
  constructor
  · rintro ⟨n, hn⟩
    rw [List.getElem?_drop, List.getElem?_zipIdx] at hn
    obtain ⟨key, hkey, heq⟩ := Option.map_eq_some_iff.mp hn
    obtain ⟨rfl, rfl⟩ := Prod.mk.inj heq
    rw [Nat.zero_add]
    exact ⟨Nat.le_add_right i n, hkey⟩
  · rintro ⟨hle, hkey⟩
    refine ⟨j - i, ?_⟩
    rw [List.getElem?_drop, List.getElem?_zipIdx, Nat.add_sub_cancel' hle, hkey]
    simp

theorem Positions.eraseIdx (h : Positions index keys) (hk : keys[i]? = some k) :
    Positions (((keys.eraseIdx i).zipIdx.drop i).foldl (fun index entry => index.insert entry.1 entry.2)
      (index.erase k)) (keys.eraseIdx i) := by
  have hnodup : (keys.eraseIdx i).Nodup := h.nodup.sublist (List.eraseIdx_sublist keys i)
  have hmoved : (((keys.eraseIdx i).zipIdx.drop i).map Prod.fst).Nodup := by
    rw [List.map_drop, List.zipIdx_map_fst]
    exact hnodup.sublist (List.drop_sublist i _)
  intro k' j
  rw [Table.lookup_foldl_insert hmoved, mem_zipIdx_drop, Table.lookup_erase_eq_some, h k' j,
    List.getElem?_eraseIdx]
  by_cases hji : j < i
  · rw [if_pos hji]
    constructor
    · rintro (⟨hle, -⟩ | ⟨-, -, hold⟩)
      · omega
      · exact hold
    · intro hold
      refine .inr ⟨fun hmem => ?_, fun heq => ?_, hold⟩
      -- A key that stands before the gap does not stand behind it.
      · obtain ⟨entry, hentry, rfl⟩ := List.mem_map.mp hmem
        obtain ⟨hle, hafter⟩ := mem_zipIdx_drop.mp hentry
        rw [List.getElem?_eraseIdx, if_neg (by omega)] at hafter
        have hsame := ((h entry.1 j).mpr hold).symm.trans ((h entry.1 (entry.2 + 1)).mpr hafter)
        have := Option.some.inj hsame
        omega
      · have hsame := ((h k i).mpr hk).symm.trans ((h k j).mpr (heq ▸ hold))
        have := Option.some.inj hsame
        omega
  · rw [if_neg hji]
    constructor
    · rintro (⟨-, hnew⟩ | ⟨hnew, hne, hold⟩)
      · exact hnew
      -- What stood behind the gap has moved.
      · exfalso
        have hlt : i < j := by
          rcases Nat.lt_or_eq_of_le (Nat.not_lt.mp hji) with hlt | rfl
          · exact hlt
          · rw [hk] at hold
            exact absurd (Option.some.inj hold).symm hne
        refine hnew (List.mem_map.mpr ⟨(k', j - 1), mem_zipIdx_drop.mpr ⟨by omega, ?_⟩, rfl⟩)
        rw [List.getElem?_eraseIdx, if_neg (by omega), Nat.sub_add_cancel (by omega)]
        exact hold
    · exact fun hnew => .inl ⟨by omega, hnew⟩

end Positions

end Rows
