import Mathlib.Algebra.Order.Group.Multiset
import Mathlib.Data.List.AList

/-!
# Table — a finite map whose order means nothing

`AList` carries the proof that its keys are distinct, so it serves as the model of a hash map;
a program that iterates over one is modelled from any permutation of the entries. These are the
few facts about entries, rather than lookups, that counting arguments need.
-/

abbrev Table (κ ν : Type) := AList fun _ : κ => ν

namespace Table

variable {κ ν : Type} [DecidableEq κ] {t : Table κ ν} {k k' : κ} {v v' : ν}

theorem lookup_eq_some_iff : t.lookup k = some v ↔ (⟨k, v⟩ : Σ _ : κ, ν) ∈ t.entries :=
  AList.mem_lookup_iff

theorem mem_of_lookup (h : t.lookup k = some v) : k ∈ t :=
  AList.lookup_isSome.mp (by simp [h])

theorem exists_lookup (h : k ∈ t) : ∃ v, t.lookup k = some v :=
  Option.isSome_iff_exists.mp (AList.lookup_isSome.mpr h)

theorem eq_empty (h : ∀ k, k ∉ t) : t = ∅ := by
  refine AList.ext (List.eq_nil_iff_forall_not_mem.mpr fun entry hmem => ?_)
  exact h entry.1 (mem_of_lookup (lookup_eq_some_iff.mpr hmem))

theorem lookup_erase_eq_some :
    (t.erase k).lookup k' = some v ↔ k' ≠ k ∧ t.lookup k' = some v := by
  by_cases h : k' = k
  · subst h
    simp
  · rw [AList.lookup_erase_ne h]
    simp [h]

theorem lookup_insert_eq_some :
    (t.insert k v).lookup k' = some v' ↔ (k' = k ∧ v' = v) ∨ (k' ≠ k ∧ t.lookup k' = some v') := by
  by_cases h : k' = k
  · subst h
    simp [eq_comm]
  · rw [AList.lookup_insert_ne h]
    simp [h]

theorem lookup_empty_ne : (∅ : Table κ ν).lookup k ≠ some v := by
  rw [AList.lookup_empty]
  exact Option.some_ne_none v |>.symm

/-- The entries whose key passes. -/
def retain (p : κ → Bool) (t : Table κ ν) : Table κ ν :=
  ⟨t.entries.filter fun entry => p entry.1, List.NodupKeys.sublist List.filter_sublist t.nodupKeys⟩

theorem lookup_retain_eq_some {p : κ → Bool} :
    (t.retain p).lookup k = some v ↔ p k = true ∧ t.lookup k = some v := by
  rw [lookup_eq_some_iff, lookup_eq_some_iff]
  show _ ∈ t.entries.filter _ ↔ _
  rw [List.mem_filter]
  exact and_comm

/-- Entries with distinct keys, inserted one after another. -/
theorem lookup_foldl_insert {entries : List (κ × ν)} (h : (entries.map Prod.fst).Nodup) :
    (entries.foldl (fun t entry => t.insert entry.1 entry.2) t).lookup k = some v ↔
      (k, v) ∈ entries ∨ (k ∉ entries.map Prod.fst ∧ t.lookup k = some v) := by
  induction entries generalizing t with
  | nil => simp
  | cons entry rest ih =>
    obtain ⟨hfirst, hrest⟩ := List.nodup_cons.mp h
    rw [List.foldl_cons, ih hrest, lookup_insert_eq_some, List.mem_cons, List.map_cons,
      List.mem_cons, not_or]
    constructor
    · rintro (hmem | ⟨hnew, ⟨rfl, rfl⟩ | ⟨hne, hold⟩⟩)
      · exact .inl (.inr hmem)
      · exact .inl (.inl rfl)
      · exact .inr ⟨⟨hne, hnew⟩, hold⟩
    · rintro ((rfl | hmem) | ⟨⟨hne, hnew⟩, hold⟩)
      · exact .inr ⟨hfirst, .inl ⟨rfl, rfl⟩⟩
      · exact .inl hmem
      · exact .inr ⟨hnew, .inr ⟨hne, hold⟩⟩

theorem entries_insert : (t.insert k v).entries = ⟨k, v⟩ :: (t.erase k).entries := rfl

/-- An entry found by its key is one of the entries, next to what erasing leaves. -/
theorem entries_perm_of_lookup (h : t.lookup k = some v) :
    t.entries.Perm (⟨k, v⟩ :: (t.erase k).entries) := by
  have hkey : k ∈ t.entries.keys := mem_of_lookup h
  obtain ⟨w, front, back, -, hsplit, herase⟩ := List.exists_of_kerase hkey
  -- The entry `kerase` takes out is the one the lookup finds.
  have hw : t.lookup k = some w := lookup_eq_some_iff.mpr (by simp [hsplit])
  obtain rfl : v = w := Option.some.inj (h.symm.trans hw)
  show t.entries.Perm (⟨k, v⟩ :: t.entries.kerase k)
  rw [herase, hsplit]
  exact List.perm_middle

theorem length_erase (h : t.lookup k = some v) :
    (t.erase k).entries.length + 1 = t.entries.length :=
  (entries_perm_of_lookup h).length_eq.symm

theorem length_insert_of_notMem (h : k ∉ t) :
    (t.insert k v).entries.length = t.entries.length + 1 := by
  rw [AList.entries_insert_of_notMem h, List.length_cons]

/-- Overwriting a value changes no size. -/
theorem length_insert_of_lookup (h : t.lookup k = some v') :
    (t.insert k v).entries.length = t.entries.length := by
  rw [← length_erase h]
  rfl

theorem length_erase_le : (t.erase k).entries.length ≤ t.entries.length :=
  (List.kerase_sublist k t.entries).length_le

/-- Two tables with the same entries in another order look up alike. -/
theorem lookup_of_perm {t' : Table κ ν} (h : t.entries.Perm t'.entries) (k : κ) :
    t.lookup k = t'.lookup k :=
  AList.perm_lookup h

theorem mem_of_perm {t' : Table κ ν} (h : t.entries.Perm t'.entries) (k : κ) : k ∈ t ↔ k ∈ t' := by
  rw [← AList.lookup_isSome, ← AList.lookup_isSome, lookup_of_perm h]

/-! ## What a table holds, as a multiset -/

variable {α : Type}

/-- The images of all entries. -/
def image (f : ν → α) (t : Table κ ν) : Multiset α := Multiset.ofList (t.entries.map fun e => f e.2)

theorem image_of_lookup (f : ν → α) (h : t.lookup k = some v) :
    image f t = image f (t.erase k) + {f v} := by
  have hperm := (entries_perm_of_lookup h).map fun e => f e.2
  rw [List.map_cons] at hperm
  unfold image
  rw [Multiset.coe_eq_coe.mpr hperm, ← Multiset.cons_coe, ← Multiset.singleton_add, add_comm]

theorem image_insert (f : ν → α) (h : k ∉ t) : image f (t.insert k v) = image f t + {f v} := by
  unfold image
  rw [AList.entries_insert_of_notMem h, List.map_cons, ← Multiset.cons_coe,
    ← Multiset.singleton_add, add_comm]

/-- Overwriting an entry with one of the same image. -/
theorem image_insert_of_lookup (f : ν → α) (h : t.lookup k = some v') (hf : f v = f v') :
    image f (t.insert k v) = image f t := by
  rw [image_of_lookup f h, ← hf]
  unfold image
  rw [entries_insert, List.map_cons, ← Multiset.cons_coe, ← Multiset.singleton_add, add_comm]

omit [DecidableEq κ] in
theorem image_of_perm {t' : Table κ ν} (f : ν → α) (h : t.entries.Perm t'.entries) :
    image f t = image f t' :=
  Multiset.coe_eq_coe.mpr (h.map _)

end Table
