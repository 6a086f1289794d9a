import Mathlib.Data.List.Induction
import QsBitwarden.Lib.Rows
import QsBitwarden.Vault.Store

/-!
# Vault — the index knows where each item is

Positions are stored beside the items and shifted by removals, while vault reads that replace or
merge, and two arrays of a read, feed the same table. What the store is for is a list of rows with
distinct ids, kept in the order in which the ids first came (`rows`); the faithful store refines it.

* **`Entry`**, **`log`** — what a history of calls held, cleared and dropped.
* **`Indexed`** — the index has exactly the ids of the items, each at its place. `hold` is then
  `Rows.upsert`, and `forgetItem` is `Rows.drop`.
* **`lastHeld`**, **`order`** — the answers of `item` and `search`, read off the history.
* **`store_indexed`** — all of it, for every history.
-/

namespace QsBitwarden.Vault

open Json Rows

/-! ## Calls and what they hold -/

inductive Call where
  | stripVault (raw : String) (replace : Bool)
  | forget (keep : List String)
  | forgetItem (id : String)
  deriving DecidableEq

def Call.apply (libs : Libs) (store : Store) : Call → Store
  | .stripVault raw replace => (store.stripVault libs raw replace).2
  | .forget keep => store.forget keep
  | .forgetItem id => store.forgetItem id

/-- The store after a history of calls, the newest first. -/
def after (libs : Libs) : List Call → Store
  | [] => .new
  | call :: h => call.apply libs (after libs h)

inductive Entry where
  | held (held : Held)
  | cleared
  | dropped (id : String)
  deriving DecidableEq

/-- The records of the objects of an array. -/
def holdable (libs : Libs) (items : List Value) : List Held :=
  items.filterMap fun
    | .object item => heldOf libs item
    | _ => none

/-- What a call does to the items, the oldest first. -/
def Call.entries (libs : Libs) : Call → List Entry
  | .stripVault raw replace =>
    match libs.parse raw with
    | some (.object object) =>
      (if replace then [.cleared] else []) ++
        (holdable libs (arrayAt object "items")).map .held ++
        (holdable libs (arrayAt object "sshKeys")).map .held
    | _ => []
  | .forget _ => [.cleared]
  | .forgetItem id => [.dropped id]

/-- What a history did to the items, the newest first. -/
def log (libs : Libs) (h : List Call) : List Entry :=
  h.flatMap fun call => (call.entries libs).reverse

/-! ## The rows a history leaves -/

def Entry.apply (rows : List Held) : Entry → List Held
  | .held row => upsert Held.id rows row
  | .cleared => []
  | .dropped id => Rows.drop Held.id rows id

def rows : List Entry → List Held
  | [] => []
  | entry :: older => entry.apply (rows older)

/-- The last record with this id that was held and neither cleared nor dropped since. -/
def lastHeld (id : String) : List Entry → Option Held
  | [] => none
  | .held held :: older => if held.id = id then some held else lastHeld id older
  | .cleared :: _ => none
  | .dropped other :: older => if other = id then none else lastHeld id older

/-- The ids held, in the order in which they came. -/
def order : List Entry → List String
  | [] => []
  | .held held :: older => if held.id ∈ order older then order older else order older ++ [held.id]
  | .cleared :: _ => []
  | .dropped id :: older => (order older).erase id

theorem map_drop_id (rows : List Held) (id : String) :
    (Rows.drop Held.id rows id).map Held.id = (rows.map Held.id).erase id := by
  induction rows with
  | nil => rfl
  | cons first rest ih =>
    unfold Rows.drop
    rw [List.eraseP_cons, List.map_cons, List.erase_cons]
    by_cases hid : first.id = id
    · simp [hid]
    · simp only [hid, decide_false, cond_false, beq_iff_eq, if_false]
      rw [List.map_cons]
      exact congrArg _ ih

theorem map_rows (entries : List Entry) : (rows entries).map Held.id = order entries := by
  induction entries with
  | nil => rfl
  | cons entry older ih =>
    unfold rows order
    cases entry with
    | held held =>
      show (upsert Held.id (rows older) held).map Held.id = _
      rw [map_upsert, ih]
    | cleared => rfl
    | dropped id =>
      show (Rows.drop Held.id (rows older) id).map Held.id = _
      rw [map_drop_id, ih]

theorem order_nodup (entries : List Entry) : (order entries).Nodup := by
  induction entries with
  | nil => exact List.nodup_nil
  | cons entry older ih =>
    unfold order
    cases entry with
    | held held =>
      dsimp only
      split
      · exact ih
      · next hnew => exact List.nodup_append.mpr ⟨ih, List.nodup_singleton _, by
          intro a ha b hb heq
          rw [List.mem_singleton] at hb
          exact hnew (hb ▸ heq ▸ ha)⟩
    | cleared => exact List.nodup_nil
    | dropped id => exact ih.erase id

theorem lookup_rows (entries : List Entry) (id : String) :
    lookup Held.id (rows entries) id = lastHeld id entries := by
  induction entries with
  | nil => rfl
  | cons entry older ih =>
    unfold rows lastHeld
    cases entry with
    | held held =>
      show lookup Held.id (upsert Held.id (rows older) held) id = _
      rw [lookup_upsert, ih]
      simp only [eq_comm]
    | cleared => rfl
    | dropped other =>
      have hnodup : ((rows older).map Held.id).Nodup := by
        rw [map_rows]
        exact order_nodup older
      show lookup Held.id (Rows.drop Held.id (rows older) other) id = _
      rw [lookup_drop hnodup, ih]
      simp only [eq_comm]

/-! ## The store keeps its index -/

def Indexed (store : Store) : Prop := Positions store.index (store.items.map Held.id)

section Refinement

variable {libs : Libs} {store : Store}

variable {entries : List Entry} {raw : String}

/-- The index answers as a search through the items would. -/
theorem Indexed.lookup_eq (h : Indexed store) (id : String) :
    store.index.lookup id = store.items.findIdx? fun held => held.id = id := by
  cases hfound : store.items.findIdx? fun held => decide (held.id = id) with
  | none => exact h.lookup_isSome.mpr (findIdx?_eq_none.mp hfound)
  | some at' =>
    obtain ⟨hlt, hid, -⟩ := List.findIdx?_eq_some_iff_getElem.mp hfound
    refine (h id at').mpr ?_
    rw [List.getElem?_map, List.getElem?_eq_getElem hlt]
    exact congrArg some (of_decide_eq_true hid)

theorem Indexed.item_eq (h : Indexed store) (id : String) :
    store.item id = (lookup Held.id store.items id).map Held.full := by
  unfold Store.item lookup
  rw [h.lookup_eq]
  cases hfound : store.items.findIdx? fun held => decide (held.id = id) with
  | none =>
    rw [List.find?_eq_none.mpr fun held hheld => by
      simpa using List.findIdx?_eq_none_iff.mp hfound held hheld]
    rfl
  | some at' =>
    obtain ⟨hlt, hid, hbefore⟩ := List.findIdx?_eq_some_iff_getElem.mp hfound
    have hfind : (store.items.find? fun held => decide (held.id = id)) = some store.items[at'] :=
      List.find?_eq_some_iff_getElem.mpr
        ⟨hid, at', hlt, rfl, fun j hj => by simpa using hbefore j hj⟩
    rw [hfind]
    show (store.items[at']? >>= fun held => pure held.full) = _
    rw [List.getElem?_eq_getElem hlt]
    rfl

theorem hold_of_heldOf {item : Fields} {held : Held} (hheld : heldOf libs item = some held)
    (h : Indexed store) :
    (store.hold libs item).items = upsert Held.id store.items held ∧
      Indexed (store.hold libs item) := by
  unfold Store.hold
  rw [hheld]
  dsimp only
  rw [upsert_eq_set, ← h.lookup_eq]
  cases hlookup : store.index.lookup held.id with
  | some at' =>
    refine ⟨rfl, ?_⟩
    -- The same ids at the same places.
    have hid := (h held.id at').mp hlookup
    have hkeys : (store.items.set at' held).map Held.id = store.items.map Held.id := by
      obtain ⟨hlt, heq⟩ := List.getElem?_eq_some_iff.mp hid
      rw [List.map_set, ← heq]
      exact List.set_getElem_self hlt
    show Positions store.index ((store.items.set at' held).map Held.id)
    rw [hkeys]
    exact h
  | none =>
    refine ⟨rfl, ?_⟩
    show Positions (store.index.insert held.id store.items.length)
      ((store.items ++ [held]).map Held.id)
    have hnew : held.id ∉ store.items.map Held.id := h.lookup_isSome.mp hlookup
    have happend := h.append hnew
    rw [List.length_map] at happend
    rw [List.map_append]
    exact happend

theorem holdAll_refines (libs : Libs) (items : List Value) (h : Indexed store)
    (hrows : store.items = rows entries) :
    (store.holdAll libs items).items = rows (((holdable libs items).map .held).reverse ++ entries) ∧
      Indexed (store.holdAll libs items) := by
  induction items generalizing store entries with
  | nil => exact ⟨hrows, h⟩
  | cons value items ih =>
    rw [Store.holdAll_cons]
    -- A value that is no object, or an object without an id, is passed over.
    have hskip : (holdable libs (value :: items)) = holdable libs items →
        (store.holdAll libs items).items =
          rows (((holdable libs (value :: items)).map .held).reverse ++ entries) ∧
        Indexed (store.holdAll libs items) := by
      intro hsame
      rw [hsame]
      exact ih h hrows
    cases value with
    | object item =>
      cases hheld : heldOf libs item with
      | none =>
        have hhold : store.hold libs item = store := by
          unfold Store.hold
          rw [hheld]
        dsimp only
        rw [hhold]
        exact hskip (List.filterMap_cons_none hheld)
      | some held =>
        obtain ⟨hitems, hindexed⟩ := hold_of_heldOf hheld h
        have hmore : holdable libs (.object item :: items) = held :: holdable libs items :=
          List.filterMap_cons_some hheld
        rw [hmore, List.map_cons, List.reverse_cons, List.append_assoc]
        refine ih hindexed ?_
        rw [hitems, hrows]
        rfl
    | _ => exact hskip rfl

/-- Records with distinct ids are held as they come. -/
theorem rows_distinct {held : List Held} (h : (held.map Held.id).Nodup) :
    rows ((held.map Entry.held).reverse) = held := by
  induction held using List.reverseRecOn with
  | nil => rfl
  | append_singleton held last ih =>
    rw [List.map_append, List.nodup_append] at h
    obtain ⟨hold, -, hlast⟩ := h
    have hnew : last.id ∉ held.map Held.id := fun hmem =>
      hlast last.id hmem last.id (List.mem_singleton.mpr rfl) rfl
    rw [List.map_append, List.reverse_append]
    show upsert Held.id (rows ((held.map Entry.held).reverse)) last = held ++ [last]
    rw [ih hold, upsert_eq_set, findIdx?_eq_none.mpr hnew]

/-- A text that is not a JSON object is forwarded as it is. -/
theorem stripVault_not_object (hraw : ∀ object, libs.parse raw ≠ some (.object object))
    (replace : Bool) : store.stripVault libs raw replace = (none, store) := by
  unfold Store.stripVault
  split
  · next object hparse => exact absurd hparse (hraw object)
  · rfl

theorem entries_not_object (hraw : ∀ object, libs.parse raw ≠ some (.object object))
    (replace : Bool) : Call.entries libs (.stripVault raw replace) = [] := by
  unfold Call.entries
  dsimp only
  split
  · next object hparse => exact absurd hparse (hraw object)
  · rfl

theorem clearItems_refines (replace : Bool) (h : Indexed store)
    (hrows : store.items = rows entries) :
    (store.clearItems replace).items = rows ((if replace then [Entry.cleared] else []) ++ entries) ∧
      Indexed (store.clearItems replace) := by
  cases replace with
  | true => exact ⟨rfl, positions_empty⟩
  | false => exact ⟨hrows, h⟩

theorem stripVault_refines (raw : String) (replace : Bool) (h : Indexed store)
    (hrows : store.items = rows entries) :
    (store.stripVault libs raw replace).2.items =
        rows ((Call.entries libs (.stripVault raw replace)).reverse ++ entries) ∧
      Indexed (store.stripVault libs raw replace).2 := by
  by_cases hraw : ∃ object, libs.parse raw = some (.object object)
  · obtain ⟨object, hparse⟩ := hraw
    -- Cleared or not, then the items, then the keys.
    obtain ⟨hitems, hindexed⟩ := clearItems_refines replace h hrows
    obtain ⟨hitems, hindexed⟩ :=
      holdAll_refines libs (arrayAt object "items") hindexed hitems
    obtain ⟨hitems, hindexed⟩ :=
      holdAll_refines libs (arrayAt object "sshKeys") hindexed hitems
    unfold Store.stripVault Call.entries
    simp only [hparse]
    rw [arrayAt_stripItems, List.reverse_append, List.reverse_append, List.append_assoc,
      List.append_assoc]
    refine ⟨?_, hindexed⟩
    rw [hitems]
    cases replace <;> rfl
  · have hraw : ∀ object, libs.parse raw ≠ some (.object object) := not_exists.mp hraw
    rw [stripVault_not_object hraw, entries_not_object hraw]
    exact ⟨hrows, h⟩

/-- After a read that replaces, the store holds what was read, if ids are distinct. -/
theorem stripVault_replaces (store : Store) {object : Fields}
    (hparse : libs.parse raw = some (.object object))
    (hids : ((holdable libs (arrayAt object "items")
      ++ holdable libs (arrayAt object "sshKeys")).map Held.id).Nodup) :
    (store.stripVault libs raw true).2.items
      = holdable libs (arrayAt object "items") ++ holdable libs (arrayAt object "sshKeys") := by
  have hcleared : Indexed (store.clearItems true) := positions_empty
  obtain ⟨hitems, hindexed⟩ := holdAll_refines libs (arrayAt object "items") hcleared
    (show (store.clearItems true).items = rows [] from rfl)
  obtain ⟨hitems, -⟩ := holdAll_refines libs (arrayAt object "sshKeys") hindexed hitems
  unfold Store.stripVault
  simp only [hparse]
  rw [arrayAt_stripItems, hitems, List.append_nil, ← List.reverse_append, ← List.map_append,
    rows_distinct hids]

theorem forgetItem_refines (id : String) (h : Indexed store) :
    (store.forgetItem id).items = Rows.drop Held.id store.items id ∧ Indexed (store.forgetItem id) := by
  unfold Store.forgetItem
  rw [drop_eq_eraseIdx, ← h.lookup_eq]
  cases hlookup : store.index.lookup id with
  | none => exact ⟨rfl, h⟩
  | some at' =>
    refine ⟨rfl, ?_⟩
    have hpositions := h.eraseIdx ((h id at').mp hlookup)
    unfold Indexed
    dsimp only
    rw [List.eraseIdx_map, List.zipIdx_map, ← List.map_drop, List.foldl_map] at hpositions
    exact hpositions

theorem apply_refines (call : Call) (h : Indexed store) (hrows : store.items = rows entries) :
    (call.apply libs store).items = rows ((call.entries libs).reverse ++ entries) ∧
      Indexed (call.apply libs store) := by
  cases call with
  | stripVault raw replace => exact stripVault_refines raw replace h hrows
  | forget keep => exact ⟨rfl, positions_empty⟩
  | forgetItem id =>
    obtain ⟨hitems, hindexed⟩ := forgetItem_refines id h
    refine ⟨?_, hindexed⟩
    show (store.forgetItem id).items = Rows.drop Held.id (rows entries) id
    rw [hitems, hrows]

theorem after_refines (libs : Libs) (h : List Call) :
    (after libs h).items = rows (log libs h) ∧ Indexed (after libs h) := by
  induction h with
  | nil => exact ⟨rfl, positions_empty⟩
  | cons call h ih => exact apply_refines call ih.2 ih.1

theorem search_sublist (libs : Libs) (store : Store) (query : String) :
    (store.search libs query).Sublist (store.items.map Held.id) := by
  unfold Store.search
  dsimp only
  split
  · exact List.Sublist.refl _
  · exact List.filter_sublist.map _

end Refinement

/-! ## The index, over every history -/

/-- After any calls the index has exactly the ids held, each at its place, so no position is out of
range. `item` answers with the last record held under that id and not cleared or dropped since,
`search` with ids held, each once and in the order in which they came. A text that is not a JSON
object changes nothing. -/
theorem store_indexed (libs : Libs) (h : List Call) :
    (∀ id at', (after libs h).index.lookup id = some at' ↔
      ∃ held, (after libs h).items[at']? = some held ∧ held.id = id) ∧
    ((after libs h).items.map Held.id).Nodup ∧
    (∀ id, (after libs h).item id = (lastHeld id (log libs h)).map Held.full) ∧
    (after libs h).items.map Held.id = order (log libs h) ∧
    (∀ query, ((after libs h).search libs query).Nodup ∧
      ((after libs h).search libs query).Sublist (order (log libs h))) ∧
    (∀ raw replace, (∀ object, libs.parse raw ≠ some (.object object)) →
      (after libs h).stripVault libs raw replace = (none, after libs h)) := by
  obtain ⟨hitems, hindexed⟩ := after_refines libs h
  have horder : (after libs h).items.map Held.id = order (log libs h) := by
    rw [hitems, map_rows]
  refine ⟨fun id at' => ?_, hindexed.nodup, fun id => ?_, horder, fun query => ?_,
    fun raw replace hraw => stripVault_not_object hraw replace⟩
  · rw [hindexed id at', List.getElem?_map, Option.map_eq_some_iff]
  · rw [hindexed.item_eq, hitems, lookup_rows]
  · have hsublist := search_sublist libs (after libs h) query
    rw [horder] at hsublist
    exact ⟨(order_nodup _).sublist hsublist, hsublist⟩

/-- Libraries that read every character of a text as an item whose JSON is that text. -/
def charLibs : Libs where
  parse raw :=
    if raw = "" then none
    else some (.object [("items", .array (raw.toList.map fun c =>
      .object [("id", .string (String.singleton c)), ("name", .string raw)]))])
  render
    | .object item => some (text item ["name"])
    | _ => none
  lowercase := id

/-- A read, a save that updates its first item, and the removal of its second. -/
def sampleCalls : List Call :=
  [.forgetItem "b", .stripVault "ac" false, .stripVault "ab" true]

theorem store_indexed_sample :
    (after charLibs sampleCalls).item "a" = some "ac" ∧
    (after charLibs sampleCalls).item "b" = none ∧
    (after charLibs sampleCalls).items.map Held.id = ["a", "c"] ∧
    (after charLibs sampleCalls).stripVault charLibs "" true =
      (none, after charLibs sampleCalls) := by
  obtain ⟨-, -, hitem, horder, -, hkept⟩ := store_indexed charLibs sampleCalls
  refine ⟨?_, ?_, ?_, hkept "" true fun object hparse => ?_⟩
  · rw [hitem]
    decide +kernel
  · rw [hitem]
    decide +kernel
  · rw [horder]
    decide +kernel
  · exact absurd hparse (Option.some_ne_none _).symm

end QsBitwarden.Vault
