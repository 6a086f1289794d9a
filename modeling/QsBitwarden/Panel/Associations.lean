import Mathlib.Data.List.Sort
import QsBitwarden.Lib.Table
import QsBitwarden.Panel.Accounts
import QsBitwarden.Panel.Domains

/-!
# Panel — learned associations (`BitwardenModel.js`)

Picking an item for a window records the window's keys against it, and the next visit suggests it
first. A page chooses its own title, so the words of a title count only where the user pinned them.

* **`contextKeys`** — the keys of a window, the words of its title last.
* **`recordAssociation`**, **`forgetAssociation`** — the changes of a store.
* **`learnedMatchIds`**, **`isAssociated`** — what a store says about a window.
* **`Unpinned`** — no word is pinned. Unpinned changes keep it, and where it holds a word is passed
  over.
* **`title_cannot_match`** — windows that differ in their titles only get the same answers.

A store is a table, since nothing depends on the order of its keys: they are distinct, and sorted
before some are dropped.
-/

namespace QsBitwarden.Panel.Associations

open Accounts (Text ascii)

/-! ## Windows -/

structure Domain where
  host : Text
  baseDomain : Text
  rootName : Option Text
  isIp : Bool
  deriving DecidableEq

structure Context where
  clsSquashed : Text
  title : Text
  matchText : Text
  squashedTitle : Text
  squashedMatchText : Text
  segments : List Text
  titleTokens : List Text
  aliasTokens : List Text
  detectedDomain : Option Domain
  isBrowser : Bool
  isTerminal : Bool

def wordKey (token : Text) : Text × Nat := (ascii "word:" ++ token, 1)

/-- The keys of a window with their weights. -/
def contextKeys (ctx : Context) (withWords : Bool) : List (Text × Nat) :=
  let domain := ctx.detectedDomain.toList.filter fun d => d.baseDomain ≠ [] && !d.isIp
  let app := !ctx.isBrowser && !ctx.isTerminal && 3 ≤ ctx.clsSquashed.length
  domain.map (fun d => (ascii "domain:" ++ d.baseDomain, 3))
    ++ (if app then [(ascii "app:" ++ ctx.clsSquashed, 2)] else [])
    ++ if withWords then ctx.titleTokens.map wordKey else []

def isWordKey (key : Text) : Bool := (ascii "word:").isPrefixOf key

/-! ## Stores -/

structure Entry where
  itemId : Text
  weight : Nat
  count : Nat
  updated : Text
  pinned : Bool
  deriving DecidableEq

abbrev Store := Table Text Entry

/-- The engine: the JSON text of an entry, and the order in which the properties of an object are
enumerated. -/
structure Engine where
  stringify : Entry → Text
  enumerate : List (Text × Nat) → List (Text × Nat)
  enumerate_perm : ∀ best, (enumerate best).Perm best

/-- A property that every object has, whatever was written into it. -/
def isInherited (name : Text) : Bool := (Domains.inheritedNames.map ascii).contains name

def associationEntryCounts (key : Text) (entry : Entry) : Bool := !isWordKey key || entry.pinned

def maxAssocWriteBytes : Nat := 1024 * 1024 / 2

/-- The order of the keys for dropping: the newest first, and of two the later key. -/
def newer (store : Store) (a b : Text) : Bool :=
  let ua := (store.lookup a).elim [] Entry.updated
  let ub := (store.lookup b).elim [] Entry.updated
  if ua ≠ ub then !decide (ua < ub) else !decide (a < b)

/-- The keys at the front that fit into the budget. -/
def fitting (engine : Engine) (store : Store) (used : Nat) : List Text → List Text
  | [] => []
  | key :: rest =>
    let used := used + key.length + ((store.lookup key).elim [] engine.stringify).length + 4
    if maxAssocWriteBytes < used then [] else key :: fitting engine store used rest

def trimAssociations (engine : Engine) (store : Store) : Store :=
  let all := store.keys.insertionSort fun a b => newer store a b
  let kept := fitting engine store 0 all
  if kept.length = all.length then store else store.retain kept.contains

/-- One turn of the loop over the keys. -/
def recordKey (itemId timestamp : Text) (pinned : Bool) (store : Store) (key : Text × Nat) :
    Store :=
  let same := (store.lookup key.1).filter fun existing => existing.itemId = itemId
  store.insert key.1
    { itemId, weight := key.2, count := same.elim 0 Entry.count + 1, updated := timestamp
      pinned := pinned || same.any Entry.pinned }

def recordAssociation (engine : Engine) (store : Store) (ctx : Context) (itemId timestamp : Text)
    (pinned : Bool) : Store :=
  let keys := contextKeys ctx pinned
  if keys = [] ∨ itemId = [] then store
  else trimAssociations engine (keys.foldl (recordKey itemId timestamp pinned) store)

def forgetAssociation (store : Store) (ctx : Context) (itemId : Text) : Store :=
  let drop := (contextKeys ctx true).map Prod.fst
  store.retain fun key => !((drop.contains key || isInherited key)
    && (itemId.isEmpty || (store.lookup key).any (·.itemId = itemId)))

def isAssociated (store : Store) (ctx : Context) (itemId : Text) : Bool :=
  !itemId.isEmpty && (contextKeys ctx true).any fun key =>
    (store.lookup key.1).any fun entry =>
      associationEntryCounts key.1 entry && entry.itemId = itemId

/-- `best[id]` becomes the rank unless it is higher. -/
def raise (id : Text) (rank : Nat) : List (Text × Nat) → List (Text × Nat)
  | [] => [(id, rank)]
  | (other, held) :: rest =>
    if other = id then (other, max held rank) :: rest else (other, held) :: raise id rank rest

/-- One turn of the loop over the keys. No number is higher than an inherited property, and none is
lower. -/
def learn (store : Store) (best : List (Text × Nat)) (key : Text × Nat) : List (Text × Nat) :=
  match store.lookup key.1 with
  | none => best
  | some entry =>
    if !associationEntryCounts key.1 entry || entry.itemId.isEmpty || isInherited entry.itemId then
      best
    else raise entry.itemId (key.2 * 1000 + if entry.count = 0 then 1 else entry.count) best

def learnedMatchIds (engine : Engine) (store : Store) (ctx : Context) : List (Text × Nat) :=
  (engine.enumerate ((contextKeys ctx true).foldl (learn store) [])).insertionSort
    fun a b => b.2 ≤ a.2

/-! ## Words that are not pinned -/

def Unpinned (store : Store) : Prop :=
  ∀ key entry, store.lookup key = some entry → isWordKey key → entry.pinned = false

theorem contextKeys_true (ctx : Context) :
    contextKeys ctx true = contextKeys ctx false ++ ctx.titleTokens.map wordKey := by
  simp [contextKeys]

theorem isWordKey_wordKey (token : Text) : isWordKey (wordKey token).1 = true :=
  List.isPrefixOf_iff_prefix.mpr (List.prefix_append _ _)

/-- Without the words no key is one: the first letters differ. -/
theorem not_isWordKey {ctx : Context} {key : Text × Nat} (h : key ∈ contextKeys ctx false) :
    isWordKey key.1 = false := by
  have hdomain (rest : Text) : isWordKey (ascii "domain:" ++ rest) = false := rfl
  have happ (rest : Text) : isWordKey (ascii "app:" ++ rest) = false := rfl
  simp only [contextKeys, Bool.false_eq_true, if_false, List.append_nil, List.mem_append,
    List.mem_map] at h
  rcases h with ⟨d, -, rfl⟩ | h
  · exact hdomain d.baseDomain
  · split_ifs at h
    · rw [List.mem_singleton.mp h]
      exact happ ctx.clsSquashed
    · cases h

namespace Unpinned

variable {store : Store} {ctx ctx' : Context}

variable (h : Unpinned store)
include h

theorem retain (p : Text → Bool) : Unpinned (store.retain p) :=
  fun key entry hlookup => h key entry (Table.lookup_retain_eq_some.mp hlookup).2

theorem trimAssociations (engine : Engine) : Unpinned (trimAssociations engine store) := by
  unfold Associations.trimAssociations
  dsimp only
  split_ifs
  · exact h
  · exact h.retain _

theorem recordKeys {keys : List (Text × Nat)} (hkeys : ∀ key ∈ keys, isWordKey key.1 = false)
    (itemId timestamp : Text) : Unpinned (keys.foldl (recordKey itemId timestamp false) store) := by
  induction keys generalizing store with
  | nil => exact h
  | cons key keys ih =>
    obtain ⟨hkey, hkeys⟩ := List.forall_mem_cons.mp hkeys
    refine ih (fun other entry hlookup hword => ?_) hkeys
    rcases Table.lookup_insert_eq_some.mp hlookup with ⟨rfl, -⟩ | ⟨-, hold⟩
    · rw [hkey] at hword
      cases hword
    · exact h other entry hold hword

theorem recordAssociation (engine : Engine) (itemId timestamp : Text) :
    Unpinned (recordAssociation engine store ctx itemId timestamp false) := by
  unfold Associations.recordAssociation
  dsimp only
  split_ifs
  · exact h
  · exact (h.recordKeys (fun _ => not_isWordKey) itemId timestamp).trimAssociations engine

/-- An entry of a word does not count. -/
theorem not_counts {token : Text} {entry : Entry}
    (hlookup : store.lookup (wordKey token).1 = some entry) :
    associationEntryCounts (wordKey token).1 entry = false := by
  have hpinned := h _ entry hlookup (isWordKey_wordKey token)
  rw [associationEntryCounts, isWordKey_wordKey, hpinned]
  rfl

theorem learn_words (tokens : List Text) (best : List (Text × Nat)) :
    (tokens.map wordKey).foldl (learn store) best = best := by
  induction tokens with
  | nil => rfl
  | cons token tokens ih =>
    have hlearn : learn store best (wordKey token) = best := by
      unfold learn
      split
      · rfl
      · next entry hlookup => rw [h.not_counts hlookup]; rfl
    rw [List.map_cons, List.foldl_cons, hlearn, ih]

theorem learnedMatchIds_eq (engine : Engine)
    (hkeys : contextKeys ctx false = contextKeys ctx' false) :
    learnedMatchIds engine store ctx = learnedMatchIds engine store ctx' := by
  unfold learnedMatchIds
  rw [contextKeys_true, contextKeys_true, List.foldl_append, List.foldl_append, h.learn_words,
    h.learn_words, hkeys]

theorem isAssociated_words (itemId : Text) (tokens : List Text) :
    ((tokens.map wordKey).any fun key => (store.lookup key.1).any fun entry =>
      associationEntryCounts key.1 entry && entry.itemId = itemId) = false := by
  simp only [List.any_eq_false, List.mem_map, Option.any_eq_true]
  rintro _ ⟨token, -, rfl⟩ ⟨entry, hlookup, hcounts⟩
  rw [h.not_counts hlookup] at hcounts
  cases hcounts

theorem isAssociated_eq (itemId : Text) (hkeys : contextKeys ctx false = contextKeys ctx' false) :
    isAssociated store ctx itemId = isAssociated store ctx' itemId := by
  unfold isAssociated
  rw [contextKeys_true, contextKeys_true, List.any_append, List.any_append, h.isAssociated_words,
    h.isAssociated_words, hkeys]

end Unpinned

/-! ## Histories -/

/-- A change without a pin. -/
inductive Change where
  | record (ctx : Context) (itemId timestamp : Text)
  | forget (ctx : Context) (itemId : Text)

def Change.apply (engine : Engine) (store : Store) : Change → Store
  | .record ctx itemId timestamp => recordAssociation engine store ctx itemId timestamp false
  | .forget ctx itemId => forgetAssociation store ctx itemId

theorem Unpinned.changes {store : Store} (h : Unpinned store) (engine : Engine)
    (changes : List Change) : Unpinned (changes.foldl (Change.apply engine) store) := by
  induction changes generalizing store with
  | nil => exact h
  | cons change changes ih =>
    refine ih ?_
    cases change with
    | record ctx itemId timestamp => exact h.recordAssociation engine itemId timestamp
    | forget ctx itemId => exact h.retain _

/-- After any unpinned changes of a store in which no word is pinned, windows that agree in all but
their titles are given the same ids in the same order, and are associated with the same ones. -/
theorem title_cannot_match (engine : Engine) (store : Store) (hstore : Unpinned store)
    (changes : List Change) (ctx ctx' : Context)
    (hdomain : ctx.detectedDomain = ctx'.detectedDomain)
    (hclass : ctx.clsSquashed = ctx'.clsSquashed) (hbrowser : ctx.isBrowser = ctx'.isBrowser)
    (hterminal : ctx.isTerminal = ctx'.isTerminal) :
    let after := changes.foldl (Change.apply engine) store
    learnedMatchIds engine after ctx = learnedMatchIds engine after ctx' ∧
      ∀ itemId, isAssociated after ctx itemId = isAssociated after ctx' itemId := by
  have hkeys : contextKeys ctx false = contextKeys ctx' false := by
    simp [contextKeys, hdomain, hclass, hbrowser, hterminal]
  have hafter := hstore.changes engine changes
  exact ⟨hafter.learnedMatchIds_eq engine hkeys, fun itemId => hafter.isAssociated_eq itemId hkeys⟩

/-- A browser's window with these words in its title. -/
def titled (tokens : List Text) : Context where
  clsSquashed := ascii "firefox"
  title := []
  matchText := []
  squashedTitle := []
  squashedMatchText := []
  segments := []
  titleTokens := tokens
  aliasTokens := []
  detectedDomain := none
  isBrowser := true
  isTerminal := false

/-- An old store has the word of a title; the item is not brought up by it. -/
theorem title_cannot_match_word :
    let engine : Engine := ⟨fun _ => [], id, fun _ => .rfl⟩
    let store : Store := (∅ : Store).insert (ascii "word:acme") ⟨ascii "id", 1, 1, [], false⟩
    learnedMatchIds engine store (titled [ascii "acme"]) = [] ∧
      isAssociated store (titled [ascii "acme"]) (ascii "id") = false := by
  intro engine store
  have hstore : Unpinned store := by
    intro key entry hlookup _
    rcases Table.lookup_insert_eq_some.mp hlookup with ⟨-, rfl⟩ | ⟨-, hnone⟩
    · rfl
    · cases hnone
  obtain ⟨hids, hassociated⟩ := title_cannot_match engine store hstore [] (titled [ascii "acme"])
    (titled []) rfl rfl rfl rfl
  exact ⟨hids, hassociated _⟩

end QsBitwarden.Panel.Associations
