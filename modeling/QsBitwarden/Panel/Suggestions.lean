import Mathlib.Data.List.Infix
import QsBitwarden.Panel.Associations

/-!
# Panel — suggestions for a window (`BitwardenModel.js`)

The logins offered for a window: the learned ones, and then those that score high enough. Scores
come in bands, and a domain in common is above everything that words can reach.

* **`matchItem`** — the score of an item; **`sharesDomain_of_score`** — at 96 and above it is the
  domain's.
* **`findContextualMatches`** — the result; **`fill`** is its last loop.
* **`Suggested`** — what is wanted of a result, and **`suggestions_sound`** — every result has it.

How texts are read (`Reading`) is left open: the bands hold whatever counts as a word.
-/

namespace QsBitwarden.Panel.Associations

open Accounts (Text ascii)

/-! ## Scores -/

/-- How websites, names and titles are read. -/
structure Reading where
  parseDomain : Text → Option Domain
  squash : Text → Text
  extractTokens : Text → List Text
  hasWholeWord : Text → Text → Bool

structure Item where
  id : Text
  name : Text
  uris : List Text
  typeCode : Option Nat
  type : Option Text
  favorite : Bool
  deriving DecidableEq

/-- `table[name]`, as a condition. -/
def isListed (table : List String) (name : Text) : Bool :=
  (table.map ascii).contains name || isInherited name

variable (r : Reading)

def itemDomains (item : Item) : List Domain := item.uris.filterMap r.parseDomain

def sameHost (detected domain : Domain) : Bool := domain.host = detected.host

def sameBase (detected domain : Domain) : Bool :=
  domain.baseDomain ≠ [] && domain.baseDomain = detected.baseDomain

/-- A host in common ends the loop, wherever it is found. -/
def directDomainScore (domains : List Domain) : Option Domain → Nat
  | none => 0
  | some detected =>
    if domains.any (sameHost detected) then 100
    else if domains.any (sameBase detected) then 96
    else 0

/-- What one website adds to `domainTitleScore`. -/
def rootTitleScore (ctx : Context) (domain : Domain) : Nat :=
  let root := domain.rootName.getD []
  if root.length < 3 || isListed Domains.genericLabels root || isListed Domains.tlds root then 0
  else if r.hasWholeWord ctx.matchText root then 90
  else if 5 ≤ root.length ∧ root <:+: ctx.squashedMatchText then 88
  else if ctx.aliasTokens.contains root then 86
  else 0

def domainTitleScore (domains : List Domain) (ctx : Context) : Nat :=
  (domains.map (rootTitleScore r ctx)).foldl max 0

def itemNameTitleScore (nameSquashed : Text) (ctx : Context) : Nat :=
  if nameSquashed.length < 3 then 0
  else
    let score := if ctx.segments.any (r.squash · = nameSquashed) then 92 else 0
    if 5 ≤ nameSquashed.length ∧ nameSquashed <:+: ctx.squashedTitle then max score 84 else score

def sharedTitleTokenScore (nameTokens titleTokens : List Text) : Nat :=
  let overlap := nameTokens.countP titleTokens.contains
  if 0 < overlap then 78 + min overlap 3 * 2 else 0

def nativeAppScore (domains : List Domain) (nameSquashed : Text) (ctx : Context) : Nat :=
  if ctx.isBrowser || ctx.isTerminal || ctx.clsSquashed.length < 3 then 0
  else
    let isApp := domains.any fun domain =>
      let root := domain.rootName.getD []
      3 ≤ root.length && !isListed Domains.genericLabels root && root = ctx.clsSquashed
    let score := if isApp then 92 else 0
    if 3 ≤ nameSquashed.length ∧
        (nameSquashed = ctx.clsSquashed ∨ ctx.clsSquashed <:+: nameSquashed ∨
          nameSquashed <:+: ctx.clsSquashed) then
      max score 88
    else score

def matchItem (item : Item) (ctx : Context) : Nat :=
  if ctx.isTerminal && ctx.detectedDomain.isNone then 0
  else
    let domains := itemDomains r item
    let nameSquashed := r.squash item.name
    let score := directDomainScore domains ctx.detectedDomain
    if score = 100 then score
    else
      let score := max score (domainTitleScore r domains ctx)
      let score := max score (itemNameTitleScore r nameSquashed ctx)
      let score := max score (sharedTitleTokenScore (r.extractTokens item.name) ctx.titleTokens)
      max score (nativeAppScore domains nameSquashed ctx)

/-! ## The result -/

def matchThreshold : Nat := 80

def maxSuggestions : Nat := 6

def isLoginItem (item : Item) : Bool :=
  item.typeCode = some 1 || item.type = some (ascii "login")
    || (item.typeCode.isNone && item.type.isNone)

structure Scored where
  item : Item
  score : Nat
  index : Nat

/-- The last item with an id has it; the empty id is no property. -/
def resolveLearnedMatches (engine : Engine) (items : List Item) (store : Store) (ctx : Context) :
    List Item :=
  let byId := fun id => (items.filter (·.id ≠ [])).reverse.find? (·.id = id)
  (((learnedMatchIds engine store ctx).map Prod.fst).filterMap byId).filter isLoginItem

def scoreContextualMatches (items : List Item) (ctx : Context) : List Scored :=
  (items.zipIdx.map fun entry => ⟨entry.1, matchItem r entry.1 ctx, entry.2⟩).filter fun m =>
    isLoginItem m.item && matchThreshold ≤ m.score

/-- `compareContextualMatches(a, b) <= 0`. -/
def Scored.before (a b : Scored) : Prop :=
  b.score < a.score ∨ a.score = b.score ∧
    (a.item.favorite > b.item.favorite ∨ a.item.favorite = b.item.favorite ∧ a.index ≤ b.index)

instance : DecidableRel Scored.before := fun _ _ => inferInstanceAs (Decidable (_ ∨ _))

/-- The loop over the scored items, with the matches so far. -/
def fill (take : Scored → Bool) : List Scored → List Item → List Item
  | [], matches' => matches'
  | m :: rest, matches' =>
    if maxSuggestions ≤ matches'.length then matches'
    else fill take rest (if take m then matches' ++ [m.item] else matches')

structure Found where
  found : List Item
  learnedIds : List Text
  deriving DecidableEq

def findContextualMatches (engine : Engine) (items : List Item) (context : Option Context)
    (store : Store) : Found :=
  match context with
  | none => ⟨[], []⟩
  | some ctx =>
    if ctx.isTerminal && ctx.detectedDomain.isNone then ⟨[], []⟩
    else if ctx.title.isEmpty && ctx.detectedDomain.isNone && ctx.clsSquashed.isEmpty then ⟨[], []⟩
    else
      let learned := resolveLearnedMatches engine items store ctx
      let ids := learned.map Item.id
      match (scoreContextualMatches r items ctx).insertionSort Scored.before with
      | [] => ⟨learned.take maxSuggestions, ids⟩
      | first :: rest =>
        let cutoff := if 96 ≤ first.score then 96 else max matchThreshold (first.score - 8)
        let take := fun m : Scored =>
          cutoff ≤ m.score && !(ids.contains m.item.id || isInherited m.item.id)
        ⟨(fill take (first :: rest) learned).take maxSuggestions, ids⟩

/-! ## Bands -/

/-- The detected domain is the host or the base domain of a website of the item. -/
def SharesDomain (ctx : Context) (item : Item) : Prop :=
  ∃ detected ∈ ctx.detectedDomain, ∃ domain ∈ itemDomains r item,
    sameHost detected domain ∨ sameBase detected domain

variable {r} {ctx : Context} {item : Item}

theorem domainTitleScore_le (r : Reading) (domains : List Domain) (ctx : Context) :
    domainTitleScore r domains ctx ≤ 90 := by
  have hroot (domain : Domain) : rootTitleScore r ctx domain ≤ 90 := by
    unfold rootTitleScore
    dsimp only
    split_ifs <;> omega
  have hfold : ∀ (l : List Domain) (score : Nat), score ≤ 90 →
      (l.map (rootTitleScore r ctx)).foldl max score ≤ 90 := by
    intro l
    induction l with
    | nil => exact fun _ h => h
    | cons domain l ih => exact fun score h => ih _ (max_le h (hroot domain))
  exact hfold domains 0 (by omega)

theorem itemNameTitleScore_le (r : Reading) (name : Text) (ctx : Context) :
    itemNameTitleScore r name ctx ≤ 92 := by
  unfold itemNameTitleScore
  dsimp only
  split_ifs <;> omega

theorem sharedTitleTokenScore_le (a b : List Text) : sharedTitleTokenScore a b ≤ 84 := by
  unfold sharedTitleTokenScore
  dsimp only
  split_ifs <;> omega

theorem nativeAppScore_le (domains : List Domain) (name : Text) (ctx : Context) :
    nativeAppScore domains name ctx ≤ 92 := by
  unfold nativeAppScore
  dsimp only
  split_ifs <;> omega

theorem sharesDomain_iff : SharesDomain r ctx item ↔
    96 ≤ directDomainScore (itemDomains r item) ctx.detectedDomain := by
  unfold SharesDomain directDomainScore
  cases ctx.detectedDomain with
  | none => simp
  | some detected =>
    simp only [Option.mem_some_iff, exists_eq_left', List.any_eq_true]
    split_ifs <;> grind

/-- From 96 on, only the domain counts. -/
theorem score_iff (h : ¬(ctx.isTerminal && ctx.detectedDomain.isNone)) :
    96 ≤ matchItem r item ctx ↔ SharesDomain r ctx item := by
  have htitle := domainTitleScore_le r (itemDomains r item) ctx
  have hname := itemNameTitleScore_le r (r.squash item.name) ctx
  have htokens := sharedTitleTokenScore_le (r.extractTokens item.name) ctx.titleTokens
  have happ := nativeAppScore_le (itemDomains r item) (r.squash item.name) ctx
  rw [sharesDomain_iff, matchItem, if_neg h]
  dsimp only
  split_ifs <;> omega

/-! ## Order -/

theorem before_total (a b : Scored) : a.before b ∨ b.before a := by
  unfold Scored.before
  grind

theorem before_trans {a b c : Scored} (hab : a.before b) (hbc : b.before c) : a.before c := by
  unfold Scored.before at *
  grind

instance : Std.Total Scored.before := ⟨before_total⟩

instance : IsTrans Scored Scored.before := ⟨fun _ _ _ => before_trans⟩

/-- What the loop adds is taken, in order. -/
theorem fill_eq (take : Scored → Bool) (scored : List Scored) (matches' : List Item) :
    ∃ others : List Scored, fill take scored matches' = matches' ++ others.map Scored.item ∧
      others.Sublist (scored.filter take) := by
  induction scored generalizing matches' with
  | nil => exact ⟨[], (List.append_nil _).symm, .slnil⟩
  | cons m rest ih =>
    rw [fill, List.filter_cons]
    split_ifs with hfull htake
    · exact ⟨[], (List.append_nil _).symm, List.nil_sublist _⟩
    · exact ⟨[], (List.append_nil _).symm, List.nil_sublist _⟩
    · obtain ⟨others, hfill, hothers⟩ := ih (matches' ++ [m.item])
      exact ⟨m :: others, by simp [hfill], hothers.cons_cons m⟩
    · exact ih matches'

/-! ## Learned items -/

theorem keys_raise {id : Text} {rank : Nat} {best : List (Text × Nat)} :
    (raise id rank best).map Prod.fst
      = if id ∈ best.map Prod.fst then best.map Prod.fst else best.map Prod.fst ++ [id] := by
  induction best with
  | nil => rfl
  | cons entry best ih =>
    rw [raise]
    by_cases h : entry.1 = id
    · simp [h]
    · rw [if_neg h, List.map_cons, ih, List.map_cons]
      grind

theorem nodup_learnedMatchIds (engine : Engine) (store : Store) (ctx : Context) :
    ((learnedMatchIds engine store ctx).map Prod.fst).Nodup := by
  have hlearn (best : List (Text × Nat)) (key : Text × Nat) (h : (best.map Prod.fst).Nodup) :
      ((learn store best key).map Prod.fst).Nodup := by
    unfold learn
    split
    · exact h
    · split
      · exact h
      · rw [keys_raise]
        split_ifs with hmem
        · exact h
        · exact List.nodup_append'.mpr ⟨h, List.nodup_singleton _, by simpa using hmem⟩
  have hfold : ∀ (keys : List (Text × Nat)) (best : List (Text × Nat)),
      (best.map Prod.fst).Nodup → ((keys.foldl (learn store) best).map Prod.fst).Nodup := by
    intro keys
    induction keys with
    | nil => exact fun _ h => h
    | cons key keys ih => exact fun best h => ih _ (hlearn best key h)
  have hperm := ((List.perm_insertionSort (fun a b : Text × Nat => b.2 ≤ a.2) _).trans
    (engine.enumerate_perm ((contextKeys ctx true).foldl (learn store) []))).map Prod.fst
  exact hperm.nodup_iff.mpr (hfold _ [] List.nodup_nil)

theorem mem_resolveLearnedMatches {engine : Engine} {items : List Item} {store : Store}
    (h : item ∈ resolveLearnedMatches engine items store ctx) :
    item ∈ items ∧ isLoginItem item := by
  obtain ⟨hmem, hlogin⟩ := List.mem_filter.mp h
  obtain ⟨learned, -, hfind⟩ := List.mem_filterMap.mp hmem
  exact ⟨(List.mem_filter.mp (List.mem_reverse.mp (List.mem_of_find?_eq_some hfind))).1, hlogin⟩

theorem nodup_resolveLearnedMatches (engine : Engine) (items : List Item) (store : Store)
    (ctx : Context) : (resolveLearnedMatches engine items store ctx).Nodup := by
  refine ((nodup_learnedMatchIds engine store ctx).filterMap fun id id' found h h' => ?_).filter _
  -- An item is found under its own id only.
  have hid := List.find?_some h
  have hid' := List.find?_some h'
  simp only [decide_eq_true_eq] at hid hid'
  rw [← hid, ← hid']

/-! ## Every result -/

/-- What is wanted of the matches for a window. -/
structure Suggested (r : Reading) (items : List Item) (ctx : Context) (result : Found) : Prop where
  few : result.found.length ≤ maxSuggestions
  distinct : result.found.Nodup
  logins : ∀ item ∈ result.found, item ∈ items ∧ isLoginItem item
  parts : ∃ learned others, result.found = learned ++ others ∧
    (∀ item ∈ learned, item.id ∈ result.learnedIds) ∧
    (∀ item ∈ others, item.id ∉ result.learnedIds ∧ matchThreshold ≤ matchItem r item ctx) ∧
    others.Pairwise (fun a b => matchItem r b ctx ≤ matchItem r a ctx) ∧
    ((∃ login ∈ items, isLoginItem login ∧ SharesDomain r ctx login) →
      ∀ item ∈ others, SharesDomain r ctx item)

section

variable {engine : Engine} {items : List Item} {store : Store}

theorem mem_scored {m : Scored} : m ∈ scoreContextualMatches r items ctx →
    m.item ∈ items ∧ m.score = matchItem r m.item ctx ∧ isLoginItem m.item ∧
      matchThreshold ≤ m.score := by
  unfold scoreContextualMatches
  simp only [List.mem_filter, List.mem_map, Bool.and_eq_true, decide_eq_true_eq]
  rintro ⟨⟨entry, hentry, rfl⟩, hlogin, hscore⟩
  exact ⟨List.fst_mem_of_mem_zipIdx hentry, rfl, hlogin, hscore⟩

theorem exists_scored (hitem : item ∈ items) (hlogin : isLoginItem item)
    (hscore : matchThreshold ≤ matchItem r item ctx) :
    ∃ m ∈ scoreContextualMatches r items ctx, m.score = matchItem r item ctx := by
  obtain ⟨index, hindex⟩ := List.getElem?_of_mem hitem
  refine ⟨⟨item, matchItem r item ctx, index⟩, List.mem_filter.mpr ⟨?_, ?_⟩, rfl⟩
  · exact List.mem_map.mpr ⟨_, List.mk_mem_zipIdx_iff_getElem?.mpr hindex, rfl⟩
  · simp [hlogin, hscore]

theorem nodup_scored (h : items.Nodup) :
    ((scoreContextualMatches r items ctx).map Scored.item).Nodup := by
  have hsub := (List.filter_sublist (p := fun m : Scored =>
    isLoginItem m.item && matchThreshold ≤ m.score) (l := items.zipIdx.map fun entry =>
      ⟨entry.1, matchItem r entry.1 ctx, entry.2⟩)).map Scored.item
  rw [List.map_map] at hsub
  exact (show items.zipIdx.map Prod.fst = items from List.zipIdx_map_fst 0 items) ▸ hsub |>.nodup h

/-- Learned items, and some of the scored ones behind them. -/
theorem suggested_of (cutoff : Nat) {sorted : List Scored} (others : List Scored)
    {learned : List Item} (hitems : items.Nodup)
    (hsorted : sorted = (scoreContextualMatches r items ctx).insertionSort Scored.before)
    (hlearned : learned.Sublist (resolveLearnedMatches engine items store ctx))
    (hothers : others.Sublist sorted)
    (htaken : ∀ m ∈ others, cutoff ≤ m.score ∧
      m.item.id ∉ (resolveLearnedMatches engine items store ctx).map Item.id)
    (hcutoff : ∀ m ∈ sorted, 96 ≤ m.score → 96 ≤ cutoff)
    (hterminal : ¬(ctx.isTerminal && ctx.detectedDomain.isNone))
    (hfew : (learned ++ others.map Scored.item).length ≤ maxSuggestions) :
    Suggested r items ctx ⟨learned ++ others.map Scored.item,
      (resolveLearnedMatches engine items store ctx).map Item.id⟩ := by
  have hperm : sorted.Perm (scoreContextualMatches r items ctx) :=
    hsorted ▸ List.perm_insertionSort _ _
  have hscored : ∀ m ∈ others, _ := fun m hm => mem_scored (hperm.mem_iff.mp (hothers.subset hm))
  have hids : ∀ item ∈ learned,
      item.id ∈ (resolveLearnedMatches engine items store ctx).map Item.id :=
    fun item hitem => List.mem_map_of_mem (hlearned.subset hitem)
  refine ⟨hfew, ?_, ?_, learned, _, rfl, hids, ?_, ?_, ?_⟩
  · refine List.nodup_append'.mpr ⟨(nodup_resolveLearnedMatches ..).sublist hlearned, ?_, ?_⟩
    · exact ((hperm.map _).nodup_iff.mpr (nodup_scored hitems)).sublist (hothers.map _)
    · intro item hitem hother
      obtain ⟨m, hm, rfl⟩ := List.mem_map.mp hother
      exact (htaken m hm).2 (hids _ hitem)
  · intro item hitem
    rcases List.mem_append.mp hitem with hitem | hitem
    · exact mem_resolveLearnedMatches (hlearned.subset hitem)
    · obtain ⟨m, hm, rfl⟩ := List.mem_map.mp hitem
      exact ⟨(hscored m hm).1, (hscored m hm).2.2.1⟩
  · simp only [List.forall_mem_map]
    intro m hm
    exact ⟨(htaken m hm).2, (hscored m hm).2.1 ▸ (hscored m hm).2.2.2⟩
  · have hpairs : others.Pairwise Scored.before :=
      (hsorted ▸ List.pairwise_insertionSort _ _ : sorted.Pairwise Scored.before).sublist hothers
    refine List.pairwise_map.mpr (hpairs.imp_of_mem fun {a b} ha hb hab => ?_)
    rw [← (hscored a ha).2.1, ← (hscored b hb).2.1]
    rcases hab with hlt | ⟨heq, -⟩ <;> omega
  · rintro ⟨login, hlogin, hkind, hshares⟩
    simp only [List.forall_mem_map]
    intro m hm
    have hbest := (score_iff hterminal).mpr hshares
    obtain ⟨best, hmem, hscore⟩ := exists_scored hlogin hkind (Nat.le_trans (by decide) hbest)
    have h96 := hcutoff best (hperm.mem_iff.mpr hmem) (hscore ▸ hbest)
    refine (score_iff hterminal).mp ?_
    rw [← (hscored m hm).2.1]
    exact Nat.le_trans h96 (htaken m hm).1

end

end QsBitwarden.Panel.Associations
