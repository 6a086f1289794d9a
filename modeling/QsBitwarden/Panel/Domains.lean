import Mathlib.Data.List.Basic

/-!
# Panel — host names in titles (`BitwardenModel.js`)

A window's title may spell the host of the page it shows. The host is looked for among the words of
the title, and it has to end in one of a list of suffixes.

* **`lookup`** — a table is an object whose keys are the words of a list, so that it also has the
  names that every object inherits.
* **`parseHost`**, **`detectDomainInText`** — as the source computes them. Lower-casing comes from
  outside; of ASCII it is what it should be.
* **`groups`** — what is looked for: the maximal groups of labels, joined by single dots, from left
  to right.
* **`walk_eq`**, **`splitRuns_eq`** — the loops go through these groups.
* **`domain_detected`** — the first group that qualifies is found, as long as no label is an
  inherited name.
-/

namespace QsBitwarden.Panel.Domains

/-! ## Tables -/

def genericLabels : List String :=
  ["www", "www2", "web", "app", "apps", "mobile", "my", "secure", "login", "signin", "sign",
   "logon", "auth", "oauth", "sso", "idp", "account", "accounts", "portal", "admin", "dash",
   "dashboard", "console", "home", "welcome", "overview", "page", "site", "online", "cloud",
   "server", "service", "services", "api", "cdn", "static", "assets", "local", "localhost",
   "localdomain", "internal", "intranet", "lan", "dev", "test", "staging", "prod", "the", "and",
   "for", "with", "your", "new", "inbox", "settings"]

def tlds : List String :=
  ["com", "org", "net", "edu", "gov", "mil", "int", "io", "co", "ai", "app", "dev", "me", "tv",
   "cc", "info", "biz", "name", "pro", "xyz", "online", "site", "shop", "store", "tech", "cloud",
   "page", "blog", "wiki", "news", "media", "email", "chat", "social", "games", "software",
   "systems", "network", "digital", "finance", "bank", "money", "health", "life", "world",
   "space", "link", "click", "one", "run", "sh", "gg", "fm", "to", "ly", "us", "uk", "ca", "au",
   "nz", "de", "fr", "es", "it", "nl", "be", "ch", "at", "se", "no", "dk", "fi", "pl", "cz", "pt",
   "ie", "gr", "ru", "ua", "tr", "il", "in", "jp", "cn", "kr", "hk", "tw", "sg", "my", "id", "th",
   "vn", "ph", "br", "mx", "ar", "cl", "za", "eu", "local", "lan", "home", "internal", "arpa",
   "localdomain"]

def multiSld : List String :=
  ["co", "com", "net", "org", "ac", "gov", "edu", "or", "ne"]

/-- The names that every object has from `Object.prototype`. None of their values is falsy. -/
def inheritedNames : List String :=
  ["constructor", "__defineGetter__", "__defineSetter__", "hasOwnProperty", "__lookupGetter__",
   "__lookupSetter__", "isPrototypeOf", "propertyIsEnumerable", "toString", "valueOf", "__proto__",
   "toLocaleString"]

/-- `table[key]`, as a condition. -/
def lookup (table : List String) (key : List Char) : Bool :=
  table.contains (String.ofList key) || inheritedNames.contains (String.ofList key)

/-! ## Hosts -/

/-- `toLowerCase`. -/
structure Lowering where
  lower : List Char → List Char
  ascii : ∀ text, (∀ c ∈ text, c.toNat < 128) → lower text = text.map Char.toLower

structure Parsed where
  host : List Char
  baseDomain : List Char
  rootName : Option (List Char)
  isIp : Bool
  deriving DecidableEq

/-- `labels.join(".")`. -/
def join : List (List Char) → List Char
  | [] => []
  | [label] => label
  | label :: rest => label ++ '.' :: join rest

/-- `replace(/:\d+$/, "")`. -/
def stripPort (host : List Char) : List Char :=
  let digits := (host.reverse.takeWhile Char.isDigit).length
  let before := host.take (host.length - digits)
  if 0 < digits && before.getLast? = some ':' then before.dropLast else host

/-- `replace(/\.$/, "")`. -/
def stripDot (host : List Char) : List Char :=
  if host.getLast? = some '.' then host.dropLast else host

/-- `/^\d{1,3}(?:\.\d{1,3}){3}$/`. -/
def isIpAddress (host : List Char) : Bool :=
  let parts := host.splitOn '.'
  parts.length = 4 && parts.all fun part =>
    1 ≤ part.length && part.length ≤ 3 && part.all Char.isDigit

/-- How many labels at the end are the suffix. -/
def suffixCount (parts : List (List Char)) : Nat :=
  if 3 ≤ parts.length && lookup multiSld (parts.getD (parts.length - 2) []) then 2 else 1

def parseHost (lowering : Lowering) (host : List Char) : Option Parsed :=
  let h := stripDot (stripPort (lowering.lower host))
  if h.isEmpty then none
  else if isIpAddress h then some { host := h, baseDomain := h, rootName := none, isIp := true }
  else
    let parts := h.splitOn '.'
    if parts.length = 1 then
      some { host := h, baseDomain := h, rootName := parts.head?, isIp := false }
    else
      let rootIdx := parts.length - suffixCount parts - 1
      some { host := h, baseDomain := join (parts.drop rootIdx), rootName := parts[rootIdx]?,
             isIp := false }

/-! ## Detection -/

/-- `[a-z0-9-]`. -/
def isLabelChar (c : Char) : Bool := c.isLower || c.isDigit || c == '-'

/-- What separates runs: `[^a-z0-9.\-]`. -/
def isSeparator (c : Char) : Bool := !isLabelChar c && c != '.'

/-- `split(/[^a-z0-9.\-]+/)`, within a separator or not, and with the run so far. -/
def splitRuns : Bool → List Char → List Char → List (List Char)
  | _, run, [] => [run]
  | between, run, c :: rest =>
    if isSeparator c then
      if between then splitRuns true run rest else run :: splitRuns true [] rest
    else splitRuns false (run ++ [c]) rest

/-- A group that has ended: its host, if it is taken. -/
def close (lowering : Lowering) (group : List (List Char)) : Option Parsed :=
  if group.length < 2 then none
  else if !lookup tlds (group.getLastD []) then none
  else
    match parseHost lowering (join group) with
    | none => none
    | some parsed =>
      match parsed.rootName with
      | none => none
      | some root =>
        if root.length < 2 || lookup genericLabels root then none else some parsed

/-- The labels of a run, and one turn past their end. -/
def walk (lowering : Lowering) (group : List (List Char)) :
    List (List Char) → Option Parsed
  | [] => close lowering group
  | label :: rest =>
    if !label.isEmpty then walk lowering (group ++ [label]) rest
    else (close lowering group).or (walk lowering [] rest)

def detectDomainInText (lowering : Lowering) (text : List Char) : Option Parsed :=
  (splitRuns false [] (lowering.lower text)).findSome? fun run =>
    walk lowering [] (run.splitOn '.')

/-! ## What is looked for -/

/-- Not empty, and of the characters of labels. -/
def IsLabel (label : List Char) : Prop := label ≠ [] ∧ ∀ c ∈ label, isLabelChar c = true

/-- The maximal groups of at least two labels that are joined by single dots: where the text is cut
at other characters and at dots, these are the labels between two empty ones. -/
def groups (text : List Char) : List (List (List Char)) :=
  ((text.splitOnP isSeparator).flatMap fun run => (run.splitOn '.').splitOnP List.isEmpty).filter
    (2 ≤ ·.length)

/-- The label before the suffix, which has two labels if the last but one is a second-level
suffix. -/
def registrable (labels : List (List Char)) : List Char :=
  let suffix :=
    if 3 ≤ labels.length ∧ String.ofList (labels.getD (labels.length - 2) []) ∈ multiSld then 2
    else 1
  labels.getD (labels.length - suffix - 1) []

/-- The last label is a suffix, the whole is no address, and the registrable label is long enough
and not generic. -/
def Qualifies (labels : List (List Char)) : Prop :=
  String.ofList (labels.getLastD []) ∈ tlds ∧ isIpAddress (join labels) = false ∧
    2 ≤ (registrable labels).length ∧ String.ofList (registrable labels) ∉ genericLabels

instance (labels : List (List Char)) : Decidable (Qualifies labels) :=
  inferInstanceAs (Decidable (_ ∧ _))

/-! ## The loops -/

section Loops

variable {lowering : Lowering}

/-- The loop over the labels of a run goes through what lies between empty ones. -/
theorem walk_eq (labels : List (List Char)) : ∀ group, (∀ l ∈ group, l.isEmpty = false) →
    walk lowering group labels
      = ((group ++ labels).splitOnP List.isEmpty).findSome? (close lowering) := by
  induction labels with
  | nil =>
    intro group h
    rw [List.append_nil, List.splitOnP_eq_singleton h, List.findSome?_singleton]
    rfl
  | cons label rest ih =>
    intro group h
    rw [walk]
    cases hempty : label.isEmpty with
    | false =>
      have hgroup := List.forall_mem_append.mpr ⟨h, List.forall_mem_singleton.mpr hempty⟩
      rw [Bool.not_false, if_pos rfl, ih _ hgroup, List.append_assoc]
      rfl
    | true =>
      rw [Bool.not_true, if_neg Bool.false_ne_true,
        List.splitOnP_append_cons_of_forall_mem h _ hempty, List.findSome?_cons,
        ih [] (List.forall_mem_nil _)]
      cases close lowering group <;> rfl

/-- Cutting at runs of separators or at each of them differs in empty pieces only. -/
theorem splitRuns_eq {f : List Char → Option Parsed} (hf : f [] = none) (text : List Char) :
    (∀ run, (∀ c ∈ run, isSeparator c = false) →
      (splitRuns false run text).findSome? f = ((run ++ text).splitOnP isSeparator).findSome? f) ∧
    (splitRuns true [] text).findSome? f = (text.splitOnP isSeparator).findSome? f := by
  induction text with
  | nil =>
    refine ⟨fun run h => ?_, rfl⟩
    rw [List.append_nil, List.splitOnP_eq_singleton h]
    rfl
  | cons c text ih =>
    obtain ⟨ihrun, ihbetween⟩ := ih
    cases hc : isSeparator c with
    | true =>
      refine ⟨fun run h => ?_, ?_⟩
      · rw [splitRuns, if_pos hc, if_neg Bool.false_ne_true,
          List.splitOnP_append_cons_of_forall_mem h _ hc, List.findSome?_cons, List.findSome?_cons,
          ihbetween]
      · have hcut : (c :: text).splitOnP isSeparator = [] :: text.splitOnP isSeparator :=
          List.splitOnP_append_cons_of_forall_mem (List.forall_mem_nil _) c hc text
        rw [splitRuns, if_pos hc, if_pos rfl, hcut, List.findSome?_cons, hf, ihbetween]
    | false =>
      have hneg : ¬isSeparator c = true := by rw [hc]; exact Bool.false_ne_true
      refine ⟨fun run h => ?_, ?_⟩
      · have hrun := List.forall_mem_append.mpr ⟨h, List.forall_mem_singleton.mpr hc⟩
        rw [splitRuns, if_neg hneg, ihrun _ hrun, List.append_assoc]
        rfl
      · rw [splitRuns, if_neg hneg]
        exact ihrun [c] (List.forall_mem_singleton.mpr hc)

theorem findSome?_flatMap {α β γ : Type} (f : β → Option γ) (g : α → List β) (l : List α) :
    (l.flatMap g).findSome? f = l.findSome? fun a => (g a).findSome? f := by
  induction l with
  | nil => rfl
  | cons a l ih =>
    rw [List.flatMap_cons, List.findSome?_append, List.findSome?_cons, ih]
    cases (g a).findSome? f <;> rfl

/-- What is detected is the first group that is taken. -/
theorem detectDomainInText_eq (text : List Char) : detectDomainInText lowering text
    = (groups (lowering.lower text)).findSome? (close lowering) := by
  have hfilter : ∀ all : List (List (List Char)),
      (all.filter (2 ≤ ·.length)).findSome? (close lowering) = all.findSome? (close lowering) := by
    intro all
    induction all with
    | nil => rfl
    | cons group all ih =>
      rw [List.filter_cons, List.findSome?_cons, ← ih]
      by_cases htwo : 2 ≤ group.length
      · rw [decide_eq_true htwo, if_pos rfl, List.findSome?_cons]
      · have hclose : close lowering group = none := if_pos (Nat.not_le.mp htwo)
        rw [decide_eq_false htwo, if_neg Bool.false_ne_true, hclose]
  rw [groups, hfilter, findSome?_flatMap, detectDomainInText,
    (splitRuns_eq rfl _).1 [] (List.forall_mem_nil _), List.nil_append]
  congr 1
  funext run
  exact walk_eq _ [] (List.forall_mem_nil _)

end Loops

variable {label : List Char} {labels : List (List Char)}

/-! ## Groups -/

/-- The pieces of a list that is cut hold none of what it is cut at, and nothing new. -/
theorem of_mem_splitOnP {α : Type} {p : α → Bool} {l piece : List α} (h : piece ∈ l.splitOnP p) :
    ∀ a ∈ piece, p a = false ∧ a ∈ l := by
  induction l generalizing piece with
  | nil =>
    rw [List.splitOnP_nil, List.mem_singleton] at h
    rw [h]
    exact List.forall_mem_nil _
  | cons x l ih =>
    rw [List.splitOnP_cons_eq_if_modifyHead] at h
    cases hx : p x with
    | true =>
      rw [hx, if_pos rfl] at h
      rcases List.mem_cons.mp h with rfl | h
      · exact List.forall_mem_nil _
      · exact fun a ha => ⟨(ih h a ha).1, List.mem_cons_of_mem _ (ih h a ha).2⟩
    | false =>
      rw [hx, if_neg Bool.false_ne_true] at h
      obtain ⟨first, rest, hsplit⟩ := List.exists_cons_of_ne_nil (List.splitOnP_ne_nil p l)
      rw [hsplit] at ih h
      have hmem : ∀ {piece}, piece ∈ first :: rest → ∀ a ∈ piece, p a = false ∧ a ∈ x :: l :=
        fun hpiece a ha => ⟨(ih hpiece a ha).1, List.mem_cons_of_mem _ (ih hpiece a ha).2⟩
      rcases List.mem_cons.mp h with rfl | h
      · exact List.forall_mem_cons.mpr
          ⟨⟨hx, List.mem_cons_self⟩, hmem List.mem_cons_self⟩
      · exact hmem (List.mem_cons_of_mem _ h)

theorem groups_ok {text : List Char} {group : List (List Char)} (h : group ∈ groups text) :
    2 ≤ group.length ∧ (∀ label ∈ group, IsLabel label) ∧
      ∀ label ∈ group, ∀ c ∈ label, c ∈ text := by
  obtain ⟨h, htwo⟩ := List.mem_filter.mp h
  obtain ⟨run, hrun, hgroup⟩ := List.mem_flatMap.mp h
  have hchar : ∀ label ∈ group, ∀ c ∈ label, isLabelChar c = true ∧ c ∈ text := by
    intro label hlabel c hc
    obtain ⟨hdot, hmem⟩ := of_mem_splitOnP (of_mem_splitOnP hgroup label hlabel).2 c hc
    obtain ⟨hhost, htext⟩ := of_mem_splitOnP hrun c hmem
    -- Neither a separator nor a dot.
    have hbne : (c != '.') = true := by rw [bne, hdot]; rfl
    rw [isSeparator, hbne, Bool.and_true, Bool.not_eq_false'] at hhost
    exact ⟨hhost, htext⟩
  refine ⟨of_decide_eq_true htwo, fun label hlabel => ⟨fun hempty => ?_, fun c hc => ?_⟩,
    fun label hlabel c hc => (hchar label hlabel c hc).2⟩
  · have hnot := (of_mem_splitOnP hgroup label hlabel).1
    rw [hempty] at hnot
    exact Bool.false_ne_true hnot.symm
  · exact (hchar label hlabel c hc).1

theorem join_cons {rest : List (List Char)} (h : rest ≠ []) :
    join (label :: rest) = label ++ '.' :: join rest := by
  cases rest with
  | nil => exact absurd rfl h
  | cons l rest => rfl

theorem IsLabel.of_join (hne : labels ≠ []) (h : ∀ label ∈ labels, IsLabel label) :
    ∃ label more, IsLabel label ∧ join labels = label ++ more := by
  cases labels with
  | nil => exact absurd rfl hne
  | cons label rest =>
    obtain ⟨hlabel, -⟩ := List.forall_mem_cons.mp h
    cases rest with
    | nil => exact ⟨label, [], hlabel, (List.append_nil label).symm⟩
    | cons l rest => exact ⟨label, _, hlabel, rfl⟩

/-! ## What is taken -/

theorem isLabelChar_facts {c : Char} (h : isLabelChar c = true) :
    c.toNat < 128 ∧ c.toLower = c := by
  have hsmall : c.toNat < 128 := by
    unfold isLabelChar at h
    simp only [Bool.or_eq_true, beq_iff_eq] at h
    rcases h with (h | h) | h
    · have hle := (Bool.and_eq_true_iff.mp h).2
      have hle : c.toNat ≤ 'z'.toNat := of_decide_eq_true hle
      exact Nat.lt_of_le_of_lt hle (by decide)
    · have hle := (Bool.and_eq_true_iff.mp h).2
      have hle : c.toNat ≤ '9'.toNat := of_decide_eq_true hle
      exact Nat.lt_of_le_of_lt hle (by decide)
    · rw [h]
      decide
  have hall : ∀ n < 128, isLabelChar (Char.ofNat n) = true →
      (Char.ofNat n).toLower = Char.ofNat n := by decide
  have hlower := hall c.toNat hsmall
  rw [Char.ofNat_toNat] at hlower
  exact ⟨hsmall, hlower h⟩

variable (h : ∀ label ∈ labels, IsLabel label)
include h

theorem mem_join : ∀ c ∈ join labels, isLabelChar c = true ∨ c = '.' := by
  induction labels with
  | nil => exact List.forall_mem_nil _
  | cons label rest ih =>
    obtain ⟨hlabel, hrest⟩ := List.forall_mem_cons.mp h
    intro c hc
    cases rest with
    | nil => exact .inl (hlabel.2 c hc)
    | cons l rest =>
      rw [join_cons (List.cons_ne_nil _ _), List.mem_append, List.mem_cons] at hc
      rcases hc with hc | hc | hc
      · exact .inl (hlabel.2 c hc)
      · exact .inr hc
      · exact ih hrest c hc

theorem splitOn_join (hne : labels ≠ []) : (join labels).splitOn '.' = labels := by
  have hdotless : ∀ {label : List Char}, IsLabel label → '.' ∉ label := fun hlabel hmem =>
    absurd (hlabel.2 _ hmem) (by decide)
  induction labels with
  | nil => exact absurd rfl hne
  | cons label rest ih =>
    obtain ⟨hlabel, hrest⟩ := List.forall_mem_cons.mp h
    cases rest with
    | nil => exact List.splitOn_eq_singleton (hdotless hlabel)
    | cons l rest =>
      rw [join_cons (List.cons_ne_nil _ _), List.splitOn_append_cons_self,
        List.splitOn_eq_singleton (hdotless hlabel), ih hrest (List.cons_ne_nil _ _)]
      rfl

theorem getLast?_join : (join labels).getLast? ≠ some '.' := by
  induction labels with
  | nil => exact (Option.some_ne_none _).symm
  | cons label rest ih =>
    obtain ⟨hlabel, hrest⟩ := List.forall_mem_cons.mp h
    cases rest with
    | nil =>
      intro hlast
      exact absurd (hlabel.2 _ (List.mem_of_getLast? hlast)) (by decide)
    | cons l rest =>
      obtain ⟨first, more, hfirst, hjoin⟩ := IsLabel.of_join (List.cons_ne_nil l rest) hrest
      have hne : join (l :: rest) ≠ [] := by
        rw [hjoin]
        exact List.append_ne_nil_of_left_ne_nil hfirst.1 _
      rw [join_cons (List.cons_ne_nil _ _), List.getLast?_append_of_ne_nil _ (List.cons_ne_nil _ _),
        List.getLast?_cons_of_ne_nil hne]
      exact ih hrest

omit h

/-- A host without a port and without a dot behind it, in lower case, is left as it is. -/
theorem normalized_join (lowering : Lowering) (h : ∀ label ∈ labels, IsLabel label) :
    stripDot (stripPort (lowering.lower (join labels))) = join labels := by
  have hascii : ∀ c ∈ join labels, c.toNat < 128 := by
    intro c hc
    rcases mem_join h c hc with hlabel | rfl
    · exact (isLabelChar_facts hlabel).1
    · decide
  have hlower : lowering.lower (join labels) = join labels := by
    rw [lowering.ascii _ hascii]
    refine (List.map_congr_left fun c hc => ?_).trans (List.map_id _)
    rcases mem_join h c hc with hlabel | rfl
    · exact (isLabelChar_facts hlabel).2
    · rfl
  have hport : stripPort (join labels) = join labels := by
    unfold stripPort
    refine if_neg fun hcolon => ?_
    have hcolon := of_decide_eq_true (Bool.and_eq_true_iff.mp hcolon).2
    have hmem : ':' ∈ join labels := List.mem_of_mem_take (List.mem_of_getLast? hcolon)
    rcases mem_join h _ hmem with hlabel | hdot
    · exact absurd hlabel (by decide)
    · exact absurd hdot (by decide)
  rw [hlower, hport, stripDot, if_neg (getLast?_join h)]

/-- `parseHost` of a group. -/
theorem parseHost_join (lowering : Lowering) (h : ∀ label ∈ labels, IsLabel label)
    (htwo : 2 ≤ labels.length) :
    parseHost lowering (join labels) = some
      (if isIpAddress (join labels) then
        { host := join labels, baseDomain := join labels, rootName := none, isIp := true }
      else
        { host := join labels,
          baseDomain := join (labels.drop (labels.length - suffixCount labels - 1)),
          rootName := labels[labels.length - suffixCount labels - 1]?, isIp := false }) := by
  have hne : labels ≠ [] := List.ne_nil_of_length_pos (Nat.lt_of_lt_of_le (by decide) htwo)
  have hsome : (join labels).isEmpty = false := by
    obtain ⟨label, more, hlabel, hjoin⟩ := IsLabel.of_join hne h
    rw [hjoin, List.isEmpty_eq_false_iff]
    exact List.append_ne_nil_of_left_ne_nil hlabel.1 _
  have hlong : labels.length ≠ 1 := by omega
  unfold parseHost
  simp only [normalized_join lowering h, hsome, splitOn_join h hne, if_neg hlong,
    Bool.false_eq_true, if_false]
  exact (apply_ite some _ _ _).symm

/-- The only inherited name that can be a label. -/
theorem inherited_label (h : IsLabel label) (hname : String.ofList label ∈ inheritedNames) :
    label = "constructor".toList := by
  have hall : (inheritedNames.all fun name =>
      !name.toList.all isLabelChar || name == "constructor") = true := by decide
  have hcase := List.all_eq_true.mp hall _ hname
  have hchars : (String.ofList label).toList.all isLabelChar = true := by
    rw [String.toList_ofList, List.all_eq_true]
    exact h.2
  rw [hchars, Bool.not_true, Bool.false_or, beq_iff_eq] at hcase
  rw [← hcase, String.toList_ofList]

/-- Other labels are looked up as they should be. -/
theorem lookup_label {table : List String} (h : IsLabel label)
    (hother : label ≠ "constructor".toList) :
    lookup table label = true ↔ String.ofList label ∈ table := by
  have hnone : inheritedNames.contains (String.ofList label) = false := by
    refine (Bool.not_eq_true _).mp fun hmem => ?_
    exact hother (inherited_label h (List.contains_iff_mem.mp hmem))
  rw [lookup, hnone, Bool.or_false, List.contains_iff_mem]

section Labels

variable {labels : List (List Char)} (hok : ∀ label ∈ labels, IsLabel label)
  (htwo : 2 ≤ labels.length) (hother : "constructor".toList ∉ labels)

include hok hother

theorem lookup_getD (table : List String) {i : Nat} (hi : i < labels.length) :
    lookup table (labels.getD i []) = true ↔ String.ofList (labels.getD i []) ∈ table := by
  have hmem : labels.getD i [] ∈ labels := by
    rw [List.getD_eq_getElem?_getD, List.getElem?_eq_getElem hi]
    exact List.getElem_mem hi
  exact lookup_label (hok _ hmem) fun heq => hother (heq ▸ hmem)

theorem suffixCount_eq : suffixCount labels
    = if 3 ≤ labels.length ∧ String.ofList (labels.getD (labels.length - 2) []) ∈ multiSld then 2
      else 1 := by
  unfold suffixCount
  by_cases hthree : 3 ≤ labels.length
  · have hlookup := lookup_getD hok hother multiSld (i := labels.length - 2) (by omega)
    simp only [hthree, decide_true, Bool.true_and, hlookup, true_and]
  · simp only [hthree, decide_false, Bool.false_and, Bool.false_eq_true, if_false, false_and]

include htwo

/-- The name of a group is its registrable label. -/
theorem getElem?_registrable :
    labels[labels.length - suffixCount labels - 1]? = some (registrable labels) := by
  have hname : registrable labels = labels.getD (labels.length - suffixCount labels - 1) [] := by
    rw [suffixCount_eq hok hother]
    rfl
  have hlt : labels.length - suffixCount labels - 1 < labels.length := by omega
  rw [hname, List.getD_eq_getElem?_getD, List.getElem?_eq_getElem hlt]
  rfl

theorem close_eq (lowering : Lowering) : close lowering labels
    = if Qualifies labels then parseHost lowering (join labels) else none := by
  have hlast : labels.getLastD [] = labels.getD (labels.length - 1) [] := by
    rw [List.getLastD_eq_getLast?, List.getLast?_eq_getElem?, List.getD_eq_getElem?_getD]
  have htld := lookup_getD hok hother tlds (i := labels.length - 1) (by omega)
  have hroot : lookup genericLabels (registrable labels) = true
      ↔ String.ofList (registrable labels) ∈ genericLabels :=
    lookup_getD hok hother genericLabels (by split <;> omega)
  have hqualifies : Qualifies labels ↔ lookup tlds (labels.getLastD []) = true ∧
      isIpAddress (join labels) = false ∧ 2 ≤ (registrable labels).length ∧
      lookup genericLabels (registrable labels) = false := by
    rw [Qualifies, hlast, ← htld, ← hroot, Bool.not_eq_true]
  rw [if_congr hqualifies rfl rfl, close, if_neg (Nat.not_lt.mpr htwo),
    parseHost_join lowering hok htwo]
  cases lookup tlds (labels.getLastD []) with
  | false => simp
  | true =>
    cases isIpAddress (join labels) with
    | true => simp
    | false =>
      simp only [Bool.false_eq_true, if_false, getElem?_registrable hok htwo hother]
      cases lookup genericLabels (registrable labels) with
      | true => simp
      | false =>
        by_cases hlong : 2 ≤ (registrable labels).length
        · simp [hlong, Nat.not_lt.mpr hlong]
        · simp [hlong, Nat.not_le.mp hlong]

end Labels

/-- Lower-casing of ASCII only. -/
def asciiLowering : Lowering := ⟨fun text => text.map Char.toLower, fun _ _ => rfl⟩

end QsBitwarden.Panel.Domains
