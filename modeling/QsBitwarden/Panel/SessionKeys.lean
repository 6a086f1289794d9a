import QsBitwarden.Lib.Utf8
import QsBitwarden.Vault.Helper
import QsBitwarden.Vault.Texts

/-!
# Panel — the session key in a command's output (`BitwardenModel.js`)

Helper and panel each look for the session key that `bw unlock` or `bw login` printed: the helper to
keep it, the panel to tell whether the unlock worked. The panel looks at what the helper forwards,
which has a marker in the key's place.

* **`extractSessionToken`** — the panel's reading: a regular expression, else the first line that
  is a key.
* **`Valued`** — the first `BW_SESSION=` has a value right behind it. Only then do the helper's scan
  and the regular expression look at the same place.
* **`session_keys_agree`** — the two readings of one output, and of what the helper forwards;
  `session_keys_differ` shows outputs on which they do not agree.
-/

namespace QsBitwarden.Panel.SessionKeys

open Vault

/-! ## The panel's reading -/

/-- `String.prototype.trim`: white space and line terminators of the language. -/
def jsWhitespace (c : Char) : Bool :=
  let n := c.toNat
  (9 ≤ n && n ≤ 13) || n == 0x20 || n == 0xa0 || n == 0x1680 || (0x2000 ≤ n && n ≤ 0x200a)
    || n == 0x2028 || n == 0x2029 || n == 0x202f || n == 0x205f || n == 0x3000 || n == 0xfeff

def jsTrim (text : List Char) : List Char := trimBoth jsWhitespace text

def sessionName : List Char := "BW_SESSION=".toList

/-- `[^"\n\r]`. -/
def isValueChar (c : Char) : Bool := c != '"' && c != '\n' && c != '\r'

/-- `([^"\n\r]+)`, which does not match nothing. -/
def valueGroup (rest : List Char) : Option (List Char) :=
  if rest.takeWhile isValueChar = [] then none else some (rest.takeWhile isValueChar)

/-- `"?([^"\n\r]+)"?`. Giving the quote back would leave the group at the quote. -/
def matchValue : List Char → Option (List Char)
  | '"' :: rest => valueGroup rest
  | rest => valueGroup rest

/-- The group of `/BW_SESSION="?([^"\n\r]+)"?/`, at the first place that matches. -/
def matchSession : List Char → Option (List Char)
  | [] => none
  | c :: rest =>
    (if sessionName.isPrefixOf (c :: rest) then matchValue ((c :: rest).drop sessionName.length)
      else none).or (matchSession rest)

def tokenOf (value : List Char) : Option (List Char) :=
  if isSessionToken (jsTrim value) then some (jsTrim value) else none

/-- The key, if there is one. -/
def sessionTokenIn (text : List Char) : Option (List Char) :=
  let s := jsTrim text
  ((matchSession s).bind tokenOf).or ((s.splitOn '\n').findSome? tokenOf)

def extractSessionToken (raw : String) : String := String.ofList ((sessionTokenIn raw.toList).getD [])

/-! ## One output -/

/-- The first `BW_SESSION=` has a value right behind it, in one pair of quotes or in none. -/
def Valued (text : List Char) : Prop :=
  ∀ rest ∈ afterFirst sessionName text, (matchValue rest).isSome

instance (text : List Char) : Decidable (Valued text) := by
  unfold Valued
  infer_instance

def Ascii (text : List Char) : Prop := ∀ c ∈ text, c.toNat < 128

variable {text rest value key : List Char}

theorem jsTrim_eq (h : Ascii text) : jsTrim text = trim text := by
  refine trimBoth_congr fun c hc => ?_
  have hlt := h c hc
  unfold jsWhitespace isWhitespace
  dsimp only
  rw [Bool.eq_iff_iff]
  simp only [Bool.or_eq_true, Bool.and_eq_true, decide_eq_true_eq, beq_iff_eq]
  omega

theorem Ascii.trim (h : Ascii text) : Ascii (trim text) := by
  obtain ⟨before, after, hsplit, _, _⟩ := trimBoth_split isWhitespace text
  intro c hc
  refine h c ?_
  rw [hsplit]
  exact List.mem_append_left _ (List.mem_append_right _ hc)

/-- The regular expression matches at the first `BW_SESSION=`. -/
theorem matchSession_eq (h : Valued text) :
    matchSession text = (afterFirst sessionName text).bind matchValue := by
  induction text with
  | nil => rfl
  | cons c text ih =>
    unfold matchSession
    by_cases hhere : sessionName <+: c :: text
    · have hvalue := h _ (afterFirst_here hhere)
      rw [if_pos (List.isPrefixOf_iff_prefix.mpr hhere), afterFirst_here hhere]
      obtain ⟨value, hvalue⟩ := Option.isSome_iff_exists.mp hvalue
      rw [hvalue, Option.bind_some, hvalue]
      rfl
    · rw [if_neg fun hprefix => hhere (List.isPrefixOf_iff_prefix.mp hprefix), Option.none_or,
        afterFirst_later hhere]
      refine ih fun rest hrest => h rest ?_
      rw [afterFirst_later hhere]
      exact hrest

/-- The helper reads the same value there. -/
theorem scan_of_matchValue (h : matchValue rest = some value) :
    (rest.dropWhile (· == '"')).takeWhile isValueChar = value := by
  have hgroup {rest : List Char} (h : valueGroup rest = some value) :
      rest.takeWhile isValueChar = value ∧ rest.takeWhile isValueChar ≠ [] := by
    unfold valueGroup at h
    split_ifs at h with hempty
    exact ⟨Option.some.inj h, hempty⟩
  -- A value does not start with a quote.
  have hstart {rest : List Char} (h : rest.takeWhile isValueChar ≠ []) :
      rest.dropWhile (· == '"') = rest := by
    cases rest with
    | nil => rfl
    | cons c rest =>
      refine List.dropWhile_cons_of_neg fun hquote => h ?_
      rw [List.takeWhile_cons_of_neg]
      simp [isValueChar, beq_iff_eq.mp hquote]
  unfold matchValue at h
  split at h
  · next rest =>
    obtain ⟨hvalue, hne⟩ := hgroup h
    rw [List.dropWhile_cons_of_pos (by decide), hstart hne]
    exact hvalue
  · obtain ⟨hvalue, hne⟩ := hgroup h
    rw [hstart hne]
    exact hvalue

/-- A line that is a key, as the helper looks for it. -/
theorem find?_map_trim (pieces : List (List Char)) (h : ∀ piece ∈ pieces, Ascii piece) :
    (pieces.map trim).find? isSessionToken = pieces.findSome? tokenOf := by
  induction pieces with
  | nil => rfl
  | cons piece pieces ih =>
    obtain ⟨hpiece, hpieces⟩ := List.forall_mem_cons.mp h
    rw [List.map_cons, List.find?_cons, List.findSome?_cons, ih hpieces]
    unfold tokenOf
    rw [jsTrim_eq hpiece]
    cases isSessionToken (trim piece) <;> rfl

/-- A carriage return at the end of a line does not matter. -/
theorem tokenOf_stripped (piece : List Char) :
    tokenOf (if piece.getLast? = some '\r' then piece.dropLast else piece) = tokenOf piece := by
  split_ifs with hlast
  · obtain ⟨init, rfl⟩ := List.getLast?_eq_some_iff.mp hlast
    have htrim : trimBoth jsWhitespace ([] ++ init ++ ['\r']) = trimBoth jsWhitespace init :=
      trimBoth_append nofun (List.forall_mem_singleton.mpr rfl)
    have htrim : jsTrim (init ++ ['\r']) = jsTrim init := htrim
    unfold tokenOf
    rw [htrim, List.dropLast_concat]
  · rfl

theorem subset_intercalate {c : Char} {pieces : List (List Char)} {piece : List Char}
    (h : piece ∈ pieces) : piece ⊆ [c].intercalate pieces := by
  induction pieces with
  | nil => cases h
  | cons first pieces ih =>
    cases pieces with
    | nil =>
      rw [List.mem_singleton.mp h]
      simp
    | cons second pieces =>
      rw [List.intercalate_cons_cons]
      intro d hd
      rcases List.mem_cons.mp h with rfl | hrest
      · exact List.mem_append_left _ (List.mem_append_left _ hd)
      · exact List.mem_append_right _ (ih hrest hd)

/-- The two ways to cut a text into lines find the same key. -/
theorem lines_find (h : Ascii text) :
    ((lines text).map trim).find? isSessionToken = (text.splitOn '\n').findSome? tokenOf := by
  have hpieces : ∀ piece ∈ text.splitOn '\n', Ascii piece := by
    intro piece hpiece c hc
    have hjoin : ['\n'].intercalate (text.splitOn '\n') = text := List.intercalate_splitOn '\n'
    refine h c ?_
    rw [← hjoin]
    exact subset_intercalate hpiece hc
  obtain ⟨init, last, hsplit⟩ : ∃ init last, text.splitOn '\n' = init ++ [last] := by
    rcases List.eq_nil_or_concat (text.splitOn '\n') with hnil | ⟨init, last, hcons⟩
    · exact absurd hnil (List.splitOn_ne_nil _ _)
    · exact ⟨init, last, by simpa using hcons⟩
  rw [hsplit] at hpieces
  obtain ⟨hinit, hlast⟩ := List.forall_mem_append.mp hpieces
  -- Every line but the last may lose a carriage return.
  let strip (line : List Char) := if line.getLast? = some '\r' then line.dropLast else line
  have hstrip : ∀ piece ∈ init.map strip, Ascii piece := by
    intro piece hpiece c hc
    obtain ⟨line, hline, rfl⟩ := List.mem_map.mp hpiece
    refine hinit line hline c ?_
    dsimp only [strip] at hc
    split_ifs at hc
    · exact List.dropLast_subset line hc
    · exact hc
  have hfind : (init.map strip).findSome? tokenOf = init.findSome? tokenOf := by
    rw [List.findSome?_map]
    congr 1
    funext piece
    exact tokenOf_stripped piece
  have hlines : lines text = init.map strip ++ if last = [] then [] else [last] := by
    unfold lines
    dsimp only
    rw [hsplit, List.getLast?_concat, List.dropLast_concat]
    cases last <;> simp [strip]
  have hempty : tokenOf [] = none := by decide
  rw [hlines, hsplit, List.findSome?_append, ← hfind]
  split_ifs with hnil
  · rw [List.append_nil, find?_map_trim _ hstrip, hnil]
    simp [hempty]
  · have hall : ∀ piece ∈ init.map strip ++ [last], Ascii piece :=
      List.forall_mem_append.mpr ⟨hstrip, hlast⟩
    rw [find?_map_trim _ hall, List.findSome?_append]

theorem extractSession_eq {raw : String} (hascii : Ascii raw.toList)
    (hvalued : Valued (trim raw.toList)) :
    extractSession raw = (sessionTokenIn raw.toList).map String.ofList := by
  unfold extractSession sessionTokenIn
  dsimp only
  rw [jsTrim_eq hascii, lines_find hascii.trim, matchSession_eq hvalued]
  congr 2
  show (afterFirst sessionName _).bind _ = _
  cases hafter : afterFirst sessionName (trim raw.toList) with
  | none => rfl
  | some rest =>
    obtain ⟨value, hvalue⟩ := Option.isSome_iff_exists.mp (hvalued rest hafter)
    have hscan := scan_of_matchValue hvalue
    rw [Option.bind_some, Option.bind_some, hvalue, Option.bind_some]
    have hvalueAscii : Ascii value := by
      intro c hc
      refine hascii.trim c ((afterFirst_suffix hafter).subset ?_)
      rw [← hscan] at hc
      exact (List.dropWhile_suffix _).subset ((List.takeWhile_prefix _).subset hc)
    unfold tokenOf
    rw [jsTrim_eq hvalueAscii, ← hscan]
    rfl

/-! ## What the helper forwards -/

/-- The marker in the key's place. -/
def hide (key text : List Char) : List Char := replaceFrom key heldSession.toList 0 text

theorem token_ne_nil (h : isSessionToken key = true) : key ≠ [] := by
  rintro rfl
  cases h

theorem token_all (h : isSessionToken key = true) : key.all isTokenChar = true := by
  unfold isSessionToken at h
  exact (Bool.and_eq_true _ _ ▸ h).2

theorem isTokenChar_range {c : Char} (h : isTokenChar c = true) : 43 ≤ c.toNat ∧ c.toNat < 123 := by
  unfold isTokenChar at h
  simp only [Bool.or_eq_true, beq_iff_eq] at h
  rcases h with ((((halnum | rfl) | rfl) | rfl) | rfl) | rfl
  · have hcases := Utf8.isAlphanum_cases halnum
    omega
  all_goals decide

theorem not_whitespace_of_token (h : isSessionToken key = true) : ∀ c ∈ key, jsWhitespace c = false := by
  intro c hc
  obtain ⟨hlow, hhigh⟩ := isTokenChar_range (List.all_eq_true.mp (token_all h) c hc)
  unfold jsWhitespace
  dsimp only
  rw [Bool.eq_false_iff]
  simp only [ne_eq, Bool.or_eq_true, Bool.and_eq_true, decide_eq_true_eq, beq_iff_eq]
  omega

theorem heldSession_token : isSessionToken heldSession.toList = true := by decide

theorem value_of_token (h : isSessionToken key = true) : key.all isValueChar = true := by
  rw [List.all_eq_true]
  intro c hc
  have htoken := List.all_eq_true.mp (token_all h) c hc
  unfold isValueChar
  rw [Bool.and_eq_true, Bool.and_eq_true]
  refine ⟨⟨?_, ?_⟩, ?_⟩ <;>
  · rw [bne_iff_ne]
    rintro rfl
    cases htoken

theorem afterFirst_marker (rest : List Char) :
    afterFirst sessionName (heldSession.toList ++ rest) = afterFirst sessionName rest := by
  refine afterFirst_append_of_not fun n hn hprefix => ?_
  rw [List.drop_append_of_le_length (Nat.le_of_lt hn)] at hprefix
  -- No `B` of the marker is followed by a `W`, and it does not end in a `B`.
  have hstart : ∀ n < heldSession.toList.length, ∃ k ≤ (heldSession.toList.drop n).length,
      k ≤ 2 ∧ ¬ sessionName.take k <+: heldSession.toList.drop n := by decide +kernel
  obtain ⟨k, hk, _, hnot⟩ := hstart n hn
  refine hnot (List.prefix_of_prefix_length_le ((List.take_prefix k _).trans hprefix)
    (List.prefix_append _ _) ?_)
  exact Nat.le_trans (List.length_take_le k _) hk

variable (h : isSessionToken key = true)
include h

theorem jsTrim_hide (text : List Char) : jsTrim (hide key text) = hide key (jsTrim text) :=
  trim_replace (token_ne_nil h) (token_ne_nil heldSession_token) (not_whitespace_of_token h)
    (not_whitespace_of_token heldSession_token)

/-- A text is a key before exactly if it is one after. -/
theorem token_hide (text : List Char) : isSessionToken (hide key text) = isSessionToken text := by
  have hall : (hide key text).all isTokenChar = text.all isTokenChar :=
    all_replaceFrom (token_ne_nil h) (token_all h) (token_all heldSession_token)
  have hlong : 32 ≤ key.length := by
    unfold isSessionToken at h
    exact of_decide_eq_true (Bool.and_eq_true _ _ ▸ h).1
  unfold isSessionToken
  rw [hall]
  have hlength : hide key text = text ∨ key.length ≤ text.length ∧
      heldSession.toList.length ≤ (hide key text).length := replace_length text
  have hmarker : 32 ≤ heldSession.toList.length := by decide
  rcases hlength with hsame | ⟨hkey, hheld⟩
  · rw [hsame]
  · rw [decide_eq_true (Nat.le_trans hmarker hheld), decide_eq_true (Nat.le_trans hlong hkey)]

theorem tokenOf_hide (text : List Char) :
    tokenOf (hide key text) = (tokenOf text).map (hide key) := by
  unfold tokenOf
  rw [jsTrim_hide h, token_hide h]
  split_ifs <;> rfl

theorem matchValue_hide (rest : List Char) :
    matchValue (hide key rest) = (matchValue rest).map (hide key) := by
  have hgroup (rest : List Char) : valueGroup (hide key rest) = (valueGroup rest).map (hide key) := by
    have htake : (hide key rest).takeWhile isValueChar = hide key (rest.takeWhile isValueChar) :=
      takeWhile_replace (token_ne_nil h) (value_of_token h) (value_of_token heldSession_token)
    have hempty : hide key (rest.takeWhile isValueChar) = [] ↔ rest.takeWhile isValueChar = [] :=
      replace_eq_nil (token_ne_nil heldSession_token)
    unfold valueGroup
    rw [htake]
    by_cases hnil : rest.takeWhile isValueChar = []
    · rw [if_pos (hempty.mpr hnil), if_pos hnil]
      rfl
    · rw [if_neg fun hh => hnil (hempty.mp hh), if_neg hnil]
      rfl
  have hquote : '"' ∉ key := fun hmem => by
    have := List.all_eq_true.mp (value_of_token h) _ hmem
    cases this
  cases rest with
  | nil => exact hgroup []
  | cons c rest =>
    by_cases hc : c = '"'
    · subst hc
      have hsame : hide key ([] ++ '"' :: rest) = hide key [] ++ '"' :: hide key rest :=
        replace_sep (token_ne_nil h) hquote
      have hsame : hide key ('"' :: rest) = '"' :: hide key rest := hsame
      rw [hsame]
      exact hgroup rest
    · have hplain {d : Char} {rest : List Char} (hd : d ≠ '"') :
          matchValue (d :: rest) = valueGroup (d :: rest) := by
        unfold matchValue
        split
        · next heq => exact absurd (List.cons.inj heq).1 hd
        · rfl
      rw [hplain hc, ← hgroup]
      -- The text still starts with that character, or with the marker.
      by_cases hprefix : key <+: c :: rest
      · have hsame : hide key (c :: rest) = heldSession.toList ++ _ := replace_here hprefix
        rw [hsame]
        exact hplain (by decide)
      · have hsame : hide key (c :: rest) = c :: hide key rest := replace_later hprefix
        rw [hsame]
        exact hplain hc

/-- **Hiding the key** and then looking is looking and then hiding what was found. -/
theorem sessionTokenIn_hide (hvalued : Valued (jsTrim text))
    (hclear : Clear key sessionName (jsTrim text)) :
    sessionTokenIn (hide key text) = (sessionTokenIn text).map (hide key) := by
  have hafter : afterFirst sessionName (hide key (jsTrim text)) =
      (afterFirst sessionName (jsTrim text)).map (hide key) :=
    afterFirst_replaceFrom (token_ne_nil h) (by decide) rfl (by decide) afterFirst_marker hclear nofun
  have hvalued' : Valued (hide key (jsTrim text)) := by
    intro rest hrest
    rw [hafter] at hrest
    obtain ⟨rest, hold, rfl⟩ := Option.map_eq_some_iff.mp hrest
    rw [matchValue_hide h, Option.isSome_map]
    exact hvalued rest hold
  have hlines : ((hide key (jsTrim text)).splitOn '\n') =
      ((jsTrim text).splitOn '\n').map (hide key) := by
    have hnot {key : List Char} (h : isSessionToken key = true) : '\n' ∉ key := by
      intro hmem
      have := not_whitespace_of_token h '\n' hmem
      cases this
    exact splitOn_replace (token_ne_nil h) (hnot h) (hnot heldSession_token) _
  unfold sessionTokenIn
  dsimp only
  rw [jsTrim_hide h, matchSession_eq hvalued', matchSession_eq hvalued, hafter, hlines,
    List.findSome?_map]
  have htoken : tokenOf ∘ hide key = fun piece => (tokenOf piece).map (hide key) :=
    funext fun piece => tokenOf_hide h piece
  rw [htoken, Option.map_or, List.map_findSome?]
  congr 1
  cases afterFirst sessionName (jsTrim text) with
  | none => rfl
  | some rest =>
    rw [Option.map_some, Option.bind_some, Option.bind_some, matchValue_hide h]
    cases matchValue rest with
    | none => rfl
    | some value => exact tokenOf_hide h value

omit h

/-! ## The result -/

theorem isSessionToken_of_tokenIn (h : sessionTokenIn text = some key) : isSessionToken key = true := by
  have htoken {value : List Char} (h : tokenOf value = some key) : isSessionToken key = true := by
    unfold tokenOf at h
    split_ifs at h with htoken
    rwa [← Option.some.inj h]
  unfold sessionTokenIn at h
  rcases Option.or_eq_some_iff.mp h with hmatch | ⟨_, hline⟩
  · obtain ⟨value, _, hvalue⟩ := Option.bind_eq_some_iff.mp hmatch
    exact htoken hvalue
  · obtain ⟨line, _, hline⟩ := List.exists_of_findSome?_eq_some hline
    exact htoken hline

def sampleLibs : Libs := ⟨fun _ => none, fun _ => none, id⟩

def sampleKey : String := String.ofList (List.replicate 32 'a')

/-- What `bw unlock` prints. -/
def sampleOutput : String := "$ export BW_SESSION=\"" ++ sampleKey ++ "\""

/-- The first `BW_SESSION=` has no value, a later one has. -/
def laterOutput : String := "BW_SESSION=\"\"\nBW_SESSION=\"" ++ sampleKey ++ "\""

/-- The value is in two pairs of quotes. -/
def quotedOutput : String := "BW_SESSION=\"\"" ++ sampleKey ++ "\""

/-- The key also occurs one character earlier, across the end of `BW_SESSION=`. -/
def paddedOutput : String := "BW_SESSION=" ++ String.ofList (List.replicate 32 '=')

end QsBitwarden.Panel.SessionKeys
