import Mathlib.Data.List.Nodup
import Mathlib.Data.Rat.Floor
import QsBitwarden.Lib.Trace

/-!
# Panel — the account registry (`BitwardenModel.js`)

Which slots hold which account, and the active one. The registry is noted, cut and switched by the
panel, and kept in a file between its runs.

* **`registryNoteAccount`**, **`registryRemoveAccount`**, **`registrySetActive`** — the three
  changes; `machine` is any sequence of them from the empty registry.
* **`Sound`** — slots valid and distinct, a bounded number of entries, no account twice.
* **`Writable`** — the entries are as the parser would make them, so the file keeps them.
* **`registry_invariants`** — both hold along every run, and what a note retires and refuses.

A text is the list of its UTF-16 units: `slice` may cut a pair in two. `version` is 1 everywhere and
left out.
-/

namespace QsBitwarden.Panel.Accounts

abbrev Text := List UInt16

/-- The units of an ASCII literal. -/
def ascii (s : String) : Text := s.toList.map fun c => UInt16.ofNat c.toNat

/-- A finite number is a rational one. -/
inductive Number where
  | nan
  | posInf
  | negInf
  | finite (q : Rat)
  deriving DecidableEq

/-- `Math.max(0, Math.floor(n) || 0)`. -/
def stamp : Number → Number
  | .nan | .negInf => .finite 0
  | .posInf => .posInf
  | .finite q => .finite (max 0 ⌊q⌋ : Int)

/-- What JSON can express. -/
inductive Value where
  | null
  | bool (b : Bool)
  | number (q : Rat)
  | string (t : Text)
  | array (items : List Value)
  | object (fields : List (String × Value))

/-- The engine: JSON texts of a type `τ`, and how it reads a value as a number or a text. -/
structure Engine (τ : Type) where
  parse : τ → Option Value
  stringify : Value → τ
  numberOf : Value → Number
  stringOf : Value → Text
  parse_stringify : ∀ v, parse (stringify v) = some v
  numberOf_number : ∀ q, numberOf (.number q) = .finite q
  stringOf_string : ∀ t, stringOf (.string t) = t

/-! ## The registry -/

def defaultAccountSlot : Text := ascii "default"

def maxAccounts : Nat := 10

def isHexUnit (u : UInt16) : Bool :=
  (48 ≤ u.toNat && u.toNat ≤ 57) || (97 ≤ u.toNat && u.toNat ≤ 102)

def isAccountSlot (slot : Text) : Bool :=
  slot == defaultAccountSlot || (slot.length == 16 && slot.all isHexUnit)

/-- A slot that is no text is like one that is not valid. -/
def accountSlot (slot : Text) : Text := if isAccountSlot slot then slot else defaultAccountSlot

def isControlUnit (u : UInt16) : Bool := u.toNat ≤ 0x1f || u.toNat == 0x7f

/-- `value` is `String(value)`, empty for `undefined` and `null`. -/
def cleanAccountText (value : Text) (max : Nat) : Text :=
  (value.filter fun u => !isControlUnit u).take max

structure Entry where
  slot : Text
  email : Text
  userId : Text
  server : Text
  lastUsed : Number
  deriving DecidableEq

structure Registry where
  active : Text
  accounts : List Entry
  deriving DecidableEq

def emptyAccountRegistry : Registry := ⟨defaultAccountSlot, []⟩

def copyAccountRegistry (r : Registry) : Registry := { r with active := accountSlot r.active }

def registryAccount (accounts : List Entry) (slot : Text) : Option Entry :=
  accounts.find? fun a => a.slot = slot

/-- `f` on the entry that `registryAccount` finds, in place. -/
def updateAccount (slot : Text) (f : Entry → Entry) : List Entry → List Entry
  | [] => []
  | a :: rest => if a.slot = slot then f a :: rest else a :: updateAccount slot f rest

/-! ## Changes -/

/-- What `bw status` says a slot holds. -/
structure Info where
  email : Text
  userId : Text
  server : Text
  deriving DecidableEq

structure Noted where
  registry : Registry
  retired : List Text
  full : Bool
  deriving DecidableEq

/-- `a || b` of texts. -/
def orText (a b : Text) : Text := if a = [] then b else a

/-- Another slot that holds the same account. -/
def isRetired (slot userId server : Text) (a : Entry) : Bool :=
  decide (a.slot ≠ slot) && decide (userId ≠ []) && decide (a.userId = userId)
    && decide (a.server = server)

/-- The entry after a note. -/
def noteEntry (info : Info) (now : Number) (entry : Entry) : Entry :=
  { entry with
    email := orText (cleanAccountText info.email 320) entry.email
    userId := orText (cleanAccountText info.userId 128) entry.userId
    server := cleanAccountText info.server 512
    lastUsed := stamp now }

def registryNoteAccount (registry : Registry) (slot : Text) (info : Info) (now : Number) : Noted :=
  let r := copyAccountRegistry registry
  let s := accountSlot slot
  let retires := isRetired s (cleanAccountText info.userId 128) (cleanAccountText info.server 512)
  let retired := (r.accounts.filter retires).map (·.slot)
  let kept := r.accounts.filter fun a => !retires a
  if (registryAccount kept s).isNone then
    if maxAccounts ≤ kept.length then ⟨registry, [], true⟩
    else
      let accounts := kept ++ [⟨s, [], [], [], .finite 0⟩]
      ⟨⟨s, updateAccount s (noteEntry info now) accounts⟩, retired, false⟩
  else ⟨⟨s, updateAccount s (noteEntry info now) kept⟩, retired, false⟩

def registryRemoveAccount (registry : Registry) (slot : Text) : Registry :=
  let r := copyAccountRegistry registry
  { r with accounts := r.accounts.filter fun a => a.slot ≠ slot }

/-- `now` may be left out. -/
def registrySetActive (registry : Registry) (slot : Text) (now : Option Number) : Registry :=
  let r := copyAccountRegistry registry
  let active := accountSlot slot
  match now with
  | none => { r with active }
  | some now => ⟨active, updateAccount active (fun a => { a with lastUsed := stamp now }) r.accounts⟩

/-! ## The file -/

section File

variable {τ : Type} (engine : Engine τ)

/-- A number that is not finite is written as `null`. -/
def writeNumber : Number → Value
  | .finite q => .number q
  | _ => .null

def writeEntry (a : Entry) : Value :=
  .object [("slot", .string a.slot), ("email", .string a.email), ("userId", .string a.userId),
    ("server", .string a.server), ("lastUsed", writeNumber a.lastUsed)]

def serializeAccountRegistry (r : Registry) : τ :=
  engine.stringify (.object [("version", .number 1), ("active", .string (accountSlot r.active)),
    ("accounts", .array (r.accounts.map writeEntry))])

/-- A property. Values other than objects have none of the names that are asked for. -/
def prop (v : Value) (name : String) : Option Value :=
  match v with
  | .object fields => fields.lookup name
  | _ => none

/-- `Number(v)` of a property. -/
def numberProp (v : Value) (name : String) : Number :=
  match prop v name with
  | none => .nan
  | some v => engine.numberOf v

/-- `String(v)` of a property, empty for `undefined` and `null`. -/
def textProp (v : Value) (name : String) : Text :=
  match prop v name with
  | none | some .null => []
  | some v => engine.stringOf v

/-- A property that is a valid slot. -/
def slotProp (v : Value) (name : String) : Option Text :=
  match prop v name with
  | some (.string slot) => if isAccountSlot slot then some slot else none
  | _ => none

def readEntry (v : Value) (slot : Text) : Entry where
  slot := slot
  email := cleanAccountText (textProp engine v "email") 320
  userId := cleanAccountText (textProp engine v "userId") 128
  server := cleanAccountText (textProp engine v "server") 512
  lastUsed := stamp (numberProp engine v "lastUsed")

/-- The loop over the accounts: `seen` are the slots so far, `out` the entries. -/
def readAccounts (seen : List Text) (out : List Entry) : List Value → List Entry
  | [] => out
  | v :: rest =>
    if maxAccounts ≤ out.length then out
    else
      match slotProp v "slot" with
      | none => readAccounts seen out rest
      | some slot =>
        if slot ∈ seen then readAccounts seen out rest
        else readAccounts (slot :: seen) (out ++ [readEntry engine v slot]) rest

def parseAccountRegistry (raw : τ) : Registry :=
  match engine.parse raw with
  | none => emptyAccountRegistry
  | some parsed =>
    if numberProp engine parsed "version" ≠ .finite 1 then emptyAccountRegistry
    else
      let list := match prop parsed "accounts" with
        | some (.array list) => list
        | _ => []
      ⟨(slotProp parsed "active").getD defaultAccountSlot, readAccounts engine [] [] list⟩

end File

/-! ## Runs -/

inductive Op where
  | note (slot : Text) (info : Info) (now : Number)
  | remove (slot : Text)
  | setActive (slot : Text) (now : Option Number)
  deriving DecidableEq

def Number.Finite : Number → Prop
  | .finite _ => True
  | _ => False

instance : DecidablePred Number.Finite
  | .finite _ => inferInstanceAs (Decidable True)
  | .nan | .posInf | .negInf => inferInstanceAs (Decidable False)

/-- A note has a valid slot, a user and a time. -/
def Op.Valid : Op → Prop
  | .note slot info now =>
    isAccountSlot slot = true ∧ cleanAccountText info.userId 128 ≠ [] ∧ now.Finite
  | _ => True

instance : DecidablePred Op.Valid
  | .note _ _ _ => inferInstanceAs (Decidable (_ ∧ _ ∧ _))
  | .remove _ | .setActive _ _ => inferInstanceAs (Decidable True)

def apply (r : Registry) : Op → Registry
  | .note slot info now => (registryNoteAccount r slot info now).registry
  | .remove slot => registryRemoveAccount r slot
  | .setActive slot now => registrySetActive r slot now

def machine : Trace.Machine Registry Op where
  init := emptyAccountRegistry
  next := apply
  may _ _ op := op.Valid

/-! ## What the changes do to entries -/

theorem isAccountSlot_accountSlot (slot : Text) : isAccountSlot (accountSlot slot) = true := by
  unfold accountSlot
  split
  · next h => exact h
  · decide

theorem accountSlot_of_valid {slot : Text} (h : isAccountSlot slot = true) :
    accountSlot slot = slot := if_pos h

section Update

variable {slot : Text} {f : Entry → Entry} {accounts : List Entry}

theorem map_slot_updateAccount (hf : ∀ a, (f a).slot = a.slot) (accounts : List Entry) :
    (updateAccount slot f accounts).map (·.slot) = accounts.map (·.slot) := by
  induction accounts with
  | nil => rfl
  | cons a rest ih =>
    rw [updateAccount]
    split
    · rw [List.map_cons, List.map_cons, hf]
    · rw [List.map_cons, List.map_cons, ih]

theorem length_updateAccount (accounts : List Entry) :
    (updateAccount slot f accounts).length = accounts.length := by
  induction accounts with
  | nil => rfl
  | cons a rest ih =>
    rw [updateAccount]
    split
    · rfl
    · rw [List.length_cons, List.length_cons, ih]

/-- An entry after an update is the updated one or another slot's as it was. -/
theorem mem_updateAccount (hdistinct : (accounts.map (·.slot)).Nodup) {a : Entry}
    (h : a ∈ updateAccount slot f accounts) :
    (a ∈ accounts ∧ a.slot ≠ slot) ∨ ∃ b ∈ accounts, b.slot = slot ∧ a = f b := by
  induction accounts with
  | nil => cases h
  | cons first rest ih =>
    obtain ⟨hfirst, hrest⟩ := List.nodup_cons.mp hdistinct
    rw [updateAccount] at h
    split at h
    · next hslot =>
      rcases List.mem_cons.mp h with rfl | h
      · exact .inr ⟨first, List.mem_cons_self, hslot, rfl⟩
      · refine .inl ⟨List.mem_cons_of_mem _ h, fun heq => hfirst ?_⟩
        exact List.mem_map.mpr ⟨a, h, heq.trans hslot.symm⟩
    · next hslot =>
      rcases List.mem_cons.mp h with rfl | h
      · exact .inl ⟨List.mem_cons_self, hslot⟩
      · rcases ih hrest h with ⟨hmem, hne⟩ | ⟨b, hb, hb', heq⟩
        · exact .inl ⟨List.mem_cons_of_mem _ hmem, hne⟩
        · exact .inr ⟨b, List.mem_cons_of_mem _ hb, hb', heq⟩

end Update

variable {r : Registry}

/-! ## Sound registries -/

structure Sound (r : Registry) : Prop where
  valid : ∀ a ∈ r.accounts, isAccountSlot a.slot = true
  distinct : (r.accounts.map (·.slot)).Nodup
  bounded : r.accounts.length ≤ maxAccounts
  separate : ∀ a ∈ r.accounts, ∀ b ∈ r.accounts, a.userId = b.userId → a.server = b.server → a = b

/-- As the parser would make it. -/
structure Entry.Clean (a : Entry) : Prop where
  email : cleanAccountText a.email 320 = a.email
  userId : cleanAccountText a.userId 128 = a.userId
  server : cleanAccountText a.server 512 = a.server
  lastUsed : stamp a.lastUsed = a.lastUsed

structure Writable (r : Registry) : Prop where
  active : isAccountSlot r.active = true
  clean : ∀ a ∈ r.accounts, a.Clean

/-- Entries may be left out, and the active slot does not matter. -/
theorem Sound.of_sublist {r' : Registry} (h : Sound r) (hsub : r'.accounts.Sublist r.accounts) :
    Sound r' where
  valid a ha := h.valid a (hsub.subset ha)
  distinct := h.distinct.sublist (hsub.map _)
  bounded := hsub.length_le.trans h.bounded
  separate a ha b hb := h.separate a (hsub.subset ha) b (hsub.subset hb)

theorem Writable.of_subset {r' : Registry} (h : Writable r)
    (hactive : isAccountSlot r'.active = true) (hsub : ∀ a ∈ r'.accounts, a ∈ r.accounts) :
    Writable r' := ⟨hactive, fun a ha => h.clean a (hsub a ha)⟩

/-- An update that leaves slot, user and server alone. -/
theorem Sound.update (h : Sound r) {active slot : Text} {f : Entry → Entry}
    (hslot : ∀ a, (f a).slot = a.slot) (huser : ∀ a, (f a).userId = a.userId)
    (hserver : ∀ a, (f a).server = a.server) : Sound ⟨active, updateAccount slot f r.accounts⟩ := by
  -- every entry is of an old one with the same slot, user and server
  have hold : ∀ a ∈ updateAccount slot f r.accounts, ∃ b ∈ r.accounts,
      a.slot = b.slot ∧ a.userId = b.userId ∧ a.server = b.server := by
    intro a ha
    rcases mem_updateAccount h.distinct ha with ⟨hmem, -⟩ | ⟨b, hb, -, rfl⟩
    · exact ⟨a, hmem, rfl, rfl, rfl⟩
    · exact ⟨b, hb, hslot b, huser b, hserver b⟩
  have hdistinct : ((updateAccount slot f r.accounts).map (·.slot)).Nodup := by
    rw [map_slot_updateAccount hslot]
    exact h.distinct
  refine ⟨fun a ha => ?_, hdistinct, ?_, fun a ha b hb huser hserver => ?_⟩
  · obtain ⟨b, hb, hslot, -⟩ := hold a ha
    rw [hslot]
    exact h.valid b hb
  · show (updateAccount slot f r.accounts).length ≤ maxAccounts
    rw [length_updateAccount]
    exact h.bounded
  · obtain ⟨a', ha', haslot, hauser, haserver⟩ := hold a ha
    obtain ⟨b', hb', hbslot, hbuser, hbserver⟩ := hold b hb
    have hsame : a' = b' := h.separate a' ha' b' hb' (by rw [← hauser, huser, hbuser])
      (by rw [← haserver, hserver, hbserver])
    apply List.inj_on_of_nodup_map hdistinct ha hb
    rw [haslot, hbslot, hsame]

/-! ### Cleaning is done once -/

theorem cleanAccountText_clean (value : Text) (max : Nat) :
    cleanAccountText (cleanAccountText value max) max = cleanAccountText value max := by
  have hfilter : (cleanAccountText value max).filter (fun u => !isControlUnit u)
      = cleanAccountText value max := by
    apply List.filter_eq_self.mpr
    intro u hu
    exact (List.mem_filter.mp (List.mem_of_mem_take hu)).2
  unfold cleanAccountText at hfilter ⊢
  rw [hfilter, List.take_take, Nat.min_self]

theorem stamp_stamp (now : Number) : stamp (stamp now) = stamp now := by
  cases now with
  | nan | negInf => rfl
  | posInf => rfl
  | finite q =>
    show Number.finite _ = Number.finite _
    rw [Int.floor_intCast, ← max_assoc, max_self]

/-! ## Changes keep registries sound -/

section Note

variable {r : Registry} {slot : Text} {info : Info} {now : Number}

/-- The entries that a note leaves in place. -/
def keptBy (r : Registry) (slot : Text) (info : Info) : List Entry :=
  r.accounts.filter fun a =>
    !isRetired slot (cleanAccountText info.userId 128) (cleanAccountText info.server 512) a

/-- The outcomes of a note on a valid slot. -/
inductive NoteCase (r : Registry) (slot : Text) (info : Info) (now : Number) : Noted → Prop where
  | full (hnone : ∀ a ∈ keptBy r slot info, a.slot ≠ slot)
      (hfull : maxAccounts ≤ (keptBy r slot info).length) : NoteCase r slot info now ⟨r, [], true⟩
  | added (hnone : ∀ a ∈ keptBy r slot info, a.slot ≠ slot)
      (hroom : (keptBy r slot info).length < maxAccounts) :
      NoteCase r slot info now ⟨⟨slot, updateAccount slot (noteEntry info now)
        (keptBy r slot info ++ [⟨slot, [], [], [], .finite 0⟩])⟩,
        (r.accounts.filter (isRetired slot (cleanAccountText info.userId 128)
          (cleanAccountText info.server 512))).map (·.slot), false⟩
  | updated (hsome : ∃ a ∈ keptBy r slot info, a.slot = slot) :
      NoteCase r slot info now ⟨⟨slot, updateAccount slot (noteEntry info now)
        (keptBy r slot info)⟩,
        (r.accounts.filter (isRetired slot (cleanAccountText info.userId 128)
          (cleanAccountText info.server 512))).map (·.slot), false⟩

theorem note_case (r : Registry) (hslot : isAccountSlot slot = true) (info : Info)
    (now : Number) : NoteCase r slot info now (registryNoteAccount r slot info now) := by
  unfold registryNoteAccount
  rw [accountSlot_of_valid hslot]
  dsimp only [copyAccountRegistry]
  split
  · next hisNone =>
    have hnone : ∀ a ∈ keptBy r slot info, a.slot ≠ slot := by
      have hfind : registryAccount (keptBy r slot info) slot = none :=
        Option.isNone_iff_eq_none.mp hisNone
      simpa [registryAccount] using hfind
    split
    · next hfull => exact .full hnone hfull
    · next hroom => exact .added hnone (Nat.lt_of_not_le hroom)
  · next hisSome =>
    refine .updated ?_
    cases hfind : registryAccount (keptBy r slot info) slot with
    | none => exact absurd (Option.isNone_iff_eq_none.mpr hfind) hisSome
    | some a => exact ⟨a, List.mem_of_find?_eq_some hfind, by simpa using List.find?_some hfind⟩

theorem keptBy_sublist : (keptBy r slot info).Sublist r.accounts := List.filter_sublist

/-- No other slot that stays holds the noted account. -/
theorem not_same_of_kept (huser : cleanAccountText info.userId 128 ≠ []) {a : Entry}
    (ha : a ∈ keptBy r slot info) (hslot : a.slot ≠ slot) :
    ¬(a.userId = cleanAccountText info.userId 128 ∧ a.server = cleanAccountText info.server 512) := by
  intro hsame
  have hkept := (List.mem_filter.mp ha).2
  simp [isRetired, hslot, huser, hsame] at hkept

/-- What a note writes, over entries of which only one has the slot. -/
theorem sound_noted {accounts : List Entry} (huser : cleanAccountText info.userId 128 ≠ [])
    (hvalid : ∀ a ∈ accounts, isAccountSlot a.slot = true)
    (hdistinct : (accounts.map (·.slot)).Nodup) (hbounded : accounts.length ≤ maxAccounts)
    (hseparate : ∀ a ∈ accounts, a.slot ≠ slot → ∀ b ∈ accounts, b.slot ≠ slot →
      a.userId = b.userId → a.server = b.server → a = b)
    (hother : ∀ a ∈ accounts, a.slot ≠ slot →
      ¬(a.userId = cleanAccountText info.userId 128 ∧ a.server = cleanAccountText info.server 512)) :
    Sound ⟨slot, updateAccount slot (noteEntry info now) accounts⟩ := by
  have hkeeps : ∀ a, (noteEntry info now a).slot = a.slot := fun _ => rfl
  have hwrites : ∀ a, (noteEntry info now a).userId = cleanAccountText info.userId 128 :=
    fun a => if_neg huser
  have hnew : ((updateAccount slot (noteEntry info now) accounts).map (·.slot)).Nodup := by
    rw [map_slot_updateAccount hkeeps]
    exact hdistinct
  refine ⟨fun a ha => ?_, hnew, ?_, fun a ha b hb hab hab' => ?_⟩
  · have hslots : a.slot ∈ accounts.map (·.slot) := by
      have hmem : a.slot ∈ (updateAccount slot (noteEntry info now) accounts).map (·.slot) :=
        List.mem_map_of_mem ha
      rwa [map_slot_updateAccount hkeeps] at hmem
    obtain ⟨b, hb, hslot⟩ := List.mem_map.mp hslots
    rw [← hslot]
    exact hvalid b hb
  · show (updateAccount slot (noteEntry info now) accounts).length ≤ maxAccounts
    rw [length_updateAccount]
    exact hbounded
  · -- the noted entry has the account that no other has
    rcases mem_updateAccount hdistinct ha with ⟨ha, hane⟩ | ⟨a', ha', haslot, rfl⟩
    · rcases mem_updateAccount hdistinct hb with ⟨hb, hbne⟩ | ⟨b', -, -, rfl⟩
      · exact hseparate a ha hane b hb hbne hab hab'
      · exact absurd ⟨hab.trans (hwrites b'), hab'⟩ (hother a ha hane)
    · rcases mem_updateAccount hdistinct hb with ⟨hb, hbne⟩ | ⟨b', hb', hbslot, rfl⟩
      · exact absurd ⟨hab.symm.trans (hwrites a'), hab'.symm⟩ (hother b hb hbne)
      · rw [List.inj_on_of_nodup_map hdistinct ha' hb' (haslot.trans hbslot.symm)]

theorem Sound.note (h : Sound r) (hslot : isAccountSlot slot = true)
    (huser : cleanAccountText info.userId 128 ≠ []) :
    Sound (registryNoteAccount r slot info now).registry := by
  have hcase := note_case r hslot info now
  have hkept : Sound ⟨slot, keptBy r slot info⟩ := h.of_sublist keptBy_sublist
  generalize registryNoteAccount r slot info now = noted at hcase
  cases hcase with
  | full => exact h
  | updated =>
    exact sound_noted huser hkept.valid hkept.distinct hkept.bounded
      (fun a ha _ b hb _ => hkept.separate a ha b hb) fun a ha => not_same_of_kept huser ha
  | added hnone hroom =>
    -- the new entry is the only one of the slot
    have hold : ∀ a ∈ keptBy r slot info ++ [⟨slot, [], [], [], .finite 0⟩], a.slot ≠ slot →
        a ∈ keptBy r slot info := by
      intro a ha hne
      rcases List.mem_append.mp ha with ha | ha
      · exact ha
      · exact absurd (by rw [List.mem_singleton.mp ha]) hne
    refine sound_noted huser (fun a ha => ?_) ?_ ?_
      (fun a ha hane b hb hbne => hkept.separate a (hold a ha hane) b (hold b hb hbne))
      fun a ha hane => not_same_of_kept huser (hold a ha hane) hane
    · rcases List.mem_append.mp ha with ha | ha
      · exact hkept.valid a ha
      · rw [List.mem_singleton.mp ha]
        exact hslot
    · rw [List.map_append, List.nodup_append]
      refine ⟨hkept.distinct, List.nodup_singleton _, fun s hs s' hs' => ?_⟩
      obtain ⟨a, ha, rfl⟩ := List.mem_map.mp hs
      rw [List.mem_singleton.mp hs']
      exact hnone a ha
    · rw [List.length_append]
      exact hroom

theorem clean_noteEntry {a : Entry} (h : a.Clean) : (noteEntry info now a).Clean := by
  have hor : ∀ (value old : Text) (max : Nat), cleanAccountText old max = old →
      cleanAccountText (orText (cleanAccountText value max) old) max
        = orText (cleanAccountText value max) old := by
    intro value old max hold
    unfold orText
    split
    · exact hold
    · exact cleanAccountText_clean value max
  exact ⟨hor _ _ _ h.email, hor _ _ _ h.userId, cleanAccountText_clean _ _, stamp_stamp now⟩

/-- An update keeps what every entry has, if the updated one has it. -/
theorem updateAccount_forall {P : Entry → Prop} {f : Entry → Entry} {accounts : List Entry}
    (h : ∀ a ∈ accounts, P a) (hf : ∀ a, P a → P (f a)) :
    ∀ a ∈ updateAccount slot f accounts, P a := by
  induction accounts with
  | nil => exact h
  | cons first rest ih =>
    obtain ⟨hfirst, hrest⟩ := List.forall_mem_cons.mp h
    rw [updateAccount]
    split
    · exact List.forall_mem_cons.mpr ⟨hf first hfirst, hrest⟩
    · exact List.forall_mem_cons.mpr ⟨hfirst, ih hrest⟩

theorem Writable.note (h : Writable r) (hslot : isAccountSlot slot = true) :
    Writable (registryNoteAccount r slot info now).registry := by
  have hcase := note_case r hslot info now
  have hkept : ∀ a ∈ keptBy r slot info, a.Clean := fun a ha => h.clean a (keptBy_sublist.subset ha)
  generalize registryNoteAccount r slot info now = noted at hcase
  cases hcase with
  | full => exact h
  | updated => exact ⟨hslot, updateAccount_forall hkept fun _ => clean_noteEntry⟩
  | added =>
    refine ⟨hslot, updateAccount_forall (fun a ha => ?_) fun _ => clean_noteEntry⟩
    rcases List.mem_append.mp ha with ha | ha
    · exact hkept a ha
    · rw [List.mem_singleton.mp ha]
      have hzero : stamp (.finite 0) = .finite 0 := by decide
      exact ⟨rfl, rfl, rfl, hzero⟩

end Note

variable {r : Registry}

theorem Sound.apply (h : Sound r) {op : Op} (hop : op.Valid) : Sound (Accounts.apply r op) := by
  cases op with
  | note slot info now => exact h.note hop.1 hop.2.1
  | remove slot => exact h.of_sublist List.filter_sublist
  | setActive slot now =>
    cases now with
    | none => exact h.of_sublist (List.Sublist.refl _)
    | some now => exact h.update (fun _ => rfl) (fun _ => rfl) fun _ => rfl

theorem Writable.apply (h : Writable r) {op : Op} (hop : op.Valid) :
    Writable (Accounts.apply r op) := by
  cases op with
  | note slot info now => exact h.note hop.1
  | remove slot =>
    exact h.of_subset (isAccountSlot_accountSlot _) fun a ha => (List.mem_filter.mp ha).1
  | setActive slot now =>
    cases now with
    | none => exact h.of_subset (isAccountSlot_accountSlot _) fun a ha => ha
    | some now =>
      refine ⟨isAccountSlot_accountSlot _, updateAccount_forall h.clean fun a ha => ?_⟩
      exact ⟨ha.email, ha.userId, ha.server, stamp_stamp now⟩

/-! ### Times -/

/-- No entry was last used at infinity, which the file cannot keep. -/
def Timed (r : Registry) : Prop := ∀ a ∈ r.accounts, a.lastUsed ≠ .posInf

theorem stamp_ne {now : Number} (h : now ≠ .posInf) : stamp now ≠ .posInf := by
  cases now with
  | posInf => exact absurd rfl h
  | nan | negInf | finite => exact fun heq => nomatch heq

theorem Timed.apply (h : Timed r) {op : Op} (hop : op.Valid)
    (htime : ∀ slot, op ≠ .setActive slot (some .posInf)) : Timed (Accounts.apply r op) := by
  cases op with
  | note slot info now =>
    obtain ⟨hslot, -, hnow⟩ := hop
    have hstamp : stamp now ≠ .posInf := stamp_ne (by rintro rfl; exact hnow)
    have hnoted : ∀ a : Entry, a.lastUsed ≠ .posInf → (noteEntry info now a).lastUsed ≠ .posInf :=
      fun _ _ => hstamp
    have hkept : ∀ a ∈ keptBy r slot info, a.lastUsed ≠ .posInf :=
      fun a ha => h a (keptBy_sublist.subset ha)
    have hcase := note_case r hslot info now
    show Timed (registryNoteAccount r slot info now).registry
    generalize registryNoteAccount r slot info now = noted at hcase
    cases hcase with
    | full => exact h
    | updated => exact updateAccount_forall hkept hnoted
    | added =>
      refine updateAccount_forall (fun a ha => ?_) hnoted
      rcases List.mem_append.mp ha with ha | ha
      · exact hkept a ha
      · rw [List.mem_singleton.mp ha]
        exact fun heq => nomatch heq
  | remove slot => exact fun a ha => h a (List.mem_filter.mp ha).1
  | setActive slot now =>
    cases now with
    | none => exact h
    | some now =>
      have hstamp : stamp now ≠ .posInf := stamp_ne fun heq => htime slot (by rw [heq])
      exact updateAccount_forall h fun _ _ => hstamp

/-! ## Reading the file back -/

section File

variable {τ : Type} (engine : Engine τ)

theorem readEntry_writeEntry {a : Entry} (h : a.Clean) (htime : a.lastUsed ≠ .posInf) :
    readEntry engine (writeEntry a) a.slot = a := by
  obtain ⟨slot, email, userId, server, lastUsed⟩ := a
  have hemail : textProp engine (writeEntry ⟨slot, email, userId, server, lastUsed⟩) "email" = email :=
    engine.stringOf_string email
  have huserId : textProp engine (writeEntry ⟨slot, email, userId, server, lastUsed⟩) "userId"
      = userId := engine.stringOf_string userId
  have hserver : textProp engine (writeEntry ⟨slot, email, userId, server, lastUsed⟩) "server"
      = server := engine.stringOf_string server
  have hlastUsed : stamp (numberProp engine (writeEntry ⟨slot, email, userId, server, lastUsed⟩)
      "lastUsed") = lastUsed := by
    cases lastUsed with
    | posInf => exact absurd rfl htime
    -- a stamp is a number
    | nan | negInf => cases h.lastUsed
    | finite q =>
      show stamp (engine.numberOf (.number q)) = _
      rw [engine.numberOf_number]
      exact h.lastUsed
  rw [readEntry, hemail, huserId, hserver, hlastUsed, h.email, h.userId, h.server]

theorem slotProp_writeEntry {a : Entry} (h : isAccountSlot a.slot = true) :
    slotProp (writeEntry a) "slot" = some a.slot := if_pos h

/-- The loop takes every entry of a sound registry. -/
theorem readAccounts_written {seen : List Text} {out entries : List Entry}
    (hvalid : ∀ a ∈ entries, isAccountSlot a.slot = true) (hclean : ∀ a ∈ entries, a.Clean)
    (htime : ∀ a ∈ entries, a.lastUsed ≠ .posInf) (hnew : ∀ a ∈ entries, a.slot ∉ seen)
    (hdistinct : (entries.map (·.slot)).Nodup) (hroom : out.length + entries.length ≤ maxAccounts) :
    readAccounts engine seen out (entries.map writeEntry) = out ++ entries := by
  induction entries generalizing seen out with
  | nil => rw [List.map_nil, readAccounts, List.append_nil]
  | cons a entries ih =>
    obtain ⟨ha, hvalid⟩ := List.forall_mem_cons.mp hvalid
    obtain ⟨haclean, hclean⟩ := List.forall_mem_cons.mp hclean
    obtain ⟨hatime, htime⟩ := List.forall_mem_cons.mp htime
    obtain ⟨hanew, hnew⟩ := List.forall_mem_cons.mp hnew
    obtain ⟨hafresh, hdistinct⟩ := List.nodup_cons.mp hdistinct
    rw [List.length_cons] at hroom
    have hfits : ¬maxAccounts ≤ out.length := by omega
    have hrest : ∀ b ∈ entries, b.slot ∉ a.slot :: seen := by
      intro b hb hmem
      rcases List.mem_cons.mp hmem with heq | hmem
      · exact hafresh (List.mem_map.mpr ⟨b, hb, heq⟩)
      · exact hnew b hb hmem
    rw [List.map_cons, readAccounts, if_neg hfits, slotProp_writeEntry ha]
    show (if a.slot ∈ seen then _ else _) = _
    rw [if_neg hanew, readEntry_writeEntry engine haclean hatime,
      ih hvalid hclean htime hrest hdistinct (by rw [List.length_append, List.length_singleton]; omega),
      List.append_assoc, List.singleton_append]

/-- **What is written is read back.** -/
theorem parse_serialize {r : Registry} (hsound : Sound r) (hwritable : Writable r)
    (htimed : Timed r) : parseAccountRegistry engine (serializeAccountRegistry engine r) = r := by
  have haccounts : readAccounts engine [] [] (r.accounts.map writeEntry) = r.accounts := by
    rw [readAccounts_written engine hsound.valid hwritable.clean htimed
      (fun _ _ => List.not_mem_nil) hsound.distinct (by simpa using hsound.bounded), List.nil_append]
  have hversion : engine.numberOf (.number 1) = .finite 1 := engine.numberOf_number 1
  rw [parseAccountRegistry, serializeAccountRegistry, engine.parse_stringify,
    accountSlot_of_valid hwritable.active]
  show (if engine.numberOf (.number 1) ≠ .finite 1 then emptyAccountRegistry
    else ⟨(if isAccountSlot r.active then some r.active else none).getD defaultAccountSlot,
      readAccounts engine [] [] (r.accounts.map writeEntry)⟩) = r
  rw [if_neg (not_not.mpr hversion), if_pos hwritable.active, haccounts]
  rfl

end File

variable {r : Registry}

/-! ## Runs -/

theorem run_sound {h : List (Trace.Record Registry Op)} (run : machine.system.Run h r) :
    Sound r ∧ Writable r := by
  refine machine.invariant (I := fun _ r => Sound r ∧ Writable r) ?_ ?_ run
  · exact ⟨⟨(fun _ ha => nomatch ha), List.nodup_nil, Nat.zero_le _, (fun _ ha => nomatch ha)⟩,
      ⟨by decide, (fun _ ha => nomatch ha)⟩⟩
  · exact fun h r op _ ih hop => ⟨ih.1.apply hop, ih.2.apply hop⟩

theorem run_timed {h : List (Trace.Record Registry Op)} (run : machine.system.Run h r)
    (htimes : ∀ t ∈ h, ∀ slot, t.event ≠ .setActive slot (some .posInf)) : Timed r := by
  revert htimes
  refine machine.invariant (I := fun h r =>
    (∀ t ∈ h, ∀ slot, t.event ≠ .setActive slot (some .posInf)) → Timed r) ?_ ?_ run
  · exact fun _ _ ha => nomatch ha
  · intro h r op _ ih hop htimes
    obtain ⟨hop', htimes⟩ := List.forall_mem_cons.mp htimes
    exact (ih htimes).apply hop hop'

/-- What a note answers: the other slots that held the account, and full only where as many other
accounts as there may be are held. -/
structure NoteAnswer (r : Registry) (slot : Text) (info : Info) (noted : Noted) : Prop where
  retired : noted.retired = (r.accounts.filter fun a => a.slot ≠ slot
    ∧ a.userId = cleanAccountText info.userId 128
    ∧ a.server = cleanAccountText info.server 512).map (·.slot)
  unchanged : noted.full = true → noted.registry = r
  crowded : noted.full = true → r.accounts.length = maxAccounts ∧ ∀ a ∈ r.accounts, a.slot ≠ slot
    ∧ ¬(a.userId = cleanAccountText info.userId 128 ∧ a.server = cleanAccountText info.server 512)

theorem note_answer (h : Sound r) {slot : Text} {info : Info} {now : Number}
    (hslot : isAccountSlot slot = true) (huser : cleanAccountText info.userId 128 ≠ []) :
    NoteAnswer r slot info (registryNoteAccount r slot info now) := by
  have hretired : ∀ a, isRetired slot (cleanAccountText info.userId 128)
      (cleanAccountText info.server 512) a = decide (a.slot ≠ slot
        ∧ a.userId = cleanAccountText info.userId 128
        ∧ a.server = cleanAccountText info.server 512) := by
    intro a
    simp [isRetired, huser, Bool.and_assoc]
  have hcase := note_case r hslot info now
  generalize registryNoteAccount r slot info now = noted at hcase
  cases hcase with
  | added | updated =>
    refine ⟨?_, (fun hfull => nomatch hfull), (fun hfull => nomatch hfull)⟩
    exact congrArg (List.map (·.slot)) (List.filter_congr fun a _ => hretired a)
  | full hnone hfull =>
    -- as many are kept as there can be, so nothing was retired
    have hall : keptBy r slot info = r.accounts :=
      keptBy_sublist.eq_of_length_le (h.bounded.trans hfull)
    rw [hall] at hnone hfull
    have hother : ∀ a ∈ r.accounts, ¬(a.userId = cleanAccountText info.userId 128
        ∧ a.server = cleanAccountText info.server 512) := fun a ha =>
      not_same_of_kept huser (hall ▸ ha) (hnone a ha)
    refine ⟨?_, fun _ => rfl, fun _ => ⟨Nat.le_antisymm h.bounded hfull, fun a ha =>
      ⟨hnone a ha, hother a ha⟩⟩⟩
    have hnil : (r.accounts.filter fun a => decide (a.slot ≠ slot
        ∧ a.userId = cleanAccountText info.userId 128
        ∧ a.server = cleanAccountText info.server 512)) = [] :=
      List.filter_eq_nil_iff.mpr fun a ha htrue => hother a ha (of_decide_eq_true htrue).2
    rw [hnil]
    rfl

/-- **The account registry along every run**: sound, kept by its file, and what a note retires and
refuses. -/
theorem registry_invariants {τ : Type} (engine : Engine τ) :
    ∀ h r, machine.system.Run h r →
      Sound r
      ∧ (∀ slot info now, (Op.note slot info now).Valid →
        NoteAnswer r slot info (registryNoteAccount r slot info now))
      ∧ ((∀ t ∈ h, ∀ slot, t.event ≠ .setActive slot (some .posInf)) →
        parseAccountRegistry engine (serializeAccountRegistry engine r) = r) := by
  intro h r run
  obtain ⟨hsound, hwritable⟩ := run_sound run
  exact ⟨hsound, fun slot info now hop => note_answer hsound hop.1 hop.2.1,
    fun htimes => parse_serialize engine hsound hwritable (run_timed run htimes)⟩

/-- An engine whose JSON texts are the values themselves. -/
def plainEngine : Engine Value where
  parse := some
  stringify := id
  numberOf
    | .number q => .finite q
    | _ => .nan
  stringOf
    | .string t => t
    | _ => []
  parse_stringify _ := rfl
  numberOf_number _ := rfl
  stringOf_string _ := rfl

/-- One account is noted in the default slot, then in another, which retires the first. -/
def movedOps : List Op :=
  [.setActive defaultAccountSlot none,
    .note (List.replicate 16 97) ⟨[], ascii "u", ascii "s"⟩ (.finite 2),
    .note defaultAccountSlot ⟨[], ascii "u", ascii "s"⟩ (.finite 1)]

theorem registry_invariants_moved :
    (machine.replay movedOps).2.accounts.map (·.slot) = [List.replicate 16 97]
    ∧ parseAccountRegistry plainEngine
        (serializeAccountRegistry plainEngine (machine.replay movedOps).2)
      = (machine.replay movedOps).2 := by
  have hplay : machine.Playable movedOps := by
    refine ⟨trivial, ?_, ?_, trivial⟩ <;> exact ⟨by decide, by decide, trivial⟩
  have hinvariants := registry_invariants plainEngine _ _ (machine.replay_run hplay)
  refine ⟨by decide, hinvariants.2.2 ?_⟩
  intro t ht slot
  have hevents : (machine.replay movedOps).1.map (·.event) = movedOps := by decide
  have hmem : t.event ∈ movedOps := hevents ▸ List.mem_map_of_mem ht
  rintro heq
  rw [heq] at hmem
  simp [movedOps] at hmem

end QsBitwarden.Panel.Accounts
