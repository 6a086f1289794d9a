import QsBitwarden.Lib.Utf8
import QsBitwarden.Unlock.Envelope

/-!
# Unlock — what the associated data binds (`unlock-key/src/lib.rs`)

Every box of an envelope is sealed with associated data that say what it is: which of the four uses,
whose account, and the parameters of its key. Boxes can be told apart only as far as these bytes can.

* **`aad_cons`** — the first part can be taken off, hence the parts are read back from the bytes.
* **`Use`** — what a box is sealed for; `Use.aad` is its associated data.
* **`aad_binds`** — lists of parts, uses, and everything that a use binds have data of their own.
-/

namespace QsBitwarden.Unlock

open SshWire

/-! ## Texts as bytes -/

theorem asBytes_eq (text : String) : asBytes text = Utf8.encode text.toList :=
  Utf8.toList_toUTF8 text

theorem asBytes_injective {text other : String} (h : asBytes text = asBytes other) :
    text = other := by
  rw [asBytes_eq, asBytes_eq] at h
  exact String.toList_inj.mp (Utf8.encode_injective h)

/-! ## Parts -/

/-- A part whose length is written as it is. -/
def Short (part : Bytes) : Prop := part.length < 2 ^ 32

theorem aadPart_eq {part : Bytes} (h : Short part) : aadPart part = str part := by
  have hmin : min part.length (2 ^ 32 - 1) = part.length := by
    unfold Short at h
    omega
  rw [aadPart, hmin, str]

/-- The first parts are read off the data of both lists. -/
theorem aad_cons {part part' : Bytes} {parts parts' : List Bytes} (hpart : Short part)
    (hpart' : Short part') (h : aad (part :: parts) = aad (part' :: parts')) :
    part = part' ∧ aad parts = aad parts' := by
  have hflat := List.append_cancel_left h
  rw [List.flatMap_cons, List.flatMap_cons, aadPart_eq hpart, aadPart_eq hpart'] at hflat
  have hread : decodeString (str part ++ parts.flatMap aadPart)
      = some (part, parts.flatMap aadPart) := decodeString_iff.mpr ⟨hpart, rfl⟩
  have hread' : decodeString (str part' ++ parts'.flatMap aadPart)
      = some (part', parts'.flatMap aadPart) := decodeString_iff.mpr ⟨hpart', rfl⟩
  rw [hflat, hread'] at hread
  obtain ⟨hsame, hrest⟩ := Prod.mk.inj (Option.some.inj hread)
  exact ⟨hsame.symm, by rw [aad, aad, hrest]⟩

theorem aad_nil_ne {part : Bytes} {parts : List Bytes} : aad [] ≠ aad (part :: parts) := by
  intro h
  have hflat := congrArg List.length (List.append_cancel_left h)
  rw [List.flatMap_cons, List.length_append, aadPart, List.length_append] at hflat
  have hfour : (encodeU32 (min part.length (2 ^ 32 - 1))).length = 4 := rfl
  rw [hfour, List.flatMap_nil, List.length_nil] at hflat
  omega

/-- **Parts are read back.** -/
theorem aad_injective {parts parts' : List Bytes} (hparts : ∀ part ∈ parts, Short part)
    (hparts' : ∀ part ∈ parts', Short part) (h : aad parts = aad parts') : parts = parts' := by
  induction parts generalizing parts' with
  | nil =>
    cases parts' with
    | nil => rfl
    | cons part' parts' => exact absurd h aad_nil_ne
  | cons part parts ih =>
    cases parts' with
    | nil => exact absurd h.symm aad_nil_ne
    | cons part' parts' =>
      obtain ⟨hpart, hrest⟩ := List.forall_mem_cons.mp hparts
      obtain ⟨hpart', hrest'⟩ := List.forall_mem_cons.mp hparts'
      obtain ⟨rfl, htail⟩ := aad_cons hpart hpart' h
      rw [ih hrest hrest' htail]

/-! ## Uses -/

/-- What a box is sealed for. -/
inductive Use where
  | password (account : Account)
  | master (account : Account) (kdf : Argon2Params)
  | pin (account : Account) (kdf : Argon2Params)
  | fido (account : Account) (cred rp salt : String)
  deriving DecidableEq

inductive Purpose where
  | password
  | master
  | pin
  | fido
  deriving DecidableEq

namespace Use

def purpose : Use → Purpose
  | .password _ => .password
  | .master _ _ => .master
  | .pin _ _ => .pin
  | .fido _ _ _ _ => .fido

def aad : Use → Bytes
  | .password account => ctAad account
  | .master account kdf => wrapAad account "master" kdf
  | .pin account kdf => wrapAad account "pin" kdf
  | .fido account cred rp salt => fidoAad account cred rp salt

end Use

/-- The numbers are of 32 bits, as their type says, and the texts not longer than lengths can tell. -/
def Argon2Params.Fits (kdf : Argon2Params) : Prop :=
  Short (asBytes kdf.alg) ∧ Short (asBytes kdf.salt)
    ∧ kdf.m < 2 ^ 32 ∧ kdf.t < 2 ^ 32 ∧ kdf.p < 2 ^ 32

def Account.Fits (account : Account) : Prop :=
  Short (asBytes account.id) ∧ Short (asBytes account.server)

def Use.Fits : Use → Prop
  | .password account => account.Fits
  | .master account kdf | .pin account kdf => account.Fits ∧ kdf.Fits
  | .fido account cred rp salt =>
    account.Fits ∧ Short (asBytes cred) ∧ Short (asBytes rp) ∧ Short (asBytes salt)

/-- A decimal of a 32-bit number has at most ten digits. -/
theorem short_number {n : Nat} (h : n < 2 ^ 32) : Short (asBytes (toString n)) := by
  have hdigits : (toString n).toList = Nat.toDigits 10 n := Nat.toList_repr
  have hten : (Nat.toDigits 10 n).length ≤ 10 :=
    (Nat.length_toDigits_le_iff (by decide) (by decide)).mpr (by omega)
  have hbytes := Utf8.length_encode_le (Nat.toDigits 10 n)
  unfold Short
  rw [asBytes_eq, hdigits]
  omega

theorem number_injective {n n' : Nat} (h : asBytes (toString n) = asBytes (toString n')) :
    n = n' := by
  have hdigits : Nat.toDigits 10 n = Nat.toDigits 10 n' := by
    rw [← Nat.toList_repr, ← Nat.toList_repr]
    exact congrArg String.toList (asBytes_injective h)
  rw [← Nat.ofDigitChars_ten_toDigits (n := n), hdigits, Nat.ofDigitChars_ten_toDigits]

theorem short_bind {kdf : Argon2Params} (h : kdf.Fits) : ∀ part ∈ kdf.bind, Short part := by
  obtain ⟨halg, hsalt, hm, ht, hp⟩ := h
  simp only [Argon2Params.bind, List.forall_mem_cons, List.not_mem_nil, false_implies,
    implies_true, and_true]
  exact ⟨halg, hsalt, short_number hm, short_number ht, short_number hp⟩

theorem bind_injective {kdf kdf' : Argon2Params} (h : kdf.bind = kdf'.bind) : kdf = kdf' := by
  obtain ⟨alg, salt, m, t, p⟩ := kdf
  obtain ⟨alg', salt', m', t', p'⟩ := kdf'
  simp only [Argon2Params.bind, List.cons.injEq, and_true] at h
  obtain ⟨halg, hsalt, hm, ht, hp⟩ := h
  rw [asBytes_injective halg, asBytes_injective hsalt, number_injective hm, number_injective ht,
    number_injective hp]

namespace Use

/-- The parts of a use's data, the name of the use first. -/
def parts : Use → List Bytes
  | .password account => [asBytes "password", asBytes account.id, asBytes account.server]
  | .master account kdf =>
    [asBytes "wrap", asBytes "master", asBytes account.id, asBytes account.server] ++ kdf.bind
  | .pin account kdf =>
    [asBytes "wrap", asBytes "pin", asBytes account.id, asBytes account.server] ++ kdf.bind
  | .fido account cred rp salt =>
    [asBytes "wrap", asBytes "fido", asBytes account.id, asBytes account.server, asBytes cred,
      asBytes rp, asBytes salt]

theorem aad_eq (use : Use) : use.aad = Unlock.aad use.parts := by
  cases use <;> rfl

/-- The texts that name the uses. -/
theorem short_names : Short (asBytes "password") ∧ Short (asBytes "wrap") ∧ Short (asBytes "master")
    ∧ Short (asBytes "pin") ∧ Short (asBytes "fido") := by
  unfold Short
  simp only [asBytes_eq]
  decide

theorem password_ne_wrap {rest rest' : List Bytes} :
    Unlock.aad (asBytes "password" :: rest) ≠ Unlock.aad (asBytes "wrap" :: rest') := by
  intro h
  have hsame := (aad_cons short_names.1 short_names.2.1 h).1
  exact absurd (asBytes_injective hsame) (by decide)

theorem wrap_cons {name name' : String} {rest rest' : List Bytes} (hname : Short (asBytes name))
    (hname' : Short (asBytes name'))
    (h : Unlock.aad (asBytes "wrap" :: asBytes name :: rest)
      = Unlock.aad (asBytes "wrap" :: asBytes name' :: rest')) : name = name' := by
  have hrest := (aad_cons short_names.2.1 short_names.2.1 h).2
  exact asBytes_injective (aad_cons hname hname' hrest).1

/-- The first two parts tell the uses apart, whatever comes behind them. -/
theorem purpose_eq {use use' : Use} (h : use.aad = use'.aad) : use.purpose = use'.purpose := by
  obtain ⟨-, -, hmaster, hpin, hfido⟩ := short_names
  rw [aad_eq, aad_eq] at h
  cases use with
  | password =>
    cases use' with
    | password => rfl
    | master | pin | fido => exact absurd h password_ne_wrap
  | master =>
    cases use' with
    | password => exact absurd h.symm password_ne_wrap
    | master => rfl
    | pin => exact absurd (wrap_cons hmaster hpin h) (by decide)
    | fido => exact absurd (wrap_cons hmaster hfido h) (by decide)
  | pin =>
    cases use' with
    | password => exact absurd h.symm password_ne_wrap
    | master => exact absurd (wrap_cons hpin hmaster h) (by decide)
    | pin => rfl
    | fido => exact absurd (wrap_cons hpin hfido h) (by decide)
  | fido =>
    cases use' with
    | password => exact absurd h.symm password_ne_wrap
    | master => exact absurd (wrap_cons hfido hmaster h) (by decide)
    | pin => exact absurd (wrap_cons hfido hpin h) (by decide)
    | fido => rfl

theorem account_eq {account account' : Account} (hid : asBytes account.id = asBytes account'.id)
    (hserver : asBytes account.server = asBytes account'.server) : account = account' := by
  obtain ⟨id, server⟩ := account
  obtain ⟨id', server'⟩ := account'
  rw [show id = id' from asBytes_injective hid, show server = server' from asBytes_injective hserver]

/-- Uses of one purpose are read off their parts. -/
theorem parts_injective {use use' : Use} (hpurpose : use.purpose = use'.purpose)
    (h : use.parts = use'.parts) : use = use' := by
  cases use with
  | password account =>
    cases use' with
    | password account' =>
      simp only [parts, List.cons.injEq, and_true, true_and] at h
      rw [account_eq h.1 h.2]
    | master | pin | fido => cases hpurpose
  | master account kdf =>
    cases use' with
    | master account' kdf' =>
      simp only [parts, List.cons_append, List.nil_append, List.cons.injEq, true_and] at h
      rw [account_eq h.1 h.2.1, bind_injective h.2.2]
    | password | pin | fido => cases hpurpose
  | pin account kdf =>
    cases use' with
    | pin account' kdf' =>
      simp only [parts, List.cons_append, List.nil_append, List.cons.injEq, true_and] at h
      rw [account_eq h.1 h.2.1, bind_injective h.2.2]
    | password | master | fido => cases hpurpose
  | fido account cred rp salt =>
    cases use' with
    | fido account' cred' rp' salt' =>
      simp only [parts, List.cons.injEq, and_true, true_and] at h
      obtain ⟨hid, hserver, hcred, hrp, hsalt⟩ := h
      rw [account_eq hid hserver, asBytes_injective hcred, asBytes_injective hrp,
        asBytes_injective hsalt]
    | password | master | pin => cases hpurpose

theorem short_parts {use : Use} (h : use.Fits) : ∀ part ∈ use.parts, Short part := by
  obtain ⟨hpassword, hwrap, hmaster, hpin, hfido⟩ := short_names
  have hnil : ∀ part ∈ ([] : List Bytes), Short part := fun _ hmem => nomatch hmem
  cases use with
  | password account =>
    simp only [parts, List.forall_mem_cons]
    exact ⟨hpassword, h.1, h.2, hnil⟩
  | master account kdf =>
    simp only [parts, List.cons_append, List.nil_append, List.forall_mem_cons]
    exact ⟨hwrap, hmaster, h.1.1, h.1.2, short_bind h.2⟩
  | pin account kdf =>
    simp only [parts, List.cons_append, List.nil_append, List.forall_mem_cons]
    exact ⟨hwrap, hpin, h.1.1, h.1.2, short_bind h.2⟩
  | fido account cred rp salt =>
    simp only [parts, List.forall_mem_cons]
    exact ⟨hwrap, hfido, h.1.1, h.1.2, h.2.1, h.2.2.1, h.2.2.2, hnil⟩

end Use

/-- **The associated data bind everything.** Lists of parts are read back; the four uses never have
the same data; and neither have two boxes of one use that differ in anything bound. -/
theorem aad_binds :
    (∀ parts parts', (∀ part ∈ parts, Short part) → (∀ part ∈ parts', Short part) →
      aad parts = aad parts' → parts = parts')
    ∧ (∀ use use' : Use, use.aad = use'.aad → use.purpose = use'.purpose)
    ∧ ∀ use use' : Use, use.Fits → use'.Fits → use.aad = use'.aad → use = use' := by
  refine ⟨fun _ _ => aad_injective, fun _ _ => Use.purpose_eq, fun use use' hfits hfits' h => ?_⟩
  have hparts : use.parts = use'.parts := by
    rw [Use.aad_eq, Use.aad_eq] at h
    exact aad_injective (Use.short_parts hfits) (Use.short_parts hfits') h
  exact Use.parts_injective (Use.purpose_eq h) hparts

end QsBitwarden.Unlock
