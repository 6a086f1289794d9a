import QsBitwarden.Lib.Base64
import QsBitwarden.Lib.SshWire

/-!
# Unlock — the quick-unlock envelope (`unlock-key/src/lib.rs`)

The master password is encrypted once, under a data key (DEK), and the data key is wrapped
separately for each way of unlocking.

* **`Envelope`** — the password's ciphertext and the wraps.
* **`Crypto`** — the cipher and the key derivation, as functions. What a call draws from the kernel
  and whether the cipher works is a `Draw` of the call.
* **`Edit`** — an operation on an envelope in place: a failed one returns its error *and* leaves
  the envelope as far as it got.

Zeroizing, hardening of the process and the summary for the panel are left out.
-/

namespace QsBitwarden.Unlock

abbrev Bytes := List UInt8

/-! ## Limits -/

def version : Nat := 1
def keyLen : Nat := 32
def nonceLen : Nat := 24
def maxPasswordBytes : Nat := 4096
def maxEnvelopeBytes : Nat := 64 * 1024
def maxFidoWraps : Nat := 16
def maxTextChars : Nat := 1024
def argon2MinMemoryKib : Nat := 64 * 1024
def argon2MinIterations : Nat := 3
def pinArgon2MinMemoryKib : Nat := 256 * 1024
def pinArgon2MinIterations : Nat := 4
def argon2MaxMemoryKib : Nat := 4 * 1024 * 1024
def argon2MaxIterations : Nat := 64
def argon2MaxParallelism : Nat := 16
def argon2SaltMinChars : Nat := 22
def argon2SaltMaxChars : Nat := 64
def fidoSaltLen : Nat := 32
def maxCredentialBytes : Nat := 1024

inductive Error where
  | malformed
  | policy
  | accountMismatch
  | wrongKey
  | missing
  | internal
  deriving DecidableEq

abbrev Result := Except Error

abbrev Key := {bytes : Bytes // bytes.length = keyLen}
abbrev Nonce := {bytes : Bytes // bytes.length = nonceLen}

def refuseIf (condition : Prop) [Decidable condition] (error : Error) : Result Unit :=
  if condition then .error error else .ok ()

/-- `text.as_bytes()`. -/
def asBytes (text : String) : Bytes := text.toUTF8.toList

def encodeString (bytes : Bytes) : String := String.ofList (Base64.encode bytes)

def decodeVec (text : String) : Result Bytes :=
  match Base64.decode text.toList with
  | some bytes => .ok bytes
  | none => .error .malformed

/-! ## Texts and parameters -/

/-- `char::is_control`. -/
def isControl (c : Char) : Bool := c.toNat < 0x20 || (0x7f ≤ c.toNat && c.toNat ≤ 0x9f)

def textOk (text : String) : Result Unit :=
  refuseIf (maxTextChars < text.toList.length ∨ text.toList.any isControl = true) .policy

structure Account where
  id : String
  server : String
  deriving DecidableEq

def Account.validate (account : Account) : Result Unit := do
  refuseIf (account.id = "") .policy
  textOk account.id
  textOk account.server

structure Argon2Params where
  alg : String
  salt : String
  m : Nat
  t : Nat
  p : Nat
  deriving DecidableEq

def isSaltChar (c : Char) : Bool := c.isAlphanum || c == '+' || c == '/' || c == '='

namespace Argon2Params

variable (params : Argon2Params)

/-- A salt of other characters fails whatever its length in bytes. -/
def saltOk : Prop :=
  argon2SaltMinChars ≤ params.salt.toList.length ∧ params.salt.toList.length ≤ argon2SaltMaxChars ∧
    params.salt.toList.all isSaltChar = true

def costOk : Prop :=
  (argon2MinMemoryKib ≤ params.m ∧ params.m ≤ argon2MaxMemoryKib) ∧
    (argon2MinIterations ≤ params.t ∧ params.t ≤ argon2MaxIterations) ∧
    (1 ≤ params.p ∧ params.p ≤ argon2MaxParallelism)

instance : Decidable params.saltOk := inferInstanceAs (Decidable (_ ∧ _ ∧ _))
instance : Decidable params.costOk := inferInstanceAs (Decidable (_ ∧ _ ∧ _))

def validate : Result Unit := do
  refuseIf (params.alg ≠ "argon2id") .malformed
  refuseIf (¬(params.saltOk ∧ params.costOk)) .policy

def bind : List Bytes :=
  [asBytes params.alg, asBytes params.salt, asBytes (toString params.m),
    asBytes (toString params.t), asBytes (toString params.p)]

end Argon2Params

def passwordOk (password : Bytes) : Result Unit :=
  refuseIf (password = [] ∨ maxPasswordBytes < password.length) .policy

def fidoFieldsOk (credential rp salt : String) : Result Unit := do
  let cred ← decodeVec credential
  refuseIf (cred = [] ∨ maxCredentialBytes < cred.length) .policy
  refuseIf (rp = "") .policy
  textOk rp
  let salt ← decodeVec salt
  refuseIf (salt.length ≠ fidoSaltLen) .policy

/-! ## The envelope -/

structure Sealed where
  n : String
  c : String
  deriving DecidableEq

structure PasswordWrap where
  kdf : Argon2Params
  n : String
  c : String
  deriving DecidableEq

structure FingerprintWrap where
  k : String
  deriving DecidableEq

structure FidoWrap where
  cred : String
  rp : String
  salt : String
  n : String
  c : String
  deriving DecidableEq

structure Wraps where
  master : PasswordWrap
  pin : Option PasswordWrap
  fingerprint : Option FingerprintWrap
  fido : List FidoWrap
  deriving DecidableEq

structure Envelope where
  v : Nat
  account : Account
  stale : Bool
  ct : Sealed
  wraps : Wraps
  deriving DecidableEq

/-- How the data key is reached for one operation. -/
inductive Via where
  | master (input : Key)
  | pin (input : Key)
  | fingerprint
  | fido (credential : String) (hmac : Key)
  deriving DecidableEq

/-- A method, named for removal. -/
inductive Method where
  | pin
  | fingerprint
  | fido (credential : String)
  deriving DecidableEq

/-! ## Associated data -/

def domain : Bytes := asBytes "qs-bitwarden-unlock-v1"

/-- `u32::try_from(part.len()).unwrap_or(u32::MAX)`, then the part. -/
def aadPart (part : Bytes) : Bytes := SshWire.encodeU32 (min part.length (2 ^ 32 - 1)) ++ part

def aad (parts : List Bytes) : Bytes := domain ++ parts.flatMap aadPart

def ctAad (account : Account) : Bytes :=
  aad [asBytes "password", asBytes account.id, asBytes account.server]

def wrapAad (account : Account) (purpose : String) (kdf : Argon2Params) : Bytes :=
  aad ([asBytes "wrap", asBytes purpose, asBytes account.id, asBytes account.server] ++ kdf.bind)

def fidoAad (account : Account) (cred rp salt : String) : Bytes :=
  aad [asBytes "wrap", asBytes "fido", asBytes account.id, asBytes account.server, asBytes cred,
    asBytes rp, asBytes salt]

/-! ## Cipher and keys -/

structure Crypto where
  /-- HKDF-SHA256 without a salt: the input and the info. -/
  hkdf : Key → Bytes → Key
  /-- The key, the nonce, the associated data and the plaintext. -/
  encrypt : Key → Nonce → Bytes → Bytes → Bytes
  decrypt : Key → Nonce → Bytes → Bytes → Option Bytes

/-- What one `sealBox` gets from outside: the kernel's random bytes, and whether the cipher works. -/
structure Draw where
  nonce : Option Nonce
  encrypts : Bool
  deriving DecidableEq

section Cipher

variable (crypto : Crypto)

/-- One key per purpose, so a PIN's key can never open the master wrap. -/
def deriveKek (input : Key) (purpose : String) : Key :=
  crypto.hkdf input (domain ++ asBytes " kek " ++ asBytes purpose)

/-- `seal`. -/
def sealBox (draw : Draw) (key : Key) (plaintext aad : Bytes) : Result Sealed :=
  match draw.nonce with
  | none => .error .internal
  | some nonce =>
    if draw.encrypts then
      .ok ⟨encodeString nonce.1, encodeString (crypto.encrypt key nonce aad plaintext)⟩
    else .error .internal

/-- `open` of a sealed box. -/
def openBox (key : Key) (n c : String) (aad : Bytes) : Result Bytes := do
  let nonce ← decodeVec n
  let c ← decodeVec c
  if h : nonce.length = nonceLen then
    match crypto.decrypt key ⟨nonce, h⟩ aad c with
    | some plaintext => .ok plaintext
    | none => .error .wrongKey
  else .error .malformed

def keyFrom (bytes : Bytes) : Result Key :=
  if h : bytes.length = keyLen then .ok ⟨bytes, h⟩ else .error .malformed

def decodeKey (text : String) : Result Key := do
  let bytes ← decodeVec text
  keyFrom bytes

def sealedOk (n c : String) : Result Unit := do
  let nonce ← decodeVec n
  let _ ← decodeVec c
  refuseIf (nonce.length ≠ nonceLen) .malformed

def passwordWrapOk (wrap : PasswordWrap) : Result Unit := do
  wrap.kdf.validate
  sealedOk wrap.n wrap.c

def passwordWrap (draw : Draw) (account : Account) (purpose : String) (kdf : Argon2Params)
    (input dek : Key) : Result PasswordWrap := do
  let kek := deriveKek crypto input purpose
  let box ← sealBox crypto draw kek dek.1 (wrapAad account purpose kdf)
  return ⟨kdf, box.n, box.c⟩

/-! ## Opening -/

namespace Envelope

variable (e : Envelope)

def fidoWrap (credential : String) : Option FidoWrap :=
  e.wraps.fido.find? fun wrap => wrap.cred = credential

def dek : Via → Result Key
  | .master input => do
    let wrap := e.wraps.master
    let opened ← openBox crypto (deriveKek crypto input "master") wrap.n wrap.c
      (wrapAad e.account "master" wrap.kdf)
    keyFrom opened
  | .pin input =>
    match e.wraps.pin with
    | none => .error .missing
    | some wrap => do
      let opened ← openBox crypto (deriveKek crypto input "pin") wrap.n wrap.c
        (wrapAad e.account "pin" wrap.kdf)
      keyFrom opened
  | .fingerprint =>
    match e.wraps.fingerprint with
    | none => .error .missing
    | some wrap => decodeKey wrap.k
  | .fido credential hmac =>
    match e.fidoWrap credential with
    | none => .error .missing
    | some wrap => do
      let opened ← openBox crypto (deriveKek crypto hmac "fido") wrap.n wrap.c
        (fidoAad e.account wrap.cred wrap.rp wrap.salt)
      keyFrom opened

/-- The master password, through one method. -/
def openVia (via : Via) : Result Bytes := do
  let dek ← e.dek crypto via
  openBox crypto dek e.ct.n e.ct.c (ctAad e.account)

end Envelope

/-! ## Writing -/

/-- `dek` is the outcome of the random source for the data key. -/
def create (dek : Option Key) (forCt forWrap : Draw) (account : Account) (password : Bytes)
    (master : Argon2Params) (masterKey : Key) : Result Envelope := do
  account.validate
  master.validate
  passwordOk password
  match dek with
  | none => .error .internal
  | some dek =>
    let ct ← sealBox crypto forCt dek password (ctAad account)
    let wrap ← passwordWrap crypto forWrap account "master" master masterKey dek
    return ⟨version, account, false, ct, ⟨wrap, none, none, []⟩⟩

/-- An operation on an envelope in place. -/
abbrev Edit := ExceptT Error (StateM Envelope)

def Edit.apply (edit : Edit Unit) (e : Envelope) : Result Unit × Envelope := edit.run.run e

/-- Enables or replaces the PIN, authorized by `auth`. -/
def addPin (draw : Draw) (auth : Via) (params : Argon2Params) (pinKey : Key) : Edit Unit := do
  params.validate
  refuseIf (params.m < pinArgon2MinMemoryKib ∨ params.t < pinArgon2MinIterations) .policy
  let e ← get
  let dek ← e.dek crypto auth
  let wrap ← passwordWrap crypto draw e.account "pin" params pinKey dek
  modify fun e => { e with wraps := { e.wraps with pin := some wrap } }

def addFingerprint (auth : Via) : Edit Unit := do
  let e ← get
  let dek ← e.dek crypto auth
  modify fun e => { e with wraps := { e.wraps with fingerprint := some ⟨encodeString dek.1⟩ } }

/-- Enables or replaces one FIDO2 credential. -/
def addFido (draw : Draw) (auth : Via) (credential rp salt : String) (hmac : Key) : Edit Unit := do
  fidoFieldsOk credential rp salt
  let e ← get
  let dek ← e.dek crypto auth
  let replacing := e.wraps.fido.findIdx? fun wrap => wrap.cred = credential
  refuseIf (replacing = none ∧ maxFidoWraps ≤ e.wraps.fido.length) .policy
  let kek := deriveKek crypto hmac "fido"
  let box ← sealBox crypto draw kek dek.1 (fidoAad e.account credential rp salt)
  let wrap : FidoWrap := ⟨credential, rp, salt, box.n, box.c⟩
  modify fun e => { e with wraps := { e.wraps with
    fido := match replacing with
      | some index => e.wraps.fido.set index wrap
      | none => e.wraps.fido ++ [wrap] } }

/-- Disables one method; needs no secret. `master` cannot be removed. -/
def remove : Method → Edit Unit
  | .pin => do
    let e ← get
    set { e with wraps := { e.wraps with pin := none } }
    refuseIf (e.wraps.pin = none) .missing
  | .fingerprint => do
    let e ← get
    set { e with wraps := { e.wraps with fingerprint := none } }
    refuseIf (e.wraps.fingerprint = none) .missing
  | .fido credential => do
    let e ← get
    match e.wraps.fido.findIdx? fun wrap => wrap.cred = credential with
    | none => throw .missing
    | some index => set { e with wraps := { e.wraps with fido := e.wraps.fido.eraseIdx index } }

def markStale : Edit Unit := modify fun e => { e with stale := true }

/-- Re-seals for a new master password; the data key stays. -/
def rotate (forCt forWrap : Draw) (auth : Via) (newPassword : Bytes) (master : Argon2Params)
    (masterKey : Key) : Edit Unit := do
  passwordOk newPassword
  master.validate
  let e ← get
  let dek ← e.dek crypto auth
  let ct ← sealBox crypto forCt dek newPassword (ctAad e.account)
  modify fun e => { e with ct }
  let wrap ← passwordWrap crypto forWrap e.account "master" master masterKey dek
  modify fun e => { e with wraps := { e.wraps with master := wrap } }
  modify fun e => { e with stale := false }

end Cipher

/-! ## Reading -/

namespace Envelope

variable (e : Envelope)

/-- `if let Some(..)`: a check of what may be absent. -/
def optionalOk {α : Type} (check : α → Result Unit) : Option α → Result Unit
  | some a => check a
  | none => .ok ()

/-- The check of the wrap behind the ones in `earlier`. -/
def fidoOk (earlier : List FidoWrap) (wrap : FidoWrap) : Result Unit := do
  fidoFieldsOk wrap.cred wrap.rp wrap.salt
  sealedOk wrap.n wrap.c
  refuseIf (earlier.any (fun other => other.cred = wrap.cred) = true) .malformed

def fidosOk (earlier : List FidoWrap) : List FidoWrap → Result Unit
  | [] => .ok ()
  | wrap :: rest => do
    fidoOk earlier wrap
    fidosOk (earlier ++ [wrap]) rest

def validate : Result Unit := do
  refuseIf (e.v ≠ version) .malformed
  e.account.validate
  sealedOk e.ct.n e.ct.c
  passwordWrapOk e.wraps.master
  optionalOk passwordWrapOk e.wraps.pin
  optionalOk (fun fingerprint => discard (decodeKey fingerprint.k)) e.wraps.fingerprint
  refuseIf (maxFidoWraps < e.wraps.fido.length) .policy
  fidosOk [] e.wraps.fido

end Envelope

/-- `fromSlice` is `serde_json::from_slice`. -/
def parse (fromSlice : String → Option Envelope) (text : String) : Result Envelope := do
  refuseIf (maxEnvelopeBytes < text.utf8ByteSize) .policy
  match fromSlice text with
  | none => .error .malformed
  | some e =>
    e.validate
    return e

end QsBitwarden.Unlock
