import QsBitwarden.Lib.Words
import QsBitwarden.Agent.Protocol

/-!
# Agent — the key store (`agent/src/state.rs`, `keystore.rs`, `signing.rs`, `rsa_keys`)

The only owner of live private keys. A load is validated item by item into a
`CandidateLoad`, apart from the live sets, and swapped in whole by `publish`; `lock` erases
the private set, `logout` both. Which of these is allowed when is the `StateTracker`'s
business: it orders everything by an *epoch* that never goes back.

* **`Ssh`** — the `ssh-key` and `rsa` crates, as the functions the code calls. They are pure.
* **`readKey`**, **`vet`** — the checks one item has to pass, in the order the source makes them.
* **`KeyStore.authorize`**, **`KeyStore.sign`** — the lookups by index. The source indexes the
  public set and would panic on a bad index, so these answer in `Except Panic`.
-/

namespace QsBitwarden.Agent

open SshWire

/-! ## The vault state -/

inductive VaultState where
  | loggedOut
  | loading
  | unlocked
  | lockedCached
  | lockedEmpty
  deriving DecidableEq

structure StateTracker where
  epoch : Nat
  state : VaultState
  deriving DecidableEq

namespace StateTracker

def new : StateTracker := ⟨0, .loggedOut⟩

/-- `none` is the source's `false`, which leaves the tracker as it was. -/
def beginLoad (t : StateTracker) (epoch : Nat) : Option StateTracker :=
  if epoch ≤ t.epoch then none else some ⟨epoch, .loading⟩

def publish (t : StateTracker) (epoch : Nat) : Option StateTracker :=
  if t.epoch ≠ epoch ∨ t.state ≠ .loading then none else some { t with state := .unlocked }

def lock (t : StateTracker) (epoch : Nat) (hasPublicCache : Bool) : StateTracker :=
  ⟨max t.epoch epoch, if hasPublicCache then .lockedCached else .lockedEmpty⟩

def logout (t : StateTracker) (epoch : Nat) : StateTracker :=
  ⟨max t.epoch epoch, .loggedOut⟩

def allows (t : StateTracker) (epoch : Nat) : Bool :=
  t.epoch == epoch && t.state == .unlocked

end StateTracker

/-! ## The cryptographic crates -/

inductive Algorithm where
  | ed25519
  | rsa
  | other
  deriving DecidableEq

/-- `ssh_key::private::KeypairData`, as far as the agent tells its cases apart. -/
inductive KeypairData (ρ : Type) where
  | ed25519
  | rsa (keypair : ρ)
  | other

inductive HashAlg where
  | sha256
  | sha512
  deriving DecidableEq

/-- What the agent calls in `ssh-key`, `rsa` and `signature`. `none` is the crate's error. -/
structure Ssh where
  PrivateKey : Type
  PublicKey : Type
  RsaKeypair : Type
  RsaPrivateKey : Type
  Signature : Type
  /-- `PrivateKey::from_openssh`. -/
  fromOpenssh : Bytes → Option PrivateKey
  algorithm : PrivateKey → Algorithm
  keyData : PrivateKey → KeypairData RsaKeypair
  publicKey : PrivateKey → PublicKey
  /-- `PublicKey::from_openssh`. -/
  publicFromOpenssh : String → Option PublicKey
  /-- `PublicKey::to_bytes`, the blob a client names the key by. -/
  toBytes : PublicKey → Option Bytes
  /-- `fingerprint(HashAlg::Sha256).to_string()`. -/
  fingerprint : PublicKey → String
  toOpenssh : PublicKey → Option String
  /-- `rsa::RsaPrivateKey::from_components` on the keypair's components. -/
  fromComponents : RsaKeypair → Option RsaPrivateKey
  /-- Modulus size in bytes. -/
  size : RsaPrivateKey → Nat
  trySign : PrivateKey → Bytes → Option Signature
  /-- `pkcs1v15::SigningKey::new(key).try_sign(message)`. -/
  pkcs1v15 : HashAlg → RsaPrivateKey → Bytes → Option Bytes
  /-- `Signature::new(Algorithm::Rsa { hash }, bytes)`. -/
  newRsaSignature : HashAlg → Bytes → Option Signature
  /-- `Vec::<u8>::try_from(&signature)`. -/
  signatureBytes : Signature → Option Bytes

variable {ssh : Ssh}

/-- The public blob of a private key. -/
def Ssh.blob (ssh : Ssh) (key : ssh.PrivateKey) : Option Bytes := ssh.toBytes (ssh.publicKey key)

def minRsaKeyBits : Nat := 2048

/-- `rsa_keys::private_key`. -/
def rsaPrivateKey (ssh : Ssh) (keypair : ssh.RsaKeypair) : Option ssh.RsaPrivateKey :=
  match ssh.fromComponents keypair with
  | none => none
  | some key => if ssh.size key * 8 < minRsaKeyBits then none else some key

/-- `signing::sign`. -/
def signWith (ssh : Ssh) (key : ssh.PrivateKey) (message : Bytes) (flags : Nat) :
    Option ssh.Signature :=
  match ssh.keyData key with
  | .ed25519 => if flags = 0 then ssh.trySign key message else none
  | .rsa keypair => do
    let hash ← if flags = 2 then some HashAlg.sha256 else if flags = 4 then some .sha512 else none
    let signing ← rsaPrivateKey ssh keypair
    let bytes ← ssh.pkcs1v15 hash signing message
    ssh.newRsaSignature hash bytes
  | .other => none

/-! ## Candidate loads -/

def maxKeys : Nat := 128
def maxPemBytes : Nat := 64 * 1024
def maxMetadataBytes : Nat := 256
def maxFilteredBytes : Nat := 8 * 1024 * 1024

structure CandidateItem where
  itemId : String
  name : String
  privateKeyPem : Bytes
  publicKey : String
  fingerprint : String
  requiresReprompt : Bool
  deriving DecidableEq

inductive SkipCode where
  | malformedPrivateKey
  | invalidPrivateKey
  | unsupportedKeyType
  | malformedPublicKey
  | publicKeyMismatch
  | fingerprintMismatch
  | requiresReprompt
  | duplicate
  deriving DecidableEq

structure SkippedItem where
  itemId : String
  code : SkipCode
  deriving DecidableEq

structure LoadReport where
  loaded : Nat
  skipped : List SkippedItem
  deriving DecidableEq

inductive LoadError where
  | staleEpoch
  | filteredPayloadTooLarge
  | tooManyKeys
  | pemTooLarge
  | metadataTooLarge
  | failedCandidate
  deriving DecidableEq

structure PublicIdentity where
  itemId : String
  name : String
  fingerprint : String
  publicKeyOpenssh : String
  publicBlob : Bytes
  deriving DecidableEq

structure PrivateIdentity (ssh : Ssh) where
  key : ssh.PrivateKey
  publicIndex : Nat

structure AuthorizationPermit where
  epoch : Nat
  publicBlob : Bytes
  deriving DecidableEq

structure CandidateLoad (ssh : Ssh) where
  epoch : Nat
  seenItems : Nat
  failed : Bool
  publicIdentities : List PublicIdentity
  privateIdentities : List (PrivateIdentity ssh)
  skipped : List SkippedItem

/-- The characters of `chars` that fit whole in `limit` bytes of UTF-8: truncation at the last
character boundary not after `limit`. -/
def takeUtf8 : Nat → List Char → List Char
  | _, [] => []
  | limit, c :: chars =>
    if c.utf8Size ≤ limit then c :: takeUtf8 (limit - c.utf8Size) chars else []

def truncateName (name : String) : String :=
  if maxMetadataBytes < name.utf8ByteSize then String.ofList (takeUtf8 maxMetadataBytes name.toList)
  else name

/-- The private key of an item, if it is one the agent may sign with. -/
def readKey (ssh : Ssh) (item : CandidateItem) : Except SkipCode ssh.PrivateKey :=
  if item.requiresReprompt then .error .requiresReprompt
  else
    match ssh.fromOpenssh item.privateKeyPem with
    | none => .error .malformedPrivateKey
    | some key =>
      if ssh.algorithm key = .other then .error .unsupportedKeyType
      else
        match ssh.keyData key with
        | .rsa keypair =>
          if (rsaPrivateKey ssh keypair).isNone then .error .invalidPrivateKey else .ok key
        | _ => .ok key

/-- The checks of one item after its resource limits: a skip code, or the identity to add. -/
def vet (ssh : Ssh) (known : List PublicIdentity) (item : CandidateItem) :
    Except SkipCode (PublicIdentity × ssh.PrivateKey) := do
  let key ← readKey ssh item
  let metadataKey ← match ssh.publicFromOpenssh item.publicKey with
    | some key => pure key
    | none => throw .malformedPublicKey
  let publicBlob ← match ssh.blob key with
    | some blob => pure blob
    | none => throw .malformedPrivateKey
  if ssh.toBytes metadataKey ≠ some publicBlob then throw .publicKeyMismatch
  let fingerprint := ssh.fingerprint (ssh.publicKey key)
  if fingerprint ≠ item.fingerprint then throw .fingerprintMismatch
  if known.any fun identity => identity.publicBlob = publicBlob then throw .duplicate
  -- From the validated key, not the vault's copy.
  let publicKeyOpenssh ← match ssh.toOpenssh (ssh.publicKey key) with
    | some text => pure text
    | none => throw .malformedPublicKey
  return ({ itemId := item.itemId, name := item.name, fingerprint, publicKeyOpenssh, publicBlob },
    key)

namespace CandidateLoad

def fail (load : CandidateLoad ssh) (error : LoadError) :
    Except LoadError (Option SkipCode) × CandidateLoad ssh :=
  (.error error, { load with failed := true })

def skip (load : CandidateLoad ssh) (itemId : String) (code : SkipCode) :
    Except LoadError (Option SkipCode) × CandidateLoad ssh :=
  (.ok (some code), { load with skipped := load.skipped ++ [⟨itemId, code⟩] })

/-- The identity `vet` passed, at the end of both sets. -/
def push (load : CandidateLoad ssh) (identity : PublicIdentity) (key : ssh.PrivateKey) :
    CandidateLoad ssh :=
  { load with
    publicIdentities := load.publicIdentities ++ [identity]
    privateIdentities := load.privateIdentities ++ [⟨key, load.publicIdentities.length⟩] }

/-- Validate and add one item. A key defect is a skip; a resource limit poisons the load. -/
def add (load : CandidateLoad ssh) (item : CandidateItem) :
    Except LoadError (Option SkipCode) × CandidateLoad ssh :=
  let load := { load with seenItems := Words.saturatingAdd load.seenItems 1 }
  if maxKeys < load.seenItems then load.fail .tooManyKeys
  else if maxPemBytes < item.privateKeyPem.length then load.fail .pemTooLarge
  else if maxMetadataBytes < item.itemId.utf8ByteSize then load.fail .metadataTooLarge
  else
    let item := { item with name := truncateName item.name }
    match vet ssh load.publicIdentities item with
    | .error code => load.skip item.itemId code
    | .ok (identity, key) => (.ok none, load.push identity key)

end CandidateLoad

/-! ## The store -/

structure KeyStore (ssh : Ssh) where
  state : StateTracker
  publicIdentities : List PublicIdentity
  privateIdentities : List (PrivateIdentity ssh)

/-- What a lookup can do that is no answer. -/
inductive Panic where
  | indexOutOfBounds
  deriving DecidableEq

namespace KeyStore

def new : KeyStore ssh := ⟨.new, [], []⟩

def epoch (store : KeyStore ssh) : Nat := store.state.epoch

/-- Enter loading and drop the previous private set before validation. An oversized payload is
refused only after that. -/
def beginLoad (store : KeyStore ssh) (epoch filteredBytes : Nat) :
    Except LoadError (CandidateLoad ssh) × KeyStore ssh :=
  match store.state.beginLoad epoch with
  | none => (.error .staleEpoch, store)
  | some state =>
    let store := { store with state, privateIdentities := [] }
    if maxFilteredBytes < filteredBytes then (.error .filteredPayloadTooLarge, store)
    else (.ok ⟨epoch, 0, false, [], [], []⟩, store)

def publish (store : KeyStore ssh) (load : CandidateLoad ssh) :
    Except LoadError LoadReport × KeyStore ssh :=
  if load.failed then (.error .failedCandidate, store)
  else
    match store.state.publish load.epoch with
    | none => (.error .staleEpoch, store)
    | some state =>
      (.ok ⟨load.privateIdentities.length, load.skipped⟩,
        ⟨state, load.publicIdentities, load.privateIdentities⟩)

/-- Deny first, then erase the live private set while retaining public data. -/
def lock (store : KeyStore ssh) (epoch : Nat) : KeyStore ssh :=
  { store with
    state := store.state.lock epoch !store.publicIdentities.isEmpty
    privateIdentities := [] }

def logout (store : KeyStore ssh) (epoch : Nat) : KeyStore ssh :=
  ⟨store.state.logout epoch, [], []⟩

/-- The first private identity whose public blob is `blob`, found by indexing the public set. -/
def findIdentity (known : List PublicIdentity) (blob : Bytes) :
    List (PrivateIdentity ssh) → Except Panic (Option (PrivateIdentity ssh))
  | [] => .ok none
  | identity :: rest =>
    match known[identity.publicIndex]? with
    | none => .error .indexOutOfBounds
    | some named =>
      if named.publicBlob = blob then .ok (some identity) else findIdentity known blob rest

def authorize (store : KeyStore ssh) (blob : Bytes) : Except Panic (Option AuthorizationPermit) :=
  if !store.state.allows store.state.epoch then .ok none
  else
    (findIdentity store.publicIdentities blob store.privateIdentities).map fun found =>
      found.map fun _ => ⟨store.state.epoch, blob⟩

/-- Final epoch, state and key check immediately before the signing primitive. -/
def sign (store : KeyStore ssh) (permit : AuthorizationPermit) (message : Bytes) (flags : Nat) :
    Except Panic (Option ssh.Signature) :=
  if !store.state.allows permit.epoch then .ok none
  else
    (findIdentity store.publicIdentities permit.publicBlob store.privateIdentities).map fun found =>
      found.bind fun identity => signWith ssh identity.key message flags

end KeyStore

end QsBitwarden.Agent
