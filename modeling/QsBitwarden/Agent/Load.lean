import QsBitwarden.Agent.KeyStoreRuns

/-!
# Agent — loading keys (`agent/src/load.rs`)

A load is armed with a nonce and an epoch. Its payload comes through a FIFO that outlives every
load, so the reader picks the line that names its own nonce (`PayloadFilter`), and the armed
`LoadWindow` checks the nonce again, once, before the store is touched.

* **`Serde`** — `serde_json` on the two shapes the code asks it for. The strict one accepts less
  than the lenient one and agrees with it on `loadId`.
* **`LoadWindow.decode`** — one payload to an unpublished candidate.
* **`decode_case`** — everything `decode` can do to the store.
-/

namespace QsBitwarden.Agent

open SshWire

variable {ssh : Ssh}

/-! ## The payload -/

/-- An item as `serde` hands it over, with its key still in base64. -/
structure RawItem where
  itemId : String
  name : String
  privateKeyB64 : Bytes
  publicKey : String
  fingerprint : String
  requiresReprompt : Bool

structure RawEnvelope where
  loadId : String
  items : List RawItem

/-- `serde_json::from_slice` at `Envelope` (unknown fields denied) and at `Named` (only
`loadId`, other fields skipped). -/
structure Serde where
  envelope : Bytes → Option RawEnvelope
  named : Bytes → Option String
  named_of_envelope : ∀ bytes raw, envelope bytes = some raw → named bytes = some raw.loadId

def sextet (byte : UInt8) : Option Nat :=
  let n := byte.toNat
  if 65 ≤ n ∧ n ≤ 90 then some (n - 65)
  else if 97 ≤ n ∧ n ≤ 122 then some (n - 97 + 26)
  else if 48 ≤ n ∧ n ≤ 57 then some (n - 48 + 52)
  else if n = 43 then some 62
  else if n = 47 then some 63
  else none

/-- One group of four: `=` only at the end of the last group, and no bits past the last byte. -/
def decodeGroup (group : Bytes) (last : Bool) : Option Bytes := do
  let padding := (group.reverse.takeWhile fun byte => byte = 61).length
  if 2 < padding ∨ (0 < padding ∧ !last) then none else
  let sextets ← (group.take (4 - padding)).mapM sextet
  let bits := sextets.foldl (fun bits s => bits * 64 + s) 0 * 64 ^ padding
  let bytes := [UInt8.ofNat (bits / 2 ^ 16), UInt8.ofNat (bits / 2 ^ 8), UInt8.ofNat bits]
  if (bytes.drop (3 - padding)).any fun byte => byte ≠ 0 then none
  else some (bytes.take (3 - padding))

def decodeGroups : Bytes → Option Bytes
  | a :: b :: c :: d :: rest => do
    let bytes ← decodeGroup [a, b, c, d] rest.isEmpty
    let more ← decodeGroups rest
    some (bytes ++ more)
  | [] => some []
  | _ => none

/-- Strict standard-alphabet base64 with required padding. -/
def decodeBase64 (encoded : Bytes) : Option Bytes :=
  if encoded.isEmpty ∨ encoded.length % 4 ≠ 0 then none else decodeGroups encoded

def RawItem.deserialize (item : RawItem) : Option CandidateItem := do
  let pem ← decodeBase64 item.privateKeyB64
  some ⟨item.itemId, item.name, pem, item.publicKey, item.fingerprint, item.requiresReprompt⟩

/-- The whole envelope, or nothing when any item's key is not base64. -/
def Serde.decode (serde : Serde) (bytes : Bytes) : Option (String × List CandidateItem) := do
  let raw ← serde.envelope bytes
  let items ← raw.items.mapM RawItem.deserialize
  some (raw.loadId, items)

/-! ## Nonces -/

def isAsciiHexdigit (byte : UInt8) : Bool :=
  let n := byte.toNat
  (48 ≤ n && n ≤ 57) || (65 ≤ n && n ≤ 70) || (97 ≤ n && n ≤ 102)

/-- 32 hexadecimal digits, kept as text. -/
def parseNonce (nonce : String) : Option Bytes :=
  let bytes := nonce.toUTF8.data.toList
  if bytes.length = 32 ∧ bytes.all isAsciiHexdigit then some bytes else none

def constantTimeEq (left right : Bytes) : Bool :=
  (left.zip right).foldl (fun difference pair => difference ||| (pair.1 ^^^ pair.2)) 0 == 0

/-- `{"loadId":"`. -/
def markerStart : Bytes := [123, 34, 108, 111, 97, 100, 73, 100, 34, 58, 34]

/-- Whether `bytes` parse with a `loadId` that is this nonce. -/
def namesThisLoad (serde : Serde) (nonce bytes : Bytes) : Bool :=
  match (serde.named bytes).bind parseNonce with
  | some supplied => constantTimeEq supplied nonce
  | none => false

/-- The first place where `marker` occurs in `line`. -/
def findMarker (marker : Bytes) : Bytes → Option Nat
  | [] => if marker.isEmpty then some 0 else none
  | line@(_ :: rest) =>
    if line.take marker.length = marker then some 0 else (findMarker marker rest).map (· + 1)

/-- `PayloadFilter::locate`: where this load's payload starts in a FIFO line. -/
def locate (serde : Serde) (nonce line : Bytes) : Option Nat :=
  if namesThisLoad serde nonce line then some 0
  else
    match findMarker (markerStart ++ nonce ++ [34]) line with
    | some start =>
      if 0 < start ∧ namesThisLoad serde nonce (line.drop start) then some start else none
    | none => none

theorem namesThisLoad_of_locate {serde : Serde} {nonce line : Bytes} {start : Nat}
    (h : locate serde nonce line = some start) : namesThisLoad serde nonce (line.drop start) := by
  unfold locate at h
  split at h
  · next hnames =>
    obtain rfl := Option.some.inj h
    exact hnames
  split at h
  · split at h
    · next hstart =>
      obtain rfl := Option.some.inj h
      exact hstart.2
    · cases h
  · cases h

theorem length_of_parseNonce {text : String} {nonce : Bytes} (h : parseNonce text = some nonce) :
    nonce.length = 32 := by
  unfold parseNonce at h
  simp only at h
  split at h
  · next hlen =>
    obtain rfl := Option.some.inj h
    exact hlen.1
  · cases h

/-- Every differing byte leaves a bit in the accumulator. -/
theorem foldl_or_eq_zero (pairs : List (UInt8 × UInt8)) (acc : UInt8) :
    pairs.foldl (fun difference pair => difference ||| (pair.1 ^^^ pair.2)) acc = 0 ↔
      acc = 0 ∧ ∀ pair ∈ pairs, pair.1 = pair.2 := by
  induction pairs generalizing acc with
  | nil => simp
  | cons pair pairs ih =>
    rw [List.foldl_cons, ih]
    have hbit : acc ||| (pair.1 ^^^ pair.2) = 0 ↔ acc = 0 ∧ pair.1 = pair.2 := by
      simp [← UInt8.toBitVec_inj, BitVec.or_eq_zero_iff, BitVec.xor_eq_zero_iff]
    rw [hbit, List.forall_mem_cons, and_assoc]

/-- On equal lengths the constant-time comparison is equality. -/
theorem constantTimeEq_iff {left right : Bytes} (hlen : left.length = right.length) :
    constantTimeEq left right ↔ left = right := by
  unfold constantTimeEq
  rw [beq_iff_eq, foldl_or_eq_zero]
  constructor
  · rintro ⟨-, hall⟩
    apply List.ext_getElem hlen
    intro i hi hi'
    have hmem : (left[i], right[i]) ∈ left.zip right :=
      List.mem_iff_getElem.mpr ⟨i, by rw [List.length_zip]; omega, List.getElem_zip⟩
    exact hall _ hmem
  · rintro rfl
    refine ⟨rfl, ?_⟩
    intro pair hpair
    obtain ⟨i, hi, rfl⟩ := List.getElem_of_mem hpair
    simp

/-! ## The window -/

inductive PayloadError where
  | invalidNonce
  | closed
  | nonceMismatch
  | malformed
  | load (error : LoadError)
  deriving DecidableEq

/-- A single armed load nonce. Every decode attempt consumes it. -/
structure LoadWindow where
  epoch : Nat
  nonce : Option Bytes
  deriving DecidableEq

def LoadWindow.new (epoch : Nat) (nonce : String) : Except PayloadError LoadWindow :=
  match parseNonce nonce with
  | none => .error .invalidNonce
  | some nonce => .ok ⟨epoch, some nonce⟩

/-- The items of one payload, up to the first that breaks a limit. -/
def addAll (load : CandidateLoad ssh) : List CandidateItem → Except LoadError (CandidateLoad ssh)
  | [] => .ok load
  | item :: items =>
    match load.add item with
    | (.ok _, load) => addAll load items
    | (.error error, _) => .error error

/-- The candidate a payload decodes to, the store after `begin_load`, and the spent window. -/
def LoadWindow.decode (serde : Serde) (window : LoadWindow) (bytes : Bytes) (store : KeyStore ssh) :
    Except PayloadError (CandidateLoad ssh) × KeyStore ssh × LoadWindow :=
  let spent := { window with nonce := none }
  match window.nonce with
  | none => (.error .closed, store, spent)
  | some expected =>
    if maxFilteredBytes < bytes.length then
      (.error (.load .filteredPayloadTooLarge), store, spent)
    else
      match serde.decode bytes with
      | none => (.error .malformed, store, spent)
      | some (loadId, items) =>
        match parseNonce loadId with
        | none => (.error .nonceMismatch, store, spent)
        | some supplied =>
          if !constantTimeEq supplied expected then (.error .nonceMismatch, store, spent)
          else
            match store.beginLoad window.epoch bytes.length with
            | (.error error, store) => (.error (.load error), store, spent)
            | (.ok candidate, store) =>
              match addAll candidate items with
              | .error error => (.error (.load error), store, spent)
              | .ok candidate => (.ok candidate, store, spent)

theorem addAll_ok {load load' : CandidateLoad ssh} {items : List CandidateItem} (hload : load.WF)
    (h : addAll load items = .ok load') : load'.WF ∧ load'.epoch = load.epoch := by
  induction items generalizing load with
  | nil =>
    obtain rfl := Except.ok.inj h
    exact ⟨hload, rfl⟩
  | cons item items ih =>
    have hadd := hload.add item
    have hepoch := (load.add_cases item).1
    unfold addAll at h
    split at h
    · next code next heq =>
      rw [heq] at hadd hepoch
      obtain ⟨hwf, heq'⟩ := ih hadd h
      exact ⟨hwf, heq'.trans hepoch⟩
    · cases h

/-- The store once a load has begun: loading at the load's epoch, no private key live. -/
def KeyStore.begun (store : KeyStore ssh) (epoch : Nat) : KeyStore ssh :=
  ⟨⟨epoch, .loading⟩, store.publicIdentities, []⟩

/-- The outcomes of `decode`. -/
inductive DecodeCase (serde : Serde) (window : LoadWindow) (bytes : Bytes) (store : KeyStore ssh) :
    Except PayloadError (CandidateLoad ssh) × KeyStore ssh × LoadWindow → Prop where
  | refused (error : PayloadError) :
      DecodeCase serde window bytes store (.error error, store, { window with nonce := none })
  | failed (error : PayloadError) (hepoch : store.epoch < window.epoch) :
      DecodeCase serde window bytes store
        (.error error, store.begun window.epoch, { window with nonce := none })
  | candidate (expected supplied : Bytes) (raw : RawEnvelope) (load : CandidateLoad ssh)
      (hnonce : window.nonce = some expected) (hraw : serde.envelope bytes = some raw)
      (hsupplied : parseNonce raw.loadId = some supplied) (heq : constantTimeEq supplied expected)
      (hepoch : store.epoch < window.epoch) (hload : load.WF) (hload' : load.epoch = window.epoch) :
      DecodeCase serde window bytes store
        (.ok load, store.begun window.epoch, { window with nonce := none })

theorem decode_case (serde : Serde) (window : LoadWindow) (bytes : Bytes) (store : KeyStore ssh) :
    DecodeCase serde window bytes store (window.decode serde bytes store) := by
  unfold LoadWindow.decode
  simp only
  split
  · exact .refused _
  next expected hnonce =>
  split
  · exact .refused _
  split
  · exact .refused _
  next loadId items hdecode =>
  split
  · exact .refused _
  next supplied hsupplied =>
  split
  · exact .refused _
  next heq =>
  have heq : constantTimeEq supplied expected := by simpa using heq
  obtain ⟨raw, hraw, hrawId⟩ : ∃ raw, serde.envelope bytes = some raw ∧ raw.loadId = loadId := by
    simp only [Serde.decode, Option.bind_eq_bind, Option.bind_eq_some_iff] at hdecode
    obtain ⟨raw, hraw, items', -, hpair⟩ := hdecode
    exact ⟨raw, hraw, congrArg Prod.fst (Option.some.inj hpair)⟩
  have hbegin := store.beginLoad_cases window.epoch bytes.length
  split
  · next error store' hstore =>
    rw [hstore] at hbegin
    rcases hbegin with ⟨-, heq⟩ | ⟨hlt, hbegun, -⟩
    · obtain ⟨-, rfl⟩ := Prod.mk.inj heq
      exact .refused _
    · obtain rfl : store' = _ := hbegun
      exact .failed _ hlt
  · next candidate store' hstore =>
    rw [hstore] at hbegin
    rcases hbegin with ⟨-, heq⟩ | ⟨hlt, hbegun, herr | hok⟩
    · cases (Prod.mk.inj heq).1
    · cases herr
    · obtain rfl : store' = _ := hbegun
      obtain rfl := Except.ok.inj hok
      split
      · exact .failed _ hlt
      · next load hload =>
        obtain ⟨hwf, hepoch⟩ := addAll_ok (.empty window.epoch) hload
        exact .candidate expected supplied raw load hnonce hraw (hrawId ▸ hsupplied) heq hlt hwf
          hepoch

end QsBitwarden.Agent
