import QsBitwarden.Lib.Utf8
import QsBitwarden.Agent.Protocol

/-!
# Agent — the grammar of what clients send (`agent/src/protocol.rs`)

The readers of `Protocol` go field by field. Here is what they accept, written as the bytes of whole
messages, and that it is exactly this.

* **`RequestPayload`**, **`RequestFrame`** — the frames of the three allowlisted requests;
  `decodeRequest_grammar` is the equivalence.
* **`Displayable`** — the texts that may be shown and compared.
* **`SignedData`** — the two forms of data to be signed that are recognised;
  `classifySign_exact` says that the classes are these forms and that no message has both.
-/

namespace QsBitwarden.Agent

open SshWire

variable {fields : Bytes} {request : AgentRequest}

/-! ## Request frames -/

/-- The payloads of requests: a kind byte and its fields, with nothing after them. -/
inductive RequestPayload (fingerprint : Bytes → String) : Bytes → AgentRequest → Prop where
  | identities : RequestPayload fingerprint [msgRequestIdentities] .identities
  | sign (blob message : Bytes) {flags : Nat} (hflags : flags < 2 ^ 32) :
    RequestPayload fingerprint
      (msgSignRequest :: (str blob ++ (str message ++ encodeU32 flags)))
      (.sign blob message flags)
  | sessionBind (forwarding : Bool) (signature : Bytes) {hostKey sessionId : Bytes}
      (hkey : 1 ≤ hostKey.length ∧ hostKey.length ≤ maxHostKey)
      (hsession : 1 ≤ sessionId.length ∧ sessionId.length ≤ maxSessionId) :
    RequestPayload fingerprint
      (msgExtension :: (str sessionBindName ++ (str hostKey ++ (str sessionId
        ++ (str signature ++ [if forwarding then 1 else 0])))))
      (.sessionBind forwarding ⟨sessionId, fingerprint hostKey⟩)

/-- A frame: the length of its payload, and the payload. -/
def RequestFrame (fingerprint : Bytes → String) (frame : Bytes) (request : AgentRequest) : Prop :=
  ∃ payload, 1 ≤ payload.length ∧ payload.length ≤ maxFrameLen
    ∧ frame = encodeU32 payload.length ++ payload ∧ RequestPayload fingerprint payload request

theorem decodeForwarding_iff {flag : UInt8} {forwarding : Bool} :
    decodeForwarding flag = some forwarding ↔ flag = if forwarding then 1 else 0 := by
  unfold decodeForwarding
  split
  · next h =>
    subst h
    cases forwarding <;> decide
  · split
    · next h =>
      subst h
      cases forwarding <;> decide
    · next h0 h1 => cases forwarding <;> simp [h0, h1]

/-- Short enough for a frame. -/
def Fits (fields : Bytes) : Prop := fields.length ≤ maxFrameLen

theorem Fits.behind {before : Bytes} (h : Fits (before ++ fields)) : Fits fields := by
  unfold Fits at h ⊢
  rw [List.length_append] at h
  omega

theorem Fits.tail {b : UInt8} (h : Fits (b :: fields)) : Fits fields :=
  Nat.le_of_succ_le h

/-- What fits has strings with 32-bit lengths only. -/
theorem Fits.decodeString {value rest : Bytes} (h : Fits (str value ++ rest)) :
    decodeString (str value ++ rest) = some (value, rest) := by
  refine decodeString_iff.mpr ⟨?_, rfl⟩
  unfold Fits maxFrameLen at h
  rw [List.length_append, length_str] at h
  omega

theorem Fits.decodeString_last {value : Bytes} (h : Fits (str value)) :
    SshWire.decodeString (str value) = some (value, []) := by
  rw [← List.append_nil (str value)] at h ⊢
  exact h.decodeString

theorem decodeSignRequest_iff (hfits : Fits fields) :
    decodeSignRequest fields = some request
      ↔ ∃ blob message flags, flags < 2 ^ 32 ∧ fields = str blob ++ (str message ++ encodeU32 flags)
        ∧ request = .sign blob message flags := by
  constructor
  · intro h
    unfold decodeSignRequest at h
    simp only [Option.bind_eq_bind, Option.bind_eq_some_iff] at h
    obtain ⟨⟨blob, fields1⟩, hblob, ⟨message, fields2⟩, hmessage, ⟨flags, fields3⟩, hflags, h⟩ := h
    split at h
    · cases h
    · next hempty =>
      obtain ⟨-, rfl⟩ := decodeString_iff.mp hblob
      obtain ⟨-, rfl⟩ := decodeString_iff.mp hmessage
      obtain ⟨hlt, rfl⟩ := decodeU32_iff.mp hflags
      have hnil : fields3 = [] := by simpa using hempty
      rw [hnil, List.append_nil]
      exact ⟨blob, message, flags, hlt, rfl, (Option.some.inj h).symm⟩
  · rintro ⟨blob, message, flags, hflags, rfl, rfl⟩
    have hlast : decodeU32 (encodeU32 flags) = some (flags, []) :=
      decodeU32_iff.mpr ⟨hflags, (List.append_nil _).symm⟩
    simp only [decodeSignRequest, Option.bind_eq_bind, Option.bind_eq_some_iff]
    exact ⟨(blob, _), hfits.decodeString, (message, _), hfits.behind.decodeString, (flags, []), hlast,
      rfl⟩

theorem bind_bounds {rest hostKey sessionId : Bytes} :
    (¬(!rest.isEmpty || hostKey.isEmpty || maxHostKey < hostKey.length || sessionId.isEmpty
        || maxSessionId < sessionId.length) = true)
      ↔ rest = [] ∧ (1 ≤ hostKey.length ∧ hostKey.length ≤ maxHostKey)
        ∧ 1 ≤ sessionId.length ∧ sessionId.length ≤ maxSessionId := by
  have hone : ∀ bytes : Bytes, bytes ≠ [] ↔ 1 ≤ bytes.length := fun _ => List.length_pos_iff.symm
  simp only [Bool.or_eq_true, Bool.not_eq_true', List.isEmpty_eq_false_iff, List.isEmpty_iff,
    decide_eq_true_eq, not_or, Nat.not_lt, not_not, and_assoc]
  rw [← ne_eq hostKey, ← ne_eq sessionId, hone, hone]

theorem decodeSessionBind_iff {fingerprint : Bytes → String} (hfits : Fits fields) :
    decodeSessionBind fingerprint fields = some request
      ↔ ∃ hostKey sessionId signature forwarding,
        (1 ≤ hostKey.length ∧ hostKey.length ≤ maxHostKey)
        ∧ (1 ≤ sessionId.length ∧ sessionId.length ≤ maxSessionId)
        ∧ fields = str sessionBindName ++ (str hostKey ++ (str sessionId
          ++ (str signature ++ [if forwarding then 1 else 0])))
        ∧ request = .sessionBind forwarding ⟨sessionId, fingerprint hostKey⟩ := by
  constructor
  · intro h
    unfold decodeSessionBind at h
    simp only [Option.bind_eq_bind, Option.bind_eq_some_iff] at h
    obtain ⟨⟨name, fields1⟩, hname, h⟩ := h
    split at h
    · cases h
    next hbind =>
    simp only [Option.bind_eq_some_iff] at h
    obtain ⟨⟨hostKey, fields2⟩, hhost, ⟨sessionId, fields3⟩, hsession, ⟨signature, fields4⟩,
      hsignature, ⟨flag, fields5⟩, hflag, forwarding, hforwarding, h⟩ := h
    split at h
    · cases h
    next hbounds =>
    obtain ⟨-, rfl⟩ := decodeString_iff.mp hname
    obtain ⟨-, rfl⟩ := decodeString_iff.mp hhost
    obtain ⟨-, rfl⟩ := decodeString_iff.mp hsession
    obtain ⟨-, rfl⟩ := decodeString_iff.mp hsignature
    obtain rfl := decodeU8_iff.mp hflag
    obtain rfl : name = sessionBindName := by simpa using hbind
    obtain ⟨rfl, hkey, hsessionId⟩ := bind_bounds.mp hbounds
    obtain rfl := decodeForwarding_iff.mp hforwarding
    exact ⟨hostKey, sessionId, signature, forwarding, hkey, hsessionId, rfl,
      (Option.some.inj h).symm⟩
  · rintro ⟨hostKey, sessionId, signature, forwarding, hkey, hsession, rfl, rfl⟩
    have hhost := hfits.behind
    have hid := hhost.behind
    simp only [decodeSessionBind, Option.bind_eq_bind, Option.bind_eq_some_iff]
    refine ⟨(sessionBindName, _), hfits.decodeString, ?_⟩
    rw [if_neg (by simp)]
    simp only [Option.bind_eq_some_iff]
    exact ⟨(hostKey, _), hhost.decodeString, (sessionId, _), hid.decodeString, (signature, _),
      hid.behind.decodeString, (_, []), rfl, forwarding, decodeForwarding_iff.mpr rfl,
      if_neg (bind_bounds.mpr ⟨rfl, hkey, hsession⟩)⟩

/-- **Exactly the frames of the grammar are accepted**, each as the request it is a frame of. -/
theorem decodeRequest_iff {fingerprint : Bytes → String} {frame : Bytes} :
    decodeRequest fingerprint frame = some request ↔ RequestFrame fingerprint frame request := by
  constructor
  · intro h
    unfold decodeRequest at h
    split at h
    · cases h
    next declared payload hdeclared =>
    obtain ⟨-, rfl⟩ := decodeU32_iff.mp hdeclared
    split at h
    · cases h
    next hlength =>
    obtain ⟨hzero, hmax, hexact⟩ := by simpa only [not_or, not_not, Nat.not_lt] using hlength
    subst hexact
    refine ⟨payload, Nat.one_le_iff_ne_zero.mpr hzero, hmax, rfl, ?_⟩
    split at h
    · cases h
    next kind fields =>
    have hfits : Fits fields := Fits.tail hmax
    split_ifs at h with hidentities hsign hbind
    · obtain ⟨rfl, rfl⟩ := hidentities
      obtain rfl := Option.some.inj h
      exact .identities
    · subst hsign
      obtain ⟨blob, message, flags, hflags, rfl, rfl⟩ := (decodeSignRequest_iff hfits).mp h
      exact .sign blob message hflags
    · subst hbind
      obtain ⟨hostKey, sessionId, signature, forwarding, hkey, hsession, rfl, rfl⟩ :=
        (decodeSessionBind_iff hfits).mp h
      exact .sessionBind forwarding signature hkey hsession
  · rintro ⟨payload, hpos, hmax, rfl, hpayload⟩
    have hdeclared : decodeU32 (encodeU32 payload.length ++ payload)
        = some (payload.length, payload) := decodeU32_encode (by unfold maxFrameLen at hmax; omega) _
    have hlength : ¬(payload.length = 0 ∨ maxFrameLen < payload.length
        ∨ payload.length ≠ payload.length) := by
      simp only [ne_eq, not_true_eq_false, or_false, not_or, Nat.not_lt]
      exact ⟨Nat.one_le_iff_ne_zero.mp hpos, hmax⟩
    rw [decodeRequest, hdeclared]
    show (if _ then _ else _) = _
    rw [if_neg hlength]
    cases hpayload with
    | identities => rfl
    | sign blob message hflags =>
      have hfits := Fits.tail hmax
      exact (decodeSignRequest_iff hfits).mpr ⟨blob, message, _, hflags, rfl, rfl⟩
    | sessionBind forwarding signature hkey hsession =>
      have hfits := Fits.tail hmax
      exact (decodeSessionBind_iff hfits).mpr ⟨_, _, signature, forwarding, hkey, hsession, rfl, rfl⟩

/-- The frame of a sign request. -/
def signFrame (blob message : Bytes) (flags : Nat) : Bytes :=
  let payload := msgSignRequest :: (str blob ++ (str message ++ encodeU32 flags))
  encodeU32 payload.length ++ payload

/-- **`decode_request` accepts exactly its wire grammar.** So every sign request that fits is read
back as it was written, and from one frame only. -/
theorem decodeRequest_grammar (fingerprint : Bytes → String) :
    (∀ frame request, decodeRequest fingerprint frame = some request
      ↔ RequestFrame fingerprint frame request)
    ∧ (∀ blob message flags, flags < 2 ^ 32 → blob.length + message.length + 13 ≤ maxFrameLen →
      decodeRequest fingerprint (signFrame blob message flags) = some (.sign blob message flags))
    ∧ ∀ frame frame' blob message flags,
      decodeRequest fingerprint frame = some (.sign blob message flags) →
      decodeRequest fingerprint frame' = some (.sign blob message flags) → frame = frame' := by
  refine ⟨fun _ _ => decodeRequest_iff, fun blob message flags hflags hlength => ?_,
    fun frame frame' blob message flags h h' => ?_⟩
  · refine decodeRequest_iff.mpr ⟨_, ?_, ?_, rfl, .sign blob message hflags⟩
    · exact Nat.succ_pos _
    · simp only [List.length_cons, List.length_append, length_str, encodeU32, List.length_nil]
      omega
  · obtain ⟨payload, -, -, rfl, hpayload⟩ := decodeRequest_iff.mp h
    obtain ⟨payload', -, -, rfl, hpayload'⟩ := decodeRequest_iff.mp h'
    cases hpayload
    cases hpayload'
    rfl

/-! ## Data to be signed -/

/-- The bytes of a text that may be shown and compared: not empty, bounded, and without a character
that is not seen. -/
structure Displayable (bytes : Bytes) (text : String) : Prop where
  utf8 : bytes = Utf8.encode text.toList
  nonempty : bytes ≠ []
  bounded : bytes.length ≤ maxSignDetail
  visible : ∀ c ∈ text.toList, isInvisible c = false

theorem displayDetail_iff {bytes : Bytes} {text : String} :
    displayDetail bytes = some text ↔ Displayable bytes text := by
  have hread : String.fromUTF8? ⟨bytes.toArray⟩ = some text ↔ bytes = Utf8.encode text.toList := by
    rw [← Utf8.fromUtf8_eq_some, Utf8.fromUtf8, Option.map_eq_some_iff]
    constructor
    · intro h
      exact ⟨text, h, rfl⟩
    · rintro ⟨found, h, heq⟩
      exact String.toList_inj.mp heq ▸ h
  unfold displayDetail
  constructor
  · intro h
    split at h
    · cases h
    next hbounds =>
    split at h
    · cases h
    next found hfound =>
    split at h
    · cases h
    next hvisible =>
    obtain rfl := Option.some.inj h
    simp only [Bool.or_eq_true, List.isEmpty_iff, decide_eq_true_eq, not_or, Nat.not_lt] at hbounds
    exact ⟨hread.mp hfound, hbounds.1, hbounds.2, by simpa using hvisible⟩
  · intro h
    have hbounds : ¬(bytes.isEmpty || decide (maxSignDetail < bytes.length)) = true := by
      simp only [Bool.or_eq_true, List.isEmpty_iff, decide_eq_true_eq, not_or, Nat.not_lt]
      exact ⟨h.nonempty, h.bounded⟩
    have hvisible : ¬text.toList.any isInvisible = true := by simpa using h.visible
    rw [if_neg hbounds, hread.mpr h.utf8]
    exact if_neg hvisible

/-- The newest bind of a session. -/
def Newest (binds : List SessionBinding) (sessionId : Bytes) (host : String) : Prop :=
  ∃ before bind after, binds = before ++ bind :: after ∧ bind.sessionId = sessionId
    ∧ bind.hostKey = host ∧ ∀ later ∈ after, later.sessionId ≠ sessionId

def Unbound (binds : List SessionBinding) (sessionId : Bytes) : Prop :=
  ∀ bind ∈ binds, bind.sessionId ≠ sessionId

/-- The server a login goes to, by the binds of the session and the host key that is signed. -/
inductive LoginHost (binds : List SessionBinding) (sessionId : Bytes) :
    Option String → String → Prop where
  | bound {host : String} (h : Newest binds sessionId host) : LoginHost binds sessionId none host
  | agreed {host : String} (h : Newest binds sessionId host) :
    LoginHost binds sessionId (some host) host
  | signed {host : String} (h : Unbound binds sessionId) :
    LoginHost binds sessionId (some host) host
  | unknown (h : Unbound binds sessionId) : LoginHost binds sessionId none ""

/-- The end of a login: nothing, or for the host-bound method the server's host key. -/
inductive LoginEnd (fingerprint : Bytes → String) : Bytes → Bytes → Option String → Prop where
  | publickey : LoginEnd fingerprint methodPublickey [] none
  | hostbound {hostKey : Bytes} (h : 1 ≤ hostKey.length ∧ hostKey.length ≤ maxHostKey) :
    LoginEnd fingerprint methodHostbound (str hostKey) (some (fingerprint hostKey))

/-- The data to be signed that are recognised, byte by byte. -/
inductive SignedData (fingerprint : Bytes → String) (publicBlob : Bytes)
    (binds : List SessionBinding) : Bytes → SignKind → Prop where
  | sshSig {nameSpace : Bytes} {text : String} (reserved digest : Bytes) {hash : Bytes}
      (hname : Displayable nameSpace text) (hhash : hash ∈ sshsigHashes) :
    SignedData fingerprint publicBlob binds
      (sshsigPreamble ++ (str nameSpace ++ (str reserved ++ (str hash ++ str digest))))
      (.sshSig text)
  | userAuth {user : Bytes} {text host : String} {method tail : Bytes} {signed : Option String}
      (sessionId service algorithm : Bytes) (huser : Displayable user text)
      (hend : LoginEnd fingerprint method tail signed)
      (hhost : LoginHost binds sessionId signed host) :
    SignedData fingerprint publicBlob binds
      (str sessionId ++ (userauthRequest :: (str user ++ (str service ++ (str method
        ++ (1 :: (str algorithm ++ (str publicBlob ++ tail))))))))
      (.userAuth text host)

section Classify

variable {fingerprint : Bytes → String} {publicBlob message : Bytes} {binds : List SessionBinding}

variable {text host : String} {sessionId method : Bytes} {signed : Option String}

theorem sshsigNamespace_iff (hfits : Fits message) :
    sshsigNamespace message = some text
      ↔ SignedData fingerprint publicBlob binds message (.sshSig text) := by
  constructor
  · intro h
    unfold sshsigNamespace at h
    split at h
    · next hpreamble =>
      simp only [Option.bind_eq_bind, Option.bind_eq_some_iff] at h
      obtain ⟨⟨nameSpace, fields1⟩, hname, ⟨reserved, fields2⟩, hreserved, ⟨hash, fields3⟩, hhash,
        ⟨digest, fields4⟩, hdigest, h⟩ := h
      split at h
      · cases h
      next hrest =>
      obtain ⟨-, hmessage⟩ := decodeString_iff.mp hname
      obtain ⟨-, rfl⟩ := decodeString_iff.mp hreserved
      obtain ⟨-, rfl⟩ := decodeString_iff.mp hhash
      obtain ⟨-, rfl⟩ := decodeString_iff.mp hdigest
      obtain ⟨hnil, hknown⟩ : fields4 = [] ∧ hash ∈ sshsigHashes := by simpa using hrest
      have hwhole : message
          = sshsigPreamble ++ (str nameSpace ++ (str reserved ++ (str hash ++ str digest))) := by
        rw [← List.take_append_drop sshsigPreamble.length message, hpreamble, hmessage, hnil,
          List.append_nil]
      rw [hwhole]
      exact .sshSig reserved digest (displayDetail_iff.mp h) hknown
    · cases h
  · intro h
    cases h with
    | @sshSig nameSpace _ reserved digest hash hname hhash =>
      have hfields := hfits.behind
      have hreserved := hfields.behind
      have hknown : ¬(!List.isEmpty ([] : Bytes) || !sshsigHashes.contains hash) = true := by
        simpa using hhash
      rw [sshsigNamespace, if_pos List.take_left, List.drop_left]
      simp only [Option.bind_eq_bind, Option.bind_eq_some_iff]
      exact ⟨(nameSpace, _), hfields.decodeString, (reserved, _), hreserved.decodeString, (hash, _),
        hreserved.behind.decodeString, (digest, []), hreserved.behind.behind.decodeString_last,
        (if_neg hknown).trans (displayDetail_iff.mpr hname)⟩

/-! ### The server of a login -/

/-- The host key of the newest bind, as it is looked for. -/
def boundHost (binds : List SessionBinding) (sessionId : Bytes) : Option String :=
  (binds.reverse.find? fun bind => bind.sessionId = sessionId).map (·.hostKey)

theorem boundHost_eq_some :
    boundHost binds sessionId = some host ↔ Newest binds sessionId host := by
  unfold boundHost
  rw [Option.map_eq_some_iff]
  constructor
  · rintro ⟨bind, hfind, rfl⟩
    obtain ⟨hsession, after, before, hsplit, hafter⟩ := List.find?_eq_some_iff_append.mp hfind
    refine ⟨before.reverse, bind, after.reverse, ?_, by simpa using hsession, rfl, ?_⟩
    · rw [← List.reverse_reverse binds, hsplit]
      simp
    · intro later hlater
      simpa using hafter later (List.mem_reverse.mp hlater)
  · rintro ⟨before, bind, after, rfl, hsession, rfl, hafter⟩
    refine ⟨bind, List.find?_eq_some_iff_append.mpr ⟨by simpa using hsession, after.reverse,
      before.reverse, by simp, ?_⟩, rfl⟩
    intro later hlater
    simpa using hafter later (List.mem_reverse.mp hlater)

theorem boundHost_eq_none : boundHost binds sessionId = none ↔ Unbound binds sessionId := by
  simp [boundHost, Unbound]

/-- The host of a login, as the two sources of it are put together. -/
def loginHost (bound signed : Option String) : Option String :=
  match bound, signed with
  | some bound, some signed => if bound ≠ signed then none else some bound
  | some bound, none => some bound
  | none, some signed => some signed
  | none, none => some ""

theorem loginHost_iff :
    loginHost (boundHost binds sessionId) signed = some host
      ↔ LoginHost binds sessionId signed host := by
  constructor
  · intro h
    cases hbound : boundHost binds sessionId with
    | none =>
      have hunbound := boundHost_eq_none.mp hbound
      rw [hbound] at h
      cases signed with
      | none =>
        obtain rfl := Option.some.inj h
        exact .unknown hunbound
      | some signed =>
        obtain rfl := Option.some.inj h
        exact .signed hunbound
    | some bound =>
      have hnewest := boundHost_eq_some.mp hbound
      rw [hbound] at h
      cases signed with
      | none =>
        obtain rfl := Option.some.inj h
        exact .bound hnewest
      | some signed =>
        rw [loginHost] at h
        split at h
        · cases h
        · next hsame =>
          obtain rfl := Option.some.inj h
          rw [← not_not.mp hsame]
          exact .agreed hnewest
  · intro h
    cases h with
    | bound h => rw [boundHost_eq_some.mpr h]; rfl
    | agreed h => rw [boundHost_eq_some.mpr h]; exact if_neg (not_not.mpr rfl)
    | signed h | unknown h => rw [boundHost_eq_none.mpr h]; rfl

theorem hostKey_bounds {hostKey : Bytes} :
    (¬(hostKey.isEmpty || decide (maxHostKey < hostKey.length)) = true)
      ↔ 1 ≤ hostKey.length ∧ hostKey.length ≤ maxHostKey := by
  simp only [Bool.or_eq_true, List.isEmpty_iff, decide_eq_true_eq, not_or, Nat.not_lt]
  rw [← ne_eq, List.ne_nil_iff_length_pos, Nat.succ_le_iff]

/-- The signed host of the host-bound method, or none. -/
def loginEnd (fingerprint : Bytes → String) (method fields : Bytes) :
    Option (Option String × Bytes) :=
  if method = methodHostbound then
    (decodeString fields).bind fun r =>
      if r.1.isEmpty || maxHostKey < r.1.length then none else some (some (fingerprint r.1), r.2)
  else some (none, fields)

theorem loginEnd_sound {fields : Bytes}
    (hmethod : method = methodPublickey ∨ method = methodHostbound)
    (h : loginEnd fingerprint method fields = some (signed, [])) :
    LoginEnd fingerprint method fields signed := by
  rcases hmethod with rfl | rfl
  · have hne : methodPublickey ≠ methodHostbound := by decide
    rw [loginEnd, if_neg hne] at h
    obtain ⟨rfl, rfl⟩ := Prod.mk.inj (Option.some.inj h)
    exact .publickey
  · rw [loginEnd, if_pos rfl] at h
    obtain ⟨⟨hostKey, rest⟩, hkey, h⟩ := Option.bind_eq_some_iff.mp h
    split at h
    · cases h
    next hbounds =>
    obtain ⟨rfl, rfl⟩ := Prod.mk.inj (Option.some.inj h)
    obtain ⟨-, rfl⟩ := decodeString_iff.mp hkey
    rw [List.append_nil]
    exact .hostbound (hostKey_bounds.mp hbounds)

theorem loginEnd_complete {tail : Bytes} (hfits : Fits tail)
    (h : LoginEnd fingerprint method tail signed) :
    loginEnd fingerprint method tail = some (signed, []) := by
  cases h with
  | publickey =>
    have hne : methodPublickey ≠ methodHostbound := by decide
    exact if_neg hne
  | hostbound hkey =>
    rw [loginEnd, if_pos rfl, hfits.decodeString_last, Option.bind_some]
    exact if_neg (hostKey_bounds.mpr hkey)

theorem LoginEnd.method_known {tail : Bytes} (h : LoginEnd fingerprint method tail signed) :
    ¬(decide (method ≠ methodPublickey) && decide (method ≠ methodHostbound)) = true := by
  cases h with
  | publickey => decide
  | hostbound => decide

/-- The end of the fields, the key, the two hosts and the name, one after the other. -/
def loginResult (publicBlob : Bytes) (binds : List SessionBinding) (sessionId user key : Bytes)
    (signed : Option String) (rest : Bytes) : Option SignKind :=
  if !rest.isEmpty || key ≠ publicBlob then none
  else (loginHost (boundHost binds sessionId) signed).bind fun host =>
    (displayDetail user).bind fun user => some (.userAuth user host)

/-- `userauth` as a chain of readers. -/
theorem userauth_eq :
    userauth fingerprint publicBlob message binds =
      (decodeString message).bind fun session => (decodeU8 session.2).bind fun kind =>
      if kind.1 ≠ userauthRequest then none else
      (decodeString kind.2).bind fun user => (decodeString user.2).bind fun service =>
      (decodeString service.2).bind fun method =>
      if method.1 ≠ methodPublickey && method.1 ≠ methodHostbound then none else
      (decodeU8 method.2).bind fun signs =>
      if signs.1 ≠ 1 then none else
      (decodeString signs.2).bind fun algorithm => (decodeString algorithm.2).bind fun key =>
      (loginEnd fingerprint method.1 key.2).bind fun tail =>
        loginResult publicBlob binds session.1 user.1 key.1 tail.1 tail.2 := by
  unfold userauth
  refine Option.bind_congr fun session _ => Option.bind_congr fun kind _ => ?_
  refine if_congr Iff.rfl rfl ?_
  refine Option.bind_congr fun user _ => Option.bind_congr fun service _ =>
    Option.bind_congr fun method _ => ?_
  refine if_congr Iff.rfl rfl ?_
  refine Option.bind_congr fun signs _ => ?_
  refine if_congr Iff.rfl rfl ?_
  refine Option.bind_congr fun algorithm _ => Option.bind_congr fun key _ => ?_
  -- the hosts: by the method, then by the binds
  obtain ⟨key, fields⟩ := key
  show (if method.1 = methodHostbound then _ else _) = _
  unfold loginEnd loginResult boundHost
  by_cases hmethod : method.1 = methodHostbound
  · rw [if_pos hmethod, if_pos hmethod]
    show _ = Option.bind (Option.bind (decodeString fields) _) _
    cases decodeString fields with
    | none => rfl
    | some r =>
      cases (binds.reverse.find? fun bind => bind.sessionId = session.1).map (·.hostKey) with
      | none =>
        show (if _ then _ else _) = Option.bind (if _ then _ else _) _
        split
        · rfl
        · rfl
      | some bound =>
        show (if _ then _ else _) = Option.bind (if _ then _ else _) _
        split
        · rfl
        · refine if_congr Iff.rfl rfl ?_
          show (if _ then _ else _) = Option.bind (if _ then _ else _) _
          split
          · rfl
          · rfl
  · rw [if_neg hmethod, if_neg hmethod]
    cases (binds.reverse.find? fun bind => bind.sessionId = session.1).map (·.hostKey) <;> rfl

theorem userauth_iff {kind : SignKind} (hfits : Fits message) :
    userauth fingerprint publicBlob message binds = some kind
      ↔ ∃ user host, kind = .userAuth user host
        ∧ SignedData fingerprint publicBlob binds message kind := by
  rw [userauth_eq]
  constructor
  · intro h
    obtain ⟨⟨sessionId, fields1⟩, hsession, h⟩ := Option.bind_eq_some_iff.mp h
    obtain ⟨⟨type, fields2⟩, htype, h⟩ := Option.bind_eq_some_iff.mp h
    split at h
    · cases h
    next hrequest =>
    obtain ⟨⟨user, fields3⟩, huser, h⟩ := Option.bind_eq_some_iff.mp h
    obtain ⟨⟨service, fields4⟩, hservice, h⟩ := Option.bind_eq_some_iff.mp h
    obtain ⟨⟨method, fields5⟩, hmethod, h⟩ := Option.bind_eq_some_iff.mp h
    split at h
    · cases h
    next hmethods =>
    obtain ⟨⟨signs, fields6⟩, hsigns, h⟩ := Option.bind_eq_some_iff.mp h
    split at h
    · cases h
    next hone =>
    obtain ⟨⟨algorithm, fields7⟩, halgorithm, h⟩ := Option.bind_eq_some_iff.mp h
    obtain ⟨⟨key, fields8⟩, hkey, h⟩ := Option.bind_eq_some_iff.mp h
    obtain ⟨⟨signed, fields9⟩, hend, h⟩ := Option.bind_eq_some_iff.mp h
    unfold loginResult at h
    split at h
    · cases h
    next hrest =>
    obtain ⟨host, hhost, h⟩ := Option.bind_eq_some_iff.mp h
    obtain ⟨text, htext, h⟩ := Option.bind_eq_some_iff.mp h
    obtain rfl := Option.some.inj h
    -- the readers are inverted from the last to the first, so that each is the next one's rest
    obtain ⟨hnil, hblob⟩ : fields9 = [] ∧ key = publicBlob := by simpa using hrest
    have hlogin : LoginEnd fingerprint method fields8 signed := by
      rw [hnil] at hend
      exact loginEnd_sound (by simpa [or_iff_not_imp_left] using hmethods) hend
    subst hblob
    obtain ⟨-, rfl⟩ := decodeString_iff.mp hkey
    obtain ⟨-, rfl⟩ := decodeString_iff.mp halgorithm
    obtain rfl := decodeU8_iff.mp hsigns
    obtain ⟨-, rfl⟩ := decodeString_iff.mp hmethod
    obtain ⟨-, rfl⟩ := decodeString_iff.mp hservice
    obtain ⟨-, rfl⟩ := decodeString_iff.mp huser
    obtain rfl := decodeU8_iff.mp htype
    obtain ⟨-, rfl⟩ := decodeString_iff.mp hsession
    obtain rfl : type = userauthRequest := by simpa using hrequest
    obtain rfl : signs = 1 := by simpa using hone
    exact ⟨text, host, rfl, .userAuth sessionId service algorithm (displayDetail_iff.mp htext) hlogin
      (loginHost_iff.mp hhost)⟩
  · rintro ⟨text, host, rfl, h⟩
    cases h with
    | @userAuth user _ _ method tail signed sessionId service algorithm huser hend hhost =>
      have huserFits := hfits.behind.tail
      have hmethodFits := huserFits.behind.behind
      have halgorithmFits := hmethodFits.behind.tail
      have hkeyFits := halgorithmFits.behind
      have hresult : loginResult publicBlob binds sessionId user publicBlob signed []
          = some (.userAuth text host) := by
        rw [loginResult, if_neg (by simp), loginHost_iff.mpr hhost, Option.bind_some,
          displayDetail_iff.mpr huser, Option.bind_some]
      rw [hfits.decodeString, Option.bind_some, decodeU8, Option.bind_some,
        if_neg (not_not.mpr rfl), huserFits.decodeString, Option.bind_some,
        huserFits.behind.decodeString, Option.bind_some, hmethodFits.decodeString, Option.bind_some,
        if_neg hend.method_known, decodeU8, Option.bind_some, if_neg (not_not.mpr rfl),
        halgorithmFits.decodeString, Option.bind_some, hkeyFits.decodeString, Option.bind_some,
        loginEnd_complete hkeyFits.behind hend, Option.bind_some, hresult]

/-- The preamble read as the length of a session id is longer than any frame. -/
theorem userauth_of_preamble (hfits : Fits message)
    (hpreamble : message.take sshsigPreamble.length = sshsigPreamble) :
    userauth fingerprint publicBlob message binds = none := by
  have hdecode : decodeString message = none := by
    obtain ⟨rest, rfl⟩ : ∃ rest, message = 83 :: 83 :: 72 :: 83 :: rest := by
      refine ⟨73 :: 71 :: message.drop 6, ?_⟩
      calc message = message.take 6 ++ message.drop 6 := (List.take_append_drop 6 message).symm
        _ = sshsigPreamble ++ message.drop 6 := by rw [← hpreamble]; rfl
    apply decodeString_short
    have hbig : beU32 83 83 72 83 = 1397966931 := by decide
    have hshort : rest.length + 4 ≤ maxFrameLen := hfits
    unfold maxFrameLen at hshort
    omega
  rw [userauth_eq, hdecode]
  rfl

theorem preamble_of_sshsig (h : sshsigNamespace message = some text) :
    message.take sshsigPreamble.length = sshsigPreamble := by
  unfold sshsigNamespace at h
  split at h
  · next hpreamble => exact hpreamble
  · cases h

variable (hfits : Fits message)
include hfits

/-- No message has both forms. -/
theorem sshsig_or_userauth :
    sshsigNamespace message = none ∨ userauth fingerprint publicBlob message binds = none := by
  cases hsshsig : sshsigNamespace message with
  | none => exact .inl rfl
  | some text => exact .inr (userauth_of_preamble hfits (preamble_of_sshsig hsshsig))

theorem classifySign_sshSig :
    classifySign fingerprint publicBlob message binds = .sshSig text
      ↔ SignedData fingerprint publicBlob binds message (.sshSig text) := by
  rw [← sshsigNamespace_iff hfits, classifySign]
  cases hsshsig : sshsigNamespace message with
  | some found => simp
  | none =>
    -- the other reader makes no signature of a file
    have hne : (userauth fingerprint publicBlob message binds).getD .other ≠ .sshSig text := by
      cases huserauth : userauth fingerprint publicBlob message binds with
      | none => exact fun h => nomatch h
      | some kind =>
        obtain ⟨user, host, rfl, -⟩ := (userauth_iff hfits).mp huserauth
        exact fun h => nomatch h
    exact ⟨fun h => absurd h hne, fun h => nomatch h⟩

theorem classifySign_userAuth {user : String} :
    classifySign fingerprint publicBlob message binds = .userAuth user host
      ↔ SignedData fingerprint publicBlob binds message (.userAuth user host) := by
  have hdata : userauth fingerprint publicBlob message binds = some (.userAuth user host)
      ↔ SignedData fingerprint publicBlob binds message (.userAuth user host) :=
    (userauth_iff hfits).trans ⟨fun ⟨_, _, _, h⟩ => h, fun h => ⟨user, host, rfl, h⟩⟩
  rw [← hdata, classifySign]
  cases hsshsig : sshsigNamespace message with
  | some found =>
    rw [userauth_of_preamble hfits (preamble_of_sshsig hsshsig)]
    exact ⟨(fun h => nomatch h), (fun h => nomatch h)⟩
  | none =>
    cases userauth fingerprint publicBlob message binds with
    | none => exact ⟨(fun h => nomatch h), (fun h => nomatch h)⟩
    | some kind => simp

end Classify

/-- **The classes of sign requests are the two forms**, which no message has both of; any other
message is `other`. -/
theorem classifySign_exact (fingerprint : Bytes → String) (publicBlob : Bytes)
    (binds : List SessionBinding) (message : Bytes) (hfits : message.length ≤ maxFrameLen) :
    (sshsigNamespace message = none ∨ userauth fingerprint publicBlob message binds = none)
    ∧ (∀ kind, kind ≠ .other → (classifySign fingerprint publicBlob message binds = kind
      ↔ SignedData fingerprint publicBlob binds message kind))
    ∧ (classifySign fingerprint publicBlob message binds = .other
      ↔ ∀ kind, ¬SignedData fingerprint publicBlob binds message kind) := by
  have hclass : ∀ kind, kind ≠ .other → (classifySign fingerprint publicBlob message binds = kind
      ↔ SignedData fingerprint publicBlob binds message kind) := by
    intro kind hkind
    cases kind with
    | sshSig text => exact classifySign_sshSig hfits
    | userAuth user host => exact classifySign_userAuth hfits
    | other => exact absurd rfl hkind
  refine ⟨sshsig_or_userauth hfits, hclass, fun hother kind hdata => ?_, fun hnone => ?_⟩
  · have hkind : kind ≠ .other := by
      rintro rfl
      cases hdata
    exact hkind (((hclass kind hkind).mpr hdata).symm.trans hother)
  · by_contra hkind
    exact hnone _ ((hclass _ hkind).mp rfl)

/-- A signature in the namespace `a`. -/
theorem classifySign_exact_namespace :
    classifySign (fun _ => "") []
      (sshsigPreamble ++ (str [97] ++ (str [] ++ (str [115, 104, 97, 50, 53, 54] ++ str [])))) []
      = .sshSig "a" := by
  have hfits : (sshsigPreamble ++ (str [97] ++ (str [] ++ (str [115, 104, 97, 50, 53, 54]
      ++ str [])))).length ≤ maxFrameLen := by decide
  have hvisible : ∀ c ∈ "a".toList, isInvisible c = false := by
    intro c hc
    obtain rfl : c = 'a' := List.mem_singleton.mp hc
    decide
  have hname : Displayable [97] "a" := ⟨by decide, by decide, by decide, hvisible⟩
  exact ((classifySign_exact _ _ _ _ hfits).2.1 _ (by decide)).mpr
    (.sshSig [] [] hname (by decide))

end QsBitwarden.Agent
