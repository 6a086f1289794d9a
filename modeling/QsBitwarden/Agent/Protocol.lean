import QsBitwarden.Lib.SshWire

/-!
# Agent — the SSH agent protocol (`agent/src/protocol.rs`)

The frames a client may send and the frames it is answered with. A request is one of three
allowlisted kinds; anything else, and anything malformed, is refused.

* **`decodeRequest`** — a length-prefixed frame to an `AgentRequest`.
* **`mayBeSessionBind`** — whether a frame `decodeRequest` refused could have been a
  `session-bind@openssh.com`; the server then assumes it said *forwarding*.
* **`classifySign`** — what the data to be signed is for. Grants are scoped to it.

The SHA-256 fingerprint of a host key comes from outside (`sha2` and `ssh_key`), so it is a
parameter wherever it is used.
-/

namespace QsBitwarden.Agent

open SshWire

/-- Largest accepted message body, excluding its four-byte prefix. -/
def maxFrameLen : Nat := 256 * 1024

def msgFailure : UInt8 := 5
def msgSuccess : UInt8 := 6
def msgRequestIdentities : UInt8 := 11
def msgIdentitiesAnswer : UInt8 := 12
def msgSignRequest : UInt8 := 13
def msgSignResponse : UInt8 := 14
def msgExtension : UInt8 := 27

/-- `b"session-bind@openssh.com"`. -/
def sessionBindName : Bytes :=
  [115, 101, 115, 115, 105, 111, 110, 45, 98, 105, 110, 100, 64, 111, 112, 101, 110, 115, 115,
    104, 46, 99, 111, 109]

/-- RFC 4252 `SSH_MSG_USERAUTH_REQUEST`. -/
def userauthRequest : UInt8 := 50

/-- `b"SSHSIG"`. -/
def sshsigPreamble : Bytes := [83, 83, 72, 83, 73, 71]

/-- `b"sha256"` and `b"sha512"`. -/
def sshsigHashes : List Bytes := [[115, 104, 97, 50, 53, 54], [115, 104, 97, 53, 49, 50]]

/-- `b"publickey"`. -/
def methodPublickey : Bytes := [112, 117, 98, 108, 105, 99, 107, 101, 121]

/-- `b"publickey-hostbound-v00@openssh.com"`. -/
def methodHostbound : Bytes :=
  [112, 117, 98, 108, 105, 99, 107, 101, 121, 45, 104, 111, 115, 116, 98, 111, 117, 110, 100, 45,
    118, 48, 48, 64, 111, 112, 101, 110, 115, 115, 104, 46, 99, 111, 109]

def maxSignDetail : Nat := 256
def maxSessionId : Nat := 256
def maxHostKey : Nat := 16 * 1024

/-! ## Requests -/

/-- One bound session: its key-exchange hash and the server's host key fingerprint. -/
structure SessionBinding where
  sessionId : Bytes
  hostKey : String
  deriving DecidableEq

inductive AgentRequest where
  | identities
  | sign (publicBlob message : Bytes) (flags : Nat)
  | sessionBind (forwarding : Bool) (binding : SessionBinding)
  deriving DecidableEq

/-- What a sign request asks for, read from the signed data. -/
inductive SignKind where
  | sshSig (nameSpace : String)
  | userAuth (user host : String)
  | other
  deriving DecidableEq

/-- The `operation` field the panel reads. -/
def SignKind.operation : SignKind → String
  | .sshSig _ => "sshsig"
  | .userAuth _ _ => "ssh-auth"
  | .other => "ssh-sign"

/-- The namespace or login name that goes with `operation`. -/
def SignKind.detail : SignKind → String
  | .sshSig nameSpace => nameSpace
  | .userAuth user _ => user
  | .other => ""

/-- The server host key fingerprint a login goes to. -/
def SignKind.host : SignKind → String
  | .userAuth _ host => host
  | _ => ""

/-! ## What may be shown -/

/-- Whether a character draws as nothing or changes how its neighbours are drawn. -/
def isInvisible (c : Char) : Bool :=
  -- `char::is_control` is the Unicode category Cc.
  c.toNat ≤ 0x1f || (0x7f ≤ c.toNat && c.toNat ≤ 0x9f)
    || (0x200b ≤ c.toNat && c.toNat ≤ 0x200f)
    || (0x2028 ≤ c.toNat && c.toNat ≤ 0x202e)
    || (0x2066 ≤ c.toNat && c.toNat ≤ 0x2069)
    || c.toNat == 0xfeff

/-- `\uXXXX`, at least four lower-case hexadecimal digits. -/
def escapeChar (c : Char) : List Char :=
  '\\' :: 'u' :: (Nat.toDigits 16 c.toNat).leftpad 4 '0'

/-- `text` with every invisible character written out. -/
def visibleText (text : String) : String :=
  String.ofList (text.toList.flatMap fun c => if isInvisible c then escapeChar c else [c])

/-- A namespace or login fit to display and to compare exactly. -/
def displayDetail (bytes : Bytes) : Option String :=
  if bytes.isEmpty || maxSignDetail < bytes.length then none
  else
    match String.fromUTF8? ⟨bytes.toArray⟩ with
    | none => none
    | some text => if text.toList.any isInvisible then none else some text

/-! ## Classifying the data to be signed -/

/-- The PROTOCOL.sshsig form: the preamble, then namespace, reserved, hash algorithm and the
message hash, each a string. -/
def sshsigNamespace (message : Bytes) : Option String :=
  if message.take sshsigPreamble.length = sshsigPreamble then do
    let (nameSpace, fields) ← decodeString (message.drop sshsigPreamble.length)
    let (_, fields) ← decodeString fields
    let (hash, fields) ← decodeString fields
    let (_, fields) ← decodeString fields
    if !fields.isEmpty || !(sshsigHashes.contains hash) then none
    else displayDetail nameSpace
  else none

/-- The RFC 4252 section 7 form and OpenSSH's host-bound variant. The server is the host key
of the newest bind for this session, or the host-bound method's own; both must agree. -/
def userauth (fingerprint : Bytes → String) (publicBlob message : Bytes)
    (binds : List SessionBinding) : Option SignKind := do
  let (sessionId, fields) ← decodeString message
  let (kind, fields) ← decodeU8 fields
  if kind ≠ userauthRequest then none else
  let (user, fields) ← decodeString fields
  let (_, fields) ← decodeString fields
  let (method, fields) ← decodeString fields
  if method ≠ methodPublickey && method ≠ methodHostbound then none else
  let (signs, fields) ← decodeU8 fields
  if signs ≠ 1 then none else
  let (_, fields) ← decodeString fields
  let (key, fields) ← decodeString fields
  let (signedHost, fields) ←
    if method = methodHostbound then
      match decodeString fields with
      | none => none
      | some (hostKey, fields) =>
        if hostKey.isEmpty || maxHostKey < hostKey.length then none
        else some (some (fingerprint hostKey), fields)
    else some (none, fields)
  if !fields.isEmpty || key ≠ publicBlob then none else
  let boundHost := (binds.reverse.find? fun bind => bind.sessionId = sessionId).map (·.hostKey)
  let host ← match boundHost, signedHost with
    | some bound, some signed => if bound ≠ signed then none else some bound
    | some bound, none => some bound
    | none, some signed => some signed
    | none, none => some ""
  let user ← displayDetail user
  some (.userAuth user host)

def classifySign (fingerprint : Bytes → String) (publicBlob message : Bytes)
    (binds : List SessionBinding) : SignKind :=
  match sshsigNamespace message with
  | some nameSpace => .sshSig nameSpace
  | none => (userauth fingerprint publicBlob message binds).getD .other

/-! ## Decoding a frame -/

def decodeSignRequest (fields : Bytes) : Option AgentRequest := do
  let (publicBlob, fields) ← decodeString fields
  let (message, fields) ← decodeString fields
  let (flags, fields) ← decodeU32 fields
  if !fields.isEmpty then none else some (.sign publicBlob message flags)

/-- The flag of a session bind is 0 or 1, nothing else. -/
def decodeForwarding (flag : UInt8) : Option Bool :=
  if flag = 0 then some false else if flag = 1 then some true else none

def decodeSessionBind (fingerprint : Bytes → String) (fields : Bytes) : Option AgentRequest := do
  let (name, fields) ← decodeString fields
  if name ≠ sessionBindName then none else
  let (hostKey, fields) ← decodeString fields
  let (sessionId, fields) ← decodeString fields
  let (_, fields) ← decodeString fields
  let (flag, fields) ← decodeU8 fields
  let forwarding ← decodeForwarding flag
  if !fields.isEmpty || hostKey.isEmpty || maxHostKey < hostKey.length
      || sessionId.isEmpty || maxSessionId < sessionId.length then none
  else some (.sessionBind forwarding ⟨sessionId, fingerprint hostKey⟩)

def decodeRequest (fingerprint : Bytes → String) (frame : Bytes) : Option AgentRequest :=
  match decodeU32 frame with
  | none => none
  | some (declared, payload) =>
    if declared = 0 ∨ maxFrameLen < declared ∨ payload.length ≠ declared then none
    else
      match payload with
      | [] => none
      | kind :: fields =>
        if kind = msgRequestIdentities ∧ fields = [] then some .identities
        else if kind = msgSignRequest then decodeSignRequest fields
        else if kind = msgExtension then decodeSessionBind fingerprint fields
        else none

/-- Whether a frame `decodeRequest` refused could have been a session bind: an extension
request that names it, or whose name cannot be read at all. -/
def mayBeSessionBind (frame : Bytes) : Bool :=
  -- `frame.get(4..)` is `None` on a shorter frame, which `drop` turns into no payload.
  match frame.drop 4 with
  | [] => false
  | kind :: fields =>
    if kind = msgExtension then
      match decodeString fields with
      | some (name, _) => decide (name = sessionBindName)
      | none => true
    else false

/-! ## Answers -/

def response (payload : Bytes) : Bytes :=
  if maxFrameLen < payload.length then [0, 0, 0, 1, msgFailure]
  else encodeU32 payload.length ++ payload

def failureResponse : Bytes := response [msgFailure]

def successResponse : Bytes := response [msgSuccess]

/-- `signature` is the encoded signature (`Vec::<u8>::try_from`), absent where that fails. -/
def signatureResponse (signature : Option Bytes) : Option Bytes := do
  let bytes ← signature
  let encoded ← encodeString bytes
  let payload := msgSignResponse :: encoded
  if payload.length ≤ maxFrameLen then some (response payload) else none

/-- One identity appended to a listing; `none` once the answer no longer fits. -/
def encodeIdentity (payload : Bytes) (identity : Bytes × String) : Option Bytes := do
  let blob ← encodeString identity.1
  let comment ← encodeString identity.2.toUTF8.data.toList
  let payload := payload ++ blob ++ comment
  if maxFrameLen < payload.length then none else some payload

def identitiesResponse (identities : List (Bytes × String)) : Bytes :=
  if 2 ^ 32 ≤ identities.length then failureResponse
  else
    match identities.foldlM encodeIdentity (msgIdentitiesAnswer :: encodeU32 identities.length) with
    | some payload => response payload
    | none => failureResponse

end QsBitwarden.Agent
