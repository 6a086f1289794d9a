import QsBitwarden.Agent.Approvals

/-!
# Agent — client connections (`agent/src/server.rs`)

One task per connection reads frames and turns them into events for the state loop. It answers
session binds itself: they say which server a session goes to, and whether the connection relays
a remote host (`forwarded`).

* **`serveFrame`** — one turn of `serve_client`: what happens to the connection, and the event it
  sends, if any.
* **`Taints`** — a frame after which the connection must count as forwarded: a bind that says so,
  that cannot be parsed, or that cannot be recorded.
* **`forwarded_of_taints`** — from then on every event is forwarded, whatever follows.
-/

namespace QsBitwarden.Agent

open SshWire

/-- Session binds per connection. -/
def maxSessionBinds : Nat := 16

/-- Names one `oneshot` channel: the place an answer goes to. -/
abbrev Reply := Nat

structure ClientEvent where
  peer : PeerContext
  forwarded : Bool
  binds : List SessionBinding
  request : AgentRequest
  reply : Reply
  deriving DecidableEq

/-- What `serve_client` keeps across frames. -/
structure Connection where
  peer : PeerContext
  forwarded : Bool
  binds : List SessionBinding
  deriving DecidableEq

def Connection.new (peer : PeerContext) : Connection := ⟨peer, false, []⟩

/-- One frame, with what the outside decides while it is served. -/
structure Frame where
  bytes : Bytes
  /-- `PeerContext::capture`, taken again for a signature. -/
  current : Option PeerContext
  reply : Reply
  /-- `try_send` found room in the event channel. -/
  accepted : Bool
  /-- The client was still there to take the answer. -/
  written : Bool

namespace Connection

/-- The connection goes on unless its answer could not be written. -/
def continue? (c : Connection) (frame : Frame) : Option Connection :=
  if frame.written then some c else none

/-- A frame that decodes to nothing. -/
def refuse (c : Connection) (bytes : Bytes) : Connection :=
  if mayBeSessionBind bytes then { c with forwarded := true } else c

def bind (c : Connection) (forwarding : Bool) (binding : SessionBinding) : Connection :=
  if c.binds.length < maxSessionBinds then
    { c with binds := c.binds ++ [binding], forwarded := c.forwarded || forwarding }
  else { c with forwarded := true }

/-- A request for the state loop. -/
def submit (c : Connection) (request : AgentRequest) (frame : Frame) :
    Option Connection × Option ClientEvent :=
  (c.continue? frame,
    if frame.accepted then some ⟨c.peer, c.forwarded, c.binds, request, frame.reply⟩ else none)

def serveFrame (fingerprint : Bytes → String) (c : Connection) (frame : Frame) :
    Option Connection × Option ClientEvent :=
  match decodeRequest fingerprint frame.bytes with
  | none => ((c.refuse frame.bytes).continue? frame, none)
  | some (.sessionBind forwarding binding) => ((c.bind forwarding binding).continue? frame, none)
  | some .identities => c.submit .identities frame
  | some (.sign publicBlob message flags) =>
    -- A client may have exec'd another program since it was admitted.
    if !c.peer.isUnchanged frame.current then (none, none)
    else c.submit (.sign publicBlob message flags) frame

/-- The events of a connection over the frames it reads. -/
def serveClient (fingerprint : Bytes → String) (c : Connection) : List Frame → List ClientEvent
  | [] => []
  | frame :: frames =>
    let turn := c.serveFrame fingerprint frame
    turn.2.toList ++
      match turn.1 with
      | none => []
      | some c => serveClient fingerprint c frames

/-! ## The taint -/

variable {fingerprint : Bytes → String} {c c' : Connection} {frame : Frame}

theorem continue?_eq_some (h : c.continue? frame = some c') : c' = c := by
  unfold continue? at h
  split at h
  · exact (Option.some.inj h).symm
  · cases h

/-- No frame clears the flag, and an event carries it. -/
theorem serveFrame_forwarded (fingerprint : Bytes → String) (frame : Frame)
    (hc : c.forwarded = true) :
    (∀ c', (c.serveFrame fingerprint frame).1 = some c' → c'.forwarded = true) ∧
    ∀ event, (c.serveFrame fingerprint frame).2 = some event → event.forwarded = true := by
  have hsubmit : ∀ request,
      (∀ c', (c.submit request frame).1 = some c' → c'.forwarded = true) ∧
      ∀ event, (c.submit request frame).2 = some event → event.forwarded = true := by
    intro request
    unfold submit
    constructor
    · intro c' h
      rw [continue?_eq_some h]
      exact hc
    · intro event h
      simp only at h
      split at h
      · rw [← Option.some.inj h]
        exact hc
      · cases h
  unfold serveFrame
  split
  · refine ⟨?_, by simp⟩
    intro c' h
    rw [continue?_eq_some h]
    unfold refuse
    split
    · rfl
    · exact hc
  · refine ⟨?_, by simp⟩
    intro c' h
    rw [continue?_eq_some h]
    unfold bind
    split
    · simp [hc]
    · rfl
  · exact hsubmit _
  · split
    · simp
    · exact hsubmit _

theorem serveClient_forwarded (hc : c.forwarded = true) (frames : List Frame) :
    ∀ event ∈ c.serveClient fingerprint frames, event.forwarded = true := by
  induction frames generalizing c with
  | nil => simp [serveClient]
  | cons frame frames ih =>
    obtain ⟨hnext, hevent⟩ := serveFrame_forwarded fingerprint frame hc
    intro event hmem
    unfold serveClient at hmem
    rcases List.mem_append.mp hmem with hmem | hmem
    · exact hevent event (Option.mem_toList.mp hmem)
    · split at hmem
      · cases hmem
      · next c' heq => exact ih (hnext c' heq) event hmem

/-- An extension request that names the session bind, or whose name cannot be decoded. -/
def NamesSessionBind (bytes : Bytes) : Prop :=
  ∃ fields, bytes.drop 4 = msgExtension :: fields ∧
    (decodeString fields = none ∨ ∃ rest, decodeString fields = some (sessionBindName, rest))

/-- A bind that says forwarding, fails to parse, or finds the connection's binds used up. -/
def Taints (fingerprint : Bytes → String) (c : Connection) (bytes : Bytes) : Prop :=
  NamesSessionBind bytes ∧
    (decodeRequest fingerprint bytes = none ∨
      (∃ binding, decodeRequest fingerprint bytes = some (.sessionBind true binding)) ∨
      maxSessionBinds ≤ c.binds.length)

theorem mayBeSessionBind_iff {bytes : Bytes} : mayBeSessionBind bytes ↔ NamesSessionBind bytes := by
  unfold mayBeSessionBind NamesSessionBind
  cases bytes.drop 4 with
  | nil => simp
  | cons kind fields =>
    by_cases hkind : kind = msgExtension
    · cases hdecode : decodeString fields with
      | none => simp [hkind, hdecode]
      | some decoded => simp [hkind, hdecode, Prod.ext_iff]
    · simp [hkind]

/-- The two parsers agree on the kind: what decodes from an extension request is a bind. -/
theorem decodeRequest_extension {bytes fields : Bytes} {request : AgentRequest}
    (hkind : bytes.drop 4 = msgExtension :: fields)
    (h : decodeRequest fingerprint bytes = some request) :
    ∃ forwarding binding, request = .sessionBind forwarding binding := by
  unfold decodeRequest at h
  split at h
  · cases h
  next declared payload hheader =>
  have hpayload : payload = msgExtension :: fields := by
    rw [← hkind]
    unfold decodeU32 at hheader
    split at hheader
    · rw [← (Prod.mk.inj (Option.some.inj hheader)).2]
      rfl
    · cases hheader
  subst hpayload
  split at h
  · cases h
  simp only at h
  rw [if_neg (by simp [msgExtension, msgRequestIdentities]),
    if_neg (by simp [msgExtension, msgSignRequest]), if_pos trivial] at h
  simp only [decodeSessionBind, Option.bind_eq_bind, Option.bind_eq_some_iff] at h
  obtain ⟨_, -, h⟩ := h
  split at h
  · cases h
  simp only [Option.bind_eq_some_iff] at h
  obtain ⟨_, -, _, -, _, -, _, -, forwarding, -, h⟩ := h
  split at h
  · cases h
  · exact ⟨forwarding, _, (Option.some.inj h).symm⟩

/-- **The taint is sticky.** After a tainting frame every event of the connection is forwarded. -/
theorem forwarded_of_taints (ht : Taints fingerprint c frame.bytes) (frames : List Frame) :
    ∀ event ∈ c.serveClient fingerprint (frame :: frames), event.forwarded = true := by
  obtain ⟨hnames, hwhy⟩ := ht
  obtain ⟨fields, hkind, -⟩ := id hnames
  -- The frame itself sends no event, and leaves a forwarded connection behind.
  have hturn : (c.serveFrame fingerprint frame).2 = none ∧
      ∀ c', (c.serveFrame fingerprint frame).1 = some c' → c'.forwarded = true := by
    unfold serveFrame
    cases hdecode : decodeRequest fingerprint frame.bytes with
    | none =>
      refine ⟨rfl, ?_⟩
      intro c' h
      rw [continue?_eq_some h, refuse, if_pos (mayBeSessionBind_iff.mpr hnames)]
    | some request =>
      obtain ⟨forwarding, binding, rfl⟩ := decodeRequest_extension hkind hdecode
      refine ⟨rfl, ?_⟩
      intro c' h
      rw [continue?_eq_some h, bind]
      split
      · next hroom =>
        rcases hwhy with hnone | ⟨_, hsome⟩ | hfull
        · rw [hnone] at hdecode
          cases hdecode
        · rw [hsome] at hdecode
          cases hdecode
          simp
        · omega
      · rfl
  intro event hmem
  simp only [serveClient, hturn.1, Option.toList_none, List.nil_append] at hmem
  split at hmem
  · cases hmem
  · next c' heq => exact serveClient_forwarded (hturn.2 c' heq) frames event hmem

end Connection

end QsBitwarden.Agent
