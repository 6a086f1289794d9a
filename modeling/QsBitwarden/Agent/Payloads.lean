import QsBitwarden.Lib.Base64
import QsBitwarden.Lib.JsonScan
import QsBitwarden.Agent.Load

/-!
# Agent — finding a load's payload (`agent/src/runtime.rs`, `load.rs`)

The FIFO delivers bytes in chunks that end anywhere. The reader puts lines together from them, drops
those that are too long or not its own, and keeps the first that its filter locates.

* **`PayloadAccumulator.push`** — one chunk; `firstPayload` is the reader over all of them.
* **`selected`** — what it is for: a choice among the lines of the whole stream.
* **`Holds`** — all that the accumulator knows of the line it is in: the line itself, or that it is
  too long. `push_spec` is the step, `payload_chunking` the run.
* **`locate_behind_fragment`** — the marker cannot straddle the start of a payload.
* **`decodeBase64_canonical`** — exactly the padded standard encodings decode.
-/

namespace QsBitwarden.Agent

open SshWire

/-! ## The accumulator -/

def newline : UInt8 := 10

/-- A line is put together, or skipped once it is `oversized`. -/
structure PayloadAccumulator where
  line : Bytes
  oversized : Bool
  deriving DecidableEq

namespace PayloadAccumulator

def new : PayloadAccumulator := ⟨[], false⟩

/-- Bytes of one line. -/
def extend (acc : PayloadAccumulator) (part : Bytes) : PayloadAccumulator :=
  if acc.oversized then acc
  else if maxFilteredBytes < acc.line.length + part.length then ⟨[], true⟩
  else { acc with line := acc.line ++ part }

/-- The line ends. -/
def endLine (filter : Bytes → Option Nat) (acc : PayloadAccumulator) :
    Option Bytes × PayloadAccumulator :=
  match if acc.oversized then none else filter acc.line with
  | some start => (some (acc.line.drop start), { acc with line := [] })
  | none => (none, ⟨[], false⟩)

/-- `rest` of a chunk up to the first newline, and what is behind it if there is one. -/
def cut (rest : Bytes) : Bytes × Option Bytes :=
  (rest.takeWhile (· != newline), (rest.dropWhile (· != newline)).tail?)

theorem length_cut {rest behind : Bytes} (h : (cut rest).2 = some behind) :
    behind.length < rest.length := by
  have hdrop : (rest.dropWhile (· != newline)).length ≤ rest.length :=
    (List.dropWhile_suffix _).length_le
  unfold cut at h
  cases hrest : rest.dropWhile (· != newline) with
  | nil => simp [hrest] at h
  | cons b tail =>
    rw [hrest] at h hdrop
    obtain rfl : tail = behind := Option.some.inj h
    exact Nat.lt_of_succ_le hdrop

/-- One chunk. It stops at the first payload; what is left of the chunk is not looked at. -/
def push (filter : Bytes → Option Nat) (acc : PayloadAccumulator) (rest : Bytes) :
    Option Bytes × PayloadAccumulator :=
  if rest.isEmpty then (none, acc)
  else
    match _h : (cut rest).2 with
    | none => (none, acc.extend (cut rest).1)
    | some behind =>
      match (acc.extend (cut rest).1).endLine filter with
      | (some payload, acc) => (some payload, acc)
      | (none, acc) => push filter acc behind
termination_by rest.length
decreasing_by exact length_cut _h

/-- The first payload over the chunks. -/
def firstPayload (filter : Bytes → Option Nat) (acc : PayloadAccumulator) :
    List Bytes → Option Bytes
  | [] => none
  | chunk :: chunks =>
    match acc.push filter chunk with
    | (some payload, _) => some payload
    | (none, acc) => acc.firstPayload filter chunks

/-- The accumulator after some chunks, whatever they gave. -/
def after (filter : Bytes → Option Nat) (acc : PayloadAccumulator) (chunks : List Bytes) :
    PayloadAccumulator :=
  chunks.foldl (fun acc chunk => (acc.push filter chunk).2) acc

end PayloadAccumulator

/-! ## The choice among the lines of a stream -/

/-- The lines that end in a newline. -/
def terminatedLines (stream : Bytes) : List Bytes := (stream.splitOn newline).dropLast

/-- What a line of at most the cap holds for this load. -/
def payloadOf (filter : Bytes → Option Nat) (line : Bytes) : Option Bytes :=
  if line.length ≤ maxFilteredBytes then (filter line).map line.drop else none

def selected (filter : Bytes → Option Nat) (stream : Bytes) : Option Bytes :=
  (terminatedLines stream).findSome? (payloadOf filter)

theorem terminatedLines_open {tail : Bytes} (h : newline ∉ tail) : terminatedLines tail = [] := by
  have hsplit : tail.splitOn newline = [tail] :=
    List.splitOnP_eq_singleton fun b hb => beq_false_of_ne fun heq => h (heq ▸ hb)
  rw [terminatedLines, hsplit]
  rfl

theorem terminatedLines_cons {line : Bytes} (h : newline ∉ line) (rest : Bytes) :
    terminatedLines (line ++ newline :: rest) = line :: terminatedLines rest := by
  have hsplit : (line ++ newline :: rest).splitOn newline = line :: rest.splitOn newline :=
    List.splitOnP_append_cons_of_forall_mem
      (fun b hb => beq_false_of_ne fun heq : b = newline => h (heq ▸ hb)) _ (beq_self_eq_true _) _
  have hne : rest.splitOn newline ≠ [] := List.splitOnP_ne_nil _ _
  rw [terminatedLines, hsplit, List.dropLast_cons_of_ne_nil hne]
  rfl

variable {f : Bytes → Option Nat}

theorem selected_open {tail : Bytes} (h : newline ∉ tail) : selected f tail = none := by
  rw [selected, terminatedLines_open h]
  rfl

theorem selected_cons {line : Bytes} (h : newline ∉ line) (rest : Bytes) :
    selected f (line ++ newline :: rest)
      = (payloadOf f line).or (selected f rest) := by
  rw [selected, terminatedLines_cons h, List.findSome?_cons]
  cases payloadOf f line <;> rfl

namespace PayloadAccumulator

variable {acc : PayloadAccumulator}

/-- What the accumulator keeps of the line so far. -/
def Holds (acc : PayloadAccumulator) (line : Bytes) : Prop :=
  acc = if line.length ≤ maxFilteredBytes then ⟨line, false⟩ else ⟨[], true⟩

theorem holds_new : Holds new [] := rfl

theorem Holds.extend {line : Bytes} (h : acc.Holds line) (part : Bytes) :
    (acc.extend part).Holds (line ++ part) := by
  unfold Holds at *
  subst h
  rw [List.length_append]
  by_cases hline : line.length ≤ maxFilteredBytes
  · rw [if_pos hline, PayloadAccumulator.extend, if_neg Bool.false_ne_true]
    by_cases hlong : maxFilteredBytes < line.length + part.length
    · rw [if_pos hlong, if_neg (by omega)]
    · rw [if_neg hlong, if_pos (by omega)]
  · rw [if_neg hline, if_neg (by omega)]
    exact if_pos rfl

theorem Holds.endLine {line : Bytes} (h : acc.Holds line) :
    (acc.endLine f).1 = payloadOf f line
      ∧ (payloadOf f line = none → (acc.endLine f).2.Holds []) := by
  unfold Holds at h
  subst h
  unfold PayloadAccumulator.endLine payloadOf
  by_cases hline : line.length ≤ maxFilteredBytes
  · rw [if_pos hline, if_neg Bool.false_ne_true, if_pos hline]
    cases hf : f line with
    | some start => exact ⟨rfl, fun hnone => nomatch hnone⟩
    | none => exact ⟨rfl, fun _ => rfl⟩
  · rw [if_neg hline, if_pos rfl, if_neg hline]
    exact ⟨rfl, fun _ => rfl⟩

/-- A chunk is a part of a line, or one up to a newline with more behind it. -/
theorem cut_cases (rest : Bytes) :
    ((cut rest).2 = none ∧ (cut rest).1 = rest ∧ newline ∉ rest)
      ∨ ∃ part behind, cut rest = (part, some behind) ∧ rest = part ++ newline :: behind
        ∧ newline ∉ part := by
  have hpart : newline ∉ rest.takeWhile (· != newline) := by
    intro hmem
    have hne := List.all_takeWhile (p := (· != newline)) (l := rest)
    exact absurd (List.all_eq_true.mp hne _ hmem) (by simp)
  have happend := List.takeWhile_append_dropWhile (p := (· != newline)) (l := rest)
  cases hrest : rest.dropWhile (· != newline) with
  | nil =>
    rw [hrest, List.append_nil] at happend
    refine .inl ⟨?_, happend, happend ▸ hpart⟩
    rw [cut, hrest]
    rfl
  | cons b behind =>
    have hb : b = newline := by
      have hhead := List.head?_dropWhile_not (· != newline) rest
      rw [hrest] at hhead
      simpa using hhead
    subst hb
    refine .inr ⟨_, behind, ?_, ?_, hpart⟩
    · rw [cut, hrest]
      rfl
    · rw [← hrest, happend]

/-- **The step.** A chunk gives what the lines it ends hold; if that is nothing, the accumulator
holds the line it stopped in. -/
theorem push_spec {line : Bytes} (h : acc.Holds line) (hline : newline ∉ line) (chunk : Bytes) :
    (∀ payload, (acc.push f chunk).1 = some payload →
      ∀ more, selected f (line ++ chunk ++ more) = some payload)
    ∧ ((acc.push f chunk).1 = none → ∃ tail, (acc.push f chunk).2.Holds tail
      ∧ newline ∉ tail
      ∧ ∀ more, selected f (line ++ chunk ++ more) = selected f (tail ++ more)) := by
  induction hn : chunk.length using Nat.strong_induction_on generalizing acc line chunk with
  | _ n ih =>
    subst hn
    rw [push]
    split
    next hempty =>
      obtain rfl : chunk = [] := List.isEmpty_iff.mp hempty
      refine ⟨(fun _ hsome => nomatch hsome), fun _ => ⟨line, h, hline, fun more => ?_⟩⟩
      rw [List.append_nil]
    next hchunk =>
    rcases cut_cases chunk with ⟨hnone, hpart, hopen⟩ | ⟨part, behind, hcut, hsplit, hpart⟩
    · -- no newline: the line goes on
      have htail : newline ∉ line ++ chunk := by simp [hline, hopen]
      split
      next =>
        rw [hpart]
        exact ⟨(fun _ hsome => nomatch hsome),
          fun _ => ⟨line ++ chunk, h.extend chunk, htail, fun more => rfl⟩⟩
      next behind hsome => simp [hnone] at hsome
    · have hbehind : behind.length < chunk.length := length_cut (by rw [hcut])
      have hwhole : newline ∉ line ++ part := by simp [hline, hpart]
      obtain ⟨hfound, hnext⟩ := (h.extend part).endLine (f := f)
      have hselected (more : Bytes) : selected f (line ++ chunk ++ more)
          = (payloadOf f (line ++ part)).or (selected f (behind ++ more)) := by
        rw [← selected_cons hwhole, hsplit]
        simp
      split
      next hnone => simp [hcut] at hnone
      next behind' hsome =>
        obtain rfl : behind = behind' := by simpa [hcut] using hsome
        rw [hcut]
        dsimp only
        split
        next payload acc' hend =>
          rw [hend] at hfound
          refine ⟨fun payload' hsome more => ?_, fun hnone => nomatch hnone⟩
          rw [hselected, ← hfound]
          exact hsome
        next acc' hend =>
          rw [hend] at hfound hnext
          -- the line held nothing: go on behind the newline
          obtain ⟨hpayload, htail⟩ := ih _ hbehind (hnext hfound.symm) (by simp) behind rfl
          have hbehind' (more : Bytes) :
              selected f (line ++ chunk ++ more) = selected f ([] ++ behind ++ more) := by
            rw [hselected, ← hfound, Option.none_or, List.nil_append]
          refine ⟨fun payload hsome more => ?_, fun hnone => ?_⟩
          · rw [hbehind', hpayload payload hsome]
          · obtain ⟨tail, hholds, hopen, hmore⟩ := htail hnone
            exact ⟨tail, hholds, hopen, fun more => (hbehind' more).trans (hmore more)⟩

/-- The run: chunk by chunk, what the whole stream gives. -/
theorem firstPayload_eq {line : Bytes} (h : acc.Holds line) (hline : newline ∉ line)
    (chunks : List Bytes) : acc.firstPayload f chunks = selected f (line ++ chunks.flatten) := by
  induction chunks generalizing acc line with
  | nil => rw [List.flatten_nil, List.append_nil, selected_open hline, firstPayload]
  | cons chunk chunks ih =>
    obtain ⟨hfound, hnext⟩ := push_spec (f := f) h hline chunk
    rw [firstPayload, List.flatten_cons, ← List.append_assoc]
    split
    next payload acc' hpush =>
      rw [hpush] at hfound
      exact (hfound payload rfl _).symm
    next acc' hpush =>
      rw [hpush] at hnext
      obtain ⟨tail, hholds, hopen, hmore⟩ := hnext rfl
      rw [hmore, ih hholds hopen]

/-! ### The buffer -/

theorem extend_length (h : acc.line.length ≤ maxFilteredBytes) (part : Bytes) :
    (acc.extend part).line.length ≤ maxFilteredBytes := by
  unfold extend
  split_ifs with hskip hlong
  · exact h
  · exact Nat.zero_le _
  · rw [List.length_append]
    omega

theorem endLine_line (acc : PayloadAccumulator) : (acc.endLine f).2.line = [] := by
  unfold endLine
  split <;> rfl

theorem push_length (h : acc.line.length ≤ maxFilteredBytes) (chunk : Bytes) :
    (acc.push f chunk).2.line.length ≤ maxFilteredBytes := by
  induction hn : chunk.length using Nat.strong_induction_on generalizing acc chunk with
  | _ n ih =>
    subst hn
    have hend := endLine_line (f := f) (acc.extend (cut chunk).1)
    rw [push]
    split_ifs
    · exact h
    · split
      next => exact extend_length h _
      next behind hbehind =>
        split
        next payload acc' heq =>
          have hline : acc'.line = [] := by rwa [heq] at hend
          simp [hline]
        next acc' heq =>
          have hline : acc'.line = [] := by rwa [heq] at hend
          exact ih _ (length_cut hbehind) (by simp [hline]) behind rfl

theorem after_length (chunks : List Bytes) (h : acc.line.length ≤ maxFilteredBytes) :
    (acc.after f chunks).line.length ≤ maxFilteredBytes := by
  induction chunks generalizing acc with
  | nil => exact h
  | cons chunk chunks ih => exact ih (push_length h chunk)

end PayloadAccumulator

variable {serde : Serde} {nonce fragment payload : Bytes}

/-- **The chunks do not matter.** However a stream is cut, the reader gives what the lines of the
whole stream give, and its buffer stays within the cap. -/
theorem payload_chunking (serde : Serde) (nonce : Bytes) (chunks : List Bytes) :
    PayloadAccumulator.new.firstPayload (locate serde nonce) chunks
      = selected (locate serde nonce) chunks.flatten
    ∧ (PayloadAccumulator.new.after (locate serde nonce) chunks).line.length
      ≤ maxFilteredBytes :=
  ⟨PayloadAccumulator.firstPayload_eq PayloadAccumulator.holds_new List.not_mem_nil chunks,
    PayloadAccumulator.after_length chunks (Nat.zero_le _)⟩

/-! ## A payload behind a fragment -/

/-- `{"loadId":"N"`. -/
def marker (nonce : Bytes) : Bytes := markerStart ++ nonce ++ [34]

/-- 32 hexadecimal digits. -/
def IsNonce (nonce : Bytes) : Prop := nonce.length = 32 ∧ nonce.all isAsciiHexdigit

instance (nonce : Bytes) : Decidable (IsNonce nonce) := inferInstanceAs (Decidable (_ ∧ _))

/-- The bytes are read as a JSON value whose `loadId` is the nonce. -/
def Names (serde : Serde) (nonce bytes : Bytes) : Prop :=
  (serde.named bytes).bind parseNonce = some nonce

instance (serde : Serde) (nonce bytes : Bytes) : Decidable (Names serde nonce bytes) :=
  inferInstanceAs (Decidable (_ = _))

theorem namesThisLoad_iff {bytes : Bytes} (h : IsNonce nonce) :
    namesThisLoad serde nonce bytes = true ↔ Names serde nonce bytes := by
  unfold namesThisLoad Names
  cases hnamed : (serde.named bytes).bind parseNonce with
  | none => simp
  | some supplied =>
    obtain ⟨text, -, hparse⟩ := Option.bind_eq_some_iff.mp hnamed
    have hlength : supplied.length = nonce.length := (length_of_parseNonce hparse).trans h.1.symm
    rw [Option.some.injEq]
    exact constantTimeEq_iff hlength

/-- The marker opens with a brace, and there is no other in it. -/
theorem brace_notMem_tail (h : IsNonce nonce) : 123 ∉ (marker nonce).tail := by
  have hnonce : (123 : UInt8) ∉ nonce := fun hmem =>
    absurd (List.all_eq_true.mp h.2 _ hmem) (by decide)
  show 123 ∉ markerStart.tail ++ nonce ++ [34]
  have hstart : (123 : UInt8) ∉ markerStart.tail := by decide
  simp [hstart, hnonce]

/-- No marker begins in the fragment: it would lie in it, or it would have to run into the brace
of the payload's own. -/
theorem not_marker_before (h : IsNonce nonce) (hpayload : marker nonce <+: payload)
    (hne : fragment ≠ []) (hfragment : ¬marker nonce <:+: fragment) :
    ¬marker nonce <+: fragment ++ payload := by
  intro hstart
  rcases List.prefix_or_prefix_of_prefix hstart (List.prefix_append fragment payload) with
    hin | ⟨rest, hmarker⟩
  · exact hfragment hin.isInfix
  rw [← hmarker, List.prefix_append_right_inj] at hstart
  cases rest with
  | nil =>
    rw [List.append_nil] at hmarker
    exact hfragment (hmarker ▸ List.infix_rfl)
  | cons b rest =>
    -- `b` opens the payload, and so it is the marker's brace
    obtain ⟨after, hafter⟩ := hpayload
    obtain ⟨tail, htail⟩ := hstart
    have hb : b = 123 := by
      rw [← hafter] at htail
      exact (List.cons.inj htail).1
    have hmem : b ∈ (marker nonce).tail := by
      rw [← hmarker, List.tail_append_of_ne_nil hne]
      exact List.mem_append_right _ List.mem_cons_self
    exact brace_notMem_tail h (hb ▸ hmem)

theorem take_eq_iff_starts {marker line : Bytes} :
    line.take marker.length = marker ↔ marker <+: line := by
  rw [List.prefix_iff_eq_take, eq_comm]

theorem findMarker_append {marker : Bytes} (hpayload : marker <+: payload)
    (hbefore : ∀ part, part ≠ [] → part <:+ fragment → ¬marker <+: part ++ payload) :
    findMarker marker (fragment ++ payload) = some fragment.length := by
  induction fragment with
  | nil =>
    cases payload with
    | nil =>
      have hempty : marker = [] := List.prefix_nil.mp hpayload
      rw [hempty]
      rfl
    | cons b payload => exact if_pos (take_eq_iff_starts.mpr hpayload)
  | cons b fragment ih =>
    have hrest := ih fun part hne hpart => hbefore part hne (hpart.trans (List.suffix_cons b _))
    have hhere : ¬marker <+: b :: fragment ++ payload :=
      hbefore _ (List.cons_ne_nil _ _) List.suffix_rfl
    rw [List.cons_append] at hhere ⊢
    rw [findMarker, if_neg (mt take_eq_iff_starts.mp hhere), hrest]
    rfl

theorem findMarker_sound {marker line : Bytes} {start : Nat}
    (h : findMarker marker line = some start) : marker <+: line.drop start := by
  induction line generalizing start with
  | nil =>
    rw [findMarker] at h
    split at h
    · next hempty =>
      rw [List.isEmpty_iff.mp hempty]
      exact List.nil_prefix
    · cases h
  | cons b line ih =>
    rw [findMarker] at h
    split at h
    · next hhere =>
      obtain rfl := Option.some.inj h
      exact take_eq_iff_starts.mp hhere
    · obtain ⟨before, hbefore, rfl⟩ := Option.map_eq_some_iff.mp h
      exact ih hbefore

/-- **A payload behind a torn fragment is found.** The marker is nowhere in the fragment and cannot
straddle its end, so the first one is the payload's. -/
theorem locate_append (h : IsNonce nonce) (hfragment : ¬marker nonce <:+: fragment)
    (hwhole : ¬Names serde nonce (fragment ++ payload)) (hpayload : marker nonce <+: payload)
    (hnames : Names serde nonce payload) :
    locate serde nonce (fragment ++ payload) = some fragment.length := by
  have hne : fragment ≠ [] := by
    rintro rfl
    exact hwhole hnames
  have hfound : findMarker (marker nonce) (fragment ++ payload) = some fragment.length := by
    apply findMarker_append hpayload
    intro part hpart hsuffix
    exact not_marker_before h hpayload hpart fun hin => hfragment (hin.trans hsuffix.isInfix)
  have hstart : 0 < fragment.length ∧
      namesThisLoad serde nonce ((fragment ++ payload).drop fragment.length) := by
    rw [List.drop_left]
    exact ⟨List.length_pos_of_ne_nil hne, (namesThisLoad_iff h).mpr hnames⟩
  unfold marker at hfound
  rw [locate, if_neg (mt (namesThisLoad_iff h).mp hwhole), hfound]
  exact if_pos hstart

/-- What is selected starts where the marker does, unless it is the whole line. -/
theorem marker_of_locate {line : Bytes} {start : Nat} (h : locate serde nonce line = some start) :
    start = 0 ∨ marker nonce <+: line.drop start := by
  unfold locate at h
  split at h
  · exact .inl (Option.some.inj h).symm
  split at h
  · next found hfound =>
    split at h
    · obtain rfl := Option.some.inj h
      exact .inr (findMarker_sound hfound)
    · cases h
  · cases h

/-! ### Lines of other loads -/

/-- A byte for a character: everything JSON gives a meaning to is ASCII. -/
def characters (bytes : Bytes) : List Char := bytes.map fun b => Char.ofNat b.toNat

theorem characters_append (bytes more : Bytes) :
    characters (bytes ++ more) = characters bytes ++ characters more := List.map_append

/-- `serde_json` takes the load id from a JSON text of one value. The text need not be UTF-8: a
string that is skipped is not looked at. -/
def ReadsJson (serde : Serde) (num : List Char → Json.Number)
    (loadId : Json.Value → Option String) : Prop :=
  ∀ bytes text, serde.named bytes = some text →
    (JsonRead.parse num (String.ofList (characters bytes))).bind loadId = some text

/-- A line of another load is not selected: the marker would stand in a string of it, where the
quotes would be escaped, or deeper than its end. -/
theorem locate_none_of_names {num : List Char → Json.Number} {loadId : Json.Value → Option String}
    (hserde : ReadsJson serde num loadId) {other line : Bytes} (h : IsNonce nonce)
    (hother : other ≠ nonce) (hline : Names serde other line) : locate serde nonce line = none := by
  cases hlocate : locate serde nonce line with
  | none => rfl
  | some start =>
    exfalso
    have hnames : Names serde nonce (line.drop start) :=
      (namesThisLoad_iff h).mp (namesThisLoad_of_locate hlocate)
    obtain ⟨text, htext, hnonce⟩ := Option.bind_eq_some_iff.mp hnames
    obtain ⟨text', htext', hnonce'⟩ := Option.bind_eq_some_iff.mp hline
    obtain ⟨v, hv, hid⟩ := Option.bind_eq_some_iff.mp (hserde _ _ htext)
    obtain ⟨w, hw, hid'⟩ := Option.bind_eq_some_iff.mp (hserde _ _ htext')
    have hsame : w = v := by
      rcases marker_of_locate hlocate with rfl | ⟨rest, hrest⟩
      · exact Option.some.inj (hw.symm.trans hv)
      · have hline : characters line
            = characters (line.take start) ++ characters (line.drop start) := by
          rw [← characters_append, List.take_append_drop]
        rw [hline, ← hrest] at hw
        rw [← hrest] at hv
        exact JsonRead.parse_of_suffix (c := 'l') (by decide) (by decide) hw hv
    rw [hsame, hid] at hid'
    obtain rfl := Option.some.inj hid'
    exact hother (Option.some.inj (hnonce'.symm.trans hnonce))

/-- The field of the one struct that is read: the `loadId` of an object. -/
def objectLoadId (v : Json.Value) : Option String :=
  match v with
  | .object fields =>
    match fields.lookup "loadId" with
    | some (.string text) => some text
    | _ => none
  | _ => none

/-- `serde_json` as a reader of objects with a `loadId`. -/
def readingSerde : Serde where
  envelope _ := none
  named bytes :=
    (JsonRead.parse (fun _ => .posInt 0) (String.ofList (characters bytes))).bind objectLoadId
  named_of_envelope _ _ h := nomatch h

def zerosNonce : Bytes := List.replicate 32 48

/-- The padded standard encoding, as ASCII bytes. -/
def encodeBase64 (bytes : Bytes) : Bytes :=
  (Base64.encode bytes).map fun c => UInt8.ofNat c.toNat

/-- The byte of a six-bit value. -/
def code (n : Nat) : UInt8 := UInt8.ofNat (Base64.symbol n).toNat

theorem sextet_code : ∀ n < 64, sextet (code n) = some n ∧ code n ≠ 61 := by
  decide +kernel

theorem code_of_sextet {byte : UInt8} {n : Nat} (h : sextet byte = some n) :
    n < 64 ∧ byte = code n := by
  have hall : ∀ i < 256, (sextet (UInt8.ofNat i)).all fun n =>
      n < 64 ∧ UInt8.ofNat i = code n := by
    decide +kernel
  have hbyte := hall byte.toNat byte.toNat_lt
  rw [UInt8.ofNat_toNat, h] at hbyte
  exact of_decide_eq_true hbyte

theorem ofNat_eq {m n : Nat} (h : m % 256 = n % 256) : UInt8.ofNat m = UInt8.ofNat n := by
  apply UInt8.toNat_inj.mp
  rwa [UInt8.toNat_ofNat', UInt8.toNat_ofNat']

/-- The bytes of four sextets, as `decodeGroup` shifts them out. -/
theorem shifted_bytes {x y z w : Nat} (hz : z < 64) (hw : w < 64) :
    UInt8.ofNat ((((x * 64 + y) * 64 + z) * 64 + w) / 65536) = Base64.first x y
      ∧ UInt8.ofNat ((((x * 64 + y) * 64 + z) * 64 + w) / 256) = Base64.second y z
      ∧ UInt8.ofNat (((x * 64 + y) * 64 + z) * 64 + w) = Base64.third z w := by
  refine ⟨ofNat_eq ?_, ofNat_eq ?_, ofNat_eq ?_⟩ <;> omega

theorem encodeBase64_cons (x y z : UInt8) (rest : Bytes) :
    encodeBase64 (x :: y :: z :: rest) = encodeBase64 [x, y, z] ++ encodeBase64 rest := rfl

theorem encodeBase64_eq_nil {bytes : Bytes} (h : encodeBase64 bytes = []) : bytes = [] := by
  have hlength : (Base64.encode bytes).length = 0 := by
    rw [← List.length_map (f := fun c => UInt8.ofNat c.toNat)]
    exact congrArg List.length h
  rw [Base64.length_encode] at hlength
  exact List.length_eq_zero_iff.mp (by omega)

/-- What the last group may be: three bytes, or one or two and padding. -/
def GroupSize (last : Bool) (n : Nat) : Prop := n = 3 ∨ last = true ∧ (n = 1 ∨ n = 2)

section Groups

variable {a b c d : UInt8} {last : Bool} {bytes : Bytes}

variable {x y : Nat}

/-- The sextets of a group, from the bytes they make. -/
theorem sextets_of_bytes {z w : Nat} (hx : x < 64) (hy : y < 64) (hz : z < 64) (hw : w < 64) :
    (Base64.first x y).toNat / 4 = x
      ∧ (Base64.first x y).toNat % 4 * 16 + (Base64.second y z).toNat / 16 = y
      ∧ (Base64.second y z).toNat % 16 * 4 + (Base64.third z w).toNat / 64 = z
      ∧ (Base64.third z w).toNat % 64 = w := by
  have hfirst : (Base64.first x y).toNat = x * 4 + y / 16 := by
    rw [Base64.first, UInt8.toNat_ofNat', Nat.mod_eq_of_lt (by omega)]
  have hsecond : (Base64.second y z).toNat = y % 16 * 16 + z / 4 := by
    rw [Base64.second, UInt8.toNat_ofNat', Nat.mod_eq_of_lt (by omega)]
  have hthird : (Base64.third z w).toNat = z % 4 * 64 + w := by
    rw [Base64.third, UInt8.toNat_ofNat', Nat.mod_eq_of_lt (by omega)]
  rw [hfirst, hsecond, hthird]
  omega

theorem encodeBase64_three {z w : Nat} (hx : x < 64) (hy : y < 64) (hz : z < 64) (hw : w < 64) :
    encodeBase64 [Base64.first x y, Base64.second y z, Base64.third z w]
      = [code x, code y, code z, code w] := by
  obtain ⟨h1, h2, h3, h4⟩ := sextets_of_bytes hx hy hz hw
  simp only [encodeBase64, Base64.encode, List.map_cons, List.map_nil, h1, h2, h3, h4]
  rfl

theorem encodeBase64_two {z : Nat} (hx : x < 64) (hy : y < 64) (hz : z < 64)
    (hlow : Base64.third z 0 = 0) :
    encodeBase64 [Base64.first x y, Base64.second y z] = [code x, code y, code z, 61] := by
  obtain ⟨h1, h2, h3, -⟩ := sextets_of_bytes hx hy hz (show 0 < 64 by decide)
  rw [hlow] at h3
  have h3' : (Base64.second y z).toNat % 16 * 4 = z := h3
  simp only [encodeBase64, Base64.encode, List.map_cons, List.map_nil, h1, h2, h3']
  rfl

theorem encodeBase64_one (hx : x < 64) (hy : y < 64) (hlow : Base64.second y 0 = 0) :
    encodeBase64 [Base64.first x y] = [code x, code y, 61, 61] := by
  obtain ⟨h1, h2, -, -⟩ := sextets_of_bytes hx hy (show 0 < 64 by decide) (show 0 < 64 by decide)
  rw [hlow] at h2
  have h2' : (Base64.first x y).toNat % 4 * 16 = y := h2
  simp only [encodeBase64, Base64.encode, List.map_cons, List.map_nil, h1, h2']
  rfl

theorem decodeGroup_three (hd : d ≠ 61) : decodeGroup [a, b, c, d] last = some bytes ↔
    ∃ x y z w, (sextet a = some x ∧ sextet b = some y ∧ sextet c = some z ∧ sextet d = some w)
      ∧ [Base64.first x y, Base64.second y z, Base64.third z w] = bytes := by
  simp only [decodeGroup]
  simp [hd, Option.bind_eq_some_iff, -UInt8.ofNat_add, -UInt8.ofNat_mul]
  refine exists_congr fun x => exists_congr fun y => exists_congr fun z => exists_congr fun w =>
    and_congr_right fun h => ?_
  obtain ⟨hz, hw⟩ := And.intro (code_of_sextet h.2.2.1).1 (code_of_sextet h.2.2.2).1
  obtain ⟨h1, h2, h3⟩ := shifted_bytes (x := x) (y := y) hz hw
  rw [h1, h2, h3]

theorem decodeGroup_two (hc : c ≠ 61) : decodeGroup [a, b, c, 61] last = some bytes ↔
    last = true ∧ ∃ x y z, (sextet a = some x ∧ sextet b = some y ∧ sextet c = some z)
      ∧ Base64.third z 0 = 0 ∧ [Base64.first x y, Base64.second y z] = bytes := by
  simp only [decodeGroup]
  simp [hc, Option.bind_eq_some_iff, -UInt8.ofNat_add, -UInt8.ofNat_mul]
  refine fun _ => exists_congr fun x => exists_congr fun y => exists_congr fun z =>
    and_congr_right fun h => ?_
  obtain ⟨h1, h2, h3⟩ := shifted_bytes (x := x) (y := y) (w := 0) (code_of_sextet h.2.2).1 (by decide)
  rw [Nat.add_zero] at h1 h2 h3
  rw [h1, h2, h3]

theorem decodeGroup_one (hb : b ≠ 61) : decodeGroup [a, b, 61, 61] last = some bytes ↔
    last = true ∧ ∃ x y, (sextet a = some x ∧ sextet b = some y)
      ∧ Base64.second y 0 = 0 ∧ [Base64.first x y] = bytes := by
  simp only [decodeGroup]
  simp [hb, Option.bind_eq_some_iff, -UInt8.ofNat_add, -UInt8.ofNat_mul]
  refine fun _ => exists_congr fun x => ?_
  rw [← exists_and_left]
  refine exists_congr fun y => ?_
  obtain ⟨h1, h2, h3⟩ := shifted_bytes (x := x) (y := y) (z := 0) (w := 0) (by decide) (by decide)
  have hbits : (x * 64 + y) * 4096 = ((x * 64 + y) * 64 + 0) * 64 + 0 := by omega
  have hzero : Base64.third 0 0 = 0 := by decide
  rw [hbits, h1, h2, h3, hzero]
  simp [and_assoc]

theorem decodeGroup_none : decodeGroup [a, 61, 61, 61] last = none := by
  by_cases ha : a = 61 <;> simp [decodeGroup, ha]

theorem decodeGroup_sound (h : decodeGroup [a, b, c, d] last = some bytes) :
    [a, b, c, d] = encodeBase64 bytes ∧ GroupSize last bytes.length := by
  by_cases hd : d = 61
  · subst hd
    by_cases hc : c = 61
    · subst hc
      by_cases hb : b = 61
      · subst hb
        rw [decodeGroup_none] at h
        cases h
      · obtain ⟨hlast, x, y, ⟨ha, hb⟩, hlow, rfl⟩ := (decodeGroup_one hb).mp h
        obtain ⟨hx, rfl⟩ := code_of_sextet ha
        obtain ⟨hy, rfl⟩ := code_of_sextet hb
        exact ⟨(encodeBase64_one hx hy hlow).symm, .inr ⟨hlast, .inl rfl⟩⟩
    · obtain ⟨hlast, x, y, z, ⟨ha, hb, hc⟩, hlow, rfl⟩ := (decodeGroup_two hc).mp h
      obtain ⟨hx, rfl⟩ := code_of_sextet ha
      obtain ⟨hy, rfl⟩ := code_of_sextet hb
      obtain ⟨hz, rfl⟩ := code_of_sextet hc
      exact ⟨(encodeBase64_two hx hy hz hlow).symm, .inr ⟨hlast, .inr rfl⟩⟩
  · obtain ⟨x, y, z, w, ⟨ha, hb, hc, hd⟩, rfl⟩ := (decodeGroup_three hd).mp h
    obtain ⟨hx, rfl⟩ := code_of_sextet ha
    obtain ⟨hy, rfl⟩ := code_of_sextet hb
    obtain ⟨hz, rfl⟩ := code_of_sextet hc
    obtain ⟨hw, rfl⟩ := code_of_sextet hd
    exact ⟨(encodeBase64_three hx hy hz hw).symm, .inl rfl⟩

end Groups

theorem decodeGroups_sound {encoded bytes : Bytes} (h : decodeGroups encoded = some bytes) :
    encoded = encodeBase64 bytes := by
  induction encoded using decodeGroups.induct generalizing bytes with
  | case1 a b c d rest ih =>
    rw [decodeGroups] at h
    obtain ⟨group, hgroup, h⟩ := Option.bind_eq_some_iff.mp h
    obtain ⟨more, hmore, h⟩ := Option.bind_eq_some_iff.mp h
    obtain rfl := Option.some.inj h
    obtain ⟨hencode, hsize⟩ := decodeGroup_sound hgroup
    have hrest : rest = encodeBase64 more := ih hmore
    rcases hsize with hsize | ⟨hlast, -⟩
    · obtain ⟨x, y, z, rfl⟩ := List.length_eq_three.mp hsize
      show [a, b, c, d] ++ rest = encodeBase64 (x :: y :: z :: more)
      rw [encodeBase64_cons, ← hencode, ← hrest]
    · -- a padded group is the last one
      obtain rfl : rest = [] := List.isEmpty_iff.mp hlast
      obtain rfl : more = [] := encodeBase64_eq_nil hrest.symm
      rw [List.append_nil, ← hencode]
  | case2 =>
    obtain rfl := Option.some.inj h
    rfl
  | case3 rest hrest hnil => simp [decodeGroups] at h

theorem decodeGroups_encode (bytes : Bytes) : decodeGroups (encodeBase64 bytes) = some bytes := by
  induction bytes using Base64.encode.induct with
  | case1 => rfl
  | case2 x =>
    have hx := x.toNat_lt
    have hfirst := Base64.first_eq x 0 (by omega)
    rw [Nat.add_zero] at hfirst
    have hgroup : decodeGroup [code (x.toNat / 4), code (x.toNat % 4 * 16), 61, 61] true
        = some [x] := by
      refine (decodeGroup_one (sextet_code _ (by omega)).2).mpr ⟨rfl, _, _,
        ⟨(sextet_code _ (by omega)).1, (sextet_code _ (by omega)).1⟩, ?_, by rw [hfirst]⟩
      exact ofNat_eq (n := 0) (by omega)
    show (decodeGroup [code (x.toNat / 4), code (x.toNat % 4 * 16), 61, 61] true).bind _ = _
    rw [hgroup]
    rfl
  | case3 x y =>
    have hx := x.toNat_lt
    have hy := y.toNat_lt
    have hfirst := Base64.first_eq x (y.toNat / 16) (by omega)
    have hsecond := Base64.second_eq y (x.toNat % 4) 0 (by omega)
    rw [Nat.add_zero] at hsecond
    have hgroup : decodeGroup [code (x.toNat / 4), code (x.toNat % 4 * 16 + y.toNat / 16),
        code (y.toNat % 16 * 4), 61] true = some [x, y] := by
      refine (decodeGroup_two (sextet_code _ (by omega)).2).mpr ⟨rfl, _, _, _,
        ⟨(sextet_code _ (by omega)).1, (sextet_code _ (by omega)).1, (sextet_code _ (by omega)).1⟩,
        ?_, by rw [hfirst, hsecond]⟩
      exact ofNat_eq (n := 0) (by omega)
    show (decodeGroup [code (x.toNat / 4), code (x.toNat % 4 * 16 + y.toNat / 16),
      code (y.toNat % 16 * 4), 61] true).bind _ = _
    rw [hgroup]
    rfl
  | case4 x y z rest ih =>
    have hx := x.toNat_lt
    have hy := y.toNat_lt
    have hz := z.toNat_lt
    have hfirst := Base64.first_eq x (y.toNat / 16) (by omega)
    have hsecond := Base64.second_eq y (x.toNat % 4) (z.toNat / 64) (by omega)
    have hthird := Base64.third_eq z (y.toNat % 16)
    have hgroup (last : Bool) : decodeGroup [code (x.toNat / 4),
        code (x.toNat % 4 * 16 + y.toNat / 16), code (y.toNat % 16 * 4 + z.toNat / 64),
        code (z.toNat % 64)] last = some [x, y, z] :=
      (decodeGroup_three (sextet_code _ (by omega)).2).mpr ⟨_, _, _, _,
        ⟨(sextet_code _ (by omega)).1, (sextet_code _ (by omega)).1, (sextet_code _ (by omega)).1,
          (sextet_code _ (by omega)).1⟩, by rw [hfirst, hsecond, hthird]⟩
    show (decodeGroup [code (x.toNat / 4), code (x.toNat % 4 * 16 + y.toNat / 16),
      code (y.toNat % 16 * 4 + z.toNat / 64), code (z.toNat % 64)]
      (encodeBase64 rest).isEmpty).bind _ = _
    rw [hgroup, Option.bind_some]
    show (decodeGroups (encodeBase64 rest)).bind _ = _
    rw [ih]
    rfl

theorem length_encodeBase64 (bytes : Bytes) :
    (encodeBase64 bytes).length = 4 * ((bytes.length + 2) / 3) := by
  rw [encodeBase64, List.length_map, Base64.length_encode]

theorem decodeBase64_iff {encoded bytes : Bytes} :
    decodeBase64 encoded = some bytes ↔ bytes ≠ [] ∧ encoded = encodeBase64 bytes := by
  unfold decodeBase64
  constructor
  · intro h
    split_ifs at h with hshape
    have hencode : encoded = encodeBase64 bytes := decodeGroups_sound h
    refine ⟨?_, hencode⟩
    rintro rfl
    exact hshape (.inl (by rw [hencode]; rfl))
  · rintro ⟨hne, rfl⟩
    have hlength := length_encodeBase64 bytes
    have hpos : 0 < bytes.length := List.length_pos_iff.mpr hne
    have hshape : ¬((encodeBase64 bytes).isEmpty = true ∨ (encodeBase64 bytes).length % 4 ≠ 0) := by
      rw [List.isEmpty_iff_length_eq_zero]
      omega
    rw [if_neg hshape]
    exact decodeGroups_encode bytes

/-- **Exactly the canonical encodings decode**: of each non-empty byte string one spelling, which
decodes to it. -/
theorem decodeBase64_canonical :
    (∀ encoded bytes, decodeBase64 encoded = some bytes
      ↔ bytes ≠ [] ∧ encoded = encodeBase64 bytes)
    ∧ (∀ encoded encoded' bytes, decodeBase64 encoded = some bytes →
      decodeBase64 encoded' = some bytes → encoded = encoded')
    ∧ ∀ bytes, bytes ≠ [] → decodeBase64 (encodeBase64 bytes) = some bytes := by
  refine ⟨fun _ _ => decodeBase64_iff, fun encoded encoded' bytes h h' => ?_, fun bytes hne => ?_⟩
  · rw [(decodeBase64_iff.mp h).2, (decodeBase64_iff.mp h').2]
  · exact decodeBase64_iff.mpr ⟨hne, rfl⟩

end QsBitwarden.Agent
