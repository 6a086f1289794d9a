import QsBitwarden.Lib.JsonRead
import QsBitwarden.Lib.Utf8

/-!
# Vault — replies that carry a secret (`vault/src/main.rs`)

These lines are not built by `serde_json`, whose buffers grow by copying and are dropped unwiped:
the helper counts the bytes first, takes a buffer of that size and writes into it.

* **`Buffer`** — a `String` with its capacity, and whether a push ever had to move it.
* **`escapedLen`**, **`escapeInto`** — counting and writing a text; **`escapeInto_eq`** — what is
  written is the JSON form of the text, and as many bytes as were counted.
* **`jsonLine`** — a line from its parts; **`Reply`** — the three replies that use it.
* **`replies_well_formed`** — each is one JSON object with the texts given, written without a
  control byte into a buffer that was neither too small nor too large.
-/

namespace QsBitwarden.Vault

open JsonText Json
open String (utf8Len)

/-! ## The buffer -/

/-- A `String`. `moved` is whether a push found no room, which leaves a copy behind. -/
structure Buffer where
  chars : List Char
  capacity : Nat
  moved : Bool

namespace Buffer

def withCapacity (capacity : Nat) : Buffer := ⟨[], capacity, false⟩

/-- `push` and `push_str`. A buffer that is too small at least doubles. -/
def push (b : Buffer) (text : List Char) : Buffer :=
  let needed := utf8Len b.chars + utf8Len text
  if needed ≤ b.capacity then { b with chars := b.chars ++ text }
  else ⟨b.chars ++ text, max needed (b.capacity * 2), true⟩

end Buffer

/-! ## Writing a line -/

/-- The characters with an escape of two. -/
def shortEscapes : List Char := ['"', '\\', '\x08', '\x0c', '\n', '\r', '\t']

def escapedLen (value : String) : Nat :=
  (value.toList.map fun c =>
    if shortEscapes.contains c then 2 else if c.toNat < 0x20 then 6 else c.utf8Size).sum

def escapeChar (out : Buffer) (c : Char) : Buffer :=
  if c = '"' then out.push ['\\', '"']
  else if c = '\\' then out.push ['\\', '\\']
  else if c = '\x08' then out.push ['\\', 'b']
  else if c = '\x0c' then out.push ['\\', 'f']
  else if c = '\n' then out.push ['\\', 'n']
  else if c = '\r' then out.push ['\\', 'r']
  else if c = '\t' then out.push ['\\', 't']
  else if c.toNat < 0x20 then
    ((out.push ['\\', 'u', '0', '0']).push [hexDigit (c.toNat / 16)]).push [hexDigit (c.toNat % 16)]
  else out.push [c]

def escapeInto (out : Buffer) (value : String) : Buffer := value.toList.foldl escapeChar out

inductive Part where
  /-- JSON text as is. -/
  | raw (text : List Char)
  /-- A string value. -/
  | str (text : String)

def Part.len : Part → Nat
  | .raw text => utf8Len text
  | .str text => escapedLen text + 2

def Part.write (line : Buffer) : Part → Buffer
  | .raw text => line.push text
  | .str text => (escapeInto (line.push ['"']) text).push ['"']

def jsonLine (parts : List Part) : Buffer :=
  parts.foldl Part.write (.withCapacity (parts.map Part.len).sum)

/-! ## The replies -/

def secretResultLine (q : Nat) (value : String) : Buffer :=
  jsonLine [.raw "\x7b\"type\":\"result\",\"q\":".toList, .raw (number q),
    .raw ",\"ok\":true,\"value\":".toList, .str value, .raw "\x7d".toList]

def totpResultLine (q : Nat) (code : String) (period : Nat) : Buffer :=
  jsonLine [.raw "\x7b\"type\":\"result\",\"q\":".toList, .raw (number q),
    .raw ",\"ok\":true,\"value\":\x7b\"code\":".toList, .str code, .raw ",\"period\":".toList,
    .raw (number period), .raw "\x7d\x7d".toList]

def exitLine (id : Nat) (code : Int) (out err : String) (session held : Bool) : Buffer :=
  jsonLine [.raw "\x7b\"type\":\"exit\",\"id\":".toList, .raw (number id),
    .raw ",\"code\":".toList, .raw (integer code), .raw ",\"out\":".toList, .str out,
    .raw ",\"err\":".toList, .str err, .raw ",\"session\":".toList, .raw (boolean session),
    .raw ",\"held\":".toList, .raw (boolean held), .raw "\x7d".toList]

/-- What the helper replies with a line of its own making. -/
inductive Reply where
  | secret (q : Nat) (value : String)
  | totp (q : Nat) (code : String) (period : Nat)
  | exit (id : Nat) (code : Int) (out err : String) (session held : Bool)

def Reply.line : Reply → Buffer
  | .secret q value => secretResultLine q value
  | .totp q code period => totpResultLine q code period
  | .exit id code out err session held => exitLine id code out err session held

/-- What the panel is to read, when it reads a numeral as `num` says. -/
def Reply.members (num : List Char → Number) : Reply → List JsonRead.Member
  | .secret q value =>
    [("type", quote "result", .string "result"), ("q", number q, .number (num (number q))),
      ("ok", boolean true, .bool true), ("value", quote value, .string value)]
  | .totp q code period =>
    let inner : List JsonRead.Member :=
      [("code", quote code, .string code),
        ("period", number period, .number (num (number period)))]
    [("type", quote "result", .string "result"), ("q", number q, .number (num (number q))),
      ("ok", boolean true, .bool true),
      ("value", object (inner.map JsonRead.Member.written),
        .object (JsonRead.collect (inner.map JsonRead.Member.read)))]
  | .exit id code out err session held =>
    [("type", quote "exit", .string "exit"), ("id", number id, .number (num (number id))),
      ("code", integer code, .number (num (integer code))), ("out", quote out, .string out),
      ("err", quote err, .string err), ("session", boolean session, .bool session),
      ("held", boolean held, .bool held)]

/-! ## Counting and writing agree -/

namespace Buffer

/-- There is room for `n` more bytes, and the buffer is where it was first. -/
def Room (b : Buffer) (n : Nat) : Prop := b.moved = false ∧ utf8Len b.chars + n ≤ b.capacity

variable {b : Buffer} {n : Nat} {text : List Char}

/-- A push into a buffer with room only appends. -/
theorem Room.push (h : b.Room (utf8Len text + n)) :
    b.push text = { b with chars := b.chars ++ text } ∧ (b.push text).Room n := by
  obtain ⟨hmoved, hroom⟩ := h
  have hfits : utf8Len b.chars + utf8Len text ≤ b.capacity := by omega
  have hpush : b.push text = { b with chars := b.chars ++ text } := if_pos hfits
  refine ⟨hpush, ?_⟩
  rw [hpush]
  refine ⟨hmoved, ?_⟩
  show utf8Len (b.chars ++ text) + n ≤ b.capacity
  rw [String.utf8Len_append]
  omega

end Buffer

open Buffer

/-- What writing a character can be: one push of two characters, three pushes, or one of the
character itself. -/
inductive EscapeCase (c : Char) : Prop where
  | short (d : Char) (hc : shortEscapes.contains c = true) (hd : d.utf8Size = 1)
      (hescape : escape c = ['\\', d]) (hwrite : ∀ out, escapeChar out c = out.push ['\\', d])
  | long (hc : shortEscapes.contains c = false) (hcontrol : c.toNat < 0x20)
      (hescape : escape c = ['\\', 'u', '0', '0'] ++ [hexDigit (c.toNat / 16)]
        ++ [hexDigit (c.toNat % 16)])
      (hwrite : ∀ out, escapeChar out c = ((out.push ['\\', 'u', '0', '0']).push
        [hexDigit (c.toNat / 16)]).push [hexDigit (c.toNat % 16)])
  | plain (hc : shortEscapes.contains c = false) (hcontrol : ¬c.toNat < 0x20)
      (hescape : escape c = [c]) (hwrite : ∀ out, escapeChar out c = out.push [c])

theorem escape_case (c : Char) : EscapeCase c := by
  cases hshort : shortEscapes.contains c with
  | true =>
    have hmem : c ∈ shortEscapes := List.contains_iff_mem.mp hshort
    unfold shortEscapes at hmem
    simp only [List.mem_cons, List.not_mem_nil, or_false] at hmem
    rcases hmem with rfl | rfl | rfl | rfl | rfl | rfl | rfl
    · exact .short '"' (by decide) (by decide) (by decide) fun _ => rfl
    · exact .short '\\' (by decide) (by decide) (by decide) fun _ => rfl
    · exact .short 'b' (by decide) (by decide) (by decide) fun _ => rfl
    · exact .short 'f' (by decide) (by decide) (by decide) fun _ => rfl
    · exact .short 'n' (by decide) (by decide) (by decide) fun _ => rfl
    · exact .short 'r' (by decide) (by decide) (by decide) fun _ => rfl
    · exact .short 't' (by decide) (by decide) (by decide) fun _ => rfl
  | false =>
    have hne : ∀ d, shortEscapes.contains d = true → c ≠ d := by
      intro d hd heq
      rw [heq, hd] at hshort
      cases hshort
    have hquote : c ≠ '"' := hne _ (by decide)
    have hslash : c ≠ '\\' := hne _ (by decide)
    have hwrite : ∀ out, escapeChar out c = if c.toNat < 0x20 then
        ((out.push ['\\', 'u', '0', '0']).push [hexDigit (c.toNat / 16)]).push
          [hexDigit (c.toNat % 16)] else out.push [c] := by
      intro out
      unfold escapeChar
      rw [if_neg hquote, if_neg hslash]
      iterate 5 rw [if_neg (hne _ (by decide))]
    by_cases hcontrol : c.toNat < 0x20
    · refine .long hshort hcontrol ?_ fun out => (hwrite out).trans (if_pos hcontrol)
      unfold escape
      rw [if_neg hquote, if_neg hslash, if_pos hcontrol]
      -- the numbers with a short form are those of characters excluded above
      split
      case h_6 => rfl
      all_goals next h => exact absurd (JsonRead.char_eq h) (hne _ (by decide))
    · refine .plain hshort hcontrol ?_ fun out => (hwrite out).trans (if_neg hcontrol)
      unfold escape
      rw [if_neg hquote, if_neg hslash, if_neg hcontrol]

theorem utf8Size_hexDigit (n : Nat) : (hexDigit n).utf8Size = 1 :=
  forall_hexDigit (P := fun c => c.utf8Size = 1) (by decide) n

/-- One character is counted as it is written. -/
theorem utf8Len_escape (c : Char) :
    utf8Len (escape c) =
      if shortEscapes.contains c then 2 else if c.toNat < 0x20 then 6 else c.utf8Size := by
  cases escape_case c with
  | short d hc hd hescape =>
    rw [hescape, if_pos hc, String.utf8Len_cons, String.utf8Len_cons, String.utf8Len_nil, hd]
    decide
  | long hc hcontrol hescape =>
    have hhead : utf8Len ['\\', 'u', '0', '0'] = 4 := by decide
    rw [hescape, hc, if_neg Bool.false_ne_true, if_pos hcontrol, String.utf8Len_append,
      String.utf8Len_append, hhead, String.utf8Len_cons, String.utf8Len_cons, String.utf8Len_nil,
      utf8Size_hexDigit, utf8Size_hexDigit]
  | plain hc hcontrol hescape =>
    rw [hescape, hc, if_neg Bool.false_ne_true, if_neg hcontrol, String.utf8Len_cons,
      String.utf8Len_nil, Nat.zero_add]

theorem escapedLen_eq (value : String) :
    escapedLen value = utf8Len (value.toList.flatMap escape) := by
  unfold escapedLen
  induction value.toList with
  | nil => rfl
  | cons c rest ih =>
    rw [List.map_cons, List.sum_cons, ih, List.flatMap_cons, String.utf8Len_append, utf8Len_escape]

variable {out : Buffer} {n : Nat}

theorem escapeChar_eq {c : Char} (h : out.Room (utf8Len (escape c) + n)) :
    escapeChar out c = { out with chars := out.chars ++ escape c } ∧ (escapeChar out c).Room n := by
  cases escape_case c with
  | short d hc hd hescape hwrite | plain hc hcontrol hescape hwrite =>
    rw [hescape] at h
    rw [hwrite, hescape]
    exact h.push
  | long hc hcontrol hescape hwrite =>
    rw [hescape, String.utf8Len_append, String.utf8Len_append, Nat.add_assoc, Nat.add_assoc] at h
    rw [hwrite, hescape]
    obtain ⟨hfirst, hroom⟩ := h.push
    obtain ⟨hsecond, hroom'⟩ := hroom.push
    obtain ⟨hthird, hroom''⟩ := hroom'.push
    refine ⟨?_, hroom''⟩
    rw [hthird, hsecond, hfirst]
    simp only [List.append_assoc]

/-- **Writing a text**: its JSON form is appended, in as many bytes as `escapedLen` counted. -/
theorem escapeInto_eq {value : String} (h : out.Room (escapedLen value + n)) :
    escapeInto out value = { out with chars := out.chars ++ value.toList.flatMap escape } ∧
      (escapeInto out value).Room n := by
  rw [escapedLen_eq] at h
  unfold escapeInto
  generalize value.toList = chars at h ⊢
  induction chars generalizing out with
  | nil =>
    rw [List.flatMap_nil] at h ⊢
    rw [List.foldl_nil, List.append_nil]
    exact ⟨rfl, h.1, by simpa using h.2⟩
  | cons c rest ih =>
    rw [List.flatMap_cons, String.utf8Len_append, Nat.add_assoc] at h
    obtain ⟨hchar, hroom⟩ := escapeChar_eq h
    obtain ⟨hrest, hroom'⟩ := ih hroom
    refine ⟨?_, hroom'⟩
    rw [List.foldl_cons, hrest, hchar, List.flatMap_cons, List.append_assoc]

/-! ## Lines from parts -/

/-- The JSON text of a part. -/
def Part.text : Part → List Char
  | .raw text => text
  | .str text => quote text

theorem Part.len_eq (part : Part) : part.len = utf8Len part.text := by
  cases part with
  | raw text => rfl
  | str text =>
    show escapedLen text + 2 = utf8Len (quote text)
    rw [escapedLen_eq, utf8Len_quote]

theorem Part.write_eq {part : Part} (h : out.Room (part.len + n)) :
    part.write out = { out with chars := out.chars ++ part.text } ∧ (part.write out).Room n := by
  cases part with
  | raw text => exact h.push
  | str text =>
    have hmark : utf8Len ['"'] = 1 := by decide
    have hopen : out.Room (utf8Len ['"'] + (escapedLen text + (utf8Len ['"'] + n))) := by
      have hlen : (Part.str text).len = escapedLen text + 2 := rfl
      obtain ⟨hmoved, hroom⟩ := h
      exact ⟨hmoved, by omega⟩
    obtain ⟨hfirst, hroom⟩ := hopen.push
    obtain ⟨hbody, hroom'⟩ := escapeInto_eq hroom
    obtain ⟨hlast, hroom''⟩ := hroom'.push
    refine ⟨?_, hroom''⟩
    show (escapeInto (out.push ['"']) text).push ['"'] = _
    rw [hlast, hbody, hfirst]
    simp only [Part.text, quote, List.append_assoc, List.cons_append, List.nil_append]

/-- **A line is its parts' texts**, in a buffer of just their size. -/
theorem jsonLine_eq (parts : List Part) :
    jsonLine parts = ⟨parts.flatMap Part.text, utf8Len (parts.flatMap Part.text), false⟩ := by
  have hsize : (parts.map Part.len).sum = utf8Len (parts.flatMap Part.text) := by
    induction parts with
    | nil => rfl
    | cons part parts ih =>
      rw [List.map_cons, List.sum_cons, ih, List.flatMap_cons, String.utf8Len_append, Part.len_eq]
  have hfold : ∀ (parts : List Part) (out : Buffer), out.Room (parts.map Part.len).sum →
      parts.foldl Part.write out = { out with chars := out.chars ++ parts.flatMap Part.text } := by
    intro parts
    induction parts with
    | nil =>
      intro out _
      rw [List.foldl_nil, List.flatMap_nil, List.append_nil]
    | cons part parts ih =>
      intro out hroom
      obtain ⟨hpart, hroom'⟩ := Part.write_eq hroom
      rw [List.foldl_cons, ih _ hroom', hpart, List.flatMap_cons, List.append_assoc]
  have hroom : (Buffer.withCapacity (parts.map Part.len).sum).Room (parts.map Part.len).sum :=
    ⟨rfl, Nat.le_of_eq (Nat.zero_add _)⟩
  rw [jsonLine, hfold parts _ hroom, hsize]
  rfl

/-! ## The replies are objects -/

/-- The opening that the two kinds of results share. -/
theorem result_opening : "\x7b\"type\":\"result\",\"q\":".toList =
    '\x7b' :: (member "type" (quote "result") ++ ',' :: (quote "q" ++ [':'])) := by
  decide

theorem Reply.line_eq (num : List Char → Number) (reply : Reply) :
    reply.line.chars = object ((reply.members num).map JsonRead.Member.written) := by
  -- each raw part is spelled out as the marks and keys it stands for
  cases reply with
  | secret q value =>
    have hmiddle : ",\"ok\":true,\"value\":".toList =
        ',' :: (member "ok" (boolean true) ++ ',' :: (quote "value" ++ [':'])) := by decide
    have hclose : "\x7d".toList = ['\x7d'] := by decide
    show (secretResultLine q value).chars = _
    rw [secretResultLine, jsonLine_eq, result_opening, hmiddle, hclose]
    simp only [List.flatMap_cons, List.flatMap_nil, Part.text, Reply.members, List.map_cons,
      List.map_nil, JsonRead.Member.written, object, commas, member, List.append_assoc,
      List.cons_append, List.nil_append]
  | totp q code period =>
    have hmiddle : ",\"ok\":true,\"value\":\x7b\"code\":".toList =
        ',' :: (member "ok" (boolean true) ++ ',' :: (quote "value" ++ ':' ::
          '\x7b' :: (quote "code" ++ [':']))) := by decide
    have hperiod : ",\"period\":".toList = ',' :: (quote "period" ++ [':']) := by decide
    have hclose : "\x7d\x7d".toList = ['\x7d', '\x7d'] := by decide
    show (totpResultLine q code period).chars = _
    rw [totpResultLine, jsonLine_eq, result_opening, hmiddle, hperiod, hclose]
    simp only [List.flatMap_cons, List.flatMap_nil, Part.text, Reply.members, List.map_cons,
      List.map_nil, JsonRead.Member.written, object, commas, member, List.append_assoc,
      List.cons_append, List.nil_append]
  | exit id code out err session held =>
    have hopen : "\x7b\"type\":\"exit\",\"id\":".toList =
        '\x7b' :: (member "type" (quote "exit") ++ ',' :: (quote "id" ++ [':'])) := by decide
    have hcode : ",\"code\":".toList = ',' :: (quote "code" ++ [':']) := by decide
    have hout : ",\"out\":".toList = ',' :: (quote "out" ++ [':']) := by decide
    have herr : ",\"err\":".toList = ',' :: (quote "err" ++ [':']) := by decide
    have hsession : ",\"session\":".toList = ',' :: (quote "session" ++ [':']) := by decide
    have hheld : ",\"held\":".toList = ',' :: (quote "held" ++ [':']) := by decide
    have hclose : "\x7d".toList = ['\x7d'] := by decide
    show (exitLine id code out err session held).chars = _
    rw [exitLine, jsonLine_eq, hopen, hcode, hout, herr, hsession, hheld, hclose]
    simp only [List.flatMap_cons, List.flatMap_nil, Part.text, Reply.members, List.map_cons,
      List.map_nil, JsonRead.Member.written, object, commas, member, List.append_assoc,
      List.cons_append, List.nil_append]

/-- Every member's text is read as its value. -/
theorem Reply.reads (num : List Char → Number) (reply : Reply) :
    ∀ m ∈ reply.members num, JsonRead.Reads num m.2.1 m.2.2 := by
  cases reply with
  | secret q value =>
    simp only [Reply.members, List.forall_mem_cons]
    exact ⟨JsonRead.reads_quote _, JsonRead.reads_number q, JsonRead.reads_boolean true,
      JsonRead.reads_quote value, List.forall_mem_nil _⟩
  | totp q code period =>
    simp only [Reply.members, List.forall_mem_cons]
    refine ⟨JsonRead.reads_quote _, JsonRead.reads_number q, JsonRead.reads_boolean true,
      JsonRead.reads_object ?_, List.forall_mem_nil _⟩
    simp only [List.forall_mem_cons]
    exact ⟨JsonRead.reads_quote code, JsonRead.reads_number period, List.forall_mem_nil _⟩
  | exit id code out err session held =>
    simp only [Reply.members, List.forall_mem_cons]
    exact ⟨JsonRead.reads_quote _, JsonRead.reads_number id, JsonRead.reads_integer code,
      JsonRead.reads_quote out, JsonRead.reads_quote err, JsonRead.reads_boolean session,
      JsonRead.reads_boolean held, List.forall_mem_nil _⟩

/-- Every member's text is printable. -/
theorem Reply.printable (num : List Char → Number) (reply : Reply) :
    ∀ m ∈ (reply.members num).map JsonRead.Member.written, Printable m.2 := by
  cases reply with
  | secret q value =>
    simp only [Reply.members, List.map_cons, List.forall_mem_cons]
    exact ⟨printable_quote _, printable_number q, printable_boolean true, printable_quote value,
      List.forall_mem_nil _⟩
  | totp q code period =>
    simp only [Reply.members, List.map_cons, List.forall_mem_cons]
    refine ⟨printable_quote _, printable_number q, printable_boolean true, printable_object ?_,
      List.forall_mem_nil _⟩
    simp only [List.forall_mem_cons]
    exact ⟨printable_quote code, printable_number period, List.forall_mem_nil _⟩
  | exit id code out err session held =>
    simp only [Reply.members, List.map_cons, List.forall_mem_cons]
    exact ⟨printable_quote _, printable_number id, printable_integer code, printable_quote out,
      printable_quote err, printable_boolean session, printable_boolean held,
      List.forall_mem_nil _⟩

theorem Reply.keys_nodup (num : List Char → Number) (reply : Reply) :
    (((reply.members num).map JsonRead.Member.read).map (·.1)).Nodup := by
  cases reply with
  | secret | totp =>
    show ["type", "q", "ok", "value"].Nodup
    decide
  | exit =>
    show ["type", "id", "code", "out", "err", "session", "held"].Nodup
    decide

/-- What a reply line is to be. -/
structure WellFormed (num : List Char → Number) (reply : Reply) (line : Buffer) : Prop where
  /-- No control byte, so no end of line either. -/
  printable : ∀ b ∈ Utf8.encode line.chars, 0x20 ≤ b.toNat
  /-- One object, with the members given. -/
  parsed : ∃ fields, JsonRead.parse num (String.ofList line.chars) = some (.object fields) ∧
    ∀ key, fields.lookup key = ((reply.members num).map JsonRead.Member.read).lookup key
  /-- The capacity that was counted is the line's length. -/
  counted : line.capacity = (Utf8.encode line.chars).length
  /-- No copy was left behind. -/
  unmoved : line.moved = false

theorem length_encode_eq (text : List Char) : (Utf8.encode text).length = utf8Len text := by
  induction text with
  | nil => rfl
  | cons c text ih =>
    rw [Utf8.encode_cons, List.length_append, String.length_utf8EncodeChar, ih,
      String.utf8Len_cons, Nat.add_comm]

/-- **Every reply with a secret is one well-formed line**, whatever its texts are and however the
reader takes its numerals. -/
theorem replies_well_formed (num : List Char → Number) (reply : Reply) :
    WellFormed num reply reply.line := by
  have hline := reply.line_eq num
  have hbuffer : reply.line =
      ⟨reply.line.chars, utf8Len reply.line.chars, false⟩ := by
    cases reply with
    | secret q value =>
      show secretResultLine q value = _
      rw [Reply.line, secretResultLine, jsonLine_eq]
    | totp q code period =>
      show totpResultLine q code period = _
      rw [Reply.line, totpResultLine, jsonLine_eq]
    | exit id code out err session held =>
      show exitLine id code out err session held = _
      rw [Reply.line, exitLine, jsonLine_eq]
  refine ⟨?_, ?_, ?_, ?_⟩
  · rw [hline]
    exact Utf8.le_of_mem_encode (by decide) (printable_object (reply.printable num))
  · refine ⟨JsonRead.collect ((reply.members num).map JsonRead.Member.read), ?_, ?_⟩
    · rw [hline]
      exact (JsonRead.reads_object (reply.reads num)).parse
    · exact JsonRead.lookup_collect (reply.keys_nodup num)
  · rw [hbuffer, length_encode_eq]
  · rw [hbuffer]

end QsBitwarden.Vault
