import Mathlib.Data.List.Basic
import Mathlib.Data.List.Flatten

/-!
# Vault — reading requests (`vault/src/main.rs`)

The panel writes one request a line. The helper reads its standard input through a buffer, which
hands over the stream in pieces of whatever size the reads had, and must not keep more than
`MAX_LINE` bytes of a line: an overlong one is read to its end and dropped.

* **`Input`** — what `BufRead` still has to deliver, in non-empty pieces. A read that fails is not
  modelled: it ends the loop.
* **`Reading.pass`** — one pass of the loop of `read_line`; **`readLine`** — the whole loop.
* **`requests`** — what the lines of a stream are, without any buffer.
* **`readFrom_requests`** — the loop, from any point of a line: it returns the first request of what
  the line has so far and the stream, and leaves the stream behind that request.
* **`reads_requests`** — the calls one after another return the stream's requests and then nothing.
-/

namespace QsBitwarden.Vault.Requests

abbrev Bytes := List UInt8

def maxLine : Nat := 4 * 1024 * 1024

/-- `b'\n'`. -/
def newline : UInt8 := 10

/-! ## The buffer -/

/-- The pieces still to come; the first is what the buffer holds. -/
structure Input where
  pieces : List Bytes
  filled : ∀ piece ∈ pieces, piece ≠ []

namespace Input

/-- The stream still to come. -/
def bytes (input : Input) : Bytes := input.pieces.flatten

/-- Empty at the end of the stream only. -/
def fillBuf (input : Input) : Bytes := input.pieces.headD []

def consume (input : Input) (used : Nat) : Input where
  pieces :=
    match input.pieces with
    | [] => []
    | piece :: rest => if (piece.drop used).isEmpty then rest else piece.drop used :: rest
  filled := by
    obtain ⟨pieces, filled⟩ := input
    cases pieces with
    | nil => exact filled
    | cons piece rest =>
      have hrest : ∀ piece ∈ rest, piece ≠ [] := fun p hp => filled p (List.mem_cons_of_mem _ hp)
      dsimp only
      split
      · exact hrest
      · next hleft =>
        refine List.forall_mem_cons.mpr ⟨fun hempty => hleft ?_, hrest⟩
        rw [hempty]
        rfl

end Input

/-! ## The loop -/

/-- The variables of the loop. -/
structure Reading where
  line : Bytes
  overlong : Bool
  input : Input

/-- How a pass of the loop ends. -/
inductive Pass where
  | again (r : Reading)
  | done (result : Option Bytes) (input : Input)

namespace Reading

/-- The line as a call begins it. -/
def start (input : Input) : Reading := ⟨[], false, input⟩

/-- What becomes of the line when `chunk` comes: past the limit nothing of it is kept. -/
def take (r : Reading) (chunk : Bytes) : Bytes × Bool :=
  if r.overlong then (r.line, true)
  else if maxLine < r.line.length + chunk.length then ([], true)
  else (r.line ++ chunk, false)

def pass (r : Reading) : Pass :=
  let buffer := r.input.fillBuf
  if buffer.isEmpty then
    .done (if !r.line.isEmpty && !r.overlong then some r.line else none) r.input
  else
    match buffer.findIdx? (· == newline) with
    | some at' =>
      let taken := r.take (buffer.take at')
      let input := r.input.consume (at' + 1)
      if taken.2 then .again (start input) else .done (some taken.1) input
    | none =>
      let taken := r.take buffer
      .again ⟨taken.1, taken.2, r.input.consume buffer.length⟩

end Reading

/-! ## What a pass can do -/

namespace Input

theorem consume_some (piece : Bytes) (rest : List Bytes) (h : ∀ p ∈ piece :: rest, p ≠ [])
    (used : Nat) :
    (consume ⟨piece :: rest, h⟩ used).bytes = piece.drop used ++ rest.flatten := by
  show (if (piece.drop used).isEmpty then rest else piece.drop used :: rest).flatten = _
  split
  · next hempty =>
    rw [List.isEmpty_iff.mp hempty]
    rfl
  · exact List.flatten_cons

end Input

/-- The ends of a pass, by what the buffer holds: nothing, a whole line's end, or part of a line. -/
inductive PassCase (r : Reading) : Pass → Prop where
  | ended (hend : r.input.bytes = []) :
      PassCase r (.done (if !r.line.isEmpty && !r.overlong then some r.line else none) r.input)
  | line (chunk : Bytes) (input : Input) (hbytes : r.input.bytes = chunk ++ newline :: input.bytes)
      (hchunk : newline ∉ chunk) :
      PassCase r (if (r.take chunk).2 then .again (.start input)
        else .done (some (r.take chunk).1) input)
  | part (chunk : Bytes) (input : Input) (hbytes : r.input.bytes = chunk ++ input.bytes)
      (hchunk : newline ∉ chunk) (hne : chunk ≠ []) :
      PassCase r (.again ⟨(r.take chunk).1, (r.take chunk).2, input⟩)

theorem pass_case (r : Reading) : PassCase r r.pass := by
  obtain ⟨line, overlong, ⟨pieces, filled⟩⟩ := r
  cases pieces with
  | nil => exact .ended rfl
  | cons piece rest =>
    have hpiece : piece ≠ [] := filled piece List.mem_cons_self
    have hbuffer : ¬piece.isEmpty = true := fun h => hpiece (List.isEmpty_iff.mp h)
    unfold Reading.pass
    dsimp only [Input.fillBuf, List.headD_cons]
    rw [if_neg hbuffer]
    cases hat : piece.findIdx? (· == newline) with
    | none =>
      refine .part piece _ ?_ ?_ hpiece
      · rw [Input.consume_some, List.drop_length]
        rfl
      · intro hmem
        have hno := List.findIdx?_eq_none_iff.mp hat newline hmem
        exact absurd hno (by decide)
    | some at' =>
      obtain ⟨hlt, hfound, hbefore⟩ := List.findIdx?_eq_some_iff_getElem.mp hat
      have hsplit : piece = piece.take at' ++ newline :: piece.drop (at' + 1) := by
        rw [← beq_iff_eq.mp hfound, List.getElem_cons_drop, List.take_append_drop]
      refine .line (piece.take at') _ ?_ ?_
      · rw [Input.consume_some]
        show piece ++ rest.flatten = _
        rw [← List.cons_append, ← List.append_assoc, ← hsplit]
      · intro hmem
        obtain ⟨j, hj, heq⟩ := List.getElem_of_mem hmem
        rw [List.length_take] at hj
        rw [List.getElem_take] at heq
        exact hbefore j (by omega) (beq_iff_eq.mpr heq)

/-- Every pass that goes on has read something. -/
theorem length_of_again {r r' : Reading} (h : r.pass = .again r') :
    r'.input.bytes.length < r.input.bytes.length := by
  have hcase := pass_case r
  rw [h] at hcase
  generalize hp : Pass.again r' = p at hcase
  cases hcase with
  | ended => cases hp
  | line chunk input hbytes =>
    split at hp
    · obtain rfl := Pass.again.inj hp
      rw [hbytes, List.length_append, List.length_cons]
      show input.bytes.length < _
      omega
    · cases hp
  | part chunk input hbytes _ hne =>
    obtain rfl := Pass.again.inj hp
    have hpos := List.length_pos_iff.mpr hne
    rw [hbytes, List.length_append]
    show input.bytes.length < _
    omega

/-! ## Calls -/

/-- The loop from some point on. -/
def readFrom (r : Reading) : Option Bytes × Input :=
  match _h : r.pass with
  | .again r' => readFrom r'
  | .done result input => (result, input)
termination_by r.input.bytes.length
decreasing_by exact length_of_again _h

def readLine (input : Input) : Option Bytes × Input := readFrom (.start input)

/-- The input after `n` calls. -/
def after (input : Input) : Nat → Input
  | 0 => input
  | n + 1 => (readLine (after input n)).2

/-- The points the loop comes to, over all calls on one input. -/
inductive Reaches (input : Input) : Reading → Prop where
  | start : Reaches input (.start input)
  | again {r r' : Reading} (h : Reaches input r) (hpass : r.pass = .again r') : Reaches input r'
  | next {r : Reading} {result : Option Bytes} {input' : Input} (h : Reaches input r)
      (hpass : r.pass = .done result input') : Reaches input (.start input')

theorem readFrom_again {r r' : Reading} (h : r.pass = .again r') : readFrom r = readFrom r' := by
  rw [readFrom]
  split
  · next heq =>
    rw [h] at heq
    rw [Pass.again.inj heq]
  · next heq =>
    rw [h] at heq
    cases heq

theorem readFrom_done {r : Reading} {result : Option Bytes} {input : Input}
    (h : r.pass = .done result input) : readFrom r = (result, input) := by
  rw [readFrom]
  split
  · next heq =>
    rw [h] at heq
    cases heq
  · next heq =>
    rw [h] at heq
    obtain ⟨rfl, rfl⟩ := Pass.done.inj heq
    rfl

/-! ## The lines of a stream -/

/-- Short enough to be kept. -/
def fits (line : Bytes) : Bool := line.length ≤ maxLine

/-- The lines that end in a newline, then what is left behind the last newline if there is
anything; without those that are too long. -/
def requests (stream : Bytes) : List Bytes :=
  let parts := stream.splitOn newline
  parts.dropLast.filter fits ++
    parts.getLast?.toList.filter fun tail => !tail.isEmpty && fits tail

theorem requests_tail {tail : Bytes} (h : newline ∉ tail) :
    requests tail = if !tail.isEmpty && fits tail then [tail] else [] := by
  unfold requests
  rw [List.splitOn_eq_singleton h]
  show [].filter fits ++ [tail].filter _ = _
  rw [List.filter_nil, List.nil_append, List.filter_cons, List.filter_nil]

theorem requests_line {line rest : Bytes} (h : newline ∉ line) :
    requests (line ++ newline :: rest) =
      if fits line then line :: requests rest else requests rest := by
  have hparts : (line ++ newline :: rest).splitOn newline = line :: rest.splitOn newline := by
    rw [List.splitOn_append_cons_self, List.splitOn_eq_singleton h]
    rfl
  -- the parts of the rest are not empty, so the last part stays the last
  obtain ⟨first, others, hrest⟩ := List.exists_cons_of_ne_nil (List.splitOn_ne_nil newline rest)
  unfold requests
  rw [hparts, hrest]
  dsimp only
  rw [List.dropLast_cons_cons, List.getLast?_cons_cons, List.filter_cons]
  split
  · rfl
  · rfl

/-! ## The loop reads the lines -/

/-- What the loop has of the current line. -/
structure Holds (r : Reading) (seen : Bytes) : Prop where
  free : newline ∉ seen
  kept : r.overlong = false → r.line = seen ∧ seen.length ≤ maxLine
  dropped : r.overlong = true → r.line = [] ∧ maxLine < seen.length

theorem holds_start (input : Input) : Holds (.start input) [] where
  free := List.not_mem_nil
  kept := fun _ => ⟨rfl, Nat.zero_le _⟩
  dropped := fun h => Bool.noConfusion h

variable {r : Reading} {seen chunk : Bytes}

/-- A chunk without a newline, taken in. -/
theorem Holds.take (h : Holds r seen) (hchunk : newline ∉ chunk) (input : Input) :
    Holds ⟨(r.take chunk).1, (r.take chunk).2, input⟩ (seen ++ chunk) := by
  have hopen : newline ∉ seen ++ chunk := by
    rw [List.mem_append, not_or]
    exact ⟨h.free, hchunk⟩
  unfold Reading.take
  cases hlong : r.overlong with
  | true =>
    obtain ⟨hline, hseen⟩ := h.dropped hlong
    rw [if_pos rfl]
    refine ⟨hopen, fun hkept => Bool.noConfusion hkept, fun _ => ⟨hline, ?_⟩⟩
    rw [List.length_append]
    omega
  | false =>
    obtain ⟨hline, hseen⟩ := h.kept hlong
    rw [if_neg Bool.false_ne_true, hline]
    split
    · next hover =>
      refine ⟨hopen, fun hkept => Bool.noConfusion hkept, fun _ => ⟨rfl, ?_⟩⟩
      rw [List.length_append]
      exact hover
    · next hfits =>
      refine ⟨hopen, fun _ => ⟨rfl, ?_⟩, fun hdropped => Bool.noConfusion hdropped⟩
      rw [List.length_append]
      omega

/-- The line held is never longer than the limit. -/
theorem Holds.length_le (h : Holds r seen) : r.line.length ≤ maxLine := by
  cases hlong : r.overlong with
  | true =>
    rw [(h.dropped hlong).1]
    exact Nat.zero_le _
  | false =>
    obtain ⟨hline, hseen⟩ := h.kept hlong
    rw [hline]
    exact hseen

/-- A line is kept just if it fits. -/
theorem Holds.fits_eq (h : Holds r seen) : fits seen = !r.overlong := by
  unfold fits
  cases hlong : r.overlong with
  | true =>
    have hseen := (h.dropped hlong).2
    exact decide_eq_false (by omega)
  | false => exact decide_eq_true (h.kept hlong).2

/-- What a call makes of a stream: the first of its requests, with the stream behind it. -/
def Answers (stream : Bytes) (answer : Option Bytes × Input) : Prop :=
  match answer.1 with
  | some line => requests stream = line :: requests answer.2.bytes
  | none => requests stream = [] ∧ answer.2.bytes = []

/-- **The loop returns the first request**, from any point of a line. -/
theorem readFrom_requests (h : Holds r seen) : Answers (seen ++ r.input.bytes) (readFrom r) := by
  -- on the length of the stream: each pass that goes on leaves less of it
  induction hn : r.input.bytes.length using Nat.strongRecOn generalizing r seen with
  | ind n ih =>
    have hcase := pass_case r
    cases hpass : r.pass with
    | again r' =>
      rw [readFrom_again hpass]
      have hless := length_of_again hpass
      rw [hpass] at hcase
      generalize hp : Pass.again r' = p at hcase
      cases hcase with
      | ended => cases hp
      | line chunk input hbytes hchunk =>
        split at hp
        · -- the end of an overlong line: on with a new one
          next hlong =>
          obtain rfl := Pass.again.inj hp
          have hover := (h.take hchunk input).fits_eq
          have hrest := ih _ (by omega) (holds_start input) rfl
          rw [hbytes, ← List.append_assoc]
          unfold Answers at hrest ⊢
          rw [requests_line (h.take hchunk input).free, hover, if_neg]
          · exact hrest
          · show ¬(!(r.take chunk).2) = true
            rw [hlong]
            exact Bool.false_ne_true
        · cases hp
      | part chunk input hbytes hchunk =>
        obtain rfl := Pass.again.inj hp
        have hrest := ih _ (by omega) (h.take hchunk input) rfl
        rw [hbytes, ← List.append_assoc]
        exact hrest
    | done result input =>
      rw [readFrom_done hpass]
      rw [hpass] at hcase
      generalize hp : Pass.done result input = p at hcase
      cases hcase with
      | ended hend =>
        obtain ⟨rfl, rfl⟩ := Pass.done.inj hp
        rw [hend, List.append_nil]
        unfold Answers
        have htail := requests_tail h.free
        rw [h.fits_eq] at htail
        cases hlong : r.overlong with
        | true =>
          rw [hlong, Bool.not_true, Bool.and_false] at htail
          rw [Bool.not_true, Bool.and_false]
          exact ⟨htail, hend⟩
        | false =>
          rw [(h.kept hlong).1]
          rw [hlong, Bool.not_false, Bool.and_true] at htail
          rw [Bool.not_false, Bool.and_true]
          cases seen with
          | nil => exact ⟨htail, hend⟩
          | cons b seen =>
            have hnone : requests r.input.bytes = [] := by
              rw [hend]
              exact requests_tail List.not_mem_nil
            show requests (b :: seen) = (b :: seen) :: requests r.input.bytes
            rw [hnone]
            exact htail
      | line chunk input' hbytes hchunk =>
        split at hp
        · cases hp
        · next hkept =>
          obtain ⟨rfl, rfl⟩ := Pass.done.inj hp
          have htaken := h.take hchunk input
          have hfalse : (r.take chunk).2 = false := (Bool.not_eq_true _).mp hkept
          have hline := (htaken.kept hfalse).1
          show requests _ = (r.take chunk).1 :: requests input.bytes
          rw [hbytes, ← List.append_assoc, requests_line htaken.free, htaken.fits_eq, if_pos]
          · rw [← hline]
          · show (!(r.take chunk).2) = true
            rw [hfalse]
            rfl
      | part => cases hp

theorem readLine_requests (input : Input) : Answers input.bytes (readLine input) :=
  readFrom_requests (holds_start input)

/-- After `n` calls the stream's requests are those after the first `n`. -/
theorem requests_after (input : Input) (n : Nat) :
    requests (after input n).bytes = (requests input.bytes).drop n := by
  induction n with
  | zero => rfl
  | succ n ih =>
    have hanswer := readLine_requests (after input n)
    show requests (readLine (after input n)).2.bytes = _
    unfold Answers at hanswer
    split at hanswer
    · next line hline =>
      rw [← List.drop_drop, ← ih, hanswer]
      rfl
    · obtain ⟨hnone, hend⟩ := hanswer
      rw [← List.drop_drop, ← ih, hnone, hend]
      exact requests_tail List.not_mem_nil

/-- At every point of the loop the line held is what `Holds` says. -/
theorem Reaches.holds {input : Input} (h : Reaches input r) : ∃ seen, Holds r seen := by
  induction h with
  | start => exact ⟨[], holds_start input⟩
  | next => exact ⟨[], holds_start _⟩
  | @again r r' _ hpass ih =>
    obtain ⟨seen, hseen⟩ := ih
    have hcase := pass_case r
    rw [hpass] at hcase
    generalize hp : Pass.again r' = p at hcase
    cases hcase with
    | ended => cases hp
    | line chunk input =>
      split at hp
      · obtain rfl := Pass.again.inj hp
        exact ⟨[], holds_start input⟩
      · cases hp
    | part chunk input _ hchunk =>
      obtain rfl := Pass.again.inj hp
      exact ⟨seen ++ chunk, hseen.take hchunk input⟩

/-- **Reading is independent of buffering.** Call number `n` returns request number `n` of the
stream, none past the last, however the stream comes in pieces; and no point of the loop holds more
of a line than the limit. -/
theorem reads_requests (input : Input) :
    (∀ n, (readLine (after input n)).1 = (requests input.bytes)[n]?) ∧
      ∀ r, Reaches input r → r.line.length ≤ maxLine := by
  refine ⟨fun n => ?_, fun r hr => ?_⟩
  · have hanswer := readLine_requests (after input n)
    have hfirst : (requests (after input n).bytes).head? = (readLine (after input n)).1 := by
      unfold Answers at hanswer
      split at hanswer
      · next line hline => rw [hanswer, hline, List.head?_cons]
      · next hline => rw [hanswer.1, hline, List.head?_nil]
    rw [← hfirst, requests_after, List.head?_drop]
  · obtain ⟨seen, hseen⟩ := hr.holds
    exact hseen.length_le

end QsBitwarden.Vault.Requests
