import NeoProot.Backend.Request
import NeoProot.Lib.Run
import NeoProot.Lib.Window

/-!
# Terminal input

The supervisor reads what is typed into a buffer of limited size and writes it to the PTY of the
guest as that takes it.  At the end of its input it puts an EOT behind the rest.

## Main definitions

* `umBufferReserve`, `umBufferAppend`, `umBufferConsume`, `umFlushBuffer` — the buffer.
* `Terminal`, `Terminal.pass` — the part of the supervisor's loop that reads and writes input.
* `Terminal.Kept` — what was read is written in order, or in the buffer.

## Main results

* `input_kept_iff` — a run keeps its input exactly when no read brings more than there is room
  for.
-/

namespace NeoProot.UmSession
open Run

/-! ### The buffer -/

/-- `UmBuffer`: the bytes from `start` to `end`. -/
abbrev UmBuffer := Window UInt8

/-- The difference of two values of `size_t`. -/
def sizeSub (a b : ℕ) : ℕ := (a + (2 ^ 64 - b % 2 ^ 64)) % 2 ^ 64

/-- Double the capacity until it is enough, or take the limit. -/
def grow (capacity needed limit : ℕ) : ℕ :=
  if h : 0 < capacity ∧ capacity < needed then
    if limit / 2 < capacity then limit else grow (capacity * 2) needed limit
  else capacity
termination_by needed - capacity
decreasing_by omega

/-- `um_buffer_reserve`; `memory` says whether `realloc` succeeds. -/
def umBufferReserve (b : UmBuffer) (additional limit : ℕ) (memory : Bool) : UmBuffer × Bool :=
  if sizeSub limit b.length < additional then (b, false)
  else
    let needed := b.length + additional
    if needed ≤ b.capacity - b.start then (b, true)
    else
      let packed := if b.start ≠ 0 then b.pack else b
      if b.start ≠ 0 ∧ needed ≤ b.capacity then (packed, true)
      else
        let capacity := if b.capacity = 0 then 4096 else b.capacity
        if memory then (packed.enlarge (grow capacity needed limit) 0, true) else (packed, false)

/-- `um_buffer_append`; after `um_buffer_reserve` there is room. -/
def umBufferAppend (b : UmBuffer) (data : Bytes) (limit : ℕ) (memory : Bool) : UmBuffer × Bool :=
  let r := umBufferReserve b data.length limit memory
  if h : r.2 = true ∧ r.1.stop + data.length ≤ r.1.capacity then (r.1.put data h.2, true)
  else (r.1, false)

/-- `um_buffer_consume`. -/
def umBufferConsume (b : UmBuffer) (n : ℕ) (h : n ≤ b.length) : UmBuffer := (b.advance n h).rewind

/-- What a `write` to the PTY returns: a count, or that it should be tried again, or an error. -/
inductive WriteResult
  | wrote (n : ℕ) | again | fails
  deriving DecidableEq

/-- `um_flush_buffer` with what the writes return; the bytes that were written. -/
def umFlushBuffer (b : UmBuffer) : List WriteResult → UmBuffer × Bytes
  | [] => (b, [])
  | r :: rs =>
    if b.start < b.stop then
      match r with
      | .wrote n =>
        if 0 < n then
          let count := min n b.length
          let rest := umFlushBuffer (umBufferConsume b count (Nat.min_le_right _ _)) rs
          (rest.1, b.contents.take count ++ rest.2)
        else (b, [])
      | .again | .fails => (b, [])
    else (b, [])

/-! ### The loop -/

/-- `UM_INPUT_LIMIT`. -/
def inputLimit : ℕ := 64 * 1024

/-- The size of the array that `read` fills. -/
def readSize : ℕ := 16384

/-- EOT, which ends the input of a terminal. -/
def eot : UInt8 := 4

/-- What a `read` from `stdin` brings. -/
inductive ReadResult
  | data (bytes : Bytes) | ends | again | fails

/-- The input of the supervisor: the buffer, whether it sees the end of `stdin`, whether the
child is done; what was read, whether `stdin` ended or failed, and what the PTY was given. -/
structure Terminal where
  input : UmBuffer
  stdinEof : Bool
  childDone : Bool
  read : Bytes
  ended : Bool
  written : Bytes

/-- A pass of the loop: whether the child is done, what `stdin` brings where it is ready, what the
writes return where the PTY is, and whether there is memory. -/
structure TerminalPass where
  done : Bool
  stdin : Option ReadResult
  writes : Option (List WriteResult)
  memory : Bool

namespace Terminal

/-- Nothing read yet. -/
def initial : Terminal := ⟨.empty, false, false, [], false, []⟩

/-- `stdin` is among what is polled. -/
def Polled (s : Terminal) : Prop :=
  s.childDone = false ∧ s.stdinEof = false ∧ s.input.length < inputLimit

instance (s : Terminal) : Decidable s.Polled := inferInstanceAs (Decidable (_ ∧ _))

/-- The end of `stdin`: an EOT, and no more reads. -/
def endInput (s : Terminal) (memory : Bool) : Terminal :=
  { s with
    input := (umBufferAppend s.input [eot] inputLimit memory).1, stdinEof := true, ended := true }

/-- A read from `stdin`; what the buffer does not take is dropped. -/
def readStdin (s : Terminal) (memory : Bool) : ReadResult → Terminal
  | .data bytes =>
    let bytes := bytes.take readSize
    if bytes = [] then s.endInput memory
    else
      let r := umBufferAppend s.input bytes inputLimit memory
      { s with input := r.1, stdinEof := s.stdinEof || !r.2, read := s.read ++ bytes }
  | .ends | .fails => s.endInput memory
  | .again => s

/-- The PTY takes some of the input. -/
def flush (s : Terminal) (rs : List WriteResult) : Terminal :=
  let r := umFlushBuffer s.input rs
  { s with input := r.1, written := s.written ++ r.2 }

/-- The first half of a pass: whether the child is done, and what `stdin` brings. -/
def receive (s : Terminal) (p : TerminalPass) : Terminal :=
  let s := { s with childDone := s.childDone || p.done }
  match p.stdin with
  | some r => if s.Polled then s.readStdin p.memory r else s
  | none => s

/-- A pass; the PTY is polled for writing when there is input as it begins. -/
def pass (s : Terminal) (p : TerminalPass) : Terminal :=
  match p.writes with
  | some rs => if s.input.start ≠ s.input.stop then (s.receive p).flush rs else s.receive p
  | none => s.receive p

/-! ### What is kept -/

/-- What was written and what is in the buffer are what was read, and an EOT after the end of
it; and the end of the input is noted only where `stdin` ended or failed. -/
structure Kept (s : Terminal) : Prop where
  fifo : s.written ++ s.input.contents = s.read ++ (if s.ended then [eot] else [])
  eof : s.stdinEof = true → s.ended = true

/-- There is room for so much more, without a larger array or with the memory for it. -/
def Room (s : Terminal) (n : ℕ) (memory : Bool) : Prop :=
  s.input.length + n ≤ inputLimit ∧ (s.input.length + n ≤ s.input.capacity ∨ memory = true)

/-- A read that is done brings no more than there is room for. -/
def Fits (s : Terminal) (p : TerminalPass) : Prop :=
  { s with childDone := s.childDone || p.done }.Polled →
    match p.stdin with
    | some (.data bytes) => s.Room (max 1 (bytes.take readSize).length) p.memory
    | some .ends | some .fails => s.Room 1 p.memory
    | some .again | none => True

end Terminal

/-! ### The buffer as a queue -/

theorem sizeSub_of_le {a b : ℕ} (h : b ≤ a) (ha : a < 2 ^ 64) : sizeSub a b = a - b := by
  have hsmall : b % 2 ^ 64 = b := Nat.mod_eq_of_lt (h.trans_lt ha)
  have hwrap : a + (2 ^ 64 - b) = a - b + 2 ^ 64 := by omega
  rw [sizeSub, hsmall, hwrap, Nat.add_mod_right]
  exact Nat.mod_eq_of_lt ((Nat.sub_le a b).trans_lt ha)

theorem le_grow {capacity needed limit : ℕ} (hpos : 0 < capacity) (hle : needed ≤ limit) :
    needed ≤ grow capacity needed limit := by
  fun_induction grow capacity needed limit with
  | case1 capacity h hlimit => exact hle
  | case2 capacity h hlimit ih => exact ih (by omega)
  | case3 capacity h =>
    rw [not_and] at h
    exact not_lt.1 (h hpos)

section Reserve

variable {b : UmBuffer} {n limit : ℕ} {memory : Bool}

theorem contents_reserve : (umBufferReserve b n limit memory).1.contents = b.contents := by
  unfold umBufferReserve
  split
  · rfl
  simp only
  split
  · rfl
  have hpacked : (if b.start ≠ 0 then b.pack else b).contents = b.contents := by
    split
    · exact b.contents_pack
    · rfl
  split
  · exact hpacked
  split
  · rw [Window.contents_enlarge]
    exact hpacked
  · exact hpacked

/-- Room is found as far as the limit allows it, and the memory where the array is too small. -/
theorem reserve_iff (hle : b.length ≤ limit) (hlimit : limit < 2 ^ 64) :
    (umBufferReserve b n limit memory).2 = true ↔
      b.length + n ≤ limit ∧ (b.length + n ≤ b.capacity ∨ memory = true) := by
  have hstart := b.start_le
  have hstop : b.stop ≤ b.capacity := b.stop_le
  have hlength : b.length = b.stop - b.start := rfl
  unfold umBufferReserve
  rw [sizeSub_of_le hle hlimit]
  split
  · rename_i hfull
    exact iff_of_false nofun fun h => by omega
  rename_i hroom
  have hfits : b.length + n ≤ limit := by omega
  simp only
  split
  · rename_i hbehind
    exact iff_of_true rfl ⟨hfits, .inl (by omega)⟩
  rename_i hnot
  split
  · rename_i hpacked
    exact iff_of_true rfl ⟨hfits, .inl hpacked.2⟩
  rename_i hsmall
  have hgrows : ¬ b.length + n ≤ b.capacity := by
    intro hthere
    by_cases hzero : b.start = 0
    · omega
    · exact hsmall ⟨hzero, hthere⟩
  cases memory with
  | true => exact iff_of_true rfl ⟨hfits, .inr rfl⟩
  | false => exact iff_of_false nofun fun h => h.2.elim hgrows nofun

/-- What was reserved is behind the values. -/
theorem reserve_room (hle : b.length ≤ limit) (hlimit : limit < 2 ^ 64)
    (hok : (umBufferReserve b n limit memory).2 = true) :
    (umBufferReserve b n limit memory).1.stop + n ≤
      (umBufferReserve b n limit memory).1.capacity := by
  have hfits := ((reserve_iff hle hlimit).1 hok).1
  have hstart := b.start_le
  have hstop : b.stop ≤ b.capacity := b.stop_le
  have hlength : b.length = b.stop - b.start := rfl
  revert hok
  unfold umBufferReserve
  rw [sizeSub_of_le hle hlimit]
  split
  · exact nofun
  simp only
  have hpacked : (if b.start ≠ 0 then b.pack else b).stop = b.length := by
    split
    · rfl
    · omega
  split
  · intro _
    change b.stop + n ≤ b.capacity
    omega
  split
  · rename_i hthere
    intro _
    rw [if_pos hthere.1]
    change b.length + n ≤ b.pack.capacity
    rw [Window.capacity_pack]
    exact hthere.2
  cases memory with
  | true =>
    intro _
    have hgrow : b.length + n ≤ grow (if b.capacity = 0 then 4096 else b.capacity) (b.length + n)
        limit := by
      apply le_grow ?_ hfits
      split
      · exact Nat.succ_pos _
      · omega
    rw [if_pos rfl, Window.capacity_enlarge]
    change (if b.start ≠ 0 then b.pack else b).stop + n ≤ _
    rw [hpacked]
    exact hgrow.trans (Nat.le_max_right _ _)
  | false => exact nofun

/-- Appending puts the data behind the rest or leaves the queue as it is. -/
theorem append_cases (data : Bytes) (hle : b.length ≤ limit) (hlimit : limit < 2 ^ 64) :
    (b.length + data.length ≤ limit ∧ (b.length + data.length ≤ b.capacity ∨ memory = true)) ∧
        (umBufferAppend b data limit memory).2 = true ∧
        (umBufferAppend b data limit memory).1.contents = b.contents ++ data ∨
      ¬ (b.length + data.length ≤ limit ∧
          (b.length + data.length ≤ b.capacity ∨ memory = true)) ∧
        (umBufferAppend b data limit memory).2 = false ∧
        (umBufferAppend b data limit memory).1.contents = b.contents := by
  unfold umBufferAppend
  rw [← reserve_iff hle hlimit (n := data.length)]
  simp only
  split
  · rename_i h
    refine .inl ⟨h.1, rfl, ?_⟩
    rw [Window.contents_put, contents_reserve]
  · rename_i h
    refine .inr ⟨fun hok => h ⟨hok, reserve_room hle hlimit hok⟩, rfl, contents_reserve⟩

end Reserve

/-- Flushing takes from the front what it writes. -/
theorem flush_contents (b : UmBuffer) (rs : List WriteResult) :
    (umFlushBuffer b rs).2 ++ (umFlushBuffer b rs).1.contents = b.contents := by
  induction rs generalizing b with
  | nil => rfl
  | cons r rs ih =>
    rw [umFlushBuffer.eq_def]
    simp only
    split
    · cases r with
      | wrote n =>
        simp only
        split
        · rw [List.append_assoc, ih, umBufferConsume, Window.contents_rewind,
            Window.contents_advance, List.take_append_drop]
        · rfl
      | again => rfl
      | fails => rfl
    · rfl

namespace Terminal

variable {s : Terminal}

/-- The buffer keeps to its limit, and no input is read after the end. -/
structure Sound (s : Terminal) : Prop where
  limited : s.input.length ≤ inputLimit
  ended : s.ended = true → s.stdinEof = true

theorem input_append (h : Sound s) (data : Bytes) (memory : Bool) :
    s.Room data.length memory ∧ (umBufferAppend s.input data inputLimit memory).2 = true ∧
        (umBufferAppend s.input data inputLimit memory).1.contents = s.input.contents ++ data ∨
      ¬ s.Room data.length memory ∧ (umBufferAppend s.input data inputLimit memory).2 = false ∧
        (umBufferAppend s.input data inputLimit memory).1.contents = s.input.contents :=
  append_cases data h.limited (by decide)

theorem limited_append (h : Sound s) (data : Bytes) (memory : Bool) :
    (umBufferAppend s.input data inputLimit memory).1.length ≤ inputLimit := by
  rw [← Window.length_contents]
  obtain ⟨hroom, -, hcontents⟩ | ⟨-, -, hcontents⟩ := input_append h data memory
  · rw [hcontents, List.length_append, Window.length_contents]
    exact hroom.1
  · rw [hcontents, Window.length_contents]
    exact h.limited

/-- Before the end of the input, what is written or held is what was read. -/
theorem Kept.eq_of_polled (hk : Kept s) (h : Sound s) (hpolled : s.Polled) :
    s.ended = false ∧ s.written ++ s.input.contents = s.read := by
  have hended : s.ended = false := by
    by_contra hended
    rw [Bool.not_eq_false] at hended
    have heof := h.ended hended
    rw [hpolled.2.1] at heof
    cases heof
  have hfifo := hk.fifo
  rw [hended] at hfifo
  exact ⟨hended, by simpa using hfifo⟩

/-- The end of the input is kept exactly when there is room for the EOT. -/
theorem kept_endInput (h : Sound s) (hk : Kept s) (hpolled : s.Polled) (memory : Bool) :
    (s.endInput memory).Kept ↔ s.Room 1 memory := by
  obtain ⟨-, hfifo⟩ := hk.eq_of_polled h hpolled
  obtain ⟨hroom, -, hcontents⟩ | ⟨hroom, -, hcontents⟩ := input_append h [eot] memory
  · refine iff_of_true ⟨?_, fun _ => rfl⟩ hroom
    simp only [endInput, hcontents, if_true]
    rw [← List.append_assoc, hfifo]
  · refine iff_of_false (fun hkept => ?_) hroom
    have hlost := hkept.fifo
    simp only [endInput, hcontents, if_true, hfifo] at hlost
    simp at hlost

/-- Input is kept exactly when there is room for it. -/
theorem kept_readStdin (h : Sound s) (hk : Kept s) (hpolled : s.Polled) (memory : Bool)
    (r : ReadResult) :
    (s.readStdin memory r).Kept ↔ match r with
      | .data bytes => s.Room (max 1 (bytes.take readSize).length) memory
      | .ends | .fails => s.Room 1 memory
      | .again => True := by
  cases r with
  | ends => exact kept_endInput h hk hpolled memory
  | fails => exact kept_endInput h hk hpolled memory
  | again => exact iff_of_true hk trivial
  | data bytes =>
    simp only [readStdin]
    generalize hdata : bytes.take readSize = data
    split
    · rename_i hnil
      rw [hnil]
      exact kept_endInput h hk hpolled memory
    · rename_i hsome
      have hpos := List.length_pos_iff.2 hsome
      obtain ⟨hended, hfifo⟩ := hk.eq_of_polled h hpolled
      rw [Nat.max_eq_right hpos]
      obtain ⟨hroom, hok, hcontents⟩ | ⟨hroom, hok, hcontents⟩ := input_append h data memory
      · refine iff_of_true ⟨?_, fun heof => ?_⟩ hroom
        · simp only [hcontents, hended]
          rw [← List.append_assoc, hfifo]
          simp
        · simp only [hok, hpolled.2.1] at heof
          cases heof
      · refine iff_of_false (fun hkept => ?_) hroom
        -- the bytes are gone, so the lengths differ
        have hlost := congrArg List.length hkept.fifo
        simp only [hcontents, hfifo, hended, List.length_append] at hlost
        simp at hlost
        exact hsome hlost

theorem sound_readStdin (h : Sound s) (hpolled : s.Polled) (memory : Bool) (r : ReadResult) :
    Sound (s.readStdin memory r) := by
  have hend : Sound (s.endInput memory) := ⟨limited_append h [eot] memory, fun _ => rfl⟩
  cases r with
  | ends => exact hend
  | fails => exact hend
  | again => exact h
  | data bytes =>
    simp only [readStdin]
    split
    · exact hend
    · refine ⟨limited_append h _ memory, fun hended => ?_⟩
      have heof := h.ended hended
      rw [hpolled.2.1] at heof
      cases heof

theorem kept_flush (rs : List WriteResult) : (s.flush rs).Kept ↔ s.Kept := by
  have hsame : (s.flush rs).written ++ (s.flush rs).input.contents =
      s.written ++ s.input.contents := by
    simp only [flush]
    rw [List.append_assoc, flush_contents]
  constructor
  · intro hk
    exact ⟨by rw [← hsame]; exact hk.fifo, hk.eof⟩
  · intro hk
    exact ⟨by rw [hsame]; exact hk.fifo, hk.eof⟩

theorem sound_flush (h : Sound s) (rs : List WriteResult) : Sound (s.flush rs) := by
  refine ⟨?_, h.ended⟩
  have hlen := congrArg List.length (flush_contents s.input rs)
  rw [List.length_append, Window.length_contents, Window.length_contents] at hlen
  have hlimited := h.limited
  change (umFlushBuffer s.input rs).1.length ≤ inputLimit
  omega

theorem kept_receive (h : Sound s) (hk : Kept s) (p : TerminalPass) :
    Sound (s.receive p) ∧ ((s.receive p).Kept ↔ s.Fits p) := by
  have hs : Sound { s with childDone := s.childDone || p.done } := ⟨h.limited, h.ended⟩
  have hks : Kept { s with childDone := s.childDone || p.done } := ⟨hk.fifo, hk.eof⟩
  unfold receive Fits
  cases hstdin : p.stdin with
  | none => exact ⟨hs, iff_of_true hks fun _ => trivial⟩
  | some r =>
    simp only
    split
    · rename_i hpolled
      refine ⟨sound_readStdin hs hpolled p.memory r, ?_⟩
      rw [kept_readStdin hs hks hpolled p.memory r]
      cases r with
      | data bytes => exact ⟨fun hroom _ => hroom, fun hfits => hfits hpolled⟩
      | ends => exact ⟨fun hroom _ => hroom, fun hfits => hfits hpolled⟩
      | fails => exact ⟨fun hroom _ => hroom, fun hfits => hfits hpolled⟩
      | again => exact ⟨fun hroom _ => hroom, fun hfits => hfits hpolled⟩
    · rename_i hpolled
      exact ⟨hs, iff_of_true hks fun hpolled' => absurd hpolled' hpolled⟩

/-- A pass keeps the input exactly when its read fits. -/
theorem kept_pass (h : Sound s) (hk : Kept s) (p : TerminalPass) :
    Sound (s.pass p) ∧ ((s.pass p).Kept ↔ s.Fits p) := by
  obtain ⟨hsound, hkept⟩ := kept_receive h hk p
  unfold pass
  cases hwrites : p.writes with
  | none => exact ⟨hsound, hkept⟩
  | some rs =>
    simp only
    split
    · exact ⟨sound_flush hsound rs, (kept_flush rs).trans hkept⟩
    · exact ⟨hsound, hkept⟩

end Terminal

/-! ### Runs -/

/-- Whatever comes from `stdin` and however the PTY takes it, the input is kept, in order and with
one EOT at its end, exactly when no read brings more than there is room for in the buffer. -/
theorem input_kept_iff (ps : List TerminalPass) :
    (∀ s ∈ states Terminal.pass .initial ps, s.Kept) ↔
      AllSteps Terminal.pass Terminal.Fits .initial ps := by
  have hinitial : Terminal.Sound .initial := ⟨Nat.zero_le _, fun hended => by cases hended⟩
  apply states_iff_allSteps_of_kept (I := Terminal.Sound)
  · intro s p h hk _
    exact (Terminal.kept_pass h hk p).1
  · intro s p h hk
    exact (Terminal.kept_pass h hk p).2
  · exact hinitial
  · exact ⟨rfl, fun heof => by cases heof⟩

/-- A pass in which `stdin` brings so many bytes and the PTY takes none. -/
def typed (n : ℕ) : TerminalPass := ⟨false, some (.data (List.replicate n 0)), none, true⟩

/-- Bytes that fit are added to the buffer. -/
theorem Terminal.length_typed {s : Terminal} (h : s.Sound) (hopen : s.childDone = false)
    (heof : s.stdinEof = false) {n : ℕ} (hpos : 0 < n) (hsize : n ≤ readSize)
    (hroom : s.input.length + n ≤ inputLimit) :
    (s.pass (typed n)).Sound ∧ (s.pass (typed n)).childDone = false ∧
      (s.pass (typed n)).stdinEof = false ∧
      (s.pass (typed n)).input.length = s.input.length + n := by
  have hpolled : s.Polled := ⟨hopen, heof, by omega⟩
  have hdata : (List.replicate n (0 : UInt8)).take readSize = List.replicate n 0 := by
    rw [List.take_replicate, Nat.min_eq_right hsize]
  have hsome : List.replicate n (0 : UInt8) ≠ [] := by
    rw [← List.length_pos_iff, List.length_replicate]
    exact hpos
  have hpass : s.pass (typed n) = s.readStdin true (.data (List.replicate n 0)) := by
    have hchild : { s with childDone := s.childDone || false } = s := by
      rw [Bool.or_false]
    simp only [pass, typed, receive, hchild, if_pos hpolled]
  rw [hpass]
  refine ⟨sound_readStdin h hpolled true _, ?_⟩
  simp only [readStdin, hdata, if_neg hsome]
  obtain ⟨-, hok, hcontents⟩ | ⟨hnot, -⟩ := input_append h (List.replicate n 0) true
  · refine ⟨hopen, by simp only [heof, hok, Bool.not_true, Bool.or_self], ?_⟩
    rw [← Window.length_contents, hcontents, List.length_append, List.length_replicate,
      Window.length_contents]
  · refine absurd ⟨?_, .inr rfl⟩ hnot
    rw [List.length_replicate]
    exact hroom

/-- Bytes that do not fit are lost. -/
theorem Terminal.not_kept_typed {s : Terminal} (h : s.Sound) (hk : s.Kept)
    (hopen : s.childDone = false) (heof : s.stdinEof = false) {n : ℕ} (hsize : n ≤ readSize)
    (hsome : s.input.length < inputLimit) (hroom : inputLimit < s.input.length + n) :
    ¬ (s.pass (typed n)).Kept := by
  intro hlost
  have hfits := (kept_pass h hk (typed n)).2.1 hlost
  have hlong := (hfits ⟨(Bool.or_false _).trans hopen, heof, hsome⟩).1
  rw [List.take_replicate, List.length_replicate, Nat.min_eq_right hsize] at hlong
  have hle := Nat.le_max_right 1 n
  omega

/-- Typing up to one byte of room, and then two bytes, loses the last ones. -/
theorem Terminal.not_kept_foldl_typed {s : Terminal} (h : s.Sound) (hopen : s.childDone = false)
    (heof : s.stdinEof = false) (hempty : s.input.length = 0) :
    let full := [typed 16384, typed 16384, typed 16384, typed 16383]
    (full.foldl Terminal.pass s).Kept → ¬ ((full ++ [typed 2]).foldl Terminal.pass s).Kept := by
  intro full
  have hlimit : inputLimit = 65536 := rfl
  have hread : readSize = 16384 := rfl
  simp only [full, List.cons_append, List.nil_append, List.foldl_cons, List.foldl_nil]
  intro hfull
  obtain ⟨h₁, hopen₁, heof₁, hlen₁⟩ := Terminal.length_typed h hopen heof
    (n := 16384) (by omega) (by omega) (by omega)
  obtain ⟨h₂, hopen₂, heof₂, hlen₂⟩ := Terminal.length_typed h₁ hopen₁ heof₁
    (n := 16384) (by omega) (by omega) (by omega)
  obtain ⟨h₃, hopen₃, heof₃, hlen₃⟩ := Terminal.length_typed h₂ hopen₂ heof₂
    (n := 16384) (by omega) (by omega) (by omega)
  obtain ⟨h₄, hopen₄, heof₄, hlen₄⟩ := Terminal.length_typed h₃ hopen₃ heof₃
    (n := 16383) (by omega) (by omega) (by omega)
  exact Terminal.not_kept_typed h₄ hfull hopen₄ heof₄ (n := 2) (by omega) (by omega) (by omega)

/-- One byte is free when two are read. -/
theorem typed_ahead_lost :
    ¬ ∀ ps : List TerminalPass, ∀ s ∈ states Terminal.pass .initial ps, s.Kept := by
  intro h
  have hinitial : Terminal.Sound .initial := ⟨Nat.zero_le _, fun hended => by cases hended⟩
  have hfull := h _ _ (foldl_mem_states Terminal.pass .initial
    [typed 16384, typed 16384, typed 16384, typed 16383])
  have hlast := h _ _ (foldl_mem_states Terminal.pass .initial
    ([typed 16384, typed 16384, typed 16384, typed 16383] ++ [typed 2]))
  exact Terminal.not_kept_foldl_typed hinitial rfl rfl rfl hfull hlast

end NeoProot.UmSession
