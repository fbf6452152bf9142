import NeoProot.Basic
import NeoProot.Lib.Lines
import NeoProot.Lib.Decimal

/-!
# The request of a session

A client of a UM session sends its command to the daemon as a header and a payload
of lines; the daemon writes the payload to a file of the queue, and a shell loop in
the guest reads the file line by line.

## Main definitions

* `umClientSendRequest` — what the client sends.
* `umDaemonHandle` — what the daemon makes of what it received.
* `umParseRequest` — what the guest reads from the queued file.

## Main results

* `request_parsed_iff` — the guest reads what the client was given, unless the
  request is too long, exactly when there is no newline in it.
-/

namespace NeoProot.UmSession
open Lines Decimal

variable {length size timeoutMs : ℕ} {queues : Bool}

abbrev Bytes := List UInt8

variable {line received rest : Bytes}

/-- A C string: none of its bytes is zero. -/
abbrev CString := {s : Bytes // (0 : UInt8) ∉ s}

def newline : UInt8 := 10
def space : UInt8 := 32

def ascii (s : String) : Bytes := (str s).map fun c => UInt8.ofNat c.toNat

/-- `UM_SESSION_REQUEST_MARKER`. -/
def requestMarker : Bytes := ascii "neoproot-exec-v1"

/-! ### The client -/

/-- The working directory of a request; none was given for the session's own. -/
def cwdText (cwd : Option CString) : Bytes := (cwd.map Subtype.val).getD []

theorem nul_not_mem_cwdText (cwd : Option CString) : (0 : UInt8) ∉ cwdText cwd := by
  cases cwd with
  | none => exact List.not_mem_nil
  | some cwd => exact cwd.2

/-- One argument of the payload: its length and its bytes, each with a newline. -/
def argumentRecord (a : CString) : Bytes := decimal a.1.length ++ newline :: a.1 ++ [newline]

/-- The payload: the working directory and the arguments. -/
def requestPayload (cwd : Option CString) (argv : List CString) : Bytes :=
  cwdText cwd ++ newline :: argv.flatMap argumentRecord

/-- The most milliseconds a request may ask for, a year. -/
def maxTimeout : ℕ := 86400 * 365 * 1000

def requestHeader (length timeoutMs : ℕ) : Bytes :=
  ascii "EXEC " ++ (decimal length ++ space :: decimal timeoutMs)

/-- What a client sends; the timeout was checked before. -/
def umClientSendRequest (cwd : Option CString) (argv : List CString)
    (timeoutMs : Fin (maxTimeout + 1)) : Bytes :=
  let payload := requestPayload cwd argv
  requestHeader payload.length timeoutMs ++ newline :: payload

/-! ### The daemon -/

/-- A line of at most `size` bytes with its terminator, and what follows it; none when
the stream ends or stalls before its newline. -/
def umSessionReadLine (size : ℕ) (received : Bytes) : Option (Bytes × Bytes) :=
  let line := received.takeWhile (· ≠ newline)
  match received.dropWhile (· ≠ newline) with
  | [] => none
  | _ :: rest => if size < line.length + 1 then none else some (line, rest)

def isSpace (b : UInt8) : Bool := b = space || (9 ≤ b.toNat && b.toNat ≤ 13)

/-- The sign, the digits' value and the rest that `strtoul` and `strtol` find; none
when there is no digit. -/
def readNumber (text : Bytes) : Option (Bool × ℕ × Bytes) :=
  let text := text.dropWhile isSpace
  let negative := text.head? = some 45
  let text := if negative ∨ text.head? = some 43 then text.tail else text
  let (digits, rest) := readDigits text
  if digits = [] then none else some (negative, valueOf digits, rest)

/-- The longest payload that the daemon takes. -/
def maxPayload : ℕ := 1024 * 1024

/-- The payload length and the timeout of a command's header. -/
def umDaemonParseExec (line : Bytes) : Option (ℕ × ℕ) :=
  if line.take 5 ≠ ascii "EXEC " then none
  else match readNumber (line.drop 5) with
  | none => none
  | some (negative, value, rest) =>
    -- `strtoul` sets `errno` on overflow and negates within 64 bits
    if 2 ^ 64 ≤ value then none
    else
      let length := if negative then (2 ^ 64 - value) % 2 ^ 64 else value
      if rest.head? ≠ some space ∨ length = 0 ∨ maxPayload < length then none
      else match readNumber rest.tail with
        -- without a digit `strtol` gives 0 and ends where it began
        | none => if rest.tail = [] then some (length, 0) else none
        | some (negative, timeout, rest) =>
          if rest ≠ [] ∨ (negative ∧ timeout ≠ 0) ∨ maxTimeout < timeout then none
          else some (length, timeout)

/-- The announced payload; none when the client sends less. -/
def umDaemonAcceptPayload (length : ℕ) (received : Bytes) : Option Bytes :=
  if received.length < length then none else some (received.take length)

/-- The file of the queue. -/
def umDaemonQueue (payload : Bytes) : Bytes := requestMarker ++ newline :: payload

/-- How the daemon answers a connection; a client also understands `busy`. -/
inductive Answer
  | closed | bye | status | bad | busy
  | queued (file : Bytes) (timeoutMs : ℕ)
  deriving DecidableEq

/-- Answer one connection; `queues` says whether a file of the queue can be written. -/
def umDaemonHandle (queues : Bool) (received : Bytes) : Answer :=
  match umSessionReadLine 256 received with
  | none => .closed
  | some (line, rest) =>
    let line := line.takeWhile (· ≠ 0)
    if line = ascii "STOP" then .bye
    else if line = ascii "STATUS" then .status
    else match umDaemonParseExec line with
      | none => .bad
      | some (length, timeoutMs) =>
        match umDaemonAcceptPayload length rest with
        | none => .bad
        | some payload => if queues then .queued (umDaemonQueue payload) timeoutMs else .bad

/-- Whether a connection brings a whole command. -/
def IsExec (received : Bytes) : Prop :=
  ∃ file timeoutMs, umDaemonHandle true received = .queued file timeoutMs

instance (received : Bytes) : Decidable (IsExec received) :=
  match h : umDaemonHandle true received with
  | .queued file timeoutMs => isTrue ⟨file, timeoutMs, h⟩
  | .closed | .bye | .status | .bad | .busy => isFalse (by rintro ⟨_, _, h'⟩; rw [h] at h'; cases h')

/-! ### The guest -/

/-- What the loop of the guest has read of a request. -/
structure Request where
  marker : Bytes
  cwd : Bytes
  argv : List Bytes
  deriving DecidableEq

/-- `um_want_size`. -/
inductive WantSize
  | yes | cwd | size

/-- The loop over the lines of a request. -/
def umReadLines : WantSize → Request → List Bytes → Request
  | _, request, [] => request
  | .yes, request, line :: rest => umReadLines .cwd { request with marker := line } rest
  | .cwd, request, line :: rest => umReadLines .size { request with cwd := line } rest
  | .size, request, [line] =>
    if line = [] ∨ line.any (! isDigit ·) then request
    -- at the end of the document the argument is empty
    else { request with argv := request.argv ++ [[]] }
  | .size, request, line :: argument :: rest =>
    if line = [] ∨ line.any (! isDigit ·) then request
    else umReadLines .size { request with argv := request.argv ++ [argument] } rest

/-- `$(cat file)`: no byte is zero, and no newline ends it. -/
def commandSubstitution (file : Bytes) : Bytes := chomp newline (file.filter (· ≠ 0))

/-- What the guest reads from a file of the queue, replayed from a here-document. -/
def umParseRequest (file : Bytes) : Request :=
  umReadLines .yes ⟨[], [], []⟩ (lines newline (commandSubstitution file ++ [newline]))

/-! ### What the daemon receives -/

theorem umSessionReadLine_eq (h : newline ∉ line) :
    umSessionReadLine size (line ++ newline :: rest) =
      if size < line.length + 1 then none else some (line, rest) := by
  have hall : ∀ b ∈ line, decide (b ≠ newline) = true := by
    intro b hb
    simp only [decide_eq_true_eq]
    exact fun heq => h (heq ▸ hb)
  rw [umSessionReadLine, List.takeWhile_append_of_pos hall, List.dropWhile_append_of_pos hall]
  simp only [ne_eq, not_true_eq_false, decide_false, Bool.false_eq_true, not_false_eq_true,
    List.takeWhile_cons_of_neg, List.append_nil, List.dropWhile_cons_of_neg]

theorem umSessionReadLine_append (h : newline ∉ line) (hsize : line.length < size) :
    umSessionReadLine size (line ++ newline :: rest) = some (line, rest) := by
  rw [umSessionReadLine_eq h]
  exact if_neg (by omega)

/-- A line that does not fit is refused. -/
theorem umSessionReadLine_long (h : newline ∉ line) (hsize : size ≤ line.length) :
    umSessionReadLine size (line ++ newline :: rest) = none := by
  rw [umSessionReadLine_eq h]
  exact if_pos (by omega)

/-- The first line ends with the first newline. -/
theorem eq_of_umSessionReadLine (h : umSessionReadLine size received = some (line, rest)) :
    received = line ++ newline :: rest ∧ newline ∉ line ∧ line.length < size := by
  have hsplit := List.takeWhile_append_dropWhile (p := (· ≠ newline)) (l := received)
  have hnot : newline ∉ received.takeWhile (· ≠ newline) := fun hmem => by
    simpa using List.mem_takeWhile_imp hmem
  rw [umSessionReadLine] at h
  split at h
  · cases h
  · rename_i b tail hdrop
    have hb : b = newline := by
      have hhead := List.head_dropWhile_not (p := (· ≠ newline)) (l := received) (by rw [hdrop]; simp)
      simp only [hdrop, List.head_cons] at hhead
      simpa using hhead
    split at h
    · cases h
    · rename_i hsize
      cases h
      refine ⟨?_, hnot, by omega⟩
      rw [hb] at hdrop
      rw [← hdrop]
      exact hsplit.symm

/-- More bytes leave the first line as it is. -/
theorem umSessionReadLine_mono (more : Bytes)
    (h : umSessionReadLine size received = some (line, rest)) :
    umSessionReadLine size (received ++ more) = some (line, rest ++ more) := by
  obtain ⟨rfl, hnot, hsize⟩ := eq_of_umSessionReadLine h
  rw [List.append_assoc, List.cons_append]
  exact umSessionReadLine_append hnot hsize

theorem umDaemonAcceptPayload_mono {payload : Bytes} (more : Bytes)
    (h : umDaemonAcceptPayload length received = some payload) :
    umDaemonAcceptPayload length (received ++ more) = some payload := by
  rw [umDaemonAcceptPayload] at h ⊢
  split at h
  · cases h
  · rename_i hlen
    rw [if_neg (by rw [List.length_append]; omega), List.take_append_of_le_length (by omega)]
    exact h

/-- A request that was queued would be queued as well had more arrived. -/
theorem umDaemonHandle_mono {file : Bytes} (more : Bytes)
    (h : umDaemonHandle queues received = .queued file timeoutMs) :
    umDaemonHandle queues (received ++ more) = .queued file timeoutMs := by
  rw [umDaemonHandle] at h ⊢
  cases hline : umSessionReadLine 256 received with
  | none => simp [hline] at h
  | some found =>
    rw [umSessionReadLine_mono more hline]
    simp only [hline] at h ⊢
    split at h
    · cases h
    · rename_i hstop
      rw [if_neg hstop]
      split at h
      · cases h
      · rename_i hstatus
        rw [if_neg hstatus]
        split at h
        · cases h
        · split at h
          · cases h
          · rename_i payload hpay
            simpa only [umDaemonAcceptPayload_mono more hpay] using h

/-! ### The header -/

theorem isSpace_of_isDigit {b : UInt8} (h : isDigit b = true) : isSpace b = false ∧ b ≠ 45 ∧ b ≠ 43 := by
  simp only [isDigit, Bool.and_eq_true, decide_eq_true_eq] at h
  refine ⟨?_, ?_, ?_⟩
  · have hspace : b ≠ space := by
      rintro rfl
      exact absurd h.1 (by decide)
    simp only [isSpace, hspace, decide_false, Bool.false_or, Bool.and_eq_false_iff,
      decide_eq_false_iff_not]
    omega
  · rintro rfl
    exact absurd h.1 (by decide)
  · rintro rfl
    exact absurd h.1 (by decide)

/-- A number in decimal is read back. -/
theorem readNumber_decimal {n : ℕ} (h : ∀ b ∈ rest.head?, isDigit b = false) :
    readNumber (decimal n ++ rest) = some (false, n, rest) := by
  cases hd : decimal n with
  | nil => exact absurd hd (decimal_ne_nil n)
  | cons b digits =>
    have hb : isDigit b = true := isDigit_of_mem_decimal (n := n) (hd ▸ List.mem_cons_self)
    obtain ⟨hspace, hminus, hplus⟩ := isSpace_of_isDigit hb
    have hread := readDigits_decimal (n := n) h
    have hvalue := valueOf_decimal n
    rw [hd] at hread hvalue
    rw [readNumber]
    simp only [List.cons_append, hspace, Bool.false_eq_true, not_false_eq_true,
      List.dropWhile_cons_of_neg, List.head?_cons, Option.some.injEq, hminus, decide_false, hplus,
      or_self, if_false]
    rw [← List.cons_append, hread]
    simp [hvalue]

/-- The header of a request that is not too long is understood. -/
theorem umDaemonParseExec_header (hpos : 0 < length) (ht : timeoutMs ≤ maxTimeout) :
    umDaemonParseExec (requestHeader length timeoutMs) =
      if length ≤ maxPayload then some (length, timeoutMs) else none := by
  have hspace : ∀ b ∈ (space :: decimal timeoutMs).head?, isDigit b = false := by
    intro b hb
    cases hb
    rfl
  have hend : readNumber (decimal timeoutMs) = some (false, timeoutMs, []) := by
    have h : readNumber (decimal timeoutMs ++ []) = some (false, timeoutMs, []) :=
      readNumber_decimal (by simp)
    rwa [List.append_nil] at h
  have htake : (requestHeader length timeoutMs).take 5 = ascii "EXEC " :=
    List.take_left' rfl
  have hdrop : (requestHeader length timeoutMs).drop 5 = decimal length ++ space :: decimal timeoutMs :=
    List.drop_left' rfl
  rw [umDaemonParseExec, if_neg (by rw [htake]; simp), hdrop, readNumber_decimal hspace]
  simp only [Bool.false_eq_true, if_false, List.head?_cons, ne_eq, not_true_eq_false, false_or,
    List.tail_cons, hend, false_and]
  by_cases hlong : maxPayload < length
  · rw [if_neg (show ¬ length ≤ maxPayload by omega)]
    split
    · rfl
    · rw [if_pos (Or.inr hlong)]
  · rw [if_neg (by simp only [maxPayload] at hlong; omega), if_neg (by omega), if_neg (by omega),
      if_pos (by omega)]

/-- Neither a newline nor a zero byte is in a header. -/
theorem not_mem_requestHeader {b : UInt8} (hb : isDigit b = false) (hword : b ∉ ascii "EXEC ")
    (hspace : b ≠ space) : b ∉ requestHeader length timeoutMs := by
  rw [requestHeader, List.mem_append, List.mem_append, List.mem_cons]
  intro h
  rcases h with h | h | h | h
  · exact hword h
  · exact not_mem_decimal hb h
  · exact hspace h
  · exact not_mem_decimal hb h

theorem newline_not_mem_requestHeader : newline ∉ requestHeader length timeoutMs :=
  not_mem_requestHeader rfl (by decide) (by decide)

/-- A header is a C string, so the daemon compares all of it. -/
theorem takeWhile_requestHeader (length timeoutMs : ℕ) :
    (requestHeader length timeoutMs).takeWhile (· ≠ 0) = requestHeader length timeoutMs := by
  rw [List.takeWhile_eq_self_iff]
  intro b hb
  simp only [decide_eq_true_eq]
  rintro rfl
  exact not_mem_requestHeader (by rfl) (by decide) (by decide) hb

theorem requestHeader_ne_stop : requestHeader length timeoutMs ≠ ascii "STOP" := by
  intro h
  have hhead := congrArg List.head? h
  cases hhead

theorem requestHeader_ne_status : requestHeader length timeoutMs ≠ ascii "STATUS" := by
  intro h
  have hhead := congrArg List.head? h
  cases hhead

theorem length_requestHeader_lt (hlen : length ≤ maxPayload) (ht : timeoutMs ≤ maxTimeout) :
    (requestHeader length timeoutMs).length < 256 := by
  have hl : (decimal length).length ≤ 7 := length_decimal_le (by omega) (by
    simp only [maxPayload] at hlen
    omega)
  have htl : (decimal timeoutMs).length ≤ 11 := length_decimal_le (by omega) (by
    simp only [maxTimeout] at ht
    omega)
  have hword : (ascii "EXEC ").length = 5 := rfl
  rw [requestHeader, List.length_append, List.length_append, List.length_cons, hword]
  omega

/-! ### The queued file -/

section Queue

variable (cwd : Option CString) (argv : List CString) (timeoutMs : Fin (maxTimeout + 1))

/-- The lines of a request behind its marker. -/
def requestLines : List Bytes :=
  cwdText cwd :: argv.flatMap fun a => [decimal a.1.length, a.1]

theorem requestPayload_eq : requestPayload cwd argv = unlines newline (requestLines cwd argv) := by
  have hrecords : argv.flatMap argumentRecord =
      unlines newline (argv.flatMap fun a => [decimal a.1.length, a.1]) := by
    induction argv with
    | nil => rfl
    | cons a argv ih =>
      rw [List.flatMap_cons, List.flatMap_cons, ih, unlines_append, unlines_cons, unlines_cons,
        unlines_nil, argumentRecord]
      simp only [List.append_assoc, List.cons_append, List.nil_append]
  rw [requestPayload, requestLines, unlines_cons, hrecords]

/-- The bytes of a payload, counted from what it is made of. -/
def payloadLength : ℕ :=
  (cwdText cwd).length + 1 +
    (argv.map fun a => (decimal a.1.length).length + 1 + a.1.length + 1).sum

theorem length_requestPayload : (requestPayload cwd argv).length = payloadLength cwd argv := by
  have hrecords : (argv.flatMap argumentRecord).length =
      (argv.map fun a => (decimal a.1.length).length + 1 + a.1.length + 1).sum := by
    rw [List.length_flatMap]
    congr 1
    apply List.map_congr_left
    intro a _
    rw [argumentRecord, List.length_append, List.length_append, List.length_cons,
      List.length_singleton]
    omega
  rw [requestPayload, payloadLength, List.length_append, List.length_cons, hrecords]
  omega

theorem payloadLength_pos : 0 < payloadLength cwd argv := by
  rw [payloadLength]
  omega

/-- The daemon reads the header of a request that is not too long. -/
theorem umSessionReadLine_send
    (hshort : (requestHeader (requestPayload cwd argv).length timeoutMs).length < 256) :
    umSessionReadLine 256 (umClientSendRequest cwd argv timeoutMs) =
      some (requestHeader (requestPayload cwd argv).length timeoutMs, requestPayload cwd argv) :=
  umSessionReadLine_append newline_not_mem_requestHeader hshort

/-- What the daemon does with a request that it received whole, when it read the header. -/
theorem umDaemonHandle_of_readLine {payload : Bytes}
    (hline : umSessionReadLine 256 received = some (requestHeader length timeoutMs, payload))
    (hlen : payload.length = length) (hpos : 0 < length) :
    umDaemonHandle queues received =
      if length ≤ maxPayload ∧ queues then .queued (umDaemonQueue payload) timeoutMs else .bad := by
  have ht : (timeoutMs : ℕ) ≤ maxTimeout := Nat.lt_succ_iff.1 timeoutMs.isLt
  rw [umDaemonHandle, hline]
  simp only [takeWhile_requestHeader]
  rw [if_neg requestHeader_ne_stop, if_neg requestHeader_ne_status,
    umDaemonParseExec_header hpos ht]
  by_cases hlong : length ≤ maxPayload
  · rw [if_pos hlong]
    simp [umDaemonAcceptPayload, hlen, hlong, List.take_of_length_le (Nat.le_of_eq hlen)]
  · rw [if_neg hlong, if_neg fun h => hlong h.1]

/-- The daemon queues a request that is not too long, with its payload as it was sent. -/
theorem umDaemonHandle_send (hlen : payloadLength cwd argv ≤ maxPayload) :
    umDaemonHandle true (umClientSendRequest cwd argv timeoutMs) =
      .queued (umDaemonQueue (requestPayload cwd argv)) timeoutMs := by
  have ht : (timeoutMs : ℕ) ≤ maxTimeout := Nat.lt_succ_iff.1 timeoutMs.isLt
  have hpos := payloadLength_pos cwd argv
  rw [← length_requestPayload] at hlen hpos
  have hline := umSessionReadLine_send cwd argv timeoutMs (length_requestHeader_lt hlen ht)
  rw [umDaemonHandle_of_readLine timeoutMs hline rfl hpos, if_pos ⟨hlen, rfl⟩]

/-- What is queued of a request is all of it, and it was not too long. -/
theorem eq_of_umDaemonHandle_send {n t : ℕ} {file : Bytes}
    (h : umDaemonHandle queues ((umClientSendRequest cwd argv timeoutMs).take n) = .queued file t) :
    payloadLength cwd argv ≤ maxPayload ∧ file = umDaemonQueue (requestPayload cwd argv) := by
  have hall := umDaemonHandle_mono ((umClientSendRequest cwd argv timeoutMs).drop n) h
  rw [List.take_append_drop] at hall
  have hpos := payloadLength_pos cwd argv
  rw [← length_requestPayload] at hpos ⊢
  by_cases hshort : (requestHeader (requestPayload cwd argv).length timeoutMs).length < 256
  · have hline := umSessionReadLine_send cwd argv timeoutMs hshort
    rw [umDaemonHandle_of_readLine timeoutMs hline rfl hpos] at hall
    split at hall
    · rename_i hboth
      cases hall
      exact ⟨hboth.1, rfl⟩
    · cases hall
  · -- a header that long has no place in the buffer of a line
    rw [umClientSendRequest, umDaemonHandle,
      umSessionReadLine_long newline_not_mem_requestHeader (by omega)] at hall
    cases hall

end Queue

/-! ### What the guest reads -/

theorem commandSubstitution_unlines {ls : List Bytes} (hnul : ∀ l ∈ ls, (0 : UInt8) ∉ l) :
    commandSubstitution (unlines newline ls) = chomp newline (unlines newline ls) := by
  have hall : ∀ b ∈ unlines newline ls, decide (b ≠ 0) = true := by
    intro b hb
    simp only [decide_eq_true_eq]
    rintro rfl
    obtain ⟨l, hl, hmem⟩ := List.mem_flatMap.1 hb
    rcases List.mem_append.1 hmem with hmem | hmem
    · exact hnul l hl hmem
    · cases List.mem_singleton.1 hmem
  rw [commandSubstitution, List.filter_eq_self.2 hall]

/-- Every part of what the guest read is a line of the file, or empty. -/
theorem mem_umReadLines {P : Bytes → Prop} (hnil : P []) {ls : List Bytes} (hls : ∀ l ∈ ls, P l)
    {want : WantSize} {r : Request} (hcwd : P r.cwd) (hargv : ∀ a ∈ r.argv, P a) :
    P (umReadLines want r ls).cwd ∧ ∀ a ∈ (umReadLines want r ls).argv, P a := by
  have happend : ∀ {argv : List Bytes} {a : Bytes}, (∀ a ∈ argv, P a) → P a →
      ∀ b ∈ argv ++ [a], P b := by
    intro argv a hargv ha b hb
    rcases List.mem_append.1 hb with hb | hb
    · exact hargv b hb
    · rw [List.mem_singleton.1 hb]
      exact ha
  induction want, r, ls using umReadLines.induct with
  | case1 want r =>
    rw [umReadLines]
    exact ⟨hcwd, hargv⟩
  | case2 r line rest ih =>
    rw [umReadLines]
    exact ih (fun l hl => hls l (List.mem_cons_of_mem line hl)) hcwd hargv
  | case3 r line rest ih =>
    rw [umReadLines]
    exact ih (fun l hl => hls l (List.mem_cons_of_mem line hl)) (hls line List.mem_cons_self) hargv
  | case4 r line hstop =>
    rw [umReadLines, if_pos hstop]
    exact ⟨hcwd, hargv⟩
  | case5 r line hgo =>
    rw [umReadLines, if_neg hgo]
    exact ⟨hcwd, happend hargv hnil⟩
  | case6 r line argument rest hstop =>
    rw [umReadLines, if_pos hstop]
    exact ⟨hcwd, hargv⟩
  | case7 r line argument rest hgo ih =>
    rw [umReadLines, if_neg hgo]
    refine ih (fun l hl => hls l (List.mem_cons_of_mem line (List.mem_cons_of_mem argument hl)))
      hcwd (happend hargv ?_)
    exact hls argument (List.mem_cons_of_mem line List.mem_cons_self)

/-- What the guest reads has no newline in it. -/
theorem newline_not_mem_umParseRequest (file : Bytes) :
    newline ∉ (umParseRequest file).cwd ∧ ∀ a ∈ (umParseRequest file).argv, newline ∉ a :=
  mem_umReadLines (P := fun l => newline ∉ l) List.not_mem_nil
    (fun _ hl => not_mem_of_mem_lines hl) List.not_mem_nil (fun _ h => nomatch h)

/-- The size line of an argument is one. -/
theorem size_line (n : ℕ) : ¬ (decimal n = [] ∨ (decimal n).any (! isDigit ·)) := by
  rw [not_or, List.any_eq_true]
  refine ⟨decimal_ne_nil n, ?_⟩
  rintro ⟨b, hb, hnot⟩
  rw [isDigit_of_mem_decimal hb] at hnot
  cases hnot

/-- Only with no argument are all the lines of the arguments empty. -/
theorem records_eq_nil {argv : List CString}
    (h : (argv.flatMap fun a => [decimal a.1.length, a.1]).rdropWhile (· = []) = []) :
    argv = [] := by
  cases argv with
  | nil => rfl
  | cons a argv =>
    have hsize := List.rdropWhile_eq_nil_iff.1 h (decimal a.1.length) (by simp)
    exact absurd (of_decide_eq_true hsize) (decimal_ne_nil a.1.length)

/-- The records of the arguments are read back, also when empty lines at their end are lost. -/
theorem umReadLines_records (r : Request) (argv : List CString) :
    umReadLines .size r ((argv.flatMap fun a => [decimal a.1.length, a.1]).rdropWhile (· = [])) =
      { r with argv := r.argv ++ argv.map Subtype.val } := by
  induction argv generalizing r with
  | nil => simp [umReadLines]
  | cons a argv ih =>
    have hsize : ¬ decide (decimal a.1.length = []) = true := by
      simpa using decimal_ne_nil a.1.length
    rw [List.flatMap_cons, List.cons_append, rdropWhile_cons, if_neg fun h => hsize h.1,
      List.singleton_append, rdropWhile_cons]
    split
    · -- the last arguments are empty, and no line of them is left
      rename_i hlast
      have ha : a.1 = [] := by simpa using hlast.1
      rw [umReadLines, if_neg (size_line a.1.length), records_eq_nil hlast.2, List.map_singleton,
        ha]
    · rw [umReadLines, if_neg (size_line a.1.length), ih, List.map_cons, List.append_assoc,
        List.singleton_append]

section Parse

variable (cwd : Option CString) (argv : List CString)

/-- The guest reads a request without newlines as it was sent. -/
theorem umParseRequest_queue (hcwd : newline ∉ cwdText cwd) (hargv : ∀ a ∈ argv, newline ∉ a.1) :
    umParseRequest (umDaemonQueue (requestPayload cwd argv)) =
      ⟨requestMarker, cwdText cwd, argv.map Subtype.val⟩ := by
  have hfile : umDaemonQueue (requestPayload cwd argv) =
      unlines newline (requestMarker :: requestLines cwd argv) := by
    rw [umDaemonQueue, requestPayload_eq, unlines_cons]
  have hlines : ∀ l ∈ requestMarker :: requestLines cwd argv, newline ∉ l ∧ (0 : UInt8) ∉ l := by
    intro l hl
    rw [requestLines, List.mem_cons, List.mem_cons, List.mem_flatMap] at hl
    rcases hl with rfl | rfl | ⟨a, ha, hl⟩
    · exact ⟨by decide, by decide⟩
    · exact ⟨hcwd, nul_not_mem_cwdText cwd⟩
    · rcases List.mem_pair.1 hl with rfl | rfl
      · exact ⟨not_mem_decimal rfl, not_mem_decimal rfl⟩
      · exact ⟨hargv a ha, a.2⟩
  have hmarker : ¬ decide (requestMarker = []) = true := by decide
  rw [umParseRequest, hfile, commandSubstitution_unlines fun l hl => (hlines l hl).2,
    chomp_unlines (fun l hl => (hlines l hl).1) ⟨requestMarker, List.mem_cons_self, by decide⟩,
    lines_unlines fun l hl => (hlines l ((List.rdropWhile_prefix _ _).subset hl)).1,
    rdropWhile_cons, if_neg fun h => hmarker h.1, umReadLines, requestLines, rdropWhile_cons]
  split
  · rename_i hnone
    have hempty : cwdText cwd = [] := by simpa using hnone.1
    rw [umReadLines, records_eq_nil hnone.2, hempty]
    rfl
  · rw [umReadLines, umReadLines_records]
    rfl

/-- A queued request is read as it was sent, if and only if there is no newline in it. -/
theorem umParseRequest_queue_iff :
    umParseRequest (umDaemonQueue (requestPayload cwd argv)) =
        ⟨requestMarker, cwdText cwd, argv.map Subtype.val⟩ ↔
      newline ∉ cwdText cwd ∧ ∀ a ∈ argv, newline ∉ a.1 := by
  constructor
  · intro h
    have hnot := newline_not_mem_umParseRequest (umDaemonQueue (requestPayload cwd argv))
    rw [h] at hnot
    exact ⟨hnot.1, fun a ha => hnot.2 a.1 (List.mem_map_of_mem ha)⟩
  · rintro ⟨hcwd, hargv⟩
    exact umParseRequest_queue cwd argv hcwd hargv

end Parse

/-- The session's request, from the client through the daemon to the guest: it is
refused or read as it was given, however much of it arrives, exactly when it is too
long or has no newline in it. -/
theorem request_parsed_iff (cwd : Option CString) (argv : List CString)
    (timeoutMs : Fin (maxTimeout + 1)) :
    (∀ (n : ℕ) (queues : Bool) (file : Bytes) (t : ℕ),
        umDaemonHandle queues ((umClientSendRequest cwd argv timeoutMs).take n) =
          .queued file t →
        umParseRequest file = ⟨requestMarker, cwdText cwd, argv.map Subtype.val⟩) ↔
      maxPayload < payloadLength cwd argv ∨
        (newline ∉ cwdText cwd ∧ ∀ a ∈ argv, newline ∉ a.1) := by
  constructor
  · intro h
    by_cases hlen : payloadLength cwd argv ≤ maxPayload
    · right
      have hwhole := h (umClientSendRequest cwd argv timeoutMs).length true
        (umDaemonQueue (requestPayload cwd argv)) timeoutMs
      rw [List.take_length] at hwhole
      exact (umParseRequest_queue_iff cwd argv).1
        (hwhole (umDaemonHandle_send cwd argv timeoutMs hlen))
    · left
      omega
  · intro h n queues file t hqueued
    obtain ⟨hlen, rfl⟩ := eq_of_umDaemonHandle_send cwd argv timeoutMs hqueued
    rcases h with h | h
    · omega
    · exact (umParseRequest_queue_iff cwd argv).2 h

/-- `neoproot-um session run NAME -- $'a\nb'`. -/
def twoLines : CString := ⟨[97, newline, 98], by decide⟩

/-- An argument of two lines arrives as another one. -/
theorem newline_argument_cut :
    ¬ ∀ (cwd : Option CString) (argv : List CString) (timeoutMs : Fin (maxTimeout + 1))
        (n : ℕ) (queues : Bool) (file : Bytes) (t : ℕ),
        umDaemonHandle queues ((umClientSendRequest cwd argv timeoutMs).take n) =
          .queued file t →
        umParseRequest file = ⟨requestMarker, cwdText cwd, argv.map Subtype.val⟩ := by
  intro h
  have hshort : payloadLength none [twoLines] ≤ maxPayload := by
    have hsize : (decimal twoLines.1.length).length ≤ 1 :=
      length_decimal_le (by omega) (by decide)
    have hbytes : twoLines.1.length = 3 := rfl
    rw [payloadLength, List.map_singleton, List.sum_singleton, maxPayload]
    simp only [cwdText, Option.map_none, Option.getD_none, List.length_nil]
    omega
  have hsent := umDaemonHandle_send none [twoLines] 0 hshort
  have hread := h none [twoLines] 0 (umClientSendRequest none [twoLines] 0).length true _ _
    (by rw [List.take_length]; exact hsent)
  have hnone := ((umParseRequest_queue_iff none [twoLines]).1 hread).2 twoLines
    List.mem_cons_self
  exact hnone (by decide)

/-- No client is ever told that the session is busy. -/
theorem umDaemonHandle_ne_busy (queues : Bool) (received : Bytes) :
    umDaemonHandle queues received ≠ .busy := by
  rw [umDaemonHandle]
  grind

end NeoProot.UmSession
