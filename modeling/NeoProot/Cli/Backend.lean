import NeoProot.Basic
import Mathlib.Data.List.Basic

/-!
# The command line of the dispatcher

Before a backend runs, the dispatcher takes its own options out of the command line, finds
where the guest command starts, and chooses the backend.  In the mode `auto` the choice is made
from the command, from the root file system, and from whether a kernel was configured.

## Main definitions

* `prepareBackendArgv` — the vector for a backend, the mode and the index of the command.
* `autoGuestCommand` — the command that wrappers lead to.
* `selectBackend` — the backend that is chosen.
* `Line` — the parts of a command line.

## Main results

* `guest_words_kept_out` — what follows the start of the guest command is not looked at, except
  where a wrapper leads to the command, or a word looks like an option of a kernel.
-/

namespace NeoProot.Cli

variable {backendSet : Bool} {os ws : List CStr} {c : Option (List CStr)} {command : CStr}

/-- `options` of `option_takes_separate_value`. -/
def separateValueOptions : List CStr :=
  [str "-r", str "--rootfs", str "--cow-file", str "-b", str "--bind", str "-m", str "--mount",
    str "-w", str "--pwd", str "--cwd", str "-k", str "--kernel-release", str "-i",
    str "--change-id", str "-v", str "--verbose", str "-R", str "-S"]

def optionTakesSeparateValue (argument : CStr) : Bool := separateValueOptions.contains argument

inductive BackendMode
  | default | fast | um | auto
  deriving DecidableEq

/-! ### Preparing the vector -/

/-- How the loop of `neoproot_prepare_backend_argv` takes a word before the command. -/
inductive WordKind
  | separator
  | command
  | backendJoined (value : CStr)
  | backend
  | autoJoined (value : CStr)
  | auto
  /-- An option of a backend whose value is the next word. -/
  | valued
  | plain
  deriving DecidableEq

def wordKind (w : CStr) : WordKind :=
  if w = str "--" then .separator
  else if w.head? ≠ some '-' then .command
  else if (str "--backend=").isPrefixOf w then .backendJoined (w.drop 10)
  else if w = str "--backend" then .backend
  else if (str "--auto-um-commands=").isPrefixOf w then .autoJoined (w.drop 19)
  else if w = str "--auto-um-commands" then .auto
  else if optionTakesSeparateValue w then .valued
  else .plain

/-- What `neoproot_prepare_backend_argv` returns. -/
structure Prepared where
  argv : List CStr
  mode : BackendMode
  commandIndex : ℕ
  autoCommands : Option CStr
  deriving DecidableEq

variable {r : Prepared}

inductive PrepareError
  | backendValue
  | autoDuplicate
  | autoValue
  | backendDuplicate
  | backendUnknown (value : CStr)
  deriving DecidableEq

/-- Take the value of `--backend`. -/
def setBackend (p : Prepared) (backendSet : Bool) (value : CStr) : Except PrepareError Prepared :=
  if backendSet then .error .backendDuplicate
  else if value = str "fast" then .ok { p with mode := .fast }
  else if value = str "um" then .ok { p with mode := .um }
  else if value = str "auto" then .ok { p with mode := .auto }
  else .error (.backendUnknown value)

/-- The loop of `neoproot_prepare_backend_argv`; from the command on all words are copied. -/
def prepareLoop (p : Prepared) (backendSet autoSet : Bool) :
    List CStr → Except PrepareError Prepared
  | [] => .ok p
  | w :: ws =>
    match wordKind w with
    | .separator => .ok { p with argv := p.argv ++ ws, commandIndex := p.argv.length }
    | .command => .ok { p with argv := p.argv ++ w :: ws, commandIndex := p.argv.length }
    | .backendJoined value =>
      match setBackend p backendSet value with
      | .error e => .error e
      | .ok p => prepareLoop p true autoSet ws
    | .backend =>
      match ws with
      | [] => .error .backendValue
      | value :: ws =>
        match setBackend p backendSet value with
        | .error e => .error e
        | .ok p => prepareLoop p true autoSet ws
    | .autoJoined value =>
      if autoSet then .error .autoDuplicate
      else prepareLoop { p with autoCommands := some value } backendSet true ws
    | .auto =>
      if autoSet then .error .autoDuplicate
      else match ws with
      | [] => .error .autoValue
      | value :: ws => prepareLoop { p with autoCommands := some value } backendSet true ws
    | .valued =>
      match ws with
      | [] => .ok { p with argv := p.argv ++ [w] }
      | value :: ws => prepareLoop { p with argv := p.argv ++ [w, value] } backendSet autoSet ws
    | .plain => prepareLoop { p with argv := p.argv ++ [w] } backendSet autoSet ws

def prepareBackendArgv (argv : List CStr) : Except PrepareError Prepared :=
  prepareLoop ⟨argv.take 1, .default, 0, none⟩ false false (argv.drop 1)

/-- The words after the program's name are the dispatcher's own options, the options of a backend
in their order and with their values, and the guest command, if there is one. -/
inductive Line : List CStr → List CStr → Option (List CStr) → Prop
  | none : Line [] [] none
  | separator (w : CStr) (words : List CStr) (h : wordKind w = .separator) :
    Line (w :: words) [] (some words)
  | command (w : CStr) (words : List CStr) (h : wordKind w = .command) :
    Line (w :: words) [] (some (w :: words))
  | backendJoined {w value : CStr} {ws os : List CStr} {c : Option (List CStr)}
    (h : wordKind w = .backendJoined value) (hws : Line ws os c) : Line (w :: ws) os c
  | backend {w value : CStr} {ws os : List CStr} {c : Option (List CStr)}
    (h : wordKind w = .backend) (hws : Line ws os c) : Line (w :: value :: ws) os c
  | autoJoined {w value : CStr} {ws os : List CStr} {c : Option (List CStr)}
    (h : wordKind w = .autoJoined value) (hws : Line ws os c) : Line (w :: ws) os c
  | auto {w value : CStr} {ws os : List CStr} {c : Option (List CStr)}
    (h : wordKind w = .auto) (hws : Line ws os c) : Line (w :: value :: ws) os c
  | valued {w value : CStr} {ws os : List CStr} {c : Option (List CStr)}
    (h : wordKind w = .valued) (hws : Line ws os c) :
    Line (w :: value :: ws) (w :: value :: os) c
  | unvalued (w : CStr) (h : wordKind w = .valued) : Line [w] [w] none
  | plain {w : CStr} {ws os : List CStr} {c : Option (List CStr)} (h : wordKind w = .plain)
    (hws : Line ws os c) : Line (w :: ws) (w :: os) c

/-! ### The root file system -/

/-- What `stat` finds. -/
inductive FileKind
  | directory | regular | other
  deriving DecidableEq

/-- What the dispatcher takes from outside: three variables, and the files of the host. -/
structure World where
  kernel : Option CStr
  stub : Option CStr
  autoCommands : Option CStr
  stat : CStr → Option FileKind

/-- The loop of `backend_rootfs_value`: the last root file system, and whether there is a file
for its changes. -/
def rootfsLoop (found : Option CStr) (cow : Bool) : List CStr → Option CStr × Bool
  | [] => (found, cow)
  | w :: ws =>
    if (str "--rootfs=").isPrefixOf w then rootfsLoop (some (w.drop 9)) cow ws
    else if (str "--cow-file=").isPrefixOf w then rootfsLoop found true ws
    else if w = str "-r" ∨ w = str "--rootfs" then
      match ws with
      | [] => (found, cow)
      | value :: ws => rootfsLoop (some value) cow ws
    else if w = str "--cow-file" then
      match ws with
      | [] => (found, true)
      | _ :: ws => rootfsLoop found true ws
    else if optionTakesSeparateValue w then
      match ws with
      | [] => (found, cow)
      | _ :: ws => rootfsLoop found cow ws
    else rootfsLoop found cow ws

def backendRootfsValue (p : Prepared) : Option CStr × Bool :=
  let limit := if 0 < p.commandIndex then p.commandIndex else p.argv.length
  rootfsLoop none false ((p.argv.take limit).drop 1)

inductive RootfsKind
  | none | directory | image
  deriving DecidableEq

def rootfsKind (w : World) (p : Prepared) : RootfsKind :=
  match (backendRootfsValue p).1 with
  | .none => .none
  | some value =>
    if value = [] then .none
    else match w.stat value with
    | some .directory => .directory
    | some .regular => .image
    | some .other | .none => .none

def hasCowFile (p : Prepared) : Bool := (backendRootfsValue p).2

/-! ### Whether a kernel is configured -/

/-- A variable that is set to the empty string is not configuration. -/
def isConfigured (value : Option CStr) : Bool := value.any (· ≠ [])

/-- The words that `neoproot_um_backend_is_configured` takes for options. -/
def namesKernel (w : CStr) : Bool := (str "--kernel=").isPrefixOf w || w = str "--kernel"
def namesStub (w : CStr) : Bool := (str "--stub=").isPrefixOf w || w = str "--stub"
def namesRootfs (w : CStr) : Bool :=
  (str "--rootfs=").isPrefixOf w || w = str "--rootfs" || w = str "-r"

/-- `neoproot_um_backend_is_configured` looks at all words of the vector. -/
def umBackendIsConfigured (w : World) (argv : List CStr) : Bool :=
  let words := argv.drop 1
  (isConfigured w.kernel || words.any namesKernel) &&
    (isConfigured w.stub || words.any namesStub) && words.any namesRootfs

/-! ### The command -/

def defaultCommands : List CStr :=
  [str "docker", str "dockerd", str "podman", str "podman-remote", str "nerdctl",
    str "containerd", str "ctr", str "runc", str "crun", str "systemd-nspawn", str "machinectl",
    str "mount", str "umount", str "losetup", str "swapon", str "swapoff", str "unshare",
    str "nsenter", str "ip", str "iptables", str "nft", str "bpftool"]

/-- The wrappers, each with its options that take a separate value. -/
def wrappers : List (CStr × List CStr) :=
  [(str "env", [str "-u", str "--unset", str "-C", str "--chdir"]),
    (str "sudo", [str "-u", str "--user", str "-g", str "--group", str "-p", str "--prompt",
      str "-C", str "--close-from", str "-D", str "--chdir", str "-h", str "--host", str "-r",
      str "--role", str "-t", str "--type", str "-T", str "--command-timeout", str "-U",
      str "--other-user", str "-R", str "--chroot"]),
    (str "command", []),
    (str "exec", [str "-a"]),
    (str "nohup", []),
    (str "time", [str "-o", str "--output", str "-f", str "--format"]),
    (str "stdbuf", [str "-i", str "--input", str "-o", str "--output", str "-e", str "--error"])]

/-- `AUTO_MAX_WRAPPERS`. -/
def maxWrappers : ℕ := 8

def autoBasename (path : CStr) : CStr := (path.reverse.takeWhile (· ≠ '/')).reverse

def isAlpha (c : Char) : Bool := ('a' ≤ c && c ≤ 'z') || ('A' ≤ c && c ≤ 'Z')
def isDigit (c : Char) : Bool := '0' ≤ c && c ≤ '9'

/-- `NAME=VALUE`. -/
def autoIsAssignment (argument : CStr) : Bool :=
  '=' ∈ argument &&
    match argument.takeWhile (· ≠ '=') with
    | [] => false
    | c :: name => (c = '_' || isAlpha c) && name.all fun c => c = '_' || isAlpha c || isDigit c

/-- The value options of a wrapper. -/
def autoFindWrapper (name : CStr) : Option (List CStr) := wrappers.lookup name

/-- Skip the arguments of a wrapper. -/
def skipArguments (valueOptions : List CStr) : List CStr → List CStr
  | [] => []
  | w :: ws =>
    if w = str "--" then ws
    else if autoIsAssignment w then skipArguments valueOptions ws
    else if w.head? ≠ some '-' ∨ w.tail = [] then w :: ws
    else if valueOptions.contains w then
      match ws with
      | [] => []
      | _ :: ws => skipArguments valueOptions ws
    else skipArguments valueOptions ws

/-- The loop of `neoproot_auto_guest_command`, with a bound on its rounds. -/
def guestCommandLoop : ℕ → ℕ → List CStr → Option CStr
  | 0, _, _ | _, _, [] => none
  | fuel + 1, depth, w :: ws =>
    if w = str "--" then guestCommandLoop fuel depth ws
    else match autoFindWrapper (autoBasename w) with
    | none =>
      if autoIsAssignment w then guestCommandLoop fuel depth ws else some (autoBasename w)
    | some valueOptions =>
      if maxWrappers < depth + 1 then none
      else guestCommandLoop fuel (depth + 1) (skipArguments valueOptions ws)

/-- The command that wrappers lead to; each round takes a word off. -/
def guestCommand (words : List CStr) : Option CStr := guestCommandLoop words.length 0 words

def autoGuestCommand (argv : List CStr) (start : ℕ) : Option CStr :=
  if start = 0 then none else guestCommand (argv.drop start)

def isBlank (c : Char) : Bool := c = ' ' || c = '\t'

/-- A text without the blanks around it. -/
def autoTrim (text : CStr) : CStr :=
  ((text.dropWhile isBlank).reverse.dropWhile isBlank).reverse

def autoListIsNone (list : CStr) : Bool := autoTrim list = str "none"

/-- An empty list, or what follows the last comma of one, has no entry. -/
def autoListMatches (list command : CStr) : Bool :=
  let entries := list.splitOn ','
  let entries := if entries.getLast? = some [] then entries.dropLast else entries
  entries.any fun entry => autoTrim entry = command

def autoCommandNeedsKernel (command list : Option CStr) : Bool :=
  match command, list with
  | none, _ => false
  | some command, none => defaultCommands.contains command
  | some command, some list => ! autoListIsNone list && autoListMatches list command

/-- The list in force. -/
def autoEffectiveList (w : World) (option : Option CStr) : Option CStr :=
  match option with
  | some list => if list ≠ [] then some list else none
  | none => w.autoCommands.filter (· ≠ [])

/-! ### The choice -/

inductive Backend
  | um | proot
  deriving DecidableEq

/-- `neoproot_auto_select`. -/
def autoSelect (w : World) (p : Prepared) : Bool :=
  let needsKernel := autoCommandNeedsKernel (autoGuestCommand p.argv p.commandIndex)
    (autoEffectiveList w p.autoCommands)
  umBackendIsConfigured w p.argv && (needsKernel || rootfsKind w p = .image)

/-- The backend that `main` starts. -/
def selectBackend (w : World) (p : Prepared) : Backend :=
  match p.mode with
  | .um => .um
  | .default | .fast => .proot
  | .auto => if autoSelect w p then .um else .proot

/-- The vector for the supervisor has the delimiter in front of the guest command. -/
def umArgv (p : Prepared) : List CStr :=
  if 0 < p.commandIndex then
    p.argv.take p.commandIndex ++ str "--" :: p.argv.drop p.commandIndex
  else p.argv

/-- What `main` does with a command line. -/
inductive Dispatch
  | fails (message : CStr)
  | um (argv : List CStr)
  | proot (argv : List CStr)
  deriving DecidableEq

def imageMessage : CStr :=
  str "neoproot: the rootfs is a filesystem image; only the um backend can use it.\n" ++
    str "neoproot: use --backend=um (or --backend=auto to select it), or pass a directory rootfs.\n"

def cowFileMessage : CStr :=
  str "neoproot: --cow-file only works with a filesystem image rootfs, and only the um " ++
    str "backend can use one.\nneoproot: use --backend=um (or --backend=auto to select it), " ++
    str "or drop --cow-file.\n"

/-- Start the backend, unless it cannot use the root file system. -/
def startBackend (w : World) (p : Prepared) : Dispatch :=
  match selectBackend w p with
  | .um => .um (umArgv p)
  | .proot =>
    if rootfsKind w p = .image then .fails imageMessage
    else if hasCowFile p then .fails cowFileMessage
    else .proot p.argv

/-! ### Words after the command -/

/-- More words at the end of the vector. -/
def Prepared.extend (p : Prepared) (post : List CStr) : Prepared :=
  { p with argv := p.argv ++ post }

/-- `setBackend` leaves all but the mode. -/
theorem setBackend_eq_ok {p : Prepared} {value : CStr} (h : setBackend p backendSet value = .ok r) :
    r = { p with mode := r.mode } := by
  simp only [setBackend] at h
  split at h
  · cases h
  split at h
  · cases h
    rfl
  split at h
  · cases h
    rfl
  split at h
  · cases h
    rfl
  · cases h

section Words

variable {p : Prepared} {backendSet autoSet : Bool} {w value : CStr} {ws : List CStr}

theorem prepareLoop_separator (h : wordKind w = .separator) :
    prepareLoop p backendSet autoSet (w :: ws) =
      .ok { p with argv := p.argv ++ ws, commandIndex := p.argv.length } := by
  rw [prepareLoop.eq_def]
  simp only [h]

theorem prepareLoop_command (h : wordKind w = .command) :
    prepareLoop p backendSet autoSet (w :: ws) =
      .ok { p with argv := p.argv ++ w :: ws, commandIndex := p.argv.length } := by
  rw [prepareLoop.eq_def]
  simp only [h]

theorem prepareLoop_backendJoined (h : wordKind w = .backendJoined value) :
    prepareLoop p backendSet autoSet (w :: ws) =
      (setBackend p backendSet value).bind fun p => prepareLoop p true autoSet ws := by
  rw [prepareLoop.eq_def]
  simp only [h]
  cases setBackend p backendSet value with
  | error e => rfl
  | ok r => rfl

theorem prepareLoop_backend (h : wordKind w = .backend) :
    prepareLoop p backendSet autoSet (w :: value :: ws) =
      (setBackend p backendSet value).bind fun p => prepareLoop p true autoSet ws := by
  rw [prepareLoop.eq_def]
  simp only [h]
  cases setBackend p backendSet value with
  | error e => rfl
  | ok r => rfl

theorem prepareLoop_autoJoined (h : wordKind w = .autoJoined value) :
    prepareLoop p backendSet autoSet (w :: ws) =
      if autoSet then .error .autoDuplicate
      else prepareLoop { p with autoCommands := some value } backendSet true ws := by
  rw [prepareLoop.eq_def]
  simp only [h]

theorem prepareLoop_auto (h : wordKind w = .auto) :
    prepareLoop p backendSet autoSet (w :: value :: ws) =
      if autoSet then .error .autoDuplicate
      else prepareLoop { p with autoCommands := some value } backendSet true ws := by
  rw [prepareLoop.eq_def]
  simp only [h]

theorem prepareLoop_valued (h : wordKind w = .valued) :
    prepareLoop p backendSet autoSet (w :: value :: ws) =
      prepareLoop { p with argv := p.argv ++ [w, value] } backendSet autoSet ws := by
  rw [prepareLoop.eq_def]
  simp only [h]

theorem prepareLoop_plain (h : wordKind w = .plain) :
    prepareLoop p backendSet autoSet (w :: ws) =
      prepareLoop { p with argv := p.argv ++ [w] } backendSet autoSet ws := by
  rw [prepareLoop.eq_def]
  simp only [h]

end Words

/-- Words that follow the start of the command are only copied. -/
theorem prepareLoop_append {front words : List CStr} (hline : Line front os (some words))
    (p : Prepared) (backendSet autoSet : Bool) (post : List CStr) :
    prepareLoop p backendSet autoSet (front ++ post) =
      (prepareLoop p backendSet autoSet front).map fun r => r.extend post := by
  generalize hc : some words = c at hline
  induction hline generalizing p backendSet autoSet with
  | none => cases hc
  | separator w words h =>
    rw [List.cons_append, prepareLoop_separator h, prepareLoop_separator h]
    simp [Except.map, Prepared.extend]
  | command w words h =>
    rw [List.cons_append, prepareLoop_command h, prepareLoop_command h]
    simp [Except.map, Prepared.extend]
  | @backendJoined w value ws os c h hws ih =>
    rw [List.cons_append, prepareLoop_backendJoined h, prepareLoop_backendJoined h]
    cases setBackend p backendSet value with
    | error e => rfl
    | ok r => exact ih r true autoSet hc
  | @backend w value ws os c h hws ih =>
    rw [List.cons_append, List.cons_append, prepareLoop_backend h, prepareLoop_backend h]
    cases setBackend p backendSet value with
    | error e => rfl
    | ok r => exact ih r true autoSet hc
  | autoJoined h hws ih =>
    rw [List.cons_append, prepareLoop_autoJoined h, prepareLoop_autoJoined h]
    split
    · rfl
    · exact ih _ backendSet true hc
  | auto h hws ih =>
    rw [List.cons_append, List.cons_append, prepareLoop_auto h, prepareLoop_auto h]
    split
    · rfl
    · exact ih _ backendSet true hc
  | valued h hws ih =>
    rw [List.cons_append, List.cons_append, prepareLoop_valued h, prepareLoop_valued h]
    exact ih _ backendSet autoSet hc
  | unvalued w h => cases hc
  | plain h hws ih =>
    rw [List.cons_append, prepareLoop_plain h, prepareLoop_plain h]
    exact ih _ backendSet autoSet hc

/-- The vector is that of a line: the options and then the command, at its index. -/
structure Prepared.Of (p r : Prepared) (os : List CStr) (c : Option (List CStr)) : Prop where
  argv : r.argv = p.argv ++ os ++ c.getD []
  commandIndex : r.commandIndex = if c.isSome then (p.argv ++ os).length else p.commandIndex

theorem Prepared.Of.congr {p q : Prepared} (h : q.Of r os c) (hargv : q.argv = p.argv)
    (hindex : q.commandIndex = p.commandIndex) :
    p.Of r os c := ⟨by rw [h.argv, hargv], by rw [h.commandIndex, hargv, hindex]⟩

theorem Prepared.Of.cons {p q : Prepared} {os' : List CStr} (h : q.Of r os c)
    (hargv : q.argv = p.argv ++ os') (hindex : q.commandIndex = p.commandIndex) :
    p.Of r (os' ++ os) c :=
  ⟨by rw [h.argv, hargv]; simp, by rw [h.commandIndex, hargv, hindex]; simp⟩

/-- The backend gets the options of a line and the command. -/
theorem Line.prepared (hline : Line ws os c) {p : Prepared} {autoSet : Bool}
    (h : prepareLoop p backendSet autoSet ws = .ok r) : p.Of r os c := by
  induction hline generalizing p backendSet autoSet with
  | none =>
    rw [prepareLoop, Except.ok.injEq] at h
    rw [← h]
    exact ⟨by simp, rfl⟩
  | separator w words hkind =>
    rw [prepareLoop_separator hkind, Except.ok.injEq] at h
    rw [← h]
    exact ⟨by simp, by simp⟩
  | command w words hkind =>
    rw [prepareLoop_command hkind, Except.ok.injEq] at h
    rw [← h]
    exact ⟨by simp, by simp⟩
  | @backendJoined w value ws os c hkind hws ih =>
    rw [prepareLoop_backendJoined hkind] at h
    cases hset : setBackend p backendSet value with
    | error e =>
      rw [hset] at h
      cases h
    | ok q =>
      rw [hset] at h
      have hq := setBackend_eq_ok hset
      exact (ih h).congr (by rw [hq]) (by rw [hq])
  | @backend w value ws os c hkind hws ih =>
    rw [prepareLoop_backend hkind] at h
    cases hset : setBackend p backendSet value with
    | error e =>
      rw [hset] at h
      cases h
    | ok q =>
      rw [hset] at h
      have hq := setBackend_eq_ok hset
      exact (ih h).congr (by rw [hq]) (by rw [hq])
  | autoJoined hkind hws ih =>
    rw [prepareLoop_autoJoined hkind] at h
    split at h
    · cases h
    · exact (ih h).congr rfl rfl
  | auto hkind hws ih =>
    rw [prepareLoop_auto hkind] at h
    split at h
    · cases h
    · exact (ih h).congr rfl rfl
  | valued hkind hws ih =>
    rw [prepareLoop_valued hkind] at h
    exact (ih h).cons rfl rfl
  | unvalued w hkind =>
    rw [prepareLoop.eq_def] at h
    simp only [hkind, Except.ok.injEq] at h
    rw [← h]
    exact ⟨by simp, rfl⟩
  | plain hkind hws ih =>
    rw [prepareLoop_plain hkind] at h
    exact (ih h).cons rfl rfl

/-- What the dispatcher accepts is a line. -/
theorem exists_line {p : Prepared} {autoSet : Bool}
    (h : prepareLoop p backendSet autoSet ws = .ok r) : ∃ os c, Line ws os c := by
  fun_induction prepareLoop p backendSet autoSet ws with
  | case1 => exact ⟨_, _, .none⟩
  | case2 _ _ _ _ _ hkind => exact ⟨_, _, .separator _ _ hkind⟩
  | case3 _ _ _ _ _ hkind => exact ⟨_, _, .command _ _ hkind⟩
  | case4 => cases h
  | case5 _ _ _ _ _ _ hkind _ _ ih =>
    obtain ⟨os, c, hline⟩ := ih h
    exact ⟨os, c, .backendJoined hkind hline⟩
  | case6 => cases h
  | case7 => cases h
  | case8 _ _ _ _ hkind _ _ _ _ ih =>
    obtain ⟨os, c, hline⟩ := ih h
    exact ⟨os, c, .backend hkind hline⟩
  | case9 => cases h
  | case10 _ _ _ _ _ _ hkind _ ih =>
    obtain ⟨os, c, hline⟩ := ih h
    exact ⟨os, c, .autoJoined hkind hline⟩
  | case11 => cases h
  | case12 => cases h
  | case13 _ _ _ _ hkind _ _ _ ih =>
    obtain ⟨os, c, hline⟩ := ih h
    exact ⟨os, c, .auto hkind hline⟩
  | case14 _ _ _ _ hkind => exact ⟨_, _, .unvalued _ hkind⟩
  | case15 _ _ _ _ hkind _ _ ih =>
    obtain ⟨os, c, hline⟩ := ih h
    exact ⟨_, c, .valued hkind hline⟩
  | case16 _ _ _ _ _ hkind ih =>
    obtain ⟨os, c, hline⟩ := ih h
    exact ⟨_, c, .plain hkind hline⟩

/-! ### The command that wrappers lead to -/

theorem skipArguments_cons (valueOptions : List CStr) (w : CStr) (ws : List CStr) :
    skipArguments valueOptions (w :: ws) =
      if w = str "--" then ws
      else if autoIsAssignment w then skipArguments valueOptions ws
      else if w.head? ≠ some '-' ∨ w.tail = [] then w :: ws
      else if valueOptions.contains w then skipArguments valueOptions ws.tail
      else skipArguments valueOptions ws := by
  rw [skipArguments.eq_def]
  cases ws with
  | nil => simp [skipArguments]
  | cons value ws => rfl

theorem length_skipArguments_le (valueOptions ws : List CStr) :
    (skipArguments valueOptions ws).length ≤ ws.length := by
  fun_induction skipArguments valueOptions ws with
  | _ => grind

/-- Skipping stops in front of the words at the end, if it stops before it has passed all. -/
theorem skipArguments_append (valueOptions : List CStr) (h : skipArguments valueOptions ws ≠ [])
    (post : List CStr) :
    skipArguments valueOptions (ws ++ post) = skipArguments valueOptions ws ++ post := by
  fun_induction skipArguments valueOptions ws with
  | case1 => exact absurd rfl h
  | case2 ws => rw [List.cons_append, skipArguments_cons, if_pos rfl]
  | case3 w ws hsep hassign ih =>
    rw [List.cons_append, skipArguments_cons, if_neg hsep, if_pos hassign]
    exact ih h
  | case4 w ws hsep hassign hword =>
    rw [List.cons_append, skipArguments_cons, if_neg hsep, if_neg hassign, if_pos hword]
  | case5 => exact absurd rfl h
  | case6 w hsep hassign hword hvalue value ws ih =>
    rw [List.cons_append, skipArguments_cons, if_neg hsep, if_neg hassign, if_neg hword,
      if_pos hvalue]
    exact ih h
  | case7 w ws hsep hassign hword hvalue ih =>
    rw [List.cons_append, skipArguments_cons, if_neg hsep, if_neg hassign, if_neg hword,
      if_neg hvalue]
    exact ih h

theorem guestCommandLoop_nil (fuel depth : ℕ) : guestCommandLoop fuel depth [] = none := by
  cases fuel with
  | zero => rfl
  | succ fuel => rfl

/-- A command that is found is found in front of more words, and with more rounds. -/
theorem guestCommandLoop_append {fuel depth : ℕ} (h : guestCommandLoop fuel depth ws = some command)
    (post : List CStr) {more : ℕ} (hmore : fuel ≤ more) :
    guestCommandLoop more depth (ws ++ post) = some command := by
  induction fuel generalizing depth ws more with
  | zero => simp [guestCommandLoop] at h
  | succ fuel ih =>
    obtain ⟨more, rfl⟩ : ∃ m, more = m + 1 := ⟨more - 1, by omega⟩
    have hfuel : fuel ≤ more := Nat.le_of_succ_le_succ hmore
    cases ws with
    | nil => simp [guestCommandLoop] at h
    | cons w ws =>
      rw [List.cons_append]
      simp only [guestCommandLoop] at h ⊢
      split
      · rename_i hsep
        rw [if_pos hsep] at h
        exact ih h hfuel
      rename_i hsep
      rw [if_neg hsep] at h
      cases hwrapper : autoFindWrapper (autoBasename w) with
      | none =>
        simp only [hwrapper] at h ⊢
        split
        · rename_i hassign
          rw [if_pos hassign] at h
          exact ih h hfuel
        · rename_i hassign
          rw [if_neg hassign] at h
          exact h
      | some valueOptions =>
        simp only [hwrapper] at h ⊢
        split
        · rename_i hdeep
          rw [if_pos hdeep] at h
          cases h
        · rename_i hdeep
          rw [if_neg hdeep] at h
          have hsome : skipArguments valueOptions ws ≠ [] := by
            intro hnil
            rw [hnil, guestCommandLoop_nil] at h
            cases h
          rw [skipArguments_append valueOptions hsome]
          exact ih h hfuel

theorem guestCommand_append {words : List CStr} (h : guestCommand words = some command)
    (post : List CStr) : guestCommand (words ++ post) = some command := by
  refine guestCommandLoop_append h post ?_
  rw [List.length_append]
  exact Nat.le_add_right _ _

/-! ### Two command lines -/

/-- A word that looks like an option of a kernel. -/
def NamesKernel (w : CStr) : Prop := (namesKernel w || namesStub w || namesRootfs w) = true

instance (w : CStr) : Decidable (NamesKernel w) := inferInstanceAs (Decidable (_ = _))

/-- What does not depend on words after the start of the command. -/
structure SameOptions (p q : Prepared) : Prop where
  mode : p.mode = q.mode
  commandIndex : p.commandIndex = q.commandIndex
  autoCommands : p.autoCommands = q.autoCommands
  options : p.argv.take p.commandIndex = q.argv.take q.commandIndex

/-- Two answers of the dispatcher's parser: the same error, or the same options. -/
def Alike : Except PrepareError Prepared → Except PrepareError Prepared → Prop
  | .error e, .error e' => e = e'
  | .ok p, .ok q => SameOptions p q
  | .error _, .ok _ | .ok _, .error _ => False

/-- Two dispatches: the same failure, or one backend with the same words in front. -/
def Dispatch.Alike (count : ℕ) : Dispatch → Dispatch → Prop
  | .fails m, .fails m' => m = m'
  | .um a, .um b => a.take (count + 1) = b.take (count + 1)
  | .proot a, .proot b => a.take count = b.take count
  | _, _ => False

variable {w : World} {p : Prepared} {words post : List CStr}

/-- A vector with its command at the index. -/
def Prepared.Holds (p : Prepared) (words : List CStr) : Prop :=
  0 < p.commandIndex ∧ ∃ options, p.argv = options ++ words ∧ p.commandIndex = options.length

theorem take_extend (h : p.Holds words) (post : List CStr) :
    (p.extend post).argv.take p.commandIndex = p.argv.take p.commandIndex := by
  obtain ⟨-, options, hargv, hindex⟩ := h
  simp [Prepared.extend, hargv, hindex]

theorem backendRootfsValue_extend (h : p.Holds words) (post : List CStr) :
    backendRootfsValue (p.extend post) = backendRootfsValue p := by
  have hindex : (p.extend post).commandIndex = p.commandIndex := rfl
  simp only [backendRootfsValue, hindex, if_pos h.1, take_extend h post]

theorem rootfsKind_extend (h : p.Holds words) (post : List CStr) :
    rootfsKind w (p.extend post) = rootfsKind w p := by
  rw [rootfsKind, backendRootfsValue_extend h]
  rfl

theorem hasCowFile_extend (h : p.Holds words) (post : List CStr) :
    hasCowFile (p.extend post) = hasCowFile p := by
  rw [hasCowFile, backendRootfsValue_extend h]
  rfl

/-- Words that name no kernel do not configure one. -/
theorem umBackendIsConfigured_extend (h : p.Holds words) (hpost : ∀ a ∈ post, ¬ NamesKernel a) :
    umBackendIsConfigured w (p.extend post).argv = umBackendIsConfigured w p.argv := by
  obtain ⟨hpos, options, hargv, hindex⟩ := h
  have hdrop : (p.extend post).argv.drop 1 = p.argv.drop 1 ++ post := by
    rw [Prepared.extend, List.drop_append_of_le_length]
    rw [hargv, List.length_append]
    omega
  have hnone : ∀ f : CStr → Bool, (∀ a, f a = true → NamesKernel a) → post.any f = false := by
    intro f hf
    rw [List.any_eq_false]
    exact fun a ha hfa => hpost a ha (hf a hfa)
  have hkernel := hnone namesKernel fun a ha => by simp [NamesKernel, ha]
  have hstub := hnone namesStub fun a ha => by simp [NamesKernel, ha]
  have hrootfs := hnone namesRootfs fun a ha => by simp [NamesKernel, ha]
  simp only [umBackendIsConfigured, hdrop, List.any_append, hkernel, hstub, hrootfs, Bool.or_false]

/-- The command that wrappers lead to is the same. -/
theorem autoGuestCommand_extend (h : p.Holds words) (hcommand : guestCommand words = some command)
    (post : List CStr) : autoGuestCommand (p.extend post).argv p.commandIndex = some command := by
  obtain ⟨hpos, options, hargv, hindex⟩ := h
  rw [autoGuestCommand, if_neg (by omega), Prepared.extend, hargv, hindex, List.append_assoc,
    List.drop_left]
  exact guestCommand_append hcommand post

theorem selectBackend_extend (h : p.Holds words) (hpost : ∀ a ∈ post, ¬ NamesKernel a)
    (hcommand : (guestCommand words).isSome) :
    selectBackend w (p.extend post) = selectBackend w p := by
  obtain ⟨command, hcommand⟩ := Option.isSome_iff_exists.1 hcommand
  have hextended := autoGuestCommand_extend h hcommand post
  have hplain := autoGuestCommand_extend h hcommand []
  have hnil : (p.extend []).argv = p.argv := by simp [Prepared.extend]
  rw [hnil] at hplain
  have hauto : autoSelect w (p.extend post) = autoSelect w p := by
    have hindex : (p.extend post).commandIndex = p.commandIndex := rfl
    simp only [autoSelect, umBackendIsConfigured_extend h hpost, rootfsKind_extend h, hindex,
      hextended, hplain]
    rfl
  simp only [selectBackend, hauto]
  rfl

/-- One backend is started with the same words in front of the command, or fails alike. -/
theorem startBackend_extend (h : p.Holds words) {post₁ post₂ : List CStr}
    (hselect : selectBackend w (p.extend post₁) = selectBackend w (p.extend post₂)) :
    Dispatch.Alike p.commandIndex (startBackend w (p.extend post₁))
      (startBackend w (p.extend post₂)) := by
  have htake₁ := take_extend h post₁
  have htake₂ := take_extend h post₂
  have hlen : (p.argv.take p.commandIndex).length = p.commandIndex := by
    obtain ⟨-, options, hargv, hindex⟩ := h
    rw [hargv, hindex, List.take_left]
  simp only [startBackend, hselect]
  cases selectBackend w (p.extend post₂) with
  | um =>
    have hum : ∀ q : Prepared, q.commandIndex = p.commandIndex →
        q.argv.take p.commandIndex = p.argv.take p.commandIndex →
        (umArgv q).take (p.commandIndex + 1) = p.argv.take p.commandIndex ++ [str "--"] := by
      intro q hindex htake
      have hfront : p.commandIndex + 1 = (p.argv.take p.commandIndex).length + 1 := by rw [hlen]
      rw [umArgv, hindex, if_pos h.1, htake, hfront, List.take_length_add_append]
      rfl
    exact (hum (p.extend post₁) rfl htake₁).trans (hum (p.extend post₂) rfl htake₂).symm
  | proot =>
    dsimp only
    rw [rootfsKind_extend h, rootfsKind_extend h, hasCowFile_extend h, hasCowFile_extend h]
    split
    · rfl
    split
    · rfl
    · exact htake₁.trans htake₂.symm

/-- What the words after the start of the command `words` leave as it is. -/
structure KeptOut (w : World) (words post₁ post₂ : List CStr) (p q : Prepared) : Prop where
  rootfs : rootfsKind w p = rootfsKind w q
  cowFile : hasCowFile p = hasCowFile q
  configured : (∀ a ∈ post₁ ++ post₂, ¬ NamesKernel a) →
    umBackendIsConfigured w p.argv = umBackendIsConfigured w q.argv
  asked : p.mode ≠ .auto → selectBackend w p = selectBackend w q
  selected : (∀ a ∈ post₁ ++ post₂, ¬ NamesKernel a) → (guestCommand words).isSome →
    selectBackend w p = selectBackend w q
  started : selectBackend w p = selectBackend w q →
    Dispatch.Alike p.commandIndex (startBackend w p) (startBackend w q)

theorem keptOut_extend (h : p.Holds words) (post₁ post₂ : List CStr) :
    KeptOut w words post₁ post₂ (p.extend post₁) (p.extend post₂) := by
  refine ⟨?_, ?_, fun hnone => ?_, fun hmode => ?_, fun hnone hcommand => ?_,
    fun hselect => startBackend_extend h hselect⟩
  · rw [rootfsKind_extend h, rootfsKind_extend h]
  · rw [hasCowFile_extend h, hasCowFile_extend h]
  · rw [umBackendIsConfigured_extend h fun a ha => hnone a (List.mem_append_left _ ha),
      umBackendIsConfigured_extend h fun a ha => hnone a (List.mem_append_right _ ha)]
  · cases hm : p.mode with
    | auto => exact absurd hm hmode
    | _ => simp only [selectBackend, Prepared.extend, hm]
  · rw [selectBackend_extend h (fun a ha => hnone a (List.mem_append_left _ ha)) hcommand,
      selectBackend_extend h (fun a ha => hnone a (List.mem_append_right _ ha)) hcommand]

/-- Two command lines that are the same up to the first word of the guest command are parsed
alike.  Where no later word looks like an option of a kernel, the same kernel is configured; and
if the wrappers lead to the command within the common words, the same backend is started. -/
theorem guest_words_kept_out (w : World) (program c : CStr) {front os cs : List CStr}
    (hstart : Line front os (some (c :: cs))) (post₁ post₂ : List CStr) :
    Alike (prepareBackendArgv (program :: (front ++ post₁)))
        (prepareBackendArgv (program :: (front ++ post₂))) ∧
      ∀ p q, prepareBackendArgv (program :: (front ++ post₁)) = .ok p →
        prepareBackendArgv (program :: (front ++ post₂)) = .ok q →
        KeptOut w (c :: cs) post₁ post₂ p q := by
  have hprepare : ∀ post, prepareBackendArgv (program :: (front ++ post)) =
      (prepareBackendArgv (program :: front)).map fun r => r.extend post :=
    prepareLoop_append hstart ⟨[program], .default, 0, none⟩ false false
  cases hfront : prepareBackendArgv (program :: front) with
  | error e =>
    rw [hprepare, hprepare, hfront]
    exact ⟨rfl, fun p q hp => nomatch hp⟩
  | ok r =>
    have hof := hstart.prepared hfront
    have hholds : r.Holds (c :: cs) := by
      have hindex := hof.commandIndex
      simp only [Option.isSome_some, if_true] at hindex
      refine ⟨?_, [program] ++ os, hof.argv, hindex⟩
      rw [hindex, List.length_append]
      exact Nat.lt_add_right _ Nat.one_pos
    rw [hprepare, hprepare, hfront]
    constructor
    · refine ⟨rfl, rfl, rfl, ?_⟩
      exact (take_extend hholds post₁).trans (take_extend hholds post₂).symm
    · intro p q hp hq
      obtain rfl := Except.ok.inj hp
      obtain rfl := Except.ok.inj hq
      exact keptOut_extend hholds post₁ post₂

/-- A host whose files are directories, and whose environment configures nothing. -/
def bareWorld : World := ⟨none, none, none, fun _ => some .directory⟩

theorem line_ls : Line [str "--backend=auto", str "-r", str "/", str "ls"] [str "-r", str "/"]
    (some [str "ls"]) :=
  @Line.backendJoined _ (str "auto") _ _ _ (by decide)
    (.valued (by decide) (.command _ _ (by decide)))

/-- `ls -l` and `ls --all` are started alike. -/
theorem guest_words_kept_out_ls :
    selectBackend bareWorld
        ⟨[str "neoproot", str "-r", str "/", str "ls", str "-l"], .auto, 3, none⟩ =
      selectBackend bareWorld
        ⟨[str "neoproot", str "-r", str "/", str "ls", str "--all"], .auto, 3, none⟩ :=
  ((guest_words_kept_out bareWorld (str "neoproot") (str "ls") line_ls
    [str "-l"] [str "--all"]).2 _ _ (by rfl) (by rfl)).selected (by decide) (by decide)

/-- `env`, and what configures a kernel in front of it. -/
def envLine : List CStr :=
  [str "--backend=auto", str "--kernel=k", str "--stub=s", str "-r", str "/", str "env"]

theorem line_envLine : Line envLine [str "--kernel=k", str "--stub=s", str "-r", str "/"]
    (some [str "env"]) :=
  @Line.backendJoined _ (str "auto") _ _ _ (by decide)
    (.plain (by decide) (.plain (by decide) (.valued (by decide) (.command _ _ (by decide)))))

/-- `env docker` is run with a kernel, and `env ls` is not. -/
theorem wrapper_decides :
    ¬ ∀ (w : World) (program c : CStr) (front os cs post₁ post₂ : List CStr),
        Line front os (some (c :: cs)) →
        ∀ p q, prepareBackendArgv (program :: (front ++ post₁)) = .ok p →
          prepareBackendArgv (program :: (front ++ post₂)) = .ok q →
          selectBackend w p = selectBackend w q := by
  intro h
  have hsame := h bareWorld (str "neoproot") (str "env") envLine _ [] [str "docker"] [str "ls"]
    line_envLine
    ⟨[str "neoproot", str "--kernel=k", str "--stub=s", str "-r", str "/", str "env",
      str "docker"], .auto, 5, none⟩
    ⟨[str "neoproot", str "--kernel=k", str "--stub=s", str "-r", str "/", str "env",
      str "ls"], .auto, 5, none⟩ (by rfl) (by rfl)
  revert hsame
  decide +kernel

end NeoProot.Cli
