import NeoProot.Backend.Binds
import NeoProot.Backend.Request
import NeoProot.Cli.Backend

/-!
# Where the backends find the guest command

The dispatcher hands a backend the options that are not its own, and the guest command.  Each
backend has a table of options of its own, and finds the command where its parser stops.  The
supervisor gets the delimiter back in front of the command, and PRoot does not.

## Main definitions

* `umParseArgs` — the command line of the supervisor.
* `parseConfig` — the command line of PRoot.
* `stopsAt` — where the parser of the chosen backend stops.

## Main results

* `command_position_iff` — it stops at the command unless PRoot takes the command for an option.
-/

namespace NeoProot.Cli

/-! ### The supervisor -/

/-- The options of the supervisor that have a value. -/
inductive UmOption
  | kernel | stub | rootfs | cowFile | bind | netAddr | netGateway | netDns
  | netIpv6Addr | netIpv6Gw | netIpv6Dns | seccomp | sessionState | cwd | timeout | cpus | rootflags
  deriving DecidableEq

/-- Those that have none. -/
inductive UmFlag
  | net | netAuto | netIpv6 | hostfs | readonly | quiet | session
  deriving DecidableEq

/-- The options whose value follows an equals sign. -/
def umJoined : List (CStr × UmOption) :=
  [(str "--kernel=", .kernel), (str "--stub=", .stub), (str "--rootfs=", .rootfs),
    (str "--cow-file=", .cowFile), (str "--bind=", .bind), (str "--mount=", .bind),
    (str "--net-addr=", .netAddr), (str "--net-gateway=", .netGateway),
    (str "--net-dns=", .netDns), (str "--net-ipv6-addr=", .netIpv6Addr),
    (str "--net-ipv6-gw=", .netIpv6Gw), (str "--net-ipv6-dns=", .netIpv6Dns),
    (str "--seccomp=", .seccomp), (str "--session-state=", .sessionState), (str "--cwd=", .cwd),
    (str "--pwd=", .cwd), (str "--timeout=", .timeout), (str "--cpus=", .cpus),
    (str "--ncpus=", .cpus), (str "--rootflags=", .rootflags)]

/-- The options whose value is the next word. -/
def umSeparate : List (CStr × UmOption) :=
  [(str "-r", .rootfs), (str "--rootfs", .rootfs), (str "--cow-file", .cowFile),
    (str "-b", .bind), (str "--bind", .bind), (str "-m", .bind), (str "--mount", .bind),
    (str "-w", .cwd), (str "--pwd", .cwd)]

def umFlags : List (CStr × UmFlag) :=
  [(str "--net", .net), (str "--net-auto", .netAuto), (str "--net-ipv6", .netIpv6),
    (str "--hostfs", .hostfs), (str "--readonly", .readonly), (str "--quiet", .quiet),
    (str "--session", .session)]

/-- How the loop of `um_parse_args` takes a word. -/
inductive UmWord
  | delimiter
  | joined (o : UmOption) (value : CStr)
  | separate (o : UmOption)
  | flag (f : UmFlag)
  | unknown

def umKind (w : CStr) : UmWord :=
  if w = str "--" then .delimiter
  else match umJoined.find? fun e => e.1.isPrefixOf w with
  | some (name, o) => .joined o (w.drop name.length)
  | none =>
    match umSeparate.lookup w with
    | some o => .separate o
    | none =>
      match umFlags.lookup w with
      | some f => .flag f
      | none => .unknown

inductive UmSeccomp
  | off | auto | on
  deriving DecidableEq

/-- `UmConfig`, as far as the options fill it; an option that was not given is `none`. -/
structure UmConfig where
  kernel : Option CStr
  stub : Option CStr
  rootfs : Option CStr
  cowFile : Option CStr
  binds : List UmBind
  netAddr : CStr
  netGateway : CStr
  netDns : CStr
  netIpv6Addr : CStr
  netIpv6Gw : CStr
  netIpv6Dns : CStr
  seccomp : Option UmSeccomp
  sessionState : Option CStr
  cwd : Option CStr
  timeout : Option CStr
  cpus : Option ℕ
  rootflags : Option CStr
  network : Bool
  networkAuto : Bool
  netIpv6 : Bool
  ipv6Flag : Bool
  ipv6Requested : Bool
  hostfs : Bool
  readonly : Bool
  quiet : Bool
  session : Bool
  sawDelimiter : Bool

def UmConfig.initial : UmConfig :=
  ⟨none, none, none, none, [], str "10.0.2.15", str "10.0.2.2", [], [], [], [], none, none, none,
    none, none, none, false, false, false, false, false, false, false, false, false, false⟩

/-- `isspace` -/
def isBlankByte (c : Char) : Bool := c = ' ' || (9 ≤ c.toNat && c.toNat ≤ 13)

/-- `um_set_net_value` for a buffer of 64 bytes. -/
def umNetValue (value : CStr) : Option CStr :=
  if value = [] ∨ (value.any fun c => isBlankByte c || c = ',') ∨ 64 ≤ value.length then none
  else some value

/-- An address that fits a buffer of 32 bytes. -/
def umAddress (value : CStr) : Option CStr :=
  if value = [] ∨ 32 ≤ value.length then none else some value

def umParseSeccompMode (value : CStr) : Option UmSeccomp :=
  if value = str "off" then some .off
  else if value = str "auto" then some .auto
  else if value = str "on" then some .on
  else none

/-- `um_parse_cpus`; `strtoul` negates within 64 bits. -/
def umParseCpus (value : CStr) : Option ℕ :=
  match UmSession.readNumber (value.map fun c => UInt8.ofNat c.toNat) with
  | none => none
  | some (negative, n, rest) =>
    let parsed := if negative then (2 ^ 64 - n) % 2 ^ 64 else n
    if 2 ^ 64 ≤ n ∨ rest ≠ [] ∨ parsed < 1 ∨ 64 < parsed then none else some parsed

def umRootflags (value : CStr) : Option CStr :=
  if value = [] ∨ 256 < value.length ∨
      ¬ value.all fun c => isAlpha c || isDigit c || c ∈ str ",=._-" then none
  else some value

/-- A value that may be given once. -/
def once {α : Type*} (old new : Option α) : Option α := if old.isSome then none else new

/-- A value that may not be empty. -/
def nonempty (value : CStr) : Option CStr := if value = [] then none else some value

variable (parseTimeout : CStr → Bool)

/-- Take an option with its value; `joined` when it stood behind an equals sign. -/
def umSetValue (c : UmConfig) (o : UmOption) (joined : Bool) (value : CStr) : Option UmConfig :=
  let text := if joined then nonempty value else some value
  match o with
  | .kernel => (once c.kernel text).map fun v => { c with kernel := some v }
  | .stub => (once c.stub text).map fun v => { c with stub := some v }
  | .rootfs => (once c.rootfs text).map fun v => { c with rootfs := some v }
  | .cowFile => (once c.cowFile (nonempty value)).map fun v => { c with cowFile := some v }
  | .bind => (umParseBind c.binds value).map fun binds => { c with binds := binds }
  | .netAddr => (umAddress value).map fun v => { c with netAddr := v }
  | .netGateway => (umAddress value).map fun v => { c with netGateway := v }
  | .netDns => (umAddress value).map fun v => { c with netDns := v }
  | .netIpv6Addr => (umNetValue value).map fun v =>
    { c with netIpv6Addr := v, ipv6Requested := true, netIpv6 := true }
  | .netIpv6Gw => (umNetValue value).map fun v =>
    { c with netIpv6Gw := v, ipv6Requested := true, netIpv6 := true }
  | .netIpv6Dns => (umNetValue value).map fun v =>
    { c with netIpv6Dns := v, ipv6Requested := true, netIpv6 := true }
  | .seccomp =>
    (once c.seccomp (umParseSeccompMode value)).map fun v => { c with seccomp := some v }
  | .sessionState => (once c.sessionState text).map fun v => { c with sessionState := some v }
  | .cwd => (once c.cwd text).map fun v => { c with cwd := some v }
  | .timeout =>
    (once c.timeout (if parseTimeout value then some value else none)).map fun v =>
      { c with timeout := some v }
  | .cpus => (once c.cpus (umParseCpus value)).map fun v => { c with cpus := some v }
  | .rootflags => (once c.rootflags (umRootflags value)).map fun v => { c with rootflags := some v }

def umSetFlag (c : UmConfig) (f : UmFlag) : Option UmConfig :=
  match f with
  | .net => if c.network then none else some { c with network := true }
  | .netAuto => if c.networkAuto then none else some { c with networkAuto := true, network := true }
  | .netIpv6 =>
    if c.ipv6Flag then none
    else some { c with ipv6Flag := true, ipv6Requested := true, netIpv6 := true }
  | .hostfs => if c.hostfs then none else some { c with hostfs := true }
  | .readonly => if c.readonly then none else some { c with readonly := true }
  | .quiet => if c.quiet then none else some { c with quiet := true }
  | .session => if c.session then none else some { c with session := true }

inductive UmError
  | invalid (word : CStr)
  | seccomp | cpus | rootflags | delimiter | rootfs | ipv6 | kernel
  | cwd (message : CStr)
  deriving DecidableEq

def UmError.text : UmError → CStr
  | .invalid word => str "neoproot-um: invalid or duplicate option '" ++ word ++ str "'\n"
  | .seccomp => str "neoproot-um: --seccomp expects off, auto, or on\n"
  | .cpus => str "neoproot-um: --cpus expects a value from 1 to 64\n"
  | .rootflags => str "neoproot-um: --rootflags expects comma-separated ext4 mount options\n"
  | .delimiter => str "neoproot-um: use -- before the guest command\n"
  | .rootfs => str "neoproot-um: --rootfs is required\n"
  | .ipv6 => str "neoproot-um: --net-ipv6 options require --net\n"
  | .kernel => str "neoproot-um: set --kernel/--stub or NEOPROOT_UM_KERNEL/NEOPROOT_UM_STUB\n"
  | .cwd message => message

/-- What is said of a value that is not taken, at the word where the parser is. -/
def umRefuse (o : UmOption) (word : CStr) : UmError :=
  match o with
  | .seccomp => .seccomp
  | .cpus => .cpus
  | .rootflags => .rootflags
  | _ => .invalid word

/-- The loop of `um_parse_args`, with the index at which it stops. -/
def umLoop (c : UmConfig) (index : ℕ) : List CStr → Except UmError (UmConfig × ℕ)
  | [] => .ok (c, index)
  | w :: ws =>
    match umKind w with
    | .delimiter => .ok ({ c with sawDelimiter := true }, index + 1)
    | .joined o value =>
      match umSetValue parseTimeout c o true value with
      | none => .error (umRefuse o w)
      | some c => umLoop c (index + 1) ws
    | .separate o =>
      match ws with
      | [] => .error (.invalid [])
      | value :: ws =>
        match umSetValue parseTimeout c o false value with
        | none => .error (umRefuse o value)
        | some c => umLoop c (index + 2) ws
    | .flag f =>
      match umSetFlag c f with
      | none => .error (.invalid w)
      | some c => umLoop c (index + 1) ws
    | .unknown => .error (.invalid w)

/-- What `um_parse_args` returns: the configuration, where the options end, and the index of
the guest command. -/
structure UmParsed where
  config : UmConfig
  stop : ℕ
  guestIndex : ℕ

/-- `um_path_has_kernel_separator` -/
def umPathHasKernelSeparator (path : CStr) : Bool := path.any fun c => c.toNat ≤ 32 || c = ','

/-- `um_parse_args` up to the files of the host, which it looks for next and which can only make
it fail. -/
def umParseArgs (w : World) (argv : List CStr) : Except UmError UmParsed :=
  match umLoop parseTimeout .initial 1 (argv.drop 1) with
  | .error e => .error e
  | .ok (c, index) =>
    let cwd := c.cwd.getD (str "/")
    if c.session = false ∧ (c.sawDelimiter = false ∨ argv.length ≤ index) then .error .delimiter
    else if c.rootfs = none then .error .rootfs
    else if c.ipv6Requested ∧ c.network = false then .error .ipv6
    else if ¬ isConfigured (c.kernel <|> w.kernel) ∨ ¬ isConfigured (c.stub <|> w.stub) then
      .error .kernel
    else match umValidateGuestPath (str "cwd") cwd with
    | .error message => .error (.cwd message)
    | .ok _ =>
      if umPathHasKernelSeparator cwd then .error (.cwd [])
      else .ok ⟨c, index, if c.session then argv.length else index⟩

/-! ### PRoot -/

inductive OptionHandler
  | r | b | w | killOnExit | seccompNotify | statShim | v | version | help | k | rootId | i
  | link2symlinkDirent | link2symlink | sysvipc | ashmemMemfd | hidden | p | l | bigR | bigS
  deriving DecidableEq

/-- `Argument`, with the handler of its option. -/
structure Argument where
  name : CStr
  separator : Option Char
  value : Bool
  handler : OptionHandler

/-- The arguments of `proot_cli`, in their order. -/
def prootArguments : List Argument :=
  [⟨str "-r", some ' ', true, .r⟩, ⟨str "--rootfs", some '=', true, .r⟩,
    ⟨str "-b", some ' ', true, .b⟩, ⟨str "--bind", some '=', true, .b⟩,
    ⟨str "-m", some ' ', true, .b⟩, ⟨str "--mount", some '=', true, .b⟩,
    ⟨str "-w", some ' ', true, .w⟩, ⟨str "--pwd", some '=', true, .w⟩,
    ⟨str "--cwd", some '=', true, .w⟩, ⟨str "--kill-on-exit", none, false, .killOnExit⟩,
    ⟨str "--seccomp-notify", none, false, .seccompNotify⟩,
    ⟨str "--stat-shim", some '=', true, .statShim⟩, ⟨str "-v", some ' ', true, .v⟩,
    ⟨str "--verbose", some '=', true, .v⟩, ⟨str "-V", none, false, .version⟩,
    ⟨str "--version", none, false, .version⟩, ⟨str "--about", none, false, .version⟩,
    ⟨str "-h", none, false, .help⟩, ⟨str "--help", none, false, .help⟩,
    ⟨str "--usage", none, false, .help⟩,
    ⟨str "-k", some ' ', true, .k⟩, ⟨str "--kernel-release", some '=', true, .k⟩,
    ⟨str "-0", none, false, .rootId⟩, ⟨str "--root-id", none, false, .rootId⟩,
    ⟨str "-i", some ' ', true, .i⟩, ⟨str "--change-id", some '=', true, .i⟩,
    ⟨str "--link2symlink-dirent", none, false, .link2symlinkDirent⟩,
    ⟨str "--link2symlink", none, false, .link2symlink⟩, ⟨str "-l", none, false, .link2symlink⟩,
    ⟨str "--sysvipc", none, false, .sysvipc⟩, ⟨str "--ashmem-memfd", none, false, .ashmemMemfd⟩,
    ⟨str "-H", none, false, .hidden⟩, ⟨str "-p", none, false, .p⟩, ⟨str "-L", none, false, .l⟩,
    ⟨str "-R", some ' ', true, .bigR⟩, ⟨str "-S", some ' ', true, .bigS⟩]

/-- How the loop of `parse_config` takes an option. -/
inductive ProotWord
  | flag (h : OptionHandler)
  | joined (h : OptionHandler) (value : CStr)
  | separate (h : OptionHandler)
  /-- The value is not separated as it has to be. -/
  | misplaced (a : Argument)
  | unknown

/-- The first argument with which the word begins decides. -/
def prootKind (w : CStr) : ProotWord :=
  match prootArguments.find? fun a => a.name.isPrefixOf w with
  | none => .unknown
  | some a =>
    let rest := w.drop a.name.length
    if rest ≠ [] ∧ rest.head? ≠ a.separator then .misplaced a
    else if a.value = false then .flag a.handler
    else if rest ≠ [] then .joined a.handler rest.tail
    else if a.separator ≠ some ' ' then .misplaced a
    else .separate a.handler

inductive ProotError
  | usage
  | handler (h : OptionHandler)
  | misplaced (a : Argument)
  | unknown (word : CStr)
  | missing (word : CStr)
  | setup

def ProotError.text : ProotError → CStr
  | .misplaced a =>
    match a.separator with
    | none => str "option '" ++ a.name ++ str "' expects no value."
    | some c => str "option '" ++ a.name ++ str "' and its value must be separated by '" ++ [c] ++
      str "'."
  | .unknown word => str "unknown option '" ++ word ++ str "'."
  | .missing word => str "missing value for option '" ++ word ++ str "'."
  | .usage | .handler _ | .setup => []

section Proot

variable {σ : Type*} (handle : σ → OptionHandler → Option CStr → Option σ)

/-- The loop of `parse_config`, with the index at which it stops; `handle` is what the handlers
do with the tracee. -/
def prootLoop (s : σ) (index : ℕ) : List CStr → Except ProotError (σ × ℕ)
  | [] => .ok (s, index)
  | w :: ws =>
    if w.head? ≠ some '-' then .ok (s, index)
    else match prootKind w with
    | .flag h =>
      match handle s h none with
      | none => .error (.handler h)
      | some s => prootLoop s (index + 1) ws
    | .joined h value =>
      match handle s h (some value) with
      | none => .error (.handler h)
      | some s => prootLoop s (index + 1) ws
    | .separate h =>
      match ws with
      | [] => .error (.missing w)
      | value :: ws =>
        match handle s h (some value) with
        | none => .error (.handler h)
        | some s => prootLoop s (index + 2) ws
    | .misplaced a => .error (.misplaced a)
    | .unknown => .error (.unknown w)

/-- `parse_config`; `setup` is what it does with the bindings, the directory and the program when
it has the options. -/
def parseConfig (setup : σ → List CStr → Option σ) (s : σ) (argv : List CStr) :
    Except ProotError (σ × ℕ) :=
  if argv.length = 1 then .error .usage
  else match prootLoop handle s 1 (argv.drop 1) with
  | .error e => .error e
  | .ok (s, index) =>
    match setup s (argv.drop index) with
    | none => .error .setup
    | some s => .ok (s, index)

end Proot

/-! ### One word -/

/-- A word that takes the next one, in each of the two tables. -/
def UmWord.takesNext : UmWord → Bool
  | .separate _ => true
  | .delimiter | .joined _ _ | .flag _ | .unknown => false

def ProotWord.takesNext : ProotWord → Bool
  | .separate _ => true
  | .flag _ | .joined _ _ | .misplaced _ | .unknown => false

/-- A word that a parser takes, alone. -/
def UmWord.takesNone : UmWord → Bool
  | .joined _ _ | .flag _ => true
  | .delimiter | .separate _ | .unknown => false

def ProotWord.takesNone : ProotWord → Bool
  | .flag _ | .joined _ _ => true
  | .separate _ | .misplaced _ | .unknown => false

/-- An option whose value the dispatcher sets aside is none that a backend takes alone. -/
theorem takesNone_valued : ∀ w ∈ separateValueOptions,
    (umKind w).takesNone = false ∧ (prootKind w).takesNone = false := by decide +kernel

theorem mem_of_valued {w : CStr} (h : wordKind w = .valued) :
    w ∈ separateValueOptions ∧ w ≠ str "--" ∧ w.head? = some '-' := by
  grind [wordKind, optionTakesSeparateValue]

theorem not_mem_of_plain {w : CStr} (h : wordKind w = .plain) :
    w ∉ separateValueOptions ∧ w ≠ str "--" ∧ w.head? = some '-' := by
  grind [wordKind, optionTakesSeparateValue]

theorem umSeparate_subset : ∀ e ∈ umSeparate, e.1 ∈ separateValueOptions := by decide +kernel

theorem prootSeparate_subset : ∀ a ∈ prootArguments,
    a.separator = some ' ' → a.name ∈ separateValueOptions := by decide +kernel

/-- Only the delimiter ends the options of the supervisor. -/
theorem umKind_ne_delimiter {w : CStr} (h : w ≠ str "--") : umKind w ≠ .delimiter := by
  grind [umKind]

/-- An option that the dispatcher forwards alone takes no value in the supervisor's table. -/
theorem umKind_plain {w : CStr} (h : w ∉ separateValueOptions) : (umKind w).takesNext = false := by
  have hlookup : umSeparate.lookup w = none := by
    rw [List.lookup_eq_none_iff]
    intro e he
    simpa using fun heq : w = e.1 => h (heq ▸ umSeparate_subset e he)
  simp only [umKind, hlookup]
  split
  · rfl
  split
  · rfl
  split
  · rfl
  · rfl

/-- Nor in PRoot's. -/
theorem prootKind_plain {w : CStr} (h : w ∉ separateValueOptions) :
    (prootKind w).takesNext = false := by
  cases hfind : prootArguments.find? fun a => a.name.isPrefixOf w with
  | none =>
    simp only [prootKind, hfind]
    rfl
  | some a =>
    have hname : a.name <+: w := by simpa using List.find?_some hfind
    obtain ⟨rest, hrest⟩ := hname
    have hdrop : w.drop a.name.length = rest := by rw [← hrest, List.drop_left]
    simp only [prootKind, hfind, hdrop]
    split
    · rfl
    split
    · rfl
    split
    · rfl
    rename_i hwhole
    rw [ne_eq, not_not] at hwhole
    split
    · rfl
    · -- the word is a name with a separate value, and those the dispatcher knows
      rename_i hspace
      rw [ne_eq, not_not] at hspace
      refine absurd (prootSeparate_subset a (List.mem_of_find?_eq_some hfind) hspace) ?_
      rw [← hrest, hwhole, List.append_nil] at h
      exact h

/-! ### The loops -/

section UmLoop

variable {parseTimeout : CStr → Bool} {config : UmConfig} {index : ℕ} {w value : CStr}
  {ws : List CStr} {r : UmConfig × ℕ}

/-- The loop passes a word that stands alone, or one with the value behind it. -/
theorem umLoop_cases (hdelimiter : w ≠ str "--")
    (h : umLoop parseTimeout config index (w :: ws) = .ok r) :
    ((umKind w).takesNone = true ∧ ∃ config', umLoop parseTimeout config' (index + 1) ws = .ok r) ∨
      (umKind w).takesNext = true ∧ ∃ value rest config', ws = value :: rest ∧
        umLoop parseTimeout config' (index + 2) rest = .ok r := by
  rw [umLoop.eq_def] at h
  cases hkind : umKind w with
  | delimiter => exact absurd hkind (umKind_ne_delimiter hdelimiter)
  | unknown =>
    simp only [hkind] at h
    cases h
  | joined o value =>
    simp only [hkind] at h
    split at h
    · cases h
    · exact .inl ⟨rfl, _, h⟩
  | flag f =>
    simp only [hkind] at h
    split at h
    · cases h
    · exact .inl ⟨rfl, _, h⟩
  | separate o =>
    simp only [hkind] at h
    split at h
    · cases h
    · split at h
      · cases h
      · exact .inr ⟨rfl, _, _, _, rfl, h⟩

/-- A word that takes no other is passed alone. -/
theorem umLoop_single (hnext : (umKind w).takesNext = false) (hdelimiter : w ≠ str "--")
    (h : umLoop parseTimeout config index (w :: ws) = .ok r) :
    ∃ config', umLoop parseTimeout config' (index + 1) ws = .ok r := by
  obtain ⟨-, halone⟩ | ⟨htakes, -⟩ := umLoop_cases hdelimiter h
  · exact halone
  · rw [hnext] at htakes
    cases htakes

/-- A word that is not taken alone is passed with the next. -/
theorem umLoop_double (hnone : (umKind w).takesNone = false) (hdelimiter : w ≠ str "--")
    (h : umLoop parseTimeout config index (w :: ws) = .ok r) :
    ∃ value rest config', ws = value :: rest ∧
      umLoop parseTimeout config' (index + 2) rest = .ok r := by
  obtain ⟨htakes, -⟩ | ⟨-, hvalue⟩ := umLoop_cases hdelimiter h
  · rw [hnone] at htakes
    cases htakes
  · exact hvalue

theorem umLoop_delimiter (h : umLoop parseTimeout config index (str "--" :: ws) = .ok r) :
    r.2 = index + 1 := by
  have hkind : umKind (str "--") = .delimiter := by simp [umKind]
  rw [umLoop.eq_def] at h
  simp only [hkind, Except.ok.injEq] at h
  rw [← h]

/-- The supervisor stops behind the delimiter that the dispatcher put in front of the command. -/
theorem umLoop_line {os : List CStr} {c : Option (List CStr)} (hline : Line ws os c)
    (h : umLoop parseTimeout config index
      (os ++ (c.map fun words => str "--" :: words).getD []) = .ok r) :
    r.2 = index + os.length + (if c.isSome then 1 else 0) := by
  induction hline generalizing config index with
  | none =>
    simp only [List.nil_append, Option.map_none, Option.getD_none, umLoop, Except.ok.injEq] at h
    rw [← h]
    rfl
  | separator w words hkind => exact umLoop_delimiter h
  | command w words hkind => exact umLoop_delimiter h
  | backendJoined hkind hws ih => exact ih h
  | backend hkind hws ih => exact ih h
  | autoJoined hkind hws ih => exact ih h
  | auto hkind hws ih => exact ih h
  | valued hkind hws ih =>
    obtain ⟨hmem, hdelimiter, -⟩ := mem_of_valued hkind
    obtain ⟨value, rest, config', heq, h'⟩ := umLoop_double (takesNone_valued _ hmem).1 hdelimiter h
    obtain ⟨-, rfl⟩ := List.cons.inj heq
    rw [ih h', List.length_cons, List.length_cons]
    omega
  | unvalued w hkind =>
    obtain ⟨hmem, hdelimiter, -⟩ := mem_of_valued hkind
    obtain ⟨value, rest, config', hnil, -⟩ := umLoop_double (takesNone_valued _ hmem).1 hdelimiter h
    cases hnil
  | plain hkind hws ih =>
    obtain ⟨hmem, hdelimiter, -⟩ := not_mem_of_plain hkind
    obtain ⟨config', h'⟩ := umLoop_single (umKind_plain hmem) hdelimiter h
    rw [ih h', List.length_cons]
    omega

end UmLoop

section ProotLoop

variable {σ : Type*} {handle : σ → OptionHandler → Option CStr → Option σ} {s : σ} {index : ℕ}
  {w value : CStr} {ws : List CStr} {r : σ × ℕ}

/-- The loop passes an option that stands alone, or one with the value behind it. -/
theorem prootLoop_cases (hdash : w.head? = some '-')
    (h : prootLoop handle s index (w :: ws) = .ok r) :
    ((prootKind w).takesNone = true ∧ ∃ s', prootLoop handle s' (index + 1) ws = .ok r) ∨
      (prootKind w).takesNext = true ∧ ∃ value rest s', ws = value :: rest ∧
        prootLoop handle s' (index + 2) rest = .ok r := by
  rw [prootLoop.eq_def] at h
  simp only [hdash, ne_eq, not_true_eq_false, if_false] at h
  cases hkind : prootKind w with
  | unknown =>
    simp only [hkind] at h
    cases h
  | misplaced a =>
    simp only [hkind] at h
    cases h
  | joined handler value =>
    simp only [hkind] at h
    split at h
    · cases h
    · exact .inl ⟨rfl, _, h⟩
  | flag handler =>
    simp only [hkind] at h
    split at h
    · cases h
    · exact .inl ⟨rfl, _, h⟩
  | separate handler =>
    simp only [hkind] at h
    split at h
    · cases h
    · split at h
      · cases h
      · exact .inr ⟨rfl, _, _, _, rfl, h⟩

theorem prootLoop_single (hnext : (prootKind w).takesNext = false) (hdash : w.head? = some '-')
    (h : prootLoop handle s index (w :: ws) = .ok r) :
    ∃ s', prootLoop handle s' (index + 1) ws = .ok r := by
  obtain ⟨-, halone⟩ | ⟨htakes, -⟩ := prootLoop_cases hdash h
  · exact halone
  · rw [hnext] at htakes
    cases htakes

theorem prootLoop_double (hnone : (prootKind w).takesNone = false) (hdash : w.head? = some '-')
    (h : prootLoop handle s index (w :: ws) = .ok r) :
    ∃ value rest s', ws = value :: rest ∧ prootLoop handle s' (index + 2) rest = .ok r := by
  obtain ⟨htakes, -⟩ | ⟨-, hvalue⟩ := prootLoop_cases hdash h
  · rw [hnone] at htakes
    cases htakes
  · exact hvalue

theorem prootLoop_word (hdash : w.head? ≠ some '-')
    (h : prootLoop handle s index (w :: ws) = .ok r) : r.2 = index := by
  rw [prootLoop.eq_def] at h
  simp only [if_pos hdash, Except.ok.injEq] at h
  rw [← h]

/-- The loop goes forward, and past a word that begins with a dash. -/
theorem le_prootLoop (h : prootLoop handle s index ws = .ok r) : index ≤ r.2 := by
  induction hlen : ws.length using Nat.strong_induction_on generalizing s index ws with
  | _ n ih =>
    cases ws with
    | nil =>
      rw [prootLoop.eq_def] at h
      rw [← Except.ok.inj h]
    | cons w ws =>
      by_cases hdash : w.head? = some '-'
      · rw [List.length_cons] at hlen
        obtain ⟨-, s', h'⟩ | ⟨-, value, rest, s', rfl, h'⟩ := prootLoop_cases hdash h
        · have hle := ih ws.length (by omega) h' rfl
          omega
        · rw [List.length_cons] at hlen
          have hle := ih rest.length (by omega) h' rfl
          omega
      · exact (prootLoop_word hdash h).ge

/-- A word that begins with a dash is passed. -/
theorem prootLoop_dash (hdash : w.head? = some '-')
    (h : prootLoop handle s index (w :: ws) = .ok r) : index < r.2 := by
  obtain ⟨-, s', h'⟩ | ⟨-, value, rest, s', -, h'⟩ := prootLoop_cases hdash h
  · exact le_prootLoop h'
  · exact (Nat.lt_add_of_pos_right Nat.two_pos).trans_le (le_prootLoop h')

/-- PRoot passes the options of a line and looks at the command. -/
theorem prootLoop_line {os : List CStr} {c : Option (List CStr)} (hline : Line ws os c)
    (h : prootLoop handle s index (os ++ c.getD []) = .ok r) :
    ∃ s', prootLoop handle s' (index + os.length) (c.getD []) = .ok r := by
  induction hline generalizing s index with
  | none => exact ⟨s, h⟩
  | separator w words hkind => exact ⟨s, h⟩
  | command w words hkind => exact ⟨s, h⟩
  | backendJoined hkind hws ih => exact ih h
  | backend hkind hws ih => exact ih h
  | autoJoined hkind hws ih => exact ih h
  | auto hkind hws ih => exact ih h
  | valued hkind hws ih =>
    obtain ⟨hmem, -, hdash⟩ := mem_of_valued hkind
    obtain ⟨value, rest, s', heq, h'⟩ := prootLoop_double (takesNone_valued _ hmem).2 hdash h
    obtain ⟨-, rfl⟩ := List.cons.inj heq
    obtain ⟨s'', h''⟩ := ih h'
    exact ⟨s'', by rw [List.length_cons, List.length_cons, ← h'']; congr 1; omega⟩
  | unvalued w hkind =>
    obtain ⟨hmem, -, hdash⟩ := mem_of_valued hkind
    obtain ⟨value, rest, s', hnil, -⟩ := prootLoop_double (takesNone_valued _ hmem).2 hdash h
    cases hnil
  | plain hkind hws ih =>
    obtain ⟨hmem, -, hdash⟩ := not_mem_of_plain hkind
    obtain ⟨s', h'⟩ := prootLoop_single (prootKind_plain hmem) hdash h
    obtain ⟨s'', h''⟩ := ih h'
    exact ⟨s'', by rw [List.length_cons, ← h'']; congr 1; omega⟩

end ProotLoop

/-! ### Where the parsers stop -/

/-- What the parsers take from outside: the environment and the host, `strtod`, and what PRoot's
handlers and its initialization do with the tracee. -/
structure Outside (σ : Type*) where
  world : World
  parseTimeout : CStr → Bool
  handle : σ → OptionHandler → Option CStr → Option σ
  setup : σ → List CStr → Option σ
  tracee : σ

section Stops

variable {σ : Type*} {outside : Outside σ} {argv : List CStr} {p : Prepared} {stop : ℕ}

/-- Where the parser of the chosen backend stops taking options, if it accepts its vector. -/
def stopsAt (outside : Outside σ) (p : Prepared) : Option ℕ :=
  match selectBackend outside.world p with
  | .um => (umParseArgs outside.parseTimeout outside.world (umArgv p)).toOption.map UmParsed.stop
  | .proot => (parseConfig outside.handle outside.setup outside.tracee p.argv).toOption.map Prod.snd

/-- The position of the guest command in the vector of the chosen backend; the end of the vector
if there is no command. -/
def commandPosition (w : World) (p : Prepared) : ℕ :=
  if p.commandIndex = 0 then p.argv.length
  else match selectBackend w p with
  | .um => p.commandIndex + 1
  | .proot => p.commandIndex

/-- The vector has all options that are not the dispatcher's own, with their values, and the
command at its index. -/
def Forwarded (argv : List CStr) (p : Prepared) : Prop :=
  ∃ os c, Line (argv.drop 1) os c ∧ Prepared.Of ⟨argv.take 1, .default, 0, none⟩ p os c

/-- The guest command does not begin with a dash. -/
def PlainCommand (p : Prepared) : Prop :=
  p.commandIndex ≠ 0 → ∀ word ∈ (p.argv.drop p.commandIndex).head?, word.head? ≠ some '-'

instance (p : Prepared) : Decidable (PlainCommand p) := inferInstanceAs (Decidable (_ → _))

theorem forwarded_of_prepared (h : prepareBackendArgv argv = .ok p) : Forwarded argv p := by
  obtain ⟨os, c, hline⟩ := exists_line h
  exact ⟨os, c, hline, hline.prepared h⟩

/-- A vector with a command has the program's name in front of it. -/
theorem Forwarded.cases (h : Forwarded argv p) :
    (∃ os, Line (argv.drop 1) os none ∧ p.argv = argv.take 1 ++ os ∧ p.commandIndex = 0) ∨
      ∃ program os words, Line (argv.drop 1) os (some words) ∧ p.argv = program :: os ++ words ∧
        p.commandIndex = os.length + 1 := by
  obtain ⟨os, c, hline, hof⟩ := h
  cases c with
  | none => exact .inl ⟨os, hline, by simpa using hof.argv, by simpa using hof.commandIndex⟩
  | some words =>
    cases argv with
    | nil => exact absurd hline (by rintro ⟨⟩)
    | cons program ws =>
      refine .inr ⟨program, os, words, hline, by simpa using hof.argv, ?_⟩
      have hindex := hof.commandIndex
      simpa using hindex

/-- The supervisor's parser stops at the guest command. -/
theorem um_stops {r : UmParsed} {w : World} {parseTimeout : CStr → Bool} (h : Forwarded argv p)
    (hne : argv ≠ []) (hparse : umParseArgs parseTimeout w (umArgv p) = .ok r) :
    r.stop = if p.commandIndex = 0 then p.argv.length else p.commandIndex + 1 := by
  have hloop : ∃ config,
      umLoop parseTimeout .initial 1 ((umArgv p).drop 1) = .ok (config, r.stop) := by
    rw [umParseArgs] at hparse
    split at hparse
    · cases hparse
    rename_i c index hloop
    refine ⟨c, ?_⟩
    rw [hloop]
    grind
  obtain ⟨config, hloop⟩ := hloop
  obtain ⟨os, hline, hargv, hindex⟩ | ⟨program, os, words, hline, hargv, hindex⟩ := h.cases
  · obtain ⟨program, ws, rfl⟩ := List.exists_cons_of_ne_nil hne
    have hstop := umLoop_line hline (by simpa [umArgv, hindex, hargv] using hloop)
    simp only [Option.isSome_none, Bool.false_eq_true, if_false] at hstop
    rw [if_pos hindex, hstop, hargv]
    simp [Nat.add_comm]
  · have hstop := umLoop_line hline (by simpa [umArgv, hindex, hargv] using hloop)
    simp only [Option.isSome_some, if_true] at hstop
    rw [if_neg (by omega), hstop, hindex]
    omega

/-- PRoot's stops there exactly when the command does not begin with a dash. -/
theorem proot_stops_iff {handle : σ → OptionHandler → Option CStr → Option σ}
    {setup : σ → List CStr → Option σ} {s : σ} {r : σ × ℕ} (h : Forwarded argv p) (hne : argv ≠ [])
    (hparse : parseConfig handle setup s p.argv = .ok r) :
    r.2 = (if p.commandIndex = 0 then p.argv.length else p.commandIndex) ↔ PlainCommand p := by
  have hloop : ∃ s', prootLoop handle s 1 (p.argv.drop 1) = .ok (s', r.2) := by
    rw [parseConfig] at hparse
    split at hparse
    · cases hparse
    split at hparse
    · cases hparse
    rename_i s' index hloop
    refine ⟨s', ?_⟩
    rw [hloop]
    grind
  obtain ⟨s', hloop⟩ := hloop
  obtain ⟨os, hline, hargv, hindex⟩ | ⟨program, os, words, hline, hargv, hindex⟩ := h.cases
  · obtain ⟨program, ws, rfl⟩ := List.exists_cons_of_ne_nil hne
    obtain ⟨s'', hrest⟩ := prootLoop_line hline (by simpa [hargv] using hloop)
    simp only [Option.getD_none, prootLoop, Except.ok.injEq, Prod.mk.injEq] at hrest
    rw [if_pos hindex]
    refine iff_of_true ?_ fun hcommand => absurd hindex hcommand
    rw [← hrest.2, hargv]
    simp [Nat.add_comm]
  · obtain ⟨s'', hrest⟩ := prootLoop_line hline (by simpa [hargv] using hloop)
    have hdrop : p.argv.drop p.commandIndex = words := by
      rw [hargv, hindex, List.cons_append, List.drop_succ_cons, List.drop_left]
    rw [if_neg (by omega), PlainCommand, hdrop]
    simp only [Option.getD_some] at hrest
    cases words with
    | nil =>
      simp only [prootLoop, Except.ok.injEq, Prod.mk.injEq] at hrest
      refine iff_of_true ?_ fun _ word hword => nomatch hword
      rw [← hrest.2, hindex]
      omega
    | cons word words =>
      have hplain : (p.commandIndex ≠ 0 → ∀ w ∈ (word :: words).head?, w.head? ≠ some '-') ↔
          word.head? ≠ some '-' := by
        simp [hindex]
      rw [hplain]
      by_cases hdash : word.head? = some '-'
      · have hpast := prootLoop_dash hdash hrest
        refine iff_of_false ?_ (not_not.2 hdash)
        dsimp only at hpast
        omega
      · have hstop := prootLoop_word hdash hrest
        refine iff_of_true ?_ hdash
        dsimp only at hstop
        omega

/-- The vector of a backend has all its options and the command, and where its parser accepts it,
it stops at the command, exactly when the backend is the supervisor or the command does not begin
with a dash. -/
theorem command_position_iff (outside : Outside σ) {program : CStr} {words : List CStr}
    (h : prepareBackendArgv (program :: words) = .ok p) (hstop : stopsAt outside p = some stop) :
    Forwarded (program :: words) p ∧ stop = commandPosition outside.world p ↔
      selectBackend outside.world p = .um ∨ PlainCommand p := by
  have hforwarded := forwarded_of_prepared h
  rw [and_iff_right hforwarded, commandPosition]
  rw [stopsAt] at hstop
  cases hselect : selectBackend outside.world p with
  | um =>
    simp only [hselect] at hstop
    cases hparse : umParseArgs outside.parseTimeout outside.world (umArgv p) with
    | error e =>
      rw [hparse] at hstop
      cases hstop
    | ok r =>
      rw [hparse] at hstop
      cases hstop
      exact iff_of_true (um_stops hforwarded (List.cons_ne_nil _ _) hparse) (.inl rfl)
  | proot =>
    simp only [hselect] at hstop
    cases hparse : parseConfig outside.handle outside.setup outside.tracee p.argv with
    | error e =>
      rw [hparse] at hstop
      cases hstop
    | ok r =>
      rw [hparse] at hstop
      cases hstop
      rw [or_iff_right (by simp)]
      exact proot_stops_iff hforwarded (List.cons_ne_nil _ _) hparse

end Stops

/-- Handlers that accept everything. -/
def plainOutside : Outside Unit :=
  ⟨bareWorld, fun _ => true, fun _ _ _ => some (), fun _ _ => some (), ()⟩

/-- `neoproot -r / -- ls -l` -/
theorem command_position_ls :
    Forwarded [str "neoproot", str "-r", str "/", str "--", str "ls", str "-l"]
        ⟨[str "neoproot", str "-r", str "/", str "ls", str "-l"], .default, 3, none⟩ ∧
      3 = commandPosition bareWorld
        ⟨[str "neoproot", str "-r", str "/", str "ls", str "-l"], .default, 3, none⟩ :=
  (command_position_iff plainOutside (by rfl) (by rfl)).2 (.inr (by decide))

/-- A guest command with the name of an option is taken for it. -/
theorem dashed_command_taken :
    ¬ ∀ (outside : Outside Unit) (program : CStr) (words : List CStr) (p : Prepared) (stop : ℕ),
        prepareBackendArgv (program :: words) = .ok p → stopsAt outside p = some stop →
        stop = commandPosition outside.world p := by
  intro h
  have hstop := h plainOutside (str "neoproot") [str "--", str "-0", str "id"]
    ⟨[str "neoproot", str "-0", str "id"], .default, 1, none⟩ 2 (by rfl) (by rfl)
  revert hstop
  decide

end NeoProot.Cli
