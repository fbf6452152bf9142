import NeoProot.Backend.Wrapper
import NeoProot.Lib.ShellRun

/-!
# The commands of the wrapper

The shell reads the wrapper as the commands that the supervisor means: every string of the
caller is one quoted word in its place, whatever its characters are.

## Main definitions

* `preparation` — the commands in front of the guest's command.
* `ending` — the working directory and the guest's command.
* `compile_umWriteWrapper` — the shell reads these.
-/

namespace NeoProot.Wrapper
open Shell

/-! ### Words and commands -/

/-- A word without quotations. -/
def lits (s : String) : Word := (str s).map .lit

/-- A command without assignments and redirections. -/
def command (words : List Word) : Script := .simple ⟨[], words, []⟩

/-- A command whose messages are thrown away. -/
def silent (words : List Word) : Script :=
  .simple ⟨[], words, [⟨some '2', .great, lits "/dev/null"⟩]⟩

/-- A command without any output. -/
def mute (words : List Word) : Script :=
  .simple ⟨[], words, [⟨none, .great, lits "/dev/null"⟩, ⟨some '2', .greatAnd, lits "1"⟩]⟩

/-- A parameter between double quotes. -/
def quotedParam (name : String) : Word := [.quotes, .param (str name) true]

/-- The characters of a literal string. -/
theorem str_ofList (cs : List Char) : str (String.ofList cs) = cs := String.toList_ofList

theorem lits_ofList (cs : List Char) : lits (String.ofList cs) = cs.map .lit :=
  congrArg (List.map Piece.lit) (str_ofList cs)

theorem umWriteShellWord_eq (value : CStr) : umWriteShellWord value = quote value := rfl

/-- The commands of a closed text. -/
@[irreducible] def scriptsOf (text : CStr) : List Script := (compile text).getD []

/-- A closed text that the shell reads as commands which define nothing. -/
def ReadsPlain (text : CStr) : Prop :=
  compile text = some (scriptsOf text) ∧ ∀ a ∈ scriptsOf text, a.Plain false = true

theorem readsPlain {text : CStr}
    (h : (compile text).any (fun as => as.all fun a => a.Plain false) = true) :
    ReadsPlain text := by
  cases has : compile text with
  | none =>
    rw [has] at h
    cases h
  | some as =>
    rw [has, Option.any_some] at h
    have hscripts : scriptsOf text = as := by
      rw [scriptsOf, has, Option.getD_some]
    rw [ReadsPlain, hscripts]
    exact ⟨has, List.all_eq_true.1 h⟩

theorem readsPlain_bindGate : ReadsPlain bindGate := by
  apply readsPlain
  rw [bindGate]
  repeat rw [str_ofList]
  decide +kernel

theorem readsPlain_systemMounts : ReadsPlain systemMounts := by
  apply readsPlain
  rw [systemMounts]
  repeat rw [str_ofList]
  decide +kernel

theorem readsPlain_loopback : ReadsPlain loopback := by
  apply readsPlain
  rw [loopback]
  repeat rw [str_ofList]
  decide +kernel

theorem readsPlain_fixedEnvironment : ReadsPlain fixedEnvironment := by
  apply readsPlain
  rw [fixedEnvironment]
  repeat rw [str_ofList]
  decide +kernel

/-! ### The beginning -/

/-- `um_fail`. -/
def failBody (statusPath : CStr) : Script :=
  block [.simple ⟨[], [lits "printf", quoteWord (str "%s\\n"), quotedParam "1"],
      [⟨none, .great, quoteWord statusPath⟩]⟩,
    command [lits "um_stop"]]

/-- `um_stop`. -/
def stopBody : Script :=
  block [silent [lits "sync"], silent [lits "poweroff", lits "-f"],
    silent [lits "reboot", lits "-f"],
    .simple ⟨[], [lits "printf", lits "b"], [⟨none, .great, lits "/proc/sysrq-trigger"⟩,
      ⟨some '2', .great, lits "/dev/null"⟩]⟩,
    .loop (block [command [lits ":"]]) (block [command [lits "sleep", lits "3600"]])]

theorem compile_fail (statusPath : CStr) :
    compile (str "um_fail() \x7b printf '%s\\n' \"$1\" > " ++ umWriteShellWord statusPath ++
      str "; um_stop; \x7d\n") = some [.define (str "um_fail") (failBody statusPath)] := by
  have hfront : transduce lexStep .start (str "um_fail() \x7b printf '%s\\n' \"$1\" > ") =
      some (.start, [.word (lits "um_fail"), .op .lparen, .op .rparen, .word (lits "\x7b"),
        .word (lits "printf"), .word (quoteWord (str "%s\\n")), .word (quotedParam "1"),
        .op .great]) := by
    repeat first | rw [str_ofList] | rw [lits_ofList]
    rfl
  have hback : transduce lexStep .start (str "; um_stop; \x7d\n") =
      some (.start, [.op .semi, .word (lits "um_stop"), .op .semi, .word (lits "\x7d"),
        .newline]) := by
    repeat first | rw [str_ofList] | rw [lits_ofList]
    rfl
  rw [compile_eq_some_iff]
  exact ⟨_, lex_hole (.inr (.inr rfl)) hfront hback, rfl⟩

theorem compile_stop : compile stopFunction = some [.define (str "um_stop") stopBody] := by
  rw [stopFunction, stopBody]
  repeat first | rw [str_ofList] | rw [lits_ofList]
  decide +kernel

/-- The commands of the beginning. -/
def startScripts (statusPath : CStr) (ext4Rootfs ext4Binds : Bool) : List Script :=
  if ext4Rootfs then if ext4Binds then scriptsOf bindGate else []
  else [.define (str "um_fail") (failBody statusPath), .define (str "um_stop") stopBody] ++
    scriptsOf systemMounts

theorem compile_comment : compile (str "#!/bin/sh\n") = some [] := by
  repeat first | rw [str_ofList] | rw [lits_ofList]
  rfl

theorem compile_start (statusPath : CStr) (ext4Rootfs ext4Binds : Bool) :
    compile (umWriteStart statusPath ext4Rootfs ext4Binds) =
      some (startScripts statusPath ext4Rootfs ext4Binds) := by
  rw [umWriteStart, startScripts]
  split_ifs
  · rw [compile_append compile_comment readsPlain_bindGate.1, List.nil_append]
  · rw [List.append_nil, compile_comment]
  · rw [compile_append (compile_append (compile_append compile_comment (compile_fail statusPath))
      compile_stop) readsPlain_systemMounts.1, List.nil_append, List.singleton_append]

/-! ### The environment -/

/-- The commands for a variable. -/
def environmentScripts (entry : CStr × CStr) : List Script :=
  [.simple ⟨[(entry.1, quoteWord entry.2)], [], []⟩,
    command [lits "export", entry.1.map .lit]]

theorem compile_environmentLines {entry : CStr × CStr} (h : IsName entry.1) :
    compile (environmentLines entry) = some (environmentScripts entry) := by
  have hequals : transduce lexStep ⟨.plain, some (entry.1.map .lit)⟩ (str "=") =
      some (⟨.plain, some (entry.1.map .lit ++ [.lit '='])⟩, []) := rfl
  have hvalue : transduce lexStep .start (entry.1 ++ str "=" ++ umWriteShellWord entry.2) =
      some (⟨.plain, some (entry.1.map .lit ++ [.lit '='] ++ quoteWord entry.2)⟩, []) :=
    transduce_append (transduce_append (lex_name h) hequals) (lex_quote entry.2 _)
  have hexport : transduce lexStep .start ('\n' :: str "export ") =
      some (.start, [.newline, .word (lits "export")]) := by
    repeat first | rw [str_ofList] | rw [lits_ofList]
    rfl
  have hnewline : transduce lexStep .start ['\n'] = some (.start, [.newline]) := rfl
  have htext : str "\nexport " = '\n' :: str "export " := by
    rw [str_ofList, str_ofList]
  have hend : str "\n" = ['\n'] := str_ofList _
  have hlex : transduce lexStep .start (environmentLines entry) =
      some (.start, [.word (entry.1.map .lit ++ .lit '=' :: quoteWord entry.2), .newline,
        .word (lits "export"), .word (entry.1.map .lit), .newline]) := by
    rw [environmentLines, htext, hend, transduce_append (transduce_append (transduce_append hvalue
      (lex_end (.inr (.inl rfl)) hexport)) (lex_name h)) (lex_end (.inr (.inl rfl)) hnewline)]
    simp
  have hparse : transduce parseStep .start
      [.word (lits "export"), .word (entry.1.map .lit), .newline] =
      some (.start, [command [lits "export", entry.1.map .lit]]) := rfl
  rw [compile_eq_some_iff]
  exact ⟨_, hlex, transduce_append (parse_assignment h entry.2) hparse⟩

/-- The names that are passed on are names of variables. -/
theorem isName_of_allowed {environ : List CStr} {entry : CStr × CStr}
    (h : entry ∈ allowedEnvironment environ) : IsName entry.1 := by
  have hvalid : umValidEnvironmentName entry.1 = true := by
    have hfilter := (List.mem_filter.1 h).2
    simp only [Bool.and_eq_true] at hfilter
    exact hfilter.1.1
  unfold umValidEnvironmentName at hvalid
  split at hvalid
  · cases hvalid
  · rename_i c cs hname
    simp only [Bool.and_eq_true, Bool.or_eq_true, decide_eq_true_eq, List.all_eq_true] at hvalid
    refine ⟨c, cs, hname, ?_, ?_⟩
    · simpa [isNameStart, or_comm] using hvalid.1
    · intro d hd
      simpa [isNameChar, or_comm] using hvalid.2 d hd

theorem compile_flatMap {α : Type*} {text : α → CStr} {scripts : α → List Script} {xs : List α}
    (h : ∀ x ∈ xs, compile (text x) = some (scripts x)) :
    compile (xs.flatMap text) = some (xs.flatMap scripts) := by
  induction xs with
  | nil => rfl
  | cons x xs ih =>
    rw [List.flatMap_cons, List.flatMap_cons]
    exact compile_append (h x List.mem_cons_self) (ih fun y hy => h y (List.mem_cons_of_mem x hy))

/-! ### The binds -/

/-- The end of the guest where a mount fails. -/
def orFail (a : Script) : Script := .or a (command [lits "um_fail", lits "125"])

/-- The commands for a bind. -/
def bindScripts (bind : Bind) : List Script :=
  orFail (command [lits "mount", lits "--bind", quoteWord bind.sourceGuest,
    quoteWord bind.guest]) ::
  if bind.readonly then
    [orFail (command [lits "mount", lits "-o", lits "remount,bind,ro", quoteWord bind.guest])]
  else []

theorem lex_orFail : transduce lexStep .start (' ' :: str "|| um_fail 125\n") =
    some (.start, [.op .orIf, .word (lits "um_fail"), .word (lits "125"), .newline]) := by
  repeat first | rw [str_ofList] | rw [lits_ofList]
  rfl

theorem compile_bindLines (bind : Bind) : compile (bindLines bind) = some (bindScripts bind) := by
  have hback : str " || um_fail 125\n" = ' ' :: str "|| um_fail 125\n" := by
    rw [str_ofList, str_ofList]
  have hbind : compile (str "mount --bind " ++ umWriteShellWord bind.sourceGuest ++ str " " ++
      umWriteShellWord bind.guest ++ str " || um_fail 125\n") =
      some [orFail (command [lits "mount", lits "--bind", quoteWord bind.sourceGuest,
        quoteWord bind.guest])] := by
    have hfront : transduce lexStep .start (str "mount --bind ") =
        some (.start, [.word (lits "mount"), .word (lits "--bind")]) := by
      repeat first | rw [str_ofList] | rw [lits_ofList]
      rfl
    have hparse : transduce parseStep .start [.word (lits "mount"), .word (lits "--bind"),
        .word (quoteWord bind.sourceGuest), .word (quoteWord bind.guest), .op .orIf,
        .word (lits "um_fail"), .word (lits "125"), .newline] =
        some (.start, [orFail (command [lits "mount", lits "--bind", quoteWord bind.sourceGuest,
          quoteWord bind.guest])]) := rfl
    rw [compile_eq_some_iff, hback]
    exact ⟨_, lex_hole (.inl rfl) (lex_hole (.inl rfl) hfront rfl) lex_orFail, hparse⟩
  have hremount : compile (str "mount -o remount,bind,ro " ++ umWriteShellWord bind.guest ++
      str " || um_fail 125\n") =
      some [orFail (command [lits "mount", lits "-o", lits "remount,bind,ro",
        quoteWord bind.guest])] := by
    have hfront : transduce lexStep .start (str "mount -o remount,bind,ro ") =
        some (.start, [.word (lits "mount"), .word (lits "-o"),
          .word (lits "remount,bind,ro")]) := by
      repeat first | rw [str_ofList] | rw [lits_ofList]
      rfl
    have hparse : transduce parseStep .start [.word (lits "mount"), .word (lits "-o"),
        .word (lits "remount,bind,ro"), .word (quoteWord bind.guest), .op .orIf,
        .word (lits "um_fail"), .word (lits "125"), .newline] =
        some (.start, [orFail (command [lits "mount", lits "-o", lits "remount,bind,ro",
          quoteWord bind.guest])]) := rfl
    rw [compile_eq_some_iff, hback]
    exact ⟨_, lex_hole (.inl rfl) hfront lex_orFail, hparse⟩
  rw [bindLines, bindScripts]
  split_ifs
  · exact compile_append hbind hremount
  · rw [List.append_nil]
    exact hbind

/-! ### The network -/

/-- The commands for IPv6. -/
def ipv6Scripts (address gateway : Word) : List Script :=
  [silent [lits "ip", lits "-6", lits "addr", lits "add", address, lits "dev", lits "vec0"],
    silent [lits "ip", lits "-6", lits "route", lits "add", lits "default", lits "via", gateway,
      lits "dev", lits "vec0"]]

/-- The word of the IPv6 address. -/
def ipv6Word (config : Config) : Word :=
  if config.netIpv6Addr ≠ [] then
    quoteWord config.netIpv6Addr ++ if '/' ∈ config.netIpv6Addr then [] else lits "/64"
  else lits "fd00::2/64"

/-- The word of the IPv6 gateway. -/
def ipv6GatewayWord (config : Config) : Word :=
  if config.netIpv6Gw ≠ [] then quoteWord config.netIpv6Gw else lits "fe80::1"

/-- The commands of `um_net_auto` in front of DHCP. -/
def netChecks : List Script :=
  [.or (command [lits "[", lits "-e", lits "/proc/net/dev", lits "]"])
      (command [lits "return", lits "0"]),
    .ite (block [.not (command [lits "grep", lits "-q", quoteWord (str "^ *vec0:"),
        lits "/proc/net/dev"])])
      (block [command [lits "printf", quoteWord (str "%s\\n"),
          quoteWord (str "neoproot-um: --net-auto: guest has no vec0")],
        command [lits "return", lits "0"]]) .skip,
    silent [lits "ip", lits "link", lits "set", lits "vec0", lits "up"]]

/-- DHCP. -/
def dhcp : Script :=
  block [.and (mute [lits "command", lits "-v", lits "udhcpc"])
    (mute [lits "udhcpc", lits "-n", lits "-q", lits "-t", lits "3", lits "-T", lits "1",
      lits "-i", lits "vec0"])]

/-- The commands that set the addresses without DHCP. -/
def staticScripts (address gateway : Word) : List Script :=
  [silent [lits "ip", lits "addr", lits "add", address, lits "dev", lits "vec0"],
    silent [lits "ip", lits "route", lits "add", lits "default", lits "via", gateway, lits "dev",
      lits "vec0"]]

/-- `um_net_auto`, from the words of the addresses. -/
def netCommands (address gateway : Word) (ipv6 : Option (Word × Word)) : List Script :=
  netChecks ++ [.ite dhcp (block [command [lits ":"]]) (block (staticScripts address gateway))] ++
    match ipv6 with
    | none => []
    | some (address, gateway) => ipv6Scripts address gateway

/-- The words of the IPv6 addresses, where they are set. -/
def ipv6Words (config : Config) : Option (Word × Word) :=
  if config.netIpv6 then some (ipv6Word config, ipv6GatewayWord config) else none

/-- `um_net_auto`. -/
def netBody (config : Config) : Script :=
  block (netCommands (quoteWord config.netAddr ++ lits "/24") (quoteWord config.netGateway)
    (ipv6Words config))

/-- The commands for the network. -/
def netScripts (config : Config) : List Script :=
  if config.networkAuto then
    [.define (str "um_net_auto") (netBody config), command [lits "um_net_auto"]]
  else []

/-- The text of `um_net_auto` in front of the IPv4 address. -/
def netFront : CStr :=
  str "um_net_auto() \x7b\n" ++
  str "    [ -e /proc/net/dev ] || return 0\n" ++
  str "    if ! grep -q '^ *vec0:' /proc/net/dev; then\n" ++
  str "        printf '%s\\n' 'neoproot-um: --net-auto: guest has no vec0'\n" ++
  str "        return 0\n" ++
  str "    fi\n" ++
  str "    ip link set vec0 up 2>/dev/null\n" ++
  str "    if command -v udhcpc >/dev/null 2>&1 &&\n" ++
  str "       udhcpc -n -q -t 3 -T 1 -i vec0 >/dev/null 2>&1; then\n" ++
  str "        :\n" ++
  str "    else\n" ++
  str "        ip addr add "

/-- The tokens in front of the IPv4 address. -/
def netTokens : List Token := ((transduce lexStep .start netFront).map Prod.snd).getD []

/-- The end of the lines about the interface. -/
def deviceTokens : List Token :=
  [.word (lits "dev"), .word (lits "vec0"), .number '2', .op .great, .word (lits "/dev/null"),
    .newline]

theorem lex_device : transduce lexStep .start (' ' :: str "dev vec0 2>/dev/null\n") =
    some (.start, deviceTokens) := by
  repeat first | rw [str_ofList] | rw [lits_ofList]
  rfl

/-- The tokens of the lines about IPv6. -/
def ipv6Tokens (address gateway : Word) : List Token :=
  [.word (lits "ip"), .word (lits "-6"), .word (lits "addr"), .word (lits "add")] ++
    .word address :: deviceTokens ++
  ([.word (lits "ip"), .word (lits "-6"), .word (lits "route"), .word (lits "add"),
    .word (lits "default"), .word (lits "via")] ++ .word gateway :: deviceTokens)

/-- The reader of tokens in the last part of the conditional. -/
def staticParser (scripts : List Script) : Parser :=
  ⟨[(.elsePart dhcp (block [command [lits ":"]]) false, .after netChecks),
    (.body (str "um_net_auto"), .start)], .after scripts⟩

/-- The reader of tokens in the function. -/
def netParser (scripts : List Script) : Parser :=
  ⟨[(.body (str "um_net_auto"), .start)], .after scripts⟩

theorem parse_netTokens (address : Word) :
    transduce parseStep .start (netTokens ++ .word address :: deviceTokens) =
      some (staticParser [silent [lits "ip", lits "addr", lits "add", address, lits "dev",
        lits "vec0"]], []) := by
  have hfront : transduce parseStep .start netTokens = some (⟨(staticParser []).stack,
      { Level.start with pending := .simple [lits "ip", lits "addr", lits "add"] [] }⟩, []) := by
    rw [netTokens, netFront]
    repeat first | rw [str_ofList] | rw [lits_ofList]
    decide +kernel
  exact transduce_append hfront rfl

theorem parse_gateway (address gateway : Word) :
    transduce parseStep (staticParser [silent [lits "ip", lits "addr", lits "add", address,
        lits "dev", lits "vec0"]])
      ([.word (lits "ip"), .word (lits "route"), .word (lits "add"), .word (lits "default"),
        .word (lits "via")] ++ .word gateway :: deviceTokens) =
      some (staticParser (staticScripts address gateway), []) := rfl

theorem parse_fi (address gateway : Word) :
    transduce parseStep (staticParser (staticScripts address gateway))
        [.word (lits "fi"), .newline] =
      some (netParser (netCommands address gateway none), []) := rfl

theorem parse_ipv6Tokens (scripts : List Script) (address gateway : Word) :
    transduce parseStep (netParser scripts) (ipv6Tokens address gateway) =
      some (netParser (scripts ++ ipv6Scripts address gateway), []) := by
  have haddress : transduce parseStep (netParser scripts)
      ([.word (lits "ip"), .word (lits "-6"), .word (lits "addr"), .word (lits "add")] ++
        .word address :: deviceTokens) =
      some (netParser (scripts ++ [silent [lits "ip", lits "-6", lits "addr", lits "add", address,
        lits "dev", lits "vec0"]]), []) := rfl
  have hgateway : ∀ scripts, transduce parseStep (netParser scripts)
      ([.word (lits "ip"), .word (lits "-6"), .word (lits "route"), .word (lits "add"),
        .word (lits "default"), .word (lits "via")] ++ .word gateway :: deviceTokens) =
      some (netParser (scripts ++ [silent [lits "ip", lits "-6", lits "route", lits "add",
        lits "default", lits "via", gateway, lits "dev", lits "vec0"]]), []) := fun _ => rfl
  rw [ipv6Tokens, transduce_append haddress (hgateway _), List.append_assoc]
  rfl

theorem parse_netEnd (scripts : List Script) :
    transduce parseStep (netParser scripts)
        [.word (lits "\x7d"), .newline, .word (lits "um_net_auto"), .newline] =
      some (.start, [.define (str "um_net_auto") (block scripts), command [lits "um_net_auto"]]) :=
  rfl

/-- A mask behind a quoted address. -/
theorem lex_slash (value : CStr) {s : String} {digits : CStr} (hs : str s = '/' :: digits)
    (hdigits : digits.all isNameChar = true) :
    transduce lexStep .start (umWriteShellWord value ++ str s) =
      some (⟨.plain, some (quoteWord value ++ lits s)⟩, []) := by
  have hslash : transduce lexStep ⟨.plain, some (quoteWord value)⟩ ['/'] =
      some (⟨.plain, some (quoteWord value ++ [.lit '/'])⟩, []) := rfl
  have hmask := transduce_append (transduce_append (lex_quote value none) hslash)
    (lex_nameChars (List.all_eq_true.1 hdigits) _)
  rw [lits, hs, List.map_cons]
  rw [List.append_assoc, List.append_assoc] at hmask
  exact hmask

theorem lex_ipv6Word (config : Config) :
    transduce lexStep .start (if config.netIpv6Addr ≠ [] then
        umWriteShellWord config.netIpv6Addr ++
          if '/' ∈ config.netIpv6Addr then [] else str "/64"
      else str "fd00::2/64") = some (⟨.plain, some (ipv6Word config)⟩, []) := by
  have hfixed : transduce lexStep .start (str "fd00::2/64") =
      some (⟨.plain, some (lits "fd00::2/64")⟩, []) := by
    repeat first | rw [str_ofList] | rw [lits_ofList]
    rfl
  rw [ipv6Word]
  split_ifs
  · rw [List.append_nil, List.append_nil]
    exact lex_quote _ none
  · have hmask : str "/64" = ['/', '6', '4'] := str_ofList _
    exact lex_slash _ hmask rfl
  · exact hfixed

theorem lex_ipv6GatewayWord (config : Config) :
    transduce lexStep .start (if config.netIpv6Gw ≠ [] then umWriteShellWord config.netIpv6Gw
      else str "fe80::1") = some (⟨.plain, some (ipv6GatewayWord config)⟩, []) := by
  have hfixed : transduce lexStep .start (str "fe80::1") =
      some (⟨.plain, some (lits "fe80::1")⟩, []) := by
    repeat first | rw [str_ofList] | rw [lits_ofList]
    rfl
  rw [ipv6GatewayWord]
  split_ifs
  · exact lex_quote _ none
  · exact hfixed

theorem lex_ipv6Lines (config : Config) :
    transduce lexStep .start (ipv6Lines config) =
      some (.start, ipv6Tokens (ipv6Word config) (ipv6GatewayWord config)) := by
  have hdevice : str " dev vec0 2>/dev/null\n" = ' ' :: str "dev vec0 2>/dev/null\n" := by
    rw [str_ofList, str_ofList]
  have hfirst : transduce lexStep .start (str "    ip -6 addr add ") =
      some (.start, [.word (lits "ip"), .word (lits "-6"), .word (lits "addr"),
        .word (lits "add")]) := by
    repeat first | rw [str_ofList] | rw [lits_ofList]
    rfl
  have hsecond : transduce lexStep .start (str "    ip -6 route add default via ") =
      some (.start, [.word (lits "ip"), .word (lits "-6"), .word (lits "route"),
        .word (lits "add"), .word (lits "default"), .word (lits "via")]) := by
    repeat first | rw [str_ofList] | rw [lits_ofList]
    rfl
  have haddress := lex_word (lex_ipv6Word config) (.inl rfl) hfirst lex_device
  have hgateway := lex_word (lex_ipv6GatewayWord config) (.inl rfl) hsecond lex_device
  have htext := transduce_append haddress hgateway
  rw [ipv6Lines, hdevice, ipv6Tokens, ← htext]
  simp only [List.append_assoc]

/-- The tokens of IPv6, where it is set. -/
theorem lex_parse_ipv6 (config : Config) (address gateway : Word) :
    ∃ tokens, transduce lexStep .start (if config.netIpv6 then ipv6Lines config else []) =
        some (.start, tokens) ∧
      transduce parseStep (netParser (netCommands address gateway none)) tokens =
        some (netParser (netCommands address gateway (ipv6Words config)), []) := by
  by_cases h : config.netIpv6 = true
  · refine ⟨_, by rw [if_pos h, lex_ipv6Lines], ?_⟩
    rw [parse_ipv6Tokens, ipv6Words, if_pos h, netCommands, List.append_nil]
    rfl
  · exact ⟨[], by rw [if_neg h]; rfl, by rw [ipv6Words, if_neg h]; rfl⟩

/-- The shell reads the network part. -/
theorem compile_net (config : Config) :
    compile (umWriteNetAuto config) = some (netScripts config) := by
  by_cases hauto : config.networkAuto = true
  · have hdevice : str " dev vec0 2>/dev/null\n" = ' ' :: str "dev vec0 2>/dev/null\n" := by
      rw [str_ofList, str_ofList]
    have hmask : str "/" ++ netMask = str "/24" := by
      rw [netMask, str_ofList, str_ofList, str_ofList]
      rfl
    have hslash : str "/24" = ['/', '2', '4'] := str_ofList _
    have hfront : transduce lexStep .start netFront = some (.start, netTokens) := by
      rw [netTokens, netFront]
      repeat rw [str_ofList]
      decide +kernel
    have hvia : transduce lexStep .start (str "        ip route add default via ") =
        some (.start, [.word (lits "ip"), .word (lits "route"), .word (lits "add"),
          .word (lits "default"), .word (lits "via")]) := by
      repeat first | rw [str_ofList] | rw [lits_ofList]
      rfl
    have hfi : transduce lexStep .start (str "    fi\n") =
        some (.start, [.word (lits "fi"), .newline]) := by
      repeat first | rw [str_ofList] | rw [lits_ofList]
      rfl
    have hend : transduce lexStep .start (str "\x7d\num_net_auto\n") =
        some (.start, [.word (lits "\x7d"), .newline, .word (lits "um_net_auto"), .newline]) := by
      repeat first | rw [str_ofList] | rw [lits_ofList]
      rfl
    obtain ⟨tokens, hlex, hparse⟩ := lex_parse_ipv6 config
      (quoteWord config.netAddr ++ lits "/24") (quoteWord config.netGateway)
    have haddress := lex_word (lex_slash config.netAddr hslash rfl) (.inl rfl) hfront
      lex_device
    have hgateway := @lex_hole _ _ config.netGateway _ _ _ _ (.inl rfl) hvia lex_device
    have htext : umWriteNetAuto config =
        netFront ++ (umWriteShellWord config.netAddr ++ str "/24") ++
          ' ' :: str "dev vec0 2>/dev/null\n" ++
        (str "        ip route add default via " ++ quote config.netGateway ++
          ' ' :: str "dev vec0 2>/dev/null\n") ++
        str "    fi\n" ++ (if config.netIpv6 then ipv6Lines config else []) ++
        str "\x7d\num_net_auto\n" := by
      rw [umWriteNetAuto, if_pos hauto, netFront, ← hmask, ← hdevice, umWriteShellWord_eq,
        umWriteShellWord_eq]
      simp only [List.append_assoc]
    rw [compile_eq_some_iff, htext, netScripts, if_pos hauto]
    refine ⟨_, transduce_append (transduce_append (transduce_append (transduce_append haddress
      hgateway) hfi) hlex) hend, ?_⟩
    exact transduce_append (transduce_append (transduce_append (transduce_append
      (parse_netTokens _) (parse_gateway _ _)) (parse_fi _ _)) hparse) (parse_netEnd _)
  · rw [umWriteNetAuto, if_neg hauto, netScripts, if_neg hauto, compile_nil]

/-! ### The command -/

/-- `um_session_leader`. -/
def leaderBody : Script :=
  block [.ite (block [mute [lits "command", lits "-v", lits "setsid"]])
    (block [command [lits "setsid", lits "-c", quotedParam "@"]])
    (block [command [quotedParam "@"]])]

/-- What follows the command. -/
def reportScripts (statusPath : CStr) (ext4Rootfs : Bool) : List Script :=
  if ext4Rootfs then [command [lits "exit", [.param (str "?") false]]]
  else
    [.simple ⟨[(str "rc", [.param (str "?") false])], [], []⟩,
      .simple ⟨[], [lits "printf", quoteWord (str "%s\\n"), quotedParam "rc"],
        [⟨none, .great, quoteWord statusPath⟩]⟩,
      command [lits "um_stop"]]

/-- The working directory and the command. -/
def ending (r : Request) : List Script :=
  [.or (command [lits "cd", quoteWord r.cwd]) (command [lits "exit", lits "126"]),
    .define (str "um_session_leader") leaderBody,
    command ([lits "set", lits "--"] ++ r.guestArgv.map quoteWord),
    command [lits "um_session_leader", quotedParam "@"]] ++
  reportScripts r.statusPath r.ext4Rootfs

theorem compile_cd (cwd : CStr) :
    compile (str "cd " ++ umWriteShellWord cwd ++ str " || exit 126\n") =
      some [.or (command [lits "cd", quoteWord cwd]) (command [lits "exit", lits "126"])] := by
  have hback : str " || exit 126\n" = ' ' :: str "|| exit 126\n" := by
    rw [str_ofList, str_ofList]
  have hfront : transduce lexStep .start (str "cd ") = some (.start, [.word (lits "cd")]) := by
    repeat first | rw [str_ofList] | rw [lits_ofList]
    rfl
  have hexit : transduce lexStep .start (' ' :: str "|| exit 126\n") =
      some (.start, [.op .orIf, .word (lits "exit"), .word (lits "126"), .newline]) := by
    repeat first | rw [str_ofList] | rw [lits_ofList]
    rfl
  have hparse : transduce parseStep .start [.word (lits "cd"), .word (quoteWord cwd), .op .orIf,
      .word (lits "exit"), .word (lits "126"), .newline] =
      some (.start, [.or (command [lits "cd", quoteWord cwd])
        (command [lits "exit", lits "126"])]) := rfl
  rw [compile_eq_some_iff, hback]
  exact ⟨_, lex_hole (.inl rfl) hfront hexit, hparse⟩

theorem compile_sessionLeader :
    compile sessionLeader = some [.define (str "um_session_leader") leaderBody] := by
  rw [sessionLeader, leaderBody]
  repeat first | rw [str_ofList] | rw [lits_ofList]
  decide +kernel

theorem compile_set (guestArgv : List CStr) :
    compile (str "set --" ++ (guestArgv.flatMap fun word => str " " ++ umWriteShellWord word) ++
      str "\n") = some [command ([lits "set", lits "--"] ++ guestArgv.map quoteWord)] := by
  have hset : transduce lexStep .start (str "set --") =
      some (⟨.plain, some (lits "--")⟩, [.word (lits "set")]) := by
    repeat first | rw [str_ofList] | rw [lits_ofList]
    rfl
  have hblank : str " " = [' '] := str_ofList _
  have hnewline : str "\n" = ['\n'] := str_ofList _
  have hlex : transduce lexStep .start (str "set --" ++
      (guestArgv.flatMap fun word => str " " ++ umWriteShellWord word) ++ str "\n") =
      some (.start, [.word (lits "set"), .word (lits "--")] ++
        (guestArgv.map quoteWord).map .word ++
        [.newline]) := by
    rw [hblank, hnewline, List.append_assoc]
    have hargs := transduce_append hset (lex_quotes guestArgv (lits "--"))
    simpa [umWriteShellWord_eq, Function.comp_def] using hargs
  have hstart : transduce parseStep .start [.word (lits "set"), .word (lits "--")] =
      some (⟨[], { Level.start with pending := .simple [lits "set", lits "--"] [] }⟩, []) := rfl
  have hwords : transduce parseStep .start
      ([.word (lits "set"), .word (lits "--")] ++ (guestArgv.map quoteWord).map .word) =
      some (⟨[], { Level.start with
        pending := .simple ([lits "set", lits "--"] ++ guestArgv.map quoteWord) [] }⟩, []) :=
    transduce_append hstart (parse_words [] .start rfl [lits "set", lits "--"] _ [])
  have hend : transduce parseStep ⟨[], { Level.start with
      pending := .simple ([lits "set", lits "--"] ++ guestArgv.map quoteWord) [] }⟩ [.newline] =
      some (.start, [command ([lits "set", lits "--"] ++ guestArgv.map quoteWord)]) := rfl
  rw [compile_eq_some_iff]
  exact ⟨_, hlex, transduce_append hwords hend⟩

theorem compile_status (statusPath : CStr) :
    compile (str "printf '%s\\n' \"$rc\" > " ++ umWriteShellWord statusPath ++ str "\n") =
      some [.simple ⟨[], [lits "printf", quoteWord (str "%s\\n"), quotedParam "rc"],
        [⟨none, .great, quoteWord statusPath⟩]⟩] := by
  have hnewline : str "\n" = ['\n'] := str_ofList _
  have hfront : transduce lexStep .start (str "printf '%s\\n' \"$rc\" > ") =
      some (.start, [.word (lits "printf"), .word (quoteWord (str "%s\\n")),
        .word (quotedParam "rc"), .op .great]) := by
    repeat first | rw [str_ofList] | rw [lits_ofList]
    rfl
  have hend : transduce lexStep .start ['\n'] = some (.start, [.newline]) := rfl
  have hparse : transduce parseStep .start [.word (lits "printf"),
      .word (quoteWord (str "%s\\n")), .word (quotedParam "rc"), .op .great,
      .word (quoteWord statusPath), .newline] =
      some (.start, [.simple ⟨[], [lits "printf", quoteWord (str "%s\\n"), quotedParam "rc"],
        [⟨none, .great, quoteWord statusPath⟩]⟩]) := rfl
  rw [compile_eq_some_iff, hnewline]
  exact ⟨_, lex_hole (.inr (.inl rfl)) hfront hend, hparse⟩

theorem compile_report (statusPath : CStr) (ext4Rootfs : Bool) :
    compile (if ext4Rootfs then str "exit $?\n"
      else str "rc=$?\n" ++ (str "printf '%s\\n' \"$rc\" > " ++ umWriteShellWord statusPath ++
        str "\n") ++ str "um_stop\n") = some (reportScripts statusPath ext4Rootfs) := by
  cases ext4Rootfs with
  | true =>
    have hexit : compile (str "exit $?\n") =
        some [command [lits "exit", [.param (str "?") false]]] := by
      repeat first | rw [str_ofList] | rw [lits_ofList]
      rfl
    exact hexit
  | false =>
    have hrc : compile (str "rc=$?\n") =
        some [.simple ⟨[(str "rc", [.param (str "?") false])], [], []⟩] := by
      repeat first | rw [str_ofList] | rw [lits_ofList]
      rfl
    have hstop : compile (str "um_stop\n") = some [command [lits "um_stop"]] := by
      repeat first | rw [str_ofList] | rw [lits_ofList]
      rfl
    exact compile_append (compile_append hrc (compile_status statusPath)) hstop

/-- The shell reads the end of the script. -/
theorem compile_umWriteCommand (r : Request) :
    compile (umWriteCommand r.cwd r.statusPath r.ext4Rootfs r.guestArgv) = some (ending r) := by
  have hleader : compile (str "um_session_leader \"$@\"\n") =
      some [command [lits "um_session_leader", quotedParam "@"]] := by
    repeat first | rw [str_ofList] | rw [lits_ofList]
    rfl
  have hcompile := compile_append (compile_append (compile_append (compile_append
    (compile_cd r.cwd) compile_sessionLeader) (compile_set r.guestArgv)) hleader)
    (compile_report r.statusPath r.ext4Rootfs)
  rw [umWriteCommand, hcompile, ending]
  rfl

/-! ### The whole script -/

/-- The commands of the loopback interface and of the variables that every command gets. -/
@[irreducible] def fixedScripts : List Script := scriptsOf loopback ++ scriptsOf fixedEnvironment

/-- The commands in front of the guest's command. -/
def preparation (r : Request) : List Script :=
  startScripts r.statusPath r.ext4Rootfs r.ext4Binds ++ fixedScripts ++
    (allowedEnvironment r.environ).flatMap environmentScripts ++
      (if r.ext4Rootfs then [] else r.config.binds.flatMap bindScripts) ++ netScripts r.config

theorem compile_umWriteBinds (binds : List Bind) (ext4Rootfs : Bool) :
    compile (umWriteBinds binds ext4Rootfs) =
      some (if ext4Rootfs then [] else binds.flatMap bindScripts) := by
  cases ext4Rootfs with
  | true => exact compile_nil
  | false => exact compile_flatMap fun bind _ => compile_bindLines bind

/-- The shell reads what stands in front of the command. -/
theorem compile_umWritePreparation (r : Request) :
    compile (umWritePreparation r) = some (preparation r) := by
  have henvironment : compile (umWriteEnvironment r.environ) =
      some ((allowedEnvironment r.environ).flatMap environmentScripts) :=
    compile_flatMap fun entry hentry => compile_environmentLines (isName_of_allowed hentry)
  have hcompile := compile_append (compile_append (compile_append (compile_append (compile_append
    (compile_start r.statusPath r.ext4Rootfs r.ext4Binds) readsPlain_loopback.1)
    readsPlain_fixedEnvironment.1) henvironment)
    (compile_umWriteBinds r.config.binds r.ext4Rootfs)) (compile_net r.config)
  rw [umWritePreparation, hcompile, preparation, fixedScripts,
    List.append_assoc (startScripts _ _ _)]

/-- The shell reads the wrapper as the commands that are meant. -/
theorem compile_umWriteWrapper (r : Request) :
    compile (umWriteWrapper r) = some (preparation r ++ ending r) :=
  compile_append (compile_umWritePreparation r) (compile_umWriteCommand r)

end NeoProot.Wrapper
