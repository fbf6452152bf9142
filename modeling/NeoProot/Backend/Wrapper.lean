import NeoProot.Basic

/-!
# The wrapper of the UM supervisor

The guest starts with a script that the supervisor writes: it mounts what the kernel does not
mount, sets the environment and the binds up, and runs the command.  Strings of the caller
stand in it as shell words.

## Main definitions

* `umWriteShellWord` — a string as a shell word.
* `umWriteEnvironment`, `umWriteBinds`, `umWriteNetAuto`, `umWriteCommand` — parts of the script.
* `umWriteWrapper` — the script for one command.
-/

namespace NeoProot.Wrapper

/-- `um_write_shell_word`. -/
def umWriteShellWord (value : CStr) : CStr :=
  '\'' :: (value.flatMap fun c => if c = '\'' then str "'\\''" else [c]) ++ ['\'']

/-- `um_valid_environment_name`. -/
def umValidEnvironmentName (name : CStr) : Bool :=
  match name with
  | [] => false
  | c :: cs => (c = '_' || c.isAlpha) && cs.all fun c => c = '_' || c.isAlphanum

/-- `um_skip_environment_name`. -/
def umSkipEnvironmentName (name : CStr) : Bool :=
  [str "HOME", str "PATH", str "PWD", str "OLDPWD", str "TMPDIR", str "PREFIX",
    str "SHELL"].contains name ||
  [str "ANDROID_", str "LD_", str "NEOPROOT_", str "PROOT_", str "TERMUX_",
    str "UML_"].any fun start => start.isPrefixOf name

/-- `um_allow_environment_name`. -/
def umAllowEnvironmentName (name : CStr) : Bool :=
  [str "LANG", str "TERM", str "COLORTERM", str "TZ", str "USER", str "LOGNAME", str "EDITOR",
    str "VISUAL"].contains name ||
  (3 < name.length && (str "LC_").isPrefixOf name)

/-- The fields of `UmBind` that the wrapper is written from. -/
structure Bind where
  sourceGuest : CStr
  guest : CStr
  readonly : Bool
  deriving DecidableEq, Repr

/-- The fields of `UmConfig` that the wrapper is written from.  `net_mask` is always `24`. -/
structure Config where
  binds : List Bind
  networkAuto : Bool
  netAddr : CStr
  netGateway : CStr
  netIpv6 : Bool
  netIpv6Addr : CStr
  netIpv6Gw : CStr
  deriving DecidableEq, Repr

def netMask : CStr := str "24"

/-- The check that the init of an ext4 root mounts the binds. -/
def bindGate : CStr :=
  str "um_bind_declared=\n" ++
  str "if [ -r /run/neoproot/init-features ]; then\n" ++
  str "    while IFS= read -r um_line; do\n" ++
  str "        [ \"$um_line\" = \"feature=binds\" ] && um_bind_declared=1\n" ++
  str "    done < /run/neoproot/init-features\n" ++
  str "fi\n" ++
  str "if [ -z \"$um_bind_declared\" ]; then\n" ++
  str "    printf '%s\\n' 'UM_PROTOCOL_ERROR=binds-unsupported' >&2\n" ++
  str "    exit 125\n" ++
  str "fi\n"

/-- The end of the guest. -/
def stopFunction : CStr :=
  str "um_stop() \x7b\n" ++
  str "    sync 2>/dev/null\n" ++
  str "    poweroff -f 2>/dev/null\n" ++
  str "    reboot -f 2>/dev/null\n" ++
  str "    printf b > /proc/sysrq-trigger 2>/dev/null\n" ++
  str "    while :; do sleep 3600; done\n" ++
  str "\x7d\n"

/-- The mounts of the system's own file systems. -/
def systemMounts : CStr :=
  str "mount -t proc proc /proc 2>/dev/null || " ++
  str "test -r /proc/self/status || um_fail 125\n" ++
  str "mount -t sysfs sysfs /sys 2>/dev/null || " ++
  str "test -d /sys/kernel || um_fail 125\n" ++
  str "mount -t devtmpfs devtmpfs /dev 2>/dev/null || " ++
  str "test -c /dev/null || um_fail 125\n"

/-- The beginning of the script. -/
def umWriteStart (statusPath : CStr) (ext4Rootfs ext4Binds : Bool) : CStr :=
  if ext4Rootfs then str "#!/bin/sh\n" ++ if ext4Binds then bindGate else []
  else
    str "#!/bin/sh\n" ++
    (str "um_fail() \x7b printf '%s\\n' \"$1\" > " ++ umWriteShellWord statusPath ++
      str "; um_stop; \x7d\n") ++
    stopFunction ++ systemMounts

/-- The loopback interface. -/
def loopback : CStr :=
  str "if command -v ip >/dev/null 2>&1; then\n" ++
  str "    ip link set lo up 2>/dev/null\n" ++
  str "elif command -v ifconfig >/dev/null 2>&1; then\n" ++
  str "    ifconfig lo up 2>/dev/null\n" ++
  str "fi\n"

/-- The variables that every command gets. -/
def fixedEnvironment : CStr :=
  str "unset LD_PRELOAD LD_LIBRARY_PATH LD_BIND_NOW " ++
  str "NEOPROOT_MEMFD_LOADER NEOPROOT_UNSET_DONE " ++
  str "BASH_ENV ENV CDPATH IFS\n" ++
  str "HOME=/root\nexport HOME\n" ++
  str "TMPDIR=/tmp\nexport TMPDIR\n" ++
  str "PATH=/usr/local/sbin:/usr/local/bin:/usr/sbin:/usr/bin:/sbin:/bin\n" ++
  str "export PATH\n"

/-- The name and the value of a string of `environ`, where it has both. -/
def splitEntry (entry : CStr) : Option (CStr × CStr) :=
  if '=' ∈ entry then
    some (entry.takeWhile (· ≠ '='), (entry.dropWhile (· ≠ '=')).tail)
  else none

/-- The variables of `environ` that are passed on, in their order. -/
def allowedEnvironment (environ : List CStr) : List (CStr × CStr) :=
  (environ.filterMap splitEntry).filter fun (name, _) =>
    umValidEnvironmentName name && ! umSkipEnvironmentName name && umAllowEnvironmentName name

/-- One round of the loop over `environ`. -/
def environmentLines (entry : CStr × CStr) : CStr :=
  entry.1 ++ str "=" ++ umWriteShellWord entry.2 ++ str "\nexport " ++ entry.1 ++ str "\n"

/-- The loop over `environ`. -/
def umWriteEnvironment (environ : List CStr) : CStr :=
  (allowedEnvironment environ).flatMap environmentLines

/-- One round of the loop over the binds. -/
def bindLines (bind : Bind) : CStr :=
  str "mount --bind " ++ umWriteShellWord bind.sourceGuest ++ str " " ++
    umWriteShellWord bind.guest ++ str " || um_fail 125\n" ++
  if bind.readonly then
    str "mount -o remount,bind,ro " ++ umWriteShellWord bind.guest ++ str " || um_fail 125\n"
  else []

/-- The loop over the binds. -/
def umWriteBinds (binds : List Bind) (ext4Rootfs : Bool) : CStr :=
  if ext4Rootfs then [] else binds.flatMap bindLines

/-- The IPv6 part of the network setup. -/
def ipv6Lines (config : Config) : CStr :=
  str "    ip -6 addr add " ++
  (if config.netIpv6Addr ≠ [] then
    umWriteShellWord config.netIpv6Addr ++ if '/' ∈ config.netIpv6Addr then [] else str "/64"
  else str "fd00::2/64") ++
  str " dev vec0 2>/dev/null\n" ++
  str "    ip -6 route add default via " ++
  (if config.netIpv6Gw ≠ [] then umWriteShellWord config.netIpv6Gw else str "fe80::1") ++
  str " dev vec0 2>/dev/null\n"

/-- The setup of the guest side of the network. -/
def umWriteNetAuto (config : Config) : CStr :=
  if config.networkAuto then
    str "um_net_auto() \x7b\n" ++
    str "    [ -e /proc/net/dev ] || return 0\n" ++
    str "    if ! grep -q '^ *vec0:' /proc/net/dev; then\n" ++
    str "        printf '%s\\n' 'neoproot-um: --net-auto: guest has no vec0'\n" ++
    str "        return 0\n" ++
    str "    fi\n" ++
    str "    ip link set vec0 up 2>/dev/null\n" ++
    str "    if command -v udhcpc >/dev/null 2>&1 &&\n" ++
    str "       udhcpc -n -q -t 3 -T 1 -i vec0 >/dev/null 2>&1; then\n" ++
    str "        :\n" ++
    str "    else\n" ++
    str "        ip addr add " ++ umWriteShellWord config.netAddr ++ str "/" ++ netMask ++
      str " dev vec0 2>/dev/null\n" ++
    str "        ip route add default via " ++ umWriteShellWord config.netGateway ++
      str " dev vec0 2>/dev/null\n" ++
    str "    fi\n" ++
    (if config.netIpv6 then ipv6Lines config else []) ++
    str "\x7d\num_net_auto\n"
  else []

/-- The function that gives the command a controlling terminal. -/
def sessionLeader : CStr :=
  str "um_session_leader() \x7b\n" ++
  str "    if command -v setsid >/dev/null 2>&1; then\n" ++
  str "        setsid -c \"$@\"\n" ++
  str "    else\n" ++
  str "        \"$@\"\n" ++
  str "    fi\n" ++
  str "\x7d\n"

/-- The end of the script: the working directory and the command. -/
def umWriteCommand (cwd statusPath : CStr) (ext4Rootfs : Bool) (guestArgv : List CStr) : CStr :=
  (str "cd " ++ umWriteShellWord cwd ++ str " || exit 126\n") ++
  sessionLeader ++
  (str "set --" ++ (guestArgv.flatMap fun word => str " " ++ umWriteShellWord word) ++ str "\n") ++
  str "um_session_leader \"$@\"\n" ++
  if ext4Rootfs then str "exit $?\n"
  else
    str "rc=$?\n" ++
    (str "printf '%s\\n' \"$rc\" > " ++ umWriteShellWord statusPath ++ str "\n") ++
    str "um_stop\n"

/-- What the wrapper is written from. -/
structure Request where
  cwd : CStr
  statusPath : CStr
  config : Config
  ext4Rootfs : Bool
  ext4Binds : Bool
  environ : List CStr
  guestArgv : List CStr
  deriving DecidableEq, Repr

/-- What stands in front of the command. -/
def umWritePreparation (r : Request) : CStr :=
  umWriteStart r.statusPath r.ext4Rootfs r.ext4Binds ++ loopback ++ fixedEnvironment ++
    umWriteEnvironment r.environ ++ umWriteBinds r.config.binds r.ext4Rootfs ++
      umWriteNetAuto r.config

/-- `um_write_wrapper`, for one command. -/
def umWriteWrapper (r : Request) : CStr :=
  umWritePreparation r ++ umWriteCommand r.cwd r.statusPath r.ext4Rootfs r.guestArgv

end NeoProot.Wrapper
