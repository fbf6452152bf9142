import NeoProot.Syscall.Seccomp

/-!
# The lists of filtered system calls

The tracer and each of its extensions list the system calls they want to see, and
flag those they want to see again on the way out.

## Main definitions

* `prootSysnums`, `netlinkSysnums` — the lists of the tracer.
* `kompatSysnums` to `netlinkRouteSysnums` — the lists of the extensions.
-/

namespace NeoProot.Seccomp

/-- `FILTER_SYSEXIT`. -/
def filterSysexit : UInt64 := 1

/-! ### The names of `sysnums.list` that the lists use -/

namespace Sysnum

def accept : Sysnum := .other 10
def accept4 : Sysnum := .other 11
def access : Sysnum := .other 12
def acct : Sysnum := .other 13
def bind : Sysnum := .other 23
def brk : Sysnum := .other 26
def capset : Sysnum := .other 29
def chdir : Sysnum := .other 30
def chmod : Sysnum := .other 31
def chown : Sysnum := .other 32
def chown32 : Sysnum := .other 33
def chroot : Sysnum := .other 34
def clone : Sysnum := .other 40
def clone3 : Sysnum := .other 41
def close : Sysnum := .other 42
def closeRange : Sysnum := .other 43
def connect : Sysnum := .other 44
def creat : Sysnum := .other 46
def dup : Sysnum := .other 49
def dup2 : Sysnum := .other 50
def dup3 : Sysnum := .other 51
def epollCreate1 : Sysnum := .other 53
def epollPwait : Sysnum := .other 56
def eventfd2 : Sysnum := .other 60
def execve : Sysnum := .other 61
def execveat : Sysnum := .other 62
def faccessat : Sysnum := .other 65
def faccessat2 : Sysnum := .other 66
def fchdir : Sysnum := .other 72
def fchmod : Sysnum := .other 73
def fchmodat : Sysnum := .other 74
def fchmodat2 : Sysnum := .other 75
def fchown : Sysnum := .other 76
def fchown32 : Sysnum := .other 77
def fchownat : Sysnum := .other 78
def fsetxattr : Sysnum := .other 86
def ftruncate : Sysnum := .other 91
def ftruncate64 : Sysnum := .other 92
def futex : Sysnum := .other 93
def futimesat : Sysnum := .other 94
def getcwd : Sysnum := .other 100
def getdents : Sysnum := .other 101
def getdents64 : Sysnum := .other 102
def getegid : Sysnum := .other 103
def getegid32 : Sysnum := .other 104
def geteuid : Sysnum := .other 105
def geteuid32 : Sysnum := .other 106
def getgid : Sysnum := .other 107
def getgid32 : Sysnum := .other 108
def getgroups : Sysnum := .other 109
def getgroups32 : Sysnum := .other 110
def getpeername : Sysnum := .other 112
def getresgid : Sysnum := .other 120
def getresgid32 : Sysnum := .other 121
def getresuid : Sysnum := .other 122
def getresuid32 : Sysnum := .other 123
def getsockname : Sysnum := .other 127
def getsockopt : Sysnum := .other 128
def getuid : Sysnum := .other 131
def getuid32 : Sysnum := .other 132
def getxattr : Sysnum := .other 133
def inotifyAddWatch : Sysnum := .other 137
def inotifyInit1 : Sysnum := .other 139
def lchown : Sysnum := .other 156
def lchown32 : Sysnum := .other 157
def lgetxattr : Sysnum := .other 158
def link : Sysnum := .other 159
def linkat : Sysnum := .other 160
def listxattr : Sysnum := .other 162
def llistxattr : Sysnum := .other 163
def lremovexattr : Sysnum := .other 166
def lsetxattr : Sysnum := .other 168
def lstat : Sysnum := .other 169
def lstat64 : Sysnum := .other 170
def memfdCreate : Sysnum := .other 174
def mkdir : Sysnum := .other 177
def mkdirat : Sysnum := .other 178
def mknod : Sysnum := .other 179
def mknodat : Sysnum := .other 180
def mount : Sysnum := .other 187
def mountSetattr : Sysnum := .other 188
def msgctl : Sysnum := .other 199
def msgget : Sysnum := .other 200
def msgrcv : Sysnum := .other 201
def msgsnd : Sysnum := .other 202
def nameToHandleAt : Sysnum := .other 207
def oldlstat : Sysnum := .other 212
def oldstat : Sysnum := .other 214
def «open» : Sysnum := .other 216
def openat : Sysnum := .other 218
def openat2 : Sysnum := .other 219
def pipe2 : Sysnum := .other 227
def pivotRoot : Sysnum := .other 228
def prctl : Sysnum := .other 234
def prlimit64 : Sysnum := .other 238
def pselect6 : Sysnum := .other 243
def ptrace : Sysnum := .other 244
def readlink : Sysnum := .other 254
def readlinkat : Sysnum := .other 255
def recvfrom : Sysnum := .other 259
def recvmsg : Sysnum := .other 261
def removexattr : Sysnum := .other 263
def rename : Sysnum := .other 264
def renameat : Sysnum := .other 265
def renameat2 : Sysnum := .other 266
def rmdir : Sysnum := .other 269
def semctl : Sysnum := .other 293
def semget : Sysnum := .other 294
def semop : Sysnum := .other 295
def semtimedop : Sysnum := .other 296
def sendmsg : Sysnum := .other 301
def sendto : Sysnum := .other 302
def setdomainname : Sysnum := .other 307
def setfsgid : Sysnum := .other 308
def setfsgid32 : Sysnum := .other 309
def setfsuid : Sysnum := .other 310
def setfsuid32 : Sysnum := .other 311
def setgid : Sysnum := .other 312
def setgid32 : Sysnum := .other 313
def setgroups : Sysnum := .other 314
def setgroups32 : Sysnum := .other 315
def sethostname : Sysnum := .other 316
def setns : Sysnum := .other 318
def setregid : Sysnum := .other 321
def setregid32 : Sysnum := .other 322
def setresgid : Sysnum := .other 323
def setresgid32 : Sysnum := .other 324
def setresuid : Sysnum := .other 325
def setresuid32 : Sysnum := .other 326
def setreuid : Sysnum := .other 327
def setreuid32 : Sysnum := .other 328
def setrlimit : Sysnum := .other 329
def setuid : Sysnum := .other 333
def setuid32 : Sysnum := .other 334
def setxattr : Sysnum := .other 335
def shmat : Sysnum := .other 337
def shmctl : Sysnum := .other 338
def shmdt : Sysnum := .other 339
def shmget : Sysnum := .other 340
def signalfd4 : Sysnum := .other 346
def socket : Sysnum := .other 351
def socketcall : Sysnum := .other 352
def socketpair : Sysnum := .other 353
def stat : Sysnum := .other 356
def stat64 : Sysnum := .other 357
def statfs : Sysnum := .other 358
def statfs64 : Sysnum := .other 359
def swapoff : Sysnum := .other 362
def swapon : Sysnum := .other 363
def symlink : Sysnum := .other 364
def symlinkat : Sysnum := .other 365
def timerfdCreate : Sysnum := .other 381
def truncate : Sysnum := .other 386
def truncate64 : Sysnum := .other 387
def umount : Sysnum := .other 392
def umount2 : Sysnum := .other 393
def uname : Sysnum := .other 394
def unlink : Sysnum := .other 395
def unlinkat : Sysnum := .other 396
def unshare : Sysnum := .other 397
def uselib : Sysnum := .other 398
def utime : Sysnum := .other 401
def utimensat : Sysnum := .other 402
def utimes : Sysnum := .other 403
def wait4 : Sysnum := .other 410
def waitpid : Sysnum := .other 412

end Sysnum

open Sysnum

/-- `proot_sysnums`, without the two calls that only an Android build lists. -/
def prootSysnums : List FilteredSysnum := [
  ⟨accept, filterSysexit⟩, ⟨accept4, filterSysexit⟩, ⟨access, 0⟩, ⟨acct, 0⟩, ⟨bind, 0⟩,
  ⟨brk, filterSysexit⟩, ⟨chdir, filterSysexit⟩, ⟨close, 0⟩, ⟨closeRange, 0⟩, ⟨chmod, 0⟩,
  ⟨chown, 0⟩, ⟨chown32, 0⟩, ⟨chroot, 0⟩, ⟨clone, 0⟩, ⟨clone3, 0⟩, ⟨connect, 0⟩, ⟨creat, 0⟩,
  ⟨execve, filterSysexit⟩, ⟨execveat, filterSysexit⟩, ⟨faccessat, 0⟩,
  ⟨faccessat2, filterSysexit⟩, ⟨fchdir, filterSysexit⟩, ⟨fchmodat, 0⟩, ⟨fchmodat2, 0⟩,
  ⟨fchownat, 0⟩, ⟨fstatat64, 0⟩, ⟨futimesat, 0⟩, ⟨getcwd, filterSysexit⟩,
  ⟨getpeername, filterSysexit⟩, ⟨getsockname, filterSysexit⟩, ⟨getxattr, 0⟩,
  ⟨inotifyAddWatch, 0⟩, ⟨lchown, 0⟩, ⟨lchown32, 0⟩, ⟨lgetxattr, 0⟩, ⟨link, 0⟩, ⟨linkat, 0⟩,
  ⟨listxattr, 0⟩, ⟨llistxattr, 0⟩, ⟨lremovexattr, 0⟩, ⟨lsetxattr, 0⟩, ⟨lstat, 0⟩, ⟨lstat64, 0⟩,
  ⟨mkdir, 0⟩, ⟨mkdirat, 0⟩, ⟨mknod, 0⟩, ⟨mknodat, 0⟩, ⟨mount, filterSysexit⟩, ⟨mountSetattr, 0⟩,
  ⟨nameToHandleAt, 0⟩, ⟨newfstatat, 0⟩, ⟨oldlstat, 0⟩, ⟨oldstat, 0⟩, ⟨«open», 0⟩, ⟨openat, 0⟩,
  ⟨openat2, 0⟩, ⟨pivotRoot, filterSysexit⟩, ⟨prctl, 0⟩, ⟨prlimit64, filterSysexit⟩,
  ⟨ptrace, filterSysexit⟩, ⟨readlink, filterSysexit⟩, ⟨readlinkat, filterSysexit⟩,
  ⟨removexattr, 0⟩, ⟨rename, filterSysexit⟩, ⟨renameat, filterSysexit⟩,
  ⟨renameat2, filterSysexit⟩, ⟨rmdir, 0⟩, ⟨setrlimit, filterSysexit⟩, ⟨setxattr, 0⟩,
  ⟨socketcall, filterSysexit⟩, ⟨stat, 0⟩, ⟨stat64, 0⟩, ⟨statfs, filterSysexit⟩,
  ⟨statfs64, filterSysexit⟩, ⟨statx, filterSysexit⟩, ⟨swapoff, 0⟩, ⟨swapon, 0⟩, ⟨symlink, 0⟩,
  ⟨symlinkat, 0⟩, ⟨truncate, 0⟩, ⟨truncate64, 0⟩, ⟨umount, filterSysexit⟩,
  ⟨umount2, filterSysexit⟩, ⟨unshare, filterSysexit⟩, ⟨setns, filterSysexit⟩,
  ⟨uname, filterSysexit⟩, ⟨unlink, 0⟩, ⟨unlinkat, 0⟩, ⟨uselib, 0⟩, ⟨utime, filterSysexit⟩,
  ⟨utimensat, 0⟩, ⟨utimes, 0⟩, ⟨wait4, filterSysexit⟩, ⟨waitpid, filterSysexit⟩]

/-- The entries of `proot_sysnums` below `__ANDROID__`. -/
def androidSysnums : List FilteredSysnum := [
  ⟨ioctl, filterSysexit⟩, ⟨memfdCreate, 0⟩]

/-- `netlink_sysnums`, merged where the host refuses `AF_NETLINK`. -/
def netlinkSysnums : List FilteredSysnum := [
  ⟨close, 0⟩, ⟨recvfrom, 0⟩, ⟨recvmsg, 0⟩, ⟨sendmsg, 0⟩, ⟨sendto, 0⟩, ⟨socket, filterSysexit⟩]

/-- `filtered_sysnums` of kompat. -/
def kompatSysnums : List FilteredSysnum := [
  ⟨accept4, filterSysexit⟩, ⟨dup3, filterSysexit⟩, ⟨epollCreate1, filterSysexit⟩,
  ⟨epollPwait, 0⟩, ⟨eventfd2, filterSysexit⟩, ⟨execve, filterSysexit⟩, ⟨faccessat, 0⟩,
  ⟨fchmodat, 0⟩, ⟨fchownat, 0⟩, ⟨fcntl, filterSysexit⟩, ⟨fstatat64, 0⟩, ⟨futimesat, 0⟩,
  ⟨futex, 0⟩, ⟨inotifyInit1, filterSysexit⟩, ⟨linkat, 0⟩, ⟨mkdirat, 0⟩, ⟨mknodat, 0⟩,
  ⟨newfstatat, 0⟩, ⟨«open», filterSysexit⟩, ⟨openat, filterSysexit⟩, ⟨pipe2, filterSysexit⟩,
  ⟨pselect6, 0⟩, ⟨readlinkat, 0⟩, ⟨renameat, 0⟩, ⟨setdomainname, filterSysexit⟩,
  ⟨sethostname, filterSysexit⟩, ⟨signalfd4, filterSysexit⟩, ⟨socket, filterSysexit⟩,
  ⟨socketpair, filterSysexit⟩, ⟨symlinkat, 0⟩, ⟨timerfdCreate, filterSysexit⟩,
  ⟨uname, filterSysexit⟩, ⟨unlinkat, 0⟩]

/-- `filtered_sysnums` of fake_id0. -/
def fakeId0Sysnums : List FilteredSysnum := [
  ⟨capset, filterSysexit⟩, ⟨chmod, filterSysexit⟩, ⟨chown, filterSysexit⟩,
  ⟨chown32, filterSysexit⟩, ⟨chroot, filterSysexit⟩, ⟨execve, filterSysexit⟩,
  ⟨fchmod, filterSysexit⟩, ⟨fchmodat, filterSysexit⟩, ⟨fchown, filterSysexit⟩,
  ⟨fchown32, filterSysexit⟩, ⟨fchownat, filterSysexit⟩, ⟨fstat, filterSysexit⟩,
  ⟨fstat64, filterSysexit⟩, ⟨fstatat64, filterSysexit⟩, ⟨getegid, filterSysexit⟩,
  ⟨getegid32, filterSysexit⟩, ⟨geteuid, filterSysexit⟩, ⟨geteuid32, filterSysexit⟩,
  ⟨getgid, filterSysexit⟩, ⟨getgid32, filterSysexit⟩, ⟨getgroups, filterSysexit⟩,
  ⟨getgroups32, filterSysexit⟩, ⟨getresgid, filterSysexit⟩, ⟨getresgid32, filterSysexit⟩,
  ⟨getresuid, filterSysexit⟩, ⟨getresuid32, filterSysexit⟩, ⟨getuid, filterSysexit⟩,
  ⟨getuid32, filterSysexit⟩, ⟨getsockopt, filterSysexit⟩, ⟨lchown, filterSysexit⟩,
  ⟨lchown32, filterSysexit⟩, ⟨lstat, filterSysexit⟩, ⟨lstat64, filterSysexit⟩,
  ⟨mknod, filterSysexit⟩, ⟨mknodat, filterSysexit⟩, ⟨newfstatat, filterSysexit⟩,
  ⟨oldlstat, filterSysexit⟩, ⟨oldstat, filterSysexit⟩, ⟨sendmsg, 0⟩, ⟨setfsgid, filterSysexit⟩,
  ⟨setfsgid32, filterSysexit⟩, ⟨setfsuid, filterSysexit⟩, ⟨setfsuid32, filterSysexit⟩,
  ⟨setgid, filterSysexit⟩, ⟨setgid32, filterSysexit⟩, ⟨setgroups, filterSysexit⟩,
  ⟨setgroups32, filterSysexit⟩, ⟨setregid, filterSysexit⟩, ⟨setregid32, filterSysexit⟩,
  ⟨setreuid, filterSysexit⟩, ⟨setreuid32, filterSysexit⟩, ⟨setresgid, filterSysexit⟩,
  ⟨setresgid32, filterSysexit⟩, ⟨setresuid, filterSysexit⟩, ⟨setresuid32, filterSysexit⟩,
  ⟨setuid, filterSysexit⟩, ⟨setuid32, filterSysexit⟩, ⟨setxattr, filterSysexit⟩,
  ⟨setdomainname, filterSysexit⟩, ⟨sethostname, filterSysexit⟩, ⟨socket, filterSysexit⟩,
  ⟨lsetxattr, filterSysexit⟩, ⟨fsetxattr, filterSysexit⟩, ⟨stat, filterSysexit⟩,
  ⟨stat64, filterSysexit⟩, ⟨statfs, filterSysexit⟩, ⟨statfs64, filterSysexit⟩]

/-- `filtered_sysnums` of hidden_files. -/
def hiddenFilesSysnums : List FilteredSysnum := [
  ⟨getdents, filterSysexit⟩, ⟨getdents64, filterSysexit⟩]

/-- `filtered_sysnums` of fix_symlink_size. -/
def fixSymlinkSizeSysnums : List FilteredSysnum := [
  ⟨lstat, filterSysexit⟩, ⟨lstat64, filterSysexit⟩]

/-- `link2symlink_filtered_sysnums`. -/
def link2symlinkSysnums : List FilteredSysnum := [
  ⟨creat, filterSysexit⟩, ⟨«open», filterSysexit⟩, ⟨openat, filterSysexit⟩,
  ⟨openat2, filterSysexit⟩, ⟨link, filterSysexit⟩, ⟨linkat, filterSysexit⟩,
  ⟨unlink, filterSysexit⟩, ⟨unlinkat, filterSysexit⟩, ⟨fstat, filterSysexit⟩,
  ⟨fstat64, filterSysexit⟩, ⟨fstatat64, filterSysexit⟩, ⟨lstat, filterSysexit⟩,
  ⟨lstat64, filterSysexit⟩, ⟨newfstatat, filterSysexit⟩, ⟨stat, filterSysexit⟩,
  ⟨stat64, filterSysexit⟩, ⟨rename, filterSysexit⟩, ⟨renameat, filterSysexit⟩,
  ⟨renameat2, filterSysexit⟩]

/-- `link2symlink_dirent_filtered_sysnums`. -/
def link2symlinkDirentSysnums : List FilteredSysnum :=
  link2symlinkSysnums ++ [⟨getdents64, filterSysexit⟩]

/-- `filtered_sysnums` of ashmem_memfd. -/
def ashmemMemfdSysnums : List FilteredSysnum := [
  ⟨memfdCreate, 0⟩, ⟨ftruncate, 0⟩, ⟨ftruncate64, 0⟩, ⟨fstat, 0⟩, ⟨fstat64, 0⟩, ⟨fstatat64, 0⟩]

/-- `filtered_sysnums` of sysvipc. -/
def sysvipcSysnums : List FilteredSysnum := [
  ⟨msgget, 0⟩, ⟨msgsnd, 0⟩, ⟨msgrcv, 0⟩, ⟨msgctl, 0⟩, ⟨semget, 0⟩, ⟨semop, 0⟩, ⟨semtimedop, 0⟩,
  ⟨semctl, 0⟩, ⟨shmget, 0⟩, ⟨shmat, 0⟩, ⟨shmdt, 0⟩, ⟨shmctl, 0⟩]

/-- `filtered_sysnums` of port_switch. -/
def portSwitchSysnums : List FilteredSysnum := [
  ⟨bind, filterSysexit⟩, ⟨connect, filterSysexit⟩, ⟨sendto, filterSysexit⟩,
  ⟨recvfrom, filterSysexit⟩]

/-- `filtered_sysnums` of netlink_route. -/
def netlinkRouteSysnums : List FilteredSysnum := [
  ⟨socket, filterSysexit⟩, ⟨socketcall, filterSysexit⟩, ⟨bind, filterSysexit⟩,
  ⟨sendto, filterSysexit⟩, ⟨recvfrom, filterSysexit⟩, ⟨recvmsg, filterSysexit⟩, ⟨close, 0⟩]

end NeoProot.Seccomp
