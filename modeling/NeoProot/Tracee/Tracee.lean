import NeoProot.Path.Binding

/-!
# Tracees

A traced process and its file-system name-space, as far as path translation reads
them.

## Main definitions

* `FileSystemNameSpace` — the bindings, the working directory and the alias of an
  old root.
* `Tracee` — the process.
-/

namespace NeoProot

/-- `FileSystemNameSpace`. -/
structure FileSystemNameSpace where
  bindings : Bindings
  cwd : CStr
  cwdAliasPrefix : Option CStr
  deriving DecidableEq, Repr

/-- `Tracee`. -/
structure Tracee where
  pid : ℕ
  exe : CStr
  fs : FileSystemNameSpace
  openat2Resolve : UInt64
  openat2Oflags : UInt64
  deriving DecidableEq, Repr

end NeoProot
