import Mathlib.Data.Nat.Notation

/-!
# Strings and error numbers

What every part of the tracer shares: C strings, the size of a path buffer, and
the error numbers its functions return negated.
-/

namespace NeoProot

/-- A C string: the characters in front of the terminating NUL. -/
abbrev CStr := List Char

/-- Write a string literal as a C string. -/
def str (s : String) : CStr := s.toList

/-- The size of a path buffer, terminator included. -/
def pathMax : ℕ := 4096

/-- The size of a component buffer, terminator included. -/
def nameMax : ℕ := 255

/-- The error numbers the modelled functions return. -/
inductive Errno
  | eperm | enoent | eacces | eexist | enotdir | eisdir | einval | emlink | erange | erofs
  | enametoolong | eloop | enomem | ebadf | efault | exdev | eio
  deriving DecidableEq, Repr

/-- A system call has six arguments. -/
instance neZero_six : @NeZero ℕ Zero.ofOfNat0 6 := ⟨by decide⟩

/-- `path[0] == '/'`. -/
def IsAbsolute (path : CStr) : Prop := path.head? = some '/'

instance (path : CStr) : Decidable (IsAbsolute path) :=
  inferInstanceAs (Decidable (path.head? = some '/'))

end NeoProot
