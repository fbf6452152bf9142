import NeoProot.Lib.LittleEndian
import Mathlib.Data.List.Forall2

/-!
# Fields at fixed places

A structure of a file or of a message is some numbers of given widths, one after the other.

## Main definitions

* `encodeAll`, `decodeAll` — the bytes of the fields, and back.
* `decodeAll_encodeAll` — one undoes the other.
-/

namespace NeoProot.LittleEndian

/-- The fields, one after the other. -/
def encodeAll : List ℕ → List ℕ → List UInt8
  | [], _ => []
  | width :: widths, ns => encode width (ns.headD 0) ++ encodeAll widths ns.tail

/-- The fields at the beginning of the bytes. -/
def decodeAll : List ℕ → List UInt8 → List ℕ
  | [], _ => []
  | width :: widths, bytes => decode (bytes.take width) :: decodeAll widths (bytes.drop width)

/-- A number for each field, which has the room for it. -/
def Fits (widths ns : List ℕ) : Prop := List.Forall₂ (fun width n => n < 256 ^ width) widths ns

@[simp] theorem length_encodeAll (widths ns : List ℕ) :
    (encodeAll widths ns).length = widths.sum := by
  induction widths generalizing ns with
  | nil => rfl
  | cons width widths ih => simp [encodeAll, ih]

/-- What is read is what was written, whatever stands behind it. -/
theorem decodeAll_encodeAll {widths ns : List ℕ} (h : Fits widths ns) (rest : List UInt8) :
    decodeAll widths (encodeAll widths ns ++ rest) = ns := by
  induction h with
  | nil => rfl
  | @cons width n widths ns hn hrest ih =>
    have hlength := length_encode width n
    simp only [encodeAll, decodeAll, List.headD_cons, List.tail_cons, List.append_assoc,
      List.take_left' hlength, List.drop_left' hlength, ih, decode_encode_of_lt hn]

end NeoProot.LittleEndian
