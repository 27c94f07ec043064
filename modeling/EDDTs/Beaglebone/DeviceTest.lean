import EDDTs.Library.Text

/-!
# Device tests

What the tests of devices have in common: they transfer bytes between the device and two
buffers, and end with one report.
-/

namespace EDDTs.Beaglebone

open Library

/-- The types of result that a test reports with `tst_resm`. -/
inductive ResultType
  | pass
  | fail
  deriving DecidableEq, Repr

/-- The last call of `tst_resm` in a test, and what the test printed before it. -/
structure Report where
  result : ResultType
  message : Text
  printed : Text := []
  deriving DecidableEq, Repr

/-- One of the two buffers. -/
inductive Buffer
  | one
  | two
  deriving DecidableEq, Repr

structure Buffers where
  buffer1 : List UInt8
  buffer2 : List UInt8
  deriving DecidableEq, Repr

namespace Buffers

def modify (s : Buffers) (b : Buffer) (f : List UInt8 → List UInt8) : Buffers :=
  match b with
  | .one => { s with buffer1 := f s.buffer1 }
  | .two => { s with buffer2 := f s.buffer2 }

end Buffers

end EDDTs.Beaglebone
