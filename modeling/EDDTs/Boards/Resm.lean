import EDDTs.Library.Text

/-!
# Messages of the board tests

The tests of the boards report with `tst_resm` and end with `tst_brkm`, which reports and
does not return.
-/

namespace EDDTs.Boards

open Library

/-- The types of result of `tst_resm` and `tst_brkm`. -/
inductive TType
  | pass
  | fail
  | brok
  | conf
  | warn
  | info
  deriving DecidableEq, Repr

/-- A call of `tst_resm`; with `TERRNO` the text of the error follows the message. -/
structure Message where
  ttype : TType
  text : Text
  terrno : Bool := false
  deriving DecidableEq, Repr

/-- What a test function has reported and printed, and whether `tst_brkm` has ended the
process. -/
structure Outcome where
  messages : List Message
  ended : Bool := false
  printed : Text := []
  deriving DecidableEq, Repr

namespace Outcome

/-- Some message of this type was reported. -/
def Reports (o : Outcome) (t : TType) : Prop := ∃ m ∈ o.messages, m.ttype = t

instance (o : Outcome) (t : TType) : Decidable (o.Reports t) :=
  inferInstanceAs (Decidable (∃ m ∈ o.messages, m.ttype = t))

end Outcome

end EDDTs.Boards
