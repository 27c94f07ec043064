import Mathlib.Data.List.Basic

/-!
# The signal ratchet

`wait_handler` is the handler of all the signals that ltp-pan catches, and the
main loop calls it to act as if a signal had arrived.
-/

namespace EDDTs.Pan

/-- The signals that ltp-pan receives or sends. -/
inductive Signal
  | hup
  | int
  | kill
  | usr1
  | usr2
  | alrm
  | term
  deriving DecidableEq, Repr

/-- The signals with `wait_handler` as handler. -/
def Signal.handled : Signal → Bool
  | .kill => false
  | _ => true

/-- `rec_signal`, `send_signal`, and the static variable of `wait_handler`;
`none` is the value zero. -/
structure Signals where
  recSignal : Option Signal := none
  sendSignal : Option Signal := none
  lastsent : Option Signal := none
  deriving DecidableEq, Repr

/-- `wait_handler(sig)` for a signal. -/
def waitHandler (sig : Signal) (r : Signals) : Signals :=
  if sig = .usr2 then { r with recSignal := some sig }
  else
    let send :=
      if r.lastsent = none then some sig
      else if r.lastsent = some .usr1 then some .int
      else if r.lastsent = some sig then some .term
      else if r.lastsent = some .term then some .hup
      else if r.lastsent = some .hup then some .kill
      else r.sendSignal
    { recSignal := some sig, sendSignal := send, lastsent := send }

/-- `wait_handler(0)`: reset the signal ratchet. -/
def resetRatchet (r : Signals) : Signals := { r with lastsent := none }

end EDDTs.Pan
