import SwapMachine.Engine.Trade

/-!
# SwapMachine.Engine.Words — what callers are told

What a quote or swap has come to is put into words before anything is stored: the cause of a failure
in its text, and the amounts of a trade in the log. Where that cannot be done the call fails, for
that reason and whatever it had come to, and nothing else is done or written down any more.

* `unspoken?` looks for what cannot be put into words.
* `toldQuote` and `toldSwap` are quotes and swaps as callers meet them.

Places in a program and versions of an order stand in the log too. They count bytes of the program
and swaps that were answered, and are never too long to be written.
-/

namespace SwapMachine.Engine

/-- The values that tell what a call has come to. -/
def shown : Outcome Fill → List Datum
  | .ok f => [.int f.amountIn, .int f.amountOut]
  | .error f => f.shown

/-- What keeps the outcome of a call from being put into words, the first that is met. -/
def unspoken? (x : Outcome Fill) : Option WordFault := (shown x).findSome? Datum.wordFault?

/-- What a call to an engine has come to once it is put into words. The line about the start of the
walk is the only one that has been written by then. -/
def told (e : Engine) (x : Report Fill × Engine) : Report Fill × Engine :=
  match unspoken? x.1.outcome with
  | none => x
  | some w => (⟨.error (.words w), x.1.log.filter fun line => line.source == Walk.source⟩, e)

/-- A quote as a caller meets it. -/
def toldQuote (e : Engine) (o : Order) (r : Request) (now : Int) : Report Fill :=
  (told e (e.quote o r now, e)).1

/-- A swap as a caller meets it. -/
def toldSwap (e : Engine) (o : Order) (r : Request) (now : Int) : Report Fill × Engine :=
  told e (e.swap o r now)

end SwapMachine.Engine
