import SwapMachine.Engine.Words
import SwapMachine.Program.Assembly
import SwapMachine.Settings.Environment
import SwapMachine.Tool.Disassembly

/-!
# SwapMachine.Tool.Demonstration — a quote, a swap and the quote back, start to finish

One order with stored balances, fading offsets, a fee and a constant product with an exponent is
registered with a new engine, asked for a quote, swapped with, and asked for the reverse trade.
-/

namespace SwapMachine

namespace Report

/-- Goes on with a result; the lines of both parts are kept. -/
def andThen {α β : Type} (r : Report α) (next : α → Report β) : Report β :=
  match r.outcome with
  | .error f => ⟨.error f, r.log⟩
  | .ok a => { next a with log := r.log ++ (next a).log }

/-- The result of something that writes no lines. -/
def ofOutcome {α : Type} (r : Outcome α) : Report α := ⟨r, []⟩

end Report

namespace Tool.Demonstration

open FixedPoint (one)

/-- The address of twenty equal bytes. -/
def addressOf (byte : UInt8) : String := Address.ofBytes (List.replicate Address.size byte)

def maker : String := addressOf 0x11
def taker : String := addressOf 0x22
def tokenA : String := addressOf 0xaa
def tokenB : String := addressOf 0xbb

/-- The balances that the order starts with. -/
def balances : List (Datum × Datum) :=
  [(.text tokenA, .int (1000 * one)), (.text tokenB, .int (1000 * one))]

/-- The program: open for an hour, with offsets that fade in ten minutes. -/
def steps (now : Int) : List Step :=
  [.deadline (.int (now + 3600)), .dynamicBalances balances, .decay (.int 600),
    .flatFeeIn (.int 30), .constantProduct (.int 997000000000000000)]

/-- The order. -/
def order (now : Int) : Outcome Order := do
  let program ← Assembly.assemble (steps now)
  Order.make (.text maker) (.text tokenA) (.text tokenB) (.bytes program) (.int 0)

/-- A request of the taker's for a fixed amount in. -/
def request (tokenIn tokenOut : String) (amount : Int) (threshold : Option Int) : Request :=
  ⟨.text tokenIn, .text tokenOut, .int amount, true, threshold.map .int, .text taker⟩

/-- A line of the demonstration. -/
def line (text : String) : String := s!"[swapvm-demo] {text}\n"

/-- The lines about the stored balances. -/
def balanceLines (s : Snapshot) : List String :=
  s.balances.entries.map fun e => line s!"balance {e.1}={e.2}"

/-- Runs the demonstration for an order on an engine. -/
def perform (e : Engine) (o : Order) (now : Int) : Report (List String) :=
  let (registered, e) := e.register o
  registered.andThen fun hash =>
    (Report.ofOutcome (Program.listing .standard o.program)).andThen fun listing =>
      (e.toldQuote o (request tokenA tokenB (100 * one) none) now).andThen fun quoted =>
        let (swapped, e) :=
          e.toldSwap o (request tokenA tokenB (100 * one) (some quoted.amountOut)) now
        swapped.andThen fun result =>
          (e.toldQuote o (request tokenB tokenA result.amountOut none) now).andThen fun back =>
            .ofOutcome (.ok ([
              line s!"order_hash={hash} program_bytes={o.program.length}",
              listing ++ "\n",
              line s!"quote: in={quoted.amountIn} out={quoted.amountOut}",
              line s!"swap:  in={result.amountIn} out={result.amountOut}",
              line (s!"reverse quote right after the swap: out={back.amountOut} "
                ++ "(decay penalty active)")]
              ++ balanceLines (e.store.snapshot hash) ++ [line "OK"]))

/-- The result of the tool at a time, with settings from the environment. -/
def run (env : Settings.Environment) (now : Int) : Report Result :=
  (Report.ofOutcome (order now)).andThen fun o =>
    let (settings, log) := Settings.ofEnvironment env
    (Report.mk (.ok settings) log).andThen fun settings =>
      (perform (.start settings .standard none .empty) o now).andThen fun lines =>
        .ofOutcome (.ok ⟨0, String.join lines⟩)

end Tool.Demonstration

end SwapMachine
