import SwapMachine.Text.Blank
import SwapMachine.Text.Decimal
import SwapMachine.Text.DecimalDigit
import SwapMachine.Text.Hex
import SwapMachine.Text.Printable
import SwapMachine.Text.Quoted
import SwapMachine.Number.Binary64
import SwapMachine.Number.Fraction
import SwapMachine.Number.Rounding
import SwapMachine.Number.Quantity
import SwapMachine.Number.Rounded
import SwapMachine.Calendar
import SwapMachine.Datum
import SwapMachine.Fault.Cause
import SwapMachine.Fault.Kind
import SwapMachine.Fault
import SwapMachine.Log
import SwapMachine.FixedPoint.Exponential
import SwapMachine.FixedPoint.Logarithm
import SwapMachine.FixedPoint.Power
import SwapMachine.FixedPoint.Scale
import SwapMachine.Curve.Amount
import SwapMachine.Curve.Density
import SwapMachine.Curve.Peg
import SwapMachine.Curve.Power
import SwapMachine.Intake.Arithmetic
import SwapMachine.Intake.Field
import SwapMachine.Intake.Pricing
import SwapMachine.Intake.Record
import SwapMachine.Intake.State
import SwapMachine.Identity.Address
import SwapMachine.Identity.Canonical
import SwapMachine.Identity.Domain
import SwapMachine.Identity.Order
import SwapMachine.Digest.Sha256
import SwapMachine.Block.Cursor
import SwapMachine.Block.Number
import SwapMachine.Block.Reader
import SwapMachine.Block.Slice
import SwapMachine.Block.Writer
import SwapMachine.Program.Assembly
import SwapMachine.Program.Check
import SwapMachine.Program.Instruction
import SwapMachine.Program.Opcode
import SwapMachine.Program.Record
import SwapMachine.State.Index
import SwapMachine.State.Overlay
import SwapMachine.State.Snapshot
import SwapMachine.State.Store
import SwapMachine.Walk.Effect
import SwapMachine.Walk.Pending
import SwapMachine.Walk.Query
import SwapMachine.Walk.Run
import SwapMachine.Walk.Sheet
import SwapMachine.Holdings
import SwapMachine.Intake.Minting
import SwapMachine.Markup.Node
import SwapMachine.Markup.Value
import SwapMachine.Markup.Scalar
import SwapMachine.Markup.Timestamp
import SwapMachine.Markup.Token
import SwapMachine.Settings.Basic
import SwapMachine.Settings.Document
import SwapMachine.Settings.Environment
import SwapMachine.Engine.Basic
import SwapMachine.Engine.Trade
import SwapMachine.Engine.Words
import SwapMachine.Tool.Demonstration
import SwapMachine.Tool.Disassembly
import SwapMachine.Main
import SwapMachine.Proofs.Failure
import SwapMachine.Proofs.AddressText
import SwapMachine.Proofs.Codec
import SwapMachine.Proofs.Spelling
import SwapMachine.Proofs.ArgumentBlock
import SwapMachine.Proofs.RecordGrammar
import SwapMachine.Proofs.Labels
import SwapMachine.Proofs.LabelJump
import SwapMachine.Proofs.CanonicalText
import SwapMachine.Proofs.OrderIdentity
import SwapMachine.Proofs.Parameter
import SwapMachine.Proofs.Boundary
import SwapMachine.Proofs.Blame
import SwapMachine.Proofs.ValidWalk
import SwapMachine.Proofs.Commit
import SwapMachine.Proofs.Session
import SwapMachine.Proofs.Serial
import SwapMachine.Proofs.Quotient
import SwapMachine.Proofs.Delivery
import SwapMachine.Proofs.Fair
import SwapMachine.Proofs.Booking
import SwapMachine.Proofs.Frame
import SwapMachine.Proofs.Inverse
import SwapMachine.Proofs.Correction
import SwapMachine.Proofs.Affordable
import SwapMachine.Proofs.Stretch
import SwapMachine.Proofs.AveragePrice
import SwapMachine.Proofs.Sound
import SwapMachine.Proofs.Foreseen
import SwapMachine.Proofs.Loading
import SwapMachine.Proofs.Pool
import SwapMachine.Proofs.Calls
import SwapMachine.Proofs.Stock
import SwapMachine.Proofs.PoolHistory
import SwapMachine.Proofs.Conservation
import SwapMachine.Proofs.Honour
import SwapMachine.Proofs.Preview
import SwapMachine.Proofs.Reentry
import SwapMachine.Proofs.Course
import SwapMachine.Proofs.Counterpart
import SwapMachine.Proofs.Straight
import SwapMachine.Proofs.Payable
import SwapMachine.Proofs.Asking
import SwapMachine.Proofs.Isolation
import SwapMachine.Proofs.Grid
import SwapMachine.Proofs.Reduction
import SwapMachine.Proofs.LogarithmError
import SwapMachine.Proofs.LogarithmShare
import SwapMachine.Proofs.ExponentialError
import SwapMachine.Proofs.BinomialError
import SwapMachine.Proofs.PowerError
import SwapMachine.Proofs.FractionPower
import SwapMachine.Proofs.RoundTrip
import SwapMachine.Proofs.PowerBranches
import SwapMachine.Proofs.PowerBracket
import SwapMachine.Proofs.PowerCurve
import SwapMachine.Proofs.Marginal
import SwapMachine.Proofs.BackSwap
import SwapMachine.Proofs.Concentration
import SwapMachine.Proofs.Splitting
import SwapMachine.Proofs.Improvement
import SwapMachine.Proofs.Fading
import SwapMachine.Proofs.Relocation
import SwapMachine.Proofs.Salt
import SwapMachine.Proofs.FirstSwap
import SwapMachine.Proofs.CanonicalCheck
import SwapMachine.Proofs.CanonicalTree
import SwapMachine.Proofs.DomainPrefix
import SwapMachine.Proofs.AddressSpelling
import SwapMachine.Proofs.Schema
import SwapMachine.Proofs.Respelling
import SwapMachine.Proofs.Headroom
import SwapMachine.Proofs.Supply
import SwapMachine.Proofs.Wording
import SwapMachine.Proofs.WordedBlock
import SwapMachine.Proofs.WordedWalk
import SwapMachine.Proofs.Telling
