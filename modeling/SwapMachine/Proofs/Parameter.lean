import SwapMachine.Program.Instruction

/-!
# SwapMachine.Proofs.Parameter — what parsing guarantees of parameters

* `Instruction.IsValid`: the parameters are in their range.
* `parse_eq_ok`: an argument block that parses gives an instruction of its operation with valid
  parameters.
-/

namespace SwapMachine.Instruction

open Curve FixedPoint Block

/-- The parameters of an instruction are in the range that its work relies on. -/
def IsValid : Instruction → Prop
  | decay period => 0 < period
  | concentrate c => c.tokenA ≠ c.tokenB ∧ 0 < c.liquidity
  | flatFeeIn fee => (fee : Int) < bpsWhole
  | flatFeeOut fee => (fee : Int) < bpsWhole
  | constantProduct alpha => 0 < (alpha : Int) ∧ (alpha : Int) ≤ one
  | pegged rate => 0 < (rate : Int)
  | _ => True

theorem fee?_eq_ok {d : Datum} {fee : Int} (h : fee? d = .ok fee) : 0 ≤ fee ∧ fee < bpsWhole := by
  unfold fee? at h
  split at h
  · split at h
    · cases h
      assumption
    · cases h
  · cases h

theorem fee_lt_of_parseFee {block : Bytes} {fee : Nat} (h : parseFee block = .ok fee) :
    (fee : Int) < bpsWhole := by
  unfold parseFee at h
  rw [Outcome.bind_eq_ok] at h
  obtain ⟨n, -, h⟩ := h
  cases hf : fee? (.int n) with
  | error f => rw [hf] at h; cases h
  | ok z =>
    have hz : z = n := by
      unfold fee? at hf
      dsimp only at hf
      split at hf
      · exact (Except.ok.inj hf).symm
      · cases hf
    have hlt := (fee?_eq_ok hf).2
    rw [hf] at h
    cases h
    rwa [hz] at hlt

theorem pos_of_parsePeriod {block : Bytes} {period : Nat} (h : parsePeriod block = .ok period) :
    0 < period := by
  obtain ⟨n, -, h⟩ := Outcome.bind_eq_ok.1 h
  split at h
  · cases h
  · cases h
    omega

theorem valid_of_parseConcentration {block : Bytes} {c : Concentration}
    (h : parseConcentration block = .ok c) : c.tokenA ≠ c.tokenB ∧ 0 < c.liquidity := by
  obtain ⟨d, -, h⟩ := Outcome.bind_eq_ok.1 h
  split at h
  · cases h
  · split at h
    · cases h
    · cases h
      exact ⟨‹_›, by omega⟩

theorem requireAlpha_eq_ok_iff {alpha : Int} :
    Power.requireAlpha alpha = .ok () ↔ 0 < alpha ∧ alpha ≤ one := by
  unfold Power.requireAlpha
  split
  · exact iff_of_true rfl ‹_›
  · exact iff_of_false (fun h => nomatch h) ‹_›

theorem requireRate_eq_ok_iff {rate : Int} : Peg.requireRate rate = .ok () ↔ 0 < rate := by
  unfold Peg.requireRate
  split
  · exact iff_of_false (fun h => nomatch h) (by omega)
  · exact iff_of_true rfl (by omega)

theorem valid_of_parseAlpha {block : Bytes} {alpha : Nat} (h : parseAlpha block = .ok alpha) :
    0 < (alpha : Int) ∧ (alpha : Int) ≤ one := by
  obtain ⟨n, -, h⟩ := Outcome.bind_eq_ok.1 h
  obtain ⟨_, ha, h⟩ := Outcome.bind_eq_ok.1 h
  cases h
  exact requireAlpha_eq_ok_iff.1 ha

theorem pos_of_parseRate {block : Bytes} {rate : Nat} (h : parseRate block = .ok rate) :
    0 < (rate : Int) := by
  obtain ⟨n, -, h⟩ := Outcome.bind_eq_ok.1 h
  obtain ⟨_, hr, h⟩ := Outcome.bind_eq_ok.1 h
  cases h
  exact requireRate_eq_ok_iff.1 hr

/-- **Parsing** gives instructions of the operation at hand, with valid parameters. -/
theorem parse_eq_ok {op : Opcode} {block : Bytes} {i : Instruction} (h : parse op block = .ok i) :
    i.opcode = op ∧ i.IsValid := by
  cases op with
  | salt | inert => cases h; exact ⟨rfl, trivial⟩
  | jump | jumpIfTokenIn | jumpIfTokenOut | deadline | takerHolds | takerHoldsAtLeast
  | takerShareAtLeast | staticBalances | dynamicBalances | dynamicFeeIn | density =>
    obtain ⟨a, -, h⟩ := Outcome.bind_eq_ok.1 h
    cases h
    exact ⟨rfl, trivial⟩
  | decay =>
    obtain ⟨a, ha, h⟩ := Outcome.bind_eq_ok.1 h
    cases h
    exact ⟨rfl, pos_of_parsePeriod ha⟩
  | concentrate =>
    obtain ⟨a, ha, h⟩ := Outcome.bind_eq_ok.1 h
    cases h
    exact ⟨rfl, valid_of_parseConcentration ha⟩
  | flatFeeIn | flatFeeOut =>
    obtain ⟨a, ha, h⟩ := Outcome.bind_eq_ok.1 h
    cases h
    exact ⟨rfl, fee_lt_of_parseFee ha⟩
  | constantProduct =>
    obtain ⟨a, ha, h⟩ := Outcome.bind_eq_ok.1 h
    cases h
    exact ⟨rfl, valid_of_parseAlpha ha⟩
  | pegged =>
    obtain ⟨a, ha, h⟩ := Outcome.bind_eq_ok.1 h
    cases h
    exact ⟨rfl, pos_of_parseRate ha⟩

end SwapMachine.Instruction
