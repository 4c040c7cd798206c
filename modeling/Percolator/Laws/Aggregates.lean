import Percolator.Machine.Frame

/-!
Aggregates: the totals of a reachable market are exact, its vault covers what it owes
to capital and insurance, and an empty market is all insurance.
-/

namespace Percolator

open Finset

variable {s : RiskEngine}

/-! ### Aggregates as sums and counts -/

section Counts

variable {U : Finset Nat} {t : Nat → Account}

theorem tally_negPnl : tally U t Account.negPnl = #{i ∈ U | (t i).pnl < 0} := by
  rw [card_filter]
  rfl

theorem tally_on_long : tally U t (Account.on .long) = #{i ∈ U | 0 < (t i).positionBasisQ} := by
  rw [card_filter]
  refine sum_congr rfl fun i _ => ?_
  simp only [Account.on, sideOfI128_eq_some]

theorem tally_on_short : tally U t (Account.on .short) = #{i ∈ U | (t i).positionBasisQ < 0} := by
  rw [card_filter]
  refine sum_congr rfl fun i _ => ?_
  simp only [Account.on, sideOfI128_eq_some]

end Counts

/-- Every aggregate of a reachable state is the sum or the count that it stands for. -/
theorem Reachable.aggregates_exact (h : Reachable s) :
    s.cTot = ∑ i ∈ s.usedSlots, (s.accounts i).capital ∧
    s.pnlPosTot = ∑ i ∈ s.usedSlots, (max (s.accounts i).pnl 0).toNat ∧
    s.negPnlAccountCount = #{i ∈ s.usedSlots | (s.accounts i).pnl < 0} ∧
    (s.sides .long).storedPosCount = #{i ∈ s.usedSlots | 0 < (s.accounts i).positionBasisQ} ∧
    (s.sides .short).storedPosCount = #{i ∈ s.usedSlots | (s.accounts i).positionBasisQ < 0} ∧
    s.numUsedAccounts = #s.usedSlots ∧ s.materializedAccountCount = #s.usedSlots ∧
    (∀ i, -I128_MAX ≤ (s.accounts i).feeCredits ∧ (s.accounts i).feeCredits ≤ 0) ∧
    (s.marketMode = .live →
      (∀ i ∈ s.usedSlots, reserveShapeCheck s.params (s.accounts i) = true ∧
        ((s.accounts i).reservedPnl : Int) ≤ max (s.accounts i).pnl 0) ∧
      s.pnlMaturedPosTot =
        ∑ i ∈ s.usedSlots, ((max (s.accounts i).pnl 0).toNat - (s.accounts i).reservedPnl)) := by
  have hb := h.good.books
  dsimp only at hb
  have hpos : ∀ v : Int, (max v 0).toNat = i128ClampPos v := fun v => by unfold i128ClampPos; omega
  refine ⟨hb.cTot, ?_, ?_, ?_, ?_, hb.numUsed, hb.materialized, fun i => ?_, fun live => ⟨fun i hi => ?_, ?_⟩⟩
  · rw [hb.pos]
    exact sum_congr rfl fun i _ => (hpos _).symm
  · rw [hb.neg, tally_negPnl]
  · rw [hb.stored, tally_on_long]
  · rw [hb.stored, tally_on_short]
  · cases hi : s.isUsed i with
    | true => exact hb.fee i hi
    | false => rw [h.vacant i hi]; exact ⟨by decide, le_rfl⟩
  · have hs := (h.good.reserves live).shape i (RiskEngine.mem_usedSlots.mp hi)
    refine ⟨reserveShapeCheck_iff.mpr hs, ?_⟩
    have := hs.reserved_le
    dsimp only at this
    unfold i128ClampPos at this
    omega
  · have hm := (h.good.reserves live).matured
    dsimp only at hm
    rw [hm]
    exact sum_congr rfl fun i _ => by rw [hpos]; rfl

theorem tradedMarket_aggregates_exact :
    tradedMarket.cTot = ∑ i ∈ tradedMarket.usedSlots, (tradedMarket.accounts i).capital ∧
      tradedMarket.numUsedAccounts = tradedMarket.usedSlots.card :=
  ⟨tradedMarket_reachable.aggregates_exact.1, tradedMarket_reachable.aggregates_exact.2.2.2.2.2.1⟩

/-! ### Conservation -/

/-- In a reachable state the vault covers capital and insurance, and the two sides carry
the same open interest; every operation keeps both by itself, so that its final check of
them never fails. -/
theorem Reachable.conserves (h : Reachable s) :
    s.cTot + s.insuranceFund ≤ s.vault ∧ (s.sides .long).oiEffQ = (s.sides .short).oiEffQ ∧
    ∀ ins : Instruction,
      (∀ s' l, ins.run s = .ok () s' l →
        s'.cTot + s'.insuranceFund ≤ s'.vault ∧ (s'.sides .long).oiEffQ = (s'.sides .short).oiEffQ) ∧
      ∀ f s', ins.run s = .fault f s' → f ≠ .corrupt .assertPublicPostconditions := by
  refine ⟨h.good.books.backed, h.good.balanced, fun ins => ⟨fun s' l ok => ?_, fun f s' fault hf => ?_⟩⟩
  · have hg := (h.good.committed ok).good
    exact ⟨hg.books.backed, hg.balanced⟩
  · have hsound := h.good.faulted fault
    rw [hf] at hsound
    exact hsound

theorem tradedMarket_conserves :
    tradedMarket.cTot + tradedMarket.insuranceFund ≤ tradedMarket.vault ∧
      ∀ f s', (Instruction.settleAccount 1 900 110 0 10 100).run tradedMarket = .fault f s' →
        f ≠ .corrupt .assertPublicPostconditions :=
  ⟨tradedMarket_reachable.conserves.1, (tradedMarket_reachable.conserves.2.2 _).2⟩

/-! ### A market without accounts -/

/-- Once the last account has left, the whole vault belongs to insurance and nothing is open. -/
theorem Reachable.retirable (h : Reachable s) (empty : s.numUsedAccounts = 0) :
    s.vault = s.insuranceFund ∧ s.cTot = 0 ∧ s.pnlPosTot = 0 ∧ s.pnlMaturedPosTot = 0 ∧
      ∀ d, (s.sides d).oiEffQ = 0 := by
  have hb := h.good.books
  dsimp only at hb
  have hnone : s.usedSlots = ∅ := card_eq_zero.mp (hb.numUsed ▸ empty)
  have hpos : s.pnlPosTot = 0 := by rw [hb.pos, hnone]; rfl
  have hstored : ∀ d, (s.sides d).storedPosCount = 0 := fun d => by rw [hb.stored, hnone]; rfl
  refine ⟨(hb.retired empty).symm, by rw [hb.cTot, hnone]; rfl, hpos, ?_, fun d => ?_⟩
  · cases hm : s.marketMode with
    | live =>
        have hmat := (h.good.reserves hm).matured
        dsimp only at hmat
        rw [hmat, hnone]
        rfl
    | resolved => exact ((h.good.terminal hm).matured).trans hpos
  · cases hm : s.marketMode with
    | live => exact (((h.good.positions hm).quiet rfl d).vacant (hstored d)).1
    | resolved => exact (h.good.terminal hm).oi d

/-- A market whose only account has left, with insurance left behind. -/
def vacatedMarket : RiskEngine :=
  performAll sampleMarket
    [.deposit 1 100000 101, .topUpInsuranceFund 500 101, .closeAccount 1 102 1000 0 10 100]

theorem vacatedMarket_retirable : vacatedMarket.vault = vacatedMarket.insuranceFund ∧ vacatedMarket.cTot = 0 := by
  have h := (sampleMarket_reachable.performAll _ : Reachable vacatedMarket).retirable (by decide +kernel)
  exact ⟨h.1, h.2.1⟩

end Percolator
