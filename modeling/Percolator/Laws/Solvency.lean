import Percolator.Laws.Undrained

/-!
The market is solvent as long as nobody is liquidated.

Marking to market, funding, trades, fees, warmup, conversions and closures never create a claim that nothing backs: the
vault covers capital, insurance and the PnL of every account together with what settling it would realize.
-/

namespace Percolator

open Finset

variable {s s₀ s' : RiskEngine} {i : Nat} {ls : List (Instruction × List Event)}

theorem Initial.solvent (h : Initial s) : Solvent ⟨s, .idle⟩ := by
  obtain ⟨slab, p, slot, price, l, ok⟩ := h
  obtain ⟨-, -, -, rfl⟩ := initInPlace_spec ok
  refine ⟨fun _ => rfl, fun _ => rfl, fun i d used => ?_, fun i used => ?_, fun _ => rfl, rfl, ?_⟩
  · rw [freshEngine_isUsed] at used
    cases used
  · rw [freshEngine_isUsed] at used
    cases used
  · have owed : (freshEngine slab.maxAccounts p slot.toNat price).owed = 0 := by
      unfold RiskEngine.owed
      rw [freshEngine_usedSlots]
      rfl
    unfold RiskEngine.surplus
    dsimp only
    rw [owed]
    simp [freshEngine, Phase.idle]

/-- A market stays solvent through a history without liquidations. -/
theorem Solvent.history (h : Solvent ⟨s, .idle⟩) (good : Good ⟨s, .idle⟩) (hist : History s ls s')
    (calm : ∀ p ∈ ls, ¬ p.1.scope.liquidates) (live : s'.marketMode = .live) : Solvent ⟨s', .idle⟩ := by
  induction hist with
  | refl => exact h
  | tail past last ih =>
      rw [List.forall_mem_append] at calm
      cases last with
      | rolledBack fault => exact ih calm.1 live
      | committed ok =>
          have before := good.history past
          exact (ih calm.1 (before.live_before ok live)).committed before ok (calm.2 _ List.mem_cons_self) live

/-- What settling everybody would realize is covered. -/
theorem Solvent.covered (h : Solvent ⟨s, .idle⟩) :
    (s.cTot + s.insuranceFund : Int) + ∑ i ∈ s.usedSlots, ((s.accounts i).pnl + s.due i) ≤ s.vault := by
  have backed := h.backed
  have owed : ((∑ i ∈ s.usedSlots, ((s.accounts i).pnl + s.due i) : Int) : ℚ) ≤ s.owed := by
    unfold RiskEngine.owed tally Account.owed
    push_cast
    exact sum_le_sum fun i _ => add_le_add_right (s.due_le_gain i) _
  have covered : (((s.cTot + s.insuranceFund : Int) + ∑ i ∈ s.usedSlots, ((s.accounts i).pnl + s.due i) : Int) : ℚ) ≤
      ((s.vault : Int) : ℚ) := by
    unfold RiskEngine.surplus at backed
    simp only [Phase.idle, Int.cast_zero, add_zero] at backed
    rw [Int.cast_add]
    push_cast at owed ⊢
    linarith
  exact_mod_cast covered

/-- When nobody is owed or owes anything more, all profit is backed in full. -/
theorem Solvent.settled_backed (h : Solvent ⟨s, .idle⟩) (books : Books s)
    (settled : ∀ i, s.isUsed i = true → s.due i = 0 ∧ 0 ≤ (s.accounts i).pnl) : s.pnlPosTot ≤ s.residual := by
  have covered := h.covered
  have profits : ∑ i ∈ s.usedSlots, ((s.accounts i).pnl + s.due i) = (s.pnlPosTot : Int) := by
    rw [books.pos]
    unfold tally
    push_cast
    refine sum_congr rfl fun i hi => ?_
    obtain ⟨none, nonneg⟩ := settled i (RiskEngine.mem_usedSlots.mp hi)
    unfold Account.posPnl i128ClampPos
    omega
  rw [profits] at covered
  unfold RiskEngine.residual
  omega

theorem haircutRatio_whole (h : s.pnlMaturedPosTot ≤ s.residual) : (haircutRatio s).1 = (haircutRatio s).2 := by
  unfold haircutRatio
  split_ifs
  · rfl
  · exact min_eq_right h

/-- In every Live market that was never liquidated from its beginning the vault covers capital, insurance and the PnL of
all accounts with what is due to them; everybody holds what he traded; and once everybody is settled without a loss, the
residual covers all profit and conversions are not cut. -/
theorem Initial.solvent_without_liquidation (init : Initial s₀) (hist : History s₀ ls s)
    (calm : ∀ p ∈ ls, ¬ p.1.scope.liquidates) (live : s.marketMode = .live) :
    (s.cTot + s.insuranceFund : Int) + ∑ i ∈ s.usedSlots, ((s.accounts i).pnl + s.due i) ≤ s.vault ∧
      (∀ i, s.isUsed i = true → effectivePosQ s i = some (s.accounts i).positionBasisQ) ∧
      ((∀ i, s.isUsed i = true → s.due i = 0 ∧ 0 ≤ (s.accounts i).pnl) →
        s.pnlPosTot ≤ s.residual ∧ (haircutRatio s).1 = (haircutRatio s).2) := by
  have good := init.good.history hist
  have solvent := init.solvent.history init.good hist calm live
  refine ⟨solvent.covered, fun i used => ?_, fun settled => ?_⟩
  · obtain ⟨e, eff⟩ := (good.positions live).seated.effective_isSome used
    rw [eff, solvent.whole good live used eff]
  · have books : Books s := good.books
    have reserves : Reserves s := good.reserves live
    have backed := solvent.settled_backed books settled
    have matured : s.pnlMaturedPosTot ≤ s.pnlPosTot := by
      rw [reserves.matured, books.pos]
      refine tally_mono fun i _ => ?_
      unfold Account.releasedPos Account.posPnl
      omega
    exact ⟨backed, haircutRatio_whole (matured.trans backed)⟩

/-- The price goes up after a trade, and the long settles. -/
def marked : List Instruction :=
  [.deposit 1 100000 101, .deposit 2 100000 101, .executeTrade 1 2 1000 101 50000000 1000 0 10 100,
    .settleAccount 1 1010 150 0 10 100]

def markedMarket : RiskEngine := performAll sampleMarket marked

theorem marked_calm : ∀ p ∈ logAll sampleMarket marked, ¬ p.1.scope.liquidates := by
  intro p hp
  simp only [marked, logAll, List.mem_cons, List.not_mem_nil, or_false] at hp
  rcases hp with rfl | rfl | rfl | rfl <;> exact id

/-- The long has made his profit, and the short still owes it. -/
theorem markedMarket_solvent_without_liquidation :
    (markedMarket.accounts 1).pnl = 500 ∧ markedMarket.due 2 = -500 ∧
      (markedMarket.cTot + markedMarket.insuranceFund : Int) +
        ∑ i ∈ markedMarket.usedSlots, ((markedMarket.accounts i).pnl + markedMarket.due i) ≤ markedMarket.vault := by
  have hist : History sampleMarket (logAll sampleMarket marked) markedMarket := performAll_history sampleMarket marked
  obtain ⟨covered, -, -⟩ := sampleMarket_initial.solvent_without_liquidation hist marked_calm (by decide +kernel)
  exact ⟨by decide +kernel, by decide +kernel, covered⟩

end Percolator
