import Percolator.Machine.Trade

/-!
What refuses with `SideBlocked`: no part of the engine but the gate of a trade on open interest.
-/

namespace Percolator

open Effect

variable {α : Type} {i a b n price now : Nat} {v w : Int} {d : Side} {ctx : InstructionContext} {s s' : RiskEngine}
  {rate : Int} {exec hMin hMax : Nat}

/-- Whatever the state, the effect does not refuse with `SideBlocked`. -/
abbrev Unblocking (m : Act α) : Prop :=
  ∀ s l, wp m (fun _ _ _ => True) (fun p _ => ¬ p = .err .sideBlocked) s l

/-- Nor does the operation, which may also fail in a check. -/
abbrev OpUnblocking (m : Op α) : Prop :=
  ∀ s l, wp m (fun _ _ _ => True) (fun f _ => ¬ f = .plain (.err .sideBlocked)) s l

/-! ### Reserves and PnL -/

@[simp] theorem validateReserveShape_unblocking : Unblocking (validateReserveShape i) := by
  intro s l
  simp [validateReserveShape]

@[simp] theorem appendOrRouteNewReserve_unblocking {k h : Nat} :
    Unblocking (appendOrRouteNewReserve i n k h) := by
  intro s l
  simp [appendOrRouteNewReserve]

@[simp] theorem applyReserveLossNewestFirst_unblocking : Unblocking (applyReserveLossNewestFirst i n) := by
  intro s l
  simp [applyReserveLossNewestFirst]

@[simp] theorem releaseSched_unblocking : Unblocking (releaseSched i n) := by
  intro s l
  simp [releaseSched]

@[simp] theorem advanceProfitWarmup_unblocking : Unblocking (advanceProfitWarmup i) := by
  intro s l
  simp [advanceProfitWarmup]

@[simp] theorem residualNow_unblocking {s : RiskEngine} : Unblocking (residualNow s) := by
  intro s l
  simp [residualNow]

@[simp] theorem admitFreshReserveHLock_unblocking {hMin hMax : Nat} :
    Unblocking (admitFreshReserveHLock i n ctx hMin hMax) := by
  intro s l
  simp [admitFreshReserveHLock]

@[simp] theorem admitOutstandingReserveOnTouch_unblocking : Unblocking (admitOutstandingReserveOnTouch i) := by
  intro s l
  simp [admitOutstandingReserveOnTouch]

@[simp] theorem trackNegPnl_unblocking : Unblocking (trackNegPnl v w) := by
  intro s l
  simp [trackNegPnl]

@[simp] theorem checkPnlPair_unblocking : Unblocking (checkPnlPair i v) := by
  intro s l
  simp [checkPnlPair]

@[simp] theorem increasePnl_unblocking {mode : ReserveMode} {c : Option InstructionContext} :
    Unblocking (increasePnl i v mode c) := by
  intro s l
  cases mode <;> simp [increasePnl, err]

@[simp] theorem decreasePnl_unblocking : Unblocking (decreasePnl i v) := by
  intro s l
  simp [decreasePnl, takeLiveLoss, takeResolvedLoss]

theorem ReserveMode.refusal_ne {mode : ReserveMode} {market : MarketMode} {e : RiskError}
    (h : mode.refusal market = some e) : e ≠ .sideBlocked := by
  cases mode <;> cases market <;> cases h <;> rintro ⟨⟩

@[simp] theorem setPnlWithReserve_unblocking {mode : ReserveMode} {c : Option InstructionContext} :
    Unblocking (setPnlWithReserve i v mode c) := by
  intro s l
  cases refusal : mode.refusal s.marketMode with
  | none => simp [setPnlWithReserve, refusal]
  | some e =>
      have ne : e ≠ .sideBlocked := ReserveMode.refusal_ne refusal
      simp [setPnlWithReserve, refusal, err, ne]

@[simp] theorem setPnl_unblocking : Unblocking (setPnl i v) := by
  intro s l
  simp [setPnl]

@[simp] theorem setPnlAdmitted_unblocking : Unblocking (setPnlAdmitted i v ctx) := by
  intro s l
  simp [setPnlAdmitted]

@[simp] theorem consumeReleasedPnl_unblocking : Unblocking (consumeReleasedPnl i n) := by
  intro s l
  simp [consumeReleasedPnl]

/-! ### Capital, positions and fees -/

@[simp] theorem setCapital_unblocking : Unblocking (setCapital i n) := by
  intro s l
  simp [setCapital]

@[simp] theorem setPositionBasisQ_unblocking : Unblocking (setPositionBasisQ i v) := by
  intro s l
  cases old : sideOfI128 (s.accounts i).positionBasisQ <;> cases new : sideOfI128 v <;>
    simp [setPositionBasisQ, old, new]

@[simp] theorem incPhantomDustBound_unblocking : Unblocking (incPhantomDustBound d) := by
  intro s l
  simp [incPhantomDustBound, incPhantomDustBoundBy]

@[simp] theorem attachEffectivePosition_unblocking : Unblocking (attachEffectivePosition i v) := by
  intro s l
  cases old : sideOfI128 (s.accounts i).positionBasisQ <;> cases new : sideOfI128 v <;>
    simp [attachEffectivePosition, old, new]

@[simp] theorem settleLosses_unblocking : Unblocking (settleLosses i) := by
  intro s l
  simp [settleLosses]

@[simp] theorem resolveFlatNegative_unblocking : Unblocking (resolveFlatNegative i) := by
  intro s l
  simp [resolveFlatNegative, absorbProtocolLoss, useInsuranceBuffer]

@[simp] theorem feeDebtSweep_unblocking : Unblocking (feeDebtSweep i) := by
  intro s l
  simp [feeDebtSweep]

@[simp] theorem chargeFeeToInsurance_unblocking : Unblocking (chargeFeeToInsurance i n) := by
  intro s l
  simp [chargeFeeToInsurance]

/-! ### Touches -/

@[simp] theorem settledPnl_unblocking {x : Account} : Unblocking (settledPnl x v w) := by
  intro s l
  simp [settledPnl]

@[simp] theorem settleCurrent_unblocking : Unblocking (settleCurrent i d ctx) := by
  intro s l
  simp [settleCurrent]

@[simp] theorem settleStale_unblocking : OpUnblocking (settleStale i d ctx) := by
  intro s l
  simp [settleStale]

@[simp] theorem settleSideEffectsLive_unblocking : OpUnblocking (settleSideEffectsLive i ctx) := by
  intro s l
  cases side : sideOfI128 (s.accounts i).positionBasisQ <;> simp [settleSideEffectsLive, side]

@[simp] theorem finalizeTouchedAccountsPostLive_unblocking : Unblocking (finalizeTouchedAccountsPostLive ctx) := by
  intro s l
  have each : ∀ whole i, Unblocking (finalizeTouched whole i) := by
    intro whole i s l
    simp [finalizeTouched, convertInto]
  simp only [finalizeTouchedAccountsPostLive, wp_bind, wp_read]
  exact wp_forEach (I := fun _ _ => True) (fun i _ s l _ => each _ i s l) trivial

/-! ### Resets -/

@[simp] theorem clearResidual_unblocking {residual : Bool} : OpUnblocking (clearResidual ctx residual n) := by
  intro s l
  simp [clearResidual]

@[simp] theorem beginFullDrainReset_unblocking : Unblocking (beginFullDrainReset d) := by
  intro s l
  simp [beginFullDrainReset]

@[simp] theorem settleTradePnl_unblocking : Unblocking (settleTradePnl a b v ctx) := by
  intro s l
  simp [settleTradePnl]

@[simp] theorem enforceOneSideMargin_unblocking {oldEff newEff bufferPre : Int} :
    Unblocking (enforceOneSideMargin i price oldEff newEff bufferPre n v) := by
  intro s l
  simp [enforceOneSideMargin, err]

@[simp] theorem assertPublicPostconditions_unblocking : OpUnblocking assertPublicPostconditions := by
  intro s l
  simp [assertPublicPostconditions]

end Percolator
