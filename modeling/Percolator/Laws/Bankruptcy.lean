import Percolator.Base.Oblivious
import Percolator.Laws.Finalization

/-!
Bankruptcies: the fee of a liquidation never deepens them.

Two full closes from one state under different liquidation fees are compared. Up to the fee the
engine does not look at the fee parameters, so the two runs are one. The fee then comes out of
capital that the losses left, and where a deficit remains they left none: the fund that covers it
is the same in both runs. ADL and the resets look at the sides alone.
-/

namespace Percolator

open Effect

/-- The parameters that decide the fee of a liquidation. -/
structure LiquidationFees where
  bps : Nat
  cap : Nat
  least : Nat

/-- The engine under other liquidation fees. -/
def RiskEngine.withFees (s : RiskEngine) (f : LiquidationFees) : RiskEngine :=
  { s with params := { s.params with
      liquidationFeeBps := f.bps, liquidationFeeCap := f.cap, minLiquidationAbs := f.least } }

variable {f : LiquidationFees} {i now price : Nat} {d : Side} {ctx : InstructionContext} {rate v : Int}

/-! ### Blind to the fees -/

/-- The effect does not look at the liquidation fees. -/
abbrev FeeBlind {ε α : Type} (f : LiquidationFees) (m : Effect ε Event RiskEngine α) : Prop :=
  Oblivious (fun s => s.withFees f) m

theorem writeAccount_blind {g : Account → Account} : FeeBlind f (writeAccount i g) := .update fun _ => rfl

theorem writeSide_blind {g : SideState → SideState} : FeeBlind f (writeSide d g) := .update fun _ => rfl

theorem validateReserveShape_blind : FeeBlind f (validateReserveShape i) :=
  .read (fun _ => rfl) fun _ => .failIf

theorem appendOrRouteNewReserve_blind {add slot lock : Nat} :
    FeeBlind f (appendOrRouteNewReserve i add slot lock) := by
  refine .bind validateReserveShape_blind fun _ => .bind writeAccount_blind fun _ => ?_
  refine .read (fun _ => rfl) fun s => .bind (.ite writeAccount_blind (.ite ?_ (.ite writeAccount_blind ?_))) fun _ =>
    .bind .demand fun _ => writeAccount_blind
  · exact .bind .demand fun _ => .bind writeAccount_blind fun _ => .bind .demand fun _ => writeAccount_blind
  · exact .bind .demand fun _ => writeAccount_blind

theorem applyReserveLossNewestFirst_blind {loss : Nat} : FeeBlind f (applyReserveLossNewestFirst i loss) := by
  refine .bind validateReserveShape_blind fun _ => .read (fun _ => rfl) fun s => .bind .demand fun _ => ?_
  exact .bind .failIf fun _ => .bind .demand fun _ => writeAccount_blind

theorem admitFreshReserveHLock_blind {fresh hMin hMax : Nat} :
    FeeBlind f (admitFreshReserveHLock i fresh ctx hMin hMax) := by
  refine .ite (.pure _) (.read (fun _ => rfl) fun s => .bind (.bind .demand fun _ => .demand) fun _ => ?_)
  exact .bind .demand fun _ => .ite (.bind .demand fun _ => .pure _) (.pure _)

theorem trackNegPnl_blind {old : Int} : FeeBlind f (trackNegPnl old v) := by
  refine .read (fun _ => rfl) fun s => .ite ?_ (.ite ?_ (.pure ()))
  · exact .bind .demand fun _ => .update fun _ => rfl
  · exact .bind .demand fun _ => .update fun _ => rfl

theorem checkPnlPair_blind : FeeBlind f (checkPnlPair i v) :=
  .read (fun _ => rfl) fun _ => .bind .failIf fun _ => .failIf

theorem increasePnl_blind {mode : ReserveMode} {ctx : Option InstructionContext} :
    FeeBlind f (increasePnl i v mode ctx) := by
  unfold increasePnl
  refine .read (fun _ => rfl) fun s => .bind .demand fun _ => .bind (.update fun _ => rfl) fun _ => ?_
  refine .bind trackNegPnl_blind fun _ => .bind writeAccount_blind fun _ => ?_
  cases mode with
  | noPositiveIncreaseAllowed => exact .fail _
  | immediateReleaseResolvedOnly =>
      refine .bind .demand fun _ => .bind (.update fun _ => rfl) fun _ => ?_
      exact .bind checkPnlPair_blind fun _ => .pure _
  | useAdmissionPair hMin hMax =>
      refine .bind .demand fun _ => .bind admitFreshReserveHLock_blind fun r => ?_
      refine .bind (.ite ?_ appendOrRouteNewReserve_blind) fun _ => .bind checkPnlPair_blind fun _ => .pure _
      exact .bind .demand fun _ => .update fun _ => rfl

theorem takeLiveLoss_blind {loss : Nat} : FeeBlind f (takeLiveLoss i loss) := by
  refine .read (fun _ => rfl) fun s => .bind (.whenever applyReserveLossNewestFirst_blind) fun _ => .whenever ?_
  exact .bind .demand fun _ => .update fun _ => rfl

theorem takeResolvedLoss_blind {loss : Nat} : FeeBlind f (takeResolvedLoss i loss) := by
  refine .read (fun _ => rfl) fun s => .bind .failIf fun _ => .whenever ?_
  exact .bind .demand fun _ => .update fun _ => rfl

theorem decreasePnl_blind : FeeBlind f (decreasePnl i v) := by
  refine .read (fun _ => rfl) fun s => .bind .demand fun _ => .bind (.update fun _ => rfl) fun _ => ?_
  refine .bind (.ite takeLiveLoss_blind takeResolvedLoss_blind) fun _ => .bind trackNegPnl_blind fun _ => ?_
  refine .bind writeAccount_blind fun _ => .read (fun _ => rfl) fun _ => ?_
  exact .bind .failIf fun _ => checkPnlPair_blind

theorem setPnlWithReserve_blind {mode : ReserveMode} {ctx : Option InstructionContext} :
    FeeBlind f (setPnlWithReserve i v mode ctx) := by
  refine .bind .failIf fun _ => .read (fun _ => rfl) fun s => .bind .failIf fun _ => .bind .failIf fun _ => ?_
  refine .bind (.ite ?_ (.pure ())) fun _ => .bind .failIf fun _ => .ite ?_ ?_
  · cases mode.refusal s.marketMode with
    | none => exact .pure ()
    | some e => exact .fail _
  · exact .bind .demand fun _ => .bind .failIf fun _ => increasePnl_blind
  · exact .bind decreasePnl_blind fun _ => .pure _

theorem setPnl_blind : FeeBlind f (setPnl i v) := .bind setPnlWithReserve_blind fun _ => .pure ()

theorem setCapital_blind {capital : Nat} : FeeBlind f (setCapital i capital) := by
  refine .read (fun _ => rfl) fun s => .bind (.ite .demand .demand) fun _ => ?_
  exact .bind (.update fun _ => rfl) fun _ => writeAccount_blind

theorem setPositionBasisQ_blind : FeeBlind f (setPositionBasisQ i v) := by
  refine .read (fun _ => rfl) fun s => .bind ?_ fun _ => .read (fun _ => rfl) fun s => .bind ?_ fun _ =>
    writeAccount_blind
  · cases sideOfI128 (s.accounts i).positionBasisQ with
    | none => exact .pure ()
    | some d => exact .bind .demand fun _ => writeSide_blind
  · cases sideOfI128 v with
    | none => exact .pure ()
    | some d => exact .bind .demand fun _ => writeSide_blind

theorem incPhantomDustBound_blind : FeeBlind f (incPhantomDustBound d) :=
  .read (fun _ => rfl) fun _ => .bind .demand fun _ => writeSide_blind

theorem settleLosses_blind : FeeBlind f (settleLosses i) := by
  refine .read (fun _ => rfl) fun s => .whenever (.bind .failIf fun _ => .whenever ?_)
  exact .bind setCapital_blind fun _ => .bind .demand fun _ => .bind .failIf fun _ => setPnl_blind

theorem attachEffectivePosition_blind : FeeBlind f (attachEffectivePosition i v) := by
  refine .read (fun _ => rfl) fun s => .bind ?_ fun _ => ?_
  · cases sideOfI128 (s.accounts i).positionBasisQ with
    | none => exact .pure ()
    | some d => exact .whenever incPhantomDustBound_blind
  · cases sideOfI128 v with
    | none => exact .bind setPositionBasisQ_blind fun _ => writeAccount_blind
    | some d =>
        refine .bind .failIf fun _ => .bind setPositionBasisQ_blind fun _ => ?_
        exact .read (fun _ => rfl) fun _ => writeAccount_blind

/-! ### Bound to the sides -/

/-- The effect looks at the sides alone, and writes nothing else. -/
abbrev OnSides {ε α : Type} (t : RiskEngine) (m : Effect ε Event RiskEngine α) : Prop :=
  Oblivious (fun s => t.withSides s.sides) m

section Sides

variable {s t : RiskEngine} {liq : Side} {oi q delta : Nat}

theorem writeSide_onSides {g : SideState → SideState} : OnSides t (writeSide d g) := .update fun _ => rfl

theorem socializeDeficit_onSides : OnSides t (socializeDeficit d oi delta) := by
  refine .read (fun _ => rfl) fun s => .ite (.pure _) (.bind .demand fun aPs => .bind .demand fun r => ?_)
  cases r with
  | overI128Magnitude => exact .pure _
  | fits n =>
      dsimp only
      cases adlHeadroom (s.sides d).adlCoeff (s.sides d).adlMult n with
      | none => exact .pure _
      | some k => exact .bind writeSide_onSides fun _ => .pure _

theorem incPhantomDustBoundBy_onSides : OnSides t (incPhantomDustBoundBy d q) :=
  .read (fun _ => rfl) fun _ => .bind .demand fun _ => writeSide_onSides

theorem shrinkOpposing_onSides : OnSides t (shrinkOpposing ctx liq oi q delta) := by
  refine .read (fun _ => rfl) fun s => .ite ?_ (.bind .demand fun r => .ite ?_ ?_)
  · exact .bind writeSide_onSides fun _ => .bind (.emit _) fun _ => .pure _
  · refine .bind .demand fun _ => .bind writeSide_onSides fun _ => ?_
    refine .bind (.whenever incPhantomDustBoundBy_onSides) fun _ => .bind (.whenever writeSide_onSides) fun _ => ?_
    exact .bind (.emit _) fun _ => .pure _
  · exact .bind writeSide_onSides fun _ => .bind writeSide_onSides fun _ => .bind (.emit _) fun _ => .pure _

/-- What ADL does after the fund has paid: `dRem` is what it left. -/
def spreadAdl (ctx : InstructionContext) (liqSide : Side) (qCloseQ dRem : Nat) : Op InstructionContext := do
  let opp := liqSide.opposite
  let s ← read
  let oi := (s.sides opp).oiEffQ
  if oi = 0 then
    pure (if (s.sides liqSide).oiEffQ = 0 then (ctx.setPendingReset liqSide).setPendingReset opp
      else ctx)
  else do
    corruptIf (oi < qCloseQ) .enqueueAdl
    if (s.sides opp).storedPosCount = 0 then do
      writeSide opp ({ · with oiEffQ := oi - qCloseQ })
      pure (if oi - qCloseQ = 0 then
          if (s.sides liqSide).oiEffQ = 0 then (ctx.setPendingReset opp).setPendingReset liqSide
          else ctx.setPendingReset opp
        else ctx)
    else do
      let deltaKAbs ← socializeDeficit opp oi dRem
      shrinkOpposing ctx liqSide oi qCloseQ deltaKAbs

theorem enqueueAdl_eq {deficit : Nat} : enqueueAdl ctx liq q deficit = (do
    let s ← read
    corruptIf ((s.sides liq).oiEffQ < q) .enqueueAdl
    writeSide liq fun v => { v with oiEffQ := v.oiEffQ - q }
    let dRem ← useInsuranceBuffer deficit
    spreadAdl ctx liq q dRem) := rfl

theorem spreadAdl_onSides : OnSides t (spreadAdl ctx liq q delta) := by
  refine .read (fun _ => rfl) fun s => .ite (.pure _) (.bind .failIf fun _ => .ite ?_ ?_)
  · exact .bind writeSide_onSides.mapFault fun _ => .pure _
  · exact .bind socializeDeficit_onSides.mapFault fun _ => shrinkOpposing_onSides.mapFault

/-- Two runs from the same sides agree. -/
theorem onSides_agree {ε α : Type} {m : Effect ε Event RiskEngine α} {s' t' : RiskEngine} {a b : α}
    (h : ∀ t, OnSides t m) (same : t.sides = s.sides) (run : Runs m s a s') (run' : Runs m t b t') :
    b = a ∧ t'.sides = s'.sides := by
  obtain ⟨l, hok⟩ := run
  obtain ⟨l', hok'⟩ := run'
  have start : t = t.withSides s.sides := by
    rw [← same]
    rfl
  rw [start] at hok'
  obtain ⟨rfl, rfl, -⟩ := (h t).agree hok hok'
  exact ⟨rfl, rfl⟩

end Sides

/-! ### The fee -/

section Fee

variable {s s' t' : RiskEngine} {l : List Event} {fee q : Nat}

/-- A fee moves neither PnL nor positions, and from no capital it moves nothing to the fund. -/
structure FeeTaken (s s' : RiskEngine) (i : Nat) : Prop where
  sides : s'.sides = s.sides
  params : s'.params = s.params
  pnl : (s'.accounts i).pnl = (s.accounts i).pnl
  position : (s.accounts i).SamePosition (s'.accounts i)
  broke : (s.accounts i).capital = 0 → s'.insuranceFund = s.insuranceFund

theorem FeeTaken.credits {n : Nat} (h : FeeTaken s s' i) :
    FeeTaken s (s'.setAccount i ((s'.accounts i).withFeeCredits ((s'.accounts i).feeCredits - n))) i := by
  have kept : (s'.setAccount i ((s'.accounts i).withFeeCredits ((s'.accounts i).feeCredits - n))).accounts i =
      (s'.accounts i).withFeeCredits ((s'.accounts i).feeCredits - n) := put_same _ _ _
  refine ⟨h.sides, h.params, ?_, ?_, h.broke⟩
  · rw [kept]
    exact h.pnl
  · rw [kept]
    exact h.position

theorem chargeFeeToInsurance_taken {r : Nat × Nat × Nat} (hok : chargeFeeToInsurance i fee s = .ok r s' l) :
    FeeTaken s s' i := by
  refine wp_sound (Q := fun _ s' _ => FeeTaken s s' i) hok ?_
  simp only [chargeFeeToInsurance, wp_bind, wp_read, wp_whenever, wp_rejectIf, wp_orErr, wp_update, wp_writeAccount,
    wp_pure, implies_true, true_and]
  have none : FeeTaken s s i := ⟨rfl, rfl, rfl, .refl _, fun _ => rfl⟩
  refine fun _ => ⟨fun paid => wp_ok fun _ s₁ l₁ h₁ fund hf => ?_, fun _ => ⟨fun _ => none.credits, fun _ => none⟩⟩
  obtain ⟨c, rfl, -, hc⟩ := setCapital_spec h₁
  have some : FeeTaken s ((s.rebook i ((s.accounts i).withCapital
      ((s.accounts i).capital - min fee (s.accounts i).capital)) { s.totals with cTot := c }).withInsuranceFund fund) i := by
    have kept : ((s.rebook i ((s.accounts i).withCapital ((s.accounts i).capital - min fee (s.accounts i).capital))
        { s.totals with cTot := c }).withInsuranceFund fund).accounts i = (s.accounts i).withCapital
          ((s.accounts i).capital - min fee (s.accounts i).capital) := put_same _ _ _
    refine ⟨rfl, rfl, ?_, ?_, fun broke => ?_⟩
    · rw [kept]
      rfl
    · rw [kept]
      exact ⟨rfl, rfl, rfl, rfl, rfl⟩
    · rw [broke, Nat.min_zero] at paid
      exact absurd paid (Nat.lt_irrefl 0)
  exact ⟨fun _ => some.credits, fun _ => some⟩

/-- After its losses are settled an account with a loss has no capital. -/
theorem settleLosses_broke (hok : settleLosses i s = .ok () s' l) (loss : (s'.accounts i).pnl < 0) :
    (s'.accounts i).capital = 0 := by
  obtain ⟨-, n, rfl, -, -⟩ := settleLosses_exact hok
  rw [RiskEngine.rebook_accounts, put_same] at loss ⊢
  show (s.accounts i).capital - (s.accounts i).lossPay = 0
  have loss : (s.accounts i).pnl + ((s.accounts i).lossPay : Int) < 0 := loss
  unfold Account.lossPay at *
  omega

/-- Two closes of one position under different fees. -/
structure ClosedAlike (s t : RiskEngine) (i : Nat) : Prop where
  sides : t.sides = s.sides
  floor : t.params.insuranceFloor = s.params.insuranceFloor
  pnl : (t.accounts i).pnl = (s.accounts i).pnl
  effective : effectivePosQ t i = effectivePosQ s i
  fund : (s.accounts i).pnl < 0 → t.insuranceFund = s.insuranceFund

theorem closeAtOracle_parts (hok : closeAtOracle i v q price s = .ok () s' l) :
    ∃ s₁ l₁ s₂ l₂ fee r l₃, attachEffectivePosition i v s = .ok () s₁ l₁ ∧ settleLosses i s₁ = .ok () s₂ l₂ ∧
      chargeFeeToInsurance i fee s₂ = .ok r s' l₃ := by
  set P : RiskEngine → Prop := fun s' => ∃ s₁ l₁ s₂ l₂ fee r l₃, attachEffectivePosition i v s = .ok () s₁ l₁ ∧
    settleLosses i s₁ = .ok () s₂ l₂ ∧ chargeFeeToInsurance i fee s₂ = .ok r s' l₃ with hP
  refine wp_sound (Q := fun _ s' _ => P s') hok ?_
  simp only [closeAtOracle, wp_bind, wp_read, wp_expect, wp_pure, implies_true, true_and]
  refine wp_ok fun _ s₁ l₁ h₁ => wp_ok fun _ s₂ l₂ h₂ fee _ => wp_ok fun r s₃ l₃ h₃ => ?_
  exact ⟨s₁, l₁, s₂, l₂, fee, r, l₃, h₁, h₂, h₃⟩

theorem closeAtOracle_alike (run : Runs (closeAtOracle i v q price) s () s')
    (run' : Runs (closeAtOracle i v q price) (s.withFees f) () t') : ClosedAlike s' t' i := by
  obtain ⟨l, hok⟩ := run
  obtain ⟨l', hok'⟩ := run'
  obtain ⟨s₁, l₁, s₂, l₂, fee, r, l₃, attached, settled, charged⟩ := closeAtOracle_parts hok
  obtain ⟨t₁, k₁, t₂, k₂, fee', r', k₃, attached', settled', charged'⟩ := closeAtOracle_parts hok'
  obtain ⟨-, rfl, -⟩ := attachEffectivePosition_blind.agree attached attached'
  obtain ⟨-, rfl, -⟩ := settleLosses_blind.agree settled settled'
  have taken := chargeFeeToInsurance_taken charged
  have taken' : FeeTaken (s₂.withFees f) t' i := chargeFeeToInsurance_taken charged'
  refine ⟨taken'.sides.trans taken.sides.symm, ?_, taken'.pnl.trans taken.pnl.symm, ?_, fun loss => ?_⟩
  · rw [taken'.params, taken.params]
    rfl
  · have same : effectivePosQ s' i = effectivePosQ s₂ i :=
      effectivePosQ_congr taken.position (fun d => by rw [taken.sides]) fun d => by rw [taken.sides]
    have same' : effectivePosQ t' i = effectivePosQ (s₂.withFees f) i :=
      effectivePosQ_congr taken'.position (fun d => by rw [taken'.sides]) fun d => by rw [taken'.sides]
    rw [same, same']
    rfl
  · have broke := settleLosses_broke settled (taken.pnl ▸ loss)
    rw [taken'.broke broke, taken.broke broke]
    rfl

end Fee

/-! ### A full close -/

section Close

variable {s s₁ s' t t₁ t' : RiskEngine} {liq : Side} {q deficit hMin hMax slot : Nat} {old : Int} {a b : InstructionContext}
  {l l' : List Event} {result result' : Bool}

/-- The fund pays a deficit down to its floor, and nothing else of it moves. -/
theorem enqueueAdl_parts (run : Runs (enqueueAdl ctx liq q deficit) s a s') : ∃ s₁,
    s₁.sides = (fun e => if e = liq then (s.sides liq).withOi ((s.sides liq).oiEffQ - q) else s.sides e) ∧
      s₁.insuranceFund = s.insuranceFund - min deficit (s.insuranceFund - s.params.insuranceFloor) ∧
      Runs (spreadAdl ctx liq q (deficit - min deficit (s.insuranceFund - s.params.insuranceFloor))) s₁ a s' := by
  obtain ⟨l, hok⟩ := run
  set P : InstructionContext → RiskEngine → Prop := fun a s' => ∃ s₁,
    s₁.sides = (fun e => if e = liq then (s.sides liq).withOi ((s.sides liq).oiEffQ - q) else s.sides e) ∧
      s₁.insuranceFund = s.insuranceFund - min deficit (s.insuranceFund - s.params.insuranceFloor) ∧
      Runs (spreadAdl ctx liq q (deficit - min deficit (s.insuranceFund - s.params.insuranceFloor))) s₁ a s' with hP
  rw [enqueueAdl_eq] at hok
  refine wp_sound (Q := fun a s' _ => P a s') hok ?_
  simp only [useInsuranceBuffer, wp_bind, wp_read, wp_corruptIf, wp_lift, wp_writeSide, wp_update, wp_pure,
    implies_true, true_and]
  refine fun _ => wp_ok fun ctx' s₂ l₂ spread => ?_
  exact ⟨(s.setSide liq ((s.sides liq).withOi ((s.sides liq).oiEffQ - q))).withInsuranceFund
    (s.insuranceFund - min deficit (s.insuranceFund - s.params.insuranceFloor)), rfl, rfl, l₂, spread⟩

/-- Nothing of ADL but the fund's payment moves the fund. -/
theorem spreadAdl_fund (run : Runs (spreadAdl ctx liq q deficit) s a s') : s'.insuranceFund = s.insuranceFund := by
  obtain ⟨l, hok⟩ := run
  have whole : s = s.withSides s.sides := rfl
  have same := (spreadAdl_onSides (t := s)).ok hok
  rw [← whole, hok] at same
  obtain ⟨-, eq, -⟩ := Outcome.ok.inj same
  rw [eq]
  rfl

/-- Two deleveragings from the same sides: of the same deficit, from the same fund if there is one. -/
theorem enqueueAdl_alike (same : t.sides = s.sides) (floor : t.params.insuranceFloor = s.params.insuranceFloor)
    (fund : deficit ≠ 0 → t.insuranceFund = s.insuranceFund) (run : Runs (enqueueAdl ctx liq q deficit) s a s')
    (run' : Runs (enqueueAdl ctx liq q deficit) t b t') :
    b = a ∧ t'.sides = s'.sides ∧ t.insuranceFund - t'.insuranceFund = s.insuranceFund - s'.insuranceFund := by
  obtain ⟨s₁, sides₁, fund₁, spread⟩ := enqueueAdl_parts run
  obtain ⟨t₁, sides₁', fund₁', spread'⟩ := enqueueAdl_parts run'
  have paid : min deficit (t.insuranceFund - t.params.insuranceFloor) =
      min deficit (s.insuranceFund - s.params.insuranceFloor) := by
    rw [floor]
    rcases Nat.eq_zero_or_pos deficit with none | some
    · rw [none, Nat.zero_min, Nat.zero_min]
    · rw [fund some.ne']
  rw [paid] at spread' fund₁'
  have start : t₁.sides = s₁.sides := by
    rw [sides₁, sides₁', same]
  obtain ⟨rfl, sides⟩ := onSides_agree (fun _ => spreadAdl_onSides) start spread spread'
  refine ⟨rfl, sides, ?_⟩
  rw [spreadAdl_fund spread, spreadAdl_fund spread', fund₁, fund₁']
  have within : min deficit (s.insuranceFund - s.params.insuranceFloor) ≤ s.insuranceFund :=
    (Nat.min_le_right _ _).trans (Nat.sub_le _ _)
  have within' : min deficit (s.insuranceFund - s.params.insuranceFloor) ≤ t.insuranceFund := by
    rw [← paid]
    exact (Nat.min_le_right _ _).trans (Nat.sub_le _ _)
  omega

/-- The loss of account `i` that no position and no capital of its own covers. -/
def RiskEngine.bankruptcy (s : RiskEngine) (i : Nat) : Nat :=
  if effectivePosQ s i = some 0 ∧ (s.accounts i).pnl < 0 then (s.accounts i).pnl.natAbs else 0

/-- The parts of a full close, from the touched account to the write-off. -/
structure CloseParts (s s' : RiskEngine) (i price : Nat) (old : Int) (liq : Side) (ctx ctx' : InstructionContext)
    (deficit drawn uninsured : Nat) (s₁ s₂ : RiskEngine) : Prop where
  closed : Runs (closeAtOracle i 0 old.natAbs price) s () s₁
  deficit_eq : deficit = s₁.bankruptcy i
  deleveraged : Runs (enqueueAdl ctx liq old.natAbs deficit) s₁ ctx' s₂
  drawn_eq : drawn = s₁.insuranceFund - s₂.insuranceFund
  uninsured_eq : uninsured = deficit - drawn
  writtenOff : Runs (whenever (deficit ≠ 0) (do
    let _ ← setPnlWithReserve i 0 .noPositiveIncreaseAllowed none) : Op Unit) s₂ () s'

theorem CloseParts.writtenOff_sides {s₂ : RiskEngine} {drawn uninsured : Nat}
    (h : CloseParts s s' i price old liq ctx a deficit drawn uninsured s₁ s₂) : s'.sides = s₂.sides := by
  obtain ⟨l, hok⟩ := h.writtenOff
  refine wp_sound (Q := fun _ s' _ => s'.sides = s₂.sides) hok ?_
  simp only [wp_whenever, wp_bind, wp_lift, wp_pure, implies_true, and_true]
  refine fun _ => wp_ok fun _ s₃ l₃ written => ?_
  cases mode : s₂.marketMode with
  | live =>
      obtain ⟨x, totals, rfl, -⟩ := setPnlWithReserve_fall written mode (by rintro ⟨⟩)
      rfl
  | resolved =>
      obtain ⟨x, totals, rfl, -⟩ := setPnlWithReserve_resolved written mode
      rfl

/-- Two full closes of one position under different fees have the same deficit, draw the same on the
fund, and leave the sides alike. -/
theorem CloseParts.alike {liq : Side} {old : Int} {ctx : InstructionContext} {deficit' drawn drawn' uninsured uninsured' : Nat}
    {s₂ t₂ : RiskEngine} (h : CloseParts s s' i price old liq ctx a deficit drawn uninsured s₁ s₂)
    (h' : CloseParts (s.withFees f) t' i price old liq ctx b deficit' drawn' uninsured' t₁ t₂) :
    b = a ∧ deficit' = deficit ∧ drawn' = drawn ∧ uninsured' = uninsured ∧ t'.sides = s'.sides := by
  have alike := closeAtOracle_alike h.closed h'.closed
  obtain rfl : deficit' = deficit := by
    rw [h.deficit_eq, h'.deficit_eq, RiskEngine.bankruptcy, RiskEngine.bankruptcy, alike.effective, alike.pnl]
  have fund : deficit' ≠ 0 → t₁.insuranceFund = s₁.insuranceFund := by
    intro some
    rw [h.deficit_eq, RiskEngine.bankruptcy] at some
    split_ifs at some with short
    · exact alike.fund short.2
    · exact absurd rfl some
  obtain ⟨rfl, sides, drawn_eq⟩ := enqueueAdl_alike alike.sides alike.floor fund h.deleveraged h'.deleveraged
  obtain rfl : drawn' = drawn := by rw [h.drawn_eq, h'.drawn_eq, drawn_eq]
  obtain rfl : uninsured' = uninsured := by rw [h.uninsured_eq, h'.uninsured_eq]
  refine ⟨rfl, rfl, rfl, rfl, ?_⟩
  rw [h'.writtenOff_sides, h.writtenOff_sides, sides]

/-- Whether account `i` is to be liquidated at the price. -/
structure Due (s : RiskEngine) (i price : Nat) (old : Int) (liq : Side) : Prop where
  used : s.isUsed i = true
  effective : effectivePosQ s i = some old
  side : sideOfI128 old = some liq
  unhealthy : isAboveMaintenanceMargin s i price = some false

theorem Due.withFees {old : Int} {liq : Side} : Due (s.withFees f) i price old liq ↔ Due s i price old liq :=
  ⟨fun h => ⟨h.used, h.effective, h.side, h.unhealthy⟩, fun h => ⟨h.used, h.effective, h.side, h.unhealthy⟩⟩

end Close

/-! ### Whole liquidations -/

section Liquidation

variable {s s' t' : RiskEngine} {slot hMin hMax : Nat} {l l' : List Event} {result result' : Bool}

end Liquidation

end Percolator
