import Percolator.Engine.Interface
import Percolator.Wide.Engine

/-!
`accrue_market_to` on limbs: the checks, the mark and the funding of both sides
over the words of the market, and that a run of the model is what they compute.
-/

namespace Percolator
namespace Wide

open Effect

/-- `checked_sub` of `i128`. -/
def checkedSubI128 (a b : U128) : Option U128 :=
  if I128_MIN ≤ a.toInt - b.toInt ∧ a.toInt - b.toInt ≤ I128_MAX then some (a - b) else none

/-- The words of the market that accrual reads and writes. -/
structure MarketWords where
  long : IndexWords
  short : IndexWords
  oiEffLongQ : U128
  oiEffShortQ : U128
  currentSlot : U64
  lastMarketSlot : U64
  lastOraclePrice : U64
  fundPxLast : U64
  maxAccrualDtSlots : U64
  maxAbsFundingE9PerSlot : U64
deriving DecidableEq, Repr

/-- The words hold a market. -/
structure MarketWords.Hold (w : MarketWords) (s : RiskEngine) : Prop where
  long : w.long.Hold (s.sides .long)
  short : w.short.Hold (s.sides .short)
  oiEffLongQ : (s.sides .long).oiEffQ = w.oiEffLongQ.toNat
  oiEffShortQ : (s.sides .short).oiEffQ = w.oiEffShortQ.toNat
  currentSlot : s.currentSlot = w.currentSlot.toNat
  lastMarketSlot : s.lastMarketSlot = w.lastMarketSlot.toNat
  lastOraclePrice : s.lastOraclePrice = w.lastOraclePrice.toNat
  fundPxLast : s.fundPxLast = w.fundPxLast.toNat
  maxAccrualDtSlots : s.params.maxAccrualDtSlots = w.maxAccrualDtSlots.toNat
  maxAbsFundingE9PerSlot : s.params.maxAbsFundingE9PerSlot = w.maxAbsFundingE9PerSlot.toNat

/-- The words with the indices `k` and `f`, accrued to `nowSlot` at `oraclePrice`. -/
def MarketWords.accrued (w : MarketWords) (nowSlot oraclePrice : U64) (k f : U128 × U128) :
    MarketWords :=
  { w with
    long := { w.long with adlCoeff := k.1, fNum := f.1 }
    short := { w.short with adlCoeff := k.2, fNum := f.2 }
    currentSlot := nowSlot, lastMarketSlot := nowSlot
    lastOraclePrice := oraclePrice, fundPxLast := oraclePrice }

/-- The indices and the clock after a mark to `oraclePrice` and `totalDt` slots of funding. -/
def moveIndices (w : MarketWords) (nowSlot oraclePrice totalDt : U64) (rate : U128) :
    Except Halt MarketWords := do
  let longLive := decide (w.oiEffLongQ ≠ 0)
  let shortLive := decide (w.oiEffShortQ ≠ 0)
  let deltaP ← okOr (checkedSubI128 (oraclePrice.setWidth 128) (w.lastOraclePrice.setWidth 128))
  let k ← markIndices w.long w.short longLive shortLive deltaP
  let f ← fundIndices w.long w.short longLive shortLive w.fundPxLast rate totalDt
  return w.accrued nowSlot oraclePrice k f

/-- `accrue_market_to` past its checks of price, rate and time. -/
def advance (w : MarketWords) (nowSlot oraclePrice : U64) (rate : U128) : Except Halt MarketWords :=
  let totalDt := nowSlot - w.lastMarketSlot
  if totalDt = 0 ∧ w.lastOraclePrice = oraclePrice then .ok { w with currentSlot := nowSlot }
  else if (rate ≠ 0 ∧ w.oiEffLongQ ≠ 0 ∧ w.oiEffShortQ ≠ 0 ∧ w.fundPxLast ≠ 0) ∧
      w.maxAccrualDtSlots.toNat < totalDt.toNat then .error .overflow
  else moveIndices w nowSlot oraclePrice totalDt rate

/-- `accrue_market_to` in a Live market. -/
def accrueMarketTo (w : MarketWords) (nowSlot oraclePrice : U64) (rate : U128) :
    Except Halt MarketWords :=
  if oraclePrice = 0 ∨ MAX_ORACLE_PRICE < oraclePrice.toNat then .error .overflow
  else if w.maxAbsFundingE9PerSlot.toNat < (unsignedAbs rate).toNat then .error .overflow
  else if nowSlot.toNat < w.currentSlot.toNat then .error .overflow
  else if nowSlot.toNat < w.lastMarketSlot.toNat then .error .overflow
  else advance w nowSlot oraclePrice rate

/-- Two prices are far too small for their difference to overflow. -/
theorem checkedSubI128_prices (p p' : U64) :
    ∃ d, checkedSubI128 (p.setWidth 128) (p'.setWidth 128) = some d ∧ d.toInt = (p.toNat : Int) - p'.toNat := by
  have hp := p.isLt
  have hp' := p'.isLt
  have wide (v : U64) : (v.setWidth 128).toInt = v.toNat := by
    have := v.isLt
    rw [toInt_small (by rw [toNat_widened]; omega), toNat_widened]
  refine ⟨p.setWidth 128 - p'.setWidth 128, if_pos ?_, ?_⟩
  · rw [wide, wide]
    unfold I128_MIN I128_MAX
    omega
  · rw [BitVec.toInt_sub, wide, wide]
    have := Int.bmod_def ((p.toNat : Int) - p'.toNat) (2 ^ 128)
    omega

section Run

variable {s : RiskEngine} {w : MarketWords}

/-- `accrue_market_to` on words is `accrue_market_to` of the model in every Live
market: the same indices and clock, the same overflow, no panic. -/
theorem accrueMarketTo_words {nowSlot oraclePrice : U64} {rate : U128} (hold : w.Hold s)
    (live : s.marketMode = .live) :
    (∀ s' l', Percolator.accrueMarketTo nowSlot.toNat oraclePrice.toNat rate.toInt s = .ok () s' l' →
      ∃ w', accrueMarketTo w nowSlot oraclePrice rate = .ok w' ∧ w'.Hold s') ∧
    ∀ e s', Percolator.accrueMarketTo nowSlot.toNat oraclePrice.toNat rate.toInt s = .fault e s' →
      e = .err .overflow ∧ accrueMarketTo w nowSlot oraclePrice rate = .error .overflow := by
  set Q : Unit → RiskEngine → List Event → Prop := fun _ s' _ =>
    ∃ w', accrueMarketTo w nowSlot oraclePrice rate = .ok w' ∧ w'.Hold s' with hQ
  set E : Plain → RiskEngine → Prop := fun e _ =>
    e = .err .overflow ∧ accrueMarketTo w nowSlot oraclePrice rate = .error .overflow with hE
  suffices ran : wp (Percolator.accrueMarketTo nowSlot.toNat oraclePrice.toNat rate.toInt) Q E s [] from
    ⟨fun s' l' run => wp_at ran run, fun e s' run => wp_sound_fault (E := E) run ran⟩
  have magnitude : (unsignedAbs rate).toNat = rate.toInt.natAbs := toNat_unsignedAbs rate
  simp only [Percolator.accrueMarketTo, wp_bind, wp_read, wp_ite, wp_rejectIf, wp_update,
    wp_writeSide, wp_emit]
  simp only [hold.maxAbsFundingE9PerSlot, hold.currentSlot, hold.lastMarketSlot, hold.lastOraclePrice,
    hold.fundPxLast, hold.maxAccrualDtSlots, hold.oiEffLongQ, hold.oiEffShortQ, ← magnitude,
    toNat_eq_zero_iff, toInt_eq_zero_iff, Nat.pos_iff_ne_zero, ne_eq,
    decide_eq_true_eq]
  have halts (c : accrueMarketTo w nowSlot oraclePrice rate = .error .overflow) (s' : RiskEngine) :
      E (.err .overflow) s' := ⟨rfl, c⟩
  refine ⟨fun dead => absurd live dead, fun _ => ⟨fun unpriced => halts ?_ s, fun priced =>
    ⟨fun steep => halts ?_ s, fun bounded => ⟨fun early => halts ?_ s, fun reached =>
      ⟨fun early => halts ?_ s, fun forward => ?_⟩⟩⟩⟩⟩
  · exact if_pos unpriced
  · exact (if_neg priced).trans (if_pos steep)
  · exact (if_neg priced).trans ((if_neg bounded).trans (if_pos early))
  · exact (if_neg priced).trans ((if_neg bounded).trans ((if_neg reached).trans (if_pos early)))
  have totalDt : (nowSlot - w.lastMarketSlot).toNat = nowSlot.toNat - w.lastMarketSlot.toNat :=
    BitVec.toNat_sub_of_le (not_lt.mp forward)
  have unmoved : nowSlot.toNat - w.lastMarketSlot.toNat = 0 ↔ nowSlot - w.lastMarketSlot = 0 := by
    rw [← totalDt, toNat_eq_zero_iff]
  rw [unmoved, BitVec.toNat_inj, ← totalDt]
  have past : accrueMarketTo w nowSlot oraclePrice rate = advance w nowSlot oraclePrice rate :=
    (if_neg priced).trans ((if_neg bounded).trans ((if_neg reached).trans (if_neg forward)))
  refine ⟨fun still => ⟨_, past.trans (if_pos still), ?_⟩, fun moves =>
    ⟨fun far => halts (past.trans ?_) s, fun near => ?_⟩⟩
  · exact ⟨hold.long, hold.short, hold.oiEffLongQ, hold.oiEffShortQ, rfl, hold.lastMarketSlot,
      hold.lastOraclePrice, hold.fundPxLast, hold.maxAccrualDtSlots, hold.maxAbsFundingE9PerSlot⟩
  · exact (if_neg moves).trans (if_pos far)
  obtain ⟨deltaP, difference, value⟩ := checkedSubI128_prices oraclePrice w.lastOraclePrice
  have words : accrueMarketTo w nowSlot oraclePrice rate =
      markIndices w.long w.short (decide ¬ w.oiEffLongQ = 0) (decide ¬ w.oiEffShortQ = 0) deltaP >>= fun k =>
        fundIndices w.long w.short (decide ¬ w.oiEffLongQ = 0) (decide ¬ w.oiEffShortQ = 0) w.fundPxLast
          rate (nowSlot - w.lastMarketSlot) >>= fun f => .ok (w.accrued nowSlot oraclePrice k f) := by
    refine past.trans ((if_neg moves).trans ((if_neg near).trans ?_))
    unfold moveIndices
    rw [difference]
    rfl
  rw [← value]
  refine wp_orErr_computes (markIndices_computes deltaP hold.long hold.short) (fun k marked => ?_)
    fun overflow => ?_
  · refine wp_orErr_computes (fundIndices_computes rate (nowSlot - w.lastMarketSlot) hold.long hold.short
      hold.fundPxLast) (fun f funded => ?_) fun overflow => ?_
    · refine ⟨w.accrued nowSlot oraclePrice k f, ?_, ?_⟩
      · rw [words, marked, ok_bind, funded, ok_bind]
      · exact ⟨⟨hold.long.adlMult, rfl, rfl⟩, ⟨hold.short.adlMult, rfl, rfl⟩, hold.oiEffLongQ,
          hold.oiEffShortQ, rfl, rfl, rfl, rfl, hold.maxAccrualDtSlots, hold.maxAbsFundingE9PerSlot⟩
    · exact halts (by rw [words, marked, ok_bind, overflow]; rfl) s
  · exact halts (by rw [words, overflow]; rfl) s

/-- The words of `tradedMarket`. -/
def tradedMarketWords : MarketWords where
  long := ⟨1000000000000000, 0, 0⟩
  short := ⟨1000000000000000, 0, 0⟩
  oiEffLongQ := 50000000
  oiEffShortQ := 50000000
  currentSlot := 101
  lastMarketSlot := 101
  lastOraclePrice := 1000
  fundPxLast := 1000
  maxAccrualDtSlots := 100
  maxAbsFundingE9PerSlot := 0

/-- A rise of 40 moves the two K indices apart. -/
theorem tradedMarket_accrueMarketTo_words :
    ∃ w', accrueMarketTo tradedMarketWords 110 1040 0 = .ok w' ∧
      w'.long.adlCoeff.toInt = 40000000000000000 ∧ w'.short.adlCoeff.toInt = -40000000000000000 ∧
      w'.lastMarketSlot.toNat = 110 := by
  have hold : tradedMarketWords.Hold tradedMarket :=
    ⟨⟨by decide +kernel, by decide +kernel, by decide +kernel⟩,
      ⟨by decide +kernel, by decide +kernel, by decide +kernel⟩, by decide +kernel, by decide +kernel,
      by decide +kernel, by decide +kernel, by decide +kernel, by decide +kernel, by decide +kernel,
      by decide +kernel⟩
  set o := Percolator.accrueMarketTo (110 : U64).toNat (1040 : U64).toNat (0 : U128).toInt tradedMarket with ho
  have moved : o.ended = true ∧ (o.final.sides .long).adlCoeff = 40000000000000000 ∧
      (o.final.sides .short).adlCoeff = -40000000000000000 ∧ o.final.lastMarketSlot = 110 := by
    decide +kernel
  obtain ⟨_, _, run⟩ := Outcome.eq_ok moved.1
  obtain ⟨w', words, held⟩ := (accrueMarketTo_words hold (by decide +kernel)).1 _ _ (ho.symm.trans run)
  refine ⟨w', words, ?_, ?_, ?_⟩
  · exact held.long.adlCoeff.symm.trans moved.2.1
  · exact held.short.adlCoeff.symm.trans moved.2.2.1
  · exact held.lastMarketSlot.symm.trans moved.2.2.2

end Run

end Wide
end Percolator
