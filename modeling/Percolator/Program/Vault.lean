import Percolator.Engine.Fixtures
import Percolator.Program.Runs

/-!
The vault of a market: what the engine writes down is what the token account holds.

An engine call moves the vault by the tokens the handler transfers beside it, and the bounties, which
the program pays out by writing to the engine itself, come out of the vault and of capital or
insurance alike.
-/

namespace Percolator

open Effect

variable {s s' : RiskEngine} {i amount now price hMin hMax : Nat} {rate : Int} {l : List Event}

-- the search for an instance goes through the whole body of a function
set_option synthInstance.maxSize 1000000

/-! ### The vault under the engine -/

instance {ε α : Type} {m : Effect ε Event RiskEngine α} [h : Fixed m] : Keeps RiskEngine.vault m := h.image Fixtures.vault

instance : Keeps RiskEngine.vault (materializeAt i now) := by
  constructor
  intro s a s' l ok
  refine wp_sound (Q := fun _ s' _ => s'.vault = s.vault) ok ?_
  simp only [materializeAt, wp_bind, wp_read, wp_rejectIf, wp_failIf, wp_writeAccount, wp_update, wp_orErr, implies_true,
    true_and]
  intros
  rfl

instance : Keeps RiskEngine.vault (freeSlot i) := by
  constructor
  intro s a s' l ok
  refine wp_sound (Q := fun _ s' _ => s'.vault = s.vault) ok ?_
  simp only [freeSlot, wp_bind, wp_read, wp_rejectIf, wp_writeAccount, wp_update, wp_orErr, implies_true, true_and]
  intros
  rfl

instance : Keeps RiskEngine.vault (reclaimEmptyAccount i now) := by
  dsimp only [reclaimEmptyAccount]
  infer_instance

instance {owner : Bytes32} : Keeps RiskEngine.vault (setOwner i owner) := by
  constructor
  intro s a s' l ok
  refine wp_sound (Q := fun _ s' _ => s'.vault = s.vault) ok ?_
  simp only [setOwner, wp_bind, wp_read, wp_lift, wp_rejectIf, wp_writeAccount, implies_true, true_and]
  intros
  rfl

/-- A deposit adds its amount. -/
theorem deposit_vault (ok : deposit i amount now s = .ok () s' l) : s'.vault = s.vault + amount := by
  refine wp_sound (Q := fun _ s' _ => s'.vault = s.vault + amount) ok ?_
  simp only [deposit, vaultAfter, creditDeposit, wp_bind, wp_read, wp_lift, wp_rejectIf, wp_orErr, wp_pure, implies_true,
    true_and]
  intro _ _ _
  refine Keeps.wp (v := RiskEngine.vault) fun _ _ _ _ v sum _ => ?_
  obtain ⟨rfl, -⟩ := checkedAddU128_eq sum
  refine Keeps.wp (v := RiskEngine.vault) fun _ s₁ _ _ => ?_
  rw [wp_update]
  intro _ cap _
  refine Keeps.wp (v := RiskEngine.vault) fun _ s₂ _ credited => ?_
  refine Keeps.wp (v := RiskEngine.vault) fun _ s₃ _ settled => ?_
  refine Keeps.wp (v := RiskEngine.vault) fun _ s₄ _ swept => ?_
  refine Keeps.wp (v := RiskEngine.vault) fun _ s₅ _ checked => ?_
  exact checked.trans (swept.trans (settled.trans credited))

/-- A withdrawal takes its amount. -/
theorem withdraw_vault (ok : withdraw i amount price now rate hMin hMax s = .ok () s' l) :
    s.vault = s'.vault + amount := by
  refine wp_sound (Q := fun _ s' _ => s.vault = s'.vault + amount) ok ?_
  simp only [withdraw, payOut, wp_bind, wp_read, wp_lift, wp_rejectIf, wp_orErr, implies_true, true_and]
  refine Keeps.wp (v := RiskEngine.vault) fun _ s₁ _ same₁ => ?_
  intro _ _ _
  refine Keeps.wp (v := RiskEngine.vault) fun _ s₂ _ same₂ => ?_
  refine Keeps.wp (v := RiskEngine.vault) fun ctx s₃ _ same₃ => ?_
  refine Keeps.wp (v := RiskEngine.vault) fun _ s₄ _ same₄ => ?_
  intro _ _
  refine Keeps.wp (v := RiskEngine.vault) fun _ s₅ _ same₅ => ?_
  refine Keeps.wp (v := RiskEngine.vault) fun _ s₆ _ same₆ => ?_
  intro v paid
  rw [wp_update]
  refine Keeps.wp (v := RiskEngine.vault) fun _ s₇ _ same₇ => ?_
  refine Keeps.wp (v := RiskEngine.vault) fun _ s₈ _ same₈ => ?_
  have before : s₅.vault = s.vault := same₅.trans (same₄.trans (same₃.trans (same₂.trans same₁)))
  have after : s₈.vault = v := same₈.trans same₇
  rw [after, ← before]
  exact checkedSub_eq paid

/-! ### The transfers of a handler -/

namespace Program

variable {m : Slab} {user : Bytes32} {feed : List Byte} {slot : UInt64} {ts : List Transfer}

/-- The transfers of a handler do to the vault what the handler writes. -/
def Matched (s s' : RiskEngine) (ts : List Transfer) : Prop := settleTransfers ts s.vault = some s'.vault

theorem depositSlot_spec :
    wp (depositSlot user) (fun r s' ts => s' = s ∧ ts = [] ∧
      (r.2 = false ∧ findOwner s user = some r.1 ∨
        r.2 = true ∧ findOwner s user = none ∧ s.freeHead ≠ NIL ∧ r.1 = s.freeHead)) (fun _ _ => True) s [] := by
  simp only [depositSlot, reject, wp_bind, wp_read]
  cases found : findOwner s user with
  | none =>
      rw [wp_bind, wp_failIf]
      exact ⟨fun _ => trivial, fun free => wp_pure.mpr ⟨rfl, rfl, .inr ⟨rfl, rfl, free, rfl⟩⟩⟩
  | some i => exact wp_pure.mpr ⟨rfl, rfl, .inl ⟨rfl, rfl⟩⟩

theorem processDeposit_matched {args : DepositArgs} :
    wp (processDeposit user args slot) (fun _ s' ts => Matched s s' ts) (fun _ _ => True) s [] := by
  simp only [processDeposit, reject, wp_bind, wp_failIf, implies_true, true_and]
  intro _
  refine wp_mono depositSlot_spec ?_ fun _ _ _ => trivial
  rintro ⟨i, fresh⟩ s₀ ts ⟨rfl, rfl, -⟩
  simp only [wp_whenever, wp_emit]
  refine wp_callEngine fun _ s₁ l₁ ok => ?_
  have paid := deposit_vault ok
  have moved : settleTransfers [.toVault args.amount.toNat] s₀.vault = some s₁.vault := by
    rw [paid]
    rfl
  refine ⟨fun _ => ?_, fun _ => moved⟩
  refine wp_callEngine fun _ s₂ l₂ named => ?_
  have same : s₂.vault = s₁.vault := Keeps.kept named
  unfold Matched
  rw [same]
  exact moved

theorem processWithdraw_matched {args : WithdrawArgs} :
    wp (processWithdraw user args slot) (fun _ s' ts => Matched s s' ts) (fun _ _ => True) s [] := by
  simp only [processWithdraw, reject, okOr, wp_bind, wp_failIf, wp_read, wp_demand, wp_emit, implies_true, true_and]
  intro _ i _
  refine wp_callEngine fun _ s₁ l₁ ok => ?_
  have paid := withdraw_vault ok
  show settleTransfers [.fromVault args.amount.toNat] s.vault = some s₁.vault
  rw [paid]
  exact (if_pos (Nat.le_add_left _ _)).trans (congrArg some (Nat.add_sub_cancel _ _))

theorem processBootstrapLp_matched {args : BootstrapLpArgs} :
    wp (processBootstrapLp args slot) (fun _ s' ts => Matched s s' ts) (fun _ _ => True) s [] := by
  simp only [processBootstrapLp, reject, wp_bind, wp_failIf, wp_read, wp_update, wp_emit, implies_true, true_and]
  intro _ _ _
  refine wp_callEngine fun _ s₁ l₁ ok => ?_
  show settleTransfers [.toVault args.amount.toNat] s.vault = some s₁.vault
  rw [deposit_vault ok]
  rfl

theorem processPlaceOrder_matched {args : PlaceOrderArgs} :
    wp (processPlaceOrder user args feed slot) (fun _ s' ts => Matched s s' ts) (fun _ _ => True) s [] := by
  simp only [processPlaceOrder, sideModeGate, reject, okOr, wp_bind, wp_failIf, implies_true, true_and]
  intro _ _ _
  refine wp_oraclePrice fun price => ?_
  simp only [wp_read, wp_demand, implies_true, true_and]
  intro _ i _ _ cur _ _
  refine wp_callEngine fun _ s₁ l₁ ok => ?_
  have same : s₁.vault = s.vault := Keeps.kept ok
  exact congrArg some same.symm

/-- The bounty comes out of the capital of the liquidated account and out of the vault. -/
theorem payLiquidationBounty_vault {i b : Nat} {ts : List Transfer} :
    wp (payLiquidationBounty i b) (fun _ s' ts' => ts' = ts ∧ s.vault = s'.vault + b) (fun _ _ => True) s ts := by
  simp only [payLiquidationBounty, okOr, wp_bind, wp_read, wp_update, wp_demand, implies_true, true_and]
  intro newCTot _ newV paid
  exact checkedSub_eq paid

theorem processLiquidate_matched {args : LiquidateArgs} (h : Sound s) :
    wp (processLiquidate args feed slot) (fun _ s' ts => Matched s s' ts) (fun _ _ => True) s [] := by
  simp only [processLiquidate, reject, wp_bind, wp_read, wp_failIf, implies_true, true_and]
  intro _ _
  refine wp_oraclePrice fun price => ?_
  intro _
  refine wp_callEngine fun did s₁ l₁ ok => ?_
  have same : s₁.vault = s.vault := Keeps.kept ok
  have books := h.books
  simp only [wp_whenever, wp_emit]
  intro _
  set b := min (saturatingMulU128 (s.accounts args.victimSlot.toNat).capital LIQ_BOUNTY_BPS / 10000)
    (s₁.accounts args.victimSlot.toNat).capital
  constructor
  · intro due
    refine wp_mono payLiquidationBounty_vault ?_ fun _ _ _ => trivial
    rintro _ s₂ ts ⟨rfl, paid⟩
    -- the vault holds less than a word, so the cast keeps the whole bounty
    have cast : b % 2 ^ 64 = b := by
      have cap := books.vault_le
      refine Nat.mod_eq_of_lt ?_
      rw [← same, paid] at cap
      exact Nat.lt_of_le_of_lt ((Nat.le_add_left _ _).trans cap) (by decide)
    refine ⟨fun _ => ?_, fun none => absurd due none⟩
    show settleTransfers [.fromVault (b % 2 ^ 64)] s.vault = some s₂.vault
    rw [cast, ← same, paid]
    exact (if_pos (Nat.le_add_left _ _)).trans (congrArg some (Nat.add_sub_cancel _ _))
  · intro none
    exact ⟨fun due => absurd due none, fun _ => congrArg some same.symm⟩

/-! ### Cranks -/

/-- The work of a crank moves no tokens. -/
def Still (s s' : RiskEngine) (ts : List Transfer) : Prop := s'.vault = s.vault ∧ ts = []

theorem crankFunding_still : wp (crankFunding slot) (fun _ s' ts => Still s s' ts) (fun _ _ => True) s [] := by
  simp only [crankFunding, reject, wp_bind, wp_read, wp_failIf, wp_update, implies_true, true_and]
  intro _
  refine wp_callEngine fun _ s₁ l₁ ok => ?_
  have same : s₁.vault = s.vault := Keeps.kept ok
  exact ⟨same, rfl⟩

theorem crankAdlReset_still : wp (crankAdlReset slot) (fun _ s' ts => Still s s' ts) (fun _ _ => True) s [] := by
  simp only [crankAdlReset, reject, okOr, wp_bind, wp_read, wp_demand, wp_failIf, implies_true, true_and]
  intro anchor _
  refine wp_callEngine fun _ s₁ l₁ ok => ?_
  have same : s₁.vault = s.vault := Keeps.kept ok
  exact fun _ => ⟨same, rfl⟩

theorem crankGc_still (h : Sound s) : wp (crankGc slot) (fun _ s' ts => Still s s' ts) (fun _ _ => True) s [] := by
  refine wp_ok fun _ s' _ ok => ?_
  obtain ⟨rfl, g, scan, -, rfl⟩ := crankGc_ok ok
  refine ⟨(h.gcLoop (I := fun e => e.vault = s.vault) ?_ _ rfl scan).2, rfl⟩
  intro e e' i l _ same _ _ reclaimed
  exact (Keeps.kept (v := RiskEngine.vault) reclaimed).trans same

/-- The bounty of a crank comes out of insurance above its floor, and out of the vault. -/
theorem payCrankBounty_spec :
    wp payCrankBounty (fun _ s' ts => Matched s s' ts ∧
      (s'.insuranceFund < s.insuranceFund → s.params.insuranceFloor ≤ s'.insuranceFund)) (fun _ _ => True) s [] := by
  simp only [payCrankBounty, okOr, wp_bind, wp_read, wp_whenever, wp_update, wp_demand, wp_emit, implies_true, true_and]
  set pay := min (s.insuranceFund - s.params.insuranceFloor) CRANK_BOUNTY
  have floor : pay ≤ s.insuranceFund - s.params.insuranceFloor := min_le_left _ _
  constructor
  · intro due newV paid
    have vault : s.vault = newV + pay := checkedSub_eq paid
    refine ⟨fun _ => ⟨?_, fun _ => ?_⟩, fun none => absurd due none⟩
    · show settleTransfers [.fromVault pay] s.vault = some newV
      rw [vault]
      exact (if_pos (Nat.le_add_left _ _)).trans (congrArg some (Nat.add_sub_cancel _ _))
    · show s.params.insuranceFloor ≤ s.insuranceFund - pay
      omega
  · intro none
    refine ⟨fun due => absurd due none, fun _ => ⟨rfl, fun less => ?_⟩⟩
    exact absurd less (lt_irrefl _)

theorem matched_after_work {work : Handler Unit} (still : wp work (fun _ s' ts => Still s s' ts) (fun _ _ => True) s []) :
    wp (work >>= fun _ => payCrankBounty) (fun _ s' ts => Matched s s' ts) (fun _ _ => True) s [] := by
  rw [wp_bind]
  refine wp_mono still ?_ fun _ _ _ => trivial
  rintro _ s₁ _ ⟨same, rfl⟩
  refine wp_mono payCrankBounty_spec ?_ fun _ _ _ => trivial
  rintro _ s₂ ts ⟨paid, -⟩
  unfold Matched at *
  rw [← same]
  exact paid

theorem processCrank_matched {args : CrankArgs} (h : Sound s) :
    wp (processCrank args slot) (fun _ s' ts => Matched s s' ts) (fun _ _ => True) s [] := by
  unfold processCrank okOr
  rw [wp_bind, wp_demand]
  refine ⟨fun _ => trivial, ?_⟩
  intro kind _
  cases kind with
  | funding => exact matched_after_work crankFunding_still
  | gc => exact matched_after_work (crankGc_still h)
  | adlReset => exact matched_after_work crankAdlReset_still

/-! ### Every market -/

theorem process_matched (h : Sound s) (request : Request) :
    wp (request.process slot) (fun _ s' ts => Matched s s' ts) (fun _ _ => True) s [] := by
  cases request with
  | deposit user args => exact processDeposit_matched
  | withdraw user args => exact processWithdraw_matched
  | bootstrapLp args => exact processBootstrapLp_matched
  | placeOrder user args feed => exact processPlaceOrder_matched
  | liquidate args feed => exact processLiquidate_matched h
  | crank args => exact processCrank_matched h

/-- The books of a market are the tokens it holds, and they cover what it owes. -/
structure Backed (m : Slab) : Prop where
  tokens : m.engine.vault = m.vaultTokens
  solvent : m.engine.cTot + m.engine.insuranceFund ≤ m.engine.vault
  capital : m.engine.cTot = tally m.engine.usedSlots m.engine.accounts Account.capital

theorem Transaction.tokens {m m' : Slab} {ls : List (Request × UInt64)} (h : Sound m.engine)
    (matched : m.engine.vault = m.vaultTokens) (t : Transaction m ls m') : m'.engine.vault = m'.vaultTokens := by
  cases t with
  | rolledBack => exact matched
  | @committed _ request slot ok =>
      unfold Request.execute at ok
      cases run : request.process slot m.engine with
      | fault f engine =>
          rw [run] at ok
          cases ok
      | ok _ engine ts =>
          rw [run] at ok
          obtain ⟨vaultTokens, settled, rfl⟩ := Option.map_eq_some_iff.mp ok
          have moved : settleTransfers ([] ++ ts) m.engine.vault = some engine.vault := wp_at (process_matched h request) run
          rw [matched, List.nil_append, settled] at moved
          exact (Option.some.inj moved).symm

/-- In every market that the instructions of the program reach, the engine's vault is the balance of the
token account, it covers the capitals and insurance, and `c_tot` is the sum of the capitals; and no bounty
of a crank leaves insurance below its floor. -/
theorem Reachable.vault_backed {m : Slab} (h : Reachable m) :
    Backed m ∧ ∀ s s' ts, payCrankBounty s = .ok () s' ts → s'.insuranceFund < s.insuranceFund →
      s.params.insuranceFloor ≤ s'.insuranceFund := by
  have sound := h.sound
  obtain ⟨m₀, l, initial, run⟩ := h
  have start : m₀.engine.vault = m₀.vaultTokens := by
    obtain ⟨s₀, args, slot, l₀, -, ok, empty⟩ := initial
    rw [empty]
    refine wp_sound (Q := fun _ s _ => s.vault = 0) ok ?_
    simp only [initInPlace, validateParams, wp_bind, wp_read, wp_failIf, wp_update, implies_true, true_and]
    intro _ _
    rfl
  have matched := (run.invariant (I := fun m => Sound m.engine ∧ m.engine.vault = m.vaultTokens)
    (fun _ _ _ both t => ⟨(t.kept both.1).sound, t.tokens both.1 both.2⟩) ⟨initial.sound, start⟩).2
  refine ⟨⟨matched, sound.books.backed, sound.books.cTot⟩, ?_⟩
  intro s s' ts ok
  exact (wp_at payCrankBounty_spec ok).2

/-- After a liquidation that paid its bounty. -/
theorem drainedSlab_vault_backed :
    Backed drainedSlab ∧ ∀ s s' ts, payCrankBounty s = .ok () s' ts → s'.insuranceFund < s.insuranceFund →
      s.params.insuranceFloor ≤ s'.insuranceFund :=
  Reachable.vault_backed drainedSlab_reachable

end Program

end Percolator
