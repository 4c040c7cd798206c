import Percolator.Program.History

/-!
What leaves the vaults.

A request moves tokens in one direction at most. Out of a vault they go for a withdrawal to the signer of the
withdrawal, for a liquidation up to the bounty, and for a crank out of insurance above its floor.
-/

namespace Percolator.Program

open Effect

variable {rt : Runtime} {L L' : Ledger} {rs rs' : List Receipt} {k v user : Pubkey} {d : SlabData} {h : SlabHeader}
  {slot : UInt64} {ts : List Transfer} {t u u' : TokenAccount} {s s' : RiskEngine} {feed : List Byte} {n m : Nat}

/-! ### The transfers of a request -/

/-- What a request pays out of the vault, from the engine before it and the one after. -/
def Request.Pays (s s' : RiskEngine) : Request → Nat → Prop
  | .withdraw user args, n => n = args.amount.toNat ∧ ∃ i, findOwner s user = some i
  | .liquidate args _, n => s.isUsed args.victimSlot.toNat = true ∧
      n ≤ (s.accounts args.victimSlot.toNat).capital * LIQ_BOUNTY_BPS / 10000
  | .crank _, n => n ≤ CRANK_BOUNTY ∧ s'.params.insuranceFloor ≤ s'.insuranceFund
  | _, _ => False

/-- Nothing is moved, or a payment to the vault, or one out of it. -/
inductive Request.Moves (s s' : RiskEngine) (request : Request) : List Transfer → Prop
  | none : request.Moves s s' []
  | into (amount : Nat) : request.Moves s s' [.toVault amount]
  | out (amount : Nat) (pays : request.Pays s s' amount) : request.Moves s s' [.fromVault amount]

theorem processDeposit_moves {args : DepositArgs} :
    wp (processDeposit user args slot) (fun _ s' ts => (Request.deposit user args).Moves s s' ts) (fun _ _ => True) s [] := by
  simp only [processDeposit, reject, wp_bind, wp_failIf, implies_true, true_and]
  intro _
  refine wp_mono depositSlot_spec ?_ fun _ _ _ => trivial
  rintro ⟨i, fresh⟩ s₀ ts ⟨rfl, rfl, -⟩
  simp only [wp_whenever, wp_emit]
  refine wp_callEngine fun _ s₁ l₁ ok => ?_
  refine ⟨fun _ => ?_, fun _ => .into _⟩
  exact wp_callEngine fun _ s₂ l₂ named => .into _

theorem processWithdraw_moves {args : WithdrawArgs} :
    wp (processWithdraw user args slot) (fun _ s' ts => (Request.withdraw user args).Moves s s' ts)
      (fun _ _ => True) s [] := by
  simp only [processWithdraw, reject, okOr, wp_bind, wp_failIf, wp_read, wp_demand, wp_emit, implies_true, true_and]
  intro _ i owned
  exact wp_callEngine fun _ s₁ l₁ ok => .out _ ⟨rfl, i, owned⟩

theorem processBootstrapLp_moves {args : BootstrapLpArgs} :
    wp (processBootstrapLp args slot) (fun _ s' ts => (Request.bootstrapLp args).Moves s s' ts) (fun _ _ => True) s [] := by
  simp only [processBootstrapLp, reject, wp_bind, wp_failIf, wp_read, wp_update, wp_emit, implies_true, true_and]
  intro _ _ _
  exact wp_callEngine fun _ s₁ l₁ ok => .into _

theorem processLiquidate_moves {args : LiquidateArgs} :
    wp (processLiquidate args feed slot) (fun _ s' ts => (Request.liquidate args feed).Moves s s' ts)
      (fun _ _ => True) s [] := by
  simp only [processLiquidate, reject, wp_bind, wp_read, wp_failIf, implies_true, true_and, Bool.not_eq_false]
  intro _ _
  refine wp_oraclePrice fun price => ?_
  intro used
  refine wp_callEngine fun did s₁ l₁ ok => ?_
  simp only [wp_whenever, wp_emit]
  intro _
  set target := saturatingMulU128 (s.accounts args.victimSlot.toNat).capital LIQ_BOUNTY_BPS / 10000
  set bounty := min target (s₁.accounts args.victimSlot.toNat).capital
  have capped : bounty % 2 ^ 64 ≤ (s.accounts args.victimSlot.toNat).capital * LIQ_BOUNTY_BPS / 10000 :=
    calc bounty % 2 ^ 64 ≤ bounty := Nat.mod_le _ _
      _ ≤ target := min_le_left _ _
      _ ≤ (s.accounts args.victimSlot.toNat).capital * LIQ_BOUNTY_BPS / 10000 := Nat.div_le_div_right (min_le_left _ _)
  constructor
  · intro due
    refine wp_mono payLiquidationBounty_vault ?_ fun _ _ _ => trivial
    rintro _ s₂ ts ⟨rfl, -⟩
    exact ⟨fun _ => .out _ ⟨used, capped⟩, fun none => absurd due none⟩
  · intro none
    exact ⟨fun due => absurd due none, fun _ => .none⟩

/-- The bounty of a crank. -/
theorem payCrankBounty_moves {args : CrankArgs} {s₀ : RiskEngine} :
    wp payCrankBounty (fun _ s' ts => (Request.crank args).Moves s₀ s' ts) (fun _ _ => True) s [] := by
  simp only [payCrankBounty, okOr, wp_bind, wp_read, wp_whenever, wp_update, wp_demand, wp_emit, implies_true, true_and]
  set pay := min (s.insuranceFund - s.params.insuranceFloor) CRANK_BOUNTY
  have floor : pay ≤ s.insuranceFund - s.params.insuranceFloor := min_le_left _ _
  constructor
  · intro due newV paid
    refine ⟨fun _ => .out _ ⟨min_le_right _ _, ?_⟩, fun none => absurd due none⟩
    show s.params.insuranceFloor ≤ s.insuranceFund - pay
    omega
  · intro none
    exact ⟨fun due => absurd due none, fun _ => .none⟩

theorem moves_after_work {args : CrankArgs} {s₀ : RiskEngine} {work : Handler Unit}
    (still : wp work (fun _ s' ts => Still s s' ts) (fun _ _ => True) s []) :
    wp (work >>= fun _ => payCrankBounty) (fun _ s' ts => (Request.crank args).Moves s₀ s' ts) (fun _ _ => True) s [] := by
  rw [wp_bind]
  refine wp_mono still ?_ fun _ _ _ => trivial
  rintro _ s₁ _ ⟨-, rfl⟩
  exact payCrankBounty_moves

theorem processCrank_moves {args : CrankArgs} (sound : Sound s) :
    wp (processCrank args slot) (fun _ s' ts => (Request.crank args).Moves s s' ts) (fun _ _ => True) s [] := by
  unfold processCrank okOr
  rw [wp_bind, wp_demand]
  refine ⟨fun _ => trivial, ?_⟩
  intro kind _
  cases kind with
  | funding => exact moves_after_work crankFunding_still
  | gc => exact moves_after_work (crankGc_still sound)
  | adlReset => exact moves_after_work crankAdlReset_still

theorem process_moves (sound : Sound s) (request : Request) :
    wp (request.process slot) (fun _ s' ts => request.Moves s s' ts) (fun _ _ => True) s [] := by
  cases request with
  | deposit user args => exact processDeposit_moves
  | withdraw user args => exact processWithdraw_moves
  | bootstrapLp args => exact processBootstrapLp_moves
  | placeOrder user args feed =>
      refine wp_mono processPlaceOrder_still ?_ fun _ _ _ => trivial
      rintro _ s' ts ⟨-, rfl⟩
      exact .none
  | liquidate args feed => exact processLiquidate_moves
  | crank args => exact processCrank_moves sound

/-! ### A step on the ledger -/

/-- Tokens have left the vault `v` of the slab `k`, to a token account of someone who signed, for a request that the
market has served. -/
def PaidOut (rt : Runtime) (L L' : Ledger) (rs : List Receipt) (k v : Pubkey) (d : SlabData) (n : Nat) : Prop :=
  ∃ request slot, rs = [.served k request slot] ∧ ∃ e, (L' k).data = .slab (d.withEngine e) ∧
    request.Pays d.engine e n ∧ ∃ c : Counter, c.vaultTa = v ∧ rt.signs c.holder ∧
      (∀ user args, request = .withdraw user args → user = c.holder) ∧
      ∃ t t', L.tokenAt c.holderTa = some t ∧ t.owner = c.holder ∧ L'.tokenAt c.holderTa = some t' ∧
        t'.amount = t.amount + n

/-- What a served request does to the balance of the vault. -/
theorem Recorded.paidOut (past : Recorded rt rs L) (lawful : rt.Lawful) (holds : L.HoldsSlab rt k d h)
    (running : h.isInitialized = true) {request : Request} {e : RiskEngine} {c : Counter} (signs : rt.signs c.holder)
    (allowed : request.Allowed rt L h c.holder) (vault : rt.createProgramAddress k h.vaultBump = some c.vaultTa)
    (checked : c.Checked L h.mint t u) (ok : request.process slot d.engine = .ok () e ts)
    (paid : forEach (invokeTransfer c) ts (L.write k (.slab (d.withEngine e))) = .ok () L' [])
    (after : L'.tokenAt c.vaultTa = some u') (falls : u'.amount < u.amount) :
    PaidOut rt L L' [.served k request slot] k c.vaultTa d (u.amount - u'.amount) := by
  obtain ⟨n, m, left⟩ := checked.left past.selfOwned lawful signs vault holds.data paid
  obtain ⟨-, -, -, m₀, w, initial, run, -, -⟩ := past.market holds running
  have sound : Sound d.engine := Reachable.sound ⟨m₀, _, initial, run⟩
  have moves : request.Moves d.engine e ts := wp_sound (Q := fun _ e ts => request.Moves d.engine e ts) ok
    (process_moves sound request)
  have balance : u'.amount = m := by
    have same := left.vault
    rw [after] at same
    exact congrArg TokenAccount.amount (Option.some.inj same)
  have settled := left.settled
  have sum := left.conserved
  cases moves with
  | none =>
      have kept : u.amount = m := Option.some.inj settled
      omega
  | into amount =>
      have grown : u.amount + amount = m := Option.some.inj settled
      omega
  | out amount pays =>
      obtain ⟨enough, rest⟩ := Option.ite_none_right_eq_some.mp settled
      have less : u.amount - amount = m := Option.some.inj rest
      have exactly : u.amount - u'.amount = amount := by omega
      rw [exactly]
      refine ⟨request, slot, rfl, e, left.slab, pays, c, rfl, signs, ?_, t, _, checked.holderAt, checked.holder, left.holder, ?_⟩
      · rintro user args rfl
        exact allowed
      · show n = t.amount + amount
        omega

end Percolator.Program
