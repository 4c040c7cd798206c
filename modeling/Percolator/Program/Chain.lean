import Percolator.Program.Accounts
import Percolator.Program.Vault

/-!
Runs of the program on a ledger of accounts.

Anyone may send any instruction with any accounts, and other programs do as they like with accounts that
are not the program's. An account comes to the program with its data zeroed, and nobody can sign for the
address of a vault.
-/

namespace Percolator.Program

open Effect

/-! ### The ledger -/

/-- An account as a transaction names it. -/
structure AccountMeta where
  key : Pubkey
  isSigner : Bool
  isWritable : Bool
deriving DecidableEq, Repr

/-- An instruction as it is sent. -/
structure Call where
  slot : UInt64
  accounts : List AccountMeta
  data : List Byte

def Call.run (rt : Runtime) (c : Call) : Invocation Unit := fun L =>
  process rt c.slot (c.accounts.map fun m => L.info m.key m.isSigner m.isWritable) c.data L

/-- The initialized token account at an address. -/
def Ledger.tokenAt (L : Ledger) (k : Pubkey) : Option TokenAccount :=
  if (L k).owner = SPL_TOKEN_ID then (L k).data.token? else none

/-- The token accounts at the addresses of vaults own themselves. -/
def Ledger.SelfOwned (rt : Runtime) (L : Ledger) : Prop :=
  ∀ ⦃k b v t⦄, rt.createProgramAddress k b = some v → L.tokenAt v = some t → t.owner = v

/-- What the program has from the chain it runs on. -/
structure Runtime.Lawful (rt : Runtime) : Prop where
  /-- No one signs for the default key. -/
  default : ¬ rt.signs 0
  /-- No one signs for an address that is derived from seeds. -/
  derived : ∀ ⦃k b v⦄, rt.createProgramAddress k b = some v → ¬ rt.signs v
  /-- The seeds of different slabs do not collide. -/
  apart : ∀ ⦃k k' b b' v⦄, rt.createProgramAddress k b = some v → rt.createProgramAddress k' b' = some v → k = k'

/-- What may happen to the ledger between two instructions of the program. -/
structure Outside (rt : Runtime) (L L' : Ledger) : Prop where
  kept : ∀ k, (L k).owner = rt.programId → (L' k).owner = rt.programId ∧ (L' k).data = (L k).data
  blank : ∀ k, (L k).owner ≠ rt.programId → (L' k).owner = rt.programId →
    ∀ d, (L' k).data = .slab d → ¬ d.Written
  /-- A token account that is its own owner only receives. -/
  receives : ∀ ⦃k b v t⦄, rt.createProgramAddress k b = some v → L.tokenAt v = some t → t.owner = v →
    ∃ t', L'.tokenAt v = some t' ∧ t'.mint = t.mint ∧ t.amount ≤ t'.amount
  selfOwned : L'.SelfOwned rt

/-- One successful instruction, or whatever else happens between two of them. A failed instruction changes
nothing. -/
inductive Step (rt : Runtime) : Ledger → List Receipt → Ledger → Prop
  | invoked {L L' : Ledger} {rs : List Receipt} (c : Call)
      (signed : ∀ m ∈ c.accounts, m.isSigner = true → rt.signs m.key) (ok : c.run rt L = .ok () L' rs) : Step rt L rs L'
  | failed {L : Ledger} : Step rt L [] L
  | outside {L L' : Ledger} (other : Outside rt L L') : Step rt L [] L'

/-- A ledger before the first instruction of the program. -/
structure Genesis (rt : Runtime) (L : Ledger) : Prop where
  blank : ∀ k, (L k).owner = rt.programId → ∀ d, (L k).data = .slab d → ¬ d.Written
  selfOwned : L.SelfOwned rt

/-- `L` is reached with the receipts `rs`. -/
def Reached (rt : Runtime) (rs : List Receipt) (L : Ledger) : Prop :=
  ∃ L₀, Genesis rt L₀ ∧ Run (Step rt) L₀ rs L

/-- An account of the program as long as a slab, with its data and the header in it. -/
structure Ledger.HoldsSlab (L : Ledger) (rt : Runtime) (k : Pubkey) (d : SlabData) (h : SlabHeader) : Prop where
  owner : (L k).owner = rt.programId
  data : (L k).data = .slab d
  header : d.header = SlabHeader.layout.write h

/-! ### What the checks say -/

variable {rt : Runtime} {L L' L₁ : Ledger} {rs : List Receipt} {k v : Pubkey} {d : SlabData} {h : SlabHeader} {slot : UInt64}
  {ts : List Transfer} {c : Counter} {a slab holder holderTa vaultTa : AccountInfo} {accounts : List AccountInfo}

/-- The account is as the ledger has it, and its signature is a real one. -/
structure AccountInfo.Shown (a : AccountInfo) (rt : Runtime) (L : Ledger) : Prop where
  owner : a.owner = (L a.key).owner
  data : a.data = (L a.key).data
  signed : a.isSigner = true → rt.signs a.key

theorem AccountData.slab?_eq {x : AccountData} : x.slab? = some d ↔ x = .slab d := by
  cases x <;> simp [AccountData.slab?]

theorem AccountData.token?_eq {x : AccountData} {t : TokenAccount} : x.token? = some t ↔ x = .token t := by
  cases x <;> simp [AccountData.token?]

theorem Ledger.tokenAt_eq {t : TokenAccount} :
    L.tokenAt k = some t ↔ (L k).owner = SPL_TOKEN_ID ∧ (L k).data = .token t := by
  unfold Ledger.tokenAt
  rw [← AccountData.token?_eq]
  split_ifs with owner
  · exact ⟨fun data => ⟨owner, data⟩, fun both => both.2⟩
  · exact ⟨fun none => absurd none (by rintro ⟨⟩), fun both => absurd both.1 owner⟩

theorem wp_ownedSlab {Q : SlabData → Ledger → List Receipt → Prop} (shown : slab.Shown rt L)
    (post : ∀ d, (L slab.key).owner = rt.programId → (L slab.key).data = .slab d → Q d L rs) :
    wp (ownedSlab rt slab) Q (fun _ _ => True) L rs := by
  simp only [ownedSlab, refuseIf, okOrRefuse, wp_bind, wp_failIf, wp_demand, implies_true, true_and, not_not]
  intro owner d data
  rw [shown.owner] at owner
  rw [shown.data] at data
  exact post d owner (AccountData.slab?_eq.mp data)

/-- The header that a slab's bytes are read as is the one they are written from. -/
theorem wp_readHeader {Q : SlabHeader → Ledger → List Receipt → Prop}
    (post : ∀ h, d.header = SlabHeader.layout.write h → Q h L rs) :
    wp (orRefuse (SlabHeader.readFrom d.header)) Q (fun _ _ => True) L rs := by
  obtain ⟨h, read, bytes⟩ := d.readFrom_header
  rw [read]
  exact wp_pure.mpr (post h bytes)

theorem wp_runningHeader {Q : SlabHeader → Ledger → List Receipt → Prop}
    (post : ∀ h, d.header = SlabHeader.layout.write h → h.isInitialized = true → Q h L rs) :
    wp (runningHeader d) Q (fun _ _ => True) L rs := by
  simp only [runningHeader, refuseIf, wp_bind, wp_failIf, wp_pure, implies_true, true_and, Bool.not_eq_false]
  exact wp_readHeader post

theorem wp_checkVaultAddress {Q : Unit → Ledger → List Receipt → Prop}
    (post : rt.createProgramAddress slab.key h.vaultBump = some vaultTa.key → Q () L rs) :
    wp (checkVaultAddress rt slab h vaultTa) Q (fun _ _ => True) L rs := by
  simp only [checkVaultAddress, refuseIf, okOrRefuse, wp_bind, wp_failIf, wp_demand, implies_true, true_and, not_not]
  rintro _ derived rfl
  exact post derived

/-- The token accounts of a transfer, as the ledger has them. -/
structure Counter.Checked (c : Counter) (L : Ledger) (mint : Pubkey) (holds vaultHolds : TokenAccount) : Prop where
  holderAt : L.tokenAt c.holderTa = some holds
  vaultAt : L.tokenAt c.vaultTa = some vaultHolds
  holderMint : holds.mint = mint
  vaultMint : vaultHolds.mint = mint
  holder : holds.owner = c.holder

theorem wp_checkTokenAccounts {Q : TokenAccount → Ledger → List Receipt → Prop} (shownHolder : holderTa.Shown rt L)
    (shownVault : vaultTa.Shown rt L)
    (post : ∀ t u, Counter.Checked ⟨holderTa.key, vaultTa.key, holder.key⟩ L h.mint t u → Q u L rs) :
    wp (checkTokenAccounts h holder holderTa vaultTa) Q (fun _ _ => True) L rs := by
  simp only [checkTokenAccounts, refuseIf, okOrRefuse, wp_bind, wp_failIf, wp_demand, wp_pure, implies_true, true_and,
    not_or, not_not]
  rintro ⟨holderOwner, vaultOwner⟩ t holds u vaultHolds ⟨mint, vaultMint⟩ owner
  rw [shownHolder.owner] at holderOwner
  rw [shownHolder.data] at holds
  rw [shownVault.owner] at vaultOwner
  rw [shownVault.data] at vaultHolds
  refine post t u ⟨?_, ?_, mint, vaultMint, owner⟩
  · exact Ledger.tokenAt_eq.mpr ⟨holderOwner, AccountData.token?_eq.mp holds⟩
  · exact Ledger.tokenAt_eq.mpr ⟨vaultOwner, AccountData.token?_eq.mp vaultHolds⟩

/-! ### What the parts of a handler do -/

theorem onEngine_ok {handler : Handler Unit} (data : (L k).data = .slab d)
    (ok : onEngine k handler L = .ok ts L' rs) :
    rs = [] ∧ ∃ e, handler d.engine = .ok () e ts ∧ L' = L.write k (.slab (d.withEngine e)) := by
  unfold onEngine at ok
  rw [data] at ok
  cases run : handler d.engine with
  | ok _ e ts' =>
      simp only [run] at ok
      cases ok
      exact ⟨rfl, e, rfl, rfl⟩
  | fault f e =>
      simp only [run] at ok
      cases ok

theorem tokenTransfer_ok {source destination authority : Pubkey} {amount : Nat}
    (ok : tokenTransfer source destination authority amount L = .ok () L' rs) :
    rs = [] ∧ ∃ t u, (L source).data = .token t ∧ (L destination).data = .token u ∧ amount ≤ t.amount ∧
      t.owner = authority ∧ (source = destination ∧ L' = L ∨ source ≠ destination ∧
        L' = (L.write source (.token { t with amount := t.amount - amount })).write destination
          (.token { u with amount := u.amount + amount })) := by
  refine wp_sound (Q := fun _ L' rs => rs = [] ∧ ∃ t u, (L source).data = .token t ∧ (L destination).data = .token u ∧
    amount ≤ t.amount ∧ t.owner = authority ∧ (source = destination ∧ L' = L ∨ source ≠ destination ∧
      L' = (L.write source (.token { t with amount := t.amount - amount })).write destination
        (.token { u with amount := u.amount + amount }))) ok ?_
  simp only [tokenTransfer, wp_bind, wp_read, wp_demand, wp_failIf, wp_whenever, wp_update, implies_true, true_and, not_not,
    not_lt, AccountData.token?_eq]
  intro t source_t u destination_u _ enough _ owner
  constructor
  · intro apart _
    exact ⟨t, u, source_t, destination_u, enough, owner, .inr ⟨apart, rfl⟩⟩
  · intro same
    exact ⟨t, u, source_t, destination_u, enough, owner, .inl ⟨same, trivial⟩⟩

/-- Transfers move tokens between a holder and a vault, and do nothing else. -/
structure Counter.Moved (c : Counter) (ts : List Transfer) (L L' : Ledger) : Prop where
  owners : ∀ k, (L' k).owner = (L k).owner
  others : ∀ k, k ≠ c.holderTa → k ≠ c.vaultTa → (L' k).data = (L k).data
  balances : ∀ t u, (L c.holderTa).data = .token t → (L c.vaultTa).data = .token u →
    ∃ n m, (L' c.holderTa).data = .token { t with amount := n } ∧ (L' c.vaultTa).data = .token { u with amount := m } ∧
      settleTransfers ts u.amount = some m ∧ n + m = t.amount + u.amount

theorem Ledger.write_data_same {x : AccountData} : ((L.write k x) k).data = x := by
  unfold Ledger.write
  rw [Function.update_self]

theorem Ledger.write_other {x : AccountData} (apart : v ≠ k) : (L.write k x) v = L v := by
  unfold Ledger.write
  rw [Function.update_of_ne apart]

theorem Ledger.write_owner {x : AccountData} : ((L.write k x) v).owner = (L v).owner := by
  by_cases same : v = k
  · unfold Ledger.write
    rw [same, Function.update_self]
  · rw [Ledger.write_other same]

theorem invokeTransfer_moved {x : Transfer} (apart : c.holderTa ≠ c.vaultTa)
    (ok : invokeTransfer c x L = .ok () L' rs) : rs = [] ∧ c.Moved [x] L L' := by
  cases x with
  | toVault amount =>
      obtain ⟨quiet, t, u, holderT, vaultU, enough, -, ⟨same, -⟩ | ⟨-, rfl⟩⟩ := tokenTransfer_ok ok
      · exact absurd same apart
      refine ⟨quiet, ?_, ?_, ?_⟩
      · intro k
        rw [Ledger.write_owner, Ledger.write_owner]
      · intro k notHolder notVault
        rw [Ledger.write_other notVault, Ledger.write_other notHolder]
      · intro t' u' holderT' vaultU'
        obtain rfl : t = t' := AccountData.token.inj (holderT.symm.trans holderT')
        obtain rfl : u = u' := AccountData.token.inj (vaultU.symm.trans vaultU')
        refine ⟨t.amount - amount, u.amount + amount, ?_, Ledger.write_data_same, rfl, by omega⟩
        rw [Ledger.write_other apart, Ledger.write_data_same]
  | fromVault amount =>
      obtain ⟨quiet, u, t, vaultU, holderT, enough, -, ⟨same, -⟩ | ⟨-, rfl⟩⟩ := tokenTransfer_ok ok
      · exact absurd same.symm apart
      refine ⟨quiet, ?_, ?_, ?_⟩
      · intro k
        rw [Ledger.write_owner, Ledger.write_owner]
      · intro k notHolder notVault
        rw [Ledger.write_other notHolder, Ledger.write_other notVault]
      · intro t' u' holderT' vaultU'
        obtain rfl : t = t' := AccountData.token.inj (holderT.symm.trans holderT')
        obtain rfl : u = u' := AccountData.token.inj (vaultU.symm.trans vaultU')
        refine ⟨t.amount + amount, u.amount - amount, Ledger.write_data_same, ?_, if_pos enough, by omega⟩
        rw [Ledger.write_other apart.symm, Ledger.write_data_same]

theorem forEach_moved (apart : c.holderTa ≠ c.vaultTa) (ok : forEach (invokeTransfer c) ts L = .ok () L' rs) :
    rs = [] ∧ c.Moved ts L L' := by
  induction ts generalizing L rs with
  | nil =>
      cases ok
      refine ⟨rfl, fun _ => rfl, fun _ _ _ => rfl, ?_⟩
      intro t u holderT vaultU
      exact ⟨t.amount, u.amount, holderT, vaultU, rfl, rfl⟩
  | cons x ts ih =>
      obtain ⟨_, L₁, rs₁, rs₂, first, rest, rfl⟩ := bind_eq_ok.mp ok
      obtain ⟨rfl, moved⟩ := invokeTransfer_moved apart first
      obtain ⟨rfl, further⟩ := ih rest
      refine ⟨rfl, ?_, ?_, ?_⟩
      · intro k
        rw [further.owners, moved.owners]
      · intro k notHolder notVault
        rw [further.others k notHolder notVault, moved.others k notHolder notVault]
      · intro t u holderT vaultU
        obtain ⟨n, m, holderN, vaultM, settled, sum⟩ := moved.balances t u holderT vaultU
        obtain ⟨n', m', holderN', vaultM', settled', sum'⟩ := further.balances _ _ holderN vaultM
        refine ⟨n', m', holderN', vaultM', ?_, sum'.trans sum⟩
        cases x with
        | toVault amount =>
            cases settled
            exact settled'
        | fromVault amount =>
            obtain ⟨enough, left⟩ := Option.ite_none_right_eq_some.mp settled
            cases left
            exact (if_pos enough).trans settled'

theorem systemTransfer_ok {source destination : Pubkey} {lamports : Nat}
    (ok : systemTransfer rt source destination lamports L = .ok () L' rs) :
    rs = [] ∧ (∀ k, (L' k).owner = (L k).owner ∧ (L' k).data = (L k).data) ∧
      (source ≠ destination → (L' destination).lamports = (L destination).lamports + lamports) := by
  refine wp_sound (Q := fun _ L' rs => rs = [] ∧ (∀ k, (L' k).owner = (L k).owner ∧ (L' k).data = (L k).data) ∧
    (source ≠ destination → (L' destination).lamports = (L destination).lamports + lamports)) ok ?_
  simp only [systemTransfer, wp_bind, wp_read, wp_failIf, wp_whenever, wp_update, implies_true, true_and]
  intro _ _
  constructor
  · intro _
    refine ⟨?_, ?_⟩
    · intro k
      unfold Ledger.withLamports
      by_cases atDestination : k = destination
      · rw [atDestination, Function.update_self]
        by_cases atSource : destination = source
        · rw [atSource, Function.update_self]
          exact ⟨rfl, rfl⟩
        · rw [Function.update_of_ne atSource]
          exact ⟨rfl, rfl⟩
      · rw [Function.update_of_ne atDestination]
        by_cases atSource : k = source
        · rw [atSource, Function.update_self]
          exact ⟨rfl, rfl⟩
        · rw [Function.update_of_ne atSource]
          exact ⟨rfl, rfl⟩
    · intro _
      unfold Ledger.withLamports
      rw [Function.update_self]
  · intro same
    exact fun apart => absurd apart same

theorem wp_allocatedSlab {Q : SlabData → Ledger → List Receipt → Prop} (shown : slab.Shown rt L)
    (post : ∀ d, (L slab.key).owner = rt.programId → (L slab.key).data = .slab d → ¬ d.Written → Q d L rs) :
    wp (allocatedSlab rt slab) Q (fun _ _ => True) L rs := by
  simp only [allocatedSlab, refuseIf, okOrRefuse, wp_bind, wp_failIf, wp_demand, wp_pure, implies_true, true_and, not_not]
  intro d data owner _ unwritten
  rw [shown.data] at data
  rw [shown.owner] at owner
  exact post d owner (AccountData.slab?_eq.mp data) unwritten

/-- A request served with its transfers. -/
theorem wp_serve {request : Request} {Q : Unit → Ledger → List Receipt → Prop} (data : (L k).data = .slab d)
    (post : ∀ e ts L', request.process slot d.engine = .ok () e ts →
      forEach (invokeTransfer c) ts (L.write k (.slab (d.withEngine e))) = .ok () L' [] →
        Q () L' [.served k request slot]) (apart : c.holderTa ≠ c.vaultTa) :
    wp (serve k request slot c) Q (fun _ _ => True) L [] := by
  simp only [serve, wp_bind, wp_emit]
  refine wp_ok fun ts L₁ rs onSlab => ?_
  obtain ⟨rfl, e, ok, rfl⟩ := onEngine_ok data onSlab
  refine wp_ok fun _ L' rs paid => ?_
  obtain ⟨rfl, -⟩ := forEach_moved apart paid
  exact post e ts L' ok paid

/-! ### What an instruction does to the ledger -/

/-- A request that a signer may make of a market, with the feed of the market's oracle. -/
def Request.Allowed (rt : Runtime) (L : Ledger) (h : SlabHeader) (signer : Pubkey) : Request → Prop
  | .deposit user _ => user = signer
  | .withdraw user _ => user = signer
  | .bootstrapLp _ => h.creator = signer
  | .placeOrder user _ feed => user = signer ∧ feed = rt.bytes (L h.oracle).data
  | .liquidate _ feed => feed = rt.bytes (L h.oracle).data
  | .crank _ => True

/-- What a successful instruction has found on the ledger, and what it leaves. -/
inductive Invoked (rt : Runtime) (L : Ledger) : List Receipt → Ledger → Prop
  | created {k : Pubkey} {d : SlabData} {h : SlabHeader} {fee : Nat} {L₁ : Ledger} (owner : (L k).owner = rt.programId)
      (data : (L k).data = .slab d) (blank : ¬ d.Written) (creator : rt.signs h.creator) (fresh : h.initialized = 0)
      (vault : rt.createProgramAddress k h.vaultBump ≠ none)
      (paid : h.origin = ORIGIN_OPEN → MIN_MARKET_CREATION_FEE_LAMPORTS ≤ fee ∧
        (h.creator ≠ TREASURY_PUBKEY → (L₁ TREASURY_PUBKEY).lamports = (L TREASURY_PUBKEY).lamports + fee))
      (same : ∀ k, (L₁ k).owner = (L k).owner ∧ (L₁ k).data = (L k).data) :
      Invoked rt L [.created k h fee]
        (L₁.write k (.slab ((d.withHeader h).withEngine (zeroedEngine rt.maxAccounts))))
  | started {k : Pubkey} {d : SlabData} {h : SlabHeader} {args : InitializeEngineArgs} {slot : UInt64} {e : RiskEngine}
      {ts : List Transfer} (holds : L.HoldsSlab rt k d h) (creator : rt.signs h.creator)
      (fresh : h.isInitialized = false)
      (valid : validateRiskParams rt.maxAccounts args.riskParams args.initOraclePrice = .ok ())
      (ok : startEngine args slot d.engine = .ok () e ts) :
      Invoked rt L [.started k h.creator args slot]
        (L.write k (.slab ((d.withEngine e).withHeader { h with initialized := 1 })))
  | served {k : Pubkey} {d : SlabData} {h : SlabHeader} {request : Request} {slot : UInt64} {e : RiskEngine}
      {ts : List Transfer} {c : Counter} {t u : TokenAccount} {L' : Ledger} (holds : L.HoldsSlab rt k d h)
      (running : h.isInitialized = true) (signs : rt.signs c.holder) (allowed : request.Allowed rt L h c.holder)
      (vault : rt.createProgramAddress k h.vaultBump = some c.vaultTa) (checked : c.Checked L h.mint t u)
      (ok : request.process slot d.engine = .ok () e ts)
      (paid : forEach (invokeTransfer c) ts (L.write k (.slab (d.withEngine e))) = .ok () L' []) :
      Invoked rt L [.served k request slot] L'
  | ordered {k user : Pubkey} {d : SlabData} {h : SlabHeader} {args : PlaceOrderArgs} {feed : List Byte} {slot : UInt64}
      {e : RiskEngine} {ts : List Transfer} (holds : L.HoldsSlab rt k d h) (running : h.isInitialized = true)
      (signs : rt.signs user) (allowed : (Request.placeOrder user args feed).Allowed rt L h user)
      (ok : (Request.placeOrder user args feed).process slot d.engine = .ok () e ts) :
      Invoked rt L [.served k (.placeOrder user args feed) slot] (L.write k (.slab (d.withEngine e)))

/-- Accounts that the program gets on a ledger in order. -/
structure Presented (rt : Runtime) (L : Ledger) (accounts : List AccountInfo) : Prop where
  lawful : rt.Lawful
  selfOwned : L.SelfOwned rt
  shown : ∀ a ∈ accounts, a.Shown rt L

/-- A holder that signed is not the vault. -/
theorem Counter.Checked.apart {t u : TokenAccount} {mint : Pubkey} {b : U8} (h : c.Checked L mint t u)
    (own : L.SelfOwned rt) (lawful : rt.Lawful) (signs : rt.signs c.holder)
    (vault : rt.createProgramAddress k b = some c.vaultTa) : c.holderTa ≠ c.vaultTa := by
  intro same
  have owns : u.owner = c.vaultTa := own vault h.vaultAt
  have one : t = u := by
    have both := h.vaultAt
    rw [← same, h.holderAt] at both
    exact Option.some.inj both
  rw [← one, h.holder] at owns
  rw [owns] at signs
  exact lawful.derived vault signs

/-- A handler that ends has done what an instruction does. -/
def Answers (rt : Runtime) (L : Ledger) (m : Invocation Unit) : Prop :=
  wp m (fun _ L' rs => Invoked rt L rs L') (fun _ _ => True) L []

theorem Answers.fail {e : ProcessFailure} : Answers rt L (fail e) := wp_fail.mpr trivial

/-- The end of the handlers that move tokens. -/
theorem Presented.serve (p : Presented rt L accounts) {request : Request} {t u : TokenAccount}
    (holds : L.HoldsSlab rt k d h) (running : h.isInitialized = true) (signs : rt.signs c.holder)
    (vault : rt.createProgramAddress k h.vaultBump = some c.vaultTa) (checked : c.Checked L h.mint t u)
    (allowed : request.Allowed rt L h c.holder) : Answers rt L (serve k request slot c) := by
  have apart := checked.apart p.selfOwned p.lawful signs vault
  refine wp_serve holds.data (fun e ts L' ok paid => ?_) apart
  exact .served holds running signs allowed vault checked ok paid

theorem Presented.processDepositOn (p : Presented rt L accounts) {args : DepositArgs} :
    Answers rt L (processDepositOn rt args slot accounts) := by
  have shown := p.shown
  unfold Program.processDepositOn
  split
  · simp only [List.forall_mem_cons] at shown
    obtain ⟨slabShown, userShown, userTaShown, vaultShown, -⟩ := shown
    simp only [Answers, rejectEarly, refuseIf, wp_bind, wp_failIf, implies_true, true_and, Bool.not_eq_false]
    intro _ signer _
    refine wp_ownedSlab slabShown fun d owner data => ?_
    intro _
    refine wp_runningHeader fun h header running => ?_
    intro _
    refine wp_checkVaultAddress fun vault => ?_
    refine wp_checkTokenAccounts userTaShown vaultShown fun t u checked => ?_
    exact p.serve ⟨owner, data, header⟩ running (userShown.signed signer) vault checked rfl
  · exact .fail

theorem Presented.processWithdrawOn (p : Presented rt L accounts) {args : WithdrawArgs} :
    Answers rt L (processWithdrawOn rt args slot accounts) := by
  have shown := p.shown
  unfold Program.processWithdrawOn
  split
  · simp only [List.forall_mem_cons] at shown
    obtain ⟨slabShown, userShown, userTaShown, vaultShown, -⟩ := shown
    simp only [Answers, rejectEarly, refuseIf, checkSelfOwned, wp_bind, wp_failIf, implies_true, true_and,
      Bool.not_eq_false]
    intro _ signer _
    refine wp_ownedSlab slabShown fun d owner data => ?_
    intro _
    refine wp_runningHeader fun h header running => ?_
    intro _
    refine wp_checkVaultAddress fun vault => ?_
    refine wp_checkTokenAccounts userTaShown vaultShown fun t u checked => ?_
    intro _
    exact p.serve ⟨owner, data, header⟩ running (userShown.signed signer) vault checked rfl
  · exact .fail

theorem Presented.processBootstrapLpOn (p : Presented rt L accounts) {args : BootstrapLpArgs} :
    Answers rt L (processBootstrapLpOn rt args slot accounts) := by
  have shown := p.shown
  unfold Program.processBootstrapLpOn
  split
  · simp only [List.forall_mem_cons] at shown
    obtain ⟨slabShown, creatorShown, creatorTaShown, vaultShown, -⟩ := shown
    simp only [Answers, rejectEarly, refuseIf, wp_bind, wp_failIf, implies_true, true_and, Bool.not_eq_false, not_not]
    intro _ signer _
    refine wp_ownedSlab slabShown fun d owner data => ?_
    intro _
    refine wp_runningHeader fun h header running => ?_
    intro creator _
    refine wp_checkVaultAddress fun vault => ?_
    refine wp_checkTokenAccounts creatorTaShown vaultShown fun t u checked => ?_
    exact p.serve ⟨owner, data, header⟩ running (creatorShown.signed signer) vault checked creator
  · exact .fail

theorem Presented.processPlaceOrderOn (p : Presented rt L accounts) {args : PlaceOrderArgs} :
    Answers rt L (processPlaceOrderOn rt args slot accounts) := by
  have shown := p.shown
  unfold Program.processPlaceOrderOn
  split
  · simp only [List.forall_mem_cons] at shown
    obtain ⟨slabShown, userShown, oracleShown, -⟩ := shown
    simp only [Answers, rejectEarly, refuseIf, wp_bind, wp_failIf, wp_emit, implies_true, true_and, Bool.not_eq_false,
      not_not]
    intro _ _ _ signer _
    refine wp_ownedSlab slabShown fun d owner data => ?_
    refine wp_runningHeader fun h header running => ?_
    intro oracle
    refine wp_ok fun ts L₁ rs onSlab => ?_
    obtain ⟨rfl, e, ok, rfl⟩ := onEngine_ok data onSlab
    rw [oracleShown.data, oracle] at ok ⊢
    exact .ordered ⟨owner, data, header⟩ running (userShown.signed signer) ⟨rfl, rfl⟩ ok
  · exact .fail

theorem Presented.processLiquidateOn (p : Presented rt L accounts) {args : LiquidateArgs} :
    Answers rt L (processLiquidateOn rt args slot accounts) := by
  have shown := p.shown
  unfold Program.processLiquidateOn
  split
  · simp only [List.forall_mem_cons] at shown
    obtain ⟨slabShown, liquidatorShown, liquidatorTaShown, oracleShown, -, vaultShown, -⟩ := shown
    simp only [Answers, rejectEarly, refuseIf, checkSelfOwned, wp_bind, wp_failIf, implies_true, true_and,
      Bool.not_eq_false, not_not]
    intro signer _
    refine wp_ownedSlab slabShown fun d owner data => ?_
    intro _ _ _
    refine wp_runningHeader fun h header running => ?_
    intro oracle
    refine wp_checkVaultAddress fun vault => ?_
    refine wp_checkTokenAccounts liquidatorTaShown vaultShown fun t u checked => ?_
    intro _
    rw [oracleShown.data, oracle]
    exact p.serve ⟨owner, data, header⟩ running (liquidatorShown.signed signer) vault checked rfl
  · exact .fail

theorem Presented.processCrankOn (p : Presented rt L accounts) {args : CrankArgs} :
    Answers rt L (processCrankOn rt args slot accounts) := by
  have shown := p.shown
  unfold Program.processCrankOn
  split
  · simp only [List.forall_mem_cons] at shown
    obtain ⟨slabShown, callerShown, -, callerTaShown, vaultShown, -⟩ := shown
    simp only [Answers, rejectEarly, refuseIf, checkSelfOwned, wp_bind, wp_failIf, implies_true, true_and,
      Bool.not_eq_false]
    intro signer _
    refine wp_ownedSlab slabShown fun d owner data => ?_
    intro _ _
    refine wp_runningHeader fun h header running => ?_
    refine wp_checkVaultAddress fun vault => ?_
    refine wp_checkTokenAccounts callerTaShown vaultShown fun t u checked => ?_
    intro _
    exact p.serve ⟨owner, data, header⟩ running (callerShown.signed signer) vault checked trivial
  · exact .fail

theorem Presented.processCreateSlab (p : Presented rt L accounts) {args : CreateSlabArgs} :
    Answers rt L (processCreateSlab rt args accounts) := by
  have shown := p.shown
  unfold Program.processCreateSlab
  split
  · rename_i payer slabAccount mint oracle system rest
    simp only [List.forall_mem_cons] at shown
    obtain ⟨payerShown, slabShown, -⟩ := shown
    simp only [Answers, writeListing, refuseIf, okOrRefuse, wp_bind, wp_failIf, wp_demand, wp_update, wp_emit,
      implies_true, true_and, Bool.not_eq_false]
    intro signer _ _ _
    refine wp_allocatedSlab slabShown fun d owner data blank => ?_
    intro address vault
    have derives : rt.createProgramAddress slabAccount.key args.vaultBump ≠ none := Option.ne_none_iff_exists'.mpr ⟨address, vault⟩
    have seeded : (SlabHeader.new mint.key oracle.key payer.key args.bump args.vaultBump).origin ≠ ORIGIN_OPEN := by
      rintro ⟨⟩
    exact .created owner data blank (payerShown.signed signer) rfl derives (fun opened => absurd opened seeded)
      fun _ => ⟨rfl, rfl⟩
  · exact .fail

theorem Presented.processCreateMarket (p : Presented rt L accounts) {args : CreateMarketArgs} :
    Answers rt L (processCreateMarket rt args accounts) := by
  have shown := p.shown
  unfold Program.processCreateMarket
  split
  · rename_i payer slabAccount mint oracle treasuryAccount system tokenProgram rest
    simp only [List.forall_mem_cons] at shown
    obtain ⟨payerShown, slabShown, -⟩ := shown
    simp only [Answers, writeListing, refuseIf, okOrRefuse, wp_bind, wp_failIf, wp_demand, wp_update, wp_emit,
      implies_true, true_and, Bool.not_eq_false, not_not, not_lt]
    intro signer _ _ _ treasury
    refine wp_allocatedSlab slabShown fun d owner data blank => ?_
    intro address vault enough
    have derives : rt.createProgramAddress slabAccount.key args.vaultBump ≠ none := Option.ne_none_iff_exists'.mpr ⟨address, vault⟩
    refine wp_ok fun _ L₁ rs sent => ?_
    obtain ⟨rfl, same, paid⟩ := systemTransfer_ok sent
    rw [treasury] at paid
    exact .created owner data blank (payerShown.signed signer) rfl derives (fun _ => ⟨enough, paid⟩) same
  · exact .fail

theorem Presented.processInitializeEngine (p : Presented rt L accounts) {args : InitializeEngineArgs} :
    Answers rt L (processInitializeEngine rt args slot accounts) := by
  have shown := p.shown
  unfold Program.processInitializeEngine
  split
  · rename_i slabAccount creator rest
    simp only [List.forall_mem_cons] at shown
    obtain ⟨slabShown, creatorShown, -⟩ := shown
    simp only [Answers, refuseIf, wp_bind, wp_failIf, implies_true, true_and, Bool.not_eq_false, Bool.not_eq_true, not_not]
    intro _
    refine wp_ownedSlab slabShown fun d owner data => ?_
    intro signer
    refine wp_readHeader fun h header => ?_
    intro _ listed fresh
    cases valid : validateRiskParams rt.maxAccounts args.riskParams args.initOraclePrice with
    | error e => exact Answers.fail
    | ok =>
        simp only [wp_bind, wp_update, wp_emit]
        refine wp_ok fun ts L₁ rs onSlab => ?_
        obtain ⟨rfl, e, ok, rfl⟩ := onEngine_ok data onSlab
        have signs := creatorShown.signed signer
        rw [← listed] at signs ⊢
        rw [Ledger.write_data_same]
        dsimp only
        have once : (L.write slabAccount.key (.slab (d.withEngine e))).write slabAccount.key
            (.slab ((d.withEngine e).withHeader { h with initialized := 1 })) =
              L.write slabAccount.key (.slab ((d.withEngine e).withHeader { h with initialized := 1 })) := by
          unfold Ledger.write
          rw [Function.update_self, Function.update_idem]
        rw [once]
        exact .started ⟨owner, data, header⟩ signs fresh valid ok
  · exact .fail

/-- What any instruction does. -/
theorem Presented.process (p : Presented rt L accounts) {data : List Byte} : Answers rt L (process rt slot accounts data) := by
  unfold Program.process
  cases unpack data with
  | error e => exact .fail
  | ok instruction =>
      cases instruction with
      | createSlab args => exact p.processCreateSlab
      | initializeEngine args => exact p.processInitializeEngine
      | deposit args => exact p.processDepositOn
      | withdraw args => exact p.processWithdrawOn
      | bootstrapLp args => exact p.processBootstrapLpOn
      | placeOrder args => exact p.processPlaceOrderOn
      | liquidate args => exact p.processLiquidateOn
      | crank args => exact p.processCrankOn
      | createMarket args => exact p.processCreateMarket

end Percolator.Program
