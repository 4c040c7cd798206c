import Percolator.Program.Chain

/-!
The histories of the markets on a ledger.

Every slab goes through the same stages: allocated, listed by its creator, and from the start of its engine a
market. On the ledger each market runs as a market on its own does, whatever is done with the others, and its
vault covers what its engine has booked.
-/

namespace Percolator.Program

open Effect

variable {rt : Runtime} {L L' L₁ : Ledger} {rs : List Receipt} {k v : Pubkey} {d : SlabData} {h : SlabHeader}
  {slot : UInt64} {ts : List Transfer} {c : Counter} {t u : TokenAccount} {x : SlabData} {b : U8}

/-! ### Stages -/

/-- How far a slab has come. -/
inductive Stage where
  | blank
  | listed (header : SlabHeader)
  | running (header : SlabHeader)
deriving DecidableEq, Repr

/-- The slab that an instruction was about. -/
def Receipt.slab : Receipt → Pubkey
  | .created slab _ _ => slab
  | .started slab _ _ _ => slab
  | .served slab _ _ => slab

/-- The stage after an instruction. A blank slab is listed, for a fee if its listing is open; a listed one is
started by its creator; and only then requests are served. -/
def Stage.advance (stage : Stage) (receipt : Receipt) : Option Stage :=
  match stage, receipt with
  | .blank, .created _ header fee =>
      if header.origin = ORIGIN_OPEN ∧ fee < MIN_MARKET_CREATION_FEE_LAMPORTS then none else some (.listed header)
  | .listed header, .started _ creator _ _ =>
      if creator = header.creator then some (.running { header with initialized := 1 }) else none
  | .running header, .served _ _ _ => some (.running header)
  | _, _ => none

/-- The next stage of the slab `k`. -/
def Stage.next (k : Pubkey) (stage : Stage) (receipt : Receipt) : Option Stage :=
  if receipt.slab = k then stage.advance receipt else some stage

/-- The stage of the slab `k` after receipts, if they come in an order that the stages have. -/
def lifecycle (k : Pubkey) (rs : List Receipt) : Option Stage := rs.foldlM (Stage.next k) .blank

/-- The request that a receipt is for, if it is on `k`. -/
def Receipt.requestOn (k : Pubkey) : Receipt → Option (Request × UInt64)
  | .served slab request slot => if slab = k then some (request, slot) else none
  | _ => none

/-- The requests that have been served on `k`, in order. -/
def requests (k : Pubkey) (rs : List Receipt) : List (Request × UInt64) := rs.filterMap (Receipt.requestOn k)

theorem Receipt.requestOn_elsewhere {r : Receipt} (elsewhere : r.slab ≠ k) : r.requestOn k = none := by
  cases r with
  | created | started => rfl
  | served slab request slot => exact if_neg elsewhere

theorem lifecycle_snoc {r : Receipt} {stage : Stage} (past : lifecycle k rs = some stage) :
    lifecycle k (rs ++ [r]) = stage.next k r := by
  unfold lifecycle at *
  rw [List.foldlM_append, past]
  exact bind_pure (stage.next k r)

theorem lifecycle_on {r : Receipt} {stage : Stage} (past : lifecycle k rs = some stage) (on : r.slab = k) :
    lifecycle k (rs ++ [r]) = stage.advance r :=
  (lifecycle_snoc past).trans (if_pos on)

theorem requests_snoc {r : Receipt} : requests k (rs ++ [r]) = requests k rs ++ (r.requestOn k).toList := by
  unfold requests
  rw [List.filterMap_append]
  cases on : r.requestOn k with
  | none => rw [List.filterMap_cons_none on]; rfl
  | some q => rw [List.filterMap_cons_some on]; rfl

/-! ### What an instruction leaves alone -/

theorem Ledger.tokenAt_congr (owner : (L' v).owner = (L v).owner) (data : (L' v).data = (L v).data) :
    L'.tokenAt v = L.tokenAt v := by
  unfold Ledger.tokenAt
  rw [owner, data]

/-- A slab is no token account, before and after it is written. -/
theorem Ledger.tokenAt_writeSlab (data : (L k).data = .slab d) : (L.write k (.slab x)).tokenAt v = L.tokenAt v := by
  by_cases same : v = k
  · unfold Ledger.tokenAt
    rw [same, Ledger.write_data_same, data]
    split_ifs <;> rfl
  · rw [Ledger.tokenAt_congr Ledger.write_owner]
    rw [Ledger.write_other same]

/-- Everything but the slab `k` and its vault is left alone. -/
structure Ledger.Apart (rt : Runtime) (k : Pubkey) (L L' : Ledger) : Prop where
  owners : ∀ k', (L' k').owner = (L k').owner
  slabs : ∀ k', k' ≠ k → (L' k').data.slab? = (L k').data.slab?
  vaults : ∀ ⦃k' b v t⦄, k' ≠ k → rt.createProgramAddress k' b = some v → L.tokenAt v = some t → L'.tokenAt v = some t
  selfOwned : L'.SelfOwned rt

theorem Ledger.Apart.writeSlab (own : L.SelfOwned rt) (data : (L k).data = .slab d) :
    Ledger.Apart rt k L (L.write k (.slab x)) := by
  refine ⟨fun _ => Ledger.write_owner, ?_, ?_, ?_⟩
  · intro k' other
    rw [Ledger.write_other other]
  · intro k' b v t _ _ holds
    rw [Ledger.tokenAt_writeSlab data]
    exact holds
  · intro k' b v t derived holds
    rw [Ledger.tokenAt_writeSlab data] at holds
    exact own derived holds

/-- What is left of the parties to a request: the slab and both token accounts. -/
structure Counter.Left (c : Counter) (rt : Runtime) (k : Pubkey) (x : SlabData) (ts : List Transfer) (t u : TokenAccount)
    (n m : Nat) (L L' : Ledger) : Prop where
  apart : Ledger.Apart rt k L L'
  slab : (L' k).data = .slab x
  holder : L'.tokenAt c.holderTa = some { t with amount := n }
  vault : L'.tokenAt c.vaultTa = some { u with amount := m }
  others : ∀ v, v ≠ c.holderTa → v ≠ c.vaultTa → L'.tokenAt v = L.tokenAt v
  settled : settleTransfers ts u.amount = some m
  conserved : n + m = t.amount + u.amount

theorem Counter.Checked.left {mint : Pubkey} {rs : List Receipt} (checked : c.Checked L mint t u) (own : L.SelfOwned rt)
    (lawful : rt.Lawful) (signs : rt.signs c.holder) (derived : rt.createProgramAddress k b = some c.vaultTa)
    (data : (L k).data = .slab d) (paid : forEach (invokeTransfer c) ts (L.write k (.slab x)) = .ok () L' rs) :
    ∃ n m, c.Left rt k x ts t u n m L L' := by
  have different := checked.apart own lawful signs derived
  obtain ⟨-, moved⟩ := forEach_moved different paid
  obtain ⟨holderOwner, holderT⟩ := Ledger.tokenAt_eq.mp checked.holderAt
  obtain ⟨vaultOwner, vaultU⟩ := Ledger.tokenAt_eq.mp checked.vaultAt
  have notHolder : k ≠ c.holderTa := by
    rintro rfl
    cases data.symm.trans holderT
  have notVault : k ≠ c.vaultTa := by
    rintro rfl
    cases data.symm.trans vaultU
  obtain ⟨n, m, holderN, vaultM, settled, sum⟩ := moved.balances t u
    (by rw [Ledger.write_other notHolder.symm]; exact holderT) (by rw [Ledger.write_other notVault.symm]; exact vaultU)
  have owners : ∀ k', (L' k').owner = (L k').owner := fun k' => (moved.owners k').trans Ledger.write_owner
  have atHolder : L'.tokenAt c.holderTa = some { t with amount := n } :=
    Ledger.tokenAt_eq.mpr ⟨(owners _).trans holderOwner, holderN⟩
  have atVault : L'.tokenAt c.vaultTa = some { u with amount := m } :=
    Ledger.tokenAt_eq.mpr ⟨(owners _).trans vaultOwner, vaultM⟩
  have others : ∀ v, v ≠ c.holderTa → v ≠ c.vaultTa → L'.tokenAt v = L.tokenAt v := by
    intro v fromHolder fromVault
    rw [Ledger.tokenAt_congr (moved.owners v) (moved.others v fromHolder fromVault), Ledger.tokenAt_writeSlab data]
  -- a vault is not the holder's: its owner would have signed
  have foreign : ∀ ⦃k' b v t'⦄, rt.createProgramAddress k' b = some v → L.tokenAt v = some t' → v ≠ c.holderTa := by
    intro k' b v t' vault holds same
    have owns : t'.owner = v := own vault holds
    rw [same, checked.holderAt] at holds
    cases holds
    rw [checked.holder] at owns
    exact lawful.derived vault (owns ▸ signs)
  refine ⟨n, m, ⟨owners, ?_, ?_, ?_⟩, ?_, atHolder, atVault, others, settled, sum⟩
  · intro k' other
    by_cases fromHolder : k' = c.holderTa
    · rw [fromHolder, holderN, holderT]
      rfl
    by_cases fromVault : k' = c.vaultTa
    · rw [fromVault, vaultM, vaultU]
      rfl
    rw [moved.others k' fromHolder fromVault, Ledger.write_other other]
  · intro k' b v t' other vault holds
    have fromVault : v ≠ c.vaultTa := by
      rintro rfl
      exact other (lawful.apart vault derived)
    rw [others v (foreign vault holds) fromVault]
    exact holds
  · intro k' b v t' vault holds
    by_cases fromVault : v = c.vaultTa
    · rw [fromVault, atVault] at holds
      cases holds
      rw [fromVault]
      have owns : u.owner = c.vaultTa := own derived checked.vaultAt
      exact owns
    by_cases fromHolder : v = c.holderTa
    · rw [fromHolder] at vault
      exact absurd rfl (foreign vault checked.holderAt)
    rw [others v fromHolder fromVault] at holds
    exact own vault holds
  · rw [moved.others k notHolder notVault, Ledger.write_data_same]

theorem Ledger.Apart.trans (first : Ledger.Apart rt k L L₁) (second : Ledger.Apart rt k L₁ L') : Ledger.Apart rt k L L' := by
  refine ⟨fun k' => (second.owners k').trans (first.owners k'), ?_, ?_, second.selfOwned⟩
  · intro k' other
    rw [second.slabs k' other, first.slabs k' other]
  · intro k' b v t other derived holds
    exact second.vaults other derived (first.vaults other derived holds)

/-- Lamports are not looked at. -/
theorem Ledger.Apart.of_same (own : L.SelfOwned rt)
    (same : ∀ k, (L' k).owner = (L k).owner ∧ (L' k).data = (L k).data) : Ledger.Apart rt k L L' := by
  have tokens : ∀ v, L'.tokenAt v = L.tokenAt v := fun v => Ledger.tokenAt_congr (same v).1 (same v).2
  refine ⟨fun k' => (same k').1, ?_, ?_, ?_⟩
  · intro k' _
    rw [(same k').2]
  · intro k' b v t _ _ holds
    rw [tokens]
    exact holds
  · intro k' b v t derived holds
    rw [tokens] at holds
    exact own derived holds

/-! ### What a ledger holds after receipts -/

/-- Where there is something to cover, the token account at `v` covers it in the tokens of the mint. -/
def Ledger.Covers (L : Ledger) (v mint : Pubkey) (n : Nat) : Prop :=
  n = 0 ∨ ∃ t, L.tokenAt v = some t ∧ t.mint = mint ∧ n ≤ t.amount

/-- What the ledger has at `k` in each stage. A running market has come from its start through the requests that
were served on it. -/
inductive Stands (rt : Runtime) (rs : List Receipt) (L : Ledger) (k : Pubkey) : Stage → Prop
  | blank (unwritten : (L k).owner = rt.programId → ∀ d, (L k).data = .slab d → ¬ d.Written)
      (idle : requests k rs = []) : Stands rt rs L k .blank
  | listed {d : SlabData} {h : SlabHeader} (holds : L.HoldsSlab rt k d h) (fresh : h.initialized = 0)
      (creator : h.creator ≠ 0) (vault : rt.createProgramAddress k h.vaultBump ≠ none)
      (zeroed : d.engine = zeroedEngine rt.maxAccounts) (idle : requests k rs = []) : Stands rt rs L k (.listed h)
  | running {d : SlabData} {h : SlabHeader} {m₀ : Slab} {v : Pubkey} (holds : L.HoldsSlab rt k d h)
      (started : h.initialized = 1) (creator : h.creator ≠ 0) (initial : Initial m₀)
      (run : Run Transaction m₀ (requests k rs) ⟨d.engine, d.engine.vault⟩)
      (vault : rt.createProgramAddress k h.vaultBump = some v) (covered : L.Covers v h.mint d.engine.vault) :
      Stands rt rs L k (.running h)

/-- Every slab is in a stage that its receipts lead to. -/
structure Recorded (rt : Runtime) (rs : List Receipt) (L : Ledger) : Prop where
  selfOwned : L.SelfOwned rt
  stands : ∀ k, ∃ stage, lifecycle k rs = some stage ∧ Stands rt rs L k stage

theorem Ledger.HoldsSlab.unique {d' : SlabData} {h' : SlabHeader} (holds : L.HoldsSlab rt k d h)
    (holds' : L.HoldsSlab rt k d' h') : d' = d ∧ h' = h := by
  obtain rfl : d' = d := AccountData.slab.inj (holds'.data.symm.trans holds.data)
  have read := SlabHeader.readFrom_write h
  rw [← holds.header, holds'.header, SlabHeader.readFrom_write] at read
  exact ⟨rfl, Except.ok.inj read⟩

theorem Ledger.HoldsSlab.written (holds : L.HoldsSlab rt k d h) (creator : h.creator ≠ 0) : d.Written := by
  unfold SlabData.Written
  rw [holds.header]
  exact SlabHeader.written_of_creator creator

/-- An account with a creator in its header is listed or runs. -/
theorem Stands.created {stage : Stage} (stands : Stands rt rs L k stage) (holds : L.HoldsSlab rt k d h)
    (creator : h.creator ≠ 0) : (stage = .listed h ∧ h.initialized = 0 ∧ d.engine = zeroedEngine rt.maxAccounts ∧
        rt.createProgramAddress k h.vaultBump ≠ none ∧ requests k rs = []) ∨
      stage = .running h ∧ h.initialized = 1 ∧ ∃ m₀ v, Initial m₀ ∧
        Run Transaction m₀ (requests k rs) ⟨d.engine, d.engine.vault⟩ ∧
        rt.createProgramAddress k h.vaultBump = some v ∧ L.Covers v h.mint d.engine.vault := by
  cases stands with
  | blank unwritten => exact absurd (holds.written creator) (unwritten holds.owner d holds.data)
  | listed there fresh _ vault zeroed idle =>
      obtain ⟨rfl, rfl⟩ := holds.unique there
      exact .inl ⟨rfl, fresh, zeroed, vault, idle⟩
  | running there started _ initial run vault covered =>
      obtain ⟨rfl, rfl⟩ := holds.unique there
      exact .inr ⟨rfl, started, _, _, initial, run, vault, covered⟩

theorem Stands.elsewhere {k' : Pubkey} {rs' : List Receipt} {stage : Stage} (stands : Stands rt rs L k' stage)
    (apart : Ledger.Apart rt k L L') (other : k' ≠ k) (same : requests k' rs' = requests k' rs) :
    Stands rt rs' L' k' stage := by
  have kept : ∀ {d : SlabData}, (L' k').data = .slab d ↔ (L k').data = .slab d := by
    intro d
    rw [← AccountData.slab?_eq, apart.slabs k' other, AccountData.slab?_eq]
  have still : ∀ {d : SlabData} {h : SlabHeader}, L.HoldsSlab rt k' d h → L'.HoldsSlab rt k' d h := by
    intro d h holds
    exact ⟨(apart.owners k').trans holds.owner, kept.mpr holds.data, holds.header⟩
  cases stands with
  | blank unwritten idle =>
      refine .blank ?_ (same.trans idle)
      intro owner d data
      exact unwritten ((apart.owners k').symm.trans owner) d (kept.mp data)
  | listed holds fresh creator vault zeroed idle => exact .listed (still holds) fresh creator vault zeroed (same.trans idle)
  | running holds started creator initial run vault covered =>
      refine .running (still holds) started creator initial (same ▸ run) vault ?_
      rcases covered with none | ⟨t, there, mint, enough⟩
      · exact .inl none
      · exact .inr ⟨t, apart.vaults other vault there, mint, enough⟩

/-- Other programs do not move a market. -/
theorem Stands.outside {stage : Stage} (stands : Stands rt rs L k stage) (own : L.SelfOwned rt) (other : Outside rt L L') :
    Stands rt rs L' k stage := by
  have still : ∀ {d : SlabData} {h : SlabHeader}, L.HoldsSlab rt k d h → L'.HoldsSlab rt k d h := by
    intro d h holds
    obtain ⟨owner, data⟩ := other.kept k holds.owner
    exact ⟨owner, data.trans holds.data, holds.header⟩
  cases stands with
  | blank unwritten idle =>
      refine .blank ?_ idle
      intro owner' d data
      by_cases owner : (L k).owner = rt.programId
      · exact unwritten owner d ((other.kept k owner).2.symm.trans data)
      · exact other.blank k owner owner' d data
  | listed holds fresh creator vault zeroed idle => exact .listed (still holds) fresh creator vault zeroed idle
  | running holds started creator initial run vault covered =>
      refine .running (still holds) started creator initial run vault ?_
      rcases covered with none | ⟨t, there, mint, enough⟩
      · exact .inl none
      · obtain ⟨t', there', mint', more⟩ := other.receives vault there (own vault there)
        exact .inr ⟨t', there', mint'.trans mint, enough.trans more⟩

/-- An instruction on `k` moves `k` on and leaves the others where they are. -/
theorem Recorded.advance {r : Receipt} {stage : Stage} (past : Recorded rt rs L) (on : r.slab = k)
    (apart : Ledger.Apart rt k L L') (next : lifecycle k (rs ++ [r]) = some stage)
    (here : Stands rt (rs ++ [r]) L' k stage) : Recorded rt (rs ++ [r]) L' := by
  refine ⟨apart.selfOwned, fun k' => ?_⟩
  by_cases same : k' = k
  · rw [same]
    exact ⟨stage, next, here⟩
  · obtain ⟨stage', before, stands⟩ := past.stands k'
    have elsewhere : r.slab ≠ k' := fun at' => same (at'.symm.trans on)
    have idle : requests k' (rs ++ [r]) = requests k' rs := by
      rw [requests_snoc, r.requestOn_elsewhere elsewhere]
      exact List.append_nil _
    refine ⟨stage', ?_, stands.elsewhere apart same idle⟩
    rw [lifecycle_snoc before]
    exact if_neg elsewhere

/-! ### One instruction -/

theorem settleTransfers_mono {a a' n n' : Nat} (le : a ≤ n) (less : settleTransfers ts a = some a')
    (more : settleTransfers ts n = some n') : a' ≤ n' := by
  induction ts generalizing a n with
  | nil =>
      cases less
      cases more
      exact le
  | cons x ts ih =>
      cases x with
      | toVault amount => exact ih (Nat.add_le_add_right le amount) less more
      | fromVault amount =>
          obtain ⟨-, less⟩ := Option.ite_none_right_eq_some.mp less
          obtain ⟨-, more⟩ := Option.ite_none_right_eq_some.mp more
          exact ih (Nat.sub_le_sub_right le amount) less more

/-- A request on a market with a header is a transaction of the market in it. -/
theorem market_served {e : RiskEngine} {m₀ : Slab} {l : List (Request × UInt64)} {request : Request} (initial : Initial m₀)
    (run : Run Transaction m₀ l ⟨d.engine, d.engine.vault⟩) (ok : request.process slot d.engine = .ok () e ts) :
    settleTransfers ts d.engine.vault = some e.vault ∧ Run Transaction m₀ (l ++ [(request, slot)]) ⟨e, e.vault⟩ := by
  have reachable : Reachable ⟨d.engine, d.engine.vault⟩ := ⟨m₀, l, initial, run⟩
  have matched : settleTransfers ([] ++ ts) d.engine.vault = some e.vault := wp_at (process_matched reachable.sound request) ok
  refine ⟨matched, run.tail (.committed ?_)⟩
  unfold Request.execute
  simp only [ok]
  exact congrArg (Option.map _) matched

/-- An engine that starts in a zeroed region is one that `InitializeEngine` leaves. -/
theorem startEngine_initial {e : RiskEngine} {args : InitializeEngineArgs} (zeroed : d.engine = zeroedEngine rt.maxAccounts)
    (valid : validateRiskParams rt.maxAccounts args.riskParams args.initOraclePrice = .ok ())
    (ok : startEngine args slot d.engine = .ok () e ts) : Initial ⟨e, 0⟩ ∧ e.vault = 0 := by
  obtain ⟨-, l, start⟩ := callEngine_ok ok
  have inited := mapFault_eq_ok.mp start
  refine ⟨⟨d.engine, args, slot, l, ?_, inited, rfl⟩, ?_⟩
  · rw [zeroed]
    exact valid
  · refine wp_sound (Q := fun _ s _ => s.vault = 0) inited ?_
    simp only [initInPlace, validateParams, wp_bind, wp_read, wp_failIf, wp_update, implies_true, true_and]
    intro _ _
    rfl

theorem Recorded.created (lawful : rt.Lawful) (past : Recorded rt rs L) {fee : Nat} (owner : (L k).owner = rt.programId)
    (data : (L k).data = .slab d) (blank : ¬ d.Written) (creator : rt.signs h.creator) (fresh : h.initialized = 0)
    (vault : rt.createProgramAddress k h.vaultBump ≠ none)
    (paid : h.origin = ORIGIN_OPEN → MIN_MARKET_CREATION_FEE_LAMPORTS ≤ fee)
    (same : ∀ k, (L₁ k).owner = (L k).owner ∧ (L₁ k).data = (L k).data) :
    Recorded rt (rs ++ [.created k h fee])
      (L₁.write k (.slab ((d.withHeader h).withEngine (zeroedEngine rt.maxAccounts)))) := by
  have first : Ledger.Apart rt k L L₁ := .of_same past.selfOwned same
  have apart : Ledger.Apart rt k L (L₁.write k (.slab ((d.withHeader h).withEngine (zeroedEngine rt.maxAccounts)))) :=
    first.trans (.writeSlab first.selfOwned ((same k).2.trans data))
  have present : h.creator ≠ 0 := fun zero => lawful.default (zero ▸ creator)
  have unlisted : ∀ {d' h'}, L.HoldsSlab rt k d' h' → h'.creator = 0 := by
    intro d' h' holds
    by_contra other
    obtain rfl : d' = d := AccountData.slab.inj (holds.data.symm.trans data)
    exact blank (holds.written other)
  obtain ⟨stage, before, stands⟩ := past.stands k
  cases stands with
  | listed holds _ other => exact absurd (unlisted holds) other
  | running holds _ other => exact absurd (unlisted holds) other
  | blank _ idle =>
      refine past.advance (k := k) rfl apart ?_ (.listed ⟨(apart.owners k).trans owner, Ledger.write_data_same, rfl⟩
        fresh present vault rfl ?_)
      · rw [lifecycle_on before rfl]
        exact if_neg fun unpaid => absurd (paid unpaid.1) (not_le.mpr unpaid.2)
      · rw [requests_snoc, idle]
        rfl

theorem Recorded.started (lawful : rt.Lawful) (past : Recorded rt rs L) {args : InitializeEngineArgs} {e : RiskEngine}
    (holds : L.HoldsSlab rt k d h) (creator : rt.signs h.creator) (fresh : h.isInitialized = false)
    (valid : validateRiskParams rt.maxAccounts args.riskParams args.initOraclePrice = .ok ())
    (ok : startEngine args slot d.engine = .ok () e ts) :
    Recorded rt (rs ++ [.started k h.creator args slot])
      (L.write k (.slab ((d.withEngine e).withHeader { h with initialized := 1 }))) := by
  have apart : Ledger.Apart rt k L (L.write k (.slab ((d.withEngine e).withHeader { h with initialized := 1 }))) :=
    .writeSlab past.selfOwned holds.data
  have present : h.creator ≠ 0 := fun zero => lawful.default (zero ▸ creator)
  obtain ⟨stage, before, stands⟩ := past.stands k
  obtain ⟨rfl, -, zeroed, vault, idle⟩ | ⟨-, started, -⟩ := stands.created holds present
  · obtain ⟨v, derived⟩ := Option.ne_none_iff_exists'.mp vault
    obtain ⟨initial, empty⟩ := startEngine_initial zeroed valid ok
    have quiet : requests k (rs ++ [.started k h.creator args slot]) = [] := by
      rw [requests_snoc, idle]
      rfl
    refine past.advance (k := k) rfl apart ?_ (.running
      ⟨(apart.owners k).trans holds.owner, Ledger.write_data_same, rfl⟩ rfl present initial ?_ derived (.inl empty))
    · rw [lifecycle_on before rfl]
      exact if_pos rfl
    · rw [quiet]
      show Run Transaction _ [] ⟨e, e.vault⟩
      rw [empty]
      exact .refl _
  · unfold SlabHeader.isInitialized at fresh
    rw [started] at fresh
    cases fresh

/-- A market that runs, on a ledger whose receipts are recorded. -/
theorem Recorded.market (past : Recorded rt rs L) (holds : L.HoldsSlab rt k d h)
    (running : h.isInitialized = true) : lifecycle k rs = some (.running h) ∧ h.initialized = 1 ∧ h.creator ≠ 0 ∧
      ∃ m₀ v, Initial m₀ ∧ Run Transaction m₀ (requests k rs) ⟨d.engine, d.engine.vault⟩ ∧
        rt.createProgramAddress k h.vaultBump = some v ∧ L.Covers v h.mint d.engine.vault := by
  obtain ⟨stage, before, stands⟩ := past.stands k
  have written : d.Written := by
    unfold SlabData.Written
    rw [holds.header]
    exact SlabHeader.written_of_initialized running
  cases stands with
  | blank unwritten => exact absurd written (unwritten holds.owner d holds.data)
  | listed there fresh =>
      obtain ⟨rfl, rfl⟩ := holds.unique there
      unfold SlabHeader.isInitialized at running
      rw [fresh] at running
      cases running
  | running there started creator initial run vault covered =>
      obtain ⟨rfl, rfl⟩ := holds.unique there
      exact ⟨before, started, creator, _, _, initial, run, vault, covered⟩

/-- A market that was served goes on. -/
theorem Recorded.serve (past : Recorded rt rs L) {request : Request} {e : RiskEngine}
    (holds : L.HoldsSlab rt k d h) (running : h.isInitialized = true)
    (ok : request.process slot d.engine = .ok () e ts) (apart : Ledger.Apart rt k L L')
    (data : (L' k).data = .slab (d.withEngine e))
    (covers : ∀ v, rt.createProgramAddress k h.vaultBump = some v → L.Covers v h.mint d.engine.vault →
      settleTransfers ts d.engine.vault = some e.vault → L'.Covers v h.mint e.vault) :
    Recorded rt (rs ++ [.served k request slot]) L' := by
  obtain ⟨before, started, creator, m₀, v, initial, run, vault, covered⟩ := past.market holds running
  obtain ⟨matched, further⟩ := market_served initial run ok
  refine past.advance (k := k) rfl apart ?_ (.running (d := d.withEngine e)
    ⟨(apart.owners k).trans holds.owner, data, holds.header⟩ started creator initial ?_ vault (covers v vault covered matched))
  · rw [lifecycle_on before rfl]
    rfl
  · have on : Receipt.requestOn k (.served k request slot) = some (request, slot) := if_pos rfl
    rw [requests_snoc, on]
    exact further

/-- An order moves no tokens. -/
theorem processPlaceOrder_still {user : Pubkey} {args : PlaceOrderArgs} {feed : List Byte} {s : RiskEngine} :
    wp (processPlaceOrder user args feed slot) (fun _ s' ts => Still s s' ts) (fun _ _ => True) s [] := by
  simp only [processPlaceOrder, sideModeGate, reject, okOr, wp_bind, wp_failIf, implies_true, true_and]
  intro _ _ _
  refine wp_oraclePrice fun price => ?_
  simp only [wp_read, wp_demand, implies_true, true_and]
  intro _ i _ _ cur _ _
  refine wp_callEngine fun _ s₁ l₁ ok => ?_
  exact ⟨Keeps.kept (v := RiskEngine.vault) ok, rfl⟩

theorem Recorded.invoked (lawful : rt.Lawful) (past : Recorded rt rs L) {rs' : List Receipt} (done : Invoked rt L rs' L') :
    Recorded rt (rs ++ rs') L' := by
  cases done with
  | created owner data blank creator fresh vault paid same =>
      exact past.created lawful owner data blank creator fresh vault (fun opened => (paid opened).1) same
  | started holds creator fresh valid ok => exact past.started lawful holds creator fresh valid ok
  | @served k d h request slot e ts c t u L' holds running signs allowed vault checked ok paid =>
      obtain ⟨n, m, left⟩ := checked.left past.selfOwned lawful signs vault holds.data paid
      refine past.serve holds running ok left.apart left.slab ?_
      intro v derived covered matched
      obtain rfl : c.vaultTa = v := Option.some.inj (vault.symm.trans derived)
      have enough : d.engine.vault ≤ u.amount := by
        rcases covered with none | ⟨t', there, -, enough⟩
        · rw [none]
          exact Nat.zero_le _
        · obtain rfl : t' = u := Option.some.inj (there.symm.trans checked.vaultAt)
          exact enough
      exact .inr ⟨_, left.vault, checked.vaultMint, settleTransfers_mono enough matched left.settled⟩
  | @ordered k user d h args feed slot e ts holds running signs allowed ok =>
      refine past.serve holds running ok (.writeSlab past.selfOwned holds.data) Ledger.write_data_same ?_
      intro v _ covered _
      have still := wp_sound (Q := fun _ s ts => Still d.engine s ts) ok processPlaceOrder_still
      rw [still.1]
      rcases covered with none | ⟨t', there, mint, enough⟩
      · exact .inl none
      · refine .inr ⟨t', ?_, mint, enough⟩
        rw [Ledger.tokenAt_writeSlab holds.data]
        exact there

/-! ### Every run -/

/-- A call presents the accounts as the ledger has them. -/
theorem Call.invoked {call : Call} (lawful : rt.Lawful) (own : L.SelfOwned rt)
    (signed : ∀ m ∈ call.accounts, m.isSigner = true → rt.signs m.key) (ok : call.run rt L = .ok () L' rs) :
    Invoked rt L rs L' := by
  have presented : Presented rt L (call.accounts.map fun m => L.info m.key m.isSigner m.isWritable) := by
    refine ⟨lawful, own, ?_⟩
    intro a mem
    obtain ⟨m, listed, rfl⟩ := List.mem_map.mp mem
    exact ⟨rfl, rfl, signed m listed⟩
  exact wp_sound (Q := fun _ L' rs => Invoked rt L rs L') ok presented.process

theorem Recorded.step (lawful : rt.Lawful) (past : Recorded rt rs L) {rs' : List Receipt} (step : Step rt L rs' L') :
    Recorded rt (rs ++ rs') L' := by
  cases step with
  | invoked call signed ok => exact past.invoked lawful (Call.invoked lawful past.selfOwned signed ok)
  | failed =>
      rw [List.append_nil]
      exact past
  | outside other =>
      rw [List.append_nil]
      refine ⟨other.selfOwned, fun k => ?_⟩
      obtain ⟨stage, before, stands⟩ := past.stands k
      exact ⟨stage, before, stands.outside past.selfOwned other⟩

/-- Send calls in order; one that fails changes nothing. -/
def performAll (rt : Runtime) (L : Ledger) : List Call → Ledger × List Receipt
  | [] => (L, [])
  | call :: rest =>
      match call.run rt L with
      | .ok _ L' rs => ((performAll rt L' rest).1, rs ++ (performAll rt L' rest).2)
      | .fault _ _ => performAll rt L rest

/-- A chain with two signers and a slab, and small numbers for keys. -/
def sampleRuntime : Runtime where
  programId := 7
  maxAccounts := 4
  createProgramAddress slab _ := if slab = 10 then some 1010 else none
  isExempt lamports := decide (1 ≤ lamports)
  bytes
    | .slab d => d.header
    | .token _ => []
    | .bytes data => data
  signs k := k ∈ [1, 2]

instance : DecidablePred sampleRuntime.signs := fun k => inferInstanceAs (Decidable (k ∈ [1, 2]))

/-- Key 10 is an allocated slab, with its vault at 1010, and 21 the token account of key 2. -/
def sampleGenesis : Ledger := fun k =>
  if k = 10 then ⟨7, 1, .slab ⟨List.replicate 104 0, zeroedEngine 4, rfl⟩⟩
  else if k = 1010 then ⟨SPL_TOKEN_ID, 1, .token ⟨5, 1010, 0, false⟩⟩
  else if k = 21 then ⟨SPL_TOKEN_ID, 1, .token ⟨5, 2, 5000, false⟩⟩
  else ⟨SYSTEM_PROGRAM_ID, 100, .bytes []⟩

/-- Key 1 lists a market and starts it, and key 2 deposits. -/
def sampleOpening : List Call :=
  [⟨99, [⟨1, true, true⟩, ⟨10, false, true⟩, ⟨5, false, false⟩, ⟨6, false, false⟩, ⟨SYSTEM_PROGRAM_ID, false, false⟩],
      (PercolatorInstruction.createSlab ⟨0, 255⟩).pack⟩,
    ⟨100, [⟨10, false, true⟩, ⟨1, true, false⟩], (PercolatorInstruction.initializeEngine ⟨sampleArgs, 1000⟩).pack⟩,
    ⟨101, [⟨10, false, true⟩, ⟨2, true, false⟩, ⟨21, false, true⟩, ⟨1010, false, true⟩, ⟨5, false, false⟩,
      ⟨SPL_TOKEN_ID, false, false⟩, ⟨SYSTEM_PROGRAM_ID, false, false⟩], (PercolatorInstruction.deposit ⟨1000⟩).pack⟩]

def sampleLedger : Ledger := (performAll sampleRuntime sampleGenesis sampleOpening).1

end Percolator.Program
