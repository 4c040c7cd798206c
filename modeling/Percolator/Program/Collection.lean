import Percolator.Program.Owners

/-!
How far the `Gc` cranks of a market get.

A crank scans one window of slots behind the cursor. It keeps the new cursor only if it has reclaimed
something: a window with nothing to do is rolled back with the cursor, and the next crank begins
where this one did.
-/

namespace Percolator

open Effect

section Clocks

variable {s s' : RiskEngine} {i now : Nat}

/-- The clock of the engine and the one of the market. -/
def RiskEngine.clocks (s : RiskEngine) : Nat × Nat := (s.currentSlot, s.lastMarketSlot)

instance {n : Nat} : Spares RiskEngine.clocks fun s => s.withCTot n := ⟨fun _ => rfl⟩
instance {n : Nat} : Spares RiskEngine.clocks fun s => s.withInsuranceFund n := ⟨fun _ => rfl⟩

instance {f : Account → Account} : Keeps RiskEngine.clocks (writeAccount i f) := by
  have spares : Spares RiskEngine.clocks fun s => s.setAccount i (f (s.accounts i)) := ⟨fun _ => rfl⟩
  exact inferInstanceAs (Keeps RiskEngine.clocks (update fun s => s.setAccount i (f (s.accounts i))))

instance : Keeps RiskEngine.clocks (reclaimDust i) := by
  dsimp only [reclaimDust, setCapital]
  infer_instance

instance : Keeps RiskEngine.clocks (freeSlot i) := by
  constructor
  intro s a s' l ok
  refine wp_sound (Q := fun _ s' _ => s'.clocks = s.clocks) ok ?_
  simp only [freeSlot, wp_bind, wp_read, wp_rejectIf, wp_writeAccount, wp_update, wp_orErr, implies_true, true_and]
  intros
  rfl

instance : Keeps RiskEngine.clocks sweepEmptyMarketSurplusToInsurance := by
  unfold sweepEmptyMarketSurplusToInsurance
  infer_instance

/-- A reclaim moves the clock of the engine, and not the one of the market. -/
theorem reclaim_clock {l : List Event} (ok : reclaimEmptyAccount i now s = .ok () s' l) :
    s'.currentSlot = now ∧ s'.lastMarketSlot = s.lastMarketSlot := by
  refine wp_sound (Q := fun _ s' _ => s'.currentSlot = now ∧ s'.lastMarketSlot = s.lastMarketSlot) ok ?_
  simp only [reclaimEmptyAccount, wp_bind, wp_read, wp_lift, wp_rejectIf, wp_update, implies_true, true_and]
  intro _ _
  refine wp_ok fun _ s₁ _ checked => ?_
  obtain ⟨rfl, -, -⟩ := checkLiveSlot_spec checked
  intro _ _ _ _ _ _
  refine Keeps.wp (v := RiskEngine.clocks) fun _ s₃ _ same₃ => ?_
  refine Keeps.wp (v := RiskEngine.clocks) fun _ s₄ _ same₄ => ?_
  refine Keeps.wp (v := RiskEngine.clocks) fun _ s₅ _ same₅ => ?_
  refine wp_ok fun _ s₆ _ checked => ?_
  obtain rfl := assertPublicPostconditions_same checked
  exact Prod.mk.inj (same₅.trans (same₄.trans same₃))

end Clocks

namespace Program

variable {s s' e : RiskEngine} {i j k n now : Nat} {g g' : GcScan} {slot : UInt64} {m m' : Slab}

/-- The slot that the scan comes to at its turn `k`. -/
def turnSlot (s : RiskEngine) (k : Nat) : Nat := (s.gcCursor + k) % s.params.maxAccounts

/-- The turns of one crank. -/
def turns (s : RiskEngine) : Nat := min GC_CLOSE_BUDGET s.params.maxAccounts

/-- What the scan reclaims when it comes to it. -/
def Dusty (s : RiskEngine) (i : Nat) : Prop := i ≠ PROTOCOL_LP_SLOT ∧ gcEligible s i

instance : Decidable (Dusty s i) := by
  unfold Dusty
  infer_instance

def Visited (s : RiskEngine) (k i : Nat) : Prop := ∃ j, 0 < j ∧ j ≤ k ∧ turnSlot s j = i

/-- `k` turns of the scan make `s'` of `s`. -/
structure Swept (s : RiskEngine) (k : Nat) (s' : RiskEngine) : Prop where
  params : s'.params = s.params
  market : s'.lastMarketSlot = s.lastMarketSlot
  gone : ∀ i, Dusty s i → Visited s k i → s'.isUsed i = false
  kept : ∀ i, ¬ (Dusty s i ∧ Visited s k i) → s'.isUsed i = s.isUsed i ∧ s'.accounts i = s.accounts i

theorem Visited.succ : Visited s (k + 1) i ↔ Visited s k i ∨ turnSlot s (k + 1) = i := by
  constructor
  · rintro ⟨j, positive, le, here⟩
    rcases Nat.lt_or_ge k j with last | before
    · right
      rw [← here, Nat.le_antisymm le last]
    · exact .inl ⟨j, positive, before, here⟩
  · rintro (⟨j, positive, le, here⟩ | here)
    · exact ⟨j, positive, by omega, here⟩
    · exact ⟨k + 1, by omega, le_rfl, here⟩

namespace Swept

theorem refl (s : RiskEngine) : Swept s 0 s := by
  refine ⟨rfl, rfl, ?_, fun _ _ => ⟨rfl, rfl⟩⟩
  rintro i - ⟨j, positive, le, -⟩
  omega

theorem dusty_congr (params : s'.params = s.params) (used : s'.isUsed i = s.isUsed i)
    (account : s'.accounts i = s.accounts i) : Dusty s' i ↔ Dusty s i := by
  unfold Dusty gcEligible
  rw [params, used, account]

/-- What is left for the rest of the scan. -/
theorem dusty (h : Swept s k s') : Dusty s' i ↔ Dusty s i ∧ ¬ Visited s k i := by
  by_cases swept : Dusty s i ∧ Visited s k i
  · refine iff_of_false ?_ (fun left => left.2 swept.2)
    rintro ⟨-, used, -⟩
    rw [h.gone i swept.1 swept.2] at used
    cases used
  · obtain ⟨used, account⟩ := h.kept i swept
    rw [dusty_congr h.params used account]
    exact ⟨fun dusty => ⟨dusty, fun visited => swept ⟨dusty, visited⟩⟩, fun left => left.1⟩

/-- A turn that comes to a slot with nothing to do. -/
theorem pass (h : Swept s k s') (clean : ¬ Dusty s' (turnSlot s (k + 1))) : Swept s (k + 1) s' := by
  have same : ∀ i, Dusty s i ∧ Visited s (k + 1) i → Dusty s i ∧ Visited s k i := by
    rintro i ⟨dusty, visited⟩
    refine ⟨dusty, ?_⟩
    rcases Visited.succ.mp visited with before | rfl
    · exact before
    · by_contra new
      exact clean (h.dusty.mpr ⟨dusty, new⟩)
  refine ⟨h.params, h.market, ?_, ?_⟩
  · intro i dusty visited
    exact h.gone i dusty (same i ⟨dusty, visited⟩).2
  · intro i left
    refine h.kept i fun swept => left ⟨swept.1, ?_⟩
    exact Visited.succ.mpr (.inl swept.2)

/-- A turn that reclaims the slot it comes to. -/
theorem take (h : Swept s k s') (dusty : Dusty s' (turnSlot s (k + 1))) (params : e.params = s'.params)
    (market : e.lastMarketSlot = s'.lastMarketSlot) (gone : e.isUsed (turnSlot s (k + 1)) = false)
    (others : ∀ i, i ≠ turnSlot s (k + 1) → e.isUsed i = s'.isUsed i ∧ e.accounts i = s'.accounts i) :
    Swept s (k + 1) e := by
  refine ⟨params.trans h.params, market.trans h.market, ?_, ?_⟩
  · intro i before visited
    by_cases here : i = turnSlot s (k + 1)
    · rw [here]
      exact gone
    · rw [(others i here).1]
      rcases Visited.succ.mp visited with earlier | now
      · exact h.gone i before earlier
      · exact absurd now.symm here
  · intro i left
    have apart : i ≠ turnSlot s (k + 1) := by
      rintro rfl
      exact left ⟨(h.dusty.mp dusty).1, Visited.succ.mpr (.inr rfl)⟩
    obtain ⟨used, account⟩ := others i apart
    obtain ⟨used', account'⟩ := h.kept i fun swept => left ⟨swept.1, Visited.succ.mpr (.inl swept.2)⟩
    exact ⟨used.trans used', account.trans account'⟩

end Swept

/-! ### The scan -/

/-- The scan after `k` turns. -/
structure Scanned (s : RiskEngine) (now k : Nat) (g : GcScan) : Prop extends Swept s k g.engine where
  sound : Sound g.engine
  accepts : AcceptsClock g.engine now
  cursor : g.cursor % s.params.maxAccounts = turnSlot s k
  idle : g.reclaimed = 0 ↔ ∀ j, 0 < j → j ≤ k → ¬ Dusty s (turnSlot s j)

/-- A reclaim leaves the other slots alone. -/
theorem Sound.reclaim_kept (h : Sound s) {l : List Event} (ok : reclaimEmptyAccount i slot.toNat s = .ok () s' l) :
    Kept s s' ∧ s'.isUsed i = false ∧ ∀ j, j ≠ i → s'.isUsed j = s.isUsed j ∧ s'.accounts j = s.accounts j := by
  have ran : (Instruction.reclaimEmptyAccount i slot).run s = .ok () s' l := ok
  obtain ⟨ph, course, -⟩ := h.good.committed ran
  obtain ⟨s₁, s₂, l₂, -, gave, same⟩ := reclaim_seating ok
  refine ⟨h.ran (.reclaimEmptyAccount i slot) id ok, ?_, ?_⟩
  · rw [(SeatMove.freed_slots gave same).1, if_pos rfl]
  · intro j apart
    obtain ⟨account, used⟩ := course.run.frame (j := j) apart
    exact ⟨used, account⟩

theorem Scanned.turn (h : Scanned s slot.toNat k g) :
    ∃ g', gcTurn s.params.maxAccounts slot.toNat g = some g' ∧ Scanned s slot.toNat (k + 1) g' := by
  have positive : 0 < s.params.maxAccounts := by
    rw [← h.params]
    exact h.sound.timely.params.maxAccounts_pos
  have here : (g.cursor + 1) % max s.params.maxAccounts 1 = turnSlot s (k + 1) := by
    have before := h.cursor
    unfold turnSlot at *
    rw [max_eq_left positive, ← Nat.add_assoc, Nat.add_mod, before, ← Nat.add_mod]
  have cursor : turnSlot s (k + 1) % s.params.maxAccounts = turnSlot s (k + 1) := Nat.mod_mod _ _
  have through : ∀ {P : Nat → Prop}, (∀ j, 0 < j → j ≤ k + 1 → P j) ↔ (∀ j, 0 < j → j ≤ k → P j) ∧ P (k + 1) := by
    intro P
    constructor
    · intro all
      exact ⟨fun j positive le => all j positive (by omega), all _ (by omega) le_rfl⟩
    · rintro ⟨all, last⟩ j positive le
      rcases Nat.lt_or_ge k j with after | before
      · rw [Nat.le_antisymm le after]
        exact last
      · exact all j positive before
  unfold gcTurn
  simp only [here]
  by_cases due : Dusty g.engine (turnSlot s (k + 1))
  · obtain ⟨lp, eligible⟩ := due
    obtain ⟨_, e, l, ok, -⟩ := wp_total (reclaim_total h.sound.good h.sound.live h.accepts eligible)
    obtain ⟨kept, gone, others⟩ := h.sound.reclaim_kept ok
    obtain ⟨clock, market⟩ := reclaim_clock ok
    rw [if_neg lp, if_neg (not_not.mpr eligible), ok]
    refine ⟨_, rfl, h.toSwept.take ⟨lp, eligible⟩ kept.same.params market gone others, kept.sound, ?_, cursor, ?_⟩
    · refine ⟨clock.le, ?_⟩
      rw [market, kept.same.params]
      exact h.accepts.envelope
    · refine iff_of_false (Nat.succ_ne_zero _) fun all => ?_
      exact all (k + 1) (Nat.succ_pos k) le_rfl (h.toSwept.dusty.mp ⟨lp, eligible⟩).1
  · have idle : g.reclaimed = 0 ↔ ∀ j, 0 < j → j ≤ k + 1 → ¬ Dusty s (turnSlot s j) := by
      rw [through, h.idle]
      refine ⟨fun all => ⟨all, fun dusty => due (h.toSwept.dusty.mpr ⟨dusty, ?_⟩)⟩, fun both => both.1⟩
      rintro ⟨j, positive, le, same⟩
      exact all j positive le (same ▸ dusty)
    have pass := h.toSwept.pass due
    by_cases lp : turnSlot s (k + 1) = PROTOCOL_LP_SLOT
    · rw [if_pos lp]
      exact ⟨_, rfl, pass, h.sound, h.accepts, cursor, idle⟩
    · have clean : ¬ gcEligible g.engine (turnSlot s (k + 1)) := fun eligible => due ⟨lp, eligible⟩
      rw [if_neg lp, if_pos clean]
      exact ⟨_, rfl, pass, h.sound, h.accepts, cursor, idle⟩

theorem Scanned.loop (h : Scanned s slot.toNat k g) (n : Nat) :
    ∃ g', gcLoop s.params.maxAccounts slot.toNat n g = some g' ∧ Scanned s slot.toNat (k + n) g' := by
  induction n generalizing g k with
  | zero => exact ⟨g, rfl, h⟩
  | succ n ih =>
      obtain ⟨g₁, turn, h₁⟩ := h.turn
      obtain ⟨g₂, rest, h₂⟩ := ih h₁
      refine ⟨g₂, ?_, ?_⟩
      · unfold gcLoop
        rw [turn]
        exact rest
      · rw [Nat.add_right_comm] at h₂
        exact h₂

/-! ### One crank -/

/-- A window with a slot to reclaim. -/
def Busy (s : RiskEngine) : Prop := ∃ j, 0 < j ∧ j ≤ turns s ∧ Dusty s (turnSlot s j)

theorem Sound.scanned (h : Sound s) (accepts : AcceptsClock s now) : Scanned s now 0 ⟨s, s.gcCursor, 0⟩ := by
  refine ⟨Swept.refl s, h, accepts, rfl, iff_of_true rfl ?_⟩
  intro j positive le
  omega

/-- A crank over a busy window keeps what it reclaims and where it got to. -/
theorem Sound.crankGc_busy (h : Sound s) (accepts : AcceptsClock s slot.toNat) (busy : Busy s) :
    ∃ s', Program.crankGc slot s = .ok () s' [] ∧ Swept s (turns s) s' ∧ AcceptsClock s' slot.toNat ∧
      s'.gcCursor % s.params.maxAccounts = turnSlot s (turns s) := by
  obtain ⟨g, scan, scanned⟩ := (h.scanned accepts).loop (turns s)
  rw [Nat.zero_add] at scanned
  have worked : g.reclaimed ≠ 0 := by
    intro idle
    obtain ⟨j, positive, le, dusty⟩ := busy
    exact scanned.idle.mp idle j positive le dusty
  have swept := scanned.toSwept
  refine ⟨{ g.engine with gcCursor := g.cursor }, ?_, ?_,
    ⟨scanned.accepts.clock, scanned.accepts.envelope⟩, scanned.cursor⟩
  · unfold Program.crankGc processCrankGc
    unfold turns at scan
    simp only [scan, if_neg worked]
  · exact ⟨swept.params, swept.market, swept.gone, swept.kept⟩

/-- A crank over another window is refused. -/
theorem Sound.crankGc_idle (h : Sound s) (accepts : AcceptsClock s slot.toNat) (idle : ¬ Busy s) :
    Program.crankGc slot s = .fault (.error .nothingToDo) s := by
  obtain ⟨g, scan, scanned⟩ := (h.scanned accepts).loop (turns s)
  rw [Nat.zero_add] at scanned
  have nothing : g.reclaimed = 0 := by
    apply scanned.idle.mpr
    intro j positive le dusty
    exact idle ⟨j, positive, le, dusty⟩
  unfold Program.crankGc processCrankGc
  unfold turns at scan
  simp only [scan, if_pos nothing]

theorem payCrankBounty_total {ts : List Transfer} (h : Sound s) :
    wp payCrankBounty (fun _ s' _ => ∃ n v, s' = (s.withInsuranceFund n).withVault v) (fun _ _ => False) s ts := by
  have backed := h.books.backed
  simp only [payCrankBounty, okOr, wp_bind, wp_read, wp_whenever, wp_update, wp_demand, wp_emit]
  set pay := min (s.insuranceFund - s.params.insuranceFloor) CRANK_BOUNTY
  have le : pay ≤ s.insuranceFund := (min_le_left _ _).trans (Nat.sub_le _ _)
  have covered : checkedSub s.vault pay = some (s.vault - pay) := if_pos (by omega)
  constructor
  · intro due
    refine ⟨fun short => ?_, fun newV paid => ⟨fun _ => ⟨_, _, rfl⟩, fun none => absurd due none⟩⟩
    have short : checkedSub s.vault pay = none := short
    rw [covered] at short
    cases short
  · intro none
    exact ⟨fun due => absurd due none, fun _ => ⟨s.insuranceFund, s.vault, rfl⟩⟩

def gcRequest : Request := .crank ⟨1⟩

theorem gcRequest_process : gcRequest.process slot = (crankGc slot >>= fun _ => payCrankBounty) := by
  have kind : crankKind 1 = some .gc := by decide
  unfold gcRequest Request.process processCrank okOr
  dsimp only
  rw [kind]
  exact ret_seq _ _

/-- The market after a crank over a busy window. -/
theorem Reachable.gc_busy (h : Reachable m) (accepts : AcceptsClock m.engine slot.toNat) (busy : Busy m.engine) :
    Swept m.engine (turns m.engine) (gcRequest.send m slot).engine ∧
      AcceptsClock (gcRequest.send m slot).engine slot.toNat ∧
      (gcRequest.send m slot).engine.gcCursor % m.engine.params.maxAccounts = turnSlot m.engine (turns m.engine) := by
  have sound := h.sound
  have tokens := h.vault_backed.1.tokens
  obtain ⟨s₁, worked, swept, accepts₁, cursor⟩ := sound.crankGc_busy accepts busy
  have kept : Kept m.engine s₁ := wp_at sound.crankGc worked
  obtain ⟨_, s₂, ts, paid, n, v, rfl⟩ := wp_total (payCrankBounty_total kept.sound)
  have run : gcRequest.process slot m.engine = .ok () ((s₁.withInsuranceFund n).withVault v) ([] ++ ts) := by
    rw [gcRequest_process]
    exact bind_eq_ok.mpr ⟨(), s₁, [], ts, worked, paid, rfl⟩
  have matched : settleTransfers ([] ++ ([] ++ ts)) m.engine.vault = some v := wp_at (process_matched sound gcRequest) run
  have sent : gcRequest.send m slot = ⟨(s₁.withInsuranceFund n).withVault v, v⟩ := by
    have executed : gcRequest.execute m slot = some ⟨(s₁.withInsuranceFund n).withVault v, v⟩ := by
      unfold Request.execute
      rw [run, ← tokens]
      exact congrArg (Option.map _) matched
    unfold Request.send
    rw [executed]
    rfl
  rw [sent]
  exact ⟨⟨swept.params, swept.market, swept.gone, swept.kept⟩, ⟨accepts₁.clock, accepts₁.envelope⟩, cursor⟩

/-- A crank over another window leaves the market as it is, and with it the window. -/
theorem Reachable.gc_idle (h : Reachable m) (accepts : AcceptsClock m.engine slot.toNat) (idle : ¬ Busy m.engine) :
    gcRequest.send m slot = m := by
  have refused : gcRequest.process slot m.engine = .fault (.error .nothingToDo) m.engine := by
    rw [gcRequest_process]
    simp only [bind, seq, h.sound.crankGc_idle accepts idle]
  unfold Request.send Request.execute
  rw [refused]
  rfl

theorem Reachable.send (h : Reachable m) : Reachable (gcRequest.send m slot) := by
  obtain ⟨m₀, l, initial, run⟩ := h
  exact ⟨m₀, _, initial, run.tail (Request.sent m gcRequest slot)⟩

/-! ### Crank after crank -/

/-- The market after cranks at the given slots of the clock; one that fails is rolled back. -/
def gcCranks (m : Slab) (slots : List UInt64) : Slab := sendAll m (slots.map fun slot => (gcRequest, slot))

/-- The scan comes to slot `i` in at most one round, and there is something to reclaim in every window before. -/
def Reclaims (s : RiskEngine) (i : Nat) : Prop :=
  ∃ k, 0 < k ∧ k ≤ s.params.maxAccounts ∧ turnSlot s k = i ∧
    ∀ n, (n + 1) * turns s < k → ∃ j, n * turns s < j ∧ j ≤ (n + 1) * turns s ∧ Dusty s (turnSlot s j)

theorem turnSlot_inj (positive : 0 < j) (before : j < k) (round : k ≤ s.params.maxAccounts) : turnSlot s j ≠ turnSlot s k := by
  intro same
  unfold turnSlot at same
  have divides := (Nat.modEq_iff_dvd' (by omega : s.gcCursor + j ≤ s.gcCursor + k)).mp same
  have := Nat.le_of_dvd (by omega) divides
  omega

/-- Slots of the clock, none before another, at which the market lets the engine move on. -/
structure Schedule (m : Slab) (slots : List UInt64) : Prop where
  sorted : slots.Pairwise (· ≤ ·)
  accepts : ∀ slot ∈ slots, AcceptsClock m.engine slot.toNat

variable {slots : List UInt64}

theorem Schedule.first (h : Schedule m (slot :: slots)) : AcceptsClock m.engine slot.toNat :=
  h.accepts slot List.mem_cons_self

/-- A crank leaves the rest of the schedule ahead. -/
theorem Schedule.rest (h : Schedule m (slot :: slots)) (reachable : Reachable m) :
    Schedule (gcRequest.send m slot) slots := by
  obtain ⟨later, sorted⟩ := List.pairwise_cons.mp h.sorted
  refine ⟨sorted, ?_⟩
  intro t member
  have accepts := h.accepts t (List.mem_cons_of_mem _ member)
  by_cases busy : Busy m.engine
  · obtain ⟨swept, moved, -⟩ := reachable.gc_busy h.first busy
    refine ⟨moved.clock.trans (UInt64.le_iff_toNat_le.mp (later t member)), ?_⟩
    rw [swept.market, swept.params]
    exact accepts.envelope
  · rw [reachable.gc_idle h.first busy]
    exact accepts

/-- The turns of the next crank go on behind those of this one. -/
theorem Swept.turnSlot (h : Swept s (turns s) e) (cursor : e.gcCursor % s.params.maxAccounts = turnSlot s (turns s)) :
    turns e = turns s ∧ ∀ j, Program.turnSlot e j = Program.turnSlot s (turns s + j) := by
  constructor
  · unfold turns
    rw [h.params]
  · intro j
    unfold Program.turnSlot at *
    rw [h.params, Nat.add_mod, cursor, ← Nat.add_mod, Nat.add_assoc]

/-- What one round comes to behind this window is not in it. -/
theorem Swept.ahead (h : Swept s (turns s) e) (after : turns s < k) (round : k ≤ s.params.maxAccounts) :
    Dusty e (Program.turnSlot s k) ↔ Dusty s (Program.turnSlot s k) := by
  rw [h.dusty]
  refine ⟨fun both => both.1, fun dusty => ⟨dusty, ?_⟩⟩
  rintro ⟨j, positive, le, same⟩
  exact turnSlot_inj positive (by omega) round same

/-- No crank takes a slot into use. -/
theorem Reachable.gcCranks_unused (h : Reachable m) (schedule : Schedule m slots) (unused : m.engine.isUsed i = false) :
    (gcCranks m slots).engine.isUsed i = false := by
  induction slots generalizing m with
  | nil => exact unused
  | cons slot slots ih =>
      apply ih h.send (schedule.rest h)
      by_cases busy : Busy m.engine
      · obtain ⟨swept, -⟩ := h.gc_busy schedule.first busy
        by_cases here : Dusty m.engine i ∧ Visited m.engine (turns m.engine) i
        · exact swept.gone i here.1 here.2
        · exact (swept.kept i here).1.trans unused
      · rw [h.gc_idle schedule.first busy]
        exact unused

/-- Behind busy windows the cranks come to a slot and reclaim it. -/
theorem Reachable.gcCranks_reclaimed (h : Reachable m) (schedule : Schedule m slots) (positive : 0 < k)
    (round : k ≤ m.engine.params.maxAccounts) (enough : k ≤ slots.length * turns m.engine)
    (dusty : Dusty m.engine (turnSlot m.engine k))
    (busy : ∀ n, (n + 1) * turns m.engine < k → ∃ j, n * turns m.engine < j ∧ j ≤ (n + 1) * turns m.engine ∧
      Dusty m.engine (turnSlot m.engine j)) :
    (gcCranks m slots).engine.isUsed (turnSlot m.engine k) = false := by
  induction slots generalizing m k with
  | nil =>
      rw [List.length_nil, Nat.zero_mul] at enough
      omega
  | cons slot slots ih =>
      rw [List.length_cons, Nat.succ_mul] at enough
      rcases Nat.lt_or_ge (turns m.engine) k with after | now
      · -- this window is a busy one before the slot
        have first : Busy m.engine := by
          obtain ⟨j, above, below, dusty⟩ := busy 0 (by omega)
          exact ⟨j, by omega, by omega, dusty⟩
        obtain ⟨swept, -, cursor⟩ := h.gc_busy schedule.first first
        obtain ⟨window, shift⟩ := swept.turnSlot cursor
        have there : turnSlot (gcRequest.send m slot).engine (k - turns m.engine) = turnSlot m.engine k := by
          rw [shift, Nat.add_sub_cancel' after.le]
        have further := ih (k := k - turns m.engine) h.send (schedule.rest h) (by omega) ?_ ?_ ?_ ?_
        · rw [there] at further
          exact further
        · rw [swept.params]
          omega
        · rw [window]
          omega
        · rw [there]
          exact (swept.ahead after round).mpr dusty
        · intro n before
          rw [window] at before
          obtain ⟨j, above, below, dusty⟩ := busy (n + 1) (by rw [Nat.succ_mul]; omega)
          rw [Nat.succ_mul] at above below
          refine ⟨j - turns m.engine, ?_, ?_, ?_⟩
          · rw [window]
            omega
          · rw [window]
            omega
          · have cancel : turns m.engine + (j - turns m.engine) = j := by omega
            rw [shift, cancel]
            exact (swept.ahead (by omega) (by omega)).mpr dusty
      · obtain ⟨swept, -⟩ := h.gc_busy schedule.first ⟨k, positive, now, dusty⟩
        exact h.send.gcCranks_unused (schedule.rest h) (swept.gone _ dusty ⟨k, positive, now, rfl⟩)

/-- Behind a window with nothing to do no crank comes to a slot. -/
theorem Reachable.gcCranks_stuck (h : Reachable m) (schedule : Schedule m slots)
    (round : k ≤ m.engine.params.maxAccounts) (dusty : Dusty m.engine (turnSlot m.engine k))
    (before : (n + 1) * turns m.engine < k)
    (idle : ∀ j, n * turns m.engine < j → j ≤ (n + 1) * turns m.engine → ¬ Dusty m.engine (turnSlot m.engine j)) :
    (gcCranks m slots).engine.isUsed (turnSlot m.engine k) = true := by
  induction slots generalizing m k n with
  | nil => exact dusty.2.1
  | cons slot slots ih =>
      by_cases busy : Busy m.engine
      · cases n with
        | zero =>
            obtain ⟨j, positive, le, there⟩ := busy
            exact absurd there (idle j (by omega) (by omega))
        | succ n =>
            rw [Nat.succ_mul] at before
            obtain ⟨swept, -, cursor⟩ := h.gc_busy schedule.first busy
            obtain ⟨window, shift⟩ := swept.turnSlot cursor
            have after : turns m.engine < k := by omega
            have there : turnSlot (gcRequest.send m slot).engine (k - turns m.engine) = turnSlot m.engine k := by
              rw [shift, Nat.add_sub_cancel' after.le]
            have further := ih (k := k - turns m.engine) (n := n) h.send (schedule.rest h) ?_ ?_ ?_ ?_
            · rw [there] at further
              exact further
            · rw [swept.params]
              omega
            · rw [there]
              exact (swept.ahead after round).mpr dusty
            · rw [window]
              omega
            · intro j above below
              rw [window] at above below
              rw [shift]
              intro left
              refine idle (turns m.engine + j) ?_ ?_ (swept.dusty.mp left).1
              · rw [Nat.succ_mul]
                omega
              · rw [Nat.succ_mul]
                omega
      · have stays := h.gc_idle schedule.first busy
        have schedule' := schedule.rest h
        rw [stays] at schedule'
        have further := ih h schedule' round dusty before idle
        show (gcCranks (gcRequest.send m slot) slots).engine.isUsed _ = true
        rw [stays]
        exact further

/-- One round of the scan comes to every slot of the market. -/
theorem exists_turn (inside : i < s.params.maxAccounts) : ∃ k, 0 < k ∧ k ≤ s.params.maxAccounts ∧ turnSlot s k = i := by
  set size := s.params.maxAccounts
  have start : s.gcCursor % size < size := Nat.mod_lt _ (by omega)
  rcases Nat.lt_or_ge (s.gcCursor % size) i with ahead | behind
  · refine ⟨i - s.gcCursor % size, by omega, by omega, ?_⟩
    unfold turnSlot
    rw [Nat.add_mod, Nat.mod_eq_of_lt (a := i - s.gcCursor % size) (by omega), Nat.add_sub_cancel' ahead.le,
      Nat.mod_eq_of_lt inside]
  · refine ⟨i + size - s.gcCursor % size, by omega, by omega, ?_⟩
    have sum : s.gcCursor % size + (i + size - s.gcCursor % size) = i + size := by omega
    unfold turnSlot
    rw [← Nat.mod_add_mod, sum, Nat.add_mod_right, Nat.mod_eq_of_lt inside]

/-- In every market that the instructions of the program reach, `max_accounts` cranks inside the accrual envelope
reclaim a dusty slot just if every full window of the scan before the one of the slot has something to
reclaim. -/
theorem Reachable.gc_reclaims_iff (h : Reachable m) (slab : m.engine.maxAccounts ≤ NIL) (dusty : Dusty m.engine i)
    (schedule : Schedule m slots) (length : slots.length = m.engine.params.maxAccounts) :
    (gcCranks m slots).engine.isUsed i = false ↔ Reclaims m.engine i := by
  obtain ⟨chain, tenancy⟩ := (h.orderly slab).tenancy
  have inside := tenancy.active i dusty.2.1
  have budget : 1 ≤ turns m.engine := by
    unfold turns
    exact le_min (by decide) (by omega)
  constructor
  · intro gone
    obtain ⟨k, positive, round, rfl⟩ := exists_turn inside
    by_contra stuck
    have blocked : ∃ n, (n + 1) * turns m.engine < k ∧ ∀ j, n * turns m.engine < j → j ≤ (n + 1) * turns m.engine →
        ¬ Dusty m.engine (turnSlot m.engine j) := by
      by_contra free
      push Not at free
      exact stuck ⟨k, positive, round, rfl, free⟩
    obtain ⟨n, before, idle⟩ := blocked
    rw [h.gcCranks_stuck schedule round dusty before idle] at gone
    cases gone
  · rintro ⟨k, positive, round, rfl, busy⟩
    refine h.gcCranks_reclaimed schedule positive round ?_ dusty busy
    rw [length]
    exact round.trans (Nat.le_mul_of_pos_right _ budget)

/-! ### A market that is stuck -/

/-- A new market on 40 slots. -/
def wideSlab : Slab :=
  ⟨freshEngine 40 { sampleArgs with maxAccounts := 40 }.intoEngineParams 100 1000, 0⟩

theorem wideSlab_reachable : Reachable wideSlab := by
  refine ⟨_, _, ⟨freshEngine 40 { sampleArgs with maxAccounts := 40 }.intoEngineParams 100 1000,
    ⟨{ sampleArgs with maxAccounts := 40 }, 1000⟩, 100, [], ?_, ?_, rfl⟩, .refl _⟩
  · rfl
  · rfl

/-- Four times a user comes and goes and a crank reclaims its slot, which moves the cursor to 8; then another
leaves the slot behind. -/
def stuckSlab : Slab :=
  sendAll wideSlab
    [(.deposit 1 ⟨1000⟩, 101),
      (.deposit 2 ⟨1000⟩, 101), (.withdraw 2 ⟨1000⟩, 101), (gcRequest, 101),
      (.deposit 2 ⟨1000⟩, 101), (.withdraw 2 ⟨1000⟩, 101), (gcRequest, 101),
      (.deposit 2 ⟨1000⟩, 101), (.withdraw 2 ⟨1000⟩, 101), (gcRequest, 101),
      (.deposit 2 ⟨1000⟩, 101), (.withdraw 2 ⟨1000⟩, 101), (gcRequest, 101),
      (.deposit 2 ⟨1000⟩, 101), (.withdraw 2 ⟨1000⟩, 101)]

theorem stuckSlab_reachable : Reachable stuckSlab := wideSlab_reachable.sendAll _

theorem stuckSlab_dusty : Dusty stuckSlab.engine 1 := by decide +kernel

theorem stuckSlab_schedule (n : Nat) : Schedule stuckSlab (List.replicate n 101) := by
  constructor
  · exact List.pairwise_replicate.mpr (.inr (UInt64.le_refl 101))
  · intro slot member
    rw [List.eq_of_mem_replicate member]
    exact ⟨by decide +kernel, by decide +kernel⟩

/-- Every crank scans the slots 9 to 39 and 0, and the dusty slot 1 stays. -/
theorem Reachable.gc_never_reclaims : ∃ m i slot, Reachable m ∧ m.engine.maxAccounts ≤ NIL ∧ Dusty m.engine i ∧
    AcceptsClock m.engine slot.toNat ∧ ∀ n, (gcCranks m (List.replicate n slot)).engine.isUsed i = true := by
  have there : turnSlot stuckSlab.engine 33 = 1 := by decide +kernel
  have window : turns stuckSlab.engine = 32 := by decide +kernel
  have clean : ∀ j < 33, 0 < j → ¬ Dusty stuckSlab.engine (turnSlot stuckSlab.engine j) := by decide +kernel
  refine ⟨stuckSlab, 1, 101, stuckSlab_reachable, by decide +kernel, stuckSlab_dusty, (stuckSlab_schedule 1).first, ?_⟩
  intro n
  rw [← there]
  refine stuckSlab_reachable.gcCranks_stuck (n := 0) (stuckSlab_schedule n) (by decide +kernel) (there ▸ stuckSlab_dusty) ?_ ?_
  · rw [window]
    decide
  · intro j above below
    rw [window] at above below
    exact clean j (by omega) (by omega)

theorem stuckSlab_reclaims_iff :
    (gcCranks stuckSlab (List.replicate 40 101)).engine.isUsed 1 = false ↔ Reclaims stuckSlab.engine 1 :=
  stuckSlab_reachable.gc_reclaims_iff (by decide +kernel) stuckSlab_dusty (stuckSlab_schedule 40) (by decide +kernel)

end Program

end Percolator
