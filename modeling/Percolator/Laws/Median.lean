import Percolator.Base.Window
import Percolator.Oracle.Runs

/-!
The published price of a feed: the ring holds the prices written last, and the
price is their lower median.
-/

namespace Percolator.Oracle

variable {programId k : Pubkey} {L L' : Ledger} {l : List Log} {f f' : Feed} {log : Log}
  {history : List U64}

/-- The prices written to a feed since its ring was last bootstrapped, after one
more line of the log. -/
def record (k : Pubkey) (history : List U64) : Log → List U64
  | .initializeFeed feed _ _ price => if feed = k then [price] else history
  | .update feed instant _ _ => if feed = k then history ++ [instant] else history
  | .graduate _ => history
  | .convertSource feed _ fresh => if feed = k then [fresh] else history

def written (k : Pubkey) (l : List Log) : List U64 := l.foldl (record k) []

theorem record_other (h : log.feed ≠ k) : record k history log = history := by
  cases log with
  | initializeFeed feed mint kind price => exact if_neg h
  | update feed instant median slot => exact if_neg h
  | graduate feed => rfl
  | convertSource feed newKind fresh => exact if_neg h

/-- A feed and the prices written to it. -/
structure FeedOk (f : Feed) (history : List U64) : Prop where
  ring : Holds f.ringBuffer f.ringIdx.toNat 0 history
  proper : ∀ p ∈ history, p ≠ 0
  median : lowerMedian (history.rtake RING_LEN) = some f.priceLamportsPerToken

/-- The entries of the ring are the prices written last. -/
theorem Holds.ringEntries_perm {ring : Fin RING_LEN → U64} {i : Nat} (h : Holds ring i 0 history)
    (proper : ∀ p ∈ history, p ≠ 0) : (ringEntries ring).Perm (history.rtake RING_LEN) := by
  rw [← h.items proper]
  exact (readOff_perm.symm).filter _

theorem Holds.ringMedian_eq {ring : Fin RING_LEN → U64} {i : Nat} (h : Holds ring i 0 history)
    (proper : ∀ p ∈ history, p ≠ 0) : ringMedian ring = lowerMedian (history.rtake RING_LEN) := by
  rw [Oracle.ringMedian_eq]
  exact lowerMedian_congr (Holds.ringEntries_perm h proper)

/-- A ring that has just been bootstrapped. -/
theorem FeedOk.bootstrap {price : U64} (price_ne : price ≠ 0)
    (ring : f.ringBuffer = bootstrapRing price) (idx : f.ringIdx = 1)
    (published : f.priceLamportsPerToken = price) : FeedOk f [price] := by
  constructor
  · rw [ring, idx]
    exact (Holds.start (by decide)).push price
  · intro p hp
    rwa [List.mem_singleton.mp hp]
  · rw [published]
    exact lowerMedian_singleton price

/-- An instruction on a feed keeps it in order with what has been written. -/
theorem FeedStep.ok (h : FeedStep k f log f') (hf : f.isInitialized = true → FeedOk f history) :
    FeedOk f' (record k history log) := by
  cases h with
  | initialized slot mint source fresh price_ne =>
      rw [record, if_pos rfl]
      exact .bootstrap price_ne rfl rfl rfl
  | @updated slot price median inited price_ne inRing median_eq =>
      have hf := hf inited
      rw [record, if_pos rfl]
      have proper : ∀ p ∈ history ++ [price], p ≠ 0 := by
        intro p hp
        rcases List.mem_append.mp hp with hp | hp
        · exact hf.proper p hp
        · rwa [List.mem_singleton.mp hp]
      have ring := hf.ring.push price
      have idx : (BitVec.ofNat 8 ((f.ringIdx.toNat + 1) % RING_LEN)).toNat =
          (f.ringIdx.toNat + 1) % RING_LEN := by
        have : (f.ringIdx.toNat + 1) % RING_LEN < RING_LEN := Nat.mod_lt _ (by decide)
        rw [BitVec.toNat_ofNat, Nat.mod_eq_of_lt (this.trans (by decide))]
      refine ⟨?_, proper, ?_⟩
      · rw [idx]
        exact ring
      · rw [← median_eq]
        exact (Holds.ringMedian_eq ring proper).symm
  | graduated inited =>
      have hf := hf inited
      exact ⟨hf.ring, hf.proper, hf.median⟩
  | converted slot source inited after price_ne =>
      rw [record, if_pos rfl]
      exact .bootstrap price_ne rfl rfl rfl

theorem Reached.feedOk (h : Reached programId l L) (live : L.feedAt programId k = some f) :
    FeedOk f (written k l) := by
  obtain ⟨L₀, blank, run⟩ := h
  induction run generalizing f with
  | refl =>
      by_cases own : (L₀ k).owner = programId
      · rw [Ledger.feedAt_blank (blank k own)] at live
        cases live
      · rw [Ledger.feedAt_foreign own] at live
        cases live
  | tail run last ih =>
      rename_i s₁ s₂ l l₁
      have happend : written k (l ++ l₁) = l₁.foldl (record k) (written k l) := List.foldl_append
      rw [happend]
      rcases last.feed k with ⟨quiet, same⟩ | ⟨f₁, f₂, log, rfl, step, live₂, live₁⟩
      · rw [same] at live
        have hquiet : ∀ l' : List Log, (∀ log ∈ l', log.feed ≠ k) → ∀ hist,
            l'.foldl (record k) hist = hist := by
          intro l' h hist
          induction l' with
          | nil => rfl
          | cons log rest ihl =>
              rw [List.foldl_cons, record_other (h log List.mem_cons_self)]
              exact ihl fun log' hl => h log' (List.mem_cons_of_mem _ hl)
        rw [hquiet l₁ quiet]
        exact ih live
      · rw [live₂] at live
        obtain rfl := Option.some.inj live
        apply step.ok
        intro inited
        rw [if_pos inited] at live₁
        exact ih live₁

/-- Whatever has been sent to the program: the ring of a feed holds exactly the
last 30 of the prices written since it was bootstrapped, none of them zero, and
the published price is their lower median. A strict minority of the window can
therefore not move it past the rest. -/
theorem Reached.feed_median (h : Reached programId l L) (live : L.feedAt programId k = some f) :
    (readOff f.ringBuffer f.ringIdx.toNat).filter (· ≠ 0) = (written k l).rtake RING_LEN ∧
      ((written k l).rtake RING_LEN).length = min (written k l).length RING_LEN ∧
      (∀ p ∈ (written k l).rtake RING_LEN, p ≠ 0) ∧
      f.ringIdx.toNat < RING_LEN ∧
      lowerMedian ((written k l).rtake RING_LEN) = some f.priceLamportsPerToken ∧
      ∀ honest adversarial : List U64,
        (honest ++ adversarial).Perm ((written k l).rtake RING_LEN) →
        2 * adversarial.length < ((written k l).rtake RING_LEN).length →
        ∃ lo ∈ honest, ∃ hi ∈ honest,
          lo ≤ f.priceLamportsPerToken ∧ f.priceLamportsPerToken ≤ hi := by
  have hf := h.feedOk live
  refine ⟨hf.ring.items hf.proper, ?_, ?_, hf.ring.lt, hf.median, ?_⟩
  · rw [List.rtake, List.length_drop]
    omega
  · intro p hp
    exact hf.proper p (List.mem_of_mem_drop hp)
  · intro honest adversarial split minority
    exact lowerMedian_between hf.median split minority

/-! ### A concrete run -/

/-- The program, a feed account, a bonding curve that is complete and two pools. -/
def sampleLedger : Ledger := fun k =>
  if k = 1 then { owner := 7, data := List.replicate Feed.LEN 0 }
  else if k = 2 then
    { owner := 0, data := List.replicate 8 0 ++ leBytes 8 9 ++ leBytes 8 3 ++ List.replicate 167 1 }
  else if k = 3 then { owner := 0, data := List.replicate 8 0 ++ leBytes 8 5 ++ leBytes 8 25 }
  else if k = 4 then { owner := 0, data := List.replicate 8 0 ++ leBytes 8 1 ++ leBytes 8 1 }
  else { owner := 0, data := [] }

theorem sampleLedger_blank : Blank 7 sampleLedger := by
  intro k own b hb
  by_cases h₁ : k = 1
  · simp only [sampleLedger, if_pos h₁] at hb
    exact List.eq_of_mem_replicate hb
  · simp only [sampleLedger, if_neg h₁] at own
    split_ifs at own <;> cases own

/-- A call on the feed account with a source account. -/
def feedCall (slot : U64) (source : Pubkey) (ix : OracleInstruction) : Call :=
  { slot, feed := { key := 1, isWritable := true }, others := [{ key := source, isWritable := false }],
    input := ix.pack }

def feedCalls : List Call :=
  [feedCall 10 2 (.initializeFeed { mint := 5, source := 2, sourceKind := 0 }),
    feedCall 11 2 .update, feedCall 12 2 .graduate,
    feedCall 13 3 (.convertSource { newKind := 1, newSource := 3 }), feedCall 14 3 .update]

theorem feedCalls_reached :
    Reached 7 (logsAll 7 sampleLedger feedCalls) (performAll 7 sampleLedger feedCalls) :=
  ⟨sampleLedger, sampleLedger_blank, run_performAll feedCalls⟩

/-- The feed after the run, on the first pool. -/
def convertedFeed : Feed :=
  ((performAll 7 sampleLedger feedCalls).feedAt 7 1).get (by decide +kernel)

theorem convertedFeed_live : (performAll 7 sampleLedger feedCalls).feedAt 7 1 = some convertedFeed :=
  (Option.some_get _).symm

theorem feedCalls_median :
    lowerMedian ((written 1 (logsAll 7 sampleLedger feedCalls)).rtake RING_LEN) =
      some convertedFeed.priceLamportsPerToken :=
  (feedCalls_reached.feed_median convertedFeed_live).2.2.2.2.1

end Percolator.Oracle
