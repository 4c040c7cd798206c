import Percolator.Laws.Median

/-!
Conversions of a feed to another source.

`ConvertSource` asks for a graduated feed and not for one that is still on its
bonding curve, and nothing clears the flag: a converted feed can be converted
again, by anyone and to any account. A feed that is on an AMM keeps its source
as long as nobody does.
-/

namespace Percolator.Oracle

variable {programId k : Pubkey} {L L' : Ledger} {l : List Log} {f f' : Feed} {log : Log}

/-- The current source is not a bonding curve. -/
def Feed.OnAmm (f : Feed) : Prop := f.sourceKindEnum ≠ some .pumpBonding

/-- The line was logged by an instruction that bootstraps the ring of feed `k`. -/
def Log.Bootstraps (k : Pubkey) : Log → Prop
  | .initializeFeed feed _ _ _ => feed = k
  | .update _ _ _ _ => False
  | .graduate _ => False
  | .convertSource feed _ _ => feed = k

/-- A conversion of a feed that is graduated and on an AMM already. -/
def Reconverts (programId : Pubkey) (L : Ledger) (log : Log) : Prop :=
  ∃ k kind price f, log = .convertSource k kind price ∧ L.feedAt programId k = some f ∧
    f.isGraduated = true ∧ f.OnAmm

/-- A step that converts no feed a second time. -/
structure OrderlyStep (programId : Pubkey) (L : Ledger) (l : List Log) (L' : Ledger) : Prop where
  step : Step programId L l L'
  once : ∀ log ∈ l, ¬ Reconverts programId L log

theorem Log.Bootstraps.feed (h : log.Bootstraps k) : log.feed = k := by
  cases log with
  | initializeFeed feed mint kind price => exact h
  | update feed instant median slot => exact h.elim
  | graduate feed => exact h.elim
  | convertSource feed newKind fresh => exact h

/-- An instruction that converts nothing keeps the source of an initialized feed. -/
theorem FeedStep.source (h : FeedStep k f log f') (inited : f.isInitialized = true)
    (keeps : ∀ kind price, log ≠ .convertSource k kind price) :
    f'.source = f.source ∧ f'.sourceKind = f.sourceKind ∧ ¬ log.Bootstraps k := by
  cases h with
  | initialized slot mint source fresh =>
      rw [inited] at fresh
      cases fresh
  | updated => exact ⟨rfl, rfl, id⟩
  | graduated => exact ⟨rfl, rfl, id⟩
  | @converted slot source kind price => exact absurd rfl (keeps kind price)

/-- A conversion asks for the flag. -/
theorem FeedStep.converts {kind : U8} {price : U64} (h : FeedStep k f (.convertSource k kind price) f') :
    f.isInitialized = true ∧ f.isGraduated = true := by
  cases h with
  | converted _ _ inited after => exact ⟨inited, after⟩

/-- One orderly step leaves the source of a feed on an AMM as it is. -/
theorem OrderlyStep.source (h : OrderlyStep programId L l L') (live : L.feedAt programId k = some f)
    (amm : f.OnAmm) :
    ∃ f', L'.feedAt programId k = some f' ∧ f'.source = f.source ∧ f'.sourceKind = f.sourceKind ∧
      ∀ log ∈ l, ¬ log.Bootstraps k := by
  rcases h.step.feed k with ⟨quiet, same⟩ | ⟨f₁, f₂, log, rfl, step, live₂, live₁⟩
  · refine ⟨f, same.trans live, rfl, rfl, ?_⟩
    intro log hlog boots
    exact quiet log hlog boots.feed
  · rw [live] at live₁
    split_ifs at live₁ with inited
    obtain rfl := Option.some.inj live₁
    have keeps : ∀ kind price, log ≠ .convertSource k kind price := by
      rintro kind price rfl
      exact h.once _ List.mem_cons_self ⟨k, kind, price, f, rfl, live, step.converts.2, amm⟩
    obtain ⟨source, kind, quiet⟩ := step.source inited keeps
    refine ⟨f₂, live₂, source, kind, ?_⟩
    intro log' hlog
    rw [List.mem_singleton.mp hlog]
    exact quiet

end Percolator.Oracle
