import Percolator.Base.Run
import Percolator.Oracle.Processor

/-!
Runs of the oracle program over a ledger of accounts, and what one instruction
does to a feed.

Anyone may send any instruction with any accounts, and other programs do as they
like with accounts that are not the oracle's. An account comes to the oracle
with its data zeroed, as the runtime has it.
-/

namespace Percolator.Oracle

structure Holding where
  owner : Pubkey
  data : List Byte
deriving DecidableEq, Repr

abbrev Ledger : Type := Pubkey → Holding

/-- An account as a transaction names it. -/
structure AccountMeta where
  key : Pubkey
  isWritable : Bool
deriving DecidableEq, Repr

/-- An instruction as it is sent. -/
structure Call where
  slot : U64
  feed : AccountMeta
  others : List AccountMeta
  input : List Byte
deriving DecidableEq, Repr

variable {programId k : Pubkey} {L L' : Ledger} {l l' : List Log} {f f' : Feed}

def Ledger.info (L : Ledger) (m : AccountMeta) : AccountInfo :=
  { key := m.key, owner := (L m.key).owner, isWritable := m.isWritable, data := (L m.key).data }

def Ledger.write (L : Ledger) (k : Pubkey) (data : List Byte) : Ledger :=
  Function.update L k { L k with data }

def Call.run (programId : Pubkey) (c : Call) (L : Ledger) : Handler (List Byte × Log) :=
  process programId c.slot ((c.feed :: c.others).map L.info) c.input

/-- One successful instruction, or whatever else happens between two of them. -/
inductive Step (programId : Pubkey) : Ledger → List Log → Ledger → Prop
  | invoke {L : Ledger} {data : List Byte} {log : Log} (c : Call)
      (ok : c.run programId L = .ok (data, log)) : Step programId L [log] (L.write c.feed.key data)
  | other {L L' : Ledger} (kept : ∀ k, (L k).owner = programId → L' k = L k)
      (blank : ∀ k, (L' k).owner = programId → (L k).owner ≠ programId → ∀ b ∈ (L' k).data, b = 0) :
      Step programId L [] L'

/-- No account of the program has been written yet. -/
def Blank (programId : Pubkey) (L : Ledger) : Prop :=
  ∀ k, (L k).owner = programId → ∀ b ∈ (L k).data, b = 0

/-- `L` is reached with the logs `l`. -/
def Reached (programId : Pubkey) (l : List Log) (L : Ledger) : Prop :=
  ∃ L₀, Blank programId L₀ ∧ Run (Step programId) L₀ l L

/-- The initialized feed in an account of the program. -/
def Ledger.feedAt (programId : Pubkey) (L : Ledger) (k : Pubkey) : Option Feed :=
  match Feed.layout.read (L k).data with
  | some (f, _) => if (L k).owner = programId ∧ f.isInitialized = true then some f else none
  | none => none

/-- Perform calls one after another, where a failed one changes nothing. -/
def performAll (programId : Pubkey) (L : Ledger) : List Call → Ledger
  | [] => L
  | c :: rest =>
      match c.run programId L with
      | .ok (data, _) => performAll programId (L.write c.feed.key data) rest
      | .error _ => performAll programId L rest

/-! ### What the parts of a handler do -/

section Handlers

variable {α β : Type} {e : OracleError} {r : β} {ai : AccountInfo}

theorem bind_ok {x : Handler α} {g : α → Handler β} :
    (x >>= g) = .ok r ↔ ∃ a, x = .ok a ∧ g a = .ok r := by
  cases x with
  | ok a =>
      constructor
      · intro h
        exact ⟨a, rfl, h⟩
      · rintro ⟨_, ⟨⟩, h⟩
        exact h
  | error e =>
      constructor
      · intro h
        cases h
      · rintro ⟨_, ⟨⟩, -⟩

theorem ensure_ok {c : Prop} [Decidable c] {u : Unit} : ensure c e = .ok u ↔ c := by
  unfold ensure
  split_ifs with h
  · exact iff_of_true rfl h
  · exact iff_of_false (by rintro ⟨⟩) h

theorem orFail_ok {x : Except OracleError β} : orFail x = .ok r ↔ x = .ok r := by
  cases x with
  | ok a =>
      rw [Except.ok.injEq]
      exact ⟨Except.ok.inj, congrArg _⟩
  | error e => exact iff_of_false (by rintro ⟨⟩) (by rintro ⟨⟩)

theorem okOr_ok {x : Option β} : okOr e x = .ok r ↔ x = some r := by
  cases x with
  | some a =>
      rw [Option.some.injEq]
      exact ⟨Except.ok.inj, congrArg _⟩
  | none => exact iff_of_false (by rintro ⟨⟩) (by rintro ⟨⟩)

theorem pure_ok {a : β} : (pure a : Handler β) = .ok r ↔ a = r :=
  ⟨Except.ok.inj, congrArg Except.ok⟩

theorem nextAccounts_ok {accounts : List AccountInfo} {p : AccountInfo × AccountInfo} :
    nextAccounts accounts = .ok p ↔ ∃ rest, accounts = p.1 :: p.2 :: rest := by
  unfold nextAccounts
  split
  · rename_i feedAi sourceAi rest
    constructor
    · intro h
      cases h
      exact ⟨rest, rfl⟩
    · rintro ⟨rest', h⟩
      obtain ⟨rfl, rfl, -⟩ : feedAi = p.1 ∧ sourceAi = p.2 ∧ rest = rest' := by simpa using h
      rfl
  · rename_i hshort
    constructor
    · intro h
      cases h
    · rintro ⟨rest, h⟩
      exact absurd h (hshort _ _ _)

theorem readFeed_ok : readFeed ai = .ok f ↔
    Feed.layout.read ai.data = some (f, ai.data.drop Feed.LEN) := by
  unfold readFeed
  split_ifs with hshort
  · constructor
    · intro h
      cases h
    · intro h
      rw [← Feed.width_layout, ← Codec.read_eq_none, h] at hshort
      cases hshort
  · rw [orFail_ok, Feed.readFrom]
    constructor
    · intro h
      split at h
      · rename_i f' rest hread
        cases h
        have htake := Feed.layout.of_read hread
        have hrest : rest = [] := by
          have hlen := congrArg List.length htake
          rw [List.length_append, Feed.layout.length_write, List.length_take, Feed.width_layout] at hlen
          apply List.length_eq_zero_iff.mp
          omega
        rw [hrest, List.append_nil] at htake
        conv_lhs => rw [← List.take_append_drop Feed.LEN ai.data, htake]
        exact Feed.layout.read_write f _
      · cases h
    · intro h
      have hdata := Feed.layout.of_read h
      have htake : ai.data.take Feed.LEN = Feed.layout.write f ++ [] := by
        rw [hdata, List.append_nil]
        exact List.take_left' (Feed.layout.length_write f)
      rw [htake, Feed.layout.read_write]

theorem writeFeed_ok {data : List Byte} (h : writeFeed ai f = .ok data) :
    data = Feed.layout.write f ++ ai.data.drop Feed.LEN := by
  unfold writeFeed at h
  split_ifs at h with hshort
  simp only [bind_ok, orFail_ok, pure_ok, Feed.writeInto] at h
  obtain ⟨head, hhead, rfl⟩ := h
  split_ifs at hhead
  cases hhead
  rw [List.drop_take, Nat.sub_self, List.take_zero, List.append_nil]

end Handlers

/-! ### What an instruction does -/

/-- What a successful instruction does to the feed in account `k`. -/
inductive FeedStep (k : Pubkey) (f : Feed) : Log → Feed → Prop
  | initialized (slot : U64) (mint source : Pubkey) {kind : U8} {price : U64}
      (fresh : f.isInitialized = false) (price_ne : price ≠ 0) :
      FeedStep k f (.initializeFeed k mint kind price)
        { priceLamportsPerToken := price
          lastUpdateSlot := slot
          mint := mint
          source := source
          sourceKind := kind
          graduated := 0
          initialized := 1
          ringIdx := 1
          pad := 0
          ringBuffer := bootstrapRing price }
  | updated {slot price median : U64} (inited : f.isInitialized = true) (price_ne : price ≠ 0)
      (inRing : f.ringIdx.toNat < RING_LEN)
      (median_eq : ringMedian
        (Function.update f.ringBuffer ⟨f.ringIdx.toNat, inRing⟩ price) = some median) :
      FeedStep k f (.update k price median slot)
        { f with
          ringBuffer := Function.update f.ringBuffer ⟨f.ringIdx.toNat, inRing⟩ price
          ringIdx := BitVec.ofNat 8 ((f.ringIdx.toNat + 1) % RING_LEN)
          priceLamportsPerToken := median
          lastUpdateSlot := slot }
  | graduated (inited : f.isInitialized = true) (curve : f.sourceKindEnum = some .pumpBonding)
      (before : f.isGraduated = false) :
      FeedStep k f (.graduate k) { f with graduated := 1 }
  | converted (slot : U64) (source : Pubkey) {kind : U8} {price : U64}
      (inited : f.isInitialized = true) (after : f.isGraduated = true) (price_ne : price ≠ 0) :
      FeedStep k f (.convertSource k kind price)
        { f with
          source := source
          sourceKind := kind
          ringBuffer := bootstrapRing price
          ringIdx := 1
          priceLamportsPerToken := price
          lastUpdateSlot := slot }

/-- A successful instruction rewrites the feed in the program's account it was
given first, by one step. -/
structure Rewritten (programId : Pubkey) (ai : AccountInfo) (data : List Byte) (log : Log) :
    Prop where
  owner : ai.owner = programId
  step : ∃ f f', Feed.layout.read ai.data = some (f, ai.data.drop Feed.LEN) ∧
    data = Feed.layout.write f' ++ ai.data.drop Feed.LEN ∧ FeedStep ai.key f log f'

section Specs

variable {slot : U64} {feedAi : AccountInfo} {rest : List AccountInfo} {data : List Byte} {log : Log}

theorem processInitializeFeed_spec {args : InitializeFeedArgs}
    (h : processInitializeFeed programId slot (feedAi :: rest) args = .ok (data, log)) :
    Rewritten programId feedAi data log := by
  simp only [processInitializeFeed, bind_ok, nextAccounts_ok, ensure_ok, okOr_ok, orFail_ok, readFeed_ok,
    pure_ok] at h
  obtain ⟨⟨ai, src⟩, ⟨_, hacc⟩, _, -, _, owner, _, -, kind, -, _, -, f, hread, _, fresh, price, -, _, hne,
    data', hwrite, heq⟩ := h
  obtain rfl : feedAi = ai := (List.cons.inj hacc).1
  obtain ⟨rfl, rfl⟩ := Prod.mk.inj heq
  exact ⟨owner, f, _, hread, writeFeed_ok hwrite, .initialized slot args.mint args.source fresh hne⟩

theorem processUpdate_spec (h : processUpdate programId slot (feedAi :: rest) = .ok (data, log)) :
    Rewritten programId feedAi data log := by
  simp only [processUpdate, bind_ok, nextAccounts_ok, ensure_ok, okOr_ok, orFail_ok, readFeed_ok] at h
  obtain ⟨⟨ai, src⟩, ⟨_, hacc⟩, _, -, _, owner, _, -, f, hread, _, inited, _, -, kind, -, _, -, price, -, _,
    hne, h⟩ := h
  obtain rfl : feedAi = ai := (List.cons.inj hacc).1
  split_ifs at h with inRing
  simp only [bind_ok, okOr_ok, pure_ok] at h
  obtain ⟨median, hmedian, data', hwrite, heq⟩ := h
  obtain ⟨rfl, rfl⟩ := Prod.mk.inj heq
  exact ⟨owner, f, _, hread, writeFeed_ok hwrite, .updated inited hne inRing hmedian⟩

theorem processGraduate_spec (h : processGraduate programId (feedAi :: rest) = .ok (data, log)) :
    Rewritten programId feedAi data log := by
  simp only [processGraduate, bind_ok, nextAccounts_ok, ensure_ok, okOr_ok, readFeed_ok, pure_ok] at h
  obtain ⟨⟨ai, src⟩, ⟨_, hacc⟩, _, -, _, owner, f, hread, _, inited, _, -, _, before, kind, hkind, _, curve, _,
    -, _, -, data', hwrite, heq⟩ := h
  obtain rfl : feedAi = ai := (List.cons.inj hacc).1
  obtain ⟨rfl, rfl⟩ := Prod.mk.inj heq
  exact ⟨owner, f, _, hread, writeFeed_ok hwrite, .graduated inited (curve ▸ hkind) before⟩

theorem processConvertSource_spec {args : ConvertSourceArgs}
    (h : processConvertSource programId slot (feedAi :: rest) args = .ok (data, log)) :
    Rewritten programId feedAi data log := by
  simp only [processConvertSource, bind_ok, nextAccounts_ok, ensure_ok, okOr_ok, orFail_ok, readFeed_ok,
    pure_ok] at h
  obtain ⟨⟨ai, src⟩, ⟨_, hacc⟩, _, -, _, owner, kind, -, _, -, f, hread, _, inited, _, after, price, -, _, hne,
    data', hwrite, heq⟩ := h
  obtain rfl : feedAi = ai := (List.cons.inj hacc).1
  obtain ⟨rfl, rfl⟩ := Prod.mk.inj heq
  exact ⟨owner, f, _, hread, writeFeed_ok hwrite, .converted slot args.newSource inited after hne⟩

theorem process_spec {input : List Byte}
    (h : process programId slot (feedAi :: rest) input = .ok (data, log)) :
    Rewritten programId feedAi data log := by
  simp only [process, bind_ok, orFail_ok] at h
  obtain ⟨ix, -, h⟩ := h
  cases ix with
  | initializeFeed a => exact processInitializeFeed_spec h
  | update => exact processUpdate_spec h
  | graduate => exact processGraduate_spec h
  | convertSource a => exact processConvertSource_spec h

end Specs

/-! ### What a step does to one feed -/

/-- The feed account of the instruction that logged the line. -/
def Log.feed : Log → Pubkey
  | .initializeFeed feed _ _ _ => feed
  | .update feed _ _ _ => feed
  | .graduate feed => feed
  | .convertSource feed _ _ => feed

theorem FeedStep.feed {log : Log} (h : FeedStep k f log f') : log.feed = k := by
  cases h <;> rfl

theorem FeedStep.inited {log : Log} (h : FeedStep k f log f') : f'.isInitialized = true := by
  cases h with
  | initialized => rfl
  | updated inited => exact inited
  | graduated inited => exact inited
  | converted _ _ inited => exact inited

theorem Feed.initialized_mem (f : Feed) : f.initialized ∈ Feed.layout.write f := by
  simp [Feed.layout, Codec.as, Codec.pair, Codec.int, leBytes]

theorem Ledger.feedAt_of_read {rest : List Byte} (read : Feed.layout.read (L k).data = some (f, rest))
    (own : (L k).owner = programId) :
    L.feedAt programId k = if f.isInitialized = true then some f else none := by
  simp only [feedAt, read, own, true_and]

/-- Blank data hold no feed. -/
theorem Ledger.feedAt_blank (blank : ∀ b ∈ (L k).data, b = 0) : L.feedAt programId k = none := by
  unfold feedAt
  split
  · rename_i f rest hread
    have hzero : f.initialized = 0 := by
      apply blank
      rw [Feed.layout.of_read hread]
      exact List.mem_append_left _ f.initialized_mem
    rw [if_neg]
    rintro ⟨-, h⟩
    rw [Feed.isInitialized, hzero] at h
    cases h
  · rfl

theorem Ledger.feedAt_foreign (h : (L k).owner ≠ programId) : L.feedAt programId k = none := by
  unfold feedAt
  split
  · exact if_neg fun hc => h hc.1
  · rfl

/-- A step leaves the feed of an account alone, or is a successful instruction on it. -/
theorem Step.feed (h : Step programId L l L') (k : Pubkey) :
    ((∀ log ∈ l, log.feed ≠ k) ∧ L'.feedAt programId k = L.feedAt programId k) ∨
      ∃ f f' log, l = [log] ∧ FeedStep k f log f' ∧ L'.feedAt programId k = some f' ∧
        L.feedAt programId k = if f.isInitialized = true then some f else none := by
  cases h with
  | @invoke data log c ok =>
      obtain ⟨owner, f, f', hread, hdata, hstep⟩ := process_spec ok
      by_cases same : c.feed.key = k
      · subst same
        right
        refine ⟨f, f', log, rfl, hstep, ?_, Ledger.feedAt_of_read hread owner⟩
        have hread' : Feed.layout.read (L.write c.feed.key data c.feed.key).data =
            some (f', (L.info c.feed).data.drop Feed.LEN) := by
          rw [Ledger.write, Function.update_self, hdata]
          exact Feed.layout.read_write f' _
        have owner' : (L.write c.feed.key data c.feed.key).owner = programId := by
          rw [Ledger.write, Function.update_self]
          exact owner
        rw [Ledger.feedAt_of_read hread' owner', if_pos hstep.inited]
      · left
        constructor
        · intro log' hlog
          rw [List.mem_singleton.mp hlog, hstep.feed]
          exact same
        · unfold Ledger.feedAt
          rw [Ledger.write, Function.update_of_ne (Ne.symm same)]
  | other kept blank =>
      left
      refine ⟨List.forall_mem_nil _, ?_⟩
      by_cases own : (L k).owner = programId
      · unfold Ledger.feedAt
        rw [kept k own]
      · rw [Ledger.feedAt_foreign own]
        by_cases own' : (L' k).owner = programId
        · exact Ledger.feedAt_blank (blank k own' own)
        · exact Ledger.feedAt_foreign own'

/-! ### Concrete runs -/

theorem Reached.step (h : Reached programId l L) {l₁ : List Log} (h₁ : Step programId L l₁ L') :
    Reached programId (l ++ l₁) L' := by
  obtain ⟨L₀, blank, run⟩ := h
  exact ⟨L₀, blank, run.tail h₁⟩

/-- The logs of the calls that succeed. -/
def logsAll (programId : Pubkey) (L : Ledger) : List Call → List Log
  | [] => []
  | c :: rest =>
      match c.run programId L with
      | .ok (data, log) => log :: logsAll programId (L.write c.feed.key data) rest
      | .error _ => logsAll programId L rest

theorem run_performAll (calls : List Call) :
    Run (Step programId) L (logsAll programId L calls) (performAll programId L calls) := by
  induction calls generalizing L with
  | nil => exact .refl L
  | cons c rest ih =>
      unfold logsAll performAll
      split
      · rename_i data log ok
        exact (Run.single (.invoke c ok)).trans ih
      · exact ih

end Percolator.Oracle
