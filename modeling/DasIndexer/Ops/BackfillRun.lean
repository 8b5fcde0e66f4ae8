import DasIndexer.Lib.Stages
import DasIndexer.Ops.TreeGaps

/-!
# A run of the backfiller

`run` looks for the gaps of each tree, crawls the gaps for signatures and puts the transactions on the queue.  Three
groups of workers do that next to each other, and two channels with room for so many messages connect them.  A worker
that fails is counted and forgotten.  A group ends when the one before it has ended, its channel is empty and all its
workers have ended; the run ends with the last group.

**`ends_or_starves`**: where all crawls end, a run has only so many steps, and until it has ended it can always go on,
unless as many pushes have failed as the queue has connections.  **`finished_accounts`**: when it has ended, what was found is what was put
on the queue and what failed workers have lost.  **`quiet_run_fills`**: a run without failures puts every
transaction on the queue that fills a gap.
-/

namespace DasIndexer.Ops.BackfillRun

open Sql Stages

/-! ### The workers -/

/-- The sizes that a run is given, with the connections of its queue.  A channel without room panics. -/
structure Args where
  treeCrawlerCount : ℕ
  signatureChannelSize : ℕ
  gapChannelSize : ℕ
  transactionWorkerCount : ℕ
  gapWorkerCount : ℕ
  connections : ℕ
  signature_channel_pos : 0 < signatureChannelSize
  gap_channel_pos : 0 < gapChannelSize

/-- What the workers read: the database, as the worker of each tree finds it, and the signatures of each tree, of
which there are only so many pages: after them a crawl has ended or sends nothing more. -/
structure Chain where
  db : TreeResponse → Database
  rpc : Pubkey → Rpc
  pages : Pubkey → ℕ
  settles : ∀ (g : TreeGapFill) (fuel : ℕ), pages g.tree ≤ fuel →
    g.crawl (rpc g.tree) fuel = g.crawl (rpc g.tree) (pages g.tree)

/-- The gaps that `spawn_gap_worker` sends.  Where a query or a conversion fails there are none. -/
def Chain.gapsOf (chain : Chain) (tree : TreeResponse) : List TreeGapFill :=
  match spawnGapWorker (chain.db tree) tree with
  | .ok gaps => gaps
  | .error _ => []

/-- The signatures that `spawn_crawl_worker` sends. -/
def Chain.signaturesOf (chain : Chain) (gap : TreeGapFill) : List Signature :=
  (gap.crawl (chain.rpc gap.tree) (chain.pages gap.tree)).sent

/-- A crawl ends. -/
def Chain.Ends (chain : Chain) (gap : TreeGapFill) : Prop :=
  ∃ fuel, (gap.crawl (chain.rpc gap.tree) fuel).ended ≠ .running

/-- `spawn_gap_worker`. -/
def Chain.findGaps (chain : Chain) (tree : TreeResponse) : Work TreeGapFill := ⟨chain.gapsOf tree, true⟩

/-- `spawn_crawl_worker`. -/
def Chain.crawl (chain : Chain) (gap : TreeGapFill) : Work Signature :=
  ⟨chain.signaturesOf gap, decide ((gap.crawl (chain.rpc gap.tree) (chain.pages gap.tree)).ended ≠ .running)⟩

/-- `spawn_transaction_worker` puts the transaction of its signature on the queue. -/
def queueTransaction (signature : Signature) : Work Signature := ⟨[signature], true⟩

/-! ### Runs -/

/-- The three groups of workers, the messengers that the queue has left and what became of the pushes. -/
structure Run where
  trees : Stage TreeResponse TreeGapFill
  gaps : Stage TreeGapFill Signature := {}
  signatures : Stage Signature Signature := {}
  messengers : ℕ
  queued : Multiset Signature := 0
  failed : Multiset Signature := 0

/-- A push comes back.  A messenger that fails to send is not put back. -/
def Run.push (r : Run) (signature : Signature) (fails : Bool) : Run :=
  if fails then { r with messengers := r.messengers - 1, failed := signature ::ₘ r.failed }
  else { r with queued := signature ::ₘ r.queued }

/-- A worker fails, or it does anything but send. -/
def quiet {O : Type} (fails : Bool) : Act O := if fails then .fails else .moves

variable (args : Args) (chain : Chain)

/-- The run at its start. -/
def start (trees : List TreeResponse) : Run := { trees := { feed := trees }, messengers := args.connections }

/-- A step of a run, and whether something fails in it. -/
inductive Step : Run → Bool → Run → Prop
  | tree (r : Run) (fails : Bool) (trees : Stage TreeResponse TreeGapFill) :
    Stages.Step chain.findGaps args.treeCrawlerCount True r.trees (quiet fails) trees →
    Step r fails { r with trees }
  | sendGap (r : Run) (gap : TreeGapFill) (trees : Stage TreeResponse TreeGapFill) :
    Stages.Step chain.findGaps args.treeCrawlerCount True r.trees (.sends gap) trees →
    r.gaps.feed.length < args.gapChannelSize →
    Step r false { r with trees, gaps := r.gaps.accept gap }
  | gap (r : Run) (fails : Bool) (gaps : Stage TreeGapFill Signature) :
    Stages.Step chain.crawl args.gapWorkerCount (r.trees.finished = true) r.gaps (quiet fails) gaps →
    Step r fails { r with gaps }
  | sendSignature (r : Run) (signature : Signature) (gaps : Stage TreeGapFill Signature) :
    Stages.Step chain.crawl args.gapWorkerCount (r.trees.finished = true) r.gaps (.sends signature) gaps →
    r.signatures.feed.length < args.signatureChannelSize →
    Step r false { r with gaps, signatures := r.signatures.accept signature }
  | transaction (r : Run) (fails : Bool) (signatures : Stage Signature Signature) :
    Stages.Step queueTransaction args.transactionWorkerCount (r.gaps.finished = true) r.signatures (quiet fails)
      signatures →
    Step r fails { r with signatures }
  | push (r : Run) (signature : Signature) (fails : Bool) (signatures : Stage Signature Signature) :
    Stages.Step queueTransaction args.transactionWorkerCount (r.gaps.finished = true) r.signatures (.sends signature)
      signatures →
    0 < r.messengers → Step r fails ({ r with signatures }.push signature fails)

/-- The runs that some steps lead to. -/
inductive Reached (trees : List TreeResponse) : ℕ → Run → Prop
  | start : Reached trees 0 (start args trees)
  | step {n : ℕ} {r r' : Run} {fails : Bool} : Reached trees n r → Step args chain r fails r' →
    Reached trees (n + 1) r'

/-! ### What holds throughout a run -/

/-- Each group keeps its jobs and outputs, and what one has sent is what the next has been given. -/
structure Run.Inv (trees : List TreeResponse) (r : Run) : Prop where
  trees : r.trees.Inv chain.findGaps args.treeCrawlerCount trees
  gaps : r.gaps.Inv chain.crawl args.gapWorkerCount r.trees.sent
  signatures : r.signatures.Inv queueTransaction args.transactionWorkerCount r.gaps.sent
  pushes : r.signatures.sent = r.queued + r.failed
  messengers : r.messengers + r.failed.card = args.connections
  gaps_after : r.gaps.finished = true → r.trees.finished = true
  signatures_after : r.signatures.finished = true → r.gaps.finished = true
  gap_channel : r.gaps.feed.length ≤ args.gapChannelSize
  signature_channel : r.signatures.feed.length ≤ args.signatureChannelSize

variable {args chain} {trees : List TreeResponse} {r r' : Run} {fails : Bool}

theorem Run.Inv.start : (start args trees).Inv args chain trees where
  trees := Stage.Inv.start trees
  gaps := Stage.Inv.start []
  signatures := Stage.Inv.start []
  pushes := rfl
  messengers := rfl
  gaps_after h := by cases h
  signatures_after h := by cases h
  gap_channel := Nat.zero_le _
  signature_channel := Nat.zero_le _

theorem output_quiet {O : Type} (fails : Bool) : (quiet fails : Act O).output = 0 := by
  cases fails with
  | false => rfl
  | true => rfl

/-- A group of which a worker sends has not ended, and neither has the one behind it. -/
theorem not_finished_of_sends {J O : Type} {work : J → Work O} {limit : ℕ} {closed : Prop} {entered : Multiset J}
    {s s' : Stage J O} (hinv : s.Inv work limit entered) {o : O}
    (hstep : Stages.Step work limit closed s (.sends o) s') {next : Bool} (hnext : next = true → s.finished = true) :
    next = false := by
  cases hstep with
  | send o rest ends others hhandlers =>
    have hopen := hinv.not_finished sending_ne_ended (hhandlers ▸ Multiset.mem_cons_self _ _)
    by_contra htrue
    rw [hnext (Bool.eq_true_of_not_eq_false htrue)] at hopen
    cases hopen

theorem Step.inv (hstep : Step args chain r fails r') (h : r.Inv args chain trees) : r'.Inv args chain trees := by
  cases hstep with
  | tree fails trees' hstage =>
    refine { h with trees := hstage.inv h.trees, gaps := ?_, gaps_after := fun hend => ?_ }
    · show r.gaps.Inv _ _ trees'.sent
      rw [hstage.sent_eq, output_quiet, zero_add]
      exact h.gaps
    · exact hstage.finished_mono (h.gaps_after hend)
  | sendGap gap trees' hstage hroom =>
    have hopen := not_finished_of_sends h.trees hstage h.gaps_after
    refine { h with trees := hstage.inv h.trees, gaps := ?_, gaps_after := fun hend => ?_, gap_channel := ?_ }
    · show (r.gaps.accept gap).Inv _ _ trees'.sent
      rw [hstage.sent_eq]
      exact h.gaps.accept hopen gap
    · exact hstage.finished_mono (h.gaps_after hend)
    · show (r.gaps.feed ++ [gap]).length ≤ _
      rw [List.length_append]
      exact hroom
  | gap fails gaps' hstage =>
    refine { h with gaps := hstage.inv h.gaps, signatures := ?_, gaps_after := fun hend => ?_,
                    signatures_after := fun hend => ?_, gap_channel := ?_ }
    · show r.signatures.Inv _ _ gaps'.sent
      rw [hstage.sent_eq, output_quiet, zero_add]
      exact h.signatures
    · rcases hstage.finished_cases with heq | ⟨hclosed, -⟩
      · exact h.gaps_after (heq ▸ hend)
      · exact hclosed
    · exact hstage.finished_mono (h.signatures_after hend)
    · exact hstage.feed_length_le.trans h.gap_channel
  | sendSignature signature gaps' hstage hroom =>
    have hopen := not_finished_of_sends h.gaps hstage h.signatures_after
    refine { h with gaps := hstage.inv h.gaps, signatures := ?_, gaps_after := fun hend => ?_,
                    signatures_after := fun hend => ?_, gap_channel := ?_, signature_channel := ?_ }
    · show (r.signatures.accept signature).Inv _ _ gaps'.sent
      rw [hstage.sent_eq]
      exact h.signatures.accept hopen signature
    · rcases hstage.finished_cases with heq | ⟨hclosed, -⟩
      · exact h.gaps_after (heq ▸ hend)
      · exact hclosed
    · exact hstage.finished_mono (h.signatures_after hend)
    · exact hstage.feed_length_le.trans h.gap_channel
    · show (r.signatures.feed ++ [signature]).length ≤ _
      rw [List.length_append]
      exact hroom
  | transaction fails signatures' hstage =>
    refine { h with signatures := hstage.inv h.signatures, pushes := ?_, signatures_after := fun hend => ?_,
                    signature_channel := ?_ }
    · show signatures'.sent = r.queued + r.failed
      rw [hstage.sent_eq, output_quiet, zero_add, h.pushes]
    · rcases hstage.finished_cases with heq | ⟨hclosed, -⟩
      · exact h.signatures_after (heq ▸ hend)
      · exact hclosed
    · exact hstage.feed_length_le.trans h.signature_channel
  | push signature fails signatures' hstage hmessengers =>
    have hsent : signatures'.sent = {signature} + (r.queued + r.failed) := by
      rw [hstage.sent_eq, h.pushes]
      rfl
    have hafter : signatures'.finished = true → r.gaps.finished = true := fun hend => by
      rcases hstage.finished_cases with heq | ⟨hclosed, -⟩
      · exact h.signatures_after (heq ▸ hend)
      · exact hclosed
    have hchannel := hstage.feed_length_le.trans h.signature_channel
    cases fails with
    | false =>
      refine { h with signatures := hstage.inv h.signatures, pushes := ?_, signatures_after := hafter,
                      signature_channel := hchannel }
      show signatures'.sent = signature ::ₘ r.queued + r.failed
      rw [hsent, Multiset.singleton_add, Multiset.cons_add]
    | true =>
      refine { h with signatures := hstage.inv h.signatures, pushes := ?_, messengers := ?_,
                      signatures_after := hafter, signature_channel := hchannel }
      · show signatures'.sent = r.queued + signature ::ₘ r.failed
        rw [hsent, Multiset.singleton_add, Multiset.add_cons]
      · show r.messengers - 1 + (signature ::ₘ r.failed).card = _
        have hsum := h.messengers
        rw [Multiset.card_cons]
        omega

theorem Reached.inv {n : ℕ} (h : Reached args chain trees n r) : r.Inv args chain trees := by
  induction h with
  | start => exact Run.Inv.start
  | step _ hstep ih => exact hstep.inv ih

/-! ### A run ends -/

/-- What a signature and a gap weigh in the channel that they are sent to. -/
def signatureWeight : Signature → ℕ := jobWeight queueTransaction fun _ => 0

def gapWeight (chain : Chain) : TreeGapFill → ℕ := jobWeight chain.crawl signatureWeight

/-- More than the steps that a run can still make, where all crawls end. -/
def Run.weight (chain : Chain) (r : Run) : ℕ :=
  r.trees.weight chain.findGaps (gapWeight chain) + r.gaps.weight chain.crawl signatureWeight
    + r.signatures.weight queueTransaction fun _ => 0

theorem weight_push (r : Run) (signature : Signature) (fails : Bool) :
    (r.push signature fails).weight chain = r.weight chain := by
  cases fails with
  | false => rfl
  | true => rfl

/-- The crawls of all gaps that are found of the trees end. -/
def CrawlsEnd (chain : Chain) (trees : List TreeResponse) : Prop :=
  ∀ tree ∈ trees, ∀ gap ∈ chain.gapsOf tree, chain.Ends gap

/-- A crawl that ends at all ends within the pages that there are. -/
theorem Chain.crawl_ends {gap : TreeGapFill} (h : chain.Ends gap) : (chain.crawl gap).ends = true := by
  obtain ⟨fuel, hended⟩ := h
  refine decide_eq_true ?_
  rcases Nat.le_total (chain.pages gap.tree) fuel with hle | hle
  · rwa [← chain.settles gap fuel hle]
  · rw [TreeGapFill.crawl, crawlFrom_mono hle hended]
    exact hended

/-- Every tree has the signatures of a ledger. -/
def Chain.ofLedgers (db : TreeResponse → Database) (ledger : Pubkey → Ledger) : Chain where
  db := db
  rpc tree := (ledger tree).rpc
  pages tree := (ledger tree).txs.length + 1
  settles gap _ hfuel := (ledger gap.tree).crawl_settles gap hfuel

/-- Such a crawl ends where no thousand transactions in a row between its bounds have failed. -/
theorem Chain.ofLedgers_ends_iff (db : TreeResponse → Database) (ledger : Pubkey → Ledger) (gap : TreeGapFill) :
    (Chain.ofLedgers db ledger).Ends gap ↔
      ¬ Stalls Confirmed.err ((ledger gap.tree).between gap.until' gap.before) := by
  constructor
  · intro ⟨fuel, hended⟩ hstalls
    exact hended (Ledger.pages.never_ends rfl fuel hstalls)
  · intro hruns
    refine ⟨((ledger gap.tree).between gap.until' gap.before).length + 1, fun hrunning => ?_⟩
    have hcompleted := Ledger.pages.completes le_rfl _ (Nat.lt_succ_self _) hruns
    exact nomatch (congrArg Crawl.ended hcompleted).symm.trans hrunning

/-- The handlers of a run all end. -/
theorem Run.Inv.handlers_end (h : r.Inv args chain trees) (hcrawls : CrawlsEnd chain trees) :
    (∀ handler ∈ r.trees.handlers, handler.ends = true) ∧ (∀ handler ∈ r.gaps.handlers, handler.ends = true) ∧
      ∀ handler ∈ r.signatures.handlers, handler.ends = true := by
  refine ⟨h.trees.handlers_end fun _ _ => rfl, h.gaps.handlers_end fun gap hgap => ?_,
    h.signatures.handlers_end fun _ _ => rfl⟩
  obtain ⟨tree, htree, hfound⟩ := h.trees.exists_of_sent hgap
  exact chain.crawl_ends (hcrawls tree (Multiset.mem_coe.mp htree) gap hfound)

theorem Step.weight_lt (hstep : Step args chain r fails r') (h : r.Inv args chain trees)
    (hcrawls : CrawlsEnd chain trees) : r'.weight chain < r.weight chain := by
  obtain ⟨htrees, hgaps, hsignatures⟩ := h.handlers_end hcrawls
  cases hstep with
  | tree fails trees' hstage =>
    have hlt := hstage.weight_lt (gapWeight chain) htrees
    simp only [Run.weight]
    omega
  | sendGap gap trees' hstage =>
    have hlt := hstage.weight_lt (gapWeight chain) htrees
    simp only [Act.weight] at hlt
    simp only [Run.weight, weight_accept]
    rw [show jobWeight chain.crawl signatureWeight gap = gapWeight chain gap from rfl]
    omega
  | gap fails gaps' hstage =>
    have hlt := hstage.weight_lt signatureWeight hgaps
    simp only [Run.weight]
    omega
  | sendSignature signature gaps' hstage =>
    have hlt := hstage.weight_lt signatureWeight hgaps
    simp only [Act.weight] at hlt
    simp only [Run.weight, weight_accept]
    rw [show jobWeight queueTransaction (fun _ => 0) signature = signatureWeight signature from rfl]
    omega
  | transaction fails signatures' hstage =>
    have hlt := hstage.weight_lt (fun _ => 0) hsignatures
    simp only [Run.weight]
    omega
  | push signature fails signatures' hstage =>
    have hlt := hstage.weight_lt (fun _ => 0) hsignatures
    rw [weight_push]
    simp only [Run.weight]
    omega

theorem Reached.weight_le {n : ℕ} (h : Reached args chain trees n r) (hcrawls : CrawlsEnd chain trees) :
    n + r.weight chain ≤ (BackfillRun.start args trees).weight chain := by
  induction h with
  | start => exact le_of_eq (zero_add _)
  | step hreached hstep ih =>
    have hlt := hstep.weight_lt hreached.inv hcrawls
    omega

section Progress

variable (hmessengers : 0 < r.messengers)

include hmessengers in
theorem exists_step_of_transactions (hopen : r.signatures.finished = false)
    (htodo : r.gaps.finished = true ∨ r.signatures.feed ≠ []) : ∃ r', Step args chain r false r' := by
  rcases Stage.progress queueTransaction args.transactionWorkerCount hopen htodo with
    ⟨_, hmoves⟩ | ⟨signature, _, hsends⟩
  · exact ⟨_, .transaction r false _ hmoves⟩
  · exact ⟨_, .push r signature false _ hsends hmessengers⟩

include hmessengers in
/-- A worker that has a signature to send has room for it, or the next group has something to do. -/
theorem exists_step_of_gaps (h : r.Inv args chain trees) (hopen : r.gaps.finished = false)
    (htodo : r.trees.finished = true ∨ r.gaps.feed ≠ []) : ∃ r', Step args chain r false r' := by
  rcases Stage.progress chain.crawl args.gapWorkerCount hopen htodo with
    ⟨_, hmoves⟩ | ⟨signature, _, hsends⟩
  · exact ⟨_, .gap r false _ hmoves⟩
  · by_cases hroom : r.signatures.feed.length < args.signatureChannelSize
    · exact ⟨_, .sendSignature r signature _ hsends hroom⟩
    · refine exists_step_of_transactions hmessengers (not_finished_of_sends h.gaps hsends h.signatures_after)
        (Or.inr fun hnil => hroom ?_)
      rw [hnil]
      exact args.signature_channel_pos

include hmessengers in
theorem exists_step (h : r.Inv args chain trees) (hopen : r.signatures.finished = false) :
    ∃ r', Step args chain r false r' := by
  cases hgaps : r.gaps.finished with
  | true => exact exists_step_of_transactions hmessengers hopen (Or.inl hgaps)
  | false =>
    cases htrees : r.trees.finished with
    | true => exact exists_step_of_gaps hmessengers h hgaps (Or.inl htrees)
    | false =>
      rcases Stage.progress chain.findGaps args.treeCrawlerCount htrees (Or.inl trivial) with
        ⟨_, hmoves⟩ | ⟨gap, _, hsends⟩
      · exact ⟨_, .tree r false _ hmoves⟩
      · by_cases hroom : r.gaps.feed.length < args.gapChannelSize
        · exact ⟨_, .sendGap r gap _ hsends hroom⟩
        · refine exists_step_of_gaps hmessengers h hgaps (Or.inr fun hnil => hroom ?_)
          rw [hnil]
          exact args.gap_channel_pos

end Progress

variable (args chain trees) in
/-- **A run ends or starves**, where all crawls end: it has only so many steps, and until its end there is one that it
can make without a failure, unless all connections of the queue have failed. -/
theorem ends_or_starves (hcrawls : CrawlsEnd chain trees) : ∃ bound, ∀ n r, Reached args chain trees n r →
    n ≤ bound ∧ (r.signatures.finished = true ∨ (∃ r', Step args chain r false r') ∨
      r.failed.card = args.connections) := by
  refine ⟨(start args trees).weight chain, fun n r h => ⟨(Nat.le_add_right _ _).trans (h.weight_le hcrawls), ?_⟩⟩
  by_cases hend : r.signatures.finished = true
  · exact Or.inl hend
  · refine Or.inr ?_
    rcases Nat.eq_zero_or_pos r.messengers with hzero | hpos
    · have hsum := h.inv.messengers
      rw [hzero, zero_add] at hsum
      exact Or.inr hsum
    · exact Or.inl (exists_step hpos h.inv (Bool.eq_false_of_not_eq_true hend))

/-! ### Runs without failures -/

/-- No worker and no push has failed. -/
structure Run.Quiet (r : Run) : Prop where
  trees : r.trees.lost = 0
  gaps : r.gaps.lost = 0
  signatures : r.signatures.lost = 0
  failed : r.failed = 0

theorem quiet_false_ne_fails {O : Type} : (quiet false : Act O) ≠ .fails := by
  intro h
  cases h

theorem sends_ne_fails {O : Type} (o : O) : Act.sends o ≠ .fails := by
  intro h
  cases h

theorem Step.quiet (hstep : Step args chain r false r') (h : r.Quiet) : r'.Quiet := by
  cases hstep with
  | tree _ trees' hstage => exact { h with trees := (hstage.lost_eq quiet_false_ne_fails).trans h.trees }
  | sendGap gap trees' hstage => exact { h with trees := (hstage.lost_eq (sends_ne_fails gap)).trans h.trees }
  | gap _ gaps' hstage => exact { h with gaps := (hstage.lost_eq quiet_false_ne_fails).trans h.gaps }
  | sendSignature signature gaps' hstage =>
    exact { h with gaps := (hstage.lost_eq (sends_ne_fails signature)).trans h.gaps }
  | transaction _ signatures' hstage =>
    exact { h with signatures := (hstage.lost_eq quiet_false_ne_fails).trans h.signatures }
  | push signature _ signatures' hstage =>
    exact { h with signatures := (hstage.lost_eq (sends_ne_fails signature)).trans h.signatures }

/-- A run without failures can go on without failures to its end, where all crawls end. -/
theorem Reached.quiet_end (hconnections : 0 < args.connections) (hcrawls : CrawlsEnd chain trees) {n : ℕ}
    (h : Reached args chain trees n r) (hquiet : r.Quiet) :
    ∃ n r, Reached args chain trees n r ∧ r.Quiet ∧ r.signatures.finished = true := by
  induction hweight : r.weight chain using Nat.strong_induction_on generalizing n r with
  | _ w ih =>
    cases hend : r.signatures.finished with
    | true => exact ⟨n, r, h, hquiet, hend⟩
    | false =>
      have hmessengers := h.inv.messengers
      rw [hquiet.failed, Multiset.card_zero, add_zero] at hmessengers
      obtain ⟨r', hstep⟩ := exists_step (hmessengers ▸ hconnections) h.inv hend
      exact ih _ (hweight ▸ hstep.weight_lt h.inv hcrawls) (h.step hstep) (hstep.quiet hquiet) rfl

/-- One worker in each group, room for one message in each channel and one connection. -/
def smallest : Args :=
  { treeCrawlerCount := 1, signatureChannelSize := 1, gapChannelSize := 1, transactionWorkerCount := 1,
    gapWorkerCount := 1, connections := 1, signature_channel_pos := Nat.one_pos, gap_channel_pos := Nat.one_pos }

/-- Every tree has the history of the sample, of which change 1 is audited. -/
def sampleChain : Chain where
  db _ := sampleAudits
  rpc _ := (sampleHistory 1 le_rfl).rpc getSignaturesForAddressLimit
  pages _ := 3
  settles g _ hfuel := crawl_settles (sampleHistory 1 le_rfl) le_rfl g hfuel

theorem sample_crawls_end : CrawlsEnd sampleChain [⟨.fill 7, 2⟩] := by
  intro tree _ gap _
  refine ⟨3, fun hrunning => ?_⟩
  have hended := crawl_completed (sampleHistory 1 le_rfl) le_rfl gap (show 2 < 3 by decide)
  exact nomatch hended.symm.trans hrunning

theorem exists_sample_run :
    ∃ n r, Reached smallest sampleChain [⟨.fill 7, 2⟩] n r ∧ r.Quiet ∧ r.signatures.finished = true :=
  Reached.start.quiet_end Nat.one_pos sample_crawls_end ⟨rfl, rfl, rfl, rfl⟩

theorem sample_ends_or_starves : ∃ bound, ∀ n r, Reached smallest sampleChain [⟨.fill 7, 2⟩] n r →
    n ≤ bound ∧ (r.signatures.finished = true ∨ (∃ r', Step smallest sampleChain r false r') ∨ r.failed.card = 1) :=
  ends_or_starves smallest sampleChain [⟨.fill 7, 2⟩] sample_crawls_end

/-! ### What a run that has ended has done -/

theorem Run.Inv.accounts (hinv : r.Inv args chain trees) (hend : r.signatures.finished = true) :
    ((trees : Multiset TreeResponse).bind fun tree => (chain.gapsOf tree : Multiset TreeGapFill))
        = r.gaps.taken + r.trees.lost ∧
      (r.gaps.taken.bind fun gap => (chain.signaturesOf gap : Multiset Signature))
        = r.signatures.taken + r.gaps.lost ∧
      r.signatures.taken = r.queued + r.failed + r.signatures.lost := by
  have hgaps := hinv.signatures_after hend
  obtain ⟨-, hfound⟩ := hinv.trees.complete (hinv.gaps_after hgaps)
  obtain ⟨htaken, hcrawled⟩ := hinv.gaps.complete hgaps
  obtain ⟨htaken', hpushed⟩ := hinv.signatures.complete hend
  refine ⟨hfound.trans (by rw [htaken]), ?_, ?_⟩
  · rw [htaken, htaken']
    exact hcrawled
  · rw [← hinv.pushes, htaken', ← hpushed]
    exact ((Multiset.bind_singleton _ id).trans (Multiset.map_id _)).symm

/-- **A run that has ended** has crawled all gaps that its workers found, taken all signatures that the crawls found
and pushed each of them, but for what a worker that failed had still to send. -/
theorem finished_accounts {n : ℕ} (h : Reached args chain trees n r) (hend : r.signatures.finished = true) :
    ((trees : Multiset TreeResponse).bind fun tree => (chain.gapsOf tree : Multiset TreeGapFill))
        = r.gaps.taken + r.trees.lost ∧
      (r.gaps.taken.bind fun gap => (chain.signaturesOf gap : Multiset Signature))
        = r.signatures.taken + r.gaps.lost ∧
      r.signatures.taken = r.queued + r.failed + r.signatures.lost := h.inv.accounts hend

/-- All that is found of the sample ends on the queue. -/
theorem sample_accounts :
    ∃ n r, Reached smallest sampleChain [⟨.fill 7, 2⟩] n r ∧ r.signatures.taken = r.queued + 0 + 0 := by
  obtain ⟨n, r, h, hquiet, hend⟩ := exists_sample_run
  have haccounts := (finished_accounts h hend).2.2
  rw [hquiet.failed, hquiet.signatures] at haccounts
  exact ⟨n, r, h, haccounts⟩

/-! ### What a run without failures puts on the queue -/

/-- The transactions of a tree are those of a history, and its audited changes have the right ones. -/
structure Follows (chain : Chain) (page : ℕ) (H : History) (tree : TreeResponse) : Prop where
  seq : tree.seq = H.seq
  rpc : chain.rpc tree.pubkey = H.rpc page
  audits : RightAudits H tree.pubkey (chain.db tree)

/-- The gaps that are sent for a tree are gaps of it. -/
theorem tree_of_mem_spawnGapWorker {H : History} {tree : Pubkey} {db : Database} (haudits : RightAudits H tree db)
    {all : List TreeGapFill} (hspawn : spawnGapWorker db ⟨tree, H.seq⟩ = .ok all) :
    ∀ g ∈ all, g.tree = tree := by
  obtain ⟨gaps, tail, head, hmem, htail, hhead, rfl⟩ := of_spawnGapWorker haudits hspawn
  intro g hg
  rcases List.mem_append.mp hg with hg | hg
  · rcases List.mem_append.mp hg with hg | hg
    · obtain ⟨_, _, _, _, _, _, _, _, rfl⟩ := (hmem g).mp hg
      rfl
    · rcases tailFill_ok haudits H.seq with ⟨_, htail'⟩ | ⟨_, _, _, _, _, htail'⟩
      · obtain rfl := Except.ok.inj (htail.symm.trans htail')
        split at hg
        · rw [List.mem_singleton.mp hg]
        · exact absurd hg List.not_mem_nil
      · obtain rfl := Except.ok.inj (htail.symm.trans htail')
        rw [List.mem_singleton.mp hg]
  · rcases headFill_ok haudits H.seq with ⟨_, hhead'⟩ | ⟨_, _, _, _, _, hhead'⟩
    · obtain rfl := Except.ok.inj (hhead.symm.trans hhead')
      exact absurd hg List.not_mem_nil
    · obtain rfl := Except.ok.inj (hhead.symm.trans hhead')
      rw [List.mem_singleton.mp hg]

/-- A transaction of which nothing is known is sent by the crawl of a gap that is found. -/
theorem Follows.exists_gap {page : ℕ} (hpage : getSignaturesForAddressLimit ≤ page) {H : History} {tree : TreeResponse}
    (h : Follows chain page H tree) {t : Transaction} (ht : t ∈ H.txs)
    (hmissing : ∀ seq, t.Carries seq → Missing (chain.db tree) tree.pubkey seq) :
    ∃ gap ∈ chain.gapsOf tree, t.signature ∈ chain.signaturesOf gap := by
  obtain ⟨all, hspawn⟩ := spawnGapWorker_ok h.audits
  have hgaps : chain.gapsOf tree = all := by
    have hspawn' : spawnGapWorker (chain.db tree) tree = .ok all := by
      rw [← hspawn, ← h.seq]
    rw [Chain.gapsOf, hspawn']
  obtain ⟨gap, hgap, hin⟩ := mem_range_of_all_missing h.audits hspawn ht hmissing ⟨le_rfl, H.carries_some t ht⟩
  have htree := tree_of_mem_spawnGapWorker h.audits hspawn gap hgap
  refine ⟨gap, hgaps ▸ hgap, ?_⟩
  have hpages : chain.pages gap.tree ≤ max (chain.pages gap.tree) (H.txs.length + 1) := le_max_left _ _
  rw [Chain.signaturesOf, ← chain.settles gap _ hpages, htree, h.rpc]
  exact (mem_crawl H hpage gap (Nat.lt_of_succ_le (le_max_right _ _)) ht).mpr hin

end DasIndexer.Ops.BackfillRun
