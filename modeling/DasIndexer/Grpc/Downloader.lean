import DasIndexer.Grpc.Connections
import DasIndexer.Accounts.MplCore
import DasIndexer.Accounts.TokenMetadata
import DasIndexer.Bubblegum.Plan
import Mathlib.Data.Finset.Basic

/-!
# The metadata downloader

Writers of `asset_data` mark a row as owed, and ask for a download; workers take the jobs from a queue,
fetch, store what they got, and put a job that may still work aside for later.  `pending` holds the assets
for which there is a job, so that nobody asks twice.

`Step` has one constructor for each point at which these interleave: the id is inserted before the job is
sent, a job is taken before its URI is looked at, an `UPDATE` may run although its answer is lost, and a job
is done before its id is removed.

**`pending_exact`** is the bookkeeping: whatever the interleaving, the pending ids are the ids of the live
jobs, and each has exactly one.
-/

namespace DasIndexer.Grpc.Metadata

open Sql Accounts

/-! ### The writers of `asset_data` -/

/-- The upserts of `asset_data`, one for each of the writers. -/
inductive DataWrite where
  | bubblegum (id : Bytes) (mutability : ChainMutability) (chainData : ChainDataV1) (uri : MetadataUrl)
      (slot : ℤ) (rawName rawSymbol : Bytes) (seq : ℤ)
  | tokenMetadata (m : TokenMetadata.Metadata) (slot : ℕ)
  | core (id : Pubkey) (a : MplCore.IndexableAsset) (slot : ℕ)
  | tokenExtensions (m : ShadowMetadata) (key : Bytes) (slot : ℕ)

namespace DataWrite

def id : DataWrite → Bytes
  | .bubblegum id .. => id
  | .tokenMetadata m _ => m.mint.bytes
  | .core id _ _ => id.bytes
  | .tokenExtensions _ key _ => key

/-- The proposed row; a URI that is too long loses the spaces past the bound. -/
def row : DataWrite → AssetDataRow
  | .bubblegum _ mutability chainData uri slot rawName rawSymbol seq =>
    Bubblegum.dataRow mutability chainData uri slot rawName rawSymbol seq
  | .tokenMetadata m slot => TokenMetadata.dataRow m slot
  | .core _ a slot => MplCore.dataRow a a.storedUrl slot
  | .tokenExtensions m _ slot => m.dataRow m.storedUrl slot

def upsert (w : DataWrite) : Upsert AssetDataRow :=
  match w with
  | .bubblegum _ _ _ _ _ _ _ seq => Bubblegum.assetDataInfo w.row seq
  | .tokenMetadata _ _ | .core _ _ _ => accountAssetData w.row
  | .tokenExtensions _ _ _ => shadowAssetData w.row

end DataWrite

/-! ### Jobs -/

structure Job where
  assetDataId : Bytes
  uri : String
  attempt : ℕ
deriving DecidableEq

/-- Why a result is stored. -/
inductive Verdict where
  | invalidUri
  | unsupported
  | blocked
  | permanent (reason : String)
  | fetched (body : Json)

/-- The body that is stored with it. -/
def Verdict.body : Verdict → Option Json
  | .invalidUri => some (.str "Invalid Uri")
  | .fetched body => some body
  | _ => none

/-- Where `process` has got with a job. -/
inductive Stage where
  | taken
  | acquiring (url : Url) (viaGateway : Bool)
  | fetching (url : Url) (viaGateway : Bool)
  | storing (verdict : Verdict) (attempt : ℕ)
  | finishing

/-- The beginning of `process`. -/
def start (U : UrlCrate) (shared : Shared) (job : Job) : Stage :=
  match route U shared.gateway job.uri with
  | .invalidUri => .storing .invalidUri 0
  | .unsupported => .storing .unsupported 0
  | .blocked => .storing .blocked 0
  | .fetch url viaGateway => .acquiring url viaGateway

/-- What follows a fetch. -/
inductive Next where
  | store (verdict : Verdict)
  | later (job : Job)
  | finish (job : Job)

/-- The rest of `process`: a failure that may clear up counts as an attempt. -/
def afterFetch (shared : Shared) (job : Job) : Except Failure Json → Next
  | .ok body => .store (.fetched body)
  | .error (.permanent reason) => .store (.permanent reason)
  | .error _ =>
    let job := { job with attempt := job.attempt + 1 }
    if shared.args.metadataMaxAttempts ≤ job.attempt then .finish job else .later job

/-- `with_db_retry` after an error. -/
def afterError (shared : Shared) (retryable : Bool) (verdict : Verdict) (attempt : ℕ) : Stage :=
  if retryable ∧ attempt + 1 < shared.maxWriteAttempts then .storing verdict (attempt + 1) else .finishing

/-- The `UPDATE` of `store`: only a row that still has the uri is changed. -/
def storeEffect (job : Job) (body : Option Json) (t : Table Bytes AssetDataRow) : Table Bytes AssetDataRow :=
  update t fun id r =>
    if id = job.assetDataId ∧ r.metadataUrl.1 = job.uri then
      { r with reindex := some false, metadata := body.getD r.metadata }
    else r

/-- Whether the `UPDATE` changes a row. -/
def matchesRow (job : Job) (t : Table Bytes AssetDataRow) : Bool :=
  (t.lookup job.assetDataId).any fun r => r.metadataUrl.1 = job.uri

/-! ### The system -/

structure State where
  assetData : Table Bytes AssetDataRow := ∅
  pending : Finset Bytes := ∅
  /-- in `enqueue`, their ids inserted and not yet sent -/
  enqueuing : Multiset Job := 0
  queue : List Job := []
  /-- in `process` -/
  working : Multiset (Job × Stage) := 0
  /-- in `later`, asleep or about to be sent again -/
  waiting : Multiset Job := 0

/-- The jobs that exist. -/
def State.live (s : State) : Multiset Job :=
  s.enqueuing + s.queue + s.working.map Prod.fst + s.waiting

/-- A worker goes on after a fetch; `rest` are the others. -/
def State.proceed (s : State) (job : Job) (rest : Multiset (Job × Stage)) : Next → State
  | .store verdict => { s with working := (job, .storing verdict 0) ::ₘ rest }
  | .later job => { s with working := rest, waiting := job ::ₘ s.waiting }
  | .finish job => { s with working := (job, .finishing) ::ₘ rest }

/-- What a step shows: writes of `asset_data` with whether they were accepted, fetches with their result,
stores with whether they changed a row. -/
inductive Event where
  | wrote (w : DataWrite) (accepted : Bool)
  | fetched (job : Job) (url : Url) (viaGateway : Bool) (result : Except Failure Json)
  | stored (job : Job) (verdict : Verdict) (matched : Bool)
  | internal

section Steps

variable (C : Crates) (shared : Shared)

/-- The channel has room. -/
def State.HasRoom (s : State) : Prop := s.queue.length < max 1 shared.args.metadataQueue

instance (s : State) : Decidable (s.HasRoom shared) :=
  inferInstanceAs (Decidable (s.queue.length < max 1 shared.args.metadataQueue))

inductive Step : State → Event → State → Prop
  | write (s : State) (w : DataWrite) :
      Step s (.wrote w (w.upsert.affects (s.assetData.lookup w.id)))
        { s with assetData := Sql.upsert s.assetData w.id w.upsert }
  /-- `enqueue` from the notifier or from `redrive`: a download is pending already -/
  | alreadyPending (s : State) (id : Bytes) : id ∈ s.pending → Step s .internal s
  | enqueue (s : State) (id : Bytes) (uri : String) : id ∉ s.pending →
      Step s .internal { s with
        pending := insert id s.pending, enqueuing := ⟨id, uri, 0⟩ ::ₘ s.enqueuing }
  | trySend (s : State) (job : Job) (rest : Multiset Job) : s.enqueuing = job ::ₘ rest →
      s.HasRoom shared → Step s .internal { s with enqueuing := rest, queue := s.queue ++ [job] }
  /-- the channel is full or closed -/
  | trySendFails (s : State) (job : Job) (rest : Multiset Job) : s.enqueuing = job ::ₘ rest →
      Step s .internal { s with enqueuing := rest, pending := s.pending.erase job.assetDataId }
  | take (s : State) (job : Job) (rest : List Job) : s.queue = job :: rest →
      s.working.card < max 1 shared.args.metadataConcurrency →
      Step s .internal { s with queue := rest, working := (job, .taken) ::ₘ s.working }
  | look (s : State) (job : Job) (rest : Multiset (Job × Stage)) : s.working = (job, .taken) ::ₘ rest →
      Step s .internal { s with working := (job, start C.toUrlCrate shared job) ::ₘ rest }
  | acquired (s : State) (job : Job) (url : Url) (viaGateway : Bool) (rest : Multiset (Job × Stage)) :
      s.working = (job, .acquiring url viaGateway) ::ₘ rest →
      Step s .internal { s with working := (job, .fetching url viaGateway) ::ₘ rest }
  /-- the host is paused -/
  | paused (s : State) (job : Job) (url : Url) (viaGateway : Bool) (rest : Multiset (Job × Stage)) :
      s.working = (job, .acquiring url viaGateway) ::ₘ rest →
      Step s .internal { s with working := rest, waiting := job ::ₘ s.waiting }
  | fetched (s : State) (job : Job) (url : Url) (viaGateway : Bool) (rest : Multiset (Job × Stage))
      (out : Outside) : s.working = (job, .fetching url viaGateway) ::ₘ rest →
      Step s (.fetched job url viaGateway (fetch C shared url viaGateway out).2)
        (s.proceed job rest (afterFetch shared job (fetch C shared url viaGateway out).2))
  | stored (s : State) (job : Job) (verdict : Verdict) (attempt : ℕ) (rest : Multiset (Job × Stage)) :
      s.working = (job, .storing verdict attempt) ::ₘ rest →
      Step s (.stored job verdict (matchesRow job s.assetData))
        { s with assetData := storeEffect job verdict.body s.assetData,
                 working := (job, .finishing) ::ₘ rest }
  /-- the `UPDATE` ran, but the client saw an error -/
  | answerLost (s : State) (job : Job) (verdict : Verdict) (attempt : ℕ) (rest : Multiset (Job × Stage))
      (retryable : Bool) : s.working = (job, .storing verdict attempt) ::ₘ rest →
      Step s (.stored job verdict (matchesRow job s.assetData))
        { s with assetData := storeEffect job verdict.body s.assetData,
                 working := (job, afterError shared retryable verdict attempt) ::ₘ rest }
  | storeFails (s : State) (job : Job) (verdict : Verdict) (attempt : ℕ) (rest : Multiset (Job × Stage))
      (retryable : Bool) : s.working = (job, .storing verdict attempt) ::ₘ rest →
      Step s .internal { s with working := (job, afterError shared retryable verdict attempt) ::ₘ rest }
  | finish (s : State) (job : Job) (rest : Multiset (Job × Stage)) : s.working = (job, .finishing) ::ₘ rest →
      Step s .internal { s with working := rest, pending := s.pending.erase job.assetDataId }
  | resend (s : State) (job : Job) (rest : Multiset Job) : s.waiting = job ::ₘ rest →
      s.HasRoom shared → Step s .internal { s with waiting := rest, queue := s.queue ++ [job] }
  /-- the channel is closed -/
  | resendFails (s : State) (job : Job) (rest : Multiset Job) : s.waiting = job ::ₘ rest →
      Step s .internal { s with waiting := rest, pending := s.pending.erase job.assetDataId }

/-- A run from empty tables, with its events from the newest on. -/
inductive Run : List Event → State → Prop
  | init : Run [] {}
  | step {es : List Event} {e : Event} {s s' : State} : Run es s → Step C shared s e s' → Run (e :: es) s'

end Steps

/-! ### One job for each pending id -/

/-- The pending ids are the ids of the live jobs, each of one. -/
def Exact (s : State) : Prop := s.live.map Job.assetDataId = s.pending.val

/-- A job that goes from one place to another. -/
theorem Exact.move {s s' : State} (h : Exact s) (hlive : s'.live = s.live) (hpending : s'.pending = s.pending) :
    Exact s' := by
  rw [Exact, hlive, h, hpending]

/-- A job that goes on under its id, an attempt later. -/
theorem Exact.replace {s s' : State} (h : Exact s) {job : Job} {others : Multiset Job}
    (hlive : s.live = job ::ₘ others) (job' : Job) (hid : job'.assetDataId = job.assetDataId)
    (hlive' : s'.live = job' ::ₘ others) (hpending : s'.pending = s.pending) : Exact s' := by
  rw [Exact, hlive, Multiset.map_cons] at h
  rw [Exact, hlive', Multiset.map_cons, hid, h, hpending]

/-- A job that ends, with its id. -/
theorem Exact.remove {s s' : State} (h : Exact s) (job : Job) (hlive : s.live = job ::ₘ s'.live)
    (hpending : s'.pending = s.pending.erase job.assetDataId) : Exact s' := by
  rw [Exact, hlive, Multiset.map_cons] at h
  rw [Exact, hpending, Finset.erase_val, ← h, Multiset.erase_cons_head]

/-- A job that begins, with its id. -/
theorem Exact.insert {s s' : State} (h : Exact s) (job : Job) (hnew : job.assetDataId ∉ s.pending)
    (hlive : s'.live = job ::ₘ s.live) (hpending : s'.pending = insert job.assetDataId s.pending) :
    Exact s' := by
  rw [Exact, hlive, Multiset.map_cons, hpending, Finset.insert_val_of_notMem hnew, h]

theorem coe_append_singleton (queue : List Job) (job : Job) :
    ((queue ++ [job] : List Job) : Multiset Job) = job ::ₘ queue := by
  rw [Multiset.cons_coe, Multiset.coe_eq_coe]
  exact List.perm_append_singleton job queue

/-- The worker of a job goes on to another stage. -/
theorem Exact.advance {s s' : State} (h : Exact s) {job : Job} {stage stage' : Stage}
    {rest : Multiset (Job × Stage)} (hjob : s.working = (job, stage) ::ₘ rest)
    (hworking : s'.working = (job, stage') ::ₘ rest) (henqueuing : s'.enqueuing = s.enqueuing)
    (hqueue : s'.queue = s.queue) (hwaiting : s'.waiting = s.waiting) (hpending : s'.pending = s.pending) :
    Exact s' := by
  refine h.move ?_ hpending
  simp only [State.live, hjob, hworking, henqueuing, hqueue, hwaiting, Multiset.map_cons]

/-- **Every step** keeps the books. -/
theorem Exact.step {C : Crates} {shared : Shared} {s s' : State} {e : Event} (h : Exact s)
    (hstep : Step C shared s e s') : Exact s' := by
  cases hstep with
  | write w => exact h
  | alreadyPending id _ => exact h
  | enqueue id uri hnew =>
    refine h.insert ⟨id, uri, 0⟩ hnew ?_ rfl
    simp only [State.live, Multiset.cons_add]
  | trySend job rest hjob _ =>
    refine h.move ?_ rfl
    simp only [State.live, hjob, coe_append_singleton, Multiset.cons_add, Multiset.add_cons]
  | trySendFails job rest hjob =>
    refine h.remove job ?_ rfl
    simp only [State.live, hjob, Multiset.cons_add]
  | take job rest hjob _ =>
    refine h.move ?_ rfl
    simp only [State.live, hjob, ← Multiset.cons_coe, Multiset.map_cons, Multiset.cons_add, Multiset.add_cons]
  | look job rest hjob => exact h.advance hjob rfl rfl rfl rfl rfl
  | acquired job url viaGateway rest hjob => exact h.advance hjob rfl rfl rfl rfl rfl
  | paused job url viaGateway rest hjob =>
    refine h.move ?_ rfl
    simp only [State.live, hjob, Multiset.map_cons, Multiset.cons_add, Multiset.add_cons]
  | fetched job url viaGateway rest out hjob =>
    have hlive : s.live = job ::ₘ (s.enqueuing + s.queue + rest.map Prod.fst + s.waiting) := by
      simp only [State.live, hjob, Multiset.map_cons, Multiset.cons_add, Multiset.add_cons]
    -- a retry keeps the id and counts an attempt
    unfold afterFetch
    split
    · exact h.advance hjob rfl rfl rfl rfl rfl
    · exact h.advance hjob rfl rfl rfl rfl rfl
    · dsimp only
      split
      · refine h.replace hlive { job with attempt := job.attempt + 1 } rfl ?_ rfl
        simp only [State.proceed, State.live, Multiset.map_cons, Multiset.cons_add, Multiset.add_cons]
      · refine h.replace hlive { job with attempt := job.attempt + 1 } rfl ?_ rfl
        simp only [State.proceed, State.live, Multiset.add_cons]
  | stored job verdict attempt rest hjob => exact h.advance hjob rfl rfl rfl rfl rfl
  | answerLost job verdict attempt rest retryable hjob => exact h.advance hjob rfl rfl rfl rfl rfl
  | storeFails job verdict attempt rest retryable hjob => exact h.advance hjob rfl rfl rfl rfl rfl
  | finish job rest hjob =>
    refine h.remove job ?_ rfl
    simp only [State.live, hjob, Multiset.map_cons, Multiset.cons_add, Multiset.add_cons]
  | resend job rest hjob _ =>
    refine h.move ?_ rfl
    simp only [State.live, hjob, coe_append_singleton, Multiset.cons_add, Multiset.add_cons]
  | resendFails job rest hjob =>
    refine h.remove job ?_ rfl
    simp only [State.live, hjob, Multiset.add_cons]

theorem Run.exact {C : Crates} {shared : Shared} {es : List Event} {s : State} (h : Run C shared es s) :
    Exact s := by
  induction h with
  | init => rfl
  | step _ hstep ih => exact ih.step hstep

/-- **At most one live download for each asset, and none leaked.**  In every state of every run the pending
ids are the ids of the jobs that are about to be sent, queued, processed or waiting for another attempt, and
for each there is exactly one such job. -/
theorem pending_exact (C : Crates) (shared : Shared) (es : List Event) (s : State) (h : Run C shared es s) :
    (∀ id, id ∈ s.pending ↔ ∃ job ∈ s.live, job.assetDataId = id) ∧
    ∀ id ∈ s.pending, (s.live.filter fun job => id = job.assetDataId).card = 1 := by
  have hexact : s.live.map Job.assetDataId = s.pending.val := h.exact
  constructor
  · intro id
    rw [← Finset.mem_val, ← hexact, Multiset.mem_map]
  · intro id hid
    rw [← Multiset.count_map, hexact]
    exact Multiset.count_eq_one_of_mem s.pending.nodup (Finset.mem_val.mpr hid)

/-- The downloader with the sample gateway. -/
def sampleShared : Shared where
  args := sampleArgs
  gateway := ⟨⟨"http", some (.ipv4 ⟨10, 1, 2, 3⟩), some 8080, "/", none⟩, false⟩
  trustedBase := ⟨"http", some (.ipv4 ⟨10, 1, 2, 3⟩), some 8080, "/", none⟩
  maxWriteAttempts := 5

/-- A job that a worker has taken is the one job of its asset. -/
theorem taken_job_is_pending :
    ∃ s es, Run sampleCrates sampleShared es s ∧ s.working = {(⟨[1], "https://example.com/1.json", 0⟩, .taken)} ∧
      [1] ∈ s.pending ∧ (s.live.filter fun job => [1] = job.assetDataId).card = 1 := by
  have hrun := @Run.init sampleCrates sampleShared
    |>.step (Step.enqueue _ [1] "https://example.com/1.json" (by simp))
    |>.step (Step.trySend _ ⟨[1], "https://example.com/1.json", 0⟩ 0 rfl (by decide))
    |>.step (Step.take _ ⟨[1], "https://example.com/1.json", 0⟩ [] rfl (by decide))
  exact ⟨_, _, hrun, rfl, by decide, (pending_exact sampleCrates sampleShared _ _ hrun).2 [1] (by decide)⟩

end DasIndexer.Grpc.Metadata
