import DasIndexer.Grpc.Downloader
import DasIndexer.Bubblegum.Convergence

/-!
# Which metadata is owed

`asset_data.reindex` says that the metadata of a row is still to be downloaded.  Every writer raises it with
the url it writes, and a store lowers it, if the row still has the url that the job was for.  Jobs outlive
urls, and a url may come back while an older job for it is on its way, so the question is what a lowered
mark means: **`reindex_exact`**.  The last store that changed the row came after the last accepted write,
ran for the url that the row has, and the row holds what was fetched for that url, or the url was judged
not to be worth another attempt.

`handlers_write` says that the writes of the model are those of the account and instruction handlers.
-/

namespace DasIndexer.Grpc.Metadata

open Sql Accounts

/-! ### The writers -/

namespace DataWrite

theorem new_upsert (w : DataWrite) : w.upsert.new = w.row := by
  cases w <;> rfl

/-- Every accepted write sets the url and marks the row as owed. -/
theorem set_upsert (w : DataWrite) (r : AssetDataRow) :
    (w.upsert.set r).metadataUrl = w.row.metadataUrl ∧ (w.upsert.set r).reindex = some true := by
  cases w <;> exact ⟨rfl, rfl⟩

theorem reindex_row (w : DataWrite) : w.row.reindex = some true := by
  cases w <;> rfl

/-- The row that an accepted write leaves. -/
theorem row_upsert (w : DataWrite) {o : Option AssetDataRow} (h : w.upsert.affects o = true) :
    (w.upsert.row o).metadataUrl = w.row.metadataUrl ∧ (w.upsert.row o).reindex = some true := by
  cases o with
  | none =>
    rw [Upsert.row_none, w.new_upsert]
    exact ⟨rfl, w.reindex_row⟩
  | some r =>
    have hguard : holds (w.upsert.guard r) = true := h
    rw [Upsert.row_some, if_pos hguard]
    exact w.set_upsert r

end DataWrite

/-- The function writes at most one row of `asset_data`, by one of the upserts. -/
def Writes (f : Database → Database) : Prop :=
  ∀ db, (f db).assetData = db.assetData ∨
    ∃ w : DataWrite, (f db).assetData = Sql.upsert db.assetData w.id w.upsert

/-- The statements write `asset_data` once, at the beginning, or not at all. -/
def WritesOnce (ws : List Bubblegum.TableWrite) : Prop :=
  (∀ w ∈ ws, w.kind ≠ .data) ∨
    ∃ id mutability chainData uri slot rawName rawSymbol seq rest,
      ws = .data id (Bubblegum.dataRow mutability chainData uri slot rawName rawSymbol seq) seq :: rest ∧
      ∀ w ∈ rest, w.kind ≠ .data

section Bubblegum

open Bubblegum

theorem apply_assetData {E : Env} {w : TableWrite} (h : w.kind ≠ .data) (db : Database) :
    (w.apply E db).assetData = db.assetData := by
  cases w with
  | data id row seq => exact absurd rfl h
  | _ => rfl

theorem foldl_assetData {E : Env} {ws : List TableWrite} (h : ∀ w ∈ ws, w.kind ≠ .data) (db : Database) :
    (ws.foldl (fun db w => w.apply E db) db).assetData = db.assetData := by
  induction ws generalizing db with
  | nil => rfl
  | cons w ws ih =>
    rw [List.foldl_cons, ih (fun w' hw' => h w' (List.mem_cons_of_mem _ hw')),
      apply_assetData (h w List.mem_cons_self)]

theorem writesOnce_of_plan {E : Env} {ix : BubblegumInstruction} {bundle : InstructionBundle} {change : Change}
    {ws : List TableWrite} (hplan : plan E ix bundle = .record change) (hbody : change.body = .ok ws) :
    WritesOnce ws := by
  cases hname : ix.instruction
  case mintV1 | mintToCollectionV1 | mintV2 =>
    simp only [plan, hname, mintPlan] at hplan
    split at hplan
    · obtain rfl := Plan.record.inj hplan
      obtain rfl := Except.ok.inj hbody
      exact Or.inr ⟨_, _, _, _, _, _, _, _, _, rfl, by simp [TableWrite.kind]⟩
    · exact absurd hplan (by simp)
  case updateMetadata | updateMetadataV2 =>
    simp only [plan, hname, updateMetadataPlan] at hplan
    split at hplan
    · obtain rfl := Plan.record.inj hplan
      obtain rfl := Except.ok.inj hbody
      exact Or.inr ⟨_, _, _, _, _, _, _, _, _, rfl, by simp [TableWrite.kind]⟩
    · exact absurd hplan (by simp)
  case cancelRedeem =>
    simp only [plan, hname, cancelRedeemPlan] at hplan
    split at hplan
    · split at hplan
      · obtain rfl := Plan.record.inj hplan
        obtain rfl := Except.ok.inj hbody
        exact Or.inl (by simp [TableWrite.kind])
      · obtain rfl := Plan.record.inj hplan
        exact absurd hbody (by simp)
    · exact absurd hplan (by simp)
  case decompressV1 | setDecompressibleState | updateAssetDataV2 | unknown | compress | createTree | collectV2
      | createTreeV2 =>
    exact absurd hplan (by simp [plan, hname])
  all_goals
    simp only [plan, hname, updateLeafAndOwnerPlan, burnPlan, redeemPlan, creatorVerificationPlan,
      collectionVerificationPlan] at hplan
    split at hplan
    · obtain rfl := Plan.record.inj hplan
      obtain rfl := Except.ok.inj hbody
      exact Or.inl (by simp [TableWrite.kind])
    · exact absurd hplan (by simp)

theorem writes_ingestEffect (E : Env) (i : Ingest) : Writes (ingestEffect E i) := by
  intro db
  unfold ingestEffect
  cases hplan : plan E i.ix i.bundle with
  | ignore => exact Or.inl rfl
  | refuse => exact Or.inl rfl
  | record change =>
    cases hdecode : Base58.decode i.bundle.txnId with
    | none => exact Or.inl rfl
    | some tx =>
      cases hbody : change.body with
      | error e => exact Or.inl (by simp only [hbody])
      | ok ws =>
        obtain ⟨_, _, _, hlog⟩ := logEffect_eq change.event i.bundle.slot tx (ixStr i.ix.instruction) db
        simp only [hbody, hlog]
        rcases writesOnce_of_plan hplan hbody with hnone | ⟨id, mutability, chainData, uri, slot, rawName,
          rawSymbol, seq, rest, rfl, hrest⟩
        · rw [foldl_assetData hnone]
          exact Or.inl rfl
        · rw [List.foldl_cons, foldl_assetData hrest]
          exact Or.inr ⟨.bubblegum id mutability chainData uri slot rawName rawSymbol seq, rfl⟩

end Bubblegum

/-- **The handlers write by these upserts**, each at most once. -/
theorem handlers_write (E : Bubblegum.Env) (i : Bubblegum.Ingest) (masterEditionPda : Pubkey → Pubkey)
    (m : TokenMetadata.Metadata) (slot : ℕ) (core : MplCore.Env) (id : Pubkey) (kind : MplCore.Kind)
    (a : MplCore.IndexableAsset) (u : MintUpdate) :
    Writes (Bubblegum.ingestEffect E i) ∧ Writes (TokenMetadata.metadataEffect masterEditionPda m slot) ∧
      Writes (MplCore.saveEffect core id kind a slot) ∧ Writes u.effect := by
  refine ⟨writes_ingestEffect E i, fun db => Or.inr ⟨.tokenMetadata m slot, ?_⟩, fun db => ?_, fun db => ?_⟩
  · exact TokenMetadata.metadataEffect_assetData masterEditionPda m slot db
  · rw [MplCore.saveEffect_assetData core id kind a slot db]
    split
    · exact Or.inr ⟨.core id a slot, rfl⟩
    · exact Or.inl rfl
  · cases u with
    | token info m => exact Or.inl rfl
    | tokenExtensions info m extensions =>
      cases hmetadata : extensions.metadata with
      | none =>
        refine Or.inl ?_
        simp only [MintUpdate.effect, MintUpdate.shadowEffect, hmetadata]
        rfl
      | some metadata =>
        simp only [MintUpdate.effect, MintUpdate.shadowEffect, hmetadata]
        split
        · exact Or.inr ⟨.tokenExtensions metadata info.pubkey.bytes info.slot, rfl⟩
        · exact Or.inl rfl

/-! ### What a step does to the rows -/

/-- The event is an accepted write of a row. -/
def Event.IsWrite (id : Bytes) : Event → Prop
  | .wrote w accepted => accepted = true ∧ w.id = id
  | _ => False

/-- The event is a store that changed a row. -/
def Event.IsStore (id : Bytes) : Event → Prop
  | .stored job _ matched => matched = true ∧ job.assetDataId = id
  | _ => False

/-- Rows change only by writes and stores. -/
theorem step_assetData {C : Crates} {shared : Shared} {s s' : State} {e : Event} (h : Step C shared s e s') :
    (s'.assetData = s.assetData ∧ ∀ id, ¬ e.IsWrite id ∧ ¬ e.IsStore id) ∨
    (∃ w : DataWrite, e = .wrote w (w.upsert.affects (s.assetData.lookup w.id)) ∧
      s'.assetData = Sql.upsert s.assetData w.id w.upsert) ∨
    ∃ job verdict attempt rest, s.working = (job, .storing verdict attempt) ::ₘ rest ∧
      e = .stored job verdict (matchesRow job s.assetData) ∧
      s'.assetData = storeEffect job verdict.body s.assetData := by
  have hquiet : ∀ id, ¬ Event.internal.IsWrite id ∧ ¬ Event.internal.IsStore id :=
    fun id => ⟨fun hw => hw, fun hs => hs⟩
  cases h with
  | write w => exact Or.inr (Or.inl ⟨w, rfl, rfl⟩)
  | stored job verdict attempt rest hjob =>
    exact Or.inr (Or.inr ⟨job, verdict, attempt, rest, hjob, rfl, rfl⟩)
  | answerLost job verdict attempt rest retryable hjob =>
    exact Or.inr (Or.inr ⟨job, verdict, attempt, rest, hjob, rfl, rfl⟩)
  | fetched job url viaGateway rest out hjob =>
    refine Or.inl ⟨?_, fun id => ⟨fun hw => hw, fun hs => hs⟩⟩
    cases afterFetch shared job (fetch C shared url viaGateway out).2 <;> rfl
  | _ => exact Or.inl ⟨rfl, hquiet⟩

/-- A store changes the row of its job, if the row has the url of the job. -/
theorem lookup_storeEffect (job : Job) (body : Option Json) (t : Table Bytes AssetDataRow) (id : Bytes) :
    (storeEffect job body t).lookup id = (t.lookup id).map fun r =>
      if id = job.assetDataId ∧ r.metadataUrl.1 = job.uri then
        { r with reindex := some false, metadata := body.getD r.metadata }
      else r := lookup_update _ _ _

/-! ### Why a result is stored -/

section Runs

variable (C : Crates) (shared : Shared)

/-- What a verdict on a job rests on: what its URI is, or a fetch of the URL that the URI stands for. -/
def Justified (es : List Event) (job : Job) : Verdict → Prop
  | .invalidUri => C.parse (stripNul (trim job.uri)) = none
  | .unsupported => route C.toUrlCrate shared.gateway job.uri = .unsupported
  | .blocked => route C.toUrlCrate shared.gateway job.uri = .blocked
  | .permanent reason => ∃ url viaGateway, route C.toUrlCrate shared.gateway job.uri = .fetch url viaGateway ∧
      .fetched job url viaGateway (.error (.permanent reason)) ∈ es
  | .fetched body => ∃ url viaGateway, route C.toUrlCrate shared.gateway job.uri = .fetch url viaGateway ∧
      .fetched job url viaGateway (.ok body) ∈ es

/-- What is known of a worker. -/
def Sound (es : List Event) (job : Job) : Stage → Prop
  | .acquiring url viaGateway | .fetching url viaGateway =>
    route C.toUrlCrate shared.gateway job.uri = .fetch url viaGateway
  | .storing verdict _ => Justified C shared es job verdict
  | _ => True

variable {C shared}

theorem Justified.later {es : List Event} {job : Job} {verdict : Verdict}
    (h : Justified C shared es job verdict) (e : Event) : Justified C shared (e :: es) job verdict := by
  cases verdict with
  | permanent reason =>
    obtain ⟨url, viaGateway, hroute, hmem⟩ := h
    exact ⟨url, viaGateway, hroute, List.mem_cons_of_mem _ hmem⟩
  | fetched body =>
    obtain ⟨url, viaGateway, hroute, hmem⟩ := h
    exact ⟨url, viaGateway, hroute, List.mem_cons_of_mem _ hmem⟩
  | _ => exact h

theorem Sound.later {es : List Event} {job : Job} {stage : Stage} (h : Sound C shared es job stage)
    (e : Event) : Sound C shared (e :: es) job stage := by
  cases stage with
  | storing verdict attempt => exact Justified.later h e
  | _ => exact h

theorem sound_start (es : List Event) (job : Job) :
    Sound C shared es job (start C.toUrlCrate shared job) := by
  unfold start
  split
  · rename_i hroute
    show C.parse (stripNul (trim job.uri)) = none
    unfold route at hroute
    split at hroute
    · assumption
    · dsimp only at hroute
      split at hroute
      · exact absurd hroute (by simp)
      · split at hroute <;> exact absurd hroute (by simp)
  · rename_i hroute
    exact hroute
  · rename_i hroute
    exact hroute
  · rename_i hroute
    exact hroute

theorem sound_afterError {es : List Event} {job : Job} {verdict : Verdict} {attempt : ℕ} (retryable : Bool)
    (h : Justified C shared es job verdict) :
    Sound C shared es job (afterError shared retryable verdict attempt) := by
  unfold afterError
  split
  · exact h
  · trivial

/-- Every worker knows what it does. -/
def Workers (C : Crates) (shared : Shared) (es : List Event) (s : State) : Prop :=
  ∀ p ∈ s.working, Sound C shared es p.1 p.2

/-- One worker goes on, and the others do not. -/
theorem Workers.advance {es : List Event} {s s' : State} (h : Workers C shared es s) (e : Event)
    {p q : Job × Stage} {rest : Multiset (Job × Stage)} (hworking : s.working = q ::ₘ rest)
    (hworking' : s'.working = p ::ₘ rest) (hp : Sound C shared (e :: es) p.1 p.2) :
    Workers C shared (e :: es) s' := by
  intro p' hp'
  rw [hworking', Multiset.mem_cons] at hp'
  rcases hp' with heq | hrest
  · rw [heq]
    exact hp
  · exact (h p' (hworking ▸ Multiset.mem_cons_of_mem hrest)).later e

/-- No worker is added. -/
theorem Workers.subset {es : List Event} {s s' : State} (h : Workers C shared es s) (e : Event)
    (hsub : ∀ p ∈ s'.working, p ∈ s.working) : Workers C shared (e :: es) s' :=
  fun p hp => (h p (hsub p hp)).later e

/-- After a fetch, a worker stores what the fetch has shown. -/
theorem Workers.proceed {es : List Event} {s : State} (h : Workers C shared es s) {job : Job} {url : Url}
    {viaGateway : Bool} {rest : Multiset (Job × Stage)}
    (hworking : s.working = (job, .fetching url viaGateway) ::ₘ rest) (result : Except Failure Json) :
    Workers C shared (.fetched job url viaGateway result :: es)
      (s.proceed job rest (afterFetch shared job result)) := by
  have hroute : route C.toUrlCrate shared.gateway job.uri = .fetch url viaGateway :=
    h (job, .fetching url viaGateway) (hworking ▸ Multiset.mem_cons_self _ _)
  unfold afterFetch
  split
  · exact h.advance _ hworking rfl ⟨url, viaGateway, hroute, List.mem_cons_self⟩
  · exact h.advance _ hworking rfl ⟨url, viaGateway, hroute, List.mem_cons_self⟩
  · dsimp only
    split
    · exact h.advance _ hworking rfl trivial
    · exact h.subset _ fun p hp => hworking ▸ Multiset.mem_cons_of_mem hp

theorem Workers.step {es : List Event} {s s' : State} {e : Event} (h : Workers C shared es s)
    (hstep : Step C shared s e s') : Workers C shared (e :: es) s' := by
  -- the worker that the step is about is the first one
  have hfirst : ∀ {p : Job × Stage} {rest : Multiset (Job × Stage)}, s.working = p ::ₘ rest →
      Sound C shared es p.1 p.2 := fun hworking => h _ (hworking ▸ Multiset.mem_cons_self _ _)
  cases hstep with
  | take job rest hjob _ =>
    intro p hp
    rcases Multiset.mem_cons.mp hp with heq | hrest
    · rw [heq]
      trivial
    · exact (h p hrest).later _
  | look job rest hjob => exact h.advance _ hjob rfl (sound_start _ job)
  | acquired job url viaGateway rest hjob => exact h.advance _ hjob rfl (hfirst hjob)
  | paused job url viaGateway rest hjob => exact h.subset _ fun p hp => hjob ▸ Multiset.mem_cons_of_mem hp
  | fetched job url viaGateway rest out hjob => exact h.proceed hjob _
  | stored job verdict attempt rest hjob => exact h.advance _ hjob rfl trivial
  | answerLost job verdict attempt rest retryable hjob =>
    exact h.advance _ hjob rfl (sound_afterError retryable ((hfirst hjob).later _))
  | storeFails job verdict attempt rest retryable hjob =>
    exact h.advance _ hjob rfl (sound_afterError retryable ((hfirst hjob).later _))
  | finish job rest hjob => exact h.subset _ fun p hp => hjob ▸ Multiset.mem_cons_of_mem hp
  | _ => exact h.subset _ fun p hp => hp

/-! ### What a row stands for -/

/-- The last accepted write of a row set its url. -/
def Written (es : List Event) (id : Bytes) (r : AssetDataRow) : Prop :=
  ∃ before w earlier, es = before ++ .wrote w true :: earlier ∧ w.id = id ∧
    w.row.metadataUrl = r.metadataUrl ∧ ∀ e ∈ before, ¬ e.IsWrite id

/-- The last store that changed a row came after the last accepted write, ran for the url that the row has,
had a reason, and its body, if it had one, is the metadata of the row. -/
def Settled (C : Crates) (shared : Shared) (es : List Event) (id : Bytes) (r : AssetDataRow) : Prop :=
  ∃ after job verdict before w earlier,
    es = after ++ .stored job verdict true :: (before ++ .wrote w true :: earlier) ∧
    (w.id = id ∧ w.row.metadataUrl = r.metadataUrl) ∧ (job.assetDataId = id ∧ job.uri = r.metadataUrl.1) ∧
    (∀ e ∈ before, ¬ e.IsWrite id) ∧ (∀ e ∈ after, ¬ e.IsWrite id ∧ ¬ e.IsStore id) ∧
    Justified C shared (before ++ .wrote w true :: earlier) job verdict ∧
    ∀ body, verdict.body = some body → r.metadata = body

/-- A row is owed or settled. -/
structure Accounted (C : Crates) (shared : Shared) (es : List Event) (id : Bytes) (r : AssetDataRow) :
    Prop where
  written : Written es id r
  mark : r.reindex = some true ∨ r.reindex = some false ∧ Settled C shared es id r

theorem Written.later {es : List Event} {id : Bytes} {r : AssetDataRow} (h : Written es id r) {e : Event}
    (he : ¬ e.IsWrite id) : Written (e :: es) id r := by
  obtain ⟨before, w, earlier, rfl, hid, hurl, hnone⟩ := h
  refine ⟨e :: before, w, earlier, rfl, hid, hurl, fun e' he' => ?_⟩
  rcases List.mem_cons.mp he' with rfl | hmem
  · exact he
  · exact hnone e' hmem

theorem Settled.later {es : List Event} {id : Bytes} {r : AssetDataRow} (h : Settled C shared es id r)
    {e : Event} (he : ¬ e.IsWrite id ∧ ¬ e.IsStore id) : Settled C shared (e :: es) id r := by
  obtain ⟨after, job, verdict, before, w, earlier, rfl, hw, hjob, hbefore, hafter, hreason, hbody⟩ := h
  refine ⟨e :: after, job, verdict, before, w, earlier, rfl, hw, hjob, hbefore, fun e' he' => ?_, hreason,
    hbody⟩
  rcases List.mem_cons.mp he' with rfl | hmem
  · exact he
  · exact hafter e' hmem

theorem Accounted.later {es : List Event} {id : Bytes} {r : AssetDataRow} (h : Accounted C shared es id r)
    {e : Event} (he : ¬ e.IsWrite id ∧ ¬ e.IsStore id) : Accounted C shared (e :: es) id r := by
  refine ⟨h.written.later he.1, ?_⟩
  rcases h.mark with howed | ⟨hdone, hsettled⟩
  · exact Or.inl howed
  · exact Or.inr ⟨hdone, hsettled.later he⟩

/-- Every row is accounted for. -/
def Rows (C : Crates) (shared : Shared) (es : List Event) (s : State) : Prop :=
  ∀ id r, s.assetData.lookup id = some r → Accounted C shared es id r

/-- A write of a row makes it owed; a write that is not accepted leaves it as it is. -/
theorem Rows.write {es : List Event} {s s' : State} (h : Rows C shared es s) (w : DataWrite)
    (hrows : s'.assetData = Sql.upsert s.assetData w.id w.upsert) :
    Rows C shared (.wrote w (w.upsert.affects (s.assetData.lookup w.id)) :: es) s' := by
  intro id r hr
  rw [hrows, lookup_upsert] at hr
  by_cases hid : id = w.id
  · subst hid
    rw [if_pos rfl] at hr
    obtain rfl := Option.some.inj hr
    cases haffects : w.upsert.affects (s.assetData.lookup w.id) with
    | true =>
      obtain ⟨hurl, hmark⟩ := w.row_upsert haffects
      exact ⟨⟨[], w, es, rfl, rfl, hurl.symm, by simp⟩, Or.inl hmark⟩
    | false =>
      -- the guard of a stored row does not hold
      cases hstored : s.assetData.lookup w.id with
      | none =>
        rw [hstored] at haffects
        exact absurd haffects (by simp [Upsert.affects])
      | some r =>
        rw [hstored] at haffects
        have hguard : holds (w.upsert.guard r) = false := haffects
        rw [Upsert.row_some, hguard]
        exact (h _ r hstored).later ⟨fun hw => absurd hw.1 (by simp), fun hs => hs⟩
  · rw [if_neg hid] at hr
    exact (h id r hr).later ⟨fun hw => hid hw.2.symm, fun hs => hs⟩

/-- A store settles the row of its job, if the row has the url of the job. -/
theorem Rows.store {es : List Event} {s s' : State} (h : Rows C shared es s) {job : Job} {verdict : Verdict}
    (hreason : Justified C shared es job verdict)
    (hrows : s'.assetData = storeEffect job verdict.body s.assetData) :
    Rows C shared (.stored job verdict (matchesRow job s.assetData) :: es) s' := by
  intro id r hr
  rw [hrows, lookup_storeEffect] at hr
  obtain ⟨r₀, hr₀, hset⟩ := Option.map_eq_some_iff.mp hr
  have hold := h id r₀ hr₀
  by_cases hmatch : id = job.assetDataId ∧ r₀.metadataUrl.1 = job.uri
  · rw [if_pos hmatch] at hset
    subst hset
    have hmatched : matchesRow job s.assetData = true := by
      rw [matchesRow, ← hmatch.1, hr₀]
      simpa using hmatch.2
    rw [hmatched]
    obtain ⟨before, w, earlier, rfl, hid, hurl, hnone⟩ := hold.written
    refine ⟨hold.written.later (fun hw => hw), Or.inr ⟨rfl, ?_⟩⟩
    refine ⟨[], job, verdict, before, w, earlier, rfl, ⟨hid, hurl⟩, ⟨hmatch.1.symm, hmatch.2.symm⟩, hnone,
      by simp, hreason, fun body hbody => ?_⟩
    show verdict.body.getD r₀.metadata = body
    rw [hbody, Option.getD_some]
  · rw [if_neg hmatch] at hset
    subst hset
    refine hold.later ⟨fun hw => hw, fun hs => hmatch ⟨hs.2.symm, ?_⟩⟩
    have hmatched := hs.1
    rw [matchesRow, hs.2, hr₀] at hmatched
    simpa using hmatched

theorem Rows.step {es : List Event} {s s' : State} {e : Event} (h : Rows C shared es s)
    (hworkers : Workers C shared es s) (hstep : Step C shared s e s') : Rows C shared (e :: es) s' := by
  rcases step_assetData hstep with ⟨hrows, hquiet⟩ | ⟨w, rfl, hrows⟩ |
    ⟨job, verdict, attempt, rest, hjob, rfl, hrows⟩
  · intro id r hr
    rw [hrows] at hr
    exact (h id r hr).later (hquiet id)
  · exact h.write w hrows
  · exact h.store (hworkers (job, .storing verdict attempt) (hjob ▸ Multiset.mem_cons_self _ _)) hrows

theorem Run.accounted {es : List Event} {s : State} (h : Run C shared es s) :
    Rows C shared es s ∧ Workers C shared es s := by
  induction h with
  | init =>
    refine ⟨fun id r hr => absurd hr (by simp), fun p hp => absurd hp (by simp)⟩
  | step _ hstep ih => exact ⟨ih.1.step ih.2 hstep, ih.2.step hstep⟩

end Runs

/-- **The bookkeeping of downloads is exact.**  In every state of every run, a row that is no longer marked
as owed is settled. -/
theorem reindex_exact (C : Crates) (shared : Shared) (es : List Event) (s : State) (h : Run C shared es s)
    (id : Bytes) (r : AssetDataRow) (hr : s.assetData.lookup id = some r) (hmark : r.reindex = some false) :
    Settled C shared es id r := by
  rcases (h.accounted.1 id r hr).mark with howed | ⟨_, hsettled⟩
  · rw [hmark] at howed
    exact absurd howed (by simp)
  · exact hsettled

/-- An asset with a URI. -/
def sampleWrite : DataWrite :=
  .core (Pubkey.fill 1)
    { owner := some (Pubkey.fill 2), updateAuthority := .none, name := "asset",
      uri := "https://example.com/1.json", plugins := [] } 3

def sampleJob : Job := ⟨(Pubkey.fill 1).bytes, "https://example.com/1.json", 0⟩

def sampleUrl : Url := ⟨"https", some (.domain "example.com"), none, "/1.json", none⟩

/-- The name resolves to a global address, and the server has a document. -/
def sampleServed : Outside where
  lookup _ _ := .ok [.v4 ⟨93, 184, 216, 34⟩]
  answers := [.response ⟨200, none, none, [], none⟩]

/-- The asset is written, and a worker has its job. -/
def sampleState (stage : Stage) : State where
  assetData := Sql.upsert ∅ sampleWrite.id sampleWrite.upsert
  pending := {sampleJob.assetDataId}
  working := {(sampleJob, stage)}

theorem start_sampleJob :
    start sampleCrates.toUrlCrate sampleShared sampleJob = .acquiring sampleUrl false := by
  rfl

theorem fetch_sampleUrl : (fetch sampleCrates sampleShared sampleUrl false sampleServed).2 = .ok .null := by
  rfl

/-- The job is fetched and about to be stored. -/
theorem run_sampleState :
    ∃ es, Run sampleCrates sampleShared es (sampleState (.storing (.fetched .null) 0)) := by
  have htaken : ∃ es, Run sampleCrates sampleShared es (sampleState .taken) :=
    ⟨_, @Run.init sampleCrates sampleShared
      |>.step (Step.write _ sampleWrite)
      |>.step (Step.enqueue _ sampleJob.assetDataId sampleJob.uri (by simp))
      |>.step (Step.trySend _ sampleJob 0 rfl (by decide))
      |>.step (Step.take _ sampleJob [] rfl (by decide))⟩
  obtain ⟨es, htaken⟩ := htaken
  have hlooked := htaken.step (Step.look _ sampleJob 0 rfl)
  rw [start_sampleJob] at hlooked
  have hfetched := hlooked |>.step (Step.acquired _ sampleJob sampleUrl false 0 rfl)
    |>.step (Step.fetched _ sampleJob sampleUrl false 0 sampleServed rfl)
  rw [fetch_sampleUrl] at hfetched
  exact ⟨_, hfetched⟩

theorem metadataUrl_sampleWrite : sampleWrite.row.metadataUrl.1 = sampleJob.uri := by
  have huri : stripNul (trim "https://example.com/1.json") = "https://example.com/1.json" := by decide +kernel
  show (Varchar.cut 200 (stripNul (trim "https://example.com/1.json"))).1 = _
  rw [huri, Varchar.cut_of_le (by decide)]
  rfl

/-- Once it is stored, its row is settled. -/
theorem sample_download_settles :
    ∃ es s r, Run sampleCrates sampleShared es s ∧ s.assetData.lookup sampleJob.assetDataId = some r ∧
      r.reindex = some false ∧ Settled sampleCrates sampleShared es sampleJob.assetDataId r := by
  obtain ⟨es, hrun⟩ := run_sampleState
  have hstored := hrun.step (Step.stored _ sampleJob (.fetched .null) 0 0 rfl)
  have hrow : (storeEffect sampleJob (some .null) (sampleState .taken).assetData).lookup
      sampleJob.assetDataId = some { sampleWrite.row with reindex := some false, metadata := .null } := by
    have hwritten : (sampleState .taken).assetData.lookup sampleJob.assetDataId = some sampleWrite.row :=
      lookup_upsert_self _ _ _
    rw [storeEffect, lookup_update, hwritten, Option.map_some, if_pos ⟨rfl, metadataUrl_sampleWrite⟩]
    rfl
  exact ⟨_, _, _, hstored, hrow, rfl, reindex_exact _ _ _ _ hstored _ _ hrow rfl⟩

end DasIndexer.Grpc.Metadata
