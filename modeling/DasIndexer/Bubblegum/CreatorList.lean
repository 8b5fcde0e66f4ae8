import DasIndexer.Bubblegum.Convergence
import DasIndexer.Dao.CreatorLists

/-!
# The creators of a compressed asset

A mint, an update of the metadata and a verification of a creator each carry the whole creator list, and
write it by position under their sequence number.  Nothing removes the rows of a longer list, and an empty
list is one row without a creator.  Every run of such instructions leaves under each position a newest row
(`latest_creators`), and therefore **`creators_read_back`**: whatever the order and the repetitions, the
reader returns the list of the instruction with the highest sequence number.
-/

namespace DasIndexer.Bubblegum

open Sql LatestRows

/-! ### The list that an instruction carries -/

/-- The creators after an instruction that writes them. -/
def carriedCreators (ix : BubblegumInstruction) : Option (List Creator) :=
  match ix.instruction with
  | .mintV1 | .mintToCollectionV1 | .mintV2 =>
    match ix.payload with
    | some (.mint metadata _ _) => some metadata.creators
    | _ => none
  | .updateMetadata | .updateMetadataV2 =>
    match ix.payload with
    | some (.updateMetadata current update _) => some (update.creators.getD current.creators)
    | _ => none
  | .verifyCreator | .unverifyCreator | .verifyCreatorV2 | .unverifyCreatorV2 =>
    match ix.payload with
    | some (.creatorVerification metadata creator verify) =>
      some (updatedCreators metadata.creators creator verify)
    | _ => none
  | _ => none

/-- An instruction that carries the creators of asset `id`, with the events that its handler asks for.  A
position is an `i16`. -/
structure CreatorEvent (E : Env) (id : Bytes) extends Ingest where
  leaf : LeafSchemaEvent
  log : ChangeLogEventV1
  creators : List Creator
  leafUpdate : ix.leafUpdate = some leaf
  treeUpdate : ix.treeUpdate = some log
  carries : carriedCreators ix = some creators
  asset : (NormalizedLeafFields.from leaf.schema).id.bytes = id
  succeeds : Succeeds E toIngest
  seq_pos : 1 ≤ log.seq
  short : creators.length < 32768

variable {E : Env} {id : Bytes}

namespace CreatorEvent

/-- The slot of the event. -/
def slot (u : CreatorEvent E id) : ℕ := u.bundle.slot

/-- The sequence number of the event. -/
def seq (u : CreatorEvent E id) : ℕ := u.log.seq

end CreatorEvent

/-! ### What one instruction writes -/

/-- The creator rows of a statement. -/
def TableWrite.creatorUpserts : TableWrite → List ((Bytes × ℤ) × Upsert AssetCreatorRow)
  | .creators id cs slot n => creatorRows id cs slot n
  | _ => []

theorem TableWrite.apply_assetCreators (E : Env) (w : TableWrite) (db : Database) :
    (w.apply E db).assetCreators = upsertAll db.assetCreators w.creatorUpserts := by
  cases w <;> rfl

theorem TableWrite.foldl_assetCreators (E : Env) (ws : List TableWrite) (db : Database) :
    (ws.foldl (fun db w => w.apply E db) db).assetCreators
      = upsertAll db.assetCreators (ws.flatMap TableWrite.creatorUpserts) := by
  induction ws generalizing db with
  | nil => rfl
  | cons w ws ih =>
    rw [List.foldl_cons, ih, w.apply_assetCreators, List.flatMap_cons, upsertAll, upsertAll, upsertAll,
      List.foldl_append]

/-- The instructions that carry a list are those of three handlers. -/
theorem handler_of_carries {ix : BubblegumInstruction} {cs : List Creator}
    (h : carriedCreators ix = some cs) :
    (∃ metadata authority treeId, ix.payload = some (.mint metadata authority treeId) ∧
      metadata.creators = cs ∧ ∀ E bundle, plan E ix bundle = mintPlan ix bundle) ∨
    (∃ current update treeId, ix.payload = some (.updateMetadata current update treeId) ∧
      update.creators.getD current.creators = cs ∧
      ∀ E bundle, plan E ix bundle = updateMetadataPlan ix bundle) ∨
    ∃ metadata creator verify, ix.payload = some (.creatorVerification metadata creator verify) ∧
      updatedCreators metadata.creators creator verify = cs ∧
      ∀ E bundle, plan E ix bundle = creatorVerificationPlan ix bundle := by
  cases hname : ix.instruction
  case mintV1 | mintToCollectionV1 | mintV2 =>
    simp only [carriedCreators, hname] at h
    split at h
    · rename_i metadata authority treeId hpayload
      exact Or.inl ⟨metadata, authority, treeId, hpayload, Option.some.inj h, fun E bundle => by
        simp only [plan, hname]⟩
    · exact absurd h (by simp)
  case updateMetadata | updateMetadataV2 =>
    simp only [carriedCreators, hname] at h
    split at h
    · rename_i current update treeId hpayload
      exact Or.inr (Or.inl ⟨current, update, treeId, hpayload, Option.some.inj h, fun E bundle => by
        simp only [plan, hname]⟩)
    · exact absurd h (by simp)
  case verifyCreator | unverifyCreator | verifyCreatorV2 | unverifyCreatorV2 =>
    simp only [carriedCreators, hname] at h
    split at h
    · rename_i metadata creator verify hpayload
      exact Or.inr (Or.inr ⟨metadata, creator, verify, hpayload, Option.some.inj h, fun E bundle => by
        simp only [plan, hname]⟩)
    · exact absurd h (by simp)
  all_goals exact absurd h (by simp [carriedCreators, hname])

/-- The plan of such an instruction writes its list, and no other creators. -/
theorem plan_of_carries (u : CreatorEvent E id) :
    ∃ change ws, plan E u.ix u.bundle = .record change ∧ change.body = .ok ws ∧
      ws.flatMap TableWrite.creatorUpserts = creatorRows id u.creators u.slot u.seq := by
  obtain ⟨metadata, authority, treeId, hpayload, hcs, hplan⟩ |
    ⟨current, update, treeId, hpayload, hcs, hplan⟩ |
    ⟨metadata, creator, verify, hpayload, hcs, hplan⟩ := handler_of_carries u.carries
  · rw [hplan, mintPlan, u.leafUpdate, u.treeUpdate, hpayload]
    refine ⟨_, _, rfl, rfl, ?_⟩
    rw [← hcs, u.asset]
    exact List.append_nil _
  · rw [hplan, updateMetadataPlan, u.leafUpdate, u.treeUpdate, hpayload]
    refine ⟨_, _, rfl, rfl, ?_⟩
    rw [← hcs, u.asset]
    exact List.append_nil _
  · rw [hplan, creatorVerificationPlan, u.leafUpdate, u.treeUpdate, hpayload]
    refine ⟨_, _, rfl, rfl, ?_⟩
    rw [← hcs, u.asset]
    exact List.append_nil _

/-- **One instruction** upserts the rows of its list. -/
theorem ingestEffect_assetCreators (u : CreatorEvent E id) (db : Database) :
    (ingestEffect E u.toIngest db).assetCreators
      = upsertAll db.assetCreators (creatorRows id u.creators u.slot u.seq) := by
  obtain ⟨change, ws, hplan, hbody, hupserts⟩ := plan_of_carries u
  have hgood := good_of_succeeds u.succeeds
  rw [hplan] at hgood
  obtain ⟨⟨tx, hdecode⟩, _⟩ := hgood
  obtain ⟨_, _, _, hlog⟩ := logEffect_eq change.event u.bundle.slot tx (ixStr u.ix.instruction) db
  simp only [ingestEffect, hplan, hdecode, hbody]
  rw [TableWrite.foldl_assetCreators, hupserts, hlog]

/-! ### The rows of a run -/

/-- The row of a creator. -/
def creatorRow (slot seq : ℕ) (c : Creator) : AssetCreatorRow :=
  { creator := c.address.bytes, share := c.share.toNat, verified := c.verified, seq := some (seq : ℤ),
    slotUpdated := some (slot : ℤ) }

/-- The row that stands for an empty list. -/
def noCreator (slot seq : ℕ) : AssetCreatorRow :=
  { creator := [], share := 100, verified := false, seq := some (seq : ℤ), slotUpdated := some (slot : ℤ) }

/-- The rows of an event, by position. -/
def CreatorEvent.rows (u : CreatorEvent E id) : List AssetCreatorRow :=
  if u.creators.isEmpty then [noCreator u.slot u.seq] else u.creators.map (creatorRow u.slot u.seq)

theorem CreatorEvent.map_creatorRows (u : CreatorEvent E id) :
    ((creatorRows id u.creators u.slot u.seq).map fun e => (e.1, e.2.new)) = listed id u.rows := by
  unfold creatorRows rows
  split
  · rfl
  · rw [listed, List.zipIdx_map, List.map_map, List.map_map]
    rfl

/-- Every row carries the stamps of its event. -/
theorem CreatorEvent.of_mem_rows {u : CreatorEvent E id} {r : AssetCreatorRow} (h : r ∈ u.rows) :
    r.seq = some (u.seq : ℤ) ∧ r.slotUpdated = some (u.slot : ℤ) := by
  unfold rows at h
  split at h
  · rw [List.mem_singleton.mp h]
    exact ⟨rfl, rfl⟩
  · obtain ⟨c, _, rfl⟩ := List.mem_map.mp h
    exact ⟨rfl, rfl⟩

/-- The sequence number of a row. -/
def creatorSeq (r : AssetCreatorRow) : ℤ := r.seq.getD 0

/-- The row comes from an instruction, and not from an account. -/
def Sequenced (r : AssetCreatorRow) : Prop := ∃ n : ℤ, r.seq = some n ∧ n ≠ 0

theorem stamped_creatorRows (u : CreatorEvent E id) :
    ∀ e ∈ creatorRows id u.creators u.slot u.seq, Stamped creatorSeq Sequenced e.2 e.2.new := by
  intro e he
  obtain ⟨hseq, hset, hguard⟩ := Represents.creatorRows_stamped e he
  refine ⟨rfl, fun r _ => hset r, fun r hr => ?_, (u.seq : ℤ), hseq, ?_⟩
  · obtain ⟨n, hn, hne⟩ := hr
    rw [hguard, creatorSeq, creatorSeq, hn, hseq]
    exact holds_notOlderNorZero_some hne
  · have := u.seq_pos
    show (u.log.seq : ℤ) ≠ 0
    omega

theorem tablesAfter_append (us : List (CreatorEvent E id)) (u : CreatorEvent E id) :
    tablesAfter E ((us ++ [u]).map CreatorEvent.toIngest)
      = ingestEffect E u.toIngest (tablesAfter E (us.map CreatorEvent.toIngest)) := by
  have hgood : ∀ vs : List (CreatorEvent E id), ∀ i ∈ vs.map CreatorEvent.toIngest, Succeeds E i := by
    intro vs i hi
    obtain ⟨v, _, rfl⟩ := List.mem_map.mp hi
    exact v.succeeds
  rw [tablesAfter_eq_foldl (hgood _), tablesAfter_eq_foldl (hgood us), List.map_append, List.foldl_append]
  rfl

/-- **Every run** leaves a newest row under each position. -/
theorem latest_creators (us : List (CreatorEvent E id)) :
    Latest creatorSeq Sequenced (tablesAfter E (us.map CreatorEvent.toIngest)).assetCreators
      (us.flatMap fun u => listed id u.rows) := by
  induction us using List.reverseRecOn with
  | nil => exact Latest.empty
  | append_singleton us u ih =>
    rw [tablesAfter_append, ingestEffect_assetCreators, List.flatMap_append, List.flatMap_singleton,
      ← u.map_creatorRows]
    exact ih.upsertAll (stamped_creatorRows u)

/-! ### What is read -/

section Read

variable {us : List (CreatorEvent E id)} {u : CreatorEvent E id} (hu : u ∈ us)
  (hmax : ∀ v ∈ us, v.seq ≤ u.seq)
  (hdistinct : ∀ v ∈ us, ∀ w ∈ us, v.seq = w.seq → v = w)

include hu hmax hdistinct

/-- The rows with the highest sequence number are those of its event. -/
theorem stored_iff_mem_newest {pos : ℤ} {r : AssetCreatorRow} :
    (tablesAfter E (us.map CreatorEvent.toIngest)).assetCreators.lookup (id, pos) = some r ∧
      creatorSeq r = u.seq ↔ ∃ i : ℕ, pos = i ∧ u.rows[i]? = some r := by
  have hstamp : ∀ v ∈ us, ∀ r ∈ v.rows, creatorSeq r = (fun v : CreatorEvent E id => (v.seq : ℤ)) v := by
    intro v _ r hr
    rw [creatorSeq, (CreatorEvent.of_mem_rows hr).1, Option.getD_some]
  exact stored_list_iff (latest_creators us) hstamp hu (fun v hv => Int.ofNat_le.mpr (hmax v hv))
    fun v hv heq => hdistinct v hv u hu (Int.ofNat_inj.mp heq)

omit hu hmax hdistinct in
/-- Every stored row is of some event. -/
theorem exists_event_of_stored {pos : ℤ} {r : AssetCreatorRow}
    (h : (tablesAfter E (us.map CreatorEvent.toIngest)).assetCreators.lookup (id, pos) = some r) :
    0 ≤ pos ∧ ∃ v ∈ us, r.seq = some (v.seq : ℤ) ∧ r.slotUpdated = some (v.slot : ℤ) := by
  obtain ⟨v, hv, i, hpos, hi⟩ := exists_of_stored (latest_creators us) h
  refine ⟨by omega, v, hv, CreatorEvent.of_mem_rows (List.mem_of_getElem? hi)⟩

end Read

/-- **The creators read back.**  After any run of such instructions of an asset, the reader returns the list
of the one with the highest sequence number. -/
theorem creators_read_back (E : Env) (id : Bytes) (us : List (CreatorEvent E id))
    (hdistinct : ∀ v ∈ us, ∀ w ∈ us, v.seq = w.seq → v = w)
    (hslots : ∀ v ∈ us, ∀ w ∈ us, v.seq ≤ w.seq → v.slot ≤ w.slot)
    (u : CreatorEvent E id) (hu : u ∈ us) (hmax : ∀ v ∈ us, v.seq ≤ u.seq) :
    (Dao.filterOutStaleCreators (Dao.creatorsOf (tablesAfter E (us.map CreatorEvent.toIngest)) id)).map
        Dao.shownCreator
      = u.creators.map fun c => (c.address.bytes, (c.share.toNat : ℤ), c.verified) := by
  have hstored := @stored_iff_mem_newest _ _ us u hu hmax hdistinct
  cases hempty : u.creators.isEmpty with
  | true =>
    have hrows : u.rows = [noCreator u.slot u.seq] := by rw [CreatorEvent.rows, if_pos hempty]
    have hfirst := (@hstored 0 (noCreator u.slot u.seq)).mpr ⟨0, rfl, by rw [hrows]; rfl⟩
    have hhead := Dao.head_creatorsOf hfirst.1 fun pos r hr => (exists_event_of_stored hr).1
    rw [Dao.filterOutStaleCreators_sentinel hhead rfl, List.isEmpty_iff.mp hempty]
    rfl
  | false =>
    have hrows : u.rows = u.creators.map (creatorRow u.slot u.seq) := by
      rw [CreatorEvent.rows, hempty, if_neg (by simp)]
    rw [@Dao.read_newest _ _ u.rows (some (u.slot : ℤ)) (some (u.seq : ℤ))]
    · have hshown := map_listed (fun r : AssetCreatorRow => (r.creator, r.share, r.verified)) id u.rows
      rw [hrows, List.map_map] at hshown
      rw [hrows]
      exact hshown
    · intro hnil
      rw [hrows, List.map_eq_nil_iff] at hnil
      rw [hnil] at hempty
      exact absurd hempty (by simp)
    · intro r hr
      rw [hrows] at hr
      obtain ⟨c, _, rfl⟩ := List.mem_map.mp hr
      exact c.address.bytes_ne_nil
    · intro pos r
      rw [← hstored]
      constructor
      · intro ⟨hr, _, hseq⟩
        exact ⟨hr, by rw [creatorSeq, hseq, Option.getD_some]⟩
      · intro hr
        obtain ⟨i, _, hi⟩ := hstored.mp hr
        obtain ⟨hseq, hslot⟩ := CreatorEvent.of_mem_rows (List.mem_of_getElem? hi)
        exact ⟨hr.1, hslot, hseq⟩
    · intro pos r hr
      obtain ⟨hpos, v, hv, _, hslot⟩ := exists_event_of_stored hr
      refine ⟨hpos, ?_⟩
      rw [hslot]
      exact Dao.asColumn_some_le.mpr (Int.ofNat_le.mpr (hslots v hv u hu (hmax v hv)))
    · refine Or.inr fun pos r hr _ => ?_
      obtain ⟨_, v, hv, hseq, _⟩ := exists_event_of_stored hr
      rw [hseq]
      refine ⟨fun hzero => ?_, Dao.asColumn_some_le.mpr (Int.ofNat_le.mpr (hmax v hv))⟩
      have hnonzero : (v.seq : ℤ) = 0 := Option.some.inj hzero
      have hpos : 1 ≤ v.seq := v.seq_pos
      omega

/-- Change `seq` of a tree sets the creators of one of its leaves. -/
def sampleCreatorUpdate (seq : ℕ) (creators : List Creator) : Ingest where
  ix :=
    { instruction := .updateMetadata
      treeUpdate := some
        { id := Pubkey.fill 1, path := [⟨Pubkey.fill 9, 1⟩], seq := seq, index := 0 }
      leafUpdate := some ⟨.v1, .v1 (Pubkey.fill 3) (Pubkey.fill 2) (Pubkey.fill 2) 0
        (Pubkey.fill 5) (Pubkey.fill 6), Pubkey.fill 9⟩
      payload := some (.updateMetadata
        { name := "", symbol := "", uri := Sql.Varchar.empty,
          sellerFeeBasisPoints := 0, primarySaleHappened := false,
          isMutable := true, editionNonce := none, collection := none, uses := none, creators := [] }
        { name := none, symbol := none, uri := none, creators := some creators,
          sellerFeeBasisPoints := none, primarySaleHappened := none, isMutable := none } (Pubkey.fill 1)) }
  bundle := sampleBundle

theorem sampleCreatorUpdate_succeeds (seq : ℕ) (creators : List Creator) :
    Succeeds Env.sample (sampleCreatorUpdate seq creators) := by
  have hdec : Base58.decode sampleBundle.txnId = some (List.replicate 64 0) := by decide +kernel
  have hgood : (plan Env.sample (sampleCreatorUpdate seq creators).ix sampleBundle).Good
      sampleBundle.txnId := ⟨⟨_, hdec⟩, _, rfl⟩
  exact (handle_runs (i := sampleCreatorUpdate seq creators) hgood (World.init Database.empty)).1

/-- The same as a creator event. -/
def sampleCreatorEvent (seq : ℕ) (creators : List Creator) (hseq : 1 ≤ seq)
    (hshort : creators.length < 32768) : CreatorEvent Env.sample (Pubkey.fill 3).bytes :=
  { sampleCreatorUpdate seq creators with
    leaf := _
    log := _
    creators
    leafUpdate := rfl
    treeUpdate := rfl
    carries := rfl
    asset := rfl
    succeeds := sampleCreatorUpdate_succeeds seq creators
    seq_pos := hseq
    short := hshort }

/-- Two creators, one of whom is left, out of order and with a repetition. -/
theorem shrunk_list_reads_back :
    let alice : Creator := ⟨Pubkey.fill 7, true, 60⟩
    let bob : Creator := ⟨Pubkey.fill 8, false, 40⟩
    let first := sampleCreatorEvent 1 [alice, bob] (by decide) (by decide)
    let second := sampleCreatorEvent 2 [bob] (by decide) (by decide)
    (Dao.filterOutStaleCreators (Dao.creatorsOf
        (tablesAfter Env.sample ([second, first, second].map CreatorEvent.toIngest))
        (Pubkey.fill 3).bytes)).map Dao.shownCreator = [(bob.address.bytes, 40, false)] := by
  intro alice bob first second
  have hcases : ∀ v ∈ [second, first, second], v = first ∨ v = second := by
    intro v hv
    simp only [List.mem_cons, List.not_mem_nil, or_false] at hv
    tauto
  refine creators_read_back Env.sample _ [second, first, second] ?_ ?_ second (by simp) ?_
  · intro v hv w hw hseq
    rcases hcases v hv with rfl | rfl <;> rcases hcases w hw with rfl | rfl
    · rfl
    · exact absurd hseq (by decide)
    · exact absurd hseq (by decide)
    · rfl
  · intro v hv w hw _
    rcases hcases v hv with rfl | rfl <;> rcases hcases w hw with rfl | rfl <;> exact le_refl _
  · intro v hv
    rcases hcases v hv with rfl | rfl <;> decide

end DasIndexer.Bubblegum
