import DasIndexer.Bubblegum.Atomicity
import DasIndexer.Bubblegum.Cells

/-!
# Bubblegum ingestion converges

Instructions reach the indexer in any order and any number of times.  Each one is a list of cell writes
(`ingestCells`), a run of handlers is a run of the store of cells (`ingestAll_represents`), and the store
is last-writer-wins, so two deliveries of the same instructions end in the same rows: **`ingestAll_congr`**.

The assumptions of a delivery are in `Delivery`.  One more is needed, `OneChangePerStamp`: the handlers
take the asset from the leaf event and its stamp from the change log of the tree, and nothing ties the two
together, so two trees that name the same leaf under the same sequence number overwrite each other.  And
the columns of `upsert_asset_base_info` are left out of account: they go into a new row only, whatever the
stamps say (`orders_diverge` shows both).
-/

namespace DasIndexer.Bubblegum

open Sql LastWriter ProgramTransformerError

/-! ### The path of a change -/

/-- The rows of a path, from level `i` up. -/
def pathEffect (event : ChangeLogEventV1) (depth : ℕ) : ℕ → List PathNode → Database → Database
  | _, [], db => db
  | i, p :: ps, db => pathEffect event depth (i + 1) ps
      (Database.upsertClItem (event.id.bytes, (p.index : ℤ)) (clItem event depth i p) db)

theorem insertPath_runs (event : ChangeLogEventV1) (depth i : ℕ) (ps : List PathNode) :
    Session.Runs (insertPath event depth i ps) fun db => ((), pathEffect event depth i ps db) := by
  induction ps generalizing i with
  | nil => exact Session.Runs.pure ()
  | cons p ps ih => exact Session.Runs.bind (Session.Runs.write _ _) fun _ => ih (i + 1)

/-- The row that an event leaves at a node it passes: that of the first path entry for the node. -/
def nodeRow (event : ChangeLogEventV1) (index : ℕ) (p : PathNode) : ClItemRow :=
  let first := (event.path.zipIdx.find? fun e => e.1.index == index).getD (p, 0)
  (clItem event (event.path.length - 1) first.2 first.1).new

/-- The cell writes of a path. -/
def pathCells (event : ChangeLogEventV1) (ps : List PathNode) : List (Write Cell.Value) :=
  ps.map fun p => ⟨.clItem (event.id.bytes, (p.index : ℤ)), ((event.seq : ℤ), nodeRow event p.index p)⟩

theorem nodeRow_of_first {event : ChangeLogEventV1} {pre ps : List PathNode} {p : PathNode}
    (hpath : event.path = pre ++ p :: ps) (hfirst : ∀ q ∈ pre, q.index ≠ p.index) :
    nodeRow event p.index p = (clItem event (event.path.length - 1) pre.length p).new := by
  have hfind : event.path.zipIdx.find? (fun e => e.1.index == p.index) = some (p, pre.length) := by
    have hpre : pre.zipIdx.find? (fun e => e.1.index == p.index) = none := by
      rw [List.find?_eq_none]
      intro ⟨q, j⟩ hq
      have hmem : q ∈ pre := by
        have := List.mem_zipIdx hq
        grind
      simpa using hfirst q hmem
    rw [hpath, List.zipIdx_append, List.find?_append, hpre, List.zipIdx_cons]
    simp
  simp only [nodeRow, hfind, Option.getD_some]

/-- The row depends on the node only. -/
theorem nodeRow_eq {event : ChangeLogEventV1} {p q : PathNode} (hq : q ∈ event.path)
    (hidx : q.index = p.index) : nodeRow event p.index q = nodeRow event p.index p := by
  obtain ⟨k, hk, rfl⟩ := List.mem_iff_getElem.mp hq
  have hsome : (event.path.zipIdx.find? fun e => e.1.index == p.index).isSome := by
    rw [List.find?_isSome]
    refine ⟨(event.path[k], k), ?_, by simpa using hidx⟩
    rw [List.mem_zipIdx_iff_getElem?]
    exact List.getElem?_eq_getElem hk
  obtain ⟨e, he⟩ := Option.isSome_iff_exists.mp hsome
  simp only [nodeRow, he, Option.getD_some]

section

variable {E : Env} {ver : Bytes → Version} {S : Store Cell.Value} {db : Database}

/-- The rest of a path, the nodes before it being of this change or later. -/
theorem Represents.pathFrom (h : Represents E ver S db) {event : ChangeLogEventV1}
    (pre ps : List PathNode) (hpath : event.path = pre ++ ps)
    (hpre : ∀ q ∈ pre, ∃ x, S (.clItem (event.id.bytes, (q.index : ℤ))) = some x ∧
      (event.seq : ℤ) ≤ x.1) :
    Represents E ver ((pathCells event ps).foldl (put tie) S)
      (pathEffect event (event.path.length - 1) pre.length ps db) := by
  induction ps generalizing pre S db with
  | nil => exact h
  | cons p ps ih =>
    have hstep := h.upsertClItem event (event.path.length - 1) pre.length p
    -- the abstract write carries the row of the node's first entry; it is this row, or it is stale
    have hsame : put tie S ⟨.clItem (event.id.bytes, (p.index : ℤ)),
          ((event.seq : ℤ), nodeRow event p.index p)⟩
        = put tie S ⟨.clItem (event.id.bytes, (p.index : ℤ)),
          ((event.seq : ℤ), (clItem event (event.path.length - 1) pre.length p).new)⟩ := by
      by_cases hfirst : ∀ q ∈ pre, q.index ≠ p.index
      · rw [nodeRow_of_first hpath hfirst]
      · simp only [not_forall, not_not] at hfirst
        obtain ⟨q, hq, hidx⟩ := hfirst
        obtain ⟨x, hx, hle⟩ := hpre q hq
        rw [hidx] at hx
        rw [put_of_stale tie hx _ rfl hle, put_of_stale tie hx _ rfl hle]
    rw [← hsame] at hstep
    have hlen : (pre ++ [p]).length = pre.length + 1 := by simp
    have hrest := ih hstep (pre ++ [p]) (by rw [hpath, List.append_assoc]; rfl) (by
      intro q hq
      rcases List.mem_append.mp hq with hq | hq
      · obtain ⟨x, hx, hle⟩ := hpre q hq
        obtain ⟨y, hy, hxy⟩ := put_le tie hx ⟨.clItem (event.id.bytes, (p.index : ℤ)),
          ((event.seq : ℤ), nodeRow event p.index p)⟩
        exact ⟨y, hy, le_trans hle hxy⟩
      · rw [List.mem_singleton.mp hq]
        exact put_self_le tie S _ _)
    rw [hlen] at hrest
    exact hrest

theorem Represents.path (h : Represents E ver S db) (event : ChangeLogEventV1) :
    Represents E ver ((pathCells event event.path).foldl (put tie) S)
      (pathEffect event (event.path.length - 1) 0 event.path db) :=
  h.pathFrom [] event.path rfl (by simp)

end

/-! ### One instruction -/

/-- An instruction as it is handed to the handler. -/
structure Ingest where
  ix : BubblegumInstruction
  bundle : InstructionBundle
deriving DecidableEq

/-- The handler of an instruction. -/
def Ingest.handle (E : Env) (i : Ingest) : Handler Unit := handleBubblegumInstruction E i.ix i.bundle

/-- Where no statement fails, the handler returns no error. -/
def Succeeds (E : Env) (i : Ingest) : Prop :=
  ((i.handle E).run noFaults (World.init Database.empty)).1 = .ok ()

/-- The effect of a change log that decodes. -/
def logEffect (event : ChangeLogEventV1) (slot : ℕ) (tx : Bytes) (name : String) (db : Database) :
    Database :=
  let db := clAudit event tx (Instruction.fromStr name)
    (pathEffect event (event.path.length - 1) 0 event.path db)
  Database.insertBackfillItem (backfillItem event slot
    (!(db.backfillItems.any fun r => r.tree == event.id.bytes) && decide (1 < event.seq))) db

theorem pathEffect_eq (event : ChangeLogEventV1) (depth i : ℕ) (ps : List PathNode) (db : Database) :
    ∃ t, pathEffect event depth i ps db = { db with clItems := t } := by
  induction ps generalizing i db with
  | nil => exact ⟨_, rfl⟩
  | cons p ps ih =>
    obtain ⟨t, h⟩ := ih (i + 1) (Database.upsertClItem (event.id.bytes, (p.index : ℤ))
      (clItem event depth i p) db)
    exact ⟨t, h⟩

/-- The change log is in tables of its own. -/
theorem logEffect_eq (event : ChangeLogEventV1) (slot : ℕ) (tx : Bytes) (name : String) (db : Database) :
    ∃ items audits backfill, logEffect event slot tx name db
      = { db with clItems := items, clAuditsV2 := audits, backfillItems := backfill } := by
  obtain ⟨t, h⟩ := pathEffect_eq event (event.path.length - 1) 0 event.path db
  rw [logEffect, h]
  exact ⟨_, _, _, rfl⟩

theorem insertChangeLog_runs (event : ChangeLogEventV1) (slot : ℕ) {txnId : String} {tx : Bytes}
    (name : String) (h : Base58.decode txnId = some tx) :
    Session.Runs (insertChangeLog event slot txnId name)
      fun db => ((), logEffect event slot tx name db) := by
  unfold insertChangeLog
  rw [h]
  exact Session.Runs.bind (insertPath_runs event (event.path.length - 1) 0 event.path) fun _ =>
    Session.Runs.bind (Session.Runs.tolerate (Session.Runs.write _ _)) fun _ =>
      Session.Runs.bind (Session.Runs.select _ _) fun _ => Session.Runs.write _ _

theorem TableWrite.stepAll_runs (E : Env) (ws : List TableWrite) :
    Session.Runs (TableWrite.stepAll E ws)
      fun db => ((), ws.foldl (fun db w => w.apply E db) db) := by
  induction ws with
  | nil => exact Session.Runs.pure ()
  | cons w ws ih => exact Session.Runs.bind (Session.Runs.write _ _) fun _ => ih

theorem runBody_runs (E : Env) {change : Change} {ws : List TableWrite}
    (h : change.body = .ok ws) :
    Session.Runs (Plan.runBody E change)
      fun db => ((), ws.foldl (fun db w => w.apply E db) db) := by
  rw [Plan.runBody, h]
  refine Session.Runs.bind (Session.Runs.transaction _ (TableWrite.stepAll_runs E ws))
    (g := fun _ db => ((), db)) fun _ => ?_
  cases change.download with
  | none => exact Session.Runs.pure ()
  | some info => exact Session.Runs.fallible _

/-- A plan that succeeds: it ignores the instruction, or its signature decodes and its body is not
rejected. -/
def Plan.Good (txnId : String) : Plan → Prop
  | ignore => True
  | refuse => False
  | record change => (∃ tx, Base58.decode txnId = some tx) ∧ ∃ ws, change.body = .ok ws

/-- The effect of an instruction, on the database of a run in which nothing fails. -/
def ingestEffect (E : Env) (i : Ingest) (db : Database) : Database :=
  match plan E i.ix i.bundle with
  | .record change =>
    match Base58.decode i.bundle.txnId, change.body with
    | some tx, .ok ws =>
      ws.foldl (fun db w => w.apply E db)
        (logEffect change.event i.bundle.slot tx (ixStr i.ix.instruction) db)
    | _, _ => db
  | _ => db

theorem good_of_succeeds {E : Env} {i : Ingest} (h : Succeeds E i) :
    (plan E i.ix i.bundle).Good i.bundle.txnId := by
  unfold Succeeds Ingest.handle at h
  rw [handleBubblegumInstruction_eq] at h
  cases hplan : plan E i.ix i.bundle with
  | ignore => trivial
  | refuse =>
    rw [hplan] at h
    exact absurd h (by simp [Plan.run, notParsed, Session.throw])
  | record change =>
    rw [hplan] at h
    cases hdec : Base58.decode i.bundle.txnId with
    | none =>
      obtain ⟨e, w', herr, _⟩ := insertChangeLog_undecodable change.event i.bundle.slot
        i.bundle.txnId (ixStr i.ix.instruction) noFaults Database.empty (fun _ _ => rfl) hdec
      rw [Plan.run, Session.run_bind_error herr] at h
      exact absurd h (by simp)
    | some tx =>
      refine ⟨⟨tx, hdec⟩, ?_⟩
      cases hbody : change.body with
      | ok ws => exact ⟨ws, rfl⟩
      | error e =>
        obtain ⟨hok, _⟩ := insertChangeLog_runs change.event i.bundle.slot
          (ixStr i.ix.instruction) hdec (World.init Database.empty)
        rw [Plan.run, Session.run_bind] at h
        rcases hrun : (insertChangeLog change.event i.bundle.slot i.bundle.txnId
          (ixStr i.ix.instruction)).run noFaults (World.init Database.empty) with ⟨r, w'⟩
        rw [hrun] at hok h
        have hr : r = .ok () := hok
        subst hr
        exact absurd h (by simp [Plan.runBody, hbody, Session.throw])

theorem handle_runs {E : Env} {i : Ingest} (h : (plan E i.ix i.bundle).Good i.bundle.txnId) :
    Session.Runs (i.handle E) fun db => ((), ingestEffect E i db) := by
  unfold Ingest.handle ingestEffect
  rw [handleBubblegumInstruction_eq]
  cases hplan : plan E i.ix i.bundle with
  | ignore => exact Session.Runs.pure ()
  | refuse =>
    rw [hplan] at h
    exact absurd h id
  | record change =>
    rw [hplan] at h
    obtain ⟨⟨tx, hdec⟩, ws, hbody⟩ := h
    simp only [hdec, hbody]
    exact Session.Runs.bind (insertChangeLog_runs change.event i.bundle.slot _ hdec)
      fun _ => runBody_runs E hbody

/-- The cell writes of an instruction. -/
def ingestCells (E : Env) (i : Ingest) : List (Write Cell.Value) :=
  match plan E i.ix i.bundle with
  | .record change =>
    match Base58.decode i.bundle.txnId, change.body with
    | some tx, .ok ws =>
      pathCells change.event change.event.path
        ++ (⟨.clAudit (change.event.id.bytes, (change.event.index : ℤ), (change.event.seq : ℤ)),
            (0, { tx, instruction := Instruction.fromStr (ixStr i.ix.instruction) })⟩
          :: ws.flatMap TableWrite.cells)
    | _, _ => []
  | _ => []

section

variable {E : Env} {ver : Bytes → Version} {S : Store Cell.Value} {db : Database}

theorem Represents.insertBackfillItem (h : Represents E ver S db) (row : BackfillItemRow) :
    Represents E ver S (Database.insertBackfillItem row db) where
  valid := h.valid
  covered := h.covered
  clItems := h.clItems
  clAudits := h.clAudits
  data := h.data
  creators := h.creators
  collections := h.collections
  groups := h.groups
  authorities := h.authorities
  assets := h.assets

theorem Represents.writes (h : Represents E ver S db) {id : Bytes} {n : ℤ} (hn : n ≠ 0)
    {ws : List TableWrite} (hfits : ∀ w ∈ ws, w.Fits id n)
    (hver : ∀ id' l n', TableWrite.leafInfo id' l n' ∈ ws → l.version = ver id) :
    Represents E ver ((ws.flatMap TableWrite.cells).foldl (put tie) S)
      (ws.foldl (fun db w => w.apply E db) db) := by
  induction ws generalizing S db with
  | nil => exact h
  | cons w ws ih =>
    rw [List.flatMap_cons, List.foldl_append, List.foldl_cons]
    refine ih (h.write hn (hfits w List.mem_cons_self) ?_) ?_ ?_
    · intro id' l n' hw
      exact hver id' l n' (hw ▸ List.mem_cons_self)
    · exact fun w' hw' => hfits w' (List.mem_cons_of_mem _ hw')
    · exact fun id' l n' hmem => hver id' l n' (List.mem_cons_of_mem _ hmem)

/-- **The effect of an instruction is its cell writes.** -/
theorem Represents.ingest (h : Represents E ver S db) {i : Ingest}
    (hseq : ∀ cl, i.ix.treeUpdate = some cl → 1 ≤ cl.seq)
    (hver : ∀ id v, assetOf E i.ix = some id → leafVersion i.ix = some v → v = ver id) :
    Represents E ver ((ingestCells E i).foldl (put tie) S) (ingestEffect E i db) := by
  unfold ingestCells ingestEffect
  cases hplan : plan E i.ix i.bundle with
  | ignore => exact h
  | refuse => exact h
  | record change =>
    have hof := plan_ofInstruction hplan
    cases hdec : Base58.decode i.bundle.txnId with
    | none => exact h
    | some tx =>
      cases hbody : change.body with
      | error e =>
        simp only [hbody]
        exact h
      | ok ws =>
        have hn : (change.event.seq : ℤ) ≠ 0 := by
          have := hseq _ hof.event
          omega
        simp only [hbody, List.foldl_append, List.foldl_cons]
        refine Represents.writes ?_ hn (hof.fits ws hbody) fun id' l n' hmem => ?_
        · exact ((h.path change.event).upsertClAudit).insertBackfillItem _
        · exact hver _ _ hof.asset (hof.version ws hbody id' l n' hmem)

end

/-! ### A run -/

/-- Handle instructions one after the other. -/
def ingestAll (E : Env) : List Ingest → Handler Unit
  | [] => pure ()
  | i :: is => do
    i.handle E
    ingestAll E is

/-- The tables after a run from empty tables in which no statement fails. -/
def tablesAfter (E : Env) (is : List Ingest) : Database :=
  ((ingestAll E is).run noFaults (World.init Database.empty)).2.db

theorem ingestAll_runs {E : Env} {is : List Ingest}
    (h : ∀ i ∈ is, (plan E i.ix i.bundle).Good i.bundle.txnId) :
    Session.Runs (ingestAll E is)
      fun db => ((), is.foldl (fun db i => ingestEffect E i db) db) := by
  induction is with
  | nil => exact Session.Runs.pure ()
  | cons i is ih =>
    exact Session.Runs.bind (handle_runs (h i List.mem_cons_self))
      fun _ => ih fun j hj => h j (List.mem_cons_of_mem _ hj)

theorem tablesAfter_eq_foldl {E : Env} {is : List Ingest} (h : ∀ i ∈ is, Succeeds E i) :
    tablesAfter E is = is.foldl (fun db i => ingestEffect E i db) Database.empty :=
  (ingestAll_runs (fun i hi => good_of_succeeds (h i hi)) (World.init Database.empty)).2

/-- A run of handlers is a run of the store. -/
theorem ingestAll_represents {E : Env} {ver : Bytes → Version} {is : List Ingest}
    (hgood : ∀ i ∈ is, Succeeds E i)
    (hseq : ∀ i ∈ is, ∀ cl, i.ix.treeUpdate = some cl → 1 ≤ cl.seq)
    (hver : ∀ i ∈ is, ∀ id v, assetOf E i.ix = some id → leafVersion i.ix = some v → v = ver id) :
    Represents E ver (run tie (ingestCells E) (fun _ => none) is) (tablesAfter E is) := by
  rw [tablesAfter_eq_foldl hgood]
  have hfold : ∀ (S : Store Cell.Value) (db : Database), Represents E ver S db →
      Represents E ver (run tie (ingestCells E) S is)
        (is.foldl (fun db i => ingestEffect E i db) db) := by
    clear hgood
    induction is with
    | nil => exact fun S db h => h
    | cons i is ih =>
      intro S db h
      exact ih (fun j hj => hseq j (List.mem_cons_of_mem _ hj))
        (fun j hj => hver j (List.mem_cons_of_mem _ hj)) _ _
        (h.ingest (hseq i List.mem_cons_self) (hver i List.mem_cons_self))
  exact hfold _ _ (Represents.empty E ver)

/-! ### Where a cell write comes from -/

/-- The audit cell of a change. -/
def auditCell (i : Ingest) (event : ChangeLogEventV1) (tx : Bytes) : Write Cell.Value :=
  ⟨.clAudit (event.id.bytes, (event.index : ℤ), (event.seq : ℤ)),
    (0, { tx, instruction := Instruction.fromStr (ixStr i.ix.instruction) })⟩

theorem mem_ingestCells {E : Env} {i : Ingest} {v : Write Cell.Value} (h : v ∈ ingestCells E i) :
    ∃ change tx ws, change.OfInstruction E i.ix ∧ change.body = .ok ws ∧
      (v ∈ pathCells change.event change.event.path ∨ v = auditCell i change.event tx ∨
        ∃ w ∈ ws, v ∈ w.cells) ∧
      plan E i.ix i.bundle = .record change ∧ Base58.decode i.bundle.txnId = some tx := by
  unfold ingestCells at h
  cases hplan : plan E i.ix i.bundle with
  | ignore => simp [hplan] at h
  | refuse => simp [hplan] at h
  | record change =>
    rw [hplan] at h
    cases hdec : Base58.decode i.bundle.txnId with
    | none => simp [hdec] at h
    | some tx =>
      cases hbody : change.body with
      | error e => simp [hdec, hbody] at h
      | ok ws =>
        simp only [hdec, hbody, List.mem_append, List.mem_cons, List.mem_flatMap] at h
        exact ⟨change, tx, ws, plan_ofInstruction hplan, hbody, h, rfl, rfl⟩

/-- The column group that a cell belongs to. -/
def Cell.kind : Cell → Option TableWrite.Kind
  | .data _ => some .data
  | .creator _ => some .creators
  | .collection _ => some .collection
  | .authority _ => some .authority
  | .leaf _ => some .leafInfo
  | .owner _ => some .ownerAndDelegate
  | .seq _ => some .seq
  | .burnt _ => some .burnt
  | .compression _ => some .compression
  | .row _ | .clItem _ | .clAudit _ => none

/-- The asset that a cell belongs to. -/
def Cell.asset : Cell → Option Bytes
  | .data id | .collection id | .authority id | .leaf id | .owner id | .seq id | .burnt id
  | .compression id | .row id => some id
  | .creator k => some k.1
  | .clItem _ | .clAudit _ => none

/-- Cells whose content does not depend on the instruction that writes them. -/
def Cell.constant : Cell → Bool
  | .row _ | .burnt _ | .compression _ => true
  | _ => false

theorem creatorRows_key {id : Bytes} {cs : List Creator} {slot n : ℤ} :
    ∀ e ∈ creatorRows id cs slot n, e.1.1 = id := by
  intro e he
  unfold creatorRows at he
  split at he
  · rw [List.mem_singleton] at he
    rw [he]
  · obtain ⟨c, _, rfl⟩ := List.mem_map.mp he
    rfl

theorem creatorRows_inj {id : Bytes} {cs : List Creator} {slot n : ℤ}
    {e e' : (Bytes × ℤ) × Upsert AssetCreatorRow} (he : e ∈ creatorRows id cs slot n)
    (he' : e' ∈ creatorRows id cs slot n) (hkey : e.1 = e'.1) : e = e' := by
  unfold creatorRows at he he'
  by_cases hempty : cs.isEmpty = true
  · rw [if_pos hempty, List.mem_singleton] at he he'
    rw [he, he']
  · rw [if_neg hempty] at he he'
    obtain ⟨⟨c, j⟩, hc, rfl⟩ := List.mem_map.mp he
    obtain ⟨⟨c', j'⟩, hc', rfl⟩ := List.mem_map.mp he'
    have hj : j = j' := by simpa using hkey
    subst hj
    have hget := List.mem_zipIdx_iff_getElem?.mp hc
    have hget' := List.mem_zipIdx_iff_getElem?.mp hc'
    have hcc : c = c' := Option.some.inj (hget.symm.trans hget')
    rw [hcc]

namespace TableWrite

variable {w : TableWrite} {c : Cell}

/-- The cells of a statement are the row's presence and one cell of its own group, of its own asset and
with its own stamp. -/
theorem mem_cells {id : Bytes} {n : ℤ} (hfits : w.Fits id n) {x : ℤ × c.Value}
    (h : (⟨c, x⟩ : Write Cell.Value) ∈ w.cells) :
    c.asset = some id ∧ (c.constant = true → x.1 = 0) ∧
      (c.kind = none ∨ c.kind = some w.kind) ∧
      (c.constant = false → c.kind ≠ some .authority → x.1 = n) := by
  cases w with
  | creators id' cs slot n' =>
    obtain ⟨rfl, rfl⟩ := hfits
    obtain ⟨e, he, heq⟩ := List.mem_map.mp h
    cases heq
    exact ⟨congrArg some (creatorRows_key e he), by simp [Cell.constant], Or.inr rfl, fun _ _ => rfl⟩
  | authority id' a slot n' =>
    obtain rfl := hfits
    rw [cells, List.mem_singleton] at h
    cases h
    exact ⟨rfl, by simp [Cell.constant], Or.inr rfl, by simp [Cell.kind]⟩
  | data id' row n' =>
    obtain ⟨rfl, rfl, _⟩ := hfits
    rw [cells, List.mem_singleton] at h
    cases h
    exact ⟨rfl, by simp [Cell.constant], Or.inr rfl, fun _ _ => rfl⟩
  | collection id' col slot n' =>
    obtain ⟨rfl, rfl⟩ := hfits
    rw [cells, List.mem_singleton] at h
    cases h
    exact ⟨rfl, by simp [Cell.constant], Or.inr rfl, fun _ _ => rfl⟩
  | compression id' | burnt id' =>
    obtain rfl := hfits
    rw [cells, List.mem_cons, List.mem_singleton] at h
    rcases h with h | h <;> cases h
    · exact ⟨rfl, fun _ => rfl, Or.inl rfl, by simp [Cell.constant]⟩
    · exact ⟨rfl, fun _ => rfl, Or.inr rfl, by simp [Cell.constant]⟩
  | baseInfo id' b slot n' =>
    obtain ⟨rfl, rfl⟩ := hfits
    rw [cells, List.mem_singleton] at h
    cases h
    exact ⟨rfl, fun _ => rfl, Or.inl rfl, by simp [Cell.constant]⟩
  | leafInfo id' l n' | ownerAndDelegate id' owner delegate n' | seq id' n' =>
    obtain ⟨rfl, rfl⟩ := hfits
    rw [cells, List.mem_cons, List.mem_singleton] at h
    rcases h with h | h <;> cases h
    · exact ⟨rfl, fun _ => rfl, Or.inl rfl, by simp [Cell.constant]⟩
    · exact ⟨rfl, by simp [Cell.constant], Or.inr rfl, fun _ _ => rfl⟩

/-- A statement writes a cell once. -/
theorem cells_unique {x y : ℤ × c.Value} (hx : (⟨c, x⟩ : Write Cell.Value) ∈ w.cells)
    (hy : (⟨c, y⟩ : Write Cell.Value) ∈ w.cells) : x = y := by
  cases w with
  | creators id cs slot n =>
    obtain ⟨e, he, heq⟩ := List.mem_map.mp hx
    obtain ⟨e', he', heq'⟩ := List.mem_map.mp hy
    cases heq
    have hkey : e'.1 = e.1 := by
      have := congrArg Sigma.fst heq'
      simpa using this
    obtain rfl := creatorRows_inj he' he hkey
    exact (eq_of_heq (Sigma.mk.inj heq').2)
  | data | authority | collection | baseInfo =>
    rw [cells, List.mem_singleton] at hx hy
    cases hx
    exact (eq_of_heq (Sigma.mk.inj hy).2).symm
  | _ =>
    rw [cells, List.mem_cons, List.mem_singleton] at hx hy
    rcases hx with hx | hx <;> cases hx <;> rcases hy with hy | hy <;> cases hy <;> rfl

end TableWrite

/-- What the cell and the stamp of a write tell about the instruction that made it. -/
def Origin (E : Env) (ix : BubblegumInstruction) (cl : ChangeLogEventV1) : Cell → ℤ → Prop
  | .clItem k, n => k.1 = cl.id.bytes ∧ n = cl.seq
  | .clAudit k, _ => k.1 = cl.id.bytes ∧ k.2.2 = cl.seq
  | .authority id, _ => assetOf E ix = some id ∧ ix.instruction.isMint = true
  | .row _, _ | .burnt _, _ | .compression _, _ => True
  | .creator k, n => assetOf E ix = some k.1 ∧ n = cl.seq
  | .data id, n | .collection id, n | .leaf id, n | .owner id, n | .seq id, n =>
    assetOf E ix = some id ∧ n = cl.seq

theorem origin_of_mem {E : Env} {i : Ingest} {c : Cell} {x : ℤ × c.Value}
    (h : (⟨c, x⟩ : Write Cell.Value) ∈ ingestCells E i) :
    ∃ cl, i.ix.treeUpdate = some cl ∧ Origin E i.ix cl c x.1 := by
  obtain ⟨change, tx, ws, hof, hbody, hfrom, _, _⟩ := mem_ingestCells h
  refine ⟨change.event, hof.event, ?_⟩
  rcases hfrom with hp | ha | ⟨w, hw, hmem⟩
  · obtain ⟨p, _, hp⟩ := List.mem_map.mp hp
    cases hp
    exact ⟨rfl, rfl⟩
  · cases ha
    exact ⟨rfl, rfl⟩
  · obtain ⟨hasset, _, hkind, hn⟩ := TableWrite.mem_cells (hof.fits ws hbody w hw) hmem
    have hid := hof.asset
    rw [← hasset] at hid
    cases c with
    | authority id =>
      refine ⟨hid, ?_⟩
      cases w with
      | authority id' a slot n => exact hof.authority ws hbody id' a slot n hw
      | _ => simp [Cell.kind, TableWrite.kind] at hkind
    | row | burnt | compression => trivial
    | clItem | clAudit => simp [Cell.asset] at hasset
    | _ => exact ⟨hid, hn rfl (by simp [Cell.kind])⟩

/-- Two writes of one instruction to one cell are the same write. -/
theorem ingestCells_unique {E : Env} {i : Ingest} {c : Cell} {x y : ℤ × c.Value}
    (hx : (⟨c, x⟩ : Write Cell.Value) ∈ ingestCells E i)
    (hy : (⟨c, y⟩ : Write Cell.Value) ∈ ingestCells E i) : x = y := by
  obtain ⟨change, tx, ws, hof, hbody, hfrom, hplan, hdec⟩ := mem_ingestCells hx
  obtain ⟨change', tx', ws', _, hbody', hfrom', hplan', hdec'⟩ := mem_ingestCells hy
  obtain rfl : change' = change := Plan.record.inj (hplan'.symm.trans hplan)
  obtain rfl : tx' = tx := Option.some.inj (hdec'.symm.trans hdec)
  obtain rfl : ws' = ws := Except.ok.inj (hbody'.symm.trans hbody)
  have hnotPath : ∀ w ∈ ws', ∀ (z : ℤ × c.Value), (⟨c, z⟩ : Write Cell.Value) ∈ w.cells →
      c.asset ≠ none := by
    intro w hw z hz
    rw [(TableWrite.mem_cells (hof.fits ws' hbody w hw) hz).1]
    simp
  rcases hfrom with hx | hx | ⟨w, hw, hx⟩ <;> rcases hfrom' with hy | hy | ⟨w', hw', hy⟩
  · obtain ⟨p, _, hp⟩ := List.mem_map.mp hx
    obtain ⟨q, hq, hqeq⟩ := List.mem_map.mp hy
    cases hp
    have hidx : q.index = p.index := by
      have := congrArg Sigma.fst hqeq
      simpa using this
    have hrow : nodeRow change'.event q.index q = nodeRow change'.event p.index p := by
      rw [hidx]
      exact nodeRow_eq hq hidx
    have hval := eq_of_heq (Sigma.mk.inj hqeq).2
    rw [← hval, hrow]
  · obtain ⟨p, _, hp⟩ := List.mem_map.mp hx
    cases hp
    exact absurd (Sigma.mk.inj hy).1 (by simp)
  · obtain ⟨p, _, hp⟩ := List.mem_map.mp hx
    cases hp
    exact absurd rfl (hnotPath w' hw' y hy)
  · obtain ⟨p, _, hp⟩ := List.mem_map.mp hy
    cases hp
    exact absurd (Sigma.mk.inj hx).1 (by simp)
  · cases hx
    exact (eq_of_heq (Sigma.mk.inj hy).2).symm
  · cases hx
    exact absurd rfl (hnotPath w' hw' y hy)
  · obtain ⟨p, _, hp⟩ := List.mem_map.mp hy
    cases hp
    exact absurd rfl (hnotPath w hw x hx)
  · cases hy
    exact absurd rfl (hnotPath w hw x hx)
  · obtain ⟨_, hzero, hkind, _⟩ := TableWrite.mem_cells (hof.fits ws' hbody w hw) hx
    obtain ⟨_, hzero', hkind', _⟩ := TableWrite.mem_cells (hof.fits ws' hbody w' hw') hy
    cases hk : c.kind with
    | none =>
      cases c with
      | row id => exact Prod.ext ((hzero rfl).trans (hzero' rfl).symm) rfl
      | clItem k => exact absurd rfl (hnotPath w hw x hx)
      | clAudit k => exact absurd rfl (hnotPath w hw x hx)
      | _ => simp [Cell.kind] at hk
    | some k =>
      have hw1 : w.kind = k := by simpa [hk, eq_comm] using hkind
      have hw2 : w'.kind = k := by simpa [hk, eq_comm] using hkind'
      obtain rfl : w = w' :=
        List.inj_on_of_nodup_map (hof.kinds ws' hbody) hw hw' (hw1.trans hw2.symm)
      exact TableWrite.cells_unique hx hy

/-! ### Convergence -/

/-- What is assumed of a delivery: the handlers succeed; sequence numbers start at one; a sequence number
of a tree is one instruction; the leaves of an asset have one schema version; an asset is minted once. -/
structure Delivery (E : Env) (is : List Ingest) : Prop where
  succeeds : ∀ i ∈ is, Succeeds E i
  seq_pos : ∀ i ∈ is, ∀ cl, i.ix.treeUpdate = some cl → 1 ≤ cl.seq
  one_change : ∀ i ∈ is, ∀ j ∈ is, ∀ cl cl', i.ix.treeUpdate = some cl →
    j.ix.treeUpdate = some cl' → cl.id = cl'.id → cl.seq = cl'.seq → i = j
  one_version : ∀ i ∈ is, ∀ j ∈ is, ∀ id v v', assetOf E i.ix = some id →
    assetOf E j.ix = some id → leafVersion i.ix = some v → leafVersion j.ix = some v' → v = v'
  one_mint : ∀ i ∈ is, ∀ j ∈ is, ∀ id, assetOf E i.ix = some id → assetOf E j.ix = some id →
    i.ix.instruction.isMint = true → j.ix.instruction.isMint = true → i = j

/-- Two instructions that write one asset under one sequence number are the same instruction. -/
def OneChangePerStamp (E : Env) (is : List Ingest) : Prop :=
  ∀ i ∈ is, ∀ j ∈ is, ∀ id cl cl', assetOf E i.ix = some id → assetOf E j.ix = some id →
    i.ix.treeUpdate = some cl → j.ix.treeUpdate = some cl' → cl.seq = cl'.seq → i = j

/-- The rows of the change-log and asset tables agree, apart from the columns of `asset` that
`upsert_asset_base_info` writes. -/
structure SameRows (db db' : Database) : Prop where
  clItems : ∀ k, db.clItems.lookup k = db'.clItems.lookup k
  clAuditsV2 : ∀ k, db.clAuditsV2.lookup k = db'.clAuditsV2.lookup k
  assetData : ∀ id, db.assetData.lookup id = db'.assetData.lookup id
  assetCreators : ∀ k, db.assetCreators.lookup k = db'.assetCreators.lookup k
  assetGrouping : ∀ k, db.assetGrouping.lookup k = db'.assetGrouping.lookup k
  assetAuthority : ∀ id, db.assetAuthority.lookup id = db'.assetAuthority.lookup id
  asset : ∀ id, (db.asset.lookup id).map AssetRow.withoutBaseInfo
    = (db'.asset.lookup id).map AssetRow.withoutBaseInfo

theorem Delivery.exists_version {E : Env} {is : List Ingest} (h : Delivery E is) :
    ∃ ver : Bytes → Version, ∀ i ∈ is, ∀ id v, assetOf E i.ix = some id →
      leafVersion i.ix = some v → v = ver id := by
  classical
  refine ⟨fun id => if hid : ∃ v, ∃ j ∈ is, assetOf E j.ix = some id ∧ leafVersion j.ix = some v
    then hid.choose else .v1, ?_⟩
  intro i hi id v hasset hv
  have hid : ∃ v, ∃ j ∈ is, assetOf E j.ix = some id ∧ leafVersion j.ix = some v :=
    ⟨v, i, hi, hasset, hv⟩
  obtain ⟨j, hj, hasset', hv'⟩ := hid.choose_spec
  simp only [dif_pos hid]
  exact h.one_version i hi j hj id v _ hasset hasset' hv hv'

/-- Two writes of a delivery to one cell under one stamp agree. -/
theorem Delivery.consistent {E : Env} {is : List Ingest} (h : Delivery E is)
    (hstamp : OneChangePerStamp E is) (c : Cell) :
    Consistent (writesTo c (is.flatMap (ingestCells E))) := by
  intro x hx y hy hxy
  rw [mem_writesTo, List.mem_flatMap] at hx hy
  obtain ⟨i, hi, hx⟩ := hx
  obtain ⟨j, hj, hy⟩ := hy
  -- enough: the two writes come from one instruction, or the cell is constant
  suffices hsame : i = j ∨ c.constant = true by
    rcases hsame with rfl | hconst
    · exact ingestCells_unique hx hy
    · have hunit : ∀ u v : c.Value, u = v := by
        cases c with
        | row | burnt | compression => exact fun _ _ => rfl
        | _ => simp [Cell.constant] at hconst
      exact Prod.ext hxy (hunit _ _)
  obtain ⟨cl, hcl, hox⟩ := origin_of_mem hx
  obtain ⟨cl', hcl', hoy⟩ := origin_of_mem hy
  cases c with
  | clItem k =>
    obtain ⟨htree, hseq⟩ := hox
    obtain ⟨htree', hseq'⟩ := hoy
    left
    refine h.one_change i hi j hj cl cl' hcl hcl' (Pubkey.bytes_inj (htree.symm.trans htree')) ?_
    omega
  | clAudit k =>
    obtain ⟨htree, hseq⟩ := hox
    obtain ⟨htree', hseq'⟩ := hoy
    left
    refine h.one_change i hi j hj cl cl' hcl hcl' (Pubkey.bytes_inj (htree.symm.trans htree')) ?_
    omega
  | authority id => exact Or.inl (h.one_mint i hi j hj id hox.1 hoy.1 hox.2 hoy.2)
  | row | burnt | compression => exact Or.inr rfl
  | _ =>
    obtain ⟨hasset, hseq⟩ := hox
    obtain ⟨hasset', hseq'⟩ := hoy
    left
    refine hstamp i hi j hj _ cl cl' hasset hasset' hcl hcl' ?_
    omega

/-- Tables that represent one store have the same rows. -/
theorem Represents.sameRows {E : Env} {ver : Bytes → Version} {S : Store Cell.Value}
    {db db' : Database} (h : Represents E ver S db) (h' : Represents E ver S db') :
    SameRows db db' where
  clItems k := (h.clItems k).trans (h'.clItems k).symm
  clAuditsV2 k := (h.clAudits k).trans (h'.clAudits k).symm
  assetData id := (h.data id).trans (h'.data id).symm
  assetCreators k := (h.creators k).trans (h'.creators k).symm
  assetGrouping k := by
    cases k with
    | collection id => exact (h.collections id).trans (h'.collections id).symm
    | group id v => exact (h.groups id v).trans (h'.groups id v).symm
  assetAuthority id := (h.authorities id).trans (h'.authorities id).symm
  asset id := (h.assets id).trans (h'.assets id).symm

/-- **Ingestion converges**: two deliveries of the same instructions, in any order and with any
repetition, end in the same rows. -/
theorem ingestAll_congr (E : Env) (is js : List Ingest) (h : Delivery E is)
    (hstamp : OneChangePerStamp E is) (hmem : ∀ i, i ∈ is ↔ i ∈ js) :
    SameRows (tablesAfter E is) (tablesAfter E js) := by
  obtain ⟨ver, hver⟩ := h.exists_version
  have his := ingestAll_represents h.succeeds h.seq_pos hver
  have hjs := ingestAll_represents (fun i hi => h.succeeds i ((hmem i).mpr hi))
    (fun i hi => h.seq_pos i ((hmem i).mpr hi)) (fun i hi => hver i ((hmem i).mpr hi))
  rw [run_congr tie (ingestCells E) hmem (h.consistent hstamp)] at his
  exact his.sameRows hjs

/-- A transfer of leaf 0 of a one-leaf tree: the leaf goes to `owner` in change `seq` of `tree`. -/
def sampleTransfer (tree : UInt8) (seq : ℕ) (owner : UInt8) : Ingest where
  ix :=
    { instruction := .transfer
      treeUpdate := some
        { id := Pubkey.fill tree, path := [⟨Pubkey.fill owner, 1⟩], seq := seq, index := 0 }
      leafUpdate := some ⟨.v1, .v1 (Pubkey.fill 3) (Pubkey.fill owner) (Pubkey.fill owner) 0
        (Pubkey.fill 5) (Pubkey.fill 6), Pubkey.fill owner⟩ }
  bundle := sampleBundle

/-- Two distinct changes of one asset, not both mints, form a delivery. -/
theorem delivery_of_two {a b : Ingest} (ha : Succeeds Env.sample a)
    (hb : Succeeds Env.sample b)
    (hpos : ∀ i ∈ [a, b], ∀ cl, i.ix.treeUpdate = some cl → 1 ≤ cl.seq)
    (hne : ∀ cl cl', a.ix.treeUpdate = some cl → b.ix.treeUpdate = some cl' →
      ¬ (cl.id = cl'.id ∧ cl.seq = cl'.seq))
    (hver : leafVersion a.ix = some .v1 ∧ leafVersion b.ix = some .v1)
    (hmint : a.ix.instruction.isMint = false ∨ b.ix.instruction.isMint = false) :
    Delivery Env.sample [a, b] := by
  have hcases : ∀ i ∈ [a, b], i = a ∨ i = b := by simp
  refine ⟨?_, hpos, ?_, ?_, ?_⟩
  · intro i hi
    rcases hcases i hi with rfl | rfl <;> assumption
  · intro i hi j hj cl cl' hcl hcl' hid hseq
    rcases hcases i hi with rfl | rfl <;> rcases hcases j hj with rfl | rfl
    · rfl
    · exact absurd ⟨hid, hseq⟩ (hne cl cl' hcl hcl')
    · exact absurd ⟨hid.symm, hseq.symm⟩ (hne cl' cl hcl' hcl)
    · rfl
  · intro i hi j hj id v v' _ _ hv hv'
    have hall : ∀ i ∈ [a, b], leafVersion i.ix = some .v1 := by
      intro k hk
      rcases hcases k hk with rfl | rfl
      · exact hver.1
      · exact hver.2
    exact Option.some.inj (hv.symm.trans ((hall i hi).trans ((hall j hj).symm.trans hv')))
  · intro i hi j hj id _ _ hmi hmj
    rcases hcases i hi with rfl | rfl <;> rcases hcases j hj with rfl | rfl
    · rfl
    · simp [hmi, hmj] at hmint
    · simp [hmi, hmj] at hmint
    · rfl

theorem sampleTransfer_succeeds (tree : UInt8) (seq : ℕ) (owner : UInt8) :
    Succeeds Env.sample (sampleTransfer tree seq owner) := by
  have hdec : Base58.decode sampleBundle.txnId = some (List.replicate 64 0) := by decide +kernel
  have hgood : (plan Env.sample (sampleTransfer tree seq owner).ix sampleBundle).Good
      sampleBundle.txnId := ⟨⟨_, hdec⟩, _, rfl⟩
  exact (handle_runs (i := sampleTransfer tree seq owner) hgood (World.init Database.empty)).1

/-- Two changes of one tree, in order and then out of order with a repetition. -/
theorem two_transfers_congr :
    Delivery Env.sample [sampleTransfer 1 1 10, sampleTransfer 1 2 11] ∧
    OneChangePerStamp Env.sample [sampleTransfer 1 1 10, sampleTransfer 1 2 11] ∧
    SameRows (tablesAfter Env.sample [sampleTransfer 1 1 10, sampleTransfer 1 2 11])
      (tablesAfter Env.sample
        [sampleTransfer 1 2 11, sampleTransfer 1 1 10, sampleTransfer 1 2 11]) := by
  have hdel : Delivery Env.sample [sampleTransfer 1 1 10, sampleTransfer 1 2 11] := by
    refine delivery_of_two (sampleTransfer_succeeds 1 1 10) (sampleTransfer_succeeds 1 2 11) ?_
      ?_ ⟨rfl, rfl⟩ (.inl rfl)
    · simp [sampleTransfer]
    · simp [sampleTransfer]
  have hstamp : OneChangePerStamp Env.sample [sampleTransfer 1 1 10, sampleTransfer 1 2 11] := by
    intro i hi j hj id cl cl' _ _ hcl hcl' hseq
    simp only [List.mem_cons, List.not_mem_nil, or_false] at hi hj
    rcases hi with rfl | rfl <;> rcases hj with rfl | rfl
    · rfl
    · cases hcl
      cases hcl'
      simp at hseq
    · cases hcl
      cases hcl'
      simp at hseq
    · rfl
  refine ⟨hdel, hstamp, ingestAll_congr Env.sample _ _ hdel hstamp ?_⟩
  intro i
  simp only [List.mem_cons, List.not_mem_nil, or_false]
  tauto

/-- The mint of the same leaf in change 1 of tree 1. -/
def sampleMint : Ingest where
  ix :=
    { instruction := .mintV1
      treeUpdate := some
        { id := Pubkey.fill 1, path := [⟨Pubkey.fill 9, 1⟩], seq := 1, index := 0 }
      leafUpdate := some ⟨.v1, .v1 (Pubkey.fill 3) (Pubkey.fill 2) (Pubkey.fill 2) 0
        (Pubkey.fill 5) (Pubkey.fill 6), Pubkey.fill 9⟩
      payload := some (.mint
        { name := "", symbol := "", uri := Sql.Varchar.empty, sellerFeeBasisPoints := 0,
          primarySaleHappened := false, isMutable := true, editionNonce := none, collection := none,
          uses := none, creators := [] }
        (Pubkey.fill 4) (Pubkey.fill 1)) }
  bundle := sampleBundle

theorem sampleMint_succeeds : Succeeds Env.sample sampleMint := by
  have hdec : Base58.decode sampleBundle.txnId = some (List.replicate 64 0) := by decide +kernel
  have hgood : (plan Env.sample sampleMint.ix sampleBundle).Good sampleBundle.txnId :=
    ⟨⟨_, hdec⟩, _, rfl⟩
  exact (handle_runs (i := sampleMint) hgood (World.init Database.empty)).1

/-- The order of a delivery shows.  Change 1 of one tree and change 1 of another name the same leaf: the
later one handled stays.  And a mint handled after a transfer of its asset leaves `asset_data` empty, for
the transfer has made the row. -/
theorem orders_diverge :
    (Delivery Env.sample [sampleTransfer 1 1 10, sampleTransfer 2 1 11] ∧
      ¬ SameRows (tablesAfter Env.sample [sampleTransfer 1 1 10, sampleTransfer 2 1 11])
        (tablesAfter Env.sample [sampleTransfer 2 1 11, sampleTransfer 1 1 10])) ∧
    (Delivery Env.sample [sampleMint, sampleTransfer 1 2 11] ∧
      ((tablesAfter Env.sample [sampleMint, sampleTransfer 1 2 11]).asset.lookup
        (Pubkey.fill 3).bytes).bind AssetRow.assetData = some (Pubkey.fill 3).bytes ∧
      ((tablesAfter Env.sample [sampleTransfer 1 2 11, sampleMint]).asset.lookup
        (Pubkey.fill 3).bytes).bind AssetRow.assetData = none) := by
  refine ⟨⟨?_, ?_⟩, ?_, ?_, ?_⟩
  · refine delivery_of_two (sampleTransfer_succeeds 1 1 10) (sampleTransfer_succeeds 2 1 11) ?_
      ?_ ⟨rfl, rfl⟩ (.inl rfl)
    · simp [sampleTransfer]
    · intro cl cl' hcl hcl' heq
      cases hcl
      cases hcl'
      exact absurd heq.1 (by decide)
  · intro h
    have howner := congrArg (fun o => o.bind AssetRow.owner) (h.asset (Pubkey.fill 3).bytes)
    exact absurd howner (by decide)
  · refine delivery_of_two sampleMint_succeeds (sampleTransfer_succeeds 1 2 11) ?_
      ?_ ⟨rfl, rfl⟩ (.inr rfl)
    · simp [sampleTransfer, sampleMint]
    · simp [sampleTransfer, sampleMint]
  · decide +kernel
  · decide +kernel

end DasIndexer.Bubblegum
