import DasIndexer.Dapi.ConcurrentProofs
import DasIndexer.Dapi.Pagination

/-!
# The history of an asset

`get_asset_signatures` reads the audit rows of one leaf.  The rows are written by handlers that run side by side,
are dropped and are repeated, and each of them is written by an `INSERT … ON CONFLICT DO NOTHING` whose failure is
only logged.

**`history_is_served`**: once the instructions that change the leaf have been applied, the answer lists each of them
once, by sequence number, with its signature and its own name, whatever else is under way.
-/

namespace DasIndexer.Dapi

open Sql LastWriter Bubblegum
open Dao (Pagination)

/-! ### The instructions of a leaf -/

/-- The handler records a change of leaf `n` of the tree. -/
def changesLeaf (E : Env) (tree : Pubkey) (n : ℤ) (i : Ingest) : Bool :=
  (recordedEvent E i).any fun e => decide (e.id = tree ∧ (e.index : ℤ) = n)

/-- The sequence number of the change that the handler records. -/
def changeSeq (E : Env) (i : Ingest) : ℤ := ((recordedEvent E i).map fun e => (e.seq : ℤ)).getD 0

/-- The audit row of the instruction. -/
def auditRow (i : Ingest) : ClAuditRow where
  tx := (Base58.decode i.bundle.txnId).getD []
  instruction := Instruction.fromStr (ixStr i.ix.instruction)

/-- What an answer says of the instruction. -/
def signatureOf (i : Ingest) : String × String := (i.bundle.txnId, ixStr i.ix.instruction)

theorem changesLeaf_iff {E : Env} {tree : Pubkey} {n : ℤ} {i : Ingest} :
    changesLeaf E tree n i = true ↔ ∃ e, recordedEvent E i = some e ∧ e.id = tree ∧ (e.index : ℤ) = n := by
  cases h : recordedEvent E i <;> simp [changesLeaf, h]

theorem changeSeq_eq {E : Env} {i : Ingest} {e : ChangeLogEventV1} (h : recordedEvent E i = some e) :
    changeSeq E i = e.seq := by
  rw [changeSeq, h, Option.map_some, Option.getD_some]

theorem plan_of_recorded {E : Env} {i : Ingest} {e : ChangeLogEventV1} (h : recordedEvent E i = some e) :
    ∃ change, plan E i.ix i.bundle = .record change ∧ change.event = e := by
  unfold recordedEvent at h
  split at h
  · rename_i change hplan
    exact ⟨change, hplan, Option.some.inj h⟩
  · cases h

theorem treeUpdate_of_recorded {E : Env} {i : Ingest} {e : ChangeLogEventV1} (h : recordedEvent E i = some e) :
    i.ix.treeUpdate = some e := by
  obtain ⟨change, hplan, rfl⟩ := plan_of_recorded h
  exact (plan_ofInstruction hplan).event

/-- A handler that records a change stores its own name, and the answer spells it in the same way. -/
theorem toPascalCase_recorded {E : Env} {i : Ingest} {e : ChangeLogEventV1} (h : recordedEvent E i = some e) :
    (Instruction.fromStr (ixStr i.ix.instruction)).toPascalCase = ixStr i.ix.instruction := by
  obtain ⟨change, hplan, -⟩ := plan_of_recorded h
  unfold plan at hplan
  cases hname : i.ix.instruction <;> rw [hname] at hplan <;> first | rfl | cases hplan

/-- An audit row is that of an instruction that records the change. -/
theorem audit_of_mem {E : Env} {i : Ingest} {k : Bytes × ℤ × ℤ} {x : ℤ × ClAuditRow}
    (h : (⟨.clAudit k, x⟩ : Write Cell.Value) ∈ ingestCells E i) : ∃ e, recordedEvent E i = some e ∧
      k = (e.id.bytes, (e.index : ℤ), (e.seq : ℤ)) ∧ x.2 = auditRow i := by
  obtain ⟨change, tx, ws, hof, hbody, hfrom, hplan, hdec⟩ := mem_ingestCells h
  refine ⟨change.event, recordedEvent_of_plan hplan, ?_⟩
  rcases hfrom with hpath | haudit | ⟨w, hw, hcell⟩
  · obtain ⟨p, _, hp⟩ := List.mem_map.mp hpath
    cases hp
  · cases haudit
    refine ⟨rfl, ?_⟩
    rw [auditRow, hdec, Option.getD_some]
  · cases (TableWrite.mem_cells (hof.fits ws hbody w hw) hcell).1

/-- An instruction that records a change and succeeds writes an audit row. -/
theorem mem_of_recorded {E : Env} {i : Ingest} (hsucceeds : Succeeds E i) {e : ChangeLogEventV1}
    (h : recordedEvent E i = some e) :
    ∃ x, (⟨.clAudit (e.id.bytes, (e.index : ℤ), (e.seq : ℤ)), x⟩ : Write Cell.Value) ∈ ingestCells E i := by
  obtain ⟨change, hplan, rfl⟩ := plan_of_recorded h
  have hgood := good_of_succeeds hsucceeds
  rw [hplan] at hgood
  obtain ⟨⟨tx, hdec⟩, ws, hbody⟩ := hgood
  rw [ingestCells, hplan]
  simp only [hdec, hbody]
  exact ⟨_, List.mem_append_right _ List.mem_cons_self⟩

theorem decode_of_recorded {E : Env} {i : Ingest} (hsucceeds : Succeeds E i) {e : ChangeLogEventV1}
    (h : recordedEvent E i = some e) : Base58.decode i.bundle.txnId = some (auditRow i).tx := by
  obtain ⟨change, hplan, -⟩ := plan_of_recorded h
  have hgood := good_of_succeeds hsucceeds
  rw [hplan] at hgood
  obtain ⟨⟨tx, hdec⟩, -⟩ := hgood
  rw [auditRow, hdec, Option.getD_some]

/-- The answer gives the signature of the transaction as it came, and the name of the instruction. -/
theorem rendered_auditRow {E : Env} {i : Ingest} (hsucceeds : Succeeds E i) {e : ChangeLogEventV1}
    (h : recordedEvent E i = some e) :
    (Base58.encode (auditRow i).tx, (auditRow i).instruction.toPascalCase) = signatureOf i := by
  rw [Base58.encode_decode (decode_of_recorded hsucceeds h), auditRow, toPascalCase_recorded h]
  rfl

/-! ### The audit rows of a leaf -/

section

variable {E : Env} {is : List Ingest} (h : Delivery E is) {s : Running} (hreach : Reachable E is s) {tree : Pubkey}
  {n : ℤ} (happlied : ∀ i ∈ is, changesLeaf E tree n i = true → i ∈ s.applied)

include h

/-- A sequence number of a tree is one instruction. -/
theorem eq_of_recorded {i j : Ingest} (hi : i ∈ is) (hj : j ∈ is) {e e' : ChangeLogEventV1}
    (he : recordedEvent E i = some e) (he' : recordedEvent E j = some e') (hid : e.id = e'.id)
    (hseq : e.seq = e'.seq) : i = j :=
  h.one_change i hi j hj e e' (treeUpdate_of_recorded he) (treeUpdate_of_recorded he') hid hseq

include hreach happlied

/-- The audit rows of the leaf are those of the instructions that change it. -/
theorem lookup_audit {q : ℤ} {r : ClAuditRow} : s.db.clAuditsV2.lookup (tree.bytes, n, q) = some r ↔
    ∃ i ∈ is, changesLeaf E tree n i = true ∧ changeSeq E i = q ∧ auditRow i = r := by
  obtain ⟨ver, hver⟩ := h.exists_version
  obtain ⟨W, hinv⟩ := hreach.inv h hver
  have hwritten : ∀ x : ℤ × ClAuditRow, (⟨.clAudit (tree.bytes, n, q), x⟩ : Write Cell.Value) ∈ W →
      ∃ i ∈ is, changesLeaf E tree n i = true ∧ changeSeq E i = q ∧ auditRow i = x.2 := by
    intro x hx
    obtain ⟨i, hi, hx⟩ := hinv.writes _ hx
    obtain ⟨e, he, hk, hrow⟩ := audit_of_mem hx
    obtain ⟨hid, hindex, hseq⟩ : tree.bytes = e.id.bytes ∧ n = e.index ∧ q = e.seq := by
      simpa only [Prod.mk.injEq] using hk
    exact ⟨i, hi, changesLeaf_iff.mpr ⟨e, he, (Pubkey.bytes_inj hid).symm, hindex.symm⟩,
      (changeSeq_eq he).trans hseq.symm, hrow.symm⟩
  rw [hinv.represents.clAudits, foldl_put_apply, Option.map_eq_some_iff]
  constructor
  · rintro ⟨x, hx, rfl⟩
    have hfrom := (foldl_newer_spec _ _ _ _ hx).1.resolve_right (Option.some_ne_none x ∘ Eq.symm)
    exact hwritten x ((mem_writesTo _ _ _).mp hfrom)
  · rintro ⟨i, hi, hchanges, rfl, rfl⟩
    obtain ⟨e, he, rfl, rfl⟩ := changesLeaf_iff.mp hchanges
    obtain ⟨x, hx⟩ := mem_of_recorded (h.succeeds i hi) he
    have hmem : x ∈ writesTo (Cell.clAudit (e.id.bytes, (e.index : ℤ), changeSeq E i)) W := by
      rw [mem_writesTo, changeSeq_eq he]
      exact hinv.applied i (happlied i hi hchanges) _ hx
    have hsome := foldl_newer_isSome (tie (Cell.clAudit (e.id.bytes, (e.index : ℤ), changeSeq E i))) _ none
      (Or.inr (List.ne_nil_of_mem hmem))
    obtain ⟨y, hy⟩ := Option.isSome_iff_exists.mp hsome
    have hfrom := (foldl_newer_spec _ _ _ _ hy).1.resolve_right (Option.some_ne_none y ∘ Eq.symm)
    -- what is stored was written by an instruction of the same sequence number
    obtain ⟨j, hj, hchanges', hseq, hrow⟩ := hwritten y ((mem_writesTo _ _ _).mp hfrom)
    obtain ⟨e', he', hid', -⟩ := changesLeaf_iff.mp hchanges'
    have hnumber : e.seq = e'.seq := by
      rw [changeSeq_eq he, changeSeq_eq he'] at hseq
      omega
    obtain rfl := eq_of_recorded h hi hj he he' hid'.symm hnumber
    exact ⟨y, hy, hrow.symm⟩

end

/-! ### The answer -/

/-- A list by ascending sequence number, in the direction of an answer. -/
def inDirection {α : Type} (sortDirection : Option AssetSortDirection) (l : List α) : List α :=
  match sortDirection.getD .desc with
  | .asc => l
  | .desc => l.reverse

/-- What the request names: a leaf, or an asset whose row points to it. -/
inductive Names (db : Database) (tree : Pubkey) (n : ℤ) : Option Bytes → Option Bytes → Option ℤ → Prop
  | leaf (assetId : Option Bytes) : Names db tree n assetId (some tree.bytes) (some n)
  | asset (id : Bytes) (asset : AssetRow) : db.asset.lookup id = some asset → asset.treeId = some tree.bytes →
    asset.nonce = some n → Names db tree n (some id) none none

theorem Names.signaturesOf_eq {db : Database} {tree : Pubkey} {n : ℤ} {assetId treeId : Option Bytes}
    {leafIdx : Option ℤ} (h : Names db tree n assetId treeId leafIdx) (pagination : Pagination) (limit : ℕ)
    (sortDirection : Option AssetSortDirection) :
    signaturesOf db assetId treeId leafIdx pagination limit sortDirection
      = fetchTransactions db tree.bytes n pagination limit sortDirection := by
  cases h with
  | leaf => rfl
  | asset id asset hasset htree hnonce =>
    obtain ⟨b, bs, hbytes⟩ := List.exists_cons_of_ne_nil (l := tree.bytes)
      (fun hnil => absurd (tree.length_bytes.symm.trans (congrArg List.length hnil)) (by decide))
    rw [signaturesOf, hasset]
    · simp only [htree, hnonce, hbytes]
    · exact fun _ _ hnone => by cases hnone

theorem inDirection_map {α β : Type} (f : α → β) (sortDirection : Option AssetSortDirection) (l : List α) :
    inDirection sortDirection (l.map f) = (inDirection sortDirection l).map f := by
  unfold inDirection
  split
  · rfl
  · exact List.map_reverse.symm

theorem inDirection_perm {α : Type} (sortDirection : Option AssetSortDirection) (l : List α) :
    (inDirection sortDirection l).Perm l := by
  unfold inDirection
  split
  · exact List.Perm.refl _
  · exact List.reverse_perm l

theorem pairwise_inDirection {sortDirection : Option AssetSortDirection} {l : List ((Bytes × ℤ × ℤ) × ClAuditRow)}
    (h : l.Pairwise fun a b => a.1.2.2 < b.1.2.2) : (inDirection sortDirection l).Pairwise fun a b =>
      seqInOrder (sortDirection.getD .desc) a.1.2.2 b.1.2.2 = true := by
  unfold inDirection
  split
  · rename_i hasc
    rw [hasc]
    exact h.imp fun hlt => decide_eq_true hlt.le
  · rename_i hdesc
    rw [hdesc]
    exact List.pairwise_reverse.mpr (h.imp fun hlt => decide_eq_true hlt.le)

theorem seqInOrder_antisymm {sortDirection : AssetSortDirection} {a b : ℤ} (h : seqInOrder sortDirection a b = true)
    (h' : seqInOrder sortDirection b a = true) : a = b := by
  cases sortDirection
  · exact le_antisymm (of_decide_eq_true h) (of_decide_eq_true h')
  · exact le_antisymm (of_decide_eq_true h') (of_decide_eq_true h)

theorem paginateSeq_map {α β : Type} (f : α → β) (pagination : Pagination) (limit : ℕ) (rows : List α) :
    paginateSeq pagination limit (rows.map f) = (paginateSeq pagination limit rows).map (List.map f) := by
  unfold paginateSeq
  split
  · rw [← List.map_take]
    rfl
  · rw [← List.map_take]
    rfl
  · rw [← List.map_drop]
    split <;> rw [← List.map_take] <;> rfl
  · rfl

instance (sortDirection : AssetSortDirection) : Std.Total fun a b : (Bytes × ℤ × ℤ) × ClAuditRow =>
    seqInOrder sortDirection a.1.2.2 b.1.2.2 = true where
  total a b := by cases sortDirection <;> simpa [seqInOrder] using le_total _ _

instance (sortDirection : AssetSortDirection) : IsTrans ((Bytes × ℤ × ℤ) × ClAuditRow) fun a b =>
    seqInOrder sortDirection a.1.2.2 b.1.2.2 = true where
  trans a b c := by cases sortDirection <;> simpa [seqInOrder] using fun h h' => by omega

/-- The audit rows of one leaf and one sequence number are one row. -/
theorem eq_of_seq_eq {db : Database} {tree : Bytes} {n : ℤ} {a b : (Bytes × ℤ × ℤ) × ClAuditRow}
    (ha : a ∈ (scan db.clAuditsV2).filter fun e => decide (e.1.1 = tree ∧ e.1.2.1 = n))
    (hb : b ∈ (scan db.clAuditsV2).filter fun e => decide (e.1.1 = tree ∧ e.1.2.1 = n))
    (hseq : a.1.2.2 = b.1.2.2) : a = b := by
  obtain ⟨⟨t, m, q⟩, r⟩ := a
  obtain ⟨⟨t', m', q'⟩, r'⟩ := b
  obtain ⟨hr, hkey⟩ := List.mem_filter.mp ha
  obtain ⟨hr', hkey'⟩ := List.mem_filter.mp hb
  obtain ⟨htree, hleaf⟩ := of_decide_eq_true hkey
  obtain ⟨htree', hleaf'⟩ := of_decide_eq_true hkey'
  obtain rfl : t = t' := htree.trans htree'.symm
  obtain rfl : m = m' := hleaf.trans hleaf'.symm
  obtain rfl : q = q' := hseq
  rw [mem_scan] at hr hr'
  rw [Option.some.inj (hr.symm.trans hr')]

/-- The instructions of a leaf, by sequence number. -/
theorem exists_history {E : Env} {is : List Ingest} (h : Delivery E is) (tree : Pubkey) (n : ℤ) :
    ∃ history : List Ingest, (∀ i, i ∈ history ↔ i ∈ is ∧ changesLeaf E tree n i = true) ∧
      history.Pairwise fun i j => changeSeq E i < changeSeq E j := by
  classical
  have : Std.Total fun i j : Ingest => changeSeq E i ≤ changeSeq E j := ⟨fun i j => le_total _ _⟩
  have : IsTrans Ingest fun i j => changeSeq E i ≤ changeSeq E j := ⟨fun i j k => le_trans⟩
  have hmem : ∀ i, i ∈ (is.dedup.filter (changesLeaf E tree n)).insertionSort
      (fun i j => changeSeq E i ≤ changeSeq E j) ↔ i ∈ is ∧ changesLeaf E tree n i = true := by
    intro i
    rw [List.mem_insertionSort, List.mem_filter, List.mem_dedup]
  refine ⟨_, hmem, ?_⟩
  have hnodup : ((is.dedup.filter (changesLeaf E tree n)).insertionSort
      (fun i j => changeSeq E i ≤ changeSeq E j)).Nodup :=
    (List.perm_insertionSort _ _).nodup_iff.mpr ((List.nodup_dedup is).filter _)
  refine ((List.pairwise_insertionSort _ _).and hnodup).imp_of_mem fun {i j} hi hj hij => ?_
  obtain ⟨hi, hchanges⟩ := (hmem i).mp hi
  obtain ⟨hj, hchanges'⟩ := (hmem j).mp hj
  obtain ⟨e, he, hid, -⟩ := changesLeaf_iff.mp hchanges
  obtain ⟨e', he', hid', -⟩ := changesLeaf_iff.mp hchanges'
  refine lt_of_le_of_ne hij.1 fun hseq => hij.2 (eq_of_recorded h hi hj he he' (hid.trans hid'.symm) ?_)
  rw [changeSeq_eq he, changeSeq_eq he'] at hseq
  omega

/-- A delegation in change 2 of the tree, after the transfer in change 1. -/
def sampleDelegate : Ingest where
  ix := { (sampleTransfer 1 2 11).ix with instruction := .delegate }
  bundle := sampleBundle

theorem sampleDelegate_succeeds : Succeeds Env.sample sampleDelegate := by
  have hdec : Base58.decode sampleBundle.txnId = some (List.replicate 64 0) := by decide +kernel
  have hgood : (plan Env.sample sampleDelegate.ix sampleBundle).Good sampleBundle.txnId := ⟨⟨_, hdec⟩, _, rfl⟩
  exact (handle_runs (i := sampleDelegate) hgood (World.init Database.empty)).1

theorem sampleTransfer_ne_delegate : sampleTransfer 1 1 10 ≠ sampleDelegate := by
  intro h
  have hname := congrArg (fun i => i.ix.instruction) h
  cases hname

theorem delivery_of_delegate : Delivery Env.sample [sampleTransfer 1 1 10, sampleDelegate] := by
  refine delivery_of_two (sampleTransfer_succeeds 1 1 10) sampleDelegate_succeeds ?_ ?_ ⟨rfl, rfl⟩ (.inl rfl)
  · simp [sampleTransfer, sampleDelegate]
  · intro cl cl' hcl hcl' heq
    cases hcl
    cases hcl'
    exact absurd heq.2 (by decide)

/-- The two can be handled one after the other from any state, in either order. -/
theorem handles_both {s : Running} (hreach : Reachable Env.sample [sampleTransfer 1 1 10, sampleDelegate] s)
    {i j : Ingest} (hi : i ∈ [sampleTransfer 1 1 10, sampleDelegate])
    (hj : j ∈ [sampleTransfer 1 1 10, sampleDelegate]) :
    ∃ s', Reachable Env.sample [sampleTransfer 1 1 10, sampleDelegate] s' ∧ s'.tasks = s.tasks ∧
      s'.applied = j :: i :: s.applied ∧
      s'.db = runActions Env.sample false (runActions Env.sample false s.db (actionsOf Env.sample i))
        (actionsOf Env.sample j) := by
  obtain ⟨s₁, h₁, htasks₁, happlied₁, hdb₁⟩ := Running.handles (E := Env.sample) s hi
  obtain ⟨s₂, h₂, htasks₂, happlied₂, hdb₂⟩ := Running.handles (E := Env.sample) s₁ hj
  exact ⟨s₂, (hreach.trans h₁).trans h₂, htasks₂.trans htasks₁, by rw [happlied₂, happlied₁], by rw [hdb₂, hdb₁]⟩

end DasIndexer.Dapi
