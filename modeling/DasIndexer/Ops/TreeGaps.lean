import DasIndexer.Lib.Fallible
import DasIndexer.Lib.Windows
import DasIndexer.Ops.Crawl
import DasIndexer.Schema.Tables
import Mathlib.Data.List.Sort

/-!
# The gaps of a tree

The backfiller of the operations tool looks for the sequence numbers of a tree that `cl_audits_v2` lacks, and
has the transactions around each gap crawled.  A gap between two audited changes is bounded by their
transactions, the head and the tail of the tree by one, and a tree without any audited change by none.  The
bounds are exclusive.

That loses a transaction that carries several changes of which one is audited and another is not: it is
itself a bound of the gap that it should fill (`bound_is_not_crawled`).  **`filled_iff`**: every transaction
with a missing change is sent exactly when no transaction carries both an audited and a missing change.
-/

namespace DasIndexer.Ops

open Sql Windows Fallible

/-! ### Finding the gaps -/

/-- A row of the query `TREE_GAP_SQL`. -/
structure TreeGapModel where
  tree : Bytes
  gapStartSeq : ℤ
  gapEndSeq : ℤ
  lowerBoundTx : Bytes
  upperBoundTx : Bytes

/-- The tree as it is on chain. -/
structure TreeResponse where
  pubkey : Pubkey
  seq : ℕ

/-- The sequence number and the transaction of the audited changes of a tree. -/
def auditRows (db : Database) (tree : Bytes) : List (ℤ × Bytes) :=
  ((scan db.clAuditsV2).filter fun e => decide (e.1.1 = tree)).map fun e => (e.1.2.2, e.2.tx)

/-- `ORDER BY seq ASC`. -/
def sequencedData (db : Database) (tree : Bytes) : List (ℤ × Bytes) :=
  (auditRows db tree).insertionSort fun x y => x.1 ≤ y.1

/-- `TreeGapModel::find`: the pairs of neighbours that `LEAD` gives, where the difference exceeds one. -/
def TreeGapModel.find (db : Database) (tree : Pubkey) : List TreeGapModel :=
  ((((sequencedData db tree.bytes).zip (sequencedData db tree.bytes).tail).filter fun p =>
      decide (1 < p.2.1 - p.1.1)).map fun p =>
    { tree := tree.bytes, gapStartSeq := p.1.1, gapEndSeq := p.2.1, lowerBoundTx := p.1.2,
      upperBoundTx := p.2.2 }).insertionSort fun g g' => g.gapStartSeq ≤ g'.gapStartSeq

/-- `TryFrom<TreeGapModel> for TreeGapFill`. -/
def TreeGapFill.tryFrom (model : TreeGapModel) : Except TreeErrorKind TreeGapFill := do
  let tree ← if h : model.tree.length = 32 then .ok (⟨model.tree, h⟩ : Pubkey) else .error .tryFromPubkey
  let upper ← Signature.tryFrom model.upperBoundTx
  let lower ← Signature.tryFrom model.lowerBoundTx
  return ⟨tree, some upper, some lower⟩

/-- The range above the highest known change; the whole tree if nothing of it is known. -/
def tailFill (db : Database) (tree : TreeResponse) : Except TreeErrorKind (List TreeGapFill) :=
  match ((auditRows db tree.pubkey.bytes).insertionSort fun x y => y.1 ≤ x.1).head? with
  | some upper => do
    let signature ← Signature.tryFrom upper.2
    return [⟨tree.pubkey, none, some signature⟩]
  | none => .ok (if 0 < tree.seq then [⟨tree.pubkey, none, none⟩] else [])

/-- The range below the lowest known change, unless that is the first one. -/
def headFill (db : Database) (tree : TreeResponse) : Except TreeErrorKind (List TreeGapFill) :=
  match (sequencedData db tree.pubkey.bytes).head?.filter fun r => decide (1 < r.1) with
  | some lower => do
    let signature ← Signature.tryFrom lower.2
    return [⟨tree.pubkey, some signature, none⟩]
  | none => .ok []

/-- The ranges that `spawn_gap_worker` sends. -/
def spawnGapWorker (db : Database) (tree : TreeResponse) : Except TreeErrorKind (List TreeGapFill) := do
  let gaps ← (TreeGapModel.find db tree.pubkey).mapM TreeGapFill.tryFrom
  let tail ← tailFill db tree
  let head ← headFill db tree
  return gaps ++ tail ++ head

/-! ### Histories -/

/-- A transaction that carries the changes `first` to `last`. -/
structure Transaction where
  signature : Signature
  first : ℕ
  last : ℕ
deriving DecidableEq

namespace Transaction

def Carries (t : Transaction) (seq : ℕ) : Prop := t.first ≤ seq ∧ seq ≤ t.last

def status (t : Transaction) : TransactionStatus := ⟨Base58.encode t.signature.bytes, none⟩

end Transaction

/-- The successful transactions of a tree, oldest first. -/
structure History where
  txs : List Transaction
  carries_some : ∀ t ∈ txs, t.first ≤ t.last
  starts : ∀ t, txs.head? = some t → t.first = 1
  consecutive : txs.IsChain fun t u => u.first = t.last + 1
  signatures_nodup : (txs.map Transaction.signature).Nodup

namespace History

/-- The sequence number of the tree. -/
def seq (H : History) : ℕ := (H.txs.getLast?.map Transaction.last).getD 0

/-- The transactions strictly between two signatures, newest first and at most `page` of them. -/
def rpc (H : History) (page : ℕ) : Rpc := fun before until' =>
  ((window Transaction.signature until' before H.txs).reverse.take page).map Transaction.status

/-- Later transactions carry later changes. -/
theorem pairwise_lt (H : History) : H.txs.Pairwise fun t u => t.last < u.first := by
  have haux : ∀ l : List Transaction, (∀ t ∈ l, t.first ≤ t.last) →
      l.IsChain (fun t u => u.first = t.last + 1) → l.Pairwise fun t u => t.last < u.first := by
    intro l
    induction l with
    | nil => intro _ _; exact List.Pairwise.nil
    | cons t l ih =>
      intro hsome hchain
      have hl := ih (fun u hu => hsome u (List.mem_cons_of_mem _ hu)) hchain.tail
      refine List.pairwise_cons.mpr ⟨?_, hl⟩
      cases l with
      | nil => intro u hu; exact absurd hu List.not_mem_nil
      | cons v l =>
        have hv : v.first = t.last + 1 := (List.isChain_cons_cons.mp hchain).1
        intro u hu
        rcases List.mem_cons.mp hu with rfl | hu
        · omega
        · have hlt := (List.pairwise_cons.mp hl).1 u hu
          have hle := hsome v (List.mem_cons_of_mem _ List.mem_cons_self)
          omega
  exact haux H.txs H.carries_some H.consecutive

theorem pairwise_first (H : History) : H.txs.Pairwise fun t u => t.first < u.first := by
  refine H.pairwise_lt.imp_of_mem ?_
  intro t u ht _ hlt
  exact lt_of_le_of_lt (H.carries_some t ht) hlt

/-- Of two transactions of which one starts later, it starts after the end of the other. -/
theorem last_lt_first (H : History) {t u : Transaction} (ht : t ∈ H.txs) (hu : u ∈ H.txs)
    (h : t.first < u.first) : t.last < u.first := by
  have hboth : H.txs.Pairwise fun t u => t.last < u.first ∨ u.last < t.first :=
    H.pairwise_lt.imp fun hlt => Or.inl hlt
  have hne : t ≠ u := by
    rintro rfl
    exact absurd h (lt_irrefl _)
  have hsymm : Std.Symm fun t u : Transaction => t.last < u.first ∨ u.last < t.first :=
    ⟨fun _ _ hor => hor.symm⟩
  rcases hboth.forall ht hu hne with hlt | hlt
  · exact hlt
  · have hle := H.carries_some u hu
    omega

/-- Of two transactions, the one that carries the smaller change starts earlier. -/
theorem first_lt_first (H : History) {t u : Transaction} (ht : t ∈ H.txs) (hu : u ∈ H.txs) (hne : t ≠ u)
    {i j : ℤ} (hi : (t.first : ℤ) ≤ i) (hj : j ≤ (u.last : ℤ)) (hlt : i < j) : t.first < u.first := by
  rcases Nat.lt_trichotomy t.first u.first with h | h | h
  · exact h
  · have hnodup : (H.txs.map Transaction.first).Nodup :=
      List.pairwise_map.mpr (H.pairwise_first.imp fun hlt => ne_of_lt hlt)
    exact absurd (List.inj_on_of_nodup_map hnodup ht hu h) hne
  · have hlast := H.last_lt_first hu ht h
    omega

theorem one_le_first (H : History) {t : Transaction} (ht : t ∈ H.txs) : 1 ≤ t.first := by
  have hsorted := H.pairwise_first
  have hstarts := H.starts
  cases htxs : H.txs with
  | nil =>
    rw [htxs] at ht
    exact absurd ht List.not_mem_nil
  | cons u l =>
    rw [htxs] at ht hsorted hstarts
    have hu : u.first = 1 := hstarts u rfl
    rcases List.mem_cons.mp ht with rfl | ht
    · exact le_of_eq hu.symm
    · have hlt := (List.pairwise_cons.mp hsorted).1 t ht
      omega

theorem seq_pos (H : History) {t : Transaction} (ht : t ∈ H.txs) : 0 < H.seq := by
  have hne : H.txs ≠ [] := List.ne_nil_of_mem ht
  have hlast : H.txs.getLast hne ∈ H.txs := List.getLast_mem hne
  have hone := H.one_le_first hlast
  have hle := H.carries_some _ hlast
  rw [seq, List.getLast?_eq_some_getLast hne]
  exact lt_of_lt_of_le hone hle

end History

/-! ### What a crawl sends -/

/-- The windows of a history, newest first, are read page by page. -/
theorem History.pages (H : History) (page : ℕ) (until' : Option Signature) :
    Pages Transaction.signature (fun _ => none) (H.rpc page) until' page fun before =>
      (window Transaction.signature until' before H.txs).reverse := by
  refine ⟨fun _ => rfl, fun before newer t older h => ?_⟩
  have hw : window Transaction.signature until' before H.txs = older.reverse ++ t :: newer.reverse := by
    rw [← List.reverse_reverse (window Transaction.signature until' before H.txs), h]
    simp
  have hnodup : ((window Transaction.signature until' before H.txs).map Transaction.signature).Nodup :=
    H.signatures_nodup.sublist ((window_sublist _ _ _).map _)
  have hmem : t ∈ window Transaction.signature until' before H.txs :=
    hw ▸ List.mem_append_right _ List.mem_cons_self
  have hfresh : ∀ u ∈ older.reverse, u.signature ≠ t.signature := by
    intro u hu heq
    rw [hw, List.map_append, List.map_cons] at hnodup
    exact (List.nodup_append.mp hnodup).2.2 _ (List.mem_map_of_mem hu) _ List.mem_cons_self heq
  rw [window_before H.signatures_nodup hmem, hw, before_append hfresh, List.reverse_reverse]

/-- **A crawl sends its window**, newest first, and ends. -/
theorem crawlFrom_rpc (H : History) {page : ℕ} (hpage : getSignaturesForAddressLimit ≤ page)
    (until' : Option Signature) (fuel : ℕ) (before : Option Signature)
    (hfuel : (window Transaction.signature until' before H.txs).length < fuel) :
    crawlFrom (H.rpc page) until' fuel before
      = ⟨(window Transaction.signature until' before H.txs).reverse.map Transaction.signature, .completed⟩ := by
  have hall : ∀ l : List Transaction, successful (fun _ => none) l = l :=
    fun l => List.filter_eq_self.mpr fun _ _ => rfl
  rw [(H.pages page until').completes hpage fuel, hall]
  · rw [List.length_reverse]
    exact hfuel
  · intro ⟨run, _, hlength, hfailed⟩
    obtain ⟨t, ht⟩ := List.exists_mem_of_ne_nil run (List.ne_nil_of_length_pos (hlength ▸ Nat.succ_pos 999))
    exact hfailed t ht rfl

theorem window_length_lt (H : History) (g : TreeGapFill) {fuel : ℕ} (hfuel : H.txs.length < fuel) :
    (window Transaction.signature g.until' g.before H.txs).length < fuel :=
  lt_of_le_of_lt (window_sublist _ _ _).length_le hfuel

theorem crawl_completed (H : History) {page : ℕ} (hpage : getSignaturesForAddressLimit ≤ page)
    (g : TreeGapFill) {fuel : ℕ} (hfuel : H.txs.length < fuel) :
    (g.crawl (H.rpc page) fuel).ended = .completed := by
  rw [TreeGapFill.crawl, crawlFrom_rpc H hpage _ _ _ (window_length_lt H g hfuel)]

/-- After as many pages as there are transactions, a crawl has ended. -/
theorem crawl_settles (H : History) {page : ℕ} (hpage : getSignaturesForAddressLimit ≤ page) (g : TreeGapFill)
    {fuel : ℕ} (hfuel : H.txs.length < fuel) :
    g.crawl (H.rpc page) fuel = g.crawl (H.rpc page) (H.txs.length + 1) := by
  rw [TreeGapFill.crawl, crawlFrom_rpc H hpage _ _ _ (window_length_lt H g hfuel), TreeGapFill.crawl,
    crawlFrom_rpc H hpage _ _ _ (window_length_lt H g (Nat.lt_succ_self _))]

/-- What a range sends of the history. -/
theorem mem_crawl (H : History) {page : ℕ} (hpage : getSignaturesForAddressLimit ≤ page) (g : TreeGapFill)
    {fuel : ℕ} (hfuel : H.txs.length < fuel) {t : Transaction} (ht : t ∈ H.txs) :
    t.signature ∈ (g.crawl (H.rpc page) fuel).sent ↔
      t ∈ window Transaction.signature g.until' g.before H.txs := by
  rw [TreeGapFill.crawl, crawlFrom_rpc H hpage _ _ _ (window_length_lt H g hfuel), List.mem_map]
  constructor
  · rintro ⟨u, hu, heq⟩
    have huw := List.mem_reverse.mp hu
    rw [← List.inj_on_of_nodup_map H.signatures_nodup ((window_sublist _ _ _).subset huw) ht heq]
    exact huw
  · intro hmem
    exact ⟨t, List.mem_reverse.mpr hmem, rfl⟩

section Windows

variable (H : History) {t u b : Transaction}

theorem History.asymm_first (x y : Transaction) (h : x.first < y.first) : ¬ y.first < x.first :=
  Nat.lt_asymm h

/-- The transactions above one, below one, and between two. -/
theorem History.mem_above (hu : u ∈ H.txs) :
    t ∈ window Transaction.signature (some u.signature) none H.txs ↔ t ∈ H.txs ∧ u.first < t.first :=
  mem_after H.signatures_nodup H.pairwise_first asymm_first hu t

theorem History.mem_below (hb : b ∈ H.txs) :
    t ∈ window Transaction.signature none (some b.signature) H.txs ↔ t ∈ H.txs ∧ t.first < b.first :=
  mem_before H.signatures_nodup H.pairwise_first asymm_first hb t

theorem History.mem_between (hu : u ∈ H.txs) (hb : b ∈ H.txs) :
    t ∈ window Transaction.signature (some u.signature) (some b.signature) H.txs ↔
      t ∈ H.txs ∧ u.first < t.first ∧ t.first < b.first :=
  mem_window H.signatures_nodup H.pairwise_first asymm_first (fun _ _ _ => Nat.lt_trans) hu hb t

end Windows

/-! ### Which ranges are sent -/

/-- Change `seq` of a tree is not in `cl_audits_v2`. -/
def Missing (db : Database) (tree : Pubkey) (seq : ℕ) : Prop :=
  ∀ leafIdx, db.clAuditsV2.lookup (tree.bytes, leafIdx, (seq : ℤ)) = none

/-- The row `x` is a change that `t` carries. -/
structure History.Holds (H : History) (t : Transaction) (x : ℤ × Bytes) : Prop where
  mem : t ∈ H.txs
  first_le : (t.first : ℤ) ≤ x.1
  le_last : x.1 ≤ (t.last : ℤ)
  tx : x.2 = t.signature.bytes

/-- Every audited change of the tree has the transaction that carries it. -/
def RightAudits (H : History) (tree : Pubkey) (db : Database) : Prop :=
  ∀ leafIdx seq row, db.clAuditsV2.lookup (tree.bytes, leafIdx, seq) = some row →
    ∃ t, H.Holds t (seq, row.tx)

theorem mem_auditRows (db : Database) (tree : Bytes) (x : ℤ × Bytes) :
    x ∈ auditRows db tree ↔
      ∃ leafIdx row, db.clAuditsV2.lookup (tree, leafIdx, x.1) = some row ∧ row.tx = x.2 := by
  rw [auditRows, List.mem_map]
  constructor
  · intro ⟨⟨⟨tree', leafIdx, seq⟩, row⟩, hmem, heq⟩
    obtain ⟨hscan, htree⟩ := List.mem_filter.mp hmem
    obtain rfl : tree' = tree := of_decide_eq_true htree
    rw [← heq]
    exact ⟨leafIdx, row, (mem_scan _ _ _).mp hscan, rfl⟩
  · intro ⟨leafIdx, row, hrow, htx⟩
    refine ⟨((tree, leafIdx, x.1), row), List.mem_filter.mpr ⟨(mem_scan _ _ _).mpr hrow, by simp⟩, ?_⟩
    rw [htx]

/-- A change that is not missing has a row. -/
theorem exists_row_of_not_missing {db : Database} {tree : Pubkey} {seq : ℕ} (h : ¬ Missing db tree seq) :
    ∃ x ∈ auditRows db tree.bytes, x.1 = (seq : ℤ) := by
  obtain ⟨leafIdx, hsome⟩ := not_forall.mp h
  obtain ⟨row, hrow⟩ := Option.ne_none_iff_exists'.mp hsome
  exact ⟨((seq : ℤ), row.tx), (mem_auditRows _ _ _).mpr ⟨leafIdx, row, hrow, rfl⟩, rfl⟩

theorem ne_of_missing {db : Database} {tree : Pubkey} {seq : ℕ} (h : Missing db tree seq) {x : ℤ × Bytes}
    (hx : x ∈ auditRows db tree.bytes) : x.1 ≠ (seq : ℤ) := by
  intro heq
  obtain ⟨leafIdx, row, hrow, _⟩ := (mem_auditRows _ _ _).mp hx
  rw [heq, h leafIdx] at hrow
  exact absurd hrow (by simp)

theorem mem_sequencedData (db : Database) (tree : Bytes) (x : ℤ × Bytes) :
    x ∈ sequencedData db tree ↔ x ∈ auditRows db tree := List.mem_insertionSort _

theorem pairwise_sequencedData (db : Database) (tree : Bytes) :
    (sequencedData db tree).Pairwise fun x y => x.1 ≤ y.1 := by
  have htotal : Std.Total fun x y : ℤ × Bytes => x.1 ≤ y.1 := ⟨fun x y => le_total x.1 y.1⟩
  have htrans : IsTrans (ℤ × Bytes) fun x y => x.1 ≤ y.1 := ⟨fun _ _ _ => le_trans⟩
  exact List.pairwise_insertionSort _ _

section Emitted

variable {H : History} {tree : Pubkey} {db : Database} (haudits : RightAudits H tree db)

include haudits in
theorem exists_holds {x : ℤ × Bytes} (hx : x ∈ auditRows db tree.bytes) : ∃ t, H.Holds t x := by
  obtain ⟨leafIdx, row, hrow, htx⟩ := (mem_auditRows _ _ _).mp hx
  obtain ⟨t, ht⟩ := haudits leafIdx x.1 row hrow
  rw [htx] at ht
  exact ⟨t, ht⟩

theorem Signature.tryFrom_of_holds {t : Transaction} {x : ℤ × Bytes} (h : H.Holds t x) :
    Signature.tryFrom x.2 = .ok t.signature := by
  rw [h.tx, Signature.tryFrom_bytes]

/-- The rows of the gap query are the neighbours with something missing between them. -/
theorem mem_find (db : Database) (tree : Pubkey) (m : TreeGapModel) :
    m ∈ TreeGapModel.find db tree ↔
      ∃ x y, (x, y) ∈ (sequencedData db tree.bytes).zip (sequencedData db tree.bytes).tail ∧
        1 < y.1 - x.1 ∧ m = ⟨tree.bytes, x.1, y.1, x.2, y.2⟩ := by
  rw [TreeGapModel.find, List.mem_insertionSort, List.mem_map]
  constructor
  · intro ⟨⟨x, y⟩, hmem, heq⟩
    obtain ⟨hzip, hgap⟩ := List.mem_filter.mp hmem
    exact ⟨x, y, hzip, of_decide_eq_true hgap, heq.symm⟩
  · intro ⟨x, y, hzip, hgap, heq⟩
    exact ⟨(x, y), List.mem_filter.mpr ⟨hzip, decide_eq_true hgap⟩, heq.symm⟩

theorem tryFrom_neighbours {x y : ℤ × Bytes} {t u : Transaction} (ht : H.Holds t x) (hu : H.Holds u y) :
    TreeGapFill.tryFrom ⟨tree.bytes, x.1, y.1, x.2, y.2⟩
      = .ok ⟨tree, some u.signature, some t.signature⟩ := by
  simp only [TreeGapFill.tryFrom, dif_pos tree.length_bytes, Signature.tryFrom_of_holds ht,
    Signature.tryFrom_of_holds hu]
  rfl

include haudits in
/-- The ranges of the gap query: one for each pair of neighbours with something missing between them. -/
theorem gapFills_ok :
    ∃ gaps, (TreeGapModel.find db tree).mapM TreeGapFill.tryFrom = .ok gaps ∧
      ∀ g, g ∈ gaps ↔
        ∃ x y t u, (x, y) ∈ (sequencedData db tree.bytes).zip (sequencedData db tree.bytes).tail ∧
          1 < y.1 - x.1 ∧ H.Holds t x ∧ H.Holds u y ∧ g = ⟨tree, some u.signature, some t.signature⟩ := by
  have hholds : ∀ x y, (x, y) ∈ (sequencedData db tree.bytes).zip (sequencedData db tree.bytes).tail →
      ∃ t u, H.Holds t x ∧ H.Holds u y := by
    intro x y hzip
    obtain ⟨hx, hy, _⟩ := not_between_neighbours (pairwise_sequencedData db tree.bytes) hzip
    obtain ⟨t, ht⟩ := exists_holds haudits ((mem_sequencedData _ _ _).mp hx)
    obtain ⟨u, hu⟩ := exists_holds haudits ((mem_sequencedData _ _ _).mp hy)
    exact ⟨t, u, ht, hu⟩
  obtain ⟨gaps, hgaps, hmem⟩ := mapM_ok (f := TreeGapFill.tryFrom) (TreeGapModel.find db tree) (by
    intro m hm
    obtain ⟨x, y, hzip, _, rfl⟩ := (mem_find db tree m).mp hm
    obtain ⟨t, u, ht, hu⟩ := hholds x y hzip
    exact ⟨_, tryFrom_neighbours ht hu⟩)
  refine ⟨gaps, hgaps, fun g => (hmem g).trans ?_⟩
  constructor
  · intro ⟨m, hm, hg⟩
    obtain ⟨x, y, hzip, hgap, rfl⟩ := (mem_find db tree m).mp hm
    obtain ⟨t, u, ht, hu⟩ := hholds x y hzip
    rw [tryFrom_neighbours ht hu] at hg
    exact ⟨x, y, t, u, hzip, hgap, ht, hu, (Except.ok.inj hg).symm⟩
  · intro ⟨x, y, t, u, hzip, hgap, ht, hu, hg⟩
    exact ⟨_, (mem_find db tree _).mpr ⟨x, y, hzip, hgap, rfl⟩, by rw [hg]; exact tryFrom_neighbours ht hu⟩

include haudits in
/-- The range of the tail. -/
theorem tailFill_ok (seq : ℕ) :
    (auditRows db tree.bytes = [] ∧
      tailFill db ⟨tree, seq⟩ = .ok (if 0 < seq then [⟨tree, none, none⟩] else [])) ∨
    ∃ x t, x ∈ auditRows db tree.bytes ∧ (∀ z ∈ auditRows db tree.bytes, z.1 ≤ x.1) ∧ H.Holds t x ∧
      tailFill db ⟨tree, seq⟩ = .ok [⟨tree, none, some t.signature⟩] := by
  have htotal : Std.Total fun x y : ℤ × Bytes => y.1 ≤ x.1 := ⟨fun x y => le_total y.1 x.1⟩
  have htrans : IsTrans (ℤ × Bytes) fun x y => y.1 ≤ x.1 := ⟨fun _ _ _ h h' => le_trans h' h⟩
  have hsorted := List.pairwise_insertionSort (fun x y : ℤ × Bytes => y.1 ≤ x.1) (auditRows db tree.bytes)
  have hmem : ∀ z, z ∈ ((auditRows db tree.bytes).insertionSort fun x y : ℤ × Bytes => y.1 ≤ x.1) ↔
      z ∈ auditRows db tree.bytes := fun z => List.mem_insertionSort _
  unfold tailFill
  cases hl : (auditRows db tree.bytes).insertionSort fun x y : ℤ × Bytes => y.1 ≤ x.1 with
  | nil =>
    refine Or.inl ⟨List.eq_nil_iff_forall_not_mem.mpr fun x hx => ?_, rfl⟩
    rw [← hmem, hl] at hx
    exact absurd hx List.not_mem_nil
  | cons x l =>
    rw [hl] at hsorted
    have hx : x ∈ auditRows db tree.bytes := by
      rw [← hmem, hl]
      exact List.mem_cons_self
    obtain ⟨t, ht⟩ := exists_holds haudits hx
    refine Or.inr ⟨x, t, hx, ?_, ht, ?_⟩
    · intro z hz
      rw [← hmem, hl] at hz
      rcases List.mem_cons.mp hz with rfl | hz
      · exact le_refl _
      · exact (List.pairwise_cons.mp hsorted).1 z hz
    · simp only [List.head?_cons, Signature.tryFrom_of_holds ht]
      rfl

include haudits in
/-- The range of the head. -/
theorem headFill_ok (seq : ℕ) :
    ((∀ x ∈ auditRows db tree.bytes, ∃ y ∈ auditRows db tree.bytes, y.1 ≤ 1) ∧
      headFill db ⟨tree, seq⟩ = .ok []) ∨
    ∃ x t, x ∈ auditRows db tree.bytes ∧ (∀ z ∈ auditRows db tree.bytes, x.1 ≤ z.1) ∧ H.Holds t x ∧
      headFill db ⟨tree, seq⟩ = .ok [⟨tree, some t.signature, none⟩] := by
  have hsorted := pairwise_sequencedData db tree.bytes
  have hmem := mem_sequencedData db tree.bytes
  unfold headFill
  cases hl : sequencedData db tree.bytes with
  | nil =>
    refine Or.inl ⟨fun x hx => ?_, rfl⟩
    rw [← hmem, hl] at hx
    exact absurd hx List.not_mem_nil
  | cons x l =>
    rw [hl] at hsorted
    have hx : x ∈ auditRows db tree.bytes := by
      rw [← hmem, hl]
      exact List.mem_cons_self
    by_cases hone : 1 < x.1
    · obtain ⟨t, ht⟩ := exists_holds haudits hx
      refine Or.inr ⟨x, t, hx, ?_, ht, ?_⟩
      · intro z hz
        rw [← hmem, hl] at hz
        rcases List.mem_cons.mp hz with rfl | hz
        · exact le_refl _
        · exact (List.pairwise_cons.mp hsorted).1 z hz
      · simp only [List.head?_cons, Option.filter_some, decide_eq_true hone, if_true,
          Signature.tryFrom_of_holds ht]
        rfl
    · refine Or.inl ⟨fun _ _ => ⟨x, hx, not_lt.mp hone⟩, ?_⟩
      simp only [List.head?_cons, Option.filter_some, decide_eq_false hone, Bool.false_eq_true, if_false]

include haudits in
theorem spawnGapWorker_ok : ∃ all, spawnGapWorker db ⟨tree, H.seq⟩ = .ok all := by
  obtain ⟨gaps, hgaps, _⟩ := gapFills_ok haudits
  obtain ⟨tail, htail⟩ : ∃ tail, tailFill db ⟨tree, H.seq⟩ = .ok tail := by
    rcases tailFill_ok haudits H.seq with ⟨_, htail⟩ | ⟨_, _, _, _, _, htail⟩
    · exact ⟨_, htail⟩
    · exact ⟨_, htail⟩
  obtain ⟨head, hhead⟩ : ∃ head, headFill db ⟨tree, H.seq⟩ = .ok head := by
    rcases headFill_ok haudits H.seq with ⟨_, hhead⟩ | ⟨_, _, _, _, _, hhead⟩
    · exact ⟨_, hhead⟩
    · exact ⟨_, hhead⟩
  refine ⟨gaps ++ tail ++ head, ?_⟩
  rw [spawnGapWorker, hgaps, htail, hhead]
  rfl

include haudits in
/-- The three parts of what is sent. -/
theorem of_spawnGapWorker {all : List TreeGapFill} (hspawn : spawnGapWorker db ⟨tree, H.seq⟩ = .ok all) :
    ∃ gaps tail head, (∀ g, g ∈ gaps ↔
        ∃ x y t u, (x, y) ∈ (sequencedData db tree.bytes).zip (sequencedData db tree.bytes).tail ∧
          1 < y.1 - x.1 ∧ H.Holds t x ∧ H.Holds u y ∧ g = ⟨tree, some u.signature, some t.signature⟩) ∧
      tailFill db ⟨tree, H.seq⟩ = .ok tail ∧ headFill db ⟨tree, H.seq⟩ = .ok head ∧
      all = gaps ++ tail ++ head := by
  obtain ⟨gaps, hgaps, hmem⟩ := gapFills_ok haudits
  rw [spawnGapWorker, hgaps] at hspawn
  cases htail : tailFill db ⟨tree, H.seq⟩ with
  | error e =>
    rw [htail] at hspawn
    exact absurd hspawn (by rintro ⟨⟩)
  | ok tail =>
    cases hhead : headFill db ⟨tree, H.seq⟩ with
    | error e =>
      rw [htail, hhead] at hspawn
      exact absurd hspawn (by rintro ⟨⟩)
    | ok head =>
      rw [htail, hhead] at hspawn
      exact ⟨gaps, tail, head, hmem, rfl, rfl, (Except.ok.inj hspawn).symm⟩

end Emitted

/-! ### When everything is filled -/

/-- The ranges are found, all crawls end, and every transaction that carries a missing change is sent. -/
def Filled (page : ℕ) (H : History) (tree : Pubkey) (db : Database) : Prop :=
  ∃ gaps enough, spawnGapWorker db ⟨tree, H.seq⟩ = .ok gaps ∧ ∀ fuel, enough ≤ fuel →
    (∀ g ∈ gaps, (g.crawl (H.rpc page) fuel).ended = .completed) ∧
    ∀ t ∈ H.txs, (∃ seq, t.Carries seq ∧ Missing db tree seq) →
      ∃ g ∈ gaps, t.signature ∈ (g.crawl (H.rpc page) fuel).sent

section Filled

variable {H : History} {tree : Pubkey} {db : Database}

/-- A transaction whose changes are all missing holds no row. -/
theorem ne_of_all_missing {t u : Transaction} (hall : ∀ seq, t.Carries seq → Missing db tree seq)
    {x : ℤ × Bytes} (hx : x ∈ auditRows db tree.bytes) (hu : H.Holds u x) : t ≠ u := by
  rintro rfl
  obtain ⟨n, hn⟩ : ∃ n : ℕ, x.1 = (n : ℤ) := ⟨x.1.toNat, by have := hu.first_le; omega⟩
  have hcarries : t.Carries n := by
    have hfirst := hu.first_le
    have hlast := hu.le_last
    exact ⟨by omega, by omega⟩
  exact ne_of_missing (hall n hcarries) hx hn

/-- A transaction that carries an audited change is in no range. -/
theorem not_mem_range_of_audited (haudits : RightAudits H tree db) {all : List TreeGapFill}
    (hspawn : spawnGapWorker db ⟨tree, H.seq⟩ = .ok all) {t : Transaction} (ht : t ∈ H.txs) {seq : ℕ}
    (hcarries : t.Carries seq) {x : ℤ × Bytes} (hx : x ∈ auditRows db tree.bytes) (hseq : x.1 = (seq : ℤ)) :
    ∀ g ∈ all, t ∉ window Transaction.signature g.until' g.before H.txs := by
  obtain ⟨hfirst, hlast⟩ := hcarries
  obtain ⟨gaps, tail, head, hmem, htail, hhead, rfl⟩ := of_spawnGapWorker haudits hspawn
  intro g hg hin
  rcases List.mem_append.mp hg with hg | hg
  · rcases List.mem_append.mp hg with hg | hg
    · -- a gap between neighbours: the row would stand between them
      obtain ⟨y, z, u, v, hzip, _, hu, hv, rfl⟩ := (hmem g).mp hg
      obtain ⟨_, hlower, hupper⟩ := (H.mem_between hu.mem hv.mem).mp hin
      have hbelow := H.last_lt_first hu.mem ht hlower
      have habove := H.last_lt_first ht hv.mem hupper
      obtain ⟨_, _, hnone⟩ := not_between_neighbours (pairwise_sequencedData db tree.bytes) hzip
      have huy := hu.le_last
      have hvz := hv.first_le
      rcases hnone x ((mem_sequencedData _ _ _).mpr hx) with hle | hle
      · omega
      · omega
    · -- the tail: the row would be above the highest
      rcases tailFill_ok haudits H.seq with ⟨hnil, _⟩ | ⟨y, u, _, hmax, hu, htail'⟩
      · rw [hnil] at hx
        exact absurd hx List.not_mem_nil
      · obtain rfl := Except.ok.inj (htail.symm.trans htail')
        rw [List.mem_singleton.mp hg] at hin
        have hbelow := H.last_lt_first hu.mem ht ((H.mem_above hu.mem).mp hin).2
        have huy := hu.le_last
        have hle := hmax x hx
        omega
  · -- the head: the row would be below the lowest
    rcases headFill_ok haudits H.seq with ⟨_, hhead'⟩ | ⟨y, u, _, hmin, hu, hhead'⟩
    · obtain rfl := Except.ok.inj (hhead.symm.trans hhead')
      exact absurd hg List.not_mem_nil
    · obtain rfl := Except.ok.inj (hhead.symm.trans hhead')
      rw [List.mem_singleton.mp hg] at hin
      have habove := H.last_lt_first ht hu.mem ((H.mem_below hu.mem).mp hin).2
      have huy := hu.first_le
      have hle := hmin x hx
      omega

/-- A transaction whose changes are all missing is in some range. -/
theorem mem_range_of_all_missing (haudits : RightAudits H tree db) {all : List TreeGapFill}
    (hspawn : spawnGapWorker db ⟨tree, H.seq⟩ = .ok all) {t : Transaction} (ht : t ∈ H.txs)
    (hall : ∀ seq, t.Carries seq → Missing db tree seq) {seq : ℕ} (hcarries : t.Carries seq) :
    ∃ g ∈ all, t ∈ window Transaction.signature g.until' g.before H.txs := by
  obtain ⟨gaps, tail, head, hmem, htail, hhead, rfl⟩ := of_spawnGapWorker haudits hspawn
  have hmissing : ∀ x ∈ auditRows db tree.bytes, x.1 ≠ (seq : ℤ) :=
    fun x hx => ne_of_missing (hall seq hcarries) hx
  have hbelow : ∀ x u, x ∈ auditRows db tree.bytes → H.Holds u x → x.1 < (seq : ℤ) → u.first < t.first :=
    fun x u hx hu hlt => H.first_lt_first hu.mem ht (ne_of_all_missing hall hx hu).symm hu.first_le
      (Int.ofNat_le.mpr hcarries.2) hlt
  have habove : ∀ x u, x ∈ auditRows db tree.bytes → H.Holds u x → (seq : ℤ) < x.1 → t.first < u.first :=
    fun x u hx hu hlt => H.first_lt_first ht hu.mem (ne_of_all_missing hall hx hu)
      (Int.ofNat_le.mpr hcarries.1) hu.le_last hlt
  have hone : 1 ≤ seq := le_trans (H.one_le_first ht) hcarries.1
  rcases tailFill_ok haudits H.seq with ⟨_, htail'⟩ | ⟨x, u, hx, _, hu, htail'⟩
  · -- nothing of the tree is known
    obtain rfl := Except.ok.inj (htail.symm.trans htail')
    refine ⟨⟨tree, none, none⟩, ?_, ht⟩
    rw [if_pos (H.seq_pos ht)]
    simp
  · obtain rfl := Except.ok.inj (htail.symm.trans htail')
    by_cases hhigh : x.1 < (seq : ℤ)
    · -- above the highest known change
      exact ⟨⟨tree, none, some u.signature⟩, by simp, (H.mem_above hu.mem).mpr ⟨ht, hbelow x u hx hu hhigh⟩⟩
    · have hlt : (seq : ℤ) < x.1 := lt_of_le_of_ne (not_lt.mp hhigh) (hmissing x hx).symm
      by_cases hlow : ∃ y ∈ auditRows db tree.bytes, y.1 < (seq : ℤ)
      · -- between two known changes
        obtain ⟨y, hy, hylt⟩ := hlow
        obtain ⟨a, b, hzip, ha, hb⟩ := exists_neighbours (pairwise_sequencedData db tree.bytes)
          (fun z hz => hmissing z ((mem_sequencedData _ _ _).mp hz))
          ⟨y, (mem_sequencedData _ _ _).mpr hy, hylt⟩ ⟨x, (mem_sequencedData _ _ _).mpr hx, hlt⟩
        obtain ⟨haS, hbS, _⟩ := not_between_neighbours (pairwise_sequencedData db tree.bytes) hzip
        have haR := (mem_sequencedData _ _ _).mp haS
        have hbR := (mem_sequencedData _ _ _).mp hbS
        obtain ⟨v, hv⟩ := exists_holds haudits haR
        obtain ⟨w, hw⟩ := exists_holds haudits hbR
        refine ⟨⟨tree, some w.signature, some v.signature⟩, ?_, (H.mem_between hv.mem hw.mem).mpr
          ⟨ht, hbelow a v haR hv ha, habove b w hbR hw hb⟩⟩
        refine List.mem_append_left _ (List.mem_append_left _ ((hmem _).mpr ?_))
        exact ⟨a, b, v, w, hzip, by omega, hv, hw, rfl⟩
      · -- below the lowest known change
        rcases headFill_ok haudits H.seq with ⟨hfirst, _⟩ | ⟨z, v, hz, _, hv, hhead'⟩
        · obtain ⟨y, hy, hyone⟩ := hfirst x hx
          have hne := hmissing y hy
          exact absurd ⟨y, hy, by omega⟩ hlow
        · obtain rfl := Except.ok.inj (hhead.symm.trans hhead')
          have hzlt : (seq : ℤ) < z.1 :=
            lt_of_le_of_ne (not_lt.mp fun h => hlow ⟨z, hz, h⟩) (hmissing z hz).symm
          exact ⟨⟨tree, some v.signature, none⟩, by simp,
            (H.mem_below hv.mem).mpr ⟨ht, habove z v hz hv hzlt⟩⟩

/-- **When the gaps are filled**: every transaction with a missing change is sent exactly when no transaction
carries both an audited and a missing change. -/
theorem filled_iff {page : ℕ} (hpage : getSignaturesForAddressLimit ≤ page)
    (haudits : RightAudits H tree db) :
    Filled page H tree db ↔
      ∀ t ∈ H.txs, ∀ seq seq', t.Carries seq → t.Carries seq' → Missing db tree seq → Missing db tree seq' := by
  constructor
  · intro ⟨all, enough, hspawn, hsent⟩ t ht seq seq' hcarries hcarries' hmissing
    by_contra haudited
    obtain ⟨x, hx, hseq⟩ := exists_row_of_not_missing haudited
    obtain ⟨g, hg, hin⟩ := (hsent (max enough (H.txs.length + 1)) (le_max_left _ _)).2 t ht
      ⟨seq, hcarries, hmissing⟩
    rw [mem_crawl H hpage g (lt_of_lt_of_le (Nat.lt_succ_self _) (le_max_right _ _)) ht] at hin
    exact not_mem_range_of_audited haudits hspawn ht hcarries' hx hseq g hg hin
  · intro hwhole
    obtain ⟨all, hspawn⟩ := spawnGapWorker_ok haudits
    refine ⟨all, H.txs.length + 1, hspawn, fun fuel hfuel => ⟨fun g _ => crawl_completed H hpage g hfuel, ?_⟩⟩
    intro t ht ⟨seq, hcarries, hmissing⟩
    obtain ⟨g, hg, hin⟩ := mem_range_of_all_missing haudits hspawn ht
      (fun seq' hcarries' => hwhole t ht seq seq' hcarries hcarries' hmissing) hcarries
    exact ⟨g, hg, (mem_crawl H hpage g hfuel ht).mpr hin⟩

end Filled

/-! ### A transaction with two changes -/

/-- One transaction with changes 1 to `n`, and one with the change after it. -/
def sampleHistory (n : ℕ) (hn : 1 ≤ n) : History where
  txs := [⟨.fill 1, 1, n⟩, ⟨.fill 2, n + 1, n + 1⟩]
  carries_some := by simp [hn]
  starts := by simp
  consecutive := by simp
  signatures_nodup := by simp [Signature.fill]

/-- Change 1 of the tree is audited. -/
def sampleAudits : Database :=
  { clAuditsV2 := AList.singleton ((Pubkey.fill 7).bytes, 0, 1)
      { tx := (Signature.fill 1).bytes, instruction := .mintV1 } }

theorem lookup_sampleAudits (leafIdx seq : ℤ) :
    sampleAudits.clAuditsV2.lookup ((Pubkey.fill 7).bytes, leafIdx, seq)
      = if leafIdx = 0 ∧ seq = 1 then some ⟨(Signature.fill 1).bytes, .mintV1⟩ else none := by
  rw [sampleAudits, lookup_singleton]
  simp only [Prod.mk.injEq, true_and]

theorem sampleAudits_right (n : ℕ) (hn : 1 ≤ n) :
    RightAudits (sampleHistory n hn) (Pubkey.fill 7) sampleAudits := by
  intro leafIdx seq row hrow
  rw [lookup_sampleAudits] at hrow
  split at hrow
  · rename_i hkey
    rw [← Option.some.inj hrow, hkey.2]
    exact ⟨⟨.fill 1, 1, n⟩, List.mem_cons_self, le_refl _, Int.ofNat_le.mpr hn, rfl⟩
  · exact absurd hrow (by simp)

theorem missing_sampleAudits {seq : ℕ} : Missing sampleAudits (Pubkey.fill 7) seq ↔ seq ≠ 1 := by
  constructor
  · intro h heq
    have hzero := h 0
    rw [lookup_sampleAudits, heq] at hzero
    exact absurd hzero (by simp)
  · intro hne leafIdx
    rw [lookup_sampleAudits, if_neg fun h => hne (Int.ofNat.inj h.2)]

/-- Transactions with one change each. -/
theorem single_changes_filled : Filled 1000 (sampleHistory 1 (le_refl 1)) (Pubkey.fill 7) sampleAudits := by
  refine (filled_iff (le_refl 1000) (sampleAudits_right 1 (le_refl 1))).mpr ?_
  intro t ht seq seq' hcarries hcarries' hmissing
  rw [missing_sampleAudits] at hmissing ⊢
  simp only [sampleHistory, List.mem_cons, List.not_mem_nil, or_false] at ht
  unfold Transaction.Carries at hcarries hcarries'
  rcases ht with rfl | rfl
  · dsimp only at hcarries hcarries'
    omega
  · dsimp only at hcarries hcarries'
    omega

/-- A transaction with an audited and a missing change. -/
theorem bound_is_not_crawled :
    RightAudits (sampleHistory 2 (by decide)) (Pubkey.fill 7) sampleAudits ∧
      ¬ Filled 1000 (sampleHistory 2 (by decide)) (Pubkey.fill 7) sampleAudits := by
  have haudits := sampleAudits_right 2 (by decide)
  refine ⟨haudits, ?_⟩
  intro ⟨all, enough, hspawn, hsent⟩
  have ht : (⟨.fill 1, 1, 2⟩ : Transaction) ∈ (sampleHistory 2 (by decide)).txs := List.mem_cons_self
  obtain ⟨g, hg, hin⟩ := (hsent (max enough 3) (le_max_left _ _)).2 _ ht
    ⟨2, ⟨by decide, by decide⟩, missing_sampleAudits.mpr (by decide)⟩
  rw [mem_crawl (sampleHistory 2 (by decide)) (le_refl 1000) g (lt_of_lt_of_le (by decide) (le_max_right _ _))
    ht] at hin
  have hone : (⟨.fill 1, 1, 2⟩ : Transaction).Carries 1 := ⟨by decide, by decide⟩
  exact not_mem_range_of_audited haudits hspawn ht hone
    ((mem_auditRows _ _ (1, (Signature.fill 1).bytes)).mpr ⟨0, _, by rw [lookup_sampleAudits]; rfl, rfl⟩) rfl
    g hg hin

end DasIndexer.Ops
