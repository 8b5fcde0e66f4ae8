import DasIndexer.Grpc.Reindex
import Mathlib.Data.List.DropRight
import Mathlib.Data.List.TakeWhile

/-!
# The URL that is stored and the URL that is downloaded

Each writer of `asset_data` stores a URL and returns the download it asks for; the result of the download is
stored under the condition that the row still has the URL of the download.  `DownloadMetadataInfo.new` trims
the URL and removes its NULs, after the writers have done so in their own ways: Bubblegum removes the NULs,
Token Metadata and Core trim and then remove the NULs.

A URL without NULs is trimmed once more by `new`, and this changes it when removing the NULs has left a
whitespace at one end.  The writer of Token-2022 does not call `new`, but its column drops the spaces past 200
characters.  **`download_is_stored_iff`** has the condition for each of the five writers.
-/

namespace DasIndexer

open Sql

/-! ### Trimming -/

/-- The text neither begins nor ends with whitespace. -/
def CleanEnds (s : String) : Prop :=
  (∀ c, s.toList.head? = some c → isWhitespace c = false) ∧
    ∀ c, s.toList.getLast? = some c → isWhitespace c = false

theorem trim_toList (s : String) :
    (trim s).toList = (s.toList.dropWhile isWhitespace).rdropWhile isWhitespace := by
  rw [trim, String.toList_ofList]
  rfl

theorem dropWhile_isWhitespace_eq_self_iff (cs : List Char) :
    cs.dropWhile isWhitespace = cs ↔ ∀ c, cs.head? = some c → isWhitespace c = false := by
  cases cs with
  | nil => simp
  | cons c cs =>
    rw [List.dropWhile_eq_self_iff]
    simp

theorem rdropWhile_isWhitespace_eq_self_iff (cs : List Char) :
    cs.rdropWhile isWhitespace = cs ↔ ∀ c, cs.getLast? = some c → isWhitespace c = false := by
  rw [List.rdropWhile_eq_self_iff]
  constructor
  · intro h c hc
    obtain ⟨front, rfl⟩ := List.getLast?_eq_some_iff.mp hc
    have hlast := h (List.append_ne_nil_of_right_ne_nil front (List.cons_ne_nil c []))
    rw [List.getLast_append_singleton] at hlast
    exact eq_false_of_ne_true hlast
  · intro h hne
    rw [h _ (List.getLast?_eq_getLast_of_ne_nil hne)]
    exact Bool.false_ne_true

/-- Trimming a text changes it unless both of its ends are clean. -/
theorem trim_eq_self_iff (s : String) : trim s = s ↔ CleanEnds s := by
  rw [CleanEnds, ← dropWhile_isWhitespace_eq_self_iff, ← rdropWhile_isWhitespace_eq_self_iff,
    ← String.toList_inj, trim_toList]
  constructor
  · intro h
    -- nothing was dropped on the right, so nothing on the left
    have hprefix := List.rdropWhile_prefix isWhitespace (s.toList.dropWhile isWhitespace)
    have hsuffix := List.dropWhile_suffix (l := s.toList) isWhitespace
    rw [h] at hprefix
    have hleft : s.toList.dropWhile isWhitespace = s.toList :=
      hsuffix.eq_of_length_le hprefix.length_le
    rw [hleft] at h
    exact ⟨hleft, h⟩
  · intro ⟨hleft, hright⟩
    rw [hleft, hright]

/-- Spaces at the end are trimmed off. -/
theorem trim_congr_of_append {s t : String} {spaces : List Char} (hspaces : ∀ c ∈ spaces, c = ' ')
    (h : s.toList = t.toList ++ spaces) : trim s = trim t := by
  have hall : ∀ c ∈ spaces, isWhitespace c = true := by
    intro c hc
    rw [hspaces c hc]
    decide
  rw [← String.toList_inj, trim_toList, trim_toList, h, List.dropWhile_append]
  split
  · rename_i hempty
    rw [List.isEmpty_iff.mp hempty, List.dropWhile_eq_nil_iff.mpr hall]
  · rw [List.rdropWhile, List.reverse_append, List.dropWhile_append_of_pos fun c hc =>
      hall c (List.mem_reverse.mp hc)]
    rfl

/-- Trimming a text that fits its column leaves what the column keeps, if and only if that has clean ends. -/
theorem trim_eq_cut_iff {s : String} (h : Varchar.Fits 200 s) :
    trim s = (Varchar.cut 200 s).1 ↔ CleanEnds (Varchar.cut 200 s).1 := by
  obtain ⟨spaces, hspaces, heq⟩ := h.exists_toList_eq
  rw [trim_congr_of_append hspaces heq]
  exact trim_eq_self_iff _

theorem stripNul_toList (s : String) : (stripNul s).toList = s.toList.filter (· ≠ '\x00') := by
  rw [stripNul, String.toList_ofList]

/-- `new` trims a text that has no NULs. -/
theorem new_uri_stripNul (id : Bytes) (s : String) :
    (DownloadMetadataInfo.new id (stripNul s)).uri = trim (stripNul s) := by
  show stripNul (trim (stripNul s)) = trim (stripNul s)
  rw [← String.toList_inj, stripNul_toList, List.filter_eq_self]
  intro c hc
  have hmem : c ∈ (stripNul s).toList := by
    rw [trim_toList] at hc
    exact (List.dropWhile_sublist _).subset ((List.rdropWhile_prefix _ _).subset hc)
  rw [stripNul_toList] at hmem
  exact (List.mem_filter.mp hmem).2

/-- What a writer returns that stores a URL without NULs and asks for it by `new`. -/
def newDownload (id : Bytes) (url : String) : Option DownloadMetadataInfo :=
  if url = "" then none else some (.new id url)

theorem newDownload_stripNul_iff (id : Bytes) (s : String) :
    (∀ info, newDownload id (stripNul s) = some info →
      info.assetDataId = id ∧ info.uri = stripNul s) ↔ CleanEnds (stripNul s) := by
  rw [← trim_eq_self_iff, newDownload]
  by_cases hempty : stripNul s = ""
  · rw [if_pos hempty, hempty]
    exact iff_of_true (fun info h => by cases h) rfl
  · rw [if_neg hempty]
    constructor
    · intro h
      rw [← new_uri_stripNul id s]
      exact (h _ rfl).2
    · intro htrim info hinfo
      cases hinfo
      exact ⟨rfl, (new_uri_stripNul id s).trans htrim⟩

/-- The same where the URL is longer than its column by some spaces. -/
theorem newDownload_cut_iff (id : Bytes) {s : String} (h : Varchar.Fits 200 (stripNul s)) :
    (∀ info, newDownload id (stripNul s) = some info →
      info.assetDataId = id ∧ info.uri = (Varchar.cut 200 (stripNul s)).1) ↔
      CleanEnds (Varchar.cut 200 (stripNul s)).1 := by
  rw [← trim_eq_cut_iff h, newDownload]
  by_cases hempty : stripNul s = ""
  · rw [if_pos hempty, hempty, Varchar.cut_of_le (by decide)]
    exact iff_of_true (fun info h => by cases h) rfl
  · rw [if_neg hempty]
    constructor
    · intro h
      rw [← new_uri_stripNul id s]
      exact (h _ rfl).2
    · intro htrim info hinfo
      cases hinfo
      exact ⟨rfl, (new_uri_stripNul id s).trans htrim⟩

theorem Bubblegum.downloadOf_eq (id : Bytes) (uri : String) :
    Bubblegum.downloadOf id uri = newDownload id uri := by
  unfold Bubblegum.downloadOf newDownload
  by_cases hempty : uri = ""
  · rw [if_pos hempty, if_pos (String.isEmpty_iff.mpr hempty)]
  · rw [if_neg hempty, if_neg fun h => hempty (String.isEmpty_iff.mp h)]

namespace Grpc.Metadata

open Accounts Bubblegum

/-! ### A writer and its statement -/

/-- The statement by which a writer stores its row. -/
def StoresBy (x : Handler (Option DownloadMetadataInfo)) (w : DataWrite) : Prop :=
  ∀ db, (Session.after x db).assetData = Sql.upsert db.assetData w.id w.upsert

/-- The download that a writer returns, after whatever faults, is that of the URL it stores. -/
def AsksForStored (x : Handler (Option DownloadMetadataInfo)) (w : DataWrite) : Prop :=
  ∀ F world info world', x.run F world = (.ok (some info), world') →
    info.assetDataId = w.id ∧ info.uri = w.row.metadataUrl.1

theorem asksForStored_iff {x : Handler (Option DownloadMetadataInfo)} {w : DataWrite}
    {download : Option DownloadMetadataInfo} {f : Database → Database}
    (hreturns : Session.Returns x download) (hruns : Session.Runs x fun db => (download, f db)) :
    AsksForStored x w ↔
      ∀ info, download = some info → info.assetDataId = w.id ∧ info.uri = w.row.metadataUrl.1 := by
  constructor
  · rintro h info rfl
    have hvalue := (hruns (World.init Database.empty)).1
    exact h noFaults (World.init Database.empty) info _ (Prod.ext hvalue rfl)
  · intro h F world info world' hrun
    exact h info (hreturns F world (some info) world' hrun).symm

/-! ### Bubblegum -/

section Bubblegum

variable (E : Env)

theorem notifyDownload_runs (download : Option DownloadMetadataInfo) :
    Session.Runs (notifyDownload download) fun db => ((), db) := by
  cases download with
  | none => exact Session.Runs.pure ()
  | some info => exact Session.Runs.fallible _

/-- A handler that carries out a plan, up to its notification. -/
theorem runs_of_plan {x : Handler (Option DownloadMetadataInfo)} {bundle : InstructionBundle} {name : String}
    {change : Change} {ws : List TableWrite} {tx : Bytes} {download : Option DownloadMetadataInfo}
    (heq : (x >>= notifyDownload) = (Plan.record change).run E bundle name)
    (hbody : change.body = .ok ws) (htx : Base58.decode bundle.txnId = some tx)
    (hreturns : Session.Returns x download) :
    Session.Runs x fun db => (download, ws.foldl (fun db w => w.apply E db)
      (logEffect change.event bundle.slot tx name db)) := by
  have hplan := Session.Runs.bind (insertChangeLog_runs change.event bundle.slot name htx)
    fun _ => runBody_runs E hbody
  have hrun : Session.Runs (x >>= notifyDownload) fun db => ((), ws.foldl (fun db w => w.apply E db)
      (logEffect change.event bundle.slot tx name db)) := by
    rw [heq]
    exact hplan
  exact Session.Runs.of_bind hrun hreturns (notifyDownload_runs download)

theorem logEffect_assetData (event : ChangeLogEventV1) (slot : ℕ) (tx : Bytes) (name : String)
    (db : Database) : (logEffect event slot tx name db).assetData = db.assetData := by
  obtain ⟨items, audits, backfill, heq⟩ := logEffect_eq event slot tx name db
  rw [heq]

/-- A handler that writes `asset_data` first, and nothing to it after that. -/
theorem stores_of_runs {x : Handler (Option DownloadMetadataInfo)} {download : Option DownloadMetadataInfo}
    {id : Bytes} {row : AssetDataRow} {seq : ℤ} {rest : List TableWrite} {event : ChangeLogEventV1}
    {slot : ℕ} {tx : Bytes} {name : String}
    (h : Session.Runs x fun db => (download, (TableWrite.data id row seq :: rest).foldl
      (fun db w => w.apply E db) (logEffect event slot tx name db)))
    (hrest : ∀ w ∈ rest, w.kind ≠ .data) (db : Database) :
    (Session.after x db).assetData = Sql.upsert db.assetData id (assetDataInfo row seq) := by
  rw [h.after_eq]
  dsimp only
  rw [List.foldl_cons, foldl_assetData hrest, ← logEffect_assetData event slot tx name db]
  rfl

variable (instruction : InstructionName) (le : LeafSchemaEvent) (cl : ChangeLogEventV1)
  (bundle : InstructionBundle) (name : String) (tx : Bytes)

/-- The write of `asset_data` by `mint`. -/
def mintWrite (metadata : Bubblegum.MetadataArgs) : DataWrite :=
  .bubblegum (NormalizedLeafFields.from le.schema).id.bytes (chainMutability metadata.isMutable)
    { name := metadata.name, symbol := metadata.symbol, editionNonce := metadata.editionNonce,
      primarySaleHappened := metadata.primarySaleHappened, tokenStandard := some .nonFungible,
      uses := metadata.uses.map tokenMetadataUses }
    metadata.uri.stripNul bundle.slot (utf8 metadata.name) (utf8 metadata.symbol) cl.seq

theorem mint_stores (metadata : Bubblegum.MetadataArgs) (authority treeId : Pubkey) :
    StoresBy (mint E ⟨instruction, some cl, some le, some (.mint metadata authority treeId)⟩
        { bundle with txnId := Base58.encode tx } name) (mintWrite le cl bundle metadata) ∧
      (AsksForStored (mint E ⟨instruction, some cl, some le, some (.mint metadata authority treeId)⟩
          { bundle with txnId := Base58.encode tx } name) (mintWrite le cl bundle metadata) ↔
        CleanEnds (stripNul metadata.uri.1)) := by
  have hreturns : Session.Returns
      (mint E ⟨instruction, some cl, some le, some (.mint metadata authority treeId)⟩
        { bundle with txnId := Base58.encode tx } name)
      (newDownload (NormalizedLeafFields.from le.schema).id.bytes (stripNul metadata.uri.1)) := by
    rw [← Bubblegum.downloadOf_eq]
    exact Session.Returns.bind fun _ => Session.Returns.bind fun _ => Session.Returns.pure _
  have hplan := mint_eq E ⟨instruction, some cl, some le, some (.mint metadata authority treeId)⟩
    { bundle with txnId := Base58.encode tx } name
  have hruns := runs_of_plan E hplan rfl (Base58.decode_encode tx) hreturns
  constructor
  · exact stores_of_runs E hruns (by simp [TableWrite.kind])
  · rw [asksForStored_iff hreturns hruns]
    exact newDownload_stripNul_iff _ _

/-- The write of `asset_data` by `update_metadata`. -/
def updateMetadataWrite (current : Bubblegum.MetadataArgs) (update : UpdateArgs) : DataWrite :=
  .bubblegum (NormalizedLeafFields.from le.schema).id.bytes
    (chainMutability (update.isMutable.getD current.isMutable))
    { name := update.name.getD current.name, symbol := update.symbol.getD current.symbol,
      editionNonce := current.editionNonce,
      primarySaleHappened := update.primarySaleHappened.getD current.primarySaleHappened,
      tokenStandard := some .nonFungible, uses := current.uses.map tokenMetadataUses }
    (update.uri.getD current.uri).stripNul bundle.slot (utf8 (update.name.getD current.name))
    (utf8 (update.symbol.getD current.symbol)) cl.seq

theorem updateMetadata_stores (current : Bubblegum.MetadataArgs) (update : UpdateArgs) (treeId : Pubkey) :
    StoresBy (updateMetadata E ⟨instruction, some cl, some le, some (.updateMetadata current update treeId)⟩
        { bundle with txnId := Base58.encode tx } name) (updateMetadataWrite le cl bundle current update) ∧
      (AsksForStored
          (updateMetadata E ⟨instruction, some cl, some le, some (.updateMetadata current update treeId)⟩
            { bundle with txnId := Base58.encode tx } name)
          (updateMetadataWrite le cl bundle current update) ↔
        CleanEnds (stripNul (update.uri.getD current.uri).1)) := by
  have hreturns : Session.Returns
      (updateMetadata E ⟨instruction, some cl, some le, some (.updateMetadata current update treeId)⟩
        { bundle with txnId := Base58.encode tx } name)
      (newDownload (NormalizedLeafFields.from le.schema).id.bytes
        (stripNul (update.uri.getD current.uri).1)) := by
    rw [← Bubblegum.downloadOf_eq]
    exact Session.Returns.bind fun _ => Session.Returns.bind fun _ => Session.Returns.pure _
  have hplan := updateMetadata_eq E
    ⟨instruction, some cl, some le, some (.updateMetadata current update treeId)⟩
    { bundle with txnId := Base58.encode tx } name
  have hruns := runs_of_plan E hplan rfl (Base58.decode_encode tx) hreturns
  constructor
  · exact stores_of_runs E hruns (by simp [TableWrite.kind])
  · rw [asksForStored_iff hreturns hruns]
    exact newDownload_stripNul_iff _ _

end Bubblegum

/-! ### Accounts -/

theorem tokenMetadata_stores (masterEditionPda : Pubkey → Pubkey) (m : TokenMetadata.Metadata) (slot : ℕ) :
    StoresBy (TokenMetadata.saveV1Asset masterEditionPda m slot) (.tokenMetadata m slot) ∧
      (AsksForStored (TokenMetadata.saveV1Asset masterEditionPda m slot) (.tokenMetadata m slot) ↔
        CleanEnds (stripNul (trim m.uri.1))) := by
  have hruns := TokenMetadata.saveV1Asset_runs masterEditionPda m slot
  constructor
  · intro db
    rw [hruns.after_eq]
    exact TokenMetadata.metadataEffect_assetData masterEditionPda m slot db
  · have hreturns : Session.Returns (TokenMetadata.saveV1Asset masterEditionPda m slot)
        (TokenMetadata.downloadInfo m) :=
      Session.Returns.bind fun _ => Session.Returns.bind fun _ => Session.Returns.bind fun _ =>
        Session.Returns.bind fun _ => Session.Returns.pure _
    rw [asksForStored_iff hreturns hruns]
    exact newDownload_stripNul_iff m.mint.bytes (trim m.uri.1)

/-- A writer that fails asks for nothing. -/
theorem asksForStored_of_fails {x : Handler (Option DownloadMetadataInfo)} (h : Session.Fails x) (w : DataWrite) :
    AsksForStored x w := fun F world _ _ hrun => absurd hrun (h F world _ _)

/-- A writer that leaves the metadata rows as they are does not store its own. -/
theorem not_storesBy {x : Handler (Option DownloadMetadataInfo)} {w : DataWrite}
    (h : (Session.after x Database.empty).assetData = ∅) : ¬ StoresBy x w := by
  intro hstores
  have hlookup := congrArg (fun t => t.lookup w.id) (h.symm.trans (hstores Database.empty))
  simp only [lookup_upsert_self, AList.lookup_empty] at hlookup
  exact absurd hlookup (by simp)

theorem core_stores (C : MplCore.Env) (id : Pubkey) (kind : MplCore.Kind) (a : MplCore.IndexableAsset)
    (slot : ℕ) :
    (StoresBy (MplCore.saveV1Asset C id kind a slot) (.core id a slot) ↔ a.Fits) ∧
      (AsksForStored (MplCore.saveV1Asset C id kind a slot) (.core id a slot) ↔
        (a.Fits → CleanEnds a.storedUrl.1)) := by
  by_cases hfits : a.Fits
  · have hruns := MplCore.saveV1Asset_runs C id kind slot hfits
    constructor
    · refine iff_of_true (fun db => ?_) hfits
      rw [hruns.after_eq]
      exact (MplCore.saveEffect_assetData C id kind a slot db).trans (if_pos hfits)
    · have hreturns : Session.Returns (MplCore.saveV1Asset C id kind a slot) (MplCore.downloadInfo id a) :=
        Session.Returns.bind fun _ => Session.Returns.bind fun _ => Session.Returns.pure _
      rw [asksForStored_iff hreturns hruns, forall_prop_of_true hfits]
      exact newDownload_cut_iff id.bytes hfits
  · have hfails : Session.Fails (MplCore.saveV1Asset C id kind a slot) := by
      obtain ⟨e, hurl⟩ := MplCore.IndexableAsset.url_of_not_fits hfits
      exact .bind_right _ fun _ => .bind (.transaction _ (.bind_right _ fun _ => .bind_right _ fun _ =>
        .bind (.writeChecked _ hurl _) _)) _
    constructor
    · refine iff_of_false (not_storesBy ?_) hfits
      obtain ⟨e, w', hrun, hdb⟩ := MplCore.saveV1Asset_refused C id kind slot hfits (World.init Database.empty)
      obtain ⟨t, heffect⟩ := MplCore.saveEffect_of_not_fits C id kind slot hfits Database.empty
      rw [Session.after, hrun, hdb]
      exact congrArg Database.assetData heffect
    · exact iff_of_true (asksForStored_of_fails hfails _) fun h => absurd h hfits

theorem tokenExtensions_stores (m : ShadowMetadata) (key : Bytes) (slot : ℕ) :
    (StoresBy (upsertShadowAssetData m key slot) (.tokenExtensions m key slot) ↔ m.Fits) ∧
      (AsksForStored (upsertShadowAssetData m key slot) (.tokenExtensions m key slot) ↔
        (m.Fits → m.uri.length ≤ 200)) := by
  by_cases hfits : m.Fits
  · have hruns := MintUpdate.upsertShadowAssetData_runs key slot hfits
    constructor
    · refine iff_of_true (fun db => ?_) hfits
      rw [hruns.after_eq]
      simp only [MintUpdate.shadowEffect, if_pos hfits]
      rfl
    · have hreturns : Session.Returns (upsertShadowAssetData m key slot)
          (if m.uri = "" then none else some { assetDataId := key, uri := m.uri }) := by
        refine Session.Returns.bind fun _ => Session.Returns.bind fun _ => ?_
        split <;> exact Session.Returns.pure _
      rw [asksForStored_iff hreturns hruns, forall_prop_of_true hfits, ← Varchar.cut_eq_self_iff]
      by_cases hempty : m.uri = ""
      · rw [if_pos hempty, hempty, Varchar.cut_of_le (by decide)]
        exact iff_of_true (fun info h => by cases h) rfl
      · rw [if_neg hempty]
        constructor
        · intro h
          exact (h _ rfl).2.symm
        · intro hcut info hinfo
          cases hinfo
          exact ⟨rfl, hcut.symm⟩
  · have hfails : Session.Fails (upsertShadowAssetData m key slot) := by
      obtain ⟨e, hurl⟩ := ShadowMetadata.url_of_not_fits hfits
      exact .bind (.writeChecked _ hurl _) _
    constructor
    · refine iff_of_false (not_storesBy ?_) hfits
      obtain ⟨e, hurl⟩ := ShadowMetadata.url_of_not_fits hfits
      rw [Session.after, upsertShadowAssetData, hurl]
      rfl
    · exact iff_of_true (asksForStored_of_fails hfails _) fun h => absurd h hfits

/-! ### The five writers -/

/-- A call of a writer that returns a download. -/
inductive WriterCall where
  | mint (E : Bubblegum.Env) (instruction : InstructionName) (le : LeafSchemaEvent) (cl : ChangeLogEventV1)
      (bundle : InstructionBundle) (name : String) (tx : Bytes) (metadata : Bubblegum.MetadataArgs)
      (authority treeId : Pubkey)
  | updateMetadata (E : Bubblegum.Env) (instruction : InstructionName) (le : LeafSchemaEvent)
      (cl : ChangeLogEventV1) (bundle : InstructionBundle) (name : String) (tx : Bytes)
      (current : Bubblegum.MetadataArgs) (update : UpdateArgs) (treeId : Pubkey)
  | tokenMetadata (masterEditionPda : Pubkey → Pubkey) (m : TokenMetadata.Metadata) (slot : ℕ)
  | core (C : MplCore.Env) (id : Pubkey) (kind : MplCore.Kind) (a : MplCore.IndexableAsset) (slot : ℕ)
  | tokenExtensions (m : ShadowMetadata) (key : Bytes) (slot : ℕ)

namespace WriterCall

/-- What the writer does. -/
def handler : WriterCall → Handler (Option DownloadMetadataInfo)
  | .mint E instruction le cl bundle name tx metadata authority treeId =>
    Bubblegum.mint E ⟨instruction, some cl, some le, some (.mint metadata authority treeId)⟩
      { bundle with txnId := Base58.encode tx } name
  | .updateMetadata E instruction le cl bundle name tx current update treeId =>
    Bubblegum.updateMetadata E ⟨instruction, some cl, some le, some (.updateMetadata current update treeId)⟩
      { bundle with txnId := Base58.encode tx } name
  | .tokenMetadata masterEditionPda m slot => TokenMetadata.saveV1Asset masterEditionPda m slot
  | .core C id kind a slot => MplCore.saveV1Asset C id kind a slot
  | .tokenExtensions m key slot => upsertShadowAssetData m key slot

/-- The statement by which it stores the URL. -/
def write : WriterCall → DataWrite
  | .mint _ _ le cl bundle _ _ metadata _ _ => mintWrite le cl bundle metadata
  | .updateMetadata _ _ le cl bundle _ _ current update _ => updateMetadataWrite le cl bundle current update
  | .tokenMetadata _ m slot => .tokenMetadata m slot
  | .core _ id _ a slot => .core id a slot
  | .tokenExtensions m key slot => .tokenExtensions m key slot

/-- The URI fits its column; those of Bubblegum and of Token Metadata always do. -/
def Fits : WriterCall → Prop
  | .core _ _ _ a _ => a.Fits
  | .tokenExtensions m _ _ => m.Fits
  | _ => True

/-- The URI as the writer stores it neither begins nor ends with whitespace; that of Token-2022 is not longer
than its column. -/
def CleanUri : WriterCall → Prop
  | .mint _ _ _ _ _ _ _ metadata _ _ => CleanEnds (stripNul metadata.uri.1)
  | .updateMetadata _ _ _ _ _ _ _ current update _ => CleanEnds (stripNul (update.uri.getD current.uri).1)
  | .tokenMetadata _ m _ => CleanEnds (stripNul (trim m.uri.1))
  | .core _ _ _ a _ => CleanEnds a.storedUrl.1
  | .tokenExtensions m _ _ => m.uri.length ≤ 200

end WriterCall

/-- **The download asked for is the URL stored**, where one is stored, of a Bubblegum mint or update if and only
if the URI without its NULs neither begins nor ends with whitespace; of a Token Metadata or Core account, if and
only if this holds of what is stored of the URI trimmed and then without its NULs; of a Token-2022 mint, if and
only if the URI has at most 200 characters.  A URI that does not fit is not stored, and no download is asked for. -/
theorem download_is_stored_iff (w : WriterCall) :
    (StoresBy w.handler w.write ↔ w.Fits) ∧ (AsksForStored w.handler w.write ↔ (w.Fits → w.CleanUri)) := by
  cases w with
  | mint E instruction le cl bundle name tx metadata authority treeId =>
    obtain ⟨hstores, hasks⟩ := mint_stores E instruction le cl bundle name tx metadata authority treeId
    exact ⟨iff_of_true hstores trivial, hasks.trans ⟨fun h _ => h, fun h => h trivial⟩⟩
  | updateMetadata E instruction le cl bundle name tx current update treeId =>
    obtain ⟨hstores, hasks⟩ := updateMetadata_stores E instruction le cl bundle name tx current update treeId
    exact ⟨iff_of_true hstores trivial, hasks.trans ⟨fun h _ => h, fun h => h trivial⟩⟩
  | tokenMetadata masterEditionPda m slot =>
    obtain ⟨hstores, hasks⟩ := tokenMetadata_stores masterEditionPda m slot
    exact ⟨iff_of_true hstores trivial, hasks.trans ⟨fun h _ => h, fun h => h trivial⟩⟩
  | core C id kind a slot => exact core_stores C id kind a slot
  | tokenExtensions m key slot => exact tokenExtensions_stores m key slot

/-- A URL after a NUL and a blank. -/
def nulUri : MetadataUrl := ⟨"\x00 https://example.com/1.json", Nat.le_of_ble_eq_true rfl⟩

/-- A metadata account with this URI. -/
def metadataWith (uri : MetadataUrl) : TokenMetadata.Metadata where
  updateAuthority := Pubkey.fill 1
  mint := Pubkey.fill 2
  name := "A"
  symbol := "A"
  uri := uri
  sellerFeeBasisPoints := 0
  creators := none
  primarySaleHappened := false
  isMutable := true
  editionNonce := none
  tokenStandard := none
  collection := none
  uses := none

/-- A blank between a NUL and the URL is stored, and is not in the URL of the download, so that its result does
not match the row. -/
theorem blank_after_nul :
    ¬ AsksForStored (TokenMetadata.saveV1Asset id (metadataWith nulUri) 1)
      (.tokenMetadata (metadataWith nulUri) 1) ∧
    ∃ info, TokenMetadata.downloadInfo (metadataWith nulUri) = some info ∧
      matchesRow ⟨info.assetDataId, info.uri, 0⟩
        (Session.after (TokenMetadata.saveV1Asset id (metadataWith nulUri) 1)
          Database.empty).assetData = false := by
  constructor
  · rw [(tokenMetadata_stores id _ 1).2]
    rintro ⟨hhead, _⟩
    exact absurd (hhead ' ' (by decide +kernel)) (by decide)
  · refine ⟨_, rfl, ?_⟩
    decide +kernel

end Grpc.Metadata

end DasIndexer
