import DasIndexer.Accounts.TokenMetadata
import DasIndexer.Lib.LastWriter

/-!
# Edition accounts

The edition account of a mint is stored as an attachment under its own address, and two handlers write that
row.  An edition account brings its type and its data, and its slot has to be at least the stored one.  A
metadata account of the mint sees to it that the row is there: it proposes a row without data that carries
the slot of the metadata account, and does nothing when there is one.

The slot column is then compared across the two accounts.  A metadata account that is handled first and is
newer than the edition account keeps the edition's data out for good (`newer_metadata_keeps_edition_out`).
**`edition_kept_iff`** is the exact condition: the row ends with the newest edition, in every order and under
every repetition, unless the first update handled is a metadata account that is newer than every edition.
The asset of the row is not at risk: it is set by its own statement, which looks at no slot.
-/

namespace DasIndexer.Accounts.Editions

open Sql Session LastWriter ProgramTransformerError
open TokenMetadata

/-! ### The handlers -/

/-- `mpl_token_metadata::types::Key`. -/
inductive Key where
  | uninitialized | editionV1 | masterEditionV1 | reservationListV1 | metadataV1 | reservationListV2
  | masterEditionV2 | editionMarker | useAuthorityRecord | collectionAuthorityRecord | tokenOwnedEscrow
  | tokenRecord | metadataDelegate | editionMarkerV2 | holderDelegate
deriving DecidableEq

structure MasterEdition where
  key : Key
  supply : ℕ
  maxSupply : Option ℕ
deriving DecidableEq

/-- `DeprecatedMasterEditionV1`, without the fields that the handler does not read. -/
structure DeprecatedMasterEditionV1 where
  supply : ℕ
  maxSupply : Option ℕ
deriving DecidableEq

structure Edition where
  key : Key
  parent : Pubkey
  edition : ℕ
deriving DecidableEq

/-- `serde_json::to_value` of the account types, which are not part of this repository. -/
structure Serde where
  masterEdition : MasterEdition → Json
  edition : Edition → Json

/-- The statement of `save_master_edition` and of `save_edition`. -/
def editionColumns (attachmentType : V1AccountAttachments) (data : Json) (slot : ℕ) : Upsert AttachmentRow where
  new := { attachmentType, data := some data, slotUpdated := slot }
  guard r := ge (some (slot : ℤ)) (some r.slotUpdated)
  set r := { r with attachmentType, data := some data, slotUpdated := slot }

variable (S : Serde)

/-- `save_master_edition`. -/
def saveMasterEdition (version : V1AccountAttachments) (id : Pubkey) (slot : ℕ) (m : MasterEdition) :
    Handler Unit :=
  Session.write storageWriteError (upsertAttachment id.bytes (editionColumns version (S.masterEdition m) slot))

/-- `save_v2_master_edition`. -/
def saveV2MasterEdition (id : Pubkey) (slot : ℕ) (m : MasterEdition) : Handler Unit :=
  saveMasterEdition S .masterEditionV2 id slot m

/-- What `save_v1_master_edition` keeps of the deprecated account. -/
def bridge (m : DeprecatedMasterEditionV1) : MasterEdition :=
  { supply := m.supply, maxSupply := m.maxSupply, key := .masterEditionV1 }

/-- `save_v1_master_edition`. -/
def saveV1MasterEdition (id : Pubkey) (slot : ℕ) (m : DeprecatedMasterEditionV1) : Handler Unit :=
  saveMasterEdition S .masterEditionV1 id slot (bridge m)

/-- `save_edition`. -/
def saveEdition (id : Pubkey) (slot : ℕ) (e : Edition) : Handler Unit :=
  Session.write storageWriteError (upsertAttachment id.bytes (editionColumns .edition (S.edition e) slot))

/-- The accounts that stand at an edition address. -/
inductive EditionAccount where
  | masterEditionV1 (m : DeprecatedMasterEditionV1)
  | masterEditionV2 (m : MasterEdition)
  | editionV1 (e : Edition)
deriving DecidableEq

/-- The edition branches of `handle_token_metadata_account`. -/
def handleEdition (id : Pubkey) (slot : ℕ) : EditionAccount → Handler Unit
  | .masterEditionV1 m => Session.transaction storageWriteError (saveV1MasterEdition S id slot m)
  | .masterEditionV2 m => Session.transaction storageWriteError (saveV2MasterEdition S id slot m)
  | .editionV1 e => Session.transaction storageWriteError (saveEdition S id slot e)

/-- The type that an account is stored with. -/
def EditionAccount.attachmentType : EditionAccount → V1AccountAttachments
  | masterEditionV1 _ => .masterEditionV1
  | masterEditionV2 _ => .masterEditionV2
  | editionV1 _ => .edition

/-- The data that it is stored with. -/
def EditionAccount.data : EditionAccount → Json
  | masterEditionV1 m => S.masterEdition (bridge m)
  | masterEditionV2 m => S.masterEdition m
  | editionV1 e => S.edition e

/-- The tables after an edition account. -/
def editionEffect (id : Pubkey) (slot : ℕ) (a : EditionAccount) : Database → Database :=
  upsertAttachment id.bytes (editionColumns a.attachmentType (a.data S) slot)

theorem handleEdition_runs (id : Pubkey) (slot : ℕ) (a : EditionAccount) :
    Runs (handleEdition S id slot a) fun db => ((), editionEffect S id slot a db) := by
  cases a with
  | masterEditionV1 m => exact Runs.transaction _ (Runs.write _ _)
  | masterEditionV2 m => exact Runs.transaction _ (Runs.write _ _)
  | editionV1 e => exact Runs.transaction _ (Runs.write _ _)

/-! ### Updates of one mint -/

/-- A metadata account of the mint, or an account at its edition address. -/
inductive Update (mint : Pubkey) where
  | metadata (m : Metadata) (slot : ℕ) (mint_eq : m.mint = mint)
  | edition (a : EditionAccount) (slot : ℕ)

namespace Update

variable {mint : Pubkey} (masterEditionPda : Pubkey → Pubkey)

def handle : Update mint → Handler Unit
  | metadata m slot _ => handleMetadata masterEditionPda m slot
  | edition a slot => handleEdition S (masterEditionPda mint) slot a

def effect : Update mint → Database → Database
  | metadata m slot _ => metadataEffect masterEditionPda m slot
  | edition a slot => editionEffect S (masterEditionPda mint) slot a

theorem handle_runs (u : Update mint) :
    Runs (u.handle S masterEditionPda) fun db => ((), u.effect S masterEditionPda db) := by
  cases u with
  | metadata m slot _ => exact handleMetadata_runs masterEditionPda m slot
  | edition a slot => exact handleEdition_runs S (masterEditionPda mint) slot a

/-- A metadata account with a non-fungible token standard. -/
def isNonFungible : Update mint → Bool
  | metadata m _ _ => (m.tokenStandard.map isNonFungibleStandard).getD false
  | edition _ _ => false

/-- What an update leaves in the row of the edition address. -/
def onRow (o : Option AttachmentRow) : Update mint → AttachmentRow
  | u@(metadata _ slot _) =>
    let r := (masterEditionAttachment slot).row o
    if u.isNonFungible then (assetAttachment mint.bytes slot).row (some r) else r
  | edition a slot => (editionColumns a.attachmentType (a.data S) slot).row o

theorem lookup_effect (u : Update mint) (db : Database) :
    (u.effect S masterEditionPda db).attachments.lookup (masterEditionPda mint).bytes
      = some (u.onRow S (db.attachments.lookup (masterEditionPda mint).bytes)) := by
  cases u with
  | metadata m slot hmint =>
    simp only [effect, metadataEffect_attachments, onRow, hmint]
    by_cases hnon : (m.tokenStandard.map isNonFungibleStandard).getD false = true
    · have hthis : (metadata m slot hmint).isNonFungible = true := hnon
      rw [if_pos hnon, if_pos hthis, lookup_upsert_self, lookup_upsert_self]
    · have hthis : ¬ (metadata m slot hmint).isNonFungible = true := hnon
      rw [if_neg hnon, if_neg hthis, lookup_upsert_self]
  | edition a slot => exact lookup_upsert_self _ _ _

/-- What an update writes to the type and the data: an edition its own, a metadata account nothing. -/
def editionWrite : Update mint → Option (ℤ × V1AccountAttachments × Option Json)
  | metadata _ _ _ => none
  | edition a slot => some ((slot : ℤ), a.attachmentType, some (a.data S))

end Update

/-! ### The row of the edition address -/

/-- The slot, the type and the data of a row, as a cell. -/
def cellOf (r : AttachmentRow) : ℤ × V1AccountAttachments × Option Json :=
  (r.slotUpdated, r.attachmentType, r.data)

section Rows

variable {mint : Pubkey}

/-- Over a stored row, the cell sees the editions only. -/
theorem cellOf_onRow_some (u : Update mint) (r : AttachmentRow) :
    some (cellOf (u.onRow S (some r))) = (u.editionWrite S).toList.foldl (newer true) (some (cellOf r)) := by
  cases u with
  | metadata m slot hmint =>
    simp only [Update.onRow, masterEditionAttachment, Upsert.row_doNothing_some]
    split <;> rfl
  | edition a slot =>
    show _ = newer true (some (cellOf r)) ((slot : ℤ), a.attachmentType, some (a.data S))
    rw [newer_true_some, Update.onRow, Upsert.row_some]
    show _ = if r.slotUpdated ≤ (slot : ℤ) then _ else _
    by_cases hle : r.slotUpdated ≤ (slot : ℤ)
    · have hguard : holds ((editionColumns a.attachmentType (a.data S) slot).guard r) = true := by
        simpa [editionColumns] using hle
      rw [if_pos hguard, if_pos hle]
      rfl
    · have hguard : ¬ holds ((editionColumns a.attachmentType (a.data S) slot).guard r) = true := by
        simpa [editionColumns] using hle
      rw [if_neg hguard, if_neg hle]

/-- The asset of the row is set by a non-fungible metadata account, and nothing takes it away. -/
theorem assetId_onRow (u : Update mint) (o : Option AttachmentRow)
    (h : u.isNonFungible = true ∨ ∃ r, o = some r ∧ r.assetId = some mint.bytes) :
    (u.onRow S o).assetId = some mint.bytes := by
  cases u with
  | metadata m slot hmint =>
    simp only [Update.onRow]
    split
    · rfl
    · rename_i hnot
      obtain ⟨r, rfl, hr⟩ := h.resolve_left hnot
      exact hr
  | edition a slot =>
    obtain ⟨r, rfl, hr⟩ := h.resolve_left (by simp [Update.isNonFungible])
    rcases (editionColumns a.attachmentType (a.data S) slot).row_some_cases r with hrow | hrow
    · rw [Update.onRow, hrow]
      exact hr
    · rw [Update.onRow, hrow]
      exact hr

end Rows

/-! ### Runs -/

section Runs

variable (masterEditionPda : Pubkey → Pubkey) {mint : Pubkey}

/-- The row of the edition address after a run. -/
def rowAfter (us : List (Update mint)) (db : Database) : Option AttachmentRow :=
  (afterAll (Update.handle S masterEditionPda) us db).attachments.lookup (masterEditionPda mint).bytes

theorem rowAfter_cons (u : Update mint) (us : List (Update mint)) (db : Database) :
    rowAfter S masterEditionPda (u :: us) db
      = rowAfter S masterEditionPda us (u.effect S masterEditionPda db) := by
  rw [rowAfter, afterAll_cons, (u.handle_runs S masterEditionPda).after_eq]
  rfl

/-- Once there is a row, the cell is that of the newest edition since. -/
theorem cell_rowAfter (us : List (Update mint)) {db : Database} {r : AttachmentRow}
    (hr : db.attachments.lookup (masterEditionPda mint).bytes = some r) :
    (rowAfter S masterEditionPda us db).map cellOf
      = (us.filterMap (Update.editionWrite S)).foldl (newer true) (some (cellOf r)) := by
  induction us generalizing db r with
  | nil => rw [rowAfter, afterAll_nil, hr]; rfl
  | cons u us ih =>
    have hstep : (u.effect S masterEditionPda db).attachments.lookup (masterEditionPda mint).bytes
        = some (u.onRow S (some r)) := by rw [u.lookup_effect S masterEditionPda, hr]
    rw [rowAfter_cons, ih hstep, cellOf_onRow_some]
    cases u with
    | metadata m slot hmint => rfl
    | edition a slot => rfl

/-- Once the asset is set it stays, and a non-fungible metadata account sets it. -/
theorem assetId_rowAfter (us : List (Update mint)) {db : Database}
    (h : (∃ u ∈ us, u.isNonFungible = true) ∨
      ∃ r, db.attachments.lookup (masterEditionPda mint).bytes = some r ∧ r.assetId = some mint.bytes) :
    ∃ r, rowAfter S masterEditionPda us db = some r ∧ r.assetId = some mint.bytes := by
  induction us generalizing db with
  | nil =>
    rcases h with ⟨u, hu, _⟩ | h
    · exact absurd hu List.not_mem_nil
    · exact h
  | cons u us ih =>
    rw [rowAfter_cons]
    apply ih
    rcases h with ⟨v, hv, hnon⟩ | h
    · rcases List.mem_cons.mp hv with rfl | hv
      · exact Or.inr ⟨_, v.lookup_effect S masterEditionPda db, assetId_onRow S v _ (Or.inl hnon)⟩
      · exact Or.inl ⟨v, hv, hnon⟩
    · exact Or.inr ⟨_, u.lookup_effect S masterEditionPda db, assetId_onRow S u _ (Or.inr h)⟩

/-- The row has the type and the data of the newest edition, and the mint as its asset when some metadata
account is non-fungible. -/
def EditionKept (us : List (Update mint)) (row : Option AttachmentRow) : Prop :=
  (∀ a slot, .edition a slot ∈ us → (∀ a' slot', .edition a' slot' ∈ us → slot' ≤ slot) →
    ∃ r, row = some r ∧ r.attachmentType = a.attachmentType ∧ r.data = some (a.data S)) ∧
  ((∃ u ∈ us, u.isNonFungible = true) → ∃ r, row = some r ∧ r.assetId = some mint.bytes)

/-- A metadata account that is handled first is not newer than every edition. -/
def PlaceholderIsOld (us : List (Update mint)) : Prop :=
  ∀ m slot hmint rest, us = .metadata m slot hmint :: rest → (∃ a slot', .edition a slot' ∈ us) →
    ∃ a slot', .edition a slot' ∈ us ∧ slot ≤ slot'

theorem mem_editionWrites (us : List (Update mint)) (w : ℤ × V1AccountAttachments × Option Json) :
    w ∈ us.filterMap (Update.editionWrite S) ↔
      ∃ a, ∃ slot : ℕ, .edition a slot ∈ us ∧ w = ((slot : ℤ), a.attachmentType, some (a.data S)) := by
  rw [List.mem_filterMap]
  constructor
  · intro ⟨u, hu, hw⟩
    cases u with
    | metadata m slot hmint => exact absurd hw (by simp [Update.editionWrite])
    | edition a slot => exact ⟨a, slot, hu, (Option.some.inj hw).symm⟩
  · intro ⟨a, slot, hu, hw⟩
    exact ⟨_, hu, by rw [hw]; rfl⟩

/-- What the first update leaves in the cell before any edition is taken: a metadata account its
placeholder. -/
def placeholder : List (Update mint) → Option (ℤ × V1AccountAttachments × Option Json)
  | .metadata _ slot _ :: _ => some ((slot : ℤ), .masterEditionV2, none)
  | _ => none

/-- **A run of the handlers is a run of the cell**, from the placeholder on. -/
theorem cell_after (us : List (Update mint)) {db : Database}
    (hnone : db.attachments.lookup (masterEditionPda mint).bytes = none) :
    (rowAfter S masterEditionPda us db).map cellOf
      = (us.filterMap (Update.editionWrite S)).foldl (newer true) (placeholder us) := by
  cases us with
  | nil => rw [rowAfter, afterAll_nil, hnone]; rfl
  | cons u us =>
    have hstep : (u.effect S masterEditionPda db).attachments.lookup (masterEditionPda mint).bytes
        = some (u.onRow S none) := by rw [u.lookup_effect S masterEditionPda, hnone]
    rw [rowAfter_cons, cell_rowAfter S masterEditionPda us hstep]
    cases u with
    | metadata m slot hmint =>
      have hcell : cellOf ((Update.metadata m slot hmint).onRow S none)
          = ((slot : ℤ), .masterEditionV2, none) := by
        simp only [Update.onRow]
        split <;> rfl
      rw [hcell]
      rfl
    | edition a slot => rfl

theorem row_of_cell {o : Option AttachmentRow} {slot : ℤ} {t : V1AccountAttachments} {data : Option Json}
    (h : o.map cellOf = some (slot, t, data)) : ∃ r, o = some r ∧ r.attachmentType = t ∧ r.data = data := by
  obtain ⟨r, hr, hcell⟩ := Option.map_eq_some_iff.mp h
  obtain ⟨_, htail⟩ := Prod.mk.inj hcell
  obtain ⟨ht, hdata⟩ := Prod.mk.inj htail
  exact ⟨r, hr, ht, hdata⟩

/-- **When the edition's data survives.**  From tables without a row for the edition address, a run ends
with the newest edition and the mint in the row exactly when it does not start with a metadata account
that is newer than every edition. -/
theorem edition_kept_iff (us : List (Update mint)) (db : Database)
    (hnone : db.attachments.lookup (masterEditionPda mint).bytes = none)
    (hslots : ∀ a a' slot, Update.edition a slot ∈ us → .edition a' slot ∈ us → a = a') :
    EditionKept S us (rowAfter S masterEditionPda us db) ↔ PlaceholderIsOld us := by
  have hcell := cell_after S masterEditionPda us hnone
  constructor
  · intro ⟨hnewest, _⟩ m slot hmint rest hus ⟨a, slot', hmem⟩
    -- otherwise the placeholder stays, and it has no data
    by_contra hold
    have hlt : ∀ w ∈ us.filterMap (Update.editionWrite S), w.1 < (slot : ℤ) := by
      intro w hw
      obtain ⟨a₁, slot₁, hmem₁, rfl⟩ := (mem_editionWrites S us w).mp hw
      exact Int.ofNat_lt.mpr (not_le.mp fun hle => hold ⟨a₁, slot₁, hmem₁, hle⟩)
    have hplaceholder : placeholder us = some ((slot : ℤ), .masterEditionV2, none) := by
      rw [hus]
      rfl
    rw [hplaceholder, foldl_newer_of_lt true hlt] at hcell
    obtain ⟨r, hr, _, hdata⟩ := row_of_cell hcell
    -- some edition is the newest
    obtain ⟨n, hn⟩ := Option.isSome_iff_exists.mp (foldl_newer_isSome true
      (us.filterMap (Update.editionWrite S)) none
      (Or.inr (List.ne_nil_of_mem ((mem_editionWrites S us _).mpr ⟨a, slot', hmem, rfl⟩))))
    obtain ⟨hin, hmax, _⟩ := foldl_newer_spec true _ none n hn
    obtain ⟨a₂, slot₂, hmem₂, rfl⟩ := (mem_editionWrites S us n).mp (hin.resolve_right (by simp))
    obtain ⟨r', hr', _, hdata'⟩ := hnewest a₂ slot₂ hmem₂ fun a₃ slot₃ hmem₃ =>
      Int.ofNat_le.mp (hmax _ ((mem_editionWrites S us _).mpr ⟨a₃, slot₃, hmem₃, rfl⟩))
    rw [hr] at hr'
    rw [← Option.some.inj hr', hdata] at hdata'
    exact absurd hdata' (by simp)
  · intro hold
    refine ⟨?_, fun hnon => assetId_rowAfter S masterEditionPda us (Or.inl hnon)⟩
    intro a slot hmem hmax
    have hcons : Consistent (us.filterMap (Update.editionWrite S)) := by
      intro x hx y hy hslot
      obtain ⟨a₁, s₁, h₁, rfl⟩ := (mem_editionWrites S us x).mp hx
      obtain ⟨a₂, s₂, h₂, rfl⟩ := (mem_editionWrites S us y).mp hy
      obtain rfl : s₁ = s₂ := Int.ofNat.inj hslot
      rw [hslots a₁ a₂ s₁ h₁ h₂]
    rw [foldl_newer_true_eq hcons ((mem_editionWrites S us _).mpr ⟨a, slot, hmem, rfl⟩)] at hcell
    · exact row_of_cell hcell
    · intro x hx
      obtain ⟨a', slot', hmem', rfl⟩ := (mem_editionWrites S us x).mp hx
      exact Int.ofNat_le.mpr (hmax a' slot' hmem')
    · intro x hx
      cases us with
      | nil => exact absurd hmem List.not_mem_nil
      | cons u rest =>
        cases u with
        | edition a' slot' => exact absurd hx (by simp [placeholder])
        | metadata m slot' hmint =>
          obtain ⟨a', s', hmem', hle⟩ := hold m slot' hmint rest rfl ⟨a, slot, hmem⟩
          rw [← Option.some.inj hx]
          exact Int.ofNat_le.mpr (le_trans hle (hmax a' s' hmem'))

end Runs

/-! ### A newer metadata account that comes first -/

/-- A non-fungible token. -/
def sampleMetadata (mint : Pubkey) : Metadata where
  updateAuthority := .fill 1
  mint := mint
  name := ""
  symbol := ""
  uri := Sql.Varchar.empty
  sellerFeeBasisPoints := 0
  creators := none
  primarySaleHappened := false
  isMutable := true
  editionNonce := none
  tokenStandard := some .nonFungible
  collection := none
  uses := none

/-- Its metadata account. -/
def sampleUpdate (slot : ℕ) : Update (Pubkey.fill 7) := .metadata (sampleMetadata (.fill 7)) slot rfl

/-- Its master edition. -/
def sampleEdition (slot : ℕ) : Update (Pubkey.fill 7) :=
  .edition (.masterEditionV2 ⟨.masterEditionV2, 0, some 0⟩) slot

/-- The derived JSON of a master edition of version 2 and of an edition. -/
def sampleSerde : Serde where
  masterEdition m := .obj [("key", .str "MasterEditionV2"), ("supply", .num m.supply),
    ("max_supply", (m.maxSupply.map fun n => Json.num n).getD .null)]
  edition e := .obj [("key", .str "EditionV1"), ("parent", .str e.parent.toString), ("edition", .num e.edition)]

/-- An edition that is newer than the metadata account gets through. -/
theorem newer_edition_is_kept :
    EditionKept sampleSerde [sampleUpdate 5, sampleEdition 10]
      (rowAfter sampleSerde (fun _ => .fill 8) [sampleUpdate 5, sampleEdition 10] Database.empty) := by
  refine (edition_kept_iff sampleSerde (fun _ => .fill 8) [sampleUpdate 5, sampleEdition 10] Database.empty
    rfl ?_).mpr ?_
  · intro a a' slot h h'
    simp only [sampleUpdate, sampleEdition, List.mem_cons, reduceCtorEq, Update.edition.injEq,
      List.not_mem_nil, or_false, false_or] at h h'
    rw [h.1, h'.1]
  · intro m slot hmint rest hus _
    have hslot : 5 = slot := (Update.metadata.inj (List.cons.inj hus).1).2
    exact ⟨_, 10, List.mem_cons_of_mem _ List.mem_cons_self, by omega⟩

/-- The metadata account of slot 10 is handled before the master edition of slot 5. -/
theorem newer_metadata_keeps_edition_out :
    ¬ EditionKept sampleSerde [sampleUpdate 10, sampleEdition 5]
      (rowAfter sampleSerde (fun _ => .fill 8) [sampleUpdate 10, sampleEdition 5] Database.empty) := by
  intro ⟨hnewest, _⟩
  obtain ⟨r, hr, _, hdata⟩ := hnewest _ 5 (List.mem_cons_of_mem _ List.mem_cons_self) (by
    intro a' slot' hmem
    simp only [sampleUpdate, sampleEdition, List.mem_cons, reduceCtorEq, Update.edition.injEq,
      List.not_mem_nil, or_false, false_or] at hmem
    exact le_of_eq hmem.2)
  have hcell := cell_after sampleSerde (fun _ => .fill 8) [sampleUpdate 10, sampleEdition 5]
    (show Database.empty.attachments.lookup _ = none from rfl)
  rw [show ([sampleUpdate 10, sampleEdition 5].filterMap (Update.editionWrite sampleSerde)).foldl (newer true)
      (placeholder [sampleUpdate 10, sampleEdition 5]) = some (10, .masterEditionV2, none) from rfl] at hcell
  obtain ⟨r', hr', _, hnull⟩ := row_of_cell hcell
  rw [hr'] at hr
  rw [← Option.some.inj hr, hnull] at hdata
  exact absurd hdata (by simp)

end DasIndexer.Accounts.Editions
