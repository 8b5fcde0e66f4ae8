import DasIndexer.Accounts.Editions

/-!
# Metadata accounts that are closed

`handleTokenMetadataAccount` stores a metadata account under its mint, which stands in the data of the
account.  A closed account has no data, and then the handler goes by the address of the account: it marks an
asset of that name as burnt, and adds one where there is none.  The asset of the mint stays as it was.

**`burns_own_asset_iff`** says when that is what the closing of a metadata account should do: when the asset of
the mint was burnt already, and an asset of the name of the account was there already.
-/

namespace DasIndexer.Accounts.EmptyMetadata

open Sql Session ProgramTransformerError
open TokenMetadata Editions

/-! ### The handler -/

/-- `TokenMetadataAccountData`. -/
inductive TokenMetadataAccountData where
  | emptyAccount
  | metadataV1 (m : Metadata)
  | edition (a : EditionAccount)
  /-- an edition marker, a use authority record or a collection authority record -/
  | other

variable (S : Serde) (masterEditionPda : Pubkey → Pubkey)

/-- `handle_token_metadata_account`. -/
def handleTokenMetadataAccount (info : AccountInfo) : TokenMetadataAccountData → Handler Unit
  | .emptyAccount => burnV1Asset info.pubkey info.slot
  | .metadataV1 m => handleMetadata masterEditionPda m info.slot
  | .edition a => handleEdition S info.pubkey info.slot a
  | .other => Session.throw notImplemented

/-! ### What a closing leaves -/

/-- The asset of an id is there and burnt. -/
def Burnt (db : Database) (id : Pubkey) : Prop :=
  ∃ r, db.asset.lookup id.bytes = some r ∧ r.burnt = true

/-- The closing of a metadata account burns the asset of its mint, and adds no asset of its own name. -/
def BurnsOwnAsset (mint : Pubkey) (info : AccountInfo) (db : Database) : Prop :=
  let db' := after (handleTokenMetadataAccount S masterEditionPda info .emptyAccount) db
  Burnt db' mint ∧
    ((db'.asset.lookup info.pubkey.bytes).isSome → (db.asset.lookup info.pubkey.bytes).isSome)

/-- The handler rewrites the asset row of the account's own name and no other. -/
theorem after_emptyAccount (info : AccountInfo) (db : Database) :
    (after (handleTokenMetadataAccount S masterEditionPda info .emptyAccount) db).asset
      = upsert db.asset info.pubkey.bytes (burntColumns info.slot) :=
  congrArg Database.asset ((Session.Runs.write storageWriteError
    (Database.upsertAsset info.pubkey.bytes (burntColumns info.slot))).after_eq db)

/-- **When the closing of a metadata account burns its own asset**: when it was burnt before and an asset of
the name of the account was there before, so that nothing is left to do. -/
theorem burns_own_asset_iff (mint : Pubkey) (info : AccountInfo) (db : Database) (h : info.pubkey ≠ mint) :
    BurnsOwnAsset S masterEditionPda mint info db ↔
      Burnt db mint ∧ (db.asset.lookup info.pubkey.bytes).isSome := by
  have hkey : mint.bytes ≠ info.pubkey.bytes := fun heq => h (Pubkey.bytes_inj heq).symm
  unfold BurnsOwnAsset Burnt
  dsimp only
  rw [after_emptyAccount, lookup_upsert_ne _ _ hkey, lookup_upsert_self]
  simp

/-- An asset that is burnt already, and one of the name of its metadata account. -/
def burntBefore : Database where
  asset := ((∅ : Table Bytes AssetRow).insert (Pubkey.fill 7).bytes { burnt := true }).insert
    (Pubkey.fill 8).bytes {}

/-- Then nothing is left to do. -/
theorem burnt_stays_burnt :
    BurnsOwnAsset sampleSerde id (Pubkey.fill 7) ⟨2, Pubkey.fill 8, Pubkey.fill 9⟩ burntBefore := by
  refine (burns_own_asset_iff sampleSerde id (Pubkey.fill 7) ⟨2, Pubkey.fill 8, Pubkey.fill 9⟩
    burntBefore (by decide)).mpr ⟨⟨{ burnt := true }, ?_, rfl⟩, ?_⟩
  · rfl
  · rfl

/-- The metadata of a mint is stored in slot 1 and its account closed in slot 2: the asset of the mint lives
on, and there is a burnt asset of the name of the account. -/
theorem closed_metadata_burns_its_address :
    let stored := after (handleMetadata id (sampleMetadata (.fill 7)) 1) Database.empty
    let info : AccountInfo := ⟨2, .fill 8, .fill 9⟩
    ¬ BurnsOwnAsset sampleSerde id (.fill 7) info stored ∧ stored.asset.lookup info.pubkey.bytes = none ∧
      Burnt (after (handleTokenMetadataAccount sampleSerde id info .emptyAccount) stored) info.pubkey := by
  intro stored info
  have hmint : stored.asset.lookup info.pubkey.bytes = none := by rfl
  have halive : (stored.asset.lookup (Pubkey.fill 7).bytes).map AssetRow.burnt = some false := by rfl
  have hkey : (Pubkey.fill 7).bytes ≠ info.pubkey.bytes := by decide
  refine ⟨?_, hmint, ?_⟩
  · rintro ⟨⟨r, hr, hburnt⟩, _⟩
    rw [after_emptyAccount, lookup_upsert_ne _ _ hkey] at hr
    rw [hr, Option.map_some, hburnt] at halive
    cases halive
  · unfold Burnt
    rw [after_emptyAccount, lookup_upsert_self, hmint]
    exact ⟨_, rfl, rfl⟩

end DasIndexer.Accounts.EmptyMetadata
