import DasIndexer.Accounts.AssetUpserts

/-!
# Token and Token-2022 accounts

The handlers of mint accounts and token accounts.  A token account is stored under its own address, and when
the mint is known to be non-fungible its owner is copied to the asset row of the mint.  A mint is stored in
`tokens` and its supply copied to the asset row.  The two token programs share both paths; they differ in
the extensions that Token-2022 accounts carry and in the metadata that a Token-2022 mint may hold.

The `*_runs` lemmas give each path's whole effect as a function of the tables.
-/

namespace DasIndexer.Accounts

open Sql ProgramTransformerError
open Bubblegum (notOlder)

/-! ### Parsed accounts -/

inductive AccountState where
  | uninitialized | initialized | frozen
deriving DecidableEq

/-- `spl_token::state::Account`, without the fields that no handler reads. -/
structure TokenAccount where
  mint : Pubkey
  owner : Pubkey
  amount : ℕ
  delegate : Option Pubkey
  state : AccountState
  delegatedAmount : ℕ
deriving DecidableEq

/-- `spl_token::state::Mint`, without the fields that no handler reads. -/
structure Mint where
  mintAuthority : Option Pubkey
  supply : ℕ
  decimals : UInt8
  freezeAuthority : Option Pubkey
deriving DecidableEq

inductive TokenProgramEntity where
  | tokenAccount (ta : TokenAccount)
  | mint (m : Mint)
  | closeIx (account : Pubkey)
deriving DecidableEq

/-- `TokenAccountExtensions`, each extension as it is serialised. -/
structure TokenAccountExtensions where
  confidentialTransfer : Option Json := none
  cpiGuard : Option Json := none
  memoTransfer : Option Json := none
  transferFeeAmount : Option Json := none
  immutableOwner : Option Bool := none
  nonTransferableAccount : Option Bool := none

/-- `ShadowMetadata`. -/
structure ShadowMetadata where
  updateAuthority : Option Pubkey
  mint : Pubkey
  name : String
  symbol : String
  uri : String
  additionalMetadata : List (String × String)

/-- `MintAccountExtensions`, each extension but the metadata as it is serialised. -/
structure MintAccountExtensions where
  defaultAccountState : Option Json := none
  confidentialTransferMint : Option Json := none
  confidentialTransferFeeConfig : Option Json := none
  interestBearingConfig : Option Json := none
  transferFeeConfig : Option Json := none
  mintCloseAuthority : Option Json := none
  permanentDelegate : Option Json := none
  metadataPointer : Option Json := none
  metadata : Option ShadowMetadata := none
  transferHook : Option Json := none
  groupPointer : Option Json := none
  tokenGroup : Option Json := none
  groupMemberPointer : Option Json := none
  tokenGroupMember : Option Json := none
  nonTransferable : Option Bool := none
  immutableOwner : Option Bool := none

inductive TokenExtensionsProgramEntity where
  | tokenAccount (account : TokenAccount) (extensions : TokenAccountExtensions)
  | mintAccount (account : Mint) (extensions : MintAccountExtensions)
  | closeIx (account : Pubkey)

/-- An absent extension serialises as `null`. -/
def orNull (v : Option Json) : Json := v.getD .null

def TokenAccountExtensions.isSome (e : TokenAccountExtensions) : Bool :=
  e.confidentialTransfer.isSome || e.cpiGuard.isSome || e.memoTransfer.isSome
    || e.transferFeeAmount.isSome

def TokenAccountExtensions.toJson (e : TokenAccountExtensions) : Json :=
  .obj [("confidential_transfer", orNull e.confidentialTransfer), ("cpi_guard", orNull e.cpiGuard),
    ("memo_transfer", orNull e.memoTransfer), ("transfer_fee_amount", orNull e.transferFeeAmount),
    ("immutable_owner", orNull (e.immutableOwner.map .bool)),
    ("non_transferable_account", orNull (e.nonTransferableAccount.map .bool))]

def ShadowMetadata.toJson (m : ShadowMetadata) : Json :=
  .obj [("update_authority", orNull (m.updateAuthority.map fun k => .str k.toString)),
    ("mint", .str m.mint.toString), ("name", .str m.name), ("symbol", .str m.symbol),
    ("uri", .str m.uri),
    ("additional_metadata", .arr (m.additionalMetadata.map fun e => .arr [.str e.1, .str e.2]))]

def MintAccountExtensions.isSome (e : MintAccountExtensions) : Bool :=
  e.defaultAccountState.isSome || e.confidentialTransferMint.isSome
    || e.confidentialTransferFeeConfig.isSome || e.interestBearingConfig.isSome
    || e.transferFeeConfig.isSome || e.mintCloseAuthority.isSome || e.permanentDelegate.isSome
    || e.metadataPointer.isSome || e.metadata.isSome || e.transferHook.isSome
    || e.groupPointer.isSome || e.tokenGroup.isSome || e.groupMemberPointer.isSome
    || e.tokenGroupMember.isSome

def MintAccountExtensions.toJson (e : MintAccountExtensions) : Json :=
  .obj [("default_account_state", orNull e.defaultAccountState),
    ("confidential_transfer_mint", orNull e.confidentialTransferMint),
    ("confidential_transfer_fee_config", orNull e.confidentialTransferFeeConfig),
    ("interest_bearing_config", orNull e.interestBearingConfig),
    ("transfer_fee_config", orNull e.transferFeeConfig),
    ("mint_close_authority", orNull e.mintCloseAuthority),
    ("permanent_delegate", orNull e.permanentDelegate),
    ("metadata_pointer", orNull e.metadataPointer),
    ("metadata", orNull (e.metadata.map ShadowMetadata.toJson)),
    ("transfer_hook", orNull e.transferHook), ("group_pointer", orNull e.groupPointer),
    ("token_group", orNull e.tokenGroup), ("group_member_pointer", orNull e.groupMemberPointer),
    ("token_group_member", orNull e.tokenGroupMember),
    ("non_transferable", orNull (e.nonTransferable.map .bool)),
    ("immutable_owner", orNull (e.immutableOwner.map .bool))]

/-- `matches!(v, Value::Null)`. -/
def isNullValue : Json → Bool
  | .null => true
  | _ => false

/-- `filter_non_null_fields`. -/
def filterNonNullFields : Json → Option Json
  | .null => none
  | .obj fields =>
    if fields.all fun f => isNullValue f.2 then none
    else some (.obj (fields.filter fun f => !isNullValue f.2))
  | v => some v

/-! ### The rows -/

/-- `tokens::IsNonFungible`. -/
def isNonFungible (t : TokenRow) : Bool := t.decimals == 0 && t.supply == 1

/-- The stored form of a token account. -/
def TokenAccount.row (info : AccountInfo) (ta : TokenAccount) (extensions : Option Json) :
    TokenAccountRow :=
  { mint := ta.mint.bytes
    delegate := ta.delegate.map Pubkey.bytes
    owner := ta.owner.bytes
    frozen := ta.state == .frozen
    delegatedAmount := asI64 ta.delegatedAmount
    tokenProgram := info.owner.bytes
    slotUpdated := info.slot
    amount := asI64 ta.amount
    closeAuthority := none
    extensions }

/-- The stored form of a mint. -/
def Mint.row (info : AccountInfo) (m : Mint) (extensions : Option Json) : TokenRow :=
  { tokenProgram := info.owner.bytes
    slotUpdated := info.slot
    supply := m.supply
    decimals := m.decimals.toNat
    closeAuthority := none
    extensionData := none
    mintAuthority := m.mintAuthority.map Pubkey.bytes
    freezeAuthority := m.freezeAuthority.map Pubkey.bytes
    extensions }

/-- The upsert of a token account; only Token-2022 assigns the extensions of a stored row. -/
def tokenAccountUpsert (row : TokenAccountRow) (setsExtensions : Bool) : Upsert TokenAccountRow where
  new := row
  guard r := gt (some row.slotUpdated) (some r.slotUpdated)
  set r := { row with extensions := if setsExtensions then row.extensions else r.extensions }

/-- The upsert of a mint; only Token-2022 assigns the extensions of a stored row. -/
def mintUpsert (row : TokenRow) (setsExtensions : Bool) : Upsert TokenRow where
  new := row
  guard r := ge (some row.slotUpdated) (some r.slotUpdated)
  set r := { row with extensions := if setsExtensions then row.extensions else r.extensions }

def upsertTokenAccount (pubkey : Bytes) (u : Upsert TokenAccountRow) (db : Database) : Database :=
  { db with tokenAccounts := upsert db.tokenAccounts pubkey u }

def upsertToken (mint : Bytes) (u : Upsert TokenRow) (db : Database) : Database :=
  { db with tokens := upsert db.tokens mint u }

/-- The columns that a token account proposes for the asset row of its mint. -/
def TokenAccount.columns (info : AccountInfo) (ta : TokenAccount) : AssetTokenAccountColumns :=
  { mint := ta.mint.bytes
    owner := some ta.owner.bytes
    frozen := ta.state == .frozen
    delegate := ta.delegate.map Pubkey.bytes
    slotUpdatedTokenAccount := info.slot }

/-- The columns that a mint proposes for its asset row. -/
def Mint.columns (info : AccountInfo) (m : Mint) (extensions : Option Json) : AssetMintAccountColumns :=
  { mint := info.pubkey.bytes, supply := m.supply, slotUpdatedMintAccount := info.slot, extensions }

/-! ### The handlers -/

/-- The token-account branch of both handlers. -/
def handleTokenAccount (info : AccountInfo) (ta : TokenAccount) (extensions : Option Json)
    (setsExtensions : Bool) : Handler Unit := do
  Session.write storageWriteError
    (upsertTokenAccount info.pubkey.bytes (tokenAccountUpsert (ta.row info extensions) setsExtensions))
  let token ← Session.select storageWriteError fun db => db.tokens.lookup ta.mint.bytes
  if (token.map isNonFungible).getD false then
    Session.transaction storageWriteError
      (upsertAssetsTokenAccountColumns storageWriteError (ta.columns info))
  else pure ()

/-- The mint branch of both handlers. -/
def handleMint (info : AccountInfo) (m : Mint) (extensions : Option Json) (setsExtensions : Bool) :
    Handler Unit := do
  Session.write storageWriteError
    (upsertToken info.pubkey.bytes (mintUpsert (m.row info extensions) setsExtensions))
  Session.transaction storageWriteError
    (upsertAssetsMintAccountColumns storageWriteError (m.columns info extensions))

/-- `handle_token_program_account`. -/
def handleTokenProgramAccount (info : AccountInfo) : TokenProgramEntity → Handler Unit
  | .tokenAccount ta => handleTokenAccount info ta none false
  | .mint m => handleMint info m none false
  | .closeIx _ => Session.throw notImplemented

/-- The URI as it is assigned to the column of `asset_data`: Token-2022 sets no bound to it. -/
def ShadowMetadata.url (m : ShadowMetadata) : Except String MetadataUrl := MetadataUrl.assign m.uri

/-- The `asset_data` row of a Token-2022 mint with metadata. -/
def ShadowMetadata.dataRow (m : ShadowMetadata) (url : MetadataUrl) (slot : ℕ) : AssetDataRow :=
  { metadataUrl := url
    metadata := .str "processing"
    chainDataMutability := .mutable
    chainData := m.toJson
    metadataMutability := .mutable
    slotUpdated := slot
    baseInfoSeq := some 0
    rawName := some (utf8 m.name)
    rawSymbol := some (utf8 m.symbol)
    reindex := some true }

/-- The `asset_data` upsert of Token-2022: an equal slot is taken, and a stored row keeps its `metadata` and
its metadata mutability. -/
def shadowAssetData (row : AssetDataRow) : Upsert AssetDataRow where
  new := row
  guard r := ge (some row.slotUpdated) (some r.slotUpdated)
  set r := { row with metadata := r.metadata, metadataMutability := r.metadataMutability }

/-- `upsert_assets_metadata_cols`. -/
def metadataSlotColumn (slot : ℕ) : Upsert AssetRow where
  new := { slotUpdatedMetadataAccount := some (slot : ℤ) }
  guard r := notOlder (slot : ℤ) r.slotUpdatedMetadataAccount
  set r := { r with slotUpdatedMetadataAccount := some (slot : ℤ) }

/-- `upsert_asset_data`. -/
def upsertShadowAssetData (m : ShadowMetadata) (key : Bytes) (slot : ℕ) :
    Handler (Option DownloadMetadataInfo) := do
  Session.writeChecked storageWriteError m.url fun url =>
    Database.upsertAssetData key (shadowAssetData (m.dataRow url slot))
  Session.transaction storageWriteError
    (Session.write storageWriteError (Database.upsertAsset key (metadataSlotColumn slot)))
  if m.uri = "" then return none
  else return some { assetDataId := key, uri := m.uri }

/-- `extensions.is_some()`, serialised and without its absent fields. -/
def TokenAccountExtensions.value (e : TokenAccountExtensions) : Option Json :=
  if e.isSome then filterNonNullFields e.toJson else none

def MintAccountExtensions.value (e : MintAccountExtensions) : Option Json :=
  if e.isSome then filterNonNullFields e.toJson else none

/-- `handle_token_extensions_program_account`. -/
def handleTokenExtensionsProgramAccount (info : AccountInfo) :
    TokenExtensionsProgramEntity → Handler Unit
  | .tokenAccount ta extensions => handleTokenAccount info ta extensions.value true
  | .mintAccount m extensions => do
    handleMint info m extensions.value true
    match extensions.metadata with
    | none => pure ()
    | some metadata =>
      match ← upsertShadowAssetData metadata info.pubkey.bytes info.slot with
      | none => pure ()
      | some _ => Session.fallible downloadMetadataNotify
  | .closeIx _ => Session.throw notImplemented

/-! ### Their effects -/

/-- The URI fits the column: it has at most 200 characters, or only spaces past them. -/
def ShadowMetadata.Fits (m : ShadowMetadata) : Prop := Varchar.Fits 200 m.uri

instance (m : ShadowMetadata) : Decidable m.Fits := inferInstanceAs (Decidable (Varchar.Fits _ _))

/-- The URL that is stored where it fits. -/
def ShadowMetadata.storedUrl (m : ShadowMetadata) : MetadataUrl := Varchar.cut 200 m.uri

theorem ShadowMetadata.url_of_fits {m : ShadowMetadata} (h : m.Fits) : m.url = .ok m.storedUrl := by
  unfold url storedUrl MetadataUrl.assign
  exact Varchar.assign_of_fits h

theorem ShadowMetadata.url_of_not_fits {m : ShadowMetadata} (h : ¬ m.Fits) : ∃ e, m.url = .error e := by
  unfold url MetadataUrl.assign
  exact Varchar.assign_of_not_fits h

/-- The tables after a token account. -/
def tokenAccountEffect (info : AccountInfo) (ta : TokenAccount) (extensions : Option Json)
    (setsExtensions : Bool) (db : Database) : Database :=
  let db := upsertTokenAccount info.pubkey.bytes
    (tokenAccountUpsert (ta.row info extensions) setsExtensions) db
  if ((db.tokens.lookup ta.mint.bytes).map isNonFungible).getD false then
    Database.upsertAsset ta.mint.bytes (tokenAccountColumns (ta.columns info)) db
  else db

/-- The tables after a mint. -/
def mintEffect (info : AccountInfo) (m : Mint) (extensions : Option Json) (setsExtensions : Bool)
    (db : Database) : Database :=
  Database.upsertAsset info.pubkey.bytes (mintAccountColumns (m.columns info extensions))
    (upsertToken info.pubkey.bytes (mintUpsert (m.row info extensions) setsExtensions) db)

theorem tokenAccountEffect_tokenAccounts (info : AccountInfo) (ta : TokenAccount) (extensions : Option Json)
    (setsExtensions : Bool) (db : Database) :
    (tokenAccountEffect info ta extensions setsExtensions db).tokenAccounts
      = upsert db.tokenAccounts info.pubkey.bytes
        (tokenAccountUpsert (ta.row info extensions) setsExtensions) := by
  unfold tokenAccountEffect
  dsimp only [upsertTokenAccount]
  split <;> rfl

theorem handleTokenAccount_runs (info : AccountInfo) (ta : TokenAccount) (extensions : Option Json)
    (setsExtensions : Bool) :
    Session.Runs (handleTokenAccount info ta extensions setsExtensions)
      fun db => ((), tokenAccountEffect info ta extensions setsExtensions db) := by
  have hrest : ∀ token : Option TokenRow, Session.Runs
      (if (token.map isNonFungible).getD false then
        Session.transaction storageWriteError
          (upsertAssetsTokenAccountColumns storageWriteError (ta.columns info))
      else (pure () : Handler Unit))
      fun db => ((), if (token.map isNonFungible).getD false then
        Database.upsertAsset ta.mint.bytes (tokenAccountColumns (ta.columns info)) db else db) := by
    intro token
    cases (token.map isNonFungible).getD false with
    | true => exact Session.Runs.transaction _ (Session.Runs.write _ _)
    | false => exact Session.Runs.pure ()
  exact Session.Runs.bind (Session.Runs.write _ _) fun _ =>
    Session.Runs.bind (Session.Runs.select _ _) hrest

theorem handleMint_runs (info : AccountInfo) (m : Mint) (extensions : Option Json)
    (setsExtensions : Bool) :
    Session.Runs (handleMint info m extensions setsExtensions)
      fun db => ((), mintEffect info m extensions setsExtensions db) :=
  Session.Runs.bind (Session.Runs.write _ _) fun _ =>
    Session.Runs.transaction _ (Session.Runs.write _ _)

/-! ### Updates of either program -/

/-- A mint account, of one of the two token programs. -/
inductive MintUpdate where
  | token (info : AccountInfo) (m : Mint)
  | tokenExtensions (info : AccountInfo) (m : Mint) (extensions : MintAccountExtensions)

/-- A token account, of one of the two token programs. -/
inductive TokenAccountUpdate where
  | token (info : AccountInfo) (ta : TokenAccount)
  | tokenExtensions (info : AccountInfo) (ta : TokenAccount) (extensions : TokenAccountExtensions)

namespace MintUpdate

def info : MintUpdate → AccountInfo
  | token info _ => info
  | tokenExtensions info _ _ => info

def account : MintUpdate → Mint
  | token _ m => m
  | tokenExtensions _ m _ => m

def handle : MintUpdate → Handler Unit
  | token info m => handleTokenProgramAccount info (.mint m)
  | tokenExtensions info m extensions =>
    handleTokenExtensionsProgramAccount info (.mintAccount m extensions)

/-- The tables after the metadata of a Token-2022 mint.  A URI that does not fit ends the handler. -/
def shadowEffect (metadata : Option ShadowMetadata) (key : Bytes) (slot : ℕ) (db : Database) : Database :=
  match metadata with
  | none => db
  | some m =>
    if m.Fits then Database.upsertAsset key (metadataSlotColumn slot)
      (Database.upsertAssetData key (shadowAssetData (m.dataRow m.storedUrl slot)) db)
    else db

def effect : MintUpdate → Database → Database
  | token info m => mintEffect info m none false
  | tokenExtensions info m extensions => fun db =>
    shadowEffect extensions.metadata info.pubkey.bytes info.slot
      (mintEffect info m extensions.value true db)

theorem upsertShadowAssetData_runs {m : ShadowMetadata} (key : Bytes) (slot : ℕ) (h : m.Fits) :
    Session.Runs (upsertShadowAssetData m key slot) fun db =>
      (if m.uri = "" then none else some { assetDataId := key, uri := m.uri },
        shadowEffect (some m) key slot db) := by
  have hinfo : Session.Runs
      (if m.uri = "" then return none
        else return some { assetDataId := key, uri := m.uri } : Handler (Option DownloadMetadataInfo))
      fun db => (if m.uri = "" then none else some { assetDataId := key, uri := m.uri }, db) := by
    split
    · exact Session.Runs.pure none
    · exact Session.Runs.pure _
  refine (Session.Runs.bind (Session.Runs.writeChecked _ (ShadowMetadata.url_of_fits h) _) fun _ =>
    Session.Runs.bind (Session.Runs.transaction _ (Session.Runs.write _ _)) fun _ => hinfo).congr
    fun db => ?_
  simp only [shadowEffect, if_pos h]

theorem upsertShadowAssetData_refused {m : ShadowMetadata} (key : Bytes) (slot : ℕ) (h : ¬ m.Fits)
    (w : World Database) :
    ∃ e w', (upsertShadowAssetData m key slot).run noFaults w = (.error e, w') ∧ w'.db = w.db := by
  obtain ⟨e, hurl⟩ := ShadowMetadata.url_of_not_fits h
  have hrefuse : (Session.writeChecked storageWriteError m.url fun url =>
      Database.upsertAssetData key (shadowAssetData (m.dataRow url slot))).run noFaults w
      = (.error (storageWriteError e), w.next) := by
    rw [hurl]
    rfl
  rw [upsertShadowAssetData, Session.run_bind_error hrefuse]
  exact ⟨_, _, rfl, rfl⟩

/-- What the metadata of a mint leaves, stored or not. -/
theorem shadow_leaves (metadata : Option ShadowMetadata) (key : Bytes) (slot : ℕ) :
    Session.Leaves
      (match metadata with
        | none => (pure () : Handler Unit)
        | some metadata => do
          match ← upsertShadowAssetData metadata key slot with
          | none => pure ()
          | some _ => Session.fallible downloadMetadataNotify)
      (shadowEffect metadata key slot) := by
  have hnotify : ∀ i : Option DownloadMetadataInfo, Session.Runs
      (match i with
        | none => (pure () : Handler Unit)
        | some _ => Session.fallible downloadMetadataNotify)
      fun db => ((), db) := by
    intro i
    cases i with
    | none => exact Session.Runs.pure ()
    | some i => exact Session.Runs.fallible _
  cases metadata with
  | none => exact (Session.Runs.pure ()).leaves
  | some m =>
    by_cases hfits : m.Fits
    · exact (Session.Runs.bind (upsertShadowAssetData_runs key slot hfits) hnotify).leaves
    · intro w
      obtain ⟨e, w', hrun, hdb⟩ := upsertShadowAssetData_refused key slot hfits w
      show ((upsertShadowAssetData m key slot >>= _).run noFaults w).2.db = _
      rw [Session.run_bind_error hrun]
      simp only [shadowEffect, if_neg hfits]
      exact hdb

theorem handle_leaves (u : MintUpdate) : Session.Leaves u.handle u.effect := by
  cases u with
  | token info m => exact (handleMint_runs info m none false).leaves
  | tokenExtensions info m extensions =>
    exact Session.Runs.bind_leaves (handleMint_runs info m extensions.value true)
      fun _ => shadow_leaves extensions.metadata info.pubkey.bytes info.slot

end MintUpdate

namespace TokenAccountUpdate

def info : TokenAccountUpdate → AccountInfo
  | token info _ => info
  | tokenExtensions info _ _ => info

def account : TokenAccountUpdate → TokenAccount
  | token _ ta => ta
  | tokenExtensions _ ta _ => ta

def handle : TokenAccountUpdate → Handler Unit
  | token info ta => handleTokenProgramAccount info (.tokenAccount ta)
  | tokenExtensions info ta extensions =>
    handleTokenExtensionsProgramAccount info (.tokenAccount ta extensions)

def effect : TokenAccountUpdate → Database → Database
  | token info ta => tokenAccountEffect info ta none false
  | tokenExtensions info ta extensions => tokenAccountEffect info ta extensions.value true

theorem handle_runs (u : TokenAccountUpdate) : Session.Runs u.handle fun db => ((), u.effect db) := by
  cases u with
  | token info ta => exact handleTokenAccount_runs info ta none false
  | tokenExtensions info ta extensions => exact handleTokenAccount_runs info ta extensions.value true

/-- Either program copies the owner to the asset row of a mint that is known to be non-fungible, and touches
no other asset row. -/
theorem effect_asset (u : TokenAccountUpdate) (db : Database) :
    (u.effect db).asset = if ((db.tokens.lookup u.account.mint.bytes).map isNonFungible).getD false then
      upsert db.asset u.account.mint.bytes (tokenAccountColumns (u.account.columns u.info))
      else db.asset := by
  have heffect : ∀ info ta extensions sets, (tokenAccountEffect info ta extensions sets db).asset
      = if ((db.tokens.lookup ta.mint.bytes).map isNonFungible).getD false then
        upsert db.asset ta.mint.bytes (tokenAccountColumns (ta.columns info)) else db.asset := by
    intro info ta extensions sets
    unfold tokenAccountEffect
    dsimp only [upsertTokenAccount]
    split <;> rfl
  cases u with
  | token info ta => exact heffect info ta none false
  | tokenExtensions info ta extensions => exact heffect info ta extensions.value true

end TokenAccountUpdate

end DasIndexer.Accounts
