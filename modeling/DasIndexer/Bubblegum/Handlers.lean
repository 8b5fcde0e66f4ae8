import DasIndexer.Bubblegum.Db

/-!
# The Bubblegum handlers

One function for each handler of the source.  All of them have the same shape: check that the events
and the payload are there, record the change log on the connection itself, and then write the asset
tables in one transaction.  `handleBubblegumInstruction` dispatches on the name of the instruction.
-/

namespace DasIndexer.Bubblegum

open Sql ProgramTransformerError

/-! ### Leaf fields -/

/-- `NormalizedLeafFields`: both schema versions in one shape. -/
structure NormalizedLeafFields where
  id : Pubkey
  owner : Pubkey
  delegate : Pubkey
  nonce : ℕ
  dataHash : Pubkey
  creatorHash : Pubkey
  collectionHash : Option Pubkey
  assetDataHash : Option Pubkey
  flags : Option UInt8
deriving DecidableEq

/-- `impl From<&LeafSchema> for NormalizedLeafFields`. -/
def NormalizedLeafFields.from : LeafSchema → NormalizedLeafFields
  | .v1 id owner delegate nonce dataHash creatorHash =>
    { id, owner, delegate, nonce, dataHash, creatorHash,
      collectionHash := none, assetDataHash := none, flags := none }
  | .v2 id owner delegate nonce dataHash creatorHash collectionHash assetDataHash flags =>
    { id, owner, delegate, nonce, dataHash, creatorHash,
      collectionHash := some collectionHash, assetDataHash := some assetDataHash,
      flags := some flags }

/-- The leaf columns of a normalised leaf. -/
def NormalizedLeafFields.info (leaf : NormalizedLeafFields) (nonce : ℤ) (treeId leafHash : Bytes) :
    LeafInfo :=
  { nonce, treeId, leaf := leafHash, dataHash := leaf.dataHash, creatorHash := leaf.creatorHash,
    collectionHash := leaf.collectionHash, assetDataHash := leaf.assetDataHash, flags := leaf.flags }

/-- A delegate that is the owner or the zero key is no delegate. -/
def delegateOf (owner delegate : Pubkey) : Option Bytes :=
  if owner = delegate ∨ delegate = Pubkey.default then none else some delegate.bytes

/-- `u32_to_u8_array`: little-endian, padded to eight bytes. -/
def u32ToU8Array (value : ℕ) : Bytes :=
  (List.range 8).map fun i => if i < 4 then UInt8.ofNat (value / 256 ^ i) else 0

/-- The asset at a leaf of a tree: the program address derived from both. -/
def leafAssetId (E : Env) (tree : Pubkey) (leafIndex : ℕ) : Pubkey :=
  E.findProgramAddress [utf8 "asset", tree.bytes, u32ToU8Array leafIndex] E.bubblegumId

def bgumUseMethodToTokenMetadataUseMethod : UseMethod → DasIndexer.UseMethod
  | .burn => .burn
  | .multiple => .multiple
  | .single => .single

def tokenMetadataUses (u : Uses) : DasIndexer.Uses :=
  { useMethod := bgumUseMethodToTokenMetadataUseMethod u.useMethod
    remaining := u.remaining
    total := u.total }

def notParsed {α : Type} : Handler α := Session.throw (parsingError "Ix not parsed correctly")

def chainMutability (isMutable : Bool) : ChainMutability := if isMutable then .mutable else .immutable

/-- Version 2 leaves have their own class. -/
def specificationAssetClass : Version → SpecificationAssetClass
  | .v2 => .mplBubblegumV2
  | .v1 => .nft

def baseInfo (version : Version) (sellerFeeBasisPoints : ℕ) : BaseInfo :=
  { ownerType := .single, specificationVersion := .v1,
    specificationAssetClass := specificationAssetClass version, royaltyTargetType := .creators,
    royaltyTarget := none, royaltyAmount := sellerFeeBasisPoints }

/-- The download that a stored uri asks for, if it is not empty. -/
def downloadOf (id : Bytes) (uri : String) : Option DownloadMetadataInfo :=
  if uri.isEmpty then none else some (.new id uri)

/-! ### Handlers -/

section

variable (E : Env)

/-- `mint::mint`. -/
def mint (ix : BubblegumInstruction) (bundle : InstructionBundle) (name : String) :
    Handler (Option DownloadMetadataInfo) :=
  match ix.leafUpdate, ix.treeUpdate, ix.payload with
  | some le, some cl, some (.mint metadata authority treeId) => do
    let seq ← saveChangelogEvent cl bundle.slot bundle.txnId name
    let leaf := NormalizedLeafFields.from le.schema
    let id := leaf.id.bytes
    let slot : ℤ := bundle.slot
    let uri := metadata.uri.stripNul
    let chainData : ChainDataV1 :=
      { name := metadata.name, symbol := metadata.symbol, editionNonce := metadata.editionNonce,
        primarySaleHappened := metadata.primarySaleHappened, tokenStandard := some .nonFungible,
        uses := metadata.uses.map tokenMetadataUses }
    Session.transaction storageWriteError do
      upsertAssetData id (chainMutability metadata.isMutable) chainData.sanitize.toJson uri .mutable
        (.str "processing") slot (some true) (utf8 metadata.name) (utf8 metadata.symbol) seq
      upsertAssetBaseInfo id (baseInfo le.version metadata.sellerFeeBasisPoints) slot seq
      upsertAssetWithCompressionInfo id true false 1 none
      upsertAssetWithLeafInfo E id (leaf.info (asI64 leaf.nonce) treeId.bytes le.leafHash.bytes) seq
      upsertAssetWithOwnerAndDelegateInfo id leaf.owner.bytes (delegateOf leaf.owner leaf.delegate) seq
      upsertAssetWithSeq id seq
      upsertAssetCreators id metadata.creators slot seq
      -- the source passes the sequence number as the slot and the slot as the sequence number
      upsertAssetAuthority id authority.bytes seq slot
      upsertCollectionInfo id metadata.collection slot seq
    return downloadOf id uri.1
  | _, _, _ => notParsed

/-- The body that `transfer` and the delegation handler share: the leaf, the owner and the delegate
of the leaf event. -/
def updateLeafAndOwner (ix : BubblegumInstruction) (bundle : InstructionBundle) (name : String) :
    Handler Unit :=
  match ix.leafUpdate, ix.treeUpdate with
  | some le, some cl => do
    let seq ← saveChangelogEvent cl bundle.slot bundle.txnId name
    let leaf := NormalizedLeafFields.from le.schema
    let id := leaf.id.bytes
    Session.transaction storageWriteError do
      upsertAssetWithLeafInfo E id (leaf.info cl.index cl.id.bytes le.leafHash.bytes) seq
      upsertAssetWithOwnerAndDelegateInfo id leaf.owner.bytes (delegateOf leaf.owner leaf.delegate) seq
      upsertAssetWithSeq id seq
  | _, _ => notParsed

/-- `transfer::transfer`. -/
def transfer := updateLeafAndOwner E

/-- `delegate::delegation_freezing_nontransferability`. -/
def delegationFreezingNontransferability := updateLeafAndOwner E

/-- `burn::burn`. -/
def burn (ix : BubblegumInstruction) (bundle : InstructionBundle) (name : String) : Handler Unit :=
  match ix.treeUpdate with
  | some cl => do
    let seq ← saveChangelogEvent cl bundle.slot bundle.txnId name
    let id := (leafAssetId E cl.id cl.index).bytes
    Session.transaction storageWriteError do
      Session.write storageWriteError (Database.upsertAsset id assetBurnt)
      upsertAssetWithSeq id seq
  | none => notParsed

/-- The leaf that a redeem leaves behind. -/
def emptyLeaf (nonce : ℤ) (treeId : Bytes) : LeafInfo :=
  { nonce, treeId, leaf := Pubkey.default.bytes, dataHash := Pubkey.default,
    creatorHash := Pubkey.default, collectionHash := none, assetDataHash := none, flags := none }

/-- `redeem::redeem`. -/
def redeem (ix : BubblegumInstruction) (bundle : InstructionBundle) (name : String) : Handler Unit :=
  match ix.treeUpdate with
  | some cl => do
    let seq ← saveChangelogEvent cl bundle.slot bundle.txnId name
    let id := (leafAssetId E cl.id cl.index).bytes
    Session.transaction storageWriteError do
      upsertAssetWithLeafInfo E id (emptyLeaf cl.index cl.id.bytes) seq
      upsertAssetWithSeq id seq
  | none => notParsed

/-- `cancel_redeem::cancel_redeem`, which rejects a version 2 leaf once the change log is written. -/
def cancelRedeem (ix : BubblegumInstruction) (bundle : InstructionBundle) (name : String) :
    Handler Unit :=
  match ix.leafUpdate, ix.treeUpdate with
  | some le, some cl => do
    let seq ← saveChangelogEvent cl bundle.slot bundle.txnId name
    match le.schema with
    | .v1 id owner delegate _ dataHash creatorHash =>
      Session.transaction storageWriteError do
        upsertAssetWithLeafInfo E id.bytes
          { nonce := cl.index, treeId := cl.id.bytes, leaf := le.leafHash.bytes, dataHash,
            creatorHash, collectionHash := none, assetDataHash := none, flags := none } seq
        upsertAssetWithOwnerAndDelegateInfo id.bytes owner.bytes (delegateOf owner delegate) seq
        upsertAssetWithSeq id.bytes seq
    | .v2 .. => Session.throw (parsingError "LeafSchema V2 not possible for ix")
  | _, _ => notParsed

/-- The creators of a metadata after one of them is verified or unverified. -/
def updatedCreators (creators : List Creator) (creator : Pubkey) (verify : Bool) : List Creator :=
  creators.map fun c => if c.address = creator then { c with verified := verify } else c

/-- `creator_verification::process`. -/
def creatorVerification (ix : BubblegumInstruction) (bundle : InstructionBundle) (name : String) :
    Handler Unit :=
  match ix.leafUpdate, ix.treeUpdate, ix.payload with
  | some le, some cl, some (.creatorVerification metadata creator verify) => do
    let seq ← saveChangelogEvent cl bundle.slot bundle.txnId name
    let leaf := NormalizedLeafFields.from le.schema
    let id := leaf.id.bytes
    Session.transaction storageWriteError do
      upsertAssetWithLeafInfo E id (leaf.info cl.index cl.id.bytes le.leafHash.bytes) seq
      upsertAssetWithOwnerAndDelegateInfo id leaf.owner.bytes (delegateOf leaf.owner leaf.delegate) seq
      upsertAssetWithSeq id seq
      upsertAssetCreators id (updatedCreators metadata.creators creator verify) bundle.slot seq
  | _, _, _ => notParsed

/-- The collection that a verification writes: the program's own address stands for none. -/
def verifiedCollection (collection : Pubkey) (verify : Bool) : Option Collection :=
  if collection = E.bubblegumId then none else some { key := collection, verified := verify }

/-- `collection_verification::process`. -/
def collectionVerification (ix : BubblegumInstruction) (bundle : InstructionBundle)
    (name : String) : Handler Unit :=
  match ix.leafUpdate, ix.treeUpdate, ix.payload with
  | some le, some cl, some (.collectionVerification collection verify) => do
    let seq ← saveChangelogEvent cl bundle.slot bundle.txnId name
    let leaf := NormalizedLeafFields.from le.schema
    let id := leaf.id.bytes
    Session.transaction storageWriteError do
      upsertAssetWithLeafInfo E id (leaf.info cl.index cl.id.bytes le.leafHash.bytes) seq
      upsertAssetWithSeq id seq
      upsertCollectionInfo id (verifiedCollection E collection verify) bundle.slot seq
  | _, _, _ => notParsed

/-- `update_metadata::update_metadata`. -/
def updateMetadata (ix : BubblegumInstruction) (bundle : InstructionBundle) (name : String) :
    Handler (Option DownloadMetadataInfo) :=
  match ix.leafUpdate, ix.treeUpdate, ix.payload with
  | some le, some cl, some (.updateMetadata current update treeId) => do
    let seq ← saveChangelogEvent cl bundle.slot bundle.txnId name
    let leaf := NormalizedLeafFields.from le.schema
    let id := leaf.id.bytes
    let slot : ℤ := bundle.slot
    let uri := (update.uri.getD current.uri).stripNul
    let newName := update.name.getD current.name
    let newSymbol := update.symbol.getD current.symbol
    let chainData : ChainDataV1 :=
      { name := newName, symbol := newSymbol, editionNonce := current.editionNonce,
        primarySaleHappened := update.primarySaleHappened.getD current.primarySaleHappened,
        tokenStandard := some .nonFungible, uses := current.uses.map tokenMetadataUses }
    Session.transaction storageWriteError do
      upsertAssetData id (chainMutability (update.isMutable.getD current.isMutable))
        chainData.sanitize.toJson uri .mutable (.str "processing") slot (some true)
        (utf8 newName) (utf8 newSymbol) seq
      upsertAssetBaseInfo id
        (baseInfo le.version (update.sellerFeeBasisPoints.getD current.sellerFeeBasisPoints)) slot seq
      upsertAssetWithLeafInfo E id (leaf.info (asI64 leaf.nonce) treeId.bytes le.leafHash.bytes) seq
      upsertAssetWithSeq id seq
      upsertAssetCreators id (update.creators.getD current.creators) slot seq
    return downloadOf id uri.1
  | _, _, _ => notParsed

/-! ### Dispatch -/

/-- `ix_str`. -/
def ixStr : InstructionName → String
  | .unknown => "Unknown"
  | .mintV1 => "MintV1"
  | .mintToCollectionV1 => "MintToCollectionV1"
  | .redeem => "Redeem"
  | .cancelRedeem => "CancelRedeem"
  | .transfer => "Transfer"
  | .delegate => "Delegate"
  | .decompressV1 => "DecompressV1"
  | .compress => "Compress"
  | .burn => "Burn"
  | .createTree => "CreateTree"
  | .verifyCreator => "VerifyCreator"
  | .unverifyCreator => "UnverifyCreator"
  | .verifyCollection => "VerifyCollection"
  | .unverifyCollection => "UnverifyCollection"
  | .setAndVerifyCollection => "SetAndVerifyCollection"
  | .setDecompressibleState => "SetDecompressibleState"
  | .updateMetadata => "UpdateMetadata"
  | .burnV2 => "BurnV2"
  | .collectV2 => "CollectV2"
  | .createTreeV2 => "CreateTreeV2"
  | .delegateAndFreezeV2 => "DelegateAndFreezeV2"
  | .delegateV2 => "DelegateV2"
  | .freezeV2 => "FreezeV2"
  | .mintV2 => "MintV2"
  | .setCollectionV2 => "SetCollectionV2"
  | .setNonTransferableV2 => "SetNonTransferableV2"
  | .thawAndRevokeV2 => "ThawAndRevokeV2"
  | .thawV2 => "ThawV2"
  | .transferV2 => "TransferV2"
  | .unverifyCreatorV2 => "UnverifyCreatorV2"
  | .updateAssetDataV2 => "UpdateAssetDataV2"
  | .updateMetadataV2 => "UpdateMetadataV2"
  | .verifyCreatorV2 => "VerifyCreatorV2"

/-- `if let Some(info) = .. { download_metadata_notifier(info).await? }`. -/
def notifyDownload : Option DownloadMetadataInfo → Handler Unit
  | some _ => Session.fallible downloadMetadataNotify
  | none => pure ()

/-- `handle_bubblegum_instruction`. -/
def handleBubblegumInstruction (ix : BubblegumInstruction) (bundle : InstructionBundle) :
    Handler Unit :=
  match ix.instruction with
  | .transfer | .transferV2 => transfer E ix bundle (ixStr ix.instruction)
  | .burn | .burnV2 => burn E ix bundle (ixStr ix.instruction)
  | .delegate | .delegateV2 | .delegateAndFreezeV2 | .freezeV2 | .setNonTransferableV2 | .thawV2
  | .thawAndRevokeV2 =>
    delegationFreezingNontransferability E ix bundle (ixStr ix.instruction)
  | .mintV1 | .mintToCollectionV1 | .mintV2 => do
    let info ← mint E ix bundle (ixStr ix.instruction)
    notifyDownload info
  | .redeem => redeem E ix bundle (ixStr ix.instruction)
  | .cancelRedeem => cancelRedeem E ix bundle (ixStr ix.instruction)
  | .verifyCreator | .unverifyCreator | .verifyCreatorV2 | .unverifyCreatorV2 =>
    creatorVerification E ix bundle (ixStr ix.instruction)
  | .verifyCollection | .unverifyCollection | .setAndVerifyCollection | .setCollectionV2 =>
    collectionVerification E ix bundle (ixStr ix.instruction)
  | .updateMetadata | .updateMetadataV2 => do
    let info ← updateMetadata E ix bundle (ixStr ix.instruction)
    notifyDownload info
  -- nothing to index, or not implemented
  | .decompressV1 | .setDecompressibleState | .updateAssetDataV2 | .unknown | .compress
  | .createTree | .collectV2 | .createTreeV2 => pure ()

end

end DasIndexer.Bubblegum
