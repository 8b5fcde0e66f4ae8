import DasIndexer.Blockbuster.Instruction

/-!
# Parsing Bubblegum instructions

The data types of the compression program's events and of Bubblegum's arguments, and the parser that
turns an instruction bundle into a `BubblegumInstruction`: it walks the bundle's inner instructions,
keeps the last change-log event and the last leaf event that a noop call carries, and decodes the
instruction's own arguments into a payload.

The decoders of the wire formats (`borsh` deserialisation of the program crates' types, and the
discriminator table of `get_instruction_type`) live in other crates and are the parameter `Decoders`.
-/

namespace DasIndexer

/-- `blockbuster::error::BlockbusterError`, as far as the instruction parser raises it. -/
inductive BlockbusterError where
  | instructionParsingError
  | ioError (msg : String)
  | deserializationError
  | missingBubblegumEventData
deriving DecidableEq

namespace Bubblegum

/-! ### Events -/

/-- A node of a change-log path. -/
structure PathNode where
  node : Pubkey
  index : ℕ
deriving DecidableEq

/-- `ChangeLogEventV1`: the path from the written leaf to the root after write `seq`. -/
structure ChangeLogEventV1 where
  id : Pubkey
  path : List PathNode
  seq : ℕ
  index : ℕ
deriving DecidableEq

inductive Version where
  | v1 | v2
deriving DecidableEq

/-- `mpl_bubblegum::types::LeafSchema`. -/
inductive LeafSchema where
  | v1 (id owner delegate : Pubkey) (nonce : ℕ) (dataHash creatorHash : Pubkey)
  | v2 (id owner delegate : Pubkey) (nonce : ℕ) (dataHash creatorHash : Pubkey)
      (collectionHash assetDataHash : Pubkey) (flags : UInt8)
deriving DecidableEq

structure LeafSchemaEvent where
  version : Version
  schema : LeafSchema
  leafHash : Pubkey
deriving DecidableEq

inductive AccountCompressionEvent where
  | changeLog (event : ChangeLogEventV1)
  | applicationData (applicationData : Bytes)
deriving DecidableEq

inductive BubblegumEventType where
  | uninitialized | leafSchemaEvent
deriving DecidableEq

/-! ### Arguments -/

inductive UseMethod where
  | burn | multiple | single
deriving DecidableEq

structure Uses where
  useMethod : UseMethod
  remaining : ℕ
  total : ℕ
deriving DecidableEq

structure Creator where
  address : Pubkey
  verified : Bool
  share : UInt8
deriving DecidableEq

structure Collection where
  verified : Bool
  key : Pubkey
deriving DecidableEq

/-- `MetadataArgs`, without the fields that no handler reads. -/
structure MetadataArgs where
  name : String
  symbol : String
  uri : MetadataUrl
  sellerFeeBasisPoints : ℕ
  primarySaleHappened : Bool
  isMutable : Bool
  editionNonce : Option UInt8
  collection : Option Collection
  uses : Option Uses
  creators : List Creator
deriving DecidableEq

structure UpdateArgs where
  name : Option String
  symbol : Option String
  uri : Option MetadataUrl
  creators : Option (List Creator)
  sellerFeeBasisPoints : Option ℕ
  primarySaleHappened : Option Bool
  isMutable : Option Bool
deriving DecidableEq

inductive InstructionName where
  | unknown | mintV1 | mintToCollectionV1 | redeem | cancelRedeem | transfer | delegate
  | decompressV1 | compress | burn | createTree | verifyCreator | unverifyCreator
  | verifyCollection | unverifyCollection | setAndVerifyCollection | setDecompressibleState
  | updateMetadata | burnV2 | collectV2 | createTreeV2 | delegateAndFreezeV2 | delegateV2
  | freezeV2 | mintV2 | setCollectionV2 | setNonTransferableV2 | thawAndRevokeV2 | thawV2
  | transferV2 | unverifyCreatorV2 | updateAssetDataV2 | updateMetadataV2 | verifyCreatorV2
deriving DecidableEq

/-- What the instruction's own data says, beyond its events. -/
inductive Payload where
  | unknown
  | mint (args : MetadataArgs) (authority treeId : Pubkey)
  | decompress (args : MetadataArgs)
  | cancelRedeem (root : Pubkey)
  | creatorVerification (metadata : MetadataArgs) (creator : Pubkey) (verify : Bool)
  | collectionVerification (collection : Pubkey) (verify : Bool)
  | updateMetadata (currentMetadata : MetadataArgs) (updateArgs : UpdateArgs) (treeId : Pubkey)
deriving DecidableEq

/-- `blockbuster::programs::bubblegum::BubblegumInstruction`. -/
structure BubblegumInstruction where
  instruction : InstructionName
  treeUpdate : Option ChangeLogEventV1 := none
  leafUpdate : Option LeafSchemaEvent := none
  payload : Option Payload := none
deriving DecidableEq

/-! ### The parser -/

/-- What the parser takes from the program crates: their addresses, the instruction discriminators and
the `borsh` decoders, whose errors carry a message. -/
structure Decoders where
  bubblegumId : Pubkey
  splNoopId : Pubkey
  mplNoopId : Pubkey
  getInstructionType : Bytes → InstructionName
  accountCompressionEvent : Bytes → Except String AccountCompressionEvent
  bubblegumEventType : Bytes → Except String BubblegumEventType
  leafSchemaEvent : Bytes → Except String LeafSchemaEvent
  metadataArgs : Bytes → Except String MetadataArgs
  verifyCreatorArgs : Bytes → Except String MetadataArgs
  unverifyCreatorArgs : Bytes → Except String MetadataArgs
  updateMetadataArgs : Bytes → Except String (MetadataArgs × UpdateArgs)
  mintV2Args : Bytes → Except String MetadataArgs
  verifyCreatorV2Args : Bytes → Except String MetadataArgs
  unverifyCreatorV2Args : Bytes → Except String MetadataArgs
  updateMetadataV2Args : Bytes → Except String (MetadataArgs × UpdateArgs)

/-- `From<std::io::Error>`. -/
def orIoError {α : Type} : Except String α → Except BlockbusterError α
  | .ok a => .ok a
  | .error e => .error (.ioError e)

/-- `keys.get(n).ok_or(InstructionParsingError)`. -/
def keyAt (keys : List Pubkey) (n : ℕ) : Except BlockbusterError Pubkey :=
  match keys[n]? with
  | some k => .ok k
  | none => .error .instructionParsingError

variable (D : Decoders)

def getBubblegumLeafSchemaEvent (appData : Bytes) : Except BlockbusterError LeafSchemaEvent :=
  match appData with
  | [] => .error .deserializationError
  | b :: _ => do
    match ← orIoError (D.bubblegumEventType [b]) with
    | .uninitialized => .error .missingBubblegumEventData
    | .leafSchemaEvent => orIoError (D.leafSchemaEvent appData)

def buildCreatorVerificationPayload (keys : List Pubkey) (ixData : Bytes) (verify : Bool) :
    Except BlockbusterError Payload := do
  let metadata ←
    if verify then orIoError (D.verifyCreatorArgs ixData)
    else orIoError (D.unverifyCreatorArgs ixData)
  let creator ← keyAt keys 5
  return .creatorVerification metadata creator verify

def buildCollectionVerificationPayload (keys : List Pubkey) (verify : Bool) :
    Except BlockbusterError Payload := do
  let collection ← keyAt keys 8
  return .collectionVerification collection verify

def buildMintV1Payload (keys : List Pubkey) (ixData : Bytes) (setVerify : Bool) :
    Except BlockbusterError Payload := do
  let args ← orIoError (D.metadataArgs ixData)
  let args :=
    if setVerify then
      { args with collection := args.collection.map fun c => { c with verified := true } }
    else args
  let authority ← keyAt keys 0
  let treeId ← keyAt keys 3
  return .mint args authority treeId

def buildUpdateMetadataPayload (keys : List Pubkey) (ixData : Bytes) :
    Except BlockbusterError Payload := do
  let args ← orIoError (D.updateMetadataArgs ixData)
  let treeId ← keyAt keys 8
  return .updateMetadata args.1 args.2 treeId

def buildMintV2Payload (keys : List Pubkey) (ixData : Bytes) :
    Except BlockbusterError Payload := do
  let metadata ← orIoError (D.mintV2Args ixData)
  let authority ← keyAt keys 0
  let treeId ← keyAt keys 6
  return .mint metadata authority treeId

def buildSetCollectionV2Payload (keys : List Pubkey) : Except BlockbusterError Payload := do
  let collection ← keyAt keys 8
  return .collectionVerification collection true

def buildCreatorVerificationV2Payload (keys : List Pubkey) (ixData : Bytes) (verify : Bool) :
    Except BlockbusterError Payload := do
  let metadata ←
    if verify then orIoError (D.verifyCreatorV2Args ixData)
    else orIoError (D.unverifyCreatorV2Args ixData)
  let payer ← keyAt keys 1
  let creator ← keyAt keys 2
  -- the creator is optional, its absence being signified by the program's own address
  let creator := if creator = D.bubblegumId then payer else creator
  return .creatorVerification metadata creator verify

def buildUpdateMetadataV2Payload (keys : List Pubkey) (ixData : Bytes) :
    Except BlockbusterError Payload := do
  let args ← orIoError (D.updateMetadataV2Args ixData)
  let treeId ← keyAt keys 5
  return .updateMetadata args.1 args.2 treeId

/-- The payload that the instruction's data and accounts give, when there is one. -/
def buildPayload (keys : List Pubkey) (ixData : Bytes) :
    InstructionName → Except BlockbusterError (Option Payload)
  | .mintV1 => some <$> buildMintV1Payload D keys ixData false
  | .mintToCollectionV1 => some <$> buildMintV1Payload D keys ixData true
  | .decompressV1 => do
    let args ← orIoError (D.metadataArgs ixData)
    return some (.decompress args)
  | .cancelRedeem =>
    if h : ixData.length = 32 then .ok (some (.cancelRedeem ⟨ixData, h⟩))
    else .error .instructionParsingError
  | .verifyCreator => some <$> buildCreatorVerificationPayload D keys ixData true
  | .unverifyCreator => some <$> buildCreatorVerificationPayload D keys ixData false
  | .verifyCollection => some <$> buildCollectionVerificationPayload keys true
  | .setAndVerifyCollection => some <$> buildCollectionVerificationPayload keys true
  | .unverifyCollection => some <$> buildCollectionVerificationPayload keys false
  | .updateMetadata => some <$> buildUpdateMetadataPayload D keys ixData
  | .mintV2 => some <$> buildMintV2Payload D keys ixData
  | .setCollectionV2 => some <$> buildSetCollectionV2Payload keys
  | .verifyCreatorV2 => some <$> buildCreatorVerificationV2Payload D keys ixData true
  | .unverifyCreatorV2 => some <$> buildCreatorVerificationV2Payload D keys ixData false
  | .updateMetadataV2 => some <$> buildUpdateMetadataV2Payload D keys ixData
  | _ => .ok none

/-- Whether the parser looks into an inner instruction. -/
def isNoop (ix : IxPair) : Bool :=
  (decide (ix.1 = D.splNoopId) || decide (ix.1 = D.mplNoopId)) && !ix.2.data.isEmpty

/-- One iteration of the loop over the inner instructions. -/
def takeEvent (b : BubblegumInstruction) (ix : IxPair) :
    Except BlockbusterError BubblegumInstruction :=
  if isNoop D ix then
    match D.accountCompressionEvent ix.2.data with
    | .ok (.changeLog event) => .ok { b with treeUpdate := some event }
    | .ok (.applicationData appData) => do
      let leaf ← getBubblegumLeafSchemaEvent D appData
      return { b with leafUpdate := some leaf }
    -- data that does not decode is logged and skipped
    | .error _ => .ok b
  else .ok b

/-- `BubblegumParser::handle_instruction`. -/
def handleInstruction (bundle : InstructionBundle) :
    Except BlockbusterError BubblegumInstruction :=
  match bundle.instruction with
  | none => .error .deserializationError
  | some cix => do
    let ixType := D.getInstructionType cix.data
    let b ← (bundle.innerIx.getD []).foldlM (takeEvent D) { instruction := ixType }
    let ixData := cix.data.drop 8
    if 8 ≤ cix.data.length ∧ ixData ≠ [] then
      let payload ← buildPayload D bundle.keys ixData b.instruction
      return { b with payload := payload }
    else return b

end Bubblegum

end DasIndexer
