import DasIndexer.Lib.Base58
import DasIndexer.Sql.Varchar

/-!
# Values stored in the tables

Byte strings, keys, JSON documents and the enumerated column types.  A key is a byte string that
carries its own length of 32, so that a key column never holds anything else and two keys with the
same base-58 text are the same key (`Pubkey.toString_inj`).

Slots and sequence numbers are natural numbers and enter a `bigint` column unchanged: the `as i64`
of the source is exact below `2 ^ 63`, which neither counter reaches.  Amounts and nonces have no
such bound and go through `asI64`.
-/

namespace DasIndexer

/-- A `bytea` value. -/
abbrev Bytes := Base58.Bytes

/-- Two byte strings compare equal when they are. -/
instance : LawfulBEq Bytes := inferInstance

/-- `x as i64` of an unsigned 64-bit value. -/
def asI64 (n : ℕ) : ℤ := Int.bmod n (2 ^ 64)

/-- A 32-byte key or hash. -/
structure Pubkey where
  bytes : Bytes
  length_bytes : bytes.length = 32
deriving DecidableEq

namespace Pubkey

/-- The key whose 32 bytes are all `b`. -/
def fill (b : UInt8) : Pubkey := ⟨List.replicate 32 b, List.length_replicate⟩

/-- `Pubkey::default()`. -/
def default : Pubkey := fill 0

/-- `ToString`: the base-58 text. -/
def toString (k : Pubkey) : String := Base58.encode k.bytes

theorem bytes_inj {a b : Pubkey} (h : a.bytes = b.bytes) : a = b := by
  cases a
  cases b
  simp only at h
  subst h
  rfl

theorem bytes_ne_nil (a : Pubkey) : a.bytes ≠ [] := by
  intro h
  have hlength := a.length_bytes
  rw [h] at hlength
  exact absurd hlength (by decide)

theorem toString_inj {a b : Pubkey} (h : a.toString = b.toString) : a = b :=
  bytes_inj (Base58.encode_injective h)

end Pubkey

/-- `s.replace('\0', "")`. -/
def stripNul (s : String) : String := String.ofList (s.toList.filter (· ≠ '\x00'))

/-- `char::is_whitespace`. -/
def isWhitespace (c : Char) : Bool :=
  (0x9 ≤ c.toNat && c.toNat ≤ 0xD) || c.toNat == 0x20 || c.toNat == 0x85 || c.toNat == 0xA0
    || c.toNat == 0x1680 || (0x2000 ≤ c.toNat && c.toNat ≤ 0x200A) || c.toNat == 0x2028
    || c.toNat == 0x2029 || c.toNat == 0x202F || c.toNat == 0x205F || c.toNat == 0x3000

/-- `str::trim`. -/
def trim (s : String) : String :=
  String.ofList ((((s.toList.dropWhile isWhitespace).reverse).dropWhile isWhitespace).reverse)

theorem length_stripNul_le (s : String) : (stripNul s).length ≤ s.length := by
  rw [stripNul, String.length_ofList, ← String.length_toList]
  exact List.length_filter_le _ _

theorem length_trim_le (s : String) : (trim s).length ≤ s.length := by
  rw [trim, String.length_ofList, List.length_reverse, ← String.length_toList]
  have hinner := (List.dropWhile_sublist (l := s.toList) isWhitespace).length_le
  have houter := (List.dropWhile_sublist (l := (s.toList.dropWhile isWhitespace).reverse)
    isWhitespace).length_le
  rw [List.length_reverse] at houter
  exact Nat.le_trans houter hinner

theorem stripNul_trim_replicate {c : Char} (hspace : isWhitespace c = false) (hnul : c ≠ '\x00') (n : ℕ) :
    stripNul (trim (String.ofList (List.replicate n c))) = String.ofList (List.replicate n c) := by
  have hdrop : (List.replicate n c).dropWhile isWhitespace = List.replicate n c := by
    cases n with
    | zero => rfl
    | succ n => rw [List.replicate_succ, List.dropWhile_cons_of_neg (by simp [hspace])]
  simp only [trim, stripNul, String.toList_ofList, hdrop, List.reverse_replicate, List.filter_replicate,
    hnul, ne_eq, not_false_eq_true, decide_true, if_true]

/-- A value of `asset_data.metadata_url`, a `varchar(200)`.  The URIs of Bubblegum and of Token Metadata
are such values from the start: these programs refuse more than 200 bytes. -/
abbrev MetadataUrl := Sql.Varchar 200

def MetadataUrl.stripNul (u : MetadataUrl) : MetadataUrl := u.map DasIndexer.stripNul length_stripNul_le

def MetadataUrl.trim (u : MetadataUrl) : MetadataUrl := u.map DasIndexer.trim length_trim_le

/-- The assignment to the column. -/
def MetadataUrl.assign (s : String) : Except String MetadataUrl := Sql.Varchar.assign 200 s

/-- `String::into_bytes`. -/
def utf8 (s : String) : Bytes := s.toUTF8.data.toList

/-! ### JSON -/

/-- A `serde_json::Value`, with object fields in insertion order. -/
inductive Json where
  | null
  | bool (b : Bool)
  | num (n : ℤ)
  | str (s : String)
  | arr (xs : List Json)
  | obj (fields : List (String × Json))

namespace Json

/-- A field that `skip_serializing_if = "Option::is_none"` drops. -/
def optional (key : String) : Option Json → List (String × Json)
  | none => []
  | some v => [(key, v)]

end Json

/-! ### On-chain data of an asset -/

/-- `mpl_token_metadata::types::TokenStandard`. -/
inductive TokenStandard where
  | nonFungible | fungibleAsset | fungible | nonFungibleEdition | programmableNonFungible
  | programmableNonFungibleEdition
deriving DecidableEq

/-- `mpl_token_metadata::types::UseMethod`. -/
inductive UseMethod where
  | burn | multiple | single
deriving DecidableEq

/-- `mpl_token_metadata::types::Uses`. -/
structure Uses where
  useMethod : UseMethod
  remaining : ℕ
  total : ℕ
deriving DecidableEq

/-- A unit variant serialises as its name. -/
def TokenStandard.toJson : TokenStandard → Json
  | .nonFungible => .str "NonFungible"
  | .fungibleAsset => .str "FungibleAsset"
  | .fungible => .str "Fungible"
  | .nonFungibleEdition => .str "NonFungibleEdition"
  | .programmableNonFungible => .str "ProgrammableNonFungible"
  | .programmableNonFungibleEdition => .str "ProgrammableNonFungibleEdition"

def UseMethod.toJson : UseMethod → Json
  | .burn => .str "Burn"
  | .multiple => .str "Multiple"
  | .single => .str "Single"

def Uses.toJson (u : Uses) : Json :=
  .obj [("use_method", u.useMethod.toJson), ("remaining", .num u.remaining), ("total", .num u.total)]

/-- `digital_asset_types::json::ChainDataV1`. -/
structure ChainDataV1 where
  name : String
  symbol : String
  editionNonce : Option UInt8
  primarySaleHappened : Bool
  tokenStandard : Option TokenStandard
  uses : Option Uses
deriving DecidableEq

namespace ChainDataV1

def sanitize (c : ChainDataV1) : ChainDataV1 :=
  { c with name := stripNul c.name, symbol := stripNul c.symbol }

/-- `serde_json::to_value`. -/
def toJson (c : ChainDataV1) : Json :=
  .obj ([("name", .str c.name), ("symbol", .str c.symbol)]
    ++ Json.optional "edition_nonce" (c.editionNonce.map fun n => .num n.toNat)
    ++ [("primary_sale_happened", .bool c.primarySaleHappened)]
    ++ Json.optional "token_standard" (c.tokenStandard.map TokenStandard.toJson)
    ++ Json.optional "uses" (c.uses.map Uses.toJson))

end ChainDataV1

/-! ### Enumerated columns -/

inductive OwnerType where
  | single | token | unknown
deriving DecidableEq

inductive RoyaltyTargetType where
  | creators | fanout | single | unknown
deriving DecidableEq

inductive SpecificationVersions where
  | unknown | v0 | v1 | v2
deriving DecidableEq

inductive SpecificationAssetClass where
  | fungibleAsset | fungibleToken | identityNft | mplBubblegumV2 | mplCoreAsset | mplCoreCollection
  | mplCoreGroup | nft | nonTransferableNft | print | printableNft | programmableNft
  | transferRestrictedNft | unknown
deriving DecidableEq

inductive ChainMutability where
  | immutable | mutable | unknown
deriving DecidableEq

inductive Mutability where
  | immutable | mutable | unknown
deriving DecidableEq

inductive V1AccountAttachments where
  | edition | editionMarker | masterEditionV1 | masterEditionV2 | tokenInscription | unknown
deriving DecidableEq

/-- The `instruction` column of `cl_audits_v2`. -/
inductive Instruction where
  | burn | burnV2 | cancelRedeem | compress | decompressV1 | delegate | delegateAndFreezeV2
  | delegateV2 | freezeV2 | mintToCollectionV1 | mintV1 | mintV2 | redeem | setAndVerifyCollection
  | setCollectionV2 | setNonTransferableV2 | thawAndRevokeV2 | thawV2 | transfer | transferV2
  | unknown | unverifyCollection | unverifyCreator | unverifyCreatorV2 | updateAssetDataV2
  | updateMetadata | updateMetadataV2 | verifyCollection | verifyCreator | verifyCreatorV2
deriving DecidableEq

/-- `impl From<&str> for Instruction`. -/
def Instruction.fromStr : String → Instruction
  | "Burn" => .burn
  | "CancelRedeem" => .cancelRedeem
  | "Compress" => .compress
  | "DecompressV1" => .decompressV1
  | "Delegate" => .delegate
  | "MintToCollectionV1" => .mintToCollectionV1
  | "MintV1" => .mintV1
  | "Redeem" => .redeem
  | "SetAndVerifyCollection" => .setAndVerifyCollection
  | "Transfer" => .transfer
  | "UnverifyCollection" => .unverifyCollection
  | "UnverifyCreator" => .unverifyCreator
  | "VerifyCollection" => .verifyCollection
  | "VerifyCreator" => .verifyCreator
  | "UpdateMetadata" => .updateMetadata
  | "BurnV2" => .burnV2
  | "DelegateV2" => .delegateV2
  | "DelegateAndFreezeV2" => .delegateAndFreezeV2
  | "FreezeV2" => .freezeV2
  | "MintV2" => .mintV2
  | "SetCollectionV2" => .setCollectionV2
  | "SetNonTransferableV2" => .setNonTransferableV2
  | "ThawV2" => .thawV2
  | "ThawAndRevokeV2" => .thawAndRevokeV2
  | "TransferV2" => .transferV2
  | "UnverifyCreatorV2" => .unverifyCreatorV2
  | "VerifyCreatorV2" => .verifyCreatorV2
  | "UpdateMetadataV2" => .updateMetadataV2
  | "UpdateAssetDataV2" => .updateAssetDataV2
  | _ => .unknown

/-- `to_pascal_case`. -/
def Instruction.toPascalCase : Instruction → String
  | .burn => "Burn"
  | .cancelRedeem => "CancelRedeem"
  | .compress => "Compress"
  | .decompressV1 => "DecompressV1"
  | .delegate => "Delegate"
  | .mintToCollectionV1 => "MintToCollectionV1"
  | .mintV1 => "MintV1"
  | .redeem => "Redeem"
  | .setAndVerifyCollection => "SetAndVerifyCollection"
  | .transfer => "Transfer"
  | .unknown => "Unknown"
  | .unverifyCollection => "UnverifyCollection"
  | .unverifyCreator => "UnverifyCreator"
  | .verifyCollection => "VerifyCollection"
  | .verifyCreator => "VerifyCreator"
  | .updateMetadata => "UpdateMetadata"
  | .burnV2 => "BurnV2"
  | .delegateV2 => "DelegateV2"
  | .delegateAndFreezeV2 => "DelegateAndFreezeV2"
  | .freezeV2 => "FreezeV2"
  | .mintV2 => "MintV2"
  | .setCollectionV2 => "SetCollectionV2"
  | .setNonTransferableV2 => "SetNonTransferableV2"
  | .thawV2 => "ThawV2"
  | .thawAndRevokeV2 => "ThawAndRevokeV2"
  | .transferV2 => "TransferV2"
  | .unverifyCreatorV2 => "UnverifyCreatorV2"
  | .verifyCreatorV2 => "VerifyCreatorV2"
  | .updateMetadataV2 => "UpdateMetadataV2"
  | .updateAssetDataV2 => "UpdateAssetDataV2"

end DasIndexer
