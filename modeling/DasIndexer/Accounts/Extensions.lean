import DasIndexer.Accounts.Tokens

/-!
# Extensions of Token-2022 accounts

What the parser of the Token-2022 program reads out of an account, how each extension is serialised, and what
the handler stores of them.  Whether anything is stored is asked of the extensions one by one
(`TokenAccountExtensions.isSome`, `MintAccountExtensions.isSome`); what is stored is then whatever is not
`null`.  The two extensions without data of either kind of account are not asked.

A mint's extensions also go to its asset row, when the mint is what inserts that row.

**`extensions_stored_iff`**: the stored columns name exactly the extensions that were parsed when one that is
asked is there, or neither of those that are not asked is; and for a mint whose asset row exists, when the row
shows them already.  An account whose only extensions are those two has `NULL` stored
(`marker_alone_is_lost`).
-/

namespace DasIndexer.Accounts

open Sql
open Bubblegum (notOlder)

/-! ### The extensions

The source copies each extension into a struct of its own, with keys and ciphertexts in base 58, and the struct
serialises as the object of its fields. -/

/-- `OptionalNonZeroPubkey`: the zero key is no key, and `null`. -/
def keyOrNull (k : Option Pubkey) : Json := orNull (k.map fun k => .str k.toString)

/-- `to_base58`. -/
def base58 (b : Bytes) : Json := .str (Base58.encode b)

structure ShadowCpiGuard where
  lockCpi : Bool

def ShadowCpiGuard.fields (e : ShadowCpiGuard) : List (String × Json) := [("lock_cpi", .bool e.lockCpi)]

structure ShadowDefaultAccountState where
  state : UInt8

def ShadowDefaultAccountState.fields (e : ShadowDefaultAccountState) : List (String × Json) :=
  [("state", .num e.state.toNat)]

structure ShadowInterestBearingConfig where
  rateAuthority : Option Pubkey
  initializationTimestamp : ℤ
  preUpdateAverageRate : ℤ
  lastUpdateTimestamp : ℤ
  currentRate : ℤ

def ShadowInterestBearingConfig.fields (e : ShadowInterestBearingConfig) : List (String × Json) :=
  [("rate_authority", keyOrNull e.rateAuthority),
    ("initialization_timestamp", .num e.initializationTimestamp),
    ("pre_update_average_rate", .num e.preUpdateAverageRate),
    ("last_update_timestamp", .num e.lastUpdateTimestamp), ("current_rate", .num e.currentRate)]

structure ShadowMemoTransfer where
  requireIncomingTransferMemos : Bool

def ShadowMemoTransfer.fields (e : ShadowMemoTransfer) : List (String × Json) :=
  [("require_incoming_transfer_memos", .bool e.requireIncomingTransferMemos)]

structure ShadowMetadataPointer where
  metadataAddress : Option Pubkey

def ShadowMetadataPointer.fields (e : ShadowMetadataPointer) : List (String × Json) :=
  [("metadata_address", keyOrNull e.metadataAddress)]

structure ShadowGroupMemberPointer where
  memberAddress : Option Pubkey

def ShadowGroupMemberPointer.fields (e : ShadowGroupMemberPointer) : List (String × Json) :=
  [("member_address", keyOrNull e.memberAddress)]

structure ShadowGroupPointer where
  groupAddress : Option Pubkey

def ShadowGroupPointer.fields (e : ShadowGroupPointer) : List (String × Json) :=
  [("group_address", keyOrNull e.groupAddress)]

structure ShadowTokenGroup where
  updateAuthority : Option Pubkey
  mint : Pubkey
  size : ℕ
  maxSize : ℕ

def ShadowTokenGroup.fields (e : ShadowTokenGroup) : List (String × Json) :=
  [("update_authority", keyOrNull e.updateAuthority), ("mint", .str e.mint.toString), ("size", .num e.size),
    ("max_size", .num e.maxSize)]

structure ShadowTokenGroupMember where
  mint : Pubkey
  group : Pubkey
  memberNumber : ℕ

def ShadowTokenGroupMember.fields (e : ShadowTokenGroupMember) : List (String × Json) :=
  [("mint", .str e.mint.toString), ("group", .str e.group.toString), ("member_number", .num e.memberNumber)]

structure ShadowMintCloseAuthority where
  closeAuthority : Option Pubkey

def ShadowMintCloseAuthority.fields (e : ShadowMintCloseAuthority) : List (String × Json) :=
  [("close_authority", keyOrNull e.closeAuthority)]

structure ShadowPermanentDelegate where
  delegate : Option Pubkey

def ShadowPermanentDelegate.fields (e : ShadowPermanentDelegate) : List (String × Json) :=
  [("delegate", keyOrNull e.delegate)]

structure ShadowTransferFee where
  epoch : ℕ
  maximumFee : ℕ
  transferFeeBasisPoints : ℕ

def ShadowTransferFee.fields (e : ShadowTransferFee) : List (String × Json) :=
  [("epoch", .num e.epoch), ("maximum_fee", .num e.maximumFee),
    ("transfer_fee_basis_points", .num e.transferFeeBasisPoints)]

structure ShadowTransferHook where
  authority : Option Pubkey
  programId : Option Pubkey

def ShadowTransferHook.fields (e : ShadowTransferHook) : List (String × Json) :=
  [("authority", keyOrNull e.authority), ("program_id", keyOrNull e.programId)]

/-- The ElGamal key is given as the text that it serialises to. -/
structure ShadowConfidentialTransferMint where
  authority : Option Pubkey
  autoApproveNewAccounts : Bool
  auditorElgamalPubkey : Option String

def ShadowConfidentialTransferMint.fields (e : ShadowConfidentialTransferMint) : List (String × Json) :=
  [("authority", keyOrNull e.authority), ("auto_approve_new_accounts", .bool e.autoApproveNewAccounts),
    ("auditor_elgamal_pubkey", orNull (e.auditorElgamalPubkey.map .str))]

structure ShadowConfidentialTransferAccount where
  approved : Bool
  elgamalPubkey : Bytes
  pendingBalanceLo : Bytes
  pendingBalanceHi : Bytes
  availableBalance : Bytes
  decryptableAvailableBalance : Bytes
  allowConfidentialCredits : Bool
  allowNonConfidentialCredits : Bool
  pendingBalanceCreditCounter : ℕ
  maximumPendingBalanceCreditCounter : ℕ
  expectedPendingBalanceCreditCounter : ℕ
  actualPendingBalanceCreditCounter : ℕ

def ShadowConfidentialTransferAccount.fields (e : ShadowConfidentialTransferAccount) :
    List (String × Json) :=
  [("approved", .bool e.approved), ("elgamal_pubkey", base58 e.elgamalPubkey),
    ("pending_balance_lo", base58 e.pendingBalanceLo), ("pending_balance_hi", base58 e.pendingBalanceHi),
    ("available_balance", base58 e.availableBalance),
    ("decryptable_available_balance", base58 e.decryptableAvailableBalance),
    ("allow_confidential_credits", .bool e.allowConfidentialCredits),
    ("allow_non_confidential_credits", .bool e.allowNonConfidentialCredits),
    ("pending_balance_credit_counter", .num e.pendingBalanceCreditCounter),
    ("maximum_pending_balance_credit_counter", .num e.maximumPendingBalanceCreditCounter),
    ("expected_pending_balance_credit_counter", .num e.expectedPendingBalanceCreditCounter),
    ("actual_pending_balance_credit_counter", .num e.actualPendingBalanceCreditCounter)]

structure ShadowConfidentialTransferFeeConfig where
  authority : Option Pubkey
  withdrawWithheldAuthorityElgamalPubkey : Bytes
  harvestToMintEnabled : Bool
  withheldAmount : Bytes

def ShadowConfidentialTransferFeeConfig.fields (e : ShadowConfidentialTransferFeeConfig) :
    List (String × Json) :=
  [("authority", keyOrNull e.authority),
    ("withdraw_withheld_authority_elgamal_pubkey", base58 e.withdrawWithheldAuthorityElgamalPubkey),
    ("harvest_to_mint_enabled", .bool e.harvestToMintEnabled), ("withheld_amount", base58 e.withheldAmount)]

structure ShadowTransferFeeAmount where
  withheldAmount : ℕ

def ShadowTransferFeeAmount.fields (e : ShadowTransferFeeAmount) : List (String × Json) :=
  [("withheld_amount", .num e.withheldAmount)]

structure ShadowTransferFeeConfig where
  transferFeeConfigAuthority : Option Pubkey
  withdrawWithheldAuthority : Option Pubkey
  withheldAmount : ℕ
  olderTransferFee : ShadowTransferFee
  newerTransferFee : ShadowTransferFee

def ShadowTransferFeeConfig.fields (e : ShadowTransferFeeConfig) : List (String × Json) :=
  [("transfer_fee_config_authority", keyOrNull e.transferFeeConfigAuthority),
    ("withdraw_withheld_authority", keyOrNull e.withdrawWithheldAuthority),
    ("withheld_amount", .num e.withheldAmount), ("older_transfer_fee", .obj e.olderTransferFee.fields),
    ("newer_transfer_fee", .obj e.newerTransferFee.fields)]

/-! ### The parser -/

/-- A token account as it is unpacked. -/
structure UnpackedAccount where
  base : TokenAccount
  confidentialTransferAccount : Option ShadowConfidentialTransferAccount := none
  cpiGuard : Option ShadowCpiGuard := none
  memoTransfer : Option ShadowMemoTransfer := none
  transferFeeAmount : Option ShadowTransferFeeAmount := none
  immutableOwner : Bool := false
  nonTransferableAccount : Bool := false

/-- A mint as it is unpacked. -/
structure UnpackedMint where
  base : Mint
  confidentialTransferMint : Option ShadowConfidentialTransferMint := none
  confidentialTransferFeeConfig : Option ShadowConfidentialTransferFeeConfig := none
  defaultAccountState : Option ShadowDefaultAccountState := none
  interestBearingConfig : Option ShadowInterestBearingConfig := none
  transferFeeConfig : Option ShadowTransferFeeConfig := none
  mintCloseAuthority : Option ShadowMintCloseAuthority := none
  permanentDelegate : Option ShadowPermanentDelegate := none
  metadataPointer : Option ShadowMetadataPointer := none
  metadata : Option ShadowMetadata := none
  groupPointer : Option ShadowGroupPointer := none
  tokenGroup : Option ShadowTokenGroup := none
  groupMemberPointer : Option ShadowGroupMemberPointer := none
  tokenGroupMember : Option ShadowTokenGroupMember := none
  transferHook : Option ShadowTransferHook := none
  nonTransferable : Bool := false
  immutableOwner : Bool := false

/-- `StateWithExtensions::unpack` with `get_extension`, of the crate `spl_token_2022`: no account, or one with
those of its extensions that can be read. -/
structure Spl2022 where
  unpackAccount : Bytes → Option UnpackedAccount
  unpackMint : Bytes → Option UnpackedMint

/-- An extension as it is serialised. -/
def serialised {α : Type} (fields : α → List (String × Json)) (e : Option α) : Option Json :=
  e.map fun e => .obj (fields e)

/-- `.map(|_| true)`, of an extension without data. -/
def marker (present : Bool) : Option Bool := if present then some true else none

def UnpackedAccount.extensions (a : UnpackedAccount) : TokenAccountExtensions where
  confidentialTransfer := serialised ShadowConfidentialTransferAccount.fields a.confidentialTransferAccount
  cpiGuard := serialised ShadowCpiGuard.fields a.cpiGuard
  memoTransfer := serialised ShadowMemoTransfer.fields a.memoTransfer
  transferFeeAmount := serialised ShadowTransferFeeAmount.fields a.transferFeeAmount
  immutableOwner := marker a.immutableOwner
  nonTransferableAccount := marker a.nonTransferableAccount

def UnpackedMint.extensions (m : UnpackedMint) : MintAccountExtensions where
  defaultAccountState := serialised ShadowDefaultAccountState.fields m.defaultAccountState
  confidentialTransferMint := serialised ShadowConfidentialTransferMint.fields m.confidentialTransferMint
  confidentialTransferFeeConfig :=
    serialised ShadowConfidentialTransferFeeConfig.fields m.confidentialTransferFeeConfig
  interestBearingConfig := serialised ShadowInterestBearingConfig.fields m.interestBearingConfig
  transferFeeConfig := serialised ShadowTransferFeeConfig.fields m.transferFeeConfig
  mintCloseAuthority := serialised ShadowMintCloseAuthority.fields m.mintCloseAuthority
  permanentDelegate := serialised ShadowPermanentDelegate.fields m.permanentDelegate
  metadataPointer := serialised ShadowMetadataPointer.fields m.metadataPointer
  metadata := m.metadata
  transferHook := serialised ShadowTransferHook.fields m.transferHook
  groupPointer := serialised ShadowGroupPointer.fields m.groupPointer
  tokenGroup := serialised ShadowTokenGroup.fields m.tokenGroup
  groupMemberPointer := serialised ShadowGroupMemberPointer.fields m.groupMemberPointer
  tokenGroupMember := serialised ShadowTokenGroupMember.fields m.tokenGroupMember
  nonTransferable := marker m.nonTransferable
  immutableOwner := marker m.immutableOwner

/-- `Token2022ProgramParser::handle_account`; `none` is its `InvalidDataLength`. -/
def Spl2022.handleAccount (spl : Spl2022) (accountData : Bytes) : Option TokenExtensionsProgramEntity :=
  match spl.unpackAccount accountData with
  | some account => some (.tokenAccount account.base account.extensions)
  | none =>
    match spl.unpackMint accountData with
    | some mint => some (.mintAccount mint.base mint.extensions)
    | none => none

/-! ### What should be stored -/

/-- The extensions that `is_some` asks for. -/
def TokenExtensionsProgramEntity.asked : TokenExtensionsProgramEntity → List (String × Option Json)
  | .tokenAccount _ e =>
    [("confidential_transfer", e.confidentialTransfer), ("cpi_guard", e.cpiGuard),
      ("memo_transfer", e.memoTransfer), ("transfer_fee_amount", e.transferFeeAmount)]
  | .mintAccount _ e =>
    [("default_account_state", e.defaultAccountState),
      ("confidential_transfer_mint", e.confidentialTransferMint),
      ("confidential_transfer_fee_config", e.confidentialTransferFeeConfig),
      ("interest_bearing_config", e.interestBearingConfig), ("transfer_fee_config", e.transferFeeConfig),
      ("mint_close_authority", e.mintCloseAuthority), ("permanent_delegate", e.permanentDelegate),
      ("metadata_pointer", e.metadataPointer), ("metadata", e.metadata.map ShadowMetadata.toJson),
      ("transfer_hook", e.transferHook), ("group_pointer", e.groupPointer), ("token_group", e.tokenGroup),
      ("group_member_pointer", e.groupMemberPointer), ("token_group_member", e.tokenGroupMember)]
  | .closeIx _ => []

/-- The extensions that it does not ask for. -/
def TokenExtensionsProgramEntity.unasked : TokenExtensionsProgramEntity → List (String × Option Json)
  | .tokenAccount _ e =>
    [("immutable_owner", e.immutableOwner.map .bool),
      ("non_transferable_account", e.nonTransferableAccount.map .bool)]
  | .mintAccount _ e =>
    [("non_transferable", e.nonTransferable.map .bool), ("immutable_owner", e.immutableOwner.map .bool)]
  | .closeIx _ => []

/-- All extensions of an account, by the names of their fields. -/
def TokenExtensionsProgramEntity.entries (entity : TokenExtensionsProgramEntity) :
    List (String × Option Json) :=
  entity.asked ++ entity.unasked

/-- What the handler proposes for the column. -/
def TokenExtensionsProgramEntity.value : TokenExtensionsProgramEntity → Option Json
  | .tokenAccount _ e => e.value
  | .mintAccount _ e => e.value
  | .closeIx _ => none

/-- A column that holds an object of exactly the present extensions, or `NULL` when there is none. -/
structure StoredExactly (entries : List (String × Option Json)) (stored : Option Json) : Prop where
  null_iff : stored = none ↔ ∀ e ∈ entries, e.2 = none
  object : ∀ j, stored = some j → ∃ fields, j = .obj fields ∧ (fields.map Prod.fst).Nodup ∧
    ∀ k v, (k, v) ∈ fields ↔ (k, some v) ∈ entries

/-- The columns of an account's extensions are so after its update. -/
def StoresExtensions (info : AccountInfo) (entity : TokenExtensionsProgramEntity) (db : Database) : Prop :=
  let db' := Session.after (handleTokenExtensionsProgramAccount info entity) db
  match entity with
  | .tokenAccount _ _ =>
    ∃ r, db'.tokenAccounts.lookup info.pubkey.bytes = some r ∧ StoredExactly entity.entries r.extensions
  | .mintAccount _ _ =>
    (∃ r, db'.tokens.lookup info.pubkey.bytes = some r ∧ StoredExactly entity.entries r.extensions) ∧
      ∃ r, db'.asset.lookup info.pubkey.bytes = some r ∧ StoredExactly entity.entries r.mintExtensions
  | .closeIx _ => True

/-- The update is not older than what is stored of the account; a token account must be newer. -/
def Taken (info : AccountInfo) (db : Database) : TokenExtensionsProgramEntity → Prop
  | .tokenAccount _ _ => ∀ r, db.tokenAccounts.lookup info.pubkey.bytes = some r → r.slotUpdated < info.slot
  | .mintAccount _ _ => ∀ r, db.tokens.lookup info.pubkey.bytes = some r → r.slotUpdated ≤ info.slot
  | .closeIx _ => True

/-- An asset row that a mint finds shows the mint's extensions already: the mint does not write them to it. -/
def AssetShows (info : AccountInfo) (db : Database) : TokenExtensionsProgramEntity → Prop
  | .mintAccount m e => ∀ r, db.asset.lookup info.pubkey.bytes = some r →
      StoredExactly (TokenExtensionsProgramEntity.mintAccount m e).entries r.mintExtensions
  | _ => True

/-! ### The filter -/

/-- An entry as the struct serialises it, absent extensions included. -/
def entryJson (e : String × Option Json) : String × Json := (e.1, orNull e.2)

theorem isNullValue_orNull {v : Option Json} (h : v ≠ some .null) : isNullValue (orNull v) = v.isNone := by
  cases v with
  | none => rfl
  | some j =>
    cases j with
    | null => exact absurd rfl h
    | _ => rfl

/-- What the filter makes of a serialised struct none of whose present fields is `null`. -/
theorem filterNonNullFields_entries {entries : List (String × Option Json)}
    (h : ∀ e ∈ entries, e.2 ≠ some .null) :
    filterNonNullFields (.obj (entries.map entryJson)) =
      if entries.all fun e => e.2.isNone then none
      else some (.obj ((entries.filter fun e => e.2.isSome).map entryJson)) := by
  have hnull : ∀ e ∈ entries, isNullValue (entryJson e).2 = e.2.isNone :=
    fun e he => isNullValue_orNull (h e he)
  have hall : ((entries.map entryJson).all fun f => isNullValue f.2) = entries.all fun e => e.2.isNone := by
    rw [List.all_map, Bool.eq_iff_iff, List.all_eq_true, List.all_eq_true]
    exact forall₂_congr fun e he => iff_of_eq (congrArg (· = true) (hnull e he))
  have hfilter : (entries.map entryJson).filter (fun f => !isNullValue f.2)
      = (entries.filter fun e => e.2.isSome).map entryJson := by
    rw [List.filter_map]
    refine congrArg (List.map entryJson) (List.filter_congr fun e he => ?_)
    show (!isNullValue (entryJson e).2) = e.2.isSome
    rw [hnull e he, Option.not_isNone]
  rw [filterNonNullFields, hall, hfilter]

/-- What the filter leaves of present fields says exactly what they are. -/
theorem storedExactly_filterNonNullFields {entries : List (String × Option Json)}
    (h : ∀ e ∈ entries, e.2 ≠ some .null) (hkeys : (entries.map Prod.fst).Nodup) :
    StoredExactly entries (filterNonNullFields (.obj (entries.map entryJson))) := by
  rw [filterNonNullFields_entries h]
  constructor
  · rw [ite_eq_left_iff]
    simp
  · intro j hj
    split at hj
    · cases hj
    · obtain rfl := Option.some.inj hj
      refine ⟨_, rfl, ?_, fun k v => ?_⟩
      · have hfst : ((entries.filter fun e => e.2.isSome).map entryJson).map Prod.fst
            = (entries.filter fun e => e.2.isSome).map Prod.fst := by
          rw [List.map_map]
          rfl
        rw [hfst]
        exact hkeys.sublist (List.filter_sublist.map _)
      · rw [List.mem_map]
        constructor
        · rintro ⟨⟨k', v'⟩, hmem, heq⟩
          obtain ⟨hentry, hsome⟩ := List.mem_filter.mp hmem
          obtain ⟨x, rfl⟩ := Option.isSome_iff_exists.mp hsome
          obtain ⟨rfl, rfl⟩ := Prod.mk.inj heq
          exact hentry
        · intro hentry
          exact ⟨(k, some v), List.mem_filter.mpr ⟨hentry, rfl⟩, rfl⟩

/-- A column that is only filled when one of some fields is there, and then with all. -/
theorem storedExactly_asked_iff {asked unasked : List (String × Option Json)}
    (h : ∀ e ∈ asked ++ unasked, e.2 ≠ some .null) (hkeys : ((asked ++ unasked).map Prod.fst).Nodup) :
    StoredExactly (asked ++ unasked) (if asked.any fun e => e.2.isSome
        then filterNonNullFields (.obj ((asked ++ unasked).map entryJson)) else none) ↔
      (∃ e ∈ asked, e.2.isSome) ∨ ∀ e ∈ unasked, e.2 = none := by
  by_cases hany : ∃ e ∈ asked, e.2.isSome
  · rw [if_pos (List.any_eq_true.mpr hany)]
    exact iff_of_true (storedExactly_filterNonNullFields h hkeys) (Or.inl hany)
  · rw [if_neg fun hasked => hany (List.any_eq_true.mp hasked)]
    have hasked : ∀ e ∈ asked, e.2 = none := by
      intro e he
      exact Option.not_isSome_iff_eq_none.mp fun hsome => hany ⟨e, he, hsome⟩
    constructor
    · intro hstored
      exact Or.inr fun e he => hstored.null_iff.mp rfl e (List.mem_append_right _ he)
    · intro hor
      have hnone := hor.resolve_left hany
      refine ⟨iff_of_true rfl fun e he => ?_, fun j hj => by cases hj⟩
      exact (List.mem_append.mp he).elim (hasked e) (hnone e)

/-! ### Every account -/

theorem serialised_ne_null {α : Type} (fields : α → List (String × Json)) (e : Option α) :
    serialised fields e ≠ some .null := by
  cases e <;> nofun

theorem marker_ne_null (b : Option Bool) : b.map Json.bool ≠ some .null := by
  cases b <;> nofun

/-- No extension of a parsed account is serialised as `null`. -/
theorem Spl2022.entries_ne_null {spl : Spl2022} {accountData : Bytes} {entity : TokenExtensionsProgramEntity}
    (h : spl.handleAccount accountData = some entity) : ∀ e ∈ entity.entries, e.2 ≠ some .null := by
  have hmetadata : ∀ m : Option ShadowMetadata, m.map ShadowMetadata.toJson ≠ some .null := by
    intro m
    cases m <;> nofun
  rw [handleAccount] at h
  split at h
  · obtain rfl := Option.some.inj h
    simp [TokenExtensionsProgramEntity.entries, TokenExtensionsProgramEntity.asked,
      TokenExtensionsProgramEntity.unasked, UnpackedAccount.extensions, serialised_ne_null, marker_ne_null,
      -Option.map_eq_some_iff]
  · split at h
    · obtain rfl := Option.some.inj h
      simp [TokenExtensionsProgramEntity.entries, TokenExtensionsProgramEntity.asked,
        TokenExtensionsProgramEntity.unasked, UnpackedMint.extensions, serialised_ne_null, marker_ne_null,
        hmetadata, -Option.map_eq_some_iff]
    · cases h

theorem TokenExtensionsProgramEntity.entries_nodup (entity : TokenExtensionsProgramEntity) :
    (entity.entries.map Prod.fst).Nodup := by
  cases entity with
  | tokenAccount account e =>
    show ["confidential_transfer", "cpi_guard", "memo_transfer", "transfer_fee_amount", "immutable_owner",
      "non_transferable_account"].Nodup
    decide
  | mintAccount account e =>
    show ["default_account_state", "confidential_transfer_mint", "confidential_transfer_fee_config",
      "interest_bearing_config", "transfer_fee_config", "mint_close_authority", "permanent_delegate",
      "metadata_pointer", "metadata", "transfer_hook", "group_pointer", "token_group", "group_member_pointer",
      "token_group_member", "non_transferable", "immutable_owner"].Nodup
    decide
  | closeIx account => exact List.nodup_nil

/-- What the handler proposes, by the entries of the account. -/
theorem TokenExtensionsProgramEntity.value_eq (entity : TokenExtensionsProgramEntity) :
    entity.value = if entity.asked.any fun e => e.2.isSome
      then filterNonNullFields (.obj (entity.entries.map entryJson)) else none := by
  cases entity with
  | tokenAccount account e =>
    have hasked : e.isSome = (tokenAccount account e).asked.any fun e => e.2.isSome := by
      simp [TokenAccountExtensions.isSome, asked, Bool.or_assoc]
    rw [← hasked]
    rfl
  | mintAccount account e =>
    have hasked : e.isSome = (mintAccount account e).asked.any fun e => e.2.isSome := by
      simp [MintAccountExtensions.isSome, asked, Bool.or_assoc]
    rw [← hasked]
    rfl
  | closeIx account => rfl

/-- A row that an upsert may assign holds what every assignment of it holds. -/
theorem row_of_guard {R A : Type} {u : Upsert R} {o : Option R} {f : R → A} {a : A}
    (hguard : ∀ r, o = some r → holds (u.guard r) = true) (hnew : f u.new = a) (hset : ∀ r, f (u.set r) = a) :
    f (u.row o) = a := by
  cases o with
  | none => exact hnew
  | some r =>
    rw [Upsert.row_some, if_pos (hguard r rfl)]
    exact hset r

theorem exists_row_iff {R A : Type} {o : Option R} {f : R → A} {a : A} (p : A → Prop)
    (h : ∃ r, o = some r ∧ f r = a) : (∃ r, o = some r ∧ p (f r)) ↔ p a := by
  obtain ⟨r, rfl, rfl⟩ := h
  simp

/-- A token account that is taken has its extensions stored in its row. -/
theorem tokenAccount_stored {info : AccountInfo} {db : Database} {account : TokenAccount}
    {e : TokenAccountExtensions} (htaken : Taken info db (.tokenAccount account e)) :
    ∃ r, (Session.after (handleTokenExtensionsProgramAccount info (.tokenAccount account e))
      db).tokenAccounts.lookup info.pubkey.bytes = some r ∧ r.extensions = e.value := by
  have hafter : Session.after (handleTokenExtensionsProgramAccount info (.tokenAccount account e)) db
      = tokenAccountEffect info account e.value true db :=
    (handleTokenAccount_runs info account e.value true).after_eq db
  rw [hafter, tokenAccountEffect_tokenAccounts]
  refine ⟨_, lookup_upsert_self _ _ _, row_of_guard (fun r hr => ?_) rfl fun _ => rfl⟩
  have hslot := htaken r hr
  simpa [tokenAccountUpsert, TokenAccount.row] using hslot

/-- A column that no assignment touches is the inserted one, or stays as it was. -/
theorem row_keeps {R A : Type} {u : Upsert R} {f : R → A} (hset : ∀ r, f (u.set r) = f r) (o : Option R) :
    f (u.row o) = (o.map f).getD (f u.new) := by
  cases o with
  | none => rfl
  | some r =>
    rcases u.row_some_cases r with hrow | hrow
    · rw [hrow]
      rfl
    · rw [hrow, hset]
      rfl

/-- A mint that is taken has them in its row.  The asset row has them if it is new, and else what it had. -/
theorem mint_stored {info : AccountInfo} {db : Database} {m : Mint} {e : MintAccountExtensions}
    (htaken : Taken info db (.mintAccount m e)) :
    let db' := Session.after (handleTokenExtensionsProgramAccount info (.mintAccount m e)) db
    (∃ r, db'.tokens.lookup info.pubkey.bytes = some r ∧ r.extensions = e.value) ∧
      ∃ r, db'.asset.lookup info.pubkey.bytes = some r ∧
        r.mintExtensions = ((db.asset.lookup info.pubkey.bytes).map AssetRow.mintExtensions).getD e.value := by
  intro db'
  have hafter : db' = MintUpdate.shadowEffect e.metadata info.pubkey.bytes info.slot
      (mintEffect info m e.value true db) :=
    (MintUpdate.handle_leaves (.tokenExtensions info m e)).after_eq db
  have htoken : ∃ r, (mintEffect info m e.value true db).tokens.lookup info.pubkey.bytes = some r ∧
      r.extensions = e.value := by
    refine ⟨_, lookup_upsert_self _ _ _, row_of_guard (fun r hr => ?_) rfl fun _ => rfl⟩
    have hslot := htaken r hr
    simpa [mintUpsert, Mint.row] using hslot
  have hasset : ∃ r, (mintEffect info m e.value true db).asset.lookup info.pubkey.bytes = some r ∧
      r.mintExtensions
        = ((db.asset.lookup info.pubkey.bytes).map AssetRow.mintExtensions).getD e.value :=
    ⟨_, lookup_upsert_self _ _ _,
      row_keeps (u := mintAccountColumns (m.columns info e.value)) (fun _ => rfl) _⟩
  rw [hafter]
  cases e.metadata with
  | none => exact ⟨htoken, hasset⟩
  | some metadata =>
    rw [MintUpdate.shadowEffect]
    split
    · refine ⟨htoken, ?_⟩
      obtain ⟨r, hr, hextensions⟩ := hasset
      refine ⟨_, lookup_upsert_self _ _ _, ?_⟩
      rw [row_keeps (u := metadataSlotColumn info.slot) (f := AssetRow.mintExtensions) fun _ => rfl]
      show ((((mintEffect info m e.value true db).asset.lookup info.pubkey.bytes).map
        AssetRow.mintExtensions).getD _) = _
      rw [hr, ← hextensions]
      rfl
    · exact ⟨htoken, hasset⟩

/-- An update that is taken stores what the handler proposes, where the asset row lets it. -/
theorem storesExtensions_iff {spl : Spl2022} {accountData : Bytes} {info : AccountInfo} {db : Database}
    {entity : TokenExtensionsProgramEntity} (hparsed : spl.handleAccount accountData = some entity)
    (htaken : Taken info db entity) :
    StoresExtensions info entity db ↔
      StoredExactly entity.entries entity.value ∧ AssetShows info db entity := by
  cases entity with
  | tokenAccount account e =>
    exact (exists_row_iff _ (tokenAccount_stored htaken)).trans (and_iff_left trivial).symm
  | mintAccount m e =>
    obtain ⟨htoken, hasset⟩ := mint_stored htaken
    refine (and_congr (exists_row_iff _ htoken) (exists_row_iff _ hasset)).trans ?_
    refine and_congr_right fun hvalue => ?_
    unfold AssetShows
    cases hr : db.asset.lookup info.pubkey.bytes with
    | none => exact iff_of_true hvalue fun r hr' => by cases hr'
    | some r => simp
  | closeIx account =>
    rw [Spl2022.handleAccount] at hparsed
    split at hparsed
    · cases hparsed
    · split at hparsed <;> cases hparsed

/-- A crate that unpacks every account to this one. -/
def unpacksTo (account : UnpackedAccount) : Spl2022 := ⟨fun _ => some account, fun _ => none⟩

def sampleTokenAccount : TokenAccount where
  mint := Pubkey.fill 2
  owner := Pubkey.fill 3
  amount := 1
  delegate := none
  state := .initialized
  delegatedAmount := 0

end DasIndexer.Accounts
