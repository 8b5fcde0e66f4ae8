import DasIndexer.Accounts.TokenMetadata

/-!
# Mint, metadata and token account in any order

The asset row of a token is filled from three accounts that arrive in any order.  Each handler reads what the
others have stored and writes its own columns, but a row that is there keeps all of the columns that the three
should agree on: the first write to the row decides them for good (`columns_fixed`).

**`commute_iff`** says when all orders agree: where the row is there already, or where the mint is known as
fungible, with the supply that its update brings.  A mint that is new to the tables is neither, so for it the
orders never agree (`not_commute_of_unknown`).
-/

namespace DasIndexer.Accounts.MintOrder

open Sql Session TokenMetadata

/-- The three accounts of one mint, the token account with a balance. -/
structure Trio where
  mint : Pubkey
  mintAccount : MintUpdate
  metadata : Metadata
  metadataSlot : ℕ
  tokenAccount : TokenAccountUpdate
  mintAccount_eq : mintAccount.info.pubkey = mint
  metadata_eq : metadata.mint = mint
  tokenAccount_eq : tokenAccount.account.mint = mint
  amount_pos : 0 < tokenAccount.account.amount

/-- One of the three updates. -/
inductive Part where
  | mintAccount | metadata | tokenAccount
deriving DecidableEq

variable (masterEditionPda : Pubkey → Pubkey) (t : Trio)

def handle : Part → Handler Unit
  | .mintAccount => t.mintAccount.handle
  | .metadata => handleMetadata masterEditionPda t.metadata t.metadataSlot
  | .tokenAccount => t.tokenAccount.handle

def effect : Part → Database → Database
  | .mintAccount => t.mintAccount.effect
  | .metadata => metadataEffect masterEditionPda t.metadata t.metadataSlot
  | .tokenAccount => t.tokenAccount.effect

theorem handle_leaves (p : Part) :
    Session.Leaves (handle masterEditionPda t p) (effect masterEditionPda t p) := by
  cases p with
  | mintAccount => exact t.mintAccount.handle_leaves
  | metadata => exact (handleMetadata_runs masterEditionPda t.metadata t.metadataSlot).leaves
  | tokenAccount => exact t.tokenAccount.handle_runs.leaves

/-- The columns that more than one of the three should agree on. -/
structure Columns where
  owner : Option Bytes
  delegate : Option Bytes
  frozen : Bool
  ownerType : OwnerType
  specificationAssetClass : Option SpecificationAssetClass
  supply : ℤ
  supplyMint : Option Bytes
deriving DecidableEq

def columnsOf (r : AssetRow) : Columns :=
  { owner := r.owner, delegate := r.delegate, frozen := r.frozen, ownerType := r.ownerType,
    specificationAssetClass := r.specificationAssetClass, supply := r.supply, supplyMint := r.supplyMint }

/-- The columns of the mint's asset row, where there is one. -/
def columnsAt (mint : Bytes) (db : Database) : Option Columns := (db.asset.lookup mint).map columnsOf

/-- The columns of the asset row after an order of the updates. -/
def columnsAfter (order : List Part) (db : Database) : Option Columns :=
  columnsAt t.mint.bytes (afterAll (handle masterEditionPda t) order db)

/-- Every order of the three updates ends in the same columns. -/
def Commute (db : Database) : Prop :=
  ∀ order order' : List Part, order.Perm [.mintAccount, .metadata, .tokenAccount] →
    order'.Perm [.mintAccount, .metadata, .tokenAccount] →
      columnsAfter masterEditionPda t order db = columnsAfter masterEditionPda t order' db

/-! ### A row that is there -/

/-- An upsert of the asset table that assigns none of the columns keeps those of a stored row. -/
theorem columnsAt_upsert {u : Upsert AssetRow} (hset : ∀ r, columnsOf (u.set r) = columnsOf r)
    {mint : Bytes} (k : Bytes) {db : Database} {c : Columns} (h : columnsAt mint db = some c) :
    columnsAt mint (Database.upsertAsset k u db) = some c := by
  simp only [columnsAt, Database.upsertAsset, lookup_upsert]
  split
  · rename_i hk
    subst hk
    cases hr : db.asset.lookup mint with
    | none => simp [columnsAt, hr] at h
    | some r =>
      have hc : columnsOf r = c := by simpa [columnsAt, hr] using h
      rw [Option.map_some]
      rcases u.row_some_cases r with hrow | hrow
      · rw [hrow, hc]
      · rw [hrow, hset, hc]
  · exact h

theorem columnsAt_mintEffect {info : AccountInfo} {m : Mint} {extensions : Option Json} {sets : Bool}
    {mint : Bytes} {db : Database} {c : Columns} (h : columnsAt mint db = some c) :
    columnsAt mint (mintEffect info m extensions sets db) = some c := by
  have htokens : columnsAt mint
      (upsertToken info.pubkey.bytes (mintUpsert (m.row info extensions) sets) db) = some c := h
  exact columnsAt_upsert (fun _ => rfl) _ htokens

/-- The metadata that a Token-2022 mint may hold touches none of the columns. -/
theorem columnsAt_shadowEffect (metadata : Option ShadowMetadata) (key : Bytes) (slot : ℕ) {mint : Bytes}
    {db : Database} {c : Columns} (h : columnsAt mint db = some c) :
    columnsAt mint (MintUpdate.shadowEffect metadata key slot db) = some c := by
  cases metadata with
  | none => exact h
  | some m =>
    rw [MintUpdate.shadowEffect]
    split
    · exact columnsAt_upsert (fun _ => rfl) _ (show columnsAt mint (Database.upsertAssetData _ _ _) = _ from h)
    · exact h

theorem columnsAt_mintUpdate (u : MintUpdate) {mint : Bytes} {db : Database} {c : Columns}
    (h : columnsAt mint db = some c) : columnsAt mint (u.effect db) = some c := by
  cases u with
  | token info m => exact columnsAt_mintEffect h
  | tokenExtensions info m extensions =>
    exact columnsAt_shadowEffect extensions.metadata _ _ (columnsAt_mintEffect h)

theorem columnsAt_tokenAccountUpdate (u : TokenAccountUpdate) {mint : Bytes} {db : Database} {c : Columns}
    (h : columnsAt mint db = some c) : columnsAt mint (u.effect db) = some c := by
  have hasset := u.effect_asset db
  split at hasset
  · have heq : columnsAt mint (u.effect db) = columnsAt mint
        (Database.upsertAsset u.account.mint.bytes (tokenAccountColumns (u.account.columns u.info)) db) := by
      simp only [columnsAt, hasset, Database.upsertAsset]
    rw [heq]
    exact columnsAt_upsert (fun _ => rfl) _ h
  · simpa only [columnsAt, hasset] using h

theorem columnsAt_indexOwnerEffect (m : Metadata) (supply : ℤ) {mint : Bytes} {db : Database} {c : Columns}
    (h : columnsAt mint db = some c) : columnsAt mint (indexOwnerEffect m supply db) = some c := by
  unfold indexOwnerEffect indexTokenAccountEffect
  split
  · split
    · exact columnsAt_upsert (fun _ => rfl) _ h
    · exact h
  · exact h

/-- Of the transaction of a metadata account and what follows it, only the metadata columns matter. -/
theorem columnsAt_metadataEffect_tail (m : Metadata) (slot : ℕ) (supply : ℤ) (db : Database)
    (mint : Bytes) :
    columnsAt mint (attachEditionEffect masterEditionPda m slot
        (saveTransactionEffect masterEditionPda m slot supply db))
      = columnsAt mint (Database.upsertAsset m.mint.bytes
          (metadataAccountColumns (TokenMetadata.columns m slot supply)) db) := by
  unfold attachEditionEffect
  split <;> rfl

/-- A row that is there when the metadata account has copied what is known of the mint. -/
theorem columnsAt_metadataEffect_of_indexed (m : Metadata) (slot : ℕ) {mint : Bytes} {db : Database}
    {c : Columns} (h : columnsAt mint (indexMintEffect m.mint.bytes db) = some c) :
    columnsAt mint (metadataEffect masterEditionPda m slot db) = some c := by
  rw [metadataEffect, columnsAt_metadataEffect_tail]
  exact columnsAt_upsert (fun _ => rfl) _ (columnsAt_indexOwnerEffect m _ h)

theorem columnsAt_metadataEffect (m : Metadata) (slot : ℕ) {mint : Bytes} {db : Database} {c : Columns}
    (h : columnsAt mint db = some c) : columnsAt mint (metadataEffect masterEditionPda m slot db) = some c := by
  apply columnsAt_metadataEffect_of_indexed
  unfold indexMintEffect
  split
  · exact columnsAt_upsert (fun _ => rfl) _ h
  · exact h

/-- **The columns of an asset row never change**, whatever the three handlers do to it. -/
theorem columns_fixed (order : List Part) {db : Database} {c : Columns}
    (h : columnsAt t.mint.bytes db = some c) : columnsAfter masterEditionPda t order db = some c := by
  unfold columnsAfter
  induction order generalizing db with
  | nil => exact h
  | cons p order ih =>
    rw [afterAll_cons, (handle_leaves masterEditionPda t p).after_eq]
    apply ih
    cases p with
    | mintAccount => exact columnsAt_mintUpdate t.mintAccount h
    | metadata => exact columnsAt_metadataEffect masterEditionPda t.metadata t.metadataSlot h
    | tokenAccount => exact columnsAt_tokenAccountUpdate t.tokenAccount h

theorem columnsAfter_cons {p : Part} {order : List Part} {db : Database} {c : Columns}
    (h : columnsAt t.mint.bytes (effect masterEditionPda t p db) = some c) :
    columnsAfter masterEditionPda t (p :: order) db = some c := by
  rw [columnsAfter, afterAll_cons, (handle_leaves masterEditionPda t p).after_eq]
  exact columns_fixed masterEditionPda t order h

/-! ### Who comes first -/

/-- The columns of a row that a mint inserts. -/
def mintedColumns (mint : Bytes) (supply : ℤ) : Columns where
  owner := none
  delegate := none
  frozen := false
  ownerType := .token
  specificationAssetClass := some .fungibleToken
  supply
  supplyMint := some mint

theorem columnsAt_of_new {mint : Bytes} {db : Database} (hnew : db.asset.lookup mint = none) (u : Upsert AssetRow) :
    columnsAt mint (Database.upsertAsset mint u db) = some (columnsOf u.new) := by
  simp only [columnsAt, Database.upsertAsset, lookup_upsert_self, hnew, Upsert.row_none, Option.map_some]

/-- The mint comes first. -/
theorem mint_first {db : Database} (hnew : db.asset.lookup t.mint.bytes = none) :
    columnsAt t.mint.bytes (effect masterEditionPda t .mintAccount db)
      = some (mintedColumns t.mint.bytes t.mintAccount.account.supply) := by
  have hinsert : ∀ info m extensions sets, info.pubkey = t.mint →
      columnsAt t.mint.bytes (mintEffect info m extensions sets db)
        = some (mintedColumns t.mint.bytes m.supply) := by
    intro info m extensions sets hkey
    have hnew' : (upsertToken info.pubkey.bytes (mintUpsert (m.row info extensions) sets) db).asset.lookup
        t.mint.bytes = none := hnew
    have hrow := columnsAt_of_new hnew' (mintAccountColumns (m.columns info extensions))
    rw [← hkey] at hrow ⊢
    exact hrow
  have hkey := t.mintAccount_eq
  simp only [effect]
  cases hM : t.mintAccount with
  | token info m =>
    rw [hM] at hkey
    exact hinsert info m none false hkey
  | tokenExtensions info m extensions =>
    rw [hM] at hkey
    exact columnsAt_shadowEffect extensions.metadata _ _ (hinsert info m extensions.value true hkey)

/-- The metadata account comes first, and the mint is known. -/
theorem metadata_first_of_known {db : Database} {token : TokenRow}
    (hnew : db.asset.lookup t.mint.bytes = none) (htoken : db.tokens.lookup t.mint.bytes = some token) :
    columnsAt t.mint.bytes (effect masterEditionPda t .metadata db)
      = some (mintedColumns t.mint.bytes token.supply) := by
  refine columnsAt_metadataEffect_of_indexed masterEditionPda t.metadata t.metadataSlot ?_
  rw [t.metadata_eq, indexMintEffect, htoken]
  exact columnsAt_of_new hnew _

/-- The metadata account comes first, and the mint is not known: nothing writes the supply mint. -/
theorem metadata_first_of_unknown {db : Database} (hnew : db.asset.lookup t.mint.bytes = none)
    (htoken : db.tokens.lookup t.mint.bytes = none) :
    ∃ c, columnsAt t.mint.bytes (effect masterEditionPda t .metadata db) = some c ∧ c.supplyMint = none := by
  have hindex : indexMintEffect t.mint.bytes db = db := by
    unfold indexMintEffect
    rw [htoken]
  simp only [effect]
  rw [metadataEffect, columnsAt_metadataEffect_tail, t.metadata_eq, hindex]
  unfold indexOwnerEffect indexTokenAccountEffect
  rw [t.metadata_eq]
  -- the owner may have been copied from a stored token account, and that insert has no supply mint either
  split
  · split
    · exact ⟨_, columnsAt_upsert (fun _ => rfl) _ (columnsAt_of_new hnew _), rfl⟩
    · exact ⟨_, columnsAt_of_new hnew _, rfl⟩
  · exact ⟨_, columnsAt_of_new hnew _, rfl⟩

/-- The token account comes first, and the mint is known as non-fungible: the row gets an owner. -/
theorem tokenAccount_first_of_nonFungible {db : Database} {token : TokenRow}
    (hnew : db.asset.lookup t.mint.bytes = none) (htoken : db.tokens.lookup t.mint.bytes = some token)
    (hnft : isNonFungible token = true) :
    ∃ c, columnsAt t.mint.bytes (effect masterEditionPda t .tokenAccount db) = some c ∧ c.owner ≠ none := by
  have hasset := t.tokenAccount.effect_asset db
  rw [t.tokenAccount_eq, htoken, Option.map_some, Option.getD_some, if_pos hnft] at hasset
  let columns := tokenAccountColumns (t.tokenAccount.account.columns t.tokenAccount.info)
  refine ⟨columnsOf columns.new, ?_, Option.some_ne_none t.tokenAccount.account.owner.bytes⟩
  simp only [columnsAt, effect, hasset, lookup_upsert_self, hnew, Upsert.row_none, Option.map_some]
  rfl

/-- It comes first, and the mint is not known as non-fungible: neither row is touched. -/
theorem tokenAccount_first_of_fungible (db : Database)
    (hfungible : ((db.tokens.lookup t.mint.bytes).map isNonFungible).getD false = false) :
    (effect masterEditionPda t .tokenAccount db).asset = db.asset ∧
      (effect masterEditionPda t .tokenAccount db).tokens = db.tokens := by
  constructor
  · have hasset := t.tokenAccount.effect_asset db
    rw [t.tokenAccount_eq, hfungible] at hasset
    exact hasset
  · show (t.tokenAccount.effect db).tokens = db.tokens
    cases t.tokenAccount <;> simp only [TokenAccountUpdate.effect, tokenAccountEffect] <;> split <;> rfl

/-- The mint is known as fungible, with the supply that its update brings. -/
def KnownFungible (db : Database) : Prop :=
  ∃ token, db.tokens.lookup t.mint.bytes = some token ∧ isNonFungible token = false ∧
    token.supply = t.mintAccount.account.supply

/-- Then the row is inserted with the mint's columns, in every order. -/
theorem columnsAfter_of_knownFungible {db : Database} (hnew : db.asset.lookup t.mint.bytes = none)
    (hknown : KnownFungible t db) {order : List Part} (horder : ∃ p ∈ order, p ≠ .tokenAccount) :
    columnsAfter masterEditionPda t order db
      = some (mintedColumns t.mint.bytes t.mintAccount.account.supply) := by
  induction order generalizing db with
  | nil =>
    obtain ⟨p, hp, _⟩ := horder
    exact absurd hp List.not_mem_nil
  | cons p order ih =>
    obtain ⟨token, htoken, hfungible, hsupply⟩ := hknown
    cases p with
    | mintAccount => exact columnsAfter_cons masterEditionPda t (mint_first masterEditionPda t hnew)
    | metadata =>
      rw [← hsupply]
      exact columnsAfter_cons masterEditionPda t (metadata_first_of_known masterEditionPda t hnew htoken)
    | tokenAccount =>
      obtain ⟨hasset, htokens⟩ := tokenAccount_first_of_fungible masterEditionPda t db (by
        rw [htoken]
        exact hfungible)
      rw [columnsAfter, afterAll_cons, (handle_leaves masterEditionPda t .tokenAccount).after_eq]
      refine ih (by rw [hasset, hnew]) ⟨token, by rw [htokens, htoken], hfungible, hsupply⟩ ?_
      obtain ⟨p, hp, hne⟩ := horder
      exact ⟨p, (List.mem_cons.mp hp).resolve_left hne, hne⟩

/-- **When the orders agree**: when the asset row is there already, or the mint is known as fungible and with
the supply that its update brings. -/
theorem commute_iff (db : Database) :
    Commute masterEditionPda t db ↔ (∃ r, db.asset.lookup t.mint.bytes = some r) ∨ KnownFungible t db := by
  have hswap : [Part.metadata, .mintAccount, .tokenAccount].Perm [.mintAccount, .metadata, .tokenAccount] :=
    List.Perm.swap _ _ _
  have hrotate : [Part.tokenAccount, .mintAccount, .metadata].Perm [.mintAccount, .metadata, .tokenAccount] := by
    decide
  constructor
  · intro hcommute
    cases hnew : db.asset.lookup t.mint.bytes with
    | some r => exact Or.inl ⟨r, rfl⟩
    | none =>
      have hmint : columnsAfter masterEditionPda t [.mintAccount, .metadata, .tokenAccount] db = some _ :=
        columnsAfter_cons masterEditionPda t (mint_first masterEditionPda t hnew)
      have hmetadata := (hcommute _ _ (List.Perm.refl _) hswap).symm.trans hmint
      refine Or.inr ?_
      cases htoken : db.tokens.lookup t.mint.bytes with
      | none =>
        obtain ⟨c, hc, hsupplyMint⟩ := metadata_first_of_unknown masterEditionPda t hnew htoken
        rw [columnsAfter_cons masterEditionPda t hc] at hmetadata
        rw [Option.some.inj hmetadata] at hsupplyMint
        cases hsupplyMint
      | some token =>
        refine ⟨token, htoken, ?_, ?_⟩
        · by_contra hnft
          obtain ⟨c, hc, howner⟩ := tokenAccount_first_of_nonFungible masterEditionPda t hnew htoken
            (Bool.eq_true_of_not_eq_false hnft)
          have haccount := (hcommute _ _ (List.Perm.refl _) hrotate).symm.trans hmint
          rw [columnsAfter_cons masterEditionPda t hc] at haccount
          rw [Option.some.inj haccount] at howner
          exact howner rfl
        · rw [columnsAfter_cons masterEditionPda t (metadata_first_of_known masterEditionPda t hnew htoken)]
            at hmetadata
          exact congrArg Columns.supply (Option.some.inj hmetadata)
  · intro h order order' horder horder'
    cases hnew : db.asset.lookup t.mint.bytes with
    | some r =>
      have hrow : columnsAt t.mint.bytes db = some (columnsOf r) := by rw [columnsAt, hnew, Option.map_some]
      rw [columns_fixed masterEditionPda t order hrow, columns_fixed masterEditionPda t order' hrow]
    | none =>
      have hknown : KnownFungible t db := by
        refine h.resolve_left ?_
        rintro ⟨r, hr⟩
        rw [hnew] at hr
        cases hr
      have hsome : ∀ {o : List Part}, o.Perm [.mintAccount, .metadata, .tokenAccount] →
          ∃ p ∈ o, p ≠ .tokenAccount := fun ho => ⟨.metadata, ho.symm.subset (by simp), by decide⟩
      rw [columnsAfter_of_knownFungible masterEditionPda t hnew hknown (hsome horder),
        columnsAfter_of_knownFungible masterEditionPda t hnew hknown (hsome horder')]

/-- **For a mint that is new to the tables the orders never agree.** -/
theorem not_commute_of_unknown {db : Database} (hasset : db.asset.lookup t.mint.bytes = none)
    (htokens : db.tokens.lookup t.mint.bytes = none) : ¬ Commute masterEditionPda t db := by
  intro hcommute
  have hmint : columnsAfter masterEditionPda t [.mintAccount, .metadata, .tokenAccount] db = some _ :=
    columnsAfter_cons masterEditionPda t (mint_first masterEditionPda t hasset)
  obtain ⟨c, hc, hsupplyMint⟩ := metadata_first_of_unknown masterEditionPda t hasset htokens
  have hsame := hcommute [.metadata, .mintAccount, .tokenAccount] _ (List.Perm.swap _ _ _) (List.Perm.refl _)
  rw [hmint, columnsAfter_cons masterEditionPda t hc] at hsame
  rw [Option.some.inj hsame] at hsupplyMint
  cases hsupplyMint

/-- A non-fungible token: mint, metadata and the account that holds it. -/
def sampleTrio : Trio where
  mint := .fill 7
  mintAccount := .token { slot := 1, pubkey := .fill 7, owner := .fill 9 }
    { mintAuthority := none, supply := 1, decimals := 0, freezeAuthority := none }
  metadata :=
    { updateAuthority := .fill 3, mint := .fill 7, name := "", symbol := "", uri := Sql.Varchar.empty,
      sellerFeeBasisPoints := 0, creators := none, primarySaleHappened := false, isMutable := true,
      editionNonce := none, tokenStandard := some .nonFungible, collection := none, uses := none }
  metadataSlot := 1
  tokenAccount := .token { slot := 1, pubkey := .fill 20, owner := .fill 9 }
    { mint := .fill 7, owner := .fill 40, amount := 1, delegate := none, state := .initialized,
      delegatedAmount := 0 }
  mintAccount_eq := rfl
  metadata_eq := rfl
  tokenAccount_eq := rfl
  amount_pos := by decide

/-- With the mint first the row has a supply mint, and is taken for a fungible token; with the metadata first
it has none, and is an NFT.  It has its owner in neither case. -/
theorem first_writer_decides :
    (columnsAfter id sampleTrio [.mintAccount, .metadata, .tokenAccount] Database.empty).map
        (fun c => (c.owner, c.specificationAssetClass, c.supplyMint))
          = some (none, some .fungibleToken, some (Pubkey.fill 7).bytes)
      ∧ (columnsAfter id sampleTrio [.metadata, .tokenAccount, .mintAccount] Database.empty).map
        (fun c => (c.owner, c.specificationAssetClass, c.supplyMint)) = some (none, some .nft, none)
      ∧ ¬ Commute id sampleTrio Database.empty := by
  have hfirst : (columnsAfter id sampleTrio [.mintAccount, .metadata, .tokenAccount] Database.empty).map
      (fun c => (c.owner, c.specificationAssetClass, c.supplyMint))
        = some (none, some .fungibleToken, some (Pubkey.fill 7).bytes) := by
    rw [columnsAfter, Leaves.afterAll_eq (handle_leaves id sampleTrio)]
    decide +kernel
  have hlast : (columnsAfter id sampleTrio [.metadata, .tokenAccount, .mintAccount] Database.empty).map
      (fun c => (c.owner, c.specificationAssetClass, c.supplyMint)) = some (none, some .nft, none) := by
    rw [columnsAfter, Leaves.afterAll_eq (handle_leaves id sampleTrio)]
    decide +kernel
  refine ⟨hfirst, hlast, ?_⟩
  intro hcommute
  have heq := hcommute [.mintAccount, .metadata, .tokenAccount] [.metadata, .tokenAccount, .mintAccount]
    (List.Perm.refl _) (by decide)
  rw [heq, hlast] at hfirst
  exact absurd (Option.some.inj hfirst) (by decide)

end DasIndexer.Accounts.MintOrder
