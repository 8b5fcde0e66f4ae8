import DasIndexer.Dao.Pages
import DasIndexer.Lib.Fallible

/-!
# Which page a request asks for

`validatePagination` turns the five paging parameters of a request into `PageOptions`, and `createPagination`
turns these into the `Pagination` of the query.  The cursor is decoded and kept in one branch only, and only
where the endpoint has passed a sorting; without one the options of an accepted request with a cursor are
those of a request with nothing, and the query starts at the beginning.

The endpoints that list assets pass their sorting.  `getTokenAccounts`, `getNftEditions` and
`getAssetSignatures` have none to pass: **`cursor_honoured_iff`** says that the cursor is honoured exactly where
there is a sorting, and that each of these three answers a request with a cursor as it does one without.
-/

namespace DasIndexer.Dapi

open Sql Dao Fallible

/-! ### Options -/

inductive AssetSortBy where
  | id | created | updated | recentAction | none
deriving DecidableEq

inductive AssetSortDirection where
  | asc | desc
deriving DecidableEq

structure AssetSorting where
  sortBy : AssetSortBy
  sortDirection : Option AssetSortDirection
deriving DecidableEq

structure PageOptions where
  limit : ℕ := 0
  page : Option ℕ := none
  before : Option Bytes := none
  after : Option Bytes := none
  cursor : Option Cursor := none
deriving DecidableEq

/-- `DasApiError`, as far as these endpoints raise it; an error of the database has its own error inside. -/
inductive ApiError where
  | paginationExceededError
  | paginationEmptyError
  | paginationError
  | paginationSortingValidationError
  | pubkeyValidationError (key : String)
  | cursorValidationError (e : DasApiError)
  | validationError (msg : String)
  | databaseError (e : Dao.DbErr)
  /-- the statement compares columns of different types -/
  | undefinedOperator
deriving DecidableEq

/-- `Pubkey::from_str`. -/
def parsePubkey (key : String) : Option Pubkey :=
  (Base58.decode key).bind fun bytes => if h : bytes.length = 32 then some ⟨bytes, h⟩ else none

/-- `validate_pubkey`. -/
def validatePubkey (key : String) : Except ApiError Pubkey :=
  match parsePubkey key with
  | some pubkey => .ok pubkey
  | none => .error (.pubkeyValidationError key)

/-- `validate_opt_pubkey`. -/
def validateOptPubkey : Option String → Except ApiError (Option Bytes)
  | some key =>
    match parsePubkey key with
    | some pubkey => .ok (some pubkey.bytes)
    | none => .error (.validationError s!"Invalid pubkey {key}")
  | none => .ok none

/-! ### Validation -/

def checkLimit : Option ℕ → Except ApiError Unit
  | some limit => if 1000 < limit then .error .paginationExceededError else .ok ()
  | none => .ok ()

def checkPage (before after cursor : Option String) : Option ℕ → Except ApiError Unit
  | some page =>
    if page = 0 then .error .paginationEmptyError
    else if before.isSome ∨ after.isSome ∨ cursor.isSome then .error .paginationError
    else .ok ()
  | none => .ok ()

/-- A sorting, where there is one, is by id. -/
def checkSorting (sorting : Option AssetSorting) : Except ApiError Unit :=
  match sorting with
  | some sort => if sort.sortBy ≠ .id then .error .paginationSortingValidationError else .ok ()
  | none => .ok ()

/-- The checks on `before`, and the same on `after`. -/
def checkKey (cursor : Option String) (sorting : Option AssetSorting) : Option String → Except ApiError Unit
  | some key => do
    if cursor.isSome then throw .paginationError
    checkSorting sorting
    let _ ← validatePubkey key
    return ()
  | none => .ok ()

/-- `bs58::decode(x).into_vec().unwrap_or_default()`. -/
def decodeOrEmpty (key : String) : Bytes := (Base58.decode key).getD []

/-- `validate_pagination`. -/
def validatePagination (limit page : Option ℕ) (before after cursor : Option String)
    (sorting : Option AssetSorting) : Except ApiError PageOptions := do
  checkLimit limit
  checkPage before after cursor page
  checkKey cursor sorting before
  checkKey cursor sorting after
  if page.isNone ∧ before.isNone ∧ after.isNone then
    match sorting with
    | some _ => do
      checkSorting sorting
      let cursor ← (getCursor cursor).mapError .cursorValidationError
      return { limit := limit.getD 1000, cursor := some cursor }
    | none => return { limit := limit.getD 1000 }
  else
    return { limit := limit.getD 1000, page, before := before.map decodeOrEmpty,
             after := after.map decodeOrEmpty }

/-- `create_pagination`. -/
def createPagination (pageOptions : PageOptions) : Except Dao.DbErr Pagination :=
  match pageOptions.cursor with
  | some cursor => .ok (.cursor cursor)
  | none =>
    match pageOptions.before, pageOptions.after, pageOptions.page with
    | before, after, none => .ok (.keyset before after)
    | none, none, some page => .ok (.page page)
    | _, _, _ => .error (.custom "Invalid Pagination")

/-! ### An accepted cursor -/

theorem checkPage_cursor {before after : Option String} {c : String} {page : Option ℕ}
    (h : checkPage before after (some c) page = .ok ()) : page = none := by
  cases page with
  | none => rfl
  | some page =>
    simp only [checkPage] at h
    split at h
    · cases h
    · have hcursor : before.isSome = true ∨ after.isSome = true ∨ (some c).isSome = true := Or.inr (Or.inr rfl)
      rw [if_pos hcursor] at h
      cases h

theorem checkKey_cursor {c : String} {sorting : Option AssetSorting} {key : Option String}
    (h : checkKey (some c) sorting key = .ok ()) : key = none := by
  cases key with
  | none => rfl
  | some key => cases h

theorem checkSorting_some {sort : AssetSorting} (h : checkSorting (some sort) = .ok ()) : sort.sortBy = .id := by
  by_contra hne
  simp only [checkSorting, if_pos hne] at h
  cases h

/-- The options of an accepted request with a cursor. -/
theorem validatePagination_cursor {limit page : Option ℕ} {before after : Option String} {c : String}
    {sorting : Option AssetSorting} {opts : PageOptions}
    (h : validatePagination limit page before after (some c) sorting = .ok opts) :
    (sorting = none ∧ opts = { limit := limit.getD 1000 }) ∨
    ∃ sort id, sorting = some sort ∧ sort.sortBy = .id ∧ Base58.decode c = some id ∧
      opts = { limit := limit.getD 1000, cursor := some { id := some id } } := by
  obtain ⟨_, _, h⟩ := bind_eq_ok h
  obtain ⟨_, hpage, h⟩ := bind_eq_ok h
  obtain ⟨_, hbefore, h⟩ := bind_eq_ok h
  obtain ⟨_, hafter, h⟩ := bind_eq_ok h
  obtain rfl := checkPage_cursor hpage
  obtain rfl := checkKey_cursor hbefore
  obtain rfl := checkKey_cursor hafter
  rw [if_pos ⟨rfl, rfl, rfl⟩] at h
  cases sorting with
  | none =>
    cases h
    exact Or.inl ⟨rfl, rfl⟩
  | some sort =>
    obtain ⟨_, hsort, h⟩ := bind_eq_ok h
    obtain ⟨cursor, hcursor, h⟩ := bind_eq_ok h
    cases h
    rw [getCursor] at hcursor
    cases hdecode : Base58.decode c with
    | none =>
      rw [hdecode] at hcursor
      cases hcursor
    | some id =>
      rw [hdecode] at hcursor
      cases hcursor
      exact Or.inr ⟨sort, id, rfl, checkSorting_some hsort, rfl, rfl⟩

/-! ### The endpoints without a sorting -/

/-- What an answer says of its page: `page`, `before`, `after` and `cursor`. -/
structure PageInfo where
  page : Option ℕ := none
  before : Option String := none
  after : Option String := none
  cursor : Option String := none
deriving DecidableEq

/-- `String::from_utf8(x).ok()`. -/
def fromUtf8 (bytes : Bytes) : Option String := String.fromUTF8? ⟨bytes.toArray⟩

/-- The page of an answer whose last item has this key. -/
def pageInfo (pagination : Pagination) (last : Option Bytes) : PageInfo :=
  match pagination with
  | .keyset before after => { before := before.bind fromUtf8, after := after.bind fromUtf8 }
  | .page page => { page := some page }
  | .cursor _ => { cursor := last.map Base58.encode }

/-- An answer: `total`, `limit`, the page and the items. -/
structure Answer (α : Type) where
  total : ℕ
  limit : ℕ
  info : PageInfo
  items : List α

/-- The pagination of a request, for an endpoint without a sorting. -/
def unsortedPagination (limit page : Option ℕ) (before after cursor : Option String) :
    Except ApiError (ℕ × Pagination) := do
  let opts ← validatePagination limit page before after cursor none
  let pagination ← (createPagination opts).mapError .databaseError
  return (opts.limit, pagination)

structure GetTokenAccounts where
  ownerAddress : Option String := none
  mintAddress : Option String := none
  limit : Option ℕ := none
  page : Option ℕ := none
  before : Option String := none
  after : Option String := none
  options : Option Options := none
  cursor : Option String := none

/-- The condition of `get_token_accounts`. -/
def tokenAccountSelected (owner mint : Option Bytes) (options : Options) (e : Bytes × TokenAccountRow) : Bool :=
  (if options.showZeroBalance then decide (0 ≤ e.2.amount) else decide (0 < e.2.amount))
    && owner.all (fun o => decide (e.2.owner = o)) && mint.all fun m => decide (e.2.mint = m)

/-- `get_token_accounts`, from the request to the rows of the answer. -/
def getTokenAccounts (db : Database) (payload : GetTokenAccounts) :
    Except ApiError (Answer (Bytes × TokenAccountRow)) := do
  let owner ← validateOptPubkey payload.ownerAddress
  let mint ← validateOptPubkey payload.mintAddress
  let options := payload.options.getD {}
  let (limit, pagination) ←
    unsortedPagination payload.limit payload.page payload.before payload.after payload.cursor
  if owner.isNone ∧ mint.isNone then
    throw (.databaseError (.custom "Either 'ownerAddress' or 'mintAddress' must be provided"))
  let rows := paginate pagination limit .asc Prod.fst
    ((scan db.tokenAccounts).filter (tokenAccountSelected owner mint options))
  return ⟨rows.length, limit, pageInfo pagination (rows.getLast?.map Prod.fst), rows⟩

structure GetNftEditions where
  mintAddress : String
  page : Option ℕ := none
  limit : Option ℕ := none
  before : Option String := none
  after : Option String := none
  cursor : Option String := none

/-- What is read of the edition accounts: their address, and their JSON documents. -/
structure EditionCrate where
  findPda : Pubkey → Pubkey
  /-- `data->>'parent'` -/
  parent : Json → Option String
  /-- the number of an edition -/
  edition : Json → Except String ℕ
  /-- `supply` and `max_supply` of a master edition -/
  masterEdition : Json → Except String (ℕ × Option ℕ)

/-- `attachment_to_nft_edition`: the mint, the number and the address. -/
def attachmentToNftEdition (C : EditionCrate) (attachment : Bytes × AttachmentRow) :
    Except Dao.DbErr (String × ℕ × String) :=
  match attachment.2.data with
  | none => .error (.recordNotFound "Edition data not found")
  | some data =>
    match C.edition data with
    | .error msg => .error (.custom msg)
    | .ok number =>
      .ok ((attachment.2.assetId.map Base58.encode).getD "", number, Base58.encode attachment.1)

/-- `get_nft_editions`; the answer comes with the master edition, its supply and its greatest supply. -/
def getNftEditions (C : EditionCrate) (db : Database) (payload : GetNftEditions) :
    Except ApiError ((String × ℕ × Option ℕ) × Answer (String × ℕ × String)) := do
  let opts ← validatePagination payload.limit payload.page payload.before payload.after payload.cursor none
  let mint ← validatePubkey payload.mintAddress
  let pagination ← (createPagination opts).mapError .databaseError
  let key := C.findPda mint
  match db.attachments.lookup key.bytes with
  | none => throw (.databaseError (.recordNotFound "Master Edition not found"))
  | some master =>
    match master.data with
    | none => throw (.databaseError (.recordNotFound "Master Edition data not found"))
    | some data => do
      let supply ← ((C.masterEdition data).mapError Dao.DbErr.custom).mapError .databaseError
      let rows := paginate pagination opts.limit .asc Prod.fst ((scan db.attachments).filter fun e =>
        decide (e.2.attachmentType = .edition) && e.2.data.isSome
          && decide (e.2.data.bind C.parent = some key.toString))
      let editions ← (rows.mapM (attachmentToNftEdition C)).mapError .databaseError
      return ((key.toString, supply),
        ⟨editions.length, opts.limit, pageInfo pagination (rows.getLast?.map Prod.fst), editions⟩)

structure GetAssetSignatures where
  id : Option String := none
  limit : Option ℕ := none
  page : Option ℕ := none
  before : Option String := none
  after : Option String := none
  tree : Option String := none
  leafIndex : Option ℤ := none
  cursor : Option String := none
  sortDirection : Option AssetSortDirection := none

/-- `paginate` on a column of numbers: a key to compare it with is an error of the database. -/
def paginateSeq {α : Type} (pagination : Pagination) (limit : ℕ) (rows : List α) : Except ApiError (List α) :=
  match pagination with
  | .keyset none none | .cursor { id := none } => .ok (rows.take limit)
  | .page page => .ok ((if 0 < page then rows.drop ((page - 1) * limit) else rows).take limit)
  | _ => .error .undefinedOperator

/-- The order of sequence numbers in a direction. -/
def seqInOrder (sortDirection : AssetSortDirection) (a b : ℤ) : Bool :=
  match sortDirection with
  | .asc => decide (a ≤ b)
  | .desc => decide (b ≤ a)

/-- `fetch_transactions`; the instruction as it is stored. -/
def fetchTransactions (db : Database) (tree : Bytes) (leafIdx : ℤ) (pagination : Pagination) (limit : ℕ)
    (sortDirection : Option AssetSortDirection) : Except ApiError (List (String × Instruction)) := do
  let audits := ((scan db.clAuditsV2).filter fun e => decide (e.1.1 = tree ∧ e.1.2.1 = leafIdx)).insertionSort
    fun a b => seqInOrder (sortDirection.getD .desc) a.1.2.2 b.1.2.2 = true
  let rows ← paginateSeq pagination limit audits
  return rows.map fun e => (Base58.encode e.2.tx, e.2.instruction)

/-- `scopes::asset::get_asset_signatures`. -/
def signaturesOf (db : Database) (assetId tree : Option Bytes) (leafIdx : Option ℤ) (pagination : Pagination)
    (limit : ℕ) (sortDirection : Option AssetSortDirection) : Except ApiError (List (String × Instruction)) :=
  match tree, leafIdx, assetId with
  | some tree, some leafIdx, _ => fetchTransactions db tree leafIdx pagination limit sortDirection
  | _, _, none =>
    .error (.databaseError (.custom "Either 'id' or both 'tree' and 'leafIndex' must be provided"))
  | _, _, some id =>
    match db.asset.lookup id with
    | none => .ok []
    | some asset =>
      match asset.treeId, asset.nonce with
      | none, _ => .error (.databaseError (.recordNotFound "Tree not found"))
      | some [], _ => .error (.databaseError (.custom "Empty tree for asset"))
      | some _, none => .error (.databaseError (.recordNotFound "Leaf ID does not exist"))
      | some tree, some leafIdx => fetchTransactions db tree leafIdx pagination limit sortDirection

/-- The asset is given by its id, or by its tree and leaf. -/
def checkTarget (payload : GetAssetSignatures) : Except ApiError Unit :=
  if (payload.id.isSome ∧ payload.tree.isNone ∧ payload.leafIndex.isNone)
      ∨ (payload.id.isNone ∧ payload.tree.isSome ∧ payload.leafIndex.isSome) then .ok ()
  else .error (.validationError "Must provide either 'id' or both 'tree' and 'leafIndex'")

/-- `get_asset_signatures`; the answer has no cursor. -/
def getAssetSignatures (db : Database) (payload : GetAssetSignatures) :
    Except ApiError (Answer (String × Instruction)) := do
  checkTarget payload
  let id ← validateOptPubkey payload.id
  let tree ← validateOptPubkey payload.tree
  let (limit, pagination) ←
    unsortedPagination payload.limit payload.page payload.before payload.after payload.cursor
  let items ← signaturesOf db id tree payload.leafIndex pagination limit payload.sortDirection
  return ⟨items.length, limit, pageInfo pagination none, items⟩

/-! ### Starting over -/

/-- Without a sorting, an accepted request with a cursor has the options of one without. -/
theorem validatePagination_unsorted {limit page : Option ℕ} {before after : Option String} {c : String}
    {opts : PageOptions} (h : validatePagination limit page before after (some c) none = .ok opts) :
    validatePagination limit page before after none none = .ok opts ∧ opts = { limit := limit.getD 1000 } := by
  have hopts : opts = { limit := limit.getD 1000 } := by
    rcases validatePagination_cursor h with ⟨_, rfl⟩ | ⟨_, _, hsome, _⟩
    · rfl
    · cases hsome
  obtain ⟨_, hlimit, h⟩ := bind_eq_ok h
  obtain ⟨_, hpage, h⟩ := bind_eq_ok h
  obtain ⟨_, hbefore, h⟩ := bind_eq_ok h
  obtain ⟨_, hafter, _⟩ := bind_eq_ok h
  obtain rfl := checkPage_cursor hpage
  obtain rfl := checkKey_cursor hbefore
  obtain rfl := checkKey_cursor hafter
  refine ⟨?_, hopts⟩
  rw [validatePagination, hlimit, hopts]
  rfl

theorem unsortedPagination_cursor {limit page : Option ℕ} {before after : Option String} {c : String}
    {out : ℕ × Pagination} (h : unsortedPagination limit page before after (some c) = .ok out) :
    unsortedPagination limit page before after none = .ok out ∧
      out = (limit.getD 1000, .keyset none none) := by
  obtain ⟨opts, hopts, h⟩ := bind_eq_ok h
  obtain ⟨hnone, rfl⟩ := validatePagination_unsorted hopts
  cases h
  refine ⟨?_, rfl⟩
  rw [unsortedPagination, hnone]
  rfl

/-- `getTokenAccounts` does not read an accepted cursor. -/
theorem getTokenAccounts_cursor {db : Database} {payload : GetTokenAccounts} {c : String}
    {answer : Answer (Bytes × TokenAccountRow)}
    (h : getTokenAccounts db { payload with cursor := some c } = .ok answer) :
    getTokenAccounts db { payload with cursor := none } = .ok answer := by
  obtain ⟨owner, howner, h⟩ := bind_eq_ok h
  obtain ⟨mint, hmint, h⟩ := bind_eq_ok h
  obtain ⟨out, hout, h⟩ := bind_eq_ok h
  rw [getTokenAccounts, howner, hmint, (unsortedPagination_cursor hout).1]
  exact h

/-- `getNftEditions` does not read an accepted cursor. -/
theorem getNftEditions_cursor {C : EditionCrate} {db : Database} {payload : GetNftEditions} {c : String}
    {answer : (String × ℕ × Option ℕ) × Answer (String × ℕ × String)}
    (h : getNftEditions C db { payload with cursor := some c } = .ok answer) :
    getNftEditions C db { payload with cursor := none } = .ok answer := by
  obtain ⟨opts, hopts, h⟩ := bind_eq_ok h
  rw [getNftEditions, (validatePagination_unsorted hopts).1]
  exact h

/-- `getAssetSignatures` does not read an accepted cursor. -/
theorem getAssetSignatures_cursor {db : Database} {payload : GetAssetSignatures} {c : String}
    {answer : Answer (String × Instruction)}
    (h : getAssetSignatures db { payload with cursor := some c } = .ok answer) :
    getAssetSignatures db { payload with cursor := none } = .ok answer := by
  obtain ⟨_, htarget, h⟩ := bind_eq_ok h
  obtain ⟨id, hid, h⟩ := bind_eq_ok h
  obtain ⟨tree, htree, h⟩ := bind_eq_ok h
  obtain ⟨out, hout, h⟩ := bind_eq_ok h
  have htarget' : checkTarget { payload with cursor := none } = .ok () := htarget
  rw [getAssetSignatures, htarget', hid, htree, (unsortedPagination_cursor hout).1]
  exact h

/-- **Where a supplied cursor is honoured.**  The pagination of an accepted request with a cursor is that of the
decoded cursor, if and only if the endpoint has passed a sorting.  The three endpoints that pass none answer
a request with a cursor as they answer it without. -/
theorem cursor_honoured_iff (limit page : Option ℕ) (before after : Option String) (c : String)
    (sorting : Option AssetSorting) :
    (∀ opts, validatePagination limit page before after (some c) sorting = .ok opts →
      ((∃ id, Base58.decode c = some id ∧ createPagination opts = .ok (.cursor { id := some id })) ↔
        sorting ≠ none)) ∧
    (∀ (db : Database) (payload : GetTokenAccounts) answer,
      getTokenAccounts db { payload with cursor := some c } = .ok answer →
      getTokenAccounts db { payload with cursor := none } = .ok answer) ∧
    (∀ (C : EditionCrate) (db : Database) (payload : GetNftEditions) answer,
      getNftEditions C db { payload with cursor := some c } = .ok answer →
      getNftEditions C db { payload with cursor := none } = .ok answer) ∧
    ∀ (db : Database) (payload : GetAssetSignatures) answer,
      getAssetSignatures db { payload with cursor := some c } = .ok answer →
      getAssetSignatures db { payload with cursor := none } = .ok answer := by
  refine ⟨?_, fun _ _ _ => getTokenAccounts_cursor, fun _ _ _ _ => getNftEditions_cursor,
    fun _ _ _ => getAssetSignatures_cursor⟩
  intro opts h
  rcases validatePagination_cursor h with ⟨rfl, rfl⟩ | ⟨sort, id, rfl, _, hdecode, rfl⟩
  · refine iff_of_false ?_ fun hne => hne rfl
    rintro ⟨id, _, hcreate⟩
    cases hcreate
  · exact iff_of_true ⟨id, hdecode, rfl⟩ (Option.some_ne_none sort)

/-- A request sorted by id. -/
theorem sorted_cursor_honoured :
    ∃ id, Base58.decode "2" = some id ∧
      createPagination { limit := 1000, cursor := some { id := some [1] } } = .ok (.cursor { id := some id }) :=
  ((cursor_honoured_iff none none none none "2" (some ⟨.id, none⟩)).1
    { limit := 1000, cursor := some { id := some [1] } } (by decide +kernel)).mpr (by decide)

/-- An owner with one token account. -/
def oneAccount : Database where
  tokenAccounts := AList.singleton (Pubkey.fill 1).bytes
    { mint := (Pubkey.fill 2).bytes, amount := 1, owner := (Pubkey.fill 3).bytes, frozen := false
      closeAuthority := none, delegate := none, delegatedAmount := 0, slotUpdated := 1
      tokenProgram := (Pubkey.fill 4).bytes }

/-- The request for the token accounts of the owner. -/
def accountsOfOwner (cursor : Option String) : GetTokenAccounts :=
  { ownerAddress := some (Pubkey.fill 3).toString, limit := some 1, cursor }

/-- The keys of an answer. -/
def keysOf (answer : Except ApiError (Answer (Bytes × TokenAccountRow))) : Option (List Bytes) :=
  match answer with
  | .ok answer => some (answer.items.map Prod.fst)
  | .error _ => none

/-- The account is the first page, and with it as the cursor it is the page after it as well. -/
theorem first_page_again :
    validatePagination (some 1) none none none (some (Pubkey.fill 1).toString) none = .ok { limit := 1 } ∧
    createPagination { limit := 1 } = .ok (.keyset none none) ∧
    keysOf (getTokenAccounts oneAccount (accountsOfOwner none)) = some [(Pubkey.fill 1).bytes] ∧
    keysOf (getTokenAccounts oneAccount (accountsOfOwner (some (Pubkey.fill 1).toString)))
      = some [(Pubkey.fill 1).bytes] := by
  refine ⟨rfl, rfl, by decide +kernel, by decide +kernel⟩

end DasIndexer.Dapi
