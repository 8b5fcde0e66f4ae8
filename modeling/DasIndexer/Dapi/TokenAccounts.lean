import DasIndexer.Accounts.Tokens
import DasIndexer.Backfill.PlugGap
import DasIndexer.Dapi.Pagination

/-!
# Token balances in storage and in answers

An amount is an unsigned 64-bit number on chain and in an answer, and a signed one in its column.  The two
casts undo each other on the whole range (`asU64_asI64`), but the query compares the signed number with zero in
between, and the upper half of the range is negative there.

**`balance_survives_iff`**: the account that is stored first is in the first page for its owner or its mint, with
the amounts that it has on chain, exactly when its amount is below `2 ^ 63`.  The delegated amount is not
compared with anything, and its whole range survives.
-/

namespace DasIndexer.Dapi

open Sql Dao Fallible Accounts
open Backfill (asU64 i64_eq_self i64_eq_sub)

/-! ### The answer -/

/-- `rpc::TokenAccount`. -/
structure RpcTokenAccount where
  address : String
  mint : String
  amount : ℕ
  owner : String
  frozen : Bool
  delegate : Option String
  delegatedAmount : ℕ
  closeAuthority : Option String
  extensions : Option Json := none

/-- `token_account_to_rpc`, which never fails. -/
def tokenAccountToRpc (tokenAccount : Bytes × TokenAccountRow) : RpcTokenAccount where
  address := Base58.encode tokenAccount.1
  mint := Base58.encode tokenAccount.2.mint
  amount := asU64 tokenAccount.2.amount
  owner := Base58.encode tokenAccount.2.owner
  frozen := tokenAccount.2.frozen
  delegate := tokenAccount.2.delegate.map Base58.encode
  delegatedAmount := asU64 tokenAccount.2.delegatedAmount
  closeAuthority := tokenAccount.2.closeAuthority.map Base58.encode

/-- `build_token_list_response`; its list of errors is empty. -/
def buildTokenListResponse (answer : Answer (Bytes × TokenAccountRow)) : Answer RpcTokenAccount :=
  { answer with items := answer.items.map tokenAccountToRpc }

/-- The answer of the endpoint. -/
def tokenAccountsResponse (db : Database) (payload : GetTokenAccounts) :
    Except ApiError (Answer RpcTokenAccount) :=
  (getTokenAccounts db payload).map buildTokenListResponse

/-! ### The casts -/

/-- Out of the column comes what went in. -/
theorem asU64_asI64 {n : ℕ} (h : n < 2 ^ 64) : asU64 (asI64 n) = n := by
  have hmod : asI64 n % 2 ^ 64 = (n : ℤ) % 2 ^ 64 := Int.bmod_emod
  rw [asU64, hmod]
  omega

/-- The lower half of the range stands in the column as it is. -/
theorem asI64_of_lt {n : ℕ} (h : n < 2 ^ 63) : asI64 n = n :=
  i64_eq_self (n := (n : ℤ)) (by omega) (by exact_mod_cast h)

/-- The upper half is negative there. -/
theorem asI64_neg {n : ℕ} (h : 2 ^ 63 ≤ n) (hn : n < 2 ^ 64) : asI64 n < 0 := by
  have hn' : (n : ℤ) < 2 ^ 64 := by exact_mod_cast hn
  have hsub : asI64 n = (n : ℤ) - 2 ^ 64 := i64_eq_sub (n := (n : ℤ)) (by exact_mod_cast h) hn'
  rw [hsub]
  exact sub_neg.mpr hn'

/-! ### What is stored -/

/-- The account as an answer should show it. -/
def onChain (u : TokenAccountUpdate) : RpcTokenAccount where
  address := u.info.pubkey.toString
  mint := u.account.mint.toString
  amount := u.account.amount
  owner := u.account.owner.toString
  frozen := u.account.state == .frozen
  delegate := u.account.delegate.map Pubkey.toString
  delegatedAmount := u.account.delegatedAmount
  closeAuthority := none

/-- An update of either program stores its account under its address, in an empty table as the only row. -/
theorem tokenAccounts_after (u : TokenAccountUpdate) {db : Database} (hempty : db.tokenAccounts = ∅) :
    ∃ extensions, scan (Session.after u.handle db).tokenAccounts
      = [(u.info.pubkey.bytes, u.account.row u.info extensions)] := by
  rw [(TokenAccountUpdate.handle_runs u).after_eq]
  cases u with
  | token info ta =>
    refine ⟨none, ?_⟩
    show scan (tokenAccountEffect info ta none false db).tokenAccounts = _
    rw [tokenAccountEffect_tokenAccounts, hempty]
    rfl
  | tokenExtensions info ta extensions =>
    refine ⟨extensions.value, ?_⟩
    show scan (tokenAccountEffect info ta extensions.value true db).tokenAccounts = _
    rw [tokenAccountEffect_tokenAccounts, hempty]
    rfl

/-- Where the amounts are 64-bit numbers, the row shows them as they are. -/
theorem tokenAccountToRpc_row (u : TokenAccountUpdate) (extensions : Option Json)
    (hamount : u.account.amount < 2 ^ 64) (hdelegated : u.account.delegatedAmount < 2 ^ 64) :
    tokenAccountToRpc (u.info.pubkey.bytes, u.account.row u.info extensions) = onChain u := by
  simp only [tokenAccountToRpc, TokenAccount.row, onChain, asU64_asI64 hamount, asU64_asI64 hdelegated,
    Option.map_map, Option.map_none]
  rfl

/-! ### What is asked -/

/-- A request for the first page of an owner, a mint or both. -/
structure AsksFor (u : TokenAccountUpdate) (payload : GetTokenAccounts) : Prop where
  owner : payload.ownerAddress = none ∨ payload.ownerAddress = some u.account.owner.toString
  mint : payload.mintAddress = none ∨ payload.mintAddress = some u.account.mint.toString
  given : payload.ownerAddress.isSome ∨ payload.mintAddress.isSome
  limit : ∀ limit, payload.limit = some limit → 1 ≤ limit ∧ limit ≤ 1000
  page : payload.page = none ∨ payload.page = some 1
  before : payload.before = none
  after : payload.after = none
  cursor : payload.cursor = none

theorem parsePubkey_toString (k : Pubkey) : parsePubkey k.toString = some k := by
  rw [parsePubkey, Pubkey.toString, Base58.decode_encode, Option.bind_some, dif_pos k.length_bytes]

theorem validateOptPubkey_toString {key : Option String} {k : Pubkey}
    (h : key = none ∨ key = some k.toString) :
    ∃ bytes, validateOptPubkey key = .ok bytes ∧ bytes.isSome = key.isSome ∧
      bytes.all (fun b => decide (k.bytes = b)) = true := by
  rcases h with rfl | rfl
  · exact ⟨none, rfl, rfl, rfl⟩
  · refine ⟨some k.bytes, ?_, rfl, ?_⟩
    · simp only [validateOptPubkey, parsePubkey_toString]
    · simp

/-- A first page starts at the beginning. -/
theorem unsortedPagination_first {limit page : Option ℕ} (hlimit : ∀ l, limit = some l → 1 ≤ l ∧ l ≤ 1000)
    (hpage : page = none ∨ page = some 1) :
    ∃ pagination, unsortedPagination limit page none none none = .ok (limit.getD 1000, pagination) ∧
      ∀ rows : List (Bytes × TokenAccountRow),
        paginate pagination (limit.getD 1000) .asc Prod.fst rows = rows.take (limit.getD 1000) := by
  have hcheck : checkLimit limit = .ok () := by
    cases limit with
    | none => rfl
    | some l => exact if_neg (not_lt.mpr (hlimit l rfl).2)
  rcases hpage with rfl | rfl
  · refine ⟨.keyset none none, ?_, fun rows => ?_⟩
    · rw [unsortedPagination, validatePagination, hcheck]
      rfl
    · simp [paginate]
  · refine ⟨.page 1, ?_, fun rows => ?_⟩
    · rw [unsortedPagination, validatePagination, hcheck]
      rfl
    · simp [paginate]

/-- The rows that such a request finds: those that it selects, from the first on. -/
theorem getTokenAccounts_first {u : TokenAccountUpdate} {payload : GetTokenAccounts}
    (hasks : AsksFor u payload) (db : Database) :
    ∃ owner mint answer, getTokenAccounts db payload = .ok answer ∧
      answer.items = ((scan db.tokenAccounts).filter
        (tokenAccountSelected owner mint (payload.options.getD {}))).take (payload.limit.getD 1000) ∧
      owner.all (fun o => decide (u.account.owner.bytes = o)) = true ∧
      mint.all (fun m => decide (u.account.mint.bytes = m)) = true := by
  obtain ⟨owner, howner, hownerSome, hownerAll⟩ := validateOptPubkey_toString hasks.owner
  obtain ⟨mint, hmint, hmintSome, hmintAll⟩ := validateOptPubkey_toString hasks.mint
  obtain ⟨pagination, hpagination, htake⟩ := unsortedPagination_first hasks.limit hasks.page
  have hgiven : ¬ (owner.isNone = true ∧ mint.isNone = true) := by
    intro ⟨hnoOwner, hnoMint⟩
    rw [Option.isNone_iff_eq_none.mp hnoOwner] at hownerSome
    rw [Option.isNone_iff_eq_none.mp hnoMint] at hmintSome
    rcases hasks.given with h | h
    · rw [h] at hownerSome
      cases hownerSome
    · rw [h] at hmintSome
      cases hmintSome
  obtain ⟨rows, hrows⟩ : ∃ rows, ((scan db.tokenAccounts).filter
      (tokenAccountSelected owner mint (payload.options.getD {}))).take (payload.limit.getD 1000) = rows :=
    ⟨_, rfl⟩
  have hanswer : getTokenAccounts db payload = .ok ⟨rows.length, payload.limit.getD 1000,
      pageInfo pagination (rows.getLast?.map Prod.fst), rows⟩ := by
    rw [getTokenAccounts, howner, hmint, hasks.before, hasks.after, hasks.cursor, hpagination]
    simp only [bind, Except.bind, if_neg hgiven, htake, hrows]
    rfl
  exact ⟨owner, mint, _, hanswer, hrows.symm, hownerAll, hmintAll⟩

/-- What such a request finds in a table with one row. -/
theorem tokenAccountsResponse_first {u : TokenAccountUpdate} {payload : GetTokenAccounts}
    (hasks : AsksFor u payload) {db : Database} {extensions : Option Json}
    (hrow : scan db.tokenAccounts = [(u.info.pubkey.bytes, u.account.row u.info extensions)]) :
    ∃ answer, tokenAccountsResponse db payload = .ok answer ∧
      answer.items = if (if (payload.options.getD {}).showZeroBalance then
          decide (0 ≤ asI64 u.account.amount) else decide (0 < asI64 u.account.amount))
        then [tokenAccountToRpc (u.info.pubkey.bytes, u.account.row u.info extensions)] else [] := by
  obtain ⟨owner, mint, answer, hanswer, hitems, hownerAll, hmintAll⟩ := getTokenAccounts_first hasks db
  obtain ⟨positive, hpositive⟩ : ∃ positive, (if (payload.options.getD {}).showZeroBalance then
      decide (0 ≤ asI64 u.account.amount) else decide (0 < asI64 u.account.amount)) = positive := ⟨_, rfl⟩
  have hselected : tokenAccountSelected owner mint (payload.options.getD {})
      (u.info.pubkey.bytes, u.account.row u.info extensions)
      = (positive && owner.all (fun o => decide (u.account.owner.bytes = o))
        && mint.all fun m => decide (u.account.mint.bytes = m)) := by
    rw [← hpositive, tokenAccountSelected, TokenAccount.row]
  rw [hownerAll, hmintAll, Bool.and_true, Bool.and_true] at hselected
  have hlimit : 1 ≤ payload.limit.getD 1000 := by
    cases hl : payload.limit with
    | none => exact Nat.one_le_ofNat
    | some l => exact (hasks.limit l hl).1
  refine ⟨buildTokenListResponse answer, by rw [tokenAccountsResponse, hanswer]; rfl, ?_⟩
  show answer.items.map tokenAccountToRpc = _
  rw [hitems, hrow, List.filter_singleton, hselected, hpositive]
  cases positive with
  | true =>
    rw [cond_true, List.take_of_length_le (by simpa using hlimit)]
    rfl
  | false =>
    rw [cond_false, List.take_nil]
    rfl

/-- **When a balance survives**: the account is found, with the amounts that it has on chain, exactly when its
amount is in the lower half of the 64-bit range. -/
theorem balance_survives_iff (u : TokenAccountUpdate) (db : Database) (payload : GetTokenAccounts)
    (hempty : db.tokenAccounts = ∅) (hasks : AsksFor u payload)
    (hamount : u.account.amount < 2 ^ 64) (hdelegated : u.account.delegatedAmount < 2 ^ 64)
    (hshown : 0 < u.account.amount ∨ (payload.options.getD {}).showZeroBalance = true) :
    (∃ answer, tokenAccountsResponse (Session.after u.handle db) payload = .ok answer ∧
      answer.items = [onChain u]) ↔ u.account.amount < 2 ^ 63 := by
  obtain ⟨extensions, hrow⟩ := tokenAccounts_after u hempty
  obtain ⟨answer, hanswer, hitems⟩ := tokenAccountsResponse_first hasks hrow
  rw [tokenAccountToRpc_row u extensions hamount hdelegated] at hitems
  constructor
  · intro ⟨answer', hanswer', hfound⟩
    obtain rfl : answer' = answer := Except.ok.inj (hanswer'.symm.trans hanswer)
    by_contra hge
    have hneg := asI64_neg (not_lt.mp hge) hamount
    rw [hfound, decide_eq_false (not_le.mpr hneg), decide_eq_false (not_lt.mpr (le_of_lt hneg))] at hitems
    simp at hitems
  · intro hlt
    refine ⟨answer, hanswer, ?_⟩
    rw [hitems, asI64_of_lt hlt]
    rcases hshown with hpos | hzero
    · have hpos' : (0 : ℤ) < u.account.amount := by omega
      have hpos'' : 0 ≤ (u.account.amount : ℤ) := le_of_lt hpos'
      rw [decide_eq_true hpos', decide_eq_true hpos'']
      simp
    · simp [hzero]

/-- An account with this amount, all of which is delegated. -/
def accountWith (amount : ℕ) : TokenAccountUpdate :=
  .token { slot := 1, pubkey := Pubkey.fill 1, owner := Pubkey.fill 9 }
    { mint := Pubkey.fill 2, owner := Pubkey.fill 3, amount, delegate := some (Pubkey.fill 4)
      state := .initialized, delegatedAmount := amount }

/-- The request for the accounts of its owner. -/
theorem asksFor_accountWith (amount : ℕ) : AsksFor (accountWith amount) (accountsOfOwner none) where
  owner := Or.inr rfl
  mint := Or.inl rfl
  given := Or.inl rfl
  limit := by
    intro limit h
    obtain rfl := Option.some.inj h
    decide
  page := Or.inl rfl
  before := rfl
  after := rfl
  cursor := rfl

/-- The greatest amount that survives. -/
theorem greatest_balance_survives :
    ∃ answer, tokenAccountsResponse (Session.after (accountWith (2 ^ 63 - 1)).handle Database.empty)
        (accountsOfOwner none) = .ok answer ∧ answer.items = [onChain (accountWith (2 ^ 63 - 1))] :=
  (balance_survives_iff (accountWith (2 ^ 63 - 1)) Database.empty (accountsOfOwner none) rfl
    (asksFor_accountWith _) (show 2 ^ 63 - 1 < 2 ^ 64 by decide) (show 2 ^ 63 - 1 < 2 ^ 64 by decide)
    (Or.inl (show 0 < 2 ^ 63 - 1 by decide))).mpr (show 2 ^ 63 - 1 < 2 ^ 63 by decide)

/-- The next one is stored as a negative number, and the owner has no account. -/
theorem upper_half_is_not_found :
    ∃ answer, tokenAccountsResponse (Session.after (accountWith (2 ^ 63)).handle Database.empty)
        (accountsOfOwner none) = .ok answer ∧ answer.items = [] := by
  obtain ⟨extensions, hrow⟩ := tokenAccounts_after (accountWith (2 ^ 63))
    (show Database.empty.tokenAccounts = ∅ from rfl)
  obtain ⟨answer, hanswer, hitems⟩ := tokenAccountsResponse_first (asksFor_accountWith (2 ^ 63)) hrow
  have hneg : ¬ 0 < asI64 (accountWith (2 ^ 63)).account.amount :=
    not_lt.mpr (le_of_lt (asI64_neg (n := 2 ^ 63) (le_refl _) (by decide)))
  rw [decide_eq_false hneg] at hitems
  exact ⟨answer, hanswer, hitems⟩

end DasIndexer.Dapi
