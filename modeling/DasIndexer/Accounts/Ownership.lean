import DasIndexer.Accounts.Tokens
import Mathlib.Data.List.Induction

/-!
# The owner of a non-fungible token

The owner of an asset is the owner field of some token account of its mint, and a token account without a
balance should never provide it.  Neither token program looks at the amount: a token account of a mint that is
known to be non-fungible gives its owner to the asset row, whatever it holds.  The row takes the owner only
when it is inserted, so the handler does harm where the `tokens` row of a mint is there and the asset row is
not.  A mint leaves the tables like that when the second of its writes fails
(`emptied_account_becomes_owner`).

* **`holders_only_iff`** says when no harm is done: over every run, from any tables and whatever fails, owners
  go only to accounts with a balance exactly when every empty account of a non-fungible mint finds the asset
  row, or fails itself.
* `emptyIsHarmless_of_paired`: where nothing fails, every mint that is known has its asset row, and every empty
  account is harmless.
* **`indexed_owner_held`** is what such a run keeps: every owner in the asset table is the owner field of an
  account that was seen with a balance.
-/

namespace DasIndexer.Accounts.Ownership

open Sql Session

/-- An update of a mint account or of a token account, of either token program. -/
inductive Update where
  | mint (u : MintUpdate)
  | account (u : TokenAccountUpdate)

def Update.handle : Update → Handler Unit
  | mint u => u.handle
  | account u => u.handle

/-- An update, and which of its statements fail. -/
structure Step where
  update : Update
  faults : Faults := noFaults

/-- The tables after a handler whose statements fail as planned. -/
def tables (x : Handler Unit) (F : Faults) (db : Database) : Database := (x.run F (World.init db)).2.db

def tablesAfter (steps : List Step) (db : Database) : Database :=
  steps.foldl (fun db s => tables s.update.handle s.faults db) db

/-- The owner in the asset table. -/
def ownerOf (mint : Bytes) (db : Database) : Option Bytes := (db.asset.lookup mint).bind AssetRow.owner

/-- The `tokens` row of the mint says that it is non-fungible. -/
def KnownNonFungible (mint : Bytes) (db : Database) : Prop :=
  ((db.tokens.lookup mint).map isNonFungible).getD false = true

instance (mint : Bytes) (db : Database) : Decidable (KnownNonFungible mint db) :=
  inferInstanceAs (Decidable (_ = true))

/-- If handling `u` gives a non-fungible token another owner, then `u` is an account with a balance and the
owner is its own. -/
def HandsToHolder (db : Database) (u : TokenAccountUpdate) (F : Faults) : Prop :=
  KnownNonFungible u.account.mint.bytes db →
    ownerOf u.account.mint.bytes (tables u.handle F db) ≠ ownerOf u.account.mint.bytes db →
      0 < u.account.amount
        ∧ ownerOf u.account.mint.bytes (tables u.handle F db) = some u.account.owner.bytes

/-- An empty account of a non-fungible token finds the asset row, or one of its attempts fails: to store the
account, to read the mint, and to begin, make and commit the write to the asset row. -/
def EmptyIsHarmless (db : Database) (u : TokenAccountUpdate) (F : Faults) : Prop :=
  KnownNonFungible u.account.mint.bytes db → u.account.amount = 0 →
    (∃ r, db.asset.lookup u.account.mint.bytes = some r) ∨ ∃ i < 5, F i ≠ none

/-- `P` holds whenever a token account is handled in the run of `steps` from `db`. -/
def Along (P : Database → TokenAccountUpdate → Faults → Prop) (steps : List Step) (db : Database) : Prop :=
  ∀ pre u F post, steps = pre ++ ⟨.account u, F⟩ :: post → P (tablesAfter pre db) u F

theorem tablesAfter_append (steps : List Step) (s : Step) (db : Database) :
    tablesAfter (steps ++ [s]) db = tables s.update.handle s.faults (tablesAfter steps db) :=
  List.foldl_append

/-! ### One update -/

/-- None of the five attempts fails that a copied account takes. -/
def AllSucceed (F : Faults) : Prop := ∀ i : ℕ, i < 5 → F i = none

instance (F : Faults) : Decidable (AllSucceed F) := Nat.decidableBallLT 5 fun i _ => F i = none

/-- A transaction of one statement takes effect where none of its three attempts fails. -/
theorem transaction_write (wrap : DbErr → ProgramTransformerError) (f : Database → Database) (F : Faults)
    (w : World Database) :
    ((Session.transaction wrap (Session.write wrap f)).run F w).2.db =
      if F w.tick = none ∧ F (w.tick + 1) = none ∧ F (w.tick + 2) = none then f w.db else w.db := by
  simp only [Session.transaction, Session.write, Session.execute]
  cases h0 : F w.tick with
  | some e => simp
  | none =>
    cases h1 : F (w.tick + 1) with
    | some e => simp [Session.rollback]
    | none =>
      cases h2 : F (w.tick + 2) with
      | some e => simp [Session.rollback, World.next, h2]
      | none => simp [Session.commit, World.next, h2]

/-- The handler of either program writes to the asset row of a known non-fungible mint, where none of its five
attempts fails. -/
theorem handleTokenAccount_asset (info : AccountInfo) (ta : TokenAccount) (extensions : Option Json)
    (setsExtensions : Bool) (F : Faults) (db : Database) :
    (tables (handleTokenAccount info ta extensions setsExtensions) F db).asset =
      if KnownNonFungible ta.mint.bytes db ∧ AllSucceed F then
        upsert db.asset ta.mint.bytes (tokenAccountColumns (ta.columns info))
      else db.asset := by
  have hfail : ∀ {i : ℕ} {e : DbErr}, i < 5 → F i = some e →
      ¬ (KnownNonFungible ta.mint.bytes db ∧ AllSucceed F) := by
    intro i e hi he hall
    rw [hall.2 i hi] at he
    cases he
  have hall : AllSucceed F ↔ F 0 = none ∧ F 1 = none ∧ F 2 = none ∧ F 3 = none ∧ F 4 = none := by
    constructor
    · intro h
      exact ⟨h 0 (by omega), h 1 (by omega), h 2 (by omega), h 3 (by omega), h 4 (by omega)⟩
    · rintro ⟨h0, h1, h2, h3, h4⟩ i hi
      interval_cases i <;> assumption
  unfold tables handleTokenAccount
  rw [run_write_bind]
  cases h0 : F (World.init db).tick with
  | some e => exact (if_neg (hfail (by omega : 0 < 5) h0)).symm
  | none =>
    dsimp only
    rw [Session.run_bind]
    simp only [Session.select, Session.execute]
    cases h1 : F ((World.init db).next).tick with
    | some e => exact (if_neg (hfail (by omega : 1 < 5) h1)).symm
    | none =>
      dsimp only
      show ((if ((db.tokens.lookup ta.mint.bytes).map isNonFungible).getD false = true then _ else _ :
        Handler Unit).run F _).2.db.asset = _
      by_cases hknown : ((db.tokens.lookup ta.mint.bytes).map isNonFungible).getD false = true
      · rw [if_pos hknown, upsertAssetsTokenAccountColumns, transaction_write]
        have hattempts : (F 2 = none ∧ F 3 = none ∧ F 4 = none) ↔
            KnownNonFungible ta.mint.bytes db ∧ AllSucceed F := by
          rw [hall]
          exact ⟨fun h => ⟨hknown, h0, h1, h⟩, fun h => h.2.2.2⟩
        show Database.asset (if F 2 = none ∧ F 3 = none ∧ F 4 = none then _ else _) = _
        rw [if_congr hattempts rfl rfl, apply_ite Database.asset]
        rfl
      · rw [if_neg hknown, if_neg fun h => hknown h.1]
        rfl

theorem account_asset (u : TokenAccountUpdate) (F : Faults) (db : Database) :
    (tables u.handle F db).asset =
      if KnownNonFungible u.account.mint.bytes db ∧ AllSucceed F then
        upsert db.asset u.account.mint.bytes (tokenAccountColumns (u.account.columns u.info))
      else db.asset := by
  cases u with
  | token info ta => exact handleTokenAccount_asset info ta none false F db
  | tokenExtensions info ta extensions => exact handleTokenAccount_asset info ta extensions.value true F db

/-- A row that is there keeps its owner. -/
theorem owner_tokenAccountColumns (c : AssetTokenAccountColumns) (r : AssetRow) :
    ((tokenAccountColumns c).row (some r)).owner = r.owner := by
  rcases (tokenAccountColumns c).row_some_cases r with hrow | hrow
  · rw [hrow]
  · rw [hrow]
    rfl

theorem ownerOf_of_row {u : TokenAccountUpdate} {db : Database} {r : AssetRow}
    (hr : db.asset.lookup u.account.mint.bytes = some r) (F : Faults) :
    ownerOf u.account.mint.bytes (tables u.handle F db) = ownerOf u.account.mint.bytes db := by
  simp only [ownerOf, account_asset]
  split
  · rw [lookup_upsert_self, hr, Option.bind_some, owner_tokenAccountColumns]
    rfl
  · rfl

theorem ownerOf_of_failed {u : TokenAccountUpdate} {F : Faults} {i : ℕ} (hi : i < 5) (hF : F i ≠ none)
    (db : Database) :
    ownerOf u.account.mint.bytes (tables u.handle F db) = ownerOf u.account.mint.bytes db := by
  simp only [ownerOf, account_asset]
  rw [if_neg fun h => hF (h.2 i hi)]

theorem ownerOf_of_new {u : TokenAccountUpdate} {F : Faults} {db : Database}
    (hknown : KnownNonFungible u.account.mint.bytes db) (hF : AllSucceed F)
    (hnew : db.asset.lookup u.account.mint.bytes = none) :
    ownerOf u.account.mint.bytes (tables u.handle F db) = some u.account.owner.bytes := by
  simp only [ownerOf, account_asset]
  rw [if_pos ⟨hknown, hF⟩, lookup_upsert_self, hnew]
  rfl

/-- **One update.**  It hands the token to a holder exactly when it is not an empty account that inserts the
asset row. -/
theorem handsToHolder_iff (db : Database) (u : TokenAccountUpdate) (F : Faults) :
    HandsToHolder db u F ↔ EmptyIsHarmless db u F := by
  constructor
  · intro h hknown hzero
    by_contra hnot
    simp only [not_or, not_exists, not_and, not_not] at hnot
    obtain ⟨hnone, hF⟩ := hnot
    have hnew : db.asset.lookup u.account.mint.bytes = none := Option.eq_none_iff_forall_not_mem.mpr hnone
    have hafter := ownerOf_of_new hknown hF hnew
    have hbefore : ownerOf u.account.mint.bytes db = none := by rw [ownerOf, hnew]; rfl
    have hpos := (h hknown (by rw [hafter, hbefore]; exact Option.some_ne_none _)).1
    omega
  · intro h hknown hchange
    have hF : AllSucceed F := by
      intro i hi
      by_contra hfail
      exact hchange (ownerOf_of_failed hi hfail db)
    cases hr : db.asset.lookup u.account.mint.bytes with
    | some r => exact absurd (ownerOf_of_row hr F) hchange
    | none =>
      refine ⟨Nat.pos_of_ne_zero fun hzero => ?_, ownerOf_of_new hknown hF hr⟩
      rcases h hknown hzero with ⟨r, hr'⟩ | ⟨i, hi, hfail⟩
      · rw [hr] at hr'
        cases hr'
      · exact hfail (hF i hi)

/-! ### Whole runs -/

/-- **Owners go to holders only**, in a run from any tables and whatever fails, exactly when every empty account
of a non-fungible mint finds the asset row or fails. -/
theorem holders_only_iff (steps : List Step) (db : Database) :
    Along HandsToHolder steps db ↔ Along EmptyIsHarmless steps db := by
  constructor
  · intro h pre u F post hsteps
    exact (handsToHolder_iff _ u F).mp (h pre u F post hsteps)
  · intro h pre u F post hsteps
    exact (handsToHolder_iff _ u F).mpr (h pre u F post hsteps)

/-- A write to the asset table that neither inserts an owner nor assigns one. -/
theorem ownerOf_upsertAsset {key : Bytes} {u : Upsert AssetRow} (hnew : u.new.owner = none)
    (hset : ∀ r, (u.set r).owner = r.owner) (mint : Bytes) (db : Database) :
    ownerOf mint (Database.upsertAsset key u db) = ownerOf mint db := by
  simp only [ownerOf, Database.upsertAsset, lookup_upsert]
  split
  · rename_i heq
    subst heq
    cases hr : db.asset.lookup mint with
    | none => exact hnew
    | some r =>
      rw [Option.bind_some, Option.bind_some]
      rcases u.row_some_cases r with hrow | hrow
      · rw [hrow]
      · rw [hrow, hset]
  · rfl

/-- A mint leaves every owner as it is, whatever fails. -/
theorem ownerOf_mint (u : MintUpdate) (mint : Bytes) (F : Faults) (db : Database) :
    ownerOf mint (tables u.handle F db) = ownerOf mint db := by
  have hmint : ∀ info m extensions sets, Session.Keeps (fun db' => ownerOf mint db' = ownerOf mint db)
      (handleMint info m extensions sets) := by
    intro info m extensions sets
    refine Session.Keeps.bind (Session.Keeps.write _ fun _ h => h) fun _ => ?_
    refine Session.Keeps.transaction _ (Session.Keeps.write _ fun db' h => ?_)
    exact (ownerOf_upsertAsset rfl (fun _ => rfl) mint db').trans h
  cases u with
  | token info m => exact (hmint info m none false).run_init F rfl
  | tokenExtensions info m extensions =>
    have hshadow : ∀ metadata : ShadowMetadata, Session.Keeps (fun db' => ownerOf mint db' = ownerOf mint db)
        (upsertShadowAssetData metadata info.pubkey.bytes info.slot) := by
      intro metadata
      refine Session.Keeps.bind (Session.Keeps.writeChecked _ fun _ _ _ h => h) fun _ => ?_
      refine Session.Keeps.bind (Session.Keeps.transaction _ (Session.Keeps.write _ fun db' h => ?_))
        fun _ => ?_
      · exact (ownerOf_upsertAsset rfl (fun _ => rfl) mint db').trans h
      · split <;> exact Session.Keeps.pure _
    have hall : Session.Keeps (fun db' => ownerOf mint db' = ownerOf mint db)
        (handleTokenExtensionsProgramAccount info (.mintAccount m extensions)) := by
      refine Session.Keeps.bind (hmint info m extensions.value true) fun _ => ?_
      cases extensions.metadata with
      | none => exact Session.Keeps.pure ()
      | some metadata =>
        refine Session.Keeps.bind (hshadow metadata) fun i => ?_
        cases i with
        | none => exact Session.Keeps.pure ()
        | some _ => exact Session.Keeps.execute _ fun _ h => h
    exact hall.run_init F rfl

/-- A token account leaves the owners of other mints as they are. -/
theorem ownerOf_account_ne (u : TokenAccountUpdate) {mint : Bytes} (F : Faults) (db : Database)
    (h : mint ≠ u.account.mint.bytes) : ownerOf mint (tables u.handle F db) = ownerOf mint db := by
  simp only [ownerOf, account_asset]
  split
  · rw [lookup_upsert_ne _ _ h]
  · rfl

/-- `o` is the owner field of an account of the mint that was seen with a balance. -/
def Held (steps : List Step) (mint o : Bytes) : Prop :=
  ∃ s ∈ steps, ∃ u, s.update = .account u ∧ u.account.mint.bytes = mint ∧ u.account.owner.bytes = o
    ∧ 0 < u.account.amount

/-- **Every indexed owner held the token**, after a run in which empty accounts are harmless. -/
theorem indexed_owner_held (steps : List Step) (h : Along EmptyIsHarmless steps Database.empty)
    (mint o : Bytes) (howner : ownerOf mint (tablesAfter steps Database.empty) = some o) :
    Held steps mint o := by
  -- by induction on the run from its end: the last update keeps the owner or hands it to a holder
  induction steps using List.reverseRecOn generalizing mint o with
  | nil => exact absurd howner (by simp [ownerOf, tablesAfter, Database.empty])
  | append_singleton steps s ih =>
    have hsteps : Along EmptyIsHarmless steps Database.empty := fun pre u F post hu =>
      h pre u F (post ++ [s]) (by rw [hu]; simp)
    have hmono : Held steps mint o → Held (steps ++ [s]) mint o := by
      intro ⟨t, ht, hrest⟩
      exact ⟨t, List.mem_append_left _ ht, hrest⟩
    rw [tablesAfter_append] at howner
    obtain ⟨update, F⟩ := s
    cases update with
    | mint u => exact hmono (ih hsteps mint o ((ownerOf_mint u mint F _).symm.trans howner))
    | account u =>
      by_cases hsame : ownerOf mint (tables u.handle F (tablesAfter steps Database.empty))
          = ownerOf mint (tablesAfter steps Database.empty)
      · exact hmono (ih hsteps mint o (hsame.symm.trans howner))
      · obtain rfl : mint = u.account.mint.bytes := by
          by_contra hne
          exact hsame (ownerOf_account_ne u F _ hne)
        have hknown : KnownNonFungible u.account.mint.bytes (tablesAfter steps Database.empty) := by
          by_contra hnot
          apply hsame
          simp only [ownerOf, account_asset]
          rw [if_neg fun hboth => hnot hboth.1]
        obtain ⟨hpos, hown⟩ := (handsToHolder_iff _ u F).mpr (h steps u F [] rfl) hknown hsame
        exact ⟨_, List.mem_append_right _ (List.mem_singleton_self _), u, rfl, rfl,
          Option.some.inj (hown.symm.trans howner), hpos⟩

/-! ### Runs in which nothing fails -/

/-- Every mint that is known has its asset row. -/
def Paired (db : Database) : Prop :=
  ∀ mint t, db.tokens.lookup mint = some t → ∃ r, db.asset.lookup mint = some r

theorem paired_empty : Paired Database.empty := fun _ _ h => by cases h

/-- Asset rows are never taken away. -/
theorem asset_stays {key mint : Bytes} {u : Upsert AssetRow} {db : Database}
    (h : ∃ r, db.asset.lookup mint = some r) :
    ∃ r, (Database.upsertAsset key u db).asset.lookup mint = some r := by
  obtain ⟨r, hr⟩ := h
  simp only [Database.upsertAsset, lookup_upsert]
  split
  · exact ⟨_, rfl⟩
  · exact ⟨r, hr⟩

/-- A mint that is stored as a whole has both rows. -/
theorem Paired.mint {db : Database} (h : Paired db) (u : MintUpdate) :
    Paired (tables u.handle noFaults db) := by
  have hmint : ∀ info m extensions sets, Paired (mintEffect info m extensions sets db) := by
    intro info m extensions sets mint t ht
    by_cases hkey : mint = info.pubkey.bytes
    · rw [hkey]
      exact ⟨_, lookup_upsert_self _ _ _⟩
    · simp only [mintEffect, Database.upsertAsset, upsertToken, lookup_upsert_ne _ _ hkey] at ht ⊢
      exact h mint t ht
  rw [tables, u.handle_leaves]
  cases u with
  | token info m => exact hmint info m none false
  | tokenExtensions info m extensions =>
    show Paired (MintUpdate.shadowEffect extensions.metadata info.pubkey.bytes info.slot
      (mintEffect info m extensions.value true db))
    cases extensions.metadata with
    | none => exact hmint info m extensions.value true
    | some metadata =>
      rw [MintUpdate.shadowEffect]
      split
      · intro mint t ht
        exact asset_stays (hmint info m extensions.value true mint t ht)
      · exact hmint info m extensions.value true

/-- A token account writes no mint. -/
theorem Paired.account {db : Database} (h : Paired db) (u : TokenAccountUpdate) :
    Paired (tables u.handle noFaults db) := by
  have htokens : (tables u.handle noFaults db).tokens = db.tokens := by
    rw [tables, u.handle_runs.leaves]
    cases u <;> simp only [TokenAccountUpdate.effect, tokenAccountEffect] <;> split <;> rfl
  intro mint t ht
  rw [htokens] at ht
  rw [account_asset]
  split
  · exact asset_stays (h mint t ht)
  · exact h mint t ht

theorem Paired.tablesAfter {db : Database} (h : Paired db) {steps : List Step}
    (hsteps : ∀ s ∈ steps, s.faults = noFaults) : Paired (tablesAfter steps db) := by
  induction steps using List.reverseRecOn with
  | nil => exact h
  | append_singleton steps s ih =>
    have hpaired := ih fun t ht => hsteps t (List.mem_append_left _ ht)
    rw [tablesAfter_append, hsteps s (by simp)]
    cases s.update with
    | mint u => exact hpaired.mint u
    | account u => exact hpaired.account u

/-- **Where nothing fails**, from tables in which every mint has its asset row, empty accounts are harmless. -/
theorem emptyIsHarmless_of_paired {steps : List Step} {db : Database} (h : Paired db)
    (hsteps : ∀ s ∈ steps, s.faults = noFaults) : Along EmptyIsHarmless steps db := by
  rintro pre u F post rfl hknown _
  cases ht : (tablesAfter pre db).tokens.lookup u.account.mint.bytes with
  | none =>
    unfold KnownNonFungible at hknown
    rw [ht] at hknown
    exact absurd hknown (by simp)
  | some t => exact Or.inl (h.tablesAfter (fun s hs => hsteps s (List.mem_append_left _ hs)) _ t ht)

/-! ### A mint that is stored by half -/

/-- A mint of one token without decimals, of which only the first statement succeeds. -/
def sampleMint : Step where
  update := .mint (.token { slot := 1, pubkey := .fill 7, owner := .fill 9 }
    { mintAuthority := none, supply := 1, decimals := 0, freezeAuthority := none })
  faults := fun i => if i = 0 then none else some "connection closed"

/-- An empty token account of that mint, in slot 5. -/
def sampleAccount : TokenAccountUpdate :=
  .token { slot := 5, pubkey := .fill 10, owner := .fill 9 }
    { mint := .fill 7, owner := .fill 30, amount := 0, delegate := none, state := .initialized,
      delegatedAmount := 0 }

/-- The sender's account, emptied, becomes the owner of the token: the mint's asset row is not there yet. -/
theorem emptied_account_becomes_owner :
    ¬ Along HandsToHolder [sampleMint, ⟨.account sampleAccount, noFaults⟩] Database.empty := by
  intro h
  have hstep := h [sampleMint] sampleAccount noFaults [] rfl
  have hpos := (hstep (by decide +kernel) (by decide +kernel)).1
  exact absurd hpos (by decide)

end DasIndexer.Accounts.Ownership
