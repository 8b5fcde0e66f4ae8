import DasIndexer.Bubblegum.Convergence
import DasIndexer.Accounts.MplCore
import DasIndexer.Accounts.TokenMetadata

/-!
# Who wrote an authority, and when

An authority row carries a slot and a sequence number, and three handlers write it.  A compressed mint inserts
it and leaves a stored row alone; a Token Metadata account and a Core account replace it, under a slot guard
and with sequence number 0; and a Core collection passes a new authority on to the rows of its members.

The row should say who wrote it when: its slot is that of an update that carried its authority, and its
sequence number is that of the mint, or 0 after an account.  Two of the writers do not see to it.  The mint
hands its two numbers over in the wrong order (`mint_swaps_stamps`), and passing an authority on leaves the
sequence number of the row as it is.  **`stamps_recorded_iff`**: over every run from empty tables the rows
are right throughout exactly when every mint that inserts a row has its slot as its sequence number, and
every row to which an authority is passed on has sequence number 0 already.
-/

namespace DasIndexer.Accounts.AuthorityStamps

open Sql Session
open MplCore (Kind IndexableAsset saveEffect resolvedAuthority authorityEffect passOnAuthority isMember)
open TokenMetadata (Metadata metadataEffect)
open Bubblegum (Ingest Succeeds ingestEffect NormalizedLeafFields TableWrite)

/-! ### The writers -/

/-- A compressed mint that is handled without an error. -/
structure Mint (B : Bubblegum.Env) extends Ingest where
  leaf : Bubblegum.LeafSchemaEvent
  log : Bubblegum.ChangeLogEventV1
  metadata : Bubblegum.MetadataArgs
  authority : Pubkey
  treeId : Pubkey
  leafUpdate : ix.leafUpdate = some leaf
  treeUpdate : ix.treeUpdate = some log
  payload : ix.payload = some (.mint metadata authority treeId)
  isMint : ix.instruction.isMint = true
  succeeds : Succeeds B toIngest

namespace Mint

variable {B : Bubblegum.Env}

/-- The minted asset. -/
def id (u : Mint B) : Bytes := (NormalizedLeafFields.from u.leaf.schema).id.bytes

def slot (u : Mint B) : ℕ := u.bundle.slot

/-- The sequence number of the change log. -/
def seq (u : Mint B) : ℕ := u.log.seq

theorem plan_eq (u : Mint B) : Bubblegum.plan B u.ix u.bundle = Bubblegum.mintPlan u.ix u.bundle := by
  have hmint := u.isMint
  unfold Bubblegum.plan
  cases hname : u.ix.instruction with
  | mintV1 => rfl
  | mintToCollectionV1 => rfl
  | mintV2 => rfl
  | _ =>
    rw [hname] at hmint
    exact absurd hmint (by decide)

/-- The statement on the authority row is the only one of its kind. -/
theorem ingestEffect_assetAuthority (u : Mint B) (db : Database) :
    (ingestEffect B u.toIngest db).assetAuthority
      = upsert db.assetAuthority u.id (Bubblegum.assetAuthority u.authority.bytes u.seq u.slot) := by
  have hgood := Bubblegum.good_of_succeeds u.succeeds
  have hplan := u.plan_eq
  rw [Bubblegum.mintPlan, u.leafUpdate, u.treeUpdate, u.payload] at hplan
  rw [hplan] at hgood
  obtain ⟨⟨tx, hdecode⟩, _⟩ := hgood
  obtain ⟨_, _, _, hlog⟩ := Bubblegum.logEffect_eq u.log u.bundle.slot tx
    (Bubblegum.ixStr u.ix.instruction) db
  simp only [ingestEffect, hplan, hdecode, hlog, List.foldl_cons, List.foldl_nil]
  rfl

end Mint

/-- An update that writes authority rows. -/
inductive Writer (B : Bubblegum.Env) where
  | mint (u : Mint B)
  | metadata (m : Metadata) (slot : ℕ)
  | core (id : Pubkey) (kind : Kind) (a : IndexableAsset) (slot : ℕ)

namespace Writer

variable {B : Bubblegum.Env}

def slot : Writer B → ℕ
  | mint u => u.slot
  | metadata _ slot => slot
  | core _ _ _ slot => slot

/-- The authority that an update carries; a Core account may leave it to the stored collection. -/
def authority (db : Database) : Writer B → Bytes
  | mint u => u.authority.bytes
  | metadata m _ => m.updateAuthority.bytes
  | core _ _ a _ => resolvedAuthority a.updateAuthority db

/-- The sequence number of what it writes. -/
def seq : Writer B → ℤ
  | mint u => u.seq
  | metadata _ _ => 0
  | core _ _ _ _ => 0

variable (E : MplCore.Env) (masterEditionPda : Pubkey → Pubkey)

def handle : Writer B → Handler Unit
  | mint u => u.toIngest.handle B
  | metadata m slot => TokenMetadata.handleMetadata masterEditionPda m slot
  | core id kind a slot => MplCore.handleMplCoreAccount E id slot (kind.accountData a)

def effect : Writer B → Database → Database
  | mint u => ingestEffect B u.toIngest
  | metadata m slot => metadataEffect masterEditionPda m slot
  | core id kind a slot => saveEffect E id kind a slot

theorem handle_leaves (w : Writer B) :
    Leaves (w.handle E masterEditionPda) (w.effect E masterEditionPda) := by
  cases w with
  | mint u => exact (Bubblegum.handle_runs (Bubblegum.good_of_succeeds u.succeeds)).leaves
  | metadata m slot => exact (TokenMetadata.handleMetadata_runs masterEditionPda m slot).leaves
  | core id kind a slot =>
    rw [handle, MplCore.handleMplCoreAccount_accountData]
    exact MplCore.saveAndNotify_leaves E id kind a slot

/-- The writer passes its authority on to the row `r` of asset `member`; to its own only where the save
itself is dropped. -/
def PassesOn (db : Database) (member : Bytes) (r : AssetAuthorityRow) : Writer B → Prop
  | core id kind a slot =>
    kind = .collection ∧ (member ≠ id.bytes ∨ ¬ a.Fits) ∧
      (authorityColumns (resolvedAuthority a.updateAuthority db) slot).affects
        (db.assetAuthority.lookup id.bytes) = true ∧
      r.authority ≠ resolvedAuthority a.updateAuthority db ∧ r.slotUpdated < (slot : ℤ) ∧
      isMember db (Base58.encode id.bytes) member = true
  | _ => False

/-- A mint that inserts a row has its slot as its sequence number, and an authority is passed on to rows
without a sequence number only. -/
def Safe (w : Writer B) (db : Database) : Prop :=
  (∀ u, w = mint u → db.assetAuthority.lookup u.id = none → u.seq = u.slot) ∧
  ∀ member r, db.assetAuthority.lookup member = some r → w.PassesOn db member r → r.seq = 0

/-- A mint inserts its row, with the two numbers in the wrong order. -/
theorem lookup_mint (u : Mint B) (db : Database) (id : Bytes) :
    ((mint u).effect E masterEditionPda db).assetAuthority.lookup id
      = if id = u.id then some ((db.assetAuthority.lookup id).getD
          { authority := u.authority.bytes, seq := u.slot, slotUpdated := u.seq })
        else db.assetAuthority.lookup id := by
  rw [effect, u.ingestEffect_assetAuthority, lookup_upsert]
  split
  · rename_i hid
    rw [hid]
    cases db.assetAuthority.lookup u.id <;> rfl
  · rfl

/-- An account's own row is replaced or left alone. -/
theorem row_authorityColumns (authority : Bytes) (slot : ℕ) (o : Option AssetAuthorityRow) :
    some ((authorityColumns authority slot).row o) = o ∨
      (authorityColumns authority slot).row o = { authority, seq := 0, slotUpdated := slot } := by
  cases o with
  | none => exact Or.inr rfl
  | some r =>
    rcases (authorityColumns authority slot).row_some_cases r with hrow | hrow
    · exact Or.inl (by rw [hrow])
    · exact Or.inr hrow

/-- A row that a Core account does not write as its own: an authority may be passed on to it. -/
theorem lookup_core (id : Pubkey) (kind : Kind) {a : IndexableAsset} (slot : ℕ) (db : Database) {k : Bytes}
    (hk : k ≠ id.bytes ∨ ¬ a.Fits) :
    (saveEffect E id kind a slot db).assetAuthority.lookup k
      = (db.assetAuthority.lookup k).map fun r =>
        if ((authorityColumns (resolvedAuthority a.updateAuthority db) slot).affects
              (db.assetAuthority.lookup id.bytes) = true ∧ kind = .collection)
            ∧ r.authority ≠ resolvedAuthority a.updateAuthority db ∧ r.slotUpdated < (slot : ℤ)
            ∧ isMember db (Base58.encode id.bytes) k then
          { r with authority := resolvedAuthority a.updateAuthority db, slotUpdated := slot }
        else r := by
  by_cases hfits : a.Fits
  · rw [MplCore.saveEffect_assetAuthority E id kind slot hfits]
    exact MplCore.authorityEffect_other _ _ _ _ _ (hk.resolve_right (not_not_intro hfits))
  · exact MplCore.saveEffect_assetAuthority_of_not_fits E id kind slot hfits db k

/-- A row to which an authority is passed on. -/
theorem lookup_passesOn {w : Writer B} {db : Database} {member : Bytes} {r : AssetAuthorityRow}
    (hr : db.assetAuthority.lookup member = some r) (h : w.PassesOn db member r) :
    (w.effect E masterEditionPda db).assetAuthority.lookup member
      = some { r with authority := w.authority db, slotUpdated := w.slot } := by
  cases w with
  | mint u => exact absurd h id
  | metadata m slot => exact absurd h id
  | core id kind a slot =>
    obtain ⟨hkind, hne, haffects, hauthority, hslot, hmember⟩ := h
    rw [effect, lookup_core E id kind slot db hne, hr, Option.map_some,
      if_pos ⟨⟨haffects, hkind⟩, hauthority, hslot, hmember⟩]
    rfl

/-- **What a writer can do to a row**: nothing, insert it as a mint, replace it as an account, or pass an
authority on to it. -/
theorem lookup_effect_cases (w : Writer B) (db : Database) (id : Bytes) :
    (w.effect E masterEditionPda db).assetAuthority.lookup id = db.assetAuthority.lookup id ∨
    (∃ u, w = mint u ∧ db.assetAuthority.lookup u.id = none ∧
      (w.effect E masterEditionPda db).assetAuthority.lookup id
        = some { authority := u.authority.bytes, seq := u.slot, slotUpdated := u.seq }) ∨
    w.seq = 0 ∧ ((w.effect E masterEditionPda db).assetAuthority.lookup id
        = some { authority := w.authority db, seq := 0, slotUpdated := w.slot } ∨
      ∃ r, db.assetAuthority.lookup id = some r ∧ w.PassesOn db id r ∧
        (w.effect E masterEditionPda db).assetAuthority.lookup id
          = some { r with authority := w.authority db, slotUpdated := w.slot }) := by
  cases w with
  | mint u =>
    rw [lookup_mint]
    split
    · rename_i hid
      cases hr : db.assetAuthority.lookup id with
      | none => exact Or.inr (Or.inl ⟨u, rfl, hid ▸ hr, rfl⟩)
      | some r => exact Or.inl rfl
    · exact Or.inl rfl
  | metadata m slot =>
    rw [effect, TokenMetadata.metadataEffect_assetAuthority, lookup_upsert]
    split
    · rename_i hid
      rw [hid]
      rcases row_authorityColumns m.updateAuthority.bytes slot (db.assetAuthority.lookup m.mint.bytes)
        with hrow | hrow
      · exact Or.inl hrow
      · exact Or.inr (Or.inr ⟨rfl, Or.inl (congrArg some hrow)⟩)
    · exact Or.inl rfl
  | core id' kind a slot =>
    by_cases hown : id = id'.bytes ∧ a.Fits
    · obtain ⟨hid, hfits⟩ := hown
      rw [effect, MplCore.saveEffect_assetAuthority E id' kind slot hfits, hid, MplCore.authorityEffect_own]
      rcases row_authorityColumns (resolvedAuthority a.updateAuthority db) slot
        (db.assetAuthority.lookup id'.bytes) with hrow | hrow
      · exact Or.inl hrow
      · exact Or.inr (Or.inr ⟨rfl, Or.inl (congrArg some hrow)⟩)
    · rw [not_and_or] at hown
      cases hr : db.assetAuthority.lookup id with
      | none =>
        refine Or.inl ?_
        rw [effect, lookup_core E id' kind slot db hown, hr]
        rfl
      | some r =>
        by_cases hpass : (core id' kind a slot : Writer B).PassesOn db id r
        · exact Or.inr (Or.inr ⟨rfl, Or.inr ⟨r, rfl, hpass, lookup_passesOn E masterEditionPda hr hpass⟩⟩)
        · refine Or.inl ?_
          rw [effect, lookup_core E id' kind slot db hown, hr, Option.map_some, if_neg]
          intro ⟨⟨haffects, hkind⟩, hauthority, hslot, hmember⟩
          exact hpass ⟨hkind, hown, haffects, hauthority, hslot, hmember⟩

end Writer

/-! ### Runs -/

section Runs

variable {B : Bubblegum.Env} (E : MplCore.Env) (masterEditionPda : Pubkey → Pubkey)

/-- The tables after a run from empty ones. -/
def tablesAfter (ws : List (Writer B)) : Database :=
  afterAll (Writer.handle E masterEditionPda) ws Database.empty

/-- The authority row of an asset after a run. -/
def rowAfter (ws : List (Writer B)) (id : Bytes) : Option AssetAuthorityRow :=
  (tablesAfter E masterEditionPda ws).assetAuthority.lookup id

theorem rowAfter_append_singleton (ws : List (Writer B)) (w : Writer B) (id : Bytes) :
    rowAfter E masterEditionPda (ws ++ [w]) id
      = (w.effect E masterEditionPda (tablesAfter E masterEditionPda ws)).assetAuthority.lookup id := by
  rw [rowAfter, tablesAfter, afterAll_append, afterAll_cons, afterAll_nil,
    (w.handle_leaves E masterEditionPda).after_eq]
  rfl

/-- Between `pre` and `post`, `w` was the last to change the row. -/
structure LastWrote (id : Bytes) (pre : List (Writer B)) (w : Writer B) (post : List (Writer B)) : Prop where
  changed : rowAfter E masterEditionPda (pre ++ [w]) id ≠ rowAfter E masterEditionPda pre id
  kept : ∀ mid rest, post = mid ++ rest →
    rowAfter E masterEditionPda (pre ++ w :: mid) id = rowAfter E masterEditionPda (pre ++ [w]) id

/-- Every authority row has the slot of an update that carried its authority, and the sequence number of the
update that wrote it last. -/
def Recorded (ws : List (Writer B)) : Prop :=
  ∀ id r, rowAfter E masterEditionPda ws id = some r →
    (∃ pre w post, ws = pre ++ w :: post ∧ r.slotUpdated = (w.slot : ℤ) ∧
      r.authority = w.authority (tablesAfter E masterEditionPda pre)) ∧
    ∀ pre w post, ws = pre ++ w :: post → LastWrote E masterEditionPda id pre w post → r.seq = w.seq

/-- A step that leaves a row alone was not the last to write it. -/
theorem LastWrote.of_unchanged {ws : List (Writer B)} {w : Writer B} {id : Bytes}
    (hsame : rowAfter E masterEditionPda (ws ++ [w]) id = rowAfter E masterEditionPda ws id)
    {pre : List (Writer B)} {v : Writer B} {post : List (Writer B)} (heq : ws ++ [w] = pre ++ v :: post)
    (h : LastWrote E masterEditionPda id pre v post) :
    ∃ post', ws = pre ++ v :: post' ∧ LastWrote E masterEditionPda id pre v post' := by
  rcases List.eq_nil_or_concat post with rfl | ⟨post', x, rfl⟩
  · obtain ⟨rfl, hv⟩ := List.append_inj' heq rfl
    obtain rfl : w = v := (List.cons.inj hv).1
    exact absurd hsame h.changed
  · rw [List.concat_eq_append, ← List.cons_append, ← List.append_assoc] at heq
    obtain ⟨rfl, _⟩ := List.append_inj' heq rfl
    refine ⟨post', rfl, h.changed, ?_⟩
    intro mid rest hpost
    exact h.kept mid (rest ++ [x]) (by rw [hpost, List.concat_eq_append, List.append_assoc])

/-- A step that changes a row was the last to write it. -/
theorem LastWrote.of_changed {ws : List (Writer B)} {w : Writer B} {id : Bytes}
    (hchanged : rowAfter E masterEditionPda (ws ++ [w]) id ≠ rowAfter E masterEditionPda ws id)
    {pre : List (Writer B)} {v : Writer B} {post : List (Writer B)} (heq : ws ++ [w] = pre ++ v :: post)
    (h : LastWrote E masterEditionPda id pre v post) : v = w := by
  rcases List.eq_nil_or_concat post with rfl | ⟨post', x, rfl⟩
  · obtain ⟨_, hv⟩ := List.append_inj' heq rfl
    exact (List.cons.inj hv).1.symm
  · have hmid := h.kept post' [x] List.concat_eq_append
    have hall := h.kept (post'.concat x) [] (List.append_nil _).symm
    rw [← heq] at hall
    rw [List.concat_eq_append, ← List.cons_append, ← List.append_assoc] at heq
    obtain ⟨rfl, _⟩ := List.append_inj' heq rfl
    exact absurd (hall.trans hmid.symm) hchanged

/-- A safe step keeps the rows right. -/
theorem recorded_step {ws : List (Writer B)} (h : Recorded E masterEditionPda ws) {w : Writer B}
    (hsafe : w.Safe (tablesAfter E masterEditionPda ws)) : Recorded E masterEditionPda (ws ++ [w]) := by
  intro id r hr
  by_cases hsame : rowAfter E masterEditionPda (ws ++ [w]) id = rowAfter E masterEditionPda ws id
  · obtain ⟨⟨pre, v, post, hws, hslot, hauthority⟩, hseq⟩ := h id r (hsame ▸ hr)
    refine ⟨⟨pre, v, post ++ [w], by simp [hws], hslot, hauthority⟩, ?_⟩
    intro pre' v' post' heq hlast
    obtain ⟨post'', hws', hlast'⟩ := hlast.of_unchanged E masterEditionPda hsame heq
    exact hseq pre' v' post'' hws' hlast'
  · have hlast : ∀ pre v post, ws ++ [w] = pre ++ v :: post →
        LastWrote E masterEditionPda id pre v post → v = w :=
      fun pre v post heq hlast => hlast.of_changed E masterEditionPda hsame heq
    have hrow := hr
    rw [rowAfter_append_singleton] at hrow
    have hchanged : (w.effect E masterEditionPda (tablesAfter E masterEditionPda ws)).assetAuthority.lookup id
        ≠ (tablesAfter E masterEditionPda ws).assetAuthority.lookup id := by
      rw [← rowAfter_append_singleton]
      exact hsame
    -- so the step wrote the row, in one of three ways
    suffices hstamps : r.slotUpdated = (w.slot : ℤ) ∧
        r.authority = w.authority (tablesAfter E masterEditionPda ws) ∧ r.seq = w.seq by
      obtain ⟨hslot, hauthority, hseq⟩ := hstamps
      refine ⟨⟨ws, w, [], rfl, hslot, hauthority⟩, ?_⟩
      intro pre v post heq hl
      rw [hlast pre v post heq hl]
      exact hseq
    rcases w.lookup_effect_cases E masterEditionPda (tablesAfter E masterEditionPda ws) id with
      heq | ⟨u, rfl, hnone, heq⟩ | ⟨hzero, heq | ⟨r', hr', hpass, heq⟩⟩
    · exact absurd heq hchanged
    · obtain rfl := Option.some.inj (heq.symm.trans hrow)
      have hnumbers : u.seq = u.slot := hsafe.1 u rfl hnone
      exact ⟨congrArg Nat.cast hnumbers, rfl, congrArg Nat.cast hnumbers.symm⟩
    · obtain rfl := Option.some.inj (heq.symm.trans hrow)
      exact ⟨rfl, rfl, hzero.symm⟩
    · obtain rfl := Option.some.inj (heq.symm.trans hrow)
      refine ⟨rfl, rfl, ?_⟩
      rw [hzero]
      exact hsafe.2 id r' hr' hpass

/-- A step after which the rows are right was safe. -/
theorem safe_of_recorded {ws : List (Writer B)} {w : Writer B} (h : Recorded E masterEditionPda (ws ++ [w])) :
    w.Safe (tablesAfter E masterEditionPda ws) := by
  have hself : ∀ id, rowAfter E masterEditionPda (ws ++ [w]) id ≠ rowAfter E masterEditionPda ws id →
      LastWrote E masterEditionPda id ws w [] := by
    intro id hchanged
    refine ⟨hchanged, ?_⟩
    intro mid rest hmid
    rw [(List.append_eq_nil_iff.mp hmid.symm).1]
  constructor
  · intro u hw hnone
    subst hw
    have hrow : rowAfter E masterEditionPda (ws ++ [.mint u]) u.id
        = some { authority := u.authority.bytes, seq := u.slot, slotUpdated := u.seq } := by
      rw [rowAfter_append_singleton, Writer.lookup_mint, if_pos rfl, hnone]
      rfl
    have hseq := (h u.id _ hrow).2 ws (.mint u) [] rfl (hself u.id (by
      rw [hrow, rowAfter, hnone]
      simp))
    exact Int.ofNat.inj hseq.symm
  · intro member r hr hpass
    have hrow : rowAfter E masterEditionPda (ws ++ [w]) member = some { r with
        authority := w.authority (tablesAfter E masterEditionPda ws), slotUpdated := w.slot } := by
      rw [rowAfter_append_singleton, Writer.lookup_passesOn E masterEditionPda hr hpass]
    have hne : r.authority ≠ w.authority (tablesAfter E masterEditionPda ws) ∧ w.seq = 0 := by
      cases w with
      | mint u => exact absurd hpass id
      | metadata m slot => exact absurd hpass id
      | core id kind a slot => exact ⟨hpass.2.2.2.1, rfl⟩
    have hseq := (h member _ hrow).2 ws w [] rfl (hself member (by
      rw [hrow, rowAfter, hr]
      intro heq
      exact hne.1 (congrArg AssetAuthorityRow.authority (Option.some.inj heq)).symm))
    exact hseq.trans hne.2

/-- **When authority rows record who wrote them.**  Over every run from empty tables, the rows are right at
every point exactly when every step is safe where it is taken. -/
theorem stamps_recorded_iff (ws : List (Writer B)) :
    (∀ pre post, ws = pre ++ post → Recorded E masterEditionPda pre) ↔
      ∀ pre w post, ws = pre ++ w :: post → w.Safe (tablesAfter E masterEditionPda pre) := by
  constructor
  · intro hall pre w post hws
    exact safe_of_recorded E masterEditionPda (hall (pre ++ [w]) post (by simp [hws]))
  · intro hsafe pre
    induction pre using List.reverseRecOn with
    | nil =>
      intro post _ id r hr
      exact absurd hr (by simp [rowAfter, tablesAfter, Database.empty])
    | append_singleton pre w ih =>
      intro post hws
      have hws' : ws = pre ++ w :: post := by simp [hws]
      exact recorded_step E masterEditionPda (ih (w :: post) hws') (hsafe pre w post hws')

end Runs

/-! ### A mint -/

/-- A mint as a writer. -/
def sampleWriter : Writer Bubblegum.Env.sample := .mint
  { Bubblegum.sampleMint with
    leaf := _
    log := _
    metadata := _
    authority := _
    treeId := _
    leafUpdate := rfl
    treeUpdate := rfl
    payload := rfl
    isMint := rfl
    succeeds := Bubblegum.sampleMint_succeeds }

/-- The row of a mint has its two numbers exchanged. -/
theorem mint_swaps_stamps :
    ¬ Recorded .sample (fun _ => .fill 8) [sampleWriter] := by
  intro h
  have hsafe : sampleWriter.Safe (tablesAfter .sample (fun _ => .fill 8) []) :=
    safe_of_recorded .sample (fun _ => .fill 8) h
  exact absurd (hsafe.1 _ rfl rfl) (by decide)

end DasIndexer.Accounts.AuthorityStamps
