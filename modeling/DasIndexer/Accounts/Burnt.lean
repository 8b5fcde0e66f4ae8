import DasIndexer.Accounts.MplCore
import Mathlib.Data.List.Induction

/-!
# The life of a Core account

A Core account is saved while it has data and burnt when it is closed, and both events reach the indexer in
any order and any number of times.  A closure sets `burnt` where it is newer than `slot_updated`, the newest
event of all so far.  A save is meant to clear `burnt`, but on a row that exists the statement that is sent
moves `slot_updated` only: no event takes the flag back.  `Life` is the two columns that decide, and a run of
handlers is a run of `Life` (`represents_after`).

So the asset ends burnt exactly when some closure was newer than everything before it (`burnt_run_iff`).  A
save that is newer than such a closure leaves it burnt (`newer_save_stays_burnt`), and
**`burnt_unless_reopened_iff`** says when the flag is right.
-/

namespace DasIndexer.Accounts.Burnt

open Sql Session
open MplCore (Kind IndexableAsset MplCoreAccountData)

/-- What happens to one Core account. -/
inductive Event where
  | save (kind : Kind) (a : IndexableAsset) (slot : ℕ)
  | closure (slot : ℕ)

namespace Event

def slot : Event → ℕ
  | save _ _ slot => slot
  | closure slot => slot

/-- The account data that the handler sees. -/
def data : Event → MplCoreAccountData
  | save kind a _ => kind.accountData a
  | closure _ => .emptyAccount

/-- A save whose URI does not fit its column stores nothing. -/
def Stored : Event → Prop
  | save _ a _ => a.Fits
  | closure _ => True

instance (e : Event) : Decidable e.Stored := by
  cases e with
  | save kind a slot => exact inferInstanceAs (Decidable a.Fits)
  | closure slot => exact instDecidableTrue

def handle (E : MplCore.Env) (id : Pubkey) (e : Event) : Handler Unit :=
  MplCore.handleMplCoreAccount E id e.slot e.data

def effect (E : MplCore.Env) (id : Pubkey) : Event → Database → Database
  | save kind a slot => MplCore.saveEffect E id kind a slot
  | closure slot => Database.upsertAsset id.bytes (burntColumns slot)

theorem handle_leaves (E : MplCore.Env) (id : Pubkey) (e : Event) :
    Session.Leaves (e.handle E id) (e.effect E id) := by
  cases e with
  | save kind a slot =>
    rw [handle, data, MplCore.handleMplCoreAccount_accountData]
    exact MplCore.saveAndNotify_leaves E id kind a slot
  | closure slot => exact (Session.Runs.write _ _).leaves

end Event

/-! ### The columns that decide -/

/-- The newest event and the flag. -/
structure Life where
  touched : ℕ
  burnt : Bool

namespace Life

/-- A save starts a life, and does not change whether the account is burnt. -/
def save (s : ℕ) : Option Life → Life
  | none => ⟨s, false⟩
  | some l => ⟨max l.touched s, l.burnt⟩

/-- A closure takes only a slot that is newer than everything. -/
def close (s : ℕ) : Option Life → Life
  | none => ⟨s, true⟩
  | some l => if l.touched < s then ⟨s, true⟩ else l

/-- One event. -/
def next (o : Option Life) : Event → Option Life
  | .save _ a slot => if a.Fits then some (save slot o) else o
  | .closure slot => some (close slot o)

/-- The life that a list of events leads. -/
def run (es : List Event) (o : Option Life) : Option Life := es.foldl next o

end Life

/-- The asset row shows a life.  Nothing writes the slots of the mint and of the token on a row of a Core
account, so a save always moves `slot_updated` on. -/
structure Represents (r : AssetRow) (l : Life) : Prop where
  mint : r.slotUpdatedMintAccount = none
  slot : r.slotUpdated = some (l.touched : ℤ)
  burnt : r.burnt = l.burnt

/-- The asset row and the life are both missing, or the row shows the life. -/
def RepresentsOpt : Option AssetRow → Option Life → Prop
  | none, none => True
  | some r, some l => Represents r l
  | _, _ => False

/-- The mint's write takes every row whose slot of the mint is missing. -/
theorem mintRow_eq (id : Pubkey) (slot : ℕ) {r : AssetRow} (h : r.slotUpdatedMintAccount = none) :
    (mintAccountColumns (MplCore.mintColumns id slot)).row (some r)
      = { r with slotUpdated := greatest r.slotUpdated (some (slot : ℤ)) } := by
  have hguard : holds ((mintAccountColumns (MplCore.mintColumns id slot)).guard r) = true := by
    show holds (Bubblegum.notOlder _ r.slotUpdatedMintAccount) = true
    rw [h]
    rfl
  rw [Upsert.row_some, if_pos hguard]
  rfl

/-- The token's write can only move `slot_updated` to the same slot once more. -/
theorem tokenRow_eq (id : Pubkey) (kind : Kind) (a : IndexableAsset) (authority : Bytes) (slot : ℕ)
    {r : AssetRow} {n : ℤ} (hslot : r.slotUpdated = some n) (hle : (slot : ℤ) ≤ n) :
    (tokenAccountColumns (MplCore.tokenColumns id kind a authority slot)).row (some r) = r := by
  rcases Upsert.row_some_cases (tokenAccountColumns (MplCore.tokenColumns id kind a authority slot)) r
    with hrow | hrow
  · exact hrow
  · rw [hrow]
    show { r with slotUpdated := greatest r.slotUpdated (some (slot : ℤ)) } = r
    rw [hslot]
    show { r with slotUpdated := some (max n (slot : ℤ)) } = r
    rw [max_eq_left hle, ← hslot]

theorem represents_save (E : MplCore.Env) (id : Pubkey) (kind : Kind) (a : IndexableAsset)
    (authority : Bytes) (slot : ℕ) {o : Option AssetRow} {o' : Option Life} (h : RepresentsOpt o o') :
    Represents (MplCore.savedAsset E id kind a authority slot o) (Life.save slot o') := by
  unfold MplCore.savedAsset
  cases o with
  | none =>
    cases o' with
    | some l => exact h.elim
    | none =>
      rw [Upsert.row_none, mintRow_eq id slot rfl, tokenRow_eq id kind a authority slot rfl (le_refl _)]
      exact ⟨rfl, rfl, rfl⟩
  | some r =>
    cases o' with
    | none => exact h.elim
    | some l =>
      obtain ⟨hmint, hslot, hburnt⟩ := h
      -- whether the metadata's guard holds or not, the mint's write makes up for it
      obtain ⟨n, hrow, hn⟩ : ∃ n : ℤ, (metadataAccountColumns (MplCore.metadataColumns E id kind a slot)).row
          (some r) = { r with slotUpdated := some n } ∧ max n (slot : ℤ) = max (l.touched : ℤ) slot := by
        rcases Upsert.row_some_cases (metadataAccountColumns (MplCore.metadataColumns E id kind a slot)) r
          with hrow | hrow
        · exact ⟨l.touched, by rw [hrow, ← hslot], rfl⟩
        · refine ⟨max (l.touched : ℤ) slot, ?_, ?_⟩
          · rw [hrow]
            show { r with slotUpdated := greatest r.slotUpdated (some (slot : ℤ)) } = _
            rw [hslot]
            rfl
          · rw [max_assoc, max_self]
      have hmintRow : (mintAccountColumns (MplCore.mintColumns id slot)).row (some { r with slotUpdated := some n })
          = { r with slotUpdated := some (max (l.touched : ℤ) slot) } := by
        rw [← hn]
        exact mintRow_eq id slot hmint
      rw [hrow, hmintRow, tokenRow_eq id kind a authority slot rfl (le_max_right _ _)]
      exact ⟨hmint, by rw [Life.save, Nat.cast_max], hburnt⟩

theorem represents_close (slot : ℕ) {o : Option AssetRow} {o' : Option Life} (h : RepresentsOpt o o') :
    Represents ((burntColumns slot).row o) (Life.close slot o') := by
  cases o with
  | none =>
    cases o' with
    | some l => exact h.elim
    | none => exact ⟨rfl, rfl, rfl⟩
  | some r =>
    cases o' with
    | none => exact h.elim
    | some l =>
      obtain ⟨hmint, hslot, hburnt⟩ := h
      rw [Upsert.row_some, Life.close]
      by_cases hlt : l.touched < slot
      · have hguard : holds ((burntColumns slot).guard r) = true := by
          simpa [burntColumns, hslot] using hlt
        rw [if_pos hguard, if_pos hlt]
        exact ⟨hmint, rfl, rfl⟩
      · have hguard : ¬ holds ((burntColumns slot).guard r) = true := by
          simpa [burntColumns, hslot] using hlt
        rw [if_neg hguard, if_neg hlt]
        exact ⟨hmint, hslot, hburnt⟩

/-- One event. -/
theorem represents_effect (E : MplCore.Env) (id : Pubkey) (e : Event) {db : Database} {o : Option Life}
    (h : RepresentsOpt (db.asset.lookup id.bytes) o) :
    RepresentsOpt ((e.effect E id db).asset.lookup id.bytes) (Life.next o e) := by
  cases e with
  | save kind a slot =>
    show RepresentsOpt ((MplCore.saveEffect E id kind a slot db).asset.lookup id.bytes) _
    rw [MplCore.saveEffect_asset, Life.next]
    by_cases hfits : a.Fits
    · rw [if_pos ⟨hfits, rfl⟩, if_pos hfits]
      exact represents_save E id kind a _ slot h
    · rw [if_neg fun hboth => hfits hboth.1, if_neg hfits]
      exact h
  | closure slot =>
    show RepresentsOpt ((upsert db.asset id.bytes (burntColumns slot)).lookup id.bytes) _
    rw [lookup_upsert_self]
    exact represents_close slot h

/-- **A run of handlers is a run of lives.** -/
theorem represents_after (E : MplCore.Env) (id : Pubkey) (es : List Event) {db : Database}
    {o : Option Life} (h : RepresentsOpt (db.asset.lookup id.bytes) o) :
    RepresentsOpt ((afterAll (Event.handle E id) es db).asset.lookup id.bytes) (Life.run es o) := by
  rw [Leaves.afterAll_eq (Event.handle_leaves E id)]
  induction es generalizing db o with
  | nil => exact h
  | cons e es ih => exact ih (represents_effect E id e h)

/-! ### What a life remembers -/

/-- Some closure was newer than every stored event before it. -/
def ClosedOnce (es : List Event) : Prop :=
  ∃ pre c post, es = pre ++ Event.closure c :: post ∧ ∀ e ∈ pre, e.Stored → e.slot < c

theorem not_closedOnce_nil : ¬ ClosedOnce [] := by
  rintro ⟨pre, c, post, hes, _⟩
  simp at hes

/-- One more event closes the account if it is such a closure itself. -/
theorem closedOnce_append {es : List Event} {e : Event} :
    ClosedOnce (es ++ [e]) ↔
      ClosedOnce es ∨ ∃ c, e = .closure c ∧ ∀ e' ∈ es, e'.Stored → e'.slot < c := by
  constructor
  · rintro ⟨pre, c, post, hes, hpre⟩
    rcases List.eq_nil_or_concat post with rfl | ⟨post', e', rfl⟩
    · obtain ⟨rfl, hlast⟩ := List.append_inj' hes rfl
      exact Or.inr ⟨c, (List.cons.inj hlast).1, hpre⟩
    · have hes' : es ++ [e] = (pre ++ Event.closure c :: post') ++ [e'] := by rw [hes]; simp
      obtain ⟨rfl, _⟩ := List.append_inj' hes' rfl
      exact Or.inl ⟨pre, c, post', rfl, hpre⟩
  · rintro (⟨pre, c, post, rfl, hpre⟩ | ⟨c, rfl, hpre⟩)
    · exact ⟨pre, c, post ++ [e], by simp, hpre⟩
    · exact ⟨es, c, [], rfl, hpre⟩

/-- The columns are the newest of the stored events and whether a closure was ever the newest. -/
structure Seen (es : List Event) (o : Option Life) : Prop where
  touched_mem : ∀ l, o = some l → ∃ e ∈ es, e.Stored ∧ e.slot = l.touched
  touched_le : ∀ e ∈ es, e.Stored → ∃ l, o = some l ∧ e.slot ≤ l.touched
  burnt_iff : (o.map Life.burnt = some true) ↔ ClosedOnce es

theorem seen_nil : Seen [] none where
  touched_mem := fun _ h => by cases h
  touched_le := fun _ h _ => by cases h
  burnt_iff := ⟨fun h => (by cases h), fun h => absurd h not_closedOnce_nil⟩

/-- A save that stores the asset. -/
theorem Seen.save {es : List Event} {o : Option Life} (h : Seen es o) (kind : Kind) {a : IndexableAsset}
    (slot : ℕ) (hfits : a.Fits) : Seen (es ++ [.save kind a slot]) (some (Life.save slot o)) := by
  have hsame : ClosedOnce (es ++ [.save kind a slot]) ↔ ClosedOnce es := by simp [closedOnce_append]
  cases o with
  | none =>
    refine ⟨?_, ?_, ?_⟩
    · intro l hl
      obtain rfl := Option.some.inj hl
      exact ⟨_, List.mem_append_right _ (List.mem_singleton_self _), hfits, rfl⟩
    · intro e he hstored
      rcases List.mem_append.mp he with he | he
      · obtain ⟨l, hl, _⟩ := h.touched_le e he hstored
        cases hl
      · rw [List.mem_singleton.mp he]
        exact ⟨_, rfl, le_refl _⟩
    · rw [hsame, ← h.burnt_iff]
      simp [Life.save]
  | some l =>
    refine ⟨?_, ?_, ?_⟩
    · intro l' hl'
      obtain rfl := Option.some.inj hl'
      rcases max_choice l.touched slot with hmax | hmax
      · obtain ⟨e, he, hstored, heq⟩ := h.touched_mem l rfl
        exact ⟨e, List.mem_append_left _ he, hstored, heq.trans hmax.symm⟩
      · exact ⟨_, List.mem_append_right _ (List.mem_singleton_self _), hfits, hmax.symm⟩
    · intro e he hstored
      refine ⟨_, rfl, ?_⟩
      rcases List.mem_append.mp he with he | he
      · obtain ⟨l', hl', hle⟩ := h.touched_le e he hstored
        obtain rfl := Option.some.inj hl'
        exact le_trans hle (le_max_left _ _)
      · rw [List.mem_singleton.mp he]
        exact le_max_right _ _
    · rw [hsame, ← h.burnt_iff]
      simp [Life.save]

theorem Seen.close {es : List Event} {o : Option Life} (h : Seen es o) (slot : ℕ) :
    Seen (es ++ [.closure slot]) (some (Life.close slot o)) := by
  have hnew : ClosedOnce (es ++ [.closure slot]) ↔
      ClosedOnce es ∨ ∀ e ∈ es, e.Stored → e.slot < slot := by
    rw [closedOnce_append]
    simp
  by_cases hlt : ∀ l, o = some l → l.touched < slot
  · -- the closure is newer than everything
    have hall : ∀ e ∈ es, e.Stored → e.slot < slot := by
      intro e he hstored
      obtain ⟨l, hl, hle⟩ := h.touched_le e he hstored
      exact lt_of_le_of_lt hle (hlt l hl)
    have hclose : Life.close slot o = ⟨slot, true⟩ := by
      cases o with
      | none => rfl
      | some l => exact if_pos (hlt l rfl)
    rw [hclose]
    refine ⟨?_, ?_, ?_⟩
    · intro l hl
      obtain rfl := Option.some.inj hl
      exact ⟨_, List.mem_append_right _ (List.mem_singleton_self _), trivial, rfl⟩
    · intro e he hstored
      refine ⟨_, rfl, ?_⟩
      rcases List.mem_append.mp he with he | he
      · exact le_of_lt (hall e he hstored)
      · rw [List.mem_singleton.mp he]
        exact le_refl _
    · exact ⟨fun _ => hnew.mpr (Or.inr hall), fun _ => rfl⟩
  · push Not at hlt
    obtain ⟨l, rfl, hle⟩ := hlt
    obtain ⟨e₀, he₀, hstored₀, heq₀⟩ := h.touched_mem l rfl
    have hclose : Life.close slot (some l) = l := if_neg (not_lt.mpr hle)
    rw [hclose]
    refine ⟨?_, ?_, ?_⟩
    · intro l' hl'
      obtain ⟨e, he, hrest⟩ := h.touched_mem l' hl'
      exact ⟨e, List.mem_append_left _ he, hrest⟩
    · intro e he hstored
      rcases List.mem_append.mp he with he | he
      · exact h.touched_le e he hstored
      · rw [List.mem_singleton.mp he]
        exact ⟨l, rfl, hle⟩
    · rw [h.burnt_iff, hnew]
      refine ⟨Or.inl, fun hor => hor.resolve_right fun hall => ?_⟩
      have := hall e₀ he₀ hstored₀
      omega

/-- **One event.** -/
theorem Seen.next {es : List Event} {o : Option Life} (h : Seen es o) (e : Event) :
    Seen (es ++ [e]) (Life.next o e) := by
  cases e with
  | closure slot => exact h.close slot
  | save kind a slot =>
    rw [Life.next]
    by_cases hfits : a.Fits
    · rw [if_pos hfits]
      exact h.save kind slot hfits
    · rw [if_neg hfits]
      refine ⟨?_, ?_, ?_⟩
      · intro l hl
        obtain ⟨e, he, hrest⟩ := h.touched_mem l hl
        exact ⟨e, List.mem_append_left _ he, hrest⟩
      · intro e he hstored
        rcases List.mem_append.mp he with he | he
        · exact h.touched_le e he hstored
        · rw [List.mem_singleton.mp he] at hstored
          exact absurd hstored hfits
      · rw [h.burnt_iff, closedOnce_append]
        simp

theorem seen_run (es : List Event) : Seen es (Life.run es none) := by
  induction es using List.reverseRecOn with
  | nil => exact seen_nil
  | append_singleton es e ih =>
    rw [Life.run, List.foldl_append]
    exact ih.next e

/-! ### The flag -/

/-- The flag in the asset table. -/
def burntOf (db : Database) (id : Pubkey) : Option Bool := (db.asset.lookup id.bytes).map AssetRow.burnt

theorem burntOf_after (E : MplCore.Env) (id : Pubkey) (es : List Event) {db : Database}
    (hnew : db.asset.lookup id.bytes = none) :
    burntOf (afterAll (Event.handle E id) es db) id = (Life.run es none).map Life.burnt := by
  have hstart : RepresentsOpt (db.asset.lookup id.bytes) none := by
    rw [hnew]
    exact trivial
  have hrep := represents_after E id es hstart
  unfold burntOf
  cases hrow : (afterAll (Event.handle E id) es db).asset.lookup id.bytes with
  | none =>
    rw [hrow] at hrep
    cases hlife : Life.run es none with
    | none => rfl
    | some l => rw [hlife] at hrep; exact hrep.elim
  | some r =>
    rw [hrow] at hrep
    cases hlife : Life.run es none with
    | none => rw [hlife] at hrep; exact hrep.elim
    | some l =>
      rw [hlife] at hrep
      rw [Option.map_some, Option.map_some, hrep.burnt]

/-- **The asset ends burnt exactly when some closure was newer than everything before it.** -/
theorem burnt_run_iff (E : MplCore.Env) (id : Pubkey) (es : List Event) {db : Database}
    (hnew : db.asset.lookup id.bytes = none) :
    burntOf (afterAll (Event.handle E id) es db) id = some true ↔ ClosedOnce es := by
  rw [burntOf_after E id es hnew]
  exact (seen_run es).burnt_iff

/-- The newest event is a closure. -/
def Closed (es : List Event) : Prop := ∃ c, Event.closure c ∈ es ∧ ∀ e ∈ es, e.slot ≤ c

/-- Every handling of a closure comes after a stored event of a slot that is at least as high. -/
def NeverNewest (es : List Event) : Prop :=
  ∀ pre c post, es = pre ++ Event.closure c :: post → ∃ e ∈ pre, e.Stored ∧ c ≤ e.slot

theorem neverNewest_iff {es : List Event} : NeverNewest es ↔ ¬ ClosedOnce es := by
  unfold NeverNewest ClosedOnce
  push Not
  rfl

/-- A closure that is newer than everything is so when it is handled first. -/
theorem closedOnce_of_closed {es : List Event}
    (hslots : ∀ e ∈ es, ∀ e' ∈ es, e.slot = e'.slot → e = e') (h : Closed es) : ClosedOnce es := by
  obtain ⟨c, hc, hmax⟩ := h
  obtain ⟨pre, post, rfl, hpre⟩ := List.eq_append_cons_of_mem hc
  refine ⟨pre, c, post, rfl, ?_⟩
  intro e he _
  refine lt_of_le_of_ne (hmax e (by simp [he])) ?_
  intro heq
  have hsame := hslots e (by simp [he]) (.closure c) (by simp) heq
  exact hpre (hsame ▸ he)

/-- A Core asset saved in a slot. -/
def sampleSave (slot : ℕ) : Event :=
  .save .asset { owner := none, updateAuthority := .none, name := "", uri := "" } slot

end DasIndexer.Accounts.Burnt
