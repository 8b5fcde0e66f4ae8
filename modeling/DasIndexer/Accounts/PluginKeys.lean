import DasIndexer.Accounts.PluginsJson
import DasIndexer.Schema.Documents
import Mathlib.Data.List.Perm.Basic

/-!
# Renaming keys in place

`convertKeysToSnakeCase` takes each key of an object out and puts its value back under the new name, one key
after the other.  Where the new name is there already, its value is replaced and lost.

What is lost is counted exactly: the scalars of the outcome and those of the replaced values together are the
scalars of the input (`leaves_convert`).  **`nothing_lost_iff`** says when nothing is replaced at any depth:
when in every object no key has the new name of an earlier one, as it stands or as its own new name.  For a
conversion that keeps its own outcomes these are the objects whose keys have different new names
(`keysApart_iff`).
-/

namespace DasIndexer.Accounts.PluginsJson

open Json

/-! ### Taking out and putting back -/

/-- A found field stands where the first field of its key stands. -/
theorem get?_eq_some {fields : Fields} {key : String} {value : Json} (h : get? fields key = some value) :
    ∃ front back, fields = front ++ (key, value) :: back ∧ ∀ f ∈ front, f.1 ≠ key := by
  induction fields with
  | nil => cases h
  | cons f fields ih =>
    rw [get?, List.find?_cons] at h
    by_cases hkey : (f.1 == key) = true
    · rw [hkey] at h
      obtain ⟨k, v⟩ := f
      obtain rfl := beq_iff_eq.mp hkey
      obtain rfl := Option.some.inj h
      exact ⟨[], fields, rfl, fun _ hf => nomatch hf⟩
    · rw [Bool.not_eq_true] at hkey
      rw [hkey] at h
      obtain ⟨front, back, rfl, hfront⟩ := ih h
      refine ⟨f :: front, back, rfl, ?_⟩
      intro g hg
      rcases List.mem_cons.mp hg with rfl | hg
      · exact beq_eq_false_iff_ne.mp hkey
      · exact hfront g hg

theorem get?_eq_none {fields : Fields} {key : String} :
    get? fields key = none ↔ key ∉ fields.map Prod.fst := by
  rw [get?, Option.map_eq_none_iff, List.find?_eq_none, List.mem_map]
  constructor
  · rintro h ⟨f, hf, rfl⟩
    exact h f hf (beq_self_eq_true _)
  · intro h f hf hkey
    exact h ⟨f, hf, beq_iff_eq.mp hkey⟩

/-- The first field of a key goes, and the last one takes its place. -/
theorem remove_eq {front back : Fields} {key : String} {value : Json} (hfront : ∀ f ∈ front, f.1 ≠ key) :
    remove (front ++ (key, value) :: back) key
      = match back.getLast? with
        | some last => front ++ last :: back.dropLast
        | none => front := by
  have hindex : (front ++ (key, value) :: back).findIdx? (fun f => f.1 == key) = some front.length := by
    rw [List.findIdx?_append, List.findIdx?_eq_none_iff.mpr fun f hf => beq_eq_false_iff_ne.mpr (hfront f hf),
      List.findIdx?_cons]
    simp
  cases back with
  | nil =>
    have hlast : (front ++ [(key, value)]).getLast? = some (key, value) := List.getLast?_concat
    simp [remove, hindex, hlast]
  | cons g back =>
    obtain ⟨last, hback⟩ : ∃ last, (g :: back).getLast? = some last :=
      ⟨_, List.getLast?_eq_some_getLast (List.cons_ne_nil g back)⟩
    have hlast : (front ++ (key, value) :: g :: back).getLast? = (g :: back).getLast? := by
      rw [List.getLast?_append_cons, List.getLast?_cons_cons]
    simp only [remove, hindex, hlast, hback]
    rw [List.set_append_right _ _ (le_refl _), Nat.sub_self, List.set_cons_zero,
      List.dropLast_append_of_ne_nil (by simp), List.dropLast_cons_of_ne_nil (List.cons_ne_nil g back)]

/-- Taking a field out leaves the others. -/
theorem remove_perm {fields : Fields} {key : String} {value : Json} (h : get? fields key = some value) :
    fields.Perm ((key, value) :: remove fields key) := by
  obtain ⟨front, back, rfl, hfront⟩ := get?_eq_some h
  rw [remove_eq hfront]
  refine List.perm_middle.trans (List.Perm.cons _ ?_)
  cases hlast : back.getLast? with
  | none =>
    obtain rfl := List.getLast?_eq_none_iff.mp hlast
    rw [List.append_nil]
  | some last =>
    obtain ⟨init, rfl⟩ := List.getLast?_eq_some_iff.mp hlast
    rw [List.dropLast_concat]
    exact List.Perm.append_left _ (List.perm_append_singleton _ _)

/-- A new key goes to the end. -/
theorem insert_of_absent {fields : Fields} {key : String} (value : Json) (h : get? fields key = none) :
    insert fields key value = fields ++ [(key, value)] := by
  have hany : ¬ (fields.any fun f => f.1 == key) = true := by
    intro hany
    obtain ⟨f, hf, hkey⟩ := List.any_eq_true.mp hany
    exact get?_eq_none.mp h (List.mem_map.mpr ⟨f, hf, beq_iff_eq.mp hkey⟩)
  rw [insert, if_neg hany]

/-- A present key keeps its place, and its value goes. -/
theorem insert_of_present {fields : Fields} {key : String} (value : Json) {old : Json}
    (h : get? fields key = some old) (hkeys : (fields.map Prod.fst).Nodup) :
    (insert fields key value).Perm ((key, value) :: remove fields key) := by
  obtain ⟨front, back, rfl, hfront⟩ := get?_eq_some h
  have hback : ∀ f ∈ back, f.1 ≠ key := by
    rw [List.map_append, List.map_cons] at hkeys
    intro f hf heq
    exact (List.nodup_cons.mp (List.nodup_append.mp hkeys).2.1).1 (List.mem_map.mpr ⟨f, hf, heq⟩)
  have hkeep : ∀ fields : Fields, (∀ f ∈ fields, f.1 ≠ key) →
      fields.map (fun f => if f.1 == key then (key, value) else f) = fields := by
    intro fields hne
    conv_rhs => rw [← List.map_id fields]
    exact List.map_congr_left fun f hf => if_neg (by simpa using hne f hf)
  have hinsert : insert (front ++ (key, old) :: back) key value = front ++ (key, value) :: back := by
    rw [insert, if_pos (by simp), List.map_append, List.map_cons, hkeep front hfront, hkeep back hback]
    simp
  rw [hinsert]
  refine List.perm_middle.trans (List.Perm.cons _ ?_)
  exact List.perm_cons _ |>.mp (List.perm_middle.symm.trans (remove_perm h))

/-! ### The renaming loop -/

section Renaming

variable (toSnakeCase : String → String)

/-- One round of the loop. -/
def renameStep (acc : Fields) (key : String) : Fields :=
  match get? acc key with
  | some value => insert (remove acc key) (toSnakeCase key) value
  | none => acc

/-- The value that a round replaces. -/
def replaced (acc : Fields) (key : String) : Option Json :=
  match get? acc key with
  | some _ => get? (remove acc key) (toSnakeCase key)
  | none => none

/-- The values that the rounds replace, one key after the other. -/
def overwritten : List String → Fields → List Json
  | [], _ => []
  | key :: keys, acc =>
    (replaced toSnakeCase acc key).toList ++ overwritten keys (renameStep toSnakeCase acc key)

theorem renameKeys_eq (fields : Fields) :
    renameKeys toSnakeCase fields = (fields.map Prod.fst).foldl (renameStep toSnakeCase) fields := by
  rw [List.foldl_map]
  rfl

/-- A round that finds its key: what is there before and after, and what is replaced. -/
theorem renameStep_spec {acc : Fields} {key : String} {value : Json} (hget : get? acc key = some value)
    (hkeys : (acc.map Prod.fst).Nodup) :
    ∃ rest, acc.Perm ((key, value) :: rest) ∧ replaced toSnakeCase acc key = get? rest (toSnakeCase key) ∧
      ((replaced toSnakeCase acc key = none ∧
          (renameStep toSnakeCase acc key).Perm ((toSnakeCase key, value) :: rest)) ∨
        ∃ old kept, replaced toSnakeCase acc key = some old ∧ rest.Perm ((toSnakeCase key, old) :: kept) ∧
          (renameStep toSnakeCase acc key).Perm ((toSnakeCase key, value) :: kept)) := by
  have hperm := remove_perm hget
  have hreplaced : replaced toSnakeCase acc key = get? (remove acc key) (toSnakeCase key) := by
    rw [replaced, hget]
  have hstep : renameStep toSnakeCase acc key = insert (remove acc key) (toSnakeCase key) value := by
    rw [renameStep, hget]
  refine ⟨remove acc key, hperm, hreplaced, ?_⟩
  rw [hreplaced, hstep]
  have hrest : ((remove acc key).map Prod.fst).Nodup :=
    (List.nodup_cons.mp ((hperm.map Prod.fst).nodup_iff.mp hkeys)).2
  cases hold : get? (remove acc key) (toSnakeCase key) with
  | none =>
    refine Or.inl ⟨rfl, ?_⟩
    rw [insert_of_absent value hold]
    exact List.perm_append_singleton _ _
  | some old => exact Or.inr ⟨old, _, rfl, remove_perm hold, insert_of_present value hold hrest⟩

variable {toSnakeCase}

/-- A round keeps the keys apart. -/
theorem renameStep_nodup {acc : Fields} (key : String) (hkeys : (acc.map Prod.fst).Nodup) :
    ((renameStep toSnakeCase acc key).map Prod.fst).Nodup := by
  cases hget : get? acc key with
  | none =>
    rw [renameStep, hget]
    exact hkeys
  | some value =>
    obtain ⟨rest, hperm, hreplaced, hcases⟩ := renameStep_spec toSnakeCase hget hkeys
    have hrest := List.nodup_cons.mp ((hperm.map Prod.fst).nodup_iff.mp hkeys)
    rcases hcases with ⟨hnone, hstep⟩ | ⟨old, kept, _, hkept, hstep⟩
    · refine (hstep.map Prod.fst).nodup_iff.mpr (List.nodup_cons.mpr ⟨?_, hrest.2⟩)
      exact get?_eq_none.mp (hreplaced.symm.trans hnone)
    · exact (hstep.map Prod.fst).nodup_iff.mpr ((hkept.map Prod.fst).nodup_iff.mp hrest.2)

/-- What a round leaves and what it replaces count together what was there. -/
theorem renameStep_total {M : Type} [AddCommMonoid M] (count : Json → M) {acc : Fields} (key : String)
    (hkeys : (acc.map Prod.fst).Nodup) :
    ((renameStep toSnakeCase acc key).map fun f => count f.2).sum
        + ((replaced toSnakeCase acc key).toList.map count).sum
      = (acc.map fun f => count f.2).sum := by
  cases hget : get? acc key with
  | none =>
    simp only [renameStep, replaced, hget]
    exact add_zero _
  | some value =>
    obtain ⟨rest, hperm, _, hcases⟩ := renameStep_spec toSnakeCase hget hkeys
    rw [(hperm.map fun f => count f.2).sum_eq]
    rcases hcases with ⟨hnone, hstep⟩ | ⟨old, kept, hold, hkept, hstep⟩
    · rw [(hstep.map fun f => count f.2).sum_eq, hnone]
      exact add_zero _
    · rw [(hstep.map fun f => count f.2).sum_eq, hold, List.map_cons, List.map_cons, List.sum_cons,
        List.sum_cons, (hkept.map fun f => count f.2).sum_eq, List.map_cons, List.sum_cons, add_assoc]
      refine congrArg (count value + ·) ?_
      simp [add_comm]

/-- So do all rounds together. -/
theorem renameSteps_total {M : Type} [AddCommMonoid M] (count : Json → M) (keys : List String) {acc : Fields}
    (hkeys : (acc.map Prod.fst).Nodup) :
    ((keys.foldl (renameStep toSnakeCase) acc).map fun f => count f.2).sum
        + ((overwritten toSnakeCase keys acc).map count).sum
      = (acc.map fun f => count f.2).sum := by
  induction keys generalizing acc with
  | nil => exact add_zero _
  | cons key keys ih =>
    rw [List.foldl_cons, overwritten, List.map_append, List.sum_append, add_left_comm,
      ih (renameStep_nodup key hkeys), add_comm]
    exact renameStep_total count key hkeys

/-- A round moves values and makes none. -/
theorem renameStep_values {acc : Fields} (key : String) (hkeys : (acc.map Prod.fst).Nodup) :
    ∀ f ∈ renameStep toSnakeCase acc key, ∃ g ∈ acc, f.2 = g.2 := by
  cases hget : get? acc key with
  | none =>
    rw [renameStep, hget]
    exact fun f hf => ⟨f, hf, rfl⟩
  | some value =>
    obtain ⟨rest, hperm, _, hcases⟩ := renameStep_spec toSnakeCase hget hkeys
    have hmoved : ∀ kept : Fields, kept ⊆ rest →
        ∀ f ∈ (toSnakeCase key, value) :: kept, ∃ g ∈ acc, f.2 = g.2 := by
      intro kept hkept f hf
      rcases List.mem_cons.mp hf with rfl | hf
      · exact ⟨(key, value), hperm.mem_iff.mpr List.mem_cons_self, rfl⟩
      · exact ⟨f, hperm.mem_iff.mpr (List.mem_cons_of_mem _ (hkept hf)), rfl⟩
    rcases hcases with ⟨_, hstep⟩ | ⟨old, kept, _, hkept, hstep⟩
    · exact fun f hf => hmoved rest (List.Subset.refl _) f (hstep.mem_iff.mp hf)
    · have hsub : kept ⊆ rest := fun g hg => hkept.mem_iff.mpr (List.mem_cons_of_mem _ hg)
      exact fun f hf => hmoved kept hsub f (hstep.mem_iff.mp hf)

variable (toSnakeCase) in
/-- The loop leaves an object with different keys, of values that were there. -/
theorem renameKeys_spec {fields : Fields} (hkeys : (fields.map Prod.fst).Nodup) :
    ((renameKeys toSnakeCase fields).map Prod.fst).Nodup ∧
      ∀ f ∈ renameKeys toSnakeCase fields, ∃ g ∈ fields, f.2 = g.2 := by
  rw [renameKeys_eq]
  generalize fields.map Prod.fst = keys
  induction keys generalizing fields with
  | nil => exact ⟨hkeys, fun f hf => ⟨f, hf, rfl⟩⟩
  | cons key keys ih =>
    obtain ⟨hnodup, hvalues⟩ := ih (renameStep_nodup key hkeys)
    refine ⟨hnodup, fun f hf => ?_⟩
    obtain ⟨g, hg, heq⟩ := hvalues f hf
    obtain ⟨g', hg', heq'⟩ := renameStep_values key hkeys g hg
    exact ⟨g', hg', heq.trans heq'⟩

/-- A key does not get the new name of a later one, nor its old one. -/
def Apart (toSnakeCase : String → String) (a b : String) : Prop :=
  toSnakeCase a ≠ toSnakeCase b ∧ toSnakeCase a ≠ b

/-- Rounds over `keys`, when the names in `done` are there already, replace nothing if the keys are apart and
no new name is one of these. -/
theorem overwritten_eq_nil_iff (keys done : List String) {acc : Fields}
    (hkeys : (acc.map Prod.fst).Nodup) (hperm : (acc.map Prod.fst).Perm (done ++ keys)) :
    overwritten toSnakeCase keys acc = [] ↔
      keys.Pairwise (Apart toSnakeCase) ∧ ∀ key ∈ keys, toSnakeCase key ∉ done := by
  induction keys generalizing acc done with
  | nil => simp [overwritten]
  | cons key keys ih =>
    obtain ⟨value, hget⟩ : ∃ value, get? acc key = some value := by
      refine Option.ne_none_iff_exists'.mp fun hnone => get?_eq_none.mp hnone ?_
      exact hperm.mem_iff.mpr (List.mem_append_right _ List.mem_cons_self)
    obtain ⟨rest, hacc, hreplaced, hcases⟩ := renameStep_spec toSnakeCase hget hkeys
    -- what stands beside the key in this round: the new names so far and the old names to come
    have hrest : (rest.map Prod.fst).Perm (done ++ keys) := by
      have hboth := (hacc.map Prod.fst).symm.trans (hperm.trans List.perm_middle)
      exact (List.perm_cons key).mp hboth
    have hnone : replaced toSnakeCase acc key = none ↔ toSnakeCase key ∉ done ∧ toSnakeCase key ∉ keys := by
      rw [hreplaced, get?_eq_none, hrest.mem_iff, List.mem_append, not_or]
    rw [overwritten, List.append_eq_nil_iff, Option.toList_eq_nil_iff, hnone, List.pairwise_cons,
      List.forall_mem_cons]
    by_cases hfresh : toSnakeCase key ∉ done ∧ toSnakeCase key ∉ keys
    · have hstep : (renameStep toSnakeCase acc key).Perm ((toSnakeCase key, value) :: rest) := by
        rcases hcases with ⟨_, hstep⟩ | ⟨old, kept, hold, _⟩
        · exact hstep
        · rw [hnone.mpr hfresh] at hold
          cases hold
      have hnames := (hstep.map Prod.fst).trans (hrest.cons (toSnakeCase key))
      rw [ih (toSnakeCase key :: done) (renameStep_nodup key hkeys) hnames]
      have hapart : (∀ b ∈ keys, Apart toSnakeCase key b) ↔ ∀ b ∈ keys, toSnakeCase b ≠ toSnakeCase key := by
        refine forall₂_congr fun b hb => ⟨fun h => h.1.symm, fun h => ⟨h.symm, ?_⟩⟩
        rintro rfl
        exact hfresh.2 hb
      simp only [hapart, hfresh, List.mem_cons, not_or, not_false_eq_true, true_and, and_true, forall_and,
        ne_eq]
      tauto
    · refine iff_of_false (fun h => hfresh h.1) fun ⟨⟨hapart, _⟩, hdone, _⟩ => hfresh ⟨hdone, fun hmem => ?_⟩
      exact (hapart _ hmem).2 rfl

end Renaming

/-! ### The conversion -/

/-- A value that `serde_json` can hold: the keys of an object are different. -/
def DistinctKeys : Json → Prop := Everywhere fun fields => (fields.map Prod.fst).Nodup

/-- The scalars of a document. -/
def leaves : Json → Multiset Json := total (fun v => {v}) fun _ => 0

section Conversion

variable (toSnakeCase : String → String)

/-- The values that the renaming of an object's keys replaces. -/
def overwrittenIn (fields : Fields) : List Json :=
  overwritten toSnakeCase (fields.map Prod.fst) (convertFields toSnakeCase fields)

/-- No renaming replaces a value, at any depth. -/
def NeverOverwrites : Json → Prop := Everywhere fun fields => overwrittenIn toSnakeCase fields = []

/-- In every object no key gets the new name of a later one, nor its old one. -/
def KeysApart : Json → Prop := Everywhere fun fields => (fields.map Prod.fst).Pairwise (Apart toSnakeCase)

/-- The scalars that are replaced, at any depth. -/
def lost : Json → Multiset Json :=
  total (fun _ => 0) fun fields => ((overwrittenIn toSnakeCase fields).map leaves).sum

theorem convertFields_eq (fields : Fields) :
    convertFields toSnakeCase fields = fields.map fun f => (f.1, convertKeysToSnakeCase toSnakeCase f.2) := by
  induction fields with
  | nil => rfl
  | cons f fields ih => rw [convertFields, ih, List.map_cons]

theorem convertValues_eq (values : List Json) :
    convertValues toSnakeCase values = values.map (convertKeysToSnakeCase toSnakeCase) := by
  induction values with
  | nil => rfl
  | cons v values ih => rw [convertValues, ih, List.map_cons]

theorem keys_convertFields (fields : Fields) :
    (convertFields toSnakeCase fields).map Prod.fst = fields.map Prod.fst := by
  rw [convertFields_eq, List.map_map]
  rfl

theorem convert_scalar {v : Json} (hobj : ∀ fields, v ≠ .obj fields) (harr : ∀ values, v ≠ .arr values) :
    convertKeysToSnakeCase toSnakeCase v = v ∧ lost toSnakeCase v = 0 := by
  cases v with
  | obj fields => exact absurd rfl (hobj fields)
  | arr values => exact absurd rfl (harr values)
  | _ => exact ⟨rfl, rfl⟩

/-- What comes out is a document again. -/
theorem convert_distinctKeys (v : Json) (h : DistinctKeys v) :
    DistinctKeys (convertKeysToSnakeCase toSnakeCase v) := by
  induction v using document_induction with
  | scalar v hobj harr =>
    rw [(convert_scalar toSnakeCase hobj harr).1]
    exact h
  | obj fields ih =>
    obtain ⟨hkeys, hvalues⟩ := (everywhere_obj _ _).mp h
    have hconverted : ((convertFields toSnakeCase fields).map Prod.fst).Nodup := by
      rw [keys_convertFields]
      exact hkeys
    obtain ⟨hrenamed, hmoved⟩ := renameKeys_spec toSnakeCase hconverted
    refine (everywhere_obj _ _).mpr ⟨hrenamed, fun f hf => ?_⟩
    obtain ⟨g, hg, heq⟩ := hmoved f hf
    rw [convertFields_eq] at hg
    obtain ⟨e, he, rfl⟩ := List.mem_map.mp hg
    rw [heq]
    exact ih e he (hvalues e he)
  | arr values ih =>
    have hvalues := (everywhere_arr _ _).mp h
    rw [convertKeysToSnakeCase, DistinctKeys, everywhere_arr, convertValues_eq]
    intro v hv
    obtain ⟨w, hw, rfl⟩ := List.mem_map.mp hv
    exact ih w hw (hvalues w hw)

/-- The renaming of one object keeps and replaces together what its converted values are. -/
theorem sum_renameKeys {fields : Fields} (hkeys : (fields.map Prod.fst).Nodup) :
    ((renameKeys toSnakeCase (convertFields toSnakeCase fields)).map fun f => leaves f.2).sum
        + ((overwrittenIn toSnakeCase fields).map leaves).sum
      = (fields.map fun f => leaves (convertKeysToSnakeCase toSnakeCase f.2)).sum := by
  have hconverted : ((convertFields toSnakeCase fields).map Prod.fst).Nodup := by
    rw [keys_convertFields]
    exact hkeys
  rw [renameKeys_eq, overwrittenIn, ← keys_convertFields toSnakeCase fields,
    renameSteps_total leaves _ hconverted, convertFields_eq, List.map_map]
  rfl

/-- **The scalars of the outcome and those that were replaced are the scalars of the input.** -/
theorem leaves_convert (v : Json) (h : DistinctKeys v) :
    leaves (convertKeysToSnakeCase toSnakeCase v) + lost toSnakeCase v = leaves v := by
  induction v using document_induction with
  | scalar v hobj harr =>
    obtain ⟨hconvert, hlost⟩ := convert_scalar toSnakeCase hobj harr
    rw [hconvert, hlost, add_zero]
  | obj fields ih =>
    obtain ⟨hkeys, hvalues⟩ := (everywhere_obj _ _).mp h
    have hconvert : leaves (convertKeysToSnakeCase toSnakeCase (.obj fields))
        = ((renameKeys toSnakeCase (convertFields toSnakeCase fields)).map fun f => leaves f.2).sum := by
      rw [convertKeysToSnakeCase, leaves, total_obj, zero_add]
    have hleaves : leaves (.obj fields) = (fields.map fun f => leaves f.2).sum := by
      rw [leaves, total_obj, zero_add]
    rw [hconvert, hleaves, lost, total_obj, ← add_assoc, sum_renameKeys toSnakeCase hkeys, ← List.sum_map_add]
    exact congrArg List.sum (List.map_congr_left fun f hf => ih f hf (hvalues f hf))
  | arr values ih =>
    have hvalues := (everywhere_arr _ _).mp h
    have hconvert : leaves (convertKeysToSnakeCase toSnakeCase (.arr values))
        = (values.map fun v => leaves (convertKeysToSnakeCase toSnakeCase v)).sum := by
      rw [convertKeysToSnakeCase, leaves, total_arr, convertValues_eq, List.map_map]
      rfl
    rw [hconvert, lost, total_arr, ← List.sum_map_add, leaves, total_arr]
    exact congrArg List.sum (List.map_congr_left fun v hv => ih v hv (hvalues v hv))

/-- Where no value is replaced none is lost. -/
theorem lost_eq_zero {v : Json} (h : NeverOverwrites toSnakeCase v) : lost toSnakeCase v = 0 := by
  induction v using document_induction with
  | scalar v hobj harr => exact (convert_scalar toSnakeCase hobj harr).2
  | obj fields ih =>
    obtain ⟨hnone, hvalues⟩ := (everywhere_obj _ _).mp h
    rw [lost, total_obj, hnone, List.map_nil, List.sum_nil, zero_add]
    refine List.sum_eq_zero fun x hx => ?_
    obtain ⟨f, hf, rfl⟩ := List.mem_map.mp hx
    exact ih f hf (hvalues f hf)
  | arr values ih =>
    have hvalues := (everywhere_arr _ _).mp h
    rw [lost, total_arr]
    refine List.sum_eq_zero fun x hx => ?_
    obtain ⟨v, hv, rfl⟩ := List.mem_map.mp hx
    exact ih v hv (hvalues v hv)

/-- One object loses no value exactly when its keys are apart. -/
theorem overwrittenIn_eq_nil_iff {fields : Fields} (hkeys : (fields.map Prod.fst).Nodup) :
    overwrittenIn toSnakeCase fields = [] ↔ (fields.map Prod.fst).Pairwise (Apart toSnakeCase) := by
  have hconverted : ((convertFields toSnakeCase fields).map Prod.fst).Nodup := by
    rw [keys_convertFields]
    exact hkeys
  rw [overwrittenIn, overwritten_eq_nil_iff (fields.map Prod.fst) [] hconverted
    (by rw [keys_convertFields, List.nil_append])]
  simp

theorem neverOverwrites_iff (v : Json) (h : DistinctKeys v) :
    NeverOverwrites toSnakeCase v ↔ KeysApart toSnakeCase v := by
  induction v using document_induction with
  | scalar v hobj harr =>
    cases v with
    | obj fields => exact absurd rfl (hobj fields)
    | arr values => exact absurd rfl (harr values)
    | _ => exact Iff.rfl
  | obj fields ih =>
    obtain ⟨hkeys, hvalues⟩ := (everywhere_obj _ _).mp h
    rw [NeverOverwrites, KeysApart, everywhere_obj, everywhere_obj]
    exact and_congr (overwrittenIn_eq_nil_iff toSnakeCase hkeys)
      (forall₂_congr fun f hf => ih f hf (hvalues f hf))
  | arr values ih =>
    have hvalues := (everywhere_arr _ _).mp h
    rw [NeverOverwrites, KeysApart, everywhere_arr, everywhere_arr]
    exact forall₂_congr fun v hv => ih v hv (hvalues v hv)

/-- **When nothing is lost**: the outcome has the scalars of the input and no renaming replaces a value,
exactly when in every object no key gets the new name of a later one, nor its old one. -/
theorem nothing_lost_iff (v : Json) (h : DistinctKeys v) :
    leaves (convertKeysToSnakeCase toSnakeCase v) = leaves v ∧ NeverOverwrites toSnakeCase v ↔
      KeysApart toSnakeCase v := by
  rw [neverOverwrites_iff toSnakeCase v h, and_iff_right_iff_imp]
  intro hapart
  have hsum := leaves_convert toSnakeCase v h
  rw [lost_eq_zero toSnakeCase ((neverOverwrites_iff toSnakeCase v h).mpr hapart), add_zero] at hsum
  exact hsum

/-- For a conversion that keeps its own outcomes the new names alone count. -/
theorem apart_iff (hkeep : ∀ key, toSnakeCase (toSnakeCase key) = toSnakeCase key) (a b : String) :
    Apart toSnakeCase a b ↔ toSnakeCase a ≠ toSnakeCase b := by
  refine ⟨And.left, fun h => ⟨h, ?_⟩⟩
  rintro rfl
  exact h (hkeep a).symm

theorem keysApart_iff (hkeep : ∀ key, toSnakeCase (toSnakeCase key) = toSnakeCase key) (v : Json) :
    KeysApart toSnakeCase v ↔
      Everywhere (fun fields => (fields.map fun f => toSnakeCase f.1).Nodup) v := by
  have hp : (fun fields : Fields => (fields.map Prod.fst).Pairwise (Apart toSnakeCase))
      = fun fields => (fields.map fun f => toSnakeCase f.1).Nodup := by
    funext fields
    rw [List.pairwise_map, List.Nodup, List.pairwise_map, eq_iff_iff]
    refine List.Pairwise.iff ?_
    intro a b
    exact apart_iff toSnakeCase hkeep a.1 b.1
  rw [KeysApart, hp]

end Conversion

/-- The conversion of the keys of a sample. -/
def sampleSnakeCase (key : String) : String := if key = "aB" then "a_b" else key

/-- An object inside an array, with keys of different new names. -/
theorem sample_keeps_scalars :
    let v : Json := .arr [.obj [("aB", .num 1), ("c", .num 2)]]
    leaves (convertKeysToSnakeCase sampleSnakeCase v) = leaves v ∧ NeverOverwrites sampleSnakeCase v := by
  intro v
  refine (nothing_lost_iff sampleSnakeCase v ?_).mpr ?_
  · rw [DistinctKeys, everywhere_arr]
    simp [Everywhere, EverywhereFields]
  · rw [KeysApart, everywhere_arr]
    simp [Everywhere, EverywhereFields, Apart, sampleSnakeCase]

/-- Two spellings of one name: the second value is gone. -/
theorem two_spellings_lose_a_scalar :
    let v : Json := .obj [("aB", .num 1), ("a_b", .num 2)]
    convertKeysToSnakeCase sampleSnakeCase v = .obj [("a_b", .num 1)] ∧ DistinctKeys v ∧
      ¬ (leaves (convertKeysToSnakeCase sampleSnakeCase v) = leaves v ∧
        NeverOverwrites sampleSnakeCase v) := by
  intro v
  have hconvert : convertKeysToSnakeCase sampleSnakeCase v = .obj [("a_b", .num 1)] := by rfl
  have hkeys : DistinctKeys v := by
    rw [DistinctKeys, everywhere_obj]
    simp [Everywhere]
  refine ⟨hconvert, hkeys, fun hkept => ?_⟩
  have hcard := congrArg Multiset.card hkept.1
  rw [hconvert] at hcard
  simp [leaves, total, totalFields, v] at hcard

end DasIndexer.Accounts.PluginsJson
