import Mathlib.Data.List.Induction
import Mathlib.Data.List.Nodup
import Mathlib.Tactic.Common

/-!
# Maps that keep the order of insertion

A map with unique keys whose entries stand in the order in which their keys came in: inserting a key that
is there replaces its value and keeps its place.  A program that assembles records from several queries
holds them in such a map, and pushes each row of a query to the record it belongs to.

**`pushAll_eq`** says what such a loop does: each record gets its own rows, in the order of the query, and
nothing else.  `mem_collect` says what building the map from a list gives, where entries of the same key
agree.
-/

/-- A map in order of insertion. -/
@[ext] structure IndexMap (K V : Type) where
  entries : List (K × V)
  nodup : (entries.map Prod.fst).Nodup

namespace IndexMap

variable {K V R α : Type} [DecidableEq K]

/-- The empty map. -/
def empty : IndexMap K V := ⟨[], List.nodup_nil⟩

def keys (m : IndexMap K V) : List K := m.entries.map Prod.fst

def values (m : IndexMap K V) : List V := m.entries.map Prod.snd

/-- Change every value, with its key at hand. -/
def mapValues (f : K → V → V) (m : IndexMap K V) : IndexMap K V where
  entries := m.entries.map fun e => (e.1, f e.1 e.2)
  nodup := by
    rw [List.map_map]
    exact m.nodup

/-- `get_mut`, and a change of what it finds. -/
def modify (m : IndexMap K V) (k : K) (f : V → V) : IndexMap K V :=
  m.mapValues fun k' v => if k' = k then f v else v

/-- The value under a key. -/
def get (m : IndexMap K V) (k : K) : Option V :=
  (m.entries.find? fun e => decide (e.1 = k)).map Prod.snd

/-- Insert at the end, or in place of the value that is there. -/
def insert (m : IndexMap K V) (k : K) (v : V) : IndexMap K V :=
  if h : k ∈ m.keys then m.modify k fun _ => v
  else
    { entries := m.entries ++ [(k, v)]
      nodup := by
        rw [List.map_append, List.nodup_append]
        refine ⟨m.nodup, List.nodup_singleton _, ?_⟩
        intro a ha b hb hab
        have hb' : b = k := List.mem_singleton.mp hb
        rw [hab, hb'] at ha
        exact h ha }

/-- Keep the entries that pass a test. -/
def retain (p : K → V → Bool) (m : IndexMap K V) : IndexMap K V where
  entries := m.entries.filter fun e => p e.1 e.2
  nodup := m.nodup.sublist (List.filter_sublist.map _)

/-- Insert what a function makes of each element, where it makes something. -/
def collect (f : α → Option (K × V)) (as : List α) : IndexMap K V :=
  as.foldl (fun m a => match f a with
    | some (k, v) => m.insert k v
    | none => m) empty

/-- A loop over rows: each row is pushed to the record under its key, where there is one. -/
def pushAll (key : R → K) (push : V → R → V) (rows : List R) (m : IndexMap K V) : IndexMap K V :=
  rows.foldl (fun m r => m.modify (key r) fun v => push v r) m

/-! ### Entries -/

omit [DecidableEq K] in
@[simp] theorem entries_mapValues (f : K → V → V) (m : IndexMap K V) :
    (m.mapValues f).entries = m.entries.map fun e => (e.1, f e.1 e.2) := rfl

omit [DecidableEq K] in
@[simp] theorem entries_retain (p : K → V → Bool) (m : IndexMap K V) :
    (m.retain p).entries = m.entries.filter fun e => p e.1 e.2 := rfl

omit [DecidableEq K] in
@[simp] theorem keys_mapValues (f : K → V → V) (m : IndexMap K V) : (m.mapValues f).keys = m.keys := by
  simp [keys, Function.comp_def]

omit [DecidableEq K] in
theorem mapValues_mapValues (f g : K → V → V) (m : IndexMap K V) :
    (m.mapValues f).mapValues g = m.mapValues fun k v => g k (f k v) := by
  ext1
  simp [Function.comp_def]

omit [DecidableEq K] in
theorem mapValues_congr {f g : K → V → V} {m : IndexMap K V}
    (h : ∀ k v, (k, v) ∈ m.entries → f k v = g k v) : m.mapValues f = m.mapValues g := by
  ext1
  refine List.map_congr_left fun e he => ?_
  rw [h e.1 e.2 he]

omit [DecidableEq K] in
theorem mapValues_id (m : IndexMap K V) : (m.mapValues fun _ v => v) = m := by
  ext1
  simp

omit [DecidableEq K] in
theorem mem_mapValues {f : K → V → V} {m : IndexMap K V} {k : K} {v : V} :
    (k, v) ∈ (m.mapValues f).entries ↔ ∃ v₀, (k, v₀) ∈ m.entries ∧ v = f k v₀ := by
  rw [entries_mapValues, List.mem_map]
  constructor
  · intro ⟨e, he, heq⟩
    obtain ⟨rfl, rfl⟩ := Prod.mk.inj heq
    exact ⟨e.2, he, rfl⟩
  · rintro ⟨v₀, h, rfl⟩
    exact ⟨(k, v₀), h, rfl⟩

omit [DecidableEq K] in
theorem mem_values_mapValues {f : K → V → V} {m : IndexMap K V} {v : V} :
    v ∈ (m.mapValues f).values ↔ ∃ k v₀, (k, v₀) ∈ m.entries ∧ v = f k v₀ := by
  simp [values, eq_comm]

omit [DecidableEq K] in
theorem mem_keys {m : IndexMap K V} {k : K} : k ∈ m.keys ↔ ∃ v, (k, v) ∈ m.entries := by
  simp [keys]

omit [DecidableEq K] in
/-- A key has one value. -/
theorem value_unique {m : IndexMap K V} {k : K} {v v' : V} (h : (k, v) ∈ m.entries)
    (h' : (k, v') ∈ m.entries) : v = v' :=
  congrArg Prod.snd (List.inj_on_of_nodup_map m.nodup h h' rfl)

theorem mem_of_get {m : IndexMap K V} {k : K} {v : V} (h : m.get k = some v) :
    (k, v) ∈ m.entries := by
  obtain ⟨⟨k', v'⟩, hfind, rfl⟩ := Option.map_eq_some_iff.mp h
  have hk : decide (k' = k) = true := by
    have hsome := List.find?_some hfind
    exact hsome
  obtain rfl := of_decide_eq_true hk
  exact List.mem_of_find?_eq_some hfind

theorem get_eq_some_iff {m : IndexMap K V} {k : K} {v : V} :
    m.get k = some v ↔ (k, v) ∈ m.entries := by
  refine ⟨mem_of_get, fun h => ?_⟩
  cases hget : m.get k with
  | none =>
    have hnone := List.find?_eq_none.mp (Option.map_eq_none_iff.mp hget) _ h
    exact absurd (decide_eq_true rfl) hnone
  | some v' => rw [value_unique (mem_of_get hget) h]

theorem mem_insert {m : IndexMap K V} {k k' : K} {v v' : V} :
    (k', v') ∈ (m.insert k v).entries ↔ (k' = k ∧ v' = v) ∨ (k' ≠ k ∧ (k', v') ∈ m.entries) := by
  unfold insert
  split
  · rename_i hk
    obtain ⟨v₀, hv₀⟩ := mem_keys.mp hk
    simp only [modify, entries_mapValues, List.mem_map, Prod.exists, Prod.mk.injEq]
    constructor
    · rintro ⟨a, b, hab, rfl, hb⟩
      by_cases ha : a = k
      · rw [if_pos ha] at hb
        exact Or.inl ⟨ha, hb.symm⟩
      · rw [if_neg ha] at hb
        exact Or.inr ⟨ha, hb ▸ hab⟩
    · rintro (⟨rfl, rfl⟩ | ⟨hne, hmem⟩)
      · exact ⟨k', v₀, hv₀, rfl, if_pos rfl⟩
      · exact ⟨k', v', hmem, rfl, if_neg hne⟩
  · rename_i hk
    have hfresh : ∀ v', (k, v') ∉ m.entries := fun v' h => hk (mem_keys.mpr ⟨v', h⟩)
    simp only [List.mem_append, List.mem_singleton, Prod.mk.injEq]
    constructor
    · rintro (hmem | h)
      · exact Or.inr ⟨fun heq => hfresh v' (heq ▸ hmem), hmem⟩
      · exact Or.inl h
    · rintro (h | ⟨_, hmem⟩)
      · exact Or.inr h
      · exact Or.inl hmem

theorem collect_concat (f : α → Option (K × V)) (as : List α) (a : α) :
    collect f (as ++ [a]) = match f a with
      | some (k, v) => (collect f as).insert k v
      | none => collect f as := by
  rw [collect, List.foldl_append]
  rfl

/-- The entries of a collected map, where elements with the same key make the same value. -/
theorem mem_collect {f : α → Option (K × V)} {as : List α}
    (hsame : ∀ a ∈ as, ∀ b ∈ as, ∀ k v v', f a = some (k, v) → f b = some (k, v') → v = v')
    {k : K} {v : V} : (k, v) ∈ (collect f as).entries ↔ ∃ a ∈ as, f a = some (k, v) := by
  -- the induction is on the end of the list, where the last insertion stands
  induction as using List.reverseRecOn with
  | nil => simp [collect, empty]
  | append_singleton as a ih =>
    have ih' := ih fun x hx y hy => hsame x (List.mem_append_left _ hx) y (List.mem_append_left _ hy)
    rw [collect_concat]
    simp only [List.mem_append, List.mem_singleton, or_and_right, exists_or, exists_eq_left]
    cases ha : f a with
    | none => simp [ih']
    | some e =>
      obtain ⟨k₀, v₀⟩ := e
      simp only [mem_insert, ih', Option.some.injEq, Prod.mk.injEq]
      constructor
      · rintro (⟨rfl, rfl⟩ | ⟨_, hold⟩)
        · exact Or.inr ⟨rfl, rfl⟩
        · exact Or.inl hold
      · rintro (⟨b, hb, hfb⟩ | ⟨rfl, rfl⟩)
        · by_cases hk : k = k₀
          · subst hk
            exact Or.inl ⟨rfl, hsame b (List.mem_append_left _ hb) a (by simp) k v v₀ hfb ha⟩
          · exact Or.inr ⟨hk, b, hb, hfb⟩
        · exact Or.inl ⟨rfl, rfl⟩

/-- The keys of a collected map. -/
theorem mem_keys_collect {f : α → Option (K × V)} {as : List α} {k : K} :
    k ∈ (collect f as).keys ↔ ∃ a ∈ as, ∃ v, f a = some (k, v) := by
  induction as using List.reverseRecOn with
  | nil => simp [collect, empty, keys]
  | append_singleton as a ih =>
    rw [mem_keys] at ih ⊢
    rw [collect_concat]
    simp only [List.mem_append, List.mem_singleton, or_and_right, exists_or, exists_eq_left, ← ih]
    cases ha : f a with
    | none => simp
    | some e =>
      obtain ⟨k₀, v₀⟩ := e
      simp only [mem_insert, Option.some.injEq, Prod.mk.injEq]
      by_cases hk : k = k₀
      · subst hk
        simp
      · have hk' : ¬ k₀ = k := fun h => hk h.symm
        simp [hk, hk']

/-- An entry of a collected map was made of an element. -/
theorem exists_of_mem_collect {f : α → Option (K × V)} {as : List α} {k : K} {v : V}
    (h : (k, v) ∈ (collect f as).entries) : ∃ a ∈ as, f a = some (k, v) := by
  induction as using List.reverseRecOn with
  | nil => exact absurd h List.not_mem_nil
  | append_singleton as a ih =>
    have hold : (k, v) ∈ (collect f as).entries → ∃ b ∈ as ++ [a], f b = some (k, v) := by
      intro h
      obtain ⟨b, hb, hfb⟩ := ih h
      exact ⟨b, List.mem_append_left _ hb, hfb⟩
    rw [collect_concat] at h
    cases ha : f a with
    | none =>
      rw [ha] at h
      exact hold h
    | some e =>
      rw [ha] at h
      rcases mem_insert.mp h with ⟨rfl, rfl⟩ | ⟨_, h⟩
      · exact ⟨a, List.mem_append_right _ (List.mem_singleton_self a), ha⟩
      · exact hold h

/-- The keys of a collected map come in the order of the elements. -/
theorem keys_collect_sublist {f : α → Option (K × V)} {key : α → K}
    (hkey : ∀ a k v, f a = some (k, v) → k = key a) (as : List α) :
    (collect f as).keys.Sublist (as.map key) := by
  induction as using List.reverseRecOn with
  | nil => exact List.Sublist.refl _
  | append_singleton as a ih =>
    rw [collect_concat, List.map_append]
    cases ha : f a with
    | none => exact ih.trans (List.sublist_append_left _ _)
    | some e =>
      obtain ⟨k, v⟩ := e
      obtain rfl := hkey a k v ha
      show ((collect f as).insert (key a) v).keys.Sublist _
      unfold insert
      split
      · rw [modify, keys_mapValues]
        exact ih.trans (List.sublist_append_left _ _)
      · show (((collect f as).entries ++ [(key a, v)]).map Prod.fst).Sublist _
        rw [List.map_append]
        exact ih.append (List.Sublist.refl _)

/-! ### A change of all values -/

omit [DecidableEq K] in
theorem mapValues_comm {f g : K → V → V} (h : ∀ k v, g k (f k v) = f k (g k v)) (m : IndexMap K V) :
    (m.mapValues f).mapValues g = (m.mapValues g).mapValues f := by
  rw [mapValues_mapValues, mapValues_mapValues]
  exact mapValues_congr fun k v _ => h k v

theorem mapValues_insert (g : V → V) (m : IndexMap K V) (k : K) (v : V) :
    (m.insert k v).mapValues (fun _ => g) = (m.mapValues fun _ => g).insert k (g v) := by
  by_cases hk : k ∈ m.keys
  · have hk' : k ∈ (m.mapValues fun _ => g).keys := by rwa [keys_mapValues]
    rw [insert, dif_pos hk, insert, dif_pos hk', modify, modify, mapValues_mapValues, mapValues_mapValues]
    congr 1
    funext k' v'
    split <;> rfl
  · have hk' : k ∉ (m.mapValues fun _ => g).keys := by rwa [keys_mapValues]
    ext1
    rw [insert, dif_neg hk, insert, dif_neg hk']
    exact List.map_append

/-- Changing the values of a collected map is collecting changed values. -/
theorem mapValues_collect (g : V → V) (f : α → Option (K × V)) (as : List α) :
    (collect f as).mapValues (fun _ => g) = collect (fun a => (f a).map fun e => (e.1, g e.2)) as := by
  induction as using List.reverseRecOn with
  | nil => rfl
  | append_singleton as a ih =>
    rw [collect_concat, collect_concat, ← ih]
    cases f a with
    | none => rfl
    | some e => exact mapValues_insert g _ e.1 e.2

theorem collect_map {β : Type} (f : α → Option (K × V)) (g : β → α) (bs : List β) :
    collect f (bs.map g) = collect (fun b => f (g b)) bs := List.foldl_map

omit [DecidableEq K] in
theorem mapValues_retain {p : K → V → Bool} {g : V → V} (h : ∀ k v, p k (g v) = p k v) (m : IndexMap K V) :
    (m.retain p).mapValues (fun _ => g) = (m.mapValues fun _ => g).retain p := by
  ext1
  show (m.entries.filter fun e => p e.1 e.2).map (fun e => (e.1, g e.2))
    = (m.entries.map fun e => (e.1, g e.2)).filter fun e => p e.1 e.2
  rw [List.filter_map]
  congr 1
  exact List.filter_congr fun e _ => (h e.1 e.2).symm

omit [DecidableEq K] in
theorem values_mapValues (g : V → V) (m : IndexMap K V) :
    (m.mapValues fun _ => g).values = m.values.map g := by
  rw [values, values, entries_mapValues, List.map_map, List.map_map]
  rfl

/-! ### Loops that push rows -/

/-- **A loop over rows.**  Each record gets its own rows, in their order. -/
theorem pushAll_eq (key : R → K) (push : V → R → V) (rows : List R) (m : IndexMap K V) :
    m.pushAll key push rows
      = m.mapValues fun k v => (rows.filter fun r => key r = k).foldl push v := by
  induction rows generalizing m with
  | nil =>
    ext1
    simp [pushAll]
  | cons r rows ih =>
    show (m.modify (key r) fun v => push v r).pushAll key push rows = _
    rw [ih, modify, mapValues_mapValues]
    congr 1
    funext k v
    by_cases hk : key r = k
    · simp [hk]
    · have hk' : ¬ k = key r := fun h => hk h.symm
      simp [hk, hk']

end IndexMap
