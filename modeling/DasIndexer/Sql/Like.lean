import Mathlib.Data.List.Infix
import Mathlib.Tactic.Common

/-!
# `LIKE` patterns

A pattern is read from left to right: `%` stands for any text, `_` for any one character, and a backslash takes
the character after it literally; a pattern that ends in a backslash is an error and matches nothing.

`contains_iff` is the use that a search makes of it: between two `%`, a text without any of the three special
characters matches exactly what contains it.  The converse is that other texts do not do this, and for that
every pattern has a short match: `least` leaves out each `%` and puts a fixed character for each `_`.
-/

namespace Sql.Like

/-- A part of a pattern. -/
inductive Part where
  | any
  | one
  | lit (c : Char)
deriving DecidableEq

/-- The parts of a pattern, unless it ends in a backslash. -/
def parts : List Char → Option (List Part)
  | [] => some []
  | '%' :: cs => (parts cs).map (Part.any :: ·)
  | '_' :: cs => (parts cs).map (Part.one :: ·)
  | ['\\'] => none
  | '\\' :: c :: cs => (parts cs).map (Part.lit c :: ·)
  | c :: cs => (parts cs).map (Part.lit c :: ·)

/-- A text matches the parts as a whole. -/
def matchesParts : List Part → List Char → Bool
  | [], x => x.isEmpty
  | .any :: ps, x => x.tails.any fun y => matchesParts ps y
  | .one :: _, [] => false
  | .one :: ps, _ :: x => matchesParts ps x
  | .lit _ :: _, [] => false
  | .lit c :: ps, d :: x => d == c && matchesParts ps x

/-- `x LIKE p`. -/
def like (p x : List Char) : Bool :=
  match parts p with
  | none => false
  | some ps => matchesParts ps x

/-- A character that has no second meaning in a pattern. -/
def plain (c : Char) : Bool := c != '%' && c != '_' && c != '\\'

theorem plain_iff {c : Char} : plain c = true ↔ c ≠ '%' ∧ c ≠ '_' ∧ c ≠ '\\' := by
  simp [plain, and_assoc]

/-! ### Plain patterns -/

theorem parts_cons_plain {c : Char} (h : plain c = true) (cs : List Char) :
    parts (c :: cs) = (parts cs).map (Part.lit c :: ·) := by
  obtain ⟨hp, hu, hb⟩ := plain_iff.mp h
  rw [parts]
  · exact hp
  · exact hu
  · intro heq _
    exact hb heq
  · intro _ _ heq _
    exact hb heq

/-- What is left when a character starts none of the special cases of `parts`. -/
theorem plain_of_cases {c : Char} {cs : List Char} (hp : c = '%' → False) (hu : c = '_' → False)
    (hb : c = '\\' → cs = [] → False) (hb' : ∀ d ds, c = '\\' → cs = d :: ds → False) : plain c = true := by
  refine plain_iff.mpr ⟨hp, hu, fun heq => ?_⟩
  cases cs with
  | nil => exact hb heq rfl
  | cons d ds => exact hb' d ds heq rfl

theorem parts_plain_append {s : List Char} (h : ∀ c ∈ s, plain c = true) {cs : List Char} {ps : List Part}
    (hps : parts cs = some ps) : parts (s ++ cs) = some (s.map Part.lit ++ ps) := by
  induction s with
  | nil => exact hps
  | cons c s ih =>
    rw [List.cons_append, parts_cons_plain (h c List.mem_cons_self),
      ih fun d hd => h d (List.mem_cons_of_mem _ hd)]
    rfl

theorem matchesParts_any (ps : List Part) (x : List Char) :
    matchesParts (.any :: ps) x = true ↔ ∃ y z, x = y ++ z ∧ matchesParts ps z = true := by
  rw [matchesParts, List.any_eq_true]
  constructor
  · intro ⟨z, hz, hmatch⟩
    obtain ⟨y, hy⟩ := (List.mem_tails z x).mp hz
    exact ⟨y, z, hy.symm, hmatch⟩
  · intro ⟨y, z, hx, hmatch⟩
    exact ⟨z, (List.mem_tails z x).mpr ⟨y, hx.symm⟩, hmatch⟩

theorem matchesParts_lits (s : List Char) (ps : List Part) (x : List Char) :
    matchesParts (s.map Part.lit ++ ps) x = true ↔ ∃ z, x = s ++ z ∧ matchesParts ps z = true := by
  induction s generalizing x with
  | nil =>
    constructor
    · intro h
      exact ⟨x, rfl, h⟩
    · intro ⟨z, hz, h⟩
      rw [hz]
      exact h
  | cons c s ih =>
    cases x with
    | nil =>
      constructor
      · intro h
        exact absurd h (by simp [matchesParts])
      · intro ⟨z, hz, _⟩
        exact absurd hz (by simp)
    | cons d x =>
      rw [List.map_cons, List.cons_append, matchesParts, Bool.and_eq_true, beq_iff_eq, ih]
      constructor
      · intro ⟨hd, z, hz, h⟩
        exact ⟨z, by rw [hd, hz]; rfl, h⟩
      · intro ⟨z, hz, h⟩
        obtain ⟨hd, hx⟩ := List.cons.inj hz
        exact ⟨hd, z, hx, h⟩

/-- **A plain text between two `%`** matches exactly what contains it. -/
theorem contains_iff {s : List Char} (h : ∀ c ∈ s, plain c = true) (x : List Char) :
    like ('%' :: (s ++ ['%'])) x = true ↔ s <:+: x := by
  have hparts : parts ('%' :: (s ++ ['%'])) = some (.any :: (s.map Part.lit ++ [.any])) := by
    rw [parts, parts_plain_append h (show parts ['%'] = some [.any] from rfl)]
    rfl
  rw [like, hparts]
  dsimp only
  rw [matchesParts_any]
  constructor
  · intro ⟨y, z, hx, hmatch⟩
    obtain ⟨w, hz, _⟩ := (matchesParts_lits s _ z).mp hmatch
    exact ⟨y, w, by rw [hx, hz, List.append_assoc]⟩
  · intro ⟨y, w, hx⟩
    refine ⟨y, s ++ w, by rw [← hx, List.append_assoc], (matchesParts_lits s _ _).mpr ⟨w, rfl, ?_⟩⟩
    exact (matchesParts_any [] w).mpr ⟨w, [], by simp, rfl⟩

/-! ### Short matches -/

/-- The shortest match of the parts. -/
def least : List Part → List Char
  | [] => []
  | .any :: ps => least ps
  | .one :: ps => 'a' :: least ps
  | .lit c :: ps => c :: least ps

theorem matchesParts_least (ps : List Part) : matchesParts ps (least ps) = true := by
  induction ps with
  | nil => rfl
  | cons p ps ih =>
    cases p with
    | any => exact (matchesParts_any ps _).mpr ⟨[], least ps, rfl, ih⟩
    | one => exact ih
    | lit c =>
      rw [least, matchesParts, ih, beq_self_eq_true]
      rfl

/-- A match need not be longer than the pattern without its `%`. -/
theorem length_least_le (p : List Char) {ps : List Part} (h : parts p = some ps) :
    (least ps).length ≤ p.countP (· != '%') := by
  induction p using parts.induct generalizing ps with
  | case1 =>
    obtain rfl := Option.some.inj h
    exact Nat.le_refl 0
  | case2 cs ih =>
    rw [parts] at h
    obtain ⟨qs, hqs, rfl⟩ := Option.map_eq_some_iff.mp h
    rw [List.countP_cons_of_neg (by decide)]
    show (least qs).length ≤ _
    exact ih hqs
  | case3 cs ih =>
    rw [parts] at h
    obtain ⟨qs, hqs, rfl⟩ := Option.map_eq_some_iff.mp h
    rw [List.countP_cons_of_pos (by decide)]
    exact Nat.succ_le_succ (ih hqs)
  | case4 => exact absurd h (by simp [parts])
  | case5 c cs ih =>
    rw [parts] at h
    obtain ⟨qs, hqs, rfl⟩ := Option.map_eq_some_iff.mp h
    rw [List.countP_cons_of_pos (by decide)]
    have hle := ih hqs
    have hmore : cs.countP (· != '%') ≤ (c :: cs).countP (· != '%') :=
      (List.sublist_cons_self c cs).countP_le
    exact Nat.succ_le_succ (le_trans hle hmore)
  | case6 c cs hp hu hb hb' ih =>
    have hplain : plain c = true := plain_of_cases hp hu hb hb'
    rw [parts_cons_plain hplain] at h
    obtain ⟨qs, hqs, rfl⟩ := Option.map_eq_some_iff.mp h
    rw [List.countP_cons_of_pos (by simpa using hp)]
    exact Nat.succ_le_succ (ih hqs)

/-- Before a closing `%`, a text has a match that is no longer, and is the text itself only if that is
plain. -/
theorem exists_least_append (s : List Char) :
    ∃ ps, parts (s ++ ['%']) = some ps ∧ (least ps).length ≤ s.length ∧
      (least ps = s → ∀ c ∈ s, plain c = true) := by
  induction s using parts.induct with
  | case1 => exact ⟨[.any], rfl, Nat.le_refl 0, fun _ c hc => absurd hc List.not_mem_nil⟩
  | case2 cs ih =>
    obtain ⟨ps, hps, hle, _⟩ := ih
    refine ⟨.any :: ps, by rw [List.cons_append, parts, hps]; rfl, Nat.le_succ_of_le hle, ?_⟩
    intro heq
    have hlength := congrArg List.length heq
    simp only [least, List.length_cons] at hlength
    omega
  | case3 cs ih =>
    obtain ⟨ps, hps, hle, _⟩ := ih
    refine ⟨.one :: ps, by rw [List.cons_append, parts, hps]; rfl, Nat.succ_le_succ hle, ?_⟩
    intro heq
    exact absurd (List.cons.inj heq).1 (by decide)
  | case4 =>
    refine ⟨[.lit '%'], rfl, Nat.le_refl 1, ?_⟩
    intro heq
    exact absurd (List.cons.inj heq).1 (by decide)
  | case5 c cs ih =>
    obtain ⟨ps, hps, hle, _⟩ := ih
    refine ⟨.lit c :: ps, by rw [List.cons_append, List.cons_append, parts, hps]; rfl, ?_, ?_⟩
    · exact Nat.le_succ_of_le (Nat.succ_le_succ hle)
    · intro heq
      have hlength := congrArg List.length heq
      simp only [least, List.length_cons] at hlength
      omega
  | case6 c cs hp hu hb hb' ih =>
    have hplain : plain c = true := plain_of_cases hp hu hb hb'
    obtain ⟨ps, hps, hle, hself⟩ := ih
    refine ⟨.lit c :: ps, by rw [List.cons_append, parts_cons_plain hplain, hps]; rfl, Nat.succ_le_succ hle, ?_⟩
    intro heq d hd
    rcases List.mem_cons.mp hd with rfl | hd
    · exact hplain
    · exact hself (List.cons.inj heq).2 d hd

/-- A text in which some character is special matches, between two `%`, something that does not contain it. -/
theorem exists_stray_match {s : List Char} (h : ¬ ∀ c ∈ s, plain c = true) :
    ∃ x, like ('%' :: (s ++ ['%'])) x = true ∧ ¬ s <:+: x := by
  obtain ⟨ps, hps, hle, hself⟩ := exists_least_append s
  refine ⟨least ps, ?_, ?_⟩
  · rw [like, parts, hps]
    exact (matchesParts_any ps _).mpr ⟨[], least ps, rfl, matchesParts_least ps⟩
  · intro hin
    exact h (hself (hin.eq_of_length_le hle).symm)

/-- A pattern with fewer characters than a text, its `%` apart, does not ask for the text. -/
theorem exists_short_match {p s : List Char} (h : p.countP (· != '%') < s.length) :
    ¬ ∀ x, like p x = true ↔ s <:+: x := by
  intro hall
  cases hp : parts p with
  | none =>
    have hself := (hall s).mpr (List.infix_refl s)
    rw [like, hp] at hself
    exact absurd hself (by simp)
  | some ps =>
    have hleast : like p (least ps) = true := by
      rw [like, hp]
      exact matchesParts_least ps
    have hlength := ((hall (least ps)).mp hleast).length_le
    have hle := length_least_le p hp
    omega

end Sql.Like
