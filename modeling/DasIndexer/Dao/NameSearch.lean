import DasIndexer.Sql.Lexer
import DasIndexer.Sql.Like
import DasIndexer.Sql.Truth
import DasIndexer.Dao.Scopes

/-!
# Searching by name

A search by name puts the name, as it is, between the quotes of an SQL text and between the two `%` of a
`LIKE` pattern.  A quote in it ends the text or stands for another, and `%`, `_` and a backslash have a
meaning of their own in the pattern (`wildcard_is_not_literal`).

**`searches_literally_iff`**: the text is one comparison with one string constant, and holds of exactly the
assets whose name contains the name asked for, if and only if the name has none of these characters and no NUL.
-/

namespace DasIndexer.Dao

open Sql

/-- `std::str::from_utf8`. -/
def fromUtf8 (bytes : Bytes) : Option String := String.fromUTF8? ⟨bytes.toArray⟩

theorem fromUtf8_utf8 (s : String) : fromUtf8 (utf8 s) = some s := by
  rw [fromUtf8, utf8, Array.toArray_toList]
  exact dif_pos s.isValidUTF8

/-- `validate_search_with_name`: a name is searched for among the assets of an owner. -/
def validateSearchWithName (name : Option String) (owner : Option Bytes) : Except String (Option Bytes) :=
  match name with
  | some n =>
    if owner.isNone then .error "Owner address must be provided in order to search assets by name"
    else .ok (some (utf8 n))
  | none => .ok none

/-- The text that the name is formatted into. -/
def nameFragment (name : String) : String := "chain_data->>'name' LIKE '%" ++ name ++ "%'"

/-- The condition on the name in `conditions`. -/
def nameExpr (n : Bytes) : Except DbErr String :=
  match fromUtf8 n with
  | none => .error (.custom "Could not convert raw name bytes into string for comparison")
  | some name => .ok (nameFragment name)

/-- The pattern of a text that is one comparison of the name with one string constant. -/
def likePattern (text : String) : Option (List Char) :=
  match Lexer.lex text.toList with
  | some [.word column, .op arrow, .str key, .word operator, .str pattern] =>
    if column = "chain_data".toList ∧ arrow = "->>".toList ∧ key = "name".toList ∧ operator = "LIKE".toList then
      some pattern
    else none
  | _ => none

/-- `chain_data->>'name' LIKE 'pattern'`, on the value of the left side. -/
def nameLike (pattern : List Char) (chainName : Option String) : Truth :=
  chainName.map fun n => Like.like pattern n.toList

/-- The text is one comparison with one string constant, and holds exactly of the names that contain
`name`. -/
def SearchesLiterally (text name : String) : Prop :=
  ∃ pattern, likePattern text = some pattern ∧ ∀ chainName : Option String,
    holds (nameLike pattern chainName) = true ↔ ∃ n, chainName = some n ∧ name.toList <:+: n.toList

/-- A character that has one meaning only in the text. -/
def plainChar (c : Char) : Bool := Like.plain c && c != '\'' && c != '\x00'

/-! ### The pattern -/

/-- Up to the opening quote of the constant the text is fixed. -/
theorem runFrom_fragment : Lexer.runFrom .start "chain_data->>'name' LIKE '".toList
    = ([.word "chain_data".toList, .op "->>".toList, .str "name".toList, .word "LIKE".toList], .quoted []) := by
  decide +kernel

theorem toList_nameFragment (name : String) :
    (nameFragment name).toList
      = "chain_data->>'name' LIKE '".toList ++ ('%' :: (name.toList ++ ['%', '\''])) := by
  have hopen : "chain_data->>'name' LIKE '%".toList = "chain_data->>'name' LIKE '".toList ++ ['%'] := by
    decide +kernel
  have hclose : "%'".toList = ['%', '\''] := by decide +kernel
  unfold nameFragment
  rw [String.toList_append, String.toList_append, hopen, hclose]
  simp only [List.append_assoc, List.cons_append, List.nil_append]

/-- A NUL in the text can only come from the name. -/
theorem nul_mem_nameFragment (name : String) :
    '\x00' ∈ (nameFragment name).toList ↔ '\x00' ∈ name.toList := by
  rw [toList_nameFragment]
  simp

/-- The text has a pattern when its constant is one, and the last token. -/
theorem likePattern_nameFragment (name : String) (pattern : List Char) :
    likePattern (nameFragment name) = some pattern ↔
      '\x00' ∉ name.toList ∧
        Lexer.lexFrom (.quoted []) ('%' :: (name.toList ++ ['%', '\''])) = some [.str pattern] := by
  unfold likePattern Lexer.lex
  by_cases hnul : '\x00' ∈ name.toList
  · rw [if_pos ((nul_mem_nameFragment name).mpr hnul)]
    constructor
    · intro h
      exact absurd h (by simp)
    · intro h
      exact absurd hnul h.1
  · rw [if_neg fun h => hnul ((nul_mem_nameFragment name).mp h), toList_nameFragment, Lexer.lexFrom_append,
      runFrom_fragment]
    constructor
    · intro h
      split at h
      · rename_i column arrow key operator pattern' hlex
        obtain ⟨rest, hrest, heq⟩ := Option.map_eq_some_iff.mp hlex
        simp only [List.cons_append, List.nil_append, List.cons.injEq] at heq
        obtain ⟨_, _, _, _, rfl⟩ := heq
        rw [if_pos (by simp_all)] at h
        exact ⟨hnul, by rw [hrest, Option.some.inj h]⟩
      · exact absurd h (by simp)
    · intro ⟨_, hlex⟩
      simp only [hlex, Option.map_some, List.cons_append, List.nil_append, and_self, if_true]

/-- Without a quote, the pattern is the name between two `%`. -/
theorem lexFrom_name {name : List Char} (h : ∀ c ∈ name, c ≠ '\'') :
    Lexer.lexFrom (.quoted []) ('%' :: (name ++ ['%', '\''])) = some [.str ('%' :: (name ++ ['%']))] := by
  have hall : ∀ c ∈ '%' :: (name ++ ['%']), c ≠ '\'' := by
    intro c hc
    rcases List.mem_cons.mp hc with rfl | hc
    · decide
    · rcases List.mem_append.mp hc with hc | hc
      · exact h c hc
      · rw [List.mem_singleton.mp hc]
        decide
  have hsplit : '%' :: (name ++ ['%', '\'']) = ('%' :: (name ++ ['%'])) ++ ['\''] := by simp
  rw [hsplit, Lexer.lexFrom_quoted hall]
  rfl

/-- With a quote, a pattern has fewer characters than the name. -/
theorem countP_pattern_lt {name : List Char} (h : '\'' ∈ name) {pattern : List Char}
    (hlex : Lexer.lexFrom (.quoted []) ('%' :: (name ++ ['%', '\''])) = some [.str pattern]) :
    pattern.countP (· != '%') < name.length := by
  obtain ⟨hquotes, hletters⟩ := Lexer.size_of_constant _ (show Lexer.Reading [] (.quoted []) 1 from ⟨rfl, rfl⟩) hlex
  have hname : 0 < Lexer.quotes name := List.count_pos_iff.mpr h
  have hq : Lexer.quotes ('%' :: (name ++ ['%', '\''])) = Lexer.quotes name + 1 := by
    simp [Lexer.quotes]
  have hl : Lexer.letters ('%' :: (name ++ ['%', '\''])) = Lexer.letters name := by
    simp [Lexer.letters]
  have hempty : Lexer.quotes [] = 0 ∧ Lexer.letters [] = 0 := ⟨rfl, rfl⟩
  have hle := Lexer.letters_add_quotes_le name
  rw [Lexer.countP_eq]
  omega

/-- What the comparison with a pattern says of all names, said of texts. -/
theorem holds_nameLike_iff (pattern name : List Char) :
    (∀ chainName : Option String, holds (nameLike pattern chainName) = true ↔
      ∃ n, chainName = some n ∧ name <:+: n.toList) ↔
    ∀ x, Like.like pattern x = true ↔ name <:+: x := by
  constructor
  · intro h x
    have hx := h (some (String.ofList x))
    simpa [nameLike] using hx
  · intro h chainName
    cases chainName with
    | none => simp [nameLike]
    | some n => simpa [nameLike] using h n.toList

/-- Every name passes the validation, and reaches the text as it is. -/
theorem search_iff_fragment (name : String) (owner : Bytes) :
    (∃ n text, validateSearchWithName (some name) (some owner) = .ok (some n) ∧ nameExpr n = .ok text ∧
      SearchesLiterally text name) ↔ SearchesLiterally (nameFragment name) name := by
  have hvalid : validateSearchWithName (some name) (some owner) = .ok (some (utf8 name)) := rfl
  have hexpr : nameExpr (utf8 name) = .ok (nameFragment name) := by rw [nameExpr, fromUtf8_utf8]
  constructor
  · intro ⟨n, text, hn, htext, h⟩
    obtain rfl := Option.some.inj (Except.ok.inj (hvalid.symm.trans hn))
    obtain rfl := Except.ok.inj (hexpr.symm.trans htext)
    exact h
  · intro h
    exact ⟨_, _, hvalid, hexpr, h⟩

/-- **When a name is searched for literally**: exactly when it has no quote, no `%`, no `_`, no backslash and
no NUL. -/
theorem searches_literally_iff (name : String) (owner : Bytes) :
    (∃ n text, validateSearchWithName (some name) (some owner) = .ok (some n) ∧ nameExpr n = .ok text ∧
      SearchesLiterally text name) ↔ ∀ c ∈ name.toList, plainChar c = true := by
  rw [search_iff_fragment, SearchesLiterally]
  simp only [likePattern_nameFragment, holds_nameLike_iff]
  constructor
  · intro ⟨pattern, ⟨hnul, hlex⟩, hall⟩
    have hquote : ∀ c ∈ name.toList, c ≠ '\'' := by
      rintro c hc rfl
      exact Like.exists_short_match (countP_pattern_lt hc hlex) hall
    rw [lexFrom_name hquote] at hlex
    obtain rfl := Lexer.Token.str.inj (List.cons.inj (Option.some.inj hlex)).1
    have hplain : ∀ c ∈ name.toList, Like.plain c = true := by
      by_contra hnot
      obtain ⟨x, hx, hin⟩ := Like.exists_stray_match hnot
      exact hin ((hall x).mp hx)
    intro c hc
    have hzero : c ≠ '\x00' := by
      rintro rfl
      exact hnul hc
    simp [plainChar, hplain c hc, hquote c hc, hzero]
  · intro hplain
    have hparts : ∀ c ∈ name.toList, Like.plain c = true ∧ c ≠ '\'' ∧ c ≠ '\x00' := by
      intro c hc
      have hchar := hplain c hc
      simp only [plainChar, Bool.and_eq_true, bne_iff_ne] at hchar
      exact ⟨hchar.1.1, hchar.1.2, hchar.2⟩
    refine ⟨_, ⟨fun hnul => (hparts _ hnul).2.2 rfl, lexFrom_name fun c hc => (hparts c hc).2.1⟩, ?_⟩
    exact Like.contains_iff fun c hc => (hparts c hc).1

example : likePattern (nameFragment "O'Neil") = none := by decide +kernel

/-- A search for an underscore finds every name that is not empty. -/
theorem wildcard_is_not_literal :
    ¬ ∃ n text, validateSearchWithName (some "_") (some (Pubkey.fill 1).bytes) = .ok (some n) ∧
      nameExpr n = .ok text ∧ SearchesLiterally text "_" := by
  rw [search_iff_fragment]
  intro ⟨pattern, hpattern, hall⟩
  obtain ⟨_, hlex⟩ := (likePattern_nameFragment "_" pattern).mp hpattern
  have hquote : ∀ c ∈ "_".toList, c ≠ '\'' := by
    have hlist : "_".toList = ['_'] := by decide +kernel
    rw [hlist]
    intro c hc
    rw [List.mem_singleton.mp hc]
    decide
  rw [lexFrom_name hquote] at hlex
  obtain rfl := Lexer.Token.str.inj (List.cons.inj (Option.some.inj hlex)).1
  obtain ⟨n, hn, hin⟩ := (hall (some "a")).mp (by decide +kernel)
  obtain rfl := Option.some.inj hn
  exact absurd hin (by decide +kernel)

end DasIndexer.Dao
