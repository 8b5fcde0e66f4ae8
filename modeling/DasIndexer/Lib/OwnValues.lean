import DasIndexer.Lib.FollowedValues
import Mathlib.Data.Finset.Max

/-!
# A follower whose newest write carries the value itself

Here the newest write of the follower carries the value `a` that the leader is to lead with, which may then
never lead with it.

When that write comes, the follower stops following, and its cell holds `a`, unless the leader has passed on
something newer.  But a cell that held `a` already keeps its old stamp, and what is written between that stamp
and the newest write can still take its place.  **`carried_reaches_iff`** says for which writes this cannot
happen, and **`reaches_iff`** puts the two kinds of follower together.
-/

namespace Followers

open ChangedOnly

variable {V : Type} [DecidableEq V] (unknown : V)

/-- A follower that has stopped following keeps what it holds, while its older writes confirm it or are older still. -/
theorem cell_stays {ops : List (Op V)} {σ : State V} {f : ℤ} {c : ℤ × V} (hf : σ.follows = some (f, false))
    (hc : σ.cell = some c) (hold : ∀ pre s x post, ops = pre ++ .set s x :: post →
      s < f ∧ (s ≤ c.1 ∨ x.getD ((run unknown pre σ).leaderValue unknown) = c.2)) :
    (run unknown ops σ).cell = some c := by
  induction ops using List.reverseRecOn with
  | nil => exact hc
  | append_singleton ops o ih =>
    have hcell := ih fun pre s x post heq => hold pre s x (post ++ [o]) (by
      rw [heq, List.append_assoc, List.cons_append])
    rw [run_append]
    cases hv : o.sent with
    | some v =>
      have hfollows : (run unknown ops σ).follows = some (f, false) := by
        refine follows_stays unknown hf fun s x hx => ?_
        obtain ⟨pre, post, rfl⟩ := List.append_of_mem hx
        exact (hold pre s x (post ++ [o]) (by rw [List.append_assoc, List.cons_append])).1
      have hidle : (run unknown ops σ).following = false := by
        rw [State.following, hfollows]
        rfl
      exact (step_of_sent unknown hv).1.trans ((passOn_of_idle hidle _).trans hcell)
    | none =>
      cases o with
      | lead s v => cases hv
      | pass s v => cases hv
      | set s x =>
        show change (run unknown ops σ).cell _ = some c
        rw [hcell]
        rcases (hold ops s x [] rfl).2 with hle | hsame
        · exact change_of_not_newer hle
        · exact change_of_same hsame.symm

/-! ### Orders that do not fail -/

/-- No order of the writes can take `a` from a follower whose newest write, under stamp `h`, carries it. -/
structure Kept (a : V) (ops : List (Op V)) (h : ℤ) : Prop where
  carried : Op.set h (some a) ∈ ops
  newest : ∀ s x, Op.set s x ∈ ops → s ≤ h
  /-- What the follower writes else is older than whatever carries `a`. -/
  own : ∀ s t x, Op.set s (some a) ∈ ops → Op.set t x ∈ ops → x ≠ some a → t < s
  /-- A follower that ever follows is not sent anything else that is newer than its newest write. -/
  pass : ∀ g t v, Op.set g none ∈ ops → Sent ops t v → v ≠ a → t < h
  /-- If it can copy `a`, its other values are older than what copies. -/
  follow : ∀ r g t y, Op.lead r a ∈ ops → Op.set g none ∈ ops → Op.set t (some y) ∈ ops → y ≠ a → t < g
  /-- If it can copy twice, the leader ends with `a`. -/
  once : ∀ f g s t v, Op.set f none ∈ ops → Op.set g none ∈ ops → f ≠ g → Op.lead s a ∈ ops →
    Op.lead t v ∈ ops → v ≠ a → t < s
  /-- If it can be passed on `a` over a value of its own, its other values are older than this `a`. -/
  confirm : ∀ g p t y, Op.set g none ∈ ops → Op.lead p a ∈ ops → Confirmed unknown a ops p →
    Op.set t (some y) ∈ ops → y ≠ a → t < p
  /-- If it can be passed on an `a` that is not stored, whatever else it writes is older than this `a`. -/
  dropped : ∀ g p t x, Op.set g none ∈ ops → Op.pass p a ∈ ops → g < p ∨ Confirmed unknown a ops p →
    Op.set t x ∈ ops → x ≠ some a → t ≠ g → t < p

section Kept

variable {unknown} {a : V} {ops all : List (Op V)} {h : ℤ}

omit [DecidableEq V] in
theorem Kept.perm (hkept : Kept unknown a all h) (hperm : ops.Perm all) : Kept unknown a ops h := by
  have hmem : ∀ {o}, o ∈ ops ↔ o ∈ all := hperm.mem_iff
  have hsent : ∀ {t v}, Sent ops t v → Sent all t v := fun h => h.mono hperm.subset
  have hconfirmed : ∀ {p}, Confirmed unknown a ops p → Confirmed unknown a all p := fun h =>
    h.mono unknown hperm.subset
  refine ⟨hmem.mpr hkept.carried, ?_, ?_, ?_, ?_, ?_, ?_, ?_⟩
  · exact fun s x hx => hkept.newest s x (hmem.mp hx)
  · exact fun s t x hs ht => hkept.own s t x (hmem.mp hs) (hmem.mp ht)
  · exact fun g t v hg ht => hkept.pass g t v (hmem.mp hg) (hsent ht)
  · exact fun r g t y hr hg ht => hkept.follow r g t y (hmem.mp hr) (hmem.mp hg) (hmem.mp ht)
  · exact fun f g s t v hf hg hne hs ht => hkept.once f g s t v (hmem.mp hf) (hmem.mp hg) hne (hmem.mp hs) (hmem.mp ht)
  · exact fun g p t y hg hp hc ht => hkept.confirm g p t y (hmem.mp hg) (hmem.mp hp) (hconfirmed hc) (hmem.mp ht)
  · exact fun g p t x hg hp hc ht =>
      hkept.dropped g p t x (hmem.mp hg) (hmem.mp hp) (hc.imp_right hconfirmed) (hmem.mp ht)

/-- Where the newest write of the follower splits a run, the cell holds `a` then: from this write, or from before. -/
theorem Kept.cell_then {pre post : List (Op V)} (hscene : Scenario unknown a (pre ++ .set h (some a) :: post))
    (hkept : Kept unknown a (pre ++ .set h (some a) :: post) h) :
    ∃ c, (step unknown (run unknown pre {}) (.set h (some a))).cell = some (c, a) ∧
      (c = h ∨ (run unknown pre {}).cell = some (c, a)) := by
  show ∃ c, change (run unknown pre {}).cell (h, a) = some (c, a) ∧ _
  cases hc : (run unknown pre {}).cell with
  | none => exact ⟨h, rfl, Or.inl rfl⟩
  | some c =>
    obtain ⟨t, x⟩ := c
    by_cases hx : x = a
    · subst hx
      exact ⟨t, change_of_same rfl, Or.inr rfl⟩
    · have hlt : t < h := by
        obtain ⟨pre', o, post', rfl, ⟨y, rfl, -⟩ | ⟨rfl, hsent, hfollow, -⟩⟩ := exists_write unknown hc
        · have ht : Op.set t y ∈ (pre' ++ .set t y :: post') ++ post := by simp
          exact lt_of_le_of_ne (hkept.newest t y (by simp)) (stamp_ne hscene.stamps ht)
        · obtain ⟨g, hg⟩ := exists_none_of_following unknown hfollow
          exact hkept.pass g o.stamp x (by simp [hg]) (sent_iff.mpr ⟨o, by simp, rfl, hsent⟩) hx
      exact ⟨h, change_of_newer hlt hx, Or.inl rfl⟩

/-- A follower that the leader passes on an `a` of stamp `p` over something older, although it follows under newer
stamps only: it has confirmed a value of its own. -/
theorem Kept.confirmed (hkept : Kept unknown a all h) {pre : List (Op V)} (hsub : pre ⊆ all) {p : ℤ} {old : ℤ × V}
    (hfollow : (run unknown pre {}).following = true) (htakes : takes (run unknown pre {}).leader (p, a) = true)
    (hold : (run unknown pre {}).cell = some old) (hlt : old.1 < p) (hnone : ∀ g, Op.set g none ∈ pre → p < g) :
    Confirmed unknown a all p := by
  obtain ⟨r, z, hr, hrp, hcopied⟩ := exists_confirmed unknown hfollow htakes hold hlt hnone
  obtain ⟨g, hg⟩ := exists_none_of_following unknown hfollow
  have hz : z ≠ a := by
    rintro rfl
    have hgr := hkept.own r g none (hsub hr) (hsub hg) (by simp)
    exact absurd (lt_trans hgr hrp) (not_lt.mpr (le_of_lt (hnone g hg)))
  exact ⟨r, z, hsub hr, hz, hrp, hcopied.imp_right fun ⟨q, hqp, hq⟩ => ⟨q, hqp, hsub hq⟩⟩

/-- Where the cell holds `a` from before, what the follower writes else and does not copy from a leader that has ended
with `a` is older. -/
theorem Kept.le_cell (hscene : Scenario unknown a all) (hkept : Kept unknown a all h) {pre : List (Op V)}
    (hsub : pre ⊆ all) {c : ℤ} (hpre : (run unknown pre {}).cell = some (c, a)) {s : ℤ} {x : Option V}
    (hs : Op.set s x ∈ all) (hx : x ≠ some a) (hapart : ∀ o ∈ pre, o.stamp ≠ s)
    (hcopies : ∀ r g, Op.lead r a ∈ pre → Op.set g none ∈ pre → x ≠ none) : s ≤ c := by
  obtain ⟨pre₁, o, pre₂, rfl, ⟨y, rfl, hy⟩ | ⟨rfl, hsent, hfollow, htakes, old, hold, hlt⟩⟩ := exists_write unknown hpre
  · cases y with
    | some z =>
      obtain rfl : a = z := hy
      exact le_of_lt (hkept.own c s x (hsub (by simp)) hs hx)
    | none =>
      obtain ⟨r, hr⟩ := exists_lead_of_leaderValue unknown hscene.unknown_ne hy.symm
      cases x with
      | none => exact absurd rfl (hcopies r c (by simp [hr]) (by simp))
      | some y =>
        exact le_of_lt (hkept.follow r c s y (hsub (by simp [hr])) (hsub (by simp)) hs fun heq =>
          hx (congrArg some heq))
  have hsub₁ : pre₁ ⊆ all := fun o' ho' => hsub (by simp [ho'])
  obtain ⟨g, hg⟩ := exists_none_of_following unknown hfollow
  have hconfirmed := hkept.confirmed hsub₁ hfollow htakes hold hlt
  cases o with
  | set c x' => cases hsent
  | lead c v =>
    obtain rfl := Option.some.inj hsent
    cases x with
    | none => exact absurd rfl (hcopies c g (by simp) (by simp [hg]))
    | some y =>
      by_contra hcs
      have hc : Op.lead c v ∈ all := hsub (by simp)
      have hy : y ≠ v := fun heq => hx (congrArg some heq)
      have hnone : ∀ g, Op.set g none ∈ pre₁ → c < g := fun g hg =>
        lt_trans (not_le.mp hcs) (hkept.follow c g s y hc (hsub₁ hg) hs hy)
      exact hcs (le_of_lt (hkept.confirm g c s y (hsub₁ hg) hc (hconfirmed hnone) hs hy))
  | pass c v =>
    obtain rfl := Option.some.inj hsent
    have hc : Op.pass c v ∈ all := hsub (by simp)
    have hne : ∀ g, Op.set g none ∈ pre₁ → s ≠ g := fun g hg heq => hapart (.set g none) (by simp [hg]) heq.symm
    by_cases hearly : ∃ g, Op.set g none ∈ pre₁ ∧ g < c
    · obtain ⟨g', hg', hgc⟩ := hearly
      exact le_of_lt (hkept.dropped g' c s x (hsub₁ hg') hc (Or.inl hgc) hs hx (hne g' hg'))
    · have hnone : ∀ g, Op.set g none ∈ pre₁ → c < g := by
        intro g' hg'
        refine lt_of_le_of_ne (not_lt.mp fun hlt' => hearly ⟨g', hg', hlt'⟩) fun heq => ?_
        cases hscene.eq_of_stamp hc (hsub₁ hg') heq
      exact le_of_lt (hkept.dropped g c s x (hsub₁ hg) hc (Or.inr (hconfirmed hnone)) hs hx (hne g hg))

/-- **A follower that carries `a` keeps it** in every order. -/
theorem Kept.reaches (hscene : Scenario unknown a ops) (hkept : Kept unknown a ops h) :
    (run unknown ops {}).cell.map Prod.snd = some a := by
  obtain ⟨pre, post, rfl⟩ := List.append_of_mem hkept.carried
  obtain ⟨c, hc, horigin⟩ := hkept.cell_then hscene
  have hrun : ∀ p, run unknown p (step unknown (run unknown pre {}) (.set h (some a)))
      = run unknown (pre ++ .set h (some a) :: p) {} := fun p => by rw [run_append, run_cons]
  have hfollows : (step unknown (run unknown pre {}) (.set h (some a))).follows = some (h, false) := by
    have hsub : pre ++ [Op.set h (some a)] ⊆ pre ++ .set h (some a) :: post := by simp
    have hnewest := follows_of_newest unknown hscene.stamps hkept.newest hsub
      (List.mem_append_right _ List.mem_cons_self)
    rw [run_append] at hnewest
    exact hnewest
  rw [← hrun post, cell_stays unknown hfollows hc, Option.map_some]
  rintro p s x q rfl
  have hs : Op.set s x ∈ pre ++ .set h (some a) :: (p ++ .set s x :: q) := by simp
  -- nothing before has this stamp
  have hapart : ∀ o ∈ pre, o.stamp ≠ s := by
    intro o ho
    have hnodup : (((pre ++ .set h (some a) :: p) ++ .set s x :: q).map Op.stamp).Nodup := by
      rw [List.append_assoc, List.cons_append]
      exact hscene.stamps
    have hmem : o ∈ (pre ++ .set h (some a) :: p) ++ q := by simp [ho]
    exact stamp_ne hnodup hmem
  have hlater : Op.set s x ∈ pre ++ (p ++ .set s x :: q) := by simp
  refine ⟨lt_of_le_of_ne (hkept.newest s x hs) (stamp_ne hscene.stamps hlater), ?_⟩
  by_cases hx : x.getD ((run unknown p (step unknown (run unknown pre {}) (.set h (some a)))).leaderValue unknown) = a
  · exact Or.inr hx
  left
  rcases horigin with rfl | hpre
  · exact hkept.newest s x hs
  -- a leader that has ended with `a` is copied
  have hcopies : ∀ r g, Op.lead r a ∈ pre → Op.set g none ∈ pre → x ≠ none := by
    rintro r g hr hg rfl
    have hahead := hkept.once g s
    refine hx ?_
    rw [Option.getD_none, hrun p]
    refine leaderValue_of_ahead unknown (List.mem_append_left _ hr) fun s' t v hs' ht hv => ?_
    have hmem : ∀ {o}, o ∈ pre ++ .set h (some a) :: p → o ∈ pre ++ .set h (some a) :: (p ++ .set s none :: q) := by
      intro o ho
      rw [← List.cons_append, ← List.append_assoc]
      exact List.mem_append_left _ ho
    exact hahead s' t v (List.mem_append_left _ hg) hs (hapart _ hg) (hmem hs') (hmem ht) hv
  refine hkept.le_cell hscene (fun o ho => by simp [ho]) hpre hs (fun heq => hx ?_) hapart hcopies
  rw [heq]
  rfl

end Kept

/-! ### Orders that fail -/

section Fails

variable {unknown} {a : V} {all : List (Op V)} {h : ℤ}

/-- Where the newest write of the follower carries a value, what is left of the leader's writes at the end is not passed
on. -/
theorem Reaches.carried_rounds (hreach : Reaches unknown a all) (hstamps : (all.map Op.stamp).Nodup) {y : V}
    (hmem : Op.set h (some y) ∈ all) (hnewest : ∀ s x, Op.set s x ∈ all → s ≤ h) (ls ls' : List (Op V))
    (ss ss' : List (ℤ × Option V)) (hnodup : (ls ++ ls').Nodup) (hsent : ∀ o ∈ ls ++ ls', o ∈ all ∧ o.sent ≠ none)
    (hss : (ss ++ ss').Perm (sets all)) {σ : State V}
    (hσ : run unknown ls' (run unknown (own ss) (run unknown ls {})) = σ) :
    ((ss'.map fun w => (w.1, w.2.getD (σ.leaderValue unknown))).foldl change σ.cell).map Prod.snd = some a := by
  obtain ⟨rest, hrest, hfinal⟩ := hreach.rounds hstamps ls ls' ss ss' hnodup hsent hss
  have hidle : (run unknown (own ss') (run unknown ls' (run unknown (own ss) (run unknown ls {})))).following
      = false := by
    have hsub : ls ++ (own ss ++ (ls' ++ own ss')) ⊆ all := by
      intro o ho
      have hown : ∀ ws, ws ⊆ ss ++ ss' → ∀ o ∈ own ws, o ∈ all := by
        rintro ws hws o ho
        obtain ⟨w, hw, rfl⟩ := List.mem_map.mp ho
        exact mem_sets.mp (hss.subset (hws hw))
      simp only [List.mem_append] at ho
      rcases ho with ho | ho | ho | ho
      · exact (hsent o (List.mem_append_left _ ho)).1
      · exact hown ss (List.subset_append_left _ _) o ho
      · exact (hsent o (List.mem_append_right _ ho)).1
      · exact hown ss' (List.subset_append_right _ _) o ho
    have hin : Op.set h (some y) ∈ ls ++ (own ss ++ (ls' ++ own ss')) := by
      have hin : (h, some y) ∈ ss ++ ss' := hss.mem_iff.mpr (mem_sets.mpr hmem)
      simp only [List.mem_append, mem_own] at hin ⊢
      tauto
    have hfollows := follows_of_newest unknown hstamps hnewest hsub hin
    rw [run_append, run_append, run_append] at hfollows
    rw [State.following, hfollows]
    rfl
  rw [(run_of_idle unknown (fun o ho => (hrest o ho).2.1) hidle).1, hσ, (run_own unknown ss' σ).2] at hfinal
  exact hfinal

variable (hscene : Scenario unknown a all) (hreach : Reaches unknown a all) (hcarried : Op.set h (some a) ∈ all)
  (hnewest : ∀ s x, Op.set s x ∈ all → s ≤ h)

include hscene hreach hcarried hnewest

/-- The follower comes first and is overtaken by its own writes. -/
theorem Scenario.own_of_reaches (s t : ℤ) (x : Option V) (hs : Op.set s (some a) ∈ all) (ht : Op.set t x ∈ all)
    (hx : x ≠ some a) : t < s := by
  by_contra hlt
  have hne : s ≠ t := fun heq => hx (Op.set.inj (hscene.eq_of_stamp hs ht heq)).2.symm
  have hxa : x.getD unknown ≠ a := by
    cases x with
    | none => exact hscene.unknown_ne
    | some y => exact fun heq => hx (congrArg some heq)
  have hsin : (s, some a) ∈ sets all := mem_sets.mpr hs
  have htin : (t, x) ∈ sets all := mem_sets.mpr ht
  obtain ⟨ss, hss, hlost⟩ := exists_perm_lost (fun w : ℤ × Option V => (w.1, w.2.getD unknown)) hsin htin rfl hxa
    (lt_of_le_of_ne (not_lt.mp hlt) hne)
  exact hlost (hreach.carried_rounds hscene.stamps hcarried hnewest [] [] [] ss List.nodup_nil (by simp) hss rfl)

/-- The follower is passed on another value, under a stamp that its own cannot replace. -/
theorem Scenario.passed_of_reaches (g t : ℤ) (v : V) (hg : Op.set g none ∈ all) (ht : Sent all t v) (hv : v ≠ a) :
    t < h := by
  by_contra hlt
  obtain ⟨o, ho, rfl, hov⟩ := sent_iff.mp ht
  have hht : h < o.stamp := lt_of_le_of_ne (not_lt.mp hlt) fun heq => by
    obtain rfl := hscene.eq_of_stamp hcarried ho heq
    cases hov
  have hgin : (g, none) ∈ sets all := mem_sets.mpr hg
  have hpassed : (run unknown [o] (run unknown (own [(g, none)]) (run unknown [] {}))).cell = some (o.stamp, v) := by
    refine (@step_of_sent V _ unknown ⟨none, some (g, unknown), some (g, true)⟩ o v hov).1.trans ?_
    exact change_of_newer (lt_of_le_of_lt (hnewest g none hg) hht) (hscene.known _ _ ht).symm
  have hfinal := hreach.carried_rounds hscene.stamps hcarried hnewest [] [o] [(g, none)] _ (List.nodup_singleton _)
    (by simp [ho, hov]) (List.perm_cons_erase hgin).symm rfl
  rw [hpassed, foldl_change_keeps] at hfinal
  · exact hv (Option.some.inj hfinal)
  · intro w' hw' _
    obtain ⟨w, hw, rfl⟩ := List.mem_map.mp hw'
    exact le_of_lt (lt_of_le_of_lt (hnewest w.1 w.2 (mem_sets.mp (List.mem_of_mem_erase hw))) hht)

/-- The leader has `a`, and the follower copies it and is overtaken by its own writes. -/
theorem Scenario.follow_of_reaches (r g t : ℤ) (y : V) (hr : Op.lead r a ∈ all) (hg : Op.set g none ∈ all)
    (ht : Op.set t (some y) ∈ all) (hy : y ≠ a) : t < g := by
  by_contra hlt
  have hne : g ≠ t := fun heq => by cases hscene.eq_of_stamp hg ht heq
  have hgin : (g, none) ∈ sets all := mem_sets.mpr hg
  have htin : (t, some y) ∈ sets all := mem_sets.mpr ht
  obtain ⟨ss, hss, hlost⟩ := exists_perm_lost (fun w : ℤ × Option V => (w.1, w.2.getD a)) hgin htin rfl hy
    (lt_of_le_of_ne (not_lt.mp hlt) hne)
  exact hlost (hreach.carried_rounds hscene.stamps hcarried hnewest [.lead r a] [] [] ss (List.nodup_singleton _)
    (by simp [hr, Op.sent]) hss rfl)

/-- The follower copies `a`, and after the leader has moved on it copies another value. -/
theorem Scenario.once_of_lt {f g : ℤ} (hf : Op.set f none ∈ all) (hg : Op.set g none ∈ all) (hfg : f < g)
    (s t : ℤ) (v : V) (hs : Op.lead s a ∈ all) (ht : Op.lead t v ∈ all) (hv : v ≠ a) : t < s := by
  by_contra hlt
  have hst : s < t := lt_of_le_of_ne (not_lt.mp hlt) fun heq => by
    obtain ⟨-, rfl⟩ := Op.lead.inj (hscene.eq_of_stamp hs ht heq)
    exact hv rfl
  let carries := (sets all).filter fun w => decide (w.2 = some a)
  let others := (sets all).filter fun w => !decide (w.2 = some a)
  have hfin : (f, none) ∈ others := List.mem_filter.mpr ⟨mem_sets.mpr hf, rfl⟩
  -- what carries `a` comes before the leader moves on, and the rest after it
  have hss : ((f, none) :: carries ++ others.erase (f, none)).Perm (sets all) := by
    refine List.Perm.trans ?_ (List.filter_append_perm (fun w => decide (w.2 = some a)) (sets all))
    exact List.perm_middle.symm.trans ((List.perm_cons_erase hfin).symm.append_left _)
  generalize hσ : run unknown (own ((f, none) :: carries)) (run unknown [.lead s a] {}) = σ
  have hidle : σ.following = false := by
    have hsub : [.lead s a] ++ own ((f, none) :: carries) ⊆ all := by
      intro o ho
      rcases List.mem_append.mp ho with ho | ho
      · rwa [List.mem_singleton.mp ho]
      · obtain ⟨w, hw, rfl⟩ := List.mem_map.mp ho
        exact mem_sets.mp (hss.subset (List.mem_append_left _ hw))
    have hin : (h, some a) ∈ carries := List.mem_filter.mpr ⟨mem_sets.mpr hcarried, by simp⟩
    have hfollows := follows_of_newest unknown hscene.stamps hnewest hsub
      (List.mem_append_right _ (mem_own.mpr (List.mem_cons_of_mem _ hin)))
    rw [run_append, hσ] at hfollows
    rw [State.following, hfollows]
    rfl
  obtain ⟨hkept, hown⟩ := run_own unknown ((f, none) :: carries) (run unknown [.lead s a] {})
  have hleader : σ.leader = some (s, a) := by rw [← hσ, hkept]; rfl
  have hcell : σ.cell = some (f, a) := by
    rw [← hσ, hown]
    refine foldl_change_keeps (carries.map fun w => (w.1, w.2.getD a)) fun w' hw' hne => absurd ?_ hne
    obtain ⟨w, hw, rfl⟩ := List.mem_map.mp hw'
    rw [of_decide_eq_true (List.mem_filter.mp hw).2]
    rfl
  have hfinal := hreach.carried_rounds hscene.stamps hcarried hnewest [.lead s a] [.lead t v] _ _
    (by simp [hv.symm]) (by simp [hs, ht, Op.sent]) hss (congrArg (run unknown [.lead t v]) hσ)
  have hmoved : (run unknown [.lead t v] σ).leaderValue unknown = v := by
    have hled : (run unknown [.lead t v] σ).leader = some (t, v) := by
      show change σ.leader (t, v) = _
      rw [hleader]
      exact change_of_newer hst hv.symm
    rw [State.leaderValue, hled]
    rfl
  rw [hmoved, show (run unknown [.lead t v] σ).cell = _ from passOn_of_idle hidle (t, v), hcell] at hfinal
  refine foldl_change_overtaken _ ?_ ⟨(g, v), ?_, hfg⟩ hfinal
  · intro w' hw'
    obtain ⟨w, hw, rfl⟩ := List.mem_map.mp hw'
    have hother : w.2 ≠ some a := by simpa using (List.mem_filter.mp (List.mem_of_mem_erase hw)).2
    cases hx : w.2 with
    | none => exact hv
    | some y => exact fun heq => hother (hx.trans (congrArg some heq))
  · have hgin : (g, none) ∈ others := List.mem_filter.mpr ⟨mem_sets.mpr hg, rfl⟩
    have hne : ((g, none) : ℤ × Option V) ≠ (f, none) := fun heq => absurd (Prod.mk.inj heq).1 (ne_of_gt hfg)
    exact List.mem_map.mpr ⟨(g, none), (List.mem_erase_of_ne hne).mpr hgin, rfl⟩

/-- The follower is passed on `a` by the write `o` of the leader, and is overtaken by its own writes. -/
theorem Scenario.le_of_passed {g : ℤ} (hg : Op.set g none ∈ all) {o : Op V} (ho : o ∈ all) (hoa : o.sent = some a)
    (hp : g < o.stamp ∨ Confirmed unknown a all o.stamp) {t : ℤ} {x : Option V} (ht : Op.set t x ∈ all)
    (hx : ∀ σ : State V, (∀ w, σ.leader = some w → w.2 ≠ a) → x.getD ((step unknown σ o).leaderValue unknown) ≠ a)
    (htg : t ≠ g) : t < o.stamp := by
  by_contra hlt
  have hpt : o.stamp < t := lt_of_le_of_ne (not_lt.mp hlt) fun heq => by
    obtain rfl := hscene.eq_of_stamp ho ht heq
    cases hoa
  obtain ⟨ls, ss, hls, hlsent, hss, hsub, hstamp, hsame, hpassed⟩ := hscene.exists_passed hg hp
  have hfresh : (t, x) ∉ ss := fun hin => (hstamp _ hin).elim htg fun hlt' => absurd hlt' (not_lt.mpr (le_of_lt hpt))
  have hleads : ∀ w, (run unknown ls {}).leader = some w → w.2 ≠ a := fun w hw heq =>
    (hlsent _ (mem_of_leader unknown hw)).2.2 (congrArg some heq)
  rw [← hsame] at hleads
  obtain ⟨ss', hperm, hlost⟩ := exists_overtaken hss hsub ht hpt hfresh (hx _ hleads)
  have hnodup : (ls ++ [o]).Nodup := by
    refine List.nodup_append.mpr ⟨hls, by simp, ?_⟩
    rintro o' ho' o'' ho'' rfl
    exact (hlsent o' ho').2.2 (List.mem_singleton.mp ho'' ▸ hoa)
  have hsent : ∀ o' ∈ ls ++ [o], o' ∈ all ∧ o'.sent ≠ none := by
    intro o' ho'
    rcases List.mem_append.mp ho' with ho' | ho'
    · exact ⟨(hlsent o' ho').1, (hlsent o' ho').2.1⟩
    · rw [List.mem_singleton.mp ho']
      exact ⟨ho, by simp [hoa]⟩
  have hfinal := hreach.carried_rounds hscene.stamps hcarried hnewest ls [o] ss ss' hnodup hsent hperm rfl
  have hcell : (run unknown [o] (run unknown (own ss) (run unknown ls {}))).cell = some (o.stamp, a) :=
    (step_of_sent unknown hoa).1.trans hpassed
  rw [hcell] at hfinal
  exact hlost hfinal

omit hreach in
/-- **When a follower whose newest write carries `a` keeps it**, in every order of the writes. -/
theorem Scenario.carried_reaches_iff : Reaches unknown a all ↔ Kept unknown a all h := by
  constructor
  · intro hreach
    have hfollow := hscene.follow_of_reaches hreach hcarried hnewest
    refine ⟨hcarried, hnewest, hscene.own_of_reaches hreach hcarried hnewest,
      hscene.passed_of_reaches hreach hcarried hnewest, hfollow, ?_, ?_, ?_⟩
    · intro f g s t v hf hg hne
      rcases lt_or_gt_of_ne hne with hlt | hlt
      · exact hscene.once_of_lt hreach hcarried hnewest hf hg hlt s t v
      · exact hscene.once_of_lt hreach hcarried hnewest hg hf hlt s t v
    · intro g p t y hg hp hconfirmed ht hy
      have htg : t < g := hfollow p g t y hp hg ht hy
      exact hscene.le_of_passed hreach hcarried hnewest hg hp rfl (Or.inr hconfirmed) ht (fun σ _ => hy) (ne_of_lt htg)
    · intro g p t x hg hp hearly ht hx htg
      refine hscene.le_of_passed hreach hcarried hnewest hg hp rfl hearly ht (fun σ hσ => ?_) htg
      cases x with
      | some y => exact fun heq => hx (congrArg some heq)
      | none =>
        -- what is not stored leaves the leader as it was
        show State.leaderValue unknown σ ≠ a
        unfold State.leaderValue
        cases hl : σ.leader with
        | none => exact hscene.unknown_ne
        | some w => exact hσ w hl
  · exact fun hkept ops hperm => (hkept.perm hperm).reaches (hscene.perm hperm)

end Fails

/-! ### Any follower -/

section Any

variable {unknown} {a : V} {all : List (Op V)} (hscene : Scenario unknown a all)

include hscene

/-- Where every order brings `a` to the follower, its newest write carries `a`, or it follows and the leader leads with
`a`. -/
theorem Scenario.newest_of_reaches (hreach : Reaches unknown a all) :
    ∃ h, (∀ s x, Op.set s x ∈ all → s ≤ h) ∧
      (Op.set h (some a) ∈ all ∨ (Op.set h none ∈ all ∧ ∃ s, Op.lead s a ∈ all)) := by
  have hsome : (sets all).toFinset.Nonempty := by
    rw [List.toFinset_nonempty_iff]
    intro hnil
    obtain ⟨rest, hrest, hfinal⟩ := hreach.rounds hscene.stamps [] [] [] [] List.nodup_nil (by simp) (by rw [hnil]; rfl)
    rw [(run_of_idle unknown (fun o ho => (hrest o ho).2.1) rfl).1] at hfinal
    cases hfinal
  obtain ⟨⟨h, x⟩, hmem, hmax⟩ := Finset.exists_max_image _ Prod.fst hsome
  have hin : (h, x) ∈ sets all := List.mem_toFinset.mp hmem
  have hnewest : ∀ s y, Op.set s y ∈ all → s ≤ h := fun s y hy =>
    hmax (s, y) (List.mem_toFinset.mpr (mem_sets.mpr hy))
  refine ⟨h, hnewest, ?_⟩
  have hfirst : ((h, x) :: (sets all).erase (h, x)).Perm (sets all) := (List.perm_cons_erase hin).symm
  -- the newest write comes first, and the follower's others leave it in place
  have hkeeps : ∀ v, (((sets all).erase (h, x)).map fun w => (w.1, w.2.getD unknown)).foldl change (some (h, v))
      = some (h, v) := by
    refine fun v => foldl_change_keeps _ fun w' hw' _ => ?_
    obtain ⟨w, hw, rfl⟩ := List.mem_map.mp hw'
    exact hnewest w.1 w.2 (mem_sets.mp (List.mem_of_mem_erase hw))
  cases x with
  | some y =>
    have hfinal := hreach.carried_rounds hscene.stamps (mem_sets.mp hin) hnewest [] [] [] _ List.nodup_nil (by simp)
      hfirst (show run unknown [] (run unknown [] (run unknown [] {})) = {} from rfl)
    rw [List.map_cons, List.foldl_cons, Option.getD_some, show change ({} : State V).cell (h, y) = some (h, y) from rfl,
      show State.leaderValue unknown {} = unknown from rfl, hkeeps] at hfinal
    obtain rfl := Option.some.inj hfinal
    exact Or.inl (mem_sets.mp hin)
  | none =>
    refine Or.inr ⟨mem_sets.mp hin, ?_⟩
    by_contra hunled
    -- what is passed on as `a` comes before the follower
    let as := all.filter fun o => decide (o.sent = some a)
    have has : ∀ {o}, o ∈ as ↔ o ∈ all ∧ o.sent = some a := by simp [as]
    obtain ⟨rest, hrest, hfinal⟩ := hreach.rounds hscene.stamps as []
      ((h, none) :: (sets all).erase (h, none)) [] (by
      rw [List.append_nil]
      exact (List.Nodup.of_map _ hscene.stamps).filter _) (by
      intro o ho
      rw [List.append_nil] at ho
      exact ⟨(has.mp ho).1, by simp [(has.mp ho).2]⟩) (by rwa [List.append_nil])
    obtain ⟨hcell, -⟩ := run_of_idle unknown (fun o ho => by simp [(has.mp ho).2])
      (show ({} : State V).following = false from rfl)
    have hleader : (run unknown as {}).leader = none := by
      cases hl : (run unknown as {}).leader with
      | none => rfl
      | some w =>
        have hw := has.mp (mem_of_leader unknown hl)
        have hwa : w.2 = a := Option.some.inj hw.2
        exact absurd ⟨w.1, hwa ▸ hw.1⟩ hunled
    refine run_ne unknown (fun o ho => ⟨(hrest o ho).2.1, fun hoa => (hrest o ho).2.2 ?_⟩) ?_ hfinal
    · rw [List.append_nil]
      exact has.mpr ⟨(hrest o ho).1, hoa⟩
    · show (run unknown (own ((h, none) :: (sets all).erase (h, none))) (run unknown as {})).cell.map Prod.snd ≠ some a
      rw [(run_own unknown _ _).2, hcell, State.leaderValue, hleader, List.map_cons, List.foldl_cons]
      rw [show change ({} : State V).cell (h, (none : Option V).getD ((none.map Prod.snd).getD unknown))
        = some (h, unknown) from rfl]
      rw [show ((none : Option (ℤ × V)).map Prod.snd).getD unknown = unknown from rfl, hkeeps]
      exact fun heq => hscene.unknown_ne (Option.some.inj heq)

/-- **When `a` reaches a follower** in every order of the writes: its newest write follows, the leader leads with `a`
and the writes are orderly, or its newest write carries `a` and it is kept. -/
theorem Scenario.reaches_iff :
    Reaches unknown a all ↔ ∃ h, Orderly unknown a all h ∨ Kept unknown a all h := by
  constructor
  · intro hreach
    obtain ⟨h, hnewest, hcarried | ⟨hfollowed, hled⟩⟩ := hscene.newest_of_reaches hreach
    · exact ⟨h, Or.inr ((hscene.carried_reaches_iff hcarried hnewest).mp hreach)⟩
    · exact ⟨h, Or.inl ((hscene.followed_reaches_iff hfollowed hnewest hled).mp hreach)⟩
  · rintro ⟨h, hord | hkept⟩
    · exact (hscene.followed_reaches_iff hord.followed hord.newest hord.led).mpr hord
    · exact (hscene.carried_reaches_iff hkept.carried hkept.newest).mpr hkept

end Any

end Followers
