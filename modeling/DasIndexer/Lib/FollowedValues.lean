import DasIndexer.Lib.Followers

/-!
# A follower whose newest write follows

Here the newest write of the follower says that it follows.  **`followed_reaches_iff`** says for which writes
the follower ends with the value `a`, with which the leader leads, in every order.
-/

namespace Followers

open ChangedOnly
open LastWriter (newer newer_true_some)

variable {V : Type} [DecidableEq V] (unknown : V)

/-- No order of the writes can keep the leader's value `a` from a follower whose newest write, under stamp
`h`, follows. -/
structure Orderly (a : V) (ops : List (Op V)) (h : ℤ) : Prop where
  followed : Op.set h none ∈ ops
  newest : ∀ s x, Op.set s x ∈ ops → s ≤ h
  /-- The leader stores `a`. -/
  led : ∃ s, Op.lead s a ∈ ops
  /-- What the leader writes else, stored or not, is older than every `a` that it stores. -/
  lead : ∀ s t v, Op.lead s a ∈ ops → Sent ops t v → v ≠ a → t < s
  /-- So are all writes of the follower. -/
  late : ∀ s t x, Op.lead s a ∈ ops → Op.set t x ∈ ops → t < s
  /-- The follower's other values are older than every write of it that follows or carries `a`. -/
  set : ∀ s t x y, Op.set s x ∈ ops → x.getD a = a → Op.set t (some y) ∈ ops → y ≠ a → t < s
  /-- It never follows before it stops following, or is not passed on anything newer than its writes. -/
  pass : (∀ s t y, Op.set s none ∈ ops → Op.set t (some y) ∈ ops → t < s)
    ∨ ∀ t v, Sent ops t v → v ≠ a → t < h
  /-- If it can be passed on an `a` that is not stored over a value of its own, its other values are older
  than this `a`. -/
  confirm : ∀ p t y, Op.pass p a ∈ ops → Confirmed unknown a ops p → Op.set t (some y) ∈ ops → y ≠ a → t < p

section Orderly

variable {unknown} {a : V} {ops all : List (Op V)} {h : ℤ}

omit [DecidableEq V] in
theorem Orderly.perm (hord : Orderly unknown a all h) (hperm : ops.Perm all) : Orderly unknown a ops h := by
  have hmem : ∀ {o}, o ∈ ops ↔ o ∈ all := hperm.mem_iff
  have hsent : ∀ {t v}, Sent ops t v → Sent all t v := fun h => h.mono hperm.subset
  refine ⟨hmem.mpr hord.followed, ?_, ?_, ?_, ?_, ?_, ?_, ?_⟩
  · exact fun s x hx => hord.newest s x (hmem.mp hx)
  · obtain ⟨s, hs⟩ := hord.led
    exact ⟨s, hmem.mpr hs⟩
  · exact fun s t v hs ht => hord.lead s t v (hmem.mp hs) (hsent ht)
  · exact fun s t x hs ht => hord.late s t x (hmem.mp hs) (hmem.mp ht)
  · exact fun s t x y hs hx ht => hord.set s t x y (hmem.mp hs) hx (hmem.mp ht)
  · exact hord.pass.imp (fun hpass s t y hs ht => hpass s t y (hmem.mp hs) (hmem.mp ht))
      fun hpass t v ht => hpass t v (hsent ht)
  · exact fun p t y hp hconfirmed ht =>
      hord.confirm p t y (hmem.mp hp) (hconfirmed.mono unknown hperm.subset) (hmem.mp ht)

end Orderly

/-! ### Orders that do not fail -/

section Reaches

variable {unknown} {a : V} {pre post : List (Op V)} {s h : ℤ}

/-- The leader takes `a`, where it has not led with it before. -/
theorem Orderly.takes_first (hord : Orderly unknown a (pre ++ .lead s a :: post) h)
    (hunled : ∀ s, Op.lead s a ∉ pre) : takes (run unknown pre {}).leader (s, a) = true := by
  cases hl : (run unknown pre {}).leader with
  | none => rfl
  | some w =>
    have hw := mem_of_leader unknown hl
    have hwa : w.2 ≠ a := fun heq => hunled w.1 (heq ▸ hw)
    exact takes_of_newer (hord.lead s w.1 w.2 (by simp) (Or.inl (by simp [hw])) hwa) hwa

/-- No own value that is to come is newer than an `a` that the follower has by then. -/
theorem Orderly.own_le (hscene : Scenario unknown a (pre ++ .lead s a :: post))
    (hord : Orderly unknown a (pre ++ .lead s a :: post) h) (hunled : ∀ s, Op.lead s a ∉ pre) {t : ℤ}
    (hc : (run unknown pre {}).cell = some (t, a)) {u : ℤ} {y : V} (hu : Op.set u (some y) ∈ post) (hy : y ≠ a) :
    u ≤ t := by
  have hu' : Op.set u (some y) ∈ pre ++ .lead s a :: post := by simp [hu]
  obtain ⟨pre', o, post', rfl, ⟨x, rfl, hx⟩ | ⟨rfl, hsent, hfollow, htakes, old, hold, hlt⟩⟩ := exists_write unknown hc
  · cases x with
    | some z =>
      obtain rfl : a = z := hx
      exact le_of_lt (hord.set t u (some a) y (by simp) rfl hu' hy)
    | none =>
      obtain ⟨r, hr⟩ := exists_lead_of_leaderValue unknown hscene.unknown_ne hx.symm
      exact absurd (List.mem_append_left _ hr) (hunled r)
  · -- it has been passed on without being stored
    obtain ⟨p, rfl⟩ : ∃ p, o = .pass p a := by
      cases o with
      | lead p v =>
        obtain rfl := Option.some.inj hsent
        exact absurd (by simp) (hunled p)
      | pass p v =>
        obtain rfl := Option.some.inj hsent
        exact ⟨p, rfl⟩
      | set p x => cases hsent
    by_contra hut
    have hpu : p < u := not_le.mp hut
    have hnone : ∀ g, Op.set g none ∈ pre' → p < g := fun g hg =>
      lt_trans hpu (hord.set g u none y (by simp [hg]) rfl hu' hy)
    obtain ⟨r, z, hr, hrp, hcopied⟩ := exists_confirmed unknown hfollow htakes hold hlt hnone
    have hz : z ≠ a := by
      rintro rfl
      have hur := hord.set r u (some z) y (by simp [hr]) rfl hu' hy
      exact absurd (lt_trans hur hrp) (not_lt.mpr (le_of_lt hpu))
    have hconfirmed : Confirmed unknown a pre' p := ⟨r, z, hr, hz, hrp, hcopied⟩
    refine absurd (hord.confirm p u y (by simp) (hconfirmed.mono unknown fun o ho => by simp [ho]) hu' hy) ?_
    exact not_lt.mpr (le_of_lt hpu)

/-- If the follower does not follow by then, its newest write is still to come and is newer than its cell. -/
theorem Orderly.newest_to_come (hscene : Scenario unknown a (pre ++ .lead s a :: post))
    (hord : Orderly unknown a (pre ++ .lead s a :: post) h) {t : ℤ} {x : V}
    (hc : (run unknown pre {}).cell = some (t, x)) (hx : x ≠ a) (hidle : (run unknown pre {}).following = false) :
    Op.set h none ∈ post ∧ t < h := by
  obtain ⟨pre', o, post', rfl, hwrote⟩ := exists_write unknown hc
  -- its newest write so far, of stamp `f`, carries a value of its own
  obtain ⟨s₀, x₀, hs₀⟩ : ∃ s₀ x₀, Op.set s₀ x₀ ∈ pre' ++ o :: post' := by
    rcases hwrote with ⟨y, rfl, -⟩ | ⟨-, -, hfollow, -⟩
    · exact ⟨t, y, by simp⟩
    · obtain ⟨g, hg⟩ := exists_none_of_following unknown hfollow
      exact ⟨g, none, by simp [hg]⟩
  obtain ⟨f, y, hf, hfmax, hfollows⟩ := exists_newest unknown hs₀
  obtain ⟨z, rfl⟩ : ∃ z, y = some z := by
    cases y with
    | none =>
      rw [State.following, hfollows] at hidle
      cases hidle
    | some z => exact ⟨z, rfl⟩
  have hnot : Op.set h none ∉ pre' ++ o :: post' := by
    intro hin
    have heq : f = h := le_antisymm (hord.newest f _ (List.mem_append_left _ hf)) (hfmax h none hin)
    cases hscene.eq_of_stamp (List.mem_append_left _ hf) (List.mem_append_left _ hin) heq
  have hpost : Op.set h none ∈ post := by
    rcases List.mem_append.mp hord.followed with hin | hin
    · exact absurd hin hnot
    · rcases List.mem_cons.mp hin with heq | hin
      · cases heq
      · exact hin
  refine ⟨hpost, ?_⟩
  rcases hwrote with ⟨y, rfl, -⟩ | ⟨rfl, hsent, hfollow, -⟩
  · refine lt_of_le_of_ne (hord.newest t y (by simp)) fun heq => ?_
    exact hnot (hscene.eq_of_stamp (o := .set t y) (by simp) hord.followed heq ▸ by simp)
  · rcases hord.pass with hpass | hpass
    · obtain ⟨g, hg⟩ := exists_none_of_following unknown hfollow
      have hfg := hpass g f z (by simp [hg]) (List.mem_append_left _ hf)
      exact absurd hfg (not_lt.mpr (hfmax g none (by simp [hg])))
    · exact hpass o.stamp x (sent_iff.mpr ⟨o, by simp, rfl, hsent⟩) hx

/-- When the leader takes `a`, the follower's cell is ready for the writes that are still to come. -/
theorem Orderly.ready (hscene : Scenario unknown a (pre ++ .lead s a :: post))
    (hord : Orderly unknown a (pre ++ .lead s a :: post) h) (hunled : ∀ s, Op.lead s a ∉ pre) :
    Ready a ((sets post).map fun w => (w.1, w.2.getD a)) ((run unknown pre {}).passOn (s, a)) := by
  have hcome : Op.set h none ∈ post → (h, a) ∈ (sets post).map fun w => (w.1, w.2.getD a) := fun hin =>
    List.mem_map.mpr ⟨(h, none), mem_sets.mpr hin, rfl⟩
  -- a write to come that is not `a` carries a value of its own
  have hown : ∀ w ∈ (sets post).map (fun w => (w.1, w.2.getD a)), w.2 ≠ a →
      ∃ y, Op.set w.1 (some y) ∈ post ∧ y ≠ a := by
    intro w' hw' hne
    obtain ⟨w, hw, rfl⟩ := List.mem_map.mp hw'
    cases hx : w.2 with
    | none =>
      rw [hx] at hne
      exact absurd rfl hne
    | some y =>
      rw [hx] at hne
      exact ⟨y, hx ▸ mem_sets.mp hw, hne⟩
  cases hc : (run unknown pre {}).cell with
  | none =>
    -- the follower has written nothing yet
    have hpost : Op.set h none ∈ post := by
      rcases List.mem_append.mp hord.followed with hin | hin
      · obtain ⟨c, hc'⟩ := cell_isSome unknown hin
        rw [hc] at hc'
        cases hc'
      · rcases List.mem_cons.mp hin with heq | hin
        · cases heq
        · exact hin
    rcases passOn_cases (run unknown pre {}) (s, a) with heq | ⟨-, -, -, old, hold, -⟩
    · rw [heq, hc]
      exact ready_none ⟨(h, a), hcome hpost, rfl⟩
    · rw [hc] at hold
      cases hold
  | some c =>
    obtain ⟨t, x⟩ := c
    by_cases hx : x = a
    · subst hx
      rw [passOn_of_same hc]
      refine ⟨fun t' ht' w hw hwa => ?_, fun hnot => absurd rfl hnot⟩
      obtain ⟨rfl, -⟩ := Prod.mk.inj (Option.some.inj ht')
      obtain ⟨y, hy, hya⟩ := hown w hw hwa
      exact hord.own_le hscene hunled hc hy hya
    · have hts : t < s := by
        obtain ⟨pre', o, post', rfl, ⟨y, rfl, -⟩ | ⟨rfl, hsent, -⟩⟩ := exists_write unknown hc
        · exact hord.late s t y (by simp) (by simp)
        · exact hord.lead s o.stamp x (by simp) (sent_iff.mpr ⟨o, by simp, rfl, hsent⟩) hx
      cases hfollow : (run unknown pre {}).following with
      | true =>
        have hpassed : (run unknown pre {}).passOn (s, a) = some (s, a) := by
          rw [State.passOn, if_pos ⟨hord.takes_first hunled, hfollow⟩, hc, Option.bind_some]
          exact change_of_newer hts hx
        rw [hpassed]
        refine ⟨fun t' ht' w hw hwa => ?_, fun hnot => absurd rfl hnot⟩
        obtain ⟨rfl, -⟩ := Prod.mk.inj (Option.some.inj ht')
        obtain ⟨y, hy, -⟩ := hown w hw hwa
        exact le_of_lt (hord.late s w.1 (some y) (by simp) (by simp [hy]))
      | false =>
        obtain ⟨hpost, hlt⟩ := hord.newest_to_come hscene hc hx hfollow
        rw [passOn_of_idle hfollow, hc]
        refine ⟨fun t' ht' => absurd (Prod.mk.inj (Option.some.inj ht')).2 hx, fun _ => ?_⟩
        refine ⟨(h, a), hcome hpost, rfl, ?_⟩
        intro old hold
        obtain rfl := Option.some.inj hold
        exact hlt

/-- **Orderly writes bring the leader's value to the follower.** -/
theorem Orderly.reaches {ops : List (Op V)} (hscene : Scenario unknown a ops) (hord : Orderly unknown a ops h) :
    (run unknown ops {}).cell.map Prod.snd = some a := by
  -- the first time that the leader leads with `a`
  have hfirst : ∃ o, ops.find? (Op.leadsWith a) = some o := by
    obtain ⟨s₀, hs₀⟩ := hord.led
    rw [← Option.isSome_iff_exists, List.find?_isSome]
    exact ⟨.lead s₀ a, hs₀, decide_eq_true rfl⟩
  obtain ⟨o, ho⟩ := hfirst
  obtain ⟨hoa, pre, post, rfl, hpre⟩ := List.find?_eq_some_iff_append.mp ho
  obtain ⟨s, rfl⟩ : ∃ s, o = .lead s a := by
    cases o with
    | lead s v => exact ⟨s, by rw [of_decide_eq_true hoa]⟩
    | pass s v => cases hoa
    | set s v => cases hoa
  have hunled : ∀ t, Op.lead t a ∉ pre := by
    intro t ht
    have hnot := hpre _ ht
    rw [Op.leadsWith, decide_eq_true rfl] at hnot
    cases hnot
  have hleader : (step unknown (run unknown pre {}) (.lead s a)).leader = some (s, a) := by
    show change (run unknown pre {}).leader (s, a) = _
    rw [change_eq_ite, if_pos (hord.takes_first hunled)]
  rw [run_append, run_cons, run_of_settled unknown (fun t v ht hv => le_of_lt ?_) hleader]
  · refine foldl_change_settled _ ?_ _ (hord.ready hscene hunled)
    intro x hx y hy hxa hya
    obtain ⟨v, hv, rfl⟩ := List.mem_map.mp hx
    obtain ⟨w, hw, rfl⟩ := List.mem_map.mp hy
    cases hwy : w.2 with
    | none =>
      simp [hwy] at hya
    | some z =>
      have hz : z ≠ a := by simpa [hwy] using hya
      exact hord.set v.1 w.1 v.2 z (by simp [mem_sets.mp hv]) hxa
        (by simpa using Or.inr (hwy ▸ mem_sets.mp hw)) hz
  · exact hord.lead s t v (by simp) (ht.mono fun o ho => by simp [ho]) hv

end Reaches

/-! ### Orders that fail -/

section Fails

variable {unknown} {a : V} {all : List (Op V)} {h : ℤ} (hscene : Scenario unknown a all)
  (hreach : Reaches unknown a all)

include hscene hreach

/-- The follower comes first and copies nothing, under a stamp that the leader cannot replace. -/
theorem Scenario.late_of_reaches (hfollowed : Op.set h none ∈ all) (hnewest : ∀ s x, Op.set s x ∈ all → s ≤ h)
    (s t : ℤ) (x : Option V) (hs : Op.lead s a ∈ all) (ht : Op.set t x ∈ all) : t < s := by
  by_contra hlt
  have hsh : s ≤ h := le_trans (not_lt.mp hlt) (hnewest t x ht)
  obtain ⟨as, hnodup, has⟩ := exists_sent_first hscene.stamps hs rfl
  have hperm : (((h, none) :: (sets all).erase (h, none)) ++ []).Perm (sets all) := by
    rw [List.append_nil]
    exact (List.perm_cons_erase (mem_sets.mpr hfollowed)).symm
  obtain ⟨rest, hrest, hfinal⟩ := hreach.rounds hscene.stamps [] (.lead s a :: as) _ [] hnodup
    (fun o ho => ⟨((has o).mp ho).1, by simp [((has o).mp ho).2]⟩) hperm
  obtain ⟨hleader, hcell⟩ := run_own unknown ((h, none) :: (sets all).erase (h, none)) {}
  have hfirst : (run unknown (own ((h, none) :: (sets all).erase (h, none))) {}).cell = some (h, unknown) := by
    rw [hcell]
    refine foldl_change_keeps ((((sets all).erase (h, none))).map fun w => (w.1, w.2.getD unknown)) ?_
    intro w' hw' _
    obtain ⟨w, hw, rfl⟩ := List.mem_map.mp hw'
    exact hnewest w.1 w.2 (mem_sets.mp (List.mem_of_mem_erase hw))
  rw [show run unknown ([] : List (Op V)) {} = {} from rfl] at hfinal
  generalize run unknown (own ((h, none) :: (sets all).erase (h, none))) {} = σ at hleader hcell hfinal hfirst
  -- the first write of the leader is not passed on, and the others that confirm it change nothing
  have hled : (step unknown σ (.lead s a)).leader = some (s, a) := by
    show change σ.leader (s, a) = _
    rw [hleader]
    rfl
  have hkept : (step unknown σ (.lead s a)).cell = some (h, unknown) := by
    show σ.passOn (s, a) = _
    rcases passOn_cases σ (s, a) with heq | ⟨-, -, -, old, hold, hlt'⟩
    · exact heq.trans hfirst
    · obtain rfl := Option.some.inj (hfirst.symm.trans hold)
      exact absurd hlt' (not_lt.mpr hsh)
  rw [run_cons, run_same unknown (fun o ho => ((has o).mp (List.mem_cons_of_mem _ ho)).2) hled] at hfinal
  refine run_ne unknown (fun o ho => ⟨(hrest o ho).2.1, fun hoa => (hrest o ho).2.2 ?_⟩) ?_ hfinal
  · exact (has o).mpr ⟨(hrest o ho).1, hoa⟩
  · show (step unknown σ (.lead s a)).cell.map Prod.snd ≠ some a
    rw [hkept]
    exact fun heq => hscene.unknown_ne (Option.some.inj heq)

/-- Once the leader has `a` and the follower has made all its writes, it follows, and its cell is older. -/
theorem Scenario.copied (hfollowed : Op.set h none ∈ all) (hnewest : ∀ s x, Op.set s x ∈ all → s ≤ h) {s : ℤ}
    (hs : Op.lead s a ∈ all) :
    (run unknown (own (sets all)) ⟨some (s, a), none, none⟩).leader = some (s, a) ∧
      (run unknown (own (sets all)) ⟨some (s, a), none, none⟩).following = true ∧
      ∃ c, (run unknown (own (sets all)) ⟨some (s, a), none, none⟩).cell = some c ∧ c.1 < s := by
  obtain ⟨hleader, hcell⟩ := run_own unknown (sets all) ⟨some (s, a), none, none⟩
  have hsame : run unknown (.lead s a :: own (sets all)) {}
      = run unknown (own (sets all)) ⟨some (s, a), none, none⟩ := rfl
  have hsub : .lead s a :: own (sets all) ⊆ all := by
    refine List.cons_subset.mpr ⟨hs, fun o ho => ?_⟩
    obtain ⟨w, hw, rfl⟩ := List.mem_map.mp ho
    exact mem_sets.mp hw
  have hmem : Op.set h none ∈ .lead s a :: own (sets all) :=
    List.mem_cons_of_mem _ (mem_own.mpr (mem_sets.mpr hfollowed))
  have hfollows := follows_of_newest unknown hscene.stamps hnewest hsub hmem
  obtain ⟨c, hc⟩ := cell_isSome unknown hmem
  rw [hsame] at hfollows hc
  refine ⟨hleader, by rw [State.following, hfollows]; rfl, c, hc, ?_⟩
  rw [hcell] at hc
  rcases foldl_change_mem _ _ hc with hin | hnone
  · obtain ⟨w, hw, rfl⟩ := List.mem_map.mp hin
    exact hscene.late_of_reaches hreach hfollowed hnewest s w.1 w.2 hs (mem_sets.mp hw)
  · cases hnone

/-- The follower has copied `a`, and is passed on what overtakes it. -/
theorem Scenario.lead_of_reaches (hfollowed : Op.set h none ∈ all) (hnewest : ∀ s x, Op.set s x ∈ all → s ≤ h)
    (s t : ℤ) (v : V) (hs : Op.lead s a ∈ all) (ht : Sent all t v) (hv : v ≠ a) : t < s := by
  by_contra hlt
  obtain ⟨o, ho, rfl, hov⟩ := sent_iff.mp ht
  have hne : s ≠ o.stamp := by
    intro heq
    obtain rfl := hscene.eq_of_stamp hs ho heq
    exact hv (Option.some.inj hov).symm
  have hst : s < o.stamp := lt_of_le_of_ne (not_lt.mp hlt) hne
  obtain ⟨as, hnodup, has⟩ := exists_sent_first hscene.stamps hs rfl
  have hoa : o.sent ≠ some a := fun heq => hv (Option.some.inj (hov.symm.trans heq))
  have hfresh : o ∉ .lead s a :: as := fun hin => hoa ((has o).mp hin).2
  have hsent : ∀ o' ∈ .lead s a :: as ++ [o], o' ∈ all ∧ o'.sent ≠ none := by
    intro o' ho'
    rcases List.mem_append.mp ho' with ho' | ho'
    · exact ⟨((has o').mp ho').1, by simp [((has o').mp ho').2]⟩
    · rw [List.mem_singleton.mp ho']
      exact ⟨ho, by simp [hov]⟩
  obtain ⟨rest, hrest, hfinal⟩ := hreach.rounds hscene.stamps (.lead s a :: as) [o] (sets all) []
    (List.nodup_append.mpr ⟨hnodup, List.nodup_singleton o, by
      rintro b hb c hc rfl
      exact hfresh (List.mem_singleton.mp hc ▸ hb)⟩) hsent (by rw [List.append_nil])
  -- the leader has `a`, and the follower has copied it
  have hled := run_first_lead unknown (s := s) fun o ho => ((has o).mp (List.mem_cons_of_mem _ ho)).2
  rw [hled] at hfinal
  obtain ⟨hleader, hfollow, c, hc, hcs⟩ := hscene.copied hreach hfollowed hnewest hs
  generalize run unknown (own (sets all)) ⟨some (s, a), none, none⟩ = σ at hfinal hleader hfollow hc
  have htakes : takes σ.leader (o.stamp, v) = true := by
    rw [hleader]
    exact takes_of_newer hst hv.symm
  refine run_ne unknown (fun o' ho' => ⟨(hrest o' ho').2.1, fun hoa' => (hrest o' ho').2.2 ?_⟩) ?_ hfinal
  · exact List.mem_append_left _ ((has o').mpr ⟨(hrest o' ho').1, hoa'⟩)
  · show (step unknown σ o).cell.map Prod.snd ≠ some a
    rw [(step_of_sent unknown hov).1, passOn_of_newer hfollow htakes hc (lt_trans hcs hst)]
    exact fun heq => hv (Option.some.inj heq)

/-- The leader has its value, and then the follower is overtaken by its own writes. -/
theorem Scenario.set_of_reaches (hled : ∃ s, Op.lead s a ∈ all) (s t : ℤ) (x : Option V) (y : V)
    (hs : Op.set s x ∈ all) (hx : x.getD a = a) (ht : Op.set t (some y) ∈ all) (hy : y ≠ a) : t < s := by
  by_contra hlt
  have hne : s ≠ t := by
    intro heq
    obtain ⟨-, rfl⟩ := Op.set.inj (hscene.eq_of_stamp hs ht heq)
    exact hy hx
  have hsin : (s, x) ∈ sets all := mem_sets.mpr hs
  have htin : (t, some y) ∈ sets all := mem_sets.mpr ht
  obtain ⟨ss, hss, hlost⟩ := exists_perm_lost (fun w : ℤ × Option V => (w.1, w.2.getD a)) hsin htin hx hy
    (lt_of_le_of_ne (not_lt.mp hlt) hne)
  obtain ⟨s₀, hs₀⟩ := hled
  obtain ⟨as, hnodup, has⟩ := exists_sent_first hscene.stamps hs₀ rfl
  have hsent : ∀ o ∈ .lead s₀ a :: as ++ [], o ∈ all ∧ o.sent ≠ none := by
    intro o ho
    rw [List.append_nil] at ho
    exact ⟨((has o).mp ho).1, by simp [((has o).mp ho).2]⟩
  obtain ⟨rest, hrest, hfinal⟩ := hreach.rounds hscene.stamps (.lead s₀ a :: as) [] ss [] (by simpa using hnodup)
    hsent (by simpa using hss)
  have hled := run_first_lead unknown (s := s₀) fun o ho => ((has o).mp (List.mem_cons_of_mem _ ho)).2
  rw [hled] at hfinal
  refine run_ne unknown (fun o ho => ⟨(hrest o ho).2.1, fun hoa => (hrest o ho).2.2 ?_⟩) ?_ hfinal
  · rw [List.append_nil]
    exact (has o).mpr ⟨(hrest o ho).1, hoa⟩
  · show (run unknown (own ss) ⟨some (s₀, a), none, none⟩).cell.map Prod.snd ≠ some a
    rw [(run_own unknown ss _).2]
    exact hlost

omit hscene hreach in
/-- Following at stamp `g`, the follower takes what the leader sends, and stops following at stamp `w`. -/
theorem run_stop_following (unknown : V) {o : Op V} {g w s : ℤ} {v y : V} (hov : o.sent = some v) (hgw : g < w)
    (hwo : w < o.stamp) (hos : o.stamp < s) (hv : v ≠ a) (hknown : v ≠ unknown) :
    (run unknown [Op.set g none, o, .set w (some y), .lead s a] {}).leader = some (s, a) ∧
      (run unknown [Op.set g none, o, .set w (some y), .lead s a] {}).cell = some (o.stamp, v) := by
  have h1 : step unknown {} (.set g none) = ⟨none, some (g, unknown), some (g, true)⟩ := rfl
  obtain ⟨hcell, hfollows⟩ := @step_of_sent V _ unknown ⟨none, some (g, unknown), some (g, true)⟩ o v hov
  have hpassed : (step unknown ⟨none, some (g, unknown), some (g, true)⟩ o).cell = some (o.stamp, v) := by
    rw [hcell]
    exact change_of_newer (lt_trans hgw hwo) hknown.symm
  have hleader : ∀ old, (step unknown ⟨none, some (g, unknown), some (g, true)⟩ o).leader = some old →
      old = (o.stamp, v) := by
    intro old hold
    cases o with
    | lead t v' =>
      obtain rfl := Option.some.inj hov
      exact (Option.some.inj hold).symm
    | pass t v' => cases hold
    | set t x => cases hov
  rw [run_cons, run_cons, h1]
  generalize step unknown ⟨none, some (g, unknown), some (g, true)⟩ o = σ at hfollows hpassed hleader
  obtain ⟨leader, cell, follows⟩ := σ
  obtain rfl : cell = some (o.stamp, v) := hpassed
  obtain rfl : follows = some (g, true) := hfollows
  have h3 : step unknown ⟨leader, some (o.stamp, v), some (g, true)⟩ (.set w (some y))
      = ⟨leader, some (o.stamp, v), some (w, false)⟩ := by
    show State.mk leader (change (some (o.stamp, v)) (w, y)) (newer true (some (g, true)) (w, false)) = _
    rw [change_of_not_newer (le_of_lt hwo), newer_true_some, if_pos (le_of_lt hgw)]
  rw [run_cons, h3]
  refine ⟨?_, passOn_of_idle rfl _⟩
  show change leader (s, a) = some (s, a)
  cases leader with
  | none => rfl
  | some old =>
    obtain rfl := hleader old rfl
    exact change_of_newer hos hv

/-- The leader passes another value on to the follower, which then stops following and cannot get rid of it. -/
theorem Scenario.pass_of_reaches (hfollowed : Op.set h none ∈ all) (hnewest : ∀ s x, Op.set s x ∈ all → s ≤ h)
    (hled : ∃ s, Op.lead s a ∈ all) :
    (∀ s t y, Op.set s none ∈ all → Op.set t (some y) ∈ all → t < s)
      ∨ ∀ t v, Sent all t v → v ≠ a → t < h := by
  by_contra hnot
  rw [not_or] at hnot
  obtain ⟨hfollow, hpass⟩ := hnot
  push Not at hfollow hpass
  obtain ⟨g, w, y, hg, hw, hgw⟩ := hfollow
  obtain ⟨t, v, ht, hv, hht⟩ := hpass
  obtain ⟨s, hs⟩ := hled
  obtain ⟨o, ho, rfl, hov⟩ := sent_iff.mp ht
  have hgw' : g < w := lt_of_le_of_ne hgw fun heq => by cases hscene.eq_of_stamp hg hw heq
  have hht' : h < o.stamp := lt_of_le_of_ne hht fun heq => by
    obtain rfl := hscene.eq_of_stamp hfollowed ho heq
    cases hov
  have hlead := hscene.lead_of_reaches hreach hfollowed hnewest
  have hts : o.stamp < s := hlead s o.stamp v hs ht hv
  have hall : ∀ u x, Op.set u x ∈ all → u < o.stamp := fun u x hu => lt_of_le_of_lt (hnewest u x hu) hht'
  -- these four writes first, then the rest
  obtain ⟨rest, hperm⟩ : ∃ rest, ([Op.set g none, o, .set w (some y), .lead s a] ++ rest).Perm all := by
    refine exists_perm_front ?_ (by simp [hg, ho, hw, hs])
    have hos : o ≠ .lead s a := by
      rintro rfl
      exact absurd hts (lt_irrefl _)
    have hog : .set g none ≠ o := by
      rintro rfl
      cases hov
    have how : o ≠ .set w (some y) := by
      rintro rfl
      cases hov
    simp [hos, hog, how]
  have hrest : ∀ {o}, o ∈ rest → o ∈ all := fun ho => hperm.subset (List.mem_append_right _ ho)
  obtain ⟨hleader, hcell⟩ := run_stop_following unknown hov hgw' (hall w _ hw) hts hv (hscene.known _ _ ht) (y := y)
  have hfinal := hreach _ hperm
  rw [run_append, run_of_settled unknown ?_ hleader, hcell, foldl_change_keeps] at hfinal
  · exact hv (Option.some.inj hfinal)
  · intro p' hp' _
    obtain ⟨p, hp, rfl⟩ := List.mem_map.mp hp'
    exact le_of_lt (hall p.1 p.2 (hrest (mem_sets.mp hp)))
  · exact fun t' v' ht' hv' => le_of_lt (hlead s t' v' hs (ht'.mono fun o ho => hrest ho) hv')

/-- The follower is passed on an `a` that is not stored, and is overtaken by its own writes. -/
theorem Scenario.confirm_of_reaches (hfollowed : Op.set h none ∈ all) (hnewest : ∀ s x, Op.set s x ∈ all → s ≤ h)
    (hled : ∃ s, Op.lead s a ∈ all) (p t : ℤ) (y : V) (hp : Op.pass p a ∈ all)
    (hconfirmed : Confirmed unknown a all p) (ht : Op.set t (some y) ∈ all) (hy : y ≠ a) : t < p := by
  by_contra hlt
  have hpt : p < t := lt_of_le_of_ne (not_lt.mp hlt) fun heq => by cases hscene.eq_of_stamp hp ht heq
  obtain ⟨s, hs⟩ := hled
  have hlead := hscene.lead_of_reaches hreach hfollowed hnewest
  have hth : t < h := hscene.set_of_reaches hreach ⟨s, hs⟩ h t none y hfollowed rfl ht hy
  obtain ⟨ls, ss, hls, hlsent, hss, hsub, hstamp, hsame, hpassed⟩ :=
    hscene.exists_passed hfollowed (Or.inr hconfirmed)
  have hfresh : (t, some y) ∉ ss := by
    intro hin
    rcases hstamp _ hin with heq | hlt'
    · exact absurd heq (ne_of_lt hth)
    · exact absurd hlt' (not_lt.mpr (le_of_lt hpt))
  obtain ⟨ss', hperm, hlost⟩ := exists_overtaken hss hsub ht hpt hfresh (v := a) (x := some y) hy
  have hnodup : (ls ++ [Op.pass p a, Op.lead s a]).Nodup := by
    refine List.nodup_append.mpr ⟨hls, by simp, ?_⟩
    rintro o ho o' ho' rfl
    exact (hlsent o ho).2.2 (by rcases List.mem_pair.mp ho' with rfl | rfl <;> rfl)
  have hsent : ∀ o ∈ ls ++ [Op.pass p a, Op.lead s a], o ∈ all ∧ o.sent ≠ none := by
    intro o ho
    rcases List.mem_append.mp ho with ho | ho
    · exact ⟨(hlsent o ho).1, (hlsent o ho).2.1⟩
    · rcases List.mem_pair.mp ho with rfl | rfl
      · exact ⟨hp, by simp [Op.sent]⟩
      · exact ⟨hs, by simp [Op.sent]⟩
  obtain ⟨rest, hrest, hfinal⟩ := hreach.rounds hscene.stamps ls [Op.pass p a, Op.lead s a] ss ss' hnodup hsent hperm
  have hleads : ∀ w, (run unknown ls {}).leader = some w → w.1 < s ∧ w.2 ≠ a := by
    intro w hw
    have hin := mem_of_leader unknown hw
    have hne : w.2 ≠ a := fun heq => (hlsent _ hin).2.2 (congrArg some heq)
    exact ⟨hlead s w.1 w.2 hs (Or.inl (hlsent _ hin).1) hne, hne⟩
  rw [← hsame] at hleads
  generalize run unknown (own ss) (run unknown ls {}) = σ at hfinal hpassed hleads
  have hended : (run unknown [Op.pass p a, Op.lead s a] σ).leader = some (s, a) := by
    show change σ.leader (s, a) = _
    cases hl : σ.leader with
    | none => rfl
    | some w => exact change_of_newer (hleads w hl).1 (hleads w hl).2
  have hcell : (run unknown [Op.pass p a, Op.lead s a] σ).cell = some (p, a) := passOn_of_same hpassed
  obtain ⟨hkept, hown⟩ := run_own unknown ss' (run unknown [Op.pass p a, Op.lead s a] σ)
  rw [run_of_settled_sent unknown (fun o ho => (hrest o ho).2.1) (fun u v hu hv => le_of_lt (hlead s u v hs
    (hu.mono fun o ho => (hrest o ho).1) hv)) (hkept.trans hended), hown, hcell] at hfinal
  rw [show (run unknown [Op.pass p a, Op.lead s a] σ).leaderValue unknown = a by rw [State.leaderValue, hended]; rfl]
    at hfinal
  exact hlost hfinal

omit hreach in
/-- **When the leader's value reaches a follower whose newest write follows**, in every order of the writes. -/
theorem Scenario.followed_reaches_iff (hfollowed : Op.set h none ∈ all)
    (hnewest : ∀ s x, Op.set s x ∈ all → s ≤ h) (hled : ∃ s, Op.lead s a ∈ all) :
    Reaches unknown a all ↔ Orderly unknown a all h := by
  constructor
  · intro hreach
    exact ⟨hfollowed, hnewest, hled, hscene.lead_of_reaches hreach hfollowed hnewest,
      hscene.late_of_reaches hreach hfollowed hnewest, hscene.set_of_reaches hreach hled,
      hscene.pass_of_reaches hreach hfollowed hnewest hled,
      hscene.confirm_of_reaches hreach hfollowed hnewest hled⟩
  · exact fun hord ops hperm => (hord.perm hperm).reaches (hscene.perm hperm)

end Fails

end Followers
