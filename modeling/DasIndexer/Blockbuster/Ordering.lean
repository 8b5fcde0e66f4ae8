import DasIndexer.Blockbuster.Provenance

/-!
# The order of the instructions of a transaction

`executionOrder` says what the list of instructions of a transaction is meant to be: the calls recorded for
the first outer instruction, that instruction, the calls of the second, and so on.
**`orderInstructions_complete`** compares it with `orderInstructions`: the entries are the instructions of
known programs in this order, an outer entry carries all of its calls, and the lists that the hoisted entries
of one program carry cut the calls, from the first one of the program on, into consecutive segments.

A group of calls names its outer instruction by a byte, and the position of an outer instruction is cut down
to a byte before the two are compared, so that this needs a message of at most 256 instructions.
-/

namespace DasIndexer

open Fallible

/-- An instruction of the ordered list, with the instructions taken to be its calls. -/
abbrev OrderedIx := IxPair × Option (List IxPair)

/-! ### Hoisting -/

/-- What `hoistKnownPrograms` makes of the first instruction of a list, and of the others. -/
theorem hoistKnownPrograms_cons (programs : List Pubkey) (ix : IxPair) (ixPairs : List IxPair) :
    hoistKnownPrograms programs (ix :: ixPairs)
      = (if ix.1 ∈ programs then [(ix, some (ixPairs.takeWhile fun q => decide (q.1 ≠ ix.1)))] else [])
        ++ hoistKnownPrograms programs ixPairs := by
  have hrest : (((ixPairs.zipIdx 1).filter fun e => decide (e.1.1 ∈ programs)).map fun e =>
      (e.1, some (((ix :: ixPairs).drop (e.2 + 1)).takeWhile fun q => decide (q.1 ≠ e.1.1))))
      = hoistKnownPrograms programs ixPairs := by
    rw [List.zipIdx_succ, List.filter_map, List.map_map]
    rfl
  unfold hoistKnownPrograms at hrest ⊢
  rw [List.zipIdx_cons, List.filter_cons]
  by_cases hix : ix.1 ∈ programs
  · rw [if_pos (by simpa using hix), if_pos hix, List.map_cons, hrest]
    rfl
  · rw [if_neg (by simpa using hix), if_neg hix, hrest]
    rfl

/-- Hoisting keeps the instructions of known programs, in order. -/
theorem hoistKnownPrograms_fst (programs : List Pubkey) (ixPairs : List IxPair) :
    (hoistKnownPrograms programs ixPairs).map (·.1)
      = ixPairs.filter fun q => decide (q.1 ∈ programs) := by
  induction ixPairs with
  | nil => rfl
  | cons ix ixPairs ih =>
    rw [hoistKnownPrograms_cons, List.map_append, ih, List.filter_cons]
    by_cases hix : ix.1 ∈ programs
    · simp [hix]
    · simp [hix]

/-- The entries of one program among the hoisted ones. -/
def entriesOf (p : Pubkey) (entries : List OrderedIx) :
    List OrderedIx :=
  entries.filter fun e => decide (e.1.1 = p)

/-- An entry followed by the list it carries. -/
def stretch (entry : OrderedIx) : List IxPair := entry.1 :: entry.2.getD []

/-- The entries of a known program, each with the list it carries, are what is left of the inner
instructions from the program's first one on. -/
theorem stretches_hoistKnownPrograms {programs : List Pubkey} {p : Pubkey} (hp : p ∈ programs)
    (ixPairs : List IxPair) :
    (entriesOf p (hoistKnownPrograms programs ixPairs)).flatMap stretch
      = ixPairs.dropWhile fun q => decide (q.1 ≠ p) := by
  induction ixPairs with
  | nil => rfl
  | cons ix ixPairs ih =>
    rw [hoistKnownPrograms_cons, entriesOf, List.filter_append, List.flatMap_append]
    change _ ++ (entriesOf p (hoistKnownPrograms programs ixPairs)).flatMap stretch = _
    rw [ih, List.dropWhile_cons]
    by_cases hix : ix.1 = p
    · subst hix
      simp [hp, stretch, List.takeWhile_append_dropWhile]
    · by_cases hknown : ix.1 ∈ programs <;> simp [hix, hknown]

/-- A hoisted entry carries no instruction of its own program. -/
theorem carried_ne {programs : List Pubkey} {ixPairs : List IxPair}
    {entry : OrderedIx} (h : entry ∈ hoistKnownPrograms programs ixPairs) :
    ∃ carried, entry.2 = some carried ∧ ∀ q ∈ carried, q.1 ≠ entry.1.1 := by
  obtain ⟨e, _, rfl⟩ := List.mem_map.mp h
  refine ⟨_, rfl, fun q hq => ?_⟩
  simpa using List.mem_takeWhile_imp hq

/-! ### Execution order -/

/-- The calls of the outer instruction at position `k`: every group with this index, each call with the
program that its index names. -/
def innerAt (accountKeys : List Pubkey) (metaInnerInstructions : List InnerInstructions) (k : ℕ) :
    List IxPair :=
  ((metaInnerInstructions.filter fun ix => ix.index.toNat = k).flatMap (·.instructions)).filterMap fun ix =>
    (accountKeys[ix.instruction.programIdIndex.toNat]?).map fun pid => (pid, ix.instruction)

/-- An outer instruction with its program, where the index is one of a key. -/
def outerAt (accountKeys : List Pubkey) (messageInstruction : CompiledInstruction) : Option IxPair :=
  (accountKeys[messageInstruction.programIdIndex.toNat]?).map fun pid => (pid, messageInstruction)

/-- All instructions of a transaction in the order they are taken to run in. -/
def executionOrder (accountKeys : List Pubkey) (messageInstructions : List CompiledInstruction)
    (metaInnerInstructions : List InnerInstructions) : List IxPair :=
  messageInstructions.zipIdx.flatMap fun e =>
    innerAt accountKeys metaInnerInstructions e.2 ++ (outerAt accountKeys e.1).toList

/-- Every inner instruction names its program by the index of a key. -/
def InnerInRange (accountKeys : List Pubkey) (metaInnerInstructions : List InnerInstructions) : Prop :=
  ∀ group ∈ metaInnerInstructions, ∀ ix ∈ group.instructions,
    ix.instruction.programIdIndex.toNat < accountKeys.length

theorem resolveInner_eq {accountKeys : List Pubkey} {ix : InnerInstruction}
    (h : ix.instruction.programIdIndex.toNat < accountKeys.length) :
    resolveInner accountKeys ix
      = some (accountKeys[ix.instruction.programIdIndex.toNat], ix.instruction) := by
  rw [resolveInner, List.getElem?_eq_getElem h]
  rfl

theorem map_snd_filterMap_resolveInner {accountKeys : List Pubkey} {ixs : List InnerInstruction}
    (h : ∀ ix ∈ ixs, ix.instruction.programIdIndex.toNat < accountKeys.length) :
    (ixs.filterMap (resolveInner accountKeys)).map (·.2) = ixs.map (·.instruction) := by
  induction ixs with
  | nil => rfl
  | cons ix ixs ih =>
    have hix := resolveInner_eq (h ix List.mem_cons_self)
    rw [List.filterMap_cons_some hix, List.map_cons, List.map_cons,
      ih fun i hi => h i (List.mem_cons_of_mem ix hi)]

theorem mem_groups_inRange {accountKeys : List Pubkey} {metaInnerInstructions : List InnerInstructions}
    (hrange : InnerInRange accountKeys metaInnerInstructions) (select : InnerInstructions → Bool) :
    ∀ ix ∈ (metaInnerInstructions.filter select).flatMap (·.instructions),
      ix.instruction.programIdIndex.toNat < accountKeys.length := by
  intro ix hix
  obtain ⟨group, hgroup, hix⟩ := List.mem_flatMap.mp hix
  exact hrange group (List.mem_of_mem_filter hgroup) ix hix

/-- Below 256 the byte that the source compares is the position. -/
theorem innerOf_eq (metaInnerInstructions : List InnerInstructions) {k : ℕ} (hk : k < 256) :
    innerOf metaInnerInstructions k
      = (metaInnerInstructions.filter fun ix => ix.index.toNat = k).flatMap (·.instructions) := by
  have hsame : ∀ ix : InnerInstructions,
      (ix.index == UInt8.ofNat k) = decide (ix.index.toNat = k) := by
    intro ix
    rw [Bool.eq_iff_iff, beq_iff_eq, decide_eq_true_iff, ← UInt8.toNat_inj,
      UInt8.toNat_ofNat_of_lt' hk]
  rw [innerOf]
  simp only [hsame]

/-- The entries of the outer instruction at a position, given the hoisted ones of its calls. -/
def blockAt (programs accountKeys : List Pubkey) (hoisted : List OrderedIx)
    (inner : List IxPair) (messageInstruction : CompiledInstruction) :
    List OrderedIx :=
  hoisted ++ ((outerAt accountKeys messageInstruction).toList.filter fun q =>
    decide (q.1 ∈ programs)).map fun q => (q, some inner)

theorem orderOne_eq {programs accountKeys : List Pubkey} {metaInnerInstructions : List InnerInstructions}
    (hrange : InnerInRange accountKeys metaInnerInstructions) (messageInstruction : CompiledInstruction)
    {k : ℕ} (hk : k < 256) :
    orderOne programs accountKeys metaInnerInstructions messageInstruction k
      = some (blockAt programs accountKeys
          (hoistKnownPrograms programs (innerAt accountKeys metaInnerInstructions k))
          (innerAt accountKeys metaInnerInstructions k) messageInstruction) := by
  have hinner : (innerOf metaInnerInstructions k).mapM (resolveInner accountKeys)
      = some (innerAt accountKeys metaInnerInstructions k) := by
    rw [innerOf_eq metaInnerInstructions hk]
    exact mapM_eq_some_filterMap fun ix hix => ⟨_, resolveInner_eq (mem_groups_inRange hrange _ ix hix)⟩
  unfold orderOne blockAt outerAt
  rw [hinner]
  show some _ = some _
  congr 2
  cases accountKeys[messageInstruction.programIdIndex.toNat]? with
  | none => rfl
  | some pid =>
    by_cases hpid : pid ∈ programs
    · simp [hpid]
    · simp [hpid]

/-! ### The whole transaction -/

/-- The hoisted entries of a program `p` cut a list of calls, from the first one of `p` on, into consecutive
segments: each is an entry and the list it carries, which has no call of `p`. -/
structure Segments (p : Pubkey) (inner : List IxPair)
    (hoisted : List OrderedIx) : Prop where
  carried : ∀ entry ∈ entriesOf p hoisted, ∃ carried, entry.2 = some carried ∧ ∀ q ∈ carried, q.1 ≠ p
  cover : inner = (inner.takeWhile fun q => decide (q.1 ≠ p)) ++ (entriesOf p hoisted).flatMap stretch

/-- What the ordered list of a transaction is to be. -/
structure CompleteOrder (programs accountKeys : List Pubkey)
    (messageInstructions : List CompiledInstruction) (metaInnerInstructions : List InnerInstructions)
    (entries : List OrderedIx) : Prop where
  /-- no call is lost where its program is looked up -/
  calls : ∀ k, (innerAt accountKeys metaInnerInstructions k).map (·.2)
    = ((metaInnerInstructions.filter fun ix => ix.index.toNat = k).flatMap (·.instructions)).map
        (·.instruction)
  pairs : entries.map (·.1)
    = (executionOrder accountKeys messageInstructions metaInnerInstructions).filter fun q =>
        decide (q.1 ∈ programs)
  blocks : ∃ hoisted : ℕ → List OrderedIx,
    (entries = messageInstructions.zipIdx.flatMap fun e =>
      blockAt programs accountKeys (hoisted e.2) (innerAt accountKeys metaInnerInstructions e.2) e.1) ∧
    ∀ k, (hoisted k).map (·.1)
        = (innerAt accountKeys metaInnerInstructions k).filter (fun q => decide (q.1 ∈ programs)) ∧
      ∀ p ∈ programs, Segments p (innerAt accountKeys metaInnerInstructions k) (hoisted k)

theorem segments_hoistKnownPrograms {programs : List Pubkey} {p : Pubkey} (hp : p ∈ programs)
    (inner : List IxPair) : Segments p inner (hoistKnownPrograms programs inner) where
  carried := by
    intro entry hentry
    obtain ⟨hmem, hprogram⟩ := List.mem_filter.mp hentry
    rw [← of_decide_eq_true hprogram]
    exact carried_ne hmem
  cover := by
    rw [stretches_hoistKnownPrograms hp inner]
    exact List.takeWhile_append_dropWhile.symm

theorem blockAt_fst {programs accountKeys : List Pubkey} {hoisted : List OrderedIx}
    {inner : List IxPair} (messageInstruction : CompiledInstruction)
    (h : hoisted.map (·.1) = inner.filter fun q => decide (q.1 ∈ programs)) :
    (blockAt programs accountKeys hoisted inner messageInstruction).map (·.1)
      = (inner ++ (outerAt accountKeys messageInstruction).toList).filter fun q =>
          decide (q.1 ∈ programs) := by
  have hfst : ∀ qs : List IxPair, (qs.map fun q => ((q, some inner) : OrderedIx)).map (·.1)
      = qs := by
    intro qs
    rw [List.map_map]
    exact List.map_id qs
  rw [blockAt, List.map_append, h, hfst, List.filter_append]

theorem orderInstructions_eq {programs accountKeys : List Pubkey}
    {messageInstructions : List CompiledInstruction} {metaInnerInstructions : List InnerInstructions}
    (hlength : messageInstructions.length ≤ 256)
    (hrange : InnerInRange accountKeys metaInnerInstructions) :
    orderInstructions programs accountKeys messageInstructions metaInnerInstructions
      = some (messageInstructions.zipIdx.flatMap fun e =>
          blockAt programs accountKeys
            (hoistKnownPrograms programs (innerAt accountKeys metaInnerInstructions e.2))
            (innerAt accountKeys metaInnerInstructions e.2) e.1) := by
  have hblocks : messageInstructions.zipIdx.mapM (fun e =>
      orderOne programs accountKeys metaInnerInstructions e.1 e.2)
      = some (messageInstructions.zipIdx.map fun e => blockAt programs accountKeys
          (hoistKnownPrograms programs (innerAt accountKeys metaInnerInstructions e.2))
          (innerAt accountKeys metaInnerInstructions e.2) e.1) := by
    apply mapM_eq_some_map
    intro e he
    have hlt := List.snd_lt_of_mem_zipIdx he
    exact orderOne_eq hrange e.1 (by omega)
  rw [orderInstructions, hblocks]
  show some _ = some _
  rw [List.flatMap_def]

/-- **Ordering is complete and in execution order.**  With at most 256 outer instructions and every inner
program index in range, `orderInstructions` returns the instructions of known programs of `inner(0)`,
`outer(0)`, `inner(1)`, `outer(1)`, … in this order and no others; an outer entry carries its whole group, and
the hoisted entries of a program cut the group into consecutive segments. -/
theorem orderInstructions_complete (programs accountKeys : List Pubkey)
    (messageInstructions : List CompiledInstruction) (metaInnerInstructions : List InnerInstructions)
    (hlength : messageInstructions.length ≤ 256)
    (hrange : InnerInRange accountKeys metaInnerInstructions) :
    ∃ entries, orderInstructions programs accountKeys messageInstructions metaInnerInstructions
        = some entries ∧
      CompleteOrder programs accountKeys messageInstructions metaInnerInstructions entries := by
  refine ⟨_, orderInstructions_eq hlength hrange, ?_, ?_, ?_⟩
  · intro k
    exact map_snd_filterMap_resolveInner (mem_groups_inRange hrange _)
  · rw [executionOrder, List.map_flatMap, List.filter_flatMap]
    congr 1
    funext e
    exact blockAt_fst e.1 (hoistKnownPrograms_fst programs _)
  · refine ⟨fun k => hoistKnownPrograms programs (innerAt accountKeys metaInnerInstructions k), rfl,
      fun k => ⟨hoistKnownPrograms_fst programs _, fun p hp => segments_hoistKnownPrograms hp _⟩⟩

/-- Two outer instructions, two groups for the second one, and a known program that calls itself. -/
theorem two_groups_ordered :
    ∃ entries, orderInstructions [Pubkey.fill 2] [Pubkey.fill 1, Pubkey.fill 2]
        [⟨1, [], []⟩, ⟨0, [], []⟩]
        [⟨1, [⟨⟨0, [], [1]⟩, none⟩, ⟨⟨1, [], [2]⟩, none⟩]⟩, ⟨1, [⟨⟨1, [], [3]⟩, none⟩]⟩] = some entries ∧
      CompleteOrder [Pubkey.fill 2] [Pubkey.fill 1, Pubkey.fill 2] [⟨1, [], []⟩, ⟨0, [], []⟩]
        [⟨1, [⟨⟨0, [], [1]⟩, none⟩, ⟨⟨1, [], [2]⟩, none⟩]⟩, ⟨1, [⟨⟨1, [], [3]⟩, none⟩]⟩] entries :=
  orderInstructions_complete _ _ _ _ (by decide) (by unfold InnerInRange; decide)

end DasIndexer
