import DasIndexer.Blockbuster.Bubblegum
import DasIndexer.Lib.Fallible
import Mathlib.Data.List.TakeWhile

/-!
# Where Bubblegum's events come from

An inner Bubblegum instruction is handed to the parser together with what follows it in the flat list of
inner instructions, up to the next instruction of the same program.  That segment is all the parser sees:
an event of the result is carried by a noop call of the segment, and nothing else in the transaction
matters (**`bubblegum_events_from_segment`**).

The segment is cut by program and not by stack height.  A noop call that the surrounding program makes
after Bubblegum has returned is still in it, and since the parser keeps the last event it sees, such a call
replaces the event of Bubblegum's own (`surrounding_noop_replaces_event`).
-/

namespace DasIndexer

open Fallible

/-- `program_transformers::TransactionInfo`; the signature as it is printed. -/
structure TransactionInfo where
  slot : ℕ
  signature : String
  accountKeys : List Pubkey
  messageInstructions : List CompiledInstruction
  metaInnerInstructions : List InnerInstructions
deriving DecidableEq

namespace TransactionInfo

/-- The inner instructions of an outer instruction, with their programs. -/
def innerPairs (tx : TransactionInfo) (o : ℕ) : Option (List IxPair) :=
  (innerOf tx.metaInnerInstructions o).mapM (resolveInner tx.accountKeys)

/-- The entries of the outer instructions, one list each; `orderInstructions` joins them. -/
def blocks (tx : TransactionInfo) (programs : List Pubkey) :
    Option (List (List (IxPair × Option (List IxPair)))) :=
  tx.messageInstructions.zipIdx.mapM fun e =>
    orderOne programs tx.accountKeys tx.metaInnerInstructions e.1 e.2

/-- `break_transaction`. -/
def breakTransaction (tx : TransactionInfo) (programs : List Pubkey) :
    Option (List (IxPair × Option (List IxPair))) :=
  orderInstructions programs tx.accountKeys tx.messageInstructions tx.metaInnerInstructions

theorem breakTransaction_eq (tx : TransactionInfo) (programs : List Pubkey) :
    tx.breakTransaction programs = (tx.blocks programs).map List.flatten := by
  show (tx.blocks programs >>= fun ordered => some ordered.flatten) = _
  cases tx.blocks programs <;> rfl

/-- The bundle that `handle_transaction` builds of an entry; `none` where it returns "Missing Accounts in
Serialized Ixn/Txn". -/
def bundleOf (tx : TransactionInfo) (entry : IxPair × Option (List IxPair)) :
    Option InstructionBundle :=
  let accounts := entry.1.2.accounts
  if tx.accountKeys.length < (accounts.foldl max 0).toNat then none
  else some
    { txnId := tx.signature
      program := entry.1.1
      instruction := some entry.1.2
      innerIx := entry.2
      keys := accounts.filterMap fun a => tx.accountKeys[a.toNat]?
      slot := tx.slot }

end TransactionInfo

/-! ### Runs of a list -/

/-- Position `m` is in the maximal run of `P` that starts after position `i`. -/
def InRun {α : Type} (P : α → Prop) (xs : List α) (i m : ℕ) : Prop :=
  i < m ∧ ∀ n, i < n → n ≤ m → ∃ x, xs[n]? = some x ∧ P x

/-- What `takeWhile` keeps after a position is in the run that starts there. -/
theorem exists_inRun_of_mem {α : Type} {p : α → Bool} {xs : List α} {i : ℕ} {x : α}
    (hx : x ∈ (xs.drop (i + 1)).takeWhile p) :
    ∃ m, InRun (fun y => p y = true) xs i m ∧ xs[m]? = some x := by
  obtain ⟨n, hn⟩ := List.mem_iff_getElem?.mp hx
  obtain ⟨rest, hrest⟩ := List.takeWhile_prefix (p := p) (l := xs.drop (i + 1))
  have hprefix : ∀ k y, ((xs.drop (i + 1)).takeWhile p)[k]? = some y → xs[i + 1 + k]? = some y := by
    intro k y hy
    have hlt := (List.getElem?_eq_some_iff.mp hy).1
    have happ : ((xs.drop (i + 1)).takeWhile p ++ rest)[k]? = ((xs.drop (i + 1)).takeWhile p)[k]? :=
      List.getElem?_append_left hlt
    rw [hrest, hy, List.getElem?_drop] at happ
    exact happ
  refine ⟨i + 1 + n, ⟨by omega, fun k hik hkm => ?_⟩, hprefix n x hn⟩
  have hlt : k - (i + 1) < ((xs.drop (i + 1)).takeWhile p).length := by
    have := (List.getElem?_eq_some_iff.mp hn).1
    omega
  have hget := hprefix _ _ (List.getElem?_eq_getElem hlt)
  rw [show i + 1 + (k - (i + 1)) = k from by omega] at hget
  exact ⟨_, hget, List.mem_takeWhile_imp (List.getElem_mem hlt)⟩

namespace Bubblegum

/-! ### What the parser takes from its inner instructions -/

section Parser

variable (D : Decoders)

/-- A noop call that carries a change log. -/
def CarriesTree (ix : IxPair) (event : ChangeLogEventV1) : Prop :=
  isNoop D ix = true ∧ D.accountCompressionEvent ix.2.data = .ok (.changeLog event)

/-- A noop call that carries a leaf. -/
def CarriesLeaf (ix : IxPair) (event : LeafSchemaEvent) : Prop :=
  isNoop D ix = true ∧ ∃ appData, D.accountCompressionEvent ix.2.data = .ok (.applicationData appData) ∧
    getBubblegumLeafSchemaEvent D appData = .ok event

/-- The events of `b` are those of `a`, or are carried by one of `ixs`. -/
def TakenFrom (a b : BubblegumInstruction) (ixs : List IxPair) : Prop :=
  (∀ event, b.treeUpdate = some event →
    a.treeUpdate = some event ∨ ∃ ix ∈ ixs, CarriesTree D ix event) ∧
  (∀ event, b.leafUpdate = some event →
    a.leafUpdate = some event ∨ ∃ ix ∈ ixs, CarriesLeaf D ix event)

variable {D}

/-- One iteration takes events from its own instruction only. -/
theorem takeEvent_takenFrom {a b : BubblegumInstruction} {ix : IxPair}
    (h : takeEvent D a ix = .ok b) : TakenFrom D a b [ix] := by
  unfold takeEvent at h
  split at h
  · rename_i hnoop
    cases hev : D.accountCompressionEvent ix.2.data with
    | error e =>
      rw [hev] at h
      cases h
      exact ⟨fun _ he => Or.inl he, fun _ he => Or.inl he⟩
    | ok ev =>
      rw [hev] at h
      cases ev with
      | changeLog event =>
        cases h
        refine ⟨fun event' he => Or.inr ⟨ix, List.mem_singleton_self ix, hnoop, ?_⟩,
          fun _ he => Or.inl he⟩
        rw [hev, Option.some.inj he]
      | applicationData appData =>
        cases hleaf : getBubblegumLeafSchemaEvent D appData with
        | error e =>
          simp only [hleaf] at h
          cases h
        | ok leaf =>
          simp only [hleaf] at h
          cases h
          refine ⟨fun _ he => Or.inl he, fun event' he =>
            Or.inr ⟨ix, List.mem_singleton_self ix, hnoop, appData, hev, ?_⟩⟩
          rw [hleaf, Option.some.inj he]
  · cases h
    exact ⟨fun _ he => Or.inl he, fun _ he => Or.inl he⟩

/-- The whole loop takes events from its instructions only. -/
theorem foldlM_takenFrom {a b : BubblegumInstruction} {ixs : List IxPair}
    (h : ixs.foldlM (takeEvent D) a = .ok b) : TakenFrom D a b ixs := by
  induction ixs generalizing a with
  | nil =>
    cases h
    exact ⟨fun _ he => Or.inl he, fun _ he => Or.inl he⟩
  | cons ix ixs ih =>
    rw [List.foldlM_cons] at h
    cases hstep : takeEvent D a ix with
    | error e =>
      rw [hstep] at h
      cases h
    | ok c =>
      rw [hstep] at h
      obtain ⟨htree, hleaf⟩ := ih h
      obtain ⟨htree', hleaf'⟩ := takeEvent_takenFrom hstep
      refine ⟨fun event he => ?_, fun event he => ?_⟩
      · rcases htree event he with hold | ⟨ix', hmem, hcarry⟩
        · rcases htree' event hold with hold | ⟨ix', hmem, hcarry⟩
          · exact Or.inl hold
          · exact Or.inr ⟨ix', List.mem_cons.mpr (Or.inl (List.mem_singleton.mp hmem)), hcarry⟩
        · exact Or.inr ⟨ix', List.mem_cons_of_mem _ hmem, hcarry⟩
      · rcases hleaf event he with hold | ⟨ix', hmem, hcarry⟩
        · rcases hleaf' event hold with hold | ⟨ix', hmem, hcarry⟩
          · exact Or.inl hold
          · exact Or.inr ⟨ix', List.mem_cons.mpr (Or.inl (List.mem_singleton.mp hmem)), hcarry⟩
        · exact Or.inr ⟨ix', List.mem_cons_of_mem _ hmem, hcarry⟩

/-- Only noop calls matter to the loop. -/
theorem foldlM_takeEvent_filter (a : BubblegumInstruction) (ixs : List IxPair) :
    (ixs.filter (isNoop D)).foldlM (takeEvent D) a = ixs.foldlM (takeEvent D) a := by
  induction ixs generalizing a with
  | nil => rfl
  | cons ix ixs ih =>
    by_cases hnoop : isNoop D ix = true
    · rw [List.filter_cons_of_pos hnoop, List.foldlM_cons, List.foldlM_cons]
      congr 1
      funext c
      exact ih c
    · have hskip : takeEvent D a ix = .ok a := by rw [takeEvent, if_neg hnoop]
      rw [List.filter_cons_of_neg hnoop, List.foldlM_cons, hskip]
      exact ih a

/-- The payload does not touch the events. -/
theorem handleInstruction_events {bundle : InstructionBundle} {b : BubblegumInstruction}
    (h : handleInstruction D bundle = .ok b) :
    (∀ event, b.treeUpdate = some event →
      ∃ ix ∈ bundle.innerIx.getD [], CarriesTree D ix event) ∧
    (∀ event, b.leafUpdate = some event →
      ∃ ix ∈ bundle.innerIx.getD [], CarriesLeaf D ix event) := by
  unfold handleInstruction at h
  cases hix : bundle.instruction with
  | none =>
    rw [hix] at h
    cases h
  | some cix =>
    rw [hix] at h
    cases hfold : (bundle.innerIx.getD []).foldlM (takeEvent D)
      { instruction := D.getInstructionType cix.data } with
    | error e =>
      simp only [hfold] at h
      cases h
    | ok c =>
      have hevents : b.treeUpdate = c.treeUpdate ∧ b.leafUpdate = c.leafUpdate := by
        simp only [hfold] at h
        change (if _ then _ else _) = _ at h
        split at h
        · cases hpay : buildPayload D bundle.keys (cix.data.drop 8) c.instruction with
          | error e =>
            simp only [hpay] at h
            cases h
          | ok payload =>
            simp only [hpay] at h
            cases h
            exact ⟨rfl, rfl⟩
        · cases h
          exact ⟨rfl, rfl⟩
      obtain ⟨htree, hleaf⟩ := foldlM_takenFrom hfold
      rw [hevents.1, hevents.2]
      exact ⟨fun event he => (htree event he).resolve_left (by simp),
        fun event he => (hleaf event he).resolve_left (by simp)⟩

/-- The parser sees the instruction, its accounts and the noop calls. -/
theorem handleInstruction_congr {a b : InstructionBundle} (hix : a.instruction = b.instruction)
    (hkeys : a.keys = b.keys)
    (hnoops : (a.innerIx.getD []).filter (isNoop D) = (b.innerIx.getD []).filter (isNoop D)) :
    handleInstruction D a = handleInstruction D b := by
  unfold handleInstruction
  rw [hix, hkeys]
  cases b.instruction with
  | none => rfl
  | some cix =>
    simp only
    rw [← foldlM_takeEvent_filter, hnoops, foldlM_takeEvent_filter]

end Parser

/-! ### The entry of an inner instruction -/

/-- The number of entries that are hoisted before position `i`. -/
def entriesBefore (programs : List Pubkey) (pairs : List IxPair) (i : ℕ) : ℕ :=
  (pairs.take i).countP fun q => decide (q.1 ∈ programs)

/-- What follows position `i` up to the next Bubblegum instruction. -/
def segment (D : Decoders) (pairs : List IxPair) (i : ℕ) : List IxPair :=
  (pairs.drop (i + 1)).takeWhile fun q => decide (q.1 ≠ D.bubblegumId)

theorem hoistKnownPrograms_getElem? {programs : List Pubkey} {pairs : List IxPair} {i : ℕ} {ix : IxPair}
    (hi : pairs[i]? = some ix) (hix : ix.1 ∈ programs) :
    (hoistKnownPrograms programs pairs)[entriesBefore programs pairs i]?
      = some (ix, some ((pairs.drop (i + 1)).takeWhile fun q => decide (q.1 ≠ ix.1))) := by
  obtain ⟨hlt, hget⟩ := List.getElem?_eq_some_iff.mp hi
  have hcount : ∀ xs : List IxPair,
      (xs.zipIdx.filter fun e => decide (e.1.1 ∈ programs)).length
        = xs.countP fun q => decide (q.1 ∈ programs) := by
    intro xs
    rw [← List.countP_eq_length_filter]
    conv_rhs => rw [← List.zipIdx_map_fst 0 xs, List.countP_map]
    rfl
  have hsplit : pairs = pairs.take i ++ ix :: pairs.drop (i + 1) := by
    rw [← hget, ← List.drop_eq_getElem_cons hlt, List.take_append_drop]
  have hentry : (pairs.zipIdx.filter fun e => decide (e.1.1 ∈ programs))[entriesBefore programs pairs i]?
      = some (ix, i) := by
    have hzip : pairs.zipIdx = (pairs.take i).zipIdx ++ (ix, i) :: (pairs.drop (i + 1)).zipIdx (i + 1) := by
      conv_lhs => rw [hsplit, List.zipIdx_append, List.zipIdx_cons]
      simp [Nat.min_eq_left (Nat.le_of_lt hlt)]
    rw [hzip, List.filter_append, List.getElem?_append_right (by rw [hcount]; rfl), hcount,
      List.filter_cons_of_pos (by simpa using hix)]
    simp [entriesBefore]
  rw [hoistKnownPrograms, List.getElem?_map, hentry]
  rfl

/-- The instruction that reaches the handler for the inner instruction `i` of the outer instruction `o`,
where nothing panics or is refused on the way. -/
def parsedAt (D : Decoders) (others : List Pubkey) (tx : TransactionInfo) (o i : ℕ) :
    Option BubblegumInstruction := do
  let blocks ← tx.blocks (D.bubblegumId :: others)
  let block ← blocks[o]?
  let pairs ← tx.innerPairs o
  let entry ← block[entriesBefore (D.bubblegumId :: others) pairs i]?
  let bundle ← tx.bundleOf entry
  (handleInstruction D bundle).toOption

/-- The part of it that depends on the inner instructions. -/
def parse (D : Decoders) (tx : TransactionInfo) (cix : CompiledInstruction) (inner : List IxPair) :
    Option BubblegumInstruction := do
  let bundle ← tx.bundleOf ((D.bubblegumId, cix), some inner)
  (handleInstruction D bundle).toOption

/-- It depends on the transaction's keys and on the noop calls only. -/
theorem parse_congr {D : Decoders} {tx tx' : TransactionInfo} (hkeys : tx.accountKeys = tx'.accountKeys)
    (cix : CompiledInstruction) {inner inner' : List IxPair}
    (hnoops : inner.filter (isNoop D) = inner'.filter (isNoop D)) :
    parse D tx cix inner = parse D tx' cix inner' := by
  simp only [parse, TransactionInfo.bundleOf, hkeys]
  split
  · rfl
  · exact congrArg Except.toOption (handleInstruction_congr rfl rfl hnoops)

theorem parsedAt_eq {D : Decoders} {others : List Pubkey} {tx : TransactionInfo} {o i : ℕ}
    {pairs : List IxPair} {cix : CompiledInstruction} {blocks : List (List (IxPair × Option (List IxPair)))}
    (hblocks : tx.blocks (D.bubblegumId :: others) = some blocks)
    (ho : o < tx.messageInstructions.length) (hin : tx.innerPairs o = some pairs)
    (hi : pairs[i]? = some (D.bubblegumId, cix)) :
    parsedAt D others tx o i = parse D tx cix (segment D pairs i) := by
  have hmsg : tx.messageInstructions.zipIdx[o]? = some (tx.messageInstructions[o], o) := by
    simp [ho]
  have hblock := getElem?_of_mapM hblocks o
  rw [hmsg, Option.bind_some] at hblock
  -- the block starts with the hoisted entries, and the one of position `i` is among them
  have hentries : ∃ outer, blocks[o]?
      = some (hoistKnownPrograms (D.bubblegumId :: others) pairs ++ outer) := by
    have hin' : (innerOf tx.metaInnerInstructions o).mapM (resolveInner tx.accountKeys) = some pairs := hin
    rw [hblock, orderOne, hin']
    exact ⟨_, rfl⟩
  obtain ⟨outer, houter⟩ := hentries
  have hhoisted : (hoistKnownPrograms (D.bubblegumId :: others) pairs)[entriesBefore
      (D.bubblegumId :: others) pairs i]? = some ((D.bubblegumId, cix), some (segment D pairs i)) :=
    hoistKnownPrograms_getElem? hi List.mem_cons_self
  have hentry : (hoistKnownPrograms (D.bubblegumId :: others) pairs ++ outer)[entriesBefore
      (D.bubblegumId :: others) pairs i]? = some ((D.bubblegumId, cix), some (segment D pairs i)) := by
    rw [List.getElem?_append_left (List.getElem?_eq_some_iff.mp hhoisted).1, hhoisted]
  simp only [parsedAt, hblocks, houter, hin, hentry, Option.bind_eq_bind, Option.bind_some]
  rfl

/-- An instruction that reaches the handler came through all the steps. -/
theorem parsedAt_inv {D : Decoders} {others : List Pubkey} {tx : TransactionInfo} {o i : ℕ}
    {b : BubblegumInstruction} (h : parsedAt D others tx o i = some b) :
    ∃ blocks, tx.blocks (D.bubblegumId :: others) = some blocks ∧ o < tx.messageInstructions.length := by
  unfold parsedAt at h
  obtain ⟨blocks, hblocks, h⟩ := Option.bind_eq_some_iff.mp h
  obtain ⟨block, hblock, _⟩ := Option.bind_eq_some_iff.mp h
  refine ⟨blocks, hblocks, ?_⟩
  rw [getElem?_of_mapM hblocks o] at hblock
  obtain ⟨e, he, _⟩ := Option.bind_eq_some_iff.mp hblock
  simpa using (List.getElem?_eq_some_iff.mp he).1

/-! ### The events of an inner instruction -/

/-- Every event of `b` is carried by a noop call at a position that `R` admits. -/
def EventsWithin (D : Decoders) (pairs : List IxPair) (R : ℕ → Prop) (b : BubblegumInstruction) : Prop :=
  (∀ event, b.treeUpdate = some event → ∃ m ix, R m ∧ pairs[m]? = some ix ∧ CarriesTree D ix event) ∧
  (∀ event, b.leafUpdate = some event → ∃ m ix, R m ∧ pairs[m]? = some ix ∧ CarriesLeaf D ix event)

/-- Position `m` is a call that the instruction at position `i` made itself: it is in the run after `i`
whose stack height exceeds that of `i`. -/
def OwnCall (tx : TransactionInfo) (o i m : ℕ) : Prop :=
  ∃ x h, (innerOf tx.metaInnerInstructions o)[i]? = some x ∧ x.stackHeight = some h ∧
    InRun (fun y : InnerInstruction => ∃ h', y.stackHeight = some h' ∧ h < h')
      (innerOf tx.metaInnerInstructions o) i m

/-- Position `m` comes before the next Bubblegum instruction after `i`. -/
def InSegment (D : Decoders) (pairs : List IxPair) (i m : ℕ) : Prop :=
  InRun (fun ix : IxPair => ix.1 ≠ D.bubblegumId) pairs i m

theorem eventsWithin_segment {D : Decoders} {others : List Pubkey} {tx : TransactionInfo} {o i : ℕ}
    {pairs : List IxPair} {cix : CompiledInstruction} (hin : tx.innerPairs o = some pairs)
    (hi : pairs[i]? = some (D.bubblegumId, cix)) {b : BubblegumInstruction}
    (hb : parsedAt D others tx o i = some b) : EventsWithin D pairs (InSegment D pairs i) b := by
  obtain ⟨blocks, hblocks, ho⟩ := parsedAt_inv hb
  rw [parsedAt_eq hblocks ho hin hi] at hb
  obtain ⟨bundle, hbundle, hparsed⟩ := Option.bind_eq_some_iff.mp hb
  have hinner : bundle.innerIx = some (segment D pairs i) := by
    simp only [TransactionInfo.bundleOf] at hbundle
    split at hbundle
    · cases hbundle
    · cases hbundle
      rfl
  have hok : handleInstruction D bundle = .ok b := by
    cases hres : handleInstruction D bundle with
    | error e =>
      rw [hres] at hparsed
      cases hparsed
    | ok b' =>
      rw [hres] at hparsed
      rw [Option.some.inj hparsed]
  obtain ⟨htree, hleaf⟩ := handleInstruction_events hok
  have hpos : ∀ ix ∈ bundle.innerIx.getD [], ∃ m, InSegment D pairs i m ∧ pairs[m]? = some ix := by
    intro ix hix
    rw [hinner, Option.getD_some] at hix
    obtain ⟨m, hrun, hm⟩ := exists_inRun_of_mem hix
    exact ⟨m, ⟨hrun.1, fun n h1 h2 => by simpa using hrun.2 n h1 h2⟩, hm⟩
  refine ⟨fun event he => ?_, fun event he => ?_⟩
  · obtain ⟨ix, hix, hcarry⟩ := htree event he
    obtain ⟨m, hrun, hm⟩ := hpos ix hix
    exact ⟨m, ix, hrun, hm, hcarry⟩
  · obtain ⟨ix, hix, hcarry⟩ := hleaf event he
    obtain ⟨m, hrun, hm⟩ := hpos ix hix
    exact ⟨m, ix, hrun, hm, hcarry⟩

/-- **Bubblegum's events come from its segment.**  The events of an inner Bubblegum instruction are carried
by noop calls between it and the next Bubblegum instruction; when the surrounding program makes no noop
call there, they are carried by calls that Bubblegum made.  Two transactions with the same instruction and
the same noop calls in its segment give the same result. -/
theorem bubblegum_events_from_segment (D : Decoders) (others : List Pubkey) (tx : TransactionInfo)
    (o i : ℕ) {pairs : List IxPair} {cix : CompiledInstruction} (hin : tx.innerPairs o = some pairs)
    (hi : pairs[i]? = some (D.bubblegumId, cix)) :
    (∀ b, parsedAt D others tx o i = some b →
      EventsWithin D pairs (InSegment D pairs i) b ∧
      ((∀ m ix, InSegment D pairs i m → pairs[m]? = some ix → isNoop D ix = true → OwnCall tx o i m) →
        EventsWithin D pairs (OwnCall tx o i) b)) ∧
    (∀ tx' o' i' pairs', (tx.breakTransaction (D.bubblegumId :: others)).isSome →
      (tx'.breakTransaction (D.bubblegumId :: others)).isSome →
      o < tx.messageInstructions.length → o' < tx'.messageInstructions.length →
      tx.accountKeys = tx'.accountKeys → tx'.innerPairs o' = some pairs' →
      pairs'[i']? = some (D.bubblegumId, cix) →
      (segment D pairs i).filter (isNoop D) = (segment D pairs' i').filter (isNoop D) →
      parsedAt D others tx o i = parsedAt D others tx' o' i') := by
  refine ⟨fun b hb => ?_, ?_⟩
  · have hwithin := eventsWithin_segment hin hi hb
    refine ⟨hwithin, fun hown => ⟨fun event he => ?_, fun event he => ?_⟩⟩
    · obtain ⟨m, ix, hrun, hm, hcarry⟩ := hwithin.1 event he
      exact ⟨m, ix, hown m ix hrun hm hcarry.1, hm, hcarry⟩
    · obtain ⟨m, ix, hrun, hm, hcarry⟩ := hwithin.2 event he
      exact ⟨m, ix, hown m ix hrun hm hcarry.1, hm, hcarry⟩
  · intro tx' o' i' pairs' hbreak hbreak' ho ho' hkeys hin' hi' hnoops
    rw [TransactionInfo.breakTransaction_eq, Option.isSome_map, Option.isSome_iff_exists] at hbreak hbreak'
    obtain ⟨blocks, hblocks⟩ := hbreak
    obtain ⟨blocks', hblocks'⟩ := hbreak'
    rw [parsedAt_eq hblocks ho hin hi, parsedAt_eq hblocks' ho' hin' hi']
    exact parse_congr hkeys cix hnoops

/-! ### A noop call of the surrounding program -/

/-- The wire form of a change log with an empty path. -/
def wireChangeLog (tree seq : UInt8) : Bytes :=
  [0, 0] ++ List.replicate 32 tree ++ [0, 0, 0, 0] ++ [seq, 0, 0, 0, 0, 0, 0, 0] ++ [0, 0, 0, 0]

/-- Read back a change log with an empty path. -/
def readChangeLog (data : Bytes) : Except String AccountCompressionEvent :=
  if h : data.length = 50 ∧ data.take 2 = [0, 0] ∧ (data.drop 34).take 4 = [0, 0, 0, 0] then
    .ok (.changeLog
      { id := ⟨(data.drop 2).take 32, by simp [h.1]⟩
        path := []
        seq := Nat.ofDigits 256 (((data.drop 38).take 8).map UInt8.toNat)
        index := Nat.ofDigits 256 ((data.drop 46).map UInt8.toNat) })
  else .error "Unexpected length of input"

/-- Decoders that know a transfer without arguments and change logs with an empty path. -/
def sampleDecoders : Decoders where
  bubblegumId := Pubkey.fill 2
  splNoopId := Pubkey.fill 3
  mplNoopId := Pubkey.fill 4
  getInstructionType data :=
    if data.take 8 = [163, 52, 200, 231, 140, 3, 69, 186] then .transfer else .unknown
  accountCompressionEvent := readChangeLog
  bubblegumEventType _ := .error "Unexpected length of input"
  leafSchemaEvent _ := .error "Unexpected length of input"
  metadataArgs _ := .error "Unexpected length of input"
  verifyCreatorArgs _ := .error "Unexpected length of input"
  unverifyCreatorArgs _ := .error "Unexpected length of input"
  updateMetadataArgs _ := .error "Unexpected length of input"
  mintV2Args _ := .error "Unexpected length of input"
  verifyCreatorV2Args _ := .error "Unexpected length of input"
  unverifyCreatorV2Args _ := .error "Unexpected length of input"
  updateMetadataV2Args _ := .error "Unexpected length of input"

/-- An inner call of Bubblegum's transfer. -/
def callTransfer (stackHeight : ℕ) : InnerInstruction :=
  ⟨⟨1, [], [163, 52, 200, 231, 140, 3, 69, 186]⟩, some stackHeight⟩

/-- An inner call of the noop program with a change log. -/
def callNoop (seq : UInt8) (stackHeight : ℕ) : InnerInstruction :=
  ⟨⟨2, [], wireChangeLog 7 seq⟩, some stackHeight⟩

/-- A transaction whose one outer instruction calls another program, with these inner instructions. -/
def txWith (inner : List InnerInstruction) : TransactionInfo where
  slot := 1
  signature := "1"
  accountKeys := [Pubkey.fill 1, Pubkey.fill 2, Pubkey.fill 3]
  messageInstructions := [⟨0, [], []⟩]
  metaInnerInstructions := [⟨0, inner⟩]

/-- The instruction with a change log. -/
def transferWith (seq : ℕ) : BubblegumInstruction :=
  { instruction := .transfer, treeUpdate := some ⟨Pubkey.fill 7, [], seq, 0⟩ }

/-- One transfer with a noop call of its own. -/
def txOwn : TransactionInfo := txWith [callTransfer 2, callNoop 1 3]

/-- After it a second transfer, and a noop call of the surrounding program. -/
def txLater : TransactionInfo :=
  txWith [callTransfer 2, callNoop 1 3, callTransfer 2, callNoop 2 3, callNoop 3 2]

/-- A noop call of the surrounding program right after the transfer has returned. -/
def txSurrounded : TransactionInfo := txWith [callTransfer 2, callNoop 1 3, callNoop 2 2]

/-- Where the surrounding program makes its noop call after the next Bubblegum call, the first transfer
keeps the event of its own. -/
theorem later_noop_keeps_event :
    (∀ b, parsedAt sampleDecoders [] txOwn 0 0 = some b →
      ∃ pairs, txOwn.innerPairs 0 = some pairs ∧
        EventsWithin sampleDecoders pairs (OwnCall txOwn 0 0) b) ∧
    parsedAt sampleDecoders [] txOwn 0 0 = parsedAt sampleDecoders [] txLater 0 0 := by
  obtain ⟨hevents, hsame⟩ := bubblegum_events_from_segment sampleDecoders [] txOwn 0 0 rfl rfl
  refine ⟨fun b hb => ⟨_, rfl, (hevents b hb).2 ?_⟩, ?_⟩
  · -- the one noop call of the segment is at position 1, above the transfer
    intro m ix hrun hm _
    have h1 : m = 1 := by
      have hlen : m < 2 := (List.getElem?_eq_some_iff.mp hm).1
      have hpos := hrun.1
      omega
    subst h1
    refine ⟨callTransfer 2, 2, rfl, rfl, by omega, fun n hn hn' => ?_⟩
    have h1 : n = 1 := by omega
    subst h1
    exact ⟨callNoop 1 3, rfl, 3, rfl, by omega⟩
  · exact hsame txLater 0 0 _ (by decide +kernel) (by decide +kernel) (by decide) (by decide) rfl rfl rfl
      (by decide +kernel)

/-- The call with change log 1 is the transfer's own, that with change log 2 its caller's.  The result has
change log 2, and without the caller's call it has change log 1. -/
theorem surrounding_noop_replaces_event :
    parsedAt sampleDecoders [] txSurrounded 0 0 = some (transferWith 2) ∧
    (∀ pairs, txSurrounded.innerPairs 0 = some pairs →
      ¬ EventsWithin sampleDecoders pairs (OwnCall txSurrounded 0 0) (transferWith 2)) ∧
    parsedAt sampleDecoders [] txOwn 0 0 = some (transferWith 1) := by
  refine ⟨by decide +kernel, ?_, by decide +kernel⟩
  intro pairs hpairs hwithin
  obtain ⟨m, ix, ⟨x, h, hx, hheight, hrun⟩, hm, hnoop, hcarry⟩ := hwithin.1 _ rfl
  cases hx
  cases hheight
  have hm2 : m < 2 := by
    by_contra hge
    obtain ⟨y, hy, h', hh', hlt⟩ := hrun.2 2 (by omega) (by omega)
    cases hy
    cases hh'
    omega
  have h1 : m = 1 := by
    have hpos := hrun.1
    omega
  subst h1
  cases hpairs
  cases hm
  revert hcarry
  decide +kernel

end Bubblegum

end DasIndexer
