import DasIndexer.Backfill.PlugGap
import DasIndexer.Lib.NextPages
import DasIndexer.Ops.Crawl
import Mathlib.Data.List.Dedup
import Mathlib.Data.List.Perm.Basic

/-!
# Backfilling a tree from its start

A tree that is to be checked from its first change is read by its signatures: all the slots that they are in are
collected, a block is fetched for each slot, through a cache, and the successful transactions of a block that name the
tree or the Bubblegum program are sent to the backfill stream.

Unlike the crawl of the operations tool, the paging goes on after the last signature of a page, whether its transaction
failed or not, so that it always ends with everything.  What is silent is `get_blocks`: a slot for which it fails is
left out, and the tree still counts as backfilled.  **`full_backfill_sends`** has exactly what is sent.
-/

namespace DasIndexer.Backfill.FromStart

open Sql Ops NextPages

/-! ### What the chain returns -/

inductive IngesterError where
  | rpcGetDataError (text : String)
  | rpcDataUnsupportedFormat (text : String)
  | cacheStorageWriteError (text : String)
  /-- with what could not be read -/
  | deserializationError (text : String)
  | serializatonError (text : String)
  | messengerError (text : String)
deriving DecidableEq

/-- `RpcConfirmedTransactionStatusWithSignature`, without the fields that nothing reads. -/
structure SignatureStatus where
  signature : String
  slot : ℕ

/-- The addresses of a transaction's lookup tables, in base 58. -/
structure LoadedAddresses where
  writable : List String
  readonly : List String
deriving DecidableEq

structure TransactionMeta where
  err : Option String
  loadedAddresses : Option LoadedAddresses
deriving DecidableEq

/-- A decoded transaction; only a versioned message has lookups. -/
structure VersionedTransaction where
  signature : Signature
  staticAccountKeys : List Pubkey
  hasLookups : Bool
deriving DecidableEq

structure EncodedTransaction where
  metadata : Option TransactionMeta
  decoded : Option VersionedTransaction
deriving DecidableEq

structure EncodedConfirmedBlock where
  transactions : List EncodedTransaction
  blockTime : Option ℤ

/-- `EncodedConfirmedTransactionWithStatusMeta`. -/
structure Message where
  transaction : EncodedTransaction
  slot : ℕ
  blockTime : Option ℤ
deriving DecidableEq

/-- What becomes of a block that is put into the cache: `try_insert_with_ttl` or `wait` fails, the block is not
accepted, or it is there or not when it is read back. -/
inductive Insert where
  | failed (text : String) | rejected | unready (text : String) | lost | kept

/-- A signature in the history of a tree. -/
structure Confirmed where
  signature : Signature
  slot : ℕ
  err : Option String

/-- A tree on chain, with its signatures, newest first, and the blocks. -/
structure Chain where
  tree : Pubkey
  bubblegum : Pubkey
  history : List Confirmed
  block : ℕ → Option EncodedConfirmedBlock
  signatures_nodup : (history.map Confirmed.signature).Nodup
  slot_lt : ∀ c ∈ history, c.slot < 2 ^ 63

/-- The signatures after one of them. -/
def Chain.below (chain : Chain) : Option Signature → List Confirmed
  | none => chain.history
  | some s => (chain.history.dropWhile fun c => decide (c.signature ≠ s)).tail

def Confirmed.status (c : Confirmed) : SignatureStatus := ⟨Base58.encode c.signature.bytes, c.slot⟩

/-- A page of `get_signatures_for_address_with_config`. -/
def Chain.page (chain : Chain) (before : Option Signature) : List Confirmed := (chain.below before).take 1000

/-- The backfiller's environment.  Calls may fail, but what they return is right, and the set of slots is walked in
some order. -/
structure Node (chain : Chain) where
  signatures : Option Signature → Except String (List SignatureStatus)
  blocks : ℕ → ℕ → Option (List ℕ)
  block : ℕ → Except String EncodedConfirmedBlock
  insert : ℕ → Insert
  serialize : Message → Except String Unit
  send : Message → Except String Unit
  walk : List ℕ → List ℕ
  signatures_right : ∀ before sigs, signatures before = .ok sigs → sigs = (chain.page before).map Confirmed.status
  blocks_right : ∀ slot slots, blocks slot slot = some slots → slots = if (chain.block slot).isSome then [slot] else []
  block_right : ∀ slot b, block slot = .ok b → chain.block slot = some b
  walk_perm : ∀ slots, (walk slots).Perm slots

/-! ### The slots of an address -/

variable {chain : Chain} (node : Node chain)

/-- The inner loop of `find_slots_via_address`. -/
def addSlots : Option Signature → List ℕ → List SignatureStatus → Except IngesterError (Option Signature × List ℕ)
  | lastSig, slots, [] => .ok (lastSig, slots)
  | _, slots, s :: ss =>
    match Signature.fromStr s.signature with
    | .error _ => .error (.rpcDataUnsupportedFormat s.signature)
    | .ok sig => addSlots (some sig) (slots.insert s.slot) ss

/-- The loop of `find_slots_via_address`; nothing where the fuel does not suffice. -/
def findSlotsFrom : ℕ → Option Signature → List ℕ → Option (Except IngesterError (List ℕ))
  | 0, _, _ => none
  | fuel + 1, lastSig, slots =>
    match node.signatures lastSig with
    | .error e => some (.error (.rpcGetDataError e))
    | .ok sigs =>
      match addSlots lastSig slots sigs with
      | .error e => some (.error e)
      | .ok (lastSig', slots') =>
        if sigs.isEmpty || decide (sigs.length < 1000) then some (.ok slots')
        else findSlotsFrom fuel lastSig' slots'

def findSlotsViaAddress (fuel : ℕ) : Option (Except IngesterError (List ℕ)) := findSlotsFrom node fuel none []

/-! ### The blocks of the slots -/

abbrev Cache := ℕ → Option EncodedConfirmedBlock

/-- The block of a slot, from the cache or through it. -/
def fetchBlock (cache : Cache) (slot : ℕ) : Cache × Except IngesterError EncodedConfirmedBlock :=
  match cache slot with
  | some b => (cache, .ok b)
  | none =>
    match node.block slot with
    | .error e => (cache, .error (.rpcGetDataError e))
    | .ok b =>
      match node.insert slot with
      | .failed e => (cache, .error (.cacheStorageWriteError e))
      | .rejected => (cache, .error (.cacheStorageWriteError s!"Cache Write Failed on block{slot} is missing."))
      | .unready e => (Function.update cache slot (some b), .error (.cacheStorageWriteError e))
      | .lost => (cache, .error (.cacheStorageWriteError s!"Cache Procedure Failed block{slot} is missing."))
      | .kept => (Function.update cache slot (some b), .ok b)

/-- `bs58::decode(..).into(&mut [0; 32])`. -/
def decodeKey (s : String) : Except IngesterError Bytes :=
  match Base58.decode s with
  | some bytes =>
    if bytes.length ≤ 32 then .ok (bytes ++ List.replicate (32 - bytes.length) 0)
    else .error (.deserializationError s)
  | none => .error (.deserializationError s)

/-- The static keys of a transaction, and those of its lookup tables. -/
def accountKeys (metadata : TransactionMeta) (tx : VersionedTransaction) : Except IngesterError (List Bytes) :=
  match tx.hasLookups, metadata.loadedAddresses with
  | true, some loaded => do
    let writable ← loaded.writable.mapM decodeKey
    let readonly ← loaded.readonly.mapM decodeKey
    return tx.staticAccountKeys.map Pubkey.bytes ++ writable ++ readonly
  | _, _ => .ok (tx.staticAccountKeys.map Pubkey.bytes)

/-- Whether `plug_gap` sends a transaction: it has succeeded, and names the tree or the program. -/
def isSent (tree : Bytes) (bubblegum : Pubkey) (tx : EncodedTransaction) : Except IngesterError Bool :=
  match tx.metadata, tx.decoded with
  | some metadata, some decoded =>
    if metadata.err.isSome then .ok false
    else if tree.length ≠ 32 then .error (.deserializationError "could not convert slice to array")
    else do
      let keys ← accountKeys metadata decoded
      return !keys.all fun pk => decide (pk ≠ tree ∧ pk ≠ bubblegum.bytes)
  | _, _ => .ok false

/-- The transactions of a block. -/
def sendAll (tree : Bytes) (slot : ℕ) (blockTime : Option ℤ) :
    List EncodedTransaction → List Message × Option IngesterError
  | [] => ([], none)
  | tx :: txs =>
    match isSent tree chain.bubblegum tx with
    | .error e => ([], some e)
    | .ok false => sendAll tree slot blockTime txs
    | .ok true =>
      match node.serialize ⟨tx, slot, blockTime⟩ with
      | .error e => ([], some (.serializatonError e))
      | .ok () =>
        match node.send ⟨tx, slot, blockTime⟩ with
        | .error e => ([], some (.messengerError e))
        | .ok () =>
          let rest := sendAll tree slot blockTime txs
          (⟨tx, slot, blockTime⟩ :: rest.1, rest.2)

/-- What has been sent, the cache after it, and the error that ended it. -/
structure Plugged where
  sent : List Message
  cache : Cache
  error : Option IngesterError

/-- A loop over slots, which ends at the first error. -/
def plugAll (plug : Cache → ℕ → Plugged) : Cache → List ℕ → Plugged
  | cache, [] => ⟨[], cache, none⟩
  | cache, slot :: slots =>
    match plug cache slot with
    | ⟨sent, cache', some e⟩ => ⟨sent, cache', some e⟩
    | ⟨sent, cache', none⟩ =>
      let rest := plugAll plug cache' slots
      ⟨sent ++ rest.sent, rest.cache, rest.error⟩

/-- A slot of a gap. -/
def plugSlot (tree : Bytes) (cache : Cache) (slot : ℕ) : Plugged :=
  match fetchBlock node cache slot with
  | (cache', .error e) => ⟨[], cache', some e⟩
  | (cache', .ok b) =>
    let sent := sendAll node tree slot b.blockTime b.transactions
    ⟨sent.1, cache', sent.2⟩

/-- `plug_gap`.  A range for which `get_blocks` fails is left out. -/
def plugGapBlocks (tree : Bytes) (cache : Cache) (prevSlot currSlot : ℤ) : Plugged :=
  plugAll (plugSlot node tree) cache
    ((plugGap prevSlot currSlot).flatMap fun r => (node.blocks r.1 r.2).getD [])

/-- A slot of the tree is a gap of its own. -/
def plugTreeSlot (tree : Bytes) (cache : Cache) (slot : ℕ) : Plugged :=
  plugGapBlocks node tree cache (i64 slot) (i64 slot)

/-- `backfill_tree_from_seq_1`. -/
def backfillTreeFromSeq1 (fuel : ℕ) (cache : Cache) (tree : Bytes) : Option Plugged :=
  if tree.length ≠ 32 then some ⟨[], cache, some (.deserializationError "failed to parse pubkey")⟩
  else
    match findSlotsViaAddress node fuel with
    | none => none
    | some (.error e) => some ⟨[], cache, some e⟩
    | some (.ok slots) => some (plugAll (plugTreeSlot node tree) cache (node.walk slots))

/-! ### What the paging finds -/

section Paging

variable {node} {slots out : List ℕ} {before : Option Signature} {rest : List Confirmed}

theorem below_eq {newer older : List Confirmed} {c : Confirmed} (h : chain.history = newer ++ c :: older) :
    chain.below (some c.signature) = older := by
  have hnodup := chain.signatures_nodup
  rw [h, List.map_append, List.map_cons] at hnodup
  have hfresh : ∀ d ∈ newer, d.signature ≠ c.signature := fun d hd heq =>
    (List.nodup_append.mp hnodup).2.2 _ (List.mem_map_of_mem hd) _ List.mem_cons_self heq
  rw [Chain.below, h, List.dropWhile_append_of_pos fun d hd => decide_eq_true (hfresh d hd),
    List.dropWhile_cons_of_neg (by simp), List.tail_cons]

theorem serves (chain : Chain) : Serves chain.page Confirmed.signature 1000 chain.history where
  first := rfl
  below _ _ _ h := by rw [Chain.page, below_eq h]

theorem addSlots_statuses (page : List Confirmed) (before : Option Signature) (slots : List ℕ) :
    addSlots before slots (page.map Confirmed.status)
      = .ok (lastKey Confirmed.signature before page, page.foldl (fun slots c => slots.insert c.slot) slots) := by
  induction page generalizing before slots with
  | nil => rfl
  | cons c page ih =>
    rw [List.map_cons, addSlots, Confirmed.status, Signature.fromStr_encode]
    simp only
    rw [ih, lastKey_cons, List.foldl_cons]

theorem mem_foldl_insert (page : List Confirmed) (slots : List ℕ) (slot : ℕ) :
    slot ∈ page.foldl (fun slots c => slots.insert c.slot) slots ↔ slot ∈ slots ∨ slot ∈ page.map Confirmed.slot := by
  induction page generalizing slots with
  | nil => simp
  | cons c page ih =>
    rw [List.foldl_cons, ih, List.mem_insert_iff, List.map_cons, List.mem_cons]
    constructor
    · rintro ((heq | hin) | hin)
      · exact Or.inr (Or.inl heq)
      · exact Or.inl hin
      · exact Or.inr (Or.inr hin)
    · rintro (hin | heq | hin)
      · exact Or.inl (Or.inr hin)
      · exact Or.inl (Or.inl heq)
      · exact Or.inr hin

theorem nodup_foldl_insert (page : List Confirmed) (h : slots.Nodup) :
    (page.foldl (fun slots c => slots.insert c.slot) slots).Nodup := by
  induction page generalizing slots with
  | nil => exact h
  | cons c page ih => exact ih h.insert

/-- What a page adds, and whether it is the last. -/
theorem findSlotsFrom_page {fuel : ℕ} {page : List Confirmed}
    (hcall : node.signatures before = .ok (page.map Confirmed.status)) :
    findSlotsFrom node (fuel + 1) before slots =
      if page.length < 1000 then some (.ok (page.foldl (fun slots c => slots.insert c.slot) slots))
      else findSlotsFrom node fuel (lastKey Confirmed.signature before page)
        (page.foldl (fun slots c => slots.insert c.slot) slots) := by
  rw [findSlotsFrom, hcall]
  simp only
  rw [addSlots_statuses, List.length_map]
  cases page with
  | nil => rfl
  | cons c page => simp

/-- The paging ends, and where no call has failed every slot of the history has been found once. -/
theorem findSlotsFrom_spec {fuel : ℕ} (hfuel : rest.length < fuel)
    (hleft : Left Confirmed.signature chain.history before rest) (hslots : slots.Nodup) :
    ∃ r, findSlotsFrom node fuel before slots = some r ∧ ∀ out, r = .ok out →
      out.Nodup ∧ ∀ slot, slot ∈ out ↔ slot ∈ slots ∨ slot ∈ rest.map Confirmed.slot := by
  induction fuel generalizing before rest slots with
  | zero => exact absurd hfuel (Nat.not_lt_zero _)
  | succ fuel ih =>
    cases hcall : node.signatures before with
    | error e =>
      refine ⟨.error (.rpcGetDataError e), by rw [findSlotsFrom, hcall], fun out hout => ?_⟩
      cases hout
    | ok sigs =>
      have hnodup := nodup_foldl_insert (rest.take 1000) hslots
      obtain rfl := node.signatures_right before sigs hcall
      rw [(serves chain).page hleft] at hcall
      rw [findSlotsFrom_page hcall]
      by_cases hshort : (rest.take 1000).length < 1000
      · rw [if_pos hshort]
        refine ⟨_, rfl, fun out hout => ?_⟩
        obtain rfl := Except.ok.inj hout
        have hall : rest.take 1000 = rest := by
          rw [← List.append_nil (rest.take 1000), ← drop_of_short hshort, List.take_append_drop]
        refine ⟨hnodup, fun slot => ?_⟩
        rw [mem_foldl_insert, hall]
      · rw [if_neg hshort]
        have hne : rest ≠ [] := by
          rintro rfl
          exact hshort (by decide)
        have hlt : (rest.drop 1000).length < rest.length := drop_length_lt (by decide) hne
        obtain ⟨r, hr, hspec⟩ := ih (by omega) (hleft.behind 1000) hnodup
        refine ⟨r, hr, fun out hout => ?_⟩
        obtain ⟨hout', hmem⟩ := hspec out hout
        refine ⟨hout', fun slot => ?_⟩
        rw [hmem, mem_foldl_insert, or_assoc, ← List.mem_append, ← List.map_append, List.take_append_drop]

end Paging

/-! ### What is sent -/

/-- The slots of the tree's signatures. -/
def Chain.slots (chain : Chain) : List ℕ := (chain.history.map Confirmed.slot).dedup

/-- Whether a transaction has succeeded and names the tree or the program. -/
def Chain.names (chain : Chain) (tx : EncodedTransaction) : Bool :=
  match isSent chain.tree.bytes chain.bubblegum tx with
  | .ok sent => sent
  | .error _ => false

/-- The messages of a slot. -/
def Chain.messages (chain : Chain) (slot : ℕ) : List Message :=
  match chain.block slot with
  | some b => (b.transactions.filter chain.names).map fun tx => ⟨tx, slot, b.blockTime⟩
  | none => []

/-- The cache holds blocks of the chain. -/
def Cached (chain : Chain) (cache : Cache) : Prop := ∀ slot b, cache slot = some b → chain.block slot = some b

section Sending

variable {node} {cache cache' : Cache} {slot : ℕ}

theorem Cached.update (h : Cached chain cache) {b : EncodedConfirmedBlock} (hb : chain.block slot = some b) :
    Cached chain (Function.update cache slot (some b)) := by
  intro slot' b' hb'
  by_cases heq : slot' = slot
  · subst heq
    rw [Function.update_self] at hb'
    rw [hb, hb']
  · rw [Function.update_of_ne heq] at hb'
    exact h slot' b' hb'

/-- A block that is fetched is the block of its slot. -/
theorem fetchBlock_right (h : Cached chain cache) {r : Except IngesterError EncodedConfirmedBlock}
    (hfetch : fetchBlock node cache slot = (cache', r)) :
    Cached chain cache' ∧ ∀ b, r = .ok b → chain.block slot = some b := by
  rw [fetchBlock] at hfetch
  cases hcached : cache slot with
  | some b =>
    rw [hcached] at hfetch
    obtain ⟨rfl, rfl⟩ := Prod.mk.inj hfetch
    exact ⟨h, fun b' hb' => Except.ok.inj hb' ▸ h slot b hcached⟩
  | none =>
    rw [hcached] at hfetch
    cases hblock : node.block slot with
    | error e =>
      rw [hblock] at hfetch
      obtain ⟨rfl, rfl⟩ := Prod.mk.inj hfetch
      exact ⟨h, fun b hb => by cases hb⟩
    | ok b =>
      rw [hblock] at hfetch
      have hb := node.block_right slot b hblock
      cases hinsert : node.insert slot with
      | kept =>
        rw [hinsert] at hfetch
        obtain ⟨rfl, rfl⟩ := Prod.mk.inj hfetch
        exact ⟨h.update hb, fun b' hb' => Except.ok.inj hb' ▸ hb⟩
      | unready e =>
        rw [hinsert] at hfetch
        obtain ⟨rfl, rfl⟩ := Prod.mk.inj hfetch
        exact ⟨h.update hb, fun b' hb' => by cases hb'⟩
      | failed | rejected | lost =>
        rw [hinsert] at hfetch
        obtain ⟨rfl, rfl⟩ := Prod.mk.inj hfetch
        exact ⟨h, fun b' hb' => by cases hb'⟩

/-- Where no transaction fails to be sent, all that name the tree have been. -/
theorem sendAll_ok {blockTime : Option ℤ} {txs : List EncodedTransaction}
    (hok : (sendAll node chain.tree.bytes slot blockTime txs).2 = none) :
    (sendAll node chain.tree.bytes slot blockTime txs).1
      = (txs.filter chain.names).map fun tx => ⟨tx, slot, blockTime⟩ := by
  induction txs with
  | nil => rfl
  | cons tx txs ih =>
    rw [sendAll] at hok ⊢
    cases hsent : isSent chain.tree.bytes chain.bubblegum tx with
    | error e =>
      rw [hsent] at hok
      cases hok
    | ok sent =>
      rw [hsent] at hok
      cases sent with
      | false =>
        rw [List.filter_cons_of_neg (by simp [Chain.names, hsent])]
        exact ih hok
      | true =>
        rw [List.filter_cons_of_pos (by simp [Chain.names, hsent]), List.map_cons]
        cases hserialize : node.serialize ⟨tx, slot, blockTime⟩ with
        | error e =>
          simp only [hserialize] at hok
          cases hok
        | ok =>
          cases hsend : node.send ⟨tx, slot, blockTime⟩ with
          | error e =>
            simp only [hserialize, hsend] at hok
            cases hok
          | ok =>
            simp only [hserialize, hsend] at hok ⊢
            rw [ih hok]

/-- A loop over slots that ends without an error has sent what each of them sends. -/
theorem plugAll_ok (plug : Cache → ℕ → Plugged) {messages : ℕ → List Message} {slots : List ℕ}
    (hplug : ∀ slot ∈ slots, ∀ cache, Cached chain cache → (plug cache slot).error = none →
      (plug cache slot).sent = messages slot ∧ Cached chain (plug cache slot).cache)
    (h : Cached chain cache) (hok : (plugAll plug cache slots).error = none) :
    (plugAll plug cache slots).sent = slots.flatMap messages ∧ Cached chain (plugAll plug cache slots).cache := by
  induction slots generalizing cache with
  | nil => exact ⟨rfl, h⟩
  | cons slot slots ih =>
    rw [plugAll] at hok ⊢
    have hslot := hplug slot List.mem_cons_self cache h
    rcases hplugged : plug cache slot with ⟨sent, cache', error⟩
    rw [hplugged] at hok hslot
    cases error with
    | some e => cases hok
    | none =>
      obtain ⟨hsent, hcached⟩ := hslot rfl
      obtain ⟨hrest, hcached'⟩ := ih (fun s hs => hplug s (List.mem_cons_of_mem _ hs)) hcached hok
      refine ⟨?_, hcached'⟩
      rw [List.flatMap_cons, ← hsent, ← hrest]

theorem plugSlot_ok (h : Cached chain cache) (hok : (plugSlot node chain.tree.bytes cache slot).error = none) :
    (plugSlot node chain.tree.bytes cache slot).sent = chain.messages slot ∧
      Cached chain (plugSlot node chain.tree.bytes cache slot).cache := by
  rw [plugSlot] at hok ⊢
  rcases hfetch : fetchBlock node cache slot with ⟨cache', r⟩
  obtain ⟨hcached, hright⟩ := fetchBlock_right h hfetch
  rw [hfetch] at hok
  cases r with
  | error e => cases hok
  | ok b =>
    refine ⟨?_, hcached⟩
    rw [Chain.messages, hright b rfl]
    exact sendAll_ok hok

theorem plugGap_self (h : slot < 2 ^ 63) : plugGap (i64 slot) (i64 slot) = [(slot, slot)] := by
  have hslot : i64 (slot : ℤ) = slot := i64_eq_self (by omega) (by omega)
  have hzero : i64 0 = 0 := by decide
  have hu64 : asU64 (slot : ℤ) = slot := by
    have heq : (asU64 (slot : ℤ) : ℤ) = slot := asU64_eq (by omega) (by omega)
    omega
  rw [hslot, plugGap, sub_self, hzero, show (numIter 0).toNat = 1 by decide, slotRanges, slotRanges,
    show min (500000 : ℤ) 0 = 0 by decide, add_zero, hslot, hu64]

theorem lt_of_mem_slots (h : slot ∈ chain.slots) : slot < 2 ^ 63 := by
  obtain ⟨c, hc, rfl⟩ := List.mem_map.mp (List.mem_dedup.mp h)
  exact chain.slot_lt c hc

/-- What is sent for one slot of the tree. -/
def answered (node : Node chain) (slot : ℕ) : List Message :=
  if (node.blocks slot slot).isSome then chain.messages slot else []

theorem plugTreeSlot_ok (h : Cached chain cache) (hslot : slot ∈ chain.slots)
    (hok : (plugTreeSlot node chain.tree.bytes cache slot).error = none) :
    (plugTreeSlot node chain.tree.bytes cache slot).sent = answered node slot ∧
      Cached chain (plugTreeSlot node chain.tree.bytes cache slot).cache := by
  rw [plugTreeSlot, plugGapBlocks, plugGap_self (lt_of_mem_slots hslot), List.flatMap_singleton] at hok ⊢
  rw [answered]
  cases hblocks : node.blocks slot slot with
  | none => exact ⟨rfl, h⟩
  | some slots =>
    rw [hblocks] at hok
    obtain rfl := node.blocks_right slot slots hblocks
    obtain ⟨hsent, hcached⟩ := plugAll_ok (plugSlot node chain.tree.bytes)
      (fun slot _ cache hcached => plugSlot_ok hcached) h hok
    refine ⟨?_, hcached⟩
    rw [Option.isSome_some, if_pos rfl]
    refine hsent.trans ?_
    rw [Option.getD_some, Chain.messages]
    cases hblock : chain.block slot with
    | none => rfl
    | some b =>
      rw [Option.isSome_some, if_pos rfl, List.flatMap_singleton, Chain.messages, hblock]

theorem flatMap_answered (node : Node chain) (slots : List ℕ) :
    slots.flatMap (answered node)
      = (slots.filter fun slot => (node.blocks slot slot).isSome).flatMap chain.messages := by
  induction slots with
  | nil => rfl
  | cons slot slots ih =>
    rw [List.flatMap_cons, ih, answered, List.filter_cons]
    by_cases hsome : (node.blocks slot slot).isSome
    · rw [if_pos hsome, if_pos hsome, List.flatMap_cons]
    · rw [if_neg hsome, if_neg hsome, List.nil_append]

end Sending

/-- **What a backfill from the start sends**: where it succeeds, the successful transactions that name the tree or the
program in the blocks of the tree's slots, each once, but for the slots for which `get_blocks` has failed. -/
theorem full_backfill_sends {cache : Cache} (hcache : Cached chain cache) {fuel : ℕ}
    (hfuel : chain.history.length < fuel) :
    ∃ plugged, backfillTreeFromSeq1 node fuel cache chain.tree.bytes = some plugged ∧ (plugged.error = none →
      plugged.sent.Perm ((chain.slots.filter fun slot => (node.blocks slot slot).isSome).flatMap chain.messages)) := by
  obtain ⟨r, hr, hspec⟩ := findSlotsFrom_spec hfuel .all List.nodup_nil
  rw [backfillTreeFromSeq1, if_neg (not_not.mpr chain.tree.length_bytes), findSlotsViaAddress, hr]
  cases r with
  | error e => exact ⟨_, rfl, fun hok => by cases hok⟩
  | ok slots =>
    refine ⟨_, rfl, fun hok => ?_⟩
    obtain ⟨hnodup, hmem⟩ := hspec slots rfl
    have hslots : ∀ slot, slot ∈ slots ↔ slot ∈ chain.slots := fun slot => by
      rw [hmem, Chain.slots, List.mem_dedup]
      exact or_iff_right List.not_mem_nil
    have hperm : (node.walk slots).Perm chain.slots :=
      (node.walk_perm slots).trans ((List.perm_ext_iff_of_nodup hnodup (List.nodup_dedup _)).mpr hslots)
    obtain ⟨hsent, -⟩ := plugAll_ok (plugTreeSlot node chain.tree.bytes)
      (fun slot hslot cache hcached => plugTreeSlot_ok hcached (hperm.mem_iff.mp hslot)) hcache hok
    rw [hsent]
    exact (hperm.flatMap_right _).trans (List.Perm.of_eq (flatMap_answered node _))

/-! ### A slot that is left out -/

def sampleTransaction : EncodedTransaction := ⟨some ⟨none, none⟩, some ⟨.fill 1, [.fill 7], false⟩⟩

/-- A tree with a transaction in slot 5 and one in slot 6. -/
def sampleChain : Chain where
  tree := .fill 7
  bubblegum := .fill 9
  history := [⟨.fill 2, 6, none⟩, ⟨.fill 1, 5, none⟩]
  block slot := if slot = 5 ∨ slot = 6 then some ⟨[sampleTransaction], none⟩ else none
  signatures_nodup := by decide
  slot_lt := by decide

/-- `get_blocks` fails for slot 6. -/
def sampleNode : Node sampleChain where
  signatures before := .ok ((sampleChain.page before).map Confirmed.status)
  blocks start _ := if start = 5 then some [5] else none
  block slot := (sampleChain.block slot).elim (.error "skipped") .ok
  insert _ := .kept
  serialize _ := .ok ()
  send _ := .ok ()
  walk := id
  signatures_right before sigs h := (Except.ok.inj h).symm
  blocks_right slot slots h := by
    split at h
    · rename_i heq
      subst heq
      exact (Option.some.inj h).symm
    · cases h
  block_right slot b h := by
    cases hblock : sampleChain.block slot with
    | none =>
      rw [hblock] at h
      cases h
    | some b' =>
      rw [hblock] at h
      rw [Except.ok.inj h]
  walk_perm slots := .refl _

theorem sample_slots : findSlotsViaAddress sampleNode 3 = some (.ok [5, 6]) := by
  have hcall : sampleNode.signatures none = .ok ((sampleChain.page none).map Confirmed.status) := rfl
  rw [findSlotsViaAddress, findSlotsFrom_page hcall]
  rfl

/-- The backfill of the sample succeeds, without the transaction in slot 6. -/
theorem slot_is_left_out :
    ∃ plugged, backfillTreeFromSeq1 sampleNode 3 (fun _ => none) sampleChain.tree.bytes = some plugged ∧
      plugged.error = none ∧ plugged.sent.Perm [⟨sampleTransaction, 5, none⟩] := by
  have hcache : Cached sampleChain fun _ => none := fun _ _ h => by cases h
  obtain ⟨plugged, hrun, hsent⟩ := full_backfill_sends sampleNode hcache (show 2 < 3 by decide)
  have hok : plugged.error = none := by
    rw [backfillTreeFromSeq1, if_neg (not_not.mpr sampleChain.tree.length_bytes), sample_slots] at hrun
    obtain rfl := Option.some.inj hrun
    show (plugAll (plugTreeSlot sampleNode sampleChain.tree.bytes) (fun _ => none) [5, 6]).error = none
    decide +kernel
  exact ⟨plugged, hrun, hok, hsent hok⟩

end DasIndexer.Backfill.FromStart
