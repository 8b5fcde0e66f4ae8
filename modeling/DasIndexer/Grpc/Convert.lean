import DasIndexer.Bubblegum.HandleTransaction
import DasIndexer.Grpc.Cursor

/-!
# From a transaction update to its write

`transaction` turns the protobuf update into a `TransactionInfo`.  It checks that every program index fits
into a byte, not that it is the index of a key.  `orderInstructions` looks the program of an outer
instruction up and skips one that has none, but indexes the keys directly for an inner instruction, and that
panics.  The panic ends the task of the write before `Cursor::end`, and the slot stays pending.

**`writes_end_iff`** says for which accepted updates no write panics: those whose inner instructions, in every
group that belongs to one of the outer instructions, name a program by the index of a key.  A key list is
short of the loaded addresses when the status meta does not carry them.
-/

namespace DasIndexer.Grpc

open Fallible

namespace Convert

/-! ### The update -/

/-- `prelude::CompiledInstruction`. -/
structure ProtoInstruction where
  programIdIndex : UInt32
  accounts : Bytes
  data : Bytes
deriving DecidableEq

/-- `prelude::InnerInstruction`. -/
structure ProtoInnerInstruction where
  programIdIndex : UInt32
  accounts : Bytes
  data : Bytes
  stackHeight : Option UInt32
deriving DecidableEq

/-- `prelude::InnerInstructions`. -/
structure ProtoInnerInstructions where
  index : UInt32
  instructions : List ProtoInnerInstruction
deriving DecidableEq

/-- What is read of a `prelude::Message`. -/
structure Message where
  accountKeys : List Bytes
  instructions : List ProtoInstruction
deriving DecidableEq

/-- What is read of a `prelude::TransactionStatusMeta`. -/
structure TransactionStatusMeta where
  innerInstructions : List ProtoInnerInstructions
  innerInstructionsNone : Bool
  loadedWritableAddresses : List Bytes
  loadedReadonlyAddresses : List Bytes
deriving DecidableEq

/-- `prelude::Transaction`. -/
structure Transaction where
  message : Option Message
deriving DecidableEq

/-- `SubscribeUpdateTransactionInfo`. -/
structure SubscribeUpdateTransactionInfo where
  signature : Bytes
  transaction : Option Transaction
  status : Option TransactionStatusMeta
deriving DecidableEq

/-- `SubscribeUpdateTransaction`. -/
structure SubscribeUpdateTransaction where
  transaction : Option SubscribeUpdateTransactionInfo
  slot : ℕ
deriving DecidableEq

/-! ### Conversion -/

/-- `.context(..)` on an option. -/
def context {α : Type} (x : Option α) (msg : String) : Except String α :=
  match x with
  | some a => .ok a
  | none => .error msg

/-- `pubkey`. -/
def pubkey (bytes : Bytes) : Except String Pubkey :=
  if h : bytes.length = 32 then .ok ⟨bytes, h⟩ else .error s!"pubkey has {bytes.length} bytes"

/-- `index`. -/
def index (value : UInt32) : Except String UInt8 :=
  if value.toNat < 256 then .ok (UInt8.ofNat value.toNat)
  else .error s!"instruction index {value} does not fit in u8"

/-- `Signature::try_from`, and the signature as it is printed. -/
def signature (bytes : Bytes) : Except String String :=
  if bytes.length = 64 then .ok (Base58.encode bytes)
  else .error s!"signature has {bytes.length} bytes"

def messageInstruction (ix : ProtoInstruction) : Except String CompiledInstruction := do
  let programIdIndex ← index ix.programIdIndex
  return ⟨programIdIndex, ix.accounts, ix.data⟩

def innerInstruction (ix : ProtoInnerInstruction) : Except String InnerInstruction := do
  let programIdIndex ← index ix.programIdIndex
  return ⟨⟨programIdIndex, ix.accounts, ix.data⟩, ix.stackHeight.map (·.toNat)⟩

def innerInstructions (inner : ProtoInnerInstructions) : Except String InnerInstructions := do
  let i ← index inner.index
  let instructions ← inner.instructions.mapM innerInstruction
  return ⟨i, instructions⟩

/-- The keys that instructions index into: the static ones, then the loaded addresses. -/
def allKeys (message : Message) (status : TransactionStatusMeta) : List Bytes :=
  message.accountKeys ++ status.loadedWritableAddresses ++ status.loadedReadonlyAddresses

/-- The inner instructions that are converted. -/
def recorded (status : TransactionStatusMeta) : List ProtoInnerInstructions :=
  if status.innerInstructionsNone then [] else status.innerInstructions

/-- `convert::transaction`. -/
def transaction (update : SubscribeUpdateTransaction) : Except String TransactionInfo := do
  let info ← context update.transaction "transaction update carries no transaction"
  let message ← context (info.transaction.bind (·.message)) "transaction carries no message"
  let status ← context info.status "transaction carries no status meta"
  let accountKeys ← (allKeys message status).mapM pubkey
  let messageInstructions ← message.instructions.mapM messageInstruction
  let metaInnerInstructions ← (recorded status).mapM innerInstructions
  let signature ← signature info.signature
  return { slot := update.slot, signature, accountKeys, messageInstructions, metaInnerInstructions }

/-! ### What conversion keeps -/

theorem mem_recorded_iff {status : TransactionStatusMeta} {group : ProtoInnerInstructions} :
    group ∈ recorded status ↔ status.innerInstructionsNone = false ∧ group ∈ status.innerInstructions := by
  unfold recorded
  cases status.innerInstructionsNone <;> simp

theorem context_eq_ok {α : Type} {x : Option α} {msg : String} {a : α} (h : context x msg = .ok a) :
    x = some a := by
  cases x with
  | none => cases h
  | some b =>
    cases h
    rfl

theorem index_eq_ok {value : UInt32} {i : UInt8} (h : index value = .ok i) : i.toNat = value.toNat := by
  unfold index at h
  split at h
  · cases h
    exact UInt8.toNat_ofNat_of_lt' (by assumption)
  · cases h

theorem innerInstruction_eq_ok {ix : ProtoInnerInstruction} {out : InnerInstruction}
    (h : innerInstruction ix = .ok out) :
    out.instruction.programIdIndex.toNat = ix.programIdIndex.toNat := by
  obtain ⟨i, hi, h⟩ := bind_eq_ok h
  cases h
  exact index_eq_ok hi

theorem innerInstructions_eq_ok {inner : ProtoInnerInstructions} {out : InnerInstructions}
    (h : innerInstructions inner = .ok out) :
    out.index.toNat = inner.index.toNat ∧
      List.Forall₂ (fun ix o => innerInstruction ix = .ok o) inner.instructions out.instructions := by
  obtain ⟨i, hi, h⟩ := bind_eq_ok h
  obtain ⟨ixs, hixs, h⟩ := bind_eq_ok h
  cases h
  exact ⟨index_eq_ok hi, forall₂_of_mapM hixs⟩

/-- What an accepted update is, and what becomes of its parts. -/
structure Accepted (update : SubscribeUpdateTransaction) (message : Message)
    (status : TransactionStatusMeta) (out : TransactionInfo) : Prop where
  message_eq : (update.transaction.bind (·.transaction)).bind (·.message) = some message
  status_eq : update.transaction.bind (·.status) = some status
  keys : List.Forall₂ (fun bytes key => pubkey bytes = .ok key) (allKeys message status) out.accountKeys
  outer : List.Forall₂ (fun ix o => messageInstruction ix = .ok o) message.instructions
    out.messageInstructions
  inner : List.Forall₂ (fun ix o => innerInstructions ix = .ok o) (recorded status)
    out.metaInnerInstructions

theorem transaction_eq_ok {update : SubscribeUpdateTransaction} {out : TransactionInfo}
    (h : transaction update = .ok out) : ∃ message status, Accepted update message status out := by
  unfold transaction at h
  obtain ⟨info, hinfo, h⟩ := bind_eq_ok h
  obtain ⟨message, hmessage, h⟩ := bind_eq_ok h
  obtain ⟨status, hstatus, h⟩ := bind_eq_ok h
  obtain ⟨keys, hkeys, h⟩ := bind_eq_ok h
  obtain ⟨outer, houter, h⟩ := bind_eq_ok h
  obtain ⟨inner, hinner, h⟩ := bind_eq_ok h
  obtain ⟨signature, _, h⟩ := bind_eq_ok h
  cases h
  have htransaction := context_eq_ok hinfo
  refine ⟨message, status, ?_, ?_, forall₂_of_mapM hkeys, forall₂_of_mapM houter, forall₂_of_mapM hinner⟩
  · rw [htransaction]
    exact context_eq_ok hmessage
  · rw [htransaction]
    exact context_eq_ok hstatus

/-- Every inner instruction that belongs to an outer one names its program by the index of a key. -/
def CallsWithinKeys (update : SubscribeUpdateTransaction) : Prop :=
  ∀ message status, (update.transaction.bind (·.transaction)).bind (·.message) = some message →
    update.transaction.bind (·.status) = some status → status.innerInstructionsNone = false →
    ∀ group ∈ status.innerInstructions, group.index.toNat < message.instructions.length →
      ∀ ix ∈ group.instructions, ix.programIdIndex.toNat
        < message.accountKeys.length + status.loadedWritableAddresses.length
          + status.loadedReadonlyAddresses.length

end Convert

/-! ### The write -/

/-- How the task of a write ends. -/
inductive WriteEnd where
  /-- it reached `Cursor::end` -/
  | ended
  | panicked
  /-- it is still retrying -/
  | retrying
deriving DecidableEq

/-- `write` of a transaction, for a number of attempts; the state is the database at each of them. -/
def write {σ : Type} (T : ProgramTransformer σ) (isRetryable : ProgramTransformerError → Bool)
    (info : TransactionInfo) : ℕ → (ℕ → σ) → WriteEnd
  | 0, _ => .retrying
  | attempts + 1, states =>
    match T.handleTransaction info (states 0) with
    | none => .panicked
    | some (_, .ok ()) => .ended
    | some (_, .error .notImplemented) => .ended
    | some (_, .error e) =>
      if isRetryable e then write T isRetryable info attempts fun n => states (n + 1) else .ended

/-! ### Where the task panics -/

theorem resolveInner_ne_none_iff {accountKeys : List Pubkey} {ix : InnerInstruction} :
    resolveInner accountKeys ix ≠ none
      ↔ ix.instruction.programIdIndex.toNat < accountKeys.length := by
  rw [resolveInner, ne_eq, Option.map_eq_none_iff, List.getElem?_eq_none_iff, Nat.not_le]

/-- `break_transaction` panics for an inner instruction without a key, of an outer instruction. -/
theorem breakTransaction_ne_none_iff (tx : TransactionInfo) (programs : List Pubkey) :
    tx.breakTransaction programs ≠ none ↔
      ∀ k < tx.messageInstructions.length, ∀ ix ∈ innerOf tx.metaInnerInstructions k,
        ix.instruction.programIdIndex.toNat < tx.accountKeys.length := by
  have hone : ∀ messageInstruction k,
      orderOne programs tx.accountKeys tx.metaInnerInstructions messageInstruction k ≠ none ↔
        ∀ ix ∈ innerOf tx.metaInnerInstructions k,
          ix.instruction.programIdIndex.toNat < tx.accountKeys.length := by
    intro messageInstruction k
    rw [← forall₂_congr fun ix _ => resolveInner_ne_none_iff, ← mapM_ne_none_iff, orderOne]
    cases (innerOf tx.metaInnerInstructions k).mapM (resolveInner tx.accountKeys) <;> simp
  rw [TransactionInfo.breakTransaction_eq, ne_eq, Option.map_eq_none_iff, TransactionInfo.blocks,
    ← ne_eq, mapM_ne_none_iff]
  simp only [hone]
  constructor
  · intro h k hk
    exact h (tx.messageInstructions[k], k) (List.mk_mem_zipIdx_iff_getElem?.mpr (List.getElem?_eq_getElem hk))
  · intro h e he
    exact h e.2 (by simpa using List.snd_lt_of_mem_zipIdx he)

/-- A group belongs to one of `n` outer instructions where its index is below `n`. -/
theorem exists_position_iff (i : UInt8) (n : ℕ) : (∃ k < n, i = UInt8.ofNat k) ↔ i.toNat < n := by
  constructor
  · rintro ⟨k, hk, rfl⟩
    exact Nat.lt_of_le_of_lt (by simpa using Nat.mod_le k 256) hk
  · intro h
    exact ⟨i.toNat, h, (UInt8.ofNat_toNat).symm⟩

/-- The condition on a converted transaction. -/
theorem breakTransaction_ne_none_iff_groups (tx : TransactionInfo) (programs : List Pubkey) :
    tx.breakTransaction programs ≠ none ↔
      ∀ group ∈ tx.metaInnerInstructions, group.index.toNat < tx.messageInstructions.length →
        ∀ ix ∈ group.instructions, ix.instruction.programIdIndex.toNat < tx.accountKeys.length := by
  rw [breakTransaction_ne_none_iff]
  constructor
  · intro h group hgroup hindex ix hix
    obtain ⟨k, hk, heq⟩ := (exists_position_iff group.index _).mpr hindex
    exact h k hk ix (List.mem_flatMap.mpr ⟨group, List.mem_filter.mpr ⟨hgroup, by simpa using heq⟩, hix⟩)
  · intro h k hk ix hix
    obtain ⟨group, hgroup, hix⟩ := List.mem_flatMap.mp hix
    obtain ⟨hmem, heq⟩ := List.mem_filter.mp hgroup
    exact h group hmem ((exists_position_iff _ _).mp ⟨k, hk, by simpa using heq⟩) ix hix

/-- The same condition on the update. -/
theorem Convert.callsWithinKeys_iff {update : Convert.SubscribeUpdateTransaction} {tx : TransactionInfo}
    (h : Convert.transaction update = .ok tx) :
    Convert.CallsWithinKeys update ↔
      ∀ group ∈ tx.metaInnerInstructions, group.index.toNat < tx.messageInstructions.length →
        ∀ ix ∈ group.instructions, ix.instruction.programIdIndex.toNat < tx.accountKeys.length := by
  obtain ⟨message, status, hacc⟩ := Convert.transaction_eq_ok h
  have hkeys := hacc.keys.length_eq
  rw [Convert.allKeys, List.length_append, List.length_append] at hkeys
  rw [← hacc.outer.length_eq, ← hkeys]
  constructor
  · intro hwithin group hgroup hindex ix hix
    obtain ⟨pgroup, hpgroup, hconv⟩ := exists_of_forall₂_right hacc.inner hgroup
    obtain ⟨hindex', hixs⟩ := Convert.innerInstructions_eq_ok hconv
    obtain ⟨pix, hpix, hconv'⟩ := exists_of_forall₂_right hixs hix
    obtain ⟨hnone, hmem⟩ := Convert.mem_recorded_iff.mp hpgroup
    rw [Convert.innerInstruction_eq_ok hconv']
    exact hwithin message status hacc.message_eq hacc.status_eq hnone pgroup hmem (hindex' ▸ hindex) pix hpix
  · intro hall message' status' hmessage hstatus hnone pgroup hpgroup hindex pix hpix
    rw [hacc.message_eq] at hmessage
    rw [hacc.status_eq] at hstatus
    cases hmessage
    cases hstatus
    obtain ⟨group, hgroup, hconv⟩ :=
      exists_of_forall₂_left hacc.inner (Convert.mem_recorded_iff.mpr ⟨hnone, hpgroup⟩)
    obtain ⟨hindex', hixs⟩ := Convert.innerInstructions_eq_ok hconv
    obtain ⟨ix, hix, hconv'⟩ := exists_of_forall₂_left hixs hpix
    rw [← Convert.innerInstruction_eq_ok hconv']
    exact hall group hgroup (by rw [hindex']; exact hindex) ix hix

/-! ### Where the write ends -/

/-- An attempt that is made again: the database asks for it. -/
def Retried {σ : Type} (T : ProgramTransformer σ) (isRetryable : ProgramTransformerError → Bool)
    (tx : TransactionInfo) (s : σ) : Prop :=
  ∃ handed e, T.handleTransaction tx s = some (handed, .error e) ∧ e ≠ .notImplemented ∧
    isRetryable e = true

/-- One attempt of a write that does not panic: it ends, or the next one is made. -/
theorem write_succ {σ : Type} {T : ProgramTransformer σ} {tx : TransactionInfo}
    (hbreak : tx.breakTransaction T.keySet ≠ none) (isRetryable : ProgramTransformerError → Bool)
    (attempts : ℕ) (states : ℕ → σ) :
    write T isRetryable tx (attempts + 1) states = .ended ∨
      (Retried T isRetryable tx (states 0) ∧
        write T isRetryable tx (attempts + 1) states
          = write T isRetryable tx attempts fun n => states (n + 1)) := by
  obtain ⟨entries, hentries⟩ := Option.ne_none_iff_exists'.mp hbreak
  obtain ⟨⟨handed, result⟩, hrun⟩ : ∃ r, T.handleTransaction tx (states 0) = some r := by
    rw [ProgramTransformer.handleTransaction, hentries]
    exact ⟨_, rfl⟩
  rw [write, hrun]
  cases result with
  | ok u => exact Or.inl rfl
  | error e =>
    by_cases hskip : e = .notImplemented
    · subst hskip
      exact Or.inl rfl
    · by_cases hretry : isRetryable e = true
      · refine Or.inr ⟨⟨handed, e, hrun, hskip, hretry⟩, ?_⟩
        cases e <;> first | exact absurd rfl hskip | exact if_pos hretry
      · left
        cases e <;> first | exact absurd rfl hskip | exact if_neg hretry

/-- A write that does not panic reaches `Cursor::end` with the first attempt that is not made again. -/
theorem write_ended {σ : Type} {T : ProgramTransformer σ} {tx : TransactionInfo}
    (hbreak : tx.breakTransaction T.keySet ≠ none) (isRetryable : ProgramTransformerError → Bool)
    (n : ℕ) (states : ℕ → σ) (hn : ¬ Retried T isRetryable tx (states n)) :
    write T isRetryable tx (n + 1) states = .ended := by
  induction n generalizing states with
  | zero =>
    rcases write_succ hbreak isRetryable 0 states with hended | ⟨hretried, _⟩
    · exact hended
    · exact absurd hretried hn
  | succ n ih =>
    rcases write_succ hbreak isRetryable (n + 1) states with hended | ⟨_, hnext⟩
    · exact hended
    · rw [hnext]
      exact ih (fun m => states (m + 1)) hn

/-- **Which accepted updates cannot make the writer panic.**  Of an update that conversion accepts,
`break_transaction` indexes no key out of range, and every write reaches `Cursor::end` with the first attempt
that the database does not ask to make again, if and only if every inner instruction of its outer instructions
names its program by the index of a key. -/
theorem writes_end_iff (programs : List Pubkey) (update : Convert.SubscribeUpdateTransaction)
    (tx : TransactionInfo) (haccepted : Convert.transaction update = .ok tx) :
    (tx.breakTransaction programs ≠ none ∧
      ∀ (σ : Type) (T : ProgramTransformer σ) (isRetryable : ProgramTransformerError → Bool)
        (states : ℕ → σ) (n : ℕ), T.keySet = programs → ¬ Retried T isRetryable tx (states n) →
          ∃ attempts, write T isRetryable tx attempts states = .ended) ↔
    Convert.CallsWithinKeys update := by
  rw [Convert.callsWithinKeys_iff haccepted, ← breakTransaction_ne_none_iff_groups tx programs]
  constructor
  · intro h
    exact h.1
  · intro hbreak
    refine ⟨hbreak, ?_⟩
    rintro σ T isRetryable states n rfl hn
    exact ⟨n + 1, write_ended hbreak isRetryable n states hn⟩

/-- An update with one static key and two instructions; the first calls the program with this index, and the
status meta has these loaded addresses. -/
def updateWith (programIdIndex : UInt32) (loaded : List Bytes) : Convert.SubscribeUpdateTransaction where
  slot := 5
  transaction := some
    { signature := List.replicate 64 1
      transaction := some ⟨some
        { accountKeys := [List.replicate 32 1]
          instructions := [⟨0, [], []⟩, ⟨0, [], []⟩] }⟩
      status := some
        { innerInstructions := [⟨0, [⟨programIdIndex, [], [], some 2⟩]⟩]
          innerInstructionsNone := false
          loadedWritableAddresses := []
          loadedReadonlyAddresses := loaded } }

/-- What it is converted to. -/
def infoWith (programIdIndex : UInt8) (keys : List Pubkey) : TransactionInfo where
  slot := 5
  signature := Base58.encode (List.replicate 64 1)
  accountKeys := keys
  messageInstructions := [⟨0, [], []⟩, ⟨0, [], []⟩]
  metaInnerInstructions := [⟨0, [⟨⟨programIdIndex, [], []⟩, some 2⟩]⟩]

/-- With the loaded address the write ends. -/
theorem loaded_call_ends :
    ((infoWith 1 [Pubkey.fill 1, Pubkey.fill 2]).breakTransaction [Pubkey.fill 2] ≠ none ∧
      ∀ (σ : Type) (T : ProgramTransformer σ) (isRetryable : ProgramTransformerError → Bool)
        (states : ℕ → σ) (n : ℕ), T.keySet = [Pubkey.fill 2] →
        ¬ Retried T isRetryable (infoWith 1 [Pubkey.fill 1, Pubkey.fill 2]) (states n) →
          ∃ attempts, write T isRetryable (infoWith 1 [Pubkey.fill 1, Pubkey.fill 2]) attempts states
            = .ended) ↔
    Convert.CallsWithinKeys (updateWith 1 [List.replicate 32 2]) :=
  writes_end_iff [Pubkey.fill 2] (updateWith 1 [List.replicate 32 2])
    (infoWith 1 [Pubkey.fill 1, Pubkey.fill 2]) rfl

/-- Without it the update is accepted all the same, the write panics at its first attempt, and the slot, which
is never released, holds the watermark below it. -/
theorem missing_address_panics :
    Convert.transaction (updateWith 1 []) = .ok (infoWith 1 [Pubkey.fill 1]) ∧
    (∀ programs, (infoWith 1 [Pubkey.fill 1]).breakTransaction programs = none) ∧
    (∀ (σ : Type) (T : ProgramTransformer σ) (isRetryable : ProgramTransformerError → Bool)
      (states : ℕ → σ) (attempts : ℕ),
      write T isRetryable (infoWith 1 [Pubkey.fill 1]) (attempts + 1) states = .panicked) ∧
    ((({} : Inner).beginWrite 5).finalized 100).watermark = some 4 := by
  have hbreak : ∀ programs, (infoWith 1 [Pubkey.fill 1]).breakTransaction programs = none :=
    fun _ => rfl
  refine ⟨rfl, hbreak, fun σ T isRetryable states attempts => ?_, by decide⟩
  rw [write, ProgramTransformer.handleTransaction, hbreak]
  rfl

end DasIndexer.Grpc
