import DasIndexer.Lib.GuardedRuns
import DasIndexer.Lib.OffsetPages
import DasIndexer.Schema.Values
import Mathlib.Data.List.Flatten

/-!
# The purge

`start_ta_purge` and `start_mint_purge` remove the rows of `token_accounts` or `tokens` whose account is gone.
Three stages run side by side.  One reads the keys of the table page by page, by offset and in no stated order.
One asks the RPC node for the accounts of these keys, a hundred at a time, and marks the keys that have no
account or one that no token program owns.  One deletes the rows of the marked keys and, for mints, marks their
assets as burnt.  Other programs write to the tables meanwhile.

**`purge_removes_dead`**: in every interleaving, a row that the purge deletes and an asset that it marks as
burnt are those of a key that the RPC node called dead.

The deletions race with the pages: they move rows past the offset, and the purge does not look at them
(`a_purge_overlooks`).  **`purge_overlooks`**: they are never more than the rows that were removed, so long as
the database lists the rows that stay in one order.
-/

namespace DasIndexer.Ops.Purge

open GuardedRuns OffsetPages

/-! ### Keys -/

/-- `Pubkey::try_from_slice`. -/
def tryFromSlice (bytes : Bytes) : Option Pubkey :=
  if h : bytes.length = 32 then some ⟨bytes, h⟩ else none

def TOKEN_PROGRAM_ID : Pubkey :=
  ⟨[6, 221, 246, 225, 215, 101, 161, 147, 217, 203, 225, 70, 206, 235, 121, 172, 28, 180, 133, 237, 95, 91, 55, 145,
    58, 140, 245, 133, 126, 255, 0, 169], rfl⟩

def TOKEN_2022_PROGRAM_ID : Pubkey :=
  ⟨[6, 221, 246, 225, 238, 117, 143, 222, 24, 66, 93, 188, 228, 108, 205, 218, 182, 26, 252, 77, 131, 185, 13, 39,
    254, 189, 249, 40, 216, 161, 139, 252], rfl⟩

/-- What the marking reads of an account. -/
structure Account where
  owner : Pubkey
deriving DecidableEq

def MAX_GET_MULTIPLE_ACCOUNTS : ℕ := 100

/-- Whether an answer calls the key dead. -/
def dead : Option Account → Bool
  | some acc => acc.owner ≠ TOKEN_PROGRAM_ID && acc.owner ≠ TOKEN_2022_PROGRAM_ID
  | none => true

/-- The keys of a chunk to remove. -/
def removeOf (answers : List (Pubkey × Option Account)) : List Pubkey :=
  answers.filterMap fun (key, acc) => if dead acc then some key else none

/-! ### The three stages -/

/-- Which table is purged. -/
inductive Target where
  | tokenAccounts | mints
deriving DecidableEq

structure Args where
  target : Target
  purgeWorkerCount : ℕ := 25
  markDeletionWorkerCount : ℕ := 100
  batchSize : ℕ := 100

/-- A task of `TokenAccountPurge` or `MintPurge`, with its statements that have been answered. -/
structure Purging where
  keys : List Pubkey
  deleted : Bool := false
  burnt : Bool
deriving DecidableEq

/-- `purge`: both statements of a mint run at a time, a token account has none for the assets. -/
def Purging.start (target : Target) (keys : List Pubkey) : Purging :=
  { keys, burnt := target = .tokenAccounts }

/-- A write of another program. -/
inductive Write where
  | insert (i : ℕ) (key : Bytes)
  | remove (key : Bytes)
  /-- the database lists the rows in another order from now on -/
  | reorder (rows : List Bytes)
  | asset (id : Bytes) (burnt : Bool)
deriving DecidableEq

/-- The table with the reader of its pages, the column `burnt` of `asset`, the two channels and the tasks of
their readers; then what has happened so far: what the RPC node said, the keys it has not answered, the keys of
statements that failed, and what others wrote. -/
structure State where
  table : Reading Bytes
  assets : List (Bytes × Bool)
  paging : Bool := true
  toMark : List (List Pubkey) := []
  /-- the chunks that each task has left -/
  marking : List (List (List Pubkey)) := []
  toPurge : List (List Pubkey) := []
  purging : List Purging := []
  answers : List (Pubkey × Option Account) := []
  unanswered : List Pubkey := []
  failed : List Pubkey := []
  others : List Write := []

inductive Event where
  | page
  | pageFails
  | mark (joined : Option (List (List Pubkey)))
  | answer (chunk : List Pubkey) (rest : List (List Pubkey)) (reply : Option (List (Option Account)))
  | joinMark
  | purge (joined : Option Purging)
  | delete (task : Purging) (ok : Bool)
  | burn (task : Purging) (ok : Bool)
  | joinPurge (task : Purging)
  | other (write : Write)
deriving DecidableEq

/-- A task goes on. -/
def proceed {T : Type} [DecidableEq T] (tasks : List T) (task task' : T) : List T := task' :: tasks.erase task

/-- `join_next` returns a task. -/
def join {T : Type} [DecidableEq T] (tasks : List T) (task : T) : List T := tasks.erase task

/-- `if tasks.len() >= limit { tasks.join_next().await }` and `tasks.spawn`, for a `JoinSet`: a task that has
finished makes room. -/
def spawn {T : Type} [DecidableEq T] (limit : ℕ) (finished : T → Bool) (tasks : List T) (joined : Option T)
    (task : T) : Option (List T) :=
  match joined with
  | none => if tasks.length < limit ∨ tasks = [] then some (task :: tasks) else none
  | some t =>
    if limit ≤ tasks.length ∧ t ∈ tasks ∧ finished t = true then some (proceed tasks t task) else none

/-- Both statements have been answered. -/
def Purging.finished (task : Purging) : Bool := task.deleted && task.burnt

/-- A write of another program. -/
def State.write (s : State) : Write → Option State
  | .insert i key => if key ∉ s.table.rows then some { s with table := s.table.insert i key } else none
  | .remove key => some { s with table := s.table.remove fun x => decide (x = key) }
  | .reorder rows => if rows.Perm s.table.rows then some { s with table := { s.table with rows } } else none
  | .asset id burnt => some { s with assets := (id, burnt) :: s.assets.filter fun a => decide (a.1 ≠ id) }

/-- One step of a stage, or a write of another program. -/
def step (args : Args) (s : State) : Event → Option State
  | .page =>
    if s.paging then
      let records := s.table.page args.batchSize
      let table := s.table.next args.batchSize
      if records = [] then some { s with table, paging := false }
      else some { s with table, toMark := s.toMark ++ [records.filterMap tryFromSlice] }
    else none
  | .pageFails => if s.paging then some { s with paging := false } else none
  | .mark joined =>
    match s.toMark with
    | [] => none
    | keys :: toMark => do
      let marking ← spawn args.markDeletionWorkerCount List.isEmpty s.marking joined
        (keys.toChunks MAX_GET_MULTIPLE_ACCOUNTS)
      some { s with toMark, marking }
  | .answer chunk rest reply =>
    if chunk :: rest ∈ s.marking then
      let marking := proceed s.marking (chunk :: rest) rest
      match reply with
      | none => some { s with marking, unanswered := s.unanswered ++ chunk }
      | some accounts =>
        let answers := chunk.zip accounts
        let remove := removeOf answers
        let s := { s with
          marking, answers := s.answers ++ answers
          unanswered := s.unanswered ++ chunk.drop accounts.length }
        if remove = [] then some s else some { s with toPurge := s.toPurge ++ [remove] }
    else none
  | .joinMark =>
    if s.paging = false ∧ s.toMark = [] ∧ [] ∈ s.marking then some { s with marking := join s.marking [] }
    else none
  | .purge joined =>
    match s.toPurge with
    | [] => none
    | keys :: toPurge => do
      let purging ← spawn args.purgeWorkerCount Purging.finished s.purging joined (Purging.start args.target keys)
      some { s with toPurge, purging }
  | .delete task ok =>
    if task ∈ s.purging ∧ task.deleted = false then
      let s := { s with purging := proceed s.purging task { task with deleted := true } }
      if ok then some { s with table := s.table.remove fun x => decide (x ∈ task.keys.map (·.bytes)) }
      else some { s with failed := s.failed ++ task.keys }
    else none
  | .burn task ok =>
    if task ∈ s.purging ∧ task.burnt = false then
      let s := { s with purging := proceed s.purging task { task with burnt := true } }
      if ok then
        let burns := fun id => decide (id ∈ task.keys.map (·.bytes))
        some { s with assets := s.assets.map fun a => if a.2 = false ∧ burns a.1 then (a.1, true) else a }
      else some { s with failed := s.failed ++ task.keys }
    else none
  | .joinPurge task =>
    if (s.paging = false ∧ s.toMark = [] ∧ s.marking = []) ∧ s.toPurge = [] ∧ task ∈ s.purging ∧
        task.finished = true then
      some { s with purging := join s.purging task }
    else none
  | .other w => (s.write w).map fun s => { s with others := s.others ++ [w] }

/-- The tables before a purge. -/
def State.fresh (rows : List Bytes) (assets : List (Bytes × Bool)) : State := { table := { rows }, assets }

/-- All three stages have ended. -/
structure Finished (s : State) : Prop where
  paging : s.paging = false
  toMark : s.toMark = []
  marking : s.marking = []
  toPurge : s.toPurge = []
  purging : s.purging = []

/-! ### What a step does -/

/-- The steps, by their outcome. -/
inductive Step (args : Args) (s : State) : Event → State → Prop
  | page (hpaging : s.paging = true) (hrecords : s.table.page args.batchSize ≠ []) :
    Step args s .page { s with
      table := s.table.next args.batchSize
      toMark := s.toMark ++ [(s.table.page args.batchSize).filterMap tryFromSlice] }
  | lastPage (hpaging : s.paging = true) (hrecords : s.table.page args.batchSize = []) :
    Step args s .page { s with table := s.table.next args.batchSize, paging := false }
  | pageFails (hpaging : s.paging = true) : Step args s .pageFails { s with paging := false }
  | mark {joined keys toMark marking} (hkeys : s.toMark = keys :: toMark)
      (hspawn : spawn args.markDeletionWorkerCount List.isEmpty s.marking joined
        (keys.toChunks MAX_GET_MULTIPLE_ACCOUNTS) = some marking) :
    Step args s (.mark joined) { s with toMark, marking }
  | unanswered {chunk rest} (htask : chunk :: rest ∈ s.marking) :
    Step args s (.answer chunk rest none)
      { s with marking := proceed s.marking (chunk :: rest) rest, unanswered := s.unanswered ++ chunk }
  | answered {chunk rest accounts} (htask : chunk :: rest ∈ s.marking) :
    Step args s (.answer chunk rest (some accounts))
      { s with
        marking := proceed s.marking (chunk :: rest) rest
        answers := s.answers ++ chunk.zip accounts
        unanswered := s.unanswered ++ chunk.drop accounts.length
        toPurge := s.toPurge ++ [removeOf (chunk.zip accounts)].filter (· ≠ []) }
  | joinMark (hpaging : s.paging = false) (htoMark : s.toMark = []) (htask : [] ∈ s.marking) :
    Step args s .joinMark { s with marking := join s.marking [] }
  | purge {joined keys toPurge purging} (hkeys : s.toPurge = keys :: toPurge)
      (hspawn : spawn args.purgeWorkerCount Purging.finished s.purging joined
        (Purging.start args.target keys) = some purging) :
    Step args s (.purge joined) { s with toPurge, purging }
  | deleted {task} (htask : task ∈ s.purging) (hdeleted : task.deleted = false) :
    Step args s (.delete task true) { s with
      purging := proceed s.purging task { task with deleted := true }
      table := s.table.remove fun x => decide (x ∈ task.keys.map (·.bytes)) }
  | deleteFails {task} (htask : task ∈ s.purging) (hdeleted : task.deleted = false) :
    Step args s (.delete task false) { s with
      purging := proceed s.purging task { task with deleted := true }, failed := s.failed ++ task.keys }
  | burnt {task} (htask : task ∈ s.purging) (hburnt : task.burnt = false) :
    Step args s (.burn task true) { s with
      purging := proceed s.purging task { task with burnt := true }
      assets := s.assets.map fun a =>
        if a.2 = false ∧ decide (a.1 ∈ task.keys.map (·.bytes)) then (a.1, true) else a }
  | burnFails {task} (htask : task ∈ s.purging) (hburnt : task.burnt = false) :
    Step args s (.burn task false) { s with
      purging := proceed s.purging task { task with burnt := true }, failed := s.failed ++ task.keys }
  | joinPurge {task} (htask : task ∈ s.purging) (hfinished : task.finished = true) :
    Step args s (.joinPurge task) { s with purging := join s.purging task }
  | otherInsert {i key} (hnew : key ∉ s.table.rows) :
    Step args s (.other (.insert i key))
      { s with table := s.table.insert i key, others := s.others ++ [.insert i key] }
  | otherRemove {key} :
    Step args s (.other (.remove key))
      { s with table := s.table.remove fun x => decide (x = key), others := s.others ++ [.remove key] }
  | otherReorder {rows} (hperm : rows.Perm s.table.rows) :
    Step args s (.other (.reorder rows))
      { s with table := { s.table with rows }, others := s.others ++ [.reorder rows] }
  | otherAsset {id burnt} :
    Step args s (.other (.asset id burnt)) { s with
      assets := (id, burnt) :: s.assets.filter fun a => decide (a.1 ≠ id)
      others := s.others ++ [.asset id burnt] }

theorem step_cases {args : Args} {s s' : State} {event : Event} (h : step args s event = some s') :
    Step args s event s' := by
  cases event with
  | page =>
    obtain ⟨hpaging, h⟩ := Option.ite_none_right_eq_some.mp h
    by_cases hrecords : s.table.page args.batchSize = []
    · rw [if_pos hrecords] at h
      obtain rfl := Option.some.inj h
      exact .lastPage hpaging hrecords
    · rw [if_neg hrecords] at h
      obtain rfl := Option.some.inj h
      exact .page hpaging hrecords
  | pageFails =>
    obtain ⟨hpaging, h⟩ := Option.ite_none_right_eq_some.mp h
    obtain rfl := Option.some.inj h
    exact .pageFails hpaging
  | mark joined =>
    cases hkeys : s.toMark with
    | nil =>
      simp only [step, hkeys] at h
      cases h
    | cons keys toMark =>
      simp only [step, hkeys] at h
      obtain ⟨marking, hspawn, h⟩ := Option.bind_eq_some_iff.mp h
      obtain rfl := Option.some.inj h
      exact .mark hkeys hspawn
  | answer chunk rest reply =>
    obtain ⟨htask, h⟩ := Option.ite_none_right_eq_some.mp h
    cases reply with
    | none =>
      obtain rfl := Option.some.inj h
      exact .unanswered htask
    | some accounts =>
      have hanswered : Step args s (.answer chunk rest (some accounts)) _ := .answered htask
      by_cases hremove : removeOf (chunk.zip accounts) = []
      · simp only [hremove, if_true] at h
        obtain rfl := Option.some.inj h
        simpa [hremove] using hanswered
      · simp only [hremove, if_false] at h
        obtain rfl := Option.some.inj h
        simpa [hremove] using hanswered
  | joinMark =>
    obtain ⟨⟨hpaging, htoMark, htask⟩, h⟩ := Option.ite_none_right_eq_some.mp h
    obtain rfl := Option.some.inj h
    exact .joinMark hpaging htoMark htask
  | purge joined =>
    cases hkeys : s.toPurge with
    | nil =>
      simp only [step, hkeys] at h
      cases h
    | cons keys toPurge =>
      simp only [step, hkeys] at h
      obtain ⟨purging, hspawn, h⟩ := Option.bind_eq_some_iff.mp h
      obtain rfl := Option.some.inj h
      exact .purge hkeys hspawn
  | delete task ok =>
    obtain ⟨⟨htask, hdeleted⟩, h⟩ := Option.ite_none_right_eq_some.mp h
    cases ok with
    | true =>
      obtain rfl := Option.some.inj h
      exact .deleted htask hdeleted
    | false =>
      obtain rfl := Option.some.inj h
      exact .deleteFails htask hdeleted
  | burn task ok =>
    obtain ⟨⟨htask, hburnt⟩, h⟩ := Option.ite_none_right_eq_some.mp h
    cases ok with
    | true =>
      obtain rfl := Option.some.inj h
      exact .burnt htask hburnt
    | false =>
      obtain rfl := Option.some.inj h
      exact .burnFails htask hburnt
  | joinPurge task =>
    obtain ⟨⟨_, _, htask, hfinished⟩, h⟩ := Option.ite_none_right_eq_some.mp h
    obtain rfl := Option.some.inj h
    exact .joinPurge htask hfinished
  | other w =>
    obtain ⟨s', hwrite, rfl⟩ := Option.map_eq_some_iff.mp h
    cases w with
    | insert i key =>
      obtain ⟨hnew, hs⟩ := Option.ite_none_right_eq_some.mp hwrite
      obtain rfl := Option.some.inj hs
      exact .otherInsert hnew
    | remove key =>
      obtain rfl := Option.some.inj hwrite
      exact .otherRemove
    | reorder rows =>
      obtain ⟨hperm, hs⟩ := Option.ite_none_right_eq_some.mp hwrite
      obtain rfl := Option.some.inj hs
      exact .otherReorder hperm
    | asset id burnt =>
      obtain rfl := Option.some.inj hwrite
      exact .otherAsset

/-! ### Tasks -/

section Tasks

variable {T : Type} [DecidableEq T] {limit : ℕ} {finished : T → Bool} {tasks tasks' : List T} {joined : Option T}
  {task t : T}

theorem mem_spawned (h : spawn limit finished tasks joined task = some tasks') (ht : t ∈ tasks') :
    t = task ∨ t ∈ tasks := by
  cases joined with
  | none =>
    obtain ⟨_, htasks⟩ := Option.ite_none_right_eq_some.mp h
    obtain rfl := Option.some.inj htasks
    exact List.mem_cons.mp ht
  | some j =>
    obtain ⟨_, htasks⟩ := Option.ite_none_right_eq_some.mp h
    obtain rfl := Option.some.inj htasks
    exact (List.mem_cons.mp ht).imp_right List.mem_of_mem_erase

theorem task_mem_spawned (h : spawn limit finished tasks joined task = some tasks') : task ∈ tasks' := by
  cases joined with
  | none =>
    obtain ⟨_, htasks⟩ := Option.ite_none_right_eq_some.mp h
    obtain rfl := Option.some.inj htasks
    exact List.mem_cons_self
  | some j =>
    obtain ⟨_, htasks⟩ := Option.ite_none_right_eq_some.mp h
    obtain rfl := Option.some.inj htasks
    exact List.mem_cons_self

/-- Only a task that has finished makes room. -/
theorem mem_spawned_of_mem (h : spawn limit finished tasks joined task = some tasks') (ht : t ∈ tasks)
    (hrunning : finished t = false) : t ∈ tasks' := by
  cases joined with
  | none =>
    obtain ⟨_, htasks⟩ := Option.ite_none_right_eq_some.mp h
    obtain rfl := Option.some.inj htasks
    exact List.mem_cons_of_mem _ ht
  | some j =>
    obtain ⟨⟨_, _, hfinished⟩, htasks⟩ := Option.ite_none_right_eq_some.mp h
    obtain rfl := Option.some.inj htasks
    refine List.mem_cons_of_mem _ ((List.mem_erase_of_ne ?_).mpr ht)
    rintro rfl
    exact Bool.false_ne_true (hrunning.symm.trans hfinished)

/-- A task that has moved on stands for what it was. -/
theorem mem_proceed_of_mem (task task' : T) (ht : t ∈ tasks) : t = task ∨ t ∈ proceed tasks task task' := by
  by_cases heq : t = task
  · exact Or.inl heq
  · exact Or.inr (List.mem_cons_of_mem _ ((List.mem_erase_of_ne heq).mpr ht))

theorem mem_join_of_mem (hne : t ≠ task) (ht : t ∈ tasks) : t ∈ join tasks task :=
  (List.mem_erase_of_ne hne).mpr ht

end Tasks

theorem mem_removeOf {answers : List (Pubkey × Option Account)} {key : Pubkey} :
    key ∈ removeOf answers ↔ ∃ acc, (key, acc) ∈ answers ∧ dead acc = true := by
  rw [removeOf, List.mem_filterMap]
  constructor
  · rintro ⟨⟨k, acc⟩, hmem, hsome⟩
    obtain ⟨hdead, heq⟩ := Option.ite_none_right_eq_some.mp hsome
    obtain rfl := Option.some.inj heq
    exact ⟨acc, hmem, hdead⟩
  · rintro ⟨acc, hmem, hdead⟩
    exact ⟨(key, acc), hmem, if_pos hdead⟩

/-! ### Only dead keys are removed -/

/-- The RPC node has called a key dead. -/
def CalledDead (s : State) (key : Pubkey) : Prop := ∃ acc, (key, acc) ∈ s.answers ∧ dead acc = true

/-- The same for the key of a row. -/
def RowDead (s : State) (x : Bytes) : Prop := ∃ key : Pubkey, key.bytes = x ∧ CalledDead s key

/-- The keys on their way to the tables are dead, and so are those that have arrived there. -/
structure OnlyDead (args : Args) (assets : List (Bytes × Bool)) (s : State) : Prop where
  toPurge : ∀ keys ∈ s.toPurge, ∀ key ∈ keys, CalledDead s key
  purging : ∀ task ∈ s.purging, (∀ key ∈ task.keys, CalledDead s key) ∧
    (task.burnt = false → args.target = .mints)
  gone : ∀ x ∈ s.table.gone, .remove x ∈ s.others ∨ RowDead s x
  burnt : ∀ id, (id, true) ∈ s.assets →
    (id, true) ∈ assets ∨ .asset id true ∈ s.others ∨ args.target = .mints ∧ RowDead s id

theorem CalledDead.step {args : Args} {s s' : State} {event : Event} {key : Pubkey} (hdead : CalledDead s key)
    (h : Step args s event s') : CalledDead s' key := by
  obtain ⟨acc, hacc, hdead⟩ := hdead
  refine ⟨acc, ?_, hdead⟩
  cases h with
  | answered htask => exact List.mem_append_left _ hacc
  | _ => exact hacc

theorem RowDead.step {args : Args} {s s' : State} {event : Event} {x : Bytes} (hdead : RowDead s x)
    (h : Step args s event s') : RowDead s' x := by
  obtain ⟨key, hkey, hdead⟩ := hdead
  exact ⟨key, hkey, hdead.step h⟩

theorem step_others {args : Args} {s s' : State} {event : Event} (h : Step args s event s') {w : Write}
    (hw : w ∈ s.others) : w ∈ s'.others := by
  cases h with
  | otherInsert | otherRemove | otherReorder | otherAsset => exact List.mem_append_left _ hw
  | _ => exact hw

/-- What a step removes from the table is a row that somebody else removes or one of a key on its way. -/
theorem gone_step {args : Args} {s s' : State} {event : Event} (h : Step args s event s') {x : Bytes}
    (hx : x ∈ s'.table.gone) :
    x ∈ s.table.gone ∨ .remove x ∈ s'.others ∨ ∃ task ∈ s.purging, ∃ key ∈ task.keys, key.bytes = x := by
  cases h with
  | @deleted task htask hdeleted =>
    rcases List.mem_append.mp hx with hx | hx
    · exact Or.inl hx
    · obtain ⟨key, hkey, hbytes⟩ := List.mem_map.mp (of_decide_eq_true (List.mem_filter.mp hx).2)
      exact Or.inr (Or.inr ⟨task, htask, key, hkey, hbytes⟩)
  | otherRemove =>
    rcases List.mem_append.mp hx with hx | hx
    · exact Or.inl hx
    · obtain rfl := of_decide_eq_true (List.mem_filter.mp hx).2
      exact Or.inr (Or.inl (List.mem_append_right _ List.mem_cons_self))
  | _ => exact Or.inl hx

/-- The assets that a step marks as burnt are marked by somebody else or are those of keys on their way. -/
theorem burnt_step {args : Args} {s s' : State} {event : Event} (h : Step args s event s') {id : Bytes}
    (hid : (id, true) ∈ s'.assets) :
    (id, true) ∈ s.assets ∨ .asset id true ∈ s'.others ∨
      ∃ task ∈ s.purging, task.burnt = false ∧ ∃ key ∈ task.keys, key.bytes = id := by
  cases h with
  | @burnt task htask hburnt =>
    obtain ⟨⟨id', b⟩, ha, heq⟩ := List.mem_map.mp hid
    split at heq
    · rename_i hburns
      obtain ⟨rfl, -⟩ := Prod.mk.inj heq
      obtain ⟨key, hkey, hbytes⟩ := List.mem_map.mp (of_decide_eq_true hburns.2)
      exact Or.inr (Or.inr ⟨task, htask, hburnt, key, hkey, hbytes⟩)
    · exact Or.inl (heq ▸ ha)
  | otherAsset =>
    rcases List.mem_cons.mp hid with heq | hid
    · obtain ⟨rfl, rfl⟩ := Prod.mk.inj heq
      exact Or.inr (Or.inl (List.mem_append_right _ List.mem_cons_self))
    · exact Or.inl (List.mem_filter.mp hid).1
  | _ => exact Or.inl hid

/-- What waits to be purged has waited before or was called dead just now. -/
theorem toPurge_step {args : Args} {s s' : State} {event : Event} (h : Step args s event s')
    {keys : List Pubkey} (hkeys : keys ∈ s'.toPurge) :
    keys ∈ s.toPurge ∨ ∀ key ∈ keys, CalledDead s' key := by
  cases h with
  | answered htask =>
    refine (List.mem_append.mp hkeys).imp_right fun hnew => ?_
    obtain rfl := List.mem_singleton.mp (List.mem_filter.mp hnew).1
    intro key hkey
    obtain ⟨acc, hacc, hdead⟩ := mem_removeOf.mp hkey
    exact ⟨acc, List.mem_append_right _ hacc, hdead⟩
  | purge hqueue hspawn => exact Or.inl (hqueue ▸ List.mem_cons_of_mem _ hkeys)
  | _ => exact Or.inl hkeys

/-- A task that purges has been there before, with a statement less answered, or begins with keys that
waited. -/
theorem purging_step {args : Args} {s s' : State} {event : Event} (h : Step args s event s') {task : Purging}
    (htask : task ∈ s'.purging) :
    (∃ t ∈ s.purging, t.keys = task.keys ∧ (task.burnt = false → t.burnt = false)) ∨
      ∃ keys ∈ s.toPurge, task = Purging.start args.target keys := by
  cases h with
  | purge hqueue hspawn =>
    rcases mem_spawned hspawn htask with rfl | htask
    · exact Or.inr ⟨_, hqueue ▸ List.mem_cons_self, rfl⟩
    · exact Or.inl ⟨task, htask, rfl, id⟩
  | @deleted t ht _ | @deleteFails t ht _ =>
    rcases List.mem_cons.mp htask with rfl | htask
    · exact Or.inl ⟨t, ht, rfl, id⟩
    · exact Or.inl ⟨task, List.mem_of_mem_erase htask, rfl, id⟩
  | @burnt t ht hburnt | @burnFails t ht hburnt =>
    rcases List.mem_cons.mp htask with rfl | htask
    · exact Or.inl ⟨t, ht, rfl, fun _ => hburnt⟩
    · exact Or.inl ⟨task, List.mem_of_mem_erase htask, rfl, id⟩
  | joinPurge => exact Or.inl ⟨task, List.mem_of_mem_erase htask, rfl, id⟩
  | _ => exact Or.inl ⟨task, htask, rfl, id⟩

theorem OnlyDead.step {args : Args} {assets : List (Bytes × Bool)} {s s' : State} {event : Event}
    (hinv : OnlyDead args assets s) (h : Step args s event s') : OnlyDead args assets s' where
  toPurge := by
    intro keys hkeys
    rcases toPurge_step h hkeys with hkeys | hdead
    · exact fun key hkey => (hinv.toPurge keys hkeys key hkey).step h
    · exact hdead
  purging := by
    intro task htask
    rcases purging_step h htask with ⟨t, ht, hkeys, hburnt⟩ | ⟨keys, hkeys, rfl⟩
    · obtain ⟨hdead, htarget⟩ := hinv.purging t ht
      exact ⟨fun key hkey => (hdead key (hkeys ▸ hkey)).step h, fun hb => htarget (hburnt hb)⟩
    · refine ⟨fun key hkey => (hinv.toPurge keys hkeys key hkey).step h, fun hburnt => ?_⟩
      have hother := of_decide_eq_false hburnt
      cases htarget : args.target with
      | tokenAccounts => exact absurd htarget hother
      | mints => rfl
  gone := by
    intro x hx
    rcases gone_step h hx with hx | hremoved | ⟨task, htask, key, hkey, hbytes⟩
    · exact (hinv.gone x hx).imp (step_others h) (·.step h)
    · exact Or.inl hremoved
    · exact Or.inr ⟨key, hbytes, ((hinv.purging task htask).1 key hkey).step h⟩
  burnt := by
    intro id hid
    rcases burnt_step h hid with hid | hother | ⟨task, htask, hburnt, key, hkey, hbytes⟩
    · exact (hinv.burnt id hid).imp_right (Or.imp (step_others h) (And.imp_right (·.step h)))
    · exact Or.inr (Or.inl hother)
    · obtain ⟨hdead, htarget⟩ := hinv.purging task htask
      exact Or.inr (Or.inr ⟨htarget hburnt, key, hbytes, (hdead key hkey).step h⟩)

/-- A row that is there, or has been removed, is so after a step. -/
theorem rows_step {args : Args} {s s' : State} {event : Event} (h : Step args s event s') {x : Bytes}
    (hx : x ∈ s.table.rows ∨ x ∈ s.table.gone) : x ∈ s'.table.rows ∨ x ∈ s'.table.gone := by
  cases h with
  | deleted | otherRemove => exact Reading.mem_remove _ hx
  | otherInsert => exact Reading.mem_insert _ _ hx
  | otherReorder hperm => exact hx.imp_left hperm.mem_iff.mpr
  | _ => exact hx

/-- **The purge removes dead keys only.**  In every interleaving of its stages with each other and with other
programs, a row that was there at the start and is gone was removed by another program, or the RPC node has said
of its key that it has no account or one that no token program owns; and an asset is marked as burnt that was so
at the start, that another program has marked, or, where mints are purged, whose key the node has called dead. -/
theorem purge_removes_dead {args : Args} {rows : List Bytes} {assets : List (Bytes × Bool)} {events : List Event}
    {s : State} (h : run (step args) (State.fresh rows assets) events = some s) :
    (∀ x ∈ rows, x ∈ s.table.rows ∨ .remove x ∈ s.others ∨ RowDead s x) ∧
      ∀ id, (id, true) ∈ s.assets →
        (id, true) ∈ assets ∨ .asset id true ∈ s.others ∨ args.target = .mints ∧ RowDead s id := by
  have hstart : OnlyDead args assets (State.fresh rows assets) := by
    refine ⟨?_, ?_, ?_, fun id hid => Or.inl hid⟩ <;> intro _ hmem <;> exact absurd hmem List.not_mem_nil
  have hdead : OnlyDead args assets s :=
    inv_of_any_run (fun _ _ _ hinv hstep => hinv.step (step_cases hstep)) hstart h
  refine ⟨fun x hx => ?_, hdead.burnt⟩
  have hrow : x ∈ s.table.rows ∨ x ∈ s.table.gone :=
    inv_of_any_run (I := fun s => x ∈ s.table.rows ∨ x ∈ s.table.gone)
      (fun _ _ _ hx hstep => rows_step (step_cases hstep) hx) (Or.inl hx) h
  exact hrow.imp_right (hdead.gone x)

/-! ### Every row that is read is accounted for -/

/-- Where a key is that has been read: on its way, with a failed call or statement, called alive, or removed. -/
inductive Whereabouts (s : State) (key : Pubkey) : Prop
  | toMark {keys} (hkeys : keys ∈ s.toMark) (hkey : key ∈ keys)
  | marking {task chunk} (htask : task ∈ s.marking) (hchunk : chunk ∈ task) (hkey : key ∈ chunk)
  | toPurge {keys} (hkeys : keys ∈ s.toPurge) (hkey : key ∈ keys)
  | purging {task} (htask : task ∈ s.purging) (hkey : key ∈ task.keys) (hdeleted : task.deleted = false)
  | unanswered (hkey : key ∈ s.unanswered)
  | failed (hkey : key ∈ s.failed)
  | alive {acc} (hanswer : (key, acc) ∈ s.answers) (halive : dead acc = false)
  | gone (hgone : key.bytes ∈ s.table.gone)

/-- What the purge knows of the rows that it has read. -/
structure Accounted (s : State) : Prop where
  read : ∀ x ∈ s.table.read, x ∈ s.table.rows ∨ x ∈ s.table.gone
  whereabouts : ∀ key : Pubkey, key.bytes ∈ s.table.read → Whereabouts s key

theorem tryFromSlice_bytes (key : Pubkey) : tryFromSlice key.bytes = some key := dif_pos key.length_bytes

theorem exists_chunk_go {α : Type} {n : ℕ} {x : α} (l : List α) (acc₁ : Array α) (acc₂ : Array (List α))
    (hx : x ∈ l ∨ x ∈ acc₁ ∨ ∃ chunk ∈ acc₂, x ∈ chunk) : ∃ chunk ∈ List.toChunks.go n l acc₁ acc₂, x ∈ chunk := by
  induction l generalizing acc₁ acc₂ with
  | nil =>
    rcases hx with hx | hx | ⟨chunk, hchunk, hx⟩
    · exact absurd hx List.not_mem_nil
    · exact ⟨acc₁.toList, by simp [List.toChunks.go], Array.mem_toList_iff.mpr hx⟩
    · exact ⟨chunk, by simp [List.toChunks.go, hchunk], hx⟩
  | cons a l ih =>
    rw [List.toChunks.go]
    split
    · refine ih _ _ ?_
      rcases hx with hx | hx | ⟨chunk, hchunk, hx⟩
      · refine (List.mem_cons.mp hx).elim (fun heq => Or.inr (Or.inl ?_)) Or.inl
        simp [heq]
      · exact Or.inr (Or.inr ⟨acc₁.toList, Array.mem_push_self, Array.mem_toList_iff.mpr hx⟩)
      · exact Or.inr (Or.inr ⟨chunk, Array.mem_push_of_mem _ hchunk, hx⟩)
    · refine ih _ _ ?_
      rcases hx with hx | hx | hchunk
      · refine (List.mem_cons.mp hx).elim (fun heq => Or.inr (Or.inl ?_)) Or.inl
        exact heq ▸ Array.mem_push_self
      · exact Or.inr (Or.inl (Array.mem_push_of_mem _ hx))
      · exact Or.inr (Or.inr hchunk)

/-- The chunks of a list have what the list has. -/
theorem exists_chunk {α : Type} {n : ℕ} (hn : n ≠ 0) {l : List α} {x : α} (hx : x ∈ l) :
    ∃ chunk ∈ l.toChunks n, x ∈ chunk := by
  cases l with
  | nil => exact absurd hx List.not_mem_nil
  | cons a l =>
    cases n with
    | zero => exact absurd rfl hn
    | succ n =>
      refine exists_chunk_go l #[a] #[] ((List.mem_cons.mp hx).elim (fun heq => Or.inr (Or.inl ?_)) Or.inl)
      simp [heq]

theorem mem_zip_or_drop {α β : Type} {x : α} {l : List α} (r : List β) (hx : x ∈ l) :
    (∃ y, (x, y) ∈ l.zip r) ∨ x ∈ l.drop r.length := by
  induction l generalizing r with
  | nil => exact absurd hx List.not_mem_nil
  | cons a l ih =>
    cases r with
    | nil => exact Or.inr hx
    | cons y r =>
      rcases List.mem_cons.mp hx with rfl | hx
      · exact Or.inl ⟨y, List.mem_cons_self⟩
      · exact (ih r hx).imp_left fun ⟨z, hz⟩ => ⟨z, List.mem_cons_of_mem _ hz⟩

/-- What a step makes of a key that has been read. -/
theorem Whereabouts.step {args : Args} {s s' : State} {event : Event} {key : Pubkey} (hkey : Whereabouts s key)
    (hread : key.bytes ∈ s.table.rows ∨ key.bytes ∈ s.table.gone) (h : Step args s event s') :
    Whereabouts s' key := by
  have hgone : ∀ x ∈ s.table.gone, x ∈ s'.table.gone := by
    intro x hx
    cases h with
    | deleted | otherRemove => exact List.mem_append_left _ hx
    | _ => exact hx
  cases hkey with
  | gone hkey => exact .gone (hgone _ hkey)
  | unanswered hkey =>
    cases h with
    | unanswered | answered => exact .unanswered (List.mem_append_left _ hkey)
    | _ => exact .unanswered hkey
  | failed hkey =>
    cases h with
    | deleteFails | burnFails => exact .failed (List.mem_append_left _ hkey)
    | _ => exact .failed hkey
  | alive hanswer halive =>
    cases h with
    | answered => exact .alive (List.mem_append_left _ hanswer) halive
    | _ => exact .alive hanswer halive
  | @toMark keys hkeys hkey =>
    cases h with
    | page => exact .toMark (List.mem_append_left _ hkeys) hkey
    | mark hqueue hspawn =>
      rcases List.mem_cons.mp (hqueue ▸ hkeys) with rfl | hkeys
      · obtain ⟨chunk, hchunk, hkey⟩ := exists_chunk (n := MAX_GET_MULTIPLE_ACCOUNTS) (by decide) hkey
        exact .marking (task_mem_spawned hspawn) hchunk hkey
      · exact .toMark hkeys hkey
    | _ => exact .toMark hkeys hkey
  | @marking task chunk htask hchunk hkey =>
    have hmoved : ∀ {chunk' rest}, (chunk' :: rest ∈ s.marking) → key ∈ chunk' ∨
        ∃ task ∈ proceed s.marking (chunk' :: rest) rest, ∃ chunk ∈ task, key ∈ chunk := by
      intro chunk' rest htask'
      rcases mem_proceed_of_mem (chunk' :: rest) rest htask with rfl | htask
      · rcases List.mem_cons.mp hchunk with rfl | hchunk
        · exact Or.inl hkey
        · exact Or.inr ⟨rest, List.mem_cons_self, chunk, hchunk, hkey⟩
      · exact Or.inr ⟨task, htask, chunk, hchunk, hkey⟩
    cases h with
    | mark hqueue hspawn =>
      refine .marking (mem_spawned_of_mem hspawn htask ?_) hchunk hkey
      cases task with
      | nil => exact absurd hchunk List.not_mem_nil
      | cons => rfl
    | unanswered htask' =>
      rcases hmoved htask' with hkey | ⟨task, htask, chunk, hchunk, hkey⟩
      · exact .unanswered (List.mem_append_right _ hkey)
      · exact .marking htask hchunk hkey
    | @answered chunk' rest accounts htask' =>
      rcases hmoved htask' with hkey | ⟨task, htask, chunk, hchunk, hkey⟩
      · rcases mem_zip_or_drop accounts hkey with ⟨acc, hacc⟩ | hkey
        · cases hdead : dead acc with
          | false => exact .alive (List.mem_append_right _ hacc) hdead
          | true =>
            have hremove : key ∈ removeOf (chunk'.zip accounts) := mem_removeOf.mpr ⟨acc, hacc, hdead⟩
            refine .toPurge (List.mem_append_right _ (List.mem_filter.mpr ⟨List.mem_cons_self, ?_⟩)) hremove
            exact decide_eq_true (List.ne_nil_of_mem hremove)
        · exact .unanswered (List.mem_append_right _ hkey)
      · exact .marking htask hchunk hkey
    | joinMark =>
      refine .marking (mem_join_of_mem ?_ htask) hchunk hkey
      exact List.ne_nil_of_mem hchunk
    | _ => exact .marking htask hchunk hkey
  | @toPurge keys hkeys hkey =>
    cases h with
    | answered => exact .toPurge (List.mem_append_left _ hkeys) hkey
    | purge hqueue hspawn =>
      rcases List.mem_cons.mp (hqueue ▸ hkeys) with rfl | hkeys
      · exact .purging (task_mem_spawned hspawn) hkey rfl
      · exact .toPurge hkeys hkey
    | _ => exact .toPurge hkeys hkey
  | @purging task htask hkey hdeleted =>
    have hrunning : task.finished = false := by rw [Purging.finished, hdeleted, Bool.false_and]
    cases h with
    | purge hqueue hspawn => exact .purging (mem_spawned_of_mem hspawn htask hrunning) hkey hdeleted
    | @deleted t ht hdeleted' =>
      rcases mem_proceed_of_mem t { t with deleted := true } htask with rfl | htask
      · -- its row is removed now, if it has not been before
        have hrow := Reading.mem_remove (fun x => decide (x ∈ task.keys.map (·.bytes))) hread
        refine .gone (hrow.resolve_left fun hrow => ?_)
        have hkeys : key.bytes ∈ task.keys.map (·.bytes) := List.mem_map_of_mem hkey
        simpa [hkeys] using (List.mem_filter.mp hrow).2
      · exact .purging htask hkey hdeleted
    | @deleteFails t ht hdeleted' =>
      rcases mem_proceed_of_mem t { t with deleted := true } htask with rfl | htask
      · exact .failed (List.mem_append_right _ hkey)
      · exact .purging htask hkey hdeleted
    | @burnt t ht hburnt | @burnFails t ht hburnt =>
      rcases mem_proceed_of_mem t { t with burnt := true } htask with rfl | htask
      · exact .purging List.mem_cons_self hkey hdeleted
      · exact .purging htask hkey hdeleted
    | @joinPurge t ht hfinished =>
      refine .purging (mem_join_of_mem ?_ htask) hkey hdeleted
      rintro rfl
      exact Bool.false_ne_true (hrunning.symm.trans hfinished)
    | _ => exact .purging htask hkey hdeleted

/-- A step reads rows that are there; their keys go on to the marking. -/
theorem read_step {args : Args} {s s' : State} {event : Event} (h : Step args s event s') {x : Bytes}
    (hx : x ∈ s'.table.read) :
    x ∈ s.table.read ∨ (x ∈ s'.table.rows ∧ ∀ key, tryFromSlice x = some key → Whereabouts s' key) := by
  cases h with
  | page hpaging hrecords =>
    rcases List.mem_append.mp hx with hx | hx
    · exact Or.inl hx
    · refine Or.inr ⟨s.table.mem_rows_of_mem_page hx, fun key hkey => ?_⟩
      exact .toMark (List.mem_append_right _ List.mem_cons_self) (List.mem_filterMap.mpr ⟨x, hx, hkey⟩)
  | lastPage hpaging hrecords =>
    rcases List.mem_append.mp hx with hx | hx
    · exact Or.inl hx
    · exact absurd (hrecords ▸ hx) List.not_mem_nil
  | _ => exact Or.inl hx

theorem Accounted.step {args : Args} {s s' : State} {event : Event} (hinv : Accounted s)
    (h : Step args s event s') : Accounted s' where
  read := by
    intro x hx
    rcases read_step h hx with hx | ⟨hrows, -⟩
    · exact rows_step h (hinv.read x hx)
    · exact Or.inl hrows
  whereabouts := by
    intro key hkey
    rcases read_step h hkey with hkey | ⟨-, hnew⟩
    · exact (hinv.whereabouts key hkey).step (hinv.read _ hkey) h
    · exact hnew key (tryFromSlice_bytes key)

/-- Where all stages have ended, nothing is on its way. -/
theorem Whereabouts.of_finished {s : State} {key : Pubkey} (hkey : Whereabouts s key) (h : Finished s) :
    (key ∈ s.unanswered ∨ key ∈ s.failed ∨ ∃ acc, (key, acc) ∈ s.answers ∧ dead acc = false) ∨
      key.bytes ∈ s.table.gone := by
  cases hkey with
  | toMark hkeys => exact absurd (h.toMark ▸ hkeys) List.not_mem_nil
  | marking htask => exact absurd (h.marking ▸ htask) List.not_mem_nil
  | toPurge hkeys => exact absurd (h.toPurge ▸ hkeys) List.not_mem_nil
  | purging htask => exact absurd (h.purging ▸ htask) List.not_mem_nil
  | unanswered hkey => exact Or.inl (Or.inl hkey)
  | failed hkey => exact Or.inl (Or.inr (Or.inl hkey))
  | alive hanswer halive => exact Or.inl (Or.inr (Or.inr ⟨_, hanswer, halive⟩))
  | gone hgone => exact Or.inr hgone

/-! ### What the pages overlook -/

/-- The database lists the rows that stay in one order, and answers every page. -/
def Event.steady : Event → Bool
  | .pageFails | .other (.reorder _) => false
  | _ => true

/-- The rows that were there at the start and are still, and have not been read, are not more than those that
have been removed; from the last page on there are no others. -/
structure Paged (old : List Bytes) (s : State) : Prop where
  reading : s.table.Inv old
  ended : s.paging = false → ∃ skipped : List Bytes, skipped.length ≤ s.table.gone.length ∧
    ∀ x ∈ old, x ∈ s.table.read ∨ x ∈ s.table.gone ∨ x ∈ skipped

theorem Paged.of_table {old : List Bytes} {s s' : State} (hinv : Paged old s) (hreading : s'.table.Inv old)
    (hpaging : s'.paging = s.paging) (hread : s'.table.read = s.table.read)
    (hgone : s.table.gone <+: s'.table.gone) : Paged old s' where
  reading := hreading
  ended := by
    intro hended
    obtain ⟨skipped, hlength, hall⟩ := hinv.ended (hpaging ▸ hended)
    refine ⟨skipped, hlength.trans hgone.length_le, fun x hx => ?_⟩
    rw [hread]
    exact (hall x hx).imp_right (Or.imp_left fun hx => hgone.subset hx)

theorem Paged.step {args : Args} (hbatch : 0 < args.batchSize) {old : List Bytes} {s s' : State} {event : Event}
    (hinv : Paged old s) (hsteady : event.steady = true) (h : Step args s event s') : Paged old s' := by
  cases h with
  | page hpaging hrecords =>
    exact ⟨hinv.reading.next _, fun hended => nomatch hpaging.symm.trans hended⟩
  | lastPage hpaging hrecords =>
    refine ⟨hinv.reading.next _, fun _ => ⟨s.table.missed old, hinv.reading.missed_le, fun x hx => ?_⟩⟩
    exact (hinv.reading.missed_at_end hbatch hrecords hx).imp_left (List.mem_append_left _)
  | pageFails => exact nomatch hsteady
  | deleted =>
    exact hinv.of_table (hinv.reading.remove _) rfl rfl (List.prefix_append _ _)
  | otherRemove => exact hinv.of_table (hinv.reading.remove _) rfl rfl (List.prefix_append _ _)
  | otherInsert hnew => exact hinv.of_table (hinv.reading.insert _ hnew) rfl rfl (List.prefix_refl _)
  | otherReorder => exact nomatch hsteady
  | _ => exact hinv.of_table hinv.reading rfl rfl (List.prefix_refl _)

/-- **What a purge overlooks.**  Let the database list the rows that stay in one order and answer the query of
every page.  When all stages have ended, every row that was there at the start has been removed, or its key is
none, or the RPC node has called it alive, or its call or its deletion failed, or the pages have skipped it; and
no more rows were skipped than were removed meanwhile. -/
theorem purge_overlooks {args : Args} {rows : List Bytes} {assets : List (Bytes × Bool)} {events : List Event}
    {s : State} (hbatch : 0 < args.batchSize) (h : run (step args) (State.fresh rows assets) events = some s)
    (hsteady : ∀ event ∈ events, event.steady = true) (hfinished : Finished s) :
    ∃ skipped : List Bytes, skipped.length ≤ s.table.gone.length ∧ ∀ x ∈ rows,
      x ∈ s.table.gone ∨ x.length ≠ 32 ∨ x ∈ skipped ∨
        ∃ key : Pubkey, key.bytes = x ∧
          (key ∈ s.unanswered ∨ key ∈ s.failed ∨ ∃ acc, (key, acc) ∈ s.answers ∧ dead acc = false) := by
  have hpaged : Paged rows s := by
    have hsafe : SafeRun (step args) (fun _ event => event.steady = true) (State.fresh rows assets) events :=
      SafeRun.of_forall (fun event hevent _ => hsteady event hevent) (State.fresh rows assets)
    refine inv_of_run (fun _ _ _ hinv hsafe hstep => hinv.step hbatch hsafe (step_cases hstep)) ?_ h hsafe
    exact ⟨Reading.Inv.start rows, fun hended => nomatch hended⟩
  have haccounted : Accounted s := by
    refine inv_of_any_run (fun _ _ _ hinv hstep => hinv.step (step_cases hstep)) ?_ h
    exact ⟨fun x hx => absurd hx List.not_mem_nil, fun key hkey => absurd hkey List.not_mem_nil⟩
  obtain ⟨skipped, hlength, hall⟩ := hpaged.ended hfinished.paging
  refine ⟨skipped, hlength, fun x hx => ?_⟩
  rcases hall x hx with hread | hgone | hskipped
  · by_cases hkey : x.length = 32
    · obtain hleft | hgone := (haccounted.whereabouts ⟨x, hkey⟩ hread).of_finished hfinished
      · exact Or.inr (Or.inr (Or.inr ⟨⟨x, hkey⟩, rfl, hleft⟩))
      · exact Or.inl hgone
    · exact Or.inr (Or.inl hkey)
  · exact Or.inl hgone
  · exact Or.inr (Or.inr (Or.inl hskipped))

/-! ### Assets of dead mints -/

/-- Where the asset of a dead mint is: on its way, with a failed statement, written by another program, or not
unburnt. -/
inductive Burning (s : State) (key : Pubkey) : Prop
  | toPurge {keys} (hkeys : keys ∈ s.toPurge) (hkey : key ∈ keys)
  | purging {task} (htask : task ∈ s.purging) (hkey : key ∈ task.keys) (hburnt : task.burnt = false)
  | failed (hkey : key ∈ s.failed)
  | other (hother : .asset key.bytes false ∈ s.others)
  | burnt (hasset : (key.bytes, false) ∉ s.assets)

theorem Burning.step {args : Args} (htarget : args.target = .mints) {s s' : State} {event : Event} {key : Pubkey}
    (hkey : Burning s key) (h : Step args s event s') : Burning s' key := by
  cases hkey with
  | other hother => exact .other (step_others h hother)
  | failed hkey =>
    cases h with
    | deleteFails | burnFails => exact .failed (List.mem_append_left _ hkey)
    | _ => exact .failed hkey
  | burnt hasset =>
    cases h with
    | burnt htask hburnt =>
      refine .burnt fun hmem => ?_
      obtain ⟨a, ha, heq⟩ := List.mem_map.mp hmem
      split at heq
      · exact nomatch (Prod.mk.inj heq).2
      · exact hasset (heq ▸ ha)
    | @otherAsset id b =>
      by_cases heq : (id, b) = (key.bytes, false)
      · obtain ⟨rfl, rfl⟩ := Prod.mk.inj heq
        exact .other (List.mem_append_right _ List.mem_cons_self)
      · refine .burnt fun hmem => ?_
        rcases List.mem_cons.mp hmem with hmem | hmem
        · exact heq hmem.symm
        · exact hasset (List.mem_filter.mp hmem).1
    | _ => exact .burnt hasset
  | @toPurge keys hkeys hkey =>
    cases h with
    | answered => exact .toPurge (List.mem_append_left _ hkeys) hkey
    | purge hqueue hspawn =>
      rcases List.mem_cons.mp (hqueue ▸ hkeys) with rfl | hkeys
      · refine .purging (task_mem_spawned hspawn) hkey (decide_eq_false ?_)
        rw [htarget]
        exact fun hne => nomatch hne
      · exact .toPurge hkeys hkey
    | _ => exact .toPurge hkeys hkey
  | @purging task htask hkey hburnt =>
    have hrunning : task.finished = false := by rw [Purging.finished, hburnt, Bool.and_false]
    cases h with
    | purge hqueue hspawn => exact .purging (mem_spawned_of_mem hspawn htask hrunning) hkey hburnt
    | @deleted t ht hdeleted | @deleteFails t ht hdeleted =>
      rcases mem_proceed_of_mem t { t with deleted := true } htask with rfl | htask
      · exact .purging List.mem_cons_self hkey hburnt
      · exact .purging htask hkey hburnt
    | @burnt t ht hburnt' =>
      rcases mem_proceed_of_mem t { t with burnt := true } htask with rfl | htask
      · refine .burnt fun hmem => ?_
        obtain ⟨a, ha, heq⟩ := List.mem_map.mp hmem
        have hkeys : key.bytes ∈ task.keys.map (·.bytes) := List.mem_map_of_mem hkey
        split at heq
        · exact nomatch (Prod.mk.inj heq).2
        · rename_i hburns
          obtain rfl := heq
          exact hburns ⟨rfl, decide_eq_true hkeys⟩
      · exact .purging htask hkey hburnt
    | @burnFails t ht hburnt' =>
      rcases mem_proceed_of_mem t { t with burnt := true } htask with rfl | htask
      · exact .failed (List.mem_append_right _ hkey)
      · exact .purging htask hkey hburnt
    | @joinPurge t ht hfinished =>
      refine .purging (mem_join_of_mem ?_ htask) hkey hburnt
      rintro rfl
      exact Bool.false_ne_true (hrunning.symm.trans hfinished)
    | _ => exact .purging htask hkey hburnt

/-- A key that a step finds dead waits to be purged. -/
theorem called_step {args : Args} {s s' : State} {event : Event} {key : Pubkey} (h : Step args s event s')
    (hdead : CalledDead s' key) : CalledDead s key ∨ ∃ keys ∈ s'.toPurge, key ∈ keys := by
  obtain ⟨acc, hacc, hdead⟩ := hdead
  cases h with
  | @answered chunk rest accounts htask =>
    rcases List.mem_append.mp hacc with hacc | hacc
    · exact Or.inl ⟨acc, hacc, hdead⟩
    · have hremove : key ∈ removeOf (chunk.zip accounts) := mem_removeOf.mpr ⟨acc, hacc, hdead⟩
      refine Or.inr ⟨_, List.mem_append_right _ (List.mem_filter.mpr ⟨List.mem_cons_self, ?_⟩), hremove⟩
      exact decide_eq_true (List.ne_nil_of_mem hremove)
  | _ => exact Or.inl ⟨acc, hacc, hdead⟩

/-- **A purge of the mints burns what it finds dead.**  When all stages have ended, no asset of a mint that the
RPC node has called dead is left unburnt, unless the statement failed or another program wrote it. -/
theorem purge_burns {args : Args} (htarget : args.target = .mints) {rows : List Bytes}
    {assets : List (Bytes × Bool)} {events : List Event} {s : State}
    (h : run (step args) (State.fresh rows assets) events = some s) (hfinished : Finished s) {key : Pubkey}
    (hdead : CalledDead s key) :
    (key.bytes, false) ∉ s.assets ∨ key ∈ s.failed ∨ .asset key.bytes false ∈ s.others := by
  have hall : ∀ key, CalledDead s key → Burning s key := by
    refine inv_of_any_run (I := fun s => ∀ key, CalledDead s key → Burning s key) ?_ ?_ h
    · intro s event s' hinv hstep key hdead
      rcases called_step (step_cases hstep) hdead with hdead | ⟨keys, hkeys, hkey⟩
      · exact (hinv key hdead).step htarget (step_cases hstep)
      · exact .toPurge hkeys hkey
    · rintro key ⟨acc, hacc, _⟩
      exact absurd hacc List.not_mem_nil
  cases hall key hdead with
  | toPurge hkeys => exact absurd (hfinished.toPurge ▸ hkeys) List.not_mem_nil
  | purging htask => exact absurd (hfinished.purging ▸ htask) List.not_mem_nil
  | failed hkey => exact Or.inr (Or.inl hkey)
  | other hother => exact Or.inr (Or.inr hother)
  | burnt hasset => exact Or.inl hasset

/-! ### A row that the pages skip -/

section Example

/-- Pages of one row. -/
def oneRowPages : Args := { target := .mints, batchSize := 1 }

/-- Two mints, neither with an account. -/
def twoMints : List Bytes := [(Pubkey.fill 1).bytes, (Pubkey.fill 2).bytes]

/-- The asset of the first. -/
def firstAsset : List (Bytes × Bool) := [((Pubkey.fill 1).bytes, false)]

/-- The first page is marked and deleted before the second is read. -/
def deleteBeforePage : List Event :=
  let task := Purging.start .mints [Pubkey.fill 1]
  let deleted := { task with deleted := true }
  [.page, .mark none, .answer [Pubkey.fill 1] [] (some [none]), .purge none, .delete task true, .burn deleted true,
    .page, .joinMark, .joinPurge { deleted with burnt := true }]

/-- The second mint has moved to where the first has been, and no page has it. -/
def afterDelete : State :=
  { table := { rows := [(Pubkey.fill 2).bytes], offset := 2, read := [(Pubkey.fill 1).bytes]
               gone := [(Pubkey.fill 1).bytes] }
    assets := [((Pubkey.fill 1).bytes, true)]
    paging := false
    answers := [(Pubkey.fill 1, none)] }

theorem a_purge_overlooks :
    run (step oneRowPages) (State.fresh twoMints firstAsset) deleteBeforePage = some afterDelete ∧
      Finished afterDelete :=
  ⟨rfl, rfl, rfl, rfl, rfl, rfl⟩

theorem removed_is_dead : RowDead afterDelete (Pubkey.fill 1).bytes := by
  have hmints := (@purge_removes_dead oneRowPages twoMints firstAsset deleteBeforePage afterDelete
    a_purge_overlooks.1).1 (Pubkey.fill 1).bytes List.mem_cons_self
  exact (hmints.resolve_left (by decide)).resolve_left (by decide)

theorem dead_mint_is_burnt :
    ((Pubkey.fill 1).bytes, false) ∉ afterDelete.assets ∨ Pubkey.fill 1 ∈ afterDelete.failed ∨
      .asset (Pubkey.fill 1).bytes false ∈ afterDelete.others :=
  @purge_burns oneRowPages rfl twoMints firstAsset deleteBeforePage afterDelete a_purge_overlooks.1
    a_purge_overlooks.2 (Pubkey.fill 1) ⟨none, List.mem_cons_self, rfl⟩

theorem one_is_overlooked : ∃ skipped : List Bytes, skipped.length ≤ afterDelete.table.gone.length ∧
    ∀ x ∈ twoMints, x ∈ afterDelete.table.gone ∨ x.length ≠ 32 ∨ x ∈ skipped ∨ ∃ key : Pubkey, key.bytes = x ∧
      (key ∈ afterDelete.unanswered ∨ key ∈ afterDelete.failed ∨
        ∃ acc, (key, acc) ∈ afterDelete.answers ∧ dead acc = false) :=
  @purge_overlooks oneRowPages twoMints firstAsset deleteBeforePage afterDelete (by decide) a_purge_overlooks.1
    (by decide) a_purge_overlooks.2

end Example

end DasIndexer.Ops.Purge
