import DasIndexer.Dapi.Lookups
import DasIndexer.Lib.GuardedRuns

/-!
# Answers from an upstream provider

`getAsset` and `getAssetProof` answer from the index.  Where that fails they ask an upstream provider and keep its
result in `das_fallback_cache`, under the method and the id, from where it is served again as long as it is fresh.
Requests run side by side, each with the statements of its lookup, its read of the cache, its wait for upstream and
its write to the cache, while the index changes and time goes by.

**`served_right`**: an answer that is not the index's own is given only where the lookup ended with an error, and is
what upstream has returned for the same method and id: to this request, or to one whose row in the cache was stored
less than the time to live before it was read.  **`stored_answer_is_served`**: as long as that is so, upstream is not
asked again, unless the cache cannot be read.
-/

namespace DasIndexer.Dapi.Fallback

open Sql GuardedRuns Queries

/-! ### Local answers -/

inductive Question where
  | getAsset (id : String) (options : Dao.Options)
  | getAssetProof (id : String)
deriving DecidableEq

inductive Method where
  | getAsset | getAssetProof
deriving DecidableEq

def Question.id : Question → String
  | .getAsset id _ | .getAssetProof id => id

/-- The key of the cache, which is also what upstream is asked for: the options are not part of it. -/
def Question.key : Question → Method × String
  | .getAsset id _ => (.getAsset, id)
  | .getAssetProof id => (.getAssetProof, id)

inductive Answer (Asset : Type) where
  | asset (a : Asset)
  | proof (p : AssetProof)
deriving DecidableEq

/-- What the API relies on: the rendering of an asset, the deserialization of upstream's, the empty nodes of a tree,
and the time to live of the cache in seconds, if there is an upstream. -/
structure Environment (Asset : Type) where
  assetToRpc : Dao.FullAsset → Dao.Options → Except Dao.DbErr Asset
  assetFromValue : Json → Option Asset
  proofFromValue : Json → Option AssetProof
  emptyNode : ℕ → Pubkey
  ttl : Option ℕ

variable {Asset : Type} (env : Environment Asset)

def notFound (assetId : String) : Dao.DbErr := .recordNotFound s!"Asset Proof for {assetId} Not Found"

/-- What `get_asset` and `get_asset_proof` ask the index, with the key of the id. -/
def lookupOf (key : Bytes) : Question → Query Database Dao.DbErr (Answer Asset)
  | .getAsset _ options => do
    let full ← Dao.getByIdStatements key options
    Query.ofExcept ((env.assetToRpc full options).map .asset)
  | .getAssetProof id => do
    let proof ← getProofStatements env.emptyNode key
    if proof.proof.isEmpty then Query.throw (notFound id) else pure (.proof proof)

/-- An id that does not parse is refused. -/
def lookup (q : Question) : Except ApiError (Query Database Dao.DbErr (Answer Asset)) := do
  let key ← validatePubkey q.id
  return lookupOf env key.bytes q

/-- What a lookup finds in an index that does not change. -/
def find (db : Database) (key : Bytes) : Question → Except Dao.DbErr (Answer Asset)
  | .getAsset _ options => do
    let full ← Dao.getById db key options
    (env.assetToRpc full options).map .asset
  | .getAssetProof id => do
    let proof ← (getProofForAsset env.emptyNode db key).mapError toDbErr
    if proof.proof.isEmpty then .error (notFound id) else .ok (.proof proof)

theorem lookupOf_run (db : Database) (key : Bytes) (q : Question) : (lookupOf env key q).run db = find env db key q := by
  cases q with
  | getAsset id options =>
    rw [lookupOf, Query.run_bind, Dao.getByIdStatements_run]
    rfl
  | getAssetProof id =>
    rw [lookupOf, Query.run_bind, getProofStatements_run, find]
    cases (getProofForAsset env.emptyNode db key).mapError toDbErr with
    | error e => rfl
    | ok proof =>
      show Query.run db (if _ then _ else _) = if _ then _ else _
      split
      · rfl
      · rfl

/-- The result of a lookup whose statements have met these indexes and failures. -/
def Found (q : Question) (met : List (Except Dao.DbErr Database)) (res : Except Dao.DbErr (Answer Asset)) : Prop :=
  ∃ query, lookup env q = .ok query ∧ query.along met = some res

/-- Where the index has not changed and no statement has failed, it is what the index has. -/
theorem Found.eq_find {q : Question} {met : List (Except Dao.DbErr Database)} {res : Except Dao.DbErr (Answer Asset)}
    (h : Found env q met res) {db : Database} (hmet : ∀ x ∈ met, x = .ok db) :
    ∃ key, parsePubkey q.id = some key ∧ res = find env db key.bytes q := by
  obtain ⟨query, hquery, hres⟩ := h
  cases hkey : parsePubkey q.id with
  | none =>
    rw [lookup, validatePubkey, hkey] at hquery
    cases hquery
  | some key =>
    rw [lookup, validatePubkey, hkey] at hquery
    obtain rfl : lookupOf env key.bytes q = query := Except.ok.inj hquery
    exact ⟨key, rfl, (Query.along_eq_run hmet hres).trans (lookupOf_run env db key.bytes q)⟩

/-! ### Upstream and the cache -/

/-- `serde_json::from_value`, to the type that the method returns. -/
def fromValue (value : Json) : Method → Option (Answer Asset)
  | .getAsset => (env.assetFromValue value).map .asset
  | .getAssetProof => (env.proofFromValue value).map .proof

/-- What comes back of a request to upstream: a body, or nothing where sending fails, the status is not a success or
the body is unreadable. -/
inductive Response where
  | failed
  | body (value : Json)

/-- `Value::get`. -/
def field (key : String) : Json → Option Json
  | .obj fields => (fields.find? fun f => decide (f.1 = key)).map Prod.snd
  | _ => none

/-- The result of a response.  An `error` field counts whatever it holds. -/
def Response.result : Response → Option Json
  | .failed => none
  | .body value =>
    match field "error" value with
    | some _ => none
    | none =>
      match field "result" value with
      | none | some .null => none
      | some result => some result

/-- A row of `das_fallback_cache`; times are in microseconds. -/
structure CacheRow where
  response : Json
  fetchedAt : ℤ

/-- `fetched_at > now() - ($3::INT8 * INTERVAL '1 second')`. -/
def CacheRow.fresh (ttl : ℕ) (now : ℤ) (row : CacheRow) : Bool :=
  decide (now - Int.bmod ttl (2 ^ 64) * 1000000 < row.fetchedAt)

/-- The row that `cached` answers from. -/
def cached (ttl : ℕ) (now : ℤ) (method : Method) (row : Option CacheRow) : Option (CacheRow × Answer Asset) :=
  (row.filter (CacheRow.fresh ttl now)).bind fun row => (fromValue env row.response method).map fun a => (row, a)

/-! ### Requests side by side -/

/-- Where an answer comes from: the index, the cache at some time or upstream; from nowhere comes the error of the
lookup, and an id that is refused is not looked for. -/
inductive Source where
  | indexed
  | cache (row : CacheRow) (at' : ℤ)
  | upstream (result : Json)
  | nowhere
  | refused

/-- Where a request stands, with the indexes and failures that the statements of its lookup have met. -/
inductive Request (Asset : Type) where
  | looking (q : Question) (met : List (Except Dao.DbErr Database)) (rest : Query Database Dao.DbErr (Answer Asset))
  | missed (q : Question) (met : List (Except Dao.DbErr Database)) (e : Dao.DbErr)
  | asking (q : Question) (met : List (Except Dao.DbErr Database)) (e : Dao.DbErr)
  | responded (q : Question) (met : List (Except Dao.DbErr Database)) (e : Dao.DbErr) (result : Json)
  | storing (q : Question) (met : List (Except Dao.DbErr Database)) (e : Dao.DbErr) (result : Json) (since : ℤ)
  | served (q : Question) (met : List (Except Dao.DbErr Database)) (answer : Except ApiError (Answer Asset))
    (source : Source)

/-- A result that upstream has returned to a request. -/
structure Result where
  request : ℕ
  key : Method × String
  value : Json

/-- The node, with what the index has been, the results that upstream has returned and the rows that have been
stored. -/
structure State (Asset : Type) where
  now : ℤ
  db : Database
  dbs : List Database
  cache : Method × String → Option CacheRow := fun _ => none
  requests : List (Request Asset) := []
  results : List Result := []
  stored : List ((Method × String) × CacheRow) := []

inductive Event where
  | clock (now : ℤ)
  | index (db : Database)
  | receive (q : Question)
  /-- the next statement of a lookup -/
  | look (i : ℕ) (fails : Option Dao.DbErr)
  | finish (i : ℕ)
  | readCache (i : ℕ) (works : Bool)
  | respond (i : ℕ) (response : Response)
  | upsert (i : ℕ)
  | store (i : ℕ) (works : Bool)

namespace State

def start (now : ℤ) (db : Database) : State Asset := { now, db, dbs := [db] }

def set (s : State Asset) (i : ℕ) (r : Request Asset) : State Asset := { s with requests := s.requests.set i r }

/-- A row is written, with the time at which its statement began. -/
def write (s : State Asset) (key : Method × String) (row : CacheRow) : State Asset :=
  { s with cache := Function.update s.cache key (some row), stored := (key, row) :: s.stored }

theorem write_cache (s : State Asset) (key : Method × String) (row : CacheRow) :
    (s.write key row).cache = Function.update s.cache key (some row) := rfl

/-- What a statement meets. -/
def meets (s : State Asset) : Option Dao.DbErr → Except Dao.DbErr Database
  | none => .ok s.db
  | some e => .error e

/-- A step of the node. -/
def step (s : State Asset) : Event → Option (State Asset)
  | .clock now => if s.now ≤ now then some { s with now } else none
  | .index db => some { s with db, dbs := db :: s.dbs }
  | .receive q =>
    match lookup env q with
    | .error e => some { s with requests := s.requests ++ [.served q [] (.error e) .refused] }
    | .ok query => some { s with requests := s.requests ++ [.looking q [] query] }
  | .look i fails =>
    match s.requests[i]? with
    | some (.looking q met (.ask answer failed)) =>
      some (s.set i (.looking q (met ++ [s.meets fails]) (Query.meet answer failed (s.meets fails))))
    | _ => none
  | .finish i =>
    match s.requests[i]? with
    | some (.looking q met (.done res)) =>
      match res with
      | .ok a => some (s.set i (.served q met (.ok a) .indexed))
      | .error e =>
        if env.ttl.isSome then some (s.set i (.missed q met e))
        else some (s.set i (.served q met (.error (.databaseError e)) .nowhere))
    | _ => none
  | .readCache i works =>
    match s.requests[i]?, env.ttl with
    | some (.missed q met e), some ttl =>
      match if works then cached env ttl s.now q.key.1 (s.cache q.key) else none with
      | some (row, a) => some (s.set i (.served q met (.ok a) (.cache row s.now)))
      | none => some (s.set i (.asking q met e))
    | _, _ => none
  | .respond i response =>
    match s.requests[i]? with
    | some (.asking q met e) =>
      match response.result with
      | none => some (s.set i (.served q met (.error (.databaseError e)) .nowhere))
      | some result =>
        some { s.set i (.responded q met e result) with results := ⟨i, q.key, result⟩ :: s.results }
    | _ => none
  | .upsert i =>
    match s.requests[i]? with
    | some (.responded q met e result) => some (s.set i (.storing q met e result s.now))
    | _ => none
  | .store i works =>
    match s.requests[i]? with
    | some (.storing q met e result since) =>
      let s := if works then s.write q.key ⟨result, since⟩ else s
      match fromValue env result q.key.1 with
      | some a => some (s.set i (.served q met (.ok a) (.upstream result)))
      | none => some (s.set i (.served q met (.error (.databaseError e)) .nowhere))
    | _ => none

end State

/-! ### What holds of every request -/

section Right

variable (s : State Asset) (i : ℕ)

/-- The lookup of a request, of which each statement was answered by the index as it was at some moment, ended with a
result. -/
def LookedUp (q : Question) (met : List (Except Dao.DbErr Database)) (res : Except Dao.DbErr (Answer Asset)) : Prop :=
  Found env q met res ∧ ∀ db, .ok db ∈ met → db ∈ s.dbs

/-- An answer to request `i` agrees with where it comes from. -/
def Source.Right (q : Question) (met : List (Except Dao.DbErr Database)) (answer : Except ApiError (Answer Asset)) :
    Source → Prop
  | .indexed => ∃ a, answer = .ok a ∧ LookedUp env s q met (.ok a)
  | .nowhere => ∃ e, answer = .error (.databaseError e) ∧ LookedUp env s q met (.error e)
  | .refused => ∃ e, answer = .error e ∧ lookup env q = .error e
  | .cache row at' =>
    (∃ e, LookedUp env s q met (.error e)) ∧ (∃ a, answer = .ok a ∧ fromValue env row.response q.key.1 = some a) ∧
      (∃ j, ⟨j, q.key, row.response⟩ ∈ s.results) ∧ (q.key, row) ∈ s.stored ∧ row.fetchedAt ≤ at' ∧
      ∃ ttl, env.ttl = some ttl ∧ row.fresh ttl at' = true
  | .upstream result =>
    (∃ e, LookedUp env s q met (.error e)) ∧ (∃ a, answer = .ok a ∧ fromValue env result q.key.1 = some a) ∧
      ⟨i, q.key, result⟩ ∈ s.results

/-- What is known of request `i`. -/
def Request.Right : Request Asset → Prop
  | .looking q met rest =>
    (∃ query, lookup env q = .ok query ∧ query.After met rest) ∧ ∀ db, .ok db ∈ met → db ∈ s.dbs
  | .missed q met e | .asking q met e => LookedUp env s q met (.error e)
  | .responded q met e result => LookedUp env s q met (.error e) ∧ ⟨i, q.key, result⟩ ∈ s.results
  | .storing q met e result since =>
    (LookedUp env s q met (.error e) ∧ ⟨i, q.key, result⟩ ∈ s.results) ∧ since ≤ s.now
  | .served q met answer source => source.Right env s i q met answer

variable {env s i} {s' : State Asset}

/-- A state that knows no less of the past. -/
structure Later (s s' : State Asset) : Prop where
  now : s.now ≤ s'.now
  dbs : s.dbs ⊆ s'.dbs
  results : s.results ⊆ s'.results
  stored : s.stored ⊆ s'.stored

theorem LookedUp.mono {q : Question} {met : List (Except Dao.DbErr Database)} {res : Except Dao.DbErr (Answer Asset)}
    (h : LookedUp env s q met res) (hlater : Later s s') : LookedUp env s' q met res :=
  ⟨h.1, fun db hdb => hlater.dbs (h.2 db hdb)⟩

theorem Source.Right.mono {q : Question} {met : List (Except Dao.DbErr Database)}
    {answer : Except ApiError (Answer Asset)} {source : Source} (h : source.Right env s i q met answer)
    (hlater : Later s s') : source.Right env s' i q met answer := by
  cases source with
  | indexed =>
    obtain ⟨a, hanswer, hlooked⟩ := h
    exact ⟨a, hanswer, hlooked.mono hlater⟩
  | nowhere =>
    obtain ⟨e, hanswer, hlooked⟩ := h
    exact ⟨e, hanswer, hlooked.mono hlater⟩
  | refused => exact h
  | cache row at' =>
    obtain ⟨⟨e, hlooked⟩, hanswer, ⟨j, hresult⟩, hrow, hfresh⟩ := h
    exact ⟨⟨e, hlooked.mono hlater⟩, hanswer, ⟨j, hlater.results hresult⟩, hlater.stored hrow, hfresh⟩
  | upstream result =>
    obtain ⟨⟨e, hlooked⟩, hanswer, hresult⟩ := h
    exact ⟨⟨e, hlooked.mono hlater⟩, hanswer, hlater.results hresult⟩

theorem Request.Right.mono {r : Request Asset} (h : r.Right env s i) (hlater : Later s s') : r.Right env s' i := by
  cases r with
  | looking => exact ⟨h.1, fun db hdb => hlater.dbs (h.2 db hdb)⟩
  | missed => exact LookedUp.mono h hlater
  | asking => exact LookedUp.mono h hlater
  | responded => exact ⟨h.1.mono hlater, hlater.results h.2⟩
  | storing => exact ⟨⟨h.1.1.mono hlater, hlater.results h.1.2⟩, h.2.trans hlater.now⟩
  | served => exact Source.Right.mono h hlater

end Right

/-- Requests are right, stored rows are results of the past, and a row of the cache is one of these. -/
structure State.Inv (s : State Asset) : Prop where
  requests : ∀ (i : ℕ) (r : Request Asset), s.requests[i]? = some r → r.Right env s i
  db : s.db ∈ s.dbs
  stored : ∀ x ∈ s.stored, (∃ j, ⟨j, x.1, x.2.response⟩ ∈ s.results) ∧ x.2.fetchedAt ≤ s.now
  cached : ∀ key row, s.cache key = some row → (key, row) ∈ s.stored
  last : ∀ x ∈ s.stored, ∃ row, s.cache x.1 = some row

variable {env} {s s' : State Asset}

theorem State.Inv.start (now : ℤ) (db : Database) : State.Inv env (State.start now db) where
  requests i r h := by cases h
  db := List.mem_singleton_self db
  stored x h := absurd h List.not_mem_nil
  cached key row h := by cases h
  last x h := absurd h List.not_mem_nil

/-- A request moves on. -/
theorem State.Inv.set (h : s.Inv env) (i : ℕ) {r : Request Asset} (hr : r.Right env s i) : (s.set i r).Inv env where
  requests j r' hr' := by
    rw [State.set, List.getElem?_set] at hr'
    split at hr'
    · rename_i hij
      obtain rfl := hij
      obtain ⟨-, hr'⟩ := Option.ite_none_right_eq_some.mp hr'
      exact Option.some.inj hr' ▸ hr
    · exact h.requests j r' hr'
  db := h.db
  stored := h.stored
  cached := h.cached
  last := h.last

/-- A request arrives. -/
theorem State.Inv.receive (h : s.Inv env) {r : Request Asset} (hr : ∀ i, r.Right env s i) :
    State.Inv env { s with requests := s.requests ++ [r] } where
  requests i r' hr' := by
    rcases List.mem_append.mp (List.mem_of_getElem? hr') with hmem | hmem
    · by_cases hi : i < s.requests.length
      · rw [List.getElem?_append_left hi] at hr'
        exact h.requests i r' hr'
      · rw [List.getElem?_append_right (Nat.le_of_not_lt hi)] at hr'
        exact List.mem_singleton.mp (List.mem_of_getElem? hr') ▸ hr i
    · exact List.mem_singleton.mp hmem ▸ hr i
  db := h.db
  stored := h.stored
  cached := h.cached
  last := h.last

/-- Upstream returns a result. -/
theorem State.Inv.result (h : s.Inv env) (result : Result) :
    State.Inv env { s with results := result :: s.results } where
  requests i r hr :=
    (h.requests i r hr).mono ⟨le_rfl, List.Subset.refl _, List.subset_cons_self _ _, List.Subset.refl _⟩
  db := h.db
  stored x hx := by
    obtain ⟨⟨j, hj⟩, hpast⟩ := h.stored x hx
    exact ⟨⟨j, List.mem_cons_of_mem _ hj⟩, hpast⟩
  cached := h.cached
  last := h.last

theorem State.Inv.write (h : s.Inv env) {key : Method × String} {row : CacheRow} {j : ℕ}
    (hresult : ⟨j, key, row.response⟩ ∈ s.results) (hpast : row.fetchedAt ≤ s.now) : (s.write key row).Inv env where
  requests i r hr :=
    (h.requests i r hr).mono ⟨le_rfl, List.Subset.refl _, List.Subset.refl _, List.subset_cons_self _ _⟩
  db := h.db
  stored x hx := by
    rcases List.mem_cons.mp hx with rfl | hx
    · exact ⟨⟨j, hresult⟩, hpast⟩
    · exact h.stored x hx
  cached key' row' hrow := by
    by_cases heq : key' = key
    · subst heq
      rw [State.write_cache, Function.update_self] at hrow
      obtain rfl := Option.some.inj hrow
      exact List.mem_cons_self
    · rw [State.write_cache, Function.update_of_ne heq] at hrow
      exact List.mem_cons_of_mem _ (h.cached key' row' hrow)
  last x hx := by
    by_cases heq : x.1 = key
    · exact ⟨row, by rw [State.write_cache, heq, Function.update_self]⟩
    · rcases List.mem_cons.mp hx with rfl | hx
      · exact absurd rfl heq
      · obtain ⟨row', hrow⟩ := h.last x hx
        exact ⟨row', by rw [State.write_cache, Function.update_of_ne heq, hrow]⟩

/-- What a read of the cache gives. -/
theorem of_cached {ttl : ℕ} {now : ℤ} {method : Method} {row? : Option CacheRow} {row : CacheRow} {a : Answer Asset}
    (h : cached env ttl now method row? = some (row, a)) :
    row? = some row ∧ row.fresh ttl now = true ∧ fromValue env row.response method = some a := by
  obtain ⟨row', hrow', hvalue⟩ := Option.bind_eq_some_iff.mp h
  obtain ⟨a', ha', heq⟩ := Option.map_eq_some_iff.mp hvalue
  obtain ⟨rfl, rfl⟩ := Prod.mk.inj heq
  obtain ⟨hsome, hfresh⟩ := Option.filter_eq_some_iff.mp hrow'
  exact ⟨hsome, hfresh, ha'⟩

/-- A statement of a lookup meets the index or a failure. -/
theorem Request.Right.look {i : ℕ} {q : Question} {met : List (Except Dao.DbErr Database)}
    {answer : Database → Query Database Dao.DbErr (Answer Asset)}
    {failed : Dao.DbErr → Query Database Dao.DbErr (Answer Asset)}
    (h : (Request.looking q met (.ask answer failed)).Right env s i) (hdb : s.db ∈ s.dbs) (fails : Option Dao.DbErr) :
    (Request.looking q (met ++ [s.meets fails]) (Query.meet answer failed (s.meets fails))).Right env s i := by
  obtain ⟨⟨query, hquery, hafter⟩, hdbs⟩ := h
  refine ⟨⟨query, hquery, hafter.meet _⟩, fun db hmem => ?_⟩
  rcases List.mem_append.mp hmem with hmem | hmem
  · exact hdbs db hmem
  · cases fails with
    | none =>
      obtain rfl := Except.ok.inj (List.mem_singleton.mp hmem)
      exact hdb
    | some e => cases List.mem_singleton.mp hmem

/-- A lookup has ended. -/
theorem Request.Right.lookedUp {i : ℕ} {q : Question} {met : List (Except Dao.DbErr Database)}
    {res : Except Dao.DbErr (Answer Asset)} (h : (Request.looking q met (.done res)).Right env s i) :
    LookedUp env s q met res := by
  obtain ⟨⟨query, hquery, hafter⟩, hdbs⟩ := h
  exact ⟨⟨query, hquery, hafter.along_eq⟩, hdbs⟩

theorem State.Inv.step (h : s.Inv env) {event : Event} (hstep : s.step env event = some s') : s'.Inv env := by
  cases event with
  | clock now =>
    obtain ⟨hle, hstep⟩ := Option.ite_none_right_eq_some.mp hstep
    obtain rfl := Option.some.inj hstep
    refine ⟨fun i r hr => ?_, h.db, fun x hx => ⟨(h.stored x hx).1, (h.stored x hx).2.trans hle⟩, h.cached, h.last⟩
    exact (h.requests i r hr).mono ⟨hle, List.Subset.refl _, List.Subset.refl _, List.Subset.refl _⟩
  | index db =>
    obtain rfl := Option.some.inj hstep
    refine ⟨fun i r hr => ?_, List.mem_cons_self, h.stored, h.cached, h.last⟩
    exact (h.requests i r hr).mono ⟨le_rfl, List.subset_cons_self _ _, List.Subset.refl _, List.Subset.refl _⟩
  | receive q =>
    rw [State.step] at hstep
    split at hstep
    · rename_i e he
      obtain rfl := Option.some.inj hstep
      exact h.receive fun _ => ⟨e, rfl, he⟩
    · rename_i query hquery
      obtain rfl := Option.some.inj hstep
      exact h.receive fun _ => ⟨⟨query, hquery, Query.After.start query⟩, fun db hdb => absurd hdb List.not_mem_nil⟩
  | look i fails =>
    rw [State.step] at hstep
    split at hstep
    · rename_i hi
      obtain rfl := Option.some.inj hstep
      exact h.set i ((h.requests i _ hi).look h.db fails)
    · cases hstep
  | finish i =>
    rw [State.step] at hstep
    split at hstep
    · rename_i q met res hi
      have hlooked := (h.requests i _ hi).lookedUp
      split at hstep
      · obtain rfl := Option.some.inj hstep
        exact h.set i ⟨_, rfl, hlooked⟩
      · split at hstep
        · obtain rfl := Option.some.inj hstep
          exact h.set i hlooked
        · obtain rfl := Option.some.inj hstep
          exact h.set i ⟨_, rfl, hlooked⟩
    · cases hstep
  | readCache i works =>
    rw [State.step] at hstep
    split at hstep
    · rename_i q met e ttl hi httl
      have hlooked : LookedUp env s q met (.error e) := h.requests i _ hi
      split at hstep
      · rename_i row a hread
        obtain rfl := Option.some.inj hstep
        split at hread
        · obtain ⟨hrow, hfresh, hvalue⟩ := of_cached hread
          have hmem := h.cached _ _ hrow
          obtain ⟨hresult, hpast⟩ := h.stored _ hmem
          exact h.set i ⟨⟨e, hlooked⟩, ⟨a, rfl, hvalue⟩, hresult, hmem, hpast, ttl, httl, hfresh⟩
        · cases hread
      · obtain rfl := Option.some.inj hstep
        exact h.set i hlooked
    · cases hstep
  | respond i response =>
    rw [State.step] at hstep
    split at hstep
    · rename_i q met e hi
      have hlooked : LookedUp env s q met (.error e) := h.requests i _ hi
      split at hstep
      · obtain rfl := Option.some.inj hstep
        exact h.set i ⟨e, rfl, hlooked⟩
      · rename_i result _
        obtain rfl := Option.some.inj hstep
        exact (h.result ⟨i, q.key, result⟩).set i ⟨hlooked, List.mem_cons_self⟩
    · cases hstep
  | upsert i =>
    rw [State.step] at hstep
    split at hstep
    · rename_i q met e result hi
      obtain rfl := Option.some.inj hstep
      exact h.set i ⟨h.requests i _ hi, le_rfl⟩
    · cases hstep
  | store i works =>
    rw [State.step] at hstep
    split at hstep
    · rename_i q met e result since hi
      obtain ⟨⟨hlooked, hresult⟩, hsince⟩ :
        (LookedUp env s q met (.error e) ∧ Result.mk i q.key result ∈ s.results) ∧ since ≤ s.now :=
          h.requests i _ hi
      have hwrite : (if works then s.write q.key ⟨result, since⟩ else s).Inv env := by
        split
        · exact h.write (j := i) hresult hsince
        · exact h
      have hlater : Later s (if works then s.write q.key ⟨result, since⟩ else s) := by
        split
        · exact ⟨le_rfl, List.Subset.refl _, List.Subset.refl _, List.subset_cons_self _ _⟩
        · exact ⟨le_rfl, List.Subset.refl _, List.Subset.refl _, List.Subset.refl _⟩
      simp only at hstep
      split at hstep
      · rename_i a ha
        obtain rfl := Option.some.inj hstep
        exact hwrite.set i ⟨⟨e, hlooked.mono hlater⟩, ⟨a, rfl, ha⟩, hlater.results hresult⟩
      · obtain rfl := Option.some.inj hstep
        exact hwrite.set i ⟨e, rfl, hlooked.mono hlater⟩
    · cases hstep

/-! ### The same question twice -/

def sampleEnvironment : Environment ℕ where
  assetToRpc _ _ := .ok 0
  assetFromValue
    | .num n => some n.toNat
    | _ => none
  proofFromValue _ := none
  emptyNode _ := .default
  ttl := some 3600

def sampleQuestion : Question := .getAsset (Pubkey.fill 7).toString {}

theorem parsePubkey_sample : parsePubkey (Pubkey.fill 7).toString = some (.fill 7) := by
  rw [parsePubkey, Pubkey.toString, Base58.decode_encode]
  rfl

theorem sample_lookup : lookup sampleEnvironment sampleQuestion
    = .ok (lookupOf sampleEnvironment (Pubkey.fill 7).bytes sampleQuestion) := by
  rw [lookup, sampleQuestion, Question.id, validatePubkey, parsePubkey_sample]
  rfl

theorem step_sample (s : State ℕ) : s.step sampleEnvironment (.receive sampleQuestion)
    = some { s with requests := s.requests ++ [.looking sampleQuestion []
        (lookupOf sampleEnvironment (Pubkey.fill 7).bytes sampleQuestion)] } := by
  rw [State.step, sample_lookup]

/-- The same question twice, the second time after the first has been answered by upstream: the index is empty, and
the second time its statement fails. -/
def askTwice : List Event :=
  [.receive sampleQuestion, .look 0 none, .finish 0, .readCache 0 true, .respond 0 (.body (.obj [("result", .num 5)])),
    .upsert 0, .store 0 true, .receive sampleQuestion, .look 1 (some (.custom "connection closed")), .finish 1]

/-- The node then: the first answer is in the cache, and the second request is about to read it. -/
def atSecond : State ℕ where
  now := 0
  db := {}
  dbs := [{}]
  cache := Function.update (fun _ => none) sampleQuestion.key (some ⟨.num 5, 0⟩)
  requests := [.served sampleQuestion [.ok {}] (.ok (.asset 5)) (.upstream (.num 5)),
    .missed sampleQuestion [.error (.custom "connection closed")] (.custom "connection closed")]
  results := [⟨0, sampleQuestion.key, .num 5⟩]
  stored := [(sampleQuestion.key, ⟨.num 5, 0⟩)]

theorem run_askTwice : run (State.step sampleEnvironment) (State.start 0 {}) askTwice = some atSecond := by
  refine Option.bind_eq_some_iff.mpr ⟨_, step_sample _, ?_⟩
  refine Option.bind_eq_some_iff.mpr ⟨_, rfl, ?_⟩
  refine Option.bind_eq_some_iff.mpr ⟨_, rfl, ?_⟩
  refine Option.bind_eq_some_iff.mpr ⟨_, rfl, ?_⟩
  refine Option.bind_eq_some_iff.mpr ⟨_, rfl, ?_⟩
  refine Option.bind_eq_some_iff.mpr ⟨_, rfl, ?_⟩
  refine Option.bind_eq_some_iff.mpr ⟨_, rfl, ?_⟩
  exact Option.bind_eq_some_iff.mpr ⟨_, step_sample _, rfl⟩

/-! ### Runs of a node -/

section Runs

variable {now : ℤ} {db : Database} {events : List Event}
  (hrun : run (State.step env) (State.start now db) events = some s)

include hrun

theorem inv_run : s.Inv env :=
  inv_of_any_run (fun _ _ _ hinv hstep => hinv.step hstep) (State.Inv.start now db) hrun

/-- **Answers are right**: what the statements of the lookup have found, each in the index as it was then.  Where that
is an error, they are a result of upstream for the same method and id, or the error; what comes from upstream was
returned to this request, and what comes from the cache was stored less than the time to live before. -/
theorem served_right {i : ℕ} {q : Question} {met : List (Except Dao.DbErr Database)}
    {answer : Except ApiError (Answer Asset)} {source : Source}
    (hserved : s.requests[i]? = some (.served q met answer source)) : source.Right env s i q met answer :=
  (inv_run hrun).requests i _ hserved

end Runs

/-- The first answer of the sample. -/
theorem first_is_right :
    Source.Right sampleEnvironment atSecond 0 sampleQuestion [.ok {}] (.ok (.asset 5)) (.upstream (.num 5)) :=
  served_right run_askTwice rfl

/-- **A stored answer is served again**: where all of upstream's results for a method and id can be read, a request
whose read of the cache works is answered from it as long as some result that was stored is fresh, unless a statement
that had begun before that of this result has been the last to write. -/
theorem stored_answer_is_served {now : ℤ} {db : Database} {events : List Event}
    (hrun : run (State.step env) (State.start now db) events = some s) {ttl : ℕ} (httl : env.ttl = some ttl) {i : ℕ}
    {q : Question} {met : List (Except Dao.DbErr Database)} {e : Dao.DbErr}
    (hmissed : s.requests[i]? = some (.missed q met e))
    (hreadable : ∀ j result, ⟨j, q.key, result⟩ ∈ s.results → ∃ a, fromValue env result q.key.1 = some a)
    {row : CacheRow} (hstored : (q.key, row) ∈ s.stored) (hfresh : row.fresh ttl s.now = true) :
    (∃ row' a, s.step env (.readCache i true) = some (s.set i (.served q met (.ok a) (.cache row' s.now)))) ∨
      ∃ row', s.cache q.key = some row' ∧ row'.fetchedAt < row.fetchedAt := by
  have hinv := inv_run hrun
  obtain ⟨row', hrow'⟩ := hinv.last _ hstored
  rcases lt_or_ge row'.fetchedAt row.fetchedAt with hearlier | hle
  · exact Or.inr ⟨row', hrow', hearlier⟩
  obtain ⟨j, hresult⟩ := (hinv.stored _ (hinv.cached _ _ hrow')).1
  obtain ⟨a, ha⟩ := hreadable j row'.response hresult
  have hfresh' : row'.fresh ttl s.now = true := decide_eq_true ((of_decide_eq_true hfresh).trans_le hle)
  have hread : cached env ttl s.now q.key.1 (s.cache q.key) = some (row', a) := by
    rw [cached, hrow', Option.filter_some, if_pos hfresh', Option.bind_some, ha, Option.map_some]
  refine Or.inl ⟨row', a, ?_⟩
  rw [State.step, hmissed, httl]
  simp only [if_true]
  rw [hread]

/-- The second answer of the sample comes from the cache. -/
theorem second_is_served : ∃ row a, atSecond.step sampleEnvironment (.readCache 1 true)
    = some (atSecond.set 1 (.served sampleQuestion [.error (.custom "connection closed")] (.ok a) (.cache row 0))) := by
  refine (stored_answer_is_served run_askTwice rfl rfl (fun j result hresult => ?_) List.mem_cons_self
    (by decide)).resolve_right ?_
  · obtain ⟨-, -, rfl⟩ := Result.mk.inj (List.mem_singleton.mp hresult)
    exact ⟨.asset 5, rfl⟩
  · rintro ⟨row', hrow', hearlier⟩
    have hcache : atSecond.cache sampleQuestion.key = some ⟨.num 5, 0⟩ := by simp [atSecond]
    obtain rfl := Option.some.inj (hcache.symm.trans hrow')
    exact lt_irrefl _ hearlier

end DasIndexer.Dapi.Fallback
