import DasIndexer.Lib.Base58
import DasIndexer.Schema.Tables
import Mathlib.Data.List.Infix

/-!
# The crawl of a tree's signatures

`crawl` asks for the signatures between two bounds, newest first and at most a thousand at a time, and sends
those of the transactions that succeeded.  It is the last signature sent that the next page begins after, while
a page with less than a thousand signatures, failed transactions included, is the last one.  The failed ones
at the end of a page are therefore asked for again, which does no harm, unless they are the whole page: then it is
asked for for ever.

**`crawl_iff`**: a crawl ends with everything sent exactly when no thousand transactions in a row have failed.
-/

namespace DasIndexer.Ops

open Sql

/-! ### Signatures -/

/-- The signature of a transaction. -/
structure Signature where
  bytes : Bytes
  length_bytes : bytes.length = 64
deriving DecidableEq

inductive TreeErrorKind where
  | tryFromPubkey | tryFromSignature
deriving DecidableEq

namespace Signature

/-- The signature whose 64 bytes are all `b`. -/
def fill (b : UInt8) : Signature := ⟨List.replicate 64 b, List.length_replicate⟩

/-- `Signature::try_from`. -/
def tryFrom (bytes : Bytes) : Except TreeErrorKind Signature :=
  if h : bytes.length = 64 then .ok ⟨bytes, h⟩ else .error .tryFromSignature

/-- `Signature::from_str`. -/
def fromStr (s : String) : Except TreeErrorKind Signature :=
  match Base58.decode s with
  | some bytes => tryFrom bytes
  | none => .error .tryFromSignature

theorem tryFrom_bytes (s : Signature) : tryFrom s.bytes = .ok s := by
  rw [tryFrom, dif_pos s.length_bytes]

theorem fromStr_encode (s : Signature) : fromStr (Base58.encode s.bytes) = .ok s := by
  rw [fromStr, Base58.decode_encode]
  exact s.tryFrom_bytes

end Signature

/-! ### Crawling -/

/-- A range of transactions to crawl. -/
structure TreeGapFill where
  tree : Pubkey
  before : Option Signature
  until' : Option Signature
deriving DecidableEq

/-- `RpcConfirmedTransactionStatusWithSignature`, without the fields that nothing reads. -/
structure TransactionStatus where
  signature : String
  err : Option String

/-- `get_signatures_for_address`, given the two ends `before` and `until`. -/
abbrev Rpc := Option Signature → Option Signature → List TransactionStatus

def getSignaturesForAddressLimit : ℕ := 1000

/-- How a crawl ends; `running` is one that has not ended within its fuel. -/
inductive Ended where
  | completed | failed | running
deriving DecidableEq

structure Crawl where
  sent : List Signature
  ended : Ended

/-- The inner loop: what is sent, and the new `before` unless a signature does not parse. -/
def sendAll (before : Option Signature) : List TransactionStatus → List Signature × Option (Option Signature)
  | [] => ([], some before)
  | s :: ss =>
    match Signature.fromStr s.signature with
    | .error _ => ([], none)
    | .ok sig => (sig :: (sendAll (some sig) ss).1, (sendAll (some sig) ss).2)

/-- The loop of `crawl`. -/
def crawlFrom (rpc : Rpc) (until' : Option Signature) : ℕ → Option Signature → Crawl
  | 0, _ => ⟨[], .running⟩
  | fuel + 1, before =>
    let sigs := rpc before until'
    let successful := sigs.filter fun s => s.err.isNone
    match sendAll before successful with
    | (sent, none) => ⟨sent, .failed⟩
    | (sent, some before') =>
      if sigs.length < getSignaturesForAddressLimit then ⟨sent, .completed⟩
      else
        let rest := crawlFrom rpc until' fuel before'
        ⟨sent ++ rest.sent, rest.ended⟩

/-- A crawl that has ended is not changed by more fuel. -/
theorem crawlFrom_mono {rpc : Rpc} {until' : Option Signature} {fuel fuel' : ℕ} {before : Option Signature}
    (hle : fuel ≤ fuel') (hended : (crawlFrom rpc until' fuel before).ended ≠ .running) :
    crawlFrom rpc until' fuel' before = crawlFrom rpc until' fuel before := by
  induction fuel generalizing fuel' before with
  | zero => exact absurd rfl hended
  | succ fuel ih =>
    obtain ⟨fuel', rfl⟩ := Nat.exists_eq_succ_of_ne_zero (Nat.ne_zero_of_lt hle)
    rw [crawlFrom] at hended ⊢
    rw [crawlFrom]
    rcases hsend : sendAll before ((rpc before until').filter fun s => s.err.isNone) with ⟨sent, _ | before'⟩
    · rfl
    · simp only [hsend] at hended ⊢
      split at hended
      · rename_i hlast
        rw [if_pos hlast, if_pos hlast]
      · rename_i hnext
        rw [if_neg hnext, if_neg hnext, ih (Nat.le_of_succ_le_succ hle) hended]

/-- `TreeGapFill::crawl`. -/
def TreeGapFill.crawl (g : TreeGapFill) (rpc : Rpc) (fuel : ℕ) : Crawl := crawlFrom rpc g.until' fuel g.before

/-! ### One page -/

section Pages

variable {α : Type} {signature : α → Signature} {err : α → Option String}

/-- What the RPC says of a transaction. -/
def statusOf (signature : α → Signature) (err : α → Option String) (t : α) : TransactionStatus :=
  ⟨Base58.encode (signature t).bytes, err t⟩

/-- The transactions that succeeded. -/
def successful (err : α → Option String) (l : List α) : List α := l.filter fun t => (err t).isNone

theorem mem_successful {l : List α} {t : α} : t ∈ successful err l ↔ t ∈ l ∧ err t = none := by
  rw [successful, List.mem_filter, Option.isNone_iff_eq_none]

theorem successful_append (l l' : List α) : successful err (l ++ l') = successful err l ++ successful err l' :=
  List.filter_append l l'

theorem successful_eq_nil {l : List α} (h : ∀ t ∈ l, err t ≠ none) : successful err l = [] :=
  List.eq_nil_iff_forall_not_mem.mpr fun t ht => h t (mem_successful.mp ht).1 (mem_successful.mp ht).2

theorem successful_singleton {t : α} (h : err t = none) : successful err [t] = [t] :=
  List.filter_cons_of_pos (by rw [h]; rfl)

/-- An RPC that answers with the newest transactions of a window, where what is left of a window after one of its
transactions is the window below it. -/
structure Pages (signature : α → Signature) (err : α → Option String) (rpc : Rpc) (until' : Option Signature)
    (page : ℕ) (window : Option Signature → List α) : Prop where
  rpc_eq : ∀ before, rpc before until' = ((window before).take page).map (statusOf signature err)
  below : ∀ before newer t older, window before = newer ++ t :: older → window (some (signature t)) = older

theorem sendAll_statuses (before : Option Signature) (l : List α) :
    sendAll before (l.map (statusOf signature err))
      = (l.map signature, some ((l.getLast?.map signature).or before)) := by
  induction l generalizing before with
  | nil => rfl
  | cons t l ih =>
    have hparse : Signature.fromStr (statusOf signature err t).signature = .ok (signature t) :=
      (signature t).fromStr_encode
    simp only [List.map_cons, sendAll, hparse, ih]
    cases l with
    | nil => rfl
    | cons u l =>
      rw [List.getLast?_cons_cons, List.getLast?_eq_some_getLast (List.cons_ne_nil u l)]
      rfl

variable {rpc : Rpc} {until' : Option Signature} {page : ℕ} {window : Option Signature → List α}
  (h : Pages signature err rpc until' page window)
include h

/-- One iteration of the loop. -/
theorem Pages.crawlFrom_succ (fuel : ℕ) (before : Option Signature) :
    crawlFrom rpc until' (fuel + 1) before =
      let sent := (successful err ((window before).take page)).map signature
      if ((window before).take page).length < getSignaturesForAddressLimit then ⟨sent, .completed⟩
      else
        let rest := crawlFrom rpc until' fuel
          (((successful err ((window before).take page)).getLast?.map signature).or before)
        ⟨sent ++ rest.sent, rest.ended⟩ := by
  have hsuccessful : (rpc before until').filter (fun s => s.err.isNone)
      = (successful err ((window before).take page)).map (statusOf signature err) := by
    rw [h.rpc_eq, List.filter_map]
    rfl
  rw [crawlFrom]
  simp only [hsuccessful, sendAll_statuses]
  rw [h.rpc_eq, List.length_map]

/-- A page with less than the limit is the last one. -/
theorem Pages.last (hpage : getSignaturesForAddressLimit ≤ page) {before : Option Signature}
    (hshort : (window before).length < getSignaturesForAddressLimit) (fuel : ℕ) :
    crawlFrom rpc until' (fuel + 1) before = ⟨(successful err (window before)).map signature, .completed⟩ := by
  rw [h.crawlFrom_succ, List.take_of_length_le (le_trans (le_of_lt hshort) hpage)]
  exact if_pos hshort

/-- After a page of failed transactions the same page is asked for. -/
theorem Pages.again (hpage : getSignaturesForAddressLimit ≤ page) {before : Option Signature}
    (hlong : getSignaturesForAddressLimit ≤ (window before).length)
    (hfailed : ∀ t ∈ (window before).take page, err t ≠ none) (fuel : ℕ) :
    crawlFrom rpc until' (fuel + 1) before = crawlFrom rpc until' fuel before := by
  have hnone : successful err ((window before).take page) = [] := successful_eq_nil hfailed
  have hfull : ¬ ((window before).take page).length < getSignaturesForAddressLimit := by
    rw [List.length_take]
    omega
  rw [h.crawlFrom_succ]
  simp only [hnone, if_neg hfull]
  rfl

/-- After any other page, what is left is the window below the last transaction of it that succeeded. -/
theorem Pages.next (hpage : getSignaturesForAddressLimit ≤ page) {before : Option Signature}
    (hlong : getSignaturesForAddressLimit ≤ (window before).length) {newer failed : List α} {t : α}
    (htake : (window before).take page = newer ++ t :: failed) (ht : err t = none)
    (hfailed : ∀ u ∈ failed, err u ≠ none) (fuel : ℕ) :
    crawlFrom rpc until' (fuel + 1) before =
      ⟨(successful err newer ++ [t]).map signature ++ (crawlFrom rpc until' fuel (some (signature t))).sent,
        (crawlFrom rpc until' fuel (some (signature t))).ended⟩ := by
  have hsent : successful err (newer ++ t :: failed) = successful err newer ++ [t] := by
    rw [List.append_cons, successful_append, successful_append, successful_singleton ht, successful_eq_nil hfailed,
      List.append_nil]
  have hfull : ¬ (newer ++ t :: failed).length < getSignaturesForAddressLimit := by
    rw [← htake, List.length_take]
    omega
  rw [h.crawlFrom_succ]
  simp only [htake, hsent, if_neg hfull, List.getLast?_append_cons]
  rfl

/-! ### All pages -/

/-- So many transactions in a row have failed that they can be a whole page. -/
def Stalls (err : α → Option String) (l : List α) : Prop :=
  ∃ run, run <:+: l ∧ run.length = getSignaturesForAddressLimit ∧ ∀ t ∈ run, err t ≠ none

omit h in
theorem Stalls.of_infix {l l' : List α} (hstalls : Stalls err l) (hbelow : l <:+: l') : Stalls err l' := by
  obtain ⟨run, hrun, hlength, hfailed⟩ := hstalls
  exact ⟨run, hrun.trans hbelow, hlength, hfailed⟩

omit h in
/-- The last transaction of a list that succeeded. -/
theorem exists_last_success {l : List α} (hsome : ∃ t ∈ l, err t = none) :
    ∃ newer t failed, l = newer ++ t :: failed ∧ err t = none ∧ ∀ u ∈ failed, err u ≠ none := by
  induction l with
  | nil =>
    obtain ⟨t, ht, -⟩ := hsome
    exact absurd ht List.not_mem_nil
  | cons u l ih =>
    by_cases hl : ∃ t ∈ l, err t = none
    · obtain ⟨newer, t, failed, rfl, ht, hfailed⟩ := ih hl
      exact ⟨u :: newer, t, failed, rfl, ht, hfailed⟩
    · obtain ⟨t, ht, hnone⟩ := hsome
      have hl' : ∀ u ∈ l, err u ≠ none := fun u hu hnone => hl ⟨u, hu, hnone⟩
      rcases List.mem_cons.mp ht with rfl | ht
      · exact ⟨[], t, l, rfl, hnone, hl'⟩
      · exact absurd hnone (hl' t ht)

/-- A page that is not all failed: after its last transaction that succeeded, a smaller window is left. -/
theorem Pages.exists_next {before : Option Signature} (hsome : ∃ t ∈ (window before).take page, err t = none) :
    ∃ newer t failed, (window before).take page = newer ++ t :: failed ∧ err t = none ∧
      (∀ u ∈ failed, err u ≠ none) ∧ window before = newer ++ t :: window (some (signature t)) := by
  obtain ⟨newer, t, failed, htake, ht, hfailed⟩ := exists_last_success hsome
  have hwindow : window before = newer ++ t :: (failed ++ (window before).drop page) := by
    conv_lhs => rw [← List.take_append_drop page (window before), htake]
    rw [List.append_assoc, List.cons_append]
  refine ⟨newer, t, failed, htake, ht, hfailed, ?_⟩
  rw [h.below _ _ _ _ hwindow]
  exact hwindow

omit h in
theorem length_below {newer older l : List α} {t : α} (hwindow : l = newer ++ t :: older) {fuel : ℕ}
    (hfuel : l.length < fuel + 1) : older.length < fuel := by
  rw [hwindow, List.length_append, List.length_cons] at hfuel
  omega

/-- **Where no page can be all failed, a crawl ends with everything sent**, newest first.  Each iteration leaves a
smaller window. -/
theorem Pages.completes (hpage : getSignaturesForAddressLimit ≤ page) (fuel : ℕ) {before : Option Signature}
    (hfuel : (window before).length < fuel) (hruns : ¬ Stalls err (window before)) :
    crawlFrom rpc until' fuel before = ⟨(successful err (window before)).map signature, .completed⟩ := by
  induction fuel generalizing before with
  | zero => exact absurd hfuel (Nat.not_lt_zero _)
  | succ fuel ih =>
    rcases Nat.lt_or_ge (window before).length getSignaturesForAddressLimit with hshort | hlong
    · exact h.last hpage hshort fuel
    · have hsome : ∃ t ∈ (window before).take page, err t = none := by
        by_contra hnone
        refine hruns ⟨(window before).take getSignaturesForAddressLimit, List.take_prefix _ _ |>.isInfix, ?_, ?_⟩
        · rw [List.length_take]
          omega
        · intro t ht hok
          exact hnone ⟨t, (List.take_sublist_take_left hpage).subset ht, hok⟩
      obtain ⟨newer, t, failed, htake, ht, hfailed, hwindow⟩ := h.exists_next hsome
      have hbelow : window (some (signature t)) <:+: window before := by
        conv_rhs => rw [hwindow]
        exact ⟨newer ++ [t], [], by simp⟩
      have hsent : successful err (window before)
          = successful err newer ++ [t] ++ successful err (window (some (signature t))) := by
        conv_lhs => rw [hwindow]
        rw [List.append_cons, successful_append, successful_append, successful_singleton ht]
      rw [h.next hpage hlong htake ht hfailed,
        ih (length_below hwindow hfuel) fun hstalls => hruns (hstalls.of_infix hbelow), hsent]
      simp only [List.map_append]

/-- **More pages change nothing** once there have been more than the window has transactions: the crawl has ended, or
asks for a failed page. -/
theorem Pages.settles (hpage : getSignaturesForAddressLimit ≤ page) {fuel fuel' : ℕ} {before : Option Signature}
    (hfuel : (window before).length < fuel) (hfuel' : (window before).length < fuel') :
    crawlFrom rpc until' fuel before = crawlFrom rpc until' fuel' before := by
  induction fuel generalizing fuel' before with
  | zero => exact absurd hfuel (Nat.not_lt_zero _)
  | succ fuel ih =>
    obtain ⟨fuel', rfl⟩ := Nat.exists_eq_succ_of_ne_zero (Nat.ne_zero_of_lt hfuel')
    rcases Nat.lt_or_ge (window before).length getSignaturesForAddressLimit with hshort | hlong
    · rw [h.last hpage hshort fuel, h.last hpage hshort fuel']
    by_cases hsome : ∃ t ∈ (window before).take page, err t = none
    · obtain ⟨newer, t, failed, htake, ht, hfailed, hwindow⟩ := h.exists_next hsome
      rw [h.next hpage hlong htake ht hfailed, h.next hpage hlong htake ht hfailed,
        ih (length_below hwindow hfuel) (length_below hwindow hfuel')]
    · have hfailed : ∀ t ∈ (window before).take page, err t ≠ none := fun t ht hok => hsome ⟨t, ht, hok⟩
      have hruns : ∀ n, crawlFrom rpc until' n before = ⟨[], .running⟩ := by
        intro n
        induction n with
        | zero => rfl
        | succ n ihn => rw [h.again hpage hlong hfailed, ihn]
      rw [hruns, hruns]

omit h in
/-- A run of failed transactions that is longer than what stands before one that succeeded stands after it. -/
theorem infix_of_append_cons {newer older run : List α} {t : α} (hrun : run <:+: newer ++ t :: older)
    (hlength : newer.length < run.length) (ht : t ∉ run) : run <:+: older := by
  obtain ⟨pre, post, heq⟩ := hrun
  rw [List.append_assoc] at heq
  rcases List.append_eq_append_iff.mp heq with ⟨middle, hnewer, hrest⟩ | ⟨middle, hpre, hrest⟩
  · -- the run begins before the transaction, so it reaches it
    exfalso
    rcases List.append_eq_append_iff.mp hrest with ⟨rest, hmiddle, -⟩ | ⟨rest, hrun, hrest⟩
    · rw [hnewer, hmiddle, List.length_append, List.length_append] at hlength
      omega
    · cases rest with
      | nil =>
        rw [hnewer, hrun, List.append_nil, List.length_append] at hlength
        omega
      | cons u rest =>
        obtain ⟨rfl, -⟩ := List.cons.inj hrest
        exact ht (hrun ▸ List.mem_append_right _ List.mem_cons_self)
  · cases middle with
    | nil =>
      cases run with
      | nil => exact absurd hlength (Nat.not_lt_zero _)
      | cons u run =>
        obtain ⟨rfl, -⟩ := List.cons.inj hrest
        exact absurd List.mem_cons_self ht
    | cons u middle =>
      obtain ⟨-, rfl⟩ := List.cons.inj hrest
      exact ⟨middle, post, List.append_assoc _ _ _⟩

/-- **Where a page can be all failed, the crawl comes to it and never ends.** -/
theorem Pages.never_ends (hpage : page = getSignaturesForAddressLimit) (fuel : ℕ) {before : Option Signature}
    (hstalls : Stalls err (window before)) : (crawlFrom rpc until' fuel before).ended = .running := by
  induction fuel generalizing before with
  | zero => rfl
  | succ fuel ih =>
    obtain ⟨run, hrun, hlength, hfailed⟩ := hstalls
    have hlong : getSignaturesForAddressLimit ≤ (window before).length := hlength ▸ hrun.length_le
    by_cases hsome : ∃ t ∈ (window before).take page, err t = none
    · obtain ⟨newer, t, older, htake, ht, hold, hwindow⟩ := h.exists_next hsome
      have hnewer : newer.length < run.length := by
        have htaken := congrArg List.length htake
        rw [List.length_take, List.length_append, List.length_cons] at htaken
        omega
      rw [h.next hpage.ge hlong htake ht hold]
      refine ih ⟨run, ?_, hlength, hfailed⟩
      rw [hwindow] at hrun
      exact infix_of_append_cons hrun hnewer fun hmem => hfailed t hmem ht
    · rw [h.again hpage.ge hlong fun t ht hok => hsome ⟨t, ht, hok⟩]
      exact ih ⟨run, hrun, hlength, hfailed⟩

end Pages

/-! ### The signatures of a tree -/

/-- A transaction that changed a tree or tried to. -/
structure Confirmed where
  signature : Signature
  err : Option String

/-- The transactions of a tree, newest first, and the places of all signatures in the order of the chain. -/
structure Ledger where
  place : Signature → ℕ
  txs : List Confirmed
  newest_first : txs.Pairwise fun t u => place u.signature < place t.signature

namespace Ledger

variable (L : Ledger) (until' before : Option Signature)

/-- Strictly older than `before` and strictly newer than `until`, where these are given. -/
def Between (t : Confirmed) : Prop :=
  (∀ b ∈ before, L.place t.signature < L.place b) ∧ ∀ u ∈ until', L.place u < L.place t.signature

instance : DecidablePred (L.Between until' before) := fun _ => inferInstanceAs (Decidable (_ ∧ _))

def between : List Confirmed := L.txs.filter fun t => decide (L.Between until' before t)

/-- `get_signatures_for_address` for the tree. -/
def rpc : Rpc := fun before until' =>
  ((L.between until' before).take getSignaturesForAddressLimit).map (statusOf Confirmed.signature Confirmed.err)

/-- The crawl ends, and the transactions between its bounds that succeeded are sent once and no other is. -/
def Crawled (g : TreeGapFill) : Prop :=
  ∃ enough, ∀ fuel ≥ enough, (g.crawl L.rpc fuel).ended = .completed ∧ (g.crawl L.rpc fuel).sent.Nodup ∧
    ∀ s, s ∈ (g.crawl L.rpc fuel).sent ↔ ∃ t ∈ L.txs, L.Between g.until' g.before t ∧ t.err = none ∧ t.signature = s

variable {L until' before}

theorem mem_between {t : Confirmed} : t ∈ L.between until' before ↔ t ∈ L.txs ∧ L.Between until' before t := by
  rw [between, List.mem_filter, decide_eq_true_eq]

/-- Without bounds there is the whole history. -/
theorem between_none : L.between none none = L.txs := by
  refine List.filter_eq_self.mpr fun t _ => decide_eq_true ⟨fun b hb => ?_, fun u hu => ?_⟩
  · exact absurd hb (Option.not_mem_none b)
  · exact absurd hu (Option.not_mem_none u)

variable (L until' before) in
theorem pairwise_between :
    (L.between until' before).Pairwise fun t u => L.place u.signature < L.place t.signature :=
  L.newest_first.sublist List.filter_sublist

/-- What is left between the bounds below one of the transactions between them. -/
theorem between_below {newer older : List Confirmed} {t : Confirmed}
    (h : L.between until' before = newer ++ t :: older) : L.between until' (some t.signature) = older := by
  have ht : L.Between until' before t := (mem_between.mp (h ▸ List.mem_append_right _ List.mem_cons_self)).2
  have hagain : L.between until' (some t.signature)
      = (L.between until' before).filter fun u => decide (L.place u.signature < L.place t.signature) := by
    rw [between, between, List.filter_filter]
    refine List.filter_congr fun u _ => ?_
    rw [← Bool.decide_and, decide_eq_decide]
    constructor
    · intro ⟨hbelow, hlower⟩
      have hlt := hbelow _ rfl
      exact ⟨hlt, fun b hb => hlt.trans (ht.1 b hb), hlower⟩
    · rintro ⟨hlt, -, hlower⟩
      exact ⟨fun b hb => Option.some.inj hb ▸ hlt, hlower⟩
  have hpairs := L.pairwise_between until' before
  rw [h] at hpairs
  obtain ⟨-, hrest, hnewer⟩ := List.pairwise_append.mp hpairs
  rw [hagain, h, List.filter_append, List.filter_eq_nil_iff.mpr, List.filter_cons_of_neg, List.filter_eq_self.mpr,
    List.nil_append]
  · intro u hu
    exact decide_eq_true ((List.pairwise_cons.mp hrest).1 u hu)
  · exact fun hlt => lt_irrefl _ (of_decide_eq_true hlt)
  · intro u hu hlt
    exact lt_asymm (hnewer u hu t List.mem_cons_self) (of_decide_eq_true hlt)

theorem pages :
    Pages Confirmed.signature Confirmed.err L.rpc until' getSignaturesForAddressLimit (L.between until') :=
  ⟨fun _ => rfl, fun _ _ _ _ h => between_below h⟩

variable (L) in
/-- After as many pages as there are transactions, a crawl has ended or sends nothing more. -/
theorem crawl_settles (g : TreeGapFill) {fuel : ℕ} (hfuel : L.txs.length < fuel) :
    g.crawl L.rpc fuel = g.crawl L.rpc (L.txs.length + 1) := by
  have hle : (L.between g.until' g.before).length ≤ L.txs.length := List.length_filter_le _ _
  exact pages.settles le_rfl (Nat.lt_of_le_of_lt hle hfuel) (Nat.lt_succ_of_le hle)

end Ledger

open Ledger

/-- **When a crawl ends with everything sent**: no thousand transactions in a row between its bounds have
failed. -/
theorem crawl_iff (L : Ledger) (g : TreeGapFill) :
    L.Crawled g ↔ ¬ Stalls Confirmed.err (L.between g.until' g.before) := by
  constructor
  · intro ⟨enough, hcrawled⟩ hstalls
    have hended := (hcrawled enough le_rfl).1
    rw [TreeGapFill.crawl, pages.never_ends rfl enough hstalls] at hended
    cases hended
  · intro hruns
    refine ⟨(L.between g.until' g.before).length + 1, fun fuel hfuel => ?_⟩
    rw [TreeGapFill.crawl, pages.completes le_rfl fuel hfuel hruns]
    refine ⟨rfl, ?_, fun s => ?_⟩
    · refine List.pairwise_map.mpr (((L.pairwise_between _ _).sublist List.filter_sublist).imp fun {t u} hlt heq => ?_)
      rw [heq] at hlt
      exact lt_irrefl _ hlt
    · rw [List.mem_map]
      constructor
      · intro ⟨t, ht, hs⟩
        obtain ⟨hin, hok⟩ := mem_successful.mp ht
        obtain ⟨htx, hbetween⟩ := mem_between.mp hin
        exact ⟨t, htx, hbetween, hok, hs⟩
      · intro ⟨t, htx, hbetween, hok, hs⟩
        exact ⟨t, mem_successful.mpr ⟨mem_between.mpr ⟨htx, hbetween⟩, hok⟩, hs⟩

/-- The signature of a number. -/
def numbered (n : ℕ) : Signature :=
  ⟨UInt8.ofNat (n / 256) :: UInt8.ofNat n :: List.replicate 62 0, by
    rw [List.length_cons, List.length_cons, List.length_replicate]⟩

/-- Failed transactions, as many as given. -/
def failures (n : ℕ) : List Confirmed := (List.range n).reverse.map fun i => ⟨numbered i, some "InstructionError"⟩

theorem stalls_failures : Stalls Confirmed.err (failures getSignaturesForAddressLimit) := by
  refine ⟨_, List.infix_rfl, ?_, fun t ht => ?_⟩
  · rw [failures, List.length_map, List.length_reverse, List.length_range]
  · obtain ⟨n, -, rfl⟩ := List.mem_map.mp ht
    exact Option.some_ne_none _

/-- A tree of which a thousand transactions have failed. -/
def allFailed : Ledger where
  place s := 256 * (s.bytes.headD 0).toNat + (s.bytes.tail.headD 0).toNat
  txs := failures getSignaturesForAddressLimit
  newest_first := by
    refine List.pairwise_map.mpr (List.pairwise_reverse.mpr ?_)
    refine List.pairwise_lt_range.imp_of_mem fun {m n} _ hn hlt => ?_
    have hn : n < 1000 := List.mem_range.mp hn
    simp only [numbered, List.headD_cons, List.tail_cons, UInt8.toNat_ofNat']
    omega

/-- The page of them is asked for for ever. -/
theorem failed_page_never_ends : ¬ ∀ L g, Crawled L g := by
  intro hall
  obtain ⟨enough, hcrawled⟩ := hall allFailed ⟨.fill 7, none, none⟩
  have hended := (hcrawled enough le_rfl).1
  have hstalls : Stalls Confirmed.err (allFailed.between none none) := by
    have htxs : allFailed.txs = failures getSignaturesForAddressLimit := by rw [allFailed]
    rw [between_none, htxs]
    exact stalls_failures
  rw [TreeGapFill.crawl, pages.never_ends rfl enough hstalls] at hended
  cases hended

end DasIndexer.Ops
