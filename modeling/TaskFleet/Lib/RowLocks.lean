import TaskFleet.Lib.Trace
import Mathlib.Logic.Function.Basic
import Mathlib.Data.List.Nodup

/-!
# Row locks under READ COMMITTED

Any number of transactions over one committed state. Each scans a snapshot,
takes row locks one at a time, re-checks its predicate on the version that is
committed when it gets the lock, computes its writes from the rows that
passed, and commits or rolls back. With `SKIP LOCKED` a row another
transaction holds is passed over; without it the transaction waits, that is,
it has no step until the row is free. A row that fails the re-check stays
locked to the end.

* **exclusion** — no two open transactions hold one lock;
* **stability** — what a transaction read under its locks is still so when it
  commits, whoever committed in between (`Inv.step`);
* **serial** — so the committed states are those of a store that runs the
  committed transactions one at a time, in commit order, on rows that match
  their predicate then and there (`Run.serial`).
-/

namespace TaskFleet.Locks

open Function

/-- What the transactions of a store do. `σ` is the committed state, `κ` the
row keys, `θ` the statements and `δ` what a statement writes. -/
structure Store (σ κ θ δ : Type) where
  init : σ → Prop
  /-- The row exists. -/
  present : σ → κ → Prop
  /-- The keys a snapshot scan may return, in its order. -/
  scan : θ → σ → List κ → Prop
  /-- The `WHERE` clause on the committed version of a row. -/
  passes : θ → σ → κ → Bool
  limit : θ → ℕ
  skipLocked : θ → Bool
  /-- What is written, given the locked rows that passed. -/
  exec : θ → σ → List κ → δ
  install : σ → δ → σ
  /-- Whether the caller commits after these rows passed. -/
  commits : θ → List κ → Prop
  /-- What generated values are guaranteed to be. -/
  admissible : θ → σ → Prop

/-- A transaction in progress. -/
structure Txn (κ θ δ : Type) where
  stmt : θ
  todo : List κ
  locked : List κ
  chosen : List κ
  writes : Option δ

/-- The committed state and the open transactions, by connection. -/
structure State (τ σ κ θ δ : Type) where
  committed : σ
  active : τ → Option (Txn κ θ δ)

inductive Event (τ κ θ δ : Type) where
  | begin (c : τ) (stmt : θ)
  | skip (c : τ)
  | drop (c : τ)
  | lock (c : τ)
  | stage (c : τ)
  | rollback (c : τ)
  | commit (c : τ) (stmt : θ) (chosen : List κ) (writes : δ)

section

variable {τ σ κ θ δ : Type} [DecidableEq τ]

/-- The state with the connection's transaction replaced. -/
def State.put (s : State τ σ κ θ δ) (c : τ) (x : Option (Txn κ θ δ)) : State τ σ κ θ δ :=
  { s with active := update s.active c x }

/-- The transaction of another connection is the old one. -/
theorem State.put_active (s : State τ σ κ θ δ) (c d : τ) (x : Option (Txn κ θ δ)) :
    (s.put c x).active d = if d = c then x else s.active d :=
  update_apply ..

/-- Another connection's transaction holds the row. -/
def State.HeldByOther (s : State τ σ κ θ δ) (c : τ) (k : κ) : Prop :=
  ∃ d y, d ≠ c ∧ s.active d = some y ∧ k ∈ y.locked

/-- The steps of the open transactions. -/
inductive Step (S : Store σ κ θ δ) : State τ σ κ θ δ → Event τ κ θ δ → State τ σ κ θ δ → Prop
  | begin {s : State τ σ κ θ δ} {c : τ} {stmt : θ} {todo : List κ} (hidle : s.active c = none)
      (hscan : S.scan stmt s.committed todo) :
      Step S s (.begin c stmt) (s.put c (some ⟨stmt, todo, [], [], none⟩))
  | skip {s : State τ σ κ θ δ} {c : τ} {x : Txn κ θ δ} {k : κ} {rest : List κ}
      (hx : s.active c = some x) (hopen : x.writes = none) (htodo : x.todo = k :: rest)
      (hroom : x.chosen.length < S.limit x.stmt) (hskip : S.skipLocked x.stmt = true)
      (hheld : s.HeldByOther c k) :
      Step S s (.skip c) (s.put c (some { x with todo := rest }))
  | drop {s : State τ σ κ θ δ} {c : τ} {x : Txn κ θ δ} {k : κ} {rest : List κ}
      (hx : s.active c = some x) (hopen : x.writes = none) (htodo : x.todo = k :: rest)
      (hroom : x.chosen.length < S.limit x.stmt) (hfree : ¬ s.HeldByOther c k)
      (hfails : S.passes x.stmt s.committed k = false) :
      Step S s (.drop c) (s.put c (some { x with todo := rest, locked := k :: x.locked }))
  | lock {s : State τ σ κ θ δ} {c : τ} {x : Txn κ θ δ} {k : κ} {rest : List κ}
      (hx : s.active c = some x) (hopen : x.writes = none) (htodo : x.todo = k :: rest)
      (hroom : x.chosen.length < S.limit x.stmt) (hfree : ¬ s.HeldByOther c k)
      (hpasses : S.passes x.stmt s.committed k = true) :
      Step S s (.lock c) (s.put c (some
        { x with todo := rest, locked := k :: x.locked, chosen := k :: x.chosen }))
  | stage {s : State τ σ κ θ δ} {c : τ} {x : Txn κ θ δ} (hx : s.active c = some x)
      (hopen : x.writes = none) (hend : x.todo = [] ∨ x.chosen.length = S.limit x.stmt) :
      Step S s (.stage c)
        (s.put c (some { x with writes := some (S.exec x.stmt s.committed x.chosen) }))
  | commit {s : State τ σ κ θ δ} {c : τ} {x : Txn κ θ δ} {w : δ} (hx : s.active c = some x)
      (hwrites : x.writes = some w) (hcommits : S.commits x.stmt x.chosen)
      (hadm : S.admissible x.stmt s.committed) :
      Step S s (.commit c x.stmt x.chosen w)
        ({ s with committed := S.install s.committed w }.put c none)
  | rollback {s : State τ σ κ θ δ} {c : τ} {x : Txn κ θ δ} (hx : s.active c = some x) :
      Step S s (.rollback c) (s.put c none)

/-- The store under concurrent transactions. -/
def system (τ : Type) [DecidableEq τ] (S : Store σ κ θ δ) :
    System (State τ σ κ θ δ) (Event τ κ θ δ) where
  init s := S.init s.committed ∧ ∀ c, s.active c = none
  step := Step S

/-! ## One at a time -/

/-- A committed transaction, as the serial store sees it. -/
structure Commit (κ θ δ : Type) where
  stmt : θ
  chosen : List κ
  writes : δ

/-- A transaction that runs alone, on rows that match its predicate. -/
inductive SerialStep (S : Store σ κ θ δ) : σ → Option (Commit κ θ δ) → σ → Prop
  | silent (s : σ) : SerialStep S s none s
  | commit {s : σ} {stmt : θ} {ks : List κ} (hcommits : S.commits stmt ks)
      (hadm : S.admissible stmt s) (hnodup : ks.Nodup) (hlimit : ks.length ≤ S.limit stmt)
      (hpasses : ∀ k ∈ ks, S.present s k ∧ S.passes stmt s k = true) :
      SerialStep S s (some ⟨stmt, ks, S.exec stmt s ks⟩) (S.install s (S.exec stmt s ks))

/-- The store that runs its transactions one at a time. -/
def serial (S : Store σ κ θ δ) : System σ (Option (Commit κ θ δ)) where
  init := S.init
  step := SerialStep S

/-- Only a commit shows. -/
def Event.label : Event τ κ θ δ → Option (Commit κ θ δ)
  | .commit _ stmt chosen writes => some ⟨stmt, chosen, writes⟩
  | _ => none

/-! ## Stability -/

/-- What a store has to guarantee of its statements: they depend on the rows
they lock only, and change no others. `agree ks` says that two states agree on
everything that belongs to the rows `ks`. -/
structure Lawful (S : Store σ κ θ δ) (agree : List κ → σ → σ → Prop) : Prop where
  scan_nodup : ∀ {stmt s ks}, S.scan stmt s ks → ks.Nodup
  scan_present : ∀ {stmt s ks}, S.scan stmt s ks → ∀ k ∈ ks, S.present s k
  passes_congr : ∀ {held s s'}, agree held s s' → ∀ {k}, k ∈ held → ∀ stmt,
    S.passes stmt s k = S.passes stmt s' k
  exec_congr : ∀ {held s s'}, agree held s s' → ∀ {ks}, (∀ k ∈ ks, k ∈ held) → ∀ stmt,
    S.exec stmt s ks = S.exec stmt s' ks
  install_agree : ∀ {held s stmt ks}, S.admissible stmt s → (∀ k ∈ ks, k ∉ held) →
    (∀ k ∈ held, S.present s k) → agree held s (S.install s (S.exec stmt s ks))
  install_present : ∀ {s k} w, S.present s k → S.present (S.install s w) k

/-- What is true of an open transaction, whoever else is at work. -/
structure TxnInv (S : Store σ κ θ δ) (s : σ) (x : Txn κ θ δ) : Prop where
  nodup : (x.locked ++ x.todo).Nodup
  held : ∀ k ∈ x.chosen, k ∈ x.locked
  once : x.chosen.Nodup
  bounded : x.chosen.length ≤ S.limit x.stmt
  present : ∀ k ∈ x.locked ++ x.todo, S.present s k
  /-- The rows it chose still match its predicate. -/
  passing : ∀ k ∈ x.chosen, S.passes x.stmt s k = true
  /-- It would compute the same writes again. -/
  staged : ∀ w, x.writes = some w → w = S.exec x.stmt s x.chosen

/-- The invariant of the concurrent store. -/
structure Inv (S : Store σ κ θ δ) (s : State τ σ κ θ δ) : Prop where
  exclusive : ∀ c d x y k, s.active c = some x → s.active d = some y →
    k ∈ x.locked → k ∈ y.locked → c = d
  txn : ∀ c x, s.active c = some x → TxnInv S s.committed x

variable {S : Store σ κ θ δ} {agree : List κ → σ → σ → Prop} {s s' : State τ σ κ θ δ}

/-- Another transaction's commit leaves a transaction as it was. -/
theorem TxnInv.install {s : σ} {x y : Txn κ θ δ} (hS : Lawful S agree) (h : TxnInv S s y)
    (hadm : S.admissible x.stmt s) (hdisjoint : ∀ k ∈ x.chosen, k ∉ y.locked) :
    TxnInv S (S.install s (S.exec x.stmt s x.chosen)) y := by
  have hagree := hS.install_agree hadm hdisjoint
    fun k hk => h.present k (List.mem_append_left _ hk)
  refine ⟨h.nodup, h.held, h.once, h.bounded,
    fun k hk => hS.install_present _ (h.present k hk), ?_, ?_⟩
  · intro k hk
    rw [← hS.passes_congr hagree (h.held k hk)]
    exact h.passing k hk
  · intro w hw
    rw [← hS.exec_congr hagree h.held]
    exact h.staged w hw

/-- Replacing one transaction by one that holds the invariant, and no lock of
the others, keeps the invariant. -/
theorem Inv.put (h : Inv S s) {c : τ} {x : Option (Txn κ θ δ)}
    (hx : ∀ y, x = some y → TxnInv S s.committed y)
    (hfree : ∀ y, x = some y → ∀ k ∈ y.locked, ¬ s.HeldByOther c k) : Inv S (s.put c x) := by
  constructor
  · intro d d' y y' k hd hd' hk hk'
    rw [State.put_active] at hd hd'
    split at hd
    · next hdc =>
        split at hd'
        · next hdc' => rw [hdc, hdc']
        · next hdc' => exact absurd ⟨d', y', hdc', hd', hk'⟩ (hfree y hd k hk)
    · next hdc =>
        split at hd'
        · exact absurd ⟨d, y, hdc, hd, hk⟩ (hfree y' hd' k hk')
        · exact h.exclusive d d' y y' k hd hd' hk hk'
  · intro d y hd
    rw [State.put_active] at hd
    split at hd
    · exact hx y hd
    · exact h.txn d y hd

omit [DecidableEq τ] in
/-- A lock a transaction holds is not another's. -/
theorem Inv.not_heldByOther (h : Inv S s) {c : τ} {x : Txn κ θ δ} (hx : s.active c = some x) {k : κ}
    (hk : k ∈ x.locked) : ¬ s.HeldByOther c k := by
  rintro ⟨d, y, hne, hy, hk'⟩
  exact hne (h.exclusive d c y x k hy hx hk' hk)

/-- **Stability.** Every step keeps the invariant. -/
theorem Inv.step (hS : Lawful S agree) (h : Inv S s) {e : Event τ κ θ δ} (hstep : Step S s e s') :
    Inv S s' := by
  cases hstep with
  | @begin c stmt todo hidle hscan =>
      refine h.put ?_ ?_
      · rintro _ ⟨⟩
        refine ⟨by simpa using hS.scan_nodup hscan, by simp, by simp, by simp, ?_, by simp, by simp⟩
        simpa using hS.scan_present hscan
      · rintro _ ⟨⟩ k hk
        cases hk
  | @skip c x k rest hx hopen htodo hroom hskip hheld =>
      have hinv := h.txn c x hx
      refine h.put ?_ ?_
      · rintro _ ⟨⟩
        refine ⟨?_, hinv.held, hinv.once, hinv.bounded, ?_, hinv.passing, hinv.staged⟩
        · have hnodup := hinv.nodup
          rw [htodo] at hnodup
          exact hnodup.sublist ((List.sublist_cons_self k rest).append_left _)
        · intro k' hk'
          refine hinv.present k' ?_
          rw [htodo]
          simp only [List.mem_append, List.mem_cons] at hk' ⊢
          tauto
      · rintro _ ⟨⟩ k' hk'
        exact h.not_heldByOther hx hk'
  | @drop c x k rest hx hopen htodo hroom hfree hfails =>
      have hinv := h.txn c x hx
      have hperm : (x.locked ++ k :: rest).Perm (k :: x.locked ++ rest) := List.perm_middle
      refine h.put ?_ ?_
      · rintro _ ⟨⟩
        refine ⟨?_, fun k' hk' => .tail _ (hinv.held k' hk'), hinv.once, hinv.bounded, ?_,
          hinv.passing, hinv.staged⟩
        · exact hperm.nodup_iff.mp (htodo ▸ hinv.nodup)
        · exact fun k' hk' => hinv.present k' (htodo ▸ hperm.mem_iff.mpr hk')
      · rintro _ ⟨⟩ k' hk'
        rcases List.mem_cons.mp hk' with rfl | hk'
        · exact hfree
        · exact h.not_heldByOther hx hk'
  | @lock c x k rest hx hopen htodo hroom hfree hpasses =>
      have hinv := h.txn c x hx
      have hperm : (x.locked ++ k :: rest).Perm (k :: x.locked ++ rest) := List.perm_middle
      -- the new lock is on a row that was not locked before
      have hnew : k ∉ x.locked := by
        have hnodup := hperm.nodup_iff.mp (htodo ▸ hinv.nodup)
        exact fun hk => (List.nodup_cons.mp hnodup).1 (List.mem_append_left _ hk)
      refine h.put ?_ ?_
      · rintro _ ⟨⟩
        refine ⟨?_, ?_, ?_, hroom, ?_, ?_, ?_⟩
        · exact hperm.nodup_iff.mp (htodo ▸ hinv.nodup)
        · intro k' hk'
          rcases List.mem_cons.mp hk' with rfl | hk'
          · exact .head _
          · exact .tail _ (hinv.held k' hk')
        · exact List.nodup_cons.mpr ⟨fun hk => hnew (hinv.held k hk), hinv.once⟩
        · exact fun k' hk' => hinv.present k' (htodo ▸ hperm.mem_iff.mpr hk')
        · intro k' hk'
          rcases List.mem_cons.mp hk' with rfl | hk'
          · exact hpasses
          · exact hinv.passing k' hk'
        · intro w hw
          rw [hopen] at hw
          cases hw
      · rintro _ ⟨⟩ k' hk'
        rcases List.mem_cons.mp hk' with rfl | hk'
        · exact hfree
        · exact h.not_heldByOther hx hk'
  | @stage c x hx hopen hend =>
      have hinv := h.txn c x hx
      refine h.put ?_ ?_
      · rintro _ ⟨⟩
        refine ⟨hinv.nodup, hinv.held, hinv.once, hinv.bounded, hinv.present, hinv.passing, ?_⟩
        rintro w ⟨⟩
        rfl
      · rintro _ ⟨⟩ k' hk'
        exact h.not_heldByOther hx hk'
  | @commit c x w hx hwrites hcommits hadm =>
      have hinv := h.txn c x hx
      have hw := hinv.staged w hwrites
      subst hw
      constructor
      · intro d d' y y' k hd hd' hk hk'
        rw [State.put_active] at hd hd'
        split at hd
        · cases hd
        split at hd'
        · cases hd'
        exact h.exclusive d d' y y' k hd hd' hk hk'
      · intro d y hd
        rw [State.put_active] at hd
        split at hd
        · cases hd
        next hdc =>
          refine (h.txn d y hd).install hS hadm fun k hk hky => hdc ?_
          exact h.exclusive d c y x k hd hx hky (hinv.held k hk)
  | @rollback c x hx =>
      refine h.put ?_ ?_
      · rintro _ ⟨⟩
      · rintro _ ⟨⟩

/-- **A step is a serial step.** What commits is what the transaction would do
if it ran now, alone, on the rows it locked. -/
theorem Inv.serial (h : Inv S s) {e : Event τ κ θ δ} (hstep : Step S s e s') :
    SerialStep S s.committed e.label s'.committed := by
  cases hstep with
  | @commit c x w hx hwrites hcommits hadm =>
      have hinv := h.txn c x hx
      have hw := hinv.staged w hwrites
      subst hw
      exact .commit hcommits hadm hinv.once hinv.bounded fun k hk =>
        ⟨hinv.present k (List.mem_append_left _ (hinv.held k hk)), hinv.passing k hk⟩
  | _ => exact .silent _

theorem Reachable.inv (hS : Lawful S agree) (h : (system τ S).Reachable s) : Inv S s := by
  refine h.invariant (P := Inv S) ?_ fun _ _ _ _ ih hstep => ih.step hS hstep
  rintro s ⟨-, hidle⟩
  constructor
  · intro c _ x _ _ hc
    rw [hidle c] at hc
    cases hc
  · intro c x hc
    rw [hidle c] at hc
    cases hc

/-- **Serializability, in commit order.** The committed states of any
interleaving are those of the serial store running the committed
transactions in the order in which they committed. -/
theorem Run.serial (hS : Lawful S agree) {es : List (Event τ κ θ δ)} (h : (system τ S).Run es s) :
    (serial S).Run (es.map Event.label) s.committed := by
  refine h.simulate State.committed Event.label ?_ ?_
  · rintro s ⟨hinit, -⟩
    exact hinit
  · intro s e s' hreach hstep
    exact (Reachable.inv hS hreach).serial hstep

end

end TaskFleet.Locks
