import TaskFleet.Lib.RowWalks
import TaskFleet.Logic.Serial

/-!
# Priority order under concurrency

A dequeue walks the rows of its snapshot in the order of the queue. A row that comes
before one it claims was in front of it earlier in the walk, so it was claimed, or it
failed the re-check, or it was locked at that moment. The lock may be gone when the later
row is claimed: the walk does not turn back, and it does not see what was committed after
it began.
-/

namespace TaskFleet.Model

open Py Sql

/-- `y` precedes `x` in `(priority, created_at)`. -/
def Task.Precedes (y x : Task) : Prop :=
  y.priority < x.priority ∨ (y.priority = x.priority ∧ y.createdAt < x.createdAt)

instance (y x : Task) : Decidable (y.Precedes x) := inferInstanceAs (Decidable (_ ∨ _))

theorem Task.Precedes.not_queueOrder {y x : Task} (h : y.Precedes x) : ¬ queueOrder x y := by
  rintro (hlt | ⟨heq, hle⟩) <;> rcases h with h | ⟨he, h⟩
  · exact lt_asymm hlt h
  · exact hlt.ne he.symm
  · exact h.ne heq.symm
  · exact absurd h (not_lt.mpr hle)

section

variable {τ : Type} [DecidableEq τ] {cfg : Config} {schemas : Schemas}
  {es : List (Locks.Event τ Uuid Call Writes)} {st st' : Locks.State τ Db Uuid Call Writes}

/-! ## The place of a row never changes -/

theorem RowStep.place {db : Db} {e : Event} {t t' : Task} (h : RowStep cfg db e t t') :
    t'.priority = t.priority ∧ t'.createdAt = t.createdAt := by
  cases h with
  | start | fail => constructor <;> rfl
  | reclaim => unfold Task.reclaim; split <;> exact ⟨rfl, rfl⟩
  | _ => exact ⟨rfl, rfl⟩

/-- Every row lives on, and where it stood. -/
theorem rows_keep_place (hreach : (Locks.system τ (replicas cfg schemas)).Reachable st)
    (h : (Locks.system τ (replicas cfg schemas)).Trace st es st') {t : Task}
    (ht : t ∈ st.committed.tasks) :
    ∃ t' ∈ st'.committed.tasks, t'.id = t.id ∧ t'.priority = t.priority ∧
      t'.createdAt = t.createdAt := by
  obtain ⟨past, hpast⟩ := hreach
  induction h with
  | nil => exact ⟨t, ht, rfl, rfl, rfl⟩
  | @snoc es u v e htrace hstep ih =>
      obtain ⟨t', ht', hid, hpriority, hcreated⟩ := ih
      have hserial := (Locks.Reachable.inv replicas_lawful
        (hpast.extend htrace).reachable).serial hstep
      cases hlabel : e.label with
      | none =>
          rw [hlabel] at hserial
          generalize v.committed = db' at hserial ⊢
          cases hserial
          exact ⟨t', ht', hid, hpriority, hcreated⟩
      | some c =>
          rw [hlabel] at hserial
          obtain ⟨skip, hqs⟩ := serial_step hserial
          obtain ⟨t'', ht'', hrow, hid'⟩ := (step_rows hqs).forward t' ht'
          exact ⟨t'', ht'', hid'.trans hid, hrow.place.1.trans hpriority,
            hrow.place.2.trans hcreated⟩

/-! ## The walk of a dequeue -/

/-- Why a dequeue that began in `u` leaves a row out that it would claim by now. -/
def Excused (cfg : Config) (schemas : Schemas) (c : τ) (call : Call)
    (u start : Locks.State τ Db Uuid Call Writes) (after : List (Locks.Event τ Uuid Call Writes))
    (st : Locks.State τ Db Uuid Call Writes) (id : Uuid) : Prop :=
  -- another transaction held it when its turn came
  Locks.PassedOver (replicas cfg schemas) c start after st id ∨
  -- it was not there to be claimed when the statement began
  ∀ t ∈ u.committed.tasks, t.id = id → call.matches cfg t = false

/-- What a dequeue leaves behind it was claimed or is excused. -/
theorem walk_excused {c : τ} {x : Locks.Txn Uuid Call Writes}
    {u : Locks.State τ Db Uuid Call Writes} {scanned passed : List Uuid}
    {after : List (Locks.Event τ Uuid Call Writes)}
    (h : Locks.Walk (replicas cfg schemas) c x u scanned passed after st) {y : Task}
    (hy : y ∈ st.committed.tasks) (hmatch : x.stmt.matches cfg y = true)
    (hbehind : y.id ∈ scanned → y.id ∈ passed) :
    y.id ∈ x.chosen ∨ Excused cfg schemas c x.stmt u
      (u.put c (some ⟨x.stmt, scanned, [], [], none⟩)) after st y.id := by
  by_cases hin : ∀ t ∈ u.committed.tasks, t.id = y.id → x.stmt.matches cfg t = false
  · exact .inr (.inr hin)
  · push Not at hin
    obtain ⟨t, ht, hid, hmatches⟩ := hin
    obtain ⟨rows, hperm, -, rfl⟩ := h.snapshot
    have hscanned : y.id ∈ rows.map Task.id := by
      rw [← hid]
      refine List.mem_map_of_mem (hperm.mem_iff.mpr (List.mem_filter.mpr ⟨ht, ?_⟩))
      simpa using hmatches
    rcases h.account y.id (hbehind hscanned) with hchosen | ⟨-, hfails⟩ | hpassed
    · exact .inl hchosen
    · have hget : st.committed.tasks.get? y.id = some y := Table.get?_of_mem hy
      have hpasses : (replicas cfg schemas).passes x.stmt st.committed y.id = true := by
        show (st.committed.tasks.get? y.id).any _ = true
        rw [hget]
        exact hmatch
      rw [hpasses] at hfails
      cases hfails
    · exact .inr (.inl hpassed)

/-- What comes before a chosen row is behind the walk. -/
theorem walk_behind {c : τ} {x : Locks.Txn Uuid Call Writes}
    {before after : List (Locks.Event τ Uuid Call Writes)}
    {u : Locks.State τ Db Uuid Call Writes} {scanned passed : List Uuid}
    (hrun : (Locks.system τ (replicas cfg schemas)).Run before u)
    (h : Locks.Walk (replicas cfg schemas) c x u scanned passed after st)
    (hordered : ∀ rows, x.stmt.Ordered rows → rows.Pairwise queueOrder) {t y : Task}
    (ht : t ∈ st.committed.tasks) (hy : y ∈ st.committed.tasks) (hchosen : t.id ∈ x.chosen)
    (hprecedes : y.Precedes t) (hscanned : y.id ∈ scanned) : y.id ∈ passed := by
  have hstart : (Locks.system τ (replicas cfg schemas)).Reachable
      (u.put c (some ⟨x.stmt, scanned, [], [], none⟩)) :=
    ⟨_, hrun.snoc (.begin h.idle h.snapshot)⟩
  -- the rows of the snapshot stand where those of today do
  have hplace : ∀ {a b : Task}, a ∈ u.committed.tasks → b ∈ st.committed.tasks → a.id = b.id →
      b.priority = a.priority ∧ b.createdAt = a.createdAt := by
    intro a b ha hb hid
    obtain ⟨a', ha', hid', hpriority, hcreated⟩ := rows_keep_place hstart h.trace ha
    rw [← Table.eq_of_key ha' hb (hid'.trans hid)]
    exact ⟨hpriority, hcreated⟩
  obtain ⟨rows, hperm, hsorted, hrows⟩ := h.snapshot
  have hsorted : rows.Pairwise queueOrder := hordered rows hsorted
  have hmem : ∀ a ∈ rows, a ∈ u.committed.tasks := fun a ha =>
    (List.mem_filter.mp (hperm.mem_iff.mp ha)).1
  rw [h.split] at hscanned
  rcases List.mem_append.mp hscanned with hdone | htodo
  · exact hdone
  · -- a row still in front of the walk comes after every row behind it
    obtain ⟨front, back, rfl, hfront, hback⟩ :=
      List.append_eq_map_iff.mp (h.split.symm.trans hrows)
    obtain ⟨a, ha, hat⟩ := List.mem_map.mp (hfront ▸ h.chosen t.id hchosen)
    obtain ⟨b, hb, hby⟩ := List.mem_map.mp (hback ▸ htodo)
    have hle : queueOrder a b := (List.pairwise_append.mp hsorted).2.2 a ha b hb
    obtain ⟨hpa, hca⟩ := hplace (hmem a (List.mem_append_left _ ha)) ht hat
    obtain ⟨hpb, hcb⟩ := hplace (hmem b (List.mem_append_right _ hb)) hy hby
    refine absurd ?_ hprecedes.not_queueOrder
    unfold queueOrder at hle ⊢
    rw [hpa, hca, hpb, hcb]
    exact hle

/-- What a dequeue hands back are the rows it chose. -/
theorem dequeue_reply {db : Db} {x : Locks.Txn Uuid Call Writes}
    (h : Locks.TxnInv (replicas cfg schemas) db x) {now : Seconds} {w : Uuid}
    {limit maxBatch : Int} {taskTypes : Option (List String)}
    (hstmt : x.stmt = .dequeue now w limit maxBatch taskTypes) {writes : Writes}
    (hwrites : x.writes = some writes) :
    ∃ rows, writes.reply = .claimed rows ∧ (rows.map ClaimedTask.id).Perm x.chosen := by
  obtain rfl := h.staged writes hwrites
  rw [hstmt]
  refine ⟨_, rfl, ?_⟩
  have hmap : (((lockedRows db queueOrder x.chosen).map
      (Task.claim cfg db.policies now w)).map Task.claimed).map ClaimedTask.id =
      (lockedRows db queueOrder x.chosen).map Task.id := by
    rw [List.map_map, List.map_map]
    rfl
  rw [hmap, List.perm_ext_iff_of_nodup ?_ h.once]
  · intro id
    rw [List.mem_map]
    constructor
    · rintro ⟨t, ht, rfl⟩
      exact (mem_lockedRows.mp ht).2
    · intro hid
      obtain ⟨t, ht, rfl⟩ := h.present id (List.mem_append_left _ (h.held id hid))
      exact ⟨t, mem_lockedRows.mpr ⟨ht, hid⟩, rfl⟩
  · have hperm : (lockedRows db queueOrder x.chosen).Perm _ :=
      List.perm_insertionSort queueOrder _
    exact (hperm.map Task.id).nodup_iff.mpr
      (db.tasks.nodup.sublist (List.filter_sublist.map Task.id))

/-- **Priority order under concurrency.** For any interleaving on any replicas, of any
dequeue in progress, from the lock of its first row to its end:

* the rows it has claimed are of the types it asked for;
* a row it could claim now that precedes one it has claimed, it has claimed as well, or it
  walked past it while another transaction held it, or it began when the row was not there
  to be claimed;
* it returns the rows it has claimed, and when those are fewer than `limit`, this is so of
  every row it could claim now. -/
theorem priority_order (h : (Locks.system τ (replicas cfg schemas)).Run es st) {c : τ}
    {x : Locks.Txn Uuid Call Writes} (hx : st.active c = some x) {now : Seconds} {w : Uuid}
    {limit maxBatch : Int} {taskTypes : Option (List String)}
    (hstmt : x.stmt = .dequeue now w limit maxBatch taskTypes) :
    (∀ t ∈ st.committed.tasks, t.id ∈ x.chosen →
      ∀ names, taskTypes = some names → t.taskType.name ∈ names) ∧
    ∃ before after u scanned, es = before ++ .begin c x.stmt :: after ∧
      (Locks.system τ (replicas cfg schemas)).Run before u ∧
      (∀ stmt, Locks.Event.begin c stmt ∉ after) ∧
      (Locks.system τ (replicas cfg schemas)).step u (.begin c x.stmt)
        (u.put c (some ⟨x.stmt, scanned, [], [], none⟩)) ∧
      (Locks.system τ (replicas cfg schemas)).Trace
        (u.put c (some ⟨x.stmt, scanned, [], [], none⟩)) after st ∧
      (∀ t ∈ st.committed.tasks, t.id ∈ x.chosen → ∀ y ∈ st.committed.tasks,
        (claimable cfg now w taskTypes y).holds = true → y.Precedes t → y.id ∈ x.chosen ∨
          Excused cfg schemas c x.stmt u (u.put c (some ⟨x.stmt, scanned, [], [], none⟩)) after st
            y.id) ∧
      ∀ writes, x.writes = some writes → ∃ rows, writes.reply = .claimed rows ∧
        (rows.map ClaimedTask.id).Perm x.chosen ∧
        ((rows.length : Int) < limit → ∀ y ∈ st.committed.tasks,
          (claimable cfg now w taskTypes y).holds = true → y.id ∈ x.chosen ∨
            Excused cfg schemas c x.stmt u (u.put c (some ⟨x.stmt, scanned, [], [], none⟩)) after
              st y.id) := by
  have hinv := (Locks.Reachable.inv replicas_lawful h.reachable).txn c x hx
  refine ⟨fun t ht hchosen names htypes => ?_, ?_⟩
  · have hpasses : (st.committed.tasks.get? t.id).any (x.stmt.matches cfg) = true :=
      hinv.passing t.id hchosen
    rw [Table.get?_of_mem ht, Option.any_some, hstmt] at hpasses
    have htype : (taskTypes.all fun names => names.contains t.taskType.name) = true := by
      simp only [Call.matches, claimable, Tri.holds_and, test_holds, Bool.and_eq_true] at hpasses
      exact hpasses.2.1
    rw [htypes] at htype
    simpa using htype
  · obtain ⟨before, after, u, scanned, passed, hes, hrun, hwalk⟩ :=
      Locks.Run.walk replicas_lawful h c x hx
    have hordered : ∀ rows, x.stmt.Ordered rows → rows.Pairwise queueOrder := by
      rw [hstmt]
      exact fun _ hrows => hrows
    have hmatch : ∀ y, (claimable cfg now w taskTypes y).holds = true →
        x.stmt.matches cfg y = true := by
      rw [hstmt]
      exact fun _ hy => hy
    refine ⟨before, after, u, scanned, hes, hrun, hwalk.current, .begin hwalk.idle hwalk.snapshot,
      hwalk.trace, fun t ht hchosen y hy hclaimable hprecedes => ?_, fun writes hwrites => ?_⟩
    · exact walk_excused hwalk hy (hmatch y hclaimable)
        (walk_behind hrun hwalk hordered ht hy hchosen hprecedes)
    · obtain ⟨rows, hreply, hperm⟩ := dequeue_reply hinv hstmt hwrites
      refine ⟨rows, hreply, hperm, fun hfew y hy hclaimable => ?_⟩
      refine walk_excused hwalk hy (hmatch y hclaimable) fun hscanned => ?_
      have hlength : x.chosen.length = rows.length := by
        rw [← hperm.length_eq, List.length_map]
      have hlimit : (replicas cfg schemas).limit x.stmt = limit.toNat := by
        rw [hstmt]
        rfl
      have hdone : x.todo = [] := by
        refine (hwalk.ended (by rw [hwrites]; simp)).resolve_right fun hfull => ?_
        rw [hlimit, hlength] at hfull
        omega
      rw [hwalk.split, hdone, List.append_nil] at hscanned
      exact hscanned

end

namespace Demo

theorem urgentTask_lt : 5 < 2 ^ 128 := by decide

def urgentTask : Uuid := ⟨5, urgentTask_lt⟩

def enqueueUrgent : Call := .enqueue 0 urgentTask request

def enqueueLater : Call := .enqueue 0 task { request with priority := 1 }

def firstDequeue : Call := .dequeue 1 otherWorker 1 100 none

def secondDequeue : Call := .dequeue 1 worker 1 100 none

def oneQueued : Db := install .empty (enqueueUrgent.exec {} schemas .empty [])

def twoQueued : Db := install oneQueued (enqueueLater.exec {} schemas oneQueued [])

/-- Up to the moment the second dequeue passes the urgent task, which the first one holds
and gives up then. -/
def rolledBack : List (Locks.Event Bool Uuid Call Writes) :=
  [.begin false enqueueUrgent, .stage false,
    .commit false enqueueUrgent [] (enqueueUrgent.exec {} schemas .empty []),
    .begin false enqueueLater, .stage false,
    .commit false enqueueLater [] (enqueueLater.exec {} schemas oneQueued []),
    .begin false firstDequeue, .lock false, .begin true secondDequeue, .skip true,
    .rollback false]

theorem twoQueued_scan {call : Call} (h : call = firstDequeue ∨ call = secondDequeue) :
    (replicas {} schemas).scan call twoQueued [urgentTask, task] := by
  refine ⟨twoQueued.tasks.rows.filter (call.matches {}), .refl _, ?_, ?_⟩
  · rcases h with rfl | rfl
    · show List.Pairwise queueOrder _
      decide +kernel
    · show List.Pairwise queueOrder _
      decide +kernel
  · rcases h with rfl | rfl <;> decide +kernel

/-- The state they lead to: the second dequeue has the later task in front of it. -/
theorem rolledBack_run : ∃ st, (Locks.system Bool (replicas {} schemas)).Run rolledBack st ∧
    st.committed = twoQueued ∧ st.active false = none ∧
    st.active true = some ⟨secondDequeue, [task], [], [], none⟩ := by
  have halone : ∀ (s : Locks.State Bool Db Uuid Call Writes) (c : Bool) (k : Uuid),
      s.active (!c) = none → ¬ s.HeldByOther c k := by
    rintro s c k hs ⟨d, y, hne, hy, -⟩
    obtain rfl : d = !c := Bool.eq_not_of_ne hne
    rw [hs] at hy
    cases hy
  have hinit : (Locks.system Bool (replicas {} schemas)).Run [] ⟨.empty, fun _ => none⟩ :=
    .nil ⟨⟨rfl, rfl, rfl⟩, fun _ => rfl⟩
  have hbegin := hinit.snoc (.begin (c := false) rfl
    (show (replicas {} schemas).scan enqueueUrgent .empty [] from ⟨[], .refl _, trivial, rfl⟩))
  have hstage := hbegin.snoc (.stage (c := false) rfl rfl (.inl rfl))
  have hcommit := hstage.snoc (.commit (c := false)
    (x := ⟨enqueueUrgent, [], [], [], some (enqueueUrgent.exec {} schemas .empty [])⟩) rfl
    rfl ⟨_, rfl⟩ rfl)
  have hbegin' := hcommit.snoc (.begin (c := false) rfl
    (show (replicas {} schemas).scan enqueueLater oneQueued [] from
      ⟨oneQueued.tasks.rows.filter (enqueueLater.matches {}), .refl _, trivial,
        by decide +kernel⟩))
  have hstage' := hbegin'.snoc (.stage (c := false) rfl rfl (.inl rfl))
  have hcommit' := hstage'.snoc (.commit (c := false)
    (x := ⟨enqueueLater, [], [], [], some (enqueueLater.exec {} schemas oneQueued [])⟩) rfl
    rfl ⟨_, rfl⟩ (show oneQueued.tasks.get? task = none by decide +kernel))
  have hfirst := hcommit'.snoc (.begin (c := false) rfl (twoQueued_scan (.inl rfl)))
  have hlock := hfirst.snoc
    (.lock (c := false) (x := ⟨firstDequeue, [urgentTask, task], [], [], none⟩) rfl rfl rfl
      Nat.one_pos (halone _ _ _ rfl)
      (show (replicas {} schemas).passes firstDequeue twoQueued urgentTask = true by
        decide +kernel))
  have hsecond := hlock.snoc (.begin (c := true) rfl (twoQueued_scan (.inr rfl)))
  have hskip := hsecond.snoc
    (.skip (c := true) (x := ⟨secondDequeue, [urgentTask, task], [], [], none⟩) rfl rfl rfl
      Nat.one_pos rfl
      ⟨false, ⟨firstDequeue, [task], [urgentTask], [urgentTask], none⟩, Bool.false_ne_true, rfl,
        .head _⟩)
  have hback := hskip.snoc (.rollback (c := false) rfl)
  exact ⟨_, hback, rfl, rfl, rfl⟩

def oneLater : Db := install .empty (enqueueLater.exec {} schemas .empty [])

def laterUrgent : Db := install oneLater (enqueueUrgent.exec {} schemas oneLater [])

/-- The second dequeue begins, and then the urgent task is enqueued. -/
def enqueuedMeanwhile : List (Locks.Event Bool Uuid Call Writes) :=
  [.begin false enqueueLater, .stage false,
    .commit false enqueueLater [] (enqueueLater.exec {} schemas .empty []),
    .begin true secondDequeue, .begin false enqueueUrgent, .stage false,
    .commit false enqueueUrgent [] (enqueueUrgent.exec {} schemas oneLater [])]

theorem enqueuedMeanwhile_run :
    ∃ st, (Locks.system Bool (replicas {} schemas)).Run enqueuedMeanwhile st ∧
      st.committed = laterUrgent ∧ st.active false = none ∧
      st.active true = some ⟨secondDequeue, [task], [], [], none⟩ := by
  have hinit : (Locks.system Bool (replicas {} schemas)).Run [] ⟨.empty, fun _ => none⟩ :=
    .nil ⟨⟨rfl, rfl, rfl⟩, fun _ => rfl⟩
  have hbegin := hinit.snoc (.begin (c := false) rfl
    (show (replicas {} schemas).scan enqueueLater .empty [] from ⟨[], .refl _, trivial, rfl⟩))
  have hstage := hbegin.snoc (.stage (c := false) rfl rfl (.inl rfl))
  have hcommit := hstage.snoc (.commit (c := false)
    (x := ⟨enqueueLater, [], [], [], some (enqueueLater.exec {} schemas .empty [])⟩) rfl
    rfl ⟨_, rfl⟩ rfl)
  have hsecond := hcommit.snoc (.begin (c := true) rfl
    (show (replicas {} schemas).scan secondDequeue oneLater [task] from
      ⟨oneLater.tasks.rows.filter (secondDequeue.matches {}), .refl _,
        (show List.Pairwise queueOrder _ by decide +kernel), by decide +kernel⟩))
  have hbegin' := hsecond.snoc (.begin (c := false) rfl
    (show (replicas {} schemas).scan enqueueUrgent oneLater [] from
      ⟨oneLater.tasks.rows.filter (enqueueUrgent.matches {}), .refl _, trivial,
        by decide +kernel⟩))
  have hstage' := hbegin'.snoc (.stage (c := false) rfl rfl (.inl rfl))
  have hcommit' := hstage'.snoc (.commit (c := false)
    (x := ⟨enqueueUrgent, [], [], [], some (enqueueUrgent.exec {} schemas oneLater [])⟩) rfl
    rfl ⟨_, rfl⟩ (show oneLater.tasks.get? urgentTask = none by decide +kernel))
  exact ⟨_, hcommit', rfl, rfl, rfl⟩

/-- Behind the events the second dequeue locks a task, and commits the claim of it alone,
at a moment when a task that precedes it is queued, eligible and locked by nobody. -/
def LeavesUrgent (es : List (Locks.Event Bool Uuid Call Writes)) : Prop :=
  ∃ st st' st'' t y writes, (Locks.system Bool (replicas {} schemas)).Run es st ∧
    (Locks.system Bool (replicas {} schemas)).step st (.lock true) st' ∧
    t ∈ st.committed.tasks ∧ y ∈ st.committed.tasks ∧ y.Precedes t ∧
    (claimable {} 1 worker none y).holds = true ∧ ¬ st.HeldByOther true y.id ∧
    (Locks.system Bool (replicas {} schemas)).Trace st'
      [.stage true, .commit true secondDequeue [t.id] writes] st'' ∧ y.id ≠ t.id

def laterRow : Task := queuedRow 0 task .sleep (.obj []) none 1 "demo"

def urgentRow : Task := queuedRow 0 urgentTask .sleep (.obj []) none 0 "demo"

/-- The later task is in front of the second dequeue, and nobody else is there. -/
structure AtLater (st : Locks.State Bool Db Uuid Call Writes) : Prop where
  later : laterRow ∈ st.committed.tasks
  urgent : urgentRow ∈ st.committed.tasks
  others : st.active false = none
  walk : st.active true = some ⟨secondDequeue, [task], [], [], none⟩

/-- It has locked it. -/
def locked (st : Locks.State Bool Db Uuid Call Writes) : Locks.State Bool Db Uuid Call Writes :=
  st.put true (some ⟨secondDequeue, [], [task], [task], none⟩)

theorem AtLater.free {st : Locks.State Bool Db Uuid Call Writes} (h : AtLater st) (id : Uuid) :
    ¬ st.HeldByOther true id := by
  rintro ⟨d, y, hne, hd, -⟩
  obtain rfl : d = false := Bool.eq_false_of_not_eq_true hne
  rw [h.others] at hd
  cases hd

theorem AtLater.lock {st : Locks.State Bool Db Uuid Call Writes} (h : AtLater st) :
    (Locks.system Bool (replicas {} schemas)).step st (.lock true) (locked st) := by
  have hpasses : (replicas {} schemas).passes secondDequeue st.committed task = true := by
    show (st.committed.tasks.get? laterRow.id).any _ = true
    rw [Table.get?_of_mem h.later]
    decide +kernel
  exact .lock h.walk rfl rfl Nat.one_pos (h.free task) hpasses

theorem AtLater.leavesUrgent {es : List (Locks.Event Bool Uuid Call Writes)}
    {st : Locks.State Bool Db Uuid Call Writes}
    (hrun : (Locks.system Bool (replicas {} schemas)).Run es st) (h : AtLater st) :
    LeavesUrgent es := by
  have hstage := System.Trace.single (S := Locks.system Bool (replicas {} schemas))
    (Locks.Step.stage (c := true) (s := locked st) rfl rfl (.inl rfl))
  have hcommit := hstage.snoc (.commit (c := true) rfl rfl
    (⟨by simp, by decide, by decide, by simp⟩ : Call.Commits schemas secondDequeue [task]) trivial)
  exact ⟨_, _, _, laterRow, urgentRow, _, hrun, h.lock, h.later, h.urgent, .inl (by decide),
    by decide +kernel, h.free _, hcommit, by decide⟩

theorem atLater_rolledBack :
    ∃ st, (Locks.system Bool (replicas {} schemas)).Run rolledBack st ∧ AtLater st := by
  obtain ⟨st, hrun, hdb, hfalse, htrue⟩ := rolledBack_run
  refine ⟨st, hrun, ?_, ?_, hfalse, htrue⟩ <;> rw [hdb]
  · exact List.mem_cons_of_mem _ List.mem_cons_self
  · exact List.mem_cons_self

theorem atLater_enqueuedMeanwhile :
    ∃ st, (Locks.system Bool (replicas {} schemas)).Run enqueuedMeanwhile st ∧ AtLater st := by
  obtain ⟨st, hrun, hdb, hfalse, htrue⟩ := enqueuedMeanwhile_run
  refine ⟨st, hrun, ?_, ?_, hfalse, htrue⟩ <;> rw [hdb]
  · exact List.mem_cons_self
  · exact List.mem_cons_of_mem _ List.mem_cons_self

end Demo

/-- Of the second dequeue when it has locked the later task, behind the roll back. -/
theorem priority_order_rolledBack : ∃ st, Demo.AtLater st ∧
    ∃ before after u scanned,
      Demo.rolledBack ++ [.lock true] = before ++ .begin true Demo.secondDequeue :: after ∧
      (Locks.system Bool (replicas {} Demo.schemas)).Run before u ∧
      (Demo.urgentTask ∈ [Demo.task] ∨ Excused {} Demo.schemas true Demo.secondDequeue u
        (u.put true (some ⟨Demo.secondDequeue, scanned, [], [], none⟩)) after (Demo.locked st)
        Demo.urgentTask) := by
  obtain ⟨st, hrun, hst⟩ := Demo.atLater_rolledBack
  obtain ⟨-, before, after, u, scanned, hes, hbefore, -, -, -, hall, -⟩ :=
    priority_order (hrun.snoc hst.lock) (c := true)
      (x := ⟨Demo.secondDequeue, [], [Demo.task], [Demo.task], none⟩) rfl rfl
  exact ⟨st, hst, before, after, u, scanned, hes, hbefore,
    hall Demo.laterRow hst.later (.head _) Demo.urgentRow hst.urgent (by decide +kernel)
      (.inl (by decide))⟩

/-- A row that precedes the one that is claimed can be free at that moment: when its lock
was given up behind the walk, and when it came into the queue behind the snapshot. -/
theorem urgent_row_left :
    Demo.LeavesUrgent Demo.rolledBack ∧ Demo.LeavesUrgent Demo.enqueuedMeanwhile := by
  constructor
  · obtain ⟨st, hrun, hst⟩ := Demo.atLater_rolledBack
    exact hst.leavesUrgent hrun
  · obtain ⟨st, hrun, hst⟩ := Demo.atLater_enqueuedMeanwhile
    exact hst.leavesUrgent hrun

end TaskFleet.Model
