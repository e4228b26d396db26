import TaskFleet.Model.Runtime

/-!
# The slots of a worker

A slot is taken in one stretch with the entry in `running`, and given back in one stretch
with it. Between the two stands the reading of `attempt`: what it raises is raised behind
the `acquire` and in front of the entry.

* **shape** — a job counts by its id and by whether it has finished; a step admits one,
  finishes one, loses a slot, or leaves both as they are (`next_cases`);
* **registry** — `running` holds exactly the jobs that have not finished (`Registered`);
* **runs** — the slots add up in every state exactly when no step loses one
  (`slot_accounting_iff`).
-/

namespace TaskFleet.Model.Runtime

open Py

variable {it : Interpreter} {wc : WorkerConfig} {r t : Runner} {e : Event} {es : List Event}

/-- What a job counts for. -/
def Job.key (job : Job) : PyStr × Bool := (job.task.taskId, job.pc = .finished)

def Runner.shape (r : Runner) : List (PyStr × Bool) := r.jobs.map Job.key

theorem shape_get {i : ℕ} {id : PyStr} {done : Bool} : r.shape[i]? = some (id, done) ↔
    ∃ job, r.jobs[i]? = some job ∧ job.task.taskId = id ∧ decide (job.pc = .finished) = done := by
  simp [Runner.shape, Job.key]

/-- A coroutine that moves on changes the shape in its own place only. -/
theorem map_key_modify {jobs : List Job} {i : ℕ} {f : Job → Job} {k : PyStr × Bool}
    (h : ∀ job, jobs[i]? = some job → (f job).key = k) :
    (jobs.modify i f).map Job.key = (jobs.map Job.key).set i k := by
  refine List.ext_getElem? fun j => ?_
  rw [List.getElem?_map, List.getElem?_modify, List.getElem?_set, List.getElem?_map,
    List.length_map]
  by_cases hij : i = j
  · subst hij
    cases hjob : jobs[i]? with
    | none =>
        have hlen : ¬ i < jobs.length := by simpa using hjob
        simp [hlen]
    | some job =>
        have hlen : i < jobs.length := (List.getElem?_eq_some_iff.mp hjob).1
        simp [hlen, h job hjob]
  · simp [hij]

theorem map_key_modify_same {jobs : List Job} {i : ℕ} {f : Job → Job}
    (h : ∀ job, jobs[i]? = some job → (f job).key = job.key) :
    (jobs.modify i f).map Job.key = jobs.map Job.key := by
  refine List.ext_getElem? fun j => ?_
  rw [List.getElem?_map, List.getElem?_modify, List.getElem?_map]
  by_cases hij : i = j
  · subst hij
    cases hjob : jobs[i]? with
    | none => rfl
    | some job => simp [h job hjob]
  · simp [hij]

/-- A move short of the end keeps the shape. -/
theorem shape_moveTo {i : ℕ} {job : Job} {pc : Pc} (hjob : r.jobs[i]? = some job)
    (hpc : job.pc ≠ .finished) (hpc' : pc ≠ .finished) : (r.moveTo i pc).shape = r.shape := by
  refine map_key_modify_same fun job' hjob' => ?_
  obtain rfl : job = job' := Option.some.inj (hjob.symm.trans hjob')
  simp [Job.key, hpc, hpc']

theorem shape_setCancel (i : ℕ) : (r.setCancel i).shape = r.shape :=
  map_key_modify_same fun _ _ => rfl

/-- Flags only. -/
theorem foldl_setCancel (is : List ℕ) :
    (is.foldl Runner.setCancel r).slots = r.slots ∧
      (is.foldl Runner.setCancel r).running = r.running ∧
      (is.foldl Runner.setCancel r).shape = r.shape := by
  induction is generalizing r with
  | nil => exact ⟨rfl, rfl, rfl⟩
  | cons i is ih =>
      obtain ⟨hslots, hrunning, hshape⟩ := ih (r := r.setCancel i)
      exact ⟨hslots, hrunning, hshape.trans (shape_setCancel i)⟩

/-! ## What a step does to the slots -/

/-- The step admits an assignment whose `attempt` is an infinity. -/
def Leaks (it : Interpreter) (wc : WorkerConfig) (r : Runner) (e : Event) : Prop :=
  ∃ c message a, e = .assign c message ∧ readAssignment it c message = some a ∧
    r.Admits wc a ∧ IsInfinite a.attempt

/-- Nothing taken, nothing given back. -/
structure Quiet (r : Runner) (e : Event) (t : Runner) : Prop where
  slots : t.slots = r.slots
  running : t.running = r.running
  shape : t.shape = r.shape
  event : ∀ i, e ≠ .finish i

/-- A slot for an entry. -/
structure Admitted (r : Runner) (e : Event) (t : Runner) (id : PyStr) : Prop where
  fresh : id ∉ r.running.keys
  free : r.slots.locked = false
  slots : t.slots = { r.slots with value := r.slots.value - 1 }
  running : t.running = r.running.set id r.jobs.length
  shape : t.shape = r.shape ++ [(id, false)]
  event : ∀ i, e ≠ .finish i

/-- A slot for nothing. -/
structure Lost (r : Runner) (e : Event) (t : Runner) : Prop where
  free : r.slots.locked = false
  slots : t.slots = { r.slots with value := r.slots.value - 1 }
  running : t.running = r.running
  shape : t.shape = r.shape
  event : ∀ i, e ≠ .finish i

/-- The `finally` of job `i`. -/
structure Finished (r : Runner) (t : Runner) (i : ℕ) (id : PyStr) : Prop where
  live : r.shape[i]? = some (id, false)
  slots : t.slots = r.slots.release
  running : t.running = r.running.erase id
  shape : t.shape = r.shape.set i (id, true)

/-- What becomes of an assignment that was read. -/
theorem handleAssignment_cases (it : Interpreter) (wc : WorkerConfig) (r : Runner) (a : Assignment)
    (e : Event) (he : ∀ i, e ≠ .finish i) :
    (¬ r.Admits wc a ∧ Quiet r e (handleAssignment it wc r a).1) ∨
    (r.Admits wc a ∧ ¬ IsInfinite a.attempt ∧
      Admitted r e (handleAssignment it wc r a).1 a.taskId) ∨
    (r.Admits wc a ∧ IsInfinite a.attempt ∧ Lost r e (handleAssignment it wc r a).1) := by
  by_cases htype : a.taskType ∉ wc.supportedTaskTypes.map pyStr ∨ a.taskType ∉ executors.map pyStr
  · refine .inl ⟨fun h => htype.elim (· h.1) (· h.2.1), ?_⟩
    rw [handleAssignment, if_pos htype]
    exact ⟨rfl, rfl, rfl, he⟩
  by_cases hdup : r.running.contains a.taskId = true
  · refine .inl ⟨fun h => h.2.2.1 (Dict.contains_iff.mp hdup), ?_⟩
    rw [handleAssignment, if_neg htype, if_pos hdup]
    exact ⟨rfl, rfl, rfl, he⟩
  by_cases hlocked : r.slots.locked = true
  · refine .inl ⟨fun h => Bool.false_ne_true (h.2.2.2.symm.trans hlocked), ?_⟩
    rw [handleAssignment, if_neg htype, if_neg hdup, if_pos hlocked]
    exact ⟨rfl, rfl, rfl, he⟩
  have hfree : r.slots.locked = false := by simpa using hlocked
  have hfresh : a.taskId ∉ r.running.keys := fun h => hdup (Dict.contains_iff.mpr h)
  have hadmits : r.Admits wc a := by
    rw [not_or, not_not, not_not] at htype
    exact ⟨htype.1, htype.2, hfresh, hfree⟩
  have hacquire : r.slots.acquire = ({ r.slots with value := r.slots.value - 1 }, true) := by
    rw [Semaphore.acquire, if_neg hlocked]
  rw [handleAssignment, if_neg htype, if_neg hdup, if_neg hlocked, hacquire]
  dsimp only
  cases hread : coerceInt it a.attempt with
  | ok n =>
      refine .inr (.inl ⟨hadmits, (coerceInt_ok_iff it _).mp ⟨n, hread⟩, hfresh, hfree, rfl, rfl,
        ?_, he⟩)
      simp [Runner.shape, Job.key]
  | error error =>
      have hinfinite : IsInfinite a.attempt := by
        by_contra h
        obtain ⟨n, hn⟩ := (coerceInt_ok_iff it _).mpr h
        rw [hread] at hn
        cases hn
      exact .inr (.inr ⟨hadmits, hinfinite, hfree, rfl, rfl, rfl, he⟩)

theorem quiet_moveTo {i : ℕ} {job : Job} {pc : Pc} (hjob : r.jobs[i]? = some job)
    (hpc : job.pc ≠ .finished) (hpc' : pc ≠ .finished) (he : ∀ i, e ≠ .finish i) :
    Quiet r e (r.moveTo i pc) :=
  ⟨rfl, rfl, shape_moveTo hjob hpc hpc', he⟩

/-- **One step.** It leaves the slots alone, admits a task, loses a slot or finishes a
task. -/
theorem next_cases (h : next it wc r e = some t) :
    (Quiet r e t ∧ ¬ Leaks it wc r e) ∨ ((∃ id, Admitted r e t id) ∧ ¬ Leaks it wc r e) ∨
      (Lost r e t ∧ Leaks it wc r e) ∨
      ((∃ i id, e = .finish i ∧ Finished r t i id) ∧ ¬ Leaks it wc r e) := by
  have hassign : ∀ {e : Event}, (∀ c message, e ≠ .assign c message) → ¬ Leaks it wc r e := by
    rintro e he ⟨c, message, a, rfl, -⟩
    exact he c message rfl
  cases e with
  | assign c message =>
      simp only [next] at h
      cases hread : readAssignment it c message with
      | none =>
          rw [hread] at h
          obtain rfl := Option.some.inj h
          refine .inl ⟨⟨rfl, rfl, rfl, by simp⟩, ?_⟩
          rintro ⟨c', message', a, he, ha, -⟩
          cases he
          rw [hread] at ha
          cases ha
      | some a =>
          rw [hread] at h
          obtain rfl := Option.some.inj h
          have honly : Leaks it wc r (.assign c message) ↔ r.Admits wc a ∧
              IsInfinite a.attempt := by
            constructor
            · rintro ⟨c', message', a', he, ha, hleak⟩
              cases he
              rw [hread] at ha
              cases ha
              exact hleak
            · exact fun hleak => ⟨c, message, a, rfl, hread, hleak⟩
          rw [honly]
          rcases handleAssignment_cases it wc r a (.assign c message) (by simp) with
            ⟨hno, hquiet⟩ | ⟨-, hfinite, hadmitted⟩ | ⟨hyes, hinfinite, hlost⟩
          · exact .inl ⟨hquiet, fun hleak => hno hleak.1⟩
          · exact .inr (.inl ⟨⟨_, hadmitted⟩, fun hleak => hfinite hleak.2⟩)
          · exact .inr (.inr (.inl ⟨hlost, hyes, hinfinite⟩))
  | acked i =>
      refine .inl ⟨?_, hassign (by simp)⟩
      simp only [next] at h
      split at h
      · next hjob => exact Option.some.inj h ▸ quiet_moveTo hjob (by simp) (by simp) (by simp)
      · cases h
  | started i =>
      refine .inl ⟨?_, hassign (by simp)⟩
      simp only [next] at h
      split at h
      · next hjob => exact Option.some.inj h ▸ quiet_moveTo hjob (by simp) (by simp) (by simp)
      · cases h
  | run i =>
      refine .inl ⟨?_, hassign (by simp)⟩
      simp only [next] at h
      split at h
      · next hjob => exact Option.some.inj h ▸ quiet_moveTo hjob (by simp) (by simp) (by simp)
      · cases h
  | executed i ending =>
      refine .inl ⟨?_, hassign (by simp)⟩
      simp only [next] at h
      split at h
      · next hjob =>
          split at h
          · cases h
          · exact Option.some.inj h ▸ quiet_moveTo hjob (by simp) (by simp) (by simp)
      · cases h
  | finish i =>
      refine .inr (.inr (.inr ⟨?_, hassign (by simp)⟩))
      simp only [next] at h
      split at h
      · next task parameters pc hjob =>
          split at h
          · next hpc =>
              obtain rfl := Option.some.inj h
              have hlive : pc ≠ .finished := by
                rintro rfl
                cases hpc
              refine ⟨i, task.taskId, rfl, shape_get.mpr ⟨_, hjob, rfl, by simpa using hlive⟩, rfl,
                rfl, map_key_modify fun job hjob' => ?_⟩
              obtain rfl := Option.some.inj (hjob.symm.trans hjob')
              simp [Job.key]
          · cases h
      · cases h
  | cancel taskId =>
      refine .inl ⟨?_, hassign (by simp)⟩
      obtain rfl := Option.some.inj h
      unfold Runner.handleCancel
      split
      · exact ⟨rfl, rfl, shape_setCancel _, by simp⟩
      · exact ⟨rfl, rfl, rfl, by simp⟩
  | cancelAll =>
      refine .inl ⟨?_, hassign (by simp)⟩
      obtain rfl := Option.some.inj h
      obtain ⟨hslots, hrunning, hshape⟩ := foldl_setCancel (r := r) (r.running.rows.map Prod.snd)
      exact ⟨hslots, hrunning, hshape, by simp⟩
  | reconnect sessionEpoch =>
      refine .inl ⟨?_, hassign (by simp)⟩
      obtain rfl := Option.some.inj h
      exact ⟨rfl, rfl, rfl, by simp⟩

/-! ## The registry -/

/-- `running` is the table of the jobs that have not finished. -/
structure Registered (r : Runner) : Prop where
  lookup_iff : ∀ id i, r.running.lookup id = some i ↔ r.shape[i]? = some (id, false)
  waiters : r.slots.waiters = 0

theorem shape_length : r.shape.length = r.jobs.length := List.length_map _

theorem Registered.step (hr : Registered r) (h : next it wc r e = some t) : Registered t := by
  rcases next_cases h with ⟨hq, -⟩ | ⟨⟨id, ha⟩, -⟩ | ⟨hl, -⟩ | ⟨⟨i, id, -, hf⟩, -⟩
  · exact ⟨by rw [hq.running, hq.shape]; exact hr.lookup_iff, by rw [hq.slots]; exact hr.waiters⟩
  · refine ⟨fun id' i => ?_, by rw [ha.slots]; exact hr.waiters⟩
    rw [ha.running, ha.shape, Dict.lookup_set, List.getElem?_append, ← shape_length]
    have hout : r.running.lookup id = none := Dict.lookup_eq_none_iff.mpr ha.fresh
    by_cases hi : i < r.shape.length
    · rw [if_pos hi, ← hr.lookup_iff]
      split
      · next hid =>
          subst hid
          rw [hout]
          simp [hi.ne']
      · rfl
    · rw [if_neg hi]
      have hin : ∀ id, r.running.lookup id ≠ some i := by
        intro id hlookup
        exact hi (List.getElem?_eq_some_iff.mp ((hr.lookup_iff id i).mp hlookup)).1
      rcases Nat.eq_or_lt_of_le (Nat.not_lt.mp hi) with heq | hlt
      · rw [heq, Nat.sub_self]
        split
        · next hid =>
            subst hid
            exact iff_of_true rfl rfl
        · next hid =>
            refine iff_of_false (heq ▸ hin id') fun h => hid ?_
            exact (Prod.ext_iff.mp (Option.some.inj h)).1.symm
      · have hnone : [(id, false)][i - r.shape.length]? = none :=
          List.getElem?_eq_none (by rw [List.length_singleton]; omega)
        rw [hnone]
        refine iff_of_false ?_ (by simp)
        split
        · exact fun h => hlt.ne (Option.some.inj h)
        · exact hin id'
  · exact ⟨by rw [hl.running, hl.shape]; exact hr.lookup_iff, by rw [hl.slots]; exact hr.waiters⟩
  · refine ⟨fun id' j => ?_, by rw [hf.slots]; exact hr.waiters⟩
    have hlen : i < r.shape.length := (List.getElem?_eq_some_iff.mp hf.live).1
    have hself : r.running.lookup id = some i := (hr.lookup_iff id i).mpr hf.live
    rw [hf.running, hf.shape, Dict.lookup_erase, List.getElem?_set]
    by_cases hij : i = j
    · subst hij
      rw [if_pos rfl, if_pos hlen]
      refine iff_of_false ?_ (by simp)
      split
      · exact by rintro ⟨⟩
      · next hid =>
          intro h
          have := ((hr.lookup_iff id' i).mp h).symm.trans hf.live
          exact hid (Prod.ext_iff.mp (Option.some.inj this)).1
    · rw [if_neg hij, ← hr.lookup_iff]
      split
      · next hid =>
          subst hid
          rw [hself]
          simp [hij]
      · rfl

theorem registered_of_reachable (h : (worker it wc).Reachable r) : Registered r := by
  refine h.invariant ?_ ?_
  · rintro s rfl
    refine ⟨fun id i => iff_of_false ?_ ?_, rfl⟩
    · exact by rintro ⟨⟩
    · exact by rintro ⟨⟩
  · exact fun s e t _ hs hstep => hs.step hstep

/-- Two unfinished jobs of one id are one job. -/
theorem Registered.one_execution (hr : Registered r) {i j : ℕ} {job job' : Job}
    (hi : r.jobs[i]? = some job) (hj : r.jobs[j]? = some job') (hlive : job.pc ≠ .finished)
    (hlive' : job'.pc ≠ .finished) (hid : job.task.taskId = job'.task.taskId) : i = j := by
  have hkey : r.shape[i]? = some (job.task.taskId, false) :=
    shape_get.mpr ⟨job, hi, rfl, decide_eq_false hlive⟩
  have hkey' : r.shape[j]? = some (job.task.taskId, false) :=
    shape_get.mpr ⟨job', hj, hid.symm, decide_eq_false hlive'⟩
  have hlookup := (hr.lookup_iff _ _).mpr hkey
  rw [(hr.lookup_iff _ _).mpr hkey', Option.some.injEq] at hlookup
  exact hlookup.symm

/-! ## The count of the slots -/

/-- Free slots and running tasks add up. -/
def Runner.Balanced (wc : WorkerConfig) (r : Runner) : Prop :=
  r.slots.value + r.running.size = wc.maxConcurrent

theorem Semaphore.pos_of_free {s : Semaphore} (h : s.locked = false) : 0 < s.value := by
  refine Nat.pos_of_ne_zero fun hzero => ?_
  simp [locked, hzero] at h

/-- A step keeps the balance exactly when it loses no slot. -/
theorem Registered.balanced_iff (hr : Registered r) (h : next it wc r e = some t)
    (hbalanced : r.Balanced wc) : t.Balanced wc ↔ ¬ Leaks it wc r e := by
  unfold Runner.Balanced at *
  rcases next_cases h with ⟨hq, hno⟩ | ⟨⟨id, ha⟩, hno⟩ | ⟨hl, hyes⟩ | ⟨⟨i, id, -, hf⟩, hno⟩
  · refine iff_of_true ?_ hno
    rw [hq.slots, hq.running]
    exact hbalanced
  · refine iff_of_true ?_ hno
    have hpos := Semaphore.pos_of_free ha.free
    have hsize := Dict.size_set_of_not_mem ha.fresh r.jobs.length
    rw [ha.slots, ha.running, hsize]
    show r.slots.value - 1 + _ = _
    omega
  · refine iff_of_false ?_ fun h => h hyes
    have hpos := Semaphore.pos_of_free hl.free
    rw [hl.slots, hl.running]
    show ¬ r.slots.value - 1 + _ = _
    omega
  · refine iff_of_true ?_ hno
    have hmem : id ∈ r.running.keys :=
      Dict.mem_keys_of_lookup ((hr.lookup_iff id i).mpr hf.live)
    have hsize := Dict.size_erase_of_mem hmem
    rw [hf.slots, hf.running]
    show r.slots.value + 1 + _ = _
    omega

/-- How often the `finally` of job `i` ran. -/
def releases (i : ℕ) (es : List Event) : ℕ := es.countP fun
  | .finish j => j = i
  | _ => false

theorem releases_append_ne {i : ℕ} (he : ∀ j, e ≠ .finish j) :
    releases i (es ++ [e]) = releases i es := by
  cases e with
  | finish j => exact absurd rfl (he j)
  | _ => simp [releases, List.countP_append]

theorem releases_append_finish (i j : ℕ) :
    releases i (es ++ [.finish j]) = releases i es + if j = i then 1 else 0 := by
  simp [releases, List.countP_append, List.countP_singleton]

/-- The execution of job `i` is over. -/
def Runner.hasFinished (r : Runner) (i : ℕ) : Bool := r.jobs[i]?.any fun job => job.pc = .finished

theorem hasFinished_eq (r : Runner) (i : ℕ) : r.hasFinished i = r.shape[i]?.any Prod.snd := by
  rw [Runner.hasFinished, Runner.shape, List.getElem?_map]
  cases r.jobs[i]? <;> rfl

/-- A job has released its slot once when it has finished, and never before. -/
theorem releases_eq (h : (worker it wc).Run es r) (i : ℕ) :
    releases i es = if r.hasFinished i then 1 else 0 := by
  rw [hasFinished_eq]
  refine h.invariant (I := fun es r => releases i es =
    if r.shape[i]?.any Prod.snd then 1 else 0) ?_ ?_
  · rintro s rfl
    rfl
  · intro es s e t _ ih hstep
    rcases next_cases hstep with ⟨hq, -⟩ | ⟨⟨id, ha⟩, -⟩ | ⟨hl, -⟩ | ⟨⟨j, id, rfl, hf⟩, -⟩
    · rw [releases_append_ne hq.event, ih, hq.shape]
    · -- the new job has not finished, and the others stand where they stood
      have hsame : t.shape[i]?.any Prod.snd = s.shape[i]?.any Prod.snd := by
        rw [ha.shape, List.getElem?_append]
        split
        · rfl
        · next hi =>
            rw [List.getElem?_eq_none (Nat.not_lt.mp hi), List.getElem?_singleton]
            split <;> rfl
      rw [releases_append_ne ha.event, ih, hsame]
    · rw [releases_append_ne hl.event, ih, hl.shape]
    · have hlen : j < s.shape.length := (List.getElem?_eq_some_iff.mp hf.live).1
      rw [releases_append_finish, ih, hf.shape]
      by_cases hij : j = i
      · subst hij
        rw [hf.live, List.getElem?_set_self hlen, if_pos rfl]
        rfl
      · rw [if_neg hij, Nat.add_zero, List.getElem?_set_ne hij]

/-! ## The accounting -/

/-- What holds behind the events `es`. -/
structure SlotsKept (wc : WorkerConfig) (es : List Event) (r : Runner) : Prop where
  balanced : r.slots.value + r.running.size = wc.maxConcurrent
  one_execution : ∀ (i j : ℕ) (job job' : Job), r.jobs[i]? = some job → r.jobs[j]? = some job' →
    job.pc ≠ .finished → job'.pc ≠ .finished → job.task.taskId = job'.task.taskId → i = j
  never_blocks : r.slots.waiters = 0
  one_release : ∀ i, releases i es = if r.hasFinished i then 1 else 0

/-- The end of an execution gives back one slot and takes out its own entry. -/
def ReleasesOwn (r : Runner) (e : Event) (t : Runner) : Prop :=
  ∀ i, e = .finish i → ∃ job, r.jobs[i]? = some job ∧
    r.running.lookup job.task.taskId = some i ∧
    t.slots.value = r.slots.value + 1 ∧ t.running = r.running.erase job.task.taskId

theorem Registered.releasesOwn (hr : Registered r) (h : next it wc r e = some t) :
    ReleasesOwn r e t := by
  rintro i rfl
  rcases next_cases h with ⟨hq, -⟩ | ⟨⟨id, ha⟩, -⟩ | ⟨hl, -⟩ | ⟨⟨j, id, he, hf⟩, -⟩
  · exact absurd rfl (hq.event i)
  · exact absurd rfl (ha.event i)
  · exact absurd rfl (hl.event i)
  · cases he
    obtain ⟨job, hjob, hid, -⟩ := shape_get.mp hf.live
    refine ⟨job, hjob, ?_, by rw [hf.slots]; rfl, by rw [hf.running, hid]⟩
    rw [hid]
    exact (hr.lookup_iff id i).mpr hf.live

/-- **The slots of a worker.** Along a run the slots add up, one id has one execution, no
admission waits, and every execution gives back its own slot once, exactly when no
assignment with an infinite `attempt` is admitted. -/
theorem slot_accounting_iff (hinit : (worker it wc).init r) (h : (worker it wc).Trace r es t) :
    ((worker it wc).guarded fun r e => ¬ Leaks it wc r e).Trace r es t ↔
      (∀ as bs u, es = as ++ bs → (worker it wc).Trace r as u → SlotsKept wc as u) ∧
      ∀ as e bs u u', es = as ++ e :: bs → (worker it wc).Trace r as u →
        (worker it wc).step u e u' → ReleasesOwn u e u' := by
  have hiff := h.guarded_iff (P := Runner.Balanced wc) (G := fun r e => ¬ Leaks it wc r e)
    (worker_deterministic it wc)
    (by rintro s rfl; rfl)
    (fun s e u hs hstep hb => (registered_of_reachable hs).balanced_iff hstep hb) hinit
  rw [hiff]
  constructor
  · intro hall
    refine ⟨fun as bs u hsplit hu => ?_, fun as e bs u u' _ hu hstep => ?_⟩
    · have hr : Registered u := registered_of_reachable ⟨as, r, hinit, hu⟩
      exact ⟨hall as bs u hsplit hu, fun i j job job' => hr.one_execution, hr.waiters,
        releases_eq ⟨r, hinit, hu⟩⟩
    · exact (registered_of_reachable ⟨as, r, hinit, hu⟩).releasesOwn hstep
  · exact fun hkept as bs u hsplit hu => (hkept.1 as bs u hsplit hu).balanced

/-- A `task_assign` of a `sleep`. -/
def sleepAssign (taskId : String) (attempt : Wire) : Event :=
  .assign [] [(pyStr "payload", .obj [(pyStr "task_id", .str (pyStr taskId)),
    (pyStr "task_type", .str (pyStr "sleep")), (pyStr "attempt", attempt)])]

/-- The worker of one slot, with nothing running. -/
def oneSlot : Runner := { slots := { value := 1 } }

/-- Of a task that is delivered twice, then another while it runs, and its end. -/
theorem slot_accounting_sleep : ∃ es t, es.length = 7 ∧
    (worker Demo.cpython { maxConcurrent := 1 }).Trace oneSlot es t ∧
    (((worker Demo.cpython { maxConcurrent := 1 }).guarded fun r e =>
        ¬ Leaks Demo.cpython { maxConcurrent := 1 } r e).Trace oneSlot es t ↔
      (∀ as bs u, es = as ++ bs → (worker Demo.cpython { maxConcurrent := 1 }).Trace oneSlot as u →
        SlotsKept { maxConcurrent := 1 } as u) ∧
      ∀ as e bs u u', es = as ++ e :: bs →
        (worker Demo.cpython { maxConcurrent := 1 }).Trace oneSlot as u →
        (worker Demo.cpython { maxConcurrent := 1 }).step u e u' → ReleasesOwn u e u') := by
  have hplayed : ([sleepAssign "a" (.int 0), sleepAssign "a" (.int 0), .acked 0, .started 0, .run 0,
      sleepAssign "b" (.int 0), .finish 0].foldlM (next Demo.cpython { maxConcurrent := 1 })
        oneSlot).isSome = true := by
    decide +kernel
  obtain ⟨t, ht⟩ := Option.isSome_iff_exists.mp hplayed
  have htrace := System.Trace.of_foldlM (S := worker Demo.cpython { maxConcurrent := 1 })
    (fun _ _ _ h => h) ht
  exact ⟨_, t, rfl, htrace, slot_accounting_iff rfl htrace⟩

/-- A first assignment with `"attempt": Infinity` takes the slot and starts nothing. -/
theorem infinite_attempt_takes_slot : ∃ t,
    (worker Demo.cpython { maxConcurrent := 1 }).Run [sleepAssign "a" (.float (.inf false))] t ∧
      t.slots.value + t.running.size ≠ 1 ∧ t.jobs = [] := by
  have hplayed : (next Demo.cpython { maxConcurrent := 1 } oneSlot
      (sleepAssign "a" (.float (.inf false)))) = some { oneSlot with slots := { value := 0 } } := by
    rfl
  exact ⟨_, ⟨oneSlot, rfl, .single hplayed⟩, by decide, rfl⟩

end TaskFleet.Model.Runtime
