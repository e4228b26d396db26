import TaskFleet.Theorems.SentLedger

/-!
# Which results the buffer keeps

`record_result` makes room before it looks whether the task has an entry already, and an
entry that is written again stays where it was in the dictionary. So "the oldest" is the
one that has been there longest, which need not be the one recorded longest ago, and at
the cap an entry is dropped for a result that needs no room. Exactly the calls that
meet neither keep the newest results (`keeps_newest_iff`).
-/

namespace TaskFleet.Model

open Py

/-- The task ids of some calls, the most recently recorded one first. -/
def recency (calls : List (String × WorkerResult)) : List String :=
  calls.foldl (fun ids call => call.1 :: ids.erase call.1) []

/-- The buffer holds the latest envelopes of the `cap` most recently recorded tasks, and
nothing else. -/
def KeepsNewest (cap : ℕ) (calls : List (String × WorkerResult)) (d : Dict String WorkerResult) :
    Prop :=
  ∀ taskId, d.lookup taskId =
    if taskId ∈ (recency calls).take cap then calls.reverse.lookup taskId else none

/-- The entries that `record_result` drops to make room. -/
def evicted (cap : ℕ) (d : Dict String WorkerResult) : List String := d.keys.take (d.size + 1 - cap)

/-- An entry is dropped only if the buffer would be too large otherwise. -/
def EvictsForRoom (cap : ℕ) (d : Dict String WorkerResult) (call : String × WorkerResult) : Prop :=
  evicted cap d ≠ [] → cap < (d.set call.1 call.2).size

/-- The worker after some calls. -/
def recorded (cfg : WorkerConfig) (calls : List (String × WorkerResult)) : Submitter :=
  calls.foldl (fun s call => s.recordResult cfg.maxPendingResults call.1 call.2)
    { runner := { slots := cfg.maxConcurrent } }

/-- **The condition** on a call, after those before it. A full buffer has no entry of the
task, and the entry that has been in it longest was recorded longest ago. -/
def OldestFirst (cap : ℕ) (before : List (String × WorkerResult)) (d : Dict String WorkerResult)
    (taskId : String) : Prop :=
  cap ≤ d.size → taskId ∉ d.keys ∧ d.keys.head? = ((recency before).take cap).getLast?

section

variable {cap : ℕ} {before calls : List (String × WorkerResult)} {d : Dict String WorkerResult}
  {call : String × WorkerResult}

/-! ## Recency -/

theorem recency_snoc (before : List (String × WorkerResult)) (call : String × WorkerResult) :
    recency (before ++ [call]) = call.1 :: (recency before).erase call.1 := by
  simp [recency]

theorem recency_nodup (calls : List (String × WorkerResult)) : (recency calls).Nodup := by
  induction calls using List.reverseRecOn with
  | nil => exact List.nodup_nil
  | append_singleton before call ih =>
      rw [recency_snoc]
      exact List.nodup_cons.mpr ⟨ih.not_mem_erase, ih.erase _⟩

/-- The call's own envelope is the latest of its task, and no other's. -/
theorem lookup_reverse_snoc (taskId : String) : (before ++ [call]).reverse.lookup taskId =
    if taskId = call.1 then some call.2 else before.reverse.lookup taskId := by
  obtain ⟨k, envelope⟩ := call
  rw [List.reverse_append, List.reverse_singleton, List.singleton_append]
  by_cases hk : taskId = k
  · simp [hk]
  · rw [List.lookup_cons, beq_false_of_ne hk, if_neg hk]

theorem mem_recency {taskId : String} :
    taskId ∈ recency calls ↔ ∃ envelope, calls.reverse.lookup taskId = some envelope := by
  induction calls using List.reverseRecOn with
  | nil => simp [recency]
  | append_singleton before call ih =>
      rw [recency_snoc, lookup_reverse_snoc, List.mem_cons]
      by_cases hk : taskId = call.1
      · simp [hk]
      · rw [List.mem_erase_of_ne hk, ih, if_neg hk, or_iff_right hk]

/-! ## The buffer of the newest -/

theorem KeepsNewest.mem_keys_iff (h : KeepsNewest cap calls d) {taskId : String} :
    taskId ∈ d.keys ↔ taskId ∈ (recency calls).take cap := by
  rw [Dict.mem_keys_iff, h taskId]
  constructor
  · rintro ⟨envelope, henvelope⟩
    by_contra hnot
    rw [if_neg hnot] at henvelope
    cases henvelope
  · intro hmem
    rw [if_pos hmem]
    exact mem_recency.mp (List.mem_of_mem_take hmem)

theorem KeepsNewest.size (h : KeepsNewest cap calls d) :
    d.size = min cap (recency calls).length := by
  have hperm : d.keys.Perm ((recency calls).take cap) :=
    (List.perm_ext_iff_of_nodup d.keys_nodup ((recency_nodup calls).take)).mpr
      fun _ => h.mem_keys_iff
  rw [Dict.size_eq_length, hperm.length_eq, List.length_take]

/-- A task that is not among the newest leaves the order of those in front of it. -/
theorem take_erase {l : List String} {taskId : String} (h : taskId ∉ l.take cap) :
    (l.erase taskId).take cap = l.take cap := by
  induction l generalizing cap with
  | nil => rfl
  | cons x l ih =>
      cases cap with
      | zero => rfl
      | succ cap =>
          rw [List.take_succ_cons, List.mem_cons, not_or] at h
          rw [List.erase_cons_tail (by simpa using fun hx => h.1 hx.symm), List.take_succ_cons,
            List.take_succ_cons, ih h.2]

/-- **With room left.** Nothing is dropped, and the newest are kept. -/
theorem keepsNewest_of_lt (h : KeepsNewest cap before d) (hroom : d.size < cap) :
    KeepsNewest cap (before ++ [call]) ((d.dropFirst (d.size + 1 - cap)).set call.1 call.2) := by
  have hall : (recency before).length < cap := by
    have := h.size
    omega
  have hdrop : d.dropFirst (d.size + 1 - cap) = d := by
    rw [show d.size + 1 - cap = 0 by omega]
    rfl
  have htake : (recency (before ++ [call])).take cap = recency (before ++ [call]) := by
    refine List.take_of_length_le ?_
    rw [recency_snoc, List.length_cons]
    have := List.length_erase_le (l := recency before) (a := call.1)
    omega
  intro taskId
  rw [hdrop, Dict.lookup_set, lookup_reverse_snoc, htake, recency_snoc]
  by_cases hk : taskId = call.1
  · rw [if_pos hk, if_pos (by simp [hk]), if_pos hk]
  · rw [if_neg hk, if_neg hk, h taskId, List.take_of_length_le hall.le]
    simp [hk]

/-- **At the cap**, with a task that has no entry: the newest are kept exactly if the
entry that is dropped is the one recorded longest ago. -/
theorem keepsNewest_full_iff (h : KeepsNewest cap before d) (hpos : 0 < cap) (hfull : cap ≤ d.size)
    (hnew : call.1 ∉ d.keys) :
    KeepsNewest cap (before ++ [call]) ((d.dropFirst (d.size + 1 - cap)).set call.1 call.2) ↔
      d.keys.head? = ((recency before).take cap).getLast? := by
  have hsize : d.size = cap := by
    have := h.size
    omega
  have hlength : ((recency before).take cap).length = cap := by
    have := h.size
    rw [List.length_take]
    omega
  have hkeys : d.keys.length = cap := by rw [← Dict.size_eq_length, hsize]
  obtain ⟨front, last, hlast⟩ : ∃ front last, (recency before).take cap = front ++ [last] := by
    rcases List.eq_nil_or_concat ((recency before).take cap) with hnil | ⟨front, last, hlast⟩
    · rw [hnil] at hlength
      simp only [List.length_nil] at hlength
      omega
    · exact ⟨front, last, by rw [hlast, List.concat_eq_append]⟩
  obtain ⟨first, rest, hfirst⟩ : ∃ first rest, d.keys = first :: rest := by
    refine List.exists_cons_of_ne_nil fun hnil => ?_
    rw [hnil] at hkeys
    simp only [List.length_nil] at hkeys
    omega
  -- the newest after the call: its own task, and all but the last of those before
  have hnewest : (recency (before ++ [call])).take cap = call.1 :: front := by
    obtain ⟨n, rfl⟩ := Nat.exists_eq_succ_of_ne_zero hpos.ne'
    have hfront : front.length = n := by
      have := congrArg List.length hlast
      rw [hlength, List.length_append, List.length_singleton] at this
      omega
    have hnot : call.1 ∉ (recency before).take (n + 1) := fun hmem => hnew (h.mem_keys_iff.mpr hmem)
    rw [recency_snoc, List.take_succ_cons]
    refine congrArg (call.1 :: ·) ?_
    have hmin : ∀ l : List String, l.take n = (l.take (n + 1)).take n := by
      intro l
      rw [List.take_take, min_eq_left (Nat.le_succ n)]
    rw [hmin, take_erase hnot, hlast, ← hfront, List.take_left]
  have hfront : ∀ k, k ∈ front ∨ k = last ↔ k = first ∨ k ∈ rest := by
    intro k
    have hmem : k ∈ d.keys ↔ _ := h.mem_keys_iff
    rw [hfirst, hlast, List.mem_cons, List.mem_append, List.mem_singleton] at hmem
    exact hmem.symm
  have hlastNot : last ∉ front := by
    have hnodup := (recency_nodup before).take (i := cap)
    rw [hlast] at hnodup
    exact fun hmem => List.disjoint_of_nodup_append hnodup hmem List.mem_cons_self
  have hfirstNot : first ∉ rest := by
    have hnodup := d.keys_nodup
    rw [hfirst] at hnodup
    exact (List.nodup_cons.mp hnodup).1
  have hroom : (d.dropFirst (d.size + 1 - cap)).keys = rest := by
    rw [Dict.keys_dropFirst, hsize, hfirst, Nat.add_sub_cancel_left]
    rfl
  have hcall : call.1 ∉ front := fun hmem => hnew (h.mem_keys_iff.mpr (by simp [hlast, hmem]))
  rw [hfirst, hlast, List.head?_cons, List.getLast?_append, List.getLast?_singleton, Option.some_or,
    Option.some.injEq]
  constructor
  · intro hnext
    have hin : ∀ k, k ≠ call.1 → (k ∈ rest ↔ k ∈ front) := by
      intro k hk
      have hset : k ∈ ((d.dropFirst (d.size + 1 - cap)).set call.1 call.2).keys ↔ _ :=
        hnext.mem_keys_iff
      rwa [Dict.mem_keys_set, hroom, hnewest, List.mem_cons, or_iff_right hk,
        or_iff_right hk] at hset
    have hne : first ≠ call.1 := by
      rintro rfl
      exact hnew (by simp [hfirst])
    by_contra hdiffer
    have := (hfront first).mpr (.inl rfl)
    exact hfirstNot ((hin first hne).mpr (this.resolve_right hdiffer))
  · rintro rfl
    have hin : ∀ k, k ∈ rest ↔ k ∈ front := by
      intro k
      have := hfront k
      by_cases hk : k = first
      · exact iff_of_false (hk ▸ hfirstNot) (hk ▸ hlastNot)
      · rwa [or_iff_left hk, or_iff_right hk, iff_comm] at this
    intro taskId
    rw [Dict.lookup_set, lookup_reverse_snoc, hnewest]
    by_cases hk : taskId = call.1
    · simp [hk]
    · have hcons : taskId ∈ call.1 :: front ↔ taskId ∈ front := by
        rw [List.mem_cons, or_iff_right hk]
      rw [if_neg hk, if_neg hk, if_congr hcons rfl rfl]
      by_cases hmem : taskId ∈ front
      · rw [if_pos hmem, Dict.lookup_dropFirst (by rw [hroom]; exact (hin taskId).mpr hmem),
          h taskId, if_pos (by simp [hlast, hmem])]
      · rw [if_neg hmem, Dict.lookup_eq_none_iff, hroom]
        exact fun hrest => hmem ((hin taskId).mp hrest)

/-- **One call.** -/
theorem keepsNewest_call_iff (s : Submitter) (h : KeepsNewest cap before s.runner.pendingResults) :
    KeepsNewest cap (before ++ [call])
        (s.recordResult cap call.1 call.2).runner.pendingResults ∧
      EvictsForRoom cap s.runner.pendingResults call ↔
    OldestFirst cap before s.runner.pendingResults call.1 := by
  generalize hd : s.runner.pendingResults = d at h
  have hroom : s.runner.makeRoom cap = d.dropFirst (d.size + 1 - cap) := by
    rw [← hd]
    rfl
  rw [Submitter.recordResult_pendingResults, hroom]
  rcases Nat.eq_zero_or_pos cap with rfl | hpos
  · -- nothing is kept, and nothing was
    have hnone : d.keys = [] := List.eq_nil_iff_forall_not_mem.mpr fun k hk => by
      simpa using h.mem_keys_iff.mp hk
    have hevicted : evicted 0 d = [] := by simp [evicted, hnone]
    refine iff_of_true ⟨fun taskId => ?_, fun hne => absurd hevicted hne⟩ fun _ => ?_
    · rw [if_pos rfl, List.take_zero, if_neg List.not_mem_nil, Dict.lookup_eq_none_iff,
        Dict.keys_dropFirst, hnone, List.drop_nil]
      exact List.not_mem_nil
    · simp [hnone]
  · rw [if_neg hpos.ne']
    rcases Nat.lt_or_ge d.size cap with hlt | hfull
    · have hevicted : evicted cap d = [] := by
        rw [evicted, show d.size + 1 - cap = 0 by omega, List.take_zero]
      exact iff_of_true ⟨keepsNewest_of_lt h hlt, fun hne => absurd hevicted hne⟩ fun hle =>
        absurd hle (by omega)
    · by_cases hin : call.1 ∈ d.keys
      · refine iff_of_false (fun hboth => ?_) fun horder => (horder hfull).1 hin
        have hsome : evicted cap d ≠ [] := by
          rw [evicted, ne_eq, List.take_eq_nil_iff, not_or]
          exact ⟨by omega, List.ne_nil_of_mem hin⟩
        have hlarge := hboth.2 hsome
        have hsize := h.size
        rw [Dict.size_set_of_mem hin] at hlarge
        omega
      · have hmore : EvictsForRoom cap d call := by
          intro _
          rw [Dict.size_set_of_not_mem hin]
          omega
        rw [and_iff_left hmore, keepsNewest_full_iff h hpos hfull hin]
        exact ⟨fun hhead _ => ⟨hin, hhead⟩, fun horder => (horder hfull).2⟩

end

/-- **The buffer keeps the newest results**, and drops none without need, along all
calls of a sequence exactly if each of them is in order. -/
theorem keeps_newest_iff (cfg : WorkerConfig) (calls : List (String × WorkerResult)) :
    (∀ before call after, calls = before ++ call :: after →
      KeepsNewest cfg.maxPendingResults (before ++ [call])
          (recorded cfg (before ++ [call])).runner.pendingResults ∧
        EvictsForRoom cfg.maxPendingResults (recorded cfg before).runner.pendingResults call) ↔
    ∀ before call after, calls = before ++ call :: after →
      OldestFirst cfg.maxPendingResults before
        (recorded cfg before).runner.pendingResults call.1 := by
  have hsnoc : ∀ before call, recorded cfg (before ++ [call]) =
      (recorded cfg before).recordResult cfg.maxPendingResults call.1 call.2 := by
    intro before call
    simp [recorded]
  have hempty : KeepsNewest cfg.maxPendingResults [] (recorded cfg []).runner.pendingResults := by
    intro taskId
    rw [show recency [] = [] from rfl, List.take_nil, if_neg List.not_mem_nil]
    rfl
  constructor
  · intro hkeeps before call after hcalls
    have hbefore : KeepsNewest cfg.maxPendingResults before
        (recorded cfg before).runner.pendingResults := by
      rcases List.eq_nil_or_concat before with rfl | ⟨earlier, last, rfl⟩
      · exact hempty
      · rw [List.concat_eq_append] at hcalls ⊢
        exact (hkeeps earlier last (call :: after) (by simp [hcalls])).1
    refine (keepsNewest_call_iff (recorded cfg before) hbefore).mp ?_
    rw [← hsnoc]
    exact hkeeps before call after hcalls
  · intro horder
    have hall : ∀ before after, calls = before ++ after →
        KeepsNewest cfg.maxPendingResults before (recorded cfg before).runner.pendingResults := by
      intro before
      induction before using List.reverseRecOn with
      | nil => exact fun _ _ => hempty
      | append_singleton before call ih =>
          intro after hcalls
          rw [List.append_assoc, List.singleton_append] at hcalls
          rw [hsnoc]
          exact ((keepsNewest_call_iff (recorded cfg before) (ih _ hcalls)).mpr
            (horder before call after hcalls)).1
    intro before call after hcalls
    rw [hsnoc]
    exact (keepsNewest_call_iff (recorded cfg before) (hall before _ hcalls)).mpr
      (horder before call after hcalls)

/-! ## Two calls that are not in order -/

namespace Demo

/-- A worker that keeps so many results. -/
def keeping (cap : ℕ) : WorkerConfig where
  maxPendingResults := cap

/-- One result of each task. -/
def results (taskIds : List String) : List (String × WorkerResult) :=
  taskIds.map fun taskId => (taskId, ledgerResult)

end Demo

/-- **A result that needs no room** takes another one's place: the full buffer drops the
result of the first task when the second is recorded again. -/
theorem rerecorded_result_evicts :
    let d := (recorded (Demo.keeping 2) (Demo.results ["first", "second"])).runner.pendingResults
    let d' := (recorded (Demo.keeping 2)
      (Demo.results ["first", "second", "second"])).runner.pendingResults
    evicted 2 d = ["first"] ∧ d'.keys = ["second"] ∧
      recency (Demo.results ["first", "second", "second"]) = ["second", "first"] ∧
      ¬ KeepsNewest 2 (Demo.results ["first", "second", "second"]) d' ∧
      ¬ EvictsForRoom 2 d ("second", Demo.ledgerResult) := by
  intro d d'
  have hevicted : evicted 2 d = ["first"] := rfl
  have hkeys : d'.keys = ["second"] := rfl
  have hrecency : recency (Demo.results ["first", "second", "second"]) = ["second", "first"] := rfl
  refine ⟨hevicted, hkeys, hrecency, fun hnewest => ?_, fun hroom => ?_⟩
  · have hmem : "first" ∈ d'.keys := hnewest.mem_keys_iff.mpr (by rw [hrecency]; simp)
    rw [hkeys] at hmem
    simp at hmem
  · have hlarge := hroom (by rw [hevicted]; simp)
    exact absurd hlarge (by decide)

/-- **The entry that is oldest in the dictionary** need not be the oldest result: the
first task was recorded again after the second, and is dropped for the fourth. -/
theorem updated_result_evicted :
    let calls := Demo.results ["first", "second", "first", "third", "fourth"]
    let d := (recorded (Demo.keeping 3) calls).runner.pendingResults
    d.keys = ["second", "third", "fourth"] ∧
      recency calls = ["fourth", "third", "first", "second"] ∧ ¬ KeepsNewest 3 calls d := by
  intro calls d
  have hkeys : d.keys = ["second", "third", "fourth"] := rfl
  have hrecency : recency calls = ["fourth", "third", "first", "second"] := rfl
  refine ⟨hkeys, hrecency, fun hnewest => ?_⟩
  have hmem : "first" ∈ d.keys := hnewest.mem_keys_iff.mpr (by rw [hrecency]; simp)
  rw [hkeys] at hmem
  simp at hmem

end TaskFleet.Model
