import TaskFleet.Lib.RowLocks

/-!
# What a locking scan has walked past

A transaction of `Locks.system` takes the rows of its snapshot one after the other. Of
every row it has behind it one of three things is known, at any later moment of the
transaction: it was chosen; it failed the re-check, and fails it still, because the
transaction keeps the lock; or another transaction held it when its turn came
(`Run.walk`). Once the writes are there, either nothing is in front of it or the limit is
full.
-/

namespace TaskFleet.Locks

variable {τ σ κ θ δ : Type} [DecidableEq τ]

/-- Among the events `after`, which led from `start` to `s`, connection `c` passed over
`k`, and another transaction held `k` at that moment. -/
def PassedOver (S : Store σ κ θ δ) (c : τ) (start : State τ σ κ θ δ)
    (after : List (Event τ κ θ δ)) (s : State τ σ κ θ δ) (k : κ) : Prop :=
  ∃ cs ds v y rest, after = cs ++ .skip c :: ds ∧ (system τ S).Trace start cs v ∧
    (system τ S).Trace v (.skip c :: ds) s ∧ v.active c = some y ∧ y.todo = k :: rest ∧
    v.HeldByOther c k

/-- The walk of the transaction `x` of connection `c`, which began in `u` with the scan
`scanned`, has brought it to `s` with `passed` behind it. -/
structure Walk (S : Store σ κ θ δ) (c : τ) (x : Txn κ θ δ) (u : State τ σ κ θ δ)
    (scanned passed : List κ) (after : List (Event τ κ θ δ)) (s : State τ σ κ θ δ) : Prop where
  idle : u.active c = none
  snapshot : S.scan x.stmt u.committed scanned
  trace : (system τ S).Trace (u.put c (some ⟨x.stmt, scanned, [], [], none⟩)) after s
  /-- It is still the same transaction. -/
  current : ∀ stmt, Event.begin c stmt ∉ after
  split : scanned = passed ++ x.todo
  chosen : ∀ k ∈ x.chosen, k ∈ passed
  account : ∀ k ∈ passed, k ∈ x.chosen ∨
    (k ∈ x.locked ∧ S.passes x.stmt s.committed k = false) ∨
    PassedOver S c (u.put c (some ⟨x.stmt, scanned, [], [], none⟩)) after s k
  ended : x.writes ≠ none → x.todo = [] ∨ x.chosen.length = S.limit x.stmt

variable {S : Store σ κ θ δ} {agree : List κ → σ → σ → Prop} {c : τ} {x x' : Txn κ θ δ}
  {u s s' : State τ σ κ θ δ} {scanned passed : List κ} {es after : List (Event τ κ θ δ)}
  {e : Event τ κ θ δ}

theorem PassedOver.snoc {start : State τ σ κ θ δ} {k : κ} (h : PassedOver S c start after s k)
    (hstep : Step S s e s') : PassedOver S c start (after ++ [e]) s' k := by
  obtain ⟨cs, ds, v, y, rest, rfl, hfirst, hrest, hy, htodo, hheld⟩ := h
  refine ⟨cs, ds ++ [e], v, y, rest, ?_, hfirst, hrest.snoc hstep, hy, htodo, hheld⟩
  rw [List.append_assoc, List.cons_append]

/-- One event more, after which all that is accounted for stays so. -/
theorem Walk.snoc (h : Walk S c x u scanned passed after s) (hstep : Step S s e s')
    (hcurrent : ∀ stmt, e ≠ .begin c stmt) (hstmt : x'.stmt = x.stmt)
    (hsplit : x'.todo = x.todo) (hchosen : x'.chosen = x.chosen)
    (hlocked : ∀ k ∈ x.locked, S.passes x.stmt s.committed k = false →
      k ∈ x'.locked ∧ S.passes x.stmt s'.committed k = false)
    (hended : x'.writes ≠ none → x'.todo = [] ∨ x'.chosen.length = S.limit x.stmt) :
    Walk S c x' u scanned passed (after ++ [e]) s' := by
  refine ⟨h.idle, hstmt ▸ h.snapshot, hstmt ▸ h.trace.snoc hstep, fun stmt hmem => ?_, ?_,
    hchosen ▸ h.chosen, fun k hk => ?_, hstmt ▸ hended⟩
  · rcases List.mem_append.mp hmem with hold | hnew
    · exact h.current stmt hold
    · exact hcurrent stmt (List.mem_singleton.mp hnew).symm
  · rw [hsplit]
    exact h.split
  · rw [hstmt, hchosen]
    rcases h.account k hk with hc | ⟨hl, hfails⟩ | hpassed
    · exact .inl hc
    · exact .inr (.inl (hlocked k hl hfails))
    · exact .inr (.inr (hpassed.snoc hstep))

/-- How the transaction of a connection got where it is. -/
def Walked (S : Store σ κ θ δ) (c : τ) (x : Txn κ θ δ) (es : List (Event τ κ θ δ))
    (s : State τ σ κ θ δ) : Prop :=
  ∃ before after u scanned passed, es = before ++ .begin c x.stmt :: after ∧
    (system τ S).Run before u ∧ Walk S c x u scanned passed after s

theorem Walked.snoc (h : Walked S c x es s) (hstep : Step S s e s')
    (hcurrent : ∀ stmt, e ≠ .begin c stmt) (hstmt : x'.stmt = x.stmt)
    (hsplit : x'.todo = x.todo) (hchosen : x'.chosen = x.chosen)
    (hlocked : ∀ k ∈ x.locked, S.passes x.stmt s.committed k = false →
      k ∈ x'.locked ∧ S.passes x.stmt s'.committed k = false)
    (hended : x'.writes ≠ none → x'.todo = [] ∨ x'.chosen.length = S.limit x.stmt) :
    Walked S c x' (es ++ [e]) s' := by
  obtain ⟨before, after, u, scanned, passed, rfl, hrun, hwalk⟩ := h
  refine ⟨before, after ++ [e], u, scanned, passed, ?_, hrun,
    hwalk.snoc hstep hcurrent hstmt hsplit hchosen hlocked hended⟩
  rw [hstmt, List.append_assoc, List.cons_append]

/-- The walk moves past the row in front of it. -/
theorem Walked.past (h : Walked S c x es s) (hstep : Step S s e s')
    (hcurrent : ∀ stmt, e ≠ .begin c stmt) (hcommitted : s'.committed = s.committed) {k : κ}
    {rest : List κ} (htodo : x.todo = k :: rest) (hstmt : x'.stmt = x.stmt)
    (htodo' : x'.todo = rest) (hopen : x'.writes = none) (hchosen : ∀ k ∈ x.chosen, k ∈ x'.chosen)
    (honly : ∀ j ∈ x'.chosen, j = k ∨ j ∈ x.chosen) (hlocked : ∀ k ∈ x.locked, k ∈ x'.locked)
    (hk : k ∈ x'.chosen ∨ (k ∈ x'.locked ∧ S.passes x.stmt s.committed k = false) ∨
      (e = .skip c ∧ s.active c = some x ∧ s.HeldByOther c k)) : Walked S c x' (es ++ [e]) s' := by
  obtain ⟨before, after, u, scanned, passed, rfl, hrun, hwalk⟩ := h
  refine ⟨before, after ++ [e], u, scanned, passed ++ [k], ?_, hrun, hwalk.idle,
    hstmt ▸ hwalk.snapshot, hstmt ▸ hwalk.trace.snoc hstep, fun stmt hmem => ?_, ?_, fun j hj => ?_,
    fun j hj => ?_, fun hw => absurd hopen hw⟩
  · rw [hstmt, List.append_assoc, List.cons_append]
  · rcases List.mem_append.mp hmem with hold | hnew
    · exact hwalk.current stmt hold
    · exact hcurrent stmt (List.mem_singleton.mp hnew).symm
  · rw [htodo', List.append_assoc, List.singleton_append, ← htodo]
    exact hwalk.split
  · rcases honly j hj with rfl | hold
    · exact List.mem_append_right _ List.mem_cons_self
    · exact List.mem_append_left _ (hwalk.chosen j hold)
  · rw [hstmt, hcommitted]
    rcases List.mem_append.mp hj with hold | hnew
    · rcases hwalk.account j hold with hc | ⟨hl, hfails⟩ | hpassed
      · exact .inl (hchosen j hc)
      · exact .inr (.inl ⟨hlocked j hl, hfails⟩)
      · exact .inr (.inr (hpassed.snoc hstep))
    · rw [List.mem_singleton.mp hnew]
      rcases hk with hc | hl | ⟨rfl, hx, hheld⟩
      · exact .inl hc
      · exact .inr (.inl hl)
      · exact .inr (.inr ⟨after, [], s, x, rest, rfl, hwalk.trace, .single hstep, hx, htodo,
          hheld⟩)

/-- Whatever happens elsewhere, a transaction's walk goes on. -/
theorem Walked.elsewhere (hS : Lawful S agree) (hinv : Inv S s) (h : Walked S c x es s)
    (hx : s.active c = some x) (hstep : Step S s e s') (hx' : s'.active c = some x)
    (hcurrent : ∀ stmt, e ≠ .begin c stmt) : Walked S c x (es ++ [e]) s' := by
  have hended : x.writes ≠ none → x.todo = [] ∨ x.chosen.length = S.limit x.stmt := by
    obtain ⟨_, _, _, _, _, _, _, hwalk⟩ := h
    exact hwalk.ended
  refine h.snoc hstep hcurrent rfl rfl rfl (fun k hk hfails => ⟨hk, ?_⟩) hended
  cases hstep with
  | @commit d y w hy hwrites hcommits hadm =>
      have hne : c ≠ d := by
        rintro rfl
        rw [State.put_active, if_pos rfl] at hx'
        cases hx'
      have hinvy := hinv.txn d y hy
      have hw := hinvy.staged w hwrites
      subst hw
      have hagree : agree x.locked _ _ := hS.install_agree hadm
        (fun j hj hjx => hne (hinv.exclusive c d x y j hx hy hjx (hinvy.held j hj)))
        (fun j hj => (hinv.txn c x hx).present j (List.mem_append_left _ hj))
      rw [← hfails]
      exact (hS.passes_congr hagree hk x.stmt).symm
  | _ => exact hfails

/-- What is open after one transaction has been put in place: that one, or what was. -/
theorem State.put_active_eq_some {d : τ} {o : Option (Txn κ θ δ)}
    (h : (s.put d o).active c = some x) : c = d ∧ o = some x ∨ c ≠ d ∧ s.active c = some x := by
  rw [State.put_active] at h
  split at h
  · next hcd => exact .inl ⟨hcd, h⟩
  · next hcd => exact .inr ⟨hcd, h⟩

/-- **A walk.** Every open transaction has one. -/
theorem Run.walk (hS : Lawful S agree) (h : (system τ S).Run es s) :
    ∀ c x, s.active c = some x → Walked S c x es s := by
  refine h.invariant (I := fun es s => ∀ c x, s.active c = some x → Walked S c x es s) ?_ ?_
  · rintro s ⟨-, hidle⟩ c x hx
    rw [hidle c] at hx
    cases hx
  · intro es s e s' hrun ih hstep c x' hx'
    have hinv : Inv S s := Reachable.inv hS hrun.reachable
    -- a connection whose transaction the step did not touch
    have hother : (∀ stmt, e ≠ .begin c stmt) → s.active c = some x' →
        Walked S c x' (es ++ [e]) s' := fun hcurrent hx =>
      (ih c x' hx).elsewhere hS hinv hx hstep hx' hcurrent
    cases hstep with
    | @begin d stmt todo hidle hscan =>
        rcases State.put_active_eq_some hx' with ⟨rfl, hnew⟩ | ⟨hcd, hx⟩
        · cases hnew
          exact ⟨es, [], s, todo, [], rfl, hrun, hidle, hscan, .nil,
            fun _ hmem => (List.not_mem_nil hmem), rfl, fun k hk => absurd hk List.not_mem_nil,
            fun k hk => absurd hk List.not_mem_nil, fun hw => absurd rfl hw⟩
        · exact hother (fun stmt' heq => hcd (by cases heq; rfl)) hx
    | @skip d x k rest hx hopen htodo hroom hskip hheld =>
        rcases State.put_active_eq_some hx' with ⟨rfl, hnew⟩ | ⟨hcd, hx⟩
        · cases hnew
          exact (ih c x hx).past (Step.skip hx hopen htodo hroom hskip hheld) (by simp) rfl htodo
            rfl rfl hopen (fun _ h => h) (fun _ h => .inr h) (fun _ h => h)
            (.inr (.inr ⟨rfl, hx, hheld⟩))
        · exact hother (by simp) hx
    | @drop d x k rest hx hopen htodo hroom hfree hfails =>
        rcases State.put_active_eq_some hx' with ⟨rfl, hnew⟩ | ⟨hcd, hx⟩
        · cases hnew
          exact (ih c x hx).past (Step.drop hx hopen htodo hroom hfree hfails) (by simp) rfl htodo
            rfl rfl hopen (fun _ h => h) (fun _ h => .inr h) (fun _ h => .tail _ h)
            (.inr (.inl ⟨.head _, hfails⟩))
        · exact hother (by simp) hx
    | @lock d x k rest hx hopen htodo hroom hfree hpasses =>
        rcases State.put_active_eq_some hx' with ⟨rfl, hnew⟩ | ⟨hcd, hx⟩
        · cases hnew
          exact (ih c x hx).past (Step.lock hx hopen htodo hroom hfree hpasses) (by simp) rfl htodo
            rfl rfl hopen (fun _ h => .tail _ h) (fun _ h => List.mem_cons.mp h)
            (fun _ h => .tail _ h) (.inl (.head _))
        · exact hother (by simp) hx
    | @stage d x hx hopen hend =>
        rcases State.put_active_eq_some hx' with ⟨rfl, hnew⟩ | ⟨hcd, hx⟩
        · cases hnew
          exact (ih c x hx).snoc (Step.stage hx hopen hend) (by simp) rfl rfl rfl
            (fun _ h hfails => ⟨h, hfails⟩) fun _ => hend
        · exact hother (by simp) hx
    | @commit d x w hx hwrites hcommits hadm =>
        rcases State.put_active_eq_some hx' with ⟨rfl, hnew⟩ | ⟨hcd, hx⟩
        · cases hnew
        · exact hother (by simp) hx
    | @rollback d x hx =>
        rcases State.put_active_eq_some hx' with ⟨rfl, hnew⟩ | ⟨hcd, hx⟩
        · cases hnew
        · exact hother (by simp) hx

end TaskFleet.Locks
