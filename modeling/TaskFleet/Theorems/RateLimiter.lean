import TaskFleet.Model.RateLimit
import Mathlib.Data.Finset.Card
import Mathlib.Order.Interval.Finset.Nat
import Mathlib.Algebra.Order.Ring.Rat

/-!
# What the rate limiter admits, and whom it locks out

Every call that is let through saw a count of its own, of at most the limit, so a
window admits no more than the limit whatever fails. The other half rests on one
call: the one that began the window is the only one that sets its end. If it ends
between its two commands the bucket stays, and the source is refused from the moment
the limit is reached (`orphan_refused`). Without such an end every bucket expires
(`rate_limiter_sound_iff`).
-/

namespace TaskFleet.Model

/-- The call `i` is the one that began the window of the bucket, and it is at its
`EXPIRE`. -/
def Limiter.ExpiryDue (s : Limiter) (key : String) (b : Bucket) : Prop :=
  ∃ i c, s.calls i = some c ∧ c.key = key ∧ c.pc = .expire b.window

/-- Every bucket has an end, or a call that is about to set one. -/
def Limiter.Expires (s : Limiter) : Prop :=
  ∀ key b, s.buckets key = some b → b.expiresAt.isSome = true ∨ s.ExpiryDue key b

/-- No window admits more than the limit, and no source is refused for ever: every
bucket has its end, and can go. -/
structure RateLimited (limits : RateLimits) (s : Limiter) : Prop where
  admits : ∀ scope sourceIp window,
    (s.admitted.filter fun a => a.key = ratelimitKey scope sourceIp ∧ a.window = window).length ≤
      (limits.limit scope).toNat
  expires : s.Expires
  unlocks : ∀ key, ∃ es t, (limiter limits).Trace s es t ∧ t.buckets key = none

/-- **The condition.** No call ends between an `INCR` that begins a window and its
`EXPIRE`, nor without the answer to such an `INCR`. -/
def SetsExpiry (s : Limiter) : LimiterEvent → Prop
  | .fail i => ∀ c, s.calls i = some c → ∀ window, c.pc ≠ .expire window
  | .incrLost i => ∀ c, s.calls i = some c → (s.buckets c.key).isSome = true
  | _ => True

/-- A bucket that has counted to `n` at least, has no end, and is owed none. -/
def Limiter.Orphan (s : Limiter) (key : String) (n : ℕ) : Prop :=
  (∃ b, s.buckets key = some b ∧ n ≤ b.count ∧ b.expiresAt = none) ∧
    ∀ i c window, s.calls i = some c → c.key = key → c.pc ≠ .expire window

/-- What holds in every state, whatever fails. -/
structure Windows (limits : RateLimits) (s : Limiter) : Prop where
  begun : ∀ key b, s.buckets key = some b → b.window < s.windows ∧ 1 ≤ b.count
  /-- A call at its `EXPIRE` began the window there is, and nobody was let through with
  its count. -/
  due : ∀ i c window, s.calls i = some c → c.pc = .expire window →
    (∃ b, s.buckets c.key = some b ∧ b.window = window ∧ b.expiresAt = none) ∧
      ∀ a ∈ s.admitted, a.key = c.key → a.window = window → a.count ≠ 1
  /-- It is the only one of its key. -/
  alone : ∀ i j c d v w, s.calls i = some c → s.calls j = some d → c.pc = .expire v →
    d.pc = .expire w →
    c.key = d.key → i = j
  counted : ∀ a ∈ s.admitted, a.window < s.windows ∧ 1 ≤ a.count ∧
    ∀ scope sourceIp, a.key = ratelimitKey scope sourceIp → (a.count : Int) ≤ limits.limit scope
  /-- No count of a window is ahead of its bucket. -/
  behind : ∀ a ∈ s.admitted, ∀ b, s.buckets a.key = some b → a.window = b.window → a.count ≤ b.count
  distinct : s.admitted.Nodup

section

variable {limits : RateLimits} {s t : Limiter} {e : LimiterEvent} {es : List LimiterEvent} {i : ℕ}
  {c : LimiterCall} {key : String}

/-! ## Redis -/

/-- The keys of the two scopes are apart. -/
theorem scope_of_key {scope scope' : RateScope} {sourceIp sourceIp' : String}
    (h : ratelimitKey scope sourceIp = ratelimitKey scope' sourceIp') : scope = scope' := by
  have hlist := congrArg String.toList h
  cases scope <;> cases scope' <;> simp [ratelimitKey, RateScope.name] at hlist ⊢

namespace Limiter

theorem incr_self (s : Limiter) (key : String) : (s.incr key).buckets key = some (s.bumped key) :=
  Function.update_self ..

theorem incr_of_ne {key' : String} (h : key' ≠ key) : (s.incr key).buckets key' = s.buckets key' :=
  Function.update_of_ne h ..

theorem bumped_of_some {b : Bucket} (h : s.buckets key = some b) :
    s.bumped key = { b with count := b.count + 1 } := by
  rw [bumped, h]

theorem bumped_of_none (h : s.buckets key = none) :
    s.bumped key = { count := 1, window := s.windows } := by
  rw [bumped, h]

theorem windows_le_incr (s : Limiter) (key : String) : s.windows ≤ (s.incr key).windows := by
  show s.windows ≤ if (s.buckets key).isSome then s.windows else s.windows + 1
  split <;> omega

theorem goto_self (s : Limiter) (i : ℕ) (c : LimiterCall) (pc : LimiterPc) :
    (s.goto i c pc).calls i = some { c with pc := pc } :=
  Function.update_self ..

theorem goto_of_ne {pc : LimiterPc} {j : ℕ} (h : j ≠ i) : (s.goto i c pc).calls j = s.calls j :=
  Function.update_of_ne h ..

/-- A call at its `EXPIRE`, seen after another one went on. -/
theorem goto_due {pc : LimiterPc} (hpc : ∀ window, pc ≠ .expire window) {j : ℕ}
    {d : LimiterCall} {window : ℕ}
    (hd : (s.goto i c pc).calls j = some d) (hdue : d.pc = .expire window) :
    j ≠ i ∧ s.calls j = some d := by
  by_cases hij : j = i
  · subst hij
    rw [goto_self] at hd
    cases hd
    exact absurd hdue (hpc window)
  · exact ⟨hij, (goto_of_ne hij).symm.trans hd⟩

end Limiter

/-! ## What the parts of an event keep -/

namespace Windows

open Limiter

/-- An `INCR` that begins no window, or whose call is gone. -/
theorem incr (h : Windows limits s) (key : String) : Windows limits (s.incr key) := by
  have hle := s.windows_le_incr key
  refine ⟨fun k b hb => ?_, fun i c window hc hpc => ?_, h.alone, fun a ha => ?_,
    fun a ha b hb hw => ?_,
    h.distinct⟩
  · by_cases hk : k = key
    · subst hk
      rw [incr_self, Option.some.injEq] at hb
      subst hb
      cases hold : s.buckets k with
      | none =>
          rw [bumped_of_none hold]
          refine ⟨?_, le_refl _⟩
          show s.windows < if (s.buckets k).isSome then s.windows else s.windows + 1
          rw [hold]
          exact Nat.lt_succ_self _
      | some b =>
          rw [bumped_of_some hold]
          have hbegun := h.begun k b hold
          exact ⟨show b.window < _ by omega, show 1 ≤ b.count + 1 by omega⟩
    · rw [incr_of_ne hk] at hb
      have hbegun := h.begun k b hb
      exact ⟨by omega, hbegun.2⟩
  · obtain ⟨⟨b, hb, hwindow, hopen⟩, hnone⟩ := h.due i c window hc hpc
    refine ⟨?_, hnone⟩
    by_cases hk : c.key = key
    · subst hk
      refine ⟨_, incr_self s _, ?_⟩
      rw [bumped_of_some hb]
      exact ⟨hwindow, hopen⟩
    · exact ⟨b, (incr_of_ne hk).trans hb, hwindow, hopen⟩
  · have hcounted := h.counted a ha
    exact ⟨by omega, hcounted.2⟩
  · by_cases hk : a.key = key
    · rw [hk, incr_self, Option.some.injEq] at hb
      subst hb
      cases hold : s.buckets key with
      | none =>
          -- the window is new
          rw [bumped_of_none hold] at hw
          have hlt := (h.counted a ha).1
          have heq : a.window = s.windows := hw
          omega
      | some b =>
          rw [bumped_of_some hold] at hw ⊢
          have hbehind := h.behind a ha b (hk ▸ hold) hw
          show a.count ≤ b.count + 1
          omega
    · rw [incr_of_ne hk] at hb
      exact h.behind a ha b hb hw

/-- A call that ends, or begins, moves nothing but itself. -/
theorem goto (h : Windows limits s) {pc : LimiterPc} (hpc : ∀ window, pc ≠ .expire window) (i : ℕ)
    (c : LimiterCall) : Windows limits (s.goto i c pc) := by
  refine ⟨h.begun, fun j d window hd hdue => ?_, fun j k d d' v w hd hd' hv hw hkey => ?_,
    h.counted, h.behind,
    h.distinct⟩
  · exact h.due j d window (goto_due hpc hd hdue).2 hdue
  · exact h.alone j k d d' v w (goto_due hpc hd hv).2 (goto_due hpc hd' hw).2 hv hw hkey

/-- The call that begins a window goes on to its `EXPIRE`. -/
theorem begin (h : Windows limits s) (hnone : s.buckets c.key = none) :
    Windows limits ((s.incr c.key).goto i c (.expire s.windows)) := by
  have hincr := h.incr c.key
  -- nobody else is at the `EXPIRE` of a key that is not there
  have hother : ∀ j d window, ((s.incr c.key).goto i c (.expire s.windows)).calls j = some d →
      d.pc = .expire window → d.key = c.key → j = i := by
    intro j d window hd hdue hkey
    by_contra hij
    rw [goto_of_ne hij] at hd
    obtain ⟨⟨b, hb, -⟩, -⟩ := h.due j d window hd hdue
    rw [hkey, hnone] at hb
    cases hb
  refine ⟨hincr.begun, fun j d window hd hdue => ?_, fun j k d d' v w hd hd' hv hw hkey =>
    ?_, hincr.counted,
    hincr.behind, hincr.distinct⟩
  · by_cases hij : j = i
    · subst hij
      rw [goto_self] at hd
      cases hd
      cases hdue
      have hnew : (s.bumped c.key).window = s.windows ∧ (s.bumped c.key).expiresAt = none := by
        rw [bumped_of_none hnone]
        exact ⟨rfl, rfl⟩
      refine ⟨⟨_, incr_self s _, hnew⟩, fun a ha _ hw => ?_⟩
      have hlt := (h.counted a ha).1
      omega
    · exact hincr.due j d window ((goto_of_ne hij).symm.trans hd) hdue
  · by_cases hij : j = i
    · subst hij
      rw [goto_self] at hd
      cases hd
      exact (hother k d' w hd' hw hkey.symm).symm
    · by_cases hik : k = i
      · subst hik
        rw [goto_self] at hd'
        cases hd'
        exact hother j d v hd hv hkey
      · exact h.alone j k d d' v w ((goto_of_ne hij).symm.trans hd)
          ((goto_of_ne hik).symm.trans hd') hv hw hkey

/-- The `EXPIRE` of the call that began the window. -/
theorem expire (h : Windows limits s) {window : ℕ} (hc : s.calls i = some c)
    (hdue : c.pc = .expire window)
    {pc : LimiterPc} (hpc : ∀ window, pc ≠ .expire window) :
    Windows limits ((s.expire c.key).goto i c pc) := by
  have hsame : ∀ k b, (s.expire c.key).buckets k = some b →
      ∃ b₀, s.buckets k = some b₀ ∧ b.window = b₀.window ∧ b.count = b₀.count := by
    intro k b hb
    by_cases hk : k = c.key
    · subst hk
      simp only [Limiter.expire, Function.update_self, Option.map_eq_some_iff] at hb
      obtain ⟨b₀, hb₀, rfl⟩ := hb
      exact ⟨b₀, hb₀, rfl, rfl⟩
    · exact ⟨b, (Function.update_of_ne hk ..).symm.trans hb, rfl, rfl⟩
  refine ⟨fun k b hb => ?_, fun j d w hd hw => ?_,
    fun j k d d' v w hd hd' hv hw hkey => ?_, h.counted,
    fun a ha b hb hw => ?_, h.distinct⟩
  · obtain ⟨b₀, hb₀, hwindow, hcount⟩ := hsame k b hb
    rw [hwindow, hcount]
    exact h.begun k b₀ hb₀
  · obtain ⟨hij, hd'⟩ := goto_due hpc hd hw
    obtain ⟨⟨b, hb, hwindow, hopen⟩, hnone⟩ := h.due j d w hd' hw
    have hkey : d.key ≠ c.key := fun hkey => hij (h.alone j i d c w window hd' hc hw hdue hkey)
    exact ⟨⟨b, (Function.update_of_ne hkey ..).trans hb, hwindow, hopen⟩, hnone⟩
  · exact h.alone j k d d' v w (goto_due hpc hd hv).2 (goto_due hpc hd' hw).2 hv hw hkey
  · obtain ⟨b₀, hb₀, hwindow, hcount⟩ := hsame a.key b hb
    rw [hcount]
    exact h.behind a ha b₀ hb₀ (hw.trans hwindow)

/-- Somebody is let through with a count of his own. -/
theorem letThrough (h : Windows limits s) {a : LimiterAdmission} (hwindow : a.window < s.windows)
    (hcount : 1 ≤ a.count)
    (hlimit : ∀ scope sourceIp, a.key = ratelimitKey scope sourceIp →
      (a.count : Int) ≤ limits.limit scope)
    (hbehind : ∀ b, s.buckets a.key = some b → a.window = b.window → a.count ≤ b.count)
    (hown : ∀ a' ∈ s.admitted, a'.key = a.key → a'.window = a.window → a'.count ≠ a.count)
    (hdue : ∀ i c window, s.calls i = some c → c.pc = .expire window → a.key = c.key →
      a.window = window →
      a.count ≠ 1) : Windows limits { s with admitted := s.admitted ++ [a] } := by
  have hcases : ∀ a' ∈ s.admitted ++ [a], a' ∈ s.admitted ∨ a' = a := by
    intro a' ha'
    rwa [List.mem_append, List.mem_singleton] at ha'
  refine ⟨h.begun, fun i c window hc hpc => ?_, h.alone, fun a' ha' => ?_,
    fun a' ha' b hb hw => ?_, ?_⟩
  · obtain ⟨hbucket, hnone⟩ := h.due i c window hc hpc
    refine ⟨hbucket, fun a' ha' hkey hw => ?_⟩
    rcases hcases a' ha' with hold | rfl
    · exact hnone a' hold hkey hw
    · exact hdue i c window hc hpc hkey hw
  · rcases hcases a' ha' with hold | rfl
    · exact h.counted a' hold
    · exact ⟨hwindow, hcount, hlimit⟩
  · rcases hcases a' ha' with hold | rfl
    · exact h.behind a' hold b hb hw
    · exact hbehind b hb hw
  · refine List.Nodup.append h.distinct (List.nodup_singleton a) fun a' ha' hmem => ?_
    rw [List.mem_singleton.mp hmem] at ha'
    exact hown a ha' rfl rfl rfl

/-- Time takes buckets away, but none that has no end. -/
theorem elapse (h : Windows limits s) (now : Seconds) : Windows limits
    { s with clock := now, buckets := fun key => (s.buckets key).filter (unexpired now) } := by
  have hleft : ∀ k b, (s.buckets k).filter (unexpired now) = some b → s.buckets k = some b :=
    fun k b hb => (Option.filter_eq_some_iff.mp hb).1
  refine ⟨fun k b hb => h.begun k b (hleft k b hb), fun i c window hc hpc => ?_, h.alone, h.counted,
    fun a ha b hb hw => h.behind a ha b (hleft a.key b hb) hw, h.distinct⟩
  obtain ⟨⟨b, hb, hwindow, hopen⟩, hnone⟩ := h.due i c window hc hpc
  refine ⟨⟨b, ?_, hwindow, hopen⟩, hnone⟩
  show (s.buckets c.key).filter (unexpired now) = some b
  rw [hb, Option.filter_eq_some_iff]
  exact ⟨rfl, by rw [unexpired, hopen]⟩

/-- The verdict of a call on the count it saw. -/
theorem verdict (hgone : ∀ limited, Windows limits (s.goto i c (.returned limited)))
    {window count : ℕ}
    (hwindow : window < s.windows) (hcount : 1 ≤ count)
    (hbehind : ∀ b, s.buckets c.key = some b → window = b.window → count ≤ b.count)
    (hown : ∀ a ∈ s.admitted, a.key = c.key → a.window = window → a.count ≠ count)
    (hdue : ∀ j d w, j ≠ i → s.calls j = some d → d.pc = .expire w → d.key = c.key →
      w = window → count ≠ 1) :
    Windows limits (s.verdict limits i c window count) := by
  unfold Limiter.verdict
  split
  · exact hgone true
  · next hadmitted =>
      refine (hgone false).letThrough (a := ⟨c.key, window, count⟩) hwindow hcount
        (fun scope sourceIp hkey => ?_)
        hbehind hown fun j d w hd hw hkey hwin => ?_
      · rw [← scope_of_key hkey]
        exact not_lt.mp hadmitted
      · obtain ⟨hij, hd'⟩ := goto_due (by simp) hd hw
        exact hdue j d w hij hd' hw hkey.symm hwin.symm

/-! ## One event -/

/-- An `INCR` answers 1 exactly when it begins the window. -/
theorem count_eq_one_iff (h : Windows limits s) : (s.bumped key).count = 1 ↔
    s.buckets key = none := by
  cases hold : s.buckets key with
  | none => simp [bumped_of_none hold]
  | some b =>
      have hpos := (h.begun key b hold).2
      have hcount : (s.bumped key).count = b.count + 1 := by rw [bumped_of_some hold]
      simp only [hcount, reduceCtorEq, iff_false]
      omega

/-- A call that begins no window has the largest count of it so far. -/
theorem counts (h : Windows limits s) (hmore : ¬ (s.bumped c.key).count = 1) (i : ℕ) :
    Windows limits ((s.incr c.key).verdict limits i c (s.bumped c.key).window
      (s.bumped c.key).count) := by
  have hincr := h.incr c.key
  obtain ⟨b, hb⟩ := Option.ne_none_iff_exists'.mp fun hnone =>
    hmore (h.count_eq_one_iff.mpr hnone)
  have hbegun := hincr.begun c.key _ (incr_self s c.key)
  refine verdict (fun limited => hincr.goto (by simp) i c) hbegun.1 hbegun.2
    (fun b' hb' _ => ?_) (fun a ha hkey hwin => ?_) fun _ _ _ _ _ _ _ _ => hmore
  · rw [incr_self, Option.some.injEq] at hb'
    rw [hb']
  · -- everybody before it saw less
    rw [bumped_of_some hb] at hwin ⊢
    have hle := h.behind a ha b (hkey ▸ hb) hwin
    show a.count ≠ b.count + 1
    omega

/-- The call that began the window is let through with the count 1. -/
theorem settles (h : Windows limits s) {window : ℕ} (hc : s.calls i = some c)
    (hpc : c.pc = .expire window) :
    Windows limits ((s.expire c.key).verdict limits i c window 1) := by
  obtain ⟨⟨b, hb, hwin, -⟩, hnone⟩ := h.due i c window hc hpc
  have hgone : ∀ limited, Windows limits ((s.expire c.key).goto i c (.returned limited)) :=
    fun limited => h.expire hc hpc (by simp)
  have hwindow : window < s.windows := hwin ▸ (h.begun c.key b hb).1
  refine verdict hgone hwindow (le_refl 1) (fun b' hb' _ => ?_) hnone
    fun j d w hij hd hw hkey _ => ?_
  · exact ((hgone true).begun c.key b' hb').2
  · exact absurd (h.alone j i d c w window hd hc hw hpc hkey) hij

/-- Whatever happens, and whatever fails. -/
theorem step (h : Windows limits s) (hstep : s.next limits e = some t) : Windows limits t := by
  cases next_move hstep with
  | call hnew => exact h.goto (by simp) _ _
  | @begins i c hc hpc hone =>
      have hnone := h.count_eq_one_iff.mp hone
      rw [show (s.bumped c.key).window = s.windows by rw [bumped_of_none hnone]]
      exact h.begin hnone
  | counts hc hpc hmore => exact h.counts hmore _
  | incrLost hc hpc => exact (h.incr _).goto (by simp) _ _
  | expire hc hpc => exact h.settles hc hpc
  | expireLost hc hpc => exact h.expire hc hpc (by simp)
  | fail hc => exact h.goto (by simp) _ _
  | elapse => exact h.elapse _

/-- Nothing fails in the beginning, because nothing has happened. -/
theorem reachable (h : (limiter limits).Reachable s) : Windows limits s := by
  refine h.invariant (fun s hs => ?_) fun s e t _ hw hstep => hw.step hstep
  obtain rfl : s = {} := hs
  exact ⟨by simp, by simp, by simp, by simp, by simp, List.nodup_nil⟩

/-- **No window admits more than the limit.** Those it admitted saw different counts,
each of at most the limit. -/
theorem admits (h : Windows limits s) (scope : RateScope) (sourceIp : String) (window : ℕ) :
    (s.admitted.filter fun a => a.key = ratelimitKey scope sourceIp ∧ a.window = window).length ≤
      (limits.limit scope).toNat := by
  let inWindow := s.admitted.filter fun a => a.key = ratelimitKey scope sourceIp ∧ a.window = window
  have hmem : ∀ a ∈ inWindow, a ∈ s.admitted ∧ a.key = ratelimitKey scope sourceIp ∧
      a.window = window := by
    intro a ha
    simpa [inWindow] using ha
  have hcounts : (inWindow.map LimiterAdmission.count).Nodup := by
    refine (h.distinct.filter _).map_on fun a ha a' ha' hcount => ?_
    obtain ⟨-, hkey, hwin⟩ := hmem a ha
    obtain ⟨-, hkey', hwin'⟩ := hmem a' ha'
    cases a
    cases a'
    simp_all
  have hrange : ∀ n ∈ inWindow.map LimiterAdmission.count,
      n ∈ Finset.Icc 1 (limits.limit scope).toNat := by
    intro n hn
    obtain ⟨a, ha, rfl⟩ := List.mem_map.mp hn
    obtain ⟨hadm, hkey, -⟩ := hmem a ha
    obtain ⟨-, hpos, hlimit⟩ := h.counted a hadm
    have hle := hlimit scope sourceIp hkey
    rw [Finset.mem_Icc]
    omega
  calc inWindow.length = (inWindow.map LimiterAdmission.count).toFinset.card := by
        rw [List.toFinset_card_of_nodup hcounts, List.length_map]
    _ ≤ (Finset.Icc 1 (limits.limit scope).toNat).card :=
        Finset.card_le_card fun n hn => hrange n (List.mem_toFinset.mp hn)
    _ = (limits.limit scope).toNat := by simp

end Windows

/-! ## Which steps leave a bucket without an end -/

namespace Limiter

/-- A call goes on that owes no bucket its end. -/
theorem Expires.goto (h : s.Expires) (hc : s.calls i = some c)
    (hpaid : ∀ window, c.pc = .expire window → ∀ b, s.buckets c.key = some b →
      b.expiresAt.isSome = true)
    (pc : LimiterPc) : (s.goto i c pc).Expires := by
  intro key b hb
  rcases h key b hb with hend | ⟨j, d, hd, hkey, hdue⟩
  · exact .inl hend
  · by_cases hij : j = i
    · subst hij
      obtain rfl : c = d := Option.some.inj (hc.symm.trans hd)
      subst hkey
      exact .inl (hpaid b.window hdue b hb)
    · exact .inr ⟨j, d, (goto_of_ne hij).trans hd, hkey, hdue⟩

/-- An `INCR` of a bucket that is there leaves its end alone. -/
theorem Expires.incr (h : s.Expires) (hsome : (s.buckets key).isSome = true) :
    (s.incr key).Expires := by
  obtain ⟨b₀, hb₀⟩ := Option.isSome_iff_exists.mp hsome
  intro k b hb
  by_cases hk : k = key
  · subst hk
    rw [incr_self, bumped_of_some hb₀, Option.some.injEq] at hb
    subst hb
    exact h k b₀ hb₀
  · rw [incr_of_ne hk] at hb
    exact h k b hb

/-- What `EXPIRE` leaves has an end. -/
theorem expire_isSome {b : Bucket} (hb : (s.expire key).buckets key = some b) :
    b.expiresAt.isSome = true := by
  simp only [Limiter.expire, Function.update_self, Option.map_eq_some_iff] at hb
  obtain ⟨b₀, -, rfl⟩ := hb
  rfl

theorem Expires.expire (h : s.Expires) (key : String) : (s.expire key).Expires := by
  intro k b hb
  by_cases hk : k = key
  · subst hk
    exact .inl (expire_isSome hb)
  · exact h k b ((Function.update_of_ne hk ..).symm.trans hb)

/-- The call that begins a window owes it the end. -/
theorem Expires.begin (h : s.Expires) (hc : s.calls i = some c) (hpc : c.pc = .incr)
    (hnone : s.buckets c.key = none) : ((s.incr c.key).goto i c (.expire s.windows)).Expires := by
  intro k b hb
  have hb : (s.incr c.key).buckets k = some b := hb
  by_cases hk : k = c.key
  · subst hk
    rw [incr_self, bumped_of_none hnone, Option.some.injEq] at hb
    subst hb
    exact .inr ⟨i, _, goto_self _ i c _, rfl, rfl⟩
  · rw [incr_of_ne hk] at hb
    have hsame := h.goto hc (by simp [hpc]) (.expire s.windows) k b hb
    exact hsame

theorem Expires.verdict {window count : ℕ}
    (h : ∀ limited, (s.goto i c (.returned limited)).Expires) :
    (s.verdict limits i c window count).Expires := by
  unfold Limiter.verdict
  split
  · exact h true
  · exact h false

/-- A call begins. -/
theorem Expires.call (h : s.Expires) (hnone : s.calls i = none) (c : LimiterCall)
    (pc : LimiterPc) : (s.goto i c pc).Expires := by
  intro key b hb
  rcases h key b hb with hend | ⟨j, d, hd, hdue⟩
  · exact .inl hend
  · have hij : j ≠ i := by
      intro hij
      subst hij
      rw [hnone] at hd
      cases hd
    exact .inr ⟨j, d, (goto_of_ne hij).trans hd, hdue⟩

/-- An `INCR` is answered that began no window. -/
theorem Expires.counts (h : s.Expires) (hw : Windows limits s) (hc : s.calls i = some c)
    (hpc : c.pc = .incr) (hmore : ¬ (s.bumped c.key).count = 1) {window count : ℕ} :
    ((s.incr c.key).verdict limits i c window count).Expires := by
  have hsome := Option.isSome_iff_ne_none.mpr fun hnone => hmore (hw.count_eq_one_iff.mpr hnone)
  exact .verdict fun limited => (h.incr hsome).goto hc (by simp [hpc]) _

/-- An `INCR` without its answer leaves the end to nobody, unless it began no window. -/
theorem Expires.incrLost_iff (h : s.Expires) (hw : Windows limits s) (hc : s.calls i = some c)
    (hpc : c.pc = .incr) :
    ((s.incr c.key).goto i c .raised).Expires ↔ (s.buckets c.key).isSome = true := by
  constructor
  · intro ht
    rw [Option.isSome_iff_ne_none]
    intro hnone
    rcases ht c.key _ (incr_self s c.key) with hend | ⟨j, d, hd, hkey, hdue⟩
    · rw [bumped_of_none hnone] at hend
      cases hend
    · -- nobody else owes the end of a bucket that was not there
      obtain ⟨-, hd⟩ := goto_due (by simp) hd hdue
      obtain ⟨⟨b, hb, -⟩, -⟩ := hw.due j d _ hd hdue
      rw [hkey, hnone] at hb
      cases hb
  · intro hsome
    exact (h.incr hsome).goto hc (by simp [hpc]) _

/-- After the `EXPIRE` the call owes nothing. -/
theorem Expires.settled (h : s.Expires) (hc : s.calls i = some c) (pc : LimiterPc) :
    ((s.expire c.key).goto i c pc).Expires :=
  (h.expire c.key).goto hc (fun _ _ _ hb => expire_isSome hb) pc

/-- A call that ends without its command owed nothing. -/
theorem Expires.raised_iff (h : s.Expires) (hw : Windows limits s) (hc : s.calls i = some c) :
    (s.goto i c .raised).Expires ↔ ∀ window, c.pc ≠ .expire window := by
  constructor
  · intro ht window hdue
    obtain ⟨⟨b, hb, hwin, hopen⟩, -⟩ := hw.due i c window hc hdue
    rcases ht c.key b hb with hend | ⟨j, d, hd, hkey, hdue'⟩
    · rw [hopen] at hend
      cases hend
    · -- nobody else owes the end that the call owed
      obtain ⟨hij, hd⟩ := goto_due (by simp) hd hdue'
      exact hij (hw.alone j i d c _ window hd hc hdue' hdue hkey)
  · intro howes
    exact h.goto hc (fun window hdue => absurd hdue (howes window)) _

/-- Time takes only buckets that have their end. -/
theorem Expires.elapse (h : s.Expires) (now : Seconds) : Expires
    { s with clock := now, buckets := fun key => (s.buckets key).filter (unexpired now) } :=
  fun key b hb => h key b (Option.filter_eq_some_iff.mp hb).1

/-- What the condition asks, it asks of the call there is. -/
theorem setsExpiry_incrLost (hc : s.calls i = some c) :
    SetsExpiry s (.incrLost i) ↔ (s.buckets c.key).isSome = true := by
  simp only [SetsExpiry, hc, Option.some.injEq, forall_eq']

theorem setsExpiry_fail (hc : s.calls i = some c) :
    SetsExpiry s (.fail i) ↔ ∀ window, c.pc ≠ .expire window := by
  simp only [SetsExpiry, hc, Option.some.injEq, forall_eq']

/-- **One event.** It leaves a bucket without an end exactly if it is the end of the
call that owed it. -/
theorem expires_step (hw : Windows limits s) (h : s.Expires) (hstep : s.next limits e = some t) :
    t.Expires ↔ SetsExpiry s e := by
  cases next_move hstep with
  | call hnew => exact iff_of_true (h.call hnew _ _) trivial
  | @begins i c hc hpc hone =>
      have hnone := hw.count_eq_one_iff.mp hone
      rw [show (s.bumped c.key).window = s.windows by rw [bumped_of_none hnone]]
      exact iff_of_true (h.begin hc hpc hnone) trivial
  | counts hc hpc hmore => exact iff_of_true (h.counts hw hc hpc hmore) trivial
  | incrLost hc hpc => exact (h.incrLost_iff hw hc hpc).trans (setsExpiry_incrLost hc).symm
  | expire hc hpc => exact iff_of_true (.verdict fun limited => h.settled hc _) trivial
  | expireLost hc hpc => exact iff_of_true (h.settled hc _) trivial
  | fail hc => exact (h.raised_iff hw hc).trans (setsExpiry_fail hc).symm
  | elapse => exact iff_of_true (h.elapse _) trivial

/-! ## Buckets that can go, and buckets that stay -/

/-- At its end the bucket is gone. -/
theorem elapse_none (limits : RateLimits) {b : Bucket} {at_ : Seconds} (hb : s.buckets key = some b)
    (hend : b.expiresAt = some at_) :
    ∃ e t, s.next limits e = some t ∧ t.buckets key = none := by
  refine ⟨.elapse (max s.clock at_), _, if_pos (le_max_left _ _), ?_⟩
  show (s.buckets key).filter (unexpired (max s.clock at_)) = none
  rw [hb, Option.filter_eq_none_iff]
  intro b' hb'
  cases hb'
  have hnot : ¬ max s.clock at_ < at_ := not_lt.mpr (le_max_right _ _)
  simp only [unexpired, hend, hnot, decide_false, Bool.false_eq_true, not_false_eq_true]

/-- Where no bucket stays for ever, each can be gone next, or after one `EXPIRE`. -/
theorem Expires.unlocks (h : s.Expires) (key : String) :
    ∃ es t, (limiter limits).Trace s es t ∧ t.buckets key = none := by
  cases hb : s.buckets key with
  | none => exact ⟨[], s, .nil, hb⟩
  | some b =>
      rcases h key b hb with hend | ⟨i, c, hc, rfl, hdue⟩
      · obtain ⟨at_, hat⟩ := Option.isSome_iff_exists.mp hend
        obtain ⟨e, t, hstep, hnone⟩ := elapse_none limits hb hat
        exact ⟨[e], t, .single hstep, hnone⟩
      · have hstep : s.next limits (.expireLost i) = some ((s.expire c.key).goto i c .raised) := by
          simp only [next, hc, hdue]
        have hset : ((s.expire c.key).goto i c .raised).buckets c.key =
            some { b with expiresAt := some (s.clock + rateLimitWindowSeconds) } := by
          simp only [Limiter.goto, Limiter.expire, Function.update_self, hb, Option.map_some]
        obtain ⟨e, t, hlast, hnone⟩ := elapse_none limits hset rfl
        exact ⟨[.expireLost i, e], t, .cons hstep (.single hlast), hnone⟩

/-- A call of another key goes on, or one that owes nothing afterwards. -/
theorem Orphan.goto {n : ℕ} (h : s.Orphan key n) {pc : LimiterPc}
    (hpc : c.key = key → ∀ window, pc ≠ .expire window) (i : ℕ) : (s.goto i c pc).Orphan key n := by
  refine ⟨h.1, fun j d window hd hkey => ?_⟩
  by_cases hij : j = i
  · subst hij
    rw [goto_self] at hd
    cases hd
    exact hpc hkey window
  · exact h.2 j d window ((goto_of_ne hij).symm.trans hd) hkey

theorem Orphan.incr {n : ℕ} (h : s.Orphan key n) (key' : String) : (s.incr key').Orphan key n := by
  obtain ⟨⟨b, hb, hn, hopen⟩, hcalls⟩ := h
  refine ⟨?_, hcalls⟩
  by_cases hk : key = key'
  · subst hk
    refine ⟨_, incr_self s key, ?_⟩
    rw [bumped_of_some hb]
    exact ⟨Nat.le_succ_of_le hn, hopen⟩
  · exact ⟨b, (incr_of_ne hk).trans hb, hn, hopen⟩

/-- An `EXPIRE` is of another key. -/
theorem Orphan.expire {n : ℕ} (h : s.Orphan key n) {window : ℕ} (hc : s.calls i = some c)
    (hdue : c.pc = .expire window) : (s.expire c.key).Orphan key n := by
  obtain ⟨⟨b, hb, hopen⟩, hcalls⟩ := h
  have hk : key ≠ c.key := fun hk => hcalls i c window hc hk.symm hdue
  exact ⟨⟨b, (Function.update_of_ne hk ..).trans hb, hopen⟩, hcalls⟩

theorem Orphan.verdict {n window count : ℕ} (h : s.Orphan key n) :
    (s.verdict limits i c window count).Orphan key n := by
  unfold Limiter.verdict
  split
  · exact h.goto (fun _ => by simp) i
  · exact h.goto (fun _ => by simp) i

/-- Nothing gives such a bucket an end, and nothing takes from its count. -/
theorem Orphan.step {n : ℕ} (hw : Windows limits s) (h : s.Orphan key n)
    (hstep : s.next limits e = some t) :
    t.Orphan key n := by
  cases next_move hstep with
  | call hnew => exact h.goto (fun _ => by simp) _
  | @begins i c hc hpc hone =>
      refine (h.incr c.key).goto (fun hkey => ?_) i
      -- the bucket is there, so no window begins
      obtain ⟨⟨b, hb, -⟩, -⟩ := h
      rw [← hkey, hw.count_eq_one_iff.mp hone] at hb
      cases hb
  | counts hc hpc hmore => exact (h.incr _).verdict
  | incrLost hc hpc => exact (h.incr _).goto (fun _ => by simp) _
  | expire hc hpc => exact (h.expire hc hpc).verdict
  | expireLost hc hpc => exact (h.expire hc hpc).goto (fun _ => by simp) _
  | fail hc => exact h.goto (fun _ => by simp) _
  | elapse =>
      obtain ⟨⟨b, hb, hn, hopen⟩, hcalls⟩ := h
      refine ⟨⟨b, ?_, hn, hopen⟩, hcalls⟩
      show (s.buckets key).filter (unexpired _) = some b
      rw [hb, Option.filter_eq_some_iff]
      exact ⟨rfl, by rw [unexpired, hopen]⟩

theorem Orphan.trace {n : ℕ} (hs : (limiter limits).Reachable s) (h : s.Orphan key n)
    (htrace : (limiter limits).Trace s es t) : t.Orphan key n := by
  induction htrace with
  | nil => exact h
  | snoc htrace hstep ih =>
      obtain ⟨past, hpast⟩ := hs
      exact ih.step (Windows.reachable (hpast.extend htrace).reachable) hstep

/-- **Locked out.** Once such a bucket has counted to the limit, every call of its
source is refused, however much later. -/
theorem orphan_refused {n : ℕ} (hs : (limiter limits).Reachable s) (h : s.Orphan key n)
    (htrace : (limiter limits).Trace s es t) (hc : t.calls i = some c) (hkey : c.key = key)
    (hpc : c.pc = .incr)
    (hlimit : limits.limit c.scope ≤ n) :
    t.next limits (.incr i) = some ((t.incr key).goto i c (.returned true)) := by
  have ht := h.trace hs htrace
  have hw : Windows limits t := by
    obtain ⟨past, hpast⟩ := hs
    exact Windows.reachable (hpast.extend htrace).reachable
  obtain ⟨⟨b, hb, hn, -⟩, -⟩ := ht
  have hcount : (t.bumped key).count = b.count + 1 := by rw [bumped_of_some hb]
  have hpos := (hw.begun key b hb).2
  have hover : limits.limit c.scope < ((b.count + 1 : ℕ) : Int) := by omega
  simp only [next, hc, hpc, hkey, hcount, if_true]
  rw [if_neg (by omega), Limiter.verdict, if_pos hover]

end Limiter

/-! ## Every run -/

/-- **The rate limiter.** However its calls meet, on any replicas, and however they
end: no window admits more than its limit and no source is refused for ever, all the
way, exactly if no call ends that owes its bucket the end. -/
theorem rate_limiter_sound_iff (h : (limiter limits).Trace {} es t) :
    ((limiter limits).guarded SetsExpiry).Trace {} es t ↔
      ∀ as bs u, es = as ++ bs → (limiter limits).Trace {} as u → RateLimited limits u := by
  refine h.guarded_iff (limiter_deterministic limits) (fun s hs => ?_)
    (fun s e u hs hstep hlim => ?_) rfl
  · obtain rfl : s = {} := hs
    have hexpires : Limiter.Expires {} := by
      intro key b hb
      cases hb
    exact ⟨fun _ _ _ => Nat.zero_le _, hexpires, hexpires.unlocks⟩
  · have hw := Windows.reachable hs
    rw [← Limiter.expires_step hw hlim.expires hstep]
    exact ⟨RateLimited.expires, fun hexpires =>
      ⟨(hw.step hstep).admits, hexpires, hexpires.unlocks⟩⟩

/-- Two registrations from one address, the first of them done with both commands. -/
def Demo.registrations : List LimiterEvent :=
  [.call 0 .register "10.0.0.7", .incr 0, .expire 0, .call 1 .register "10.0.0.7", .incr 1]

theorem rate_limiter_sound_registrations : ∃ t, (limiter {}).Trace {} Demo.registrations t ∧
    ∀ as bs u, Demo.registrations = as ++ bs → (limiter {}).Trace {} as u → RateLimited {} u := by
  have hrun : ∃ t, ((limiter {}).guarded SetsExpiry).Trace {} Demo.registrations t :=
    ⟨_, .cons ⟨rfl, trivial⟩ <| .cons ⟨rfl, trivial⟩ <| .cons ⟨rfl, trivial⟩ <|
      .cons ⟨rfl, trivial⟩ <|
      .cons ⟨rfl, trivial⟩ .nil⟩
  obtain ⟨t, ht⟩ := hrun
  exact ⟨t, ht.of_guarded, (rate_limiter_sound_iff ht.of_guarded).mp ht⟩

/-- The first registration from an address ends between its two commands, and four
more follow. -/
def Demo.cutOff : List LimiterEvent :=
  [.call 0 .register "10.0.0.7", .incr 0, .fail 0]

def Demo.cutOffThenFour : List LimiterEvent :=
  [.call 1 .register "10.0.0.7", .incr 1, .call 2 .register "10.0.0.7", .incr 2,
    .call 3 .register "10.0.0.7", .incr 3, .call 4 .register "10.0.0.7", .incr 4]

/-- The bucket never goes, and every later registration from the address is refused. -/
theorem address_locked_out : ∃ s t, (limiter {}).Trace {} Demo.cutOff s ∧ ¬ RateLimited {} s ∧
    (limiter {}).Trace s Demo.cutOffThenFour t ∧
      ∀ es u i c, (limiter {}).Trace t es u → u.calls i = some c → c.scope = .register →
        c.sourceIp = "10.0.0.7" → c.pc = .incr →
          ∃ v, u.next {} (.incr i) = some v ∧ v.calls i = some { c with pc := .returned true } := by
  obtain ⟨s, t, hs, ht, horphan, b, hb, hcount⟩ : ∃ s t, (limiter {}).Trace {} Demo.cutOff s ∧
      (limiter {}).Trace s Demo.cutOffThenFour t ∧ s.Orphan "register:ratelimit:10.0.0.7" 1 ∧
        ∃ b, t.buckets "register:ratelimit:10.0.0.7" = some b ∧ b.count = 5 := by
    refine ⟨_, _, .cons rfl <| .cons rfl <| .cons rfl .nil, .cons rfl <| .cons rfl <|
      .cons rfl <| .cons rfl <|
      .cons rfl <| .cons rfl <| .cons rfl <| .cons rfl .nil,
        ⟨⟨_, rfl, le_refl _, rfl⟩, ?_⟩, _, rfl, rfl⟩
    intro i c window hc _ hdue
    obtain ⟨hi, hc⟩ := Limiter.goto_due (by simp) hc hdue
    rw [Limiter.goto_of_ne hi] at hc
    have hc := (Function.update_of_ne hi ..).symm.trans hc
    cases hc
  have hreach : (limiter {}).Reachable s := ⟨_, _, rfl, hs⟩
  refine ⟨s, t, hs, fun hlim => ?_, ht, fun es u i c hu hc hscope hip hpc => ?_⟩
  · obtain ⟨es, u, hu, hnone⟩ := hlim.unlocks "register:ratelimit:10.0.0.7"
    obtain ⟨⟨b', hb', -⟩, -⟩ := horphan.trace hreach hu
    rw [hnone] at hb'
    cases hb'
  · have hlast := horphan.trace hreach ht
    have hfive : t.Orphan "register:ratelimit:10.0.0.7" 5 := by
      obtain ⟨⟨b', hb', -, hopen⟩, hcalls⟩ := hlast
      obtain rfl : b = b' := Option.some.inj (hb.symm.trans hb')
      exact ⟨⟨b, hb, hcount.ge, hopen⟩, hcalls⟩
    have hkey : c.key = "register:ratelimit:10.0.0.7" := by rw [LimiterCall.key, hscope, hip]; rfl
    have hfrom : (limiter {}).Reachable t := ⟨_, _, rfl, hs.append ht⟩
    refine ⟨_, Limiter.orphan_refused hfrom hfive hu hc hkey hpc ?_, Limiter.goto_self ..⟩
    rw [hscope]
    decide

end

end TaskFleet.Model
