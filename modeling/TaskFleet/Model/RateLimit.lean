import TaskFleet.Lib.Trace
import TaskFleet.Model.Config
import TaskFleet.Model.Tables
import Mathlib.Logic.Function.Basic

/-!
# `main.py`: the rate limiter

`_fixed_window_limited` sends Redis two commands, and the second only where the first
created the counter. Any number of calls, on any replicas, are between them at once,
and a call may end at either await, with its command executed or not.
-/

namespace TaskFleet.Model

/-- The two callers, `_rate_limited` and `_operator_guard`, by the scope they name. -/
inductive RateScope where
  | register
  | taskapi
  deriving DecidableEq, Repr

def RateScope.name : RateScope → String
  | .register => "register"
  | .taskapi => "taskapi"

/-- The two limits. -/
structure RateLimits where
  registerRateLimitPerMinute : Int := 5
  taskApiRateLimitPerMinute : Int := 300

/-- The `limit` a caller passes. -/
def RateLimits.limit (limits : RateLimits) : RateScope → Int
  | .register => limits.registerRateLimitPerMinute
  | .taskapi => limits.taskApiRateLimitPerMinute

/-- `RATE_LIMIT_WINDOW_SECONDS` -/
def rateLimitWindowSeconds : Seconds := 60

/-- The `key` of a call. -/
def ratelimitKey (scope : RateScope) (sourceIp : String) : String :=
  scope.name ++ ":ratelimit:" ++ sourceIp

/-- What Redis has under a key. -/
structure Bucket where
  count : ℕ
  expiresAt : Option Seconds := none
  /-- Which window of all windows this one is, which no code reads. -/
  window : ℕ

/-- The await a call stands at, or how it ended. -/
inductive LimiterPc where
  | incr
  /-- Its `INCR` made the count 1, in this window. -/
  | expire (window : ℕ)
  | returned (limited : Bool)
  | raised
  deriving DecidableEq, Repr

/-- One call of `_fixed_window_limited`. -/
structure LimiterCall where
  scope : RateScope
  sourceIp : String
  pc : LimiterPc := .incr

def LimiterCall.key (c : LimiterCall) : String := ratelimitKey c.scope c.sourceIp

/-- A call that was not refused, with the count it saw. -/
structure LimiterAdmission where
  key : String
  window : ℕ
  count : ℕ
  deriving DecidableEq, Repr

/-- Redis, and the calls that use it. -/
structure Limiter where
  clock : Seconds := 0
  buckets : String → Option Bucket := fun _ => none
  calls : ℕ → Option LimiterCall := fun _ => none
  /-- How many windows have begun, which no code reads. -/
  windows : ℕ := 0
  /-- Every call that was let through, which no code reads either. -/
  admitted : List LimiterAdmission := []

namespace Limiter

/-- What `INCR` makes of a bucket. It leaves the time to live alone. -/
def bumped (s : Limiter) (key : String) : Bucket :=
  match s.buckets key with
  | some b => { b with count := b.count + 1 }
  | none => { count := 1, window := s.windows }

/-- `INCR key`. -/
def incr (s : Limiter) (key : String) : Limiter :=
  { s with
    buckets := Function.update s.buckets key (some (s.bumped key))
    windows := if (s.buckets key).isSome then s.windows else s.windows + 1 }

/-- `EXPIRE key RATE_LIMIT_WINDOW_SECONDS`. -/
def expire (s : Limiter) (key : String) : Limiter :=
  { s with
    buckets := Function.update s.buckets key ((s.buckets key).map fun b =>
      { b with expiresAt := some (s.clock + rateLimitWindowSeconds) }) }

/-- The call `i` goes on to `pc`. -/
def goto (s : Limiter) (i : ℕ) (c : LimiterCall) (pc : LimiterPc) : Limiter :=
  { s with calls := Function.update s.calls i (some { c with pc := pc }) }

/-- `return count > limit`. -/
def verdict (limits : RateLimits) (s : Limiter) (i : ℕ) (c : LimiterCall)
    (window count : ℕ) : Limiter :=
  if limits.limit c.scope < count then s.goto i c (.returned true)
  else { s.goto i c (.returned false) with admitted := s.admitted ++ [⟨c.key, window, count⟩] }

/-- The buckets that are left at `now`. -/
def unexpired (now : Seconds) (b : Bucket) : Bool :=
  match b.expiresAt with
  | none => true
  | some t => now < t

end Limiter

/-- What happens to the limiter. -/
inductive LimiterEvent where
  | call (i : ℕ) (scope : RateScope) (sourceIp : String)
  /-- The call's `INCR` is executed and answered. -/
  | incr (i : ℕ)
  /-- It is executed, and the call ends without the answer. -/
  | incrLost (i : ℕ)
  | expire (i : ℕ)
  | expireLost (i : ℕ)
  /-- The call ends at its await, with the command not executed: the connection
  fails, the request is cancelled, the replica dies. -/
  | fail (i : ℕ)
  | elapse (now : Seconds)

namespace Limiter

/-- One event. -/
def next (limits : RateLimits) (s : Limiter) : LimiterEvent → Option Limiter
  | .call i scope sourceIp =>
      match s.calls i with
      | none =>
          some { s with
            calls := Function.update s.calls i (some { scope := scope, sourceIp := sourceIp }) }
      | some _ => none
  | .incr i =>
      match s.calls i with
      | some c =>
          if c.pc = .incr then
            let b := s.bumped c.key
            if b.count = 1 then some ((s.incr c.key).goto i c (.expire b.window))
            else some ((s.incr c.key).verdict limits i c b.window b.count)
          else none
      | none => none
  | .incrLost i =>
      match s.calls i with
      | some c => if c.pc = .incr then some ((s.incr c.key).goto i c .raised) else none
      | none => none
  | .expire i =>
      match s.calls i with
      | some c =>
          match c.pc with
          | .expire window => some ((s.expire c.key).verdict limits i c window 1)
          | _ => none
      | none => none
  | .expireLost i =>
      match s.calls i with
      | some c =>
          match c.pc with
          | .expire _ => some ((s.expire c.key).goto i c .raised)
          | _ => none
      | none => none
  | .fail i =>
      match s.calls i with
      | some c =>
          match c.pc with
          | .incr | .expire _ => some (s.goto i c .raised)
          | _ => none
      | none => none
  | .elapse now =>
      if s.clock ≤ now then
        some { s with clock := now, buckets := fun key => (s.buckets key).filter (unexpired now) }
      else none

end Limiter

/-- The events that can happen, and the state each leaves. -/
inductive LimiterMove (limits : RateLimits) (s : Limiter) : LimiterEvent → Limiter → Prop
  | call {i : ℕ} {scope : RateScope} {sourceIp : String} (hnew : s.calls i = none) :
      LimiterMove limits s (.call i scope sourceIp)
        (s.goto i { scope := scope, sourceIp := sourceIp } .incr)
  /-- The count is 1: the window begins with the call. -/
  | begins {i : ℕ} {c : LimiterCall} (hc : s.calls i = some c) (hpc : c.pc = .incr)
      (hone : (s.bumped c.key).count = 1) :
      LimiterMove limits s (.incr i)
        ((s.incr c.key).goto i c (.expire (s.bumped c.key).window))
  | counts {i : ℕ} {c : LimiterCall} (hc : s.calls i = some c) (hpc : c.pc = .incr)
      (hmore : ¬ (s.bumped c.key).count = 1) :
      LimiterMove limits s (.incr i)
        ((s.incr c.key).verdict limits i c (s.bumped c.key).window (s.bumped c.key).count)
  | incrLost {i : ℕ} {c : LimiterCall} (hc : s.calls i = some c) (hpc : c.pc = .incr) :
      LimiterMove limits s (.incrLost i) ((s.incr c.key).goto i c .raised)
  | expire {i window : ℕ} {c : LimiterCall} (hc : s.calls i = some c)
      (hpc : c.pc = .expire window) :
      LimiterMove limits s (.expire i) ((s.expire c.key).verdict limits i c window 1)
  | expireLost {i window : ℕ} {c : LimiterCall} (hc : s.calls i = some c)
      (hpc : c.pc = .expire window) :
      LimiterMove limits s (.expireLost i) ((s.expire c.key).goto i c .raised)
  | fail {i : ℕ} {c : LimiterCall} (hc : s.calls i = some c) :
      LimiterMove limits s (.fail i) (s.goto i c .raised)
  | elapse {now : Seconds} :
      LimiterMove limits s (.elapse now)
        { s with
          clock := now, buckets := fun key => (s.buckets key).filter (Limiter.unexpired now) }

/-- **Every event is a move.** -/
theorem Limiter.next_move {limits : RateLimits} {s t : Limiter} {e : LimiterEvent}
    (h : s.next limits e = some t) : LimiterMove limits s e t := by
  cases e with
  | call i scope sourceIp =>
      simp only [Limiter.next] at h
      split at h
      · next hnew => cases h; exact .call hnew
      · cases h
  | incr i =>
      simp only [Limiter.next] at h
      split at h
      · next c hc =>
          split_ifs at h with hpc hone
          · cases h; exact .begins hc hpc hone
          · cases h; exact .counts hc hpc hone
      · cases h
  | incrLost i =>
      simp only [Limiter.next] at h
      split at h
      · next c hc =>
          split_ifs at h with hpc
          cases h
          exact .incrLost hc hpc
      · cases h
  | expire i =>
      simp only [Limiter.next] at h
      split at h
      · next c hc =>
          split at h
          · next window hpc => cases h; exact .expire hc hpc
          · cases h
      · cases h
  | expireLost i =>
      simp only [Limiter.next] at h
      split at h
      · next c hc =>
          split at h
          · next window hpc => cases h; exact .expireLost hc hpc
          · cases h
      · cases h
  | fail i =>
      simp only [Limiter.next] at h
      split at h
      · next c hc =>
          split at h
          · cases h; exact .fail hc
          · cases h; exact .fail hc
          · cases h
      · cases h
  | elapse now =>
      simp only [Limiter.next] at h
      split_ifs at h
      cases h
      exact .elapse

/-- The limiter, from an empty Redis on. -/
def limiter (limits : RateLimits) : System Limiter LimiterEvent where
  init s := s = {}
  step s e t := s.next limits e = some t

theorem limiter_deterministic (limits : RateLimits) : (limiter limits).Deterministic := by
  intro s e t t' h h'
  exact Option.some.inj (h.symm.trans h')

end TaskFleet.Model
