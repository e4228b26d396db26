import TaskFleet.Logic.EngineSessions
import TaskFleet.Logic.SessionCredits

/-!
# Releases under one name

A message that names a task takes the task's key, if the session has it, and a unit
of the reconnect residue otherwise, whether or not the task was released before. So
what a sequence of messages about one task releases is the smaller of two numbers,
how many of them get to `_release_credit` and how many units they find there
(`releases_eq_min`), and the residue is a unit they find. The first number is read
off the messages and the session they start from (`releasing_eq`).
-/

namespace TaskFleet.Model

open Py

/-! ## Messages -/

namespace SessionTurn

/-- The task a message names. -/
def taskId : SessionTurn → String
  | .taskAck taskId _ _ | .capacity taskId _ | .failed taskId _ | .result taskId _
  | .malformedResult taskId => taskId

def isAck : SessionTurn → Bool
  | .taskAck _ _ _ => true
  | _ => false

/-- Its handler releases a credit, whether or not the session has the task's key. -/
def always : SessionTurn → Bool
  | .taskAck _ accepted reasonCode => !accepted && reasonCode != refuseAtCapacity
  | .capacity _ freed => 1 ≤ freed
  | .failed _ outcome => outcome ∉ [Outcome.notOwner, .notFound]
  | .result _ outcome => outcome ∉ [Outcome.notOwner, .notFound, .fenced]
  | .malformedResult _ => false

/-- Its handler releases a credit if the session has the task's key. -/
def withKey : SessionTurn → Bool
  | .failed _ _ | .result _ _ | .malformedResult _ => true
  | msg => msg.always

end SessionTurn

/-- The messages a handler acts on: an acknowledgement is one only while the
delivery it answers is pending, which the first of them ends. -/
def messagesHeard : Bool → List SessionTurn → List SessionTurn
  | _, [] => []
  | pending, msg :: msgs =>
      if msg.isAck then
        if pending then msg :: messagesHeard false msgs else messagesHeard false msgs
      else msg :: messagesHeard pending msgs

/-- How many of the messages behind the first that takes the task's key release a
credit without it. -/
def behindKey (msgs : List SessionTurn) : ℕ :=
  (msgs.dropWhile (!·.withKey)).tail.countP SessionTurn.always

/-! ## The account of a task -/

/-- What can happen to a session. -/
inductive SessionMove where
  | delivered (taskId correlationId : String)
  | handled (msg : SessionTurn)

/-- A session and whether a credit is still due on one task's account. -/
structure Account where
  session : LocalSession
  owed : Bool

/-- A delivery of the task opens the account, and a message that names it and
releases a credit closes it. -/
def Account.move (taskId : String) (a : Account) : SessionMove → Account
  | .delivered id correlationId =>
      { session := a.session.deliver id correlationId, owed := id == taskId || a.owed }
  | .handled msg =>
      { session := a.session.turn msg
        owed := a.owed &&
          !(msg.taskId == taskId && (a.session.turn msg).inFlight < a.session.inFlight) }

/-- A session from its opening on. -/
structure SessionLife where
  opened : LocalSession
  /-- The tasks its worker held then. -/
  held : List String
  /-- What has happened to it since, oldest first. -/
  moves : List SessionMove
  fresh : opened.credited = .empty

/-- The account of the task as the life leaves it. -/
def SessionLife.account (life : SessionLife) (taskId : String) : Account :=
  life.moves.foldl (Account.move taskId)
    { session := life.opened, owed := life.held.contains taskId }

namespace Account

/-- The credits due. -/
def due (a : Account) : ℕ := if a.owed then 1 else 0

/-- The messages of the list that release a credit after the account is closed: with
the task's key, those behind the first that takes it, and without it, those beyond
the one that is due. -/
def late (a : Account) (taskId : String) (msgs : List SessionTurn) : ℕ :=
  let msgs := messagesHeard (a.session.pendingAcks.contains taskId) msgs
  if a.session.credited.contains taskId then behindKey msgs
  else msgs.countP SessionTurn.always - a.due

/-- The units of the reconnect residue that are other tasks' own. -/
def spare (a : Account) (taskId : String) : ℕ :=
  if a.session.credited.contains taskId then a.session.residualInFlight
  else a.session.residualInFlight - a.due

end Account

namespace LocalSession

/-- The session after the messages, handled one after the other. -/
def turns (s : LocalSession) (msgs : List SessionTurn) : LocalSession :=
    msgs.foldl LocalSession.turn s

/-- The handler of the message gets to `_release_credit`. -/
def releases (s : LocalSession) : SessionTurn → Bool
  | .taskAck taskId accepted reasonCode => s.refuses taskId accepted reasonCode
  | .capacity _ freed => 1 ≤ freed
  | .failed taskId outcome => s.failureFrees taskId outcome
  | .result taskId outcome => s.resultFrees taskId outcome
  | .malformedResult taskId => s.credited.contains taskId

/-- How many of the messages do. -/
def releasing (s : LocalSession) : List SessionTurn → ℕ
  | [] => 0
  | msg :: msgs => (if s.releases msg then 1 else 0) + (s.turn msg).releasing msgs

/-- What a release under the name can draw on: the key and the residue. -/
def drawable (s : LocalSession) (taskId : String) : ℕ :=
  s.residualInFlight + if taskId ∈ s.credited.keys then 1 else 0

variable {s s' : LocalSession} {taskId : String}

/-! ## One message -/

/-- A release under the name leaves no key of it. -/
theorem Gives.notMem (h : Gives s s' taskId) : taskId ∉ s'.credited.keys := by
  intro hin
  have hkeyed : taskId ∈ (s'.books ∅ ∅).keyed := mem_books_keyed.mpr hin
  rw [h.books] at hkeyed
  by_cases hkey : taskId ∈ (s.books ∅ ∅).keyed
  · rw [Books.release, if_pos hkey] at hkeyed
    exact Finset.notMem_erase taskId _ hkeyed
  · rw [Books.release, if_neg hkey] at hkeyed
    exact hkey hkeyed

/-- A release under the name takes one of the units there are. -/
theorem Gives.drawable (h : Gives s s' taskId) :
    s'.drawable taskId = s.drawable taskId - 1 ∧ s'.inFlight + min 1 (s.drawable taskId) =
      s.inFlight := by
  have hbooks := h.books ∅ ∅
  have htotal : s'.inFlight = ((s.books ∅ ∅).release taskId).total := by
    rw [← hbooks]
    exact inFlight_eq_total
  have hkeyed : taskId ∈ s.credited.keys ↔ taskId ∈ (s.books ∅ ∅).keyed := mem_books_keyed.symm
  have hgone := h.notMem
  have hcounted' : s'.residualInFlight = ((s.books ∅ ∅).release taskId).counted := by
    rw [← hbooks]
    rfl
  by_cases hkey : taskId ∈ s.credited.keys
  · have hrelease : (s.books ∅ ∅).release taskId =
        { s.books ∅ ∅ with keyed := (s.books ∅ ∅).keyed.erase taskId } := if_pos (hkeyed.mp hkey)
    rw [hrelease] at htotal hcounted'
    have hcard := Finset.card_erase_add_one (hkeyed.mp hkey)
    have htotal₀ : s.inFlight = s.residualInFlight + (s.books ∅ ∅).keyed.card := inFlight_eq_total
    have hresidue : s'.residualInFlight = s.residualInFlight := hcounted'
    have htotal' : s'.inFlight = s.residualInFlight + ((s.books ∅ ∅).keyed.erase taskId).card :=
        htotal
    simp only [LocalSession.drawable, if_pos hkey, if_neg hgone, hresidue]
    omega
  · have hrelease : (s.books ∅ ∅).release taskId =
        { s.books ∅ ∅ with counted := (s.books ∅ ∅).counted - 1 } := if_neg fun hin =>
          hkey (hkeyed.mpr hin)
    rw [hrelease] at htotal hcounted'
    have htotal₀ : s.inFlight = s.residualInFlight + (s.books ∅ ∅).keyed.card := inFlight_eq_total
    have hresidue : s'.residualInFlight = s.residualInFlight - 1 := hcounted'
    have htotal' : s'.inFlight = s.residualInFlight - 1 + (s.books ∅ ∅).keyed.card := htotal
    simp only [LocalSession.drawable, if_neg hkey, if_neg hgone, hresidue]
    omega

theorem SameCredits.drawable (h : SameCredits s s') : s'.drawable taskId = s.drawable taskId := by
  rw [LocalSession.drawable, LocalSession.drawable, h.credited, h.residual]

/-- **One message** either gives a credit back under its name or leaves the credits
alone. -/
theorem turn_credits (msg : SessionTurn) (hname : msg.taskId ≠ "") :
    if s.releases msg then Gives s (s.turn msg) msg.taskId else SameCredits s (s.turn msg) := by
  cases msg with
  | taskAck taskId accepted reasonCode => exact handleTaskAck_credits hname accepted reasonCode
  | capacity taskId freed =>
      simp only [releases, turn, handleCapacity, SessionTurn.taskId, decide_eq_true_eq]
      by_cases hfreed : 1 ≤ freed
      · rw [if_pos hfreed, if_neg (by omega)]
        exact (gives_releaseCredit hname freed.toNat).of_same ⟨rfl, rfl, rfl⟩
      · rw [if_neg hfreed, if_pos (by omega)]
        exact ⟨rfl, rfl, rfl⟩
  | failed taskId outcome => exact finishFailed_credits hname outcome
  | result taskId outcome => exact finishResult_credits hname outcome
  | malformedResult taskId => exact rejectResult_credits hname

/-! ## Any number of messages -/

/-- **What the messages release**: one credit each that gets to `_release_credit`,
while there are any. -/
theorem releases_eq_min (hname : taskId ≠ "") (msgs : List SessionTurn) :
    ∀ {s : LocalSession}, (∀ msg ∈ msgs, msg.taskId = taskId) →
      (s.turns msgs).inFlight + min (s.releasing msgs) (s.drawable taskId) = s.inFlight := by
  induction msgs with
  | nil =>
      intro s _
      simp [turns, releasing]
  | cons msg msgs ih =>
      intro s hmsgs
      have hmsg : msg.taskId = taskId := hmsgs msg List.mem_cons_self
      have hrest := ih (s := s.turn msg) fun m hm => hmsgs m (List.mem_cons_of_mem _ hm)
      have hone := turn_credits (s := s) msg (by rw [hmsg]; exact hname)
      have hturns : s.turns (msg :: msgs) = (s.turn msg).turns msgs := rfl
      rw [hturns]
      simp only [releasing]
      cases hreleases : s.releases msg with
      | true =>
          rw [hreleases, if_pos rfl, hmsg] at hone
          obtain ⟨hdrawable, hinFlight⟩ := hone.drawable
          rw [hdrawable] at hrest
          rw [if_pos rfl]
          omega
      | false =>
          rw [hreleases, if_neg (by simp)] at hone
          rw [hone.drawable, hone.inFlight] at hrest
          rw [if_neg (by simp)]
          omega

/-! ## Which messages do -/

theorem withKey_of_always {msg : SessionTurn} (h : msg.always = true) : msg.withKey = true := by
  cases msg <;> first | rfl | exact h

theorem releases_eq (msg : SessionTurn) :
    s.releases msg = ((!msg.isAck || s.pendingAcks.contains msg.taskId) &&
      (msg.always || s.credited.contains msg.taskId && msg.withKey)) := by
  cases msg with
  | taskAck taskId accepted reasonCode =>
      simp only [releases, refuses, SessionTurn.isAck, SessionTurn.always, SessionTurn.withKey,
        SessionTurn.taskId, Bool.not_true, Bool.false_or, Bool.and_assoc]
      cases s.credited.contains taskId <;> simp
  | capacity taskId freed =>
      simp only [releases, SessionTurn.isAck, SessionTurn.always, SessionTurn.withKey,
        SessionTurn.taskId]
      cases s.credited.contains taskId <;> simp
  | _ =>
      simp [releases, failureFrees, resultFrees, SessionTurn.isAck, SessionTurn.always,
        SessionTurn.withKey, SessionTurn.taskId]

theorem pendingAcks_turn (msg : SessionTurn) :
    (s.turn msg).pendingAcks.contains msg.taskId =
      (!msg.isAck && s.pendingAcks.contains msg.taskId) := by
  obtain ⟨credited, residual, recovered, saturated, heq⟩ := s.turn_eq msg
  rw [heq]
  cases msg with
  | taskAck taskId accepted reasonCode =>
      have hgone : taskId ∉ (s.pendingAcks.erase taskId).keys := by simp
      rw [SessionTurn.isAck, Bool.not_true, Bool.false_and]
      exact Bool.eq_false_iff.mpr fun hin => hgone (Dict.contains_iff.mp hin)
  | _ => rfl

theorem messagesHeard_cons (pending : Bool) (msg : SessionTurn) (msgs : List SessionTurn) :
    messagesHeard pending (msg :: msgs) =
      if !msg.isAck || pending then msg :: messagesHeard (!msg.isAck && pending) msgs
      else messagesHeard (!msg.isAck && pending) msgs := by
  rw [messagesHeard]
  cases msg.isAck <;> cases pending <;> rfl

/-- Without the key, the ones that need none. -/
theorem releasing_of_notMem (hname : taskId ≠ "") (msgs : List SessionTurn) :
    ∀ {s : LocalSession}, (∀ msg ∈ msgs, msg.taskId = taskId) → taskId ∉ s.credited.keys →
      s.releasing msgs =
        (messagesHeard (s.pendingAcks.contains taskId) msgs).countP SessionTurn.always := by
  induction msgs with
  | nil =>
      intro s _ _
      rfl
  | cons msg msgs ih =>
      intro s hmsgs hkey
      obtain rfl : msg.taskId = taskId := hmsgs msg List.mem_cons_self
      have hrest := ih (s := s.turn msg) (fun m hm => hmsgs m (List.mem_cons_of_mem _ hm))
        fun hin => hkey (mem_keys_turn hin)
      have hcontains : s.credited.contains msg.taskId = false :=
          Bool.eq_false_iff.mpr fun hin => hkey (Dict.contains_iff.mp hin)
      rw [releasing, hrest, pendingAcks_turn, releases_eq, hcontains, messagesHeard_cons]
      cases !msg.isAck || s.pendingAcks.contains msg.taskId with
      | true =>
          rw [if_pos rfl, List.countP_cons]
          simp only [Bool.true_and, Bool.false_and, Bool.or_false]
          omega
      | false =>
          rw [if_neg (by simp), if_neg (by simp), Nat.zero_add]

/-- With the key, the first that takes it and the ones behind it that need none. -/
theorem releasing_of_mem (hname : taskId ≠ "") (msgs : List SessionTurn) :
    ∀ {s : LocalSession}, (∀ msg ∈ msgs, msg.taskId = taskId) → taskId ∈ s.credited.keys →
      ∃ first ≤ 1,
        s.releasing msgs = first + behindKey (messagesHeard (s.pendingAcks.contains taskId) msgs) ∧
        (first = 0 → behindKey (messagesHeard (s.pendingAcks.contains taskId) msgs) = 0) := by
  induction msgs with
  | nil =>
      intro s _ _
      exact ⟨0, by omega, rfl, fun _ => rfl⟩
  | cons msg msgs ih =>
      intro s hmsgs hkey
      obtain rfl : msg.taskId = taskId := hmsgs msg List.mem_cons_self
      have hmsgs' := fun m hm => hmsgs m (List.mem_cons_of_mem _ hm)
      have hone := turn_credits (s := s) msg hname
      have hreleases := releases_eq (s := s) msg
      rw [Dict.contains_iff.mpr hkey, Bool.true_and] at hreleases
      have hwith : (msg.always || msg.withKey) = msg.withKey := by
        cases halways : msg.always with
        | true => rw [withKey_of_always halways]; rfl
        | false => rfl
      rw [hwith] at hreleases
      rw [releasing, messagesHeard_cons]
      cases hheard : !msg.isAck || s.pendingAcks.contains msg.taskId with
      | false =>
          rw [hheard, Bool.false_and] at hreleases
          rw [hreleases, if_neg (by simp)] at hone
          have hrest := ih (s := s.turn msg) hmsgs' (by rw [hone.credited]; exact hkey)
          rw [pendingAcks_turn] at hrest
          rw [hreleases, if_neg (by simp), if_neg (by simp), Nat.zero_add]
          exact hrest
      | true =>
          rw [hheard, Bool.true_and] at hreleases
          rw [hreleases] at hone ⊢
          cases htakes : msg.withKey with
          | true =>
              rw [htakes, if_pos rfl] at hone
              have hrest := releasing_of_notMem hname msgs hmsgs' hone.notMem
              rw [hrest, pendingAcks_turn]
              refine ⟨1, by omega, ?_, by omega⟩
              simp [behindKey, htakes]
          | false =>
              rw [htakes, if_neg (by simp)] at hone
              have hrest := ih (s := s.turn msg) hmsgs' (by rw [hone.credited]; exact hkey)
              rw [pendingAcks_turn] at hrest
              simpa [behindKey, htakes] using hrest

end LocalSession

/-! ## The account -/

namespace Account

variable {a : Account} {taskId : String}

/-- The session has the key of the task only while its account is open. -/
def Keyed (taskId : String) (a : Account) : Prop :=
  taskId ∈ a.session.credited.keys → a.owed = true

theorem Keyed.move (h : a.Keyed taskId) (hname : taskId ≠ "") (m : SessionMove) :
    (a.move taskId m).Keyed taskId := by
  intro hin
  cases m with
  | delivered id correlationId =>
      simp only [Account.move, LocalSession.deliver, Dict.mem_keys_set] at hin ⊢
      rcases hin with rfl | hin
      · simp
      · simp [h hin]
  | handled msg =>
      have howed := h (LocalSession.mem_keys_turn hin)
      by_cases hmsg : msg.taskId = taskId
      · have hone := LocalSession.turn_credits (s := a.session) msg (by rw [hmsg]; exact hname)
        split at hone
        · exact absurd hin (hmsg ▸ hone.notMem)
        · simp [Account.move, howed, hone.inFlight]
      · simp [Account.move, howed, hmsg]

end Account

theorem SessionLife.keyed (life : SessionLife) {taskId : String} (hname : taskId ≠ "") :
    (life.account taskId).Keyed taskId := by
  have hlived : ∀ (moves : List SessionMove) (a : Account), a.Keyed taskId →
      (moves.foldl (Account.move taskId) a).Keyed taskId := by
    intro moves
    induction moves with
    | nil => exact fun a h => h
    | cons m moves ih => exact fun a h => ih _ (h.move hname m)
  refine hlived life.moves _ fun hin => ?_
  rw [life.fresh] at hin
  cases hin

/-- **When a named release is exactly-once.** Whatever a session has been through since
it opened, with any reconnect residue and any tasks its worker held then, and whatever
messages about one task it handles next, in any order and with any repetition: they
release no more than is due on the task's account, one credit if it was delivered on
the session or held at the opening and has not been given back, and none otherwise, if
and only if none of them comes after the account is closed, or there is no residue but
the task's own. -/
theorem named_release_iff (life : SessionLife) {taskId : String} (hname : taskId ≠ "")
    {msgs : List SessionTurn} (hmsgs : ∀ msg ∈ msgs, msg.taskId = taskId) :
    ((life.account taskId).session.inFlight : Int) -
        ((life.account taskId).session.turns msgs).inFlight ≤ (life.account taskId).due ↔
      (life.account taskId).late taskId msgs = 0 ∨ (life.account taskId).spare taskId = 0 := by
  have hkeyed := life.keyed hname
  generalize life.account taskId = a at hkeyed ⊢
  have hreleased := LocalSession.releases_eq_min hname msgs (s := a.session) hmsgs
  simp only [Account.late, Account.spare]
  by_cases hkey : taskId ∈ a.session.credited.keys
  · obtain ⟨first, hfirst, hreleasing, hnone⟩ :=
      LocalSession.releasing_of_mem hname msgs hmsgs hkey
    have hdue : a.due = 1 := by rw [Account.due, hkeyed hkey, if_pos rfl]
    rw [LocalSession.drawable, if_pos hkey, hreleasing] at hreleased
    rw [if_pos (Dict.contains_iff.mpr hkey), if_pos (Dict.contains_iff.mpr hkey), hdue]
    omega
  · rw [LocalSession.drawable, if_neg hkey,
      LocalSession.releasing_of_notMem hname msgs hmsgs hkey] at hreleased
    rw [if_neg fun h => hkey (Dict.contains_iff.mp h),
      if_neg fun h => hkey (Dict.contains_iff.mp h)]
    omega

/-- The worker reconnects with one task running and is handed another. -/
def Demo.residual : SessionLife where
  opened := LocalSession.open {} Demo.worker 2 (some 3) (some 1) ["sleep"]
  held := ["u"]
  moves := [.delivered "t" "demo"]
  fresh := rfl

/-- The result of that task is stored, and its acknowledgement is lost, so it comes
again. -/
def Demo.resultTwice : List SessionTurn := [.result "t" .transitioned, .result "t" .duplicate]

/-- The acknowledgement of the delivery, and the first of the two results alone. -/
theorem named_release_iff_single :
    ((Demo.residual.account "t").session.inFlight : Int) -
        ((Demo.residual.account "t").session.turns
          [.taskAck "t" true "", .result "t" .transitioned]).inFlight ≤
      (Demo.residual.account "t").due := by
  have hname : "t" ≠ "" := by decide
  have hmsgs : ∀ msg ∈ [SessionTurn.taskAck "t" true "", .result "t" .transitioned],
      msg.taskId = "t" := by
    simp [SessionTurn.taskId]
  exact (named_release_iff Demo.residual hname hmsgs).mpr (.inl (by decide +kernel))

/-- The duplicate frees the slot of the task the worker is still running. -/
theorem duplicate_result_frees_residue :
    (Demo.residual.account "t").session.inFlight = 2 ∧ (Demo.residual.account "t").due = 1 ∧
      ((Demo.residual.account "t").session.turns Demo.resultTwice).inFlight = 0 ∧
      ¬ ((Demo.residual.account "t").session.inFlight : Int) -
          ((Demo.residual.account "t").session.turns Demo.resultTwice).inFlight ≤
        ((Demo.residual.account "t").due : Int) := by
  decide +kernel

end TaskFleet.Model
