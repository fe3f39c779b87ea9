import Mathlib.Logic.Function.Basic
import Mathlib.Tactic.SplitIfs
import PandaBridge.Transition.System

/-! Attributes with `polled_change_set`. One cached value and one update index for each instance
serve every connection, and whoever finds the value changed stamps it one past its own report
index, which says nothing to a connection that has asked since. -/
namespace Server

open Transition

/-- A request that includes `CHANGES_ATTR`, with its report index. It is on its way to the
attribute, or has its mutex and comes to this instance next. -/
structure PolledRequest where
  report : Nat
  checks : Bool
  number : Option Nat

/-- What a request has found of an instance, beside what the connection's previous one has. -/
structure AttrPoll (Value : Type) where
  connection : Nat
  number : Nat
  previous : Option Value
  value : Value
  reported : Bool
  deriving DecidableEq

/-- The attribute: what `format` gives for each instance, and what is kept of it. `seen` and
`polls` record what the requests have met. -/
structure PolledAttr (Value : Type) where
  index : Nat
  values : Nat → Value
  lastValues : Nat → Value
  updateIndex : Nat → Nat
  mutex : Option Nat
  contexts : Nat → Nat
  requests : Nat → Option PolledRequest
  seen : Nat → Nat → Option Value
  polls : List (AttrPoll Value)

/-- `stop` is a `check_change_set` that has found something before it comes to the attribute. -/
inductive PolledEvent (Value : Type)
  | change (number : Nat) (value : Value)
  | restart (connection : Nat)
  | request (connection : Nat) (checks : Bool)
  | enter (connection : Nat)
  | poll (connection : Nat)
  | stop (connection : Nat)

variable {Value : Type} [DecidableEq Value]

namespace PolledAttr

variable (attr : PolledAttr Value)

def setRequest (connection : Nat) (request : Option PolledRequest) : PolledAttr Value :=
  { attr with requests := Function.update attr.requests connection request }

/-- The index of an instance after `get_attr_change_set` has polled it. -/
def polledIndex (report number : Nat) : Nat :=
  if attr.values number ≠ attr.lastValues number then report + 1 else attr.updateIndex number

/-- One instance of `get_attr_change_set`. -/
def pollOne (connection : Nat) (request : PolledRequest) (number : Nat) : PolledAttr Value :=
  { attr with
    updateIndex := Function.update attr.updateIndex number (attr.polledIndex request.report number)
    lastValues := Function.update attr.lastValues number (attr.values number)
    requests := Function.update attr.requests connection
      (some { request with number := some (number + 1) })
    seen := Function.update attr.seen connection
      (Function.update (attr.seen connection) number (some (attr.values number)))
    polls := attr.polls ++
      [{ connection := connection
         number := number
         previous := attr.seen connection number
         value := attr.values number
         reported := decide (request.report < attr.polledIndex request.report number) }] }

/-- A check that has ended before the attribute: it answers that something has changed. -/
def stopped (count connection : Nat) : PolledAttr Value :=
  { attr with
    requests := Function.update attr.requests connection none
    seen := Function.update attr.seen connection fun number => some (attr.values number)
    polls := attr.polls ++ (List.range count).map fun number =>
      { connection := connection
        number := number
        previous := attr.seen connection number
        value := attr.values number
        reported := true } }

/-- What the next look of the connection at an instance is compared with. -/
def since (connection number : Nat) : Nat :=
  match attr.requests connection with
  | some request =>
      if request.number.getD 0 ≤ number then request.report else attr.contexts connection
  | none => attr.contexts connection

end PolledAttr

/-- One step: the value moves, or a connection asks. -/
def polledSystem (count : Nat) : System (PolledAttr Value) (PolledEvent Value)
  | attr, .change number value =>
      some { attr with values := Function.update attr.values number value }
  | attr, .restart connection =>
      if attr.requests connection = none then
        some { attr with contexts := Function.update attr.contexts connection 0 }
      else none
  | attr, .request connection checks =>
      match attr.requests connection with
      | none =>
          some { attr.setRequest connection
              (some { report := attr.contexts connection, checks := checks, number := none }) with
            index := attr.index + 1
            contexts := Function.update attr.contexts connection (attr.index + 1) }
      | some _ => none
  | attr, .enter connection =>
      match attr.requests connection, attr.mutex with
      | some ⟨report, checks, none⟩, none =>
          some { attr.setRequest connection (some ⟨report, checks, some 0⟩) with
            mutex := some connection }
      | _, _ => none
  | attr, .poll connection =>
      match attr.requests connection with
      | some ⟨report, checks, some number⟩ =>
          if number < count then
            some (attr.pollOne connection ⟨report, checks, some number⟩ number)
          else
            some { attr.setRequest connection none with mutex := none }
      | _ => none
  | attr, .stop connection =>
      match attr.requests connection with
      | some ⟨_, true, none⟩ => some (attr.stopped count connection)
      | _ => none

/-- A request that finds an instance changed is not older than any connection that has yet to
see the new value, and a check stops short of the attribute only while the cache is right. -/
def Current (count : Nat) (attr : PolledAttr Value) : PolledEvent Value → Prop
  | .poll connection => ∀ report checks number,
      attr.requests connection = some ⟨report, checks, some number⟩ → number < count →
      attr.values number ≠ attr.lastValues number →
      ∀ other value, attr.seen other number = some value → value ≠ attr.values number →
        attr.since other number ≤ report
  | .stop _ => ∀ number < count, attr.values number = attr.lastValues number
  | _ => True

/-- Whoever has not seen the cached value is told of it, and was told so far. -/
structure PolledInv (count : Nat) (attr : PolledAttr Value) : Prop where
  newer : ∀ connection number value, number < count → attr.seen connection number = some value →
    value ≠ attr.lastValues number → attr.since connection number < attr.updateIndex number
  polls : ∀ poll ∈ attr.polls, ∀ previous, poll.previous = some previous →
    previous ≠ poll.value → poll.reported = true

section Invariant

variable {count : Nat} {attr next : PolledAttr Value}

omit [DecidableEq Value] in
theorem since_of_requests {connection number : Nat}
    (hRequest : next.requests connection = attr.requests connection)
    (hContext : next.contexts connection = attr.contexts connection) :
    next.since connection number = attr.since connection number := by
  rw [PolledAttr.since, PolledAttr.since, hRequest, hContext]

omit [DecidableEq Value] in
/-- What leaves the cache alone and makes no connection skip anything. -/
theorem PolledInv.keep (h : PolledInv count attr) (hSeen : next.seen = attr.seen)
    (hLast : next.lastValues = attr.lastValues) (hIndex : next.updateIndex = attr.updateIndex)
    (hPolls : next.polls = attr.polls)
    (hSince : ∀ connection number, number < count →
      next.since connection number ≤ attr.since connection number) : PolledInv count next := by
  refine ⟨fun connection number value hNumber hValue hNe => ?_, ?_⟩
  · rw [hSeen] at hValue
    rw [hLast] at hNe
    rw [hIndex]
    exact Nat.lt_of_le_of_lt (hSince connection number hNumber)
      (h.newer connection number value hNumber hValue hNe)
  · rw [hPolls]
    exact h.polls

/-- A request is told of what it has not seen. -/
theorem PolledInv.reported (h : PolledInv count attr) {connection number report : Nat}
    (hNumber : number < count) (hSince : attr.since connection number = report) {previous : Value}
    (hSeen : attr.seen connection number = some previous)
    (hNe : previous ≠ attr.values number) : report < attr.polledIndex report number := by
  rw [PolledAttr.polledIndex]
  split_ifs with hChanged
  · exact Nat.lt_succ_self report
  · rw [ne_eq, not_not] at hChanged
    rw [hChanged] at hNe
    rw [← hSince]
    exact h.newer connection number previous hNumber hSeen hNe

theorem PolledInv.pollOne (h : PolledInv count attr) {connection number : Nat}
    {request : PolledRequest} (hRequest : attr.requests connection = some request)
    (hPlace : request.number = some number) (hNumber : number < count)
    (hCurrent : attr.values number ≠ attr.lastValues number →
      ∀ other value, attr.seen other number = some value → value ≠ attr.values number →
        attr.since other number ≤ request.report) :
    PolledInv count (attr.pollOne connection request number) := by
  have hSince : attr.since connection number = request.report := by
    simp [PolledAttr.since, hRequest, hPlace]
  refine ⟨?_, ?_⟩
  · intro other place value hBound hSeen hNe
    by_cases hPlaces : place = number
    · subst hPlaces
      -- The poll has settled this instance: the connection itself has seen the cached value.
      by_cases hSame : other = connection
      · subst hSame
        have hSelf : value = attr.values place := by
          simpa [PolledAttr.pollOne] using hSeen.symm
        exact absurd hSelf (by simpa [PolledAttr.pollOne] using hNe)
      · have hOld : attr.seen other place = some value := by
          simpa [PolledAttr.pollOne, Function.update_of_ne hSame] using hSeen
        have hNew : value ≠ attr.values place := by simpa [PolledAttr.pollOne] using hNe
        have hStill : (attr.pollOne connection request place).since other place =
            attr.since other place :=
          since_of_requests (Function.update_of_ne hSame _ _) rfl
        rw [hStill]
        simp only [PolledAttr.pollOne, Function.update_self, PolledAttr.polledIndex]
        split_ifs with hChanged
        · exact Nat.lt_succ_of_le (hCurrent hChanged other value hOld hNew)
        · rw [ne_eq, not_not] at hChanged
          rw [hChanged] at hNew
          exact h.newer other place value hBound hOld hNew
    · have hOld : attr.seen other place = some value := by
        by_cases hSame : other = connection
        · subst hSame
          simpa [PolledAttr.pollOne, Function.update_of_ne hPlaces] using hSeen
        · simpa [PolledAttr.pollOne, Function.update_of_ne hSame] using hSeen
      have hLast : value ≠ attr.lastValues place := by
        simpa [PolledAttr.pollOne, Function.update_of_ne hPlaces] using hNe
      have hStill : (attr.pollOne connection request number).since other place =
          attr.since other place := by
        by_cases hSame : other = connection
        · subst hSame
          have hOrder : number + 1 ≤ place ↔ number ≤ place := by omega
          simp [PolledAttr.since, PolledAttr.pollOne, hRequest, hPlace, hOrder]
        · exact since_of_requests (Function.update_of_ne hSame _ _) rfl
      rw [hStill]
      simp only [PolledAttr.pollOne, Function.update_of_ne hPlaces]
      exact h.newer other place value hBound hOld hLast
  · intro poll hPoll previous hPrevious hNe
    rcases List.mem_append.mp hPoll with hOld | hNew
    · exact h.polls poll hOld previous hPrevious hNe
    · rw [List.mem_singleton] at hNew
      subst hNew
      exact decide_eq_true (h.reported hNumber hSince hPrevious hNe)

omit [DecidableEq Value] in
theorem PolledInv.stopped (h : PolledInv count attr) (connection : Nat)
    (hCurrent : ∀ number < count, attr.values number = attr.lastValues number) :
    PolledInv count (attr.stopped count connection) := by
  refine ⟨?_, ?_⟩
  · intro other number value hNumber hSeen hNe
    by_cases hSame : other = connection
    · subst hSame
      have hSelf : value = attr.values number := by
        simpa [PolledAttr.stopped] using hSeen.symm
      exact absurd (hSelf.trans (hCurrent number hNumber)) hNe
    · have hStill : (attr.stopped count connection).since other number = attr.since other number :=
        since_of_requests (Function.update_of_ne hSame _ _) rfl
      rw [hStill]
      refine h.newer other number value hNumber ?_ hNe
      simpa [PolledAttr.stopped, Function.update_of_ne hSame] using hSeen
  · intro poll hPoll previous hPrevious hNe
    rcases List.mem_append.mp hPoll with hOld | hNew
    · exact h.polls poll hOld previous hPrevious hNe
    · obtain ⟨number, _, rfl⟩ := List.mem_map.mp hNew
      rfl

theorem PolledInv.step (h : PolledInv count attr) {event : PolledEvent Value}
    (hCurrent : Current count attr event) (hStep : polledSystem count attr event = some next) :
    PolledInv count next := by
  cases event with
  | change number value =>
      obtain rfl := Option.some.inj hStep
      exact h.keep rfl rfl rfl rfl fun _ _ _ => Nat.le_refl _
  | restart connection =>
      simp only [polledSystem] at hStep
      split_ifs at hStep with hNone
      obtain rfl := Option.some.inj hStep
      refine h.keep rfl rfl rfl rfl fun other number _ => ?_
      by_cases hSame : other = connection
      · subst hSame
        simp [PolledAttr.since, hNone]
      · exact Nat.le_of_eq (since_of_requests rfl (Function.update_of_ne hSame _ _))
  | request connection checks =>
      simp only [polledSystem] at hStep
      split at hStep
      · next hNone =>
          obtain rfl := Option.some.inj hStep
          refine h.keep rfl rfl rfl rfl fun other number _ => ?_
          by_cases hSame : other = connection
          · subst hSame
            simp [PolledAttr.since, PolledAttr.setRequest, hNone]
          · exact Nat.le_of_eq (since_of_requests (Function.update_of_ne hSame _ _)
              (Function.update_of_ne hSame _ _))
      · exact absurd hStep (by simp)
  | enter connection =>
      simp only [polledSystem] at hStep
      split at hStep
      · next report checks hRequest _ =>
          obtain rfl := Option.some.inj hStep
          refine h.keep rfl rfl rfl rfl fun other number _ => ?_
          by_cases hSame : other = connection
          · subst hSame
            simp [PolledAttr.since, PolledAttr.setRequest, hRequest]
          · exact Nat.le_of_eq (since_of_requests (Function.update_of_ne hSame _ _) rfl)
      · exact absurd hStep (by simp)
  | poll connection =>
      simp only [polledSystem] at hStep
      split at hStep
      · next report checks number hRequest =>
          split_ifs at hStep with hNumber
          · obtain rfl := Option.some.inj hStep
            exact h.pollOne hRequest rfl hNumber (hCurrent report checks number hRequest hNumber)
          · obtain rfl := Option.some.inj hStep
            refine h.keep rfl rfl rfl rfl fun other place hPlace => ?_
            by_cases hSame : other = connection
            · subst hSame
              have hPassed : ¬ number ≤ place := by omega
              simp [PolledAttr.since, PolledAttr.setRequest, hRequest, hPassed]
            · exact Nat.le_of_eq (since_of_requests (Function.update_of_ne hSame _ _) rfl)
      · exact absurd hStep (by simp)
  | stop connection =>
      simp only [polledSystem] at hStep
      split at hStep
      · obtain rfl := Option.some.inj hStep
        exact h.stopped connection hCurrent
      · exact absurd hStep (by simp)

end Invariant

/-! ### Two connections -/

/-- `QUEUED_LINES` of one table, with nothing queued. -/
def quietAttr : PolledAttr String where
  index := 1
  values := fun _ => "0"
  lastValues := fun _ => ""
  updateIndex := fun _ => 1
  mutex := none
  contexts := fun _ => 0
  requests := fun _ => none
  seen := fun _ _ => none
  polls := []

/-- `*CHANGES.ATTR?` of a connection. -/
def attrRequest (connection : Nat) : List (PolledEvent String) :=
  [.request connection false, .enter connection, .poll connection, .poll connection]

def PolledAttr.after (attr : PolledAttr String) (events : List (PolledEvent String)) :
    PolledAttr String :=
  ((polledSystem 1).run events attr).getD attr

/-- The value moves when both have seen it, and the connection that has asked last finds it. -/
def bothAsked : List (PolledEvent String) := attrRequest 0 ++ attrRequest 1 ++ [.change 0 "4"]

end Server
