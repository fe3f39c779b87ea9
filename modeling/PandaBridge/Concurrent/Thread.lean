import Mathlib.Logic.Relation

/-! One sequential program running against a shared world that also moves by
itself. A program is the tree of its shared accesses; every node carries the
program's own memory, so that a run can be inspected between two accesses. The
local computation that follows an access belongs to that access. -/
namespace Concurrent

/-- A program that is finished, or is about to make one shared access. -/
inductive Thread (Fields Request : Type) (Answer : Request → Type) (Result : Type) : Type
  | done (fields : Fields) (result : Result)
  | access (fields : Fields) (request : Request)
      (next : Answer request → Thread Fields Request Answer Result)

variable {Fields Request Result NextResult Shared Choice : Type} {Answer : Request → Type}

namespace Thread

/-- The program's own memory at this point. -/
def fields : Thread Fields Request Answer Result → Fields
  | done fields _ => fields
  | access fields _ _ => fields

def result? : Thread Fields Request Answer Result → Option Result
  | done _ result => some result
  | access _ _ _ => none

def bind : Thread Fields Request Answer Result →
    (Result → Fields → Thread Fields Request Answer NextResult) →
    Thread Fields Request Answer NextResult
  | done fields result, next => next result fields
  | access fields request rest, next => access fields request fun answer => (rest answer).bind next

@[simp] theorem bind_done (fields : Fields) (result : Result)
    (next : Result → Fields → Thread Fields Request Answer NextResult) :
    (done fields result).bind next = next result fields := rfl

@[simp] theorem bind_access (fields : Fields) (request : Request)
    (rest : Answer request → Thread Fields Request Answer Result)
    (next : Result → Fields → Thread Fields Request Answer NextResult) :
    (access fields request rest).bind next =
      access fields request fun answer => (rest answer).bind next := rfl

/-- Embed a program over a part of the memory; `put` restores the rest of it. -/
def mapFields {Part : Type} (put : Part → Fields) :
    Thread Part Request Answer Result → Thread Fields Request Answer Result
  | done part result => done (put part) result
  | access part request next => access (put part) request fun answer => (next answer).mapFields put

end Thread

/-- Code started from a value of the program's own memory. -/
def Code (Fields Request : Type) (Answer : Request → Type) (Result : Type) : Type :=
  Fields → Thread Fields Request Answer Result

instance : Monad (Code Fields Request Answer) where
  pure result := fun fields => .done fields result
  bind first next := fun fields => (first fields).bind fun result after => next result after

namespace Code

def get : Code Fields Request Answer Fields := fun fields => .done fields fields

def modify (change : Fields → Fields) : Code Fields Request Answer Unit :=
  fun fields => .done (change fields) ()

/-- Make one shared access and return its answer. -/
def ask (request : Request) : Code Fields Request Answer (Answer request) :=
  fun fields => .access fields request fun answer => .done fields answer

/-- Run code over a part of the memory, leaving the other fields alone. -/
def focus {Part : Type} (part : Fields → Part) (put : Part → Fields → Fields)
    (code : Code Part Request Answer Result) : Code Fields Request Answer Result :=
  fun fields => (code (part fields)).mapFields fun value => put value fields

@[simp] theorem pure_apply (result : Result) (fields : Fields) :
    (pure result : Code Fields Request Answer Result) fields = .done fields result := rfl

@[simp] theorem bind_apply (first : Code Fields Request Answer Result)
    (next : Result → Code Fields Request Answer NextResult) (fields : Fields) :
    (first >>= next) fields = (first fields).bind fun result after => next result after := rfl

@[simp] theorem get_apply (fields : Fields) :
    (get : Code Fields Request Answer Fields) fields = .done fields fields := rfl

@[simp] theorem modify_apply (change : Fields → Fields) (fields : Fields) :
    (modify change : Code Fields Request Answer Unit) fields = .done (change fields) () := rfl

@[simp] theorem ask_apply (request : Request) (fields : Fields) :
    (ask request : Code Fields Request Answer (Answer request)) fields =
      .access fields request fun answer => .done fields answer := rfl

/-- Run `body` on every element in order and collect the results. -/
def forEach {Item : Type} (body : Item → Code Fields Request Answer Result) :
    List Item → Code Fields Request Answer (List Result)
  | [] => pure []
  | item :: rest => do
      let first ← body item
      let others ← forEach body rest
      pure (first :: others)

end Code

/-- The shared state's two kinds of steps: by itself, and while it serves an
access. Everything that is not determined is in the choice. -/
structure World (Shared Choice Request : Type) (Answer : Request → Type) where
  idle : Choice → Shared → Shared
  serve : (request : Request) → Choice → Shared → Answer request × Shared

structure Config (Shared Fields Request : Type) (Answer : Request → Type) (Result : Type) where
  shared : Shared
  thread : Thread Fields Request Answer Result

/-- Who moves next, with the choice the world makes in that step. -/
inductive Move (Choice : Type)
  | idle (choice : Choice)
  | serve (choice : Choice)

/-- What a move does, as a guard sees it: a finished program makes no access. -/
inductive Label (Choice Request : Type)
  | idle (choice : Choice)
  | serve (request : Request) (choice : Choice)
  | finished

namespace World

variable (world : World Shared Choice Request Answer)

def move : Move Choice → Config Shared Fields Request Answer Result →
    Config Shared Fields Request Answer Result
  | .idle choice, ⟨shared, thread⟩ => ⟨world.idle choice shared, thread⟩
  | .serve choice, ⟨shared, .access _ request next⟩ =>
      ⟨(world.serve request choice shared).2, next (world.serve request choice shared).1⟩
  | .serve _, ⟨shared, .done fields result⟩ => ⟨shared, .done fields result⟩

/-- Run a schedule: a list of moves, each with its choice. -/
def run : List (Move Choice) → Config Shared Fields Request Answer Result →
    Config Shared Fields Request Answer Result
  | [], config => config
  | first :: rest, config => run rest (world.move first config)

end World

/-- The label of a move in a configuration. -/
def Move.label : Move Choice → Config Shared Fields Request Answer Result → Label Choice Request
  | .idle choice, _ => .idle choice
  | .serve choice, ⟨_, .access _ request _⟩ => .serve request choice
  | .serve _, ⟨_, .done _ _⟩ => .finished

/-- A condition on the state before a step and on the step itself. -/
abbrev Guard (Shared Fields Choice Request : Type) :=
  Shared → Fields → Label Choice Request → Prop

/-- Every step of the schedule meets the guard in the state it is taken from. -/
def World.Guarded (world : World Shared Choice Request Answer)
    (guard : Guard Shared Fields Choice Request) :
    List (Move Choice) → Config Shared Fields Request Answer Result → Prop
  | [], _ => True
  | first :: rest, config =>
      guard config.shared config.thread.fields (first.label config) ∧
        world.Guarded guard rest (world.move first config)

instance World.Guarded.decidable (world : World Shared Choice Request Answer)
    (guard : Guard Shared Fields Choice Request)
    [∀ shared fields label, Decidable (guard shared fields label)] :
    (schedule : List (Move Choice)) → (config : Config Shared Fields Request Answer Result) →
      Decidable (world.Guarded guard schedule config)
  | [], _ => isTrue trivial
  | first :: rest, config =>
      have := World.Guarded.decidable world guard rest (world.move first config)
      inferInstanceAs (Decidable (_ ∧ _))

theorem World.guarded_true (world : World Shared Choice Request Answer)
    (schedule : List (Move Choice)) (config : Config Shared Fields Request Answer Result) :
    world.Guarded (fun _ _ _ => True) schedule config := by
  induction schedule generalizing config with
  | nil => trivial
  | cons head tail ih => exact ⟨trivial, ih (world.move head config)⟩

section Accesses

/-- Whatever the answers are, the program makes at most this many accesses. -/
def Thread.FinishesIn : Nat → Thread Fields Request Answer Result → Prop
  | _, .done _ _ => True
  | 0, .access _ _ _ => False
  | count + 1, .access _ _ next => ∀ answer, (next answer).FinishesIn count

@[simp] theorem Thread.finishesIn_done (count : Nat) (fields : Fields) (result : Result) :
    (done fields result : Thread Fields Request Answer Result).FinishesIn count := by
  cases count <;> trivial

/-- The number of moves in a schedule that serve the program. -/
def serveCount (schedule : List (Move Choice)) : Nat :=
  schedule.countP fun move => move matches .serve _

theorem Thread.FinishesIn.mono {thread : Thread Fields Request Answer Result} {count more : Nat}
    (h : thread.FinishesIn count) (hMore : count ≤ more) : thread.FinishesIn more := by
  induction thread generalizing count more with
  | done fields result => exact finishesIn_done more fields result
  | access fields request next ih =>
      cases count with
      | zero => exact h.elim
      | succ count =>
          obtain ⟨more, rfl⟩ : ∃ m, more = m + 1 := ⟨more - 1, by omega⟩
          intro answer
          exact ih answer (h answer) (by omega)

theorem Thread.FinishesIn.bind {thread : Thread Fields Request Answer Result}
    {next : Result → Fields → Thread Fields Request Answer NextResult} {first second : Nat}
    (hFirst : thread.FinishesIn first)
    (hNext : ∀ result fields, (next result fields).FinishesIn second) :
    (thread.bind next).FinishesIn (first + second) := by
  induction thread generalizing first with
  | done fields result => exact (hNext result fields).mono (by omega)
  | access fields request rest ih =>
      cases first with
      | zero => exact hFirst.elim
      | succ first =>
          rw [Nat.succ_add]
          intro answer
          exact ih answer (hFirst answer)

theorem Thread.FinishesIn.mapFields {Part : Type} {put : Part → Fields}
    {thread : Thread Part Request Answer Result} {count : Nat} (h : thread.FinishesIn count) :
    (thread.mapFields put).FinishesIn count := by
  induction thread generalizing count with
  | done part result => exact finishesIn_done count (put part) result
  | access part request next ih =>
      cases count with
      | zero => exact h.elim
      | succ count =>
          intro answer
          exact ih answer (h answer)

theorem Code.forEach_finishesIn {Item : Type} {body : Item → Code Fields Request Answer Result}
    {count : Nat} (hBody : ∀ item fields, (body item fields).FinishesIn count)
    (items : List Item) (fields : Fields) :
    (Code.forEach body items fields).FinishesIn (items.length * count) := by
  induction items generalizing fields with
  | nil => exact Thread.finishesIn_done _ fields []
  | cons item rest ih =>
      rw [List.length_cons, Nat.succ_mul, Nat.add_comm]
      refine (hBody item fields).bind fun first after => ?_
      exact (ih after).bind fun others last => Thread.finishesIn_done 0 last (first :: others)

/-- A schedule that serves the program often enough runs it to its end. -/
theorem World.run_finishes (world : World Shared Choice Request Answer)
    (schedule : List (Move Choice)) (config : Config Shared Fields Request Answer Result)
    (hFinishes : config.thread.FinishesIn (serveCount schedule)) :
    ∃ result, (world.run schedule config).thread.result? = some result := by
  induction schedule generalizing config with
  | nil =>
      obtain ⟨shared, thread⟩ := config
      cases thread with
      | done fields result => exact ⟨result, rfl⟩
      | access fields request next => exact hFinishes.elim
  | cons head tail ih =>
      apply ih
      obtain ⟨shared, thread⟩ := config
      cases head with
      | idle choice => simpa [serveCount, move] using hFinishes
      | serve choice =>
          cases thread with
          | done fields result => exact Thread.finishesIn_done _ fields result
          | access fields request next =>
              simp only [serveCount, List.countP_cons, if_true] at hFinishes
              exact hFinishes _

end Accesses

end Concurrent
