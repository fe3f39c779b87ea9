import PandaBridge.Concurrent.Thread

/-! A program whose accesses are answered by a function: it runs by itself to its result. -/
namespace Concurrent

variable {Fields Request Result NextResult : Type} {Answer : Request → Type}

/-- Run a program with these answers. -/
def Thread.eval (oracle : (request : Request) → Answer request) :
    Thread Fields Request Answer Result → Fields × Result
  | .done fields result => (fields, result)
  | .access _ request next => (next (oracle request)).eval oracle

theorem Thread.eval_bind (oracle : (request : Request) → Answer request)
    (thread : Thread Fields Request Answer Result)
    (next : Result → Fields → Thread Fields Request Answer NextResult) :
    (thread.bind next).eval oracle =
      (next (thread.eval oracle).2 (thread.eval oracle).1).eval oracle := by
  induction thread with
  | done fields result => rfl
  | access fields request rest ih => exact ih (oracle request)

namespace Code

/-- Run code from a value of its own memory. -/
def eval (oracle : (request : Request) → Answer request) (code : Code Fields Request Answer Result)
    (fields : Fields) : Fields × Result :=
  (code fields).eval oracle

variable (oracle : (request : Request) → Answer request)

@[simp] theorem eval_pure (result : Result) (fields : Fields) :
    (pure result : Code Fields Request Answer Result).eval oracle fields = (fields, result) := rfl

@[simp] theorem eval_get (fields : Fields) :
    (get : Code Fields Request Answer Fields).eval oracle fields = (fields, fields) := rfl

@[simp] theorem eval_modify (change : Fields → Fields) (fields : Fields) :
    (modify change : Code Fields Request Answer Unit).eval oracle fields = (change fields, ()) := rfl

@[simp] theorem eval_ask (request : Request) (fields : Fields) :
    (ask request : Code Fields Request Answer (Answer request)).eval oracle fields =
      (fields, oracle request) := rfl

theorem eval_bind (first : Code Fields Request Answer Result)
    (next : Result → Code Fields Request Answer NextResult) (fields : Fields) :
    (first >>= next).eval oracle fields =
      (next (first.eval oracle fields).2).eval oracle (first.eval oracle fields).1 :=
  Thread.eval_bind oracle (first fields) fun result after => next result after

/-- The step of a program: what the first part returns, the second part starts from. -/
theorem eval_bind_of {first : Code Fields Request Answer Result}
    {next : Result → Code Fields Request Answer NextResult} {fields after : Fields}
    {result : Result} (hFirst : first.eval oracle fields = (after, result)) :
    (first >>= next).eval oracle fields = (next result).eval oracle after := by
  rw [eval_bind, hFirst]

theorem eval_forEach {Item : Type} {body : Item → Code Fields Request Answer Result}
    {value : Item → Result} {fields : Fields}
    (hBody : ∀ item, (body item).eval oracle fields = (fields, value item)) (items : List Item) :
    (forEach body items).eval oracle fields = (fields, items.map value) := by
  induction items with
  | nil => rfl
  | cons item rest ih =>
      rw [forEach, eval_bind_of oracle (hBody item), eval_bind_of oracle ih]
      rfl

end Code

end Concurrent
