import PandaBridge.Concurrent.Thread

/-! Pre- and postconditions for a program in a moving world. An assertion that
stands before an access has to survive every step of the world, because any
number of them may come first; the postcondition of a whole program only has to
do so when the program is really finished. -/
namespace Concurrent

variable {Fields Request Result NextResult Shared Choice : Type} {Answer : Request → Type}
variable (world : World Shared Choice Request Answer)
variable (guard : Guard Shared Fields Choice Request) (inv : Shared → Fields → Prop)

/-- `assertion` is kept by every guarded step of the world on its own. -/
def Stable (fields : Fields) (assertion : Shared → Prop) : Prop :=
  ∀ shared choice, assertion shared → guard shared fields (.idle choice) →
    assertion (world.idle choice shared)

/-- Every guarded run of the program from this state keeps `inv`, and ends, if
it ends, with `post`. -/
def Safe (post : Result → Fields → Shared → Prop) :
    Thread Fields Request Answer Result → Shared → Prop
  | .done fields result, shared => post result fields shared
  | .access fields request next, shared => ∃ assertion : Shared → Prop,
      assertion shared ∧ Stable world guard fields assertion ∧
      (∀ s, assertion s → inv s fields) ∧
      ∀ s choice, assertion s → guard s fields (.serve request choice) →
        Safe post (next (world.serve request choice s).1) (world.serve request choice s).2

/-- The program's memory and the shared state satisfy `pre`, so it runs safely. -/
def Triple (pre : Fields → Shared → Prop) (code : Code Fields Request Answer Result)
    (post : Result → Fields → Shared → Prop) : Prop :=
  ∀ fields shared, pre fields shared → Safe world guard inv post (code fields) shared

variable {world guard inv}

/-- One access: `assertion` is stable, keeps the invariant, and every served
step leaves the rest of the program safe. -/
theorem Safe.access {post : Result → Fields → Shared → Prop} {fields : Fields} {request : Request}
    {next : Answer request → Thread Fields Request Answer Result} {shared : Shared}
    (assertion : Shared → Prop) (hNow : assertion shared)
    (hStable : Stable world guard fields assertion) (hInv : ∀ s, assertion s → inv s fields)
    (hServe : ∀ s choice, assertion s → guard s fields (.serve request choice) →
      Safe world guard inv post (next (world.serve request choice s).1)
        (world.serve request choice s).2) :
    Safe world guard inv post (.access fields request next) shared :=
  ⟨assertion, hNow, hStable, hInv, hServe⟩

theorem Safe.weaken {post post' : Result → Fields → Shared → Prop}
    (hPost : ∀ result fields shared, post result fields shared → post' result fields shared)
    {thread : Thread Fields Request Answer Result} {shared : Shared}
    (hSafe : Safe world guard inv post thread shared) :
    Safe world guard inv post' thread shared := by
  induction thread generalizing shared with
  | done fields result => exact hPost _ _ _ hSafe
  | access fields request next ih =>
      obtain ⟨assertion, hNow, hStable, hInv, hServe⟩ := hSafe
      exact ⟨assertion, hNow, hStable, hInv, fun s choice hs hg => ih _ (hServe s choice hs hg)⟩

theorem Safe.bind {Q : Result → Fields → Shared → Prop}
    {post : NextResult → Fields → Shared → Prop}
    {thread : Thread Fields Request Answer Result}
    {next : Result → Fields → Thread Fields Request Answer NextResult} {shared : Shared}
    (hFirst : Safe world guard inv Q thread shared)
    (hNext : ∀ result fields s, Q result fields s →
      Safe world guard inv post (next result fields) s) :
    Safe world guard inv post (thread.bind next) shared := by
  induction thread generalizing shared with
  | done fields result => exact hNext _ _ _ hFirst
  | access fields request rest ih =>
      obtain ⟨assertion, hNow, hStable, hInv, hServe⟩ := hFirst
      exact ⟨assertion, hNow, hStable, hInv, fun s choice hs hg => ih _ (hServe s choice hs hg)⟩

theorem Safe.mapFields {Part : Type} {put : Part → Fields}
    {post : Result → Fields → Shared → Prop} {thread : Thread Part Request Answer Result}
    {shared : Shared}
    (hSafe : Safe world (fun s part label => guard s (put part) label)
      (fun s part => inv s (put part)) (fun result part s => post result (put part) s)
      thread shared) :
    Safe world guard inv post (thread.mapFields put) shared := by
  induction thread generalizing shared with
  | done part result => exact hSafe
  | access part request next ih =>
      obtain ⟨assertion, hNow, hStable, hInv, hServe⟩ := hSafe
      exact ⟨assertion, hNow, hStable, hInv, fun s choice hs hg => ih _ (hServe s choice hs hg)⟩

/-- Rule for the result of a computation without accesses. -/
theorem Triple.pure {pre : Fields → Shared → Prop} {result : Result}
    {post : Result → Fields → Shared → Prop}
    (hPost : ∀ fields shared, pre fields shared → post result fields shared) :
    Triple world guard inv pre (Pure.pure result : Code Fields Request Answer Result) post :=
  fun fields shared hPre => hPost fields shared hPre

theorem Triple.bind {pre : Fields → Shared → Prop} {Q : Result → Fields → Shared → Prop}
    {post : NextResult → Fields → Shared → Prop} {first : Code Fields Request Answer Result}
    {next : Result → Code Fields Request Answer NextResult}
    (hFirst : Triple world guard inv pre first Q)
    (hNext : ∀ result, Triple world guard inv (Q result) (next result) post) :
    Triple world guard inv pre (first >>= next) post :=
  fun fields shared hPre => (hFirst fields shared hPre).bind fun result => hNext result

theorem Triple.modify {pre : Fields → Shared → Prop} {change : Fields → Fields}
    {post : Unit → Fields → Shared → Prop}
    (hPost : ∀ fields shared, pre fields shared → post () (change fields) shared) :
    Triple world guard inv pre (Code.modify change : Code Fields Request Answer Unit) post :=
  fun fields shared hPre => hPost fields shared hPre

/-- One access: the precondition is stable, keeps the invariant, and is turned
into the postcondition by the served step. -/
theorem Triple.ask {pre : Fields → Shared → Prop} {request : Request}
    {post : Answer request → Fields → Shared → Prop}
    (hStable : ∀ fields, Stable world guard fields (pre fields))
    (hInv : ∀ fields shared, pre fields shared → inv shared fields)
    (hServe : ∀ fields shared choice, pre fields shared →
      guard shared fields (.serve request choice) →
      post (world.serve request choice shared).1 fields (world.serve request choice shared).2) :
    Triple world guard inv pre (Code.ask request) post :=
  fun fields _ hPre => ⟨pre fields, hPre, hStable fields, hInv fields, hServe fields⟩

theorem Triple.consequence {pre P : Fields → Shared → Prop}
    {post Q : Result → Fields → Shared → Prop} {code : Code Fields Request Answer Result}
    (hCode : Triple world guard inv P code Q)
    (hPre : ∀ fields shared, pre fields shared → P fields shared)
    (hPost : ∀ result fields shared, Q result fields shared → post result fields shared) :
    Triple world guard inv pre code post :=
  fun fields shared h => (hCode fields shared (hPre fields shared h)).weaken hPost

private theorem Triple.forEach_from {Item : Type} {body : Item → Code Fields Request Answer Result}
    {L : List (Item × Result) → Fields → Shared → Prop} (all : List Item)
    (hBody : ∀ finished item rest, all = finished.map Prod.fst ++ item :: rest →
      Triple world guard inv (L finished) (body item)
        (fun result => L (finished ++ [(item, result)])))
    (items : List Item) (finished : List (Item × Result))
    (hAll : all = finished.map Prod.fst ++ items) :
    Triple world guard inv (L finished) (Code.forEach body items)
      (fun results fields shared => results.length = items.length ∧
        L (finished ++ items.zip results) fields shared) := by
  induction items generalizing finished with
  | nil => exact Triple.pure fun fields shared h => ⟨rfl, by simpa using h⟩
  | cons item rest ih =>
      refine Triple.bind (hBody finished item rest hAll) fun first => ?_
      refine Triple.bind (ih (finished ++ [(item, first)]) (by simpa using hAll)) fun others => ?_
      refine Triple.pure fun fields shared h => ⟨by simp [h.1], ?_⟩
      simpa using h.2

/-- Rule for a loop over a list: `L finished` holds after the items in
`finished`, and the body may use where in the list its item stands. -/
theorem Triple.forEach {Item : Type} {body : Item → Code Fields Request Answer Result}
    {L : List (Item × Result) → Fields → Shared → Prop} {items : List Item}
    (hBody : ∀ finished item rest, items = finished.map Prod.fst ++ item :: rest →
      Triple world guard inv (L finished) (body item)
        (fun result => L (finished ++ [(item, result)]))) :
    Triple world guard inv (L []) (Code.forEach body items)
      (fun results fields shared => results.length = items.length ∧
        L (items.zip results) fields shared) := by
  simpa using Triple.forEach_from items hBody items [] (by simp)

section Soundness

variable {post : Result → Fields → Shared → Prop}
variable (hStable : ∀ result fields, Stable world guard fields (post result fields))

include hStable in
theorem Safe.move {config : Config Shared Fields Request Answer Result} {move : Move Choice}
    (hGuard : guard config.shared config.thread.fields (move.label config))
    (hSafe : Safe world guard inv post config.thread config.shared) :
    Safe world guard inv post (world.move move config).thread (world.move move config).shared := by
  obtain ⟨shared, thread⟩ := config
  cases thread with
  | done fields result =>
      cases move with
      | idle choice => exact hStable result fields shared choice hSafe hGuard
      | serve choice => exact hSafe
  | access fields request next =>
      obtain ⟨assertion, hNow, hKeep, hInv, hServe⟩ := hSafe
      cases move with
      | idle choice => exact ⟨assertion, hKeep shared choice hNow hGuard, hKeep, hInv, hServe⟩
      | serve choice => exact hServe shared choice hNow hGuard

include hStable in
theorem Safe.run {config : Config Shared Fields Request Answer Result}
    {schedule : List (Move Choice)} (hGuarded : world.Guarded guard schedule config)
    (hSafe : Safe world guard inv post config.thread config.shared) :
    Safe world guard inv post (world.run schedule config).thread
      (world.run schedule config).shared := by
  induction schedule generalizing config with
  | nil => exact hSafe
  | cons head tail ih => exact ih hGuarded.2 (Safe.move hStable hGuarded.1 hSafe)

theorem Safe.inv_fields
    (hInv : ∀ result fields shared, post result fields shared → inv shared fields)
    {thread : Thread Fields Request Answer Result} {shared : Shared}
    (hSafe : Safe world guard inv post thread shared) : inv shared thread.fields := by
  cases thread with
  | done fields result => exact hInv _ _ _ hSafe
  | access fields request next =>
      obtain ⟨assertion, hNow, _, hInv, _⟩ := hSafe
      exact hInv shared hNow

theorem Safe.post_of_result {thread : Thread Fields Request Answer Result} {shared : Shared}
    (hSafe : Safe world guard inv post thread shared) {result : Result}
    (hResult : thread.result? = some result) : post result thread.fields shared := by
  cases thread with
  | done fields value =>
      obtain rfl : value = result := by simpa [Thread.result?] using hResult
      exact hSafe
  | access fields request next => simp [Thread.result?] at hResult

include hStable in
/-- Soundness: a triple whose postcondition is stable holds along every guarded
run, in every configuration the run passes through. -/
theorem Triple.run {pre : Fields → Shared → Prop} {code : Code Fields Request Answer Result}
    (hCode : Triple world guard inv pre code post)
    (hInv : ∀ result fields shared, post result fields shared → inv shared fields)
    {fields : Fields} {shared : Shared} (hPre : pre fields shared)
    {schedule : List (Move Choice)}
    (hGuarded : world.Guarded guard schedule ⟨shared, code fields⟩) :
    inv (world.run schedule ⟨shared, code fields⟩).shared
        (world.run schedule ⟨shared, code fields⟩).thread.fields ∧
      ∀ result, (world.run schedule ⟨shared, code fields⟩).thread.result? = some result →
        post result (world.run schedule ⟨shared, code fields⟩).thread.fields
          (world.run schedule ⟨shared, code fields⟩).shared := by
  have hSafe := Safe.run hStable hGuarded (hCode fields shared hPre)
  exact ⟨hSafe.inv_fields hInv, fun result hResult => hSafe.post_of_result hResult⟩

end Soundness

end Concurrent
