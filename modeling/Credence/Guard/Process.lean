import Credence.Js.Map
import Credence.ProofKit.Lists
import Credence.ProofKit.Runs

/-! `IdempotencyGuard.process` over one cache whose `exists` and `set` are atomic and succeed. A
step goes from one `await` to the next. -/

namespace Credence.Guard

open Js

variable {T : Type}

/-- A call of `process`; the calls for a message are numbered. -/
structure CallId where
  handlerType : String
  messageId : String
  number : Nat
  deriving DecidableEq

def getMarkerKey (handlerType messageId : String) : String := handlerType ++ ":" ++ messageId

def CallId.markerKey (id : CallId) : String := getMarkerKey id.handlerType id.messageId

/-- Where a call is: `exists` or `set` is requested or has been executed, the handler runs, or the
call has ended. -/
inductive Stage (T : Type) where
  | checking
  | checked (found : Bool)
  | marking
  | marked
  | running
  | executed (value : T)
  | failed (error : String)
  | duplicate
  deriving DecidableEq

structure World (T : Type) where
  calls : List (CallId × Stage T)
  markers : List String

def World.start : World T := ⟨[], []⟩

inductive Action (T : Type) where
  | process (id : CallId)
  | check (id : CallId)
  | mark (id : CallId)
  | reply (id : CallId)
  | resolve (id : CallId) (value : T)
  | throw (id : CallId) (error : String)

def Action.call : Action T → CallId
  | process id | check id | mark id | reply id | resolve id _ | throw id _ => id

def advance (found : Bool) : Action T → Option (Stage T) → Option (Stage T × Bool)
  | .process _, none => some (.checking, false)
  | .check _, some .checking => some (.checked found, false)
  | .reply _, some (.checked true) => some (.duplicate, false)
  | .reply _, some (.checked false) => some (.marking, false)
  | .mark _, some .marking => some (.marked, true)
  | .reply _, some .marked => some (.running, false)
  | .resolve _ value, some .running => some (.executed value, false)
  | .throw _ error, some .running => some (.failed error, false)
  | _, _ => none

def World.has (w : World T) (key : String) : Bool := key ∈ w.markers

def World.take (w : World T) (id : CallId) (stage : Stage T) (marks : Bool) : World T where
  calls := Map.set id stage w.calls
  markers := if marks then id.markerKey :: w.markers else w.markers

def step (action : Action T) (w : World T) : Option (World T) :=
  (advance (w.has action.call.markerKey) action (Map.get action.call w.calls)).map fun next =>
    w.take action.call next.1 next.2

variable {w after : World T} {id other : CallId} {stage : Stage T} {marks : Bool}

theorem World.get_take : Map.get other (w.take id stage marks).calls =
    if id = other then some stage else Map.get other w.calls := Map.get_set ..

theorem World.has_take {key : String} : (w.take id stage marks).has key = true ↔
    w.has key = true ∨ marks = true ∧ id.markerKey = key := by
  cases marks
  · simp [World.has, World.take]
  · simp only [World.has, World.take, if_true, List.mem_cons, decide_eq_true_eq, true_and]
    exact ⟨fun h => h.symm.imp_right Eq.symm, fun h => (h.imp_right Eq.symm).symm⟩

inductive Moves (found : Bool) : Option (Stage T) → Stage T → Bool → Prop
  | starts : Moves found none .checking false
  | checks : Moves found (some .checking) (.checked found) false
  | skips : Moves found (some (.checked true)) .duplicate false
  | goes : Moves found (some (.checked false)) .marking false
  | marks : Moves found (some .marking) .marked true
  | runs : Moves found (some .marked) .running false
  | ends (value : T) : Moves found (some .running) (.executed value) false
  | throws (error : String) : Moves found (some .running) (.failed error) false

theorem moves_of_advance {found : Bool} {action : Action T} {before : Option (Stage T)}
    (h : advance found action before = some (stage, marks)) : Moves found before stage marks := by
  unfold advance at h
  split at h <;> cases h
  · exact .starts
  · exact .checks
  · exact .skips
  · exact .goes
  · exact .marks
  · exact .runs
  · exact .ends _
  · exact .throws _

theorem step_take {action : Action T} (h : step action w = some after) :
    ∃ stage marks, after = w.take action.call stage marks ∧
      Moves (w.has action.call.markerKey) (Map.get action.call w.calls) stage marks := by
  obtain ⟨⟨stage, marks⟩, ha, rfl⟩ := Option.map_eq_some_iff.mp h
  exact ⟨stage, marks, rfl, moves_of_advance ha⟩

end Credence.Guard
