import ZmqppPty.Message.Signal
import ZmqppPty.Lib.Handles

/-!
# Actor objects (actor.cpp)

The actor objects that exist are a table; `π` is the type of the pipes to their children.

* `construct`, `moveAssign`, `moveConstruct`   the special members that touch `parent_pipe_`;
* `stop`, `stopWith`                           the parts of `stop` before and after its wait;
* `pipe_moveAssign`                            a move is a transfer of the pipe.
-/

namespace Zmqpp

structure Actor (π : Type*) where
  /-- `parent_pipe_` -/
  parentPipe : Option π
  stopped : Bool
  /-- no constructor initialises it -/
  retval : Option Bool
deriving DecidableEq

namespace Actor
variable {π : Type*}

/-- what the constructor leaves when it returns -/
def construct (pipe : π) : Actor π := ⟨some pipe, false, none⟩

inductive StopCall where
  | returns (value : Option Bool)
  /-- `parent_pipe_->wait()` -/
  | waits
deriving DecidableEq, Repr

/-- `stop` up to its wait: the pipe that `signal::stop` is sent to, and how it goes on -/
def stop (a : Actor π) (block : Bool) : Option π × StopCall :=
  match a.parentPipe with
  | none => (none, .returns (some false))
  | some pipe =>
    if block then
      if a.stopped then (some pipe, .returns a.retval) else (some pipe, .waits)
    else (some pipe, .returns (some true))

/-- the rest of `stop`, when the wait has returned `sig` -/
def stopWith (a : Actor π) (sig : Int64) : Except Failure (Actor π × Bool) :=
  if sig = Signal.ok.value ∨ sig = Signal.ko.value then
    .ok ({ a with stopped := true, retval := some (sig = Signal.ok.value) },
      sig = Signal.ok.value)
  else .error .assertFailed

end Actor

/-- the actor objects that exist, by their address -/
abbrev Actors (π : Type*) := ℕ → Option (Actor π)

namespace Actors
variable {π : Type*}

/-- `parent_pipe_` of the object `x`, null also where there is none -/
def pipe (actors : Actors π) (x : ℕ) : Option π := (actors x).bind Actor.parentPipe

/-- `operator=(actor &&o)`.  `this` may be `o`. -/
def moveAssign (actors : Actors π) (this o : ℕ) : Actors π :=
  match actors o with
  | none => actors
  | some source =>
    let actors := Function.update actors this
      (some ⟨source.parentPipe, source.stopped, source.retval⟩)
    Function.update actors o ((actors o).map fun a => { a with parentPipe := none })

/-- the move constructor assigns to the members it has not initialised -/
def moveConstruct (actors : Actors π) (this o : ℕ) : Actors π := actors.moveAssign this o

theorem pipe_of_some {actors : Actors π} {x : ℕ} {a : Actor π} (h : actors x = some a) :
    actors.pipe x = a.parentPipe := by
  unfold pipe
  rw [h]
  rfl

theorem pipe_of_none {actors : Actors π} {x : ℕ} (h : actors x = none) :
    actors.pipe x = none := by
  unfold pipe
  rw [h]
  rfl

/-! ## moves -/

/-- the two objects after a move -/
theorem moveAssign_eq {actors : Actors π} {this o : ℕ} {source : Actor π}
    (h : actors o = some source) :
    actors.moveAssign this o =
      Function.update (Function.update actors this (some source)) o
        (some { source with parentPipe := none }) := by
  unfold moveAssign
  rw [h]
  dsimp only
  by_cases ho : o = this
  · subst ho
    rw [Function.update_self]
    rfl
  · rw [Function.update_of_ne ho, h]
    rfl

/-- **A move is a transfer of the pipe**, also an assignment to itself. -/
theorem pipe_moveAssign {actors : Actors π} {o : ℕ} (h : actors o ≠ none) (this : ℕ) :
    (actors.moveAssign this o).pipe = Lib.Handles.transfer actors.pipe this o := by
  obtain ⟨source, hsource⟩ := Option.ne_none_iff_exists'.mp h
  have hpipe : actors.pipe o = source.parentPipe := pipe_of_some hsource
  rw [moveAssign_eq hsource]
  funext x
  unfold Lib.Handles.transfer
  rw [hpipe, Function.update_apply, Function.update_apply]
  unfold pipe
  rw [Function.update_apply, Function.update_apply]
  by_cases ho : x = o
  · rw [if_pos ho, if_pos ho]
    rfl
  · rw [if_neg ho, if_neg ho]
    by_cases hthis : x = this
    · rw [if_pos hthis, if_pos hthis]
      rfl
    · rw [if_neg hthis, if_neg hthis]

theorem pipe_update (actors : Actors π) (x : ℕ) (a : Option (Actor π)) :
    pipe (Function.update actors x a)
      = Function.update actors.pipe x (a.bind Actor.parentPipe) := by
  funext y
  unfold pipe
  rw [Function.update_apply, Function.update_apply]
  split <;> rfl

end Actors
end Zmqpp
