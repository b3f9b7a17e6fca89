/-!
# Taking turns

The activities of a system belong to tasks, and the tasks take turns. A task that can go on joins
the end of a queue, and the task at the front goes on until it has to wait. Of several tasks that
come to be able to go on at once, those whose activity acted longest ago join first. What takes its
time outside the system comes when no task can go on, one thing at a time.
-/

namespace TorrentCore

/-- How a system goes on: `σ` is its state, `τ` its tasks and `α` their activities. -/
structure TaskSystem (σ τ α : Type) where
  /-- The activities of all tasks, in the order in which a task tries its own. -/
  activities : σ → List α
  outside : σ → List α
  task : α → τ
  /-- Whether it counts when an activity acted. It does not for those that are over then. -/
  lasting : α → Bool
  /-- The state after an activity acted, if it does not have to wait. -/
  act? : σ → α → Option σ

structure Turns (τ α : Type) where
  /-- The tasks that can go on, and have not been seen to wait since. -/
  queue : List τ
  /-- Activities that have acted, the last one at the end. -/
  past : List α

namespace TaskSystem

variable {σ τ α : Type} [DecidableEq τ] [DecidableEq α]

def joining (y : TaskSystem σ τ α) (s : σ) (t : Turns τ α) : List τ :=
  let able := (y.activities s).filter fun a =>
    !t.queue.contains (y.task a) && (y.act? s a).isSome
  ((able.filter fun a => !t.past.contains a) ++ t.past.filter able.contains).map y.task |>.eraseDups

/-- The first activity of a list that does not have to wait, and the state after it. -/
def first? (y : TaskSystem σ τ α) (s : σ) : List α → Option (α × σ)
  | [] => none
  | a :: rest => match y.act? s a with
    | some s => some (a, s)
    | none => y.first? s rest

def note (y : TaskSystem σ τ α) (t : Turns τ α) (a : α) : Turns τ α :=
  if y.lasting a then { t with past := t.past.filter (· != a) ++ [a] } else t

/-- The next thing that happens: an activity acts, or the task at the front is seen to wait. -/
def step? (y : TaskSystem σ τ α) (s : σ) (t : Turns τ α) : Option (σ × Turns τ α) :=
  let t := { t with queue := t.queue ++ y.joining s t }
  match t.queue with
  | task :: rest =>
    match y.first? s ((y.activities s).filter fun a => y.task a = task) with
    | some (a, s) => some (s, y.note t a)
    | none => some (s, { t with queue := rest })
  | [] => (y.first? s (y.outside s)).map fun (a, s) => (s, y.note { t with queue := [y.task a] } a)

def run (y : TaskSystem σ τ α) : Nat → σ → Turns τ α → σ × Turns τ α
  | 0, s, t => (s, t)
  | fuel + 1, s, t => match y.step? s t with
    | some (s, t) => y.run fuel s t
    | none => (s, t)

end TaskSystem

namespace Turns

def start {τ α : Type} : Turns τ α := ⟨[], []⟩

end Turns

end TorrentCore
