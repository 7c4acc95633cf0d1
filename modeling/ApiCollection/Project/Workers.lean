/-!
# Workers

Files are extracted by workers that take them from one queue and send their results through one
channel. A pool is a state of this work, and a step is what one worker or the receiver does next.
Which step comes next is left open; a single worker that takes the files in order is one way to do
the work.
-/

namespace ApiCollection

variable {α β : Type}

/-- What a worker is doing. -/
inductive Worker (α : Type) where
  | idle
  /-- It has taken a file and not finished it. -/
  | busy (file : α)
  /-- It has found the queue empty and takes nothing any more. -/
  | stopped
  deriving DecidableEq, Repr

def Worker.isStopped : Worker α → Bool
  | .stopped => true
  | .idle | .busy _ => false

/-- A state of the work. -/
structure Pool (α β : Type) where
  /-- The files that no worker has taken. -/
  queue : List α
  workers : List (Worker α)
  /-- The results on their way. -/
  channel : List (α × β) := []
  /-- The results that have arrived, the first one first. -/
  received : List (α × β) := []
  deriving Repr

namespace Pool

/-- A number of workers before any of them has done anything. -/
def start (files : List α) (workers : Nat) : Pool α β :=
  { queue := files, workers := List.replicate workers .idle }

/-- What can happen next among workers that share a task. -/
inductive Step (task : α → β) : Pool α β → Pool α β → Prop where
  /-- An idle worker takes the first file of the queue. -/
  | take (before after : List (Worker α)) {file : α} {queue : List α}
      {channel received : List (α × β)} :
      Step task ⟨file :: queue, before ++ .idle :: after, channel, received⟩
        ⟨queue, before ++ .busy file :: after, channel, received⟩
  /-- A worker finishes its file and sends the result. -/
  | finish (before after : List (Worker α)) {file : α} {queue : List α}
      {channel received : List (α × β)} :
      Step task ⟨queue, before ++ .busy file :: after, channel, received⟩
        ⟨queue, before ++ .idle :: after, channel ++ [(file, task file)], received⟩
  /-- An idle worker finds the queue empty. -/
  | stop (before after : List (Worker α)) {channel received : List (α × β)} :
      Step task ⟨[], before ++ .idle :: after, channel, received⟩
        ⟨[], before ++ .stopped :: after, channel, received⟩
  /-- The first result of the channel arrives. -/
  | receive {result : α × β} {queue : List α} {workers : List (Worker α)}
      {channel received : List (α × β)} :
      Step task ⟨queue, workers, result :: channel, received⟩
        ⟨queue, workers, channel, received ++ [result]⟩

/-- Any number of steps. -/
inductive Run (task : α → β) : Pool α β → Pool α β → Prop where
  | done {p : Pool α β} : Run task p p
  | next {p q r : Pool α β} : Step task p q → Run task q r → Run task p r

/-- One step is a run. -/
theorem Run.single {task : α → β} {p q : Pool α β} (h : Step task p q) : Run task p q :=
  .next h .done

/-- A run can be followed by another one. -/
theorem Run.trans {task : α → β} {p q r : Pool α β} (first : Run task p q)
    (second : Run task q r) : Run task p r := by
  induction first with
  | done => exact second
  | next step _ ih => exact .next step (ih second)

/-- Whether every worker has stopped and every result has arrived. -/
def isFinished (p : Pool α β) : Bool := p.workers.all Worker.isStopped && p.channel.isEmpty

/-- The results that one worker sends for a list of files. -/
def inOrder (task : α → β) (files : List α) : List (α × β) := files.map fun f => (f, task f)

end Pool
end ApiCollection
