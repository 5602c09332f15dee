import ScriptHost.Command
import ScriptHost.WaitQueue

/-!
The callers of one queue, each polled by hand. Starting a call polls it once; a
call that is not ready stays pending under its name until a later poll finishes
it or it is dropped. Nothing happens between two steps.
-/

namespace ScriptHost.WaitQueue

/-- A pending call: one that waits for an item, or one that waits for room and last tried
when `seen` takes had been made. -/
inductive Call (α : Type) where
  | taking (ticket : Nat) (token : Option Token)
  | putting (item : α) (seen : Nat)

/-- A queue with its pending calls, in the order in which they started. -/
structure Callers (α : Type) where
  queue : WaitQueue α := {}
  cancelled : List Token := []
  pending : List (String × Call α) := []

inductive Step (α : Type) where
  | tryPut (item : α)
  | put (name : String) (item : α)
  | tryTake
  | take (name : String) (token : Option Token)
  | poll (name : String)
  | pollAll
  | drop (name : String)
  | cancel (token : Token)
  | close

inductive Answer (α : Type) where
  | put
  | full (item : α)
  | item (a : α)
  | nothing
  | failed (e : ExecutionError)
  | pending
  | unknown
  | dropped
  | panicked (p : Panic)
  | all (answers : List (String × Answer α))
  | done

namespace Callers

variable {α : Type}

def isCancelled (c : Callers α) (token : Option Token) : Bool :=
  token.any c.cancelled.contains

def forget (c : Callers α) (name : String) : Callers α :=
  { c with pending := c.pending.filter (·.1 != name) }

/-- Keeps a call under its name, in its old place if it has one. -/
def keep (c : Callers α) (name : String) (call : Call α) : Callers α :=
  if c.pending.any (·.1 == name) then
    { c with pending := c.pending.map fun p => if p.1 == name then (name, call) else p }
  else { c with pending := c.pending ++ [(name, call)] }

def settleTake (c : Callers α) (name : String) (token : Option Token) :
    Taking α × WaitQueue α → Answer α × Callers α
  | (.item a, queue) => (.item a, { c with queue }.forget name)
  | (.failed e, queue) => (.failed e, { c with queue }.forget name)
  | (.waiting ticket, queue) => (.pending, { c with queue }.keep name (.taking ticket token))

def tryPut (c : Callers α) (name : String) (item : α) : Answer α × Callers α :=
  match c.queue.offer item with
  | some queue => (.put, { c with queue }.forget name)
  | none => (.pending, c.keep name (.putting item c.queue.takes))

def pollCall (c : Callers α) (name : String) : Call α → Answer α × Callers α
  | .taking ticket token =>
    c.settleTake name token (c.queue.look ticket (c.isCancelled token))
  | .putting item seen =>
    if c.queue.takes = seen then (.pending, c) else c.tryPut name item

def poll (c : Callers α) (name : String) : Answer α × Callers α :=
  match c.pending.lookup name with
  | none => (.unknown, c)
  | some call => c.pollCall name call

def pollEach (c : Callers α) : List String → List (String × Answer α) × Callers α
  | [] => ([], c)
  | name :: names =>
    let (answer, c) := c.poll name
    let (answers, c) := c.pollEach names
    ((name, answer) :: answers, c)

def drop (c : Callers α) (name : String) : Answer α × Callers α :=
  match c.pending.lookup name with
  | none => (.unknown, c)
  | some (.putting _ _) => (.dropped, c.forget name)
  | some (.taking ticket _) =>
    match c.queue.withdraw ticket with
    | (queue, none) => (.dropped, { c with queue }.forget name)
    | (queue, some p) => (.panicked p, { c with queue }.forget name)

def step (c : Callers α) : Step α → Answer α × Callers α
  | .tryPut item =>
    match c.queue.offer item with
    | some queue => (.put, { c with queue })
    | none => (.full item, c)
  | .put name item => c.tryPut name item
  | .tryTake =>
    match c.queue.tryTake with
    | some (a, queue) => (.item a, { c with queue })
    | none => (.nothing, c)
  | .take name token => c.settleTake name token (c.queue.take (c.isCancelled token))
  | .poll name => c.poll name
  | .pollAll =>
    let (answers, c) := c.pollEach (c.pending.map Prod.fst)
    (.all answers, c)
  | .drop name => c.drop name
  | .cancel token => (.done, { c with cancelled := token :: c.cancelled })
  | .close => (.done, { c with queue := c.queue.close })

end Callers

end ScriptHost.WaitQueue
