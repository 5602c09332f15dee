import Mathlib.Algebra.BigOperators.Group.Multiset.Basic
import Mathlib.Algebra.Order.Group.Multiset
import ScriptHost.Service.Clients

/-!
Runs of the service. Its threads take their steps in any order, each step choosing
among the moves it has; in between clients make new calls, signal, cancel, feed and
disturb the engine, give up tasks that wait and give back leases. A run keeps the
transitions it is made of, latest first, so that what happened along it can be read
off them. Nothing is assumed about the schedule.
-/

namespace ScriptHost.Service

/-- The calls of clients: what the thread of a call starts with. -/
inductive Entry : Activation → Prop
  | execute (o : Order) : Entry (.exec o .checking)
  | readLine (token : Option Token) : Entry (.readTask token .checking)
  | lease (token : Option Token) : Entry (.handleTask token false)
  | abort : Entry (.abort .looking)
  | dispose : Entry (.dispose .marking)
  | pushRunspace (r : Runspace) : Entry (.pushRunspace r .looking)
  | popRunspace : Entry (.popRunspace none .checkingLength)

/-- What a client does in a single step of its own. -/
def Clients.Step.atOnce : Clients.Step → Bool
  | .input _ | .cancel _ | .openGate _ | .resume _ | .pause | .exitPrompt | .pushFrame _
  | .popFrame | .unsubscribe | .ticks _ | .fault _ _ => true
  | _ => false

/-- What a client does with the list of loops. -/
def Clients.Step.usesLoops : Clients.Step → Bool
  | .resume _ | .exitPrompt => true
  | _ => false

/-- The tasks that a client can give up: those not begun, and those that wait. -/
inductive Suspended : List Activation → Prop
  | execute (o : Order) : Suspended [.exec o .checking]
  | posted (o : Order) (id : Nat) : Suspended [.exec o (.posted id)]
  | queued (o : Order) (ticket id : Nat) : Suspended [.exec o (.queued ticket id)]
  | awaiting (o : Order) (id : Nat) : Suspended [.exec o (.awaiting id)]
  | joining (o : Order) (worker : Nat) : Suspended [.exec o (.joining worker)]
  | leasing (o : Order) (token : Option Token) (forReading : Bool) (frame ticket : Nat) :
      Suspended [.getHandle token forReading (.waiting frame ticket), .exec o .leasing]
  | readLine (token : Option Token) : Suspended [.readTask token .checking]
  | reading (token : Option Token) (worker : Nat) : Suspended [.readTask token (.joining worker)]
  | readLeasing (token' token : Option Token) (forReading : Bool) (frame ticket : Nat) :
      Suspended [.getHandle token forReading (.waiting frame ticket), .readTask token' .leasing]
  | lease (token : Option Token) : Suspended [.handleTask token false]
  | taking (token' token : Option Token) (forReading : Bool) (frame ticket : Nat) :
      Suspended [.getHandle token forReading (.waiting frame ticket), .handleTask token' true]

/-- A step of the service, by one of its threads or by a client. -/
inductive Step (w : World) : Option Nat → World → Prop
  | move {k : Nat} {w' : World} (hfree : w.free k = true) (h : w' ∈ w.next k) : Step w (some k) w'
  | call {a : Activation} (h : Entry a) : Step w none (w.spawn [a]).2
  | act {s : Clients.Step} (h : s.atOnce = true)
      (hfree : s.usesLoops = true → w.loopsHeld = false) : Step w none (Clients.act w s).2
  | drop {k : Nat} {t : Thread} (ht : w.threads[k]? = some t) (hgo : t.control = .go)
      (h : Suspended t.stack) : Step w none (w.dropTask k)
  | release (k : Nat) : Step w none (w.releaseLease k)

/-- One step of a run, with the thread that took it unless a client did. -/
structure Transition where
  before : World
  mover : Option Nat
  after : World

/-- The runs of a service on an engine that has not run anything, each with its transitions,
latest first, and the world it has come to. -/
inductive Run : List Transition → World → Prop
  | start {config : Config} {engine : Engine} {w : World} (hactive : engine.active = 0)
      (hpeak : engine.peak = 0) (h : World.start config engine = .ok w) : Run [] w
  | step {past : List Transition} {w w' : World} {mover : Option Nat} (h : Run past w)
      (hstep : Step w mover w') : Run (⟨w, mover, w'⟩ :: past) w'

theorem mem_next {w w' : World} {k : Nat} : w' ∈ w.next k ↔
    ∃ t, w.threads[k]? = some t ∧ ∃ m ∈ t.moves w k,
      w' = { m.1 with threads := m.1.threads.set k m.2 } := by
  unfold World.next
  cases w.threads[k]? with
  | none => simp
  | some t => simp [eq_comm]

/-- While the list of loops is held, no thread that is let go needs it. -/
theorem not_usesLoops_of_free {w : World} {k : Nat} {t : Thread} (hfree : w.free k = true)
    (ht : w.threads[k]? = some t) (hheld : w.loopsHeld = true) :
    t.usesLoops w.engine = false := by
  simpa [World.free, ht, hheld] using hfree

/-- What a thread does next in the schedule is a step. -/
theorem step_of_step? {w w' : World} {k : Nat} (h : w.step? k = some w') : Step w (some k) w' := by
  obtain ⟨hfree, hhead⟩ := Option.ite_none_right_eq_some.mp h
  exact .move hfree (List.mem_of_mem_head? hhead)

theorem run_before {later past : List Transition} {x : Transition} {w : World}
    (h : Run (later ++ x :: past) w) :
    Run past x.before ∧ Step x.before x.mover x.after := by
  induction later generalizing w with
  | nil =>
    cases h with
    | step h hstep => exact ⟨h, hstep⟩
  | cons y later ih =>
    cases h with
    | step h hstep => exact ih h

/-- The transitions along a schedule, latest first: each thread named takes its first possible
move, and one that has none is passed over. -/
def follow : List Nat → World → List Transition × World
  | [], w => ([], w)
  | k :: schedule, w =>
    match w.step? k with
    | none => follow schedule w
    | some w' => ((follow schedule w').1 ++ [⟨w, some k, w'⟩], (follow schedule w').2)

theorem run_of_follow {past : List Transition} {w : World} (h : Run past w)
    (schedule : List Nat) : Run ((follow schedule w).1 ++ past) (follow schedule w).2 := by
  induction schedule generalizing past w with
  | nil => exact h
  | cons k schedule ih =>
    rw [follow]
    split
    · exact ih h
    · next w' hstep =>
      have hrun := ih (h.step (step_of_step? hstep))
      rwa [List.append_assoc]

/-- A service starts with no thread, no loop and no request. -/
structure World.Fresh (w : World) : Prop where
  nest : w.nest = .initial
  slot : w.slot = {}
  loops : w.loops = []
  cells : w.cells = []
  threads : w.threads = []

theorem fresh_of_start {config : Config} {engine : Engine} {w : World}
    (h : World.start config engine = .ok w) : w.Fresh := by
  unfold World.start at h
  simp only at h
  split at h
  · cases h
  · cases h
    exact ⟨rfl, rfl, rfl, rfl, rfl⟩

section Total

variable {M : Type} [AddCommMonoid M]

/-- The sum of `f` over the threads, each taken with its name. -/
def total (f : Nat → Thread → M) (threads : List Thread) : M :=
  (threads.mapIdx f).sum

@[simp] theorem total_nil (f : Nat → Thread → M) : total f [] = 0 := rfl

@[simp] theorem total_singleton (f : Nat → Thread → M) (t : Thread) : total f [t] = f 0 t := by
  simp [total]

theorem total_append (f : Nat → Thread → M) (threads new : List Thread) :
    total f (threads ++ new) =
      total f threads + total (fun k => f (k + threads.length)) new := by
  simp [total, List.mapIdx_append]

/-- A thread's part and the part of the others, which stays when the thread changes. -/
theorem exists_others {f : Nat → Thread → M} {threads : List Thread} {k : Nat} {t : Thread}
    (h : threads[k]? = some t) :
    ∃ others, total f threads = f k t + others ∧
      ∀ t', total f (threads.set k t') = f k t' + others := by
  obtain ⟨hk, rfl⟩ := List.getElem?_eq_some_iff.mp h
  have hsplit : ∀ t', (threads.set k t').mapIdx f =
      (threads.mapIdx f).take k ++ f k t' :: (threads.mapIdx f).drop (k + 1) := by
    intro t'
    rw [List.mapIdx_set, List.set_eq_take_append_cons_drop, if_pos (by simpa using hk)]
  have hsum : ∀ t', total f (threads.set k t') =
      f k t' + (((threads.mapIdx f).take k).sum + ((threads.mapIdx f).drop (k + 1)).sum) := by
    intro t'
    rw [total, hsplit, List.sum_append, List.sum_cons, add_left_comm]
  refine ⟨_, ?_, hsum⟩
  have hself := hsum threads[k]
  rwa [List.set_getElem_self] at hself

/-- The same with further threads that were started meanwhile. -/
theorem exists_others_append {f : Nat → Thread → M} {threads : List Thread} {k : Nat} {t : Thread}
    (h : threads[k]? = some t) :
    ∃ others, total f threads = f k t + others ∧
      ∀ t' new, total f ((threads ++ new).set k t') =
        f k t' + (total (fun j => f (j + threads.length)) new + others) := by
  obtain ⟨others, hbefore, hafter⟩ := exists_others (f := f) h
  have hk : k < threads.length := (List.getElem?_eq_some_iff.mp h).1
  refine ⟨others, hbefore, ?_⟩
  intro t' new
  rw [List.set_append_left _ _ hk, total_append, hafter, List.length_set, add_assoc,
    add_comm others]

end Total

end ScriptHost.Service
