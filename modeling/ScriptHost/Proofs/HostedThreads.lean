import Mathlib.Logic.Relation
import ScriptHost.Engine.Scripted

/-!
The engine on one thread with any host. Whenever the engine calls its host, the host does
what it likes and comes back when it likes: it asks things of the engine, reads a line, or
enters the engine again, which may call it again. A host that follows a script is one of
these hosts.
-/

namespace ScriptHost

/-- What can be asked of the engine without starting anything on the thread. -/
inductive Engine.Asked (e : Engine) : Engine → Prop
  | feed (line : String) : Asked e (e.feed line)
  | stop : Asked e e.stop
  | subscribe : Asked e e.subscribeIdle.2
  | unsubscribe : Asked e e.unsubscribeIdle
  | details : Asked e e.details.2
  | stopProcess : Asked e e.stopProcess
  | stepMode (on : Bool) : Asked e { e with stepMode := on }
  | modes (m : DebugModes) : Asked e { e with modes := m }

/-- Whether the host says with its answer how the debugger resumes. -/
def HostCall.stops : HostCall → Bool
  | debuggerStop _ => true
  | _ => false

namespace Hosted

/-- What the thread is in the middle of. While a `callback` is innermost it is the turn of the
host, which on a stop owes an answer. -/
inductive Level where
  | invocation (i : Invocation)
  | reading
  | callback (stop : Bool)

/-- What takes the thread into the engine. -/
inductive Request where
  | invoke (frame : FrameInfo) (command : Command) (addToHistory : Bool)
  | debuggerCommand (frame : FrameInfo) (command : Command)

/-- The thread: `depth` counts the invocations in progress, and `stack` holds what it is in the
middle of, innermost first. Each of the `calls` of the host is noted with the depth of the
invocation that made it, or with none if a read did. The last invocation that was finished
`returned`, and `panics` counts those that panicked. -/
structure Thread where
  engine : Engine := {}
  depth : Nat := 0
  stack : List Level := []
  calls : List (Option Nat × HostCall) := []
  returned : Option Evaluation := none
  panics : Nat := 0

def Thread.enter (t : Thread) (e : Engine) (i : Invocation) : Thread :=
  { t with engine := e, depth := t.depth + 1, stack := .invocation i :: t.stack }

/-- Enters the engine. An instruction for the debugger is done at once. -/
def Thread.begin (t : Thread) : Request → Thread
  | .invoke frame command addToHistory =>
    let (e, i) := t.engine.invoke frame command addToHistory (t.depth == 0)
    t.enter e i
  | .debuggerCommand frame command =>
    match t.engine.debuggerCommand frame command (t.depth == 0) with
    | (e, .resume _) => { t with engine := e }
    | (e, .invocation i) => t.enter e i

/-- A step of the engine on what is innermost, or of the host when it is its turn. In the midst
of it all somebody else may ask something of the engine. -/
inductive Step (t : Thread) : Thread → Prop
  | advance {i i' : Invocation} {rest : List Level} {e : Engine}
      (hstack : t.stack = .invocation i :: rest) (h : i.step t.engine = (e, .advance i')) :
      Step t { t with engine := e, stack := .invocation i' :: rest }
  | sleep {i i' : Invocation} {rest : List Level} {e : Engine} {ms : Nat}
      (hstack : t.stack = .invocation i :: rest) (h : i.step t.engine = (e, .sleep ms i')) :
      Step t { t with engine := e, stack := .invocation i' :: rest }
  | call {i i' : Invocation} {rest : List Level} {e : Engine} {c : HostCall}
      (hstack : t.stack = .invocation i :: rest) (h : i.step t.engine = (e, .call c i')) :
      Step t { t with
        engine := e
        stack := .callback c.stops :: .invocation i' :: rest
        calls := t.calls ++ [(some t.depth, c)] }
  | finish {i : Invocation} {rest : List Level} {e : Engine} {r : Evaluation}
      (hstack : t.stack = .invocation i :: rest) (h : i.step t.engine = (e, .finish r)) :
      Step t { t with engine := e, depth := t.depth - 1, stack := rest, returned := some r }
  | panic {i : Invocation} {rest : List Level} {e : Engine} {p : Panic}
      (hstack : t.stack = .invocation i :: rest) (h : i.step t.engine = (e, .panic p)) :
      Step t { t with engine := e, depth := t.depth - 1, stack := rest, panics := t.panics + 1 }
  | resume {i : Invocation} {rest : List Level} (action : ResumeAction)
      (hstack : t.stack = .callback true :: .invocation i :: rest) :
      Step t { t with
        engine := (i.resume t.engine action).1
        stack := .invocation (i.resume t.engine action).2 :: rest }
  | comeBack {stop : Bool} {rest : List Level} (hstack : t.stack = .callback stop :: rest) :
      Step t { t with stack := rest }
  | request {stop : Bool} {rest : List Level} (q : Request)
      (hstack : t.stack = .callback stop :: rest) : Step t (t.begin q)
  | read {stop : Bool} {rest : List Level} (frame : FrameInfo)
      (hstack : t.stack = .callback stop :: rest) :
      Step t { t with engine := t.engine.record frame .readLine, stack := .reading :: t.stack }
  | idle {rest : List Level} (hstack : t.stack = .reading :: rest) :
      Step t { t with
        stack := .callback false :: t.stack
        calls := t.calls ++ [(none, .idle)] }
  | readDone {rest : List Level} {input : List String} (hstack : t.stack = .reading :: rest)
      (hinput : input = t.engine.input ∨ ∃ line, t.engine.input = line :: input) :
      Step t { t with engine := { t.engine with input }, stack := rest }
  | asked {e : Engine} (hstack : t.stack ≠ []) (h : t.engine.Asked e) :
      Step t { t with engine := e }

/-- The thread gets from `t` to `t'`. -/
abbrev Steps : Thread → Thread → Prop :=
  Relation.ReflTransGen Step

open Scripted in
/-- What the thread of a scripted host is in the middle of. A debugger that passes a result on is
no level of its own here. -/
def level? : Activation → Option Level
  | .invocation i => some (.invocation i)
  | .debugger => none
  | .reading _ => some .reading
  | .callback _ answer => some (.callback answer.isSome)

def call? : Scripted.LogEntry → Option HostCall
  | .call c => some c
  | .inner _ => none

/-- Whether an entry of the log of a scripted host is the report of a panic. -/
def reportsPanic : Scripted.LogEntry → Bool
  | .inner (.panicked _) => true
  | _ => false

open Scripted in
/-- Whether a panic was, or is going to be, reported to a scripted host. -/
def panicked (m : Machine) : Bool :=
  (m.log ++ (m.returned.map LogEntry.inner).toList).any reportsPanic

open Scripted in
/-- The thread `t` is that of the scripted host `m`. -/
structure Follows (m : Machine) (t : Thread) : Prop where
  engine : t.engine = m.engine
  depth : t.depth = m.depth
  stack : t.stack = m.stack.filterMap level?
  calls : t.calls.map Prod.snd = m.log.filterMap call?
  returned : ∀ r, m.returned = some (.output r) → t.returned = some r
  panics : 0 < t.panics → panicked m = true

section Scripts

open Scripted

variable {m : Machine} {t : Thread}

/-- The thread goes on to one that belongs to `m`. -/
def Reaches (t : Thread) (m : Machine) : Prop :=
  ∃ t', Steps t t' ∧ Follows m t'

theorem Follows.stays (h : Follows m t) : Reaches t m :=
  ⟨t, .refl, h⟩

theorem Reaches.after {t' : Thread} (hstep : Step t t') (h : Reaches t' m) : Reaches t m := by
  obtain ⟨u, hsteps, hu⟩ := h
  exact ⟨u, .head hstep hsteps, hu⟩

/-- An answer that is given within the turn of the host, and is that of no invocation. -/
theorem Follows.give (h : Follows m t) (hreturned : m.returned = none) (a : Answer)
    (ha : ∀ r, a ≠ .output r) : Follows (m.give a) t := by
  refine ⟨h.engine, h.depth, h.stack, h.calls, ?_, ?_⟩
  · rintro r ⟨⟩
    exact absurd rfl (ha r)
  · intro hpanics
    have hreported : m.log.any reportsPanic = true := by
      simpa [panicked, hreturned] using h.panics hpanics
    simp [panicked, Machine.give, hreported]

/-- Something is asked of the engine. -/
theorem Follows.asks (h : Follows m t) (hstack : t.stack ≠ []) {e : Engine}
    (he : m.engine.Asked e) {m' : Machine} (hm' : Follows m' { t with engine := e }) :
    Reaches t m' :=
  .after (.asked hstack (h.engine.symm ▸ he)) hm'.stays

theorem Follows.withEngine (h : Follows m t) (e : Engine) :
    Follows { m with engine := e } { t with engine := e } :=
  ⟨rfl, h.depth, h.stack, h.calls, h.returned, h.panics⟩

theorem Follows.enter (h : Follows m t) (e : Engine) (i : Invocation) :
    Follows (m.enter e i) (t.enter e i) := by
  refine ⟨rfl, congrArg (· + 1) h.depth, ?_, h.calls, h.returned, h.panics⟩
  simp [Machine.enter, Machine.push, Thread.enter, h.stack, level?]

/-- The frame and the command of a request, as a step of a script. -/
def Request.step : Request → Scripted.Step
  | .invoke frame command addToHistory => .invoke command addToHistory frame
  | .debuggerCommand frame command => .debuggerCommand command frame

theorem Follows.begin (h : Follows m t) (hreturned : m.returned = none) (q : Request) :
    Follows (m.start q.step) (t.begin q) := by
  cases q with
  | invoke frame command addToHistory =>
    rw [Thread.begin, h.engine, h.depth]
    exact h.enter _ _
  | debuggerCommand frame command =>
    rcases hcommand : m.engine.debuggerCommand frame command (m.depth == 0) with ⟨e, action | i⟩
    · have hthread : t.begin (.debuggerCommand frame command) = { t with engine := e } := by
        simp only [Thread.begin, h.engine, h.depth, hcommand]
      have hmachine : m.start (.debuggerCommand command frame) =
          { m with engine := e }.give (.debugged (.ok { resume := some action })) := by
        simp only [Machine.start, Machine.debuggerCommand, hcommand]
      rw [hthread, Request.step, hmachine]
      exact (h.withEngine e).give hreturned _ (by simp)
    · have hthread : t.begin (.debuggerCommand frame command) = t.enter e i := by
        simp only [Thread.begin, h.engine, h.depth, hcommand]
      have hmachine : m.start (.debuggerCommand command frame) = (m.push .debugger).enter e i := by
        simp only [Machine.start, Machine.debuggerCommand, hcommand]
      have hpush : Follows (m.push .debugger) t :=
        ⟨h.engine, h.depth, h.stack.trans (List.filterMap_cons_none rfl).symm, h.calls,
          h.returned, h.panics⟩
      rw [hthread, Request.step, hmachine]
      exact hpush.enter e i

/-- A step of a script is done within the turn of its host. -/
theorem Follows.start (h : Follows m t) (hreturned : m.returned = none) {stop : Bool}
    {rest : List Level} (hstack : t.stack = .callback stop :: rest) (s : Scripted.Step) :
    Reaches t (m.start s) := by
  have hturn : t.stack ≠ [] := by simp [hstack]
  have hask : ∀ (e : Engine) (a : Answer), (∀ r, a ≠ .output r) → m.engine.Asked e →
      Reaches t ({ m with engine := e }.give a) := fun e a ha he =>
    h.asks hturn he ((h.withEngine e).give hreturned a ha)
  have hrequest : ∀ q : Request, Reaches t (m.start q.step) := fun q =>
    .after (.request q hstack) (h.begin hreturned q).stays
  cases s with
  | invoke command addToHistory frame => exact hrequest (.invoke frame command addToHistory)
  | debuggerCommand command frame => exact hrequest (.debuggerCommand frame command)
  | readLine cancelled frame =>
    refine .after (.read frame hstack) (Follows.stays ?_)
    exact ⟨by simp [Machine.start, Machine.push, h.engine], h.depth,
      by simp [Machine.start, Machine.push, h.stack, level?], h.calls, h.returned, h.panics⟩
  | input line => exact hask _ _ (by simp) (.feed line)
  | stop => exact hask _ _ (by simp) .stop
  | subscribe => exact hask _ _ (by simp) .subscribe
  | unsubscribe => exact hask _ _ (by simp) .unsubscribe
  | subscribed => exact (h.give hreturned _ (by simp)).stays
  | details => exact hask _ _ (by simp) .details
  | stopProcess => exact hask _ _ (by simp) .stopProcess
  | stepMode on => exact hask _ _ (by simp) (.stepMode on)
  | modes m => exact hask _ _ (by simp) (.modes m)
  | configure o =>
    cases o with
    | v5 => exact hask _ _ (by simp) (.modes _)
    | _ => exact (h.give hreturned _ (by simp)).stays
  | pause o =>
    cases o with
    | v5 => exact hask _ _ (by simp) (.stepMode true)
    | _ => exact (h.give hreturned _ (by simp)).stays
  | stopCommand o =>
    cases o with
    | v3 => exact (h.give hreturned _ (by simp)).stays
    | _ => exact hask _ _ (by simp) .stopProcess
  | runInDebugger o command frame =>
    unfold Machine.start
    dsimp only
    split
    · exact hrequest (.debuggerCommand frame command)
    · exact (h.give hreturned _ (by simp)).stays

theorem levels_cancelRead (stack : List Activation) :
    (Machine.cancelRead stack).filterMap level? = stack.filterMap level? := by
  induction stack with
  | nil => rfl
  | cons a rest ih =>
    cases a with
    | reading cancelled => rfl
    | _ => simp only [Machine.cancelRead, List.filterMap_cons, ih]

theorem Follows.react (h : Follows m t) (r : Reaction) (answer : Option ResumeAction) :
    Reaches { t with stack := .callback answer.isSome :: t.stack } (m.react r answer) := by
  have hstack : Level.callback answer.isSome :: t.stack =
      (m.react r answer).stack.filterMap level? := by
    have hcancel : (if r.cancel then Machine.cancelRead m.stack else m.stack).filterMap level? =
        t.stack := by
      rw [h.stack]
      split
      · exact levels_cancelRead _
      · rfl
    rw [← hcancel]
    rfl
  cases hinput : r.input with
  | none =>
    refine Follows.stays ⟨?_, h.depth, hstack, h.calls, h.returned, h.panics⟩
    simp [Machine.react, hinput, h.engine]
  | some line =>
    refine .after (.asked (List.cons_ne_nil _ _) (.feed line)) (Follows.stays ?_)
    refine ⟨?_, h.depth, hstack, h.calls, h.returned, h.panics⟩
    simp [Machine.react, hinput, h.engine]

theorem Follows.logs (h : Follows m t) (caller : Option Nat) (c : HostCall) :
    Follows { m with log := m.log ++ [.call c] }
      { t with calls := t.calls ++ [(caller, c)] } := by
  refine ⟨h.engine, h.depth, h.stack, ?_, h.returned, ?_⟩
  · simp [h.calls, call?]
  · intro hpanics
    have hreported := h.panics hpanics
    simpa [panicked, reportsPanic] using hreported

theorem Follows.scripts (h : Follows m t) (stops nests idles : List Reaction) :
    Follows { m with stops, nests, idles } t :=
  ⟨h.engine, h.depth, h.stack, h.calls, h.returned, h.panics⟩

theorem Follows.answerCall (h : Follows m t) (caller : Option Nat) (c : HostCall) :
    Reaches { t with stack := .callback c.stops :: t.stack, calls := t.calls ++ [(caller, c)] }
      (m.answerCall c) := by
  have hlogs := h.logs caller c
  cases c with
  | debuggerStop stop =>
    exact (hlogs.scripts m.stops.tail m.nests m.idles).react (m.stops.headD {})
      (some (m.stops.headD {}).action)
  | enterNestedPrompt =>
    exact (hlogs.scripts m.stops m.nests.tail m.idles).react (m.nests.headD {}) none
  | idle =>
    exact (hlogs.scripts m.stops m.nests m.idles.tail).react
      (m.idles.headD { cancel := true }) none
  | _ => exact .after (.comeBack rfl) hlogs.stays

theorem Follows.stack_cons (h : Follows m t) {a : Activation} {rest : List Activation} {l : Level}
    (hstack : m.stack = a :: rest) (ha : level? a = some l) :
    t.stack = l :: rest.filterMap level? := by
  rw [h.stack, hstack, List.filterMap_cons_some ha]

/-- The innermost invocation goes on, and `m'` differs from `m` in the engine and the stack. -/
theorem Follows.goesOn (h : Follows m t) (e : Engine) (i : Invocation)
    (rest : List Activation) :
    Follows { m with engine := e, stack := .invocation i :: rest }
      { t with engine := e, stack := .invocation i :: rest.filterMap level? } :=
  ⟨rfl, h.depth, rfl, h.calls, h.returned, h.panics⟩

theorem Follows.step (h : Follows m t) : Reaches t m.step := by
  unfold Machine.step
  split
  case h_1 a steps answer rest hreturned hstack =>
    refine Follows.stays ⟨h.engine, h.depth, h.stack, ?_, by simp, ?_⟩
    · simp [h.calls, call?]
    · intro hpanics
      have hreported := h.panics hpanics
      simpa [panicked, hreturned] using hreported
  case h_2 r rest hreturned hstack =>
    refine Follows.stays ⟨h.engine, h.depth, ?_, h.calls, by simp [Machine.give], ?_⟩
    · rw [h.stack, hstack, List.filterMap_cons_none rfl]
      rfl
    · intro hpanics
      have hreported := h.panics hpanics
      simpa [panicked, reportsPanic, hreturned, Machine.give] using hreported
  case h_3 a rest _ hreturned hstack =>
    refine Follows.stays ⟨h.engine, h.depth, ?_, h.calls, h.returned, h.panics⟩
    rw [h.stack, hstack, List.filterMap_cons_none rfl]
  case h_4 => exact h.stays
  case h_5 s steps answer rest hreturned hstack =>
    have hthread := h.stack_cons hstack rfl
    have hnext : Follows { m with stack := .callback steps answer :: rest } t :=
      ⟨h.engine, h.depth, hthread, h.calls, h.returned, h.panics⟩
    exact hnext.start hreturned hthread s
  case h_6 action i rest hreturned hstack =>
    have hthread := h.stack_cons hstack rfl
    refine .after (.resume action hthread) (Follows.stays ?_)
    rw [h.engine]
    exact h.goesOn _ _ _
  case h_7 answer rest _ hreturned hstack =>
    have hthread := h.stack_cons hstack rfl
    exact .after (.comeBack hthread)
      (Follows.stays ⟨h.engine, h.depth, rfl, h.calls, h.returned, h.panics⟩)
  case h_8 i rest hreturned hstack =>
    have hthread := h.stack_cons hstack rfl
    rcases hstep : i.step m.engine with ⟨e, i' | ⟨c, i'⟩ | ⟨ms, i'⟩ | r | p⟩
    · exact .after (.advance hthread (h.engine.symm ▸ hstep)) (h.goesOn _ _ _).stays
    · exact .after (.call hthread (h.engine.symm ▸ hstep))
        ((h.goesOn e i' rest).answerCall _ c)
    · exact .after (.sleep hthread (h.engine.symm ▸ hstep)) (h.goesOn _ _ _).stays
    · refine .after (.finish hthread (h.engine.symm ▸ hstep)) (Follows.stays ?_)
      refine ⟨rfl, congrArg (· - 1) h.depth, rfl, h.calls, ?_, ?_⟩
      · rintro r' ⟨⟩
        rfl
      · intro hpanics
        have hreported := h.panics hpanics
        simpa [panicked, reportsPanic, hreturned, Machine.give] using hreported
    · refine .after (.panic hthread (h.engine.symm ▸ hstep)) (Follows.stays ?_)
      exact ⟨rfl, congrArg (· - 1) h.depth, rfl, h.calls, by simp [Machine.give],
        fun _ => by simp [panicked, reportsPanic, Machine.give]⟩
  case h_9 rest hreturned hstack =>
    have hthread := h.stack_cons hstack rfl
    refine .after (.readDone hthread (Or.inl rfl)) (Follows.stays ?_)
    rw [h.engine]
    have hnext : Follows { m with stack := rest } { t with stack := rest.filterMap level? } :=
      ⟨h.engine, h.depth, rfl, h.calls, h.returned, h.panics⟩
    exact (hnext.withEngine m.engine).give hreturned _ (by simp)
  case h_10 rest hreturned hstack =>
    have hthread := h.stack_cons hstack rfl
    split
    · next line input hinput =>
      refine .after (.readDone hthread (Or.inr ⟨line, h.engine ▸ hinput⟩)) (Follows.stays ?_)
      rw [h.engine]
      have hnext : Follows { m with stack := rest } { t with stack := rest.filterMap level? } :=
        ⟨h.engine, h.depth, rfl, h.calls, h.returned, h.panics⟩
      exact (hnext.withEngine { m.engine with input }).give hreturned _ (by simp)
    · split
      · exact .after (.idle hthread) (h.answerCall none .idle)
      · exact h.stays
  case h_11 rest hreturned hstack =>
    refine Follows.stays ⟨h.engine, h.depth, ?_, h.calls, h.returned, h.panics⟩
    rw [h.stack, hstack, List.filterMap_cons_none rfl]
  case h_12 => exact h.stays

theorem Reaches.run (h : Reaches t m) (fuel : Nat) : Reaches t (m.run fuel) := by
  induction fuel generalizing m with
  | zero => exact h
  | succ fuel ih =>
    unfold Machine.run
    split
    · exact h
    · obtain ⟨t', hsteps, hfollows⟩ := h
      obtain ⟨u, hmore, hu⟩ := hfollows.step
      exact ih ⟨u, hsteps.trans hmore, hu⟩

/-- What a script has the engine do is what some host can have it do. -/
theorem Follows.perform (h : Follows m t) (hreturned : m.returned = none) (q : Request) :
    Reaches (t.begin q) (Machine.run Machine.patience (m.start q.step)) :=
  (h.begin hreturned q).stays.run _

end Scripts

end Hosted

end ScriptHost
