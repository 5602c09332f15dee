import ScriptHost.Proofs.ServiceRuns

/-!
The turns that the threads of the service can take. For every way in which an activation can go
on there is a constructor that tells from where it starts, under which conditions, and what
world and thread it leaves. What is proved later about all moves is proved for these turns.
-/

namespace ScriptHost.Service

/-- A request as an order of its own. -/
def Order.ofRequest (r : Request) : Order :=
  { command := r.command, options := r.options }

/-- The request that an order becomes on its way to another thread. -/
def Order.toRequest (o : Order) (id : Nat) : Request :=
  { id, command := o.command, options := o.options }

/-- The steps of an execution that leave no trace outside it. -/
inductive ExecPhase.Next (w : World) (o : Order) : ExecPhase → ExecPhase → Prop
  | admitted (h : w.isDisposed = false) : Next w o .checking .routing
  | unlooped (h : w.loops = []) : Next w o .routing .checkingRemote
  | here (h : (w.config.idleInvocation && !w.nest.topFrame.kind.remote) = true) :
      Next w o .checkingRemote .checkingPrompt
  | unread (h : w.nest.topFrame.reading = false) : Next w o .checkingPrompt .checkingFlight
  | readInterrupted (h : w.nest.topFrame.reading = true) (ho : o.options.interruptPrompt = true) :
      Next w o .checkingPrompt .interrupting
  | readQueued (h : w.nest.topFrame.reading = true) (ho : o.options.interruptPrompt = false) :
      Next w o .checkingPrompt .acquiring
  | flightInterrupted (h : w.slot.inFlight = true) (ho : o.options.interruptPrompt = true) :
      Next w o .checkingFlight .interrupting
  | flightQueued (h : w.slot.inFlight = true) (ho : o.options.interruptPrompt = false) :
      Next w o .checkingFlight .acquiring
  | subscribed (id : Nat) (h : w.engine.idleSubscribed = true) :
      Next w o (.subscribing id) (.parking id)
  | seen (id : Nat) (h : w.nest.topFrame.reading = true) :
      Next w o (.checkingReader id) (.awaiting id)
  | unseen (id : Nat) (h : w.nest.topFrame.reading = false) :
      Next w o (.checkingReader id) (.reclaiming id)
  | pickedUp (id : Nat) (h : w.slot.reclaim id = none) : Next w o (.reclaiming id) (.awaiting id)
  | owned (h : Handle) (howned : w.ownsFrame h.frame = true) :
      Next w o (.checkingOwner h) (.rerouting h)
  | unowned (h : Handle) (howned : w.ownsFrame h.frame = false) :
      Next w o (.checkingOwner h) (.checkingPopped h)
  | popped (h : Handle) (hpopped : (w.nest.frame h.frame).isPopped = true) :
      Next w o (.checkingPopped h) (.rerouting h)
  | standing (h : Handle) (hpopped : (w.nest.frame h.frame).isPopped = false) :
      Next w o (.checkingPopped h) (.refusing h)

/-- The steps of an abort that change nothing but its phase. -/
inductive AbortPhase.Next (w : World) : AbortPhase → AbortPhase → Prop
  | looked (haborting : w.session.state ≠ .aborting) (hdisposed : w.session.state ≠ .disposed) :
      Next w .looking (.checkingDebugger w.session.state)
  | busy (state : SessionState)
      (h : state = .running ∨ w.hasLoop .debuggerStop = true) :
      Next w (.checkingDebugger state) (.marking (w.hasLoop .debuggerStop))
  | idle (state : SessionState)
      (h : ¬(state = .running ∨ w.hasLoop .debuggerStop = true)) :
      Next w (.checkingDebugger state) .checkingReader
  | prompted (h : w.hasLoop .nestedPrompt = true) :
      Next w .checkingPrompt (.signalling .nestedPrompt .exitPrompt)
  | unprompted (h : w.hasLoop .nestedPrompt = false) : Next w .checkingPrompt .checkingReader
  | read (h : w.nest.topFrame.reading = true) : Next w .checkingReader .interrupting

/-- An activation goes on as another, and nothing else changes. -/
inductive Onward (w : World) : Activation → Activation → Prop
  | exec (o : Order) {phase phase' : ExecPhase} (h : phase.Next w o phase') :
      Onward w (.exec o phase) (.exec o phase')
  | abort {phase phase' : AbortPhase} (h : phase.Next w phase') :
      Onward w (.abort phase) (.abort phase')
  | unleased (frame : Nat) (work : PushedWork) (h : w.nest.tryLease frame false = none) :
      Onward w (.entering (.leasing frame) work) (.entering (.looking frame) work)
  | innermost (frame : Nat) (work : PushedWork) (h : w.nest.top = frame) :
      Onward w (.entering (.looking frame) work) (.entering (.popping frame) work)
  | covered (frame : Nat) (work : PushedWork) (h : w.nest.top ≠ frame) :
      Onward w (.entering (.looking frame) work) (.entering .refusing work)
  | pumped (l : MessageLoop) (hl : w.findLoop l.id = some l) (hr : l.requests = []) :
      Onward w (.loop l.id .pumping) (.loop l.id .selecting)
  | emptied (l : MessageLoop) (signal : Signal) (hl : w.findLoop l.id = some l)
      (hr : l.requests = []) :
      Onward w (.loop l.id (.emptying signal)) (.loop l.id (.leaving signal))
  | refilled (l : MessageLoop) (signal : Signal) (hl : w.findLoop l.id = some l)
      (hr : l.requests ≠ []) :
      Onward w (.loop l.id (.leaving signal)) (.loop l.id (.emptying signal))
  | chose (token : Option Token) (forReading : Bool) :
      Onward w (.getHandle token forReading .choosing)
        (.getHandle token forReading (.asking w.nest.top))
  | waited (read : Nat) (h : w.isReadCancelled read = false) :
      Onward w (.reading read false) (.reading read true)
  | ticked (read : Nat) (hticks : w.ticks = true) (h : w.isReadCancelled read = true)
      (hidle : w.engine.idleSubscribed = false) :
      Onward w (.reading read true) (.reading read false)
  | noted (r : Runspace) (h : w.baseGone = false) :
      Onward w (.pushRunspace r .looking) (.pushRunspace r (.pushing w.currentRunspace))
  | pushed (reason : Option RunspaceChangeReason) (h : w.pushed ≠ []) :
      Onward w (.popRunspace reason .checkingLength) (.popRunspace reason .checkingFrame)
  | remote (reason : Option RunspaceChangeReason) (h : w.nest.topFrame.kind = .remoteSession) :
      Onward w (.popRunspace reason .checkingFrame) (.popRunspace reason .poppingFrame)
  | known (r : Runspace) (keep : Nat)
      (hother : (!w.baseGone && w.currentRunspace.id == r.id) = false)
      (hkeep : keepFor w r.id = some keep) :
      Onward w (.track (.comparing r)) (.track (.popping keep none))
  | unknown (r : Runspace) (hother : (!w.baseGone && w.currentRunspace.id == r.id) = false)
      (hkeep : keepFor w r.id = none) : Onward w (.track (.comparing r)) (.pushRunspace r .looking)
  | listed : Onward w (.dispose .listing)
      (.dispose (.signalling (w.loops.map fun l => (l.id, l.kind))))
  | signalled : Onward w (.dispose (.signalling [])) (.dispose .stopping)

/-- An activation ends, and nothing else changes. -/
inductive Ends (w : World) : Activation → Outcome → Prop
  | refused (o : Order) (h : w.isDisposed = true) :
      Ends w (.exec o .checking) (.reply (.error .disposed))
  | cancelled (o : Order) (id : Nat) (h : w.isCancelled o.options.token = true) :
      Ends w (.exec o (.posted id)) (.reply (.error .cancelled))
  | replied (o : Order) (phase : ExecPhase) (id : Nat) (r : Reply)
      (hphase : phase = .posted id ∨ phase = .awaiting id) (hr : (w.cell id).poll = some r) :
      Ends w (.exec o phase) (.reply r)
  | joined (o : Order) (worker : Nat) (r : Reply)
      (hr : (w.threads[worker]?.bind Thread.result?).bind workerReply? = some r)
      (h : w.config.trackRunspaces = false) : Ends w (.exec o (.joining worker)) (.reply r)
  | readRefused (token : Option Token) (h : w.isDisposed = true) :
      Ends w (.readTask token .checking) (.line (.error .disposed))
  | readJoined (token : Option Token) (worker : Nat) (r : Except EngineError String)
      (hr : w.threads[worker]?.bind Thread.result? = some (.back (.read r))) :
      Ends w (.readTask token (.joining worker)) (.line (r.mapError .ofEngine))
  | readPanicked (token : Option Token) (worker : Nat) (p : Panic)
      (hr : w.threads[worker]?.bind Thread.result? = some (.unwind p)) :
      Ends w (.readTask token (.joining worker)) (.line (.error (.panicked p.message)))
  | readCancelled (read : Nat) (h : w.isReadCancelled read = true) :
      Ends w (.reading read false) (.read (.error .cancelled))
  | leaseRefused (token : Option Token) (h : w.isDisposed = true) :
      Ends w (.handleTask token false) (.lease (.error .disposed))
  | unpushed (reason : Option RunspaceChangeReason) (h : w.pushed = []) :
      Ends w (.popRunspace reason .checkingLength)
        (.popped (.error (.invariantViolation .noPushedRunspace)))
  | framed (reason : Option RunspaceChangeReason) (h : w.nest.topFrame.kind ≠ .remoteSession) :
      Ends w (.popRunspace reason .checkingFrame)
        (.popped (.error (.invariantViolation .frameInsideRunspace)))
  | unpopped (reason : Option RunspaceChangeReason) (e : ExecutionError)
      (h : w.nest.pop = .error e) : Ends w (.popRunspace reason .poppingFrame) (.popped (.error e))
  | noRunspace (reason : Option RunspaceChangeReason) (h : w.pushed = [])
      (hbase : w.baseGone = true) :
      Ends w (.popRunspace reason .poppingRunspace)
        (.popped (.error (.invariantViolation .noRunspace)))
  | current (r : Runspace) (h : (!w.baseGone && w.currentRunspace.id == r.id) = true) :
      Ends w (.track (.comparing r)) .unit
  | unwound (keep : Nat) (reason : Option RunspaceChangeReason) (h : ¬keep < w.pushed.length) :
      Ends w (.track (.popping keep reason)) .unit
  | late (h : w.session.state = .aborting ∨ w.session.state = .disposed) :
      Ends w (.abort .looking) .unit
  | unread (h : w.nest.topFrame.reading = false) : Ends w (.abort .checkingReader) .unit
  | gateOpened (gate : String) (h : w.gates.contains gate = true) : Ends w (.held gate) .unit

/-- An order is given to the engine on a leased frame, above the stack `below`. -/
inductive Submits (w : World) (t : Thread) (below : List Activation) (invoker : Nat) (o : Order) :
    World × Thread → Prop
  | refused (e : EngineError) (engine : Engine)
      (h : w.engine.takeFault .invoke = some (e, engine)) :
      Submits w t below invoker o
        ({ w with engine }, t.give (.leased o.options :: below) (.evaluated (.error e)))
  | begun (engine : Engine) (i : Invocation) (hfault : w.engine.takeFault .invoke = none)
      (h : w.engine.invoke (w.nest.info invoker) (o.command.prepared o.options)
        o.options.addToHistory (t.depth == 0) = (engine, i)) :
      Submits w t below invoker o ({ w with engine },
        { t.goOn (.invocation i :: .leased o.options :: below) with depth := t.depth + 1 })

/-- The thread of the loop `l` obeys an order, above the stack `below`. -/
inductive Obeys (w : World) (t : Thread) (below : List Activation) (l : MessageLoop)
    (o : Order) : World × Thread → Prop
  | forbidden (hkind : l.kind = .debuggerStop) (h : w.operations.runsInDebugger = false) :
      Obeys w t below l o (w, t.give below (.reply (.error Operations.refusal)))
  | refused (e : EngineError) (engine : Engine) (hkind : l.kind = .debuggerStop)
      (h : w.engine.takeFault .debuggerCommand = some (e, engine)) :
      Obeys w t below l o
        ({ w with engine }, t.give (.inLoop l.id o.options :: below) (.debugged (.error e)))
  | resumed (engine : Engine) (action : ResumeAction) (hkind : l.kind = .debuggerStop)
      (hfault : w.engine.takeFault .debuggerCommand = none)
      (h : w.engine.debuggerCommand (w.nest.info l.frame) (o.command.prepared o.options)
        (t.depth == 0) = (engine, .resume action)) :
      Obeys w t below l o ({ w with engine }, t.give (.inLoop l.id o.options :: below)
        (.debugged (.ok { resume := some action })))
  | begun (engine : Engine) (i : Invocation) (hkind : l.kind = .debuggerStop)
      (hfault : w.engine.takeFault .debuggerCommand = none)
      (h : w.engine.debuggerCommand (w.nest.info l.frame) (o.command.prepared o.options)
        (t.depth == 0) = (engine, .invocation i)) :
      Obeys w t below l o ({ w with engine },
        { t.goOn (.invocation i :: .debuggerCommand :: .inLoop l.id o.options :: below) with
          depth := t.depth + 1 })
  | entered (hkind : l.kind = .nestedPrompt) :
      Obeys w t below l o (w, t.goOn (.entering .pushing (.order o) :: below))

/-- What is parked is picked up and run above the stack `below`, if there is something. -/
inductive Picks (w : World) (t : Thread) (below : List Activation) : World × Thread → Prop
  | found (id : Nat) (r : Request) (h : w.slot.parked = some (id, r)) :
      Picks w t below ({ w with slot := { w.slot with parked := none } },
        t.goOn (.entering .pushing (.request r) :: .idleRun :: below))
  | nothing (h : w.slot.parked = none) : Picks w t below (w, t.goOn below)

/-- A lease is given back, after which the thread goes on as `t'` unless that panics. -/
inductive Releases (w : World) (h : Handle) (t' : Thread) : World × Thread → Prop
  | fit (nest : Nest) (hrelease : w.nest.release h = (nest, none)) :
      Releases w h t' ({ w with nest }, t')
  | stuck (nest : Nest) (p : Panic) (hrelease : w.nest.release h = (nest, some p)) :
      Releases w h t' ({ w with nest }, t'.panic t'.stack p)

/-- A signal for a loop: it is accepted by a loop that holds none, or nothing changes. -/
inductive Signals (w : World) (signal : Signal) : World → Prop
  | accepted (l : MessageLoop) (hl : w.findLoop l.id = some l) (h : l.signal = none) :
      Signals w signal (w.updateLoop l.id fun l => { l with signal := some signal })
  | refused : Signals w signal w

/-- The service answers a call of the invocation on top of the stack `s`. -/
inductive Calls (w : World) (k : Nat) (t : Thread) (s : List Activation) :
    HostCall → World × Thread → Prop
  | followed (state : InvocationState) (reason : Option String) :
      Calls w k t s (.stateChanged state reason) (w.followInvocation state reason, t.goOn s)
  | wrote (line : String) (h : w.config.console line = .ignore) :
      Calls w k t s (.writeLine line) (w.write (.out line), t.goOn s)
  | held (line gate : String) (h : w.config.console line = .hold gate) :
      Calls w k t s (.writeLine line) (w.write (.out line), t.goOn (.held gate :: s))
  | reentered (line script : String) (h : w.config.console line = .run script) :
      Calls w k t s (.writeLine line) (w.write (.out line),
        t.goOn (.exec { command := .ofScript script, options := { token := some reentrantToken } }
          .checking :: .reentrant :: s))
  | crashed (line : String) (p : Panic) (h : w.config.console line = .panic p) :
      Calls w k t s (.writeLine line) (w.write (.out line), t.panic s p)
  | wroteError (line : String) :
      Calls w k t s (.writeErrorLine line) (w.write (.err line), t.goOn s)
  | stopped (stop : DebuggerStop) :
      Calls w k t s (.debuggerStop stop) ((w.openLoop .debuggerStop k).2,
        t.goOn (.loop w.nextLoop (.opening stop) :: s))
  | updated (update : BreakpointUpdate) :
      Calls w k t s (.breakpointUpdated update) (w.publish (.breakpoint update), t.goOn s)
  | prompted :
      Calls w k t s .enterNestedPrompt ((w.openLoop .nestedPrompt k).2,
        t.goOn (.loop w.nextLoop .pumping :: s))
  | exited {w' : World} (h : Signals w .exitPrompt w') :
      Calls w k t s .exitNestedPrompt (w', t.goOn s)
  | idled {m : World × Thread} (h : Picks w t s m) : Calls w k t s .idle m

/-- The phases in which a loop takes what was posted to it, and how it goes on. -/
inductive LoopPhase.Takes : LoopPhase → LoopPhase → Prop
  | pumping : Takes .pumping .pumping
  | selecting : Takes .selecting .pumping
  | emptying (signal : Signal) : Takes (.emptying signal) (.emptying signal)

/-- A loop is removed, and its thread goes on without it. -/
inductive Closes (w : World) (t : Thread) (rest : List Activation) (l : MessageLoop)
    (signal : Signal) : World × Thread → Prop
  | debugger (hkind : l.kind = .debuggerStop) :
      Closes w t rest l signal
        (w.closeLoop l, t.goOn (.loop l.id (.resuming signal.action) :: rest))
  | prompt (hkind : l.kind = .nestedPrompt) :
      Closes w t rest l signal (w.closeLoop l, t.give rest .unit)

/-- What the queue of a frame answers to a caller in a phase. -/
inductive LeasePhase.Answered (w : World) (token : Option Token) (frame : Nat) :
    LeasePhase → Taking Nat × Nest → Prop
  | asking : Answered w token frame (.asking frame) (w.nest.ask frame (w.isCancelled token))
  | waiting (ticket : Nat)
      (h : ∀ ticket', (w.nest.look frame ticket (w.isCancelled token)).1 ≠ .waiting ticket') :
      Answered w token frame (.waiting frame ticket)
        (w.nest.look frame ticket (w.isCancelled token))

/-- The reply of a command that failed at run time, which may be written on the console. -/
inductive Reports (w : World) (what : String) (options : Options) : World → Prop
  | written (h : options.writeErrors = true) : Reports w what options (w.write (.err what))
  | silent (h : options.writeErrors = false) : Reports w what options w

/-- What becomes of the result of a command. -/
inductive Completes (w : World) (options : Options) :
    Evaluation → World → Reply → Prop
  | ok (output : Output Value) : Completes w options (.ok output) w (.ok output)
  | runtime (what : String) {w' : World} (h : Reports w what options w') :
      Completes w options (.error (.runtime what)) w' (.ok { errors := [what] })
  | failed (e : EngineError) (h : ∀ what, e ≠ .runtime what) :
      Completes w options (.error e) w (.error (.ofEngine e))

/-- A step out of a pushed frame. -/
inductive Vacates (w : World) (t : Thread) (rest : List Activation) (frame : Nat) (h : Handle) :
    RoomPhase → World × Thread → Prop
  | innermost (htop : w.nest.top = frame) :
      Vacates w t rest frame h .looking (w, { t with stack := .pushed frame h .popping :: rest })
  | covered (htop : w.nest.top ≠ frame) :
      Vacates w t rest frame h .looking (w, { t with stack := .pushed frame h .releasing :: rest })
  | popped :
      Vacates w t rest frame h .popping
        (w.popTop, { t with stack := .pushed frame h .releasing :: rest })
  | released {m : World × Thread} (hm : Releases w h { t with stack := rest } m) :
      Vacates w t rest frame h .releasing m

/-- The innermost activation goes on by itself. -/
inductive Goes (w : World) (k : Nat) (t : Thread) (rest : List Activation) :
    Activation → World × Thread → Prop
  | onward {a a' : Activation} (h : Onward w a a') : Goes w k t rest a (w, t.goOn (a' :: rest))
  | ended {a : Activation} {o : Outcome} (h : Ends w a o) : Goes w k t rest a (w, t.give rest o)
  | advanced (i i' : Invocation) (engine : Engine) (h : i.step w.engine = (engine, .advance i')) :
      Goes w k t rest (.invocation i) ({ w with engine }, t.goOn (.invocation i' :: rest))
  | slept (i i' : Invocation) (ms : Nat) (engine : Engine)
      (h : i.step w.engine = (engine, .sleep ms i')) (hms : ms ≤ w.config.patience) :
      Goes w k t rest (.invocation i) ({ w with engine }, t.goOn (.invocation i' :: rest))
  | called (i i' : Invocation) (c : HostCall) (engine : Engine) {m : World × Thread}
      (h : i.step w.engine = (engine, .call c i'))
      (hm : Calls { w with engine } k t (.invocation i' :: rest) c m) :
      Goes w k t rest (.invocation i) m
  | finished (i : Invocation) (r : Evaluation) (engine : Engine)
      (h : i.step w.engine = (engine, .finish r)) :
      Goes w k t rest (.invocation i)
        ({ w with engine }, { t.give rest (.evaluated r) with depth := t.depth - 1 })
  | crashed (i : Invocation) (p : Panic) (engine : Engine)
      (h : i.step w.engine = (engine, .panic p)) :
      Goes w k t rest (.invocation i)
        ({ w with engine }, { t.panic rest p with depth := t.depth - 1 })
  | pushed (work : PushedWork) :
      Goes w k t rest (.entering .pushing work) ({ w with nest := (w.nest.push .normal).2 },
        t.goOn (.entering (.leasing w.nest.frames.length) work :: rest))
  | enteredRequest (frame : Nat) (r : Request) (h : Handle) (nest : Nest) {m : World × Thread}
      (hlease : w.nest.tryLease frame false = some (h, nest))
      (hm : Submits { w with nest } t (.request r.id :: .pushed frame h .looking :: rest)
        h.invoker (.ofRequest r) m) :
      Goes w k t rest (.entering (.leasing frame) (.request r)) m
  | enteredOrder (frame : Nat) (o : Order) (h : Handle) (nest : Nest) {m : World × Thread}
      (hlease : w.nest.tryLease frame false = some (h, nest))
      (hm : Submits { w with nest } t (.pushed frame h .looking :: rest) h.invoker o m) :
      Goes w k t rest (.entering (.leasing frame) (.order o)) m
  | leftUnused (frame : Nat) (work : PushedWork) :
      Goes w k t rest (.entering (.popping frame) work)
        (w.popTop, t.goOn (.entering .refusing work :: rest))
  | abandoned (r : Request) :
      Goes w k t rest (.entering .refusing (.request r))
        (w.setCell r.id .abandon, t.give rest .unit)
  | unhandled (o : Order) :
      Goes w k t rest (.entering .refusing (.order o))
        (w, t.give rest (.reply (.error (.invariantViolation .noHandle))))
  | announced (l : MessageLoop) (stop : DebuggerStop) (hl : w.findLoop l.id = some l) :
      Goes w k t rest (.loop l.id (.opening stop))
        (w.setSession .ready .stopped (some "debugger stopped"),
          t.goOn (.loop l.id (.announcing stop) :: rest))
  | published (l : MessageLoop) (stop : DebuggerStop) (hl : w.findLoop l.id = some l) :
      Goes w k t rest (.loop l.id (.announcing stop))
        (w.publish (.stop stop), t.goOn (.loop l.id .pumping :: rest))
  | skipped (l : MessageLoop) (r : Request) (requests : List Request) {phase next : LoopPhase}
      (hl : w.findLoop l.id = some l) (hr : l.requests = r :: requests) (hphase : phase.Takes next)
      (hcancelled : w.isCancelled r.options.token = true) :
      Goes w k t rest (.loop l.id phase)
        ((w.updateLoop l.id fun l => { l with requests }).setCell r.id .abandon,
          t.goOn (.loop l.id next :: rest))
  | taken (l : MessageLoop) (r : Request) (requests : List Request) {phase next : LoopPhase}
      {m : World × Thread} (hl : w.findLoop l.id = some l) (hr : l.requests = r :: requests)
      (hphase : phase.Takes next) (hcancelled : w.isCancelled r.options.token = false)
      (hm : Obeys (w.updateLoop l.id fun l => { l with requests }) t
        (.request r.id :: .loop l.id next :: rest) l (.ofRequest r) m) :
      Goes w k t rest (.loop l.id phase) m
  | consumed (l : MessageLoop) (signal : Signal) (hl : w.findLoop l.id = some l)
      (h : l.signal = some signal) :
      Goes w k t rest (.loop l.id .selecting) (w.updateLoop l.id fun l => { l with signal := none },
        t.goOn (.loop l.id (.closing signal) :: rest))
  | interruptedReads (l : MessageLoop) (signal : Signal) (hl : w.findLoop l.id = some l) :
      Goes w k t rest (.loop l.id (.closing signal)) (w.interruptWhere (·.frame == l.frame),
        t.goOn (.loop l.id (.emptying signal) :: rest))
  | locked (l : MessageLoop) (signal : Signal) (hl : w.findLoop l.id = some l)
      (hr : l.requests = []) (htop : w.nest.top = l.frame) :
      Goes w k t rest (.loop l.id (.leaving signal))
        (w.updateLoop l.id fun l => { l with leaving := true },
          t.goOn (.loop l.id (.popping signal) :: rest))
  | closedCovered (l : MessageLoop) (signal : Signal) {m : World × Thread}
      (hl : w.findLoop l.id = some l) (hr : l.requests = []) (htop : w.nest.top ≠ l.frame)
      (hm : Closes w t rest l signal m) : Goes w k t rest (.loop l.id (.leaving signal)) m
  | closed (l : MessageLoop) (signal : Signal) {m : World × Thread}
      (hl : w.findLoop l.id = some l) (hm : Closes w.popTop t rest l signal m) :
      Goes w k t rest (.loop l.id (.popping signal)) m
  | stayed (id : Nat) :
      Goes w k t rest (.loop id (.resuming .stop))
        (w.setSession .ready .aborted (some "debugger stopped execution"),
          t.give rest (.action .stop))
  | resumed (id : Nat) (action : ResumeAction) (h : action ≠ .stop) :
      Goes w k t rest (.loop id (.resuming action))
        (w.setSession .running .notFinished none, t.give rest (.action action))
  | granted (token : Option Token) (forReading : Bool) (frame invoker : Nat) (nest : Nest)
      {phase : LeasePhase} (h : phase.Answered w token frame (.item invoker, nest)) :
      Goes w k t rest (.getHandle token forReading phase) ({ w with nest },
        t.goOn (.getHandle token forReading (.marking frame invoker) :: rest))
  | again (token : Option Token) (forReading : Bool) (frame : Nat) (what : String) (nest : Nest)
      {phase : LeasePhase} (h : phase.Answered w token frame (.failed (.channelClosed what), nest))
      (hpopped : (nest.frame frame).isPopped = true) :
      Goes w k t rest (.getHandle token forReading phase)
        ({ w with nest }, t.goOn (.getHandle token forReading .choosing :: rest))
  | failed (token : Option Token) (forReading : Bool) (frame : Nat) (e : ExecutionError)
      (nest : Nest) {phase : LeasePhase} (h : phase.Answered w token frame (.failed e, nest))
      (he : ∀ what, e = .channelClosed what → (nest.frame frame).isPopped = false) :
      Goes w k t rest (.getHandle token forReading phase)
        ({ w with nest }, t.give rest (.lease (.error e)))
  | lined (token : Option Token) (forReading : Bool) (frame ticket : Nat) (nest : Nest)
      {phase : LeasePhase} (h : phase.Answered w token frame (.waiting ticket, nest)) :
      Goes w k t rest (.getHandle token forReading phase) ({ w with nest },
        t.goOn (.getHandle token forReading (.waiting frame ticket) :: rest))
  | leased (token : Option Token) (forReading : Bool) (frame invoker : Nat) :
      Goes w k t rest (.getHandle token forReading (.marking frame invoker))
        ({ w with nest := (w.nest.lease frame invoker forReading).2 },
          t.give rest (.lease (.ok { invoker, frame, forReading })))
  | inlined (o : Order) (l : MessageLoop) (loops : List MessageLoop) {m : World × Thread}
      (hl : w.loops = l :: loops) (hself : l.thread = k)
      (hm : Obeys w t (.exec o .inline :: rest) l o m) : Goes w k t rest (.exec o .routing) m
  | posted (o : Order) (l : MessageLoop) (loops : List MessageLoop) (hl : w.loops = l :: loops)
      (hself : l.thread ≠ k) :
      Goes w k t rest (.exec o .routing)
        (w.newCell.2.updateLoop l.id fun l =>
            { l with requests := l.requests ++ [o.toRequest w.cells.length] },
          t.goOn (.exec o (.posted w.cells.length) :: rest))
  | remote (o : Order)
      (h : (w.config.idleInvocation && !w.nest.topFrame.kind.remote) = false) :
      Goes w k t rest (.exec o .checkingRemote) (w, direct t rest o)
  | vacant (o : Order) (h : w.slot.inFlight = false) :
      Goes w k t rest (.exec o .checkingFlight) (w, direct t rest o)
  | interrupted (o : Order) :
      Goes w k t rest (.exec o .interrupting) (w.interruptInnermost, direct t rest o)
  | acquired (o : Order) (permit : Permit) (h : w.slot.permit.acquire = (none, permit)) :
      Goes w k t rest (.exec o .acquiring)
        ({ w.newCell.2 with slot := w.slot.setPermit permit },
          t.goOn (.exec o (.subscribing w.cells.length) :: rest))
  | queued (o : Order) (ticket : Nat) (permit : Permit)
      (h : w.slot.permit.acquire = (some ticket, permit)) :
      Goes w k t rest (.exec o .acquiring)
        ({ w.newCell.2 with slot := w.slot.setPermit permit },
          t.goOn (.exec o (.queued ticket w.cells.length) :: rest))
  | turnedAway (o : Order) (h : w.isCancelled o.options.token = true) :
      Goes w k t rest (.exec o .acquiring) (w.newCell.2.setCell w.cells.length .abandon,
        t.give rest (.reply (.error .cancelled)))
  | permitted (o : Order) (ticket id : Nat) (permit : Permit)
      (h : w.slot.permit.look ticket = some permit) :
      Goes w k t rest (.exec o (.queued ticket id)) ({ w with slot := w.slot.setPermit permit },
        t.goOn (.exec o (.subscribing id) :: rest))
  | gaveUp (o : Order) (ticket id : Nat) (h : w.isCancelled o.options.token = true) :
      Goes w k t rest (.exec o (.queued ticket id))
        ({ w with slot := w.slot.setPermit (w.slot.permit.withdraw ticket) }.setCell id .abandon,
          t.give rest (.reply (.error .cancelled)))
  | subscribed (o : Order) (id : Nat) (h : w.engine.idleSubscribed = false) :
      Goes w k t rest (.exec o (.subscribing id)) ({ w with engine := w.engine.subscribeIdle.2 },
        t.goOn (.exec o (.parking id) :: rest))
  | parked (o : Order) (id : Nat) :
      Goes w k t rest (.exec o (.parking id)) ({ w with slot := w.slot.park id (o.toRequest id) },
        t.goOn (.exec o (.checkingReader id) :: rest))
  | reclaimed (o : Order) (id : Nat) (r : Request) (h : w.slot.parked = some (id, r)) :
      Goes w k t rest (.exec o (.reclaiming id))
        ({ w with slot := w.slot.clear }.setCell id .abandon, direct t rest o)
  | withdrawn (o : Order) (id : Nat) (r : Request)
      (hcancelled : w.isCancelled o.options.token = true)
      (h : w.slot.parked = some (id, r)) :
      Goes w k t rest (.exec o (.awaiting id))
        ({ w with slot := w.slot.clear }.setCell id .abandon,
          t.give rest (.reply (.error .cancelled)))
  | unowned (o : Order) (h : Handle) {m : World × Thread}
      (hm : Releases w h
        (t.give rest (.reply (.error (.invariantViolation .unownedLoopFrame)))) m) :
      Goes w k t rest (.exec o (.refusing h)) m
  | rerouted (o : Order) (h : Handle) {m : World × Thread}
      (hm : Releases w h (t.goOn (.exec o .routing :: rest)) m) :
      Goes w k t rest (.exec o (.rerouting h)) m
  | spawned (o : Order) (h : Handle) :
      Goes w k t rest (.exec o (.spawning h)) ((w.spawn [.starting h o]).2,
        t.goOn (.exec o (.joining w.threads.length) :: rest))
  | joined (o : Order) (worker : Nat) (r : Reply)
      (hr : (w.threads[worker]?.bind Thread.result?).bind workerReply? = some r)
      (h : w.config.trackRunspaces = true) :
      Goes w k t rest (.exec o (.joining worker))
        (w, t.goOn (.track .polling :: .exec o (.finishing r) :: rest))
  | readAsked (token : Option Token) (h : w.isDisposed = false) :
      Goes w k t rest (.readTask token .checking)
        (w, t.goOn (.getHandle token true .choosing :: .readTask token .leasing :: rest))
  | registered (token : Option Token) (h : Handle) :
      Goes w k t rest (.readTask token (.registering h)) ((w.registerRead h.frame token).2,
        t.goOn (.readTask token (.spawning h w.nextRead) :: rest))
  | readSpawned (token : Option Token) (h : Handle) (read : Nat) :
      Goes w k t rest (.readTask token (.spawning h read))
        ((w.spawn [.readWorker h read .starting]).2,
          t.goOn (.readTask token (.joining w.threads.length) :: rest))
  | lineRead (read : Nat) (line : String) (input : List String)
      (h : w.engine.input = line :: input) :
      Goes w k t rest (.reading read true) ({ w with engine := { w.engine with input } },
        t.give rest (.read (.ok line)))
  | tickRan (read : Nat) {m : World × Thread} (hticks : w.ticks = true)
      (h : w.isReadCancelled read = true ∨ w.slot.parked.isSome = true)
      (hidle : w.engine.idleSubscribed = true) (hm : Picks w t (.reading read false :: rest) m) :
      Goes w k t rest (.reading read true) m
  | readRefused (h : Handle) (read : Nat) (e : EngineError) (engine : Engine)
      (hfault : w.engine.takeFault .readLine = some (e, engine)) :
      Goes w k t rest (.readWorker h read .starting)
        ({ w with engine }, t.goOn (.readWorker h read (.ending (.error e)) :: rest))
  | readBegun (h : Handle) (read : Nat) (hfault : w.engine.takeFault .readLine = none) :
      Goes w k t rest (.readWorker h read .starting)
        ({ w with engine := w.engine.record (w.nest.info h.invoker) .readLine },
          t.goOn (.reading read false :: .readWorker h read .reading :: rest))
  | unmarked (h : Handle) (read : Nat) (r : Except EngineError String) :
      Goes w k t rest (.readWorker h read (.ending r)) ({ w with nest := w.nest.endReading h },
        t.goOn (.readWorker h read (.draining r) :: rest))
  | drained (h : Handle) (read : Nat) (r : Except EngineError String) {m : World × Thread}
      (hm : Picks w t (.readWorker h read (.drained r) :: rest) m) :
      Goes w k t rest (.readWorker h read (.draining r)) m
  | unregistered (h : Handle) (read : Nat) (r : Except EngineError String) :
      Goes w k t rest (.readWorker h read (.drained r)) (w.unregisterRead read,
        t.goOn (.readWorker h read (.releasing r) :: rest))
  | readReleased (h : Handle) (read : Nat) (r : Except EngineError String) {m : World × Thread}
      (hm : Releases w h (t.give rest (.read r)) m) :
      Goes w k t rest (.readWorker h read (.releasing r)) m
  | leaseAsked (token : Option Token) (h : w.isDisposed = false) :
      Goes w k t rest (.handleTask token false)
        (w, t.goOn (.getHandle token false .choosing :: .handleTask token true :: rest))
  | started (h : Handle) (o : Order) {m : World × Thread}
      (hm : Submits w t (.worker h :: rest) h.invoker o m) : Goes w k t rest (.starting h o) m
  | underflowed (r : Runspace) (h : w.baseGone = true) :
      Goes w k t rest (.pushRunspace r .looking) (w, t.panic rest .underflow)
  | framePushed (r previous : Runspace) :
      Goes w k t rest (.pushRunspace r (.pushing previous))
        ({ w with nest := (w.nest.push .remoteSession).2 },
          t.goOn (.pushRunspace r (.recording previous) :: rest))
  | recorded (r previous : Runspace) :
      Goes w k t rest (.pushRunspace r (.recording previous)) (w.addRunspace r,
        t.goOn (.pushRunspace r (.publishing previous) :: rest))
  | pushPublished (r previous : Runspace) :
      Goes w k t rest (.pushRunspace r (.publishing previous))
        (w.publish (.runspace { reason := r.pushReason, previous, current := r }),
          t.give rest .unit)
  | framePopped (reason : Option RunspaceChangeReason) (frame : Nat) (nest : Nest)
      (h : w.nest.pop = .ok (frame, nest)) :
      Goes w k t rest (.popRunspace reason .poppingFrame)
        ({ w with nest }, t.goOn (.popRunspace reason .poppingRunspace :: rest))
  | unrecorded (reason : Option RunspaceChangeReason) (r : Runspace) (pushed : List Runspace)
      (h : w.pushed = r :: pushed) :
      Goes w k t rest (.popRunspace reason .poppingRunspace) ({ w with pushed },
        t.goOn (.popRunspace reason (.publishing r { w with pushed }.currentRunspace) :: rest))
  | basePopped (reason : Option RunspaceChangeReason) (h : w.pushed = [])
      (hbase : w.baseGone = false) :
      Goes w k t rest (.popRunspace reason .poppingRunspace)
        ({ w with baseGone := true }, t.panic rest .underflow)
  | popPublished (reason : Option RunspaceChangeReason) (popped current : Runspace) :
      Goes w k t rest (.popRunspace reason (.publishing popped current))
        (w.publish (.runspace
            { reason := reason.getD popped.popReason, previous := popped, current }),
          t.give rest (.popped (.ok popped)))
  | polled (r : Runspace) (engine : Engine) (h : w.engine.details = (.ok r, engine)) :
      Goes w k t rest (.track .polling)
        ({ w with engine }, t.goOn (.track (.comparing r) :: rest))
  | broken (what : String) (engine : Engine)
      (h : w.engine.details = (.error (.transportBroken what), engine)) :
      Goes w k t rest (.track .polling)
        ({ w with engine }, t.goOn (.track (.popping 0 (some .sessionClosed)) :: rest))
  | unpolled (e : EngineError) (engine : Engine) (h : w.engine.details = (.error e, engine))
      (he : ∀ what, e ≠ .transportBroken what) :
      Goes w k t rest (.track .polling) ({ w with engine }, t.give rest .unit)
  | unwinding (keep : Nat) (reason : Option RunspaceChangeReason) (h : keep < w.pushed.length) :
      Goes w k t rest (.track (.popping keep reason))
        (w, t.goOn (.popRunspace reason .checkingLength :: .track (.popping keep reason) :: rest))
  | aborted (inDebugger : Bool) :
      Goes w k t rest (.abort (.marking inDebugger))
        (w.setSession .aborting .notFinished (some "execution aborted"),
          t.goOn (.abort (.stopping inDebugger) :: rest))
  | stoppedDebugger :
      Goes w k t rest (.abort (.stopping true))
        ({ w with engine := w.operations.stopCommand w.engine },
          t.goOn (.abort (.signalling .debuggerStop (.resume .stop)) :: rest))
  | stopped :
      Goes w k t rest (.abort (.stopping false)) ({ w with engine := w.engine.stop },
        t.goOn (.abort .checkingPrompt :: rest))
  | abortSignalled (kind : LoopKind) (signal : Signal)
      (h : Signals w signal (w.signalInnermost kind signal).2) :
      Goes w k t rest (.abort (.signalling kind signal)) ((w.signalInnermost kind signal).2,
        t.goOn (.abort .checkingReader :: rest))
  | abortInterrupted :
      Goes w k t rest (.abort .interrupting) (w.interruptInnermost, t.give rest .unit)
  | disposed :
      Goes w k t rest (.dispose .marking)
        (w.setSession .disposed .notFinished (some "disposed"),
          t.goOn (.dispose .listing :: rest))
  | disposeSignalled (id : Nat) (kind : LoopKind) (loops : List (Nat × LoopKind))
      (h : Signals w kind.lastSignal (w.signalLoop id kind.lastSignal).2) :
      Goes w k t rest (.dispose (.signalling ((id, kind) :: loops)))
        ((w.signalLoop id kind.lastSignal).2, t.goOn (.dispose (.signalling loops) :: rest))
  | engineStopped :
      Goes w k t rest (.dispose .stopping) ({ w with engine := w.engine.stop },
        t.goOn (.dispose .interrupting :: rest))
  | readsInterrupted :
      Goes w k t rest (.dispose .interrupting) (w.interruptWhere fun _ => true, t.give rest .unit)

/-- The innermost activation gets the outcome of the one that ended above it. -/
inductive Receives (w : World) (t : Thread) (rest : List Activation) :
    Outcome → Activation → World × Thread → Prop
  | resumed (i i' : Invocation) (action : ResumeAction) (engine : Engine)
      (h : i.resume w.engine action = (engine, i')) :
      Receives w t rest (.action action) (.invocation i)
        ({ w with engine }, t.goOn (.invocation i' :: rest))
  | invocation (i : Invocation) {o : Outcome} (h : ∀ action, o ≠ .action action) :
      Receives w t rest o (.invocation i) (w, t.goOn (.invocation i :: rest))
  | reading (read : Nat) (waiting : Bool) {o : Outcome} :
      Receives w t rest o (.reading read waiting) (w, t.goOn (.reading read waiting :: rest))
  | loop (id : Nat) (phase : LoopPhase) {o : Outcome} :
      Receives w t rest o (.loop id phase) (w, t.goOn (.loop id phase :: rest))
  | debugged (r : Evaluation) :
      Receives w t rest (.evaluated r) .debuggerCommand
        (w, t.give rest (.debugged (r.map fun output => { output })))
  | leased (options : Options) (r : Evaluation) {w' : World} {reply : Reply}
      (h : Completes w options r w' reply) :
      Receives w t rest (.evaluated r) (.leased options) (w', t.give rest (.reply reply))
  | inLoop (loop : Nat) (options : Options) (output : Output Value) :
      Receives w t rest (.debugged (.ok { output })) (.inLoop loop options)
        (w, t.give rest (.reply (.ok output)))
  | signalled (loop : Nat) (options : Options) (output : Output Value) (action : ResumeAction)
      (h : Signals w (.resume action) (w.signalLoop loop (.resume action)).2) :
      Receives w t rest (.debugged (.ok { output, resume := some action })) (.inLoop loop options)
        ((w.signalLoop loop (.resume action)).2, t.give rest (.reply (.ok output)))
  | reported (loop : Nat) (options : Options) (e : EngineError) (what : String) {w' : World}
      (he : ExecutionError.ofEngine e = .engineRuntime what) (h : Reports w what options w') :
      Receives w t rest (.debugged (.error e)) (.inLoop loop options)
        (w', t.give rest (.reply (.ok { errors := [what] })))
  | failedInLoop (loop : Nat) (options : Options) (e : EngineError)
      (he : ∀ what, ExecutionError.ofEngine e ≠ .engineRuntime what) :
      Receives w t rest (.debugged (.error e)) (.inLoop loop options)
        (w, t.give rest (.reply (.error (.ofEngine e))))
  | pushed (frame : Nat) (h : Handle) {phase : RoomPhase} {o : Outcome} {m : World × Thread}
      (hm : Vacates w t rest frame h phase m) : Receives w t rest o (.pushed frame h phase) m
  | request (id : Nat) (r : Reply) :
      Receives w t rest (.reply r) (.request id)
        (w.setCell id (.deliver (.returned r)), t.give rest .unit)
  | idleRun {o : Outcome} :
      Receives w t rest o .idleRun ({ w with slot := w.slot.release }, t.give rest .unit)
  | inline (o : Order) (r : Reply) :
      Receives w t rest (.reply r) (.exec o .inline) (w, t.give rest (.reply r))
  | unleased (o : Order) (e : ExecutionError) :
      Receives w t rest (.lease (.error e)) (.exec o .leasing)
        (w, t.give rest (.reply (.error e)))
  | onLoop (o : Order) (h : Handle) (hloop : (w.nest.frame h.frame).kind.isLoop = true) :
      Receives w t rest (.lease (.ok h)) (.exec o .leasing)
        (w, t.goOn (.exec o (.checkingOwner h) :: rest))
  | offLoop (o : Order) (h : Handle) (hloop : (w.nest.frame h.frame).kind.isLoop = false) :
      Receives w t rest (.lease (.ok h)) (.exec o .leasing)
        (w, t.goOn (.exec o (.spawning h) :: rest))
  | tracked (o : Order) (r : Reply) :
      Receives w t rest .unit (.exec o (.finishing r)) (w, t.give rest (.reply r))
  | readLeased (token : Option Token) (h : Handle) :
      Receives w t rest (.lease (.ok h)) (.readTask token .leasing)
        (w, t.goOn (.readTask token (.registering h) :: rest))
  | readUnleased (token : Option Token) (e : ExecutionError) :
      Receives w t rest (.lease (.error e)) (.readTask token .leasing)
        (w, t.give rest (.line (.error e)))
  | handleTask (token : Option Token) (asked : Bool) {o : Outcome} :
      Receives w t rest o (.handleTask token asked) (w, t.give rest o)
  | worker (h : Handle) {o : Outcome} {m : World × Thread}
      (hm : Releases w h { t with stack := rest } m) : Receives w t rest o (.worker h) m
  | read (h : Handle) (read : Nat) (r : Except EngineError String) :
      Receives w t rest (.read r) (.readWorker h read .reading)
        (w, t.goOn (.readWorker h read (.ending r) :: rest))
  | drained (h : Handle) (read : Nat) (r : Except EngineError String) :
      Receives w t rest .unit (.readWorker h read (.drained r))
        (w, t.goOn (.readWorker h read (.drained r) :: rest))
  | popped (phase : TrackPhase) (r : Runspace) :
      Receives w t rest (.popped (.ok r)) (.track phase) (w, t.goOn (.track phase :: rest))
  | unpopped (phase : TrackPhase) (e : ExecutionError) :
      Receives w t rest (.popped (.error e)) (.track phase) (w, t.give rest .unit)
  | reentrant (r : Reply) :
      Receives w t rest (.reply r) .reentrant (w.write (.ran r), t.give rest .unit)

/-- The activations that do something when a panic unwinds them. -/
def Activation.cleansUp : Activation → Bool
  | .invocation _ | .pushed _ _ _ | .request _ | .idleRun | .worker _ | .readWorker _ _ _ => true
  | _ => false

/-- A panic unwinds the innermost activation. -/
inductive Unwinds (w : World) (t : Thread) (rest : List Activation) (p : Panic) :
    Activation → World × Thread → Prop
  | invocation (i : Invocation) :
      Unwinds w t rest p (.invocation i) (w, { t.panic rest p with depth := t.depth - 1 })
  | pushed (frame : Nat) (h : Handle) {phase : RoomPhase} {m : World × Thread}
      (hm : Vacates w t rest frame h phase m) : Unwinds w t rest p (.pushed frame h phase) m
  | request (id : Nat) :
      Unwinds w t rest p (.request id)
        (w.setCell id (.deliver (.panicked p)), t.give rest .unit)
  | idleRun : Unwinds w t rest p .idleRun ({ w with slot := w.slot.release }, t.panic rest p)
  | worker (h : Handle) {m : World × Thread} (hm : Releases w h (t.panic rest p) m) :
      Unwinds w t rest p (.worker h) m
  | readWorker (h : Handle) (read : Nat) (phase : ReadWorkerPhase) {m : World × Thread}
      (hm : Releases w h (t.panic rest p) m) : Unwinds w t rest p (.readWorker h read phase) m
  | other {a : Activation} (ha : a.cleansUp = false) : Unwinds w t rest p a (w, t.panic rest p)

/-- A turn of thread `k`, whose innermost activation is `a`. -/
inductive Turn (w : World) (k : Nat) (t : Thread) (a : Activation) (rest : List Activation)
    (m : World × Thread) : Prop
  | goes (hgo : t.control = .go) (h : Goes w k t rest a m)
  | receives (o : Outcome) (hback : t.control = .back o) (h : Receives w t rest o a m)
  | unwinds (p : Panic) (hunwind : t.control = .unwind p) (h : Unwinds w t rest p a m)

end ScriptHost.Service
