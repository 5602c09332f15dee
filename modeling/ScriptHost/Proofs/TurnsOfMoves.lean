import ScriptHost.Proofs.PermitLine
import ScriptHost.Proofs.Turns

/-!
Every move of a thread is a turn. This is the one place where the functions of the service are
opened: for each there is one lemma that finds, for every branch, the constructor that tells of
it.
-/

namespace ScriptHost.Service

variable {w : World} {k : Nat} {t : Thread} {rest : List Activation} {m : World × Thread}

theorem submits_invokeLeased (w : World) (t : Thread) (below : List Activation) (invoker : Nat)
    (o : Order) : Submits w t below invoker o (invokeLeased w t below invoker o) := by
  unfold invokeLeased
  dsimp only
  split
  · next e engine h => exact .refused e engine h
  · next h => exact .begun _ _ h rfl

theorem obeys_runInLoop (w : World) (t : Thread) (below : List Activation) (l : MessageLoop)
    (o : Order) : Obeys w t below l o (runInLoop w t below l o) := by
  unfold runInLoop
  split
  · next hkind =>
    split
    · unfold commandDebugger
      dsimp only
      split
      · next e engine h => exact .refused e engine hkind h
      · next hfault =>
        split
        · next engine action h => exact .resumed engine action hkind hfault h
        · next engine i h => exact .begun engine i hkind hfault h
    · next h => exact .forbidden hkind (eq_false_of_ne_true h)
  · next hkind => exact .entered hkind

theorem picks_runParked (w : World) (t : Thread) (below : List Activation) :
    Picks w t below (runParked w t below) := by
  unfold runParked IdleSlot.pickUp
  cases h : w.slot.parked with
  | none => exact .nothing h
  | some p => exact .found p.1 p.2 h

theorem releases_releaseThen (w : World) (h : Handle) (t : Thread) :
    Releases w h t (releaseThen w h t) := by
  unfold releaseThen World.release
  rcases hrelease : w.nest.release h with ⟨nest, _ | p⟩
  · exact .fit nest hrelease
  · exact .stuck nest p hrelease

theorem signals_signalLoop (w : World) (id : Nat) (signal : Signal) :
    Signals w signal (w.signalLoop id signal).2 := by
  unfold World.signalLoop
  split
  · next id' kind frame thread requests leaving hl =>
    obtain rfl : id' = id := by simpa using List.find?_some hl
    exact .accepted { id := id', kind, frame, thread, requests, leaving } hl rfl
  · exact .refused

theorem signals_signalInnermost (w : World) (kind : LoopKind) (signal : Signal) :
    Signals w signal (w.signalInnermost kind signal).2 := by
  unfold World.signalInnermost
  split
  · exact signals_signalLoop w _ signal
  · exact .refused

theorem calls_callHost (w : World) (i : Invocation) (c : HostCall) :
    Calls w k t (.invocation i :: rest) c
      (callHost w k (t.goOn (.invocation i :: rest)) c) := by
  cases c with
  | stateChanged state reason => exact .followed state reason
  | writeLine line =>
    unfold callHost writeLine
    dsimp only
    split
    · next h => exact .wrote line h
    · next gate h => exact .held line gate h
    · next script h => exact .reentered line script h
    · next p h => exact .crashed line p h
  | writeErrorLine line => exact .wroteError line
  | debuggerStop stop => exact .stopped stop
  | breakpointUpdated update => exact .updated update
  | enterNestedPrompt => exact .prompted
  | exitNestedPrompt => exact .exited (signals_signalInnermost w _ _)
  | idle => exact .idled (picks_runParked w _ _)

theorem closes_leaveLoop (w : World) (t : Thread) (rest : List Activation) (l : MessageLoop)
    (signal : Signal) : Closes w t rest l signal (leaveLoop w t rest l signal) := by
  unfold leaveLoop
  split
  · next hkind => exact .debugger hkind
  · next hkind => exact .prompt hkind

theorem reports_reportRuntime (w : World) (t : Thread) (rest : List Activation) (what : String)
    (options : Options) : ∃ w', Reports w what options w' ∧
      reportRuntime w t rest what options =
        (w', t.give rest (.reply (.ok { errors := [what] }))) := by
  unfold reportRuntime
  split
  · next h => exact ⟨_, .written h, rfl⟩
  · next h => exact ⟨_, .silent (eq_false_of_ne_true h), rfl⟩

theorem completes_completeLeased (w : World) (t : Thread) (rest : List Activation)
    (options : Options) (r : Evaluation) : ∃ w' reply, Completes w options r w' reply ∧
      completeLeased w t rest options r = (w', t.give rest (.reply reply)) := by
  unfold completeLeased
  split
  · exact ⟨_, _, .ok _, rfl⟩
  · next what =>
    obtain ⟨w', hreports, heq⟩ := reports_reportRuntime w t rest what options
    exact ⟨w', _, .runtime what hreports, heq⟩
  · next e h => exact ⟨_, _, .failed e fun what he => h what he, rfl⟩

theorem vacates_leavePushed (w : World) (t : Thread) (rest : List Activation) (frame : Nat)
    (h : Handle) (phase : RoomPhase) :
    Vacates w t rest frame h phase (leavePushed w t rest frame h phase) := by
  cases phase with
  | looking =>
    unfold leavePushed
    dsimp only
    split
    · next htop => exact .innermost htop
    · next htop => exact .covered htop
  | popping => exact .popped
  | releasing => exact .released (releases_releaseThen w h _)

theorem goes_of_invocationMoves {i : Invocation} (hm : m ∈ invocationMoves w k t rest i) :
    Goes w k t rest (.invocation i) m := by
  unfold invocationMoves at hm
  split at hm
  · next engine i' h =>
    obtain rfl := List.mem_singleton.mp hm
    exact .advanced i i' engine h
  · next engine c i' h =>
    obtain rfl := List.mem_singleton.mp hm
    exact .called i i' c engine h (calls_callHost _ i' c)
  · next engine ms i' h =>
    split at hm
    · next hms =>
      obtain rfl := List.mem_singleton.mp hm
      exact .slept i i' ms engine h hms
    · cases hm
  · next engine r h =>
    obtain rfl := List.mem_singleton.mp hm
    exact .finished i r engine h
  · next engine p h =>
    obtain rfl := List.mem_singleton.mp hm
    exact .crashed i p engine h

theorem goes_of_enterPushed (phase : EnterPhase) (work : PushedWork) :
    Goes w k t rest (.entering phase work) (enterPushed w t rest phase work) := by
  cases phase with
  | pushing => exact .pushed work
  | leasing frame =>
    unfold enterPushed
    dsimp only
    split
    · next h nest r hlease =>
      exact .enteredRequest frame r h nest hlease (submits_invokeLeased _ _ _ _ _)
    · next h nest o hlease =>
      exact .enteredOrder frame o h nest hlease (submits_invokeLeased _ _ _ _ _)
    · next hlease => exact .onward (.unleased frame _ hlease)
  | looking frame =>
    unfold enterPushed
    dsimp only
    split
    · next htop => exact .onward (.innermost frame work htop)
    · next htop => exact .onward (.covered frame work htop)
  | popping frame => exact .leftUnused frame work
  | refusing =>
    cases work with
    | request r => exact .abandoned r
    | order o => exact .unhandled o

theorem goes_of_processRequest {l : MessageLoop} {r : Request} {requests : List Request}
    {phase next : LoopPhase} (hl : w.findLoop l.id = some l) (hr : l.requests = r :: requests)
    (hphase : phase.Takes next) :
    Goes w k t rest (.loop l.id phase) (processRequest w t rest l r requests next) := by
  unfold processRequest
  dsimp only
  split
  · next h => exact .skipped l r requests hl hr hphase h
  · next h =>
    exact .taken l r requests hl hr hphase (eq_false_of_ne_true h) (obeys_runInLoop _ _ _ _ _)

theorem goes_of_openLoopMoves {l : MessageLoop} {phase : LoopPhase}
    (hl : w.findLoop l.id = some l) (hm : m ∈ openLoopMoves w t rest l phase) :
    Goes w k t rest (.loop l.id phase) m := by
  cases phase with
  | opening stop =>
    obtain rfl := List.mem_singleton.mp hm
    exact .announced l stop hl
  | announcing stop =>
    obtain rfl := List.mem_singleton.mp hm
    exact .published l stop hl
  | pumping =>
    simp only [openLoopMoves] at hm
    split at hm
    · next hr =>
      obtain rfl := List.mem_singleton.mp hm
      exact .onward (.pumped l hl hr)
    · next r requests hr =>
      obtain rfl := List.mem_singleton.mp hm
      exact goes_of_processRequest hl hr .pumping
  | selecting =>
    simp only [openLoopMoves] at hm
    rcases List.mem_append.mp hm with hm | hm
    · split at hm
      · cases hm
      · next r requests hr =>
        obtain rfl := List.mem_singleton.mp hm
        exact goes_of_processRequest hl hr .selecting
    · split at hm
      · cases hm
      · next signal hsignal =>
        obtain rfl := List.mem_singleton.mp hm
        exact .consumed l signal hl hsignal
  | closing signal =>
    obtain rfl := List.mem_singleton.mp hm
    exact .interruptedReads l signal hl
  | emptying signal =>
    simp only [openLoopMoves] at hm
    split at hm
    · next hr =>
      obtain rfl := List.mem_singleton.mp hm
      exact .onward (.emptied l signal hl hr)
    · next r requests hr =>
      obtain rfl := List.mem_singleton.mp hm
      exact goes_of_processRequest hl hr (.emptying signal)
  | leaving signal =>
    simp only [openLoopMoves] at hm
    split at hm
    · next hr =>
      obtain rfl := List.mem_singleton.mp hm
      exact .onward (.refilled l signal hl (by simpa using hr))
    · next hr =>
      have hr : l.requests = [] := by simpa using hr
      split at hm
      · next htop =>
        obtain rfl := List.mem_singleton.mp hm
        exact .locked l signal hl hr htop
      · next htop =>
        obtain rfl := List.mem_singleton.mp hm
        exact .closedCovered l signal hl hr htop (closes_leaveLoop _ _ _ _ _)
  | popping signal =>
    obtain rfl := List.mem_singleton.mp hm
    exact .closed l signal hl (closes_leaveLoop _ _ _ _ _)
  | resuming action => cases hm

theorem goes_of_loopMoves {id : Nat} {phase : LoopPhase} (hm : m ∈ loopMoves w t rest id phase) :
    Goes w k t rest (.loop id phase) m := by
  unfold loopMoves at hm
  split at hm
  · next action =>
    obtain rfl := List.mem_singleton.mp hm
    unfold resumeSession
    split
    · next h =>
      subst h
      exact .stayed id
    · next h => exact .resumed id action h
  · split at hm
    · next l hl =>
      obtain rfl : l.id = id := by simpa using List.find?_some hl
      exact goes_of_openLoopMoves hl hm
    · cases hm

theorem goes_of_settleLease {token : Option Token} {forReading : Bool} {frame : Nat}
    {phase : LeasePhase} {answer : Taking Nat × Nest} (h : phase.Answered w token frame answer) :
    Goes w k t rest (.getHandle token forReading phase)
      (settleLease w t rest token forReading frame answer) := by
  unfold settleLease
  split
  · next invoker nest => exact .granted token forReading frame invoker nest h
  · next what nest =>
    split
    · next hpopped => exact .again token forReading frame what nest h hpopped
    · next hpopped =>
      exact .failed token forReading frame _ nest h fun _ _ => eq_false_of_ne_true hpopped
  · next e nest he =>
    exact .failed token forReading frame e nest h fun what heq => absurd heq (he what)
  · next ticket nest => exact .lined token forReading frame ticket nest h

theorem goes_of_leaseMoves {token : Option Token} {forReading : Bool} {phase : LeasePhase}
    (hm : m ∈ leaseMoves w t rest token forReading phase) :
    Goes w k t rest (.getHandle token forReading phase) m := by
  cases phase with
  | choosing =>
    obtain rfl := List.mem_singleton.mp hm
    exact .onward (.chose token forReading)
  | asking frame =>
    obtain rfl := List.mem_singleton.mp hm
    exact goes_of_settleLease .asking
  | waiting frame ticket =>
    simp only [leaseMoves] at hm
    split at hm
    · cases hm
    · next hwaiting =>
      obtain rfl := List.mem_singleton.mp hm
      refine goes_of_settleLease (.waiting ticket fun ticket' heq => ?_)
      exact hwaiting ticket' _ (Prod.ext heq rfl)
  | marking frame invoker =>
    obtain rfl := List.mem_singleton.mp hm
    exact .leased token forReading frame invoker

theorem goes_of_routeMoves {o : Order} (hm : m ∈ routeMoves w k t rest o) :
    Goes w k t rest (.exec o .routing) m := by
  unfold routeMoves at hm
  split at hm
  · next h =>
    obtain rfl := List.mem_singleton.mp hm
    exact .onward (.exec o (.unlooped h))
  · next l loops hl =>
    split at hm <;> obtain rfl := List.mem_singleton.mp hm
    · next hself => exact .inlined o l loops hl hself (obeys_runInLoop _ _ _ _ _)
    · next hself => exact .posted o l loops hl hself

theorem goes_of_replyMoves {o : Order} {phase : ExecPhase} {id : Nat}
    (hphase : phase = .posted id ∨ phase = .awaiting id) (hm : m ∈ replyMoves w t rest id) :
    Goes w k t rest (.exec o phase) m := by
  unfold replyMoves at hm
  split at hm
  · next r hr =>
    obtain rfl := List.mem_singleton.mp hm
    exact .ended (.replied o phase id r hphase hr)
  · cases hm

theorem goes_of_acquireMoves {o : Order} (hm : m ∈ acquireMoves w t rest o) :
    Goes w k t rest (.exec o .acquiring) m := by
  unfold acquireMoves at hm
  dsimp only at hm
  rcases List.mem_append.mp hm with hm | hm
  · split at hm <;> obtain rfl := List.mem_singleton.mp hm
    · next permit h _ => exact .acquired o permit h
    · next ticket permit h _ => exact .queued o ticket permit h
  · split at hm
    · next h =>
      obtain rfl := List.mem_singleton.mp hm
      exact .turnedAway o h
    · cases hm

theorem goes_of_queuedMoves {o : Order} {ticket id : Nat}
    (hm : m ∈ queuedMoves w t rest o ticket id) :
    Goes w k t rest (.exec o (.queued ticket id)) m := by
  unfold queuedMoves at hm
  rcases List.mem_append.mp hm with hm | hm
  · split at hm
    · next permit h =>
      obtain rfl := List.mem_singleton.mp hm
      exact .permitted o ticket id permit h
    · cases hm
  · split at hm
    · next h =>
      obtain rfl := List.mem_singleton.mp hm
      exact .gaveUp o ticket id h
    · cases hm

theorem goes_of_awaitMoves {o : Order} {id : Nat} (hm : m ∈ awaitMoves w t rest o id) :
    Goes w k t rest (.exec o (.awaiting id)) m := by
  unfold awaitMoves at hm
  rcases List.mem_append.mp hm with hm | hm
  · exact goes_of_replyMoves (Or.inr rfl) hm
  · split at hm
    · next hcancelled =>
      split at hm
      · next r slot hreclaim =>
        obtain rfl := List.mem_singleton.mp hm
        obtain ⟨hparked, rfl⟩ := IdleSlot.reclaim_spec hreclaim
        exact .withdrawn o id r hcancelled hparked
      · cases hm
    · cases hm

theorem goes_of_joinMoves {o : Order} {worker : Nat} (hm : m ∈ joinMoves w t rest o worker) :
    Goes w k t rest (.exec o (.joining worker)) m := by
  unfold joinMoves at hm
  split at hm
  · cases hm
  · next r hr =>
    split at hm <;> obtain rfl := List.mem_singleton.mp hm
    · next h => exact .joined o worker r hr h
    · next h => exact .ended (.joined o worker r hr (eq_false_of_ne_true h))

theorem goes_throughIdle {o : Order} {phase : ExecPhase}
    (h : ∀ interrupt, o.options.interruptPrompt = interrupt →
      phase.Next w o (if interrupt then .interrupting else .acquiring)) :
    Goes w k t rest (.exec o phase) (w, throughIdle t rest o) :=
  .onward (.exec o (h _ rfl))

theorem goes_of_execMoves {o : Order} {phase : ExecPhase} (hm : m ∈ execMoves w k t rest o phase) :
    Goes w k t rest (.exec o phase) m := by
  cases phase with
  | checking =>
    obtain rfl := List.mem_singleton.mp hm
    dsimp only
    split
    · next h => exact .ended (.refused o h)
    · next h => exact .onward (.exec o (.admitted (eq_false_of_ne_true h)))
  | routing => exact goes_of_routeMoves hm
  | posted id =>
    simp only [execMoves] at hm
    rcases List.mem_append.mp hm with hm | hm
    · exact goes_of_replyMoves (Or.inl rfl) hm
    · split at hm
      · next h =>
        obtain rfl := List.mem_singleton.mp hm
        exact .ended (.cancelled o id h)
      · cases hm
  | checkingRemote =>
    obtain rfl := List.mem_singleton.mp hm
    dsimp only
    split
    · next h => exact .onward (.exec o (.here h))
    · next h => exact .remote o (eq_false_of_ne_true h)
  | checkingPrompt =>
    obtain rfl := List.mem_singleton.mp hm
    dsimp only
    split
    · next h =>
      refine goes_throughIdle fun interrupt ho => ?_
      cases interrupt with
      | true => exact .readInterrupted h ho
      | false => exact .readQueued h ho
    · next h => exact .onward (.exec o (.unread (eq_false_of_ne_true h)))
  | checkingFlight =>
    obtain rfl := List.mem_singleton.mp hm
    split
    · next h =>
      refine goes_throughIdle fun interrupt ho => ?_
      cases interrupt with
      | true => exact .flightInterrupted h ho
      | false => exact .flightQueued h ho
    · next h => exact .vacant o (eq_false_of_ne_true h)
  | interrupting =>
    obtain rfl := List.mem_singleton.mp hm
    exact .interrupted o
  | acquiring => exact goes_of_acquireMoves hm
  | queued ticket id => exact goes_of_queuedMoves hm
  | subscribing id =>
    obtain rfl := List.mem_singleton.mp hm
    dsimp only
    split
    · next h => exact .onward (.exec o (.subscribed id h))
    · next h => exact .subscribed o id (eq_false_of_ne_true h)
  | parking id =>
    obtain rfl := List.mem_singleton.mp hm
    exact .parked o id
  | checkingReader id =>
    obtain rfl := List.mem_singleton.mp hm
    dsimp only
    split
    · next h => exact .onward (.exec o (.seen id h))
    · next h => exact .onward (.exec o (.unseen id (eq_false_of_ne_true h)))
  | reclaiming id =>
    simp only [execMoves] at hm
    split at hm <;> obtain rfl := List.mem_singleton.mp hm
    · next r slot hreclaim =>
      obtain ⟨hparked, rfl⟩ := IdleSlot.reclaim_spec hreclaim
      exact .reclaimed o id r hparked
    · next hreclaim => exact .onward (.exec o (.pickedUp id hreclaim))
  | awaiting id => exact goes_of_awaitMoves hm
  | checkingOwner h =>
    obtain rfl := List.mem_singleton.mp hm
    dsimp only
    split
    · next howned => exact .onward (.exec o (.owned h howned))
    · next howned => exact .onward (.exec o (.unowned h (eq_false_of_ne_true howned)))
  | checkingPopped h =>
    obtain rfl := List.mem_singleton.mp hm
    dsimp only
    split
    · next hpopped => exact .onward (.exec o (.popped h hpopped))
    · next hpopped => exact .onward (.exec o (.standing h (eq_false_of_ne_true hpopped)))
  | refusing h =>
    obtain rfl := List.mem_singleton.mp hm
    exact .unowned o h (releases_releaseThen w h _)
  | rerouting h =>
    obtain rfl := List.mem_singleton.mp hm
    exact .rerouted o h (releases_releaseThen w h _)
  | spawning h =>
    obtain rfl := List.mem_singleton.mp hm
    exact .spawned o h
  | joining worker => exact goes_of_joinMoves hm
  | inline | leasing | finishing => cases hm

theorem goes_of_readTaskMoves {token : Option Token} {phase : ReadTaskPhase}
    (hm : m ∈ readTaskMoves w t rest token phase) : Goes w k t rest (.readTask token phase) m := by
  cases phase with
  | checking =>
    simp only [readTaskMoves] at hm
    split at hm <;> obtain rfl := List.mem_singleton.mp hm
    · next h => exact .ended (.readRefused token h)
    · next h => exact .readAsked token (eq_false_of_ne_true h)
  | leasing => cases hm
  | registering h =>
    obtain rfl := List.mem_singleton.mp hm
    exact .registered token h
  | spawning h read =>
    obtain rfl := List.mem_singleton.mp hm
    exact .readSpawned token h read
  | joining worker =>
    simp only [readTaskMoves] at hm
    split at hm
    · next r hr =>
      obtain rfl := List.mem_singleton.mp hm
      exact .ended (.readJoined token worker r hr)
    · next p hr =>
      obtain rfl := List.mem_singleton.mp hm
      exact .ended (.readPanicked token worker p hr)
    · cases hm

theorem goes_of_readingMoves {read : Nat} {waiting : Bool}
    (hm : m ∈ readingMoves w t rest read waiting) : Goes w k t rest (.reading read waiting) m := by
  cases waiting with
  | true =>
    simp only [readingMoves, if_true] at hm
    rcases List.mem_append.mp hm with hm | hm
    · split at hm
      · next line input h =>
        obtain rfl := List.mem_singleton.mp hm
        exact .lineRead read line input h
      · cases hm
    · split at hm
      · next h =>
        simp only [Bool.and_eq_true, Bool.or_eq_true] at h
        obtain ⟨hticks, hcause⟩ := h
        simp only [List.mem_singleton] at hm
        subst hm
        split
        · next hidle =>
          exact .tickRan read hticks (hcause.imp_right And.right) hidle (picks_runParked w t _)
        · next hidle =>
          have hcancelled := hcause.resolve_right fun h => hidle h.1
          exact .onward (.ticked read hticks hcancelled (eq_false_of_ne_true hidle))
      · cases hm
  | false =>
    simp only [readingMoves, Bool.false_eq_true, if_false] at hm
    split at hm <;> obtain rfl := List.mem_singleton.mp hm
    · next h => exact .ended (.readCancelled read h)
    · next h => exact .onward (.waited read (eq_false_of_ne_true h))

theorem goes_of_readWorkerMoves {h : Handle} {read : Nat} {phase : ReadWorkerPhase}
    (hm : m ∈ readWorkerMoves w t rest h read phase) :
    Goes w k t rest (.readWorker h read phase) m := by
  cases phase with
  | starting =>
    simp only [readWorkerMoves] at hm
    split at hm <;> obtain rfl := List.mem_singleton.mp hm
    · next e engine hfault => exact .readRefused h read e engine hfault
    · next hfault => exact .readBegun h read hfault
  | reading => cases hm
  | ending r =>
    obtain rfl := List.mem_singleton.mp hm
    exact .unmarked h read r
  | draining r =>
    obtain rfl := List.mem_singleton.mp hm
    exact .drained h read r (picks_runParked w t _)
  | drained r =>
    obtain rfl := List.mem_singleton.mp hm
    exact .unregistered h read r
  | releasing r =>
    obtain rfl := List.mem_singleton.mp hm
    exact .readReleased h read r (releases_releaseThen w h _)

theorem goes_of_pushRunspaceMoves {r : Runspace} {phase : PushPhase}
    (hm : m ∈ pushRunspaceMoves w t rest r phase) :
    Goes w k t rest (.pushRunspace r phase) m := by
  cases phase with
  | looking =>
    simp only [pushRunspaceMoves] at hm
    split at hm <;> obtain rfl := List.mem_singleton.mp hm
    · next h => exact .underflowed r h
    · next h => exact .onward (.noted r (eq_false_of_ne_true h))
  | pushing previous =>
    obtain rfl := List.mem_singleton.mp hm
    exact .framePushed r previous
  | recording previous =>
    obtain rfl := List.mem_singleton.mp hm
    exact .recorded r previous
  | publishing previous =>
    obtain rfl := List.mem_singleton.mp hm
    exact .pushPublished r previous

theorem goes_of_popRunspaceMoves {reason : Option RunspaceChangeReason} {phase : PopPhase}
    (hm : m ∈ popRunspaceMoves w t rest reason phase) :
    Goes w k t rest (.popRunspace reason phase) m := by
  cases phase with
  | checkingLength =>
    simp only [popRunspaceMoves] at hm
    split at hm <;> obtain rfl := List.mem_singleton.mp hm
    · next h => exact .ended (.unpushed reason (by simpa using h))
    · next h => exact .onward (.pushed reason (by simpa using h))
  | checkingFrame =>
    simp only [popRunspaceMoves] at hm
    split at hm <;> obtain rfl := List.mem_singleton.mp hm
    · next h => exact .onward (.remote reason h)
    · next h => exact .ended (.framed reason h)
  | poppingFrame =>
    simp only [popRunspaceMoves] at hm
    split at hm <;> obtain rfl := List.mem_singleton.mp hm
    · next frame nest h => exact .framePopped reason frame nest h
    · next e h => exact .ended (.unpopped reason e h)
  | poppingRunspace =>
    simp only [popRunspaceMoves] at hm
    split at hm
    · next r pushed h =>
      obtain rfl := List.mem_singleton.mp hm
      exact .unrecorded reason r pushed h
    · next h =>
      split at hm <;> obtain rfl := List.mem_singleton.mp hm
      · next hbase => exact .ended (.noRunspace reason h hbase)
      · next hbase => exact .basePopped reason h (eq_false_of_ne_true hbase)
  | publishing popped current =>
    obtain rfl := List.mem_singleton.mp hm
    exact .popPublished reason popped current

theorem goes_of_trackMoves {phase : TrackPhase} (hm : m ∈ trackMoves w t rest phase) :
    Goes w k t rest (.track phase) m := by
  cases phase with
  | polling =>
    simp only [trackMoves] at hm
    split at hm <;> obtain rfl := List.mem_singleton.mp hm
    · next r engine h => exact .polled r engine h
    · next what engine h => exact .broken what engine h
    · next e engine h he => exact .unpolled e engine he fun what heq => h what (heq ▸ rfl)
  | comparing r =>
    simp only [trackMoves] at hm
    split at hm
    · next h =>
      obtain rfl := List.mem_singleton.mp hm
      exact .ended (.current r (by simpa using h))
    · next h =>
      split at hm <;> obtain rfl := List.mem_singleton.mp hm
      · next keep hkeep => exact .onward (.known r keep (by simpa using h) hkeep)
      · next hkeep => exact .onward (.unknown r (by simpa using h) hkeep)
  | popping keep reason =>
    simp only [trackMoves] at hm
    split at hm <;> obtain rfl := List.mem_singleton.mp hm
    · next h => exact .unwinding keep reason h
    · next h => exact .ended (.unwound keep reason h)

theorem goes_of_abortMoves {phase : AbortPhase} (hm : m ∈ abortMoves w t rest phase) :
    Goes w k t rest (.abort phase) m := by
  cases phase with
  | looking =>
    simp only [abortMoves] at hm
    split at hm <;> obtain rfl := List.mem_singleton.mp hm
    · next h => exact .ended (.late (Or.inl h))
    · next h => exact .ended (.late (Or.inr h))
    · next haborting hdisposed => exact .onward (.abort (.looked haborting hdisposed))
  | checkingDebugger state =>
    obtain rfl := List.mem_singleton.mp hm
    dsimp only
    split
    · next h => exact .onward (.abort (.busy state (by simpa using h)))
    · next h => exact .onward (.abort (.idle state (by simpa using h)))
  | marking inDebugger =>
    obtain rfl := List.mem_singleton.mp hm
    exact .aborted inDebugger
  | stopping inDebugger =>
    cases inDebugger <;> obtain rfl := List.mem_singleton.mp hm
    · exact .stopped
    · exact .stoppedDebugger
  | checkingPrompt =>
    obtain rfl := List.mem_singleton.mp hm
    dsimp only
    split
    · next h => exact .onward (.abort (.prompted h))
    · next h => exact .onward (.abort (.unprompted (eq_false_of_ne_true h)))
  | signalling kind signal =>
    obtain rfl := List.mem_singleton.mp hm
    exact .abortSignalled kind signal (signals_signalInnermost w kind signal)
  | checkingReader =>
    obtain rfl := List.mem_singleton.mp hm
    dsimp only
    split
    · next h => exact .onward (.abort (.read h))
    · next h => exact .ended (.unread (eq_false_of_ne_true h))
  | interrupting =>
    obtain rfl := List.mem_singleton.mp hm
    exact .abortInterrupted

theorem goes_of_disposeMoves {phase : DisposePhase} (hm : m ∈ disposeMoves w t rest phase) :
    Goes w k t rest (.dispose phase) m := by
  cases phase with
  | marking =>
    obtain rfl := List.mem_singleton.mp hm
    exact .disposed
  | listing =>
    obtain rfl := List.mem_singleton.mp hm
    exact .onward .listed
  | signalling loops =>
    cases loops with
    | nil =>
      obtain rfl := List.mem_singleton.mp hm
      exact .onward .signalled
    | cons l loops =>
      obtain rfl := List.mem_singleton.mp hm
      exact .disposeSignalled l.1 l.2 loops (signals_signalLoop w _ _)
  | stopping =>
    obtain rfl := List.mem_singleton.mp hm
    exact .engineStopped
  | interrupting =>
    obtain rfl := List.mem_singleton.mp hm
    exact .readsInterrupted

theorem goes_of_proceed {a : Activation} (hm : m ∈ proceed w k t rest a) : Goes w k t rest a m := by
  cases a with
  | invocation i => exact goes_of_invocationMoves hm
  | reading read waiting => exact goes_of_readingMoves hm
  | entering phase work =>
    obtain rfl := List.mem_singleton.mp hm
    exact goes_of_enterPushed phase work
  | loop id phase => exact goes_of_loopMoves hm
  | getHandle token forReading phase => exact goes_of_leaseMoves hm
  | exec o phase => exact goes_of_execMoves hm
  | readTask token phase => exact goes_of_readTaskMoves hm
  | handleTask token asked =>
    cases asked with
    | true => cases hm
    | false =>
      simp only [proceed] at hm
      split at hm <;> obtain rfl := List.mem_singleton.mp hm
      · next h => exact .ended (.leaseRefused token h)
      · next h => exact .leaseAsked token (eq_false_of_ne_true h)
  | starting h o =>
    obtain rfl := List.mem_singleton.mp hm
    exact .started h o (submits_invokeLeased w t _ _ o)
  | readWorker h read phase => exact goes_of_readWorkerMoves hm
  | pushRunspace r phase => exact goes_of_pushRunspaceMoves hm
  | popRunspace reason phase => exact goes_of_popRunspaceMoves hm
  | track phase => exact goes_of_trackMoves hm
  | abort phase => exact goes_of_abortMoves hm
  | dispose phase => exact goes_of_disposeMoves hm
  | held gate =>
    simp only [proceed] at hm
    split at hm
    · next h =>
      obtain rfl := List.mem_singleton.mp hm
      exact .ended (.gateOpened gate h)
    · cases hm
  | debuggerCommand | leased | inLoop | pushed | request | idleRun | worker | reentrant => cases hm

theorem receives_completeInLoop (loop : Nat) (options : Options)
    (r : Except EngineError DebuggerResult) :
    Receives w t rest (.debugged r) (.inLoop loop options)
      (completeInLoop w t rest loop options r) := by
  unfold completeInLoop
  split
  · next d =>
    obtain ⟨output, _ | action⟩ := d
    · exact .inLoop loop options output
    · exact .signalled loop options output action (signals_signalLoop w loop _)
  · next e =>
    split
    · next what he =>
      obtain ⟨w', hreports, heq⟩ := reports_reportRuntime w t rest what options
      rw [heq]
      exact .reported loop options e what he hreports
    · next hne => exact .failedInLoop loop options e fun what he => hne what he

theorem receives_of_execReceive {o : Order} {phase : ExecPhase} {outcome : Outcome}
    (hm : m ∈ execReceive w t rest o phase outcome) :
    Receives w t rest outcome (.exec o phase) m := by
  unfold execReceive at hm
  split at hm
  · next r =>
    obtain rfl := List.mem_singleton.mp hm
    exact .inline o r
  · next e =>
    obtain rfl := List.mem_singleton.mp hm
    exact .unleased o e
  · next h =>
    obtain rfl := List.mem_singleton.mp hm
    split
    · next hloop => exact .onLoop o h hloop
    · next hloop => exact .offLoop o h (eq_false_of_ne_true hloop)
  · next r =>
    obtain rfl := List.mem_singleton.mp hm
    exact .tracked o r
  · cases hm

theorem receives_of_readTaskReceive {token : Option Token} {phase : ReadTaskPhase}
    {o : Outcome} (hm : m ∈ readTaskReceive w t rest token phase o) :
    Receives w t rest o (.readTask token phase) m := by
  unfold readTaskReceive at hm
  split at hm
  · next h =>
    obtain rfl := List.mem_singleton.mp hm
    exact .readLeased token h
  · next e =>
    obtain rfl := List.mem_singleton.mp hm
    exact .readUnleased token e
  · cases hm

theorem receives_of_readWorkerReceive {h : Handle} {read : Nat} {phase : ReadWorkerPhase}
    {o : Outcome} (hm : m ∈ readWorkerReceive w t rest h read phase o) :
    Receives w t rest o (.readWorker h read phase) m := by
  unfold readWorkerReceive at hm
  split at hm
  · next r =>
    obtain rfl := List.mem_singleton.mp hm
    exact .read h read r
  · next r =>
    obtain rfl := List.mem_singleton.mp hm
    exact .drained h read r
  · cases hm

theorem receives_of_trackReceive {phase : TrackPhase} {o : Outcome}
    (hm : m ∈ trackReceive w t rest phase o) : Receives w t rest o (.track phase) m := by
  unfold trackReceive at hm
  split at hm
  · next r =>
    obtain rfl := List.mem_singleton.mp hm
    exact .popped phase r
  · next e =>
    obtain rfl := List.mem_singleton.mp hm
    exact .unpopped phase e
  · cases hm

theorem receives_of_receive {a : Activation} {o : Outcome} (hm : m ∈ receive w t rest o a) :
    Receives w t rest o a m := by
  cases a with
  | invocation i =>
    cases o with
    | action action =>
      obtain rfl := List.mem_singleton.mp hm
      exact .resumed i _ action _ rfl
    | _ =>
      obtain rfl := List.mem_singleton.mp hm
      exact .invocation i (by simp)
  | reading read waiting =>
    obtain rfl := List.mem_singleton.mp hm
    exact .reading read waiting
  | loop id phase =>
    obtain rfl := List.mem_singleton.mp hm
    exact .loop id phase
  | debuggerCommand =>
    cases o with
    | evaluated r =>
      obtain rfl := List.mem_singleton.mp hm
      exact .debugged r
    | _ => cases hm
  | leased options =>
    cases o with
    | evaluated r =>
      obtain rfl := List.mem_singleton.mp hm
      obtain ⟨w', reply, h, heq⟩ := completes_completeLeased w t rest options r
      rw [heq]
      exact .leased options r h
    | _ => cases hm
  | inLoop loop options =>
    cases o with
    | debugged r =>
      obtain rfl := List.mem_singleton.mp hm
      exact receives_completeInLoop loop options r
    | _ => cases hm
  | pushed frame h phase =>
    obtain rfl := List.mem_singleton.mp hm
    exact .pushed frame h (vacates_leavePushed w t rest frame h phase)
  | request id =>
    cases o with
    | reply r =>
      obtain rfl := List.mem_singleton.mp hm
      exact .request id r
    | _ => cases hm
  | idleRun =>
    obtain rfl := List.mem_singleton.mp hm
    exact .idleRun
  | exec o phase => exact receives_of_execReceive hm
  | readTask token phase => exact receives_of_readTaskReceive hm
  | handleTask token asked =>
    obtain rfl := List.mem_singleton.mp hm
    exact .handleTask token asked
  | worker h =>
    obtain rfl := List.mem_singleton.mp hm
    exact .worker h (releases_releaseThen w h _)
  | readWorker h read phase => exact receives_of_readWorkerReceive hm
  | track phase => exact receives_of_trackReceive hm
  | reentrant =>
    cases o with
    | reply r =>
      obtain rfl := List.mem_singleton.mp hm
      exact .reentrant r
    | _ => cases hm
  | entering | getHandle | starting | pushRunspace | popRunspace | abort | dispose | held =>
    cases hm

theorem unwinds_of_unwound {a : Activation} {p : Panic} (hm : m ∈ unwound w t rest p a) :
    Unwinds w t rest p a m := by
  cases a with
  | invocation i =>
    obtain rfl := List.mem_singleton.mp hm
    exact .invocation i
  | pushed frame h phase =>
    obtain rfl := List.mem_singleton.mp hm
    exact .pushed frame h (vacates_leavePushed w t rest frame h phase)
  | request id =>
    obtain rfl := List.mem_singleton.mp hm
    exact .request id
  | idleRun =>
    obtain rfl := List.mem_singleton.mp hm
    exact .idleRun
  | worker h =>
    obtain rfl := List.mem_singleton.mp hm
    exact .worker h (releases_releaseThen w h _)
  | readWorker h read phase =>
    obtain rfl := List.mem_singleton.mp hm
    exact .readWorker h read phase (releases_releaseThen w h _)
  | _ =>
    obtain rfl := List.mem_singleton.mp hm
    exact .other rfl

/-- Every move of a thread is a turn of its innermost activation. -/
theorem turn_of_moves (hm : m ∈ t.moves w k) :
    ∃ a rest, t.stack = a :: rest ∧ Turn w k t a rest m := by
  unfold Thread.moves at hm
  split at hm
  · cases hm
  · next a rest hs hgo => exact ⟨a, rest, hs, .goes hgo (goes_of_proceed hm)⟩
  · next a rest o hs hback => exact ⟨a, rest, hs, .receives o hback (receives_of_receive hm)⟩
  · next a rest p hs hunwind => exact ⟨a, rest, hs, .unwinds p hunwind (unwinds_of_unwound hm)⟩
  · cases hm

/-- The turn of a thread whose stack is known. -/
theorem turn_of_stack {a : Activation} (hm : m ∈ t.moves w k) (hs : t.stack = a :: rest) :
    Turn w k t a rest m := by
  obtain ⟨a', rest', hs', hturn⟩ := turn_of_moves hm
  obtain ⟨rfl, rfl⟩ := List.cons.inj (hs'.symm.trans hs)
  exact hturn

theorem stack_ne_nil_of_moves (hm : m ∈ t.moves w k) : t.stack ≠ [] := by
  obtain ⟨a, rest, hs, -⟩ := turn_of_moves hm
  rw [hs]
  exact List.cons_ne_nil a rest

theorem goes_of_moves {a : Activation} (hm : m ∈ t.moves w k) (hgo : t.control = .go)
    (hs : t.stack = a :: rest) : Goes w k t rest a m := by
  cases turn_of_stack hm hs with
  | goes hgo' h => exact h
  | receives o hback | unwinds p hback => cases hgo.symm.trans hback

theorem receives_of_moves {a : Activation} {o : Outcome} (hm : m ∈ t.moves w k)
    (hback : t.control = .back o) (hs : t.stack = a :: rest) : Receives w t rest o a m := by
  cases turn_of_stack hm hs with
  | receives o' hback' h =>
    cases hback.symm.trans hback'
    exact h
  | goes hgo => cases hback.symm.trans hgo
  | unwinds p hunwind => cases hback.symm.trans hunwind

end ScriptHost.Service
