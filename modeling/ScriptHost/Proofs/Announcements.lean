import ScriptHost.Proofs.TurnsOfMoves

/-!
What each move of the service makes known. Subscribers can follow the session and the stack of
runspaces; a move changes the session together with the event that tells of it, and only a
push or a pop of a runspace changes the stack. Such an operation takes several moves, and the
thread that is midway in it does nothing else before it ends.
-/

namespace ScriptHost.Service

/-- What subscribers can follow, with the bus on which they hear of it. -/
def World.outlook (w : World) : Session × EventBus × Runspace × List Runspace × Bool :=
  (w.session, w.bus, w.baseRunspace, w.pushed, w.baseGone)

/-- An operation on the runspaces that has begun and not come to its end. -/
def Activation.midway : Activation → Bool
  | .pushRunspace _ .looking | .popRunspace _ .checkingLength => false
  | .pushRunspace _ _ | .popRunspace _ _ => true
  | _ => false

/-- The thread is midway in such an operation and goes on with it. -/
def Thread.midway (t : Thread) : Bool :=
  match t.control, t.stack with
  | .go, a :: _ => a.midway
  | _, _ => false

/-- A change of the session with its event, or an event of another kind, or neither. The stack
of runspaces stays. -/
inductive Announces (w w' : World) : Prop
  | nothing (h : w'.outlook = w.outlook)
  | session (state : SessionState) (result : ExecutionResult) (reason : Option String)
      (h : w'.outlook = (w.setSession state result reason).outlook)
  | stop (s : DebuggerStop) (h : w'.outlook = (w.publish (.stop s)).outlook)
  | breakpoint (u : BreakpointUpdate) (h : w'.outlook = (w.publish (.breakpoint u)).outlook)

/-- A move that is no part of an operation on the runspaces, and begins none but at its start. -/
structure Plain (w : World) (m : World × Thread) : Prop where
  announces : Announces w m.1
  midway : m.2.midway = false

/-- What a move does as its subscribers see it. -/
inductive Doing (w : World) (k : Nat) (t : Thread) (m : World × Thread) : Prop
  | plain (h : Plain w m) (ht : t.midway = false)
  | pushes {r : Runspace} {phase : PushPhase} {rest : List Activation} (hgo : t.control = .go)
      (hs : t.stack = .pushRunspace r phase :: rest)
      (hm : Goes w k t rest (.pushRunspace r phase) m)
  | pops {reason : Option RunspaceChangeReason} {phase : PopPhase} {rest : List Activation}
      (hgo : t.control = .go) (hs : t.stack = .popRunspace reason phase :: rest)
      (hm : Goes w k t rest (.popRunspace reason phase) m)

section Moves

variable {w w' : World} {k : Nat} {t t' : Thread} {a : Activation} {rest : List Activation}
  {m : World × Thread}

theorem Plain.quiet (h : m.1.outlook = w.outlook) (ht : m.2.midway = false) : Plain w m :=
  ⟨.nothing h, ht⟩

theorem Thread.midway_of_control (h : t.control ≠ .go) : t.midway = false := by
  unfold midway
  split
  · next hgo _ => exact absurd hgo h
  · rfl

theorem outlook_changeSession (hw : w'.outlook = w.outlook)
    (c : Session × Option SessionChange) :
    (w'.changeSession c).outlook = (w.changeSession c).outlook := by
  simp only [World.outlook, Prod.mk.injEq] at hw
  rcases c with ⟨session, _ | change⟩ <;>
    simp [World.changeSession, World.outlook, hw]

theorem outlook_signals {signal : Signal} (h : Signals w signal w') : w'.outlook = w.outlook := by
  cases h <;> rfl

theorem plain_releases {h : Handle} (ht : t'.midway = false) (hm : Releases w h t' m) :
    Plain w m := by
  cases hm with
  | fit => exact .quiet rfl ht
  | stuck => exact .quiet rfl rfl

theorem plain_submits {below : List Activation} {invoker : Nat} {o : Order}
    (hm : Submits w' t below invoker o m) (hw : w'.outlook = w.outlook) : Plain w m := by
  cases hm <;> exact .quiet hw rfl

theorem plain_obeys {below : List Activation} {l : MessageLoop} {o : Order}
    (hm : Obeys w' t below l o m) (hw : w'.outlook = w.outlook) : Plain w m := by
  cases hm <;> exact .quiet hw rfl

theorem plain_picks (ha : a.midway = false) (hm : Picks w t (a :: rest) m) : Plain w m := by
  cases hm with
  | found => exact .quiet rfl rfl
  | nothing => exact .quiet rfl ha

/-- Frames are left by threads that return or are unwound. -/
theorem plain_vacates {frame : Nat} {h : Handle} {phase : RoomPhase} (hback : t.control ≠ .go)
    (hm : Vacates w t rest frame h phase m) : Plain w m := by
  have hmidway : ∀ stack, ({ t with stack } : Thread).midway = false := fun stack =>
    Thread.midway_of_control (t := { t with stack }) hback
  cases hm with
  | released hm => exact plain_releases (hmidway rest) hm
  | _ => exact .quiet rfl (hmidway _)

theorem plain_calls {engine : Engine} {i : Invocation} {c : HostCall}
    (hm : Calls { w with engine } k t (.invocation i :: rest) c m) : Plain w m := by
  cases hm with
  | followed state reason =>
    have hsame : ({ w with engine } : World).outlook = w.outlook := rfl
    exact ⟨.session _ _ reason (outlook_changeSession hsame (w.session.follow state reason)), rfl⟩
  | updated update => exact ⟨.breakpoint update rfl, rfl⟩
  | exited h => exact .quiet (outlook_signals (w := { w with engine }) h) rfl
  | idled hm =>
    have hplain := plain_picks (w := { w with engine }) rfl hm
    cases hm <;> exact .quiet rfl hplain.midway
  | _ => exact .quiet rfl rfl

theorem midway_onward {a' : Activation} (hpush : ∀ r phase, a ≠ .pushRunspace r phase)
    (hpop : ∀ reason phase, a ≠ .popRunspace reason phase) (hm : Onward w a a') :
    a'.midway = false := by
  cases hm with
  | noted r => exact absurd rfl (hpush r _)
  | pushed reason | remote reason => exact absurd rfl (hpop reason _)
  | _ => rfl

theorem plain_goes (hpush : ∀ r phase, a ≠ .pushRunspace r phase)
    (hpop : ∀ reason phase, a ≠ .popRunspace reason phase) (hm : Goes w k t rest a m) :
    Plain w m := by
  cases hm with
  | onward hnext => exact .quiet rfl (midway_onward hpush hpop hnext)
  | called i i' c engine hstep hm => exact plain_calls hm
  | enteredRequest frame r h nest hlease hm | enteredOrder frame o h nest hlease hm =>
    exact plain_submits hm rfl
  | announced l stop =>
    exact ⟨.session .ready .stopped (some "debugger stopped") rfl, rfl⟩
  | published l stop => exact ⟨.stop stop rfl, rfl⟩
  | taken l r requests hl hr hphase hcancelled hm =>
    exact plain_obeys hm rfl
  | closedCovered l signal hl hr htop hm | closed l signal hl hm =>
    cases hm <;> exact .quiet rfl rfl
  | stayed => exact ⟨.session .ready .aborted (some "debugger stopped execution") rfl, rfl⟩
  | resumed => exact ⟨.session .running .notFinished none rfl, rfl⟩
  | inlined o l loops hl hself hm => exact plain_obeys hm rfl
  | unowned o h hm | rerouted o h hm => exact plain_releases rfl hm
  | tickRan read hticks hcause hidle hm => exact plain_picks rfl hm
  | drained h read r hm => exact plain_picks rfl hm
  | readReleased h read r hm => exact plain_releases rfl hm
  | started h o hm => exact plain_submits hm rfl
  | aborted => exact ⟨.session .aborting .notFinished (some "execution aborted") rfl, rfl⟩
  | disposed => exact ⟨.session .disposed .notFinished (some "disposed") rfl, rfl⟩
  | abortSignalled kind signal h | disposeSignalled id kind loops h =>
    exact .quiet (outlook_signals h) rfl
  | underflowed r | framePushed r | recorded r | pushPublished r => exact absurd rfl (hpush r _)
  | framePopped reason | unrecorded reason | basePopped reason | popPublished reason =>
    exact absurd rfl (hpop reason _)
  | _ => exact .quiet rfl rfl

theorem plain_receives {o : Outcome} (hback : t.control ≠ .go) (hm : Receives w t rest o a m) :
    Plain w m := by
  cases hm with
  | leased options r h =>
    cases h with
    | runtime what hreports => cases hreports <;> exact .quiet rfl rfl
    | _ => exact .quiet rfl rfl
  | signalled loop options output action h => exact .quiet (outlook_signals h) rfl
  | reported loop options e what he h => cases h <;> exact .quiet rfl rfl
  | pushed frame h hm => exact plain_vacates hback hm
  | worker h hm =>
    exact plain_releases (Thread.midway_of_control (t := { t with stack := rest }) hback) hm
  | _ => exact .quiet rfl rfl

theorem plain_unwinds {p : Panic} (hback : t.control ≠ .go) (hm : Unwinds w t rest p a m) :
    Plain w m := by
  cases hm with
  | pushed frame h hm => exact plain_vacates hback hm
  | worker h hm | readWorker h read phase hm => exact plain_releases rfl hm
  | _ => exact .quiet rfl rfl

theorem doing_of_moves (hm : m ∈ t.moves w k) : Doing w k t m := by
  obtain ⟨a, rest, hs, hturn⟩ := turn_of_moves hm
  cases hturn with
  | goes hgo hm =>
    by_cases hpush : ∃ r phase, a = .pushRunspace r phase
    · obtain ⟨r, phase, rfl⟩ := hpush
      exact .pushes hgo hs hm
    · by_cases hpop : ∃ reason phase, a = .popRunspace reason phase
      · obtain ⟨reason, phase, rfl⟩ := hpop
        exact .pops hgo hs hm
      · push Not at hpush hpop
        refine .plain (plain_goes hpush hpop hm) ?_
        rw [Thread.midway, hgo, hs]
        cases a with
        | pushRunspace r phase => exact absurd rfl (hpush r phase)
        | popRunspace reason phase => exact absurd rfl (hpop reason phase)
        | _ => rfl
  | receives o hback hm =>
    have hne : t.control ≠ .go := by simp [hback]
    exact .plain (plain_receives hne hm) (Thread.midway_of_control hne)
  | unwinds p hback hm =>
    have hne : t.control ≠ .go := by simp [hback]
    exact .plain (plain_unwinds hne hm) (Thread.midway_of_control hne)

end Moves

end ScriptHost.Service
