import ScriptHost.Proofs.InvocationTurns
import ScriptHost.Proofs.LocalOfMoves

/-!
What the session hears of a move. An outermost invocation tells of its beginning and of
its end, a debugger of its stop and of its resumption, and an abort and a disposal of
themselves; no other move changes the session. The moves are gone through by the functions
that make them, and for each it is said which invocations it begins, advances and leaves.
-/

namespace ScriptHost

namespace Service

section Session

variable (w : World)

@[simp] theorem session_changeSession (c : Session × Option SessionChange) :
    (w.changeSession c).session = c.1 := by
  rcases c with ⟨session, _ | change⟩ <;> rfl

@[simp] theorem session_setSession (state : SessionState) (r : ExecutionResult)
    (reason : Option String) :
    (w.setSession state r reason).session = (w.session.transition state r reason).1 :=
  session_changeSession w _

@[simp] theorem session_followInvocation (state : InvocationState) (reason : Option String) :
    (w.followInvocation state reason).session = (w.session.follow state reason).1 :=
  session_changeSession w _

variable {w}

theorem session_signals {w' : World} {signal : Signal} (h : Signals w signal w') :
    w'.session = w.session := by
  cases h <;> rfl

theorem session_releases {t' : Thread} {h : Handle} {m : World × Thread}
    (hm : Releases w h t' m) : m.1.session = w.session := by
  cases hm <;> rfl

end Session

/-- Whether two activations are tasks of one kind: what clients have asked for and the service
still works on by itself. -/
def Activation.alike : Activation → Activation → Bool
  | .readTask _ _, .readTask _ _ | .handleTask _ _, .handleTask _ _
  | .readWorker _ _ _, .readWorker _ _ _ | .abort _, .abort _ | .dispose _, .dispose _ => true
  | _, _ => false

/-- Neither an invocation, nor the beginning of a debugger stop, nor a task. -/
def Activation.bare : Activation → Bool
  | .invocation _ | .loop _ (.opening _) | .readTask _ _ | .handleTask _ _ | .readWorker _ _ _
  | .abort _ | .dispose _ => false
  | _ => true

/-- What a move that is no invocation's own tells the session, from where it stands and with what
it goes on. -/
inductive Told (w : World) : Activation → List Activation → Session → Prop
  | stopped (id : Nat) (stop : DebuggerStop) (l : MessageLoop) (hl : w.findLoop id = some l) :
      Told w (.loop id (.opening stop)) [.loop id (.announcing stop)]
        (w.session.transition .ready .stopped (some "debugger stopped")).1
  | resumed (id : Nat) (action : ResumeAction) :
      Told w (.loop id (.resuming action)) [] (resumeSession w action).session
  | aborted (inDebugger : Bool) :
      Told w (.abort (.marking inDebugger)) [.abort (.stopping inDebugger)]
        (w.session.transition .aborting .notFinished (some "execution aborted")).1
  | disposed :
      Told w (.dispose .marking) [.dispose .listing]
        (w.session.transition .disposed .notFinished (some "disposed")).1

/-- What a move of a thread does that replaces its innermost activation `a` by `new`. -/
inductive Deed (w : World) (t : Thread) (a : Activation) (m : World × Thread) :
    List Activation → Prop
  | aside {new : List Activation} (ha : ∀ i, a ≠ .invocation i)
      (hnew : ∀ b ∈ new, b.bare = true ∨ b = a ∨ a.alike b = true)
      (hsession : m.1.session = w.session) : Deed w t a m new
  | told {new : List Activation} (hgo : t.control = .go) (h : Told w a new m.1.session) :
      Deed w t a m new
  | begun (i : Invocation) (below : List Activation) (ha : ∀ i, a ≠ .invocation i)
      (hbelow : ∀ b ∈ below, b.bare = true) (houtermost : i.outermost = (t.depth == 0))
      (hphase : i.phase = if i.outermost then .opening else .evaluating) (hgo : m.2.control = .go)
      (hsession : m.1.session = w.session) : Deed w t a m (.invocation i :: below)
  | announced (i : Invocation) (ha : a = .invocation i) (hphase : i.phase = .opening)
      (hgo : m.2.control = .go) (hsession : m.1.session = (w.session.follow .running none).1) :
      Deed w t a m [.invocation { i with phase := .evaluating }]
  | concluded (i : Invocation) (r : Evaluation) (ha : a = .invocation i)
      (hphase : i.phase = .closing r) (houtermost : i.outermost = true) (hgo : m.2.control = .go)
      (hsession : ∃ state reason, Invocation.finalCall r = .stateChanged state reason ∧
        m.1.session = (w.session.follow state reason).1) :
      Deed w t a m [.invocation { i with phase := .ending r }]
  | onward (i i' : Invocation) (above : List Activation) (ha : a = .invocation i)
      (h : i.Onward i')
      (habove : ∀ b ∈ above, b.bare = true ∨ ∃ id stop l, b = .loop id (.opening stop) ∧
        id = w.nextLoop ∧ m.1.findLoop id = some l ∧ l.kind = .debuggerStop)
      (hwork : above ≠ [] ∨ m.2.control ≠ .go → i'.atWork = true)
      (hsession : m.1.session = w.session) : Deed w t a m (above ++ [.invocation i'])
  | left (i : Invocation) (ha : a = .invocation i) (hsession : m.1.session = w.session) :
      Deed w t a m []

/-- A move does something that replaces the innermost activation `a` of a stack. -/
def IsDeed (w : World) (t : Thread) (a : Activation) (rest : List Activation)
    (m : World × Thread) : Prop :=
  ∃ new, m.2.stack = new ++ rest ∧ Deed w t a m new

section Moves

variable {w w' : World} {k : Nat} {t t' : Thread} {a : Activation} {rest : List Activation}
  {m : World × Thread}

/-- A move without a word to the session, among activations that are no invocations. -/
theorem isDeed_aside (new : List Activation) (hs : m.2.stack = new ++ rest)
    (ha : ∀ i, a ≠ .invocation i) (hnew : new.all fun b => b.bare || a.alike b)
    (hsession : m.1.session = w.session) : IsDeed w t a rest m := by
  refine ⟨new, hs, .aside ha (fun b hb => ?_) hsession⟩
  have hcases := List.all_eq_true.mp hnew b hb
  rw [Bool.or_eq_true] at hcases
  exact hcases.imp_right Or.inr

/-- The innermost activation goes on where it stands. -/
theorem isDeed_same (ha : ∀ i, a ≠ .invocation i) : IsDeed w t a rest (w, t.goOn (a :: rest)) :=
  ⟨[a], rfl, .aside ha (fun _ hb => Or.inr (Or.inl (List.mem_singleton.mp hb))) rfl⟩

theorem isDeed_submits {invoker : Nat} {o : Order} (low : List Activation)
    (hm : Submits w' t (low ++ rest) invoker o m) (ha : ∀ i, a ≠ .invocation i)
    (hlow : low.all Activation.bare) (hsession : w'.session = w.session) :
    IsDeed w t a rest m := by
  have hbare := List.all_eq_true.mp hlow
  cases hm with
  | refused e engine h =>
    exact ⟨.leased o.options :: low, rfl,
      .aside ha (List.forall_mem_cons.mpr ⟨Or.inl rfl, fun b hb => Or.inl (hbare b hb)⟩) hsession⟩
  | begun engine i hfault h =>
    cases h
    exact ⟨.invocation _ :: .leased o.options :: low, rfl,
      .begun _ _ ha (List.forall_mem_cons.mpr ⟨rfl, hbare⟩) rfl rfl rfl hsession⟩

theorem isDeed_obeys {l : MessageLoop} {o : Order} (low : List Activation)
    (hm : Obeys w' t (low ++ rest) l o m) (ha : ∀ i, a ≠ .invocation i)
    (hlow : low.all Activation.bare) (hsession : w'.session = w.session) :
    IsDeed w t a rest m := by
  have hbare := List.all_eq_true.mp hlow
  have haside : ∀ b : Activation, b.bare = true →
      ∀ c ∈ b :: low, c.bare = true ∨ c = a ∨ a.alike c = true := fun b hb =>
    List.forall_mem_cons.mpr ⟨Or.inl hb, fun c hc => Or.inl (hbare c hc)⟩
  cases hm with
  | forbidden => exact ⟨low, rfl, .aside ha (fun b hb => Or.inl (hbare b hb)) hsession⟩
  | refused | resumed =>
    exact ⟨.inLoop l.id o.options :: low, rfl, .aside ha (haside _ rfl) hsession⟩
  | begun engine i hkind hfault h =>
    have hbelow : ∀ b ∈ Activation.debuggerCommand :: .inLoop l.id o.options :: low,
        b.bare = true :=
      List.forall_mem_cons.mpr ⟨rfl, List.forall_mem_cons.mpr ⟨rfl, hbare⟩⟩
    simp only [Engine.debuggerCommand] at h
    split at h
    · cases h
    · cases h
      exact ⟨.invocation _ :: .debuggerCommand :: .inLoop l.id o.options :: low, rfl,
        .begun _ _ ha hbelow rfl rfl rfl hsession⟩
  | entered =>
    exact ⟨.entering .pushing (.order o) :: low, rfl, .aside ha (haside _ rfl) hsession⟩

theorem isDeed_picks {b : Activation} (ha : ∀ i, a ≠ .invocation i)
    (hb : (b.bare || a.alike b) = true) (hm : Picks w t (b :: rest) m) : IsDeed w t a rest m := by
  cases hm with
  | found id r =>
    exact isDeed_aside [.entering .pushing (.request r), .idleRun, b] rfl ha
      (by simpa [Activation.bare] using hb) rfl
  | nothing => exact isDeed_aside [b] rfl ha (by simpa using hb) rfl

theorem isDeed_vacates {frame : Nat} {h : Handle} {phase : RoomPhase}
    (hm : Vacates w t rest frame h phase m) : IsDeed w t (.pushed frame h phase) rest m := by
  have hroom : ∀ {phase : RoomPhase} i, Activation.pushed frame h phase ≠ .invocation i := by simp
  cases hm with
  | released hm => exact isDeed_aside [] (hm.exchange.2) hroom rfl (session_releases hm)
  | _ => exact isDeed_aside [_] rfl hroom rfl rfl

/-- A call that tells the session nothing may put something above the invocation, and nothing
else keeps it from going on but a panic. -/
theorem isDeed_calls {i i' : Invocation} {c : HostCall} {engine : Engine} (hc : c.tells = false)
    (h : i.Onward i') (hwork : i'.atWork = true)
    (hm : Calls { w with engine } k t (.invocation i' :: rest) c m) :
    IsDeed w t (.invocation i) rest m := by
  have hbare : ∀ {m : World × Thread} (above : List Activation), above.all Activation.bare →
      m.2.stack = above ++ .invocation i' :: rest → m.1.session = w.session →
      IsDeed w t (.invocation i) rest m := by
    intro m above habove hs hsession
    refine ⟨above ++ [.invocation i'], by rw [hs, List.append_assoc]; rfl, ?_⟩
    exact .onward i i' above rfl h (fun b hb => Or.inl (List.all_eq_true.mp habove b hb))
      (fun _ => hwork) hsession
  cases hm with
  | followed => cases hc
  | held | prompted => exact hbare [_] rfl rfl rfl
  | reentered => exact hbare [_, _] rfl rfl rfl
  | stopped stop =>
    let l : MessageLoop :=
      { id := w.nextLoop, kind := .debuggerStop, frame := w.nest.frames.length, thread := k }
    refine ⟨[.loop w.nextLoop (.opening stop), .invocation i'], rfl,
      .onward i i' [_] rfl h ?_ (fun _ => hwork) rfl⟩
    intro b hb
    rw [List.mem_singleton.mp hb]
    refine Or.inr ⟨_, stop, l, rfl, rfl, ?_, rfl⟩
    simp [World.openLoop, World.findLoop, Nest.push, l]
  | exited h => exact hbare [] rfl rfl (session_signals (w := { w with engine }) h)
  | idled hm =>
    cases hm with
    | found => exact hbare [_, _] rfl rfl rfl
    | nothing => exact hbare [] rfl rfl rfl
  | _ => exact hbare [] rfl rfl rfl

theorem isDeed_onward {a' : Activation} (hm : Onward w a a') :
    IsDeed w t a rest (w, t.goOn (a' :: rest)) := by
  have ha : ∀ i, a ≠ .invocation i := by
    rintro i rfl
    cases hm
  refine isDeed_aside [a'] rfl ha ?_ rfl
  cases hm <;> rfl

theorem isDeed_ended {o : Outcome} (hm : Ends w a o) : IsDeed w t a rest (w, t.give rest o) := by
  refine isDeed_aside [] rfl ?_ rfl rfl
  rintro i rfl
  cases hm

theorem isDeed_invocation {i : Invocation} (hproper : i.Proper)
    (hm : Goes w k t rest (.invocation i) m) : IsDeed w t (.invocation i) rest m := by
  have hturn : ∀ {engine : Engine} {move : Move}, i.step w.engine = (engine, move) →
      i.Turn move := by
    intro engine move hstep
    have hturn := Invocation.turn_step (e := w.engine) hproper
    rwa [hstep] at hturn
  cases hm with
  | onward hnext => exact nomatch hnext
  | ended hend => exact nomatch hend
  | advanced _ i' engine hstep =>
    cases hturn hstep with
    | advances _ h => exact ⟨_, rfl, .onward i i' [] rfl h (by simp) (by simp [Thread.goOn]) rfl⟩
  | slept _ i' ms engine hstep =>
    cases hturn hstep with
    | sleeps _ _ h => exact ⟨_, rfl, .onward i i' [] rfl h (by simp) (by simp [Thread.goOn]) rfl⟩
  | called _ i' c engine hstep hm =>
    cases hturn hstep with
    | announces hphase =>
      cases hm with
      | followed => exact ⟨_, rfl, .announced i rfl hphase rfl (session_followInvocation _ _ _)⟩
    | concludes r hphase houtermost =>
      have htells : ∃ state reason, Invocation.finalCall r = .stateChanged state reason := by
        unfold Invocation.finalCall
        split <;> exact ⟨_, _, rfl⟩
      obtain ⟨state, reason, hfinal⟩ := htells
      rw [hfinal] at hm
      cases hm with
      | followed =>
        exact ⟨_, rfl, .concluded i r rfl hphase houtermost rfl
          ⟨state, reason, hfinal, session_followInvocation _ _ _⟩⟩
    | calls _ _ hc h hwork => exact isDeed_calls hc h hwork hm
  | finished | crashed => exact ⟨[], rfl, .left i rfl rfl⟩

theorem isDeed_goes (ha : ∀ i, a ≠ .invocation i) (hgo : t.control = .go)
    (hm : Goes w k t rest a m) : IsDeed w t a rest m := by
  cases hm with
  | onward hnext => exact isDeed_onward hnext
  | ended hend => exact isDeed_ended hend
  | advanced i | slept i | called i | finished i | crashed i => exact absurd rfl (ha i)
  | enteredRequest frame r handle nest hlease hm =>
    exact isDeed_submits [.request r.id, .pushed frame handle .looking] hm ha rfl rfl
  | enteredOrder frame o handle nest hlease hm =>
    exact isDeed_submits [.pushed frame handle .looking] hm ha rfl rfl
  | announced l stop hl =>
    exact ⟨[.loop l.id _], rfl, .told hgo (by simpa using .stopped l.id stop l hl)⟩
  | skipped l r requests hl hr hphase =>
    refine isDeed_aside [.loop l.id _] rfl ha ?_ rfl
    cases hphase <;> rfl
  | @taken l r requests phase next _ hl hr hphase hcancelled hm =>
    refine isDeed_obeys [.request r.id, .loop l.id next] hm ha ?_ rfl
    cases hphase <;> rfl
  | closedCovered l signal hl hr htop hm | closed l signal hl hm =>
    cases hm with
    | debugger => exact isDeed_aside [_] rfl ha rfl rfl
    | prompt => exact isDeed_aside [] rfl ha rfl rfl
  | stayed id => exact ⟨[], rfl, .told hgo (.resumed id .stop)⟩
  | resumed id action h =>
    have htold := Told.resumed (w := w) id action
    rw [resumeSession, if_neg h] at htold
    exact ⟨[], rfl, .told hgo htold⟩
  | inlined o l loops hl hself hm => exact isDeed_obeys [.exec o .inline] hm ha rfl rfl
  | unowned o handle hm =>
    exact isDeed_aside [] (hm.exchange.2) ha rfl (session_releases hm)
  | rerouted o handle hm =>
    exact isDeed_aside [_] (hm.exchange.2) ha rfl (session_releases hm)
  | tickRan read hticks hcause hidle hm => exact isDeed_picks ha rfl hm
  | drained handle read r hm => exact isDeed_picks ha rfl hm
  | readReleased handle read r hm =>
    exact isDeed_aside [] (hm.exchange.2) ha rfl (session_releases hm)
  | started handle o hm => exact isDeed_submits [.worker handle] hm ha rfl rfl
  | aborted inDebugger =>
    exact ⟨_, rfl, .told hgo (by simpa using .aborted inDebugger)⟩
  | disposed => exact ⟨_, rfl, .told hgo (by simpa using .disposed)⟩
  | abortSignalled kind signal h | disposeSignalled id kind loops h =>
    exact isDeed_aside [_] rfl ha rfl (session_signals h)
  | recorded r =>
    refine isDeed_aside [_] rfl ha rfl ?_
    unfold World.addRunspace
    split <;> rfl
  | abandoned | unhandled | failed | leased | turnedAway | gaveUp | withdrawn | lineRead
  | underflowed | pushPublished | basePopped | popPublished | unpolled | abortInterrupted
  | readsInterrupted => exact isDeed_aside [] rfl ha rfl rfl
  | remote | vacant | interrupted | reclaimed | joined | readAsked | readBegun | leaseAsked
  | unwinding => exact isDeed_aside [_, _] rfl ha rfl rfl
  | _ => exact isDeed_aside [_] rfl ha rfl rfl

theorem isDeed_resumption {i : Invocation} {o : Outcome} (hwork : i.atWork = true)
    (hproper : i.Proper) (hm : Receives w t rest o (.invocation i) m) :
    IsDeed w t (.invocation i) rest m := by
  cases hm with
  | resumed _ i' action engine h =>
    have honward := Invocation.onward_resume (e := w.engine) hwork action
    rw [h] at honward
    exact ⟨_, rfl, .onward i i' [] rfl honward (by simp) (by simp [Thread.goOn]) rfl⟩
  | invocation =>
    exact ⟨_, rfl, .onward i i [] rfl (.atWork hwork rfl hwork hproper) (by simp)
      (by simp [Thread.goOn]) rfl⟩

theorem isDeed_receives {o : Outcome} (ha : ∀ i, a ≠ .invocation i)
    (hm : Receives w t rest o a m) : IsDeed w t a rest m := by
  cases hm with
  | resumed i | invocation i => exact absurd rfl (ha i)
  | loop => exact isDeed_same ha
  | leased options r h =>
    refine isDeed_aside [] rfl ha rfl ?_
    cases h with
    | runtime what hreports => cases hreports <;> rfl
    | _ => rfl
  | signalled loop options output action h => exact isDeed_aside [] rfl ha rfl (session_signals h)
  | reported loop options e what he h =>
    refine isDeed_aside [] rfl ha rfl ?_
    cases h <;> rfl
  | pushed frame handle hm => exact isDeed_vacates hm
  | worker handle hm =>
    exact isDeed_aside [] (hm.exchange.2) ha rfl (session_releases hm)
  | reading | onLoop | offLoop | readLeased | read | drained | popped =>
    exact isDeed_aside [_] rfl ha rfl rfl
  | _ => exact isDeed_aside [] rfl ha rfl rfl

theorem isDeed_unwinds {p : Panic} (hm : Unwinds w t rest p a m) : IsDeed w t a rest m := by
  by_cases hinvocation : ∃ i, a = .invocation i
  · obtain ⟨i, rfl⟩ := hinvocation
    cases hm with
    | invocation => exact ⟨[], rfl, .left i rfl rfl⟩
    | other ha => cases ha
  · have ha := not_exists.mp hinvocation
    cases hm with
    | invocation i => exact absurd rfl (ha i)
    | pushed frame handle hm => exact isDeed_vacates hm
    | worker handle hm | readWorker handle read phase hm =>
      exact isDeed_aside [] (hm.exchange.2) ha rfl (session_releases hm)
    | _ => exact isDeed_aside [] rfl ha rfl rfl

end Moves

/-- The lowest invocation of a thread is outermost and no other is, and an invocation that is not
about to move by itself is at work. -/
structure Thread.Poised (t : Thread) : Prop where
  proper : ∀ i ∈ invocations t.stack, i.Proper
  based : ∀ above i below, invocations t.stack = above ++ i :: below →
    i.outermost = below.isEmpty
  below : ∀ i ∈ invocations t.stack.tail, i.atWork = true
  given : t.control ≠ .go → ∀ i ∈ invocations t.stack, i.atWork = true

section Poised

variable {w : World} {k : Nat} {t t' : Thread} {a : Activation} {rest new : List Activation}
  {m : World × Thread}

theorem invocations_cons (i : Invocation) (rest : List Activation) :
    invocations (.invocation i :: rest) = i :: invocations rest := rfl

theorem invocations_eq_nil (h : ∀ b ∈ new, ∀ i, b ≠ .invocation i) : invocations new = [] := by
  refine List.filterMap_eq_nil_iff.mpr fun b hb => ?_
  cases b with
  | invocation i => exact absurd rfl (h _ hb i)
  | _ => rfl

theorem invocations_cons_of_ne (h : ∀ i, a ≠ .invocation i) :
    invocations (a :: rest) = invocations rest := by
  rw [← List.singleton_append, invocations_append, invocations_eq_nil (by simpa using h)]
  rfl

theorem ne_invocation_of_bare (h : a.bare = true) (i : Invocation) : a ≠ .invocation i := by
  rintro rfl
  cases h

theorem ne_invocation_of_alike {b : Activation} (h : a.alike b = true) (i : Invocation) :
    b ≠ .invocation i := by
  rintro rfl
  cases a <;> cases h

/-- Threads without an invocation. -/
theorem poised_of_nil (h : invocations t.stack = []) : t.Poised := by
  have htail : invocations t.stack.tail = [] := by
    cases hs : t.stack with
    | nil => rfl
    | cons a rest =>
      rw [hs, ← List.singleton_append, invocations_append] at h
      exact (List.append_eq_nil_iff.mp h).2
  refine ⟨by simp [h], ?_, by simp [htail], by simp [h]⟩
  intro above i below hsplit
  rw [h] at hsplit
  exact absurd hsplit.symm (by simp)

/-- The innermost activation of a poised thread is replaced. -/
theorem Thread.Poised.replace (h : t.Poised) (hs : t.stack = a :: rest)
    (hs' : t'.stack = new ++ rest) (hproper : ∀ i ∈ invocations new, i.Proper)
    (hbased : ∀ above i below, invocations new = above ++ i :: below →
      i.outermost = (below ++ invocations rest).isEmpty)
    (htail : ∀ i ∈ invocations new.tail, i.atWork = true)
    (hgiven : t'.control ≠ .go → ∀ i ∈ invocations new, i.atWork = true) : t'.Poised := by
  have hbelow : ∀ i ∈ invocations rest, i.atWork = true := by
    have := h.below
    rwa [hs] at this
  have hrest : ∀ i ∈ invocations rest, i ∈ invocations t.stack := by
    rw [hs, ← List.singleton_append, invocations_append]
    exact fun i hi => List.mem_append_right _ hi
  refine ⟨?_, ?_, ?_, ?_⟩
  · rw [hs', invocations_append]
    intro i hi
    exact (List.mem_append.mp hi).elim (hproper i) fun hi => h.proper i (hrest i hi)
  · rw [hs', invocations_append]
    intro above i below hsplit
    rcases List.append_eq_append_iff.mp hsplit with ⟨mid, rfl, hmid⟩ | ⟨mid, hnew, hmid⟩
    · refine h.based (invocations [a] ++ mid) i below ?_
      rw [hs, ← List.singleton_append, invocations_append, hmid, List.append_assoc]
    · cases mid with
      | nil =>
        refine h.based (invocations [a]) i below ?_
        rw [hs, ← List.singleton_append, invocations_append]
        exact congrArg _ hmid.symm
      | cons j mid =>
        obtain ⟨rfl, rfl⟩ := List.cons.inj hmid
        exact hbased above _ mid hnew
  · rw [hs']
    cases new with
    | nil =>
      intro i hi
      refine hbelow i ?_
      cases rest with
      | nil => cases hi
      | cons b rest =>
        rw [← List.singleton_append, invocations_append]
        exact List.mem_append_right _ hi
    | cons b new =>
      rw [List.cons_append, List.tail_cons, invocations_append]
      intro i hi
      exact (List.mem_append.mp hi).elim (htail i) (hbelow i)
  · rw [hs', invocations_append]
    intro hcontrol i hi
    exact (List.mem_append.mp hi).elim (hgiven hcontrol i) (hbelow i)

theorem Thread.Poised.replace_of_nil (h : t.Poised) (hs : t.stack = a :: rest)
    (hs' : t'.stack = new ++ rest) (hnew : invocations new = []) : t'.Poised := by
  have htail : invocations new.tail = [] := by
    cases new with
    | nil => rfl
    | cons b new =>
      rw [← List.singleton_append, invocations_append] at hnew
      exact (List.append_eq_nil_iff.mp hnew).2
  refine h.replace hs hs' (by simp [hnew]) ?_ (by simp [htail]) (by simp [hnew])
  intro above i below hsplit
  rw [hnew] at hsplit
  exact absurd hsplit.symm (by simp)

/-- One invocation takes the place of another, or begins. -/
theorem Thread.Poised.replace_of_singleton (h : t.Poised) (hs : t.stack = a :: rest)
    (hs' : t'.stack = new ++ rest) {i : Invocation} (hnew : invocations new = [i])
    (hproper : i.Proper) (hbased : i.outermost = (invocations rest).isEmpty)
    (htail : ∀ i ∈ invocations new.tail, i.atWork = true)
    (hgiven : t'.control ≠ .go → i.atWork = true) : t'.Poised := by
  refine h.replace hs hs' (by simpa [hnew] using hproper) ?_ htail (by simpa [hnew] using hgiven)
  intro above i' below hsplit
  rw [hnew] at hsplit
  cases above with
  | nil =>
    obtain ⟨rfl, rfl⟩ := List.cons.inj hsplit
    simpa using hbased
  | cons j above => exact absurd (List.cons.inj hsplit).2.symm (by simp)

theorem Thread.Poised.outermost_iff (h : t.Poised) {i : Invocation}
    (hs : t.stack = .invocation i :: rest) : i.outermost = (invocations rest).isEmpty :=
  h.based [] i (invocations rest) (by rw [hs]; rfl)

theorem invocations_of_told {session : Session} (h : Told w a new session) :
    (∀ i, a ≠ .invocation i) ∧ invocations new = [] := by
  cases h <;> exact ⟨by simp, rfl⟩

theorem invocations_of_aside (ha : ∀ i, a ≠ .invocation i)
    (hnew : ∀ b ∈ new, b.bare = true ∨ b = a ∨ a.alike b = true) :
    invocations new = [] := by
  refine invocations_eq_nil fun b hb i => ?_
  rcases hnew b hb with hbare | rfl | halike
  · exact ne_invocation_of_bare hbare i
  · exact ha i
  · exact ne_invocation_of_alike halike i

theorem invocations_of_begun (i : Invocation) {below : List Activation}
    (hbelow : ∀ b ∈ below, b.bare = true) : invocations (.invocation i :: below) = [i] := by
  rw [invocations_cons, invocations_eq_nil fun b hb => ne_invocation_of_bare (hbelow b hb)]

theorem invocations_of_onward (i : Invocation) {above : List Activation}
    (habove : ∀ b ∈ above, b.bare = true ∨ ∃ id stop l, b = .loop id (.opening stop) ∧
      id = w.nextLoop ∧ m.1.findLoop id = some l ∧ l.kind = .debuggerStop) :
    invocations above = [] ∧ invocations (above ++ [.invocation i]) = [i] := by
  have hnone : invocations above = [] := by
    refine invocations_eq_nil fun b hb j => ?_
    rcases habove b hb with hbare | ⟨id, stop, l, rfl, -⟩
    · exact ne_invocation_of_bare hbare j
    · simp
  refine ⟨hnone, ?_⟩
  rw [invocations_append, hnone]
  rfl

theorem Thread.Poised.deed (h : t.Poised) (hdepth : t.depth = (invocations t.stack).length)
    (hs : t.stack = a :: rest) (hs' : m.2.stack = new ++ rest) (hdeed : Deed w t a m new) :
    m.2.Poised := by
  cases hdeed with
  | aside ha hnew hsession =>
    exact h.replace_of_nil hs hs' (invocations_of_aside ha hnew)
  | told hgo htold => exact h.replace_of_nil hs hs' (invocations_of_told htold).2
  | begun i below ha hbelow houtermost hphase hgo hsession =>
    have hnone := invocations_eq_nil fun b hb => ne_invocation_of_bare (hbelow b hb)
    have hproper : i.Proper := by
      unfold Invocation.Proper
      cases hout : i.outermost <;> simp [hphase, hout]
    refine h.replace_of_singleton hs hs' (invocations_of_begun i hbelow) hproper ?_
      (by simp [hnone]) (by simp [hgo])
    rw [houtermost, hdepth, hs, invocations_cons_of_ne ha]
    cases invocations rest <;> rfl
  | announced i ha hphase hgo hsession =>
    subst ha
    have hbased := h.outermost_iff hs
    exact h.replace_of_singleton hs hs' rfl trivial hbased (by simp [invocations]) (by simp [hgo])
  | concluded i r ha hphase houtermost hgo hsession =>
    subst ha
    have hbased := h.outermost_iff hs
    exact h.replace_of_singleton hs hs' rfl trivial hbased (by simp [invocations]) (by simp [hgo])
  | onward i i' above ha honward habove hwork hsession =>
    subst ha
    obtain ⟨hnone, hone⟩ := invocations_of_onward i' habove
    refine h.replace_of_singleton hs hs' hone honward.proper ?_ ?_ fun hcontrol =>
      hwork (Or.inr hcontrol)
    · rw [honward.outermost, h.outermost_iff hs]
    · cases above with
      | nil => simp [invocations]
      | cons b above =>
        rw [← List.singleton_append, invocations_append] at hnone
        rw [List.cons_append, List.tail_cons, invocations_append,
          (List.append_eq_nil_iff.mp hnone).2]
        simpa [invocations] using hwork (Or.inl (by simp))
  | left i ha hsession => exact h.replace_of_nil hs hs' rfl

/-- What a move of a poised thread does. -/
theorem deed_of_moves (h : t.Poised) (hm : m ∈ t.moves w k) :
    ∃ a rest, t.stack = a :: rest ∧ IsDeed w t a rest m := by
  obtain ⟨a, rest, hs, hturn⟩ := turn_of_moves hm
  refine ⟨a, rest, hs, ?_⟩
  by_cases hinvocation : ∃ i, a = .invocation i
  · obtain ⟨i, rfl⟩ := hinvocation
    have hmem : i ∈ invocations t.stack := by
      rw [hs]
      exact List.mem_cons_self
    cases hturn with
    | goes hgo hm => exact isDeed_invocation (h.proper i hmem) hm
    | receives o hback hm =>
      exact isDeed_resumption (h.given (by simp [hback]) i hmem) (h.proper i hmem) hm
    | unwinds p hunwind hm => exact isDeed_unwinds hm
  · have ha := not_exists.mp hinvocation
    cases hturn with
    | goes hgo hm => exact isDeed_goes ha hgo hm
    | receives o hback hm => exact isDeed_receives ha hm
    | unwinds p hunwind hm => exact isDeed_unwinds hm

end Poised

end Service

end ScriptHost
