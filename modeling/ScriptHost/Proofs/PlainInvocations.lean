import ScriptHost.Proofs.InvocationTurns

/-!
Invocations that render nothing. Such an invocation goes on with its jobs, draws up its result
when they are done and then comes to its end. Until then it keeps to its course whatever jobs
are still added behind the others and wherever its errors are sent.
-/

namespace ScriptHost

namespace Invocation

/-- An invocation that renders nothing. -/
structure Plain (i : Invocation) : Prop where
  todo : .render ∉ i.todo
  phase : ∀ calls, i.phase ≠ .rendering calls

/-- The invocation with more jobs to do at the end, and its errors sent elsewhere. -/
def extended (i : Invocation) (more : List Job) (merge : Bool) : Invocation :=
  { i with todo := i.todo ++ more, merge }

/-- All jobs are done, and the result is not yet drawn up. -/
def Evaluated (i : Invocation) : Prop :=
  i.phase = .evaluating ∧ i.todo = []

end Invocation

def Move.map (f : Invocation → Invocation) : Move → Move
  | advance i => advance (f i)
  | call c i => call c (f i)
  | sleep ms i => sleep ms (f i)
  | finish result => finish result
  | panic p => panic p

namespace Invocation

variable {e : Engine} {i i' : Invocation} {more : List Job} {merge : Bool}

/-- What stands in the way of its jobs does not matter to a command of the engine. -/
theorem runBuiltin_extended (b : Builtin) (arguments : List Value) :
    (i.extended more merge).runBuiltin e b arguments =
      ((i.runBuiltin e b arguments).1,
        (i.runBuiltin e b arguments).2.map (·.extended more merge)) := by
  cases b <;> simp only [runBuiltin]
  case add =>
    have houtput : (i.extended more merge).output = i.output := rfl
    rw [houtput]
    cases sumFrom 0 (arguments ++ i.output) <;> rfl
  case enterSession => cases arguments <;> rfl
  all_goals rfl

theorem runJob_extended {job : Job} (h : job ≠ .render) :
    (i.extended more merge).runJob e job =
      ((i.runJob e job).1, (i.runJob e job).2.map (·.extended more merge)) := by
  cases job with
  | render => exact absurd rfl h
  | call name arguments =>
    simp only [runJob]
    cases Builtin.ofName? name with
    | some b => exact runBuiltin_extended b arguments
    | none => rfl

theorem stopped_extended {otherwise otherwise' : Engine × Move}
    (h : otherwise' = (otherwise.1, otherwise.2.map (·.extended more merge))) :
    (i.extended more merge).stopped? e otherwise' =
      ((i.stopped? e otherwise).1, (i.stopped? e otherwise).2.map (·.extended more merge)) := by
  unfold stopped?
  split
  · rfl
  · exact h

/-- Until all its jobs are done, an invocation that renders nothing does the same whatever is
added to them. -/
theorem step_extended (h : i.Plain) (hmore : more = [] ∨ ¬ i.Evaluated) :
    (i.extended more merge).step e =
      ((i.step e).1, (i.step e).2.map (·.extended more merge)) := by
  have hphase : (i.extended more merge).phase = i.phase := rfl
  unfold step
  rw [hphase]
  split
  case h_1 => rfl
  case h_2 hevaluating =>
    have htodo : (i.extended more merge).todo = i.todo ++ more := rfl
    rw [htodo]
    cases hjobs : i.todo with
    | nil =>
      obtain rfl : more = [] := hmore.resolve_right (not_not_intro ⟨hevaluating, hjobs⟩)
      rfl
    | cons job todo =>
      have hjob : job ≠ .render := by
        rintro rfl
        exact h.todo (hjobs ▸ List.mem_cons_self)
      exact stopped_extended (runJob_extended (i := { i with todo }) hjob)
  case h_3 hrendering | h_4 hrendering => exact absurd hrendering (h.phase _)
  case h_5 => rfl
  case h_6 | h_7 => exact stopped_extended rfl
  case h_8 =>
    have houtermost : (i.extended more merge).outermost = i.outermost := rfl
    dsimp only
    rw [houtermost]
    split <;> rfl
  case h_9 => rfl

theorem resume_extended (e : Engine) (i : Invocation) (action : ResumeAction) :
    (i.extended more merge).resume e action =
      ((i.resume e action).1, (i.resume e action).2.extended more merge) := by
  unfold resume
  dsimp only
  split <;> rfl

/-- There is no result yet, unless the invocation failed. -/
def Pending (i : Invocation) : Prop :=
  ∀ output, i.phase ≠ .closing (.ok output) ∧ i.phase ≠ .ending (.ok output)

/-- The engine with the invocation in its history, if it belongs there. -/
def noted (i : Invocation) (e : Engine) : Engine :=
  if i.addToHistory then { e with history := e.history ++ [i.text] } else e

def result (i : Invocation) : Evaluation :=
  .ok { output := i.output, errors := i.errors }

end Invocation

/-- A move that keeps an invocation at work, unless it fails, and shows nothing. -/
structure Move.Plain (m : Move) : Prop where
  goes : ∀ i, m.invocation? = some i → i.Plain ∧ i.Pending
  silent : ∀ c i, m = .call c i → c.writes = false
  unfinished : ∀ r, m ≠ .finish r

namespace Invocation

variable {e : Engine} {i i' : Invocation}

/-- Until all its jobs are done an invocation is at work. Then it draws up its result, tells its
host of it if it is an outermost one, and is finished. -/
inductive PlainTurn (e : Engine) (i : Invocation) : Engine × Move → Prop
  | works {e' : Engine} {m : Move} (h : m.Plain) : PlainTurn e i (e', m)
  | draws (h : i.Evaluated) : PlainTurn e i (e, .advance { i with phase := .closing i.result })
  | tells (r : Evaluation) (hphase : i.phase = .closing r) (houtermost : i.outermost = true) :
      PlainTurn e i ({ i.noted e with active := (i.noted e).active - 1 },
        .call (finalCall r) { i with phase := .ending r })
  | closes (r : Evaluation) (hphase : i.phase = .closing r) (houtermost : i.outermost = false) :
      PlainTurn e i (i.noted e, .advance { i with phase := .ending r })
  | finishes (r : Evaluation) (hphase : i.phase = .ending r) :
      PlainTurn e i (e.record i.frame (.finished i.text), .finish r)

theorem pending_of_evaluating (h : i.phase = .evaluating) : i.Pending := by
  intro output
  rw [h]
  exact ⟨Phase.noConfusion, Phase.noConfusion⟩

theorem plain_advance (hplain : i.Plain) (hpending : i.Pending) : (Move.advance i).Plain where
  goes := by
    rintro i' ⟨rfl⟩
    exact ⟨hplain, hpending⟩
  silent := by simp
  unfinished := by simp

theorem plain_pass (h : .render ∉ i.todo) (output : List Value) : (i.pass output).Plain :=
  ⟨h, fun _ => Phase.noConfusion⟩

theorem plain_fail (h : .render ∉ i.todo) (error : EngineError) : (i.fail error).Plain :=
  ⟨h, fun _ => Phase.noConfusion⟩

theorem pending_pass (i : Invocation) (output : List Value) : (i.pass output).Pending :=
  pending_of_evaluating rfl

theorem pending_fail (i : Invocation) (error : EngineError) : (i.fail error).Pending := by
  intro output
  exact ⟨by simp [fail], by simp [fail]⟩

theorem plain_advance_pass (h : .render ∉ i.todo) (output : List Value) :
    (Move.advance (i.pass output)).Plain :=
  plain_advance (plain_pass h output) (pending_pass i output)

theorem plain_advance_fail (h : .render ∉ i.todo) (error : EngineError) :
    (Move.advance (i.fail error)).Plain :=
  plain_advance (plain_fail h error) (pending_fail i error)

/-- A call of the host out of an invocation at work. -/
theorem plain_call {c : HostCall} (h : .render ∉ i.todo)
    (hphase : ∀ calls, i.phase ≠ .rendering calls) (hpending : i.Pending)
    (hc : c.writes = false) : (Move.call c i).Plain where
  goes := by
    rintro i' ⟨rfl⟩
    exact ⟨⟨h, hphase⟩, hpending⟩
  silent := by
    rintro c' i' ⟨rfl, rfl⟩
    exact hc
  unfinished := by simp

theorem plain_builtin (h : .render ∉ i.todo) (b : Builtin) (arguments : List Value) :
    (i.runBuiltin e b arguments).2.Plain := by
  have hbusy : ∀ phase : Phase, (∀ output, phase ≠ .closing (.ok output)) →
      (∀ output, phase ≠ .ending (.ok output)) → Pending { i with phase } :=
    fun _ hclosing hending output => ⟨hclosing output, hending output⟩
  cases b <;> simp only [runBuiltin]
  case add =>
    split
    · exact plain_advance_pass h _
    · exact plain_advance_fail h _
    · exact ⟨by simp [Move.invocation?], by simp, by simp⟩
  case writeError =>
    exact plain_advance ⟨h, fun _ => Phase.noConfusion⟩ (pending_of_evaluating rfl)
  case throw => exact plain_advance_fail h _
  case sleep =>
    exact plain_advance ⟨h, fun _ => Phase.noConfusion⟩
      (hbusy _ (fun _ => Phase.noConfusion) fun _ => Phase.noConfusion)
  case breakpoint | nested =>
    exact plain_call h (fun _ => Phase.noConfusion)
      (hbusy _ (fun _ => Phase.noConfusion) fun _ => Phase.noConfusion) rfl
  case setBreakpoint | exit =>
    exact plain_call h (fun _ => Phase.noConfusion) (pending_pass i _) rfl
  case enterSession =>
    split
    · exact plain_advance_fail h _
    · exact plain_advance_pass h _
  all_goals exact plain_advance_pass h _

theorem plain_job (h : .render ∉ i.todo) {job : Job} (hjob : job ≠ .render) :
    (i.runJob e job).2.Plain := by
  cases job with
  | render => exact absurd rfl hjob
  | call name arguments =>
    simp only [runJob]
    split
    · exact plain_builtin h _ _
    · exact plain_advance_fail h _

theorem plain_stopped {otherwise : Engine × Move} (h : .render ∉ i.todo)
    (hotherwise : otherwise.2.Plain) : (i.stopped? e otherwise).2.Plain := by
  unfold stopped?
  split
  · exact plain_advance_fail h _
  · exact hotherwise

theorem plainTurn_step (e : Engine) (h : i.Plain) : i.PlainTurn e (i.step e) := by
  unfold step
  split
  case h_1 =>
    exact .works (plain_call h.todo (fun _ => Phase.noConfusion) (pending_of_evaluating rfl) rfl)
  case h_2 hphase =>
    split
    · next htodo => exact .draws ⟨hphase, htodo⟩
    · next job todo htodo =>
      have hrest : .render ∉ todo := fun hr => h.todo (htodo ▸ List.mem_cons_of_mem job hr)
      have hjob : job ≠ .render := by
        rintro rfl
        exact h.todo (htodo ▸ List.mem_cons_self)
      exact .works (plain_stopped h.todo (plain_job (i := { i with todo }) hrest hjob))
  case h_3 hrendering | h_4 hrendering => exact absurd hrendering (h.phase _)
  case h_5 hphase => exact .works (plain_advance h fun output => by simp [hphase])
  case h_6 => exact .works (plain_stopped h.todo (plain_advance_pass h.todo _))
  case h_7 =>
    have hslept : ∀ ms, (Move.sleep ms (i.pass i.output)).Plain := by
      refine fun ms => ⟨?_, by simp, by simp⟩
      rintro i' ⟨rfl⟩
      exact ⟨plain_pass h.todo _, pending_pass i _⟩
    exact .works (plain_stopped h.todo (hslept _))
  case h_8 r hphase =>
    dsimp only
    split
    · next houtermost => exact .tells r hphase houtermost
    · next houtermost => exact .closes r hphase (Bool.eq_false_iff.mpr houtermost)
  case h_9 r hphase => exact .finishes r hphase

theorem Plain.step (h : i.Plain) (hi' : (i.step e).2.invocation? = some i') : i'.Plain := by
  have hturn := plainTurn_step e h
  revert hi' hturn
  generalize i.step e = r
  rintro hi' (hplain | _ | _ | _ | _)
  · exact (hplain.goes i' hi').1
  all_goals
    cases hi'
    try exact ⟨h.todo, fun _ => Phase.noConfusion⟩

/-- Without a result the invocation goes on until all its jobs are done. -/
theorem Pending.step (hpending : i.Pending) (h : i.Plain) (hdone : ¬ i.Evaluated)
    (hi' : (i.step e).2.invocation? = some i') : i'.Pending := by
  have hturn := plainTurn_step e h
  revert hi' hturn
  generalize i.step e = r
  rintro hi' (hplain | hevaluated | ⟨r, hphase, -⟩ | ⟨r, hphase, -⟩ | _)
  · exact (hplain.goes i' hi').2
  · exact absurd hevaluated hdone
  case finishes => cases hi'
  all_goals
    cases hi'
    intro output
    refine ⟨Phase.noConfusion, fun hending => (hpending output).1 ?_⟩
    rw [hphase]
    cases hending
    rfl

theorem Plain.resume (h : i.Plain) (e : Engine) (action : ResumeAction) :
    (i.resume e action).2.Plain := by
  unfold Invocation.resume
  dsimp only
  split
  · exact plain_fail h.todo _
  · exact plain_pass h.todo _

theorem pending_resume (e : Engine) (i : Invocation) (action : ResumeAction) :
    (i.resume e action).2.Pending := by
  unfold Invocation.resume
  dsimp only
  split
  · exact pending_fail i _
  · exact pending_pass i _

theorem writes_finalCall (r : Evaluation) : (finalCall r).writes = false := by
  unfold finalCall
  split <;> rfl

/-- The host is called for something else than lines. -/
theorem Plain.silent (h : i.Plain) {c : HostCall} (hc : (i.step e).2 = .call c i') :
    c.writes = false := by
  have hturn := plainTurn_step e h
  revert hc hturn
  generalize i.step e = r
  rintro hc (hplain | _ | ⟨r, -, -⟩ | _ | _)
  · exact hplain.silent c i' hc
  case tells =>
    cases hc
    exact writes_finalCall r
  all_goals cases hc

/-- Without a result the invocation is not finished with one. -/
theorem Pending.unfinished (hpending : i.Pending) (h : i.Plain) {r : Evaluation}
    (hr : (i.step e).2 = .finish r) (output : Output Value) : r ≠ .ok output := by
  have hturn := plainTurn_step e h
  revert hr hturn
  generalize i.step e = m
  rintro hr (hplain | _ | _ | _ | ⟨r', hphase⟩)
  · exact absurd hr (hplain.unfinished r)
  case finishes =>
    cases hr
    rintro rfl
    exact (hpending output).2 hphase
  all_goals cases hr

theorem plain_invoke {c : Command} (h : .render ∉ c.jobs) (frame : FrameInfo)
    (addToHistory outermost : Bool) :
    (e.invoke frame c addToHistory outermost).2.Plain := by
  refine ⟨h, fun calls => ?_⟩
  cases outermost <;> exact Phase.noConfusion

theorem pending_invoke (e : Engine) (frame : FrameInfo) (c : Command)
    (addToHistory outermost : Bool) :
    (e.invoke frame c addToHistory outermost).2.Pending := by
  intro output
  cases outermost <;> exact ⟨Phase.noConfusion, Phase.noConfusion⟩

/-- An invocation does not ask to be stopped. -/
theorem stopRequested_step (e : Engine) (i : Invocation) :
    (i.step e).1.stopRequested = e.stopRequested := by
  have hstopped : ∀ otherwise : Engine × Move, otherwise.1.stopRequested = e.stopRequested →
      (i.stopped? e otherwise).1.stopRequested = e.stopRequested := by
    intro otherwise h
    unfold stopped?
    split
    · rfl
    · exact h
  have hbuiltin : ∀ (j : Invocation) b arguments,
      (j.runBuiltin e b arguments).1.stopRequested = e.stopRequested := by
    intro j b arguments
    cases b <;> simp only [runBuiltin] <;> first | rfl | (split <;> rfl)
  unfold step
  split
  case h_2 =>
    split
    · rfl
    · next job todo _ =>
      refine hstopped _ ?_
      unfold runJob
      split
      · rfl
      · split
        · exact hbuiltin _ _ _
        · rfl
  case h_6 | h_7 => exact hstopped _ rfl
  case h_8 => cases i.addToHistory <;> cases i.outermost <;> rfl
  all_goals rfl

end Invocation

end ScriptHost
