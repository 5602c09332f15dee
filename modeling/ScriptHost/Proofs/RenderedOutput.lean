import ScriptHost.Proofs.AnsweringHosts
import ScriptHost.Proofs.CommandTexts

/-!
Writing the output of a command to the host. A command that is prepared for this does what it
does anyway, and then its output becomes lines, followed by its errors if they join the output.
Nothing else changes, as long as the host does not mind being written to and nobody has asked
to stop when the command is through.
-/

namespace ScriptHost

/-- The lines that a host is to be written. -/
def Output.lines (output : Output Value) (merge : Bool) : List HostCall :=
  output.output.map (fun v => .writeLine v.text) ++
    if merge then output.errors.map .writeErrorLine else []

namespace Host

variable {σ : Type} {H : Host σ} {same : σ → σ → Prop} {e : Engine} {s t : σ} {c : HostCall}
  {i i' : Invocation} {x y : Scene σ} {o o' : Ending σ} {merge : Bool}

/-- The host does the same whether it has been written lines or not. To it, states are the same
that differ in these lines. -/
structure Unmoved (H : Host σ) (same : σ → σ → Prop) : Prop where
  refl : ∀ s, same s s
  respects : H.Respects same
  written : ∀ c e s t, c.writes = true → same s t →
    ∃ r action, H c e t r ∧ r.answer = .ok action ∧ r.engine = e ∧ same s r.host

/-- The second invocation ends as the first one does, but that its output became lines. -/
structure Rendered (same : σ → σ → Prop) (merge : Bool) (o o' : Ending σ) : Prop where
  engine : o'.engine = o.engine
  host : same o.host o'.host
  calls : o'.calls.filter (fun c => !c.writes) = o.calls
  failed : ∀ error, o.result = .ok (.error error) →
    o'.result = .ok (.error error) ∧ ∀ c ∈ o'.calls, c.writes = false
  passed : ∀ output, o.result = .ok (.ok output) →
    o'.result = .ok (.ok { errors := output.errors }) ∧
      ∃ before after, o.calls = before ++ after ∧
        o'.calls = before ++ output.lines merge ++ after ∧
        (after = [] ∨ after = [.stateChanged .completed none])
  panicked : ∀ p, o.result = .error p → o'.result = .error p

theorem Rendered.after {call : Option HostCall} (h : Rendered same merge o o')
    (hcall : ∀ c ∈ call, c.writes = false) :
    Rendered same merge (o.after call) (o'.after call) where
  engine := h.engine
  host := h.host
  calls := by
    have hkept : call.toList.filter (fun c => !c.writes) = call.toList := by
      rw [List.filter_eq_self]
      intro c hc
      rw [hcall c (Option.mem_toList.mp hc), Bool.not_false]
    simp only [Ending.after, List.filter_append, h.calls, hkept]
  failed := by
    intro error herror
    obtain ⟨hresult, hsilent⟩ := h.failed error herror
    refine ⟨hresult, fun c hc => ?_⟩
    rcases List.mem_append.mp hc with hc | hc
    · exact hcall c (Option.mem_toList.mp hc)
    · exact hsilent c hc
  passed := by
    intro output houtput
    obtain ⟨hresult, before, after, hcalls, hcalls', hafter⟩ := h.passed output houtput
    refine ⟨hresult, call.toList ++ before, after, ?_, ?_, hafter⟩
    · simp only [Ending.after, hcalls, List.append_assoc]
    · simp only [Ending.after, hcalls', List.append_assoc]
  panicked := h.panicked

/-- How an invocation with a result ends. An outermost one tells its host. -/
inductive Concludes (H : Host σ) (e : Engine) (s : σ) (i : Invocation) (r : Evaluation) :
    Ending σ → Prop
  | silent (houtermost : i.outermost = false) :
      Concludes H e s i r
        { result := .ok r, engine := (i.noted e).record i.frame (.finished i.text), host := s }
  | told (houtermost : i.outermost = true) {reply : Reply σ} {action : ResumeAction}
      (hreply : H (Invocation.finalCall r) { i.noted e with active := (i.noted e).active - 1 } s
        reply) (haction : reply.answer = .ok action) :
      Concludes H e s i r
        { result := .ok r, calls := [Invocation.finalCall r]
          engine := reply.engine.record i.frame (.finished i.text), host := reply.host }
  | panicked (houtermost : i.outermost = true) {reply : Reply σ} {p : Panic}
      (hreply : H (Invocation.finalCall r) { i.noted e with active := (i.noted e).active - 1 } s
        reply) (hpanic : reply.answer = .error p) :
      Concludes H e s i r
        { result := .error p, calls := [Invocation.finalCall r], engine := reply.engine
          host := reply.host }

theorem ends_ending {r : Evaluation} (hphase : i.phase = .ending r) :
    H.Ends ⟨e, s, i⟩ o ↔
      o = { result := .ok r, engine := e.record i.frame (.finished i.text), host := s } := by
  refine ends_of_finish ?_
  simp only [Invocation.step, hphase]

theorem stops_finalCall (r : Evaluation) : (Invocation.finalCall r).stops = false := by
  unfold Invocation.finalCall
  split <;> rfl

theorem ends_closing {r : Evaluation} (hphase : i.phase = .closing r) :
    H.Ends ⟨e, s, i⟩ o ↔ H.Concludes e s i r o := by
  cases houtermost : i.outermost with
  | false =>
    have hstep : i.step e = (i.noted e, .advance { i with phase := .ending r }) := by
      simp only [Invocation.step, hphase, houtermost, Bool.false_eq_true, if_false]
      rfl
    rw [ends_of_advance hstep, ends_ending rfl]
    constructor
    · rintro rfl
      exact .silent houtermost
    · intro h
      cases h with
      | silent => rfl
      | told h | panicked h =>
        rw [houtermost] at h
        cases h
  | true =>
    have hstep : i.step e = ({ i.noted e with active := (i.noted e).active - 1 },
        .call (Invocation.finalCall r) { i with phase := .ending r }) := by
      simp only [Invocation.step, hphase, houtermost, if_true]
      rfl
    rw [ends_of_call hstep]
    constructor
    · rintro ⟨reply, hreply, hcomes⟩
      cases hanswer : reply.answer with
      | error p =>
        rw [resumes_of_error hanswer] at hcomes
        cases hcomes
        exact .panicked houtermost hreply hanswer
      | ok action =>
        rw [resumes_of_ok hanswer (stops_finalCall r)] at hcomes
        obtain ⟨o', hends, rfl⟩ := hcomes
        rw [ends_ending rfl] at hends
        cases hends
        exact .told houtermost hreply hanswer
    · intro h
      cases h with
      | silent h =>
        rw [houtermost] at h
        cases h
      | told h hreply haction =>
        refine ⟨_, hreply, ?_⟩
        rw [resumes_of_ok haction (stops_finalCall r)]
        exact ⟨_, (ends_ending rfl).mpr rfl, rfl⟩
      | panicked h hreply hpanic =>
        refine ⟨_, hreply, ?_⟩
        rw [resumes_of_error hpanic]
        rfl

/-- Two invocations ended in the same way, but that the first had the result `r` where the second
had `r'`. -/
structure Parallel (same : σ → σ → Prop) (r r' : Evaluation) (o o' : Ending σ) : Prop where
  engine : o'.engine = o.engine
  host : same o.host o'.host
  calls : o'.calls = o.calls
  last : o.calls = [] ∨ o.calls = [Invocation.finalCall r]
  result : o.result = .ok r ∧ o'.result = .ok r' ∨ ∃ p, o.result = .error p ∧ o'.result = .error p

/-- Two results of which the host is told the same end in the same way. -/
theorem Concludes.alike {r : Evaluation} (i' : Invocation) (r' : Evaluation)
    (h : H.Concludes e s i r o) (hH : H.Respects same) (hst : same s t)
    (hframe : i'.frame = i.frame) (htext : i'.text = i.text)
    (hhistory : i'.addToHistory = i.addToHistory) (houtermost : i'.outermost = i.outermost)
    (htold : Invocation.finalCall r' = Invocation.finalCall r) :
    ∃ o', H.Concludes e t i' r' o' ∧ Parallel same r r' o o' := by
  have hnoted : i'.noted e = i.noted e := by
    unfold Invocation.noted
    rw [htext, hhistory]
  cases h with
  | silent h =>
    refine ⟨_, .silent (houtermost.trans h), ?_, hst, rfl, .inl rfl, .inl ⟨rfl, rfl⟩⟩
    simp only [hnoted, hframe, htext]
  | told h hreply haction =>
    rw [← htold, ← hnoted] at hreply
    obtain ⟨reply, hreply', hanswer, hengine, hhost⟩ := hH _ _ _ t _ hst hreply
    refine ⟨_, .told (houtermost.trans h) hreply' (hanswer.trans haction), ?_, hhost,
      by rw [htold], .inr rfl, .inl ⟨rfl, rfl⟩⟩
    simp only [hengine, hframe, htext]
  | panicked h hreply hpanic =>
    rw [← htold, ← hnoted] at hreply
    obtain ⟨reply, hreply', hanswer, hengine, hhost⟩ := hH _ _ _ t _ hst hreply
    exact ⟨_, .panicked (houtermost.trans h) hreply' (hanswer.trans hpanic), hengine, hhost,
      by rw [htold], .inr rfl, .inr ⟨_, rfl, rfl⟩⟩

/-- The output became lines before such an end. -/
theorem Parallel.rendered {output : Output Value}
    (h : Parallel same (.ok output) (.ok { errors := output.errors }) o o')
    (hwrites : ∀ c ∈ output.lines merge, c.writes = true) :
    Rendered same merge o { o' with calls := output.lines merge ++ o'.calls } where
  engine := h.engine
  host := h.host
  calls := by
    have hgone : (output.lines merge).filter (fun c => !c.writes) = [] := by
      rw [List.filter_eq_nil_iff]
      intro c hc
      simp [hwrites c hc]
    have hkept : o.calls.filter (fun c => !c.writes) = o.calls := by
      rcases h.last with hcalls | hcalls <;> rw [hcalls] <;> rfl
    rw [List.filter_append, hgone, h.calls, hkept, List.nil_append]
  failed := by
    intro error herror
    rcases h.result with ⟨hok, -⟩ | ⟨p, hp, -⟩
    · rw [hok] at herror
      cases herror
    · rw [hp] at herror
      cases herror
  passed := by
    intro output' houtput
    rcases h.result with ⟨hok, hok'⟩ | ⟨p, hp, -⟩
    · rw [hok] at houtput
      cases houtput
      exact ⟨hok', [], o.calls, rfl, by rw [h.calls]; rfl, h.last⟩
    · rw [hp] at houtput
      cases houtput
  panicked := by
    intro p hp
    rcases h.result with ⟨hok, -⟩ | ⟨p', hp', hp''⟩
    · rw [hok] at hp
      cases hp
    · rw [hp'] at hp
      cases hp
      exact hp''

/-- An invocation writes its lines and goes on where nothing but the host has changed. -/
theorem ends_of_rendering (hH : H.Unmoved same) {calls : List HostCall}
    (hcalls : ∀ c ∈ calls, c.writes = true) (hst : same s t) {P : Ending σ → Prop}
    (hrest : ∀ t', same s t' → ∃ o, H.Ends ⟨e, t', { i with phase := .evaluating }⟩ o ∧ P o) :
    ∃ o, H.Ends ⟨e, t, { i with phase := .rendering calls }⟩
      { o with calls := calls ++ o.calls } ∧ P o := by
  induction calls generalizing t with
  | nil =>
    obtain ⟨o, hends, ho⟩ := hrest t hst
    exact ⟨o, (ends_of_advance rfl).mpr hends, ho⟩
  | cons c calls ih =>
    have hc : c.stops = false := by
      have hwrites := hcalls c List.mem_cons_self
      cases c <;> first | rfl | cases hwrites
    obtain ⟨r, action, hreply, haction, hengine, hhost⟩ :=
      hH.written c e s t (hcalls c List.mem_cons_self) hst
    obtain ⟨o, hends, ho⟩ := ih (fun c' hc' => hcalls c' (List.mem_cons_of_mem c hc')) hhost
    refine ⟨o, (ends_of_call rfl).mpr ⟨r, hreply, ?_⟩, ho⟩
    rw [resumes_of_ok haction hc, hengine]
    exact ⟨_, hends, rfl⟩

/-- When all jobs are done and nobody has asked to stop, the lines are written. -/
theorem Ends.rendered_of_evaluated (hH : H.Unmoved same) (hst : same s t) (hdone : i.Evaluated)
    (hquiet : e.stopRequested = false) (h : H.Ends ⟨e, s, i⟩ o) :
    ∃ o', H.Ends ⟨e, t, i.extended [.render] merge⟩ o' ∧ Rendered same merge o o' := by
  obtain ⟨hphase, htodo⟩ := hdone
  have hplain : i.step e = (e, .advance { i with phase := .closing i.result }) := by
    simp only [Invocation.step, hphase, htodo]
    rfl
  have hconcludes : H.Concludes e s { i with phase := .closing i.result } i.result o :=
    (ends_closing rfl).mp ((ends_of_advance hplain).mp h)
  let output : Output Value := { output := i.output, errors := i.errors }
  let j : Invocation := { i with todo := [], merge, output := [] }
  have hrender : (i.extended [.render] merge).step e =
      (e, .advance { j with phase := .rendering (output.lines merge) }) := by
    simp [Invocation.step, Invocation.extended, hphase, htodo, Invocation.stopped?, hquiet,
      Invocation.runJob, Invocation.renderCalls, j, output, Output.lines]
  have hrest : ∀ t', same s t' → ∃ o', H.Ends ⟨e, t', { j with phase := .evaluating }⟩ o' ∧
      Parallel same (.ok output) (.ok { errors := output.errors }) o o' := by
    intro t' ht'
    obtain ⟨o', hconcludes', hparallel⟩ :=
      hconcludes.alike { j with phase := .closing (.ok { errors := i.errors }) }
        (.ok { errors := i.errors }) hH.respects ht' rfl rfl rfl rfl rfl
    exact ⟨o', (ends_of_advance rfl).mpr ((ends_closing rfl).mpr hconcludes'), hparallel⟩
  have hwrites : ∀ c ∈ output.lines merge, c.writes = true :=
    Invocation.writes_of_renderCalls { i with merge }
  obtain ⟨o', hends, hparallel⟩ := ends_of_rendering hH hwrites hst hrest
  exact ⟨_, (ends_of_advance hrender).mpr hends, hparallel.rendered hwrites⟩

/-- What the last step of an invocation without a result tells. -/
theorem Step.ends_pending (hplain : x.invocation.Plain) (hpending : x.invocation.Pending)
    (h : H.Step x (.ends o)) :
    (∀ output, o.result ≠ .ok (.ok output)) ∧ ∀ c ∈ o.calls, c.writes = false := by
  have hsilent : ∀ {c i}, (x.invocation.step x.engine).2 = .call c i → c.writes = false :=
    hplain.silent
  have hresult : ∀ {r}, (x.invocation.step x.engine).2 = .finish r → ∀ output, r ≠ .ok output :=
    hpending.unfinished hplain
  unfold Step at h
  revert h hsilent hresult
  rcases x.invocation.step x.engine with ⟨e, i | ⟨c, i⟩ | ⟨ms, i⟩ | r | p⟩
  all_goals intro h hsilent hresult
  case advance | sleep => cases h
  case call =>
    obtain ⟨r, -, hr⟩ := h
    unfold Reply.resumes at hr
    split at hr
    · cases hr
      refine ⟨by simp, fun c' hc' => ?_⟩
      rw [List.mem_singleton.mp hc']
      exact hsilent rfl
    · cases hr
  case finish =>
    cases h
    refine ⟨fun output houtput => ?_, by simp⟩
    exact hresult rfl output (Except.ok.inj houtput)
  case panic =>
    cases h
    exact ⟨by simp, by simp⟩

theorem Step.silent {call : Option HostCall} (hplain : x.invocation.Plain)
    (h : H.Step x (.goes call y)) : ∀ c ∈ call, c.writes = false := by
  have hsilent : ∀ {c i}, (x.invocation.step x.engine).2 = .call c i → c.writes = false :=
    hplain.silent
  unfold Step at h
  revert h hsilent
  rcases x.invocation.step x.engine with ⟨e, i | ⟨c, i⟩ | ⟨ms, i⟩ | r | p⟩
  all_goals intro h hsilent
  case call =>
    obtain ⟨r, -, hr⟩ := h
    unfold Reply.resumes at hr
    split at hr
    · cases hr
    · cases hr
      rintro c' ⟨rfl⟩
      exact hsilent rfl
  all_goals
    cases h
    try simp

/-- Nobody has asked to stop when all jobs are done. -/
def EndsQuietly (H : Host σ) (x : Scene σ) : Prop :=
  ∀ y, H.Reaches x y → y.invocation.Evaluated → y.engine.stopRequested = false

/-- Nobody asks to stop if the host does not. -/
theorem endsQuietly_of_host (hH : ∀ c e s r, H c e s r → r.engine.stopRequested = e.stopRequested)
    (hx : x.engine.stopRequested = false) : H.EndsQuietly x := by
  intro y hy hdone
  clear hdone
  induction hy with
  | refl => exact hx
  | @tail y z _ h ih =>
    obtain ⟨call, h⟩ := h
    have hstep := Invocation.stopRequested_step y.engine y.invocation
    unfold Step at h
    revert h hstep
    rcases y.invocation.step y.engine with ⟨e, i | ⟨c, i⟩ | ⟨ms, i⟩ | r | p⟩
    all_goals intro h hstep
    case call =>
      obtain ⟨r, hreply, hr⟩ := h
      have hkept := (hH c e y.host r hreply).trans (hstep.trans ih)
      unfold Reply.resumes at hr
      split at hr
      · cases hr
      · cases hstops : c.stops <;> rw [hstops] at hr <;> cases hr <;> exact hkept
    all_goals
      cases h
      try exact hstep.trans ih

theorem EndsQuietly.step {call : Option HostCall} (hx : H.EndsQuietly x)
    (h : H.Step x (.goes call y)) : H.EndsQuietly y :=
  fun z hz => hx z (Relation.ReflTransGen.head ⟨call, h⟩ hz)

/-- An invocation without a result that is to render its output does what it would do anyway,
and then writes the lines. -/
theorem Ends.rendered (hH : H.Unmoved same) (h : H.Ends x o) (hplain : x.invocation.Plain)
    (hpending : x.invocation.Pending) (hquiet : H.EndsQuietly x) (hst : same x.host t)
    (merge : Bool) :
    ∃ o', H.Ends ⟨x.engine, t, x.invocation.extended [.render] merge⟩ o' ∧
      Rendered same merge o o' := by
  induction h generalizing t with
  | @last x o h =>
    by_cases hdone : x.invocation.Evaluated
    · exact (Ends.last h).rendered_of_evaluated hH hst hdone (hquiet x .refl hdone)
    · obtain ⟨z', hstep, halike⟩ := h.extended merge hH.respects hst hplain (.inr hdone)
      obtain ⟨hresult, hsilent⟩ := h.ends_pending hplain hpending
      cases halike with
      | ends hst' =>
        refine ⟨_, .last hstep, ?_⟩
        exact {
          engine := rfl
          host := hst'
          calls := by
            rw [List.filter_eq_self]
            intro c hc
            rw [hsilent c hc, Bool.not_false]
          failed := fun error herror => ⟨herror, hsilent⟩
          passed := fun output houtput => absurd houtput (hresult output)
          panicked := fun p hp => hp }
  | @goes x y call o h hrest ih =>
    by_cases hdone : x.invocation.Evaluated
    · exact (Ends.goes h hrest).rendered_of_evaluated hH hst hdone (hquiet x .refl hdone)
    · obtain ⟨z', hstep, halike⟩ := h.extended merge hH.respects hst hplain (.inr hdone)
      cases halike with
      | goes hst' =>
        obtain ⟨o', hends, hrendered⟩ := ih (h.plain hplain) (h.pending hpending hplain hdone)
          (hquiet.step h) hst'
        exact ⟨_, .goes hstep hends, hrendered.after (h.silent hplain)⟩

end Host

namespace Command

variable {c : Command} {options : Options}

theorem isRendering_rendering : Stage.rendering.isRendering = true := by
  decide

theorem jobs_withMergedErrors (c : Command) : c.withMergedErrors.jobs = c.jobs := by
  unfold withMergedErrors
  split
  · rfl
  · next s rest h =>
    simp only [jobs, h]
    rfl

theorem visibleText_withMergedErrors (c : Command) :
    c.withMergedErrors.visibleText = c.visibleText := by
  unfold withMergedErrors
  split
  · rfl
  · next s rest h =>
    have hsame : ({ s with merge := true } : Stage).isRendering = s.isRendering := rfl
    unfold visibleText
    rw [h, List.filter_cons, List.filter_cons, hsame]
    split <;> rfl

theorem withMergedErrors_not_rendering (hc : ∀ s ∈ c.stages, s.isRendering = false) :
    ∀ s ∈ c.withMergedErrors.stages, s.isRendering = false := by
  unfold withMergedErrors
  split
  · exact hc
  · next s rest h =>
    rw [h] at hc
    intro s' hs'
    rcases List.mem_cons.mp hs' with rfl | hs'
    · exact hc s List.mem_cons_self
    · exact hc s' (List.mem_cons_of_mem s hs')

/-- A command that does not render gets a stage that does. -/
theorem withRendering_of_not_rendering (hc : ∀ s ∈ c.stages, s.isRendering = false) :
    c.withRendering = ⟨c.stages ++ [Stage.rendering]⟩ := by
  unfold withRendering
  rw [if_neg]
  intro hlast
  obtain ⟨s, hs, hrendering⟩ := (Option.any_eq_true _ _).mp hlast
  rw [hc s (List.mem_of_getLast? hs)] at hrendering
  cases hrendering

theorem jobs_prepared (hwrite : options.writeOutput = true)
    (hc : ∀ s ∈ c.stages, s.isRendering = false) :
    (c.prepared options).jobs = c.jobs ++ [.render] := by
  have hadded : ∀ d : Command, (∀ s ∈ d.stages, s.isRendering = false) →
      d.withRendering.jobs = d.jobs ++ [.render] := by
    intro d hd
    rw [withRendering_of_not_rendering hd, jobs, List.flatMap_append, List.flatMap_singleton,
      Stage.jobs, if_pos isRendering_rendering]
    rfl
  unfold prepared
  rw [if_pos hwrite]
  split
  · rw [hadded _ (withMergedErrors_not_rendering hc), jobs_withMergedErrors]
  · exact hadded c hc

/-- Preparing a command does not show in its text. -/
theorem visibleText_prepared (c : Command) (options : Options) :
    (c.prepared options).visibleText = c.visibleText := by
  have hrendering : ∀ d : Command, d.withRendering.visibleText = d.visibleText := by
    intro d
    unfold withRendering
    split
    · rfl
    · simp [visibleText, isRendering_rendering]
  unfold prepared
  split
  · rw [hrendering]
    split
    · exact visibleText_withMergedErrors c
    · rfl
  · rfl

end Command

variable {c : Command} {options : Options}

/-- A prepared command begins as the command itself does, with a job more to do. -/
theorem Engine.invoke_prepared (hwrite : options.writeOutput = true)
    (hc : ∀ s ∈ c.stages, s.isRendering = false) (e : Engine) (frame : FrameInfo)
    (addToHistory outermost : Bool) :
    e.invoke frame (c.prepared options) addToHistory outermost =
      ((e.invoke frame c addToHistory outermost).1,
        (e.invoke frame c addToHistory outermost).2.extended [.render]
          (c.prepared options).mergesErrors) := by
  simp only [invoke, Command.visibleText_prepared, Command.jobs_prepared hwrite hc,
    Invocation.extended]

/-- How the debugger resumes if a command tells it to. -/
def DebuggerMove.resume? : DebuggerMove → Option ResumeAction
  | resume action => some action
  | invocation _ => none

theorem Engine.debuggerCommand_prepared (e : Engine) (frame : FrameInfo) (c : Command)
    (options : Options) (outermost : Bool) :
    (e.debuggerCommand frame (c.prepared options) outermost).1 =
        (e.debuggerCommand frame c outermost).1 ∧
      (e.debuggerCommand frame (c.prepared options) outermost).2.resume? =
        (e.debuggerCommand frame c outermost).2.resume? := by
  unfold debuggerCommand
  rw [Command.visibleText_prepared]
  dsimp only
  split
  · exact ⟨rfl, rfl⟩
  · refine ⟨?_, rfl⟩
    simp only [invoke, Command.visibleText_prepared]

/-- Writing its output to the host changes nothing about a command but where the output goes,
nor does it change how a stopped debugger resumes. -/
theorem Host.invokes_prepared {σ : Type} {H : Host σ} {same : σ → σ → Prop}
    (hdet : H.Deterministic) (hH : H.Unmoved same) (hwrite : options.writeOutput = true)
    (hc : ∀ s ∈ c.stages, s.isRendering = false) (e : Engine) (s : σ) (frame : FrameInfo)
    (addToHistory outermost : Bool) :
    (∀ o, H.Invokes e s frame c addToHistory outermost o →
      H.EndsQuietly ⟨(e.invoke frame c addToHistory outermost).1, s,
        (e.invoke frame c addToHistory outermost).2⟩ →
      (∃ o', H.Invokes e s frame (c.prepared options) addToHistory outermost o') ∧
        ∀ o', H.Invokes e s frame (c.prepared options) addToHistory outermost o' →
          Rendered same (c.prepared options).mergesErrors o o') ∧
      (e.debuggerCommand frame (c.prepared options) outermost).1 =
        (e.debuggerCommand frame c outermost).1 ∧
      (e.debuggerCommand frame (c.prepared options) outermost).2.resume? =
        (e.debuggerCommand frame c outermost).2.resume? := by
  refine ⟨fun o ho hquiet => ?_, Engine.debuggerCommand_prepared e frame c options outermost⟩
  have hplain : (e.invoke frame c addToHistory outermost).2.Plain :=
    Invocation.plain_invoke (Command.render_not_mem_jobs hc) frame addToHistory outermost
  have hpending := Invocation.pending_invoke e frame c addToHistory outermost
  obtain ⟨o', ho', hrendered⟩ := ho.rendered hH hplain hpending hquiet (hH.refl s)
    (c.prepared options).mergesErrors
  have hinvokes : H.Invokes e s frame (c.prepared options) addToHistory outermost o' := by
    unfold Invokes
    rw [Engine.invoke_prepared hwrite hc]
    exact ho'
  exact ⟨⟨o', hinvokes⟩, fun o'' ho'' => Ends.unique hdet hinvokes ho'' ▸ hrendered⟩

/-- An error and then an output, written by a host that does not mind. -/
theorem Host.invokes_prepared_of_two_stages :
    let c : Command := ⟨[
      { text := "write-error oops", script := true }, { text := "echo a", script := true }]⟩
    let options : Options := { writeOutput := true, writeErrors := true }
    let H : Host Unit := ofReplies atOnce
    ((H.Deterministic ∧ H.Unmoved fun _ _ => True) ∧ options.writeOutput = true ∧
        ∀ s ∈ c.stages, s.isRendering = false) ∧
      ∃ o o', H.Invokes {} () {} c true true o ∧
        H.EndsQuietly ⟨(Engine.invoke {} {} c true true).1, (),
          (Engine.invoke {} {} c true true).2⟩ ∧
        H.Invokes {} () {} (c.prepared options) true true o' ∧
        Rendered (fun _ _ => True) true o o' ∧ o.calls.length = 2 ∧ o'.calls.length = 4 := by
  intro c options H
  have hdet : H.Deterministic := deterministic_ofReplies atOnce
  have hH : H.Unmoved fun _ _ => True := {
    refl := fun _ => trivial
    respects := by
      rintro c e s t r - rfl
      exact ⟨_, rfl, rfl, rfl, trivial⟩
    written := fun c e s t _ _ => ⟨_, _, rfl, rfl, rfl, trivial⟩ }
  have hc : ∀ s ∈ c.stages, s.isRendering = false := by decide
  have hquiet : H.EndsQuietly ⟨(Engine.invoke {} {} c true true).1, (),
      (Engine.invoke {} {} c true true).2⟩ :=
    endsQuietly_of_host (by rintro c e s r rfl; rfl) rfl
  have hplain : ((ending? atOnce 9 ⟨(Engine.invoke {} {} c true true).1, (),
      (Engine.invoke {} {} c true true).2⟩).map (·.calls.length)) = some 2 := by decide +kernel
  have hprepared : ((ending? atOnce 12 ⟨(Engine.invoke {} {} (c.prepared options) true true).1, (),
      (Engine.invoke {} {} (c.prepared options) true true).2⟩).map (·.calls.length)) = some 4 := by
    decide +kernel
  obtain ⟨o, ho, hcalls⟩ := Option.map_eq_some_iff.mp hplain
  obtain ⟨o', ho', hcalls'⟩ := Option.map_eq_some_iff.mp hprepared
  have hends : H.Invokes {} () {} c true true o := ends_of_ending? ho
  have hends' : H.Invokes {} () {} (c.prepared options) true true o' := ends_of_ending? ho'
  obtain ⟨hrendered, -⟩ := Host.invokes_prepared hdet hH (show options.writeOutput = true from rfl)
    hc {} () {} true true
  exact ⟨⟨⟨hdet, hH⟩, rfl, hc⟩, o, o', hends, hquiet, hends',
    (hrendered o hends hquiet).2 o' hends', hcalls, hcalls'⟩

end ScriptHost
