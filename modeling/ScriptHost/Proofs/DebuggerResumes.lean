import ScriptHost.Proofs.DebuggerAborts

/-!
Resuming a stopped debugger. A loop holds one signal, and its place is free again as soon as
the thread of the loop has taken the signal out; but the loop is open until that thread has
emptied its channel and left. An order to resume that is accepted in between is never looked
at. So the debugger resumes with an accepted order exactly if its thread had taken none before.
-/

namespace ScriptHost.Service

variable {later earlier : List Transition} {w w' : World} {s : Transition}

/-- A signal is accepted by an open loop that holds none. -/
theorem exists_open_of_accepted {past : List Transition} {kind : LoopKind} {signal : Signal}
    (h : Run past w) (haccepted : w.signalInnermost kind signal = (true, w')) :
    ∃ l, w.loops.find? (·.kind == kind) = some l ∧ w.findLoop l.id = some l ∧
      l.signal = none := by
  unfold World.signalInnermost at haccepted
  cases hfind : w.loops.find? (·.kind == kind) with
  | none =>
    rw [hfind] at haccepted
    cases haccepted
  | some l =>
    have hfound : w.findLoop l.id = some l :=
      (orderly_of_run h).sound.findLoop_of_mem (List.mem_of_find?_eq_some hfind)
    refine ⟨l, rfl, hfound, ?_⟩
    cases hsignal : l.signal with
    | none => rfl
    | some held =>
      simp only [hfind, World.signalLoop, hfound] at haccepted
      rcases l with ⟨id, kind', frame, thread, requests, signal'⟩
      obtain rfl : signal' = some held := hsignal
      cases haccepted

/-- An order to resume that a stopped debugger accepts is the one it resumes with exactly if the
thread that pumps its loop had not taken another one by then, whatever is posted to the loop,
signalled or opened inside it later. -/
theorem accepted_resume_applied_iff {action : ResumeAction} (h : Run (later ++ s :: earlier) w)
    (haccepted : s.before.resume action = (true, s.after)) :
    ∃ l t phase, s.before.loops.find? (·.kind == .debuggerStop) = some l ∧
      s.before.threads[l.thread]? = some t ∧ .loop l.id phase ∈ t.stack ∧ phase.pumps = true ∧
      ∀ newer y older, later = newer ++ y :: older → (y.before.findLoop l.id).isSome = true →
        y.after.findLoop l.id = none →
        ∃ j depth applied i rest, y.Resumes l.id j depth applied i rest ∧
          (applied = action ↔ ∀ signal, phase.taken? = some signal → signal.action = action) := by
  obtain ⟨hpast, -⟩ := run_before h
  obtain ⟨l, hl, hfound, hempty⟩ := exists_open_of_accepted hpast haccepted
  have hkind : l.kind = .debuggerStop := by simpa using List.find?_some hl
  have hnew : s.accepted l.id = [.resume action] :=
    accepted_of_signalInnermost hpast (congrArg (·.2.loops) haccepted).symm hl hempty
  obtain ⟨t, phase, above, ht, hphase, hpumps, hpumping⟩ := exists_pumping hpast hfound
  have hkept : Kept (accepted l.id earlier) l.signal phase.taken? :=
    signal_of_run hpast hfound _ hpumping
  refine ⟨l, t, phase, hl, ht, hphase, hpumps, ?_⟩
  rintro newer y older rfl hopen hgone
  obtain ⟨j, depth, signal, i, rest, hresumes, hfirst⟩ :=
    resumes_with_first h hfound hkind hopen hgone
  refine ⟨j, depth, signal.action, i, rest, hresumes, ?_⟩
  rw [hnew] at hfirst
  cases htaken : phase.taken? with
  | none =>
    rw [htaken, hempty] at hkept
    have hnone : accepted l.id earlier = [] := hkept
    rw [hnone] at hfirst
    cases hfirst
    simp [Signal.action]
  | some first =>
    rw [htaken] at hkept
    have hhead : (accepted l.id earlier).head? = some first := hkept
    rw [List.append_assoc, List.head?_append, hhead] at hfirst
    cases hfirst
    simp

/-- A debugger that was told to go on is told to stop before its loop is left. That order is
accepted as well, and the debugger goes on. -/
theorem accepted_resume_lost : ¬ ∀ later s earlier w action l newer y older,
    Run (later ++ s :: earlier) w → s.before.resume action = (true, s.after) →
    s.before.loops.find? (·.kind == .debuggerStop) = some l → later = newer ++ y :: older →
    (y.before.findLoop l.id).isSome = true → y.after.findLoop l.id = none →
    ∃ j depth i rest, y.Resumes l.id j depth action i rest := by
  intro hclaim
  have hstart : Run [] _ := @Run.start {} {} _ rfl rfl rfl
  have hopen := run_of_follow (hstart.step (.call (.execute
    { command := .ofScript "breakpoint", options := {} })))
    (List.replicate 10 0 ++ List.replicate 8 1)
  have htold := hopen.step (.act (s := .resume .proceed) rfl fun _ => rfl)
  have htaken := run_of_follow htold [1]
  have hlate := htaken.step (.act (s := .resume .stop) rfl fun _ => rfl)
  have hleaving := run_of_follow hlate [1, 1, 1]
  have hgone := hleaving.step (.move (k := 1) rfl (List.mem_singleton_self _))
  obtain ⟨j, depth, i, rest, hresumes⟩ := hclaim (_ :: _) _ _ _ .stop _ [] _ _ hgone
    rfl rfl rfl (by decide +kernel) rfl
  obtain rfl : 1 = j := Option.some.inj hresumes.1
  have haction := congrArg (Option.bind · Thread.resuming?) hresumes.2
  change _ = some ResumeAction.stop at haction
  exact absurd haction (by decide +kernel)

end ScriptHost.Service
