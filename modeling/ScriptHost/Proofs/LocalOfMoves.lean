import ScriptHost.Proofs.LocalMoves
import ScriptHost.Proofs.TrafficOfMoves

/-!
Every move of a thread is local. Most turns are made by activations that hold nothing; those that
take or give back a lease, enter or leave the engine, or open or close a loop come one by one.
-/

namespace ScriptHost.Service

/-- A move of thread `k` to `m` replaces its innermost activation `a`. -/
def IsLocal (w : World) (k : Nat) (t : Thread) (a : Activation) (rest : List Activation)
    (m : World × Thread) : Prop :=
  ∃ new started, Local w k t a rest m new started

theorem posts_updateLoop (w : World) {f : MessageLoop → MessageLoop} (id : Nat)
    (hf : ∀ l, (f l).id = l.id ∧ (f l).thread = l.thread) :
    (w.updateLoop id f).posts = w.posts := by
  unfold World.updateLoop World.posts
  rw [List.map_map]
  apply List.map_congr_left
  intro l hl
  simp only [Function.comp_apply]
  split
  · rw [(hf l).1, (hf l).2]
  · rfl

theorem core_updateLoop (w : World) {f : MessageLoop → MessageLoop} (id : Nat)
    (hf : ∀ l, (f l).id = l.id ∧ (f l).thread = l.thread) : (w.updateLoop id f).core = w.core :=
  core_iff.mpr ⟨rfl, rfl, posts_updateLoop w id hf, rfl⟩

theorem Signals.core {w w' : World} {signal : Signal} (h : Signals w signal w') :
    w'.core = w.core := by
  cases h with
  | accepted l => exact core_updateLoop w l.id fun _ => ⟨rfl, rfl⟩
  | refused => rfl

theorem Reports.core {w w' : World} {what : String} {options : Options}
    (h : Reports w what options w') : w'.core = w.core := by
  cases h <;> rfl

theorem Completes.core {w w' : World} {options : Options} {r : Evaluation} {reply : Reply}
    (h : Completes w options r w' reply) : w'.core = w.core := by
  cases h with
  | runtime what h => exact h.core
  | _ => rfl

section Moves

variable {w : World} {k : Nat} {t : Thread} {a : Activation} {rest : List Activation}
  {m : World × Thread}

/-- A move among activations that hold nothing. -/
theorem isLocal_calm {w' : World} {t' : Thread} (new : List Activation) (ha : a.simple)
    (hnew : new.all Activation.simple) (hs : t'.stack = new ++ rest) (hcore : w'.core = w.core)
    (hcontrol : t'.control.bare) (hdepth : t'.depth = t.depth) :
    IsLocal w k t a rest (w', t') :=
  ⟨new, [], .of_calm new ha hnew hs hcore (Or.inl hcontrol) hdepth⟩

/-- A move among activations that hold nothing, by which the engine does something on the
side. -/
theorem isLocal_engine {t' : Thread} {engine : Engine} (new : List Activation) (ha : a.simple)
    (hnew : new.all Activation.simple) (hs : t'.stack = new ++ rest)
    (hengine : w.engine.Aside engine) (hactive : engine.active = w.engine.active)
    (hpeak : engine.peak = w.engine.peak) (hcontrol : t'.control.bare)
    (hdepth : t'.depth = t.depth) : IsLocal w k t a rest ({ w with engine }, t') :=
  ⟨new, [], .of_simple new ha hnew hs rfl hengine hactive hpeak (le_refl _) (fun _ _ h => h) rfl
    (Or.inl hcontrol) hdepth⟩

/-- A move among activations that hold nothing, by which a frame is pushed or popped. -/
theorem isLocal_nest {t' : Thread} {nest : Nest} (new : List Activation) (ha : a.simple)
    (hnew : new.all Activation.simple) (hs : t'.stack = new ++ rest)
    (hlength : w.nest.frames.length ≤ nest.frames.length)
    (hnest : ∀ live waiting, w.nest.Accounted live waiting → nest.Accounted live waiting)
    (hcontrol : t'.control.bare) (hdepth : t'.depth = t.depth) :
    IsLocal w k t a rest ({ w with nest }, t') :=
  ⟨new, [], .of_simple new ha hnew hs rfl (.refl _) rfl rfl hlength hnest rfl
    (Or.inl hcontrol) hdepth⟩

theorem length_push (n : Nest) (kind : FrameKind) :
    n.frames.length ≤ (n.push kind).2.frames.length := by
  simp [Nest.push]

theorem length_pop {n n' : Nest} {id : Nat} (h : n.pop = .ok (id, n')) :
    n'.frames.length = n.frames.length := by
  unfold Nest.pop at h
  split at h
  · cases h
  · cases h
    simp

theorem length_popTop (n : Nest) : n.popTop.frames.length = n.frames.length := by
  unfold Nest.popTop
  split
  · next hpop => exact length_pop hpop
  · rfl

theorem accounted_popTop {n : Nest} {live waiting : Multiset (Nat × Nat)}
    (h : n.Accounted live waiting) : n.popTop.Accounted live waiting := by
  unfold Nest.popTop
  split
  · next hpop => exact h.pop hpop
  · exact h

theorem details_spec {e e' : Engine} {r : Except EngineError Runspace}
    (h : e.details = (r, e')) : e.Aside e' ∧ e'.active = e.active ∧ e'.peak = e.peak := by
  unfold Engine.details at h
  split at h
  · next hfault =>
    cases h
    obtain ⟨hactive, hpeak⟩ := Engine.counts_of_takeFault hfault
    exact ⟨Engine.aside_takeFault hfault (by simp) (by simp), hactive, hpeak⟩
  · split at h
    · cases h
      exact ⟨.of_same rfl rfl, rfl, rfl⟩
    · cases h
      exact ⟨.refl e, rfl, rfl⟩

theorem stopCommand_spec (o : Operations) (e : Engine) :
    e.Aside (o.stopCommand e) ∧ (o.stopCommand e).active = e.active ∧
      (o.stopCommand e).peak = e.peak := by
  unfold Operations.stopCommand
  split
  · exact ⟨.refl e, rfl, rfl⟩
  · exact ⟨Engine.aside_record rfl, rfl, rfl⟩

theorem length_release (n : Nest) (h : Handle) :
    (n.release h).1.frames.length = n.frames.length := by
  unfold Nest.release
  dsimp only
  split <;> simp

theorem Settles.release {n : Nest} {h : Handle} {before after : Multiset (Nat × Nat)}
    (hle : after ≤ before) : Settles n ({h.lease} + before) 0 [] (n.release h).1 after 0 [] := by
  refine ⟨le_of_eq (length_release n h).symm, ?_⟩
  intro held queued _ haccounted
  obtain ⟨lost, rfl⟩ := Multiset.le_iff_exists_add.mp hle
  rw [add_assoc, Multiset.singleton_add] at haccounted
  refine ⟨⟨lost, 0, ?_⟩, fun f hf => absurd hf List.not_mem_nil⟩
  rw [zero_add queued, ← add_assoc]
  exact haccounted.release.1

/-- A caller that chose the innermost frame is about to ask a frame that was made. -/
theorem Settles.choose {n : Nest} {before : Multiset (Nat × Nat)} :
    Settles n before 0 [] n 0 0 [n.top] := by
  refine ⟨le_refl _, ?_⟩
  intro held queued _ haccounted
  refine ⟨⟨before, 0, ?_⟩, ?_⟩
  · rwa [zero_add, zero_add queued]
  · intro f hf
    obtain rfl := List.mem_singleton.mp hf
    exact Nest.top_lt haccounted

/-- A move by which the innermost activation gives back the lease it holds. -/
theorem isLocal_release {h : Handle} {t' : Thread} (new : List Activation)
    (hm : Releases w h t' m) (ha : a.passing) (hleases : leases [a] = {h.lease})
    (hwaits : waits [a] = 0) (hasked : asked [a] = []) (hnew : new.all Activation.simple)
    (hs : t'.stack = new ++ rest) (hcontrol : t'.control.bare ∨ t'.control = t.control)
    (hdepth : t'.depth = t.depth) : IsLocal w k t a rest m := by
  have hlocal : ∀ {nest : Nest} {t₁ : Thread}, nest = (w.nest.release h).1 →
      t₁.stack = t'.stack → t₁.depth = t'.depth →
      t₁.control.bare ∨ t₁.control = t.control → IsLocal w k t a rest ({ w with nest }, t₁) := by
    rintro nest t₁ rfl hs₁ hdepth₁ hcontrol₁
    refine ⟨new, [], .of_inert new ha (all_inert_of_simple hnew) (hs₁.trans hs) (by simp) ?_
      (.refl _) rfl rfl ?_ rfl (hcontrol₁.imp_left ne_action_of_bare) (hdepth₁.trans hdepth)⟩
    · rw [engaged_of_simple hnew]
      exact Nat.zero_le _
    · rw [hleases, hwaits, hasked, leases_of_simple hnew, waits_of_simple hnew,
        asked_of_simple hnew, zero_add, List.map_nil, List.sum_nil, add_zero]
      exact .release (leases_le_of_bare hcontrol₁)
  cases hm with
  | fit nest hrelease => exact hlocal (by rw [hrelease]) rfl rfl hcontrol
  | stuck nest p hrelease => exact hlocal (by rw [hrelease]) rfl rfl (Or.inl rfl)

/-- A caller that has an answer of a frame's queue has the lease, stands in line, or has
neither. -/
theorem isLocal_answered {token : Option Token} {forReading : Bool} {frame : Nat}
    {phase : LeasePhase} {taking : Taking Nat} {nest : Nest} {t' : Thread}
    (new : List Activation) (h : phase.Answered w token frame (taking, nest))
    (hnew : new.all Activation.inert) (hs : t'.stack = new ++ rest) (hengaged : engaged new = 0)
    (hcontrol : t'.control.bare) (hdepth : t'.depth = t.depth)
    (hleases : leases new = taking.lease frame) (hwaits : waits new = taking.place frame)
    (hasked : asked new = []) :
    IsLocal w k t (.getHandle token forReading phase) rest ({ w with nest }, t') := by
  have hspec : leases [.getHandle token forReading phase] = 0 ∧
      nest.frames.length = w.nest.frames.length ∧
      ∀ live queued, (∀ f ∈ asked [.getHandle token forReading phase],
        f < w.nest.frames.length) →
        w.nest.Accounted live (waits [.getHandle token forReading phase] + queued) →
        nest.Accounted (taking.lease frame + live) (taking.place frame + queued) := by
    generalize hanswer : (taking, nest) = answer at h
    cases h with
    | asking =>
      have hlength : (w.nest.ask frame (w.isCancelled token)).2.frames.length =
          w.nest.frames.length := by simp [Nest.ask]
      rw [← hanswer] at hlength
      refine ⟨rfl, hlength, fun live queued hmade haccounted => ?_⟩
      have hframe : frame < w.nest.frames.length := hmade frame (List.mem_singleton_self _)
      have hwaits : waits [.getHandle token forReading (.asking frame)] = 0 := rfl
      rw [hwaits, zero_add] at haccounted
      have hasks := haccounted.ask hframe (w.isCancelled token)
      rwa [← hanswer] at hasks
    | waiting ticket =>
      have hlength : (w.nest.look frame ticket (w.isCancelled token)).2.frames.length =
          w.nest.frames.length := by simp [Nest.look]
      rw [← hanswer] at hlength
      refine ⟨rfl, hlength, fun live queued _ haccounted => ?_⟩
      have hlooks := Nest.Accounted.look haccounted (w.isCancelled token)
      rwa [← hanswer] at hlooks
  obtain ⟨hnone, hlength, hsettles⟩ := hspec
  refine ⟨new, [], .of_inert new rfl hnew hs (by simp) (by omega) (.refl _) rfl rfl ?_ rfl
    (Or.inl (ne_action_of_bare hcontrol)) hdepth⟩
  refine ⟨le_of_eq hlength.symm, ?_⟩
  intro held queued hmade haccounted
  rw [hnone, zero_add] at haccounted
  refine ⟨⟨t.control.lease?.toList, 0, ?_⟩, by simp [hasked]⟩
  rw [hleases, hwaits, lease_of_bare hcontrol, List.map_nil, List.sum_nil, add_zero,
    zero_add queued]
  simpa using hsettles _ _ hmade haccounted

/-- A caller that is given the lease of a frame, and marks the frame if it wants to read. -/
theorem isLocal_leased {token : Option Token} {forReading : Bool} {frame invoker : Nat} :
    IsLocal w k t (.getHandle token forReading (.marking frame invoker)) rest
      ({ w with nest := (w.nest.lease frame invoker forReading).2 },
        t.give rest (.lease (.ok { invoker, frame, forReading }))) := by
  refine ⟨[], [], .of_inert [] rfl rfl rfl (by simp) (le_refl _) (.refl _) rfl rfl ?_ rfl
    (Or.inl (by simp [Thread.give])) rfl⟩
  have hlive : (leases [] + ([(frame, invoker)] : List (Nat × Nat)) + 0 : Multiset (Nat × Nat)) ≤
      leases [.getHandle token forReading (.marking frame invoker)] +
        (t.control.lease?.toList : Multiset (Nat × Nat)) := by
    rw [add_zero]
    exact (le_of_eq (zero_add _)).trans (Multiset.le_add_right _ _)
  cases forReading with
  | true =>
    exact .of_accounted (by simp [Nest.lease]) (fun _ _ h => h.setReading true) hlive (le_refl _)
      (by simp [asked])
  | false => exact .keep hlive (le_refl _) (by simp [asked])

/-- An activation that keeps the lease it holds. -/
theorem isLocal_holding {w' : World} {t' : Thread} (new : List Activation) (ha : a.passing)
    (hnew : new.all Activation.inert) (hs : t'.stack = new ++ rest) (hcore : w'.core = w.core)
    (hengaged : engaged new ≤ engaged [a]) (hleases : leases new ≤ leases [a])
    (hwaits : waits new = 0) (hasked : asked new = []) (hcontrol : t'.control.bare)
    (hdepth : t'.depth = t.depth) : IsLocal w k t a rest (w', t') := by
  refine ⟨new, [], .of_core new ha hnew hs hcore hengaged hleases ?_ ?_ (Or.inl hcontrol) hdepth⟩
  · rw [hwaits]
    exact Multiset.zero_le _
  · rw [hasked]
    exact fun f hf => absurd hf List.not_mem_nil

/-- An activation that is handed a lease and holds it from then on. -/
theorem isLocal_taking {t' : Thread} {h : Handle} (new : List Activation) (ha : a.passing)
    (hnew : new.all Activation.inert) (hs : t'.stack = new ++ rest)
    (hlease : t.control = .back (.lease (.ok h))) (hengaged : engaged new ≤ engaged [a])
    (hleases : leases new = {h.lease}) (hwaits : waits new = 0) (hasked : asked new = [])
    (hcontrol : t'.control.bare) (hdepth : t'.depth = t.depth) :
    IsLocal w k t a rest (w, t') := by
  refine ⟨new, [], .of_inert new ha hnew hs (by simp) hengaged (.refl _) rfl rfl ?_ rfl
    (Or.inl (ne_action_of_bare hcontrol)) hdepth⟩
  refine .keep ?_ ?_ ?_
  · rw [hleases, lease_of_bare hcontrol, hlease, List.map_nil, List.sum_nil, add_zero]
    exact (le_of_eq (add_zero _)).trans (Multiset.le_add_left _ _)
  · rw [hwaits]
    exact Multiset.zero_le _
  · rw [hasked]
    exact fun f hf => absurd hf List.not_mem_nil

/-- An activation that passes its lease on to a thread that it starts. -/
theorem isLocal_spawning {h : Handle} {t' : Thread} (new : List Activation) (first : Activation)
    (ha : a.passing) (hnew : new.all Activation.simple) (hs : t'.stack = new ++ rest)
    (hleases : leases [a] = {h.lease}) (hfirst : leases [first] = {h.lease})
    (hcontrol : t'.control.bare) (hdepth : t'.depth = t.depth) :
    IsLocal w k t a rest ((w.spawn [first]).2, t') := by
  refine ⟨new, [{ stack := [first] }], .of_inert new ha (all_inert_of_simple hnew) hs rfl ?_
    (.refl _) rfl rfl ?_ rfl (Or.inl (ne_action_of_bare hcontrol)) hdepth⟩
  · rw [engaged_of_simple hnew]
    exact Nat.zero_le _
  · rw [leases_of_simple hnew, waits_of_simple hnew, asked_of_simple hnew,
      lease_of_bare hcontrol, hleases,
      List.map_singleton, List.sum_singleton, hfirst]
    refine .keep ?_ (Multiset.zero_le _) (by simp)
    exact (le_of_eq (zero_add _)).trans (Multiset.le_add_right _ _)

/-- What is parked is picked up, and the activation that did so waits. -/
theorem isLocal_picks {a' : Activation} (hm : Picks w t (a' :: rest) m) (ha : a.passing)
    (ha' : a'.inert) (hengaged : engaged [a'] ≤ engaged [a]) (hleases : leases [a'] ≤ leases [a])
    (hwaits : waits [a'] = 0) (hasked : asked [a'] = []) : IsLocal w k t a rest m := by
  cases hm with
  | found =>
    refine isLocal_holding [_, _, a'] ha ?_ rfl rfl ?_ ?_ ?_ ?_ rfl rfl
    · simpa [Activation.inert] using ha'
    · exact hengaged
    · exact hleases
    · exact hwaits
    · exact hasked
  | nothing =>
    exact isLocal_holding [a'] ha (by simpa using ha') rfl rfl hengaged hleases hwaits hasked rfl
      rfl

/-- The worker of a read keeps its lease while the engine or the nest does something on the
side. -/
theorem isLocal_reader {h : Handle} {read : Nat} {phase : ReadWorkerPhase} {engine : Engine}
    {nest : Nest} {t' : Thread} (new : List Activation) (hnew : new.all Activation.inert)
    (hs : t'.stack = new ++ rest) (hengaged : engaged new = 0) (hengine : w.engine.Aside engine)
    (hactive : engine.active = w.engine.active) (hpeak : engine.peak = w.engine.peak)
    (hlength : w.nest.frames.length ≤ nest.frames.length)
    (hnest : ∀ live waiting, w.nest.Accounted live waiting → nest.Accounted live waiting)
    (hleases : leases new = {h.lease}) (hwaits : waits new = 0) (hasked : asked new = [])
    (hcontrol : t'.control.bare) (hdepth : t'.depth = t.depth) :
    IsLocal w k t (.readWorker h read phase) rest ({ w with engine, nest }, t') := by
  refine ⟨new, [], .of_inert new rfl hnew hs (by simp) (by omega) hengine hactive hpeak ?_ rfl
    (Or.inl (ne_action_of_bare hcontrol)) hdepth⟩
  rw [hleases, hwaits, hasked, lease_of_bare hcontrol]
  refine .of_accounted hlength hnest ?_ (le_refl _) (by simp)
  rw [List.map_nil, List.sum_nil, add_zero]
  exact (le_of_eq (add_zero _)).trans (Multiset.le_add_right _ _)

/-- An invocation that goes on as `i'`, perhaps under activations that hold nothing. -/
theorem isLocal_invocation {i i' : Invocation} {w' : World} {t' : Thread} {engine : Engine}
    (above : List Activation) (habove : above.all Activation.simple)
    (hs : t'.stack = above ++ .invocation i' :: rest) (hcore : w'.core = { w with engine }.core)
    (hengine : w.engine.Aside engine) (hpeak : engine.peak = w.engine.peak)
    (hframe : i'.frame = i.frame) (houtermost : i'.outermost = i.outermost)
    (hprogress : Fit w.loops k t.control t.depth (.invocation i :: rest) →
      i'.inProgress = i.inProgress ∧ engine.active = w.engine.active ∨
        i.inProgress = true ∧ i'.inProgress = false ∧ engine.active = w.engine.active - 1)
    (hcontrol : t'.control.bare) (hdepth : t'.depth = t.depth) :
    IsLocal w k t (.invocation i) rest (w', t') := by
  obtain ⟨hengine', hnest, hposts, hthreads⟩ := core_iff.mp hcore
  have hinert := all_inert_of_simple habove
  refine ⟨above ++ [.invocation i'], [], by rw [hs, List.append_assoc]; rfl,
    by simpa using hthreads, ?_, ?_, ?_, ?_, fun l' hl' _ => exists_post hposts l' hl'⟩
  · have hengaged : engaged (above ++ [.invocation i']) = 0 := by
      rw [engaged, List.countP_append]
      exact Nat.add_eq_zero_iff.mpr ⟨engaged_of_simple habove, rfl⟩
    rw [hengaged, if_neg (Nat.not_lt_zero _), hengine']
    exact hengine
  · intro hfit
    have hbelow : invocations (above ++ [.invocation i'] ++ rest) = i' :: invocations rest := by
      rw [List.append_assoc, invocations_append, invocations_of_inert hinert]
      rfl
    refine .of_advanced (i := i) rfl hbelow hframe ?_ ?_
    · rw [hengine']
      exact hprogress hfit
    · rw [hengine']
      exact hpeak
  · have hleases : leases (above ++ [.invocation i']) = 0 := by
      rw [leases_append, leases_of_simple habove]
      rfl
    have hwaits : waits (above ++ [.invocation i']) = 0 := by
      rw [waits_append, waits_of_simple habove]
      rfl
    have hasked : asked (above ++ [.invocation i']) = [] := by
      rw [asked_append, asked_of_simple habove]
      rfl
    rw [hleases, hwaits, hasked, lease_of_bare hcontrol, hnest]
    exact .keep (Multiset.zero_le _) (Multiset.zero_le _) (by simp)
  · intro hfit
    have hadvanced : Fit w.loops k .go t.depth (.invocation i' :: rest) :=
      hfit.advance hframe houtermost (by simp)
    have hall := hadvanced.push rfl hinert (ne_action_of_bare hcontrol)
    rw [hdepth, List.append_assoc]
    exact hall.repost hposts

/-- An invocation that is left: it has finished, or a panic goes through it. -/
theorem isLocal_left {i : Invocation} {engine : Engine} {t' : Thread} (hs : t'.stack = rest)
    (hengine : w.engine.Aside engine) (hactive : engine.active = w.engine.active)
    (hpeak : engine.peak = w.engine.peak) (hcontrol : t'.control.bare)
    (hdepth : t'.depth = t.depth - 1) :
    IsLocal w k t (.invocation i) rest ({ w with engine }, t') := by
  refine ⟨[], [], hs, by simp, hengine, fun _ => .of_gone (i := i) rfl hactive hpeak, ?_, ?_,
    fun l' hl' _ => ⟨l', hl', rfl, rfl⟩⟩
  · rw [lease_of_bare hcontrol]
    exact .keep (Multiset.zero_le _) (le_refl _) (by simp [asked])
  · intro hfit
    have hloop := hfit.sits.1.not_onLoop (by simp)
    rw [hdepth, hfit.depth_eq]
    exact (hfit.tail (by simp)).push hloop rfl (ne_action_of_bare hcontrol)

/-- An invocation that opens a loop. -/
theorem isLocal_opening {i i' : Invocation} {engine : Engine} (t' : Thread) (kind : LoopKind)
    (phase : LoopPhase) (hpumps : phase.pumps = true) (hs : t'.stack = .invocation i' :: rest)
    (hengine : w.engine.Aside engine) (hpeak : engine.peak = w.engine.peak)
    (hframe : i'.frame = i.frame) (houtermost : i'.outermost = i.outermost)
    (hcounts : i'.inProgress = i.inProgress ∧ engine.active = w.engine.active ∨
      i.inProgress = true ∧ i'.inProgress = false ∧ engine.active = w.engine.active - 1)
    (hprogress : i'.inProgress = i'.outermost) (hdepth : t'.depth = t.depth) :
    IsLocal w k t (.invocation i) rest (({ w with engine }.openLoop kind k).2,
      t'.goOn (.loop w.nextLoop phase :: t'.stack)) := by
  refine ⟨[.loop w.nextLoop phase, .invocation i'], [], ?_, (List.append_nil _).symm, hengine,
    fun _ => .of_advanced rfl rfl hframe hcounts hpeak, ?_, ?_, ?_⟩
  · simp only [Thread.goOn, hs]
    rfl
  · exact .of_accounted (length_push _ _) (fun _ _ h => h.push _) (Multiset.zero_le _) (le_refl _)
      (by simp [asked, Activation.asked?])
  · intro hfit
    have hadvanced : Fit w.loops k .go t.depth (.invocation i' :: rest) :=
      hfit.advance hframe houtermost (by simp)
    refine ⟨⟨⟨by simp [onLoop], i', rest, rfl, hprogress⟩, hadvanced.sits⟩, ?_, ?_, ?_, ?_⟩
    · exact fun _ p => by simp [Thread.goOn]
    · exact fun action haction => by simp [Thread.goOn] at haction
    · exact hdepth.trans hadvanced.depth_eq
    · intro l hl hthread
      rcases List.mem_cons.mp hl with rfl | hl
      · exact ⟨phase, List.mem_cons_self, hpumps⟩
      · obtain ⟨phase', hmem, hpumps'⟩ := hadvanced.manned l hl hthread
        exact ⟨phase', List.mem_cons_of_mem _ hmem, hpumps'⟩
  · intro l hl hthread
    rcases List.mem_cons.mp hl with rfl | hl
    · exact absurd rfl hthread
    · exact ⟨l, hl, rfl, rfl⟩

/-- A call of the host by an invocation that goes on as `i'`. -/
theorem local_calls {i i' : Invocation} {engine : Engine} {c : HostCall}
    (hstep : i.Stepped w.engine (engine, .call c i'))
    (hm : Calls { w with engine } k t (.invocation i' :: rest) c m) :
    IsLocal w k t (.invocation i) rest m := by
  obtain ⟨hframe, houtermost, hcounts⟩ := hstep.advanced i' rfl
  have hlocal : ∀ {w' : World} {t' : Thread} (above : List Activation),
      above.all Activation.simple → t'.stack = above ++ .invocation i' :: rest →
      w'.core = { w with engine }.core → t'.control.bare → t'.depth = t.depth →
      IsLocal w k t (.invocation i) rest (w', t') := by
    intro w' t' above habove hs hcore hcontrol hdepth
    exact isLocal_invocation above habove hs hcore hstep.aside hstep.peak_same hframe houtermost
      (fun _ => hcounts) hcontrol hdepth
  cases hm with
  | followed | wrote | crashed | wroteError | updated => exact hlocal [] rfl rfl rfl rfl rfl
  | held => exact hlocal [_] rfl rfl rfl rfl rfl
  | reentered => exact hlocal [_, _] rfl rfl rfl rfl rfl
  | stopped stop =>
    rcases hstep.called _ i' rfl with ⟨state, reason, hcall⟩ | hprogress
    · cases hcall
    · exact isLocal_opening (t.goOn (.invocation i' :: rest)) .debuggerStop (.opening stop)
        rfl rfl hstep.aside hstep.peak_same hframe houtermost hcounts hprogress rfl
  | prompted =>
    rcases hstep.called _ i' rfl with ⟨state, reason, hcall⟩ | hprogress
    · cases hcall
    · exact isLocal_opening (t.goOn (.invocation i' :: rest)) .nestedPrompt .pumping rfl rfl
        hstep.aside hstep.peak_same hframe houtermost hcounts hprogress rfl
  | exited h => exact hlocal [] rfl rfl h.core rfl rfl
  | idled h =>
    cases h with
    | found => exact hlocal [_, _] rfl rfl rfl rfl rfl
    | nothing => exact hlocal [] rfl rfl rfl rfl rfl

theorem engaged_lt_of_leased {new : List Activation} {options : Options}
    (hmem : .leased options ∈ new) (ha : engaged [a] = 0) : engaged [a] < engaged new := by
  rw [ha]
  exact List.countP_pos_iff.mpr ⟨_, hmem, rfl⟩

theorem engaged_lt_of_inLoop {new : List Activation} {loop : Nat} {options : Options}
    (hmem : .inLoop loop options ∈ new) (ha : engaged [a] = 0) : engaged [a] < engaged new := by
  rw [ha]
  exact List.countP_pos_iff.mpr ⟨_, hmem, rfl⟩

theorem invoke_spec {e e' : Engine} {frame : FrameInfo} {c : Command}
    {addToHistory outermost : Bool} {i : Invocation}
    (h : e.invoke frame c addToHistory outermost = (e', i)) :
    i.frame = frame ∧ i.outermost = outermost ∧ i.inProgress = outermost ∧
      e'.active = (if outermost then e.active + 1 else e.active) ∧
      e'.peak = if outermost then max e.peak (e.active + 1) else e.peak := by
  cases h
  cases outermost <;> exact ⟨rfl, rfl, rfl, rfl, rfl⟩

theorem given_of_invoke {e e' : Engine} {frame : FrameInfo} {c : Command}
    {addToHistory outermost : Bool} {i : Invocation}
    (h : e.invoke frame c addToHistory outermost = (e', i)) : e.Given c e' := by
  have hgiven : e.Given c (e.invoke frame c addToHistory outermost).1 :=
    .invoked frame addToHistory outermost
  rwa [h] at hgiven

/-- The innermost activation gives way to `base`, on which an order is run under a lease. -/
theorem isLocal_invoke {nest : Nest} {h : Handle} {o : Order} (base : List Activation)
    (hm : Submits { w with nest } t (base ++ rest) h.invoker o m)
    (horder : w.orderAt a = some o) (hengaged : engaged [a] = 0)
    (hbase : Fit w.loops k t.control t.depth (a :: rest) →
      Fit w.loops k .go t.depth (base ++ rest))
    (hinvocations : invocations (base ++ rest) = invocations (a :: rest))
    (hloop : onLoop (base ++ rest) = false)
    (hbelow : leaseBelow? (.leased o.options :: (base ++ rest)) = some h)
    (hnest : Settles w.nest (leases [a] + (t.control.lease?.toList : Multiset (Nat × Nat)))
      (waits [a]) (asked [a]) nest (leases base) (waits base) (asked base)) :
    IsLocal w k t a rest m := by
  have hsettles : Settles w.nest (leases [a] + (t.control.lease?.toList : Multiset (Nat × Nat)))
      (waits [a]) (asked [a]) nest (leases base + 0 + 0) (waits base) (asked base) := by
    rwa [add_zero, add_zero]
  cases hm with
  | refused error engine hfault =>
    obtain ⟨hactive, hpeak⟩ := Engine.counts_of_takeFault hfault
    refine ⟨.leased o.options :: base, [], rfl, (List.append_nil _).symm, ?_,
      fun _ => .of_same hactive hpeak hinvocations, hsettles, ?_, fun l hl _ => ⟨l, hl, rfl, rfl⟩⟩
    · rw [if_pos (engaged_lt_of_leased List.mem_cons_self hengaged)]
      exact ⟨o, horder, .refused .invoke error (Or.inl rfl) hfault⟩
    · exact fun hfit => (hbase hfit).push_inert hloop rfl (by simp [Thread.give])
  | begun engine i hfault hinvoke =>
    obtain ⟨hframe, houtermost, hprogress, hactive, hpeak⟩ := invoke_spec hinvoke
    refine ⟨.invocation _ :: .leased o.options :: base, [], rfl, (List.append_nil _).symm, ?_, ?_,
      hsettles, ?_, fun l hl _ => ⟨l, hl, rfl, rfl⟩⟩
    · rw [if_pos (engaged_lt_of_leased
        (List.mem_cons_of_mem _ List.mem_cons_self) hengaged)]
      exact ⟨o, horder, given_of_invoke hinvoke⟩
    · intro _
      refine .of_started ?_ (hprogress.trans houtermost.symm) (by rw [hactive, houtermost])
        (by rw [hpeak, houtermost])
      rw [← hinvocations]
      rfl
    · intro hfit
      have hleased : Fit w.loops k .go t.depth (.leased o.options :: (base ++ rest)) :=
        (hbase hfit).push_inert hloop rfl (by simp)
      refine hleased.push_invocation ⟨by simp [onLoop], ?_⟩ (by simp [Thread.goOn])
      intro hdepth
      rw [houtermost] at hdepth
      refine ⟨?_, h, hbelow, by rw [hframe]; rfl⟩
      have hnone : (invocations (base ++ rest)).length = 0 := by
        rw [← (hbase hfit).depth_eq]
        simpa using hdepth
      exact List.eq_nil_of_length_eq_zero hnone

/-- A move among activations of which the innermost keeps its lease, by which a frame is pushed or
popped. -/
theorem isLocal_popping {nest : Nest} {t' : Thread} (new : List Activation)
    (hlength : w.nest.frames.length ≤ nest.frames.length)
    (hnest : ∀ live waiting, w.nest.Accounted live waiting → nest.Accounted live waiting)
    (ha : a.passing) (hnew : new.all Activation.inert) (hs : t'.stack = new ++ rest)
    (hengaged : engaged new ≤ engaged [a]) (hleases : leases new ≤ leases [a])
    (hwaits : waits new = 0) (hasked : asked new = [])
    (hcontrol : t'.control.bare ∨ t'.control = t.control) (hdepth : t'.depth = t.depth) :
    IsLocal w k t a rest ({ w with nest }, t') := by
  refine ⟨new, [], .of_inert new ha hnew hs (by simp) hengaged (.refl _) rfl rfl ?_ rfl
    (hcontrol.imp_left ne_action_of_bare) hdepth⟩
  rw [hwaits, hasked, List.map_nil, List.sum_nil, add_zero]
  exact .of_accounted hlength hnest (add_le_add hleases (leases_le_of_bare hcontrol))
    (Multiset.zero_le _) (by simp)

theorem length_tryLease {n n' : Nest} {frame : Nat} {reading : Bool} {h : Handle}
    (ht : n.tryLease frame reading = some (h, n')) : n'.frames.length = n.frames.length := by
  obtain ⟨⟨a, q⟩, -, heq⟩ := Option.map_eq_some_iff.mp ht
  cases heq
  split <;> simp

theorem Settles.tryLease {n n' : Nest} {frame : Nat} {h : Handle} {before : Multiset (Nat × Nat)}
    (ht : n.tryLease frame false = some (h, n')) :
    Settles n before 0 [] n' {h.lease} 0 [] := by
  refine ⟨le_of_eq (length_tryLease ht).symm, ?_⟩
  intro held queued _ haccounted
  refine ⟨⟨before, 0, ?_⟩, by simp⟩
  rw [zero_add] at haccounted
  rw [zero_add, zero_add, Multiset.singleton_add]
  exact haccounted.tryLease (Nest.lt_of_tryLease ht) ht

/-- Work that waits for a frame keeps waiting on behalf of the same asker. -/
theorem isLocal_entering {nest : Nest} (phase phase' : EnterPhase) (work : PushedWork)
    (hlength : w.nest.frames.length ≤ nest.frames.length)
    (hnest : ∀ live waiting, w.nest.Accounted live waiting → nest.Accounted live waiting) :
    IsLocal w k t (.entering phase work) rest
      ({ w with nest }, t.goOn (.entering phase' work :: rest)) := by
  cases work with
  | request r => exact isLocal_nest [_] rfl rfl rfl hlength hnest rfl rfl
  | order o =>
    refine ⟨[.entering phase' (.order o)], [], rfl, (List.append_nil _).symm, .refl _,
      fun _ => .of_same rfl rfl rfl, ?_, ?_, fun l hl _ => ⟨l, hl, rfl, rfl⟩⟩
    · exact .of_accounted hlength hnest (Multiset.zero_le _) (le_refl _)
        (by simp [asked, Activation.asked?])
    · intro hfit
      have hloop := hfit.sits.1.not_onLoop (by simp)
      have hsits : (Activation.entering phase' (.order o)).SitsOn rest :=
        ⟨fun hon => absurd (hloop.symm.trans hon) (by simp), hfit.sits.1.2⟩
      have hdepth : t.depth = (invocations rest).length := hfit.depth_eq
      rw [Thread.goOn, hdepth]
      exact (hfit.tail (by simp)).push_one hsits rfl rfl (by simp)

/-- What stands below an order that is about to run in a pushed frame. -/
theorem fit_of_entering {phase : EnterPhase} {work : PushedWork} {id : Nat} {h : Handle}
    (hfit : Fit w.loops k t.control t.depth (.entering phase work :: rest)) :
    Fit w.loops k .go t.depth (.pushed id h .looking :: rest) := by
  have hloop := hfit.sits.1.not_onLoop (by simp)
  have hdepth : t.depth = (invocations rest).length := hfit.depth_eq
  rw [hdepth]
  exact (hfit.tail (by simp)).push_one (sitsOn_of_inert rfl hloop) rfl rfl (by simp)

theorem local_vacates {frame : Nat} {h : Handle} {phase : RoomPhase}
    (hm : Vacates w t rest frame h phase m) : IsLocal w k t (.pushed frame h phase) rest m := by
  have hnone : ∀ phase', ({ t with stack := .pushed frame h phase' :: rest } : Thread).stack =
      [.pushed frame h phase'] ++ rest := fun _ => rfl
  cases hm with
  | innermost | covered =>
    exact isLocal_popping [_] (le_refl _) (fun _ _ h => h) rfl rfl (hnone _) (le_refl _) (le_refl _)
      rfl rfl (Or.inr rfl) rfl
  | popped =>
    exact isLocal_popping [_] (le_of_eq (length_popTop _).symm) (fun _ _ => accounted_popTop) rfl
      rfl (hnone _) (le_refl _) (le_refl _) rfl rfl (Or.inr rfl) rfl
  | released hm => exact isLocal_release [] hm rfl rfl rfl rfl rfl rfl (Or.inr rfl) rfl

theorem invocations_ne_nil_of_loop {s : List Activation} {id : Nat} {phase : LoopPhase}
    (h : Sits s) (hmem : .loop id phase ∈ s) : invocations s ≠ [] := by
  induction s with
  | nil => exact absurd hmem List.not_mem_nil
  | cons a rest ih =>
    rcases List.mem_cons.mp hmem with rfl | hmem
    · obtain ⟨i, below, rfl, -⟩ := h.1.2
      simp [invocations]
    · intro hnone
      rw [← List.singleton_append, invocations_append, List.append_eq_nil_iff] at hnone
      exact ih h.2 hmem hnone.2

/-- A debugger takes an instruction without counting it. -/
theorem counts_of_instruction {e e' : Engine} {frame : FrameInfo} {c : Command} {outermost : Bool}
    {action : ResumeAction} (h : e.debuggerCommand frame c outermost = (e', .resume action)) :
    e'.active = e.active ∧ e'.peak = e.peak := by
  unfold Engine.debuggerCommand at h
  dsimp only at h
  split at h <;> cases h
  exact ⟨rfl, rfl⟩

/-- What a debugger invokes counts like any other invocation. -/
theorem counts_of_invocation {e e' : Engine} {frame : FrameInfo} {c : Command} {outermost : Bool}
    {i : Invocation} (h : e.debuggerCommand frame c outermost = (e', .invocation i)) :
    i.outermost = outermost ∧ i.inProgress = outermost ∧
      e'.active = (if outermost then e.active + 1 else e.active) ∧
      e'.peak = if outermost then max e.peak (e.active + 1) else e.peak := by
  unfold Engine.debuggerCommand at h
  dsimp only at h
  split at h <;> cases h
  cases outermost <;> exact ⟨rfl, rfl, rfl, rfl⟩

theorem given_of_debuggerCommand {e e' : Engine} {frame : FrameInfo} {c : Command}
    {outermost : Bool} {move : DebuggerMove}
    (h : e.debuggerCommand frame c outermost = (e', move)) : e.Given c e' := by
  have hgiven : e.Given c (e.debuggerCommand frame c outermost).1 := .commanded frame outermost
  rwa [h] at hgiven

/-- The innermost activation gives way to others that hold nothing, and the engine is given
its order. -/
theorem isLocal_given {w₁ : World} {t' : Thread} {engine : Engine} {o : Order}
    (new : List Activation) (hcore : w₁.core = w.core) (hs : t'.stack = new ++ rest)
    (horder : w.orderAt a = some o)
    (hgiven : w.engine.Given (o.command.prepared o.options) engine)
    (hengaged : engaged [a] < engaged new)
    (hcounts : Counts w.engine (a :: rest) engine (new ++ rest)) (hleases : leases new = 0)
    (hwaits : waits new = 0) (hasked : asked new = []) (hcontrol : t'.control.bare)
    (hfit : Fit w.loops k t.control t.depth (a :: rest) →
      Fit w.loops k t'.control t'.depth (new ++ rest)) :
    IsLocal w k t a rest ({ w₁ with engine }, t') := by
  obtain ⟨-, hnest, hposts, hthreads⟩ := core_iff.mp hcore
  refine ⟨new, [], hs, by simpa using hthreads, ?_, fun _ => hcounts, ?_, ?_, ?_⟩
  · rw [if_pos hengaged]
    exact ⟨o, horder, hgiven⟩
  · rw [hleases, hwaits, hasked, lease_of_bare hcontrol]
    exact hnest ▸ .keep (Multiset.zero_le _) (Multiset.zero_le _) (by simp)
  · intro h
    have hreposted := (hfit h).repost hposts
    exact hreposted
  · exact fun l' hl' _ => exists_post hposts l' hl'

theorem leases_cons_of_none {base : List Activation} {b : Activation} (h : b.lease? = none) :
    leases (b :: base) = leases base := by
  rw [leases, List.filterMap_cons_none h, leases]

theorem waits_cons_of_none {base : List Activation} {b : Activation} (h : b.wait? = none) :
    waits (b :: base) = waits base := by
  rw [waits, List.filterMap_cons_none h, waits]

theorem asked_cons_of_none {base : List Activation} {b : Activation} (h : b.asked? = none) :
    asked (b :: base) = asked base :=
  List.filterMap_cons_none h

/-- The innermost activation gives way to others that hold nothing. -/
theorem isLocal_giving {w₁ : World} {t' : Thread} (new : List Activation)
    (hcore : w₁.core = w.core) (hs : t'.stack = new ++ rest) (hengaged : engaged new ≤ engaged [a])
    (hinvocations : invocations (new ++ rest) = invocations (a :: rest)) (hleases : leases new = 0)
    (hwaits : waits new = 0) (hasked : asked new = []) (hcontrol : t'.control.bare)
    (hfit : Fit w.loops k t.control t.depth (a :: rest) →
      Fit w.loops k t'.control t'.depth (new ++ rest)) : IsLocal w k t a rest (w₁, t') := by
  obtain ⟨hengine, hnest, hposts, hthreads⟩ := core_iff.mp hcore
  refine ⟨new, [], hs, by simpa using hthreads, ?_,
    fun _ => .of_same (by rw [hengine]) (by rw [hengine]) hinvocations, ?_,
    fun h => (hfit h).repost hposts, fun l' hl' _ => exists_post hposts l' hl'⟩
  · rw [if_neg (Nat.not_lt.mpr hengaged), hengine]
    exact .refl _
  · rw [hleases, hwaits, hasked, lease_of_bare hcontrol, hnest]
    exact .keep (Multiset.zero_le _) (Multiset.zero_le _) (by simp)

section InLoop

variable {w₁ : World} {base : List Activation} {o : Order}

/-- The innermost activation gives way to `base`, on which an order is run as in a loop. The
thread of a loop is inside the engine already, so what a debugger invokes is not outermost. -/
theorem local_obeys (base : List Activation) {l : MessageLoop}
    (hm : Obeys w₁ t (base ++ rest) l o m) (hcore : w₁.core = w.core)
    (horder : w.orderAt a = some o) (hengaged : engaged [a] = 0) (hengaged' : engaged base = 0)
    (hbase : Fit w.loops k t.control t.depth (a :: rest) →
      Fit w.loops k .go t.depth (base ++ rest) ∧ invocations (base ++ rest) ≠ [])
    (hinvocations : invocations (base ++ rest) = invocations (a :: rest))
    (hloop : onLoop (base ++ rest) = false) (hasker : (asker? 0 (base ++ rest)).isSome)
    (hleases : leases base = 0) (hwaits : waits base = 0) (hasked : asked base = []) :
    IsLocal w k t a rest m := by
  obtain ⟨hengine, -, -, -⟩ := core_iff.mp hcore
  have hleases' : leases (.inLoop l.id o.options :: base) = 0 :=
    (leases_cons_of_none rfl).trans hleases
  have hwaits' : waits (.inLoop l.id o.options :: base) = 0 :=
    (waits_cons_of_none rfl).trans hwaits
  have hasked' : asked (.inLoop l.id o.options :: base) = [] :=
    (asked_cons_of_none rfl).trans hasked
  have hanswered : ∀ {engine : Engine} (r : Except EngineError DebuggerResult),
      w.engine.Given (o.command.prepared o.options) engine →
      engine.active = w.engine.active → engine.peak = w.engine.peak →
      IsLocal w k t a rest
        ({ w₁ with engine }, t.give (.inLoop l.id o.options :: (base ++ rest)) (.debugged r)) := by
    intro engine r hgiven hactive hpeak
    refine isLocal_given (.inLoop l.id o.options :: base) hcore rfl horder hgiven
      (engaged_lt_of_inLoop List.mem_cons_self hengaged) (.of_same hactive hpeak hinvocations)
      hleases' hwaits' hasked' rfl ?_
    intro hfit
    exact (hbase hfit).1.push_one (sitsOn_of_inert rfl hloop) rfl rfl (by simp [Thread.give])
  cases hm with
  | forbidden hkind h =>
    refine isLocal_giving base hcore rfl (by omega) hinvocations hleases hwaits hasked rfl ?_
    have hnone : ([] : List Activation).all Activation.inert = true := rfl
    exact fun hfit => (hbase hfit).1.push hloop hnone (by simp [Thread.give])
  | entered hkind =>
    refine isLocal_giving (.entering .pushing (.order o) :: base) hcore rfl ?_ hinvocations
      ((leases_cons_of_none rfl).trans hleases) ((waits_cons_of_none rfl).trans hwaits)
      ((asked_cons_of_none rfl).trans hasked) rfl ?_
    · have hsame : engaged (.entering .pushing (.order o) :: base) = engaged base := by
        simp [engaged]
      omega
    · intro hfit
      have hsits : (Activation.entering .pushing (.order o)).SitsOn (base ++ rest) :=
        ⟨fun hon => absurd (hloop.symm.trans hon) (by simp), hasker⟩
      exact (hbase hfit).1.push_one hsits rfl rfl (by simp [Thread.goOn])
  | refused error engine hkind hfault =>
    rw [hengine] at hfault
    obtain ⟨hactive, hpeak⟩ := Engine.counts_of_takeFault hfault
    exact hanswered _ (.refused .debuggerCommand error (Or.inr rfl) hfault) hactive hpeak
  | resumed engine action hkind hfault hcommand =>
    rw [hengine] at hcommand
    obtain ⟨hactive, hpeak⟩ := counts_of_instruction hcommand
    exact hanswered _ (given_of_debuggerCommand hcommand) hactive hpeak
  | begun engine i hkind hfault hcommand =>
    rw [hengine] at hcommand
    obtain ⟨houtermost, hprogress, hactive, hpeak⟩ := counts_of_invocation hcommand
    refine isLocal_given (.invocation i :: .debuggerCommand :: .inLoop l.id o.options :: base)
      hcore rfl horder (given_of_debuggerCommand hcommand) ?_ ?_ ?_ ?_ ?_ rfl ?_
    · exact engaged_lt_of_inLoop
        (List.mem_cons_of_mem _ (List.mem_cons_of_mem _ List.mem_cons_self)) hengaged
    · refine .of_started ?_ (hprogress.trans houtermost.symm) (by rw [hactive, houtermost])
        (by rw [hpeak, houtermost])
      rw [← hinvocations]
      rfl
    · rw [leases_cons_of_none rfl, leases_cons_of_none rfl, hleases']
    · rw [waits_cons_of_none rfl, waits_cons_of_none rfl, hwaits']
    · rw [asked_cons_of_none rfl, asked_cons_of_none rfl, hasked']
    · intro hfit
      obtain ⟨hfitted, hinner⟩ := hbase hfit
      have hmarked : Fit w.loops k .go t.depth (.inLoop l.id o.options :: (base ++ rest)) :=
        hfitted.push_inert hloop rfl (by simp)
      have hpushed : Fit w.loops k .go t.depth
          (.debuggerCommand :: .inLoop l.id o.options :: (base ++ rest)) :=
        hmarked.push_inert rfl rfl (by simp)
      refine hpushed.push_invocation ⟨by simp [onLoop], ?_⟩ (by simp [Thread.goOn])
      intro hdepth
      rw [houtermost] at hdepth
      have hnone : (invocations (base ++ rest)).length = 0 := by
        rw [← hfitted.depth_eq]
        simpa using hdepth
      exact absurd (List.eq_nil_of_length_eq_zero hnone) hinner

end InLoop

/-- A loop that goes on in another phase. -/
theorem isLocal_loop {w' : World} {t' : Thread} {id : Nat} {phase : LoopPhase} (phase' : LoopPhase)
    (hpumps : phase.pumps = true → phase'.pumps = true) (hcore : w'.core = w.core)
    (hs : t'.stack = .loop id phase' :: rest) (hcontrol : t'.control = .go)
    (hdepth : t'.depth = t.depth) : IsLocal w k t (.loop id phase) rest (w', t') := by
  refine isLocal_giving [.loop id phase'] hcore hs (le_refl _) rfl rfl rfl rfl
    (by rw [hcontrol]; rfl) ?_
  intro hfit
  rw [hcontrol, hdepth]
  exact hfit.pump hpumps

/-- A loop that is closed. -/
theorem isLocal_closing {nest : Nest} {t' : Thread} {l : MessageLoop} {phase : LoopPhase}
    (new : List Activation) (hnew : new = [] ∨ ∃ action, new = [.loop l.id (.resuming action)])
    (hlength : w.nest.frames.length ≤ nest.frames.length)
    (hnest : ∀ live waiting, w.nest.Accounted live waiting → nest.Accounted live waiting)
    (hs : t'.stack = new ++ rest) (hcontrol : t'.control.bare ∧ ∀ p, t'.control ≠ .unwind p)
    (hdepth : t'.depth = t.depth) :
    IsLocal w k t (.loop l.id phase) rest
      ({ w with nest, loops := w.loops.filter (·.id != l.id) }, t') := by
  have hempty : leases new = 0 ∧ waits new = 0 ∧ asked new = [] ∧ engaged new = 0 ∧
      invocations new = [] := by
    rcases hnew with rfl | ⟨action, rfl⟩ <;> exact ⟨rfl, rfl, rfl, rfl, rfl⟩
  obtain ⟨hleases, hwaits, hasked, hengaged, hinvocations⟩ := hempty
  have hsame : invocations (new ++ rest) = invocations (.loop l.id phase :: rest) := by
    rw [invocations_append, hinvocations]
    rfl
  refine ⟨new, [], hs, (List.append_nil _).symm, ?_, fun _ => .of_same rfl rfl hsame, ?_, ?_, ?_⟩
  · rw [hengaged, if_neg (Nat.not_lt_zero _)]
    exact .refl _
  · rw [hleases, hwaits, hasked, lease_of_bare hcontrol.1]
    exact .of_accounted hlength hnest (Multiset.zero_le _) (Multiset.zero_le _) (by simp)
  · intro hfit
    have hrest := hfit.sits.1.not_onLoop (by simp)
    refine ⟨?_, fun _ p => hcontrol.2 p,
      fun action haction => absurd haction (ne_action_of_bare hcontrol.1 action), ?_, ?_⟩
    · rcases hnew with rfl | ⟨action, rfl⟩
      · exact hfit.sits.2
      · exact ⟨⟨fun hon => absurd (hrest.symm.trans hon) (by simp), hfit.sits.1.2⟩, hfit.sits.2⟩
    · rw [hdepth, hfit.depth_eq, hsame]
    · intro l' hl' hthread
      obtain ⟨hl', hne⟩ := List.mem_filter.mp hl'
      obtain ⟨phase', hmem, hpumps⟩ := hfit.manned l' hl' hthread
      rcases List.mem_cons.mp hmem with heq | hmem
      · rw [(Activation.loop.inj heq).1] at hne
        simp at hne
      · exact ⟨phase', List.mem_append_right new hmem, hpumps⟩
  · exact fun l' hl' _ => ⟨l', (List.mem_filter.mp hl').1, rfl, rfl⟩

theorem local_closes {nest : Nest} {l : MessageLoop} {signal : Signal} {phase : LoopPhase}
    (hlength : w.nest.frames.length ≤ nest.frames.length)
    (hnest : ∀ live waiting, w.nest.Accounted live waiting → nest.Accounted live waiting)
    (hm : Closes { w with nest } t rest l signal m) : IsLocal w k t (.loop l.id phase) rest m := by
  cases hm with
  | debugger =>
    exact isLocal_closing [_] (Or.inr ⟨_, rfl⟩) hlength hnest rfl ⟨rfl, by simp [Thread.goOn]⟩ rfl
  | prompt =>
    exact isLocal_closing [] (Or.inl rfl) hlength hnest rfl ⟨rfl, by simp [Thread.give]⟩ rfl

/-- A loop that was closed hands the debugger's action to the invocation it sits on. -/
theorem isLocal_resuming {w' : World} {id : Nat} (action : ResumeAction)
    (hcore : w'.core = w.core) :
    IsLocal w k t (.loop id (.resuming action)) rest (w', t.give rest (.action action)) := by
  obtain ⟨hengine, hnest, hposts, hthreads⟩ := core_iff.mp hcore
  refine ⟨[], [], rfl, by simpa using hthreads, hengine ▸ .refl _,
    fun _ => .of_same (by rw [hengine]) (by rw [hengine]) rfl, ?_, ?_,
    fun l' hl' _ => exists_post hposts l' hl'⟩
  · exact hnest ▸ .keep (Multiset.zero_le _) (le_refl _) (by simp [asked, Activation.asked?])
  · intro hfit
    obtain ⟨i, below, rfl, hprogress⟩ := hfit.sits.1.2
    have hmanned : ∀ l ∈ w.loops, l.thread = k →
        ∃ phase, .loop l.id phase ∈ Activation.invocation i :: below ∧ phase.pumps = true := by
      intro l hl hthread
      obtain ⟨phase, hmem, hpumps⟩ := hfit.manned l hl hthread
      rcases List.mem_cons.mp hmem with heq | hmem
      · cases heq
        cases hpumps
      · exact ⟨phase, hmem, hpumps⟩
    have hleft : Fit w.loops k (.back (.action action)) t.depth (.invocation i :: below) :=
      ⟨hfit.sits.2, by simp, fun _ _ => ⟨i, below, rfl, hprogress⟩, hfit.depth_eq, hmanned⟩
    exact hleft.repost hposts

theorem orderAt_loop {l : MessageLoop} {r : Request} {requests : List Request} {phase : LoopPhase}
    (hl : w.findLoop l.id = some l) (hr : l.requests = r :: requests) :
    w.orderAt (.loop l.id phase) = some (.ofRequest r) := by
  simp [World.orderAt, hl, hr]

theorem subscribeIdle_spec (e : Engine) :
    e.Aside e.subscribeIdle.2 ∧ e.subscribeIdle.2.active = e.active ∧
      e.subscribeIdle.2.peak = e.peak := by
  unfold Engine.subscribeIdle
  split
  · next hfault =>
    obtain ⟨hactive, hpeak⟩ := Engine.counts_of_takeFault hfault
    exact ⟨Engine.aside_takeFault hfault (by simp) (by simp), hactive, hpeak⟩
  · exact ⟨.of_same rfl rfl, rfl, rfl⟩

/-- What ran an order in the engine comes to its reply. -/
theorem isLocal_completed {w' : World} {t' : Thread} (ha : a.passing) (hs : t'.stack = rest)
    (hcore : w'.core = w.core) (hcontrol : t'.control.bare) (hdepth : t'.depth = t.depth) :
    IsLocal w k t a rest (w', t') :=
  isLocal_holding [] ha rfl hs hcore (Nat.zero_le _) (Multiset.zero_le _) rfl rfl hcontrol hdepth

/-- A request ends with a reply or with the panic it caught, and nothing goes on from there. -/
theorem isLocal_request {id : Nat} (f : Cell → Cell) :
    IsLocal w k t (.request id) rest (w.setCell id f, t.give rest .unit) := by
  refine isLocal_giving [] rfl rfl (le_refl _) rfl rfl rfl rfl rfl ?_
  intro hfit
  have htail := hfit.tail (by simp)
  refine ⟨htail.sits, by simp [Thread.give], by simp [Thread.give], hfit.depth_eq, htail.manned⟩

theorem local_onward {a' : Activation} (h : Onward w a a') :
    IsLocal w k t a rest (w, t.goOn (a' :: rest)) := by
  cases h with
  | exec o hnext =>
    cases hnext with
    | owned | unowned | popped | standing =>
      exact isLocal_holding [_] rfl rfl rfl rfl (le_refl _) (le_refl _) rfl rfl rfl rfl
    | _ => exact isLocal_calm [_] rfl rfl rfl rfl rfl rfl
  | unleased | innermost | covered => exact isLocal_entering _ _ _ (le_refl _) fun _ _ h => h
  | pumped | emptied | refilled => exact isLocal_loop _ (fun _ => rfl) rfl rfl rfl rfl
  | chose =>
    exact ⟨[_], [], .of_inert [_] rfl rfl rfl (by simp) (le_refl _) (.refl _) rfl rfl
      Settles.choose rfl (Or.inl (by simp [Thread.goOn])) rfl⟩
  | _ => exact isLocal_calm [_] rfl rfl rfl rfl rfl rfl

theorem local_ended {o : Outcome} (h : Ends w a o) : IsLocal w k t a rest (w, t.give rest o) := by
  cases h with
  | replied o phase id r hphase =>
    rcases hphase with rfl | rfl <;> exact isLocal_calm [] rfl rfl rfl rfl rfl rfl
  | _ => exact isLocal_calm [] rfl rfl rfl rfl rfl rfl

theorem LoopPhase.Takes.pumps {phase next : LoopPhase} (h : phase.Takes next) :
    next.pumps = true :=
  h.spec.1.2

theorem local_goes (hm : Goes w k t rest a m) : IsLocal w k t a rest m := by
  have hcalm : ∀ {w' : World} {t' : Thread} (new : List Activation), a.simple →
      new.all Activation.simple → t'.stack = new ++ rest → w'.core = w.core →
      t'.control.bare → t'.depth = t.depth → IsLocal w k t a rest (w', t') :=
    fun new => isLocal_calm new
  have hadvanced : ∀ {i i' : Invocation} {engine : Engine} {move : Move},
      i.step w.engine = (engine, move) → move.invocation? = some i' →
      IsLocal w k t (.invocation i) rest ({ w with engine }, t.goOn (.invocation i' :: rest)) := by
    intro i i' engine move h hmove
    have hstep := h ▸ i.stepped w.engine
    obtain ⟨hframe, houtermost, hcounts⟩ := hstep.advanced i' hmove
    exact isLocal_invocation [] rfl rfl rfl hstep.aside hstep.peak_same hframe houtermost
      (fun _ => hcounts) rfl rfl
  cases hm with
  | onward h => exact local_onward h
  | ended h => exact local_ended h
  | advanced i i' engine h => exact hadvanced h rfl
  | slept i i' ms engine h => exact hadvanced h rfl
  | called i i' c engine h hm => exact local_calls (h ▸ i.stepped w.engine) hm
  | finished i r engine h =>
    have hstep := h ▸ i.stepped w.engine
    exact isLocal_left rfl hstep.aside (hstep.left rfl) hstep.peak_same rfl rfl
  | crashed i p engine h =>
    have hstep := h ▸ i.stepped w.engine
    exact isLocal_left rfl hstep.aside (hstep.left rfl) hstep.peak_same rfl rfl
  | pushed work => exact isLocal_entering _ _ work (length_push _ _) fun _ _ h => h.push _
  | enteredRequest frame r h nest hlease hm =>
    refine isLocal_invoke [.request r.id, .pushed frame h .looking] hm rfl rfl ?_ rfl rfl rfl
      (.tryLease hlease)
    intro hfit
    exact (fit_of_entering hfit).push_one ⟨by simp [onLoop], trivial⟩ rfl rfl (by simp)
  | enteredOrder frame o h nest hlease hm =>
    exact isLocal_invoke [.pushed frame h .looking] hm rfl rfl fit_of_entering rfl rfl rfl
      (.tryLease hlease)
  | leftUnused frame work =>
    exact isLocal_entering _ _ work (le_of_eq (length_popTop _).symm) fun _ _ => accounted_popTop
  | abandoned r => exact isLocal_completed rfl rfl rfl rfl rfl
  | unhandled o => exact isLocal_completed rfl rfl rfl rfl rfl
  | announced | published | interruptedReads =>
    exact isLocal_loop _ (fun _ => rfl) rfl rfl rfl rfl
  | skipped l r requests hl hr hphase =>
    exact isLocal_loop _ (fun _ => hphase.pumps) (core_updateLoop w l.id fun _ => ⟨rfl, rfl⟩) rfl
      rfl rfl
  | @taken l r requests phase next _ hl hr hphase hcancelled hm =>
    refine local_obeys [.request r.id, .loop l.id next] hm
      (core_updateLoop w l.id fun _ => ⟨rfl, rfl⟩) (orderAt_loop hl hr) rfl rfl ?_ rfl rfl rfl rfl
      rfl rfl
    intro hfit
    have hloop : Fit w.loops k .go t.depth (.loop l.id next :: rest) :=
      hfit.pump fun _ => hphase.pumps
    refine ⟨hloop.push_one ⟨fun _ => ⟨r.id, rfl⟩, trivial⟩ rfl rfl (by simp), ?_⟩
    exact invocations_ne_nil_of_loop (s := .loop l.id next :: rest) hloop.sits List.mem_cons_self
  | consumed l | locked l =>
    exact isLocal_loop _ (fun _ => rfl) (core_updateLoop w l.id fun _ => ⟨rfl, rfl⟩) rfl rfl rfl
  | closedCovered l signal hl hr htop hm =>
    exact local_closes (le_refl w.nest.frames.length) (fun _ _ h => h) hm
  | closed l signal hl hm =>
    exact local_closes (le_of_eq (length_popTop w.nest).symm) (fun _ _ => accounted_popTop) hm
  | stayed | resumed => exact isLocal_resuming _ rfl
  | granted token forReading frame invoker nest h =>
    exact isLocal_answered [_] h rfl rfl rfl rfl rfl rfl rfl rfl
  | again token forReading frame what nest h =>
    exact isLocal_answered [_] h rfl rfl rfl rfl rfl rfl rfl rfl
  | failed token forReading frame e nest h =>
    exact isLocal_answered [] h rfl rfl rfl rfl rfl rfl rfl rfl
  | lined token forReading frame ticket nest h =>
    exact isLocal_answered [_] h rfl rfl rfl rfl rfl rfl rfl rfl
  | leased => exact isLocal_leased
  | inlined o l loops hl hself hm =>
    refine local_obeys [.exec o .inline] hm rfl rfl rfl rfl ?_ rfl rfl rfl rfl rfl rfl
    intro hfit
    obtain ⟨phase, hmem, -⟩ := hfit.manned l (by simp [hl]) hself
    have hbelow : .loop l.id phase ∈ rest := loop_mem_rest (by simp) hmem
    have hloop := hfit.sits.1.not_onLoop (by simp)
    have hdepth : t.depth = (invocations rest).length := hfit.depth_eq
    have hne : invocations rest ≠ [] := invocations_ne_nil_of_loop hfit.sits.2 hbelow
    refine ⟨?_, hne⟩
    rw [hdepth]
    exact (hfit.tail (by simp)).push_one (sitsOn_of_inert rfl hloop) rfl rfl (by simp)
  | posted o l =>
    exact hcalm [_] rfl rfl rfl (core_updateLoop w.newCell.2 l.id fun _ => ⟨rfl, rfl⟩) rfl rfl
  | subscribed o id h =>
    obtain ⟨haside, hactive, hpeak⟩ := subscribeIdle_spec w.engine
    exact isLocal_engine [_] rfl rfl rfl haside hactive hpeak rfl rfl
  | unowned o h hm => exact isLocal_release [] hm rfl rfl rfl rfl rfl rfl (Or.inl rfl) rfl
  | rerouted o h hm => exact isLocal_release [_] hm rfl rfl rfl rfl rfl rfl (Or.inl rfl) rfl
  | spawned o h => exact isLocal_spawning (h := h) [_] _ rfl rfl rfl rfl rfl rfl rfl
  | registered token h =>
    exact isLocal_holding [_] rfl rfl rfl rfl (le_refl _) (le_refl _) rfl rfl rfl rfl
  | readSpawned token h read =>
    exact isLocal_spawning (h := h) [_] _ rfl rfl rfl rfl rfl rfl rfl
  | lineRead => exact isLocal_engine [] rfl rfl rfl (.of_same rfl rfl) rfl rfl rfl rfl
  | tickRan read hticks h hidle hm =>
    exact isLocal_picks hm rfl rfl (le_refl _) (le_refl _) rfl rfl
  | readRefused h read e engine hfault =>
    obtain ⟨hactive, hpeak⟩ := Engine.counts_of_takeFault hfault
    exact isLocal_reader [_] rfl rfl rfl (Engine.aside_takeFault hfault (by simp) (by simp))
      hactive hpeak (le_refl _) (fun _ _ h => h) rfl rfl rfl rfl rfl
  | readBegun =>
    exact isLocal_reader [_, _] rfl rfl rfl (Engine.aside_record rfl) rfl rfl (le_refl _)
      (fun _ _ h => h) rfl rfl rfl rfl rfl
  | unmarked h =>
    exact isLocal_reader [_] rfl rfl rfl (.refl _) rfl rfl (by simp)
      (fun _ _ h' => h'.endReading h) rfl rfl rfl rfl rfl
  | drained h read r hm => exact isLocal_picks hm rfl rfl (le_refl _) (le_refl _) rfl rfl
  | unregistered =>
    exact isLocal_holding [_] rfl rfl rfl rfl (le_refl _) (le_refl _) rfl rfl rfl rfl
  | readReleased h read r hm =>
    exact isLocal_release [] hm rfl rfl rfl rfl rfl rfl (Or.inl rfl) rfl
  | started h o hm =>
    have hsubmits : Submits { w with nest := w.nest } t ([.worker h] ++ rest) h.invoker o m := hm
    refine isLocal_invoke [.worker h] hsubmits rfl rfl ?_ rfl rfl rfl ?_
    · intro hfit
      have hloop := hfit.sits.1.not_onLoop (by simp)
      have hdepth : t.depth = (invocations rest).length := hfit.depth_eq
      rw [hdepth]
      exact (hfit.tail (by simp)).push_one (sitsOn_of_inert rfl hloop) rfl rfl (by simp)
    · exact .keep (Multiset.le_add_right _ _) (le_refl _) (by simp [asked, Activation.asked?])
  | framePushed =>
    exact isLocal_nest [_] rfl rfl rfl (length_push _ _) (fun _ _ h => h.push _) rfl rfl
  | framePopped reason frame nest h =>
    exact isLocal_nest [_] rfl rfl rfl (le_of_eq (length_pop h).symm) (fun _ _ h' => h'.pop h) rfl
      rfl
  | recorded r previous =>
    refine hcalm [_] rfl rfl rfl ?_ rfl rfl
    unfold World.addRunspace
    split <;> rfl
  | polled r engine h | broken what engine h =>
    obtain ⟨haside, hactive, hpeak⟩ := details_spec h
    exact isLocal_engine [_] rfl rfl rfl haside hactive hpeak rfl rfl
  | unpolled e engine h =>
    obtain ⟨haside, hactive, hpeak⟩ := details_spec h
    exact isLocal_engine [] rfl rfl rfl haside hactive hpeak rfl rfl
  | stoppedDebugger =>
    obtain ⟨haside, hactive, hpeak⟩ := stopCommand_spec w.operations w.engine
    exact isLocal_engine [_] rfl rfl rfl haside hactive hpeak rfl rfl
  | stopped | engineStopped =>
    exact isLocal_engine [_] rfl rfl rfl (.of_same rfl rfl) rfl rfl rfl rfl
  | abortSignalled kind signal h => exact hcalm [_] rfl rfl rfl h.core rfl rfl
  | disposeSignalled id kind loops h => exact hcalm [_] rfl rfl rfl h.core rfl rfl
  | turnedAway | gaveUp | withdrawn | underflowed | pushPublished | basePopped | popPublished
  | abortInterrupted | readsInterrupted => exact hcalm [] rfl rfl rfl rfl rfl rfl
  | remote | vacant | interrupted | reclaimed | joined | readAsked | leaseAsked | unwinding =>
    exact hcalm [_, _] rfl rfl rfl rfl rfl rfl
  | _ => exact hcalm [_] rfl rfl rfl rfl rfl rfl

theorem local_receives {o : Outcome} (hback : t.control = .back o)
    (hm : Receives w t rest o a m) : IsLocal w k t a rest m := by
  cases hm with
  | resumed i i' action engine h =>
    obtain ⟨haside, hactive, hpeak, hframe, houtermost, hphase⟩ := i.resume_spec w.engine action
    rw [h] at haside hactive hpeak hframe houtermost hphase
    refine isLocal_invocation [] rfl rfl rfl haside hpeak hframe houtermost ?_ rfl rfl
    intro hfit
    obtain ⟨i', below, heq, hprogress⟩ := hfit.acted action hback
    cases heq
    refine Or.inl ⟨?_, hactive⟩
    rw [Invocation.inProgress_of_phase hphase, houtermost, hprogress]
  | invocation =>
    exact isLocal_invocation [] rfl rfl rfl (.refl _) rfl rfl rfl (fun _ => Or.inl ⟨rfl, rfl⟩) rfl
      rfl
  | loop => exact isLocal_loop _ id rfl rfl rfl rfl
  | leased options r h => exact isLocal_completed rfl rfl h.core rfl rfl
  | signalled loop options output action h => exact isLocal_completed rfl rfl h.core rfl rfl
  | reported loop options e what he h => exact isLocal_completed rfl rfl h.core rfl rfl
  | inLoop | failedInLoop => exact isLocal_completed rfl rfl rfl rfl rfl
  | pushed frame h hm => exact local_vacates hm
  | request => exact isLocal_request _
  | onLoop | offLoop | readLeased =>
    exact isLocal_taking [_] rfl rfl rfl hback (le_refl _) rfl rfl rfl rfl rfl
  | handleTask => exact ⟨[], [], .of_calm [] rfl rfl rfl rfl (Or.inr hback.symm) rfl⟩
  | worker h hm => exact isLocal_release [] hm rfl rfl rfl rfl rfl rfl (Or.inr rfl) rfl
  | read | drained =>
    exact isLocal_holding [_] rfl rfl rfl rfl (le_refl _) (le_refl _) rfl rfl rfl rfl
  | reading | popped => exact isLocal_calm [_] rfl rfl rfl rfl rfl rfl
  | _ => exact isLocal_calm [] rfl rfl rfl rfl rfl rfl

theorem local_unwinds {p : Panic} (hunwind : t.control = .unwind p)
    (hm : Unwinds w t rest p a m) : IsLocal w k t a rest m := by
  cases hm with
  | invocation => exact isLocal_left rfl (.refl _) rfl rfl rfl rfl
  | pushed frame h hm => exact local_vacates hm
  | request => exact isLocal_request _
  | idleRun => exact isLocal_calm [] rfl rfl rfl rfl rfl rfl
  | worker h hm => exact isLocal_release [] hm rfl rfl rfl rfl rfl rfl (Or.inl rfl) rfl
  | readWorker h read phase hm =>
    exact isLocal_release [] hm rfl rfl rfl rfl rfl rfl (Or.inl rfl) rfl
  | other ha =>
    cases a with
    | invocation | request => cases ha
    | loop id phase =>
      refine isLocal_giving [] rfl rfl (le_refl _) rfl rfl rfl rfl rfl ?_
      exact fun hfit => absurd hunwind (hfit.calm rfl p)
    | _ => exact isLocal_completed rfl rfl rfl rfl rfl

theorem local_of_moves (hm : m ∈ t.moves w k) :
    ∃ a rest, t.stack = a :: rest ∧ IsLocal w k t a rest m := by
  obtain ⟨a, rest, hs, hturn⟩ := turn_of_moves hm
  refine ⟨a, rest, hs, ?_⟩
  cases hturn with
  | goes hgo h => exact local_goes h
  | receives o hback h => exact local_receives hback h
  | unwinds p hunwind h => exact local_unwinds hunwind h

end Moves

end ScriptHost.Service
