import ScriptHost.Proofs.LocalOfMoves
import ScriptHost.Proofs.OrderOwnership

/-!
Threads along a run. Every thread of every world that a run comes to is fit, and so what
a step does to the engine can be told: a step that hands an order over gives the engine
that order's command, prepared for that order's options, and no other step gives it one.
-/

namespace ScriptHost.Service

/-- What a client does at once leaves the threads, the posts and the counts of the engine, and
gives the engine no command. -/
structure Client (w w' : World) : Prop where
  aside : w.engine.Aside w'.engine
  active_same : w'.engine.active = w.engine.active
  peak_same : w'.engine.peak = w.engine.peak
  length_le : w.nest.frames.length ≤ w'.nest.frames.length
  accounted : ∀ live waiting, w.nest.Accounted live waiting → w'.nest.Accounted live waiting
  posts_same : w'.posts = w.posts
  threads_same : w'.threads = w.threads

theorem Client.of_core {w w' : World} (h : w'.core = w.core) : Client w w' := by
  obtain ⟨hengine, hnest, hposts, hthreads⟩ := core_iff.mp h
  exact ⟨hengine ▸ .refl _, by rw [hengine], by rw [hengine], by rw [hnest],
    by rw [hnest]; exact fun _ _ h => h, hposts, hthreads⟩

theorem Client.of_engine {w : World} {engine : Engine} (h : w.engine.Aside engine)
    (hactive : engine.active = w.engine.active) (hpeak : engine.peak = w.engine.peak) :
    Client w { w with engine } :=
  ⟨h, hactive, hpeak, le_refl _, fun _ _ h => h, rfl, rfl⟩

theorem client_of_act {w : World} {s : Clients.Step} (hs : s.atOnce = true) :
    Client w (Clients.act w s).2 := by
  cases s with
  | input line => exact .of_engine (.of_same rfl rfl) rfl rfl
  | cancel token => exact .of_core rfl
  | openGate gate => exact .of_core rfl
  | resume action => exact .of_core (signals_signalInnermost w _ _).core
  | exitPrompt => exact .of_core (signals_signalInnermost w _ _).core
  | pause =>
    simp only [Clients.act, World.pause, Operations.pause]
    split
    · exact .of_engine (.of_same rfl rfl) rfl rfl
    · exact .of_core rfl
  | pushFrame kind =>
    exact ⟨.refl _, rfl, rfl, length_push _ _, fun _ _ h => h.push kind, rfl, rfl⟩
  | popFrame =>
    simp only [Clients.act, Clients.popFrame]
    split
    · next hpop =>
      exact ⟨.refl _, rfl, rfl, le_of_eq (length_pop hpop).symm, fun _ _ h => h.pop hpop, rfl, rfl⟩
    · exact .of_core rfl
  | unsubscribe => exact .of_engine (.of_same rfl rfl) rfl rfl
  | ticks on => exact .of_core rfl
  | fault call e =>
    refine .of_engine ⟨rfl, ?_⟩ rfl rfl
    simp only [Engine.refusals, List.filter_append]
    exact List.prefix_append _ _
  | exec | readLine | lease | drop | release | abort | dispose | pushRunspace | popRunspace =>
    cases hs

theorem dropTask_spec {w : World} {k : Nat} {t : Thread} (ht : w.threads[k]? = some t) :
    (w.dropTask k).engine = w.engine ∧ (w.dropTask k).loops = w.loops ∧
      (w.dropTask k).threads = w.threads.set k { t with control := .dropped, stack := [] } := by
  simp only [World.dropTask, ht]
  split <;> exact ⟨rfl, rfl, rfl⟩

theorem releaseLease_spec (w : World) (k : Nat) :
    w.releaseLease k = w ∨ ∃ t h, w.threads[k]? = some t ∧ t.stack = [] ∧
      t.control = .back (.lease (.ok h)) ∧ (w.releaseLease k).engine = w.engine ∧
      (w.releaseLease k).loops = w.loops ∧ (w.releaseLease k).nest = (w.nest.release h).1 ∧
      (w.releaseLease k).threads = w.threads.set k { t with control := .dropped } := by
  unfold World.releaseLease
  cases hlease : w.leaseOf k with
  | none => exact Or.inl rfl
  | some h =>
    obtain ⟨t, ht, hstack, hcontrol⟩ := result_of_leaseOf hlease
    exact Or.inr ⟨t, h, ht, hstack, hcontrol, rfl, rfl, rfl, modify_eq_set _ ht⟩

/-- Every thread is fit, and loops are registered for threads that were started. -/
structure World.Fitted (w : World) : Prop where
  fit : ∀ k t, w.threads[k]? = some t → Fit w.loops k t.control t.depth t.stack
  made : ∀ l ∈ w.loops, l.thread < w.threads.length

section Fitted

variable {w w' : World}

theorem Fit.nil {loops : List MessageLoop} {k : Nat} {c : Control} {depth : Nat}
    (hdepth : depth = 0) (hloops : ∀ l ∈ loops, l.thread ≠ k)
    (hacted : ∀ action, c ≠ .back (.action action)) : Fit loops k c depth [] :=
  ⟨trivial, by simp [onLoop], fun action haction => absurd haction (hacted action), hdepth,
    fun l hl hthread => absurd hthread (hloops l hl)⟩

/-- A thread that was just started. -/
theorem Fit.newly {loops : List MessageLoop} {k : Nat} {t : Thread} (h : Exchange.Newly t)
    (hloops : ∀ l ∈ loops, l.thread ≠ k) : Fit loops k t.control t.depth t.stack := by
  have hempty : Fit loops k .go 0 [] := .nil rfl hloops (by simp)
  cases h with
  | called hentry => cases hentry <;> exact hempty.push_inert rfl rfl (by simp)
  | reader handle read => exact hempty.push_inert rfl rfl (by simp)
  | worker handle o => exact hempty.push_inert rfl rfl (by simp)

/-- One thread changes and others are started. -/
theorem World.Fitted.of_set (h : w.Fitted) {k : Nat} {t' : Thread} {started : List Thread}
    (hk : k < w.threads.length) (hthreads : w'.threads = (w.threads ++ started).set k t')
    (hstarted : ∀ t ∈ started, Exchange.Newly t)
    (hfit : Fit w'.loops k t'.control t'.depth t'.stack)
    (hothers : ∀ l' ∈ w'.loops, l'.thread ≠ k →
      ∃ l ∈ w.loops, l.id = l'.id ∧ l.thread = l'.thread) : w'.Fitted := by
  have hlength : w.threads.length ≤ w'.threads.length := by
    rw [hthreads, List.length_set, List.length_append]
    omega
  refine ⟨?_, ?_⟩
  · intro j t hj
    by_cases hjk : j = k
    · subst hjk
      rw [hthreads, List.getElem?_set_self (by rw [List.length_append]; omega)] at hj
      cases hj
      exact hfit
    · rw [hthreads, List.getElem?_set_ne (Ne.symm hjk)] at hj
      by_cases hlt : j < w.threads.length
      · rw [List.getElem?_append_left hlt] at hj
        have hold := h.fit j t hj
        refine ⟨hold.sits, hold.calm, hold.acted, hold.depth_eq, ?_⟩
        intro l' hl' hthread
        obtain ⟨l, hl, hid, hsame⟩ := hothers l' hl' (hthread ▸ hjk)
        rw [← hid]
        exact hold.manned l hl (hsame.trans hthread)
      · rw [List.getElem?_append_right (Nat.le_of_not_lt hlt)] at hj
        refine .newly (hstarted t (List.mem_of_getElem? hj)) ?_
        intro l' hl' hthread
        obtain ⟨l, hl, -, hsame⟩ := hothers l' hl' (hthread ▸ hjk)
        exact hlt (hthread ▸ hsame ▸ h.made l hl)
  · intro l' hl'
    by_cases hthread : l'.thread = k
    · rw [hthread]
      exact hk.trans_le hlength
    · obtain ⟨l, hl, -, hsame⟩ := hothers l' hl' hthread
      rw [← hsame]
      exact (h.made l hl).trans_le hlength

theorem World.Fitted.of_call (h : w.Fitted) {a : Activation} (hentry : Entry a) :
    (w.spawn [a]).2.Fitted := by
  refine ⟨?_, ?_⟩
  · intro j t hj
    rcases Exchange.getElem?_append_new hj with hj | ⟨rfl, rfl⟩
    · exact h.fit j t hj
    · refine .newly (.called hentry) ?_
      intro l hl hthread
      exact Nat.lt_irrefl _ (hthread ▸ h.made l hl)
  · intro l hl
    simp only [World.spawn, List.length_append, List.length_singleton]
    exact Nat.lt_succ_of_lt (h.made l hl)

/-- What a thread holds that was given up: no invocation, and no loop. -/
theorem Suspended.plain {s : List Activation} (h : Suspended s) :
    invocations s = [] ∧ ∀ id phase, .loop id phase ∉ s := by
  cases h <;> exact ⟨rfl, by simp⟩

/-- The threads that a move starts begin like workers. -/
theorem newly_of_started {k : Nat} {t : Thread} {a : Activation} {rest new : List Activation}
    {m : World × Thread} {started : List Thread} (hm : m ∈ t.moves w k)
    (hlocal : Local w k t a rest m new started) : ∀ t ∈ started, Exchange.Newly t := by
  obtain ⟨begun, hthreads, hkinds⟩ := (travels_of_moves hm).threads_eq
  have hsame : started = begun := List.append_cancel_left (hlocal.threads_eq.symm.trans hthreads)
  rw [hsame]
  rcases hkinds with rfl | ⟨handle, read, rfl⟩ | ⟨handle, o, rfl⟩
  · simp
  · intro t ht
    rw [List.mem_singleton.mp ht]
    exact .reader handle read
  · intro t ht
    rw [List.mem_singleton.mp ht]
    exact .worker handle o

theorem World.Fitted.step (h : w.Fitted) {mover : Option Nat} (hstep : Step w mover w') :
    w'.Fitted := by
  cases hstep with
  | @move k _ hfree hmove =>
    obtain ⟨t, ht, m, hm, rfl⟩ := mem_next.mp hmove
    obtain ⟨a, rest, hs, new, started, hlocal⟩ := local_of_moves hm
    have hfit := hlocal.fit (hs ▸ h.fit k t ht)
    rw [← hlocal.stack_eq] at hfit
    refine h.of_set (List.getElem?_eq_some_iff.mp ht).1 ?_ (newly_of_started hm hlocal) hfit
      hlocal.others
    simp only [hlocal.threads_eq]
  | call hentry => exact h.of_call hentry
  | act hs =>
    have hclient := client_of_act (w := w) hs
    refine ⟨?_, ?_⟩
    · intro j t hj
      rw [hclient.threads_same] at hj
      exact (h.fit j t hj).repost hclient.posts_same
    · intro l' hl'
      obtain ⟨l, hl, -, hsame⟩ := exists_post hclient.posts_same l' hl'
      rw [hclient.threads_same, ← hsame]
      exact h.made l hl
  | @drop k t ht hgo hsuspended =>
    obtain ⟨-, hloops, hthreads⟩ := dropTask_spec ht
    obtain ⟨hnone, hloop⟩ := hsuspended.plain
    have hold := h.fit k t ht
    have hunmanned : ∀ l ∈ (w.dropTask k).loops, l.thread ≠ k := by
      intro l hl hthread
      obtain ⟨phase, hmem, -⟩ := hold.manned l (hloops ▸ hl) hthread
      exact hloop _ _ hmem
    have hempty : Fit (w.dropTask k).loops k .dropped t.depth [] := by
      refine .nil ?_ hunmanned (by simp)
      rw [hold.depth_eq, hnone]
      rfl
    have hthreads' : (w.dropTask k).threads =
        (w.threads ++ []).set k { t with control := .dropped, stack := [] } := by
      rw [List.append_nil, hthreads]
    exact h.of_set (List.getElem?_eq_some_iff.mp ht).1 hthreads' (by simp) hempty
      fun l hl _ => ⟨l, hloops ▸ hl, rfl, rfl⟩
  | release k =>
    rcases releaseLease_spec w k with hsame | ⟨t, handle, ht, hstack, -, -, hloops, -, hthreads⟩
    · rwa [hsame]
    · have hold := h.fit k t ht
      rw [hstack] at hold
      have hempty : Fit (w.releaseLease k).loops k .dropped t.depth t.stack := by
        rw [hstack, hloops]
        exact ⟨trivial, by simp [onLoop], by simp, hold.depth_eq, hold.manned⟩
      have hthreads' : (w.releaseLease k).threads =
          (w.threads ++ []).set k { t with control := .dropped } := by
        rw [List.append_nil, hthreads]
      exact h.of_set (List.getElem?_eq_some_iff.mp ht).1 hthreads' (by simp) hempty
        fun l hl _ => ⟨l, hloops ▸ hl, rfl, rfl⟩

theorem fitted_of_run {past : List Transition} (h : Run past w) : w.Fitted := by
  induction h with
  | start hactive hpeak h =>
    have hfresh := fresh_of_start h
    exact ⟨by simp [hfresh.threads], by simp [hfresh.loops]⟩
  | step h hstep ih => exact ih.step hstep

end Fitted

section Handed

variable {w w' : World}

theorem engaged_append_eq (top rest : List Activation) :
    engaged (top ++ rest) = engaged top + engaged rest :=
  List.countP_append

/-- Whether someone waits at the top of a stack does not depend on whose stack it is. -/
theorem exists_asker {j k : Nat} {rest : List Activation} (h : (asker? j rest).isSome = true) :
    ∃ source, asker? k rest = some source := by
  obtain ⟨source, hsource⟩ := Option.isSome_iff_exists.mp h
  unfold asker? at hsource
  split at hsource
  · exact ⟨_, rfl⟩
  · exact ⟨_, rfl⟩
  · cases hsource

/-- The order that an activation can give to the engine is due with it, if it sits as it
should. -/
theorem inHand_of_orderAt {k : Nat} {a : Activation} {rest : List Activation} {o : Order}
    (hsits : a.SitsOn rest) (h : w.orderAt a = some o) :
    ∃ source, w.exchange.inHand k (a :: rest) = some (source, o) := by
  unfold World.orderAt at h
  split at h
  · cases h
    exact ⟨_, rfl⟩
  · cases h
    have hasker : (asker? 0 rest).isSome = true := hsits.2
    obtain ⟨source, hsource⟩ := exists_asker (k := k) hasker
    refine ⟨source, ?_⟩
    simp only [Exchange.inHand, Activation.due?, hsource, Option.map_some]
  · cases h
    exact ⟨_, rfl⟩
  · cases h
    exact ⟨_, rfl⟩
  · obtain ⟨r, hr, rfl⟩ := Option.map_eq_some_iff.mp h
    refine ⟨.request r.id, ?_⟩
    have hfound : (w.exchange.findLoop _).bind (fun l => l.requests.head?) = some r := hr
    simp only [Exchange.inHand, hfound, Option.map_some]
    rfl
  · cases h

/-- A step that hands an order over gives the engine that order's command, prepared for its
options; no other step gives the engine a command. -/
theorem engine_of_step (h : w.Fitted) {mover : Option Nat} (hstep : Step w mover w') :
    match w.exchange.handed mover w'.exchange with
    | some q => w.engine.Given (q.2.command.prepared q.2.options) w'.engine
    | none => w.engine.Aside w'.engine := by
  cases hstep with
  | @move k _ hfree hmove =>
    obtain ⟨t, ht, m, hm, rfl⟩ := mem_next.mp hmove
    obtain ⟨a, rest, hs, new, started, hlocal⟩ := local_of_moves hm
    have hhanded : w.exchange.handed (some k) (m.1.exchange.setThread k m.2) =
        w.exchange.handedBy k t.stack m.2.stack :=
      Exchange.handed_of_move ht (travels_of_moves hm)
    have hengaged : engaged t.stack < engaged m.2.stack ↔ engaged [a] < engaged new := by
      rw [hs, hlocal.stack_eq, ← List.singleton_append, engaged_append_eq, engaged_append_eq]
      omega
    have hengine := hlocal.engine
    change match w.exchange.handed (some k) (m.1.exchange.setThread k m.2) with
      | some q => w.engine.Given (q.2.command.prepared q.2.options) m.1.engine
      | none => w.engine.Aside m.1.engine
    rw [hhanded, Exchange.handedBy]
    by_cases hlt : engaged [a] < engaged new
    · rw [if_pos hlt] at hengine
      obtain ⟨o, horder, hgiven⟩ := hengine
      have hsits := (h.fit k t ht).sits
      rw [hs] at hsits
      obtain ⟨source, hsource⟩ := inHand_of_orderAt (k := k) hsits.1 horder
      rw [if_pos (hengaged.mpr hlt), hs, hsource]
      exact hgiven
    · rw [if_neg hlt] at hengine
      rw [if_neg fun hmore => hlt (hengaged.mp hmore)]
      exact hengine
  | call hentry => exact .refl _
  | act hs => exact (client_of_act hs).aside
  | drop ht hgo hsuspended =>
    have hengine := (dropTask_spec ht).1
    exact hengine ▸ .refl _
  | release k =>
    rcases releaseLease_spec w k with hsame | ⟨t, handle, -, -, -, hengine, -, -, -⟩
    · exact hsame.symm ▸ .refl _
    · exact hengine.symm ▸ .refl _

end Handed

end ScriptHost.Service
