import ScriptHost.Proofs.FirmReplies
import ScriptHost.Proofs.LoopChannels
import ScriptHost.Proofs.WaitingCalls

/-!
What a cancellation covers. A call that ends with a cancellation still had its order in
hand, took it back from the idle slot, found its request dropped, or gave its request up
in the queue of a loop, which skips it; in all these cases the engine is never given the
order. The exception is a call that gives up a request with which a loop has already begun:
nothing keeps it from doing so, and its order may have been handed over, or may yet be.
-/

namespace ScriptHost.Service

theorem Traffic.cancelled_eq {x x' : Exchange} {c c' : Control} {s s' : List Activation}
    (h : Traffic x c s x' c' s') : x'.cancelled = x.cancelled := by
  cases h <;> rfl

theorem cancelled_of_signals {w w' : World} {s : Signal} (h : Signals w s w') :
    w'.cancelled = w.cancelled := by
  cases h <;> rfl

theorem cancelled_of_signal (w : World) (kind : LoopKind) (s : Signal) :
    (w.signalInnermost kind s).2.cancelled = w.cancelled :=
  cancelled_of_signals (signals_signalInnermost w kind s)

theorem cancelled_subset {w w' : World} {mover : Option Nat} (h : Step w mover w') :
    w.cancelled ⊆ w'.cancelled := by
  cases h with
  | move hfree hmove =>
    obtain ⟨t, ht, m, hm, rfl⟩ := mem_next.mp hmove
    have hsame : m.1.cancelled = w.cancelled := (travels_of_moves hm).cancelled_eq
    exact fun token htoken => hsame ▸ htoken
  | call hentry => exact fun token htoken => htoken
  | @act s hs =>
    cases s with
    | cancel token => exact List.subset_cons_self _ _
    | resume action =>
      exact fun token htoken => (cancelled_of_signal w _ _).symm ▸ htoken
    | exitPrompt =>
      exact fun token htoken => (cancelled_of_signal w _ _).symm ▸ htoken
    | popFrame =>
      simp only [Clients.act, Clients.popFrame]
      split <;> exact fun token htoken => htoken
    | input | openGate | pause | pushFrame | unsubscribe | ticks | fault =>
      exact fun token htoken => htoken
    | exec | readLine | lease | drop | release | abort | dispose | pushRunspace | popRunspace =>
      cases hs
  | drop ht hgo hsuspended =>
    simp only [World.dropTask, ht]
    split <;> exact fun token htoken => htoken
  | release k =>
    unfold World.releaseLease
    split <;> exact fun token htoken => htoken

theorem isCancelled_of_step {w w' : World} {mover : Option Nat} (h : Step w mover w')
    {token : Option Token} (htoken : w.isCancelled token = true) :
    w'.isCancelled token = true := by
  cases token with
  | none => cases htoken
  | some token =>
    have hmem : token ∈ w.cancelled := by simpa [World.isCancelled] using htoken
    simpa [World.isCancelled] using cancelled_subset h hmem

section Ended

variable {w : World} {k : Nat} {t : Thread} {m : World × Thread} {o : Order} {phase : ExecPhase}
  {rest : List Activation} {r : Reply}

/-- An execution that has passed its order on ends with an answer, or it gives up what it
posted, or it takes back what it parked. -/
theorem ended_of_moves (hm : m ∈ t.moves w k) (hs : t.stack = .exec o phase :: rest)
    (hr : m.2.control = .back (.reply r)) (howns : phase.owns = false) :
    Answers w.exchange t.control phase r ∨
      (∃ id, phase = .posted id ∧ w.isCancelled o.options.token = true ∧ m.1 = w ∧
        r = .error .cancelled) ∨
      ∃ id request, phase = .awaiting id ∧ w.slot.parked = some (id, request) ∧
        m.1.cells = w.cells.modify id .abandon := by
  cases turn_of_stack hm hs with
  | goes hgo hmove =>
    cases hmove with
    | ended hend =>
      cases hr
      cases hend with
      | refused => cases howns
      | cancelled o id hcancelled => exact Or.inr (Or.inl ⟨id, rfl, hcancelled, rfl, rfl⟩)
      | replied o phase id r hphase hpoll =>
        refine Or.inl (.request phase id r ?_ hpoll)
        rcases hphase with rfl | rfl <;> rfl
      | joined o worker r hresult => exact Or.inl (hgo ▸ .worker worker r hresult)
    | withdrawn o id request hcancelled hparked =>
      exact Or.inr (Or.inr ⟨id, request, rfl, hparked, rfl⟩)
    | inlined | turnedAway | gaveUp | unowned | rerouted => cases howns
    | _ => cases hr
  | receives outcome hback hmove =>
    cases hmove with
    | inline o r' =>
      cases hr
      exact Or.inl (hback ▸ .inline r rfl)
    | unleased => cases howns
    | onLoop | offLoop => cases hr
    | tracked o r' =>
      cases hr
      exact Or.inl (.kept r)
  | unwinds p hunwind hmove =>
    cases hmove with
    | other => cases hr

/-- A move that ends an execution leaves nothing due that was not so before. -/
theorem Traffic.queuedDues_of_ended {x x' : Exchange} {c c' : Control} {s' : List Activation}
    (h : Traffic x c (.exec o phase :: rest) x' c' s') (hx : x.Sound)
    (hlength : s'.length = rest.length) :
    x'.queuedDues ≤ x.queuedDues ∧ x'.threads = x.threads := by
  generalize hs : Activation.exec o phase :: rest = s at h
  cases h with
  | quiet | answered | failed | turnedAway | gaveUp => exact ⟨le_refl _, rfl⟩
  | withdrawn => exact ⟨add_le_add (le_refl _) (Multiset.zero_le _), rfl⟩
  | signalled l signal hl =>
    obtain ⟨queued, hqueued, hupdate, -⟩ := hx.queuedDues_update (Exchange.mem_of_findLoop hl)
    exact ⟨by rw [hupdate, hqueued], rfl⟩
  | spawnedReader handle read h hreader =>
    obtain ⟨token, phase₁, rest₁, hreader⟩ := hreader
    cases hs.trans hreader
  | spawned | posted | acquired | joined | inlined | parked | reclaimed =>
    cases hs
    simp only [List.length_append, List.length_cons] at hlength
    omega
  | reentered o₁ a top rest₁ ha | pickedUp id₁ r a top rest₁ hparked ha
  | opened l phase₁ a top rest₁ hid₁ hrequests hsignal hpumps hparting ha =>
    cases hs
    cases ha
  | _ => cases hs

/-- A loop hands over only what it takes from its queue, and that was not cancelled. -/
theorem Traffic.uncancelled_of_handed {x x' : Exchange} {c c' : Control} {s' : List Activation}
    {i : Nat} {phase : LoopPhase} {q : Due} (h : Traffic x c (.loop i phase :: rest) x' c' s')
    (hlt : engaged (.loop i phase :: rest) < engaged s')
    (hq : x.inHand k (.loop i phase :: rest) = some q) :
    q.2.options.token.any x.cancelled.contains = false := by
  generalize hs : Activation.loop i phase :: rest = s at h hlt hq
  cases h with
  | quiet h | spawnedReader handle read h | signalled l signal hl hsignal h =>
    exact absurd h.engaged_le (Nat.not_le.mpr hlt)
  | taken l r requests phase₁ phase' above rest₁ hl hr hcancelled =>
    simp only [Exchange.inHand, hl, hr, Option.bind_some, List.head?_cons, Option.map_some,
      Option.some.injEq] at hq
    rw [← hq]
    exact hcancelled
  | consumed | skipped | locked => exact absurd (le_refl _) (Nat.not_le.mpr hlt)
  | closed l signal phase₁ above rest₁ hl hphase habove =>
    rcases habove with rfl | ⟨action, rfl⟩
    · exact absurd engaged_le_cons (Nat.not_le.mpr hlt)
    · exact absurd (le_refl _) (Nat.not_le.mpr hlt)
  | reentered o₁ a top rest₁ ha | pickedUp id₁ r a top rest₁ hparked ha
  | opened l phase₁ a top rest₁ hid₁ hrequests hsignal hpumps hparting ha =>
    cases hs
    cases ha
  | _ => cases hs

end Ended

namespace Exchange

variable {x x₁ x' : Exchange} {k : Nat} {t t' : Thread} {mover : Option Nat}

/-- A step in which a call ends hands nothing over and leaves nothing due that was not so
before. -/
theorem dues_of_ended {o : Order} {phase : ExecPhase} {rest : List Activation} (hx : x.Sound)
    (ht : x.threads[k]? = some t) (hs : t.stack = .exec o phase :: rest)
    (h : Traffic x t.control t.stack x₁ t'.control t'.stack)
    (hlength : t'.stack.length = rest.length) :
    (x₁.setThread k t').dues ≤ x.dues ∧ x.handed (some k) (x₁.setThread k t') = none := by
  have hstack : t'.stack = rest := by
    cases h.callStep with
    | aside a new rest' hs₁ hs' ha =>
      cases hs.symm.trans hs₁
      exact absurd rfl (ha o phase)
    | onward o₁ phase₁ phase' above rest' hs₁ hs' =>
      cases hs.symm.trans hs₁
      rw [hs', List.length_append, List.length_cons] at hlength
      omega
    | ended o₁ phase₁ rest' hs₁ hs' =>
      cases hs.symm.trans hs₁
      exact hs'
  refine ⟨?_, ?_⟩
  · have hended := h
    rw [hs] at hended
    obtain ⟨hqueued, hthreads⟩ := hended.queuedDues_of_ended hx hlength
    obtain ⟨others, hbefore, hafter⟩ := exists_others (f := fun k t => stackDues k t.stack) ht
    rw [dues, dues, hbefore, setThread, hthreads, hafter, hstack, hs]
    exact add_le_add hqueued (add_le_add stackDues_le_cons (le_refl _))
  · rw [handed_of_move ht h, hstack, hs]
    exact handedBy_of_le engaged_le_cons

/-- An order that is handed over for a request was with the thread that hands it over, or it
was taken from a queue and not cancelled. -/
theorem Next.carried_of_handed {id : Nat} {o : Order} (h : x.Next mover x')
    (hq : x.handed mover x' = some (.request id, o)) :
    (∃ (k : Nat) (t : Thread), x.threads[k]? = some t ∧ 1 ≤ carried id t.stack) ∨
      o.options.token.any x.cancelled.contains = false := by
  cases h with
  | @move k t t' x₁ ht hfree htraffic =>
    rw [handed_of_move ht htraffic] at hq
    have hlt : engaged t.stack < engaged t'.stack := by
      by_contra hle
      rw [handedBy_of_le (Nat.not_lt.mp hle)] at hq
      cases hq
    rw [handedBy_of_lt hlt] at hq
    cases hs : t.stack with
    | nil =>
      rw [hs] at hq
      cases hq
    | cons a rest =>
      rw [hs] at hq hlt htraffic
      by_cases hloop : ∃ i phase, a = .loop i phase
      · obtain ⟨i, phase, rfl⟩ := hloop
        exact Or.inr (htraffic.uncancelled_of_handed hlt hq)
      · have hdue : a.due? k rest = some (.request id, o) := by
          cases a <;> first | exact hq | exact absurd ⟨_, _, rfl⟩ hloop
        refine Or.inl ⟨k, t, ht, ?_⟩
        rw [hs]
        refine carried_of_due (k := k) (o := o) ?_
        rw [stackDues_of_some hdue]
        exact Multiset.mem_cons_self _ _
  | _ => cases hq

/-- A request in the queue of a loop stays there until the loop takes it, and one that was
cancelled is dropped then. -/
theorem Next.queued_stays (h : x.Next mover x') (hx : x.Orderly) {l : MessageLoop} {r : Request}
    (hlocked : ∀ signal above, (some (signal, true), above) ∈ x.pumping l.id → l.requests = [])
    (hl : l ∈ x.loops) (hr : r ∈ l.requests)
    (hcancelled : r.options.token.any x.cancelled.contains = true) :
    (∃ l' ∈ x'.loops, r ∈ l'.requests) ∨ x'.cells[r.id]? = some .dropped := by
  have hfound := hx.sound.findLoop_of_mem hl
  have hchannel := h.channel hx l.id
  generalize x.pumping l.id = p, x'.pumping l.id = p' at hchannel hlocked
  cases hchannel with
  | idle hloop | served _ _ _ hloop =>
    exact Or.inl ⟨l, mem_of_findLoop (hloop.trans hfound), hr⟩
  | posted l₁ r₁ hl₁ hl' =>
    cases hfound.symm.trans hl₁
    exact Or.inl ⟨_, mem_of_findLoop hl', List.mem_append_left _ hr⟩
  | skipped l₁ r₁ requests signal hl₁ hr₁ hl' hcancelled₁ hcell =>
    cases hfound.symm.trans hl₁
    rw [hr₁] at hr
    rcases List.mem_cons.mp hr with rfl | hr
    · exact Or.inr hcell
    · exact Or.inl ⟨_, mem_of_findLoop hl', hr⟩
  | taken l₁ r₁ requests signal hl₁ hr₁ hl' hcancelled₁ =>
    cases hfound.symm.trans hl₁
    rw [hr₁] at hr
    rcases List.mem_cons.mp hr with rfl | hr
    · cases hcancelled.symm.trans hcancelled₁
    · exact Or.inl ⟨_, mem_of_findLoop hl', hr⟩
  | signalled l₁ signal hl₁ hsignal hl' =>
    cases hfound.symm.trans hl₁
    exact Or.inl ⟨_, mem_of_findLoop hl', hr⟩
  | consumed l₁ signal hl₁ hsignal hl' | locked l₁ signal hl₁ hrequests hl' =>
    cases hfound.symm.trans hl₁
    exact Or.inl ⟨_, mem_of_findLoop hl', hr⟩
  | opened l₁ hid hnext hl₁ => cases hfound.symm.trans hl₁
  | closed l₁ signal locked hl₁ hl' hrequests =>
    cases hfound.symm.trans hl₁
    have hempty : l.requests = [] := by
      cases locked with
      | false => exact hrequests rfl
      | true => exact hlocked signal none (Multiset.mem_cons_self _ _)
    rw [hempty] at hr
    cases hr

end Exchange

/-- The cancellation of a call that posted its order came late: no loop has the request in its
queue any more, and none has skipped it. -/
def World.CancelledLate (w : World) (k h : Nat) : Prop :=
  ∃ o id, w.exchange.callOf k h = some (o, .posted id) ∧
    w.isCancelled o.options.token = true ∧ (∀ l ∈ w.loops, ∀ r ∈ l.requests, r.id ≠ id) ∧
    w.cells[id]? ≠ some .dropped

/-- A cancellation does not come late as long as the request is in a queue. -/
theorem not_late_of_queued {w : World} {k h : Nat}
    (hqueued : ∀ q ∈ w.exchange.callOf k h, ∀ id ∈ q.2.request?,
      ∃ l ∈ w.loops, ∃ r ∈ l.requests, r.id = id) : ¬w.CancelledLate k h := by
  rintro ⟨o, id, hcall, -, hgone, -⟩
  obtain ⟨l, hl, r, hr, hid⟩ := hqueued _ hcall id rfl
  exact hgone l hl r hr hid

/-- The call at height `h` of thread `k` is answered with `r`: by its request, by its worker, by
the order it ran inline, or by the reply it kept. -/
def World.Answered (w : World) (k h : Nat) (r : Reply) : Prop :=
  ∃ t o phase, w.threads[k]? = some t ∧ w.exchange.callOf k h = some (o, phase) ∧
    Answers w.exchange t.control phase r

namespace Course

variable {course : Course} {k h : Nat} {o : Order} {w w' : World} {mover : Option Nat} {r : Reply}

/-- A call that has ended and for which the engine was given nothing. What is still due on its
behalf is in the queue of a loop, and cancelled. -/
structure Spent (course : Course) (k h : Nat) (o : Order) (w : World) : Prop where
  ended : course.going = false
  given : course.given = []
  due : ∀ q ∈ w.exchange.dues, course.owns k h q.1 = true →
    w.isCancelled o.options.token = true ∧ ∃ l ∈ w.loops, ∃ r ∈ l.requests, q = requestDue r

theorem Spent.extend (hspent : course.Spent k h o w) (hnamed : course.Named k h o w.exchange)
    (honce : course.Once k h o w.exchange) (hrun : Run past w) (hstep : Step w mover w') :
    (course.extend k h w.exchange mover w'.exchange).Spent k h o w' := by
  have hx := orderly_of_run hrun
  have hnext := next_of_step hstep
  have hforeign : ¬course.own k h w.exchange mover = true := by
    intro hown
    cases hspent.ended.symm.trans (own_iff.mp hown).1
  refine ⟨by simp [Course.extend, hspent.ended], ?_, ?_⟩
  · by_contra hgiven
    obtain ⟨q, hhanded, hown⟩ := exists_handed hspent.given hgiven
    have hmem := hnext.mem_of_handed hx.sound hhanded
    obtain ⟨hcancelled, l, hl, r, hr, rfl⟩ := hspent.due q hmem hown
    rcases hnext.carried_of_handed hhanded with ⟨j, t, ht, hcarried⟩ | huncancelled
    · -- the request would be in two places
      obtain ⟨r', heq, hcarriers⟩ :=
        Exchange.exists_request_of_queued (Exchange.queued_of_mem (x := w.exchange) hl hr)
      have hid : r.id = r'.id := Source.request.inj (Prod.mk.inj heq).1
      obtain ⟨others, hplaces, -⟩ := Exchange.exists_elsewhere ht
      have := hplaces r.id
      have := (hx.unanswered r.id).1
      rw [← hid] at hcarriers
      omega
    · have horder : Order.ofRequest r = o := honce.due_own _ hmem hown
      rw [horder] at huncancelled
      cases hcancelled.symm.trans huncancelled
  · intro q hq hown
    obtain ⟨hmem, hown⟩ := due_before hnamed hx hnext hforeign hq hown
    obtain ⟨hcancelled, l, hl, r, hr, rfl⟩ := hspent.due q hmem hown
    have horder : Order.ofRequest r = o := honce.due_own _ hmem hown
    refine ⟨isCancelled_of_step hstep hcancelled, ?_⟩
    rw [← horder] at hcancelled
    have hlocked : ∀ signal above, (some (signal, true), above) ∈ w.exchange.pumping l.id →
        l.requests = [] := fun _ _ hp =>
      (locked_of_run hrun (hx.sound.findLoop_of_mem hl) hp).2
    rcases hnext.queued_stays hx hlocked hl hr hcancelled with ⟨l', hl', hr'⟩ | hdropped
    · exact ⟨l', hl', r, hr', rfl⟩
    · cases (Exchange.waiting_of_due (hnext.orderly hx) hq).symm.trans hdropped

/-- A call that comes to a reply ends with a step of its own. -/
theorem Named.exists_end (hnamed : course.Named k h o w.exchange) (hstep : Step w mover w')
    (hnone : course.reply = none)
    (hreply : (course.extend k h w.exchange mover w'.exchange).reply = some r) :
    course.going = true ∧ (course.extend k h w.exchange mover w'.exchange).going = false ∧
      mover = some k ∧ ∃ t m phase rest, w.threads[k]? = some t ∧
      t.stack = .exec o phase :: rest ∧ rest.length = h ∧ m ∈ t.moves w k ∧
      w' = { m.1 with threads := m.1.threads.set k m.2 } ∧ m.2.stack.length = h ∧
      m.2.control = .back (.reply r) := by
  simp only [Course.extend] at hreply
  split at hreply
  · next hended =>
    rw [Bool.and_eq_true] at hended
    obtain ⟨hgoing, rfl, hheight⟩ := own_iff.mp hended.1
    have hheight' : w'.exchange.height k = h := by simpa using hended.2
    obtain ⟨phase, hcall, -⟩ := hnamed.standing hgoing
    refine ⟨hgoing, by simp [Course.extend, hheight'], rfl, ?_⟩
    cases hstep with
    | move hfree hmove =>
      obtain ⟨t, ht, m, hm, rfl⟩ := mem_next.mp hmove
      have ht₀ : w.exchange.threads[k]? = some t := ht
      have ht' := Exchange.thread_of_move ht₀ (travels_of_moves hm)
      rw [Exchange.callOf_of_thread ht₀] at hcall
      rw [Exchange.height_of_thread ht₀] at hheight
      obtain ⟨rest, hs, hh⟩ := stack_of_callAt hcall hheight
      exact ⟨t, m, phase, rest, ht, hs, hh, hm, rfl,
        (Exchange.height_of_thread ht').symm.trans hheight',
        Exchange.control_of_replyOf ht' hreply⟩
  · cases hnone.symm.trans hreply

/-- A call that ends is spent if nothing was handed over for it and what it leaves due is in the
queue of a loop, and cancelled. -/
theorem Spent.of_end (hx : w.exchange.Orderly)
    (hgoing : (course.extend k h w.exchange mover w'.exchange).going = false)
    (hdues : w'.exchange.dues ≤ w.exchange.dues ∧ w.exchange.handed mover w'.exchange = none)
    (hgiven : course.given = [])
    (hdue : ∀ q ∈ w.exchange.dues, course.owns k h q.1 = true → q ∈ w'.exchange.dues →
      q.1 ≠ .call k h → w'.isCancelled o.options.token = true ∧
        ∃ l ∈ w'.loops, ∃ r ∈ l.requests, q = requestDue r) :
    (course.extend k h w.exchange mover w'.exchange).Spent k h o w' := by
  refine ⟨hgoing, (given_of_none hdues.2).trans hgiven, ?_⟩
  intro q hq hown
  have hmem := Multiset.mem_of_le hdues.1 hq
  refine hdue q hmem (owns_of_due hx hmem hown) hq fun hcall => ?_
  rw [hcall] at hown
  cases hgoing.symm.trans (owns_call_iff.mp hown).1

/-- How a call comes to its reply. With a cancellation it is spent, unless the cancellation came
late; and once the engine was given its order it is answered, with the same exception. -/
theorem spent_or_late (hfirm : w.Firm) (hnamed : course.Named k h o w.exchange)
    (honce : course.Once k h o w.exchange) (hwaits : course.Waits k h w.exchange)
    (hx : w.exchange.Orderly) (hstep : Step w mover w') (hnone : course.reply = none)
    (hreply : (course.extend k h w.exchange mover w'.exchange).reply = some r) :
    (r = .error .cancelled →
      (course.extend k h w.exchange mover w'.exchange).Spent k h o w' ∨ w.CancelledLate k h) ∧
    (course.given ≠ [] → w.Answered k h r ∨ r = .error .cancelled ∧ w.CancelledLate k h) := by
  have hx' := (next_of_step hstep).orderly hx
  obtain ⟨hgoing, hended, rfl, t, m, phase, rest, ht, hs, rfl, hm, rfl, hlength, hr⟩ :=
    hnamed.exists_end hstep hnone hreply
  have ht₀ : w.exchange.threads[k]? = some t := ht
  obtain ⟨hcall, -, -⟩ := hnamed.top_call ht₀ hs
  have hdues := Exchange.dues_of_ended hx.sound ht₀ hs (travels_of_moves hm) hlength
  have hrequests : ∀ id, phase.request? = some id →
      course.owns k rest.length (.request id) = true := by
    obtain ⟨phase', hcall', hrequests, -⟩ := hnamed.standing hgoing
    cases hcall.symm.trans hcall'
    exact fun id hid => owns_request_iff.mpr (hrequests id hid)
  have hlost : phase.owns = false → ∀ id, phase.request? = some id →
      w.cells[id]? = some .dropped → course.given = [] ∧
        (course.extend k rest.length w.exchange (some k)
          { m.1 with threads := m.1.threads.set k m.2 }.exchange).Spent k rest.length o
          { m.1 with threads := m.1.threads.set k m.2 } := by
    intro howns id hid hdropped
    obtain ⟨honly, hcell⟩ := hwaits _ _ id hgoing hcall howns hid
    have hgiven : course.given = [] := by
      by_contra hgiven
      exact hcell hgiven hdropped
    refine ⟨hgiven, .of_end hx hended hdues hgiven ?_⟩
    rintro ⟨source, o'⟩ hq hown - -
    obtain rfl := honly _ hq hown
    cases hdropped.symm.trans (Exchange.waiting_of_due hx hq)
  by_cases howns : phase.owns = true
  · have hdue := Exchange.due_of_callOf hcall howns
    have hmine : course.owns k rest.length (.call k rest.length) = true :=
      owns_call_iff.mpr ⟨hgoing, rfl, rfl⟩
    have hgiven := honce.given_eq_nil hdue hmine
    refine ⟨fun _ => Or.inl (.of_end hx hended hdues hgiven ?_), fun hne => absurd hgiven hne⟩
    intro q hq hown _ hne
    exact absurd (congrArg Prod.fst (honce.due_unique hdue hmine hq hown)) hne
  · rw [Bool.not_eq_true] at howns
    rcases ended_of_moves hm hs hr howns with hanswers | ⟨id, rfl, hcancelled, hsame, rfl⟩ |
      ⟨id, request, rfl, hparked, hcells⟩
    · refine ⟨?_, fun _ => Or.inl ⟨t, o, phase, ht, hcall, hanswers⟩⟩
      rintro rfl
      obtain ⟨id, hid, hdropped⟩ := dropped_of_answered hfirm hnamed.named_made ht hs hanswers
      exact Or.inl (hlost howns id hid hdropped).2
    · by_cases hqueued : ∃ l ∈ w.loops, ∃ r ∈ l.requests, r.id = id
      · obtain ⟨l, hl, request, hrequest, rfl⟩ := hqueued
        have hdue := Exchange.mem_dues_of_queued
          (Exchange.queued_of_mem (x := w.exchange) hl hrequest)
        have hmine := hrequests request.id rfl
        have hgiven := honce.given_eq_nil hdue hmine
        refine ⟨fun _ => Or.inl (.of_end hx hended hdues hgiven ?_), fun hne => absurd hgiven hne⟩
        intro q hq hown _ _
        rw [hsame]
        exact ⟨hcancelled, l, hl, request, hrequest, honce.due_unique hdue hmine hq hown⟩
      · by_cases hdropped : w.cells[id]? = some .dropped
        · obtain ⟨hgiven, hspent⟩ := hlost howns id rfl hdropped
          exact ⟨fun _ => Or.inl hspent, fun hne => absurd hgiven hne⟩
        · have hlate : w.CancelledLate k rest.length :=
            ⟨o, id, hcall, hcancelled, fun l hl r hr hid => hqueued ⟨l, hl, r, hr, hid⟩, hdropped⟩
          exact ⟨fun _ => Or.inr hlate, fun _ => Or.inr ⟨rfl, hlate⟩⟩
    · obtain rfl : request.id = id := hx.sound.parked_named _ _ hparked
      have hdue := Exchange.mem_dues_of_queued
        (Exchange.queued_of_parked (x := w.exchange) hparked)
      have hmine := hrequests request.id rfl
      have hgiven := honce.given_eq_nil hdue hmine
      refine ⟨fun _ => Or.inl (.of_end hx hended hdues hgiven ?_), fun hne => absurd hgiven hne⟩
      rintro ⟨source, o'⟩ hq hown hq' -
      obtain rfl := (hwaits _ _ request.id hgoing hcall howns rfl).1 _ hq hown
      have hwaiting : m.1.cells[request.id]? = some .waiting := Exchange.waiting_of_due hx' hq'
      have hwaited : w.cells[request.id]? = some .waiting := Exchange.waiting_of_due hx hdue
      rw [hcells, List.getElem?_modify_eq, hwaited] at hwaiting
      cases hwaiting

end Course

section Runs

variable {later earlier past : List Transition} {x y : Transition} {w : World} {k : Nat}
  {t : Thread} {o : Order} {rest : List Activation} {r : Reply}

/-- A call that has ended without its order being handed over stays so. -/
theorem spent_of_run (hrun : Run (later ++ earlier ++ x :: past) w)
    (ht : x.after.threads[k]? = some t) (hs : t.stack = .exec o .checking :: rest)
    (hspent : ∀ w', Run (earlier ++ x :: past) w' →
      (course k rest.length earlier).Spent k rest.length o w') :
    (course k rest.length (later ++ earlier)).Spent k rest.length o w := by
  induction later generalizing w with
  | nil => exact hspent w hrun
  | cons z later ih =>
    cases hrun with
    | step hbefore hstep =>
      obtain ⟨hnamed, honce, -⟩ := course_of_run hbefore ht hs
      exact (ih hbefore).extend hnamed honce hbefore hstep

/-- Cancelling covers the wait, unless it comes late. If no fault of the engine is a cancellation
and a call ends with one, the engine was not given its order and never will be, whatever happens
later; and if the engine was given its order before, the call ends with the answer to it. The
exception is a call whose request a loop had taken, and not skipped, when its cancellation came
through. -/
theorem cancellation_covers_wait (hrun : Run (later ++ y :: (earlier ++ x :: past)) w)
    (hfirm : ∀ z ∈ earlier ++ x :: past, z.before.engine.Firm)
    (ht : x.after.threads[k]? = some t) (hs : t.stack = .exec o .checking :: rest)
    (hnone : (course k rest.length earlier).reply = none)
    (hreply : (course k rest.length (y :: earlier)).reply = some r) :
    (r = .error .cancelled → (course k rest.length (later ++ y :: earlier)).given = [] ∨
      y.before.CancelledLate k rest.length) ∧
    ((course k rest.length earlier).given ≠ [] → y.before.Answered k rest.length r ∨
      r = .error .cancelled ∧ y.before.CancelledLate k rest.length) := by
  obtain ⟨hbefore, hstep⟩ := run_before hrun
  obtain ⟨hnamed, honce, -⟩ := course_of_run hbefore ht hs
  obtain ⟨hcancelled, hanswered⟩ := Course.spent_or_late (firm_of_run hbefore hfirm) hnamed honce
    (waits_of_run hbefore ht hs) (orderly_of_run hbefore) hstep hnone hreply
  refine ⟨fun hr => ?_, hanswered⟩
  rcases hcancelled hr with hspent | hlate
  · have hsplit : Run (later ++ (y :: earlier) ++ x :: past) w := by simpa using hrun
    refine Or.inl (spent_of_run hsplit ht hs fun w' hended => ?_).given
    cases hended with
    | step => exact hspent
  · exact Or.inr hlate

instance (e : Engine) : Decidable e.Firm :=
  inferInstanceAs (Decidable (∀ f ∈ e.refusals, f.2 ≠ .cancelled))

theorem eq_cancelled {r : Option Reply}
    (h : (match r with | some (.error .cancelled) => true | _ => false) = true) :
    r = some (.error .cancelled) := by
  split at h
  · rfl
  · cases h

/-- A call is cancelled while its order is in the queue of a debugger that has stopped, and the
debugger skips the order. -/
theorem cancellation_covers_wait_skipped : ∃ later y earlier x past w t o,
    Run (later ++ y :: (earlier ++ x :: past)) w ∧ x.after.threads[2]? = some t ∧
    t.stack = [.exec o .checking] ∧
    (course 2 0 (y :: earlier)).reply = some (.error .cancelled) ∧
    w.loops.map (fun l => l.requests.length) = [0] ∧
    (course 2 0 (later ++ y :: earlier)).given = [] := by
  have hstart : Run [] _ := @Run.start {} {} _ rfl rfl rfl
  have hstopped := run_of_follow (hstart.step (.call (.execute
    { command := .ofScript "breakpoint", options := {} })))
    (List.replicate 10 0 ++ List.replicate 8 1)
  have hposted := run_of_follow (hstopped.step (.call (.execute
    { command := .ofScript "echo hi", options := { token := some "t" } }))) [2, 2]
  have hcancelled := hposted.step (.act (s := .cancel "t") rfl nofun)
  have hended := hcancelled.step (.move (k := 2) rfl (List.mem_singleton_self _))
  have hskipped := run_of_follow hended [1]
  have hwait := @cancellation_covers_wait _ (_ :: _) _ _ _ _ 2 _ _ _ _ hskipped
    (by decide +kernel) rfl rfl (Option.isNone_iff_eq_none.mp (by decide +kernel))
    (eq_cancelled (by decide +kernel))
  exact ⟨_, _, _ :: _, _, _, _, _, _, hskipped, rfl, rfl, eq_cancelled (by decide +kernel),
    by decide +kernel, (hwait.1 rfl).resolve_right (not_late_of_queued (by decide +kernel))⟩

/-- The order of a call runs in a debugger that has stopped when the call is cancelled, and the
call ends with a cancellation all the same. -/
theorem cancelled_while_running : ∃ later x past w t o, Run (later ++ x :: past) w ∧
    (∀ z ∈ later ++ x :: past, z.before.engine.Firm) ∧ x.after.threads[2]? = some t ∧
    t.stack = [.exec o .checking] ∧ (course 2 0 later).reply = some (.error .cancelled) ∧
    (course 2 0 later).given = [o] := by
  have hstart : Run [] _ := @Run.start {} {} _ rfl rfl rfl
  have hstopped := run_of_follow (hstart.step (.call (.execute
    { command := .ofScript "breakpoint", options := {} })))
    (List.replicate 10 0 ++ List.replicate 8 1)
  have htaken := run_of_follow (hstopped.step (.call (.execute
    { command := .ofScript "sleep 600000", options := { token := some "t" } }))) [2, 2, 1]
  have hcancelled := htaken.step (.act (s := .cancel "t") rfl nofun)
  have hended := hcancelled.step (.move (k := 2) rfl (List.mem_singleton_self _))
  obtain ⟨-, honce, -⟩ := @course_of_run (_ :: _ :: _) _ _ _ 2 _ _ _ hended rfl rfl
  have hlength := (Nat.le_add_left _ _).trans honce.once
  have hgiven := (eq_nil_or_singleton hlength honce.given_own).resolve_left
    (List.ne_nil_of_length_pos (by decide +kernel))
  exact ⟨_ :: _ :: _, _, _, _, _, _, hended, by decide +kernel, rfl, rfl,
    eq_cancelled (by decide +kernel), hgiven⟩

end Runs

end ScriptHost.Service
