import ScriptHost.Proofs.RunspaceOperations

/-!
What a subscriber that is there from the start can tell from its events. The changes of the
session that it hears of lead, each from where the one before it led to, from a ready session to
the session as it is. The changes of the runspaces lead in the same way from the base runspace
to the current one, provided that no other thread moves while a runspace is pushed or popped.
-/

namespace ScriptHost

section Leads

variable {σ ε : Type} {takes : ε → σ → σ → Prop} {s s' s'' : σ} {es es' : List ε}

/-- Each change takes the state on from where the one before it led to. -/
inductive Leads (takes : ε → σ → σ → Prop) : σ → List ε → σ → Prop
  | done (s : σ) : Leads takes s [] s
  | step {e : ε} {es : List ε} {s s' s'' : σ} (h : takes e s s') (hs : Leads takes s' es s'') :
      Leads takes s (e :: es) s''

theorem Leads.append (h : Leads takes s es s') (h' : Leads takes s' es' s'') :
    Leads takes s (es ++ es') s'' := by
  induction h with
  | done s => exact h'
  | step hstep hs ih => exact .step hstep (ih h')

theorem Leads.single {e : ε} (h : takes e s s') : Leads takes s [e] s' :=
  .step h (.done s')

theorem Leads.split (h : Leads takes s (es ++ es') s'') :
    ∃ s', Leads takes s es s' ∧ Leads takes s' es' s'' := by
  induction es generalizing s with
  | nil => exact ⟨s, .done s, h⟩
  | cons e es ih =>
    cases h with
    | step hstep hs =>
      obtain ⟨s', hbefore, hafter⟩ := ih hs
      exact ⟨s', .step hstep hbefore, hafter⟩

end Leads

/-- A change of the session that the table allows, to another state or another result. -/
structure SessionChange.Takes (c : SessionChange) (s s' : Session) : Prop where
  previous : c.previous = s.state
  allowed : s.state.canBecome c.state = true
  differs : (c.state, c.result) ≠ (s.state, s.result)
  after : s' = { state := c.state, result := c.result }

structure RunspaceChange.Takes (c : RunspaceChange) (r r' : Runspace) : Prop where
  previous : c.previous = r
  current : c.current = r'

/-- A session moves with a change that takes it there, or stays without one. -/
theorem Session.transition_spec (s : Session) (state : SessionState) (result : ExecutionResult)
    (reason : Option String) :
    s.transition state result reason = (s, none) ∨
      ∃ s' c, s.transition state result reason = (s', some c) ∧ c.Takes s s' := by
  unfold transition
  split
  · exact Or.inl rfl
  · next hdiffers =>
    split
    · next hallowed =>
      refine Or.inr ⟨_, _, rfl, rfl, hallowed, fun hsame => hdiffers ?_, rfl⟩
      exact ⟨(Prod.mk.inj hsame).1.symm, (Prod.mk.inj hsame).2.symm⟩
    · exact Or.inl rfl

/-- Nothing leads on from a session that is disposed. -/
theorem Leads.nothing_after_disposed {s s' : Session} {before after : List SessionChange}
    {c : SessionChange} (h : Leads SessionChange.Takes s (before ++ c :: after) s')
    (hc : c.state = .disposed) : after = [] := by
  obtain ⟨between, -, hrest⟩ := h.split
  cases hrest with
  | step hstep hs =>
    cases hs with
    | done => rfl
    | step hnext =>
      have hallowed := hnext.allowed
      rw [hstep.after, hc] at hallowed
      cases hallowed

namespace Event

def session? : Event → Option SessionChange
  | session c => some c
  | _ => none

def runspace? : Event → Option RunspaceChange
  | runspace c => some c
  | _ => none

end Event

namespace EventBus

variable {b b' : EventBus}

/-- The first subscriber is there and takes events. -/
def Listened (b : EventBus) : Prop :=
  ∃ buffer others, b.subscriptions = { buffer } :: others

/-- What happens on a bus that does not concern its first subscriber. -/
inductive Apart (b : EventBus) : EventBus → Prop
  | subscribes : Apart b b.subscribe.2
  | drops {id : Nat} (h : id ≠ 0) : Apart b (b.drop id)
  | closes {id : Nat} (h : id ≠ 0) : Apart b (b.close id)
  | drains {id : Nat} (h : id ≠ 0) : Apart b (b.drain id).2

theorem Listened.publish (h : b.Listened) (e : Event) :
    (b.publish e).Listened ∧ ((b.publish e).drain 0).1 = (b.drain 0).1 ++ [e] := by
  obtain ⟨buffer, others, hb⟩ := h
  refine ⟨⟨buffer ++ [e], others.map (offer e), ?_⟩, ?_⟩ <;>
    simp [EventBus.publish, drain, hb, offer]

theorem Listened.drained (h : b.Listened) :
    (b.drain 0).2.Listened ∧ ((b.drain 0).2.drain 0).1 = [] := by
  obtain ⟨buffer, others, hb⟩ := h
  refine ⟨⟨[], others, ?_⟩, ?_⟩ <;> simp [drain, hb]

theorem Listened.apart (h : b.Listened) (hb' : Apart b b') :
    b'.Listened ∧ (b'.drain 0).1 = (b.drain 0).1 := by
  obtain ⟨buffer, others, hb⟩ := h
  have hmodify : ∀ {id : Nat} (f : Subscription → Subscription), id ≠ 0 →
      b.subscriptions.modify id f = { buffer } :: others.modify (id - 1) f := by
    intro id f hid
    obtain ⟨n, rfl⟩ := Nat.exists_eq_succ_of_ne_zero hid
    simp [hb]
  have hkept : ∃ others', b'.subscriptions = { buffer } :: others' := by
    cases hb' with
    | subscribes => exact ⟨others ++ [({} : Subscription)], by simp [subscribe, hb]⟩
    | drops hid | closes hid | drains hid => exact ⟨_, hmodify _ hid⟩
  obtain ⟨others', hb'⟩ := hkept
  exact ⟨⟨buffer, others', hb'⟩, by simp [drain, hb, hb']⟩

end EventBus

namespace Service

/-- What the first subscriber has not received yet. -/
def World.unread (w : World) : List Event :=
  (w.bus.drain 0).1

/-- The events of a step, and the changes of the session among them. -/
structure Hears (w w' : World) (es : List Event) : Prop where
  bus : w.bus.Listened → w'.bus.Listened ∧ w'.unread = w.unread ++ es
  session : Leads SessionChange.Takes w.session (es.filterMap Event.session?) w'.session

section Moves

variable {w w' : World} {self : Nat} {t : Thread} {a : Activation} {rest : List Activation}
  {m : World × Thread} {e : Event}

theorem hears_nothing (hsession : w'.session = w.session) (hbus : w'.bus = w.bus) :
    Hears w w' [] := by
  refine ⟨fun h => ?_, hsession ▸ .done _⟩
  rw [World.unread, World.unread, hbus, List.append_nil]
  exact ⟨h, rfl⟩

theorem hears_event (hbus : w'.bus = w.bus.publish e)
    (hsession : Leads SessionChange.Takes w.session ([e].filterMap Event.session?) w'.session) :
    Hears w w' [e] := by
  refine ⟨fun h => ?_, hsession⟩
  rw [World.unread, World.unread, hbus]
  exact h.publish e

/-- Of a move that is no part of an operation on the runspaces the subscriber hears nothing
about them. -/
theorem hears_of_announces (h : Announces w w') :
    ∃ es, Hears w w' es ∧ es.filterMap Event.runspace? = [] := by
  cases h with
  | nothing h =>
    obtain ⟨hsession, hbus, -⟩ := by simpa [World.outlook] using h
    exact ⟨[], hears_nothing hsession hbus, rfl⟩
  | session state result reason h =>
    rw [World.setSession] at h
    rcases Session.transition_spec w.session state result reason with hnone | ⟨s, c, hsome, htakes⟩
    · rw [hnone] at h
      obtain ⟨hsession, hbus, -⟩ := by simpa [World.outlook, World.changeSession] using h
      exact ⟨[], hears_nothing hsession hbus, rfl⟩
    · rw [hsome] at h
      obtain ⟨hsession, hbus, -⟩ := by
        simpa [World.outlook, World.changeSession, World.publish] using h
      refine ⟨[.session c], hears_event hbus ?_, rfl⟩
      rw [hsession]
      exact .single htakes
  | stop s h =>
    obtain ⟨hsession, hbus, -⟩ := by simpa [World.outlook, World.publish] using h
    exact ⟨[.stop s], hears_event hbus (hsession ▸ .done _), rfl⟩
  | breakpoint u h =>
    obtain ⟨hsession, hbus, -⟩ := by simpa [World.outlook, World.publish] using h
    exact ⟨[.breakpoint u], hears_event hbus (hsession ▸ .done _), rfl⟩

theorem current_of_runspaces (h : w'.runspaces = w.runspaces) :
    w'.baseRunspace = w.baseRunspace ∧ w'.currentRunspace = w.currentRunspace := by
  simp only [World.runspaces, Prod.mk.injEq] at h
  rw [World.currentRunspace, World.currentRunspace, h.1, h.2.1]
  exact ⟨rfl, rfl⟩

end Moves

/-- The runspace to which the events have come, if `current` is where the stack has come. -/
def Activation.reached (current : Runspace) : Activation → Runspace
  | .pushRunspace _ (.publishing previous) => previous
  | .popRunspace _ (.publishing popped _) => popped
  | _ => current

/-- What an operation remembers agrees with the stack. -/
def Activation.Agrees (current : Runspace) : Activation → Prop
  | .pushRunspace _ (.pushing previous) | .pushRunspace _ (.recording previous) =>
    previous = current
  | .pushRunspace r (.publishing _) => current = r
  | .popRunspace _ (.publishing _ next) => current = next
  | _ => True

def Thread.reached (t : Thread) (current : Runspace) : Runspace :=
  match t.control, t.stack with
  | .go, a :: _ => a.reached current
  | _, _ => current

def Thread.Agrees (t : Thread) (current : Runspace) : Prop :=
  match t.control, t.stack with
  | .go, a :: _ => a.Agrees current
  | _, _ => True

theorem Activation.reached_of_not_midway {a : Activation} (h : a.midway = false) (r : Runspace) :
    a.reached r = r ∧ a.Agrees r := by
  cases a with
  | pushRunspace r' phase => cases phase <;> first | exact ⟨rfl, trivial⟩ | cases h
  | popRunspace reason phase => cases phase <;> first | exact ⟨rfl, trivial⟩ | cases h
  | _ => exact ⟨rfl, trivial⟩

theorem Thread.reached_of_not_midway {t : Thread} (h : t.midway = false) (r : Runspace) :
    t.reached r = r ∧ t.Agrees r := by
  obtain ⟨depth, control, stack⟩ := t
  cases control with
  | go =>
    cases stack with
    | nil => exact ⟨rfl, trivial⟩
    | cons a rest => exact Activation.reached_of_not_midway h r
  | back | unwind | dropped => exact ⟨rfl, trivial⟩

/-- What is known of the thread that moves, if no other one is midway. -/
structure World.Follows (w : World) (t : Thread) : Prop where
  base : w.baseGone = false
  stocked : t.Stocked w.pushed
  agrees : t.Agrees w.currentRunspace

/-- What the first subscriber hears of a move: the changes of the session, and the changes of
the runspaces as far as they are on their way. -/
structure Tells (w : World) (t : Thread) (m : World × Thread) (es : List Event) : Prop where
  hears : Hears w m.1 es
  base : w.Follows t → m.1.baseRunspace = w.baseRunspace
  agrees : w.Follows t → m.2.Agrees m.1.currentRunspace
  leads : w.Follows t →
    Leads RunspaceChange.Takes (t.reached w.currentRunspace) (es.filterMap Event.runspace?)
      (m.2.reached m.1.currentRunspace)

section Operations

variable {w w' : World} {k : Nat} {t t' : Thread} {rest : List Activation} {m : World × Thread}

/-- A part of an operation that keeps it to itself. -/
theorem tells_nothing (hsession : w'.session = w.session) (hbus : w'.bus = w.bus)
    (hfollows : w.Follows t → w'.baseRunspace = w.baseRunspace ∧ t'.Agrees w'.currentRunspace ∧
      t'.reached w'.currentRunspace = t.reached w.currentRunspace) : Tells w t (w', t') [] :=
  ⟨hears_nothing hsession hbus, fun h => (hfollows h).1, fun h => (hfollows h).2.1,
    fun h => (hfollows h).2.2 ▸ .done _⟩

theorem tells_of_push {r : Runspace} {phase : PushPhase} (hgo : t.control = .go)
    (hs : t.stack = .pushRunspace r phase :: rest)
    (hm : Goes w k t rest (.pushRunspace r phase) m) :
    ∃ es, Tells w t m es := by
  obtain ⟨depth, control, stack⟩ := t
  cases hgo
  cases hs
  cases hm with
  | onward hnext =>
    cases hnext with
    | noted => exact ⟨[], tells_nothing rfl rfl fun _ => ⟨rfl, rfl, rfl⟩⟩
  | ended hend => cases hend
  | underflowed => exact ⟨[], tells_nothing rfl rfl fun _ => ⟨rfl, trivial, rfl⟩⟩
  | framePushed => exact ⟨[], tells_nothing rfl rfl fun h => ⟨rfl, h.agrees, rfl⟩⟩
  | recorded =>
    refine ⟨[], tells_nothing ?_ ?_ fun h => ?_⟩
    · unfold World.addRunspace
      split <;> rfl
    · unfold World.addRunspace
      split <;> rfl
    · rw [addRunspace_of_base _ h.base]
      exact ⟨rfl, rfl, h.agrees⟩
  | pushPublished =>
    exact ⟨[_], hears_event rfl (.done _), fun _ => rfl, fun _ => trivial,
      fun h => .single ⟨rfl, Eq.symm h.agrees⟩⟩

theorem tells_of_pop {reason : Option RunspaceChangeReason} {phase : PopPhase}
    (hgo : t.control = .go) (hs : t.stack = .popRunspace reason phase :: rest)
    (hm : Goes w k t rest (.popRunspace reason phase) m) : ∃ es, Tells w t m es := by
  obtain ⟨depth, control, stack⟩ := t
  cases hgo
  cases hs
  cases hm with
  | onward hnext => cases hnext <;> exact ⟨[], tells_nothing rfl rfl fun _ => ⟨rfl, trivial, rfl⟩⟩
  | ended hend => cases hend <;> exact ⟨[], tells_nothing rfl rfl fun _ => ⟨rfl, trivial, rfl⟩⟩
  | framePopped => exact ⟨[], tells_nothing rfl rfl fun _ => ⟨rfl, trivial, rfl⟩⟩
  | unrecorded reason r pushed hpushed =>
    refine ⟨[], tells_nothing rfl rfl fun _ => ⟨rfl, rfl, ?_⟩⟩
    change r = w.currentRunspace
    rw [World.currentRunspace, hpushed]
    rfl
  | basePopped reason hpushed =>
    exact ⟨[], tells_nothing rfl rfl fun h => absurd hpushed h.stocked⟩
  | popPublished =>
    exact ⟨[_], hears_event rfl (.done _), fun _ => rfl, fun _ => trivial,
      fun h => .single ⟨rfl, Eq.symm h.agrees⟩⟩

theorem tells_of_moves (hm : m ∈ t.moves w k) : ∃ es, Tells w t m es := by
  cases doing_of_moves hm with
  | plain h ht =>
    obtain ⟨es, hhears, hnone⟩ := hears_of_announces h.announces
    obtain ⟨hbase, hcurrent⟩ := current_of_runspaces h.announces.runspaces
    have hbefore := Thread.reached_of_not_midway ht w.currentRunspace
    have hafter := Thread.reached_of_not_midway h.midway m.1.currentRunspace
    refine ⟨es, hhears, fun _ => hbase, fun _ => hafter.2, fun _ => ?_⟩
    rw [hnone, hbefore.1, hafter.1, hcurrent]
    exact .done _
  | pushes hgo hs hm => exact tells_of_push hgo hs hm
  | pops hgo hs hm => exact tells_of_pop hgo hs hm

end Operations

section Steps

variable {w w' : World} {mover : Option Nat} {k : Nat} {t t' : Thread}

theorem hears_of_step (hstep : Step w mover w') : ∃ es, Hears w w' es := by
  cases mover with
  | none =>
    obtain ⟨es, hhears, -⟩ := hears_of_announces (.nothing (outlook_of_client hstep))
    exact ⟨es, hhears⟩
  | some k =>
    cases hstep with
    | move hfree hmove =>
      obtain ⟨t, ht, m, hm, rfl⟩ := mem_next.mp hmove
      obtain ⟨es, htells⟩ := tells_of_moves hm
      exact ⟨es, htells.hears.bus, htells.hears.session⟩

/-- How far the changes of the runspaces have come: to the current runspace, or, while an
operation is midway, to where the operation knows. -/
inductive Tracked (w : World) (cs : List RunspaceChange) : Prop
  | settled (hnone : ∀ (j : Nat) (t : Thread), w.threads[j]? = some t → t.midway = false)
      (h : Leads RunspaceChange.Takes w.baseRunspace cs w.currentRunspace)
  | midway {k : Nat} {t : Thread} (ht : w.threads[k]? = some t) (hmidway : t.midway = true)
      (hothers : ∀ (j : Nat) (t : Thread), j ≠ k → w.threads[j]? = some t → t.midway = false)
      (hagrees : t.Agrees w.currentRunspace)
      (h : Leads RunspaceChange.Takes w.baseRunspace cs (t.reached w.currentRunspace))

/-- No other thread moves, and no client acts, while an operation on the runspaces is midway. -/
def Transition.Whole (x : Transition) : Prop :=
  ∀ j < x.before.threads.length, x.before.threads[j]?.any Thread.midway = true → x.mover = some j

instance (x : Transition) : Decidable x.Whole :=
  inferInstanceAs (Decidable (∀ j < x.before.threads.length,
    x.before.threads[j]?.any Thread.midway = true → x.mover = some j))

theorem mover_of_midway (hwhole : Transition.Whole ⟨w, mover, w'⟩)
    (ht : w.threads[k]? = some t) (hmidway : t.midway = true) : mover = some k := by
  refine hwhole k (List.getElem?_eq_some_iff.mp ht).1 ?_
  simp [ht, hmidway]

/-- Only the thread of the operation that is under way is midway. -/
theorem Tracked.oneMidway {cs : List RunspaceChange} (h : Tracked w cs) : w.OneMidway := by
  intro i hi j hj hmidway hmidway'
  rw [List.getElem?_eq_getElem hi, Option.any_some] at hmidway
  rw [List.getElem?_eq_getElem hj, Option.any_some] at hmidway'
  cases h with
  | settled hnone => cases hmidway.symm.trans (hnone i _ (List.getElem?_eq_getElem hi))
  | @midway k t ht _ hothers =>
    have hmover : ∀ l (hl : l < w.threads.length), w.threads[l].midway = true → l = k := by
      intro l hl hmidway
      by_contra hne
      cases hmidway.symm.trans (hothers l _ hne (List.getElem?_eq_getElem hl))
    rw [hmover i hi hmidway, hmover j hj hmidway']

/-- The thread that moves agrees with the stack, and no other is midway. -/
theorem Tracked.of_mover {cs : List RunspaceChange} (h : Tracked w cs)
    (hwhole : Transition.Whole ⟨w, some k, w'⟩) (ht : w.threads[k]? = some t) :
    (∀ (j : Nat) (t : Thread), j ≠ k → w.threads[j]? = some t → t.midway = false) ∧
      t.Agrees w.currentRunspace ∧
      Leads RunspaceChange.Takes w.baseRunspace cs (t.reached w.currentRunspace) := by
  cases h with
  | settled hnone h =>
    obtain ⟨hreached, hagrees⟩ := Thread.reached_of_not_midway (hnone k t ht) w.currentRunspace
    exact ⟨fun j t _ hj => hnone j t hj, hagrees, hreached.symm ▸ h⟩
  | midway ht' hmidway hothers hagrees h =>
    cases mover_of_midway hwhole ht' hmidway
    cases ht.symm.trans ht'
    exact ⟨hothers, hagrees, h⟩

theorem tracked_of_step {cs : List RunspaceChange} (h : Tracked w cs) (hstocked : w.Stocked)
    (hstep : Step w mover w') (hwhole : Transition.Whole ⟨w, mover, w'⟩) :
    w'.baseRunspace = w.baseRunspace ∧
      ∃ es, Hears w w' es ∧ Tracked w' (cs ++ es.filterMap Event.runspace?) := by
  cases mover with
  | none =>
    have hannounces : Announces w w' := .nothing (outlook_of_client hstep)
    obtain ⟨es, hhears, hes⟩ := hears_of_announces hannounces
    obtain ⟨hbase, hcurrent⟩ := current_of_runspaces hannounces.runspaces
    refine ⟨hbase, es, hhears, ?_⟩
    cases h with
    | midway ht hmidway => cases mover_of_midway hwhole ht hmidway
    | settled hnone h =>
      rw [hes, List.append_nil]
      refine .settled (fun j t ht' => ?_) (by rw [hbase, hcurrent]; exact h)
      exact (same_or_not_midway hstep (by simp) ht').elim (hnone j t) id
  | some k =>
    cases id hstep with
    | move hfree hmove =>
      obtain ⟨t, ht, m, hm, rfl⟩ := mem_next.mp hmove
      obtain ⟨hothers, hagrees, hleads⟩ := h.of_mover hwhole ht
      have hfollows : w.Follows t :=
        ⟨hstocked.base, hstocked.pops t (List.mem_of_getElem? ht), hagrees⟩
      obtain ⟨es, htells⟩ := tells_of_moves hm
      have hself := thread_of_moves ht hm
      have hothers' : ∀ (j : Nat) (t' : Thread), j ≠ k →
          (m.1.threads.set k m.2)[j]? = some t' → t'.midway = false := fun j t' hj ht' =>
        (same_or_not_midway hstep (fun heq => hj (Option.some.inj heq).symm) ht').elim
          (hothers j t' hj) id
      have hall := hleads.append (htells.leads hfollows)
      have hbase := htells.base hfollows
      rw [← hbase] at hall
      refine ⟨hbase, es, ⟨htells.hears.bus, htells.hears.session⟩, ?_⟩
      cases hmidway : m.2.midway with
      | true => exact .midway hself hmidway hothers' (htells.agrees hfollows) hall
      | false =>
        rw [(Thread.reached_of_not_midway hmidway _).1] at hall
        refine .settled (fun j t' ht' => ?_) hall
        by_cases hj : j = k
        · subst hj
          cases hself.symm.trans ht'
          exact hmidway
        · exact hothers' j t' hj ht'

end Steps

/-- The runs of a service with a subscriber that is there from the start, each with its
transitions, latest first, and the events that the subscriber has received. Others may come
and go. -/
inductive Watched (initial : World) : List Transition → List Event → World → Prop
  | start {config : Config} {engine : Engine} (h : World.start config engine = .ok initial) :
      Watched initial [] [] { initial with bus := initial.bus.subscribe.2 }
  | step {past : List Transition} {received : List Event} {w w' : World} {mover : Option Nat}
      (h : Watched initial past received w) (hstep : Step w mover w') :
      Watched initial (⟨w, mover, w'⟩ :: past) received w'
  | receives {past : List Transition} {received : List Event} {w : World}
      (h : Watched initial past received w) :
      Watched initial past (received ++ w.unread) { w with bus := (w.bus.drain 0).2 }
  | others {past : List Transition} {received : List Event} {w : World} {bus : EventBus}
      (h : Watched initial past received w) (hbus : w.bus.Apart bus) :
      Watched initial past received { w with bus }

section Watched

variable {initial w : World} {past : List Transition} {received : List Event}

theorem watched_of_follow (h : Watched initial past received w) (schedule : List Nat) :
    Watched initial ((follow schedule w).1 ++ past) received (follow schedule w).2 := by
  induction schedule generalizing past w with
  | nil => exact h
  | cons k schedule ih =>
    rw [follow]
    split
    · exact ih h
    · next w' hstep =>
      have hrun := ih (h.step (step_of_step? hstep))
      rwa [List.append_assoc]

theorem session_of_watched (h : Watched initial past received w) :
    w.bus.Listened ∧ Leads SessionChange.Takes { state := .ready, result := .notFinished }
      ((received ++ w.unread).filterMap Event.session?) w.session := by
  induction h with
  | start h =>
    obtain ⟨hsession, hbus, -⟩ := start_spec h
    have hlistened : initial.bus.subscribe.2.subscriptions = [({} : Subscription)] := by
      simp [EventBus.subscribe, hbus]
    refine ⟨⟨[], [], hlistened⟩, ?_⟩
    simp only [World.unread, EventBus.drain, hlistened, hsession]
    exact .done _
  | step h hstep ih =>
    obtain ⟨es, hhears⟩ := hears_of_step hstep
    obtain ⟨hlistened, hunread⟩ := hhears.bus ih.1
    rw [hunread, ← List.append_assoc, List.filterMap_append]
    exact ⟨hlistened, ih.2.append hhears.session⟩
  | @receives past received w h ih =>
    obtain ⟨hlistened, hunread⟩ := ih.1.drained
    have hnone : World.unread { w with bus := (w.bus.drain 0).2 } = [] := hunread
    refine ⟨hlistened, ?_⟩
    rw [hnone, List.append_nil]
    exact ih.2
  | others h hbus ih =>
    obtain ⟨hlistened, hunread⟩ := ih.1.apart hbus
    refine ⟨hlistened, ?_⟩
    rw [World.unread, hunread]
    exact ih.2

theorem Tracked.with_bus {cs : List RunspaceChange} (h : Tracked w cs) (bus : EventBus) :
    Tracked { w with bus } cs := by
  cases h with
  | settled hnone h => exact .settled hnone h
  | midway ht hmidway hothers hagrees h => exact .midway ht hmidway hothers hagrees h

theorem tracked_of_watched (h : Watched initial past received w)
    (hwhole : ∀ x ∈ past, x.Whole) :
    w.baseRunspace = initial.baseRunspace ∧ w.Stocked ∧
      Tracked w ((received ++ w.unread).filterMap Event.runspace?) := by
  induction h with
  | start h =>
    obtain ⟨-, hbus, hpushed, hthreads, -⟩ := start_spec h
    obtain ⟨hbase, hpops⟩ := stocked_of_start h
    refine ⟨rfl, ⟨hbase, hpops⟩, .settled (by simp [hthreads]) ?_⟩
    simp only [World.unread, EventBus.drain, EventBus.subscribe, hbus, World.currentRunspace,
      hpushed]
    exact .done _
  | @step past received w w' mover h hstep ih =>
    obtain ⟨hbase, hstocked, htracked⟩ := ih fun x hx => hwhole x (List.mem_cons_of_mem _ hx)
    obtain ⟨hbase', es, hhears, htracked'⟩ :=
      tracked_of_step htracked hstocked hstep (hwhole _ List.mem_cons_self)
    rw [(hhears.bus (session_of_watched h).1).2, ← List.append_assoc, List.filterMap_append]
    exact ⟨hbase'.trans hbase,
      stocked_of_step hstep htracked.oneMidway htracked'.oneMidway hstocked, htracked'⟩
  | @receives past received w h ih =>
    have hnone : World.unread { w with bus := (w.bus.drain 0).2 } = [] :=
      (session_of_watched h).1.drained.2
    obtain ⟨hbase, ⟨hthere, hpops⟩, htracked⟩ := ih hwhole
    refine ⟨hbase, ⟨hthere, hpops⟩, ?_⟩
    rw [hnone, List.append_nil]
    exact htracked.with_bus _
  | others h hbus ih =>
    have hunread := ((session_of_watched h).1.apart hbus).2
    obtain ⟨hbase, ⟨hthere, hpops⟩, htracked⟩ := ih hwhole
    refine ⟨hbase, ⟨hthere, hpops⟩, ?_⟩
    rw [World.unread, hunread]
    exact htracked.with_bus _

end Watched

/-- The changes of the session that a subscriber hears of from the start lead from a ready
session to the session as it is, each allowed by the table, to another state or result, and
nothing follows a disposal. If no other thread moves while a runspace is pushed or popped, the
changes of the runspaces lead from the base runspace to the current one whenever no such
operation is midway. -/
theorem published_events_replay {initial w : World} {past : List Transition}
    {received : List Event} (h : Watched initial past received w) :
    Leads SessionChange.Takes { state := .ready, result := .notFinished }
      ((received ++ w.unread).filterMap Event.session?) w.session ∧
    (∀ before c after, (received ++ w.unread).filterMap Event.session? = before ++ c :: after →
      c.state = .disposed → after = []) ∧
    ((∀ x ∈ past, x.Whole) → (∀ t ∈ w.threads, t.midway = false) →
      Leads RunspaceChange.Takes initial.baseRunspace
        ((received ++ w.unread).filterMap Event.runspace?) w.currentRunspace) := by
  have hsession := (session_of_watched h).2
  refine ⟨hsession, fun before c after heq hc => ?_, fun hwhole hnone => ?_⟩
  · rw [heq] at hsession
    exact hsession.nothing_after_disposed hc
  · obtain ⟨hbase, -, htracked⟩ := tracked_of_watched h hwhole
    cases htracked with
    | settled _ hleads => exact hbase ▸ hleads
    | midway ht hmidway =>
      rw [hnone _ (List.mem_of_getElem? ht)] at hmidway
      cases hmidway

/-- A runspace is pushed, a script runs, and the service is disposed: the subscriber hears of it
all, and then receives it. -/
theorem published_events_replay_disposed : ∃ initial past received w,
    Watched initial past received w ∧ (∀ x ∈ past, x.Whole) ∧
    received.filterMap Event.session? =
      [{ previous := .ready, state := .running, result := .notFinished, reason := none },
        { previous := .running, state := .ready, result := .completed, reason := none },
        { previous := .ready, state := .disposed, result := .notFinished,
          reason := some "disposed" }] ∧
    Leads SessionChange.Takes { state := .ready, result := .notFinished }
      (received.filterMap Event.session?) w.session ∧
    received.filterMap Event.runspace? =
      [{ reason := .pushedSession, previous := initial.baseRunspace,
         current := { id := 1, location := .computer "far" } }] ∧
    Leads RunspaceChange.Takes initial.baseRunspace (received.filterMap Event.runspace?)
      w.currentRunspace := by
  have hstart : Watched _ [] [] _ := @Watched.start _ {} {} rfl
  have hpushed := watched_of_follow (hstart.step (.call (.pushRunspace
    { id := 1, location := .computer "far" }))) (List.replicate 4 0)
  have hran := watched_of_follow (hpushed.step (.call (.execute
    { command := .ofScript "echo hi", options := {} })))
    (List.replicate 8 1 ++ List.replicate 13 2)
  have hdisposed := (watched_of_follow (hran.step (.call .dispose)) (List.replicate 6 3)).receives
  obtain ⟨hsession, -, hrunspaces⟩ := published_events_replay hdisposed
  refine ⟨_, _, _, _, hdisposed, by decide +kernel, by decide +kernel, hsession, by decide +kernel,
    hrunspaces (by decide +kernel) (by decide +kernel)⟩

/-- Two runspaces are pushed at once, the second between the parts of the first: both changes
start from the base runspace. -/
theorem runspace_changes_cross : ∃ initial past w, Watched initial past [] w ∧
    (∀ t ∈ w.threads, t.midway = false) ∧
    ∃ c c', w.unread.filterMap Event.runspace? = [c, c'] ∧ c'.previous ≠ c.current := by
  have hstart : Watched _ [] [] _ := @Watched.start _ {} {} rfl
  have hcalled := (hstart.step (.call (.pushRunspace { id := 1 }))).step
    (.call (.pushRunspace { id := 2 }))
  have hcrossed := watched_of_follow hcalled (0 :: List.replicate 4 1 ++ List.replicate 3 0)
  exact ⟨_, _, _, hcrossed, by decide +kernel, _, _, rfl, by decide +kernel⟩

end Service

end ScriptHost
