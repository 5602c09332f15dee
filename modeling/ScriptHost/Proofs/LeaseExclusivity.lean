import ScriptHost.Nest.Callers
import ScriptHost.Proofs.LeaseAccounts

/-!
Lease exclusivity for the callers of a prompt nest. A state is reached by any number of
steps, polls and drops included, and by frames that are pushed to be run in and left
again, whatever was done in them. In every such state the invoker of each frame ever
made is in exactly one place, so that no release and no withdrawal finds its queue
occupied.
-/

namespace ScriptHost.Nest.Callers

/-- The states that the callers of a nest reach, with the handles of the frames that are
being run in, innermost first. -/
inductive Reachable : Callers → List Handle → Prop
  | start (engine : Engine) : Reachable { engine } []
  | step {c : Callers} {running : List Handle} (s : Step) (x : Answer × Callers)
      (hc : Reachable c running) (hs : ∀ kind inner panic, s ≠ .runPushed kind inner panic)
      (hx : x ∈ c.step s) : Reachable x.2 running
  | enter {c : Callers} {running : List Handle} (kind : FrameKind) (h : Handle) (nest : Nest)
      (hc : Reachable c running)
      (hh : (c.nest.push kind).2.tryLease (c.nest.push kind).1 false = some (h, nest)) :
      Reachable { c with nest } (h :: running)
  | leave {c : Callers} {h : Handle} {running : List Handle} (a : Answer)
      (hc : Reachable c (h :: running)) : Reachable (c.leavePushed h.frame h a).2 running

/-- The handles that are out, those of the frames being run in included. -/
def handles (c : Callers) (running : List Handle) : List Handle :=
  c.held.map Prod.snd ++ running

def live (c : Callers) (running : List Handle) : Multiset (Nat × Nat) :=
  ↑((c.handles running).map Handle.lease)

def waiting (c : Callers) : Multiset (Nat × Nat) :=
  ↑(c.pending.map fun p => (p.2.frame, p.2.ticket))

/-- The account of the nest is that of its callers, and a name stands for one of them. -/
structure Accounted (c : Callers) (running : List Handle) : Prop where
  nest : c.nest.Accounted (c.live running) c.waiting
  pending_nodup : (c.pending.map Prod.fst).Nodup
  held_nodup : (c.held.map Prod.fst).Nodup

section Names

variable {c : Callers} {running : List Handle} {name : String}

/-- The lease of a frame that is being run in is one of those that are out. -/
theorem live_running (c : Callers) (handle : Handle) (running : List Handle) :
    c.live (handle :: running) = handle.lease ::ₘ c.live running := by
  simp only [live, handles, Multiset.cons_coe, Multiset.coe_eq_coe]
  exact List.perm_middle.map Handle.lease

theorem waiting_forget {call : Call} (h : c.Accounted running)
    (hcall : c.pending.lookup name = some call) :
    c.waiting = (call.frame, call.ticket) ::ₘ (c.forget name).waiting := by
  have hperm := (perm_of_lookup h.pending_nodup hcall).map fun p => (p.2.frame, p.2.ticket)
  simpa [waiting, forget] using hperm

theorem waiting_forget_none (hcall : c.pending.lookup name = none) :
    (c.forget name).waiting = c.waiting := by
  simp [waiting, forget, filter_of_lookup_none hcall]

theorem live_unheld {handle : Handle} (h : c.Accounted running)
    (hheld : c.held.lookup name = some handle) :
    c.live running =
      handle.lease ::ₘ { c with held := c.held.filter (·.1 != name) }.live running := by
  have hperm := (perm_of_lookup h.held_nodup hheld).map Prod.snd
  simp only [live, handles, Multiset.cons_coe, Multiset.coe_eq_coe]
  exact (hperm.append_right running).map Handle.lease

theorem nodup_names_filter {β : Type} {l : List (String × β)} (name : String)
    (h : (l.map Prod.fst).Nodup) : ((l.filter (·.1 != name)).map Prod.fst).Nodup :=
  h.sublist (List.filter_sublist.map Prod.fst)

theorem name_not_in_filter {β : Type} (l : List (String × β)) (name : String) :
    name ∉ (l.filter (·.1 != name)).map Prod.fst := by
  intro hmem
  obtain ⟨p, hp, rfl⟩ := List.mem_map.mp hmem
  simpa using (List.mem_filter.mp hp).2

end Names

/-- An answer that is not a panic, and an account that is kept. -/
def Sound (running : List Handle) (x : Answer × Callers) : Prop :=
  x.2.Accounted running ∧ ∀ p, x.1 ≠ .panicked p

section Moves

variable {c : Callers} {running : List Handle} {name : String}

theorem releasing_sound {handle : Handle} {a : Answer}
    (hnest : c.nest.Accounted (handle.lease ::ₘ c.live running) c.waiting)
    (hpending : (c.pending.map Prod.fst).Nodup) (hheld : (c.held.map Prod.fst).Nodup)
    (ha : ∀ p, a ≠ .panicked p) :
    (c.releasing handle a).1 = a ∧ Sound running (c.releasing handle a) := by
  obtain ⟨hkept, hpanic⟩ := hnest.release
  unfold releasing
  rcases hrelease : c.nest.release handle with ⟨nest, panic⟩
  rw [hrelease] at hkept hpanic
  cases hpanic
  exact ⟨rfl, ⟨hkept, hpending, hheld⟩, ha⟩

/-- A handle that is stored under a name pushes out the one held there before. -/
theorem hold_sound {handle : Handle}
    (hnest : c.nest.Accounted (handle.lease ::ₘ c.live running) c.waiting)
    (hpending : (c.pending.map Prod.fst).Nodup) (hheld : (c.held.map Prod.fst).Nodup) :
    Sound running (c.hold name handle) := by
  have hnames : (((name, handle) :: c.held.filter (·.1 != name)).map Prod.fst).Nodup := by
    simp only [List.map_cons, List.nodup_cons]
    exact ⟨name_not_in_filter c.held name, nodup_names_filter name hheld⟩
  unfold hold
  cases hold : c.held.lookup name with
  | none =>
    refine ⟨⟨?_, hpending, hnames⟩, by simp⟩
    simpa [live, handles, waiting, filter_of_lookup_none hold] using hnest
  | some old =>
    have hperm := (perm_of_lookup hheld hold).map Prod.snd
    have hlive : handle.lease ::ₘ c.live running =
        old.lease ::ₘ { c with held := (name, handle) :: c.held.filter (·.1 != name) }.live
          running := by
      simp only [live, handles, Multiset.cons_coe, Multiset.coe_eq_coe, List.map_cons,
        List.cons_append]
      refine (((hperm.append_right running).map Handle.lease).cons _).trans ?_
      exact List.Perm.swap _ _ _
    rw [hlive] at hnest
    have hanswer : ∀ p, Answer.leased (c.nest.view handle) ≠ .panicked p := by simp
    exact (releasing_sound
      (c := { c with held := (name, handle) :: c.held.filter (·.1 != name) })
      hnest hpending hnames hanswer).2

/-- What a caller does with an answer of its queue. Its old place in the line is given up
before. -/
theorem settle_sound {call : Call} {taking : Taking Nat} {nest : Nest}
    (hnest : nest.Accounted (taking.lease call.frame + c.live running)
      (taking.place call.frame + (c.forget name).waiting))
    (hpending : (c.pending.map Prod.fst).Nodup) (hheld : (c.held.map Prod.fst).Nodup) :
    Sound running (c.settle name call (taking, nest)) := by
  have hforget := nodup_names_filter name hpending
  cases taking with
  | item invoker =>
    simp only [Taking.lease, Taking.place, Multiset.singleton_add, zero_add] at hnest
    have hlease : (nest.lease call.frame invoker call.forReading).2.Accounted
        ((call.frame, invoker) ::ₘ c.live running) (c.forget name).waiting := by
      unfold lease
      split
      · exact hnest.setReading true
      · exact hnest
    exact hold_sound hlease hforget hheld
  | failed e =>
    simp only [Taking.lease, Taking.place, zero_add] at hnest
    exact ⟨⟨hnest, hforget, hheld⟩, by simp [settle]⟩
  | waiting ticket =>
    simp only [Taking.lease, Taking.place, Multiset.singleton_add, zero_add] at hnest
    refine ⟨⟨?_, ?_, hheld⟩, by simp [settle]⟩
    · have hwaiting : ((call.frame, ticket) ::ₘ (c.forget name).waiting) =
          (c.settle name call (.waiting ticket, nest)).2.waiting := by
        simp only [settle, waiting, forget, List.map_append, List.map_cons, List.map_nil,
          Multiset.cons_coe, Multiset.coe_eq_coe]
        exact (List.perm_append_singleton _ _).symm
      rw [hwaiting] at hnest
      exact hnest
    · simp only [settle, forget, List.map_append, List.map_cons, List.map_nil]
      refine List.nodup_append.mpr ⟨hforget, by simp, ?_⟩
      intro a ha b hb hab
      have hname : a = name := hab.trans (by simpa using hb)
      rw [hname] at ha
      exact name_not_in_filter c.pending name ha

theorem ask_sound {call : Call} (h : c.Accounted running)
    (hfree : c.pending.lookup name = none) (hframe : call.frame < c.nest.frames.length) :
    Sound running (c.ask name call) := by
  refine settle_sound ?_ h.pending_nodup h.held_nodup
  rw [waiting_forget_none hfree]
  exact h.nest.ask hframe (c.isCancelled call.token)

theorem lookup_forget (c : Callers) (name : String) :
    (c.forget name).pending.lookup name = none := by
  apply List.lookup_eq_none_iff.mpr
  intro p hp
  have hne := (List.mem_filter.mp hp).2
  simpa [bne_comm] using hne

/-- A caller whose frame was popped asks again on the innermost frame. -/
theorem pollCall_sound {call : Call} (h : c.Accounted running)
    (hcall : c.pending.lookup name = some call) : Sound running (c.pollCall name call) := by
  have hnest := h.nest
  rw [waiting_forget h hcall] at hnest
  have hlook := hnest.look (c.isCancelled call.token)
  have hsettle : Sound running
      (c.settle name call (c.nest.look call.frame call.ticket (c.isCancelled call.token))) :=
    settle_sound hlook h.pending_nodup h.held_nodup
  unfold pollCall
  split
  · next what nest hlooked =>
    rw [hlooked] at hlook hsettle
    split
    · -- asking again under its own name: the old place in the line is gone
      have hforgot : ({ c with nest }.forget name).Accounted running := by
        refine ⟨?_, nodup_names_filter name h.pending_nodup, h.held_nodup⟩
        simp only [Taking.lease, Taking.place, zero_add] at hlook
        exact hlook
      refine settle_sound ?_ h.pending_nodup h.held_nodup
      exact hforgot.nest.ask (top_lt hforgot.nest) (c.isCancelled call.token)
    · exact hsettle
  · exact hsettle

theorem drop_sound (h : c.Accounted running) (name : String) :
    Sound running (c.drop name) ∧ (c.drop name).2.pending.lookup name = none := by
  unfold drop
  cases hcall : c.pending.lookup name with
  | none => exact ⟨⟨h, by simp⟩, hcall⟩
  | some call =>
    have hnest := h.nest
    rw [waiting_forget h hcall] at hnest
    obtain ⟨hkept, hpanic⟩ := hnest.withdraw
    rcases hwithdraw : c.nest.withdraw call.frame call.ticket with ⟨nest, panic⟩
    rw [hwithdraw] at hkept hpanic
    cases hpanic
    simp only [hwithdraw]
    exact ⟨⟨⟨hkept, nodup_names_filter name h.pending_nodup, h.held_nodup⟩, by simp⟩,
      lookup_forget c name⟩

theorem withdraw_frames (n : Nest) (frame ticket : Nat) :
    (n.withdraw frame ticket).1.frames.length = n.frames.length := by
  simp [withdraw]

theorem drop_frames (c : Callers) (name : String) :
    (c.drop name).2.nest.frames.length = c.nest.frames.length := by
  unfold drop
  cases c.pending.lookup name with
  | none => rfl
  | some call =>
    have hlength := withdraw_frames c.nest call.frame call.ticket
    rcases hwithdraw : c.nest.withdraw call.frame call.ticket with ⟨nest, panic⟩
    rw [hwithdraw] at hlength
    simp only [hwithdraw]
    cases panic <;> exact hlength

theorem start_sound {call : Call} (h : c.Accounted running)
    (hframe : call.frame < c.nest.frames.length) : Sound running (c.start name call) := by
  obtain ⟨hdrop, hfree⟩ := drop_sound h name
  exact ask_sound hdrop.1 hfree (by rwa [drop_frames])

theorem popping_sound {r : Except ExecutionError (Nat × Nest)} (h : c.Accounted running)
    (hr : ∀ id nest, r = .ok (id, nest) → nest.Accounted (c.live running) c.waiting) :
    Sound running (c.popping r) := by
  rcases r with e | ⟨id, nest⟩
  · exact ⟨h, by simp [popping]⟩
  · exact ⟨⟨hr id nest rfl, h.pending_nodup, h.held_nodup⟩, by simp [popping]⟩

/-- Leaving a frame gives its lease back and answers as the steps in it did. -/
theorem leavePushed_sound {handle : Handle} {a : Answer}
    (h : c.Accounted (handle :: running)) :
    (c.leavePushed handle.frame handle a).1 = a ∧
      (c.leavePushed handle.frame handle a).2.Accounted running := by
  have hpop : Sound (handle :: running) (c.popping (c.nest.popFrame handle.frame)) :=
    popping_sound h fun id nest hr => h.nest.popFrame hr
  have hnest := hpop.1.nest
  rw [live_running] at hnest
  obtain ⟨hkept, hpanic⟩ := hnest.release
  unfold leavePushed releasing
  rcases hrelease : (c.popping (c.nest.popFrame handle.frame)).2.nest.release handle
    with ⟨nest, panic⟩
  rw [hrelease] at hkept hpanic
  cases hpanic
  exact ⟨rfl, hkept, hpop.1.pending_nodup, hpop.1.held_nodup⟩

theorem withHandle_sound {f : Handle → Answer × Callers} (h : c.Accounted running)
    (hf : ∀ handle, c.held.lookup name = some handle → Sound running (f handle)) :
    Sound running (c.withHandle name f) := by
  unfold withHandle
  cases hheld : c.held.lookup name with
  | none => exact ⟨h, by simp⟩
  | some handle => exact hf handle hheld

theorem step_sound (h : c.Accounted running) (s : Step)
    (hs : ∀ kind inner panic, s ≠ .runPushed kind inner panic) :
    ∀ x ∈ c.step s, Sound running x := by
  intro x hx
  cases s with
  | push kind =>
    obtain rfl := List.mem_singleton.mp (by simpa [step] using hx)
    exact ⟨⟨h.nest.push kind, h.pending_nodup, h.held_nodup⟩, by simp⟩
  | pop =>
    obtain rfl : x = _ := by simpa [step] using hx
    exact popping_sound h fun id nest hr => h.nest.pop hr
  | popFrame frame =>
    obtain rfl : x = _ := by simpa [step] using hx
    exact popping_sound h fun id nest hr => h.nest.popFrame hr
  | get name token forReading =>
    obtain rfl : x = _ := by simpa [step] using hx
    exact start_sound h (top_lt h.nest)
  | take name frame token forReading =>
    rw [step] at hx
    split at hx
    · next hframe =>
      obtain rfl := List.mem_singleton.mp hx
      exact start_sound h hframe
    · obtain rfl := List.mem_singleton.mp hx
      exact ⟨h, by simp⟩
  | tryTake name frame forReading =>
    rw [step] at hx
    split at hx
    · obtain rfl := List.mem_singleton.mp hx
      exact ⟨h, by simp⟩
    · next handle nest hlease =>
      obtain rfl := List.mem_singleton.mp hx
      have hnest := h.nest.tryLease (lt_of_tryLease hlease) hlease
      exact hold_sound hnest h.pending_nodup h.held_nodup
  | poll name =>
    obtain rfl : x = _ := by simpa [step] using hx
    unfold poll
    cases hcall : c.pending.lookup name with
    | none => exact ⟨h, by simp⟩
    | some call => exact pollCall_sound h hcall
  | drop name =>
    obtain rfl : x = _ := by simpa [step] using hx
    exact (drop_sound h name).1
  | cancel token =>
    obtain rfl : x = _ := by simpa [step] using hx
    exact ⟨⟨h.nest, h.pending_nodup, h.held_nodup⟩, by simp⟩
  | release name =>
    obtain rfl : x = _ := by simpa [step] using hx
    refine withHandle_sound h fun handle hheld => ?_
    have hnest := h.nest
    rw [live_unheld h hheld] at hnest
    have hanswer : ∀ p, Answer.handle (c.nest.view handle) ≠ .panicked p := by simp
    exact (releasing_sound (c := { c with held := c.held.filter (·.1 != name) }) hnest
      h.pending_nodup (nodup_names_filter name h.held_nodup) hanswer).2
  | invoke name command addToHistory =>
    obtain rfl : x = _ := by simpa [step] using hx
    exact withHandle_sound h fun handle _ =>
      ⟨⟨h.nest, h.pending_nodup, h.held_nodup⟩, by simp [onEngine]⟩
  | readLine name line =>
    obtain rfl : x = _ := by simpa [step] using hx
    exact withHandle_sound h fun handle _ =>
      ⟨⟨h.nest, h.pending_nodup, h.held_nodup⟩, by simp [onEngine]⟩
  | describeFrame frame =>
    obtain rfl : x = _ := by simpa [step] using hx
    exact ⟨h, by simp⟩
  | describeHandle name =>
    obtain rfl : x = _ := by simpa [step] using hx
    exact withHandle_sound h fun handle _ => ⟨h, by simp⟩
  | runPushed kind inner panic => exact absurd rfl (hs kind inner panic)

/-- Entering a pushed frame takes its lease, which is there. -/
theorem enter_accounted {kind : FrameKind} {handle : Handle} {nest : Nest}
    (h : c.Accounted running)
    (hh : (c.nest.push kind).2.tryLease (c.nest.push kind).1 false = some (handle, nest)) :
    { c with nest }.Accounted (handle :: running) := by
  have hnest := (h.nest.push kind).tryLease (lt_of_tryLease hh) hh
  refine ⟨?_, h.pending_nodup, h.held_nodup⟩
  rw [live_running]
  exact hnest

theorem start_accounted (engine : Engine) : ({ engine } : Callers).Accounted [] :=
  ⟨initial_accounted, by simp, by simp⟩

theorem accounted_of_reachable (h : Reachable c running) : c.Accounted running := by
  induction h with
  | start engine => exact start_accounted engine
  | step s x _ hs hx ih => exact (step_sound ih s hs x hx).1
  | enter kind handle nest _ hh ih => exact enter_accounted ih hh
  | leave a _ ih => exact (leavePushed_sound ih).2

end Moves

mutual

/-- What the steps in pushed frames end with when they panic. -/
def ownPanics : Step → List String
  | .runPushed _ inner panic => ownPanicsAll inner ++ panic.toList
  | _ => []

def ownPanicsAll : List Step → List String
  | [] => []
  | s :: rest => ownPanics s ++ ownPanicsAll rest

end

/-- A state that is reached, inside the frames that a step has entered and not left, with an
answer that panics for one of the `own` reasons only. -/
def Passing (running : List Handle) (own : List String) (x : Answer × Callers) : Prop :=
  (∃ inner, Reachable x.2 (inner ++ running)) ∧
    ∀ p, x.1 = .panicked p → ∃ what ∈ own, p = .text what

theorem Passing.mono {running : List Handle} {own more : List String} {x : Answer × Callers}
    (h : Passing running own x) (hmore : own ⊆ more) : Passing running more x := by
  refine ⟨h.1, fun p hp => ?_⟩
  obtain ⟨what, hmem, rfl⟩ := h.2 p hp
  exact ⟨what, hmore hmem, rfl⟩

theorem passing_of_single {c : Callers} {running : List Handle} (h : Reachable c running)
    (s : Step) (hs : ∀ kind inner panic, s ≠ .runPushed kind inner panic)
    (hone : (c.step s).length = 1) :
    (∀ x ∈ c.step s, Passing running (ownPanics s) x) ∧
      ∃ x, (c.step s).getLast? = some x ∧ Reachable x.2 running := by
  obtain ⟨x, hx⟩ := List.length_eq_one_iff.mp hone
  have hmem : x ∈ c.step s := by simp [hx]
  have hreach : Reachable x.2 running := h.step s x hs hmem
  have hanswer := (step_sound (accounted_of_reachable h) s hs x hmem).2
  refine ⟨?_, x, by simp [hx], hreach⟩
  intro y hy
  obtain rfl : y = x := by simpa [hx] using hy
  exact ⟨⟨[], hreach⟩, fun p hp => absurd hp (hanswer p)⟩

mutual

theorem passing_of_mem_step {c : Callers} {running : List Handle} (h : Reachable c running) :
    ∀ s : Step, (∀ x ∈ c.step s, Passing running (ownPanics s) x) ∧
      ∃ x, (c.step s).getLast? = some x ∧ Reachable x.2 running
  | .runPushed kind inner panic => by
    rw [step]
    rcases hlease : (c.nest.push kind).2.tryLease (c.nest.push kind).1 false with _ | ⟨handle, nest⟩
    · obtain ⟨handle, nest, hsome⟩ := tryLease_push c.nest kind
      rw [hlease] at hsome
      cases hsome
    · have henter := h.enter kind handle nest hlease
      obtain ⟨hmem, hlast⟩ := passing_of_mem_steps henter inner
      have hframe : (c.nest.push kind).1 = handle.frame := (frame_of_tryLease hlease).symm
      simp only [hlease]
      rw [hframe]
      refine ⟨?_, _, List.getLast?_concat, hlast.leave _⟩
      intro x hx
      rcases List.mem_append.mp hx with hx | hx
      · have hown : ownPanicsAll inner ⊆ ownPanics (.runPushed kind inner panic) := by
          simp [ownPanics]
        obtain ⟨⟨more, hr⟩, hpanic⟩ := (hmem x hx).mono hown
        exact ⟨⟨more ++ [handle], by simpa using hr⟩, hpanic⟩
      · obtain rfl := List.mem_singleton.mp hx
        refine ⟨⟨[], hlast.leave _⟩, ?_⟩
        rw [(leavePushed_sound (accounted_of_reachable hlast)).1]
        intro p hp
        cases panic with
        | none => cases hp
        | some what => exact ⟨what, by simp [ownPanics], by simpa using hp.symm⟩
  | .push _ => passing_of_single h _ (by simp) (by rw [step]; rfl)
  | .pop => passing_of_single h _ (by simp) (by rw [step]; rfl)
  | .popFrame _ => passing_of_single h _ (by simp) (by rw [step]; rfl)
  | .get _ _ _ => passing_of_single h _ (by simp) (by rw [step]; rfl)
  | .take _ _ _ _ => passing_of_single h _ (by simp) (by rw [step]; split <;> rfl)
  | .tryTake _ _ _ => passing_of_single h _ (by simp) (by rw [step]; split <;> rfl)
  | .poll _ => passing_of_single h _ (by simp) (by rw [step]; rfl)
  | .drop _ => passing_of_single h _ (by simp) (by rw [step]; rfl)
  | .cancel _ => passing_of_single h _ (by simp) (by rw [step]; rfl)
  | .release _ => passing_of_single h _ (by simp) (by rw [step]; rfl)
  | .invoke _ _ _ => passing_of_single h _ (by simp) (by rw [step]; rfl)
  | .readLine _ _ => passing_of_single h _ (by simp) (by rw [step]; rfl)
  | .describeFrame _ => passing_of_single h _ (by simp) (by rw [step]; rfl)
  | .describeHandle _ => passing_of_single h _ (by simp) (by rw [step]; rfl)

theorem passing_of_mem_steps {c : Callers} {running : List Handle} (h : Reachable c running) :
    ∀ ss : List Step, (∀ x ∈ c.steps ss, Passing running (ownPanicsAll ss) x) ∧
      Reachable (((c.steps ss).getLast?.map Prod.snd).getD c) running
  | [] => by
    rw [steps]
    exact ⟨by simp, h⟩
  | s :: rest => by
    obtain ⟨hmem, last, hlast, hreach⟩ := passing_of_mem_step h s
    obtain ⟨hmem', hreach'⟩ := passing_of_mem_steps hreach rest
    rw [steps, hlast, Option.map_some, Option.getD_some]
    refine ⟨?_, ?_⟩
    · intro x hx
      rcases List.mem_append.mp hx with hx | hx
      · exact (hmem x hx).mono (by simp [ownPanicsAll])
      · exact (hmem' x hx).mono (by simp [ownPanicsAll])
    · rw [List.getLast?_append, hlast]
      cases hrest : (steps last.2 rest).getLast? with
      | none => simpa using hreach
      | some y => simpa [hrest] using hreach'

end

inductive Site where
  | slot (frame : Nat)
  | transit (frame ticket : Nat)
  | handle (h : Handle)

/-- The places in which the queue of `frame` has `invoker`: its slot, or on the way to a
caller that was not polled since. -/
def queueSites (q : WaitQueue Nat) (frame invoker : Nat) : List Site :=
  (q.slot.toList.filter (· == invoker)).map (fun _ => .slot frame) ++
    (q.handed.filter (·.2 == invoker)).map fun p => .transit frame p.1

/-- Every place that has `invoker`, over all frames ever made and all handles that are out. -/
def sites (c : Callers) (running : List Handle) (invoker : Nat) : List Site :=
  (List.range c.nest.frames.length).flatMap
      (fun frame => queueSites (c.nest.frame frame).queue frame invoker) ++
    ((c.handles running).filter (·.invoker == invoker)).map .handle

/-- A place that belongs to `frame`. What is in transit is so to exactly one caller. -/
def Site.Belongs (c : Callers) (frame : Nat) : Site → Prop
  | slot f => f = frame
  | transit f ticket => f = frame ∧
      ∃ p, c.pending.filter (fun p => p.2.frame == f && p.2.ticket == ticket) = [p]
  | handle h => h.frame = frame

/-- What exclusivity comes to for the callers of a nest. -/
structure Exclusive (c : Callers) (running : List Handle) : Prop where
  one_place : ∀ i < c.nest.frames.length, ∃ site, c.sites running i = [site] ∧ site.Belongs c i
  one_handle : ((c.handles running).map Handle.frame).Nodup
  own_invoker : ∀ h ∈ c.handles running, h.invoker = h.frame
  release_fits : ∀ h ∈ c.handles running, (c.nest.release h).2 = none
  withdrawal_fits : ∀ p ∈ c.pending, (c.nest.withdraw p.2.frame p.2.ticket).2 = none
  step_fits : ∀ s, (∀ kind inner panic, s ≠ .runPushed kind inner panic) →
    ∀ x ∈ c.step s, ∀ p, x.1 ≠ .panicked p

theorem flatMap_range_single {β : Type} {f : Nat → List β} {i n : Nat} (hi : i < n)
    (h : ∀ j < n, j ≠ i → f j = []) : (List.range n).flatMap f = f i := by
  induction n with
  | zero => exact absurd hi (Nat.not_lt_zero i)
  | succ n ih =>
    rw [List.range_succ, List.flatMap_append, List.flatMap_singleton]
    by_cases hin : i = n
    · subst hin
      have hbelow : (List.range i).flatMap f = [] := by
        apply List.flatMap_eq_nil_iff.mpr
        intro j hj
        have hj := List.mem_range.mp hj
        exact h j (by omega) (by omega)
      rw [hbelow, List.nil_append]
    · rw [ih (by omega) fun j hj => h j (by omega), h n (by omega) (Ne.symm hin), List.append_nil]

theorem queueSites_of_not_mem {q : WaitQueue Nat} {frame invoker : Nat}
    (h : invoker ∉ q.items) : queueSites q frame invoker = [] := by
  simp only [WaitQueue.items, Multiset.mem_coe, List.mem_append, not_or] at h
  have hslot : q.slot.toList.filter (· == invoker) = [] := by
    apply List.filter_eq_nil_iff.mpr
    intro a ha heq
    exact h.1 (beq_iff_eq.mp heq ▸ ha)
  have hhanded : q.handed.filter (·.2 == invoker) = [] := by
    apply List.filter_eq_nil_iff.mpr
    intro p hp heq
    exact h.2 (beq_iff_eq.mp heq ▸ List.mem_map_of_mem hp)
  rw [queueSites, hslot, hhanded]
  rfl

/-- A single item is in the slot, or on its way under one ticket. -/
theorem queueSites_of_single {q : WaitQueue Nat} {invoker : Nat} (frame : Nat)
    (h : q.items = {invoker}) :
    queueSites q frame invoker = [.slot frame] ∨
      ∃ ticket ∈ q.tickets, queueSites q frame invoker = [.transit frame ticket] := by
  have hlist : q.slot.toList ++ q.handed.map Prod.snd = [invoker] :=
    List.perm_singleton.mp (Multiset.coe_eq_coe.mp h)
  rcases List.append_eq_singleton_iff.mp hlist with ⟨hslot, hhanded⟩ | ⟨hslot, hhanded⟩
  · obtain ⟨⟨ticket, a⟩, rest, heq, rfl, hrest⟩ := List.map_eq_cons_iff.mp hhanded
    obtain rfl : rest = [] := List.map_eq_nil_iff.mp hrest
    exact Or.inr ⟨ticket, by simp [WaitQueue.tickets, heq], by simp [queueSites, hslot, heq]⟩
  · obtain hhanded : q.handed = [] := List.map_eq_nil_iff.mp hhanded
    exact Or.inl (by simp [queueSites, hslot, hhanded])

section Sites

variable {c : Callers} {running : List Handle} {i : Nat}

theorem invoker_eq_frame (h : c.Accounted running) {handle : Handle}
    (hmem : handle ∈ c.handles running) : handle.invoker = handle.frame :=
  h.nest.invoker_eq (p := handle.lease) (Multiset.mem_coe.mpr (List.mem_map_of_mem hmem))

theorem handles_on_frame (h : c.Accounted running) (i : Nat) :
    ((c.handles running).filter (·.invoker == i)).map Handle.invoker =
      onFrame (c.live running) i := by
  have hsame : (c.handles running).filter (·.invoker == i) =
      (c.handles running).filter (·.frame == i) := by
    apply List.filter_congr
    intro handle hmem
    rw [invoker_eq_frame h hmem]
  rw [hsame]
  simp only [onFrame, live, Multiset.filter_coe, Multiset.map_coe, Multiset.coe_eq_coe,
    List.filter_map, List.map_map]
  rfl

/-- Only the queue of a frame can have its invoker. -/
theorem sites_eq (h : c.Accounted running) (hi : i < c.nest.frames.length) :
    c.sites running i = queueSites (c.nest.frame i).queue i i ++
      ((c.handles running).filter (·.invoker == i)).map .handle := by
  unfold sites
  rw [flatMap_range_single hi]
  intro j hj hji
  apply queueSites_of_not_mem
  intro hmem
  have hin : i ∈ ({j} : Multiset Nat) := by
    rw [← h.nest.invoker_once j hj]
    exact Multiset.mem_add.mpr (Or.inl hmem)
  exact hji (Multiset.mem_singleton.mp hin).symm

/-- A ticket that may still be served is that of exactly one caller. -/
theorem one_caller (h : c.Accounted running) (hi : i < c.nest.frames.length) {ticket : Nat}
    (ht : ticket ∈ (c.nest.frame i).queue.tickets) :
    ∃ p, c.pending.filter (fun p => p.2.frame == i && p.2.ticket == ticket) = [p] := by
  have hwaits : ticket ∈ onFrame c.waiting i :=
    Multiset.mem_of_le (h.nest.tickets_wait i hi) ht
  have honce := Multiset.count_eq_one_of_mem (h.nest.waiting_nodup i hi) hwaits
  apply List.length_eq_one_iff.mp
  rw [← List.countP_eq_length_filter, ← honce]
  simp only [onFrame, waiting, Multiset.filter_coe, Multiset.map_coe, Multiset.coe_count,
    List.count, List.countP_map, List.countP_filter]
  apply List.countP_congr
  intro p _
  simp [and_comm]

theorem exclusive_place (h : c.Accounted running) (hi : i < c.nest.frames.length) :
    ∃ site, c.sites running i = [site] ∧ site.Belongs c i := by
  rw [sites_eq h hi]
  have honce := h.nest.invoker_once i hi
  rw [← handles_on_frame h i] at honce
  have hcard := congrArg Multiset.card honce
  simp only [Multiset.card_add, Multiset.coe_card, List.length_map, Multiset.card_singleton]
    at hcard
  by_cases hempty : (c.nest.frame i).queue.items = 0
  · -- the queue has nothing, so that one handle is out
    rw [hempty, Multiset.card_zero, zero_add] at hcard
    obtain ⟨handle, hone⟩ := List.length_eq_one_iff.mp hcard
    have hmem := List.mem_filter.mp (hone ▸ List.mem_singleton_self handle)
    refine ⟨.handle handle, ?_, ?_⟩
    · rw [queueSites_of_not_mem (by simp [hempty]), hone]
      rfl
    · have hinvoker : handle.invoker = i := by simpa using hmem.2
      exact (invoker_eq_frame h hmem.1).symm.trans hinvoker
  · have hpos := Multiset.card_pos.mpr hempty
    have hnone : (c.handles running).filter (·.invoker == i) = [] :=
      List.length_eq_zero_iff.mp (by omega)
    rw [hnone] at honce ⊢
    rw [List.map_nil, List.append_nil]
    have hitems : (c.nest.frame i).queue.items = {i} := by simpa using honce
    rcases queueSites_of_single i hitems with hslot | ⟨ticket, ht, htransit⟩
    · exact ⟨_, hslot, rfl⟩
    · exact ⟨_, htransit, rfl, one_caller h hi ht⟩

theorem one_handle_each (h : c.Accounted running) :
    ((c.handles running).map Handle.frame).Nodup := by
  have hnodup := h.nest.live_nodup
  rw [live, Multiset.map_coe, Multiset.coe_nodup, List.map_map] at hnodup
  exact hnodup

theorem release_fits (h : c.Accounted running) {handle : Handle}
    (hmem : handle ∈ c.handles running) : (c.nest.release handle).2 = none := by
  have hin : handle.lease ∈ c.live running :=
    Multiset.mem_coe.mpr (List.mem_map_of_mem hmem)
  obtain ⟨others, hlive⟩ := Multiset.exists_cons_of_mem hin
  have hnest := h.nest
  rw [hlive] at hnest
  exact hnest.release.2

theorem withdrawal_fits (h : c.Accounted running) {p : String × Call} (hmem : p ∈ c.pending) :
    (c.nest.withdraw p.2.frame p.2.ticket).2 = none := by
  have hin : (p.2.frame, p.2.ticket) ∈ c.waiting :=
    Multiset.mem_coe.mpr (List.mem_map_of_mem hmem)
  obtain ⟨others, hwaiting⟩ := Multiset.exists_cons_of_mem hin
  have hnest := h.nest
  rw [hwaiting] at hnest
  exact hnest.withdraw.2

end Sites

theorem exclusive_of_reachable {c : Callers} {running : List Handle} (h : Reachable c running) :
    Exclusive c running := by
  have haccount := accounted_of_reachable h
  exact ⟨fun i hi => exclusive_place haccount hi, one_handle_each haccount,
    fun handle hmem => invoker_eq_frame haccount hmem,
    fun handle hmem => release_fits haccount hmem,
    fun p hmem => withdrawal_fits haccount hmem,
    fun s hs x hx => (step_sound haccount s hs x hx).2⟩

/-- In every state that callers reach, each frame ever made has its invoker in one place of
its own, so that a frame has one handle out at most and nothing that gives an invoker back
can find its queue occupied. It stays so through any further steps and inside the frames
they run in, and these panic only as the steps run there do. -/
theorem lease_exclusive {c : Callers} {running : List Handle} (h : Reachable c running) :
    Exclusive c running ∧
      ∀ ss, ∀ x ∈ c.steps ss, (∃ inner, Exclusive x.2 (inner ++ running)) ∧
        ∀ p, x.1 = .panicked p → ∃ what ∈ ownPanicsAll ss, p = .text what := by
  refine ⟨exclusive_of_reachable h, ?_⟩
  intro ss x hx
  obtain ⟨⟨inner, hinner⟩, hpanic⟩ := (passing_of_mem_steps h ss).1 x hx
  exact ⟨⟨inner, exclusive_of_reachable hinner⟩, hpanic⟩

/-- A lease that was released while a caller waits is on its way to that caller. -/
theorem lease_exclusive_in_transit : ∃ c, Reachable c [] ∧ c.sites [] 0 = [.transit 0 0] ∧
    Exclusive c [] :=
  have hget := (Reachable.start {}).step (.get "a" none false) _ (by simp)
    (List.mem_singleton_self _)
  have hwait := hget.step (.get "b" none false) _ (by simp) (List.mem_singleton_self _)
  have hrelease := hwait.step (.release "a") _ (by simp) (List.mem_singleton_self _)
  ⟨_, hrelease, by rfl, (lease_exclusive hrelease).1⟩

end ScriptHost.Nest.Callers
