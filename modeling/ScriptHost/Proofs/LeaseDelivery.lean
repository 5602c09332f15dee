import ScriptHost.Proofs.FrameStack
import ScriptHost.Proofs.LeaseExclusivity

/-!
From which frames the callers of a prompt nest get their handles. A frame that was
popped refuses those who ask and fails those who are parked on it. An invoker that was
already on its way to a caller when the frame was popped still arrives: that caller,
once it is polled, has a handle of a frame that has left the stack. There is no other
way to such a handle, and nothing sets out on this way once the frame is popped.
-/

namespace ScriptHost.Nest.Callers

section Changes

variable {c : Callers}

theorem releasing_served (c : Callers) (h : Handle) (a : Answer) :
    c.nest.Alike (c.releasing h a).2.nest ∧
      ∀ v, (c.releasing h a).1 = .leased v → a = .leased v := by
  have halike := alike_release c.nest h
  unfold releasing
  rcases hrelease : c.nest.release h with ⟨nest, _ | p⟩
  · rw [hrelease] at halike
    exact ⟨halike, fun v hv => hv⟩
  · rw [hrelease] at halike
    exact ⟨halike, by simp⟩

theorem hold_served (c : Callers) (name : String) (h : Handle) :
    c.nest.Alike (c.hold name h).2.nest ∧
      ∀ v, (c.hold name h).1 = .leased v → v = c.nest.view h := by
  unfold hold
  cases c.held.lookup name with
  | none => exact ⟨.refl _, fun v hv => by simpa using hv.symm⟩
  | some old =>
    obtain ⟨halike, hanswer⟩ := releasing_served
      { c with held := (name, h) :: c.held.filter (·.1 != name) } old
      (.leased (c.nest.view h))
    exact ⟨halike, fun v hv => by simpa using (hanswer v hv).symm⟩

theorem hold_answer (c : Callers) (name : String) (h : Handle) :
    (c.hold name h).1 = .leased (c.nest.view h) ∨ ∃ p, (c.hold name h).1 = .panicked p := by
  unfold hold releasing
  cases c.held.lookup name with
  | none => exact Or.inl rfl
  | some old =>
    dsimp only
    split
    · exact Or.inl rfl
    · next p _ => exact Or.inr ⟨p, rfl⟩

/-- A handle of `frame` that is delivered while the nest is, up to callers served, `n`. -/
structure Delivers (n : Nest) (frame : Nat) (x : Answer × Callers) : Prop where
  alike : n.Alike x.2.nest
  view : ∀ v, x.1 = .leased v → v.frame = frame ∧ v.popped = (n.frame frame).isPopped

theorem Delivers.of_alike {n n' : Nest} {frame : Nat} {x : Answer × Callers}
    (h : n.Alike n') (hx : Delivers n' frame x) : Delivers n frame x := by
  refine ⟨h.trans hx.alike, fun v hv => ?_⟩
  obtain ⟨hframe, hpopped⟩ := hx.view v hv
  exact ⟨hframe, hpopped.trans (h.isPopped frame)⟩

theorem hold_delivers (c : Callers) (name : String) (h : Handle) :
    Delivers c.nest h.frame (c.hold name h) := by
  obtain ⟨halike, hview⟩ := hold_served c name h
  refine ⟨halike, fun v hv => ?_⟩
  rw [hview v hv]
  exact ⟨rfl, rfl⟩

/-- A caller has a handle only if its queue gave it an item. -/
theorem settle_delivers (c : Callers) (name : String) (call : Call) (taking : Taking Nat)
    (nest : Nest) :
    Delivers nest call.frame (c.settle name call (taking, nest)) ∧
      ∀ v, (c.settle name call (taking, nest)).1 = .leased v → ∃ a, taking = .item a := by
  cases taking with
  | item invoker =>
    have hlease := alike_lease nest call.frame invoker call.forReading
    have hhold := hold_delivers
      ({ c with nest := (nest.lease call.frame invoker call.forReading).2 }.forget name) name
      (nest.lease call.frame invoker call.forReading).1
    exact ⟨hhold.of_alike hlease, fun _ _ => ⟨invoker, rfl⟩⟩
  | failed e => exact ⟨⟨.refl nest, by simp [settle]⟩, by simp [settle]⟩
  | waiting ticket => exact ⟨⟨.refl nest, by simp [settle]⟩, by simp [settle]⟩

/-- One who asks gets a handle only of a frame that is not popped. -/
theorem ask_delivers (c : Callers) (name : String) (call : Call) :
    Delivers c.nest call.frame (c.ask name call) ∧
      ∀ v, (c.ask name call).1 = .leased v → v.popped = false := by
  have halike := alike_ask c.nest call.frame (c.isCancelled call.token)
  have hopen := (WaitQueue.served_take (c.nest.frame call.frame).queue
    (c.isCancelled call.token)).2
  obtain ⟨hsettle, hitem⟩ := settle_delivers c name call
    (c.nest.ask call.frame (c.isCancelled call.token)).1
    (c.nest.ask call.frame (c.isCancelled call.token)).2
  have hdelivers : Delivers c.nest call.frame (c.ask name call) := hsettle.of_alike halike
  refine ⟨hdelivers, fun v hv => ?_⟩
  obtain ⟨a, ha⟩ := hitem v hv
  rw [(hdelivers.view v hv).2]
  exact hopen a ha

theorem drop_served (c : Callers) (name : String) : c.nest.Alike (c.drop name).2.nest := by
  unfold drop
  cases c.pending.lookup name with
  | none => exact .refl _
  | some call =>
    have halike := alike_withdraw c.nest call.frame call.ticket
    rcases hwithdraw : c.nest.withdraw call.frame call.ticket with ⟨nest, panic⟩
    rw [hwithdraw] at halike
    simp only [hwithdraw]
    cases panic <;> exact halike

theorem start_delivers (c : Callers) (name : String) (call : Call) :
    Delivers c.nest call.frame (c.start name call) ∧
      ∀ v, (c.start name call).1 = .leased v → v.popped = false := by
  obtain ⟨hdelivers, hopen⟩ := ask_delivers (c.drop name).2 name call
  exact ⟨hdelivers.of_alike (drop_served c name), hopen⟩

/-- The invoker that is on its way to a caller. -/
def onItsWay (c : Callers) (call : Call) : Option Nat :=
  (c.nest.frame call.frame).queue.handed.lookup call.ticket

/-- One who is polled gets the invoker that was on its way to it; one that follows may get
that of the innermost frame instead. -/
theorem pollCall_delivers (c : Callers) (name : String) (call : Call) :
    ∃ frame, Delivers c.nest frame (c.pollCall name call) ∧
      (frame = call.frame ∨ frame = c.nest.top) ∧
      ∀ v, (c.pollCall name call).1 = .leased v →
        v.popped = false ∨ v.frame = call.frame ∧ (c.onItsWay call).isSome := by
  have halike := alike_look c.nest call.frame call.ticket (c.isCancelled call.token)
  have hitem := (WaitQueue.served_look (c.nest.frame call.frame).queue call.ticket
    (c.isCancelled call.token)).2
  have hlooked : ∀ taking nest,
      c.nest.look call.frame call.ticket (c.isCancelled call.token) = (taking, nest) →
      Delivers c.nest call.frame (c.settle name call (taking, nest)) ∧
        ∀ v, (c.settle name call (taking, nest)).1 = .leased v →
          v.popped = false ∨ v.frame = call.frame ∧ (c.onItsWay call).isSome := by
    intro taking nest hlook
    obtain ⟨hsettle, hgot⟩ := settle_delivers c name call taking nest
    rw [hlook] at halike
    refine ⟨hsettle.of_alike halike, fun v hv => Or.inr ⟨(hsettle.view v hv).1, ?_⟩⟩
    obtain ⟨a, rfl⟩ := hgot v hv
    have hhanded := (hitem a).mp (congrArg Prod.fst hlook)
    rw [onItsWay, hhanded]
    rfl
  unfold pollCall
  split
  · next what nest hlook =>
    split
    · rw [hlook] at halike
      obtain ⟨hdelivers, hopen⟩ := ask_delivers { c with nest } name
        { call with frame := nest.top }
      exact ⟨nest.top, hdelivers.of_alike halike, Or.inr halike.top,
        fun v hv => Or.inl (hopen v hv)⟩
    · obtain ⟨hdelivers, hway⟩ := hlooked _ _ hlook
      exact ⟨call.frame, hdelivers, Or.inl rfl, hway⟩
  · obtain ⟨hdelivers, hway⟩ := hlooked _ _ rfl
    exact ⟨call.frame, hdelivers, Or.inl rfl, hway⟩

theorem popping_change {r : Except ExecutionError (Nat × Nest)}
    (hr : ∀ id nest, r = .ok (id, nest) → c.nest.Change nest) :
    c.nest.Change (c.popping r).2.nest ∧ ∀ v, (c.popping r).1 ≠ .leased v := by
  rcases r with e | ⟨id, nest⟩
  · exact ⟨.served (.refl _), by simp [popping]⟩
  · exact ⟨hr id nest rfl, by simp [popping]⟩

end Changes

/-- The step polls a caller of `frame` to which the invoker of the frame is on its way. -/
def Arrives (c : Callers) (s : Step) (frame : Nat) : Prop :=
  ∃ name call, s = .poll name ∧ c.pending.lookup name = some call ∧ call.frame = frame ∧
    (c.onItsWay call).isSome

/-- What a step can do: it serves callers, and may deliver a handle of a frame that is not
popped or whose invoker arrives; or it changes the stack, and delivers none. -/
inductive Outcome (c : Callers) (s : Step) (x : Answer × Callers) : Prop
  | delivery (frame : Nat) (hmade : frame < c.nest.frames.length) (h : Delivers c.nest frame x)
      (hfrom : ∀ v, x.1 = .leased v → v.popped = false ∨ c.Arrives s frame)
  | change (h : c.nest.Change x.2.nest) (hnone : ∀ v, x.1 ≠ .leased v)

section Steps

variable {c : Callers} {running : List Handle} {s : Step}

theorem Outcome.of_served {x : Answer × Callers} (h : c.nest.Alike x.2.nest)
    (hnone : ∀ v, x.1 ≠ .leased v) : Outcome c s x :=
  .change (.served h) hnone

theorem withHandle_outcome {name : String} {f : Handle → Answer × Callers}
    (hf : ∀ h, Outcome c s (f h)) : Outcome c s (c.withHandle name f) := by
  unfold withHandle
  cases c.held.lookup name with
  | none => exact .of_served (.refl _) (by simp)
  | some h => exact hf h

theorem start_outcome {name : String} {call : Call}
    (hmade : call.frame < c.nest.frames.length) : Outcome c s (c.start name call) := by
  obtain ⟨hdelivers, hopen⟩ := start_delivers c name call
  exact .delivery _ hmade hdelivers fun v hv => Or.inl (hopen v hv)

theorem poll_outcome (hc : c.Accounted running) (name : String) :
    Outcome c (.poll name) (c.poll name) := by
  unfold poll
  cases hcall : c.pending.lookup name with
  | none => exact .of_served (.refl _) (by simp)
  | some call =>
    have hwaits : (call.frame, call.ticket) ∈ c.waiting := by
      rw [waiting_forget hc hcall]
      exact Multiset.mem_cons_self _ _
    obtain ⟨frame, hdelivers, hframe, hway⟩ := pollCall_delivers c name call
    have hmade : frame < c.nest.frames.length := by
      rcases hframe with rfl | rfl
      · exact hc.nest.waiting_made _ hwaits
      · exact top_lt hc.nest
    refine .delivery frame hmade hdelivers fun v hv => ?_
    rcases hway v hv with hopen | ⟨hown, hsome⟩
    · exact Or.inl hopen
    · exact Or.inr ⟨name, call, rfl, hcall, hown.symm.trans (hdelivers.view v hv).1, hsome⟩

theorem drop_outcome (c : Callers) (name : String) : Outcome c s (c.drop name) := by
  refine .of_served (drop_served c name) ?_
  unfold drop
  cases c.pending.lookup name with
  | none => simp
  | some call =>
    dsimp only
    split <;> simp

theorem step_outcome (hc : c.Accounted running)
    (hs : ∀ kind inner panic, s ≠ .runPushed kind inner panic) {x : Answer × Callers}
    (hx : x ∈ c.step s) : Outcome c s x := by
  cases s with
  | push kind =>
    obtain rfl : x = _ := by simpa [step] using hx
    exact .change (.pushed kind) (by simp)
  | pop =>
    obtain rfl : x = _ := by simpa [step] using hx
    obtain ⟨hchange, hnone⟩ := popping_change (c := c) fun id nest hr => .popped hr
    exact .change hchange hnone
  | popFrame frame =>
    obtain rfl : x = _ := by simpa [step] using hx
    obtain ⟨hchange, hnone⟩ := popping_change (c := c) fun id nest hr => change_popFrame hr
    exact .change hchange hnone
  | get name token forReading =>
    obtain rfl : x = _ := by simpa [step] using hx
    exact start_outcome (top_lt hc.nest)
  | take name frame token forReading =>
    rw [step] at hx
    split at hx
    · next hmade =>
      obtain rfl := List.mem_singleton.mp hx
      exact start_outcome hmade
    · obtain rfl := List.mem_singleton.mp hx
      exact .of_served (.refl _) (by simp)
  | tryTake name frame forReading =>
    rw [step] at hx
    split at hx
    · obtain rfl := List.mem_singleton.mp hx
      exact .of_served (.refl _) (by simp)
    · next h nest hlease =>
      obtain rfl := List.mem_singleton.mp hx
      obtain ⟨hopen, halike⟩ := alike_tryLease hlease
      have hdelivers := (hold_delivers { c with nest } name h).of_alike halike
      rw [frame_of_tryLease hlease] at hdelivers
      refine .delivery _ (lt_of_tryLease hlease) hdelivers fun v hv => Or.inl ?_
      rw [(hdelivers.view v hv).2, hopen]
  | poll name =>
    obtain rfl : x = _ := by simpa [step] using hx
    exact poll_outcome hc name
  | drop name =>
    obtain rfl : x = _ := by simpa [step] using hx
    exact drop_outcome c name
  | cancel token =>
    obtain rfl : x = _ := by simpa [step] using hx
    exact .of_served (.refl _) (by simp)
  | release name =>
    obtain rfl : x = _ := by simpa [step] using hx
    refine withHandle_outcome fun h => ?_
    obtain ⟨halike, hanswer⟩ := releasing_served
      { c with held := c.held.filter (·.1 != name) } h (.handle (c.nest.view h))
    exact .of_served halike fun v hv => by simpa using hanswer v hv
  | invoke name command addToHistory =>
    obtain rfl : x = _ := by simpa [step] using hx
    exact withHandle_outcome fun h => .of_served (.refl _) (by simp)
  | readLine name line =>
    obtain rfl : x = _ := by simpa [step] using hx
    exact withHandle_outcome fun h => .of_served (.refl _) (by simp)
  | describeFrame frame =>
    obtain rfl : x = _ := by simpa [step] using hx
    exact .of_served (.refl _) (by simp)
  | describeHandle name =>
    obtain rfl : x = _ := by simpa [step] using hx
    exact withHandle_outcome fun h => .of_served (.refl _) (by simp)
  | runPushed kind inner panic => exact absurd rfl (hs kind inner panic)

theorem Outcome.nest_change {x : Answer × Callers} (h : Outcome c s x) :
    c.nest.Change x.2.nest := by
  cases h with
  | delivery frame hmade hdelivers hfrom => exact .served hdelivers.alike
  | change hchange hnone => exact hchange

/-- The frame of a handle that a step delivers, on a stack that the step leaves as it was. -/
theorem Outcome.of_leased {x : Answer × Callers} (h : Outcome c s x) {v : HandleView}
    (hv : x.1 = .leased v) :
    v.frame < c.nest.frames.length ∧ x.2.nest.stack = c.nest.stack ∧
      v.popped = (c.nest.frame v.frame).isPopped ∧ (v.popped = false ∨ c.Arrives s v.frame) := by
  cases h with
  | delivery frame hmade hdelivers hfrom =>
    obtain ⟨rfl, hpopped⟩ := hdelivers.view v hv
    exact ⟨hmade, hdelivers.alike.stack, hpopped, hfrom v hv⟩
  | change hchange hnone => exact absurd hv (hnone v)

theorem leavePushed_standing (hc : c.nest.Standing) (frame : Nat) (h : Handle) (a : Answer) :
    (c.leavePushed frame h a).2.nest.Standing := by
  have hpop := popping_change (c := c) (r := c.nest.popFrame frame)
    fun id nest hr => change_popFrame hr
  exact (hc.change hpop.1).of_alike (releasing_served _ h a).1

/-- In every state that callers reach, exactly the frames on the stack are not popped. -/
theorem standing_of_reachable (h : Reachable c running) : c.nest.Standing := by
  induction h with
  | start engine => exact initial_standing
  | step s x hc hs hx ih =>
    exact ih.change (step_outcome (accounted_of_reachable hc) hs hx).nest_change
  | enter kind h nest hc hh ih => exact (ih.push kind).of_alike (alike_tryLease hh).2
  | leave a hc ih => exact leavePushed_standing ih _ _ a

/-- An invoker that is on its way arrives when its caller is polled. -/
theorem leased_of_arrives (hc : c.Accounted running) {frame : Nat} (h : c.Arrives s frame)
    {x : Answer × Callers} (hx : x ∈ c.step s) : ∃ v, x.1 = .leased v ∧ v.frame = frame := by
  obtain ⟨name, call, rfl, hcall, rfl, hway⟩ := h
  obtain ⟨invoker, hinvoker⟩ := Option.isSome_iff_exists.mp hway
  have hpanic := (step_sound hc (.poll name) (by simp) x hx).2
  have hlook : (c.nest.look call.frame call.ticket (c.isCancelled call.token)).1 =
      .item invoker :=
    ((WaitQueue.served_look _ call.ticket _).2 invoker).mpr hinvoker
  rcases hlooked : c.nest.look call.frame call.ticket (c.isCancelled call.token)
    with ⟨taking, nest⟩
  rw [hlooked] at hlook
  cases hlook
  have hpoll : c.poll name = c.settle name call (.item invoker, nest) := by
    simp only [poll, hcall, pollCall, hlooked]
  obtain rfl : x = c.settle name call (.item invoker, nest) := by simpa [step, hpoll] using hx
  rcases hold_answer _ name _ with hleased | ⟨p, hp⟩
  · exact ⟨_, hleased, rfl⟩
  · exact absurd hp (hpanic p)

end Steps

/-- A handle that callers are given is of a popped frame exactly if the frame is not on the
stack, and that happens exactly to a caller which is polled when the invoker was already on
its way to it as its frame was popped. On a popped frame nothing sets out any more. -/
theorem leased_off_stack_iff {c : Callers} {running : List Handle} (h : Reachable c running)
    {s : Step} (hs : ∀ kind inner panic, s ≠ .runPushed kind inner panic) {x : Answer × Callers}
    (hx : x ∈ c.step s) :
    ((∃ v, x.1 = .leased v ∧ v.frame ∉ x.2.nest.stack) ↔
      ∃ frame, c.Arrives s frame ∧ frame ∉ c.nest.stack) ∧
    (∀ v, x.1 = .leased v → (v.popped = true ↔ v.frame ∉ x.2.nest.stack)) ∧
    ∀ frame < c.nest.frames.length, frame ∉ c.nest.stack →
      (x.2.nest.frame frame).queue.handed.Sublist (c.nest.frame frame).queue.handed := by
  have hc := accounted_of_reachable h
  have hstanding := standing_of_reachable h
  have hout := step_outcome hc hs hx
  have hpopped_iff : ∀ v, x.1 = .leased v → (v.popped = true ↔ v.frame ∉ x.2.nest.stack) := by
    intro v hv
    obtain ⟨hmade, hstack, hpopped, -⟩ := hout.of_leased hv
    rw [hstack, hpopped, hstanding.popped_iff v.frame hmade]
  refine ⟨⟨?_, ?_⟩, hpopped_iff, fun frame hmade hoff => ?_⟩
  · rintro ⟨v, hv, hoff⟩
    obtain ⟨-, hstack, -, hopen | harrives⟩ := hout.of_leased hv
    · rw [(hpopped_iff v hv).mpr hoff] at hopen
      cases hopen
    · exact ⟨v.frame, harrives, hstack ▸ hoff⟩
  · rintro ⟨frame, harrives, hoff⟩
    obtain ⟨v, hv, rfl⟩ := leased_of_arrives hc harrives hx
    exact ⟨v, hv, (hout.of_leased hv).2.1 ▸ hoff⟩
  · exact hstanding.handed_of_change hout.nest_change hmade hoff

/-- A frame is pushed, one caller has its handle and another waits for it; the handle is given
back and the frame popped before the second caller is polled. -/
def overtaking : List Step :=
  [.push .normal, .get "a" none false, .get "b" none false, .release "a", .pop]

/-- The state that callers are in after some steps. -/
def after (ss : List Step) : Callers :=
  ((steps {} ss).getLast?.map Prod.snd).getD {}

theorem after_reachable (ss : List Step) : Reachable (after ss) [] :=
  (passing_of_mem_steps (.start {}) ss).2

theorem leased_off_stack_iff_overtaken :
    (after overtaking).Arrives (.poll "b") 1 ∧ 1 ∉ (after overtaking).nest.stack ∧
      ∃ v, ((after overtaking).poll "b").1 = .leased v ∧
        v.frame ∉ ((after overtaking).poll "b").2.nest.stack := by
  have harrives : (after overtaking).Arrives (.poll "b") 1 :=
    ⟨"b", _, rfl, rfl, rfl, rfl⟩
  have hoff : 1 ∉ (after overtaking).nest.stack := by decide
  have hmem : (after overtaking).poll "b" ∈ (after overtaking).step (.poll "b") := by simp [step]
  exact ⟨harrives, hoff, (leased_off_stack_iff (after_reachable overtaking) (by simp)
    hmem).1.mpr ⟨1, harrives, hoff⟩⟩

/-- A caller that is polled after its frame was popped is given a handle of that frame. -/
theorem leased_of_popped_frame :
    ¬ ∀ {c : Callers} {running : List Handle} {s : Step} {x : Answer × Callers} {v : HandleView},
      Reachable c running → x ∈ c.step s → x.1 = .leased v → v.frame ∈ x.2.nest.stack := by
  intro h
  have hmem : (after overtaking).poll "b" ∈ (after overtaking).step (.poll "b") := by simp [step]
  have hin := h (after_reachable overtaking) hmem rfl
  revert hin
  decide

end ScriptHost.Nest.Callers
