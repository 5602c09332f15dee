import ScriptHost.Proofs.LeaseDelivery

/-!
What steps in a pushed frame can do to the frames below it. Steps that address no frame
older than the pushed one, further pushes and frames run in inside it included, leave the
older frames and their place on the stack as they are. When they leave nothing on the
stack above the pushed frame, that frame goes with its lease in its own slot, and the nest
is for everybody else what it was.
-/

namespace ScriptHost.Nest

/-- The nest `n` has what `n₀` has, as it was, and over it only frames that are newer. -/
structure Over (n₀ n : Nest) : Prop where
  older : ∀ i < n₀.frames.length, n.frame i = n₀.frame i
  length : n₀.frames.length ≤ n.frames.length
  above : ∃ newer, n.above = newer ++ n₀.above ∧ ∀ i ∈ newer, n₀.frames.length ≤ i

section Over

variable {n₀ n n' : Nest} {i : Nat}

theorem Over.refl (n : Nest) : n.Over n :=
  ⟨fun _ _ => rfl, le_refl _, [], rfl, by simp⟩

/-- A change of one frame that is not older. -/
theorem Over.update (h : n₀.Over n) (hi : n₀.frames.length ≤ i) (f : Frame → Frame) :
    n₀.Over (n.update i f) := by
  refine ⟨fun j hj => ?_, ?_, h.above⟩
  · rw [frame_update_ne n i j f (by omega)]
    exact h.older j hj
  · rw [length_update]
    exact h.length

theorem Over.setQueue (h : n₀.Over n) (hi : n₀.frames.length ≤ i) (q : WaitQueue Nat) :
    n₀.Over (n.setQueue i q) :=
  h.update hi _

theorem Over.lease (h : n₀.Over n) (hi : n₀.frames.length ≤ i) (invoker : Nat)
    (forReading : Bool) : n₀.Over (n.lease i invoker forReading).2 := by
  unfold Nest.lease
  split
  · exact h.update hi _
  · exact h

theorem Over.tryLease {handle : Handle} {forReading : Bool} (h : n₀.Over n)
    (hi : n₀.frames.length ≤ i) (hlease : n.tryLease i forReading = some (handle, n')) :
    n₀.Over n' := by
  obtain ⟨⟨a, q⟩, -, heq⟩ := Option.map_eq_some_iff.mp hlease
  have hover := (h.setQueue hi q).lease hi a forReading
  dsimp only at heq
  rwa [heq] at hover

theorem Over.release {handle : Handle} (h : n₀.Over n)
    (hi : n₀.frames.length ≤ handle.frame) : n₀.Over (n.release handle).1 := by
  have hend : n₀.Over (n.endReading handle) := by
    unfold endReading
    split
    · exact h.update hi _
    · exact h
  unfold Nest.release
  dsimp only
  split
  · exact hend.setQueue hi _
  · exact hend

theorem Over.push (h : n₀.Over n) (kind : FrameKind) : n₀.Over (n.push kind).2 := by
  obtain ⟨newer, habove, hnewer⟩ := h.above
  refine ⟨fun j hj => ?_, ?_, n.frames.length :: newer, ?_, ?_⟩
  · rw [frame_push_of_lt kind (hj.trans_le h.length)]
    exact h.older j hj
  · rw [length_frames_push]
    exact h.length.trans (Nat.le_succ _)
  · simp [Nest.push, habove]
  · exact List.forall_mem_cons.mpr ⟨h.length, hnewer⟩

/-- The innermost frame is popped, and it is not older. -/
theorem Over.pop {frame : Nat} (h : n₀.Over n) (hi : n₀.frames.length ≤ n.top)
    (hbase : n₀.top < n₀.frames.length) (hpop : n.pop = .ok (frame, n')) : n₀.Over n' := by
  obtain ⟨newer, habove, hnewer⟩ := h.above
  have hstack := (pop_spec hpop).1
  have htop : n.top = frame := by simp [Nest.top, hstack]
  cases newer with
  | nil =>
    rw [List.nil_append] at habove
    have hsame : n.top = n₀.top := by rw [Nest.top, habove, Nest.top]
    omega
  | cons j newer =>
    obtain ⟨rfl, hrest⟩ := List.cons.inj (hstack.symm.trans habove)
    refine ⟨fun j hj => ?_, ?_, newer, hrest, fun j hj => hnewer j (List.mem_cons_of_mem _ hj)⟩
    · rw [frame_of_pop_ne hpop (by omega)]
      exact h.older j hj
    · rw [length_of_pop hpop]
      exact h.length

theorem Over.popFrame {frame id : Nat} (h : n₀.Over n) (hi : n₀.frames.length ≤ frame)
    (hbase : n₀.top < n₀.frames.length) (hpop : n.popFrame frame = .ok (id, n')) :
    n₀.Over n' := by
  obtain ⟨rfl, -, hpop⟩ := pop_of_popFrame hpop
  exact h.pop hi hbase hpop

end Over

namespace Callers

/-- The frames of what goes by a name: of the caller that is pending, and of the handle that is
held. A step that uses the name anew displaces both. -/
def framesOf (c : Callers) (name : String) : List Nat :=
  ((c.pending.lookup name).map Call.frame).toList ++ ((c.held.lookup name).map Handle.frame).toList

/-- Where a pending caller asks when it is polled after its frame was popped. -/
def nextFrames (c : Callers) (name : String) : List Nat :=
  match c.pending.lookup name with
  | some call => if call.follows && (c.nest.frame call.frame).isPopped then [c.nest.top] else []
  | none => []

/-- The frames that a step addresses, if it runs no further steps. -/
def addressed (c : Callers) : Step → List Nat
  | .pop => [c.nest.top]
  | .popFrame frame => [frame]
  | .get name _ _ => c.nest.top :: c.framesOf name
  | .take name frame _ _ => frame :: c.framesOf name
  | .tryTake name frame _ => frame.getD c.nest.top :: c.framesOf name
  | .poll name => c.framesOf name ++ c.nextFrames name
  | .drop name => c.framesOf name
  | .release name => c.framesOf name
  | _ => []

/-- The state after some steps. -/
def afterSteps (c : Callers) (ss : List Step) : Callers :=
  ((c.steps ss).getLast?.map Prod.snd).getD c

theorem afterSteps_single (c : Callers) (s : Step) :
    c.afterSteps [s] = ((c.step s).getLast?.map Prod.snd).getD c := by
  simp [afterSteps, steps]

/-- The state in which the steps in a pushed frame begin. -/
def entered (c : Callers) (kind : FrameKind) : Callers :=
  match (c.nest.push kind).2.tryLease (c.nest.push kind).1 false with
  | some (_, nest) => { c with nest }
  | none => { c with nest := (c.nest.push kind).2 }

mutual
/-- Whether a step addresses only frames from `bound` on, and so do the steps that it runs. -/
def within (bound : Nat) (c : Callers) : Step → Bool
  | .runPushed kind inner _ => withinAll bound (c.entered kind) inner
  | s => (c.addressed s).all fun i => bound ≤ i

def withinAll (bound : Nat) (c : Callers) : List Step → Bool
  | [] => true
  | s :: rest => c.within bound s && withinAll bound (c.afterSteps [s]) rest
end

section Moves

variable {n₀ : Nest} {c : Callers} {name : String}

theorem releasing_over {h : Handle} {a : Answer} (hover : n₀.Over c.nest)
    (hi : n₀.frames.length ≤ h.frame) : n₀.Over (c.releasing h a).2.nest := by
  have hrelease := hover.release hi
  unfold releasing
  rcases hcase : c.nest.release h with ⟨nest, _ | p⟩ <;> rwa [hcase] at hrelease

theorem hold_over {h : Handle} (hover : n₀.Over c.nest)
    (hname : ∀ i ∈ c.framesOf name, n₀.frames.length ≤ i) :
    n₀.Over (c.hold name h).2.nest := by
  unfold hold
  cases hheld : c.held.lookup name with
  | none => exact hover
  | some old => exact releasing_over hover (hname _ (by simp [framesOf, hheld]))

theorem framesOf_forget (hname : ∀ i ∈ c.framesOf name, n₀.frames.length ≤ i) :
    ∀ i ∈ (c.forget name).framesOf name, n₀.frames.length ≤ i := by
  intro i hi
  simp only [framesOf, lookup_forget, Option.map_none, Option.toList_none, List.nil_append] at hi
  exact hname i (List.mem_append_right _ hi)

theorem settle_over {call : Call} {taking : Taking Nat} {nest : Nest} (hover : n₀.Over nest)
    (hi : n₀.frames.length ≤ call.frame)
    (hname : ∀ i ∈ c.framesOf name, n₀.frames.length ≤ i) :
    n₀.Over (c.settle name call (taking, nest)).2.nest := by
  cases taking with
  | item invoker =>
    exact hold_over (hover.lease hi invoker call.forReading)
      (framesOf_forget (c := { c with nest := _ }) hname)
  | failed e => exact hover
  | waiting ticket => exact hover

theorem ask_over {call : Call} (hover : n₀.Over c.nest) (hi : n₀.frames.length ≤ call.frame)
    (hname : ∀ i ∈ c.framesOf name, n₀.frames.length ≤ i) :
    n₀.Over (c.ask name call).2.nest :=
  settle_over (hover.setQueue hi _) hi hname

theorem drop_over (hover : n₀.Over c.nest)
    (hname : ∀ i ∈ c.framesOf name, n₀.frames.length ≤ i) : n₀.Over (c.drop name).2.nest := by
  unfold drop
  cases hcall : c.pending.lookup name with
  | none => exact hover
  | some call =>
    have hi : n₀.frames.length ≤ call.frame := hname _ (by simp [framesOf, hcall])
    have hwithdraw : n₀.Over (c.nest.withdraw call.frame call.ticket).1 := hover.setQueue hi _
    dsimp only
    rcases hcase : c.nest.withdraw call.frame call.ticket with ⟨nest, _ | p⟩ <;>
      rwa [hcase] at hwithdraw

theorem framesOf_drop (hname : ∀ i ∈ c.framesOf name, n₀.frames.length ≤ i) :
    ∀ i ∈ (c.drop name).2.framesOf name, n₀.frames.length ≤ i := by
  unfold drop
  cases c.pending.lookup name with
  | none => exact hname
  | some call =>
    dsimp only
    split <;> exact framesOf_forget (c := { c with nest := _ }) hname

theorem start_over {call : Call} (hover : n₀.Over c.nest) (hi : n₀.frames.length ≤ call.frame)
    (hname : ∀ i ∈ c.framesOf name, n₀.frames.length ≤ i) :
    n₀.Over (c.start name call).2.nest :=
  ask_over (drop_over hover hname) hi (framesOf_drop hname)

theorem poll_over (hover : n₀.Over c.nest)
    (hname : ∀ i ∈ c.framesOf name, n₀.frames.length ≤ i)
    (hnext : ∀ i ∈ c.nextFrames name, n₀.frames.length ≤ i) : n₀.Over (c.poll name).2.nest := by
  unfold poll
  cases hcall : c.pending.lookup name with
  | none => exact hover
  | some call =>
    have hi : n₀.frames.length ≤ call.frame := hname _ (by simp [framesOf, hcall])
    have halike := alike_look c.nest call.frame call.ticket (c.isCancelled call.token)
    have hlooked : n₀.Over (c.nest.look call.frame call.ticket (c.isCancelled call.token)).2 :=
      hover.setQueue hi _
    dsimp only
    unfold pollCall
    split
    · next what nest hlook =>
      rw [hlook] at hlooked halike
      split
      · next hmoves =>
        have htop : n₀.frames.length ≤ nest.top := by
          rw [halike.isPopped] at hmoves
          rw [halike.top]
          exact hnext _ (by simp [nextFrames, hcall, hmoves])
        exact ask_over (c := { c with nest }) hlooked htop hname
      · exact settle_over hlooked hi hname
    · exact settle_over hlooked hi hname

theorem popping_over {r : Except ExecutionError (Nat × Nest)} (hover : n₀.Over c.nest)
    (hr : ∀ id nest, r = .ok (id, nest) → n₀.Over nest) : n₀.Over (c.popping r).2.nest := by
  rcases r with e | ⟨id, nest⟩
  · exact hover
  · exact hr id nest rfl

theorem leavePushed_over {frame : Nat} {h : Handle} {a : Answer} (hover : n₀.Over c.nest)
    (hbase : n₀.top < n₀.frames.length) (hi : n₀.frames.length ≤ frame) (hh : h.frame = frame) :
    n₀.Over (c.leavePushed frame h a).2.nest := by
  have hpop : n₀.Over (c.popping (c.nest.popFrame frame)).2.nest :=
    popping_over hover fun id nest hr => hover.popFrame hi hbase hr
  exact releasing_over hpop (hh ▸ hi)

theorem withHandle_over {f : Handle → Answer × Callers} (hover : n₀.Over c.nest)
    (hf : ∀ h, c.held.lookup name = some h → n₀.Over (f h).2.nest) :
    n₀.Over (c.withHandle name f).2.nest := by
  unfold withHandle
  cases hheld : c.held.lookup name with
  | none => exact hover
  | some h => exact hf h hheld

/-- A step that runs no further steps, and addresses no older frame. -/
theorem step_over (hover : n₀.Over c.nest) (hbase : n₀.top < n₀.frames.length) (s : Step)
    (hs : ∀ kind inner panic, s ≠ .runPushed kind inner panic)
    (haddressed : ∀ i ∈ c.addressed s, n₀.frames.length ≤ i) :
    ∀ x ∈ c.step s, n₀.Over x.2.nest := by
  intro x hx
  cases s with
  | push kind =>
    obtain rfl : x = _ := by simpa [step] using hx
    exact hover.push kind
  | pop =>
    obtain rfl : x = _ := by simpa [step] using hx
    exact popping_over hover fun id nest hr =>
      hover.pop (haddressed _ (by simp [addressed])) hbase hr
  | popFrame frame =>
    obtain rfl : x = _ := by simpa [step] using hx
    exact popping_over hover fun id nest hr =>
      hover.popFrame (haddressed _ (by simp [addressed])) hbase hr
  | get name token forReading =>
    obtain rfl : x = _ := by simpa [step] using hx
    obtain ⟨htop, hname⟩ := List.forall_mem_cons.mp haddressed
    exact start_over hover htop hname
  | take name frame token forReading =>
    obtain ⟨hframe, hname⟩ := List.forall_mem_cons.mp haddressed
    rw [step] at hx
    split at hx <;> obtain rfl := List.mem_singleton.mp hx
    · exact start_over hover hframe hname
    · exact hover
  | tryTake name frame forReading =>
    obtain ⟨hframe, hname⟩ := List.forall_mem_cons.mp haddressed
    rw [step] at hx
    split at hx
    · obtain rfl := List.mem_singleton.mp hx
      exact hover
    · next h nest hlease =>
      obtain rfl := List.mem_singleton.mp hx
      exact hold_over (hover.tryLease hframe hlease) hname
  | poll name =>
    obtain rfl : x = _ := by simpa [step] using hx
    obtain ⟨hname, hnext⟩ := List.forall_mem_append.mp haddressed
    exact poll_over hover hname hnext
  | drop name =>
    obtain rfl : x = _ := by simpa [step] using hx
    exact drop_over hover haddressed
  | cancel token =>
    obtain rfl : x = _ := by simpa [step] using hx
    exact hover
  | release name =>
    obtain rfl : x = _ := by simpa [step] using hx
    exact withHandle_over hover fun h hheld =>
      releasing_over hover (haddressed _ (by simp [addressed, framesOf, hheld]))
  | invoke name command addToHistory =>
    obtain rfl : x = _ := by simpa [step] using hx
    exact withHandle_over hover fun _ _ => hover
  | readLine name line =>
    obtain rfl : x = _ := by simpa [step] using hx
    exact withHandle_over hover fun _ _ => hover
  | describeFrame frame =>
    obtain rfl : x = _ := by simpa [step] using hx
    exact hover
  | describeHandle name =>
    obtain rfl : x = _ := by simpa [step] using hx
    exact withHandle_over hover fun _ _ => hover
  | runPushed kind inner panic => exact absurd rfl (hs kind inner panic)

theorem afterPlain_over (hover : n₀.Over c.nest) (hbase : n₀.top < n₀.frames.length) {s : Step}
    (hs : ∀ kind inner panic, s ≠ .runPushed kind inner panic)
    (hwithin : c.within n₀.frames.length s = true) : n₀.Over (c.afterSteps [s]).nest := by
  have haddressed : ∀ i ∈ c.addressed s, n₀.frames.length ≤ i := by
    cases s with
    | runPushed kind inner panic => exact absurd rfl (hs kind inner panic)
    | _ => simpa [within] using hwithin
  have hstep := step_over hover hbase s hs haddressed
  rw [afterSteps_single]
  cases hlast : (c.step s).getLast? with
  | none => exact hover
  | some x => exact hstep x (List.mem_of_getLast? hlast)

end Moves

section Runs

variable {n₀ : Nest} {c : Callers}

theorem afterSteps_cons (c : Callers) (s : Step) (rest : List Step) :
    c.afterSteps (s :: rest) = (c.afterSteps [s]).afterSteps rest := by
  rw [afterSteps_single, afterSteps, steps, List.getLast?_append, afterSteps]
  cases (steps (((c.step s).getLast?.map Prod.snd).getD c) rest).getLast? <;> rfl

theorem afterSteps_reachable {running : List Handle} (h : Reachable c running)
    (ss : List Step) : Reachable (c.afterSteps ss) running :=
  (passing_of_mem_steps h ss).2

/-- What the steps in a pushed frame end with: their panic, or the handle of the frame. -/
def ending (c : Callers) (h : Handle) : Option String → Answer
  | some what => .panicked (.text what)
  | none => .handle (c.nest.view h)

/-- The steps in a pushed frame begin with its lease, which is there, and are followed by
leaving the frame. -/
theorem step_runPushed (c : Callers) (kind : FrameKind) (inner : List Step)
    (panic : Option String) :
    ∃ h nest, (c.nest.push kind).2.tryLease c.nest.frames.length false = some (h, nest) ∧
      c.entered kind = { c with nest } ∧
      c.step (.runPushed kind inner panic) = (c.entered kind).steps inner ++
        [((c.entered kind).afterSteps inner).leavePushed c.nest.frames.length h
          ((c.entered kind).ending h panic)] := by
  obtain ⟨h, nest, hlease⟩ := tryLease_push c.nest kind
  have hentered : c.entered kind = { c with nest } := by simp only [entered, hlease]
  refine ⟨h, nest, hlease, hentered, ?_⟩
  rw [step, hentered]
  simp only [hlease]
  cases panic <;> rfl

theorem entered_over (hover : n₀.Over c.nest) (kind : FrameKind) :
    n₀.Over (c.entered kind).nest := by
  obtain ⟨h, nest, hlease, hentered, -⟩ := step_runPushed c kind [] none
  rw [hentered]
  exact (hover.push kind).tryLease hover.length hlease

mutual

/-- Steps that address no older frame leave the older frames as they are. -/
theorem afterStep_over {c : Callers} (hover : n₀.Over c.nest) (hbase : n₀.top < n₀.frames.length) :
    ∀ s : Step, c.within n₀.frames.length s = true → n₀.Over (c.afterSteps [s]).nest
  | .runPushed kind inner panic => by
    intro hwithin
    rw [within] at hwithin
    obtain ⟨h, nest, hlease, -, hstep⟩ := step_runPushed c kind inner panic
    have hinner := afterSteps_over (entered_over hover kind) hbase inner hwithin
    rw [afterSteps_single, hstep, List.getLast?_concat]
    exact leavePushed_over hinner hbase hover.length (frame_of_tryLease hlease)
  | .push _ => afterPlain_over hover hbase (by simp)
  | .pop => afterPlain_over hover hbase (by simp)
  | .popFrame _ => afterPlain_over hover hbase (by simp)
  | .get _ _ _ => afterPlain_over hover hbase (by simp)
  | .take _ _ _ _ => afterPlain_over hover hbase (by simp)
  | .tryTake _ _ _ => afterPlain_over hover hbase (by simp)
  | .poll _ => afterPlain_over hover hbase (by simp)
  | .drop _ => afterPlain_over hover hbase (by simp)
  | .cancel _ => afterPlain_over hover hbase (by simp)
  | .release _ => afterPlain_over hover hbase (by simp)
  | .invoke _ _ _ => afterPlain_over hover hbase (by simp)
  | .readLine _ _ => afterPlain_over hover hbase (by simp)
  | .describeFrame _ => afterPlain_over hover hbase (by simp)
  | .describeHandle _ => afterPlain_over hover hbase (by simp)

theorem afterSteps_over {c : Callers} (hover : n₀.Over c.nest) (hbase : n₀.top < n₀.frames.length) :
    ∀ ss : List Step, c.withinAll n₀.frames.length ss = true → n₀.Over (c.afterSteps ss).nest
  | [] => fun _ => hover
  | s :: rest => by
    intro hwithin
    rw [withinAll, Bool.and_eq_true] at hwithin
    rw [afterSteps_cons]
    exact afterSteps_over (afterStep_over hover hbase s hwithin.1) hbase rest hwithin.2

end

end Runs

section Leaving

variable {c : Callers} {running : List Handle}

/-- A lease that is out and comes back to a frame on which nobody is parked goes into the slot of
the frame, and nothing else is in its queue. -/
theorem queue_of_release {n : Nest} {live waiting : Multiset (Nat × Nat)} {h : Handle}
    (hn : n.Accounted (h.lease ::ₘ live) waiting) (hparked : (n.frame h.frame).queue.parked = []) :
    ((n.release h).1.frame h.frame).queue =
        { (n.frame h.frame).queue with slot := some h.frame } ∧
      (n.frame h.frame).queue.handed = [] := by
  have hout : h.lease ∈ h.lease ::ₘ live := Multiset.mem_cons_self _ _
  have hmade : h.frame < n.frames.length := hn.live_made _ hout
  have hinvoker : h.invoker = h.frame := hn.invoker_eq hout
  have hitems : (n.frame h.frame).queue.items = 0 := by
    have honce := congrArg Multiset.card (hn.invoker_once _ hmade)
    rw [Handle.lease, onFrame_cons_self, Multiset.card_add, Multiset.card_cons,
      Multiset.card_singleton] at honce
    exact Multiset.card_eq_zero.mp (by omega)
  obtain ⟨hslot, hhanded⟩ : (n.frame h.frame).queue.slot = none ∧
      (n.frame h.frame).queue.handed = [] := by
    simpa [WaitQueue.items] using hitems
  have hoffer : (n.frame h.frame).queue.offer h.invoker =
      some { (n.frame h.frame).queue with slot := some h.frame } := by
    simp only [WaitQueue.offer, hparked, hslot, hinvoker]
  refine ⟨?_, hhanded⟩
  simp only [Nest.release, queue_endReading, hoffer]
  rw [Nest.setQueue, frame_update_self _ _ _ (by rwa [length_endReading])]

/-- What the steps in a pushed frame leave behind, apart from frames that are popped: the stack
and the older frames as they were, and the pushed frame closed with its lease in its slot. -/
structure Isolated (c left : Callers) : Prop where
  stack : left.nest.stack = c.nest.stack
  older : ∀ i < c.nest.frames.length, left.nest.frame i = c.nest.frame i
  popped : (left.nest.frame c.nest.frames.length).isPopped = true
  parked : (left.nest.frame c.nest.frames.length).queue.parked = []
  handed : (left.nest.frame c.nest.frames.length).queue.handed = []
  slot : (left.nest.frame c.nest.frames.length).queue.slot = some c.nest.frames.length

/-- Nothing that is newer than the pushed frame is on the stack any more, so that popping the
pushed frame, unless this was done before, leaves the stack from before it. -/
theorem stack_without (hstanding : c.nest.Standing) {n : Nest} (hn : n.Standing)
    (hover : c.nest.Over n) (hempty : ∀ i ∈ n.above, i ≤ c.nest.frames.length) :
    (n.without c.nest.frames.length).stack = c.nest.stack := by
  obtain ⟨newer, habove, hnewer⟩ := hover.above
  have hstack : n.stack = newer ++ c.nest.stack := by simp [Nest.stack, habove]
  have hfresh : c.nest.frames.length ∉ c.nest.stack :=
    fun hmem => Nat.lt_irrefl _ (hstanding.stack_made _ hmem)
  have hone : ∀ i ∈ newer, i = c.nest.frames.length := fun i hi =>
    le_antisymm (hempty i (by simp [habove, hi])) (hnewer i hi)
  rcases n.without_spec c.nest.frames.length with hpop | ⟨hsame, htop⟩
  · -- it was innermost: the rest of what is newer would be the same frame again
    have hpopped := stack_of_pop hpop
    have hnodup := hn.stack_nodup
    rw [hstack] at hpopped hnodup
    cases newer with
    | nil =>
      rw [List.nil_append] at hpopped
      exact absurd (by rw [hpopped]; exact List.mem_cons_self ..) hfresh
    | cons i rest =>
      obtain rfl := hone i (List.mem_cons_self ..)
      rw [List.cons_append] at hpopped hnodup
      have hrest : rest = [] := by
        refine List.eq_nil_iff_forall_not_mem.mpr fun j hj => ?_
        obtain rfl := hone j (List.mem_cons_of_mem _ hj)
        exact (List.nodup_cons.mp hnodup).1 (List.mem_append_left _ hj)
      rw [hrest] at hpopped
      exact (List.cons.inj hpopped).2.symm
  · cases newer with
    | nil => rw [hsame, hstack, List.nil_append]
    | cons i rest =>
      obtain rfl := hone i (List.mem_cons_self ..)
      have hinnermost : c.nest.frames.length = n.top := by simp [Nest.top, habove]
      exact absurd (htop hinnermost) (by simp [habove])

theorem popping_without (c : Callers) (frame : Nat) :
    (c.popping (c.nest.popFrame frame)).2 = { c with nest := c.nest.without frame } := by
  unfold Nest.without
  cases c.nest.popFrame frame <;> rfl

/-- Leaving a pushed frame over which nothing is left on the stack. -/
theorem isolated_of_leavePushed {last : Callers} {h : Handle} {a : Answer}
    (hc : Reachable c running) (hlast : Reachable last (h :: running))
    (hframe : h.frame = c.nest.frames.length) (hover : c.nest.Over last.nest)
    (hempty : ∀ i ∈ last.nest.above, i ≤ c.nest.frames.length) :
    Isolated c (last.leavePushed c.nest.frames.length h a).2 := by
  have hstanding := standing_of_reachable hc
  have hlast_standing := standing_of_reachable hlast
  have hbase := top_lt (accounted_of_reachable hc).nest
  have hpop : (last.popping (last.nest.popFrame c.nest.frames.length)).2.Accounted
      (h :: running) :=
    (popping_sound (accounted_of_reachable hlast) fun id nest hr =>
      (accounted_of_reachable hlast).nest.popFrame hr).1
  have hleft := leavePushed_over (a := a) hover hbase le_rfl hframe
  have hstack := stack_without hstanding hlast_standing hover hempty
  have hstanding' := hlast_standing.change (change_without last.nest c.nest.frames.length)
  unfold leavePushed at hleft ⊢
  rw [popping_without] at hpop hleft ⊢
  have haccount : (last.nest.without c.nest.frames.length).Accounted
      (h.lease ::ₘ last.live running) last.waiting := by
    exact live_running last h running ▸ hpop.nest
  have hmade : h.frame < (last.nest.without c.nest.frames.length).frames.length :=
    haccount.live_made _ (Multiset.mem_cons_self _ _)
  have hoff : h.frame ∉ (last.nest.without c.nest.frames.length).stack := by
    rw [hstack, hframe]
    exact fun hmem => Nat.lt_irrefl _ (hstanding.stack_made _ hmem)
  have hclosed := (hstanding'.popped_iff _ hmade).mpr hoff
  have hparked := hstanding'.none_parked _ hclosed
  obtain ⟨hqueue, hhanded⟩ := queue_of_release haccount hparked
  have hnest : ({ last with nest := last.nest.without c.nest.frames.length }.releasing h
      a).2.nest = ((last.nest.without c.nest.frames.length).release h).1 := by
    unfold releasing
    rcases (last.nest.without c.nest.frames.length).release h with ⟨nest, _ | p⟩ <;> rfl
  rw [hframe] at hqueue hhanded hparked hclosed
  have halike := alike_release (last.nest.without c.nest.frames.length) h
  refine ⟨?_, hleft.older, ?_, ?_, ?_, ?_⟩
  · rw [hnest, halike.stack, hstack]
  · rw [hnest, Frame.isPopped, hqueue]
    exact hclosed
  · rw [hnest, hqueue]
    exact hparked
  · rw [hnest, hqueue]
    exact hhanded
  · rw [hnest, hqueue]

end Leaving

/-- Steps that are run in a pushed frame, address it and newer frames only and leave nothing on
the stack above it, isolate it, whether they end well or panic. -/
theorem isolated_of_runPushed {c : Callers} {running : List Handle} (h : Reachable c running)
    (kind : FrameKind) (inner : List Step) (panic : Option String)
    (hwithin : (c.entered kind).withinAll c.nest.frames.length inner = true)
    (hempty : ∀ i ∈ ((c.entered kind).afterSteps inner).nest.above, i ≤ c.nest.frames.length) :
    Isolated c (c.afterSteps [.runPushed kind inner panic]) ∧
      ∃ handle, handle.frame = c.nest.frames.length ∧
        (c.step (.runPushed kind inner panic)).getLast?.map Prod.fst =
          some ((c.entered kind).ending handle panic) := by
  obtain ⟨handle, nest, hlease, hentered, hstep⟩ := step_runPushed c kind inner panic
  have hframe := frame_of_tryLease hlease
  have henter : Reachable (c.entered kind) (handle :: running) := by
    rw [hentered]
    exact h.enter kind handle nest hlease
  have hlast := afterSteps_reachable henter inner
  have hbase := top_lt (accounted_of_reachable h).nest
  have hover := afterSteps_over (entered_over (.refl c.nest) kind) hbase inner hwithin
  refine ⟨?_, handle, hframe, ?_⟩
  · rw [afterSteps_single, hstep, List.getLast?_concat]
    exact isolated_of_leavePushed h hlast hframe hover hempty
  · rw [hstep, List.getLast?_concat, ← hframe]
    exact congrArg some (leavePushed_sound (accounted_of_reachable hlast)).1

/-- Two callers of the base frame: one has its handle, the other waits for it. -/
def outside : List Step :=
  [.get "a" none false, .get "b" (some "t") false]

/-- What is done in the pushed frame: a caller is parked on it, a further frame is pushed, and
another one is run in with a panic; the callers of those are gone at the end. -/
def inside : List Step :=
  [.take "x" 1 none false, .push .nestedPrompt, .get "y" none false, .get "z" none true,
    .runPushed .debugger [.get "u" none false, .push .normal, .pop] (some "inner"), .cancel "t",
    .release "y", .poll "z", .pop]

theorem isolated_of_runPushed_nested :
    Isolated (after outside)
        ((after outside).afterSteps [.runPushed .normal inside (some "over")]) ∧
      ((after outside).nest.frame 0).queue.parked ≠ [] := by
  have hwithin : ((after outside).entered .normal).withinAll (after outside).nest.frames.length
      inside = true := by decide +kernel
  have hempty : ∀ i ∈ (((after outside).entered .normal).afterSteps inside).nest.above,
      i ≤ (after outside).nest.frames.length := by decide +kernel
  exact ⟨(isolated_of_runPushed (after_reachable outside) .normal inside (some "over") hwithin
    hempty).1, by decide +kernel⟩

end Callers

end ScriptHost.Nest
