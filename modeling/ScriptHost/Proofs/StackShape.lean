import ScriptHost.Proofs.FrameIsolation

/-!
The shape of the stack of a prompt nest. What a frame is made with, its depth and its kind,
stays as it is, and only pushes and pops change the stack. So a frame on the stack is as deep
as there are frames below it, and it is remote exactly if it or one of those below it was
pushed as remote: a frame inherits from the one below it when it is pushed, and no frame below
it can go before it does. This holds in all that callers do, inside pushed frames too.
-/

namespace ScriptHost

namespace Nest

/-- What pushes and pops alone make of a nest: the frames over the base, and what each frame
was made with. -/
def build (n : Nest) : List Nat × List (Nat × FrameKind) :=
  (n.above, n.frames.map fun f => (f.depth, f.kind))

section Build

variable {n n' : Nest}

theorem build_update (n : Nest) (i : Nat) {f : Frame → Frame}
    (hf : ∀ g, ((f g).depth, (f g).kind) = (g.depth, g.kind)) : (n.update i f).build = n.build := by
  have hframes : (n.frames.modify i f).map (fun g => (g.depth, g.kind)) =
      n.frames.map fun g => (g.depth, g.kind) := by
    apply List.ext_getElem?
    intro j
    rw [List.getElem?_map, List.getElem?_map, List.getElem?_modify]
    by_cases hij : i = j <;> cases n.frames[j]? <;> simp [hij, hf]
  exact congrArg (Prod.mk n.above) hframes

@[simp] theorem build_setQueue (n : Nest) (i : Nat) (q : WaitQueue Nat) :
    (n.setQueue i q).build = n.build :=
  build_update n i fun _ => rfl

@[simp] theorem build_setReading (n : Nest) (i : Nat) (b : Bool) :
    (n.setReading i b).build = n.build :=
  build_update n i fun _ => rfl

@[simp] theorem build_lease (n : Nest) (i invoker : Nat) (forReading : Bool) :
    (n.lease i invoker forReading).2.build = n.build := by
  unfold lease
  split <;> simp

@[simp] theorem build_release (n : Nest) (h : Handle) : (n.release h).1.build = n.build := by
  have hend : (n.endReading h).build = n.build := by
    unfold endReading
    split <;> simp
  unfold release
  dsimp only
  split
  · rw [build_setQueue, hend]
  · exact hend

theorem build_tryLease {i : Nat} {h : Handle} {forReading : Bool}
    (hlease : n.tryLease i forReading = some (h, n')) : n'.build = n.build := by
  obtain ⟨⟨a, q⟩, -, heq⟩ := Option.map_eq_some_iff.mp hlease
  dsimp only at heq
  have hbuild := build_lease (n.setQueue i q) i a forReading
  rwa [heq, build_setQueue] at hbuild

theorem above_of_build (h : n'.build = n.build) : n'.above = n.above :=
  congrArg Prod.fst h

theorem length_of_build (h : n'.build = n.build) : n'.frames.length = n.frames.length := by
  simpa [build] using congrArg (fun b => b.2.length) h

theorem frame_of_build (h : n'.build = n.build) (i : Nat) :
    (n'.frame i).depth = (n.frame i).depth ∧ (n'.frame i).kind = (n.frame i).kind := by
  have hmade := congrArg (fun b => b.2[i]?) h
  simp only [build, List.getElem?_map] at hmade
  unfold frame
  cases hi : n.frames[i]? <;> cases hi' : n'.frames[i]? <;> simp_all

end Build

/-- The kind with which a frame was pushed, of those given for the frames in order. -/
def pushedAs (kinds : List FrameKind) (frame : Nat) : FrameKind :=
  kinds[frame]?.getD .normal

theorem pushedAs_of_prefix {kinds all : List FrameKind} (h : kinds <+: all) {frame : Nat}
    (hframe : frame < kinds.length) : pushedAs all frame = pushedAs kinds frame := by
  obtain ⟨more, rfl⟩ := h
  rw [pushedAs, pushedAs, List.getElem?_append_left hframe]

/-- The shape of a nest whose frames were pushed with `kinds`, the base frame counted as one
pushed without a flag. Positions are counted from the base. -/
structure Shaped (n : Nest) (kinds : List FrameKind) : Prop where
  depth_eq : ∀ i frame, n.stack.reverse[i]? = some frame → (n.frame frame).depth = i
  base : n.stack.reverse[0]? = some 0 ∧ (n.frame 0).kind = .normal ∧ (n.frame 0).isPopped = false
  on_stack_iff : ∀ frame < n.frames.length, frame ∈ n.stack ↔ (n.frame frame).isPopped = false
  remote_iff : n.topFrame.kind.remote = true ↔
    ∃ frame ∈ n.stack, (pushedAs kinds frame).remote = true
  own_flags : n.topFrame.kind.debug = (pushedAs kinds n.top).debug ∧
    n.topFrame.kind.nested = (pushedAs kinds n.top).nested

/-- What holds of a nest all of whose frames were pushed with `kinds`: each frame on the stack
is made for the frames below it. -/
structure Built (n : Nest) (kinds : List FrameKind) : Prop where
  standing : n.Standing
  length : kinds.length = n.frames.length
  plain : kinds[0]? = some .normal
  stacked : ∀ frame below, (frame :: below) <:+ n.stack →
    (n.frame frame).depth = below.length ∧
      ((n.frame frame).kind.remote = true ↔
        ∃ f ∈ frame :: below, (pushedAs kinds f).remote = true)
  own_flags : ∀ frame < n.frames.length, (n.frame frame).kind.debug = (pushedAs kinds frame).debug ∧
    (n.frame frame).kind.nested = (pushedAs kinds frame).nested

section Built

variable {n n' : Nest} {kinds : List FrameKind}

theorem stack_eq_top_cons (n : Nest) : ∃ below, n.stack = n.top :: below := by
  unfold stack top
  cases n.above with
  | nil => exact ⟨[], rfl⟩
  | cons frame above => exact ⟨above ++ [0], rfl⟩

theorem initial_built : initial.Built [.normal] := by
  refine ⟨initial_standing, rfl, rfl, ?_, ?_⟩
  · intro frame below hsuffix
    obtain ⟨rfl, rfl⟩ : frame = 0 ∧ below = [] := by
      simpa [initial, stack, List.suffix_cons_iff] using hsuffix
    simp [initial, Nest.frame, pushedAs]
  · intro frame hframe
    obtain rfl : frame = 0 := by simpa [initial] using hframe
    simp [initial, Nest.frame, pushedAs]

theorem Built.of_build (h : n.Built kinds) (hs : n'.Standing) (hbuild : n'.build = n.build) :
    n'.Built kinds := by
  have hstack : n'.stack = n.stack := congrArg (· ++ [0]) (above_of_build hbuild)
  refine ⟨hs, h.length.trans (length_of_build hbuild).symm, h.plain, ?_, ?_⟩
  · intro frame below hsuffix
    rw [(frame_of_build hbuild frame).1, (frame_of_build hbuild frame).2]
    exact h.stacked frame below (hstack ▸ hsuffix)
  · intro frame hframe
    rw [(frame_of_build hbuild frame).2]
    exact h.own_flags frame (length_of_build hbuild ▸ hframe)

/-- The innermost frame is remote if one on the stack was pushed so. -/
theorem Built.top_remote_iff (h : n.Built kinds) :
    n.topFrame.kind.remote = true ↔ ∃ f ∈ n.stack, (pushedAs kinds f).remote = true := by
  obtain ⟨below, hstack⟩ := n.stack_eq_top_cons
  rw [hstack]
  exact (h.stacked n.top below (hstack ▸ List.suffix_refl _)).2

theorem push_frame_new (n : Nest) (kind : FrameKind) :
    (n.push kind).2.frame n.frames.length =
      { depth := n.depth + 1
        kind := if n.topFrame.kind.remote then kind.union .remoteSession else kind
        queue := .withItem n.frames.length } := by
  simp [push, Nest.frame]

theorem Built.push (h : n.Built kinds) (kind : FrameKind) :
    (n.push kind).2.Built (kinds ++ [kind]) := by
  have hold : ∀ frame < n.frames.length,
      pushedAs (kinds ++ [kind]) frame = pushedAs kinds frame := fun frame hframe =>
    pushedAs_of_prefix (List.prefix_append _ _) (h.length ▸ hframe)
  have hnew : pushedAs (kinds ++ [kind]) n.frames.length = kind := by
    rw [pushedAs, ← h.length, List.getElem?_concat_length, Option.getD_some]
  refine ⟨h.standing.push kind, by simp [h.length], ?_, ?_, ?_⟩
  · have hmade : 0 < n.frames.length := h.standing.stack_made 0 (by simp [stack])
    rw [List.getElem?_append_left (by rwa [h.length])]
    exact h.plain
  · intro frame below hsuffix
    rw [stack_push] at hsuffix
    rcases List.suffix_cons_iff.mp hsuffix with heq | hsuffix
    · -- the new frame is on top of the whole stack
      obtain ⟨rfl, rfl⟩ := List.cons.inj heq
      rw [push_frame_new]
      refine ⟨by simp [Nest.depth, stack], ?_⟩
      have hinherits : (if n.topFrame.kind.remote then kind.union .remoteSession else kind).remote =
          (kind.remote || n.topFrame.kind.remote) := by
        cases n.topFrame.kind.remote <;> simp [FrameKind.union, FrameKind.remoteSession]
      rw [hinherits, Bool.or_eq_true, h.top_remote_iff, List.exists_mem_cons_iff, hnew]
      refine or_congr_right (exists_congr fun f => and_congr_right fun hf => ?_)
      rw [hold f (h.standing.stack_made f hf)]
    · have hmade : ∀ f ∈ frame :: below, f < n.frames.length := fun f hf =>
        h.standing.stack_made f (hsuffix.subset hf)
      rw [frame_push_of_lt kind (hmade frame List.mem_cons_self)]
      obtain ⟨hdepth, hremote⟩ := h.stacked frame below hsuffix
      refine ⟨hdepth, hremote.trans (exists_congr fun f => and_congr_right fun hf => ?_)⟩
      rw [hold f (hmade f hf)]
  · intro frame hframe
    rw [length_frames_push] at hframe
    rcases Nat.lt_succ_iff_lt_or_eq.mp hframe with hframe | rfl
    · rw [frame_push_of_lt kind hframe, hold frame hframe]
      exact h.own_flags frame hframe
    · rw [push_frame_new, hnew]
      dsimp only
      split <;> simp [FrameKind.union, FrameKind.remoteSession]

theorem Built.pop {id : Nat} (h : n.Built kinds) (hpop : n.pop = .ok (id, n')) :
    n'.Built kinds := by
  have hstack := stack_of_pop hpop
  have hgone : id ∉ n'.stack := by
    have hnodup := h.standing.stack_nodup
    rw [hstack, List.nodup_cons] at hnodup
    exact hnodup.1
  refine ⟨h.standing.pop hpop, h.length.trans (length_of_pop hpop).symm, h.plain, ?_, ?_⟩
  · intro frame below hsuffix
    have hne : frame ≠ id := fun heq => hgone (heq ▸ hsuffix.subset List.mem_cons_self)
    rw [frame_of_pop_ne hpop hne]
    exact h.stacked frame below (hstack ▸ hsuffix.trans (List.suffix_cons _ _))
  · intro frame hframe
    rw [(frame_of_pop hpop frame).1]
    exact h.own_flags frame (length_of_pop hpop ▸ hframe)

/-- A frame is as deep as its position on the stack, counted from the base. -/
theorem Built.depth_eq (h : n.Built kinds) {i frame : Nat}
    (hframe : n.stack.reverse[i]? = some frame) : (n.frame frame).depth = i := by
  obtain ⟨hi, hget⟩ := List.getElem?_eq_some_iff.mp hframe
  have hsplit : n.stack.reverse =
      n.stack.reverse.take i ++ frame :: n.stack.reverse.drop (i + 1) := by
    rw [← hget, List.getElem_cons_drop, List.take_append_drop]
  have hsuffix : frame :: (n.stack.reverse.take i).reverse <:+ n.stack := by
    refine ⟨(n.stack.reverse.drop (i + 1)).reverse, ?_⟩
    have hreverse := congrArg List.reverse hsplit
    simpa using hreverse.symm
  rw [(h.stacked frame _ hsuffix).1, List.length_reverse, List.length_take]
  omega

theorem Built.shaped {all : List FrameKind} (h : n.Built kinds) (hall : kinds <+: all) :
    n.Shaped all := by
  have hsame : ∀ frame ∈ n.stack, pushedAs all frame = pushedAs kinds frame := fun frame hframe =>
    pushedAs_of_prefix hall (h.length ▸ h.standing.stack_made frame hframe)
  have hopen : ∀ frame < n.frames.length,
      frame ∈ n.stack ↔ (n.frame frame).isPopped = false := by
    intro frame hframe
    rw [← Bool.not_eq_true, h.standing.popped_iff frame hframe, not_not]
  have hzero : 0 ∈ n.stack := by simp [stack]
  have htop : n.top ∈ n.stack := by
    obtain ⟨below, hstack⟩ := n.stack_eq_top_cons
    simp [hstack]
  have hbase : (n.frame 0).kind = .normal := by
    have hpushed : pushedAs kinds 0 = .normal := by rw [pushedAs, h.plain, Option.getD_some]
    obtain ⟨hdebug, hnested⟩ := h.own_flags 0 (h.standing.stack_made 0 hzero)
    have hremote := (h.stacked 0 [] (List.suffix_append _ _)).2
    rw [hpushed] at hdebug hnested
    simp only [List.mem_singleton, exists_eq_left, hpushed] at hremote
    rcases hkind : (n.frame 0).kind with ⟨nested, debug, remote⟩
    simp_all [FrameKind.normal]
  refine ⟨fun i frame => h.depth_eq, ⟨by simp [stack], hbase, ?_⟩, hopen, ?_, ?_⟩
  · exact (hopen 0 (h.standing.stack_made 0 hzero)).mp hzero
  · rw [h.top_remote_iff]
    refine exists_congr fun frame => and_congr_right fun hframe => ?_
    rw [hsame frame hframe]
  · rw [hsame n.top htop]
    exact h.own_flags n.top (h.standing.stack_made n.top htop)

end Built

namespace Callers

section Serving

variable {c : Callers} {name : String}

theorem build_releasing (c : Callers) (h : Handle) (a : Answer) :
    (c.releasing h a).2.nest.build = c.nest.build := by
  have hbuild := build_release c.nest h
  unfold releasing
  rcases hrelease : c.nest.release h with ⟨nest, _ | p⟩ <;> rw [hrelease] at hbuild <;> exact hbuild

theorem build_hold (c : Callers) (name : String) (h : Handle) :
    (c.hold name h).2.nest.build = c.nest.build := by
  unfold hold
  cases c.held.lookup name with
  | none => rfl
  | some old => exact build_releasing _ old _

theorem build_settle (c : Callers) (name : String) (call : Call) (x : Taking Nat × Nest) :
    (c.settle name call x).2.nest.build = x.2.build := by
  obtain ⟨invoker | e | ticket, nest⟩ := x
  · exact (build_hold _ name _).trans (build_lease nest call.frame invoker call.forReading)
  · rfl
  · rfl

theorem build_ask (c : Callers) (name : String) (call : Call) :
    (c.ask name call).2.nest.build = c.nest.build :=
  (build_settle _ _ _ _).trans (build_setQueue _ _ _)

theorem build_drop (c : Callers) (name : String) :
    (c.drop name).2.nest.build = c.nest.build := by
  unfold drop
  cases c.pending.lookup name with
  | none => rfl
  | some call =>
    have hbuild : (c.nest.withdraw call.frame call.ticket).1.build = c.nest.build :=
      build_setQueue _ _ _
    rcases hwithdraw : c.nest.withdraw call.frame call.ticket with ⟨nest, _ | p⟩ <;>
      rw [hwithdraw] at hbuild <;> simp only [hwithdraw] <;> exact hbuild

theorem build_start (c : Callers) (name : String) (call : Call) :
    (c.start name call).2.nest.build = c.nest.build :=
  (build_ask _ _ _).trans (build_drop c name)

theorem build_pollCall (c : Callers) (name : String) (call : Call) :
    (c.pollCall name call).2.nest.build = c.nest.build := by
  have hbuild : (c.nest.look call.frame call.ticket (c.isCancelled call.token)).2.build =
      c.nest.build := build_setQueue _ _ _
  unfold pollCall
  split
  · next what nest hlook =>
    rw [hlook] at hbuild
    split
    · exact (build_ask _ _ _).trans hbuild
    · exact (build_settle _ _ _ _).trans hbuild
  · exact (build_settle _ _ _ _).trans hbuild

theorem build_poll (c : Callers) (name : String) :
    (c.poll name).2.nest.build = c.nest.build := by
  unfold poll
  cases c.pending.lookup name with
  | none => rfl
  | some call => exact build_pollCall c name call

theorem build_withHandle {f : Handle → Answer × Callers}
    (hf : ∀ h, (f h).2.nest.build = c.nest.build) :
    (c.withHandle name f).2.nest.build = c.nest.build := by
  unfold withHandle
  cases c.held.lookup name with
  | none => rfl
  | some h => exact hf h

end Serving

mutual

/-- The kinds of the frames that a step pushes, those pushed inside a pushed frame included. -/
def pushes : Step → List FrameKind
  | .push kind => [kind]
  | .runPushed kind inner _ => kind :: pushesAll inner
  | _ => []

def pushesAll : List Step → List FrameKind
  | [] => []
  | s :: rest => pushes s ++ pushesAll rest

end

section Steps

variable {c : Callers} {running : List Handle} {kinds : List FrameKind} {s : Step}
  {x : Answer × Callers}

/-- A step that serves callers builds nothing. -/
theorem build_of_step (hpushes : pushes s = []) (hpop : s ≠ .pop)
    (hpopFrame : ∀ frame, s ≠ .popFrame frame) (hx : x ∈ c.step s) :
    x.2.nest.build = c.nest.build := by
  cases s with
  | push kind | runPushed kind inner panic => simp [pushes] at hpushes
  | pop => exact absurd rfl hpop
  | popFrame frame => exact absurd rfl (hpopFrame frame)
  | get name token forReading =>
    obtain rfl : x = _ := by simpa [step] using hx
    exact build_start _ _ _
  | take name frame token forReading =>
    rw [step] at hx
    split at hx <;> obtain rfl := List.mem_singleton.mp hx
    · exact build_start _ _ _
    · rfl
  | tryTake name frame forReading =>
    rw [step] at hx
    split at hx
    · obtain rfl := List.mem_singleton.mp hx
      rfl
    · next h nest hlease =>
      obtain rfl := List.mem_singleton.mp hx
      exact (build_hold _ _ _).trans (build_tryLease hlease)
  | poll name =>
    obtain rfl : x = _ := by simpa [step] using hx
    exact build_poll c name
  | drop name =>
    obtain rfl : x = _ := by simpa [step] using hx
    exact build_drop c name
  | release name =>
    obtain rfl : x = _ := by simpa [step] using hx
    exact build_withHandle fun h => build_releasing _ h _
  | invoke _ _ _ | readLine _ _ | describeHandle _ =>
    obtain rfl : x = _ := by simpa [step] using hx
    exact build_withHandle fun h => rfl
  | cancel token | describeFrame frame =>
    obtain rfl : x = _ := by simpa [step] using hx
    rfl

theorem popping_built {r : Except ExecutionError (Nat × Nest)} (h : c.nest.Built kinds)
    (hr : ∀ id nest, r = .ok (id, nest) → c.nest.pop = .ok (id, nest)) :
    (c.popping r).2.nest.Built kinds := by
  rcases r with e | ⟨id, nest⟩
  · exact h
  · exact h.pop (hr id nest rfl)

theorem built_of_plain (hc : c.Accounted running) (h : c.nest.Built kinds)
    (hs : ∀ kind inner panic, s ≠ .runPushed kind inner panic) (hx : x ∈ c.step s) :
    x.2.nest.Built (kinds ++ pushes s) := by
  by_cases hpush : ∃ kind, s = .push kind
  · obtain ⟨kind, rfl⟩ := hpush
    obtain rfl : x = _ := by simpa [step] using hx
    exact h.push kind
  · have hpushes : pushes s = [] := by cases s <;> simp_all [pushes]
    rw [hpushes, List.append_nil]
    by_cases hpop : s = .pop
    · subst hpop
      obtain rfl : x = _ := by simpa [step] using hx
      exact popping_built h fun _ _ hr => hr
    · by_cases hpopFrame : ∃ frame, s = .popFrame frame
      · obtain ⟨frame, rfl⟩ := hpopFrame
        obtain rfl : x = _ := by simpa [step] using hx
        exact popping_built h fun _ _ hr => (pop_of_popFrame hr).2.2
      · have hstanding := h.standing.change (step_outcome hc hs hx).nest_change
        exact h.of_build hstanding (build_of_step hpushes hpop (by simpa using hpopFrame) hx)

theorem leavePushed_built (h : c.nest.Built kinds) (frame : Nat) (handle : Handle) (a : Answer) :
    (c.leavePushed frame handle a).2.nest.Built kinds := by
  have hpop : (c.popping (c.nest.popFrame frame)).2.nest.Built kinds :=
    popping_built h fun _ _ hr => (pop_of_popFrame hr).2.2
  exact hpop.of_build (leavePushed_standing h.standing frame handle a) (build_releasing _ _ _)

/-- A state on the way from frames pushed with `kinds` to more frames pushed with `more`. -/
def Passed (kinds more : List FrameKind) (x : Answer × Callers) : Prop :=
  ∃ now, x.2.nest.Built now ∧ now <+: kinds ++ more

theorem built_of_single (hr : Reachable c running) (h : c.nest.Built kinds)
    (hs : ∀ kind inner panic, s ≠ .runPushed kind inner panic) (hone : (c.step s).length = 1) :
    (∀ x ∈ c.step s, Passed kinds (pushes s) x) ∧
      (c.afterSteps [s]).nest.Built (kinds ++ pushes s) := by
  have hall : ∀ x ∈ c.step s, x.2.nest.Built (kinds ++ pushes s) := fun x hx =>
    built_of_plain (accounted_of_reachable hr) h hs hx
  obtain ⟨x, hx⟩ := List.length_eq_one_iff.mp hone
  refine ⟨fun x hx => ⟨_, hall x hx, List.prefix_rfl⟩, ?_⟩
  rw [afterSteps_single, hx]
  exact hall x (by simp [hx])

mutual

theorem built_of_mem_step {c : Callers} {running : List Handle} {kinds : List FrameKind}
    (hr : Reachable c running) (h : c.nest.Built kinds) :
    ∀ s : Step, (∀ x ∈ c.step s, Passed kinds (pushes s) x) ∧
      (c.afterSteps [s]).nest.Built (kinds ++ pushes s)
  | .runPushed kind inner panic => by
    obtain ⟨handle, nest, hlease, hentered, hstep⟩ := step_runPushed c kind inner panic
    have henter : Reachable (c.entered kind) (handle :: running) := by
      rw [hentered]
      exact hr.enter kind handle nest hlease
    have hbuilt : (c.entered kind).nest.Built (kinds ++ [kind]) := by
      rw [hentered]
      have hpush := h.push kind
      exact hpush.of_build (hpush.standing.of_alike (alike_tryLease hlease).2)
        (build_tryLease hlease)
    obtain ⟨hmem, hlast⟩ := built_of_mem_steps henter hbuilt inner
    have hkinds : kinds ++ [kind] ++ pushesAll inner =
        kinds ++ pushes (.runPushed kind inner panic) := by simp [pushes]
    rw [hkinds] at hlast
    have hleft := leavePushed_built hlast c.nest.frames.length handle
      ((c.entered kind).ending handle panic)
    refine ⟨?_, ?_⟩
    · intro x hx
      rw [hstep] at hx
      rcases List.mem_append.mp hx with hx | hx
      · obtain ⟨now, hnow, hprefix⟩ := hmem x hx
        exact ⟨now, hnow, hkinds ▸ hprefix⟩
      · obtain rfl := List.mem_singleton.mp hx
        exact ⟨_, hleft, List.prefix_rfl⟩
    · rw [afterSteps_single, hstep, List.getLast?_concat]
      exact hleft
  | .push _ => built_of_single hr h (by simp) (by rw [step]; rfl)
  | .pop => built_of_single hr h (by simp) (by rw [step]; rfl)
  | .popFrame _ => built_of_single hr h (by simp) (by rw [step]; rfl)
  | .get _ _ _ => built_of_single hr h (by simp) (by rw [step]; rfl)
  | .take _ _ _ _ => built_of_single hr h (by simp) (by rw [step]; split <;> rfl)
  | .tryTake _ _ _ => built_of_single hr h (by simp) (by rw [step]; split <;> rfl)
  | .poll _ => built_of_single hr h (by simp) (by rw [step]; rfl)
  | .drop _ => built_of_single hr h (by simp) (by rw [step]; rfl)
  | .cancel _ => built_of_single hr h (by simp) (by rw [step]; rfl)
  | .release _ => built_of_single hr h (by simp) (by rw [step]; rfl)
  | .invoke _ _ _ => built_of_single hr h (by simp) (by rw [step]; rfl)
  | .readLine _ _ => built_of_single hr h (by simp) (by rw [step]; rfl)
  | .describeFrame _ => built_of_single hr h (by simp) (by rw [step]; rfl)
  | .describeHandle _ => built_of_single hr h (by simp) (by rw [step]; rfl)

theorem built_of_mem_steps {c : Callers} {running : List Handle} {kinds : List FrameKind}
    (hr : Reachable c running) (h : c.nest.Built kinds) :
    ∀ ss : List Step, (∀ x ∈ c.steps ss, Passed kinds (pushesAll ss) x) ∧
      (c.afterSteps ss).nest.Built (kinds ++ pushesAll ss)
  | [] => by
    rw [pushesAll, List.append_nil]
    refine ⟨by simp [steps], h⟩
  | s :: rest => by
    obtain ⟨hmem, hlast⟩ := built_of_mem_step hr h s
    obtain ⟨hmem', hlast'⟩ := built_of_mem_steps (afterSteps_reachable hr [s]) hlast rest
    rw [pushesAll, ← List.append_assoc]
    refine ⟨?_, ?_⟩
    · intro x hx
      rw [steps] at hx
      rcases List.mem_append.mp hx with hx | hx
      · obtain ⟨now, hnow, hprefix⟩ := hmem x hx
        exact ⟨now, hnow, by simpa using hprefix.trans (List.prefix_append _ _)⟩
      · rw [← afterSteps_single] at hx
        obtain ⟨now, hnow, hprefix⟩ := hmem' x hx
        exact ⟨now, hnow, by simpa using hprefix⟩
    · rw [afterSteps_cons]
      exact hlast'

end

/-- When a step that pops is refused: the base frame stays, and only the innermost frame can be
popped by its name. -/
def Refuses (c : Callers) : Step → Prop
  | .pop => c.nest.stack = [0]
  | .popFrame frame => frame ≠ c.nest.top ∨ c.nest.stack = [0]
  | _ => False

/-- A step that pops takes the innermost frame off the stack, or is refused and changes nothing. -/
structure PopEnds (c : Callers) (s : Step) (x : Answer × Callers) : Prop where
  refused : c.Refuses s → (∃ e, x.1 = .failed e) ∧ x.2 = c
  popped : ¬c.Refuses s → x.1 = .frame c.nest.top ∧ c.nest.stack = c.nest.top :: x.2.nest.stack

theorem popEnds_pop (hx : x ∈ c.step .pop) : PopEnds c .pop x := by
  obtain rfl : x = _ := by simpa [step] using hx
  have hrefuses : c.Refuses .pop ↔ c.nest.above = [] := by simp [Refuses, Nest.stack]
  cases hpop : c.nest.pop with
  | error e =>
    have hbase : c.nest.above = [] := by
      unfold Nest.pop at hpop
      split at hpop
      · assumption
      · cases hpop
    exact ⟨fun _ => ⟨⟨e, rfl⟩, rfl⟩, fun h => absurd (hrefuses.mpr hbase) h⟩
  | ok popped =>
    obtain ⟨id, nest⟩ := popped
    have habove := (pop_spec hpop).1
    have htop : c.nest.top = id := by simp [Nest.top, habove]
    refine ⟨fun h => ?_, fun _ => ?_⟩
    · rw [hrefuses.mp h] at habove
      cases habove
    · rw [htop]
      exact ⟨rfl, stack_of_pop hpop⟩

theorem popEnds_popFrame {frame : Nat} (hx : x ∈ c.step (.popFrame frame)) :
    PopEnds c (.popFrame frame) x := by
  by_cases htop : c.nest.top = frame
  · have hrefuses : c.Refuses (.popFrame frame) ↔ c.Refuses .pop := by simp [Refuses, htop]
    have hpop : x ∈ c.step .pop := by simpa [step, popFrame, htop] using hx
    obtain ⟨hrefused, hpopped⟩ := popEnds_pop hpop
    exact ⟨fun h => hrefused (hrefuses.mp h), fun h => hpopped fun h' => h (hrefuses.mpr h')⟩
  · have hrefuses : c.Refuses (.popFrame frame) := Or.inl (Ne.symm htop)
    obtain rfl : x = _ := by simpa [step, popFrame, htop] using hx
    exact ⟨fun _ => ⟨⟨_, rfl⟩, rfl⟩, fun h => absurd hrefuses h⟩

end Steps

/-- In every state that callers come to from the start, inside pushed frames too, the stack has
its shape: each frame is as deep as its position, the base frame is a plain one at its bottom,
exactly the frames on it are not popped, the innermost one is remote exactly if a frame on the
stack was pushed as remote, and has the other flags it was pushed with. A pop is refused exactly
for the base frame, and for a frame that is not innermost, and then changes nothing. -/
theorem stack_shaped (engine : Engine) (ss : List Step) {c : Callers}
    (h : c = { engine } ∨ ∃ a, (a, c) ∈ steps { engine } ss) :
    c.nest.Shaped (.normal :: pushesAll ss) ∧
      (∀ x ∈ c.step .pop, PopEnds c .pop x) ∧
      ∀ frame, ∀ x ∈ c.step (.popFrame frame), PopEnds c (.popFrame frame) x := by
  have hstart : ({ engine } : Callers).nest.Built [.normal] := initial_built
  refine ⟨?_, fun x hx => popEnds_pop hx, fun frame x hx => popEnds_popFrame hx⟩
  rcases h with rfl | ⟨a, hmem⟩
  · exact hstart.shaped (List.prefix_append [FrameKind.normal] _)
  · obtain ⟨now, hnow, hprefix⟩ := (built_of_mem_steps (.start engine) hstart ss).1 _ hmem
    exact hnow.shaped hprefix

/-- A debugger's frame inside a remote session, itself inside a nested prompt. -/
def debugging : List Step :=
  [.push .nestedPrompt, .push .remoteSession, .runPushed .debugger [.push .normal, .pop] none]

/-- Inside the frame of the debugger a plain frame is pushed: it is remote, as the debugger's
frame is, because the session below them is. -/
theorem stack_shaped_debugging :
    ∃ x ∈ steps {} debugging, x.2.nest.stack = [4, 3, 2, 1, 0] ∧
      (x.2.nest.frame 4).kind.remote = true ∧ (x.2.nest.frame 4).depth = 4 ∧
      (x.2.nest.frame 4).kind.debug = false := by
  have hmem : (steps {} debugging)[2]? = some _ := rfl
  have hmem := List.mem_of_getElem? hmem
  obtain ⟨hshaped, -⟩ := stack_shaped {} debugging (Or.inr ⟨_, hmem⟩)
  exact ⟨_, hmem, rfl, hshaped.remote_iff.mpr ⟨2, by decide, rfl⟩, hshaped.depth_eq 4 4 rfl,
    hshaped.own_flags.1⟩

end Callers

end Nest

end ScriptHost
