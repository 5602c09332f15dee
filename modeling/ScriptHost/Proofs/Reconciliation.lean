import ScriptHost.Proofs.RunspaceTracking

/-!
Following the engine once, from any state of the service. The thread that asks the engine has
one step at a time and comes to an end: it leaves runspaces from the innermost on, each with the
frame of a session and each told once, or enters one, or does nothing. A frame that is not that
of a session stops it, and what is left by then stays as it was. If the frames over the base are
those of the runspaces, nothing stops it, and the service ends where the engine is.
-/

namespace ScriptHost

namespace Nest

variable {n n₁ n' : Nest} {count total frame : Nat}

/-- The innermost frame is not one of a session over the base. -/
def Refuses (n : Nest) : Prop :=
  n.topFrame.kind ≠ .remoteSession ∨ n.above = []

/-- The `count` innermost frames were popped, all of them frames of sessions. -/
structure Shed (count : Nat) (n n' : Nest) : Prop where
  enough : count ≤ n.above.length
  above : n'.above = n.above.drop count
  sessions : ∀ i ∈ n.above.take count, (n.frame i).kind = .remoteSession
  popped : ∀ i ∈ n.above.take count, (n'.frame i).isPopped = true
  kind : ∀ i, (n'.frame i).kind = (n.frame i).kind
  kept : ∀ i ∉ n.above.take count, n'.frame i = n.frame i

theorem Shed.refl (n : Nest) : Shed 0 n n :=
  ⟨Nat.zero_le _, rfl, fun _ h => absurd h List.not_mem_nil, fun _ h => absurd h List.not_mem_nil,
    fun _ => rfl, fun _ _ => rfl⟩

theorem isPopped_of_pop (hpop : n.pop = .ok (frame, n')) (hmade : frame < n.frames.length) :
    (n'.frame frame).isPopped = true := by
  rw [(pop_spec hpop).2]
  exact congrArg Frame.isPopped (frame_update_self _ frame _ hmade)

/-- The innermost frame is popped before others. -/
theorem Shed.cons (hkind : n.topFrame.kind = .remoteSession) (hpop : n.pop = .ok (frame, n₁))
    (h : Shed count n₁ n') : Shed (count + 1) n n' := by
  have habove := (pop_spec hpop).1
  have htop : (n.frame frame).kind = .remoteSession := by
    rwa [topFrame, Nest.top, habove] at hkind
  have htake : n.above.take (count + 1) = frame :: n₁.above.take count := by
    rw [habove, List.take_succ_cons]
  refine ⟨?_, ?_, ?_, ?_, fun i => (h.kind i).trans (frame_of_pop hpop i).1, ?_⟩
  · rw [habove, List.length_cons]
    exact Nat.succ_le_succ h.enough
  · rw [habove, List.drop_succ_cons]
    exact h.above
  · rw [htake]
    refine List.forall_mem_cons.mpr ⟨htop, fun i hi => ?_⟩
    exact (frame_of_pop hpop i).1.symm.trans (h.sessions i hi)
  · rw [htake]
    refine List.forall_mem_cons.mpr ⟨?_, h.popped⟩
    by_cases hagain : frame ∈ n₁.above.take count
    · exact h.popped frame hagain
    · rw [h.kept frame hagain]
      exact isPopped_of_pop hpop (lt_of_remoteSession htop)
  · rw [htake]
    intro i hi
    obtain ⟨hne, hi⟩ := not_or.mp (List.mem_cons.not.mp hi)
    exact (h.kept i hi).trans (frame_of_pop_ne hpop hne)

/-- Frames of sessions that are popped leave frames of sessions. -/
theorem Remotes.shed (h : n.Remotes total) (hshed : Shed count n n') :
    n'.Remotes (total - count) := by
  refine ⟨fun i hi => ?_, by rw [hshed.above, List.length_drop, h.length]⟩
  rw [hshed.above] at hi
  exact (hshed.kind i).trans (h.remote i (List.mem_of_mem_drop hi))

/-- A frame that is not refused can be popped. -/
theorem pop_of_not_refuses (h : ¬n.Refuses) :
    n.topFrame.kind = .remoteSession ∧ ∃ frame n', n.pop = .ok (frame, n') := by
  obtain ⟨hkind, habove⟩ := not_or.mp h
  refine ⟨not_not.mp hkind, ?_⟩
  obtain ⟨frame, above, habove⟩ := List.exists_cons_of_ne_nil habove
  rw [Nest.pop, habove]
  exact ⟨_, _, rfl⟩

/-- The frame of a session is not refused. -/
theorem Remotes.zero_of_refuses (h : n.Remotes count) (hrefuses : n.Refuses) : count = 0 := by
  by_contra hcount
  obtain ⟨hkind, frame, n', hpop⟩ := h.top (Nat.pos_of_ne_zero hcount)
  rcases hrefuses with hother | hnone
  · exact hother hkind
  · rw [(pop_spec hpop).1] at hnone
    cases hnone

end Nest

namespace Service

section Alone

/-- Thread `k` alone goes from one world to another, and each of its steps is the only one that
it can take. -/
inductive Alone (k : Nat) : World → World → Prop
  | refl (w : World) : Alone k w w
  | step {w w' w'' : World} (hnext : w.next k = [w']) (h : Alone k w' w'') : Alone k w w''

/-- Thread `k` stands where `t` does. -/
def World.withThread (w : World) (k : Nat) (t : Thread) : World :=
  { w with threads := w.threads.set k t }

variable {w w' v : World} {k : Nat} {t t' : Thread}

theorem Alone.trans (h : Alone k w w') (h' : Alone k w' v) : Alone k w v := by
  induction h with
  | refl => exact h'
  | step hnext _ ih => exact .step hnext (ih h')

theorem World.withThread_self (ht : w.threads[k]? = some t) : w.withThread k t = w := by
  obtain ⟨hk, rfl⟩ := List.getElem?_eq_some_iff.mp ht
  rw [withThread, List.set_getElem_self]

/-- A step of a thread that has one move. -/
theorem Alone.move (hk : k < w.threads.length)
    (hmoves : t.moves (w.withThread k t) k = [(w'.withThread k t, t')]) :
    Alone k (w.withThread k t) (w'.withThread k t') := by
  refine .step ?_ (.refl _)
  have ht : (w.withThread k t).threads[k]? = some t := List.getElem?_set_self hk
  have hset : (w'.threads.set k t).set k t' = w'.threads.set k t' := List.set_set ..
  simp only [World.next, ht, hmoves, List.map_cons, List.map_nil]
  simp only [World.withThread, hset]

end Alone

section Changes

/-- What is told of the runspaces `gone` that were left, innermost first, down to `current`. -/
def leavings (reason : Option RunspaceChangeReason) (current : Runspace) :
    List Runspace → List RunspaceChange
  | [] => []
  | r :: gone =>
    { reason := reason.getD r.popReason, previous := r, current := gone.head?.getD current } ::
      leavings reason current gone

def tellAll (b : EventBus) (cs : List RunspaceChange) : EventBus :=
  (cs.map Event.runspace).foldl EventBus.publish b

/-- The runspaces `gone` were left, each with the frame of a session, and each was told. -/
structure Leaves (reason : Option RunspaceChangeReason) (gone : List Runspace) (w w' : World) :
    Prop where
  pushed : w.pushed = gone ++ w'.pushed
  frames : w.nest.Shed gone.length w'.nest
  told : w'.bus = tellAll w.bus (leavings reason w'.currentRunspace gone)

/-- The runspace `r` was entered, with a frame of a session, and this was told. -/
structure Enters (r : Runspace) (w w' : World) : Prop where
  pushed : w'.pushed = r :: w.pushed
  frame : w'.nest = (w.nest.push .remoteSession).2
  told : w'.bus = tellAll w.bus
    [{ reason := r.pushReason, previous := w.currentRunspace, current := r }]

structure Stays (w w' : World) : Prop where
  pushed : w'.pushed = w.pushed
  nest : w'.nest = w.nest
  bus : w'.bus = w.bus

/-- What the answer to the question for the current runspace makes of the runspaces, in any
state. -/
inductive Reconciles (w w' : World) : Except EngineError Runspace → Prop
  | here {r : Runspace} (hid : w.currentRunspace.id = r.id) (hstays : Stays w w') :
      Reconciles w w' (.ok r)
  | back {r : Runspace} {keep : Nat} {gone : List Runspace} (hid : w.currentRunspace.id ≠ r.id)
      (hkeep : keepFor w r.id = some keep) (hleaves : Leaves none gone w w')
      (hend : w'.pushed.length = keep ∨ keep < w'.pushed.length ∧ w'.nest.Refuses) :
      Reconciles w w' (.ok r)
  | on {r : Runspace} (hnew : keepFor w r.id = none) (henters : Enters r w w') :
      Reconciles w w' (.ok r)
  | lost {r : Runspace} (hgone : w.baseGone = true) (hstays : Stays w w') :
      Reconciles w w' (.ok r)
  | broken {message : String} {gone : List Runspace}
      (hleaves : Leaves (some .sessionClosed) gone w w')
      (hend : w'.pushed.length = 0 ∨ 0 < w'.pushed.length ∧ w'.nest.Refuses) :
      Reconciles w w' (.error (.transportBroken message))
  | failed {e : EngineError} (he : ∀ message, e ≠ .transportBroken message)
      (hstays : Stays w w') : Reconciles w w' (.error e)

/-- Where the service ends after an answer if nothing is refused. -/
def Converges (w w' : World) : Except EngineError Runspace → Prop
  | .ok r => w'.currentRunspace.id = r.id
  | .error (.transportBroken _) => w'.pushed = [] ∧ w'.nest.above = []
  | .error _ => w'.pushed = w.pushed ∧ w'.nest = w.nest

end Changes

section Pop

variable {w : World} {k : Nat} {t : Thread} {below : List Activation} {r : Runspace}
  {pushed : List Runspace} {reason : Option RunspaceChangeReason}

/-- What is left when the innermost runspace `r` is popped and its frame with it. -/
def World.left (w : World) (reason : Option RunspaceChangeReason) (r : Runspace)
    (pushed : List Runspace) (nest : Nest) : World :=
  let w := { w with nest, pushed }
  w.publish (.runspace
    { reason := reason.getD r.popReason, previous := r, current := w.currentRunspace })

/-- A pop looks at the runspaces first. -/
theorem alone_checkingLength (hk : k < w.threads.length) (hpushed : w.pushed = r :: pushed) :
    Alone k (w.withThread k (t.goOn (.popRunspace reason .checkingLength :: below)))
      (w.withThread k (t.goOn (.popRunspace reason .checkingFrame :: below))) := by
  refine .move hk ?_
  simp [Thread.moves, Thread.goOn, proceed, popRunspaceMoves, World.withThread, hpushed]

/-- Then it looks at the innermost frame. -/
theorem alone_checkingFrame (hk : k < w.threads.length)
    (hkind : w.nest.topFrame.kind = .remoteSession) :
    Alone k (w.withThread k (t.goOn (.popRunspace reason .checkingFrame :: below)))
      (w.withThread k (t.goOn (.popRunspace reason .poppingFrame :: below))) := by
  refine .move hk ?_
  simp [Thread.moves, Thread.goOn, proceed, popRunspaceMoves, World.withThread, hkind]

theorem alone_pop {frame : Nat} {nest : Nest} (hk : k < w.threads.length)
    (hpushed : w.pushed = r :: pushed) (hkind : w.nest.topFrame.kind = .remoteSession)
    (hpop : w.nest.pop = .ok (frame, nest)) :
    Alone k (w.withThread k (t.goOn (.popRunspace reason .checkingLength :: below)))
      ((w.left reason r pushed nest).withThread k (t.give below (.popped (.ok r)))) := by
  have hframe : Alone k (w.withThread k (t.goOn (.popRunspace reason .poppingFrame :: below)))
      ({ w with nest }.withThread k (t.goOn (.popRunspace reason .poppingRunspace :: below))) := by
    refine .move hk ?_
    simp [Thread.moves, Thread.goOn, proceed, popRunspaceMoves, World.withThread, hpop]
  have hrunspace : Alone k
      ({ w with nest }.withThread k (t.goOn (.popRunspace reason .poppingRunspace :: below)))
      ({ w with nest, pushed }.withThread k (t.goOn (.popRunspace reason
        (.publishing r ({ w with nest, pushed } : World).currentRunspace) :: below))) := by
    refine .move hk ?_
    simp [Thread.moves, Thread.goOn, proceed, popRunspaceMoves, World.withThread, hpushed,
      World.currentRunspace]
  refine (alone_checkingLength hk hpushed).trans ((alone_checkingFrame hk hkind).trans ?_)
  exact hframe.trans (hrunspace.trans (.move hk rfl))

/-- A pop that is refused changes nothing. -/
theorem alone_refused (t : Thread) (below : List Activation)
    (reason : Option RunspaceChangeReason) (hk : k < w.threads.length)
    (hpushed : w.pushed = r :: pushed) (hrefuses : w.nest.Refuses) :
    ∃ e, Alone k (w.withThread k (t.goOn (.popRunspace reason .checkingLength :: below)))
      (w.withThread k (t.give below (.popped (.error e)))) := by
  by_cases hkind : w.nest.topFrame.kind = .remoteSession
  · have habove : w.nest.above = [] := hrefuses.resolve_left (not_not_intro hkind)
    have hframe : Alone k (w.withThread k (t.goOn (.popRunspace reason .poppingFrame :: below)))
        (w.withThread k
          (t.give below (.popped (.error (.invariantViolation .basePopped))))) := by
      refine .move hk ?_
      simp [Thread.moves, Thread.goOn, Thread.give, proceed, popRunspaceMoves, World.withThread,
        Nest.pop, habove]
    exact ⟨_, (alone_checkingLength hk hpushed).trans
      ((alone_checkingFrame hk hkind).trans hframe)⟩
  · have hframe : Alone k (w.withThread k (t.goOn (.popRunspace reason .checkingFrame :: below)))
        (w.withThread k
          (t.give below (.popped (.error (.invariantViolation .frameInsideRunspace))))) := by
      refine .move hk ?_
      simp [Thread.moves, Thread.goOn, Thread.give, proceed, popRunspaceMoves, World.withThread,
        hkind]
    exact ⟨_, (alone_checkingLength hk hpushed).trans hframe⟩

end Pop

section Popping

variable {w w' : World} {k keep : Nat} {r : Runspace} {pushed gone : List Runspace}
  {reason : Option RunspaceChangeReason}

theorem Leaves.refl (reason : Option RunspaceChangeReason) (w : World) :
    Leaves reason [] w w :=
  ⟨rfl, Nest.Shed.refl _, rfl⟩

/-- The innermost runspace is left before others. -/
theorem Leaves.cons {frame : Nat} {nest : Nest} (hpushed : w.pushed = r :: pushed)
    (hkind : w.nest.topFrame.kind = .remoteSession) (hpop : w.nest.pop = .ok (frame, nest))
    (hbase : w'.baseRunspace = w.baseRunspace)
    (h : Leaves reason gone (w.left reason r pushed nest) w') :
    Leaves reason (r :: gone) w w' := by
  have hrest : pushed = gone ++ w'.pushed := h.pushed
  have hcurrent : pushed.head?.getD w.baseRunspace = gone.head?.getD w'.currentRunspace := by
    rw [hrest, ← hbase]
    cases gone <;> rfl
  refine ⟨by rw [hpushed, hrest, List.cons_append], h.frames.cons hkind hpop, ?_⟩
  rw [h.told]
  change tellAll (w.bus.publish (.runspace
    { reason := _, previous := r, current := pushed.head?.getD w.baseRunspace })) _ = _
  rw [hcurrent]
  rfl

/-- Popping goes on until `keep` runspaces are left or a frame is refused. -/
theorem alone_popping (t : Thread) (rest : List Activation)
    (reason : Option RunspaceChangeReason) (hk : k < w.threads.length)
    (hkeep : keep ≤ w.pushed.length) :
    ∃ w' gone, Alone k (w.withThread k (t.goOn (.track (.popping keep reason) :: rest)))
        (w'.withThread k (t.give rest .unit)) ∧
      w' = { w with nest := w'.nest, pushed := w'.pushed, bus := w'.bus } ∧
      Leaves reason gone w w' ∧
      (w'.pushed.length = keep ∨ keep < w'.pushed.length ∧ w'.nest.Refuses) := by
  induction hpushed : w.pushed generalizing w with
  | nil =>
    have hzero : keep = 0 := by simpa [hpushed] using hkeep
    refine ⟨w, [], .move hk ?_, rfl, .refl _ w, Or.inl (by rw [hpushed, hzero]; rfl)⟩
    simp [Thread.moves, Thread.goOn, Thread.give, proceed, trackMoves, World.withThread, hpushed]
  | cons r pushed ih =>
    rcases hkeep.eq_or_lt with heq | hlt
    · refine ⟨w, [], .move hk ?_, rfl, .refl _ w, Or.inl heq.symm⟩
      simp [Thread.moves, Thread.goOn, Thread.give, proceed, trackMoves, World.withThread, heq]
    · have hpopping : Alone k (w.withThread k (t.goOn (.track (.popping keep reason) :: rest)))
          (w.withThread k (t.goOn (.popRunspace reason .checkingLength ::
            .track (.popping keep reason) :: rest))) := by
        refine .move hk ?_
        simp [Thread.moves, Thread.goOn, proceed, trackMoves, World.withThread, hlt]
      by_cases hrefuses : w.nest.Refuses
      · obtain ⟨e, hrefused⟩ := alone_refused t (.track (.popping keep reason) :: rest) reason
          hk hpushed hrefuses
        exact ⟨w, [], hpopping.trans (hrefused.trans (.move hk rfl)), rfl, .refl _ w,
          Or.inr ⟨hlt, hrefuses⟩⟩
      · obtain ⟨hkind, frame, nest, hpop⟩ := Nest.pop_of_not_refuses hrefuses
        have hkeep : keep ≤ pushed.length := by
          rw [hpushed, List.length_cons] at hlt
          exact Nat.le_of_lt_succ hlt
        obtain ⟨w', gone, halone, hsame, hleaves, hend⟩ :=
          ih (w := w.left reason r pushed nest) hk hkeep rfl
        refine ⟨w', r :: gone, ?_, hsame, hleaves.cons hpushed hkind hpop ?_, hend⟩
        · exact hpopping.trans ((alone_pop hk hpushed hkind hpop).trans
            (.trans (.move hk rfl) halone))
        · rw [hsame]
          rfl

end Popping

section Following

variable {w w' : World} {k keep : Nat} {r : Runspace} {gone : List Runspace}
  {reason : Option RunspaceChangeReason}

/-- As many runspaces stay as there are up to the one that is known. -/
theorem keepFor_spec (h : keepFor w r.id = some keep) :
    keep ≤ w.pushed.length ∧
      ∃ known, (w.baseRunspace :: w.pushed.reverse)[keep]? = some known ∧ known.id = r.id := by
  obtain ⟨-, hfound⟩ := Option.ite_none_left_eq_some.mp h
  obtain ⟨hlt, hid, -⟩ := List.findIdx?_eq_some_iff_getElem.mp hfound
  refine ⟨?_, _, List.getElem?_eq_getElem hlt, by simpa using hid⟩
  rw [List.length_cons, List.length_reverse] at hlt
  exact Nat.le_of_lt_succ hlt

/-- If what was known of `r` is all that is left, the service is in `r`. -/
theorem Leaves.current_id (h : Leaves reason gone w w') (hbase : w'.baseRunspace = w.baseRunspace)
    (hkeep : keepFor w r.id = some w'.pushed.length) : w'.currentRunspace.id = r.id := by
  obtain ⟨-, known, hknown, hid⟩ := keepFor_spec hkeep
  have hcurrent : (w.baseRunspace :: w.pushed.reverse)[w'.pushed.length]? =
      some w'.currentRunspace := by
    rw [World.currentRunspace, h.pushed, hbase]
    cases w'.pushed <;> simp
  rw [hcurrent, Option.some.injEq] at hknown
  rw [hknown, hid]

/-- The runspace `r` with its frame, before it is told. -/
def World.entered (w : World) (r : Runspace) : World :=
  { w with nest := (w.nest.push .remoteSession).2, pushed := r :: w.pushed }

theorem alone_entering (t : Thread) (rest : List Activation) (r : Runspace)
    (hk : k < w.threads.length) (hbase : w.baseGone = false) :
    ∃ w', Alone k (w.withThread k (t.goOn (.pushRunspace r .looking :: rest)))
        (w'.withThread k (t.give rest .unit)) ∧
      w' = { w with nest := w'.nest, pushed := w'.pushed, bus := w'.bus } ∧ Enters r w w' := by
  have hlooking : Alone k (w.withThread k (t.goOn (.pushRunspace r .looking :: rest)))
      (w.withThread k (t.goOn (.pushRunspace r (.pushing w.currentRunspace) :: rest))) := by
    refine .move hk ?_
    simp [Thread.moves, Thread.goOn, proceed, pushRunspaceMoves, World.withThread,
      World.currentRunspace, hbase]
  have hpushing : Alone k
      (w.withThread k (t.goOn (.pushRunspace r (.pushing w.currentRunspace) :: rest)))
      ({ w with nest := (w.nest.push .remoteSession).2 }.withThread k
        (t.goOn (.pushRunspace r (.recording w.currentRunspace) :: rest))) :=
    .move hk rfl
  have hrecording : Alone k
      ({ w with nest := (w.nest.push .remoteSession).2 }.withThread k
        (t.goOn (.pushRunspace r (.recording w.currentRunspace) :: rest)))
      ((w.entered r).withThread k
        (t.goOn (.pushRunspace r (.publishing w.currentRunspace) :: rest))) := by
    refine .move hk ?_
    simp [Thread.moves, Thread.goOn, proceed, pushRunspaceMoves, World.withThread,
      World.addRunspace, World.entered, hbase]
  have hpublishing : Alone k
      ((w.entered r).withThread k
        (t.goOn (.pushRunspace r (.publishing w.currentRunspace) :: rest)))
      (((w.entered r).publish (.runspace { reason := r.pushReason
                                           previous := w.currentRunspace
                                           current := r })).withThread k (t.give rest .unit)) :=
    .move hk rfl
  exact ⟨_, hlooking.trans (hpushing.trans (hrecording.trans hpublishing)), rfl, rfl, rfl, rfl⟩

/-- How a thread ends that follows the engine: it goes on with what is below, unless the base
runspace is gone, over which it cannot enter another one. -/
def World.Concludes (w : World) (t : Thread) (rest : List Activation) (t' : Thread) : Prop :=
  t' = t.give rest .unit ∨ w.baseGone = true ∧ t' = t.panic rest .underflow

/-- The answer that the current runspace is `r`. -/
theorem alone_comparing (t : Thread) (rest : List Activation) (r : Runspace)
    (hk : k < w.threads.length) :
    ∃ w' t', Alone k (w.withThread k (t.goOn (.track (.comparing r) :: rest)))
        (w'.withThread k t') ∧
      w' = { w with nest := w'.nest, pushed := w'.pushed, bus := w'.bus } ∧
      w.Concludes t rest t' ∧ Reconciles w w' (.ok r) := by
  let v := w.withThread k (t.goOn (.track (.comparing r) :: rest))
  have hunknown : keepFor w r.id = none → ¬(!v.baseGone && v.currentRunspace.id = r.id) →
      Alone k v (w.withThread k (t.goOn (.pushRunspace r .looking :: rest))) := by
    intro hkeep hid
    refine .move hk (?_ : trackMoves v _ rest (.comparing r) = _)
    rw [trackMoves, if_neg hid, show keepFor v r.id = none from hkeep]
    rfl
  rcases Bool.eq_false_or_eq_true w.baseGone with hbase | hbase
  · have hgone : v.baseGone = true := hbase
    have hlooking : Alone k (w.withThread k (t.goOn (.pushRunspace r .looking :: rest)))
        (w.withThread k (t.panic rest .underflow)) := by
      refine .move hk ?_
      simp [Thread.moves, Thread.goOn, Thread.panic, proceed, pushRunspaceMoves, World.withThread,
        hbase]
    have hnone : keepFor w r.id = none := by simp [keepFor, hbase]
    exact ⟨w, _, (hunknown hnone (by simp [hgone])).trans hlooking, rfl, Or.inr ⟨hbase, rfl⟩,
      .lost hbase ⟨rfl, rfl, rfl⟩⟩
  · have hthere : v.baseGone = false := hbase
    by_cases hid : w.currentRunspace.id = r.id
    · have hmoves : trackMoves v (t.goOn (.track (.comparing r) :: rest)) rest (.comparing r) =
          [(v, t.give rest .unit)] := by
        rw [trackMoves, if_pos (by simp [hthere, show v.currentRunspace.id = r.id from hid])]
        rfl
      exact ⟨w, _, .move hk hmoves, rfl, Or.inl rfl, .here hid ⟨rfl, rfl, rfl⟩⟩
    · have hother : ¬(!v.baseGone && v.currentRunspace.id = r.id) := by
        simp [show v.currentRunspace.id ≠ r.id from hid]
      cases hkeep : keepFor w r.id with
      | none =>
        obtain ⟨w', halone, hsame, henters⟩ := alone_entering t rest r hk hbase
        exact ⟨w', _, (hunknown hkeep hother).trans halone, hsame, Or.inl rfl, .on hkeep henters⟩
      | some keep =>
        have hmoves : trackMoves v (t.goOn (.track (.comparing r) :: rest)) rest (.comparing r) =
            [(v, t.goOn (.track (.popping keep none) :: rest))] := by
          rw [trackMoves, if_neg hother, show keepFor v r.id = some keep from hkeep]
          rfl
        obtain ⟨w', gone, halone, hsame, hleaves, hend⟩ :=
          alone_popping t rest none hk (keepFor_spec hkeep).1
        exact ⟨w', _, .trans (.move hk hmoves) halone, hsame, Or.inl rfl,
          .back hid hkeep hleaves hend⟩

/-- Neither what became of the engine nor what the threads do next matters. -/
theorem Reconciles.aside {engine : Engine} {answer : Except EngineError Runspace}
    (h : Reconciles { w with engine } w' answer) (t : Thread) :
    Reconciles w (w'.withThread k t) answer := by
  cases h with
  | here hid hstays => exact .here hid ⟨hstays.pushed, hstays.nest, hstays.bus⟩
  | back hid hkeep hleaves hend =>
    exact .back hid hkeep ⟨hleaves.pushed, hleaves.frames, hleaves.told⟩ hend
  | on hnew henters => exact .on hnew ⟨henters.pushed, henters.frame, henters.told⟩
  | lost hgone hstays => exact .lost hgone ⟨hstays.pushed, hstays.nest, hstays.bus⟩
  | broken hleaves hend => exact .broken ⟨hleaves.pushed, hleaves.frames, hleaves.told⟩ hend
  | failed he hstays => exact .failed he ⟨hstays.pushed, hstays.nest, hstays.bus⟩

/-- The engine is asked. -/
theorem alone_polling (t : Thread) (rest : List Activation) (hk : k < w.threads.length) :
    ∃ w' t', Alone k (w.withThread k (t.goOn (.track .polling :: rest)))
        (w'.withThread k t') ∧
      w' = { w with
        engine := w.engine.details.2, nest := w'.nest, pushed := w'.pushed, bus := w'.bus } ∧
      w.Concludes t rest t' ∧
      Reconciles { w with engine := w.engine.details.2 } w' w.engine.details.1 := by
  let v := w.withThread k (t.goOn (.track .polling :: rest))
  obtain ⟨answer, engine, hdetails⟩ : ∃ answer engine, w.engine.details = (answer, engine) :=
    ⟨_, _, rfl⟩
  have hv : v.engine.details = (answer, engine) := hdetails
  rw [hdetails]
  let asked : World := { w with engine }
  rcases answer with e | r
  · by_cases hbroken : ∃ message, e = .transportBroken message
    · obtain ⟨message, rfl⟩ := hbroken
      have hmoves : trackMoves v (t.goOn (.track .polling :: rest)) rest .polling =
          [({ v with engine }, t.goOn (.track (.popping 0 (some .sessionClosed)) :: rest))] := by
        rw [trackMoves, hv]
        rfl
      obtain ⟨w', gone, halone, hsame, hleaves, hend⟩ :=
        alone_popping (w := asked) t rest (some .sessionClosed) hk (Nat.zero_le _)
      have hasked : Alone k v (asked.withThread k
          (t.goOn (.track (.popping 0 (some .sessionClosed)) :: rest))) := .move hk hmoves
      exact ⟨w', _, hasked.trans halone, hsame, Or.inl rfl, .broken hleaves hend⟩
    · have he : ∀ message, e ≠ .transportBroken message := not_exists.mp hbroken
      have hmoves : trackMoves v (t.goOn (.track .polling :: rest)) rest .polling =
          [({ v with engine }, t.give rest .unit)] := by
        rw [trackMoves, hv]
        cases e <;> first | rfl | exact absurd rfl (he _)
      exact ⟨asked, _, .move hk hmoves, rfl, Or.inl rfl, .failed he ⟨rfl, rfl, rfl⟩⟩
  · have hmoves : trackMoves v (t.goOn (.track .polling :: rest)) rest .polling =
        [({ v with engine }, t.goOn (.track (.comparing r) :: rest))] := by
      rw [trackMoves, hv]
      rfl
    obtain ⟨w', t', halone, hsame, hconcludes, hreconciles⟩ :=
      alone_comparing (w := asked) t rest r hk
    have hasked : Alone k v (asked.withThread k (t.goOn (.track (.comparing r) :: rest))) :=
      .move hk hmoves
    exact ⟨w', t', hasked.trans halone, hsame, hconcludes, hreconciles⟩

theorem Leaves.remotes (h : Leaves reason gone w w') (hremotes : w.nest.Remotes w.pushed.length) :
    w'.nest.Remotes w'.pushed.length := by
  have hlength : w'.pushed.length = w.pushed.length - gone.length := by
    rw [h.pushed, List.length_append, Nat.add_sub_cancel_left]
  rw [hlength]
  exact hremotes.shed h.frames

/-- If the frames are those of the runspaces nothing is refused, and all ends where the engine
is. -/
theorem Reconciles.converges {answer : Except EngineError Runspace}
    (h : Reconciles w w' answer) (hbase : w'.baseRunspace = w.baseRunspace)
    (hthere : w.baseGone = false) (hremotes : w.nest.Remotes w.pushed.length) :
    w'.nest.Remotes w'.pushed.length ∧ Converges w w' answer := by
  cases h with
  | here hid hstays =>
    refine ⟨hstays.nest ▸ hstays.pushed ▸ hremotes, ?_⟩
    change w'.currentRunspace.id = _
    rw [World.currentRunspace, hstays.pushed, hbase]
    exact hid
  | back hid hkeep hleaves hend =>
    have hremotes' := hleaves.remotes hremotes
    refine ⟨hremotes', ?_⟩
    rcases hend with rfl | ⟨hlt, hrefuses⟩
    · exact hleaves.current_id hbase hkeep
    · have hnone := hremotes'.zero_of_refuses hrefuses
      omega
  | on hnew henters =>
    constructor
    · rw [henters.frame, henters.pushed]
      exact hremotes.push
    · change w'.currentRunspace.id = _
      rw [World.currentRunspace, henters.pushed]
      rfl
  | lost hgone => exact absurd (hthere.symm.trans hgone) Bool.false_ne_true
  | broken hleaves hend =>
    have hremotes' := hleaves.remotes hremotes
    have hnone : w'.pushed.length = 0 :=
      hend.elim id fun hrefused => hremotes'.zero_of_refuses hrefused.2
    refine ⟨hremotes', List.eq_nil_of_length_eq_zero hnone, ?_⟩
    exact List.eq_nil_of_length_eq_zero (hremotes'.length.trans hnone)
  | failed he hstays =>
    refine ⟨hstays.nest ▸ hstays.pushed ▸ hremotes, ?_⟩
    unfold Converges
    split
    · cases ‹_›
    · next heq => exact absurd (Except.error.inj heq) (he _)
    · exact ⟨hstays.pushed, hstays.nest⟩

/-- From any state, a thread that asks the engine for the current runspace comes to an end, and
then the runspaces and frames are what the answer makes of them: those that are to go went one
after the other until one was refused, each with its frame and told once. If the base runspace is
there, and the frames over the base are those of the runspaces, they are so again, and the service
is where the engine is. -/
theorem reconciliation_converges (w : World) (k : Nat) (t : Thread) (rest : List Activation)
    (ht : w.threads[k]? = some (t.goOn (.track .polling :: rest))) :
    ∃ w' t', Alone k w w' ∧
      w' = { w with
        engine := w.engine.details.2, nest := w'.nest, pushed := w'.pushed, bus := w'.bus
        threads := w.threads.set k t' } ∧
      w.Concludes t rest t' ∧ Reconciles w w' w.engine.details.1 ∧
      (w.baseGone = false → w.nest.Remotes w.pushed.length →
        w'.nest.Remotes w'.pushed.length ∧ Converges w w' w.engine.details.1) := by
  have hk : k < w.threads.length := (List.getElem?_eq_some_iff.mp ht).1
  obtain ⟨w', t', halone, hsame, hconcludes, hreconciles⟩ := alone_polling t rest hk
  rw [World.withThread_self ht] at halone
  have hreconciles := hreconciles.aside (k := k) t'
  have hbase : (w'.withThread k t').baseRunspace = w.baseRunspace := by
    rw [hsame]
    rfl
  refine ⟨_, t', halone, ?_, hconcludes, hreconciles, hreconciles.converges hbase⟩
  rw [hsame]
  rfl

/-- A service in two sessions, one inside the other, with a watcher; the transport broke, and
its only thread is about to ask. -/
def brokenInside : World :=
  { operations := .v5
    engine :=
      { entered := [{ id := 2, location := .computer "b" }, { id := 1, location := .computer "a" }]
        transportBroken := true }
    baseRunspace := { id := 0 }
    pushed := [{ id := 2, location := .computer "b" }, { id := 1, location := .computer "a" }]
    nest := ((Nest.initial.push .remoteSession).2.push .remoteSession).2
    bus := (EventBus.subscribe {}).2
    threads := [{ stack := [.track .polling] }] }

theorem reconciliation_converges_brokenInside :
    brokenInside.baseGone = false ∧ brokenInside.nest.Remotes brokenInside.pushed.length ∧
      ∃ w', Alone 0 brokenInside w' ∧ w'.pushed = [] ∧ w'.nest.above = [] ∧
        w'.bus.subscriptions.map Subscription.buffer =
          [[.runspace { reason := .sessionClosed
                        previous := { id := 2, location := .computer "b" }
                        current := { id := 1, location := .computer "a" } },
            .runspace { reason := .sessionClosed
                        previous := { id := 1, location := .computer "a" }
                        current := { id := 0 } }]] := by
  have hremotes : brokenInside.nest.Remotes brokenInside.pushed.length := ⟨by decide, rfl⟩
  obtain ⟨w', t', halone, hsame, -, hreconciles, hconverges⟩ :=
    reconciliation_converges brokenInside 0 { stack := [] } [] rfl
  obtain ⟨-, hpushed, habove⟩ := hconverges rfl hremotes
  refine ⟨rfl, hremotes, w', halone, hpushed, habove, ?_⟩
  generalize hanswer : brokenInside.engine.details.1 = answer at hreconciles
  cases hreconciles with
  | broken hleaves hend =>
    have hgone := hleaves.pushed
    rw [hpushed, List.append_nil] at hgone
    have hbase : w'.baseRunspace = { id := 0 } := by
      rw [hsame]
      rfl
    rw [hleaves.told, ← hgone, World.currentRunspace, hpushed, hbase]
    rfl
  | here | back | on | lost => cases hanswer
  | failed he hstays => exact absurd rfl (Except.error.inj hanswer ▸ he _)

end Following

end Service

end ScriptHost
