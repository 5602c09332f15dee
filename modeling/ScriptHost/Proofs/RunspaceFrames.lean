import ScriptHost.Proofs.LoopFrames
import ScriptHost.Proofs.RunspaceOperations

/-!
The frames that are pushed for runspaces, and what popping a runspace does to them. A pop
looks at the kind of the innermost frame, and takes any remote frame for that of the
innermost runspace; but frames of orders inside a remote session are remote too. And a loop
or an order that found its own frame innermost takes whichever is innermost a step later,
which can be that of a runspace. As long as the frames of runspaces are taken by pops, and
pops take no others, frames and runspaces match one to one, and each pop undoes the push of
the runspace that it returns. The histories of pushes and pops are read off the run.
-/

namespace ScriptHost

/-- A pop is refused only if no frame stands above the base. -/
theorem Nest.pop_error {n : Nest} {e : ExecutionError} (h : n.pop = .error e) :
    n.above = [] ∧ e = .invariantViolation .basePopped := by
  unfold pop at h
  split at h
  · next habove =>
    cases h
    exact ⟨habove, rfl⟩
  · cases h

namespace Service

/-- The activation that a step is a step of, unless it is given a result there or unwound. -/
def Transition.acting? (x : Transition) : Option Activation :=
  (x.mover.bind (x.before.threads[·]?)).bind fun t =>
    match t.control with
    | .go => t.stack.head?
    | _ => none

/-- The frame that a step pushes for a runspace. -/
def Transition.pushedFor? (x : Transition) : Option (Nat × Runspace) :=
  match x.acting? with
  | some (.pushRunspace r (.pushing _)) => some (x.before.nest.frames.length, r)
  | _ => none

/-- The frame that a step takes off the stack to pop a runspace. -/
def Transition.poppedFrame? (x : Transition) : Option Nat :=
  match x.acting? with
  | some (.popRunspace _ .poppingFrame) => x.before.nest.above.head?
  | _ => none

/-- The frame that a step takes off the stack, for whatever purpose. -/
def Transition.takenOff? (x : Transition) : Option Nat :=
  x.before.nest.above.head?.filter fun _ => x.after.nest.above = x.before.nest.above.tail

/-- What a step answers to whoever pops a runspace. -/
def Transition.popAnswer? (x : Transition) : Option (Except ExecutionError Runspace) :=
  match x.acting?, (x.mover.bind (x.after.threads[·]?)).map Thread.control with
  | some (.popRunspace _ _), some (.back (.popped r)) => some r
  | _, _ => none

/-- The frames that were pushed for runspaces, each with its runspace, latest first. -/
def framesFor (past : List Transition) : List (Nat × Runspace) :=
  past.filterMap Transition.pushedFor?

/-- The frames on the stack that were pushed for runspaces, innermost first. -/
def sessionFrames (past : List Transition) (w : World) : List Nat :=
  w.nest.above.filter fun frame => frame ∈ (framesFor past).map Prod.fst

/-- The frame that thread `k` took last to pop a runspace. -/
def lastPopped (k : Nat) (past : List Transition) : Option Nat :=
  past.findSome? fun x => if x.mover = some k then x.poppedFrame? else none

/-- Every step of a run has a property, which may speak of the steps before it. -/
def AllAlong (P : List Transition → Transition → Prop) : List Transition → Prop
  | [] => True
  | x :: past => P past x ∧ AllAlong P past

/-- The frames that are taken off the stack to pop a runspace are those that were pushed for one,
and they are taken for nothing else. -/
def TakesSession (past : List Transition) (x : Transition) : Prop :=
  ∀ frame ∈ x.takenOff?, x.poppedFrame? = some frame ↔ frame ∈ (framesFor past).map Prod.fst

/-- A frame that is taken off the stack to pop a runspace was pushed for the innermost of the
runspaces, and no other step takes one that was pushed for a runspace. -/
def UndoesPush (past : List Transition) (x : Transition) : Prop :=
  (∀ frame ∈ x.poppedFrame?, ∃ r, x.before.pushed.head? = some r ∧ (frame, r) ∈ framesFor past) ∧
  ∀ frame ∈ x.takenOff?, frame ∈ (framesFor past).map Prod.fst → x.poppedFrame? = some frame

/-- The runspace that a pop returns is the one for which the frame that it took was pushed. -/
def ReturnsRunspace (past : List Transition) (x : Transition) : Prop :=
  ∀ r, x.popAnswer? = some (.ok r) →
    ∃ k frame, x.mover = some k ∧ lastPopped k past = some frame ∧ (frame, r) ∈ framesFor past

/-- A pop looks without changing frames and runspaces, and if it is refused, it is so for a violated
invariant, before it has changed them. -/
def LooksFirst (x : Transition) : Prop :=
  (∀ reason phase, x.acting? = some (.popRunspace reason phase) →
    phase = .checkingLength ∨ phase = .checkingFrame →
    x.after.nest = x.before.nest ∧ x.after.runspaces = x.before.runspaces) ∧
  ∀ e, x.popAnswer? = some (.error e) →
    (∃ v, e = .invariantViolation v) ∧ x.after.nest = x.before.nest ∧
      x.after.runspaces = x.before.runspaces ∧
      ∀ reason, x.acting? ≠ some (.popRunspace reason .poppingRunspace)

section Steps

variable {w w' : World} {past : List Transition} {mover : Option Nat} {k : Nat} {t : Thread}
  {x : Transition}

theorem acting_of_go {a : Activation} {rest : List Activation} (w' : World)
    (ht : w.threads[k]? = some t) (hgo : t.control = .go) (hs : t.stack = a :: rest) :
    Transition.acting? ⟨w, some k, w'⟩ = some a := by
  simp [Transition.acting?, ht, hgo, hs]

theorem go_of_acting {a : Activation} (h : Transition.acting? ⟨w, mover, w'⟩ = some a) :
    ∃ k t rest, mover = some k ∧ w.threads[k]? = some t ∧ t.control = .go ∧
      t.stack = a :: rest := by
  obtain ⟨t, ht, hacts⟩ := Option.bind_eq_some_iff.mp h
  obtain ⟨k, rfl, ht⟩ := Option.bind_eq_some_iff.mp ht
  split at hacts
  · next hgo =>
    obtain ⟨rest, hs⟩ := List.head?_eq_some_iff.mp hacts
    exact ⟨k, t, rest, rfl, ht, hgo, hs⟩
  · cases hacts

theorem step_of_acting {a : Activation} (hstep : Step w mover w')
    (h : Transition.acting? ⟨w, mover, w'⟩ = some a) :
    ∃ k t rest m, mover = some k ∧ w.threads[k]? = some t ∧ t.control = .go ∧
      t.stack = a :: rest ∧ Goes w k t rest a m ∧ w'.threads[k]? = some m.2 ∧
      w' = { m.1 with threads := m.1.threads.set k m.2 } := by
  obtain ⟨k, t, rest, rfl, ht, hgo, hs⟩ := go_of_acting h
  cases hstep with
  | move hfree hmove =>
    obtain ⟨t', ht', m, hm, rfl⟩ := mem_next.mp hmove
    cases ht.symm.trans ht'
    have ht' := thread_of_moves ht hm
    exact ⟨k, t, rest, m, rfl, ht, hgo, hs, goes_of_moves hm hgo hs, ht', rfl⟩

theorem pushedFor_eq_some {p : Nat × Runspace} (h : x.pushedFor? = some p) :
    ∃ r previous, x.acting? = some (.pushRunspace r (.pushing previous)) ∧
      p = (x.before.nest.frames.length, r) := by
  unfold Transition.pushedFor? at h
  split at h
  · next r previous hacting => exact ⟨r, previous, hacting, (Option.some.inj h).symm⟩
  · cases h

theorem poppedFrame_eq_some {frame : Nat} (h : x.poppedFrame? = some frame) :
    ∃ reason, x.acting? = some (.popRunspace reason .poppingFrame) ∧
      x.before.nest.above.head? = some frame := by
  unfold Transition.poppedFrame? at h
  split at h
  · next reason hacting => exact ⟨reason, hacting, h⟩
  · cases h

theorem popAnswer_eq_some {answer : Except ExecutionError Runspace}
    (h : x.popAnswer? = some answer) :
    ∃ reason phase, x.acting? = some (.popRunspace reason phase) ∧
      (x.mover.bind (x.after.threads[·]?)).map Thread.control = some (.back (.popped answer)) := by
  unfold Transition.popAnswer? at h
  split at h
  · next reason phase answer' hacting hanswer =>
    cases h
    exact ⟨reason, phase, hacting, hanswer⟩
  · cases h

/-- A thread that is not midway does not act on frames or runspaces. -/
theorem acts_plainly (ht : w.threads[k]? = some t) (h : t.midway = false) :
    Transition.pushedFor? ⟨w, some k, w'⟩ = none ∧
      Transition.poppedFrame? ⟨w, some k, w'⟩ = none := by
  have hrest : ∀ a, Transition.acting? ⟨w, some k, w'⟩ = some a → a.midway = false := by
    intro a hacting
    obtain ⟨k', t', rest, hk, ht', hgo, hs⟩ := go_of_acting hacting
    cases hk
    cases ht.symm.trans ht'
    rwa [Thread.midway, hgo, hs] at h
  refine ⟨Option.eq_none_iff_forall_ne_some.mpr fun p hp => ?_,
    Option.eq_none_iff_forall_ne_some.mpr fun frame hframe => ?_⟩
  · obtain ⟨r, previous, hacting, -⟩ := pushedFor_eq_some hp
    cases hrest _ hacting
  · obtain ⟨reason, hacting, -⟩ := poppedFrame_eq_some hframe
    cases hrest _ hacting

theorem framesFor_cons_none (h : x.pushedFor? = none) : framesFor (x :: past) = framesFor past :=
  List.filterMap_cons_none h

theorem framesFor_cons_some {p : Nat × Runspace} (h : x.pushedFor? = some p) :
    framesFor (x :: past) = p :: framesFor past :=
  List.filterMap_cons_some h

theorem framesFor_subset (x : Transition) (past : List Transition) :
    framesFor past ⊆ framesFor (x :: past) := by
  intro p hp
  cases h : x.pushedFor? with
  | none => rwa [framesFor_cons_none h]
  | some q =>
    rw [framesFor_cons_some h]
    exact List.mem_cons_of_mem q hp

/-- A step that pushes a frame for a runspace. -/
theorem pushing_step {p : Nat × Runspace} (hstep : Step w mover w')
    (h : Transition.pushedFor? ⟨w, mover, w'⟩ = some p) :
    ∃ k t r previous rest, mover = some k ∧ w.threads[k]? = some t ∧
      t.stack = .pushRunspace r (.pushing previous) :: rest ∧ p = (w.nest.frames.length, r) ∧
      w' = { w with
        nest := (w.nest.push .remoteSession).2
        threads := w.threads.set k (t.goOn (.pushRunspace r (.recording previous) :: rest)) } := by
  obtain ⟨r, previous, hacting, rfl⟩ := pushedFor_eq_some h
  obtain ⟨k, t, rest, m, rfl, ht, -, hs, hm, -, rfl⟩ := step_of_acting hstep hacting
  cases hm with
  | onward hnext => cases hnext
  | ended hend => cases hend
  | framePushed => exact ⟨k, t, r, previous, rest, rfl, ht, hs, rfl, rfl⟩

/-- The frames that were pushed for runspaces are there. -/
theorem frames_made (h : Run past w) : ∀ p ∈ framesFor past, p.1 < w.nest.frames.length := by
  induction h with
  | start => simp [framesFor]
  | @step past w w' mover h hstep ih =>
    have hmade := (keeps_of_step h hstep).made
    have hpast : ∀ p ∈ framesFor past, p.1 < w'.nest.frames.length := fun p hp =>
      (ih p hp).trans_le hmade
    cases hpushed : Transition.pushedFor? ⟨w, mover, w'⟩ with
    | none => rwa [framesFor_cons_none hpushed]
    | some p =>
      obtain ⟨k, t, r, previous, rest, rfl, ht, hs, rfl, rfl⟩ := pushing_step hstep hpushed
      rw [framesFor_cons_some hpushed]
      exact List.forall_mem_cons.mpr ⟨by simp, hpast⟩

theorem takenOff_eq_some {frame : Nat} :
    x.takenOff? = some frame ↔ x.before.nest.above = frame :: x.after.nest.above := by
  rw [Transition.takenOff?, Option.filter_eq_some_iff, decide_eq_true_iff]
  constructor
  · rintro ⟨hhead, htail⟩
    obtain ⟨above, habove⟩ := List.head?_eq_some_iff.mp hhead
    rw [htail, habove, List.tail_cons]
  · intro habove
    rw [habove]
    exact ⟨rfl, rfl⟩

/-- A frame that is popped with a runspace is taken off the stack. -/
theorem takenOff_of_popped {frame : Nat} (hstep : Step w mover w')
    (h : Transition.poppedFrame? ⟨w, mover, w'⟩ = some frame) :
    Transition.takenOff? ⟨w, mover, w'⟩ = some frame := by
  obtain ⟨reason, hacting, hhead⟩ := poppedFrame_eq_some h
  obtain ⟨k, t, rest, m, rfl, -, -, -, hm, -, rfl⟩ := step_of_acting hstep hacting
  cases hm with
  | onward hnext => cases hnext
  | ended hend =>
    cases hend with
    | unpopped reason e hpop =>
      change w.nest.above.head? = some frame at hhead
      rw [(Nest.pop_error hpop).1] at hhead
      cases hhead
  | framePopped reason popped nest hpop =>
    have habove : w.nest.above = popped :: nest.above := (Nest.pop_spec hpop).1
    change w.nest.above.head? = some frame at hhead
    rw [habove, List.head?_cons, Option.some.injEq] at hhead
    exact takenOff_eq_some.mpr (hhead ▸ habove)

/-- A stack is left as it is, or a frame that is none of `frames` is pushed or popped. -/
def Aside (frames : List (Nat × Runspace)) (above above' : List Nat) : Prop :=
  above' = above ∨ ∃ frame, frame ∉ frames.map Prod.fst ∧
    (above' = frame :: above ∨ above = frame :: above')

theorem sessionFrames_eq {frames : List (Nat × Runspace)} {above above' : List Nat}
    (h : Aside frames above above') :
    (above'.filter fun frame => frame ∈ frames.map Prod.fst) =
      above.filter fun frame => frame ∈ frames.map Prod.fst := by
  rcases h with rfl | ⟨frame, hframe, rfl | rfl⟩
  · rfl
  · rw [List.filter_cons_of_neg (by simpa using hframe)]
  · rw [List.filter_cons_of_neg (by simpa using hframe)]

/-- Steps that neither push a frame for a runspace nor take one to pop it. -/
theorem sessions_of_aside (h : Run past w) (hstep : Step w mover w')
    (htakes : TakesSession past ⟨w, mover, w'⟩)
    (hpushed : Transition.pushedFor? ⟨w, mover, w'⟩ = none)
    (hpopped : Transition.poppedFrame? ⟨w, mover, w'⟩ = none) :
    sessionFrames (⟨w, mover, w'⟩ :: past) w' = sessionFrames past w := by
  rw [sessionFrames, framesFor_cons_none hpushed]
  refine sessionFrames_eq ?_
  have hchange := change_of_step h hstep
  generalize hnest : w'.nest = nest at hchange
  cases hchange with
  | served ha => exact Or.inl ha.above
  | pushed kind =>
    refine Or.inr ⟨w.nest.frames.length, fun hmem => ?_, Or.inl rfl⟩
    obtain ⟨p, hp, heq⟩ := List.mem_map.mp hmem
    exact (frames_made h p hp).ne heq
  | @popped frame _ hpop =>
    have habove : w.nest.above = frame :: nest.above := (Nest.pop_spec hpop).1
    have htaken : Transition.takenOff? ⟨w, mover, w'⟩ = some frame :=
      takenOff_eq_some.mpr (hnest ▸ habove)
    refine Or.inr ⟨frame, fun hmem => ?_, Or.inr habove⟩
    cases hpopped.symm.trans ((htakes frame htaken).mpr hmem)

/-- A frame that is pushed for a runspace is the innermost of theirs. -/
theorem sessions_of_push {p : Nat × Runspace} (h : Run past w) (hstep : Step w mover w')
    (hpushed : Transition.pushedFor? ⟨w, mover, w'⟩ = some p) :
    sessionFrames (⟨w, mover, w'⟩ :: past) w' = p.1 :: sessionFrames past w := by
  obtain ⟨k, t, r, previous, rest, rfl, ht, hs, rfl, rfl⟩ := pushing_step hstep hpushed
  have hmade : ∀ frame ∈ w.nest.above, frame ≠ w.nest.frames.length := fun frame hframe =>
    ((standing_of_run h).stack_made frame (List.mem_append_left _ hframe)).ne
  rw [sessionFrames, framesFor_cons_some hpushed]
  change List.filter _ (w.nest.frames.length :: w.nest.above) = _
  rw [List.filter_cons_of_pos (by simp), sessionFrames]
  refine congrArg _ (List.filter_congr fun frame hframe => ?_)
  simp [hmade frame hframe]

/-- Runspaces with the frames that were pushed for them, innermost first. -/
def Matches (past : List Transition) : List Nat → List Runspace → Prop :=
  List.Forall₂ fun frame r => (frame, r) ∈ framesFor past

/-- The runspaces as they will be when an operation has brought them in line with the frames. -/
def Activation.settle (pushed : List Runspace) : Activation → List Runspace
  | .pushRunspace r (.recording _) => r :: pushed
  | .popRunspace _ .poppingRunspace => pushed.tail
  | _ => pushed

/-- A pop has taken the frame of the runspace that it takes, or has taken. -/
def Activation.TookFor (k : Nat) (past : List Transition) (pushed : List Runspace) :
    Activation → Prop
  | .popRunspace _ .poppingRunspace =>
    ∃ frame r, lastPopped k past = some frame ∧ (frame, r) ∈ framesFor past ∧
      pushed.head? = some r
  | .popRunspace _ (.publishing r _) =>
    ∃ frame, lastPopped k past = some frame ∧ (frame, r) ∈ framesFor past
  | _ => True

def Thread.settle (t : Thread) (pushed : List Runspace) : List Runspace :=
  match t.control, t.stack with
  | .go, a :: _ => a.settle pushed
  | _, _ => pushed

def Thread.TookFor (k : Nat) (past : List Transition) (pushed : List Runspace) (t : Thread) :
    Prop :=
  match t.control, t.stack with
  | .go, a :: _ => a.TookFor k past pushed
  | _, _ => True

theorem Matches.mono {frames : List Nat} {rs : List Runspace} (h : Matches past frames rs)
    (x : Transition) : Matches (x :: past) frames rs :=
  h.imp fun _ _ hp => framesFor_subset x past hp

theorem Thread.settle_of_not_midway (h : t.midway = false) (k : Nat) (past : List Transition)
    (pushed : List Runspace) : t.settle pushed = pushed ∧ t.TookFor k past pushed := by
  obtain ⟨depth, control, stack⟩ := t
  cases control with
  | go =>
    cases stack with
    | nil => exact ⟨rfl, trivial⟩
    | cons a rest =>
      cases a with
      | pushRunspace r phase => cases phase <;> first | exact ⟨rfl, trivial⟩ | cases h
      | popRunspace reason phase => cases phase <;> first | exact ⟨rfl, trivial⟩ | cases h
      | _ => exact ⟨rfl, trivial⟩
  | back | unwind | dropped => exact ⟨rfl, trivial⟩

theorem lastPopped_cons_of_none (h : x.mover = some k → x.poppedFrame? = none) :
    lastPopped k (x :: past) = lastPopped k past :=
  List.findSome?_cons_of_isNone (by simpa using h)

theorem lastPopped_cons_of_some {frame : Nat} (hmover : x.mover = some k)
    (h : x.poppedFrame? = some frame) : lastPopped k (x :: past) = some frame := by
  rw [lastPopped, List.findSome?_cons, if_pos hmover, h]

/-- What a thread has taken is what it took last until it takes another frame. -/
theorem Thread.TookFor.later {pushed : List Runspace} (h : t.TookFor k past pushed)
    (hnone : x.mover = some k → x.poppedFrame? = none) : t.TookFor k (x :: past) pushed := by
  unfold Thread.TookFor at h ⊢
  split
  · next a rest hgo hs =>
    rw [hgo, hs] at h
    cases a with
    | popRunspace reason phase =>
      cases phase with
      | poppingRunspace =>
        obtain ⟨frame, r, hlast, hframe, hr⟩ := h
        exact ⟨frame, r, (lastPopped_cons_of_none hnone).trans hlast,
          framesFor_subset x past hframe, hr⟩
      | publishing r current =>
        obtain ⟨frame, hlast, hframe⟩ := h
        exact ⟨frame, (lastPopped_cons_of_none hnone).trans hlast, framesFor_subset x past hframe⟩
      | _ => trivial
    | _ => trivial
  · trivial

/-- The frames match the runspaces to which thread `k` has brought them. -/
structure Fits (k : Nat) (past : List Transition) (w : World) (t : Thread) : Prop where
  took : t.TookFor k past w.pushed
  pairs : Matches past (sessionFrames past w) (t.settle w.pushed)

/-- The frames that stand on the stack for runspaces are those of the pushed runspaces, with what
an operation that is midway has yet to do. -/
structure Paired (past : List Transition) (w : World) : Prop where
  settled : (∀ t ∈ w.threads, t.midway = false) → Matches past (sessionFrames past w) w.pushed
  midway : ∀ (k : Nat) (t : Thread), w.threads[k]? = some t → t.midway = true → Fits k past w t

theorem Paired.quiet (h : Paired past w) (hstep : Step w mover w')
    (hsessions : sessionFrames (⟨w, mover, w'⟩ :: past) w' = sessionFrames past w)
    (hpushed : w'.pushed = w.pushed)
    (hmover : ∀ k t, mover = some k → w.threads[k]? = some t ∨ w'.threads[k]? = some t →
      t.midway = false) : Paired (⟨w, mover, w'⟩ :: past) w' := by
  refine ⟨fun hnone => ?_, fun k t ht hmidway => ?_⟩
  · rw [hsessions, hpushed]
    refine (h.settled fun t ht => ?_).mono _
    obtain ⟨j, hj⟩ := List.mem_iff_getElem?.mp ht
    by_contra hmidway
    have hother : mover ≠ some j := fun heq => hmidway (hmover j t heq (Or.inl hj))
    have hstays := midway_stays hstep hj (by simpa using hmidway) hother
    exact hmidway (hnone t (List.mem_of_getElem? hstays))
  · have hother : mover ≠ some k := fun heq => by
      rw [hmover k t heq (Or.inr ht)] at hmidway
      cases hmidway
    rcases same_or_not_midway hstep hother ht with ht | hnot
    · obtain ⟨htook, hpairs⟩ := h.midway k t ht hmidway
      have htook' := htook.later (x := ⟨w, mover, w'⟩) fun heq => absurd heq hother
      exact ⟨hpushed ▸ htook', hsessions ▸ hpushed ▸ hpairs.mono _⟩
    · rw [hnot] at hmidway
      cases hmidway

theorem Paired.of_mover (h : Paired past w) (ht : w.threads[k]? = some t)
    (hothers : ∀ j s, j ≠ k → w.threads[j]? = some s → s.midway = false) : Fits k past w t := by
  cases hmidway : t.midway with
  | true => exact h.midway k t ht hmidway
  | false =>
    obtain ⟨hsettle, htook⟩ := Thread.settle_of_not_midway hmidway k past w.pushed
    refine ⟨htook, hsettle.symm ▸ h.settled fun s hs => ?_⟩
    obtain ⟨j, hj⟩ := List.mem_iff_getElem?.mp hs
    by_cases hjk : j = k
    · cases ht.symm.trans (hjk ▸ hj)
      exact hmidway
    · exact hothers j s hjk hj

theorem Fits.paired (h : Fits k past w t) (ht : w.threads[k]? = some t)
    (hothers : ∀ j s, j ≠ k → w.threads[j]? = some s → s.midway = false) : Paired past w := by
  refine ⟨fun hnone => ?_, fun j s hs hmidway => ?_⟩
  · have hsettle := (Thread.settle_of_not_midway (hnone t (List.mem_of_getElem? ht)) k past
      w.pushed).1
    exact hsettle ▸ h.pairs
  · by_cases hj : j = k
    · subst hj
      cases ht.symm.trans hs
      exact h
    · rw [hothers j s hj hs] at hmidway
      cases hmidway

/-- A frame that is taken to pop a runspace is the innermost of theirs. -/
theorem sessions_of_pop {frame : Nat} (hstep : Step w mover w')
    (hpopped : Transition.poppedFrame? ⟨w, mover, w'⟩ = some frame)
    (htakes : TakesSession past ⟨w, mover, w'⟩) :
    sessionFrames past w = frame :: sessionFrames (⟨w, mover, w'⟩ :: past) w' := by
  obtain ⟨reason, hacting, -⟩ := poppedFrame_eq_some hpopped
  have hnone : Transition.pushedFor? ⟨w, mover, w'⟩ = none := by
    rw [Transition.pushedFor?, hacting]
  have htaken := takenOff_of_popped hstep hpopped
  have habove : w.nest.above = frame :: w'.nest.above := takenOff_eq_some.mp htaken
  have hmem := (htakes frame htaken).mp hpopped
  rw [sessionFrames, sessionFrames, framesFor_cons_none hnone, habove,
    List.filter_cons_of_pos (by simpa using hmem)]

section Operations

variable {m : World × Thread} {rest : List Activation}

theorem fits_of_push {r : Runspace} {phase : PushPhase} (h : Run past w)
    (hstep : Step w (some k) w') (ht : w.threads[k]? = some t) (hgo : t.control = .go)
    (hs : t.stack = .pushRunspace r phase :: rest) (hm : Goes w k t rest (.pushRunspace r phase) m)
    (hw' : w' = { m.1 with threads := m.1.threads.set k m.2 }) (hbase : w.baseGone = false)
    (htakes : TakesSession past ⟨w, some k, w'⟩) (hfits : Fits k past w t) :
    Fits k (⟨w, some k, w'⟩ :: past) w' m.2 := by
  have hacting := acting_of_go w' ht hgo hs
  have haside : (∀ previous, phase ≠ .pushing previous) →
      sessionFrames (⟨w, some k, w'⟩ :: past) w' = sessionFrames past w := by
    intro hphase
    refine sessions_of_aside h hstep htakes ?_ (by simp [Transition.poppedFrame?, hacting])
    cases phase with
    | pushing previous => exact absurd rfl (hphase previous)
    | _ => simp [Transition.pushedFor?, hacting]
  obtain ⟨depth, control, stack⟩ := t
  cases hgo
  cases hs
  cases hm with
  | ended hend => cases hend
  | onward hnext =>
    cases hnext with
    | noted =>
      subst hw'
      exact ⟨trivial, haside (fun _ => nofun) ▸ hfits.pairs.mono _⟩
  | underflowed | pushPublished =>
    subst hw'
    exact ⟨trivial, haside (fun _ => nofun) ▸ hfits.pairs.mono _⟩
  | recorded =>
    rw [addRunspace_of_base _ hbase] at hw'
    subst hw'
    refine ⟨trivial, ?_⟩
    rw [haside fun _ => nofun]
    exact hfits.pairs.mono _
  | framePushed r previous =>
    have hpushed : Transition.pushedFor? ⟨w, some k, w'⟩ = some (w.nest.frames.length, r) := by
      simp [Transition.pushedFor?, hacting]
    have hsessions := sessions_of_push h hstep hpushed
    refine ⟨trivial, ?_⟩
    rw [hsessions, hw']
    refine .cons ?_ (hfits.pairs.mono _)
    rw [← hw', framesFor_cons_some hpushed]
    exact List.mem_cons_self

/-- The frame that a pop takes was pushed for the innermost runspace, if for any. -/
theorem innermost_of_pop {frame : Nat} (hstep : Step w mover w')
    (hpopped : Transition.poppedFrame? ⟨w, mover, w'⟩ = some frame)
    (htakes : TakesSession past ⟨w, mover, w'⟩) (h : Matches past (sessionFrames past w) w.pushed) :
    ∃ r, w.pushed.head? = some r ∧ (frame, r) ∈ framesFor past ∧
      Matches past (sessionFrames (⟨w, mover, w'⟩ :: past) w') w.pushed.tail := by
  rw [sessions_of_pop hstep hpopped htakes] at h
  obtain ⟨r, rs, hframe, hrest, hpushed⟩ := List.forall₂_cons_left_iff.mp h
  rw [hpushed]
  exact ⟨r, rfl, hframe, hrest⟩

theorem fits_of_pop {reason : Option RunspaceChangeReason} {phase : PopPhase} (h : Run past w)
    (hstep : Step w (some k) w') (ht : w.threads[k]? = some t) (hgo : t.control = .go)
    (hs : t.stack = .popRunspace reason phase :: rest)
    (hm : Goes w k t rest (.popRunspace reason phase) m)
    (hw' : w' = { m.1 with threads := m.1.threads.set k m.2 })
    (htakes : TakesSession past ⟨w, some k, w'⟩) (hfits : Fits k past w t) :
    Fits k (⟨w, some k, w'⟩ :: past) w' m.2 := by
  have hacting := acting_of_go w' ht hgo hs
  have haside : Transition.poppedFrame? ⟨w, some k, w'⟩ = none →
      sessionFrames (⟨w, some k, w'⟩ :: past) w' = sessionFrames past w :=
    sessions_of_aside h hstep htakes (by simp [Transition.pushedFor?, hacting])
  have hlooks : phase ≠ .poppingFrame → Transition.poppedFrame? ⟨w, some k, w'⟩ = none := by
    intro hphase
    cases phase with
    | poppingFrame => exact absurd rfl hphase
    | _ => simp [Transition.poppedFrame?, hacting]
  obtain ⟨depth, control, stack⟩ := t
  cases hgo
  cases hs
  cases hm with
  | onward hnext =>
    have hsessions := haside (hlooks (by cases hnext <;> nofun))
    subst hw'
    cases hnext <;> exact ⟨trivial, hsessions ▸ hfits.pairs.mono _⟩
  | ended hend =>
    cases hend with
    | unpushed | framed =>
      have hsessions := haside (hlooks nofun)
      subst hw'
      exact ⟨trivial, hsessions ▸ hfits.pairs.mono _⟩
    | unpopped reason e hpop =>
      have hsessions := haside (by simp [Transition.poppedFrame?, hacting, (Nest.pop_error hpop).1])
      subst hw'
      exact ⟨trivial, hsessions ▸ hfits.pairs.mono _⟩
    | noRunspace reason hpushed =>
      obtain ⟨frame, r, -, -, hr⟩ := hfits.took
      rw [hpushed] at hr
      cases hr
  | framePopped reason frame nest hpop =>
    have hpopped : Transition.poppedFrame? ⟨w, some k, w'⟩ = some frame := by
      simp [Transition.poppedFrame?, hacting, (Nest.pop_spec hpop).1]
    obtain ⟨r, hr, hframe, hpairs⟩ := innermost_of_pop hstep hpopped htakes hfits.pairs
    subst hw'
    exact ⟨⟨frame, r, lastPopped_cons_of_some rfl hpopped, framesFor_subset _ past hframe, hr⟩,
      hpairs.mono _⟩
  | unrecorded reason r' pushed hpushed =>
    have hnone := hlooks nofun
    have hsessions := haside hnone
    have hpairs : Matches past (sessionFrames past w) w.pushed.tail := hfits.pairs
    obtain ⟨frame, r, hlast, hframe, hr⟩ := hfits.took.later (x := ⟨w, some k, w'⟩) fun _ => hnone
    rw [hpushed] at hpairs hr
    cases hr
    subst hw'
    exact ⟨⟨frame, hlast, hframe⟩, hsessions ▸ hpairs.mono _⟩
  | basePopped reason hpushed =>
    obtain ⟨frame, r, -, -, hr⟩ := hfits.took
    rw [hpushed] at hr
    cases hr
  | popPublished =>
    have hsessions := haside (hlooks nofun)
    subst hw'
    exact ⟨trivial, hsessions ▸ hfits.pairs.mono _⟩

/-- A pop answers when it has published the change, or is refused and changes nothing. -/
theorem answer_of_pop {reason : Option RunspaceChangeReason} {phase : PopPhase}
    {answer : Except ExecutionError Runspace} (hm : Goes w k t rest (.popRunspace reason phase) m)
    (hgives : m.2.control = .back (.popped answer)) :
    (∃ r current, phase = .publishing r current ∧ answer = .ok r) ∨
      ∃ v, answer = .error (.invariantViolation v) ∧ m.1 = w ∧
        (phase = .poppingRunspace → w.pushed = []) := by
  cases hm with
  | onward | framePopped | unrecorded | basePopped => cases hgives
  | ended hend =>
    cases hend with
    | unpushed | framed =>
      cases hgives
      exact Or.inr ⟨_, rfl, rfl, nofun⟩
    | unpopped reason e hpop =>
      cases hgives
      exact Or.inr ⟨.basePopped, by rw [(Nest.pop_error hpop).2], rfl, nofun⟩
    | noRunspace reason hpushed =>
      cases hgives
      exact Or.inr ⟨_, rfl, rfl, fun _ => hpushed⟩
  | popPublished reason popped current =>
    cases hgives
    exact Or.inl ⟨popped, current, rfl, rfl⟩

theorem step_of_popAnswer {answer : Except ExecutionError Runspace} (hstep : Step w mover w')
    (h : Transition.popAnswer? ⟨w, mover, w'⟩ = some answer) :
    ∃ k t reason phase rest m, mover = some k ∧ w.threads[k]? = some t ∧ t.control = .go ∧
      t.stack = .popRunspace reason phase :: rest ∧
      Goes w k t rest (.popRunspace reason phase) m ∧ m.2.control = .back (.popped answer) ∧
      w' = { m.1 with threads := m.1.threads.set k m.2 } := by
  obtain ⟨reason, phase, hacting, hcontrol⟩ := popAnswer_eq_some h
  obtain ⟨k, t, rest, m, rfl, ht, hgo, hs, hm, ht', hw'⟩ := step_of_acting hstep hacting
  exact ⟨k, t, reason, phase, rest, m, rfl, ht, hgo, hs, hm, by simpa [ht'] using hcontrol, hw'⟩

end Operations

theorem paired_of_step (h : Run past w) (hpaired : Paired past w) (hstep : Step w mover w')
    (hbase : w.baseGone = false) (hone : w.OneMidway) (hone' : w'.OneMidway)
    (htakes : TakesSession past ⟨w, mover, w'⟩) :
    Paired (⟨w, mover, w'⟩ :: past) w' := by
  have hkept : w'.runspaces = w.runspaces → w'.pushed = w.pushed := fun hsame =>
    congrArg (fun r => r.2.1) hsame
  cases mover with
  | none =>
    refine hpaired.quiet hstep (sessions_of_aside h hstep htakes rfl rfl) ?_ (by simp)
    exact hkept (runspaces_of_outlook (outlook_of_client hstep))
  | some k =>
    cases id hstep with
    | move hfree hmove =>
      obtain ⟨t, ht, m, hm, rfl⟩ := mem_next.mp hmove
      have ht' := thread_of_moves ht hm
      by_cases hmidway : t.midway = true ∨ m.2.midway = true
      · obtain ⟨hothers, hothers'⟩ := alone_of_midway hstep hone hone' ht ht' hmidway
        have hfits := hpaired.of_mover ht hothers
        refine Fits.paired (t := m.2) ?_ ht' hothers'
        cases doing_of_moves hm with
        | plain hplain hrests => exact absurd hmidway (by simp [hrests, hplain.midway])
        | pushes hgo hs hm => exact fits_of_push h hstep ht hgo hs hm rfl hbase htakes hfits
        | pops hgo hs hm => exact fits_of_pop h hstep ht hgo hs hm rfl htakes hfits
      · obtain ⟨hrests, hrests'⟩ := by simpa using hmidway
        obtain ⟨hpushed, hpopped⟩ := acts_plainly ht hrests
        refine hpaired.quiet hstep (sessions_of_aside h hstep htakes hpushed hpopped)
          (hkept (runspaces_of_rest hm hrests)) fun j s hj hs => ?_
        cases hj
        rcases hs with hs | hs
        · cases ht.symm.trans hs
          exact hrests
        · cases ht'.symm.trans hs
          exact hrests'

theorem undoes_of_step (hpaired : Paired past w) (hstep : Step w mover w')
    (htakes : TakesSession past ⟨w, mover, w'⟩) : UndoesPush past ⟨w, mover, w'⟩ := by
  refine ⟨fun frame hframe => ?_, fun frame hframe => (htakes frame hframe).mpr⟩
  obtain ⟨reason, hacting, -⟩ := poppedFrame_eq_some hframe
  obtain ⟨k, t, rest, rfl, ht, hgo, hs⟩ := go_of_acting hacting
  have hpairs := (hpaired.midway k t ht (by rw [Thread.midway, hgo, hs]; rfl)).pairs
  rw [Thread.settle, hgo, hs] at hpairs
  obtain ⟨r, hr, hmem, -⟩ := innermost_of_pop hstep hframe htakes hpairs
  exact ⟨r, hr, hmem⟩

theorem returns_of_step (hpaired : Paired past w) (hstep : Step w mover w') :
    ReturnsRunspace past ⟨w, mover, w'⟩ := by
  intro r hanswer
  obtain ⟨k, t, reason, phase, rest, m, rfl, ht, hgo, hs, hm, hgives, -⟩ :=
    step_of_popAnswer hstep hanswer
  rcases answer_of_pop hm hgives with ⟨popped, current, rfl, hpopped⟩ | ⟨v, hv, -⟩
  · cases hpopped
    have htook := (hpaired.midway k t ht (by rw [Thread.midway, hgo, hs]; rfl)).took
    rw [Thread.TookFor, hgo, hs] at htook
    obtain ⟨frame, hlast, hframe⟩ := htook
    exact ⟨k, frame, rfl, hlast, hframe⟩
  · cases hv

theorem looksFirst_of_step (hstocked : w.Stocked) (hstep : Step w mover w') :
    LooksFirst ⟨w, mover, w'⟩ := by
  refine ⟨fun reason phase hacting hlooks => ?_, fun e hanswer => ?_⟩
  · obtain ⟨k, t, rest, m, rfl, -, -, -, hm, -, rfl⟩ := step_of_acting hstep hacting
    rcases hlooks with rfl | rfl <;> cases hm <;> exact ⟨rfl, rfl⟩
  · obtain ⟨k, t, reason, phase, rest, m, rfl, ht, hgo, hs, hm, hgives, rfl⟩ :=
      step_of_popAnswer hstep hanswer
    rcases answer_of_pop hm hgives with ⟨popped, current, -, hpopped⟩ | ⟨v, hv, hsame, hempty⟩
    · cases hpopped
    · cases hv
      have hnest : m.1.nest = w.nest := congrArg World.nest hsame
      have hrunspaces : m.1.runspaces = w.runspaces := congrArg World.runspaces hsame
      refine ⟨⟨v, rfl⟩, hnest, hrunspaces, fun reason' hacting => ?_⟩
      have hpops := hstocked.pops t (List.mem_of_getElem? ht)
      rw [acting_of_go _ ht hgo hs] at hacting
      cases hacting
      rw [Thread.stocked_of_go hgo hs] at hpops
      exact hpops (hempty rfl)

theorem paired_of_run (h : Run past w) (hone : ∀ x ∈ past, x.after.OneMidway)
    (htakes : AllAlong TakesSession past) :
    Paired past w ∧ AllAlong UndoesPush past ∧ AllAlong ReturnsRunspace past := by
  induction h with
  | start hactive hpeak h =>
    obtain ⟨-, -, hpushed, hthreads, -⟩ := start_spec h
    refine ⟨⟨fun _ => ?_, by simp [hthreads]⟩, trivial, trivial⟩
    simp [Matches, sessionFrames, framesFor, hpushed]
  | step h hstep ih =>
    obtain ⟨hone', hone⟩ := List.forall_mem_cons.mp hone
    obtain ⟨htake, htakes⟩ := htakes
    obtain ⟨hpaired, hundoes, hreturns⟩ := ih hone htakes
    obtain ⟨hone, hstocked⟩ := stocked_of_run h hone
    exact ⟨paired_of_step h hpaired hstep hstocked.base hone hone' htake,
      ⟨undoes_of_step hpaired hstep htake, hundoes⟩, returns_of_step hpaired hstep, hreturns⟩

theorem takes_of_undoes (h : Run past w) (hundoes : AllAlong UndoesPush past) :
    AllAlong TakesSession past := by
  induction h with
  | start => trivial
  | step h hstep ih =>
    refine ⟨fun frame hframe => ⟨fun hpopped => ?_, hundoes.1.2 frame hframe⟩, ih hundoes.2⟩
    obtain ⟨r, -, hmem⟩ := hundoes.1.1 frame hpopped
    exact List.mem_map_of_mem hmem

end Steps

/-- If no two operations on the runspaces overlap, no pop that is refused has changed frames or
runspaces; and each pop takes the frame that was pushed for the innermost runspace, and nothing
else takes the frame of one, exactly if the frames that are taken to pop a runspace are those that
were pushed for any. Then each pop returns the runspace whose frame it took, and whenever no
operation is midway, the frames on the stack that were pushed for runspaces are those of the
pushed runspaces, in order. -/
theorem pops_undo_pushes_iff {past : List Transition} {w : World} (h : Run past w)
    (hone : ∀ x ∈ past, x.after.OneMidway) :
    (∀ x ∈ past, LooksFirst x) ∧
    (AllAlong UndoesPush past ↔ AllAlong TakesSession past) ∧
    (AllAlong TakesSession past → AllAlong ReturnsRunspace past ∧
      ((∀ t ∈ w.threads, t.midway = false) →
        (sessionFrames past w).Forall₂ (fun frame r => (frame, r) ∈ framesFor past) w.pushed ∧
        (sessionFrames past w).length = w.pushed.length)) := by
  refine ⟨fun x hx => ?_, ⟨takes_of_undoes h, fun htakes => ?_⟩, fun htakes => ?_⟩
  · obtain ⟨later, earlier, rfl⟩ := List.append_of_mem hx
    obtain ⟨hbefore, hstep⟩ := run_before h
    refine looksFirst_of_step (stocked_of_run hbefore fun y hy => hone y ?_).2 hstep
    exact List.mem_append_right later (List.mem_cons_of_mem x hy)
  · exact (paired_of_run h hone htakes).2.1
  · obtain ⟨hpaired, -, hreturns⟩ := paired_of_run h hone htakes
    refine ⟨hreturns, fun hnone => ?_⟩
    have hmatch := hpaired.settled hnone
    exact ⟨hmatch, hmatch.length_eq⟩

instance (past : List Transition) (x : Transition) : Decidable (TakesSession past x) :=
  inferInstanceAs (Decidable (∀ frame ∈ x.takenOff?,
    x.poppedFrame? = some frame ↔ frame ∈ (framesFor past).map Prod.fst))

instance AllAlong.decidable {P : List Transition → Transition → Prop}
    [∀ past x, Decidable (P past x)] : ∀ past, Decidable (AllAlong P past)
  | [] => inferInstanceAs (Decidable True)
  | x :: past =>
    have := AllAlong.decidable (P := P) past
    inferInstanceAs (Decidable (P past x ∧ AllAlong P past))

/-- A runspace is not popped while a debugger is stopped inside it, but after that. -/
theorem pops_undo_pushes_iff_resumed : ∃ past w, Run past w ∧
    (∀ x ∈ past, x.after.OneMidway) ∧ (∀ x ∈ past, LooksFirst x) ∧
    AllAlong TakesSession past ∧ AllAlong UndoesPush past ∧ AllAlong ReturnsRunspace past ∧
    past.filterMap Transition.popAnswer? = [.ok { id := 1, location := .computer "far" },
      .error (.invariantViolation .frameInsideRunspace)] ∧
    framesFor past = [(1, { id := 1, location := .computer "far" })] ∧
    (sessionFrames past w).length = w.pushed.length ∧ w.pushed = [] := by
  have hstart : Run [] _ := @Run.start { trackRunspaces := false } {} _ rfl rfl rfl
  have hpushed := run_of_follow (hstart.step (.call (.pushRunspace
    { id := 1, location := .computer "far" }))) (List.replicate 4 0)
  have hstopped := run_of_follow (hpushed.step (.call (.execute
    { command := .ofScript "breakpoint", options := {} })))
    (List.replicate 8 1 ++ List.replicate 6 2)
  have hrefused := run_of_follow (hstopped.step (.call .popRunspace)) (List.replicate 2 3)
  have hresumed := run_of_follow (hrefused.step (.act (s := .resume .proceed) rfl fun _ => rfl))
    (List.replicate 11 2 ++ List.replicate 10 1)
  have hpopped := run_of_follow (hresumed.step (.call .popRunspace)) (List.replicate 5 4)
  obtain ⟨hlooks, hiff, hreturns⟩ := pops_undo_pushes_iff hpopped (by decide +kernel)
  have hundoes := hiff.mpr (by decide +kernel)
  obtain ⟨hreturns, hmatch⟩ := hreturns (hiff.mp hundoes)
  exact ⟨_, _, hpopped, by decide +kernel, hlooks, hiff.mp hundoes, hundoes, hreturns,
    by decide +kernel, by decide +kernel, (hmatch (by decide +kernel)).2, by decide +kernel⟩

/-- A runspace is pushed and a prompt opened in it, which runs an order on a frame of its own. That
frame is remote too: a pop takes it, and returns the runspace, whose own frame stays. -/
theorem pop_takes_frame_of_order : ∃ past w, Run past w ∧
    (∀ x ∈ past, x.mover = none → x.after.nest.above = x.before.nest.above) ∧
    (∀ x ∈ past, x.after.OneMidway) ∧ (∀ t ∈ w.threads, t.midway = false) ∧
    framesFor past = [(1, { id := 1, location := .computer "far" })] ∧
    past.filterMap Transition.popAnswer? = [.ok { id := 1, location := .computer "far" }] ∧
    past.filterMap Transition.poppedFrame? = [3] ∧ w.pushed = [] ∧ sessionFrames past w = [1] := by
  have hstart : Run [] _ := @Run.start {} {} _ rfl rfl rfl
  have hpushed := run_of_follow (hstart.step (.call (.pushRunspace
    { id := 1, location := .computer "far" }))) (List.replicate 4 0)
  have hprompted := run_of_follow (hpushed.step (.call (.execute
    { command := .ofScript "nested", options := {} })))
    (List.replicate 8 1 ++ List.replicate 4 2)
  have hordered := run_of_follow (hprompted.step (.call (.execute
    { command := .ofScript "sleep 600000", options := {} })))
    (List.replicate 2 3 ++ List.replicate 4 2)
  have hpopped := run_of_follow (hordered.step (.call .popRunspace)) (List.replicate 5 4)
  exact ⟨_, _, hpopped, by decide +kernel, by decide +kernel, by decide +kernel,
    by decide +kernel, by decide +kernel, by decide +kernel, by decide +kernel, by decide +kernel⟩

end Service

end ScriptHost
