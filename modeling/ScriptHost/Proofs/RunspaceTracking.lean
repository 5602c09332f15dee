import ScriptHost.Proofs.EngineSessions
import ScriptHost.Proofs.LoopFrames
import ScriptHost.Proofs.RunspaceOperations

/-!
What an execution does after its command to follow the engine: it asks for the current runspace,
compares the answer with the runspaces that are known, and pops or pushes. While it is on its
way, what is going to be known is what the question has settled, and the frames of sessions
match either that or what is known still.
-/

namespace ScriptHost

namespace Nest

variable {n n' : Nest} {count frame : Nat}

/-- There are `count` frames over the base, and all of them are of remote sessions. -/
structure Remotes (n : Nest) (count : Nat) : Prop where
  remote : ∀ frame ∈ n.above, (n.frame frame).kind = .remoteSession
  length : n.above.length = count

theorem Remotes.keep (h : n.Remotes count) (hs : n.Standing) (hchange : n.Change n')
    (habove : n'.above = n.above) : n'.Remotes count := by
  refine ⟨fun frame hmem => ?_, by rw [habove, h.length]⟩
  rw [habove] at hmem
  have hmade := hs.stack_made frame (List.mem_append_left _ hmem)
  exact ((hs.keeps hchange).kind frame hmade).trans (h.remote frame hmem)

theorem lt_of_remoteSession (h : (n.frame frame).kind = .remoteSession) :
    frame < n.frames.length := by
  refine Nat.lt_of_not_le fun hle => ?_
  rw [frame_of_not_made hle] at h
  cases h

theorem Remotes.push (h : n.Remotes count) :
    (n.push .remoteSession).2.Remotes (count + 1) := by
  refine ⟨List.forall_mem_cons.mpr ⟨?_, fun frame hmem => ?_⟩, ?_⟩
  · simp only [Nest.push, Nest.frame, List.getElem?_concat_length, Option.getD_some]
    split <;> rfl
  · rw [frame_push_of_lt _ (lt_of_remoteSession (h.remote frame hmem))]
    exact h.remote frame hmem
  · rw [← h.length]
    rfl

theorem Remotes.pop (h : n.Remotes count) (hpop : n.pop = .ok (frame, n')) :
    n'.Remotes (count - 1) := by
  have habove := (pop_spec hpop).1
  refine ⟨fun other hmem => ?_, ?_⟩
  · have hmem : other ∈ n.above := habove ▸ List.mem_cons_of_mem _ hmem
    exact (frame_of_pop hpop other).1.trans (h.remote other hmem)
  · rw [← h.length, habove, List.length_cons, Nat.add_sub_cancel]

/-- The frame of a session can be popped. -/
theorem Remotes.top (h : n.Remotes count) (hcount : 0 < count) :
    n.topFrame.kind = .remoteSession ∧ ∃ frame n', n.pop = .ok (frame, n') := by
  obtain ⟨frame, above, habove⟩ := List.exists_cons_of_length_pos (h.length ▸ hcount)
  constructor
  · rw [topFrame, Nest.top, habove]
    exact h.remote frame (habove ▸ List.mem_cons_self)
  · rw [Nest.pop, habove]
    exact ⟨_, _, rfl⟩

end Nest

namespace Service

/-- What following the engine goes by: the states in which the engine was asked, latest first,
the sessions in which it is, and what the service has of runspaces and frames. -/
structure Bearings where
  asked : List Engine
  entered : List Runspace
  base : Runspace
  pushed : List Runspace
  nest : Nest
  loopFrames : List (Nat × Nat)

def World.bearings (w : World) (asked : List Engine) : Bearings :=
  ⟨asked, w.engine.entered, w.baseRunspace, w.pushed, w.nest, w.loopFrames⟩

namespace Bearings

/-- There are no loops, and `n` frames of sessions; the question to the engine has settled that
the runspaces `pushed` are to be known. -/
structure Owed (b : Bearings) (n : Nat) (pushed : List Runspace) : Prop where
  loops : b.loopFrames = []
  remotes : b.nest.Remotes n
  known : pushed = tracked b.base b.asked
  entered : b.entered = answered b.asked

/-- What is known is what the question has settled. -/
def Calm (b : Bearings) : Prop :=
  b.Owed b.pushed.length b.pushed

/-- The engine has just answered that its current runspace is `r`. -/
def Answered (b : Bearings) (r : Runspace) : Prop :=
  ∃ e es, b.asked = e :: es ∧ e.current = r ∧ b.pushed = tracked b.base es

end Bearings

/-- Where an execution stands that follows the engine after its command. -/
inductive Pursues (b : Bearings) (o : Order) (reply : Reply) : Control → List Activation → Prop
  | polling (hloops : b.loopFrames = []) (hremotes : b.nest.Remotes b.pushed.length)
      (hknown : b.pushed = tracked b.base b.asked) :
      Pursues b o reply .go [.track .polling, .exec o (.finishing reply)]
  | comparing {r : Runspace} (hanswered : b.Answered r)
      (howed : b.Owed b.pushed.length (compared b.base b.pushed r)) :
      Pursues b o reply .go [.track (.comparing r), .exec o (.finishing reply)]
  | popping {c : Control} {keep : Nat} {reason : Option RunspaceChangeReason}
      (hc : c = .go ∨ ∃ r, c = .back (.popped (.ok r)))
      (howed : b.Owed b.pushed.length (b.pushed.drop (b.pushed.length - keep))) :
      Pursues b o reply c [.track (.popping keep reason), .exec o (.finishing reply)]
  | looking {phase : PopPhase} {keep : Nat} {reason : Option RunspaceChangeReason}
      (hphase : phase = .checkingLength ∨ phase = .checkingFrame ∨ phase = .poppingFrame)
      (hkeep : keep < b.pushed.length)
      (howed : b.Owed b.pushed.length (b.pushed.drop (b.pushed.length - keep))) :
      Pursues b o reply .go
        [.popRunspace reason phase, .track (.popping keep reason), .exec o (.finishing reply)]
  | taking {keep : Nat} {reason : Option RunspaceChangeReason} (hkeep : keep < b.pushed.length)
      (howed : b.Owed (b.pushed.length - 1) (b.pushed.drop (b.pushed.length - keep))) :
      Pursues b o reply .go [.popRunspace reason .poppingRunspace,
        .track (.popping keep reason), .exec o (.finishing reply)]
  | telling {popped current : Runspace} {keep : Nat} {reason : Option RunspaceChangeReason}
      (howed : b.Owed b.pushed.length (b.pushed.drop (b.pushed.length - keep))) :
      Pursues b o reply .go [.popRunspace reason (.publishing popped current),
        .track (.popping keep reason), .exec o (.finishing reply)]
  | pushing {r : Runspace} {phase : PushPhase}
      (hphase : phase = .looking ∨ ∃ previous, phase = .pushing previous)
      (hanswered : b.Answered r) (hnew : r.id ∉ (b.pushed ++ [b.base]).map Runspace.id)
      (howed : b.Owed b.pushed.length (r :: b.pushed)) :
      Pursues b o reply .go [.pushRunspace r phase, .exec o (.finishing reply)]
  | recording {r previous : Runspace} (howed : b.Owed (b.pushed.length + 1) (r :: b.pushed)) :
      Pursues b o reply .go [.pushRunspace r (.recording previous), .exec o (.finishing reply)]
  | publishing {r previous : Runspace} (hcalm : b.Calm) :
      Pursues b o reply .go [.pushRunspace r (.publishing previous), .exec o (.finishing reply)]
  | finishing (hcalm : b.Calm) :
      Pursues b o reply (.back .unit) [.exec o (.finishing reply)]

theorem Pursues.stack_ne {b : Bearings} {o : Order} {reply : Reply} {c : Control}
    {s : List Activation} (h : Pursues b o reply c s) : s ≠ [] := by
  cases h <;> simp

/-- What following the engine changes neither of the service nor of its loops. -/
def World.grounds (w : World) :
    Config × Runspace × Bool × IdleSlot Request × List Thread × List MessageLoop :=
  (w.config, w.baseRunspace, w.baseGone, w.slot, w.threads, w.loops)

/-- The state in which the engine is asked by the next step of a thread. -/
def Thread.asking (t : Thread) (w : World) : Option Engine :=
  match t.control, t.stack with
  | .go, .track .polling :: _ => some w.engine
  | _, _ => none

/-- A move of an execution that follows the engine, which is not asked again. -/
structure Pursued (w : World) (asked : List Engine) (o : Order) (reply : Reply)
    (m : World × Thread) : Prop where
  grounds : m.1.grounds = w.grounds
  numbered : m.1.engine.Numbered w.baseRunspace
  silent : m.2.asking m.1 = none
  course : Pursues (m.1.bearings asked) o reply m.2.control m.2.stack ∨
    m.2.stack = [] ∧ (m.1.bearings asked).Calm

section Moves

variable {w : World} {k : Nat} {t : Thread} {m : World × Thread} {o : Order} {reply : Reply}
  {es : List Engine}

theorem Pursued.on {w' : World} {t' : Thread} (hn : w.engine.Numbered w.baseRunspace)
    (hgrounds : w'.grounds = w.grounds) (hengine : w'.engine = w.engine)
    (hsilent : t'.asking w' = none)
    (hp : Pursues (w'.bearings es) o reply t'.control t'.stack) :
    Pursued w es o reply (w', t') :=
  ⟨hgrounds, hengine ▸ hn, hsilent, Or.inl hp⟩

theorem pursued_polling (hn : w.engine.Numbered w.baseRunspace) (hloops : w.loopFrames = [])
    (hremotes : w.nest.Remotes w.pushed.length) (hknown : w.pushed = tracked w.baseRunspace es)
    (hm : Goes w k t [.exec o (.finishing reply)] (.track .polling) m) :
    Pursued w (w.engine :: es) o reply m := by
  have hdetails := hn.details
  have hreconciled : tracked w.baseRunspace (w.engine :: es) =
      reconciled w.baseRunspace w.pushed w.engine := by rw [tracked, hknown]
  cases hm with
  | onward hnext => cases hnext
  | ended hend => cases hend
  | polled r engine heq =>
    cases hbroken : w.engine.transportBroken with
    | true =>
      rw [hbroken, if_pos rfl, heq] at hdetails
      cases hdetails
    | false =>
      rw [hbroken, if_neg Bool.false_ne_true] at hdetails
      cases heq.symm.trans hdetails
      refine .on hn rfl rfl rfl
        (.comparing ⟨w.engine, es, rfl, rfl, hknown⟩ ⟨hloops, hremotes, ?_, ?_⟩)
      · change compared w.baseRunspace w.pushed w.engine.current =
          tracked w.baseRunspace (w.engine :: es)
        rw [hreconciled, reconciled, hdetails]
      · change w.engine.entered = w.engine.details.2.entered
        rw [hdetails]
  | broken what engine heq =>
    cases hbroken : w.engine.transportBroken with
    | true =>
      rw [hbroken, if_pos rfl] at hdetails
      cases heq.symm.trans hdetails
      refine ⟨rfl, ?_, rfl, Or.inl (.popping (Or.inl rfl) ⟨hloops, hremotes, ?_, ?_⟩)⟩
      · exact hn.leave rfl (List.nil_sublist _) rfl rfl
      · change w.pushed.drop (w.pushed.length - 0) = tracked w.baseRunspace (w.engine :: es)
        rw [hreconciled, reconciled, hdetails, Nat.sub_zero, List.drop_length]
      · change [] = w.engine.details.2.entered
        rw [hdetails]
    | false =>
      rw [hbroken, if_neg Bool.false_ne_true, heq] at hdetails
      cases hdetails
  | unpolled e engine heq he =>
    rw [heq] at hdetails
    split at hdetails <;> cases hdetails
    exact absurd rfl (he _)

theorem pursued_comparing {r : Runspace} (hn : w.engine.Numbered w.baseRunspace)
    (hbase : w.baseGone = false) (hanswered : (w.bearings es).Answered r)
    (howed : (w.bearings es).Owed w.pushed.length (compared w.baseRunspace w.pushed r))
    (hm : Goes w k t [.exec o (.finishing reply)] (.track (.comparing r)) m) :
    Pursued w es o reply m := by
  have hkeep : keepFor w r.id =
      (w.baseRunspace :: w.pushed.reverse).findIdx? (·.id == r.id) := by
    rw [keepFor, if_neg (by simp [hbase])]
  have hcurrent : (!w.baseGone && w.currentRunspace.id == r.id) =
      ((w.pushed.head?.getD w.baseRunspace).id == r.id) := by
    rw [hbase]
    rfl
  cases hm with
  | ended hend =>
    cases hend with
    | current r hsame =>
      rw [hcurrent, beq_iff_eq] at hsame
      rw [compared, if_pos hsame] at howed
      exact .on hn rfl rfl rfl (.finishing howed)
  | onward hnext =>
    cases hnext with
    | known r keep hother hfound =>
      rw [hcurrent, beq_eq_false_iff_ne] at hother
      rw [compared, if_neg hother, ← hkeep, hfound] at howed
      exact .on hn rfl rfl rfl (.popping (Or.inl rfl) howed)
    | unknown r hother hnone =>
      rw [hcurrent, beq_eq_false_iff_ne] at hother
      have hnew : compared w.baseRunspace w.pushed r = r :: w.pushed := by
        rw [compared, if_neg hother, ← hkeep, hnone]
      rw [hnew] at howed
      refine .on hn rfl rfl rfl (.pushing (Or.inl rfl) hanswered ?_ howed)
      exact unknown_of_compared hnew

/-- One look at how many runspaces are left. -/
theorem pursued_popping {keep : Nat} {reason : Option RunspaceChangeReason}
    (hn : w.engine.Numbered w.baseRunspace)
    (howed : (w.bearings es).Owed w.pushed.length (w.pushed.drop (w.pushed.length - keep)))
    (hm : Goes w k t [.exec o (.finishing reply)] (.track (.popping keep reason)) m) :
    Pursued w es o reply m := by
  cases hm with
  | onward hnext => cases hnext
  | unwinding keep reason hkeep => exact .on hn rfl rfl rfl (.looking (Or.inl rfl) hkeep howed)
  | ended hend =>
    cases hend with
    | unwound keep reason hkeep =>
      rw [Nat.sub_eq_zero_of_le (Nat.le_of_not_lt hkeep), List.drop_zero] at howed
      exact .on hn rfl rfl rfl (.finishing howed)

/-- Nothing refuses the pop of a runspace. -/
theorem pursued_looking {phase : PopPhase} {keep : Nat} {reason : Option RunspaceChangeReason}
    (hn : w.engine.Numbered w.baseRunspace)
    (hphase : phase = .checkingLength ∨ phase = .checkingFrame ∨ phase = .poppingFrame)
    (hkeep : keep < w.pushed.length)
    (howed : (w.bearings es).Owed w.pushed.length (w.pushed.drop (w.pushed.length - keep)))
    (hm : Goes w k t [.track (.popping keep reason), .exec o (.finishing reply)]
      (.popRunspace reason phase) m) :
    Pursued w es o reply m := by
  have hpos : 0 < w.pushed.length := Nat.zero_lt_of_lt hkeep
  obtain ⟨hkind, frame, nest, hpop⟩ := howed.remotes.top hpos
  cases hm with
  | onward hnext =>
    cases hnext with
    | pushed => exact .on hn rfl rfl rfl (.looking (Or.inr (Or.inl rfl)) hkeep howed)
    | remote => exact .on hn rfl rfl rfl (.looking (Or.inr (Or.inr rfl)) hkeep howed)
  | ended hend =>
    cases hend with
    | unpushed reason hempty => exact absurd hempty (List.ne_nil_of_length_pos hpos)
    | framed reason hne => exact absurd hkind hne
    | unpopped reason e herror => cases hpop.symm.trans herror
    | noRunspace => simp at hphase
  | framePopped reason frame' nest' hpop' =>
    exact .on hn rfl rfl rfl (.taking hkeep
      ⟨howed.loops, howed.remotes.pop hpop', howed.known, howed.entered⟩)
  | unrecorded | basePopped | popPublished => simp at hphase

theorem pursued_taking {keep : Nat} {reason : Option RunspaceChangeReason}
    (hn : w.engine.Numbered w.baseRunspace) (hkeep : keep < w.pushed.length)
    (howed : (w.bearings es).Owed (w.pushed.length - 1)
      (w.pushed.drop (w.pushed.length - keep)))
    (hm : Goes w k t [.track (.popping keep reason), .exec o (.finishing reply)]
      (.popRunspace reason .poppingRunspace) m) :
    Pursued w es o reply m := by
  have hne : w.pushed ≠ [] := List.ne_nil_of_length_pos (Nat.zero_lt_of_lt hkeep)
  cases hm with
  | onward hnext => cases hnext
  | ended hend =>
    cases hend with
    | noRunspace reason hempty => exact absurd hempty hne
  | basePopped reason hempty => exact absurd hempty hne
  | unrecorded reason r pushed hpushed =>
    rw [hpushed, List.length_cons] at howed hkeep
    rw [Nat.succ_sub (Nat.le_of_lt_succ hkeep), List.drop_succ_cons, Nat.add_sub_cancel] at howed
    exact .on hn rfl rfl rfl (.telling ⟨howed.loops, howed.remotes, howed.known, howed.entered⟩)

theorem pursued_pushing {r : Runspace} {phase : PushPhase}
    (hn : w.engine.Numbered w.baseRunspace) (hbase : w.baseGone = false)
    (hphase : phase = .looking ∨ ∃ previous, phase = .pushing previous)
    (hanswered : (w.bearings es).Answered r)
    (hnew : r.id ∉ (w.pushed ++ [w.baseRunspace]).map Runspace.id)
    (howed : (w.bearings es).Owed w.pushed.length (r :: w.pushed))
    (hm : Goes w k t [.exec o (.finishing reply)] (.pushRunspace r phase) m) :
    Pursued w es o reply m := by
  cases hm with
  | onward hnext =>
    cases hnext with
    | noted => exact .on hn rfl rfl rfl (.pushing (Or.inr ⟨_, rfl⟩) hanswered hnew howed)
  | ended hend => cases hend
  | underflowed r hgone => exact absurd (hbase.symm.trans hgone) Bool.false_ne_true
  | framePushed =>
    exact .on hn rfl rfl rfl
      (.recording ⟨howed.loops, howed.remotes.push, howed.known, howed.entered⟩)
  | recorded | pushPublished => simp at hphase

theorem pursued_recording {r previous : Runspace} (hn : w.engine.Numbered w.baseRunspace)
    (hbase : w.baseGone = false)
    (howed : (w.bearings es).Owed (w.pushed.length + 1) (r :: w.pushed))
    (hm : Goes w k t [.exec o (.finishing reply)] (.pushRunspace r (.recording previous)) m) :
    Pursued w es o reply m := by
  cases hm with
  | onward hnext => cases hnext
  | ended hend => cases hend
  | recorded =>
    rw [addRunspace_of_base _ hbase]
    exact .on hn rfl rfl rfl (.publishing ⟨howed.loops, howed.remotes, howed.known, howed.entered⟩)

/-- An execution that follows the engine goes on following it until it ends, and then all that
was settled is known. -/
theorem pursued_of_moves (hn : w.engine.Numbered w.baseRunspace) (hbase : w.baseGone = false)
    (hp : Pursues (w.bearings es) o reply t.control t.stack) (hm : m ∈ t.moves w k) :
    Pursued w ((t.asking w).toList ++ es) o reply m := by
  obtain ⟨depth, control, stack⟩ := t
  cases hp with
  | polling hloops hremotes hknown =>
    exact pursued_polling hn hloops hremotes hknown (goes_of_moves hm rfl rfl)
  | comparing hanswered howed =>
    exact pursued_comparing hn hbase hanswered howed (goes_of_moves hm rfl rfl)
  | popping hc howed =>
    rcases hc with rfl | ⟨r, rfl⟩
    · exact pursued_popping hn howed (goes_of_moves hm rfl rfl)
    · cases receives_of_moves hm rfl rfl with
      | popped => exact .on hn rfl rfl rfl (.popping (Or.inl rfl) howed)
  | looking hphase hkeep howed =>
    exact pursued_looking hn hphase hkeep howed (goes_of_moves hm rfl rfl)
  | taking hkeep howed => exact pursued_taking hn hkeep howed (goes_of_moves hm rfl rfl)
  | telling howed =>
    cases goes_of_moves hm rfl rfl with
    | onward hnext => cases hnext
    | ended hend => cases hend
    | popPublished => exact .on hn rfl rfl rfl (.popping (Or.inr ⟨_, rfl⟩) howed)
  | pushing hphase hanswered hnew howed =>
    exact pursued_pushing hn hbase hphase hanswered hnew howed (goes_of_moves hm rfl rfl)
  | recording howed => exact pursued_recording hn hbase howed (goes_of_moves hm rfl rfl)
  | publishing hcalm =>
    cases goes_of_moves hm rfl rfl with
    | onward hnext => cases hnext
    | ended hend => cases hend
    | pushPublished => exact .on hn rfl rfl rfl (.finishing hcalm)
  | finishing hcalm =>
    cases receives_of_moves hm rfl rfl with
    | tracked => exact ⟨rfl, hn, rfl, Or.inr ⟨rfl, hcalm⟩⟩

end Moves

end Service

end ScriptHost
