import ScriptHost.Proofs.FrameStack
import ScriptHost.Proofs.OutcomesOfMoves

/-!
What a move does to the frames of the nest, to the frames that message loops stand on, and
to the idle slot. Most moves leave all three; the others are told apart here, each with
the activation that makes it. What is proved later about frames, loops and prompts is
proved about these kinds.
-/

namespace ScriptHost.Service

/-- The registered loops, each with its frame, innermost first. -/
def World.loopFrames (w : World) : List (Nat × Nat) :=
  w.loops.map fun l => (l.id, l.frame)

/-- The frame that was pushed on the way into it. -/
def EnterPhase.frame? : EnterPhase → Option Nat
  | .leasing frame | .looking frame | .popping frame => some frame
  | .pushing | .refusing => none

/-- The frame that was pushed for an activation, and that it has yet to leave. -/
def Activation.room? : Activation → Option Nat
  | .entering phase _ => phase.frame?
  | .pushed frame _ _ => some frame
  | _ => none

/-- The frame of an activation that looks whether it is innermost. -/
def Activation.looksFor? : Activation → Option Nat
  | .entering (.looking frame) _ | .pushed frame _ .looking => some frame
  | _ => none

/-- The frame of an activation that found it innermost and pops the innermost frame. -/
def Activation.popsRoom? : Activation → Option Nat
  | .entering (.popping frame) _ | .pushed frame _ .popping => some frame
  | _ => none

/-- How an execution comes to doubt the frame of its lease: it is the frame of a loop, it has no
registered loop, and it is not popped either. -/
def World.Doubts (w : World) (a : Activation) (o : Order) : ExecPhase → Prop
  | .checkingOwner h => (w.nest.frame h.frame).kind.isLoop = true
  | .checkingPopped h => a = .exec o (.checkingOwner h) ∧ w.ownsFrame h.frame = false
  | .refusing h => a = .exec o (.checkingPopped h) ∧ (w.nest.frame h.frame).isPopped = false
  | _ => True

/-- Activations without a frame of their own, executions without such doubts, and loops that have
not found their frame innermost. -/
def Activation.ordinary : Activation → Bool
  | .entering phase _ => phase.frame?.isNone
  | .loop _ (.popping _) => false
  | .pushed _ _ _ | .exec _ (.checkingOwner _) | .exec _ (.checkingPopped _)
  | .exec _ (.refusing _) => false
  | _ => true

/-- The activations that use the idle slot. -/
def Activation.usesSlot : Activation → Bool
  | .exec _ .acquiring | .exec _ (.queued _ _) | .exec _ (.parking _) | .exec _ (.reclaiming _)
  | .exec _ (.awaiting _) | .reading _ true | .readWorker _ _ (.draining _) | .idleRun => true
  | _ => false

/-- What an activation has put up, and takes down again before it ends. -/
inductive Duty where
  | frame (id : Nat)
  | loop (id : Nat)

def Activation.duty? : Activation → Option Duty
  | .entering phase _ => phase.frame?.map .frame
  | .pushed frame _ .looking | .pushed frame _ .popping => some (.frame frame)
  | .loop _ (.resuming _) => none
  | .loop id _ => some (.loop id)
  | _ => none

/-- What a stack has yet to take down, innermost first. -/
def duties (s : List Activation) : List Duty :=
  s.filterMap Activation.duty?

/-- The activations that push a frame which no loop stands on, the kind of the frame, and the
duties of their stack with it. -/
inductive Pushes (frame : Nat) (duties : List Duty) : Activation → FrameKind → List Duty → Prop
  | room (work : PushedWork) :
      Pushes frame duties (.entering .pushing work) .normal (.frame frame :: duties)
  | runspace (r previous : Runspace) :
      Pushes frame duties (.pushRunspace r (.pushing previous)) .remoteSession duties

/-- The kinds of moves: what the innermost activation `a` of the stack `s` makes of frames,
loops and slot, and of its duties. -/
inductive Rearranged (w : World) (a : Activation) (s : List Activation) (w' : World)
    (s' : List Activation) : Prop
  | served (hnest : w.nest.Serves w'.nest) (hloops : w'.loopFrames = w.loopFrames)
      (hslot : w'.slot = w.slot) (hduties : duties s' = duties s)
  | slotted (ha : a.usesSlot = true) (hnest : w'.nest = w.nest)
      (hloops : w'.loopFrames = w.loopFrames) (hduties : duties s' = duties s)
  | marked (token : Option Token) (frame invoker : Nat)
      (ha : a = .getHandle token true (.marking frame invoker))
      (hnest : w'.nest = w.nest.setReading frame true) (hloops : w'.loopFrames = w.loopFrames)
      (hslot : w'.slot = w.slot) (hduties : duties s' = duties s)
  | pushed (kind : FrameKind) (hkind : kind.isLoop = false)
      (hnest : w'.nest = (w.nest.push kind).2) (hloops : w'.loopFrames = w.loopFrames)
      (hslot : w'.slot = w.slot)
      (hduties : Pushes w.nest.frames.length (duties s) a kind (duties s'))
  | covered (frame : Nat) (ha : a.looksFor? = some frame) (htop : w.nest.top ≠ frame)
      (hnest : w'.nest = w.nest) (hloops : w'.loopFrames = w.loopFrames) (hslot : w'.slot = w.slot)
      (hduties : duties s = .frame frame :: duties s')
  | left (frame : Nat) (ha : a.popsRoom? = some frame) (hnest : w'.nest = w.nest.popTop)
      (hloops : w'.loopFrames = w.loopFrames) (hslot : w'.slot = w.slot)
      (hduties : duties s = .frame frame :: duties s')
  | popped (reason : Option RunspaceChangeReason) (frame : Nat)
      (ha : a = .popRunspace reason .poppingFrame) (hpop : w.nest.pop = .ok (frame, w'.nest))
      (hloops : w'.loopFrames = w.loopFrames) (hslot : w'.slot = w.slot)
      (hduties : duties s' = duties s)
  | opened (kind : LoopKind) (hnest : w'.nest = (w.nest.push kind.frameKind).2)
      (hloops : w'.loopFrames = (w.nextLoop, w.nest.frames.length) :: w.loopFrames)
      (hslot : w'.slot = w.slot) (hduties : duties s' = .loop w.nextLoop :: duties s)
      (hopens : ∃ i, a = .invocation i ∧ a.usesLoops w.engine = true)
  | unregistered (l : MessageLoop) (signal : Signal) (ha : a = .loop l.id (.leaving signal))
      (hl : l ∈ w.loops) (htop : w.nest.top ≠ l.frame) (hnest : w'.nest = w.nest)
      (hloops : w'.loopFrames = w.loopFrames.filter (·.1 != l.id)) (hslot : w'.slot = w.slot)
      (hduties : duties s = .loop l.id :: duties s')
  | closed (l : MessageLoop) (signal : Signal) (ha : a = .loop l.id (.popping signal))
      (hl : l ∈ w.loops) (hnest : w'.nest = w.nest.popTop)
      (hloops : w'.loopFrames = w.loopFrames.filter (·.1 != l.id)) (hslot : w'.slot = w.slot)
      (hduties : duties s = .loop l.id :: duties s')

/-- What holds of an activation `b` that a move of `a` to the world `w'` brings: its frame was
that of `a`, or was just pushed, its doubts have a reason, and a loop that is about to pop its
frame has just found it innermost. -/
structure Brought (w : World) (a : Activation) (w' : World) (b : Activation) : Prop where
  room : ∀ frame, b.room? = some frame → a.room? = some frame ∨
    frame = w.nest.frames.length ∧ w'.nest = (w.nest.push .normal).2
  doubts : ∀ o phase, b = .exec o phase → w.Doubts a o phase
  pops : ∀ id signal, b = .loop id (.popping signal) → b = a ∨ ∃ l, w.findLoop id = some l ∧
    w.nest.top = l.frame ∧ w'.nest = w.nest ∧ w'.loopFrames = w.loopFrames

/-- A move of the activation `a` that leaves `rest` below it. -/
structure Moved (w : World) (a : Activation) (rest : List Activation) (m : World × Thread) :
    Prop where
  board : Rearranged w a (a :: rest) m.1 m.2.stack
  brought : ∀ b ∈ m.2.stack, b ∈ rest ∨ Brought w a m.1 b

/-- The nest, the frames of loops and the slot. -/
def World.board (w : World) : Nest × List (Nat × Nat) × IdleSlot Request :=
  (w.nest, w.loopFrames, w.slot)

theorem board_iff {w w' : World} : w'.board = w.board ↔
    w'.nest = w.nest ∧ w'.loopFrames = w.loopFrames ∧ w'.slot = w.slot := by
  simp only [World.board, Prod.mk.injEq]

section Board

variable (w : World)

@[simp] theorem board_changeSession (c : Session × Option SessionChange) :
    (w.changeSession c).board = w.board := by
  rcases c with ⟨session, _ | change⟩ <;> rfl

@[simp] theorem board_setSession (state : SessionState) (r : ExecutionResult)
    (reason : Option String) : (w.setSession state r reason).board = w.board :=
  board_changeSession w _

@[simp] theorem board_followInvocation (state : InvocationState) (reason : Option String) :
    (w.followInvocation state reason).board = w.board :=
  board_changeSession w _

@[simp] theorem board_interruptInnermost : w.interruptInnermost.board = w.board :=
  rfl

theorem loopFrames_updateLoop {f : MessageLoop → MessageLoop} (id : Nat)
    (hf : ∀ l, (f l).id = l.id ∧ (f l).frame = l.frame) :
    (w.updateLoop id f).loopFrames = w.loopFrames := by
  unfold World.updateLoop World.loopFrames
  rw [List.map_map]
  apply List.map_congr_left
  intro l hl
  simp only [Function.comp_apply]
  split
  · rw [(hf l).1, (hf l).2]
  · rfl

theorem board_updateLoop {f : MessageLoop → MessageLoop} (id : Nat)
    (hf : ∀ l, (f l).id = l.id ∧ (f l).frame = l.frame) : (w.updateLoop id f).board = w.board :=
  board_iff.mpr ⟨rfl, loopFrames_updateLoop w id hf, rfl⟩

theorem board_signals {w' : World} {signal : Signal} (h : Signals w signal w') :
    w'.board = w.board := by
  cases h with
  | accepted l hl h => exact board_updateLoop w l.id fun l => ⟨rfl, rfl⟩
  | refused => rfl

theorem loopFrames_closeLoop (l : MessageLoop) :
    (w.closeLoop l).loopFrames = w.loopFrames.filter (·.1 != l.id) := by
  rw [World.loopFrames, World.loopFrames, List.filter_map]
  rfl

end Board

section Moves

variable {w : World} {k : Nat} {t : Thread} {a : Activation} {rest : List Activation}
  {m : World × Thread}

theorem room_of_ordinary {b : Activation} (h : b.ordinary = true) : b.room? = none := by
  cases b with
  | entering phase work => exact Option.isNone_iff_eq_none.mp h
  | pushed => cases h
  | _ => rfl

theorem brought_of_ordinary {w' : World} {b : Activation} (h : b.ordinary = true) :
    Brought w a w' b := by
  refine ⟨by simp [room_of_ordinary h], ?_, ?_⟩
  · rintro o phase rfl
    cases phase <;> trivial
  · rintro id signal rfl
    cases h

theorem ordinary_append {above new : List Activation} (habove : above.all Activation.ordinary)
    (hnew : new.all Activation.ordinary) : (above ++ new).all Activation.ordinary := by
  rw [List.all_append, Bool.and_eq_true]
  exact ⟨habove, hnew⟩

/-- An activation that stands in the frame of the one before it. -/
theorem brought_of_room {w' : World} {b : Activation} {frame : Nat} (hroom : b.room? = some frame)
    (hsame : a.room? = some frame) : Brought w a w' b := by
  refine ⟨fun _ h => Or.inl (hsame.trans (hroom.symm.trans h)), ?_, ?_⟩
  · rintro o phase rfl
    cases hroom
  · rintro id signal rfl
    cases hroom

/-- An activation that stays as it is. -/
theorem brought_of_same {w' : World} (hexec : ∀ o phase, a ≠ .exec o phase) :
    Brought w a w' a :=
  ⟨fun _ h => Or.inl h, fun o phase h => absurd h (hexec o phase), fun _ _ _ => Or.inl rfl⟩

/-- A move that brings ordinary activations. -/
theorem brought_of_new (new : List Activation) (hs : m.2.stack = new ++ rest)
    (hnew : new.all Activation.ordinary) : ∀ b ∈ m.2.stack, b ∈ rest ∨ Brought w a m.1 b := by
  intro b hb
  rw [hs] at hb
  rcases List.mem_append.mp hb with hb | hb
  · exact Or.inr (brought_of_ordinary (List.all_eq_true.mp hnew b hb))
  · exact Or.inl hb

/-- A move that brings ordinary activations above another one. -/
theorem brought_above (new : List Activation) {b : Activation}
    (hs : m.2.stack = new ++ b :: rest) (hnew : new.all Activation.ordinary)
    (hb : Brought w a m.1 b) : ∀ c ∈ m.2.stack, c ∈ rest ∨ Brought w a m.1 c := by
  intro c hc
  rcases brought_of_new (a := a) (w := w) new hs hnew c hc with hc | hc
  · rcases List.mem_cons.mp hc with rfl | hc
    · exact Or.inr hb
    · exact Or.inl hc
  · exact Or.inr hc

/-- A stack whose innermost activation is replaced by others with the same duties. -/
theorem duties_of_new (new : List Activation) (hs : m.2.stack = new ++ rest)
    (hduties : duties new = duties [a]) : duties m.2.stack = duties (a :: rest) := by
  rw [hs, duties, List.filterMap_append, ← List.singleton_append, duties, List.filterMap_append]
  exact congrArg (· ++ _) hduties

theorem duties_above {above s : List Activation} (h : duties above = []) :
    duties (above ++ s) = duties s := by
  rw [duties, List.filterMap_append]
  exact congrArg (· ++ _) h

theorem Rearranged.of_board {s s' : List Activation} {w' : World} (h : w'.board = w.board)
    (hduties : duties s' = duties s) : Rearranged w a s w' s' := by
  obtain ⟨hnest, hloops, hslot⟩ := board_iff.mp h
  exact .served (hnest ▸ .refl _) hloops hslot hduties

/-- A move that leaves frames, loops and slot. -/
theorem Moved.calm (new : List Activation) (hs : m.2.stack = new ++ rest)
    (hnew : new.all Activation.ordinary) (hboard : m.1.board = w.board)
    (hduties : duties new = duties [a]) : Moved w a rest m :=
  ⟨.of_board hboard (duties_of_new new hs hduties), brought_of_new new hs hnew⟩

/-- A move in which callers of a frame are served. -/
theorem Moved.served (new : List Activation) (hs : m.2.stack = new ++ rest)
    (hnew : new.all Activation.ordinary) (hnest : w.nest.Serves m.1.nest)
    (hloops : m.1.loopFrames = w.loopFrames) (hslot : m.1.slot = w.slot)
    (hduties : duties new = duties [a]) : Moved w a rest m :=
  ⟨.served hnest hloops hslot (duties_of_new new hs hduties), brought_of_new new hs hnew⟩

/-- A move that uses the slot. -/
theorem Moved.slotted (new : List Activation) (ha : a.usesSlot = true)
    (hs : m.2.stack = new ++ rest) (hnew : new.all Activation.ordinary)
    (hnest : m.1.nest = w.nest) (hloops : m.1.loopFrames = w.loopFrames)
    (hduties : duties new = duties [a]) : Moved w a rest m :=
  ⟨.slotted ha hnest hloops (duties_of_new new hs hduties), brought_of_new new hs hnew⟩

/-- A move within the frame of an activation. -/
theorem Moved.within {w' : World} {t' : Thread} {b : Activation} {frame : Nat}
    (hs : t'.stack = b :: rest) (hboard : w'.board = w.board) (hroom : b.room? = some frame)
    (hsame : a.room? = some frame) (hduties : duties [b] = duties [a]) : Moved w a rest (w', t') :=
  ⟨.of_board hboard (duties_of_new [b] hs hduties),
    brought_above [] hs rfl (brought_of_room hroom hsame)⟩

theorem Submits.board {below : List Activation} {invoker : Nat} {o : Order}
    (hm : Submits w t below invoker o m) :
    ∃ above : List Activation, above.all Activation.ordinary ∧ duties above = [] ∧
      m.2.stack = above ++ below ∧ m.1.board = w.board := by
  cases hm with
  | refused => exact ⟨[.leased o.options], rfl, rfl, rfl, rfl⟩
  | begun engine i => exact ⟨[.invocation i, .leased o.options], rfl, rfl, rfl, rfl⟩

theorem Obeys.board {below : List Activation} {l : MessageLoop} {o : Order}
    (hm : Obeys w t below l o m) :
    ∃ above : List Activation, above.all Activation.ordinary ∧ duties above = [] ∧
      m.2.stack = above ++ below ∧ m.1.board = w.board := by
  cases hm with
  | forbidden => exact ⟨[], rfl, rfl, rfl, rfl⟩
  | refused | resumed => exact ⟨[.inLoop l.id o.options], rfl, rfl, rfl, rfl⟩
  | begun engine i =>
    exact ⟨[.invocation i, .debuggerCommand, .inLoop l.id o.options], rfl, rfl, rfl, rfl⟩
  | entered => exact ⟨[.entering .pushing (.order o)], rfl, rfl, rfl, rfl⟩

theorem moved_releases {h : Handle} {t' : Thread} (new : List Activation)
    (hs : t'.stack = new ++ rest) (hnew : new.all Activation.ordinary)
    (hduties : duties new = duties [a]) (hm : Releases w h t' m) : Moved w a rest m := by
  have hserves := Nest.serves_release w.nest h
  cases hm with
  | fit nest hrelease => exact .served new hs hnew (by rwa [hrelease] at hserves) rfl rfl hduties
  | stuck nest p hrelease =>
    exact .served new hs hnew (by rwa [hrelease] at hserves) rfl rfl hduties

/-- What is parked is picked up. -/
theorem moved_picks {b : Activation} (ha : a.usesSlot = true) (hb : b.ordinary = true)
    (hduties : duties [b] = duties [a]) (hm : Picks w t (b :: rest) m) : Moved w a rest m := by
  have hnew : [b].all Activation.ordinary = true := by simp [hb]
  cases hm with
  | found id r =>
    exact .slotted [.entering .pushing (.request r), .idleRun, b] ha rfl hnew rfl rfl hduties
  | nothing => exact .calm [b] rfl hnew rfl hduties

theorem moved_vacates {frame : Nat} {h : Handle} {phase : RoomPhase}
    (hm : Vacates w t rest frame h phase m) : Moved w (.pushed frame h phase) rest m := by
  have hbrought : ∀ {w' : World} (phase' : RoomPhase),
      Brought w (.pushed frame h phase) w' (.pushed frame h phase') := fun _ =>
    brought_of_room rfl rfl
  cases hm with
  | innermost htop => exact .within rfl rfl rfl rfl rfl
  | covered htop =>
    exact ⟨.covered frame rfl htop rfl rfl rfl rfl, brought_above [] rfl rfl (hbrought _)⟩
  | popped => exact ⟨.left frame rfl rfl rfl rfl rfl, brought_above [] rfl rfl (hbrought _)⟩
  | released hm => exact moved_releases [] rfl rfl rfl hm

theorem moved_calls {i i' : Invocation} {c : HostCall} {engine : Engine} (hc : c ≠ .idle)
    (hstep : i.step w.engine = (engine, .call c i'))
    (hm : Calls { w with engine } k t (.invocation i' :: rest) c m) :
    Moved w (.invocation i) rest m := by
  have hopened : ∀ (kind : LoopKind) {phase : LoopPhase},
      (Activation.loop w.nextLoop phase).duty? = some (.loop w.nextLoop) →
      (Activation.loop w.nextLoop phase).ordinary = true →
      (Activation.invocation i).usesLoops w.engine = true →
      Moved w (.invocation i) rest ((({ w with engine } : World).openLoop kind k).2,
        t.goOn (.loop w.nextLoop phase :: .invocation i' :: rest)) :=
    fun kind phase hduty hordinary huses =>
      ⟨.opened kind rfl rfl rfl (List.filterMap_cons_some hduty) ⟨i, rfl, huses⟩,
        brought_of_new [.loop w.nextLoop phase, .invocation i'] rfl (by simp [hordinary]; rfl)⟩
  cases hm with
  | followed state reason =>
    exact .calm [.invocation i'] rfl rfl (board_followInvocation { w with engine } state reason) rfl
  | held line gate => exact .calm [.held gate, .invocation i'] rfl rfl rfl rfl
  | reentered line script =>
    exact .calm [.exec _ .checking, .reentrant, .invocation i'] rfl rfl rfl rfl
  | stopped stop => exact hopened .debuggerStop rfl rfl (by simp [Activation.usesLoops, hstep])
  | prompted => exact hopened .nestedPrompt rfl rfl (by simp [Activation.usesLoops, hstep])
  | exited h => exact .calm [.invocation i'] rfl rfl (board_signals { w with engine } h) rfl
  | idled => exact absurd rfl hc
  | _ => exact .calm [.invocation i'] rfl rfl rfl rfl

/-- An execution that comes to doubt its frame. -/
theorem moved_doubting {o : Order} {phase : ExecPhase} (phase' : ExecPhase)
    (h : w.Doubts (.exec o phase) o phase') :
    Moved w (.exec o phase) rest (w, t.goOn (.exec o phase' :: rest)) := by
  refine ⟨.of_board rfl rfl, brought_above [] rfl rfl ⟨by simp [Activation.room?], ?_, by simp⟩⟩
  rintro o' phase'' ⟨rfl, rfl⟩
  exact h

theorem moved_onward {a' : Activation} (hm : Onward w a a') :
    Moved w a rest (w, t.goOn (a' :: rest)) := by
  cases hm with
  | exec o hnext =>
    cases hnext with
    | unowned h howned => exact moved_doubting (.checkingPopped h) ⟨rfl, howned⟩
    | standing h hpopped => exact moved_doubting (.refusing h) ⟨rfl, hpopped⟩
    | _ => exact .calm [.exec o _] rfl rfl rfl rfl
  | unleased | innermost => exact .within rfl rfl rfl rfl rfl
  | covered frame work htop =>
    exact ⟨.covered frame rfl htop rfl rfl rfl rfl, brought_of_new [_] rfl rfl⟩
  | _ => exact .calm [_] rfl rfl rfl rfl

theorem Nest.serves_answered {token : Option Token} {frame : Nat} {phase : LeasePhase}
    {answer : Taking Nat × Nest} (h : phase.Answered w token frame answer) :
    w.nest.Serves answer.2 := by
  cases h with
  | asking => exact Nest.serves_ask w.nest frame _
  | waiting ticket => exact Nest.serves_look w.nest frame ticket _

/-- The frame of an activation is entered with a lease of its own. -/
theorem moved_entered {frame : Nat} {work : PushedWork} {nest : Nest} {h : Handle}
    (above : List Activation) (hlease : w.nest.tryLease frame false = some (h, nest))
    (habove : above.all Activation.ordinary) (hidle : duties above = [])
    (hs : m.2.stack = above ++ .pushed frame h .looking :: rest)
    (hboard : m.1.board = ({ w with nest } : World).board) :
    Moved w (.entering (.leasing frame) work) rest m := by
  obtain ⟨hnest, hloops, hslot⟩ := board_iff.mp hboard
  refine ⟨.served (hnest ▸ Nest.serves_tryLease hlease) hloops hslot ?_,
    brought_above above hs habove (brought_of_room rfl rfl)⟩
  rw [hs, duties_above hidle]
  rfl

theorem moved_goes {firm : Prop} (hrests : a.Rests firm rest) (hm : Goes w k t rest a m) :
    Moved w a rest m := by
  have hdirect : ∀ {o : Order} {phase : ExecPhase} {w' : World}, a = .exec o phase →
      w'.board = w.board → Moved w a rest (w', direct t rest o) := by
    rintro o phase w' rfl hboard
    exact .calm [.getHandle o.options.token false .choosing, .exec o .leasing] rfl rfl hboard rfl
  cases hm with
  | onward hnext => exact moved_onward hnext
  | ended hend =>
    refine .calm [] rfl rfl rfl ?_
    cases hend with
    | replied o phase id r hphase => rcases hphase with rfl | rfl <;> rfl
    | _ => rfl
  | called i i' c engine hstep hm =>
    have hclean := Invocation.cleanMove_step (e := w.engine) hrests
    rw [hstep] at hclean
    exact moved_calls hclean.1 hstep hm
  | failed token forReading frame e nest h =>
    exact .served [] rfl rfl (Nest.serves_answered h) rfl rfl rfl
  | finished | crashed | abandoned | unhandled | turnedAway | lineRead | underflowed
  | pushPublished | basePopped | popPublished | unpolled | abortInterrupted | readsInterrupted =>
    exact .calm [] rfl rfl rfl rfl
  | pushed work =>
    exact ⟨.pushed .normal rfl rfl rfl rfl (.room work),
      brought_above [] rfl rfl
        ⟨fun _ h => Or.inr ⟨(Option.some.inj h).symm, rfl⟩, by simp, by simp⟩⟩
  | enteredRequest frame r handle nest hlease hm =>
    obtain ⟨above, habove, hidle, hs, hboard⟩ := hm.board
    exact moved_entered (above ++ [.request r.id]) hlease (ordinary_append habove rfl)
      (duties_above hidle) (by simpa using hs) hboard
  | enteredOrder frame o handle nest hlease hm =>
    obtain ⟨above, habove, hidle, hs, hboard⟩ := hm.board
    exact moved_entered above hlease habove hidle hs hboard
  | leftUnused frame work => exact ⟨.left frame rfl rfl rfl rfl rfl, brought_of_new [_] rfl rfl⟩
  | announced l stop hl =>
    exact .calm [.loop l.id (.announcing stop)] rfl rfl (board_setSession w _ _ _) rfl
  | skipped l r requests hl hr hphase =>
    refine .calm [.loop l.id _] rfl ?_ (board_updateLoop w l.id fun l => ⟨rfl, rfl⟩) ?_ <;>
      cases hphase <;> rfl
  | @taken l r requests phase next _ hl hr hphase hcancelled hm =>
    obtain ⟨above, habove, hidle, hs, hboard⟩ := hm.board
    refine .calm (above ++ [.request r.id, .loop l.id next]) (by simpa using hs)
      (ordinary_append habove ?_) (hboard.trans (board_updateLoop w l.id fun l => ⟨rfl, rfl⟩)) ?_
    · cases hphase <;> rfl
    · rw [duties_above hidle]
      cases hphase <;> rfl
  | consumed l signal =>
    exact .calm [.loop l.id _] rfl rfl (board_updateLoop w l.id fun l => ⟨rfl, rfl⟩) rfl
  | locked l signal hl hr htop =>
    have hboard : (w.updateLoop l.id fun l => { l with leaving := true }).board = w.board :=
      board_updateLoop w l.id fun l => ⟨rfl, rfl⟩
    refine ⟨.of_board hboard rfl,
      brought_above [] rfl rfl ⟨by simp [Activation.room?], by simp, ?_⟩⟩
    rintro id signal' ⟨rfl, rfl⟩
    exact Or.inr ⟨l, hl, htop, rfl, (board_iff.mp hboard).2.1⟩
  | closedCovered l signal hl hr htop hm =>
    have hloop : l ∈ w.loops := List.mem_of_find?_eq_some hl
    cases hm with
    | debugger =>
      exact ⟨.unregistered l signal rfl hloop htop rfl (loopFrames_closeLoop w l) rfl rfl,
        brought_of_new [_] rfl rfl⟩
    | prompt =>
      exact ⟨.unregistered l signal rfl hloop htop rfl (loopFrames_closeLoop w l) rfl rfl,
        brought_of_new [] rfl rfl⟩
  | closed l signal hl hm =>
    have hloop : l ∈ w.loops := List.mem_of_find?_eq_some hl
    cases hm with
    | debugger =>
      exact ⟨.closed l signal rfl hloop rfl (loopFrames_closeLoop w.popTop l) rfl rfl,
        brought_of_new [_] rfl rfl⟩
    | prompt =>
      exact ⟨.closed l signal rfl hloop rfl (loopFrames_closeLoop w.popTop l) rfl rfl,
        brought_of_new [] rfl rfl⟩
  | stayed | resumed => exact .calm [] rfl rfl (board_setSession w _ _ _) rfl
  | granted token forReading frame invoker nest h | again token forReading frame what nest h
  | lined token forReading frame ticket nest h =>
    exact .served [_] rfl rfl (Nest.serves_answered h) rfl rfl rfl
  | leased token forReading frame invoker =>
    refine ⟨?_, brought_of_new [] rfl rfl⟩
    cases forReading with
    | true => exact .marked token frame invoker rfl rfl rfl rfl rfl
    | false => exact .served (.refl _) rfl rfl rfl
  | inlined o l loops hl hself hm =>
    obtain ⟨above, habove, hidle, hs, hboard⟩ := hm.board
    exact .calm (above ++ [.exec o .inline]) (by simpa using hs) (ordinary_append habove rfl) hboard
      (duties_above hidle)
  | posted o l => exact .calm [.exec o _] rfl rfl (board_updateLoop w l.id fun l => ⟨rfl, rfl⟩) rfl
  | remote | vacant => exact hdirect rfl rfl
  | interrupted => exact hdirect rfl (board_interruptInnermost w)
  | acquired | queued | permitted | parked => exact .slotted [.exec _ _] rfl rfl rfl rfl rfl rfl
  | gaveUp | withdrawn => exact .slotted [] rfl rfl rfl rfl rfl rfl
  | reclaimed o =>
    exact .slotted [.getHandle o.options.token false .choosing, .exec o .leasing] rfl rfl rfl rfl
      rfl rfl
  | unowned o handle hm => exact moved_releases [] rfl rfl rfl hm
  | rerouted o handle hm => exact moved_releases [.exec o .routing] rfl rfl rfl hm
  | joined => exact .calm [.track .polling, .exec _ _] rfl rfl rfl rfl
  | readAsked | leaseAsked => exact .calm [.getHandle _ _ .choosing, _] rfl rfl rfl rfl
  | tickRan read hticks hcause hidle hm =>
    exact moved_picks (b := .reading read false) rfl rfl rfl hm
  | readBegun => exact .calm [.reading _ false, _] rfl rfl rfl rfl
  | unmarked handle =>
    exact .served [_] rfl rfl (Nest.serves_endReading w.nest handle) rfl rfl rfl
  | drained handle read r hm =>
    exact moved_picks (b := .readWorker handle read (.drained r)) rfl rfl rfl hm
  | readReleased handle read r hm => exact moved_releases [] rfl rfl rfl hm
  | started handle o hm =>
    obtain ⟨above, habove, hidle, hs, hboard⟩ := hm.board
    exact .calm (above ++ [.worker handle]) (by simpa using hs) (ordinary_append habove rfl) hboard
      (duties_above hidle)
  | framePushed r previous =>
    exact ⟨.pushed .remoteSession rfl rfl rfl rfl (.runspace r previous),
      brought_of_new [_] rfl rfl⟩
  | framePopped reason frame nest h =>
    exact ⟨.popped reason frame rfl h rfl rfl rfl, brought_of_new [_] rfl rfl⟩
  | recorded r =>
    refine .calm [_] rfl rfl ?_ rfl
    unfold World.addRunspace
    split <;> rfl
  | unwinding => exact .calm [.popRunspace _ .checkingLength, .track _] rfl rfl rfl rfl
  | abortSignalled kind signal h | disposeSignalled id kind loops h =>
    exact .calm [_] rfl rfl (board_signals w h) rfl
  | _ => exact .calm [_] rfl rfl rfl rfl

theorem moved_receives {o : Outcome} (hm : Receives w t rest o a m) : Moved w a rest m := by
  cases hm with
  | pushed frame handle hm => exact moved_vacates hm
  | worker handle hm => exact moved_releases [] rfl rfl rfl hm
  | leased options r h => 
    refine .calm [] rfl rfl ?_ rfl
    cases h with
    | runtime what hreports => cases hreports <;> rfl
    | _ => rfl
  | signalled loop options output action h => exact .calm [] rfl rfl (board_signals w h) rfl
  | reported loop options e what he h => 
    refine .calm [] rfl rfl ?_ rfl
    cases h <;> rfl
  | idleRun => exact .slotted [] rfl rfl rfl rfl rfl rfl
  | onLoop o handle hloop => exact moved_doubting (.checkingOwner handle) hloop
  | loop id phase =>
    exact ⟨.of_board rfl rfl, brought_above [] rfl rfl (brought_of_same (by simp))⟩
  | resumed | invocation | reading | offLoop | readLeased | read | drained | popped =>
    exact .calm [_] rfl rfl rfl rfl
  | _ => exact .calm [] rfl rfl rfl rfl

theorem moved_unwinds {p : Panic} (hpanic : .panic ∈ a.takes) (hm : Unwinds w t rest p a m) :
    Moved w a rest m := by
  cases hm with
  | pushed frame handle hm => exact moved_vacates hm
  | idleRun => exact .slotted [] rfl rfl rfl rfl rfl rfl
  | worker handle hm | readWorker handle read phase hm => exact moved_releases [] rfl rfl rfl hm
  | other ha =>
    refine .calm [] rfl rfl rfl ?_
    cases a with
    | entering | loop => simp at hpanic
    | pushed => cases ha
    | _ => rfl
  | _ => exact .calm [] rfl rfl rfl rfl

/-- Every move of a thread that is typed is of one of these kinds. -/
theorem moved_of_moves {firm : Prop} {final : Manner → Prop} (ht : t.Typed firm final)
    (hm : m ∈ t.moves w k) : ∃ a rest, t.stack = a :: rest ∧ Moved w a rest m := by
  obtain ⟨a, rest, hs, hturn⟩ := turn_of_moves hm
  have hstack := ht.stack
  rw [hs] at hstack
  refine ⟨a, rest, hs, ?_⟩
  cases hturn with
  | goes hgo h => exact moved_goes hstack.2.1 h
  | receives o hback h => exact moved_receives h
  | unwinds p hunwind h => exact moved_unwinds (ht.takes_panic hs hunwind).1 h

end Moves

/-- The kinds of what clients do: callers are served or leave a line, and frames are pushed and
popped. -/
inductive Disturbed (w w' : World) : Prop
  | served (hnest : w.nest.Serves w'.nest) (hslot : w'.slot = w.slot)
  | pushed (kind : FrameKind) (hnest : w'.nest = (w.nest.push kind).2) (hslot : w'.slot = w.slot)
  | popped (frame : Nat) (hpop : w.nest.pop = .ok (frame, w'.nest)) (hslot : w'.slot = w.slot)
  | withdrew (k ticket id : Nat) (t : Thread) (o : Order) (ht : w.threads[k]? = some t)
      (hs : t.stack = [.exec o (.queued ticket id)]) (hnest : w'.nest = w.nest)
      (hslot : w'.slot = w.slot.setPermit (w.slot.permit.withdraw ticket))

section Clients

variable {w w' : World}

theorem Disturbed.of_board (h : w'.board = w.board) : Disturbed w w' := by
  obtain ⟨hnest, -, hslot⟩ := board_iff.mp h
  exact .served (hnest ▸ .refl _) hslot

theorem disturbed_of_act {s : Clients.Step} (hs : s.atOnce = true) :
    Disturbed w (Clients.act w s).2 ∧ (Clients.act w s).2.loopFrames = w.loopFrames ∧
      (Clients.act w s).2.slot = w.slot := by
  have hcalm : ∀ {w' : World}, w'.board = w.board →
      Disturbed w w' ∧ w'.loopFrames = w.loopFrames ∧ w'.slot = w.slot :=
    fun h => ⟨.of_board h, (board_iff.mp h).2⟩
  cases s with
  | input line => exact hcalm rfl
  | cancel token => exact hcalm rfl
  | openGate gate => exact hcalm rfl
  | resume action => exact hcalm (board_signals w (signals_signalInnermost w _ _))
  | exitPrompt => exact hcalm (board_signals w (signals_signalInnermost w _ _))
  | pause => exact hcalm rfl
  | pushFrame kind => exact ⟨.pushed kind rfl rfl, rfl, rfl⟩
  | popFrame =>
    simp only [Clients.act, Clients.popFrame]
    split
    · next frame nest hpop => exact ⟨.popped frame hpop rfl, rfl, rfl⟩
    · exact hcalm rfl
  | unsubscribe => exact hcalm rfl
  | ticks on => exact hcalm rfl
  | fault call e => exact hcalm rfl
  | exec | readLine | lease | drop | release | abort | dispose | pushRunspace | popRunspace =>
    cases hs

theorem disturbed_of_step (hstep : Step w none w') :
    Disturbed w w' ∧ w'.loopFrames = w.loopFrames := by
  cases hstep with
  | call hentry => exact ⟨.of_board rfl, rfl⟩
  | act hs => exact ⟨(disturbed_of_act hs).1, (disturbed_of_act hs).2.1⟩
  | @drop k t ht hgo hsuspended =>
    refine ⟨?_, by rw [World.loopFrames, (dropTask_spec ht).2.1, World.loopFrames]⟩
    simp only [World.dropTask, ht]
    split
    · exact .served (Nest.serves_withdraw _ _ _) rfl
    · next o ticket id rest hs =>
      have hrest : rest = [] := by
        rw [hs] at hsuspended
        cases hsuspended
        rfl
      exact .withdrew k ticket id t o ht (by rw [hs, hrest]) rfl rfl
    · exact .of_board rfl
  | release k =>
    unfold World.releaseLease
    split
    · exact ⟨.of_board rfl, rfl⟩
    · exact ⟨.served (Nest.serves_release _ _) rfl, rfl⟩

end Clients

section Steps

variable {w w' : World} {a : Activation}

theorem Rearranged.change {s s' : List Activation} (h : Rearranged w a s w' s') :
    w.nest.Change w'.nest := by
  cases h with
  | served hnest => exact .served hnest.alike
  | slotted ha hnest => exact .served (hnest ▸ .refl _)
  | marked token frame invoker ha hnest => exact .served (hnest ▸ w.nest.alike_setReading _ _)
  | pushed kind hkind hnest | opened kind hnest => exact hnest ▸ .pushed _
  | covered frame ha htop hnest | unregistered l signal ha hl htop hnest =>
    exact .served (hnest ▸ .refl _)
  | left frame ha hnest | closed l signal ha hl hnest => exact hnest ▸ w.nest.change_popTop
  | popped reason frame ha hpop => exact .popped hpop

theorem Disturbed.change (h : Disturbed w w') : w.nest.Change w'.nest := by
  cases h with
  | served hnest => exact .served hnest.alike
  | pushed kind hnest => exact hnest ▸ .pushed _
  | popped frame hpop => exact .popped hpop
  | withdrew k ticket id t o ht hs hnest => exact .served (hnest ▸ .refl _)

/-- A step of a thread, with the activation that makes it. -/
theorem moved_of_step {past : List Transition} {k : Nat} (h : Run past w)
    (hstep : Step w (some k) w') : ∃ t a rest m, w.threads[k]? = some t ∧ t.stack = a :: rest ∧
      m ∈ t.moves w k ∧ w' = { m.1 with threads := m.1.threads.set k m.2 } ∧ Moved w a rest m := by
  cases hstep with
  | move hfree hmove =>
    obtain ⟨t, ht, m, hm, rfl⟩ := mem_next.mp hmove
    obtain ⟨a, rest, hs, hmoved⟩ := moved_of_moves (typed_of_run h ht) hm
    exact ⟨t, a, rest, m, ht, hs, hm, rfl, hmoved⟩

theorem change_of_step {past : List Transition} {mover : Option Nat} (h : Run past w)
    (hstep : Step w mover w') : w.nest.Change w'.nest := by
  cases mover with
  | none => exact (disturbed_of_step hstep).1.change
  | some k =>
    obtain ⟨t, a, rest, m, -, -, -, rfl, hmoved⟩ := moved_of_step h hstep
    exact hmoved.board.change

theorem standing_of_run {past : List Transition} (h : Run past w) : w.nest.Standing := by
  induction h with
  | start hactive hpeak h =>
    rw [(fresh_of_start h).nest]
    exact Nest.initial_standing
  | step h hstep ih => exact ih.change (change_of_step h hstep)

end Steps

end ScriptHost.Service
