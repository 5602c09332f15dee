import ScriptHost.Proofs.FrameMoves

/-!
Requests that are parked in the idle slot while a prompt reads. A prompt marks its frame
before it reads, and takes the mark away before it looks for a last time at what is
parked; a caller parks its request before it looks for the mark. So whichever of the two
is first, a request that stays parked has a caller that has still to look or to take it
back, or a prompt that has still to drain the slot.
-/

namespace ScriptHost.Service

/-- How far a prompt has come: its frame is marked, it has stopped reading, or it has drained
the idle slot. -/
inductive ReadStage where
  | marked
  | ended
  | drained
  deriving DecidableEq

def ReadWorkerPhase.stage : ReadWorkerPhase → ReadStage
  | .starting | .reading | .ending _ => .marked
  | .draining _ => .ended
  | .drained _ | .releasing _ => .drained

/-- The lease that a task has and its worker does not have yet. -/
def ReadTaskPhase.lease? : ReadTaskPhase → Option Handle
  | .registering h | .spawning h _ => some h
  | _ => none

/-- A prompt with the lease `h`: the lease has just been given to it, or is with its task, or
with its worker. -/
inductive Thread.Reads (t : Thread) (h : Handle) : ReadStage → Prop
  | leased (token : Option Token) (rest : List Activation)
      (hs : t.stack = .readTask token .leasing :: rest)
      (hc : t.control = .back (.lease (.ok h))) : t.Reads h .marked
  | task (token : Option Token) (phase : ReadTaskPhase) (hmem : .readTask token phase ∈ t.stack)
      (hlease : phase.lease? = some h) : t.Reads h .marked
  | worker (read : Nat) (phase : ReadWorkerPhase) (hmem : .readWorker h read phase ∈ t.stack) :
      t.Reads h phase.stage

/-- Some thread has a prompt with the lease `h` that has come to `stage`. -/
def World.Reads (w : World) (h : Handle) (stage : ReadStage) : Prop :=
  ∃ t ∈ w.threads, t.Reads h stage

section Readers

variable {w w' : World} {past : List Transition} {mover : Option Nat} {k : Nat} {t : Thread}
  {a : Activation} {rest : List Activation} {m : World × Thread}

/-- An activation that waits for nothing goes on by itself. -/
theorem Thread.Typed.go_of_takes_nil {firm : Prop} {final : Manner → Prop}
    (h : t.Typed firm final) (hs : t.stack = a :: rest) (ha : a.takes = []) :
    t.control = .go := by
  rcases h.control with hgo | ⟨-, hempty⟩ | ⟨manner, -, htakes⟩
  · exact hgo
  · rw [hs] at hempty
    cases hempty
  · rw [hs] at htakes
    have hmem := htakes.1
    rw [ha] at hmem
    cases hmem

theorem goes_of_takes_nil {firm : Prop} {final : Manner → Prop} (ht : t.Typed firm final)
    (hs : t.stack = a :: rest) (ha : a.takes = []) (hm : m ∈ t.moves w k) :
    Goes w k t rest a m :=
  goes_of_moves hm (ht.go_of_takes_nil hs ha) hs

/-- How a prompt can have gone on after a step. -/
inductive ReadOn (w w' : World) (h : Handle) : ReadStage → Prop
  | same {stage : ReadStage} (hreads : w'.Reads h stage) : ReadOn w w' h stage
  | ended (hreads : w'.Reads h .ended) (hnest : w'.nest = w.nest.endReading h) :
      ReadOn w w' h .marked
  | drained (hparked : w'.slot.parked = none) : ReadOn w w' h .ended

/-- A prompt of the thread that moves. -/
theorem World.reads_of_moved {handle : Handle} {stage : ReadStage} (ht : w.threads[k]? = some t)
    (hm : m ∈ t.moves w k) (h : m.2.Reads handle stage) :
    ({ m.1 with threads := m.1.threads.set k m.2 } : World).Reads handle stage :=
  ⟨m.2, mem_threads_of_moved ht hm, h⟩

/-- Whoever picks up what is parked leaves the slot empty. -/
theorem Picks.parked {below : List Activation} (hm : Picks w t below m) :
    m.1.slot.parked = none := by
  cases hm with
  | found => rfl
  | nothing h => exact h

theorem readOn_of_task {firm : Prop} {final : Manner → Prop} (htyped : t.Typed firm final)
    (ht : w.threads[k]? = some t) (hm : m ∈ t.moves w k) {handle : Handle} {token : Option Token}
    {phase : ReadTaskPhase} (hs : t.stack = .readTask token phase :: rest)
    (hlease : phase.lease? = some handle) :
    ReadOn w { m.1 with threads := m.1.threads.set k m.2 } handle .marked := by
  have htakes : (Activation.readTask token phase).takes = [] := by
    cases phase <;> first | rfl | cases hlease
  cases goes_of_takes_nil htyped hs htakes hm with
  | onward hnext => cases hnext
  | ended hend => cases hend <;> cases hlease
  | readAsked => cases hlease
  | registered =>
    cases hlease
    exact .same (World.reads_of_moved ht hm (.task token _ List.mem_cons_self rfl))
  | readSpawned _ _ read =>
    cases hlease
    have hne : k ≠ w.threads.length := (List.getElem?_eq_some_iff.mp ht).1.ne
    refine .same ⟨{ stack := [.readWorker handle read .starting] }, ?_,
      .worker read .starting List.mem_cons_self⟩
    refine List.mem_of_getElem? (i := w.threads.length) ?_
    rw [List.getElem?_set_ne hne]
    exact List.getElem?_concat_length

/-- No panic comes to a worker that has not drained the slot. -/
theorem Thread.Typed.calm_of_worker {firm : Prop} {final : Manner → Prop}
    (htyped : t.Typed firm final) {handle : Handle} {read : Nat} {phase : ReadWorkerPhase}
    (hs : t.stack = .readWorker handle read phase :: rest) (hstage : phase.stage ≠ .drained)
    (p : Panic) : t.control ≠ .unwind p := by
  intro hunwind
  rcases htyped.control with hgo | ⟨-, hempty⟩ | ⟨manner, hbrings, htakes⟩
  · cases hgo.symm.trans hunwind
  · rw [hs] at hempty
    cases hempty
  · rw [hs] at htakes
    rw [hunwind] at hbrings
    cases phase with
    | reading =>
      obtain rfl := List.mem_singleton.mp htakes.1
      obtain ⟨r, hc⟩ := hbrings
      cases hc
    | drained | releasing => exact absurd rfl hstage
    | _ => cases htakes.1

theorem readOn_of_worker {firm : Prop} {final : Manner → Prop} (htyped : t.Typed firm final)
    (ht : w.threads[k]? = some t) (hm : m ∈ t.moves w k) {handle : Handle} {read : Nat}
    {phase : ReadWorkerPhase} (hs : t.stack = .readWorker handle read phase :: rest)
    (hstage : phase.stage ≠ .drained) :
    ReadOn w { m.1 with threads := m.1.threads.set k m.2 } handle phase.stage := by
  have hreads : ∀ {stage : ReadStage}, m.2.Reads handle stage →
      ({ m.1 with threads := m.1.threads.set k m.2 } : World).Reads handle stage :=
    World.reads_of_moved ht hm
  cases turn_of_stack hm hs with
  | goes hgo hmove =>
    cases hmove with
    | onward hnext => cases hnext
    | ended hend => cases hend
    | readRefused => exact .same (hreads (.worker read (.ending _) List.mem_cons_self))
    | readBegun =>
      exact .same (hreads (.worker read .reading (List.mem_cons_of_mem _ List.mem_cons_self)))
    | unmarked => exact .ended (hreads (.worker read (.draining _) List.mem_cons_self)) rfl
    | drained _ _ r hpicks => exact .drained hpicks.parked
    | unregistered | readReleased => exact absurd rfl hstage
  | receives o hback hmove =>
    cases hmove with
    | read => exact .same (hreads (.worker read (.ending _) List.mem_cons_self))
    | drained => exact absurd rfl hstage
  | unwinds p hunwind => exact absurd hunwind (htyped.calm_of_worker hs hstage p)

/-- A prompt that has not drained the slot goes on step by step: it does not vanish, it loses its
mark only as it stops reading, and when it drains the slot nothing is parked. -/
theorem readOn_of_step (h : Run past w) (hstep : Step w mover w') {handle : Handle}
    {stage : ReadStage} (hreads : w.Reads handle stage) (hstage : stage ≠ .drained) :
    ReadOn w w' handle stage := by
  obtain ⟨t, hmem, hreads⟩ := hreads
  obtain ⟨k, ht⟩ := List.mem_iff_getElem?.mp hmem
  obtain ⟨t', ht'⟩ := (next_of_step hstep).thread_stays ht
  have htyped := typed_of_run h ht
  cases thread_after hstep ht' with
  | same hsame =>
    rw [ht] at hsame
    cases hsame
    exact .same ⟨t, List.mem_of_getElem? ht', hreads⟩
  | @moved t₀ m ht₀ hm heq hw' =>
    rw [ht] at ht₀
    cases ht₀
    subst hw'
    cases hreads with
    | leased token rest hs hc =>
      cases receives_of_moves hm hc hs with
      | readLeased =>
        exact .same (World.reads_of_moved ht hm (.task token _ List.mem_cons_self rfl))
    | task token phase hmem hlease =>
      by_cases hinner : ∃ rest, t.stack = .readTask token phase :: rest
      · obtain ⟨rest, hs⟩ := hinner
        exact readOn_of_task htyped ht hm hs hlease
      · have hmem' := mem_stack_of_moved hm hmem fun rest hs => hinner ⟨rest, hs⟩
        exact .same (World.reads_of_moved ht hm (.task token phase hmem' hlease))
    | worker read phase hmem =>
      by_cases hinner : ∃ rest, t.stack = .readWorker handle read phase :: rest
      · obtain ⟨rest, hs⟩ := hinner
        exact readOn_of_worker htyped ht hm hs hstage
      · have hmem' := mem_stack_of_moved hm hmem fun rest hs => hinner ⟨rest, hs⟩
        exact .same (World.reads_of_moved ht hm (.worker read phase hmem'))
  | started hnewly hk => exact absurd (List.getElem?_eq_some_iff.mp ht).1 (Nat.not_lt.mpr hk)
  | @dropped t₀ ht₀ hgo hs hs' hc' =>
    rw [ht] at ht₀
    cases ht₀
    cases hreads with
    | leased token rest _ hc =>
      rw [hgo] at hc
      cases hc
    | task token phase hmem hlease =>
      generalize t.stack = stack at hs hmem
      cases hs <;> simp at hmem <;> cases hmem.2 ▸ hlease
    | worker read phase hmem =>
      generalize t.stack = stack at hs hmem
      cases hs <;> simp at hmem
  | @returned t₀ _ ht₀ hs hc hs' hc' =>
    rw [ht] at ht₀
    cases ht₀
    cases hreads with
    | leased token rest hs₀ =>
      rw [hs] at hs₀
      cases hs₀
    | task token phase hmem hlease =>
      rw [hs] at hmem
      cases hmem
    | worker read phase hmem =>
      rw [hs] at hmem
      cases hmem

end Readers

section Marks

variable {w w' : World} {past : List Transition} {mover : Option Nat}

/-- A lease for reading is handed to a prompt. -/
theorem readTask_of_takes {stack : List Activation}
    (h : Takes (· ≠ .lease true) stack (.lease true)) :
    ∃ token below, stack = .readTask token .leasing :: below := by
  cases stack with
  | nil => exact absurd rfl h
  | cons b below =>
    have hmem := h.1
    cases b with
    | readTask token phase =>
      cases phase with
      | leasing => exact ⟨token, below, rfl⟩
      | checking | registering | spawning | joining => cases hmem
    | exec o phase => cases phase <;> simp at hmem
    | handleTask token asked => cases asked <;> simp at hmem
    | readWorker h read phase => cases phase <;> simp at hmem
    | _ => simp at hmem

/-- A frame that is marked after a step was marked before, or is that of a prompt which has just
been given its lease. -/
theorem marked_of_step (h : Run past w) (hstep : Step w mover w') {frame : Nat}
    (hreading : (w'.nest.frame frame).reading = true) :
    (w.nest.frame frame).reading = true ∨
      ∃ handle : Handle, handle.frame = frame ∧ handle.forReading = true ∧
        w'.Reads handle .marked := by
  cases mover with
  | none =>
    left
    cases (disturbed_of_step hstep).1 with
    | served hnest => exact hnest.unmarked frame hreading
    | pushed kind hnest =>
      rw [hnest] at hreading
      exact w.nest.unmarked_push kind frame hreading
    | popped _ hpop => rwa [(Nest.frame_of_pop hpop frame).2] at hreading
    | withdrew k ticket id t o ht hs hnest => rwa [hnest] at hreading
  | some k =>
    obtain ⟨t, a, rest, m, ht, hs, hm, rfl, hmoved⟩ := moved_of_step h hstep
    dsimp only at hreading
    have hpopped : m.1.nest = w.nest.popTop → (w.nest.frame frame).reading = true := by
      intro hnest
      rw [hnest] at hreading
      rcases w.nest.popTop_spec with hpop | ⟨hsame, -⟩
      · rwa [(Nest.frame_of_pop hpop frame).2] at hreading
      · rwa [hsame] at hreading
    cases hmoved.board with
    | served hnest => exact Or.inl (hnest.unmarked frame hreading)
    | slotted ha hnest => exact Or.inl (hnest ▸ hreading)
    | pushed kind hkind hnest =>
      rw [hnest] at hreading
      exact Or.inl (w.nest.unmarked_push kind frame hreading)
    | opened kind hnest =>
      rw [hnest] at hreading
      exact Or.inl (w.nest.unmarked_push kind.frameKind frame hreading)
    | covered frame' ha htop hnest => exact Or.inl (hnest ▸ hreading)
    | unregistered l signal ha hl htop hnest => exact Or.inl (hnest ▸ hreading)
    | left frame' ha hnest => exact Or.inl (hpopped hnest)
    | closed l signal ha hl hnest => exact Or.inl (hpopped hnest)
    | popped _ _ ha hpop => exact Or.inl (by rwa [(Nest.frame_of_pop hpop frame).2] at hreading)
    | marked token frame' invoker ha hnest =>
      rw [hnest] at hreading
      refine (Nest.reading_setReading hreading).symm.imp_right ?_
      rintro rfl
      subst ha
      cases goes_of_takes_nil (typed_of_run h ht) hs rfl hm with
      | onward hnext => cases hnext
      | ended hend => cases hend
      | granted _ _ _ _ _ hanswered | again _ _ _ _ _ hanswered | failed _ _ _ _ _ hanswered
      | lined _ _ _ _ _ hanswered => cases hanswered
      | leased =>
        have hk : k < w.threads.length := (List.getElem?_eq_some_iff.mp ht).1
        have htyped := typed_of_run (h.step hstep) (List.getElem?_set_self hk)
        obtain ⟨manner, hbrings, htakes⟩ :=
          htyped.given (by simp [Thread.give]) (by simp [Thread.give])
        obtain rfl : manner = .lease true := by
          cases manner <;> simp_all [Control.Brings, Thread.give]
        obtain ⟨token', below, hrest⟩ := readTask_of_takes htakes
        exact ⟨_, rfl, rfl, World.reads_of_moved ht hm (.leased token' below hrest rfl)⟩

/-- Whenever a frame is marked, there is a prompt with a lease of it that has not stopped
reading. -/
theorem reads_of_marked (h : Run past w) {frame : Nat}
    (hreading : (w.nest.frame frame).reading = true) :
    ∃ handle : Handle, handle.frame = frame ∧ handle.forReading = true ∧
      w.Reads handle .marked := by
  induction h with
  | start hactive hpeak h =>
    rw [(fresh_of_start h).nest] at hreading
    cases frame <;> cases hreading
  | @step past w w' mover h hstep ih =>
    rcases marked_of_step h hstep hreading with hold | hnew
    · obtain ⟨handle, rfl, hfor, hreads⟩ := ih hold
      cases readOn_of_step h hstep hreads (by simp) with
      | same hreads => exact ⟨handle, rfl, hfor, hreads⟩
      | ended hreads hnest =>
        rw [hnest, Nest.reading_endReading hfor] at hreading
        cases hreading
    · exact hnew

end Marks

/-- What is parked after a move was parked before, or has just been parked by an execution that
is about to look for a prompt. -/
theorem Traffic.parked_after {x x' : Exchange} {c c' : Control} {s s' : List Activation}
    (h : Traffic x c s x' c' s') :
    x'.parked = none ∨ x'.parked = x.parked ∨ ∃ o id rest,
      s' = .exec o (.checkingReader id) :: rest ∧ x'.parked = some (id, o.toRequest id) := by
  cases h with
  | parked o id rest => exact Or.inr (Or.inr ⟨o, id, rest, rfl, rfl⟩)
  | reclaimed | withdrawn | pickedUp => exact Or.inl rfl
  | _ => exact Or.inr (Or.inl rfl)

/-- An execution that has parked its request and looks for a prompt, or takes the request back
because it saw none. -/
def World.Checks (w : World) (id : Nat) : Prop :=
  ∃ t ∈ w.threads, ∃ o phase rest, t.stack = .exec o phase :: rest ∧
    (phase = .checkingReader id ∨ phase = .reclaiming id)

section Parked

variable {w w' : World} {past : List Transition} {mover : Option Nat}

theorem parked_of_step (hstep : Step w mover w') {id : Nat} {r : Request}
    (hparked : w'.slot.parked = some (id, r)) :
    w.slot.parked = some (id, r) ∨ w'.Checks id := by
  cases mover with
  | none =>
    left
    cases (disturbed_of_step hstep).1 with
    | served _ hslot | pushed _ _ hslot | popped _ _ hslot => rwa [← hslot]
    | withdrew k ticket id t o ht hs hnest hslot =>
      rw [hslot] at hparked
      exact hparked
  | some k =>
    cases hstep with
    | move hfree hmove =>
      obtain ⟨t, ht, m, hm, rfl⟩ := mem_next.mp hmove
      rcases (travels_of_moves hm).parked_after with hnone | hsame | ⟨o, id', rest, hs', hnew⟩
      · exact absurd (hnone.symm.trans hparked) (by simp)
      · exact Or.inl (hsame.symm.trans hparked)
      · have heq : some (id', o.toRequest id') = some (id, r) := hnew.symm.trans hparked
        cases heq
        exact Or.inr ⟨m.2, mem_threads_of_moved ht hm, o, _, rest, hs', Or.inl rfl⟩

/-- An execution that checks goes on checking, leaves its request to a prompt that reads, or has
taken it back. -/
theorem checks_of_step (h : Run past w) (hstep : Step w mover w') {id : Nat} {r : Request}
    (hparked : w.slot.parked = some (id, r)) (hchecks : w.Checks id) :
    w'.Checks id ∨ w.nest.topFrame.reading = true ∨ w'.slot.parked = none := by
  obtain ⟨t, hmem, o, phase, rest, hs, hphase⟩ := hchecks
  obtain ⟨k, ht⟩ := List.mem_iff_getElem?.mp hmem
  obtain ⟨t', ht'⟩ := (next_of_step hstep).thread_stays ht
  cases thread_after hstep ht' with
  | same hsame =>
    rw [ht] at hsame
    cases hsame
    exact Or.inl ⟨t, List.mem_of_getElem? ht', o, phase, rest, hs, hphase⟩
  | @moved t₀ m ht₀ hm heq hw' =>
    rw [ht] at ht₀
    cases ht₀
    subst hw'
    have htakes : (Activation.exec o phase).takes = [] := by
      rcases hphase with rfl | rfl <;> rfl
    have hthere := mem_threads_of_moved ht hm
    cases goes_of_takes_nil (typed_of_run h ht) hs htakes hm with
    | onward hnext =>
      cases hnext with
      | exec o hnext =>
        cases hnext with
        | seen id' hreading => exact Or.inr (Or.inl hreading)
        | unseen id' hreading =>
          obtain rfl : id' = id := by simpa using hphase
          exact Or.inl ⟨_, hthere, o, .reclaiming id', rest, rfl, Or.inr rfl⟩
        | pickedUp id' hgone =>
          obtain rfl : id' = id := by simpa using hphase
          simp [IdleSlot.reclaim, hparked] at hgone
        | _ => simp at hphase
    | ended hend =>
      cases hend with
      | replied o phase id' r' hposted => rcases hposted with rfl | rfl <;> simp at hphase
      | _ => simp at hphase
    | reclaimed => exact Or.inr (Or.inr rfl)
    | _ => simp at hphase
  | started hnewly hk => exact absurd (List.getElem?_eq_some_iff.mp ht).1 (Nat.not_lt.mpr hk)
  | @dropped t₀ ht₀ hgo hsuspended =>
    rw [ht] at ht₀
    cases ht₀
    rw [hs] at hsuspended
    rcases hphase with rfl | rfl <;> cases hsuspended
  | @returned t₀ _ ht₀ hempty =>
    rw [ht] at ht₀
    cases ht₀
    rw [hs] at hempty
    cases hempty

/-- Whatever is parked has an execution that checks, or a prompt that has still to drain the
slot. -/
theorem attended_of_run (h : Run past w) {id : Nat} {r : Request}
    (hparked : w.slot.parked = some (id, r)) :
    w.Checks id ∨ ∃ handle stage, stage ≠ .drained ∧ w.Reads handle stage := by
  induction h with
  | start hactive hpeak h =>
    rw [(fresh_of_start h).slot] at hparked
    cases hparked
  | @step past w w' mover h hstep ih =>
    have hreader : ∀ handle stage, stage ≠ .drained → w.Reads handle stage →
        ∃ handle stage, stage ≠ .drained ∧ w'.Reads handle stage := by
      intro handle stage hstage hreads
      cases readOn_of_step h hstep hreads hstage with
      | same hafter => exact ⟨handle, stage, hstage, hafter⟩
      | ended hafter hnest => exact ⟨handle, .ended, by simp, hafter⟩
      | drained hnone => exact absurd (hnone.symm.trans hparked) (by simp)
    rcases parked_of_step hstep hparked with hold | hchecks
    · rcases ih hold with hchecks | ⟨handle, stage, hstage, hreads⟩
      · rcases checks_of_step h hstep hold hchecks with hchecks | hreading | hnone
        · exact Or.inl hchecks
        · obtain ⟨handle, -, -, hreads⟩ := reads_of_marked h hreading
          exact Or.inr (hreader handle .marked (by simp) hreads)
        · exact absurd (hnone.symm.trans hparked) (by simp)
      · exact Or.inr (hreader handle stage hstage hreads)
    · exact Or.inl hchecks

end Parked

end ScriptHost.Service
