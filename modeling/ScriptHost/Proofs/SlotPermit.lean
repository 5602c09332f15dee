import ScriptHost.Proofs.ParkedRequests
import ScriptHost.Proofs.PermitLine

/-!
Who has the permit of the idle slot. Whoever stands in its line is an execution that
waits there, and while the permit is taken someone has it: an execution that is about to
park its request, the request that is parked, the run of a request that was picked up, or
the one in the line to which it was just granted. So the permit is free once all of these
are gone.
-/

namespace ScriptHost

namespace Service

/-- An activation with the permit of the idle slot. -/
def Activation.hasPermit : Activation → Bool
  | .exec _ (.subscribing _) | .exec _ (.parking _) | .idleRun => true
  | _ => false

def World.InLine (w : World) (ticket : Nat) : Prop :=
  ∃ t ∈ w.threads, ∃ o id, .exec o (.queued ticket id) ∈ t.stack

def World.HasPermit (w : World) : Prop :=
  ∃ t ∈ w.threads, ∃ a ∈ t.stack, a.hasPermit = true

/-- What a step can do to the idle slot, and to those who stand in its line or have its
permit. -/
inductive SlotStep (w w' : World) : Prop
  | same (hslot : w'.slot = w.slot) (hline : ∀ ticket, w.InLine ticket → w'.InLine ticket)
      (hheld : w.HasPermit → w'.HasPermit)
  | acquired (permit : Permit) (h : w.slot.permit.acquire = (none, permit))
      (hslot : w'.slot = w.slot.setPermit permit)
      (hline : ∀ ticket, w.InLine ticket → w'.InLine ticket) (hheld : w'.HasPermit)
  | joined (ticket : Nat) (permit : Permit) (h : w.slot.permit.acquire = (some ticket, permit))
      (hslot : w'.slot = w.slot.setPermit permit)
      (hline : ∀ ticket, w.InLine ticket → w'.InLine ticket) (hnew : w'.InLine ticket)
      (hheld : w.HasPermit → w'.HasPermit)
  | granted (ticket : Nat) (permit : Permit) (h : w.slot.permit.look ticket = some permit)
      (hslot : w'.slot = w.slot.setPermit permit)
      (hline : ∀ ticket', ticket' ≠ ticket → w.InLine ticket' → w'.InLine ticket')
      (hheld : w'.HasPermit)
  | withdrew (ticket : Nat) (hslot : w'.slot = w.slot.setPermit (w.slot.permit.withdraw ticket))
      (hline : ∀ ticket', ticket' ≠ ticket → w.InLine ticket' → w'.InLine ticket')
      (hheld : w.HasPermit → w'.HasPermit)
  | parked (id : Nat) (r : Request) (hslot : w'.slot = w.slot.park id r)
      (hline : ∀ ticket, w.InLine ticket → w'.InLine ticket)
  | pickedUp (hslot : w'.slot = w.slot.pickUp.2)
      (hline : ∀ ticket, w.InLine ticket → w'.InLine ticket) (hheld : w'.HasPermit)
  | released (hslot : w'.slot = w.slot.release ∨ w'.slot = w.slot.clear)
      (hline : ∀ ticket, w.InLine ticket → w'.InLine ticket)

/-- Everyone in the line of the idle slot waits there, and a permit that is taken is with
someone. -/
structure World.Permitted (w : World) : Prop where
  lined : w.slot.permit.Lined w.InLine
  held : w.slot.inFlight = true →
    w.slot.permit.granted.isSome = true ∨ w.slot.parked.isSome = true ∨ w.HasPermit

theorem World.Permitted.step {w w' : World} (h : w.Permitted) (hstep : SlotStep w w') :
    w'.Permitted := by
  cases hstep with
  | same hslot hline hheld =>
    refine ⟨hslot ▸ h.lined.mono hline, fun htaken => ?_⟩
    rw [hslot] at htaken ⊢
    exact (h.held htaken).imp_right (Or.imp_right hheld)
  | acquired permit hacquire hslot hline hheld =>
    obtain ⟨htickets, hnext⟩ := Permit.acquire_free hacquire
    have hlined : permit.Lined w.InLine :=
      h.lined.sublist (htickets ▸ List.Sublist.refl _) hnext
    refine ⟨?_, fun _ => Or.inr (Or.inr hheld)⟩
    rw [hslot]
    exact hlined.mono hline
  | joined ticket permit hacquire hslot hline hnew hheld =>
    obtain ⟨hlined, hgranted, htaken'⟩ := h.lined.join hacquire
    refine ⟨?_, fun htaken => ?_⟩
    · rw [hslot]
      refine hlined.mono ?_
      rintro ticket' (hin | rfl)
      · exact hline ticket' hin
      · exact hnew
    · rw [hslot] at htaken ⊢
      rw [IdleSlot.inFlight, IdleSlot.setPermit, htaken'] at htaken
      have hheld' := h.held htaken
      simp only [IdleSlot.setPermit, hgranted]
      exact hheld'.imp_right (Or.imp_right hheld)
  | granted ticket permit hlook hslot hline hheld =>
    refine ⟨?_, fun _ => Or.inr (Or.inr hheld)⟩
    rw [hslot]
    exact (h.lined.look hlook).mono fun ticket' hin => hline ticket' hin.1 hin.2
  | withdrew ticket hslot hline hheld =>
    obtain ⟨hlined, hgranted⟩ := h.lined.withdraw ticket
    refine ⟨?_, fun htaken => ?_⟩
    · rw [hslot]
      exact hlined.mono fun ticket' hin => hline ticket' hin.1 hin.2
    · rw [hslot] at htaken ⊢
      rcases hgranted htaken with hsome | ⟨htaken, hsame⟩
      · exact Or.inl hsome
      · have hheld' := h.held htaken
        simp only [IdleSlot.setPermit, ← hsame]
        exact hheld'.imp_right (Or.imp_right hheld)
  | parked id r hslot hline =>
    refine ⟨?_, fun _ => Or.inr (Or.inl ?_)⟩
    · rw [hslot]
      exact h.lined.mono hline
    · rw [hslot]
      rfl
  | pickedUp hslot hline hheld =>
    refine ⟨?_, fun _ => Or.inr (Or.inr hheld)⟩
    rw [hslot]
    exact h.lined.mono hline
  | released hslot hline =>
    have hpermit : w'.slot.permit = w.slot.permit.release := by
      rcases hslot with hslot | hslot <;> rw [hslot] <;> rfl
    refine ⟨?_, fun htaken => Or.inl ?_⟩
    · rw [hpermit]
      exact h.lined.release.mono hline
    · rw [IdleSlot.inFlight, hpermit] at htaken
      rw [hpermit]
      exact w.slot.permit.release_spec.2.2 htaken

section Steps

variable {w w' : World} {past : List Transition} {k : Nat} {t : Thread} {a : Activation}
  {rest : List Activation} {m : World × Thread}

/-- Those in the line stay in it while another activation moves. -/
theorem inLine_of_moved (ht : w.threads[k]? = some t) (hs : t.stack = a :: rest)
    (hm : m ∈ t.moves w k) (ticket : Nat) (ha : ∀ o id, a ≠ .exec o (.queued ticket id))
    (h : w.InLine ticket) :
    ({ m.1 with threads := m.1.threads.set k m.2 } : World).InLine ticket := by
  obtain ⟨t₀, ht₀, o, id, hmem⟩ := h
  obtain ⟨t', ht', hmem'⟩ := stays_of_moved ht hs hm (ha o id).symm ht₀ hmem
  exact ⟨t', ht', o, id, hmem'⟩

/-- The permit stays where it is while an activation without it moves. -/
theorem hasPermit_of_moved (ht : w.threads[k]? = some t) (hs : t.stack = a :: rest)
    (hm : m ∈ t.moves w k) (ha : a.hasPermit = false) (h : w.HasPermit) :
    ({ m.1 with threads := m.1.threads.set k m.2 } : World).HasPermit := by
  obtain ⟨t₀, ht₀, b, hmem, hb⟩ := h
  have hne : b ≠ a := by
    rintro rfl
    rw [ha] at hb
    cases hb
  obtain ⟨t', ht', hmem'⟩ := stays_of_moved ht hs hm hne ht₀ hmem
  exact ⟨t', ht', b, hmem', hb⟩

/-- A move that brings an activation with the permit. -/
theorem hasPermit_of_mem (ht : w.threads[k]? = some t) (hm : m ∈ t.moves w k) {b : Activation}
    (hb : b ∈ m.2.stack) (hpermit : b.hasPermit = true) :
    ({ m.1 with threads := m.1.threads.set k m.2 } : World).HasPermit :=
  ⟨m.2, mem_threads_of_moved ht hm, b, hb, hpermit⟩

theorem slotStep_same (ht : w.threads[k]? = some t) (hs : t.stack = a :: rest)
    (hm : m ∈ t.moves w k) (hslot : m.1.slot = w.slot) (hpermit : a.hasPermit = false)
    (ha : ∀ o ticket id, a ≠ .exec o (.queued ticket id)) :
    SlotStep w { m.1 with threads := m.1.threads.set k m.2 } :=
  .same hslot (fun ticket => inLine_of_moved ht hs hm ticket fun o id => ha o ticket id)
    (hasPermit_of_moved ht hs hm hpermit)

theorem slotStep_picks (ht : w.threads[k]? = some t) (hs : t.stack = a :: rest)
    {below : List Activation} (hm : m ∈ t.moves w k) (hpicks : Picks w t below m)
    (hpermit : a.hasPermit = false) (ha : ∀ o ticket id, a ≠ .exec o (.queued ticket id)) :
    SlotStep w { m.1 with threads := m.1.threads.set k m.2 } := by
  cases hpicks with
  | nothing => exact slotStep_same ht hs hm rfl hpermit ha
  | found id r hparked =>
    refine .pickedUp (by simp [IdleSlot.pickUp, hparked])
      (fun ticket => inLine_of_moved ht hs hm ticket fun o id => ha o ticket id) ?_
    exact hasPermit_of_mem (b := .idleRun) ht hm (List.mem_cons_of_mem _ List.mem_cons_self) rfl

/-- An activation that does not use the slot. -/
theorem slotStep_of_unused (h : Run past w) (ht : w.threads[k]? = some t)
    (hs : t.stack = a :: rest) (hm : m ∈ t.moves w k) (hmoved : Moved w a rest m)
    (ha : a.usesSlot = false) : SlotStep w { m.1 with threads := m.1.threads.set k m.2 } := by
  have hslot : m.1.slot = w.slot := by
    cases hmoved.board with
    | slotted huses =>
      rw [ha] at huses
      cases huses
    | served _ _ hslot | marked _ _ _ _ _ _ hslot | pushed _ _ _ _ hslot
    | covered _ _ _ _ _ hslot | left _ _ _ _ hslot | popped _ _ _ _ _ hslot | opened _ _ _ hslot
    | unregistered _ _ _ _ _ _ _ hslot | closed _ _ _ _ _ _ hslot => exact hslot
  have hline : ∀ o ticket id, a ≠ .exec o (.queued ticket id) := by
    rintro o ticket id rfl
    cases ha
  by_cases hpermit : a.hasPermit = true
  · have hsubscribing : ∃ o id, a = .exec o (.subscribing id) := by
      unfold Activation.hasPermit at hpermit
      split at hpermit
      · exact ⟨_, _, rfl⟩
      · cases ha
      · cases ha
      · cases hpermit
    obtain ⟨o, id, rfl⟩ := hsubscribing
    have hparking : .exec o (.parking id) ∈ m.2.stack := by
      cases goes_of_takes_nil (typed_of_run h ht) hs rfl hm with
      | onward hnext =>
        cases hnext with
        | exec o hnext =>
          cases hnext with
          | subscribed => exact List.mem_cons_self
      | ended hend =>
        cases hend with
        | replied o phase id' r hphase => simp at hphase
      | subscribed => exact List.mem_cons_self
    exact .same hslot (fun ticket => inLine_of_moved ht hs hm ticket fun o id => hline o ticket id)
      fun _ => hasPermit_of_mem ht hm hparking rfl
  · exact slotStep_same ht hs hm hslot (by simpa using hpermit) hline

/-- An execution that uses the slot. -/
theorem slotStep_of_exec (ht : w.threads[k]? = some t) {o : Order} {phase : ExecPhase}
    (hs : t.stack = .exec o phase :: rest) (hm : m ∈ t.moves w k)
    (hgoes : Goes w k t rest (.exec o phase) m)
    (ha : (Activation.exec o phase).usesSlot = true) :
    SlotStep w { m.1 with threads := m.1.threads.set k m.2 } := by
  have hline : (∀ ticket id, phase ≠ .queued ticket id) → ∀ ticket, w.InLine ticket →
      ({ m.1 with threads := m.1.threads.set k m.2 } : World).InLine ticket := by
    intro hphase ticket
    exact inLine_of_moved ht hs hm ticket fun o id heq =>
      hphase ticket id (Activation.exec.inj heq).2
  have hothers : ∀ ticket id, phase = .queued ticket id → ∀ ticket', ticket' ≠ ticket →
      w.InLine ticket' →
      ({ m.1 with threads := m.1.threads.set k m.2 } : World).InLine ticket' := by
    rintro ticket id rfl ticket' hne
    refine inLine_of_moved ht hs hm ticket' fun o' id' heq => ?_
    cases (Activation.exec.inj heq).2
    exact hne rfl
  have hheld := hasPermit_of_moved ht hs hm
  have hmem := fun b => hasPermit_of_mem (b := b) ht hm
  cases hgoes with
  | onward hnext =>
    cases hnext with
    | exec o hnext =>
      cases hnext with
      | pickedUp => exact .same rfl (hline (by simp)) (hheld rfl)
      | _ => cases ha
  | ended hend =>
    cases hend with
    | replied o phase id r hphase =>
      rcases hphase with rfl | rfl
      · cases ha
      · exact .same rfl (hline (by simp)) (hheld rfl)
    | _ => cases ha
  | acquired o permit hacquire =>
    exact .acquired permit hacquire rfl (hline (by simp)) (hmem _ List.mem_cons_self rfl)
  | queued o ticket permit hacquire =>
    exact .joined ticket permit hacquire rfl (hline (by simp))
      ⟨_, mem_threads_of_moved ht hm, o, _, List.mem_cons_self⟩ (hheld rfl)
  | turnedAway => exact .same rfl (hline (by simp)) (hheld rfl)
  | permitted o ticket id permit hlook =>
    exact .granted ticket permit hlook rfl (hothers ticket id rfl) (hmem _ List.mem_cons_self rfl)
  | gaveUp o ticket id => exact .withdrew ticket rfl (hothers ticket id rfl) (hheld rfl)
  | parked o id => exact .parked id _ rfl (hline (by simp))
  | reclaimed | withdrawn => exact .released (Or.inr rfl) (hline (by simp))
  | _ => cases ha

/-- A prompt that waits for input, and runs what is parked meanwhile. -/
theorem slotStep_of_reading (ht : w.threads[k]? = some t) {read : Nat} {waiting : Bool}
    (hs : t.stack = .reading read waiting :: rest) (hm : m ∈ t.moves w k) :
    SlotStep w { m.1 with threads := m.1.threads.set k m.2 } := by
  have hsame : m.1.slot = w.slot → SlotStep w { m.1 with threads := m.1.threads.set k m.2 } :=
    fun hslot => slotStep_same ht hs hm hslot rfl (by simp)
  cases turn_of_stack hm hs with
  | goes hgo hmove =>
    cases hmove with
    | onward | ended | lineRead => exact hsame rfl
    | tickRan _ hticks hcause hidle hpicks => exact slotStep_picks ht hs hm hpicks rfl (by simp)
  | receives o hback hmove =>
    cases hmove with
    | reading => exact hsame rfl
  | unwinds p hunwind hmove =>
    cases hmove with
    | other => exact hsame rfl

theorem slotStep_of_moved (h : Run past w) (ht : w.threads[k]? = some t)
    (hs : t.stack = a :: rest) (hm : m ∈ t.moves w k) (hmoved : Moved w a rest m) :
    SlotStep w { m.1 with threads := m.1.threads.set k m.2 } := by
  have htyped := typed_of_run h ht
  cases ha : a.usesSlot with
  | false => exact slotStep_of_unused h ht hs hm hmoved ha
  | true =>
    cases a with
    | exec o phase =>
      have htakes : (Activation.exec o phase).takes = [] := by
        cases phase <;> first | rfl | cases ha
      exact slotStep_of_exec ht hs hm (goes_of_takes_nil htyped hs htakes hm) ha
    | reading read waiting => exact slotStep_of_reading ht hs hm
    | readWorker handle read phase =>
      cases phase with
      | draining r =>
        cases goes_of_takes_nil htyped hs rfl hm with
        | onward hnext => cases hnext
        | ended hend => cases hend
        | drained _ _ _ hpicks => exact slotStep_picks ht hs hm hpicks rfl (by simp)
      | _ => cases ha
    | idleRun =>
      have hline : ∀ ticket, w.InLine ticket →
          ({ m.1 with threads := m.1.threads.set k m.2 } : World).InLine ticket :=
        fun ticket => inLine_of_moved ht hs hm ticket (by simp)
      cases turn_of_stack hm hs with
      | goes hgo hmove =>
        cases hmove with
        | onward hnext => cases hnext
        | ended hend => cases hend
      | receives o hback hmove =>
        cases hmove with
        | idleRun => exact .released (Or.inl rfl) hline
      | unwinds p hunwind hmove =>
        cases hmove with
        | idleRun => exact .released (Or.inl rfl) hline
        | other hcleans => cases hcleans
    | _ => cases ha

theorem Suspended.hasPermit {s : List Activation} (h : Suspended s) {b : Activation}
    (hb : b ∈ s) : b.hasPermit = false := by
  have hall : (s.all fun a => !a.hasPermit) = true := by cases h <;> rfl
  simpa using List.all_eq_true.mp hall b hb

/-- What is not in the thread that is replaced is there as before. -/
theorem stays_of_set {threads : List Thread} {t' : Thread} {b : Activation}
    (ht : threads[k]? = some t) (hb : b ∉ t.stack) {t₀ : Thread} (ht₀ : t₀ ∈ threads)
    (hmem : b ∈ t₀.stack) : ∃ t₁ ∈ threads.set k t', b ∈ t₁.stack := by
  obtain ⟨j, hj⟩ := List.mem_iff_getElem?.mp ht₀
  have hjk : j ≠ k := by
    rintro rfl
    rw [ht] at hj
    cases hj
    exact hb hmem
  refine ⟨t₀, List.mem_of_getElem? (i := j) ?_, hmem⟩
  rw [List.getElem?_set_ne hjk.symm, hj]

theorem slot_dropTask (ht : w.threads[k]? = some t) (hs : Suspended t.stack) :
    (∃ o ticket id, t.stack = [.exec o (.queued ticket id)] ∧
      (w.dropTask k).slot = w.slot.setPermit (w.slot.permit.withdraw ticket)) ∨
    (∀ o ticket id, .exec o (.queued ticket id) ∉ t.stack) ∧ (w.dropTask k).slot = w.slot := by
  simp only [World.dropTask, ht]
  generalize t.stack = stack at hs
  cases hs with
  | queued o ticket id => exact Or.inl ⟨o, ticket, id, rfl, rfl⟩
  | _ => exact Or.inr ⟨by simp, rfl⟩

theorem slotStep_of_drop (ht : w.threads[k]? = some t) (hs : Suspended t.stack) :
    SlotStep w (w.dropTask k) := by
  have hthreads := (dropTask_spec ht).2.2
  have hheld : w.HasPermit → (w.dropTask k).HasPermit := by
    rintro ⟨t₀, ht₀, b, hmem, hb⟩
    have hnot : b ∉ t.stack := by
      intro hmem
      rw [hs.hasPermit hmem] at hb
      cases hb
    obtain ⟨t', ht', hmem'⟩ := stays_of_set ht hnot ht₀ hmem
    exact ⟨t', hthreads ▸ ht', b, hmem', hb⟩
  have hline : ∀ ticket, (∀ o id, .exec o (.queued ticket id) ∉ t.stack) → w.InLine ticket →
      (w.dropTask k).InLine ticket := by
    rintro ticket hnot ⟨t₀, ht₀, o, id, hmem⟩
    obtain ⟨t', ht', hmem'⟩ := stays_of_set ht (hnot o id) ht₀ hmem
    exact ⟨t', hthreads ▸ ht', o, id, hmem'⟩
  rcases slot_dropTask ht hs with ⟨o, ticket, id, hstack, hslot⟩ | ⟨hnone, hslot⟩
  · refine .withdrew ticket hslot (fun ticket' hne => hline ticket' ?_) hheld
    intro o' id' hmem
    rw [hstack, List.mem_singleton] at hmem
    cases hmem
    exact hne rfl
  · exact .same hslot (fun ticket => hline ticket fun o id => hnone o ticket id) hheld

theorem slotStep_of_client (hstep : Step w none w') : SlotStep w w' := by
  have hthere : (∀ t ∈ w.threads, t ∈ w'.threads) → w'.slot = w.slot → SlotStep w w' := by
    intro hsub hslot
    exact .same hslot (fun ticket ⟨t, ht, h⟩ => ⟨t, hsub t ht, h⟩)
      fun ⟨t, ht, h⟩ => ⟨t, hsub t ht, h⟩
  cases hstep with
  | call hentry => exact hthere (fun t ht => List.mem_append_left _ ht) rfl
  | act hs =>
    refine hthere (fun t ht => ?_) (disturbed_of_act hs).2.2
    rwa [(client_of_act hs).threads_same]
  | drop ht hgo hsuspended => exact slotStep_of_drop ht hsuspended
  | release k =>
    rcases releaseLease_spec w k with hsame | ⟨t, handle, ht, hstack, -, -, -, -, hthreads⟩
    · rw [hsame] at hthere ⊢
      exact hthere (fun t ht => ht) rfl
    · have hnone : ∀ b, b ∉ t.stack := by simp [hstack]
      have hslot : (w.releaseLease k).slot = w.slot := by
        unfold World.releaseLease
        split <;> rfl
      refine .same hslot ?_ ?_
      · rintro ticket ⟨t₀, ht₀, o, id, hmem⟩
        obtain ⟨t', ht', hmem'⟩ := stays_of_set ht (hnone _) ht₀ hmem
        exact ⟨t', hthreads ▸ ht', o, id, hmem'⟩
      · rintro ⟨t₀, ht₀, b, hmem, hb⟩
        obtain ⟨t', ht', hmem'⟩ := stays_of_set ht (hnone b) ht₀ hmem
        exact ⟨t', hthreads ▸ ht', b, hmem', hb⟩

end Steps

section Runs

variable {w : World} {past : List Transition}

theorem permitted_of_run (h : Run past w) : w.Permitted := by
  induction h with
  | start hactive hpeak h =>
    have hslot := (fresh_of_start h).slot
    refine ⟨⟨?_, ?_, ?_⟩, ?_⟩ <;> rw [hslot]
    · exact List.nodup_nil
    · exact fun _ hmem => absurd hmem List.not_mem_nil
    · exact fun _ hmem => absurd hmem List.not_mem_nil
    · exact fun htaken => Bool.noConfusion htaken
  | @step past w w' mover h hstep ih =>
    cases mover with
    | none => exact ih.step (slotStep_of_client hstep)
    | some k =>
      obtain ⟨t, a, rest, m, ht, hs, hm, rfl, hmoved⟩ := moved_of_step h hstep
      exact ih.step (slotStep_of_moved h ht hs hm hmoved)

/-- What runs a request that was picked up is above a prompt. -/
theorem readWorker_of_idleRun {firm : Prop} {final : Manner → Prop} {stack : List Activation}
    (h : Typed firm final stack) (hmem : .idleRun ∈ stack) :
    ∃ handle read phase, .readWorker handle read phase ∈ stack := by
  induction stack with
  | nil => cases hmem
  | cons a rest ih =>
    rcases List.mem_cons.mp hmem with rfl | hmem
    · rcases h.2.1 with ⟨read, waiting, below, rfl⟩ | ⟨handle, read, r, below, rfl⟩
      · obtain ⟨handle, below', rfl⟩ := h.2.2.2.1
        exact ⟨handle, read, .reading, by simp⟩
      · exact ⟨handle, read, .drained r, by simp⟩
    · obtain ⟨handle, read, phase, hmem⟩ := ih h.2.2 hmem
      exact ⟨handle, read, phase, List.mem_cons_of_mem a hmem⟩

/-- The executions that stand in the line of the idle slot, have its permit, or have parked a
request, and have still to look whether a prompt reads. -/
def ExecPhase.unchecked : ExecPhase → Bool
  | .queued _ _ | .subscribing _ | .parking _ | .checkingReader _ => true
  | _ => false

/-- Those, and the ones that saw no prompt and have still to take their request back. -/
def ExecPhase.unsettled : ExecPhase → Bool
  | .reclaiming _ => true
  | phase => phase.unchecked

/-- A caller that has not finished its check. -/
def Activation.isUnchecked : Activation → Bool
  | .exec _ phase => phase.unchecked
  | _ => false

/-- The activations of a prompt that reads. -/
def Activation.ofPrompt : Activation → Bool
  | .readTask _ _ | .readWorker _ _ _ => true
  | _ => false

theorem World.not_reads_of_all (hall : w.threads.all fun t => t.stack.all fun a => !a.ofPrompt) :
    ∀ handle stage, ¬w.Reads handle stage := by
  rintro handle stage ⟨t, ht, hreads⟩
  have hnone : ∀ a ∈ t.stack, a.ofPrompt = false := by simpa using List.all_eq_true.mp hall t ht
  obtain ⟨a, hmem, ha⟩ : ∃ a ∈ t.stack, a.ofPrompt = true := by
    cases hreads with
    | leased token rest hs => exact ⟨.readTask token .leasing, by simp [hs], rfl⟩
    | task token phase hmem => exact ⟨_, hmem, rfl⟩
    | worker read phase hmem => exact ⟨_, hmem, rfl⟩
  rw [hnone a hmem] at ha
  cases ha

/-- No request is stranded in the idle slot. Whenever one is parked, its caller has still to look
for a prompt or to take the request back, or some prompt has still to drain the slot. Once every
prompt has given its lease back and every caller is past its look and what follows from it, nothing
is parked and the permit is free. -/
theorem parked_request_attended (h : Run past w) :
    (∀ id r, w.slot.parked = some (id, r) →
      (∃ t ∈ w.threads, t.control = .go ∧ ∃ o phase rest, t.stack = .exec o phase :: rest ∧
        (phase = .checkingReader id ∨ phase = .reclaiming id)) ∨
      ∃ handle stage, stage ≠ .drained ∧ w.Reads handle stage) ∧
    ((∀ handle stage, ¬w.Reads handle stage) →
      (∀ t ∈ w.threads, ∀ o phase, .exec o phase ∈ t.stack → phase.unsettled = false) →
      w.slot.parked = none ∧ w.slot.inFlight = false) := by
  refine ⟨fun id r hparked => ?_, fun hreaders hcallers => ?_⟩
  · refine (attended_of_run h hparked).imp_left ?_
    rintro ⟨t, ht, o, phase, rest, hs, hphase⟩
    obtain ⟨k, hk⟩ := List.mem_iff_getElem?.mp ht
    refine ⟨t, ht, (typed_of_run h hk).go_of_takes_nil hs ?_, o, phase, rest, hs, hphase⟩
    rcases hphase with rfl | rfl <;> rfl
  · have hparked : w.slot.parked = none := by
      cases hparked : w.slot.parked with
      | none => rfl
      | some p =>
        obtain ⟨id, r⟩ := p
        rcases attended_of_run h hparked with hchecks | hreads
        · obtain ⟨t, ht, o, phase, rest, hs, hphase⟩ := hchecks
          have hdone := hcallers t ht o phase (by simp [hs])
          rcases hphase with rfl | rfl <;> cases hdone
        · obtain ⟨handle, stage, -, hreads⟩ := hreads
          exact absurd hreads (hreaders handle stage)
    refine ⟨hparked, ?_⟩
    by_contra htaken
    have hpermitted := permitted_of_run h
    rcases hpermitted.held (by simpa using htaken) with hgranted | hsome | hheld
    · obtain ⟨ticket, hticket⟩ := Option.isSome_iff_exists.mp hgranted
      obtain ⟨t, ht, o, id, hmem⟩ :=
        hpermitted.lined.queued ticket (by simp [Permit.tickets, hticket])
      exact absurd (hcallers t ht o _ hmem) (by simp [ExecPhase.unsettled, ExecPhase.unchecked])
    · rw [hparked] at hsome
      cases hsome
    · obtain ⟨t, ht, b, hmem, hb⟩ := hheld
      unfold Activation.hasPermit at hb
      split at hb
      · exact absurd (hcallers t ht _ _ hmem) (by simp [ExecPhase.unsettled, ExecPhase.unchecked])
      · exact absurd (hcallers t ht _ _ hmem) (by simp [ExecPhase.unsettled, ExecPhase.unchecked])
      · obtain ⟨k, hk⟩ := List.mem_iff_getElem?.mp ht
        obtain ⟨handle, read, phase, hworker⟩ :=
          readWorker_of_idleRun (typed_of_run h hk).stack hmem
        exact hreaders handle _ ⟨t, ht, .worker read phase hworker⟩
      · cases hb

/-- A command is parked while a prompt reads, is picked up and run, and a line ends the prompt:
while the command was parked it was attended to, and in the end the slot is free. -/
theorem parked_request_attended_picked_up :
    (∃ past w id r, Run past w ∧ w.slot.parked = some (id, r) ∧
      ((∃ t ∈ w.threads, t.control = .go ∧ ∃ o phase rest, t.stack = .exec o phase :: rest ∧
          (phase = .checkingReader id ∨ phase = .reclaiming id)) ∨
        ∃ handle stage, stage ≠ .drained ∧ w.Reads handle stage)) ∧
    ∃ past w, Run past w ∧ (∃ x ∈ past, x.before.slot.parked.isSome = true) ∧
      w.slot.parked = none ∧ w.slot.inFlight = false := by
  have hstart : Run [] _ := @Run.start {} {} _ rfl rfl rfl
  have hprompt := run_of_follow (hstart.step (.call (.readLine none)))
    (List.replicate 7 0 ++ List.replicate 2 1)
  have hparked := run_of_follow (hprompt.step (.call (.execute
    { command := .ofScript "echo hi", options := {} }))) (List.replicate 8 2)
  have hpicked := run_of_follow hparked (List.replicate 30 1)
  have hended := run_of_follow (hpicked.step (.act (s := .input "x") rfl nofun))
    (List.replicate 10 1 ++ List.replicate 3 0 ++ List.replicate 3 2)
  have hcallers : ∀ {w : World}, w.threads.all (·.stack.isEmpty) = true →
      ∀ t ∈ w.threads, ∀ o phase, .exec o phase ∈ t.stack → phase.unsettled = false := by
    intro w hall t ht o phase hmem
    have hnil : t.stack = [] := by simpa using List.all_eq_true.mp hall t ht
    rw [hnil] at hmem
    cases hmem
  exact ⟨⟨_, _, _, _, hparked, rfl, (parked_request_attended hparked).1 _ _ rfl⟩,
    _, _, hended, by decide +kernel, (parked_request_attended hended).2
      (World.not_reads_of_all (by decide +kernel)) (hcallers (by decide +kernel))⟩

/-- A caller sees a prompt that reads and gets the permit. The prompt ends, and only then the
caller parks its request and looks again. It sees no prompt, and in the moment before it takes the
request back, that is parked and holds the permit, though the check is made and no prompt is
left. -/
theorem parked_after_check : ∃ past w, Run past w ∧
    w.slot.parked.isSome = true ∧ w.slot.inFlight = true ∧
    (∀ handle stage, ¬w.Reads handle stage) ∧
    ∀ t ∈ w.threads, ∀ o phase, .exec o phase ∈ t.stack → phase.unchecked = false := by
  have hstart : Run [] _ := @Run.start {} {} _ rfl rfl rfl
  have hprompt := run_of_follow (hstart.step (.call (.readLine none)))
    (List.replicate 7 0 ++ List.replicate 2 1)
  have hpermit := run_of_follow (hprompt.step (.call (.execute
    { command := .ofScript "echo hi", options := {} }))) (List.replicate 6 2)
  have hended := run_of_follow (hpermit.step (.act (s := .input "x") rfl nofun))
    (List.replicate 10 1 ++ List.replicate 3 0)
  have hchecked := run_of_follow hended (List.replicate 2 2)
  have hall : ∀ {w : World}, w.threads.all (·.stack.all (!·.isUnchecked)) = true →
      ∀ t ∈ w.threads, ∀ o phase, .exec o phase ∈ t.stack → phase.unchecked = false :=
    fun hall t ht o phase hmem => by
      simpa [Activation.isUnchecked] using
        List.all_eq_true.mp (List.all_eq_true.mp hall t ht) _ hmem
  exact ⟨_, _, hchecked, rfl, rfl, World.not_reads_of_all (by decide +kernel),
    hall (by decide +kernel)⟩

end Runs

end Service

end ScriptHost
