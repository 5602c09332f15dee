import ScriptHost.Proofs.AbortCourses
import ScriptHost.Proofs.FrameMoves

/-!
Commands leave the stack of frames and the registered loops as they found them. What an
invocation puts up while it is in progress, for loops, for parked requests and for the
orders of a nested prompt, is written down in the activations above it, in the order in
which it lies on the stack of frames; each of them takes down its own part before it ends,
whether it returns or a panic unwinds it. This needs that nobody else touches frames
and loops meanwhile, and that the thread itself does not follow the engine to another
runspace, which it does after a direct execution that its console made.
-/

namespace ScriptHost.Service

/-- `duties` are to be taken down from frames and loops before they are `above₀` and `loops₀`
again: each frame, and each loop with its frame, lies on top when its turn comes. -/
inductive Built (above₀ : List Nat) (loops₀ : List (Nat × Nat)) :
    List Duty → List Nat → List (Nat × Nat) → Prop
  | none : Built above₀ loops₀ [] above₀ loops₀
  | frame {duties : List Duty} {above : List Nat} {loops : List (Nat × Nat)} (frame : Nat)
      (h : Built above₀ loops₀ duties above loops) :
      Built above₀ loops₀ (.frame frame :: duties) (frame :: above) loops
  | loop {duties : List Duty} {above : List Nat} {loops : List (Nat × Nat)} (id frame : Nat)
      (h : Built above₀ loops₀ duties above loops) :
      Built above₀ loops₀ (.loop id :: duties) (frame :: above) ((id, frame) :: loops)

/-- The activations that push or pop the frame of a runspace. -/
def Activation.reconciles : Activation → Bool
  | .pushRunspace _ (.pushing _) | .popRunspace _ .poppingFrame => true
  | _ => false

section Moves

variable {w w' : World} {a : Activation} {above₀ : List Nat} {loops₀ : List (Nat × Nat)}

/-- The innermost frame is taken off the stack. -/
theorem above_popTop {n : Nest} {frame : Nat} {above : List Nat} (h : n.above = frame :: above) :
    n.popTop.above = above := by
  rcases n.popTop_spec with hpop | ⟨-, hempty⟩
  · have habove := (Nest.pop_spec hpop).1
    rw [h] at habove
    exact (List.cons.inj habove).2.symm
  · rw [hempty] at h
    cases h

theorem top_eq {n : Nest} {frame : Nat} {above : List Nat} (h : n.above = frame :: above) :
    n.top = frame := by
  rw [Nest.top, h]
  rfl

/-- A loop whose entry comes first is unregistered without touching the others. -/
theorem loopFrames_without {l : MessageLoop} {frame : Nat} {loops : List (Nat × Nat)}
    (hnodup : (w.loops.map MessageLoop.id).Nodup) (hl : l ∈ w.loops)
    (h : w.loopFrames = (l.id, frame) :: loops) :
    l.frame = frame ∧ w.loopFrames.filter (·.1 != l.id) = loops := by
  have hids : (w.loopFrames.map Prod.fst).Nodup := by
    simpa [World.loopFrames, Function.comp_def] using hnodup
  have hmem : (l.id, l.frame) ∈ w.loopFrames := List.mem_map_of_mem hl
  rw [h, List.map_cons, List.nodup_cons] at hids
  have hothers : ∀ p ∈ loops, p.1 ≠ l.id := fun p hp he =>
    hids.1 (List.mem_map.mpr ⟨p, hp, he⟩)
  constructor
  · rw [h] at hmem
    rcases List.mem_cons.mp hmem with heq | hmem
    · exact congrArg Prod.snd heq
    · exact absurd rfl (hothers _ hmem)
  · rw [h, List.filter_cons_of_neg (by simp), List.filter_eq_self]
    intro p hp
    simpa using hothers p hp

/-- What a move of a thread makes of frames and loops it writes down in the thread's stack, or
finds written there. -/
theorem Built.rearranged {upper new lower : List Activation}
    (h : Built above₀ loops₀ (duties upper) w.nest.above w.loopFrames)
    (hmoved : Rearranged w a (upper ++ lower) w' (new ++ lower)) (ha : a.reconciles = false)
    (hnodup : (w.loops.map MessageLoop.id).Nodup) :
    Built above₀ loops₀ (duties new) w'.nest.above w'.loopFrames := by
  have happend : ∀ s : List Activation, duties (s ++ lower) = duties s ++ duties lower :=
    fun s => List.filterMap_append
  have hsame : duties (new ++ lower) = duties (upper ++ lower) → w'.nest.above = w.nest.above →
      w'.loopFrames = w.loopFrames →
      Built above₀ loops₀ (duties new) w'.nest.above w'.loopFrames := by
    intro hduties habove hloops
    rw [happend, happend] at hduties
    rw [List.append_cancel_right hduties, habove, hloops]
    exact h
  have hfirst : ∀ {duty : Duty}, duties (upper ++ lower) = duty :: duties (new ++ lower) →
      duties upper = duty :: duties new := by
    intro duty hduties
    rw [happend, happend, ← List.cons_append] at hduties
    exact List.append_cancel_right hduties
  cases hmoved with
  | served hnest hloops hslot hduties => exact hsame hduties hnest.alike.above hloops
  | slotted ha hnest hloops hduties => exact hsame hduties (by rw [hnest]) hloops
  | marked token frame invoker ha hnest hloops hslot hduties =>
    exact hsame hduties (by rw [hnest, Nest.above_setReading]) hloops
  | pushed kind hkind hnest hloops hslot hpushes =>
    generalize hduties : duties (new ++ lower) = later at hpushes
    cases hpushes with
    | room work =>
      rw [happend, happend, ← List.cons_append] at hduties
      rw [List.append_cancel_right hduties, hnest, hloops]
      exact .frame _ h
    | runspace r previous => cases ha
  | covered frame hroom htop hnest hloops hslot hduties =>
    rw [hfirst hduties] at h
    generalize habove : w.nest.above = above at h
    cases h with
    | frame _ h => exact absurd (top_eq habove) htop
  | left frame hroom hnest hloops hslot hduties =>
    rw [hfirst hduties] at h
    generalize habove : w.nest.above = above at h
    cases h with
    | frame _ h =>
      rw [hnest, above_popTop habove, hloops]
      exact h
  | popped reason frame hpopping =>
    subst hpopping
    cases ha
  | opened kind hnest hloops hslot hduties =>
    rw [happend, happend, ← List.cons_append] at hduties
    rw [List.append_cancel_right hduties, hnest, hloops]
    exact .loop _ _ h
  | unregistered l signal hleaving hl htop hnest hloops hslot hduties =>
    rw [hfirst hduties] at h
    generalize habove : w.nest.above = above at h
    generalize hbefore : w.loopFrames = loops at h
    cases h with
    | loop _ frame h =>
      rw [(loopFrames_without hnodup hl hbefore).1] at htop
      exact absurd (top_eq habove) htop
  | closed l signal hleaving hl hnest hloops hslot hduties =>
    rw [hfirst hduties] at h
    generalize habove : w.nest.above = above at h
    generalize hbefore : w.loopFrames = loops at h
    cases h with
    | loop _ frame h =>
      obtain ⟨-, hothers⟩ := loopFrames_without hnodup hl hbefore
      rw [hnest, above_popTop habove, hloops, hothers]
      exact h

end Moves

/-- Thread `k` has an invocation at height `n` of its stack. -/
def World.Invokes (w : World) (k n : Nat) : Prop :=
  ∃ i, (w.stackOf k).reverse[n]? = some (.invocation i)

/-- A step of another than thread `k` leaves the frames on the stack and the registered loops. -/
def Transition.Spares (x : Transition) (k : Nat) : Prop :=
  x.mover ≠ some k →
    x.after.nest.above = x.before.nest.above ∧ x.after.loopFrames = x.before.loopFrames

/-- Thread `k` follows the engine to another runspace: it pushes or pops the frame of one. -/
def Transition.Reconciles (x : Transition) (k : Nat) : Prop :=
  x.mover = some k ∧ (x.before.stackOf k).head?.any Activation.reconciles = true

/-- Whether an activation is an invocation. -/
def Activation.isInvocation : Activation → Bool
  | .invocation _ => true
  | _ => false

instance (w : World) (k n : Nat) : Decidable (w.Invokes k n) :=
  decidable_of_iff ((w.stackOf k).reverse[n]?.any Activation.isInvocation = true) <| by
    unfold World.Invokes
    cases (w.stackOf k).reverse[n]? with
    | none => simp
    | some a => cases a <;> simp [Activation.isInvocation]

instance (x : Transition) (k : Nat) : Decidable (x.Spares k) :=
  inferInstanceAs (Decidable (x.mover ≠ some k →
    x.after.nest.above = x.before.nest.above ∧ x.after.loopFrames = x.before.loopFrames))

instance (x : Transition) (k : Nat) : Decidable (x.Reconciles k) :=
  inferInstanceAs (Decidable (x.mover = some k ∧
    (x.before.stackOf k).head?.any Activation.reconciles = true))

section Runs

variable {past later : List Transition} {w w' : World} {mover : Option Nat} {k n : Nat}

theorem World.Invokes.exists_thread (h : w.Invokes k n) :
    ∃ t i, w.threads[k]? = some t ∧ .invocation i ∈ t.stack ∧ n < t.stack.length := by
  obtain ⟨i, hi⟩ := h
  obtain ⟨hn, hget⟩ := List.getElem?_eq_some_iff.mp hi
  cases ht : w.threads[k]? with
  | none => simp [World.stackOf, ht] at hn
  | some t =>
    rw [stackOf_of_thread ht] at hi hn
    exact ⟨t, i, rfl, List.mem_reverse.mp (List.mem_of_getElem? hi), by simpa using hn⟩

/-- A thread with an invocation cannot be given up, and has no lease to return. -/
theorem invokes_stays {t : Thread} {i : Invocation} (hstep : Step w mover w')
    (ht : w.threads[k]? = some t) (hmem : .invocation i ∈ t.stack) (hmover : mover ≠ some k) :
    w'.threads[k]? = some t := by
  refine thread_stays hstep ht hmover (fun _ hsuspended => ?_) fun hempty => ?_
  · generalize t.stack = s at hmem hsuspended
    cases hsuspended <;> simp at hmem
  · rw [hempty] at hmem
    cases hmem

/-- What is put up over the frames and loops that were there when an invocation was innermost is
written in the activations above what it lies on, all the way. -/
theorem built_of_run {x : Transition} {t₀ : Thread} {a₀ : Activation} {lower : List Activation}
    (h : Run (later ++ x :: past) w) (ht₀ : x.after.threads[k]? = some t₀)
    (hs₀ : t₀.stack = a₀ :: lower) (ha₀ : a₀.duty? = none)
    (hinvokes : ∀ y ∈ later, y.before.Invokes k lower.length)
    (hothers : ∀ y ∈ later, y.Spares k) (hown : ∀ y ∈ later, ¬y.Reconciles k) :
    ∃ t upper, w.threads[k]? = some t ∧ t.stack = upper ++ lower ∧
      Built x.after.nest.above x.after.loopFrames (duties upper) w.nest.above w.loopFrames := by
  induction later generalizing w with
  | nil =>
    obtain rfl : x.after = w := by
      cases h
      rfl
    refine ⟨t₀, [a₀], ht₀, hs₀, ?_⟩
    rw [duties, List.filterMap_cons_none ha₀]
    exact .none
  | cons y later ih =>
    have hrun : Run ([] ++ y :: (later ++ x :: past)) w := h
    obtain ⟨hbefore, hstep⟩ := run_before hrun
    obtain rfl : y.after = w := by
      cases h
      rfl
    have hlater : ∀ {z : Transition}, z ∈ later → z ∈ y :: later := List.mem_cons_of_mem y
    obtain ⟨t, upper, ht, hs, hbuilt⟩ := ih hbefore (fun z hz => hinvokes z (hlater hz))
      (fun z hz => hothers z (hlater hz)) fun z hz => hown z (hlater hz)
    obtain ⟨t', i, ht', hmem, hheight⟩ := (hinvokes y List.mem_cons_self).exists_thread
    obtain rfl : t' = t := Option.some.inj (ht'.symm.trans ht)
    by_cases hmover : y.mover = some k
    · rw [hmover] at hstep
      obtain ⟨t₁, a, rest, m, ht₁, hs₁, hm, hafter, hmoved⟩ := moved_of_step hbefore hstep
      obtain rfl : t₁ = t' := Option.some.inj (ht₁.symm.trans ht)
      obtain ⟨a', rest', hs₂, new, started, hlocal⟩ := local_of_moves hm
      obtain ⟨rfl, rfl⟩ := List.cons.inj (hs₂.symm.trans hs₁)
      obtain ⟨inner, rfl⟩ : ∃ inner, upper = a' :: inner := by
        cases upper with
        | nil => simp [hs] at hheight
        | cons b inner => exact ⟨inner, by rw [(List.cons.inj (hs.symm.trans hs₁)).1]⟩
      obtain rfl : inner ++ lower = rest' := (List.cons.inj (hs.symm.trans hs₁)).2
      have hboard := hmoved.board
      rw [hlocal.stack_eq, ← List.cons_append, ← List.append_assoc] at hboard
      have ha : a'.reconciles = false := by
        by_contra hreconciles
        refine hown y List.mem_cons_self ⟨hmover, ?_⟩
        rw [stackOf_of_thread ht, hs₁]
        simpa using hreconciles
      have hk : k < m.1.threads.length := by
        rw [hlocal.threads_eq]
        exact (List.getElem?_eq_some_iff.mp ht).1.trans_le (by simp)
      refine ⟨m.2, new ++ inner, ?_, ?_, ?_⟩
      · rw [hafter]
        exact List.getElem?_set_self hk
      · rw [hlocal.stack_eq, List.append_assoc]
      · rw [hafter]
        have hbuilt' : Built _ _ _ m.1.nest.above m.1.loopFrames :=
          hbuilt.rearranged hboard ha (orderly_of_run hbefore).sound.loops_nodup
        exact hbuilt'
    · obtain ⟨habove, hloops⟩ := hothers y List.mem_cons_self hmover
      refine ⟨t', upper, invokes_stays hstep ht hmem hmover, hs, ?_⟩
      rw [habove, hloops]
      exact hbuilt

/-- Let an invocation be innermost on a thread, and let nobody else change frames and loops while
it is in progress, and the thread itself follow the engine to no other runspace meanwhile. Once it
has returned or is unwound, the frames on the stack and the registered loops are those that were
there at first, and every frame pushed in between is popped. -/
theorem commands_leave_frames {x : Transition} (h : Run (later ++ x :: past) w)
    (hfirst : x.after.Invokes k n) (hinnermost : (x.after.stackOf k).length = n + 1)
    (hinvokes : ∀ y ∈ later, y.before.Invokes k n) (hend : (w.stackOf k).length = n)
    (hothers : ∀ y ∈ later, y.Spares k) (hown : ∀ y ∈ later, ¬y.Reconciles k) :
    w.nest.stack = x.after.nest.stack ∧ w.loopFrames = x.after.loopFrames ∧
      ∀ frame, x.after.nest.frames.length ≤ frame → frame < w.nest.frames.length →
        (w.nest.frame frame).isPopped = true := by
  obtain ⟨t₀, i, ht₀, hmem, -⟩ := hfirst.exists_thread
  obtain ⟨j, hj⟩ := hfirst
  rw [stackOf_of_thread ht₀] at hinnermost hj
  obtain ⟨a₀, lower, hs₀⟩ := List.exists_cons_of_length_eq_add_one hinnermost
  have hn : lower.length = n := by simpa [hs₀] using hinnermost
  have ha₀ : a₀ = .invocation j := by
    rw [hs₀, List.reverse_cons, ← hn, ← List.length_reverse,
      List.getElem?_append_right (le_refl _), Nat.sub_self] at hj
    exact Option.some.inj hj
  obtain ⟨t, upper, ht, hs, hbuilt⟩ := built_of_run h ht₀ hs₀ (by rw [ha₀]; rfl)
    (hn.symm ▸ hinvokes) hothers hown
  have hupper : upper = [] := by
    rw [stackOf_of_thread ht, hs, List.length_append] at hend
    exact List.length_eq_zero_iff.mp (by omega)
  rw [hupper] at hbuilt
  generalize habove : w.nest.above = above at hbuilt
  generalize hloops : w.loopFrames = loops at hbuilt
  cases hbuilt
  have hstack : w.nest.stack = x.after.nest.stack := by rw [Nest.stack, habove, Nest.stack]
  refine ⟨hstack, rfl, fun frame hnew hmade => ?_⟩
  obtain ⟨hbefore, hstep⟩ := run_before h
  refine ((standing_of_run h).popped_iff frame hmade).mpr fun hmem => ?_
  rw [hstack] at hmem
  exact absurd ((standing_of_run (hbefore.step hstep)).stack_made frame hmem) (by omega)

theorem Run.split (h : Run past w) {j : Nat} (hj : j < past.length) :
    Run (past.take j ++ past[j] :: past.drop (j + 1)) w := by
  rwa [List.getElem_cons_drop, List.take_append_drop]

/-- A nested prompt is opened, and a debugger stops in it. Both are left, one after the other, and
so is the frame that was pushed in between for the order that came to the debugger. -/
theorem commands_leave_frames_nested : ∃ later x past w, Run (later ++ x :: past) w ∧
    x.after.Invokes 1 2 ∧ (w.stackOf 1).length = 2 ∧
    (∃ y ∈ later, y.after.nest.stack = [3, 2, 1, 0] ∧ y.after.loopFrames = [(1, 3), (0, 1)]) ∧
    w.nest.stack = x.after.nest.stack ∧ w.loopFrames = x.after.loopFrames ∧
    w.nest.frames.length = x.after.nest.frames.length + 3 ∧
    ∀ frame, x.after.nest.frames.length ≤ frame → frame < w.nest.frames.length →
      (w.nest.frame frame).isPopped = true := by
  have hstart : Run [] _ := @Run.start {} {} _ rfl rfl rfl
  have hprompt := run_of_follow (hstart.step (.call (.execute
    { command := .ofScript "nested", options := {} })))
    (List.replicate 10 0 ++ List.replicate 4 1)
  have hstopped := run_of_follow (hprompt.step (.call (.execute
    { command := .ofScript "breakpoint", options := {} })))
    (List.replicate 2 2 ++ List.replicate 7 1)
  have hresumed := run_of_follow (hstopped.step (.act (s := .resume .proceed) rfl fun _ => rfl))
    (List.replicate 17 1)
  have hleft := run_of_follow (hresumed.step (.act (s := .exitPrompt) rfl fun _ => rfl))
    (List.replicate 10 1)
  have hsplit := hleft.split (j := 42) (by decide +kernel)
  have hresult := commands_leave_frames (k := 1) (n := 2) hsplit (by decide +kernel)
    (by decide +kernel) (by decide +kernel) (by decide +kernel) (by decide +kernel)
    (by decide +kernel)
  refine ⟨_, _, _, _, hsplit, by decide +kernel, by decide +kernel, by decide +kernel, hresult.1,
    hresult.2.1, by decide +kernel, hresult.2.2⟩

/-- A command is in progress beside a runspace when the console runs a script on its thread, which
enters another runspace. The thread pushes the frame of that runspace, and the frame is still there
when the command returns. -/
theorem frame_outlives_command : ∃ later x past w, Run (later ++ x :: past) w ∧
    x.after.Invokes 3 2 ∧ (x.after.stackOf 3).length = 3 ∧
    (∀ y ∈ later, y.before.Invokes 3 2) ∧ (w.stackOf 3).length = 2 ∧
    (∀ y ∈ later, y.Spares 3) ∧ x.after.nest.stack = [1, 0] ∧ w.nest.stack = [2, 1, 0] := by
  have hstart : Run [] _ := @Run.start
    { console := fun line => if line = "run" then .run "enter-pssession foo" else .ignore } {} _
    rfl rfl rfl
  have hleased := run_of_follow (hstart.step (.call (.lease none))) (List.replicate 5 0)
  have hwaiting := run_of_follow (hleased.step (.call (.execute
    { command := .ofScript "echo run", options := { writeOutput := true } }))) (List.replicate 7 1)
  have hpushed := run_of_follow (hwaiting.step (.call (.pushRunspace
    { id := 5, location := .computer "far" }))) (List.replicate 4 2)
  have hentered := run_of_follow (hpushed.step (.release 0))
    (List.replicate 4 1 ++ List.replicate 13 3 ++ List.replicate 8 4 ++ List.replicate 14 3)
  have hsplit := hentered.split (j := 34) (by decide +kernel)
  exact ⟨_, _, _, _, hsplit, by decide +kernel⟩

end Runs

end ScriptHost.Service
