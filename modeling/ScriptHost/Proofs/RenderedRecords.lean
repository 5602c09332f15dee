import ScriptHost.Proofs.RenderingCourses
import ScriptHost.Proofs.StackNeutrality

/-!
What an invocation of the service writes on the console. Its thread may be kept by the console
for each line, may run scripts of the console in between, and other threads go on all the time;
nonetheless the lines are those that the invocation renders, in order. No value of its output is
rendered twice. An error record is rendered again by every rendering that comes after it.
-/

namespace ScriptHost

/-- What a line leaves on the console. -/
def HostCall.entry? : HostCall → Option Service.ConsoleEntry
  | writeLine line => some (.out line)
  | writeErrorLine line => some (.err line)
  | _ => none

/-- The text of an error line. -/
def Service.ConsoleEntry.error? : Service.ConsoleEntry → Option String
  | err line => some line
  | _ => none

theorem HostCall.entry?_of_silent {c : HostCall} (h : c.writes = false) : c.entry? = none := by
  cases c <;> first | rfl | cases h

namespace Service

open Invocation

/-- The engine and the invocation of a thread that is about to take a step of it, where the
invocation lies on `n` activations. -/
def Thread.visit? (e : Engine) (n : Nat) (t : Thread) : Option (Engine × Invocation) :=
  match t.control, t.stack with
  | .go, .invocation i :: rest => if rest.length = n then some (e, i) else none
  | _, _ => none

/-- The same for the thread that takes a transition, if it is thread `k`. -/
def Transition.visit? (x : Transition) (k n : Nat) : Option (Engine × Invocation) :=
  if x.mover = some k then x.before.threads[k]?.bind (Thread.visit? x.before.engine n) else none

/-- The steps of the invocation of thread `k` that lies on `n` activations, latest first. -/
def visits (k n : Nat) (past : List Transition) : List (Engine × Invocation) :=
  past.filterMap (·.visit? k n)

/-- What came on the console in a transition. -/
def Transition.entries (x : Transition) : List ConsoleEntry :=
  x.after.console.drop x.before.console.length

/-- What came on the console in the steps of that invocation. -/
def written (k n : Nat) : List Transition → List ConsoleEntry
  | [] => []
  | x :: past => written k n past ++ if (x.visit? k n).isSome then x.entries else []

/-- Thread `k`, whose innermost activation has an order for the engine, comes to an invocation on
`n` activations. -/
structure Transition.Commences (x : Transition) (k n : Nat) (o : Order) : Prop where
  mover : x.mover = some k
  order : (x.before.stackOf k).head?.bind x.before.orderAt = some o
  begun : (x.after.threads[k]?.bind (Thread.visit? x.after.engine n)).isSome = true

/-- Whether the innermost activation gets what the one above it left. -/
def Control.gives : Control → Bool
  | .back _ => true
  | _ => false

/-- What lay on `n` activations of thread `k` has returned. -/
def World.Returned (w : World) (k n : Nat) : Prop :=
  ∃ t ∈ w.threads[k]?, t.stack.length = n ∧ t.control.gives = true

instance (w : World) (k n : Nat) : Decidable (w.Returned k n) :=
  inferInstanceAs (Decidable (∃ t ∈ w.threads[k]?, t.stack.length = n ∧ t.control.gives = true))

/-- Activations that come to lie above an invocation when the console gets a line. -/
def Activation.ofConsole : Activation → Bool
  | .held _ | .reentrant => true
  | _ => false

/-- The console was given a line, and no action of a debugger can come of it. -/
structure Harmless (c : Control) (inner : List Activation) : Prop where
  idle : inner = [] → ∀ action, c ≠ .back (.action action)
  below : ∀ a ∈ inner.getLast?, a.ofConsole = true

/-- The part of a stack from an invocation on, if that is still there. -/
inductive Upper (c : Control) : Option Invocation → List Activation → Prop
  | left : Upper c none []
  | there {i : Invocation} {inner : List Activation}
      (h : (∀ calls, i.phase ≠ .rendering calls) ∨ Harmless c inner) :
      Upper c (some i) (inner ++ [.invocation i])

theorem Upper.innermost {c : Control} {i : Invocation}
    (hc : ∀ action, c ≠ .back (.action action)) : Upper c (some i) [.invocation i] := by
  have hharmless : Harmless c [] := ⟨fun _ => hc, by simp⟩
  exact .there (.inr hharmless)

section Moves

variable {w : World} {k : Nat} {t : Thread} {m : World × Thread} {rest : List Activation}

theorem console_followInvocation (w : World) (state : InvocationState) (reason : Option String) :
    (w.followInvocation state reason).console = w.console := by
  unfold World.followInvocation World.changeSession
  split <;> rfl

/-- A call of the host lays something on the invocation. It leaves on the console what it
writes. -/
theorem calls_spec {s : List Activation} {c : HostCall} (hm : Calls w k t s c m) :
    ∃ inner, m.2.stack = inner ++ s ∧ m.1.console = w.console ++ c.entry?.toList ∧
      (c.writes = true → Harmless m.2.control inner) := by
  have hsame : ∀ {w' : World}, w'.console = w.console → w'.console = w.console ++ [] :=
    fun h => h.trans (List.append_nil _).symm
  cases hm with
  | followed state reason =>
    exact ⟨[], rfl, hsame (console_followInvocation w state reason), by simp [HostCall.writes]⟩
  | wrote | wroteError => exact ⟨[], rfl, rfl, fun _ => ⟨by simp [Thread.goOn], by simp⟩⟩
  | crashed => exact ⟨[], rfl, rfl, fun _ => ⟨by simp [Thread.panic], by simp⟩⟩
  | held => exact ⟨[_], rfl, rfl, fun _ => ⟨by simp, by simp [Activation.ofConsole]⟩⟩
  | reentered => exact ⟨[_, _], rfl, rfl, fun _ => ⟨by simp, by simp [Activation.ofConsole]⟩⟩
  | stopped | prompted => exact ⟨[_], rfl, hsame rfl, by simp [HostCall.writes]⟩
  | updated => exact ⟨[], rfl, hsame rfl, by simp [HostCall.writes]⟩
  | exited h =>
    refine ⟨[], rfl, hsame ?_, by simp [HostCall.writes]⟩
    cases h <;> rfl
  | idled hm =>
    cases hm with
    | found => exact ⟨[_, _], rfl, hsame rfl, by simp [HostCall.writes]⟩
    | nothing => exact ⟨[], rfl, hsame rfl, by simp [HostCall.writes]⟩

/-- A call by which an invocation becomes `i'` puts the line on the console that is the next to
write. -/
theorem upper_of_calls {i i' : Invocation} {e : Engine} {c : HostCall}
    (hturn : i.RenderTurn e (.call c i')) (hwrites : ∀ c ∈ i.pending, c.writes = true)
    (hm : Calls w k t (.invocation i' :: rest) c m) :
    ∃ upper, m.2.stack = upper ++ rest ∧
      m.1.console = w.console ++ i.pending.head?.toList.filterMap HostCall.entry? ∧
      Upper m.2.control (some i') upper ∧ upper ≠ [] := by
  obtain ⟨inner, hstack, hconsole, hharmless⟩ := calls_spec hm
  refine ⟨inner ++ [.invocation i'], by simp [hstack], ?_, .there ?_, by simp⟩
  · rw [hconsole]
    rcases hturn.call with hhead | ⟨hnone, hsilent, -⟩
    · rw [hhead]
      cases hentry : c.entry? <;> simp [hentry]
    · rw [hnone, HostCall.entry?_of_silent hsilent]
      rfl
  · rcases hturn.call with hhead | ⟨-, -, hphase⟩
    · exact .inr (hharmless (hwrites c (List.mem_of_head? hhead)))
    · exact .inl hphase

/-- The same of any step, most of which write nothing. -/
theorem upper_of_goes {i : Invocation} (hm : Goes w k t rest (.invocation i) m)
    (hwrites : ∀ c ∈ i.pending, c.writes = true) :
    ∃ upper, m.2.stack = upper ++ rest ∧
      m.1.console = w.console ++ i.pending.head?.toList.filterMap HostCall.entry? ∧
      Upper m.2.control (i.step w.engine).2.invocation? upper ∧
      (upper = [] → m.2.control.gives = true → ∃ r, (i.step w.engine).2 = .finish r) := by
  have hturn := renderTurn_step w.engine i
  have hnothing : (∀ c i', (i.step w.engine).2 ≠ .call c i') →
      w.console = w.console ++ i.pending.head?.toList.filterMap HostCall.entry? := by
    intro hcall
    simp [hturn.pending hcall]
  cases hm with
  | onward hnext => cases hnext
  | ended hend => cases hend
  | advanced _ i' engine hstep | slept _ i' ms engine hstep =>
    rw [hstep] at hnothing ⊢
    exact ⟨[_], rfl, hnothing (by simp), .innermost (by simp [Thread.goOn]), by simp⟩
  | called _ i' c engine hstep hm =>
    rw [hstep] at hturn ⊢
    obtain ⟨upper, hstack, hconsole, hupper, hne⟩ := upper_of_calls hturn hwrites hm
    exact ⟨upper, hstack, hconsole, hupper, fun hempty => absurd hempty hne⟩
  | finished _ r engine hstep =>
    rw [hstep] at hnothing ⊢
    exact ⟨[], rfl, hnothing (by simp), .left, fun _ _ => ⟨r, rfl⟩⟩
  | crashed _ p engine hstep =>
    rw [hstep] at hnothing ⊢
    exact ⟨[], rfl, hnothing (by simp), .left, by simp [Thread.panic, Control.gives]⟩

/-- What a line brought about ends without an action of a debugger. -/
theorem control_of_ofConsole {a : Activation} (ha : a.ofConsole = true)
    (hs : t.stack = a :: rest) (hm : m ∈ t.moves w k) :
    m.2.stack = rest ∧ ∀ action, m.2.control ≠ .back (.action action) := by
  cases turn_of_stack hm hs with
  | goes hgo h =>
    cases h with
    | onward hnext => cases hnext <;> cases ha
    | ended hend =>
      cases hend with
      | gateOpened => exact ⟨rfl, by simp [Thread.give]⟩
      | _ => cases ha
    | _ => cases ha
  | receives o hback h =>
    cases h with
    | reentrant => exact ⟨rfl, by simp [Thread.give]⟩
    | _ => cases ha
  | unwinds p hunwind h =>
    cases h with
    | other => exact ⟨rfl, by simp [Thread.panic]⟩
    | _ => cases ha

theorem Harmless.move {a : Activation} {inner new : List Activation}
    (h : Harmless t.control (a :: inner)) (hs : t.stack = a :: (inner ++ rest))
    (hm : m ∈ t.moves w k) (hstack : m.2.stack = new ++ (inner ++ rest)) :
    Harmless m.2.control (new ++ inner) := by
  cases inner with
  | nil =>
    obtain ⟨hrest, hcontrol⟩ := control_of_ofConsole (h.below a (by simp)) hs hm
    obtain rfl : new = [] := by simpa [hrest] using hstack
    exact ⟨fun _ => hcontrol, by simp⟩
  | cons b inner =>
    refine ⟨by simp, fun a' ha' => h.below a' ?_⟩
    rw [List.getLast?_append_of_ne_nil _ (List.cons_ne_nil b inner)] at ha'
    rwa [List.getLast?_cons_cons]

/-- If a thread is about to take the first step of an invocation, it is what the engine makes of
an order. -/
def Thread.Runs (t : Thread) (o : Order) : Prop :=
  ∀ i rest, t.control = .go → t.stack = .invocation i :: rest →
    ∃ (e : Engine) (frame : FrameInfo) (addToHistory outermost : Bool),
      i = (e.invoke frame (o.command.prepared o.options) addToHistory outermost).2

section Beginnings

variable {o : Order}

theorem runs_give (t : Thread) (rest : List Activation) (outcome : Outcome) :
    (t.give rest outcome).Runs o :=
  fun _ _ hgo _ => by cases hgo

theorem runs_panic (t : Thread) (rest : List Activation) (p : Panic) : (t.panic rest p).Runs o :=
  fun _ _ hgo _ => by cases hgo

theorem runs_goOn {a : Activation} (ha : ∀ i, a ≠ .invocation i) (t : Thread)
    (rest : List Activation) : (t.goOn (a :: rest)).Runs o :=
  fun i _ _ hs => absurd (List.cons.inj hs).1 (ha i)

theorem runs_of_submits {below : List Activation} {invoker : Nat}
    (hm : Submits w t below invoker o m) : m.2.Runs o := by
  cases hm with
  | refused => exact runs_give t _ _
  | begun engine i hfault hinvoke =>
    rintro i' rest' - hs
    cases hs
    exact ⟨_, _, _, _, congrArg Prod.snd hinvoke.symm⟩

theorem runs_of_obeys {below : List Activation} {l : MessageLoop} (hm : Obeys w t below l o m) :
    m.2.Runs o := by
  cases hm with
  | forbidden | refused | resumed => exact runs_give t _ _
  | entered => exact runs_goOn (by simp) t _
  | begun engine i hkind hfault hcommand =>
    unfold Engine.debuggerCommand at hcommand
    split at hcommand
    · cases hcommand
    · cases hcommand
      rintro i' rest' - hs
      cases hs
      exact ⟨w.engine, _, _, _, rfl⟩

theorem runs_of_onward {a a' : Activation} (hm : Onward w a a') : (t.goOn (a' :: rest)).Runs o := by
  refine runs_goOn (fun i => ?_) t rest
  cases hm <;> simp

theorem runs_of_goes {a : Activation} (hm : Goes w k t rest a m) (ho : w.orderAt a = some o) :
    m.2.Runs o := by
  cases hm with
  | onward hnext => exact runs_of_onward hnext
  | ended => exact runs_give t _ _
  | enteredRequest frame r h nest hlease hm | enteredOrder frame o' h nest hlease hm =>
    cases ho
    exact runs_of_submits hm
  | started h o' hm =>
    cases ho
    exact runs_of_submits hm
  | taken l r requests hl hr hphase hcancelled hm =>
    rw [World.orderAt, hl, Option.bind_some, hr] at ho
    cases ho
    exact runs_of_obeys hm
  | inlined o' l loops hl hself hm =>
    cases ho
    exact runs_of_obeys hm
  | closedCovered l signal hl hr htop hm | closed l signal hl hm =>
    cases hm with
    | debugger => exact runs_goOn (by simp) t _
    | prompt => exact runs_give t _ _
  | abandoned | unhandled | stayed | resumed => exact runs_give t _ _
  | pushed | leftUnused | announced | published | skipped | consumed | interruptedReads | locked
  | posted => exact runs_goOn (by simp) t _
  | _ => cases ho

theorem runs_of_receives {a : Activation} {outcome : Outcome} (hm : Receives w t rest outcome a m)
    (ho : w.orderAt a = some o) : m.2.Runs o := by
  cases hm with
  | loop => exact runs_goOn (by simp) t _
  | _ => cases ho

theorem runs_of_unwinds {a : Activation} {p : Panic} (hm : Unwinds w t rest p a m)
    (ho : w.orderAt a = some o) : m.2.Runs o := by
  cases hm with
  | other => exact runs_panic t _ p
  | _ => cases ho

/-- Where an order is given to the engine, an invocation of it begins. -/
theorem runs_of_moves {a : Activation} (hs : t.stack = a :: rest) (hm : m ∈ t.moves w k)
    (ho : w.orderAt a = some o) : m.2.Runs o := by
  cases turn_of_stack hm hs with
  | goes hgo h => exact runs_of_goes h ho
  | receives outcome hback h => exact runs_of_receives h ho
  | unwinds p hunwind h => exact runs_of_unwinds h ho

end Beginnings

/-- The steps that an invocation has taken, what came on the console in them, and the part of
the stack from the invocation on. -/
structure Progress (start : Invocation) (steps : List (Engine × Invocation))
    (entries : List ConsoleEntry) (c : Control) (upper : List Activation) : Prop where
  course : ∃ state, Invocation.Course start steps state ∧ Upper c state upper
  entries : entries = (said steps).filterMap HostCall.entry?
  returned : upper = [] → c.gives = true → said steps = linesOf (renderings steps)

theorem visit?_eq_some {e : Engine} {n : Nat} {visit : Engine × Invocation}
    (h : t.visit? e n = some visit) : ∃ rest, t.control = .go ∧
      t.stack = .invocation visit.2 :: rest ∧ rest.length = n ∧ visit.1 = e := by
  unfold Thread.visit? at h
  split at h
  · next hcontrol hstack =>
    split at h
    · next hlength =>
      cases h
      exact ⟨_, hcontrol, hstack, hlength, rfl⟩
    · cases h
  · cases h

section Progress

variable {start : Invocation} {steps : List (Engine × Invocation)} {entries : List ConsoleEntry}
  {upper : List Activation}

theorem Progress.there (h : Progress start steps entries t.control upper) (hupper : upper ≠ []) :
    ∃ i inner, upper = inner ++ [.invocation i] ∧
      Invocation.Course start steps (some i) ∧
      ((∀ calls, i.phase ≠ .rendering calls) ∨ Harmless t.control inner) := by
  obtain ⟨state, hcourse, hinner⟩ := h.course
  cases hinner with
  | left => exact absurd rfl hupper
  | there hguard => exact ⟨_, _, rfl, hcourse, hguard⟩

/-- A step of the invocation. -/
theorem Progress.step {visit : Engine × Invocation}
    (h : Progress start steps entries t.control upper)
    (hstart : ∀ calls, start.phase ≠ .rendering calls) (hm : m ∈ t.moves w k)
    (hs : t.stack = upper ++ rest) (hvisit : t.visit? w.engine rest.length = some visit) :
    ∃ upper, m.2.stack = upper ++ rest ∧ Progress start (visit :: steps)
      (entries ++ m.1.console.drop w.console.length) m.2.control upper := by
  obtain ⟨e, i⟩ := visit
  obtain ⟨rest', hgo, hstack, hlength, rfl⟩ := visit?_eq_some hvisit
  have hsplit : [.invocation i] ++ rest' = upper ++ rest := hstack.symm.trans hs
  obtain ⟨rfl, rfl⟩ := List.append_inj' hsplit hlength
  have hgoes : Goes w k t rest' (.invocation i) m := goes_of_moves hm hgo hstack
  obtain ⟨i', inner, heq, hcourse, -⟩ := h.there (by simp)
  have hinnermost : [] ++ [.invocation i] = inner ++ [.invocation i'] := heq
  obtain ⟨-, hi⟩ := List.append_inj' hinnermost rfl
  obtain rfl : i = i' := by simpa using hi
  have hshown := (hcourse.shown hstart).2 i rfl
  obtain ⟨upper, hstack, hconsole, hupper, hreturned⟩ :=
    upper_of_goes hgoes hshown.pending_writes
  refine ⟨upper, hstack, ⟨_, hcourse.step w.engine, hupper⟩, ?_, fun hleft hgives => ?_⟩
  · rw [hconsole, List.drop_left, said_cons, List.filterMap_append, h.entries]
  · obtain ⟨r, hr⟩ := hreturned hleft hgives
    exact hshown.finished hr

/-- A step of its thread that the invocation does not take itself. -/
theorem Progress.wait (h : Progress start steps entries t.control upper) (hm : m ∈ t.moves w k)
    (hs : t.stack = upper ++ rest) (hupper : upper ≠ [])
    (hvisit : t.visit? w.engine rest.length = none) :
    ∃ upper, m.2.stack = upper ++ rest ∧ Progress start steps entries m.2.control upper := by
  obtain ⟨i, inner, rfl, hcourse, hguard⟩ := h.there hupper
  cases inner with
  | nil =>
    cases turn_of_stack hm hs with
    | goes hgo => simp [Thread.visit?, hgo, hs] at hvisit
    | unwinds p hunwind hm =>
      cases hm with
      | invocation =>
        exact ⟨[], rfl, ⟨none, hcourse.unwound, .left⟩, h.entries,
          by simp [Thread.panic, Control.gives]⟩
      | other ha => cases ha
    | receives outcome hback hm =>
      cases hm with
      | resumed _ i' action engine hresume =>
        have hphase := hguard.resolve_right fun hharmless => hharmless.idle rfl action hback
        have hcourse := hcourse.resumed w.engine action hphase
        rw [hresume] at hcourse
        exact ⟨[_], rfl, ⟨_, hcourse, .innermost (by simp [Thread.goOn])⟩, h.entries, by simp⟩
      | invocation =>
        exact ⟨[_], rfl, ⟨_, hcourse, .innermost (by simp [Thread.goOn])⟩, h.entries, by simp⟩
  | cons a inner =>
    obtain ⟨a', rest', hs', new, started, hlocal⟩ := local_of_moves hm
    obtain ⟨rfl, rfl⟩ := List.cons.inj (hs'.symm.trans hs)
    have hbelow : inner ++ [.invocation i] ++ rest = inner ++ .invocation i :: rest := by simp
    have hbefore := hs.trans (congrArg (a' :: ·) hbelow)
    have hafter := hlocal.stack_eq.trans (congrArg (new ++ ·) hbelow)
    refine ⟨new ++ inner ++ [.invocation i], by simp [hlocal.stack_eq],
      ⟨some i, hcourse, .there ?_⟩, h.entries, by simp⟩
    exact hguard.imp_right fun hharmless => hharmless.move hbefore hm hafter

/-- A step of its thread, whether the invocation takes it or not. -/
theorem Progress.move (h : Progress start steps entries t.control upper)
    (hstart : ∀ calls, start.phase ≠ .rendering calls) (hm : m ∈ t.moves w k)
    (hs : t.stack = upper ++ rest) (hupper : upper ≠ []) :
    ∃ upper, m.2.stack = upper ++ rest ∧
      Progress start ((t.visit? w.engine rest.length).toList ++ steps)
        (entries ++ if (t.visit? w.engine rest.length).isSome then
          m.1.console.drop w.console.length else []) m.2.control upper := by
  cases hvisit : t.visit? w.engine rest.length with
  | none => simpa using h.wait hm hs hupper hvisit
  | some visit => simpa using h.step hstart hm hs hvisit

end Progress

end Moves

section Runs

variable {past later : List Transition} {w : World} {x : Transition} {k n : Nat}

theorem visit?_of_other (hmover : x.mover ≠ some k) : x.visit? k n = none :=
  if_neg hmover

theorem visit?_of_thread {t : Thread} (hmover : x.mover = some k)
    (ht : x.before.threads[k]? = some t) : x.visit? k n = t.visit? x.before.engine n := by
  rw [Transition.visit?, if_pos hmover, ht]
  rfl

theorem visits_cons (k n : Nat) (x : Transition) (past : List Transition) :
    visits k n (x :: past) = (x.visit? k n).toList ++ visits k n past := by
  rw [visits, List.filterMap_cons]
  cases x.visit? k n <;> rfl

/-- What lies on an invocation, and what the invocation has done, all along a run in which it is
in progress. -/
theorem progress_of_run {start : Invocation} {t₀ : Thread} {lower : List Activation}
    (h : Run (later ++ x :: past) w) (ht₀ : x.after.threads[k]? = some t₀)
    (hgo : t₀.control = .go) (hs₀ : t₀.stack = .invocation start :: lower)
    (hstart : ∀ calls, start.phase ≠ .rendering calls)
    (hinvokes : ∀ y ∈ later, y.before.Invokes k lower.length) :
    ∃ t upper, w.threads[k]? = some t ∧ t.stack = upper ++ lower ∧
      Progress start (visits k lower.length later) (written k lower.length later) t.control
        upper := by
  induction later generalizing w with
  | nil =>
    obtain rfl : x.after = w := by
      cases h
      rfl
    exact ⟨t₀, [_], ht₀, hs₀, ⟨some start, .begun, .innermost (by simp [hgo])⟩, rfl, by simp⟩
  | cons y later ih =>
    cases h with
    | @step _ w₀ _ mover hbefore hstep =>
      have hlater : ∀ {z : Transition}, z ∈ later → z ∈ ⟨w₀, mover, w⟩ :: later :=
        List.mem_cons_of_mem _
      obtain ⟨t, upper, ht, hs, hprogress⟩ := ih hbefore fun z hz => hinvokes z (hlater hz)
      obtain ⟨t', i, ht', hmem, hheight⟩ := (hinvokes _ List.mem_cons_self).exists_thread
      obtain rfl : t' = t := Option.some.inj (ht'.symm.trans ht)
      have hupper : upper ≠ [] := by
        rintro rfl
        simp [hs] at hheight
      by_cases hmover : mover = some k
      · subst hmover
        cases hstep with
        | move hfree hmove =>
          obtain ⟨t, ht₁, m, hm, rfl⟩ := mem_next.mp hmove
          obtain rfl : t' = t := Option.some.inj (ht.symm.trans ht₁)
          obtain ⟨upper, hstack, hprogress⟩ := hprogress.move hstart hm hs hupper
          refine ⟨m.2, upper, thread_of_moves ht hm, hstack, ?_⟩
          rw [visits_cons, written, visit?_of_thread rfl ht]
          exact hprogress
      · refine ⟨t', upper, invokes_stays hstep ht hmem hmover, hs, ?_⟩
        rw [visits_cons, written, visit?_of_other hmover]
        simpa using hprogress

theorem Transition.commences (h : x.mover = some k ∧
    ((x.before.stackOf k).head?.bind x.before.orderAt).isSome = true ∧
    (x.after.threads[k]?.bind (Thread.visit? x.after.engine n)).isSome = true) :
    x.Commences k n (Option.get _ h.2.1) :=
  ⟨h.1, (Option.some_get h.2.1).symm, h.2.2⟩

/-- Where an order is given to the engine, a thread has come to an invocation of the order and
has taken no step of it. -/
theorem Transition.Commences.thread {o : Order} (h : x.Commences k n o)
    (hstep : Step x.before x.mover x.after) : ∃ (e : Engine) (frame : FrameInfo)
      (addToHistory outermost : Bool) (t : Thread) (rest : List Activation),
      x.after.threads[k]? = some t ∧ t.control = .go ∧ rest.length = n ∧ t.stack = .invocation
        (e.invoke frame (o.command.prepared o.options) addToHistory outermost).2 :: rest := by
  obtain ⟨hmover, horder, hbegun⟩ := h
  rw [hmover] at hstep
  cases hstep with
  | move hfree hmove =>
    obtain ⟨t, ht, m, hm, heq⟩ := mem_next.mp hmove
    rw [heq, thread_of_moves ht hm, Option.bind_some, Option.isSome_iff_exists] at hbegun
    obtain ⟨⟨e, i⟩, hvisit⟩ := hbegun
    obtain ⟨rest, hgo, hstack, hlength, -⟩ := visit?_eq_some hvisit
    obtain ⟨a, below, hs, -⟩ := local_of_moves hm
    have hgiven : x.before.orderAt a = some o := by
      rwa [stackOf_of_thread ht, hs] at horder
    obtain ⟨e', frame, addToHistory, outermost, rfl⟩ := runs_of_moves hs hm hgiven i rest hgo hstack
    rw [heq]
    exact ⟨e', frame, addToHistory, outermost, m.2, rest, thread_of_moves ht hm, hgo, hlength,
      hstack⟩

/-- What comes on the console in the steps of an invocation is what it renders, in order, and all
of that once it has returned. No value of its output is rendered twice. No error record is
rendered twice if and only if errors do not join the output, or no rendering but the last finds
any. -/
theorem error_records_once_iff {o : Order} (h : Run (later ++ x :: past) w)
    (hcommences : x.Commences k n o) (hinvokes : ∀ y ∈ later, y.before.Invokes k n) :
    let shown := renderings (visits k n later)
    (written k n later <+: (linesOf shown).filterMap HostCall.entry? ∧
      (w.Returned k n → written k n later = (linesOf shown).filterMap HostCall.entry?)) ∧
      (∀ generation place, timesOutput generation place shown ≤ 1) ∧
      ((∀ place, timesError place shown ≤ 1) ↔
        (o.command.prepared o.options).mergesErrors = false ∨
          ∀ r ∈ shown.dropLast, r.2.errors = []) := by
  obtain ⟨e, frame, addToHistory, outermost, t₀, lower, ht₀, hgo, rfl, hs₀⟩ :=
    hcommences.thread (run_before h).2
  have hstart : ∀ calls,
      (e.invoke frame (o.command.prepared o.options) addToHistory outermost).2.phase ≠
        .rendering calls := by
    intro calls
    cases outermost <;> exact Phase.noConfusion
  obtain ⟨t, upper, ht, hs, hprogress⟩ := progress_of_run h ht₀ hgo hs₀ hstart hinvokes
  obtain ⟨state, hcourse, -⟩ := hprogress.course
  obtain ⟨htold, -⟩ := hcourse.shown hstart
  refine ⟨⟨?_, ?_⟩, htold.output_once, htold.error_once_iff⟩
  · rw [hprogress.entries]
    exact htold.lines.filterMap HostCall.entry?
  · rintro ⟨t', ht', hlength, hgives⟩
    obtain rfl : t' = t := Option.some.inj (ht'.symm.trans ht)
    have hupper : upper = [] := by
      rw [hs, List.length_append] at hlength
      exact List.length_eq_zero_iff.mp (by omega)
    rw [hprogress.entries, hprogress.returned hupper hgives]

/-- An error joins an output that is rendered once. -/
theorem error_records_once_of_one_rendering : ∃ later x past w o, Run (later ++ x :: past) w ∧
    x.Commences 1 2 o ∧ (∀ y ∈ later, y.before.Invokes 1 2) ∧ w.Returned 1 2 ∧
    (o.command.prepared o.options).mergesErrors = true ∧
    (written 1 2 later).filterMap ConsoleEntry.error? = ["oops"] ∧
    ∀ place, timesError place (renderings (visits 1 2 later)) ≤ 1 := by
  have hstart : Run [] _ := @Run.start {} {} _ rfl rfl rfl
  have hreturned := run_of_follow (hstart.step (.call (.execute
    { command := .ofScript "write-error oops | echo x"
      options := { writeOutput := true, writeErrors := true } })))
    (List.replicate 10 0 ++ List.replicate 11 1)
  have hsplit := hreturned.split (j := 10) (by decide +kernel)
  have hresult := error_records_once_iff (k := 1) (n := 2) hsplit
    (Transition.commences (by decide +kernel)) (by decide +kernel)
  exact ⟨_, _, _, _, _, hsplit, Transition.commences (by decide +kernel), by decide +kernel,
    by decide +kernel, by decide +kernel, by decide +kernel,
    hresult.2.2.mpr (.inr (by decide +kernel))⟩

/-- An error is written by the rendering that follows it, and once more by the one that ends the
pipeline. -/
theorem error_record_twice : ∃ later x past w o, Run (later ++ x :: past) w ∧
    x.Commences 1 2 o ∧ (∀ y ∈ later, y.before.Invokes 1 2) ∧ w.Returned 1 2 ∧
    o.command.text = "write-error oops | Out-Default | echo x" ∧
    (visits 1 2 later).head?.map (·.2.errors) = some ["oops"] ∧
    (written 1 2 later).filterMap ConsoleEntry.error? = ["oops", "oops"] ∧
    timesError 0 (renderings (visits 1 2 later)) = 2 := by
  have hstart : Run [] _ := @Run.start {} {} _ rfl rfl rfl
  have hreturned := run_of_follow (hstart.step (.call (.execute
    { command := ⟨[{ text := "write-error oops", script := true }, .rendering,
        { text := "echo x", script := true }]⟩
      options := { writeOutput := true, writeErrors := true } })))
    (List.replicate 10 0 ++ List.replicate 14 1)
  exact ⟨_, _, _, _, _, hreturned.split (j := 13) (by decide +kernel),
    Transition.commences (by decide +kernel), by decide +kernel⟩

end Runs

end Service

end ScriptHost
