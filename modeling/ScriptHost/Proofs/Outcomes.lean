import ScriptHost.Proofs.EngineConcurrency

/-!
What activations hand to each other. Every activation ends in one of a few manners, and
the one below it is ready for just these. So a thread never comes to a stop because an
outcome reaches an activation that has no use for it, no panic reaches a prompt that
reads, and a lease for reading goes to a prompt only. Whether orders that were run can
come to a cancellation depends on the engine alone; that part is left to a parameter.
-/

namespace ScriptHost

/-- No fault that waits for a command is a cancellation. -/
def Engine.Firm (e : Engine) : Prop :=
  ∀ f ∈ e.refusals, f.2 ≠ .cancelled

theorem Engine.Firm.ne_cancelled {e e' : Engine} {call : EngineCall} {error : EngineError}
    (h : e.Firm) (hcall : call = .invoke ∨ call = .debuggerCommand)
    (hfault : e.takeFault call = some (error, e')) : error ≠ .cancelled := by
  obtain ⟨f, hfound, heq⟩ := Option.map_eq_some_iff.mp hfault
  cases heq
  have hname : f.1 = call := by simpa using List.find?_some hfound
  refine h f (List.mem_filter.mpr ⟨List.mem_of_find?_eq_some hfound, ?_⟩)
  rw [hname]
  rcases hcall with rfl | rfl <;> rfl

namespace Invocation

/-- An invocation that has no call for an idle tick to make, and no cancellation to end with if
the engine is `firm`. -/
def Clean (firm : Prop) (i : Invocation) : Prop :=
  match i.phase with
  | .rendering calls => ∀ c ∈ calls, c ≠ .idle
  | .closing r | .ending r => firm → r ≠ .error .cancelled
  | _ => True

/-- What a clean invocation does next. -/
def CleanMove (firm : Prop) : Move → Prop
  | .advance i | .sleep _ i => i.Clean firm
  | .call c i => c ≠ .idle ∧ i.Clean firm
  | .finish r => firm → r ≠ .error .cancelled
  | .panic _ => True

variable {firm : Prop} {e : Engine} {i : Invocation}

theorem clean_fail (i : Invocation) {error : EngineError} (h : error ≠ .cancelled) :
    (i.fail error).Clean firm := by
  intro _ heq
  exact h (Except.error.inj heq)

theorem cleanMove_builtin (b : Builtin) (arguments : List Value) :
    CleanMove firm (i.runBuiltin e b arguments).2 := by
  unfold runBuiltin
  split
  case h_2 =>
    split
    · trivial
    · exact clean_fail i (by simp)
    · trivial
  case h_4 => exact clean_fail i (by simp)
  case h_10 =>
    split
    · exact clean_fail i (by simp)
    · trivial
  all_goals first | trivial | exact ⟨by simp, trivial⟩

theorem cleanMove_job (job : Job) : CleanMove firm (i.runJob e job).2 := by
  unfold runJob
  split
  · intro c hc
    simp only [renderCalls, List.mem_append, List.mem_map] at hc
    rcases hc with ⟨v, -, rfl⟩ | hc
    · simp
    · split at hc
      · obtain ⟨v, -, rfl⟩ := List.mem_map.mp hc
        simp
      · cases hc
  · split
    · exact cleanMove_builtin _ _
    · exact clean_fail i (by simp [unknownTerm])

theorem cleanMove_stopped {otherwise : Engine × Move} (h : CleanMove firm otherwise.2) :
    CleanMove firm (i.stopped? e otherwise).2 := by
  unfold stopped?
  split
  · exact clean_fail i (by simp)
  · exact h

theorem cleanMove_step (h : i.Clean firm) : CleanMove firm (i.step e).2 := by
  unfold Clean at h
  unfold step
  split
  case h_1 => exact ⟨by simp, trivial⟩
  case h_2 =>
    split
    · intro _ heq
      cases heq
    · exact cleanMove_stopped (cleanMove_job _)
  case h_3 => trivial
  case h_4 c calls hphase =>
    rw [hphase] at h
    exact ⟨h c List.mem_cons_self, fun c' hc' => h c' (List.mem_cons_of_mem c hc')⟩
  case h_5 hphase =>
    simp only [CleanMove, Clean, hphase]
  case h_6 => exact cleanMove_stopped trivial
  case h_7 => exact cleanMove_stopped trivial
  case h_8 r hphase =>
    rw [hphase] at h
    dsimp only
    split
    · refine ⟨?_, h⟩
      unfold finalCall
      split <;> simp
    · exact h
  case h_9 r hphase =>
    rw [hphase] at h
    exact h

theorem clean_resume (action : ResumeAction) : (i.resume e action).2.Clean firm := by
  unfold resume
  dsimp only
  split
  · exact clean_fail i (by simp)
  · trivial

theorem clean_invoke (frame : FrameInfo) (c : Command) (addToHistory outermost : Bool) :
    (e.invoke frame c addToHistory outermost).2.Clean firm := by
  cases outermost <;> trivial

end Invocation

namespace Service

/-- The manners in which an activation can end. A `result` is the reply of an order that was
run or refused; other replies are those of calls. -/
inductive Manner where
  | unit
  | action
  | evaluated
  | debugged
  | read
  | line
  | result
  | reply
  | lease (forReading : Bool)
  | popped
  | panic
  deriving DecidableEq

/-- Whether a control brings an end of some manner. If the engine is `firm`, nothing that was
run comes to a cancellation. -/
def Control.Brings (firm : Prop) (c : Control) : Manner → Prop
  | .unit => c = .back .unit
  | .action => ∃ action, c = .back (.action action)
  | .evaluated => ∃ r, c = .back (.evaluated r) ∧ (firm → r ≠ .error .cancelled)
  | .debugged => ∃ r, c = .back (.debugged r) ∧ (firm → r ≠ .error .cancelled)
  | .read => ∃ r, c = .back (.read r)
  | .line => ∃ r, c = .back (.line r)
  | .result => ∃ r, c = .back (.reply r) ∧ (firm → r ≠ .error .cancelled)
  | .reply => ∃ r, c = .back (.reply r)
  | .lease forReading => ∃ r, c = .back (.lease r) ∧ ∀ h, r = .ok h → h.forReading = forReading
  | .popped => ∃ r, c = .back (.popped r)
  | .panic => ∃ p, c = .unwind p

/-- How an activation can end by itself. -/
@[simp]
def Activation.yields : Activation → List Manner
  | .invocation _ => [.evaluated, .panic]
  | .reading _ _ | .readWorker _ _ _ => [.read]
  | .debuggerCommand => [.debugged, .panic]
  | .leased _ | .inLoop _ _ | .entering _ (.order _) | .starting _ _ => [.result, .panic]
  | .entering _ (.request _) | .request _ | .idleRun => [.unit]
  | .loop _ _ => [.unit, .action]
  | .getHandle _ forReading _ => [.lease forReading]
  | .exec _ _ => [.reply, .panic]
  | .readTask _ _ => [.line]
  | .handleTask _ _ => [.lease false]
  | .abort _ | .dispose _ | .held _ => [.unit]
  | .popRunspace _ _ => [.popped, .panic]
  | .pushRunspace _ _ | .track _ | .reentrant => [.unit, .panic]
  | .pushed _ _ _ | .worker _ => []

/-- The ends for which an activation is ready when it waits for the one above it. -/
@[simp]
def Activation.takes : Activation → List Manner
  | .invocation _ => [.unit, .action, .panic]
  | .reading _ _ | .idleRun | .loop _ _ => [.unit]
  | .debuggerCommand | .leased _ => [.evaluated, .panic]
  | .inLoop _ _ => [.debugged, .panic]
  | .request _ | .exec _ .inline | .worker _ => [.result, .panic]
  | .pushed _ _ _ => [.unit, .result, .panic]
  | .exec _ .leasing | .handleTask _ true => [.lease false]
  | .exec _ (.finishing _) => [.unit, .panic]
  | .readTask _ .leasing => [.lease true]
  | .readWorker _ _ .reading => [.read]
  | .readWorker _ _ (.drained _) => [.unit]
  | .track _ => [.popped, .panic]
  | .reentrant => [.reply, .panic]
  | _ => []

/-- Activations that hand on what they are given. -/
def Activation.handsOn : Activation → Bool
  | .pushed _ _ _ | .worker _ => true
  | _ => false

/-- Whether a stack is ready for an end above it. What a thread can end with is `final`. -/
def Takes (final : Manner → Prop) : List Activation → Manner → Prop
  | [], manner => final manner
  | a :: rest, manner => manner ∈ a.takes ∧ (a.handsOn = true → Takes final rest manner)

/-- What else holds of an activation where it sits: a prompt that reads sits on its reader, and
the run of a parked request on one of the two. -/
def Activation.Rests (firm : Prop) : Activation → List Activation → Prop
  | .invocation i, _ => i.Clean firm
  | .exec _ (.finishing r), _ => firm → r ≠ .error .cancelled
  | .reading read _, rest => ∃ h below, rest = .readWorker h read .reading :: below
  | .idleRun, rest => (∃ read waiting below, rest = .reading read waiting :: below) ∨
      ∃ h read r below, rest = .readWorker h read (.drained r) :: below
  | _, _ => True

/-- Every activation of a stack is ready for the ends of the one above it. -/
def Typed (firm : Prop) (final : Manner → Prop) : List Activation → Prop
  | [] => True
  | a :: rest => (∀ manner ∈ a.yields, Takes final rest manner) ∧ a.Rests firm rest ∧
      Typed firm final rest

/-- A thread whose stack is typed and ready for what is on its way to it. -/
structure Thread.Typed (firm : Prop) (final : Manner → Prop) (t : Thread) : Prop where
  stack : Service.Typed firm final t.stack
  control : t.control = .go ∨ (t.control = .dropped ∧ t.stack = []) ∨
    ∃ manner, t.control.Brings firm manner ∧ Takes final t.stack manner

section Ends

variable {firm : Prop} {final : Manner → Prop} {a a' b : Activation} {rest : List Activation}
  {t : Thread}

theorem Typed.replace (h : Typed firm final (a :: rest)) (hyields : a'.yields ⊆ a.yields)
    (hrests : a'.Rests firm rest) : Typed firm final (a' :: rest) :=
  ⟨fun manner hmem => h.1 manner (hyields hmem), hrests, h.2.2⟩

theorem Typed.push (a : Activation) (h : Typed firm final rest)
    (hready : ∀ manner ∈ a.yields, Takes final rest manner)
    (hrests : a.Rests firm rest) : Typed firm final (a :: rest) :=
  ⟨hready, hrests, h⟩

theorem takes_of_mem {manner : Manner} (hmem : manner ∈ a.takes) (hown : a.handsOn = false) :
    Takes final (a :: rest) manner :=
  ⟨hmem, by simp [hown]⟩

/-- An activation that sits on one which is ready for all its ends. -/
theorem Typed.above (b : Activation) (h : Typed firm final (a :: rest))
    (hready : b.yields ⊆ a.takes) (hown : a.handsOn = false) (hrests : b.Rests firm (a :: rest)) :
    Typed firm final (b :: a :: rest) :=
  h.push b (fun _ hmem => takes_of_mem (hready hmem) hown) hrests

/-- The innermost activation goes on as others. -/
theorem Thread.Typed.go {s : List Activation} (h : Service.Typed firm final s) :
    (t.goOn s).Typed firm final :=
  ⟨h, Or.inl rfl⟩

theorem Thread.Typed.ended {t' : Thread} (h : Service.Typed firm final (a :: rest))
    (manner : Manner) (hmanner : manner ∈ a.yields) (hstack : t'.stack = rest)
    (hbrings : t'.control.Brings firm manner) : t'.Typed firm final := by
  refine ⟨hstack ▸ h.2.2, Or.inr (Or.inr ⟨manner, hbrings, ?_⟩)⟩
  rw [hstack]
  exact h.1 manner hmanner

theorem Thread.Typed.given (h : t.Typed firm final) (hgo : t.control ≠ .go)
    (hdropped : t.control ≠ .dropped) :
    ∃ manner, t.control.Brings firm manner ∧ Takes final t.stack manner :=
  (h.control.resolve_left hgo).resolve_left fun h => hdropped h.1

theorem Thread.Typed.takes_panic {p : Panic} (h : t.Typed firm final) (hs : t.stack = a :: rest)
    (hp : t.control = .unwind p) : Takes final (a :: rest) .panic := by
  obtain ⟨manner, hbrings, htakes⟩ := h.given (by simp [hp]) (by simp [hp])
  rw [hp] at hbrings
  rw [hs] at htakes
  cases manner <;> simp_all [Control.Brings]

end Ends

end Service

end ScriptHost
