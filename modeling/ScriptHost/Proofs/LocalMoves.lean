import ScriptHost.Proofs.EngineSteps
import ScriptHost.Proofs.HandOvers
import ScriptHost.Proofs.LeaseAccounts

/-!
What a move does around the innermost activation. A move replaces that activation by a few
others and leaves the rest of the stack. What it does to the engine, to the leases that
the stack holds, and to the invocations and loops in it is told here for such a
replacement, so that each kind of activation is looked at once.
-/

namespace ScriptHost

namespace Service

/-- The lease that an execution holds. -/
def ExecPhase.handle? : ExecPhase → Option Handle
  | checkingOwner h | checkingPopped h | refusing h | rerouting h | spawning h => some h
  | _ => none

def ReadTaskPhase.handle? : ReadTaskPhase → Option Handle
  | registering h | spawning h _ => some h
  | _ => none

/-- The lease that an activation holds. -/
def Activation.lease? : Activation → Option (Nat × Nat)
  | .pushed _ h _ | .starting h _ | .worker h | .readWorker h _ _ => some h.lease
  | .getHandle _ _ (.marking frame invoker) => some (frame, invoker)
  | .exec _ phase => phase.handle?.map Handle.lease
  | .readTask _ phase => phase.handle?.map Handle.lease
  | _ => none

/-- The lease that is on its way to the innermost activation. -/
def Control.lease? : Control → Option (Nat × Nat)
  | .back (.lease (.ok h)) => some h.lease
  | _ => none

/-- Whether nothing but a reply, a result or a panic is on its way: no lease, and no action of
a debugger. -/
def Control.bare : Control → Bool
  | .back (.lease (.ok _)) | .back (.action _) => false
  | _ => true

theorem lease_of_bare {c : Control} (h : c.bare) : c.lease? = none := by
  unfold Control.bare at h
  unfold Control.lease?
  split at h <;> simp_all

theorem ne_action_of_bare {c : Control} (h : c.bare) (action : ResumeAction) :
    c ≠ .back (.action action) := by
  rintro rfl
  cases h

/-- The frame and ticket with which an activation waits. -/
def Activation.wait? : Activation → Option (Nat × Nat)
  | .getHandle _ _ (.waiting frame ticket) => some (frame, ticket)
  | _ => none

/-- The frame that an activation is about to ask for its lease. -/
def Activation.asked? : Activation → Option Nat
  | .getHandle _ _ (.asking frame) => some frame
  | _ => none

def leases (s : List Activation) : Multiset (Nat × Nat) :=
  s.filterMap Activation.lease?

def waits (s : List Activation) : Multiset (Nat × Nat) :=
  s.filterMap Activation.wait?

def asked (s : List Activation) : List Nat :=
  s.filterMap Activation.asked?

/-- The invocations in a stack, innermost first. -/
def invocations (s : List Activation) : List Invocation :=
  s.filterMap fun
    | .invocation i => some i
    | _ => none

/-- The frames on which outermost invocations of a stack are in progress. -/
def frames (s : List Activation) : Multiset Nat :=
  ((invocations s).filter Invocation.inProgress).map (·.frame.id)

/-- The frame on which a move from `s` to `s'` starts an outermost invocation. -/
def starts? (s s' : List Activation) : Option Nat :=
  if (invocations s).length < (invocations s').length then
    (invocations s').head?.bind fun i => if i.outermost then some i.frame.id else none
  else none

/-- Whether a move from `s` to `s'` leaves an invocation that is still in progress. -/
def breaks (s s' : List Activation) : Bool :=
  decide ((invocations s').length < (invocations s).length) &&
    (invocations s).head?.any Invocation.inProgress

/-- How the engine's count of outermost invocations follows those in a stack. -/
inductive Counts (e : Engine) (s : List Activation) (e' : Engine) (s' : List Activation) : Prop
  | same (hstarts : starts? s s' = none) (hbreaks : breaks s s' = false)
      (hactive : e'.active = e.active) (hpeak : e'.peak = e.peak) (hframes : frames s' = frames s)
  | started (frame : Nat) (hstarts : starts? s s' = some frame) (hbreaks : breaks s s' = false)
      (hactive : e'.active = e.active + 1) (hpeak : e'.peak = max e.peak (e.active + 1))
      (hframes : frames s' = frame ::ₘ frames s)
  | ended (frame : Nat) (hstarts : starts? s s' = none) (hbreaks : breaks s s' = false)
      (hactive : e'.active = e.active - 1) (hpeak : e'.peak = e.peak)
      (hframes : frames s = frame ::ₘ frames s')
  | broken (frame : Nat) (hstarts : starts? s s' = none) (hbreaks : breaks s s' = true)
      (hactive : e'.active = e.active) (hpeak : e'.peak = e.peak)
      (hframes : frames s = frame ::ₘ frames s')

def onLoop : List Activation → Bool
  | .loop _ _ :: _ => true
  | _ => false

/-- The lease under which an invocation that sits on a stack runs. -/
def leaseBelow? : List Activation → Option Handle
  | .leased _ :: .worker h :: _ => some h
  | .leased _ :: .pushed _ h _ :: _ => some h
  | .leased _ :: .request _ :: .pushed _ h _ :: _ => some h
  | _ => none

/-- Only a request sits on a loop, and a loop sits on an invocation that has not ended. An
outermost invocation runs under a lease of its frame, and an order that waits for a frame
waits for someone. -/
def Activation.SitsOn (a : Activation) (rest : List Activation) : Prop :=
  (onLoop rest = true → ∃ id, a = .request id) ∧
    match a with
    | .invocation i => i.outermost = true →
      invocations rest = [] ∧ ∃ h, leaseBelow? rest = some h ∧ i.frame.id = h.invoker
    | .loop _ _ => ∃ i below, rest = .invocation i :: below ∧ i.inProgress = i.outermost
    | .entering _ (.order _) => (asker? 0 rest).isSome = true
    | _ => True

def Sits : List Activation → Prop
  | [] => True
  | a :: rest => a.SitsOn rest ∧ Sits rest

/-- What holds of a thread `k`: its activations sit on each other as they should, no panic
reaches a loop, a debugger's action reaches an invocation that has not ended, the depth of the
thread counts its invocations, and the loops that are registered for it are in its stack. -/
structure Fit (loops : List MessageLoop) (k : Nat) (c : Control) (depth : Nat)
    (s : List Activation) : Prop where
  sits : Sits s
  calm : onLoop s = true → ∀ p, c ≠ .unwind p
  acted : ∀ action, c = .back (.action action) →
    ∃ i below, s = .invocation i :: below ∧ i.inProgress = i.outermost
  depth_eq : depth = (invocations s).length
  manned : ∀ l ∈ loops, l.thread = k → ∃ phase, .loop l.id phase ∈ s ∧ phase.pumps = true

/-- The order that an activation can hand to the engine. -/
def World.orderAt (w : World) : Activation → Option Order
  | .starting _ o | .entering _ (.order o) | .exec o .routing => some o
  | .entering _ (.request r) => some (.ofRequest r)
  | .loop id _ => ((w.findLoop id).bind fun l => l.requests.head?).map .ofRequest
  | _ => none

/-- How the leases of a nest follow those of a stack: what was accounted for stays so, except
that a stack may lose leases and tickets that it held. -/
def Settles (n : Nest) (live waiting : Multiset (Nat × Nat)) (asking : List Nat) (n' : Nest)
    (live' waiting' : Multiset (Nat × Nat)) (asking' : List Nat) : Prop :=
  n.frames.length ≤ n'.frames.length ∧
  ∀ held queued, (∀ f ∈ asking, f < n.frames.length) →
    n.Accounted (live + held) (waiting + queued) →
    (∃ lost left, n'.Accounted (live' + (lost + held)) (waiting' + (left + queued))) ∧
      ∀ f ∈ asking', f < n'.frames.length

/-- A move of thread `k` that replaces the innermost activation `a` by `new` and starts the
threads `started`. -/
structure Local (w : World) (k : Nat) (t : Thread) (a : Activation) (rest : List Activation)
    (m : World × Thread) (new : List Activation) (started : List Thread) : Prop where
  stack_eq : m.2.stack = new ++ rest
  threads_eq : m.1.threads = w.threads ++ started
  engine : if engaged [a] < engaged new then
      ∃ o, w.orderAt a = some o ∧ w.engine.Given (o.command.prepared o.options) m.1.engine
    else w.engine.Aside m.1.engine
  counts : Fit w.loops k t.control t.depth (a :: rest) →
    Counts w.engine (a :: rest) m.1.engine (new ++ rest)
  nest : Settles w.nest (leases [a] + (t.control.lease?.toList : Multiset (Nat × Nat)))
    (waits [a]) (asked [a]) m.1.nest
    (leases new + (m.2.control.lease?.toList : Multiset (Nat × Nat)) +
      (started.map fun t => leases t.stack).sum) (waits new) (asked new)
  fit : Fit w.loops k t.control t.depth (a :: rest) →
    Fit m.1.loops k m.2.control m.2.depth (new ++ rest)
  others : ∀ l' ∈ m.1.loops, l'.thread ≠ k → ∃ l ∈ w.loops, l.id = l'.id ∧ l.thread = l'.thread

/-- Activations without a part in how activations sit on each other. -/
def Activation.inert : Activation → Bool
  | .invocation _ | .loop _ _ | .request _ | .entering _ (.order _) => false
  | _ => true

/-- Activations on whose end nothing depends: no invocation, no loop, and no request, which may
sit on a loop. -/
def Activation.passing : Activation → Bool
  | .invocation _ | .loop _ _ | .request _ => false
  | _ => true

/-- Inert activations that hold no lease and no order that the engine was given, and that do
not stand in line for a lease. -/
def Activation.simple : Activation → Bool
  | .reading _ _ | .debuggerCommand | .idleRun | .handleTask _ _ | .pushRunspace _ _
  | .popRunspace _ _ | .track _ | .abort _ | .dispose _ | .held _ | .reentrant
  | .entering _ (.request _) | .getHandle _ _ .choosing => true
  | .exec _ phase => phase.handle?.isNone
  | .readTask _ phase => phase.handle?.isNone
  | _ => false

section Simple

variable {a : Activation} {new rest : List Activation}

theorem invocations_append (top rest : List Activation) :
    invocations (top ++ rest) = invocations top ++ invocations rest :=
  List.filterMap_append

theorem leases_append (top rest : List Activation) :
    leases (top ++ rest) = leases top + leases rest := by
  rw [leases, List.filterMap_append]
  rfl

theorem waits_append (top rest : List Activation) :
    waits (top ++ rest) = waits top + waits rest := by
  rw [waits, List.filterMap_append]
  rfl

theorem asked_append (top rest : List Activation) :
    asked (top ++ rest) = asked top ++ asked rest :=
  List.filterMap_append

theorem inert_of_simple (h : a.simple) : a.inert := by
  cases a with
  | entering frame work => cases work <;> first | rfl | cases h
  | invocation | loop | request => cases h
  | _ => rfl

theorem passing_of_inert (h : a.inert) : a.passing := by
  cases a <;> first | rfl | cases h

theorem all_inert_of_simple (h : new.all Activation.simple) : new.all Activation.inert := by
  rw [List.all_eq_true] at h ⊢
  exact fun a ha => inert_of_simple (h a ha)

theorem lease_of_simple (h : a.simple) : a.lease? = none := by
  cases a with
  | exec o phase => exact Option.map_eq_none_iff.mpr (Option.isNone_iff_eq_none.mp h)
  | readTask token phase => exact Option.map_eq_none_iff.mpr (Option.isNone_iff_eq_none.mp h)
  | getHandle token reading phase => cases phase <;> first | rfl | cases h
  | _ => first | rfl | cases h

theorem leases_of_simple (h : new.all Activation.simple) : leases new = 0 := by
  rw [leases, List.filterMap_eq_nil_iff.mpr]
  · rfl
  · exact fun a ha => lease_of_simple (List.all_eq_true.mp h a ha)

theorem waits_of_simple (h : new.all Activation.simple) : waits new = 0 := by
  rw [waits, List.filterMap_eq_nil_iff.mpr]
  · rfl
  · intro a ha
    have hsimple := List.all_eq_true.mp h a ha
    cases a with
    | getHandle token reading phase => cases phase <;> first | rfl | cases hsimple
    | _ => rfl

theorem asked_of_simple (h : new.all Activation.simple) : asked new = [] := by
  apply List.filterMap_eq_nil_iff.mpr
  intro a ha
  have hsimple := List.all_eq_true.mp h a ha
  cases a with
  | getHandle token reading phase => cases phase <;> first | rfl | cases hsimple
  | _ => rfl

theorem engaged_of_simple (h : new.all Activation.simple) : engaged new = 0 := by
  apply List.countP_eq_zero.mpr
  intro a ha
  have hsimple := List.all_eq_true.mp h a ha
  cases a with
  | leased options => cases hsimple
  | inLoop loop options => cases hsimple
  | _ => simp

theorem invocations_of_inert (h : new.all Activation.inert) : invocations new = [] := by
  apply List.filterMap_eq_nil_iff.mpr
  intro a ha
  have hinert := List.all_eq_true.mp h a ha
  cases a <;> first | rfl | cases hinert

/-- The rest of a stack on which something other than a request sits has no loop at its top. -/
theorem Activation.SitsOn.not_onLoop (h : a.SitsOn rest) (ha : ∀ id, a ≠ .request id) :
    onLoop rest = false := by
  by_contra hloop
  rw [Bool.not_eq_false] at hloop
  obtain ⟨id, hid⟩ := h.1 hloop
  exact ha id hid

theorem not_onLoop_of_passing (ha : a.passing) (h : a.SitsOn rest) : onLoop rest = false := by
  refine h.not_onLoop ?_
  rintro id rfl
  cases ha

theorem sitsOn_of_inert (h : a.inert) (hloop : onLoop rest = false) : a.SitsOn rest := by
  refine ⟨fun hon => absurd (hloop.symm.trans hon) (by simp), ?_⟩
  cases a with
  | entering frame work =>
    cases work with
    | request r => trivial
    | order o => cases h
  | invocation i => cases h
  | loop id phase => cases h
  | _ => trivial

theorem onLoop_of_inert (h : new.all Activation.inert) (hloop : onLoop rest = false) :
    onLoop (new ++ rest) = false := by
  cases new with
  | nil => exact hloop
  | cons a new =>
    simp only [List.all_cons, Bool.and_eq_true] at h
    cases a <;> first | rfl | cases h.1

theorem sits_append (h : Sits rest) (hnew : new.all Activation.inert)
    (hloop : onLoop rest = false) : Sits (new ++ rest) := by
  induction new with
  | nil => exact h
  | cons a new ih =>
    simp only [List.all_cons, Bool.and_eq_true] at hnew
    exact ⟨sitsOn_of_inert hnew.1 (onLoop_of_inert hnew.2 hloop), ih hnew.2⟩

theorem loop_mem_rest {id : Nat} {phase : LoopPhase} (ha : ∀ id phase, a ≠ .loop id phase)
    (hmem : .loop id phase ∈ a :: rest) : .loop id phase ∈ rest := by
  rcases List.mem_cons.mp hmem with rfl | hmem
  · exact absurd rfl (ha id phase)
  · exact hmem

end Simple

section Settles

variable {n : Nest} {live live' waiting waiting' : Multiset (Nat × Nat)} {asking asking' : List Nat}

/-- A change of the nest that leaves all that is accounted for. -/
theorem Settles.of_accounted {n' : Nest} (hlength : n.frames.length ≤ n'.frames.length)
    (h : ∀ live waiting, n.Accounted live waiting → n'.Accounted live waiting)
    (hlive : live' ≤ live) (hwaiting : waiting' ≤ waiting) (hasking : ∀ f ∈ asking', f ∈ asking) :
    Settles n live waiting asking n' live' waiting' asking' := by
  refine ⟨hlength, ?_⟩
  intro held queued hmade haccounted
  obtain ⟨lost, rfl⟩ := Multiset.le_iff_exists_add.mp hlive
  obtain ⟨left, rfl⟩ := Multiset.le_iff_exists_add.mp hwaiting
  rw [add_assoc, add_assoc] at haccounted
  exact ⟨⟨lost, left, h _ _ haccounted⟩, fun f hf => (hmade f (hasking f hf)).trans_le hlength⟩

/-- A nest that stays, with a stack that holds no more than before. -/
theorem Settles.keep (hlive : live' ≤ live) (hwaiting : waiting' ≤ waiting)
    (hasking : ∀ f ∈ asking', f ∈ asking) :
    Settles n live waiting asking n live' waiting' asking' :=
  .of_accounted (le_refl _) (fun _ _ h => h) hlive hwaiting hasking

end Settles

section Counts

variable {e e' : Engine} {s s' : List Activation}

theorem Counts.of_same (hactive : e'.active = e.active) (hpeak : e'.peak = e.peak)
    (h : invocations s' = invocations s) : Counts e s e' s' := by
  refine .same ?_ ?_ hactive hpeak ?_
  · rw [starts?, h, if_neg (Nat.lt_irrefl _)]
  · simp [breaks, h]
  · rw [frames, h, frames]

/-- An invocation started in a stack that had none, or in one that had some. -/
theorem Counts.of_started {i : Invocation} (hstack : invocations s' = i :: invocations s)
    (hprogress : i.inProgress = i.outermost)
    (hactive : e'.active = if i.outermost then e.active + 1 else e.active)
    (hpeak : e'.peak = if i.outermost then max e.peak (e.active + 1) else e.peak) :
    Counts e s e' s' := by
  have hbreaks : breaks s s' = false := by simp [breaks, hstack]
  cases houtermost : i.outermost with
  | true =>
    rw [houtermost] at hactive hpeak hprogress
    refine .started i.frame.id ?_ hbreaks hactive hpeak ?_
    · simp [starts?, hstack, houtermost]
    · rw [frames, hstack, List.filter_cons_of_pos hprogress]
      rfl
  | false =>
    rw [houtermost] at hactive hpeak hprogress
    refine .same ?_ hbreaks hactive hpeak ?_
    · simp [starts?, hstack, houtermost]
    · rw [frames, hstack, List.filter_cons_of_neg (by simp [hprogress])]
      rfl

/-- The innermost invocation went on to `i'`, and the engine counts it as long as it is in
progress. -/
theorem Counts.of_advanced {i i' : Invocation} {below : List Invocation}
    (hs : invocations s = i :: below) (hs' : invocations s' = i' :: below)
    (hframe : i'.frame = i.frame)
    (hprogress : i'.inProgress = i.inProgress ∧ e'.active = e.active ∨
      i.inProgress = true ∧ i'.inProgress = false ∧ e'.active = e.active - 1)
    (hpeak : e'.peak = e.peak) : Counts e s e' s' := by
  have hstarts : starts? s s' = none := by simp [starts?, hs, hs']
  have hbreaks : breaks s s' = false := by simp [breaks, hs, hs']
  rcases hprogress with ⟨hsame, hactive⟩ | ⟨hbefore, hafter, hactive⟩
  · refine .same hstarts hbreaks hactive hpeak ?_
    rw [frames, frames, hs, hs', List.filter_cons, List.filter_cons, hsame]
    by_cases hi : i.inProgress = true
    · simp [hi, hframe]
    · simp [hi]
  · refine .ended i.frame.id hstarts hbreaks hactive hpeak ?_
    rw [frames, frames, hs, hs', List.filter_cons_of_pos hbefore,
      List.filter_cons_of_neg (by simp [hafter])]
    rfl

/-- The innermost invocation is gone. -/
theorem Counts.of_gone {i : Invocation} (hs : invocations s = i :: invocations s')
    (hactive : e'.active = e.active) (hpeak : e'.peak = e.peak) : Counts e s e' s' := by
  have hstarts : starts? s s' = none := by simp [starts?, hs]
  cases hprogress : i.inProgress with
  | true =>
    refine .broken i.frame.id hstarts (by simp [breaks, hs, hprogress]) hactive hpeak ?_
    rw [frames, hs, List.filter_cons_of_pos hprogress]
    rfl
  | false =>
    refine .same hstarts (by simp [breaks, hs, hprogress]) hactive hpeak ?_
    rw [frames, frames, hs, List.filter_cons_of_neg (by simp [hprogress])]

end Counts

section Local

variable {w : World} {k : Nat} {t : Thread} {a : Activation} {rest new : List Activation}
  {m : World × Thread}

/-- The loops that are registered, each with its thread. -/
def World.posts (w : World) : List (Nat × Nat) :=
  w.loops.map fun l => (l.id, l.thread)

theorem exists_post {w' : World} (h : w'.posts = w.posts) :
    ∀ l' ∈ w'.loops, ∃ l ∈ w.loops, l.id = l'.id ∧ l.thread = l'.thread := by
  intro l' hl'
  have hmem : (l'.id, l'.thread) ∈ w.posts := h ▸ List.mem_map_of_mem hl'
  obtain ⟨l, hl, heq⟩ := List.mem_map.mp hmem
  exact ⟨l, hl, (Prod.mk.inj heq).1, (Prod.mk.inj heq).2⟩

section Fit

variable {loops : List MessageLoop} {c c' : Control} {depth : Nat} {s below : List Activation}

/-- A thread whose loops stay where they are. -/
theorem Fit.repost {w' : World} (h : Fit w.loops k c depth s) (hposts : w'.posts = w.posts) :
    Fit w'.loops k c depth s := by
  refine ⟨h.sits, h.calm, h.acted, h.depth_eq, ?_⟩
  intro l' hl' hthread
  obtain ⟨l, hl, hid, hthread'⟩ := exists_post hposts l' hl'
  rw [← hid]
  exact h.manned l hl (hthread'.trans hthread)

/-- What is left when the innermost activation ends. -/
theorem Fit.tail (h : Fit loops k c depth (a :: below)) (ha : ∀ id phase, a ≠ .loop id phase) :
    Fit loops k .go (invocations below).length below := by
  refine ⟨h.sits.2, by simp, by simp, rfl, ?_⟩
  intro l hl hthread
  obtain ⟨phase, hmem, hpumps⟩ := h.manned l hl hthread
  exact ⟨phase, loop_mem_rest ha hmem, hpumps⟩

theorem Fit.push (h : Fit loops k c depth below) (hloop : onLoop below = false)
    (hnew : new.all Activation.inert) (hacted : ∀ action, c' ≠ .back (.action action)) :
    Fit loops k c' depth (new ++ below) := by
  refine ⟨sits_append h.sits hnew hloop, ?_, fun action haction => absurd haction (hacted action),
    ?_, ?_⟩
  · rw [onLoop_of_inert hnew hloop]
    exact fun hon => absurd hon (by simp)
  · rw [h.depth_eq, invocations_append, invocations_of_inert hnew, List.nil_append]
  · intro l hl hthread
    obtain ⟨phase, hmem, hpumps⟩ := h.manned l hl hthread
    exact ⟨phase, List.mem_append_right new hmem, hpumps⟩

theorem Fit.push_inert (h : Fit loops k c depth below) (hloop : onLoop below = false)
    (ha : a.inert) (hacted : ∀ action, c' ≠ .back (.action action)) :
    Fit loops k c' depth (a :: below) := by
  have hnew : [a].all Activation.inert = true := by simpa using ha
  exact h.push hloop hnew hacted

theorem Fit.push_one (h : Fit loops k c depth below) (hsits : a.SitsOn below)
    (hinvocations : invocations [a] = []) (hloop : onLoop (a :: below) = false)
    (hacted : ∀ action, c' ≠ .back (.action action)) : Fit loops k c' depth (a :: below) := by
  refine ⟨⟨hsits, h.sits⟩, ?_, fun action haction => absurd haction (hacted action), ?_, ?_⟩
  · rw [hloop]
    exact fun hon => absurd hon (by simp)
  · rw [h.depth_eq, ← List.singleton_append, invocations_append, hinvocations, List.nil_append]
  · intro l hl hthread
    obtain ⟨phase, hmem, hpumps⟩ := h.manned l hl hthread
    exact ⟨phase, List.mem_cons_of_mem _ hmem, hpumps⟩

theorem Fit.push_invocation {i : Invocation} (h : Fit loops k c depth below)
    (hsits : (Activation.invocation i).SitsOn below)
    (hacted : ∀ action, c' ≠ .back (.action action)) :
    Fit loops k c' (depth + 1) (.invocation i :: below) := by
  refine ⟨⟨hsits, h.sits⟩, fun hon => absurd hon (by simp [onLoop]),
    fun action haction => absurd haction (hacted action), ?_, ?_⟩
  · rw [h.depth_eq]
    rfl
  · intro l hl hthread
    obtain ⟨phase, hmem, hpumps⟩ := h.manned l hl hthread
    exact ⟨phase, List.mem_cons_of_mem _ hmem, hpumps⟩

/-- An invocation that goes on as another one on the same frame. -/
theorem Fit.advance {i i' : Invocation} (h : Fit loops k c depth (.invocation i :: below))
    (hframe : i'.frame = i.frame) (houtermost : i'.outermost = i.outermost)
    (hacted : ∀ action, c' ≠ .back (.action action)) :
    Fit loops k c' depth (.invocation i' :: below) := by
  have hsits : (Activation.invocation i').SitsOn below := by
    refine ⟨fun hon => ?_, ?_⟩
    · obtain ⟨id, hid⟩ := h.sits.1.1 hon
      cases hid
    · have hlease := h.sits.1.2
      simp only [hframe, houtermost]
      exact hlease
  rw [h.depth_eq]
  exact (h.tail (by simp)).push_invocation hsits hacted

/-- A loop that goes on in another phase. -/
theorem Fit.pump {id : Nat} {phase phase' : LoopPhase}
    (h : Fit loops k c depth (.loop id phase :: below))
    (hpumps : phase.pumps = true → phase'.pumps = true) :
    Fit loops k .go depth (.loop id phase' :: below) := by
  have hloop := h.sits.1.not_onLoop (by simp)
  refine ⟨⟨⟨fun hon => absurd (hloop.symm.trans hon) (by simp), h.sits.1.2⟩, h.sits.2⟩, by simp,
    by simp, h.depth_eq, ?_⟩
  intro l hl hthread
  obtain ⟨phase₁, hmem, hpumps₁⟩ := h.manned l hl hthread
  rcases List.mem_cons.mp hmem with heq | hmem
  · obtain ⟨hid, rfl⟩ := Activation.loop.inj heq
    exact ⟨phase', hid ▸ List.mem_cons_self, hpumps hpumps₁⟩
  · exact ⟨phase₁, List.mem_cons_of_mem _ hmem, hpumps₁⟩

end Fit

/-- A control that is bare or stays brings no lease that was not on its way before. -/
theorem leases_le_of_bare {c c' : Control} (h : c'.bare ∨ c' = c) :
    (c'.lease?.toList : Multiset (Nat × Nat)) ≤ c.lease?.toList := by
  rcases h with h | rfl
  · rw [lease_of_bare h]
    exact Multiset.zero_le _
  · exact le_refl _

/-- A move among inert activations. -/
theorem Local.of_inert {started : List Thread} (new : List Activation) (ha : a.passing)
    (hnew : new.all Activation.inert) (hs : m.2.stack = new ++ rest)
    (hthreads : m.1.threads = w.threads ++ started)
    (hengaged : engaged new ≤ engaged [a]) (hengine : w.engine.Aside m.1.engine)
    (hactive : m.1.engine.active = w.engine.active) (hpeak : m.1.engine.peak = w.engine.peak)
    (hnest : Settles w.nest (leases [a] + (t.control.lease?.toList : Multiset (Nat × Nat)))
      (waits [a]) (asked [a]) m.1.nest
      (leases new + (m.2.control.lease?.toList : Multiset (Nat × Nat)) +
        (started.map fun t => leases t.stack).sum) (waits new) (asked new))
    (hposts : m.1.posts = w.posts)
    (hacted : (∀ action, m.2.control ≠ .back (.action action)) ∨ m.2.control = t.control)
    (hdepth : m.2.depth = t.depth) : Local w k t a rest m new started := by
  have hinvocations : invocations (new ++ rest) = invocations (a :: rest) := by
    rw [invocations_append, invocations_of_inert hnew, List.nil_append]
    cases a <;> first | rfl | cases ha
  have hloop : ∀ id phase, a ≠ .loop id phase := by
    rintro id phase rfl
    cases ha
  refine ⟨hs, hthreads, ?_, fun _ => .of_same hactive hpeak hinvocations, hnest, ?_, ?_⟩
  · rw [if_neg (Nat.not_lt.mpr hengaged)]
    exact hengine
  · intro hfit
    have hdepth' : m.2.depth = (invocations rest).length := by
      rw [hdepth, hfit.depth_eq, ← hinvocations, invocations_append, invocations_of_inert hnew,
        List.nil_append]
    rw [hdepth']
    refine ((hfit.tail hloop).push (not_onLoop_of_passing ha hfit.sits.1) hnew ?_).repost hposts
    rcases hacted with hacted | hacted
    · exact hacted
    · intro action haction
      obtain ⟨i, below, hstack, -⟩ := hfit.acted action (hacted ▸ haction)
      cases hstack
      cases ha
  · exact fun l' hl' _ => exists_post hposts l' hl'

/-- A move among activations that hold nothing. -/
theorem Local.of_simple (new : List Activation) (ha : a.simple) (hnew : new.all Activation.simple)
    (hs : m.2.stack = new ++ rest) (hthreads : m.1.threads = w.threads)
    (hengine : w.engine.Aside m.1.engine) (hactive : m.1.engine.active = w.engine.active)
    (hpeak : m.1.engine.peak = w.engine.peak)
    (hlength : w.nest.frames.length ≤ m.1.nest.frames.length)
    (hnest : ∀ live waiting, w.nest.Accounted live waiting → m.1.nest.Accounted live waiting)
    (hposts : m.1.posts = w.posts) (hcontrol : m.2.control.bare ∨ m.2.control = t.control)
    (hdepth : m.2.depth = t.depth) : Local w k t a rest m new [] := by
  have ha' : [a].all Activation.simple := by simpa using ha
  refine .of_inert new (passing_of_inert (inert_of_simple ha)) (all_inert_of_simple hnew) hs
    (by simpa using hthreads) ?_ hengine hactive hpeak ?_ hposts
    (hcontrol.imp_left ne_action_of_bare) hdepth
  · rw [engaged_of_simple hnew]
    exact Nat.zero_le _
  · rw [leases_of_simple ha', leases_of_simple hnew, waits_of_simple ha',
      waits_of_simple hnew, asked_of_simple hnew]
    refine .of_accounted hlength hnest ?_ (le_refl _) (by simp)
    rw [List.map_nil, List.sum_nil, add_zero]
    exact add_le_add (le_refl _) (leases_le_of_bare hcontrol)

/-- The engine, the nest, the posts and the threads. -/
def World.core (w : World) : Engine × Nest × List (Nat × Nat) × List Thread :=
  (w.engine, w.nest, w.posts, w.threads)

theorem core_iff {w' : World} : w'.core = w.core ↔ w'.engine = w.engine ∧ w'.nest = w.nest ∧
    w'.posts = w.posts ∧ w'.threads = w.threads := by
  simp only [World.core, Prod.mk.injEq]

/-- A move among inert activations that leaves the core and takes no lease. -/
theorem Local.of_core (new : List Activation) (ha : a.passing) (hnew : new.all Activation.inert)
    (hs : m.2.stack = new ++ rest) (hcore : m.1.core = w.core)
    (hengaged : engaged new ≤ engaged [a]) (hleases : leases new ≤ leases [a])
    (hwaits : waits new ≤ waits [a]) (hasked : ∀ f ∈ asked new, f ∈ asked [a])
    (hcontrol : m.2.control.bare ∨ m.2.control = t.control)
    (hdepth : m.2.depth = t.depth) : Local w k t a rest m new [] := by
  obtain ⟨hengine, hnest, hposts, hthreads⟩ := core_iff.mp hcore
  refine .of_inert new ha hnew hs (by simpa using hthreads) hengaged (hengine ▸ .refl _)
    (by rw [hengine]) (by rw [hengine]) ?_ hposts (hcontrol.imp_left ne_action_of_bare) hdepth
  rw [hnest]
  refine .keep ?_ hwaits hasked
  rw [List.map_nil, List.sum_nil, add_zero]
  exact add_le_add hleases (leases_le_of_bare hcontrol)

/-- The same for activations that hold nothing. -/
theorem Local.of_calm (new : List Activation) (ha : a.simple) (hnew : new.all Activation.simple)
    (hs : m.2.stack = new ++ rest) (hcore : m.1.core = w.core)
    (hcontrol : m.2.control.bare ∨ m.2.control = t.control)
    (hdepth : m.2.depth = t.depth) : Local w k t a rest m new [] := by
  refine .of_core new (passing_of_inert (inert_of_simple ha)) (all_inert_of_simple hnew) hs hcore
    ?_ ?_ ?_ ?_ hcontrol hdepth
  · rw [engaged_of_simple hnew]
    exact Nat.zero_le _
  · rw [leases_of_simple hnew]
    exact Multiset.zero_le _
  · rw [waits_of_simple hnew]
    exact Multiset.zero_le _
  · rw [asked_of_simple hnew]
    exact fun f hf => absurd hf (List.not_mem_nil)

end Local

end Service

end ScriptHost
