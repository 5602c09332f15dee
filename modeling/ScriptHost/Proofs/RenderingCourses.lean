import Mathlib.Data.List.Induction
import ScriptHost.Proofs.PlainInvocations

/-!
What an invocation renders in its course. Each time it comes to a rendering job it writes its
output and, if errors join the output, its errors. The output it renders is gone afterwards, so
that no later rendering shows it again. The errors stay, and every later rendering shows them
once more. Between two steps of the invocation the engine may become anything.
-/

namespace ScriptHost

/-- Whether a command of the engine puts something else in the place of the output it gets. -/
def Builtin.replaces (b : Builtin) (arguments : List Value) : Bool :=
  match b with
  | .echo => !arguments.isEmpty
  | .writeError | .throw | .sleep | .breakpoint | .nested | .exit => false
  | _ => true

def Job.replaces : Job → Bool
  | render => false
  | call name arguments => (Builtin.ofName? name).any (·.replaces arguments)

namespace Invocation

variable {e : Engine} {i i' : Invocation}

/-- The lines still to write. -/
def pending (i : Invocation) : List HostCall :=
  match i.phase with
  | .rendering calls => calls
  | _ => []

/-- The job that the next step does. -/
def taken? (e : Engine) (i : Invocation) : Option Job :=
  match i.phase, i.todo with
  | .evaluating, job :: _ => if e.stopRequested then none else some job
  | _, _ => none

/-- A move that writes nothing, keeps the errors there are, and comes to no rendering. -/
structure Keeps (i : Invocation) (m : Move) : Prop where
  silent : ∀ c i', m = .call c i' → c.writes = false
  kept : ∀ i', m.invocation? = some i' →
    i'.merge = i.merge ∧ i.errors <+: i'.errors ∧ ∀ calls, i'.phase ≠ .rendering calls

def KeepsOutput (i : Invocation) (m : Move) : Prop :=
  ∀ i', m.invocation? = some i' → i'.output = i.output

/-- A step comes to a rendering job, does another job, writes a line, or does none of these. -/
inductive RenderTurn (e : Engine) (i : Invocation) : Move → Prop
  | renders {todo : List Job} (htaken : i.taken? e = some .render) :
      RenderTurn e i (.advance { i with todo, output := [], phase := .rendering i.renderCalls })
  | works {job : Job} {m : Move} (htaken : i.taken? e = some job) (hjob : job ≠ .render)
      (hkeeps : i.Keeps m) (houtput : job.replaces = false → i.KeepsOutput m) : RenderTurn e i m
  | writes {c : HostCall} {calls : List HostCall} (hphase : i.phase = .rendering (c :: calls)) :
      RenderTurn e i (.call c { i with phase := .rendering calls })
  | rests {m : Move} (htaken : i.taken? e = none) (hpending : i.pending = [])
      (hkeeps : i.Keeps m) (houtput : i.KeepsOutput m) : RenderTurn e i m

theorem Keeps.of_advance (hmerge : i'.merge = i.merge) (herrors : i.errors <+: i'.errors)
    (hphase : ∀ calls, i'.phase ≠ .rendering calls) : i.Keeps (.advance i') where
  silent := by simp
  kept := by
    rintro i' ⟨rfl⟩
    exact ⟨hmerge, herrors, hphase⟩

theorem keeps_pass (i : Invocation) (output : List Value) : i.Keeps (.advance (i.pass output)) :=
  .of_advance rfl List.prefix_rfl fun _ => Phase.noConfusion

theorem keeps_fail (i : Invocation) (error : EngineError) : i.Keeps (.advance (i.fail error)) :=
  .of_advance rfl List.prefix_rfl fun _ => Phase.noConfusion

theorem Keeps.of_call {c : HostCall} (hc : c.writes = false) (hmerge : i'.merge = i.merge)
    (herrors : i'.errors = i.errors) (hphase : ∀ calls, i'.phase ≠ .rendering calls) :
    i.Keeps (.call c i') where
  silent := by
    rintro c' i' ⟨rfl, rfl⟩
    exact hc
  kept := by
    rintro i' ⟨rfl⟩
    exact ⟨hmerge, herrors ▸ List.prefix_rfl, hphase⟩

theorem keepsOutput_advance (h : i'.output = i.output) : i.KeepsOutput (.advance i') := by
  rintro i' ⟨rfl⟩
  exact h

theorem keeps_builtin (e : Engine) (i : Invocation) (b : Builtin) (arguments : List Value) :
    i.Keeps (i.runBuiltin e b arguments).2 := by
  cases b <;> simp only [runBuiltin]
  case add =>
    split
    · exact keeps_pass i _
    · exact keeps_fail i _
    · exact ⟨by simp, by simp [Move.invocation?]⟩
  case writeError => exact .of_advance rfl (List.prefix_append _ _) fun _ => Phase.noConfusion
  case throw => exact keeps_fail i _
  case sleep => exact .of_advance rfl List.prefix_rfl fun _ => Phase.noConfusion
  case breakpoint | nested | setBreakpoint | exit =>
    exact .of_call rfl rfl rfl fun _ => Phase.noConfusion
  case enterSession =>
    split
    · exact keeps_fail i _
    · exact keeps_pass i _
  all_goals exact keeps_pass i _

/-- A command that passes its input on does. -/
theorem keepsOutput_builtin (e : Engine) (i : Invocation) {b : Builtin} {arguments : List Value}
    (h : b.replaces arguments = false) : i.KeepsOutput (i.runBuiltin e b arguments).2 := by
  cases b <;> simp only [Builtin.replaces, Bool.not_eq_false', reduceCtorEq] at h <;>
    simp only [runBuiltin]
  case echo =>
    rw [if_pos h]
    exact keepsOutput_advance rfl
  case breakpoint | nested | exit =>
    rintro i' ⟨rfl⟩
    rfl
  all_goals exact keepsOutput_advance rfl

theorem keeps_job (e : Engine) (i : Invocation) {job : Job} (hjob : job ≠ .render) :
    i.Keeps (i.runJob e job).2 ∧ (job.replaces = false → i.KeepsOutput (i.runJob e job).2) := by
  cases job with
  | render => exact absurd rfl hjob
  | call name arguments =>
    simp only [runJob, Job.replaces]
    cases Builtin.ofName? name with
    | some b => exact ⟨keeps_builtin e i b arguments, keepsOutput_builtin e i⟩
    | none => exact ⟨keeps_fail i _, fun _ => keepsOutput_advance rfl⟩

theorem pending_of_phase (h : ∀ calls, i.phase ≠ .rendering calls) : i.pending = [] := by
  unfold pending
  split
  · next calls hphase => exact absurd hphase (h calls)
  · rfl

theorem pending_of_taken {job : Job} (h : i.taken? e = some job) : i.pending = [] := by
  refine pending_of_phase fun calls hphase => ?_
  simp [taken?, hphase] at h

theorem taken?_of_ne (e : Engine) (h : i.phase ≠ .evaluating) : i.taken? e = none := by
  unfold taken?
  split
  · next hphase _ => exact absurd hphase h
  · rfl

/-- A stop comes instead of a move that keeps output and errors. -/
theorem keeps_stopped {r : Engine × Move} (hkeeps : i.Keeps r.2) (houtput : i.KeepsOutput r.2) :
    i.Keeps (i.stopped? e r).2 ∧ i.KeepsOutput (i.stopped? e r).2 := by
  unfold stopped?
  split
  · exact ⟨keeps_fail i _, keepsOutput_advance rfl⟩
  · exact ⟨hkeeps, houtput⟩

/-- The step of an invocation that is neither at a job nor rendering. -/
theorem RenderTurn.of_phase {phase : Phase} {m : Move} (hphase : i.phase = phase)
    (hevaluating : phase ≠ .evaluating) (hrendering : ∀ calls, phase ≠ .rendering calls)
    (h : i.Keeps m ∧ i.KeepsOutput m) : i.RenderTurn e m :=
  .rests (taken?_of_ne e (hphase ▸ hevaluating)) (pending_of_phase (hphase ▸ hrendering)) h.1 h.2

theorem renderTurn_evaluating (e : Engine) {job : Job} {todo : List Job}
    (hphase : i.phase = .evaluating) (htodo : i.todo = job :: todo) :
    i.RenderTurn e (i.stopped? e (runJob e { i with todo } job)).2 := by
  unfold stopped?
  split
  · next hstop =>
    refine .rests (by simp [taken?, hphase, htodo, hstop]) (pending_of_phase ?_) (keeps_fail i _)
      (keepsOutput_advance rfl)
    exact fun calls => hphase ▸ Phase.noConfusion
  · next hstop =>
    have htaken : i.taken? e = some job := by simp [taken?, hphase, htodo, hstop]
    by_cases hjob : job = .render
    · subst hjob
      exact .renders htaken
    · obtain ⟨hkeeps, houtput⟩ := keeps_job e { i with todo } hjob
      exact .works htaken hjob ⟨hkeeps.silent, hkeeps.kept⟩ houtput

theorem renderTurn_step (e : Engine) (i : Invocation) : i.RenderTurn e (i.step e).2 := by
  unfold step
  split
  case h_1 hphase =>
    refine .of_phase hphase Phase.noConfusion (fun _ => Phase.noConfusion)
      ⟨.of_call rfl rfl rfl fun _ => Phase.noConfusion, ?_⟩
    rintro i' ⟨rfl⟩
    rfl
  case h_2 hphase =>
    split
    · next htodo =>
      refine .rests (by simp [taken?, hphase, htodo]) (pending_of_phase ?_)
        (.of_advance rfl List.prefix_rfl fun _ => Phase.noConfusion) (keepsOutput_advance rfl)
      exact fun calls => hphase ▸ Phase.noConfusion
    · next job todo htodo => exact renderTurn_evaluating e hphase htodo
  case h_3 hphase =>
    exact .rests (taken?_of_ne e (by simp [hphase])) (by simp [Invocation.pending, hphase])
      (.of_advance rfl List.prefix_rfl fun _ => Phase.noConfusion) (keepsOutput_advance rfl)
  case h_4 hphase => exact .writes hphase
  case h_5 hphase =>
    exact .of_phase hphase Phase.noConfusion (fun _ => Phase.noConfusion)
      ⟨.of_advance rfl List.prefix_rfl fun calls => by simp [hphase], keepsOutput_advance rfl⟩
  case h_6 hphase =>
    exact .of_phase hphase Phase.noConfusion (fun _ => Phase.noConfusion)
      (keeps_stopped (keeps_pass i _) (keepsOutput_advance rfl))
  case h_7 ms hphase =>
    refine .of_phase hphase Phase.noConfusion (fun _ => Phase.noConfusion)
      (keeps_stopped ⟨by simp, ?_⟩ ?_) <;> rintro i' ⟨rfl⟩
    · exact ⟨rfl, List.prefix_rfl, fun _ => Phase.noConfusion⟩
    · rfl
  case h_8 r hphase =>
    refine .of_phase hphase Phase.noConfusion (fun _ => Phase.noConfusion) ?_
    dsimp only
    split
    · refine ⟨.of_call (writes_finalCall r) rfl rfl fun _ => Phase.noConfusion, ?_⟩
      rintro i' ⟨rfl⟩
      rfl
    · exact ⟨.of_advance rfl List.prefix_rfl fun _ => Phase.noConfusion, keepsOutput_advance rfl⟩
  case h_9 hphase =>
    exact .of_phase hphase Phase.noConfusion (fun _ => Phase.noConfusion)
      ⟨⟨by simp, by simp [Move.invocation?]⟩, by simp [KeepsOutput, Move.invocation?]⟩

/-- A call writes the first of the lines still to write, or nothing when there is none. -/
theorem RenderTurn.call {c : HostCall} (h : i.RenderTurn e (.call c i')) :
    i.pending.head? = some c ∨
      i.pending = [] ∧ c.writes = false ∧ ∀ calls, i'.phase ≠ .rendering calls := by
  cases h with
  | works htaken hjob hkeeps houtput =>
    exact .inr ⟨pending_of_taken htaken, hkeeps.silent c i' rfl, (hkeeps.kept i' rfl).2.2⟩
  | writes hphase => exact .inl (by simp [pending, hphase])
  | rests htaken hpending hkeeps houtput =>
    exact .inr ⟨hpending, hkeeps.silent c i' rfl, (hkeeps.kept i' rfl).2.2⟩

/-- With lines still to write an invocation does nothing else. -/
theorem RenderTurn.pending {m : Move} (h : i.RenderTurn e m) (hm : ∀ c i', m ≠ .call c i') :
    i.pending = [] := by
  cases h with
  | renders htaken => exact pending_of_taken htaken
  | works htaken hjob hkeeps houtput => exact pending_of_taken htaken
  | writes hphase => exact absurd rfl (hm _ _)
  | rests htaken hpending hkeeps houtput => exact hpending

/-- The steps of an invocation, latest first, each with the engine as it was: how it started,
and what has become of it. It is left with nothing when it is finished or a panic unwinds it.
A resume action comes to an invocation that does not render. -/
inductive Course (start : Invocation) : List (Engine × Invocation) → Option Invocation → Prop
  | begun : Course start [] (some start)
  | step {steps : List (Engine × Invocation)} {i : Invocation} (e : Engine)
      (h : Course start steps (some i)) :
      Course start ((e, i) :: steps) (i.step e).2.invocation?
  | resumed {steps : List (Engine × Invocation)} {i : Invocation} (e : Engine)
      (action : ResumeAction) (h : Course start steps (some i))
      (hphase : ∀ calls, i.phase ≠ .rendering calls) :
      Course start steps (some (i.resume e action).2)
  | unwound {steps : List (Engine × Invocation)} {i : Invocation}
      (h : Course start steps (some i)) : Course start steps none

/-- The lines that the invocation wrote. -/
def said : List (Engine × Invocation) → List HostCall
  | [] => []
  | (_, i) :: steps => said steps ++ i.pending.head?.toList

/-- How often the output has been replaced by another one. -/
def generation (steps : List (Engine × Invocation)) : Nat :=
  (steps.filterMap fun (e, i) => i.taken? e).countP Job.replaces

/-- The invocation each time it came to a rendering job, with the generation of its output. -/
def renderings : List (Engine × Invocation) → List (Nat × Invocation)
  | [] => []
  | (e, i) :: steps =>
    renderings steps ++ match i.taken? e with
      | some .render => [(generation steps, i)]
      | _ => []

/-- The lines of these renderings. -/
def linesOf (shown : List (Nat × Invocation)) : List HostCall :=
  shown.flatMap fun r => r.2.renderCalls

/-- What renderings have to do with each other: the errors of the first are there in the
second, and an output of the same generation is gone. -/
structure Precedes (r r' : Nat × Invocation) : Prop where
  errors : r.2.errors <+: r'.2.errors
  generation : r.1 ≤ r'.1
  gone : r.1 = r'.1 → r'.2.output = []

/-- What has been rendered: each time the lines of the invocation as it was. -/
structure Told (merge : Bool) (steps : List (Engine × Invocation)) : Prop where
  lines : said steps <+: linesOf (renderings steps)
  merged : ∀ r ∈ renderings steps, r.2.merge = merge
  ordered : (renderings steps).Pairwise Precedes

/-- What has been rendered, and is being rendered, when the invocation has come to `i`. -/
structure Shown (merge : Bool) (steps : List (Engine × Invocation)) (i : Invocation) : Prop where
  lines : said steps ++ i.pending = linesOf (renderings steps)
  merges : i.merge = merge
  merged : ∀ r ∈ renderings steps, r.2.merge = merge
  ordered : (renderings steps).Pairwise Precedes
  before : ∀ r ∈ renderings steps, Precedes r (generation steps, i)

section Laws

variable {start : Invocation} {steps : List (Engine × Invocation)} {merge : Bool}

theorem said_cons (e : Engine) (i : Invocation) (steps : List (Engine × Invocation)) :
    said ((e, i) :: steps) = said steps ++ i.pending.head?.toList := rfl

theorem renderings_of_renders (steps : List (Engine × Invocation))
    (h : i.taken? e = some .render) :
    renderings ((e, i) :: steps) = renderings steps ++ [(generation steps, i)] := by
  simp only [renderings, h]

theorem renderings_of_ne (steps : List (Engine × Invocation))
    (h : i.taken? e ≠ some .render) :
    renderings ((e, i) :: steps) = renderings steps := by
  rw [renderings]
  split
  · next htaken => exact absurd htaken h
  · exact List.append_nil _

theorem generation_cons (e : Engine) (i : Invocation) (steps : List (Engine × Invocation)) :
    generation ((e, i) :: steps) =
      generation steps + if (i.taken? e).any Job.replaces then 1 else 0 := by
  unfold generation
  cases h : i.taken? e with
  | none => simp [h]
  | some job => cases hjob : job.replaces <;> simp [h, hjob]

/-- The invocation has gone on with its errors, and with its output unless that is replaced. -/
theorem Precedes.goesOn {r : Nat × Invocation} {n n' : Nat} (h : Precedes r (n, i))
    (herrors : i.errors <+: i'.errors) (hn : n ≤ n')
    (houtput : n = n' → i.output = [] → i'.output = []) : Precedes r (n', i') where
  errors := h.errors.trans herrors
  generation := Nat.le_trans h.generation hn
  gone := by
    intro heq
    have hle : r.1 ≤ n := h.generation
    have hnew : r.1 = n' := heq
    have hsame : n = n' := Nat.le_antisymm hn (hnew ▸ hle)
    exact houtput hsame (h.gone (hnew.trans hsame.symm))

theorem Shown.told_before (h : Shown merge steps i) : Told merge steps where
  lines := by
    rw [← h.lines]
    exact List.prefix_append _ _
  merged := h.merged
  ordered := h.ordered

/-- Whatever becomes of a step, it belongs to the course. -/
theorem Shown.told (h : Shown merge steps i) (e : Engine) : Told merge ((e, i) :: steps) := by
  have hsaid : said ((e, i) :: steps) <+: linesOf (renderings steps) := by
    rw [said_cons, ← h.lines]
    refine (List.prefix_append_right_inj _).mpr ?_
    cases i.pending <;> simp
  by_cases htaken : i.taken? e = some .render
  · have hnew := renderings_of_renders steps htaken
    refine ⟨?_, ?_, ?_⟩ <;> rw [hnew]
    · refine hsaid.trans ?_
      rw [linesOf, linesOf, List.flatMap_append]
      exact List.prefix_append _ _
    · intro r hr
      rcases List.mem_append.mp hr with hr | hr
      · exact h.merged r hr
      · rw [List.mem_singleton.mp hr]
        exact h.merges
    · rw [List.pairwise_append]
      refine ⟨h.ordered, List.pairwise_singleton _ _, fun r hr r' hr' => ?_⟩
      rw [List.mem_singleton.mp hr']
      exact h.before r hr
  · have hsame := renderings_of_ne steps htaken
    refine ⟨?_, ?_, ?_⟩ <;> rw [hsame]
    · exact hsaid
    · exact h.merged
    · exact h.ordered

/-- A step that comes to no rendering and writes nothing. -/
theorem Shown.kept {m : Move} (h : Shown merge steps i) (htaken : i.taken? e ≠ some .render)
    (hpending : i.pending = []) (hkeeps : i.Keeps m) (hi' : m.invocation? = some i')
    (houtput : (i.taken? e).any Job.replaces = false → i'.output = i.output) :
    Shown merge ((e, i) :: steps) i' := by
  obtain ⟨hmerge, herrors, hphase⟩ := hkeeps.kept i' hi'
  have hsame := renderings_of_ne steps htaken
  have htold := h.told e
  refine ⟨?_, hmerge.trans h.merges, htold.merged, htold.ordered, ?_⟩
  · rw [said_cons, hpending, pending_of_phase hphase, hsame, ← h.lines, hpending]
    simp
  · rw [hsame]
    intro r hr
    refine (h.before r hr).goesOn herrors ?_ ?_ <;> rw [generation_cons]
    · exact Nat.le_add_right _ _
    · intro hsamegen hgone
      cases hreplaces : (i.taken? e).any Job.replaces with
      | false => rw [houtput hreplaces, hgone]
      | true => simp [hreplaces] at hsamegen

/-- A rendering takes the output away and keeps the errors. -/
theorem Shown.renders {todo : List Job} (h : Shown merge steps i)
    (htaken : i.taken? e = some .render) :
    Shown merge ((e, i) :: steps)
      { i with todo, output := [], phase := .rendering i.renderCalls } := by
  have hnew := renderings_of_renders steps htaken
  have hpending := pending_of_taken htaken
  have htold := h.told e
  have hgeneration : generation ((e, i) :: steps) = generation steps := by
    rw [generation_cons, htaken]
    rfl
  refine ⟨?_, h.merges, htold.merged, htold.ordered, ?_⟩
  · have hsaid := h.lines
    rw [hpending, List.append_nil] at hsaid
    rw [said_cons, hpending, hnew, linesOf, List.flatMap_append, List.flatMap_singleton]
    simp only [List.head?_nil, Option.toList_none, List.append_nil, hsaid]
    rfl
  · rw [hnew, hgeneration]
    intro r hr
    rcases List.mem_append.mp hr with hr | hr
    · exact (h.before r hr).goesOn List.prefix_rfl (Nat.le_refl _) fun _ _ => rfl
    · rw [List.mem_singleton.mp hr]
      exact ⟨List.prefix_rfl, Nat.le_refl _, fun _ => rfl⟩

/-- A line that is written. -/
theorem Shown.writes {c : HostCall} {calls : List HostCall} (h : Shown merge steps i)
    (hphase : i.phase = .rendering (c :: calls)) :
    Shown merge ((e, i) :: steps) { i with phase := .rendering calls } := by
  have htaken : i.taken? e = none := by simp [taken?, hphase]
  have hpending : i.pending = c :: calls := by simp [pending, hphase]
  have hsame : renderings ((e, i) :: steps) = renderings steps :=
    renderings_of_ne steps (by simp [htaken])
  have hgeneration : generation ((e, i) :: steps) = generation steps := by
    rw [generation_cons, htaken]
    rfl
  have htold := h.told e
  refine ⟨?_, h.merges, htold.merged, htold.ordered, ?_⟩
  · rw [said_cons, hsame, ← h.lines, hpending, List.append_assoc]
    rfl
  · rw [hsame, hgeneration]
    exact fun r hr => (h.before r hr).goesOn List.prefix_rfl (Nat.le_refl _) fun _ hgone => hgone

theorem Shown.step (h : Shown merge steps i) (hi' : (i.step e).2.invocation? = some i') :
    Shown merge ((e, i) :: steps) i' := by
  have hturn := renderTurn_step e i
  revert hi' hturn
  generalize (i.step e).2 = m
  intro hi' hturn
  cases hturn with
  | renders htaken =>
    cases hi'
    exact h.renders htaken
  | @works job m htaken hjob hkeeps houtput =>
    refine h.kept (by simp [htaken, hjob]) (pending_of_taken htaken) hkeeps hi' fun hreplaces => ?_
    rw [htaken] at hreplaces
    exact houtput hreplaces i' hi'
  | writes hphase =>
    cases hi'
    exact h.writes hphase
  | rests htaken hpending hkeeps houtput =>
    exact h.kept (by simp [htaken]) hpending hkeeps hi' fun _ => houtput i' hi'

theorem Shown.resumed (h : Shown merge steps i) (hphase : ∀ calls, i.phase ≠ .rendering calls)
    (e : Engine) (action : ResumeAction) : Shown merge steps (i.resume e action).2 := by
  have hsaid := h.lines
  rw [pending_of_phase hphase] at hsaid
  unfold resume
  dsimp only
  split <;> exact ⟨hsaid, h.merges, h.merged, h.ordered, fun r hr =>
    (h.before r hr).goesOn List.prefix_rfl (Nat.le_refl _) fun _ hgone => hgone⟩

/-- What has been rendered along a course that begins without rendering. -/
theorem Course.shown {state : Option Invocation} (h : Course start steps state)
    (hstart : ∀ calls, start.phase ≠ .rendering calls) :
    Told start.merge steps ∧ ∀ i, state = some i → Shown start.merge steps i := by
  induction h with
  | begun =>
    have hnothing : Shown start.merge [] start :=
      ⟨by rw [pending_of_phase hstart]; rfl, rfl, by simp [renderings], .nil,
        by simp [renderings]⟩
    refine ⟨hnothing.told_before, ?_⟩
    rintro i ⟨rfl⟩
    exact hnothing
  | step e _ ih =>
    have hshown := ih.2 _ rfl
    exact ⟨hshown.told e, fun i' hi' => hshown.step hi'⟩
  | resumed e action _ hphase ih =>
    refine ⟨ih.1, ?_⟩
    rintro i' ⟨rfl⟩
    exact (ih.2 _ rfl).resumed hphase e action
  | unwound _ ih => exact ⟨ih.1, by simp⟩

theorem Shown.pending_writes (h : Shown merge steps i) : ∀ c ∈ i.pending, c.writes = true := by
  intro c hc
  have hmem : c ∈ linesOf (renderings steps) := by
    rw [← h.lines]
    exact List.mem_append_right _ hc
  obtain ⟨r, -, hr⟩ := List.mem_flatMap.mp hmem
  exact writes_of_renderCalls r.2 c hr

/-- When an invocation is finished, all lines are written. -/
theorem Shown.finished {r : Evaluation} (h : Shown merge steps i)
    (hfinish : (i.step e).2 = .finish r) :
    said ((e, i) :: steps) = linesOf (renderings ((e, i) :: steps)) := by
  have hturn := renderTurn_step e i
  rw [hfinish] at hturn
  have hpending := hturn.pending (by simp)
  have htaken : i.taken? e ≠ some .render := by
    cases hturn with
    | works htaken hjob hkeeps houtput => simpa [htaken] using hjob
    | rests htaken hpending hkeeps houtput => simp [htaken]
  rw [said_cons, renderings_of_ne steps htaken, ← h.lines, hpending]
  rfl

/-- How often the value at a place of an output of a generation is rendered. -/
def timesOutput (generation place : Nat) (shown : List (Nat × Invocation)) : Nat :=
  shown.countP fun r => r.1 == generation && decide (place < r.2.output.length)

/-- How often the error record at a place is rendered. -/
def timesError (place : Nat) (shown : List (Nat × Invocation)) : Nat :=
  shown.countP fun r => r.2.merge && decide (place < r.2.errors.length)

theorem countP_le_one {α : Type} {R : α → α → Prop} {p : α → Bool} {l : List α}
    (h : l.Pairwise R) (hR : ∀ a b, R a b → p a = true → p b = false) : l.countP p ≤ 1 := by
  induction h with
  | nil => simp
  | @cons a l ha _ ih =>
    by_cases hp : p a = true
    · have hnone : l.countP p = 0 := by
        rw [List.countP_eq_zero]
        intro b hb
        simp [hR a b (ha b hb) hp]
      have hcons := List.countP_cons_of_pos (l := l) hp
      omega
    · rwa [List.countP_cons_of_neg hp]

/-- No value of an output is rendered twice. -/
theorem Told.output_once (h : Told merge steps) (generation place : Nat) :
    timesOutput generation place (renderings steps) ≤ 1 := by
  refine countP_le_one h.ordered fun r r' hprecedes hr => ?_
  simp only [Bool.and_eq_true, beq_iff_eq, decide_eq_true_eq] at hr
  by_cases hsame : r'.1 = generation
  · simp [hprecedes.gone (hr.1.trans hsame.symm)]
  · simp [hsame]

theorem timesError_append (place : Nat) (shown shown' : List (Nat × Invocation)) :
    timesError place (shown ++ shown') = timesError place shown + timesError place shown' :=
  List.countP_append

theorem timesError_eq_zero {shown : List (Nat × Invocation)}
    (h : ∀ r ∈ shown, r.2.merge = false ∨ r.2.errors = []) (place : Nat) :
    timesError place shown = 0 := by
  refine List.countP_eq_zero.mpr fun r hr => ?_
  rcases h r hr with hmerge | herrors
  · simp [hmerge]
  · simp [herrors]

/-- The first error that a rendering finds is found by every later one, too. -/
theorem first_error_again {shown : List (Nat × Invocation)} {r last : Nat × Invocation}
    (hordered : (shown ++ [last]).Pairwise Precedes) (hmerge : ∀ r ∈ shown ++ [last], r.2.merge)
    (hr : r ∈ shown) (herrors : r.2.errors ≠ []) :
    0 < timesError 0 shown ∧ timesError 0 [last] = 1 := by
  have hprefix : r.2.errors <+: last.2.errors :=
    ((List.pairwise_append.mp hordered).2.2 r hr last List.mem_cons_self).errors
  have hsome : 0 < r.2.errors.length := List.length_pos_iff.mpr herrors
  have hagain : 0 < last.2.errors.length := Nat.lt_of_lt_of_le hsome hprefix.length_le
  constructor
  · refine List.countP_pos_iff.mpr ⟨r, hr, ?_⟩
    simp [hmerge r (List.mem_append_left [last] hr), hsome]
  · simp [timesError, hmerge last (by simp), hagain]

/-- No error record is rendered twice if and only if errors do not join the output, or no
rendering but the last finds any. -/
theorem Told.error_once_iff (h : Told merge steps) :
    (∀ place, timesError place (renderings steps) ≤ 1) ↔
      merge = false ∨ ∀ r ∈ (renderings steps).dropLast, r.2.errors = [] := by
  have hmerged := h.merged
  have hordered := h.ordered
  revert hmerged hordered
  generalize renderings steps = shown
  intro hmerged hordered
  cases shown using List.reverseRecOn with
  | nil => simp [timesError]
  | append_singleton shown last =>
    rw [List.dropLast_concat]
    constructor
    · intro honce
      cases merge with
      | false => exact .inl rfl
      | true =>
        refine .inr fun r hr => ?_
        apply Classical.byContradiction
        intro herrors
        obtain ⟨hfirst, hsecond⟩ := first_error_again hordered hmerged hr herrors
        have hboth := honce 0
        rw [timesError_append] at hboth
        omega
    · rintro hfew place
      have hzero : timesError place shown = 0 := by
        refine timesError_eq_zero (fun r hr => ?_) place
        exact hfew.imp (hmerged r (List.mem_append_left [last] hr)).trans fun hnone => hnone r hr
      have hlast : timesError place [last] ≤ 1 := List.countP_le_length
      rw [timesError_append]
      omega

end Laws

end Invocation

end ScriptHost
