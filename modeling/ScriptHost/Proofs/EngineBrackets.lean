import ScriptHost.Proofs.HostedThreads
import ScriptHost.Proofs.InvocationTurns

/-!
A call into the engine and all that its host does meanwhile. Invocations are started and
finished like brackets, however often the host enters the engine again from a call, and
each is finished in the frame in which it was started. Only the outermost one of the thread
tells the host of itself: first that it runs, and at last how it came out.
-/

namespace ScriptHost

def FrameInfo.entry (frame : FrameInfo) (activity : Activity) : JournalEntry :=
  { activity, depth := frame.depth, kind := frame.kind }

/-- The start or the end of an invocation. -/
def Activity.isBracket : Activity → Bool
  | started _ | finished _ => true
  | _ => false

/-- A properly nested part of the journal: each invocation that is started in it is finished in it
with the same text in the same frame, and so are those that are started in between. -/
inductive Nested : List JournalEntry → Prop
  | nil : Nested []
  | aside (x : JournalEntry) {rest : List JournalEntry} (hx : x.activity.isBracket = false)
      (hrest : Nested rest) : Nested (x :: rest)
  | invocation (frame : FrameInfo) (text : String) {inner rest : List JournalEntry}
      (hinner : Nested inner) (hrest : Nested rest) :
      Nested (frame.entry (.started text) :: inner ++ frame.entry (.finished text) :: rest)

theorem Nested.append {l l' : List JournalEntry} (h : Nested l) (h' : Nested l') :
    Nested (l ++ l') := by
  induction h with
  | nil => exact h'
  | aside x hx _ ih => exact .aside x hx ih
  | invocation frame text hinner _ _ ih =>
    rw [List.append_assoc, List.cons_append]
    exact .invocation frame text hinner ih

theorem Nested.single {x : JournalEntry} (hx : x.activity.isBracket = false) : Nested [x] :=
  .aside x hx .nil

theorem Nested.closed {inner : List JournalEntry} (frame : FrameInfo) (text : String)
    (h : Nested inner) :
    Nested (frame.entry (.started text) :: inner ++ [frame.entry (.finished text)]) :=
  .invocation frame text h .nil

/-- An invocation from its start to its end. -/
def Bracket (frame : FrameInfo) (text : String) (entries : List JournalEntry) : Prop :=
  ∃ inner, Nested inner ∧
    entries = frame.entry (.started text) :: inner ++ [frame.entry (.finished text)]

/-- Invocations are neither started nor finished, and as many outermost ones are in progress. -/
structure Engine.Unbracketed (e e' : Engine) : Prop where
  journal : ∃ entries, Nested entries ∧ e'.journal = e.journal ++ entries
  active : e'.active = e.active

namespace Engine

variable {e e' : Engine}

theorem Unbracketed.of_same (hjournal : e'.journal = e.journal) (hactive : e'.active = e.active) :
    e.Unbracketed e' :=
  ⟨⟨[], .nil, by rw [hjournal, List.append_nil]⟩, hactive⟩

theorem unbracketed_record (frame : FrameInfo) {activity : Activity}
    (h : activity.isBracket = false) : e.Unbracketed (e.record frame activity) :=
  ⟨⟨[frame.entry activity], .single h, rfl⟩, rfl⟩

theorem unbracketed_takeFault {call : EngineCall} {error : EngineError}
    (h : e.takeFault call = some (error, e')) : e.Unbracketed e' := by
  obtain ⟨f, -, heq⟩ := Option.map_eq_some_iff.mp h
  cases heq
  exact .of_same rfl rfl

theorem Asked.unbracketed (h : e.Asked e') : e.Unbracketed e' := by
  cases h with
  | stopProcess => exact unbracketed_record {} rfl
  | subscribe =>
    unfold subscribeIdle
    split
    · next hfault => exact unbracketed_takeFault hfault
    · exact .of_same rfl rfl
  | details =>
    unfold Engine.details
    split
    · next hfault => exact unbracketed_takeFault hfault
    · split <;> exact .of_same rfl rfl
  | _ => exact .of_same rfl rfl

end Engine

namespace Invocation

variable {e e' : Engine} {i i' : Invocation} {move : Move}

/-- An invocation goes on from `i` to `i'` within its bracket and without telling of itself. -/
structure Proceeds (e : Engine) (i : Invocation) (e' : Engine) (i' : Invocation) : Prop where
  onward : i.Onward i'
  unended : ∀ r, i.phase ≠ .ending r
  frame : i'.frame = i.frame
  text : i'.text = i.text
  engine : e.Unbracketed e'

theorem proceeds_step (hstep : i.step e = (e', move)) (hmove : move.invocation? = some i')
    (h : i.Onward i') : i.Proceeds e e' i' := by
  have hstepped := i.stepped e
  have hwritten := i.written_step e
  rw [hstep] at hstepped hwritten
  obtain ⟨hframe, -, hactive⟩ := hstepped.advanced i' hmove
  rcases hwritten with ⟨r, -, heq⟩ | ⟨hunended, hunwritten⟩
  · cases heq
    cases hmove
  · refine ⟨h, hunended, hframe, hunwritten.text i' hmove, .of_same hunwritten.journal ?_⟩
    rcases hactive with ⟨-, hactive⟩ | ⟨htrue, hfalse, -⟩
    · exact hactive
    · rw [h.progress, htrue] at hfalse
      cases hfalse

theorem proceeds_resume (h : i.atWork = true) (action : ResumeAction) :
    i.Proceeds e (i.resume e action).1 (i.resume e action).2 := by
  refine ⟨onward_resume h action, ?_, (i.resume_spec e action).2.2.2.1, ?_,
    Engine.unbracketed_record i.frame rfl⟩
  · intro r hphase
    rw [atWork, hphase] at h
    cases h
  · unfold resume
    dsimp only
    split <;> rfl

end Invocation

namespace Hosted

abbrev Calls := List (Option Nat × HostCall)

/-- None of the calls tells of the state of an invocation. -/
def Quiet (calls : Calls) : Prop :=
  ∀ x ∈ calls, x.2.tells = false

theorem Quiet.append {calls more : Calls} (h : Quiet calls) (hmore : Quiet more) :
    Quiet (calls ++ more) :=
  List.forall_mem_append.mpr ⟨h, hmore⟩

/-- What the host has been told since the invocation `i` was started over `depth` others: an
outermost one has told that it runs before anything else, and when it ends it has told how, and
does not call any more. -/
inductive Told (depth : Nat) (i : Invocation) : Calls → Prop
  | unheard (hphase : i.phase = .opening) : Told depth i []
  | heard {rest : Calls} (hbegun : i.phase ≠ .opening) (hprogress : i.inProgress = true)
      (hrest : Quiet rest) : Told depth i ((some (depth + 1), .stateChanged .running none) :: rest)
  | told {before after : Calls} (r : Evaluation) (hphase : i.phase = .ending r)
      (houtermost : i.outermost = true) (hbefore : Quiet before) (hafter : Quiet after)
      (hlast : ∀ x ∈ after, x.1 ≠ some (depth + 1)) :
      Told depth i ((some (depth + 1), .stateChanged .running none) ::
        (before ++ (some (depth + 1), Invocation.finalCall r) :: after))
  | silent {calls : Calls} (hbegun : i.phase ≠ .opening) (hinner : i.outermost = false)
      (hcalls : Quiet calls) : Told depth i calls

section Told

variable {depth : Nat} {i i' : Invocation} {calls : Calls}

theorem Told.proceed {e e' : Engine} (h : Told depth i calls) (hp : i.Proceeds e e' i') :
    Told depth i' calls := by
  cases h with
  | unheard hphase => exact absurd hphase hp.onward.begun
  | heard _ hprogress hrest =>
    exact .heard hp.onward.begun' (hp.onward.progress.trans hprogress) hrest
  | told r hphase => exact absurd hphase (hp.unended r)
  | silent _ hinner hcalls =>
    exact .silent hp.onward.begun' (hp.onward.outermost.trans hinner) hcalls

/-- A call that tells of no invocation. -/
theorem Told.call {caller : Option Nat} {c : HostCall} (h : Told depth i calls)
    (hbegun : i.phase ≠ .opening) (hc : c.tells = false)
    (hown : caller = some (depth + 1) → ∀ r, i.phase ≠ .ending r) :
    Told depth i (calls ++ [(caller, c)]) := by
  have hquiet : Quiet [(caller, c)] := by simpa [Quiet] using hc
  cases h with
  | unheard hphase => exact absurd hphase hbegun
  | heard _ hprogress hrest => exact .heard hbegun hprogress (hrest.append hquiet)
  | told r hphase houtermost hbefore hafter hlast =>
    rw [List.cons_append, List.append_assoc, List.cons_append]
    refine .told r hphase houtermost hbefore (hafter.append hquiet) ?_
    refine List.forall_mem_append.mpr ⟨hlast, ?_⟩
    rintro x hx hcaller
    obtain rfl := List.mem_singleton.mp hx
    exact hown hcaller r hphase
  | silent _ hinner hcalls => exact .silent hbegun hinner (hcalls.append hquiet)

theorem Told.announce (h : Told depth i calls) (hproper : i.Proper) (hphase : i.phase = .opening) :
    Told depth { i with phase := .evaluating }
      (calls ++ [(some (depth + 1), .stateChanged .running none)]) := by
  have houtermost : i.outermost = true := by
    rw [Invocation.Proper, hphase] at hproper
    exact hproper
  cases h with
  | unheard _ =>
    exact .heard (by simp) (by simpa [Invocation.inProgress] using houtermost) (by simp [Quiet])
  | heard hbegun => exact absurd hphase hbegun
  | told r hending =>
    rw [hphase] at hending
    cases hending
  | silent hbegun => exact absurd hphase hbegun

theorem Told.conclude {r : Evaluation} (h : Told depth i calls) (hphase : i.phase = .closing r)
    (houtermost : i.outermost = true) :
    Told depth { i with phase := .ending r }
      (calls ++ [(some (depth + 1), Invocation.finalCall r)]) := by
  cases h with
  | unheard hopening =>
    rw [hphase] at hopening
    cases hopening
  | heard _ _ hrest =>
    exact .told r rfl houtermost hrest (by simp [Quiet]) (by simp)
  | told r' hending =>
    rw [hphase] at hending
    cases hending
  | silent _ hinner =>
    rw [houtermost] at hinner
    cases hinner

end Told

/-- The invocation `i` is in progress, with `n` others over it, and these are the entries of the
journal since it was started. The others were started in turns of the host, after `i` had begun. -/
inductive Over (i : Invocation) : Nat → List Level → List JournalEntry → Prop
  | base {entries : List JournalEntry} (h : Nested entries) : Over i 0 [.invocation i] entries
  | callback {n : Nat} {stack : List Level} {entries : List JournalEntry} (stop : Bool)
      (hbegun : i.phase ≠ .opening)
      (hstop : stop = true → ∀ j rest, stack = .invocation j :: rest → j.atWork = true)
      (h : Over i n stack entries) : Over i n (.callback stop :: stack) entries
  | reading {n : Nat} {stack : List Level} {entries : List JournalEntry}
      (hbegun : i.phase ≠ .opening) (h : Over i n stack entries) :
      Over i n (.reading :: stack) entries
  | inner {n : Nat} {stack : List Level} {entries more : List JournalEntry} (j : Invocation)
      (hbegun : i.phase ≠ .opening) (hproper : j.Proper) (hinner : j.outermost = false)
      (h : Over i n stack entries) (hmore : Nested more) :
      Over i (n + 1) (.invocation j :: stack)
        (entries ++ j.frame.entry (.started j.text) :: more)

theorem Over.append {i : Invocation} {n : Nat} {stack : List Level}
    {entries more : List JournalEntry} (h : Over i n stack entries) (hmore : Nested more) :
    Over i n stack (entries ++ more) := by
  induction h with
  | base h => exact .base (h.append hmore)
  | callback stop hbegun hstop _ ih => exact .callback stop hbegun hstop ih
  | reading hbegun _ ih => exact .reading hbegun ih
  | inner j hbegun hproper hinner h hmore' _ =>
    rw [List.append_assoc, List.cons_append]
    exact .inner j hbegun hproper hinner h (hmore'.append hmore)

/-- The thread `s` is in the midst of the invocation `i`, which was `i₀` when it was started on the
thread `t`, with the entries `opened` in the journal. -/
structure Midway (t : Thread) (i₀ : Invocation) (opened : List JournalEntry) (s : Thread)
    (i : Invocation) (n : Nat) (entries : List JournalEntry) (calls : Calls) : Prop where
  levels : Over i n s.stack entries
  journal : s.engine.journal = t.engine.journal ++ opened ++ entries
  active : s.engine.active = t.engine.active + if i.inProgress then 1 else 0
  depth : s.depth = t.depth + 1 + n
  called : s.calls = t.calls ++ calls
  told : Told t.depth i calls
  proper : i.Proper
  frame : i.frame = i₀.frame
  text : i.text = i₀.text
  outermost : i.outermost = (t.depth == 0)

/-- The invocation `i₀` that was started on the thread `t` is finished. -/
structure Finished (t : Thread) (i₀ : Invocation) (opened : List JournalEntry) (u : Thread) :
    Prop where
  stack : u.stack = []
  journal : ∃ inner, Nested inner ∧ u.engine.journal =
    t.engine.journal ++ opened ++ (inner ++ [i₀.frame.entry (.finished i₀.text)])
  active : u.engine.active = t.engine.active
  depth : u.depth = t.depth
  called : ∃ i calls r, u.calls = t.calls ++ calls ∧ u.returned = some r ∧ i.phase = .ending r ∧
    i.outermost = (t.depth == 0) ∧ Told t.depth i calls

section Midway

variable {t s : Thread} {i₀ i j : Invocation} {opened entries : List JournalEntry} {calls : Calls}
  {n : Nat} {rest : List Level}

/-- The innermost invocation goes on. -/
theorem Midway.proceed {e' : Engine} {j' : Invocation} (h : Midway t i₀ opened s i n entries calls)
    (hstack : s.stack = .invocation j :: rest) (hp : j.Proceeds s.engine e' j') :
    ∃ i' entries', Midway t i₀ opened
        { s with engine := e', stack := .invocation j' :: rest } i' n entries' calls ∧
      i'.phase ≠ .opening ∧ (n = 0 → i' = j') := by
  obtain ⟨⟨more, hmore, hjournal⟩, hactive⟩ := hp.engine
  have hover := h.levels
  rw [hstack] at hover
  have hjournal' : e'.journal = t.engine.journal ++ opened ++ (entries ++ more) := by
    rw [hjournal, h.journal, List.append_assoc _ entries]
  cases hover with
  | base hnested =>
    refine ⟨j', entries ++ more, ?_, hp.onward.begun', fun _ => rfl⟩
    refine ⟨.base (hnested.append hmore), hjournal', ?_, h.depth, h.called, h.told.proceed hp,
      hp.onward.proper, hp.frame.trans h.frame, hp.text.trans h.text,
      hp.onward.outermost.trans h.outermost⟩
    rw [hactive, h.active, hp.onward.progress]
  | @inner n stack entries nested _ hbegun hproper hinner hbelow hnested =>
    refine ⟨i, entries ++ j.frame.entry (.started j.text) :: nested ++ more, ?_, hbegun,
      by simp⟩
    refine ⟨?_, hjournal', hactive.trans h.active, h.depth, h.called, h.told, h.proper, h.frame,
      h.text, h.outermost⟩
    rw [List.append_assoc, List.cons_append, ← hp.frame, ← hp.text]
    exact .inner j' hbegun hp.onward.proper (hp.onward.outermost.trans hinner) hbelow
      (hnested.append hmore)

/-- The engine is asked something. -/
theorem Midway.withEngine {e' : Engine} (h : Midway t i₀ opened s i n entries calls)
    (he : s.engine.Unbracketed e') :
    ∃ entries', Midway t i₀ opened { s with engine := e' } i n entries' calls := by
  obtain ⟨⟨more, hmore, hjournal⟩, hactive⟩ := he
  refine ⟨entries ++ more, h.levels.append hmore, ?_, hactive.trans h.active, h.depth, h.called,
    h.told, h.proper, h.frame, h.text, h.outermost⟩
  rw [hjournal, h.journal, List.append_assoc _ entries]

theorem Midway.withStack (h : Midway t i₀ opened s i n entries calls) {stack : List Level}
    (hover : Over i n stack entries) :
    Midway t i₀ opened { s with stack } i n entries calls :=
  ⟨hover, h.journal, h.active, h.depth, h.called, h.told, h.proper, h.frame, h.text, h.outermost⟩

/-- The turn of the host begins with a call that tells of no invocation. -/
theorem Midway.call {caller : Option Nat} {c : HostCall} {stop : Bool}
    (h : Midway t i₀ opened s i n entries calls) (hbegun : i.phase ≠ .opening)
    (hc : c.tells = false) (hown : caller = some (t.depth + 1) → ∀ r, i.phase ≠ .ending r)
    (hstop : stop = true → ∀ j rest, s.stack = .invocation j :: rest → j.atWork = true) :
    Midway t i₀ opened
      { s with stack := .callback stop :: s.stack, calls := s.calls ++ [(caller, c)] }
      i n entries (calls ++ [(caller, c)]) := by
  refine ⟨.callback stop hbegun hstop h.levels, h.journal, h.active, h.depth, ?_,
    h.told.call hbegun hc hown, h.proper, h.frame, h.text, h.outermost⟩
  rw [h.called, List.append_assoc]

/-- A turn of the host ends, or what it read. -/
theorem Midway.below {l : Level} (h : Midway t i₀ opened s i n entries calls)
    (hstack : s.stack = l :: rest) (hl : ∀ j, l ≠ .invocation j) :
    i.phase ≠ .opening ∧ Over i n rest entries := by
  have hover := h.levels
  rw [hstack] at hover
  cases hover with
  | base => exact absurd rfl (hl i)
  | callback stop hbegun _ hbelow => exact ⟨hbegun, hbelow⟩
  | reading hbegun hbelow => exact ⟨hbegun, hbelow⟩
  | inner j => exact absurd rfl (hl j)

/-- The host enters the engine again. -/
theorem Midway.enter (h : Midway t i₀ opened s i n entries calls) (hbegun : i.phase ≠ .opening)
    (frame : FrameInfo) (command : Command) (addToHistory : Bool) :
    Midway t i₀ opened
      (s.enter (s.engine.invoke frame command addToHistory false).1
        (s.engine.invoke frame command addToHistory false).2)
      i (n + 1) (entries ++ [frame.entry (.started command.visibleText)]) calls := by
  refine ⟨.inner _ hbegun trivial rfl h.levels .nil, ?_, h.active, ?_, h.called, h.told, h.proper,
    h.frame, h.text, h.outermost⟩
  · rw [← List.append_assoc, ← h.journal]
    rfl
  · rw [Thread.enter, h.depth]
    rfl

theorem Midway.request (h : Midway t i₀ opened s i n entries calls) (hbegun : i.phase ≠ .opening)
    (q : Request) :
    ∃ n' entries', Midway t i₀ opened (s.begin q) i n' entries' calls := by
  have houtermost : (s.depth == 0) = false := by simp [h.depth]
  cases q with
  | invoke frame command addToHistory =>
    have henter := h.enter hbegun frame command addToHistory
    rw [Thread.begin, houtermost]
    exact ⟨_, _, henter⟩
  | debuggerCommand frame command =>
    have hrecord : s.engine.Unbracketed
        (s.engine.record frame (.debuggerCommand command.visibleText)) :=
      Engine.unbracketed_record frame rfl
    obtain ⟨entries', hrecorded⟩ := h.withEngine hrecord
    rw [Thread.begin, houtermost, Engine.debuggerCommand]
    dsimp only
    cases ResumeAction.ofText? command.visibleText with
    | some action => exact ⟨n, entries', hrecorded⟩
    | none => exact ⟨_, _, hrecorded.enter hbegun frame command false⟩

/-- An innermost invocation has told how it ended, and is finished. -/
theorem Midway.finish {e' : Engine} {r : Evaluation} (h : Midway t i₀ opened s i n entries calls)
    (hstack : s.stack = .invocation j :: rest) (hstep : j.step s.engine = (e', .finish r)) :
    (∃ n' entries', Midway t i₀ opened
      { s with engine := e', depth := s.depth - 1, stack := rest, returned := some r }
      i n' entries' calls) ∨
    Finished t i₀ opened
      { s with engine := e', depth := s.depth - 1, stack := rest, returned := some r } := by
  have hwritten := j.written_step s.engine
  rw [hstep] at hwritten
  rcases hwritten with ⟨r', hphase, heq⟩ | ⟨-, hunwritten⟩
  · cases heq
    have hover := h.levels
    rw [hstack] at hover
    cases hover with
    | base hnested =>
      refine Or.inr ⟨rfl, ⟨entries, hnested, ?_⟩, ?_, ?_, ⟨i, calls, r, h.called, rfl, hphase,
        h.outermost, h.told⟩⟩
      · rw [← h.frame, ← h.text, ← List.append_assoc, ← h.journal]
        rfl
      · have hended : i.inProgress = false := by simp [Invocation.inProgress, hphase]
        have hactive := h.active
        rw [hended] at hactive
        exact hactive
      · rw [h.depth]
        rfl
    | @inner n stack entries nested _ hbegun hproper hinner hbelow hnested =>
      refine Or.inl ⟨n, entries ++ (j.frame.entry (.started j.text) :: nested ++
        [j.frame.entry (.finished j.text)]), hbelow.append (.closed j.frame j.text hnested), ?_,
        h.active, ?_, h.called, h.told, h.proper, h.frame, h.text, h.outermost⟩
      · rw [List.cons_append, ← List.cons_append, ← List.append_assoc entries, ← List.append_assoc,
          ← h.journal]
        rfl
      · dsimp only
        rw [h.depth]
        omega
  · exact absurd rfl (hunwritten.unfinished r)

/-- The innermost invocation is the one that was started first, or an inner one. -/
theorem Midway.top (h : Midway t i₀ opened s i n entries calls)
    (hstack : s.stack = .invocation j :: rest) :
    j.Proper ∧ (j = i ∧ n = 0 ∧ rest = [] ∨ j.outermost = false) := by
  have hover := h.levels
  rw [hstack] at hover
  cases hover with
  | base => exact ⟨h.proper, Or.inl ⟨rfl, rfl, rfl⟩⟩
  | inner j _ hproper hinner => exact ⟨hproper, Or.inr hinner⟩

/-- The first invocation tells of itself. -/
theorem Midway.tell {e' : Engine} {c : HostCall} {i' : Invocation}
    (h : Midway t i₀ opened s i 0 entries calls) (hstack : s.stack = [.invocation i])
    (hstep : i.step s.engine = (e', .call c i')) (hproper : i'.Proper)
    (hbegun : i'.phase ≠ .opening) (hstops : c.stops = false)
    (htold : Told t.depth i' (calls ++ [(some (t.depth + 1), c)])) :
    Midway t i₀ opened
      { s with
        engine := e'
        stack := [.callback c.stops, .invocation i']
        calls := s.calls ++ [(some s.depth, c)] }
      i' 0 entries (calls ++ [(some s.depth, c)]) := by
  have hstepped := i.stepped s.engine
  have hwritten := i.written_step s.engine
  rw [hstep] at hstepped hwritten
  obtain ⟨hframe, houtermost, hactive⟩ := hstepped.advanced i' rfl
  have hover := h.levels
  rw [hstack] at hover
  cases hover with
  | base hnested =>
    rcases hwritten with ⟨r, -, heq⟩ | ⟨-, hunwritten⟩
    · cases heq
    · have hstop : c.stops = true → ∀ j rest, [Level.invocation i'] = .invocation j :: rest →
          j.atWork = true := by simp [hstops]
      refine ⟨.callback _ hbegun hstop (.base hnested), hunwritten.journal.trans h.journal, ?_,
        h.depth, ?_, ?_, hproper, hframe.trans h.frame, (hunwritten.text i' rfl).trans h.text,
        houtermost.trans h.outermost⟩
      · have hcount := h.active
        rcases hactive with ⟨hsame, hactive⟩ | ⟨htrue, hfalse, hactive⟩
        · rw [hactive, hsame, hcount]
        · rw [htrue] at hcount
          rw [hactive, hfalse, hcount]
          rfl
      · rw [h.called, List.append_assoc]
      · rw [h.depth]
        exact htold

/-- A call of the innermost invocation. -/
theorem Midway.step_call {e' : Engine} {c : HostCall} {j' : Invocation}
    (h : Midway t i₀ opened s i n entries calls) (hstack : s.stack = .invocation j :: rest)
    (hstep : j.step s.engine = (e', .call c j')) :
    ∃ i' n' entries' calls', Midway t i₀ opened
      { s with
        engine := e'
        stack := .callback c.stops :: .invocation j' :: rest
        calls := s.calls ++ [(some s.depth, c)] } i' n' entries' calls' := by
  obtain ⟨hproper, hwhich⟩ := h.top hstack
  have hturn := Invocation.turn_step (e := s.engine) hproper
  rw [hstep] at hturn
  cases hturn with
  | announces hphase =>
    rcases hwhich with ⟨rfl, rfl, rfl⟩ | hinner
    · exact ⟨_, _, _, _, h.tell hstack hstep trivial (by simp) rfl
        (h.told.announce hproper hphase)⟩
    · rw [Invocation.Proper, hphase, hinner] at hproper
      cases hproper
  | concludes r hphase houtermost =>
    rcases hwhich with ⟨rfl, rfl, rfl⟩ | hinner
    · have hstops : (Invocation.finalCall r).stops = false := by
        unfold Invocation.finalCall
        split <;> rfl
      exact ⟨_, _, _, _, h.tell hstack hstep trivial (by simp) hstops
        (h.told.conclude hphase houtermost)⟩
    · rw [hinner] at houtermost
      cases houtermost
  | calls c j' hc honward hwork =>
    obtain ⟨i', entries', hnext, hbegun, hsame⟩ :=
      h.proceed hstack (Invocation.proceeds_step hstep rfl honward)
    have hown : some s.depth = some (t.depth + 1) → ∀ r, i'.phase ≠ .ending r := by
      intro hdepth r hphase
      have hfirst : n = 0 := by
        have := h.depth
        have := Option.some.inj hdepth
        omega
      rw [hsame hfirst] at hphase
      rw [Invocation.atWork, hphase] at hwork
      cases hwork
    refine ⟨i', n, entries', _, hnext.call hbegun hc hown ?_⟩
    rintro - j rest heq
    cases heq
    exact hwork

/-- One step of the thread, if nothing panics in it. -/
theorem Midway.step {s' : Thread} (h : Midway t i₀ opened s i n entries calls) (hstep : Step s s')
    (hpanics : s'.panics = s.panics) :
    (∃ i' n' entries' calls', Midway t i₀ opened s' i' n' entries' calls') ∨
      Finished t i₀ opened s' := by
  cases hstep with
  | @advance j j' rest e hstack hstep =>
    have hturn := Invocation.turn_step (e := s.engine) (h.top hstack).1
    rw [hstep] at hturn
    cases hturn with
    | advances _ honward =>
      obtain ⟨i', entries', hnext, -⟩ :=
        h.proceed hstack (Invocation.proceeds_step hstep rfl honward)
      exact Or.inl ⟨_, _, _, _, hnext⟩
  | @sleep j j' rest e ms hstack hstep =>
    have hturn := Invocation.turn_step (e := s.engine) (h.top hstack).1
    rw [hstep] at hturn
    cases hturn with
    | sleeps _ _ honward =>
      obtain ⟨i', entries', hnext, -⟩ :=
        h.proceed hstack (Invocation.proceeds_step hstep rfl honward)
      exact Or.inl ⟨_, _, _, _, hnext⟩
  | call hstack hstep => exact Or.inl (h.step_call hstack hstep)
  | finish hstack hstep =>
    rcases h.finish hstack hstep with ⟨n', entries', hnext⟩ | hfinished
    · exact Or.inl ⟨_, _, _, _, hnext⟩
    · exact Or.inr hfinished
  | panic => simp at hpanics
  | @resume j rest action hstack =>
    have hover := h.levels
    rw [hstack] at hover
    cases hover with
    | callback _ hbegun hstop hbelow =>
      have hproceeds := Invocation.proceeds_resume (e := s.engine) (hstop rfl j rest rfl) action
      obtain ⟨i', entries', hnext, -⟩ := (h.withStack hbelow).proceed rfl hproceeds
      exact Or.inl ⟨_, _, _, _, hnext⟩
  | comeBack hstack =>
    exact Or.inl ⟨_, _, _, _, h.withStack (h.below hstack (by simp)).2⟩
  | request q hstack =>
    obtain ⟨n', entries', hnext⟩ := h.request (h.below hstack (by simp)).1 q
    exact Or.inl ⟨_, _, _, _, hnext⟩
  | read frame hstack =>
    have hread := h.withStack (.reading (h.below hstack (by simp)).1 h.levels)
    have hrecord : s.engine.Unbracketed (s.engine.record frame .readLine) :=
      Engine.unbracketed_record frame rfl
    obtain ⟨entries', hnext⟩ := hread.withEngine hrecord
    exact Or.inl ⟨_, _, _, _, hnext⟩
  | idle hstack =>
    exact Or.inl ⟨_, _, _, _, h.call (h.below hstack (by simp)).1 rfl (by simp) (by simp)⟩
  | @readDone rest input hstack _ =>
    have hbelow := h.withStack (h.below hstack (by simp)).2
    have hsame : s.engine.Unbracketed { s.engine with input } := .of_same rfl rfl
    obtain ⟨entries', hnext⟩ := hbelow.withEngine hsame
    exact Or.inl ⟨_, _, _, _, hnext⟩
  | asked _ hasked =>
    obtain ⟨entries', hnext⟩ := h.withEngine hasked.unbracketed
    exact Or.inl ⟨_, _, _, _, hnext⟩

end Midway

section Runs

variable {t s u : Thread}

theorem Step.panics_le {s' : Thread} (h : Step s s') : s.panics ≤ s'.panics := by
  cases h with
  | panic => exact Nat.le_succ _
  | request q =>
    cases q with
    | invoke => exact Nat.le_refl _
    | debuggerCommand =>
      rw [Thread.begin]
      split <;> exact Nat.le_refl _
  | _ => exact Nat.le_refl _

theorem Steps.panics_le (h : Steps s u) : s.panics ≤ u.panics := by
  induction h with
  | refl => exact Nat.le_refl _
  | tail _ hstep ih => exact Nat.le_trans ih hstep.panics_le

/-- Nothing happens on a thread that is in the middle of nothing. -/
theorem Steps.of_empty (h : Steps s u) (hs : s.stack = []) : u = s := by
  induction h with
  | refl => rfl
  | tail _ hstep ih =>
    rw [ih] at hstep
    cases hstep <;> simp_all

/-- An invocation that was started and in which nothing panicked is finished when the thread is in
the middle of nothing. -/
theorem finished_of_steps {i₀ : Invocation} {opened : List JournalEntry}
    (hstart : Midway t i₀ opened s i₀ 0 [] []) (hsteps : Steps s u) (hu : u.stack = [])
    (hpanics : u.panics = s.panics) : Finished t i₀ opened u := by
  have hcourse : ∀ {v : Thread}, Steps s v → v.panics = s.panics →
      (∃ i n entries calls, Midway t i₀ opened v i n entries calls) ∨
        Finished t i₀ opened v := by
    intro v hv
    induction hv with
    | refl => exact fun _ => Or.inl ⟨_, _, _, _, hstart⟩
    | @tail v v' hv hstep ih =>
      intro hpanics
      have hkept : v.panics = s.panics :=
        Nat.le_antisymm (hpanics ▸ hstep.panics_le) (Steps.panics_le hv)
      rcases ih hkept with ⟨i, n, entries, calls, hmidway⟩ | hfinished
      · exact hmidway.step hstep (hpanics.trans hkept.symm)
      · have hsame := Steps.of_empty (.single hstep) hfinished.stack
        exact Or.inr (hsame ▸ hfinished)
  rcases hcourse hsteps hpanics with ⟨i, n, entries, calls, hmidway⟩ | hfinished
  · have hover := hmidway.levels
    rw [hu] at hover
    cases hover
  · exact hfinished

end Runs

/-- Whether a request comes to an invocation. -/
def Request.invokes : Request → Bool
  | .invoke _ _ _ => true
  | .debuggerCommand _ command => (ResumeAction.ofText? command.visibleText).isNone

/-- What a request writes into the journal: its invocation, with all that goes on inside it. -/
def Request.Writes (q : Request) (entries : List JournalEntry) : Prop :=
  match q with
  | .invoke frame command _ => Bracket frame command.visibleText entries
  | .debuggerCommand frame command =>
    ∃ rest, entries = frame.entry (.debuggerCommand command.visibleText) :: rest ∧
      if q.invokes then Bracket frame command.visibleText rest else rest = []

/-- What the host is told of an invocation that was started over `depth` others and came to its
result: if it is outermost, that it runs before anything else, how it came out after anything else
that it calls, and nothing of the kind in between. -/
def Reports (depth : Nat) (returned : Option Evaluation) (calls : Calls) : Prop :=
  if depth = 0 then
    ∃ r before after, returned = some r ∧
      calls = (some 1, .stateChanged .running none) ::
        (before ++ (some 1, Invocation.finalCall r) :: after) ∧
      Quiet before ∧ Quiet after ∧ ∀ x ∈ after, x.1 ≠ some 1
  else Quiet calls

theorem Finished.reports {t u : Thread} {i₀ : Invocation} {opened : List JournalEntry}
    (h : Finished t i₀ opened u) :
    ∃ calls, u.calls = t.calls ++ calls ∧ Reports t.depth u.returned calls := by
  obtain ⟨i, calls, r, hcalls, hreturned, hphase, houtermost, htold⟩ := h.called
  refine ⟨calls, hcalls, ?_⟩
  unfold Reports
  split
  · next hdepth =>
    rw [hdepth] at htold houtermost
    cases htold with
    | unheard hopening => simp [hphase] at hopening
    | heard _ hprogress => simp [Invocation.inProgress, hphase] at hprogress
    | @told before after r' hphase' _ hbefore hafter hlast =>
      obtain rfl : r = r' := by simpa [hphase] using hphase'
      exact ⟨r, before, after, hreturned, rfl, hbefore, hafter, hlast⟩
    | silent _ hinner => simp [houtermost] at hinner
  · next hdepth =>
    have hinner : i.outermost = false := by simpa [houtermost] using hdepth
    cases htold with
    | unheard => simp [Quiet]
    | heard _ hprogress => simp [Invocation.inProgress, hinner] at hprogress
    | told r' _ houter => simp [hinner] at houter
    | silent _ _ hcalls => exact hcalls

theorem Finished.writes {t u : Thread} {i₀ : Invocation} {opened : List JournalEntry}
    (h : Finished t i₀ (opened ++ [i₀.frame.entry (.started i₀.text)]) u) :
    ∃ entries, u.engine.journal = t.engine.journal ++ opened ++ entries ∧
      Bracket i₀.frame i₀.text entries := by
  obtain ⟨inner, hinner, hjournal⟩ := h.journal
  refine ⟨_, ?_, inner, hinner, rfl⟩
  rw [hjournal]
  simp

/-- A thread that is in the middle of nothing starts an invocation, after `opened`. -/
theorem midway_invoke {t : Thread} (ht : t.stack = []) {e : Engine} {opened : List JournalEntry}
    (hjournal : e.journal = t.engine.journal ++ opened) (hactive : e.active = t.engine.active)
    (frame : FrameInfo) (command : Command) (addToHistory : Bool) :
    Midway t (e.invoke frame command addToHistory (t.depth == 0)).2
      (opened ++ [frame.entry (.started command.visibleText)])
      (t.enter (e.invoke frame command addToHistory (t.depth == 0)).1
        (e.invoke frame command addToHistory (t.depth == 0)).2)
      (e.invoke frame command addToHistory (t.depth == 0)).2 0 [] [] := by
  have hwritten : (e.invoke frame command addToHistory (t.depth == 0)).1.journal =
      t.engine.journal ++ (opened ++ [frame.entry (.started command.visibleText)]) ++ [] := by
    rw [List.append_nil, ← List.append_assoc, ← hjournal]
    cases t.depth == 0 <;> rfl
  have hover : Over (e.invoke frame command addToHistory (t.depth == 0)).2 0
      (t.enter (e.invoke frame command addToHistory (t.depth == 0)).1
        (e.invoke frame command addToHistory (t.depth == 0)).2).stack [] := by
    rw [Thread.enter, ht]
    exact .base .nil
  refine ⟨hover, hwritten, ?_, rfl, (List.append_nil _).symm, ?_, ?_, rfl, rfl, rfl⟩ <;>
    cases houter : t.depth == 0
  · exact hactive
  · exact congrArg (· + 1) hactive
  · exact .silent (by simp [Engine.invoke]) rfl (by simp [Quiet])
  · exact .unheard rfl
  · trivial
  · rfl

/-- An invocation that was started when the thread was in the middle of nothing is finished when it
is so again. -/
theorem bracketed_invoke {t u : Thread} (ht : t.stack = []) {e : Engine}
    {opened : List JournalEntry} (hjournal : e.journal = t.engine.journal ++ opened)
    (hactive : e.active = t.engine.active) (frame : FrameInfo) (command : Command)
    (addToHistory : Bool)
    (hsteps : Steps (t.enter (e.invoke frame command addToHistory (t.depth == 0)).1
      (e.invoke frame command addToHistory (t.depth == 0)).2) u)
    (hu : u.stack = []) (hpanics : u.panics = t.panics) :
    ∃ entries calls, u.engine.journal = t.engine.journal ++ opened ++ entries ∧
      u.calls = t.calls ++ calls ∧ Bracket frame command.visibleText entries ∧
      Reports t.depth u.returned calls ∧ u.depth = t.depth ∧
      u.engine.active = t.engine.active := by
  have hstart := midway_invoke ht hjournal hactive frame command addToHistory
  have hfinished := finished_of_steps hstart hsteps hu hpanics
  obtain ⟨entries, hentries, hbracket⟩ := hfinished.writes
  obtain ⟨calls, hcalls, hreports⟩ := hfinished.reports
  exact ⟨entries, calls, hentries, hcalls, hbracket, hreports, hfinished.depth, hfinished.active⟩

/-- Whatever the host does in its turns, and however often it enters the engine again: what a
request writes into the journal is properly nested, with its own invocation around all the rest;
the host is told of that invocation, and of no other, if it is outermost; and afterwards as many
invocations are in progress as before. -/
theorem well_bracketed (q : Request) {t u : Thread} (ht : t.stack = [])
    (hsteps : Steps (t.begin q) u) (hu : u.stack = []) (hpanics : u.panics = t.panics) :
    ∃ entries calls, u.engine.journal = t.engine.journal ++ entries ∧ u.calls = t.calls ++ calls ∧
      q.Writes entries ∧ (if q.invokes then Reports t.depth u.returned calls else calls = []) ∧
      u.depth = t.depth ∧ u.engine.active = t.engine.active := by
  cases q with
  | invoke frame command addToHistory =>
    obtain ⟨entries, calls, hentries, hcalls, hbracket, hreports, hsame⟩ :=
      bracketed_invoke ht (List.append_nil _).symm rfl frame command addToHistory hsteps hu hpanics
    rw [List.append_nil] at hentries
    exact ⟨entries, calls, hentries, hcalls, hbracket, hreports, hsame⟩
  | debuggerCommand frame command =>
    rw [Thread.begin, Engine.debuggerCommand] at hsteps
    dsimp only at hsteps
    cases haction : ResumeAction.ofText? command.visibleText with
    | some action =>
      rw [haction] at hsteps
      obtain rfl := hsteps.of_empty ht
      exact ⟨_, [], rfl, (List.append_nil _).symm, ⟨[], rfl, by simp [Request.invokes, haction]⟩,
        by simp [Request.invokes, haction], rfl, rfl⟩
    | none =>
      rw [haction] at hsteps
      have hjournal : (t.engine.record frame (.debuggerCommand command.visibleText)).journal =
          t.engine.journal ++ [frame.entry (.debuggerCommand command.visibleText)] := rfl
      obtain ⟨entries, calls, hentries, hcalls, hbracket, hreports, hsame⟩ :=
        bracketed_invoke ht hjournal rfl frame command false hsteps hu hpanics
      rw [List.append_assoc] at hentries
      refine ⟨_, calls, hentries, hcalls, ⟨entries, rfl, ?_⟩, ?_, hsame⟩
      · simpa [Request.invokes, haction] using hbracket
      · simpa [Request.invokes, haction] using hreports

/-- A host that runs a nested prompt and an instruction of the debugger when the debugger stops,
and a command in the nested prompt. -/
def reentering : Scripted.Machine :=
  { stops :=
      [{ run := [.invoke (.ofScript "nested") false {}, .debuggerCommand (.ofScript "c") {}] }]
    nests := [{ run := [.debuggerCommand (.ofScript "echo in") { depth := 1 }] }] }

/-- An outermost command stops, and in its stop two levels of commands are run. -/
def stopping : Request :=
  .invoke {} (.ofScript "breakpoint | throw up") true

theorem well_bracketed_reentered :
    ∃ u entries calls, Steps (({} : Thread).begin stopping) u ∧ u.stack = [] ∧ u.panics = 0 ∧
      u.engine.journal = entries ∧ entries.length = 9 ∧ u.calls = calls ∧ calls.length = 4 ∧
      stopping.Writes entries ∧ Reports 0 u.returned calls ∧ u.depth = 0 ∧
      u.engine.active = 0 := by
  have hstart : Follows reentering {} :=
    ⟨rfl, rfl, rfl, rfl, by simp [reentering], by simp⟩
  obtain ⟨u, hsteps, hfollows⟩ := hstart.perform rfl stopping
  have hstack : u.stack = [] := hfollows.stack.trans (by decide +kernel)
  have hcalm : panicked (Scripted.Machine.run Scripted.Machine.patience
      (reentering.start stopping.step)) = false := by decide +kernel
  have hpanics : u.panics = 0 := by
    refine Nat.eq_zero_of_not_pos fun hpos => ?_
    have hpanicked := hfollows.panics hpos
    rw [hcalm] at hpanicked
    cases hpanicked
  obtain ⟨entries, calls, hentries, hcalls, hwrites, hreports, hdepth, hactive⟩ :=
    well_bracketed stopping (t := {}) rfl hsteps hstack hpanics
  have hnumber : u.engine.journal.length = 9 := by
    rw [hfollows.engine]
    decide +kernel
  have hcalled : u.calls.length = 4 := by
    have hlength := congrArg List.length hfollows.calls
    rw [List.length_map] at hlength
    rw [hlength]
    decide +kernel
  rw [List.nil_append] at hcalls
  refine ⟨u, entries, calls, hsteps, hstack, hpanics, hentries, ?_, hcalls, hcalls ▸ hcalled,
    hwrites, hreports, hdepth, hactive⟩
  rw [← hnumber, hentries]
  rfl

end Hosted

end ScriptHost
