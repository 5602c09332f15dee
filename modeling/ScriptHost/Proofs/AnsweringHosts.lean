import Mathlib.Logic.Relation
import ScriptHost.Proofs.HostedThreads
import ScriptHost.Proofs.PlainInvocations

/-!
One invocation with any host. What the host does while it is called, entering the engine again
included, comes down to what it leaves behind: how the debugger resumes, the engine and the
host. An invocation that renders nothing keeps to its course with jobs still to be added, as long
as the host does.
-/

namespace ScriptHost

namespace Host

/-- What a call of the host comes to. Only to a debugger stop does the action matter. -/
structure Reply (σ : Type) where
  answer : Except Panic ResumeAction
  engine : Engine
  host : σ

/-- An invocation in progress, with its engine and its host. -/
structure Scene (σ : Type) where
  engine : Engine
  host : σ
  invocation : Invocation

/-- How an invocation ended: with its result or by a panic, after these calls of the host. -/
structure Ending (σ : Type) where
  result : Except Panic Evaluation
  calls : List HostCall := []
  engine : Engine
  host : σ

/-- What a step comes to. It may call the host once, and it may be the last one. -/
inductive Outcome (σ : Type) where
  | goes (call : Option HostCall) (x : Scene σ)
  | ends (o : Ending σ)

def Ending.after {σ : Type} (o : Ending σ) (call : Option HostCall) : Ending σ :=
  { o with calls := call.toList ++ o.calls }

/-- What becomes of an invocation when the host is through with a call. -/
def Reply.resumes {σ : Type} (r : Reply σ) (c : HostCall) (i : Invocation) : Outcome σ :=
  match r.answer with
  | .error p => .ends { result := .error p, calls := [c], engine := r.engine, host := r.host }
  | .ok action =>
    let (engine, invocation) := if c.stops then i.resume r.engine action else (r.engine, i)
    .goes (some c) { engine, host := r.host, invocation }

end Host

/-- A host with states `σ`: the replies it may give to a call. It need not give any. -/
abbrev Host (σ : Type) :=
  HostCall → Engine → σ → Host.Reply σ → Prop

namespace Host

variable {σ : Type} {H : Host σ} {same : σ → σ → Prop} {e : Engine} {s t : σ} {c : HostCall}
  {i i' : Invocation} {x y : Scene σ} {z z' : Outcome σ} {o o' : Ending σ} {more : List Job}
  {merge : Bool}

/-- What a step of an invocation may come to with the host. -/
def Follows (H : Host σ) (s : σ) : Engine × Move → Outcome σ → Prop
  | (e, .advance i), z => z = .goes none ⟨e, s, i⟩
  | (e, .sleep _ i), z => z = .goes none ⟨e, s, i⟩
  | (e, .call c i), z => ∃ r, H c e s r ∧ z = r.resumes c i
  | (e, .finish r), z => z = .ends { result := .ok r, engine := e, host := s }
  | (e, .panic p), z => z = .ends { result := .error p, engine := e, host := s }

def Step (H : Host σ) (x : Scene σ) : Outcome σ → Prop :=
  H.Follows x.host (x.invocation.step x.engine)

/-- How the invocation can end. -/
inductive Ends (H : Host σ) : Scene σ → Ending σ → Prop
  | last {x : Scene σ} {o : Ending σ} (h : H.Step x (.ends o)) : Ends H x o
  | goes {x y : Scene σ} {call : Option HostCall} {o : Ending σ} (h : H.Step x (.goes call y))
      (hrest : Ends H y o) : Ends H x (o.after call)

/-- The invocation gets from `x` to `y`. -/
abbrev Reaches (H : Host σ) : Scene σ → Scene σ → Prop :=
  Relation.ReflTransGen fun x y => ∃ call, H.Step x (.goes call y)

/-- What an invocation of a command comes to. -/
def Invokes (H : Host σ) (e : Engine) (s : σ) (frame : FrameInfo) (c : Command)
    (addToHistory outermost : Bool) : Ending σ → Prop :=
  H.Ends ⟨(e.invoke frame c addToHistory outermost).1, s,
    (e.invoke frame c addToHistory outermost).2⟩

/-- A host that has at most one reply to a call. -/
def Deterministic (H : Host σ) : Prop :=
  ∀ c e s r r', H c e s r → H c e s r' → r = r'

theorem Follows.unique (hdet : H.Deterministic) {r : Engine × Move} (h : H.Follows s r z)
    (h' : H.Follows s r z') : z = z' := by
  rcases r with ⟨e, _ | ⟨c, i⟩ | _ | _ | _⟩
  case call =>
    obtain ⟨r, hreply, rfl⟩ := h
    obtain ⟨r', hreply', rfl⟩ := h'
    rw [hdet c e s r r' hreply hreply']
  all_goals exact Eq.trans h (Eq.symm h')

/-- With a deterministic host an invocation ends in one way at most. -/
theorem Ends.unique (hdet : H.Deterministic) (h : H.Ends x o) (h' : H.Ends x o') : o = o' := by
  induction h generalizing o' with
  | last h =>
    cases h' with
    | last h' =>
      cases Follows.unique hdet h h'
      rfl
    | goes h' => cases Follows.unique hdet h h'
  | goes h _ ih =>
    cases h' with
    | last h' => cases Follows.unique hdet h h'
    | goes h' hrest' =>
      cases Follows.unique hdet h h'
      rw [ih hrest']

/-- How an invocation ends after a step. -/
def Comes (H : Host σ) : Outcome σ → Ending σ → Prop
  | .ends o', o => o = o'
  | .goes call y, o => ∃ o', H.Ends y o' ∧ o = o'.after call

theorem ends_iff : H.Ends x o ↔ ∃ z, H.Step x z ∧ H.Comes z o := by
  constructor
  · rintro (⟨h⟩ | ⟨h, hrest⟩)
    · exact ⟨_, h, rfl⟩
    · exact ⟨_, h, _, hrest, rfl⟩
  · rintro ⟨⟨call, y⟩ | ⟨o'⟩, h, hcomes⟩
    · obtain ⟨o', hrest, rfl⟩ := hcomes
      exact .goes h hrest
    · cases hcomes
      exact .last h

theorem ends_iff_of_step {r : Engine × Move} (h : x.invocation.step x.engine = r) :
    H.Ends x o ↔ ∃ z, H.Follows x.host r z ∧ H.Comes z o := by
  rw [ends_iff, Step, h]

theorem ends_of_advance (h : x.invocation.step x.engine = (e, .advance i)) :
    H.Ends x o ↔ H.Ends ⟨e, x.host, i⟩ o := by
  rw [ends_iff_of_step h]
  constructor
  · rintro ⟨z, rfl, o', hrest, rfl⟩
    exact hrest
  · intro hrest
    exact ⟨_, rfl, o, hrest, rfl⟩

theorem ends_of_call (h : x.invocation.step x.engine = (e, .call c i)) :
    H.Ends x o ↔ ∃ r, H c e x.host r ∧ H.Comes (r.resumes c i) o := by
  rw [ends_iff_of_step h]
  constructor
  · rintro ⟨z, ⟨r, hreply, rfl⟩, hcomes⟩
    exact ⟨r, hreply, hcomes⟩
  · rintro ⟨r, hreply, hcomes⟩
    exact ⟨_, ⟨r, hreply, rfl⟩, hcomes⟩

theorem ends_of_finish {r : Evaluation} (h : x.invocation.step x.engine = (e, .finish r)) :
    H.Ends x o ↔ o = { result := .ok r, engine := e, host := x.host } := by
  rw [ends_iff_of_step h]
  constructor
  · rintro ⟨z, rfl, rfl⟩
    rfl
  · rintro rfl
    exact ⟨_, rfl, rfl⟩

/-- A call that is answered without more. -/
theorem resumes_of_ok {r : Reply σ} {action : ResumeAction} (h : r.answer = .ok action)
    (hc : c.stops = false) : r.resumes c i = .goes (some c) ⟨r.engine, r.host, i⟩ := by
  unfold Reply.resumes
  rw [h, hc]
  rfl

theorem resumes_of_error {r : Reply σ} {p : Panic} (h : r.answer = .error p) :
    r.resumes c i =
      .ends { result := .error p, calls := [c], engine := r.engine, host := r.host } := by
  unfold Reply.resumes
  rw [h]

/-- The host takes states that are the same to it for each other. -/
def Respects (H : Host σ) (same : σ → σ → Prop) : Prop :=
  ∀ c e s t r, same s t → H c e s r →
    ∃ r', H c e t r' ∧ r'.answer = r.answer ∧ r'.engine = r.engine ∧ same r.host r'.host

/-- The same becomes of an invocation and of one with more to do. -/
inductive Alike (same : σ → σ → Prop) (more : List Job) (merge : Bool) :
    Outcome σ → Outcome σ → Prop
  | goes {call : Option HostCall} {e : Engine} {s t : σ} {i : Invocation} (hst : same s t) :
      Alike same more merge (.goes call ⟨e, s, i⟩) (.goes call ⟨e, t, i.extended more merge⟩)
  | ends {result : Except Panic Evaluation} {calls : List HostCall} {e : Engine} {s t : σ}
      (hst : same s t) :
      Alike same more merge (.ends ⟨result, calls, e, s⟩) (.ends ⟨result, calls, e, t⟩)

theorem alike_resumes {r r' : Reply σ} (hanswer : r'.answer = r.answer)
    (hengine : r'.engine = r.engine) (hhost : same r.host r'.host) (c : HostCall)
    (i : Invocation) :
    Alike same more merge (r.resumes c i) (r'.resumes c (i.extended more merge)) := by
  unfold Reply.resumes
  rw [hanswer, hengine]
  cases r.answer with
  | error p => exact .ends hhost
  | ok action =>
    cases c.stops
    · exact .goes hhost
    · simp only [Invocation.resume_extended, if_true]
      exact .goes hhost

theorem Follows.extended (hH : H.Respects same) (hst : same s t) {r : Engine × Move}
    (h : H.Follows s r z) :
    ∃ z', H.Follows t (r.1, r.2.map (·.extended more merge)) z' ∧ Alike same more merge z z' := by
  rcases r with ⟨e, i | ⟨c, i⟩ | ⟨ms, i⟩ | r | p⟩
  case call =>
    obtain ⟨r, hreply, rfl⟩ := h
    obtain ⟨r', hreply', hanswer, hengine, hhost⟩ := hH c e s t r hst hreply
    exact ⟨_, ⟨r', hreply', rfl⟩, alike_resumes hanswer hengine hhost c i⟩
  all_goals
    cases h
    refine ⟨_, rfl, ?_⟩
    constructor
    exact hst

theorem Step.extended (merge : Bool) (hH : H.Respects same) (hst : same s t) (hplain : i.Plain)
    (hmore : more = [] ∨ ¬ i.Evaluated) (h : H.Step ⟨e, s, i⟩ z) :
    ∃ z', H.Step ⟨e, t, i.extended more merge⟩ z' ∧ Alike same more merge z z' := by
  unfold Step
  rw [Invocation.step_extended hplain hmore]
  exact Follows.extended hH hst h

/-- What a call does to an invocation does not make it render, nor does it give it a result. -/
theorem Follows.of_moves {P : Invocation → Prop} {r : Engine × Move} {call : Option HostCall}
    (hr : ∀ i, r.2.invocation? = some i → P i)
    (hresume : ∀ (e : Engine) i action, P i → P (i.resume e action).2)
    (h : H.Follows s r (.goes call y)) : P y.invocation := by
  rcases r with ⟨e, i | ⟨c, i⟩ | ⟨ms, i⟩ | r | p⟩
  case call =>
    obtain ⟨r, -, hy⟩ := h
    unfold Reply.resumes at hy
    cases hanswer : r.answer with
    | error p => simp [hanswer] at hy
    | ok action =>
      rw [hanswer] at hy
      cases hstops : c.stops <;> rw [hstops] at hy <;> cases hy
      · exact hr i rfl
      · exact hresume r.engine i action (hr i rfl)
  all_goals
    cases h
    try exact hr _ rfl

theorem Step.plain {call : Option HostCall} (hplain : x.invocation.Plain)
    (h : H.Step x (.goes call y)) : y.invocation.Plain :=
  Follows.of_moves (fun _ hi => hplain.step hi) (fun e _ action hi => hi.resume e action) h

theorem Step.pending {call : Option HostCall} (hpending : x.invocation.Pending)
    (hplain : x.invocation.Plain) (hdone : ¬ x.invocation.Evaluated)
    (h : H.Step x (.goes call y)) : y.invocation.Pending :=
  Follows.of_moves (fun _ hi => hpending.step hplain hdone hi)
    (fun e i action _ => Invocation.pending_resume e i action) h

theorem respects_eq (H : Host σ) : H.Respects Eq := by
  rintro c e s _ r rfl hreply
  exact ⟨r, hreply, rfl, rfl, rfl⟩

/-- Where an invocation that renders nothing would send its errors does not matter. -/
theorem Ends.merged (h : H.Ends x o) (hplain : x.invocation.Plain) (merge : Bool) :
    H.Ends { x with invocation := x.invocation.extended [] merge } o := by
  induction h with
  | last h =>
    obtain ⟨z', hstep, halike⟩ := h.extended merge (respects_eq H) rfl hplain (Or.inl rfl)
    cases halike with
    | ends hst =>
      cases hst
      exact .last hstep
  | goes h _ ih =>
    obtain ⟨z', hstep, halike⟩ := h.extended merge (respects_eq H) rfl hplain (Or.inl rfl)
    cases halike with
    | goes hst =>
      cases hst
      exact .goes hstep (ih (h.plain hplain))

/-- A host that has one reply to each call. -/
def ofReplies (f : HostCall → Engine → σ → Reply σ) : Host σ :=
  fun c e s r => r = f c e s

/-- The reply of a host that comes back at once. -/
def atOnce (_ : HostCall) (e : Engine) (s : σ) : Reply σ :=
  { answer := .ok .proceed, engine := e, host := s }

theorem deterministic_ofReplies (f : HostCall → Engine → σ → Reply σ) :
    (ofReplies f).Deterministic := by
  rintro c e s r r' rfl rfl
  rfl

def next (f : HostCall → Engine → σ → Reply σ) (x : Scene σ) : Outcome σ :=
  match x.invocation.step x.engine with
  | (e, .advance i) | (e, .sleep _ i) => .goes none ⟨e, x.host, i⟩
  | (e, .call c i) => (f c e x.host).resumes c i
  | (e, .finish r) => .ends { result := .ok r, engine := e, host := x.host }
  | (e, .panic p) => .ends { result := .error p, engine := e, host := x.host }

/-- Runs an invocation for a number of steps. -/
def ending? (f : HostCall → Engine → σ → Reply σ) : Nat → Scene σ → Option (Ending σ)
  | 0, _ => none
  | n + 1, x =>
    match next f x with
    | .ends o => some o
    | .goes call y => (ending? f n y).map (·.after call)

theorem step_next (f : HostCall → Engine → σ → Reply σ) (x : Scene σ) :
    (ofReplies f).Step x (next f x) := by
  unfold Step next
  rcases x.invocation.step x.engine with ⟨e, i | ⟨c, i⟩ | ⟨ms, i⟩ | r | p⟩
  case call => exact ⟨_, rfl, rfl⟩
  all_goals rfl

theorem ends_of_ending? {f : HostCall → Engine → σ → Reply σ} {n : Nat}
    (h : ending? f n x = some o) : (ofReplies f).Ends x o := by
  induction n generalizing x o with
  | zero => cases h
  | succ n ih =>
    have hstep := step_next f x
    rw [ending?] at h
    cases hnext : next f x with
    | ends o' =>
      rw [hnext] at h hstep
      cases h
      exact .last hstep
    | goes call y =>
      rw [hnext, Option.map_eq_some_iff] at h
      obtain ⟨o', hrest, rfl⟩ := h
      exact .goes (hnext ▸ hstep) (ih hrest)

end Host

end ScriptHost
