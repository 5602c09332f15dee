import ScriptHost.Proofs.HandOvers

/-!
The course of one call. A call is an execution at a certain height of the stack of its
thread. What belongs to it is read off the steps of its thread: the requests and the
workers it made, what was handed to the engine on its behalf, and what it ended with.
-/

namespace ScriptHost.Service

def Activation.call? : Activation → Option (Order × ExecPhase)
  | .exec o phase => some (o, phase)
  | _ => none

/-- The execution at a height of a stack, the innermost activation being the highest. -/
def callAt (h : Nat) : List Activation → Option (Order × ExecPhase)
  | [] => none
  | a :: rest => if rest.length = h then a.call? else callAt h rest

section CallAt

variable {h : Nat} {a : Activation} {top rest : List Activation}

theorem callAt_append_of_lt (hlt : h < rest.length) : callAt h (top ++ rest) = callAt h rest := by
  induction top with
  | nil => rfl
  | cons a top ih =>
    rw [List.cons_append, callAt, if_neg, ih]
    rw [List.length_append]
    omega

theorem callAt_cons_of_lt (hlt : h < rest.length) : callAt h (a :: rest) = callAt h rest := by
  rw [← List.singleton_append, callAt_append_of_lt hlt]

theorem callAt_of_le (hle : rest.length ≤ h) : callAt h rest = none := by
  induction rest with
  | nil => rfl
  | cons a rest ih =>
    rw [List.length_cons] at hle
    rw [callAt, if_neg (by omega), ih (by omega)]

theorem callAt_exec {o : Order} {phase : ExecPhase} :
    callAt rest.length (.exec o phase :: rest) = some (o, phase) := by
  rw [callAt, if_pos rfl]
  rfl

/-- Above `rest` there is no execution in `top`. -/
theorem callAt_append_of_le (htop : ∀ o phase, .exec o phase ∉ top) (hle : rest.length ≤ h) :
    callAt h (top ++ rest) = none := by
  induction top with
  | nil => exact callAt_of_le hle
  | cons a top ih =>
    rw [List.cons_append, callAt]
    by_cases hlength : (top ++ rest).length = h
    · rw [if_pos hlength]
      cases a with
      | exec o phase => exact absurd List.mem_cons_self (htop o phase)
      | _ => rfl
    · rw [if_neg hlength]
      exact ih fun o phase hmem => htop o phase (List.mem_cons_of_mem a hmem)

theorem callAt_cons_of_le (ha : ∀ o phase, a ≠ .exec o phase) (hle : rest.length ≤ h) :
    callAt h (a :: rest) = none := by
  rw [← List.singleton_append]
  refine callAt_append_of_le ?_ hle
  intro o phase hmem
  exact ha o phase (List.mem_singleton.mp hmem).symm

theorem exec_not_mem_of_plain (h : top.all Activation.plain) (o : Order) (phase : ExecPhase) :
    Activation.exec o phase ∉ top := by
  intro hmem
  have := List.all_eq_true.mp h _ hmem
  cases this

theorem Begins.exec_not_mem {o : Order} {above : List Activation} {c : Control}
    (h : Begins o above c) (o' : Order) (phase : ExecPhase) : .exec o' phase ∉ above := by
  cases h with
  | refused e => simp
  | entering => simp
  | handed above loop control habove =>
    simpa using exec_not_mem_of_plain habove o' phase

end CallAt

/-- How a phase of an execution follows another: the execution makes a request or a worker
and names it, or it names nothing it did not name before. What it keeps as its reply is an
answer. -/
structure Follows (x : Exchange) (c : Control) (phase : ExecPhase) (x' : Exchange)
    (phase' : ExecPhase) : Prop where
  request : x'.cells.length = x.cells.length ∧
      (phase'.request? = phase.request? ∨ phase'.request? = none) ∨
    x'.cells.length = x.cells.length + 1 ∧ phase'.request? = some x.cells.length
  worker : ∀ j, phase' = .joining j →
    j = x.threads.length ∧ x'.threads.length = x.threads.length + 1
  kept : ∀ r, phase' = .finishing r → Answers x c phase r

/-- What a move does to the executions in a stack. -/
inductive CallStep (x : Exchange) (c : Control) (s : List Activation) (x' : Exchange)
    (c' : Control) (s' : List Activation) : Prop
  | aside (a : Activation) (new rest : List Activation) (hs : s = a :: rest)
      (hs' : s' = new ++ rest) (ha : ∀ o phase, a ≠ .exec o phase)
      (hnew : ∀ h o phase, rest.length ≤ h → callAt h s' = some (o, phase) → phase = .checking)
      (hcells : x'.cells.length = x.cells.length)
  | onward (o : Order) (phase phase' : ExecPhase) (above rest : List Activation)
      (hs : s = .exec o phase :: rest) (hs' : s' = above ++ .exec o phase' :: rest)
      (habove : ∀ o phase, .exec o phase ∉ above) (hphase : Follows x c phase x' phase')
  | ended (o : Order) (phase : ExecPhase) (rest : List Activation)
      (hs : s = .exec o phase :: rest) (hs' : s' = rest)
      (hcells : x.cells.length ≤ x'.cells.length)
      (hreply : ∀ output, c' = .back (.reply (.ok output)) → Answers x c phase (.ok output))

section Traffic

variable {x x' : Exchange} {c c' : Control} {s s' : List Activation}

/-- A move of an activation that is no execution, and that leaves none above the rest. -/
theorem CallStep.of_aside {a : Activation} {rest : List Activation} (new : List Activation)
    (hs' : s' = new ++ rest) (ha : ∀ o phase, a ≠ .exec o phase)
    (hnew : ∀ o phase, .exec o phase ∉ new) (hcells : x'.cells.length = x.cells.length) :
    CallStep x c (a :: rest) x' c' s' := by
  refine .aside a new rest rfl hs' ha ?_ hcells
  intro h o phase hle hcall
  rw [hs', callAt_append_of_le hnew hle] at hcall
  cases hcall

theorem ne_exec_of_plain {a : Activation} (h : a.plain) (o : Order) (phase : ExecPhase) :
    a ≠ .exec o phase := by
  rintro rfl
  cases h

theorem Follows.of_same {phase phase' : ExecPhase} (hcells : x'.cells.length = x.cells.length)
    (hrequest : phase'.request? = phase.request? ∨ phase'.request? = none)
    (hjoining : ∀ j, phase' ≠ .joining j) (hfinishing : ∀ r, phase' ≠ .finishing r) :
    Follows x c phase x' phase' :=
  ⟨Or.inl ⟨hcells, hrequest⟩, fun j hj => absurd hj (hjoining j),
    fun r hr => absurd hr (hfinishing r)⟩

theorem Follows.of_new {phase phase' : ExecPhase}
    (hcells : x'.cells.length = x.cells.length + 1)
    (hrequest : phase'.request? = some x.cells.length) : Follows x c phase x' phase' := by
  refine ⟨Or.inr ⟨hcells, hrequest⟩, ?_, ?_⟩
  · rintro j rfl
    cases hrequest
  · rintro r rfl
    cases hrequest

theorem Still.callStep (h : Still s s') (hcells : x'.cells.length = x.cells.length) :
    CallStep x c s x' c' s' := by
  cases h with
  | plain a top rest ha htop =>
    exact .of_aside top rfl (ne_exec_of_plain ha) (exec_not_mem_of_plain htop) hcells
  | ended a rest hrequest hentering hexec hstarting =>
    exact .of_aside [] rfl hexec (by simp) hcells
  | exec o phase phase' above rest habove hphase howns hrequest =>
    refine .onward o phase phase' above rest rfl rfl (exec_not_mem_of_plain habove)
      (.of_same hcells (Or.inl hrequest) ?_ ?_)
    · rintro j rfl
      rcases hphase with hphase | hphase
      · rw [← howns] at hphase
        cases hphase
      · rw [← hrequest] at hphase
        cases hphase
    · rintro r rfl
      rcases hphase with hphase | hphase
      · rw [← howns] at hphase
        cases hphase
      · rw [← hrequest] at hphase
        cases hphase
  | loop id phase phase' rest =>
    exact .of_aside [.loop id phase'] rfl (by simp) (by simp) hcells
  | entering phase phase' work rest =>
    exact .of_aside [.entering phase' work] rfl (by simp) (by simp) hcells

theorem Traffic.callStep (h : Traffic x c s x' c' s') : CallStep x c s x' c' s' := by
  cases h with
  | quiet h | spawnedReader handle read h | signalled l signal hl hsignal h => exact h.callStep rfl
  | spawned o h rest =>
    refine .onward o _ _ [] rest rfl rfl (by simp) ⟨Or.inl ⟨rfl, Or.inr rfl⟩, ?_, by simp⟩
    rintro j ⟨rfl⟩
    exact ⟨rfl, by simp [Exchange.spawn]⟩
  | answered o phase r rest h =>
    refine .ended o phase _ rfl rfl (le_refl _) ?_
    rintro output ⟨rfl⟩
    exact h
  | failed o phase rest h =>
    exact .ended o phase _ rfl rfl (le_refl _) fun output hc => absurd hc (h output)
  | turnedAway o rest =>
    exact .ended o _ _ rfl rfl (by simp [Exchange.setCell, Exchange.newCell]) (by simp)
  | gaveUp o ticket id rest | withdrawn o id r rest hparked =>
    exact .ended o _ _ rfl rfl (by simp [Exchange.setCell]) (by simp)
  | joined o worker r above rest habove h =>
    refine .onward o _ _ above rest rfl rfl (exec_not_mem_of_plain habove)
      ⟨Or.inl ⟨rfl, Or.inr rfl⟩, by simp, ?_⟩
    rintro r' ⟨rfl⟩
    exact h
  | reentered o a top rest ha htop =>
    refine .aside a (.exec o .checking :: top) rest rfl rfl (ne_exec_of_plain ha) ?_ rfl
    intro h o' phase hle hcall
    rw [callAt] at hcall
    by_cases hlength : (top ++ rest).length = h
    · rw [if_pos hlength] at hcall
      cases hcall
      rfl
    · rw [if_neg hlength, callAt_append_of_le (exec_not_mem_of_plain htop) hle] at hcall
      cases hcall
  | inlined o above rest h =>
    exact .onward o _ _ above rest rfl rfl h.exec_not_mem
      (.of_same rfl (Or.inr rfl) (by simp) (by simp))
  | posted o l rest hl =>
    exact .onward o _ _ [] rest rfl rfl (by simp)
      (.of_new (by simp [Exchange.updateLoop, Exchange.newCell]) rfl)
  | acquired o phase rest howns hrequest =>
    exact .onward o _ _ [] rest rfl rfl (by simp) (.of_new (by simp [Exchange.newCell]) hrequest)
  | parked o id rest =>
    exact .onward o _ _ [] rest rfl rfl (by simp)
      (.of_same rfl (Or.inl rfl) (by simp) (by simp))
  | reclaimed o id r above rest hparked habove =>
    exact .onward o _ _ above rest rfl rfl (exec_not_mem_of_plain habove)
      (.of_same (by simp [Exchange.setCell]) (Or.inr rfl) (by simp) (by simp))
  | pickedUp id r a top rest hparked ha htop =>
    refine .of_aside (.entering .pushing (.request r) :: top) rfl (ne_exec_of_plain ha) ?_ rfl
    simpa using exec_not_mem_of_plain htop
  | failedRequest r rest | returned r id rest | caught p id rest =>
    exact .of_aside [] rfl (by simp) (by simp) (by simp [Exchange.setCell])
  | failedOrder o e rest | lost phase work p rest | unstarted h o p rest =>
    exact .of_aside [] rfl (by simp) (by simp) rfl
  | enteredRequest frame h r above rest habove =>
    refine .of_aside (above ++ [.leased r.options, .request r.id, .pushed frame h .looking])
      (by simp) (by simp) ?_ rfl
    simpa using exec_not_mem_of_plain habove
  | enteredOrder frame h o above rest habove =>
    refine .of_aside (above ++ [.leased o.options, .pushed frame h .looking]) (by simp) (by simp) ?_
      rfl
    simpa using exec_not_mem_of_plain habove
  | started h o above rest habove =>
    refine .of_aside (above ++ [.leased o.options, .worker h]) (by simp) (by simp) ?_ rfl
    simpa using exec_not_mem_of_plain habove
  | opened l phase a top rest hid hrequests hsignal hpumps hparting ha htop =>
    refine .of_aside (.loop l.id phase :: top) rfl (ne_exec_of_plain ha) ?_ rfl
    simpa using exec_not_mem_of_plain htop
  | consumed l signal rest hl hsignal =>
    exact .of_aside [.loop l.id (.closing signal)] rfl (by simp) (by simp) rfl
  | locked l signal rest hl hr =>
    exact .of_aside [.loop l.id (.popping signal)] rfl (by simp) (by simp) rfl
  | skipped l r requests phase phase' rest =>
    exact .of_aside [.loop l.id phase'] rfl (by simp) (by simp)
      (by simp [Exchange.setCell, Exchange.updateLoop])
  | taken l r requests phase phase' above rest hl hr hcancelled hpumps hparting h =>
    refine .of_aside (above ++ [.request r.id, .loop l.id phase']) (by simp) (by simp) ?_ rfl
    simpa using h.exec_not_mem
  | closed l signal phase above rest hl hphase habove =>
    refine .of_aside above rfl (by simp) ?_ rfl
    rcases habove with rfl | ⟨action, rfl⟩ <;> simp

end Traffic

namespace Exchange

variable {x x' : Exchange}

/-- What a thread starts with: a call of a client, or the work of a worker. -/
inductive Newly : Thread → Prop
  | called {a : Activation} (h : Entry a) : Newly { stack := [a] }
  | reader (handle : Handle) (read : Nat) :
      Newly { stack := [.readWorker handle read .starting] }
  | worker (handle : Handle) (o : Order) : Newly { stack := [.starting handle o] }

/-- How a thread that is there after a step came to be as it is: it was so before, it moved,
it was just started, or it was given up. -/
inductive After (x : Exchange) (mover : Option Nat) (x' : Exchange) (k : Nat) (t' : Thread) : Prop
  | same (ht : x.threads[k]? = some t') (hk : mover ≠ some k)
  | moved (t : Thread) (x₁ : Exchange) (hk : mover = some k) (ht : x.threads[k]? = some t)
      (h : Traffic x t.control t.stack x₁ t'.control t'.stack) (hx' : x' = x₁.setThread k t')
  | started (hk : k = x.threads.length) (hlength : x'.threads.length = x.threads.length + 1)
      (h : Newly t')
  | emptied (t : Thread) (hk : mover = none) (ht : x.threads[k]? = some t) (hs : t'.stack = [])
      (hcontrol : t'.control = .dropped)
      (hstarting : ∀ handle o rest, t.stack ≠ .starting handle o :: rest)

theorem getElem?_append_new {threads : List Thread} {t t' : Thread} {k : Nat}
    (h : (threads ++ [t])[k]? = some t') :
    threads[k]? = some t' ∨ k = threads.length ∧ t' = t := by
  by_cases hk : k < threads.length
  · rw [List.getElem?_append_left hk] at h
    exact Or.inl h
  · rw [List.getElem?_append_right (by omega)] at h
    have hzero : k - threads.length = 0 := by
      have := (List.getElem?_eq_some_iff.mp h).1
      simpa using this
    rw [hzero] at h
    exact Or.inr ⟨by omega, by simpa using h.symm⟩

theorem Suspended.ne_starting {s rest : List Activation} {handle : Handle} {o : Order}
    (h : Suspended s) : s ≠ .starting handle o :: rest := by
  rintro rfl
  cases h

theorem Next.after {mover : Option Nat} {k : Nat} {t' : Thread} (h : x.Next mover x')
    (ht' : x'.threads[k]? = some t') : After x mover x' k t' := by
  have hemptied : ∀ {x₁ : Exchange} {k₁ : Nat} {t₁ t₂ : Thread}, x₁.threads = x.threads →
      x.threads[k₁]? = some t₁ → t₂.stack = [] → t₂.control = .dropped →
      (∀ handle o rest, t₁.stack ≠ .starting handle o :: rest) →
      (x₁.setThread k₁ t₂).threads[k]? = some t' → After x none (x₁.setThread k₁ t₂) k t' := by
    intro x₁ k₁ t₁ t₂ hthreads ht₁ hs hcontrol hstarting ht'
    simp only [setThread, hthreads] at ht'
    by_cases hk : k = k₁
    · subst hk
      rw [List.getElem?_set_self (List.getElem?_eq_some_iff.mp ht₁).1] at ht'
      cases ht'
      exact .emptied t₁ rfl ht₁ hs hcontrol hstarting
    · rw [List.getElem?_set_ne (Ne.symm hk)] at ht'
      exact .same ht' (by simp)
  cases h with
  | @move k₁ t₁ t₂ x₁ ht₁ hfree h =>
    obtain ⟨new, hnew, hkinds⟩ := h.threads_eq
    by_cases hk : k = k₁
    · subst hk
      have hlt : k < x₁.threads.length := by
        rw [hnew, List.length_append]
        have := (List.getElem?_eq_some_iff.mp ht₁).1
        omega
      simp only [setThread, List.getElem?_set_self hlt] at ht'
      cases ht'
      exact .moved t₁ x₁ rfl ht₁ h rfl
    · simp only [setThread, List.getElem?_set_ne (Ne.symm hk), hnew] at ht'
      have hne : some k₁ ≠ some k := by simpa using Ne.symm hk
      rcases hkinds with rfl | ⟨handle, read, rfl⟩ | ⟨handle, o, rfl⟩
      · exact .same (by simpa using ht') hne
      · rcases getElem?_append_new ht' with ht' | ⟨hlength, rfl⟩
        · exact .same ht' hne
        · exact .started hlength (by simp [setThread, hnew]) (.reader handle read)
      · rcases getElem?_append_new ht' with ht' | ⟨hlength, rfl⟩
        · exact .same ht' hne
        · exact .started hlength (by simp [setThread, hnew]) (.worker handle o)
  | called h =>
    rcases getElem?_append_new ht' with ht' | ⟨hlength, rfl⟩
    · exact .same ht' (by simp)
    · exact .started hlength (by simp [spawn]) (.called h)
  | told tokens => exact .same ht' (by simp)
  | signalled l signal hl hsignal => exact .same ht' (by simp)
  | dropped ht hs hcontrol t₂ hs' hcontrol' =>
    exact hemptied rfl ht hs' hcontrol' (fun _ _ _ => Suspended.ne_starting hs) ht'
  | leftLine ht hs t₂ hs' hcontrol' =>
    exact hemptied rfl ht hs' hcontrol' (by simp [hs]) ht'
  | returned ht hs t₂ hs' hcontrol' =>
    exact hemptied rfl ht hs' hcontrol' (by simp [hs]) ht'

theorem Next.threads_length_le {mover : Option Nat} (h : x.Next mover x') :
    x.threads.length ≤ x'.threads.length := by
  cases h with
  | move ht hfree h =>
    obtain ⟨new, hnew, -⟩ := h.threads_eq
    simp [setThread, hnew]
  | called h => simp [spawn]
  | told tokens => exact le_refl _
  | signalled l signal hl hsignal => exact le_refl _
  | dropped | leftLine | returned => simp [setThread, setCell]

theorem Next.thread_stays {mover : Option Nat} {k : Nat} {t : Thread} (h : x.Next mover x')
    (ht : x.threads[k]? = some t) : ∃ t', x'.threads[k]? = some t' := by
  have hlt := (List.getElem?_eq_some_iff.mp ht).1
  exact ⟨_, List.getElem?_eq_getElem (hlt.trans_le h.threads_length_le)⟩

/-- How high the stack of thread `k` is. -/
def height (x : Exchange) (k : Nat) : Nat :=
  (x.threads[k]?.map fun t => t.stack.length).getD 0

theorem height_of_thread {k : Nat} {t : Thread} (ht : x.threads[k]? = some t) :
    x.height k = t.stack.length := by
  rw [height, ht]
  rfl

/-- The execution at a height of thread `k`. -/
def callOf (x : Exchange) (k h : Nat) : Option (Order × ExecPhase) :=
  x.threads[k]?.bind fun t => callAt h t.stack

theorem callOf_of_thread {k h : Nat} {t : Thread} (ht : x.threads[k]? = some t) :
    x.callOf k h = callAt h t.stack := by
  rw [callOf, ht]
  rfl

theorem exists_of_callOf {k h : Nat} {q : Order × ExecPhase} (hcall : x.callOf k h = some q) :
    ∃ t, x.threads[k]? = some t ∧ callAt h t.stack = some q :=
  Option.bind_eq_some_iff.mp hcall

/-- How an execution that is there after a step came to be in its phase. -/
inductive CallAfter (x : Exchange) (mover : Option Nat) (x' : Exchange) (k h : Nat) (o : Order)
    (phase' : ExecPhase) : Prop
  | same (hcall : x.callOf k h = some (o, phase'))
  | onward (t : Thread) (phase : ExecPhase) (hk : mover = some k) (ht : x.threads[k]? = some t)
      (hcall : x.callOf k h = some (o, phase)) (hheight : x.height k = h + 1)
      (hphase : Follows x t.control phase x' phase')
  | begun (hphase : phase' = .checking)

theorem setThread_follows {x₁ : Exchange} {c : Control} {phase phase' : ExecPhase} {k : Nat}
    {t : Thread} (h : Follows x c phase x₁ phase') :
    Follows x c phase (x₁.setThread k t) phase' := by
  refine ⟨h.request, ?_, h.kept⟩
  intro j hj
  simpa [setThread] using h.worker j hj

theorem lt_of_callAt {h : Nat} {s : List Activation} {q : Order × ExecPhase}
    (hcall : callAt h s = some q) : h < s.length := by
  by_contra hle
  rw [callAt_of_le (by omega)] at hcall
  cases hcall

theorem Next.call_after {mover : Option Nat} {k h : Nat} {o : Order} {phase' : ExecPhase}
    (hnext : x.Next mover x') (hcall : x'.callOf k h = some (o, phase')) :
    CallAfter x mover x' k h o phase' := by
  obtain ⟨t', ht', hcall⟩ := exists_of_callOf hcall
  cases hnext.after ht' with
  | same ht hk => exact .same (by rw [callOf_of_thread ht, hcall])
  | started hk hlength hnew =>
    cases hnew with
    | @called a hentry =>
      have hlt := lt_of_callAt hcall
      obtain rfl : h = 0 := by simpa using hlt
      cases hentry <;> cases hcall
      exact .begun rfl
    | reader handle read | worker handle o' =>
      have hlt := lt_of_callAt hcall
      obtain rfl : h = 0 := by simpa using hlt
      cases hcall
  | emptied t hk ht hs hcontrol =>
    rw [hs] at hcall
    cases hcall
  | moved t x₁ hk ht htraffic hx' =>
    cases htraffic.callStep with
    | aside a new rest hs hs' ha hnew hcells =>
      by_cases hlt : h < rest.length
      · rw [hs', callAt_append_of_lt hlt] at hcall
        exact .same (by rw [callOf_of_thread ht, hs, callAt_cons_of_lt hlt, hcall])
      · exact .begun (hnew h o phase' (by omega) hcall)
    | onward o₁ phase phase₁ above rest hs hs' habove hphase =>
      rw [hs'] at hcall
      by_cases hlt : h < rest.length
      · rw [callAt_append_of_lt (by rw [List.length_cons]; omega), callAt_cons_of_lt hlt] at hcall
        exact .same (by rw [callOf_of_thread ht, hs, callAt_cons_of_lt hlt, hcall])
      · by_cases heq : h = rest.length
        · subst heq
          rw [callAt_append_of_lt (by simp), callAt_exec] at hcall
          cases hcall
          refine .onward t phase hk ht (by rw [callOf_of_thread ht, hs, callAt_exec]) ?_
            (hx' ▸ setThread_follows hphase)
          rw [height_of_thread ht, hs, List.length_cons]
        · rw [callAt_append_of_le habove (by rw [List.length_cons]; omega)] at hcall
          cases hcall
    | ended o₁ phase rest hs hs' =>
      rw [hs'] at hcall
      exact .same (by rw [callOf_of_thread ht, hs, callAt_cons_of_lt (lt_of_callAt hcall), hcall])

/-- An execution goes on unless its thread's stack has come down to it. -/
theorem Next.call_goes_on {mover : Option Nat} {k h : Nat} {o : Order} {phase : ExecPhase}
    (hnext : x.Next mover x') (hcall : x.callOf k h = some (o, phase))
    (hheight : h < x'.height k) :
    ∃ phase', x'.callOf k h = some (o, phase') ∧
      (phase' = phase ∨ ∃ t, mover = some k ∧ x.threads[k]? = some t ∧ x.height k = h + 1 ∧
        Follows x t.control phase x' phase') := by
  obtain ⟨t, ht, hcall⟩ := exists_of_callOf hcall
  obtain ⟨t', ht'⟩ := hnext.thread_stays ht
  rw [callOf_of_thread ht']
  rw [height_of_thread ht'] at hheight
  cases hnext.after ht' with
  | same hsame hk =>
    obtain rfl : t = t' := Option.some.inj (ht.symm.trans hsame)
    exact ⟨phase, hcall, Or.inl rfl⟩
  | started hk hlength hnew =>
    have := (List.getElem?_eq_some_iff.mp ht).1
    omega
  | emptied t₁ hk ht₁ hs hcontrol =>
    rw [hs] at hheight
    cases hheight
  | moved t₁ x₁ hk ht₁ htraffic hx' =>
    obtain rfl : t = t₁ := Option.some.inj (ht.symm.trans ht₁)
    cases htraffic.callStep with
    | aside a new rest hs hs' ha hnew hcells =>
      have hlt : h < rest.length := by
        by_contra hle
        have hnone : callAt h t.stack = none := by
          rw [hs]
          exact callAt_cons_of_le ha (by omega)
        rw [hnone] at hcall
        cases hcall
      refine ⟨phase, ?_, Or.inl rfl⟩
      rw [hs', callAt_append_of_lt hlt]
      rwa [hs, callAt_cons_of_lt hlt] at hcall
    | onward o₁ phase₁ phase' above rest hs hs' habove hphase =>
      rw [hs] at hcall
      by_cases hlt : h < rest.length
      · refine ⟨phase, ?_, Or.inl rfl⟩
        rw [hs', callAt_append_of_lt (by rw [List.length_cons]; omega), callAt_cons_of_lt hlt]
        rwa [callAt_cons_of_lt hlt] at hcall
      · have hle := lt_of_callAt hcall
        rw [List.length_cons] at hle
        obtain rfl : h = rest.length := by omega
        rw [callAt_exec] at hcall
        cases hcall
        refine ⟨phase', ?_, Or.inr ⟨t, hk, ht, ?_, hx' ▸ setThread_follows hphase⟩⟩
        · rw [hs', callAt_append_of_lt (by simp), callAt_exec]
        · rw [height_of_thread ht, hs, List.length_cons]
    | ended o₁ phase₁ rest hs hs' =>
      rw [hs'] at hheight
      refine ⟨phase, ?_, Or.inl rfl⟩
      rwa [hs', ← callAt_cons_of_lt (a := .exec o₁ phase₁) hheight, ← hs]

/-- The requests that executions name were made. -/
def NamedMade (x : Exchange) : Prop :=
  ∀ k h o phase, x.callOf k h = some (o, phase) →
    ∀ id, phase.request? = some id → id < x.cells.length

theorem Next.named_made {mover : Option Nat} (hnext : x.Next mover x') (hmade : x.NamedMade) :
    x'.NamedMade := by
  have hcells := hnext.cells_length_le
  intro k h o phase' hcall' id hid
  cases hnext.call_after hcall' with
  | same hcall => exact (hmade _ _ _ _ hcall id hid).trans_le hcells
  | begun hphase =>
    rw [hphase] at hid
    cases hid
  | onward t phase hk ht hcall hheight hfollows =>
    rcases hfollows.request with ⟨-, hsame | hnone⟩ | ⟨hlength, hnew⟩
    · exact (hmade _ _ _ _ hcall id (hsame ▸ hid)).trans_le hcells
    · rw [hnone] at hid
      cases hid
    · rw [hnew] at hid
      cases hid
      omega

/-- The reply that thread `k` has just come to. -/
def replyOf (x : Exchange) (k : Nat) : Option Reply :=
  x.threads[k]?.bind fun t =>
    match t.control with
    | .back (.reply r) => some r
    | _ => none

theorem control_of_replyOf {k : Nat} {t : Thread} {r : Reply}
    (ht : x.threads[k]? = some t) (hr : x.replyOf k = some r) : t.control = .back (.reply r) := by
  rw [replyOf, ht] at hr
  cases hcontrol : t.control with
  | back outcome =>
    cases outcome <;> simp_all
  | _ => simp_all

end Exchange

/-- What belongs to a call: the requests and workers it made, what was handed to the engine on
its behalf, whether it goes on, and the reply it ended with. -/
structure Course where
  requests : List Nat := []
  workers : List Nat := []
  given : List Order := []
  going : Bool := true
  reply : Option Reply := none

namespace Course

/-- Whether what is due there belongs to the call at height `h` of thread `k`. -/
def owns (course : Course) (k h : Nat) : Source → Bool
  | .call k' h' => course.going && k' == k && h' == h
  | .request id => course.requests.contains id
  | .worker j => course.workers.contains j

/-- Whether a step is one of the call itself. -/
def own (course : Course) (k h : Nat) (x : Exchange) (mover : Option Nat) : Bool :=
  course.going && mover == some k && x.height k == h + 1

/-- The course of the call at height `h` of thread `k` after one more step. -/
def extend (course : Course) (k h : Nat) (x : Exchange) (mover : Option Nat) (x' : Exchange) :
    Course where
  requests := if course.own k h x mover && decide (x.cells.length < x'.cells.length) then
    x.cells.length :: course.requests else course.requests
  workers := if course.own k h x mover && decide (x.threads.length < x'.threads.length) then
    x.threads.length :: course.workers else course.workers
  given := course.given ++
    ((x.handed mover x').toList.filter fun q => course.owns k h q.1).map Prod.snd
  going := course.going && decide (h < x'.height k)
  reply := if course.own k h x mover && x'.height k == h then x'.replyOf k else course.reply

/-- What a call names is its own, and what others name is not. -/
structure Named (course : Course) (k h : Nat) (o : Order) (x : Exchange) : Prop where
  requests_made : ∀ id ∈ course.requests, id < x.cells.length
  workers_made : ∀ j ∈ course.workers, j < x.threads.length
  standing : course.going = true → ∃ phase, x.callOf k h = some (o, phase) ∧
    (∀ id, phase.request? = some id → id ∈ course.requests) ∧
    ∀ j, phase = .joining j → j ∈ course.workers
  foreign : ∀ k' h' o' phase, x.callOf k' h' = some (o', phase) →
    ¬(course.going = true ∧ k' = k ∧ h' = h) →
    ∀ id, phase.request? = some id → id ∉ course.requests
  named_made : x.NamedMade

section Extend

variable {course : Course} {k h : Nat} {o : Order} {x x' : Exchange} {mover : Option Nat}

theorem own_iff : course.own k h x mover = true ↔
    course.going = true ∧ mover = some k ∧ x.height k = h + 1 := by
  simp [own, and_assoc]

theorem mem_requests {id : Nat} : id ∈ (course.extend k h x mover x').requests ↔
    id ∈ course.requests ∨ course.own k h x mover = true ∧ x.cells.length < x'.cells.length ∧
      id = x.cells.length := by
  simp only [extend]
  split
  · next hown =>
    simp only [Bool.and_eq_true, decide_eq_true_eq] at hown
    simp [hown, or_comm]
  · next hown =>
    simp only [Bool.and_eq_true, decide_eq_true_eq] at hown
    constructor
    · exact Or.inl
    · rintro (hid | ⟨h₁, h₂, -⟩)
      · exact hid
      · exact absurd ⟨h₁, h₂⟩ hown

theorem mem_workers {j : Nat} : j ∈ (course.extend k h x mover x').workers ↔
    j ∈ course.workers ∨ course.own k h x mover = true ∧ x.threads.length < x'.threads.length ∧
      j = x.threads.length := by
  simp only [extend]
  split
  · next hown =>
    simp only [Bool.and_eq_true, decide_eq_true_eq] at hown
    simp [hown, or_comm]
  · next hown =>
    simp only [Bool.and_eq_true, decide_eq_true_eq] at hown
    constructor
    · exact Or.inl
    · rintro (hj | ⟨h₁, h₂, -⟩)
      · exact hj
      · exact absurd ⟨h₁, h₂⟩ hown

theorem going_iff : (course.extend k h x mover x').going = true ↔
    course.going = true ∧ h < x'.height k := by
  simp [extend]

theorem Named.extend (hnamed : course.Named k h o x) (hnext : x.Next mover x') :
    (course.extend k h x mover x').Named k h o x' := by
  have hcells := hnext.cells_length_le
  have hthreads := hnext.threads_length_le
  have hothers : ∀ {k' h' : Nat} {q : Order × ExecPhase}, x'.callOf k' h' = some q →
      ¬((course.extend k h x mover x').going = true ∧ k' = k ∧ h' = h) →
      ¬(course.going = true ∧ k' = k ∧ h' = h) := by
    rintro k' h' q hcall hothers ⟨hgoing, rfl, rfl⟩
    obtain ⟨t', ht', hcall⟩ := Exchange.exists_of_callOf hcall
    refine hothers ⟨going_iff.mpr ⟨hgoing, ?_⟩, rfl, rfl⟩
    rw [Exchange.height_of_thread ht']
    exact Exchange.lt_of_callAt hcall
  refine ⟨?_, ?_, ?_, ?_, hnext.named_made hnamed.named_made⟩
  · intro id hid
    rcases mem_requests.mp hid with hid | ⟨-, hlt, rfl⟩
    · exact (hnamed.requests_made id hid).trans_le hcells
    · exact hlt
  · intro j hj
    rcases mem_workers.mp hj with hj | ⟨-, hlt, rfl⟩
    · exact (hnamed.workers_made j hj).trans_le hthreads
    · exact hlt
  · intro hgoing
    obtain ⟨hgoing, hheight⟩ := going_iff.mp hgoing
    obtain ⟨phase, hcall, hrequest, hworker⟩ := hnamed.standing hgoing
    obtain ⟨phase', hcall', hphase⟩ := hnext.call_goes_on hcall hheight
    refine ⟨phase', hcall', ?_, ?_⟩
    · intro id hid
      rw [mem_requests]
      rcases hphase with rfl | ⟨t, hk, -, hown, hfollows⟩
      · exact Or.inl (hrequest id hid)
      · rcases hfollows.request with ⟨-, hsame | hnone⟩ | ⟨hlength, hnew⟩
        · exact Or.inl (hrequest id (hsame ▸ hid))
        · rw [hnone] at hid
          cases hid
        · rw [hnew] at hid
          cases hid
          exact Or.inr ⟨own_iff.mpr ⟨hgoing, hk, hown⟩, by omega, rfl⟩
    · intro j hj
      rw [mem_workers]
      rcases hphase with rfl | ⟨t, hk, -, hown, hfollows⟩
      · exact Or.inl (hworker j hj)
      · obtain ⟨rfl, hlength⟩ := hfollows.worker j hj
        exact Or.inr ⟨own_iff.mpr ⟨hgoing, hk, hown⟩, by omega, rfl⟩
  · intro k' h' o' phase' hcall' hforeign id hid
    have hold := hothers hcall' hforeign
    rw [mem_requests]
    cases hnext.call_after hcall' with
    | begun hphase =>
      rw [hphase] at hid
      cases hid
    | same hcall =>
      rintro (hmem | ⟨-, -, rfl⟩)
      · exact hnamed.foreign _ _ _ _ hcall hold id hid hmem
      · exact Nat.lt_irrefl _ (hnamed.named_made _ _ _ _ hcall _ hid)
    | onward t phase hk ht hcall hheight hfollows =>
      rcases hfollows.request with ⟨-, hsame | hnone⟩ | ⟨hlength, hnew⟩
      · rintro (hmem | ⟨-, -, rfl⟩)
        · exact hnamed.foreign _ _ _ _ hcall hold id (hsame ▸ hid) hmem
        · exact Nat.lt_irrefl _ (hnamed.named_made _ _ _ _ hcall _ (hsame ▸ hid))
      · rw [hnone] at hid
        cases hid
      · rw [hnew] at hid
        cases hid
        rintro (hmem | ⟨hown, -, -⟩)
        · exact Nat.lt_irrefl _ (hnamed.requests_made _ hmem)
        · -- in this step only the call itself could have made a request of its own
          obtain ⟨hgoing, hmover, hheight'⟩ := own_iff.mp hown
          obtain rfl : k' = k := Option.some.inj (hk.symm.trans hmover)
          exact hold ⟨hgoing, rfl, by omega⟩

end Extend

end Course

end ScriptHost.Service
