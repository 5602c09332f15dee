import ScriptHost.Proofs.ParkedRequests
import ScriptHost.Proofs.SessionStates
import ScriptHost.Proofs.WaitingCalls

/-!
Calls that were admitted. A call is checked once, by its first step, and waits after that in
the queue of a frame, with a loop, in the idle slot or for its worker. What the admitted calls
have not been given yet is counted here; once the service is disposed, no step adds to it, and
a step that serves a call takes from it.
-/

namespace ScriptHost.Service

/-- What a call is given: its order handed to the engine, a line of input, or a lease. -/
inductive Gift where
  | order
  | line
  | lease

/-- What a call that was not checked yet ends with when the service is disposed. -/
def Activation.refusal? : Activation → Option Outcome
  | .exec _ .checking => some (.reply (.error .disposed))
  | .readTask _ .checking => some (.line (.error .disposed))
  | .handleTask _ false => some (.lease (.error .disposed))
  | _ => none

/-- A call that was admitted to the prompt, or its worker, before the engine reads a line. -/
def Activation.awaitsLine : Activation → Bool
  | .readTask _ .leasing | .readTask _ (.registering _) | .readTask _ (.spawning _ _)
  | .readWorker _ _ .starting => true
  | _ => false

/-- The worker of a prompt that is about to have the engine read a line. -/
def Activation.startsLine : Activation → Bool
  | .readWorker _ _ .starting => true
  | _ => false

/-- A call that was admitted to ask for a lease. -/
def Activation.awaitsLease : Activation → Bool
  | .handleTask _ true => true
  | _ => false

/-- Whether an execution was admitted. -/
def ExecPhase.admitted : ExecPhase → Bool
  | checking => false
  | _ => true

/-- Whether what is due at a source is due for a call that was admitted. Requests and workers
are made for admitted calls only. -/
def Exchange.admits (x : Exchange) : Source → Bool
  | .call k h => (x.callOf k h).any (·.2.admitted)
  | _ => true

/-- How much of what is due is due for admitted calls. -/
def Exchange.owing (x : Exchange) (d : Multiset Due) : Nat :=
  d.countP fun q => x.admits q.1 = true

/-- How many activations of a kind there are. -/
def tally (p : Activation → Bool) (threads : List Thread) : Nat :=
  total (fun _ t => t.stack.countP p) threads

/-- A move of thread `k` adds no activation of a kind to what there is, and takes `n` away. -/
def Spends (p : Activation → Bool) (w : World) (k : Nat) (m : World × Thread) (n : Nat) : Prop :=
  tally p (m.1.threads.set k m.2) + n ≤ tally p w.threads

/-- How many admitted calls have not been given what they want. -/
def World.admitted (w : World) : Gift → Nat
  | .order => w.exchange.owing w.exchange.dues
  | .line => tally Activation.awaitsLine w.threads
  | .lease => tally Activation.awaitsLease w.threads

/-- Whether a transition hands an order to the engine, has the engine read a line, or brings a
lease to the caller that asked for it. -/
def Transition.serves (x : Transition) : Gift → Bool
  | .order => x.handed.isSome
  | .line => x.mover.any fun k => (x.before.stackOf k).head?.any Activation.startsLine
  | .lease => (x.mover.bind fun k => x.before.threads[k]?).any fun t =>
    t.stack.head?.any Activation.awaitsLease && t.control.lease?.isSome

theorem countP_cons_toNat {α : Type} (p : α → Bool) (a : α) (l : List α) :
    (a :: l).countP p = l.countP p + (p a).toNat := by
  rw [List.countP_cons]
  cases p a <;> rfl

section Steps

variable {past : List Transition} {w w' : World} {mover : Option Nat} {k : Nat} {t : Thread}
  {a : Activation} {rest new : List Activation} {m : World × Thread} {r : Outcome}

theorem takes_of_refusal (ha : a.refusal? = some r) : a.takes = [] := by
  unfold Activation.refusal? at ha
  split at ha <;> first | rfl | cases ha

/-- In a disposed service a call that was not checked yet can only end with its refusal, and it
can do so at once. -/
theorem moves_of_refusal (h : Run past w) (hdisposed : w.session.state = .disposed)
    (ht : w.threads[k]? = some t) (hs : t.stack = a :: rest) (ha : a.refusal? = some r) :
    t.moves w k = [(w, t.give rest r)] := by
  have hgo := (typed_of_run h ht).go_of_takes_nil hs (takes_of_refusal ha)
  have hcheck : w.isDisposed = true := by simp [World.isDisposed, hdisposed]
  rw [Thread.moves, hs, hgo]
  unfold Activation.refusal? at ha
  split at ha <;> cases ha
  · simp [proceed, execMoves, ended, hcheck]
  · simp [proceed, readTaskMoves, hcheck]
  · simp [proceed, hcheck]

namespace Exchange

variable {x x' : Exchange} {q : Due}

theorem admits_of_callOf {h : Nat} {o : Order} {phase : ExecPhase}
    (hcall : x.callOf k h = some (o, phase)) : x.admits (.call k h) = phase.admitted := by
  rw [admits, hcall, Option.any_some]

theorem exists_of_admits {h : Nat} (hadmits : x.admits (.call k h) = true) :
    ∃ o phase, x.callOf k h = some (o, phase) ∧ phase.admitted = true := by
  rw [admits] at hadmits
  cases hcall : x.callOf k h with
  | none => simp [hcall] at hadmits
  | some q => exact ⟨q.1, q.2, rfl, by simpa [hcall] using hadmits⟩

/-- The order that a thread has in hand is due for an admitted call, unless it is about to be
checked. -/
theorem admits_of_inHand (ht : x.threads[k]? = some t)
    (hchecked : ∀ o rest, t.stack ≠ .exec o .checking :: rest)
    (hq : x.inHand k t.stack = some q) : x.admits q.1 = true := by
  unfold inHand at hq
  split at hq
  · obtain ⟨r, -, rfl⟩ := Option.map_eq_some_iff.mp hq
    rfl
  · next a rest hloop hs =>
    unfold Activation.due? at hq
    split at hq
    · next o phase =>
      split at hq <;> cases hq
      have hcall : x.callOf k rest.length = some (o, phase) := by
        rw [callOf_of_thread ht, hs, callAt_exec]
      rw [admits_of_callOf hcall]
      cases phase with
      | checking => exact absurd hs (hchecked o rest)
      | _ => rfl
    · cases hq
      rfl
    · cases hq
      rfl
    · obtain ⟨asker, hasker, rfl⟩ := Option.map_eq_some_iff.mp hq
      unfold asker? at hasker
      split at hasker
      · next frame o o' below =>
        cases hasker
        have hcall : x.callOf k below.length = some (o', .inline) := by
          rw [callOf_of_thread ht, hs, callAt_cons_of_lt (by simp), callAt_exec]
        exact admits_of_callOf hcall
      · cases hasker
        rfl
      · cases hasker
    · cases hq
  · cases hq

/-- A step admits no call, if the call that is checked by it ends. -/
theorem Next.admits_before (h : x.Next mover x') (hq : q ∈ x'.dues)
    (hended : ∀ k t o rest, mover = some k → x.threads[k]? = some t →
      t.stack = .exec o .checking :: rest → x'.callOf k rest.length = none)
    (hadmits : x'.admits q.1 = true) : x.admits q.1 = true := by
  obtain ⟨source, o⟩ := q
  cases source with
  | request id => rfl
  | worker j => rfl
  | call k h₁ =>
    obtain ⟨o', phase', hcall', hphase'⟩ := exists_of_admits hadmits
    cases h.call_after hcall' with
    | same hcall => rwa [admits_of_callOf hcall]
    | begun hphase =>
      subst hphase
      cases hphase'
    | onward t phase hk ht hcall hheight hphase =>
      rw [admits_of_callOf hcall]
      rw [height_of_thread ht] at hheight
      rw [callOf_of_thread ht] at hcall
      cases hs : t.stack with
      | nil => simp [hs] at hheight
      | cons a rest =>
        obtain rfl : rest.length = h₁ := by simpa [hs] using hheight
        rw [hs, callAt, if_pos rfl] at hcall
        cases phase with
        | checking =>
          cases a with
          | exec o₁ phase =>
            cases hcall
            rw [hended k t o' rest hk ht hs] at hcall'
            cases hcall'
          | _ => cases hcall
        | _ => rfl

theorem owing_le_of_le {d d' : Multiset Due} (hle : d' ≤ d) : x.owing d' ≤ x.owing d :=
  Multiset.countP_le_of_le _ hle

theorem owing_cons {d : Multiset Due} :
    x.owing (q ::ₘ d) = x.owing d + if x.admits q.1 = true then 1 else 0 :=
  Multiset.countP_cons _ q d

theorem owing_le_of_admits {d : Multiset Due}
    (h : ∀ q ∈ d, x'.admits q.1 = true → x.admits q.1 = true) : x'.owing d ≤ x.owing d := by
  induction d using Multiset.induction_on with
  | empty => exact le_refl _
  | cons q d ih =>
    have hrest := ih fun q' hq' => h q' (Multiset.mem_cons_of_mem hq')
    have hfirst := h q (Multiset.mem_cons_self q d)
    rw [owing_cons, owing_cons]
    by_cases hadmits : x'.admits q.1 = true
    · rw [if_pos hadmits, if_pos (hfirst hadmits)]
      omega
    · rw [if_neg hadmits]
      omega

theorem owing_cons_of_admits {d : Multiset Due} (h : x.admits q.1 = true) :
    x.owing (q ::ₘ d) = x.owing d + 1 :=
  Multiset.countP_cons_of_pos _ h

theorem owing_cons_le {d : Multiset Due} : x.owing (q ::ₘ d) ≤ x.owing d + 1 := by
  rw [owing_cons]
  split <;> omega

/-- What a move does with what is due for admitted calls, if the call that it checks, if any,
ends. -/
theorem owing_le_of_dealt {t' : Thread} (ht : x.threads[k]? = some t)
    (h : Dealt x k t.stack x' t'.stack x.dues x'.dues)
    (hended : ∀ o rest, t.stack = .exec o .checking :: rest →
      t'.stack = rest ∧ x'.cells = x.cells) :
    x.owing x'.dues + (x.handedBy k t.stack t'.stack).isSome.toNat ≤ x.owing x.dues := by
  have hcall : ∀ {o phase rest}, t.stack = .exec o phase :: rest →
      x.admits (.call k rest.length) = phase.admitted := by
    intro o phase rest hs
    exact admits_of_callOf (o := o) (by rw [callOf_of_thread ht, hs, callAt_exec])
  cases h with
  | kept hnone hle =>
    rw [hnone]
    simpa using owing_le_of_le hle
  | handed q hq hdues =>
    have hlt : engaged t.stack < engaged t'.stack := by
      by_contra hle
      rw [handedBy_of_le (Nat.le_of_not_lt hle)] at hq
      cases hq
    have hchecked : ∀ o rest, t.stack ≠ .exec o .checking :: rest := by
      intro o rest hs
      rw [(hended o rest hs).1, hs] at hlt
      exact absurd hlt (Nat.not_lt.mpr engaged_le_cons)
    rw [hq, hdues, owing_cons_of_admits (admits_of_inHand ht hchecked
      ((handedBy_of_lt hlt).symm.trans hq))]
    exact le_refl _
  | sent o phase id rest e hs hnone hid hdues hdues' =>
    have hphase : phase.admitted = true := by
      cases phase with
      | checking =>
        rcases hid with ⟨-, hmade⟩ | hid
        · rw [(hended o rest hs).2] at hmade
          omega
        · cases hid
      | _ => rfl
    have hle := (owing_le_of_le (x := x) hdues').trans owing_cons_le
    rw [hnone, hdues, owing_cons_of_admits ((hcall hs).trans hphase)]
    simpa using hle
  | reclaimed o id r rest e hs hnone hdues hdues' =>
    rw [hnone, hdues, hdues', owing_cons_of_admits (q := (.request id, .ofRequest r)) rfl]
    simpa using owing_cons_le
  | spawned o handle rest e hs hnone hthreads hdues hdues' =>
    rw [hnone, hdues, hdues', owing_cons_of_admits (q := (.call k rest.length, o)) (hcall hs)]
    simpa using owing_cons_le
  | begun o a rest height hs ha hnone hheight hdues' =>
    have hnew : x.admits (.call k height) = false := by
      rw [admits, callOf_of_thread ht, hs, callAt_cons_of_le (ne_exec_of_plain ha) hheight]
      rfl
    rw [hnone, hdues', owing_cons, hnew]
    simp

/-- A step that ends the call it checks, if any, hands an order over only for an admitted call,
and admits none. -/
theorem Next.owing_le (h : x.Next mover x') (hx : x.Sound)
    (hended : ∀ k t t' o rest, mover = some k → x.threads[k]? = some t →
      t.stack = .exec o .checking :: rest → x'.threads[k]? = some t' →
      t'.stack = rest ∧ x'.cells = x.cells) :
    x'.owing x'.dues + (x.handed mover x').isSome.toNat ≤ x.owing x.dues := by
  have hbefore : x'.owing x'.dues ≤ x.owing x'.dues := by
    refine owing_le_of_admits fun q hq hq' => h.admits_before hq ?_ hq'
    intro k t o rest hk ht hs
    obtain ⟨t', ht'⟩ := h.thread_stays ht
    rw [callOf_of_thread ht', (hended k t t' o rest hk ht hs ht').1, callAt_of_le (le_refl _)]
  refine (Nat.add_le_add_right hbefore _).trans ?_
  cases hmover : mover with
  | none =>
    rw [hmover] at h
    change x.owing x'.dues ≤ _
    rcases h.dues_of_client hx with hle | ⟨o, hdues⟩
    · exact owing_le_of_le hle
    · have hnew : x.admits (.call x.threads.length 0) = false := by
        simp [admits, callOf]
      rw [hdues, owing_cons, hnew]
      simp
  | some k =>
    subst hmover
    cases h with
    | move ht hfree htraffic =>
      rw [handed_of_move ht htraffic]
      exact owing_le_of_dealt ht (dealt_of_move hx ht htraffic) fun o rest hs =>
        hended _ _ _ o rest rfl ht hs (thread_of_move ht htraffic)

end Exchange

theorem not_bare_of_alike (h : a.alike a = true) : a.bare = false := by
  cases a <;> first | rfl | cases h

/-- A move makes no task, except that one goes on as a task of its kind. -/
theorem Deed.task_before (h : Deed w t a m new) {b : Activation} (hb : b ∈ new)
    (htask : b.alike b = true) : b = a ∨ a.alike b = true := by
  have hbare : b.bare = true → b = a ∨ a.alike b = true := by
    intro hbare
    rw [not_bare_of_alike htask] at hbare
    cases hbare
  cases h with
  | aside ha hnew => exact (hnew b hb).elim hbare id
  | told hgo htold =>
    generalize m.1.session = session at htold
    cases htold <;> simp at hb <;> subst hb
    · cases htask
    · exact Or.inr rfl
    · exact Or.inr rfl
  | begun i below ha hbelow =>
    rcases List.mem_cons.mp hb with rfl | hb
    · cases htask
    · exact hbare (hbelow b hb)
  | announced | concluded =>
    obtain rfl := List.mem_singleton.mp hb
    cases htask
  | onward i i' above ha honward habove =>
    rcases List.mem_append.mp hb with hb | hb
    · rcases habove b hb with hb | ⟨id, stop, l, rfl, -⟩
      · exact hbare hb
      · cases htask
    · obtain rfl := List.mem_singleton.mp hb
      cases htask
  | left => cases hb

/-- What a move does with the activations of a kind. -/
theorem spends_of_moved {p : Activation → Bool} (ht : w.threads[k]? = some t)
    (hm : m ∈ t.moves w k) (hs : t.stack = a :: rest) (new : List Activation)
    (hs' : m.2.stack = new ++ rest) {n : Nat}
    (h : ∀ started, m.1.threads = w.threads ++ started →
      new.countP p + total (fun _ t => t.stack.countP p) started + n ≤ (p a).toNat) :
    Spends p w k m n := by
  obtain ⟨_, _, _, _, started, hlocal⟩ := local_of_moves hm
  obtain ⟨others, hbefore, hafter⟩ :=
    exists_others_append (f := fun _ t => t.stack.countP p) ht
  have hle := h started hlocal.threads_eq
  rw [Spends, tally, tally, hlocal.threads_eq, hafter m.2 started, hbefore, hs, hs',
    List.countP_append, countP_cons_toNat]
  omega

theorem spends_of_same {p : Activation → Bool} (ht : w.threads[k]? = some t)
    (hm : m ∈ t.moves w k) (hs : t.stack = a :: rest) (new : List Activation)
    (hs' : m.2.stack = new ++ rest) (hthreads : m.1.threads = w.threads) {n : Nat}
    (h : new.countP p + n ≤ (p a).toNat) : Spends p w k m n := by
  refine spends_of_moved ht hm hs new hs' fun started hstarted => ?_
  obtain rfl := List.append_right_eq_self.mp (hstarted.symm.trans hthreads)
  exact h

theorem tally_of_client {p : Activation → Bool} (hp : ∀ a, Entry a → p a = false)
    (hstep : Step w none w') : tally p w'.threads ≤ tally p w.threads := by
  have hemptied : ∀ {k : Nat} {t t' : Thread}, w.threads[k]? = some t → t'.stack = [] →
      tally p (w.threads.set k t') ≤ tally p w.threads := by
    intro k t t' ht hs'
    obtain ⟨others, hbefore, hafter⟩ := exists_others (f := fun _ t => t.stack.countP p) ht
    rw [tally, tally, hafter t', hbefore, hs', List.countP_nil, Nat.zero_add]
    exact Nat.le_add_left _ _
  cases hstep with
  | @call a hentry =>
    change tally p (w.threads ++ [{ stack := [a] }]) ≤ _
    rw [tally, total_append, total_singleton]
    simp [tally, hp a hentry]
  | act hs => rw [(client_of_act hs).threads_same]
  | drop ht hgo hsuspended =>
    rw [(dropTask_spec ht).2.2]
    exact hemptied ht rfl
  | release k =>
    rcases releaseLease_spec w k with hsame | ⟨t, handle, ht, hs, -, -, -, -, hthreads⟩
    · rw [hsame]
    · rw [hthreads]
      exact hemptied ht hs

/-- Only the call of a prompt starts a worker that reads. -/
theorem Traffic.threads_started {x x' : Exchange} {c c' : Control} {s s' : List Activation}
    (h : Traffic x c s x' c' s') : x'.threads = x.threads ∨
      (∃ handle o, x'.threads = x.threads ++ [{ stack := [.starting handle o] }]) ∨
      (∃ handle read,
          x'.threads = x.threads ++ [{ stack := [.readWorker handle read .starting] }]) ∧
        ∃ token phase rest, s = .readTask token phase :: rest := by
  cases h with
  | spawnedReader handle read h hreader => exact Or.inr (Or.inr ⟨⟨handle, read, rfl⟩, hreader⟩)
  | spawned o handle rest => exact Or.inr (Or.inl ⟨handle, o, rfl⟩)
  | _ => exact Or.inl rfl

theorem tally_of_started {p : Activation → Bool} (hm : m ∈ t.moves w k) (hs : t.stack = a :: rest)
    (hp : ∀ handle o, p (.starting handle o) = false)
    (hreader : ∀ token phase, a = .readTask token phase →
      ∀ handle read, p (.readWorker handle read .starting) = false)
    {started : List Thread} (hthreads : m.1.threads = w.threads ++ started) :
    total (fun _ t => t.stack.countP p) started = 0 := by
  rcases Traffic.threads_started (travels_of_moves hm) with
    hsame | ⟨handle, o, hone⟩ | ⟨⟨handle, read, hone⟩, token, phase, rest', hs'⟩
  · obtain rfl := List.append_right_eq_self.mp (hthreads.symm.trans hsame)
    rfl
  · obtain rfl := List.append_cancel_left (hthreads.symm.trans hone)
    simp [hp]
  · obtain rfl := List.append_cancel_left (hthreads.symm.trans hone)
    simp [hreader token phase (List.cons.inj (hs.symm.trans hs')).1]

/-- A move of an activation that is no task that wants what is counted. -/
theorem spends_of_aside {p : Activation → Bool} (hpoised : t.Poised) (ht : w.threads[k]? = some t)
    (hm : m ∈ t.moves w k) (hs : t.stack = a :: rest)
    (htask : ∀ b, p b = true → b.alike b = true) (ha : ∀ b, a.alike b = true → p b = false)
    (hpa : p a = false) (hreader : ∀ token phase, a = .readTask token phase →
      ∀ handle read, p (.readWorker handle read .starting) = false) : Spends p w k m 0 := by
  obtain ⟨_, _, hs₁, new, hs', hdeed⟩ := deed_of_moves hpoised hm
  obtain ⟨rfl, rfl⟩ := List.cons.inj (hs₁.symm.trans hs)
  have hnew : new.countP p = 0 := by
    rw [List.countP_eq_zero]
    intro b hb hpb
    rcases hdeed.task_before hb (htask b hpb) with rfl | halike
    · rw [hpa] at hpb
      cases hpb
    · rw [ha b halike] at hpb
      cases hpb
  have hstarting : ∀ handle o, p (.starting handle o) = false := by
    intro handle o
    by_contra hstarting
    cases htask _ (Bool.of_not_eq_false hstarting)
  refine spends_of_moved ht hm hs new hs' fun started hthreads => ?_
  rw [hnew, tally_of_started hm hs hstarting hreader hthreads]
  exact Nat.zero_le _

theorem spends_of_readTask (h : Run past w) (hdisposed : w.session.state = .disposed)
    (ht : w.threads[k]? = some t) (hm : m ∈ t.moves w k) {token : Option Token}
    {phase : ReadTaskPhase} (hs : t.stack = .readTask token phase :: rest) :
    Spends Activation.awaitsLine w k m 0 := by
  have hended : m.2.stack = rest → m.1.threads = w.threads →
      Spends Activation.awaitsLine w k m 0 := by
    intro hs' hthreads
    exact spends_of_same ht hm hs [] hs' hthreads (Nat.zero_le _)
  cases turn_of_stack hm hs with
  | goes hgo hmove =>
    cases hmove with
    | onward hnext => cases hnext
    | ended hend => exact hended rfl rfl
    | readAsked =>
      rw [moves_of_refusal h hdisposed ht hs rfl] at hm
      have hstack : rest.length + 1 + 1 = rest.length :=
        congrArg (fun m => m.2.stack.length) (List.mem_singleton.mp hm)
      omega
    | registered => exact spends_of_same ht hm hs [_] rfl rfl (le_refl _)
    | readSpawned =>
      refine spends_of_moved ht hm hs [_] rfl fun started hstarted => ?_
      obtain rfl := List.append_cancel_left (hstarted.symm.trans rfl)
      exact le_refl _
  | receives o hback hmove =>
    cases hmove with
    | readLeased => exact spends_of_same ht hm hs [_] rfl rfl (le_refl _)
    | readUnleased => exact hended rfl rfl
  | unwinds p hunwind hmove =>
    cases hmove with
    | other => exact hended rfl rfl

theorem spends_of_readWorker (ht : w.threads[k]? = some t) (hm : m ∈ t.moves w k) {handle : Handle}
    {read : Nat} {phase : ReadWorkerPhase} (hs : t.stack = .readWorker handle read phase :: rest) :
    Spends Activation.awaitsLine w k m
      (Activation.startsLine (.readWorker handle read phase)).toNat := by
  have hnew : ∀ new, m.2.stack = new ++ rest → m.1.threads = w.threads →
      new.countP Activation.awaitsLine = 0 → Spends Activation.awaitsLine w k m
        (Activation.startsLine (.readWorker handle read phase)).toNat := by
    intro new hs' hthreads hnone
    refine spends_of_same ht hm hs new hs' hthreads ?_
    rw [hnone]
    cases phase <;> simp [Activation.startsLine, Activation.awaitsLine]
  have hreleased : ∀ {t' : Thread}, t'.stack = rest → Releases w handle t' m →
      Spends Activation.awaitsLine w k m
        (Activation.startsLine (.readWorker handle read phase)).toNat := fun hs' hreleases =>
    hnew [] (hreleases.exchange.2.trans hs') (congrArg Exchange.threads hreleases.exchange.1) rfl
  cases turn_of_stack hm hs with
  | goes hgo hmove =>
    cases hmove with
    | onward hnext => cases hnext
    | ended hend => cases hend
    | readRefused | unmarked | unregistered => exact hnew [_] rfl rfl rfl
    | readBegun => exact hnew [_, _] rfl rfl rfl
    | drained _ _ _ hpicks =>
      cases hpicks with
      | found => exact hnew [_, _, _] rfl rfl rfl
      | nothing => exact hnew [_] rfl rfl rfl
    | readReleased _ _ _ hreleases => exact hreleased rfl hreleases
  | receives o hback hmove => cases hmove <;> exact hnew [_] rfl rfl rfl
  | unwinds p hunwind hmove =>
    cases hmove with
    | readWorker _ _ _ hreleases => exact hreleased rfl hreleases
    | other ha => cases ha

theorem spends_of_handleTask (h : Run past w) (hdisposed : w.session.state = .disposed)
    (ht : w.threads[k]? = some t) (hm : m ∈ t.moves w k) {token : Option Token} {asked : Bool}
    (hs : t.stack = .handleTask token asked :: rest) :
    Spends Activation.awaitsLease w k m
      (Activation.awaitsLease (.handleTask token asked)).toNat := by
  have hended : m.2.stack = rest → m.1.threads = w.threads → Spends Activation.awaitsLease w k m
      (Activation.awaitsLease (.handleTask token asked)).toNat := by
    intro hs' hthreads
    exact spends_of_same ht hm hs [] hs' hthreads (by simp)
  cases turn_of_stack hm hs with
  | goes hgo hmove =>
    cases hmove with
    | onward hnext => cases hnext
    | ended hend => exact hended rfl rfl
    | leaseAsked =>
      rw [moves_of_refusal h hdisposed ht hs rfl] at hm
      have hstack : rest.length + 1 + 1 = rest.length :=
        congrArg (fun m => m.2.stack.length) (List.mem_singleton.mp hm)
      omega
  | receives o hback hmove =>
    cases hmove with
    | handleTask => exact hended rfl rfl
  | unwinds p hunwind hmove =>
    cases hmove with
    | other => exact hended rfl rfl

theorem spends_line (h : Run past w) (hdisposed : w.session.state = .disposed)
    (ht : w.threads[k]? = some t) (hm : m ∈ t.moves w k) (hs : t.stack = a :: rest) :
    Spends Activation.awaitsLine w k m a.startsLine.toNat := by
  have htask : ∀ b, Activation.awaitsLine b = true → b.alike b = true := by
    intro b hb
    cases b <;> first | rfl | cases hb
  cases a with
  | readTask token phase => exact spends_of_readTask h hdisposed ht hm hs
  | readWorker handle read phase => exact spends_of_readWorker ht hm hs
  | _ =>
    refine spends_of_aside (poised_of_run h ht) ht hm hs htask (fun b hb => ?_) rfl (by simp)
    cases b <;> first | rfl | cases hb

theorem spends_lease (h : Run past w) (hdisposed : w.session.state = .disposed)
    (ht : w.threads[k]? = some t) (hm : m ∈ t.moves w k) (hs : t.stack = a :: rest) :
    Spends Activation.awaitsLease w k m a.awaitsLease.toNat := by
  have htask : ∀ b, Activation.awaitsLease b = true → b.alike b = true := by
    intro b hb
    cases b <;> first | rfl | cases hb
  cases a with
  | handleTask token asked => exact spends_of_handleTask h hdisposed ht hm hs
  | _ =>
    refine spends_of_aside (poised_of_run h ht) ht hm hs htask (fun b hb => ?_) rfl
      fun _ _ _ _ _ => rfl
    cases b <;> first | rfl | cases hb

/-- A step of a disposed service admits no call, and what it serves was admitted before. -/
theorem admitted_of_step (h : Run past w) (hdisposed : w.session.state = .disposed)
    (hstep : Step w mover w') (gift : Gift) :
    w'.admitted gift + (Transition.serves ⟨w, mover, w'⟩ gift).toNat ≤ w.admitted gift := by
  cases gift with
  | order =>
    refine (next_of_step hstep).owing_le (orderly_of_run h).sound ?_
    rintro k t t' o rest rfl ht hs ht'
    cases hstep with
    | move hfree hmove =>
      obtain ⟨t₀, ht₀, m, hm, rfl⟩ := mem_next.mp hmove
      obtain rfl : t₀ = t := Option.some.inj (ht₀.symm.trans ht)
      have hthread := thread_of_moves ht₀ hm
      rw [moves_of_refusal h hdisposed ht₀ hs rfl] at hm
      obtain rfl := List.mem_singleton.mp hm
      obtain rfl := Option.some.inj (hthread.symm.trans ht')
      exact ⟨rfl, rfl⟩
  | line =>
    cases mover with
    | none => exact tally_of_client (fun a hentry => by cases hentry <;> rfl) hstep
    | some k =>
      cases hstep with
      | move hfree hmove =>
        obtain ⟨t, ht, m, hm, rfl⟩ := mem_next.mp hmove
        obtain ⟨a, rest, hs, -⟩ := local_of_moves hm
        have hserves : Transition.serves ⟨w, some k, { m.1 with threads := m.1.threads.set k m.2 }⟩
            .line = a.startsLine := by
          simp only [Transition.serves, Option.any_some, stackOf_of_thread ht, hs, List.head?_cons]
        rw [hserves]
        exact spends_line h hdisposed ht hm hs
  | lease =>
    cases mover with
    | none => exact tally_of_client (fun a hentry => by cases hentry <;> rfl) hstep
    | some k =>
      cases hstep with
      | move hfree hmove =>
        obtain ⟨t, ht, m, hm, rfl⟩ := mem_next.mp hmove
        obtain ⟨a, rest, hs, -⟩ := local_of_moves hm
        refine le_trans (Nat.add_le_add_left ?_ _) (spends_lease h hdisposed ht hm hs)
        simp only [Transition.serves, Option.bind_some, ht, Option.any_some, hs, List.head?_cons]
        cases a.awaitsLease <;> cases t.control.lease?.isSome <;> simp

end Steps

/-- What is served along a run, once the service is disposed, was admitted before. -/
theorem admitted_of_run {later earlier : List Transition} {x : Transition} {w : World}
    (h : Run (later ++ x :: earlier) w) (hdisposed : x.after.session.state = .disposed)
    (gift : Gift) : w.admitted gift + later.countP (·.serves gift) ≤ x.after.admitted gift := by
  induction later generalizing w with
  | nil => exact after_of_run h ▸ le_refl _
  | cons y later ih =>
    cases h with
    | step h hstep =>
      have hle := admitted_of_step h (disposed_of_run h hdisposed) hstep gift
      have := ih h
      rw [countP_cons_toNat]
      omega

end ScriptHost.Service
