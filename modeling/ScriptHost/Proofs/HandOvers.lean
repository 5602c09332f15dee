import ScriptHost.Proofs.RequestCells

/-!
Orders that are due. An order is due from when its execution begins until it is handed to
the engine or given up: with its execution, with the request or the worker it was passed
on to, or with the frame that is pushed for it. Every move of a thread leaves what is due,
drops some of it, passes one order on, or hands one over.
-/

namespace ScriptHost.Service

/-- Where an order is due: with the execution at a height of a thread's stack, with a request,
or with a worker. -/
inductive Source where
  | call (thread height : Nat)
  | request (id : Nat)
  | worker (thread : Nat)
  deriving DecidableEq

abbrev Due := Source × Order

def requestDue (r : Request) : Due :=
  (.request r.id, .ofRequest r)

/-- On whose behalf the activation at the top of a stack waits for a reply. -/
def asker? (k : Nat) : List Activation → Option Source
  | .exec _ .inline :: rest => some (.call k rest.length)
  | .request id :: _ => some (.request id)
  | _ => none

/-- What is due in an activation of thread `k` that stands on `rest`. -/
def Activation.due? (k : Nat) (rest : List Activation) : Activation → Option Due
  | .exec o phase => if phase.owns then some (.call k rest.length, o) else none
  | .starting _ o => some (.worker k, o)
  | .entering _ (.request r) => some (requestDue r)
  | .entering _ (.order o) => (asker? k rest).map (·, o)
  | _ => none

/-- What is due in a stack of thread `k`. -/
def stackDues (k : Nat) : List Activation → Multiset Due
  | [] => 0
  | a :: rest => (a.due? k rest).toList + stackDues k rest

/-- How many orders in a stack the engine was given. -/
def engaged (stack : List Activation) : Nat :=
  stack.countP fun
    | .leased _ | .inLoop _ _ => true
    | _ => false

namespace Exchange

/-- What is due in the queues of loops and in the idle slot. -/
def queuedDues (x : Exchange) : Multiset Due :=
  (x.loops.map fun l => (l.requests.map requestDue : Multiset Due)).sum +
    (x.parked.toList.map fun p => requestDue p.2 : List Due)

def dues (x : Exchange) : Multiset Due :=
  x.queuedDues + total (fun k t => stackDues k t.stack) x.threads

/-- The order that a move of thread `k` can hand to the engine. -/
def inHand (x : Exchange) (k : Nat) : List Activation → Option Due
  | .loop id _ :: _ => ((x.findLoop id).bind fun l => l.requests.head?).map requestDue
  | a :: rest => a.due? k rest
  | [] => none

/-- The order that a move of thread `k` from one stack to another hands to the engine. -/
def handedBy (x : Exchange) (k : Nat) (s s' : List Activation) : Option Due :=
  if engaged s < engaged s' then x.inHand k s else none

/-- The order that a step from `x` to `x'` hands to the engine. -/
def handed (x : Exchange) (mover : Option Nat) (x' : Exchange) : Option Due :=
  mover.bind fun k =>
    match x.threads[k]?, x'.threads[k]? with
    | some t, some t' => x.handedBy k t.stack t'.stack
    | _, _ => none

theorem handedBy_of_le {x : Exchange} {k : Nat} {s s' : List Activation}
    (h : engaged s' ≤ engaged s) : x.handedBy k s s' = none :=
  if_neg (Nat.not_lt.mpr h)

theorem handedBy_of_lt {x : Exchange} {k : Nat} {s s' : List Activation}
    (h : engaged s < engaged s') : x.handedBy k s s' = x.inHand k s :=
  if_pos h

/-- A loop's part of what is queued. -/
theorem Sound.queuedDues_update {x : Exchange} {l : MessageLoop} (h : x.Sound)
    (hl : l ∈ x.loops) :
    ∃ others, x.queuedDues = (l.requests.map requestDue : List Due) + others ∧
      (∀ f, (x.updateLoop l.id f).queuedDues =
        ((f l).requests.map requestDue : List Due) + others) ∧
      { x with loops := x.loops.filter (·.id != l.id) }.queuedDues = others := by
  obtain ⟨inner, outer, hloops, hupdate, hfilter⟩ := h.split hl
  refine ⟨{ x with loops := inner ++ outer }.queuedDues, ?_, ?_, ?_⟩
  · simp only [queuedDues, hloops, List.map_append, List.map_cons, List.sum_append, List.sum_cons]
    rw [add_left_comm, add_assoc]
  · intro f
    have hparked : (x.updateLoop l.id f).parked = x.parked := rfl
    simp only [queuedDues, hupdate, hparked, List.map_append, List.map_cons, List.sum_append,
      List.sum_cons]
    rw [add_left_comm, add_assoc]
  · rw [hfilter]

end Exchange

section Stack

variable {k : Nat} {a : Activation} {top rest : List Activation}

theorem due_of_plain (h : a.plain) : a.due? k rest = none := by
  cases a <;> simp_all [Activation.plain, Activation.due?]

theorem stackDues_cons : stackDues k (a :: rest) = (a.due? k rest).toList + stackDues k rest := rfl

theorem stackDues_of_none (h : a.due? k rest = none) :
    stackDues k (a :: rest) = stackDues k rest := by
  rw [stackDues_cons, h]
  exact zero_add _

theorem stackDues_of_some {q : Due} (h : a.due? k rest = some q) :
    stackDues k (a :: rest) = q ::ₘ stackDues k rest := by
  rw [stackDues_cons, h]
  rfl

theorem stackDues_append (h : top.all Activation.plain) :
    stackDues k (top ++ rest) = stackDues k rest := by
  induction top with
  | nil => rfl
  | cons a top ih =>
    simp only [List.all_cons, Bool.and_eq_true] at h
    rw [List.cons_append, stackDues_of_none (due_of_plain h.1), ih h.2]

theorem engaged_cons_of_plain (h : a.plain) : engaged (a :: rest) = engaged rest := by
  unfold engaged
  rw [List.countP_cons]
  cases a <;> simp_all [Activation.plain]

theorem engaged_append (h : top.all Activation.plain) : engaged (top ++ rest) = engaged rest := by
  induction top with
  | nil => rfl
  | cons a top ih =>
    simp only [List.all_cons, Bool.and_eq_true] at h
    rw [List.cons_append, engaged_cons_of_plain h.1, ih h.2]

theorem engaged_le_cons : engaged rest ≤ engaged (a :: rest) := by
  unfold engaged
  rw [List.countP_cons]
  exact Nat.le_add_right _ _

theorem stackDues_of_owns {o : Order} {phase : ExecPhase} (h : phase.owns) :
    stackDues k (.exec o phase :: rest) = (.call k rest.length, o) ::ₘ stackDues k rest := by
  apply stackDues_of_some
  simp only [Activation.due?, h, if_true]

theorem stackDues_le_cons : stackDues k rest ≤ stackDues k (a :: rest) :=
  Multiset.le_add_left _ _

theorem engaged_lt_inLoop {loop : Nat} {options : Options} :
    engaged rest < engaged (.inLoop loop options :: rest) := by
  simp [engaged]

theorem Still.stackDues_le {s s' : List Activation} (h : Still s s') (k : Nat) :
    stackDues k s' ≤ stackDues k s := by
  cases h with
  | plain a top rest ha htop => rw [stackDues_append htop, stackDues_of_none (due_of_plain ha)]
  | ended a rest => exact Multiset.le_add_left _ _
  | exec o phase phase' above rest habove hphase howns =>
    rw [stackDues_append habove, stackDues_cons, stackDues_cons]
    simp only [Activation.due?, howns, le_refl]
  | loop id phase phase' rest => exact le_refl _
  | entering phase phase' work rest => cases work <;> exact le_refl _

/-- An order that a loop's thread begins with is refused, waits for its frame, or was given to
the engine. -/
theorem Begins.dues {o : Order} {above : List Activation} {c : Control} {asker : Source}
    (h : Begins o above c) (hrest : asker? k rest = some asker) :
    (stackDues k (above ++ rest) ≤ (asker, o) ::ₘ stackDues k rest ∧
      engaged (above ++ rest) = engaged rest) ∨
    (stackDues k (above ++ rest) = stackDues k rest ∧
      engaged rest < engaged (above ++ rest)) := by
  cases h with
  | refused e => exact Or.inl ⟨Multiset.le_cons_self _ _, rfl⟩
  | entering =>
    refine Or.inl ⟨?_, rfl⟩
    rw [List.singleton_append, stackDues_of_some (q := (asker, o))]
    simp only [Activation.due?, hrest, Option.map_some]
  | handed above loop control habove =>
    rw [List.append_assoc, stackDues_append habove, engaged_append habove]
    exact Or.inr ⟨stackDues_of_none rfl, engaged_lt_inLoop⟩

theorem Still.engaged_le {s s' : List Activation} (h : Still s s') : engaged s' ≤ engaged s := by
  cases h with
  | plain a top rest ha htop => rw [engaged_append htop, engaged_cons_of_plain ha]
  | ended a rest => exact engaged_le_cons
  | exec o phase phase' above rest habove =>
    rw [engaged_append habove]
    exact le_refl _
  | loop id phase phase' rest => exact le_refl _
  | entering phase phase' work rest => exact le_refl _

end Stack

/-- What a move of thread `k` does with what is due, from `d` to `d'`. -/
inductive Dealt (x : Exchange) (k : Nat) (s : List Activation) (x' : Exchange)
    (s' : List Activation) (d d' : Multiset Due) : Prop
  | kept (hnone : x.handedBy k s s' = none) (h : d' ≤ d)
  | handed (q : Due) (hq : x.handedBy k s s' = some q) (h : d = q ::ₘ d')
  | sent (o : Order) (phase : ExecPhase) (id : Nat) (rest : List Activation) (e : Multiset Due)
      (hs : s = .exec o phase :: rest) (hnone : x.handedBy k s s' = none)
      (hid : id = x.cells.length ∧ x'.cells.length = x.cells.length + 1 ∨
        phase.request? = some id)
      (h : d = (.call k rest.length, o) ::ₘ e) (h' : d' ≤ (.request id, o) ::ₘ e)
  | reclaimed (o : Order) (id : Nat) (r : Request) (rest : List Activation) (e : Multiset Due)
      (hs : s = .exec o (.reclaiming id) :: rest) (hnone : x.handedBy k s s' = none)
      (h : d = (.request id, .ofRequest r) ::ₘ e) (h' : d' = (.call k rest.length, o) ::ₘ e)
  | spawned (o : Order) (handle : Handle) (rest : List Activation) (e : Multiset Due)
      (hs : s = .exec o (.spawning handle) :: rest) (hnone : x.handedBy k s s' = none)
      (hthreads : x'.threads.length = x.threads.length + 1)
      (h : d = (.call k rest.length, o) ::ₘ e) (h' : d' = (.worker x.threads.length, o) ::ₘ e)
  | begun (o : Order) (a : Activation) (rest : List Activation) (height : Nat)
      (hs : s = a :: rest) (ha : a.plain) (hnone : x.handedBy k s s' = none)
      (hheight : rest.length ≤ height) (h : d' = (.call k height, o) ::ₘ d)

namespace Dealt

variable {x x' : Exchange} {k : Nat} {s s' : List Activation} {d d' : Multiset Due}

theorem add (h : Dealt x k s x' s' d d') (others : Multiset Due) :
    Dealt x k s x' s' (d + others) (d' + others) := by
  cases h with
  | kept hnone h => exact .kept hnone (add_le_add_left h others)
  | handed q hq h => exact .handed q hq (by rw [h, Multiset.cons_add])
  | sent o phase id rest e hs hnone hid h h' =>
    refine .sent o phase id rest (e + others) hs hnone hid (by rw [h, Multiset.cons_add]) ?_
    rw [← Multiset.cons_add]
    exact add_le_add_left h' others
  | reclaimed o id r rest e hs hnone h h' =>
    exact .reclaimed o id r rest (e + others) hs hnone (by rw [h, Multiset.cons_add])
      (by rw [h', Multiset.cons_add])
  | spawned o handle rest e hs hnone hthreads h h' =>
    exact .spawned o handle rest (e + others) hs hnone hthreads (by rw [h, Multiset.cons_add])
      (by rw [h', Multiset.cons_add])
  | begun o a rest height hs ha hnone hheight h =>
    exact .begun o a rest height hs ha hnone hheight (by rw [h, Multiset.cons_add])

/-- A move that hands nothing over and adds nothing to what is due. -/
theorem of_le (hengaged : engaged s' ≤ engaged s) (hqueued : x'.queuedDues ≤ x.queuedDues)
    (hstack : stackDues k s' ≤ stackDues k s) :
    Dealt x k s x' s' (x.queuedDues + stackDues k s) (x'.queuedDues + stackDues k s') :=
  .kept (Exchange.handedBy_of_le hengaged) (add_le_add hqueued hstack)

/-- A move that ends an activation. -/
theorem of_end {a : Activation} {rest : List Activation} (hqueued : x'.queuedDues ≤ x.queuedDues) :
    Dealt x k (a :: rest) x' rest (x.queuedDues + stackDues k (a :: rest))
      (x'.queuedDues + stackDues k rest) :=
  of_le engaged_le_cons hqueued stackDues_le_cons

/-- A move that hands over what is due with the innermost activation. -/
theorem of_handed {a : Activation} {rest : List Activation} (hloop : ∀ id phase, a ≠ .loop id phase)
    (hengaged : engaged (a :: rest) < engaged s') (hqueued : x'.queuedDues = x.queuedDues)
    (hstack : stackDues k s' = stackDues k rest) :
    Dealt x k (a :: rest) x' s' (x.queuedDues + stackDues k (a :: rest))
      (x'.queuedDues + stackDues k s') := by
  have hhanded : x.handedBy k (a :: rest) s' = a.due? k rest := by
    rw [Exchange.handedBy_of_lt hengaged]
    cases a <;> first | rfl | exact absurd rfl (hloop _ _)
  rw [hqueued, hstack]
  cases hdue : a.due? k rest with
  | none =>
    refine .kept (hhanded.trans hdue) ?_
    rw [stackDues_of_none hdue]
  | some q =>
    refine .handed q (hhanded.trans hdue) ?_
    rw [stackDues_of_some hdue, Multiset.add_cons]

end Dealt

section Traffic

variable {x x' : Exchange} {c c' : Control} {s s' : List Activation}

/-- What is due with the threads that a move starts. -/
def newDues (x x' : Exchange) : Multiset Due :=
  total (fun j t => stackDues (j + x.threads.length) t.stack) (x'.threads.drop x.threads.length)

theorem newDues_of_same (h : x'.threads = x.threads) : newDues x x' = 0 := by
  rw [newDues, h, List.drop_length]
  rfl

theorem Traffic.dealt (h : Traffic x c s x' c' s') (hx : x.Sound) (k : Nat) :
    Dealt x k s x' s' (x.queuedDues + stackDues k s)
      (x'.queuedDues + stackDues k s' + newDues x x') := by
  have hsame : ∀ {x' : Exchange}, x'.threads = x.threads →
      Dealt x k s x' s' (x.queuedDues + stackDues k s) (x'.queuedDues + stackDues k s') →
      Dealt x k s x' s' (x.queuedDues + stackDues k s)
        (x'.queuedDues + stackDues k s' + newDues x x') := by
    intro x' hthreads h
    rwa [newDues_of_same hthreads, add_zero]
  have hle : ∀ {x' : Exchange}, x'.threads = x.threads → x'.queuedDues ≤ x.queuedDues →
      stackDues k s' ≤ stackDues k s → engaged s' ≤ engaged s →
      Dealt x k s x' s' (x.queuedDues + stackDues k s)
        (x'.queuedDues + stackDues k s' + newDues x x') :=
    fun hthreads hqueued hstack hengaged => hsame hthreads (.of_le hengaged hqueued hstack)
  cases h with
  | quiet h => exact hle rfl (le_refl _) (h.stackDues_le k) h.engaged_le
  | spawnedReader handle read h =>
    have hnew : newDues x (x.spawn (.readWorker handle read .starting)) = 0 := by
      rw [newDues, Exchange.spawn, List.drop_left]
      rfl
    rw [hnew, add_zero]
    exact .of_le h.engaged_le (le_refl _) (h.stackDues_le k)
  | spawned o h rest =>
    have hnew : newDues x (x.spawn (.starting h o)) = {(.worker x.threads.length, o)} := by
      rw [newDues, Exchange.spawn, List.drop_left, total_singleton, zero_add]
      rfl
    refine .spawned o h rest (x.queuedDues + stackDues k rest) rfl
      (Exchange.handedBy_of_le (le_refl _)) (by simp [Exchange.spawn]) ?_ ?_
    · rw [stackDues_of_owns rfl, Multiset.add_cons]
    · rw [hnew, stackDues_of_none rfl, add_comm, Multiset.singleton_add]
      rfl
  | answered o phase r rest | failed o phase rest | turnedAway o rest | gaveUp o ticket id rest
  | failedRequest r rest | failedOrder o e rest | lost phase work p rest
  | unstarted h o p rest | returned r id rest | caught p id rest =>
    exact hsame rfl (.of_end (le_refl _))
  | withdrawn o id r rest hparked =>
    refine hsame rfl (.of_end ?_)
    exact add_le_add (le_refl _) (Multiset.zero_le _)
  | joined o worker r above rest habove h =>
    refine hle rfl (le_refl _) ?_ ?_
    · rw [stackDues_append habove]
      exact le_refl _
    · rw [engaged_append habove]
      exact le_refl _
  | reentered o a top rest ha htop =>
    have hengaged : engaged (.exec o .checking :: (top ++ rest)) = engaged (a :: rest) := by
      rw [engaged_cons_of_plain ha]
      exact engaged_append htop
    refine .begun o a rest (top ++ rest).length rfl ha
      (Exchange.handedBy_of_le (le_of_eq hengaged)) (by simp) ?_
    rw [newDues_of_same rfl, add_zero, stackDues_of_owns rfl, stackDues_append htop,
      stackDues_of_none (due_of_plain ha), Multiset.add_cons]
  | inlined o above rest h =>
    have howns : stackDues k (.exec o .routing :: rest) =
        (.call k rest.length, o) ::ₘ stackDues k (.exec o .inline :: rest) := by
      rw [stackDues_of_owns rfl, stackDues_of_none (a := .exec o .inline) rfl]
    have hasker : asker? k (.exec o .inline :: rest) = some (.call k rest.length) := rfl
    rcases h.dues hasker with
      ⟨hstack, hengaged⟩ | ⟨hstack, hengaged⟩
    · exact hle rfl (le_refl _) (howns ▸ hstack) (le_of_eq hengaged)
    · refine hsame rfl (.of_handed (by simp) hengaged rfl (hstack.trans ?_))
      exact stackDues_of_none rfl
  | posted o l rest hl =>
    obtain ⟨queued, hqueued, hupdate, -⟩ :=
      Exchange.Sound.queuedDues_update (x := x.newCell) ⟨hx.1, hx.2, hx.3⟩ hl
    have hposted : (x.newCell.updateLoop l.id fun l =>
        { l with requests := l.requests ++ [o.toRequest x.cells.length] }).queuedDues =
        (.request x.cells.length, o) ::ₘ x.queuedDues := by
      have hold : x.queuedDues = (l.requests.map requestDue : List Due) + queued := hqueued
      rw [hupdate, hold, List.map_append, ← Multiset.coe_add, add_right_comm, add_comm]
      rfl
    refine .sent o .routing x.cells.length rest (x.queuedDues + stackDues k rest) rfl
      (Exchange.handedBy_of_le (le_refl _)) (Or.inl ⟨rfl, ?_⟩) ?_ ?_
    · simp [Exchange.updateLoop, Exchange.newCell]
    · rw [stackDues_of_owns rfl, Multiset.add_cons]
    · rw [newDues_of_same (by rfl), add_zero, hposted, stackDues_of_none rfl, Multiset.cons_add]
  | acquired o phase rest howns hrequest =>
    refine hle rfl (le_refl _) ?_ (le_refl _)
    rw [stackDues_of_owns howns, stackDues_of_owns rfl]
  | parked o id rest =>
    have hparked : { x with parked := some (id, o.toRequest id) }.queuedDues ≤
        (.request id, o) ::ₘ x.queuedDues := by
      rw [← Multiset.singleton_add, add_comm]
      exact add_le_add (Multiset.le_add_right _ _) (le_refl _)
    refine .sent o (.parking id) id rest (x.queuedDues + stackDues k rest) rfl
      (Exchange.handedBy_of_le (le_refl _)) (Or.inr rfl) ?_ ?_
    · rw [stackDues_of_owns rfl, Multiset.add_cons]
    · rw [newDues_of_same (by rfl), add_zero, stackDues_of_none rfl, ← Multiset.cons_add]
      exact add_le_add hparked (le_refl _)
  | reclaimed o id r above rest hparked habove =>
    obtain rfl := hx.parked_named id r hparked
    have hqueued : x.queuedDues =
        requestDue r ::ₘ { x.setCell r.id .abandon with parked := none }.queuedDues := by
      rw [Exchange.queuedDues, hparked, add_comm]
      exact congrArg (requestDue r ::ₘ ·) (add_zero _).symm
    refine .reclaimed o r.id r rest
      ({ x.setCell r.id .abandon with parked := none }.queuedDues + stackDues k rest) rfl
      (Exchange.handedBy_of_le ?_) ?_ ?_
    · rw [engaged_append habove]
      exact le_refl _
    · rw [hqueued, stackDues_of_none rfl, Multiset.cons_add]
      rfl
    · rw [newDues_of_same (by rfl), add_zero, stackDues_append habove, stackDues_of_owns rfl,
        Multiset.add_cons]
  | pickedUp id r a top rest hparked ha htop =>
    have hqueued : x.queuedDues = requestDue r ::ₘ { x with parked := none }.queuedDues := by
      rw [Exchange.queuedDues, hparked, add_comm]
      exact congrArg (requestDue r ::ₘ ·) (add_zero _).symm
    have hengaged : engaged (.entering .pushing (.request r) :: (top ++ rest)) =
        engaged (a :: rest) := by
      rw [engaged_cons_of_plain ha]
      exact engaged_append htop
    refine hsame rfl (.kept (Exchange.handedBy_of_le (le_of_eq hengaged)) ?_)
    rw [hqueued, stackDues_of_none (due_of_plain ha),
      stackDues_of_some (a := .entering .pushing (.request r)) rfl, stackDues_append htop,
      Multiset.add_cons, Multiset.cons_add]
  | enteredRequest frame h r above rest habove =>
    refine hsame rfl (.of_handed (by simp) ?_ rfl ?_)
    · rw [engaged_append habove]
      simp [engaged]
    · rw [stackDues_append habove]
      simp [stackDues, Activation.due?]
  | enteredOrder frame h o above rest habove =>
    refine hsame rfl (.of_handed (by simp) ?_ rfl ?_)
    · rw [engaged_append habove]
      simp [engaged]
    · rw [stackDues_append habove]
      simp [stackDues, Activation.due?]
  | started h o above rest habove =>
    refine hsame rfl (.of_handed (by simp) ?_ rfl ?_)
    · rw [engaged_append habove]
      simp [engaged]
    · rw [stackDues_append habove]
      simp [stackDues, Activation.due?]
  | opened l phase a top rest hid hrequests hsignal hpumps hparting ha htop =>
    refine hle rfl (le_of_eq ?_) ?_ ?_
    · simp [Exchange.queuedDues, hrequests]
    · rw [stackDues_of_none rfl, stackDues_append htop, stackDues_of_none (due_of_plain ha)]
    · rw [engaged_cons_of_plain ha]
      exact le_of_eq (engaged_append htop)
  | signalled l signal hl hsignal h =>
    obtain ⟨queued, hqueued, hupdate, -⟩ := hx.queuedDues_update (Exchange.mem_of_findLoop hl)
    exact hle rfl (by rw [hupdate, hqueued]) (h.stackDues_le k) h.engaged_le
  | consumed l signal rest hl hsignal =>
    obtain ⟨queued, hqueued, hupdate, -⟩ := hx.queuedDues_update (Exchange.mem_of_findLoop hl)
    exact hle rfl (by rw [hupdate, hqueued]) (le_refl _) (le_refl _)
  | skipped l r requests phase phase' rest hl hr hcancelled hpumps hparting =>
    obtain ⟨queued, hqueued, hupdate, -⟩ := hx.queuedDues_update (Exchange.mem_of_findLoop hl)
    refine hle rfl ?_ (le_refl _) (le_refl _)
    change (x.updateLoop l.id fun l => { l with requests }).queuedDues ≤ x.queuedDues
    rw [hupdate, hqueued, hr]
    exact add_le_add_left (Multiset.le_cons_self _ (requestDue r)) queued
  | taken l r requests phase phase' above rest hl hr hcancelled hpumps hparting h =>
    obtain ⟨queued, hqueued, hupdate, -⟩ := hx.queuedDues_update (Exchange.mem_of_findLoop hl)
    have hold : x.queuedDues =
        requestDue r ::ₘ (x.updateLoop l.id fun l => { l with requests }).queuedDues := by
      rw [hupdate, hqueued, hr, ← Multiset.cons_add]
      rfl
    have hbelow : stackDues k (.request r.id :: .loop l.id phase' :: rest) =
        stackDues k (.loop l.id phase :: rest) := by
      simp [stackDues, Activation.due?]
    have hasker : asker? k (.request r.id :: .loop l.id phase' :: rest) = some (.request r.id) :=
      rfl
    rcases h.dues hasker with
      ⟨hstack, hengaged⟩ | ⟨hstack, hengaged⟩
    · refine hsame rfl (.kept (Exchange.handedBy_of_le (le_of_eq hengaged)) ?_)
      rw [hold, Multiset.cons_add, ← Multiset.add_cons]
      exact add_le_add (le_refl _) (hbelow ▸ hstack)
    · refine hsame rfl (.handed (requestDue r) ?_ ?_)
      · have hlt : engaged (.loop l.id phase :: rest) <
            engaged (above ++ .request r.id :: .loop l.id phase' :: rest) := hengaged
        rw [Exchange.handedBy_of_lt hlt, Exchange.inHand, hl]
        simp [hr]
      · rw [hold, hstack, hbelow, Multiset.cons_add]
  | locked l signal rest hl hr =>
    obtain ⟨queued, hqueued, hupdate, -⟩ := hx.queuedDues_update (Exchange.mem_of_findLoop hl)
    exact hle rfl (by rw [hupdate, hqueued]) (le_refl _) (le_refl _)
  | closed l signal phase above rest hl hphase habove =>
    obtain ⟨queued, hqueued, -, hfilter⟩ := hx.queuedDues_update (Exchange.mem_of_findLoop hl)
    refine hle rfl ?_ ?_ ?_
    · rw [hfilter, hqueued]
      exact Multiset.le_add_left _ _
    · rcases habove with rfl | ⟨action, rfl⟩ <;> simp [stackDues, Activation.due?]
    · rcases habove with rfl | ⟨action, rfl⟩ <;> exact le_refl _

end Traffic

end ScriptHost.Service
