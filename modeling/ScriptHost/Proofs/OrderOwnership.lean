import ScriptHost.Proofs.CallCourses

/-!
Who owns an order. Of all that is due, one order at most belongs to a call, and none once
an order was handed to the engine for it: a step passes that order on within the call,
drops it or hands it over, and what it does with other orders makes none of them the
call's own.
-/

namespace ScriptHost.Service

theorem mem_total {f : Nat → Thread → Multiset Due} {threads : List Thread} {q : Due}
    (h : q ∈ total f threads) : ∃ k t, threads[k]? = some t ∧ q ∈ f k t := by
  induction threads using List.reverseRecOn with
  | nil => exact absurd h (Multiset.notMem_zero q)
  | append_singleton threads t ih =>
    rw [total_append, total_singleton, zero_add, Multiset.mem_add] at h
    rcases h with h | h
    · obtain ⟨k, t', ht', hmem⟩ := ih h
      refine ⟨k, t', ?_, hmem⟩
      rw [List.getElem?_append_left (List.getElem?_eq_some_iff.mp ht').1, ht']
    · exact ⟨threads.length, t, by simp, h⟩

theorem carried_of_asker {k id : Nat} {rest : List Activation}
    (h : asker? k rest = some (.request id)) : 1 ≤ carried id rest := by
  unfold asker? at h
  split at h
  · cases h
  · cases h
    simp [Activation.carries]
  · cases h

theorem carried_of_due {k id : Nat} {o : Order} {s : List Activation}
    (h : (Source.request id, o) ∈ stackDues k s) : 1 ≤ carried id s := by
  induction s with
  | nil => exact absurd h (Multiset.notMem_zero _)
  | cons a rest ih =>
    rw [carried_cons]
    rw [stackDues_cons, Multiset.mem_add] at h
    rcases h with h | h
    · have hdue : a.due? k rest = some (.request id, o) := by simpa using h
      unfold Activation.due? at hdue
      split at hdue
      · split at hdue <;> cases hdue
      · cases hdue
      · cases hdue
        simp [Activation.carries]
      · obtain ⟨asker, hasker, heq⟩ := Option.map_eq_some_iff.mp hdue
        cases heq
        have := carried_of_asker hasker
        omega
      · cases hdue
    · have := ih h
      omega

theorem worker_of_due {k j : Nat} {o : Order} {s : List Activation}
    (h : (Source.worker j, o) ∈ stackDues k s) : j = k := by
  induction s with
  | nil => exact absurd h (Multiset.notMem_zero _)
  | cons a rest ih =>
    rw [stackDues_cons, Multiset.mem_add] at h
    rcases h with h | h
    · have hdue : a.due? k rest = some (.worker j, o) := by simpa using h
      unfold Activation.due? at hdue
      split at hdue
      · split at hdue <;> cases hdue
      · cases hdue
        rfl
      · cases hdue
      · obtain ⟨asker, hasker, heq⟩ := Option.map_eq_some_iff.mp hdue
        cases heq
        unfold asker? at hasker
        split at hasker <;> cases hasker
      · cases hdue
    · exact ih h

namespace Exchange

variable {x x' : Exchange}

theorem exists_request_of_queued {q : Due} (h : q ∈ x.queuedDues) :
    ∃ r, q = requestDue r ∧ 1 ≤ x.carriers r.id := by
  rw [queuedDues, Multiset.mem_add] at h
  rcases h with h | h
  · have hloops : ∀ loops : List MessageLoop,
        q ∈ (loops.map fun l => (l.requests.map requestDue : Multiset Due)).sum →
        ∃ r, q = requestDue r ∧
          1 ≤ (loops.map fun l => l.requests.countP (·.id = r.id)).sum := by
      intro loops
      induction loops with
      | nil => exact fun hq => absurd hq (Multiset.notMem_zero q)
      | cons l loops ih =>
        intro hq
        rw [List.map_cons, List.sum_cons, Multiset.mem_add] at hq
        rcases hq with hq | hq
        · obtain ⟨r, hr, rfl⟩ := List.mem_map.mp (Multiset.mem_coe.mp hq)
          have hpos : 0 < l.requests.countP (·.id = r.id) :=
            List.countP_pos_iff.mpr ⟨r, hr, by simp⟩
          refine ⟨r, rfl, ?_⟩
          rw [List.map_cons, List.sum_cons]
          omega
        · obtain ⟨r, hr, hpos⟩ := ih hq
          refine ⟨r, hr, ?_⟩
          rw [List.map_cons, List.sum_cons]
          omega
    obtain ⟨r, hr, hpos⟩ := hloops x.loops h
    exact ⟨r, hr, Nat.le_add_right_of_le hpos⟩
  · obtain ⟨p, hp, rfl⟩ := List.mem_map.mp (Multiset.mem_coe.mp h)
    refine ⟨p.2, rfl, ?_⟩
    rw [carriers, Option.mem_toList.mp hp]
    simp

/-- The cell of a request with which an order is due waits. -/
theorem waiting_of_due (hx : x.Orderly) {id : Nat} {o : Order}
    (h : (Source.request id, o) ∈ x.dues) : x.cells[id]? = some .waiting := by
  have hplaces : 1 ≤ x.places id := by
    rw [dues, Multiset.mem_add] at h
    rcases h with h | h
    · obtain ⟨r, hr, hcarriers⟩ := exists_request_of_queued h
      obtain rfl : id = r.id := Source.request.inj (Prod.mk.inj hr).1
      exact Nat.le_add_right_of_le hcarriers
    · obtain ⟨k, t, ht, hmem⟩ := mem_total h
      obtain ⟨others, hbefore, -⟩ := exists_elsewhere ht
      have := carried_of_due hmem
      rw [hbefore]
      omega
  obtain ⟨hone, hwaiting⟩ := hx.unanswered id
  exact hwaiting (by omega)

theorem request_made_of_due (hx : x.Orderly) {id : Nat} {o : Order}
    (h : (Source.request id, o) ∈ x.dues) : id < x.cells.length :=
  (List.getElem?_eq_some_iff.mp (waiting_of_due hx h)).1

theorem worker_made_of_due {j : Nat} {o : Order} (h : (Source.worker j, o) ∈ x.dues) :
    j < x.threads.length := by
  rw [dues, Multiset.mem_add] at h
  rcases h with h | h
  · obtain ⟨r, hr, -⟩ := exists_request_of_queued h
    cases hr
  · obtain ⟨k, t, ht, hmem⟩ := mem_total h
    obtain rfl := worker_of_due hmem
    exact (List.getElem?_eq_some_iff.mp ht).1

/-- The thread that moved, after its move. -/
theorem thread_of_move {x₁ : Exchange} {k : Nat} {t t' : Thread} (ht : x.threads[k]? = some t)
    (h : Traffic x t.control t.stack x₁ t'.control t'.stack) :
    (x₁.setThread k t').threads[k]? = some t' := by
  obtain ⟨new, hnew, -⟩ := h.threads_eq
  have hlt : k < x₁.threads.length := by
    rw [hnew, List.length_append]
    exact Nat.lt_add_right _ (List.getElem?_eq_some_iff.mp ht).1
  exact List.getElem?_set_self hlt

theorem handed_of_move {x₁ : Exchange} {k : Nat} {t t' : Thread} (ht : x.threads[k]? = some t)
    (h : Traffic x t.control t.stack x₁ t'.control t'.stack) :
    x.handed (some k) (x₁.setThread k t') = x.handedBy k t.stack t'.stack := by
  simp [handed, ht, thread_of_move ht h]

theorem dealt_of_move {x₁ : Exchange} {k : Nat} {t t' : Thread} (hx : x.Sound)
    (ht : x.threads[k]? = some t) (h : Traffic x t.control t.stack x₁ t'.control t'.stack) :
    Dealt x k t.stack (x₁.setThread k t') t'.stack x.dues (x₁.setThread k t').dues := by
  obtain ⟨new, hnew, -⟩ := h.threads_eq
  obtain ⟨others, hbefore, hafter⟩ := exists_others_append (f := fun k t => stackDues k t.stack) ht
  have hdues : x.dues = x.queuedDues + stackDues k t.stack + others := by
    rw [dues, hbefore, add_assoc]
  have hdues' : (x₁.setThread k t').dues =
      x₁.queuedDues + stackDues k t'.stack + newDues x x₁ + others := by
    have hset := hafter t' new
    rw [← hnew] at hset
    have hdrop : x₁.threads.drop x.threads.length = new := by rw [hnew, List.drop_left]
    rw [newDues, hdrop, add_assoc, add_assoc, ← hset]
    rfl
  rw [hdues, hdues']
  cases (h.dealt hx k).add others with
  | kept hnone h => exact .kept hnone h
  | handed q hq h => exact .handed q hq h
  | sent o phase id rest e hs hnone hid h h' => exact .sent o phase id rest e hs hnone hid h h'
  | reclaimed o id r rest e hs hnone h h' => exact .reclaimed o id r rest e hs hnone h h'
  | spawned o handle rest e hs hnone hthreads h h' =>
    exact .spawned o handle rest e hs hnone (by simpa [setThread] using hthreads) h h'
  | begun o a rest height hs ha hnone hheight h =>
    exact .begun o a rest height hs ha hnone hheight h

/-- A client only adds calls to what is due. -/
theorem Next.dues_of_client (h : x.Next none x') (hx : x.Sound) :
    x'.dues ≤ x.dues ∨ ∃ o, x'.dues = (.call x.threads.length 0, o) ::ₘ x.dues := by
  have hemptied : ∀ {x₁ : Exchange} {k : Nat} {t t' : Thread}, x₁.threads = x.threads →
      x₁.queuedDues = x.queuedDues → x.threads[k]? = some t → t'.stack = [] →
      (x₁.setThread k t').dues ≤ x.dues := by
    intro x₁ k t t' hthreads hqueued ht hs
    obtain ⟨others, hbefore, hafter⟩ := exists_others (f := fun k t => stackDues k t.stack) ht
    have hset := hafter t'
    rw [hs, ← hthreads] at hset
    have hdues : (x₁.setThread k t').dues = x.queuedDues + others := by
      rw [dues, setThread, hset]
      change x₁.queuedDues + (0 + others) = _
      rw [hqueued, zero_add]
    rw [hdues, dues, hbefore]
    exact add_le_add (le_refl _) (Multiset.le_add_left _ _)
  cases h with
  | @called a hentry =>
    have hspawned : (x.spawn a).dues = x.dues + stackDues x.threads.length [a] := by
      rw [dues, spawn, total_append, total_singleton, zero_add, ← add_assoc]
      rfl
    rw [hspawned]
    cases hentry with
    | execute o => exact Or.inr ⟨o, add_comm _ _⟩
    | _ => exact Or.inl (le_of_eq (add_zero _))
  | told tokens => exact Or.inl (le_refl _)
  | signalled l signal hl hsignal =>
    obtain ⟨queued, hqueued, hupdate, -⟩ := hx.queuedDues_update (mem_of_findLoop hl)
    refine Or.inl (add_le_add (le_of_eq ?_) (le_refl _))
    rw [hupdate, hqueued]
  | dropped ht hs hcontrol t' hs' hcontrol' => exact Or.inl (hemptied rfl rfl ht hs')
  | leftLine ht hs t' hs' hcontrol' => exact Or.inl (hemptied rfl rfl ht hs')
  | returned ht hs t' hs' hcontrol' => exact Or.inl (hemptied rfl rfl ht hs')

end Exchange

namespace Course

/-- How much of what is due belongs to the call. -/
def owed (course : Course) (k h : Nat) (d : Multiset Due) : Nat :=
  d.countP fun q => course.owns k h q.1 = true

/-- What is due with the call and what was handed over for it is one order at most, and it is
the call's own. -/
structure Once (course : Course) (k h : Nat) (o : Order) (x : Exchange) : Prop where
  once : course.owed k h x.dues + course.given.length ≤ 1
  due_own : ∀ q ∈ x.dues, course.owns k h q.1 = true → q.2 = o
  given_own : ∀ o' ∈ course.given, o' = o

section Owed

variable {course course' : Course} {k h : Nat} {d d' : Multiset Due} {q : Due}

theorem owed_le_of_le (course : Course) (k h : Nat) (hle : d' ≤ d) :
    course.owed k h d' ≤ course.owed k h d :=
  Multiset.countP_le_of_le _ hle

theorem owed_cons_of_owns (hq : course.owns k h q.1 = true) :
    course.owed k h (q ::ₘ d) = course.owed k h d + 1 :=
  Multiset.countP_cons_of_pos _ hq

theorem owed_cons_of_not_owns (hq : ¬course.owns k h q.1 = true) :
    course.owed k h (q ::ₘ d) = course.owed k h d :=
  Multiset.countP_cons_of_neg _ hq

theorem owed_le_of_owns (hown : ∀ q ∈ d, course'.owns k h q.1 = true → course.owns k h q.1 = true) :
    course'.owed k h d ≤ course.owed k h d := by
  induction d using Multiset.induction_on with
  | empty => exact le_refl _
  | cons q d ih =>
    have hrest := ih fun q' hq' => hown q' (Multiset.mem_cons_of_mem hq')
    have hfirst := hown q (Multiset.mem_cons_self q d)
    by_cases hq' : course'.owns k h q.1 = true
    · rw [owed_cons_of_owns hq', owed_cons_of_owns (hfirst hq')]
      omega
    · rw [owed_cons_of_not_owns hq']
      exact hrest.trans (owed_le_of_le course k h (Multiset.le_cons_self d q))

end Owed

section Extend

variable {course : Course} {k h : Nat} {o : Order} {x x' : Exchange} {mover : Option Nat}

theorem owns_call_iff {k' h' : Nat} : course.owns k h (.call k' h') = true ↔
    course.going = true ∧ k' = k ∧ h' = h := by
  simp [owns, and_assoc]

theorem owns_request_iff {id : Nat} : course.owns k h (.request id) = true ↔
    id ∈ course.requests := by
  simp [owns]

theorem owns_worker_iff {j : Nat} : course.owns k h (.worker j) = true ↔ j ∈ course.workers := by
  simp [owns]

/-- A step makes nothing that was due before the call's own. -/
theorem owns_of_due (hx : x.Orderly) {q : Due} (hq : q ∈ x.dues)
    (hown : (course.extend k h x mover x').owns k h q.1 = true) : course.owns k h q.1 = true := by
  obtain ⟨source, o'⟩ := q
  cases source with
  | call k' h' =>
    obtain ⟨hgoing, hk⟩ := owns_call_iff.mp hown
    exact owns_call_iff.mpr ⟨(going_iff.mp hgoing).1, hk⟩
  | request id =>
    rcases mem_requests.mp (owns_request_iff.mp hown) with hid | ⟨-, -, rfl⟩
    · exact owns_request_iff.mpr hid
    · exact absurd (Exchange.request_made_of_due hx hq) (Nat.lt_irrefl _)
  | worker j =>
    rcases mem_workers.mp (owns_worker_iff.mp hown) with hj | ⟨-, -, rfl⟩
    · exact owns_worker_iff.mpr hj
    · exact absurd (Exchange.worker_made_of_due hq) (Nat.lt_irrefl _)

theorem owed_extend_le (hx : x.Orderly) {d : Multiset Due} (hd : ∀ q ∈ d, q ∈ x.dues) :
    (course.extend k h x mover x').owed k h d ≤ course.owed k h d :=
  owed_le_of_owns fun q hq => owns_of_due hx (hd q hq)

theorem given_of_none (hnone : x.handed mover x' = none) :
    (course.extend k h x mover x').given = course.given := by
  simp [extend, hnone]

/-- A step that only drops some of what is due. -/
theorem Once.of_le (honce : course.Once k h o x) (hx : x.Orderly) (hle : x'.dues ≤ x.dues)
    (hnone : x.handed mover x' = none) : (course.extend k h x mover x').Once k h o x' := by
  refine ⟨?_, ?_, ?_⟩
  · have hdrop := owed_le_of_le (course.extend k h x mover x') k h hle
    have howns : (course.extend k h x mover x').owed k h x.dues ≤ course.owed k h x.dues :=
      owed_extend_le hx fun q hq => hq
    have := honce.once
    rw [given_of_none hnone]
    omega
  · intro q hq hown
    have hq := Multiset.mem_of_le hle hq
    exact honce.due_own q hq (owns_of_due hx hq hown)
  · rw [given_of_none hnone]
    exact honce.given_own

/-- A step that passes an order on: what comes of it is the call's own only if the order was. -/
theorem Once.of_passed (honce : course.Once k h o x) (hx : x.Orderly) {q q' : Due}
    {e : Multiset Due} (hdues : x.dues = q ::ₘ e) (hdues' : x'.dues ≤ q' ::ₘ e)
    (hnone : x.handed mover x' = none)
    (hq' : (course.extend k h x mover x').owns k h q'.1 = true →
      course.owns k h q.1 = true ∧ q'.2 = o) :
    (course.extend k h x mover x').Once k h o x' := by
  have howns : ∀ q ∈ e, (course.extend k h x mover x').owns k h q.1 = true →
      course.owns k h q.1 = true := by
    intro q₁ hq₁ hown
    exact owns_of_due hx (hdues ▸ Multiset.mem_cons_of_mem hq₁) hown
  refine ⟨?_, ?_, ?_⟩
  · have hdrop := owed_le_of_le (course.extend k h x mover x') k h hdues'
    have hrest := owed_le_of_owns howns
    have hone := honce.once
    rw [hdues] at hone
    rw [given_of_none hnone]
    by_cases hown : (course.extend k h x mover x').owns k h q'.1 = true
    · rw [owed_cons_of_owns hown] at hdrop
      rw [owed_cons_of_owns (hq' hown).1] at hone
      omega
    · rw [owed_cons_of_not_owns hown] at hdrop
      have := owed_le_of_le course k h (Multiset.le_cons_self e q)
      omega
  · intro q₁ hq₁ hown
    rcases Multiset.mem_cons.mp (Multiset.mem_of_le hdues' hq₁) with rfl | hq₁
    · exact (hq' hown).2
    · exact honce.due_own q₁ (hdues ▸ Multiset.mem_cons_of_mem hq₁) (howns q₁ hq₁ hown)
  · rw [given_of_none hnone]
    exact honce.given_own

/-- A step that begins the execution of an order that is not the call's own. -/
theorem Once.of_begun (honce : course.Once k h o x) (hx : x.Orderly) {q' : Due}
    (hdues' : x'.dues = q' ::ₘ x.dues) (hnone : x.handed mover x' = none)
    (hq' : ¬(course.extend k h x mover x').owns k h q'.1 = true) :
    (course.extend k h x mover x').Once k h o x' := by
  refine ⟨?_, ?_, ?_⟩
  · have howns : (course.extend k h x mover x').owed k h x.dues ≤ course.owed k h x.dues :=
      owed_extend_le hx fun q hq => hq
    have := honce.once
    rw [given_of_none hnone, hdues', owed_cons_of_not_owns hq']
    omega
  · intro q hq hown
    rw [hdues'] at hq
    rcases Multiset.mem_cons.mp hq with rfl | hq
    · exact absurd hown hq'
    · exact honce.due_own q hq (owns_of_due hx hq hown)
  · rw [given_of_none hnone]
    exact honce.given_own

/-- A step that hands an order over, which counts for the call if it is the call's own. -/
theorem Once.of_handed (honce : course.Once k h o x) (hx : x.Orderly) {q : Due}
    (hdues : x.dues = q ::ₘ x'.dues) (hq : x.handed mover x' = some q) :
    (course.extend k h x mover x').Once k h o x' := by
  have hmem : ∀ q' ∈ x'.dues, q' ∈ x.dues := fun q' hq' => hdues ▸ Multiset.mem_cons_of_mem hq'
  have hrest : (course.extend k h x mover x').owed k h x'.dues ≤ course.owed k h x'.dues :=
    owed_extend_le hx hmem
  have hone := honce.once
  rw [hdues] at hone
  have hdue : ∀ q' ∈ x'.dues, (course.extend k h x mover x').owns k h q'.1 = true → q'.2 = o :=
    fun q' hq' hown => honce.due_own q' (hmem q' hq') (owns_of_due hx (hmem q' hq') hown)
  by_cases hown : course.owns k h q.1 = true
  · have hgiven : (course.extend k h x mover x').given = course.given ++ [q.2] := by
      simp [extend, hq, hown]
    rw [owed_cons_of_owns hown] at hone
    refine ⟨?_, hdue, ?_⟩
    · rw [hgiven, List.length_append, List.length_singleton]
      omega
    · rw [hgiven]
      intro o' ho'
      rcases List.mem_append.mp ho' with ho' | ho'
      · exact honce.given_own o' ho'
      · rw [List.mem_singleton.mp ho']
        exact honce.due_own q (hdues ▸ Multiset.mem_cons_self _ _) hown
  · have hgiven : (course.extend k h x mover x').given = course.given := by
      simp [extend, hq, hown]
    rw [owed_cons_of_not_owns hown] at hone
    exact ⟨by rw [hgiven]; omega, hdue, by rw [hgiven]; exact honce.given_own⟩

/-- The execution at the top of a thread that moves is the call itself, or none of its own. -/
theorem Named.top_call (hnamed : course.Named k h o x) {k₁ : Nat} {t : Thread} {o₁ : Order}
    {phase : ExecPhase} {rest : List Activation} (ht : x.threads[k₁]? = some t)
    (hs : t.stack = .exec o₁ phase :: rest) :
    x.callOf k₁ rest.length = some (o₁, phase) ∧
      (course.own k h x (some k₁) = true → course.owns k h (.call k₁ rest.length) = true) ∧
      (course.owns k h (.call k₁ rest.length) = true → o₁ = o) := by
  have hcall : x.callOf k₁ rest.length = some (o₁, phase) := by
    rw [Exchange.callOf_of_thread ht, hs, callAt_exec]
  refine ⟨hcall, ?_, ?_⟩
  · intro hown
    obtain ⟨hgoing, hk, hheight⟩ := own_iff.mp hown
    cases hk
    rw [Exchange.height_of_thread ht, hs, List.length_cons] at hheight
    exact owns_call_iff.mpr ⟨hgoing, rfl, by omega⟩
  · intro hown
    obtain ⟨hgoing, rfl, rfl⟩ := owns_call_iff.mp hown
    obtain ⟨phase', hcall', -⟩ := hnamed.standing hgoing
    rw [hcall] at hcall'
    cases hcall'
    rfl

theorem Once.extend (honce : course.Once k h o x) (hnamed : course.Named k h o x)
    (hx : x.Orderly) (hnext : x.Next mover x') :
    (course.extend k h x mover x').Once k h o x' := by
  have hclient : mover = none → (course.extend k h x mover x').Once k h o x' := by
    rintro rfl
    rcases hnext.dues_of_client hx.sound with hle | ⟨o₁, hdues'⟩
    · exact honce.of_le hx hle rfl
    · refine honce.of_begun hx hdues' rfl fun hown => ?_
      obtain ⟨hgoing, rfl, rfl⟩ := owns_call_iff.mp hown
      obtain ⟨phase, hcall, -⟩ := hnamed.standing (going_iff.mp hgoing).1
      obtain ⟨t, ht, -⟩ := Exchange.exists_of_callOf hcall
      exact Nat.lt_irrefl _ (List.getElem?_eq_some_iff.mp ht).1
  cases hnext with
  | @move k₁ t t' x₁ ht hfree htraffic =>
    have hhanded := Exchange.handed_of_move ht htraffic
    cases Exchange.dealt_of_move hx.sound ht htraffic with
    | kept hnone hle => exact honce.of_le hx hle (hhanded.trans hnone)
    | handed q hq hdues => exact honce.of_handed hx hdues (hhanded.trans hq)
    | sent o₁ phase id rest e hs hnone hid hdues hdues' =>
      obtain ⟨hcall, hmine, horder⟩ := hnamed.top_call ht hs
      refine honce.of_passed hx hdues hdues' (hhanded.trans hnone) fun hown => ?_
      have howns : course.owns k h (.call k₁ rest.length) = true := by
        rcases mem_requests.mp (owns_request_iff.mp hown) with hmem | ⟨hown, -, -⟩
        · rcases hid with ⟨rfl, -⟩ | hid
          · exact absurd (hnamed.requests_made _ hmem) (Nat.lt_irrefl _)
          · by_contra hforeign
            rw [owns_call_iff] at hforeign
            exact hnamed.foreign _ _ _ _ hcall hforeign id hid hmem
        · exact hmine hown
      exact ⟨howns, horder howns⟩
    | reclaimed o₁ id r rest e hs hnone hdues hdues' =>
      obtain ⟨hcall, -, horder⟩ := hnamed.top_call ht hs
      refine honce.of_passed hx hdues (le_of_eq hdues') (hhanded.trans hnone) fun hown => ?_
      obtain ⟨hgoing, rfl, rfl⟩ := owns_call_iff.mp hown
      have hgoing := (going_iff.mp hgoing).1
      obtain ⟨phase, hcall', hrequest, -⟩ := hnamed.standing hgoing
      rw [hcall] at hcall'
      cases hcall'
      exact ⟨owns_request_iff.mpr (hrequest id rfl),
        horder (owns_call_iff.mpr ⟨hgoing, rfl, rfl⟩)⟩
    | spawned o₁ handle rest e hs hnone hthreads hdues hdues' =>
      obtain ⟨-, hmine, horder⟩ := hnamed.top_call ht hs
      refine honce.of_passed hx hdues (le_of_eq hdues') (hhanded.trans hnone) fun hown => ?_
      rcases mem_workers.mp (owns_worker_iff.mp hown) with hmem | ⟨hown, -, -⟩
      · exact absurd (hnamed.workers_made _ hmem) (Nat.lt_irrefl _)
      · exact ⟨hmine hown, horder (hmine hown)⟩
    | begun o₁ a rest height hs ha hnone hheight hdues' =>
      refine honce.of_begun hx hdues' (hhanded.trans hnone) fun hown => ?_
      obtain ⟨hgoing, rfl, rfl⟩ := owns_call_iff.mp hown
      obtain ⟨phase, hcall, -⟩ := hnamed.standing (going_iff.mp hgoing).1
      rw [Exchange.callOf_of_thread ht, hs] at hcall
      have hnone : callAt height (a :: rest) = none :=
        callAt_cons_of_le (ne_exec_of_plain ha) hheight
      rw [hnone] at hcall
      cases hcall
  | _ => exact hclient rfl

end Extend

end Course

end ScriptHost.Service
