import ScriptHost.Proofs.AtMostOnce

/-!
Calls that wait for a request. Once a call has passed its order on in a request, all that
is due on its behalf is due with that request, until the order was handed to the engine;
and from then on the cell of the request is not dropped any more, since a cell is dropped
only where its order is still due.
-/

namespace ScriptHost.Service

theorem callAt_of_due {k h : Nat} {o : Order} {s : List Activation}
    (hmem : (Source.call k h, o) ∈ stackDues k s) :
    ∃ o' phase, callAt h s = some (o', phase) ∧ (phase.owns = true ∨ phase = .inline) := by
  induction s with
  | nil => exact absurd hmem (Multiset.notMem_zero _)
  | cons a rest ih =>
    rw [stackDues_cons, Multiset.mem_add] at hmem
    rcases hmem with hmem | hmem
    · have hdue : a.due? k rest = some (.call k h, o) := by simpa using hmem
      unfold Activation.due? at hdue
      split at hdue
      · next o' phase =>
        split at hdue <;> cases hdue
        next howns => exact ⟨_, _, callAt_exec, Or.inl howns⟩
      · cases hdue
      · cases hdue
      · obtain ⟨asker, hasker, heq⟩ := Option.map_eq_some_iff.mp hdue
        cases heq
        unfold asker? at hasker
        split at hasker <;> cases hasker
        exact ⟨_, _, (callAt_cons_of_lt (by simp)).trans callAt_exec, Or.inr rfl⟩
      · cases hdue
    · obtain ⟨o', phase, hcall, hphase⟩ := ih hmem
      exact ⟨o', phase, (callAt_cons_of_lt (Exchange.lt_of_callAt hcall)).trans hcall, hphase⟩

theorem due_of_callAt {k h : Nat} {o : Order} {phase : ExecPhase} {s : List Activation}
    (hcall : callAt h s = some (o, phase)) (howns : phase.owns = true) :
    (Source.call k h, o) ∈ stackDues k s := by
  induction s with
  | nil => cases hcall
  | cons a rest ih =>
    rw [callAt] at hcall
    split at hcall
    · next hh =>
      subst hh
      cases a with
      | exec o' phase' =>
        cases hcall
        rw [stackDues_of_owns howns]
        exact Multiset.mem_cons_self _ _
      | _ => cases hcall
    · exact Multiset.mem_of_le stackDues_le_cons (ih hcall)

namespace Exchange

variable {x x' : Exchange} {k h : Nat} {o : Order}

theorem callOf_of_due (hmem : (Source.call k h, o) ∈ x.dues) :
    ∃ o' phase, x.callOf k h = some (o', phase) ∧ (phase.owns = true ∨ phase = .inline) := by
  rw [dues, Multiset.mem_add] at hmem
  rcases hmem with hmem | hmem
  · obtain ⟨r, hr, -⟩ := exists_request_of_queued hmem
    cases hr
  · obtain ⟨j, t, ht, hmem⟩ := mem_total hmem
    obtain ⟨rfl, -⟩ := call_of_due hmem
    rw [callOf_of_thread ht]
    exact callAt_of_due hmem

theorem mem_dues_of_stack {t : Thread} {q : Due} (ht : x.threads[k]? = some t)
    (hmem : q ∈ stackDues k t.stack) : q ∈ x.dues := by
  obtain ⟨others, hbefore, -⟩ := exists_others (f := fun k t => stackDues k t.stack) ht
  rw [dues, hbefore]
  exact Multiset.mem_add.mpr (Or.inr (Multiset.mem_add.mpr (Or.inl hmem)))

theorem mem_dues_of_queued {q : Due} (hmem : q ∈ x.queuedDues) : q ∈ x.dues :=
  Multiset.mem_add.mpr (Or.inl hmem)

theorem due_of_callOf {phase : ExecPhase} (hcall : x.callOf k h = some (o, phase))
    (howns : phase.owns = true) : (Source.call k h, o) ∈ x.dues := by
  obtain ⟨t, ht, hcall⟩ := exists_of_callOf hcall
  exact mem_dues_of_stack ht (due_of_callAt hcall howns)

theorem queued_of_parked {id : Nat} {r : Request} (hparked : x.parked = some (id, r)) :
    requestDue r ∈ x.queuedDues := by
  rw [queuedDues, hparked]
  exact Multiset.mem_add.mpr (Or.inr (List.mem_singleton_self _))

theorem queued_of_mem {l : MessageLoop} {r : Request} (hl : l ∈ x.loops) (hr : r ∈ l.requests) :
    requestDue r ∈ x.queuedDues := by
  obtain ⟨inner, outer, hloops⟩ := List.append_of_mem hl
  have hmem : requestDue r ∈ (l.requests.map requestDue : Multiset Due) :=
    Multiset.mem_coe.mpr (List.mem_map_of_mem hr)
  simp only [queuedDues, hloops, List.map_append, List.map_cons, List.sum_append, List.sum_cons,
    Multiset.mem_add]
  exact Or.inl (Or.inr (Or.inl hmem))

end Exchange

section Dropped

variable {x x' : Exchange} {c c' : Control} {s s' : List Activation} {cells : List Cell}
  {i id : Nat}

theorem eq_of_abandoned (hcell : cells[id]? ≠ some .dropped)
    (hcell' : (cells.modify i .abandon)[id]? = some .dropped) : i = id := by
  by_contra hi
  rw [List.getElem?_modify_ne _ _ hi] at hcell'
  exact hcell hcell'

theorem not_dropped_of_made (hcell : cells[id]? ≠ some .dropped) :
    (cells ++ [Cell.waiting])[id]? ≠ some .dropped := by
  intro hcell'
  by_cases hid : id < cells.length
  · rw [List.getElem?_append_left hid] at hcell'
    exact hcell hcell'
  · rw [List.getElem?_append_right (Nat.le_of_not_lt hid)] at hcell'
    simpa using List.mem_of_getElem? hcell'

theorem not_dropped_of_delivered {e : Ending} (hcell : cells[id]? ≠ some .dropped) :
    (cells.modify i (.deliver e))[id]? ≠ some .dropped := by
  intro hcell'
  rw [List.getElem?_modify] at hcell'
  obtain ⟨c, hc, heq⟩ := Option.map_eq_some_iff.mp hcell'
  by_cases hi : i = id
  · rw [if_pos hi] at heq
    cases c with
    | waiting | replied => cases heq
    | dropped => exact hcell hc
  · rw [if_neg hi] at heq
    exact hcell (hc.trans (congrArg some heq))

/-- A move that drops a cell hands nothing over, and the order of the cell's request was due
with the request or with the execution that made it. -/
theorem Traffic.due_of_dropped (h : Traffic x c s x' c' s') (hx : x.Sound) (k : Nat)
    (hcell : x.cells[id]? ≠ some .dropped) (hcell' : x'.cells[id]? = some .dropped) :
    engaged s' ≤ engaged s ∧
      ((∃ o, (Source.request id, o) ∈ x.queuedDues + stackDues k s) ∨
        (∃ o phase rest, s = .exec o phase :: rest ∧ phase.owns = true ∧
          phase.request? = some id) ∨ x.cells.length ≤ id) := by
  cases h with
  | posted | acquired => exact absurd hcell' (not_dropped_of_made hcell)
  | returned | caught => exact absurd hcell' (not_dropped_of_delivered hcell)
  | turnedAway o rest =>
    obtain rfl := eq_of_abandoned (not_dropped_of_made hcell) hcell'
    exact ⟨engaged_le_cons, Or.inr (Or.inr (le_refl _))⟩
  | gaveUp o ticket id' rest =>
    obtain rfl := eq_of_abandoned hcell hcell'
    exact ⟨engaged_le_cons, Or.inr (Or.inl ⟨o, _, _, rfl, rfl, rfl⟩)⟩
  | withdrawn o id' r rest hparked =>
    obtain rfl := eq_of_abandoned hcell hcell'
    obtain rfl := hx.parked_named _ _ hparked
    refine ⟨engaged_le_cons, Or.inl ⟨.ofRequest r, Multiset.mem_add.mpr (Or.inl ?_)⟩⟩
    exact Exchange.queued_of_parked hparked
  | reclaimed o id' r above rest hparked habove =>
    obtain rfl := eq_of_abandoned hcell hcell'
    obtain rfl := hx.parked_named _ _ hparked
    refine ⟨?_, Or.inl ⟨.ofRequest r, Multiset.mem_add.mpr (Or.inl ?_)⟩⟩
    · rw [engaged_append habove]
      exact le_refl _
    · exact Exchange.queued_of_parked hparked
  | failedRequest r rest =>
    obtain rfl := eq_of_abandoned hcell hcell'
    refine ⟨engaged_le_cons, Or.inl ⟨.ofRequest r, Multiset.mem_add.mpr (Or.inr ?_)⟩⟩
    rw [stackDues_of_some (q := requestDue r) rfl]
    exact Multiset.mem_cons_self _ _
  | skipped l r requests phase phase' rest hl hr =>
    obtain rfl := eq_of_abandoned hcell hcell'
    refine ⟨le_refl _, Or.inl ⟨.ofRequest r, Multiset.mem_add.mpr (Or.inl ?_)⟩⟩
    refine Exchange.queued_of_mem (Exchange.mem_of_findLoop hl) ?_
    rw [hr]
    exact List.mem_cons_self
  | _ => exact absurd hcell' hcell

theorem Exchange.Next.due_of_dropped {mover : Option Nat} (h : x.Next mover x') (hx : x.Sound)
    (hcell : x.cells[id]? ≠ some .dropped) (hcell' : x'.cells[id]? = some .dropped) :
    x.handed mover x' = none ∧
      ((∃ o, (Source.request id, o) ∈ x.dues) ∨
        (∃ k h o phase, x.callOf k h = some (o, phase) ∧ phase.owns = true ∧
          phase.request? = some id) ∨ x.cells.length ≤ id) := by
  cases h with
  | @move k t t' x₁ ht hfree htraffic =>
    obtain ⟨hengaged, hdue⟩ := htraffic.due_of_dropped hx k hcell hcell'
    refine ⟨(handed_of_move ht htraffic).trans (handedBy_of_le hengaged), ?_⟩
    rcases hdue with ⟨o, hmem⟩ | ⟨o, phase, rest, hs, hphase⟩ | hlength
    · refine Or.inl ⟨o, ?_⟩
      rcases Multiset.mem_add.mp hmem with hmem | hmem
      · exact mem_dues_of_queued hmem
      · exact mem_dues_of_stack ht hmem
    · refine Or.inr (Or.inl ⟨k, rest.length, o, phase, ?_, hphase⟩)
      rw [callOf_of_thread ht, hs, callAt_exec]
    · exact Or.inr (Or.inr hlength)
  | @leftLine k t o ticket id' ht hs =>
    obtain rfl := eq_of_abandoned hcell hcell'
    refine ⟨rfl, Or.inr (Or.inl ⟨k, 0, o, .queued ticket id', ?_, rfl, rfl⟩)⟩
    rw [callOf_of_thread ht, hs]
    rfl
  | _ => exact absurd hcell' hcell

/-- What is handed over in a step was due before it. -/
theorem Exchange.Next.mem_of_handed {mover : Option Nat} (h : x.Next mover x') (hx : x.Sound)
    {q : Due} (hq : x.handed mover x' = some q) : q ∈ x.dues := by
  cases h with
  | @move k t t' x₁ ht hfree htraffic =>
    rw [handed_of_move ht htraffic] at hq
    exact (dealt_of_move hx ht htraffic).mem_of_handed hq
  | _ => cases hq

end Dropped

/-- An execution that has come to wait for a request did so before, or had its order in hand.
Nothing is handed over on the way. -/
theorem Traffic.named_before {x x' : Exchange} {c c' : Control} {s' rest : List Activation}
    {o o' : Order} {phase phase' : ExecPhase} {id : Nat}
    (h : Traffic x c (.exec o phase :: rest) x' c' s')
    (hcall : callAt rest.length s' = some (o', phase')) (howns : phase'.owns = false)
    (hid : phase'.request? = some id) :
    engaged s' ≤ engaged (.exec o phase :: rest) ∧ x'.threads.length = x.threads.length ∧
      (phase.request? = some id ∧ x'.cells.length = x.cells.length ∨
        phase.owns = true ∧ phase.request? = none ∧ id = x.cells.length ∧
          x'.cells.length = x.cells.length + 1) := by
  generalize hs : Activation.exec o phase :: rest = s at h
  have hstill : Still s s' → engaged s' ≤ engaged s ∧ phase.request? = some id := by
    intro hstill
    refine ⟨hstill.engaged_le, ?_⟩
    cases hstill with
    | exec o₁ phase₁ phase₂ above rest₁ habove hphase howns' hrequest =>
      cases hs
      rw [callAt_append_of_lt (by simp), callAt_exec] at hcall
      cases hcall
      exact hrequest.symm.trans hid
    | ended a rest₁ hrequest hentering hexec =>
      cases hs
      exact absurd rfl (hexec o phase)
    | plain a top rest₁ ha =>
      cases hs
      cases ha
    | loop | entering => cases hs
  have hended : s' = rest → False := by
    rintro rfl
    rw [callAt_of_le (le_refl _)] at hcall
    cases hcall
  have hother : ∀ (above : List Activation) {phase₂ : ExecPhase} {o₂ : Order},
      s' = above ++ .exec o₂ phase₂ :: rest → phase₂.owns = true ∨ phase₂.request? = none →
      False := by
    rintro above phase₂ o₂ rfl hphase
    rw [callAt_append_of_lt (by simp), callAt_exec] at hcall
    cases hcall
    rcases hphase with hphase | hphase
    · rw [howns] at hphase
      cases hphase
    · rw [hid] at hphase
      cases hphase
  cases h with
  | quiet h => exact ⟨(hstill h).1, rfl, Or.inl ⟨(hstill h).2, rfl⟩⟩
  | signalled l signal hl hsignal h => exact ⟨(hstill h).1, rfl, Or.inl ⟨(hstill h).2, rfl⟩⟩
  | spawnedReader handle read h hreader =>
    obtain ⟨token, phase₁, rest₁, hreader⟩ := hreader
    cases hs.trans hreader
  | posted o₁ l rest₁ hl =>
    cases hs
    rw [callAt_exec] at hcall
    cases hcall
    cases hid
    exact ⟨le_refl _, rfl, Or.inr ⟨rfl, rfl, rfl, by simp [Exchange.updateLoop, Exchange.newCell]⟩⟩
  | parked o₁ id₁ rest₁ =>
    cases hs
    rw [callAt_exec] at hcall
    cases hcall
    exact ⟨le_refl _, rfl, Or.inl ⟨hid, rfl⟩⟩
  | spawned o₁ handle rest₁ =>
    cases hs
    exact (hother [] rfl (Or.inr rfl)).elim
  | acquired o₁ phase₁ rest₁ howns₁ hrequest =>
    cases hs
    exact (hother [] rfl (Or.inl howns₁)).elim
  | joined o₁ worker r above rest₁ =>
    cases hs
    exact (hother _ rfl (Or.inr rfl)).elim
  | inlined o₁ above rest₁ =>
    cases hs
    exact (hother _ rfl (Or.inr rfl)).elim
  | reclaimed o₁ id₁ r above rest₁ =>
    cases hs
    exact (hother _ rfl (Or.inl rfl)).elim
  | answered | failed | turnedAway | gaveUp | withdrawn =>
    cases hs
    exact (hended rfl).elim
  | reentered o₁ a top rest₁ ha | pickedUp id₁ r a top rest₁ hparked ha
  | opened l phase₁ a top rest₁ hid₁ hrequests hsignal hpumps hparting ha =>
    cases hs
    cases ha
  | _ => cases hs

namespace Course

variable {course : Course} {k h : Nat} {o : Order} {x x' : Exchange} {mover : Option Nat}

/-- One order at most is due on behalf of a call. -/
theorem Once.due_unique (honce : course.Once k h o x) {q q' : Due} (hq : q ∈ x.dues)
    (hown : course.owns k h q.1 = true) (hq' : q' ∈ x.dues) (hown' : course.owns k h q'.1 = true) :
    q' = q := by
  obtain ⟨others, hdues⟩ := Multiset.exists_cons_of_mem hq
  rw [hdues] at hq'
  refine (Multiset.mem_cons.mp hq').resolve_right fun hmem => ?_
  have hpos : 0 < course.owed k h others := Multiset.countP_pos.mpr ⟨q', hmem, hown'⟩
  have hone := honce.once
  rw [hdues, owed_cons_of_owns hown] at hone
  omega

/-- Nothing was handed over for a call as long as something is due on its behalf. -/
theorem Once.given_eq_nil (honce : course.Once k h o x) {q : Due} (hq : q ∈ x.dues)
    (hown : course.owns k h q.1 = true) : course.given = [] := by
  have hpos : 0 < course.owed k h x.dues := Multiset.countP_pos.mpr ⟨q, hq, hown⟩
  have hone := honce.once
  exact List.length_eq_zero_iff.mp (by omega)

/-- A step that is not the call's own leaves nothing due on its behalf that was not so before. -/
theorem due_before (hnamed : course.Named k h o x) (hx : x.Orderly) (hnext : x.Next mover x')
    (hforeign : ¬course.own k h x mover = true) {q : Due} (hq : q ∈ x'.dues)
    (hown : (course.extend k h x mover x').owns k h q.1 = true) :
    q ∈ x.dues ∧ course.owns k h q.1 = true := by
  have hstays : q ∈ x.dues → q ∈ x.dues ∧ course.owns k h q.1 = true :=
    fun hq => ⟨hq, owns_of_due hx hq hown⟩
  have hclient : mover = none → q ∈ x.dues ∧ course.owns k h q.1 = true := by
    rintro rfl
    rcases hnext.dues_of_client hx.sound with hle | ⟨o₁, hdues'⟩
    · exact hstays (Multiset.mem_of_le hle hq)
    · rw [hdues'] at hq
      rcases Multiset.mem_cons.mp hq with rfl | hq
      · obtain ⟨hgoing, rfl, rfl⟩ := owns_call_iff.mp hown
        obtain ⟨phase, hcall, -⟩ := hnamed.standing (going_iff.mp hgoing).1
        obtain ⟨t, ht, -⟩ := Exchange.exists_of_callOf hcall
        exact absurd (List.getElem?_eq_some_iff.mp ht).1 (Nat.lt_irrefl _)
      · exact hstays hq
  cases hnext with
  | @move k₁ t t' x₁ ht hfree htraffic =>
    have htop : ∀ {o₁ : Order} {phase : ExecPhase} {rest : List Activation},
        t.stack = .exec o₁ phase :: rest → ¬(course.going = true ∧ k₁ = k ∧ rest.length = h) := by
      rintro o₁ phase rest hs ⟨hgoing, rfl, rfl⟩
      refine hforeign (own_iff.mpr ⟨hgoing, rfl, ?_⟩)
      rw [Exchange.height_of_thread ht, hs, List.length_cons]
    cases Exchange.dealt_of_move hx.sound ht htraffic with
    | kept hnone hle => exact hstays (Multiset.mem_of_le hle hq)
    | handed q' hq' hdues => exact hstays (hdues ▸ Multiset.mem_cons_of_mem hq)
    | sent o₁ phase id rest e hs hnone hid hdues hdues' =>
      rcases Multiset.mem_cons.mp (Multiset.mem_of_le hdues' hq) with rfl | hq
      · obtain ⟨hcall, -, -⟩ := hnamed.top_call ht hs
        rcases mem_requests.mp (owns_request_iff.mp hown) with hmem | ⟨hmine, -, -⟩
        · rcases hid with ⟨rfl, -⟩ | hid
          · exact absurd (hnamed.requests_made _ hmem) (Nat.lt_irrefl _)
          · exact absurd hmem (hnamed.foreign _ _ _ _ hcall (htop hs) id hid)
        · exact absurd hmine hforeign
      · exact hstays (hdues ▸ Multiset.mem_cons_of_mem hq)
    | reclaimed o₁ id r rest e hs hnone hdues hdues' =>
      rw [hdues'] at hq
      rcases Multiset.mem_cons.mp hq with rfl | hq
      · obtain ⟨hgoing, hk, hh⟩ := owns_call_iff.mp hown
        exact absurd ⟨(going_iff.mp hgoing).1, hk, hh⟩ (htop hs)
      · exact hstays (hdues ▸ Multiset.mem_cons_of_mem hq)
    | spawned o₁ handle rest e hs hnone hthreads hdues hdues' =>
      rw [hdues'] at hq
      rcases Multiset.mem_cons.mp hq with rfl | hq
      · rcases mem_workers.mp (owns_worker_iff.mp hown) with hmem | ⟨hmine, -, -⟩
        · exact absurd (hnamed.workers_made _ hmem) (Nat.lt_irrefl _)
        · exact absurd hmine hforeign
      · exact hstays (hdues ▸ Multiset.mem_cons_of_mem hq)
    | begun o₁ a rest height hs ha hnone hheight hdues' =>
      rw [hdues'] at hq
      rcases Multiset.mem_cons.mp hq with rfl | hq
      · obtain ⟨hgoing, rfl, rfl⟩ := owns_call_iff.mp hown
        obtain ⟨phase, hcall, -⟩ := hnamed.standing (going_iff.mp hgoing).1
        rw [Exchange.callOf_of_thread ht, hs,
          callAt_cons_of_le (ne_exec_of_plain ha) hheight] at hcall
        cases hcall
      · exact hstays hq
  | _ => exact hclient rfl

/-- What holds of a call that waits for a request: its order is due with the request only, and
once it was handed over, the cell of the request is not dropped. -/
def Waits (course : Course) (k h : Nat) (x : Exchange) : Prop :=
  ∀ o phase id, course.going = true → x.callOf k h = some (o, phase) → phase.owns = false →
    phase.request? = some id →
    (∀ q ∈ x.dues, course.owns k h q.1 = true → q.1 = .request id) ∧
      (course.given ≠ [] → x.cells[id]? ≠ some .dropped)

/-- The cell of a request is not dropped after the order of its call was handed over. -/
theorem Once.not_dropped (honce : course.Once k h o x) (hnamed : course.Named k h o x)
    (hx : x.Orderly) (hnext : x.Next mover x') (hgiven : course.given ≠ []) {id : Nat}
    (hid : id ∈ course.requests) (hcell : x.cells[id]? ≠ some .dropped) :
    x'.cells[id]? ≠ some .dropped := by
  intro hcell'
  rcases (hnext.due_of_dropped hx.sound hcell hcell').2 with ⟨o', hmem⟩ | ⟨k', h', o', phase, hcall,
    howns, hrequest⟩ | hlength
  · exact hgiven (honce.given_eq_nil hmem (owns_request_iff.mpr hid))
  · by_cases hmine : course.going = true ∧ k' = k ∧ h' = h
    · exact hgiven (honce.given_eq_nil (Exchange.due_of_callOf hcall howns)
        (owns_call_iff.mpr hmine))
    · exact hnamed.foreign _ _ _ _ hcall hmine id hrequest hid
  · exact absurd (hnamed.requests_made id hid) (Nat.not_lt.mpr hlength)

theorem exists_handed (hgiven : course.given = [])
    (hgiven' : (course.extend k h x mover x').given ≠ []) :
    ∃ q, x.handed mover x' = some q ∧ course.owns k h q.1 = true := by
  cases hq : x.handed mover x' with
  | none => exact absurd ((given_of_none hq).trans hgiven) hgiven'
  | some q =>
    refine ⟨q, rfl, ?_⟩
    by_contra hown
    simp [extend, hgiven, hq, hown] at hgiven'

/-- A step of the call itself after which it waits for a request. -/
theorem Waits.of_own (hwaits : course.Waits k h x) (honce : course.Once k h o x)
    (hnamed : course.Named k h o x) (hx : x.Orderly) {t t' : Thread} {x₁ : Exchange}
    {phase phase' : ExecPhase} {rest : List Activation} {o' : Order} {id : Nat}
    (hgoing : course.going = true) (ht : x.threads[k]? = some t)
    (hs : t.stack = .exec o phase :: rest) (hh : rest.length = h)
    (hfree : x.loopsHeld = true → ¬Routes t.control t.stack)
    (htraffic : Traffic x t.control t.stack x₁ t'.control t'.stack)
    (hcall' : (x₁.setThread k t').callOf k h = some (o', phase')) (howns : phase'.owns = false)
    (hid : phase'.request? = some id) :
    (∀ q ∈ (x₁.setThread k t').dues,
      (course.extend k h x (some k) (x₁.setThread k t')).owns k h q.1 = true →
      q.1 = .request id) ∧
      ((course.extend k h x (some k) (x₁.setThread k t')).given ≠ [] →
        (x₁.setThread k t').cells[id]? ≠ some .dropped) := by
  subst hh
  have hnext : x.Next (some k) (x₁.setThread k t') := .move ht hfree htraffic
  obtain ⟨hcall, -, -⟩ := hnamed.top_call ht hs
  have hcallAt := Exchange.callOf_of_thread (h := rest.length)
    (Exchange.thread_of_move ht htraffic)
  have hbefore := htraffic
  rw [hs] at hbefore
  obtain ⟨hengaged, hthreads, hroute⟩ :=
    hbefore.named_before (hcallAt.symm.trans hcall') howns hid
  rw [← hs] at hengaged
  have hnone : x.handed (some k) (x₁.setThread k t') = none :=
    (Exchange.handed_of_move ht htraffic).trans (Exchange.handedBy_of_le hengaged)
  have hmine : phase.owns = true → (Source.call k rest.length, o) ∈ x.dues ∧
      course.owns k rest.length (.call k rest.length) = true :=
    fun howns => ⟨Exchange.due_of_callOf hcall howns, owns_call_iff.mpr ⟨hgoing, rfl, rfl⟩⟩
  have hnamed_before : phase.owns = false → phase.request? = some id := by
    intro hphase
    rcases hroute with ⟨hrequest, -⟩ | ⟨howned, -⟩
    · exact hrequest
    · rw [hphase] at howned
      cases howned
  have hgone : ∀ o₁, (Source.call k rest.length, o₁) ∉ (x₁.setThread k t').dues := by
    intro o₁ hmem
    obtain ⟨o₂, phase₂, hcall₂, howned | rfl⟩ := Exchange.callOf_of_due hmem
    · cases hcall'.symm.trans hcall₂
      rw [howns] at howned
      cases howned
    · cases hcall'.symm.trans hcall₂
      cases hid
  refine ⟨?_, ?_⟩
  · rintro ⟨source, o₁⟩ hq hown
    have hstays : (source, o₁) ∈ x.dues → source = .request id := by
      intro hq₀
      have hown₀ := owns_of_due hx hq₀ hown
      cases hphase : phase.owns with
      | true =>
        obtain ⟨hdue, howned⟩ := hmine hphase
        cases honce.due_unique hdue howned hq₀ hown₀
        exact absurd hq (hgone _)
      | false =>
        exact (hwaits _ _ id hgoing hcall hphase (hnamed_before hphase)).1 _ hq₀ hown₀
    cases Exchange.dealt_of_move hx.sound ht htraffic with
    | kept _ hle => exact hstays (Multiset.mem_of_le hle hq)
    | handed q' hq' hdues => exact hstays (hdues ▸ Multiset.mem_cons_of_mem hq)
    | sent o₂ phase₂ id₂ rest₂ e hs₂ _ hid₂ hdues hdues' =>
      cases hs.symm.trans hs₂
      rcases Multiset.mem_cons.mp (Multiset.mem_of_le hdues' hq) with heq | hq
      · cases heq
        have hlength : (x₁.setThread k t').cells.length = x₁.cells.length := rfl
        rcases hroute with ⟨hrequest, hcells⟩ | ⟨-, hrequest, rfl, hcells⟩
        · rcases hid₂ with ⟨-, hmade⟩ | hid₂
          · omega
          · cases hrequest.symm.trans hid₂
            rfl
        · rcases hid₂ with ⟨rfl, -⟩ | hid₂
          · rfl
          · cases hrequest.symm.trans hid₂
      · exact hstays (hdues ▸ Multiset.mem_cons_of_mem hq)
    | reclaimed o₂ id₂ r rest₂ e hs₂ _ hdues hdues' =>
      cases hs.symm.trans hs₂
      rw [hdues'] at hq
      rcases Multiset.mem_cons.mp hq with heq | hq
      · cases heq
        exact absurd (hdues' ▸ Multiset.mem_cons_self _ _) (hgone o)
      · exact hstays (hdues ▸ Multiset.mem_cons_of_mem hq)
    | spawned o₂ handle rest₂ e hs₂ _ hspawned =>
      have hlength : (x₁.setThread k t').threads.length = x₁.threads.length :=
        List.length_set
      omega
    | begun o₂ a rest₂ height hs₂ ha =>
      cases hs.symm.trans hs₂
      cases ha
  · intro hgiven
    rw [given_of_none hnone] at hgiven
    have hphase : phase.owns = false := by
      by_contra hphase
      obtain ⟨hdue, howned⟩ := hmine (by simpa using hphase)
      exact hgiven (honce.given_eq_nil hdue howned)
    have hrequest := hnamed_before hphase
    obtain ⟨phase₁, hcall₁, hrequests, -⟩ := hnamed.standing hgoing
    cases hcall.symm.trans hcall₁
    exact honce.not_dropped hnamed hx hnext hgiven (hrequests id hrequest)
      ((hwaits _ _ id hgoing hcall hphase hrequest).2 hgiven)

theorem Waits.extend (hwaits : course.Waits k h x) (honce : course.Once k h o x)
    (hnamed : course.Named k h o x) (hx : x.Orderly) (hnext : x.Next mover x') :
    (course.extend k h x mover x').Waits k h x' := by
  intro o' phase' id hgoing' hcall' howns hid
  obtain ⟨hgoing, hheight⟩ := going_iff.mp hgoing'
  obtain ⟨phase, hcall, hrequest, -⟩ := hnamed.standing hgoing
  by_cases hown : course.own k h x mover = true
  · obtain ⟨-, rfl, htop⟩ := own_iff.mp hown
    cases hnext with
    | move ht hfree htraffic =>
      rw [Exchange.callOf_of_thread ht] at hcall
      rw [Exchange.height_of_thread ht] at htop
      obtain ⟨rest, hs, hh⟩ := stack_of_callAt hcall htop
      exact hwaits.of_own honce hnamed hx hgoing ht hs hh hfree htraffic hcall' howns hid
  · -- the call is where it was
    obtain ⟨phase₁, hcall₁, hphase⟩ := hnext.call_goes_on hcall hheight
    cases hcall'.symm.trans hcall₁
    rcases hphase with rfl | ⟨t, hk, -, hheight', -⟩
    · obtain ⟨hdues, hcell⟩ := hwaits _ _ id hgoing hcall howns hid
      refine ⟨?_, ?_⟩
      · intro q hq hown'
        obtain ⟨hq, hown'⟩ := due_before hnamed hx hnext hown hq hown'
        exact hdues q hq hown'
      · intro hgiven' hdropped'
        by_cases hdropped : x.cells[id]? = some .dropped
        · have hgiven : course.given = [] := by
            by_contra hgiven
            exact hcell hgiven hdropped
          obtain ⟨⟨source, o₁⟩, hhanded, howned⟩ := exists_handed hgiven hgiven'
          have hmem := hnext.mem_of_handed hx.sound hhanded
          obtain rfl := hdues _ hmem howned
          cases hdropped.symm.trans (Exchange.waiting_of_due hx hmem)
        · have hnone := (hnext.due_of_dropped hx.sound hdropped hdropped').1
          rw [given_of_none hnone] at hgiven'
          exact honce.not_dropped hnamed hx hnext hgiven' (hrequest id hid) hdropped hdropped'
    · exact absurd (own_iff.mpr ⟨hgoing, hk, hheight'⟩) hown

end Course

/-- What holds of the requests of a call along a run that goes on after it began. -/
theorem waits_of_run {later past : List Transition} {x : Transition} {w : World} {k : Nat}
    {t : Thread} {o : Order} {rest : List Activation} (hrun : Run (later ++ x :: past) w)
    (ht : x.after.threads[k]? = some t) (hs : t.stack = .exec o .checking :: rest) :
    (course k rest.length later).Waits k rest.length w.exchange := by
  induction later generalizing w with
  | nil =>
    cases hrun with
    | step =>
      intro o' phase id _ hcall _ hid
      cases hcall.symm.trans (callOf_of_begun ht hs)
      cases hid
  | cons y later ih =>
    cases hrun with
    | step hbefore hstep =>
      obtain ⟨hnamed, honce, -⟩ := course_of_run hbefore ht hs
      exact (ih hbefore).extend honce hnamed (orderly_of_run hbefore) (next_of_step hstep)

end ScriptHost.Service
