import ScriptHost.Proofs.OrderOwnership

/-!
Calls whose order was not handed over. As long as the engine was not given the order of a
call, whatever waits for a reply on the call's behalf waits for a frame to be pushed, or
gets an error: none of its requests and workers comes to a success, and so the call ends
with none.
-/

namespace ScriptHost.Service

/-- No success is on its way to the innermost activation. -/
def Control.Fails (c : Control) : Prop :=
  ∀ output, c ≠ .back (.reply (.ok output))

/-- In a stack of thread `k`, whatever waits for a reply on behalf of an owned source waits
directly below a frame that is being pushed; `ok` says whether it may be at the top. -/
def Silent (owned : Source → Prop) (k : Nat) : Prop → List Activation → Prop
  | _, [] => True
  | ok, a :: rest =>
    (∀ source, asker? k (a :: rest) = some source → owned source → ok) ∧
      Silent owned k (∃ frame o, a = .entering frame (.order o)) rest

def Activation.asks : Activation → Bool
  | .exec _ .inline | .request _ => true
  | _ => false

section Silent

variable {owned owned' : Source → Prop} {k : Nat} {ok ok' : Prop} {a : Activation}
  {new rest s s' : List Activation}

theorem asker_of_not_asks (h : a.asks = false) : asker? k (a :: rest) = none := by
  cases a with
  | exec o phase => cases phase <;> first | rfl | cases h
  | request id => cases h
  | _ => rfl

theorem asks_of_plain (h : a.plain) : a.asks = false := by
  cases a <;> first | rfl | cases h

theorem Silent.imp (h : Silent owned k ok s) (hok : ok → ok') : Silent owned k ok' s := by
  cases s with
  | nil => trivial
  | cons a rest => exact ⟨fun source hasker hown => hok (h.1 source hasker hown), h.2⟩

/-- If the top does not wait on behalf of an owned source, nothing need be known above it. -/
theorem Silent.of_unowned (h : Silent owned k ok s)
    (hunowned : ∀ source, asker? k s = some source → ¬owned source) : Silent owned k ok' s := by
  cases s with
  | nil => trivial
  | cons a rest =>
    exact ⟨fun source hasker hown => absurd hown (hunowned source hasker), h.2⟩

theorem Silent.tail (h : Silent owned k ok (a :: rest))
    (ha : ∀ frame o, a ≠ .entering frame (.order o)) : Silent owned k ok' rest := by
  refine h.2.imp ?_
  rintro ⟨frame, o, rfl⟩
  exact absurd rfl (ha frame o)

theorem Silent.cons (h : Silent owned k False rest) (ha : a.asks = false) :
    Silent owned k ok (a :: rest) := by
  refine ⟨?_, h.imp False.elim⟩
  intro source hasker
  cases (asker_of_not_asks ha).symm.trans hasker

theorem Silent.singleton (ha : a.asks = false) : Silent owned k ok [a] := by
  have hempty : Silent owned k False [] := trivial
  exact hempty.cons ha

theorem Silent.append (h : Silent owned k False rest) (hnew : new.all Activation.plain) :
    Silent owned k ok (new ++ rest) := by
  induction new generalizing ok with
  | nil => exact h.imp False.elim
  | cons a new ih =>
    simp only [List.all_cons, Bool.and_eq_true] at hnew
    exact (ih hnew.2).cons (asks_of_plain hnew.1)

/-- What is owned may change as long as nothing in the stack becomes owned. -/
theorem Silent.restrict (h : Silent owned k ok s)
    (hcall : ∀ h, owned' (.call k h) → owned (.call k h))
    (hrequest : ∀ id, owned' (.request id) → .request id ∈ s → owned (.request id)) :
    Silent owned' k ok s := by
  induction s generalizing ok with
  | nil => trivial
  | cons a rest ih =>
    refine ⟨?_, ih h.2 fun id hown hmem => hrequest id hown (List.mem_cons_of_mem a hmem)⟩
    intro source hasker hown
    refine h.1 source hasker ?_
    unfold asker? at hasker
    split at hasker
    · cases hasker
      exact hcall _ hown
    · next heq =>
      cases hasker
      refine hrequest _ hown ?_
      rw [heq]
      exact List.mem_cons_self
    · cases hasker

theorem Still.silent {c c' : Control} (h : Still s s') (hsilent : Silent owned k c.Fails s) :
    Silent owned k c'.Fails s' := by
  cases h with
  | plain a top rest ha htop =>
    refine (hsilent.tail ?_).append htop
    rintro frame o rfl
    cases ha
  | ended a rest hrequest hentering =>
    exact hsilent.tail fun frame o => hentering frame (.order o)
  | exec o phase phase' above rest habove hphase howns hrequest =>
    refine Silent.append ((hsilent.tail (by simp)).cons ?_) habove
    cases phase' with
    | inline =>
      rcases hphase with hphase | hphase
      · rw [← howns] at hphase
        cases hphase
      · rw [← hrequest] at hphase
        cases hphase
    | _ => rfl
  | loop id phase phase' rest => exact (hsilent.tail (by simp)).cons rfl
  | entering phase phase' work rest =>
    refine ⟨by simp [asker?], ?_⟩
    cases work with
    | request r => exact hsilent.tail (by simp)
    | order o => exact hsilent.2.imp fun _ => ⟨phase', o, rfl⟩

/-- The thread of a loop begins with an order for `asker`, which stands below. -/
theorem Begins.silent {o : Order} {above : List Activation} {c' : Control} {asker : Source}
    (h : Begins o above c') (hasker : asker? k (a :: rest) = some asker)
    (hrest : Silent owned k False rest)
    (hhanded : engaged (a :: rest) < engaged (above ++ a :: rest) → ¬owned asker) :
    Silent owned k c'.Fails (above ++ a :: rest) := by
  have hbelow : Silent owned k (∃ frame o, a = .entering frame (.order o)) rest :=
    hrest.imp False.elim
  cases h with
  | refused e => exact ⟨fun source _ _ => by simp [Control.Fails], hbelow⟩
  | entering => exact ⟨by simp [asker?], fun source _ _ => ⟨.pushing, o, rfl⟩, hbelow⟩
  | handed above loop control habove =>
    rw [List.append_assoc] at hhanded ⊢
    have hunowned : ¬owned asker := by
      apply hhanded
      rw [engaged_append habove]
      exact engaged_lt_inLoop
    have hasked : Silent owned k False (a :: rest) := by
      refine ⟨?_, hbelow⟩
      intro source hsource hown
      cases hasker.symm.trans hsource
      exact hunowned hown
    exact (hasked.cons rfl).append habove

theorem Traffic.silent {x x' : Exchange} {c c' : Control} (h : Traffic x c s x' c' s')
    (hsilent : Silent owned k c.Fails s)
    (hhanded : ∀ q, x.handedBy k s s' = some q → ¬owned q.1) : Silent owned k c'.Fails s' := by
  have hend : ∀ {a : Activation}, s = a :: s' → (∀ frame o, a ≠ .entering frame (.order o)) →
      Silent owned k c'.Fails s' := by
    rintro a rfl ha
    exact hsilent.tail ha
  have hplain : ∀ {a : Activation} {rest : List Activation}, s = a :: rest → a.plain →
      Silent owned k False rest := by
    rintro a rest rfl ha
    refine hsilent.tail ?_
    rintro frame o rfl
    cases ha
  cases h with
  | quiet h | spawnedReader handle read h | signalled l signal hl hsignal h =>
    exact h.silent hsilent
  | answered o phase r rest | failed o phase rest | turnedAway o rest | gaveUp o ticket id rest
  | withdrawn o id r rest hparked | failedRequest r rest | unstarted h o p rest
  | returned r id rest | caught p id rest => exact hend rfl (by simp)
  | failedOrder o e rest => exact hsilent.2.imp fun _ => by simp [Control.Fails]
  | lost phase work p rest => exact hsilent.2.imp fun _ => by simp [Control.Fails]
  | spawned o h rest | posted o l rest hl | parked o id rest | consumed l signal rest
  | skipped l r requests phase phase' rest | locked l signal rest =>
    exact (hsilent.tail (by simp)).cons rfl
  | acquired o phase rest howns hrequest =>
    refine (hsilent.tail (by simp)).cons ?_
    cases phase <;> first | rfl | cases hrequest
  | joined o worker r above rest habove | reclaimed o id r above rest hparked habove =>
    exact Silent.append ((hsilent.tail (by simp)).cons rfl) habove
  | reentered o a top rest ha htop | pickedUp id r a top rest hparked ha htop
  | opened l phase a top rest hid hrequests hsignal hpumps hparting ha htop =>
    exact ((hplain rfl ha).append htop).cons rfl
  | inlined o above rest h =>
    have hasker : asker? k (.exec o .inline :: rest) = some (.call k rest.length) := rfl
    refine h.silent hasker (hsilent.tail (by simp)) fun hlt => ?_
    have hlt : engaged (.exec o .routing :: rest) <
        engaged (above ++ .exec o .inline :: rest) := hlt
    exact hhanded (.call k rest.length, o) (Exchange.handedBy_of_lt hlt)
  | taken l r requests phase phase' above rest hl hr hcancelled hpumps hparting h =>
    have hasker : asker? k (.request r.id :: .loop l.id phase' :: rest) = some (.request r.id) :=
      rfl
    refine h.silent hasker ((hsilent.tail (by simp)).cons rfl) fun hlt => ?_
    have hlt : engaged (.loop l.id phase :: rest) <
        engaged (above ++ .request r.id :: .loop l.id phase' :: rest) := hlt
    refine hhanded (requestDue r) ?_
    rw [Exchange.handedBy_of_lt hlt, Exchange.inHand, hl]
    simp [hr]
  | enteredRequest frame h r above rest habove =>
    have hlt : engaged (.entering (.leasing frame) (.request r) :: rest) < engaged
        (above ++ .leased r.options :: .request r.id :: .pushed frame h .looking :: rest) := by
      rw [engaged_append habove]
      simp [engaged]
    have hunowned := hhanded (requestDue r) (Exchange.handedBy_of_lt hlt)
    have hrest : Silent owned k False (.pushed frame h .looking :: rest) :=
      (hsilent.tail (by simp)).cons rfl
    have hasked : Silent owned k False (.request r.id :: .pushed frame h .looking :: rest) := by
      refine ⟨?_, hrest.imp False.elim⟩
      rintro source ⟨rfl⟩ hown
      exact hunowned hown
    exact (hasked.cons rfl).append habove
  | enteredOrder frame h o above rest habove =>
    have hlt : engaged (.entering (.leasing frame) (.order o) :: rest) <
        engaged (above ++ .leased o.options :: .pushed frame h .looking :: rest) := by
      rw [engaged_append habove]
      simp [engaged]
    have hrest : Silent owned k False rest := by
      refine hsilent.2.of_unowned fun source hsource => ?_
      refine hhanded (source, o) ?_
      rw [Exchange.handedBy_of_lt hlt]
      simp [Exchange.inHand, Activation.due?, hsource]
    exact Silent.append ((hrest.cons rfl).cons rfl) habove
  | started h o above rest habove =>
    exact Silent.append (((hsilent.tail (by simp)).cons rfl).cons rfl) habove
  | closed l signal phase above rest hl hphase habove =>
    rcases habove with rfl | ⟨action, rfl⟩
    · exact hsilent.tail (by simp)
    · exact (hsilent.tail (by simp)).cons rfl

end Silent

/-- A worker that has not begun, or that ended without a success. -/
def Thread.Idle (t : Thread) : Prop :=
  (∃ handle o, t.stack = [.starting handle o]) ∨ t.stack = [] ∧ t.control.Fails

theorem Thread.Idle.reply_fails {t : Thread} (h : t.Idle) {r : Reply}
    (hr : t.result?.bind workerReply? = some r) (output : Output Value) : r ≠ .ok output := by
  rintro rfl
  rcases h with ⟨handle, o, hs⟩ | ⟨hs, hfails⟩
  · simp [Thread.result?, hs] at hr
  · rw [Thread.result?, hs] at hr
    cases hcontrol : t.control with
    | back outcome =>
      cases outcome with
      | reply r =>
        rw [hcontrol] at hr
        cases hr
        exact hfails output hcontrol
      | _ =>
        rw [hcontrol] at hr
        cases hr
    | unwind p =>
      rw [hcontrol] at hr
      cases hr
    | go | dropped =>
      rw [hcontrol] at hr
      cases hr

section Traffic

variable {h : Nat} {o : Order} {x x' : Exchange}

theorem stack_of_callAt {q : Order × ExecPhase} {s : List Activation} (hcall : callAt h s = some q)
    (hlength : s.length = h + 1) : ∃ rest, s = .exec q.1 q.2 :: rest ∧ rest.length = h := by
  cases s with
  | nil => cases hcall
  | cons a rest =>
    have hrest : rest.length = h := by simpa using hlength
    rw [callAt, if_pos hrest] at hcall
    cases a <;> cases hcall
    exact ⟨rest, rfl, hrest⟩

/-- A request of which an execution waits has a cell. -/
theorem request_made_of_mem (hx : x.Orderly) {j id : Nat} {t : Thread}
    (ht : x.threads[j]? = some t) (hmem : .request id ∈ t.stack) : id < x.cells.length := by
  have hcarried : 1 ≤ carried id t.stack := by
    obtain ⟨top, rest, hs⟩ := List.append_of_mem hmem
    rw [hs, carried_append, carried_cons]
    simp [Activation.carries]
    omega
  obtain ⟨others, hbefore, -⟩ := Exchange.exists_elsewhere ht
  have hplaces := hbefore id
  obtain ⟨hone, hwaiting⟩ := hx.unanswered id
  exact (List.getElem?_eq_some_iff.mp (hwaiting (by omega))).1

theorem not_still_starting {handle : Handle} {rest s' : List Activation} :
    ¬Still (.starting handle o :: rest) s' := by
  intro hstill
  cases hstill with
  | plain a top rest ha => cases ha
  | ended a rest hrequest hentering hexec hstarting => exact hstarting handle o rfl

/-- A worker that has not begun hands its order over or is unwound. -/
theorem Traffic.of_starting {x₁ : Exchange} {c c' : Control} {handle : Handle}
    {rest s' : List Activation} (h : Traffic x c (.starting handle o :: rest) x₁ c' s') (j : Nat) :
    s' = rest ∧ c'.Fails ∨ x.handedBy j (.starting handle o :: rest) s' = some (.worker j, o) := by
  cases h with
  | quiet h | spawnedReader handle read h | signalled l signal hl hsignal h =>
    exact absurd h not_still_starting
  | reentered o a top rest ha | pickedUp id r a top rest hparked ha
  | opened l phase a top rest hid hrequests hsignal hpumps hparting ha => cases ha
  | unstarted h o p rest => exact Or.inl ⟨rfl, by simp [Control.Fails]⟩
  | started h o above rest habove =>
    right
    rw [Exchange.handedBy_of_lt]
    · rfl
    · rw [engaged_append habove]
      simp [engaged]

theorem Traffic.ne_nil {x₁ : Exchange} {c c' : Control} {s s' : List Activation}
    (h : Traffic x c s x₁ c' s') : s ≠ [] := by
  rintro rfl
  cases h with
  | quiet h | spawnedReader handle read h | signalled l signal hl hsignal h => cases h

theorem idle_of_traffic {x₁ : Exchange} {t t' : Thread} (ht : t.Idle)
    (h : Traffic x t.control t.stack x₁ t'.control t'.stack) (j : Nat) :
    t'.Idle ∨ ∃ o, x.handedBy j t.stack t'.stack = some (.worker j, o) := by
  rcases ht with ⟨handle, o, hs⟩ | ⟨hs, -⟩
  · rw [hs] at h ⊢
    rcases h.of_starting j with hended | hhanded
    · exact Or.inl (Or.inr hended)
    · exact Or.inr ⟨o, hhanded⟩
  · exact absurd hs h.ne_nil

/-- What an execution starts is a worker for its order. -/
theorem new_of_exec {x₁ : Exchange} {c c' : Control} {o : Order} {phase : ExecPhase}
    {rest s' : List Activation} (h : Traffic x c (.exec o phase :: rest) x₁ c' s')
    (hlength : x.threads.length < x₁.threads.length) :
    ∃ handle, x₁.threads = x.threads ++ [{ stack := [.starting handle o] }] := by
  generalize hs : Activation.exec o phase :: rest = s at h
  cases h with
  | spawned o h rest =>
    cases hs
    exact ⟨h, rfl⟩
  | spawnedReader handle read h hreader =>
    obtain ⟨token, phase, rest, hreader⟩ := hreader
    cases hs.trans hreader
  | _ => exact absurd hlength (Nat.lt_irrefl _)

/-- The worker that an execution has just started. -/
theorem worker_of_exec {x₁ : Exchange} {k : Nat} {t t' : Thread} {o : Order} {phase : ExecPhase}
    {rest : List Activation} (ht : x.threads[k]? = some t) (hs : t.stack = .exec o phase :: rest)
    (h : Traffic x t.control t.stack x₁ t'.control t'.stack)
    (hlength : x.threads.length < (x₁.setThread k t').threads.length) :
    ∃ handle, (x₁.setThread k t').threads[x.threads.length]? =
      some { stack := [.starting handle o] } := by
  rw [hs] at h
  obtain ⟨handle, hnew⟩ := new_of_exec h (by simpa [Exchange.setThread] using hlength)
  have hk : k ≠ x.threads.length := Nat.ne_of_lt (List.getElem?_eq_some_iff.mp ht).1
  refine ⟨handle, ?_⟩
  rw [Exchange.setThread, List.getElem?_set_ne hk, hnew]
  simp

theorem Dealt.mem_of_handed {k : Nat} {s s' : List Activation} {d d' : Multiset Due} {q : Due}
    (h : Dealt x k s x' s' d d') (hq : x.handedBy k s s' = some q) : q ∈ d := by
  cases h with
  | handed q' hq' h =>
    cases hq.symm.trans hq'
    rw [h]
    exact Multiset.mem_cons_self _ _
  | kept hnone | sent o phase id rest e hs hnone | reclaimed o id r rest e hs hnone
  | spawned o handle rest e hs hnone | begun o a rest height hs ha hnone =>
    cases hnone.symm.trans hq

end Traffic

namespace Course

/-- Nothing that belongs to the call has come to a success or can come to one. -/
structure Unserved (course : Course) (k h : Nat) (x : Exchange) : Prop where
  cells : ∀ id ∈ course.requests, ∀ output, x.cells[id]? ≠ some (.replied (.ok output))
  workers : ∀ j ∈ course.workers, ∃ t, x.threads[j]? = some t ∧ t.Idle
  silent : ∀ j t, x.threads[j]? = some t →
    Silent (fun source => course.owns k h source = true) j t.control.Fails t.stack
  kept : course.going = true → ∀ o r, x.callOf k h = some (o, .finishing r) →
    ∀ output, r ≠ .ok output
  reply : ∀ output, course.reply ≠ some (.ok output)

section Extend

variable {course : Course} {k h : Nat} {o : Order} {x x' : Exchange} {mover : Option Nat}

/-- The call itself finds no success. -/
theorem Unserved.answer_fails (hunserved : course.Unserved k h x) (hnamed : course.Named k h o x)
    (hgoing : course.going = true) {t : Thread} {phase : ExecPhase} {rest : List Activation}
    (ht : x.threads[k]? = some t) (hs : t.stack = .exec o phase :: rest) (hh : rest.length = h)
    {r : Reply} (hr : Answers x t.control phase r) (output : Output Value) : r ≠ .ok output := by
  have hcall : x.callOf k h = some (o, phase) := by
    rw [Exchange.callOf_of_thread ht, hs, ← hh, callAt_exec]
  obtain ⟨phase', hcall', hrequest, hworker⟩ := hnamed.standing hgoing
  cases hcall.symm.trans hcall'
  cases hr with
  | request _ id _ hid hpoll =>
    rintro rfl
    refine hunserved.cells id (hrequest id hid) output ?_
    cases hcell : x.cells[id]? with
    | none =>
      rw [Exchange.cell, hcell] at hpoll
      cases hpoll
    | some cell =>
      rw [Exchange.cell, hcell] at hpoll
      cases cell <;> cases hpoll
      rfl
  | inline _ hcontrol =>
    have hsilent := hunserved.silent k t ht
    rw [hs] at hsilent
    have hfails := hsilent.1 (.call k rest.length) rfl (by simp [owns, hgoing, hh])
    rintro rfl
    exact hfails output hcontrol
  | worker j _ hresult =>
    obtain ⟨t', ht', hidle⟩ := hunserved.workers j (hworker j rfl)
    rw [ht'] at hresult
    exact hidle.reply_fails hresult output
  | kept => exact hunserved.kept hgoing o r hcall output

theorem Unserved.extend (hunserved : course.Unserved k h x) (hnamed : course.Named k h o x)
    (hx : x.Orderly) (hnext : x.Next mover x')
    (hgiven : (course.extend k h x mover x').given = []) :
    (course.extend k h x mover x').Unserved k h x' := by
  have hunowned : ∀ q, x.handed mover x' = some q → ¬course.owns k h q.1 = true := by
    intro q hq hown
    simp [Course.extend, hq, hown] at hgiven
  have hown : ∀ {t : Thread} {phase : ExecPhase} {o' : Order}, course.going = true →
      x.threads[k]? = some t → x.callOf k h = some (o', phase) → x.height k = h + 1 →
      ∃ rest, t.stack = .exec o phase :: rest ∧ rest.length = h := by
    intro t phase o' hgoing ht hcall hheight
    obtain ⟨phase', hcall', -⟩ := hnamed.standing hgoing
    cases hcall.symm.trans hcall'
    rw [Exchange.callOf_of_thread ht] at hcall
    rw [Exchange.height_of_thread ht] at hheight
    exact stack_of_callAt hcall hheight
  refine ⟨?_, ?_, ?_, ?_, ?_⟩
  · intro id hid output hcell'
    rcases hnext.cells_change with ⟨-, hunended⟩ | ⟨i, e, hending, hplace, hcells⟩
    · have hcell := hunended.replied hcell'
      rcases mem_requests.mp hid with hid | ⟨-, -, rfl⟩
      · exact hunserved.cells id hid output hcell
      · simp at hcell
    · have hid : id ∈ course.requests := by
        rcases mem_requests.mp hid with hid | ⟨-, hlt, -⟩
        · exact hid
        · simp [hcells] at hlt
      rw [hcells] at hcell'
      by_cases hi : i = id
      · subst hi
        obtain ⟨t, ht, hended⟩ := Option.bind_eq_some_iff.mp hending
        obtain ⟨j, -, ht⟩ := Option.bind_eq_some_iff.mp ht
        have hsilent := hunserved.silent j t ht
        obtain ⟨hone, hwaiting⟩ := hx.unanswered i
        rw [List.getElem?_modify_eq, hwaiting (by omega)] at hcell'
        unfold ending? at hended
        split at hended
        · next r hcontrol hs =>
          cases hended
          cases hcell'
          rw [hs] at hsilent
          exact hsilent.1 (.request i) rfl (by simpa [owns] using hid) output hcontrol
        · cases hended
          cases hcell'
        · cases hended
      · rw [List.getElem?_modify_ne _ _ hi] at hcell'
        exact hunserved.cells id hid output hcell'
  · intro j hj
    rcases mem_workers.mp hj with hold | ⟨hown', hlt, rfl⟩
    · obtain ⟨t, ht, hidle⟩ := hunserved.workers j hold
      obtain ⟨t', ht'⟩ := hnext.thread_stays ht
      refine ⟨t', ht', ?_⟩
      cases hnext.after ht' with
      | same ht₁ hk =>
        cases ht.symm.trans ht₁
        exact hidle
      | moved t₁ x₁ hk ht₁ htraffic hx' =>
        cases ht.symm.trans ht₁
        rcases idle_of_traffic hidle htraffic j with hidle' | ⟨o', hhanded⟩
        · exact hidle'
        · subst hx' hk
          have hnot := hunowned _ ((Exchange.handed_of_move ht htraffic).trans hhanded)
          exact absurd (owns_worker_iff.mpr hold) hnot
      | started hk hlength hnew =>
        have := (List.getElem?_eq_some_iff.mp ht).1
        omega
      | emptied t₁ hk ht₁ hs hcontrol =>
        refine Or.inr ⟨hs, ?_⟩
        simp [Control.Fails, hcontrol]
    · obtain ⟨hgoing, hmover, hheight⟩ := own_iff.mp hown'
      obtain ⟨phase, hcall, -⟩ := hnamed.standing hgoing
      cases hnext with
      | @move k₁ t t' x₁ ht hfree htraffic =>
        cases hmover
        obtain ⟨rest, hs, -⟩ := hown hgoing ht hcall hheight
        obtain ⟨handle, hnew⟩ := worker_of_exec ht hs htraffic hlt
        exact ⟨_, hnew, Or.inl ⟨handle, o, rfl⟩⟩
      | _ => cases hmover
  · intro j t' ht'
    have hrestrict : ∀ {t : Thread}, x.threads[j]? = some t →
        Silent (fun source => (course.extend k h x mover x').owns k h source = true) j
          t.control.Fails t.stack := by
      intro t ht
      refine (hunserved.silent j t ht).restrict ?_ ?_
      · intro h' hown'
        obtain ⟨hgoing, hk⟩ := owns_call_iff.mp hown'
        exact owns_call_iff.mpr ⟨(going_iff.mp hgoing).1, hk⟩
      · intro id hown' hmem
        rcases mem_requests.mp (owns_request_iff.mp hown') with hid | ⟨-, -, rfl⟩
        · exact owns_request_iff.mpr hid
        · exact absurd (request_made_of_mem hx ht hmem) (Nat.lt_irrefl _)
    cases hnext.after ht' with
    | same ht hk => exact hrestrict ht
    | moved t x₁ hk ht htraffic hx' =>
      refine htraffic.silent (hrestrict ht) fun q hq hown' => ?_
      subst hx' hk
      have hmem := Dealt.mem_of_handed (Exchange.dealt_of_move hx.sound ht htraffic) hq
      exact hunowned q ((Exchange.handed_of_move ht htraffic).trans hq) (owns_of_due hx hmem hown')
    | started hk hlength hnew =>
      cases hnew with
      | called hentry => cases hentry <;> exact .singleton rfl
      | reader handle read | worker handle o' => exact .singleton rfl
    | emptied t hk ht hs hcontrol =>
      rw [hs]
      trivial
  · intro hgoing o' r hcall output
    obtain ⟨hgoing, -⟩ := going_iff.mp hgoing
    cases hnext.call_after hcall with
    | same hcall => exact hunserved.kept hgoing o' r hcall output
    | begun hphase => cases hphase
    | onward t phase hk ht hcall hheight hfollows =>
      obtain ⟨rest, hs, hh⟩ := hown hgoing ht hcall hheight
      exact hunserved.answer_fails hnamed hgoing ht hs hh (hfollows.kept r rfl) output
  · intro output hreply
    simp only [Course.extend] at hreply
    split at hreply
    · next hended =>
      rw [Bool.and_eq_true] at hended
      obtain ⟨hgoing, hmover, hheight⟩ := own_iff.mp hended.1
      have hheight' : x'.height k = h := by simpa using hended.2
      obtain ⟨phase, hcall, -⟩ := hnamed.standing hgoing
      obtain ⟨t, ht, -⟩ := Exchange.exists_of_callOf hcall
      obtain ⟨rest, hs, hh⟩ := hown hgoing ht hcall hheight
      obtain ⟨t', ht'⟩ := hnext.thread_stays ht
      rw [Exchange.height_of_thread ht'] at hheight'
      have hcontrol' := Exchange.control_of_replyOf ht' hreply
      cases hnext.after ht' with
      | moved t₁ x₁ hk ht₁ htraffic hx' =>
        cases ht.symm.trans ht₁
        cases htraffic.callStep with
        | aside a new rest' hs₁ hs' ha =>
          rw [hs] at hs₁
          cases hs₁
          exact ha o phase rfl
        | onward o₁ phase₁ phase' above rest' hs₁ hs' =>
          rw [hs] at hs₁
          cases hs₁
          rw [hs', List.length_append, List.length_cons] at hheight'
          omega
        | ended o₁ phase₁ rest' hs₁ hs' hcells hanswer =>
          rw [hs] at hs₁
          cases hs₁
          exact hunserved.answer_fails hnamed hgoing ht hs hh (hanswer output hcontrol') output rfl
      | same ht₁ hk => exact hk hmover
      | started hk hlength hnew =>
        have := (List.getElem?_eq_some_iff.mp ht).1
        omega
      | emptied t₁ hk => cases hk.symm.trans hmover
    · exact hunserved.reply output hreply

end Extend

end Course

end ScriptHost.Service
