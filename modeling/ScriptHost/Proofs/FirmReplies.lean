import ScriptHost.Proofs.OutcomesOfMoves
import ScriptHost.Proofs.UnservedCalls

/-!
Where cancellations come from. As long as no fault of the engine is a cancellation,
nothing that was run comes to one: not the execution of a request, not the work of a
worker, and not an order that a loop's thread runs inline. A call that is answered with a
cancellation finds the cell of its request dropped.
-/

namespace ScriptHost.Service

/-- The manners in which the run of an order ends. -/
def Manner.ofRun (manner : Manner) : Prop :=
  manner = .result ∨ manner = .panic

theorem Thread.Typed.reply_ne_cancelled {t : Thread} {final : Manner → Prop}
    (h : t.Typed True final) {r : Reply} (hc : t.control = .back (.reply r))
    (htakes : ∀ manner, Takes final t.stack manner → manner.ofRun) : r ≠ .error .cancelled := by
  obtain ⟨manner, hbrings, htaken⟩ := h.given (by simp [hc]) (by simp [hc])
  rcases htakes manner htaken with rfl | rfl
  · obtain ⟨r', heq, hfirm⟩ := hbrings
    cases hc.symm.trans heq
    exact hfirm trivial
  · obtain ⟨p, heq⟩ := hbrings
    cases hc.symm.trans heq

/-- What a worker leaves behind is no cancellation. -/
theorem Thread.Typed.worker_ne_cancelled {t : Thread} (h : t.Typed True Manner.ofRun) {r : Reply}
    (hr : t.result?.bind workerReply? = some r) : r ≠ .error .cancelled := by
  obtain ⟨c, hresult, hreply⟩ := Option.bind_eq_some_iff.mp hr
  unfold Thread.result? at hresult
  split at hresult
  · next hs =>
    cases hresult
    unfold workerReply? at hreply
    split at hreply
    · next hc =>
      cases hreply
      refine h.reply_ne_cancelled hc fun manner htakes => ?_
      rwa [List.isEmpty_iff.mp hs] at htakes
    · cases hreply
      simp
    · cases hreply
  · cases hresult

/-- Nothing that was run has come to a cancellation, and nothing can. -/
structure World.Firm (w : World) : Prop where
  threads : ∀ (k : Nat) (t : Thread), w.threads[k]? = some t → t.Typed True (· ≠ .lease true)
  workers : ∀ k h o j, w.exchange.callOf k h = some (o, .joining j) →
    ∃ t, w.threads[j]? = some t ∧ t.Typed True Manner.ofRun
  cells : ∀ id : Nat, w.cells[id]? ≠ some (.replied (.error .cancelled))

section Firm

variable {w w' : World} {mover : Option Nat}

theorem firm_of_fresh (h : w.Fresh) : w.Firm := by
  refine ⟨?_, ?_, ?_⟩
  · intro k t ht
    rw [h.threads] at ht
    cases ht
  · intro k height o j hcall
    obtain ⟨t, ht, -⟩ := Exchange.exists_of_callOf hcall
    rw [World.exchange, h.threads] at ht
    cases ht
  · simp [h.cells]

theorem World.Firm.backed (h : w.Firm) (hengine : w.engine.Firm) {k : Nat} {t : Thread}
    (ht : w.threads[k]? = some t)
    (hfits : ∀ h : Handle, h.lease ∈ leases t.stack → (w.nest.release h).2 = none) :
    Backed True w t.stack := by
  refine ⟨hfits, fun _ => hengine, ?_⟩
  intro _ o worker rest r hs hr
  have hcall : w.exchange.callOf k rest.length = some (o, .joining worker) := by
    rw [Exchange.callOf_of_thread ht, hs, callAt_exec]
  obtain ⟨t', ht', htyped⟩ := h.workers _ _ _ _ hcall
  rw [ht'] at hr
  exact htyped.worker_ne_cancelled hr

/-- The worker that a call has just started. -/
theorem worker_of_onward {x x' : Exchange} {k height j : Nat} {o : Order} {phase : ExecPhase}
    {t : Thread} (hnext : x.Next mover x') (hk : mover = some k) (ht : x.threads[k]? = some t)
    (hcall : x.callOf k height = some (o, phase)) (hheight : x.height k = height + 1)
    (hfollows : Follows x t.control phase x' (.joining j)) :
    ∃ handle, x'.threads[j]? = some { stack := [.starting handle o] } := by
  obtain ⟨rfl, hlength⟩ := hfollows.worker j rfl
  rw [Exchange.callOf_of_thread ht] at hcall
  rw [Exchange.height_of_thread ht] at hheight
  obtain ⟨rest, hs, -⟩ := stack_of_callAt hcall hheight
  cases hnext with
  | @move k₁ t₁ t' x₁ ht₁ hfree htraffic =>
    cases hk
    cases ht.symm.trans ht₁
    exact worker_of_exec ht hs htraffic (by omega)
  | _ => cases hk

theorem firm_of_step (h : w.Firm) (hengine : w.engine.Firm) (hleased : w.Leased)
    (hstep : Step w mover w') (horderly : w.exchange.Orderly) : w'.Firm := by
  have hnext := next_of_step hstep
  refine ⟨?_, ?_, ?_⟩
  · intro k t ht
    exact typed_of_step hleased hstep (fun k t ht => h.backed hengine ht) h.threads ht
  · intro k height o j hcall
    cases hnext.call_after hcall with
    | begun hphase => cases hphase
    | same hcall =>
      obtain ⟨t, ht, htyped⟩ := h.workers _ _ _ _ hcall
      obtain ⟨t', ht'⟩ := hnext.thread_stays ht
      refine ⟨t', ht', typed_of_after hleased (thread_after hstep ht')
        (List.getElem?_eq_some_iff.mp ht).1 (fun t ht => h.backed hengine ht) ?_⟩
      intro t₁ ht₁
      cases ht.symm.trans ht₁
      exact htyped
    | onward t phase hk ht hcall hheight hfollows =>
      obtain ⟨handle, ht'⟩ := worker_of_onward hnext hk ht hcall hheight hfollows
      refine ⟨_, ht', typed_of_newly (.worker handle o) fun a hs manner hmem => ?_⟩
      cases hs
      simpa [Manner.ofRun] using hmem
  · intro id hcell
    rcases hnext.cells_change with ⟨-, hunended⟩ | ⟨i, e, hending, hplace, hcells⟩
    · exact h.cells id (hunended.replied hcell)
    · have hcells : w'.cells = w.cells.modify i (.deliver e) := hcells
      rw [hcells] at hcell
      by_cases hi : i = id
      · -- a thread that ends the execution of a request brings the result of a run
        subst hi
        obtain ⟨t, ht, hended⟩ := Option.bind_eq_some_iff.mp hending
        obtain ⟨k, -, ht⟩ := Option.bind_eq_some_iff.mp ht
        obtain ⟨hone, hwaiting⟩ := horderly.unanswered i
        have hwaits : w.cells[i]? = some .waiting := hwaiting (by omega)
        rw [List.getElem?_modify_eq, hwaits] at hcell
        unfold ending? at hended
        split at hended
        · next r rest hcontrol hs =>
          cases hended
          cases hcell
          refine (h.threads k t ht).reply_ne_cancelled hcontrol (fun manner htakes => ?_) rfl
          rw [hs] at htakes
          simpa [Manner.ofRun] using htakes.1
        · cases hended
          cases hcell
        · cases hended
      · rw [List.getElem?_modify_ne _ _ hi] at hcell
        exact h.cells id hcell

theorem firm_of_run {past : List Transition} (h : Run past w)
    (hengine : ∀ x ∈ past, x.before.engine.Firm) : w.Firm := by
  induction h with
  | start hactive hpeak h => exact firm_of_fresh (fresh_of_start h)
  | @step past w w' mover h hstep ih =>
    have hbefore := ih fun x hx => hengine x (List.mem_cons_of_mem _ hx)
    exact firm_of_step hbefore (hengine _ List.mem_cons_self) (leased_of_run h) hstep
      (orderly_of_run h)

/-- A call is answered with a cancellation only if the cell of its request was dropped. -/
theorem dropped_of_answered (h : w.Firm) (hmade : w.exchange.NamedMade) {k : Nat} {t : Thread}
    {o : Order} {phase : ExecPhase} {rest : List Activation} (ht : w.threads[k]? = some t)
    (hs : t.stack = .exec o phase :: rest)
    (hr : Answers w.exchange t.control phase (.error .cancelled)) :
    ∃ id, phase.request? = some id ∧ w.cells[id]? = some .dropped := by
  have htyped := h.threads k t ht
  have hcall : w.exchange.callOf k rest.length = some (o, phase) := by
    rw [Exchange.callOf_of_thread ht, hs, callAt_exec]
  generalize hreply : (Except.error ExecutionError.cancelled : Reply) = r at hr
  cases hr with
  | request _ id _ hid hpoll =>
    refine ⟨id, hid, ?_⟩
    have hlt : id < w.cells.length := hmade _ _ _ _ hcall id hid
    have hcell : w.cells[id]? = some w.cells[id] := List.getElem?_eq_getElem hlt
    have hpoll : (w.cells[id]).poll = some r := by
      simpa [Exchange.cell, World.exchange, hcell] using hpoll
    rw [hcell]
    cases hvalue : w.cells[id] with
    | waiting =>
      rw [hvalue] at hpoll
      cases hpoll
    | replied r' =>
      rw [hvalue, ← hreply] at hpoll
      cases hpoll
      rw [hvalue] at hcell
      exact absurd hcell (h.cells id)
    | dropped => rfl
  | inline _ hcontrol =>
    refine absurd hreply.symm (htyped.reply_ne_cancelled hcontrol fun manner htakes => ?_)
    rw [hs] at htakes
    simpa [Manner.ofRun] using htakes.1
  | worker j _ hresult =>
    obtain ⟨t', ht', hworker⟩ := h.workers _ _ _ _ hcall
    have ht' : w.exchange.threads[j]? = some t' := ht'
    rw [ht'] at hresult
    exact absurd hreply.symm (hworker.worker_ne_cancelled hresult)
  | kept =>
    have hstack := htyped.stack
    rw [hs] at hstack
    exact absurd hreply.symm (hstack.2.1 trivial)

end Firm

end ScriptHost.Service
