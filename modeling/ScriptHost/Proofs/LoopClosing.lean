import ScriptHost.Proofs.LoopChannels

/-!
What is known of a message loop when it leaves. Every request that was posted to it was
taken, in the order of posting, and none is still being processed, since the activation
that pumps the loop is about to leave it. So each was answered once, or skipped because
it was cancelled, and the loop leaves with the first signal it accepted.
-/

namespace ScriptHost.Service

/-- What can have become of a request that was taken from a loop: it was skipped, answered,
or is being processed. A panic that unwinds a loop leaves the last request to whoever
catches it. -/
inductive Settled (cells : List Cell) (p : Multiset Pump) : Request × Bool → Prop
  | skipped (r : Request) (hcell : cells[r.id]? = some .dropped) : Settled cells p (r, true)
  | answered (r : Request) (reply : Reply) (hcell : cells[r.id]? = some (.replied reply)) :
      Settled cells p (r, false)
  | processed (r : Request) (signal : Option (Signal × Bool)) (hp : (signal, some r.id) ∈ p) :
      Settled cells p (r, false)
  | unwound (r : Request) (hp : p = 0) : Settled cells p (r, false)

section Settled

variable {cells cells' : List Cell} {p p' : Multiset Pump} {q : Request × Bool}

/-- A multiset with one element at most has only itself and the empty one below it. -/
theorem eq_or_eq_zero_of_le (hp : p' ≤ p) (hone : p.card ≤ 1) : p' = p ∨ p' = 0 := by
  by_cases hcard : p'.card = 0
  · exact Or.inr (Multiset.card_eq_zero.mp hcard)
  · exact Or.inl (Multiset.eq_of_le_of_card_le hp (by omega))

theorem Settled.mono (h : Settled cells p q) (hp : p' ≤ p) (hone : p.card ≤ 1)
    (hkeep : ∀ (id : Nat) (c : Cell), cells[id]? = some c → c ≠ .waiting →
      cells'[id]? = some c) : Settled cells' p' q := by
  cases h with
  | skipped r hcell => exact .skipped r (hkeep _ _ hcell (by simp))
  | answered r reply hcell => exact .answered r reply (hkeep _ _ hcell (by simp))
  | processed r signal hmem =>
    rcases eq_or_eq_zero_of_le hp hone with rfl | hzero
    · exact .processed r signal hmem
    · exact .unwound r hzero
  | unwound r hzero =>
    rw [hzero] at hp
    exact .unwound r (Multiset.le_zero.mp hp)

/-- While the loop is pumped and `above` is directly above it, no other request is processed. -/
theorem Settled.of_pumped {taken : Option (Signal × Bool)} {above : Option Nat}
    (h : Settled cells {(taken, above)} q)
    (hkeep : ∀ (id : Nat) (c : Cell), cells[id]? = some c → c ≠ .waiting →
      cells'[id]? = some c)
    (habove : ∀ r, above = some r → ∃ reply, cells'[r]? = some (.replied reply)) :
    Settled cells' p' q := by
  cases h with
  | skipped r hcell => exact .skipped r (hkeep _ _ hcell (by simp))
  | answered r reply hcell => exact .answered r reply (hkeep _ _ hcell (by simp))
  | processed r signal hmem =>
    have heq := Multiset.mem_singleton.mp hmem
    obtain ⟨reply, hcell⟩ := habove r.id (Prod.mk.inj heq).2.symm
    exact .answered r reply hcell
  | unwound r hzero => exact absurd hzero (Multiset.singleton_ne_zero _)

end Settled

variable {past : List Transition} {w : World} {id : Nat}

theorem settled_of_run (h : Run past w) (id : Nat) :
    ∀ q ∈ taken id past, Settled w.cells (w.exchange.pumping id) q := by
  induction h with
  | start => simp [taken]
  | @step past w w' mover h hstep ih =>
    have hnext := next_of_step hstep
    have hkeep : ∀ (i : Nat) (c : Cell), w.cells[i]? = some c → c ≠ .waiting →
        w'.cells[i]? = some c := fun i c hc hne => hnext.cell_keeps hc hne
    have hchannel := hnext.channel (orderly_of_run h) id
    have hone := (pumping_of_run h id).1
    generalize w.exchange.pumping id = p, w'.exchange.pumping id = p' at hchannel ih hone
    -- what was taken before stays settled, and a step takes one request at most
    have hall : ∀ new, (⟨w, mover, w'⟩ : Transition).taken id = new →
        (∀ q ∈ taken id past, Settled w'.cells p' q) → (∀ q ∈ new, Settled w'.cells p' q) →
        ∀ q ∈ taken id (⟨w, mover, w'⟩ :: past), Settled w'.cells p' q := by
      intro new hnew hold hlast q hq
      rw [taken, hnew] at hq
      exact (List.mem_append.mp hq).elim (hold q) (hlast q)
    have hmono : p' ≤ p → ∀ q ∈ taken id past, Settled w'.cells p' q :=
      fun hp q hq => (ih q hq).mono hp hone hkeep
    cases hchannel with
    | idle hloop hp =>
      exact hall [] (log_of_same (x := ⟨w, mover, w'⟩) hloop).2.1 (hmono hp) (by simp)
    | served r reply signal hloop hcell hp =>
      obtain rfl := eq_zero_of_card_cons_le hone
      refine hall [] (log_of_same (x := ⟨w, mover, w'⟩) hloop).2.1 ?_ (by simp)
      intro q hq
      refine (ih q hq).of_pumped hkeep ?_
      rintro r' ⟨rfl⟩
      exact ⟨reply, hcell⟩
    | posted l r hl hl' hr hcells hopen hp =>
      refine hall [] ?_ (hmono hp) (by simp)
      rw [(log_of_change (x := ⟨w, mover, w'⟩) hl hl').2.1]
      simp
    | skipped l r requests signal hl hr hl' hcancelled hcell =>
      have hcancelled : w.isCancelled r.options.token = true := hcancelled
      refine hall [(r, true)] ?_ (hmono (le_refl _)) ?_
      · rw [(log_of_change (x := ⟨w, mover, w'⟩) hl hl').2.1, hr]
        simpa using hcancelled
      · intro q hq
        obtain rfl := List.mem_singleton.mp hq
        exact .skipped r hcell
    | taken l r requests signal hl hr hl' hcancelled =>
      obtain rfl := eq_zero_of_card_cons_le hone
      have hcancelled : w.isCancelled r.options.token = false := hcancelled
      refine hall [(r, false)] ?_ ?_ ?_
      · rw [(log_of_change (x := ⟨w, mover, w'⟩) hl hl').2.1, hr]
        simpa using hcancelled
      · exact fun q hq => (ih q hq).of_pumped hkeep (by simp)
      · intro q hq
        obtain rfl := List.mem_singleton.mp hq
        exact .processed r signal (Multiset.mem_cons_self _ _)
    | signalled l signal hl hsignal hl' hp =>
      refine hall [] ?_ (hmono hp) (by simp)
      rw [(log_of_change (x := ⟨w, mover, w'⟩) hl hl').2.1]
      simp
    | consumed l signal hl hsignal hl' | locked l signal hl hrequests hl' =>
      obtain rfl := eq_zero_of_card_cons_le hone
      refine hall [] ?_ ?_ (by simp)
      · rw [(log_of_change (x := ⟨w, mover, w'⟩) hl hl').2.1]
        simp
      · exact fun q hq => (ih q hq).of_pumped hkeep (by simp)
    | opened l hid hnext hl hl' hrequests hsignal hp =>
      refine hall [] (log_of_none (x := ⟨w, mover, w'⟩) (Or.inl hl)).2.1 ?_ (by simp)
      rw [(unopened_of_run h (le_of_eq hid.symm)).2.1]
      simp
    | closed l signal locked hl hl' hrequests hleaves hp =>
      obtain rfl := eq_zero_of_card_cons_le hone
      refine hall [] (log_of_none (x := ⟨w, mover, w'⟩) (Or.inr hl')).2.1 ?_ (by simp)
      exact fun q hq => (ih q hq).of_pumped hkeep (by simp)

/-- How the signals that a loop accepted relate to the one it holds and to the one that was
taken from it. -/
def Kept (accepted : List Signal) (held : Option Signal) : Option Signal → Prop
  | none => accepted = held.toList
  | some signal => accepted.head? = some signal

theorem accepted_of_same_signal {x : Transition} {l l' : MessageLoop}
    (hl : x.before.exchange.findLoop id = some l) (hl' : x.after.exchange.findLoop id = some l')
    (hsignal : l'.signal = l.signal) : x.accepted id = [] := by
  rw [(log_of_change hl hl').2.2, hsignal]
  cases l.signal <;> rfl

/-- What the activation that pumps a registered loop has taken is the first signal that the
loop accepted; until then the loop holds that signal. -/
theorem signal_of_run (h : Run past w) {l : MessageLoop} (hl : w.exchange.findLoop id = some l) :
    ∀ q ∈ w.exchange.pumping id, Kept (accepted id past) l.signal (q.1.map Prod.fst) := by
  induction h generalizing l with
  | start hactive hpeak h =>
    simp [Exchange.findLoop, World.exchange, (fresh_of_start h).loops] at hl
  | @step past w w' mover h hstep ih =>
    have hchannel := (next_of_step hstep).channel (orderly_of_run h) id
    obtain ⟨hone, hnone⟩ := pumping_of_run h id
    generalize w.exchange.pumping id = p, w'.exchange.pumping id = p' at hchannel ih hone hnone
    intro q hq
    rw [accepted]
    cases hchannel with
    | idle hloop hp =>
      rw [(log_of_same (x := ⟨w, mover, w'⟩) hloop).2.2, List.append_nil]
      exact ih (hloop ▸ hl) q (Multiset.mem_of_le hp hq)
    | served r reply signal hloop hcell hp =>
      obtain rfl := eq_zero_of_card_cons_le hone
      obtain rfl := Multiset.mem_singleton.mp (Multiset.mem_of_le hp hq)
      rw [(log_of_same (x := ⟨w, mover, w'⟩) hloop).2.2, List.append_nil]
      exact ih (hloop ▸ hl) (signal, some r) (Multiset.mem_cons_self _ _)
    | posted l₀ r hl₀ hl' hr hcells hopen hp =>
      rw [hl'] at hl
      cases hl
      rw [accepted_of_same_signal (x := ⟨w, mover, w'⟩) hl₀ hl' rfl, List.append_nil]
      exact ih hl₀ q (Multiset.mem_of_le hp hq)
    | skipped l₀ r requests signal hl₀ hr hl' =>
      rw [hl'] at hl
      cases hl
      rw [accepted_of_same_signal (x := ⟨w, mover, w'⟩) hl₀ hl' rfl, List.append_nil]
      exact ih hl₀ q hq
    | taken l₀ r requests signal hl₀ hr hl' hcancelled =>
      obtain rfl := eq_zero_of_card_cons_le hone
      obtain rfl := Multiset.mem_singleton.mp hq
      rw [hl'] at hl
      cases hl
      rw [accepted_of_same_signal (x := ⟨w, mover, w'⟩) hl₀ hl' rfl, List.append_nil]
      exact ih hl₀ (signal, none) (Multiset.mem_cons_self _ _)
    | signalled l₀ signal hl₀ hsignal hl' hp =>
      rw [hl'] at hl
      cases hl
      rw [(log_of_change (x := ⟨w, mover, w'⟩) hl₀ hl').2.2, hsignal]
      have hold := ih hl₀ q (Multiset.mem_of_le hp hq)
      rw [hsignal] at hold
      cases htaken : q.1.map Prod.fst with
      | none =>
        rw [htaken] at hold
        exact congrArg (· ++ [signal]) hold
      | some first =>
        rw [htaken] at hold
        have hold : (accepted id past).head? = some first := hold
        simp [Kept, List.head?_append, hold]
    | consumed l₀ signal hl₀ hsignal hl' =>
      obtain rfl := eq_zero_of_card_cons_le hone
      obtain rfl := Multiset.mem_singleton.mp hq
      have hold : accepted id past = l₀.signal.toList := ih hl₀ _ (Multiset.mem_cons_self _ _)
      rw [(log_of_change (x := ⟨w, mover, w'⟩) hl₀ hl').2.2, hold, hsignal]
      rfl
    | locked l₀ signal hl₀ hrequests hl' =>
      obtain rfl := eq_zero_of_card_cons_le hone
      obtain rfl := Multiset.mem_singleton.mp hq
      rw [hl'] at hl
      cases hl
      rw [accepted_of_same_signal (x := ⟨w, mover, w'⟩) hl₀ hl' rfl, List.append_nil]
      exact ih hl₀ (some (signal, false), none) (Multiset.mem_cons_self _ _)
    | opened l₀ hid hnext hl₀ hl' hrequests hsignal hp =>
      rw [hl'] at hl
      cases hl
      rw [hnone hl₀] at hp
      obtain rfl := Multiset.mem_singleton.mp (Multiset.mem_of_le hp hq)
      rw [(log_of_none (x := ⟨w, mover, w'⟩) (Or.inl hl₀)).2.2,
        (unopened_of_run h (le_of_eq hid.symm)).2.2, hsignal]
      rfl
    | closed l₀ signal locked hl₀ hl' =>
      rw [hl'] at hl
      cases hl

/-- A request that was taken is through: it was skipped and never run, or its execution ended
once and its requester was sent what came of it. -/
def Processed (past : List Transition) (w : World) : Request × Bool → Prop
  | (r, true) => (endings past).filter (·.1 == r.id) = [] ∧ w.cell r.id = .dropped
  | (r, false) => ∃ e, (endings past).filter (·.1 == r.id) = [(r.id, e)] ∧
      w.cell r.id = .replied e.reply

theorem processed_of_settled (h : Run past w) {q : Request × Bool}
    {signal : Option (Signal × Bool)} (hq : Settled w.cells {(signal, none)} q) :
    Processed past w q := by
  have hcell : ∀ (i : Nat) (c : Cell), w.cells[i]? = some c → w.cell i = c := by
    intro i c hc
    simp [World.cell, hc]
  cases hq with
  | skipped r hdropped =>
    rcases endings_of_run h r.id with ⟨hnone, -⟩ | ⟨e, -, hreplied⟩
    · exact ⟨hnone, hcell _ _ hdropped⟩
    · rw [hdropped] at hreplied
      cases hreplied
  | answered r reply hreplied =>
    rcases endings_of_run h r.id with ⟨-, hnever⟩ | ⟨e, hone, hreplied⟩
    · exact absurd hreplied (hnever reply)
    · exact ⟨e, hone, hcell _ _ hreplied⟩
  | processed r taken hp => exact absurd (Multiset.mem_singleton.mp hp) (by simp)
  | unwound r hp => exact absurd hp (Multiset.singleton_ne_zero _)

/-- The next request is taken from a loop when all that were taken from it before are
through. -/
theorem processed_before_taken {x : Transition} (h : Run past x.before)
    (hstep : Step x.before x.mover x.after) (hx : x.taken id ≠ []) :
    ∀ q ∈ taken id past, Processed past x.before q := by
  intro q hq
  have hsettled := settled_of_run h id q hq
  have hchannel := (next_of_step hstep).channel (orderly_of_run h) id
  have hone := (pumping_of_run h id).1
  generalize x.before.exchange.pumping id = p, x.after.exchange.pumping id = p'
    at hchannel hsettled hone
  cases hchannel with
  | skipped l r requests signal | taken l r requests signal =>
    obtain rfl := eq_zero_of_card_cons_le hone
    exact processed_of_settled h hsettled
  | idle hloop | served r reply signal hloop => exact absurd (log_of_same hloop).2.1 hx
  | opened l hid hnext hl => exact absurd (log_of_none (Or.inl hl)).2.1 hx
  | closed l signal locked hl hl' => exact absurd (log_of_none (Or.inr hl')).2.1 hx
  | posted l r hl hl' =>
    refine absurd ?_ hx
    rw [(log_of_change hl hl').2.1]
    simp
  | signalled l signal hl hsignal hl' | consumed l signal hl hsignal hl'
  | locked l signal hl hrequests hl' =>
    refine absurd ?_ hx
    rw [(log_of_change hl hl').2.1]
    simp

/-- How the thread of a loop goes on when the loop ended with a signal: a debugger resumes as
the signal says, and a nested prompt is over. -/
def LoopKind.GoesOn (kind : LoopKind) (id : Nat) (signal : Signal) (rest : List Activation)
    (t : Thread) : Prop :=
  match kind with
  | .debuggerStop => t.stack = .loop id (.resuming signal.action) :: rest
  | .nestedPrompt => t.control = .back .unit ∧ t.stack = rest

theorem Closes.goes_on {w : World} {t : Thread} {rest : List Activation} {l : MessageLoop}
    {signal : Signal} {m : World × Thread} (h : Closes w t rest l signal m) :
    m.1.threads = w.threads ∧ l.kind.GoesOn l.id signal rest m.2 := by
  cases h with
  | debugger hkind => exact ⟨rfl, hkind ▸ rfl⟩
  | prompt hkind => exact ⟨rfl, hkind ▸ ⟨rfl, rfl⟩⟩

theorem findLoop_updateLoop {f : MessageLoop → MessageLoop} (hf : ∀ l, (f l).id = l.id)
    (updated id : Nat) :
    (w.updateLoop updated f).findLoop id =
      (w.findLoop id).map fun l => if l.id == updated then f l else l := by
  unfold World.findLoop World.updateLoop
  rw [List.find?_map]
  congr 2
  funext l
  simp only [Function.comp_apply]
  split
  · rw [hf]
  · rfl

/-- A thread that removes its loop goes on as the signal of the loop says. -/
theorem goes_on_of_leaving {w' : World} {k : Nat} {t : Thread} {l : MessageLoop}
    {phase : LoopPhase} {signal : Signal} {rest : List Activation} (hstep : w' ∈ w.next k)
    (ht : w.threads[k]? = some t) (hs : t.stack = .loop id phase :: rest)
    (hlast : phase.last? = some signal) (hl : w.findLoop id = some l)
    (hgone : w'.findLoop id = none) :
    ∃ t', w'.threads[k]? = some t' ∧ l.kind.GoesOn id signal rest t' := by
  obtain ⟨t₀, ht₀, m, hm, rfl⟩ := mem_next.mp hstep
  obtain rfl : t₀ = t := Option.some.inj (ht₀.symm.trans ht)
  obtain ⟨a, rest', hs', hturn⟩ := turn_of_moves hm
  obtain ⟨rfl, rfl⟩ := List.cons.inj (hs.symm.trans hs')
  have hk := (List.getElem?_eq_some_iff.mp ht).1
  have hgone : m.1.findLoop id = none := hgone
  have hkept : m.1.findLoop id ≠ some l := by simp [hgone]
  have hclosed : ∀ {w₁ : World}, Closes w₁ t₀ rest l signal m → w₁.threads = w.threads →
      l.id = id →
      ∃ t', (m.1.threads.set k m.2)[k]? = some t' ∧ l.kind.GoesOn id signal rest t' := by
    rintro w₁ h hthreads rfl
    obtain ⟨hsame, hgoes⟩ := h.goes_on
    exact ⟨m.2, List.getElem?_set_self (by rw [hsame, hthreads]; exact hk), hgoes⟩
  cases hturn with
  | goes hgo h =>
    cases h with
    | onward | ended => exact absurd hl hkept
    | announced | published | consumed | interruptedReads | stayed | resumed => cases hlast
    | skipped _ _ _ _ _ hphase | taken _ _ _ _ _ hphase => cases hphase <;> cases hlast
    | locked l₀ =>
      have hfound := findLoop_updateLoop (w := w) (f := fun l => { l with leaving := true })
        (fun _ => rfl) l₀.id l₀.id
      rw [hl] at hfound
      cases hgone.symm.trans hfound
    | closedCovered l₀ signal₀ hl₀ hr htop hm =>
      cases hlast
      obtain rfl : l₀ = l := Option.some.inj (hl₀.symm.trans hl)
      exact hclosed hm rfl rfl
    | closed l₀ signal₀ hl₀ hm =>
      cases hlast
      obtain rfl : l₀ = l := Option.some.inj (hl₀.symm.trans hl)
      exact hclosed hm rfl rfl
  | receives o hback h =>
    cases h with
    | loop => exact absurd hl hkept
  | unwinds p hunwind h =>
    cases h with
    | other => exact absurd hl hkept

theorem pumping_of_thread {k : Nat} {t : Thread} {phase : LoopPhase}
    (ht : w.threads[k]? = some t) (h : .loop id phase ∈ t.stack) (hpumps : phase.pumps = true) :
    ∃ above, (phase.parting?, above) ∈ w.exchange.pumping id := by
  obtain ⟨above, hmem⟩ := pumping_of_mem h hpumps none
  obtain ⟨others, htotal, -⟩ := exists_others (f := fun _ t => pumping id none t.stack) ht
  refine ⟨above, ?_⟩
  change _ ∈ total _ w.threads
  rw [htotal]
  exact Multiset.mem_add.mpr (Or.inl hmem)

/-- A step in which thread `k` leaves the loop `l` with the first signal that it accepted. -/
structure Left (past : List Transition) (w w' : World) (l : MessageLoop) (k : Nat)
    (signal : Signal) (rest : List Activation) : Prop where
  leaving : ∃ t phase, w.threads[k]? = some t ∧ t.stack = .loop l.id phase :: rest ∧
    phase.last? = some signal
  alone : ∃ locked, w.exchange.pumping l.id = {(some (signal, locked), none)}
  gone : w'.findLoop l.id = none
  first : (accepted l.id past).head? = some signal
  goes_on : ∃ t, w'.threads[k]? = some t ∧ l.kind.GoesOn l.id signal rest t

/-- A registered loop stays registered, of its kind, unless its thread leaves it. -/
theorem loop_after {w' : World} {mover : Option Nat} {l : MessageLoop} (h : Run past w)
    (hstep : Step w mover w') (hl : w.findLoop id = some l) :
    (∃ l', w'.findLoop id = some l' ∧ l'.kind = l.kind) ∨
      ∃ k signal rest, mover = some k ∧ Left past w w' l k signal rest := by
  have hchannel := (next_of_step hstep).channel (orderly_of_run h) id
  have hone := (pumping_of_run h id).1
  have hsignal := signal_of_run h hl
  generalize hp : w.exchange.pumping id = p, w'.exchange.pumping id = p'
    at hchannel hone hsignal
  have hl' : w.exchange.findLoop id = some l := hl
  cases hchannel with
  | idle hloop | served r reply signal hloop => exact Or.inl ⟨l, hloop.trans hl', rfl⟩
  | opened l₀ hid hnext hnone =>
    rw [hnone] at hl'
    cases hl'
  | posted l₀ r hl₀ hnew | skipped l₀ r requests signal hl₀ hr hnew
  | taken l₀ r requests signal hl₀ hr hnew | signalled l₀ signal hl₀ hs hnew
  | consumed l₀ signal hl₀ hs hnew | locked l₀ signal hl₀ hrequests hnew =>
    obtain rfl : l = l₀ := Option.some.inj (hl'.symm.trans hl₀)
    exact Or.inl ⟨_, hnew, rfl⟩
  | closed l₀ signal locked hl₀ hgone hrequests hleaves hle =>
    obtain rfl : l = l₀ := Option.some.inj (hl'.symm.trans hl₀)
    obtain rfl := eq_zero_of_card_cons_le hone
    obtain ⟨k, t, phase, rest, rfl, ht, hs, hlast⟩ := hleaves
    obtain rfl : l.id = id := Exchange.findLoop_id (x := w.exchange) hl
    cases hstep with
    | move hfree hmove =>
      exact Or.inr ⟨k, signal, rest, rfl, ⟨t, phase, ht, hs, hlast⟩, ⟨locked, hp⟩, hgone,
        hsignal _ (Multiset.mem_cons_self _ _), goes_on_of_leaving hmove ht hs hlast hl hgone⟩

/-- The moment a loop is removed, its channel is empty. What was ever posted to it was taken
in that order, each request when the one before was through, and all are through now: each
was skipped because it was cancelled, or its execution ended once and its requester was sent
what came of it. The thread of the loop goes on with the first signal the loop accepted. -/
theorem loop_loses_no_request {x : Transition} (h : Run (x :: past) w) {l : MessageLoop}
    (hl : x.before.findLoop id = some l) (hgone : x.after.findLoop id = none) :
    l.requests = [] ∧
    (taken id past).map Prod.fst = posted id past ∧
    ((posted id past).map Request.id).Nodup ∧
    (∀ q ∈ taken id past, Processed past x.before q) ∧
    (∀ later y earlier, past = later ++ y :: earlier → y.taken id ≠ [] →
      ∀ q ∈ taken id earlier, Processed earlier y.before q) ∧
    ∃ k signal rest t, x.mover = some k ∧ x.after.threads[k]? = some t ∧
      (accepted id past).head? = some signal ∧ l.kind.GoesOn id signal rest t := by
  have hlast : Run ([] ++ x :: past) w := h
  obtain ⟨hrun, hstep⟩ := run_before hlast
  have hsettled := settled_of_run hrun id
  have hqueue := queue_of_run hrun hl
  have hsignal := signal_of_run hrun hl
  have hlocked := @locked_of_run _ _ id hrun l hl
  have hone := (pumping_of_run hrun id).1
  have hchannel := (next_of_step hstep).channel (orderly_of_run hrun) id
  generalize x.before.exchange.pumping id = p, x.after.exchange.pumping id = p'
    at hchannel hsettled hsignal hlocked hone
  have hgone' : x.after.exchange.findLoop id = none := hgone
  have hl' : x.before.exchange.findLoop id = some l := hl
  cases hchannel with
  | closed l₀ signal locked hl₀ hnone hrequests hleaves hp =>
    obtain rfl : l = l₀ := Option.some.inj (hl'.symm.trans hl₀)
    obtain rfl := eq_zero_of_card_cons_le hone
    have hempty : l.requests = [] := by
      cases locked with
      | false => exact hrequests rfl
      | true => exact (hlocked (Multiset.mem_cons_self _ _)).2
    rw [hempty, List.append_nil] at hqueue
    refine ⟨hempty, hqueue.symm, ?_, ?_, ?_, ?_⟩
    · exact ((posted_of_run hrun id).1).imp (fun hlt => Nat.ne_of_lt hlt)
    · exact fun q hq => processed_of_settled hrun (hsettled q hq)
    · rintro later y earlier rfl hy
      obtain ⟨hearlier, hy'⟩ := run_before hrun
      exact processed_before_taken hearlier hy' hy
    · obtain ⟨k, t, phase, rest, hmover, ht, hs, hlast⟩ := hleaves
      rw [hmover] at hstep
      cases hstep with
      | move hfree hmove =>
        obtain ⟨t', ht', hgoes⟩ := goes_on_of_leaving hmove ht hs hlast hl hgone
        exact ⟨k, signal, rest, t', hmover, ht',
          hsignal _ (Multiset.mem_cons_self _ _), hgoes⟩
  | idle hloop | served r reply signal hloop =>
    rw [hloop, hl'] at hgone'
    cases hgone'
  | opened l₀ hid hnext hl₀ hnew | posted l₀ r hl₀ hnew | skipped l₀ r requests signal hl₀ hr hnew
  | taken l₀ r requests signal hl₀ hr hnew | signalled l₀ signal hl₀ hs hnew
  | consumed l₀ signal hl₀ hs hnew | locked l₀ signal hl₀ hempty hnew =>
    rw [hnew] at hgone'
    cases hgone'

/-- A nested prompt that leaves with a request answered and one skipped. -/
theorem loop_loses_no_request_two_posted : ∃ x past w l, Run (x :: past) w ∧
    x.before.findLoop 0 = some l ∧ x.after.findLoop 0 = none ∧
    (taken 0 past).map Prod.snd = [false, true] ∧
    ∀ q ∈ taken 0 past, Processed past x.before q := by
  have hstart : Run [] _ := @Run.start {} {} _ rfl rfl rfl
  have hnested := run_of_follow
    (hstart.step (.call (.execute { command := .ofScript "nested", options := {} })))
    (List.replicate 10 0 ++ List.replicate 5 1)
  have hpost := run_of_follow
    (hnested.step (.call (.execute { command := .ofScript "echo", options := {} })))
    [2, 2]
  have hpost' := run_of_follow
    (hpost.step (.call (.execute
      { command := .ofScript "echo", options := { token := some "t" } }))) [3, 3]
  have hcancel := hpost'.step (.act (s := .cancel "t") rfl nofun)
  have hsignal := hcancel.step (.act (s := .exitPrompt) rfl fun _ => rfl)
  have hleaving := run_of_follow hsignal (List.replicate 19 1)
  have hleft := hleaving.step (.move (k := 1) rfl (List.mem_singleton_self _))
  exact ⟨_, _, _, _, hleft, rfl, rfl, rfl, (loop_loses_no_request hleft rfl rfl).2.2.2.1⟩

end ScriptHost.Service
