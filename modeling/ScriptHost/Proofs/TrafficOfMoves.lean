import ScriptHost.Proofs.RequestTraffic
import ScriptHost.Proofs.TurnsOfMoves

/-!
Every step of the service is a step of its exchange. Most turns leave the exchange alone and only
replace the innermost activation.
-/

namespace ScriptHost.Service

section Turns

variable {w w' : World} {k : Nat} {t : Thread} {a a' : Activation} {rest below : List Activation}
  {m : World × Thread} {c c' : Control}

/-- A move of thread `t` to `m` as traffic. -/
def Travels (w : World) (t : Thread) (s : List Activation) (m : World × Thread) : Prop :=
  Traffic w.exchange t.control s m.1.exchange m.2.control m.2.stack

theorem Submits.exchange {invoker : Nat} {o : Order} (h : Submits w t below invoker o m) :
    ∃ above : List Activation, above.all Activation.plain ∧
      m.2.stack = above ++ .leased o.options :: below ∧ m.1.exchange = w.exchange := by
  cases h with
  | refused => exact ⟨[], rfl, rfl, rfl⟩
  | begun => exact ⟨[.invocation _], rfl, rfl, rfl⟩

theorem Obeys.exchange {l : MessageLoop} {o : Order} (h : Obeys w t below l o m) :
    ∃ above, Begins o above m.2.control ∧ m.2.stack = above ++ below ∧
      m.1.exchange = w.exchange := by
  cases h with
  | forbidden => exact ⟨[], .refused _, rfl, rfl⟩
  | refused | resumed => exact ⟨[.inLoop l.id o.options], .handed [] l.id _ rfl, rfl, rfl⟩
  | begun =>
    exact ⟨_, .handed [.invocation _, .debuggerCommand] l.id _ rfl, rfl, rfl⟩
  | entered => exact ⟨_, .entering, rfl, rfl⟩

theorem Releases.exchange {h : Handle} {t' : Thread} (hm : Releases w h t' m) :
    m.1.exchange = w.exchange ∧ m.2.stack = t'.stack := by
  cases hm <;> exact ⟨rfl, rfl⟩

/-- A release does not turn an outcome into a success. -/
theorem Releases.control_ne {h : Handle} {t' : Thread} {o : Outcome} (hm : Releases w h t' m)
    (ht : t'.control ≠ .back o) : m.2.control ≠ .back o := by
  cases hm with
  | fit => exact ht
  | stuck => simp [Thread.panic]

/-- An activation that ends without a part in how orders travel. -/
theorem still_ended (ha : a.plain ∨ (∃ options, a = .leased options) ∨
    (∃ loop options, a = .inLoop loop options) ∨ ∃ id phase, a = .loop id phase) :
    Still (a :: rest) rest := by
  rcases ha with ha | ⟨_, rfl⟩ | ⟨_, _, rfl⟩ | ⟨_, _, rfl⟩
  · exact .plain a [] rest ha rfl
  all_goals exact .ended _ rest (by simp) (by simp) (by simp) (by simp)

theorem travels_still {s : List Activation} (hexchange : m.1.exchange = w.exchange)
    (h : Still s m.2.stack) : Travels w t s m := by
  unfold Travels
  rw [hexchange]
  exact .quiet h

theorem travels_releases {h : Handle} {t' : Thread} (hm : Releases w h t' m)
    (hstill : Still (a :: rest) t'.stack) : Travels w t (a :: rest) m :=
  travels_still hm.exchange.1 (hm.exchange.2 ▸ hstill)

theorem travels_signals {signal : Signal} {t' : Thread} {s : List Activation}
    (h : Signals w signal w') (hstill : Still s t'.stack) : Travels w t s (w', t') := by
  cases h with
  | accepted l hl hsignal => exact .signalled l signal hl hsignal hstill
  | refused => exact .quiet hstill

theorem travels_picks (hm : Picks w t (a' :: rest) m) (ha : a.plain) (ha' : a'.plain) :
    Travels w t (a :: rest) m := by
  cases hm with
  | found id r h =>
    exact .pickedUp id r a [.idleRun, a'] rest h ha (by simpa [Activation.plain] using ha')
  | nothing => exact .quiet (.plain a [a'] rest ha (by simpa using ha'))

theorem travels_calls {i i' : Invocation} {call : HostCall}
    (hm : Calls w k t (.invocation i' :: rest) call m) :
    Travels w t (.invocation i :: rest) m := by
  have hsame : Still (.invocation i :: rest) (.invocation i' :: rest) := .plain _ [_] rest rfl rfl
  cases hm with
  | followed | wrote | wroteError | updated | crashed => exact .quiet hsame
  | held => exact .quiet (.plain _ [_, _] rest rfl rfl)
  | reentered => exact .reentered _ _ [.reentrant, .invocation i'] rest rfl rfl
  | stopped =>
    exact .opened { id := w.nextLoop, kind := .debuggerStop, frame := _, thread := k } _ _
      [.invocation i'] rest rfl rfl rfl rfl rfl rfl rfl
  | prompted =>
    exact .opened { id := w.nextLoop, kind := .nestedPrompt, frame := _, thread := k } _ _
      [.invocation i'] rest rfl rfl rfl rfl rfl rfl rfl
  | exited h => exact travels_signals h hsame
  | idled h => exact travels_picks h rfl rfl

theorem travels_closes {l : MessageLoop} {signal : Signal} {phase : LoopPhase}
    (hm : Closes w' t rest l signal m) (hw : w'.exchange = w.exchange)
    (hl : w.findLoop l.id = some l)
    (hphase : phase = .leaving signal ∧ l.requests = [] ∨ phase = .popping signal) :
    Travels w t (.loop l.id phase :: rest) m := by
  have hexchange : (w'.closeLoop l).exchange =
      { w.exchange with loops := w.exchange.loops.filter (·.id != l.id) } := by
    rw [← hw]
    rfl
  unfold Travels
  cases hm with
  | debugger =>
    rw [hexchange]
    exact .closed l signal phase [_] rest hl hphase (Or.inr ⟨_, rfl⟩)
  | prompt =>
    rw [hexchange]
    exact .closed l signal phase [] rest hl hphase (Or.inl rfl)

theorem travels_vacates {frame : Nat} {h : Handle} {phase : RoomPhase}
    (hm : Vacates w t rest frame h phase m) : Travels w t (.pushed frame h phase :: rest) m := by
  cases hm with
  | innermost | covered | popped => exact .quiet (.plain _ [_] rest rfl rfl)
  | released hm => exact travels_releases hm (still_ended (Or.inl rfl))

theorem LoopPhase.Takes.spec {phase next : LoopPhase} (h : phase.Takes next) :
    (phase.pumps = true ∧ next.pumps = true) ∧ next.parting? = phase.parting? := by
  cases h <;> exact ⟨⟨rfl, rfl⟩, rfl⟩

theorem travels_onward (h : Onward w a a') : Travels w t (a :: rest) (w, t.goOn (a' :: rest)) := by
  cases h with
  | exec o hnext =>
    refine .quiet (.exec o _ _ [] rest rfl ?_ ?_ ?_)
    · cases hnext <;> first | exact Or.inl rfl | exact Or.inr rfl
    · cases hnext <;> rfl
    · cases hnext <;> rfl
  | unleased | innermost | covered => exact .quiet (.entering _ _ _ rest)
  | pumped | emptied | refilled => exact .quiet (.loop _ _ _ rest rfl rfl)
  | _ => exact .quiet (.plain _ [_] rest rfl rfl)

theorem travels_ended {o : Outcome} (h : Ends w a o) :
    Travels w t (a :: rest) (w, t.give rest o) := by
  cases h with
  | refused o | cancelled o => exact .failed o _ rest (by simp [Thread.give])
  | replied o phase id r hphase hr =>
    refine .answered o phase r rest (.request phase id r ?_ hr)
    rcases hphase with rfl | rfl <;> rfl
  | joined o worker r hr => exact .answered o _ r rest (.worker worker r hr)
  | _ => exact .quiet (still_ended (Or.inl rfl))

theorem travels_goes (hgo : t.control = .go) (hm : Goes w k t rest a m) :
    Travels w t (a :: rest) m := by
  have hplain : ∀ {w' : World} {t' : Thread} (top : List Activation), a.plain →
      w'.exchange = w.exchange → t'.stack = top ++ rest → top.all Activation.plain →
      Travels w t (a :: rest) (w', t') := by
    intro w' t' top ha hexchange hs htop
    refine travels_still hexchange ?_
    rw [hs]
    exact .plain a top rest ha htop
  cases hm with
  | onward h => exact travels_onward h
  | ended h => exact travels_ended h
  | called i i' call engine h hm => exact travels_calls (w := { w with engine }) hm
  | pushed work => exact .quiet (.entering _ _ work rest)
  | enteredRequest frame r h nest hlease hm =>
    obtain ⟨above, habove, hstack, hexchange⟩ := hm.exchange
    unfold Travels
    rw [hstack, hexchange]
    exact .enteredRequest frame h r above rest habove
  | enteredOrder frame o h nest hlease hm =>
    obtain ⟨above, habove, hstack, hexchange⟩ := hm.exchange
    unfold Travels
    rw [hstack, hexchange]
    exact .enteredOrder frame h o above rest habove
  | leftUnused frame work => exact .quiet (.entering _ _ work rest)
  | abandoned r => exact .failedRequest r rest
  | unhandled o => exact .failedOrder o _ rest
  | announced l stop | published l stop | interruptedReads l stop =>
    exact .quiet (.loop l.id _ _ rest rfl rfl)
  | skipped l r requests hl hr hphase hcancelled =>
    exact .skipped l r requests _ _ rest hl hr hcancelled hphase.spec.1 hphase.spec.2
  | taken l r requests hl hr hphase hcancelled hm =>
    obtain ⟨above, hbegins, hstack, hexchange⟩ := hm.exchange
    unfold Travels
    rw [hstack, hexchange]
    exact .taken l r requests _ _ above rest hl hr hcancelled hphase.spec.1 hphase.spec.2 hbegins
  | consumed l signal hl h => exact .consumed l signal rest hl h
  | locked l signal hl hr => exact .locked l signal rest hl hr
  | closedCovered l signal hl hr htop hm => exact travels_closes hm rfl hl (Or.inl ⟨rfl, hr⟩)
  | closed l signal hl hm => exact travels_closes hm rfl hl (Or.inr rfl)
  | stayed id | resumed id =>
    exact .quiet (still_ended (Or.inr (Or.inr (Or.inr ⟨id, _, rfl⟩))))
  | inlined o l loops hl hself hm =>
    obtain ⟨above, hbegins, hstack, hexchange⟩ := hm.exchange
    unfold Travels
    rw [hstack, hexchange]
    exact .inlined o above rest hbegins
  | posted o l loops hl =>
    have hmem : l ∈ w.exchange.loops := by
      change l ∈ w.loops
      rw [hl]
      exact List.mem_cons_self
    unfold Travels
    rw [hgo]
    exact .posted o l rest hmem
  | remote o | vacant o | interrupted o =>
    exact .quiet (.exec o _ .leasing [_] rest rfl (Or.inl rfl) rfl rfl)
  | acquired o | queued o => exact .acquired o _ rest rfl rfl
  | turnedAway o => exact .turnedAway o rest
  | permitted o ticket id => exact .quiet (.exec o _ _ [] rest rfl (Or.inl rfl) rfl rfl)
  | gaveUp o ticket id => exact .gaveUp o ticket id rest
  | subscribed o id => exact .quiet (.exec o _ _ [] rest rfl (Or.inl rfl) rfl rfl)
  | parked o id => exact .parked o id rest
  | reclaimed o id r h => exact .reclaimed o id r [_] rest h rfl
  | withdrawn o id r hcancelled h => exact .withdrawn o id r rest h
  | unowned o h hm =>
    unfold Travels
    rw [hm.exchange.1, hm.exchange.2]
    exact .failed o _ rest fun output => hm.control_ne (by simp [Thread.give])
  | rerouted o h hm =>
    exact travels_releases hm (.exec o _ .routing [] rest rfl (Or.inl rfl) rfl rfl)
  | spawned o h => exact .spawned o h rest
  | joined o worker r hr => exact .joined o worker r [_] rest rfl (.worker worker r hr)
  | readSpawned token h read =>
    exact .spawnedReader h read (.plain _ [_] rest rfl rfl) ⟨_, _, _, rfl⟩
  | tickRan read hticks h hidle hm => exact travels_picks hm rfl rfl
  | drained h read r hm => exact travels_picks hm rfl rfl
  | readReleased h read r hm => exact travels_releases hm (still_ended (Or.inl rfl))
  | started h o hm =>
    obtain ⟨above, habove, hstack, hexchange⟩ := hm.exchange
    unfold Travels
    rw [hstack, hexchange]
    exact .started h o above rest habove
  | recorded r previous =>
    refine hplain [_] rfl ?_ rfl rfl
    unfold World.addRunspace
    split <;> rfl
  | abortSignalled kind signal h => exact travels_signals h (.plain _ [_] rest rfl rfl)
  | disposeSignalled id kind loops h => exact travels_signals h (.plain _ [_] rest rfl rfl)
  | finished | crashed | leased | failed | lineRead | underflowed | pushPublished | basePopped
  | popPublished | unpolled | abortInterrupted | readsInterrupted => exact hplain [] rfl rfl rfl rfl
  | readAsked | leaseAsked | readBegun | unwinding => exact hplain [_, _] rfl rfl rfl rfl
  | _ => exact hplain [_] rfl rfl rfl rfl

theorem travels_receives {o : Outcome} (hback : t.control = .back o)
    (hm : Receives w t rest o a m) : Travels w t (a :: rest) m := by
  cases hm with
  | loop id phase => exact .quiet (.loop id phase phase rest rfl rfl)
  | leased options r h =>
    refine travels_still ?_ (still_ended (Or.inr (Or.inl ⟨options, rfl⟩)))
    cases h with
    | runtime what h => cases h <;> rfl
    | _ => rfl
  | inLoop loop options | failedInLoop loop options =>
    exact .quiet (still_ended (Or.inr (Or.inr (Or.inl ⟨loop, options, rfl⟩))))
  | signalled loop options output action h =>
    exact travels_signals h (still_ended (Or.inr (Or.inr (Or.inl ⟨loop, options, rfl⟩))))
  | reported loop options e what he h =>
    refine travels_still ?_ (still_ended (Or.inr (Or.inr (Or.inl ⟨loop, options, rfl⟩))))
    cases h <;> rfl
  | pushed frame h hm => exact travels_vacates hm
  | request id r =>
    unfold Travels
    rw [hback]
    exact .returned r id rest
  | inline o r => exact .answered o _ r rest (.inline r hback)
  | unleased o => exact .failed o _ rest (by simp [Thread.give])
  | onLoop o | offLoop o => exact .quiet (.exec o _ _ [] rest rfl (Or.inl rfl) rfl rfl)
  | tracked o r => exact .answered o _ r rest (.kept r)
  | worker h hm => exact travels_releases hm (still_ended (Or.inl rfl))
  | debugged | idleRun | readUnleased | handleTask | unpopped | reentrant =>
    exact .quiet (still_ended (Or.inl rfl))
  | _ => exact .quiet (.plain _ [_] rest rfl rfl)

theorem travels_unwinds {p : Panic} (hunwind : t.control = .unwind p)
    (hm : Unwinds w t rest p a m) : Travels w t (a :: rest) m := by
  cases hm with
  | pushed frame h hm => exact travels_vacates hm
  | request id =>
    unfold Travels
    rw [hunwind]
    exact .caught p id rest
  | worker h hm => exact travels_releases hm (still_ended (Or.inl rfl))
  | readWorker h read phase hm => exact travels_releases hm (still_ended (Or.inl rfl))
  | invocation | idleRun => exact .quiet (still_ended (Or.inl rfl))
  | other ha =>
    cases a with
    | exec o phase => exact .failed o phase rest (by simp [Thread.panic])
    | entering phase work => exact .lost phase work p rest
    | starting h o => exact .unstarted h o p rest
    | leased options => exact .quiet (still_ended (Or.inr (Or.inl ⟨options, rfl⟩)))
    | inLoop loop options =>
      exact .quiet (still_ended (Or.inr (Or.inr (Or.inl ⟨loop, options, rfl⟩))))
    | loop id phase => exact .quiet (still_ended (Or.inr (Or.inr (Or.inr ⟨id, phase, rfl⟩))))
    | request => cases ha
    | _ => exact .quiet (still_ended (Or.inl rfl))

theorem travels_of_moves (hm : m ∈ t.moves w k) : Travels w t t.stack m := by
  obtain ⟨a, rest, hs, hturn⟩ := turn_of_moves hm
  rw [hs]
  cases hturn with
  | goes hgo h => exact travels_goes hgo h
  | receives o hback h => exact travels_receives hback h
  | unwinds p hunwind h => exact travels_unwinds hunwind h

end Turns

theorem next_of_signal {w w' : World} {signal : Signal} (h : Signals w signal w') :
    w.exchange.Next none w'.exchange := by
  cases h with
  | accepted l hl hsignal => exact .signalled l signal hl hsignal
  | refused => exact .told w.cancelled

theorem next_of_act {w : World} {s : Clients.Step} (hs : s.atOnce = true) :
    w.exchange.Next none (Clients.act w s).2.exchange := by
  have hsame : w.exchange.Next none w.exchange := .told w.cancelled
  cases s with
  | cancel token => exact .told (token :: w.cancelled)
  | resume action => exact next_of_signal (signals_signalInnermost w _ _)
  | exitPrompt => exact next_of_signal (signals_signalInnermost w _ _)
  | popFrame =>
    simp only [Clients.act, Clients.popFrame]
    split <;> exact hsame
  | input | openGate | pause | pushFrame | unsubscribe | ticks | fault => exact hsame
  | exec | readLine | lease | drop | release | abort | dispose | pushRunspace | popRunspace =>
    cases hs

theorem next_of_drop {w : World} {k : Nat} {t : Thread} (ht : w.threads[k]? = some t)
    (hgo : t.control = .go) (hs : Suspended t.stack) :
    w.exchange.Next none (w.dropTask k).exchange := by
  have hdropped : w.exchange.Next none
      (w.exchange.setThread k { t with control := .dropped, stack := [] }) :=
    .dropped ht hs hgo _ rfl rfl
  simp only [World.dropTask, ht]
  split
  · exact hdropped
  · next o ticket id rest hstack =>
    have hrest : t.stack = [.exec o (.queued ticket id)] := by
      rw [hstack] at hs ⊢
      cases hs
      rfl
    exact .leftLine ht hrest _ rfl rfl
  · exact hdropped

theorem result_of_leaseOf {w : World} {k : Nat} {h : Handle} (hlease : w.leaseOf k = some h) :
    ∃ t, w.threads[k]? = some t ∧ t.stack = [] ∧ t.control = .back (.lease (.ok h)) := by
  unfold World.leaseOf at hlease
  split at hlease
  · next h' hresult =>
    cases hlease
    obtain ⟨t, ht, hresult⟩ := Option.bind_eq_some_iff.mp hresult
    simp only [Thread.result?, Option.ite_none_right_eq_some, List.isEmpty_iff,
      Option.some.injEq] at hresult
    exact ⟨t, ht, hresult⟩
  · cases hlease

theorem modify_eq_set {α : Type} {l : List α} {k : Nat} {a : α} (f : α → α)
    (h : l[k]? = some a) : l.modify k f = l.set k (f a) := by
  have : Inhabited α := ⟨a⟩
  rw [List.modify_eq_set, h, Option.getD_some]

theorem next_of_release (w : World) (k : Nat) :
    w.exchange.Next none (w.releaseLease k).exchange := by
  unfold World.releaseLease
  cases hlease : w.leaseOf k with
  | none => exact .told w.cancelled
  | some h =>
    obtain ⟨t, ht, hstack, -⟩ := result_of_leaseOf hlease
    have hthreads : (w.release h).1.threads = w.threads := rfl
    have hnext : w.exchange.Next none
        (w.exchange.setThread k { t with control := .dropped }) :=
      .returned ht hstack _ hstack rfl
    dsimp only
    rw [hthreads, modify_eq_set _ ht]
    exact hnext

theorem next_of_step {w w' : World} {mover : Option Nat} (h : Step w mover w') :
    w.exchange.Next mover w'.exchange := by
  cases h with
  | move hfree h =>
    obtain ⟨t, ht, m, hm, rfl⟩ := mem_next.mp h
    refine .move ht (fun hheld ⟨hgo, o, rest, hs⟩ => ?_) (travels_of_moves hm)
    have hidle := not_usesLoops_of_free hfree ht hheld
    rw [Thread.usesLoops, hgo, hs] at hidle
    cases hidle
  | call h => exact .called h
  | act h hfree => exact next_of_act h
  | drop ht hgo h => exact next_of_drop ht hgo h
  | release k => exact next_of_release w k

end ScriptHost.Service
