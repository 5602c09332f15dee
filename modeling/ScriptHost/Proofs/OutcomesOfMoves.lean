import ScriptHost.Proofs.Outcomes
import ScriptHost.Proofs.TurnsOfMoves

/-!
Every thread stays typed. An activation that goes on can end as before or in fewer manners, one
that ends does so in a manner it announced, and what it starts above itself ends in manners it is
ready for. Two things are needed from elsewhere: that a lease which is given back finds room, and,
where cancellations count, that neither the engine's faults nor a worker's reply is one.
-/

namespace ScriptHost.Service

/-- What the moves of a thread need from elsewhere. -/
structure Backed (firm : Prop) (w : World) (s : List Activation) : Prop where
  fits : ∀ h : Handle, h.lease ∈ leases s → (w.nest.release h).2 = none
  engine : firm → w.engine.Firm
  workers : firm → ∀ o worker rest r, s = .exec o (.joining worker) :: rest →
    (w.threads[worker]?.bind Thread.result?).bind workerReply? = some r → r ≠ .error .cancelled

theorem Backed.fits_top {a : Activation} (h : Backed firm w (a :: rest)) {handle : Handle}
    (ha : a.lease? = some handle.lease) : (w.nest.release handle).2 = none := by
  refine h.fits handle (Multiset.mem_coe.mpr (List.mem_filterMap.mpr ⟨a, ?_, ha⟩))
  exact List.mem_cons_self

section Turns

variable {firm : Prop} {final : Manner → Prop} {w : World} {k : Nat} {t : Thread}
  {a : Activation} {rest below : List Activation} {m : World × Thread}

theorem typed_releases {h : Handle} {t' : Thread} (hm : Releases w h t' m)
    (hfits : (w.nest.release h).2 = none) (ht' : t'.Typed firm final) : m.2.Typed firm final := by
  cases hm with
  | fit => exact ht'
  | stuck nest p hrelease =>
    rw [hrelease] at hfits
    cases hfits

/-- A stack that is ready for an order to be run above it. -/
structure Ready (firm : Prop) (final : Manner → Prop) (below : List Activation) : Prop where
  typed : Typed firm final below
  result : Takes final below .result
  panic : Takes final below .panic

/-- What is run there ends with a result or a panic. -/
theorem Ready.push {below : List Activation} (h : Ready firm final below) (a : Activation)
    (ha : a.yields = [.result, .panic]) (hrests : a.Rests firm below) :
    Typed firm final (a :: below) := by
  refine h.typed.push a ?_ hrests
  intro manner hmem
  rw [ha] at hmem
  rcases List.mem_pair.mp hmem with rfl | rfl
  · exact h.result
  · exact h.panic

theorem ready_request {id : Nat} (h : Typed firm final (.request id :: rest)) :
    Ready firm final (.request id :: rest) :=
  ⟨h, takes_of_mem (by simp) rfl, takes_of_mem (by simp) rfl⟩

theorem typed_submits {invoker : Nat} {o : Order} (h : Ready firm final below)
    (hengine : firm → w.engine.Firm) (hm : Submits w t below invoker o m) :
    m.2.Typed firm final := by
  have hleased := h.push (.leased o.options) rfl trivial
  cases hm with
  | refused e engine hfault =>
    refine ⟨hleased, Or.inr (Or.inr ⟨.evaluated, ⟨_, rfl, fun hfirm heq => ?_⟩, ?_⟩)⟩
    · exact (hengine hfirm).ne_cancelled (Or.inl rfl) hfault (Except.error.inj heq)
    · exact takes_of_mem (by simp) rfl
  | begun engine i hfault hinvoke =>
    have hclean : i.Clean firm := by
      have hinvoked : (w.engine.invoke (w.nest.info invoker) (o.command.prepared o.options)
          o.options.addToHistory (t.depth == 0)).2.Clean firm := Invocation.clean_invoke _ _ _ _
      rwa [hinvoke] at hinvoked
    exact ⟨hleased.above _ (List.Subset.refl _) rfl hclean, Or.inl rfl⟩

theorem clean_of_debuggerCommand {e engine : Engine} {frame : FrameInfo} {c : Command}
    {outermost : Bool} {i : Invocation}
    (h : e.debuggerCommand frame c outermost = (engine, .invocation i)) : i.Clean firm := by
  unfold Engine.debuggerCommand at h
  dsimp only at h
  split at h <;> cases h
  exact Invocation.clean_invoke _ _ _ _

theorem typed_obeys {l : MessageLoop} {o : Order} (h : Ready firm final below)
    (hengine : firm → w.engine.Firm) (hm : Obeys w t below l o m) : m.2.Typed firm final := by
  have hinLoop := h.push (.inLoop l.id o.options) rfl trivial
  have htakes : Takes final (.inLoop l.id o.options :: below) .debugged :=
    takes_of_mem (by simp) rfl
  cases hm with
  | forbidden =>
    exact ⟨h.typed, Or.inr (Or.inr ⟨.result, ⟨_, rfl, by simp [Operations.refusal]⟩, h.result⟩)⟩
  | refused e engine hkind hfault =>
    refine ⟨hinLoop, Or.inr (Or.inr ⟨.debugged, ⟨_, rfl, fun hfirm heq => ?_⟩, htakes⟩)⟩
    exact (hengine hfirm).ne_cancelled (Or.inr rfl) hfault (Except.error.inj heq)
  | resumed => exact ⟨hinLoop, Or.inr (Or.inr ⟨.debugged, ⟨_, rfl, by simp⟩, htakes⟩)⟩
  | begun engine i hkind hfault hcommand =>
    have hcommanding := hinLoop.above .debuggerCommand (List.Subset.refl _) rfl trivial
    exact ⟨hcommanding.above _ (List.Subset.refl _) rfl (clean_of_debuggerCommand hcommand),
      Or.inl rfl⟩
  | entered => exact .go (h.push _ rfl trivial)

/-- Below a frame pushed for an order its end is waited for. -/
theorem ready_pushed {frame : Nat} {h : Handle} {phase : EnterPhase} {o : Order}
    (ht : Typed firm final (.entering phase (.order o) :: rest)) :
    Ready firm final (.pushed frame h .looking :: rest) := by
  have hresult : Takes final rest .result := ht.1 .result (by simp)
  have hpanic : Takes final rest .panic := ht.1 .panic (by simp)
  refine ⟨ht.2.2.push _ (by simp) trivial, ?_, ?_⟩
  · simpa [Takes, Activation.handsOn] using hresult
  · simpa [Takes, Activation.handsOn] using hpanic

/-- A request catches a panic, so that its pushed frame hands on its end only. -/
theorem ready_requested {frame : Nat} {h : Handle} {phase : EnterPhase} {r : Request}
    (ht : Typed firm final (.entering phase (.request r) :: rest)) :
    Ready firm final (.request r.id :: .pushed frame h .looking :: rest) := by
  have hunit : Takes final rest .unit := ht.1 .unit (by simp)
  have hpushed : Typed firm final (.pushed frame h .looking :: rest) :=
    ht.2.2.push _ (by simp) trivial
  refine ready_request (hpushed.push _ ?_ trivial)
  simpa [Takes, Activation.handsOn] using hunit

/-- A worker hands on the end of its order. -/
theorem ready_worker {h : Handle} {o : Order}
    (ht : Typed firm final (.starting h o :: rest)) : Ready firm final (.worker h :: rest) := by
  have hresult : Takes final rest .result := ht.1 .result (by simp)
  have hpanic : Takes final rest .panic := ht.1 .panic (by simp)
  exact ⟨ht.2.2.push _ (by simp) trivial, ⟨by simp, fun _ => hresult⟩,
    ⟨by simp, fun _ => hpanic⟩⟩

/-- A pushed frame hands on what it was given. -/
theorem typed_vacates {frame : Nat} {h : Handle} {phase : RoomPhase} (ht : t.Typed firm final)
    (hs : t.stack = .pushed frame h phase :: rest)
    (hgiven : ∃ manner, t.control.Brings firm manner ∧ Takes final t.stack manner)
    (hfits : (w.nest.release h).2 = none) (hm : Vacates w t rest frame h phase m) :
    m.2.Typed firm final := by
  have hstack := ht.stack
  obtain ⟨manner, hbrings, htakes⟩ := hgiven
  rw [hs] at hstack htakes
  cases hm with
  | innermost | covered | popped =>
    exact ⟨hstack.2.2.push _ (by simp) trivial, Or.inr (Or.inr ⟨manner, hbrings, htakes⟩)⟩
  | released hm =>
    exact typed_releases hm hfits
      ⟨hstack.2.2, Or.inr (Or.inr ⟨manner, hbrings, htakes.2 rfl⟩)⟩

theorem typed_picks {b : Activation} (hm : Picks w t (b :: below) m)
    (h : Typed firm final (b :: below)) (hunit : .unit ∈ b.takes) (hown : b.handsOn = false)
    (hrests : Activation.idleRun.Rests firm (b :: below)) : m.2.Typed firm final := by
  cases hm with
  | found =>
    have hidle := h.above .idleRun (by simpa using hunit) hown hrests
    exact .go (hidle.above _ (List.Subset.refl _) rfl trivial)
  | nothing => exact .go h

theorem typed_calls {i : Invocation} {c : HostCall} (hc : c ≠ .idle)
    (h : Typed firm final (.invocation i :: rest)) (hm : Calls w k t (.invocation i :: rest) c m) :
    m.2.Typed firm final := by
  cases hm with
  | followed | wrote | wroteError | updated | exited => exact .go h
  | held | stopped | prompted => exact .go (h.above _ (by simp) rfl trivial)
  | reentered =>
    have hentrant := h.above .reentrant (by simp) rfl trivial
    exact .go (hentrant.above _ (List.Subset.refl _) rfl trivial)
  | crashed line p =>
    exact ⟨h, Or.inr (Or.inr ⟨.panic, ⟨p, rfl⟩, takes_of_mem (by simp) rfl⟩)⟩
  | idled => exact absurd rfl hc

theorem typed_onward {a' : Activation} (h : Typed firm final (a :: rest)) (hm : Onward w a a') :
    Typed firm final (a' :: rest) := by
  cases hm with
  | exec o hnext => cases hnext <;> exact h.replace (List.Subset.refl _) trivial
  | unleased frame work | innermost frame work | covered frame work =>
    cases work <;> exact h.replace (List.Subset.refl _) trivial
  | waited | ticked => exact h.replace (List.Subset.refl _) h.2.1
  | unknown => exact h.replace (by simp) trivial
  | _ => exact h.replace (List.Subset.refl _) trivial

theorem typed_ended {o : Outcome} (h : Typed firm final (a :: rest)) (hm : Ends w a o) :
    (t.give rest o).Typed firm final := by
  cases hm with
  | refused | cancelled | replied | joined => exact .ended h .reply (by simp) rfl ⟨_, rfl⟩
  | readRefused | readJoined | readPanicked => exact .ended h .line (by simp) rfl ⟨_, rfl⟩
  | readCancelled => exact .ended h .read (by simp) rfl ⟨_, rfl⟩
  | leaseRefused => exact .ended h (.lease false) (by simp) rfl ⟨_, rfl, by simp⟩
  | unpushed | framed | unpopped | noRunspace => exact .ended h .popped (by simp) rfl ⟨_, rfl⟩
  | _ => exact .ended h .unit (by simp) rfl rfl

theorem typed_goes (h : Typed firm final (a :: rest)) (hbacked : Backed firm w (a :: rest))
    (hm : Goes w k t rest a m) : m.2.Typed firm final := by
  have hgo : ∀ a', a'.yields ⊆ a.yields → a'.Rests firm rest →
      Typed firm final (a' :: rest) := fun a' => h.replace
  have hclean : ∀ {i : Invocation} {engine : Engine} {move : Move}, a = .invocation i →
      i.step w.engine = (engine, move) → Invocation.CleanMove firm move := by
    rintro i engine move rfl hstep
    have hmoved := Invocation.cleanMove_step (e := w.engine) h.2.1
    rwa [hstep] at hmoved
  have hdirect : ∀ {o : Order} {phase : ExecPhase}, a = .exec o phase →
      (direct t rest o).Typed firm final := by
    rintro o phase rfl
    have hleasing := hgo (.exec o .leasing) (List.Subset.refl _) trivial
    exact .go (hleasing.above _ (List.Subset.refl _) rfl trivial)
  cases hm with
  | onward hnext => exact .go (typed_onward h hnext)
  | ended hend => exact typed_ended h hend
  | advanced i i' engine hstep => exact .go (hgo _ (List.Subset.refl _) (hclean rfl hstep))
  | slept i i' ms engine hstep => exact .go (hgo _ (List.Subset.refl _) (hclean rfl hstep))
  | called i i' c engine hstep hm =>
    obtain ⟨hcall, hnext⟩ := hclean rfl hstep
    exact typed_calls hcall (hgo (.invocation i') (List.Subset.refl _) hnext) hm
  | finished i r engine hstep =>
    exact .ended h .evaluated (by simp) rfl ⟨r, rfl, hclean rfl hstep⟩
  | crashed | basePopped | underflowed => exact .ended h .panic (by simp) rfl ⟨_, rfl⟩
  | pushed work => cases work <;> exact .go (hgo _ (List.Subset.refl _) trivial)
  | enteredRequest frame r handle nest hlease hm =>
    exact typed_submits (w := { w with nest }) (ready_requested h) hbacked.engine hm
  | enteredOrder frame o handle nest hlease hm =>
    exact typed_submits (w := { w with nest }) (ready_pushed h) hbacked.engine hm
  | leftUnused frame work => cases work <;> exact .go (hgo _ (List.Subset.refl _) trivial)
  | abandoned r => exact .ended h .unit (by simp) rfl rfl
  | unhandled o => exact .ended h .result (by simp) rfl ⟨_, rfl, by simp⟩
  | @taken l r requests phase next _ hl hr hphase hcancelled hm =>
    have hrequest := (hgo (.loop l.id next) (List.Subset.refl _) trivial).above (.request r.id)
      (List.Subset.refl _) rfl trivial
    exact typed_obeys (w := w.updateLoop l.id _) (ready_request hrequest) hbacked.engine hm
  | closedCovered l signal hl hr htop hm | closed l signal hl hm =>
    cases hm with
    | debugger => exact .go (hgo _ (List.Subset.refl _) trivial)
    | prompt => exact .ended h .unit (by simp) rfl rfl
  | stayed | resumed => exact .ended h .action (by simp) rfl ⟨_, rfl⟩
  | failed token forReading =>
    exact .ended h (.lease forReading) (by simp) rfl ⟨_, rfl, by simp⟩
  | leased token forReading =>
    refine .ended h (.lease forReading) (by simp) rfl ⟨_, rfl, ?_⟩
    rintro handle ⟨rfl⟩
    rfl
  | inlined o l loops hl hself hm =>
    have hinline := hgo (.exec o .inline) (List.Subset.refl _) trivial
    exact typed_obeys ⟨hinline, takes_of_mem (by simp) rfl, takes_of_mem (by simp) rfl⟩
      hbacked.engine hm
  | remote | vacant | interrupted | reclaimed => exact hdirect rfl
  | turnedAway | gaveUp | withdrawn => exact .ended h .reply (by simp) rfl ⟨_, rfl⟩
  | unowned o handle hm =>
    exact typed_releases hm (hbacked.fits_top rfl) (.ended h .reply (by simp) rfl ⟨_, rfl⟩)
  | rerouted o handle hm =>
    exact typed_releases hm (hbacked.fits_top rfl) (.go (hgo _ (List.Subset.refl _) trivial))
  | joined o worker r hr htrack =>
    have hfinishing := hgo (.exec o (.finishing r)) (List.Subset.refl _)
      fun hfirm => hbacked.workers hfirm o worker rest r rfl hr
    exact .go (hfinishing.above _ (List.Subset.refl _) rfl trivial)
  | readAsked token =>
    exact .go ((hgo (.readTask token .leasing) (List.Subset.refl _) trivial).above _
      (List.Subset.refl _) rfl trivial)
  | lineRead => exact .ended h .read (by simp) rfl ⟨_, rfl⟩
  | tickRan read hticks hcause hidle hm =>
    exact typed_picks hm (hgo _ (List.Subset.refl _) h.2.1) (by simp) rfl (Or.inl ⟨_, _, _, rfl⟩)
  | readBegun handle read =>
    exact .go ((hgo (.readWorker handle read .reading) (List.Subset.refl _) trivial).above _
      (List.Subset.refl _) rfl ⟨_, _, rfl⟩)
  | drained handle read r hm =>
    exact typed_picks hm (hgo _ (List.Subset.refl _) trivial) (by simp) rfl
      (Or.inr ⟨_, _, _, _, rfl⟩)
  | readReleased handle read r hm =>
    exact typed_releases hm (hbacked.fits_top rfl) (.ended h .read (by simp) rfl ⟨_, rfl⟩)
  | leaseAsked token =>
    exact .go ((hgo (.handleTask token true) (List.Subset.refl _) trivial).above _
      (List.Subset.refl _) rfl trivial)
  | started handle o hm => exact typed_submits (ready_worker h) hbacked.engine hm
  | pushPublished | unpolled | abortInterrupted | readsInterrupted =>
    exact .ended h .unit (by simp) rfl rfl
  | popPublished => exact .ended h .popped (by simp) rfl ⟨_, rfl⟩
  | unwinding keep reason =>
    exact .go ((hgo (.track (.popping keep reason)) (List.Subset.refl _) trivial).above _
      (List.Subset.refl _) rfl trivial)
  | _ => exact .go (hgo _ (List.Subset.refl _) trivial)

theorem ofEngine_ne_cancelled {e : EngineError} (h : e ≠ .cancelled) :
    ExecutionError.ofEngine e ≠ .cancelled := by
  cases e <;> simp_all [ExecutionError.ofEngine]

theorem Completes.ne_cancelled {options : Options} {r : Evaluation} {w' : World} {reply : Reply}
    (h : Completes w options r w' reply) (hr : firm → r ≠ .error .cancelled) :
    firm → reply ≠ .error .cancelled := by
  intro hfirm
  cases h with
  | ok | runtime => simp
  | failed e =>
    intro heq
    exact ofEngine_ne_cancelled (fun he => hr hfirm (congrArg _ he)) (Except.error.inj heq)

theorem typed_receives {o : Outcome} (ht : t.Typed firm final) (hs : t.stack = a :: rest)
    (hc : t.control = .back o) (hbacked : Backed firm w (a :: rest))
    (hm : Receives w t rest o a m) : m.2.Typed firm final := by
  have h := ht.stack
  have hgiven := ht.given (by simp [hc]) (by simp [hc])
  obtain ⟨manner, hbrings, htakes⟩ := id hgiven
  rw [hs] at h htakes
  rw [hc] at hbrings
  have hmem := htakes.1
  have hgo : ∀ a', a'.yields ⊆ a.yields → a'.Rests firm rest →
      Typed firm final (a' :: rest) := fun a' => h.replace
  cases hm with
  | resumed i i' action engine hresume =>
    have hclean : i'.Clean firm := by
      have hresumed : (i.resume w.engine action).2.Clean firm := Invocation.clean_resume action
      rwa [hresume] at hresumed
    exact .go (hgo _ (List.Subset.refl _) hclean)
  | invocation | reading | drained | popped => exact .go h
  | debugged r =>
    rcases List.mem_pair.mp hmem with rfl | rfl
    · obtain ⟨r', ⟨rfl⟩, hr⟩ := hbrings
      refine .ended h .debugged (by simp) rfl ⟨_, rfl, fun hfirm heq => ?_⟩
      cases r with
      | ok output => cases heq
      | error e => exact hr hfirm (congrArg _ (Except.error.inj heq))
    · obtain ⟨p, hp⟩ := hbrings
      cases hp
  | leased options r hcompletes =>
    rcases List.mem_pair.mp hmem with rfl | rfl
    · obtain ⟨r', ⟨rfl⟩, hr⟩ := hbrings
      exact .ended h .result (by simp) rfl ⟨_, rfl, hcompletes.ne_cancelled hr⟩
    · obtain ⟨p, hp⟩ := hbrings
      cases hp
  | inLoop | signalled | reported => exact .ended h .result (by simp) rfl ⟨_, rfl, by simp⟩
  | failedInLoop loop options e he =>
    rcases List.mem_pair.mp hmem with rfl | rfl
    · obtain ⟨r', ⟨rfl⟩, hr⟩ := hbrings
      refine .ended h .result (by simp) rfl ⟨_, rfl, fun hfirm heq => ?_⟩
      exact ofEngine_ne_cancelled (fun he => hr hfirm (congrArg _ he)) (Except.error.inj heq)
    · obtain ⟨p, hp⟩ := hbrings
      cases hp
  | pushed frame handle hm => exact typed_vacates ht hs hgiven (hbacked.fits_top rfl) hm
  | request | idleRun | unpopped | reentrant => exact .ended h .unit (by simp) rfl rfl
  | inline | unleased | tracked => exact .ended h .reply (by simp) rfl ⟨_, rfl⟩
  | readUnleased => exact .ended h .line (by simp) rfl ⟨_, rfl⟩
  | handleTask token asked =>
    cases asked with
    | true =>
      obtain rfl := List.mem_singleton.mp hmem
      exact .ended h (.lease false) (by simp) rfl hbrings
    | false => cases hmem
  | worker handle hm =>
    exact typed_releases hm (hbacked.fits_top rfl)
      ⟨h.2.2, Or.inr (Or.inr ⟨manner, hc ▸ hbrings, htakes.2 rfl⟩)⟩
  | _ => exact .go (hgo _ (List.Subset.refl _) trivial)

theorem typed_unwinds {p : Panic} (ht : t.Typed firm final) (hs : t.stack = a :: rest)
    (hc : t.control = .unwind p) (hbacked : Backed firm w (a :: rest))
    (hm : Unwinds w t rest p a m) : m.2.Typed firm final := by
  have h := ht.stack
  have hgiven := ht.given (by simp [hc]) (by simp [hc])
  have htakes := ht.takes_panic hs hc
  rw [hs] at h
  have hmem := htakes.1
  cases hm with
  | invocation => exact .ended h .panic (by simp) rfl ⟨p, rfl⟩
  | pushed frame handle hm => exact typed_vacates ht hs hgiven (hbacked.fits_top rfl) hm
  | request => exact .ended h .unit (by simp) rfl rfl
  | idleRun => simp at hmem
  | worker handle hm =>
    exact typed_releases hm (hbacked.fits_top rfl)
      ⟨h.2.2, Or.inr (Or.inr ⟨.panic, ⟨p, rfl⟩, htakes.2 rfl⟩)⟩
  | readWorker handle read phase => cases phase <;> simp at hmem
  | other ha =>
    refine .ended h .panic ?_ rfl ⟨p, rfl⟩
    cases a with
    | exec o phase => simp
    | readTask token phase => cases phase <;> simp at hmem
    | handleTask token asked => cases asked <;> simp at hmem
    | _ => simp_all [Activation.cleansUp]

theorem typed_of_moves (ht : t.Typed firm final) (hbacked : Backed firm w t.stack)
    (hm : m ∈ t.moves w k) : m.2.Typed firm final := by
  obtain ⟨a, rest, hs, hturn⟩ := turn_of_moves hm
  cases hturn with
  | goes hgo h => exact typed_goes (hs ▸ ht.stack) (hs ▸ hbacked) h
  | receives o hback h => exact typed_receives ht hs hback (hs ▸ hbacked) h
  | unwinds p hunwind h => exact typed_unwinds ht hs hunwind (hs ▸ hbacked) h

end Turns

section Runs

variable {firm : Prop} {final : Manner → Prop} {w w' : World} {k : Nat} {t t' : Thread}

/-- Every lease that a thread holds finds room when it is given back. -/
theorem release_fits_of_leased (h : w.Leased) (ht : w.threads[k]? = some t) {handle : Handle}
    (hmem : handle.lease ∈ leases t.stack) : (w.nest.release handle).2 = none := by
  obtain ⟨lost, left, haccounted⟩ := h.accounted
  obtain ⟨others, hheld, -⟩ := exists_others (f := fun _ t => t.held) ht
  have hin : handle.lease ∈ w.held + lost := by
    rw [World.held, hheld, Thread.held]
    simp only [Multiset.mem_add]
    exact Or.inl (Or.inl (Or.inl hmem))
  obtain ⟨live, hlive⟩ := Multiset.exists_cons_of_mem hin
  rw [hlive] at haccounted
  exact haccounted.release.2

theorem typed_of_newly (h : Exchange.Newly t)
    (hfinal : ∀ a, t.stack = [a] → ∀ manner ∈ a.yields, final manner) : t.Typed firm final := by
  refine ⟨?_, ?_⟩
  · cases h with
    | called hentry => cases hentry <;> exact ⟨hfinal _ rfl, trivial, trivial⟩
    | reader handle read => exact ⟨hfinal _ rfl, trivial, trivial⟩
    | worker handle o => exact ⟨hfinal _ rfl, trivial, trivial⟩
  · cases h <;> exact Or.inl rfl

/-- How a thread that is there after a step came to be as it is: it was so before, it moved,
it was started, it was given up while it waited, or the lease it had left was given back. -/
inductive ThreadAfter (w : World) (w' : World) (k : Nat) (t' : Thread) : Prop
  | same (ht : w.threads[k]? = some t')
  | moved {t : Thread} {m : World × Thread} (ht : w.threads[k]? = some t) (hm : m ∈ t.moves w k)
      (ht' : t' = m.2) (hw' : w' = { m.1 with threads := m.1.threads.set k m.2 })
  | started (h : Exchange.Newly t') (hk : w.threads.length ≤ k)
  | dropped {t : Thread} (ht : w.threads[k]? = some t) (hgo : t.control = .go)
      (hs : Suspended t.stack) (hs' : t'.stack = []) (hc' : t'.control = .dropped)
  | returned {t : Thread} {h : Handle} (ht : w.threads[k]? = some t) (hs : t.stack = [])
      (hc : t.control = .back (.lease (.ok h))) (hs' : t'.stack = []) (hc' : t'.control = .dropped)

theorem getElem?_of_set {threads : List Thread} {j : Nat} {t t₁ : Thread}
    (h : threads[j]? = some t) (ht' : (threads.set j t₁)[k]? = some t') :
    k = j ∧ t' = t₁ ∨ threads[k]? = some t' := by
  by_cases hkj : k = j
  · rw [hkj, List.getElem?_set_self (List.getElem?_eq_some_iff.mp h).1] at ht'
    exact Or.inl ⟨hkj, (Option.some.inj ht').symm⟩
  · rw [List.getElem?_set_ne (Ne.symm hkj)] at ht'
    exact Or.inr ht'

theorem thread_after {mover : Option Nat} (hstep : Step w mover w')
    (ht' : w'.threads[k]? = some t') : ThreadAfter w w' k t' := by
  cases hstep with
  | @move j _ hfree hmove =>
    obtain ⟨t, ht, m, hm, rfl⟩ := mem_next.mp hmove
    obtain ⟨a, rest, hs, new, started, hlocal⟩ := local_of_moves hm
    have hthere : m.1.threads[j]? = some t := by
      rw [hlocal.threads_eq, List.getElem?_append_left (List.getElem?_eq_some_iff.mp ht).1, ht]
    rcases getElem?_of_set hthere ht' with ⟨rfl, heq⟩ | ht'
    · exact .moved ht hm heq rfl
    · rw [hlocal.threads_eq] at ht'
      by_cases hlt : k < w.threads.length
      · rw [List.getElem?_append_left hlt] at ht'
        exact .same ht'
      · rw [List.getElem?_append_right (Nat.le_of_not_lt hlt)] at ht'
        exact .started (newly_of_started hm hlocal t' (List.mem_of_getElem? ht'))
          (Nat.le_of_not_lt hlt)
  | call hentry =>
    rcases Exchange.getElem?_append_new ht' with ht' | ⟨rfl, rfl⟩
    · exact .same ht'
    · exact .started (.called hentry) (le_refl _)
  | act hs =>
    rw [(client_of_act hs).threads_same] at ht'
    exact .same ht'
  | @drop j t ht hgo hsuspended =>
    rw [(dropTask_spec ht).2.2] at ht'
    rcases getElem?_of_set ht ht' with ⟨rfl, rfl⟩ | ht'
    · exact .dropped ht hgo hsuspended rfl rfl
    · exact .same ht'
  | release j =>
    rcases releaseLease_spec w j with hsame | ⟨t, handle, ht, hs, hc, -, -, -, hthreads⟩
    · rw [hsame] at ht'
      exact .same ht'
    · rw [hthreads] at ht'
      rcases getElem?_of_set ht ht' with ⟨rfl, rfl⟩ | ht'
      · exact .returned ht hs hc hs rfl
      · exact .same ht'

/-- A thread that was there before a step is typed after it if it was. -/
theorem typed_of_after (hleased : w.Leased) (hafter : ThreadAfter w w' k t')
    (hold : k < w.threads.length)
    (hbacked : ∀ t, w.threads[k]? = some t →
      (∀ h : Handle, h.lease ∈ leases t.stack → (w.nest.release h).2 = none) →
      Backed firm w t.stack)
    (htyped : ∀ t, w.threads[k]? = some t → t.Typed firm final) : t'.Typed firm final := by
  have hempty : t'.stack = [] → t'.control = .dropped → t'.Typed firm final := by
    intro hs hc
    exact ⟨hs ▸ trivial, Or.inr (Or.inl ⟨hc, hs⟩)⟩
  cases hafter with
  | same ht => exact htyped t' ht
  | moved ht hm heq hw' =>
    rw [heq]
    exact typed_of_moves (htyped _ ht)
      (hbacked _ ht fun h => release_fits_of_leased hleased ht) hm
  | started h hk => exact absurd hold (Nat.not_lt.mpr hk)
  | dropped ht hgo hs hs' hc' => exact hempty hs' hc'
  | returned ht hs hc hs' hc' => exact hempty hs' hc'

/-- Threads stay typed, and those that are started are. None ends with a lease for reading. -/
theorem typed_of_step {mover : Option Nat} (hleased : w.Leased) (hstep : Step w mover w')
    (hbacked : ∀ (k : Nat) (t : Thread), w.threads[k]? = some t →
      (∀ h : Handle, h.lease ∈ leases t.stack → (w.nest.release h).2 = none) →
      Backed firm w t.stack)
    (htyped : ∀ (k : Nat) (t : Thread), w.threads[k]? = some t →
      t.Typed firm (· ≠ .lease true))
    (ht' : w'.threads[k]? = some t') : t'.Typed firm (· ≠ .lease true) := by
  have hafter := thread_after hstep ht'
  by_cases hold : k < w.threads.length
  · exact typed_of_after hleased hafter hold (hbacked k) (htyped k)
  · cases hafter with
    | started hnewly hk =>
      refine typed_of_newly hnewly fun a hs manner hmem => ?_
      rintro rfl
      cases hnewly with
      | called hentry => cases hentry <;> cases hs <;> simp at hmem
      | reader handle read =>
        cases hs
        simp at hmem
      | worker handle o =>
        cases hs
        simp at hmem
    | same ht | moved ht | dropped ht | returned ht =>
      exact absurd (List.getElem?_eq_some_iff.mp ht).1 hold

/-- Every thread is typed in every world that a run comes to. -/
theorem typed_of_run {past : List Transition} (h : Run past w) (ht : w.threads[k]? = some t) :
    t.Typed False (· ≠ .lease true) := by
  induction h generalizing k t with
  | start hactive hpeak h =>
    rw [(fresh_of_start h).threads] at ht
    cases ht
  | @step past w w' mover h hstep ih =>
    exact typed_of_step (leased_of_run h) hstep
      (fun k t _ hfits => ⟨hfits, False.elim, False.elim⟩) (fun k t => ih) ht

section Stays

variable {m : World × Thread} {a b : Activation} {rest : List Activation}

/-- The thread that moved is there after its move. -/
theorem mem_threads_of_moved (ht : w.threads[k]? = some t) (hm : m ∈ t.moves w k) :
    m.2 ∈ m.1.threads.set k m.2 :=
  List.mem_of_getElem? (thread_of_moves ht hm)

/-- What is not innermost stays where it is. -/
theorem mem_stack_of_moved (hm : m ∈ t.moves w k) (hb : b ∈ t.stack)
    (hinner : ∀ rest, t.stack ≠ b :: rest) : b ∈ m.2.stack := by
  obtain ⟨a, rest, hs, new, started, hlocal⟩ := local_of_moves hm
  rw [hlocal.stack_eq]
  rw [hs] at hb
  rcases List.mem_cons.mp hb with rfl | hb
  · exact absurd hs (hinner rest)
  · exact List.mem_append_right new hb

/-- What is not the activation that moves is there after the move. -/
theorem stays_of_moved (ht : w.threads[k]? = some t) (hs : t.stack = a :: rest)
    (hm : m ∈ t.moves w k) (hne : b ≠ a) {t₀ : Thread} (ht₀ : t₀ ∈ w.threads)
    (hb : b ∈ t₀.stack) : ∃ t' ∈ m.1.threads.set k m.2, b ∈ t'.stack := by
  obtain ⟨j, hj⟩ := List.mem_iff_getElem?.mp ht₀
  by_cases hjk : j = k
  · subst hjk
    rw [ht] at hj
    cases hj
    refine ⟨m.2, mem_threads_of_moved ht hm, mem_stack_of_moved hm hb fun rest' hs' => ?_⟩
    rw [hs] at hs'
    exact hne (List.cons.inj hs').1.symm
  · obtain ⟨a₀, rest₀, -, new, started, hlocal⟩ := local_of_moves hm
    refine ⟨t₀, List.mem_of_getElem? (i := j) ?_, hb⟩
    rw [List.getElem?_set_ne (Ne.symm hjk), hlocal.threads_eq,
      List.getElem?_append_left (List.getElem?_eq_some_iff.mp hj).1, hj]

end Stays

end Runs

end ScriptHost.Service
