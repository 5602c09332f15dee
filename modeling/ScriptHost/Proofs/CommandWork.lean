import ScriptHost.Proofs.EngineSessions
import ScriptHost.Proofs.TurnsOfMoves

/-!
What a command does while it is at work alone: its console runs no scripts, nobody posts to its
message loops, and nothing is parked in the idle slot. Its thread then does nothing but to go on
with the one invocation and to wait in the loops that this opens. Neither the runspaces that the
service knows nor its threads change, and the engine only enters and leaves sessions.
-/

namespace ScriptHost.Service

/-- The activations of a command that is at work alone. -/
def Activation.atWork : Activation → Bool
  | .invocation _ | .leased _ | .loop _ _ | .starting _ _ | .worker _ | .held _ => true
  | _ => false

/-- What a command at work does not change. -/
def World.setting (w : World) :
    Config × Runspace × List Runspace × Bool × IdleSlot Request × List Thread :=
  (w.config, w.baseRunspace, w.pushed, w.baseGone, w.slot, w.threads)

/-- The same with the loops and the engine. -/
def World.workplace (w : World) :
    (Config × Runspace × List Runspace × Bool × IdleSlot Request × List Thread) ×
      List MessageLoop × Engine :=
  (w.setting, w.loops, w.engine)

/-- Nothing is posted to a loop. -/
def World.Unposted (w : World) : Prop :=
  ∀ l ∈ w.loops, l.requests = []

/-- A move of a command that is at work alone. -/
structure Toils (w : World) (m : World × Thread) : Prop where
  stack : m.2.stack.all Activation.atWork = true
  setting : m.1.setting = w.setting
  unposted : m.1.Unposted
  engine : ∀ base, w.engine.Numbered base → m.1.engine.Numbered base

section Moves

variable {w w' : World} {k : Nat} {t : Thread} {a : Activation} {rest : List Activation}
  {m : World × Thread}

theorem workplace_iff : w'.workplace = w.workplace ↔
    w'.setting = w.setting ∧ w'.loops = w.loops ∧ w'.engine = w.engine := by
  simp only [World.workplace, Prod.mk.injEq]

theorem Toils.still (hposted : w.Unposted) (hw : m.1.workplace = w.workplace)
    (hs : m.2.stack.all Activation.atWork = true) : Toils w m := by
  obtain ⟨hsetting, hloops, hengine⟩ := workplace_iff.mp hw
  refine ⟨hs, hsetting, fun l hl => hposted l ?_, fun base h => ?_⟩
  · rw [← hloops]
    exact hl
  · rwa [hengine]

@[simp] theorem workplace_changeSession (w : World) (c : Session × Option SessionChange) :
    (w.changeSession c).workplace = w.workplace := by
  rcases c with ⟨session, _ | change⟩ <;> rfl

theorem unposted_updateLoop {f : MessageLoop → MessageLoop} (h : w.Unposted) (id : Nat)
    (hf : ∀ l, (f l).requests = l.requests) : (w.updateLoop id f).Unposted := by
  intro l hl
  obtain ⟨l', hl', rfl⟩ := List.mem_map.mp hl
  split
  · rw [hf, h l' hl']
  · exact h l' hl'

theorem unposted_signals {signal : Signal} (hposted : w.Unposted) (h : Signals w signal w') :
    w'.Unposted := by
  cases h with
  | accepted l => exact unposted_updateLoop hposted _ fun _ => rfl
  | refused => exact hposted

theorem toils_closes {l : MessageLoop} {signal : Signal} (hposted : w.Unposted)
    (hs : rest.all Activation.atWork = true) (hm : Closes w t rest l signal m) : Toils w m := by
  have hfiltered : (w.closeLoop l).Unposted := fun l' hl' =>
    hposted l' (List.mem_filter.mp hl').1
  cases hm <;> exact ⟨hs, rfl, hfiltered, fun _ h => h⟩

theorem toils_releases {h : Handle} {t' : Thread} (hposted : w.Unposted)
    (hs : t'.stack.all Activation.atWork = true) (hm : Releases w h t' m) : Toils w m := by
  cases hm <;> exact .still hposted rfl hs

theorem toils_submits {invoker : Nat} {o : Order} (hposted : w.Unposted)
    (hs : rest.all Activation.atWork = true) (hm : Submits w t rest invoker o m) : Toils w m := by
  cases hm with
  | refused e engine hfault => exact ⟨hs, rfl, hposted, fun _ h => h.takeFault hfault⟩
  | begun engine i hfault hinvoke =>
    refine ⟨hs, rfl, hposted, fun base h => ?_⟩
    have hnumbered := h.invoke (w.nest.info invoker) (o.command.prepared o.options)
      o.options.addToHistory (t.depth == 0)
    rwa [hinvoke] at hnumbered

theorem toils_calls {s : List Activation} {c : HostCall} (hposted : w.Unposted)
    (hslot : w.slot = {}) (hconsole : ∀ line script, w.config.console line ≠ .run script)
    (hs : s.all Activation.atWork = true) (hm : Calls w k t s c m) : Toils w m := by
  cases hm with
  | followed => exact .still hposted (workplace_changeSession w _) hs
  | reentered line script h => exact absurd h (hconsole line script)
  | stopped | prompted =>
    exact ⟨hs, rfl, List.forall_mem_cons.mpr ⟨rfl, hposted⟩, fun _ h => h⟩
  | exited h =>
    refine ⟨hs, ?_, unposted_signals hposted h, fun base hbase => ?_⟩
    · cases h <;> rfl
    · cases h <;> exact hbase
  | idled hm =>
    cases hm with
    | found id r h =>
      rw [hslot] at h
      cases h
    | nothing => exact .still hposted rfl hs
  | _ => exact .still hposted rfl hs

theorem toils_goes (hposted : w.Unposted) (hslot : w.slot = {})
    (hconsole : ∀ line script, w.config.console line ≠ .run script) (ha : a.atWork = true)
    (hs : rest.all Activation.atWork = true) (hm : Goes w k t rest a m) : Toils w m := by
  have hengine : ∀ {i : Invocation} {engine : Engine} {move : Move},
      i.step w.engine = (engine, move) →
      ∀ base, w.engine.Numbered base → engine.Numbered base := by
    intro i engine move heq base h
    have hnumbered := Invocation.numbered_step h i
    rwa [heq] at hnumbered
  have hempty : ∀ {l : MessageLoop}, w.findLoop l.id = some l → l.requests = [] := fun hl =>
    hposted _ (List.mem_of_find?_eq_some hl)
  cases hm with
  | onward hnext =>
    cases hnext with
    | pumped | emptied | refilled => exact .still hposted rfl hs
    | _ => cases ha
  | ended hend =>
    cases hend with
    | gateOpened => exact .still hposted rfl hs
    | _ => cases ha
  | advanced i i' engine hstep => exact ⟨hs, rfl, hposted, hengine hstep⟩
  | slept i i' ms engine hstep => exact ⟨hs, rfl, hposted, hengine hstep⟩
  | finished i r engine hstep => exact ⟨hs, rfl, hposted, hengine hstep⟩
  | crashed i p engine hstep => exact ⟨hs, rfl, hposted, hengine hstep⟩
  | called i i' c engine hstep hm =>
    have hcalled : Toils { w with engine } m :=
      toils_calls (w := { w with engine }) (s := .invocation i' :: rest) hposted hslot hconsole
        hs hm
    exact ⟨hcalled.stack, hcalled.setting, hcalled.unposted, fun base h =>
      hcalled.engine base (hengine hstep base h)⟩
  | announced | stayed | resumed => exact .still hposted (workplace_changeSession w _) hs
  | published | interruptedReads => exact .still hposted rfl hs
  | skipped l r requests hl hr | taken l r requests hl hr => simp [hempty hl] at hr
  | consumed l | locked l =>
    exact ⟨hs, rfl, unposted_updateLoop hposted _ fun _ => rfl, fun _ h => h⟩
  | closedCovered l signal hl hr htop hm => exact toils_closes hposted hs hm
  | closed l signal hl hm =>
    obtain ⟨hstack, hsetting, hunposted, hnumbered⟩ := toils_closes (w := w.popTop) hposted hs hm
    exact ⟨hstack, hsetting, hunposted, hnumbered⟩
  | started h o hm =>
    have hworker : (.worker h :: rest).all Activation.atWork = true := hs
    exact toils_submits hposted hworker hm
  | _ => cases ha

theorem toils_receives {o : Outcome} (hposted : w.Unposted) (ha : a.atWork = true)
    (hs : rest.all Activation.atWork = true) (hm : Receives w t rest o a m) : Toils w m := by
  cases hm with
  | resumed i i' action engine h =>
    cases h
    exact ⟨hs, rfl, hposted, fun _ h => h.of_same rfl rfl rfl rfl⟩
  | invocation | loop => exact .still hposted rfl hs
  | leased options r h =>
    cases h with
    | runtime what hreports => cases hreports <;> exact .still hposted rfl hs
    | _ => exact .still hposted rfl hs
  | worker h hm => exact toils_releases hposted hs hm
  | _ => cases ha

theorem toils_unwinds {p : Panic} (hposted : w.Unposted) (ha : a.atWork = true)
    (hs : rest.all Activation.atWork = true) (hm : Unwinds w t rest p a m) : Toils w m := by
  cases hm with
  | worker h hm => exact toils_releases hposted hs hm
  | invocation | other => exact .still hposted rfl hs
  | _ => cases ha

theorem toils_of_moves (hposted : w.Unposted) (hslot : w.slot = {})
    (hconsole : ∀ line script, w.config.console line ≠ .run script)
    (hs : t.stack.all Activation.atWork = true) (hm : m ∈ t.moves w k) : Toils w m := by
  obtain ⟨a, rest, hstack, hturn⟩ := turn_of_moves hm
  rw [hstack, List.all_cons, Bool.and_eq_true] at hs
  cases hturn with
  | goes hgo h => exact toils_goes hposted hslot hconsole hs.1 hs.2 h
  | receives o hback h => exact toils_receives hposted hs.1 hs.2 h
  | unwinds p hunwind h => exact toils_unwinds hposted hs.1 hs.2 h

end Moves

/-- The phases of an execution before it has a worker, on the direct route. -/
def ExecPhase.onWay : ExecPhase → Bool
  | .checking | .routing | .checkingRemote | .checkingPrompt | .checkingFlight | .leasing
  | .checkingOwner _ | .checkingPopped _ | .refusing _ | .rerouting _ | .spawning _ => true
  | _ => false

/-- The stacks of an execution before it has a worker. -/
inductive OnWay : List Activation → Prop
  | exec (o : Order) {phase : ExecPhase} (h : phase.onWay = true) : OnWay [.exec o phase]
  | lease (o : Order) (token : Option Token) (phase : LeasePhase) :
      OnWay [.getHandle token false phase, .exec o .leasing]

/-- The lease with which an activation is about to hand its command to a worker. -/
def Activation.spawning : Activation → Option Handle
  | .exec _ (.spawning h) => some h
  | _ => none

/-- The same for a thread that is let go. -/
def Thread.spawning (t : Thread) : Option Handle :=
  match t.control, t.stack with
  | .go, a :: _ => a.spawning
  | _, _ => none

/-- What such an execution comes to: it goes on or ends and has changed the nest at most, or it
has started a worker, which it was about to. -/
inductive Proceeds (w : World) : Option Handle → World × Thread → Prop
  | on {m : World × Thread} (nest : Nest) (hw : m.1 = { w with nest })
      (hs : m.2.stack = [] ∨ OnWay m.2.stack) : Proceeds w none m
  | spawned {m : World × Thread} (h : Handle) (o : Order)
      (hw : m.1 = (w.spawn [.starting h o]).2) (hgo : m.2.control = .go)
      (hs : m.2.stack = [.exec o (.joining w.threads.length)]) : Proceeds w (some h) m

section OnWay

variable {w : World} {k : Nat} {t : Thread} {a : Activation} {rest : List Activation}
  {m : World × Thread}

/-- What is below the innermost activation is on its way as well. -/
theorem OnWay.tail (h : OnWay (a :: rest)) : rest = [] ∨ OnWay rest := by
  cases h with
  | exec => exact Or.inl rfl
  | lease o => exact Or.inr (.exec o rfl)

theorem proceeds_releases {h : Handle} (hs : t.stack = [] ∨ OnWay t.stack)
    (hm : Releases w h t m) : Proceeds w none m := by
  cases hm <;> exact .on _ rfl hs

theorem proceeds_onward {a' : Activation} (hs : OnWay (a :: rest)) (hslot : w.slot = {})
    (hreading : w.nest.topFrame.reading = false) (hm : Onward w a a') :
    OnWay (a' :: rest) := by
  cases hs with
  | exec o hphase =>
    cases hm with
    | exec o hnext =>
      cases hnext with
      | readInterrupted h | readQueued h => simp [h] at hreading
      | flightInterrupted h | flightQueued h =>
        rw [hslot] at h
        cases h
      | subscribed | seen | unseen | pickedUp => cases hphase
      | _ => exact .exec o rfl
  | lease o token phase =>
    cases hm with
    | chose => exact .lease o token _

theorem spawning_of_onward {a' : Activation} (hm : Onward w a a') : a.spawning = none := by
  cases hm with
  | exec o hnext => cases hnext <;> rfl
  | _ => rfl

theorem spawning_of_ends {o : Outcome} (hm : Ends w a o) : a.spawning = none := by
  cases hm with
  | replied o phase id r hphase => rcases hphase with rfl | rfl <;> rfl
  | _ => rfl

theorem proceeds_goes (hs : OnWay (a :: rest)) (hloops : w.loops = []) (hslot : w.slot = {})
    (hreading : w.nest.topFrame.reading = false) (hm : Goes w k t rest a m) :
    Proceeds w a.spawning m := by
  cases hm with
  | onward hnext =>
    rw [spawning_of_onward hnext]
    exact .on w.nest rfl (Or.inr (proceeds_onward hs hslot hreading hnext))
  | ended hend =>
    rw [spawning_of_ends hend]
    exact .on w.nest rfl hs.tail
  | granted | again | lined =>
    cases hs with
    | lease o => exact .on _ rfl (Or.inr (.lease o _ _))
  | failed | leased => exact .on _ rfl hs.tail
  | inlined o l loops hl | posted o l loops hl => simp [hl] at hloops
  | remote o | vacant o =>
    cases hs with
    | exec => exact .on w.nest rfl (Or.inr (.lease o _ _))
  | unowned o h hm => exact proceeds_releases hs.tail hm
  | rerouted o h hm =>
    cases hs with
    | exec o hphase => exact proceeds_releases (Or.inr (.exec o rfl)) hm
  | spawned o h =>
    cases hs with
    | exec o hphase => exact .spawned h o rfl rfl rfl
  | interrupted | acquired | queued | turnedAway | permitted | gaveUp | subscribed | parked
  | reclaimed | withdrawn | joined =>
    cases hs with
    | exec o hphase => cases hphase
  | _ => cases hs

theorem proceeds_receives {o : Outcome} (hs : OnWay (a :: rest)) (hm : Receives w t rest o a m) :
    Proceeds w none m := by
  cases hs with
  | exec o hphase =>
    cases hm with
    | inline | tracked => cases hphase
    | unleased => exact .on w.nest rfl (Or.inl rfl)
    | onLoop | offLoop => exact .on w.nest rfl (Or.inr (.exec o rfl))
  | lease => cases hm

theorem proceeds_unwinds {p : Panic} (hs : OnWay (a :: rest)) (hm : Unwinds w t rest p a m) :
    Proceeds w none m := by
  cases hm with
  | other ha => exact .on w.nest rfl hs.tail
  | _ => cases hs

theorem proceeds_of_moves (hs : OnWay t.stack) (hloops : w.loops = []) (hslot : w.slot = {})
    (hreading : w.nest.topFrame.reading = false) (hm : m ∈ t.moves w k) :
    Proceeds w t.spawning m := by
  obtain ⟨a, rest, hstack, hturn⟩ := turn_of_moves hm
  rw [hstack] at hs
  cases hturn with
  | goes hgo h =>
    rw [Thread.spawning, hgo, hstack]
    exact proceeds_goes hs hloops hslot hreading h
  | receives o hback h =>
    rw [Thread.spawning, hback]
    exact proceeds_receives hs h
  | unwinds p hunwind h =>
    rw [Thread.spawning, hunwind]
    exact proceeds_unwinds hs h

end OnWay

end ScriptHost.Service
