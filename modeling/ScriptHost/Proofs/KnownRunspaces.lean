import ScriptHost.Proofs.CommandWork
import ScriptHost.Proofs.ParkedRequests
import ScriptHost.Proofs.RunspaceFrames
import ScriptHost.Proofs.RunspaceTracking
import ScriptHost.Proofs.StackNeutrality

/-!
The runspaces that the service knows, and the sessions of the engine. The service asks the
engine for its current runspace once after each command, so what it knows is a function of the
states in which it asked: right exactly if the transport broke, or sessions were only left since,
or a single one was entered. Commands are run one after another here; each is on its way to its
lease, at work on its own thread, or followed by the tracking of runspaces.
-/

namespace ScriptHost.Service

/-- No thread has anything left to do. -/
def World.AtRest (w : World) : Prop :=
  ∀ t ∈ w.threads, t.stack = []

instance (w : World) : Decidable w.AtRest :=
  inferInstanceAs (Decidable (∀ t ∈ w.threads, t.stack = []))

/-- What clients do beside their commands: they push and pop no frames, and disturb no question
for the current runspace. -/
def Clients.Step.isBeside : Clients.Step → Bool
  | .input _ | .cancel _ | .openGate _ | .resume _ | .pause | .exitPrompt | .unsubscribe
  | .ticks _ => true
  | .fault call _ => call != .details
  | _ => false

/-- A service that tracks runspaces, on an engine that has not run anything, and a console that
runs no scripts. -/
structure Tracks (config : Config) (engine : Engine) : Prop where
  tracks : config.trackRunspaces = true
  console : ∀ line script, config.console line ≠ .run script
  active : engine.active = 0
  peak : engine.peak = 0
  entered : engine.entered = []
  unbroken : engine.transportBroken = false
  base : engine.base.id < engine.nextRunspace
  unfaulted : ∀ f ∈ engine.faults, f.1 ≠ .details

/-- The runs of a service whose clients run commands one after another, each with its
transitions, latest first. -/
inductive Commands (config : Config) (engine : Engine) : List Transition → World → Prop
  | start {w : World} (h : World.start config engine = .ok w) : Commands config engine [] w
  | command {past : List Transition} {w : World} (h : Commands config engine past w)
      (hrest : w.AtRest) (o : Order) :
      Commands config engine (⟨w, none, (w.spawn [.exec o .checking]).2⟩ :: past)
        (w.spawn [.exec o .checking]).2
  | beside {past : List Transition} {w : World} {s : Clients.Step}
      (h : Commands config engine past w) (hs : s.isBeside = true)
      (hfree : s.usesLoops = true → w.loopsHeld = false) :
      Commands config engine (⟨w, none, (Clients.act w s).2⟩ :: past) (Clients.act w s).2
  | move {past : List Transition} {w w' : World} {k : Nat} (h : Commands config engine past w)
      (hfree : w.free k = true) (hmove : w' ∈ w.next k) :
      Commands config engine (⟨w, some k, w'⟩ :: past) w'

/-- The engine in the state in which a step asks for its current runspace. -/
def Transition.poll? (x : Transition) : Option Engine :=
  match x.acting? with
  | some (.track .polling) => some x.before.engine
  | _ => none

/-- The states of the engine in which it was asked, latest first. -/
def polls (past : List Transition) : List Engine :=
  past.filterMap Transition.poll?

/-- The lease with which a step hands a command to a worker. -/
def Transition.spawning? (x : Transition) : Option Handle :=
  x.acting?.bind Activation.spawning

/-- The leases with which commands were carried out, latest first. -/
def carriedOut (past : List Transition) : List Handle :=
  past.filterMap Transition.spawning?

/-- The service knows the sessions of the engine, in order, over the same base. -/
def World.Mirrors (w : World) : Prop :=
  w.pushed = w.engine.entered ∧ w.baseRunspace = w.engine.base

instance (w : World) : Decidable w.Mirrors :=
  inferInstanceAs (Decidable (_ ∧ _))

/-- A step pushes a frame only for the runspace that the engine has named last, which was not
known; and not if the engine was in sessions only that were known. -/
def PushesUnknown (base : Runspace) (past : List Transition) (x : Transition) : Prop :=
  ∀ p, x.pushedFor? = some p → ∃ e es, polls past = e :: es ∧ p.2 = e.current ∧
    p.2.id ∉ (tracked base es ++ [base]).map Runspace.id ∧ ¬e.entered <:+ tracked base es

section Start

variable {config : Config} {engine : Engine} {w w' : World} {past : List Transition}

theorem Commands.run (h : Commands config engine past w) (htracks : Tracks config engine) :
    Run past w := by
  induction h with
  | start h => exact .start htracks.active htracks.peak h
  | command h hrest o ih => exact ih.step (.call (.execute o))
  | @beside past w s h hs hfree ih =>
    refine ih.step (.act ?_ hfree)
    cases s <;> first | rfl | cases hs
  | move h hfree hmove ih => exact ih.step (.move hfree hmove)

theorem start_of_tracks (htracks : Tracks config engine) (h : World.start config engine = .ok w) :
    w.config = config ∧ w.baseRunspace = engine.base ∧ w.baseGone = false ∧ w.pushed = [] ∧
      w.engine.Numbered engine.base ∧ w.engine.entered = [] := by
  have hasked : ∀ e : Engine, e.sessions = engine.sessions →
      e.Numbered engine.base ∧ e.entered = [] ∧ e.details = (.ok engine.base, e) := by
    intro e hsame
    simp only [Engine.sessions, Prod.mk.injEq] at hsame
    obtain ⟨hbase, hentered, hnext, hbroken, hfaults⟩ := hsame
    rw [htracks.entered] at hentered
    have hnumbered : e.Numbered engine.base := by
      refine ⟨hbase, ?_, ?_, hfaults ▸ htracks.unfaulted⟩ <;> rw [hentered]
      · simp
      · simpa [hnext] using htracks.base
    refine ⟨hnumbered, hentered, ?_⟩
    rw [hnumbered.details, hbroken, htracks.unbroken, Engine.current, hentered, hbase]
    rfl
  have hconfigured : ∀ o : Operations, (o.configure engine).sessions = engine.sessions := by
    intro o
    cases o <;> rfl
  have hsubscribed : ∀ {e e' : Engine}, e.subscribeIdle = (.ok (), e') →
      e'.sessions = e.sessions := by
    intro e e' heq
    unfold Engine.subscribeIdle at heq
    split at heq <;> cases heq
    rfl
  unfold World.start at h
  dsimp only at h
  split at h
  · cases h
  · next e heq =>
    have hsame : e.sessions = engine.sessions := by
      split at heq
      · cases heq
        exact hconfigured _
      · exact (hsubscribed heq).trans (hconfigured _)
    obtain ⟨hnumbered, hentered, hdetails⟩ := hasked e hsame
    rw [hdetails] at h
    cases h
    exact ⟨rfl, rfl, rfl, rfl, hnumbered, hentered⟩

/-- A run of commands goes on along a schedule. -/
theorem commands_of_follow (h : Commands config engine past w) (schedule : List Nat) :
    Commands config engine ((follow schedule w).1 ++ past) (follow schedule w).2 := by
  induction schedule generalizing past w with
  | nil => exact h
  | cons k schedule ih =>
    rw [follow]
    split
    · exact ih h
    · next w' hfirst =>
      obtain ⟨hfree, hhead⟩ := Option.ite_none_right_eq_some.mp hfirst
      have hrun := ih (h.move hfree (List.mem_of_mem_head? hhead))
      rwa [List.append_assoc]

/-- A step that leaves everything that matters here. -/
structure Beside (w w' : World) : Prop where
  setting : w'.setting = w.setting
  bearings : ∀ es, w'.bearings es = w.bearings es
  unposted : w.Unposted → w'.Unposted
  numbered : ∀ base, w.engine.Numbered base → w'.engine.Numbered base

theorem beside_engine {e : Engine} (hentered : e.entered = w.engine.entered)
    (hnumbered : ∀ base, w.engine.Numbered base → e.Numbered base) :
    Beside w { w with engine := e } :=
  ⟨rfl, fun es => by simp [World.bearings, hentered, World.loopFrames], id, hnumbered⟩

theorem beside_signals {signal : Signal} (h : Signals w signal w') : Beside w w' := by
  obtain ⟨hnest, hloops, -⟩ := board_iff.mp (board_signals w h)
  refine ⟨?_, fun es => ?_, fun hposted => unposted_signals hposted h, ?_⟩
  · cases h <;> rfl
  · rw [World.bearings, hnest, hloops]
    cases h <;> rfl
  · cases h <;> exact fun _ h => h

theorem beside_of_act {s : Clients.Step} (hs : s.isBeside = true) :
    Beside w (Clients.act w s).2 := by
  have hsame : ∀ e : Engine, e.entered = w.engine.entered → e.base = w.engine.base →
      e.nextRunspace = w.engine.nextRunspace → e.faults = w.engine.faults →
      Beside w { w with engine := e } := fun e hentered hbase hnext hfaults =>
    beside_engine hentered fun _ h => h.of_same hbase hentered hnext hfaults
  cases s with
  | input line | unsubscribe => exact hsame _ rfl rfl rfl rfl
  | cancel token | openGate gate | ticks on => exact ⟨rfl, fun _ => rfl, id, fun _ h => h⟩
  | resume action => exact beside_signals (signals_signalInnermost w _ _)
  | exitPrompt => exact beside_signals (signals_signalInnermost w _ _)
  | pause =>
    simp only [Clients.act, World.pause, Operations.pause]
    split <;> exact hsame _ rfl rfl rfl rfl
  | fault call e =>
    refine beside_engine rfl fun base h => ⟨h.base_eq, h.nodup, h.below, fun f hf => ?_⟩
    rcases List.mem_append.mp hf with hf | hf
    · exact h.unfaulted f hf
    · rw [List.mem_singleton.mp hf]
      simpa [Clients.Step.isBeside] using hs
  | _ => cases hs

end Start

/-- Only the threads `ks` have anything left to do. -/
def Busy (ks : List Nat) (threads : List Thread) : Prop :=
  ∀ j t, threads[j]? = some t → t.stack ≠ [] → j ∈ ks

section Busy

variable {ks ks' : List Nat} {threads : List Thread} {k : Nat} {t t' : Thread}

theorem busy_nil : Busy [] threads ↔ ∀ t ∈ threads, t.stack = [] := by
  constructor
  · intro h t ht
    by_contra hs
    obtain ⟨j, hj⟩ := List.mem_iff_getElem?.mp ht
    cases h j t hj hs
  · intro h j t ht hs
    exact absurd (h t (List.mem_of_getElem? ht)) hs

theorem Busy.append (h : Busy ks threads) (t : Thread) :
    Busy (ks ++ [threads.length]) (threads ++ [t]) := by
  intro j t' ht' hs
  rcases Nat.lt_trichotomy j threads.length with hlt | rfl | hgt
  · rw [List.getElem?_append_left hlt] at ht'
    exact List.mem_append_left _ (h j t' ht' hs)
  · simp
  · rw [List.getElem?_eq_none (by simp; omega)] at ht'
    cases ht'

/-- Thread `k` has ended. -/
theorem Busy.of_ended (h : Busy ks threads) (hks : ∀ j ∈ ks, j = k ∨ j ∈ ks')
    (hk : ∀ t, threads[k]? = some t → t.stack = []) : Busy ks' threads := by
  intro j t ht hs
  refine (hks j (h j t ht hs)).resolve_left ?_
  rintro rfl
  exact hs (hk t ht)

/-- Thread `k` goes on, or ends. -/
theorem Busy.set (h : Busy ks threads) (hks : ∀ j ∈ ks, j = k ∨ j ∈ ks')
    (hk : t'.stack ≠ [] → k ∈ ks') : Busy ks' (threads.set k t') := by
  intro j t ht hs
  by_cases heq : j = k
  · subst heq
    rw [List.getElem?_set] at ht
    split at ht
    · split at ht
      · cases ht
        exact hk hs
      · cases ht
    · exact absurd rfl ‹_›
  · rw [List.getElem?_set_ne (Ne.symm heq)] at ht
    exact (hks j (h j t ht hs)).resolve_left heq

end Busy

/-- Thread `k` waits for thread `j`, where its command is at work. The frames `above` were there
before; what has been put on top of them is written on the stack of the worker. -/
structure Employs (w : World) (es : List Engine) (k j : Nat) (t u : Thread) (o : Order)
    (above : List Nat) : Prop where
  caller : w.threads[k]? = some t
  waits : t.stack = [.exec o (.joining j)]
  goes : t.control = .go
  worker : w.threads[j]? = some u
  work : u.stack.all Activation.atWork = true
  busy : Busy [k, j] w.threads
  built : Built above [] (duties u.stack) w.nest.above w.loopFrames
  remote : ∀ frame ∈ above,
    frame < w.nest.frames.length ∧ (w.nest.frame frame).kind = .remoteSession
  length : above.length = w.pushed.length
  known : w.pushed = tracked w.baseRunspace es

/-- Nothing runs, or one command does: it is on its way to its lease, or at work on a thread that
it has started, or followed by the tracking of runspaces. Of the `n` commands that were carried
out, one is not yet followed by its question to the engine from when it is at work until the
question. -/
inductive CommandCourse (w : World) (es : List Engine) (n : Nat) : Prop
  | resting (hbusy : Busy [] w.threads) (hcalm : (w.bearings es).Calm) (hasked : es.length = n)
  | asking {k : Nat} {t : Thread} (ht : w.threads[k]? = some t) (hs : OnWay t.stack)
      (hbusy : Busy [k] w.threads) (hcalm : (w.bearings es).Calm) (hasked : es.length = n)
  | working {k j : Nat} {t u : Thread} {o : Order} {above : List Nat}
      (h : Employs w es k j t u o above) (hasked : es.length + 1 = n)
  | tracking {k : Nat} {t : Thread} {o : Order} {reply : Reply} (ht : w.threads[k]? = some t)
      (hp : Pursues (w.bearings es) o reply t.control t.stack) (hbusy : Busy [k] w.threads)
      (hasked : ((t.asking w).toList ++ es).length = n)

/-- What holds along runs of commands one after another. -/
structure OneByOne (config : Config) (engine : Engine) (w : World) (es : List Engine)
    (n : Nat) : Prop where
  config_eq : w.config = config
  base_eq : w.baseRunspace = engine.base
  based : w.baseGone = false
  slot_eq : w.slot = {}
  unposted : w.Unposted
  numbered : w.engine.Numbered engine.base
  asked : ∀ e ∈ es, e.Numbered engine.base
  course : CommandCourse w es n

section Moves

variable {config : Config} {engine : Engine} {w w' : World} {past : List Transition} {k : Nat}
  {t : Thread} {m : World × Thread} {es : List Engine} {n : Nat} {o : Order}

theorem polls_cons (ht : w.threads[k]? = some t) (w' : World) :
    polls (⟨w, some k, w'⟩ :: past) = (t.asking w).toList ++ polls past := by
  have hpoll : Transition.poll? ⟨w, some k, w'⟩ = t.asking w := by
    obtain ⟨depth, control, stack⟩ := t
    simp only [Transition.poll?, Transition.acting?, ht, Option.bind_some, Thread.asking]
    cases control with
    | go =>
      cases stack with
      | nil => rfl
      | cons a rest => cases a <;> first | rfl | (rename_i phase; cases phase <;> rfl)
    | _ => cases stack <;> rfl
  rw [polls, List.filterMap_cons, hpoll]
  cases t.asking w <;> rfl

theorem carriedOut_cons (ht : w.threads[k]? = some t) (w' : World) :
    carriedOut (⟨w, some k, w'⟩ :: past) = t.spawning.toList ++ carriedOut past := by
  have hspawning : Transition.spawning? ⟨w, some k, w'⟩ = t.spawning := by
    obtain ⟨depth, control, stack⟩ := t
    simp only [Transition.spawning?, Transition.acting?, ht, Option.bind_some, Thread.spawning]
    cases control <;> cases stack <;> rfl
  rw [carriedOut, List.filterMap_cons, hspawning]
  cases t.spawning <;> rfl

theorem OnWay.duties_eq {s : List Activation} (h : OnWay s) : duties s = [] := by
  cases h <;> rfl

theorem OnWay.asking_eq (h : OnWay t.stack) : t.asking w = none := by
  obtain ⟨depth, control, stack⟩ := t
  cases h <;> cases control <;> rfl

theorem asking_of_atWork (h : t.stack.all Activation.atWork = true) : t.asking w = none := by
  unfold Thread.asking
  split
  · next hs => simp [hs, Activation.atWork] at h
  · rfl

theorem spawning_of_atWork (h : t.stack.all Activation.atWork = true) : t.spawning = none := by
  unfold Thread.spawning
  split
  · next a rest hgo hs =>
    rw [hs, List.all_cons, Bool.and_eq_true] at h
    cases a with
    | exec => cases h.1
    | _ => rfl
  · rfl

theorem Pursues.spawning_eq {b : Bearings} {reply : Reply}
    (h : Pursues b o reply t.control t.stack) : t.spawning = none := by
  obtain ⟨depth, control, stack⟩ := t
  cases h with
  | popping hc => rcases hc with rfl | ⟨r, rfl⟩ <;> rfl
  | _ => rfl

/-- A move that pushes and pops no frame for a runspace. -/
theorem built_of_moves {above₀ : List Nat} {loops₀ : List (Nat × Nat)} (h : Run past w)
    (ht : w.threads[k]? = some t) (hm : m ∈ t.moves w k)
    (hplain : ∀ a ∈ t.stack, a.reconciles = false)
    (hbuilt : Built above₀ loops₀ (duties t.stack) w.nest.above w.loopFrames) :
    Built above₀ loops₀ (duties m.2.stack) m.1.nest.above m.1.loopFrames := by
  obtain ⟨a, rest, hs, hmoved⟩ := moved_of_moves (typed_of_run h ht) hm
  have hboard : Rearranged w a (a :: rest ++ []) m.1 (m.2.stack ++ []) := by
    simpa using hmoved.board
  rw [hs] at hbuilt hplain
  exact hbuilt.rearranged hboard (hplain a List.mem_cons_self)
    (orderly_of_run h).sound.loops_nodup

/-- A prompt is somewhere on its thread's stack. -/
theorem Thread.Reads.mem_stack {handle : Handle} {stage : ReadStage} (h : t.Reads handle stage) :
    ∃ a ∈ t.stack, ∀ s, OnWay s → a ∉ s := by
  cases h with
  | leased token rest hs hc =>
    refine ⟨_, hs ▸ List.mem_cons_self, fun s hway => ?_⟩
    cases hway <;> simp
  | task token phase hmem hlease =>
    refine ⟨_, hmem, fun s hway => ?_⟩
    cases hway <;> simp
  | worker read phase hmem =>
    refine ⟨_, hmem, fun s hway => ?_⟩
    cases hway <;> simp

/-- Nobody reads while a command is on its way. -/
theorem unread_of_asking (h : Run past w) (ht : w.threads[k]? = some t) (hs : OnWay t.stack)
    (hbusy : Busy [k] w.threads) : w.nest.topFrame.reading = false := by
  by_contra hreading
  have hmarked : (w.nest.frame w.nest.top).reading = true := by
    simpa [Nest.topFrame] using hreading
  obtain ⟨handle, -, -, u, hu, hreads⟩ := reads_of_marked h hmarked
  obtain ⟨j, hj⟩ := List.mem_iff_getElem?.mp hu
  obtain ⟨a, ha, hnone⟩ := hreads.mem_stack
  obtain rfl := List.mem_singleton.mp (hbusy j u hj (List.ne_nil_of_mem ha))
  cases ht.symm.trans hj
  exact hnone _ hs ha

/-- A command on its way goes on, or ends, or starts to work. -/
theorem oneByOne_asking (h : Run past w) (hone : OneByOne config engine w es n)
    (ht : w.threads[k]? = some t) (hs : OnWay t.stack) (hbusy : Busy [k] w.threads)
    (hcalm : (w.bearings es).Calm) (hdone : es.length = n) (hfree : w.free k = true)
    (hm : m ∈ t.moves w k) :
    OneByOne config engine { m.1 with threads := m.1.threads.set k m.2 } es
      (t.spawning.toList.length + n) := by
  have hk := (List.getElem?_eq_some_iff.mp ht).1
  have hloops : w.loops = [] := List.map_eq_nil_iff.mp hcalm.loops
  have hplain : ∀ a ∈ t.stack, a.reconciles = false := by
    generalize t.stack = stack at hs
    cases hs <;> simp [Activation.reconciles]
  have hbuilt : Built w.nest.above w.loopFrames (duties m.2.stack) m.1.nest.above m.1.loopFrames :=
    built_of_moves h ht hm hplain (by rw [hs.duties_eq]; exact .none)
  have hchange := change_of_step h (.move hfree (mem_next.mpr ⟨t, ht, m, hm, rfl⟩))
  have hstanding := standing_of_run h
  obtain ⟨hconfig, hbase, hgone, hslot, hposted, hn, hasked, -⟩ := hone
  have hproceeds := proceeds_of_moves hs hloops hslot (unread_of_asking h ht hs hbusy) hm
  obtain ⟨w₁, t₁⟩ := m
  generalize t.spawning = spawning at hproceeds
  cases hproceeds with
  | on nest hw hs' =>
    obtain rfl : w₁ = { w with nest } := hw
    rw [Option.toList_none, List.length_nil, Nat.zero_add]
    have hduties : duties t₁.stack = [] := by
      rcases hs' with hempty | hway
      · rw [show t₁.stack = [] from hempty]
        rfl
      · exact hway.duties_eq
    dsimp only at hbuilt
    rw [hduties] at hbuilt
    generalize habove : nest.above = above at hbuilt
    generalize hframes : World.loopFrames { w with nest } = frames at hbuilt
    cases hbuilt
    have hcalm' : (({ w with nest, threads := w.threads.set k t₁ } : World).bearings es).Calm :=
      ⟨hcalm.loops, hcalm.remotes.keep hstanding hchange habove, hcalm.known, hcalm.entered⟩
    refine ⟨hconfig, hbase, hgone, hslot, hposted, hn, hasked, ?_⟩
    rcases hs' with hempty | hway
    · exact .resting (hbusy.set (by simp) fun hne => absurd hempty hne) hcalm' hdone
    · exact .asking (List.getElem?_set_self hk) hway (hbusy.set (by simp) (by simp)) hcalm' hdone
  | spawned handle o hw hgo hs' =>
    obtain rfl : w₁ = (w.spawn [.starting handle o]).2 := hw
    refine ⟨hconfig, hbase, hgone, hslot, hposted, hn, hasked, ?_⟩
    have hbuilt' : Built w.nest.above [] (duties [.starting handle o]) w.nest.above
        w.loopFrames := by
      rw [show w.loopFrames = [] from hcalm.loops]
      exact .none
    refine .working (u := { stack := [.starting handle o] }) ⟨List.getElem?_set_self ?_, hs', hgo,
      ?_, rfl, ?_, hbuilt', ?_, ?_, hcalm.known⟩ (hdone ▸ Nat.add_comm _ _)
    · exact hk.trans_le (by simp [World.spawn])
    · rw [List.getElem?_set_ne hk.ne]
      exact List.getElem?_concat_length
    · exact (hbusy.append _).set (by simp) (by simp)
    · exact fun frame hmem => ⟨hstanding.stack_made frame (List.mem_append_left _ hmem),
        hcalm.remotes.remote frame hmem⟩
    · exact hcalm.remotes.length

/-- A command at work goes on with its work. -/
theorem oneByOne_toiling {j : Nat} {u : Thread} {above : List Nat} (h : Run past w)
    (hconsole : ∀ line script, config.console line ≠ .run script)
    (hone : OneByOne config engine w es n) (hemploys : Employs w es k j t u o above)
    (hdone : es.length + 1 = n) (hfree : w.free j = true) (hm : m ∈ u.moves w j) :
    OneByOne config engine { m.1 with threads := m.1.threads.set j m.2 } es n := by
  obtain ⟨ht, hs, hgo, hu, hwork, hbusy, hbuilt, hremote, hlength, hknown⟩ := hemploys
  have hj := (List.getElem?_eq_some_iff.mp hu).1
  have hother : j ≠ k := by
    rintro rfl
    cases ht.symm.trans hu
    simp [hs, Activation.atWork] at hwork
  have hplain : ∀ a ∈ u.stack, a.reconciles = false := by
    intro a ha
    have hatWork := List.all_eq_true.mp hwork a ha
    cases a <;> first | rfl | cases hatWork
  have hkeeps := keeps_of_step h (.move hfree (mem_next.mpr ⟨u, hu, m, hm, rfl⟩))
  have hbuilt' := built_of_moves h hu hm hplain hbuilt
  obtain ⟨hconfig, hbase, hgone, hslot, hposted, hn, hasked, -⟩ := hone
  obtain ⟨hstack, hsetting, hposted', hn'⟩ :=
    toils_of_moves hposted hslot (hconfig ▸ hconsole) hwork hm
  simp only [World.setting, Prod.mk.injEq] at hsetting
  obtain ⟨hconfig', hbase', hpushed', hgone', hslot', hthreads'⟩ := hsetting
  refine ⟨hconfig'.trans hconfig, hbase'.trans hbase, hgone'.trans hgone, hslot'.trans hslot,
    hposted', hn' _ hn, hasked, ?_⟩
  rw [hthreads']
  refine .working ⟨(List.getElem?_set_ne hother).trans ht, hs, hgo, List.getElem?_set_self hj,
    hstack, hbusy.set (by simp) (by simp), hbuilt', fun frame hmem => ?_, ?_, ?_⟩ hdone
  · obtain ⟨hmade, hkind⟩ := hremote frame hmem
    exact ⟨hmade.trans_le hkeeps.made, (hkeeps.kind frame hmade).trans hkind⟩
  · exact hlength.trans (congrArg List.length hpushed'.symm)
  · change m.1.pushed = tracked m.1.baseRunspace es
    rw [hpushed', hbase', hknown]

/-- When the work is done, its frames and loops are gone, and the engine is followed. -/
theorem oneByOne_joining {j : Nat} {u : Thread} {above : List Nat}
    (htracks : config.trackRunspaces = true) (hone : OneByOne config engine w es n)
    (hemploys : Employs w es k j t u o above) (hdone : es.length + 1 = n) (hm : m ∈ t.moves w k) :
    OneByOne config engine { m.1 with threads := m.1.threads.set k m.2 } es n := by
  obtain ⟨ht, hs, hgo, hu, -, hbusy, hbuilt, hremote, hlength, hknown⟩ := hemploys
  have hk := (List.getElem?_eq_some_iff.mp ht).1
  obtain ⟨hconfig, hbase, hgone, hslot, hposted, hn, hasked, -⟩ := hone
  cases goes_of_moves hm hgo hs with
  | onward hnext =>
    cases hnext with
    | exec o hnext => cases hnext
  | ended hend =>
    cases hend with
    | joined o worker r hr huntracked => simp [hconfig, htracks] at huntracked
    | replied o phase id r hphase => simp at hphase
  | joined o worker reply hreply =>
    rw [hu, Option.bind_some] at hreply
    have hended : u.stack = [] := by
      by_contra hne
      simp [Thread.result?, hne] at hreply
    rw [hended] at hbuilt
    generalize habove : w.nest.above = above' at hbuilt
    generalize hloops : w.loopFrames = loops at hbuilt
    cases hbuilt
    have hleft : Busy [k] w.threads := hbusy.of_ended (k := j) (by simp) fun u' hu' => by
      cases hu.symm.trans hu'
      exact hended
    refine ⟨hconfig, hbase, hgone, hslot, hposted, hn, hasked, ?_⟩
    refine .tracking (List.getElem?_set_self hk) (.polling hloops ⟨?_, ?_⟩ hknown)
      (hleft.set (by simp) (by simp)) hdone
    · exact fun frame hmem => (hremote frame (habove ▸ hmem)).2
    · exact habove ▸ hlength

/-- The tracking of runspaces goes on, or ends. -/
theorem oneByOne_tracking {reply : Reply} (hone : OneByOne config engine w es n)
    (ht : w.threads[k]? = some t) (hp : Pursues (w.bearings es) o reply t.control t.stack)
    (hbusy : Busy [k] w.threads) (hdone : ((t.asking w).toList ++ es).length = n)
    (hm : m ∈ t.moves w k) :
    OneByOne config engine { m.1 with threads := m.1.threads.set k m.2 }
      ((t.asking w).toList ++ es) n := by
  have hk := (List.getElem?_eq_some_iff.mp ht).1
  obtain ⟨hconfig, hbase, hgone, hslot, hposted, hn, hasked, -⟩ := hone
  obtain ⟨hgrounds, hn', hsilent, hcourse⟩ := pursued_of_moves (hbase ▸ hn) hgone hp hm
  simp only [World.grounds, Prod.mk.injEq] at hgrounds
  obtain ⟨hconfig', hbase', hgone', hslot', hthreads', hloops'⟩ := hgrounds
  have hset : m.1.threads.set k m.2 = w.threads.set k m.2 := by rw [hthreads']
  refine ⟨hconfig'.trans hconfig, hbase'.trans hbase, hgone'.trans hgone, hslot'.trans hslot, ?_,
    hbase ▸ hn', ?_, ?_⟩
  · change ∀ l ∈ m.1.loops, l.requests = []
    rwa [hloops']
  · intro e he
    rcases List.mem_append.mp he with he | he
    · unfold Thread.asking at he
      split at he
      · obtain rfl := List.mem_singleton.mp he
        exact hn
      · cases he
    · exact hasked e he
  · rw [hset]
    rcases hcourse with hp' | ⟨hended, hcalm⟩
    · refine .tracking (List.getElem?_set_self hk) hp' (hbusy.set (by simp) (by simp)) ?_
      change ((m.2.asking m.1).toList ++ ((t.asking w).toList ++ es)).length = n
      rw [hsilent]
      exact hdone
    · exact .resting (hbusy.set (by simp) fun hne => absurd hended hne) hcalm hdone

theorem oneByOne_of_move (h : Run past w) (htracks : Tracks config engine)
    (hone : OneByOne config engine w (polls past) (carriedOut past).length)
    (hfree : w.free k = true) (hmove : w' ∈ w.next k) :
    OneByOne config engine w' (polls (⟨w, some k, w'⟩ :: past))
      (carriedOut (⟨w, some k, w'⟩ :: past)).length := by
  obtain ⟨t, ht, m, hm, rfl⟩ := mem_next.mp hmove
  have hne := stack_ne_nil_of_moves hm
  rw [polls_cons ht, carriedOut_cons ht]
  cases hone.course with
  | resting hbusy hcalm => cases hbusy k t ht hne
  | asking ht' hs hbusy hcalm hdone =>
    obtain rfl := List.mem_singleton.mp (hbusy k t ht hne)
    cases ht.symm.trans ht'
    rw [hs.asking_eq, List.length_append]
    exact oneByOne_asking h hone ht hs hbusy hcalm hdone hfree hm
  | working hemploys hdone =>
    rcases List.mem_pair.mp (hemploys.busy k t ht hne) with rfl | rfl
    · cases ht.symm.trans hemploys.caller
      have hunasked : t.asking w = none := by simp [Thread.asking, hemploys.waits, hemploys.goes]
      have hidle : t.spawning = none := by
        rw [Thread.spawning, hemploys.waits, hemploys.goes]
        rfl
      rw [hunasked, hidle]
      exact oneByOne_joining htracks.tracks hone hemploys hdone hm
    · cases ht.symm.trans hemploys.worker
      rw [asking_of_atWork hemploys.work, spawning_of_atWork hemploys.work]
      exact oneByOne_toiling h htracks.console hone hemploys hdone hfree hm
  | tracking ht' hp hbusy hdone =>
    obtain rfl := List.mem_singleton.mp (hbusy k t ht hne)
    cases ht.symm.trans ht'
    rw [hp.spawning_eq]
    exact oneByOne_tracking hone ht hp hbusy hdone hm

end Moves

section Runs

variable {config : Config} {engine : Engine} {w w' : World} {past : List Transition}

/-- When nothing runs, all that was settled is known, and the engine was asked after each
command. -/
theorem CommandCourse.calm {es : List Engine} {n : Nat} (h : CommandCourse w es n)
    (hrest : w.AtRest) : (w.bearings es).Calm ∧ es.length = n := by
  have hempty : ∀ {k : Nat} {t : Thread}, w.threads[k]? = some t → t.stack = [] :=
    fun ht => hrest _ (List.mem_of_getElem? ht)
  cases h with
  | resting hbusy hcalm hasked => exact ⟨hcalm, hasked⟩
  | asking ht hs hbusy hcalm hasked => exact ⟨hcalm, hasked⟩
  | working hemploys =>
    have hwaits := hemploys.waits
    rw [hempty hemploys.caller] at hwaits
    cases hwaits
  | tracking ht hp => exact absurd (hempty ht) hp.stack_ne

/-- What clients do beside their commands leaves the command where it stands. -/
theorem CommandCourse.of_beside {es : List Engine} {n : Nat} (h : CommandCourse w es n)
    (hw : Beside w w') : CommandCourse w' es n := by
  have hsetting := hw.setting
  have hbearings := hw.bearings es
  simp only [World.setting, Prod.mk.injEq] at hsetting
  obtain ⟨-, hbase, hpushed, -, -, hthreads⟩ := hsetting
  have hnest : w'.nest = w.nest := congrArg Bearings.nest hbearings
  have hloops : w'.loopFrames = w.loopFrames := congrArg Bearings.loopFrames hbearings
  cases h with
  | resting hbusy hcalm hasked => exact .resting (hthreads ▸ hbusy) (hbearings ▸ hcalm) hasked
  | asking ht hs hbusy hcalm hasked =>
    exact .asking (hthreads ▸ ht) hs (hthreads ▸ hbusy) (hbearings ▸ hcalm) hasked
  | working hemploys hasked =>
    obtain ⟨ht, hs, hgo, hu, hwork, hbusy, hbuilt, hremote, hlength, hknown⟩ := hemploys
    rw [← hnest, ← hloops] at hbuilt
    rw [← hthreads] at ht hu hbusy
    refine .working ⟨ht, hs, hgo, hu, hwork, hbusy, hbuilt, ?_, ?_, ?_⟩ hasked
    · rwa [hnest]
    · rwa [hpushed]
    · rwa [hpushed, hbase]
  | @tracking k t o reply ht hp hbusy hasked =>
    refine .tracking (hthreads ▸ ht) (hbearings ▸ hp) (hthreads ▸ hbusy) ?_
    rw [← hasked, List.length_append, List.length_append]
    congr 1
    unfold Thread.asking
    split <;> rfl

theorem oneByOne_of_start (htracks : Tracks config engine)
    (h : World.start config engine = .ok w) : OneByOne config engine w [] 0 := by
  obtain ⟨hconfig, hbase, hgone, hpushed, hn, hentered⟩ := start_of_tracks htracks h
  have hfresh := fresh_of_start h
  have hremotes : w.nest.Remotes w.pushed.length := by
    rw [hfresh.nest, hpushed]
    exact ⟨nofun, rfl⟩
  refine ⟨hconfig, hbase, hgone, hfresh.slot, ?_, hn, List.forall_mem_nil _, ?_⟩
  · rw [World.Unposted, hfresh.loops]
    nofun
  · refine .resting ?_ ⟨?_, hremotes, hpushed, hentered⟩ rfl
    · rw [hfresh.threads]
      nofun
    · rw [World.bearings, World.loopFrames, hfresh.loops]
      rfl

theorem oneByOne_of_commands (h : Commands config engine past w) (htracks : Tracks config engine) :
    OneByOne config engine w (polls past) (carriedOut past).length := by
  induction h with
  | start h => exact oneByOne_of_start htracks h
  | @command past w h hrest o ih =>
    obtain ⟨hcalm, hdone⟩ := ih.course.calm hrest
    obtain ⟨hconfig, hbase, hgone, hslot, hposted, hn, hasked, -⟩ := ih
    refine ⟨hconfig, hbase, hgone, hslot, hposted, hn, hasked, ?_⟩
    refine .asking List.getElem?_concat_length (.exec o rfl) ?_ hcalm hdone
    exact (busy_nil.mpr hrest).append _
  | @beside past w s h hs hfree ih =>
    have hw : Beside w (Clients.act w s).2 := beside_of_act hs
    have hsetting := hw.setting
    simp only [World.setting, Prod.mk.injEq] at hsetting
    obtain ⟨hconfig, hbase, -, hgone, hslot, -⟩ := hsetting
    exact ⟨hconfig.trans ih.config_eq, hbase.trans ih.base_eq, hgone.trans ih.based,
      hslot.trans ih.slot_eq, hw.unposted ih.unposted, hw.numbered _ ih.numbered, ih.asked,
      ih.course.of_beside hw⟩
  | move h hfree hmove ih => exact oneByOne_of_move (h.run htracks) htracks ih hfree hmove

/-- A frame is pushed only by the tracking of runspaces, for the runspace it was told of. -/
theorem pushesUnknown_of_oneByOne {mover : Option Nat} {n : Nat}
    (hone : OneByOne config engine w (polls past) n) :
    PushesUnknown engine.base past ⟨w, mover, w'⟩ := by
  intro p hp
  obtain ⟨r, previous, hacting, rfl⟩ := pushedFor_eq_some hp
  obtain ⟨k, t, rest, rfl, ht, hgo, hs⟩ := go_of_acting hacting
  have hne : t.stack ≠ [] := by simp [hs]
  cases hone.course with
  | resting hbusy hcalm => cases hbusy k t ht hne
  | asking ht' hway hbusy hcalm =>
    obtain rfl := List.mem_singleton.mp (hbusy k t ht hne)
    cases ht.symm.trans ht'
    rw [hs] at hway
    cases hway
  | working hemploys =>
    rcases List.mem_pair.mp (hemploys.busy k t ht hne) with rfl | rfl
    · cases ht.symm.trans hemploys.caller
      cases hs.symm.trans hemploys.waits
    · cases ht.symm.trans hemploys.worker
      have hwork := hemploys.work
      simp [hs, Activation.atWork] at hwork
  | tracking ht' hpursues hbusy =>
    obtain rfl := List.mem_singleton.mp (hbusy k t ht hne)
    cases ht.symm.trans ht'
    rw [hs, hgo] at hpursues
    cases hpursues with
    | pushing hphase hanswered hnew howed =>
      obtain ⟨e, es, hpolls, hcurrent, hknown⟩ := hanswered
      have hpolls : polls past = e :: es := hpolls
      have hknown : w.pushed = tracked engine.base es := hone.base_eq ▸ hknown
      have hnew : r.id ∉ (tracked engine.base es ++ [engine.base]).map Runspace.id := by
        rw [← hknown, ← hone.base_eq]
        exact hnew
      refine ⟨e, es, hpolls, hcurrent.symm, hnew, fun hleft => hnew ?_⟩
      have hbase := (hone.asked e (hpolls ▸ List.mem_cons_self)).base_eq
      rw [← hcurrent]
      exact List.mem_map_of_mem (current_mem_of_suffix hbase hleft)

theorem pushesUnknown_along (h : Commands config engine past w) (htracks : Tracks config engine) :
    AllAlong (PushesUnknown engine.base) past := by
  induction h with
  | start h => trivial
  | command h hrest o ih => exact ⟨pushesUnknown_of_oneByOne (oneByOne_of_commands h htracks), ih⟩
  | beside h hs hfree ih => exact ⟨pushesUnknown_of_oneByOne (oneByOne_of_commands h htracks), ih⟩
  | move h hfree hmove ih => exact ⟨pushesUnknown_of_oneByOne (oneByOne_of_commands h htracks), ih⟩

/-- The engine is asked once for each command that is carried out, and after each command, what the
service knows of runspaces is what it makes of the states in which it asked. It knows the sessions
of the engine exactly if the engine was near to what was known when it was asked last. There is one
frame over the base for each runspace that is known, and frames are pushed only for runspaces that
were not: leaving sessions pushes none. -/
theorem known_runspaces_follow_polls (htracks : Tracks config engine)
    (h : Commands config engine past w) (hrest : w.AtRest) :
    (polls past).length = (carriedOut past).length ∧
      w.pushed = tracked engine.base (polls past) ∧
      (w.Mirrors ↔ ∀ e es, polls past = e :: es → e.Near (tracked engine.base es)) ∧
      w.loops = [] ∧ w.nest.Remotes w.pushed.length ∧
      AllAlong (PushesUnknown engine.base) past := by
  have hone := oneByOne_of_commands h htracks
  obtain ⟨hcalm, hasked⟩ := hone.course.calm hrest
  have hknown : w.pushed = tracked engine.base (polls past) := hone.base_eq ▸ hcalm.known
  have hentered : w.engine.entered = answered (polls past) := hcalm.entered
  refine ⟨hasked, hknown, ?_, List.map_eq_nil_iff.mp hcalm.loops, hcalm.remotes,
    pushesUnknown_along h htracks⟩
  rw [World.Mirrors, hknown, hentered, hone.base_eq, hone.numbered.base_eq]
  cases hpolls : polls past with
  | nil => simp [tracked, answered]
  | cons e es =>
    have hnumbered := hone.asked e (hpolls ▸ List.mem_cons_self)
    have hright := reconciled_eq_iff hnumbered (tracked_nodup engine.base es)
    constructor
    · rintro ⟨hsame, -⟩ e' es' heq
      cases heq
      exact hright.mp hsame
    · intro hnear
      exact ⟨hright.mpr (hnear e es rfl), rfl⟩

theorem tracks_default : Tracks {} {} :=
  ⟨rfl, fun _ _ => nofun, rfl, rfl, rfl, rfl, by decide, nofun⟩

/-- Two sessions are entered by a command each, and a third command leaves the second. -/
theorem known_runspaces_follow_polls_left : ∃ past w, Tracks {} {} ∧ Commands {} {} past w ∧
    w.AtRest ∧ w.engine.entered.map Runspace.id = [1] ∧
    (polls past).length = 3 ∧ (polls past).length = (carriedOut past).length ∧
    w.pushed = tracked ({} : Engine).base (polls past) ∧
    (∀ e es, polls past = e :: es → e.Near (tracked ({} : Engine).base es)) ∧
    w.loops = [] ∧ w.nest.Remotes w.pushed.length ∧
    AllAlong (PushesUnknown ({} : Engine).base) past := by
  have hstart : Commands {} {} [] _ := .start rfl
  have hone := commands_of_follow (hstart.command (by decide +kernel)
    { command := .ofScript "enter-pssession one", options := {} })
    (List.replicate 10 0 ++ List.replicate 8 1 ++ List.replicate 8 0)
  have htwo := commands_of_follow (hone.command (by decide +kernel)
    { command := .ofScript "enter-pssession two", options := {} })
    (List.replicate 10 2 ++ List.replicate 8 3 ++ List.replicate 8 2)
  have hleft := commands_of_follow (htwo.command (by decide +kernel)
    { command := .ofScript "exit-pssession", options := {} })
    (List.replicate 10 4 ++ List.replicate 8 5 ++ List.replicate 12 4)
  obtain ⟨hasked, hknown, hmirrors, hloops, hremotes, hpushes⟩ :=
    known_runspaces_follow_polls tracks_default hleft (by decide +kernel)
  exact ⟨_, _, tracks_default, hleft, by decide +kernel, by decide +kernel, by decide +kernel,
    hasked, hknown, hmirrors.mp (by decide +kernel), hloops, hremotes, hpushes⟩

/-- A command enters two sessions, one inside the other, and the service learns of the second
alone. The next command leaves it, and a frame is pushed for the first. -/
theorem second_session_hides_first : ∃ past w later x w', Tracks {} {} ∧
    Commands {} {} past w ∧ w.AtRest ∧
    (w.engine.entered.map Runspace.id = [2, 1] ∧ w.pushed.map Runspace.id = [2]) ∧
    Commands {} {} (later ++ x :: past) w' ∧ w'.AtRest ∧
    (w'.engine.entered.map Runspace.id = [1] ∧ w'.pushed.map Runspace.id = [1, 2]) ∧
    ∃ y ∈ later, y.pushedFor?.isSome = true := by
  have hstart : Commands {} {} [] _ := .start rfl
  have hboth := commands_of_follow (hstart.command (by decide +kernel)
    { command := .ofScript "enter-pssession one | enter-pssession two", options := {} })
    (List.replicate 10 0 ++ List.replicate 12 1 ++ List.replicate 8 0)
  have hleft := commands_of_follow (hboth.command (by decide +kernel)
    { command := .ofScript "exit-pssession", options := {} })
    (List.replicate 10 2 ++ List.replicate 8 3 ++ List.replicate 8 2)
  exact ⟨_, _, _, _, _, tracks_default, hboth, by decide +kernel, by decide +kernel, hleft,
    by decide +kernel, by decide +kernel, by decide +kernel⟩

end Runs

end ScriptHost.Service
