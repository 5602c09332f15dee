import Mathlib.Algebra.Order.BigOperators.Group.List
import Mathlib.Tactic.Abel
import ScriptHost.Proofs.FitRuns

/-!
Outermost invocations in progress. An invocation runs under a lease of its frame, and a
frame has one lease, so the engine never works on two of them for one frame. Frames do not
exclude each other: a command that is routed while another is in progress runs beside it
if a further frame was pushed meanwhile and its lease is free. The engine's count also keeps
an invocation that was left by a panic. What exceeds one at a time is traced to these two.
-/

namespace ScriptHost.Service

/-- The leases of a thread: those in its stack, and the one on its way to it. -/
def Thread.held (t : Thread) : Multiset (Nat × Nat) :=
  leases t.stack + (t.control.lease?.toList : Multiset (Nat × Nat))

/-- The leases that threads have. -/
def World.held (w : World) : Multiset (Nat × Nat) :=
  total (fun _ t => t.held) w.threads

/-- The places in line that threads have. -/
def World.queued (w : World) : Multiset (Nat × Nat) :=
  total (fun _ t => waits t.stack) w.threads

/-- The nest accounts for the leases and the places in line of all threads, beside those that
were lost, and threads ask for leases of frames that were made. -/
structure World.Leased (w : World) : Prop where
  accounted : ∃ lost left, w.nest.Accounted (w.held + lost) (w.queued + left)
  asked_made : ∀ t ∈ w.threads, ∀ f ∈ asked t.stack, f < w.nest.frames.length

section Leased

variable {w w' : World}

theorem total_eq_sum_map {M : Type} [AddCommMonoid M] (f : Thread → M) (threads : List Thread) :
    total (fun _ t => f t) threads = (threads.map f).sum := by
  have hmap : threads.mapIdx (fun _ t => f t) = threads.map f := by
    apply List.ext_getElem?
    simp
  rw [total, hmap]

/-- A thread that was just started neither waits nor asks for a lease, and none is on its way
to it. -/
theorem Exchange.Newly.calm {t : Thread} (h : Exchange.Newly t) :
    t.held = leases t.stack ∧ waits t.stack = 0 ∧ asked t.stack = [] ∧
      invocations t.stack = [] := by
  cases h with
  | called hentry => cases hentry <;> exact ⟨rfl, rfl, rfl, rfl⟩
  | reader handle read => exact ⟨rfl, rfl, rfl, rfl⟩
  | worker handle o => exact ⟨rfl, rfl, rfl, rfl⟩

/-- What a part of a stack settles is settled beside the rest of it. -/
theorem Settles.beside {n n' : Nest} {live live' waiting waiting' : Multiset (Nat × Nat)}
    {asking asking' : List Nat} (h : Settles n live waiting asking n' live' waiting' asking')
    (held queued : Multiset (Nat × Nat)) (further : List Nat) :
    Settles n (live + held) (waiting + queued) (asking ++ further) n' (live' + held)
      (waiting' + queued) (asking' ++ further) := by
  refine ⟨h.1, ?_⟩
  intro held₁ queued₁ hmade haccounted
  rw [add_assoc, add_assoc] at haccounted
  obtain ⟨⟨lost, left, hafter⟩, hasking⟩ :=
    h.2 _ _ (fun f hf => hmade f (List.mem_append_left _ hf)) haccounted
  refine ⟨⟨lost, left, ?_⟩, ?_⟩
  · rw [add_assoc, add_assoc, add_left_comm held, add_left_comm queued]
    exact hafter
  · intro f hf
    rcases List.mem_append.mp hf with hf | hf
    · exact hasking f hf
    · exact (hmade f (List.mem_append_right _ hf)).trans_le h.1

/-- One thread changes and others are started. -/
theorem World.Leased.of_set (h : w.Leased) {k : Nat} {t t' : Thread} {started : List Thread}
    (ht : w.threads[k]? = some t) (hthreads : w'.threads = (w.threads ++ started).set k t')
    (hstarted : ∀ t ∈ started, Exchange.Newly t)
    (hnest : Settles w.nest t.held (waits t.stack) (asked t.stack) w'.nest
      (t'.held + (started.map fun t => leases t.stack).sum) (waits t'.stack) (asked t'.stack)) :
    w'.Leased := by
  obtain ⟨lost, left, haccounted⟩ := h.accounted
  obtain ⟨others, hheld, hheld'⟩ := exists_others_append (f := fun _ t => t.held) ht
  obtain ⟨others', hqueued, hqueued'⟩ := exists_others_append (f := fun _ t => waits t.stack) ht
  have hasked : ∀ f ∈ asked t.stack, f < w.nest.frames.length :=
    h.asked_made t (List.mem_of_getElem? ht)
  rw [World.held, World.queued, hheld, hqueued, add_assoc, add_assoc] at haccounted
  obtain ⟨⟨lost', left', hafter⟩, hasked'⟩ := hnest.2 _ _ hasked haccounted
  refine ⟨⟨lost' + lost, left' + left, ?_⟩, ?_⟩
  · have hnew : total (fun _ t => t.held) started = (started.map fun t => leases t.stack).sum := by
      rw [total_eq_sum_map, List.map_congr_left fun t ht => (hstarted t ht).calm.1]
    have hnone : total (fun _ t => waits t.stack) started = 0 := by
      rw [total_eq_sum_map, List.map_congr_left fun t ht => (hstarted t ht).calm.2.1]
      simp
    have hheld₁ : w'.held + (lost' + lost) =
        t'.held + (started.map fun t => leases t.stack).sum + (lost' + (others + lost)) := by
      rw [World.held, hthreads, hheld', hnew]
      abel
    have hqueued₁ : w'.queued + (left' + left) =
        waits t'.stack + (left' + (others' + left)) := by
      rw [World.queued, hthreads, hqueued', hnone]
      abel
    rw [hheld₁, hqueued₁]
    exact hafter
  · intro t₁ ht₁
    rw [hthreads] at ht₁
    rcases List.mem_or_eq_of_mem_set ht₁ with ht₁ | rfl
    · rcases List.mem_append.mp ht₁ with ht₁ | ht₁
      · exact fun f hf => (h.asked_made t₁ ht₁ f hf).trans_le hnest.1
      · rw [(hstarted t₁ ht₁).calm.2.2.1]
        simp
    · exact hasked'

theorem World.Leased.of_call (h : w.Leased) {a : Activation} (hentry : Entry a) :
    (w.spawn [a]).2.Leased := by
  obtain ⟨hheld, hqueued, hasked, -⟩ := Exchange.Newly.calm (.called hentry)
  have hnone : leases [a] = 0 := by cases hentry <;> rfl
  obtain ⟨lost, left, haccounted⟩ := h.accounted
  refine ⟨⟨lost, left, ?_⟩, ?_⟩
  · have hheld' : (w.spawn [a]).2.held = w.held := by
      simp only [World.held, World.spawn, total_append, total_singleton, hheld, hnone, add_zero]
    have hqueued' : (w.spawn [a]).2.queued = w.queued := by
      simp only [World.queued, World.spawn, total_append, total_singleton, hqueued, add_zero]
    rw [hheld', hqueued']
    exact haccounted
  · intro t ht
    rcases List.mem_append.mp ht with ht | ht
    · exact h.asked_made t ht
    · rw [List.mem_singleton.mp ht, hasked]
      simp

theorem World.Leased.of_client (h : w.Leased) (hclient : Client w w') : w'.Leased := by
  obtain ⟨lost, left, haccounted⟩ := h.accounted
  refine ⟨⟨lost, left, ?_⟩, ?_⟩
  · rw [World.held, World.queued, hclient.threads_same]
    exact hclient.accounted _ _ haccounted
  · rw [hclient.threads_same]
    exact fun t ht f hf => (h.asked_made t ht f hf).trans_le hclient.length_le

/-- A task that is given up holds no lease, and gives up its place in line. -/
theorem Suspended.withdrawn {k : Nat} {t : Thread} {s : List Activation} (h : Suspended s)
    (ht : w.threads[k]? = some t) (hs : t.stack = s) :
    leases s = 0 ∧ (waits s = 0 ∧ (w.dropTask k).nest = w.nest ∨
      ∃ frame ticket, waits s = {(frame, ticket)} ∧
        (w.dropTask k).nest = (w.nest.withdraw frame ticket).1) := by
  simp only [World.dropTask, ht, hs]
  cases h with
  | leasing | readLeasing | taking => exact ⟨rfl, Or.inr ⟨_, _, rfl, rfl⟩⟩
  | _ => exact ⟨rfl, Or.inl ⟨rfl, rfl⟩⟩

theorem settles_dropTask {k : Nat} {t : Thread} (ht : w.threads[k]? = some t)
    (hgo : t.control = .go) (h : Suspended t.stack) :
    Settles w.nest t.held (waits t.stack) (asked t.stack) (w.dropTask k).nest 0 0 [] := by
  obtain ⟨hleases, hwithdrawn⟩ := h.withdrawn ht rfl
  have hnone : t.held = 0 := by
    rw [Thread.held, hleases, hgo]
    rfl
  rw [hnone]
  rcases hwithdrawn with ⟨-, hnest⟩ | ⟨frame, ticket, hwaits, hnest⟩
  · rw [hnest]
    exact .keep (le_refl _) (Multiset.zero_le _) (by simp)
  · rw [hnest, hwaits]
    refine ⟨by simp [Nest.withdraw], ?_⟩
    intro held queued hmade haccounted
    rw [zero_add, Multiset.singleton_add] at haccounted
    refine ⟨⟨0, 0, ?_⟩, by simp⟩
    simpa using haccounted.withdraw.1

theorem settles_releaseLease {t : Thread} {h : Handle} (hs : t.stack = [])
    (hc : t.control = .back (.lease (.ok h))) :
    Settles w.nest t.held (waits t.stack) (asked t.stack) (w.nest.release h).1 0 0 [] := by
  have hheld : t.held = {h.lease} := by
    rw [Thread.held, hs, hc]
    rfl
  have hwaits : waits t.stack = 0 := by rw [hs]; rfl
  rw [hheld, hwaits]
  refine ⟨le_of_eq (length_release _ _).symm, ?_⟩
  intro held queued hmade haccounted
  rw [Multiset.singleton_add] at haccounted
  refine ⟨⟨0, 0, ?_⟩, by simp⟩
  simpa using haccounted.release.1

theorem World.Leased.step (h : w.Leased) {mover : Option Nat} (hstep : Step w mover w') :
    w'.Leased := by
  cases hstep with
  | @move k _ hfree hmove =>
    obtain ⟨t, ht, m, hm, rfl⟩ := mem_next.mp hmove
    obtain ⟨a, rest, hs, new, started, hlocal⟩ := local_of_moves hm
    have hthreads : m.1.threads.set k m.2 = (w.threads ++ started).set k m.2 := by
      rw [hlocal.threads_eq]
    refine h.of_set ht hthreads (newly_of_started hm hlocal) ?_
    have hnest := hlocal.nest.beside (leases rest) (waits rest) (asked rest)
    have hheld : t.held =
        leases [a] + (t.control.lease?.toList : Multiset (Nat × Nat)) + leases rest := by
      rw [Thread.held, hs, ← List.singleton_append, leases_append]
      abel
    have hwaits : waits (a :: rest) = waits [a] + waits rest := waits_append [a] rest
    have hasked : asked (a :: rest) = asked [a] ++ asked rest := asked_append [a] rest
    have hheld' : m.2.held + (started.map fun t => leases t.stack).sum =
        leases new + (m.2.control.lease?.toList : Multiset (Nat × Nat)) +
          (started.map fun t => leases t.stack).sum + leases rest := by
      rw [Thread.held, hlocal.stack_eq, leases_append]
      abel
    rw [hheld, hheld', hs, hwaits, hasked, hlocal.stack_eq, waits_append, asked_append]
    exact hnest
  | call hentry => exact h.of_call hentry
  | act hs => exact h.of_client (client_of_act hs)
  | @drop k t ht hgo hs =>
    have hthreads : (w.dropTask k).threads =
        (w.threads ++ []).set k { t with control := .dropped, stack := [] } := by
      rw [List.append_nil, (dropTask_spec ht).2.2]
    exact h.of_set ht hthreads (by simp) (settles_dropTask ht hgo hs)
  | release k =>
    rcases releaseLease_spec w k with hsame | ⟨t, handle, ht, hs, hc, -, -, hnest, hthreads⟩
    · rwa [hsame]
    · have hthreads' : (w.releaseLease k).threads =
          (w.threads ++ []).set k { t with control := .dropped } := by
        rw [List.append_nil, hthreads]
      refine h.of_set ht hthreads' (by simp) ?_
      rw [hnest]
      have hsettles := settles_releaseLease (w := w) hs hc
      rw [hs] at hsettles ⊢
      exact hsettles

theorem leased_of_run {past : List Transition} (h : Run past w) : w.Leased := by
  induction h with
  | start hactive hpeak h =>
    have hfresh := fresh_of_start h
    refine ⟨⟨0, 0, ?_⟩, by simp [hfresh.threads]⟩
    rw [World.held, World.queued, hfresh.threads, hfresh.nest]
    exact Nest.initial_accounted
  | step h hstep ih => exact ih.step hstep

end Leased

/-- The frames on which outermost invocations are in progress. -/
def World.inProgress (w : World) : Multiset Nat :=
  total (fun _ t => frames t.stack) w.threads

section Exclusion

variable {w : World} {s rest : List Activation}

theorem frames_append (top rest : List Activation) :
    frames (top ++ rest) = frames top + frames rest := by
  rw [frames, invocations_append, List.filter_append, List.map_append]
  rfl

theorem lease_mem_of_leaseBelow {h : Handle} (hbelow : leaseBelow? rest = some h) :
    h.lease ∈ leases rest := by
  unfold leaseBelow? at hbelow
  split at hbelow <;> cases hbelow <;> simp [leases, Activation.lease?]

theorem frames_singleton (a : Activation) : frames [a] = 0 ∨
    ∃ i, a = .invocation i ∧ i.inProgress = true ∧ frames [a] = {i.frame.id} := by
  cases a with
  | invocation i =>
    by_cases hprogress : i.inProgress = true
    · refine Or.inr ⟨i, rfl, hprogress, ?_⟩
      simp [frames, invocations, hprogress]
    · refine Or.inl ?_
      simp [frames, invocations, hprogress]
  | _ => exact Or.inl rfl

/-- An invocation in progress has a lease below it, and with it the invoker of its frame. -/
theorem frames_le_leases (h : Sits s) : frames s ≤ (leases s).map Prod.snd := by
  induction s with
  | nil => exact Multiset.zero_le _
  | cons a rest ih =>
    rw [← List.singleton_append, frames_append, leases_append, Multiset.map_add]
    rcases frames_singleton a with hnone | ⟨i, rfl, hprogress, hframe⟩
    · rw [hnone]
      exact add_le_add (Multiset.zero_le _) (ih h.2)
    · have houtermost : i.outermost = true := ((Bool.and_eq_true _ _).mp hprogress).1
      obtain ⟨halone, handle, hbelow, hinvoker⟩ := h.1.2 houtermost
      have hnone : frames rest = 0 := by
        rw [frames, halone]
        rfl
      rw [hframe, hnone, add_zero, hinvoker, Multiset.singleton_le]
      refine Multiset.mem_add.mpr (Or.inr ?_)
      exact Multiset.mem_map_of_mem Prod.snd (lease_mem_of_leaseBelow hbelow)

theorem inProgress_le_held (h : w.Fitted) : w.inProgress ≤ w.held.map Prod.snd := by
  have hmap : w.held.map Prod.snd = (w.threads.map fun t => t.held.map Prod.snd).sum := by
    rw [World.held, total_eq_sum_map]
    exact (map_list_sum (Multiset.mapAddMonoidHom Prod.snd) _).trans (by rw [List.map_map]; rfl)
  rw [World.inProgress, total_eq_sum_map, hmap]
  refine List.sum_le_sum ?_
  intro t ht
  obtain ⟨k, hk⟩ := List.mem_iff_getElem?.mp ht
  refine (frames_le_leases (h.fit k t hk).sits).trans ?_
  exact Multiset.map_le_map (Multiset.le_add_right _ _)

/-- The engine works for a frame on behalf of the thread that has the frame's lease. -/
theorem lease_of_inProgress {past : List Transition} (h : Run past w) {t : Thread}
    (hmem : t ∈ w.threads) {f : Nat} (hf : f ∈ frames t.stack) : (f, f) ∈ leases t.stack := by
  obtain ⟨k, ht⟩ := List.mem_iff_getElem?.mp hmem
  obtain ⟨lost, left, haccounted⟩ := (leased_of_run h).accounted
  obtain ⟨⟨frame, invoker⟩, hlease, rfl⟩ := Multiset.mem_map.mp
    (Multiset.mem_of_le (frames_le_leases ((fitted_of_run h).fit k t ht).sits) hf)
  have hheld : (frame, invoker) ∈ w.held + lost := by
    obtain ⟨others, hsplit, -⟩ := exists_others (f := fun _ t => t.held) ht
    rw [World.held, hsplit, Thread.held]
    simp only [Multiset.mem_add]
    exact Or.inl (Or.inl (Or.inl hlease))
  have hown : invoker = frame := haccounted.invoker_eq hheld
  rwa [hown] at hlease ⊢

theorem inProgress_nodup {past : List Transition} (h : Run past w) : w.inProgress.Nodup := by
  obtain ⟨lost, left, haccounted⟩ := (leased_of_run h).accounted
  have hinvokers : (w.held + lost).map Prod.snd = (w.held + lost).map Prod.fst :=
    Multiset.map_congr rfl fun p hp => haccounted.invoker_eq hp
  have hle : w.inProgress ≤ (w.held + lost).map Prod.snd :=
    (inProgress_le_held (fitted_of_run h)).trans (Multiset.map_le_map (Multiset.le_add_right _ _))
  exact Multiset.nodup_of_le (hinvokers ▸ hle) haccounted.live_nodup

end Exclusion

/-- The stack of a thread. -/
def World.stackOf (w : World) (k : Nat) : List Activation :=
  (w.threads[k]?.map Thread.stack).getD []

/-- The frame on which a transition starts an outermost invocation. -/
def Transition.starts? (x : Transition) : Option Nat :=
  x.mover.bind fun k => Service.starts? (x.before.stackOf k) (x.after.stackOf k)

/-- Whether a transition leaves an outermost invocation that is still in progress, which only
a panic does. -/
def Transition.breaks (x : Transition) : Bool :=
  x.mover.any fun k => Service.breaks (x.before.stackOf k) (x.after.stackOf k)

/-- How the engine counts along a transition. -/
inductive Counted (w : World) (mover : Option Nat) (w' : World) : Prop
  | same (hstarts : Transition.starts? ⟨w, mover, w'⟩ = none)
      (hbreaks : Transition.breaks ⟨w, mover, w'⟩ = false)
      (hactive : w'.engine.active = w.engine.active) (hpeak : w'.engine.peak = w.engine.peak)
      (hprogress : w'.inProgress = w.inProgress)
  | started (f : Nat) (hstarts : Transition.starts? ⟨w, mover, w'⟩ = some f)
      (hbreaks : Transition.breaks ⟨w, mover, w'⟩ = false)
      (hactive : w'.engine.active = w.engine.active + 1)
      (hpeak : w'.engine.peak = max w.engine.peak (w.engine.active + 1))
      (hprogress : w'.inProgress = f ::ₘ w.inProgress)
  | ended (f : Nat) (hstarts : Transition.starts? ⟨w, mover, w'⟩ = none)
      (hbreaks : Transition.breaks ⟨w, mover, w'⟩ = false)
      (hactive : w'.engine.active = w.engine.active - 1) (hpeak : w'.engine.peak = w.engine.peak)
      (hprogress : w.inProgress = f ::ₘ w'.inProgress)
  | broken (f : Nat) (hstarts : Transition.starts? ⟨w, mover, w'⟩ = none)
      (hbreaks : Transition.breaks ⟨w, mover, w'⟩ = true)
      (hactive : w'.engine.active = w.engine.active) (hpeak : w'.engine.peak = w.engine.peak)
      (hprogress : w.inProgress = f ::ₘ w'.inProgress)

section Counted

variable {w w' : World}

/-- What is in progress after one thread changed and others were started. -/
theorem inProgress_set {k : Nat} {t : Thread} (ht : w.threads[k]? = some t) :
    ∃ others, w.inProgress = frames t.stack + others ∧
      ∀ (w' : World) (t' : Thread) started, w'.threads = (w.threads ++ started).set k t' →
        (∀ t ∈ started, Exchange.Newly t) → w'.inProgress = frames t'.stack + others := by
  obtain ⟨others, hbefore, hafter⟩ := exists_others_append (f := fun _ t => frames t.stack) ht
  refine ⟨others, hbefore, ?_⟩
  intro w' t' started hthreads hstarted
  have hnone : total (fun _ t => frames t.stack) started = 0 := by
    have hzero : ∀ t ∈ started, frames t.stack = 0 := by
      intro t ht
      rw [frames, (hstarted t ht).calm.2.2.2]
      rfl
    rw [total_eq_sum_map, List.map_congr_left hzero]
    simp
  rw [World.inProgress, hthreads, hafter, hnone, zero_add]

theorem stackOf_of_thread {k : Nat} {t : Thread} (ht : w.threads[k]? = some t) :
    w.stackOf k = t.stack := by
  rw [World.stackOf, ht]
  rfl

/-- What a client does starts and ends no invocation. -/
theorem Counted.of_client (hactive : w'.engine.active = w.engine.active)
    (hpeak : w'.engine.peak = w.engine.peak) (hprogress : w'.inProgress = w.inProgress) :
    Counted w none w' :=
  .same rfl rfl hactive hpeak hprogress

theorem counted_of_move {k : Nat} {others : Multiset Nat} {s s' : List Activation}
    (ht : w.stackOf k = s) (ht' : w'.stackOf k = s')
    (hbefore : w.inProgress = frames s + others) (hafter : w'.inProgress = frames s' + others)
    (h : Counts w.engine s w'.engine s') : Counted w (some k) w' := by
  have hstarts : Transition.starts? ⟨w, some k, w'⟩ = starts? s s' := by
    rw [← ht, ← ht']
    rfl
  have hbreaks : Transition.breaks ⟨w, some k, w'⟩ = breaks s s' := by
    rw [← ht, ← ht']
    rfl
  cases h with
  | same hs hb hactive hpeak hframes =>
    exact .same (hstarts.trans hs) (hbreaks.trans hb) hactive hpeak
      (by rw [hafter, hframes, hbefore])
  | started f hs hb hactive hpeak hframes =>
    exact .started f (hstarts.trans hs) (hbreaks.trans hb) hactive hpeak
      (by rw [hafter, hframes, hbefore, Multiset.cons_add])
  | ended f hs hb hactive hpeak hframes =>
    exact .ended f (hstarts.trans hs) (hbreaks.trans hb) hactive hpeak
      (by rw [hbefore, hframes, hafter, Multiset.cons_add])
  | broken f hs hb hactive hpeak hframes =>
    exact .broken f (hstarts.trans hs) (hbreaks.trans hb) hactive hpeak
      (by rw [hbefore, hframes, hafter, Multiset.cons_add])

/-- What is in progress beside the thread that moves. -/
theorem inProgress_of_moves {k : Nat} {t : Thread} {m : World × Thread}
    (ht : w.threads[k]? = some t) (hm : m ∈ t.moves w k) :
    ∃ others, w.inProgress = frames t.stack + others ∧
      ({ m.1 with threads := m.1.threads.set k m.2 } : World).inProgress =
        frames m.2.stack + others := by
  obtain ⟨a, rest, hs, new, started, hlocal⟩ := local_of_moves hm
  obtain ⟨others, hbefore, hafter⟩ := inProgress_set ht
  have hthreads : m.1.threads.set k m.2 = (w.threads ++ started).set k m.2 := by
    rw [hlocal.threads_eq]
  exact ⟨others, hbefore, hafter _ m.2 started hthreads (newly_of_started hm hlocal)⟩

theorem thread_of_moves {k : Nat} {t : Thread} {m : World × Thread}
    (ht : w.threads[k]? = some t) (hm : m ∈ t.moves w k) :
    (m.1.threads.set k m.2)[k]? = some m.2 := by
  obtain ⟨a, rest, hs, new, started, hlocal⟩ := local_of_moves hm
  have hk : k < w.threads.length := (List.getElem?_eq_some_iff.mp ht).1
  rw [hlocal.threads_eq, List.getElem?_set_self]
  rw [List.length_append]
  omega

theorem progress_of_client (hstep : Step w none w') :
    w'.engine.active = w.engine.active ∧ w'.engine.peak = w.engine.peak ∧
      w'.inProgress = w.inProgress := by
  cases hstep with
  | @call a hentry =>
    refine ⟨rfl, rfl, ?_⟩
    have hnone : frames [a] = 0 := by
      rw [frames, (Exchange.Newly.calm (.called hentry)).2.2.2]
      rfl
    simp only [World.inProgress, World.spawn, total_append, total_singleton, hnone, add_zero]
  | act hs =>
    have hclient := client_of_act (w := w) hs
    refine ⟨hclient.active_same, hclient.peak_same, ?_⟩
    rw [World.inProgress, hclient.threads_same, World.inProgress]
  | @drop k t ht hgo hsuspended =>
    obtain ⟨hengine, -, hthreads⟩ := dropTask_spec ht
    obtain ⟨others, hbefore, hafter⟩ := inProgress_set ht
    refine ⟨by rw [hengine], by rw [hengine], ?_⟩
    rw [hafter _ _ [] (by rw [List.append_nil, hthreads]) (by simp), hbefore, frames, frames,
      hsuspended.plain.1]
    rfl
  | release k =>
    rcases releaseLease_spec w k with hsame | ⟨t, handle, ht, hs, -, hengine, -, -, hthreads⟩
    · exact ⟨by rw [hsame], by rw [hsame], by rw [hsame]⟩
    · obtain ⟨others, hbefore, hafter⟩ := inProgress_set ht
      refine ⟨by rw [hengine], by rw [hengine], ?_⟩
      rw [hafter _ _ [] (by rw [List.append_nil, hthreads]) (by simp), hbefore]

theorem counted_of_step (h : w.Fitted) {mover : Option Nat} (hstep : Step w mover w') :
    Counted w mover w' := by
  cases mover with
  | none =>
    obtain ⟨hactive, hpeak, hprogress⟩ := progress_of_client hstep
    exact .of_client hactive hpeak hprogress
  | some k =>
    cases hstep with
    | move hfree hmove =>
      obtain ⟨t, ht, m, hm, rfl⟩ := mem_next.mp hmove
      obtain ⟨a, rest, hs, new, started, hlocal⟩ := local_of_moves hm
      obtain ⟨others, hbefore, hafter⟩ := inProgress_of_moves ht hm
      refine counted_of_move (stackOf_of_thread ht) (stackOf_of_thread (thread_of_moves ht hm))
        hbefore hafter ?_
      rw [hs, hlocal.stack_eq]
      exact hlocal.counts (hs ▸ h.fit k t ht)

theorem subscribeIdle_counts {e e' : Engine} {r : Except EngineError Unit}
    (h : e.subscribeIdle = (r, e')) : e'.active = e.active ∧ e'.peak = e.peak := by
  unfold Engine.subscribeIdle at h
  split at h
  · next hfault =>
    cases h
    exact Engine.counts_of_takeFault hfault
  · cases h
    exact ⟨rfl, rfl⟩

theorem configure_counts (o : Operations) (e : Engine) :
    (o.configure e).active = e.active ∧ (o.configure e).peak = e.peak := by
  cases o <;> exact ⟨rfl, rfl⟩

theorem counts_of_start {config : Config} {engine : Engine}
    (h : World.start config engine = .ok w) :
    w.engine.active = engine.active ∧ w.engine.peak = engine.peak := by
  obtain ⟨hactive, hpeak⟩ := configure_counts engine.version.operations engine
  rw [← hactive, ← hpeak]
  unfold World.start at h
  simp only at h
  generalize engine.version.operations.configure engine = e at h
  split at h
  · cases h
  · next e₁ hsubscribed =>
    have hfirst : e₁.active = e.active ∧ e₁.peak = e.peak := by
      split at hsubscribed
      · cases hsubscribed
        exact ⟨rfl, rfl⟩
      · exact subscribeIdle_counts hsubscribed
    cases h
    rw [← hfirst.1, ← hfirst.2]
    dsimp only [World.setSession, World.changeSession]
    split
    · next hdetails => exact (details_spec hdetails).2
    · next hdetails => exact (details_spec hdetails).2

/-- The engine's count of invocations is of those in progress and of those that were left by a
panic. -/
theorem active_of_run {past : List Transition} (h : Run past w) :
    w.engine.active = w.inProgress.card + past.countP Transition.breaks := by
  induction h with
  | start hactive hpeak h =>
    rw [(counts_of_start h).1, hactive, World.inProgress, (fresh_of_start h).threads]
    rfl
  | @step past w w' mover h hstep ih =>
    cases counted_of_step (fitted_of_run h) hstep with
    | same hstarts hbreaks hactive hpeak hprogress =>
      rw [hactive, hprogress, ih, List.countP_cons_of_neg (by simp [hbreaks])]
    | started f hstarts hbreaks hactive hpeak hprogress =>
      rw [hactive, hprogress, ih, List.countP_cons_of_neg (by simp [hbreaks]), Multiset.card_cons]
      omega
    | ended f hstarts hbreaks hactive hpeak hprogress =>
      rw [hactive, ih, hprogress, List.countP_cons_of_neg (by simp [hbreaks]), Multiset.card_cons]
      omega
    | broken f hstarts hbreaks hactive hpeak hprogress =>
      rw [hactive, ih, hprogress, List.countP_cons_of_pos hbreaks, Multiset.card_cons]
      omega

/-- The engine's peak stays at one as long as every outermost invocation starts on an engine
that counts none. -/
theorem peak_le_one_iff_active {past : List Transition} (h : Run past w) :
    w.engine.peak ≤ 1 ↔ ∀ x ∈ past, ∀ f, x.starts? = some f → x.before.engine.active = 0 := by
  induction h with
  | start hactive hpeak h =>
    rw [(counts_of_start h).2, hpeak]
    simp
  | @step past w w' mover h hstep ih =>
    rw [List.forall_mem_cons, ← ih]
    cases counted_of_step (fitted_of_run h) hstep with
    | started f hstarts hbreaks hactive hpeak hprogress =>
      rw [hpeak, hstarts]
      constructor
      · intro hle
        have hzero : w.engine.active = 0 := by omega
        exact ⟨fun _ _ => hzero, by omega⟩
      · rintro ⟨hzero, hle⟩
        have hzero : w.engine.active = 0 := hzero f rfl
        omega
    | same hstarts hbreaks hactive hpeak hprogress
    | ended f hstarts hbreaks hactive hpeak hprogress
    | broken f hstarts hbreaks hactive hpeak hprogress =>
      rw [hpeak, hstarts]
      simp

theorem inProgress_of_starts (h : w.Fitted) {mover : Option Nat} (hstep : Step w mover w')
    {f : Nat} (hstarts : Transition.starts? ⟨w, mover, w'⟩ = some f) :
    w'.inProgress = f ::ₘ w.inProgress := by
  cases counted_of_step h hstep with
  | started g hstarts' hbreaks hactive hpeak hprogress =>
    obtain rfl := Option.some.inj (hstarts'.symm.trans hstarts)
    exact hprogress
  | same hstarts' | ended _ hstarts' | broken _ hstarts' =>
    rw [hstarts] at hstarts'
    cases hstarts'

/-- A frame on which an invocation starts has none in progress. -/
theorem not_inProgress_of_starts {past : List Transition} (h : Run past w) {mover : Option Nat}
    (hstep : Step w mover w') {f : Nat}
    (hstarts : Transition.starts? ⟨w, mover, w'⟩ = some f) : f ∉ w.inProgress := by
  have hnodup := inProgress_nodup (h.step hstep)
  rw [inProgress_of_starts (fitted_of_run h) hstep hstarts] at hnodup
  exact (Multiset.nodup_cons.mp hnodup).1

/-- The engine counts no invocation when one starts, exactly if none is in progress on another
frame and none was left by a panic. -/
theorem active_eq_zero_iff {past : List Transition} (h : Run past w) {mover : Option Nat}
    (hstep : Step w mover w') {f : Nat}
    (hstarts : Transition.starts? ⟨w, mover, w'⟩ = some f) :
    w.engine.active = 0 ↔ (∀ g ∈ w.inProgress, g = f) ∧ ∀ y ∈ past, y.breaks = false := by
  have hfree := not_inProgress_of_starts h hstep hstarts
  have hnone : w.inProgress.card = 0 ↔ ∀ g ∈ w.inProgress, g = f := by
    rw [Multiset.card_eq_zero]
    constructor
    · intro hempty
      simp [hempty]
    · intro hother
      refine Multiset.eq_zero_of_forall_notMem ?_
      intro g hg
      exact hfree (hother g hg ▸ hg)
  have hwhole : past.countP Transition.breaks = 0 ↔ ∀ y ∈ past, y.breaks = false := by
    simp only [List.countP_eq_zero, Bool.not_eq_true]
  rw [active_of_run h, Nat.add_eq_zero_iff, hnone, hwhole]

end Counted

/-- The engine never works on two outermost invocations of one frame, and it works for a frame
on behalf of the thread that has the frame's lease. It counts those in progress and those that
were left by a panic. So it counts more than one exactly if one starts while one is in progress
on another frame, or after one was left by a panic. -/
theorem one_at_a_time_iff {past : List Transition} {w : World} (h : Run past w) :
    w.inProgress.Nodup ∧
      (∀ t ∈ w.threads, ∀ f ∈ frames t.stack, (f, f) ∈ leases t.stack) ∧
      w.engine.active = w.inProgress.card + past.countP Transition.breaks ∧
      (w.engine.peak ≤ 1 ↔ ∀ later x earlier f, past = later ++ x :: earlier →
        x.starts? = some f →
          (∀ g ∈ x.before.inProgress, g = f) ∧ ∀ y ∈ earlier, y.breaks = false) := by
  refine ⟨inProgress_nodup h, fun t ht f hf => lease_of_inProgress h ht hf, active_of_run h, ?_⟩
  rw [peak_le_one_iff_active h]
  constructor
  · rintro hzero later x earlier f rfl hstarts
    obtain ⟨hbefore, hstep⟩ := run_before h
    exact (active_eq_zero_iff hbefore hstep hstarts).mp (hzero x (by simp) f hstarts)
  · intro hlone x hx f hstarts
    obtain ⟨later, earlier, rfl⟩ := List.append_of_mem hx
    obtain ⟨hbefore, hstep⟩ := run_before h
    exact (active_eq_zero_iff hbefore hstep hstarts).mpr (hlone later x earlier f rfl hstarts)

/-- After an overflow left a command, the next one is counted beside it, though none was in
progress when it started. -/
theorem one_at_a_time_iff_panicked : ∃ past w, Run past w ∧ w.engine.peak = 2 ∧
    w.engine.active = w.inProgress.card + 1 ∧ w.inProgress.Nodup ∧
    ¬ ∀ later x earlier f, past = later ++ x :: earlier → x.starts? = some f →
      (∀ g ∈ x.before.inProgress, g = f) ∧ ∀ y ∈ earlier, y.breaks = false := by
  have hstart : Run [] _ := @Run.start {} {} _ rfl rfl rfl
  have hfirst := run_of_follow (hstart.step (.call (.execute
    { command := .ofScript "add 9223372036854775807 1", options := {} })))
    (List.replicate 10 0 ++ List.replicate 5 1 ++ List.replicate 4 0)
  have hsecond := run_of_follow (hfirst.step (.call (.execute
    { command := .ofScript "echo hi", options := {} }))) (List.replicate 10 2 ++ [3])
  obtain ⟨hnodup, -, hactive, hpeak⟩ := one_at_a_time_iff hsecond
  refine ⟨_, _, hsecond, by decide +kernel, hactive.trans ?_, hnodup, ?_⟩
  · decide +kernel
  · rw [← hpeak]
    decide +kernel

/-- A command that never ends is in progress on the first frame when a runspace is pushed, and
the next command runs beside it on the frame of that runspace. -/
theorem two_at_a_time_beside_runspace : ∃ past w, Run past w ∧ w.engine.peak = 2 ∧
    w.engine.active = 2 ∧ w.inProgress = {0, 1} ∧ past.all (fun x => !x.breaks) = true := by
  have hstart : Run [] _ := @Run.start {} {} _ rfl rfl rfl
  have hfirst := run_of_follow (hstart.step (.call (.execute
    { command := .ofScript "sleep 600000", options := {} })))
    (List.replicate 10 0 ++ List.replicate 3 1)
  have hpushed := run_of_follow (hfirst.step (.call (.pushRunspace
    { id := 1, location := .computer "far" }))) (List.replicate 4 2)
  have hsecond := run_of_follow (hpushed.step (.call (.execute
    { command := .ofScript "echo hi", options := {} }))) (List.replicate 8 3 ++ [4])
  refine ⟨_, _, hsecond, ?_, ?_, ?_, ?_⟩
  · decide +kernel
  · decide +kernel
  · decide +kernel
  · decide +kernel

end ScriptHost.Service
