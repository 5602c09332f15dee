import Mathlib.Algebra.Order.Group.Multiset
import ScriptHost.Nest
import ScriptHost.Proofs.QueueItems

/-!
The account of a prompt nest. Outside the nest there are the leases that are out, each
the pair of its frame and its invoker, and the callers that wait, each the pair of its
frame and its ticket. The account says that every frame has its own invoker in exactly
one place, and that every ticket a queue may still serve belongs to one waiting caller.
Each operation of the nest keeps the account, if its caller books what it got and what
it gave back. Who the callers are does not matter here.
-/

namespace ScriptHost

/-- A lease that is out: its frame and its invoker. -/
def Handle.lease (h : Handle) : Nat × Nat :=
  (h.frame, h.invoker)

namespace Taking

/-- What a caller of `frame` holds after an answer. -/
def lease (frame : Nat) : Taking Nat → Multiset (Nat × Nat)
  | item invoker => {(frame, invoker)}
  | _ => 0

/-- Where a caller of `frame` waits after an answer. -/
def place (frame : Nat) : Taking Nat → Multiset (Nat × Nat)
  | waiting ticket => {(frame, ticket)}
  | _ => 0

end Taking

namespace Nest

/-- The second parts of the pairs that belong to a frame. -/
def onFrame (m : Multiset (Nat × Nat)) (frame : Nat) : Multiset Nat :=
  (m.filter (·.1 = frame)).map Prod.snd

@[simp] theorem onFrame_zero (i : Nat) : onFrame 0 i = 0 := rfl

@[simp] theorem onFrame_cons_self (i a : Nat) (m : Multiset (Nat × Nat)) :
    onFrame ((i, a) ::ₘ m) i = a ::ₘ onFrame m i := by
  simp [onFrame]

theorem onFrame_cons_ne {i j : Nat} (a : Nat) (m : Multiset (Nat × Nat)) (h : j ≠ i) :
    onFrame ((i, a) ::ₘ m) j = onFrame m j := by
  simp [onFrame, Ne.symm h]

theorem mem_onFrame {m : Multiset (Nat × Nat)} {i a : Nat} : a ∈ onFrame m i ↔ (i, a) ∈ m := by
  simp only [onFrame, Multiset.mem_map, Multiset.mem_filter]
  constructor
  · rintro ⟨⟨j, b⟩, ⟨hmem, rfl⟩, rfl⟩
    exact hmem
  · intro h
    exact ⟨(i, a), ⟨h, rfl⟩, rfl⟩

/-- Every invoker is in one place, and every ticket belongs to one waiting caller. -/
structure Accounted (n : Nest) (live waiting : Multiset (Nat × Nat)) : Prop where
  invoker_once : ∀ i < n.frames.length, (n.frame i).queue.items + onFrame live i = {i}
  tickets_wait : ∀ i < n.frames.length, (n.frame i).queue.tickets ≤ onFrame waiting i
  waiting_nodup : ∀ i < n.frames.length, (onFrame waiting i).Nodup
  waiting_issued : ∀ i < n.frames.length, ∀ t ∈ onFrame waiting i, t < (n.frame i).queue.nextTicket
  live_made : ∀ p ∈ live, p.1 < n.frames.length
  waiting_made : ∀ p ∈ waiting, p.1 < n.frames.length
  above_made : ∀ i ∈ n.above, i < n.frames.length
  base_made : 0 < n.frames.length

@[simp] theorem length_update (n : Nest) (i : Nat) (f : Frame → Frame) :
    (n.update i f).frames.length = n.frames.length := by
  simp [update]

theorem frame_update_self (n : Nest) (i : Nat) (f : Frame → Frame) (hi : i < n.frames.length) :
    (n.update i f).frame i = f (n.frame i) := by
  simp [update, frame, hi]

theorem frame_update_ne (n : Nest) (i j : Nat) (f : Frame → Frame) (h : j ≠ i) :
    (n.update i f).frame j = n.frame j := by
  simp [update, frame, Ne.symm h]

@[simp] theorem length_setQueue (n : Nest) (i : Nat) (q : WaitQueue Nat) :
    (n.setQueue i q).frames.length = n.frames.length :=
  length_update n i _

@[simp] theorem length_setReading (n : Nest) (i : Nat) (b : Bool) :
    (n.setReading i b).frames.length = n.frames.length :=
  length_update n i _

@[simp] theorem above_setQueue (n : Nest) (i : Nat) (q : WaitQueue Nat) :
    (n.setQueue i q).above = n.above := rfl

@[simp] theorem above_setReading (n : Nest) (i : Nat) (b : Bool) :
    (n.setReading i b).above = n.above := rfl

@[simp] theorem queue_setReading (n : Nest) (i j : Nat) (b : Bool) :
    ((n.setReading i b).frame j).queue = (n.frame j).queue := by
  simp only [setReading, update, frame, List.getElem?_modify]
  by_cases h : i = j
  · subst h
    cases n.frames[i]? <;> simp
  · simp [h]

@[simp] theorem length_endReading (n : Nest) (h : Handle) :
    (n.endReading h).frames.length = n.frames.length := by
  unfold endReading
  split <;> simp

@[simp] theorem above_endReading (n : Nest) (h : Handle) :
    (n.endReading h).above = n.above := by
  unfold endReading
  split <;> rfl

@[simp] theorem queue_endReading (n : Nest) (h : Handle) (j : Nat) :
    ((n.endReading h).frame j).queue = (n.frame j).queue := by
  unfold endReading
  split <;> simp

section Operations

variable {n : Nest} {live waiting : Multiset (Nat × Nat)} {i : Nat}

theorem top_lt (h : n.Accounted live waiting) : n.top < n.frames.length := by
  unfold top
  cases habove : n.above with
  | nil => exact h.base_made
  | cons j rest => exact h.above_made j (by simp [habove])

/-- The account speaks of the queues only. -/
theorem Accounted.of_queues {n' : Nest} (h : n.Accounted live waiting)
    (hlength : n'.frames.length = n.frames.length) (habove : ∀ j ∈ n'.above, j ∈ n.above)
    (hqueue : ∀ j, (n'.frame j).queue = (n.frame j).queue) : n'.Accounted live waiting where
  invoker_once j hj := by rw [hqueue]; exact h.invoker_once j (hlength ▸ hj)
  tickets_wait j hj := by rw [hqueue]; exact h.tickets_wait j (hlength ▸ hj)
  waiting_nodup j hj := h.waiting_nodup j (hlength ▸ hj)
  waiting_issued j hj := by rw [hqueue]; exact h.waiting_issued j (hlength ▸ hj)
  live_made p hp := hlength ▸ h.live_made p hp
  waiting_made p hp := hlength ▸ h.waiting_made p hp
  above_made j hj := hlength ▸ h.above_made j (habove j hj)
  base_made := hlength ▸ h.base_made

theorem Accounted.setReading (h : n.Accounted live waiting) (b : Bool) :
    (n.setReading i b).Accounted live waiting :=
  h.of_queues (by simp) (by simp) (by simp)

theorem Accounted.endReading (h : n.Accounted live waiting) (handle : Handle) :
    (n.endReading handle).Accounted live waiting :=
  h.of_queues (by simp) (by simp) (by simp)

/-- Changes the queue of one frame, and with it what is out on that frame. -/
theorem Accounted.setQueue {live' waiting' : Multiset (Nat × Nat)} {q : WaitQueue Nat}
    (h : n.Accounted live waiting) (hi : i < n.frames.length)
    (hlive : ∀ j ≠ i, onFrame live' j = onFrame live j)
    (hwaiting : ∀ j ≠ i, onFrame waiting' j = onFrame waiting j)
    (hitems : q.items + onFrame live' i = (n.frame i).queue.items + onFrame live i)
    (htickets : q.tickets ≤ onFrame waiting' i) (hnodup : (onFrame waiting' i).Nodup)
    (hissued : ∀ t ∈ onFrame waiting' i, t < q.nextTicket)
    (hlive_made : ∀ p ∈ live', p.1 < n.frames.length)
    (hwaiting_made : ∀ p ∈ waiting', p.1 < n.frames.length) :
    (n.setQueue i q).Accounted live' waiting' := by
  have hself : ((n.setQueue i q).frame i).queue = q := by
    rw [Nest.setQueue, frame_update_self n i _ hi]
  have hother : ∀ j ≠ i, ((n.setQueue i q).frame j).queue = (n.frame j).queue := by
    intro j hj
    rw [Nest.setQueue, frame_update_ne n i j _ hj]
  refine ⟨?_, ?_, ?_, ?_, by simpa using hlive_made, by simpa using hwaiting_made,
    by simpa using h.above_made, by simpa using h.base_made⟩ <;> intro j hj <;>
    rw [length_setQueue] at hj <;> by_cases hji : j = i
  · rw [hji, hself, hitems]
    exact h.invoker_once i hi
  · rw [hother j hji, hlive j hji]
    exact h.invoker_once j hj
  · rw [hji, hself]
    exact htickets
  · rw [hother j hji, hwaiting j hji]
    exact h.tickets_wait j hj
  · rw [hji]
    exact hnodup
  · rw [hwaiting j hji]
    exact h.waiting_nodup j hj
  · rw [hji, hself]
    exact hissued
  · rw [hother j hji, hwaiting j hji]
    exact h.waiting_issued j hj

theorem Accounted.tickets_nodup (h : n.Accounted live waiting) (hi : i < n.frames.length) :
    (n.frame i).queue.tickets.Nodup :=
  Multiset.nodup_of_le (h.tickets_wait i hi) (h.waiting_nodup i hi)

theorem Accounted.items_le_one (h : n.Accounted live waiting) (hi : i < n.frames.length) :
    (n.frame i).queue.items.card ≤ 1 := by
  have hcard := congrArg Multiset.card (h.invoker_once i hi)
  rw [Multiset.card_add, Multiset.card_singleton] at hcard
  omega

/-- A frame is the only one that ever gives out its invoker. -/
theorem Accounted.invoker_eq (h : n.Accounted live waiting) {p : Nat × Nat} (hp : p ∈ live) :
    p.2 = p.1 := by
  have hin : p.2 ∈ ({p.1} : Multiset Nat) := by
    rw [← h.invoker_once p.1 (h.live_made p hp)]
    exact Multiset.mem_add.mpr (Or.inr (mem_onFrame.mpr hp))
  exact Multiset.mem_singleton.mp hin

/-- No two leases that are out are of one frame. -/
theorem Accounted.live_nodup (h : n.Accounted live waiting) : (live.map Prod.fst).Nodup := by
  rw [Multiset.nodup_iff_count_le_one]
  intro j
  by_cases hj : j < n.frames.length
  · have hcount : (live.map Prod.fst).count j = (onFrame live j).card := by
      rw [Multiset.count_map, onFrame, Multiset.card_map]
      simp only [eq_comm]
    have hcard := congrArg Multiset.card (h.invoker_once j hj)
    rw [Multiset.card_add, Multiset.card_singleton] at hcard
    omega
  · rw [Multiset.count_eq_zero_of_notMem]
    · exact Nat.zero_le 1
    · intro hmem
      obtain ⟨p, hp, rfl⟩ := Multiset.mem_map.mp hmem
      exact hj (h.live_made p hp)

/-- A caller that has an item or fails waits no more. -/
theorem Accounted.served {ticket : Nat} {q : WaitQueue Nat} {live' : Multiset (Nat × Nat)}
    (h : n.Accounted live ((i, ticket) ::ₘ waiting))
    (hlive : ∀ j ≠ i, onFrame live' j = onFrame live j)
    (hlive_made : ∀ p ∈ live', p.1 < n.frames.length)
    (hitems : q.items + onFrame live' i = (n.frame i).queue.items + onFrame live i)
    (htickets : q.tickets = (n.frame i).queue.tickets.erase ticket)
    (hnext : q.nextTicket = (n.frame i).queue.nextTicket) :
    (n.setQueue i q).Accounted live' waiting := by
  have hi : i < n.frames.length := h.waiting_made (i, ticket) (Multiset.mem_cons_self _ _)
  have hnodup := h.waiting_nodup i hi
  have hissued := h.waiting_issued i hi
  have hwait := h.tickets_wait i hi
  rw [onFrame_cons_self] at hnodup hissued hwait
  refine h.setQueue hi hlive ?_ hitems ?_ (Multiset.nodup_cons.mp hnodup).2 ?_ hlive_made ?_
  · intro j hj
    exact (onFrame_cons_ne ticket waiting hj).symm
  · rw [htickets]
    exact Multiset.erase_le_iff_le_cons.mpr hwait
  · intro t ht
    rw [hnext]
    exact hissued t (Multiset.mem_cons_of_mem ht)
  · intro p hp
    exact h.waiting_made p (Multiset.mem_cons_of_mem hp)

/-- An item of the queue of a frame goes out, or comes back. -/
theorem onFrame_lease (h : n.Accounted live waiting) (hi : i < n.frames.length) (a : Nat) :
    (∀ j ≠ i, onFrame ((i, a) ::ₘ live) j = onFrame live j) ∧
    (∀ p ∈ (i, a) ::ₘ live, p.1 < n.frames.length) := by
  refine ⟨fun j hj => onFrame_cons_ne a live hj, ?_⟩
  intro p hp
  rcases Multiset.mem_cons.mp hp with rfl | hp
  · exact hi
  · exact h.live_made p hp

/-- A frame that was never made has no lease. -/
theorem lt_of_tryLease {h : Handle} {n' : Nest} {reading : Bool}
    (ht : n.tryLease i reading = some (h, n')) : i < n.frames.length := by
  by_contra hi
  have hframe : n.frame i = default := by
    simp [frame, List.getElem?_eq_none (Nat.le_of_not_lt hi)]
  rw [Nest.tryLease, hframe] at ht
  cases ht

theorem frame_of_tryLease {h : Handle} {n' : Nest} {reading : Bool}
    (ht : n.tryLease i reading = some (h, n')) : h.frame = i := by
  obtain ⟨⟨a, q⟩, -, heq⟩ := Option.map_eq_some_iff.mp ht
  cases heq
  rfl

/-- The lease of a frame that was just pushed is there. -/
theorem tryLease_push (n : Nest) (kind : FrameKind) :
    ∃ h n', (n.push kind).2.tryLease (n.push kind).1 false = some (h, n') := by
  have hqueue : ((n.push kind).2.frame (n.push kind).1).queue = .withItem n.frames.length := by
    simp [push, frame]
  unfold Nest.tryLease
  rw [hqueue]
  exact ⟨_, _, rfl⟩

theorem Accounted.tryLease {h : Handle} {n' : Nest} {reading : Bool}
    (ha : n.Accounted live waiting) (hi : i < n.frames.length)
    (ht : n.tryLease i reading = some (h, n')) :
    n'.Accounted (h.lease ::ₘ live) waiting := by
  obtain ⟨⟨a, q⟩, htake, heq⟩ := Option.map_eq_some_iff.mp ht
  obtain ⟨hitems, htickets, hnext⟩ := WaitQueue.tryTake_spec htake
  obtain ⟨hother, hmade⟩ := onFrame_lease ha hi a
  have hset : (n.setQueue i q).Accounted ((i, a) ::ₘ live) waiting := by
    refine ha.setQueue hi hother (fun _ _ => rfl) ?_ ?_ (ha.waiting_nodup i hi) ?_ hmade
      ha.waiting_made
    · rw [onFrame_cons_self, hitems, Multiset.add_cons, Multiset.cons_add]
    · rw [htickets]
      exact ha.tickets_wait i hi
    · rw [hnext]
      exact ha.waiting_issued i hi
  simp only [lease, Prod.mk.injEq] at heq
  obtain ⟨rfl, rfl⟩ := heq
  split
  · exact hset.setReading true
  · exact hset

theorem Accounted.ask (h : n.Accounted live waiting) (hi : i < n.frames.length)
    (cancelled : Bool) :
    (n.ask i cancelled).2.Accounted ((n.ask i cancelled).1.lease i + live)
      ((n.ask i cancelled).1.place i + waiting) := by
  have hspec := WaitQueue.take_spec (n.frame i).queue cancelled
  unfold Nest.ask
  generalize (n.frame i).queue.take cancelled = answer at hspec
  rcases answer with ⟨a | e | t, q⟩
  · obtain ⟨hitems, htickets, hnext⟩ := hspec
    obtain ⟨hother, hmade⟩ := onFrame_lease h hi a
    simp only [Taking.lease, Taking.place, Multiset.singleton_add, zero_add]
    refine h.setQueue hi hother (fun _ _ => rfl) ?_ ?_ (h.waiting_nodup i hi) ?_ hmade
      h.waiting_made
    · rw [onFrame_cons_self, hitems, Multiset.add_cons, Multiset.cons_add]
    · rw [htickets]
      exact h.tickets_wait i hi
    · rw [hnext]
      exact h.waiting_issued i hi
  · have hq : q = (n.frame i).queue := hspec
    simp only [Taking.lease, Taking.place, zero_add]
    subst hq
    exact h.setQueue hi (fun _ _ => rfl) (fun _ _ => rfl) rfl (h.tickets_wait i hi)
      (h.waiting_nodup i hi) (h.waiting_issued i hi) h.live_made h.waiting_made
  · obtain ⟨rfl, hitems, htickets, hnext⟩ := hspec
    have hfresh : (n.frame i).queue.nextTicket ∉ onFrame waiting i :=
      fun hmem => Nat.lt_irrefl _ (h.waiting_issued i hi _ hmem)
    simp only [Taking.lease, Taking.place, Multiset.singleton_add, zero_add]
    refine h.setQueue hi (fun _ _ => rfl) (fun j hj => onFrame_cons_ne _ waiting hj)
      (by rw [hitems]) ?_ ?_ ?_ h.live_made ?_
    · rw [onFrame_cons_self, htickets]
      exact Multiset.cons_le_cons _ (h.tickets_wait i hi)
    · rw [onFrame_cons_self]
      exact Multiset.nodup_cons.mpr ⟨hfresh, h.waiting_nodup i hi⟩
    · intro t ht
      rw [onFrame_cons_self] at ht
      rw [hnext]
      rcases Multiset.mem_cons.mp ht with rfl | ht
      · exact Nat.lt_succ_self _
      · exact Nat.lt_succ_of_lt (h.waiting_issued i hi t ht)
    · intro p hp
      rcases Multiset.mem_cons.mp hp with rfl | hp
      · exact hi
      · exact h.waiting_made p hp

theorem Accounted.look {ticket : Nat} (h : n.Accounted live ((i, ticket) ::ₘ waiting))
    (cancelled : Bool) :
    (n.look i ticket cancelled).2.Accounted ((n.look i ticket cancelled).1.lease i + live)
      ((n.look i ticket cancelled).1.place i + waiting) := by
  have hi : i < n.frames.length := h.waiting_made (i, ticket) (Multiset.mem_cons_self _ _)
  have hspec := WaitQueue.look_spec ticket (h.tickets_nodup hi) cancelled
  unfold Nest.look
  generalize (n.frame i).queue.look ticket cancelled = answer at hspec
  rcases answer with ⟨a | e | t, q⟩
  · obtain ⟨hitems, htickets, hnext⟩ := hspec
    obtain ⟨hother, hmade⟩ := onFrame_lease h hi a
    simp only [Taking.lease, Taking.place, Multiset.singleton_add, zero_add]
    refine h.served hother hmade ?_ htickets hnext
    rw [onFrame_cons_self, hitems, Multiset.add_cons, Multiset.cons_add]
  · obtain ⟨hitems, htickets, hnext⟩ := hspec
    simp only [Taking.lease, Taking.place, zero_add]
    exact h.served (fun _ _ => rfl) h.live_made (by rw [hitems]) htickets hnext
  · obtain ⟨rfl, hq⟩ := hspec
    simp only [Taking.lease, Taking.place, Multiset.singleton_add, zero_add]
    subst hq
    exact h.setQueue hi (fun _ _ => rfl) (fun _ _ => rfl) rfl (h.tickets_wait i hi)
      (h.waiting_nodup i hi) (h.waiting_issued i hi) h.live_made h.waiting_made

/-- A caller that leaves passes on what was on its way to it, and there is room for it. -/
theorem Accounted.withdraw {ticket : Nat} (h : n.Accounted live ((i, ticket) ::ₘ waiting)) :
    (n.withdraw i ticket).1.Accounted live waiting ∧ (n.withdraw i ticket).2 = none := by
  have hi : i < n.frames.length := h.waiting_made (i, ticket) (Multiset.mem_cons_self _ _)
  obtain ⟨hitems, htickets, hnext, hpanic⟩ := WaitQueue.withdraw_spec ticket
    (h.tickets_nodup hi) (h.items_le_one hi)
  have hkept : ((n.frame i).queue.withdraw ticket).1.items + onFrame live i =
      (n.frame i).queue.items + onFrame live i := by rw [hitems]
  exact ⟨h.served (fun _ _ => rfl) h.live_made hkept htickets hnext, hpanic⟩

/-- A lease that is out finds its queue with room for it. -/
theorem Accounted.release {handle : Handle} (h : n.Accounted (handle.lease ::ₘ live) waiting) :
    (n.release handle).1.Accounted live waiting ∧ (n.release handle).2 = none := by
  obtain ⟨a, i, reading⟩ := handle
  have hi : i < n.frames.length := h.live_made (i, a) (Multiset.mem_cons_self _ _)
  have honce := h.invoker_once i hi
  simp only [Handle.lease, onFrame_cons_self, Multiset.add_cons] at honce
  have hcard := congrArg Multiset.card honce
  simp only [Multiset.card_cons, Multiset.card_add, Multiset.card_singleton] at hcard
  have hempty : (n.frame i).queue.items = 0 := Multiset.card_eq_zero.mp (by omega)
  obtain ⟨q, hoffer⟩ := WaitQueue.offer_isSome _ a hempty
  obtain ⟨hitems, htickets, hnext⟩ := WaitQueue.offer_spec hoffer
  have hend := h.endReading ⟨a, i, reading⟩
  simp only [Nest.release, queue_endReading, hoffer, and_true]
  refine hend.setQueue (by simpa using hi) ?_ (fun _ _ => rfl) ?_ ?_ ?_ ?_ ?_ ?_
  · intro j hj
    exact (onFrame_cons_ne a live hj).symm
  · rw [queue_endReading, hitems, Handle.lease, onFrame_cons_self, Multiset.add_cons,
      Multiset.cons_add]
  · rw [htickets]
    exact h.tickets_wait i hi
  · exact h.waiting_nodup i hi
  · rw [hnext]
    exact h.waiting_issued i hi
  · intro p hp
    simpa using h.live_made p (Multiset.mem_cons_of_mem hp)
  · simpa using h.waiting_made

theorem Accounted.pop {id : Nat} {n' : Nest} (h : n.Accounted live waiting)
    (hpop : n.pop = .ok (id, n')) : n'.Accounted live waiting := by
  unfold Nest.pop at hpop
  split at hpop
  · cases hpop
  · next j above habove =>
    cases hpop
    have hj : id < n.frames.length := h.above_made id (by simp [habove])
    have hmono : (⟨n.frames, above⟩ : Nest).Accounted live waiting :=
      h.of_queues rfl (by intro k hk; simp [habove, hk]) (fun _ => rfl)
    exact hmono.setQueue hj (fun _ _ => rfl) (fun _ _ => rfl) (by rw [WaitQueue.items_close]; rfl)
      ((WaitQueue.tickets_close_le _).trans (h.tickets_wait id hj)) (h.waiting_nodup id hj)
      (h.waiting_issued id hj) h.live_made h.waiting_made

theorem Accounted.popFrame {frame id : Nat} {n' : Nest} (h : n.Accounted live waiting)
    (hpop : n.popFrame frame = .ok (id, n')) : n'.Accounted live waiting := by
  unfold Nest.popFrame at hpop
  split at hpop
  · exact h.pop hpop
  · cases hpop

/-- A pushed frame has its invoker in its slot, and nobody waits on it yet. -/
theorem Accounted.push (h : n.Accounted live waiting) (kind : FrameKind) :
    (n.push kind).2.Accounted live waiting := by
  have hold : ∀ j < n.frames.length, (n.push kind).2.frame j = n.frame j := by
    intro j hj
    simp [Nest.push, frame, List.getElem?_append_left hj]
  have hnew : ((n.push kind).2.frame n.frames.length).queue = .withItem n.frames.length := by
    simp [Nest.push, frame]
  have hlength : (n.push kind).2.frames.length = n.frames.length + 1 := by simp [Nest.push]
  have hnone : ∀ m : Multiset (Nat × Nat), (∀ p ∈ m, p.1 < n.frames.length) →
      onFrame m n.frames.length = 0 := by
    intro m hm
    apply Multiset.eq_zero_of_forall_notMem
    intro a ha
    exact Nat.lt_irrefl _ (hm _ (mem_onFrame.mp ha))
  have hlive := hnone live h.live_made
  have hwaiting := hnone waiting h.waiting_made
  have hcases : ∀ j < (n.push kind).2.frames.length, j < n.frames.length ∨ j = n.frames.length := by
    intro j hj
    omega
  refine ⟨?_, ?_, ?_, ?_, ?_, ?_, ?_, by omega⟩
  · intro j hj
    rcases hcases j hj with hj | rfl
    · rw [hold j hj]
      exact h.invoker_once j hj
    · rw [hnew, hlive, WaitQueue.items_withItem, add_zero]
  · intro j hj
    rcases hcases j hj with hj | rfl
    · rw [hold j hj]
      exact h.tickets_wait j hj
    · rw [hnew, WaitQueue.tickets_withItem]
      exact Multiset.zero_le _
  · intro j hj
    rcases hcases j hj with hj | rfl
    · exact h.waiting_nodup j hj
    · rw [hwaiting]
      exact Multiset.nodup_zero
  · intro j hj t ht
    rcases hcases j hj with hj | rfl
    · rw [hold j hj]
      exact h.waiting_issued j hj t ht
    · rw [hwaiting] at ht
      exact absurd ht (Multiset.notMem_zero t)
  · intro p hp
    have := h.live_made p hp
    omega
  · intro p hp
    have := h.waiting_made p hp
    omega
  · intro j hj
    have hj : j = n.frames.length ∨ j ∈ n.above := by simpa [Nest.push] using hj
    rcases hj with rfl | hj
    · omega
    · have := h.above_made j hj
      omega

end Operations

theorem initial_accounted : initial.Accounted 0 0 := by
  refine ⟨?_, ?_, ?_, ?_, by simp, by simp, by simp [initial], by simp [initial]⟩ <;>
    intro j hj <;> obtain rfl : j = 0 := by simpa [initial] using hj
  all_goals simp [initial, frame]

end Nest

end ScriptHost
