import ScriptHost.Proofs.LeaseAccounts

/-!
Which frames stand on the stack of a prompt nest. What callers do to the queues of its
frames changes neither the stack nor which frames are popped, and a queue that was
closed with nobody parked on it hands nothing over any more. From that follows, for a
nest built by pushes and pops, that a frame is popped exactly if it has left the stack.
Who holds the leases does not matter here.
-/

namespace ScriptHost

namespace WaitQueue

variable {α : Type}

/-- What callers can do to a queue: they do not close or reopen it, and on a closed queue
without parked callers nobody is parked again and nothing more is handed over. -/
structure Served (q q' : WaitQueue α) : Prop where
  closed : q'.closed = q.closed
  quiet : q.closed = true → q.parked = [] → q'.parked = [] ∧ q'.handed.Sublist q.handed

theorem Served.refl (q : WaitQueue α) : q.Served q :=
  ⟨rfl, fun _ hparked => ⟨hparked, List.Sublist.refl _⟩⟩

theorem Served.trans {q q' q'' : WaitQueue α} (h : q.Served q') (h' : q'.Served q'') :
    q.Served q'' := by
  refine ⟨h'.closed.trans h.closed, fun hclosed hparked => ?_⟩
  obtain ⟨hparked', hhanded⟩ := h.quiet hclosed hparked
  obtain ⟨hparked'', hhanded'⟩ := h'.quiet (h.closed.trans hclosed) hparked'
  exact ⟨hparked'', hhanded'.trans hhanded⟩

theorem served_without (q : WaitQueue α) (ticket : Nat) :
    q.Served (q.withoutHanded ticket) ∧ q.Served (q.withoutParked ticket) := by
  refine ⟨⟨rfl, fun _ hparked => ⟨hparked, List.filter_sublist⟩⟩, rfl, fun _ hparked => ?_⟩
  exact ⟨by simp [withoutParked, hparked], List.Sublist.refl _⟩

theorem served_offer {q q' : WaitQueue α} {a : α} (h : q.offer a = some q') : q.Served q' := by
  unfold offer at h
  split at h
  · next t rest hsome =>
    cases h
    refine ⟨rfl, fun _ hparked => ?_⟩
    rw [hsome] at hparked
    cases hparked
  · cases h
    exact ⟨rfl, fun _ hparked => ⟨hparked, List.Sublist.refl _⟩⟩
  · cases h

/-- An item is taken from a queue that is open. -/
theorem served_tryTake {q q' : WaitQueue α} {a : α} (h : q.tryTake = some (a, q')) :
    q.closed = false ∧ q.Served q' := by
  unfold tryTake at h
  split at h
  · cases h
  · next hopen =>
    obtain ⟨b, -, hb⟩ := Option.map_eq_some_iff.mp h
    cases hb
    exact ⟨by simpa using hopen, rfl, fun _ hparked => ⟨hparked, List.Sublist.refl _⟩⟩

/-- A new caller changes an open queue only, and so gets its item from one. -/
theorem served_take (q : WaitQueue α) (cancelled : Bool) :
    q.Served (q.take cancelled).2 ∧
      ∀ a, (q.take cancelled).1 = .item a → q.closed = false := by
  unfold take
  cases hclosed : q.closed with
  | true => exact ⟨by simpa using Served.refl q, by simp⟩
  | false =>
    have hopen : ∀ q' : WaitQueue α, q'.closed = q.closed → q.Served q' := by
      intro q' heq
      refine ⟨heq, fun h => ?_⟩
      rw [hclosed] at h
      cases h
    cases q.slot with
    | some a => exact ⟨hopen _ rfl, by simp⟩
    | none =>
      cases cancelled with
      | true => exact ⟨Served.refl q, by simp⟩
      | false => exact ⟨hopen _ hclosed.symm, by simp⟩

/-- A waiting caller gets the item that was handed to it, and no other. -/
theorem served_look (q : WaitQueue α) (ticket : Nat) (cancelled : Bool) :
    q.Served (q.look ticket cancelled).2 ∧
      ∀ a, (q.look ticket cancelled).1 = .item a ↔ q.handed.lookup ticket = some a := by
  unfold look
  cases hlookup : q.handed.lookup ticket with
  | some b => exact ⟨(served_without q ticket).1, by simp⟩
  | none =>
    dsimp only
    split
    · exact ⟨Served.refl q, by simp⟩
    · split
      · exact ⟨(served_without q ticket).2, by simp⟩
      · exact ⟨Served.refl q, by simp⟩

theorem served_withdraw (q : WaitQueue α) (ticket : Nat) : q.Served (q.withdraw ticket).1 := by
  have hleft : q.Served ((q.withoutParked ticket).withoutHanded ticket) :=
    (served_without q ticket).2.trans (served_without _ ticket).1
  unfold withdraw
  cases q.handed.lookup ticket with
  | none => exact hleft
  | some a =>
    dsimp only
    split
    · next q' hoffer => exact hleft.trans (served_offer hoffer)
    · exact hleft

end WaitQueue

namespace Nest

/-- Two nests with the same frames on the same stack, after some callers were served. -/
structure Alike (n n' : Nest) : Prop where
  above : n'.above = n.above
  length : n'.frames.length = n.frames.length
  kind : ∀ i, (n'.frame i).kind = (n.frame i).kind
  served : ∀ i, (n.frame i).queue.Served (n'.frame i).queue

section Alike

variable {n n' : Nest} {i : Nat}

theorem Alike.refl (n : Nest) : n.Alike n :=
  ⟨rfl, rfl, fun _ => rfl, fun _ => .refl _⟩

theorem Alike.trans {n'' : Nest} (h : n.Alike n') (h' : n'.Alike n'') : n.Alike n'' :=
  ⟨h'.above.trans h.above, h'.length.trans h.length, fun i => (h'.kind i).trans (h.kind i),
    fun i => (h.served i).trans (h'.served i)⟩

theorem Alike.stack (h : n.Alike n') : n'.stack = n.stack := by
  rw [Nest.stack, Nest.stack, h.above]

theorem Alike.top (h : n.Alike n') : n'.top = n.top := by
  rw [Nest.top, Nest.top, h.above]

theorem Alike.isPopped (h : n.Alike n') (i : Nat) :
    (n'.frame i).isPopped = (n.frame i).isPopped :=
  (h.served i).closed

theorem frame_of_not_made (h : n.frames.length ≤ i) : n.frame i = default := by
  rw [frame, List.getElem?_eq_none h, Option.getD_none]

/-- An update that keeps the kind of a frame and serves callers of its queue. -/
theorem alike_update (n : Nest) (i : Nat) {f : Frame → Frame}
    (hkind : (f (n.frame i)).kind = (n.frame i).kind)
    (hserved : (n.frame i).queue.Served (f (n.frame i)).queue) : n.Alike (n.update i f) := by
  have hframe : ∀ j, (n.update i f).frame j = n.frame j ∨
      j = i ∧ (n.update i f).frame j = f (n.frame i) := by
    intro j
    by_cases hji : j = i
    · by_cases hi : i < n.frames.length
      · exact Or.inr ⟨hji, hji ▸ frame_update_self n i f hi⟩
      · left
        have hi := Nat.le_of_not_lt hi
        rw [hji, frame_of_not_made hi, frame_of_not_made (by simpa using hi)]
    · exact Or.inl (frame_update_ne n i j f hji)
  refine ⟨rfl, length_update n i f, fun j => ?_, fun j => ?_⟩
  · rcases hframe j with heq | ⟨rfl, heq⟩
    · rw [heq]
    · rw [heq, hkind]
  · rcases hframe j with heq | ⟨rfl, heq⟩
    · rw [heq]
      exact .refl _
    · rw [heq]
      exact hserved

theorem alike_setReading (n : Nest) (i : Nat) (b : Bool) : n.Alike (n.setReading i b) :=
  alike_update n i rfl (.refl _)

theorem alike_setQueue (n : Nest) (i : Nat) {q : WaitQueue Nat}
    (h : (n.frame i).queue.Served q) : n.Alike (n.setQueue i q) :=
  alike_update n i rfl h

theorem alike_lease (n : Nest) (i invoker : Nat) (forReading : Bool) :
    n.Alike (n.lease i invoker forReading).2 := by
  unfold lease
  split
  · exact alike_setReading n i true
  · exact .refl n

theorem alike_endReading (n : Nest) (h : Handle) : n.Alike (n.endReading h) := by
  unfold endReading
  split
  · exact alike_setReading n h.frame false
  · exact .refl n

theorem alike_ask (n : Nest) (i : Nat) (cancelled : Bool) : n.Alike (n.ask i cancelled).2 :=
  alike_setQueue n i (WaitQueue.served_take _ cancelled).1

theorem alike_look (n : Nest) (i ticket : Nat) (cancelled : Bool) :
    n.Alike (n.look i ticket cancelled).2 :=
  alike_setQueue n i (WaitQueue.served_look _ ticket cancelled).1

theorem alike_withdraw (n : Nest) (i ticket : Nat) : n.Alike (n.withdraw i ticket).1 :=
  alike_setQueue n i (WaitQueue.served_withdraw _ ticket)

theorem alike_release (n : Nest) (h : Handle) : n.Alike (n.release h).1 := by
  have hend := alike_endReading n h
  unfold release
  dsimp only
  split
  · next q hoffer => exact hend.trans (alike_setQueue _ _ (WaitQueue.served_offer hoffer))
  · exact hend

/-- A lease is taken only of a frame that is not popped. -/
theorem alike_tryLease {handle : Handle} {forReading : Bool}
    (h : n.tryLease i forReading = some (handle, n')) :
    (n.frame i).isPopped = false ∧ n.Alike n' := by
  obtain ⟨⟨a, q⟩, htake, heq⟩ := Option.map_eq_some_iff.mp h
  obtain ⟨hopen, hserved⟩ := WaitQueue.served_tryTake htake
  have hlease := (alike_setQueue n i hserved).trans
    (alike_lease (n.setQueue i q) i a forReading)
  dsimp only at heq
  rw [heq] at hlease
  exact ⟨hopen, hlease⟩

end Alike

/-- Callers were served, and no frame was marked as being read on. -/
structure Serves (n n' : Nest) : Prop where
  alike : n.Alike n'
  unmarked : ∀ i, (n'.frame i).reading = true → (n.frame i).reading = true

section Serves

variable {n n' : Nest} {i : Nat}

theorem Serves.refl (n : Nest) : n.Serves n :=
  ⟨.refl n, fun _ h => h⟩

theorem Serves.trans {n'' : Nest} (h : n.Serves n') (h' : n'.Serves n'') : n.Serves n'' :=
  ⟨h.alike.trans h'.alike, fun i hi => h.unmarked i (h'.unmarked i hi)⟩

theorem unmarked_update (n : Nest) (i : Nat) {f : Frame → Frame}
    (hf : (f (n.frame i)).reading = true → (n.frame i).reading = true) (j : Nat)
    (hj : ((n.update i f).frame j).reading = true) : (n.frame j).reading = true := by
  by_cases hji : j = i
  · by_cases hi : i < n.frames.length
    · rw [hji, frame_update_self n i f hi] at hj
      exact hji ▸ hf hj
    · have hi : (n.update i f).frames.length ≤ i := by simpa using hi
      rw [hji, frame_of_not_made hi] at hj
      cases hj
  · rwa [frame_update_ne n i j f hji] at hj

theorem serves_setQueue (n : Nest) (i : Nat) {q : WaitQueue Nat}
    (h : (n.frame i).queue.Served q) : n.Serves (n.setQueue i q) :=
  ⟨alike_setQueue n i h, unmarked_update n i fun hreading => hreading⟩

theorem serves_ask (n : Nest) (i : Nat) (cancelled : Bool) : n.Serves (n.ask i cancelled).2 :=
  serves_setQueue n i (WaitQueue.served_take _ cancelled).1

theorem serves_look (n : Nest) (i ticket : Nat) (cancelled : Bool) :
    n.Serves (n.look i ticket cancelled).2 :=
  serves_setQueue n i (WaitQueue.served_look _ ticket cancelled).1

theorem serves_withdraw (n : Nest) (i ticket : Nat) : n.Serves (n.withdraw i ticket).1 :=
  serves_setQueue n i (WaitQueue.served_withdraw _ ticket)

theorem serves_endReading (n : Nest) (h : Handle) : n.Serves (n.endReading h) := by
  refine ⟨alike_endReading n h, ?_⟩
  unfold endReading
  split
  · exact unmarked_update n h.frame (by simp)
  · exact fun _ hi => hi

/-- A prompt that stops reading leaves its frame unmarked. -/
theorem reading_endReading {h : Handle} (hreading : h.forReading = true) :
    ((n.endReading h).frame h.frame).reading = false := by
  rw [endReading, if_pos hreading]
  by_cases hi : h.frame < n.frames.length
  · rw [setReading, frame_update_self n h.frame _ hi]
  · rw [frame_of_not_made (by simpa using hi)]
    rfl

theorem serves_release (n : Nest) (h : Handle) : n.Serves (n.release h).1 := by
  have hend := serves_endReading n h
  unfold release
  dsimp only
  split
  · next q hoffer => exact hend.trans (serves_setQueue _ _ (WaitQueue.served_offer hoffer))
  · exact hend

theorem serves_tryLease {handle : Handle} (h : n.tryLease i false = some (handle, n')) :
    n.Serves n' := by
  obtain ⟨⟨a, q⟩, htake, heq⟩ := Option.map_eq_some_iff.mp h
  cases heq
  exact serves_setQueue n i (WaitQueue.served_tryTake htake).2

/-- Only the frame that is read on is marked. -/
theorem reading_setReading {j : Nat} (hj : ((n.setReading i true).frame j).reading = true) :
    j = i ∨ (n.frame j).reading = true := by
  by_cases hji : j = i
  · exact Or.inl hji
  · rw [setReading, frame_update_ne n i j _ hji] at hj
    exact Or.inr hj

end Serves

/-- The stack of a nest: its frames are made and stand on it once, a frame is popped exactly
if it is not on the stack, and nobody is parked on a popped frame. -/
structure Standing (n : Nest) : Prop where
  stack_nodup : n.stack.Nodup
  stack_made : ∀ i ∈ n.stack, i < n.frames.length
  popped_iff : ∀ i < n.frames.length, (n.frame i).isPopped = true ↔ i ∉ n.stack
  none_parked : ∀ i, (n.frame i).isPopped = true → (n.frame i).queue.parked = []

section Standing

variable {n n' : Nest} {i : Nat}

theorem initial_standing : initial.Standing := by
  refine ⟨by simp [initial, stack], by simp [initial, stack], ?_, ?_⟩
  · intro i hi
    obtain rfl : i = 0 := by simpa [initial] using hi
    simp [initial, frame, stack, Frame.isPopped, WaitQueue.withItem]
  · intro i _
    cases i <;> rfl

theorem Standing.of_alike (h : n.Standing) (ha : n.Alike n') : n'.Standing where
  stack_nodup := ha.stack ▸ h.stack_nodup
  stack_made i hi := by
    rw [ha.stack] at hi
    rw [ha.length]
    exact h.stack_made i hi
  popped_iff i hi := by
    rw [ha.length] at hi
    rw [ha.stack, ha.isPopped, h.popped_iff i hi]
  none_parked i hi := by
    rw [ha.isPopped] at hi
    exact ((ha.served i).quiet hi (h.none_parked i hi)).1

/-- Nothing more is handed over on a popped frame. -/
theorem Standing.handed_of_alike (h : n.Standing) (ha : n.Alike n')
    (hi : (n.frame i).isPopped = true) :
    (n'.frame i).queue.handed.Sublist (n.frame i).queue.handed :=
  ((ha.served i).quiet hi (h.none_parked i hi)).2

@[simp] theorem length_frames_push (n : Nest) (kind : FrameKind) :
    (n.push kind).2.frames.length = n.frames.length + 1 := by
  simp [push]

@[simp] theorem stack_push (n : Nest) (kind : FrameKind) :
    (n.push kind).2.stack = n.frames.length :: n.stack := rfl

theorem frame_push_of_lt (kind : FrameKind) (hi : i < n.frames.length) :
    (n.push kind).2.frame i = n.frame i := by
  simp [push, frame, List.getElem?_append_left hi]

theorem queue_push_new (n : Nest) (kind : FrameKind) :
    ((n.push kind).2.frame n.frames.length).queue = .withItem n.frames.length := by
  simp [push, frame]

theorem Standing.push (h : n.Standing) (kind : FrameKind) : (n.push kind).2.Standing := by
  have hnew : n.frames.length ∉ n.stack := fun hmem => Nat.lt_irrefl _ (h.stack_made _ hmem)
  refine ⟨?_, ?_, ?_, ?_⟩
  · rw [stack_push]
    exact List.nodup_cons.mpr ⟨hnew, h.stack_nodup⟩
  · intro i hi
    rw [length_frames_push]
    rcases List.mem_cons.mp hi with rfl | hi
    · exact Nat.lt_succ_self _
    · exact Nat.lt_succ_of_lt (h.stack_made i hi)
  · intro i hi
    rw [length_frames_push] at hi
    rw [stack_push, List.mem_cons, not_or]
    rcases Nat.lt_succ_iff_lt_or_eq.mp hi with hi | rfl
    · rw [frame_push_of_lt kind hi, h.popped_iff i hi]
      exact (and_iff_right hi.ne).symm
    · simp [Frame.isPopped, queue_push_new, WaitQueue.withItem]
  · intro i hi
    rcases Nat.lt_trichotomy i n.frames.length with hlt | rfl | hgt
    · rw [frame_push_of_lt kind hlt] at hi ⊢
      exact h.none_parked i hi
    · rw [queue_push_new]
      rfl
    · rw [frame_of_not_made (by rw [length_frames_push]; exact hgt)]
      rfl

/-- A pushed frame is not read on, and no other is because of it. -/
theorem unmarked_push (n : Nest) (kind : FrameKind) (i : Nat)
    (hi : ((n.push kind).2.frame i).reading = true) : (n.frame i).reading = true := by
  rcases Nat.lt_trichotomy i n.frames.length with hlt | rfl | hgt
  · rwa [frame_push_of_lt kind hlt] at hi
  · simp [push, frame] at hi
  · rw [frame_of_not_made (by rw [length_frames_push]; exact hgt)] at hi
    cases hi

theorem isLoop_push_new (n : Nest) (kind : FrameKind) :
    ((n.push kind).2.frame n.frames.length).kind.isLoop = kind.isLoop := by
  simp only [push, frame, List.getElem?_concat_length, Option.getD_some]
  split
  · simp [FrameKind.isLoop, FrameKind.union, FrameKind.remoteSession]
  · rfl

/-- What a pop does: the innermost frame leaves the stack and its queue is closed. -/
theorem pop_spec (h : n.pop = .ok (i, n')) :
    n.above = i :: n'.above ∧
      n' = { n with above := n'.above }.setQueue i (n.frame i).queue.close := by
  unfold pop at h
  split at h
  · cases h
  · next j above habove =>
    cases h
    exact ⟨habove, rfl⟩

theorem pop_of_popFrame {frame : Nat} (h : n.popFrame frame = .ok (i, n')) :
    frame = n.top ∧ i = frame ∧ n.pop = .ok (i, n') := by
  unfold popFrame at h
  split at h
  · next htop =>
    refine ⟨htop.symm, ?_, h⟩
    rw [← htop, Nest.top, (pop_spec h).1]
    rfl
  · cases h

theorem stack_of_pop (h : n.pop = .ok (i, n')) : n.stack = i :: n'.stack := by
  rw [stack, (pop_spec h).1]
  rfl

theorem length_of_pop (h : n.pop = .ok (i, n')) : n'.frames.length = n.frames.length := by
  rw [(pop_spec h).2]
  exact length_setQueue _ _ _

theorem frame_of_pop_ne (h : n.pop = .ok (i, n')) {j : Nat} (hj : j ≠ i) :
    n'.frame j = n.frame j := by
  rw [(pop_spec h).2]
  exact frame_update_ne _ i j _ hj

theorem frame_of_pop (h : n.pop = .ok (i, n')) (j : Nat) :
    (n'.frame j).kind = (n.frame j).kind ∧ (n'.frame j).reading = (n.frame j).reading := by
  by_cases hji : j = i
  · by_cases hi : i < n.frames.length
    · have hself : n'.frame i = { n.frame i with queue := (n.frame i).queue.close } := by
        rw [(pop_spec h).2]
        exact frame_update_self _ i _ hi
      rw [hji, hself]
      exact ⟨rfl, rfl⟩
    · have hi := Nat.le_of_not_lt hi
      rw [hji, frame_of_not_made hi, frame_of_not_made (by rwa [length_of_pop h])]
      exact ⟨rfl, rfl⟩
  · rw [frame_of_pop_ne h hji]
    exact ⟨rfl, rfl⟩

theorem Standing.queue_of_pop (hs : n.Standing) (h : n.pop = .ok (i, n')) :
    (n'.frame i).queue = (n.frame i).queue.close := by
  have hi : i < n.frames.length := hs.stack_made i (by rw [stack_of_pop h]; simp)
  rw [(pop_spec h).2]
  exact congrArg Frame.queue (frame_update_self _ i _ hi)

theorem Standing.pop (hs : n.Standing) (h : n.pop = .ok (i, n')) : n'.Standing := by
  have hstack := stack_of_pop h
  have hnodup := hs.stack_nodup
  rw [hstack, List.nodup_cons] at hnodup
  have hclosed := hs.queue_of_pop h
  refine ⟨hnodup.2, ?_, ?_, ?_⟩
  · intro j hj
    rw [length_of_pop h]
    exact hs.stack_made j (by rw [hstack]; exact List.mem_cons_of_mem i hj)
  · intro j hj
    rw [length_of_pop h] at hj
    by_cases hji : j = i
    · rw [hji, Frame.isPopped, hclosed]
      exact iff_of_true rfl hnodup.1
    · rw [frame_of_pop_ne h hji, hs.popped_iff j hj, hstack, List.mem_cons, not_or]
      exact and_iff_right hji
  · intro j hj
    by_cases hji : j = i
    · rw [hji, hclosed]
      rfl
    · rw [frame_of_pop_ne h hji] at hj ⊢
      exact hs.none_parked j hj

/-- What is left when `frame` is popped if it is innermost; one that is not stays. -/
def without (n : Nest) (frame : Nat) : Nest :=
  match n.popFrame frame with
  | .ok (_, n') => n'
  | .error _ => n

theorem without_spec (n : Nest) (frame : Nat) :
    n.pop = .ok (frame, n.without frame) ∨
      n.without frame = n ∧ (frame = n.top → n.above = []) := by
  unfold without
  cases hpop : n.popFrame frame with
  | ok p =>
    obtain ⟨-, rfl, hpop'⟩ := pop_of_popFrame hpop
    exact Or.inl hpop'
  | error e =>
    refine Or.inr ⟨rfl, ?_⟩
    rintro rfl
    rw [popFrame, if_pos rfl, pop] at hpop
    split at hpop
    · next hempty => exact hempty
    · cases hpop

theorem popTop_spec (n : Nest) :
    n.pop = .ok (n.top, n.popTop) ∨ n.popTop = n ∧ n.above = [] := by
  unfold popTop
  cases hpop : n.pop with
  | ok p =>
    obtain ⟨i, n'⟩ := p
    have htop : n.top = i := by rw [top, (pop_spec hpop).1]; rfl
    exact .inl (by rw [htop])
  | error e =>
    refine .inr ⟨rfl, ?_⟩
    rw [pop] at hpop
    split at hpop
    · next hempty => exact hempty
    · cases hpop

/-- All that can happen to a nest in one step: callers are served, a frame is pushed, or the
innermost frame is popped. -/
inductive Change (n : Nest) : Nest → Prop
  | served {n' : Nest} (h : n.Alike n') : Change n n'
  | pushed (kind : FrameKind) : Change n (n.push kind).2
  | popped {i : Nat} {n' : Nest} (h : n.pop = .ok (i, n')) : Change n n'

theorem Standing.change (hs : n.Standing) (h : n.Change n') : n'.Standing := by
  cases h with
  | served ha => exact hs.of_alike ha
  | pushed kind => exact hs.push kind
  | popped hpop => exact hs.pop hpop

/-- A frame that has left the stack hands nothing more over, whatever happens. -/
theorem Standing.handed_of_change (hs : n.Standing) (h : n.Change n') (hi : i < n.frames.length)
    (hoff : i ∉ n.stack) : (n'.frame i).queue.handed.Sublist (n.frame i).queue.handed := by
  cases h with
  | served ha => exact hs.handed_of_alike ha ((hs.popped_iff i hi).mpr hoff)
  | pushed kind => rw [frame_push_of_lt kind hi]
  | popped hpop =>
    rw [stack_of_pop hpop, List.mem_cons, not_or] at hoff
    rw [frame_of_pop_ne hpop hoff.1]

theorem change_without (n : Nest) (frame : Nat) : n.Change (n.without frame) := by
  rcases n.without_spec frame with hpop | ⟨hsame, -⟩
  · exact .popped hpop
  · rw [hsame]
    exact .served (.refl n)

theorem change_popTop (n : Nest) : n.Change n.popTop := by
  rcases n.popTop_spec with hpop | ⟨hsame, -⟩
  · exact .popped hpop
  · rw [hsame]
    exact .served (.refl n)

theorem change_popFrame {frame : Nat} (h : n.popFrame frame = .ok (i, n')) : n.Change n' :=
  .popped (pop_of_popFrame h).2.2

end Standing

end Nest

end ScriptHost
